import RivetLua.Bytecode.Transport

namespace RivetLua.Bytecode.Transport

open Wire

/-!
# Bytecode — the signature of RVLU bytes

The helper declarations of a module carry a SHA-256 digest of its RVLU bytes, so that they fit no
other module.

* `Sha256.absorb` — whole blocks;
* `sha256` — the digest, and `length_sha256`.
-/

namespace Sha256

/-- `SHA256_K`. -/
def constants : List UInt32 :=
  [0x428a2f98, 0x71374491, 0xb5c0fbcf, 0xe9b5dba5, 0x3956c25b, 0x59f111f1, 0x923f82a4, 0xab1c5ed5,
    0xd807aa98, 0x12835b01, 0x243185be, 0x550c7dc3, 0x72be5d74, 0x80deb1fe, 0x9bdc06a7, 0xc19bf174,
    0xe49b69c1, 0xefbe4786, 0x0fc19dc6, 0x240ca1cc, 0x2de92c6f, 0x4a7484aa, 0x5cb0a9dc, 0x76f988da,
    0x983e5152, 0xa831c66d, 0xb00327c8, 0xbf597fc7, 0xc6e00bf3, 0xd5a79147, 0x06ca6351, 0x14292967,
    0x27b70a85, 0x2e1b2138, 0x4d2c6dfc, 0x53380d13, 0x650a7354, 0x766a0abb, 0x81c2c92e, 0x92722c85,
    0xa2bfe8a1, 0xa81a664b, 0xc24b8b70, 0xc76c51a3, 0xd192e819, 0xd6990624, 0xf40e3585, 0x106aa070,
    0x19a4c116, 0x1e376c08, 0x2748774c, 0x34b0bcb5, 0x391c0cb3, 0x4ed8aa4a, 0x5b9cca4f, 0x682e6ff3,
    0x748f82ee, 0x78a5636f, 0x84c87814, 0x8cc70208, 0x90befffa, 0xa4506ceb, 0xbef9a3f7, 0xc67178f2]

/-- The eight words of the state. -/
structure State where
  a : UInt32
  b : UInt32
  c : UInt32
  d : UInt32
  e : UInt32
  f : UInt32
  g : UInt32
  h : UInt32

/-- The state of an empty digest. -/
def State.initial : State :=
  ⟨0x6a09e667, 0xbb67ae85, 0x3c6ef372, 0xa54ff53a, 0x510e527f, 0x9b05688c, 0x1f83d9ab, 0x5be0cd19⟩

/-- `rotate_right`. -/
def rotateRight (word : UInt32) (n : UInt32) : UInt32 := (word >>> n) ||| (word <<< (32 - n))

/-- The number that bytes denote, the highest first. -/
def ofBigEndian (bytes : List UInt8) : Nat := ofLittleEndian bytes.reverse

/-- The words of a block in front of the message schedule. -/
def blockWords (block : List UInt8) : List UInt32 :=
  (List.range 16).map fun index => UInt32.ofNat (ofBigEndian ((block.drop (4 * index)).take 4))

/-- The next word of the message schedule. -/
def nextWord (words : List UInt32) : UInt32 :=
  let word := fun back => words.getD (words.length - back) 0
  let left := rotateRight (word 15) 7 ^^^ rotateRight (word 15) 18 ^^^ (word 15 >>> 3)
  let right := rotateRight (word 2) 17 ^^^ rotateRight (word 2) 19 ^^^ (word 2 >>> 10)
  word 16 + left + word 7 + right

/-- The message schedule, by so many words longer. -/
def schedule : Nat → List UInt32 → List UInt32
  | 0, words => words
  | n + 1, words => schedule n (words ++ [nextWord words])

/-- One round, with a constant and a word of the schedule. -/
def round (work : State) (input : UInt32 × UInt32) : State :=
  let choose := (work.e &&& work.f) ^^^ (~~~work.e &&& work.g)
  let majority := (work.a &&& work.b) ^^^ (work.a &&& work.c) ^^^ (work.b &&& work.c)
  let first := work.h + (rotateRight work.e 6 ^^^ rotateRight work.e 11 ^^^ rotateRight work.e 25)
    + choose + input.1 + input.2
  let second := (rotateRight work.a 2 ^^^ rotateRight work.a 13 ^^^ rotateRight work.a 22) + majority
  ⟨first + second, work.a, work.b, work.c, work.d + first, work.e, work.f, work.g⟩

/-- `sha256_block`. -/
def block (state : State) (bytes : List UInt8) : State :=
  let work := (constants.zip (schedule 48 (blockWords bytes))).foldl round state
  ⟨state.a + work.a, state.b + work.b, state.c + work.c, state.d + work.d, state.e + work.e,
    state.f + work.f, state.g + work.g, state.h + work.h⟩

/-- The blocks in front of bytes, so many of them, and the bytes behind them. -/
def absorb : Nat → State → List UInt8 → State × List UInt8
  | 0, state, bytes => (state, bytes)
  | n + 1, state, bytes => absorb n (block state (bytes.take 64)) (bytes.drop 64)

/-- The bytes of a number, the highest first. -/
def bigEndian (width value : Nat) : List UInt8 := (littleEndian width value).reverse

/-- The last blocks: what is left of the bytes, a one, zeros, and the length in bits. -/
def finalBlocks (rest : List UInt8) (bitLength : Nat) : List UInt8 :=
  let used := if rest.length < 56 then 64 else 128
  rest ++ [0x80] ++ List.replicate (used - 8 - (rest.length + 1)) 0 ++ bigEndian 8 bitLength

/-- The bytes of a state. -/
def State.output (state : State) : List UInt8 :=
  [state.a, state.b, state.c, state.d, state.e, state.f, state.g, state.h].flatMap fun word =>
    bigEndian 4 word.toNat

end Sha256

open Sha256 in
/-- `sha256`. -/
def sha256 (bytes : List UInt8) : Except TransportError (List UInt8) :=
  if bytes.length * 8 ≥ 2 ^ 64 then .error (limit "RVLU signature 長度溢位")
  else
    let (state, rest) := absorb (bytes.length / 64) .initial bytes
    let last := finalBlocks rest (bytes.length * 8)
    .ok (absorb (last.length / 64) state last).1.output

/-- A digest has 32 bytes. -/
theorem length_sha256 {bytes words : List UInt8} (h : sha256 bytes = .ok words) :
    words.length = 32 := by
  unfold sha256 at h
  split at h
  · cases h
  · cases h
    simp [Sha256.State.output, Sha256.bigEndian]

end RivetLua.Bytecode.Transport
