import RivetLua.Core.Profile
import RivetLua.Core.NumberText
import Mathlib.Data.List.Basic
import Mathlib.Tactic.IntervalCases
import Mathlib.Tactic.Ring

namespace RivetLua.Stdlib.Utf8

open RivetLua.Core

/-!
# Stdlib — the UTF-8 library

The library works on raw bytes and byte positions.  Budget charges and allocation failures stop a
call without a result, so the functions here are those of a call that is neither stopped nor out
of memory; positions and counts, which are `usize` and `i64` in the source, stay below the length
of a string and are natural numbers.  Arguments are the integers they have been converted to.

* `decode`, `encode` — one character;
* `len`, `codepoint`, `charBytes`, `codes`, `iterator` — the library functions;
* `decode_encode` — what is written is read back, wherever it stands;
* `encode_of_decode` — only what would be written is read.
-/

/-- The two errors of the library. -/
inductive Utf8Error where
  | argument | sequence
  deriving DecidableEq, Repr

/-- `MAX_UTF`. -/
def maxUtf : Nat := 0x7fffffff

/-- `MAX_UNICODE`. -/
def maxUnicode : Nat := 0x10ffff

/-- `LIMITS`: the least code of each length, by the number of continuation bytes. -/
def leastCode : List Nat := [0xffffffff, 0x80, 0x800, 0x10000, 0x200000, 0x4000000]

/-! ### One character -/

/-- `byte_at`: a zero behind the end. -/
def byteAt (bytes : List UInt8) (index : Nat) : UInt8 := bytes.getD index 0

/-- `is_cont`. -/
def isCont (byte : UInt8) : Bool := byte &&& 0xc0 == 0x80

/-- `u8::leading_ones`. -/
def leadingOnes (byte : UInt8) : Nat :=
  if byte < 0x80 then 0
  else if byte < 0xc0 then 1
  else if byte < 0xe0 then 2
  else if byte < 0xf0 then 3
  else if byte < 0xf8 then 4
  else if byte < 0xfc then 5
  else if byte < 0xfe then 6
  else if byte < 0xff then 7
  else 8

/-- The number of continuation bytes a first byte announces and the bits it carries. -/
def leadByte (byte : UInt8) : Option (Nat × Nat) :=
  if byte < 0x80 then some (0, byte.toNat)
  else if byte ≥ 0xfe then none
  else
    let count := leadingOnes byte
    if 2 ≤ count ∧ count ≤ 6 then
      some (count - 1, (byte &&& ((1 <<< UInt8.ofNat (7 - count)) - 1)).toNat)
    else none

/-- The loop of `decode` over the continuation bytes from a position on. -/
def continuations (bytes : List UInt8) : Nat → Nat → Nat → Option Nat
  | _, 0, code => some code
  | position, n + 1, code =>
    match bytes[position]? with
    | none => none
    | some next =>
      if isCont next then
        continuations bytes (position + 1) n ((code <<< 6) ||| (next &&& 0x3f).toNat)
      else none

/-- What the strict mode refuses. -/
def isScalar (code : Nat) : Bool := code ≤ maxUnicode && !(0xd800 ≤ code && code ≤ 0xdfff)

/-- `decode`: the index behind a character and its code. -/
def decode (bytes : List UInt8) (index : Nat) (strict : Bool) : Option (Nat × Nat) :=
  match leadByte (byteAt bytes index) with
  | none => none
  | some (count, bits) =>
    match continuations bytes (index + 1) count bits with
    | none => none
    | some code =>
      if (count ≠ 0 ∧ code < leastCode.getD count 0) ∨ code > maxUtf
          ∨ (strict = true ∧ isScalar code = false) then none
      else some (index + (count + 1), code)

/-- The number of bytes of a code. -/
def encodedLength (code : Nat) : Nat :=
  if code ≤ 0x7f then 1
  else if code ≤ 0x7ff then 2
  else if code ≤ 0xffff then 3
  else if code ≤ 0x1fffff then 4
  else if code ≤ 0x3ffffff then 5
  else 6

/-- The loop of `encode`, from the last byte to the second, and the bits left for the first. -/
def encodeLoop : Nat → Nat → List UInt8 → List UInt8 × Nat
  | 0, value, bytes => (bytes, value)
  | n + 1, value, bytes =>
    encodeLoop n (value >>> 6) ((0x80 ||| (UInt8.ofNat value &&& 0x3f)) :: bytes)

/-- `encode`. -/
def encode (code : Nat) : List UInt8 :=
  let length := encodedLength code
  let (bytes, value) := encodeLoop (length - 1) code []
  let first := if length = 1 then UInt8.ofNat value
    else ((~~~0 : UInt8) <<< UInt8.ofNat (8 - length)) ||| UInt8.ofNat value
  first :: bytes

/-! ### The library functions -/

/-- `relative`. -/
def relative (position : Int) (length : Nat) : Int :=
  if position ≥ 0 then position
  else if -position > length then 0
  else length + position + 1

/-- The result of `utf8.len`: the number of characters, or `nil` and the position of the first
    byte that does not decode. -/
inductive Length where
  | characters (count : Nat)
  | invalid (position : Nat)
  deriving DecidableEq, Repr

/-- The loop of `len`; every character takes a byte, so `fuel` is the number of bytes left. -/
def lenLoop (bytes : List UInt8) (last : Int) (strict : Bool) : Nat → Nat → Nat → Length
  | 0, _, count => .characters count
  | fuel + 1, position, count =>
    if (position : Int) ≤ last - 1 then
      match decode bytes position strict with
      | some (next, _) => lenLoop bytes last strict fuel next (count + 1)
      | none => .invalid (position + 1)
    else .characters count

/-- `len`. -/
def len (bytes : List UInt8) (i j : Option Int) (lax : Bool) : Except Utf8Error Length :=
  let first := relative (i.getD 1) bytes.length
  let last := relative (j.getD (-1)) bytes.length
  if first < 1 ∨ first > bytes.length + 1 ∨ last > bytes.length then .error .argument
  else .ok (lenLoop bytes last (!lax) bytes.length (first - 1).toNat 0)

/-- The loop of `codepoint`, with the number of bytes left as fuel. -/
def codepointLoop (bytes : List UInt8) (last : Nat) (strict : Bool) :
    Nat → Nat → List Nat → Except Utf8Error (List Nat)
  | 0, _, values => .ok values
  | fuel + 1, position, values =>
    if position < last then
      match decode bytes position strict with
      | none => .error .sequence
      | some (next, code) => codepointLoop bytes last strict fuel next (values ++ [code])
    else .ok values

/-- `codepoint`; a slice of more than `i32::MAX` bytes is refused. -/
def codepoint (bytes : List UInt8) (i j : Option Int) (lax : Bool) :
    Except Utf8Error (List Nat) :=
  let first := relative (i.getD 1) bytes.length
  let last : Int := match j with
    | none => first
    | some j => relative j bytes.length
  if first < 1 ∨ last > bytes.length then .error .argument
  else if first > last then .ok []
  else if last - first + 1 > 2 ^ 31 - 1 then .error .argument
  else codepointLoop bytes last.toNat (!lax) bytes.length (first - 1).toNat []

/-- `string::max_size`. -/
def maxSize : LuaProfile → Nat
  | .lua54 => 2 ^ 31 - 1
  | .lua55 => 2 ^ 63 - 1

/-- The bytes of `char_bytes`, code by code. -/
def charLoop : List Int → List UInt8 → Except Utf8Error (List UInt8)
  | [], buffer => .ok buffer
  | code :: rest, buffer =>
    if 0 ≤ code ∧ code ≤ maxUtf then charLoop rest (buffer ++ encode code.toNat)
    else .error .argument

/-- `char_bytes`, which is `utf8.char`. -/
def charBytes (profile : LuaProfile) (codes : List Int) : Except Utf8Error (List UInt8) :=
  if codes.length * 6 > maxSize profile then .error .argument else charLoop codes []

/-- `codes`: whether the iterator may be handed out. -/
def codes (bytes : List UInt8) : Except Utf8Error Unit :=
  if bytes ≠ [] ∧ isCont (byteAt bytes 0) = true then .error .sequence else .ok ()

/-- Skip continuation bytes; they end at the latest behind the string. -/
def skipContinuations (bytes : List UInt8) : Nat → Nat → Nat
  | 0, position => position
  | fuel + 1, position =>
    if isCont (byteAt bytes position) then skipContinuations bytes fuel (position + 1)
    else position

/-- Where `iterator` looks for a character: the control value, reinterpreted as a `u64`, and from
    there behind the continuation bytes. -/
def iteratorStart (bytes : List UInt8) (control : Int) : Nat :=
  let position := if control < 0 then (control + 2 ^ 64).toNat else control.toNat
  if position < bytes.length then skipContinuations bytes (bytes.length - position) position
  else position

/-- `iterator`: the position and the code of the next character, `none` at the end. -/
def iterator (bytes : List UInt8) (strict : Bool) (control : Int) :
    Except Utf8Error (Option (Nat × Nat)) :=
  let position := iteratorStart bytes control
  if position ≥ bytes.length then .ok none
  else
    match decode bytes position strict with
    | none => .error .sequence
    | some (next, code) =>
      if next < bytes.length ∧ isCont (byteAt bytes next) = true then .error .sequence
      else .ok (some (position + 1, code))

/-! ### Continuation bytes

The continuation bytes of a character hold its low bits, six in each.  `tailBytes n value` lists
them; both encoders produce it and the decoder consumes it. -/

/-- The continuation byte that carries six bits. -/
def contByte (bits : Nat) : UInt8 := UInt8.ofNat (0x80 + bits % 64)

/-- The low `6 * n` bits of a value as continuation bytes. -/
def tailBytes : Nat → Nat → List UInt8
  | 0, _ => []
  | n + 1, value => contByte (value / 64 ^ n) :: tailBytes n value

theorem contByte_add (code bits : Nat) : contByte (code * 64 + bits) = contByte bits := by
  unfold contByte
  rw [Nat.mul_add_mod_self_right]

theorem isCont_contByte (bits : Nat) : isCont (contByte bits) = true := by
  have h : ∀ n < 64, isCont (UInt8.ofNat (0x80 + n)) = true := by decide
  exact h _ (Nat.mod_lt _ (by decide))

theorem bits_contByte (bits : Nat) : (contByte bits &&& 0x3f).toNat = bits % 64 := by
  have h : ∀ n < 64, (UInt8.ofNat (0x80 + n) &&& 0x3f).toNat = n := by decide
  exact h _ (Nat.mod_lt _ (by decide))

/-- A continuation byte is the one of its own bits. -/
theorem eq_contByte {byte : UInt8} (h : isCont byte = true) :
    byte = contByte (byte &&& 0x3f).toNat ∧ (byte &&& 0x3f).toNat < 64 := by
  revert h
  refine forall_byte (p := fun byte => isCont byte = true →
    byte = contByte (byte &&& 0x3f).toNat ∧ (byte &&& 0x3f).toNat < 64) ?_ byte
  decide +kernel

theorem shift_or (code bits : Nat) (h : bits < 64) : (code <<< 6) ||| bits = code * 64 + bits := by
  rw [← Nat.shiftLeft_add_eq_or_of_lt h, Nat.shiftLeft_eq]

@[simp] theorem length_tailBytes (n value : Nat) : (tailBytes n value).length = n := by
  induction n with
  | zero => rfl
  | succ n ih => simp [tailBytes, ih]

/-- The last continuation byte carries the lowest six bits. -/
theorem tailBytes_succ_last (n value : Nat) :
    tailBytes (n + 1) value = tailBytes n (value / 64) ++ [contByte value] := by
  induction n with
  | zero => simp [tailBytes]
  | succ n ih =>
    have hdiv : value / 64 / 64 ^ n = value / 64 ^ (n + 1) := by
      rw [Nat.div_div_eq_div_mul, Nat.pow_succ, Nat.mul_comm]
    calc tailBytes (n + 2) value
        = contByte (value / 64 ^ (n + 1)) :: tailBytes (n + 1) value := rfl
      _ = contByte (value / 64 / 64 ^ n) :: (tailBytes n (value / 64) ++ [contByte value]) := by
          rw [ih, hdiv]
      _ = tailBytes (n + 1) (value / 64) ++ [contByte value] := rfl

/-- The loop of `encode` writes the continuation bytes. -/
theorem encodeLoop_eq (n value : Nat) (bytes : List UInt8) :
    encodeLoop n value bytes = (tailBytes n value ++ bytes, value / 64 ^ n) := by
  induction n generalizing value bytes with
  | zero => simp [encodeLoop, tailBytes]
  | succ n ih =>
    have hbyte : 0x80 ||| (UInt8.ofNat value &&& 0x3f) = contByte value := by
      have h : ∀ m < 256, 0x80 ||| (UInt8.ofNat m &&& 0x3f) = contByte m := by decide +kernel
      have hmod := h (value % 256) (Nat.mod_lt _ (by decide))
      have hcont : contByte (value % 256) = contByte value := by
        unfold contByte
        rw [Nat.mod_mod_of_dvd _ (by decide)]
      rwa [UInt8.ofNat_mod_size, hcont] at hmod
    have hdiv : value / 64 / 64 ^ n = value / 64 ^ (n + 1) := by
      rw [Nat.div_div_eq_div_mul, Nat.pow_succ, Nat.mul_comm]
    have hshift : value >>> 6 = value / 64 := Nat.shiftRight_eq_div_pow value 6
    rw [encodeLoop, ih, hbyte, tailBytes_succ_last, hshift, hdiv]
    simp

/-- The decoder reads continuation bytes back. -/
theorem continuations_tailBytes (front back : List UInt8) (n code value : Nat) :
    continuations (front ++ (tailBytes n value ++ back)) front.length n code
      = some (code * 64 ^ n + value % 64 ^ n) := by
  induction n generalizing front code with
  | zero => simp [continuations, Nat.mod_one]
  | succ n ih =>
    have hget : (front ++ (tailBytes (n + 1) value ++ back))[front.length]?
        = some (contByte (value / 64 ^ n)) := by
      simp [tailBytes]
    have hrest : front ++ (tailBytes (n + 1) value ++ back)
        = (front ++ [contByte (value / 64 ^ n)]) ++ (tailBytes n value ++ back) := by
      simp [tailBytes]
    have hlen : front.length + 1 = (front ++ [contByte (value / 64 ^ n)]).length := by simp
    have hmod : value % 64 ^ (n + 1) = value / 64 ^ n % 64 * 64 ^ n + value % 64 ^ n := by
      rw [Nat.pow_succ, Nat.mod_mul]
      ring
    simp only [continuations, hget, isCont_contByte, if_true, bits_contByte]
    rw [shift_or _ _ (Nat.mod_lt _ (by decide)), hrest, hlen, ih, hmod]
    congr 1
    ring

/-- What the decoder accepts behind a first byte is a run of continuation bytes. -/
theorem tailBytes_of_continuations {bytes : List UInt8} {position n code result : Nat}
    (h : continuations bytes position n code = some result) :
    (bytes.drop position).take n = tailBytes n result ∧ result / 64 ^ n = code := by
  induction n generalizing position code with
  | zero =>
    simp only [continuations, Option.some.injEq] at h
    simp [tailBytes, h]
  | succ n ih =>
    simp only [continuations] at h
    split at h
    · cases h
    · rename_i next hnext
      split at h
      · rename_i hcont
        obtain ⟨hbyte, hlt⟩ := eq_contByte hcont
        rw [shift_or _ _ hlt] at h
        obtain ⟨htail, hcode⟩ := ih h
        have hdrop : bytes.drop position = next :: bytes.drop (position + 1) := by
          obtain ⟨hp, rfl⟩ := List.getElem?_eq_some_iff.mp hnext
          exact List.drop_eq_getElem_cons hp
        constructor
        · rw [hdrop, List.take_succ_cons, htail, tailBytes, hcode]
          rw [contByte_add, ← hbyte]
        · rw [Nat.pow_succ, ← Nat.div_div_eq_div_mul, hcode]
          omega
      · cases h

/-! ### First bytes -/

/-- The first byte of a character with `n` continuation bytes. -/
def firstByte (n bits : Nat) : UInt8 :=
  if n = 0 then UInt8.ofNat bits
  else ((~~~0 : UInt8) <<< UInt8.ofNat (7 - n)) ||| UInt8.ofNat bits

/-- The bits a first byte has room for are below this. -/
def capacity (n : Nat) : Nat := if n = 0 then 128 else 2 ^ (6 - n)

theorem leadByte_firstByte {n bits : Nat} (hn : n < 6) (hbits : bits < capacity n) :
    leadByte (firstByte n bits) = some (n, bits) := by
  have h : ∀ n < 6, ∀ bits < 128, bits < capacity n →
      leadByte (firstByte n bits) = some (n, bits) := by decide +kernel
  have hcap : ∀ n < 6, capacity n ≤ 128 := by decide
  exact h n hn bits (lt_of_lt_of_le hbits (hcap n hn)) hbits

theorem eq_firstByte {byte : UInt8} {n bits : Nat} (h : leadByte byte = some (n, bits)) :
    n < 6 ∧ bits < capacity n ∧ byte = firstByte n bits := by
  have hall := forall_byte (p := fun byte => ∀ r ∈ leadByte byte,
    r.1 < 6 ∧ r.2 < capacity r.1 ∧ byte = firstByte r.1 r.2) (by decide +kernel) byte
  exact hall (n, bits) h

/-- A byte that continues a character does not start one. -/
theorem leadByte_of_isCont {byte : UInt8} (h : isCont byte = true) : leadByte byte = none := by
  revert h
  exact forall_byte (p := fun byte => isCont byte = true → leadByte byte = none)
    (by decide +kernel) byte

theorem encodedLength_pos (code : Nat) : 1 ≤ encodedLength code := by
  unfold encodedLength
  split_ifs <;> decide

theorem encodedLength_le (code : Nat) : encodedLength code ≤ 6 := by
  unfold encodedLength
  split_ifs <;> decide

/-- `encode` as a first byte and continuation bytes. -/
theorem encode_eq (code : Nat) :
    encode code = firstByte (encodedLength code - 1) (code / 64 ^ (encodedLength code - 1))
      :: tailBytes (encodedLength code - 1) code := by
  have hlen := encodedLength_pos code
  have hone : encodedLength code = 1 ↔ encodedLength code - 1 = 0 := by omega
  have hseven : 8 - encodedLength code = 7 - (encodedLength code - 1) := by omega
  simp only [encode, encodeLoop_eq, List.append_nil, firstByte, hone, hseven]

theorem length_encode (code : Nat) : (encode code).length = encodedLength code := by
  have hlen := encodedLength_pos code
  rw [encode_eq, List.length_cons, length_tailBytes]
  omega

/-- The lengths of the table are those at which a code fits its first byte and no shorter
    length would do. -/
theorem encodedLength_eq_iff {code n : Nat} (hn : n < 6) (hcode : code ≤ maxUtf) :
    encodedLength code = n + 1
      ↔ code / 64 ^ n < capacity n ∧ ¬ (n ≠ 0 ∧ code < leastCode.getD n 0) := by
  unfold maxUtf at hcode
  unfold encodedLength
  interval_cases n <;> norm_num [capacity, leastCode] <;> split_ifs <;> omega

/-! ### Reading what was written -/

/-- A written character is read back, whatever surrounds it; the strict mode reads the scalar
    values. -/
theorem decode_encode {code : Nat} (hcode : code ≤ maxUtf) {strict : Bool}
    (hstrict : strict = true → isScalar code = true) (front back : List UInt8) :
    decode (front ++ (encode code ++ back)) front.length strict
      = some (front.length + encodedLength code, code) := by
  have hpos := encodedLength_pos code
  have hle := encodedLength_le code
  obtain ⟨n, hn⟩ : ∃ n, encodedLength code = n + 1 := ⟨encodedLength code - 1, by omega⟩
  obtain ⟨hfits, hleast⟩ := (encodedLength_eq_iff (by omega) hcode).mp hn
  have hencode : encode code = firstByte n (code / 64 ^ n) :: tailBytes n code := by
    rw [encode_eq, hn, Nat.add_sub_cancel]
  have hlead : byteAt (front ++ (encode code ++ back)) front.length
      = firstByte n (code / 64 ^ n) := by
    simp [byteAt, hencode]
  have hrest : front ++ (encode code ++ back)
      = (front ++ [firstByte n (code / 64 ^ n)]) ++ (tailBytes n code ++ back) := by
    simp [hencode]
  have hlen : front.length + 1 = (front ++ [firstByte n (code / 64 ^ n)]).length := by simp
  have hcont : continuations (front ++ (encode code ++ back)) (front.length + 1) n
      (code / 64 ^ n) = some code := by
    rw [hrest, hlen, continuations_tailBytes, Nat.div_add_mod']
  have hkeep : ¬ ((n ≠ 0 ∧ code < leastCode.getD n 0) ∨ code > maxUtf
      ∨ (strict = true ∧ isScalar code = false)) := by
    rintro (h | h | ⟨hs, h⟩)
    · exact hleast h
    · omega
    · rw [hstrict hs] at h
      cases h
  simp only [decode, hlead, leadByte_firstByte (by omega : n < 6) hfits, hcont, if_neg hkeep, hn]

/-- What `decode` has to find: a first byte, the continuation bytes behind it, and a code within
    the bounds. -/
theorem decode_eq_some {bytes : List UInt8} {index next code : Nat} {strict : Bool}
    (h : decode bytes index strict = some (next, code)) :
    ∃ n, n < 6 ∧ next = index + (n + 1) ∧ byteAt bytes index = firstByte n (code / 64 ^ n)
      ∧ (bytes.drop (index + 1)).take n = tailBytes n code ∧ encodedLength code = n + 1
      ∧ code ≤ maxUtf ∧ (strict = true → isScalar code = true) := by
  unfold decode at h
  split at h
  · cases h
  · rename_i n bits hlead
    split at h
    · cases h
    · rename_i result hcont
      split at h
      · cases h
      · rename_i hkeep
        simp only [Option.some.injEq, Prod.mk.injEq] at h
        obtain ⟨rfl, rfl⟩ := h
        obtain ⟨hn, hbits, hfirst⟩ := eq_firstByte hlead
        obtain ⟨htail, rfl⟩ := tailBytes_of_continuations hcont
        rw [not_or, not_or] at hkeep
        obtain ⟨hleast, hmax, hscalar⟩ := hkeep
        have hle : result ≤ maxUtf := by omega
        refine ⟨n, hn, rfl, hfirst, htail, (encodedLength_eq_iff hn hle).mpr ⟨hbits, hleast⟩,
          hle, fun hs => ?_⟩
        cases hr : isScalar result with
        | true => rfl
        | false => exact absurd ⟨hs, hr⟩ hscalar

/-- Only shortest forms are read: the bytes consumed are those `encode` writes. -/
theorem encode_of_decode {bytes : List UInt8} {index next code : Nat} {strict : Bool}
    (hindex : index < bytes.length) (h : decode bytes index strict = some (next, code)) :
    next = index + (encode code).length ∧ (bytes.drop index).take (next - index) = encode code
      ∧ code ≤ maxUtf ∧ (strict = true → isScalar code = true) := by
  obtain ⟨n, -, rfl, hfirst, htail, hlen, hmax, hscalar⟩ := decode_eq_some h
  have hencode : encode code = firstByte n (code / 64 ^ n) :: tailBytes n code := by
    rw [encode_eq, hlen, Nat.add_sub_cancel]
  have hbyte : bytes[index] = firstByte n (code / 64 ^ n) := by
    rw [← hfirst, byteAt, List.getD_eq_getElem?_getD, List.getElem?_eq_getElem hindex,
      Option.getD_some]
  refine ⟨by rw [length_encode, hlen], ?_, hmax, hscalar⟩
  rw [Nat.add_sub_cancel_left, List.drop_eq_getElem_cons hindex, List.take_succ_cons, htail, hbyte,
    hencode]

end RivetLua.Stdlib.Utf8
