import Mathlib.Algebra.Ring.Nat
import RivetLua.Core.Profile
import RivetLua.Lib.Check
import RivetLua.Lib.Carry

namespace RivetLua.Bytecode.Official

open RivetLua.Core Wire

/-!
# Bytecode — the chunks of the reference implementation

The decoder for the binary chunks of the two reference implementations.  It knows the data format
only; what the instructions mean is left to the translation.  Every count is charged to a budget
before anything is allocated for it, and every allocation is charged twice: before the request, and
after it for the room that was given on top.

* `OfficialChunk` — a chunk, with a tree of prototypes;
* `Texts`, `Official.varint`, … — the words of the format, which the decoder and the preflight read
  alike and report differently;
* `Reader.string` — strings, in 5.5 with references to the strings read before;
* `Reader.prototype`, `Reader.debug`, `decodeOfficialChunk` — the decoder.
-/

/-- `usize::MAX` of a target with 64 bits. -/
def usizeMax : Nat := 2 ^ 64 - 1

/-- `OfficialChunkErrorKind`. -/
inductive OfficialChunkErrorKind where
  | truncated | invalidFormat | limitExceeded | overflow | allocationFailed | workExhausted
  deriving DecidableEq, Repr

/-- `OfficialChunkError`. -/
structure OfficialChunkError where
  kind : OfficialChunkErrorKind
  offset : Nat
  detail : String
  deriving DecidableEq, Repr

/-- `OfficialChunkLimits`. -/
structure OfficialChunkLimits where
  maxBytes : UInt64
  maxDepth : UInt64
  maxPrototypes : UInt64
  maxInstructions : UInt64
  maxConstants : UInt64
  maxUpvalues : UInt64
  maxDebugEntries : UInt64
  maxStrings : UInt64
  maxStringBytes : UInt64
  maxTotalStringBytes : UInt64
  maxAllocatedBytes : UInt64
  deriving DecidableEq, Repr

/-- `OfficialChunkLimits::default`. -/
def OfficialChunkLimits.default : OfficialChunkLimits where
  maxBytes := 32 * 1024 * 1024
  maxDepth := 64
  maxPrototypes := 8192
  maxInstructions := 1000000
  maxConstants := 1000000
  maxUpvalues := 100000
  maxDebugEntries := 2000000
  maxStrings := 100000
  maxStringBytes := 4 * 1024 * 1024
  maxTotalStringBytes := 16 * 1024 * 1024
  maxAllocatedBytes := 64 * 1024 * 1024

/-! ### Chunks -/

/-- `OfficialConstant`; a float is kept as its bits. -/
inductive OfficialConstant where
  | nil
  | boolean (value : Bool)
  | integer (value : Int64)
  | number (bits : UInt64)
  | string (bytes : List UInt8) (long : Bool)
  deriving DecidableEq, Repr

/-- `OfficialUpvalue`. -/
structure OfficialUpvalue where
  inStack : Bool
  index : UInt8
  kind : UInt8
  deriving DecidableEq, Repr

/-- `OfficialAbsLine`. -/
structure OfficialAbsLine where
  pc : UInt32
  line : Int32
  deriving DecidableEq, Repr

/-- `OfficialLocal`. -/
structure OfficialLocal where
  name : Option (List UInt8)
  startPc : UInt32
  endPc : UInt32
  deriving DecidableEq, Repr

/-- `OfficialDebug`. -/
structure OfficialDebug where
  lineInfo : List Int8
  absLineInfo : List OfficialAbsLine
  locals : List OfficialLocal
  upvalueNames : List (Option (List UInt8))
  deriving DecidableEq, Repr

/-- The fields of a prototype in front of its code. -/
structure PrototypeHead where
  lineDefined : UInt32
  lastLineDefined : UInt32
  numParams : UInt8
  flags : UInt8
  maxStackSize : UInt8
  deriving DecidableEq, Repr

/-- `OfficialPrototype`. -/
structure OfficialPrototype where
  source : Option (List UInt8)
  head : PrototypeHead
  code : List UInt32
  constants : List OfficialConstant
  upvalues : List OfficialUpvalue
  children : List OfficialPrototype
  debug : OfficialDebug

/-- `OfficialChunk`. -/
structure OfficialChunk where
  profile : LuaProfile
  rootUpvalues : UInt8
  main : OfficialPrototype

mutual

/-- The sum of a number over a prototype and all prototypes below it. -/
def OfficialPrototype.total (f : OfficialPrototype → Nat) : OfficialPrototype → Nat
  | prototype@⟨_, _, _, _, _, children, _⟩ =>
    f prototype + OfficialPrototype.totals f children

/-- The sum of a number over some prototypes and all prototypes below them. -/
def OfficialPrototype.totals (f : OfficialPrototype → Nat) : List OfficialPrototype → Nat
  | [] => 0
  | child :: children => child.total f + OfficialPrototype.totals f children

end

/-! ### Words -/

/-- The texts of the errors for words. -/
structure Texts where
  readOverflow : String
  truncated : String
  varintOverflow : String
  varintLong : String
  sizeRange : String
  intRange : String
  countOverflow : String

/-- Programs that read the bytes of a chunk. -/
abbrev Read := Wire.Reader OfficialChunkError

/-- Stop with an error behind the bytes read so far. -/
def failHere {α : Type} (kind : OfficialChunkErrorKind) (detail : String) : Read α := do
  let offset ← location
  Wire.fail ⟨kind, offset, detail⟩

/-- Stop with an error behind the bytes read so far, if the condition holds. -/
def rejectHere (c : Prop) [Decidable c] (kind : OfficialChunkErrorKind) (detail : String) :
    Read Unit := do
  let offset ← location
  Wire.reject c ⟨kind, offset, detail⟩

section Words

variable (texts : Texts) (profile : LuaProfile)

/-- The next `n` bytes.  No slice is so long that the end of a part of it overflows, so an overflow
    is a part that is not there. -/
def read (n : Nat) : Read (List UInt8) :=
  Wire.take (fun offset =>
    if offset + n > usizeMax then ⟨.overflow, offset, texts.readOverflow⟩
    else ⟨.truncated, offset, texts.truncated⟩) n

/-- A byte. -/
def byte : Read UInt8 := do
  let bytes ← read texts 1
  pure (UInt8.ofNat (ofLittleEndian bytes))

/-- A number of 32 bits. -/
def u32 : Read UInt32 := do
  let bytes ← read texts 4
  pure (UInt32.ofNat (ofLittleEndian bytes))

/-- A number of 64 bits: an integer, or the bits of a float. -/
def u64 : Read UInt64 := do
  let bytes ← read texts 8
  pure (UInt64.ofNat (ofLittleEndian bytes))

/-- Enough bytes for `count` items of `size` bytes. -/
def requireMin (count size : Nat) : Read Unit := do
  rejectHere (count * size > usizeMax) .overflow texts.countOverflow
  let remaining ← unread
  rejectHere (count * size > remaining) .truncated "資料不足以容納宣稱項數"

/-- The last byte of a number of variable length. -/
def lastByte (byte : UInt8) : Bool :=
  match profile with
  | .lua55 => byte &&& 0x80 == 0
  | .lua54 => byte &&& 0x80 != 0

/-- Up to `fuel` more bytes of a number of variable length.  What is read so far is checked before
    it is shifted, so that no bit gets lost. -/
def varintLoop : Nat → Nat → Read Nat
  | 0, _ => failHere .overflow texts.varintLong
  | fuel + 1, value => do
    let next ← byte texts
    rejectHere (value > usizeMax / 128) .overflow texts.varintOverflow
    let value := value * 128 + (next &&& 0x7f).toNat
    if lastByte profile next then pure value else varintLoop fuel value

/-- A number of variable length, of at most ten bytes. -/
def varint : Read Nat := varintLoop texts profile 10 0

/-- A size. -/
def size : Read Nat := do
  let value ← varint texts profile
  rejectHere (value > usizeMax) .overflow texts.sizeRange
  pure value

/-- The largest `int` of a profile, with `LUA54_INT_MAX`. -/
def intMax : Nat :=
  match profile with
  | .lua55 => 2 ^ 31 - 1
  | .lua54 => 2 ^ 31 - 1 - 128

/-- An `int`. -/
def int : Read UInt32 := do
  let value ← varint texts profile
  rejectHere (value > intMax profile) .overflow texts.intRange
  pure (UInt32.ofNat value)

/-- Up to the next multiple of four. -/
def align4 : Read Unit := do
  let offset ← location
  let _ ← read texts ((4 - offset % 4) % 4)
  pure ()

/-- Fixed bytes.  A number of fixed width stands for one value, and the floats of the headers for
    one pattern each, so the comparison of the values is one of the bytes. -/
def expect (expected : List UInt8) (detail : String) : Read Unit := do
  let bytes ← read texts expected.length
  rejectHere (bytes ≠ expected) .invalidFormat detail

/-- `SIGNATURE`. -/
def signature : List UInt8 := [0x1b, 0x4c, 0x75, 0x61]

/-- `DATA`. -/
def data : List UInt8 := [0x19, 0x93, 0x0d, 0x0a, 0x1a, 0x0a]

/-- The pieces of a header behind its format: sizes and sentinels. -/
def sentinels : List (List UInt8) :=
  match profile with
  | .lua55 =>
    [[4], littleEndian 4 (2 ^ 32 - 0x5678), [4], littleEndian 4 0x12345678,
      [8], littleEndian 8 (2 ^ 64 - 0x5678), [8], littleEndian 8 0xc077280000000000]
  | .lua54 =>
    [[4], [8], [8], littleEndian 8 0x5678, littleEndian 8 0x4077280000000000]

/-- Fixed bytes, piece by piece. -/
def expectAll (detail : String) : List (List UInt8) → Read Unit
  | [] => pure ()
  | expected :: rest => do
    expect texts expected detail
    expectAll detail rest

/-- The header of a chunk. -/
def header : Read Unit := do
  let magic ← read texts 4
  Wire.reject (magic ≠ signature) ⟨.invalidFormat, 0, "magic 不符"⟩
  expectAll texts "版本或格式不符" [[if profile = .lua55 then 0x55 else 0x54], [0], data]
  expectAll texts
    (if profile = .lua55 then "5.5 數值大小或 sentinel 不符" else "5.4 數值大小或 sentinel 不符")
    (sentinels profile)

/-! ### Records without strings -/

/-- Flags that no function has. -/
def invalidFlags (flags : UInt8) : Bool :=
  match profile with
  | .lua55 => flags &&& ~~~3 != 0
  | .lua54 => 1 < flags

/-- A head that no function has. -/
def PrototypeHead.Invalid (head : PrototypeHead) : Prop :=
  head.maxStackSize = 0 ∨ head.maxStackSize < head.numParams
    ∨ head.lastLineDefined ≠ 0 ∧ head.lastLineDefined < head.lineDefined
    ∨ invalidFlags profile head.flags

instance (head : PrototypeHead) : Decidable (head.Invalid profile) :=
  inferInstanceAs (Decidable (_ ∨ _ ∨ _ ∨ _))

/-- The fields of a prototype in front of its code. -/
def prototypeHead : Read PrototypeHead := do
  let lineDefined ← int texts profile
  let lastLineDefined ← int texts profile
  let numParams ← byte texts
  let flags ← byte texts
  let maxStackSize ← byte texts
  let head : PrototypeHead := ⟨lineDefined, lastLineDefined, numParams, flags, maxStackSize⟩
  rejectHere (head.Invalid profile) .invalidFormat "prototype signature 不符"
  pure head

/-- The stack size and the number of upvalues of the function around. -/
abbrev Parent := Option (UInt8 × Nat)

/-- The place that an upvalue names exists in the function around. -/
def validParent (parent : Parent) (inStack index : UInt8) : Bool :=
  match parent, inStack with
  | some (parentStack, _), 1 => index < parentStack
  | some (_, parentUpvalues), 0 => index.toNat < parentUpvalues
  | none, 0 => true
  | none, 1 => true
  | _, _ => false

/-- The largest kind of an upvalue. -/
def maxKind : UInt8 := if profile = .lua55 then 3 else 2

/-- One upvalue. -/
def upvalue (parent : Parent) : Read OfficialUpvalue := do
  let inStack ← byte texts
  let index ← byte texts
  let kind ← byte texts
  rejectHere (1 < inStack ∨ maxKind profile < kind ∨ ¬ validParent parent inStack index)
    .invalidFormat "upvalue parent index 或 kind 不符"
  pure ⟨inStack = 1, index, kind⟩

/-- The pc and the line of an absolute line. -/
def absLinePair : Read (Int32 × Int32) :=
  match profile with
  | .lua55 => do
    let pc ← u32 texts
    let line ← u32 texts
    pure (pc.toInt32, line.toInt32)
  | .lua54 => do
    let pc ← int texts profile
    let line ← int texts profile
    pure (pc.toInt32, line.toInt32)

/-- One absolute line behind those before it: its pc is marked and the first one behind them. -/
def absLine (codeCount : Nat) (marked : Nat → Bool) (previous : Option Int32) :
    Read (Int32 × Int32) := do
  let pair ← absLinePair texts profile
  rejectHere (pair.1 < 0 ∨ codeCount ≤ pair.1.toInt.toNat ∨ pair.2 < 0
      ∨ (∃ last ∈ previous, pair.1 ≤ last) ∨ ¬ marked pair.1.toInt.toNat)
    .invalidFormat "絕對行號 PC 或 line 不符"
  pure pair

/-- The range of a local. -/
def localRange (codeCount : Nat) : Read (UInt32 × UInt32) := do
  let startPc ← int texts profile
  let endPc ← int texts profile
  rejectHere (endPc < startPc ∨ codeCount < endPc.toNat) .invalidFormat "local PC 範圍不符"
  pure (startPc, endPc)

end Words

/-! ### The budget -/

/-- `Budget`. -/
structure Budget where
  allocated : Nat
  prototypes : Nat
  instructions : Nat
  constants : Nat
  upvalues : Nat
  debugEntries : Nat
  strings : Nat
  stringBytes : Nat
  deriving DecidableEq, Repr

/-- `Budget::default`. -/
def Budget.empty : Budget := ⟨0, 0, 0, 0, 0, 0, 0, 0⟩

/-- A counter of a record. -/
structure Counter (σ : Type) where
  get : σ → Nat
  set : σ → Nat → σ

/-- `Budget::charge`: the counter behind the charge. -/
def Budget.charge (used amount max offset : Nat) (detail : String) :
    Except OfficialChunkError Nat :=
  if used + amount > usizeMax then .error ⟨.overflow, offset, detail⟩
  else if used + amount > max then .error ⟨.limitExceeded, offset, detail⟩
  else .ok (used + amount)

/-- `Budget::charge` of one of the counters. -/
def Budget.chargeTo (budget : Budget) (counter : Counter Budget) (amount max offset : Nat)
    (detail : String) : Except OfficialChunkError Budget := do
  let used ← charge (counter.get budget) amount max offset detail
  .ok (counter.set budget used)

/-- The counters of a budget. -/
def Budget.prototypeCounter : Counter Budget := ⟨(·.prototypes), fun b n => { b with prototypes := n }⟩

@[inherit_doc prototypeCounter]
def Budget.instructionCounter : Counter Budget :=
  ⟨(·.instructions), fun b n => { b with instructions := n }⟩

@[inherit_doc prototypeCounter]
def Budget.constantCounter : Counter Budget := ⟨(·.constants), fun b n => { b with constants := n }⟩

@[inherit_doc prototypeCounter]
def Budget.upvalueCounter : Counter Budget := ⟨(·.upvalues), fun b n => { b with upvalues := n }⟩

@[inherit_doc prototypeCounter]
def Budget.debugCounter : Counter Budget :=
  ⟨(·.debugEntries), fun b n => { b with debugEntries := n }⟩

@[inherit_doc prototypeCounter]
def Budget.stringCounter : Counter Budget := ⟨(·.strings), fun b n => { b with strings := n }⟩

@[inherit_doc prototypeCounter]
def Budget.stringByteCounter : Counter Budget :=
  ⟨(·.stringBytes), fun b n => { b with stringBytes := n }⟩

@[inherit_doc prototypeCounter]
def Budget.allocatedCounter : Counter Budget :=
  ⟨(·.allocated), fun b n => { b with allocated := n }⟩

/-- `Budget::alloc` of `count` items of `size` bytes. -/
def Budget.alloc (budget : Budget) (limits : OfficialChunkLimits) (size count offset : Nat) :
    Except OfficialChunkError Budget :=
  if count * size > usizeMax then .error ⟨.overflow, offset, "配置大小溢位"⟩
  else
    budget.chargeTo allocatedCounter (count * size) limits.maxAllocatedBytes.toNat offset
      "配置額度超限"

/-- `Budget::string`. -/
def Budget.string (budget : Budget) (limits : OfficialChunkLimits) (length offset : Nat) :
    Except OfficialChunkError Budget := do
  Check.reject (limits.maxStringBytes.toNat < length) ⟨.limitExceeded, offset, "單一字串超限"⟩
  let budget ← budget.chargeTo stringCounter 1 limits.maxStrings.toNat offset "字串數超限"
  let budget ← budget.chargeTo stringByteCounter length limits.maxTotalStringBytes.toNat offset
    "累積字串大小超限"
  budget.alloc limits 1 length offset

/-! ### The decoder -/

/-- What the compiler and the allocator decide: the sizes of the records in bytes, and the room
    that the `n`-th vector gets on top of what it asked for, if it gets any memory. -/
structure Memory where
  constant : Nat
  upvalue : Nat
  prototype : Nat
  absLine : Nat
  localRecord : Nat
  upvalueName : Nat
  savedString : Nat
  extra : Nat → Option Nat

/-- The part of a `Reader` beside its input: the budget, the strings saved so far and the room for
    them, and the number of requests for memory. -/
structure ReaderStore where
  budget : Budget
  savedStrings : List (List UInt8)
  savedCapacity : Nat
  requests : Nat

/-- Programs of a `Reader`. -/
abbrev Decode := Carrying ReaderStore OfficialChunkError

namespace Reader

variable (memory : Memory) (profile : LuaProfile) (limits : OfficialChunkLimits)

/-- The texts of a `Reader`. -/
def texts : Texts where
  readOverflow := "讀取長度溢位"
  truncated := "chunk 截斷"
  varintOverflow := "變長整數溢位"
  varintLong := "變長整數超過十位元組"
  sizeRange := "長度超過平台範圍"
  intRange := "int 超出範圍"
  countOverflow := "計數大小溢位"

/-- Change the budget. -/
def budgeted (f : Budget → Nat → Except OfficialChunkError Budget) : Decode Unit :=
  storing fun offset store => do
    let budget ← f store.budget offset
    .ok ((), { store with budget })

/-- `Budget::charge` of one of the counters. -/
def charge (counter : Counter Budget) (amount : Nat) (max : UInt64) (detail : String) :
    Decode Unit :=
  budgeted fun budget offset => budget.chargeTo counter amount max.toNat offset detail

/-- `Budget::alloc`. -/
def alloc (size count : Nat) : Decode Unit :=
  budgeted fun budget offset => budget.alloc limits size count offset

/-- `try_reserve_exact` of an empty vector: the room on top of what was asked for.  Nothing is
    asked for when the vector stays empty. -/
def reserve (count : Nat) (detail : String) : Decode Nat :=
  storing fun offset store =>
    if count = 0 then .ok (0, store)
    else
      match memory.extra store.requests with
      | none => .error ⟨.allocationFailed, offset, detail⟩
      | some extra => .ok (extra, { store with requests := store.requests + 1 })

/-- The function `vector`, with the size of an item. -/
def vector (size count : Nat) : Decode Unit := do
  alloc limits size count
  let extra ← reserve memory count "配置失敗"
  alloc limits size extra

/-- `bytes_owned`. -/
def bytesOwned (bytes : List UInt8) : Decode (List UInt8) := do
  budgeted fun budget offset => budget.string limits bytes.length offset
  let extra ← reserve memory bytes.length "字串配置失敗"
  alloc limits 1 extra
  pure bytes

/-- `bytes_saved_copy`. -/
def bytesSavedCopy (bytes : List UInt8) : Decode (List UInt8) := do
  alloc limits 1 bytes.length
  let extra ← reserve memory bytes.length "字串索引內容配置失敗"
  alloc limits 1 extra
  pure bytes

/-- The saved string with the given number, from 1 on. -/
def savedString (index : Nat) : Decode (List UInt8) :=
  storing fun offset store =>
    match store.savedStrings[index - 1]? with
    | some saved => .ok (saved, store)
    | none => .error ⟨.invalidFormat, offset, "字串參照不是既存索引"⟩

/-- Save a string, if there is room for it. -/
def save (bytes : List UInt8) : Decode Unit :=
  storing fun offset store =>
    if store.savedStrings.length = store.savedCapacity then
      .error ⟨.limitExceeded, offset, "字串索引容量不足"⟩
    else .ok ((), { store with savedStrings := store.savedStrings ++ [bytes] })

/-- A reference to a saved string, or no string at all. -/
def reference : Decode (Option (List UInt8)) := do
  let index ← reading (Official.size texts profile)
  if index = 0 then pure none
  else do
    let saved ← savedString index
    let owned ← bytesOwned memory limits saved
    pure (some owned)

/-- The bytes of a string with the given size, which counts one more. -/
def stringBytes (size : Nat) : Read (List UInt8) := do
  let length := size - 1
  Official.rejectHere (limits.maxStringBytes.toNat < length) .limitExceeded "單一字串超限"
  match profile with
  | .lua54 => do
    requireMin texts length 1
    read texts length
  | .lua55 => do
    requireMin texts size 1
    let bytes ← read texts size
    Official.rejectHere (bytes[length]? ≠ some 0) .invalidFormat "5.5 字串缺少結尾 NUL"
    pure (bytes.take length)

/-- A string that is written out. -/
def inlineString (size : Nat) : Decode (List UInt8) := do
  let bytes ← reading (stringBytes profile limits size)
  let owned ← bytesOwned memory limits bytes
  match profile with
  | .lua54 => pure owned
  | .lua55 => do
    let saved ← bytesSavedCopy memory limits bytes
    save saved
    pure owned

/-- `Reader::string`. -/
def string : Decode (Option (List UInt8)) := do
  let size ← reading (Official.size texts profile)
  if size = 0 then
    match profile with
    | .lua54 => pure none
    | .lua55 => reference memory profile limits
  else do
    let owned ← inlineString memory profile limits size
    pure (some owned)

/-- An integer constant: in 5.5 the sign is the lowest bit. -/
def integer : Read Int64 :=
  match profile with
  | .lua55 => do
    let coded ← varint texts profile
    let half := UInt64.ofNat coded >>> 1
    pure (if coded % 2 = 0 then half.toInt64 else (~~~half).toInt64)
  | .lua54 => do
    let bits ← u64 texts
    pure bits.toInt64

/-- A string that must be there. -/
def constantString : Decode (List UInt8) := do
  let bytes ← string memory profile limits
  match bytes with
  | some bytes => pure bytes
  | none => reading (failHere .invalidFormat "常數字串不可為 NULL")

/-- One constant. -/
def constant : Decode OfficialConstant := do
  let tag ← reading (byte texts)
  match tag with
  | 0 => pure .nil
  | 1 => pure (.boolean false)
  | 17 => pure (.boolean true)
  | 3 => do
    let value ← reading (integer profile)
    pure (.integer value)
  | 19 => do
    let bits ← reading (u64 texts)
    pure (.number bits)
  | 4 => do
    let bytes ← constantString memory profile limits
    pure (.string bytes false)
  | 20 => do
    let bytes ← constantString memory profile limits
    pure (.string bytes true)
  | _ => reading (failHere .invalidFormat "常數 tag 不符")

/-- The code of a prototype, which is aligned in 5.5. -/
def code (codeCount : Nat) : Decode (List UInt32) := do
  reading (if profile = .lua55 then align4 texts else pure ())
  reading (requireMin texts codeCount 4)
  vector memory limits 4 codeCount
  reading (many (u32 texts) codeCount)

/-- The absolute lines behind those before, of code with the given marks. -/
def absLines (codeCount : Nat) (marked : Nat → Bool) :
    Nat → Option Int32 → Read (List OfficialAbsLine)
  | 0, _ => pure []
  | count + 1, previous => do
    let pair ← absLine texts profile codeCount marked previous
    let rest ← absLines codeCount marked count (some pair.1)
    pure (⟨pair.1.toUInt32, pair.2⟩ :: rest)

/-- The pc has a line of its own. -/
def marked (lineInfo : List Int8) (pc : Nat) : Bool := lineInfo[pc]? == some (-128)

/-- One local. -/
def «local» (codeCount : Nat) : Decode OfficialLocal := do
  let name ← string memory profile limits
  let range ← reading (localRange texts profile codeCount)
  pure ⟨name, range.1, range.2⟩

/-- A count of debug entries. -/
def debugCount : Decode Nat := do
  let count ← reading (int texts profile)
  charge Budget.debugCounter count.toNat limits.maxDebugEntries "debug 項數超限"
  pure count.toNat

/-- A count of debug entries, which is zero or a given number. -/
def debugCountOf (expected : Nat) (detail : String) : Decode Nat := do
  let count ← reading (int texts profile)
  reading (Official.rejectHere (count.toNat ≠ 0 ∧ count.toNat ≠ expected) .invalidFormat detail)
  charge Budget.debugCounter count.toNat limits.maxDebugEntries "debug 項數超限"
  pure count.toNat

/-- `Reader::debug`. -/
def debug (codeCount upvalueCount : Nat) : Decode OfficialDebug := do
  let lineCount ← debugCountOf profile limits codeCount "lineinfo 數與 code 不符"
  reading (requireMin texts lineCount 1)
  vector memory limits 1 lineCount
  let lineBytes ← reading (many (byte texts) lineCount)
  let lineInfo := lineBytes.map UInt8.toInt8
  let absCount ← debugCount profile limits
  reading (if profile = .lua55 ∧ 0 < absCount then align4 texts else pure ())
  reading (requireMin texts absCount (if profile = .lua55 then 8 else 2))
  vector memory limits memory.absLine absCount
  let absLineInfo ← reading (absLines profile codeCount (marked lineInfo) absCount none)
  reading (Official.rejectHere (lineInfo.count (-128) ≠ absCount) .invalidFormat
    "絕對行號與 marker 不符")
  let localCount ← debugCount profile limits
  reading (requireMin texts localCount 3)
  vector memory limits memory.localRecord localCount
  let locals ← replicate (Reader.local memory profile limits codeCount) localCount
  let nameCount ← debugCountOf profile limits upvalueCount "upvalue debug name 數不符"
  reading (requireMin texts nameCount 1)
  vector memory limits memory.upvalueName nameCount
  let upvalueNames ← replicate (string memory profile limits) nameCount
  pure ⟨lineInfo, absLineInfo, locals, upvalueNames⟩

/-- The count of the children: not more than there is budget for. -/
def childCount : Decode Nat := do
  let count ← reading (int texts profile)
  storing fun offset store =>
    if limits.maxPrototypes.toNat - store.budget.prototypes < count.toNat then
      .error ⟨.limitExceeded, offset, "子 prototype 數超限"⟩
    else .ok (count.toNat, store)

/-- The name of the source, where the profile has it. -/
def sourceName (here : Bool) : Decode (Option (List UInt8)) :=
  if here then string memory profile limits else pure none

/-- `Reader::prototype`.  The recursion is on the depth that is left, out of `max_depth` and
    `MAX_SAFE_DEPTH`. -/
def prototype : Nat → Parent → Decode OfficialPrototype
  | 0, _ => reading (failHere .limitExceeded "prototype 深度超限")
  | depth + 1, parent => do
    charge Budget.prototypeCounter 1 limits.maxPrototypes "prototype 數超限"
    let firstName ← sourceName memory profile limits (profile = .lua54)
    let head ← reading (prototypeHead texts profile)
    let codeCount ← reading (int texts profile)
    charge Budget.instructionCounter codeCount.toNat limits.maxInstructions "指令數超限"
    let code ← code memory profile limits codeCount.toNat
    let constantCount ← reading (int texts profile)
    charge Budget.constantCounter constantCount.toNat limits.maxConstants "常數數超限"
    reading (requireMin texts constantCount.toNat 1)
    vector memory limits memory.constant constantCount.toNat
    let constants ← replicate (constant memory profile limits) constantCount.toNat
    let upvalueCount ← reading (int texts profile)
    reading (Official.rejectHere (255 < upvalueCount.toNat) .invalidFormat
      "單一 prototype upvalue 過多")
    charge Budget.upvalueCounter upvalueCount.toNat limits.maxUpvalues "upvalue 數超限"
    reading (requireMin texts upvalueCount.toNat 3)
    vector memory limits memory.upvalue upvalueCount.toNat
    let upvalues ← reading (many (upvalue texts profile parent) upvalueCount.toNat)
    let childCount ← childCount profile limits
    reading (requireMin texts childCount 1)
    vector memory limits memory.prototype childCount
    let children ← replicate
      (prototype depth (some (head.maxStackSize, upvalueCount.toNat))) childCount
    let lastName ← sourceName memory profile limits (profile = .lua55)
    let debug ← debug memory profile limits codeCount.toNat upvalueCount.toNat
    pure ⟨if profile = .lua55 then lastName else firstName, head, code, constants, upvalues,
      children, debug⟩

/-- The room for the saved strings of a chunk of the given length. -/
def savedRoom (length : Nat) : Decode Unit := do
  let capacity := min limits.maxStrings.toNat (length / 2)
  alloc limits memory.savedString capacity
  let extra ← reserve memory capacity "字串索引配置失敗"
  alloc limits memory.savedString extra
  storing fun _ store => .ok ((), { store with savedCapacity := capacity + extra })

/-- The room for the saved strings, where the profile has them. -/
def savedStrings (length : Nat) : Decode Unit :=
  match profile with
  | .lua54 => pure ()
  | .lua55 => savedRoom memory limits length

/-- `MAX_SAFE_DEPTH`. -/
def maxSafeDepth : Nat := 64

/-- The chunk behind its header. -/
def chunk (length : Nat) : Decode OfficialChunk := do
  reading (header texts profile)
  savedStrings memory profile limits length
  let rootUpvalues ← reading (byte texts)
  let main ← prototype memory profile limits (min limits.maxDepth.toNat maxSafeDepth) none
  let remaining ← reading unread
  reading (Official.rejectHere (rootUpvalues.toNat ≠ main.upvalues.length ∨ remaining ≠ 0)
    .invalidFormat "root upvalue 數或結尾不符")
  pure ⟨profile, rootUpvalues, main⟩

end Reader

/-- `decode_official_chunk`. -/
def decodeOfficialChunk (memory : Memory) (bytes : List UInt8) (profile : LuaProfile)
    (limits : OfficialChunkLimits) : Except OfficialChunkError OfficialChunk := do
  Check.reject (limits.maxBytes.toNat < bytes.length) ⟨.limitExceeded, 0, "chunk 長度超限"⟩
  let (chunk, _) ← Reader.chunk memory profile limits bytes.length
    (⟨bytes, 0⟩, ⟨.empty, [], 0, 0⟩)
  .ok chunk

end RivetLua.Bytecode.Official
