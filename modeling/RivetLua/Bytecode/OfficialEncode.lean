import Mathlib.Algebra.Ring.Int.Defs
import RivetLua.Bytecode.Official

namespace RivetLua.Bytecode.Official

open RivetLua.Core Wire

/-!
# Bytecode — the encoder for the chunks of the reference implementation

The encoder checks a chunk against the limits, measures what it will write and writes it into a
buffer of that size.  In 5.5 a string that was written before is written as a reference; the
strings so far are found through a hash table.

* `validatePrototype` — the checks, with the budget of the decoder;
* `StringIndex` — the hash table of the strings;
* `Writer.prototype`, `encodeOfficialChunkInner` — the two passes of the encoder;
* `copyPrototype`, `cloneOfficialChunkChecked` — the copy that a translated module keeps.
-/

/-- What the compiler and the allocator decide about the encoder: beside what they decide about the
    decoder, the sizes of a chunk and of a slot of the string index, and the room that the `n`-th
    vector of the chunk has on top of its length. -/
structure EncodeMemory extends Memory where
  chunk : Nat
  slot : Nat
  spare : Nat → Nat

/-- `meter`: the work that is left.  What was consumed is not looked at here. -/
def meter (work : Option Nat) (units offset : Nat) : Except OfficialChunkError (Option Nat) :=
  match work with
  | none => .ok none
  | some remaining =>
    if remaining < units then .error ⟨.workExhausted, offset, "官方編碼 work 額度耗盡"⟩
    else .ok (some (remaining - units))

/-! ### Validation -/

/-- The budget, the number of vectors looked at so far, and the work that is left. -/
structure Validation where
  budget : Budget
  vectors : Nat
  work : Option Nat

/-- Programs of the validation. -/
abbrev Validate := StateT Validation (Except OfficialChunkError)

namespace Validate

/-- A check. -/
def check (x : Except OfficialChunkError Unit) : Validate Unit := fun s =>
  match x with
  | .ok () => .ok ((), s)
  | .error e => .error e

/-- `return Err(..)` if the condition holds. -/
def reject (c : Prop) [Decidable c] (kind : OfficialChunkErrorKind) (detail : String) :
    Validate Unit :=
  check (Check.reject c ⟨kind, 0, detail⟩)

/-- `meter`. -/
def meter (units : Nat) : Validate Unit := fun s =>
  match Official.meter s.work units 0 with
  | .ok work => .ok ((), { s with work := work })
  | .error e => .error e

/-- A charge. -/
def budgeted (f : Budget → Except OfficialChunkError Budget) : Validate Unit := fun s =>
  match f s.budget with
  | .ok budget => .ok ((), { s with budget := budget })
  | .error e => .error e

/-- `Budget::charge` of one of the counters. -/
def charge (counter : Counter Budget) (amount : Nat) (max : UInt64) (detail : String) :
    Validate Unit :=
  budgeted fun budget => budget.chargeTo counter amount max.toNat 0 detail

/-- The room of the next vector on top of its length. -/
def spare (memory : EncodeMemory) : Validate Nat := fun s =>
  .ok (memory.spare s.vectors, { s with vectors := s.vectors + 1 })

end Validate

section Validation

variable (memory : EncodeMemory) (profile : LuaProfile) (limits : OfficialChunkLimits)

/-- `budget.alloc::<T>(values.capacity(), ..)`. -/
def allocVector (size length : Nat) : Validate Unit := do
  let spare ← Validate.spare memory
  Validate.budgeted fun budget => budget.alloc limits size (length + spare) 0

/-- `validate_string`. -/
def validateString : Option (List UInt8) → Validate Unit
  | none => pure ()
  | some bytes => do
    Validate.budgeted fun budget => budget.string limits bytes.length 0
    let spare ← Validate.spare memory
    Validate.budgeted fun budget => budget.alloc limits 1 spare 0

/-- The bytes of a string constant. -/
def OfficialConstant.bytes? : OfficialConstant → Option (List UInt8)
  | .string bytes _ => some bytes
  | _ => none

/-- The place that an upvalue names exists in the function around. -/
def OfficialUpvalue.inParent (upvalue : OfficialUpvalue) : Parent → Bool
  | some (parentStack, parentUpvalues) =>
    if upvalue.inStack then upvalue.index < parentStack
    else upvalue.index.toNat < parentUpvalues
  | none => true

/-- `i32::MAX as usize`. -/
def i32Max : Nat := 2 ^ 31 - 1

/-- A prototype whose fields no function has. -/
def OfficialPrototype.Invalid (prototype : OfficialPrototype) : Prop :=
  prototype.head.Invalid profile ∨ i32Max < prototype.code.length
    ∨ i32Max < prototype.constants.length ∨ i32Max < prototype.children.length
    ∨ 255 < prototype.upvalues.length

instance (prototype : OfficialPrototype) : Decidable (prototype.Invalid profile) :=
  inferInstanceAs (Decidable (_ ∨ _ ∨ _ ∨ _ ∨ _))

/-- Debug data whose counts no function has. -/
def OfficialPrototype.DebugInvalid (prototype : OfficialPrototype) : Prop :=
  (prototype.debug.lineInfo ≠ [] ∧ prototype.debug.lineInfo.length ≠ prototype.code.length)
    ∨ (prototype.debug.upvalueNames ≠ []
      ∧ prototype.debug.upvalueNames.length ≠ prototype.upvalues.length)
    ∨ i32Max < prototype.debug.absLineInfo.length ∨ i32Max < prototype.debug.locals.length

instance (prototype : OfficialPrototype) : Decidable prototype.DebugInvalid :=
  inferInstanceAs (Decidable (_ ∨ _ ∨ _ ∨ _))

/-- The absolute lines behind those before. -/
def validateAbsLines (codeLength : Nat) (lineInfo : List Int8) :
    Option UInt32 → List OfficialAbsLine → Except OfficialChunkError Unit
  | _, [] => .ok ()
  | previous, abs :: rest => do
    Check.reject (codeLength ≤ abs.pc.toNat ∨ abs.line < 0 ∨ (∃ last ∈ previous, abs.pc ≤ last)
        ∨ lineInfo[abs.pc.toNat]? ≠ some (-128))
      ⟨.invalidFormat, 0, "絕對行號 PC 或 line 不符"⟩
    validateAbsLines codeLength lineInfo (some abs.pc) rest

/-- The loop body over the locals. -/
def validateLocal (codeLength : Nat) (entry : OfficialLocal) : Validate Unit := do
  Validate.reject (entry.endPc < entry.startPc ∨ codeLength < entry.endPc.toNat) .invalidFormat
    "local PC 範圍不符"
  validateString memory limits entry.name

/-- The debug data of a prototype. -/
def validateDebug (prototype : OfficialPrototype) : Validate Unit := do
  let debug := prototype.debug
  Validate.reject prototype.DebugInvalid .invalidFormat "debug 數量不符"
  [debug.lineInfo.length, debug.absLineInfo.length, debug.locals.length,
      debug.upvalueNames.length].forM fun count =>
    Validate.charge Budget.debugCounter count limits.maxDebugEntries "debug 項數超限"
  allocVector memory limits 1 debug.lineInfo.length
  allocVector memory limits memory.absLine debug.absLineInfo.length
  allocVector memory limits memory.localRecord debug.locals.length
  allocVector memory limits memory.upvalueName debug.upvalueNames.length
  Validate.check (validateAbsLines prototype.code.length debug.lineInfo none debug.absLineInfo)
  Validate.reject (debug.lineInfo.count (-128) ≠ debug.absLineInfo.length) .invalidFormat
    "絕對行號與 marker 不符"
  debug.locals.forM (validateLocal memory limits prototype.code.length)
  debug.upvalueNames.forM (validateString memory limits)

/-- The work that the scan of a prototype is charged with. -/
def OfficialPrototype.scanUnits (prototype : OfficialPrototype) : Nat :=
  prototype.constants.length + prototype.upvalues.length + prototype.children.length
    + prototype.debug.absLineInfo.length + prototype.debug.lineInfo.length
    + prototype.debug.locals.length + prototype.debug.upvalueNames.length + 1

/-- `validate_prototype`, but for the children. -/
def validateOwn (depth : Nat) (parent : Parent) (prototype : OfficialPrototype) :
    Validate Unit := do
  Validate.reject (prototype.scanUnits > usizeMax) .overflow "prototype 掃描 work 溢位"
  Validate.meter prototype.scanUnits
  Validate.reject (min limits.maxDepth.toNat Reader.maxSafeDepth < depth) .limitExceeded
    "prototype 深度超限"
  Validate.charge Budget.prototypeCounter 1 limits.maxPrototypes "prototype 數超限"
  Validate.reject (prototype.Invalid profile) .invalidFormat "prototype signature 不符"
  Validate.charge Budget.instructionCounter prototype.code.length limits.maxInstructions "指令數超限"
  allocVector memory limits 4 prototype.code.length
  Validate.charge Budget.constantCounter prototype.constants.length limits.maxConstants "常數數超限"
  allocVector memory limits memory.constant prototype.constants.length
  Validate.charge Budget.upvalueCounter prototype.upvalues.length limits.maxUpvalues
    "upvalue 數超限"
  allocVector memory limits memory.upvalue prototype.upvalues.length
  allocVector memory limits memory.prototype prototype.children.length
  validateString memory limits prototype.source
  prototype.constants.forM fun constant => validateString memory limits constant.bytes?
  prototype.upvalues.forM fun upvalue =>
    Validate.reject (maxKind profile < upvalue.kind ∨ ¬ upvalue.inParent parent) .invalidFormat
      "upvalue parent index 或 kind 不符"
  validateDebug memory limits prototype

mutual

/-- `validate_prototype`. -/
def validatePrototype (depth : Nat) (parent : Parent) : OfficialPrototype → Validate Unit
  | prototype@⟨_, head, _, _, upvalues, children, _⟩ => do
    validateOwn memory profile limits depth parent prototype
    validateChildren (depth + 1) (some (head.maxStackSize, upvalues.length)) children

/-- The children of a prototype. -/
def validateChildren (depth : Nat) (parent : Parent) : List OfficialPrototype → Validate Unit
  | [] => pure ()
  | child :: children => do
    validatePrototype depth parent child
    validateChildren depth parent children

end

end Validation

/-! ### The string index -/

/-- `StringIndex`: the slots, the room they have, and the number of strings. -/
structure StringIndex where
  slots : List (Option (List UInt8 × Nat))
  capacity : Nat
  count : Nat

namespace StringIndex

variable (memory : EncodeMemory) (hash : List UInt8 → Nat)

/-- The index of a profile without one. -/
def empty : StringIndex := ⟨[], 0, 0⟩

/-- `StringIndex::new` for the `request`-th request of room, under the allocation limit. -/
def new (request maxEntries maxAllocated : Nat) (work : Option Nat) :
    Except OfficialChunkError (StringIndex × Option Nat) :=
  if maxEntries = 0 then .ok (empty, work)
  else do
    let slotCount := (maxEntries * 2).nextPowerOfTwo
    Check.reject (maxEntries * 2 > usizeMax ∨ slotCount > usizeMax)
      ⟨.overflow, 0, "字串索引大小溢位"⟩
    Check.reject (slotCount * memory.slot > usizeMax) ⟨.overflow, 0, "字串索引配置溢位"⟩
    Check.reject (slotCount * memory.slot > maxAllocated) ⟨.limitExceeded, 0, "字串索引配置超限"⟩
    let work ← meter work slotCount 0
    let extra ← Check.some? (memory.extra request) ⟨.allocationFailed, 0, "字串索引配置失敗"⟩
    Check.reject ((slotCount + extra) * memory.slot > maxAllocated)
      ⟨.limitExceeded, 0, "字串索引實際容量超限"⟩
    .ok (⟨List.replicate slotCount none, slotCount + extra, 0⟩, work)

/-- `StringIndex::allocated`. -/
def allocated (index : StringIndex) : Nat := index.capacity * memory.slot

/-- The loop of `StringIndex::slot`, from one slot on: the slot of the string, or the free one where
    it belongs. -/
def probe (index : StringIndex) (bytes : List UInt8) :
    Nat → Nat → Option Nat → Except OfficialChunkError (Nat × Option Nat)
  | 0, _, _ => .error ⟨.limitExceeded, 0, "字串索引已滿"⟩
  | fuel + 1, place, work => do
    let saved := (index.slots[place]?).bind id
    let compare := (saved.map fun saved => saved.1.length).getD 0
    let work ← meter work (min (compare + 1) usizeMax) 0
    match saved with
    | none => .ok (place, work)
    | some saved =>
      if saved.1 ≠ bytes then
        probe index bytes fuel ((place + 1) &&& (index.slots.length - 1)) work
      else .ok (place, work)

/-- `StringIndex::slot`. -/
def slot (index : StringIndex) (bytes : List UInt8) (work : Option Nat) :
    Except OfficialChunkError (Nat × Option Nat) := do
  Check.reject (index.slots = []) ⟨.limitExceeded, 0, "字串索引容量不足"⟩
  let work ← meter work bytes.length 0
  probe index bytes index.slots.length (hash bytes &&& (index.slots.length - 1)) work

/-- `StringIndex::lookup`. -/
def lookup (index : StringIndex) (bytes : List UInt8) (work : Option Nat) :
    Except OfficialChunkError (Option Nat × Option Nat) := do
  let (place, work) ← index.slot hash bytes work
  .ok (((index.slots[place]?).bind id).map Prod.snd, work)

/-- `StringIndex::insert`. -/
def insert (index : StringIndex) (bytes : List UInt8) (work : Option Nat) :
    Except OfficialChunkError (StringIndex × Option Nat) := do
  let (place, work) ← index.slot hash bytes work
  if ((index.slots[place]?).bind id).isSome then .ok (index, work)
  else do
    Check.reject (index.count + 1 > usizeMax) ⟨.overflow, 0, "字串索引數溢位"⟩
    .ok (⟨index.slots.set place (some (bytes, index.count + 1)), index.capacity, index.count + 1⟩,
      work)

end StringIndex

/-! ### The writer -/

/-- `Writer`: the bytes so far, or only their number; the room for them; the strings so far and the
    work that is left. -/
structure Writer where
  bytes : List UInt8
  measuredLen : Nat
  measuring : Bool
  capacity : Nat
  savedStrings : StringIndex
  work : Option Nat

/-- `Writer::offset`. -/
def Writer.offset (writer : Writer) : Nat :=
  if writer.measuring then writer.measuredLen else writer.bytes.length

/-- Programs of a `Writer`. -/
abbrev Encode := StateT Writer (Except OfficialChunkError)

namespace Writer

/-- The groups of seven bits of a number, the highest first: those in front of `groups`. -/
def varintLoop : Nat → Nat → List UInt8 → List UInt8
  | 0, _, groups => groups
  | fuel + 1, value, groups =>
    if value = 0 then groups
    else varintLoop fuel (value / 128) (UInt8.ofNat (value % 128) :: groups)

/-- The groups of a number of 64 bits. -/
def varintGroups (value : Nat) : List UInt8 :=
  varintLoop 9 (value / 128) [UInt8.ofNat (value % 128)]

/-- The bytes of a number of variable length: the highest bit marks all groups but the last in 5.5,
    and the last in 5.4. -/
def varintBytes (profile : LuaProfile) (value : Nat) : List UInt8 :=
  let groups := varintGroups value
  match profile with
  | .lua55 => groups.dropLast.map (· ||| 0x80) ++ groups.getLast?.toList
  | .lua54 => groups.dropLast ++ groups.getLast?.toList.map (· ||| 0x80)

variable (memory : EncodeMemory) (hash : List UInt8 → Nat) (profile : LuaProfile)
  (limits : OfficialChunkLimits) (baseAllocated : Nat)

/-- `meter`. -/
def meter (units offset : Nat) : Encode Unit := fun w =>
  match Official.meter w.work units offset with
  | .ok work => .ok ((), { w with work := work })
  | .error e => .error e

/-- `Writer::put`. -/
def put (bytes : List UInt8) : Encode Unit := do
  let w ← get
  let offset := w.offset
  meter bytes.length offset
  let stop := offset + bytes.length
  if stop > usizeMax then throw ⟨.overflow, offset, "輸出長度溢位"⟩
  else if stop > limits.maxBytes.toNat
      ∨ stop + w.savedStrings.allocated memory + baseAllocated > limits.maxAllocatedBytes.toNat then
    throw ⟨.limitExceeded, offset, "輸出或配置額度超限"⟩
  else if w.measuring then modify fun w => { w with measuredLen := stop }
  else if stop > w.capacity then throw ⟨.invalidFormat, offset, "預估輸出大小不符"⟩
  else modify fun w => { w with bytes := w.bytes ++ bytes }

/-- `Writer::byte`. -/
def byte (value : UInt8) : Encode Unit := put memory limits baseAllocated [value]

/-- `Writer::u32` and `Writer::i32`. -/
def u32 (value : UInt32) : Encode Unit :=
  put memory limits baseAllocated (littleEndian 4 value.toNat)

/-- `Writer::i64` and `Writer::f64`. -/
def u64 (value : UInt64) : Encode Unit :=
  put memory limits baseAllocated (littleEndian 8 value.toNat)

/-- `Writer::varint`. -/
def varint (value : Nat) : Encode Unit :=
  put memory limits baseAllocated (varintBytes profile value)

/-- `Writer::int`. -/
def int (value : Nat) : Encode Unit := do
  let w ← get
  if value > intMax profile then throw ⟨.overflow, w.offset, "int 超出範圍"⟩
  else varint memory profile limits baseAllocated value

/-- `Writer::align4`. -/
def align4 : Encode Unit := do
  let w ← get
  put memory limits baseAllocated (List.replicate ((4 - w.offset % 4) % 4) 0)

/-- `Writer::header`. -/
def header : Encode Unit := do
  put memory limits baseAllocated signature
  byte memory limits baseAllocated (if profile = .lua55 then 0x55 else 0x54)
  byte memory limits baseAllocated 0
  put memory limits baseAllocated data
  (sentinels profile).forM (put memory limits baseAllocated)

/-- The reference to a string that was written before, if there is one. -/
def lookup (bytes : List UInt8) : Encode (Option Nat) := fun w =>
  match w.savedStrings.lookup hash bytes w.work with
  | .ok (index, work) => .ok (index, { w with work := work })
  | .error e => .error e

/-- Save a string. -/
def insert (bytes : List UInt8) : Encode Unit := fun w =>
  match w.savedStrings.insert hash bytes w.work with
  | .ok (savedStrings, work) => .ok ((), { w with savedStrings := savedStrings, work := work })
  | .error e => .error e

/-- A string that is written out. -/
def inlineString (bytes : List UInt8) : Encode Unit := do
  varint memory profile limits baseAllocated (bytes.length + 1)
  put memory limits baseAllocated bytes
  match profile with
  | .lua54 => pure ()
  | .lua55 => do
    byte memory limits baseAllocated 0
    insert hash bytes

/-- `Writer::string`. -/
def string : Option (List UInt8) → Encode Unit
  | none => do
    varint memory profile limits baseAllocated 0
    match profile with
    | .lua54 => pure ()
    | .lua55 => varint memory profile limits baseAllocated 0
  | some bytes =>
    match profile with
    | .lua54 => inlineString memory hash .lua54 limits baseAllocated bytes
    | .lua55 => do
      let index ← lookup hash bytes
      match index with
      | some index => do
        varint memory .lua55 limits baseAllocated 0
        varint memory .lua55 limits baseAllocated index
      | none => inlineString memory hash .lua55 limits baseAllocated bytes

/-- The number that stands for an integer in 5.5: the sign is the lowest bit. -/
def codedInteger (value : Int64) : Nat :=
  if 0 ≤ value.toInt then (2 * value.toInt).toNat else (2 * (-value.toInt - 1) + 1).toNat

/-- One constant. -/
def constant : OfficialConstant → Encode Unit
  | .nil => byte memory limits baseAllocated 0
  | .boolean false => byte memory limits baseAllocated 1
  | .boolean true => byte memory limits baseAllocated 17
  | .integer value => do
    byte memory limits baseAllocated 3
    match profile with
    | .lua55 => varint memory .lua55 limits baseAllocated (codedInteger value)
    | .lua54 => u64 memory limits baseAllocated value.toUInt64
  | .number bits => do
    byte memory limits baseAllocated 19
    u64 memory limits baseAllocated bits
  | .string bytes long => do
    byte memory limits baseAllocated (if long then 20 else 4)
    string memory hash profile limits baseAllocated (some bytes)

/-- One upvalue. -/
def upvalue (value : OfficialUpvalue) : Encode Unit := do
  byte memory limits baseAllocated (if value.inStack then 1 else 0)
  byte memory limits baseAllocated value.index
  byte memory limits baseAllocated value.kind

/-- One absolute line. -/
def absLine (abs : OfficialAbsLine) : Encode Unit :=
  match profile with
  | .lua55 => do
    u32 memory limits baseAllocated abs.pc
    u32 memory limits baseAllocated abs.line.toUInt32
  | .lua54 => do
    int memory .lua54 limits baseAllocated abs.pc.toNat
    int memory .lua54 limits baseAllocated (abs.line.toInt % 2 ^ 64).toNat

/-- One local. -/
def «local» (entry : OfficialLocal) : Encode Unit := do
  string memory hash profile limits baseAllocated entry.name
  int memory profile limits baseAllocated entry.startPc.toNat
  int memory profile limits baseAllocated entry.endPc.toNat

/-- A count, the work for the items, and the items. -/
def counted {α : Type} (items : List α) (item : α → Encode Unit) : Encode Unit := do
  int memory profile limits baseAllocated items.length
  meter items.length 0
  items.forM item

/-- A count, the padding of 5.5, the work for the items, and the items. -/
def aligned {α : Type} (align : Prop) [Decidable align] (items : List α)
    (item : α → Encode Unit) : Encode Unit := do
  int memory profile limits baseAllocated items.length
  (if profile = .lua55 ∧ align then align4 memory limits baseAllocated else pure ())
  meter items.length 0
  items.forM item

/-- The name of the source, where the profile has it. -/
def sourceName (strip here : Bool) (source : Option (List UInt8)) : Encode Unit :=
  if here then string memory hash profile limits baseAllocated (if strip then none else source)
  else pure ()

/-- The fields of a prototype in front of its code. -/
def head (value : PrototypeHead) : Encode Unit := do
  int memory profile limits baseAllocated value.lineDefined.toNat
  int memory profile limits baseAllocated value.lastLineDefined.toNat
  byte memory limits baseAllocated value.numParams
  byte memory limits baseAllocated value.flags
  byte memory limits baseAllocated value.maxStackSize

/-- Debug data that is left out when a chunk is stripped. -/
def kept {α : Type} (strip : Bool) (items : List α) : List α := if strip then [] else items

/-- The debug data of a prototype. -/
def debug (strip : Bool) (value : OfficialDebug) : Encode Unit := do
  counted memory profile limits baseAllocated (kept strip value.lineInfo) fun line =>
    byte memory limits baseAllocated line.toUInt8
  aligned memory profile limits baseAllocated (0 < (kept strip value.absLineInfo).length)
    (kept strip value.absLineInfo) (absLine memory profile limits baseAllocated)
  counted memory profile limits baseAllocated (kept strip value.locals)
    (Writer.local memory hash profile limits baseAllocated)
  counted memory profile limits baseAllocated (kept strip value.upvalueNames)
    (string memory hash profile limits baseAllocated)

mutual

/-- `Writer::prototype`. -/
def prototype (strip : Bool) : OfficialPrototype → Encode Unit
  | ⟨source, headFields, code, constants, upvalues, children, debugData⟩ => do
    sourceName memory hash profile limits baseAllocated strip (profile = .lua54) source
    head memory profile limits baseAllocated headFields
    aligned memory profile limits baseAllocated True code (u32 memory limits baseAllocated)
    counted memory profile limits baseAllocated constants
      (constant memory hash profile limits baseAllocated)
    counted memory profile limits baseAllocated upvalues (upvalue memory limits baseAllocated)
    int memory profile limits baseAllocated children.length
    meter children.length 0
    prototypes strip children
    sourceName memory hash profile limits baseAllocated strip (profile = .lua55) source
    debug memory hash profile limits baseAllocated strip debugData

/-- The children of a prototype. -/
def prototypes (strip : Bool) : List OfficialPrototype → Encode Unit
  | [] => pure ()
  | child :: children => do
    prototype strip child
    prototypes strip children

end

/-- Everything the encoder writes. -/
def chunk (strip : Bool) (value : OfficialChunk) : Encode Unit := do
  header memory profile limits baseAllocated
  byte memory limits baseAllocated value.rootUpvalues
  prototype memory hash profile limits baseAllocated strip value.main

end Writer

/-! ### The encoder -/

mutual

/-- `constant_strings`: the string constants of a prototype and of all below it. -/
def constantStrings (work : Option Nat) :
    OfficialPrototype → Except OfficialChunkError (Nat × Option Nat)
  | ⟨_, _, _, constants, _, children, _⟩ => do
    Check.reject (constants.length + children.length > usizeMax)
      ⟨.overflow, 0, "字串表掃描 work 溢位"⟩
    let work ← meter work (constants.length + children.length) 0
    let own := constants.countP fun constant => constant.bytes?.isSome
    constantStringsOf own work children

/-- The string constants of some prototypes, on top of a count. -/
def constantStringsOf (total : Nat) (work : Option Nat) :
    List OfficialPrototype → Except OfficialChunkError (Nat × Option Nat)
  | [] => .ok (total, work)
  | child :: children => do
    let (count, work) ← constantStrings work child
    Check.reject (total + count > usizeMax) ⟨.overflow, 0, "字串表項數溢位"⟩
    constantStringsOf (total + count) work children

end

section Encoder

variable (memory : EncodeMemory) (hash : List UInt8 → Nat)

/-- The number of strings the index has to have room for. -/
def tableEntries (chunk : OfficialChunk) (strip : Bool) (strings : Nat) (work : Option Nat) :
    Except OfficialChunkError (Nat × Option Nat) :=
  match chunk.profile with
  | .lua54 => .ok (0, work)
  | .lua55 => if strip then constantStrings work chunk.main else .ok (strings, work)

/-- `encode_official_chunk_inner`: the bytes and the work that is left. -/
def encodeOfficialChunkInner (chunk : OfficialChunk) (strip : Bool) (limits : OfficialChunkLimits)
    (work : Option Nat) : Except OfficialChunkError (List UInt8 × Option Nat) := do
  Check.reject (chunk.rootUpvalues.toNat ≠ chunk.main.upvalues.length)
    ⟨.invalidFormat, 0, "root upvalue 數不符"⟩
  let budget ← Budget.empty.alloc limits memory.chunk 1 0
  let (_, validation) ← validatePrototype memory chunk.profile limits 1 none chunk.main
    ⟨budget, 0, work⟩
  let budget := validation.budget
  let remaining := limits.maxAllocatedBytes.toNat - budget.allocated
  let (entries, work) ← tableEntries chunk strip budget.strings validation.work
  let (index, work) ← StringIndex.new memory 0 entries remaining work
  let (_, measured) ← Writer.chunk memory hash chunk.profile limits budget.allocated strip chunk
    ⟨[], 0, true, 0, index, work⟩
  let outputLen := measured.measuredLen
  let (table, work) ← StringIndex.new memory 1 entries remaining measured.work
  let total := budget.allocated + table.allocated memory + outputLen
  Check.reject (total > usizeMax) ⟨.overflow, 0, "配置總量溢位"⟩
  Check.reject (total > limits.maxAllocatedBytes.toNat) ⟨.limitExceeded, 0, "配置額度超限"⟩
  let extra ← Check.some? (memory.extra 2) ⟨.allocationFailed, 0, "輸出配置失敗"⟩
  Check.reject (total + extra > limits.maxAllocatedBytes.toNat)
    ⟨.limitExceeded, 0, "輸出實際容量超限"⟩
  let (_, writer) ← Writer.chunk memory hash chunk.profile limits budget.allocated strip chunk
    ⟨[], 0, false, outputLen + extra, table, work⟩
  Check.reject (writer.bytes.length ≠ outputLen)
    ⟨.invalidFormat, writer.bytes.length, "預估輸出大小不符"⟩
  .ok (writer.bytes, writer.work)

/-- `encode_official_chunk`. -/
def encodeOfficialChunk (chunk : OfficialChunk) (strip : Bool) (limits : OfficialChunkLimits) :
    Except OfficialChunkError (List UInt8) := do
  let (bytes, _) ← encodeOfficialChunkInner memory hash chunk strip limits none
  .ok bytes

/-- `encode_official_chunk_metered`. -/
def encodeOfficialChunkMetered (chunk : OfficialChunk) (strip : Bool)
    (limits : OfficialChunkLimits) (work : Nat) : Except OfficialChunkError (List UInt8 × Nat) := do
  let (bytes, work) ← encodeOfficialChunkInner memory hash chunk strip limits (some work)
  .ok (bytes, work.getD 0)

end Encoder

/-! ### The copy of a translated module -/

section Copy

variable (memory : Memory) (limits : OfficialChunkLimits)

/-- `copy_optional_bytes`: a copy is the string itself, what counts is the room for it. -/
def copyOptionalBytes : Option (List UInt8) → Decode Unit
  | none => pure ()
  | some bytes => do
    let _ ← Reader.bytesOwned memory limits bytes

/-- `copy_prototype`, but for the children: what comes in front of them. -/
def copyFront (prototype : OfficialPrototype) : Decode Unit := do
  Reader.vector memory limits memory.constant prototype.constants.length
  prototype.constants.forM fun constant => copyOptionalBytes memory limits constant.bytes?
  Reader.vector memory limits memory.localRecord prototype.debug.locals.length
  prototype.debug.locals.forM fun entry => copyOptionalBytes memory limits entry.name
  Reader.vector memory limits memory.upvalueName prototype.debug.upvalueNames.length
  prototype.debug.upvalueNames.forM (copyOptionalBytes memory limits)
  Reader.vector memory limits memory.prototype prototype.children.length

/-- What comes behind the children. -/
def copyBack (prototype : OfficialPrototype) : Decode Unit := do
  copyOptionalBytes memory limits prototype.source
  Reader.vector memory limits 4 prototype.code.length
  Reader.vector memory limits memory.upvalue prototype.upvalues.length
  Reader.vector memory limits 1 prototype.debug.lineInfo.length
  Reader.vector memory limits memory.absLine prototype.debug.absLineInfo.length

mutual

/-- `copy_prototype`. -/
def copyPrototype : OfficialPrototype → Decode Unit
  | prototype@⟨_, _, _, _, _, children, _⟩ => do
    copyFront memory limits prototype
    copyPrototypes children
    copyBack memory limits prototype

/-- The children of a prototype. -/
def copyPrototypes : List OfficialPrototype → Decode Unit
  | [] => pure ()
  | child :: children => do
    copyPrototype child
    copyPrototypes children

end

end Copy

/-- `clone_official_chunk_checked`: the copy, and the bytes it takes. -/
def cloneOfficialChunkChecked (memory : EncodeMemory) (source : OfficialChunk)
    (limits : OfficialChunkLimits) : Except OfficialChunkError (OfficialChunk × Nat) := do
  Check.reject (source.rootUpvalues.toNat ≠ source.main.upvalues.length)
    ⟨.invalidFormat, 0, "root upvalue 數不符"⟩
  let _ ← validatePrototype memory source.profile limits 1 none source.main ⟨.empty, 0, none⟩
  let (_, _, copied) ← copyPrototype memory.toMemory limits source.main
    (⟨[], 0⟩, ⟨.empty, [], 0, 0⟩)
  .ok (source, copied.budget.allocated)

end RivetLua.Bytecode.Official
