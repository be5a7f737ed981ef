import Mathlib.Tactic.Linarith
import RivetLua.Lib.Graded
import RivetLua.Bytecode.OfficialEncode

namespace RivetLua.Bytecode.Official

open RivetLua.Core Wire StateExcept

/-!
# Bytecode — the length of an encoded chunk

The length of what the encoder writes is the one that its first pass measures.  Each piece is
bounded by the size that its record has in memory, so that the whole is bounded by the bytes that a
copy of the chunk takes: what is not a record of its own is paid for by the prototypes.

* `Writes` — programs of the encoder that write at most so many bytes;
* `OfficialPrototype.written`, `OfficialPrototype.stored` — what a prototype takes encoded and as a
  copy, without its children;
* `length_encodeOfficialChunkInner` — the bytes of an encoded chunk.
-/

/-- A program that writes at most `n` bytes, in the pass that measures. -/
abbrev Writes {α : Type} (n : Nat) (m : Encode α) : Prop :=
  Moves (atMost Writer.measuredLen) n m

/-! ### Words -/

theorem length_varintLoop (fuel value : Nat) (groups : List UInt8) :
    (Writer.varintLoop fuel value groups).length ≤ groups.length + fuel := by
  induction fuel generalizing value groups with
  | zero => exact Nat.le_refl _
  | succ fuel ih =>
    unfold Writer.varintLoop
    split
    · omega
    · have := ih (value / 128) (UInt8.ofNat (value % 128) :: groups)
      rw [List.length_cons] at this
      omega

/-- A number has at most ten groups of seven bits. -/
theorem length_varintBytes (profile : LuaProfile) (value : Nat) :
    (Writer.varintBytes profile value).length ≤ 10 := by
  have hgroups : (Writer.varintGroups value).length ≤ 10 := length_varintLoop 9 _ _
  have hsplit : ∀ groups : List UInt8,
      groups.dropLast.length + groups.getLast?.toList.length = groups.length := by
    intro groups
    cases groups with
    | nil => rfl
    | cons first rest => simp [List.getLast?_cons]
  have := hsplit (Writer.varintGroups value)
  cases profile <;>
  · simp only [Writer.varintBytes, List.length_append, List.length_map]
    omega

section Words

variable (memory : EncodeMemory) (hash : List UInt8 → Nat) (profile : LuaProfile)
  (limits : OfficialChunkLimits) (baseAllocated : Nat)

theorem writes_meter (units offset : Nat) : Writes 0 (Writer.meter units offset) := by
  intro w a w' hrun
  unfold Writer.meter at hrun
  split at hrun
  · cases hrun
    exact Nat.le_refl _
  · cases hrun

theorem writes_put (bytes : List UInt8) :
    Writes bytes.length (Writer.put memory limits baseAllocated bytes) := by
  intro w a w' hrun
  have hrun := get_bind_eq_ok.mp hrun
  obtain ⟨_, v, hmeter, hrun⟩ := bind_eq_ok.mp hrun
  have hkept := writes_meter _ _ w _ v hmeter
  have hmeasuring : v.measuring = w.measuring := by
    unfold Writer.meter at hmeter
    split at hmeter
    · cases hmeter
      rfl
    · cases hmeter
  unfold atMost at *
  split at hrun
  · cases hrun
  · split at hrun
    · cases hrun
    · split at hrun
      · next hmode =>
        obtain rfl := modify_eq_ok.mp hrun
        show w.offset + bytes.length ≤ _
        rw [Writer.offset, if_pos hmode]
      · split at hrun
        · cases hrun
        · obtain rfl := modify_eq_ok.mp hrun
          show v.measuredLen ≤ _
          omega

theorem writes_byte (value : UInt8) :
    Writes 1 (Writer.byte memory limits baseAllocated value) :=
  writes_put memory limits baseAllocated [value]

theorem writes_u32 (value : UInt32) : Writes 4 (Writer.u32 memory limits baseAllocated value) :=
  (writes_put memory limits baseAllocated _).weaken (Nat.le_of_eq (length_littleEndian 4 _))

theorem writes_u64 (value : UInt64) : Writes 8 (Writer.u64 memory limits baseAllocated value) :=
  (writes_put memory limits baseAllocated _).weaken (Nat.le_of_eq (length_littleEndian 8 _))

theorem writes_varint (value : Nat) :
    Writes 10 (Writer.varint memory profile limits baseAllocated value) :=
  (writes_put memory limits baseAllocated _).weaken (length_varintBytes profile value)

theorem writes_int (value : Nat) :
    Writes 10 (Writer.int memory profile limits baseAllocated value) := by
  refine Moves.get fun w => ?_
  exact .ite (.throw _) (writes_varint memory profile limits baseAllocated value)

theorem writes_align4 : Writes 3 (Writer.align4 memory limits baseAllocated) := by
  refine Moves.get fun w => ?_
  refine (writes_put memory limits baseAllocated _).weaken ?_
  rw [List.length_replicate]
  omega

theorem writes_lookup (bytes : List UInt8) : Writes 0 (Writer.lookup hash bytes) := by
  intro w a w' hrun
  unfold Writer.lookup at hrun
  split at hrun
  · cases hrun
    exact Nat.le_refl _
  · cases hrun

theorem writes_insert (bytes : List UInt8) : Writes 0 (Writer.insert hash bytes) := by
  intro w a w' hrun
  unfold Writer.insert at hrun
  split at hrun
  · cases hrun
    exact Nat.le_refl _
  · cases hrun

/-- The bytes of a string, if there is one. -/
def contentLength (bytes : Option (List UInt8)) : Nat := (bytes.getD []).length

theorem writes_inlineString (bytes : List UInt8) :
    Writes (11 + bytes.length)
      (Writer.inlineString memory hash profile limits baseAllocated bytes) := by
  have hsize := writes_varint memory profile limits baseAllocated (bytes.length + 1)
  have hput := writes_put memory limits baseAllocated bytes
  cases profile with
  | lua54 => exact (hsize.bind fun _ => hput.bind fun _ => Moves.pure _).weaken (by omega)
  | lua55 =>
    exact (hsize.bind fun _ => hput.bind fun _ =>
      (writes_byte memory limits baseAllocated 0).bind fun _ =>
        writes_insert hash bytes).weaken (by omega)

/-- A string takes its bytes and two numbers, whether it is written out or referred to. -/
theorem writes_string (bytes : Option (List UInt8)) :
    Writes (20 + contentLength bytes)
      (Writer.string memory hash profile limits baseAllocated bytes) := by
  have hzero : Writes 10 (Writer.varint memory profile limits baseAllocated 0) :=
    writes_varint memory profile limits baseAllocated 0
  cases bytes with
  | none =>
    cases profile with
    | lua54 => exact (hzero.bind fun _ => Moves.pure _).weaken (by omega)
    | lua55 => exact hzero.bind fun _ => hzero
  | some bytes =>
    have hinline := writes_inlineString memory hash profile limits baseAllocated bytes
    have hlength : 11 + bytes.length ≤ 20 + contentLength (some bytes) :=
      Nat.add_le_add_right (by decide) _
    cases profile with
    | lua54 => exact hinline.weaken hlength
    | lua55 =>
      refine ((writes_lookup hash bytes).bind (n := 20 + contentLength (some bytes))
        fun index => ?_).weaken (by omega)
      cases index with
      | none => exact hinline.weaken hlength
      | some index =>
        exact (hzero.bind fun _ =>
          writes_varint memory .lua55 limits baseAllocated index).weaken (Nat.le_add_right 20 _)

end Words

/-! ### Records -/

section Records

variable (memory : EncodeMemory) (hash : List UInt8 → Nat) (profile : LuaProfile)
  (limits : OfficialChunkLimits) (baseAllocated : Nat)

theorem writes_header : Writes 48 (Writer.header memory profile limits baseAllocated) := by
  have hsentinels : Writes ((sentinels profile).map List.length).sum
      ((sentinels profile).forM (Writer.put memory limits baseAllocated)) :=
    Moves.forM List.length fun piece _ => writes_put memory limits baseAllocated piece
  have hlength : ((sentinels profile).map List.length).sum ≤ 36 := by
    cases profile <;> decide
  have hall := (writes_put memory limits baseAllocated signature).bind fun _ =>
    (writes_byte memory limits baseAllocated (if profile = .lua55 then 0x55 else 0x54)).bind
      fun _ => (writes_byte memory limits baseAllocated 0).bind
        fun _ => (writes_put memory limits baseAllocated data).bind fun _ => hsentinels
  refine hall.weaken ?_
  show 4 + (1 + (1 + (6 + _))) ≤ 48
  omega

theorem writes_constant (value : OfficialConstant) :
    Writes (21 + contentLength value.bytes?)
      (Writer.constant memory hash profile limits baseAllocated value) := by
  have hbyte := writes_byte memory limits baseAllocated
  have hone : 1 ≤ 21 + contentLength value.bytes? := by omega
  cases value with
  | nil => exact (hbyte 0).weaken hone
  | boolean value => cases value <;> exact (hbyte _).weaken hone
  | integer value =>
    cases profile with
    | lua54 =>
      exact ((hbyte 3).bind fun _ => writes_u64 memory limits baseAllocated _).weaken (by omega)
    | lua55 =>
      exact ((hbyte 3).bind fun _ =>
        writes_varint memory .lua55 limits baseAllocated _).weaken (by omega)
  | number bits =>
    exact ((hbyte 19).bind fun _ => writes_u64 memory limits baseAllocated bits).weaken (by omega)
  | string bytes long =>
    have hstring := writes_string memory hash profile limits baseAllocated (some bytes)
    refine ((hbyte (if long then 20 else 4)).bind fun _ => hstring).weaken ?_
    show 1 + (20 + contentLength (some bytes)) ≤ 21 + contentLength (some bytes)
    omega

theorem writes_upvalue (value : OfficialUpvalue) :
    Writes 3 (Writer.upvalue memory limits baseAllocated value) :=
  (writes_byte memory limits baseAllocated _).bind fun _ =>
    (writes_byte memory limits baseAllocated _).bind fun _ =>
      writes_byte memory limits baseAllocated _

theorem writes_absLine (abs : OfficialAbsLine) :
    Writes 20 (Writer.absLine memory profile limits baseAllocated abs) := by
  cases profile with
  | lua54 =>
    exact (writes_int memory .lua54 limits baseAllocated _).bind fun _ =>
      writes_int memory .lua54 limits baseAllocated _
  | lua55 =>
    exact ((writes_u32 memory limits baseAllocated _).bind fun _ =>
      writes_u32 memory limits baseAllocated _).weaken (by decide)

theorem writes_local (entry : OfficialLocal) :
    Writes (40 + contentLength entry.name)
      (Writer.local memory hash profile limits baseAllocated entry) := by
  have hint := fun value => writes_int memory profile limits baseAllocated value
  exact ((writes_string memory hash profile limits baseAllocated entry.name).bind fun _ =>
    (hint entry.startPc.toNat).bind fun _ => hint entry.endPc.toNat).weaken (by omega)

theorem writes_counted {α : Type} (items : List α) {item : α → Encode Unit} {grade : α → Nat}
    (h : ∀ a, Writes (grade a) (item a)) :
    Writes (10 + (items.map grade).sum)
      (Writer.counted memory profile limits baseAllocated items item) :=
  ((writes_int memory profile limits baseAllocated _).bind fun _ =>
    (writes_meter _ _).bind fun _ => Moves.forM grade fun a _ => h a).weaken (by omega)

theorem writes_aligned {α : Type} (align : Prop) [Decidable align] (items : List α)
    {item : α → Encode Unit} {grade : α → Nat} (h : ∀ a, Writes (grade a) (item a)) :
    Writes (13 + (items.map grade).sum)
      (Writer.aligned memory profile limits baseAllocated align items item) := by
  have halign : Writes 3 (if profile = .lua55 ∧ align then
      Writer.align4 memory limits baseAllocated else pure ()) :=
    .ite (writes_align4 memory limits baseAllocated) ((Moves.pure _).weaken (Nat.zero_le 3))
  exact ((writes_int memory profile limits baseAllocated _).bind fun _ => halign.bind fun _ =>
    (writes_meter _ _).bind fun _ => Moves.forM grade fun a _ => h a).weaken (by omega)

theorem writes_head (value : PrototypeHead) :
    Writes 23 (Writer.head memory profile limits baseAllocated value) := by
  have hint := fun value => writes_int memory profile limits baseAllocated value
  have hbyte := fun value => writes_byte memory limits baseAllocated value
  exact (hint _).bind fun _ => (hint _).bind fun _ => (hbyte _).bind fun _ =>
    (hbyte _).bind fun _ => hbyte _

theorem writes_sourceName (strip here : Bool) (source : Option (List UInt8)) :
    Writes (20 + contentLength source)
      (Writer.sourceName memory hash profile limits baseAllocated strip here source) := by
  have hnone : Writes (20 + contentLength source)
      (Writer.string memory hash profile limits baseAllocated none) :=
    (writes_string memory hash profile limits baseAllocated none).weaken
      (Nat.add_le_add_left (Nat.zero_le _) 20)
  have hsome := writes_string memory hash profile limits baseAllocated source
  unfold Writer.sourceName
  refine .ite ?_ ((Moves.pure _).weaken (Nat.zero_le _))
  cases strip with
  | false => exact hsome
  | true => exact hnone

theorem sum_kept_le {α : Type} (grade : α → Nat) (strip : Bool) (items : List α) :
    ((Writer.kept strip items).map grade).sum ≤ (items.map grade).sum := by
  cases strip with
  | false => exact Nat.le_refl _
  | true => exact Nat.zero_le _

/-- The bytes that debug data takes when it is written. -/
def OfficialDebug.written (debug : OfficialDebug) : Nat :=
  43 + debug.lineInfo.length + 20 * debug.absLineInfo.length
    + (debug.locals.map fun entry => 40 + contentLength entry.name).sum
    + (debug.upvalueNames.map fun name => 20 + contentLength name).sum

theorem sum_map_const {α : Type} (items : List α) (n : Nat) :
    (items.map fun _ => n).sum = n * items.length := by
  rw [List.map_const', List.sum_replicate_nat, Nat.mul_comm]

theorem writes_debug (strip : Bool) (debug : OfficialDebug) :
    Writes debug.written (Writer.debug memory hash profile limits baseAllocated strip debug) := by
  have hline := writes_counted memory profile limits baseAllocated
    (Writer.kept strip debug.lineInfo) fun line : Int8 =>
      writes_byte memory limits baseAllocated line.toUInt8
  have habs := writes_aligned memory profile limits baseAllocated
    (0 < (Writer.kept strip debug.absLineInfo).length)
    (Writer.kept strip debug.absLineInfo)
    (writes_absLine memory profile limits baseAllocated)
  have hlocals := writes_counted memory profile limits baseAllocated
    (Writer.kept strip debug.locals)
    (writes_local memory hash profile limits baseAllocated)
  have hnames := writes_counted memory profile limits baseAllocated
    (Writer.kept strip debug.upvalueNames)
    (writes_string memory hash profile limits baseAllocated)
  refine (hline.bind fun _ => habs.bind fun _ => hlocals.bind fun _ => hnames).weaken ?_
  have hline := sum_kept_le (fun _ => 1) strip debug.lineInfo
  have habs := sum_kept_le (fun _ => 20) strip debug.absLineInfo
  have hlocals := sum_kept_le (fun entry => 40 + contentLength entry.name) strip debug.locals
  have hnames := sum_kept_le (fun name => 20 + contentLength name) strip debug.upvalueNames
  rw [sum_map_const debug.lineInfo, Nat.one_mul] at hline
  rw [sum_map_const debug.absLineInfo] at habs
  unfold OfficialDebug.written
  omega

end Records

/-! ### Prototypes -/

/-- The bytes that a prototype takes when it is written, without its children. -/
def OfficialPrototype.written (prototype : OfficialPrototype) : Nat :=
  106 + 2 * contentLength prototype.source + 4 * prototype.code.length
    + (prototype.constants.map fun constant => 21 + contentLength constant.bytes?).sum
    + 3 * prototype.upvalues.length + prototype.debug.written

section Prototypes

variable (memory : EncodeMemory) (hash : List UInt8 → Nat) (profile : LuaProfile)
  (limits : OfficialChunkLimits) (baseAllocated : Nat)

mutual

theorem writes_prototype (strip : Bool) : ∀ prototype : OfficialPrototype,
    Writes (prototype.total OfficialPrototype.written)
      (Writer.prototype memory hash profile limits baseAllocated strip prototype)
  | ⟨source, head, code, constants, upvalues, children, debug⟩ => by
    have hsource := fun here =>
      writes_sourceName memory hash profile limits baseAllocated strip here source
    have hcode := writes_aligned memory profile limits baseAllocated True code
      (writes_u32 memory limits baseAllocated)
    have hconstants := writes_counted memory profile limits baseAllocated constants
      (writes_constant memory hash profile limits baseAllocated)
    have hupvalues := writes_counted memory profile limits baseAllocated upvalues
      (writes_upvalue memory limits baseAllocated)
    have hcount := writes_int memory profile limits baseAllocated children.length
    have hall := (hsource (profile = .lua54)).bind fun _ =>
      (writes_head memory profile limits baseAllocated head).bind fun _ => hcode.bind fun _ =>
      hconstants.bind fun _ => hupvalues.bind fun _ => hcount.bind fun _ =>
      (writes_meter children.length 0).bind fun _ =>
      (writes_prototypes strip children).bind fun _ => (hsource (profile = .lua55)).bind fun _ =>
      writes_debug memory hash profile limits baseAllocated strip debug
    refine hall.weaken ?_
    rw [sum_map_const code, sum_map_const upvalues]
    show _ ≤ 106 + 2 * contentLength source + 4 * code.length
      + (constants.map fun constant => 21 + contentLength constant.bytes?).sum
      + 3 * upvalues.length + debug.written + OfficialPrototype.totals _ children
    omega

theorem writes_prototypes (strip : Bool) : ∀ children : List OfficialPrototype,
    Writes (OfficialPrototype.totals OfficialPrototype.written children)
      (Writer.prototypes memory hash profile limits baseAllocated strip children)
  | [] => Moves.pure _
  | child :: children => (writes_prototype strip child).bind fun _ => writes_prototypes strip children

end

/-- The length that the first pass measures. -/
theorem writes_chunk (strip : Bool) (chunk : OfficialChunk) :
    Writes (49 + chunk.main.total OfficialPrototype.written)
      (Writer.chunk memory hash profile limits baseAllocated strip chunk) := by
  have hall := (writes_header memory profile limits baseAllocated).bind fun _ =>
    (writes_byte memory limits baseAllocated chunk.rootUpvalues).bind fun _ =>
      writes_prototype memory hash profile limits baseAllocated strip chunk.main
  exact hall.weaken (by omega)

end Prototypes

/-- **The bytes of an encoded chunk** are what its first pass has measured. -/
theorem length_encodeOfficialChunkInner {memory : EncodeMemory} {hash : List UInt8 → Nat}
    {chunk : OfficialChunk} {strip : Bool} {limits : OfficialChunkLimits} {work left : Option Nat}
    {bytes : List UInt8}
    (h : encodeOfficialChunkInner memory hash chunk strip limits work = .ok (bytes, left)) :
    bytes.length ≤ 49 + chunk.main.total OfficialPrototype.written := by
  unfold encodeOfficialChunkInner at h
  obtain ⟨-, h⟩ := Check.then_eq_ok.mp h
  obtain ⟨budget, -, h⟩ := Check.bind_eq_ok.mp h
  obtain ⟨⟨_, validation⟩, -, h⟩ := Check.bind_eq_ok.mp h
  obtain ⟨⟨entries, work⟩, -, h⟩ := Check.bind_eq_ok.mp h
  obtain ⟨⟨index, work⟩, -, h⟩ := Check.bind_eq_ok.mp h
  obtain ⟨⟨_, measured⟩, hmeasured, h⟩ := Check.bind_eq_ok.mp h
  obtain ⟨⟨table, work⟩, -, h⟩ := Check.bind_eq_ok.mp h
  obtain ⟨-, h⟩ := Check.then_eq_ok.mp h
  obtain ⟨-, h⟩ := Check.then_eq_ok.mp h
  obtain ⟨extra, -, h⟩ := Check.bind_eq_ok.mp h
  obtain ⟨-, h⟩ := Check.then_eq_ok.mp h
  obtain ⟨⟨_, writer⟩, -, h⟩ := Check.bind_eq_ok.mp h
  obtain ⟨hlength, h⟩ := Check.then_eq_ok.mp h
  cases h
  have hlength := Check.reject_eq_ok.mp hlength
  have hwrites := writes_chunk memory hash chunk.profile limits validation.budget.allocated strip
    chunk _ _ _ hmeasured
  have hmeasured : measured.measuredLen ≤ 0 + (49 + chunk.main.total OfficialPrototype.written) :=
    hwrites
  omega

/-! ### The copy -/

/-- The sizes of the records are at least those of their fields; a vector takes three words of 64
    bits. -/
structure Memory.Layout (memory : Memory) : Prop where
  constant : 24 ≤ memory.constant
  upvalue : 3 ≤ memory.upvalue
  prototype : 216 ≤ memory.prototype
  absLine : 8 ≤ memory.absLine
  localRecord : 32 ≤ memory.localRecord
  upvalueName : 24 ≤ memory.upvalueName

/-- The bytes that the copy of a prototype takes at least, without those of its children. -/
def OfficialPrototype.stored (memory : Memory) (prototype : OfficialPrototype) : Nat :=
  prototype.constants.length * memory.constant
    + (prototype.constants.map fun constant => contentLength constant.bytes?).sum
    + prototype.debug.locals.length * memory.localRecord
    + (prototype.debug.locals.map fun entry => contentLength entry.name).sum
    + prototype.debug.upvalueNames.length * memory.upvalueName
    + (prototype.debug.upvalueNames.map contentLength).sum
    + prototype.children.length * memory.prototype
    + contentLength prototype.source + prototype.code.length * 4
    + prototype.upvalues.length * memory.upvalue + prototype.debug.lineInfo.length
    + prototype.debug.absLineInfo.length * memory.absLine

section Copy

variable (memory : Memory) (limits : OfficialChunkLimits)

/-- A program of the decoder that pays for at least `n` bytes. -/
abbrev Pays {α : Type} (n : Nat) (m : Decode α) : Prop :=
  Moves (atLeast fun s => s.2.budget.allocated) n m

theorem alloc_eq_ok {budget budget' : Budget} {size count offset : Nat}
    (h : budget.alloc limits size count offset = .ok budget') :
    budget'.allocated = budget.allocated + count * size := by
  unfold Budget.alloc at h
  split at h
  · cases h
  · obtain ⟨used, hused, h⟩ := Check.bind_eq_ok.mp h
    cases h
    unfold Budget.charge at hused
    split at hused
    · cases hused
    · split at hused
      · cases hused
      · cases hused
        rfl

theorem pays_storing {α : Type} {n : Nat}
    {f : Nat → ReaderStore → Except OfficialChunkError (α × ReaderStore)}
    (h : ∀ offset store a store', f offset store = .ok (a, store') →
      store.budget.allocated + n ≤ store'.budget.allocated) : Pays n (storing f) := by
  intro s a s' hrun
  unfold storing at hrun
  split at hrun
  · next hstore =>
    cases hrun
    exact h _ _ _ _ hstore
  · cases hrun

theorem pays_budgeted {n : Nat} {f : Budget → Nat → Except OfficialChunkError Budget}
    (h : ∀ budget offset budget', f budget offset = .ok budget' →
      budget'.allocated = budget.allocated + n) : Pays n (Reader.budgeted f) := by
  refine pays_storing fun offset store a store' hstore => ?_
  obtain ⟨budget, hbudget, hstore⟩ := Check.bind_eq_ok.mp hstore
  cases hstore
  exact Nat.le_of_eq (h _ _ _ hbudget).symm

theorem pays_alloc (size count : Nat) : Pays (count * size) (Reader.alloc limits size count) :=
  pays_budgeted fun _ _ _ hbudget => alloc_eq_ok limits hbudget

theorem pays_reserve (count : Nat) (detail : String) :
    Pays 0 (Reader.reserve memory count detail) := by
  refine pays_storing fun offset store a store' hstore => ?_
  by_cases hcount : count = 0
  · rw [if_pos hcount] at hstore
    cases hstore
    exact Nat.le_refl _
  · rw [if_neg hcount] at hstore
    cases hextra : memory.extra store.requests with
    | none =>
      rw [hextra] at hstore
      cases hstore
    | some extra =>
      rw [hextra] at hstore
      cases hstore
      exact Nat.le_refl _

theorem pays_vector (size count : Nat) :
    Pays (count * size) (Reader.vector memory limits size count) :=
  ((pays_alloc limits size count).bind fun _ => (pays_reserve memory count _).bind fun extra =>
    (pays_alloc limits size extra).lower (Nat.zero_le _)).lower (by omega)

theorem pays_string (bytes : List UInt8) : Pays bytes.length
    (Reader.budgeted fun budget offset => budget.string limits bytes.length offset) := by
  refine pays_budgeted fun budget offset budget' hbudget => ?_
  obtain ⟨-, hbudget⟩ := Check.then_eq_ok.mp hbudget
  obtain ⟨one, hone, hbudget⟩ := Check.bind_eq_ok.mp hbudget
  obtain ⟨all, hall, hbudget⟩ := Check.bind_eq_ok.mp hbudget
  obtain ⟨_, -, hone⟩ := Check.bind_eq_ok.mp hone
  obtain ⟨_, -, hall⟩ := Check.bind_eq_ok.mp hall
  cases hone
  cases hall
  rw [alloc_eq_ok limits hbudget, Nat.mul_one]
  rfl

theorem pays_copyOptionalBytes (bytes : Option (List UInt8)) :
    Pays (contentLength bytes) (copyOptionalBytes memory limits bytes) := by
  cases bytes with
  | none => exact Moves.pure _
  | some bytes =>
    have howned : Pays bytes.length (Reader.bytesOwned memory limits bytes) :=
      ((pays_string limits bytes).bind fun _ => (pays_reserve memory bytes.length _).bind fun extra =>
        ((pays_alloc limits 1 extra).lower (Nat.zero_le _)).bind fun _ =>
          Moves.pure bytes).lower (by omega)
    exact howned.bind fun _ => Moves.pure _

theorem pays_copyFront (prototype : OfficialPrototype) :
    Pays (prototype.constants.length * memory.constant
        + (prototype.constants.map fun constant => contentLength constant.bytes?).sum
        + prototype.debug.locals.length * memory.localRecord
        + (prototype.debug.locals.map fun entry => contentLength entry.name).sum
        + prototype.debug.upvalueNames.length * memory.upvalueName
        + (prototype.debug.upvalueNames.map contentLength).sum
        + prototype.children.length * memory.prototype)
      (copyFront memory limits prototype) := by
  have hvector := pays_vector memory limits
  have hcopy := pays_copyOptionalBytes memory limits
  have hconstants : Pays _ (prototype.constants.forM fun constant =>
      copyOptionalBytes memory limits constant.bytes?) :=
    Moves.forM (fun constant => contentLength (OfficialConstant.bytes? constant))
      fun constant _ => hcopy constant.bytes?
  have hlocals : Pays _ (prototype.debug.locals.forM fun entry =>
      copyOptionalBytes memory limits entry.name) :=
    Moves.forM (fun entry => contentLength (OfficialLocal.name entry)) fun entry _ => hcopy entry.name
  have hnames : Pays _ (prototype.debug.upvalueNames.forM (copyOptionalBytes memory limits)) :=
    Moves.forM contentLength fun name _ => hcopy name
  refine ((hvector _ _).bind fun _ => hconstants.bind fun _ =>
    (hvector _ _).bind fun _ => hlocals.bind fun _ =>
    (hvector _ _).bind fun _ => hnames.bind fun _ =>
    hvector _ _).lower ?_
  omega

theorem pays_copyBack (prototype : OfficialPrototype) :
    Pays (contentLength prototype.source + prototype.code.length * 4
        + prototype.upvalues.length * memory.upvalue + prototype.debug.lineInfo.length
        + prototype.debug.absLineInfo.length * memory.absLine)
      (copyBack memory limits prototype) := by
  have hvector := pays_vector memory limits
  refine ((pays_copyOptionalBytes memory limits prototype.source).bind fun _ =>
    (hvector 4 _).bind fun _ => (hvector _ _).bind fun _ => (hvector 1 _).bind fun _ =>
    hvector _ _).lower ?_
  omega

mutual

theorem pays_copyPrototype : ∀ prototype : OfficialPrototype,
    Pays (prototype.total (OfficialPrototype.stored memory))
      (copyPrototype memory limits prototype)
  | ⟨source, head, code, constants, upvalues, children, debug⟩ => by
    let prototype : OfficialPrototype := ⟨source, head, code, constants, upvalues, children, debug⟩
    refine ((pays_copyFront memory limits prototype).bind fun _ =>
      (pays_copyPrototypes children).bind fun _ =>
      pays_copyBack memory limits prototype).lower ?_
    show OfficialPrototype.stored memory prototype + OfficialPrototype.totals _ children ≤ _
    unfold OfficialPrototype.stored
    omega

theorem pays_copyPrototypes : ∀ children : List OfficialPrototype,
    Pays (OfficialPrototype.totals (OfficialPrototype.stored memory) children)
      (copyPrototypes memory limits children)
  | [] => Moves.pure _
  | child :: children => (pays_copyPrototype child).bind fun _ => pays_copyPrototypes children

end

end Copy

/-- **What a copy takes** is at least what its records and strings take. -/
theorem stored_le_cloneOfficialChunkChecked {memory : EncodeMemory} {source chunk : OfficialChunk}
    {limits : OfficialChunkLimits} {allocated : Nat}
    (h : cloneOfficialChunkChecked memory source limits = .ok (chunk, allocated)) :
    chunk = source ∧ source.main.total (OfficialPrototype.stored memory.toMemory) ≤ allocated := by
  obtain ⟨-, h⟩ := Check.then_eq_ok.mp h
  obtain ⟨_, -, h⟩ := Check.bind_eq_ok.mp h
  obtain ⟨⟨_, _, copied⟩, hcopied, h⟩ := Check.bind_eq_ok.mp h
  cases h
  have hpays := pays_copyPrototype memory.toMemory limits source.main _ _ _ hcopied
  exact ⟨rfl, by rwa [atLeast, show (Budget.empty.allocated) = 0 from rfl, Nat.zero_add] at hpays⟩

/-! ### Encoded and copied -/

theorem sum_map_add_const {α : Type} (items : List α) (grade : α → Nat) (n : Nat) :
    (items.map fun item => n + grade item).sum = n * items.length + (items.map grade).sum := by
  induction items with
  | nil => rfl
  | cons item items ih =>
    rw [List.map_cons, List.sum_cons, ih, List.map_cons, List.sum_cons, List.length_cons,
      Nat.mul_succ]
    omega

/-- A prototype takes four times as much as a copy, but for a fixed part that the record of the
    prototype pays for, in the vector it stands in. -/
theorem OfficialPrototype.written_le {memory : Memory} (hlayout : memory.Layout)
    (prototype : OfficialPrototype) :
    prototype.written + 149 * prototype.children.length ≤ 149 + 4 * prototype.stored memory := by
  have hconstants := Nat.mul_le_mul_left prototype.constants.length hlayout.constant
  have hupvalues := Nat.mul_le_mul_left prototype.upvalues.length hlayout.upvalue
  have hchildren := Nat.mul_le_mul_left prototype.children.length hlayout.prototype
  have habs := Nat.mul_le_mul_left prototype.debug.absLineInfo.length hlayout.absLine
  have hlocals := Nat.mul_le_mul_left prototype.debug.locals.length hlayout.localRecord
  have hnames := Nat.mul_le_mul_left prototype.debug.upvalueNames.length hlayout.upvalueName
  unfold OfficialPrototype.written OfficialPrototype.stored OfficialDebug.written
  rw [sum_map_add_const prototype.constants, sum_map_add_const prototype.debug.locals,
    sum_map_add_const prototype.debug.upvalueNames contentLength]
  -- the sums stand on both sides, and of the products only the bounds count
  generalize (prototype.constants.map fun constant => contentLength constant.bytes?).sum = bytes₁
  generalize (prototype.debug.locals.map fun entry => contentLength entry.name).sum = bytes₂
  generalize (prototype.debug.upvalueNames.map contentLength).sum = bytes₃
  generalize prototype.constants.length * memory.constant = size₁ at hconstants ⊢
  generalize prototype.upvalues.length * memory.upvalue = size₂ at hupvalues ⊢
  generalize prototype.children.length * memory.prototype = size₃ at hchildren ⊢
  generalize prototype.debug.absLineInfo.length * memory.absLine = size₄ at habs ⊢
  generalize prototype.debug.locals.length * memory.localRecord = size₅ at hlocals ⊢
  generalize prototype.debug.upvalueNames.length * memory.upvalueName = size₆ at hnames ⊢
  linarith

mutual

/-- A bound of what prototypes weigh, where each one pays for a fixed part of its children, bounds
    their sum. -/
theorem OfficialPrototype.total_le {f g : OfficialPrototype → Nat} {fixed : Nat}
    (h : ∀ prototype, f prototype + fixed * prototype.children.length ≤ fixed + 4 * g prototype) :
    ∀ prototype : OfficialPrototype, prototype.total f ≤ fixed + 4 * prototype.total g
  | ⟨source, head, code, constants, upvalues, children, debug⟩ => by
    have hown := h ⟨source, head, code, constants, upvalues, children, debug⟩
    have hchildren := OfficialPrototype.totals_le h children
    show f _ + OfficialPrototype.totals f children
      ≤ fixed + 4 * (g _ + OfficialPrototype.totals g children)
    dsimp only at hown
    omega

theorem OfficialPrototype.totals_le {f g : OfficialPrototype → Nat} {fixed : Nat}
    (h : ∀ prototype, f prototype + fixed * prototype.children.length ≤ fixed + 4 * g prototype) :
    ∀ children : List OfficialPrototype, OfficialPrototype.totals f children
      ≤ fixed * children.length + 4 * OfficialPrototype.totals g children
  | [] => Nat.zero_le _
  | child :: children => by
    have hchild := OfficialPrototype.total_le h child
    have hchildren := OfficialPrototype.totals_le h children
    show child.total f + OfficialPrototype.totals f children
      ≤ fixed * (children.length + 1) + 4 * (child.total g + OfficialPrototype.totals g children)
    rw [Nat.mul_succ]
    omega

end

/-- **An encoded prototype takes at most four times as much as a copy**, and a fixed part. -/
theorem OfficialPrototype.total_written_le {memory : Memory} (hlayout : memory.Layout)
    (prototype : OfficialPrototype) : prototype.total OfficialPrototype.written
      ≤ 149 + 4 * prototype.total (OfficialPrototype.stored memory) :=
  OfficialPrototype.total_le (OfficialPrototype.written_le hlayout) prototype

end RivetLua.Bytecode.Official
