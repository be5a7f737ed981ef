import RivetLua.Bytecode.Codec

namespace RivetLua.Bytecode

open RivetLua.Core Wire

/-!
# Bytecode — what each RVLU reader accepts

For every writer of the codec: its reader accepts exactly what the writer produces for the
values that satisfy a condition.  The condition lists what the reader checks and the writer does
not: ordered spans, the counts against the limits it was given, equal lengths in a close path.

* `BytecodePrototype.Readable` — that condition for a prototype record;
* `undoes_prototype`, `decodePrototypes_eq_ok` — the results the module level builds on.
-/

/-! ### Numbers -/

/-- A fixed number of bytes, read and written by inverse functions. -/
theorem undoes_fixed {α : Type} {width : Nat} {ofBytes : List UInt8 → α} {toBytes : α → List UInt8}
    (hlen : ∀ a, (toBytes a).length = width) (hleft : ∀ a, ofBytes (toBytes a) = a)
    (hright : ∀ bytes, bytes.length = width → toBytes (ofBytes bytes) = bytes) :
    Undoes (do let bytes ← Reader.take width; pure (ofBytes bytes))
      (fun a => (.ok (toBytes a) : Write)) fun _ => True := by
  refine Recognises.congr (Recognises.bind (.take _ width) fun bytes => .pure _) fun a bytes => ?_
  constructor
  · rintro ⟨bs, front, back, ⟨hbs, rfl⟩, ⟨rfl, rfl⟩, rfl⟩
    exact ⟨trivial, by simp [hright _ hbs]⟩
  · rintro ⟨-, h⟩
    cases h
    exact ⟨toBytes a, toBytes a, [], ⟨hlen a, rfl⟩, ⟨(hleft a).symm, rfl⟩, by simp⟩

theorem undoes_u8 : Undoes Reader.u8 Writer.u8 fun _ => True := by
  refine undoes_fixed (fun _ => rfl) (fun a => ?_) fun bytes hlen => ?_
  · simp [ofLittleEndian]
  · obtain ⟨b, rfl⟩ := List.length_eq_one_iff.mp hlen
    simp [ofLittleEndian]

theorem undoes_u16 : Undoes Reader.u16 Writer.u16 fun _ => True := by
  refine undoes_fixed (fun a => length_littleEndian 2 a.toNat) (fun a => ?_) fun bytes hlen => ?_
  · rw [ofLittleEndian_littleEndian a.toNat_lt, UInt16.ofNat_toNat]
  · have hlt : ofLittleEndian bytes < 2 ^ 16 := by
      have hbytes := ofLittleEndian_lt bytes
      rw [hlen] at hbytes
      exact hbytes
    rw [UInt16.toNat_ofNat', Nat.mod_eq_of_lt hlt, ← hlen, littleEndian_ofLittleEndian]

theorem undoes_u32 : Undoes Reader.u32 Writer.u32 fun _ => True := by
  refine undoes_fixed (fun a => length_littleEndian 4 a.toNat) (fun a => ?_) fun bytes hlen => ?_
  · rw [ofLittleEndian_littleEndian a.toNat_lt, UInt32.ofNat_toNat]
  · have hlt : ofLittleEndian bytes < 2 ^ 32 := by
      have hbytes := ofLittleEndian_lt bytes
      rw [hlen] at hbytes
      exact hbytes
    rw [UInt32.toNat_ofNat', Nat.mod_eq_of_lt hlt, ← hlen, littleEndian_ofLittleEndian]

theorem undoes_u64 : Undoes Reader.u64 Writer.u64 fun _ => True := by
  refine undoes_fixed (fun a => length_littleEndian 8 a.toNat) (fun a => ?_) fun bytes hlen => ?_
  · rw [ofLittleEndian_littleEndian a.toNat_lt, UInt64.ofNat_toNat]
  · have hlt : ofLittleEndian bytes < 2 ^ 64 := by
      have hbytes := ofLittleEndian_lt bytes
      rw [hlen] at hbytes
      exact hbytes
    rw [UInt64.toNat_ofNat', Nat.mod_eq_of_lt hlt, ← hlen, littleEndian_ofLittleEndian]

theorem undoes_i64 : Undoes Reader.i64 Writer.i64 fun _ => True := by
  refine undoes_u64.only Int64.toUInt64 fun a b => ?_
  constructor
  · rintro rfl
    simp
  · rintro rfl
    simp

/-! ### Lengths, lists and sections -/

theorem Writer.length_eq_ok {n : Nat} {message : String} {bytes : List UInt8} :
    Writer.length n message = .ok bytes ↔ n < 2 ^ 32 ∧ bytes = littleEndian 4 n := by
  by_cases h : n < 2 ^ 32
  · rw [Writer.length, if_pos h, Output.ok.injEq, and_iff_right h, eq_comm]
  · rw [Writer.length, if_neg h]
    exact ⟨(fun hok => nomatch hok), fun hbound => absurd hbound.1 h⟩

theorem Writer.section_eq_ok {body : Write} {message : String} {bytes : List UInt8} :
    Writer.section body message = .ok bytes ↔ ∃ contents, body = .ok contents
      ∧ contents.length < 2 ^ 32 ∧ bytes = littleEndian 4 contents.length ++ contents := by
  cases body with
  | error e => simp [Writer.section]
  | ok contents => simp [Writer.section, Output.append_eq_ok, Writer.length_eq_ok, and_assoc]

/-- The length of something shorter than 2^32, as it is read back. -/
theorem toNat_ofNat_length {n : Nat} (h : n < 2 ^ 32) : (UInt32.ofNat n).toNat = n := by
  rw [UInt32.toNat_ofNat', Nat.mod_eq_of_lt h]

/-- A length, then whatever depends on it. -/
theorem u32_seq_iff {α : Type} {F : UInt32 → Format α} {a : α} {bytes : List UInt8} :
    Format.seq (fun n front => True ∧ Writer.u32 n = .ok front) F a bytes ↔
      ∃ n back, n < 2 ^ 32 ∧ F (UInt32.ofNat n) a back ∧ bytes = littleEndian 4 n ++ back := by
  constructor
  · rintro ⟨n, front, back, ⟨-, hw⟩, hF, rfl⟩
    cases hw
    exact ⟨n.toNat, back, n.toNat_lt, by rwa [UInt32.ofNat_toNat], rfl⟩
  · rintro ⟨n, back, hlt, hF, rfl⟩
    refine ⟨UInt32.ofNat n, _, back, ⟨trivial, ?_⟩, hF, rfl⟩
    rw [Writer.u32, toNat_ofNat_length hlt]

/-- A count that was written as a length. -/
theorem undoes_count (limitValue : Nat) (message message' : String) :
    Undoes (Reader.count limitValue message) (fun n => Writer.length n message')
      fun n => n ≤ limitValue := by
  refine Recognises.congr (Recognises.location_bind fun offset =>
    Recognises.bind undoes_u32 fun value =>
      Recognises.reject_bind fun _ => .pure value.toNat) fun n bytes => ?_
  rw [u32_seq_iff, Writer.length_eq_ok]
  constructor
  · rintro ⟨m, back, hlt, ⟨hle, rfl, rfl⟩, rfl⟩
    rw [toNat_ofNat_length hlt] at hle ⊢
    exact ⟨by omega, hlt, by simp⟩
  · rintro ⟨hle, hlt, rfl⟩
    refine ⟨n, [], hlt, ⟨?_, (toNat_ofNat_length hlt).symm, rfl⟩, by simp⟩
    rw [toNat_ofNat_length hlt]
    omega

/-- A list behind its length. -/
theorem undoes_list {α : Type} {r : Read α} {w : α → Write} {P : α → Prop} (h : Undoes r w P)
    (limitValue : Nat) (message message' : String) :
    Undoes (do let count ← Reader.count limitValue message; many r count)
      (fun items => Writer.list w items message')
      fun items => items.length ≤ limitValue ∧ ∀ item ∈ items, P item :=
  (undoes_count limitValue message message').first List.length fun n => h.many n

theorem undoes_blob : Undoes Reader.blob Writer.blob fun _ => True := by
  refine Recognises.congr (Recognises.bind undoes_u32 fun length => .take _ length.toNat)
    fun value bytes => ?_
  rw [u32_seq_iff, Writer.blob, Output.append_eq_ok]
  constructor
  · rintro ⟨n, back, hlt, ⟨hlen, rfl⟩, rfl⟩
    rw [toNat_ofNat_length hlt] at hlen
    exact ⟨trivial, _, back, Writer.length_eq_ok.mpr ⟨by omega, rfl⟩, rfl, by rw [hlen]⟩
  · rintro ⟨-, front, back, hlen, hback, rfl⟩
    cases hback
    obtain ⟨hlt, rfl⟩ := Writer.length_eq_ok.mp hlen
    exact ⟨value.length, value, hlt, ⟨(toNat_ofNat_length hlt).symm, rfl⟩, rfl⟩

/-- A section whose contents `decode` takes apart. -/
theorem undoes_section {α : Type} {decode : List UInt8 → Nat → Except BytecodeError α}
    {w : α → Write} {P : α → Prop} (message : String)
    (hdecode : ∀ bytes start a, decode bytes start = .ok a ↔ P a ∧ w a = .ok bytes) :
    Undoes (do
        let contents ← Reader.section
        compute (decode contents.bytes contents.start))
      (fun a => Writer.section (w a) message) P := by
  have hread : ∀ n : UInt32, Recognises (do
      let start ← location
      let bytes ← Reader.take n.toNat
      let contents ← pure (Section.mk bytes start)
      compute (decode contents.bytes contents.start))
      (fun a bytes => bytes.length = n.toNat ∧ P a ∧ w a = .ok bytes) := by
    intro n
    refine Recognises.location_bind fun start => ?_
    refine Recognises.congr (Recognises.bind (.take _ n.toNat) fun bytes =>
      Recognises.bind (.pure _) fun contents => .compute _) fun a bytes => ?_
    constructor
    · rintro ⟨bs, front, back, ⟨hlen, rfl⟩, ⟨contents, f, b, ⟨rfl, rfl⟩, ⟨hd, rfl⟩, rfl⟩, rfl⟩
      simpa using ⟨hlen, (hdecode _ _ _).mp hd⟩
    · rintro ⟨hlen, h⟩
      exact ⟨bytes, bytes, [], ⟨hlen, rfl⟩,
        ⟨_, [], [], ⟨rfl, rfl⟩, ⟨(hdecode _ _ _).mpr h, rfl⟩, rfl⟩, by simp⟩
  have h := Recognises.bind undoes_u32 hread
  simp only [Reader.section, bind_assoc]
  refine Recognises.congr h fun a bytes => ?_
  rw [u32_seq_iff, Writer.section_eq_ok]
  constructor
  · rintro ⟨n, back, hlt, ⟨hlen, hP, hw⟩, rfl⟩
    rw [toNat_ofNat_length hlt] at hlen
    exact ⟨hP, back, hw, by omega, by rw [hlen]⟩
  · rintro ⟨hP, contents, hw, hlt, rfl⟩
    exact ⟨contents.length, contents, hlt, ⟨(toNat_ofNat_length hlt).symm, hP, hw⟩, rfl⟩

/-! ### Small records -/

/-- The span does not end before it starts. -/
def BytecodeSpan.Ordered (span : BytecodeSpan) : Prop := span.startByte ≤ span.endByte

instance (span : BytecodeSpan) : Decidable span.Ordered :=
  inferInstanceAs (Decidable (span.startByte ≤ span.endByte))

theorem undoes_span : Undoes readSpan writeSpan BytecodeSpan.Ordered := by
  have hcheck : ∀ start stop : UInt64, Recognises (do
      let position ← location
      reject (stop < start) (verify (position - 16) "RVLU span 無效")
      pure (BytecodeSpan.mk start stop))
      (fun span bytes => ((span.startByte = start ∧ span.endByte = stop) ∧ span.Ordered)
        ∧ bytes = []) := by
    intro start stop
    refine Recognises.location_bind fun position => (Recognises.reject_pure _).congr ?_
    rintro ⟨s, e⟩ bytes
    simp only [BytecodeSpan.mk.injEq, BytecodeSpan.Ordered, UInt64.not_lt]
    constructor
    · rintro ⟨hle, ⟨rfl, rfl⟩, rfl⟩
      exact ⟨⟨⟨rfl, rfl⟩, hle⟩, rfl⟩
    · rintro ⟨⟨⟨rfl, rfl⟩, hle⟩, rfl⟩
      exact ⟨hle, ⟨rfl, rfl⟩, rfl⟩
  refine Undoes.congr (undoes_u64.first BytecodeSpan.startByte fun start =>
    undoes_u64.lastThen BytecodeSpan.endByte (hcheck start)) (by simp)

theorem undoes_binding : Undoes readBinding writeBinding fun _ => True := by
  refine Undoes.congr (undoes_u32.first BytecodeBindingId.function fun function =>
    undoes_u32.last BytecodeBindingId.ordinal _ fun ordinal b => ?_) (by simp)
  cases b
  simp

/-- Failing behind the last byte read. -/
theorem recognises_failBehind {α : Type} {F : Format α} {message : String}
    (h : ∀ a bytes, ¬ F a bytes) : Recognises (failBehind message) F :=
  Recognises.location_bind fun _ => .fail h

@[simp] theorem Writer.u8_eq_cons {t tag : UInt8} {bytes : List UInt8} :
    Writer.u8 t = .ok (tag :: bytes) ↔ tag = t ∧ bytes = [] := by
  simp [Writer.u8, eq_comm]

@[simp] theorem Writer.u8_append_eq_cons {t tag : UInt8} {x : Write} {bytes : List UInt8} :
    Writer.u8 t ++ x = .ok (tag :: bytes) ↔ tag = t ∧ x = .ok bytes := by
  rw [Output.append_eq_ok]
  constructor
  · rintro ⟨front, back, hfront, hback, h⟩
    cases hfront
    cases h
    exact ⟨rfl, hback⟩
  · rintro ⟨rfl, hback⟩
    exact ⟨[tag], bytes, rfl, hback, rfl⟩

@[simp] theorem Writer.u8_ne_nil {t : UInt8} : Writer.u8 t ≠ .ok [] := by
  simp [Writer.u8]

@[simp] theorem Writer.u8_append_ne_nil {t : UInt8} {x : Write} : Writer.u8 t ++ x ≠ .ok [] := by
  simp [Output.append_eq_ok, Writer.u8]

theorem undoes_flag (message : String) : Undoes (readFlag message) writeFlag fun _ => True := by
  refine undoes_u8.tagged (fun tag => ?_) (by simp [writeFlag])
  split
  · refine (Recognises.pure false).congr fun b bytes => ?_
    cases b <;> simp [Format.unit, writeFlag]
  · refine (Recognises.pure true).congr fun b bytes => ?_
    cases b <;> simp [Format.unit, writeFlag]
  · refine recognises_failBehind fun b bytes => ?_
    cases b <;> simp_all [writeFlag]

theorem undoes_option {α : Type} {r : Read α} {w : α → Write} {P : α → Prop} (h : Undoes r w P)
    (message : String) :
    Undoes (readOption r message) (writeOption w) fun value => ∀ a ∈ value, P a := by
  refine undoes_u8.tagged (fun tag => ?_) (by rintro (_ | a) <;> simp [writeOption])
  split
  · refine (Recognises.pure none).congr fun value bytes => ?_
    cases value <;> simp [Format.unit, writeOption]
  · refine (Recognises.bind h fun a => .pure (some a)).congr fun value bytes => ?_
    cases value <;> simp [Format.seq, Format.unit, writeOption]
  · refine recognises_failBehind fun value bytes => ?_
    cases value <;> simp_all [writeOption]

theorem undoes_optionalProto : Undoes readOptionalProto writeOptionalProto fun _ => True :=
  (undoes_option undoes_u32 _).congr (by simp)

theorem undoes_resultMode : Undoes readResultMode writeResultMode fun _ => True := by
  refine undoes_u8.tagged (fun tag => ?_) (by rintro (count | _) <;> simp [writeResultMode])
  split
  · refine (undoes_u16.lastArgument ResultMode.fixed).congr fun mode bytes => ?_
    cases mode <;> simp [writeResultMode]
  · refine (Recognises.pure ResultMode.all).congr fun mode bytes => ?_
    cases mode <;> simp [Format.unit, writeResultMode]
  · refine recognises_failBehind fun mode bytes => ?_
    cases mode <;> simp_all [writeResultMode]

/-! ### Enumerations -/

/-- A tag and its parser. -/
theorem undoes_tag {α : Type} {parse : UInt8 → Nat → Except BytecodeError α} {tag : α → UInt8}
    (h : ∀ t offset a, parse t offset = .ok a ↔ tag a = t) (offset : Nat) :
    Undoes (readTag parse offset) (fun a => Writer.u8 (tag a)) fun _ => True := by
  refine (Recognises.bind undoes_u8 fun t => .compute _).congr fun a bytes => ?_
  simp only [Format.seq, h]
  constructor
  · rintro ⟨t, front, back, ⟨-, hfront⟩, ⟨rfl, rfl⟩, rfl⟩
    cases hfront
    exact ⟨trivial, rfl⟩
  · rintro ⟨-, h⟩
    cases h
    exact ⟨tag a, [tag a], [], ⟨trivial, rfl⟩, ⟨rfl, rfl⟩, rfl⟩

theorem parseProfile_eq_ok (t : UInt8) (offset : Nat) (profile : LuaProfile) :
    parseProfile t offset = .ok profile ↔ profileTag profile = t := by
  unfold parseProfile
  split <;> cases profile <;> simp_all [profileTag, eq_comm]

theorem parseUnary_eq_ok (t : UInt8) (offset : Nat) (op : UnaryOperation) :
    parseUnary t offset = .ok op ↔ unaryTag op = t := by
  unfold parseUnary
  split <;> cases op <;> simp_all [unaryTag, eq_comm]

theorem parseBinary_eq_ok (t : UInt8) (offset : Nat) (op : BinaryOperation) :
    parseBinary t offset = .ok op ↔ binaryTag op = t := by
  unfold parseBinary
  split <;> cases op <;> simp_all [binaryTag, eq_comm]

theorem parseExit_eq_ok (t : UInt8) (offset : Nat) (kind : BytecodeExitKind) :
    parseExit t offset = .ok kind ↔ exitTag kind = t := by
  unfold parseExit
  split <;> cases kind <;> simp_all [exitTag, eq_comm]

/-! ### Instructions -/

/-- An opcode stands for one constructor: reading its arguments reads the instruction. -/
theorem undoes_opcode {γ : Type} {r : Read Instruction} {make : γ → Instruction} {w : γ → Write}
    (opcode : UInt8)
    (hr : Recognises r fun i bytes => ∃ x, i = make x ∧ w x = .ok bytes)
    (hw : ∀ x, opcodeTag (make x) = opcode ∧ writeOperands (make x) = w x)
    (hmake : ∀ i, opcodeTag i = opcode → ∃ x, i = make x) :
    Undoes r writeOperands fun i => opcodeTag i = opcode ∧ True := by
  refine Recognises.congr hr fun i bytes => ?_
  constructor
  · rintro ⟨x, rfl, h⟩
    exact ⟨⟨(hw x).1, trivial⟩, (hw x).2.trans h⟩
  · rintro ⟨⟨htag, -⟩, h⟩
    obtain ⟨x, rfl⟩ := hmake i htag
    exact ⟨x, rfl, (hw x).2.symm.trans h⟩

/-- The operands behind an opcode: one case for each opcode. -/
theorem undoes_operands (offset : Nat) (opcode : UInt8) :
    Undoes (readOperands offset opcode) writeOperands fun i => opcodeTag i = opcode ∧ True := by
  unfold readOperands
  split
  · refine undoes_opcode 0 (undoes_u16.argument fun a => undoes_u32.lastArgument
      (Instruction.loadConst a)) (fun _ => ⟨rfl, rfl⟩) fun i h => ?_
    cases i <;> simp [opcodeTag] at h
    exact ⟨(_, _), rfl⟩
  · refine undoes_opcode 1 (undoes_u16.argument fun a => undoes_u16.lastArgument
      (Instruction.loadNil a)) (fun _ => ⟨rfl, rfl⟩) fun i h => ?_
    cases i <;> simp [opcodeTag] at h
    exact ⟨(_, _), rfl⟩
  · refine undoes_opcode 2 (undoes_u16.argument fun a => undoes_u16.lastArgument
      (Instruction.move a)) (fun _ => ⟨rfl, rfl⟩) fun i h => ?_
    cases i <;> simp [opcodeTag] at h
    exact ⟨(_, _), rfl⟩
  · refine undoes_opcode 3 (undoes_u16.argument fun a => undoes_u16.lastArgument
      (Instruction.getUpvalue a)) (fun _ => ⟨rfl, rfl⟩) fun i h => ?_
    cases i <;> simp [opcodeTag] at h
    exact ⟨(_, _), rfl⟩
  · refine undoes_opcode 4 (undoes_u16.argument fun a => undoes_u16.lastArgument
      (Instruction.setUpvalue a)) (fun _ => ⟨rfl, rfl⟩) fun i h => ?_
    cases i <;> simp [opcodeTag] at h
    exact ⟨(_, _), rfl⟩
  · refine undoes_opcode 5 (undoes_u16.lastArgument Instruction.newTable) (fun _ => ⟨rfl, rfl⟩)
      fun i h => ?_
    cases i <;> simp [opcodeTag] at h
    exact ⟨_, rfl⟩
  · refine undoes_opcode 6 (undoes_u16.argument fun a => undoes_u16.argument fun b =>
      undoes_u16.lastArgument (Instruction.getTable a b)) (fun _ => ⟨rfl, rfl⟩) fun i h => ?_
    cases i <;> simp [opcodeTag] at h
    exact ⟨(_, _, _), rfl⟩
  · refine undoes_opcode 7 (undoes_u16.argument fun a => undoes_u16.argument fun b =>
      undoes_u16.lastArgument (Instruction.setTable a b)) (fun _ => ⟨rfl, rfl⟩) fun i h => ?_
    cases i <;> simp [opcodeTag] at h
    exact ⟨(_, _, _), rfl⟩
  · refine undoes_opcode 8 (undoes_u16.argument fun a =>
      (undoes_tag parseUnary_eq_ok offset).argument fun b => undoes_u16.lastArgument
      (Instruction.unaryOp a b)) (fun _ => ⟨rfl, rfl⟩) fun i h => ?_
    cases i <;> simp [opcodeTag] at h
    exact ⟨(_, _, _), rfl⟩
  · refine undoes_opcode 9 (undoes_u16.argument fun a =>
      (undoes_tag parseBinary_eq_ok offset).argument fun b => undoes_u16.argument fun c =>
      undoes_u16.lastArgument (Instruction.binaryOp a b c)) (fun _ => ⟨rfl, rfl⟩) fun i h => ?_
    cases i <;> simp [opcodeTag] at h
    exact ⟨(_, _, _, _), rfl⟩
  · refine undoes_opcode 10 (undoes_u32.lastArgument Instruction.jump) (fun _ => ⟨rfl, rfl⟩)
      fun i h => ?_
    cases i <;> simp [opcodeTag] at h
    exact ⟨_, rfl⟩
  · refine undoes_opcode 11 (undoes_u16.argument fun a => undoes_u32.lastArgument
      (Instruction.jumpIfFalse a)) (fun _ => ⟨rfl, rfl⟩) fun i h => ?_
    cases i <;> simp [opcodeTag] at h
    exact ⟨(_, _), rfl⟩
  · refine undoes_opcode 12 (undoes_u16.argument fun a => undoes_u32.lastArgument
      (Instruction.closure a)) (fun _ => ⟨rfl, rfl⟩) fun i h => ?_
    cases i <;> simp [opcodeTag] at h
    exact ⟨(_, _), rfl⟩
  · refine undoes_opcode 13 (undoes_u16.argument fun a => undoes_u16.argument fun b =>
      undoes_resultMode.lastArgument (Instruction.call a b)) (fun _ => ⟨rfl, rfl⟩) fun i h => ?_
    cases i <;> simp [opcodeTag] at h
    exact ⟨(_, _, _), rfl⟩
  · refine undoes_opcode 14 (undoes_u16.argument fun a => undoes_u16.argument fun b =>
      undoes_resultMode.lastArgument (Instruction.tailCall a b)) (fun _ => ⟨rfl, rfl⟩)
      fun i h => ?_
    cases i <;> simp [opcodeTag] at h
    exact ⟨(_, _, _), rfl⟩
  · refine undoes_opcode 15 (undoes_u16.argument fun a => undoes_resultMode.lastArgument
      (Instruction.vararg a)) (fun _ => ⟨rfl, rfl⟩) fun i h => ?_
    cases i <;> simp [opcodeTag] at h
    exact ⟨(_, _), rfl⟩
  · refine undoes_opcode 16 (undoes_u16.argument fun a => undoes_resultMode.lastArgument
      (Instruction.ret a)) (fun _ => ⟨rfl, rfl⟩) fun i h => ?_
    cases i <;> simp [opcodeTag] at h
    exact ⟨(_, _), rfl⟩
  · refine undoes_opcode 17 (undoes_u16.argument fun a => undoes_u16.lastArgument
      (Instruction.close a)) (fun _ => ⟨rfl, rfl⟩) fun i h => ?_
    cases i <;> simp [opcodeTag] at h
    exact ⟨(_, _), rfl⟩
  · refine undoes_opcode 18 (undoes_u16.argument fun a => undoes_u16.argument fun b =>
      undoes_u16.argument fun c => undoes_u16.argument fun d => undoes_u32.lastArgument
      (Instruction.numericForPrepare a b c d)) (fun _ => ⟨rfl, rfl⟩) fun i h => ?_
    cases i <;> simp [opcodeTag] at h
    exact ⟨(_, _, _, _, _), rfl⟩
  · refine undoes_opcode 19 (undoes_u16.argument fun a => undoes_u16.argument fun b =>
      undoes_u16.argument fun c => undoes_u16.argument fun d => undoes_u32.argument fun e =>
      undoes_u32.lastArgument (Instruction.numericForNext a b c d e)) (fun _ => ⟨rfl, rfl⟩)
      fun i h => ?_
    cases i <;> simp [opcodeTag] at h
    exact ⟨(_, _, _, _, _, _), rfl⟩
  · refine .fail ?_
    rintro i bytes ⟨⟨rfl, -⟩, -⟩
    cases i <;> simp_all [opcodeTag]

theorem undoes_instruction : Undoes readInstruction writeInstruction fun _ => True := by
  refine Undoes.location_bind fun offset => ?_
  exact (undoes_u8.first opcodeTag (undoes_operands offset)).congr (by simp)

/-! ### Frames, close paths and constants -/

theorem undoes_environmentSource :
    Undoes readEnvironmentSource writeEnvironmentSource fun _ => True := by
  refine Undoes.location_bind fun offset => undoes_u8.tagged (fun tag => ?_)
    (by intro source; cases source <;> simp [writeEnvironmentSource])
  split
  · refine (Recognises.pure EnvironmentSource.rootExternal).congr fun source bytes => ?_
    cases source <;> simp [Format.unit, writeEnvironmentSource]
  · refine (undoes_u32.argument fun parent =>
      undoes_u16.lastArgument (EnvironmentSource.parentFrame parent)).congr fun source bytes => ?_
    cases source <;> simp [writeEnvironmentSource]
  · refine (undoes_u16.lastArgument EnvironmentSource.parentLocal).congr fun source bytes => ?_
    cases source <;> simp [writeEnvironmentSource]
  · refine (undoes_u16.lastArgument EnvironmentSource.parentUpvalue).congr fun source bytes => ?_
    cases source <;> simp [writeEnvironmentSource]
  · refine .fail fun source bytes => ?_
    cases source <;> simp_all [writeEnvironmentSource]

theorem undoes_frame : Undoes readFrame writeFrame fun _ => True := by
  refine Undoes.congr
    (undoes_u16.first FrameLayout.registerLimit fun _ =>
      undoes_u16.field FrameLayout.initialTop fun _ =>
      undoes_u16.field FrameLayout.dynamicTop fun _ =>
      undoes_u16.field FrameLayout.returnBase fun _ =>
      undoes_u16.field FrameLayout.environment fun _ =>
      undoes_environmentSource.field FrameLayout.environmentSource fun _ =>
      (undoes_flag _).last FrameLayout.registersStartAsNil _ fun _ frame => ?_) (by simp)
  cases frame
  simp [and_assoc]

/-- What the reader of a close path checks. -/
def BytecodeClosePath.Readable (limits : VerifyLimits) (path : BytecodeClosePath) : Prop :=
  path.span.Ordered ∧ path.bindings.length ≤ limits.maxConstants
    ∧ path.registers.length ≤ limits.maxRegisters.toNat
    ∧ path.bindings.length = path.registers.length

theorem undoes_closePath (limits : VerifyLimits) :
    Undoes (readClosePath limits) writeClosePath (BytecodeClosePath.Readable limits) := by
  refine Undoes.location_bind fun offset => ?_
  have hbindings := undoes_list undoes_binding limits.maxConstants
    "RVLU close bindings 超過限制" "RVLU close bindings 過大"
  have hregisters := undoes_list undoes_u16 limits.maxRegisters.toNat
    "RVLU close registers 超過限制" "RVLU close registers 過大"
  -- the check behind the last field
  have hcheck : ∀ kind span fromScope targetScope bindings (registers : List Register),
      Recognises (do
        reject (bindings.length ≠ registers.length)
          (verify offset "RVLU close bindings/registers 長度不符")
        pure (BytecodeClosePath.mk kind span fromScope targetScope bindings registers))
      (fun path bytes => ((((((path.kind = kind ∧ path.span = span)
        ∧ path.fromScope = fromScope) ∧ path.targetScope = targetScope)
        ∧ path.bindings = bindings) ∧ path.registers = registers)
        ∧ path.bindings.length = path.registers.length) ∧ bytes = []) := by
    intro kind span fromScope targetScope bindings registers
    refine (Recognises.reject_pure _).congr ?_
    rintro ⟨k, s, f, t, b, r⟩ bytes
    simp only [BytecodeClosePath.mk.injEq, not_not]
    constructor
    · rintro ⟨hlen, ⟨rfl, rfl, rfl, rfl, rfl, rfl⟩, rfl⟩
      simp [hlen]
    · rintro ⟨⟨⟨⟨⟨⟨⟨rfl, rfl⟩, rfl⟩, rfl⟩, rfl⟩, rfl⟩, hlen⟩, rfl⟩
      simp [hlen]
  have h := (undoes_tag parseExit_eq_ok offset).first BytecodeClosePath.kind fun kind =>
    undoes_span.field BytecodeClosePath.span fun span =>
    undoes_u32.field BytecodeClosePath.fromScope fun fromScope =>
    (undoes_option undoes_u32 "RVLU close target scope 無效").field
      BytecodeClosePath.targetScope fun targetScope =>
    hbindings.field BytecodeClosePath.bindings fun bindings =>
    hregisters.lastThen BytecodeClosePath.registers
      (hcheck kind span fromScope targetScope bindings)
  simp only [bind_assoc] at h
  exact Undoes.congr h fun path => by simp [BytecodeClosePath.Readable]

/-- What `readBooleanConstant` undoes. -/
def writeBooleanConstant (tagOffset : Nat) : BytecodeConstant → Write
  | .boolean value => writeFlag value
  | _ => .error (verify tagOffset "RVLU boolean constant 無效")

theorem undoes_booleanConstant (tagOffset : Nat) :
    Undoes (readBooleanConstant tagOffset) (writeBooleanConstant tagOffset) fun _ => True := by
  refine undoes_u8.tagged (fun value => ?_)
    (by rintro (_ | _ | _ | _ | _) <;> simp [writeBooleanConstant, writeFlag])
  split
  · refine (Recognises.pure _).congr ?_
    rintro (_ | _ | _ | _ | (_ | _)) bytes <;> simp [Format.unit, writeBooleanConstant, writeFlag]
  · refine (Recognises.pure _).congr ?_
    rintro (_ | _ | _ | _ | (_ | _)) bytes <;> simp [Format.unit, writeBooleanConstant, writeFlag]
  · refine .fail ?_
    rintro (_ | _ | _ | _ | (_ | _)) bytes <;> simp_all [writeBooleanConstant, writeFlag]

theorem undoes_constant : Undoes readConstant writeConstant fun _ => True := by
  refine Undoes.location_bind fun offset => undoes_u8.tagged (fun tag => ?_)
    (by intro constant; cases constant <;> simp [writeConstant])
  split
  · refine (undoes_i64.lastArgument BytecodeConstant.integer).congr fun constant bytes => ?_
    cases constant <;> simp [writeConstant]
  · refine (undoes_u64.lastArgument BytecodeConstant.floatBits).congr fun constant bytes => ?_
    cases constant <;> simp [writeConstant]
  · refine (undoes_blob.lastArgument BytecodeConstant.name).congr fun constant bytes => ?_
    cases constant <;> simp [writeConstant]
  · refine (undoes_blob.lastArgument BytecodeConstant.string).congr fun constant bytes => ?_
    cases constant <;> simp [writeConstant]
  · refine Recognises.congr (undoes_booleanConstant offset) ?_
    rintro (_ | _ | _ | _ | value) bytes <;> simp [writeConstant, writeBooleanConstant]
  · refine .fail fun constant bytes => ?_
    cases constant <;> simp_all [writeConstant]

/-! ### The sections of a prototype -/

theorem Writer.reject_append_eq_ok {c : Prop} [Decidable c] {e : BytecodeError} {x : Write}
    {bytes : List UInt8} : Writer.reject c e ++ x = .ok bytes ↔ ¬ c ∧ x = .ok bytes := by
  rw [Output.append_eq_ok, Writer.reject]
  by_cases hc : c
  · simp [hc]
  · simp [hc, eq_comm]

theorem decodeConstants_eq_ok {limits bounded : VerifyLimits}
    (hle : bounded.maxConstants ≤ limits.maxConstants) (bytes : List UInt8) (base : Nat)
    (constants : List BytecodeConstant) :
    decodeConstants bytes bounded base = .ok constants ↔
      constants.length ≤ bounded.maxConstants ∧ encodeConstants constants limits = .ok bytes := by
  have h := undoes_list undoes_constant bounded.maxConstants "RVLU constant 數超過限制"
    "RVLU constant 數過大"
  rw [decodeConstants, h.runAt_eq_ok, encodeConstants, Writer.reject_append_eq_ok]
  constructor
  · rintro ⟨⟨hlen, -⟩, hw⟩
    exact ⟨hlen, by omega, hw⟩
  · rintro ⟨hlen, -, hw⟩
    exact ⟨⟨hlen, fun _ _ => trivial⟩, hw⟩

/-- What the reader of an instruction checks. -/
def BytecodeInstruction.Readable (limits : VerifyLimits) (entry : BytecodeInstruction) : Prop :=
  entry.span.Ordered ∧ ∀ path ∈ entry.closePath, path.Readable limits

/-- The flags of an instruction are flags. -/
theorem canonicalEffectFlags_known (i : Instruction) :
    i.canonicalEffectFlags &&& ~~~knownFlags = 0 := by
  unfold Instruction.canonicalEffectFlags
  split <;> decide

/-- The effect flags are determined by the instruction in front of them. -/
theorem recognises_effects {α : Type} {F : Format α} (i : Instruction) (offset : Nat)
    {rest : Read α} (hrest : Recognises rest F) :
    Recognises (do
        let encodedEffects ← Reader.u8
        reject (encodedEffects &&& ~~~knownFlags ≠ 0)
          (verify offset "RVLU instruction effect flags 含未知 bit")
        reject (encodedEffects ≠ i.canonicalEffectFlags)
          (verify offset "RVLU instruction effect flags 與 canonical effect 不符")
        rest)
      (fun a bytes => ∃ back, F a back ∧ bytes = i.canonicalEffectFlags :: back) := by
  refine (Recognises.bind undoes_u8 fun effects => Recognises.reject_bind fun _ =>
    Recognises.reject_bind fun _ => hrest).congr fun a bytes => ?_
  simp only [Format.seq, not_not]
  constructor
  · rintro ⟨effects, front, back, ⟨-, hfront⟩, ⟨-, rfl, hF⟩, rfl⟩
    cases hfront
    exact ⟨back, hF, rfl⟩
  · rintro ⟨rest, hF, rfl⟩
    exact ⟨i.canonicalEffectFlags, [i.canonicalEffectFlags], rest, ⟨trivial, rfl⟩,
      ⟨canonicalEffectFlags_known i, rfl, hF⟩, rfl⟩

theorem undoes_bytecodeInstruction (limits : VerifyLimits) :
    Undoes (readBytecodeInstruction limits) writeBytecodeInstruction
      (BytecodeInstruction.Readable limits) := by
  have hrest : ∀ i : Instruction, Undoes (do
      let span ← readSpan
      let closePath ← readOption (readClosePath limits) "RVLU instruction close flag 無效"
      pure (BytecodeInstruction.mk i span closePath))
      (fun entry => writeSpan entry.span ++ writeOption writeClosePath entry.closePath)
      fun entry => entry.instruction = i ∧ entry.Readable limits := by
    intro i
    refine undoes_span.field BytecodeInstruction.span fun span =>
      (undoes_option (undoes_closePath limits) _).last BytecodeInstruction.closePath _ fun closePath entry => ?_
    cases entry
    simp [and_assoc]
  refine Recognises.congr (Recognises.bind undoes_instruction fun i =>
    Recognises.location_bind fun offset => recognises_effects i offset (hrest i)) fun entry bytes => ?_
  simp only [writeBytecodeInstruction, Output.append_eq_ok]
  constructor
  · rintro ⟨i, front, back, ⟨-, hi⟩, ⟨rest, ⟨⟨rfl, hread⟩, hw⟩, rfl⟩, rfl⟩
    exact ⟨hread, front, _, hi, ⟨_, _, rfl, hw, rfl⟩, rfl⟩
  · rintro ⟨hread, front, _, hi, ⟨_, rest, hflags, hw, rfl⟩, rfl⟩
    cases hflags
    exact ⟨entry.instruction, front, _, ⟨trivial, hi⟩, ⟨rest, ⟨⟨rfl, hread⟩, hw⟩, rfl⟩, rfl⟩

theorem decodeInstructions_eq_ok {limits bounded : VerifyLimits}
    (hle : bounded.maxInstructions ≤ limits.maxInstructions) (bytes : List UInt8) (base : Nat)
    (instructions : List BytecodeInstruction) :
    decodeInstructions bytes bounded base = .ok instructions ↔
      (instructions.length ≤ bounded.maxInstructions ∧ ∀ entry ∈ instructions, entry.Readable bounded)
        ∧ encodeInstructions instructions limits = .ok bytes := by
  have h := undoes_list (undoes_bytecodeInstruction bounded) bounded.maxInstructions
    "RVLU instruction 數超過限制" "RVLU instruction 數過大"
  rw [decodeInstructions, h.runAt_eq_ok, encodeInstructions, Writer.reject_append_eq_ok]
  constructor
  · rintro ⟨⟨hlen, hread⟩, hw⟩
    exact ⟨⟨hlen, hread⟩, by omega, hw⟩
  · rintro ⟨hread, -, hw⟩
    exact ⟨hread, hw⟩

theorem undoes_bindingRegister : Undoes readBindingRegister writeBindingRegister fun _ => True := by
  refine Undoes.congr (undoes_binding.first Prod.fst fun binding =>
    undoes_u16.last Prod.snd _ fun register entry => ?_) (by simp)
  cases entry
  simp

/-- What follows the identity of an upvalue. -/
def readUpvalueSource (id : UpvalueId) : Read BytecodeUpvalue := do
  let offset ← location
  let tag ← Reader.u8
  match tag with
  | 0 => do pure ⟨id, .parentLocal (← readBinding)⟩
  | 1 => do pure ⟨id, .parentUpvalue (← Reader.u16)⟩
  | _ => Wire.fail (verify offset "RVLU upvalue source 無效")

/-- What `readUpvalueSource` undoes. -/
def writeUpvalueSource (upvalue : BytecodeUpvalue) : Write :=
  match upvalue.source with
  | .parentLocal binding => Writer.u8 0 ++ writeBinding binding
  | .parentUpvalue parent => Writer.u8 1 ++ Writer.u16 parent

theorem undoes_upvalueSource (id : UpvalueId) :
    Undoes (readUpvalueSource id) writeUpvalueSource fun upvalue => upvalue.id = id ∧ True := by
  refine Undoes.location_bind fun offset => undoes_u8.tagged (fun tag => ?_)
    (by rintro ⟨_, _ | _⟩ <;> simp [writeUpvalueSource])
  split
  · refine (undoes_binding.lastArgument fun b => BytecodeUpvalue.mk id (.parentLocal b)).congr ?_
    rintro ⟨_, _ | _⟩ bytes <;> simp [writeUpvalueSource, and_assoc]
  · refine (undoes_u16.lastArgument fun u => BytecodeUpvalue.mk id (.parentUpvalue u)).congr ?_
    rintro ⟨_, _ | _⟩ bytes <;> simp [writeUpvalueSource, and_assoc]
  · refine .fail ?_
    rintro ⟨_, _ | _⟩ bytes <;> simp_all [writeUpvalueSource]

theorem undoes_upvalue : Undoes readUpvalue writeUpvalue fun _ => True :=
  (undoes_u16.first BytecodeUpvalue.id undoes_upvalueSource).congr (by simp)

/-- What the reader of the metadata section checks. -/
def PrototypeMetadata.Readable (limits : VerifyLimits) (metadata : PrototypeMetadata) : Prop :=
  metadata.bindingRegisters.length ≤ limits.maxConstants
    ∧ metadata.upvalues.length ≤ limits.maxUpvaluesPerPrototype
    ∧ metadata.closePaths.length ≤ limits.maxConstants
    ∧ ∀ path ∈ metadata.closePaths, path.Readable limits

theorem undoes_metadata (limits : VerifyLimits) :
    Undoes (readMetadata limits) (fun metadata =>
        Writer.list writeBindingRegister metadata.bindingRegisters "RVLU binding metadata 過大"
          ++ (Writer.list writeUpvalue metadata.upvalues "RVLU upvalue metadata 過大"
          ++ Writer.list writeClosePath metadata.closePaths "RVLU close metadata 過大"))
      (PrototypeMetadata.Readable limits) := by
  have h := (undoes_list undoes_bindingRegister limits.maxConstants
      "RVLU binding metadata 超過限制" "RVLU binding metadata 過大").first
      PrototypeMetadata.bindingRegisters fun bindingRegisters =>
    (undoes_list undoes_upvalue limits.maxUpvaluesPerPrototype
      "RVLU upvalue 數超過限制" "RVLU upvalue metadata 過大").field
      PrototypeMetadata.upvalues fun upvalues =>
    (undoes_list (undoes_closePath limits) limits.maxConstants
      "RVLU close metadata 超過限制" "RVLU close metadata 過大").last
      PrototypeMetadata.closePaths (PrototypeMetadata.mk bindingRegisters upvalues)
      fun closePaths metadata => by cases metadata; simp [and_assoc]
  simp only [bind_assoc] at h
  exact Undoes.congr h fun metadata => by simp [PrototypeMetadata.Readable]

theorem decodeMetadata_eq_ok {limits bounded : VerifyLimits}
    (hle : bounded.maxUpvaluesPerPrototype ≤ limits.maxUpvaluesPerPrototype) (bytes : List UInt8)
    (base : Nat) (metadata : PrototypeMetadata) :
    decodeMetadata bytes bounded base = .ok metadata ↔
      metadata.Readable bounded ∧ encodeMetadata metadata limits = .ok bytes := by
  rw [decodeMetadata, (undoes_metadata bounded).runAt_eq_ok, encodeMetadata,
    Writer.reject_append_eq_ok]
  constructor
  · rintro ⟨hread, hw⟩
    exact ⟨hread, by have := hread.2.1; omega, hw⟩
  · rintro ⟨hread, -, hw⟩
    exact ⟨hread, hw⟩

/-! ### Prototypes -/

/-- What the reader of a prototype record checks, under the limits it is given. -/
def BytecodePrototype.Readable (limits : VerifyLimits) (prototype : BytecodePrototype) : Prop :=
  prototype.span.Ordered ∧ prototype.constants.length ≤ limits.maxConstants
    ∧ (prototype.instructions.length ≤ limits.maxInstructions
      ∧ ∀ entry ∈ prototype.instructions, entry.Readable limits)
    ∧ prototype.metadata.Readable limits

/-- The smaller limits a record is read under never allow more than the writer does. -/
structure VerifyLimits.Below (bounded limits : VerifyLimits) : Prop where
  constants : bounded.maxConstants ≤ limits.maxConstants
  instructions : bounded.maxInstructions ≤ limits.maxInstructions
  upvalues : bounded.maxUpvaluesPerPrototype ≤ limits.maxUpvaluesPerPrototype

theorem VerifyLimits.bounded_below (limits : VerifyLimits) (instructions constants : Nat) :
    (limits.bounded instructions constants).Below limits :=
  ⟨Nat.sub_le _ _, Nat.sub_le _ _, Nat.le_refl _⟩

theorem undoes_prototype {limits bounded : VerifyLimits} (hle : bounded.Below limits) :
    Undoes (readPrototype bounded) (fun prototype => encodePrototype prototype limits)
      (BytecodePrototype.Readable bounded) := by
  have hconstants := undoes_section "RVLU constants section 太大"
    (decodeConstants_eq_ok hle.constants)
  have hinstructions := undoes_section "RVLU instructions section 太大"
    (decodeInstructions_eq_ok hle.instructions)
  have hmetadata := undoes_section "RVLU metadata section 太大" (decodeMetadata_eq_ok hle.upvalues)
  have h := undoes_u32.first BytecodePrototype.id fun id =>
    undoes_u32.field BytecodePrototype.function fun function =>
    undoes_optionalProto.field BytecodePrototype.parent fun parent =>
    undoes_span.field BytecodePrototype.span fun span =>
    undoes_u16.field BytecodePrototype.registerCount fun registerCount =>
    undoes_u16.field BytecodePrototype.parameterCount fun parameterCount =>
    (undoes_flag "RVLU vararg flag 無效").field BytecodePrototype.isVariadic fun isVariadic =>
    (undoes_option undoes_bindingRegister "RVLU named vararg flag 無效").field
      BytecodePrototype.namedVararg fun namedVararg =>
    undoes_frame.field BytecodePrototype.frame fun frame =>
    undoes_u16.field BytecodePrototype.globalEnvironment fun globalEnvironment =>
    undoes_binding.field BytecodePrototype.globalEnvironmentBinding fun environmentBinding =>
    hconstants.field BytecodePrototype.constants fun constants =>
    hinstructions.field BytecodePrototype.instructions fun instructions =>
    hmetadata.last BytecodePrototype.metadata
      (fun metadata => BytecodePrototype.mk id function parent span registerCount
        parameterCount isVariadic namedVararg frame globalEnvironment environmentBinding
        metadata.bindingRegisters constants metadata.upvalues instructions metadata.closePaths)
      fun metadata prototype => by
        cases prototype
        cases metadata
        simp only [BytecodePrototype.metadata, BytecodePrototype.mk.injEq, PrototypeMetadata.mk.injEq]
        tauto
  simp only [bind_assoc] at h
  refine Undoes.congr h fun prototype => ?_
  simp [BytecodePrototype.Readable]

end RivetLua.Bytecode
