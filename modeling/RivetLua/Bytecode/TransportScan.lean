import RivetLua.Bytecode.Transport

namespace RivetLua.Bytecode.Transport

open RivetLua.Core Wire

/-!
# Bytecode — the scan agrees with the decoder

The scan of the RVLU bytes knows the length of every record by itself, and the decoder reads the
records field by field.  Both are compared record by record: they stop at the same byte, the scan
counts what the decoder builds, and it accepts whatever the decoder accepts.

* `Room` — how much can be left behind the bytes read so far, so that no sum of the scan overflows;
* `agree_decodeConstants`, `agree_decodeInstructions`, `agree_decodeMetadata` — the sections of a
  prototype;
* `agree_decodeRecord`, `agree_decodePrototypes` — the prototypes, with what they count for;
* `agree_readModule` — the module, up to the verifier.
-/

/-! ### The errors of the decoder -/

/-- The texts of the errors for bytes that are missing at the end of a section, or too many. -/
def boundaryMessages : List String :=
  ["RVLU bytes 截斷", "RVLU module 有未宣告尾端 bytes", "RVLU prototype section 尾端 bytes 無效",
    "RVLU prototype record 尾端 bytes 無效", "RVLU constants section 尾端 bytes 無效",
    "RVLU instructions section 尾端 bytes 無效", "RVLU metadata section 尾端 bytes 無效"]

/-- An error that has nothing to do with the end of a section. -/
def Inner (e : BytecodeError) : Prop := e.message ∉ boundaryMessages

/-- No error is allowed. -/
def Never (_ : TransportError) : Prop := False

/-- As many bytes are left as the bytes read so far, counted with `c`, leave of `N`. -/
def Room (N c : Nat) (rest : List UInt8) : Prop := c + rest.length ≤ N

/-! ### Words -/

section Words

variable {α : Type} {F : BytecodeError → Prop} {G : TransportError → Prop} {N c n : Nat}

theorem fixed_u8 : Fixed F 1 Reader.u8 := (Fixed.take _ 1).bind fun _ => .pure _

theorem fixed_u16 : Fixed F 2 Reader.u16 := (Fixed.take _ 2).bind fun _ => .pure _

theorem fixed_u32 : Fixed F 4 Reader.u32 := (Fixed.take _ 4).bind fun _ => .pure _

theorem fixed_u64 : Fixed F 8 Reader.u64 := (Fixed.take _ 8).bind fun _ => .pure _

theorem fixed_i64 : Fixed F 8 Reader.i64 := fixed_u64.bind fun _ => .pure _

/-- A reader of a fixed length against a walk. -/
theorem follows_skip {ε : Type} {E : ε → Prop} {r : Wire.Reader ε α} {c' : Nat} (h : Fixed E n r)
    (hc : c' ≤ c + n) : Follows E G (Room N c) r (skip n) fun _ _ => Room N c' := by
  have htake : Follows E G (Room N c) r (take n) fun _ _ => Room N c' := by
    refine h.follows fun a front back hroom hlen => ?_
    simp only [Room, List.length_append] at hroom ⊢
    omega
  intro rest loc pos hrest
  have hrun := htake rest loc pos hrest
  show Agree E G _ (Except.bind (take n ⟨rest, pos⟩) fun p => .ok ((), p.2)) _
  generalize r ⟨rest, loc⟩ = x at hrun ⊢
  generalize take n ⟨rest, pos⟩ = y at hrun ⊢
  rcases x with e | ⟨a, t⟩ <;> rcases y with e' | ⟨b, t'⟩ <;> exact hrun

theorem Room.advance {front back : List UInt8} (h : Room N c (front ++ back))
    (hlen : front.length = n) : Room N (c + n) back := by
  simp only [Room, List.length_append] at h ⊢
  omega

theorem follows_u8 : Follows F G (Room N c) Reader.u8 u8 fun a b rest =>
    b = a ∧ Room N (c + 1) rest := Follows.word _ fun _ _ => Room.advance

theorem follows_u16 : Follows F G (Room N c) Reader.u16 u16 fun a b rest =>
    b = a ∧ Room N (c + 2) rest := Follows.word _ fun _ _ => Room.advance

theorem follows_u32 : Follows F G (Room N c) Reader.u32 u32 fun a b rest =>
    b = a ∧ Room N (c + 4) rest := Follows.word _ fun _ _ => Room.advance

/-- What a section holds is as long as its length says. -/
theorem follows_section : Follows F G (Room N c) Reader.section «section» fun a b rest =>
    (b = a.bytes ∧ b.length < 2 ^ 32) ∧ Room N (c + b.length) rest := by
  refine follows_u32.bind fun length length' => Follows.of_pre fun hlength => ?_
  subst hlength
  refine Follows.location_left fun start => ?_
  refine Follows.map_left (R := fun a b rest => b = a ∧ b.length < 2 ^ 32
    ∧ Room N (c + b.length) rest) ?_ fun a b rest h => ⟨⟨h.1, h.2.1⟩, h.2.2⟩
  refine Follows.take fun front back hroom hlen => ⟨rfl, ?_, ?_⟩
  · rw [hlen]
    exact length'.toNat_lt
  · simp only [Room, List.length_append] at hroom ⊢
    omega

/-- A byte string is walked over. -/
theorem follows_blob : Follows F G (Room N c) Reader.blob «section» fun _ _ => Room N (c + 4) := by
  refine follows_u32.bind fun length length' => Follows.of_pre fun hlength => ?_
  subst hlength
  refine Follows.take fun front back hroom hlen => ?_
  simp only [Room, List.length_append] at hroom ⊢
  omega

end Words

/-! ### Small records -/

section Records

variable {α : Type} {G : TransportError → Prop} {N c n : Nat}

theorem fixed_failBehind {message : String} (h : message ∉ boundaryMessages) :
    Fixed Inner n (Bytecode.failBehind message : Read α) :=
  Fixed.location.bind_zero fun _ => .fail h

theorem follows_failBehind {β : Type} {message detail : String}
    {F : BytecodeError → Prop} {P : List UInt8 → Prop} {R : α → β → List UInt8 → Prop} :
    Follows F G P (Bytecode.failBehind message) (failBehind detail) R :=
  Follows.location_left fun _ => Follows.location_right fun _ => Follows.fail

theorem fixed_readSpan : Fixed Inner 16 readSpan :=
  fixed_u64.bind fun _ => fixed_u64.bind fun _ => Fixed.location.bind_zero fun _ =>
    (Fixed.reject (by simp [Inner, verify, boundaryMessages])).bind_zero fun _ => .pure _

theorem fixed_readBinding : Fixed Inner 8 readBinding :=
  fixed_u32.bind fun _ => fixed_u32.bind fun _ => .pure _

theorem fixed_readBindingRegister : Fixed Inner 10 readBindingRegister :=
  fixed_readBinding.bind fun _ => fixed_u16.bind fun _ => .pure _

theorem fixed_readFlag {message : String} (h : message ∉ boundaryMessages) :
    Fixed Inner 1 (readFlag message) := by
  have hbind : Fixed Inner (1 + 0) (readFlag message) := by
    refine fixed_u8.bind fun tag => ?_
    split
    · exact .pure _
    · exact .pure _
    · exact fixed_failBehind h
  exact hbind

theorem fixed_readTag {parse : UInt8 → Nat → Except BytecodeError α} {offset : Nat}
    (h : ∀ tag e, parse tag offset = .error e → Inner e) : Fixed Inner 1 (readTag parse offset) :=
  fixed_u8.bind fun tag => .compute (h tag)

theorem inner_parseUnary {tag : UInt8} {offset : Nat} {e : BytecodeError}
    (h : parseUnary tag offset = .error e) : Inner e := by
  unfold parseUnary at h
  split at h
  all_goals cases h
  simp [Inner, verify, boundaryMessages]

theorem inner_parseBinary {tag : UInt8} {offset : Nat} {e : BytecodeError}
    (h : parseBinary tag offset = .error e) : Inner e := by
  unfold parseBinary at h
  split at h
  all_goals cases h
  simp [Inner, verify, boundaryMessages]

theorem inner_parseExit {tag : UInt8} {offset : Nat} {e : BytecodeError}
    (h : parseExit tag offset = .error e) : Inner e := by
  unfold parseExit at h
  split at h
  all_goals cases h
  simp [Inner, verify, boundaryMessages]

theorem inner_parseProfile {tag : UInt8} {offset : Nat} {e : BytecodeError}
    (h : parseProfile tag offset = .error e) : Inner e := by
  unfold parseProfile at h
  split at h
  all_goals cases h
  simp [Inner, verify, boundaryMessages]

/-- An option of a value of fixed length. -/
theorem follows_readOption {read : Read α} {message detail : String} (h : Fixed Inner n read) :
    Follows Inner G (Room N c) (readOption read message) (scanOptional n detail)
      fun _ _ => Room N (c + 1) := by
  refine follows_u8.bind fun tag tag' => Follows.of_pre fun htag => ?_
  subst htag
  split
  · exact Follows.pure fun rest hroom => hroom
  · exact follows_skip (h.bind fun _ => .pure _) (by omega)
  · rename_i hne0 hne1
    -- the scan may share the match of the reader
    first
    | exact follows_failBehind
    | split
      · exact absurd rfl hne0
      · exact absurd rfl hne1
      · exact follows_failBehind

theorem follows_readResultMode :
    Follows Inner G (Room N c) readResultMode scanResultMode fun _ _ => Room N (c + 1) := by
  refine follows_u8.bind fun tag tag' => Follows.of_pre fun htag => ?_
  subst htag
  split
  · exact follows_skip (fixed_u16.bind fun _ => .pure _) (by omega)
  · exact Follows.pure fun rest hroom => hroom
  · rename_i hne0 hne1
    -- the scan may share the match of the reader
    first
    | exact follows_failBehind
    | split
      · exact absurd rfl hne0
      · exact absurd rfl hne1
      · exact follows_failBehind

theorem follows_readEnvironmentSource :
    Follows Inner G (Room N c) readEnvironmentSource scanEnvironment fun _ _ => Room N (c + 1) := by
  refine Follows.location_left fun offset => ?_
  refine follows_u8.bind fun tag tag' => Follows.of_pre fun htag => ?_
  subst htag
  split
  · exact Follows.pure fun rest hroom => hroom
  · exact follows_skip (fixed_u32.bind fun _ => fixed_u16.bind fun _ => .pure _) (by omega)
  · exact follows_skip (fixed_u16.bind fun _ => .pure _) (by omega)
  · exact follows_skip (fixed_u16.bind fun _ => .pure _) (by omega)
  · exact Follows.fail_left (by simp [Inner, verify, boundaryMessages])

/-- The result mode as the last operand. -/
theorem follows_mode {make : ResultMode → α} :
    Follows Inner G (Room N c) (readResultMode >>= fun mode => pure (make mode)) scanResultMode
      fun _ _ => Room N c := by
  refine follows_readResultMode.map_left fun _ _ rest hroom => ?_
  simp only [Room] at hroom ⊢
  omega

/-- The operands of every opcode have the length that the walk takes. -/
theorem follows_readOperands (offset : Nat) (opcode : UInt8) :
    Follows Inner G (Room N c) (readOperands offset opcode) (scanOperands opcode)
      fun _ _ => Room N c := by
  unfold readOperands
  split
  · exact follows_skip (fixed_u16.bind fun _ => fixed_u32.bind fun _ => .pure _) (by omega)
  · exact follows_skip (fixed_u16.bind fun _ => fixed_u16.bind fun _ => .pure _) (by omega)
  · exact follows_skip (fixed_u16.bind fun _ => fixed_u16.bind fun _ => .pure _) (by omega)
  · exact follows_skip (fixed_u16.bind fun _ => fixed_u16.bind fun _ => .pure _) (by omega)
  · exact follows_skip (fixed_u16.bind fun _ => fixed_u16.bind fun _ => .pure _) (by omega)
  · exact follows_skip (fixed_u16.bind fun _ => .pure _) (by omega)
  · exact follows_skip (fixed_u16.bind fun _ => fixed_u16.bind fun _ => fixed_u16.bind fun _ =>
      .pure _) (by omega)
  · exact follows_skip (fixed_u16.bind fun _ => fixed_u16.bind fun _ => fixed_u16.bind fun _ =>
      .pure _) (by omega)
  · exact follows_skip (fixed_u16.bind fun _ => (fixed_readTag fun _ _ => inner_parseUnary).bind
      fun _ => fixed_u16.bind fun _ => .pure _) (by omega)
  · exact follows_skip (fixed_u16.bind fun _ => (fixed_readTag fun _ _ => inner_parseBinary).bind
      fun _ => fixed_u16.bind fun _ => fixed_u16.bind fun _ => .pure _) (by omega)
  · exact follows_skip (fixed_u32.bind fun _ => .pure _) (by omega)
  · exact follows_skip (fixed_u16.bind fun _ => fixed_u32.bind fun _ => .pure _) (by omega)
  · exact follows_skip (fixed_u16.bind fun _ => fixed_u32.bind fun _ => .pure _) (by omega)
  · refine Follows.pair_left (Follows.bind (follows_skip ?_ (Nat.le_add_right c 4)) fun _ _ => ?_)
    · exact fixed_u16.bind fun _ => fixed_u16.bind fun _ => .pure _
    · exact follows_mode
  · refine Follows.pair_left (Follows.bind (follows_skip ?_ (Nat.le_add_right c 4)) fun _ _ => ?_)
    · exact fixed_u16.bind fun _ => fixed_u16.bind fun _ => .pure _
    · exact follows_mode
  · exact Follows.bind (follows_skip fixed_u16 (Nat.le_add_right c 2)) fun _ _ => follows_mode
  · exact Follows.bind (follows_skip fixed_u16 (Nat.le_add_right c 2)) fun _ _ => follows_mode
  · exact follows_skip (fixed_u16.bind fun _ => fixed_u16.bind fun _ => .pure _) (by omega)
  · exact follows_skip (fixed_u16.bind fun _ => fixed_u16.bind fun _ => fixed_u16.bind fun _ =>
      fixed_u16.bind fun _ => fixed_u32.bind fun _ => .pure _) (by omega)
  · exact follows_skip (fixed_u16.bind fun _ => fixed_u16.bind fun _ => fixed_u16.bind fun _ =>
      fixed_u16.bind fun _ => fixed_u32.bind fun _ => fixed_u32.bind fun _ => .pure _) (by omega)
  · exact Follows.fail_left (by simp [Inner, verify, boundaryMessages])

end Records

/-! ### Close paths, constants and instructions -/

section Sections

variable {α β : Type} {N c n : Nat} {R : α → β → List UInt8 → Prop}

theorem Room.mono {c' : Nat} {rest : List UInt8} (h : Room N c rest) (hc : c' ≤ c) :
    Room N c' rest := by
  simp only [Room] at h ⊢
  omega

/-- A count, with what follows behind the check. -/
theorem Reader.count_bind {limitValue : Nat} {message : String} (k : Nat → Read α) :
    Reader.count limitValue message >>= k = location >>= fun offset =>
      Reader.u32 >>= fun value => reject (limitValue < value.toNat) (Bytecode.limit offset message)
        >>= fun _ => k value.toNat := by
  simp only [Reader.count, bind_assoc, pure_bind]

/-- A count that both sides check, the decoder with the smaller limit. -/
theorem follows_count {k : Nat → Read α} {l : UInt32 → Scan β} {limitValue limitValue' : Nat}
    {message : String} {e : TransportError} (hle : limitValue ≤ limitValue')
    (hm : message ∉ boundaryMessages)
    (h : ∀ count : UInt32, count.toNat ≤ limitValue →
      Follows Inner Never (Room N (c + 4)) (k count.toNat) (l count) R) :
    Follows Inner Never (Room N c) (Reader.count limitValue message >>= k)
      (u32 >>= fun count => reject (limitValue' < count.toNat) e >>= fun _ => l count) R := by
  rw [Reader.count_bind]
  refine Follows.location_left fun offset => ?_
  refine follows_u32.bind fun value value' => Follows.of_pre fun hvalue => ?_
  subst hvalue
  refine Follows.reject_left (fun _ => hm) fun hlimit => ?_
  refine Follows.reject_right (fun hlimit' => by omega) fun _ => ?_
  exact h value' (by omega)

/-- A product of a count and a small size does not overflow. -/
theorem checkedMul_count (count : UInt32) {size : Nat} (h : size ≤ 16) :
    checkedMul count.toNat size = .ok (count.toNat * size) := by
  have hcount := count.toNat_lt
  have hmul : count.toNat * size ≤ 2 ^ 32 * 16 := Nat.mul_le_mul (by omega) h
  exact if_neg (by simp only [usizeMax]; omega)

/-- A table of records of fixed length. -/
theorem follows_table {r : Read α} {γ : Type} {k : List α → Read γ} {l : Scan β}
    {R : γ → β → List UInt8 → Prop} (count : UInt32) {size : Nat} (hsize : size ≤ 16)
    (h : Fixed Inner size r)
    (hk : ∀ as, as.length = count.toNat →
      Follows Inner Never (Room N (c + count.toNat * size)) (k as) l R) :
    Follows Inner Never (Room N c) (many r count.toNat >>= k)
      (compute (checkedMul count.toNat size) >>= fun total => skip total >>= fun _ => l) R := by
  rw [checkedMul_count count hsize]
  refine Follows.compute_right (fun e he => by cases he) fun total htotal => ?_
  obtain rfl := Except.ok.inj htotal
  have hskip : Follows Inner Never (Room N c) (many r count.toNat) (skip (count.toNat * size))
      fun as _ rest => as.length = count.toNat ∧ Room N (c + count.toNat * size) rest :=
    (follows_skip (h.many count.toNat) (Nat.le_refl _)).and_left fun _ _ _ => many_length
  exact hskip.bind fun as _ => Follows.of_pre fun hlen => hk as hlen

/-- **A close path**: the walk counts its bindings. -/
theorem follows_readClosePath {limits limits' : VerifyLimits}
    (hconstants : limits.maxConstants ≤ limits'.maxConstants)
    (hregisters : limits.maxRegisters = limits'.maxRegisters) :
    Follows Inner Never (Room N c) (readClosePath limits) (scanClosePath limits')
      fun close bindings rest => bindings = close.bindings.length
        ∧ Room N (c + 10 * bindings) rest := by
  refine Follows.location_left fun offset => ?_
  refine Follows.pair_left (Follows.pair_left (Follows.bind
    (follows_skip ?_ (Nat.le_add_right c (1 + 16 + 4))) fun head _ => ?_))
  · exact ((fixed_readTag fun _ _ => inner_parseExit).bind fun _ =>
      fixed_readSpan.bind fun _ => .pure _).bind fun _ => fixed_u32.bind fun _ => .pure _
  refine Follows.bind ((follows_readOption fixed_u32).conseq (fun _ h => h)
    fun _ _ _ h => h.mono (Nat.le_add_right c 1)) fun target _ => ?_
  refine follows_count hconstants (by simp [boundaryMessages]) fun count hcount => ?_
  refine follows_table count (by omega) fixed_readBinding fun bindings hbindings => ?_
  -- the decoder compares the lengths behind the registers, the walk in front of them
  rw [Reader.count_bind]
  refine Follows.location_left fun _ => ?_
  refine follows_u32.bind fun registers registers' => Follows.of_pre fun hregisters' => ?_
  subst hregisters'
  refine Follows.reject_left (fun _ => by simp [Inner, Bytecode.limit, boundaryMessages])
    fun hlimit => ?_
  by_cases hsame : registers'.toNat = count.toNat
  · refine Follows.reject_right (fun h => ?_) fun _ => ?_
    · rw [← hregisters] at h
      omega
    refine follows_table registers' (by omega) fixed_u16 fun registers hlen => ?_
    refine Follows.reject_left (fun h => absurd (by omega) h) fun _ => ?_
    refine Follows.pure fun rest hroom => ⟨hbindings.symm, hroom.mono ?_⟩
    omega
  · rw [reject_bind_pos (Or.inr hsame)]
    refine Follows.never_left fun i close t hread => ?_
    obtain ⟨registers, u, hmany, hrest⟩ := bind_eq_ok.mp hread
    have hlen := many_length hmany
    rw [reject_bind_pos (by omega)] at hrest
    cases hrest

/-- A constant has at least one byte. -/
theorem follows_readConstant :
    Follows Inner Never (Room N c) readConstant scanConstant fun _ _ => Room N (c + 1) := by
  refine Follows.location_left fun offset => ?_
  refine follows_u8.bind fun tag tag' => Follows.of_pre fun htag => ?_
  subst htag
  split
  · exact follows_skip (fixed_i64.bind fun _ => .pure _) (by omega)
  · exact follows_skip (fixed_u64.bind fun _ => .pure _) (by omega)
  · exact Follows.bind (follows_blob.conseq (fun _ h => h) fun _ _ _ h =>
      h.mono (Nat.le_add_right (c + 1) 4)) fun _ _ => Follows.pure fun _ h => h
  · exact Follows.bind (follows_blob.conseq (fun _ h => h) fun _ _ _ h =>
      h.mono (Nat.le_add_right (c + 1) 4)) fun _ _ => Follows.pure fun _ h => h
  · have hflag : Fixed Inner (1 + 0) (readBooleanConstant offset) := by
      refine fixed_u8.bind fun value => ?_
      split
      · exact .pure _
      · exact .pure _
      · exact .fail (by simp [Inner, verify, boundaryMessages])
    exact follows_skip hflag (by omega)
  · exact Follows.fail_left (by simp [Inner, verify, boundaryMessages])

/-- **The constants**: as many as the walk counts. -/
theorem agree_decodeConstants {limits limits' : VerifyLimits}
    (hconstants : limits.maxConstants ≤ limits'.maxConstants) (bytes : List UInt8) (base : Nat) :
    Agree Inner Never (decodeConstants bytes limits base) (scanConstants bytes limits')
      fun constants count => count = constants.length ∧ count ≤ limits.maxConstants
        ∧ count ≤ bytes.length := by
  have hread : Follows Inner Never (Room bytes.length 0)
      (do
        let count ← Reader.count limits.maxConstants "RVLU constant 數超過限制"
        many readConstant count)
      (do
        let count ← u32
        reject (limits'.maxConstants < count.toNat) (limit "RVLU constant count 超限")
        iterate (fun _ => scanConstant) count.toNat ()
        pure count.toNat)
      fun constants count _ => count = constants.length ∧ count ≤ limits.maxConstants
        ∧ count ≤ bytes.length := by
    refine follows_count hconstants (by simp [boundaryMessages]) fun count hcount => ?_
    have hstep : ∀ (constants : List BytecodeConstant) (_ : Unit), Follows Inner Never
        (Room bytes.length (0 + 4 + constants.length)) readConstant scanConstant
        fun constant _ => Room bytes.length (0 + 4 + (constants ++ [constant]).length) := by
      intro constants _
      refine follows_readConstant.conseq (fun _ h => h) fun _ _ _ h => h.mono ?_
      rw [List.length_append, List.length_singleton]
      omega
    refine (Follows.loop hstep count.toNat [] ()).map_right fun constants _ rest h => ?_
    obtain ⟨hlen, hroom⟩ := h
    simp only [List.nil_append, Room] at hroom
    rw [hlen]
    exact ⟨rfl, hcount, by omega⟩
  exact hread.runAt (by simp [Room]) base 0

/-- The effect flags and the span of an instruction. -/
def readEffects (instruction : Instruction) : Read BytecodeSpan := do
  let effectOffset ← location
  let encodedEffects ← Reader.u8
  reject (encodedEffects &&& ~~~knownFlags ≠ 0)
    (verify effectOffset "RVLU instruction effect flags 含未知 bit")
  reject (encodedEffects ≠ instruction.canonicalEffectFlags)
    (verify effectOffset "RVLU instruction effect flags 與 canonical effect 不符")
  readSpan

theorem readBytecodeInstruction_eq (limits : VerifyLimits) :
    readBytecodeInstruction limits = location >>= fun offset => Reader.u8 >>= fun opcode =>
      readOperands offset opcode >>= fun instruction => readEffects instruction >>= fun span =>
      readOption (readClosePath limits) "RVLU instruction close flag 無效" >>= fun closePath =>
      pure ⟨instruction, span, closePath⟩ := by
  simp only [readBytecodeInstruction, readInstruction, readEffects, bind_assoc]

theorem fixed_readEffects (instruction : Instruction) :
    Fixed Inner (1 + 16) (readEffects instruction) :=
  Fixed.location.bind_zero fun _ => fixed_u8.bind fun _ =>
    (Fixed.reject (by simp [Inner, verify, boundaryMessages])).bind_zero fun _ =>
      (Fixed.reject (by simp [Inner, verify, boundaryMessages])).bind_zero fun _ => fixed_readSpan

/-- The bindings that an instruction closes. -/
def closeBindings (closePath : Option BytecodeClosePath) : Nat :=
  match closePath with
  | none => 0
  | some close => close.bindings.length

/-- Counting bindings that have been read does not overflow. -/
theorem checkedAdd_of_le {left right : Nat} (h : left + right ≤ usizeMax) :
    checkedAdd left right = .ok (left + right) :=
  if_neg (by omega)

/-- A close path whose bindings are added to those counted so far. -/
theorem follows_closeTotal {limits limits' : VerifyLimits} {acc : Nat}
    (hconstants : limits.maxConstants ≤ limits'.maxConstants)
    (hregisters : limits.maxRegisters = limits'.maxRegisters) (hN : N ≤ usizeMax)
    (hacc : acc ≤ c) :
    Follows Inner Never (Room N c) (readClosePath limits) (scanMetadataClose limits' acc)
      fun close total rest => total = acc + close.bindings.length
        ∧ Room N (c + 10 * close.bindings.length) rest := by
  rw [← bind_pure (readClosePath limits)]
  refine (follows_readClosePath hconstants hregisters).bind fun close bindings => ?_
  intro rest loc pos ⟨hbindings, hroom⟩
  have hbound : acc + bindings ≤ usizeMax := by
    simp only [Room] at hroom
    omega
  rw [checkedAdd_of_le hbound, hbindings]
  rw [hbindings] at hroom
  exact ⟨rfl, rfl, hroom⟩

/-- The close path of an instruction. -/
theorem follows_readClose {limits limits' : VerifyLimits} {acc : Nat}
    (hconstants : limits.maxConstants ≤ limits'.maxConstants)
    (hregisters : limits.maxRegisters = limits'.maxRegisters) (hN : N ≤ usizeMax)
    (hacc : acc ≤ c) :
    Follows Inner Never (Room N c)
      (readOption (readClosePath limits) "RVLU instruction close flag 無效")
      (scanInstructionClose limits' acc)
      fun closePath total rest => total = acc + closeBindings closePath
        ∧ Room N (c + 1 + 10 * closeBindings closePath) rest := by
  refine follows_u8.bind fun tag tag' => Follows.of_pre fun htag => ?_
  subst htag
  split
  · exact Follows.pure fun rest hroom => ⟨rfl, hroom⟩
  · exact (follows_closeTotal hconstants hregisters hN (by omega)).map_left fun _ _ _ h => h
  · rename_i hne0 hne1
    -- the scan may share the match of the reader
    first
    | exact follows_failBehind
    | split
      · exact absurd rfl hne0
      · exact absurd rfl hne1
      · exact follows_failBehind

/-- The bindings that a list of instructions closes. -/
def inlineClose (instructions : List BytecodeInstruction) : Nat :=
  (instructions.map fun entry => closeBindings entry.closePath).sum

theorem inlineClose_concat (instructions : List BytecodeInstruction) (entry : BytecodeInstruction) :
    inlineClose (instructions ++ [entry]) = inlineClose instructions
      + closeBindings entry.closePath := by
  simp [inlineClose]

/-- **An instruction** has at least 19 bytes, and ten more for each binding it closes. -/
theorem follows_readBytecodeInstruction {limits limits' : VerifyLimits} {acc : Nat}
    (hconstants : limits.maxConstants ≤ limits'.maxConstants)
    (hregisters : limits.maxRegisters = limits'.maxRegisters) (hN : N ≤ usizeMax)
    (hacc : acc ≤ c) :
    Follows Inner Never (Room N c) (readBytecodeInstruction limits) (scanInstruction limits' acc)
      fun entry total rest => total = acc + closeBindings entry.closePath
        ∧ Room N (c + 19 + 10 * closeBindings entry.closePath) rest := by
  rw [readBytecodeInstruction_eq]
  refine Follows.location_left fun offset => ?_
  refine follows_u8.bind fun opcode opcode' => Follows.of_pre fun hopcode => ?_
  subst hopcode
  refine (follows_readOperands offset opcode').bind fun instruction _ => ?_
  refine (follows_skip (fixed_readEffects instruction) (Nat.le_refl (c + 1 + (1 + 16)))).bind
    fun span _ => ?_
  refine (follows_readClose hconstants hregisters hN (by omega)).map_left ?_
  intro closePath total rest ⟨htotal, hroom⟩
  show _ ∧ Room N (c + 19 + 10 * closeBindings closePath) rest
  exact ⟨htotal, hroom.mono (by omega)⟩

/-- **The instructions**: as many as the walk counts, with the bindings they close. -/
theorem agree_decodeInstructions {limits limits' : VerifyLimits}
    (hinstructions : limits.maxInstructions ≤ limits'.maxInstructions)
    (hconstants : limits.maxConstants ≤ limits'.maxConstants)
    (hregisters : limits.maxRegisters = limits'.maxRegisters) {bytes : List UInt8}
    (hbytes : bytes.length ≤ usizeMax) (base : Nat) :
    Agree Inner Never (decodeInstructions bytes limits base) (scanInstructions bytes limits')
      fun instructions counts => counts = (instructions.length, inlineClose instructions)
        ∧ instructions.length ≤ limits.maxInstructions
        ∧ 10 * (instructions.length + inlineClose instructions) ≤ bytes.length := by
  let I : List BytecodeInstruction → Nat → List UInt8 → Prop := fun entries acc rest =>
    acc = inlineClose entries ∧ Room bytes.length (4 + 19 * entries.length + 10 * acc) rest
  have hread : Follows Inner Never (Room bytes.length 0)
      (do
        let count ← Reader.count limits.maxInstructions "RVLU instruction 數超過限制"
        many (readBytecodeInstruction limits) count)
      (do
        let count ← u32
        reject (limits'.maxInstructions < count.toNat) (limit "RVLU instruction count 超限")
        let closeBindings ← iterate (scanInstruction limits') count.toNat 0
        pure (count.toNat, closeBindings))
      fun instructions counts _ => counts = (instructions.length, inlineClose instructions)
        ∧ instructions.length ≤ limits.maxInstructions
        ∧ 10 * (instructions.length + inlineClose instructions) ≤ bytes.length := by
    refine follows_count hinstructions (by simp [boundaryMessages]) fun count hcount => ?_
    have hstep : ∀ entries acc, Follows Inner Never (I entries acc)
        (readBytecodeInstruction limits) (scanInstruction limits' acc)
        fun entry acc' rest => I (entries ++ [entry]) acc' rest := by
      intro entries acc
      refine Follows.of_pre fun hacc => ?_
      refine (follows_readBytecodeInstruction hconstants hregisters hbytes (by omega)).conseq
        (fun _ h => h) ?_
      intro entry total rest ⟨htotal, hroom⟩
      refine ⟨by rw [htotal, hacc, inlineClose_concat], hroom.mono ?_⟩
      rw [List.length_append, List.length_singleton]
      omega
    refine ((Follows.loop hstep count.toNat [] 0).map_right ?_).conseq (fun rest h => ⟨rfl, h⟩)
      fun _ _ _ h => h
    intro entries acc rest ⟨hlen, hacc, hroom⟩
    simp only [List.nil_append] at hacc hroom
    simp only [Room] at hroom
    rw [hacc, ← hlen]
    refine ⟨rfl, ?_, ?_⟩ <;> omega
  exact hread.runAt (by simp [Room]) base 0

end Sections

/-! ### The metadata of a prototype -/

section Metadata

variable {N c : Nat}

/-- An upvalue has at least five bytes. -/
theorem follows_readUpvalue :
    Follows Inner Never (Room N c) readUpvalue scanUpvalue fun _ _ => Room N (c + 5) := by
  refine (follows_skip fixed_u16 (Nat.le_refl (c + 2))).bind fun id _ => ?_
  refine Follows.location_left fun offset => ?_
  refine follows_u8.bind fun tag tag' => Follows.of_pre fun htag => ?_
  subst htag
  split
  · exact follows_skip (fixed_readBinding.bind fun _ => .pure _) (by omega)
  · exact follows_skip (fixed_u16.bind fun _ => .pure _) (by omega)
  · exact Follows.fail_left (by simp [Inner, verify, boundaryMessages])

/-- The bindings of a list of close paths. -/
def pathBindings (closePaths : List BytecodeClosePath) : Nat :=
  (closePaths.map fun close => close.bindings.length).sum

theorem pathBindings_concat (closePaths : List BytecodeClosePath) (close : BytecodeClosePath) :
    pathBindings (closePaths ++ [close]) = pathBindings closePaths + close.bindings.length := by
  simp [pathBindings]

/-- **The metadata**: bindings, upvalues and the bindings of the close paths, as the walk counts
    them. -/
theorem agree_decodeMetadata {limits limits' : VerifyLimits}
    (hconstants : limits.maxConstants ≤ limits'.maxConstants)
    (hregisters : limits.maxRegisters = limits'.maxRegisters)
    (hupvalues : limits.maxUpvaluesPerPrototype = limits'.maxUpvaluesPerPrototype)
    {bytes : List UInt8} (hbytes : bytes.length ≤ usizeMax) (base : Nat) :
    Agree Inner Never (decodeMetadata bytes limits base) (scanMetadata bytes limits')
      fun metadata counts => counts = (metadata.bindingRegisters.length, metadata.upvalues.length,
          pathBindings metadata.closePaths)
        ∧ 10 * metadata.bindingRegisters.length + 5 * metadata.upvalues.length
          + 10 * pathBindings metadata.closePaths ≤ bytes.length := by
  have hread : Follows Inner Never (Room bytes.length 0) (readMetadata limits)
      (do
        let bindings ← u32
        reject (limits'.maxConstants < bindings.toNat) (limit "RVLU metadata binding count 超限")
        let size ← compute (checkedMul bindings.toNat 10)
        skip size
        let upvalues ← u32
        reject (limits'.maxUpvaluesPerPrototype < upvalues.toNat)
          (limit "RVLU metadata upvalue count 超限")
        iterate (fun _ => scanUpvalue) upvalues.toNat ()
        let close ← u32
        reject (limits'.maxConstants < close.toNat) (limit "RVLU metadata close count 超限")
        let closeBindings ← iterate (scanMetadataClose limits') close.toNat 0
        pure (bindings.toNat, upvalues.toNat, closeBindings))
      fun metadata counts _ => counts = (metadata.bindingRegisters.length,
          metadata.upvalues.length, pathBindings metadata.closePaths)
        ∧ 10 * metadata.bindingRegisters.length + 5 * metadata.upvalues.length
          + 10 * pathBindings metadata.closePaths ≤ bytes.length := by
    refine follows_count hconstants (by simp [boundaryMessages]) fun bindings _ => ?_
    refine follows_table bindings (by omega) fixed_readBindingRegister
      fun bindingRegisters hbindings => ?_
    refine follows_count (Nat.le_of_eq hupvalues) (by simp [boundaryMessages])
      fun upvalueCount _ => ?_
    let front := 0 + 4 + bindings.toNat * 10 + 4
    -- every upvalue takes five bytes of the room
    have hupvalue : ∀ (upvalues : List BytecodeUpvalue) (_ : Unit), Follows Inner Never
        (Room bytes.length (front + 5 * upvalues.length)) readUpvalue scanUpvalue
        fun upvalue _ => Room bytes.length (front + 5 * (upvalues ++ [upvalue]).length) := by
      intro upvalues _
      refine follows_readUpvalue.conseq (fun _ h => h) fun upvalue _ rest h => h.mono ?_
      rw [List.length_append, List.length_singleton]
      omega
    refine (Follows.loop hupvalue upvalueCount.toNat [] ()).bind fun upvalues _ => ?_
    refine Follows.of_pre fun hlen => ?_
    refine follows_count hconstants (by simp [boundaryMessages]) fun closeCount _ => ?_
    -- and every binding of a close path ten
    let I : List BytecodeClosePath → Nat → List UInt8 → Prop := fun closePaths acc rest =>
      acc = pathBindings closePaths
        ∧ Room bytes.length (front + 5 * upvalues.length + 4 + 10 * acc) rest
    have hclose : ∀ closePaths acc, Follows Inner Never (I closePaths acc) (readClosePath limits)
        (scanMetadataClose limits' acc) fun close acc' rest => I (closePaths ++ [close]) acc' rest := by
      intro closePaths acc
      refine Follows.of_pre fun hacc => ?_
      refine (follows_closeTotal hconstants hregisters hbytes (by omega)).conseq
        (fun _ h => h) ?_
      intro close total rest ⟨htotal, hroom⟩
      refine ⟨by rw [htotal, hacc, pathBindings_concat], hroom.mono ?_⟩
      omega
    refine Follows.bind ((Follows.loop hclose closeCount.toNat [] 0).conseq
      (fun rest h => ⟨rfl, h⟩) fun _ _ _ h => h) fun closePaths acc => ?_
    refine Follows.pure fun rest h => ?_
    obtain ⟨-, hacc, hroom⟩ := h
    simp only [List.nil_append, Room] at hacc hroom
    rw [hacc, ← hbindings, ← hlen]
    refine ⟨rfl, ?_⟩
    show 10 * bindingRegisters.length + 5 * upvalues.length + 10 * pathBindings closePaths ≤ _
    omega
  exact hread.runAt (by simp [Room]) base 0

end Metadata

/-! ### Prototype records -/

section Prototypes

variable {N c : Nat}

/-- The fields of a prototype in front of its sections, in the groups that the walk takes. -/
def readPrototypeHead : Read BytecodePrototype := do
  let names ← (do
    let id ← Reader.u32
    let function ← Reader.u32
    pure (id, function))
  let parent ← readOptionalProto
  let sizes ← (do
    let span ← readSpan
    let registerCount ← Reader.u16
    let parameterCount ← Reader.u16
    let isVariadic ← readFlag "RVLU vararg flag 無效"
    pure (span, registerCount, parameterCount, isVariadic))
  let namedVararg ← readOption readBindingRegister "RVLU named vararg flag 無效"
  let tops ← (do
    let registerLimit ← Reader.u16
    let initialTop ← Reader.u16
    let dynamicTop ← Reader.u16
    let returnBase ← Reader.u16
    let environment ← Reader.u16
    pure (registerLimit, initialTop, dynamicTop, returnBase, environment))
  let environmentSource ← readEnvironmentSource
  let globals ← (do
    let registersStartAsNil ← readFlag "RVLU frame nil flag 無效"
    let globalEnvironment ← Reader.u16
    let globalEnvironmentBinding ← readBinding
    pure (registersStartAsNil, globalEnvironment, globalEnvironmentBinding))
  pure ⟨names.1, names.2, parent, sizes.1, sizes.2.1, sizes.2.2.1, sizes.2.2.2, namedVararg,
    ⟨tops.1, tops.2.1, tops.2.2.1, tops.2.2.2.1, tops.2.2.2.2, environmentSource, globals.1⟩,
    globals.2.1, globals.2.2, [], [], [], [], []⟩

/-- The sections of a prototype, each decoded as soon as it is there. -/
def readPrototypeBody (limits : VerifyLimits) (head : BytecodePrototype) :
    Read BytecodePrototype := do
  let constantsSection ← Reader.section
  let constants ← compute (decodeConstants constantsSection.bytes limits constantsSection.start)
  let instructionsSection ← Reader.section
  let instructions ← compute
    (decodeInstructions instructionsSection.bytes limits instructionsSection.start)
  let metadataSection ← Reader.section
  let metadata ← compute (decodeMetadata metadataSection.bytes limits metadataSection.start)
  pure { head with
    bindingRegisters := metadata.bindingRegisters, constants := constants
    upvalues := metadata.upvalues, instructions := instructions
    closePaths := metadata.closePaths }

theorem readPrototype_eq (limits : VerifyLimits) :
    readPrototype limits = readPrototypeHead >>= readPrototypeBody limits := by
  simp only [readPrototype, readPrototypeHead, readPrototypeBody, readFrame, bind_assoc, pure_bind]

/-- The fields in front of the sections have the lengths that the walk takes. -/
theorem follows_readPrototypeHead :
    Follows Inner Never (Room N c) readPrototypeHead scanPrototypeHeader fun _ _ => Room N c := by
  refine (follows_skip (fixed_u32.bind fun _ => fixed_u32.bind fun _ => .pure _)
    (Nat.le_add_right c 8)).bind fun _ _ => ?_
  refine ((follows_readOption fixed_u32).conseq (fun _ h => h) fun _ _ _ h =>
    h.mono (Nat.le_add_right c 1)).bind fun _ _ => ?_
  refine (follows_skip (fixed_readSpan.bind fun _ => fixed_u16.bind fun _ => fixed_u16.bind
    fun _ => (fixed_readFlag (by simp [boundaryMessages])).bind fun _ => .pure _)
    (Nat.le_add_right c (16 + (2 + (2 + (1 + 0)))))).bind fun _ _ => ?_
  refine ((follows_readOption fixed_readBindingRegister).conseq (fun _ h => h) fun _ _ _ h =>
    h.mono (Nat.le_add_right c 1)).bind fun _ _ => ?_
  refine (follows_skip (fixed_u16.bind fun _ => fixed_u16.bind fun _ => fixed_u16.bind fun _ =>
    fixed_u16.bind fun _ => fixed_u16.bind fun _ => .pure _)
    (Nat.le_add_right c 10)).bind fun _ _ => ?_
  refine (follows_readEnvironmentSource.conseq (fun _ h => h) fun _ _ _ h =>
    h.mono (Nat.le_add_right c 1)).bind fun _ _ => ?_
  exact follows_skip ((((fixed_readFlag (by simp [boundaryMessages])).bind fun _ =>
    fixed_u16.bind fun _ => fixed_readBinding.bind fun _ => .pure _)).bind fun _ => .pure _)
    (by omega)

/-- What the walk counts in the sections of a record. -/
structure RecordCounts where
  constants : Nat
  instructions : Nat
  inlineClose : Nat
  bindings : Nat
  upvalues : Nat
  metadataClose : Nat

/-- The walk over a record, each section scanned as soon as it is there. -/
def scanParts (limits : VerifyLimits) : Scan RecordCounts := do
  scanPrototypeHeader
  let constantsSection ← «section»
  let constants ← compute (scanConstants constantsSection limits)
  let instructionsSection ← «section»
  let instructions ← compute (scanInstructions instructionsSection limits)
  let metadataSection ← «section»
  let metadata ← compute (scanMetadata metadataSection limits)
  pure ⟨constants, instructions.1, instructions.2, metadata.1, metadata.2.1, metadata.2.2⟩

/-- The counts of a record, and how long it has to be for them. -/
def RecordCounts.Of (prototype : BytecodePrototype) (size : Nat) (counts : RecordCounts) : Prop :=
  counts.constants = prototype.constants.length ∧ counts.constants ≤ size
    ∧ counts.instructions = prototype.instructions.length
    ∧ 10 * (counts.instructions + counts.inlineClose) + (10 * counts.bindings
      + 5 * counts.upvalues + 10 * counts.metadataClose) ≤ size

/-- **A prototype record** and the walk over it. -/
theorem agree_decodePrototype {limits limits' : VerifyLimits}
    (hinstructions : limits.maxInstructions ≤ limits'.maxInstructions)
    (hconstants : limits.maxConstants ≤ limits'.maxConstants)
    (hregisters : limits.maxRegisters = limits'.maxRegisters)
    (hupvalues : limits.maxUpvaluesPerPrototype = limits'.maxUpvaluesPerPrototype)
    {bytes : List UInt8} (base : Nat) :
    Agree Inner Never (decodePrototype bytes limits base) (runSection (scanParts limits') bytes)
      fun prototype counts => counts.Of prototype bytes.length
        ∧ counts.constants ≤ limits.maxConstants
        ∧ counts.instructions ≤ limits.maxInstructions := by
  have hread : Follows Inner Never (Room bytes.length 0) (readPrototype limits) (scanParts limits')
      fun prototype counts _ => counts.Of prototype bytes.length
        ∧ counts.constants ≤ limits.maxConstants
        ∧ counts.instructions ≤ limits.maxInstructions := by
    rw [readPrototype_eq]
    refine follows_readPrototypeHead.bind fun head _ => ?_
    refine follows_section.bind fun constantsSection constants => Follows.of_pre fun hcs => ?_
    obtain ⟨rfl, -⟩ := hcs
    refine Follows.bind (Follows.compute fun rest hrest =>
      (agree_decodeConstants hconstants _ _).conseq fun _ _ h => And.intro h hrest)
      fun constants constantCount => Follows.of_pre fun hconstant => ?_
    refine follows_section.bind fun instructionsSection instructions =>
      Follows.of_pre fun his => ?_
    obtain ⟨rfl, hi⟩ := his
    refine Follows.bind (Follows.compute fun rest hrest =>
      (agree_decodeInstructions hinstructions hconstants hregisters
        (by simp only [usizeMax]; omega) _).conseq fun _ _ h => And.intro h hrest)
      fun instructions instructionCounts => Follows.of_pre fun hinstruction => ?_
    refine follows_section.bind fun metadataSection metadata => Follows.of_pre fun hms => ?_
    obtain ⟨rfl, hm⟩ := hms
    refine Follows.bind (Follows.compute fun rest hrest =>
      (agree_decodeMetadata hconstants hregisters hupvalues
        (by simp only [usizeMax]; omega) _).conseq fun _ _ h => And.intro h hrest)
      fun metadata metadataCounts => Follows.of_pre fun hmetadata => ?_
    refine Follows.pure fun rest hroom => ?_
    obtain ⟨hlen, hle, hcbytes⟩ := hconstant
    obtain ⟨rfl, hile, hibytes⟩ := hinstruction
    obtain ⟨rfl, hmbytes⟩ := hmetadata
    simp only [Room] at hroom
    have hconstant : constantCount ≤ bytes.length := by omega
    refine ⟨⟨hlen, hconstant, rfl, ?_⟩, hle, hile⟩
    show 10 * (instructions.length + inlineClose instructions)
      + (10 * metadata.bindingRegisters.length + 5 * metadata.upvalues.length
        + 10 * pathBindings metadata.closePaths) ≤ bytes.length
    omega
  exact hread.runAt (by simp [Room]) base 0

/-- The counts behind a record, computed when all of its sections have been scanned. -/
def addCounts (limits : VerifyLimits) (stats : RvluCounts) (counts : RecordCounts) :
    Except TransportError RvluCounts := do
  let constants ← checkedAdd stats.constants counts.constants
  let instructions ← checkedAdd stats.instructions counts.instructions
  let close ← checkedAdd counts.inlineClose counts.metadataClose
  let work ← metadataWork counts.bindings counts.upvalues counts.instructions close
  let metadataQuadratic ← checkedAdd stats.metadataQuadratic work
  Check.reject (limits.maxConstants < constants ∨ limits.maxInstructions < instructions)
    (limit "RVLU instruction/constant count 超限")
  .ok ⟨stats.prototypes, instructions, constants, metadataQuadratic⟩

theorem compute_eq_ok {ε α : Type} {x : Except ε α} {i t : Input} {a : α} :
    compute x i = .ok (a, t) ↔ x = .ok a ∧ t = i := by
  cases x <;> simp [compute, eq_comm]

/-- The sections may as well be scanned when the whole record has been walked over. -/
theorem scanParts_eq_ok {limits : VerifyLimits} {record : List UInt8} {counts : RecordCounts} :
    runSection (scanParts limits) record = .ok counts ↔
      ∃ sections, runSection scanPrototypeSections record = .ok sections
        ∧ scanConstants sections.constants limits = .ok counts.constants
        ∧ scanInstructions sections.instructions limits
          = .ok (counts.instructions, counts.inlineClose)
        ∧ scanMetadata sections.metadata limits
          = .ok (counts.bindings, counts.upvalues, counts.metadataClose) := by
  simp only [runSection, runAt_finished_eq_ok, scanParts, scanPrototypeSections, bind_eq_ok,
    compute_eq_ok, pure_eq_ok]
  constructor
  · rintro ⟨t, ⟨_, i₁, hhead, constants, i₂, hconstants, _, _, ⟨hc, rfl⟩, instructions, i₃,
      hinstructions, _, _, ⟨hi, rfl⟩, metadata, i₄, hmetadata, _, _, ⟨hm, rfl⟩, rfl, rfl⟩, hend⟩
    exact ⟨⟨constants, instructions, metadata⟩, ⟨_, ⟨_, i₁, hhead, constants, _, hconstants,
      instructions, _, hinstructions, metadata, _, hmetadata, rfl, rfl⟩, hend⟩, hc, hi, hm⟩
  · rintro ⟨_, ⟨t, ⟨_, i₁, hhead, constants, i₂, hconstants, instructions, i₃, hinstructions,
      metadata, i₄, hmetadata, rfl, rfl⟩, hend⟩, hc, hi, hm⟩
    exact ⟨_, ⟨_, i₁, hhead, constants, i₂, hconstants, _, _, ⟨hc, rfl⟩, instructions, i₃,
      hinstructions, _, _, ⟨hi, rfl⟩, metadata, _, hmetadata, _, _, ⟨hm, rfl⟩, rfl, rfl⟩, hend⟩

/-- A record is accepted whichever way its sections are scanned. -/
theorem scanRecord_eq_ok {limits : VerifyLimits} {record : List UInt8} {stats stats' : RvluCounts} :
    scanRecord limits record stats = .ok stats' ↔
      (runSection (scanParts limits) record >>= addCounts limits stats) = .ok stats' := by
  simp only [scanRecord, addCounts, Check.bind_eq_ok, scanParts_eq_ok]
  constructor
  · rintro ⟨sections, hsections, c, hc, constants, hconstants, ⟨i, inl⟩, hi, instructions,
      hinstructions, ⟨b, u, mc⟩, hm, rest⟩
    exact ⟨⟨c, i, inl, b, u, mc⟩, ⟨sections, hsections, hc, hi, hm⟩, constants, hconstants,
      instructions, hinstructions, rest⟩
  · rintro ⟨counts, ⟨sections, hsections, hc, hi, hm⟩, constants, hconstants, instructions,
      hinstructions, rest⟩
    exact ⟨sections, hsections, _, hc, constants, hconstants, _, hi, instructions, hinstructions,
      _, hm, rest⟩

theorem checkedMul_of_le {left right : Nat} (h : left * right ≤ usizeMax) :
    checkedMul left right = .ok (left * right) :=
  if_neg (by omega)

/-- The work of a record is at most the square of its length. -/
theorem metadataWork_ok (bindings upvalues instructions close : Nat) {size : Nat}
    (hsize : size < 2 ^ 32)
    (hb : 10 * (bindings + close) ≤ size) (hi : 10 * (instructions + close) ≤ size)
    (hu : 5 * upvalues ≤ size) :
    ∃ work, metadataWork bindings upvalues instructions close = .ok work ∧ work ≤ size * size := by
  have hsquare : size * size ≤ (2 ^ 32 - 1) * (2 ^ 32 - 1) := Nat.mul_le_mul (by omega) (by omega)
  have hb' := Nat.mul_le_mul hb hb
  have hi' := Nat.mul_le_mul hi hi
  have hu' := Nat.mul_le_mul hu hu
  have hbsq : 10 * (bindings + close) * (10 * (bindings + close))
      = 100 * ((bindings + close) * (bindings + close)) := by
    rw [Nat.mul_mul_mul_comm]
  have hisq : 10 * (instructions + close) * (10 * (instructions + close))
      = 100 * ((instructions + close) * (instructions + close)) := by
    rw [Nat.mul_mul_mul_comm]
  have husq : 5 * upvalues * (5 * upvalues) = 25 * (upvalues * upvalues) := by
    rw [Nat.mul_mul_mul_comm]
  rw [hbsq] at hb'
  rw [hisq] at hi'
  rw [husq] at hu'
  have hmax : usizeMax = 2 ^ 64 - 1 := rfl
  refine ⟨(bindings + close) * (bindings + close) + upvalues * upvalues
    + (instructions + close) * (instructions + close), ?_, by omega⟩
  have hbc : bindings + close ≤ usizeMax := by omega
  have hic : instructions + close ≤ usizeMax := by omega
  have hbb : (bindings + close) * (bindings + close) ≤ usizeMax := by omega
  have huu : upvalues * upvalues ≤ usizeMax := by omega
  have hii : (instructions + close) * (instructions + close) ≤ usizeMax := by omega
  simp only [metadataWork, checkedAdd_of_le hbc, checkedAdd_of_le hic, Check.ok_bind,
    checkedMul_of_le hbb, checkedMul_of_le huu, checkedMul_of_le hii]
  rw [checkedAdd_of_le (by omega), Check.ok_bind]
  exact checkedAdd_of_le (by omega)

/-- The counts of the records in front, `q` bytes of them. -/
def RvluCounts.Within (stats : RvluCounts) (q : Nat) : Prop :=
  stats.constants ≤ q ∧ stats.instructions ≤ q ∧ stats.metadataQuadratic ≤ q * q

/-- Counting a record that the decoder accepts does not fail. -/
theorem addCounts_ok {limits : VerifyLimits} {stats : RvluCounts} {counts : RecordCounts}
    {prototype : BytecodePrototype} {q size : Nat} (hsize : q + size < 2 ^ 32)
    (hwithin : stats.Within q) (hof : counts.Of prototype size)
    (hconstants : stats.constants + counts.constants ≤ limits.maxConstants)
    (hinstructions : stats.instructions + counts.instructions ≤ limits.maxInstructions) :
    ∃ stats', addCounts limits stats counts = .ok stats'
      ∧ stats'.prototypes = stats.prototypes
      ∧ stats'.constants = stats.constants + prototype.constants.length
      ∧ stats'.instructions = stats.instructions + prototype.instructions.length
      ∧ stats'.Within (q + size) := by
  obtain ⟨hc, hi, hquad⟩ := hwithin
  obtain ⟨hclen, hcsize, hilen, hroom⟩ := hof
  have hmax : usizeMax = 2 ^ 64 - 1 := rfl
  obtain ⟨work, hwork, hle⟩ := metadataWork_ok counts.bindings counts.upvalues
    counts.instructions (counts.inlineClose + counts.metadataClose) (show size < 2 ^ 32 by omega)
    (by omega) (by omega) (by omega)
  have hsum : q * q + size * size ≤ (q + size) * (q + size) := by
    rw [Nat.add_mul, Nat.mul_add, Nat.mul_add]
    omega
  have hsquare : (q + size) * (q + size) ≤ (2 ^ 32 - 1) * (2 ^ 32 - 1) :=
    Nat.mul_le_mul (by omega) (by omega)
  refine ⟨⟨stats.prototypes, stats.instructions + counts.instructions,
    stats.constants + counts.constants, stats.metadataQuadratic + work⟩, ?_, rfl, ?_, ?_, ?_⟩
  · rw [addCounts, checkedAdd_of_le (by omega), Check.ok_bind, checkedAdd_of_le (by omega),
      Check.ok_bind, checkedAdd_of_le (by omega), Check.ok_bind, hwork, Check.ok_bind,
      checkedAdd_of_le (by omega), Check.ok_bind, Check.reject_bind_of_not (by omega)]
  · rw [← hclen]
  · rw [← hilen]
  · refine ⟨?_, ?_, ?_⟩
    · show stats.constants + counts.constants ≤ q + size
      omega
    · show stats.instructions + counts.instructions ≤ q + size
      omega
    · show stats.metadataQuadratic + work ≤ (q + size) * (q + size)
      omega

/-- Only what the right side accepts matters when it is not allowed to fail. -/
theorem agree_congr {α β : Type} {x : Except BytecodeError α} {y y' : Except TransportError β}
    {R : α → β → Prop} (h : Agree Inner Never x y R) (hy : ∀ b, y' = .ok b ↔ y = .ok b) :
    Agree Inner Never x y' R := by
  rcases x with e | a
  · rcases y' with e' | b
    · trivial
    · obtain rfl := (hy b).mp rfl
      exact h
  · rcases y with e | b
    · exact h.elim
    · obtain rfl := (hy b).mpr rfl
      exact h

/-- **A record** behind others: the decoder accepts it only if the walk does, and the counts
    follow. -/
theorem agree_decodeRecord {limits : VerifyLimits} {stats : RvluCounts} {bytes : List UInt8}
    {q : Nat} (hsize : q + bytes.length < 2 ^ 32) (hwithin : stats.Within q) (start : Nat) :
    Agree Inner Never (decodeRecord limits stats.instructions stats.constants bytes start)
      (scanRecord limits bytes stats)
      fun prototype stats' => stats'.prototypes = stats.prototypes
        ∧ stats'.constants = stats.constants + prototype.constants.length
        ∧ stats'.instructions = stats.instructions + prototype.instructions.length
        ∧ stats'.Within (q + bytes.length) := by
  by_cases hi : limits.maxInstructions < stats.instructions
  · rw [decodeRecord, Check.reject_bind_of hi]
    exact Agree.error_left (by simp [Inner, Bytecode.limit, boundaryMessages])
  by_cases hc : limits.maxConstants < stats.constants
  · rw [decodeRecord, Check.reject_bind_of_not hi, Check.reject_bind_of hc]
    exact Agree.error_left (by simp [Inner, Bytecode.limit, boundaryMessages])
  rw [decodeRecord, Check.reject_bind_of_not hi, Check.reject_bind_of_not hc]
  refine agree_congr ?_ fun _ => scanRecord_eq_ok
  rw [← bind_pure (decodePrototype bytes _ start)]
  have hi' : (limits.bounded stats.instructions stats.constants).maxInstructions
      ≤ limits.maxInstructions := Nat.sub_le ..
  have hc' : (limits.bounded stats.instructions stats.constants).maxConstants
      ≤ limits.maxConstants := Nat.sub_le ..
  refine (agree_decodePrototype hi' hc' rfl rfl start).bind fun prototype counts h => ?_
  obtain ⟨hof, hconstants, hinstructions⟩ := h
  simp only [VerifyLimits.bounded] at hconstants hinstructions
  obtain ⟨stats', hadd, hstats⟩ := addCounts_ok hsize hwithin hof
    (show _ ≤ limits.maxConstants by omega) (show _ ≤ limits.maxInstructions by omega)
  rw [hadd]
  exact Agree.ok hstats

end Prototypes

/-! ### Modules -/

/-- The instructions of all prototypes. -/
def instructionCount (prototypes : List BytecodePrototype) : Nat :=
  (prototypes.map fun prototype => prototype.instructions.length).sum

/-- The constants of all prototypes. -/
def constantCount (prototypes : List BytecodePrototype) : Nat :=
  (prototypes.map fun prototype => prototype.constants.length).sum

/-- **The loop over the records**, with the totals of the records in front. -/
theorem follows_readPrototypes {limits : VerifyLimits} {N : Nat} (hN : N < 2 ^ 32) (count q : Nat)
    (stats : RvluCounts) (hwithin : stats.Within q) :
    Follows Inner Never (Room N q)
      (readPrototypes limits count stats.instructions stats.constants)
      (iterate (scanPrototype limits) count stats)
      fun prototypes stats' _ => prototypes.length = count
        ∧ stats'.prototypes = stats.prototypes
        ∧ stats'.constants = stats.constants + constantCount prototypes
        ∧ stats'.instructions = stats.instructions + instructionCount prototypes := by
  induction count generalizing q stats with
  | zero => exact Follows.pure fun _ _ => ⟨rfl, rfl, rfl, rfl⟩
  | succ count ih =>
    refine Follows.pair_left (Follows.bind (R := fun record stats' rest =>
      (stats'.prototypes = stats.prototypes
        ∧ stats'.constants = stats.constants + record.2.constants.length
        ∧ stats'.instructions = stats.instructions + record.2.instructions.length
        ∧ stats'.Within (q + record.1.bytes.length))
      ∧ Room N (q + record.1.bytes.length) rest) ?_ fun record stats' => ?_)
    · refine follows_section.bind fun record bytes => Follows.of_pre fun hrecord => ?_
      obtain ⟨rfl, -⟩ := hrecord
      refine (Follows.compute fun rest hroom => ?_).map_left fun _ _ _ h => h
      have hsize : q + record.bytes.length < 2 ^ 32 := by
        simp only [Room] at hroom
        omega
      exact (agree_decodeRecord hsize hwithin record.start).conseq fun _ _ h => ⟨h, hroom⟩
    · refine Follows.of_pre fun hstats => ?_
      obtain ⟨hprototypes, hconstants, hinstructions, hwithin'⟩ := hstats
      rw [← hconstants, ← hinstructions]
      refine (ih _ stats' hwithin').map_left ?_
      intro rest stats'' _ ⟨hlen, hp, hc, hi⟩
      refine ⟨by rw [List.length_cons, hlen], hp.trans hprototypes, ?_, ?_⟩
      · rw [hc, hconstants, constantCount, constantCount, List.map_cons, List.sum_cons,
          Nat.add_assoc]
      · rw [hi, hinstructions, instructionCount, instructionCount, List.map_cons, List.sum_cons,
          Nat.add_assoc]

/-- **The scan agrees with the decoder**, up to what the verifier says about the module. -/
theorem agree_decodePrototypes {limits : VerifyLimits} {bytes : List UInt8}
    (hbytes : bytes.length < 2 ^ 32) (base : Nat) :
    Agree Inner Never (decodePrototypes bytes limits base) (scanPrototypes bytes limits)
      fun prototypes stats => stats.prototypes = prototypes.length
        ∧ stats.constants = constantCount prototypes
        ∧ stats.instructions = instructionCount prototypes := by
  have hread : Follows Inner Never (Room bytes.length 0)
      (do
        let count ← Reader.count limits.maxPrototypes "RVLU prototype 數超過限制"
        readPrototypes limits count 0 0)
      (do
        let count ← u32
        reject (limits.maxPrototypes < count.toNat) (limit "RVLU prototype count 超限")
        iterate (scanPrototype limits) count.toNat ⟨count.toNat, 0, 0, 0⟩)
      fun prototypes stats _ => stats.prototypes = prototypes.length
        ∧ stats.constants = constantCount prototypes
        ∧ stats.instructions = instructionCount prototypes := by
    refine follows_count (Nat.le_refl _) (by simp [boundaryMessages]) fun count _ => ?_
    refine (follows_readPrototypes hbytes count.toNat (0 + 4) ⟨count.toNat, 0, 0, 0⟩
      ⟨Nat.zero_le _, Nat.zero_le _, Nat.zero_le _⟩).conseq (fun _ h => h) ?_
    intro prototypes stats rest ⟨hlen, hprototypes, hconstants, hinstructions⟩
    refine ⟨hprototypes.trans hlen.symm, ?_, ?_⟩
    · rw [hconstants, Nat.zero_add]
    · rw [hinstructions, Nat.zero_add]
  exact hread.runAt (by simp [Room]) base 0

/-- The header of a module and the walk over it. -/
theorem follows_readModuleHeader {N : Nat} (profile : LuaProfile) :
    Follows Inner Never (Room N 0) (readModuleHeader profile) (scanModuleHeader profile)
      fun header bytes _ => bytes = header.prototypeSection.bytes ∧ bytes.length < 2 ^ 32 := by
  have hcheck : ∀ message, message ∉ boundaryMessages → ∀ offset, Inner (verify offset message) :=
    fun _ h _ => h
  refine Follows.bind (R := fun magic magic' rest => magic' = magic ∧ Room N 0 rest)
    (Follows.take fun front back hroom hlen => ⟨rfl, ?_⟩) fun magic magic' => ?_
  · simp only [Room, List.length_append] at hroom ⊢
    omega
  refine Follows.of_pre fun hmagic => ?_
  subst hmagic
  refine Follows.reject_left (fun _ => hcheck _ (by simp [boundaryMessages]) _) fun hmagic => ?_
  refine Follows.reject_right (fun h => absurd h hmagic) fun _ => ?_
  refine follows_u16.bind fun version version' => Follows.of_pre fun hversion => ?_
  subst hversion
  refine Follows.reject_left (fun _ => hcheck _ (by simp [boundaryMessages]) _) fun _ => ?_
  refine Follows.reject_left (fun _ => hcheck _ (by simp [boundaryMessages]) _) fun hversion => ?_
  refine Follows.reject_right (fun h => absurd h hversion) fun _ => ?_
  rw [readTag, bind_assoc]
  refine follows_u8.bind fun tag tag' => Follows.of_pre fun htag => ?_
  subst htag
  refine Follows.compute_left (fun e he => inner_parseProfile he) fun found hfound => ?_
  refine Follows.reject_left (fun _ => hcheck _ (by simp [boundaryMessages]) _) fun hprofile => ?_
  refine Follows.reject_right (fun h => h ?_) fun _ => ?_
  · have hsame : found = profile := by simpa using hprofile
    subst hsame
    unfold parseProfile at hfound
    split at hfound
    · cases hfound
      rfl
    · cases hfound
      rfl
    · cases hfound
  refine follows_u8.bind fun numeric numeric' => Follows.of_pre fun hnumeric => ?_
  subst hnumeric
  refine Follows.reject_left (fun _ => hcheck _ (by simp [boundaryMessages]) _) fun hnumeric => ?_
  refine Follows.reject_right (fun h => absurd h hnumeric) fun _ => ?_
  refine (follows_skip fixed_readSpan (Nat.le_refl _)).bind fun span _ => ?_
  exact follows_section.map_left fun _ _ _ h => h.1

/-- `decode_module` up to the verifier: everything that looks at the bytes. -/
def readModule (bytes : List UInt8) (expectedProfile : LuaProfile) (limits : VerifyLimits) :
    Except BytecodeError BytecodeModule := do
  Check.reject (limits.maxModuleBytes < bytes.length)
    (Bytecode.limit 0 "RVLU module bytes 超過限制")
  let header ← runAt (do
    let header ← readModuleHeader expectedProfile
    finished fun position => verify position "RVLU module 有未宣告尾端 bytes"
    pure header) bytes 0
  let prototypes ← decodePrototypes header.prototypeSection.bytes limits
    header.prototypeSection.start
  .ok (header.module prototypes)

theorem decodeModule_eq (alloc : Allocator) (bytes : List UInt8) (profile : LuaProfile)
    (limits : VerifyLimits) :
    decodeModule alloc bytes profile limits
      = readModule bytes profile limits >>= fun module => verifyModule alloc module profile limits := by
  simp only [decodeModule, readModule, bind_assoc, Check.ok_bind]

/-- **The scan agrees with what the decoder reads.** -/
theorem agree_readModule (bytes : List UInt8) (profile : LuaProfile) (limits : VerifyLimits) :
    Agree Inner Never (readModule bytes profile limits) (scanRvlu bytes profile limits)
      fun module counts => counts.prototypes = module.prototypes.length
        ∧ counts.constants = constantCount module.prototypes
        ∧ counts.instructions = instructionCount module.prototypes := by
  by_cases hsize : limits.maxModuleBytes < bytes.length
  · rw [readModule, Check.reject_bind_of hsize]
    exact Agree.error_left (by simp [Inner, Bytecode.limit, boundaryMessages])
  rw [readModule, Check.reject_bind_of_not hsize, scanRvlu, Check.reject_bind_of_not hsize]
  have hroom : Room bytes.length 0 bytes := by simp [Room]
  refine ((follows_readModuleHeader profile).runAt hroom 0 0).bind ?_
  intro header section' ⟨hsection, hlen⟩
  subst hsection
  rw [← bind_pure (scanPrototypes _ limits)]
  refine (agree_decodePrototypes hlen header.prototypeSection.start).bind ?_
  intro prototypes stats hstats
  exact Agree.ok hstats

end RivetLua.Bytecode.Transport
