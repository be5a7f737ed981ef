import RivetLua.Bytecode.BoundedCodec
import RivetLua.Bytecode.RoundTrip
import RivetLua.Bytecode.Transport

namespace RivetLua.Bytecode.Transport

open RivetLua.Core Wire

/-!
# Bytecode — the bound on the bytes of a module

The transport announces a bound before it encodes: a sum of constants, one for each record.

* `bytecodeWireUpperBytes` — the bound;
* `emitModule_size` — the pieces of a module are not longer;
* `emitModule_stops` — the errors the encoder stops with by itself;
* `encodeModule_length_le`, `encodeBounded_benign` — so the bytes of a module fit, and the bounded
  writer never goes over its bound.
-/

/-! ### The bound -/

/-- Add up over a list, from left to right. -/
def addEach {α : Type} (amount : α → Except TransportError Nat) :
    List α → Nat → Except TransportError Nat
  | [], total => .ok total
  | a :: as, total => do
    let n ← amount a
    let total ← checkedAdd total n
    addEach amount as total

/-- `close_wire_upper`. -/
def closeWireUpper (close : BytecodeClosePath) : Except TransportError Nat := do
  let bindings ← checkedMul close.bindings.length 8
  let total ← checkedAdd 40 bindings
  let registers ← checkedMul close.registers.length 2
  checkedAdd total registers

/-- What a constant adds. -/
def constantWireUpper : BytecodeConstant → Except TransportError Nat
  | .integer _ | .floatBits _ => .ok 9
  | .boolean _ => .ok 2
  | .name bytes | .string bytes => checkedAdd 5 bytes.length

/-- The close paths of instructions. -/
def closePathsOf (instructions : List BytecodeInstruction) : List BytecodeClosePath :=
  instructions.filterMap BytecodeInstruction.closePath

/-- The loop body of `bytecode_wire_upper_bytes`. -/
def prototypeWireUpper (prototype : BytecodePrototype) (size : Nat) :
    Except TransportError Nat := do
  let size ← checkedAdd size (4 + 128)
  let size ← addEach constantWireUpper prototype.constants size
  let instructions ← checkedMul prototype.instructions.length 40
  let size ← checkedAdd size instructions
  let size ← addEach closeWireUpper (closePathsOf prototype.instructions) size
  let bindings ← checkedMul prototype.bindingRegisters.length 10
  let size ← checkedAdd size bindings
  let upvalues ← checkedMul prototype.upvalues.length 11
  let size ← checkedAdd size upvalues
  addEach closeWireUpper prototype.closePaths size

/-- The loop of `bytecode_wire_upper_bytes`. -/
def prototypesWireUpper : List BytecodePrototype → Nat → Except TransportError Nat
  | [], size => .ok size
  | prototype :: rest, size => do
    let size ← prototypeWireUpper prototype size
    prototypesWireUpper rest size

/-- `bytecode_wire_upper_bytes`. -/
def bytecodeWireUpperBytes (module : BytecodeModule) : Except TransportError Nat :=
  prototypesWireUpper module.prototypes 32

theorem checkedAdd_eq {left right sum : Nat} (h : checkedAdd left right = .ok sum) :
    sum = left + right ∧ sum ≤ usizeMax := by
  unfold checkedAdd at h
  split at h
  · cases h
  · cases h
    exact ⟨rfl, by omega⟩

theorem checkedMul_eq {left right product : Nat} (h : checkedMul left right = .ok product) :
    product = left * right := by
  unfold checkedMul at h
  split at h
  · cases h
  · cases h
    rfl

theorem addEach_eq {α : Type} {amount : α → Except TransportError Nat} {exact : α → Nat}
    (hamount : ∀ a n, amount a = .ok n → n = exact a) {as : List α} {start total : Nat}
    (h : addEach amount as start = .ok total) : total = start + (as.map exact).sum := by
  induction as generalizing start with
  | nil =>
    cases h
    rfl
  | cons a as ih =>
    obtain ⟨n, hn, h⟩ := Check.bind_eq_ok.mp h
    obtain ⟨next, hnext, h⟩ := Check.bind_eq_ok.mp h
    have hrest := ih h
    have hsum := (checkedAdd_eq hnext).1
    have hfirst := hamount a n hn
    rw [List.map_cons, List.sum_cons]
    omega

/-- What a close path may take. -/
def closeUpper (close : BytecodeClosePath) : Nat :=
  40 + close.bindings.length * 8 + close.registers.length * 2

/-- What a constant may take. -/
def constantUpper : BytecodeConstant → Nat
  | .integer _ | .floatBits _ => 9
  | .boolean _ => 2
  | .name bytes | .string bytes => 5 + bytes.length

/-- What a prototype may take. -/
def prototypeUpper (prototype : BytecodePrototype) : Nat :=
  132 + (prototype.constants.map constantUpper).sum + prototype.instructions.length * 40
    + ((closePathsOf prototype.instructions).map closeUpper).sum
    + prototype.bindingRegisters.length * 10 + prototype.upvalues.length * 11
    + (prototype.closePaths.map closeUpper).sum

theorem closeWireUpper_eq (close : BytecodeClosePath) (n : Nat) (h : closeWireUpper close = .ok n) :
    n = closeUpper close := by
  obtain ⟨bindings, hbindings, h⟩ := Check.bind_eq_ok.mp h
  obtain ⟨total, htotal, h⟩ := Check.bind_eq_ok.mp h
  obtain ⟨registers, hregisters, h⟩ := Check.bind_eq_ok.mp h
  have := checkedMul_eq hbindings
  have := (checkedAdd_eq htotal).1
  have := checkedMul_eq hregisters
  have := (checkedAdd_eq h).1
  unfold closeUpper
  omega

theorem constantWireUpper_eq (constant : BytecodeConstant) (n : Nat)
    (h : constantWireUpper constant = .ok n) : n = constantUpper constant := by
  cases constant with
  | integer | floatBits | boolean =>
    cases h
    rfl
  | name | string => exact (checkedAdd_eq h).1

theorem prototypeWireUpper_eq {prototype : BytecodePrototype} {start total : Nat}
    (h : prototypeWireUpper prototype start = .ok total) :
    total = start + prototypeUpper prototype := by
  obtain ⟨s₁, h₁, h⟩ := Check.bind_eq_ok.mp h
  obtain ⟨s₂, h₂, h⟩ := Check.bind_eq_ok.mp h
  obtain ⟨instructions, hinstructions, h⟩ := Check.bind_eq_ok.mp h
  obtain ⟨s₃, h₃, h⟩ := Check.bind_eq_ok.mp h
  obtain ⟨s₄, h₄, h⟩ := Check.bind_eq_ok.mp h
  obtain ⟨bindings, hbindings, h⟩ := Check.bind_eq_ok.mp h
  obtain ⟨s₅, h₅, h⟩ := Check.bind_eq_ok.mp h
  obtain ⟨upvalues, hupvalues, h⟩ := Check.bind_eq_ok.mp h
  obtain ⟨s₆, h₆, h⟩ := Check.bind_eq_ok.mp h
  have := (checkedAdd_eq h₁).1
  have := addEach_eq constantWireUpper_eq h₂
  have := checkedMul_eq hinstructions
  have := (checkedAdd_eq h₃).1
  have := addEach_eq closeWireUpper_eq h₄
  have := checkedMul_eq hbindings
  have := (checkedAdd_eq h₅).1
  have := checkedMul_eq hupvalues
  have := (checkedAdd_eq h₆).1
  have := addEach_eq closeWireUpper_eq h
  unfold prototypeUpper
  omega

theorem bytecodeWireUpperBytes_eq {module : BytecodeModule} {upper : Nat}
    (h : bytecodeWireUpperBytes module = .ok upper) :
    upper = 32 + (module.prototypes.map prototypeUpper).sum := by
  unfold bytecodeWireUpperBytes at h
  generalize 32 = start at h ⊢
  generalize module.prototypes = prototypes at h ⊢
  induction prototypes generalizing start with
  | nil =>
    cases h
    rfl
  | cons prototype rest ih =>
    obtain ⟨size, hsize, h⟩ := Check.bind_eq_ok.mp h
    have := prototypeWireUpper_eq hsize
    have := ih size h
    rw [List.map_cons, List.sum_cons]
    omega

/-! ### The size of the pieces -/

section Size

/-- A bound on one part and one on the rest. -/
theorem size_append {x y : Emit} {m n : Nat} (hx : x.size ≤ m) (hy : y.size ≤ n) :
    (x ++ y).size ≤ m + n :=
  Nat.le_trans (Emission.size_append_le x y) (Nat.add_le_add hx hy)

theorem size_u8 (value : UInt8) : (Emit.u8 value).size ≤ 1 := Nat.le_refl 1

theorem size_u16 (value : UInt16) : (Emit.u16 value).size ≤ 2 := Nat.le_refl 2

theorem size_u32 (value : UInt32) : (Emit.u32 value).size ≤ 4 := Nat.le_refl 4

theorem size_u64 (value : UInt64) : (Emit.u64 value).size ≤ 8 := Nat.le_refl 8

theorem size_length (value : Nat) (message : String) : (Emit.length value message).size ≤ 4 := by
  unfold Emit.length
  split
  · exact Nat.le_refl 4
  · exact Nat.zero_le 4

theorem size_reject (c : Prop) [Decidable c] (e : BytecodeError) : (Emit.reject c e).size ≤ 0 := by
  unfold Emit.reject
  split <;> exact Nat.le_refl 0

theorem size_blob (value : List UInt8) : (Emit.blob value).size ≤ 4 + value.length :=
  size_append (size_length _ _) (Nat.le_refl _)

theorem size_list {α : Type} {emit : α → Emit} {bound : α → Nat} (h : ∀ a, (emit a).size ≤ bound a)
    (items : List α) (message : String) :
    (Emit.list emit items message).size ≤ 4 + (items.map bound).sum :=
  size_append (size_length _ _) (Emission.size_each_le fun a _ => h a)

theorem sum_const {α : Type} (n : Nat) (items : List α) :
    (items.map fun _ => n).sum = items.length * n := by
  induction items with
  | nil => exact (Nat.zero_mul n).symm
  | cons a as ih => rw [List.map_cons, List.sum_cons, ih, List.length_cons, Nat.succ_mul, Nat.add_comm]

/-- A list of records of one size. -/
theorem size_list_const {α : Type} {emit : α → Emit} {n : Nat} (h : ∀ a, (emit a).size ≤ n)
    (items : List α) (message : String) :
    (Emit.list emit items message).size ≤ 4 + items.length * n := by
  have hlist := size_list h items message
  rwa [sum_const] at hlist

theorem size_section {body : Emit} {n : Nat} (h : body.size ≤ n) (message : String) :
    (Emit.section body message).size ≤ 4 + n :=
  Nat.add_le_add_left h 4

theorem size_option {α : Type} {emit : α → Emit} {bound : α → Nat}
    (h : ∀ a, (emit a).size ≤ bound a) (value : Option α) :
    (Emit.option emit value).size ≤ 1 + (value.map bound).getD 0 := by
  cases value with
  | none => exact Nat.le_refl 1
  | some a => exact size_append (size_u8 1) (h a)

theorem size_span (span : BytecodeSpan) : (emitSpan span).size ≤ 16 :=
  size_append (size_u64 _) (size_u64 _)

theorem size_flag (value : Bool) : (emitFlag value).size ≤ 1 := Nat.le_refl 1

theorem size_binding (binding : BytecodeBindingId) : (emitBinding binding).size ≤ 8 :=
  size_append (size_u32 _) (size_u32 _)

theorem size_bindingRegister (entry : BytecodeBindingId × Register) :
    (emitBindingRegister entry).size ≤ 10 :=
  size_append (size_binding _) (size_u16 _)

theorem size_closePath (close : BytecodeClosePath) : (emitClosePath close).size ≤ closeUpper close := by
  have htarget := size_option (fun scope => size_u32 scope) close.targetScope
  have htarget' : (Emit.option Emit.u32 close.targetScope).size ≤ 5 := by
    refine Nat.le_trans htarget ?_
    cases close.targetScope
    · exact Nat.le_succ_of_le (by decide)
    · exact Nat.le_refl 5
  have hsize := size_append (size_u8 (exitTag close.kind)) (size_append (size_span close.span)
    (size_append (size_u32 close.fromScope) (size_append htarget'
      (size_append (size_list_const size_binding close.bindings "RVLU close bindings 過大")
        (size_list_const size_u16 close.registers "RVLU close registers 過大")))))
  unfold closeUpper
  refine Nat.le_trans hsize ?_
  omega

theorem size_constant (constant : BytecodeConstant) :
    (emitConstant constant).size ≤ constantUpper constant := by
  cases constant with
  | integer | floatBits | boolean => exact Nat.le_refl _
  | name bytes | string bytes =>
    have hsize := size_append (size_u8 2) (size_blob bytes)
    refine Nat.le_trans hsize ?_
    show 1 + (4 + bytes.length) ≤ 5 + bytes.length
    omega

theorem size_instruction (instruction : Instruction) : (emitInstruction instruction).size ≤ 17 := by
  have hmode : ∀ mode, (emitResultMode mode).size ≤ 3 := by
    intro mode
    cases mode <;> exact Nat.le_of_ble_eq_true rfl
  have hcall : ∀ (base argCount : UInt16) mode,
      (Emit.u16 base ++ (Emit.u16 argCount ++ emitResultMode mode)).size ≤ 16 := fun _ _ mode =>
    Nat.le_trans (size_append (size_u16 _) (size_append (size_u16 _) (hmode mode))) (by decide)
  have hreturn : ∀ (base : UInt16) mode, (Emit.u16 base ++ emitResultMode mode).size ≤ 16 :=
    fun _ mode => Nat.le_trans (size_append (size_u16 _) (hmode mode)) (by decide)
  have hoperands : (emitOperands instruction).size ≤ 16 := by
    cases instruction with
    | call | tailCall => exact hcall _ _ _
    | vararg | ret => exact hreturn _ _
    | _ => exact Nat.le_of_ble_eq_true rfl
  exact size_append (size_u8 (opcodeTag instruction)) hoperands

/-- What the close path of an instruction may take. -/
def linkedUpper (entry : BytecodeInstruction) : Nat := (entry.closePath.map closeUpper).getD 0

theorem size_bytecodeInstruction (entry : BytecodeInstruction) :
    (emitBytecodeInstruction entry).size ≤ 40 + linkedUpper entry := by
  have hsize := size_append (size_instruction entry.instruction)
    (size_append (size_u8 entry.instruction.canonicalEffectFlags) (size_append
      (size_span entry.span) (size_option size_closePath entry.closePath)))
  refine Nat.le_trans hsize ?_
  unfold linkedUpper
  omega

theorem sum_linkedUpper (instructions : List BytecodeInstruction) :
    (instructions.map fun entry => 40 + linkedUpper entry).sum
      = instructions.length * 40 + ((closePathsOf instructions).map closeUpper).sum := by
  induction instructions with
  | nil => rfl
  | cons entry rest ih =>
    have hclose : ((closePathsOf (entry :: rest)).map closeUpper).sum
        = linkedUpper entry + ((closePathsOf rest).map closeUpper).sum := by
      unfold closePathsOf linkedUpper
      rw [List.filterMap_cons]
      cases entry.closePath with
      | none => exact (Nat.zero_add _).symm
      | some close => rfl
    rw [List.map_cons, List.sum_cons, ih, hclose, List.length_cons]
    omega

theorem size_upvalue (upvalue : BytecodeUpvalue) : (emitUpvalue upvalue).size ≤ 11 := by
  unfold emitUpvalue
  cases upvalue.source <;> exact Nat.le_of_ble_eq_true rfl

theorem size_frame (frame : FrameLayout) : (emitFrame frame).size ≤ 18 := by
  have hsource : (emitEnvironmentSource frame.environmentSource).size ≤ 7 := by
    cases frame.environmentSource <;> exact Nat.le_of_ble_eq_true rfl
  exact size_append (size_u16 _) (size_append (size_u16 _) (size_append (size_u16 _)
    (size_append (size_u16 _) (size_append (size_u16 _) (size_append hsource (size_flag _))))))

variable (limits : VerifyLimits)

/-- A record behind its length. -/
theorem size_prototype (prototype : BytecodePrototype) :
    (Emit.section (emitPrototype prototype limits) "RVLU prototype record 太大").size
      ≤ prototypeUpper prototype := by
  have hparent : (Emit.option Emit.u32 prototype.parent).size ≤ 5 := by
    refine Nat.le_trans (size_option (fun id => size_u32 id) prototype.parent) ?_
    cases prototype.parent
    · exact Nat.le_succ_of_le (by decide)
    · exact Nat.le_refl 5
  have hnamed : (Emit.option emitBindingRegister prototype.namedVararg).size ≤ 11 := by
    refine Nat.le_trans (size_option size_bindingRegister prototype.namedVararg) ?_
    cases prototype.namedVararg
    · exact Nat.le_succ_of_le (by decide)
    · exact Nat.le_refl 11
  have hconstants : (emitConstants prototype.constants limits).size
      ≤ 0 + (4 + (prototype.constants.map constantUpper).sum) :=
    size_append (size_reject _ _) (size_list size_constant _ _)
  have hinstructions : (emitInstructions prototype.instructions limits).size
      ≤ 0 + (4 + (prototype.instructions.map fun entry => 40 + linkedUpper entry).sum) :=
    size_append (size_reject _ _) (size_list size_bytecodeInstruction _ _)
  rw [sum_linkedUpper] at hinstructions
  have hmetadata : (emitMetadata prototype.metadata limits).size
      ≤ 0 + ((4 + prototype.bindingRegisters.length * 10) + ((4 + prototype.upvalues.length * 11)
        + (4 + (prototype.closePaths.map closeUpper).sum))) :=
    size_append (size_reject _ _) (size_append (size_list_const size_bindingRegister _ _)
      (size_append (size_list_const size_upvalue _ _) (size_list size_closePath _ _)))
  have hsize := size_section (size_append (size_u32 prototype.id) (size_append
    (size_u32 prototype.function) (size_append hparent (size_append (size_span prototype.span)
    (size_append (size_u16 prototype.registerCount) (size_append
    (size_u16 prototype.parameterCount) (size_append (size_flag prototype.isVariadic) (size_append hnamed (size_append
    (size_frame prototype.frame) (size_append (size_u16 prototype.globalEnvironment) (size_append
    (size_binding prototype.globalEnvironmentBinding) (size_append
    (size_section hconstants "RVLU constants section 太大") (size_append
    (size_section hinstructions "RVLU instructions section 太大")
    (size_section hmetadata "RVLU metadata section 太大"))))))))))))))
    "RVLU prototype record 太大"
  unfold emitPrototype prototypeUpper
  refine Nat.le_trans hsize ?_
  clear hsize hparent hnamed hconstants hinstructions hmetadata
  omega

/-- **The pieces of a module are not longer than announced.** -/
theorem emitModule_size {module : BytecodeModule} {upper : Nat}
    (h : bytecodeWireUpperBytes module = .ok upper) : (emitModule module limits).size ≤ upper := by
  have hmagic : (Emission.write rvluMagic .done : Emit).size ≤ 4 := Nat.le_refl 4
  have hsize := size_append hmagic (size_append (size_u16 rvluV2) (size_append
    (size_u8 (profileTag module.profile)) (size_append (size_u8 module.numericConfig) (size_append
    (size_span module.span) (size_section (size_list (size_prototype limits) module.prototypes
      "RVLU prototype 數過大") "RVLU prototype section 太大")))))
  rw [bytecodeWireUpperBytes_eq h]
  refine Nat.le_trans hsize ?_
  omega

end Size

/-! ### The errors of the encoder -/

/-- The texts of the errors that the encoder stops with by itself. -/
def encoderTexts : List String :=
  ["RVLU blob 過大", "RVLU close bindings 過大", "RVLU close registers 過大",
    "RVLU constant 數超過限制", "RVLU constant 數過大", "RVLU instruction 數超過限制",
    "RVLU instruction 數過大", "RVLU upvalue 數超過限制", "RVLU binding metadata 過大",
    "RVLU upvalue metadata 過大", "RVLU close metadata 過大", "RVLU constants section 太大",
    "RVLU instructions section 太大", "RVLU metadata section 太大",
    "RVLU prototype record 太大", "RVLU prototype 數過大", "RVLU prototype section 太大"]

/-- An error that the encoder stops with by itself. -/
def EncoderStop (e : BytecodeError) : Prop := ∃ text ∈ encoderTexts, e = Bytecode.limit 0 text

section Stops

theorem encoderStop {text : String} (h : text ∈ encoderTexts) :
    EncoderStop (Bytecode.limit 0 text) := ⟨text, h, rfl⟩

theorem stops_length {text : String} (h : text ∈ encoderTexts) (value : Nat) :
    (Emit.length value text).Stops EncoderStop := by
  unfold Emit.length
  split
  · trivial
  · exact encoderStop h

theorem stops_reject {text : String} (h : text ∈ encoderTexts) (c : Prop) [Decidable c] :
    (Emit.reject c (Bytecode.limit 0 text)).Stops EncoderStop := by
  unfold Emit.reject
  split
  · exact encoderStop h
  · trivial

theorem stops_list {α : Type} {emit : α → Emit} (hemit : ∀ a, (emit a).Stops EncoderStop)
    {text : String} (h : text ∈ encoderTexts) (items : List α) :
    (Emit.list emit items text).Stops EncoderStop :=
  (stops_length h _).append (.each fun a _ => hemit a)

theorem stops_section {body : Emit} (hbody : body.Stops EncoderStop) {text : String}
    (h : text ∈ encoderTexts) : (Emit.section body text).Stops EncoderStop :=
  ⟨hbody, encoderStop h, trivial⟩

theorem stops_option {α : Type} {emit : α → Emit} (hemit : ∀ a, (emit a).Stops EncoderStop)
    (value : Option α) : (Emit.option emit value).Stops EncoderStop := by
  cases value with
  | none => trivial
  | some a => exact hemit a

theorem stops_u32 (value : UInt32) : (Emit.u32 value).Stops EncoderStop := trivial

theorem stops_closePath (close : BytecodeClosePath) : (emitClosePath close).Stops EncoderStop := by
  have hbinding : ∀ binding, (emitBinding binding).Stops EncoderStop := fun _ => trivial
  have hregister : ∀ register, (Emit.u16 register).Stops EncoderStop := fun _ => trivial
  exact (stops_option stops_u32 close.targetScope).append
    ((stops_list hbinding (by decide) close.bindings).append
      (stops_list hregister (by decide) close.registers))

theorem stops_constant (constant : BytecodeConstant) :
    (emitConstant constant).Stops EncoderStop := by
  have hblob : ∀ bytes, (Emit.blob bytes).Stops EncoderStop := fun bytes =>
    (stops_length (by decide) _).append trivial
  cases constant with
  | integer | floatBits | boolean => trivial
  | name bytes | string bytes => exact hblob bytes

theorem stops_bytecodeInstruction (entry : BytecodeInstruction) :
    (emitBytecodeInstruction entry).Stops EncoderStop := by
  have hmode : ∀ mode, (emitResultMode mode).Stops EncoderStop := by
    intro mode
    cases mode <;> trivial
  have hoperands : (emitOperands entry.instruction).Stops EncoderStop := by
    cases entry.instruction with
    | call | tailCall | vararg | ret => exact hmode _
    | _ => trivial
  have hinstruction : (emitInstruction entry.instruction).Stops EncoderStop := hoperands
  exact hinstruction.append (stops_option stops_closePath entry.closePath)

theorem stops_upvalue (upvalue : BytecodeUpvalue) : (emitUpvalue upvalue).Stops EncoderStop := by
  unfold emitUpvalue
  cases upvalue.source <;> trivial

theorem stops_prototype (prototype : BytecodePrototype) (limits : VerifyLimits) :
    (emitPrototype prototype limits).Stops EncoderStop := by
  have hentry : ∀ entry, (emitBindingRegister entry).Stops EncoderStop := fun _ => trivial
  have hconstants : (emitConstants prototype.constants limits).Stops EncoderStop :=
    (stops_reject (by decide) _).append (stops_list stops_constant (by decide) _)
  have hinstructions : (emitInstructions prototype.instructions limits).Stops EncoderStop :=
    (stops_reject (by decide) _).append (stops_list stops_bytecodeInstruction (by decide) _)
  have hmetadata : (emitMetadata prototype.metadata limits).Stops EncoderStop :=
    (stops_reject (by decide) _).append ((stops_list hentry (by decide) _).append
      ((stops_list stops_upvalue (by decide) _).append (stops_list stops_closePath (by decide) _)))
  have hsections : (Emit.section (emitConstants prototype.constants limits)
        "RVLU constants section 太大"
      ++ (Emit.section (emitInstructions prototype.instructions limits)
        "RVLU instructions section 太大"
      ++ Emit.section (emitMetadata prototype.metadata limits)
        "RVLU metadata section 太大")).Stops EncoderStop :=
    (stops_section hconstants (by decide)).append
      ((stops_section hinstructions (by decide)).append (stops_section hmetadata (by decide)))
  have hsource : (emitEnvironmentSource prototype.frame.environmentSource).Stops EncoderStop := by
    cases prototype.frame.environmentSource <;> trivial
  have hframe : (emitFrame prototype.frame).Stops EncoderStop := hsource.append trivial
  exact (stops_option stops_u32 prototype.parent).append
    ((stops_option hentry prototype.namedVararg).append
    (hframe.append hsections))

/-- The errors of the encoder are its own. -/
theorem emitModule_stops (module : BytecodeModule) (limits : VerifyLimits) :
    (emitModule module limits).Stops EncoderStop :=
  stops_section (stops_list (fun prototype => stops_section (stops_prototype prototype limits)
    (by decide)) (by decide) module.prototypes) (by decide)

end Stops

/-! ### The bounded encoder -/

/-- An error that has nothing to do with the bound: the bytes were not too many for it, and neither
    was the room, if no request gets more than it asks for. -/
def WithinBound (memory : Memory) (e : BytecodeError) : Prop :=
  e ≠ writerFaults.overflow ∧ e ≠ writerFaults.exceeded
    ∧ (memory.Exact → e ≠ writerFaults.capacity)

theorem EncoderStop.withinBound {memory : Memory} {e : BytecodeError} (h : EncoderStop e) :
    WithinBound memory e := by
  obtain ⟨text, htext, rfl⟩ := h
  have hother : ∀ text ∈ encoderTexts, text ≠ "RVLU 輸出長度溢位"
      ∧ text ≠ "RVLU 輸出超出預准入" ∧ text ≠ "RVLU 實際容量超出預准入" := by decide
  obtain ⟨hoverflow, hexceeded, hcapacity⟩ := hother text htext
  exact ⟨fun h => hoverflow (congrArg BytecodeError.message h),
    fun h => hexceeded (congrArg BytecodeError.message h),
    fun _ h => hcapacity (congrArg BytecodeError.message h)⟩

/-- **The bounded encoder never goes over an announced bound.** -/
theorem encodeBounded_within {memory : Memory} {verified : VerifiedModule} {limits : VerifyLimits}
    {upper bound : Nat} (hupper : bytecodeWireUpperBytes verified.module = .ok upper)
    (hbound : upper ≤ bound) (hmax : bound ≤ Bytecode.usizeMax) :
    (∃ e, encodeVerifiedModuleBytesBounded memory verified limits bound = .error e
      ∧ WithinBound memory e) ∨
    ∃ writer, encodeVerifiedModuleBytesBounded memory verified limits bound = .ok writer
      ∧ writer.bytes.length ≤ upper ∧ writer.capacity ≤ bound
      ∧ (memory.Exact → writer.capacity ≤ writer.bytes.length) := by
  have hrefused : WithinBound memory writerFaults.refused :=
    ⟨by decide, by decide, fun _ => by decide⟩
  have hcapacity : memory.Exact ∨ WithinBound memory writerFaults.capacity := by
    by_cases hexact : memory.Exact
    · exact .inl hexact
    · exact .inr ⟨by decide, by decide, fun h => absurd h hexact⟩
  have hstops : (emitModule verified.module limits).Stops (WithinBound memory) :=
    (emitModule_stops verified.module limits).mono fun e he => he.withinBound
  have hsize := emitModule_size limits hupper
  unfold encodeVerifiedModuleBytesBounded encodeVerifiedModuleBytesInner
  rcases Emission.run_bounded hmax hrefused hcapacity hstops (Buffer.sound_empty 0)
      (by show 0 + _ ≤ bound; omega) with ⟨e, hrun, he⟩ | ⟨writer, hrun, hsound, hlength⟩
  · rw [hrun]
    exact .inl ⟨e, rfl, he⟩
  · rw [hrun, Check.ok_bind]
    by_cases hbytes : limits.maxModuleBytes < writer.bytes.length
    · rw [Check.reject_bind_of hbytes]
      exact .inl ⟨_, rfl, by decide, by decide, fun _ => by decide⟩
    · rw [Check.reject_bind_of_not hbytes, finishWriter]
      cases hfailure : writer.failure with
      | some e => exact .inl ⟨e, rfl, hsound.failure e hfailure⟩
      | none =>
        have hlength : writer.bytes.length ≤ 0 + (emitModule verified.module limits).size := hlength
        exact .inr ⟨writer, rfl, by omega, hsound.capacity hfailure,
          fun hexact => hsound.exact hexact hfailure⟩

/-- The bytes of an encoded module are not more than announced. -/
theorem encodeModule_length_le {alloc : Allocator} {module : BytecodeModule} {profile : LuaProfile}
    {limits : VerifyLimits} {encoded : EncodedModule} {upper : Nat}
    (hencode : encodeModule alloc module profile limits = .ok encoded)
    (hupper : bytecodeWireUpperBytes module = .ok upper) : encoded.bytes.length ≤ upper := by
  obtain ⟨verified, hverified, hencode⟩ := Check.bind_eq_ok.mp hencode
  obtain ⟨bytes, hbytes, hencode⟩ := Check.bind_eq_ok.mp hencode
  cases hencode
  have hmodule : verified.module = module := by
    obtain ⟨_, -, hverified⟩ := Check.bind_eq_ok.mp hverified
    cases hverified
    rfl
  obtain ⟨written, hwritten, hbytes⟩ := Check.bind_eq_ok.mp hbytes
  obtain ⟨-, hbytes⟩ := Check.then_eq_ok.mp hbytes
  cases hbytes
  rw [hmodule, ← output_emitModule] at hwritten
  exact Nat.le_trans (Emission.length_le_size (Output.toExcept_eq_ok.mp hwritten))
    (emitModule_size limits hupper)

theorem encodeModule_length_le_emptyChunk :
    ∃ encoded, encodeModule .exact emptyChunk .lua54 .default = .ok encoded
      ∧ bytecodeWireUpperBytes emptyChunk = .ok 214 ∧ encoded.bytes.length ≤ 214 := by
  have hupper : bytecodeWireUpperBytes emptyChunk = .ok 214 := by decide +kernel
  have hencode : encodeModule .exact emptyChunk .lua54 .default
      = .ok ⟨emptyChunkBytes, ⟨emptyChunk, 4⟩⟩ := by
    decide +kernel
  exact ⟨_, hencode, hupper, encodeModule_length_le hencode hupper⟩

end RivetLua.Bytecode.Transport
