import RivetLua.Compiler.ExprWindows

namespace RivetLua.Compiler

open StateExcept
open RivetLua.Bytecode (Register Instruction InstructionOffset ResultMode dynamicArguments)

/-!
# Compiler — the windows of calls

A call evaluates its inputs, copies them into its window and lets an open last argument deliver its
results behind them.

* `EvaluatesTo` — what lowering a list of inputs does;
* `lowerCallInputs_spec` — the window of a call is placed if its site is safe;
* `lowerExpr_spec`, `lowerOpenExpressionAt_spec` — lowering an expression does what it should.
-/

variable {ctx : BuilderContext} {held : BindingId → Bool} {captured : Nat → Prop}

/-! ### Lists of inputs -/

/-- Inputs are where the layout of their expressions says. -/
def InputsAt (ctx : BuilderContext) : Nat → List ResolvedExpr → List Input → Prop
  | _, [], [] => True
  | next, e :: es, input :: inputs =>
    ResultAt ctx e next input.register ∧ InputsAt ctx (next + registersTaken ctx e) es inputs
  | _, _, _ => False

/-- The registers that lowering a list of expressions takes. -/
def listTaken (ctx : BuilderContext) (es : List ResolvedExpr) : Nat :=
  (es.map (registersTaken ctx)).sum

/-- What lowering a list of inputs does.  The inputs are kept to the end if none is a local that a
    function may assign meanwhile. -/
structure EvaluatesTo (ctx : BuilderContext) (held : BindingId → Bool) (es : List ResolvedExpr)
    (c : Core) (inputs : List Input) (c' : Core) : Prop where
  takes : Takes (ctx.heldRegister held) (es.all isQuiet = true) (listTaken ctx es) c c'
  placed : InputsAt ctx c.next es inputs
  below : ∀ input ∈ inputs, input.register.toNat < c'.next
  kept : inputsSettled held es = true →
    ∀ input ∈ inputs, input.Kept (ctx.heldRegister held) c' c.pc

theorem EvaluatesTo.nil {c : Core} : EvaluatesTo ctx held [] c [] c where
  takes := .refl
  placed := trivial
  below := by simp
  kept := by simp

theorem Input.Kept.of_le {c : Core} {start start' : Nat} {input : Input}
    (h : input.Kept captured c start') (hle : start ≤ start') : input.Kept captured c start :=
  { h with start_le := hle.trans h.start_le }

theorem EvaluatesTo.cons (hctx : ctx.WellFormed) {e : ResolvedExpr} {es : List ResolvedExpr}
    {c c' c'' : Core} {r : Register} {inputs : List Input} (htop : ctx.initialTop.toNat ≤ c.next)
    (he : LowersTo ctx held e c r c') (hes : EvaluatesTo ctx held es c' inputs c'') :
    EvaluatesTo ctx held (e :: es) c (⟨r, c'.pc⟩ :: inputs) c'' := by
  have hr : r.toNat < c'.next := by
    rw [he.takes.next]
    exact he.result.lt hctx htop
  refine ⟨?_, ⟨he.result, ?_⟩, ?_, ?_⟩
  · refine ((he.takes.mono ?_ rfl).trans (hes.takes.mono ?_ rfl)).mono id (by simp [listTaken])
    · intro hq
      simp only [List.all_cons, Bool.and_eq_true] at hq
      exact hq.1
    · intro hq
      simp only [List.all_cons, Bool.and_eq_true] at hq
      exact hq.2
  · rw [← he.takes.next]
    exact hes.placed
  · intro input hinput
    rcases List.mem_cons.mp hinput with rfl | hinput
    · exact hr.trans_le hes.takes.emits.next_le
    · exact hes.below input hinput
  · intro hsettled input hinput
    simp only [inputsSettled, Bool.and_eq_true, Bool.or_eq_true, Bool.not_eq_true'] at hsettled
    rcases List.mem_cons.mp hinput with rfl | hinput
    · -- a local that a function may assign is followed by quiet inputs only
      refine (Input.kept_now he.takes.emits.pc_le).extend hes.takes.emits hr fun hheld => ?_
      rcases hsettled.1 with hnot | hquiet
      · rw [he.result.isHeldLocal hctx htop hheld] at hnot
        cases hnot
      · exact hquiet
    · exact (hes.kept hsettled.2 input hinput).of_le he.takes.emits.pc_le

theorem InputsAt.length_eq : ∀ {next : Nat} {es : List ResolvedExpr} {inputs : List Input},
    InputsAt ctx next es inputs → inputs.length = es.length
  | _, [], [], _ => rfl
  | _, _ :: _, _ :: _, h => by simp [h.2.length_eq]

/-- An input in a register of its own is not below the index it is copied to. -/
theorem InputsAt.clear (hctx : ctx.WellFormed) {base : Nat} (hbase : ctx.initialTop.toNat ≤ base) :
    ∀ {offset index : Nat} {es : List ResolvedExpr} {inputs : List Input},
      InputsAt ctx (base + offset) es inputs → argumentsClear ctx offset index es = true →
      ∀ j input, inputs[j]? = some input →
        ∀ k < index + j, input.register.toNat ≠ base + k
  | _, _, [], [], _, _, j, _, hj => by simp at hj
  | offset, index, e :: es, input :: inputs, h, hclear, j, input', hj => by
    simp only [argumentsClear, Bool.and_eq_true] at hclear
    obtain ⟨hresult, hrest⟩ := h
    intro k hk
    cases j with
    | zero =>
      obtain rfl : input = input' := Option.some.inj hj
      unfold ResultAt at hresult
      split at hresult
      · next place hplace =>
        rw [hplace] at hclear
        have := of_decide_eq_true hclear.1
        omega
      · obtain ⟨binding, -, hr⟩ := hresult
        have := hctx.binding_lt binding _ hr
        omega
    | succ j =>
      rw [Nat.add_assoc] at hrest
      exact hrest.clear hctx hbase hclear.2 j input' hj k (by omega)

/-! ### The arguments of a call -/

theorem fixedArguments_cons {argument : ResolvedExpr} {rest : List ResolvedExpr} :
    fixedArguments (argument :: rest)
      = if rest.isEmpty && isOpenExpression argument then [] else argument :: fixedArguments rest := by
  cases rest with
  | nil => simp [fixedArguments, openLast?]
  | cons argument' rest =>
    simp only [fixedArguments, openLast?, List.getLast?_cons_cons, List.isEmpty_cons, Bool.false_and,
      Bool.false_eq_true, if_false]
    split <;> simp [*]

theorem argumentsTaken_eq : ∀ arguments : List ResolvedExpr,
    argumentsTaken ctx arguments = listTaken ctx (fixedArguments arguments)
  | [] => by simp [argumentsTaken, fixedArguments, openLast?, listTaken]
  | argument :: rest => by
    rw [argumentsTaken, fixedArguments_cons, argumentsTaken_eq rest]
    split <;> simp [listTaken]

/-- Lowering the arguments before an open last one does what it should. -/
def ArgumentsSpec (ctx : BuilderContext) (held : BindingId → Bool) (arguments : List ResolvedExpr) :
    Prop :=
  ∀ span b inputs b', ctx.initialTop.toNat ≤ b.core.next →
    (∀ site ∈ argumentSites ctx arguments, site.safe ctx held = true) →
    lowerFixedArguments ctx span arguments b = .ok (inputs, b') →
    EvaluatesTo ctx held (fixedArguments arguments) b.core inputs b'.core

theorem argumentsSpec_nil : ArgumentsSpec ctx held [] := by
  intro span b inputs b' _ _ h
  obtain ⟨rfl, rfl⟩ := pure_eq_ok.mp h
  exact .nil

theorem argumentsSpec_cons (hctx : ctx.WellFormed) {argument : ResolvedExpr}
    {rest : List ResolvedExpr} (he : ExprSpec ctx held argument)
    (hrest : ArgumentsSpec ctx held rest) : ArgumentsSpec ctx held (argument :: rest) := by
  intro span b inputs b' htop hsites h
  rw [fixedArguments_cons]
  unfold lowerFixedArguments at h
  unfold argumentSites at hsites
  split at h
  · next hopen =>
    rw [if_pos hopen]
    obtain ⟨rfl, rfl⟩ := pure_eq_ok.mp h
    exact .nil
  · next hopen =>
    rw [if_neg hopen] at hsites ⊢
    simp only [bind_eq_ok, pure_eq_ok] at h
    obtain ⟨r, b₁, h₁, input, b₂, h₂, u₃, b₃, h₃, inputs', b₄, h₄, rfl, rfl⟩ := h
    obtain ⟨rfl, rfl⟩ := inputOf_eq_ok h₂
    have hr := he b r b₂ htop (fun site hs => hsites site (List.mem_append_left _ hs)) h₁
    have h₃ := idle_pushPendingExpression _ _ _ h₃
    have hinputs := hrest span b₃ inputs' b₄ (by rw [h₃]; exact hr.takes.next_le htop)
      (fun site hs => hsites site (List.mem_append_right _ hs)) h₄
    rw [h₃] at hinputs
    rw [← Builder.core_pc]
    exact .cons hctx htop hr hinputs

/-! ### Filling the window of a call -/

theorem prepareCallRegisters_eq_ok {callee : Input} {values : List Input} {span : Span}
    {b b' : Builder} {base : Register} {argCount : UInt16}
    (h : prepareCallRegisters ctx callee values span b = .ok ((base, argCount), b')) :
    base.toNat = b.core.next ∧ argCount.toNat = values.length
      ∧ Copied base.toNat 0 (callee :: values)
        { b.core with next := b.core.next + (values.length + 1) } b'.core := by
  simp only [prepareCallRegisters, bind_eq_ok, pure_eq_ok] at h
  obtain ⟨argCount', b₁, h₁, base', b₂, h₂, u₃, b₃, h₃, u₄, b₄, h₄, heq, rfl⟩ := h
  cases heq
  obtain ⟨hcount, rfl⟩ := toU16_eq_ok h₁
  obtain ⟨hbase, h₂⟩ := reserveRegisters_eq_ok h₂
  have hcopied := moveInputs_copied h₄
  rw [emit_eq_ok h₃, h₂] at hcopied
  exact ⟨hbase, hcount, .cons rfl hcopied⟩

theorem fillFixedWindow_eq_ok {callee : Input} {values : List Input} {fixedBase : Option Register}
    {span : Span} {b b' : Builder} {base : Register} {argCount : UInt16}
    (h : fillFixedWindow ctx callee values fixedBase span b = .ok ((base, argCount), b')) :
    base.toNat = (fixedBase.map UInt16.toNat).getD b.core.next ∧ argCount.toNat = values.length
      ∧ Copied base.toNat 0 (callee :: values)
        { b.core with next := max b.core.next (base.toNat + (values.length + 1)) } b'.core := by
  cases fixedBase with
  | some base' =>
    simp only [fillFixedWindow, moveCallInputsAt, bind_eq_ok, pure_eq_ok] at h
    obtain ⟨u₁, b₁, h₁, u₂, b₂, h₂, argCount', b₃, ⟨argCount'', b₄, h₄, u₅, b₅, h₅, u₆, b₆, h₆, rfl,
      rfl⟩, heq, rfl⟩ := h
    cases heq
    obtain ⟨hcount, rfl⟩ := toU16_eq_ok h₄
    have hcopied := moveInputs_copied h₆
    rw [emit_eq_ok h₅, allocateUpTo_eq_ok h₂, idle_stopIf _ _ _ h₁] at hcopied
    exact ⟨rfl, hcount, .cons rfl hcopied⟩
  | none =>
    obtain ⟨hbase, hcount, hcopied⟩ := prepareCallRegisters_eq_ok h
    refine ⟨hbase, hcount, ?_⟩
    rw [hbase] at hcopied ⊢
    rwa [Nat.max_eq_right (by omega)]

theorem fillOpenWindow_eq_ok {callee : Input} {values : List Input} {fixedBase : Option Register}
    {pendingStart : Nat} {openLast : Register → Lower Unit} {span : Span} {b b' : Builder}
    {base : Register} {argCount : UInt16}
    (h : fillOpenWindow ctx callee values fixedBase pendingStart openLast span b
      = .ok ((base, argCount), b')) :
    base.toNat = (fixedBase.map UInt16.toNat).getD b.core.next ∧ argCount = dynamicArguments
      ∧ ∃ (producer : Register) (b₁ : Builder), producer.toNat = base.toNat + (values.length + 1)
        ∧ Copied base.toNat 0 (callee :: values)
          { b.core with next := max b.core.next (base.toNat + (values.length + 2)) } b₁.core
        ∧ openLast producer b₁ = .ok ((), b') := by
  have htail : ∀ {base' : Register} {b₂ : Builder},
      (do
        emit ctx (.move base' callee.register) span none
        moveInputs ctx base' span 1 values
        truncatePending pendingStart
        pushWindow ctx base' span 0 (values.length + 1)
        let producerBase ← registerOffset base' (values.length + 1) span
        openLast producerBase
        return (base', dynamicArguments) : Lower (Register × UInt16)) b₂
          = .ok ((base, argCount), b') →
      base = base' ∧ argCount = dynamicArguments
        ∧ ∃ (producer : Register) (b₁ : Builder), producer.toNat = base.toNat + (values.length + 1)
          ∧ Copied base.toNat 0 (callee :: values) b₂.core b₁.core
          ∧ openLast producer b₁ = .ok ((), b') := by
    intro base' b₂ h
    simp only [bind_eq_ok, pure_eq_ok] at h
    obtain ⟨u₃, b₃, h₃, u₄, b₄, h₄, u₅, b₅, h₅, u₆, b₆, h₆, producer, b₇, h₇, u₈, b₈, h₈, heq, rfl⟩ := h
    cases heq
    obtain ⟨hproducer, rfl⟩ := registerOffset_eq_ok h₇
    have hcopied := moveInputs_copied h₄
    rw [emit_eq_ok h₃, ← idle_truncatePending _ _ _ h₅, ← idle_pushWindow _ _ _ _ _ h₆] at hcopied
    exact ⟨rfl, rfl, producer, b₇, hproducer, .cons rfl hcopied, h₈⟩
  cases fixedBase with
  | some base' =>
    obtain ⟨u₁, b₂, h₂, h⟩ := bind_eq_ok.mp h
    obtain ⟨rfl, hcount, producer, b₁, hproducer, hcopied, hopen⟩ := htail h
    rw [allocateUpTo_eq_ok h₂] at hcopied
    exact ⟨rfl, hcount, producer, b₁, hproducer, hcopied, hopen⟩
  | none =>
    obtain ⟨base', b₂, h₂, h⟩ := bind_eq_ok.mp h
    obtain ⟨rfl, hcount, producer, b₁, hproducer, hcopied, hopen⟩ := htail h
    obtain ⟨hbase, h₂⟩ := reserveRegisters_eq_ok h₂
    refine ⟨hbase, hcount, producer, b₁, hproducer, ?_, hopen⟩
    rw [h₂, hbase] at hcopied
    rwa [hbase, Nat.max_eq_right (by omega)]

theorem lowerCallInputs_eq_ok {callee : Input} {leading : List Input}
    {fixedArguments : Lower (List Input)} {openLast : Option (Register → Lower Unit)}
    {fixedBase : Option Register} {span : Span} {b b' : Builder} {result : Register × UInt16}
    (h : lowerCallInputs ctx callee leading fixedArguments openLast fixedBase span b
      = .ok (result, b')) :
    ∃ b₁ arguments b₂ b₃, b₁.core = b.core ∧ fixedArguments b₁ = .ok (arguments, b₂)
      ∧ (match openLast with
        | none => fillFixedWindow ctx callee (leading ++ arguments) fixedBase span b₂
            = .ok (result, b₃)
        | some openLast => ∃ pendingStart,
          fillOpenWindow ctx callee (leading ++ arguments) fixedBase pendingStart openLast span b₂
            = .ok (result, b₃))
      ∧ b'.core = b₃.core.record ⟨callee :: (leading ++ arguments), result.1, b.core.pc,
          fixedBase.getD b.nextRegister, b₃.core.pc⟩ := by
  simp only [lowerCallInputs, bind_eq_ok, get_eq_ok] at h
  obtain ⟨start, _, h₀, _, _, ⟨rfl, rfl⟩, _, _, ⟨rfl, rfl⟩, u₁, b₁, h₁, arguments, b₂, h₂, h⟩ := h
  obtain ⟨rfl, rfl⟩ := currentPc_eq_ok h₀
  have h₁ := idle_pushPendingExpressions _ _ _ h₁
  have hend : ∀ {m : Lower (Register × UInt16)} {n : Nat} {start : Nat} {floor : Register},
      (do
        let result ← m
        recordWindow (callee :: (leading ++ arguments)) result.1 start floor
        truncatePending n
        pure result : Lower (Register × UInt16)) b₂ = .ok (result, b') →
      ∃ b₃, m b₂ = .ok (result, b₃) ∧ b'.core = b₃.core.record
        ⟨callee :: (leading ++ arguments), result.1, start, floor, b₃.core.pc⟩ := by
    intro m n start floor h
    simp only [bind_eq_ok, pure_eq_ok] at h
    obtain ⟨result', b₃, h₃, u₄, b₄, h₄, u₅, b₅, h₅, rfl, rfl⟩ := h
    refine ⟨b₃, h₃, ?_⟩
    rw [idle_truncatePending _ _ _ h₅, recordWindow_eq_ok h₄, Builder.core_pc]
    rfl
  rw [Builder.core_pc]
  cases openLast with
  | none =>
    obtain ⟨b₃, h₃, hcore⟩ := hend h
    exact ⟨b₁, arguments, b₂, b₃, h₁, h₂, h₃, hcore⟩
  | some openLast =>
    obtain ⟨b₃, h₃, hcore⟩ := hend h
    exact ⟨b₁, arguments, b₂, b₃, h₁, h₂, ⟨_, h₃⟩, hcore⟩

/-- Evaluated inputs, copied into a window that is recorded at the end. -/
theorem fill_emits {inputs : List Input} {base floor : Register} {lower next : Nat}
    {c c₀ c₁ c₂ c₃ : Core} (hstart : Emits captured lower False c c₀)
    (hargs : Emits captured floor.toNat False c₀ c₁) (hlower : lower ≤ floor.toNat)
    (hfloor : floor.toNat ≤ base.toNat) (hnext : c₁.next ≤ next)
    (hkept : ∀ input ∈ inputs, input.Kept captured c₁ c.pc)
    (hcopied : Copied base.toNat 0 inputs { c₁ with next := next } c₂)
    (hafter : Emits captured (base.toNat + inputs.length) False c₂ c₃)
    (hclear : ∀ j input, inputs[j]? = some input →
      ∀ k < j, input.register.toNat ≠ base.toNat + k)
    (hbase : ∀ register, base.toNat ≤ register → ¬ captured register) :
    Emits captured lower False c (c₃.record ⟨inputs, base, c₀.pc, floor, c₃.pc⟩) := by
  have hcopies : Emits captured base.toNat False { c₁ with next := next } c₂ := hcopied.emits le_rfl
  have hfill : Emits captured floor.toNat False c₀ c₃ :=
    ((hargs.trans (.take hnext)).trans (hcopies.mono hfloor id)).trans
      (hafter.mono (hfloor.trans (by omega)) id)
  have hkept' : ∀ input ∈ inputs, input.Kept captured { c₁ with next := next } c.pc :=
    fun input hi => ⟨(hkept input hi).start_le, (hkept input hi).pc_le, (hkept input hi).keeps⟩
  refine (hstart.trans (hfill.mono hlower id)).record ?_ rfl ?_
  · exact Window.placed_of_copied hkept' hcopied hafter hfill hclear hbase
  · rintro pc ⟨-, hpc | ⟨input, hi, hpc⟩⟩
    · exact hstart.pc_le.trans hpc
    · exact (hkept input hi).start_le.trans hpc

/-- The last instruction leaves an open result from a register on. -/
def Core.Produces (c : Core) (base : Register) : Prop :=
  ∃ producer, c.code.getLast? = some producer ∧ openBase producer = some base

/-- The producer is the instruction before the next one. -/
theorem Core.Produces.last {c : Core} {base : Register} (h : c.Produces base) :
    ∃ last producer, c.pc = last + 1 ∧ c.code[last]? = some producer
      ∧ openBase producer = some base := by
  obtain ⟨producer, hlast, hopen⟩ := h
  rw [List.getLast?_eq_getElem?] at hlast
  have hlt := (List.getElem?_eq_some_iff.mp hlast).1
  refine ⟨c.code.length - 1, producer, ?_, hlast, hopen⟩
  unfold Core.pc
  omega

theorem Core.produces_push (c : Core) {instruction : Instruction} {base : Register}
    (h : openBase instruction = some base) : (c.push instruction).Produces base :=
  ⟨instruction, by simp, h⟩

/-- Lowering the open last argument does what it should. -/
def OpenLastSpec (ctx : BuilderContext) (held : BindingId → Bool) (arguments : List ResolvedExpr) :
    Prop :=
  ∀ span (base : Register) b b' room, ctx.initialTop.toNat ≤ base.toNat →
    b.core.next = base.toNat + room → 1 ≤ room →
    (∀ site ∈ openLastSites ctx arguments room, site.safe ctx held = true) →
    lowerOpenLast ctx span arguments base b = .ok ((), b') →
    Emits (ctx.heldRegister held) base.toNat False b.core b'.core
      ∧ b'.core.next = b.core.next + openLastTaken ctx arguments room
      ∧ (arguments ≠ [] → b'.core.Produces base)

/-- The inputs of a call before its fixed arguments: the callee and the receiver. -/
structure HeadInputs (ctx : BuilderContext) (held : BindingId → Bool) (quiet : Prop) (start : Nat)
    (head : List Input) (c : Core) : Prop where
  kept : ∀ input ∈ head, input.Kept (ctx.heldRegister held) c start
  below : ∀ input ∈ head, input.register.toNat < c.next
  settled : ∀ input ∈ head, ctx.heldRegister held input.register.toNat → quiet

/-- What filling the window of a call does: the code up to the call, and the window that is ready
    there. -/
structure FillsWindow (captured : Nat → Prop) (lower base : Nat) (c : Core)
    (result : Register × UInt16) (c' : Core) : Prop where
  emits : Emits captured lower False c c'
  base_eq : result.1.toNat = base
  ready : c'.ReadyFor result.1 (.arguments result.2)

/-- The window of a call.  `c` is the core where the call begins, `base` the first register of the
    window, `room` the room of an open last argument. -/
theorem lowerCallInputs_spec (hctx : ctx.WellFormed) {arguments : List ResolvedExpr}
    (hargs : ArgumentsSpec ctx held arguments) (hopen : OpenLastSpec ctx held arguments)
    {callee : Input} {leading : List Input} {fixedBase : Option Register} {span : Span} {c : Core}
    {b b' : Builder} {result : Register × UInt16} {lower base room : Nat}
    (h : lowerCallInputs ctx callee leading (lowerFixedArguments ctx span arguments)
      (if openLast? arguments then some (lowerOpenLast ctx span arguments) else none) fixedBase span b
      = .ok (result, b'))
    (hstart : Emits (ctx.heldRegister held) lower False c b.core)
    (htop : ctx.initialTop.toNat ≤ b.core.next)
    (hhead : HeadInputs ctx held ((fixedArguments arguments).all isQuiet = true) c.pc
      (callee :: leading) b.core)
    (hbase : base = (fixedBase.map UInt16.toNat).getD (b.core.next + argumentsTaken ctx arguments))
    (hfixed : ∀ fixed ∈ fixedBase, ctx.initialTop.toNat ≤ fixed.toNat ∧ fixed.toNat ≤ b.core.next
      ∧ lower ≤ fixed.toNat)
    (hlower : lower ≤ b.core.next)
    (hsettled : inputsSettled held (fixedArguments arguments) = true)
    (hclear : ∀ fixed ∈ fixedBase,
      (∀ j input, (callee :: leading)[j]? = some input →
        ∀ k < j, input.register.toNat ≠ fixed.toNat + k)
      ∧ argumentsClear ctx (b.core.next - fixed.toNat) (leading.length + 1)
        (fixedArguments arguments) = true)
    (hsites : ∀ site ∈ argumentSites ctx arguments, site.safe ctx held = true)
    (hlast : openLast? arguments = true →
      ∀ site ∈ openLastSites ctx arguments room, site.safe ctx held = true)
    (hroom : room = max (b.core.next + argumentsTaken ctx arguments)
        (base + (leading.length + (fixedArguments arguments).length + 2))
      - (base + (leading.length + (fixedArguments arguments).length + 1))) :
    FillsWindow (ctx.heldRegister held) lower base c result b'.core
      ∧ b'.core.next
        = if openLast? arguments = true then
            max (b.core.next + argumentsTaken ctx arguments)
              (base + (leading.length + (fixedArguments arguments).length + 2))
              + openLastTaken ctx arguments room
          else max (b.core.next + argumentsTaken ctx arguments)
            (base + (leading.length + (fixedArguments arguments).length + 1)) := by
  obtain ⟨b₁, values, b₂, b₃, h₁, h₂, hfill, hcore⟩ := lowerCallInputs_eq_ok h
  obtain ⟨base', argCount⟩ := result
  have hvalues := hargs span b₁ values b₂ (by rw [h₁]; exact htop) hsites h₂
  rw [h₁] at hvalues
  have hnext₂ : b₂.core.next = b.core.next + argumentsTaken ctx arguments := by
    rw [argumentsTaken_eq]
    exact hvalues.takes.next
  have hlength : values.length = (fixedArguments arguments).length := hvalues.placed.length_eq
  -- the registers below the floor are in use when the arguments are evaluated
  have hfloor : (fixedBase.getD b.nextRegister).toNat ≤ b.core.next
      ∧ lower ≤ (fixedBase.getD b.nextRegister).toNat := by
    cases fixedBase with
    | none => exact ⟨le_rfl, hlower⟩
    | some fixed => exact (hfixed fixed rfl).2
  have hbase₂ : (fixedBase.map UInt16.toNat).getD b₂.core.next = base := by
    rw [hbase, hnext₂]
  have hfloor_base : (fixedBase.getD b.nextRegister).toNat ≤ base := by
    rw [hbase]
    cases fixedBase with
    | none => exact Nat.le_add_right ..
    | some fixed => exact le_rfl
  have htop_base : ctx.initialTop.toNat ≤ base := by
    rw [hbase]
    cases fixedBase with
    | none => exact htop.trans (Nat.le_add_right ..)
    | some fixed => exact (hfixed fixed rfl).1
  have hargs' : Emits (ctx.heldRegister held) (fixedBase.getD b.nextRegister).toNat False
      b.core b₂.core := hvalues.takes.emits.mono hfloor.1 False.elim
  have hkept : ∀ input ∈ callee :: (leading ++ values),
      input.Kept (ctx.heldRegister held) b₂.core c.pc := by
    intro input hinput
    rw [← List.cons_append] at hinput
    rcases List.mem_append.mp hinput with hi | hi
    · exact (hhead.kept input hi).extend hvalues.takes.emits (hhead.below input hi)
        (hhead.settled input hi)
    · exact (hvalues.kept hsettled input hi).of_le hstart.pc_le
  have hclear' : ∀ j input, (callee :: (leading ++ values))[j]? = some input →
      ∀ k < j, input.register.toNat ≠ base + k := by
    intro j input hj k hk
    cases fixedBase with
    | none =>
      have hlt : input.register.toNat < b₂.core.next := by
        have hmem := List.mem_of_getElem? hj
        rw [← List.cons_append] at hmem
        rcases List.mem_append.mp hmem with hi | hi
        · exact (hhead.below input hi).trans_le hvalues.takes.emits.next_le
        · exact hvalues.below input hi
      have : b₂.core.next = base := hbase₂
      omega
    | some fixed =>
      obtain ⟨hclear_head, hclear_args⟩ := hclear fixed rfl
      obtain ⟨htop_fixed, hle, -⟩ := hfixed fixed rfl
      obtain rfl : base = fixed.toNat := hbase
      rw [← List.cons_append] at hj
      by_cases hlt : j < (callee :: leading).length
      · rw [List.getElem?_append_left hlt] at hj
        exact hclear_head j input hj k hk
      · rw [List.getElem?_append_right (not_lt.mp hlt)] at hj
        have hplaced := hvalues.placed
        rw [← Nat.add_sub_cancel' hle] at hplaced
        have hlen : (callee :: leading).length = leading.length + 1 := rfl
        exact hplaced.clear hctx htop_fixed hclear_args _ input hj k (by omega)
  have hnot : ∀ register, base ≤ register → ¬ ctx.heldRegister held register :=
    fun register hle => hctx.not_held (htop_base.trans hle)
  have hcount : (leading ++ values).length = leading.length + (fixedArguments arguments).length := by
    rw [List.length_append, hlength]
  split at hfill
  · next hnone =>
    have hclosed : ¬ openLast? arguments = true := fun ho => by
      rw [if_pos ho] at hnone
      cases hnone
    obtain ⟨hb, hargc, hcopied⟩ := fillFixedWindow_eq_ok hfill
    rw [hbase₂] at hb
    subst hb
    have hemits := fill_emits hstart hargs' hfloor.2 hfloor_base (le_max_left ..) hkept hcopied
      .refl hclear' hnot
    rw [if_neg hclosed, hcore]
    refine ⟨⟨hemits, rfl, _, List.mem_append_right _ (List.mem_singleton.mpr rfl), rfl, rfl, ?_⟩, ?_⟩
    · exact .inr (by rw [List.length_cons, hargc])
    · rw [Core.record_next, hcopied.next, hcount, hnext₂]
  · next openLast hsome =>
    have hopened : openLast? arguments = true := by
      by_contra ho
      rw [if_neg ho] at hsome
      cases hsome
    rw [if_pos hopened] at hsome
    cases hsome
    obtain ⟨pendingStart, hfill⟩ := hfill
    obtain ⟨hb, hargc, producer, b₄, hproducer, hcopied, hlower⟩ := fillOpenWindow_eq_ok hfill
    rw [hbase₂] at hb
    subst hb
    have hnext₄ := hcopied.next
    obtain ⟨hopen_emits, hopen_next, hopen_last⟩ := hopen span producer b₄ b₃ room (by omega)
      (by rw [hnext₄]; show max _ _ = _; rw [hnext₂, hcount]; omega) (by omega) (hlast hopened) hlower
    have hafter : Emits (ctx.heldRegister held)
        (base'.toNat + (callee :: (leading ++ values)).length) False b₄.core b₃.core :=
      hopen_emits.mono hproducer.ge id
    have hemits := fill_emits hstart hargs' hfloor.2 hfloor_base (le_max_left ..) hkept hcopied
      hafter hclear' hnot
    rw [if_pos hopened, hcore]
    refine ⟨⟨hemits, rfl, _, List.mem_append_right _ (List.mem_singleton.mpr rfl), rfl, rfl, ?_⟩, ?_⟩
    · have hne : arguments ≠ [] := by
        rintro rfl
        cases hopened
      obtain ⟨last, instruction, hpc, hlast, hbase⟩ := (hopen_last hne).last
      exact .inl ⟨hargc, last, instruction, producer, hpc, hlast, hbase, hproducer⟩
    · rw [Core.record_next, hopen_next, hnext₄, hnext₂, hcount]

/-! ### Callees and receivers -/

theorem HeadInputs.of_callee (hctx : ctx.WellFormed) {callee : ResolvedExpr}
    {arguments : List ResolvedExpr} {room : Option Nat} {c c' : Core} {r : Register}
    (htop : ctx.initialTop.toNat ≤ c.next) (h : LowersTo ctx held callee c r c')
    (hsite : InputSite.settled held ⟨callee :: arguments, false, room⟩ = true) :
    HeadInputs ctx held (arguments.all isQuiet = true) c.pc [⟨r, c'.pc⟩] c' := by
  simp only [InputSite.settled, inputsSettled, Bool.not_false, Bool.true_or, Bool.true_and,
    Bool.and_eq_true, Bool.or_eq_true, Bool.not_eq_true'] at hsite
  refine ⟨fun input hi => ?_, fun input hi => ?_, fun input hi hheld => ?_⟩
  all_goals obtain rfl := List.mem_singleton.mp hi
  · exact Input.kept_now h.takes.emits.pc_le
  · rw [h.takes.next]
    exact h.result.lt hctx htop
  · rcases hsite.1 with hnot | hquiet
    · rw [h.result.isHeldLocal hctx htop hheld] at hnot
      cases hnot
    · exact hquiet

theorem lookupMethod_takes {receiver : Register} {method : List UInt8} {span : Span}
    {b b' : Builder} {callee : Input}
    (h : lookupMethod ctx receiver method span b = .ok (callee, b')) :
    Takes captured False 2 b.core b'.core ∧ callee.register.toNat = b.core.next + 1
      ∧ callee.pc = b'.core.pc := by
  simp only [lookupMethod, bind_eq_ok] at h
  obtain ⟨key, b₁, h₁, r, b₂, h₂, h⟩ := h
  obtain ⟨rfl, rfl⟩ := inputOf_eq_ok h
  have hkey : TakesFresh captured False b.core key b₁.core := constantRegister_takesFresh h₁ False
  have hr : TakesFresh captured False b₁.core r b'.core := getTable_takesFresh h₂
  refine ⟨hkey.takes.trans hr.takes, ?_, (Builder.core_pc b').symm⟩
  rw [← hkey.takes.next]
  exact hr.result

theorem HeadInputs.of_receiver (hctx : ctx.WellFormed) {receiver : ResolvedExpr}
    {arguments : List ResolvedExpr} {room : Option Nat} {c c₁ c₂ : Core} {r : Register}
    {callee : Input} (htop : ctx.initialTop.toNat ≤ c.next) (h : LowersTo ctx held receiver c r c₁)
    (hlookup : Takes (ctx.heldRegister held) False 2 c₁ c₂)
    (hcallee : callee.register.toNat = c₁.next + 1) (hpc : callee.pc = c₂.pc)
    (hsite : InputSite.settled held ⟨receiver :: arguments, true, room⟩ = true) :
    HeadInputs ctx held (arguments.all isQuiet = true) c.pc [callee, ⟨r, c₁.pc⟩] c₂ := by
  simp only [InputSite.settled, List.head?_cons, Option.any_some, Bool.not_true, Bool.false_or,
    Bool.and_eq_true, Bool.not_eq_true'] at hsite
  have hr : r.toNat < c₁.next := by
    rw [h.takes.next]
    exact h.result.lt hctx htop
  -- the method lookup may run a function, but the receiver is not held
  have hreceiver : ¬ ctx.heldRegister held r.toNat := fun hheld => by
    rw [h.result.isHeldLocal hctx htop hheld] at hsite
    cases hsite.1
  have hnext := hlookup.next
  have hpc_le := h.takes.emits.pc_le.trans hlookup.emits.pc_le
  have htop₁ := h.takes.next_le htop
  refine ⟨fun input hi => ?_, fun input hi => ?_, fun input hi hheld => ?_⟩
  all_goals
    simp only [List.mem_cons, List.not_mem_nil, or_false] at hi
    rcases hi with rfl | rfl
  · obtain ⟨register, pc⟩ := input
    obtain rfl : pc = c₂.pc := hpc
    exact Input.kept_now hpc_le
  · exact (Input.kept_now h.takes.emits.pc_le).extend hlookup.emits hr fun hheld =>
      absurd hheld hreceiver
  · omega
  · exact hr.trans_le hlookup.emits.next_le
  · exact absurd hheld (hctx.not_held (by omega))
  · exact absurd hheld hreceiver

/-! ### Calls -/

theorem FillsWindow.call {lower base : Nat} {c c' : Core} {result : Register × UInt16}
    (h : FillsWindow captured lower base c result c') (hlower : lower ≤ base) (mode : ResultMode) :
    Emits captured lower False c (c'.push (.call result.1 result.2 mode)) := by
  refine h.emits.trans (.call h.ready ?_)
  rw [h.base_eq]
  exact hlower

theorem safe_iff {site : InputSite} :
    site.safe ctx held = true ↔ site.clear ctx = true ∧ site.settled held = true := by
  simp [InputSite.safe]

/-- The inputs of a site behind the first one are settled among themselves. -/
theorem InputSite.inputsSettled_tail {first : ResolvedExpr} {rest : List ResolvedExpr}
    {isMethod : Bool} {room : Option Nat}
    (h : InputSite.settled held ⟨first :: rest, isMethod, room⟩ = true) :
    inputsSettled held rest = true := by
  simp only [InputSite.settled, inputsSettled, Bool.and_eq_true] at h
  exact h.2.2

/-- Preparing a call does what it should: the window lies behind the inputs. -/
def PrepareSpec (ctx : BuilderContext) (held : BindingId → Bool) (e : ResolvedExpr) : Prop :=
  ∀ span b result b', ctx.initialTop.toNat ≤ b.core.next →
    (∀ site ∈ exprSites ctx e, site.safe ctx held = true) →
    prepareOpenCall ctx e span b = .ok (result, b') →
    ∃ place, resultPlace ctx e = some place
      ∧ FillsWindow (ctx.heldRegister held) b.core.next (b.core.next + place) b.core result b'.core
      ∧ b'.core.next = b.core.next + registersTaken ctx e

theorem prepare_call (hctx : ctx.WellFormed) {callee : ResolvedExpr}
    {arguments : List ResolvedExpr} {span : Span} (hcallee : ExprSpec ctx held callee)
    (hargs : ArgumentsSpec ctx held arguments) (hopen : OpenLastSpec ctx held arguments) :
    PrepareSpec ctx held (.call callee arguments span) := by
  intro span' b result b' htop hsites h
  simp only [prepareOpenCall, bind_eq_ok] at h
  obtain ⟨r, b₁, h₁, input, b₂, h₂, h⟩ := h
  obtain ⟨rfl, rfl⟩ := inputOf_eq_ok h₂
  simp only [exprSites, List.mem_append] at hsites
  have hcall := hcallee b r b₂ htop (fun site hs => hsites site (.inl (.inl (.inl hs)))) h₁
  obtain ⟨-, hsettled⟩ := safe_iff.mp (hsites _ (.inr (List.mem_singleton.mpr rfl)))
  have hhead := HeadInputs.of_callee hctx htop hcall hsettled
  rw [Builder.core_pc b₂] at hhead
  have hnext := hcall.takes.next
  obtain ⟨hfill, hnext'⟩ := lowerCallInputs_spec hctx hargs hopen h
    (hcall.takes.emits.mono le_rfl False.elim) (hcall.takes.next_le htop) hhead rfl (by simp)
    hcall.takes.emits.next_le (InputSite.inputsSettled_tail hsettled) (by simp)
    (fun site hs => hsites site (.inl (.inl (.inr hs))))
    (fun ho site hs => hsites site (.inl (.inr (by rw [if_pos ho]; exact hs))))
    (by simp only [Option.map_none, Option.getD_none]; omega)
  refine ⟨registersTaken ctx callee + argumentsTaken ctx arguments, by simp [resultPlace], ?_, ?_⟩
  · rw [← Nat.add_assoc, ← hnext]
    exact hfill
  · rw [hnext', registersTaken]
    simp only [Option.map_none, Option.getD_none, List.length_nil]
    split <;> omega

theorem prepare_methodCall (hctx : ctx.WellFormed) {receiver : ResolvedExpr} {method : List UInt8}
    {arguments : List ResolvedExpr} {span : Span} (hreceiver : ExprSpec ctx held receiver)
    (hargs : ArgumentsSpec ctx held arguments) (hopen : OpenLastSpec ctx held arguments) :
    PrepareSpec ctx held (.methodCall receiver method arguments span) := by
  intro span' b result b' htop hsites h
  simp only [prepareOpenCall, bind_eq_ok] at h
  obtain ⟨r, b₁, h₁, input, b₂, h₂, callee, b₃, h₃, h⟩ := h
  obtain ⟨rfl, rfl⟩ := inputOf_eq_ok h₂
  simp only [exprSites, List.mem_append] at hsites
  have hcall := hreceiver b r b₂ htop (fun site hs => hsites site (.inl (.inl (.inl hs)))) h₁
  obtain ⟨-, hsettled⟩ := safe_iff.mp (hsites _ (.inr (List.mem_singleton.mpr rfl)))
  obtain ⟨hlookup, hregister, hpc⟩ := lookupMethod_takes h₃
  have hhead := HeadInputs.of_receiver hctx htop hcall hlookup hregister hpc hsettled
  rw [Builder.core_pc b₂] at hhead
  have hnext := hcall.takes.next
  have hnext₃ := hlookup.next
  have htakes := (hcall.takes.mono False.elim rfl).trans hlookup
  obtain ⟨hfill, hnext'⟩ := lowerCallInputs_spec hctx hargs hopen h htakes.emits
    (htakes.next_le htop) hhead rfl (by simp) htakes.emits.next_le
    (InputSite.inputsSettled_tail hsettled) (by simp)
    (fun site hs => hsites site (.inl (.inl (.inr hs))))
    (fun ho site hs => hsites site (.inl (.inr (by rw [if_pos ho]; exact hs))))
    (by simp only [Option.map_none, Option.getD_none]; omega)
  refine ⟨registersTaken ctx receiver + 2 + argumentsTaken ctx arguments, by simp [resultPlace],
    ?_, ?_⟩
  · rw [← Nat.add_assoc, ← Nat.add_assoc, ← hnext, ← hnext₃]
    exact hfill
  · rw [hnext', registersTaken]
    simp only [Option.map_none, Option.getD_none, List.length_cons, List.length_nil]
    split <;> omega

/-- A call with one result. -/
theorem call_lowersTo {e : ResolvedExpr} {span : Span} {b b₁ b' : Builder}
    {result : Register × UInt16} {u : Unit} (hprepare : PrepareSpec ctx held e)
    (htop : ctx.initialTop.toNat ≤ b.core.next)
    (hsites : ∀ site ∈ exprSites ctx e, site.safe ctx held = true) (hquiet : isQuiet e = false)
    (h : prepareOpenCall ctx e span b = .ok (result, b₁))
    (hcall : emit ctx (.call result.1 result.2 (.fixed 1)) span none b₁ = .ok (u, b')) :
    LowersTo ctx held e b.core result.1 b'.core := by
  obtain ⟨place, hplace, hfill, hnext⟩ := hprepare span b result b₁ htop hsites h
  rw [emit_eq_ok hcall]
  refine ⟨⟨(hfill.call (Nat.le_add_right ..) _).mono le_rfl ?_, ?_⟩, ?_⟩
  · rw [hquiet]
    exact Bool.false_ne_true
  · exact hnext
  · exact (resultAt_some hplace).mpr hfill.base_eq

theorem call_spec {callee : ResolvedExpr} {arguments : List ResolvedExpr} {span : Span}
    (hprepare : PrepareSpec ctx held (.call callee arguments span)) :
    ExprSpec ctx held (.call callee arguments span) := by
  intro b r b' htop hsites h
  simp only [lowerExpr, bind_eq_ok, pure_eq_ok] at h
  obtain ⟨r', b₁, h₁, input, b₂, h₂, result, b₃, h₃, u, b₄, h₄, rfl, rfl⟩ := h
  refine call_lowersTo hprepare htop hsites (by simp [isQuiet]) ?_ h₄
  simp only [prepareOpenCall, bind_eq_ok]
  exact ⟨r', b₁, h₁, input, b₂, h₂, h₃⟩

theorem methodCall_spec {receiver : ResolvedExpr} {method : List UInt8}
    {arguments : List ResolvedExpr} {span : Span}
    (hprepare : PrepareSpec ctx held (.methodCall receiver method arguments span)) :
    ExprSpec ctx held (.methodCall receiver method arguments span) := by
  intro b r b' htop hsites h
  simp only [lowerExpr, bind_eq_ok, pure_eq_ok] at h
  obtain ⟨r', b₁, h₁, input, b₂, h₂, callee, b₃, h₃, result, b₄, h₄, u, b₅, h₅, rfl, rfl⟩ := h
  refine call_lowersTo hprepare htop hsites (by simp [isQuiet]) ?_ h₅
  simp only [prepareOpenCall, bind_eq_ok]
  exact ⟨r', b₁, h₁, input, b₂, h₂, callee, b₃, h₃, h₄⟩

/-! ### Open expressions -/

/-- Lowering an open expression at a register does what it should. -/
def OpenSpec (ctx : BuilderContext) (held : BindingId → Bool) (e : ResolvedExpr) : Prop :=
  ∀ mode span (base : Register) b b' room, ctx.initialTop.toNat ≤ base.toNat →
    b.core.next = base.toNat + room → 1 ≤ room →
    (∀ site ∈ openSites ctx e room, site.safe ctx held = true) →
    lowerOpenExpressionAt ctx e base mode span b = .ok ((), b') →
    Emits (ctx.heldRegister held) base.toNat False b.core b'.core
      ∧ b'.core.next = b.core.next + openTaken ctx e room
      ∧ (mode = .all → b'.core.Produces base)

theorem openSpec_call (hctx : ctx.WellFormed) {callee : ResolvedExpr}
    {arguments : List ResolvedExpr} {span : Span} (hcallee : ExprSpec ctx held callee)
    (hargs : ArgumentsSpec ctx held arguments) (hopen : OpenLastSpec ctx held arguments) :
    OpenSpec ctx held (.call callee arguments span) := by
  intro mode span' base b b' room htop hroom hone hsites h
  simp only [lowerOpenExpressionAt, bind_eq_ok] at h
  obtain ⟨r, b₁, h₁, input, b₂, h₂, result, b₃, h₃, u₄, b₄, h₄, h₅⟩ := h
  obtain ⟨rfl, rfl⟩ := inputOf_eq_ok h₂
  simp only [openSites, List.mem_append] at hsites
  have htop' : ctx.initialTop.toNat ≤ b.core.next := by omega
  have hcall := hcallee b r b₂ htop' (fun site hs => hsites site (.inl (.inl (.inl hs)))) h₁
  obtain ⟨hclear, hsettled⟩ := safe_iff.mp (hsites _ (.inr (List.mem_singleton.mpr rfl)))
  have hhead := HeadInputs.of_callee hctx htop' hcall hsettled
  rw [Builder.core_pc b₂] at hhead
  have hnext := hcall.takes.next
  have hfixed : ∀ fixed ∈ some base, ctx.initialTop.toNat ≤ fixed.toNat
      ∧ fixed.toNat ≤ b₂.core.next ∧ base.toNat ≤ fixed.toNat := by
    rintro fixed ⟨⟩
    exact ⟨htop, by omega, le_rfl⟩
  have hclear' : ∀ fixed ∈ some base,
      (∀ j input, [Input.mk r b₂.pc][j]? = some input →
        ∀ k < j, input.register.toNat ≠ fixed.toNat + k)
      ∧ argumentsClear ctx (b₂.core.next - fixed.toNat) (([] : List Input).length + 1)
        (fixedArguments arguments) = true := by
    rintro fixed ⟨⟩
    refine ⟨fun j input hj k hk => ?_, ?_⟩
    · have := (List.getElem?_eq_some_iff.mp hj).1
      simp only [List.length_singleton] at this
      omega
    · rw [show b₂.core.next - base.toNat = room + registersTaken ctx callee by omega]
      exact hclear
  obtain ⟨hfill, hnext'⟩ := lowerCallInputs_spec hctx hargs hopen h₃
    (hcall.takes.emits.mono (by omega : base.toNat ≤ _) False.elim) (hcall.takes.next_le htop')
    hhead rfl hfixed (by omega) (InputSite.inputsSettled_tail hsettled) hclear'
    (fun site hs => hsites site (.inl (.inl (.inr hs))))
    (fun ho site hs => hsites site (.inl (.inr (by rw [if_pos ho]; exact hs))))
    (by simp only [Option.map_some, Option.getD_some, lastRoom, List.length_nil]; omega)
  have hresult : base = result.1 := UInt16.toNat_inj.mp hfill.base_eq.symm
  rw [hresult] at h₅
  rw [emit_eq_ok h₅, idle_markDynamicTop _ _ _ h₄]
  refine ⟨hfill.call le_rfl mode, ?_, ?_⟩
  · rw [Core.push_next, hnext', openTaken]
    simp only [Option.map_some, Option.getD_some, List.length_nil, windowTaken, lastRoom]
    split <;> simp <;> omega
  · rintro rfl
    exact Core.produces_push _ (by rw [hresult]; rfl)

/-- A result is never in a register that was taken before, locals apart. -/
theorem ResultAt.ne_of_lt (hctx : ctx.WellFormed) {e : ResolvedExpr} {next base : Nat} {r : Register}
    (h : ResultAt ctx e next r) (htop : ctx.initialTop.toNat ≤ base) (hbase : base < next) :
    r.toNat ≠ base := by
  unfold ResultAt at h
  split at h
  · omega
  · obtain ⟨binding, -, hr⟩ := h
    have := hctx.binding_lt binding r hr
    omega

theorem openSpec_methodCall (hctx : ctx.WellFormed) {receiver : ResolvedExpr} {method : List UInt8}
    {arguments : List ResolvedExpr} {span : Span} (hreceiver : ExprSpec ctx held receiver)
    (hargs : ArgumentsSpec ctx held arguments) (hopen : OpenLastSpec ctx held arguments) :
    OpenSpec ctx held (.methodCall receiver method arguments span) := by
  intro mode span' base b b' room htop hroom hone hsites h
  simp only [lowerOpenExpressionAt, bind_eq_ok] at h
  obtain ⟨r, b₁, h₁, input, b₂, h₂, callee, b₃, h₃, result, b₄, h₄, u₅, b₅, h₅, h₆⟩ := h
  obtain ⟨rfl, rfl⟩ := inputOf_eq_ok h₂
  simp only [openSites, List.mem_append] at hsites
  have htop' : ctx.initialTop.toNat ≤ b.core.next := by omega
  have hcall := hreceiver b r b₂ htop' (fun site hs => hsites site (.inl (.inl (.inl hs)))) h₁
  obtain ⟨hclear, hsettled⟩ := safe_iff.mp (hsites _ (.inr (List.mem_singleton.mpr rfl)))
  obtain ⟨hlookup, hregister, hpc⟩ := lookupMethod_takes h₃
  have hhead := HeadInputs.of_receiver hctx htop' hcall hlookup hregister hpc hsettled
  rw [Builder.core_pc b₂] at hhead
  have hnext := hcall.takes.next
  have hnext₃ := hlookup.next
  have htakes := (hcall.takes.mono False.elim rfl).trans hlookup
  have hfixed : ∀ fixed ∈ some base, ctx.initialTop.toNat ≤ fixed.toNat
      ∧ fixed.toNat ≤ b₃.core.next ∧ base.toNat ≤ fixed.toNat := by
    rintro fixed ⟨⟩
    exact ⟨htop, by omega, le_rfl⟩
  have hclear' : ∀ fixed ∈ some base,
      (∀ j input, [callee, Input.mk r b₂.pc][j]? = some input →
        ∀ k < j, input.register.toNat ≠ fixed.toNat + k)
      ∧ argumentsClear ctx (b₃.core.next - fixed.toNat) ([Input.mk r b₂.pc].length + 1)
        (fixedArguments arguments) = true := by
    rintro fixed ⟨⟩
    refine ⟨fun j input hj k hk => ?_, ?_⟩
    · have hlt := (List.getElem?_eq_some_iff.mp hj).1
      simp only [List.length_cons, List.length_nil] at hlt
      obtain rfl : j = 1 := by omega
      obtain rfl : k = 0 := by omega
      cases hj
      exact hcall.result.ne_of_lt hctx htop (by omega)
    · rw [show b₃.core.next - base.toNat = room + registersTaken ctx receiver + 2 by omega]
      exact hclear
  obtain ⟨hfill, hnext'⟩ := lowerCallInputs_spec hctx hargs hopen h₄
    (htakes.emits.mono (by omega : base.toNat ≤ _) id) (htakes.next_le htop')
    hhead rfl hfixed (by omega) (InputSite.inputsSettled_tail hsettled) hclear'
    (fun site hs => hsites site (.inl (.inl (.inr hs))))
    (fun ho site hs => hsites site (.inl (.inr (by rw [if_pos ho]; exact hs))))
    (by
      simp only [Option.map_some, Option.getD_some, lastRoom, List.length_cons, List.length_nil]
      omega)
  have hresult : base = result.1 := UInt16.toNat_inj.mp hfill.base_eq.symm
  rw [hresult] at h₆
  rw [emit_eq_ok h₆, idle_markDynamicTop _ _ _ h₅]
  refine ⟨hfill.call le_rfl mode, ?_, ?_⟩
  · rw [Core.push_next, hnext', openTaken]
    simp only [Option.map_some, Option.getD_some, List.length_cons, List.length_nil, windowTaken,
      lastRoom]
    split <;> simp <;> omega
  · rintro rfl
    exact Core.produces_push _ (by rw [hresult]; rfl)

theorem openSpec_vararg {binding : Option BindingId} {span : Span} :
    OpenSpec ctx held (.vararg binding span) := by
  intro mode span' base b b' room htop hroom hone hsites h
  simp only [lowerOpenExpressionAt, bind_eq_ok] at h
  obtain ⟨u₁, b₁, h₁, h₂⟩ := h
  rw [emit_eq_ok h₂, idle_markDynamicTop _ _ _ h₁]
  refine ⟨.push ⟨rfl, fun _ => rfl⟩ (fun _ hw => hw) False.elim, by simp [openTaken], ?_⟩
  rintro rfl
  exact Core.produces_push _ rfl

theorem openLastSpec_nil : OpenLastSpec ctx held [] := by
  intro span base b b' room _ _ _ _ h
  obtain ⟨-, rfl⟩ := pure_eq_ok.mp h
  exact ⟨.refl, by simp [openLastTaken], fun hne => absurd rfl hne⟩

theorem openLastSpec_cons {argument : ResolvedExpr} {rest : List ResolvedExpr}
    (he : OpenSpec ctx held argument) (hrest : OpenLastSpec ctx held rest) :
    OpenLastSpec ctx held (argument :: rest) := by
  intro span base b b' room htop hroom hone hsites h
  simp only [lowerOpenLast, openLastSites, openLastTaken] at h hsites ⊢
  split at h
  · next hempty =>
    rw [if_pos hempty] at hsites ⊢
    obtain ⟨hemits, hnext, hlast⟩ := he .all span base b b' room htop hroom hone hsites h
    exact ⟨hemits, hnext, fun _ => hlast rfl⟩
  · next hempty =>
    rw [if_neg hempty] at hsites ⊢
    obtain ⟨hemits, hnext, hlast⟩ := hrest span base b b' room htop hroom hone hsites h
    exact ⟨hemits, hnext, fun _ => hlast fun hnil => hempty (by rw [hnil]; rfl)⟩

/-! ### Table constructors -/

/-- Lowering the fields of a table constructor does what it should. -/
def FieldsSpec (ctx : BuilderContext) (held : BindingId → Bool) (fields : List ResolvedTableField) :
    Prop :=
  ∀ table index b b', ctx.initialTop.toNat ≤ b.core.next →
    (∀ site ∈ fieldSites ctx fields, site.safe ctx held = true) →
    lowerFields ctx table index fields b = .ok ((), b') →
    Takes (ctx.heldRegister held) (fields = []) (fieldsTaken ctx fields) b.core b'.core

theorem fieldsSpec_nil : FieldsSpec ctx held [] := by
  intro table index b b' _ _ h
  obtain ⟨-, rfl⟩ := pure_eq_ok.mp h
  exact .refl

/-- `SetTable`. -/
theorem setTable_takes {table key value : Register} {span : Span} {b b' : Builder} {u : Unit}
    (h : emit ctx (.setTable table key value) span none b = .ok (u, b')) :
    Takes captured False 0 b.core b'.core := by
  rw [emit_eq_ok h]
  exact ⟨.push ⟨rfl, fun _ => rfl⟩ (fun _ hw => hw.elim) False.elim, rfl⟩

theorem fieldsSpec_named {name : List UInt8} {value : ResolvedExpr}
    {separator : Option FieldSeparator} {span : Span} {rest : List ResolvedTableField}
    (hv : ExprSpec ctx held value) (hrest : FieldsSpec ctx held rest) :
    FieldsSpec ctx held (.named name value separator span :: rest) := by
  intro table index b b' htop hsites h
  simp only [lowerFields, bind_eq_ok] at h
  obtain ⟨key, b₁, h₁, r, b₂, h₂, u₃, b₃, h₃, h⟩ := h
  simp only [fieldSites, List.mem_append] at hsites
  have hkey : TakesFresh (ctx.heldRegister held) False b.core key b₁.core :=
    constantRegister_takesFresh h₁ False
  have htop₁ := hkey.takes.next_le htop
  have hvalue := hv b₁ r b₂ htop₁ (fun site hs => hsites site (.inl hs)) h₂
  have htakes := (hkey.takes.trans (hvalue.takes.mono False.elim rfl)).trans (setTable_takes h₃)
  have hfields := hrest table index b₃ b' (htakes.next_le htop) (fun site hs => hsites site (.inr hs)) h
  exact (htakes.trans (hfields.mono False.elim rfl)).mono (by simp) (by simp [fieldsTaken])

theorem fieldsSpec_indexed {key value : ResolvedExpr} {separator : Option FieldSeparator}
    {span : Span} {rest : List ResolvedTableField} (hk : ExprSpec ctx held key)
    (hv : ExprSpec ctx held value) (hrest : FieldsSpec ctx held rest) :
    FieldsSpec ctx held (.indexed key value separator span :: rest) := by
  intro table index b b' htop hsites h
  simp only [lowerFields, bind_eq_ok] at h
  obtain ⟨k, b₁, h₁, r, b₂, h₂, u₃, b₃, h₃, h⟩ := h
  simp only [fieldSites, List.mem_append] at hsites
  have hkey := hk b k b₁ htop (fun site hs => hsites site (.inl (.inl hs))) h₁
  have hvalue := hv b₁ r b₂ (hkey.takes.next_le htop) (fun site hs => hsites site (.inl (.inr hs))) h₂
  have htakes := ((hkey.takes.mono False.elim rfl).trans (hvalue.takes.mono False.elim rfl)).trans
    (setTable_takes h₃)
  have hfields := hrest table index b₃ b' (htakes.next_le htop) (fun site hs => hsites site (.inr hs)) h
  exact (htakes.trans (hfields.mono False.elim rfl)).mono (by simp) (by simp [fieldsTaken])

/-- The list writer: the four registers of its window are written before the open values, which
    lie behind them. -/
theorem lowerOpenArrayField_takes {table : Register} {first : Nat} {value : ResolvedExpr}
    {span : Span} {b b' : Builder} (hv : OpenSpec ctx held value)
    (htop : ctx.initialTop.toNat ≤ b.core.next)
    (hsites : ∀ site ∈ openSites ctx value 1, site.safe ctx held = true)
    (h : lowerOpenArrayField ctx table first
      (fun base => lowerOpenExpressionAt ctx value base .all span) span b = .ok ((), b')) :
    Takes (ctx.heldRegister held) False (5 + openTaken ctx value 1) b.core b'.core := by
  simp only [lowerOpenArrayField, bind_eq_ok, get_eq_ok, modify_eq_ok] at h
  obtain ⟨base, b₁, h₁, upvalue, b₂, h₂, firstId, b₃, h₃, skipId, b₄, h₄, u₅, b₅, h₅, r₁, b₆, h₆,
    u₇, b₇, h₇, r₂, b₈, h₈, u₉, b₉, h₉, r₃, b₁₀, h₁₀, u₁₁, b₁₁, h₁₁, producer, b₁₂, h₁₂, u₁₃, b₁₃,
    h₁₃, _, _, ⟨rfl, rfl⟩, callPc, b₁₄, h₁₄, _, _, ⟨rfl, rfl⟩, u₁₅, b₁₅, h₁₅, u₁₆, b₁₆, h₁₆, u₁₇,
    b₁₇, h₁₇, u₁₈, b₁₈, h₁₈, floor, b₁₉, h₁₉, rfl⟩ := h
  obtain ⟨hbase, h₁⟩ := reserveRegisters_eq_ok h₁
  obtain ⟨hr₁, rfl⟩ := registerOffset_eq_ok h₆
  obtain ⟨hr₂, rfl⟩ := registerOffset_eq_ok h₈
  obtain ⟨hr₃, rfl⟩ := registerOffset_eq_ok h₁₀
  obtain ⟨hproducer, rfl⟩ := registerOffset_eq_ok h₁₂
  obtain ⟨hcallPc, rfl⟩ := toU32_eq_ok h₁₄
  obtain ⟨-, rfl⟩ := registerOffset_eq_ok h₁₉
  -- the window of the list writer
  have hwindow : b₁₂.core = ((({ b.core with next := b.core.next + 5 }.push
      (.getUpvalue base upvalue)).push (.move r₁ table)).push (.loadConst r₂ firstId)).push
        (.loadConst r₃ skipId) := by
    rw [emit_eq_ok h₁₁, emit_eq_ok h₉, emit_eq_ok h₇, emit_eq_ok h₅, idle_constant _ _ _ h₄,
      idle_constant _ _ _ h₃, idle_toU16 _ _ _ h₂, h₁]
  have hbefore : Emits (ctx.heldRegister held) b.core.next False b.core b₁₂.core := by
    rw [hwindow]
    refine (((Emits.take (by omega)).trans (.push ⟨rfl, fun _ => rfl⟩ (fun _ hw => ?_)
      False.elim)).trans (.push ⟨rfl, fun _ => rfl⟩ (fun _ hw => ?_) False.elim)).trans
      ((Emits.push ⟨rfl, fun _ => rfl⟩ (fun _ hw => ?_) False.elim).trans
        (.push ⟨rfl, fun _ => rfl⟩ (fun _ hw => ?_) False.elim))
    all_goals
      rw [show _ = _ from hw]
      omega
  have hnext₁₂ : b₁₂.core.next = b.core.next + 5 := by rw [hwindow]; rfl
  obtain ⟨hopen, hnext, -⟩ := hv .all span producer b₁₂ b₁₄ 1 (by omega) (by omega) le_rfl hsites h₁₃
  -- the call, and what is recorded about it
  have hcall : Core.push (Core.push b₁₄.core (.call base dynamicArguments (.fixed 0)))
      (.loadNil base 1) = b₁₉.core := by
    rw [emit_eq_ok h₁₈, ← h₁₇]
    show _ = Core.push b₁₆.core _
    rw [emit_eq_ok h₁₆, ← h₁₅]
    rfl
  have hafter : Emits (ctx.heldRegister held) b.core.next False b₁₄.core
      { b₁₉.core with listWrites := b₁₉.core.listWrites ++ [callPc.toNat] } := by
    rw [← hcall]
    have hlist : b₁₄.core.listWrites ⊆ b₁₄.core.listWrites ++ [callPc.toNat] :=
      List.subset_append_left ..
    have hwrite : Emits (ctx.heldRegister held) b.core.next False b₁₄.core
        { b₁₄.core.push (.call base dynamicArguments (.fixed 0)) with
          listWrites := b₁₄.core.listWrites ++ [callPc.toNat] } := by
      refine .single (fun _ => rfl) (fun register hw => hbase.ge.trans hw) False.elim hlist
        fun _ _ _ => .inl ?_
      rw [hcallPc, Builder.core_pc]
      exact List.mem_append_right _ (List.mem_singleton.mpr rfl)
    exact hwrite.trans (.push ⟨rfl, fun _ => rfl⟩ (fun register hw => hbase.ge.trans hw.1) False.elim)
  have hlast : Builder.core { b₁₉ with
      nativeListWrites := b₁₉.nativeListWrites ++ [⟨callPc, base⟩]
      helperPrivateFloor := max b₁₉.helperPrivateFloor floor }
      = { b₁₉.core with listWrites := b₁₉.core.listWrites ++ [callPc.toNat] } := by
    simp [Builder.core, Builder.code, Builder.waiting]
  rw [hlast]
  refine ⟨(hbefore.trans (hopen.mono (by omega) id)).trans hafter, ?_⟩
  show b₁₉.core.next = _
  rw [← hcall, Core.push_next, Core.push_next, hnext, hnext₁₂, Nat.add_assoc]

theorem fieldsSpec_array {value : ResolvedExpr} {separator : Option FieldSeparator} {span : Span}
    {rest : List ResolvedTableField} (hv : ExprSpec ctx held value) (ho : OpenSpec ctx held value)
    (hrest : FieldsSpec ctx held rest) :
    FieldsSpec ctx held (.array value separator span :: rest) := by
  intro table index b b' htop hsites h
  simp only [lowerFields, fieldSites, fieldsTaken] at h hsites ⊢
  split at h
  · next hlast =>
    rw [if_pos hlast] at hsites ⊢
    exact (lowerOpenArrayField_takes ho htop hsites h).mono (by simp) rfl
  · next hlast =>
    rw [if_neg hlast] at hsites ⊢
    simp only [bind_eq_ok] at h
    obtain ⟨key, b₁, h₁, u₂, b₂, h₂, r, b₃, h₃, u₄, b₄, h₄, h⟩ := h
    simp only [List.mem_append] at hsites
    have hkey : TakesFresh (ctx.heldRegister held) False b.core key b₂.core := by
      rw [idle_stopIf _ _ _ h₂]
      exact constantRegister_takesFresh h₁ False
    have hvalue := hv b₂ r b₃ (hkey.takes.next_le htop) (fun site hs => hsites site (.inl hs)) h₃
    have htakes := (hkey.takes.trans (hvalue.takes.mono False.elim rfl)).trans (setTable_takes h₄)
    have hfields := hrest table (index + 1) b₄ b' (htakes.next_le htop)
      (fun site hs => hsites site (.inr hs)) h
    exact (htakes.trans (hfields.mono False.elim rfl)).mono (by simp) rfl

theorem tableConstructor_spec {fields : List ResolvedTableField} {span : Span}
    (hfields : FieldsSpec ctx held fields) : ExprSpec ctx held (.tableConstructor fields span) := by
  intro b r b' htop hsites h
  simp only [lowerExpr, bind_eq_ok, pure_eq_ok] at h
  obtain ⟨table, b₁, h₁, u₂, b₂, h₂, u₃, b₃, h₃, rfl, rfl⟩ := h
  simp only [exprSites] at hsites
  have htable : TakesFresh (ctx.heldRegister held) (fields = []) b.core table b₂.core :=
    takesFresh_of_emit h₁ rfl h₂ ⟨rfl, fun _ => rfl⟩ (fun _ hw => hw.ge) fun _ => rfl
  have hrest := hfields table 1 b₂ b₃ (htable.takes.next_le htop) hsites h₃
  refine ⟨(htable.takes.trans hrest).mono ?_ (by simp [registersTaken]), ?_⟩
  · simp [isQuiet]
  · have hplace : resultPlace ctx (.tableConstructor fields span) = some 0 := rfl
    exact (resultAt_some hplace).mpr htable.result

/-! ### All expressions -/

theorem openSpec_other {e : ResolvedExpr} (h : isOpenExpression e = false) :
    OpenSpec ctx held e := by
  intro mode span base b b' room _ _ _ _ hrun
  cases e <;> simp only [isOpenExpression, Bool.true_eq_false] at h
  all_goals
    simp only [lowerOpenExpressionAt] at hrun
    cases hrun

mutual

/-- Lowering an expression takes the registers of its layout, writes no other, and places the
    windows of its calls, if all its sites are safe. -/
theorem lowerExpr_spec (hctx : ctx.WellFormed) : ∀ e : ResolvedExpr, ExprSpec ctx held e
  | .literal _ _ => fun b r b' _ _ h => by
    rw [lowerExpr] at h
    exact (constantRegister_takesFresh h _).lowersTo (by simp [registersTaken]) rfl
  | .nil _ => fun b r b' _ _ h => by
    rw [lowerExpr] at h
    exact (nilRegister_takesFresh h _).lowersTo (by simp [registersTaken]) rfl
  | .bool _ _ => fun b r b' _ _ h => by
    rw [lowerExpr] at h
    exact (constantRegister_takesFresh h _).lowersTo (by simp [registersTaken]) rfl
  | .name _ _ _ => fun b r b' _ _ h => by
    rw [lowerExpr] at h
    exact lowerName_spec h
  | .vararg _ _ => fun b r b' _ _ h => by
    simp only [lowerExpr, bind_eq_ok, pure_eq_ok] at h
    obtain ⟨base, b₁, h₁, u, b₂, h₂, rfl, rfl⟩ := h
    obtain ⟨hbase, h₁⟩ := reserveRegisters_eq_ok h₁
    have hfresh : TakesFresh (ctx.heldRegister held) True b.core base b₂.core := by
      rw [emit_eq_ok h₂, h₁]
      exact ⟨⟨(Emits.take (by omega)).trans (.push ⟨rfl, fun _ => rfl⟩
        (fun _ hw => hbase.ge.trans hw) fun _ => rfl), rfl⟩, hbase⟩
    exact TakesFresh.lowersTo ⟨hfresh.takes.mono (fun _ => trivial) rfl, hfresh.result⟩
      (by simp [registersTaken]) rfl
  | .unary _ e _ => unary_spec (lowerExpr_spec hctx e)
  | .binary _ left right _ => binary_spec (lowerExpr_spec hctx left) (lowerExpr_spec hctx right)
  | .paren e _ => paren_spec (lowerExpr_spec hctx e)
  | .index e index _ => index_spec (lowerExpr_spec hctx e) (lowerExpr_spec hctx index)
  | .field e _ _ => field_spec (lowerExpr_spec hctx e)
  | .call callee arguments _ => call_spec (prepare_call hctx (lowerExpr_spec hctx callee)
      (lowerFixedArguments_spec hctx arguments) (lowerOpenLast_spec hctx arguments))
  | .methodCall receiver _ arguments _ =>
    methodCall_spec (prepare_methodCall hctx (lowerExpr_spec hctx receiver)
      (lowerFixedArguments_spec hctx arguments) (lowerOpenLast_spec hctx arguments))
  | .function _ _ => fun b r b' _ _ h => by
    rw [lowerExpr] at h
    exact (lowerFunction_takesFresh h _).lowersTo (by simp [registersTaken]) rfl
  | .tableConstructor fields _ => tableConstructor_spec (lowerFields_spec hctx fields)

theorem lowerFixedArguments_spec (hctx : ctx.WellFormed) :
    ∀ arguments : List ResolvedExpr, ArgumentsSpec ctx held arguments
  | [] => argumentsSpec_nil
  | argument :: rest =>
    argumentsSpec_cons hctx (lowerExpr_spec hctx argument) (lowerFixedArguments_spec hctx rest)

theorem lowerOpenLast_spec (hctx : ctx.WellFormed) :
    ∀ arguments : List ResolvedExpr, OpenLastSpec ctx held arguments
  | [] => openLastSpec_nil
  | argument :: rest =>
    openLastSpec_cons (lowerOpenExpressionAt_spec hctx argument) (lowerOpenLast_spec hctx rest)

/-- Lowering an open expression at a register writes no register below it and places the windows
    of its calls, if all its sites are safe. -/
theorem lowerOpenExpressionAt_spec (hctx : ctx.WellFormed) :
    ∀ e : ResolvedExpr, OpenSpec ctx held e
  | .call callee arguments _ => openSpec_call hctx (lowerExpr_spec hctx callee)
      (lowerFixedArguments_spec hctx arguments) (lowerOpenLast_spec hctx arguments)
  | .methodCall receiver _ arguments _ => openSpec_methodCall hctx (lowerExpr_spec hctx receiver)
      (lowerFixedArguments_spec hctx arguments) (lowerOpenLast_spec hctx arguments)
  | .vararg _ _ => openSpec_vararg
  | .literal _ _ | .nil _ | .bool _ _ | .name _ _ _ | .unary _ _ _ | .binary _ _ _ _ | .paren _ _
  | .index _ _ _ | .field _ _ _ | .function _ _ | .tableConstructor _ _ => openSpec_other rfl

theorem lowerFields_spec (hctx : ctx.WellFormed) :
    ∀ fields : List ResolvedTableField, FieldsSpec ctx held fields
  | [] => fieldsSpec_nil
  | .array value _ _ :: rest => fieldsSpec_array (lowerExpr_spec hctx value)
      (lowerOpenExpressionAt_spec hctx value) (lowerFields_spec hctx rest)
  | .named _ value _ _ :: rest =>
    fieldsSpec_named (lowerExpr_spec hctx value) (lowerFields_spec hctx rest)
  | .indexed key value _ _ :: rest => fieldsSpec_indexed (lowerExpr_spec hctx key)
      (lowerExpr_spec hctx value) (lowerFields_spec hctx rest)

end

/-- Preparing a call, as a statement or a tail call does. -/
theorem prepareOpenCall_spec (hctx : ctx.WellFormed) : ∀ e : ResolvedExpr, PrepareSpec ctx held e
  | .call callee arguments _ => prepare_call hctx (lowerExpr_spec hctx callee)
      (lowerFixedArguments_spec hctx arguments) (lowerOpenLast_spec hctx arguments)
  | .methodCall receiver _ arguments _ => prepare_methodCall hctx (lowerExpr_spec hctx receiver)
      (lowerFixedArguments_spec hctx arguments) (lowerOpenLast_spec hctx arguments)
  | .literal _ _ | .nil _ | .bool _ _ | .name _ _ _ | .unary _ _ _ | .binary _ _ _ _ | .paren _ _
  | .index _ _ _ | .field _ _ _ | .function _ _ | .tableConstructor _ _ | .vararg _ _ =>
    fun span b result b' _ _ h => by cases h

end RivetLua.Compiler
