import RivetLua.Compiler.CallWindows

namespace RivetLua.Compiler

open StateExcept
open RivetLua.Bytecode (Register Instruction ResultMode)

/-!
# Compiler — the windows of expression lists

The values of a declaration, an assignment or a return are collected in consecutive registers.

* `lowerFixedValues_spec` — a list of which a fixed number of values is wanted: every value is
  copied as soon as it is evaluated;
* `lowerReturnValues_spec` — the values of a return: in front of an open last one they are
  evaluated first and copied afterwards, like the inputs of a call.
-/

variable {ctx : BuilderContext} {held : BindingId → Bool} {captured : Nat → Prop}

/-! ### A fixed number of values -/

theorem openSlots_eq_ok {span : Span} {e : ResolvedExpr} {b b' : Builder} {slots : Nat}
    (h : openSlots span e b = .ok (slots, b')) : slots = openSlotCount e ∧ b' = b := by
  cases e <;> cases h <;> exact ⟨rfl, rfl⟩

theorem fixedValueSlots_eq_ok {values : List ResolvedExpr} {count : Nat} {span : Span}
    {b b' : Builder} {slots : Nat} (h : fixedValueSlots values count span b = .ok (slots, b')) :
    slots = listSlots values count ∧ b' = b := by
  unfold fixedValueSlots at h
  unfold listSlots
  cases hlast : values.getLast? with
  | none =>
    rw [hlast] at h
    obtain ⟨rfl, rfl⟩ := pure_eq_ok.mp h
    exact ⟨rfl, rfl⟩
  | some last =>
    simp only [hlast] at h ⊢
    split at h
    · next hopen =>
      simp only [bind_eq_ok, pure_eq_ok] at h
      obtain ⟨slots', b₁, h₁, rfl, rfl⟩ := h
      obtain ⟨rfl, rfl⟩ := openSlots_eq_ok h₁
      exact ⟨(if_pos hopen).symm, rfl⟩
    · next hopen =>
      obtain ⟨rfl, rfl⟩ := pure_eq_ok.mp h
      exact ⟨(if_neg hopen).symm, rfl⟩

theorem le_listSlots (values : List ResolvedExpr) (count : Nat) :
    count ≤ listSlots values count := by
  unfold listSlots
  split
  · split <;> omega
  · exact le_rfl

/-- An input that has been copied into the register `place` and is kept there. -/
def Input.PlacedAt (captured : Nat → Prop) (c : Core) (place : Nat) (input : Input) : Prop :=
  ∃ (dest : Register) (move : Nat), dest.toNat = place ∧ input.pc ≤ move ∧ move < c.pc
    ∧ c.code[move]? = some (.move dest input.register)
    ∧ KeepsRegister c.code captured input.register.toNat input.pc move
    ∧ KeepsRegister c.code captured dest.toNat (move + 1) c.pc

theorem Input.PlacedAt.extend {c c' : Core} {place floor : Nat} {quiet : Prop} {input : Input}
    (h : input.PlacedAt captured c place) (hemits : Emits captured floor quiet c c')
    (hfloor : place < floor) (hplace : ¬ captured place) : input.PlacedAt captured c' place := by
  obtain ⟨dest, move, rfl, hle, hlt, hcode, hbefore, hafter⟩ := h
  refine ⟨dest, move, rfl, hle, hlt.trans_le hemits.pc_le, ?_, ?_, ?_⟩
  · rw [hemits.getElem? hlt]
    exact hcode
  · exact hbefore.congr fun pc hpc => hemits.getElem? (hpc.trans hlt)
  · exact (hafter.congr fun pc hpc => hemits.getElem? hpc).append
      (hemits.above.keepsRegister hfloor fun hc => absurd hc hplace) hemits.pc_le

/-- What collecting values from the register `base + filled` on does. -/
structure Collects (captured : Nat → Prop) (base filled : Nat) (c : Core) (filled' : Nat)
    (inputs : List Input) (c' : Core) : Prop where
  emits : Emits captured (base + filled) False c c'
  placed : ∀ j input, inputs[j]? = some input → input.PlacedAt captured c' (base + filled + j)
    ∧ c.pc ≤ input.pc ∧ filled + j < filled'

/-- The loop over the values.  `room` registers from `base` on are taken. -/
theorem lowerValuesInto_spec (hctx : ctx.WellFormed) {base : Register} {count : Nat} {span : Span}
    (htop : ctx.initialTop.toNat ≤ base.toNat) :
    ∀ {values : List ResolvedExpr} {room filled filled' : Nat} {inputs : List Input}
      {b b' : Builder}, b.core.next = base.toNat + room → count ≤ room → filled ≤ count →
      (∀ site ∈ listSites ctx count room filled values, site.safe ctx held = true) →
      lowerValuesInto ctx base count span filled values b = .ok ((filled', inputs), b') →
      Collects (ctx.heldRegister held) base.toNat filled b.core filled' inputs b'.core
        ∧ filled ≤ filled' := by
  intro values
  induction values with
  | nil =>
    intro room filled filled' inputs b b' _ _ _ _ h
    obtain ⟨heq, rfl⟩ := pure_eq_ok.mp h
    cases heq
    exact ⟨⟨.refl, by simp⟩, le_rfl⟩
  | cons value rest ih =>
    intro room filled filled' inputs b b' hroom hcount hfilled hsites h
    simp only [lowerValuesInto] at h
    simp only [listSites] at hsites
    have htop' : ctx.initialTop.toNat ≤ b.core.next := by omega
    split at h
    · next hlast =>
      rw [if_pos hlast] at hsites
      split at h
      · -- the value is evaluated and dropped
        next hzero =>
        rw [if_pos hzero] at hsites
        simp only [bind_eq_ok, pure_eq_ok] at h
        obtain ⟨r, b₁, h₁, heq, rfl⟩ := h
        cases heq
        have hvalue := lowerExpr_spec hctx value b r b₁ htop' hsites h₁
        exact ⟨⟨hvalue.takes.emits.mono (by omega) False.elim, by simp⟩, le_rfl⟩
      · next hzero =>
        rw [if_neg hzero] at hsites
        simp only [bind_eq_ok, pure_eq_ok] at h
        obtain ⟨resultCount, b₁, h₁, r, b₂, h₂, u₃, b₃, h₃, heq, rfl⟩ := h
        cases heq
        obtain ⟨-, rfl⟩ := toU16_eq_ok h₁
        obtain ⟨hr, rfl⟩ := registerOffset_eq_ok h₂
        obtain ⟨hemits, -⟩ := lowerOpenExpressionAt_spec hctx value _ span r b₂ b₃ (room - filled)
          (by omega) (by omega) (by omega) hsites h₃
        rw [hr] at hemits
        exact ⟨⟨hemits, by simp⟩, hfilled⟩
    · next hlast =>
      rw [if_neg hlast] at hsites
      simp only [List.mem_append] at hsites
      obtain ⟨r, b₁, h₁, h⟩ := bind_eq_ok.mp h
      obtain ⟨input, b₂, h₂, h⟩ := bind_eq_ok.mp h
      obtain ⟨rfl, rfl⟩ := inputOf_eq_ok h₂
      have hvalue := lowerExpr_spec hctx value b r b₂ htop' (fun site hs => hsites site (.inl hs)) h₁
      have hnext := hvalue.takes.next
      have hemits : Emits (ctx.heldRegister held) (base.toNat + filled) False b.core b₂.core :=
        hvalue.takes.emits.mono (by omega) False.elim
      split at h
      · next hmore =>
        rw [if_pos hmore] at hsites
        simp only [bind_eq_ok, pure_eq_ok] at h
        obtain ⟨dest, b₃, h₃, u₄, b₄, h₄, ⟨filled'', inputs'⟩, b₅, h₅, heq, rfl⟩ := h
        cases heq
        obtain ⟨hdest, rfl⟩ := registerOffset_eq_ok h₃
        have h₄ := emit_eq_ok h₄
        obtain ⟨hrest, hle⟩ := ih (by rw [h₄, Core.push_next, hnext, hroom, Nat.add_assoc])
          (by omega) hmore (fun site hs => hsites site (.inr hs)) h₅
        rw [h₄] at hrest
        have hmove : Emits (ctx.heldRegister held) (base.toNat + filled) False b₃.core
            (b₃.core.push (.move dest r)) :=
          .push ⟨rfl, fun _ => rfl⟩ (fun _ hw => hdest.ge.trans hw.ge) False.elim
        refine ⟨⟨(hemits.trans hmove).trans (hrest.emits.mono (by omega) id), ?_⟩, by omega⟩
        intro j input hj
        cases j with
        | zero =>
          obtain rfl : Input.mk r b₃.pc = input := Option.some.inj hj
          have hnow : Input.PlacedAt (ctx.heldRegister held) (b₃.core.push (.move dest r))
              (base.toNat + filled) ⟨r, b₃.pc⟩ := by
            refine ⟨dest, b₃.core.pc, hdest, (Builder.core_pc b₃).ge, by simp,
              List.getElem?_concat_length, ?_, ?_⟩
            · intro pc instruction hstart hstop
              exact absurd ((Builder.core_pc b₃).trans_le hstart) hstop.not_ge
            · intro pc instruction hstart hstop
              exact absurd ((Core.push_pc ..).trans_le hstart) hstop.not_ge
          refine ⟨hnow.extend hrest.emits (by omega) (hctx.not_held (by omega)), ?_, by omega⟩
          rw [← Builder.core_pc]
          exact hvalue.takes.emits.pc_le
        | succ j =>
          obtain ⟨hplaced, hpc, hlt⟩ := hrest.placed j input hj
          refine ⟨?_, ?_, by omega⟩
          · rw [show base.toNat + filled + (j + 1) = base.toNat + (filled + 1) + j by omega]
            exact hplaced
          · exact (hemits.pc_le.trans hmove.pc_le).trans hpc
      · next hmore =>
        rw [if_neg hmore] at hsites
        obtain ⟨hrest, hle⟩ := ih (by rw [hnext, hroom, Nat.add_assoc]) (by omega) hfilled
          (fun site hs => hsites site (.inr hs)) h
        refine ⟨⟨hemits.trans hrest.emits, fun j input hj => ?_⟩, hle⟩
        obtain ⟨hplaced, hpc, hlt⟩ := hrest.placed j input hj
        exact ⟨hplaced, hemits.pc_le.trans hpc, hlt⟩

theorem fillNil_emits {base : Register} {span : Span} {missing : Nat} :
    ∀ {index : Nat} {b b' : Builder} {u : Unit},
      fillNil ctx base span index missing b = .ok (u, b') →
      Emits captured (base.toNat + index) False b.core b'.core := by
  induction missing with
  | zero =>
    intro index b b' u h
    obtain ⟨-, rfl⟩ := pure_eq_ok.mp h
    exact .refl
  | succ missing ih =>
    intro index b b' u h
    simp only [fillNil, bind_eq_ok] at h
    obtain ⟨r, b₁, h₁, u₂, b₂, h₂, h⟩ := h
    obtain ⟨hr, rfl⟩ := registerOffset_eq_ok h₁
    have hrest := ih h
    rw [emit_eq_ok h₂] at hrest
    have hnil : Emits captured (base.toNat + index) False b₁.core (b₁.core.push (.loadNil r 1)) :=
      .push ⟨rfl, fun _ => rfl⟩ (fun _ hw => hr.ge.trans hw.1) False.elim
    exact hnil.trans (hrest.mono (by omega) id)

theorem fillNil_next {base : Register} {span : Span} {missing : Nat} :
    ∀ {index : Nat} {b b' : Builder} {u : Unit},
      fillNil ctx base span index missing b = .ok (u, b') → b'.core.next = b.core.next := by
  induction missing with
  | zero =>
    intro index b b' u h
    obtain ⟨-, rfl⟩ := pure_eq_ok.mp h
    rfl
  | succ missing ih =>
    intro index b b' u h
    simp only [fillNil, bind_eq_ok] at h
    obtain ⟨r, b₁, h₁, u₂, b₂, h₂, h⟩ := h
    obtain ⟨-, rfl⟩ := registerOffset_eq_ok h₁
    rw [ih h, emit_eq_ok h₂, Core.push_next]

/-- All values of a list without an open last one are inputs, if so many are wanted. -/
theorem lowerValuesInto_length {base : Register} {count : Nat} {span : Span} :
    ∀ {values : List ResolvedExpr} {filled filled' : Nat} {inputs : List Input} {b b' : Builder},
      openLast? values = false → filled + values.length ≤ count →
      lowerValuesInto ctx base count span filled values b = .ok ((filled', inputs), b') →
      inputs.length = values.length := by
  intro values
  induction values with
  | nil =>
    intro filled filled' inputs b b' _ _ h
    obtain ⟨heq, -⟩ := pure_eq_ok.mp h
    cases heq
    rfl
  | cons value rest ih =>
    intro filled filled' inputs b b' hclosed hcount h
    rw [List.length_cons] at hcount
    have hlast : ¬ (rest.isEmpty && isOpenExpression value) = true := by
      rintro h
      obtain ⟨hempty, hopen⟩ := Bool.and_eq_true_iff.mp h
      rw [List.isEmpty_iff.mp hempty, openLast?, List.getLast?_singleton, Option.any_some,
        hopen] at hclosed
      cases hclosed
    have hmore : filled < count := by omega
    simp only [lowerValuesInto, if_neg hlast, if_pos hmore, bind_eq_ok, pure_eq_ok] at h
    obtain ⟨r, b₁, h₁, input, b₂, h₂, dest, b₃, h₃, u₄, b₄, h₄, ⟨filled'', inputs'⟩, b₅, h₅, heq,
      rfl⟩ := h
    cases heq
    have hrest : openLast? rest = false := by
      cases rest with
      | nil => rfl
      | cons => exact hclosed
    rw [List.length_cons, ih hrest (by omega) h₅, List.length_cons]

/-- A fixed number of values: they stand in fresh registers from the result on. -/
theorem lowerFixedValues_spec (hctx : ctx.WellFormed) {values : List ResolvedExpr} {count : Nat}
    {span : Span} {b b' : Builder} {base : Register} (htop : ctx.initialTop.toNat ≤ b.core.next)
    (hsites : ∀ site ∈ valueSites ctx values count, site.safe ctx held = true)
    (h : lowerFixedValues ctx values count span b = .ok (base, b')) :
    Emits (ctx.heldRegister held) b.core.next False b.core b'.core
      ∧ base.toNat = b.core.next ∧ base.toNat + count ≤ b'.core.next
      ∧ ∃ w ∈ b'.core.windows, w.base = base ∧ w.ready = b'.core.pc
        ∧ (openLast? values = false → values.length = count → w.inputs.length = count) := by
  simp only [lowerFixedValues, bind_eq_ok, pure_eq_ok] at h
  obtain ⟨slots, b₁, h₁, start, b₂, h₂, base', b₃, h₃, ⟨filled, inputs⟩, b₄, h₄, u₅, b₅, h₅, u₆, b₆,
    h₆, rfl, rfl⟩ := h
  obtain ⟨rfl, rfl⟩ := fixedValueSlots_eq_ok h₁
  obtain ⟨rfl, rfl⟩ := currentPc_eq_ok h₂
  obtain ⟨hbase, h₃⟩ := reserveRegisters_eq_ok h₃
  have hslots := le_listSlots values count
  have htake : Emits (ctx.heldRegister held) base'.toNat False b₂.core b₃.core := by
    rw [h₃]
    exact .take (by omega)
  have hnext₃ : b₃.core.next = base'.toNat + listSlots values count := by
    rw [h₃, hbase]
  obtain ⟨hcollects, -⟩ := lowerValuesInto_spec hctx (by omega) hnext₃ hslots (Nat.zero_le _)
    hsites h₄
  have hnil : Emits (ctx.heldRegister held) (base'.toNat + filled) False b₄.core b₅.core :=
    fillNil_emits h₅
  have hall : Emits (ctx.heldRegister held) base'.toNat False b₂.core b₅.core :=
    (htake.trans (hcollects.emits.mono (by omega) id)).trans (hnil.mono (by omega) id)
  rw [recordWindow_eq_ok h₆, ← Builder.core_pc, ← Builder.core_pc]
  refine ⟨?_, hbase, ?_, _, List.mem_append_right _ (List.mem_singleton.mpr rfl), rfl, rfl, ?_⟩
  · rw [← hbase]
    have hplaced : ∀ j input, inputs[j]? = some input →
        Input.PlacedAt (ctx.heldRegister held) b₅.core (base'.toNat + j) input := by
      intro j input hj
      obtain ⟨hplaced, -, hlt⟩ := hcollects.placed j input hj
      exact hplaced.extend hnil (by omega) (hctx.not_held (by omega))
    have hfree : ∀ register, base'.toNat ≤ register → ¬ ctx.heldRegister held register :=
      fun register hr => hctx.not_held (by omega)
    refine hall.record ⟨fun j input hj => hplaced j input hj, hall.above, hall.pc_le, hfree⟩ rfl ?_
    rintro pc ⟨-, hpc | ⟨input, hi, hpc⟩⟩
    · exact hpc
    · obtain ⟨j, hj⟩ := List.mem_iff_getElem?.mp hi
      exact (htake.pc_le.trans (hcollects.placed j input hj).2.1).trans hpc
  · show _ ≤ b₅.core.next
    have := hcollects.emits.next_le
    rw [fillNil_next h₅]
    omega
  · intro hclosed hlength
    exact (lowerValuesInto_length hclosed (by omega) h₄).trans hlength

/-! ### The values of a return -/

theorem lowerInputs_spec (hctx : ctx.WellFormed) :
    ∀ {es : List ResolvedExpr} {b b' : Builder} {inputs : List Input},
      ctx.initialTop.toNat ≤ b.core.next →
      (∀ site ∈ es.flatMap (exprSites ctx), site.safe ctx held = true) →
      lowerInputs ctx es b = .ok (inputs, b') → EvaluatesTo ctx held es b.core inputs b'.core := by
  intro es
  induction es with
  | nil =>
    intro b b' inputs _ _ h
    obtain ⟨rfl, rfl⟩ := pure_eq_ok.mp h
    exact .nil
  | cons e es ih =>
    intro b b' inputs htop hsites h
    simp only [lowerInputs, bind_eq_ok, pure_eq_ok] at h
    obtain ⟨r, b₁, h₁, input, b₂, h₂, inputs', b₃, h₃, rfl, rfl⟩ := h
    obtain ⟨rfl, rfl⟩ := inputOf_eq_ok h₂
    simp only [List.flatMap_cons, List.mem_append] at hsites
    have he := lowerExpr_spec hctx e b r b₂ htop (fun site hs => hsites site (.inl hs)) h₁
    have hes := ih (he.takes.next_le htop) (fun site hs => hsites site (.inr hs)) h₃
    rw [← Builder.core_pc]
    exact .cons hctx htop he hes

/-- The values of a return, and the window that holds them, unless there are none. -/
theorem lowerReturnValues_spec (hctx : ctx.WellFormed) {values : List ResolvedExpr} {span : Span}
    {b b' : Builder} {result : Register × ResultMode} (htop : ctx.initialTop.toNat ≤ b.core.next)
    (hsites : ∀ site ∈ returnSites ctx values, site.safe ctx held = true)
    (h : lowerReturnValues ctx values span b = .ok (result, b')) :
    Emits (ctx.heldRegister held) b.core.next False b.core b'.core
      ∧ (result.2 = .fixed 0 ∨ b'.core.ReadyFor result.1 (.results result.2)) := by
  unfold lowerReturnValues at h
  unfold returnSites at hsites
  cases hlast : values.getLast? with
  | none =>
    rw [hlast] at h
    obtain ⟨rfl, rfl⟩ := pure_eq_ok.mp h
    exact ⟨.refl, .inl rfl⟩
  | some last =>
    simp only [hlast] at h hsites
    split at h
    · next hopen =>
      rw [if_pos hopen] at hsites
      simp only [List.mem_append] at hsites
      simp only [bind_eq_ok, get_eq_ok, pure_eq_ok] at h
      obtain ⟨start, b₀, h₀, _, _, ⟨rfl, rfl⟩, inputs, b₁, h₁, slots, b₂, h₂, base, b₃, h₃, u₄, b₄, h₄,
        producer, b₅, h₅, u₆, b₆, h₆, u₇, b₇, h₇, rfl, rfl⟩ := h
      obtain ⟨rfl, rfl⟩ := currentPc_eq_ok h₀
      obtain ⟨rfl, rfl⟩ := openSlots_eq_ok h₂
      obtain ⟨hbase, h₃⟩ := reserveRegisters_eq_ok h₃
      obtain ⟨hproducer, rfl⟩ := registerOffset_eq_ok h₅
      have hinputs := lowerInputs_spec hctx htop (fun site hs => hsites site (.inl (.inl hs))) h₁
      obtain ⟨-, hsettled⟩ :=
        safe_iff.mp (hsites _ (.inl (.inr (List.mem_singleton.mpr rfl))))
      have hsettled : inputsSettled held values.dropLast = true := by
        simpa [InputSite.settled] using hsettled
      have hone : 1 ≤ openSlotCount last := by
        unfold openSlotCount
        split <;> omega
      have hle := hinputs.takes.emits.next_le
      have hcopied := moveInputs_copied h₄
      rw [h₃] at hcopied
      have hnext₅ : b₅.core.next = b₂.core.next + (inputs.length + openSlotCount last) :=
        hcopied.next
      obtain ⟨hlast', -, hproduces⟩ := lowerOpenExpressionAt_spec hctx last .all span producer b₅ b₆
        (openSlotCount last) (by omega) (by omega) hone (fun site hs => hsites site (.inr hs)) h₆
      rw [hproducer] at hlast'
      have hclear : ∀ j input, inputs[j]? = some input →
          ∀ k < j, input.register.toNat ≠ base.toNat + k := fun j input hj k _ => by
        have := hinputs.below input (List.mem_of_getElem? hj)
        omega
      rw [recordWindow_eq_ok h₇, ← Builder.core_pc, ← Builder.core_pc]
      refine ⟨?_, .inr ⟨_, List.mem_append_right _ (List.mem_singleton.mpr rfl), rfl, rfl, ?_⟩⟩
      · exact fill_emits .refl (hinputs.takes.emits.mono le_rfl False.elim) le_rfl
          (hle.trans hbase.ge) (Nat.le_add_right ..) (hinputs.kept hsettled) hcopied hlast' hclear
          fun register hr => hctx.not_held (by omega)
      · obtain ⟨last, instruction, hpc, hcode, hopen⟩ := (hproduces rfl).last
        exact ⟨last, instruction, producer, hpc, hcode, hopen, hproducer⟩
    · next hopen =>
      rw [if_neg hopen] at hsites
      simp only [bind_eq_ok, pure_eq_ok] at h
      obtain ⟨base, b₁, h₁, count, b₂, h₂, rfl, rfl⟩ := h
      obtain ⟨hcount, rfl⟩ := toU16_eq_ok h₂
      obtain ⟨hemits, -, -, w, hw, hbase, hready, hlength⟩ :=
        lowerFixedValues_spec hctx htop hsites h₁
      refine ⟨hemits, .inr ⟨w, hw, hbase, hready, ?_⟩⟩
      have hclosed : openLast? values = false := by
        rw [openLast?, hlast, Option.any_some]
        exact Bool.eq_false_iff.mpr hopen
      exact (hlength hclosed rfl).trans hcount.symm

end RivetLua.Compiler
