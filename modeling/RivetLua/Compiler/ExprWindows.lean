import RivetLua.Compiler.WindowFill

namespace RivetLua.Compiler

open StateExcept
open RivetLua.Bytecode (Register Instruction InstructionOffset dynamicArguments)

/-!
# Compiler — the registers of expressions

Lowering an expression takes the registers that `registersTaken` counts, leaves the value where
`resultPlace` says, and places the windows of the calls inside, provided that all its sites are
safe.

* `BuilderContext.WellFormed` — the frame: bindings have distinct registers below `initialTop`;
* `LowersTo` — what lowering an expression does;
* `unary_spec`, `binary_spec`, … — it does so for each form of expression without a window, if it
  does so for the parts.
-/

/-! ### The frame -/

/-- The bindings and the environment have registers below `initialTop`; no two bindings share
    one. -/
structure BuilderContext.WellFormed (ctx : BuilderContext) : Prop where
  binding_lt : ∀ binding r, ctx.registerOf binding = some r → r.toNat < ctx.initialTop.toNat
  binding_inj : ∀ binding binding' r, ctx.registerOf binding = some r →
    ctx.registerOf binding' = some r → binding = binding'
  environment_lt : ctx.globalEnvironment.toNat < ctx.initialTop.toNat

variable {ctx : BuilderContext} {held : BindingId → Bool}

theorem BuilderContext.WellFormed.not_held (hctx : ctx.WellFormed) {register : Nat}
    (h : ctx.initialTop.toNat ≤ register) : ¬ ctx.heldRegister held register := by
  rintro ⟨binding, r, -, hr, rfl⟩
  exact absurd (hctx.binding_lt binding r hr) h.not_gt

/-! ### Results -/

/-- The value of an expression is where the layout says; a local is in its own register. -/
def ResultAt (ctx : BuilderContext) (e : ResolvedExpr) (next : Nat) (r : Register) : Prop :=
  match resultPlace ctx e with
  | some place => r.toNat = next + place
  | none => ∃ binding, (∀ held, isHeldLocal held e = held binding)
    ∧ ctx.registerOf binding = some r

theorem resultAt_some {e : ResolvedExpr} {next place : Nat} {r : Register}
    (h : resultPlace ctx e = some place) : ResultAt ctx e next r ↔ r.toNat = next + place := by
  unfold ResultAt
  rw [h]

theorem resultPlace_lt : ∀ {e : ResolvedExpr} {place : Nat},
    resultPlace ctx e = some place → place < registersTaken ctx e
  | .literal _ _, _, h | .nil _, _, h | .bool _ _, _, h | .vararg _ _, _, h
  | .function _ _, _, h | .tableConstructor _ _, _, h | .unary _ _ _, _, h | .index _ _ _, _, h
  | .field _ _ _, _, h => by
    cases h
    simp only [registersTaken]
    omega
  | .name _ resolution _, _, h => by
    cases resolution <;> cases h <;> simp only [registersTaken, nameTaken]
    · omega
    · split <;> omega
    · omega
  | .binary op left right _, _, h => by
    simp only [resultPlace] at h
    simp only [registersTaken]
    split at h <;> cases h <;> split <;> omega
  | .paren e _, _, h => by
    simp only [resultPlace] at h
    simp only [registersTaken]
    exact resultPlace_lt h
  | .call _ _ _, _, h | .methodCall _ _ _ _, _, h => by
    cases h
    simp only [registersTaken]
    split <;> omega

/-- The register of a result is taken behind the expression. -/
theorem ResultAt.lt (hctx : ctx.WellFormed) {e : ResolvedExpr} {next : Nat} {r : Register}
    (h : ResultAt ctx e next r) (hnext : ctx.initialTop.toNat ≤ next) :
    r.toNat < next + registersTaken ctx e := by
  unfold ResultAt at h
  split at h
  · next place hplace =>
    have := resultPlace_lt hplace
    omega
  · obtain ⟨binding, -, hr⟩ := h
    have := hctx.binding_lt binding r hr
    omega

/-- A result that a function may assign is a held local. -/
theorem ResultAt.isHeldLocal (hctx : ctx.WellFormed) {e : ResolvedExpr} {next : Nat} {r : Register}
    (h : ResultAt ctx e next r) (hnext : ctx.initialTop.toNat ≤ next)
    (hheld : ctx.heldRegister held r.toNat) : isHeldLocal held e = true := by
  unfold ResultAt at h
  split at h
  · exact absurd hheld (hctx.not_held (by omega))
  · obtain ⟨binding, hlocal, hr⟩ := h
    obtain ⟨binding', r', hh, hr', heq⟩ := hheld
    rw [UInt16.toNat_inj.mp heq] at hr'
    rw [hlocal, hctx.binding_inj binding binding' r hr hr']
    exact hh

/-- A stretch of code that takes a number of registers and writes only what it takes. -/
structure Takes (captured : Nat → Prop) (quiet : Prop) (count : Nat) (c c' : Core) : Prop where
  emits : Emits captured c.next quiet c c'
  next : c'.next = c.next + count

theorem Takes.refl {captured : Nat → Prop} {quiet : Prop} {c : Core} :
    Takes captured quiet 0 c c :=
  ⟨.refl, rfl⟩

theorem Takes.trans {captured : Nat → Prop} {quiet : Prop} {count count' : Nat} {c c' c'' : Core}
    (h₁ : Takes captured quiet count c c') (h₂ : Takes captured quiet count' c' c'') :
    Takes captured quiet (count + count') c c'' where
  emits := h₁.emits.trans (h₂.emits.mono h₁.emits.next_le id)
  next := by rw [h₂.next, h₁.next, Nat.add_assoc]

theorem Takes.mono {captured : Nat → Prop} {quiet quiet' : Prop} {count count' : Nat} {c c' : Core}
    (h : Takes captured quiet count c c') (hquiet : quiet' → quiet) (hcount : count = count') :
    Takes captured quiet' count' c c' where
  emits := h.emits.mono le_rfl hquiet
  next := by rw [h.next, hcount]

theorem Takes.next_le {captured : Nat → Prop} {quiet : Prop} {count : Nat} {c c' : Core}
    (h : Takes captured quiet count c c') {n : Nat} (hn : n ≤ c.next) : n ≤ c'.next :=
  hn.trans h.emits.next_le

/-- What lowering an expression does. -/
structure LowersTo (ctx : BuilderContext) (held : BindingId → Bool) (e : ResolvedExpr) (c : Core)
    (r : Register) (c' : Core) : Prop where
  takes : Takes (ctx.heldRegister held) (isQuiet e = true) (registersTaken ctx e) c c'
  result : ResultAt ctx e c.next r

/-- Lowering an expression whose sites are safe does what it should. -/
def ExprSpec (ctx : BuilderContext) (held : BindingId → Bool) (e : ResolvedExpr) : Prop :=
  ∀ b r b', ctx.initialTop.toNat ≤ b.core.next →
    (∀ site ∈ exprSites ctx e, site.safe ctx held = true) →
    lowerExpr ctx e b = .ok (r, b') → LowersTo ctx held e b.core r b'.core

/-! ### Values in fresh registers -/

/-- One register is taken and written. -/
structure TakesFresh (captured : Nat → Prop) (quiet : Prop) (c : Core) (r : Register) (c' : Core) :
    Prop where
  takes : Takes captured quiet 1 c c'
  result : r.toNat = c.next

variable {captured : Nat → Prop}

/-- `allocate`, then `emit` with an instruction that writes the new register. -/
theorem takesFresh_of_emit {quiet : Prop} {span span' : Span}
    {b b₁ b₂ b' : Builder} {r : Register} {instruction : Instruction} {u : Unit}
    (h₁ : allocate ctx span b = .ok (r, b₁)) (h₂ : b₂.core = b₁.core)
    (h₃ : emit ctx instruction span' none b₂ = .ok (u, b')) (hpasses : Passes instruction)
    (hwrites : ∀ register, instruction.writes register → r.toNat ≤ register)
    (hquiet : quiet → instruction.mayRun = false) :
    TakesFresh captured quiet b.core r b'.core := by
  obtain ⟨hr, h₁⟩ := allocate_eq_ok h₁
  rw [emit_eq_ok h₃, h₂, h₁]
  refine ⟨⟨(Emits.take (by omega)).trans (.push hpasses (fun register h => ?_) hquiet), rfl⟩, hr⟩
  exact hr.ge.trans (hwrites register h)

theorem constantRegister_takesFresh {value : IrConstant} {span : Span}
    {b b' : Builder} {r : Register} (h : constantRegister ctx value span b = .ok (r, b'))
    (quiet : Prop) : TakesFresh captured quiet b.core r b'.core := by
  simp only [constantRegister, bind_eq_ok, pure_eq_ok] at h
  obtain ⟨r', b₁, h₁, id, b₂, h₂, u, b₃, h₃, rfl, rfl⟩ := h
  exact takesFresh_of_emit h₁ (idle_constant _ _ _ h₂) h₃ ⟨rfl, fun _ => rfl⟩
    (fun _ hw => hw.ge) fun _ => rfl

theorem nilRegister_takesFresh {span : Span} {b b' : Builder}
    {r : Register} (h : nilRegister ctx span b = .ok (r, b')) (quiet : Prop) :
    TakesFresh captured quiet b.core r b'.core := by
  simp only [nilRegister, bind_eq_ok, pure_eq_ok] at h
  obtain ⟨r', b₁, h₁, u, b₃, h₃, rfl, rfl⟩ := h
  exact takesFresh_of_emit h₁ rfl h₃ ⟨rfl, fun _ => rfl⟩ (fun _ hw => hw.1) fun _ => rfl

theorem getTable_takesFresh {table key : Register} {span : Span}
    {b b' : Builder} {r : Register} (h : getTable ctx table key span b = .ok (r, b')) :
    TakesFresh captured False b.core r b'.core := by
  simp only [getTable, bind_eq_ok, pure_eq_ok] at h
  obtain ⟨r', b₁, h₁, u, b₃, h₃, rfl, rfl⟩ := h
  exact takesFresh_of_emit h₁ rfl h₃ ⟨rfl, fun _ => rfl⟩ (fun _ hw => hw.ge) False.elim

theorem loadUpvalue_takesFresh {upvalue : UpvalueId} {span : Span}
    {b b' : Builder} {r : Register} (h : loadUpvalue ctx upvalue span b = .ok (r, b'))
    (quiet : Prop) : TakesFresh captured quiet b.core r b'.core := by
  simp only [loadUpvalue, bind_eq_ok, pure_eq_ok] at h
  obtain ⟨r', b₁, h₁, id, b₂, h₂, u, b₃, h₃, rfl, rfl⟩ := h
  exact takesFresh_of_emit h₁ (idle_toU16 _ _ _ h₂) h₃ ⟨rfl, fun _ => rfl⟩
    (fun _ hw => hw.ge) fun _ => rfl

theorem lowerFunction_takesFresh {body : ResolvedFunctionBody}
    {b b' : Builder} {r : Register} (h : lowerFunction ctx body b = .ok (r, b')) (quiet : Prop) :
    TakesFresh captured quiet b.core r b'.core := by
  simp only [lowerFunction, bind_eq_ok, pure_eq_ok] at h
  obtain ⟨r', b₁, h₁, id, b₂, h₂, u, b₃, h₃, rfl, rfl⟩ := h
  exact takesFresh_of_emit h₁ (idle_protoFor _ _ _ h₂) h₃ ⟨rfl, fun _ => rfl⟩
    (fun _ hw => hw.ge) fun _ => rfl

/-- The value of a leaf is in the one register it takes. -/
theorem TakesFresh.lowersTo {e : ResolvedExpr} {c c' : Core} {r : Register}
    (h : TakesFresh (ctx.heldRegister held) (isQuiet e = true) c r c')
    (htaken : registersTaken ctx e = 1) (hplace : resultPlace ctx e = some 0) :
    LowersTo ctx held e c r c' :=
  ⟨h.takes.mono id htaken.symm, (resultAt_some hplace).mpr h.result⟩

/-- A value in a fresh register behind a stretch of code. -/
theorem TakesFresh.lowersTo_after {quiet : Prop} {count : Nat} {e : ResolvedExpr} {c c' c'' : Core}
    {r : Register} (h₁ : Takes (ctx.heldRegister held) quiet count c c')
    (h : TakesFresh (ctx.heldRegister held) quiet c' r c'') (hquiet : isQuiet e = true → quiet)
    (htaken : registersTaken ctx e = count + 1) (hplace : resultPlace ctx e = some count) :
    LowersTo ctx held e c r c'' where
  takes := (h₁.trans h.takes).mono hquiet htaken.symm
  result := (resultAt_some hplace).mpr (h.result.trans h₁.next)

/-! ### Names -/

/-- `bindingValue` takes a register only for an upvalue. -/
theorem bindingValue_takes {binding : BindingId} {span : Span}
    {b b' : Builder} {r : Register} (h : bindingValue ctx binding span b = .ok (r, b')) :
    Takes captured True (if binding.function = ctx.function.id then 0 else 1) b.core b'.core := by
  unfold bindingValue at h
  split at h
  · next hown =>
    rw [if_pos hown, idle_bindingRegister _ _ _ h]
    exact .refl
  · next hother =>
    simp only [bind_eq_ok] at h
    obtain ⟨index, b₁, h₁, id, b₂, h₂, h⟩ := h
    rw [if_neg hother, ← idle_orStop _ _ _ h₁, ← idle_toU32 _ _ _ h₂]
    exact (loadUpvalue_takesFresh h True).takes

theorem lowerName_spec {name : List UInt8} {resolution : ResolvedName} {span : Span}
    {b b' : Builder} {r : Register} (h : lowerName ctx name resolution span b = .ok (r, b')) :
    LowersTo ctx held (.name name resolution span) b.core r b'.core := by
  cases resolution with
  | «local» binding =>
    obtain ⟨hr, rfl⟩ := orStop_eq_ok h
    exact ⟨.refl, binding, fun _ => by simp [isHeldLocal], hr⟩
  | upvalue upvalue =>
    exact (loadUpvalue_takesFresh h _).lowersTo rfl rfl
  | envField env field =>
    simp only [lowerName, bind_eq_ok] at h
    obtain ⟨key, b₁, h₁, u₂, b₂, h₂, pc, b₃, h₃, table, b₄, h₄, pc', b₅, h₅, h⟩ := h
    obtain ⟨-, rfl⟩ := currentPc_eq_ok h₃
    obtain ⟨-, rfl⟩ := currentPc_eq_ok h₅
    have hkey : TakesFresh (ctx.heldRegister held) False b.core key b₁.core :=
      constantRegister_takesFresh h₁ False
    have htable : Takes (ctx.heldRegister held) True
        (if env.function = ctx.function.id then 0 else 1) b₁.core b₅.core := by
      rw [← idle_markLastNonCounted _ _ _ h₂]
      exact bindingValue_takes h₄
    have hlast : TakesFresh (ctx.heldRegister held) False b₅.core r b'.core := by
      split at h
      · obtain ⟨u₆, b₆, h₆, h⟩ := bind_eq_ok.mp h
        rw [← idle_markLastNonCounted _ _ _ h₆]
        exact getTable_takesFresh h
      · exact getTable_takesFresh h
    have htaken : nameTaken ctx (.envField env field)
        = 1 + (if env.function = ctx.function.id then 0 else 1) + 1 := by
      show (if _ then 2 else 3) = _
      split <;> rfl
    refine hlast.lowersTo_after (hkey.takes.trans (htable.mono False.elim rfl)) ?_ ?_ ?_
    · simp [isQuiet]
    · simpa only [registersTaken] using htaken
    · simp only [resultPlace, htaken, Nat.add_sub_cancel]
  | global binding =>
    simp only [lowerName, bind_eq_ok] at h
    obtain ⟨key, b₁, h₁, u₂, b₂, h₂, h⟩ := h
    have hkey : TakesFresh (ctx.heldRegister held) False b.core key b₁.core :=
      constantRegister_takesFresh h₁ False
    have hlast : TakesFresh (ctx.heldRegister held) False b₁.core r b'.core := by
      rw [← idle_markLastNonCounted _ _ _ h₂]
      exact getTable_takesFresh h
    exact hlast.lowersTo_after hkey.takes (by simp [isQuiet]) rfl rfl

/-! ### Operators -/

theorem withPendingExpression_eq_ok {α : Type} {register : Register} {span : Span} {m : Lower α}
    {b b' : Builder} {a : α} (h : withPendingExpression ctx register span m b = .ok (a, b')) :
    ∃ b₁ b₂, b₁.core = b.core ∧ m b₁ = .ok (a, b₂) ∧ b'.core = b₂.core := by
  simp only [withPendingExpression, bind_eq_ok] at h
  obtain ⟨pushed, b₁, h₁, a', b₂, h₂, h⟩ := h
  refine ⟨b₁, b₂, idle_pushPendingExpression _ _ _ h₁, ?_⟩
  split at h
  · simp only [bind_eq_ok, modify_eq_ok, pure_eq_ok] at h
    obtain ⟨_, _, rfl, rfl, rfl⟩ := h
    exact ⟨h₂, rfl⟩
  · obtain ⟨rfl, rfl⟩ := pure_eq_ok.mp h
    exact ⟨h₂, rfl⟩

theorem idle_finishLeftOperand {op : BinaryOp} {left right : ResolvedExpr} {span : Span}
    {leftStart : Nat} : Idle (finishLeftOperand ctx op left right span leftStart) := by
  have hlast : ∀ {c : Prop} [Decidable c] {rewrite : Span → Span},
      Idle (if c then respanFrom leftStart rewrite else pure PUnit.unit) :=
    Leaves.ite idle_respanFrom .pure
  exact Leaves.ite (idle_markLastNonCounted.bind fun _ => hlast) hlast

theorem unary_spec {op : UnaryOp} {e : ResolvedExpr} {span : Span} (he : ExprSpec ctx held e) :
    ExprSpec ctx held (.unary op e span) := by
  intro b r b' hnext hsites h
  simp only [lowerExpr, bind_eq_ok, pure_eq_ok] at h
  obtain ⟨src, b₁, h₁, dest, b₂, h₂, u, b₃, h₃, rfl, rfl⟩ := h
  simp only [exprSites] at hsites
  have hsrc := he b src b₁ hnext hsites h₁
  refine TakesFresh.lowersTo_after (hsrc.takes.mono ?_ rfl) (takesFresh_of_emit h₂ rfl h₃
    ⟨rfl, fun _ => rfl⟩ (fun _ hw => hw.ge) ?_) id (by simp [registersTaken]) (by simp [resultPlace])
  · intro hq
    simp only [isQuiet, Bool.and_eq_true] at hq
    exact hq.2
  · intro hq
    simp only [isQuiet, Bool.and_eq_true, decide_eq_true_eq] at hq
    obtain ⟨rfl, -⟩ := hq
    rfl

theorem paren_spec {e : ResolvedExpr} {span : Span} (he : ExprSpec ctx held e) :
    ExprSpec ctx held (.paren e span) := by
  intro b r b' hnext hsites h
  simp only [lowerExpr] at h
  simp only [exprSites] at hsites
  obtain ⟨htakes, hresult⟩ := he b r b' hnext hsites h
  refine ⟨htakes.mono ?_ (by simp [registersTaken]), ?_⟩
  · simp [isQuiet]
  · simpa only [ResultAt, resultPlace, isHeldLocal] using hresult

theorem field_spec {e : ResolvedExpr} {name : List UInt8} {span : Span}
    (he : ExprSpec ctx held e) : ExprSpec ctx held (.field e name span) := by
  intro b r b' hnext hsites h
  simp only [lowerExpr, bind_eq_ok] at h
  obtain ⟨table, b₁, h₁, key, b₂, h₂, u, b₃, h₃, h⟩ := h
  simp only [exprSites] at hsites
  have htable := he b table b₁ hnext hsites h₁
  have hkey : TakesFresh (ctx.heldRegister held) False b₁.core key b₂.core :=
    constantRegister_takesFresh h₂ False
  have hlast : TakesFresh (ctx.heldRegister held) False b₂.core r b'.core := by
    rw [← idle_markLastNonCounted _ _ _ h₃]
    exact getTable_takesFresh h
  exact hlast.lowersTo_after ((htable.takes.mono False.elim rfl).trans hkey.takes)
    (by simp [isQuiet]) (by simp [registersTaken]) (by simp [resultPlace])

theorem index_spec {e index : ResolvedExpr} {span : Span} (he : ExprSpec ctx held e)
    (hi : ExprSpec ctx held index) : ExprSpec ctx held (.index e index span) := by
  intro b r b' hnext hsites h
  simp only [lowerExpr, bind_eq_ok] at h
  obtain ⟨table, b₁, h₁, key, b₂, h₂, h⟩ := h
  simp only [exprSites, List.mem_append] at hsites
  have htable := he b table b₁ hnext (fun site hs => hsites site (.inl hs)) h₁
  obtain ⟨b₃, b₄, h₃, h₄, h₅⟩ := withPendingExpression_eq_ok h₂
  have hkey := hi b₃ key b₄ (by rw [h₃]; exact htable.takes.next_le hnext)
    (fun site hs => hsites site (.inr hs)) h₄
  rw [h₃, ← h₅] at hkey
  exact (getTable_takesFresh h).lowersTo_after
    ((htable.takes.mono False.elim rfl).trans (hkey.takes.mono False.elim rfl))
    (by simp [isQuiet]) (by simp [registersTaken]) (by simp [resultPlace])

theorem patchJump_jumpIfFalse {index : Nat} {condition : Register} {target : InstructionOffset}
    {b b' : Builder} {u : Unit} (h : patchJump ctx index target b = .ok (u, b'))
    (hold : b.core.code[index]? = some (.jumpIfFalse condition placeholder)) :
    b'.core = b.core.patch index (.jumpIfFalse condition target) := by
  obtain ⟨old, new, hindex, hnew, hcore⟩ := patchWith_eq_ok h
  rw [hold] at hindex
  cases hindex
  cases hnew
  exact hcore

/-- The end of `and` and `or`: the right operand is evaluated behind a jump. -/
theorem keepLeft_takes {dest condition result : Register} {right : ResolvedExpr} {span : Span}
    {count : Nat} {c : Core} {b b' : Builder} (hright : ExprSpec ctx held right)
    (hsites : ∀ site ∈ exprSites ctx right, site.safe ctx held = true)
    (hnext : ctx.initialTop.toNat ≤ c.next) (hdest : c.next ≤ dest.toNat)
    (hbefore : Takes (ctx.heldRegister held) (isQuiet right = true) count c b.core)
    (h : (do
      let keepLeft ← emitJumpIfFalsePlaceholder ctx condition span
      let value ← lowerExpr ctx right
      emit ctx (.move dest value) span none
      patchJump ctx keepLeft (← currentOffset span)
      return dest : Lower Register) b = .ok (result, b')) :
    result = dest ∧ Takes (ctx.heldRegister held) (isQuiet right = true)
      (count + registersTaken ctx right) c b'.core := by
  simp only [emitJumpIfFalsePlaceholder, bind_eq_ok, pure_eq_ok, get_eq_ok] at h
  obtain ⟨keepLeft, b₁, ⟨_, _, ⟨rfl, rfl⟩, u₁, b₁', h₁, rfl, rfl⟩, value, b₂, h₂, u₃, b₃, h₃, target,
    b₄, h₄, u₅, b₅, h₅, rfl, rfl⟩ := h
  obtain ⟨htarget, rfl⟩ := currentOffset_eq_ok h₄
  have h₁ := emit_eq_ok h₁
  have h₃ := emit_eq_ok h₃
  have hvalue := hright _ value b₂ (by rw [h₁]; exact hbefore.next_le hnext) hsites h₂
  rw [h₁] at hvalue
  -- the right operand and the move into the result, both behind the jump
  have hbehind : Emits (ctx.heldRegister held) c.next (isQuiet right = true)
      (b.core.push (.jumpIfFalse condition placeholder)) b₄.core := by
    rw [h₃]
    refine (hvalue.takes.emits.mono hbefore.emits.next_le id).trans
      (.push ⟨rfl, fun _ => rfl⟩ (fun register hw => ?_) fun _ => rfl)
    exact hdest.trans hw.ge
  have hold : b₄.core.code[b.core.pc]? = some (.jumpIfFalse condition placeholder) := by
    rw [hbehind.getElem? (by simp)]
    exact List.getElem?_concat_length
  rw [← Builder.core_pc] at h₅ htarget
  have h₅ := patchJump_jumpIfFalse h₅ hold
  rw [h₅]
  refine ⟨rfl, hbefore.emits.skip hbehind htarget, ?_⟩
  rw [Core.patch_next, h₃, Core.push_next, hvalue.takes.next, Core.push_next, hbefore.next]
  omega

/-- `and` and `or` behind their left operand. -/
theorem logical_takes {op : BinaryOp} {left dest : Register} {right : ResolvedExpr} {span : Span}
    {b b' : Builder} (hright : ExprSpec ctx held right)
    (hnext : ctx.initialTop.toNat ≤ b.core.next)
    (hsites : ∀ site ∈ exprSites ctx right, site.safe ctx held = true)
    (h : lowerLogical ctx op left (lowerExpr ctx right) span b = .ok (dest, b')) :
    dest.toNat = b.core.next
      ∧ Takes (ctx.heldRegister held) (isQuiet right = true)
        (registersTaken ctx right + if op = .and then 1 else 2) b.core b'.core := by
  obtain ⟨dest', b₁, h₁, h⟩ := bind_eq_ok.mp h
  obtain ⟨u₂, b₂, h₂, h⟩ := bind_eq_ok.mp h
  have hdest : TakesFresh (ctx.heldRegister held) (isQuiet right = true) b.core dest' b₂.core :=
    takesFresh_of_emit h₁ rfl h₂ ⟨rfl, fun _ => rfl⟩ (fun _ hw => hw.ge) fun _ => rfl
  split at h
  · next hop =>
    obtain ⟨rfl, htakes⟩ := keepLeft_takes hright hsites hnext hdest.result.ge hdest.takes h
    exact ⟨hdest.result, htakes.mono id (by rw [if_pos hop, Nat.add_comm])⟩
  · next hop =>
    obtain ⟨inverted, b₃, h₃, h⟩ := bind_eq_ok.mp h
    obtain ⟨u₄, b₄, h₄, h⟩ := bind_eq_ok.mp h
    have hinverted : TakesFresh (ctx.heldRegister held) (isQuiet right = true) b₂.core inverted
        b₄.core :=
      takesFresh_of_emit h₃ rfl h₄ ⟨rfl, fun _ => rfl⟩ (fun _ hw => hw.ge) fun _ => rfl
    obtain ⟨rfl, htakes⟩ := keepLeft_takes hright hsites hnext hdest.result.ge
      (hdest.takes.trans hinverted.takes) h
    exact ⟨hdest.result, htakes.mono id (by rw [if_neg hop, Nat.add_comm])⟩

theorem binary_spec {op : BinaryOp} {left right : ResolvedExpr} {span : Span}
    (hleft : ExprSpec ctx held left) (hright : ExprSpec ctx held right) :
    ExprSpec ctx held (.binary op left right span) := by
  intro b r b' hnext hsites h
  simp only [lowerExpr, bind_eq_ok] at h
  obtain ⟨start, b₁, h₁, leftValue, b₂, h₂, u, b₃, h₃, h⟩ := h
  obtain ⟨-, rfl⟩ := currentPc_eq_ok h₁
  simp only [exprSites, List.mem_append] at hsites
  have hl := hleft b₁ leftValue b₂ hnext (fun site hs => hsites site (.inl hs)) h₂
  have h₃ := idle_finishLeftOperand _ _ _ h₃
  have hnext₃ : ctx.initialTop.toNat ≤ b₃.core.next := by
    rw [h₃]
    exact hl.takes.next_le hnext
  split at h
  · next hop =>
    obtain ⟨hr, hlogical⟩ := logical_takes hright hnext₃ (fun site hs => hsites site (.inr hs)) h
    rw [h₃] at hlogical hr
    refine ⟨((hl.takes.mono ?_ rfl).trans (hlogical.mono ?_ rfl)).mono id ?_, ?_⟩
    · intro hq
      simp only [isQuiet, Bool.and_eq_true] at hq
      exact hq.1.2
    · intro hq
      simp only [isQuiet, Bool.and_eq_true] at hq
      exact hq.2
    · simp only [registersTaken]
      cases op <;> simp [BinaryOp.isLogical] at hop ⊢ <;> omega
    · have hplace : resultPlace ctx (.binary op left right span)
          = some (registersTaken ctx left) := by
        simp [resultPlace, hop]
      rw [resultAt_some hplace, hr, hl.takes.next]
  · next hop =>
    obtain ⟨rightValue, b₄, h₄, h⟩ := bind_eq_ok.mp h
    obtain ⟨b₅, b₆, h₅, h₆, h₇⟩ := withPendingExpression_eq_ok h₄
    have hrv := hright b₅ rightValue b₆ (by rwa [h₅]) (fun site hs => hsites site (.inr hs)) h₆
    rw [h₅, h₃, ← h₇] at hrv
    have hlast : TakesFresh (ctx.heldRegister held) False b₄.core r b'.core := by
      simp only [finishBinary] at h
      split at h
      · simp only [bind_eq_ok, pure_eq_ok] at h
        obtain ⟨u₈, b₈, h₈, dest, b₉, h₉, u, b₁₀, h₁₀, rfl, rfl⟩ := h
        rw [← idle_markLastNonCounted _ _ _ h₈]
        exact takesFresh_of_emit h₉ rfl h₁₀ ⟨rfl, fun _ => rfl⟩ (fun _ hw => hw.ge) False.elim
      · simp only [bind_eq_ok, pure_eq_ok] at h
        obtain ⟨dest, b₉, h₉, u, b₁₀, h₁₀, rfl, rfl⟩ := h
        exact takesFresh_of_emit h₉ rfl h₁₀ ⟨rfl, fun _ => rfl⟩ (fun _ hw => hw.ge) False.elim
    refine hlast.lowersTo_after ((hl.takes.mono False.elim rfl).trans
      (hrv.takes.mono False.elim rfl)) ?_ ?_ ?_
    · simp [isQuiet, hop]
    · simp only [registersTaken]
      cases op <;> simp [BinaryOp.isLogical] at hop ⊢
    · simp [resultPlace, hop]

end RivetLua.Compiler
