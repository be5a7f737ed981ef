import RivetLua.Compiler.ListWindows

namespace RivetLua.Compiler

open StateExcept
open RivetLua.Bytecode (Register Instruction InstructionOffset ResultMode Demand)

/-!
# Compiler — the windows of statements

Statements write the registers of bindings, jump backwards and patch jumps that were emitted
before.  None of this touches a window that has been placed: the instructions of windows are never
patched.

* `Core.Unguarded` — an address that no window depends on;
* `Core.Sound` — all windows are placed, all calls have windows, and only unguarded addresses wait
  for a patch;
* `SteadyFor` — a step that keeps the builder sound, and a list of addresses unguarded;
* `steady_lowerReturn`, `steady_lowerStatementCall` — calls and returns.
-/

variable {ctx : BuilderContext} {held : BindingId → Bool} {captured : Nat → Prop}

/-! ### The invariant -/

/-- No window depends on the instruction at an address. -/
def Core.Unguarded (c : Core) (index : Nat) : Prop :=
  index < c.pc ∧ ∀ w ∈ c.windows, ¬ w.Covers index

/-- Windows are placed, calls have windows, patches are harmless. -/
structure Core.Sound (captured : Nat → Prop) (top : Nat) (c : Core) : Prop where
  top_le : top ≤ c.next
  placed : ∀ w ∈ c.windows, w.Placed c.code captured ∧ w.ready ≤ c.pc
  waiting : ∀ index ∈ c.waiting, c.Unguarded index
  calls : ∀ pc < c.pc, HasWindow c.code c.windows c.listWrites pc

/-- The builder is sound, and the addresses in `jumps` are unguarded. -/
def SoundFor (ctx : BuilderContext) (held : BindingId → Bool) (jumps : List Nat) (b : Builder) :
    Prop :=
  b.core.Sound (ctx.heldRegister held) ctx.initialTop.toNat
    ∧ ∀ index ∈ jumps, b.core.Unguarded index

/-- A step that keeps the builder sound and the addresses in `jumps` unguarded. -/
def SteadyFor {α : Type} (ctx : BuilderContext) (held : BindingId → Bool) (jumps : List Nat)
    (m : Lower α) : Prop :=
  Ensures (SoundFor ctx held jumps) m fun _ => SoundFor ctx held jumps

/-- New code leaves the windows in front of it alone. -/
theorem Emits.unguarded {floor : Nat} {quiet : Prop} {c c' : Core}
    (h : Emits captured floor quiet c c') {index : Nat} (hindex : c.Unguarded index) :
    c'.Unguarded index := by
  obtain ⟨new, hnew, hcovers⟩ := h.windows
  refine ⟨hindex.1.trans_le h.pc_le, fun w hw => ?_⟩
  rw [hnew] at hw
  rcases List.mem_append.mp hw with hw | hw
  · exact hindex.2 w hw
  · exact fun hc => absurd hindex.1 ((hcovers w hw).2.2 index hc).not_gt

theorem Emits.sound {floor top : Nat} {quiet : Prop} {c c' : Core}
    (h : Emits captured floor quiet c c') (hc : c.Sound captured top) : c'.Sound captured top where
  top_le := hc.top_le.trans h.next_le
  placed := by
    obtain ⟨new, hnew, hplaced⟩ := h.windows
    intro w hw
    rw [hnew] at hw
    rcases List.mem_append.mp hw with hw | hw
    · obtain ⟨hp, hr⟩ := hc.placed w hw
      exact ⟨hp.congr fun pc hpc => h.getElem? (hpc.1.trans_le hr), hr.trans h.pc_le⟩
    · exact ⟨(hplaced w hw).1, (hplaced w hw).2.1⟩
  waiting := fun index hi => h.unguarded (hc.waiting index (h.waiting ▸ hi))
  calls := by
    obtain ⟨new, hnew, -⟩ := h.windows
    intro pc hpc
    by_cases hlt : pc < c.pc
    · refine (hc.calls pc hlt).mono (fun q hq => h.getElem? (by omega)) ?_ h.listWrites
      rw [hnew]
      exact List.subset_append_left ..
    · exact h.calls pc (not_lt.mp hlt) hpc

theorem Emits.soundFor {floor : Nat} {quiet : Prop} {jumps : List Nat} {b b' : Builder}
    (h : Emits (ctx.heldRegister held) floor quiet b.core b'.core)
    (hb : SoundFor ctx held jumps b) : SoundFor ctx held jumps b' :=
  ⟨h.sound hb.1, fun index hi => h.unguarded (hb.2 index hi)⟩

/-- One more instruction; a call has its window, behind which there may be closes. -/
theorem Core.Sound.pushWith {top : Nat} {c : Core} {instruction : Instruction}
    (h : c.Sound captured top)
    (hcallee : ∀ base demand, instruction.demand = some (base, demand) →
      ∃ w ∈ c.windows, w.base = base ∧ w.ready ≤ c.pc
        ∧ (∀ q, w.ready ≤ q → q < c.pc → ∃ register count, c.code[q]? = some (.close register count))
        ∧ w.Feeds c.code demand) :
    (c.push instruction).Sound captured top := by
  have hsame : ∀ q < c.pc, (c.push instruction).code[q]? = c.code[q]? := fun q hq =>
    getElem?_append_kept (List.prefix_append ..) hq
  refine ⟨h.top_le, fun w hw => ?_, fun index hi => ?_, fun pc hpc => ?_⟩
  · obtain ⟨hp, hr⟩ := h.placed w hw
    exact ⟨hp.congr fun pc hpc => hsame pc (hpc.1.trans_le hr), hr.trans (by simp)⟩
  · obtain ⟨hlt, hcovers⟩ := h.waiting index hi
    exact ⟨hlt.trans (by simp), hcovers⟩
  · rw [Core.push_pc] at hpc
    rcases Nat.lt_succ_iff_lt_or_eq.mp hpc with hlt | rfl
    · exact (h.calls pc hlt).mono (fun q hq => hsame q (hq.trans_lt hlt)) (List.Subset.refl _)
        (List.Subset.refl _)
    · intro i base argCount hcode hcalls
      rw [Core.push_code, Core.pc, List.getElem?_concat_length] at hcode
      cases hcode
      obtain ⟨w, hw, hbase, hready, hcloses, hcount⟩ := hcallee base argCount hcalls
      refine .inr ⟨w, hw, hbase, hready, fun q hq hlt => ?_,
        hcount.congr fun q producer r hlt hq _ => ?_⟩
      · rw [hsame q hlt]
        exact hcloses q hq hlt
      · rw [hsame q (hlt.trans_le hready)]
        exact hq

/-- An instruction that is no call. -/
theorem Core.Sound.push {top : Nat} {c : Core} {instruction : Instruction}
    (h : c.Sound captured top) (hcallee : instruction.demand = none) :
    (c.push instruction).Sound captured top := by
  refine h.pushWith fun base argCount hcalls => ?_
  rw [hcallee] at hcalls
  cases hcalls

theorem Core.Unguarded.push {c : Core} {index : Nat} {instruction : Instruction}
    (h : c.Unguarded index) : (c.push instruction).Unguarded index :=
  ⟨h.1.trans (by simp), h.2⟩

/-- The address of an instruction that has just been emitted. -/
theorem Core.Sound.unguarded_now {top : Nat} {c : Core} (h : c.Sound captured top)
    (instruction : Instruction) : (c.push instruction).Unguarded c.pc :=
  ⟨by simp, fun w hw hc => absurd hc.1 (h.placed w hw).2.not_gt⟩

theorem Core.Unguarded.patch {c : Core} {index index' : Nat} {instruction : Instruction}
    (h : c.Unguarded index) : (c.patch index' instruction).Unguarded index :=
  ⟨h.1.trans_eq (Core.patch_pc ..).symm, h.2⟩

/-- A patch of an unguarded address. -/
theorem Core.Sound.patch {top : Nat} {c : Core} {index : Nat} {old new : Instruction}
    (h : c.Sound captured top) (hindex : c.Unguarded index) (hold : c.code[index]? = some old)
    (hclose : ∀ register count, old ≠ .close register count) (hopen : openBase old = none)
    (hcallee : new.demand = none) : (c.patch index new).Sound captured top where
  top_le := h.top_le
  placed := by
    intro w hw
    obtain ⟨hp, hr⟩ := h.placed w hw
    refine ⟨hp.congr fun pc hpc => c.patch_getElem?_ne new ?_, by rwa [Core.patch_pc]⟩
    rintro rfl
    exact hindex.2 w hw hpc
  waiting := fun index hi => (h.waiting index hi).patch
  calls := by
    intro pc hpc
    rw [Core.patch_pc] at hpc
    exact (h.calls pc hpc).patch hold hclose hopen hcallee

/-- Fewer addresses wait, or some that are unguarded. -/
theorem Core.Sound.wait {top : Nat} {c : Core} {waiting : List Nat} (h : c.Sound captured top)
    (hwaiting : ∀ index ∈ waiting, c.Unguarded index) :
    ({ c with waiting := waiting } : Core).Sound captured top :=
  ⟨h.top_le, h.placed, hwaiting, h.calls⟩

/-! ### Steady steps -/

theorem SteadyFor.bind {α β : Type} {jumps : List Nat} {m : Lower α} {f : α → Lower β}
    (hm : SteadyFor ctx held jumps m) (hf : ∀ a, SteadyFor ctx held jumps (f a)) :
    SteadyFor ctx held jumps (m >>= f) :=
  Ensures.bind hm hf

theorem SteadyFor.pure {α : Type} {jumps : List Nat} {a : α} :
    SteadyFor ctx held jumps (pure a : Lower α) :=
  Ensures.pure fun _ h => h

theorem SteadyFor.of_get {β : Type} {jumps : List Nat} {f : Builder → Lower β}
    (h : ∀ b, SteadyFor ctx held jumps (f b)) : SteadyFor ctx held jumps (get >>= f) :=
  Ensures.get fun b => (h b).weaken (fun _ hb => hb.1) fun _ _ hb => hb

theorem SteadyFor.ite {α : Type} {jumps : List Nat} {c : Prop} [Decidable c] {m₁ m₂ : Lower α}
    (h₁ : SteadyFor ctx held jumps m₁) (h₂ : SteadyFor ctx held jumps m₂) :
    SteadyFor ctx held jumps (if c then m₁ else m₂) :=
  Ensures.ite (fun _ => h₁) fun _ => h₂

theorem SteadyFor.forM {α : Type} {jumps : List Nat} {f : α → Lower Unit}
    (h : ∀ a, SteadyFor ctx held jumps (f a)) : ∀ l : List α, SteadyFor ctx held jumps (l.forM f)
  | [] => .pure
  | a :: l => by
    show SteadyFor ctx held jumps (f a >>= fun _ => l.forM f)
    exact (h a).bind fun _ => SteadyFor.forM h l

theorem Idle.steady {α : Type} {jumps : List Nat} {m : Lower α} (h : Idle m) :
    SteadyFor ctx held jumps m := by
  intro b a b' hb hrun
  unfold SoundFor
  rw [h b a b' hrun]
  exact hb

/-- Steps that emit a stretch of code. -/
theorem steady_of_emits {α : Type} {jumps : List Nat} {m : Lower α}
    (h : ∀ b a b', ctx.initialTop.toNat ≤ b.core.next → m b = .ok (a, b') →
      ∃ floor quiet, Emits (ctx.heldRegister held) floor quiet b.core b'.core) :
    SteadyFor ctx held jumps m := by
  intro b a b' hb hrun
  obtain ⟨floor, quiet, hemits⟩ := h b a b' hb.1.top_le hrun
  exact hemits.soundFor hb

theorem SteadyFor.bind_orStop {α β : Type} {jumps : List Nat} {value : Option α} {span : Span}
    {message : String} {f : α → Lower β}
    (hf : ∀ a, value = some a → SteadyFor ctx held jumps (f a)) :
    SteadyFor ctx held jumps (orStop value span message >>= f) := by
  intro b a b' hb hrun
  obtain ⟨a', b₁, h₁, hrest⟩ := bind_eq_ok.mp hrun
  obtain ⟨hvalue, rfl⟩ := orStop_eq_ok h₁
  exact hf a' hvalue b₁ a b' hb hrest

/-- Fewer addresses have to be kept. -/
theorem SoundFor.of_subset {jumps jumps' : List Nat} {b : Builder} (h : SoundFor ctx held jumps' b)
    (hsub : jumps ⊆ jumps') : SoundFor ctx held jumps b :=
  ⟨h.1, fun index hi => h.2 index (hsub hi)⟩

/-- A step that yields an unguarded address, which the steps behind it may patch. -/
theorem SteadyFor.bind_index {β : Type} {jumps : List Nat} {m : Lower Nat} {f : Nat → Lower β}
    (hm : Ensures (SoundFor ctx held jumps) m fun index => SoundFor ctx held (index :: jumps))
    (hf : ∀ index, SteadyFor ctx held (index :: jumps) (f index)) :
    SteadyFor ctx held jumps (m >>= f) :=
  Ensures.bind hm fun index => (hf index).weaken (fun _ h => h)
    fun _ _ h => h.of_subset (List.subset_cons_self ..)

/-! ### Operations of the builder -/

theorem steady_emit {jumps : List Nat} {instruction : Instruction} {span : Span}
    {closePath : Option IrClosePath} (hcallee : instruction.demand = none) :
    SteadyFor ctx held jumps (emit ctx instruction span closePath) := by
  intro b u b' hb hrun
  unfold SoundFor
  rw [emit_eq_ok hrun]
  exact ⟨hb.1.push hcallee, fun index hi => (hb.2 index hi).push⟩

theorem steady_emitNonCounted {jumps : List Nat} {instruction : Instruction} {span : Span}
    (hcallee : instruction.demand = none) :
    SteadyFor ctx held jumps (emitNonCounted ctx instruction span) := by
  intro b u b' hb hrun
  unfold SoundFor
  rw [(emitNonCounted_eq_ok hrun).2]
  exact ⟨hb.1.push hcallee, fun index hi => (hb.2 index hi).push⟩

theorem steady_allocate {jumps : List Nat} {span : Span} :
    SteadyFor ctx held jumps (allocate ctx span) := by
  refine steady_of_emits fun b r b' _ h => ⟨0, True, ?_⟩
  rw [(allocate_eq_ok h).2]
  exact .take (by omega)

theorem steady_emitCfgAnchor {jumps : List Nat} {span : Span} :
    SteadyFor ctx held jumps (emitCfgAnchor ctx span) :=
  steady_allocate.bind fun _ => steady_emitNonCounted rfl

/-- The address of an instruction that has just been emitted may be patched. -/
theorem SoundFor.emit {jumps : List Nat} {instruction : Instruction} {span : Span}
    {closePath : Option IrClosePath} {b b' : Builder} {u : Unit} (hb : SoundFor ctx held jumps b)
    (hcallee : instruction.demand = none)
    (h : emit ctx instruction span closePath b = .ok (u, b')) :
    SoundFor ctx held (b.pc :: jumps) b' := by
  unfold SoundFor
  rw [emit_eq_ok h]
  refine ⟨hb.1.push hcallee, fun index hi => ?_⟩
  rcases List.mem_cons.mp hi with rfl | hi
  · rw [← Builder.core_pc]
    exact hb.1.unguarded_now instruction
  · exact (hb.2 index hi).push

/-- The address of an instruction, then the instruction. -/
theorem SteadyFor.bind_emit {β : Type} {jumps : List Nat} {instruction : Instruction} {span : Span}
    {f : Nat → Lower β} (hcallee : instruction.demand = none)
    (hf : ∀ index, SteadyFor ctx held (index :: jumps) (f index)) :
    SteadyFor ctx held jumps (currentPc >>= fun index =>
      emit ctx instruction span none >>= fun _ => f index) := by
  intro b a b' hb hrun
  simp only [bind_eq_ok] at hrun
  obtain ⟨index, b₁, h₁, u, b₂, h₂, hrun⟩ := hrun
  obtain ⟨rfl, rfl⟩ := currentPc_eq_ok h₁
  refine (hf b₁.pc b₂ a b' ?_ hrun).of_subset (List.subset_cons_self ..)
  exact hb.emit hcallee h₂

/-- An instruction, then its address. -/
theorem SteadyFor.bind_emit_last {β : Type} {jumps : List Nat} {instruction : Instruction}
    {span : Span} {f : Nat → Lower β} (hcallee : instruction.demand = none)
    (hf : ∀ index, SteadyFor ctx held (index :: jumps) (f index)) :
    SteadyFor ctx held jumps (emit ctx instruction span none >>= fun _ =>
      get >>= fun b => f (b.pc - 1)) := by
  intro b a b' hb hrun
  simp only [bind_eq_ok, get_eq_ok] at hrun
  obtain ⟨u, b₁, h₁, _, _, ⟨rfl, rfl⟩, hrun⟩ := hrun
  have hpc : b₁.pc - 1 = b.pc := by
    rw [← Builder.core_pc, emit_eq_ok h₁, Core.push_pc, Nat.add_sub_cancel, Builder.core_pc]
  rw [hpc] at hrun
  have hsteady : SteadyFor ctx held jumps (currentPc >>= fun index =>
      emit ctx instruction span none >>= fun _ => f index) := .bind_emit hcallee hf
  exact hsteady b a b' hb (bind_eq_ok.mpr ⟨b.pc, b, rfl, bind_eq_ok.mpr ⟨u, b₁, h₁, hrun⟩⟩)

theorem ensures_emitJumpPlaceholder {jumps : List Nat} {span : Span} :
    Ensures (SoundFor ctx held jumps) (emitJumpPlaceholder ctx span)
      fun index => SoundFor ctx held (index :: jumps) := by
  intro b index b' hb hrun
  simp only [emitJumpPlaceholder, bind_eq_ok, get_eq_ok, pure_eq_ok] at hrun
  obtain ⟨_, _, ⟨rfl, rfl⟩, u, b₁, h₁, rfl, rfl⟩ := hrun
  exact hb.emit rfl h₁

theorem ensures_emitJumpIfFalsePlaceholder {jumps : List Nat} {condition : Register} {span : Span} :
    Ensures (SoundFor ctx held jumps) (emitJumpIfFalsePlaceholder ctx condition span)
      fun index => SoundFor ctx held (index :: jumps) := by
  intro b index b' hb hrun
  simp only [emitJumpIfFalsePlaceholder, bind_eq_ok, get_eq_ok, pure_eq_ok] at hrun
  obtain ⟨_, _, ⟨rfl, rfl⟩, u, b₁, h₁, rfl, rfl⟩ := hrun
  exact hb.emit rfl h₁

theorem SteadyFor.bind_jump {β : Type} {jumps : List Nat} {span : Span} {f : Nat → Lower β}
    (hf : ∀ index, SteadyFor ctx held (index :: jumps) (f index)) :
    SteadyFor ctx held jumps (emitJumpPlaceholder ctx span >>= f) :=
  .bind_index ensures_emitJumpPlaceholder hf

theorem SteadyFor.bind_jumpIfFalse {β : Type} {jumps : List Nat} {condition : Register} {span : Span}
    {f : Nat → Lower β} (hf : ∀ index, SteadyFor ctx held (index :: jumps) (f index)) :
    SteadyFor ctx held jumps (emitJumpIfFalsePlaceholder ctx condition span >>= f) :=
  .bind_index ensures_emitJumpIfFalsePlaceholder hf

theorem steady_patchWith {jumps : List Nat} {index : Nat}
    {retarget : Instruction → Option Instruction} {missing wrong : String} (hindex : index ∈ jumps)
    (hretarget : ∀ old new, retarget old = some new →
      (∀ register count, old ≠ .close register count) ∧ openBase old = none ∧ new.demand = none) :
    SteadyFor ctx held jumps (patchWith ctx index retarget missing wrong) := by
  intro b u b' hb hrun
  obtain ⟨old, new, hold, hnew, hcore⟩ := patchWith_eq_ok hrun
  obtain ⟨hclose, hopen, hcallee⟩ := hretarget old new hnew
  unfold SoundFor
  rw [hcore]
  exact ⟨hb.1.patch (hb.2 index hindex) hold hclose hopen hcallee, fun i hi => (hb.2 i hi).patch⟩

theorem steady_patchJump {jumps : List Nat} {index : Nat} {target : InstructionOffset}
    (hindex : index ∈ jumps) : SteadyFor ctx held jumps (patchJump ctx index target) := by
  refine steady_patchWith hindex fun old new h => ?_
  cases old <;> cases h <;> simp [Instruction.demand, openBase]

theorem steady_patchNumericForExit {jumps : List Nat} {index : Nat} {exit : InstructionOffset}
    (hindex : index ∈ jumps) : SteadyFor ctx held jumps (patchNumericForExit ctx index exit) := by
  refine steady_patchWith hindex fun old new h => ?_
  cases old <;> cases h <;> simp [Instruction.demand, openBase]

theorem steady_patchJumps {jumps : List Nat} {target : InstructionOffset} :
    ∀ {indices : List Nat}, indices ⊆ jumps →
      SteadyFor ctx held jumps (patchJumps ctx target indices)
  | [], _ => .pure
  | _ :: _, h => (steady_patchJump (h List.mem_cons_self)).bind fun _ =>
    steady_patchJumps (List.subset_of_cons_subset h)

/-- An update that only lets unguarded addresses wait. -/
theorem steady_modify {jumps : List Nat} {f : Builder → Builder}
    (hcore : ∀ b, (f b).core = { b.core with waiting := (f b).core.waiting })
    (hwaiting : ∀ b, (f b).core.waiting ⊆ b.core.waiting ++ jumps) :
    SteadyFor ctx held jumps (modify f) := by
  refine Ensures.modify fun b hb => ?_
  unfold SoundFor
  rw [hcore]
  refine ⟨hb.1.wait fun index hi => ?_, hb.2⟩
  rcases List.mem_append.mp (hwaiting b hi) with hi | hi
  · exact hb.1.waiting index hi
  · exact hb.2 index hi

/-- The addresses that wait may be patched by the steps behind. -/
theorem SteadyFor.bind_get {β : Type} {jumps : List Nat} {f : Builder → Lower β}
    (hf : ∀ b, SteadyFor ctx held (b.core.waiting ++ jumps) (f b)) :
    SteadyFor ctx held jumps (get >>= f) := by
  refine Ensures.get fun b => ?_
  rintro s a s' ⟨hs, rfl⟩ hrun
  refine (hf s s a s' ⟨hs.1, fun index hi => ?_⟩ hrun).of_subset (List.subset_append_right ..)
  rcases List.mem_append.mp hi with hi | hi
  · exact hs.1.waiting index hi
  · exact hs.2 index hi

/-! ### Labels, loops and debug scopes -/

theorem idle_blockLabels : ∀ (statements : List ResolvedStmt) (labels : List LabelEntry),
    Idle (blockLabels statements labels)
  | [], _ => Leaves.pure
  | statement :: rest, labels => by
    unfold blockLabels
    cases statement <;>
      first | exact idle_stopIf.bind fun _ => idle_blockLabels rest _ | exact idle_blockLabels rest _

theorem steady_enterLabelFrame {jumps : List Nat} {block : ResolvedBlock} :
    SteadyFor ctx held jumps (enterLabelFrame block) :=
  (idle_blockLabels _ _).steady.bind fun _ => Idle.steady (Leaves.modify fun _ => rfl)

theorem idle_leaveLabelFrame {block : ResolvedBlock} : Idle (leaveLabelFrame block) := by
  refine Leaves.get fun b => ?_
  split
  · exact idle_stop
  · exact Leaves.bind idle_orStop fun _ => Leaves.bind (.modify fun _ => rfl) fun _ => idle_stopIf

theorem idle_setLabelOffset {offset : InstructionOffset} {name : List UInt8} {span : Span} :
    ∀ labels : List LabelEntry, Idle (setLabelOffset offset name span labels)
  | [] => idle_stop
  | _ :: rest => Leaves.ite (idle_stopIf.bind fun _ => .pure)
    (Leaves.bind (idle_setLabelOffset rest) fun _ => .pure)

theorem waiting_eq (b : Builder) : b.core.waiting = b.pendingGotos.map PendingGoto.instruction
    ++ b.loops.flatMap LoopFrame.breakPatches ++ b.callStatementCleanups.map Prod.fst := rfl

theorem steady_patchPendingGotos {jumps : List Nat} {scope : ScopeId} {name : List UInt8}
    {offset : InstructionOffset} :
    ∀ {pendings : List PendingGoto}, pendings.map PendingGoto.instruction ⊆ jumps →
      SteadyFor ctx held jumps (patchPendingGotos ctx scope name offset pendings)
  | [], _ => .pure
  | pending :: rest, h => by
    obtain ⟨hp, hrest⟩ := List.cons_subset.mp h
    refine SteadyFor.ite
      ((steady_patchJump hp).bind fun _ => steady_patchPendingGotos hrest) ?_
    refine SteadyFor.bind (steady_modify (fun b => rfl) fun b index hi => ?_)
      fun _ => steady_patchPendingGotos hrest
    rw [waiting_eq] at hi ⊢
    simp only [List.map_append, List.map_cons, List.map_nil, List.mem_append, List.mem_singleton]
      at hi ⊢
    rcases hi with ((hi | rfl) | hi) | hi
    · exact .inl (.inl (.inl hi))
    · exact .inr hp
    · exact .inl (.inl (.inr hi))
    · exact .inl (.inr hi)

theorem steady_defineLabel {jumps : List Nat} {name : List UInt8} {span : Span} :
    SteadyFor ctx held jumps (defineLabel ctx name span) := by
  refine steady_emitCfgAnchor.bind fun offset => .bind_get fun b => idle_orStop.steady.bind
    fun frame => (idle_setLabelOffset _).steady.bind fun labels => ?_
  refine SteadyFor.bind (steady_modify (fun b => rfl) fun b index hi => ?_) fun _ =>
    steady_patchPendingGotos fun index hi => ?_
  · rw [waiting_eq] at hi ⊢
    simp only [List.map_nil, List.nil_append, List.mem_append] at hi ⊢
    exact .inl (hi.imp_left .inr)
  · rw [waiting_eq]
    simp only [List.mem_append]
    exact .inl (.inl (.inl hi))

theorem idle_pushLoop : Idle pushLoop :=
  Leaves.modify fun b => by
    simp [Builder.core, Builder.code, Builder.waiting]

theorem steady_finishLoop {jumps : List Nat} {exit : InstructionOffset} {span : Span} :
    SteadyFor ctx held jumps (finishLoop ctx exit span) := by
  refine .bind_get fun b => .bind_orStop fun frame hframe => ?_
  have hpatches : frame.breakPatches ⊆ b.core.waiting ++ jumps := fun index hi => by
    rw [waiting_eq]
    simp only [List.mem_append, List.mem_flatMap]
    exact .inl (.inl (.inr ⟨frame, List.mem_of_getLast? hframe, hi⟩))
  refine SteadyFor.bind (steady_modify (fun b => rfl) fun b index hi => ?_)
    fun _ => steady_patchJumps hpatches
  rw [waiting_eq] at hi ⊢
  simp only [List.mem_append, List.mem_flatMap] at hi ⊢
  refine .inl (hi.imp_left (Or.imp_right ?_))
  rintro ⟨frame, hframe, hi⟩
  exact ⟨frame, List.dropLast_subset _ hframe, hi⟩

/-- Only the next register changes, and it grows. -/
def Raises {α : Type} (m : Lower α) : Prop :=
  ∀ b a b', m b = .ok (a, b') →
    ∃ next, b.core.next ≤ next ∧ b'.core = { b.core with next := next }

theorem Raises.steady {α : Type} {jumps : List Nat} {m : Lower α} (h : Raises m) :
    SteadyFor ctx held jumps m := by
  refine steady_of_emits fun b a b' _ hrun => ⟨0, True, ?_⟩
  obtain ⟨next, hle, hcore⟩ := h b a b' hrun
  rw [hcore]
  exact .take hle

theorem Idle.raises {α : Type} {m : Lower α} (h : Idle m) : Raises m :=
  fun b a b' hrun => ⟨b.core.next, le_rfl, h b a b' hrun⟩

theorem Raises.bind {α β : Type} {m : Lower α} {f : α → Lower β} (hm : Raises m)
    (hf : ∀ a, Raises (f a)) : Raises (m >>= f) := by
  intro b a b' hrun
  obtain ⟨a', b₁, h₁, h₂⟩ := bind_eq_ok.mp hrun
  obtain ⟨next₁, hle₁, hcore₁⟩ := hm b a' b₁ h₁
  obtain ⟨next₂, hle₂, hcore₂⟩ := hf a' b₁ a b' h₂
  rw [hcore₁] at hle₂ hcore₂
  exact ⟨next₂, hle₁.trans hle₂, hcore₂⟩

theorem Raises.of_get {β : Type} {f : Builder → Lower β} (h : ∀ b, Raises (f b)) :
    Raises (get >>= f) :=
  fun b a b' hrun => h b b a b' hrun

theorem raises_modify {f : Builder → Builder}
    (h : ∀ b, ∃ next, b.core.next ≤ next ∧ (f b).core = { b.core with next := next }) :
    Raises (modify f) := by
  intro b u b' hrun
  obtain rfl := modify_eq_ok.mp hrun
  exact h b

theorem toNat_le_max_left (a b : UInt16) : a.toNat ≤ (max a b).toNat := by
  show a.toNat ≤ UInt16.toNat (if a ≤ b then b else a)
  split
  · next h => exact UInt16.le_iff_toNat_le.mp h
  · exact le_rfl

theorem isolateOpenCallGeneration_core {b b₀ : Builder} (hcore : b.core = b₀.core) :
    ∃ next, b₀.core.next ≤ next
      ∧ (isolateOpenCallGeneration b).core = { b₀.core with next := next } := by
  rw [← hcore]
  unfold isolateOpenCallGeneration
  split
  · refine ⟨(max b.nextRegister (max b.openCallGenerationFloor b.peakRegister)).toNat, ?_, rfl⟩
    exact toNat_le_max_left ..
  · exact ⟨b.core.next, le_rfl, rfl⟩

theorem idle_nextEpoch {span : Span} : Idle (nextEpoch span) :=
  Leaves.get fun _ => idle_orStop

theorem raises_activateDebugBinding {binding : BindingId} {initializedPc startPc : Nat}
    {span : Span} : Raises (activateDebugBinding ctx binding initializedPc startPc span) := by
  refine .of_get fun _ => idle_stopIf.raises.bind fun _ =>
    idle_bindingRegister.raises.bind fun register => idle_nextEpoch.raises.bind fun epoch =>
    .of_get fun _ => idle_toU16.raises.bind fun slot => idle_toU32.raises.bind fun initialized =>
    idle_toU32.raises.bind fun start => raises_modify fun b => ?_
  have hcore : Builder.core { b with
      debugLocals := b.debugLocals ++ [⟨binding, register, slot, initialized, start, 0xFFFFFFFF⟩]
      debugActive := b.debugActive ++ [b.debugLocals.length]
      debugBindingEpoch := epoch } = b.core := rfl
  exact isolateOpenCallGeneration_core hcore

theorem steady_activateDebugBinding {jumps : List Nat} {binding : BindingId}
    {initializedPc startPc : Nat} {span : Span} :
    SteadyFor ctx held jumps (activateDebugBinding ctx binding initializedPc startPc span) :=
  raises_activateDebugBinding.steady

theorem steady_activateBindings {jumps : List Nat} {initializedStart startPc : Nat} :
    ∀ (index : Nat) (bindings : List (BindingId × Span)),
      SteadyFor ctx held jumps (activateBindings ctx initializedStart startPc index bindings)
  | _, [] => .pure
  | index, (_, _) :: rest =>
    steady_activateDebugBinding.bind fun _ => steady_activateBindings (index + 1) rest

theorem idle_beginDebugScope {span : Span} : Idle (beginDebugScope ctx span) :=
  Leaves.get fun _ => Leaves.bind idle_stopIf fun _ => .modify fun _ => rfl

theorem steady_endDebugScope {jumps : List Nat} {span : Span} :
    SteadyFor ctx held jumps (endDebugScope span) := by
  refine .of_get fun _ => idle_orStop.steady.bind fun _ =>
    SteadyFor.bind (Idle.steady (Leaves.modify fun _ => rfl)) fun _ => .of_get fun _ =>
    idle_toU32.steady.bind fun _ => .of_get fun _ => .ite ?_ .pure
  refine Raises.steady (.bind idle_nextEpoch.raises fun _ => raises_modify fun b => ?_)
  exact isolateOpenCallGeneration_core rfl

/-! ### Ways out -/

theorem steady_emitCapturedBindingClose {jumps : List Nat} {binding : BindingId} {span : Span} :
    SteadyFor ctx held jumps (emitCapturedBindingClose ctx binding span) :=
  .ite (idle_bindingRegister.steady.bind fun _ => steady_emit rfl) .pure

theorem steady_emitUpvalueClose {jumps : List Nat} {path : ClosePath} :
    SteadyFor ctx held jumps (emitUpvalueClose ctx path) :=
  .forM (fun _ => steady_emitCapturedBindingClose) _

theorem idle_bindingRegistersOf {span : Span} :
    ∀ bindings : List BindingId, Idle (bindingRegistersOf ctx span bindings)
  | [] => Leaves.pure
  | _ :: rest => idle_bindingRegister.bind fun _ =>
    Leaves.bind (idle_bindingRegistersOf rest) fun _ => .pure

theorem steady_emitTbcClose {jumps : List Nat} {path : ClosePath} :
    SteadyFor ctx held jumps (emitTbcClose ctx path) :=
  .ite .pure ((idle_bindingRegistersOf _).steady.bind fun _ =>
    SteadyFor.bind (Idle.steady (Leaves.modify fun _ => rfl)) fun _ => .forM (fun _ => steady_emit rfl) _)

theorem steady_emitClose {jumps : List Nat} {path : ClosePath} :
    SteadyFor ctx held jumps (emitClose ctx path) :=
  steady_emitUpvalueClose.bind fun _ => steady_emitTbcClose

theorem steady_emitExitedBindingCleanup {jumps : List Nat} {path : ClosePath} :
    SteadyFor ctx held jumps (emitExitedBindingCleanup ctx path) :=
  .forM (fun _ => idle_bindingRegister.steady.bind fun _ => steady_emit rfl) _

theorem steady_lowerGoto {jumps : List Nat} {name : List UInt8} {closePath : ClosePath}
    {span : Span} : SteadyFor ctx held jumps (lowerGoto ctx name closePath span) := by
  refine idle_orStop.steady.bind fun _ => .of_get fun _ => idle_orStop.steady.bind fun known =>
    steady_emitClose.bind fun _ => steady_emitExitedBindingCleanup.bind fun _ =>
    .bind_jump fun jump => ?_
  cases known with
  | some offset => exact steady_patchJump List.mem_cons_self
  | none =>
    refine steady_modify (fun b => rfl) fun b index hi => ?_
    rw [waiting_eq] at hi ⊢
    simp only [List.map_append, List.map_cons, List.map_nil, List.mem_append, List.mem_cons,
      List.not_mem_nil, or_false] at hi ⊢
    rcases hi with ((hi | rfl) | hi) | hi
    · exact .inl (.inl (.inl hi))
    · exact .inr (.inl rfl)
    · exact .inl (.inl (.inr hi))
    · exact .inl (.inr hi)

theorem steady_lowerBreak {jumps : List Nat} {closePath : ClosePath} {span : Span} :
    SteadyFor ctx held jumps (lowerBreak ctx closePath span) := by
  refine .of_get fun _ => idle_stopIf.steady.bind fun _ => steady_emitClose.bind fun _ =>
    steady_emitExitedBindingCleanup.bind fun _ => .bind_jump fun jump => ?_
  refine steady_modify (fun b => rfl) fun b index hi => ?_
  rw [waiting_eq] at hi ⊢
  simp only [List.mem_append, List.mem_flatMap, List.mem_cons] at hi ⊢
  rcases hi with (hi | ⟨frame, hframe, hi⟩) | hi
  · exact .inl (.inl (.inl hi))
  · split at hframe
    · next last hlast =>
      rcases List.mem_append.mp hframe with hframe | hframe
      · exact .inl (.inl (.inr ⟨frame, List.dropLast_subset _ hframe, hi⟩))
      · obtain rfl := List.mem_singleton.mp hframe
        rcases List.mem_append.mp hi with hi | hi
        · exact .inl (.inl (.inr ⟨last, List.mem_of_getLast? hlast, hi⟩))
        · exact .inr (.inl (List.mem_singleton.mp hi))
    · exact .inl (.inl (.inr ⟨frame, hframe, hi⟩))
  · exact .inl (.inr hi)

/-! ### Expressions and expression lists -/

theorem steady_lowerExpr (hctx : ctx.WellFormed) {jumps : List Nat} {e : ResolvedExpr}
    (hsites : ∀ site ∈ exprSites ctx e, site.safe ctx held = true) :
    SteadyFor ctx held jumps (lowerExpr ctx e) :=
  steady_of_emits fun b r b' htop h =>
    ⟨_, _, (lowerExpr_spec hctx e b r b' htop hsites h).takes.emits⟩

theorem TakesFresh.steady {α : Type} {quiet : Prop} {jumps : List Nat} {m : Lower α}
    {r : α → Register} (h : ∀ b a b', m b = .ok (a, b') →
      TakesFresh (ctx.heldRegister held) quiet b.core (r a) b'.core) :
    SteadyFor ctx held jumps m :=
  steady_of_emits fun b a b' _ hrun => ⟨_, _, (h b a b' hrun).takes.emits⟩

theorem steady_nilRegister {jumps : List Nat} {span : Span} :
    SteadyFor ctx held jumps (nilRegister ctx span) :=
  TakesFresh.steady fun _ _ _ h => nilRegister_takesFresh h True

theorem steady_constantRegister {jumps : List Nat} {value : IrConstant} {span : Span} :
    SteadyFor ctx held jumps (constantRegister ctx value span) :=
  TakesFresh.steady fun _ _ _ h => constantRegister_takesFresh h True

theorem steady_nameConstant {jumps : List Nat} {name : List UInt8} {span : Span} :
    SteadyFor ctx held jumps (nameConstant ctx name span) :=
  steady_constantRegister

theorem steady_lowerFunction {jumps : List Nat} {body : ResolvedFunctionBody} :
    SteadyFor ctx held jumps (lowerFunction ctx body) :=
  TakesFresh.steady fun _ _ _ h => lowerFunction_takesFresh h True

theorem steady_bindingValue {jumps : List Nat} {binding : BindingId} {span : Span} :
    SteadyFor ctx held jumps (bindingValue ctx binding span) :=
  steady_of_emits fun _ _ _ _ h => ⟨_, _, (bindingValue_takes h).emits⟩

theorem steady_lowerFixedValues (hctx : ctx.WellFormed) {jumps : List Nat}
    {values : List ResolvedExpr} {count : Nat} {span : Span}
    (hsites : ∀ site ∈ valueSites ctx values count, site.safe ctx held = true) :
    SteadyFor ctx held jumps (lowerFixedValues ctx values count span) :=
  steady_of_emits fun _ _ _ htop h => ⟨_, _, (lowerFixedValues_spec hctx htop hsites h).1⟩

/-! ### Calls and returns -/

/-- Closes in front of a call: the window that was ready is still ready behind them. -/
structure ClosesAfter (c c' : Core) : Prop where
  code : c.code <+: c'.code
  windows : c'.windows = c.windows
  closes : ∀ q, c.pc ≤ q → q < c'.pc → ∃ register count, c'.code[q]? = some (.close register count)

theorem ClosesAfter.refl {c : Core} : ClosesAfter c c :=
  ⟨List.prefix_rfl, rfl, fun _ hq hlt => absurd hq hlt.not_ge⟩

theorem ClosesAfter.push {c c' : Core} {register : Register} {count : UInt16}
    (h : ClosesAfter c c') : ClosesAfter c (c'.push (.close register count)) := by
  refine ⟨h.code.trans (List.prefix_append ..), h.windows, fun q hq hlt => ?_⟩
  rw [Core.push_pc] at hlt
  rcases Nat.lt_succ_iff_lt_or_eq.mp hlt with hlt | rfl
  · obtain ⟨register', count', hcode⟩ := h.closes q hq hlt
    refine ⟨register', count', ?_⟩
    rw [Core.push_code, getElem?_append_kept (List.prefix_append ..) hlt]
    exact hcode
  · exact ⟨register, count, List.getElem?_concat_length⟩

theorem emitUpvalueClose_closesAfter {path : ClosePath} {c : Core} {b b' : Builder} {u : Unit}
    (hc : ClosesAfter c b.core) (h : emitUpvalueClose ctx path b = .ok (u, b')) :
    ClosesAfter c b'.core := by
  unfold emitUpvalueClose at h
  generalize path.exitedBindings = bindings at h
  induction bindings generalizing b with
  | nil =>
    obtain ⟨-, rfl⟩ := pure_eq_ok.mp h
    exact hc
  | cons binding rest ih =>
    obtain ⟨u₁, b₁, h₁, h₂⟩ := bind_eq_ok.mp h
    refine ih ?_ h₂
    have h₁ : emitCapturedBindingClose ctx binding path.span b = .ok (u₁, b₁) := h₁
    unfold emitCapturedBindingClose at h₁
    split at h₁
    · obtain ⟨r, b₂, h₃, h₄⟩ := bind_eq_ok.mp h₁
      rw [emit_eq_ok h₄, idle_bindingRegister _ _ _ h₃]
      exact hc.push
    · obtain ⟨-, rfl⟩ := pure_eq_ok.mp h₁
      exact hc

theorem emitTbcClose_closesAfter {path : ClosePath} {c : Core} {b b' : Builder} {u : Unit}
    (hc : ClosesAfter c b.core) (h : emitTbcClose ctx path b = .ok (u, b')) :
    ClosesAfter c b'.core := by
  unfold emitTbcClose at h
  split at h
  · obtain ⟨-, rfl⟩ := pure_eq_ok.mp h
    exact hc
  · obtain ⟨registers, b₁, h₁, h⟩ := bind_eq_ok.mp h
    have h := modify_bind_eq_ok.mp h
    have hc₁ : ClosesAfter c b₁.core := by
      rw [idle_bindingRegistersOf _ _ _ _ h₁]
      exact hc
    have hforM : ∀ {registers : List Register} {f : Register → IrClosePath} {b : Builder},
        ClosesAfter c b.core →
        registers.forM (fun register => emit ctx (.close register 1) path.span (some (f register))) b
          = .ok (u, b') → ClosesAfter c b'.core := by
      intro registers f b hc h
      induction registers generalizing b with
      | nil =>
        obtain ⟨-, rfl⟩ := pure_eq_ok.mp h
        exact hc
      | cons register rest ih =>
        obtain ⟨u₁, b₁, h₁, h₂⟩ := bind_eq_ok.mp h
        refine ih ?_ h₂
        rw [emit_eq_ok h₁]
        exact hc.push
    refine hforM ?_ h
    exact hc₁

theorem emitClose_closesAfter {path : ClosePath} {c : Core} {b b' : Builder} {u : Unit}
    (hc : ClosesAfter c b.core) (h : emitClose ctx path b = .ok (u, b')) :
    ClosesAfter c b'.core := by
  obtain ⟨u₁, b₁, h₁, h₂⟩ := bind_eq_ok.mp h
  exact emitTbcClose_closesAfter (emitUpvalueClose_closesAfter hc h₁) h₂

/-- The instruction whose window is ready, behind closes. -/
theorem Core.ReadyFor.push {base : Register} {demand : Demand} {top : Nat} {c c' : Core}
    {instruction : Instruction} (h : c.ReadyFor base demand) (hcloses : ClosesAfter c c')
    (hsound : c'.Sound captured top) (hdemand : instruction.demand = some (base, demand)) :
    (c'.push instruction).Sound captured top := by
  obtain ⟨w, hw, hbase, hready, hfeeds⟩ := h
  refine hsound.pushWith fun base' demand' hcalls => ?_
  cases hdemand.symm.trans hcalls
  refine ⟨w, hcloses.windows ▸ hw, hbase, hready.trans_le hcloses.code.length_le, ?_,
    hfeeds.congr fun q producer r hlt hq _ => ?_⟩
  · rw [hready]
    exact hcloses.closes
  · rw [getElem?_append_kept hcloses.code (hlt.trans_eq hready)]
    exact hq

/-- The same for the builder. -/
theorem SoundFor.emitReady {jumps : List Nat} {base : Register} {demand : Demand} {c : Core}
    {instruction : Instruction} {span : Span} {b b' : Builder} {u : Unit}
    (hb : SoundFor ctx held jumps b) (hready : c.ReadyFor base demand)
    (hcloses : ClosesAfter c b.core) (hdemand : instruction.demand = some (base, demand))
    (h : Compiler.emit ctx instruction span none b = .ok (u, b')) : SoundFor ctx held jumps b' := by
  unfold SoundFor
  rw [emit_eq_ok h]
  exact ⟨hready.push hcloses hb.1 hdemand, fun index hi => (hb.2 index hi).push⟩

/-- A window without inputs, right behind a producer. -/
theorem SoundFor.recordEmpty (hctx : ctx.WellFormed) {jumps : List Nat} {base : Register}
    {b b' : Builder} {u : Unit} (hb : SoundFor ctx held jumps b)
    (htop : ctx.initialTop.toNat ≤ base.toNat)
    (h : recordWindow [] base b.pc base b = .ok (u, b')) : SoundFor ctx held jumps b' := by
  have hemits : Emits (ctx.heldRegister held) 0 False b.core b'.core := by
    rw [recordWindow_eq_ok h]
    refine Emits.refl.record (w := ⟨[], base, b.pc, base, b.pc⟩) ⟨?_, ?_, le_rfl, ?_⟩
      (Builder.core_pc b).symm ?_
    · intro index input hi
      cases hi
    · intro pc instruction hstart hstop
      exact absurd hstart hstop.not_ge
    · exact fun register hr => hctx.not_held (htop.trans hr)
    · rintro pc ⟨hlt, hle | ⟨input, hi, -⟩⟩
      · exact absurd hle hlt.not_ge
      · cases hi
  exact hemits.soundFor hb

theorem steady_lowerTailReturn (hctx : ctx.WellFormed) {jumps : List Nat} {e : ResolvedExpr}
    {closePath : ClosePath} {span : Span}
    (hsites : ∀ site ∈ exprSites ctx e, site.safe ctx held = true) :
    SteadyFor ctx held jumps (lowerTailReturn ctx e closePath span) := by
  intro b u b' hb hrun
  simp only [lowerTailReturn] at hrun
  obtain ⟨⟨base, argCount⟩, b₁, h₁, hrun⟩ := bind_eq_ok.mp hrun
  dsimp only at hrun
  obtain ⟨place, -, hfill, -⟩ := prepareOpenCall_spec hctx e span b _ b₁ hb.1.top_le hsites h₁
  have hb₁ : SoundFor ctx held jumps b₁ := hfill.emits.soundFor hb
  -- the tail call itself, behind the closes of captured bindings
  have htail : ∀ {b₂ : Builder}, ClosesAfter b₁.core b₂.core → SoundFor ctx held jumps b₂ →
      (do
        markDynamicTop base
        emit ctx (.tailCall base argCount .all) span none : Lower Unit) b₂ = .ok (u, b') →
      SoundFor ctx held jumps b' := by
    intro b₂ hcloses hb₂ hrun
    obtain ⟨u₃, b₃, h₃, h₄⟩ := bind_eq_ok.mp hrun
    have hcloses₃ : ClosesAfter b₁.core b₃.core := by
      rw [idle_markDynamicTop _ _ _ h₃]
      exact hcloses
    exact (idle_markDynamicTop.steady b₂ u₃ b₃ hb₂ h₃).emitReady hfill.ready hcloses₃ rfl h₄
  split at hrun
  · split at hrun
    · obtain ⟨u₂, b₂, h₂, hrun⟩ := bind_eq_ok.mp hrun
      exact htail (emitUpvalueClose_closesAfter .refl h₂)
        (steady_emitUpvalueClose b₁ u₂ b₂ hb₁ h₂) hrun
    · exact htail .refl hb₁ hrun
  · -- the call, and a return of all its results behind the closes
    simp only [bind_eq_ok] at hrun
    obtain ⟨u₂, b₂, h₂, pc, b₃, h₃, u₄, b₄, h₄, u₅, b₅, h₅, u₆, b₆, h₆, h₇⟩ := hrun
    obtain ⟨rfl, rfl⟩ := currentPc_eq_ok h₃
    have htop : ctx.initialTop.toNat ≤ base.toNat := by
      have hbase : base.toNat = _ := hfill.base_eq
      have := hb.1.top_le
      omega
    have hb₃ := hb₁.emitReady hfill.ready .refl rfl h₂
    have hb₄ := hb₃.recordEmpty hctx htop h₄
    have hb₅ := idle_markDynamicTop.steady b₄ u₅ b₅ hb₄ h₅
    have hb₆ := steady_emitClose b₅ u₆ b₆ hb₅ h₆
    have hready : b₅.core.ReadyFor base (.results .all) := by
      rw [idle_markDynamicTop _ _ _ h₅, recordWindow_eq_ok h₄]
      refine ⟨_, List.mem_append_right _ (List.mem_singleton.mpr rfl), rfl, ?_, ?_⟩
      · exact (Builder.core_pc b₃).symm
      · have hproduces : b₃.core.Produces base := by
          rw [emit_eq_ok h₂]
          exact Core.produces_push _ rfl
        obtain ⟨last, producer, hpc, hlast, hopen⟩ := hproduces.last
        exact ⟨last, producer, base, (Builder.core_pc b₃).symm.trans hpc, hlast, hopen, rfl⟩
    exact hb₆.emitReady hready (emitClose_closesAfter .refl h₆) rfl h₇

theorem steady_lowerReturn (hctx : ctx.WellFormed) {jumps : List Nat} {values : List ResolvedExpr}
    {closePath : ClosePath} {span : Span}
    (hsites : ∀ site ∈ statementSites ctx (.ret values closePath span),
      site.safe ctx held = true) :
    SteadyFor ctx held jumps (lowerReturn ctx values closePath span) := by
  have hvalues : (∀ site ∈ returnSites ctx values, site.safe ctx held = true) →
      SteadyFor ctx held jumps (do
        let window ← lowerReturnValues ctx values span
        emitClose ctx closePath
        emit ctx (.ret window.1 window.2) span none) := by
    intro hsites b u b' hb hrun
    obtain ⟨⟨base, mode⟩, b₁, h₁, hrun⟩ := bind_eq_ok.mp hrun
    obtain ⟨u₂, b₂, h₂, h₃⟩ := bind_eq_ok.mp hrun
    obtain ⟨hemits, hready⟩ := lowerReturnValues_spec hctx hb.1.top_le hsites h₁
    have hb₂ := steady_emitClose b₁ u₂ b₂ (hemits.soundFor hb) h₂
    by_cases hnone : mode = .fixed 0
    · have hdemand : Instruction.demand (.ret base mode) = none := if_pos hnone
      exact steady_emit hdemand b₂ u b' hb₂ h₃
    · have hdemand : Instruction.demand (.ret base mode) = some (base, .results mode) :=
        if_neg hnone
      exact hb₂.emitReady (hready.resolve_left hnone) (emitClose_closesAfter .refl h₂) hdemand h₃
  unfold lowerReturn
  split
  · next value =>
    simp only [statementSites] at hsites
    refine Ensures.ite (fun hcall => ?_) fun hcall => ?_
    · rw [if_pos hcall] at hsites
      exact steady_lowerTailReturn hctx hsites
    · rw [if_neg hcall] at hsites
      exact hvalues hsites
  · next hne =>
    refine hvalues ?_
    rwa [statementSites] at hsites
    exact hne

theorem steady_lowerStatementCall (hctx : ctx.WellFormed) {jumps : List Nat} {e : ResolvedExpr}
    {span : Span} (hsites : ∀ site ∈ exprSites ctx e, site.safe ctx held = true) :
    SteadyFor ctx held jumps (lowerStatementCall ctx e span) := by
  refine .of_get fun before b u b' hb hrun => ?_
  obtain ⟨⟨base, argCount⟩, b₁, h₁, hrun⟩ := bind_eq_ok.mp hrun
  obtain ⟨u₂, b₂, h₂, hrun⟩ := bind_eq_ok.mp hrun
  obtain ⟨place, -, hfill, -⟩ := prepareOpenCall_spec hctx e span b _ b₁ hb.1.top_le hsites h₁
  have hb₁ : SoundFor ctx held jumps b₁ := hfill.emits.soundFor hb
  have hb₂ := hb₁.emitReady hfill.ready .refl rfl h₂
  have hidle : Idle (temporariesSince before.nextRegister) := fun b a b' h => by
    cases h
    rfl
  refine (?_ : SteadyFor ctx held jumps _) b₂ u b' hb₂ hrun
  refine hidle.steady.bind fun count => idle_stopIf.steady.bind fun _ =>
    .bind_emit rfl fun cleanupPc => steady_modify (fun b => rfl) fun b index hi => ?_
  rw [waiting_eq] at hi ⊢
  simp only [List.map_append, List.map_cons, List.map_nil, List.mem_append, List.mem_cons,
    List.not_mem_nil, or_false] at hi ⊢
  rcases hi with hi | hi | rfl
  · exact .inl (.inl hi)
  · exact .inl (.inr hi)
  · exact .inr (.inl rfl)

end RivetLua.Compiler
