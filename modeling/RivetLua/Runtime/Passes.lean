import RivetLua.Runtime.Mutator

namespace RivetLua.Runtime

open RivetLua.Core RivetLua.Gc StateProg

/-!
# Runtime — what the passes of the collector preserve

The passes only mark, clear weak entries, move objects to the finalizer queue and free; an
invariant that survives these survives the passes, whichever way they end.

* `keeps_traceGcObject`, `keeps_visitEphemeronSlot`, `keeps_retraceOld`,
  `keeps_markLiveWeakStringKeys` — the marking passes, for an invariant that survives one mark;
* `AtomicStable I` — what an invariant has to survive to survive the atomic phase;
* `CollectsRemembering I`, `Collects I` — what an invariant that reads nothing of the collector's
  state, or the remembered set only, has to survive to survive the whole collector.
-/

section Marking

variable {I : Vm → Prop} (hmark : ∀ object, Keeps I (gcMarkSlot object))
include hmark

theorem keeps_gcVisit (v : GcVisit) : Keeps I (gcVisit v) := by
  cases v with
  | always object => exact hmark object
  | ifString object =>
    exact Keeps.bind Keeps.get fun _ => Keeps.bind (Keeps.ofExcept _) fun _ =>
      Keeps.ite (hmark object) (Keeps.pure ())

theorem keeps_traceGcObject (object : ObjectRef) : Keeps I (traceGcObject object) :=
  Keeps.bind (hmark object) fun _ => Keeps.bind Keeps.get fun _ =>
    Keeps.bind (Keeps.ofOption _ _) fun _ => Keeps.bind (Keeps.ofOption _ _) fun _ =>
      Keeps.forM (keeps_gcVisit hmark) _

theorem keeps_visitEphemeronPair (pair : Option ObjectRef × ObjectRef) :
    Keeps I (visitEphemeronPair pair) := by
  refine Keeps.bind Keeps.get fun vm => ?_
  have hvalue : ∀ live : Bool, Keeps I (if live then do
      let id ← Prog.ofOption .staleObject pair.2.identity
      if vm.gc.color id.slot = some .white then gcMarkSlot pair.2
      else pure () else pure ()) := fun live =>
    Keeps.ite (Keeps.bind (Keeps.ofOption _ _) fun _ => Keeps.ite (hmark _) (Keeps.pure ()))
      (Keeps.pure ())
  cases pair.1 with
  | none => exact Keeps.bind (Keeps.pure true) hvalue
  | some key =>
    exact Keeps.bind (Keeps.ofOption _ _) fun _ => Keeps.bind (Keeps.ofExcept _) fun _ =>
      Keeps.bind (Keeps.pure _) hvalue

theorem keeps_visitEphemeronSlot (index : Nat) : Keeps I (visitEphemeronSlot index) := by
  refine Keeps.bind Keeps.get fun vm => Keeps.ite ?_ (Keeps.pure ())
  cases vm.tableAt index with
  | none => exact Keeps.pure ()
  | some t => exact Keeps.forM (keeps_visitEphemeronPair hmark) _

omit hmark in
theorem keeps_forOccupied {body : Nat → VmM Unit} (h : ∀ index, Keeps I (body index)) :
    Keeps I (forOccupied body) :=
  Keeps.bind Keeps.get fun _ => Keeps.forM h _

theorem keeps_retraceOld : Keeps I retraceOld := by
  refine keeps_forOccupied fun index => Keeps.bind Keeps.get fun vm => ?_
  cases vm.occupied? index with
  | none => exact Keeps.pure ()
  | some o => exact Keeps.ite (keeps_traceGcObject hmark _) (Keeps.pure ())

theorem keeps_markLiveWeakStringKeys : Keeps I markLiveWeakStringKeys := by
  refine keeps_forOccupied fun index => Keeps.bind Keeps.get fun vm => ?_
  cases vm.occupied? index with
  | none => exact Keeps.pure ()
  | some o =>
    refine Keeps.bind (Keeps.ofOption _ _) fun color => Keeps.ite ?_ (Keeps.pure ())
    cases vm.tableAt index with
    | none => exact Keeps.pure ()
    | some t => exact Keeps.forM hmark _

end Marking

/-- An invariant that does not read the ledger survives a program over it. -/
theorem keeps_liftLedger {α : Type} {I : Vm → Prop} (h : ∀ vm l, I vm → I { vm with ledger := l })
    (m : LedgerM α) : Keeps I (liftLedger m) :=
  Keeps.of_apply fun vm hvm => h vm _ hvm

/-! ### The atomic phase -/

/-- A change of the collector's cursors, stage and phase: marks, lists and counters stay. -/
structure GcState.SameMarks (gc gc' : GcState) : Prop where
  bits : gc'.slotBits = gc.slotBits
  work : gc'.work = gc.work
  counts : gc'.occupiedCount = gc.occupiedCount ∧ gc'.workCapacity = gc.workCapacity ∧
    gc'.growthCharges = gc.growthCharges ∧ gc'.charge = gc.charge
  remembered : gc'.remembered = gc.remembered
  roots : gc'.roots = gc.roots ∧ gc'.rootCursor = gc.rootCursor
  kind : gc'.mode = gc.mode ∧ gc'.cycle = gc.cycle ∧ gc'.sweepCursor = gc.sweepCursor
  phase : gc'.phase = gc.phase ∨ gc'.phase = .propagate ∨ gc'.phase = .atomic ∨ gc'.phase = .sweep

/-- What an invariant of an active cycle has to survive to survive the atomic phase. -/
structure AtomicStable (I : Vm → Prop) : Prop where
  mark : ∀ object, Keeps I (gcMarkSlot object)
  marks : ∀ vm gc, GcState.SameMarks vm.gc gc → I vm → I { vm with gc := gc }
  ledger : ∀ vm l, I vm → I { vm with ledger := l }
  clear : ∀ clearValues clearKeys index, Keeps I (clearDeadWeakSlot clearValues clearKeys index)
  separate : ∀ index, Keeps I (separateDeadFinalizer index)
  sort : ∀ vm, I vm → I { vm with finalizerQueue := sortQueue vm.finalizerQueue }
  rebuild : Keeps I rebuildRememberedSet

namespace AtomicStable

variable {I : Vm → Prop} (h : AtomicStable I)
include h

theorem modifyGc {f : GcState → GcState} (hf : ∀ gc, GcState.SameMarks gc (f gc)) :
    Keeps I (modifyGc f) :=
  Keeps.modify fun vm hvm => h.marks vm _ (hf vm.gc) hvm

theorem rescan : Keeps I (RivetLua.Runtime.modifyGc GcState.rescan) :=
  h.modifyGc fun _ =>
    ⟨rfl, rfl, ⟨rfl, rfl, rfl, rfl⟩, rfl, ⟨rfl, rfl⟩, ⟨rfl, rfl, rfl⟩, .inr (.inl rfl)⟩

theorem setStage (stage : AtomicFinalizerStage) :
    Keeps I (RivetLua.Runtime.modifyGc fun gc => { gc with atomicFinalizerStage := stage }) :=
  h.modifyGc fun _ =>
    ⟨rfl, rfl, ⟨rfl, rfl, rfl, rfl⟩, rfl, ⟨rfl, rfl⟩, ⟨rfl, rfl, rfl⟩, .inl rfl⟩

theorem setCursor (cursor : Nat) :
    Keeps I (RivetLua.Runtime.modifyGc fun gc => { gc with ephemeronCursor := cursor }) :=
  h.modifyGc fun _ =>
    ⟨rfl, rfl, ⟨rfl, rfl, rfl, rfl⟩, rfl, ⟨rfl, rfl⟩, ⟨rfl, rfl, rfl⟩, .inl rfl⟩

theorem clearDeadWeakPairs (clearValues clearKeys : Bool) :
    Keeps I (clearDeadWeakPairs clearValues clearKeys) :=
  keeps_forOccupied (h.clear clearValues clearKeys)

theorem unlessWork {next : VmM Unit} (hnext : Keeps I next) : Keeps I (unlessWork next) :=
  Keeps.bind Keeps.get fun _ => Keeps.ite hnext h.rescan

theorem atomicFinish : Keeps I atomicFinish := by
  refine Keeps.bind (h.clearDeadWeakPairs _ _) fun _ => Keeps.bind Keeps.get fun vm => ?_
  have hend : ∀ rebuilt : Bool, Keeps I (if rebuilt then
      RivetLua.Runtime.modifyGc (GcState.transition · .sweep)
      else RivetLua.Runtime.modifyGc GcState.rescan) := fun rebuilt =>
    Keeps.ite (h.modifyGc fun _ =>
      ⟨rfl, rfl, ⟨rfl, rfl, rfl, rfl⟩, rfl, ⟨rfl, rfl⟩, ⟨rfl, rfl, rfl⟩, .inr (.inr (.inr rfl))⟩) h.rescan
  by_cases hm : vm.gc.mode = .generational
  · rw [if_pos hm]
    exact Keeps.bind h.rebuild hend
  · rw [if_neg hm]
    exact Keeps.bind (Keeps.pure true) hend

theorem separateDeadFinalizers : Keeps I separateDeadFinalizers :=
  Keeps.bind (keeps_forOccupied h.separate) fun _ => Keeps.modify h.sort

theorem atomicSeparate : Keeps I atomicSeparate :=
  Keeps.bind Keeps.get fun _ => Keeps.ite
    (Keeps.bind h.separateDeadFinalizers fun _ => Keeps.bind (h.setStage _) fun _ =>
      h.unlessWork h.atomicFinish)
    h.atomicFinish

theorem reserveFinalizerCandidates : Keeps I reserveFinalizerCandidates :=
  Keeps.bind Keeps.get fun _ => Keeps.ite (keeps_liftLedger h.ledger _) (Keeps.pure ())

theorem atomicClearValues : Keeps I atomicClearValues :=
  Keeps.bind Keeps.get fun _ => Keeps.ite
    (Keeps.bind h.reserveFinalizerCandidates fun _ => Keeps.bind (h.clearDeadWeakPairs _ _) fun _ =>
      Keeps.bind (keeps_markLiveWeakStringKeys h.mark) fun _ => Keeps.bind (h.setStage _) fun _ =>
        h.unlessWork h.atomicSeparate)
    h.atomicSeparate

theorem atomicConverged : Keeps I atomicConverged :=
  Keeps.bind Keeps.get fun _ => Keeps.bind (h.setCursor _) fun _ => Keeps.ite
    (Keeps.bind (keeps_retraceOld h.mark) fun _ => h.unlessWork h.atomicClearValues)
    h.atomicClearValues

/-- The invariant survives a unit of the atomic phase. -/
theorem stepGcAtomic : Keeps I stepGcAtomic := by
  refine Keeps.bind Keeps.get fun vm => Keeps.ite h.rescan ?_
  cases vm.gc.nextOccupied vm.gc.ephemeronCursor vm.gcScanEnd with
  | none => exact h.atomicConverged
  | some index =>
    exact Keeps.bind (h.setCursor _) fun _ => Keeps.bind (keeps_visitEphemeronSlot h.mark index)
      fun _ => h.unlessWork (Keeps.pure ())

end AtomicStable

/-! ### Invariants of the whole collector -/

/-- What an invariant has to survive that reads the remembered set, and nothing else of the
    collector's state. -/
structure CollectsRemembering (I : Vm → Prop) : Prop where
  gc : ∀ vm gc, gc.remembered = vm.gc.remembered → I vm → I { vm with gc := gc }
  ledger : ∀ vm l, I vm → I { vm with ledger := l }
  compact : ∀ vm, I vm → I { vm with roots := vm.roots.compact }
  clear : ∀ clearValues clearKeys index, Keeps I (clearDeadWeakSlot clearValues clearKeys index)
  separate : ∀ index, Keeps I (separateDeadFinalizer index)
  sort : ∀ vm, I vm → I { vm with finalizerQueue := sortQueue vm.finalizerQueue }
  snapshot : ∀ index, Keeps I (snapshotWeakMode index)
  reclaim : ∀ object, Keeps I (reclaim object)
  rebuild : Keeps I rebuildRememberedSet

/-- Recolouring the old objects leaves the remembered set. -/
theorem Vm.cycleStart_remembered (vm : Vm) (kind : GcCycleKind) (live : Nat)
    (roots : List ObjectRef) : (vm.cycleStart kind live roots).remembered = vm.gc.remembered := by
  have hfold : ∀ (slots : List Nat) (gc : GcState), (slots.foldl
      (fun gc index => if vm.isOldAt index then gc.setColor index .black else gc) gc).remembered
        = gc.remembered := by
    intro slots
    induction slots with
    | nil => exact fun _ => rfl
    | cons index rest ih =>
      intro gc
      rw [List.foldl_cons, ih]
      split <;> rfl
  unfold Vm.cycleStart Vm.blackenOld
  by_cases hk : kind = .minor
  · simp only [if_pos hk]
    exact hfold _ _
  · simp only [if_neg hk]
    rfl

theorem GcState.remembered_pushGray (gc : GcState) (index : Nat) (object : ObjectRef) :
    (gc.pushGray index object).remembered = gc.remembered := by
  unfold GcState.pushGray
  simp only
  split <;> rfl

namespace CollectsRemembering

variable {I : Vm → Prop} (h : CollectsRemembering I)
include h

theorem modifyGc {f : GcState → GcState} (hf : ∀ gc, (f gc).remembered = gc.remembered) :
    Keeps I (modifyGc f) :=
  Keeps.modify fun vm hvm => h.gc vm _ (hf vm.gc) hvm

theorem mark (object : ObjectRef) : Keeps I (gcMarkSlot object) := by
  refine Keeps.of_apply fun vm hvm => ?_
  rcases gcMarkSlot_cases object vm with ⟨e, hrun, -⟩ | ⟨id, o, -, -, ⟨hrun, -⟩ | ⟨hrun, -⟩⟩
  · rw [hrun]
    exact hvm
  · rw [hrun]
    exact hvm
  · rw [hrun]
    exact h.gc vm _ (GcState.remembered_pushGray _ _ _) hvm

theorem atomicStable : AtomicStable I where
  mark := h.mark
  marks := fun vm gc hgc hvm => h.gc vm gc hgc.remembered hvm
  ledger := h.ledger
  clear := h.clear
  separate := h.separate
  sort := h.sort
  rebuild := h.rebuild

theorem rootMarkStep : Keeps I rootMarkStep := by
  refine Keeps.bind Keeps.get fun vm => ?_
  cases vm.gc.roots[vm.gc.rootCursor]? with
  | some root => exact Keeps.bind (h.mark root) fun _ => h.modifyGc fun _ => rfl
  | none =>
    simp only
    cases (if vm.gc.cycle = .minor then vm.gc.remembered[vm.gc.rememberedCursor]? else none) with
    | some owner =>
      exact Keeps.bind (keeps_traceGcObject h.mark owner) fun _ => h.modifyGc fun _ => rfl
    | none => exact h.modifyGc fun _ => rfl

theorem propagateStep : Keeps I propagateStep := by
  refine Keeps.bind Keeps.get fun vm => ?_
  cases vm.gc.work with
  | nil => exact h.modifyGc fun _ => rfl
  | cons object rest =>
    exact Keeps.bind (h.modifyGc fun _ => rfl) fun _ =>
      Keeps.bind (Keeps.onError (keeps_traceGcObject h.mark object) (h.modifyGc fun _ => rfl))
        fun _ => Keeps.bind (Keeps.ofOption _ _) fun _ => h.modifyGc fun _ => rfl

/-- A unit of the sweep.  The end of the cycle ages the survivors, with no gray object left. -/
theorem sweepStep {vm : Vm} (hvm : I vm) (hpromote : vm.gc.work = [] →
    I (promoteGcSurvivors { vm with roots := vm.roots.compact }).2) :
    I (RivetLua.Runtime.sweepStep vm).2 := by
  unfold RivetLua.Runtime.sweepStep
  rw [Prog.bind_apply_ok (Prog.get_apply vm)]
  by_cases hwork : vm.gc.work = []
  case neg =>
    rw [if_pos hwork]
    exact (h.modifyGc (f := (GcState.transition · .propagate)) fun _ => rfl).apply hvm
  rw [if_neg fun hne => hne hwork]
  cases vm.gc.nextOccupied vm.gc.sweepCursor vm.gcScanEnd with
  | none =>
    simp only
    rw [Prog.bind_apply_ok (Prog.modify_apply _ vm)]
    have haged := hpromote hwork
    rcases hrun : promoteGcSurvivors { vm with roots := vm.roots.compact } with ⟨_ | _, aged⟩
    · rw [hrun] at haged
      rw [Prog.bind_apply_error hrun]
      exact haged
    · rw [hrun] at haged
      rw [Prog.bind_apply_ok hrun]
      exact (h.modifyGc (f := GcState.clearCycle) fun _ => rfl).apply haged
  | some index =>
    refine (Keeps.bind (h.modifyGc (f := fun gc => { gc with sweepCursor := index + 1 })
      fun _ => rfl) fun _ => ?_).apply hvm
    cases vm.occupied? index with
    | none => exact Keeps.pure ()
    | some o =>
      exact Keeps.bind (Keeps.ofOption _ _) fun _ => Keeps.ite
        (Keeps.ite (Keeps.bind (h.reclaim _) fun _ => h.modifyGc fun _ => rfl) (Keeps.pure ()))
        (Keeps.pure ())

theorem beginGcCycleKind (kind : GcCycleKind) : Keeps I (beginGcCycleKind kind) := by
  refine Keeps.bind Keeps.get fun start => Keeps.ite (Keeps.fail _) <|
    Keeps.bind (keeps_liftLedger h.ledger _) fun _ =>
      Keeps.bind (keeps_liftLedger h.ledger _) fun _ =>
        Keeps.bind (Keeps.ofExcept _) fun _ =>
          Keeps.bind (keeps_forOccupied h.snapshot) fun _ =>
            Keeps.ite (Keeps.modify fun vm hvm => ?_) (Keeps.fail _)
  exact h.gc vm _ (vm.cycleStart_remembered _ _ _) hvm

theorem beginGcCycle : Keeps I beginGcCycle :=
  Keeps.bind Keeps.get fun _ => Keeps.bind (Keeps.modify fun vm hvm => h.gc vm _ rfl hvm) fun _ =>
    h.beginGcCycleKind _

/-- The invariant survives a unit of work, if it survives the end of a cycle. -/
theorem gcStep {vm : Vm} (hvm : I vm) (hpromote : vm.gc.phase = .sweep → vm.gc.work = [] →
    I (promoteGcSurvivors { vm with roots := vm.roots.compact }).2) :
    I (RivetLua.Runtime.gcStep vm).2 := by
  unfold RivetLua.Runtime.gcStep
  rw [Prog.bind_apply_ok (Prog.get_apply vm)]
  cases hphase : vm.gc.phase with
  | pause => exact h.beginGcCycle.apply hvm
  | rootMark => exact h.rootMarkStep.apply hvm
  | propagate => exact h.propagateStep.apply hvm
  | atomic => exact h.atomicStable.stepGcAtomic.apply hvm
  | sweep => exact h.sweepStep hvm (hpromote hphase)

end CollectsRemembering

/-- What an invariant that does not read the collector's state has to survive. -/
structure Collects (I : Vm → Prop) : Prop where
  gc : ∀ vm gc, I vm → I { vm with gc := gc }
  ledger : ∀ vm l, I vm → I { vm with ledger := l }
  compact : ∀ vm, I vm → I { vm with roots := vm.roots.compact }
  clear : ∀ clearValues clearKeys index, Keeps I (clearDeadWeakSlot clearValues clearKeys index)
  separate : ∀ index, Keeps I (separateDeadFinalizer index)
  sort : ∀ vm, I vm → I { vm with finalizerQueue := sortQueue vm.finalizerQueue }
  promote : ∀ vm index o, vm.occupied? index = some o → I vm →
    I (vm.setOccupied index (o.promoted vm.gc.promotionSurvivals))
  snapshot : ∀ index, Keeps I (snapshotWeakMode index)
  reclaim : ∀ object, Keeps I (reclaim object)

namespace Collects

variable {I : Vm → Prop} (h : Collects I)
include h

theorem modifyGc (f : GcState → GcState) : Keeps I (modifyGc f) :=
  Keeps.modify fun vm hvm => h.gc vm _ hvm

theorem mark (object : ObjectRef) : Keeps I (gcMarkSlot object) := by
  refine Keeps.of_apply fun vm hvm => ?_
  rcases gcMarkSlot_cases object vm with ⟨e, hrun, -⟩ | ⟨id, o, -, -, ⟨hrun, -⟩ | ⟨hrun, -⟩⟩
  · rw [hrun]
    exact hvm
  · rw [hrun]
    exact hvm
  · rw [hrun]
    exact h.gc vm _ hvm

theorem rebuildRememberedSet : Keeps I rebuildRememberedSet := by
  refine Keeps.bind Keeps.get fun vm => Keeps.bind (Keeps.ofExcept _) fun scanned => ?_
  rcases scanned with (_ | ⟨index, owners⟩) | child
  · exact Keeps.bind (Keeps.modify fun vm hvm => h.gc vm _ hvm) fun _ => Keeps.pure true
  · exact Keeps.bind (keeps_liftLedger h.ledger _) fun _ =>
      Keeps.bind (Keeps.modify fun vm hvm => h.gc vm _ hvm) fun _ => Keeps.pure true
  · exact Keeps.bind (h.mark child) fun _ => Keeps.pure false

theorem remembering : CollectsRemembering I where
  gc := fun vm gc _ => h.gc vm gc
  ledger := h.ledger
  compact := h.compact
  clear := h.clear
  separate := h.separate
  sort := h.sort
  snapshot := h.snapshot
  reclaim := h.reclaim
  rebuild := h.rebuildRememberedSet

theorem promoteGcSurvivors : Keeps I promoteGcSurvivors := by
  refine Keeps.bind Keeps.get fun vm => Keeps.ite ?_ (Keeps.pure ())
  refine keeps_forOccupied fun index => Keeps.of_apply fun vm hvm => ?_
  rw [Prog.bind_apply_ok (Prog.get_apply vm)]
  cases ho : vm.occupied? index with
  | none => exact hvm
  | some o =>
    simp only
    split
    · exact h.promote vm index o ho hvm
    · exact hvm

/-- The invariant survives a unit of work. -/
theorem gcStep : Keeps I gcStep :=
  Keeps.of_apply fun vm hvm =>
    h.remembering.gcStep hvm fun _ _ => h.promoteGcSurvivors.apply (h.compact vm hvm)

end Collects

end RivetLua.Runtime
