import RivetLua.Runtime.Passes
import RivetLua.Runtime.Rollback

namespace RivetLua.Runtime

open RivetLua.Core RivetLua.Gc StateProg

/-!
# Runtime — the collector keeps the bookkeeping and its anchors

An *anchor* is an object the collector must not free whatever the heap looks like: the object
of an active root and, on demand, the object of a queued finalizer.  A program may free an
object it has rooted, so the anchors that are followed can be restricted further.

* `Vm.Shields` — an anchor resolves and, in an active cycle, is not white unless its turn in the
  root snapshot is still to come;
* `Vm.Guarded` — bookkeeping in order and every anchor shielded;
* `gcStep_guarded` — one unit of collector work keeps both, whichever way it ends.
-/

/-- In an active cycle, not white. -/
def Vm.Nonwhite (vm : Vm) (r : ObjectRef) : Prop :=
  ∀ id, r.identity = some id → vm.gc.color id.slot ≠ some .white

/-- The object resolves and the running cycle will not free it. -/
structure Vm.Shields (vm : Vm) (r : ObjectRef) : Prop where
  resolves : ∃ o, vm.checkedSlot r = .ok o
  color : vm.gc.phase = .pause ∨ vm.Nonwhite r ∨
    (vm.gc.phase = .rootMark ∧ r ∈ vm.gc.roots.drop vm.gc.rootCursor)

/-- Which objects are anchors: those of queued finalizers on demand, and of all of them the ones
    that pass a test. -/
structure Anchoring where
  queue : Bool
  only : ObjectRef → Bool

/-- The objects of the active roots and, on demand, of the queued finalizers. -/
def Vm.anchors (guard : Anchoring) (vm : Vm) : List ObjectRef :=
  (vm.roots.objects ++
    if guard.queue then vm.finalizerQueue.map FinalizerEntry.object else []).filter guard.only

theorem Vm.mem_anchors {guard : Anchoring} {vm : Vm} {r : ObjectRef} :
    r ∈ vm.anchors guard ↔ (r ∈ vm.roots.objects ∨
      (guard.queue = true ∧ ∃ e ∈ vm.finalizerQueue, e.object = r)) ∧ guard.only r = true := by
  unfold Vm.anchors
  rw [List.mem_filter, List.mem_append]
  cases guard.queue <;> simp

/-- Bookkeeping in order and every anchor shielded. -/
structure Vm.Guarded (guard : Anchoring) (hole : List ObjectRef) (vm : Vm) : Prop where
  tidy : vm.TidyWith hole
  shield : ∀ r ∈ vm.anchors guard, vm.Shields r

section Shields

variable {vm vm' : Vm} {r : ObjectRef} {guard : Anchoring} {hole : List ObjectRef}

/-- The objects change, their places and the collector do not. -/
theorem Vm.Shields.of_sameHandles (h : vm.Shields r) (hs : SameHandles vm vm')
    (hgc : vm'.gc = vm.gc) : vm'.Shields r where
  resolves := by
    obtain ⟨o, ho⟩ := h.resolves
    exact hs.checkedSlot ho
  color := by
    unfold Vm.Nonwhite
    rw [hgc]
    exact h.color

theorem Vm.Guarded.of_sameHandles (h : vm.Guarded guard hole) (hs : SameHandles vm vm')
    (hgc : vm'.gc = vm.gc) (hanchors : ∀ r ∈ vm'.anchors guard, r ∈ vm.anchors guard) :
    vm'.Guarded guard hole where
  tidy := hs.tidy hgc h.tidy
  shield := fun r hr => (h.shield r (hanchors r hr)).of_sameHandles hs hgc

/-- Marking keeps every shield. -/
theorem Vm.Shields.of_marked {P : Nat → Prop} (h : vm.Shields r) (hm : Marked P vm vm') :
    vm'.Shields r where
  resolves := by
    obtain ⟨o, ho⟩ := h.resolves
    exact ⟨o, by rw [hm.checkedSlot]; exact ho⟩
  color := by
    rcases h.color with hp | hw | ⟨hp, hmem⟩
    · exact .inl (hm.phase_pause.mpr hp)
    · refine .inr (.inl fun id hid => ?_)
      rw [hm.nonwhite (hw id hid)]
      exact hw id hid
    · refine .inr (.inr ⟨?_, ?_⟩)
      · rcases hm.phase with heq | ⟨hs, -⟩
        · rw [heq]
          exact hp
        · rw [hp] at hs
          exact absurd hs (by simp)
      · obtain ⟨_, _, _, rfl⟩ := hm.gc
        exact hmem

theorem Marked.anchors {P : Nat → Prop} (hm : Marked P vm vm') :
    vm'.anchors guard = vm.anchors guard := by
  obtain ⟨_, _, _, rfl⟩ := hm.gc
  rfl

/-- **Marking keeps bookkeeping and shields**, and it keeps the cycle active. -/
theorem keeps_guarded_mark (object : ObjectRef) :
    Keeps (fun vm => vm.Guarded guard hole ∧ vm.gc.phase ≠ .pause) (gcMarkSlot object) := by
  refine Keeps.of_apply fun vm ⟨h, hp⟩ => ?_
  rcases gcMarkSlot_cases object vm with
    ⟨e, hrun, -⟩ | ⟨id, o, hid, hres, ⟨hrun, -⟩ | ⟨hrun, -, hwhite, -⟩⟩
  · rw [hrun]
    exact ⟨h, hp⟩
  · rw [hrun]
    exact ⟨h, hp⟩
  · obtain ⟨id', hid', hocc, href⟩ := Vm.occupied_of_checkedSlot hres
    obtain rfl : id = id' := by simpa [hid] using hid'
    subst href
    obtain ⟨htidy, hm⟩ := h.tidy.pushGray hocc hp hwhite
    rw [hrun]
    refine ⟨⟨htidy, fun r hr => ?_⟩, fun hp' => hp (hm.phase_pause.mp hp')⟩
    rw [hm.anchors] at hr
    exact (h.shield r hr).of_marked hm

end Shields

/-! ### The atomic phase -/

/-- Marking goes on and the roots are done. -/
structure Vm.MarkingPhase (guard : Anchoring) (hole : List ObjectRef) (vm : Vm) : Prop where
  guarded : vm.Guarded guard hole
  active : vm.gc.phase ≠ .pause
  rooted : vm.gc.phase ≠ .rootMark

section Atomic

variable {guard : Anchoring} {hole : List ObjectRef}

theorem Vm.MarkingPhase.nonwhite {vm : Vm} (h : vm.MarkingPhase guard hole) {r : ObjectRef}
    (hr : r ∈ vm.anchors guard) : vm.Nonwhite r := by
  rcases (h.guarded.shield r hr).color with hp | hw | ⟨hp, -⟩
  · exact absurd hp h.active
  · exact hw
  · exact absurd hp h.rooted

theorem Vm.MarkingPhase.of_sameHandles {vm vm' : Vm} (h : vm.MarkingPhase guard hole)
    (hs : SameHandles vm vm') (hgc : vm'.gc = vm.gc)
    (hanchors : ∀ r ∈ vm'.anchors guard, r ∈ vm.anchors guard) : vm'.MarkingPhase guard hole where
  guarded := h.guarded.of_sameHandles hs hgc hanchors
  active := by rw [hgc]; exact h.active
  rooted := by rw [hgc]; exact h.rooted

theorem keeps_marking_mark (object : ObjectRef) :
    Keeps (Vm.MarkingPhase guard hole) (gcMarkSlot object) := by
  refine Keeps.of_apply fun vm h => ?_
  obtain ⟨hg, hp⟩ := (keeps_guarded_mark object).apply ⟨h.guarded, h.active⟩
  refine ⟨hg, hp, ?_⟩
  rcases gcMarkSlot_cases object vm with ⟨e, hrun, -⟩ | ⟨id, o, -, -, ⟨hrun, -⟩ | ⟨hrun, -⟩⟩
  · rw [hrun]
    exact h.rooted
  · rw [hrun]
    exact h.rooted
  · obtain ⟨phase, hgc, hph⟩ := GcState.pushGray_eq vm.gc id.slot object
    rw [hrun, hgc]
    rcases hph with rfl | ⟨-, rfl⟩
    · exact h.rooted
    · show GcPhase.propagate ≠ GcPhase.rootMark
      simp

/-- Cursors, stage and phase. -/
theorem Vm.MarkingPhase.marks {vm : Vm} (h : vm.MarkingPhase guard hole) {gc : GcState}
    (hgc : GcState.SameMarks vm.gc gc) : Vm.MarkingPhase guard hole { vm with gc := gc } := by
  have hphase : gc.phase ≠ .pause ∧ gc.phase ≠ .rootMark := by
    rcases hgc.phase with heq | heq | heq | heq
    · rw [heq]
      exact ⟨h.active, h.rooted⟩
    all_goals rw [heq]; simp
  refine ⟨⟨?_, fun r hr => ⟨?_, ?_⟩⟩, hphase.1, hphase.2⟩
  · refine h.guarded.tidy.of_gc_same hgc.bits hgc.work hgc.counts ?_ ?_
    · exact ⟨fun hp => absurd hp hphase.1, fun hp => absurd hp h.active⟩
    · rw [hgc.remembered]
      exact h.guarded.tidy.remembered
  · exact (h.guarded.shield r hr).resolves
  · refine .inr (.inl fun id hid => ?_)
    rw [show Vm.gc { vm with gc := gc } = gc from rfl, GcState.color_congr hgc.bits]
    exact h.nonwhite hr id hid

/-- Clearing a weak table changes its payload and the ledger. -/
theorem clearDeadWeakSlot_cases (clearValues clearKeys : Bool) (index : Nat) (vm : Vm) :
    (clearDeadWeakSlot clearValues clearKeys index vm).2 = vm ∨
    ∃ o t r t' l, vm.occupied? index = some o ∧ vm.tableAt index = some t ∧
      t.clearDeadWeakPairs (vm.isDeadChild index o.reference) (vm.isLiveKeyChild index o.reference)
        clearValues clearKeys vm.ledger = (r, t', l) ∧
      clearDeadWeakSlot clearValues clearKeys index vm
        = (r, { vm.setPayload index (.table t') with ledger := l }) := by
  unfold clearDeadWeakSlot
  cases ho : vm.occupied? index with
  | none => exact .inl rfl
  | some o =>
    cases ht : vm.tableAt index with
    | none => exact .inl rfl
    | some t =>
      refine .inr ⟨o, t, _, _, _, rfl, rfl, rfl, ?_⟩
      rfl

theorem keeps_marking_clear (clearValues clearKeys : Bool) (index : Nat) :
    Keeps (Vm.MarkingPhase guard hole) (clearDeadWeakSlot clearValues clearKeys index) := by
  refine Keeps.of_apply fun vm h => ?_
  rcases clearDeadWeakSlot_cases clearValues clearKeys index vm with
    heq | ⟨o, t, r, t', l, ho, -, -, heq⟩
  · rw [heq]
    exact h
  · rw [heq]
    have hframe : ∃ slots, vm.setPayload index (.table t') = { vm with slots := slots } := by
      unfold Vm.setPayload
      rw [ho]
      exact ⟨_, rfl⟩
    have hs := SameHandles.setPayload vm index (.table t')
    obtain ⟨slots, hframe⟩ := hframe
    rw [hframe] at hs ⊢
    exact h.of_sameHandles ⟨hs.id, hs.handles, hs.scanEnd, hs.token⟩ rfl fun r hr => hr

/-- The ways the separation of one object ends: with an error of the mark, with nothing to do,
    or with the object gray and queued. -/
theorem separateDeadFinalizer_cases (index : Nat) (vm : Vm) (hp : vm.gc.phase ≠ .pause)
    (h : vm.TidyWith hole) :
    (separateDeadFinalizer index vm).2 = vm ∨
    ∃ o vm₁, vm.occupied? index = some o ∧ o.finalizer = .registered ∧
      vm.gc.color index = some .white ∧
      Vm.TidyWith hole vm₁ ∧ Marked (· = index) vm vm₁ ∧ vm₁.gc.color index = some .gray ∧
      separateDeadFinalizer index vm = (.ok (),
        { vm₁.setOccupied index { o with finalizer := .pending } with
          finalizerQueue := vm.finalizerQueue ++ [⟨o.reference, o.finalizerOrder⟩] }) := by
  unfold separateDeadFinalizer
  rw [Prog.bind_apply_ok (Prog.get_apply vm)]
  cases ho : vm.occupied? index with
  | none => exact .inl rfl
  | some o =>
    simp only
    by_cases hc : o.finalizer = .registered ∧ vm.gc.color index = some .white
    · rw [if_pos hc]
      obtain ⟨htidy, hm⟩ := h.pushGray ho hp hc.2
      have hrun : gcMarkSlot o.reference vm = (.ok (), { vm with gc := vm.gc.pushGray index o.reference }) := by
        have hroom := h.room hp ho hc.2
        unfold gcMarkSlot
        rw [h.identity ho, h.checkedSlot_reference ho]
        simp only [if_neg hp, hc.2]
        rw [if_neg (by omega)]
      have hbit : vm.gc.occupiedBit index = true := by rw [h.occupied, ho]; rfl
      refine .inr ⟨o, _, rfl, hc.1, hc.2, htidy, hm, ?_, ?_⟩
      · show (vm.gc.pushGray index o.reference).color index = some .gray
        rw [GcState.color_pushGray _ hbit, if_pos rfl]
      · exact (Prog.bind_apply_ok hrun).trans rfl
    · rw [if_neg hc]
      exact .inl rfl

theorem keeps_marking_separate (index : Nat) :
    Keeps (Vm.MarkingPhase guard hole) (separateDeadFinalizer index) := by
  refine Keeps.of_apply fun vm h => ?_
  rcases separateDeadFinalizer_cases index vm h.active h.guarded.tidy with
    heq | ⟨o, vm₁, ho, -, -, htidy, hm, hgray, heq⟩
  · rw [heq]
    exact h
  · rw [heq]
    have ho₁ : vm₁.occupied? index = some o := (hm.occupied? index).trans ho
    have hs : SameHandles vm₁ (vm₁.setOccupied index { o with finalizer := .pending }) :=
      SameHandles.setOccupied ho₁ rfl rfl
    have hs' : SameHandles vm₁ { vm₁.setOccupied index { o with finalizer := .pending } with
        finalizerQueue := vm.finalizerQueue ++ [⟨o.reference, o.finalizerOrder⟩] } :=
      ⟨hs.id, hs.handles, hs.scanEnd, hs.token⟩
    have hroots : vm₁.roots = vm.roots := by
      obtain ⟨_, _, _, rfl⟩ := hm.gc
      rfl
    have hphase : vm₁.gc.phase ≠ .pause ∧ vm₁.gc.phase ≠ .rootMark := by
      rcases hm.phase with hph | ⟨-, hph⟩
      · rw [hph]
        exact ⟨h.active, h.rooted⟩
      · rw [hph]
        simp
    refine ⟨⟨hs'.tidy rfl htidy, fun r hr => ?_⟩, hphase.1, hphase.2⟩
    have hr' : r ∈ vm.anchors guard ∨ r = o.reference := by
      obtain ⟨hr, honly⟩ := Vm.mem_anchors.mp hr
      rcases hr with hr | ⟨hq, e, he, rfl⟩
      · exact .inl (Vm.mem_anchors.mpr ⟨.inl (hroots ▸ hr), honly⟩)
      · rcases List.mem_append.mp he with he | he
        · exact .inl (Vm.mem_anchors.mpr ⟨.inr ⟨hq, e, he, rfl⟩, honly⟩)
        · exact .inr (by rw [List.mem_singleton.mp he])
    rcases hr' with hr' | rfl
    · exact ((h.guarded.shield r hr').of_marked hm).of_sameHandles hs' rfl
    · refine ⟨hs'.checkedSlot (htidy.checkedSlot_reference ho₁), .inr (.inl fun id hid => ?_)⟩
      rw [htidy.identity ho₁, Option.some.injEq] at hid
      subst hid
      show vm₁.gc.color index ≠ some .white
      rw [hgray]
      simp

theorem mem_sortQueue {queue : List FinalizerEntry} {e : FinalizerEntry} :
    e ∈ sortQueue queue ↔ e ∈ queue := by
  unfold sortQueue
  exact List.mem_mergeSort

/-- The owners of the first pass are some of the slots scanned, in order. -/
theorem Vm.scanOldOwners_sublist {vm : Vm} :
    ∀ {slots owners : List Nat}, vm.scanOldOwners slots = .ok (.inl owners) → owners.Sublist slots
  | [], owners, h => by
    unfold Vm.scanOldOwners at h
    simp only [Except.ok.injEq, Sum.inl.injEq] at h
    rw [← h]
  | index :: rest, owners, h => by
    unfold Vm.scanOldOwners at h
    split at h
    · exact absurd h (by simp)
    · split at h
      · exact absurd h (by simp)
      · exact absurd h (by simp)
      · split at h
        · exact absurd h (by simp)
        · exact absurd h (by simp)
        · rename_i owners' hrest
          have ih := scanOldOwners_sublist hrest
          simp only [Except.ok.injEq, Sum.inl.injEq] at h
          rw [← h]
          split
          · exact ih.cons_cons index
          · exact ih.cons index
    · exact (scanOldOwners_sublist h).cons index

/-- Different slots hold different references. -/
theorem Vm.TidyWith.nodup_references {vm : Vm} (h : vm.TidyWith hole) {slots : List Nat}
    (hnodup : slots.Nodup) :
    (slots.filterMap fun index => (vm.occupied? index).map OccupiedSlot.reference).Nodup := by
  refine List.Nodup.filterMap ?_ hnodup
  intro i j r hi hj
  obtain ⟨o, ho, hor⟩ := Option.map_eq_some_iff.mp hi
  obtain ⟨s, hs, hsr⟩ := Option.map_eq_some_iff.mp hj
  exact h.slot_inj ho hs (hor.trans hsr.symm)

/-- A new remembered set. -/
theorem Vm.MarkingPhase.remember {vm : Vm} (h : vm.MarkingPhase guard hole)
    {remembered : List ObjectRef} (hnodup : remembered.Nodup) (cursor : Nat) :
    Vm.MarkingPhase guard hole { vm with
      gc := { vm.gc with remembered := remembered, rememberedCursor := cursor } } :=
  ⟨⟨h.guarded.tidy.of_gc_same rfl rfl ⟨rfl, rfl, rfl, rfl⟩ Iff.rfl hnodup,
    fun r hr => ⟨(h.guarded.shield r hr).resolves, (h.guarded.shield r hr).color⟩⟩,
    h.active, h.rooted⟩

theorem keeps_marking_ledger (vm : Vm) (l : Ledger) (h : vm.MarkingPhase guard hole) :
    Vm.MarkingPhase guard hole { vm with ledger := l } :=
  h.of_sameHandles ⟨rfl, rfl, rfl, rfl⟩ rfl fun _ hr => hr

theorem keeps_marking_rebuild : Keeps (Vm.MarkingPhase guard hole) rebuildRememberedSet := by
  refine Keeps.of_apply fun vm h => ?_
  unfold rebuildRememberedSet
  rw [Prog.bind_apply_ok (Prog.get_apply vm)]
  cases hscan : vm.scanOldOwners (vm.gc.occupiedSlots vm.gcScanEnd) with
  | error e => exact h
  | ok scanned =>
    rw [Prog.bind_apply_ok (show Prog.ofExcept (.ok scanned) vm = (.ok scanned, vm) from rfl)]
    rcases scanned with owners | child
    · have hsub := Vm.scanOldOwners_sublist hscan
      have hnodup := hsub.nodup (GcState.nodup_occupiedSlots vm.gc vm.gcScanEnd)
      cases owners with
      | nil => exact h.remember List.nodup_nil 0
      | cons index owners =>
        refine (Keeps.bind (keeps_liftLedger keeps_marking_ledger _) fun _ =>
          Keeps.bind (Keeps.modify fun vm hvm => ?_) fun _ => Keeps.pure true).apply h
        exact hvm.remember (hvm.guarded.tidy.nodup_references hnodup) 0
    · exact (Keeps.bind (keeps_marking_mark child) fun _ => Keeps.pure false).apply h

/-- Bookkeeping and shields survive the atomic phase. -/
theorem atomicStable_marking : AtomicStable (Vm.MarkingPhase guard hole) where
  mark := keeps_marking_mark
  marks := fun _ _ hgc h => h.marks hgc
  ledger := keeps_marking_ledger
  clear := keeps_marking_clear
  separate := keeps_marking_separate
  sort := fun vm h => h.of_sameHandles ⟨rfl, rfl, rfl, rfl⟩ rfl fun r hr => by
    obtain ⟨hr, honly⟩ := Vm.mem_anchors.mp hr
    refine Vm.mem_anchors.mpr ⟨hr.imp_right fun ⟨hq, e, he, heq⟩ => ⟨hq, e, ?_, heq⟩, honly⟩
    exact mem_sortQueue.mp he
  rebuild := keeps_marking_rebuild

end Atomic

/-! ### Propagation -/

section Propagate

variable {vm : Vm} {guard : Anchoring} {object : ObjectRef}

/-- The object to trace is taken in hand. -/
theorem Vm.TidyWith.takeWork {rest : List ObjectRef} (h : vm.Tidy) (hwork : vm.gc.work = object :: rest)
    (hp : vm.gc.phase ≠ .pause) :
    Vm.TidyWith [object] { vm with gc := { vm.gc with work := rest } } := by
  have hperm : (rest ++ [object]).Perm (vm.gc.work ++ []) := by
    rw [hwork, List.append_nil]
    exact List.perm_append_singleton object rest
  refine h.of_gc rfl (fun _ => rfl) (fun _ => rfl) ⟨rfl, rfl, rfl, rfl⟩ Iff.rfl
    (fun hp' => absurd hp' hp) (fun hp' => absurd hp' hp) ?_ (fun x => ?_) h.remembered
  · exact hperm.nodup_iff.mpr h.nodup
  · rw [show x ∈ rest ++ [object] ↔ _ from hperm.mem_iff]
    exact h.gray x

/-- The object in hand goes back to the work list. -/
theorem Vm.TidyWith.putWork (h : vm.TidyWith [object]) (hp : vm.gc.phase ≠ .pause) :
    Vm.Tidy { vm with gc := { vm.gc with work := object :: vm.gc.work } } := by
  have hperm : (object :: vm.gc.work ++ []).Perm (vm.gc.work ++ [object]) := by
    rw [List.append_nil]
    exact (List.perm_append_singleton object vm.gc.work).symm
  refine h.of_gc rfl (fun _ => rfl) (fun _ => rfl) ⟨rfl, rfl, rfl, rfl⟩ Iff.rfl
    (fun hp' => absurd hp' hp) (fun hp' => absurd hp' hp) ?_ (fun x => ?_) h.remembered
  · exact hperm.nodup_iff.mpr h.nodup
  · rw [show x ∈ object :: vm.gc.work ++ [] ↔ _ from hperm.mem_iff]
    exact h.gray x

/-- The object in hand becomes black. -/
theorem Vm.TidyWith.blacken {i : Nat} {o : OccupiedSlot} (h : vm.TidyWith [o.reference])
    (ho : vm.occupied? i = some o) (hp : vm.gc.phase ≠ .pause) :
    Vm.Tidy { vm with gc := vm.gc.setColor i .black } := by
  have hbit : vm.gc.occupiedBit i = true := by rw [h.occupied, ho]; rfl
  have hcolor := GcState.color_setColor vm.gc i .black hbit
  have hnodup := h.nodup
  have hnot : o.reference ∉ vm.gc.work := by
    rw [List.nodup_append] at hnodup
    exact fun hmem => hnodup.2.2 _ hmem _ (List.mem_singleton_self _) rfl
  refine h.of_gc (by simp [GcState.setColor, GcState.modifyPage])
    (fun j => GcState.occupiedBit_setColor vm.gc i .black j)
    (fun j => GcState.freeBit_setColor vm.gc i .black j) ⟨rfl, rfl, rfl, rfl⟩ Iff.rfl
    (fun hp' => absurd hp' hp) (fun hp' => absurd hp' hp) ?_ (fun x => ?_) h.remembered
  · rw [List.append_nil]
    exact (List.nodup_append.mp hnodup).1
  · rw [List.append_nil]
    have hgray := h.gray x
    simp only [hcolor]
    constructor
    · intro hx
      obtain ⟨j, s, hs, href, hc⟩ := hgray.mp (List.mem_append_left _ hx)
      have hj : j ≠ i := by
        rintro rfl
        rw [ho, Option.some.injEq] at hs
        subst hs
        exact hnot (href ▸ hx)
      exact ⟨j, s, hs, href, by rw [if_neg hj]; exact hc⟩
    · rintro ⟨j, s, hs, href, hc⟩
      by_cases hj : j = i
      · rw [if_pos hj] at hc
        exact absurd hc (by simp)
      · rw [if_neg hj] at hc
        rcases List.mem_append.mp (hgray.mpr ⟨j, s, hs, href, hc⟩) with hx | hx
        · exact hx
        · rw [List.mem_singleton.mp hx] at href
          exact absurd (h.slot_inj hs ho href) hj

/-- The shields read neither the work list nor the colours of others. -/
theorem Vm.Shields.of_gc {r : ObjectRef} (h : vm.Shields r) {gc : GcState}
    (hphase : gc.phase = vm.gc.phase) (hroots : gc.roots = vm.gc.roots ∧ gc.rootCursor = vm.gc.rootCursor)
    (hcolor : ∀ i, vm.gc.color i ≠ some .white → gc.color i ≠ some .white) :
    Vm.Shields { vm with gc := gc } r where
  resolves := h.resolves
  color := by
    show gc.phase = .pause ∨ _ ∨ (gc.phase = .rootMark ∧ r ∈ gc.roots.drop gc.rootCursor)
    rw [hphase, hroots.1, hroots.2]
    exact h.color.imp_right fun hc => hc.imp_left fun hw id hid => hcolor _ (hw id hid)

theorem keeps_sameHandles_mark (x : ObjectRef) : Keeps (SameHandles vm) (gcMarkSlot x) := by
  refine Keeps.of_apply fun vm' h => ?_
  rcases gcMarkSlot_cases x vm' with ⟨e, hrun, -⟩ | ⟨id, o, -, -, ⟨hrun, -⟩ | ⟨hrun, -⟩⟩
  · rw [hrun]
    exact h
  · rw [hrun]
    exact h
  · rw [hrun]
    exact ⟨h.id, h.handles, h.scanEnd, h.token⟩

/-- **A unit of propagation keeps bookkeeping and shields.** -/
theorem propagateStep_guarded (h : vm.MarkingPhase guard []) :
    ((propagateStep vm).2).MarkingPhase guard [] := by
  unfold propagateStep
  rw [Prog.bind_apply_ok (Prog.get_apply vm)]
  cases hwork : vm.gc.work with
  | nil =>
    exact h.marks ⟨rfl, rfl, ⟨rfl, rfl, rfl, rfl⟩, rfl, ⟨rfl, rfl⟩, ⟨rfl, rfl, rfl⟩,
      .inr (.inr (.inl rfl))⟩
  | cons object rest =>
    have hmem : object ∈ vm.gc.work ++ [] := by rw [hwork]; simp
    obtain ⟨i, o, ho, rfl, -⟩ := (h.guarded.tidy.gray object).mp hmem
    have hid := h.guarded.tidy.identity ho
    have htake : Vm.MarkingPhase guard [o.reference]
        { vm with gc := { vm.gc with work := rest } } :=
      ⟨⟨h.guarded.tidy.takeWork hwork h.active, fun r hr =>
        (h.guarded.shield r hr).of_gc rfl ⟨rfl, rfl⟩ fun _ hc => hc⟩, h.active, h.rooted⟩
    have hstart : SameHandles vm { vm with gc := { vm.gc with work := rest } } := ⟨rfl, rfl, rfl, rfl⟩
    -- the trace keeps the object in hand, and its slot
    have htrace : Keeps (fun vm' => Vm.MarkingPhase guard [o.reference] vm' ∧ SameHandles vm vm')
        (traceGcObject o.reference) :=
      (keeps_traceGcObject keeps_marking_mark o.reference).and
        (keeps_traceGcObject keeps_sameHandles_mark o.reference)
    refine Triple.apply (P := fun vm' => vm' = vm) ?_ rfl
    refine Triple.bind (Q := fun _ vm' => Vm.MarkingPhase guard [o.reference] vm' ∧ SameHandles vm vm')
      ?_ fun _ => Triple.bind (Triple.onError htrace fun e => ?_) fun _ => Triple.bind (Q := fun id vm' =>
        (Vm.MarkingPhase guard [o.reference] vm' ∧ SameHandles vm vm') ∧ id.slot = i) ?_ fun id => ?_
    · rintro _ rfl
      exact ⟨htake, hstart⟩
    · rintro vm' ⟨hm, -⟩
      refine ⟨⟨hm.guarded.tidy.putWork hm.active, fun r hr => ?_⟩, hm.active, hm.rooted⟩
      exact (hm.guarded.shield r hr).of_gc rfl ⟨rfl, rfl⟩ fun _ hc => hc
    · rintro vm' hvm'
      rw [hid]
      exact ⟨hvm', rfl⟩
    · rintro vm' ⟨⟨hm, hs⟩, rfl⟩
      obtain ⟨o', ho', -, href⟩ := hs.occupied ho
      have htidy := hm.guarded.tidy
      rw [← href] at htidy
      have hbit : vm'.gc.occupiedBit id.slot = true := by rw [htidy.occupied, ho']; rfl
      refine ⟨⟨htidy.blacken ho' hm.active, fun r hr => ?_⟩, hm.active, hm.rooted⟩
      refine (hm.guarded.shield r hr).of_gc rfl ⟨rfl, rfl⟩ fun j hc => ?_
      rw [GcState.color_setColor vm'.gc id.slot .black hbit]
      by_cases hj : j = id.slot
      · simp [hj]
      · rw [if_neg hj]
        exact hc

end Propagate

/-! ### Roots -/

section RootMark

variable {vm vm' : Vm} {guard : Anchoring} {hole : List ObjectRef} {object : ObjectRef}

/-- A mark that fails changes nothing. -/
theorem gcMarkSlot_error {e : VmError} (hrun : gcMarkSlot object vm = (.error e, vm')) : vm' = vm := by
  rcases gcMarkSlot_cases object vm with ⟨e', hrun', -⟩ | ⟨id, o, -, -, ⟨hrun', -⟩ | ⟨hrun', -⟩⟩
  · rw [hrun'] at hrun
    exact (congrArg Prod.snd hrun).symm
  · rw [hrun'] at hrun
    exact absurd (congrArg Prod.fst hrun) (by simp)
  · rw [hrun'] at hrun
    exact absurd (congrArg Prod.fst hrun) (by simp)

/-- **A mark that succeeds in an active cycle** leaves the object gray or black. -/
theorem Vm.TidyWith.of_mark (h : vm.TidyWith hole) (hp : vm.gc.phase ≠ .pause)
    (hrun : gcMarkSlot object vm = (.ok (), vm')) :
    vm'.TidyWith hole ∧ ∃ id o, object.identity = some id ∧ vm.checkedSlot object = .ok o ∧
      Marked (· = id.slot) vm vm' ∧ vm'.gc.color id.slot ≠ some .white := by
  rcases gcMarkSlot_cases object vm with
    ⟨e, hrun', -⟩ | ⟨id, o, hid, hres, ⟨hrun', hdone⟩ | ⟨hrun', -, hwhite, -⟩⟩
  · rw [hrun'] at hrun
    exact absurd (congrArg Prod.fst hrun) (by simp)
  · rw [hrun'] at hrun
    obtain rfl : vm = vm' := congrArg Prod.snd hrun
    refine ⟨h, id, o, hid, hres, Marked.refl _ vm, ?_⟩
    rcases hdone with hpause | hc | hc
    · exact absurd hpause hp
    · simp [hc]
    · simp [hc]
  · rw [hrun'] at hrun
    obtain rfl : { vm with gc := vm.gc.pushGray id.slot object } = vm' := congrArg Prod.snd hrun
    obtain ⟨id', hid', hocc, href⟩ := Vm.occupied_of_checkedSlot hres
    obtain rfl : id = id' := by simpa [hid] using hid'
    subst href
    obtain ⟨htidy, hm⟩ := h.pushGray hocc hp hwhite
    have hbit : vm.gc.occupiedBit id.slot = true := by rw [h.occupied, hocc]; rfl
    refine ⟨htidy, id, o, hid, hres, hm, ?_⟩
    show (vm.gc.pushGray id.slot o.reference).color id.slot ≠ some .white
    rw [GcState.color_pushGray _ hbit, if_pos rfl]
    simp

/-- **A unit of the root phase keeps bookkeeping and shields.** -/
theorem rootMarkStep_guarded (h : vm.Guarded guard []) (hp : vm.gc.phase = .rootMark) :
    ((rootMarkStep vm).2).Guarded guard [] ∧ (rootMarkStep vm).2.gc.phase ≠ .pause := by
  have hactive : vm.gc.phase ≠ .pause := by rw [hp]; simp
  unfold rootMarkStep
  rw [Prog.bind_apply_ok (Prog.get_apply vm)]
  cases hroot : vm.gc.roots[vm.gc.rootCursor]? with
  | some root =>
    simp only
    rcases hrun : gcMarkSlot root vm with ⟨r, vm'⟩
    cases r with
    | error e =>
      obtain rfl := gcMarkSlot_error hrun
      rw [Prog.bind_apply_error hrun]
      exact ⟨h, hactive⟩
    | ok u =>
      rw [Prog.bind_apply_ok hrun]
      obtain ⟨htidy, id, o, hid, -, hm, hnonwhite⟩ := h.tidy.of_mark hactive hrun
      have hactive' : vm'.gc.phase ≠ .pause := fun hp' => hactive (hm.phase_pause.mp hp')
      have hgc : vm'.gc.roots = vm.gc.roots ∧ vm'.gc.rootCursor = vm.gc.rootCursor := by
        obtain ⟨_, _, _, rfl⟩ := hm.gc
        exact ⟨rfl, rfl⟩
      refine ⟨⟨htidy.of_gc_same rfl rfl ⟨rfl, rfl, rfl, rfl⟩ Iff.rfl htidy.remembered,
        fun r hr => ?_⟩, hactive'⟩
      have hr' : r ∈ vm.anchors guard := by
        rw [← hm.anchors]
        exact hr
      obtain ⟨hres, hcolor⟩ := (h.shield r hr').of_marked hm
      refine ⟨hres, ?_⟩
      rcases hcolor with hc | hc | ⟨hph, hmem⟩
      · exact .inl hc
      · exact .inr (.inl hc)
      · -- the cursor passes the root just marked
        have hdrop : vm'.gc.roots.drop vm'.gc.rootCursor
            = root :: vm'.gc.roots.drop (vm'.gc.rootCursor + 1) := by
          rw [hgc.1, hgc.2]
          exact List.drop_eq_getElem?_toList_append.trans (by rw [hroot]; rfl)
        rw [hdrop] at hmem
        rcases List.mem_cons.mp hmem with rfl | hmem
        · refine .inr (.inl fun id' hid' => ?_)
          obtain rfl : id = id' := by simpa [hid] using hid'
          exact hnonwhite
        · exact .inr (.inr ⟨hph, hmem⟩)
  | none =>
    simp only
    cases hremembered : (if vm.gc.cycle = .minor then vm.gc.remembered[vm.gc.rememberedCursor]?
        else none) with
    | some owner =>
      refine (Keeps.bind (keeps_traceGcObject keeps_guarded_mark owner) fun _ =>
        Keeps.modify fun vm' hvm' => ?_).apply ⟨h, hactive⟩
      exact ⟨⟨hvm'.1.tidy.of_gc_same rfl rfl ⟨rfl, rfl, rfl, rfl⟩ Iff.rfl hvm'.1.tidy.remembered,
        fun r hr => (hvm'.1.shield r hr).of_gc rfl ⟨rfl, rfl⟩ fun _ hc => hc⟩, hvm'.2⟩
    | none =>
      have hnil : vm.gc.roots.drop vm.gc.rootCursor = [] :=
        List.drop_eq_nil_of_le (List.getElem?_eq_none_iff.mp hroot)
      refine ⟨⟨h.tidy.of_gc_same rfl rfl ⟨rfl, rfl, rfl, rfl⟩ ?_ h.tidy.remembered,
        fun r hr => ⟨(h.shield r hr).resolves, ?_⟩⟩,
        fun hp' => absurd (show GcPhase.propagate = .pause from hp') (by simp)⟩
      · simp [GcState.transition, hactive]
      · rcases (h.shield r hr).color with hc | hc | ⟨-, hmem⟩
        · exact absurd hc hactive
        · exact .inr (.inl hc)
        · rw [hnil] at hmem
          exact absurd hmem (by simp)

end RootMark

/-! ### Sweeping -/

section Sweep

variable {vm vm' : Vm} {guard : Anchoring} {hole : List ObjectRef}

/-- A cycle ends: every slot is white again. -/
theorem Vm.TidyWith.clearCycle (h : vm.TidyWith hole) :
    Vm.Tidy { vm with gc := vm.gc.clearCycle } := by
  have hcolor : ∀ i, vm.gc.clearCycle.color i = if vm.gc.occupiedBit i then some .white else none :=
    GcState.color_clearColors vm.gc
  exact {
    pages := by
      rw [← h.pages]
      simp [GcState.clearCycle, GcState.clearColors]
    occupied := fun i => (GcState.occupiedBit_clearColors vm.gc i).trans (h.occupied i)
    free := fun i => by
      rw [show vm.gc.clearCycle.freeBit i = vm.gc.freeBit i from GcState.freeBit_clearColors vm.gc i]
      exact h.free i
    scanEnd := h.scanEnd
    behind := h.behind
    count := h.count
    reference := h.reference
    pause := fun _ => ⟨rfl, fun i => by
      rw [hcolor]
      split <;> simp⟩
    nodup := List.nodup_nil
    gray := by
      intro x
      constructor
      · intro hx
        exact absurd hx (by simp [GcState.clearCycle])
      · rintro ⟨i, s, -, -, hc⟩
        rw [hcolor] at hc
        split at hc <;> simp at hc
    idle := fun _ => rfl
    capacity := fun hp => absurd rfl hp
    growth := ⟨le_rfl, Nat.zero_le _⟩
    remembered := h.remembered }

theorem RootSet.objects_compact (r : RootSet) : r.compact.objects = r.objects := by
  simp [RootSet.compact, RootSet.objects, List.filter_filter]

/-- Freeing the slot of a white object keeps every shield. -/
theorem Vm.Shields.of_frees {r : ObjectRef} {index : Nat} {reference : ObjectRef} {left : Option Slot}
    (h : vm.Shields r) (hfrees : vm.Frees index reference left vm')
    (hne : ∀ id, r.identity = some id → id.slot ≠ index) (href : r ≠ reference) :
    vm'.Shields r where
  resolves := by
    obtain ⟨o, ho⟩ := h.resolves
    exact ⟨o, hfrees.checkedSlot.mpr ⟨ho, hne⟩⟩
  color := by
    rw [hfrees.cycle.1]
    refine h.color.imp_right fun hc => ?_
    rcases hc with hw | ⟨hp, hmem⟩
    · refine .inl fun id hid => ?_
      rw [hfrees.color, if_neg (hne id hid)]
      exact hw id hid
    · exact .inr ⟨hp, hfrees.snapshot r hmem href⟩

theorem Vm.Frees.anchors {index : Nat} {reference : ObjectRef} {left : Option Slot}
    (hfrees : vm.Frees index reference left vm') : vm'.anchors guard = vm.anchors guard := by
  obtain ⟨_, _, _, _, rfl⟩ := hfrees.frame
  rfl

/-- Freeing an object that is not an anchor keeps bookkeeping and shields. -/
theorem Vm.Guarded.of_frees {object : ObjectRef} {id : ObjectId} {o : OccupiedSlot}
    {left : Option Slot} (h : vm.Guarded guard []) (hid : object.identity = some id)
    (hres : vm.checkedSlot object = .ok o) (hfrees : vm.Frees id.slot object left vm')
    (htidy : vm'.Tidy) (hne : object ∉ vm.anchors guard) : vm'.Guarded guard [] := by
  refine ⟨htidy, fun r hr => ?_⟩
  rw [hfrees.anchors] at hr
  have hshield := h.shield r hr
  have href : r ≠ object := by
    rintro rfl
    exact hne hr
  refine hshield.of_frees hfrees (fun id' hid' heq => ?_) href
  -- two references that resolve in one slot are equal
  obtain ⟨o', hres'⟩ := hshield.resolves
  obtain ⟨id₁, hid₁, hocc, hro⟩ := Vm.occupied_of_checkedSlot hres
  obtain ⟨id₂, hid₂, hocc', hro'⟩ := Vm.occupied_of_checkedSlot hres'
  obtain rfl : id = id₁ := by simpa [hid] using hid₁
  obtain rfl : id' = id₂ := by simpa [hid'] using hid₂
  rw [heq, hocc, Option.some.injEq] at hocc'
  exact href (by rw [← hro', ← hro, hocc'])

/-- **Reclaiming an object that is not an anchor** keeps bookkeeping and shields. -/
theorem reclaim_guarded (h : vm.Guarded guard []) {object : ObjectRef}
    (hne : object ∉ vm.anchors guard) : ((reclaim object vm).2).Guarded guard [] := by
  rcases reclaim_spec h.tidy object with
    ⟨e, l, hrun⟩ | ⟨id, o, vm', hid, hres, hrun, htidy, hfrees⟩
  · rw [hrun]
    exact h.of_sameHandles ⟨rfl, rfl, rfl, rfl⟩ rfl fun _ hr => hr
  · rw [hrun]
    exact h.of_frees hid hres hfrees htidy hne

/-- Ages are no part of bookkeeping and shields. -/
theorem keeps_guarded_promote : Keeps (Vm.Guarded guard hole) promoteGcSurvivors := by
  refine Keeps.bind Keeps.get fun vm => Keeps.ite ?_ (Keeps.pure ())
  refine keeps_forOccupied fun index => Keeps.of_apply fun vm hvm => ?_
  rw [Prog.bind_apply_ok (Prog.get_apply vm)]
  cases ho : vm.occupied? index with
  | none => exact hvm
  | some o =>
    simp only
    split
    · exact hvm.of_sameHandles (SameHandles.setOccupied ho rfl rfl) rfl fun _ hr => hr
    · exact hvm

/-- A cursor of the sweep or a counter. -/
theorem Vm.Guarded.of_gc_same (h : vm.Guarded guard hole) {gc : GcState}
    (hbits : gc.slotBits = vm.gc.slotBits) (hwork : gc.work = vm.gc.work)
    (hcounts : gc.occupiedCount = vm.gc.occupiedCount ∧ gc.workCapacity = vm.gc.workCapacity ∧
      gc.growthCharges = vm.gc.growthCharges ∧ gc.charge = vm.gc.charge)
    (hphase : gc.phase = vm.gc.phase) (hremembered : gc.remembered.Nodup)
    (hroots : gc.roots = vm.gc.roots ∧ gc.rootCursor = vm.gc.rootCursor) :
    Vm.Guarded guard hole { vm with gc := gc } where
  tidy := h.tidy.of_gc_same hbits hwork hcounts (by rw [hphase]) hremembered
  shield := fun r hr => (h.shield r hr).of_gc hphase hroots fun i hc => by
    rw [GcState.color_congr hbits]
    exact hc

/-- **A unit of the sweep keeps bookkeeping and shields**, also when the cycle ends. -/
theorem sweepStep_guarded (h : vm.Guarded guard []) (hp : vm.gc.phase = .sweep) :
    ((sweepStep vm).2).Guarded guard [] := by
  have hm : vm.MarkingPhase guard [] := ⟨h, by rw [hp]; simp, by rw [hp]; simp⟩
  unfold sweepStep
  rw [Prog.bind_apply_ok (Prog.get_apply vm)]
  by_cases hwork : vm.gc.work ≠ []
  · rw [if_pos hwork]
    have hback : Vm.MarkingPhase guard [] { vm with gc := vm.gc.transition .propagate } :=
      hm.marks ⟨rfl, rfl, ⟨rfl, rfl, rfl, rfl⟩, rfl, ⟨rfl, rfl⟩, ⟨rfl, rfl, rfl⟩, .inr (.inl rfl)⟩
    exact hback.guarded
  · rw [if_neg hwork]
    cases hnext : vm.gc.nextOccupied vm.gc.sweepCursor vm.gcScanEnd with
    | none =>
      refine (Keeps.bind (Keeps.modify fun vm' hvm' => ?_) fun _ =>
        Keeps.bind keeps_guarded_promote fun _ => Keeps.modify fun vm' hvm' => ?_).apply h
      · refine hvm'.of_sameHandles ⟨rfl, rfl, rfl, rfl⟩ rfl fun r hr => ?_
        simpa [Vm.anchors, RootSet.objects_compact] using hr
      · exact ⟨hvm'.tidy.clearCycle, fun r hr => ⟨(hvm'.shield r hr).resolves, .inl rfl⟩⟩
    | some index =>
      simp only
      have hcursor : Vm.Guarded guard [] { vm with gc := { vm.gc with sweepCursor := index + 1 } } :=
        h.of_gc_same rfl rfl ⟨rfl, rfl, rfl, rfl⟩ rfl h.tidy.remembered ⟨rfl, rfl⟩
      cases ho : vm.occupied? index with
      | none => exact hcursor
      | some o =>
        obtain ⟨c, hc⟩ := h.tidy.color_of_occupied ho
        simp only [hc]
        have hnot : c = .white → o.reference ∉ vm.anchors guard := by
          rintro rfl hmem
          exact hm.nonwhite hmem _ (h.tidy.identity ho) hc
        refine Triple.apply (P := fun vm' => vm' = vm) ?_ rfl
        refine Triple.bind (Q := fun _ vm' => vm' = { vm with
          gc := { vm.gc with sweepCursor := index + 1 } }) (by rintro _ rfl; rfl) fun _ => ?_
        refine Triple.bind (Q := fun color vm' => color = c ∧ vm' = { vm with
          gc := { vm.gc with sweepCursor := index + 1 } }) (fun _ hvm' => ⟨rfl, hvm'⟩) fun color => ?_
        refine Triple.of_pure fun hcolor => ?_
        subst hcolor
        refine Triple.ite (fun hwhite => Triple.ite (fun _ => ?_) fun _ => ?_) fun _ => ?_
        · refine Triple.bind (Q := fun _ vm' => vm'.Guarded guard []) ?_ fun _ => ?_
          · rintro _ rfl
            have hdone := reclaim_guarded hcursor (hnot hwhite)
            rcases hrun : reclaim o.reference
              { vm with gc := { vm.gc with sweepCursor := index + 1 } } with ⟨r, vm'⟩
            rw [hrun] at hdone
            cases r <;> exact hdone
          · exact fun vm' hvm' => hvm'.of_gc_same rfl rfl ⟨rfl, rfl, rfl, rfl⟩ rfl
              hvm'.tidy.remembered ⟨rfl, rfl⟩
        · rintro _ rfl
          exact hcursor
        · rintro _ rfl
          exact hcursor

end Sweep

/-! ### The start of a cycle -/

section Begin

variable {vm : Vm} {guard : Anchoring}

/-- Recolouring occupied slots black changes the colours of these slots only. -/
theorem Vm.blacken_spec (vm : Vm) : ∀ (slots : List Nat) (gc : GcState),
    (∀ i ∈ slots, gc.occupiedBit i = true) →
    ∃ bits, slots.foldl
        (fun gc index => if vm.isOldAt index then gc.setColor index .black else gc) gc
        = { gc with slotBits := bits } ∧ bits.length = gc.slotBits.length ∧
      (∀ i, GcState.occupiedBit { gc with slotBits := bits } i = gc.occupiedBit i) ∧
      (∀ i, GcState.freeBit { gc with slotBits := bits } i = gc.freeBit i) ∧
      ∀ i, GcState.color { gc with slotBits := bits } i =
        if i ∈ slots ∧ vm.isOldAt i = true then some .black else gc.color i
  | [], gc, _ => ⟨gc.slotBits, rfl, rfl, fun _ => rfl, fun _ => rfl, fun i => by simp⟩
  | index :: rest, gc, hocc => by
    rw [List.foldl_cons]
    by_cases hold : vm.isOldAt index = true
    · rw [if_pos hold]
      have hbit := hocc index List.mem_cons_self
      obtain ⟨bits, heq, hlen, hob, hfb, hcolor⟩ := vm.blacken_spec rest (gc.setColor index .black)
        fun i hi => by
          rw [GcState.occupiedBit_setColor]
          exact hocc i (List.mem_cons_of_mem _ hi)
      refine ⟨bits, heq, ?_, fun i => ?_, fun i => ?_, fun i => ?_⟩
      · rw [hlen]
        simp [GcState.setColor, GcState.modifyPage]
      · exact (hob i).trans (GcState.occupiedBit_setColor gc index .black i)
      · exact (hfb i).trans (GcState.freeBit_setColor gc index .black i)
      · refine (hcolor i).trans ?_
        rw [GcState.color_setColor gc index .black hbit]
        by_cases hi : i = index
        · subst hi
          simp [hold]
        · simp [hi]
    · rw [if_neg hold]
      obtain ⟨bits, heq, hlen, hob, hfb, hcolor⟩ := vm.blacken_spec rest gc
        fun i hi => hocc i (List.mem_cons_of_mem _ hi)
      refine ⟨bits, heq, hlen, hob, hfb, fun i => (hcolor i).trans ?_⟩
      by_cases hi : i = index
      · subst hi
        simp [hold]
      · simp [hi]

/-- The colours at the start of a cycle: white, and black for the old objects of a minor one. -/
theorem Vm.TidyWith.cycleStart_bits {hole : List ObjectRef} (h : vm.TidyWith hole)
    (kind : GcCycleKind) (live : Nat) (roots : List ObjectRef) :
    (vm.cycleStart kind live roots).slotBits.length = vm.gc.slotBits.length ∧
      (∀ i, (vm.cycleStart kind live roots).occupiedBit i = vm.gc.occupiedBit i) ∧
      (∀ i, (vm.cycleStart kind live roots).freeBit i = vm.gc.freeBit i) ∧
      ∀ i, (vm.cycleStart kind live roots).color i =
        if vm.gc.occupiedBit i then
          if kind = .minor ∧ vm.isOldAt i = true then some .black else some .white
        else none := by
  have hclear : vm.gc.clearColors.slotBits.length = vm.gc.slotBits.length := by
    simp [GcState.clearColors]
  have hcolor := GcState.color_clearColors vm.gc
  by_cases hk : kind = .minor
  · obtain ⟨bits, heq, hlen, hob, hfb, hblack⟩ := vm.blacken_spec
      (vm.gc.clearColors.occupiedSlots vm.gcScanEnd) vm.gc.clearColors
      fun i hi => (GcState.mem_occupiedSlots.mp hi).2
    have hbits : (vm.cycleStart kind live roots).slotBits = bits := by
      unfold Vm.cycleStart Vm.blackenOld
      simp only [if_pos hk, heq]
    refine ⟨by rw [hbits, hlen, hclear], fun i => ?_, fun i => ?_, fun i => ?_⟩
    · rw [← GcState.occupiedBit_clearColors vm.gc i, ← hob i]
      exact GcState.bitAt_congr hbits _ i
    · rw [← GcState.freeBit_clearColors vm.gc i, ← hfb i]
      exact GcState.bitAt_congr hbits _ i
    · refine (@GcState.color_congr { vm.gc.clearColors with slotBits := bits } _ hbits i).trans
        ((hblack i).trans ?_)
      simp only [GcState.mem_occupiedSlots, GcState.occupiedBit_clearColors, hcolor]
      by_cases hocc : vm.gc.occupiedBit i = true
      · have hlt : i < vm.gcScanEnd := by
          rw [h.occupied] at hocc
          obtain ⟨o, ho⟩ := Option.isSome_iff_exists.mp hocc
          exact h.lt_scanEnd ho
        simp [hocc, hlt, hk]
      · simp [hocc]
  · have hbits : (vm.cycleStart kind live roots).slotBits = vm.gc.clearColors.slotBits := by
      unfold Vm.cycleStart
      simp only [if_neg hk]
    refine ⟨by rw [hbits, hclear], fun i => ?_, fun i => ?_, fun i => ?_⟩
    · rw [← GcState.occupiedBit_clearColors vm.gc i]
      exact GcState.bitAt_congr hbits _ i
    · rw [← GcState.freeBit_clearColors vm.gc i]
      exact GcState.bitAt_congr hbits _ i
    · rw [GcState.color_congr hbits, hcolor]
      simp [hk]

/-- What the start of a cycle leaves of the collector state. -/
theorem Vm.cycleStart_fields (vm : Vm) (kind : GcCycleKind) (live : Nat) (roots : List ObjectRef) :
    (vm.cycleStart kind live roots).occupiedCount = vm.gc.occupiedCount ∧
      (vm.cycleStart kind live roots).growthCharges = vm.gc.growthCharges ∧
      (vm.cycleStart kind live roots).remembered = vm.gc.remembered ∧
      (vm.cycleStart kind live roots).mode = vm.gc.mode := by
  have hfold : ∀ {β : Type} (f : GcState → β), (∀ gc bits, f { gc with slotBits := bits } = f gc) →
      ∀ (slots : List Nat) (gc : GcState), f (slots.foldl
        (fun gc index => if vm.isOldAt index then gc.setColor index .black else gc) gc) = f gc := by
    intro β f hf slots
    induction slots with
    | nil => exact fun _ => rfl
    | cons index rest ih =>
      intro gc
      rw [List.foldl_cons, ih]
      split
      · exact hf gc _
      · rfl
  unfold Vm.cycleStart Vm.blackenOld
  by_cases hk : kind = .minor
  · simp only [if_pos hk]
    exact ⟨hfold GcState.occupiedCount (fun _ _ => rfl) _ _,
      hfold GcState.growthCharges (fun _ _ => rfl) _ _,
      hfold GcState.remembered (fun _ _ => rfl) _ _, hfold GcState.mode (fun _ _ => rfl) _ _⟩
  · simp only [if_neg hk]
    exact ⟨rfl, rfl, rfl, rfl⟩

/-- **The start of a cycle keeps the bookkeeping.** -/
theorem Vm.TidyWith.cycleStart (h : vm.Tidy) (hp : vm.gc.phase = .pause) (kind : GcCycleKind)
    {live : Nat} (hlive : vm.gc.occupiedCount ≤ live) (roots : List ObjectRef) :
    Vm.Tidy { vm with gc := vm.cycleStart kind live roots } := by
  obtain ⟨hlen, hocc, hfree, hcolor⟩ := h.cycleStart_bits kind live roots
  obtain ⟨hcount, hgrowth, hrem, -⟩ := vm.cycleStart_fields kind live roots
  exact {
    pages := hlen.trans h.pages
    occupied := fun i => (hocc i).trans (h.occupied i)
    free := fun i => by
      rw [hfree]
      exact h.free i
    scanEnd := h.scanEnd
    behind := h.behind
    count := hcount.trans h.count
    reference := h.reference
    pause := fun hp' => absurd (show GcPhase.rootMark = .pause from hp') (by simp)
    nodup := List.nodup_nil
    gray := by
      intro x
      constructor
      · intro hx
        exact absurd (show x ∈ ([] : List ObjectRef) from hx) (by simp)
      · rintro ⟨i, s, -, -, hc⟩
        rw [hcolor] at hc
        split at hc
        · split at hc <;> simp at hc
        · simp at hc
    idle := fun _ => rfl
    capacity := fun _ => by
      rw [hcount]
      exact hlive
    growth := by
      rw [hgrowth, (h.pause hp).1]
      exact ⟨Nat.zero_le _, by simp⟩
    remembered := by
      rw [hrem]
      exact h.remembered }

/-- The weak modes are copied into the tables; nothing else changes. -/
theorem keeps_snapshotWeakModes {I : Vm → Prop}
    (h : ∀ vm index payload, I vm → I (vm.setPayload index payload)) : Keeps I snapshotWeakModes := by
  refine keeps_forOccupied fun index => Keeps.bind Keeps.get fun vm => ?_
  cases vm.tableAt index with
  | none => exact Keeps.pure ()
  | some t =>
    exact Keeps.bind (Keeps.ofExcept _) fun _ => Keeps.modify fun vm' hvm' => h vm' _ _ hvm'

theorem Vm.setPayload_frame (vm : Vm) (index : Nat) (payload : HeapPayload) :
    ∃ slots, vm.setPayload index payload = { vm with slots := slots } := by
  unfold Vm.setPayload
  cases vm.occupied? index with
  | none => exact ⟨vm.slots, rfl⟩
  | some o => exact ⟨_, rfl⟩

/-- **The start of a cycle keeps bookkeeping and shields.**  Every anchor is in the snapshot of
    the roots. -/
theorem beginGcCycleKind_guarded (kind : GcCycleKind) (h : vm.Guarded guard []) :
    ((beginGcCycleKind kind vm).2).Guarded guard [] := by
  unfold beginGcCycleKind
  rw [Prog.bind_apply_ok (Prog.get_apply vm)]
  by_cases hp : vm.gc.phase ≠ .pause
  · rw [if_pos hp]
    exact h
  · rw [if_neg hp]
    -- until the colours are reset only the ledger and weak modes change
    have hledger : ∀ (vm' : Vm) l, (vm'.Guarded guard [] ∧ vm'.gc = vm.gc ∧ vm'.roots = vm.roots ∧
        vm'.finalizerQueue = vm.finalizerQueue) →
        (Vm.Guarded guard [] { vm' with ledger := l } ∧ vm'.gc = vm.gc ∧ vm'.roots = vm.roots ∧
          vm'.finalizerQueue = vm.finalizerQueue) := fun vm' l hvm' =>
      ⟨hvm'.1.of_sameHandles ⟨rfl, rfl, rfl, rfl⟩ rfl fun _ hr => hr, hvm'.2⟩
    refine Triple.apply (I := Vm.Guarded guard []) (P := fun vm' : Vm => vm'.Guarded guard [] ∧
      vm'.gc = vm.gc ∧ vm'.roots = vm.roots ∧ vm'.finalizerQueue = vm.finalizerQueue) ?_
      ⟨h, rfl, rfl, rfl⟩
    have hkeep : ∀ {α : Type} {m : VmM α}, Keeps (fun vm' : Vm => vm'.Guarded guard [] ∧
        vm'.gc = vm.gc ∧ vm'.roots = vm.roots ∧ vm'.finalizerQueue = vm.finalizerQueue) m →
        Triple (fun vm' : Vm => vm'.Guarded guard [] ∧
          vm'.gc = vm.gc ∧ vm'.roots = vm.roots ∧ vm'.finalizerQueue = vm.finalizerQueue) m
          (fun _ vm' => vm'.Guarded guard [] ∧ vm'.gc = vm.gc ∧ vm'.roots = vm.roots ∧
            vm'.finalizerQueue = vm.finalizerQueue) (fun _ vm' => vm'.Guarded guard []) := fun hm =>
      hm.conseq (fun _ hs => hs) (fun _ _ hs => hs) fun _ _ hs => hs.1
    refine Triple.bind (hkeep (keeps_liftLedger hledger _)) fun _ =>
      Triple.bind (hkeep (keeps_liftLedger hledger _)) fun _ =>
        Triple.bind (hkeep (Keeps.ofExcept _)) fun _ =>
          Triple.bind (hkeep (keeps_snapshotWeakModes fun vm' index payload hvm' => ?_)) fun _ =>
            Triple.ite (fun _ => ?_) fun _ => ?_
    · obtain ⟨slots, heq⟩ := vm'.setPayload_frame index payload
      have hs := SameHandles.setPayload vm' index payload
      rw [heq] at hs ⊢
      exact ⟨hvm'.1.of_sameHandles hs rfl fun _ hr => hr, hvm'.2⟩
    · rintro vm' ⟨hg, hgc, hroots, hqueue⟩
      have hpause : vm'.gc.phase = .pause := by
        rw [hgc]
        exact not_not.mp hp
      refine ⟨hg.tidy.cycleStart hpause kind (by rw [hgc]) _, fun r hr => ?_⟩
      refine ⟨(hg.shield r hr).resolves, .inr (.inr ⟨rfl, ?_⟩)⟩
      show r ∈ vm.cycleRoots.drop 0
      obtain ⟨hr', -⟩ := Vm.mem_anchors.mp (show r ∈ vm'.anchors guard from hr)
      unfold Vm.cycleRoots
      rw [hroots, hqueue] at hr'
      rw [List.drop_zero]
      rcases hr' with hr' | ⟨-, e, he, rfl⟩
      · exact List.mem_append_left _ hr'
      · exact List.mem_append_right _ (List.mem_map_of_mem he)
    · exact fun vm' hvm' => hvm'.1

/-- **One unit of collector work keeps bookkeeping and shields**, whichever way it ends. -/
theorem keeps_guarded_gcStep : Keeps (Vm.Guarded guard []) gcStep := by
  refine Keeps.of_apply fun vm h => ?_
  unfold gcStep
  rw [Prog.bind_apply_ok (Prog.get_apply vm)]
  cases hp : vm.gc.phase with
  | pause =>
    show ((beginGcCycle vm).2).Guarded guard []
    unfold beginGcCycle
    rw [Prog.bind_apply_ok (Prog.get_apply vm), Prog.bind_apply_ok (Prog.modify_apply _ vm)]
    exact beginGcCycleKind_guarded _
      (h.of_gc_same rfl rfl ⟨rfl, rfl, rfl, rfl⟩ rfl h.tidy.remembered ⟨rfl, rfl⟩)
  | rootMark => exact (rootMarkStep_guarded h hp).1
  | propagate =>
    exact (propagateStep_guarded ⟨h, by rw [hp]; simp, by rw [hp]; simp⟩).guarded
  | atomic =>
    exact (atomicStable_marking.stepGcAtomic.apply ⟨h, by rw [hp]; simp, by rw [hp]; simp⟩).guarded
  | sweep => exact sweepStep_guarded h hp

end Begin

end RivetLua.Runtime
