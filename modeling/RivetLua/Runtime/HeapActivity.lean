import Mathlib.Logic.Relation
import RivetLua.Runtime.MutatorBookkeeping

namespace RivetLua.Runtime

open RivetLua.Core RivetLua.Gc StateProg Relation

/-!
# Runtime — what may happen while an object is rooted

A collection inside an allocation may run finalizers, and a finalizer may do anything to the heap,
a nested allocation and a nested collection included.

* `HeapStep` — one operation, with another root than the one that is followed;
* `Sheltered` — the bookkeeping is in order, and a root without lease shields its object;
* `Sheltered.run` — whatever happens, the root is kept, and its object stays in its slot.
-/

/-- One operation on the heap.  Root identities are not shared, so the root `kept` is not removed,
    and an object that is created and taken back is not the one it keeps. -/
inductive HeapStep [DefaultHasher] (kept : RootEntry) (vm : Vm) : Vm → Prop
  | collect : HeapStep kept vm (gcStep vm).2
  | setGcMode (mode : GcMode) : HeapStep kept vm (setGcMode mode vm).2
  | ledger (l : Ledger) : HeapStep kept vm { vm with ledger := l }
  | publish (payload : HeapPayload) : HeapStep kept vm (publishObject payload vm).2
  | refuse {payload : HeapPayload} {new : NewObject} {vm' : Vm}
      (h : publishObject payload vm = (.ok new, vm')) : HeapStep kept vm (rollbackNewObject new vm').2
  | uncreate (object : ObjectRef) (previousSlots : Nat) (expectedKind : ObjectKind)
      (hne : object ≠ kept.object)
      (hnew : ∀ id, object.identity = some id → id.slot = previousSlots → id.generation = ⟨0⟩) :
      HeapStep kept vm (rollbackUnpublishedCreatedObject object previousSlots expectedKind vm).2
  | addChild (parent child : ObjectRef) : HeapStep kept vm (addChild parent child vm).2
  | setUservalue (object : ObjectRef) (index : Nat) (value : Value) :
      HeapStep kept vm (setUservalue object index value vm).2
  | withNodeMut (owner : ObjectRef) (newRefs : List ObjectRef) (keep : ObjectRef → Bool) :
      HeapStep kept vm (withNodeMut owner newRefs keep vm).2
  | rawSet (table : ObjectRef) (key value : Value) : HeapStep kept vm (Vm.rawSet table key value vm).2
  | setMetatable (object : ObjectRef) (metatable : Option ObjectRef) :
      HeapStep kept vm (setMetatable object metatable vm).2
  | addRoot (kind : RootKind) (object : ObjectRef) (lease : Option Bool) :
      HeapStep kept vm (addRootEntry kind object lease vm).2
  | removeRoot (id : RootId) (hne : id ≠ kept.id) : HeapStep kept vm (removeRoot id vm).2
  | deactivateLease (id : RootId) : HeapStep kept vm (deactivateLease id vm).2
  | startFinalizer (object : ObjectRef) : HeapStep kept vm (startFinalizer object vm).2
  | pauseFinalizerStart (object : ObjectRef) : HeapStep kept vm (pauseFinalizerStart object vm).2
  | finishFinalizer (object : ObjectRef) : HeapStep kept vm (finishFinalizer object vm).2

/-! ### The root -/

section Rooted

variable {kept : RootEntry}

/-- The root is in the table. -/
def Rooted (kept : RootEntry) (vm : Vm) : Prop := kept ∈ vm.roots.entries

theorem Rooted.setPayload {vm : Vm} (h : Rooted kept vm) (index : Nat) (payload : HeapPayload) :
    Rooted kept (vm.setPayload index payload) := by
  obtain ⟨slots, heq⟩ := vm.setPayload_frame index payload
  rw [heq]
  exact h

/-- The collector drops ended leases only. -/
theorem collects_rooted (hlease : kept.lease = none) : Collects (Rooted kept) where
  gc := fun _ _ h => h
  ledger := fun _ _ h => h
  compact := fun _ h => List.mem_filter.mpr ⟨h, by rw [RootEntry.isActive, hlease]; rfl⟩
  clear := fun clearValues clearKeys index => Keeps.of_apply fun vm h => by
    rcases clearDeadWeakSlot_cases clearValues clearKeys index vm with
      heq | ⟨o, t, r, t', l, -, -, -, heq⟩
    · rw [heq]
      exact h
    · rw [heq]
      exact h.setPayload index _
  separate := fun index => by
    refine Keeps.bind Keeps.get fun vm => ?_
    cases vm.occupied? index with
    | none => exact Keeps.pure ()
    | some o =>
      refine Keeps.ite (Keeps.bind (Keeps.of_apply fun vm h => ?_) fun _ =>
        Keeps.modify fun _ h => h) (Keeps.pure ())
      rcases gcMarkSlot_cases o.reference vm with ⟨e, hrun, -⟩ | ⟨id, o', -, -, ⟨hrun, -⟩ | ⟨hrun, -⟩⟩
      all_goals
        rw [hrun]
        exact h
  sort := fun _ h => h
  promote := fun _ _ _ _ h => h
  snapshot := fun index => by
    refine Keeps.bind Keeps.get fun vm => ?_
    cases vm.tableAt index with
    | none => exact Keeps.pure ()
    | some t =>
      exact Keeps.bind (Keeps.ofExcept _) fun _ => Keeps.modify fun _ h => h.setPayload _ _
  reclaim := fun object => Keeps.of_apply fun vm h => by
    rcases reclaim_cases vm object with ⟨e, l, hrun⟩ | ⟨id, o, l, gc', -, -, -, hrun⟩
    all_goals
      rw [hrun]
      exact h

variable (hlease : kept.lease = none)
include hlease

theorem keeps_rooted_writeRef (owner : ObjectRef) (field : RefField) (child : ObjectRef) :
    Keeps (Rooted kept) (writeRef owner field child) := by
  have hremember : Keeps (Rooted kept) (rememberGcOwner owner) :=
    Keeps.bind Keeps.get fun _ => Keeps.ite (Keeps.pure ()) <|
      Keeps.bind (keeps_liftLedger (fun _ _ h => h) _) fun _ =>
        (collects_rooted hlease).modifyGc _
  refine Keeps.bind Keeps.get fun vm => Keeps.bind (Keeps.ofExcept _) fun o =>
    Keeps.bind (Keeps.ofExcept _) fun c => Keeps.bind (Keeps.when hremember) fun _ =>
      Keeps.bind (Keeps.ofExcept _) fun weak => Keeps.when ?_
  exact Keeps.bind (Keeps.ofExcept _) fun _ => Keeps.when ((collects_rooted hlease).mark child)

theorem keeps_rooted_writeRef? (owner : ObjectRef) (field : RefField) (child : Option ObjectRef) :
    Keeps (Rooted kept) (writeRef? owner field child) := by
  cases child with
  | none => exact Keeps.pure ()
  | some child => exact keeps_rooted_writeRef hlease owner field child

theorem keeps_rooted_addChild (parent child : ObjectRef) :
    Keeps (Rooted kept) (addChild parent child) := by
  refine Keeps.bind (keeps_rooted_writeRef hlease _ _ _) fun _ => Keeps.bind Keeps.get fun _ =>
    Keeps.bind (Keeps.ofOption _ _) fun _ => Keeps.bind (Keeps.ofOption _ _) fun _ =>
      Keeps.bind (keeps_liftLedger (fun _ _ h => h) _) fun _ => Keeps.modify fun vm h => ?_
  unfold Vm.setObject
  split
  · exact h
  · exact h

theorem keeps_rooted_setUservalue (object : ObjectRef) (index : Nat) (value : Value) :
    Keeps (Rooted kept) (setUservalue object index value) :=
  Keeps.bind Keeps.get fun _ => Keeps.bind (Keeps.ofExcept _) fun _ => Keeps.ite
    (Keeps.bind (keeps_rooted_writeRef? hlease _ _ _) fun _ => Keeps.bind (Keeps.ofOption _ _)
      fun _ => Keeps.bind (Keeps.modify fun _ h => h.setPayload _ _) fun _ => Keeps.pure true)
    (Keeps.pure false)

theorem keeps_rooted_withNodeMut (owner : ObjectRef) (newRefs : List ObjectRef)
    (keep : ObjectRef → Bool) : Keeps (Rooted kept) (withNodeMut owner newRefs keep) :=
  Keeps.bind Keeps.get fun _ => Keeps.bind (Keeps.ofExcept _) fun _ =>
    Keeps.bind (Keeps.forM (fun child => keeps_rooted_writeRef hlease _ _ child) _) fun _ =>
      Keeps.bind (Keeps.ofOption _ _) fun _ => Keeps.modify fun _ h => h.setPayload _ _

theorem keeps_rooted_setMetatable (object : ObjectRef) (metatable : Option ObjectRef) :
    Keeps (Rooted kept) (setMetatable object metatable) := by
  have hpreflight : Keeps (Rooted kept) (preflightFinalizerRegistration object) :=
    Keeps.bind Keeps.get fun _ => Keeps.bind (Keeps.ofExcept _) fun _ =>
      Keeps.ite (Keeps.pure ()) (Keeps.ite (Keeps.pure ()) (Keeps.fail _))
  have hregister : Keeps (Rooted kept) (registerFinalizer object) := Keeps.of_apply fun vm h => by
    rcases registerFinalizer_cases object vm with heq | ⟨id, o, -, -, -, -, heq⟩
    all_goals
      rw [heq]
      exact h
  exact Keeps.bind Keeps.get fun _ => Keeps.bind (Keeps.ofExcept _) fun _ =>
    Keeps.bind (Keeps.ofOption _ _) fun _ => Keeps.bind (Keeps.ofExcept _) fun _ =>
      Keeps.bind (Keeps.when hpreflight) fun _ =>
        Keeps.bind (keeps_rooted_writeRef? hlease _ _ _) fun _ => Keeps.bind (Keeps.ofOption _ _)
          fun _ => Keeps.bind (Keeps.modify fun _ h => h.setPayload _ _) fun _ =>
            Keeps.when hregister

omit hlease in
theorem keeps_rooted_rawSet [DefaultHasher] (table : ObjectRef) (key value : Value) :
    Keeps (Rooted kept) (Vm.rawSet table key value) := by
  refine Keeps.bind Keeps.get fun _ => Keeps.bind (Keeps.ofExcept _) fun _ =>
    Keeps.bind (Keeps.ofOption _ _) fun _ =>
      Keeps.bind (keeps_liftLedger (fun _ _ h => h) _) fun mutation =>
        Keeps.bind (Keeps.of_apply fun vm h => ?_) fun barrier => Keeps.modify fun vm h => ?_
  · rcases prepareTableWriteBarrier_cases table mutation.newEdges.1 mutation.newEdges.2 vm with
      ⟨e, l, hrun⟩ | ⟨barrier, t, l, hrun, -⟩
    all_goals
      rw [hrun]
      exact h
  · have hgc : Rooted kept { vm with gc := barrier.apply table vm.gc } := h
    exact hgc.setPayload _ _

theorem keeps_rooted_addRootEntry (kind : RootKind) (object : ObjectRef) (lease : Option Bool)
    {vm : Vm} (ht : vm.Tidy) (h : Rooted kept vm) :
    Rooted kept (addRootEntry kind object lease vm).2 := by
  have hcompact : kept ∈ vm.roots.compact.entries := (collects_rooted hlease).compact vm h
  rcases addRootEntry_cases ht kind object lease with
    ⟨e, l, roots, hrun, rfl | rfl⟩ | ⟨id, o, l, roots, vm', -, -, hroots, hmark, hrun⟩
  · rw [hrun]
    exact h
  · rw [hrun]
    exact hcompact
  · have hadded : Rooted kept { vm with ledger := l, roots := roots } := by
      rw [hroots]
      exact List.mem_append_left _ hcompact
    have hmarked := ((collects_rooted hlease).mark object).apply hadded
    rw [hmark] at hmarked
    rw [hrun]
    exact hmarked

theorem keeps_rooted_deactivateLease (id : RootId) :
    Keeps (Rooted kept) (deactivateLease id) := by
  refine Keeps.modify fun vm h => List.mem_map.mpr ⟨kept, h, ?_⟩
  rw [hlease]
  simp

omit hlease in
theorem keeps_rooted_removeRoot {id : RootId} (hne : id ≠ kept.id) :
    Keeps (Rooted kept) (removeRoot id) := by
  refine Keeps.of_apply fun vm h => ?_
  rcases removeRoot_cases id vm with ⟨e, hrun⟩ | ⟨index, entry, r, hentry, hid, -, hrun⟩
  · rw [hrun]
    exact h
  · rw [hrun]
    rcases List.mem_cons.mp ((swapRemove_perm hentry).mem_iff.mp h) with rfl | hmem
    · exact absurd hid.symm hne
    · exact hmem

end Rooted

/-! ### Shelter -/

/-- Only the object of one root is followed. -/
def onlyFor (object : ObjectRef) : Anchoring := ⟨false, fun r => decide (r = object)⟩

/-- The bookkeeping is in order, and the root shields its object. -/
structure Sheltered (kept : RootEntry) (vm : Vm) : Prop where
  guarded : vm.Guarded (onlyFor kept.object) []
  rooted : Rooted kept vm

section Sheltered

variable {kept : RootEntry} {vm vm' : Vm}

theorem Rooted.mem_anchors (h : Rooted kept vm) (hlease : kept.lease = none) :
    kept.object ∈ vm.anchors (onlyFor kept.object) := by
  refine Vm.mem_anchors.mpr ⟨.inl (RootSet.mem_objects.mpr ⟨kept, h, ?_, rfl⟩), decide_eq_true rfl⟩
  rw [RootEntry.isActive, hlease]
  rfl

theorem eq_of_mem_onlyFor {object r : ObjectRef} (h : r ∈ vm.anchors (onlyFor object)) :
    r = object :=
  of_decide_eq_true (Vm.mem_anchors.mp h).2

/-- The object is in its slot. -/
theorem Sheltered.resolves (h : Sheltered kept vm) (hlease : kept.lease = none) :
    ∃ o, vm.checkedSlot kept.object = .ok o :=
  (h.guarded.shield _ (h.rooted.mem_anchors hlease)).resolves

/-- The slot of a new object was not occupied. -/
theorem Vm.Publishes.not_resolves {new : NewObject} {payload : HeapPayload} {l : Ledger}
    (hp : Vm.Publishes { vm with ledger := l } new payload) :
    ¬ ∃ o, vm.checkedSlot new.reference = .ok o := by
  rintro ⟨o, hres⟩
  obtain ⟨id, hid, -, hocc, -⟩ := Vm.checkedSlot_eq_ok.mp hres
  rw [hp.reference] at hid
  obtain rfl := Option.some.inj hid
  cases hp.occupied?_eq_none.symm.trans hocc

/-- An appended object is in the last slot. -/
theorem Vm.Publishes.last {new : NewObject} {payload : HeapPayload}
    (hp : vm.Publishes new payload) (hfree : new.free = none) :
    new.index + 1 = (vm.published new payload).slots.length := by
  rw [hp.length_eq]
  rcases hp.place with ⟨hsome, -⟩ | ⟨-, hindex, -⟩
  · rw [hfree] at hsome
    cases hsome
  · omega

variable [DefaultHasher]

/-- **Every operation keeps the bookkeeping**, and the shield of the object that is followed. -/
theorem HeapStep.guarded (hs : HeapStep kept vm vm') {guard : Anchoring} (h : vm.Guarded guard [])
    (honly : ∀ r, guard.only r = true → r = kept.object)
    (hkept : guard.only kept.object = true → ∃ o, vm.checkedSlot kept.object = .ok o) :
    vm'.Guarded guard [] := by
  have hanchor : ∀ {vm : Vm} {object : ObjectRef}, object ≠ kept.object → object ∉ vm.anchors guard :=
    fun hne hmem => hne (honly _ (Vm.mem_anchors.mp hmem).2)
  cases hs with
  | collect => exact keeps_guarded_gcStep.apply h
  | setGcMode mode => exact (keeps_guarded_setGcMode mode).apply h
  | ledger l => exact h.ledger l
  | publish payload =>
    rcases publishObject_cases payload h.tidy with ⟨e, l, hrun⟩ | ⟨new, l, hrun, hp⟩
    · rw [hrun]
      exact h.ledger l
    · rw [hrun]
      exact (h.ledger l).published hp
  | @refuse payload new vm₁ hpublish =>
    rcases publishObject_cases payload h.tidy with ⟨e, l, hrun⟩ | ⟨new', l, hrun, hp⟩
    · rw [hrun] at hpublish
      cases hpublish
    · rw [hrun] at hpublish
      cases hpublish
      have hpublished := (h.ledger l).published hp
      have hocc := (hp.occupied? new.index).trans (if_pos rfl)
      obtain ⟨vm'', hrollback, htidy, hfrees⟩ := rollbackNewObject_spec hpublished.tidy hocc hp.last
      rw [hrollback]
      refine @Vm.Guarded.of_frees _ _ _ _ ⟨vm.id, new.index, new.generation⟩ _ _ hpublished ?_
        (hpublished.tidy.checkedSlot_reference hocc) hfrees htidy fun hmem => ?_
      · show new.reference.identity = _
        rw [hp.reference]
        rfl
      · have hself : new.reference = kept.object := honly _ (Vm.mem_anchors.mp hmem).2
        exact hp.not_resolves (hself ▸ hkept (hself ▸ (Vm.mem_anchors.mp hmem).2))
  | uncreate object previousSlots expectedKind hne hnew =>
    rcases rollbackUnpublishedCreatedObject_spec h.tidy object previousSlots expectedKind hnew with
      ⟨e, l, hrun⟩ | ⟨id, o, vm'', left, hid, hres, hrun, htidy, hfrees, -⟩
    · rw [hrun]
      exact h.ledger l
    · rw [hrun]
      exact h.of_frees hid hres hfrees htidy (hanchor hne)
  | addChild parent child => exact (keeps_guarded_addChild parent child).apply h
  | setUservalue object index value => exact (keeps_guarded_setUservalue object index value).apply h
  | withNodeMut owner newRefs keep => exact (keeps_guarded_withNodeMut owner newRefs keep).apply h
  | rawSet table key value => exact (keeps_guarded_rawSet table key value).apply h
  | setMetatable object metatable => exact (keeps_guarded_setMetatable object metatable).apply h
  | addRoot kind object lease => exact (keeps_guarded_addRootEntry kind object lease).apply h
  | removeRoot id hne => exact (keeps_guarded_removeRoot id).apply h
  | deactivateLease id => exact (keeps_guarded_deactivateLease id).apply h
  | startFinalizer object => exact (keeps_guarded_startFinalizer object).apply h
  | pauseFinalizerStart object => exact (keeps_guarded_pauseFinalizerStart object).apply h
  | finishFinalizer object => exact (keeps_guarded_finishFinalizer object).apply h

/-- No operation drops the root. -/
theorem HeapStep.rooted (hs : HeapStep kept vm vm') (hlease : kept.lease = none) (ht : vm.Tidy)
    (h : Rooted kept vm) : Rooted kept vm' := by
  cases hs with
  | collect => exact (collects_rooted hlease).gcStep.apply h
  | setGcMode mode =>
    rcases setGcMode_cases mode vm with ⟨r, hrun⟩ | ⟨-, hrun⟩
    all_goals
      rw [hrun]
      exact h
  | ledger l => exact h
  | publish payload =>
    rcases publishObject_cases payload ht with ⟨e, l, hrun⟩ | ⟨new, l, hrun, -⟩
    all_goals
      rw [hrun]
      exact h
  | @refuse payload new vm₁ hpublish =>
    rcases publishObject_cases payload ht with ⟨e, l, hrun⟩ | ⟨new', l, hrun, hp⟩
    · rw [hrun] at hpublish
      cases hpublish
    · rw [hrun] at hpublish
      cases hpublish
      obtain ⟨vm'', hrollback, -, hfrees⟩ := rollbackNewObject_spec ((ht.ledger l).published hp)
        ((hp.occupied? new.index).trans (if_pos rfl)) hp.last
      rw [hrollback]
      obtain ⟨_, _, _, _, rfl⟩ := hfrees.frame
      exact h
  | uncreate object previousSlots expectedKind hne hnew =>
    rcases rollbackUnpublishedCreatedObject_spec ht object previousSlots expectedKind hnew with
      ⟨e, l, hrun⟩ | ⟨id, o, vm'', left, -, -, hrun, -, hfrees, -⟩
    · rw [hrun]
      exact h
    · rw [hrun]
      obtain ⟨_, _, _, _, rfl⟩ := hfrees.frame
      exact h
  | addChild parent child => exact (keeps_rooted_addChild hlease parent child).apply h
  | setUservalue object index value =>
    exact (keeps_rooted_setUservalue hlease object index value).apply h
  | withNodeMut owner newRefs keep =>
    exact (keeps_rooted_withNodeMut hlease owner newRefs keep).apply h
  | rawSet table key value => exact (keeps_rooted_rawSet table key value).apply h
  | setMetatable object metatable =>
    exact (keeps_rooted_setMetatable hlease object metatable).apply h
  | addRoot kind object lease => exact keeps_rooted_addRootEntry hlease kind object lease ht h
  | removeRoot id hne => exact (keeps_rooted_removeRoot hne).apply h
  | deactivateLease id => exact (keeps_rooted_deactivateLease hlease id).apply h
  | startFinalizer object =>
    rcases startFinalizer_cases object vm with ⟨e, hrun⟩ | ⟨index, o, -, -, -, -, hrun⟩
    all_goals
      rw [hrun]
      exact h
  | pauseFinalizerStart object =>
    rcases pauseFinalizerStart_cases object vm with ⟨e, hrun⟩ | ⟨index, o, -, -, hrun⟩
    all_goals
      rw [hrun]
      exact h
  | finishFinalizer object =>
    rcases finishFinalizer_cases object vm with ⟨e, hrun⟩ | ⟨index, o, -, -, -, -, hrun⟩
    all_goals
      rw [hrun]
      exact h

/-- Without anything to follow: the bookkeeping. -/
theorem HeapStep.tidy (hs : HeapStep kept vm vm') (h : vm.Tidy) : vm'.Tidy := by
  have hnone : vm.Guarded ⟨false, fun _ => false⟩ [] :=
    ⟨h, fun r hr => nomatch (Vm.mem_anchors.mp hr).2⟩
  exact (hs.guarded hnone (fun r hr => nomatch hr) fun hr => nomatch hr).tidy

/-- **Whatever happens to the heap, the root is kept and shields its object.** -/
theorem HeapStep.sheltered (hs : HeapStep kept vm vm') (hlease : kept.lease = none)
    (h : Sheltered kept vm) : Sheltered kept vm' :=
  ⟨hs.guarded h.guarded (fun _ hr => of_decide_eq_true hr) fun _ => h.resolves hlease,
    hs.rooted hlease h.guarded.tidy h.rooted⟩

theorem Sheltered.run (h : Sheltered kept vm) (hlease : kept.lease = none)
    (hrun : ReflTransGen (HeapStep kept) vm vm') : Sheltered kept vm' := by
  induction hrun with
  | refl => exact h
  | tail _ hstep ih => exact hstep.sheltered hlease ih

end Sheltered

/-! ### The collector -/

/-- A slice of the collector is a run. -/
theorem incrementalLoop_run [DefaultHasher] (kept : RootEntry) :
    ∀ (budget : Nat) (began : Bool) (vm : Vm),
      ReflTransGen (HeapStep kept) vm (incrementalLoop budget began vm).2
  | 0, _, _ => .refl
  | budget + 1, began, vm => by
    unfold incrementalLoop
    rw [Prog.bind_apply_ok (Prog.get_apply vm)]
    by_cases hdone : vm.gc.phase = .pause ∧ began = true
    · rw [if_pos hdone]
      exact .refl
    · rw [if_neg hdone]
      rcases hstep : gcStep vm with ⟨r, vm'⟩
      have hfirst : HeapStep kept vm vm' := by
        have hcollect : HeapStep kept vm (gcStep vm).2 := .collect
        rwa [hstep] at hcollect
      cases r with
      | error e =>
        rw [Prog.bind_apply_error hstep]
        exact .single hfirst
      | ok u =>
        rw [Prog.bind_apply_ok hstep]
        exact .head hfirst (incrementalLoop_run kept budget true vm')

theorem incrementalStep_run [DefaultHasher] (kept : RootEntry) (budget : Nat) (vm : Vm) :
    ReflTransGen (HeapStep kept) vm (incrementalStep budget vm).2 := by
  unfold incrementalStep
  rw [Prog.bind_apply_ok (Prog.get_apply vm)]
  split
  · exact .refl
  · split
    · exact .refl
    · exact incrementalLoop_run kept budget _ vm

/-- A root that was just registered shelters its object. -/
theorem addRootEntry_sheltered {kind : RootKind} {object : ObjectRef} {id : RootId} {vm vm' : Vm}
    (h : vm.Tidy) (hrun : addRootEntry kind object none vm = (.ok id, vm')) :
    Sheltered ⟨id, kind, object, none⟩ vm' ∧ SameHandles vm vm' := by
  rcases addRootEntry_cases h kind object none with
    ⟨e, l, roots, herror, -⟩ | ⟨id', o, l, roots, vm'', hres, -, hroots, hmark, hok⟩
  · rw [herror] at hrun
    cases hrun
  · rw [hok] at hrun
    cases hrun
    have hsame : SameHandles vm { vm with ledger := l, roots := roots } := ⟨rfl, rfl, rfl, rfl⟩
    have htidy := hsame.tidy rfl h
    have hadded : Rooted ⟨id, kind, object, none⟩ { vm with ledger := l, roots := roots } := by
      rw [hroots]
      exact List.mem_append_right _ (List.mem_singleton_self _)
    have hrooted := ((collects_rooted rfl).mark object).apply hadded
    have hhandles := (keeps_sameHandles_mark object).apply hsame
    rw [hmark] at hrooted hhandles
    refine ⟨⟨?_, hrooted⟩, hhandles⟩
    by_cases hp : vm.gc.phase = .pause
    · rcases gcMarkSlot_cases object { vm with ledger := l, roots := roots } with
        ⟨e, hrun', -⟩ | ⟨id', o', -, -, ⟨hrun', -⟩ | ⟨-, hp', -⟩⟩
      · rw [hrun'] at hmark
        cases hmark
      · rw [hrun'] at hmark
        cases hmark
        refine ⟨htidy, fun r hr => ?_⟩
        obtain rfl := eq_of_mem_onlyFor hr
        exact ⟨⟨o, hres⟩, .inl hp⟩
      · exact absurd hp hp'
    · obtain ⟨htidy', id', o', hid', hres', hm, hnonwhite⟩ := htidy.of_mark hp hmark
      refine ⟨htidy', fun r hr => ?_⟩
      obtain rfl := eq_of_mem_onlyFor hr
      refine ⟨⟨o', by rw [hm.checkedSlot]; exact hres'⟩, .inr (.inl fun id hid => ?_)⟩
      obtain rfl : id' = id := Option.some.inj (hid'.symm.trans hid)
      exact hnonwhite

end RivetLua.Runtime
