import RivetLua.Runtime.FailedAllocation
import RivetLua.Runtime.Survivors

namespace RivetLua.Runtime

open RivetLua.Core RivetLua.Gc StateProg Relation

/-!
# Runtime — allocating next to open upvalues

An allocation may run slices of the collector, and it may fail at any point.

* `CollectorProgram` — a program that does nothing but units of collector work;
* `Vm.Onward` — nothing old comes back and no node changes;
* `Vm.Holds` — a VM with some registered roots: those of objects in use, and those of open
  upvalues;
* `Vm.Holds.allocate` — the allocation keeps all that, whether it succeeds or fails.
-/

/-- A program that does nothing but units of collector work. -/
structure CollectorProgram where
  run : VmM Unit
  units : ∀ vm, ReflTransGen (fun vm vm' => vm' = (gcStep vm).2) vm (run vm).2

theorem incrementalLoop_units : ∀ (budget : Nat) (began : Bool) (vm : Vm),
    ReflTransGen (fun vm vm' => vm' = (gcStep vm).2) vm (incrementalLoop budget began vm).2
  | 0, _, _ => .refl
  | budget + 1, began, vm => by
    unfold incrementalLoop
    rw [Prog.bind_apply_ok (Prog.get_apply vm)]
    by_cases hdone : vm.gc.phase = .pause ∧ began = true
    · rw [if_pos hdone]
      exact .refl
    · rw [if_neg hdone]
      rcases hstep : gcStep vm with ⟨_ | _, vm'⟩
      · rw [Prog.bind_apply_error hstep]
        exact .single (by rw [hstep])
      · rw [Prog.bind_apply_ok hstep]
        exact .head (by rw [hstep]) (incrementalLoop_units budget true vm')

/-- The slice an allocation runs when enough was allocated since the last one. -/
def CollectorProgram.slice (budget : Nat) : CollectorProgram where
  run := incrementalStep budget
  units := fun vm => by
    unfold incrementalStep
    rw [Prog.bind_apply_ok (Prog.get_apply vm)]
    split
    · exact .refl
    · split
      · exact .refl
      · exact incrementalLoop_units budget _ vm

/-! ### Nothing comes back -/

/-- Every object was there before, with the same node, or is newer than `vm`. -/
structure Vm.Onward (vm vm' : Vm) : Prop where
  id : vm'.id = vm.id
  token : vm.nextToken ≤ vm'.nextToken
  occupied : ∀ i o', vm'.occupied? i = some o' → (∃ o, vm.occupied? i = some o ∧ o.Descends o') ∨
    ∃ t, o'.reference.runtimeToken = some t ∧ vm.nextToken ≤ t

section Onward

variable {vm vm' vm'' : Vm}

theorem Vm.Onward.refl (vm : Vm) : vm.Onward vm :=
  ⟨rfl, Nat.le_refl _, fun _ o ho => .inl ⟨o, ho, rfl, rfl, rfl⟩⟩

theorem Vm.Onward.trans (h : vm.Onward vm') (h' : vm'.Onward vm'') : vm.Onward vm'' where
  id := h'.id.trans h.id
  token := h.token.trans h'.token
  occupied := fun i o'' ho'' => by
    rcases h'.occupied i o'' ho'' with ⟨o', ho', hd'⟩ | ⟨t, ht, hle⟩
    · rcases h.occupied i o' ho' with ⟨o, ho, hd⟩ | ⟨t, ht, hle⟩
      · exact .inl ⟨o, ho, hd.trans hd'⟩
      · exact .inr ⟨t, by rw [hd'.reference, ht], hle⟩
    · exact .inr ⟨t, ht, h.token.trans hle⟩

theorem Vm.Descends.onward (h : vm.Descends vm') : vm.Onward vm' where
  id := h.id
  token := h.token.ge
  occupied := fun i o' ho' => .inl (h.occupied i o' ho')

theorem Vm.Onward.of_slots (hid : vm'.id = vm.id) (htoken : vm'.nextToken = vm.nextToken)
    (hslots : vm'.slots = vm.slots) : vm.Onward vm' where
  id := hid
  token := htoken.ge
  occupied := fun i o' ho' => by
    rw [Vm.occupied?_eq_some, hslots] at ho'
    exact .inl ⟨o', Vm.occupied?_eq_some.mpr ho', rfl, rfl, rfl⟩

/-- What resolves has resolved before, or is newer. -/
theorem Vm.Onward.checkedSlot (h : vm.Onward vm') {r : ObjectRef} {o' : OccupiedSlot}
    (hres : vm'.checkedSlot r = .ok o') :
    (∃ o, vm.checkedSlot r = .ok o ∧ o.Descends o') ∨
      ∃ t, r.runtimeToken = some t ∧ vm.nextToken ≤ t := by
  obtain ⟨id, hid, hvm, hocc, hgen, href⟩ := Vm.checkedSlot_eq_ok.mp hres
  rcases h.occupied id.slot o' hocc with ⟨o, ho, hd⟩ | hnew
  · refine .inl ⟨o, Vm.checkedSlot_eq_ok.mpr ⟨id, hid, hvm.trans h.id, ho, ?_, ?_⟩, hd⟩
    · rw [← hgen, hd.generation]
    · rw [← href, hd.reference]
  · exact .inr (by rwa [href] at hnew)

theorem Vm.TidyWith.token_lt {hole : List ObjectRef} (h : vm.TidyWith hole) {r : ObjectRef}
    {o : OccupiedSlot} (hres : vm.checkedSlot r = .ok o) :
    ∃ t, r.runtimeToken = some t ∧ t < vm.nextToken := by
  obtain ⟨id, -, hocc, href⟩ := Vm.occupied_of_checkedSlot hres
  obtain ⟨t, heq, hlt⟩ := h.reference id.slot o hocc
  exact ⟨t, by rw [← href, heq]; rfl, hlt⟩

/-- A new object. -/
theorem Vm.Publishes.onward {new : NewObject} {payload : HeapPayload}
    (hp : vm.Publishes new payload) : vm.Onward (vm.published new payload) where
  id := rfl
  token := Nat.le_succ _
  occupied := fun i o' ho' => by
    rw [hp.occupied?] at ho'
    by_cases hi : i = new.index
    · rw [if_pos hi, Option.some.injEq] at ho'
      subst ho'
      refine .inr ⟨vm.nextToken, ?_, Nat.le_refl _⟩
      show new.reference.runtimeToken = _
      rw [hp.reference]
      rfl
    · rw [if_neg hi] at ho'
      exact .inl ⟨o', ho', rfl, rfl, rfl⟩

theorem Vm.Frees.onward {index : Nat} {r : ObjectRef} {left : Option Slot}
    (h : vm.Frees index r left vm') : vm.Onward vm' := by
  obtain ⟨slots, scanEnd, ledger, gc, heq⟩ := h.frame
  refine ⟨by rw [heq], by rw [heq], fun i o' ho' => ?_⟩
  rw [h.occupied?] at ho'
  by_cases hi : i = index
  · rw [if_pos hi] at ho'
    cases ho'
  · rw [if_neg hi] at ho'
    exact .inl ⟨o', ho', rfl, rfl, rfl⟩

end Onward

/-! ### The remembered set -/

/-- Everything that is remembered was allocated. -/
def Vm.RemembersAllocated (vm : Vm) : Prop :=
  ∀ r ∈ vm.gc.remembered, ∃ t, r.runtimeToken = some t ∧ t < vm.nextToken

/-- What is stored and what is remembered was allocated. -/
structure Vm.Allocated (vm : Vm) : Prop where
  stored : ∀ i o, vm.occupied? i = some o →
    ∃ t, o.reference.runtimeToken = some t ∧ t < vm.nextToken
  remembered : vm.RemembersAllocated

section Remembered

variable {vm vm' : Vm}

theorem Vm.Allocated.of_shrinks (h : vm.Allocated) (hs : vm.Shrinks vm') : vm'.Allocated where
  stored := fun i o' ho' => by
    obtain ⟨o, ho, hstay⟩ := hs.occupied i o' ho'
    rw [hstay.reference, hs.token]
    exact h.stored i o ho
  remembered := fun r hr => by
    rw [hs.token]
    exact h.remembered r (hs.remembered r hr)

theorem keeps_allocated_rebuild : Keeps Vm.Allocated rebuildRememberedSet := by
  refine Keeps.bind Keeps.get fun start => Keeps.bind (Keeps.ofExcept _) fun scanned => ?_
  rcases scanned with (_ | ⟨index, owners⟩) | child
  · exact Keeps.bind (Keeps.modify fun vm h => ⟨h.stored, fun _ hr => nomatch hr⟩)
      fun _ => Keeps.pure true
  · refine Keeps.bind (keeps_liftLedger (fun _ _ h => ⟨h.stored, h.remembered⟩) _) fun _ =>
      Keeps.bind (Keeps.modify fun vm h => ⟨h.stored, fun r hr => ?_⟩) fun _ => Keeps.pure true
    obtain ⟨i, -, hcell⟩ := List.mem_filterMap.mp hr
    obtain ⟨o, ho, rfl⟩ := Option.map_eq_some_iff.mp hcell
    exact h.stored i o ho
  · exact Keeps.bind (Keeps.of_apply fun vm h => h.of_shrinks (gcMarkSlot_shrinks child vm))
      fun _ => Keeps.pure false

/-- **The collector remembers allocated objects only.** -/
theorem keeps_allocated_gcStep : Keeps Vm.Allocated gcStep := by
  have hcollects : CollectsRemembering Vm.Allocated :=
    { gc := fun _ _ hgc h => ⟨h.stored, fun r hr => h.remembered r (hgc ▸ hr)⟩
      ledger := fun _ _ h => ⟨h.stored, h.remembered⟩
      compact := fun _ h => ⟨h.stored, h.remembered⟩
      clear := fun clearValues clearKeys index => Keeps.of_apply fun vm h =>
        h.of_shrinks (clearDeadWeakSlot_shrinks clearValues clearKeys index vm)
      separate := fun index => Keeps.of_apply fun vm h =>
        h.of_shrinks (separateDeadFinalizer_shrinks index vm)
      sort := fun _ h => ⟨h.stored, h.remembered⟩
      snapshot := fun index => Keeps.of_apply fun vm h =>
        h.of_shrinks (snapshotWeakMode_shrinks index vm)
      reclaim := fun object => Keeps.of_apply fun vm h => h.of_shrinks (reclaim_shrinks object vm)
      rebuild := keeps_allocated_rebuild }
  refine Keeps.of_apply fun vm h => hcollects.gcStep h fun _ _ => ?_
  refine Keeps.apply (I := Vm.Allocated) ?_ ⟨h.stored, h.remembered⟩
  refine Keeps.bind Keeps.get fun _ => Keeps.ite ?_ (Keeps.pure ())
  refine keeps_forOccupied fun index => Keeps.of_apply fun vm h => ?_
  rw [Prog.bind_apply_ok (Prog.get_apply vm)]
  cases ho : vm.occupied? index with
  | none => exact h
  | some o =>
    simp only
    split
    · refine ⟨fun i o' ho' => ?_, h.remembered⟩
      have hset := (Vm.occupied?_setOccupied ho i).symm.trans ho'
      split at hset
      · cases hset
        exact h.stored index o ho
      · exact h.stored i o' hset
    · exact h

/-- The collector drops ended leases only. -/
theorem collects_registered (A : List RootEntry) : Collects (Vm.Registered A) where
  gc := fun _ _ h => h
  ledger := fun _ _ h => h
  compact := fun _ h => ⟨h.1.compact, by rw [RootSet.filter_compact]; exact h.2⟩
  clear := fun clearValues clearKeys index => Keeps.of_apply fun vm h => by
    rcases clearDeadWeakSlot_cases clearValues clearKeys index vm with
      heq | ⟨o, t, r, t', l, -, -, -, heq⟩
    · rw [heq]
      exact h
    · rw [heq]
      obtain ⟨slots, hframe⟩ := vm.setPayload_frame index (.table t')
      rw [hframe]
      exact h
  separate := fun index => by
    refine Keeps.bind Keeps.get fun vm => ?_
    cases vm.occupied? index with
    | none => exact Keeps.pure ()
    | some o =>
      exact Keeps.ite (Keeps.bind (gcMarkSlot_registered A _) fun _ => Keeps.modify fun _ h => h)
        (Keeps.pure ())
  sort := fun _ h => h
  promote := fun _ _ _ _ h => h
  snapshot := fun index => by
    refine Keeps.bind Keeps.get fun vm => ?_
    cases vm.tableAt index with
    | none => exact Keeps.pure ()
    | some t =>
      refine Keeps.bind (Keeps.ofExcept _) fun _ => Keeps.modify fun vm h => ?_
      obtain ⟨slots, hframe⟩ := vm.setPayload_frame index (.table (t.setWeakMode _))
      rw [hframe]
      exact h
  reclaim := fun object => Keeps.of_apply fun vm h => by
    rcases reclaim_cases vm object with ⟨e, l, hrun⟩ | ⟨id, o, l, gc', -, -, -, hrun⟩
    all_goals
      rw [hrun]
      exact h

end Remembered

/-! ### Roots in use -/

/-- A VM in which the roots `A` are registered; those of `P` and of `O` shelter their objects, and
    the objects of `O` are open upvalues of `parent`, whose root is in `P`. -/
structure Vm.Holds (parent : Option ObjectRef) (P O A : List RootEntry) (vm : Vm) : Prop where
  tidy : vm.Tidy
  allocated : vm.RemembersAllocated
  registered : vm.Registered A
  kept : ∀ k ∈ P ++ O, k ∈ A ∧ k.lease = none ∧ Sheltered k vm
  inUse : ∀ p, parent = some p → ∃ k ∈ P, k.object = p
  cells : ∀ k ∈ O, vm.Cell parent k.object

section Holds

variable {vm vm' : Vm} {parent : Option ObjectRef} {P O A : List RootEntry}

theorem Vm.TidyWith.allocated (h : vm.Tidy) (hr : vm.RemembersAllocated) : vm.Allocated where
  stored := fun i o ho => by
    obtain ⟨t, heq, hlt⟩ := h.reference i o ho
    exact ⟨t, by rw [heq]; rfl, hlt⟩
  remembered := hr

theorem Vm.Holds.parentRooted (h : vm.Holds parent P O A) : vm.ParentRooted parent := by
  intro p hp
  obtain ⟨k, hk, rfl⟩ := h.inUse p hp
  obtain ⟨-, hlease, hsheltered⟩ := h.kept k (List.mem_append_left _ hk)
  exact ⟨k, rfl, hlease, hsheltered⟩

theorem Vm.Holds.resolves (h : vm.Holds parent P O A) {k : RootEntry} (hk : k ∈ P ++ O) :
    ∃ o, vm.checkedSlot k.object = .ok o :=
  (h.kept k hk).2.2.resolves (h.kept k hk).2.1

/-- Shelter depends on slots, collector, roots and finalizers. -/
theorem Sheltered.ledger {k : RootEntry} (h : Sheltered k vm) (l : Ledger) :
    Sheltered k { vm with ledger := l } :=
  ⟨h.guarded.ledger l, h.rooted⟩

theorem Vm.Holds.ledger (h : vm.Holds parent P O A) (l : Ledger) :
    Vm.Holds parent P O A { vm with ledger := l } where
  tidy := h.tidy.ledger l
  allocated := h.allocated
  registered := h.registered
  kept := fun k hk => ⟨(h.kept k hk).1, (h.kept k hk).2.1, (h.kept k hk).2.2.ledger l⟩
  inUse := h.inUse
  cells := fun k hk => ⟨(h.cells k hk).node, (h.cells k hk).unremembered, (h.cells k hk).outlived⟩

/-- **A unit of collector work.** -/
theorem Vm.Holds.gcStep (h : vm.Holds parent P O A) : (gcStep vm).2.Holds parent P O A where
  tidy := by
    have hnone : vm.Guarded ⟨false, fun _ => false⟩ [] :=
      ⟨h.tidy, fun r hr => nomatch (Vm.mem_anchors.mp hr).2⟩
    exact (keeps_guarded_gcStep.apply hnone).tidy
  allocated := (keeps_allocated_gcStep.apply (h.tidy.allocated h.allocated)).remembered
  registered := (collects_registered A).gcStep.apply h.registered
  kept := fun k hk => by
    obtain ⟨hmem, hlease, hsheltered⟩ := h.kept k hk
    exact ⟨hmem, hlease, keeps_guarded_gcStep.apply hsheltered.guarded,
      (collects_rooted hlease).gcStep.apply hsheltered.rooted⟩
  inUse := h.inUse
  cells := fun k hk => (h.cells k hk).gcStep h.tidy h.parentRooted

/-- **Any number of units**, with the objects they leave. -/
theorem Vm.Holds.collected (h : vm.Holds parent P O A) (collection : CollectorProgram) :
    (collection.run vm).2.Holds parent P O A ∧ vm.Descends (collection.run vm).2
      ∧ ∀ cell, vm.Cell parent cell → (collection.run vm).2.Cell parent cell := by
  have hunits := collection.units vm
  generalize (collection.run vm).2 = vm' at hunits
  induction hunits with
  | refl => exact ⟨h, .refl vm, fun _ hc => hc⟩
  | @tail vm₁ vm₂ _ hstep ih =>
    obtain ⟨hholds, hdescends, hcell⟩ := ih
    subst hstep
    exact ⟨hholds.gcStep, (collects_descends vm).gcStep.apply hdescends,
      fun cell hc => (hcell cell hc).gcStep hholds.tidy hholds.parentRooted⟩

/-- The objects are the same, and what is remembered of them. -/
structure Vm.SameObjects (vm vm' : Vm) : Prop where
  id : vm'.id = vm.id
  token : vm'.nextToken = vm.nextToken
  slots : vm'.slots = vm.slots
  remembered : vm'.gc.remembered = vm.gc.remembered

theorem Vm.SameObjects.refl (vm : Vm) : vm.SameObjects vm := ⟨rfl, rfl, rfl, rfl⟩

theorem Vm.SameObjects.trans {vm'' : Vm} (h : vm.SameObjects vm') (h' : vm'.SameObjects vm'') :
    vm.SameObjects vm'' :=
  ⟨h'.id.trans h.id, h'.token.trans h.token, h'.slots.trans h.slots,
    h'.remembered.trans h.remembered⟩

theorem Vm.SameObjects.ledger (vm : Vm) (l : Ledger) : vm.SameObjects { vm with ledger := l } :=
  ⟨rfl, rfl, rfl, rfl⟩

theorem Vm.SameObjects.shrinks (h : vm.SameObjects vm') : vm.Shrinks vm' :=
  .of_slots h.id h.token h.slots fun _ hr => h.remembered ▸ hr

theorem Vm.SameObjects.checkedSlot (h : vm.SameObjects vm') (r : ObjectRef) :
    vm'.checkedSlot r = vm.checkedSlot r := by
  unfold Vm.checkedSlot Vm.occupied?
  rw [h.id, h.slots]

theorem gcMarkSlot_sameObjects (object : ObjectRef) (vm : Vm) :
    vm.SameObjects (gcMarkSlot object vm).2 := by
  rcases gcMarkSlot_cases object vm with ⟨e, hrun, -⟩ | ⟨id, o, -, -, ⟨hrun, -⟩ | ⟨hrun, -⟩⟩
  · rw [hrun]
    exact .refl vm
  · rw [hrun]
    exact .refl vm
  · rw [hrun]
    exact ⟨rfl, rfl, rfl, GcState.remembered_pushGray _ _ _⟩

theorem addRoot_sameObjects (h : vm.Tidy) (kind : RootKind) (object : ObjectRef) :
    vm.SameObjects (addRoot kind object vm).2 := by
  unfold addRoot
  rcases addRootEntry_cases h kind object none with
    ⟨e, l, roots, hrun, -⟩ | ⟨id, o, l, roots, vm', -, -, -, hmark, hrun⟩
  · rw [hrun]
    exact ⟨rfl, rfl, rfl, rfl⟩
  · rw [hrun]
    have hmarked := gcMarkSlot_sameObjects object { vm with ledger := l, roots := roots }
    rw [hmark] at hmarked
    exact ⟨hmarked.id, hmarked.token, hmarked.slots, hmarked.remembered⟩

/-- **A root is added**, or not. -/
theorem Vm.Holds.addRoot (h : vm.Holds parent P O A) (kind : RootKind) (object : ObjectRef) :
    (∃ id vm', addRoot kind object vm = (.ok id, vm')
        ∧ vm'.Holds parent P O (⟨id, kind, object, none⟩ :: A)
        ∧ Sheltered ⟨id, kind, object, none⟩ vm' ∧ vm.SameObjects vm')
      ∨ ∃ e vm', addRoot kind object vm = (.error e, vm') ∧ vm'.Holds parent P O A
        ∧ vm.SameObjects vm' := by
  have hsame := addRoot_sameObjects h.tidy kind object
  have hspec := addRoot_spec kind object A vm h.registered
  have htidy : (RivetLua.Runtime.addRoot kind object vm).2.Tidy := by
    have hnone : vm.Guarded ⟨false, fun _ => false⟩ [] :=
      ⟨h.tidy, fun r hr => nomatch (Vm.mem_anchors.mp hr).2⟩
    exact ((keeps_guarded_addRootEntry kind object none).apply hnone).tidy
  have hkept : ∀ k ∈ P ++ O, k ∈ A ∧ k.lease = none
      ∧ Sheltered k (RivetLua.Runtime.addRoot kind object vm).2 := fun k hk => by
    obtain ⟨hmem, hlease, hsheltered⟩ := h.kept k hk
    exact ⟨hmem, hlease, (keeps_guarded_addRootEntry kind object none).apply hsheltered.guarded,
      keeps_rooted_addRootEntry hlease kind object none h.tidy hsheltered.rooted⟩
  rcases hrun : RivetLua.Runtime.addRoot kind object vm with ⟨e | id, vm'⟩
  all_goals
    rw [hrun] at hspec hsame htidy hkept
    have hallocated := ((h.tidy.allocated h.allocated).of_shrinks hsame.shrinks).remembered
    have hcells := fun k hk => (h.cells k hk).of_shrinks hsame.shrinks
  · exact .inr ⟨e, vm', rfl, ⟨htidy, hallocated, hspec, hkept, h.inUse, hcells⟩, hsame⟩
  · refine .inl ⟨id, vm', rfl, ⟨htidy, hallocated, hspec, fun k hk => ?_, h.inUse, hcells⟩,
      (addRootEntry_sheltered h.tidy hrun).1, hsame⟩
    exact ⟨List.mem_cons_of_mem _ (hkept k hk).1, (hkept k hk).2⟩

/-- Registered roots have different identities. -/
theorem Vm.Registered.id_ne {e k : RootEntry} (h : vm.Registered (e :: A)) (hk : k ∈ A) :
    e.id ≠ k.id := by
  have hnodup := (h.2.map RootEntry.id).nodup_iff.mp
    (h.1.nodup.sublist (List.filter_sublist.map RootEntry.id))
  rw [List.map_cons, List.nodup_cons] at hnodup
  exact fun heq => hnodup.1 (heq ▸ List.mem_map_of_mem hk)

/-- **A registered root is removed.** -/
theorem Vm.Holds.removeRoot {e : RootEntry} (h : vm.Holds parent P O (e :: A))
    (hkept : ∀ k ∈ P ++ O, k ∈ A) :
    ∃ vm', removeRoot e.id vm = (.ok e.object, vm') ∧ vm'.Holds parent P O A
      ∧ ∃ roots, vm' = { vm with roots := roots } := by
  have hspec := removeRoot_spec e A vm h.registered
  have htidy : (RivetLua.Runtime.removeRoot e.id vm).2.Tidy := by
    have hnone : vm.Guarded ⟨false, fun _ => false⟩ [] :=
      ⟨h.tidy, fun r hr => nomatch (Vm.mem_anchors.mp hr).2⟩
    exact ((keeps_guarded_removeRoot e.id).apply hnone).tidy
  have hsheltered : ∀ k ∈ P ++ O, k ∈ A ∧ k.lease = none
      ∧ Sheltered k (RivetLua.Runtime.removeRoot e.id vm).2 := fun k hk => by
    obtain ⟨-, hlease, hsheltered⟩ := h.kept k hk
    exact ⟨hkept k hk, hlease, (keeps_guarded_removeRoot e.id).apply hsheltered.guarded,
      (keeps_rooted_removeRoot (h.registered.id_ne (hkept k hk))).apply hsheltered.rooted⟩
  rcases removeRoot_cases e.id vm with ⟨e', hrun⟩ | ⟨index, entry, r, -, -, -, hrun⟩
  all_goals rw [hrun] at hspec
  · exact hspec.elim
  · rw [hrun] at htidy hsheltered
    cases r with
    | error e' => exact hspec.elim
    | ok object =>
      obtain ⟨rfl, hregistered⟩ := hspec
      exact ⟨_, hrun, ⟨htidy, h.allocated, hregistered, hsheltered, h.inUse,
        fun k hk => ⟨(h.cells k hk).node, (h.cells k hk).unremembered, (h.cells k hk).outlived⟩⟩,
        _, rfl⟩

end Holds

/-! ### New objects and freed ones -/

section Publish

variable {vm vm' : Vm} {parent : Option ObjectRef} {P O A : List RootEntry} {new : NewObject}
  {payload : HeapPayload}

/-- The reference of a new object is new. -/
theorem Vm.Publishes.token (hp : vm.Publishes new payload) :
    new.reference.runtimeToken = some vm.nextToken := by
  rw [hp.reference]
  rfl

theorem Vm.Publishes.reference_ne (hp : vm.Publishes new payload) {r : ObjectRef}
    (hres : ∃ o, vm.checkedSlot r = .ok o) : r ≠ new.reference := by
  rintro rfl
  exact hp.not_resolves hres

theorem Vm.Publishes.remembered (vm : Vm) (new : NewObject) (payload : HeapPayload) :
    (vm.published new payload).gc.remembered = vm.gc.remembered := by
  obtain ⟨-, -, -, -, hremembered, -⟩ := Vm.Publishes.gc_eq vm new payload
  exact hremembered

/-- The other objects do not notice. -/
theorem Vm.Cell.published {cell : ObjectRef} (h : vm.Cell parent cell)
    (hp : vm.Publishes new payload) (hcell : cell ≠ new.reference)
    (hparent : parent ≠ some new.reference) : (vm.published new payload).Cell parent cell where
  node := fun i o ho href => by
    rw [hp.occupied?] at ho
    by_cases hi : i = new.index
    · rw [if_pos hi, Option.some.injEq] at ho
      subst ho
      exact absurd href.symm hcell
    · rw [if_neg hi] at ho
      exact h.node i o ho href
  unremembered := by
    rw [Vm.Publishes.remembered]
    exact h.unremembered
  outlived := fun i j o c ho href hc hp' => by
    rw [hp.occupied?] at ho hc
    by_cases hi : i = new.index
    · rw [if_pos hi, Option.some.injEq] at ho
      subst ho
      exact absurd href.symm hcell
    · by_cases hj : j = new.index
      · rw [if_pos hj, Option.some.injEq] at hc
        subst hc
        exact absurd hp' hparent
      · rw [if_neg hi] at ho
        rw [if_neg hj] at hc
        exact h.outlived i j o c ho href hc hp'

/-- A new upvalue is young, so that its coroutine outlives it. -/
theorem Vm.Publishes.cell (hp : vm.Publishes new (.node .upvalue parent.toList)) (h : vm.Tidy)
    (ha : vm.RemembersAllocated) :
    (vm.published new (.node .upvalue parent.toList)).Cell parent new.reference := by
  have hnew : ∀ i o, (vm.published new (.node .upvalue parent.toList)).occupied? i = some o →
      o.reference = new.reference → o = new.occupied (.node .upvalue parent.toList) := by
    intro i o ho href
    rw [hp.occupied?] at ho
    by_cases hi : i = new.index
    · rw [if_pos hi] at ho
      exact (Option.some.inj ho).symm
    · rw [if_neg hi] at ho
      exact absurd ⟨o, href ▸ h.checkedSlot_reference ho⟩ hp.not_resolves
  refine ⟨fun i o ho href => ?_, fun hmem => ?_, fun i j o c ho href _ _ => ?_⟩
  · rw [hnew i o ho href]
    exact ⟨rfl, Nat.zero_le _⟩
  · rw [Vm.Publishes.remembered] at hmem
    obtain ⟨t, ht, hlt⟩ := ha _ hmem
    rw [hp.token, Option.some.injEq] at ht
    omega
  · rw [hnew i o ho href]
    exact .inr ⟨nofun, Nat.zero_le _⟩

/-- **A new object is stored.** -/
theorem Vm.Holds.published (h : vm.Holds parent P O A) (hp : vm.Publishes new payload) :
    (vm.published new payload).Holds parent P O A where
  tidy := h.tidy.published hp
  allocated := fun r hr => by
    rw [Vm.Publishes.remembered] at hr
    obtain ⟨t, ht, hlt⟩ := h.allocated r hr
    exact ⟨t, ht, Nat.lt_succ_of_lt hlt⟩
  registered := h.registered
  kept := fun k hk => by
    obtain ⟨hmem, hlease, hsheltered⟩ := h.kept k hk
    exact ⟨hmem, hlease, hsheltered.guarded.published hp, hsheltered.rooted⟩
  inUse := h.inUse
  cells := fun k hk => by
    refine (h.cells k hk).published hp
      (hp.reference_ne (h.resolves (List.mem_append_right _ hk))) fun hparent => ?_
    obtain ⟨k', hk', hobject⟩ := h.inUse _ hparent
    exact hp.reference_ne (h.resolves (List.mem_append_left _ hk')) hobject

/-- **A slot is freed** whose object has none of the roots. -/
theorem Vm.Holds.freed {object : ObjectRef} {id : ObjectId} {o : OccupiedSlot} {left : Option Slot}
    (h : vm.Holds parent P O A) (hid : object.identity = some id)
    (hres : vm.checkedSlot object = .ok o) (hfrees : vm.Frees id.slot object left vm')
    (htidy : vm'.Tidy) (hremembered : ∀ r ∈ vm'.gc.remembered, r ∈ vm.gc.remembered)
    (hne : ∀ k ∈ P ++ O, k.object ≠ object) : vm'.Holds parent P O A := by
  have hframe := hfrees.frame
  have hslots : ∀ i o', vm'.occupied? i = some o' → vm.occupied? i = some o' := by
    intro i o' ho'
    rw [hfrees.occupied?] at ho'
    split at ho'
    · cases ho'
    · exact ho'
  exact {
    tidy := htidy
    allocated := fun r hr => by
      obtain ⟨_, _, _, _, heq⟩ := hframe
      rw [heq]
      exact h.allocated r (hremembered r hr)
    registered := by
      obtain ⟨_, _, _, _, heq⟩ := hframe
      rw [heq]
      exact h.registered
    kept := fun k hk => by
      obtain ⟨hmem, hlease, hsheltered⟩ := h.kept k hk
      refine ⟨hmem, hlease, hsheltered.guarded.of_frees hid hres hfrees htidy fun hanchor => ?_, ?_⟩
      · exact hne k hk (eq_of_mem_onlyFor hanchor).symm
      · obtain ⟨_, _, _, _, heq⟩ := hframe
        rw [heq]
        exact hsheltered.rooted
    inUse := h.inUse
    cells := fun k hk =>
      ⟨fun i o' ho' => (h.cells k hk).node i o' (hslots i o' ho'),
        fun hmem => (h.cells k hk).unremembered (hremembered _ hmem),
        fun i j o' c ho' href hc => (h.cells k hk).outlived i j o' c (hslots i o' ho') href
          (hslots j c hc)⟩ }

/-- A rollback leaves the remembered set. -/
theorem rollbackNewObject_remembered {o : OccupiedSlot} (h : vm.Tidy)
    (ho : vm.occupied? new.index = some o)
    (hlast : new.free = none → new.index + 1 = vm.slots.length) :
    ∃ vm', rollbackNewObject new vm = (.ok (), vm') ∧ vm'.Tidy
      ∧ vm.Frees new.index new.reference (new.free.map fun _ => .free new.generation) vm'
      ∧ vm'.gc.remembered = vm.gc.remembered := by
  obtain ⟨htidy, hfrees⟩ := Vm.rolledBack_spec h ho hlast
  exact ⟨_, rollbackNewObject_eq h.growth (fun hp => ⟨(h.pause hp).1, h.idle hp⟩) new, htidy, hfrees,
    (Vm.rolledBack_gc vm new).2.2.2.1⟩

/-- An object that was taken off the lists of the collector is taken back. -/
theorem Vm.TidyWith.frees_without (h : vm.Tidy) {o : OccupiedSlot}
    (ho : vm.occupied? new.index = some o) (href : o.reference = new.reference)
    (hlast : new.free = none → new.index + 1 = vm.slots.length) {gc' : GcState}
    (hgc : GcState.Without vm.gc new.reference gc') (l : Ledger) :
    vm.Frees new.index new.reference (new.free.map fun _ => .free new.generation)
        (Vm.rolledBack { vm with ledger := l, gc := gc' } new)
      ∧ ∀ r ∈ (Vm.rolledBack { vm with ledger := l, gc := gc' } new).gc.remembered,
        r ∈ vm.gc.remembered := by
  obtain ⟨-, hfrees⟩ := Vm.rolledBack_spec h ho hlast
  have hid : new.reference.identity = some ⟨vm.id, new.index, o.generation⟩ := href ▸ h.identity ho
  rw [Vm.rolledBack_without hid rfl hgc l]
  obtain ⟨cursor, rfl⟩ := hgc
  refine ⟨?_, fun r hr => List.mem_of_mem_erase hr⟩
  obtain ⟨slots, scanEnd, ledger, gc, heq⟩ := hfrees.frame
  exact {
    frame := ⟨(vm.rolledBack new).slots, (vm.rolledBack new).gcScanEnd, l, _, by rw [heq]⟩
    slots := hfrees.slots
    left := hfrees.left
    color := hfrees.color
    cycle := hfrees.cycle
    work := hfrees.work
    snapshot := fun x hx hne => by
      have hmem : x ∈ (vm.gc.roots.drop vm.gc.rootCursor).filter
          fun y => decide (y ≠ new.reference) := List.mem_filter.mpr ⟨hx, by simpa using hne⟩
      rw [← drop_filter_sub_countP _ (fun y => decide (y = new.reference)) (fun y => by simp)]
        at hmem
      exact hmem
    scanned := hfrees.scanned
    unscanned := hfrees.unscanned }

end Publish

/-! ### The allocation -/

/-- A new object in use: its reference is newer than `vm`, it is stored, and if it is an upvalue it
    is an open one. -/
structure Vm.Allocates (vm : Vm) (parent : Option ObjectRef) (payload : HeapPayload)
    (reference : ObjectRef) (vm' : Vm) : Prop where
  token : ∃ t, reference.runtimeToken = some t ∧ vm.nextToken ≤ t
  stored : ∃ o, vm'.checkedSlot reference = .ok o ∧ o.object.node? = (HeapObject.mk payload []).node?
  cell : payload = .node .upvalue parent.toList → vm'.Cell parent reference

section Allocate

variable {vm vm' : Vm} {parent : Option ObjectRef} {P O A : List RootEntry}

/-- A new object is taken back. -/
theorem Vm.Holds.rollback {before : Vm} {new : NewObject} {o : OccupiedSlot}
    (h : vm.Holds parent P O A) (ho : vm.occupied? new.index = some o)
    (href : o.reference = new.reference)
    (hlast : new.free = none → new.index + 1 = vm.slots.length)
    (hnew : ∀ k ∈ P ++ O, k.object ≠ new.reference) (honward : before.Onward vm) :
    ∃ vm', rollbackNewObject new vm = (.ok (), vm') ∧ vm'.Holds parent P O A
      ∧ before.Onward vm' := by
  obtain ⟨vm', hrun, htidy, hfrees, hremembered⟩ := rollbackNewObject_remembered h.tidy ho hlast
  have hid : new.reference.identity = some ⟨vm.id, new.index, o.generation⟩ :=
    href ▸ h.tidy.identity ho
  refine ⟨vm', hrun, ?_, honward.trans hfrees.onward⟩
  exact @Vm.Holds.freed _ _ _ _ _ _ _ ⟨vm.id, new.index, o.generation⟩ _ _ h hid
    (href ▸ h.tidy.checkedSlot_reference ho) hfrees htidy (fun r hr => hremembered ▸ hr) hnew

/-- **An allocation keeps the roots in use and the open upvalues**, with the slices of the collector
    it runs, and whether it succeeds or fails. -/
theorem Vm.Holds.allocate (h : vm.Holds parent P O A) (payload : HeapPayload)
    (chargesFull collects : Bool) (collection : CollectorProgram) :
    (∃ r vm', allocatePayloadWithCharge payload chargesFull collects collection.run vm = (.ok r, vm')
        ∧ vm'.Holds parent P O A ∧ vm.Onward vm' ∧ vm.Allocates parent payload r vm')
      ∨ ∃ e vm', allocatePayloadWithCharge payload chargesFull collects collection.run vm
          = (.error e, vm') ∧ vm'.Holds parent P O A ∧ vm.Onward vm' := by
  unfold allocatePayloadWithCharge attemptAllocation
  rcases publishObject_cases payload h.tidy with ⟨e, l, hpublish⟩ | ⟨new, l, hpublish, hp⟩
  · refine .inr ⟨e, _, ?_, h.ledger l, .of_slots rfl rfl rfl⟩
    rw [Prog.bind_apply_error (Prog.bind_apply_error hpublish)]
  -- the object is stored
  have hledger := h.ledger l
  have hpublished := hledger.published hp
  have hocc := (hp.occupied? new.index).trans (if_pos rfl)
  have honward : vm.Onward (Vm.published { vm with ledger := l } new payload) :=
    ⟨hp.onward.id, hp.onward.token, hp.onward.occupied⟩
  have hnew : ∀ k ∈ P ++ O, k.object ≠ new.reference := fun k hk =>
    hp.reference_ne (hledger.resolves hk)
  have htoken : ∃ t, new.reference.runtimeToken = some t ∧ vm.nextToken ≤ t :=
    ⟨vm.nextToken, hp.token, Nat.le_refl _⟩
  have hcell : payload = .node .upvalue parent.toList →
      (Vm.published { vm with ledger := l } new payload).Cell parent new.reference := by
    rintro rfl
    exact hp.cell hledger.tidy hledger.allocated
  rw [Prog.bind_apply, Prog.bind_apply_ok hpublish]
  by_cases hfull : (new.free.isNone && chargesFull) = true
  · -- there is no room for its charge
    rw [if_pos hfull]
    obtain ⟨vm', hrun, hholds, honward'⟩ := hpublished.rollback hocc rfl hp.last hnew honward
    refine .inr ⟨.allocationFailed, vm', ?_, hholds, honward'⟩
    exact (Prog.bind_apply_ok (show Prog.when (false = true) _ _ = (.ok (), _) from rfl)).trans
      ((Prog.bind_apply_ok hrun).trans rfl)
  rw [if_neg hfull]
  by_cases hcollects : collects = true
  case neg =>
    rw [if_neg hcollects]
    exact .inl ⟨_, _, rfl, hpublished, honward, htoken,
      ⟨_, hpublished.tidy.checkedSlot_reference hocc, rfl⟩, hcell⟩
  rw [if_pos hcollects]
  unfold collectRooted
  rcases hpublished.addRoot .temporary new.reference with
    ⟨root, rooted, hroot, hrooted, hshelter, hsame⟩ | ⟨e, failed, hroot, hholds, hsame⟩
  case inr =>
    -- the object cannot be rooted
    rcases addRootEntry_cases hpublished.tidy .temporary new.reference none with
      ⟨e', l', roots, hroot', -⟩ | ⟨_, _, _, _, _, -, -, -, -, hroot'⟩
    case inr => cases hroot.symm.trans hroot'
    obtain ⟨rfl, rfl⟩ : e = e' ∧ failed = _ := by simpa using hroot.symm.trans hroot'
    obtain ⟨vm', hrun, hholds', honward'⟩ := hholds.rollback hocc rfl hp.last hnew
      (honward.trans hsame.shrinks.descends.onward)
    refine .inr ⟨e, vm', ?_, hholds', honward'⟩
    rw [hroot]
    exact (Prog.bind_apply_ok (show Prog.when (false = true) _ _ = (.ok (), _) from rfl)).trans
      ((Prog.bind_apply_ok hrun).trans rfl)
  -- the root keeps the object in its slot while the collection runs
  have htemporary : rooted.Holds parent (⟨root, .temporary, new.reference, none⟩ :: P) O
      (⟨root, .temporary, new.reference, none⟩ :: A) :=
    { hrooted with
      kept := fun k hk => by
        rcases List.mem_cons.mp hk with rfl | hk
        · exact ⟨List.mem_cons_self, rfl, hshelter⟩
        · exact hrooted.kept k hk
      inUse := fun p hparent => by
        obtain ⟨k, hk, hobject⟩ := h.inUse p hparent
        exact ⟨k, List.mem_cons_of_mem _ hk, hobject⟩ }
  obtain ⟨hswept, hdescends, hcells⟩ := htemporary.collected collection
  obtain ⟨o, hres⟩ := hswept.resolves (List.mem_cons_self)
  have hresult : (collection.run rooted).2.Holds parent P O
      (⟨root, .temporary, new.reference, none⟩ :: A) :=
    { hswept with
      kept := fun k hk => hswept.kept k (List.mem_cons_of_mem _ hk)
      inUse := h.inUse }
  obtain ⟨vm', hremove, hholds, roots, hroots⟩ := hresult.removeRoot fun k hk => (h.kept k hk).1
  rw [hroot]
  rcases hcollected : collection.run rooted with ⟨collected, swept⟩
  rw [hcollected] at hremove hroots hdescends hcells hres
  simp only at hremove hroots hdescends hcells hres
  simp only [hcollected, hremove]
  have honward' : vm.Onward vm' := by
    subst hroots
    have hswept' := honward.trans (hsame.shrinks.descends.trans hdescends).onward
    exact ⟨hswept'.id, hswept'.token, hswept'.occupied⟩
  have hres' : vm'.checkedSlot new.reference = .ok o := by
    subst hroots
    exact hres
  cases collected with
  | ok u =>
    refine .inl ⟨new.reference, vm', rfl, hholds, honward', htoken, ⟨o, hres', ?_⟩, fun hp' => ?_⟩
    · obtain ⟨o₀, hres₀, hd⟩ := (hsame.shrinks.descends.trans hdescends).checkedSlot hres
      have hstored := hpublished.tidy.checkedSlot_reference hocc
      rw [show (new.occupied payload).reference = new.reference from rfl, hres₀] at hstored
      rw [hd.node, Except.ok.inj hstored]
      rfl
    · have hswept' := hcells _ ((hcell hp').of_shrinks hsame.shrinks)
      subst hroots
      exact ⟨hswept'.node, hswept'.unremembered, hswept'.outlived⟩
  | error e =>
    -- the object is taken off the lists and back
    obtain ⟨id, hid, hocc', href⟩ := Vm.occupied_of_checkedSlot hres'
    rw [hp.reference] at hid
    obtain rfl := Option.some.inj hid
    have hlast : new.free = none → new.index + 1 = vm'.slots.length := by
      intro hfree
      rw [hp.last hfree, hroots, ← hsame.shrinks.length]
      exact hdescends.length.symm
    rcases removeUnpublishedGcReference_iff vm' new.reference with
      ⟨-, l', gc', hunlink, hgc⟩ | ⟨-, e', l', hunlink⟩
    · obtain ⟨hfrees, hremembered⟩ := hholds.tidy.frees_without hocc' href hlast hgc l'
      have hlists := hgc
      obtain ⟨_, hgc'⟩ := hlists
      have hrollback := @rollbackNewObject_eq { vm' with ledger := l', gc := gc' }
        (by rw [hgc']; exact hholds.tidy.growth)
        (fun hpause => by
          rw [hgc'] at hpause ⊢
          refine ⟨(hholds.tidy.pause hpause).1, ?_⟩
          show List.filter _ vm'.gc.work = []
          rw [hholds.tidy.idle hpause]
          rfl) new
      refine .inr ⟨e, _, (Prog.bind_apply_ok hunlink).trans ((Prog.bind_apply_ok hrollback).trans rfl),
        ?_, honward'.trans hfrees.onward⟩
      exact @Vm.Holds.freed _ _ _ _ _ _ new.reference ⟨vm'.id, new.index, o.generation⟩ _ _ hholds
        (href ▸ hholds.tidy.identity hocc') hres' hfrees
        (hholds.tidy.rolledBack_without hocc' href hlast hgc l') hremembered hnew
    · refine .inr ⟨e', _, ?_, hholds.ledger l',
        honward'.trans (.of_slots rfl rfl rfl)⟩
      exact Prog.bind_apply_error hunlink

end Allocate

end RivetLua.Runtime
