import RivetLua.Runtime.SlotBookkeeping

namespace RivetLua.Runtime

open RivetLua.Core RivetLua.Gc StateProg

/-!
# Runtime — taking an allocation back

* `rollbackNewObject_spec` — a publication is undone.  An appended slot is given back by
  dropping the last one, so it has to be the last one;
* `rollbackUnpublishedCreatedObject_spec` — the sibling for objects created inside a
  transaction tests this, and drops the slot only then.
-/

section Rollback

variable {vm : Vm} {new : NewObject} {o : OccupiedSlot}

/-- The collector state when the object in `index` is taken back. -/
def GcState.takenBack (gc : GcState) (index : Nat) : GcState :=
  ((GcState.released { gc with
    work := gc.work.filter fun object => !ObjectRef.inSlot object index } index).retireOrFree index true)

/-- The VM after a rollback. -/
def Vm.rolledBack (vm : Vm) (new : NewObject) : Vm :=
  match new.free with
  | some _ =>
    { vm with
      slots := vm.slots.set new.index (.free new.generation)
      gc := GcState.takenBack vm.gc new.index }.retreatGcScanEnd
  | none =>
    { vm with
      slots := vm.slots.dropLast
      gc := (GcState.takenBack vm.gc new.index).truncateSlotPages
        vm.slots.dropLast.length }.retreatGcScanEnd

/-- Without work and growth there is nothing to give back. -/
theorem GcState.takenBack_of_idle {gc : GcState} (hgrowth : gc.growthCharges = [])
    (hwork : gc.work = []) (index : Nat) : GcState.takenBack gc index = gc.retireOrFree index true := by
  have hfiltered : { gc with
      work := gc.work.filter fun object => !ObjectRef.inSlot object index } = gc := by
    have hfilter : (gc.work.filter fun object => !ObjectRef.inSlot object index) = gc.work := by
      rw [hwork]
      rfl
    rw [hfilter]
  unfold GcState.takenBack
  rw [hfiltered]
  unfold GcState.released
  rw [hgrowth]
  rfl

/-- A rollback never fails. -/
theorem rollbackNewObject_eq (hgrowth : vm.gc.growthCharges.length ≤ vm.gc.workCapacity ∧
      vm.gc.growthCharges.length * objectRefSize ≤ vm.gc.charge)
    (hpause : vm.gc.phase = .pause → vm.gc.growthCharges = [] ∧ vm.gc.work = [])
    (new : NewObject) : rollbackNewObject new vm = (.ok (), vm.rolledBack new) := by
  unfold rollbackNewObject
  rw [Prog.bind_apply_ok (Prog.get_apply vm)]
  by_cases hp : vm.gc.phase = .pause
  · rw [if_neg (not_not.mpr hp)]
    have hgc := GcState.takenBack_of_idle (hpause hp).1 (hpause hp).2 new.index
    unfold Vm.rolledBack
    rw [hgc]
    cases hf : new.free <;> rfl
  · rw [if_pos hp]
    have hrel := @releaseGcGrowthForSlot_eq { vm with
      gc := { vm.gc with
        work := vm.gc.work.filter fun object => !ObjectRef.inSlot object new.index } }
      new.index hgrowth
    refine (Prog.bind_apply_ok (Prog.modify_apply _ vm)).trans ((Prog.bind_apply_ok hrel).trans ?_)
    unfold Vm.rolledBack
    cases hf : new.free <;> rfl

/-- Giving capacity back touches the capacity and its charges only. -/
theorem GcState.released_eq (gc : GcState) (index : Nat) :
    ∃ charge capacity growth, GcState.released gc index = { gc with
      charge := charge, workCapacity := capacity, growthCharges := growth } := by
  unfold GcState.released
  split
  · exact ⟨_, _, _, rfl⟩
  · exact ⟨_, _, _, rfl⟩

/-- Capacity is given back before or after the slot is freed. -/
theorem GcState.retireOrFree_released (gc : GcState) (index : Nat) (reusable : Bool) :
    (GcState.released gc index).retireOrFree index reusable
      = GcState.released (gc.retireOrFree index reusable) index := by
  have hsame : (gc.retireOrFree index reusable).growthCharges = gc.growthCharges := rfl
  unfold GcState.released
  rw [hsame]
  cases gc.growthCharges.findIdx? fun slot => decide (slot = index) <;> rfl

/-- An object of the work list that is in slot `i` is the one stored there. -/
theorem Vm.TidyWith.eq_of_inSlot (h : vm.Tidy) {i : Nat} (ho : vm.occupied? i = some o)
    {x : ObjectRef} (hx : x ∈ vm.gc.work) (hslot : ObjectRef.inSlot x i = true) : x = o.reference := by
  obtain ⟨j, s, hs, rfl, -⟩ := (h.gray x).mp (List.mem_append_left _ hx)
  rw [ObjectRef.inSlot, h.identity hs] at hslot
  obtain rfl : j = i := by simpa using hslot
  rw [hs, Option.some.injEq] at ho
  rw [ho]

theorem Vm.TidyWith.occupiedCount_pos {hole : List ObjectRef} (h : vm.TidyWith hole) {i : Nat}
    (ho : vm.occupied? i = some o) : 0 < vm.gc.occupiedCount := by
  rw [h.count, List.countP_pos_iff]
  exact ⟨_, List.mem_of_getElem? (Vm.occupied?_eq_some.mp ho), rfl⟩

/-- The slot of a new object is freed, with its generation. -/
theorem Vm.TidyWith.takenBack (h : vm.Tidy) {i : Nat} (ho : vm.occupied? i = some o)
    (g : Generation) :
    Vm.Tidy { vm with slots := vm.slots.set i (.free g), gc := GcState.takenBack vm.gc i } := by
  unfold GcState.takenBack
  rw [GcState.retireOrFree_released]
  have hfiltered : Vm.TidyWith (vm.gc.work.filter fun object => ObjectRef.inSlot object i) { vm with
      gc := { vm.gc with work := vm.gc.work.filter fun object => !ObjectRef.inSlot object i } } :=
    h.filterWork _ rfl rfl ⟨rfl, rfl, rfl, rfl⟩ rfl h.remembered
  have hfreed := hfiltered.freed (.free g) true ho ?_ ?_ (.inl ⟨g, rfl, rfl⟩)
  · refine hfreed.released i fun hp => ?_
    have hcap := h.capacity hp
    have hpos := h.occupiedCount_pos ho
    show vm.gc.occupiedCount - 1 < vm.gc.workCapacity
    omega
  · intro hmem
    have hin : ObjectRef.inSlot o.reference i = false := by
      simpa using (List.mem_filter.mp hmem).2
    rw [ObjectRef.inSlot, h.identity ho] at hin
    simp at hin
  · intro x hx
    obtain ⟨hx, hslot⟩ := List.mem_filter.mp hx
    exact h.eq_of_inSlot ho hx hslot

/-- The scan bound depends on the slots below it. -/
theorem retreatFrom_congr {slots slots' : List Slot} :
    ∀ {n : Nat}, (∀ j, j < n → slots[j]? = slots'[j]?) → retreatFrom slots n = retreatFrom slots' n
  | 0, _ => rfl
  | n + 1, h => by
    unfold retreatFrom
    rw [h n (Nat.lt_succ_self n), retreatFrom_congr fun j hj => h j (Nat.lt_succ_of_lt hj)]

/-- An occupied slot is below the scan bound. -/
theorem Vm.TidyWith.lt_scanEnd {hole : List ObjectRef} (h : vm.TidyWith hole) {i : Nat}
    (ho : vm.occupied? i = some o) : i < vm.gcScanEnd := by
  by_contra hge
  obtain ⟨g, hg⟩ := h.behind i (Nat.le_of_not_lt hge) (Vm.lt_of_occupied ho)
  rw [Vm.occupied?_eq_some.mp ho] at hg
  exact absurd hg (by simp)

/-- Dropping the last slot and lowering the scan bound commute when the slot is free. -/
theorem Vm.rolledBack_of_appended (h : vm.Tidy) (hf : new.free = none)
    (ho : vm.occupied? new.index = some o) (hlast : new.index + 1 = vm.slots.length) :
    vm.rolledBack new = Vm.popSlot (Vm.retreatGcScanEnd { vm with
      slots := vm.slots.set new.index (.free new.generation)
      gc := GcState.takenBack vm.gc new.index }) := by
  have hscan : vm.gcScanEnd = vm.slots.length :=
    le_antisymm h.scanEnd (by have := h.lt_scanEnd ho; omega)
  have hset : (vm.slots.set new.index (.free new.generation)).dropLast = vm.slots.dropLast := by
    rw [List.dropLast_eq_take, List.dropLast_eq_take, List.length_set, List.take_set_of_le (by omega)]
  have hget : (vm.slots.set new.index (.free new.generation))[new.index]?
      = some (.free new.generation) := by
    rw [List.getElem?_set_self (Vm.lt_of_occupied ho)]
  have hbound : retreatFrom (vm.slots.set new.index (.free new.generation)) vm.slots.length
      = retreatFrom vm.slots.dropLast new.index := by
    rw [← hlast, retreatFrom, hget]
    refine retreatFrom_congr fun j hj => ?_
    rw [List.getElem?_set_ne (by omega), List.getElem?_dropLast, if_pos (by omega)]
  unfold Vm.rolledBack Vm.popSlot Vm.retreatGcScanEnd
  simp only [hf, hset, hscan, List.length_set, min_self, hbound, List.length_dropLast]
  rw [min_eq_right (by omega), show vm.slots.length - 1 = new.index by omega]

/-- The bounds of the scan after an appended slot was freed. -/
theorem Vm.retreat_lt_of_free {i : Nat} {g : Generation} (hlast : i + 1 = vm.slots.length)
    (hget : vm.slots[i]? = some (.free g)) :
    vm.retreatGcScanEnd.gcScanEnd < vm.slots.length := by
  show retreatFrom vm.slots (min vm.gcScanEnd vm.slots.length) < vm.slots.length
  by_cases hlt : vm.gcScanEnd < vm.slots.length
  · exact lt_of_le_of_lt (retreatFrom_le _ _) (lt_of_le_of_lt (min_le_left _ _) hlt)
  · rw [min_eq_right (Nat.le_of_not_lt hlt), ← hlast, retreatFrom, hget]
    exact Nat.lt_succ_of_le (retreatFrom_le _ _)

theorem getElem?_dropLast_eq {slots : List Slot} {i : Nat} (hlast : i + 1 = slots.length) (j : Nat) :
    slots.dropLast[j]? = if j = i then none else slots[j]? := by
  rw [List.getElem?_dropLast]
  by_cases hj : j = i
  · rw [if_pos hj, if_neg (by omega)]
  · rw [if_neg hj]
    by_cases hlt : j < slots.length - 1
    · rw [if_pos hlt]
    · rw [if_neg hlt, List.getElem?_eq_none (by omega)]

/-- **Undoing a publication** frees the slot and keeps the bookkeeping, provided that an
    appended slot is still the last one. -/
theorem rollbackNewObject_spec (h : vm.Tidy) (ho : vm.occupied? new.index = some o)
    (hlast : new.free = none → new.index + 1 = vm.slots.length) :
    ∃ vm', rollbackNewObject new vm = (.ok (), vm') ∧ vm'.Tidy ∧
      vm.Frees new.index new.reference (new.free.map fun _ => .free new.generation) vm' := by
  have htidy := h.takenBack ho new.generation
  have hlt := Vm.lt_of_occupied ho
  have hbits : ∀ j, (GcState.takenBack vm.gc new.index).color j
      = if j = new.index then none else vm.gc.color j := by
    intro j
    unfold GcState.takenBack
    rw [GcState.color_retireOrFree]
    by_cases hj : j = new.index
    · rw [if_pos hj, if_pos hj]
    · rw [if_neg hj, if_neg hj]
      obtain ⟨_, _, _, hreleased⟩ := GcState.released_eq { vm.gc with
        work := vm.gc.work.filter fun object => !ObjectRef.inSlot object new.index } new.index
      rw [hreleased]
      rfl
  have hgc : ∀ {β : Type} (f : GcState → β), (∀ gc bits work count capacity charge growth,
      f { gc with
        slotBits := bits, work := work, occupiedCount := count, workCapacity := capacity
        charge := charge, growthCharges := growth } = f gc) →
      f (GcState.takenBack vm.gc new.index) = f vm.gc := by
    intro β f hf
    obtain ⟨_, _, _, hreleased⟩ := GcState.released_eq { vm.gc with
      work := vm.gc.work.filter fun object => !ObjectRef.inSlot object new.index } new.index
    unfold GcState.takenBack
    rw [hreleased]
    exact hf vm.gc _ _ _ _ _ _
  have hwork : ∀ x ∈ (GcState.takenBack vm.gc new.index).work, x ∈ vm.gc.work := by
    intro x hx
    obtain ⟨_, _, _, hreleased⟩ := GcState.released_eq { vm.gc with
      work := vm.gc.work.filter fun object => !ObjectRef.inSlot object new.index } new.index
    unfold GcState.takenBack at hx
    rw [hreleased] at hx
    exact (List.mem_filter.mp hx).1
  have hphase := hgc GcState.phase fun _ _ _ _ _ _ _ => rfl
  have hmode := hgc GcState.mode fun _ _ _ _ _ _ _ => rfl
  have hcycle := hgc GcState.cycle fun _ _ _ _ _ _ _ => rfl
  have hstage := hgc GcState.atomicFinalizerStage fun _ _ _ _ _ _ _ => rfl
  have hsweep := hgc GcState.sweepCursor fun _ _ _ _ _ _ _ => rfl
  have hroots := hgc (fun gc => gc.roots.drop gc.rootCursor) fun _ _ _ _ _ _ _ => rfl
  have heph := hgc GcState.ephemeronCursor fun _ _ _ _ _ _ _ => rfl
  refine ⟨_, rollbackNewObject_eq h.growth (fun hp => ⟨(h.pause hp).1, h.idle hp⟩) new, ?_⟩
  cases hf : new.free with
  | some i =>
    have heq : vm.rolledBack new = Vm.retreatGcScanEnd { vm with
        slots := vm.slots.set new.index (.free new.generation)
        gc := GcState.takenBack vm.gc new.index } := by
      simp only [Vm.rolledBack, hf]
    rw [heq]
    refine ⟨htidy.retreat, ⟨⟨_, _, _, _, rfl⟩, fun j => ?_, rfl, hbits,
      ⟨hphase, hmode, hcycle, hstage, hsweep⟩, hwork, fun x hx _ => ?_, fun j _ hj => ?_, ?_⟩⟩
    · show (vm.slots.set new.index (.free new.generation))[j]? = _
      rw [List.getElem?_set]
      by_cases hj : j = new.index
      · rw [if_pos hj, if_pos hj.symm, if_pos hlt]
        rfl
      · rw [if_neg hj, if_neg (Ne.symm hj)]
    · exact hroots ▸ hx
    · exact heph ▸ hj
    · exact heph.le
  | none =>
    have hlast := hlast hf
    rw [Vm.rolledBack_of_appended h hf ho hlast]
    have hget : (vm.slots.set new.index (.free new.generation))[new.index]?
        = some (.free new.generation) := by
      rw [List.getElem?_set_self hlt]
    have hgetLast : (vm.slots.set new.index (.free new.generation)).getLast?
        = some (.free new.generation) := by
      rw [List.getLast?_eq_getElem?, List.length_set, ← hlast, Nat.add_sub_cancel, hget]
    have hlast' : new.index + 1 = (vm.slots.set new.index (.free new.generation)).length := by
      rw [List.length_set]
      exact hlast
    have hretreat := htidy.retreat
    refine ⟨hretreat.pop hgetLast (Vm.retreat_lt_of_free hlast' hget), ?_⟩
    obtain ⟨bits, hpop⟩ := Vm.popSlot_gc (Vm.retreatGcScanEnd { vm with
      slots := vm.slots.set new.index (.free new.generation)
      gc := GcState.takenBack vm.gc new.index })
    refine ⟨⟨_, _, _, _, rfl⟩, fun j => ?_, rfl, fun j => ?_, ?_, ?_, fun x hx _ => ?_,
      fun j _ hj => ?_, ?_⟩
    · show (vm.slots.set new.index (.free new.generation)).dropLast[j]? = _
      rw [getElem?_dropLast_eq hlast', List.getElem?_set]
      by_cases hj : j = new.index
      · rw [if_pos hj, if_pos hj]
        rfl
      · rw [if_neg hj, if_neg hj, if_neg (Ne.symm hj)]
    · rw [hretreat.color_popSlot hgetLast]
      exact hbits j
    · rw [hpop]
      exact ⟨hphase, hmode, hcycle, hstage, hsweep⟩
    · rw [hpop]
      exact hwork
    · rw [hpop]
      exact hroots ▸ hx
    · rw [hpop]
      exact heph ▸ hj
    · rw [hpop]
      exact heph.le

end Rollback

section Created

variable {vm : Vm} {object : ObjectRef}

/-- The VM after the slot of a created object was dropped. -/
def Vm.uncreated (vm : Vm) : Vm :=
  { vm.popSlot with
    gc := { vm.popSlot.gc with
      ephemeronCursor := min vm.popSlot.gc.ephemeronCursor vm.gcScanEnd } }

theorem GcState.released_of_nil {gc : GcState} (h : gc.growthCharges = []) (index : Nat) :
    GcState.released gc index = gc := by
  unfold GcState.released
  rw [h]
  rfl

/-- The steps of `rollback_unpublished_created_object`, for an object that resolves. -/
theorem rollbackUnpublishedCreatedObject_cases (h : vm.Tidy) (object : ObjectRef)
    (previousSlots : Nat) (expectedKind : ObjectKind) :
    (∃ e l, rollbackUnpublishedCreatedObject object previousSlots expectedKind vm
      = (.error e, { vm with ledger := l })) ∨
    (∃ id o l gc', object.identity = some id ∧ vm.checkedSlot object = .ok o ∧
      GcState.Without vm.gc object gc' ∧
      rollbackUnpublishedCreatedObject object previousSlots expectedKind vm =
        (.ok (),
          if id.slot = previousSlots ∧ previousSlots + 1 = vm.slots.length then
            Vm.uncreated { Vm.reclaimed { vm with ledger := l, gc := gc' } id with
              gc := GcState.released (Vm.reclaimed { vm with ledger := l, gc := gc' } id).gc id.slot }
          else { Vm.reclaimed { vm with ledger := l, gc := gc' } id with
              gc := GcState.released (Vm.reclaimed { vm with ledger := l, gc := gc' } id).gc id.slot })) := by
  unfold rollbackUnpublishedCreatedObject
  rw [Prog.bind_apply_ok (Prog.get_apply vm)]
  cases hkind : vm.objectKind object with
  | error e => exact .inl ⟨e, vm.ledger, rfl⟩
  | ok kind =>
    rw [Prog.bind_apply_ok (show Prog.ofExcept (.ok kind) vm = (.ok kind, vm) from rfl)]
    by_cases hne : kind ≠ expectedKind
    · rw [if_pos hne]
      exact .inl ⟨_, vm.ledger, rfl⟩
    · rw [if_neg hne]
      have hres : ∃ o, vm.checkedSlot object = .ok o := by
        unfold Vm.objectKind at hkind
        cases hc : vm.checkedSlot object with
        | error e => simp [hc, Except.map] at hkind
        | ok o => exact ⟨o, rfl⟩
      obtain ⟨o, hres⟩ := hres
      rcases reclaimUnpublishedObject_cases h object with
        ⟨e, l, gc', hrun, hgc⟩ | ⟨id, o', l, gc', hid, hres', hgc, hrun⟩
      · rcases hgc with rfl | ⟨-, hstale⟩
        · refine .inl ⟨e, l, ?_⟩
          obtain ⟨id, hid, -⟩ := Vm.checkedSlot_eq_ok.mp hres
          rw [hid]
          exact (Prog.bind_apply_ok rfl).trans (Prog.bind_apply_error hrun)
        · exact absurd hres (hstale o)
      · refine .inr ⟨id, o', l, gc', hid, hres', hgc, ?_⟩
        have htidy := h.reclaimed_without hid hres' hgc l
        generalize Vm.reclaimed { vm with ledger := l, gc := gc' } id = vm₁ at hrun htidy ⊢
        have hrel := releaseGcGrowthForSlot_eq id.slot htidy.growth
        rw [hid]
        refine (Prog.bind_apply_ok rfl).trans ((Prog.bind_apply_ok hrun).trans
          ((Prog.bind_apply_ok (Prog.get_apply _)).trans ?_))
        by_cases happ : id.slot = previousSlots ∧ previousSlots + 1 = vm.slots.length
        · have hcond : (decide (id.slot = previousSlots) &&
              decide (previousSlots + 1 = vm.slots.length)) = true := by simp [happ]
          rw [if_pos happ, hcond]
          by_cases hp : vm₁.gc.phase = .pause
          · rw [if_neg (not_not.mpr hp), GcState.released_of_nil (htidy.pause hp).1]
            rfl
          · rw [if_pos hp]
            exact (Prog.bind_apply_ok hrel).trans rfl
        · have hcond : (decide (id.slot = previousSlots) &&
              decide (previousSlots + 1 = vm.slots.length)) = false := by
            simpa using happ
          rw [if_neg happ, hcond]
          by_cases hp : vm₁.gc.phase = .pause
          · rw [if_neg (not_not.mpr hp), GcState.released_of_nil (htidy.pause hp).1]
            rfl
          · rw [if_pos hp]
            exact (Prog.bind_apply_ok hrel).trans rfl

/-- A further change of the collector state. -/
theorem Vm.Frees.of_gc {vm' : Vm} {i : Nat} {left : Option Slot} (h : vm.Frees i object left vm')
    {gc : GcState} (hbits : ∀ j, gc.color j = vm'.gc.color j)
    (hcycle : gc.phase = vm'.gc.phase ∧ gc.mode = vm'.gc.mode ∧ gc.cycle = vm'.gc.cycle ∧
      gc.atomicFinalizerStage = vm'.gc.atomicFinalizerStage ∧ gc.sweepCursor = vm'.gc.sweepCursor)
    (hwork : gc.work = vm'.gc.work)
    (hroots : gc.roots.drop gc.rootCursor = vm'.gc.roots.drop vm'.gc.rootCursor)
    (hscanned : ∀ j, (vm'.occupied? j).isSome → j < vm'.gc.ephemeronCursor → j < gc.ephemeronCursor)
    (hunscanned : gc.ephemeronCursor ≤ vm'.gc.ephemeronCursor) :
    vm.Frees i object left { vm' with gc := gc } := by
  obtain ⟨h1, h2, h3, h4, h5⟩ := hcycle
  obtain ⟨slots, scanEnd, ledger, gc', rfl⟩ := h.frame
  exact {
    frame := ⟨slots, scanEnd, ledger, gc, rfl⟩
    slots := h.slots
    left := h.left
    color := fun j => (hbits j).trans (h.color j)
    cycle := by
      obtain ⟨k1, k2, k3, k4, k5⟩ := h.cycle
      exact ⟨h1.trans k1, h2.trans k2, h3.trans k3, h4.trans k4, h5.trans k5⟩
    work := fun x hx => h.work x (hwork ▸ hx)
    snapshot := fun x hx hne => hroots ▸ h.snapshot x hx hne
    scanned := fun j ho hj => hscanned j ho (h.scanned j ho hj)
    unscanned := hunscanned.trans h.unscanned }

/-- The freed slot is dropped when it is the last one. -/
theorem Vm.Frees.pop {vm' : Vm} {i : Nat} {left : Option Slot} {g : Generation}
    (h : vm.Frees i object left vm') (ht : vm'.Tidy)
    (hlast : vm'.slots.getLast? = some (.free g)) (hi : i + 1 = vm'.slots.length) :
    vm.Frees i object none vm'.popSlot := by
  obtain ⟨bits, hgc⟩ := vm'.popSlot_gc
  obtain ⟨slots, scanEnd, ledger, gc', heq⟩ := h.frame
  exact {
    frame := ⟨vm'.popSlot.slots, scanEnd, ledger, vm'.popSlot.gc, by rw [heq]; rfl⟩
    slots := fun j => by
      show vm'.slots.dropLast[j]? = _
      rw [getElem?_dropLast_eq hi, h.slots]
      by_cases hj : j = i
      · rw [if_pos hj, if_pos hj]
      · rw [if_neg hj, if_neg hj, if_neg hj]
    left := rfl
    color := fun j => (ht.color_popSlot hlast j).trans (h.color j)
    cycle := by rw [hgc]; exact h.cycle
    work := by rw [hgc]; exact h.work
    snapshot := by rw [hgc]; exact h.snapshot
    scanned := by
      intro j ho hj
      rw [Vm.occupied?_popSlot hlast] at ho
      rw [hgc]
      exact h.scanned j ho hj
    unscanned := by rw [hgc]; exact h.unscanned }

/-- **Undoing the creation of an object** frees its slot.  The slot is dropped only when it was
    appended by the creation and is still the last one. -/
theorem rollbackUnpublishedCreatedObject_spec (h : vm.Tidy) (object : ObjectRef)
    (previousSlots : Nat) (expectedKind : ObjectKind)
    (hnew : ∀ id, object.identity = some id → id.slot = previousSlots → id.generation = ⟨0⟩) :
    (∃ e l, rollbackUnpublishedCreatedObject object previousSlots expectedKind vm
      = (.error e, { vm with ledger := l })) ∨
    (∃ id o vm' left, object.identity = some id ∧ vm.checkedSlot object = .ok o ∧
      rollbackUnpublishedCreatedObject object previousSlots expectedKind vm = (.ok (), vm') ∧
      vm'.Tidy ∧ vm.Frees id.slot object left vm' ∧
      (left = some (reclaimedSlot id) ∨
        (left = none ∧ id.slot + 1 = vm.slots.length ∧ id.generation = ⟨0⟩))) := by
  rcases rollbackUnpublishedCreatedObject_cases h object previousSlots expectedKind with
    herr | ⟨id, o, l, gc', hid, hres, hgc, hrun⟩
  · exact .inl herr
  · obtain ⟨id', hid', hocc, -⟩ := Vm.occupied_of_checkedSlot hres
    obtain rfl : id = id' := by simpa [hid] using hid'
    have htidy := h.reclaimed_without hid hres hgc l
    have hfrees := Vm.frees_reclaimed hocc hgc l
    have hroom : (Vm.reclaimed { vm with ledger := l, gc := gc' } id).gc.phase ≠ .pause →
        (Vm.reclaimed { vm with ledger := l, gc := gc' } id).gc.occupiedCount
          < (Vm.reclaimed { vm with ledger := l, gc := gc' } id).gc.workCapacity := by
      intro hp
      rw [hfrees.cycle.1] at hp
      have hcap := h.capacity hp
      have hpos := h.occupiedCount_pos hocc
      obtain ⟨_, rfl⟩ := hgc
      show vm.gc.occupiedCount - 1 < vm.gc.workCapacity
      omega
    have hslots : (Vm.reclaimed { vm with ledger := l, gc := gc' } id).slots
        = vm.slots.set id.slot (reclaimedSlot id) := rfl
    have hscan : ∀ g, (Vm.reclaimed { vm with ledger := l, gc := gc' } id).slots[id.slot]?
          = some (.free g) → id.slot + 1 = vm.slots.length →
        (Vm.reclaimed { vm with ledger := l, gc := gc' } id).gcScanEnd < vm.slots.length := by
      intro g hg hlast
      have := @Vm.retreat_lt_of_free { vm with
        ledger := l
        slots := vm.slots.set id.slot (reclaimedSlot id)
        gc := gc'.retireOrFree id.slot id.generation.next.isSome } id.slot g
        (by rw [List.length_set]; exact hlast) hg
      rwa [List.length_set] at this
    generalize Vm.reclaimed { vm with ledger := l, gc := gc' } id = vm₁ at *
    -- the capacity the object's allocation added is given back
    have htidy₂ := htidy.released id.slot hroom
    have hfrees₂ : vm.Frees id.slot object (some (reclaimedSlot id))
        { vm₁ with gc := GcState.released vm₁.gc id.slot } := by
      obtain ⟨charge, capacity, growth, hgc⟩ := GcState.released_eq vm₁.gc id.slot
      rw [hgc]
      exact hfrees.of_gc (fun _ => rfl) ⟨rfl, rfl, rfl, rfl, rfl⟩ rfl rfl (fun _ _ hj => hj) le_rfl
    by_cases happ : id.slot = previousSlots ∧ previousSlots + 1 = vm.slots.length
    · rw [if_pos happ] at hrun
      have hgen := hnew id hid happ.1
      have hlast : id.slot + 1 = vm.slots.length := by omega
      have hget : vm₁.slots[id.slot]? = some (.free ⟨1⟩) := by
        rw [hslots, List.getElem?_set_self (by omega), reclaimedSlot, hgen]
        rfl
      have hlen : id.slot + 1 = vm₁.slots.length := by rw [hslots, List.length_set]; exact hlast
      have hgetLast : vm₁.slots.getLast? = some (.free ⟨1⟩) := by
        rw [List.getLast?_eq_getElem?, ← hlen, Nat.add_sub_cancel, hget]
      have hpop := @Vm.TidyWith.pop { vm₁ with gc := GcState.released vm₁.gc id.slot } _ _ hgetLast
        htidy₂ (by rw [← hlen, hlast]; exact hscan _ hget hlast)
      refine .inr ⟨id, o, _, none, hid, hres, hrun, ?_, ?_, .inr ⟨rfl, hlast, hgen⟩⟩
      · exact hpop.of_gc_same rfl rfl ⟨rfl, rfl, rfl, rfl⟩ Iff.rfl hpop.remembered
      · refine (hfrees₂.pop htidy₂ hgetLast hlen).of_gc (fun _ => rfl) ⟨rfl, rfl, rfl, rfl, rfl⟩
          rfl rfl (fun j hj hlt => lt_min hlt ?_) (min_le_left _ _)
        obtain ⟨o', ho'⟩ := Option.isSome_iff_exists.mp hj
        exact hpop.lt_scanEnd ho'
    · rw [if_neg happ] at hrun
      exact .inr ⟨id, o, _, _, hid, hres, hrun, htidy₂, hfrees₂, .inl rfl⟩

end Created

end RivetLua.Runtime
