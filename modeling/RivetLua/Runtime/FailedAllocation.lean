import RivetLua.Runtime.HeapActivity
import RivetLua.Runtime.TableRefinement

namespace RivetLua.Runtime

open RivetLua.Core RivetLua.Gc StateProg Relation

/-!
# Runtime — an allocation that fails

An allocation may fail after its object was stored: when the table of slot charges cannot grow,
when the object cannot be rooted, and when the collection it has to run stops.

* `attemptAllocation`, `allocatePayloadWithCharge` — the allocation, with the collection and its
  finalizers as a parameter;
* `SameHeap`, `Erased`, `LeavesNoTrace` — the heap afterwards is one without the object;
* `CleanFailure` — an appended slot is still the last one, the slot has no charge of an earlier
  object, and the object can be taken off the collector's lists;
* `leavesNoTrace_iff` — one is the other, for every state and whatever the collection did.
-/

/-! ### The allocation -/

/-- How far an allocation got.  A failure comes with the object to take back; `unlink` when the
    collector may know it. -/
inductive Attempt where
  | done (reference : ObjectRef)
  | failed (new : NewObject) (error : VmError) (unlink : Bool)

/-- Run a collection with the new object as a temporary root. -/
def collectRooted (new : NewObject) (collection : VmM Unit) : VmM Attempt := fun vm =>
  match addRoot .temporary new.reference vm with
  | (.error e, vm) => (.ok (.failed new e false), vm)
  | (.ok root, vm) =>
    match collection vm with
    | (collected, vm) =>
      match removeRoot root vm, collected with
      | (.error e, vm), _ => (.ok (.failed new e true), vm)
      | (.ok _, vm), .error e => (.ok (.failed new e true), vm)
      | (.ok _, vm), .ok _ => (.ok (.done new.reference), vm)

/-- `allocate_payload_with_charge` up to its end or to a failure that has to be undone.
    `chargesFull`: there is no room for one more slot charge; `collects`: the allocation is due for
    a collection. -/
def attemptAllocation (payload : HeapPayload) (chargesFull collects : Bool)
    (collection : VmM Unit) : VmM Attempt := do
  let new ← publishObject payload
  if new.free.isNone && chargesFull then pure (.failed new .allocationFailed false)
  else if collects then collectRooted new collection
  else pure (.done new.reference)

/-- `allocate_payload_with_charge`. -/
def allocatePayloadWithCharge (payload : HeapPayload) (chargesFull collects : Bool)
    (collection : VmM Unit) : VmM ObjectRef := do
  match ← attemptAllocation payload chargesFull collects collection with
  | .done reference => pure reference
  | .failed new error unlink => do
    Prog.when (unlink = true) (removeUnpublishedGcReference new.reference)
    rollbackNewObject new
    Prog.fail error

/-! ### No trace -/

/-- Nothing but the ledger, the root table and the token counter differs; growth charges may be in
    another order. -/
structure SameHeap (vm vm' : Vm) : Prop where
  slots : vm'.slots = vm.slots
  occupied : ∀ j, vm'.gc.occupiedBit j = vm.gc.occupiedBit j
  free : ∀ j, vm'.gc.freeBit j = vm.gc.freeBit j
  color : ∀ j, vm'.gc.color j = vm.gc.color j
  count : vm'.gc.occupiedCount = vm.gc.occupiedCount
  work : vm'.gc.work = vm.gc.work
  roots : vm'.gc.roots = vm.gc.roots ∧ vm'.gc.rootCursor = vm.gc.rootCursor
  growth : vm'.gc.growthCharges.Perm vm.gc.growthCharges

/-- Is an appended slot still the last one? -/
def NewObject.isLast (new : NewObject) (vm : Vm) : Bool :=
  new.free.isNone && decide (new.index + 1 = vm.slots.length)

/-- The object is gone, and nothing else: its slot is free again, or dropped if it was appended
    and nothing came after it.  `grew`: the allocation has charged one more reference of work. -/
structure Erased (new : NewObject) (grew : Bool) (vm vm' : Vm) : Prop where
  others : ∀ j, j ≠ new.index → vm'.slots[j]? = vm.slots[j]?
  slot : vm'.slots[new.index]? = if new.isLast vm then none else some (.free new.generation)
  occupied : ∀ j, vm'.gc.occupiedBit j = (vm.gc.occupiedBit j && !decide (j = new.index))
  free : ∀ j, vm'.gc.freeBit j = if j = new.index then !new.isLast vm else vm.gc.freeBit j
  color : ∀ j, vm'.gc.color j = if j = new.index then none else vm.gc.color j
  count : vm'.gc.occupiedCount + 1 = vm.gc.occupiedCount
  work : vm'.gc.work = vm.gc.work.filter fun object => decide (object ≠ new.reference)
  roots : vm'.gc.roots = vm.gc.roots.filter fun object => decide (object ≠ new.reference)
  pending : vm'.gc.roots.drop vm'.gc.rootCursor
    = (vm.gc.roots.drop vm.gc.rootCursor).filter fun object => decide (object ≠ new.reference)
  growth : vm'.gc.growthCharges.Perm
    (if grew then vm.gc.growthCharges.erase new.index else vm.gc.growthCharges)

/-- The ledger does not refuse the smaller remembered set. -/
def Vm.Unlinks (vm : Vm) (reference : ObjectRef) : Prop :=
  reference ∈ vm.gc.remembered → ((do
    let _ ← checkedBytes (vm.gc.remembered.length - 1) objectRefSize
    checkpoint .rememberedReserve : LedgerM Unit) vm.ledger).1 = .ok ()

section

variable (payload : HeapPayload) (chargesFull collects : Bool) (collection : VmM Unit)

/-- Before the collection starts the heap is the one the allocation found; afterwards it is what
    the collection left, without the object. -/
def LeavesNoTrace (vm vm' : Vm) : Prop :=
  match attemptAllocation payload chargesFull collects collection vm with
  | (.ok (.failed new _ true), failed) => Erased new vm.needsWorkGrowth failed vm'
  | (.ok (.failed _ _ false), _) => SameHeap vm vm'
  | (.ok (.done _), _) => True
  | (.error _, _) => SameHeap vm vm'

/-- At the failure an appended slot is the last one, the slot has no growth charge but the one of
    this allocation, and the ledger lets the reference go. -/
def CleanFailure (vm : Vm) : Prop :=
  match attemptAllocation payload chargesFull collects collection vm with
  | (.ok (.failed new _ unlink), failed) =>
    (new.free = none → new.index + 1 = failed.slots.length)
      ∧ (vm.needsWorkGrowth = false → new.index ∉ failed.gc.growthCharges)
      ∧ (unlink = true → failed.Unlinks new.reference)
  | _ => True

/-- The collection consists of operations on the heap. -/
def Nested [DefaultHasher] (vm : Vm) : Prop :=
  ∀ new root published rooted, publishObject payload vm = (.ok new, published) →
    addRoot .temporary new.reference published = (.ok root, rooted) →
    ReflTransGen (HeapStep ⟨root, .temporary, new.reference, none⟩) rooted (collection rooted).2

end

/-! ### What a rollback leaves -/

section Rollback

variable {vm : Vm} {new : NewObject} {o : OccupiedSlot}

/-- The lists and counters after a rollback. -/
theorem Vm.rolledBack_gc (vm : Vm) (new : NewObject) :
    (vm.rolledBack new).gc.work
        = vm.gc.work.filter (fun object => !ObjectRef.inSlot object new.index)
      ∧ (vm.rolledBack new).gc.roots = vm.gc.roots
      ∧ (vm.rolledBack new).gc.rootCursor = vm.gc.rootCursor
      ∧ (vm.rolledBack new).gc.remembered = vm.gc.remembered
      ∧ (vm.rolledBack new).gc.occupiedCount = vm.gc.occupiedCount - 1
      ∧ (vm.rolledBack new).gc.growthCharges = (GcState.released vm.gc new.index).growthCharges := by
  have htruncate : ∀ (gc : GcState) (n : Nat), ∃ bits, gc.truncateSlotPages n
      = { gc with slotBits := bits } := by
    intro gc n
    unfold GcState.truncateSlotPages
    split
    · exact ⟨_, rfl⟩
    · exact ⟨_, rfl⟩
  have hgc : ∃ bits, (vm.rolledBack new).gc
      = { GcState.takenBack vm.gc new.index with slotBits := bits } := by
    unfold Vm.rolledBack
    cases new.free with
    | some i => exact ⟨_, rfl⟩
    | none => exact htruncate _ _
  obtain ⟨bits, hgc⟩ := hgc
  rw [hgc]
  unfold GcState.takenBack GcState.released
  cases vm.gc.growthCharges.findIdx? fun slot => decide (slot = new.index) with
  | none => exact ⟨rfl, rfl, rfl, rfl, rfl, rfl⟩
  | some position => exact ⟨rfl, rfl, rfl, rfl, rfl, rfl⟩

/-- Giving growth back drops one charge of the slot. -/
theorem GcState.released_growth (gc : GcState) (index : Nat) :
    (GcState.released gc index).growthCharges.Perm (gc.growthCharges.erase index) := by
  unfold GcState.released
  cases hfind : gc.growthCharges.findIdx? fun slot => decide (slot = index) with
  | none =>
    rw [List.findIdx?_eq_none_iff] at hfind
    rw [List.erase_of_not_mem fun hmem => by simpa using hfind index hmem]
  | some position =>
    obtain ⟨hlt, hindex, -⟩ := List.findIdx?_eq_some_iff_getElem.mp hfind
    have hget : gc.growthCharges[position]? = some index := by
      rw [List.getElem?_eq_getElem hlt, of_decide_eq_true hindex]
    have hmem : index ∈ gc.growthCharges := List.mem_of_getElem? hget
    exact ((swapRemove_perm hget).symm.trans (List.perm_cons_erase hmem)).cons_inv

theorem Vm.rolledBack_spec (h : vm.Tidy) (ho : vm.occupied? new.index = some o)
    (hlast : new.free = none → new.index + 1 = vm.slots.length) :
    (vm.rolledBack new).Tidy
      ∧ vm.Frees new.index new.reference (new.free.map fun _ => .free new.generation)
        (vm.rolledBack new) := by
  obtain ⟨vm', hrun, htidy, hfrees⟩ := rollbackNewObject_spec h ho hlast
  rw [rollbackNewObject_eq h.growth (fun hp => ⟨(h.pause hp).1, h.idle hp⟩) new] at hrun
  cases hrun
  exact ⟨htidy, hfrees⟩

/-- An object that was taken off the lists of the collector makes no difference to the rollback but
    on these lists. -/
theorem Vm.rolledBack_without {gc' : GcState} {id : ObjectId}
    (hid : new.reference.identity = some id) (hslot : id.slot = new.index)
    (hgc : GcState.Without vm.gc new.reference gc') (l : Ledger) :
    Vm.rolledBack { vm with ledger := l, gc := gc' } new = { vm.rolledBack new with
      ledger := l
      gc := { (vm.rolledBack new).gc with
        remembered := gc'.remembered
        rememberedCursor := gc'.rememberedCursor
        roots := gc'.roots
        rootCursor := gc'.rootCursor } } := by
  obtain ⟨cursor, rfl⟩ := hgc
  have hwork : ((vm.gc.work.filter fun object => decide (object ≠ new.reference)).filter
        fun object => !ObjectRef.inSlot object new.index)
      = vm.gc.work.filter fun object => !ObjectRef.inSlot object new.index := by
    rw [List.filter_filter]
    refine List.filter_congr fun object _ => ?_
    by_cases hself : object = new.reference
    · simp [hself, ObjectRef.inSlot, hid, hslot]
    · simp [hself]
  unfold Vm.rolledBack GcState.takenBack
  simp only [hwork]
  unfold GcState.released
  cases vm.gc.growthCharges.findIdx? fun slot => decide (slot = new.index) <;> cases new.free
  all_goals
    simp only [GcState.truncateSlotPages]
    try split
    all_goals rfl

end Rollback

/-! ### Before the collection -/

section Fresh

variable {vm vm' : Vm} {new : NewObject} {payload : HeapPayload}

/-- The bits and counts of two tidy heaps with the same slots are the same. -/
theorem SameHeap.of_slots (h : vm.Tidy) (h' : vm'.Tidy) (hslots : vm'.slots = vm.slots)
    (hcolor : ∀ j, vm'.gc.color j = vm.gc.color j) (hwork : vm'.gc.work = vm.gc.work)
    (hroots : vm'.gc.roots = vm.gc.roots ∧ vm'.gc.rootCursor = vm.gc.rootCursor)
    (hgrowth : vm'.gc.growthCharges.Perm vm.gc.growthCharges) : SameHeap vm vm' where
  slots := hslots
  occupied := fun j => by
    rw [h'.occupied, h.occupied]
    unfold Vm.occupied?
    rw [hslots]
  free := fun j => by
    rw [Bool.eq_iff_iff, h'.free, h.free, hslots]
  color := hcolor
  count := by rw [h'.count, h.count, hslots]
  work := hwork
  roots := hroots
  growth := hgrowth

theorem SameHeap.ledger (vm : Vm) (l : Ledger) : SameHeap vm { vm with ledger := l } :=
  ⟨rfl, fun _ => rfl, fun _ => rfl, fun _ => rfl, rfl, rfl, ⟨rfl, rfl⟩, .refl _⟩

/-- An object in a slot that was not occupied is not on the work list. -/
theorem Vm.Publishes.work_filter (h : vm.Tidy) (hp : vm.Publishes new payload) :
    (vm.gc.work.filter fun object => !ObjectRef.inSlot object new.index) = vm.gc.work := by
  rw [List.filter_eq_self]
  intro object hobject
  obtain ⟨i, s, hs, rfl, -⟩ := (h.gray object).mp (List.mem_append_left _ hobject)
  have hne : i ≠ new.index := by
    rintro rfl
    rw [hp.occupied?_eq_none] at hs
    cases hs
  simp [ObjectRef.inSlot, h.identity hs, hne]

/-- **A new object that is taken back at once** leaves the heap as it was, up to a charge that an
    earlier object of the slot has left. -/
theorem Vm.Publishes.rolledBack_iff (h : vm.Tidy) (hp : vm.Publishes new payload) (l : Ledger)
    (roots : RootSet) :
    SameHeap vm (Vm.rolledBack { vm.published new payload with ledger := l, roots := roots } new)
      ↔ (vm.needsWorkGrowth = false →
        new.index ∉ (vm.published new payload).gc.growthCharges) := by
  have htidy := h.published hp
  have hbefore : Vm.Tidy { vm.published new payload with ledger := l, roots := roots } :=
    @SameHandles.tidy (vm.published new payload) _ [] ⟨rfl, rfl, rfl, rfl⟩ rfl htidy
  have hocc := (hp.occupied? new.index).trans (if_pos rfl)
  obtain ⟨hback, hfrees⟩ := Vm.rolledBack_spec hbefore hocc hp.last
  obtain ⟨hwork, hroots, hcursor, -, -, hgrowth⟩ := Vm.rolledBack_gc
    { vm.published new payload with ledger := l, roots := roots } new
  obtain ⟨-, -, hwork', -, -, hgrown⟩ := Vm.Publishes.gc_eq vm new payload
  have hsnapshot : (vm.published new payload).gc.roots = vm.gc.roots
      ∧ (vm.published new payload).gc.rootCursor = vm.gc.rootCursor := by
    obtain ⟨_, _, _, _, _, hframe⟩ := Vm.Publishes.gc_frame vm new payload
    rw [hframe]
    exact ⟨rfl, rfl⟩
  have hperm := (GcState.released_growth (vm.published new payload).gc new.index)
  rw [← show _ = (GcState.released (vm.published new payload).gc new.index).growthCharges from hgrowth]
    at hperm
  generalize Vm.rolledBack { vm.published new payload with ledger := l, roots := roots } new = back
    at *
  have hslots : back.slots = vm.slots := by
    refine List.ext_getElem? fun j => ?_
    rw [hfrees.slots]
    by_cases hj : j = new.index
    · rw [if_pos hj, hj]
      rcases hp.place with ⟨hsome, hfree⟩ | ⟨hnone, hindex, -⟩
      · rw [hsome, hfree]
        rfl
      · rw [hnone, hindex, List.getElem?_eq_none le_rfl]
        rfl
    · rw [if_neg hj]
      exact (hp.getElem? j).trans (if_neg hj)
  have hcolor : ∀ j, back.gc.color j = vm.gc.color j := by
    intro j
    rw [hfrees.color]
    by_cases hj : j = new.index
    · rw [if_pos hj, hj, (h.color_eq_none new.index).mpr hp.occupied?_eq_none]
    · rw [if_neg hj]
      exact (hp.color h j).trans (if_neg hj)
  constructor
  · intro hsame hneeds hmem
    rcases hgrown with ⟨hgrew, -⟩ | ⟨-, -, -, hcharges⟩
    · rw [hneeds] at hgrew
      cases hgrew
    · have hlength := (hsame.growth.symm.trans hperm).length_eq
      rw [hcharges] at hlength hmem
      have hpos := List.length_pos_of_mem hmem
      rw [List.length_erase_of_mem hmem] at hlength
      omega
  · intro hstale
    refine SameHeap.of_slots h hback hslots hcolor ?_ ?_ ?_
    · rw [hwork]
      exact (congrArg (List.filter _) hwork').trans (hp.work_filter h)
    · rw [hroots, hcursor]
      exact hsnapshot
    · refine hperm.trans ?_
      rcases hgrown with ⟨-, -, -, hcharges⟩ | ⟨hneeds, -, -, hcharges⟩
      · rw [hcharges]
        have happend := (List.perm_append_singleton new.index vm.gc.growthCharges).erase new.index
        rwa [List.erase_cons_head] at happend
      · rw [List.erase_of_not_mem (hstale hneeds), hcharges]

end Fresh

/-! ### After the collection -/

section Collected

variable {vm : Vm} {new : NewObject} {o : OccupiedSlot}

/-- A refused removal changes the ledger only, and otherwise the reference is off the lists. -/
theorem removeUnpublishedGcReference_iff (vm : Vm) (reference : ObjectRef) :
    (vm.Unlinks reference ∧ ∃ l gc', removeUnpublishedGcReference reference vm
        = (.ok (), { vm with ledger := l, gc := gc' }) ∧ GcState.Without vm.gc reference gc')
      ∨ (¬ vm.Unlinks reference ∧ ∃ e l, removeUnpublishedGcReference reference vm
        = (.error e, { vm with ledger := l })) := by
  have hiff : vm.Unlinks reference ↔ (removeUnpublishedGcReference reference vm).1 = .ok () := by
    unfold Vm.Unlinks removeUnpublishedGcReference
    rw [Prog.bind_apply_ok (Prog.get_apply vm)]
    cases hfind : vm.gc.remembered.findIdx? fun object => decide (object = reference) with
    | none =>
      rw [List.findIdx?_eq_none_iff] at hfind
      refine iff_of_true (fun hmem => ?_) rfl
      simpa using hfind reference hmem
    | some index =>
      obtain ⟨hlt, hself, -⟩ := List.findIdx?_eq_some_iff_getElem.mp hfind
      have hmem : reference ∈ vm.gc.remembered := of_decide_eq_true hself ▸ List.getElem_mem hlt
      simp only [hmem, forall_const]
      rcases hres : (do
        let _ ← checkedBytes (vm.gc.remembered.length - 1) objectRefSize
        checkpoint .rememberedReserve : LedgerM Unit) vm.ledger with ⟨r, l⟩
      have hlift : liftLedger (do
          let _ ← checkedBytes (vm.gc.remembered.length - 1) objectRefSize
          checkpoint .rememberedReserve) vm = (r, { vm with ledger := l }) := by
        unfold liftLedger
        rw [hres]
      cases r with
      | error e =>
        rw [Prog.bind_apply_error hlift]
      | ok u =>
        rw [Prog.bind_apply_ok hlift]
        exact iff_of_true rfl rfl
  rcases removeUnpublishedGcReference_cases vm reference with ⟨e, l, hrun⟩ | ⟨l, gc', hrun, hgc⟩
  · refine .inr ⟨fun hlinks => ?_, e, l, hrun⟩
    have hok := hiff.mp hlinks
    rw [hrun] at hok
    cases hok
  · exact .inl ⟨hiff.mpr (by rw [hrun]), l, gc', hrun, hgc⟩

/-- The heap is in order afterwards if an appended slot is still the last one. -/
theorem Vm.TidyWith.rolledBack_without (h : vm.Tidy) (ho : vm.occupied? new.index = some o)
    (href : o.reference = new.reference)
    (hlast : new.free = none → new.index + 1 = vm.slots.length) {gc' : GcState}
    (hgc : GcState.Without vm.gc new.reference gc') (l : Ledger) :
    (Vm.rolledBack { vm with ledger := l, gc := gc' } new).Tidy := by
  rw [Vm.rolledBack_without (href ▸ h.identity ho) rfl hgc l]
  have hremembered : gc'.remembered.Nodup := by
    obtain ⟨_, rfl⟩ := hgc
    exact h.remembered.erase new.reference
  have hsame : Vm.Tidy { vm.rolledBack new with gc := { (vm.rolledBack new).gc with
      remembered := gc'.remembered
      rememberedCursor := gc'.rememberedCursor
      roots := gc'.roots
      rootCursor := gc'.rootCursor } } :=
    (Vm.rolledBack_spec h ho hlast).1.of_gc_same rfl rfl ⟨rfl, rfl, rfl, rfl⟩ Iff.rfl hremembered
  exact hsame.ledger l

/-- **The object of a failed collection is taken back** without a trace exactly when an appended
    slot is still the last one and the slot has no other charge. -/
theorem erased_iff (h : vm.Tidy) (ho : vm.occupied? new.index = some o)
    (href : o.reference = new.reference) {gc' : GcState}
    (hgc : GcState.Without vm.gc new.reference gc') (l : Ledger) (grew : Bool) :
    Erased new grew vm (Vm.rolledBack { vm with ledger := l, gc := gc' } new)
      ↔ (new.free = none → new.index + 1 = vm.slots.length)
        ∧ (grew = false → new.index ∉ vm.gc.growthCharges) := by
  have hid : new.reference.identity = some ⟨vm.id, new.index, o.generation⟩ :=
    href ▸ h.identity ho
  have hlt := Vm.lt_of_occupied ho
  rw [Vm.rolledBack_without hid rfl hgc l]
  obtain ⟨hwork, hroots, hcursor, hremembered, hcount, hgrowth⟩ := Vm.rolledBack_gc vm new
  have hperm := GcState.released_growth vm.gc new.index
  rw [← hgrowth] at hperm
  constructor
  · intro herased
    refine ⟨fun hfree => ?_, fun hgrew hmem => ?_⟩
    · by_contra hnot
      -- the slot that was dropped is another one
      have hdropped : (vm.rolledBack new).slots = vm.slots.dropLast := by
        unfold Vm.rolledBack
        rw [hfree]
        rfl
      have hkept := herased.others (vm.slots.length - 1) (by omega)
      have hgone : vm.slots.dropLast[vm.slots.length - 1]? = none := by
        rw [List.getElem?_dropLast, if_neg (by omega)]
      rw [show (_ : Vm).slots = vm.slots.dropLast from hdropped, hgone,
        List.getElem?_eq_getElem (by omega)] at hkept
      cases hkept
    · have hlength := (herased.growth.symm.trans hperm).length_eq
      have hpos := List.length_pos_of_mem hmem
      rw [hgrew, if_neg Bool.false_ne_true, List.length_erase_of_mem hmem] at hlength
      omega
  · rintro ⟨hlast, hstale⟩
    obtain ⟨hback, hfrees⟩ := Vm.rolledBack_spec h ho hlast
    have htidy := h.rolledBack_without ho href hlast hgc l
    rw [Vm.rolledBack_without hid rfl hgc l] at htidy
    obtain ⟨cursor, rfl⟩ := hgc
    have hslot : (vm.rolledBack new).slots[new.index]?
        = if new.isLast vm then none else some (.free new.generation) := by
      rw [hfrees.slots, if_pos rfl]
      unfold NewObject.isLast
      cases hfree : new.free with
      | some i => rfl
      | none => simp [hlast hfree]
    have hoccupied : ∀ j, (vm.rolledBack new).occupied? j
        = if j = new.index then none else vm.occupied? j := hfrees.occupied?
    constructor
    case others => exact fun j hj => (hfrees.slots j).trans (if_neg hj)
    case slot => exact hslot
    case occupied =>
      intro j
      rw [htidy.occupied j, h.occupied]
      refine (congrArg Option.isSome (hoccupied j)).trans ?_
      by_cases hj : j = new.index <;> simp [hj]
    case free =>
      intro j
      rw [Bool.eq_iff_iff, htidy.free j]
      by_cases hj : j = new.index
      · rw [if_pos hj, hj, show (_ : Vm).slots[new.index]? = _ from hslot]
        cases new.isLast vm <;> simp
      · rw [if_neg hj, h.free, show (_ : Vm).slots[j]? = vm.slots[j]? from
          (hfrees.slots j).trans (if_neg hj)]
    case color => exact hfrees.color
    case count =>
      have hpos := h.occupiedCount_pos ho
      show (vm.rolledBack new).gc.occupiedCount + 1 = vm.gc.occupiedCount
      omega
    case work =>
      refine hwork.trans (List.filter_congr fun x hx => ?_)
      by_cases hself : x = new.reference
      · simp [hself, ObjectRef.inSlot, hid]
      · have hother : ObjectRef.inSlot x new.index = false := by
          by_contra hin
          rw [Bool.not_eq_false] at hin
          exact hself ((h.eq_of_inSlot ho hx hin).trans href)
        simp [hself, hother]
    case roots => rfl
    case pending =>
      exact drop_filter_sub_countP _ _ (fun x => by simp) _ _
    case growth =>
      refine hperm.trans ?_
      cases hgrew : grew with
      | true => exact .refl _
      | false =>
        rw [if_neg Bool.false_ne_true, List.erase_of_not_mem (hstale hgrew)]

end Collected

/-! ### The claim on a failure -/

section Failure

variable {payload : HeapPayload} {chargesFull collects : Bool} {collection : VmM Unit} {vm : Vm}

theorem SameHeap.ledger_iff {vm' : Vm} (l : Ledger) :
    SameHeap { vm with ledger := l } vm' ↔ SameHeap vm vm' :=
  ⟨fun h => ⟨h.slots, h.occupied, h.free, h.color, h.count, h.work, h.roots, h.growth⟩,
    fun h => ⟨h.slots, h.occupied, h.free, h.color, h.count, h.work, h.roots, h.growth⟩⟩

/-- The ways an attempt ends: refused with the heap as it was, done, failed with the heap as it was
    but for the new object, or failed with the object still in its slot. -/
theorem attemptAllocation_cases [DefaultHasher] (chargesFull collects : Bool) (h : vm.Tidy)
    (hnested : Nested payload collection vm) :
    (∃ e l, attemptAllocation payload chargesFull collects collection vm
        = (.error e, { vm with ledger := l }))
      ∨ (∃ reference vm', attemptAllocation payload chargesFull collects collection vm
        = (.ok (.done reference), vm') ∧ vm'.Tidy)
      ∨ (∃ new e l l' roots, Vm.Publishes { vm with ledger := l } new payload
        ∧ attemptAllocation payload chargesFull collects collection vm
          = (.ok (.failed new e false), { Vm.published { vm with ledger := l } new payload with
              ledger := l', roots := roots }))
      ∨ (∃ new e failed o, attemptAllocation payload chargesFull collects collection vm
          = (.ok (.failed new e true), failed)
        ∧ failed.Tidy ∧ failed.occupied? new.index = some o ∧ o.reference = new.reference) := by
  unfold attemptAllocation
  rcases publishObject_cases payload h with ⟨e, l, hpublish⟩ | ⟨new, l, hpublish, hp⟩
  · rw [Prog.bind_apply_error hpublish]
    exact .inl ⟨e, l, rfl⟩
  rw [Prog.bind_apply_ok hpublish]
  have htidy : (Vm.published { vm with ledger := l } new payload).Tidy := (h.ledger l).published hp
  by_cases hfull : (new.free.isNone && chargesFull) = true
  · rw [if_pos hfull]
    exact .inr (.inr (.inl ⟨new, _, l, l, _, hp, rfl⟩))
  rw [if_neg hfull]
  by_cases hcollects : collects = true
  case neg =>
    rw [if_neg hcollects]
    exact .inr (.inl ⟨_, _, rfl, htidy⟩)
  rw [if_pos hcollects]
  unfold collectRooted
  rcases hroot : addRoot .temporary new.reference (Vm.published { vm with ledger := l } new payload)
    with ⟨r, rooted⟩
  cases r with
  | error e =>
    rcases addRootEntry_cases htidy .temporary new.reference none with
      ⟨e', l', roots, hrun, -⟩ | ⟨_, _, _, _, _, -, -, -, -, hrun⟩
    · obtain ⟨-, rfl⟩ := Prod.mk.inj (hroot.symm.trans hrun)
      exact .inr (.inr (.inl ⟨new, e, l, l', roots, hp, rfl⟩))
    · cases hroot.symm.trans hrun
  | ok root =>
    -- the root keeps the object in its slot while the collection runs
    obtain ⟨hshelter, -⟩ := addRootEntry_sheltered htidy hroot
    have hafter := hshelter.run rfl (hnested new root _ rooted hpublish hroot)
    rcases hcollected : collection rooted with ⟨collected, swept⟩
    rw [hcollected] at hafter
    have hunrooted : ∃ r roots, removeRoot root swept = (r, { swept with roots := roots }) := by
      rcases removeRoot_cases root swept with ⟨e, hrun⟩ | ⟨index, entry, r, -, -, -, hrun⟩
      · exact ⟨_, swept.roots, hrun⟩
      · exact ⟨r, _, hrun⟩
    obtain ⟨removed, roots, hremoved⟩ := hunrooted
    obtain ⟨o, hres⟩ := hafter.resolves rfl
    obtain ⟨id, hid, -, hocc, -, href⟩ := Vm.checkedSlot_eq_ok.mp hres
    rw [show (RootEntry.object _) = new.reference from rfl, hp.reference] at hid
    obtain rfl := Option.some.inj hid
    have htidy' : Vm.Tidy { swept with roots := roots } :=
      @SameHandles.tidy swept _ [] ⟨rfl, rfl, rfl, rfl⟩ rfl hafter.guarded.tidy
    simp only [hcollected, hremoved]
    cases removed with
    | error e => exact .inr (.inr (.inr ⟨new, e, _, o, rfl, htidy', hocc, href⟩))
    | ok object =>
      cases collected with
      | error e => exact .inr (.inr (.inr ⟨new, e, _, o, rfl, htidy', hocc, href⟩))
      | ok u => exact .inr (.inl ⟨_, _, rfl, htidy'⟩)

/-- What an allocation that fails does with the object. -/
theorem allocatePayloadWithCharge_cases [DefaultHasher] (h : vm.Tidy)
    (hnested : Nested payload collection vm) {e : VmError} {vm' : Vm}
    (hfail : allocatePayloadWithCharge payload chargesFull collects collection vm
      = (.error e, vm')) :
    (∃ e' l, attemptAllocation payload chargesFull collects collection vm
        = (.error e', { vm with ledger := l }) ∧ vm' = { vm with ledger := l })
      ∨ (∃ new e' l before, Vm.Publishes { vm with ledger := l } new payload
        ∧ (∃ l' roots, before = { Vm.published { vm with ledger := l } new payload with
            ledger := l', roots := roots })
        ∧ before.Tidy ∧ attemptAllocation payload chargesFull collects collection vm
          = (.ok (.failed new e' false), before) ∧ vm' = before.rolledBack new)
      ∨ (∃ new e' failed o, attemptAllocation payload chargesFull collects collection vm
          = (.ok (.failed new e' true), failed)
        ∧ failed.Tidy ∧ failed.occupied? new.index = some o ∧ o.reference = new.reference
        ∧ ((failed.Unlinks new.reference ∧ ∃ l gc', GcState.Without failed.gc new.reference gc'
            ∧ vm' = Vm.rolledBack { failed with ledger := l, gc := gc' } new)
          ∨ (¬ failed.Unlinks new.reference ∧ ∃ l, vm' = { failed with ledger := l }))) := by
  unfold allocatePayloadWithCharge at hfail
  rcases attemptAllocation_cases chargesFull collects h hnested with
    ⟨e', l, hrun⟩ | ⟨reference, done, hrun, -⟩ | ⟨new, e', l, l', roots, hp, hrun⟩
      | ⟨new, e', failed, o, hrun, htidy, hocc, href⟩
  · rw [Prog.bind_apply_error hrun] at hfail
    cases hfail
    exact .inl ⟨e, l, hrun, rfl⟩
  · rw [Prog.bind_apply_ok hrun] at hfail
    cases hfail
  · rw [Prog.bind_apply_ok hrun] at hfail
    have hbefore : Vm.Tidy { Vm.published { vm with ledger := l } new payload with
        ledger := l', roots := roots } :=
      @SameHandles.tidy (Vm.published { vm with ledger := l } new payload) _ []
        ⟨rfl, rfl, rfl, rfl⟩ rfl ((h.ledger l).published hp)
    have hrollback := rollbackNewObject_eq hbefore.growth
      (fun hpause => ⟨(hbefore.pause hpause).1, hbefore.idle hpause⟩) new
    have hdone : (rollbackNewObject new >>= fun _ => (Prog.fail e' : VmM ObjectRef))
        { Vm.published { vm with ledger := l } new payload with ledger := l', roots := roots }
        = (.error e, vm') := hfail
    rw [Prog.bind_apply_ok hrollback] at hdone
    cases hdone
    exact .inr (.inl ⟨new, e, l, _, hp, ⟨l', roots, rfl⟩, hbefore, hrun, rfl⟩)
  · rw [Prog.bind_apply_ok hrun] at hfail
    refine .inr (.inr ⟨new, e', failed, o, hrun, htidy, hocc, href, ?_⟩)
    have hdone : (removeUnpublishedGcReference new.reference >>= fun _ =>
        rollbackNewObject new >>= fun _ => (Prog.fail e' : VmM ObjectRef)) failed
        = (.error e, vm') := hfail
    rcases removeUnpublishedGcReference_iff failed new.reference with
      ⟨hlinks, l, gc', hremove, hgc⟩ | ⟨hlinks, e'', l, hremove⟩
    · rw [Prog.bind_apply_ok hremove] at hdone
      obtain ⟨_, hgc'⟩ := id hgc
      have hrollback := @rollbackNewObject_eq { failed with ledger := l, gc := gc' }
        (by rw [hgc']; exact htidy.growth)
        (fun hpause => by
          rw [hgc'] at hpause ⊢
          refine ⟨(htidy.pause hpause).1, ?_⟩
          show List.filter _ failed.gc.work = []
          rw [htidy.idle hpause]
          rfl) new
      rw [Prog.bind_apply_ok hrollback] at hdone
      cases hdone
      exact .inl ⟨hlinks, l, gc', hgc, rfl⟩
    · rw [Prog.bind_apply_error hremove] at hdone
      cases hdone
      exact .inr ⟨hlinks, l, rfl⟩

/-- **A failed allocation leaves no trace exactly when the failure is clean**, whatever the
    collection and its finalizers have done to the heap. -/
theorem leavesNoTrace_iff [DefaultHasher] (h : vm.Tidy) (hnested : Nested payload collection vm)
    {e : VmError} {vm' : Vm}
    (hfail : allocatePayloadWithCharge payload chargesFull collects collection vm = (.error e, vm')) :
    LeavesNoTrace payload chargesFull collects collection vm vm'
      ↔ CleanFailure payload chargesFull collects collection vm := by
  unfold LeavesNoTrace CleanFailure
  rcases allocatePayloadWithCharge_cases h hnested hfail with
    ⟨e', l, hrun, rfl⟩ | ⟨new, e', l, before, hp, ⟨l', roots, rfl⟩, -, hrun, rfl⟩
      | ⟨new, e', failed, o, hrun, htidy, hocc, href, ⟨hlinks, l, gc', hgc, rfl⟩ | ⟨hlinks, l, rfl⟩⟩
  all_goals
    rw [hrun]
    simp only
  · exact iff_of_true (SameHeap.ledger vm l) trivial
  · rw [← SameHeap.ledger_iff l, hp.rolledBack_iff (h.ledger l) l' roots]
    exact ⟨fun hstale => ⟨hp.last, hstale, fun hnever => nomatch hnever⟩, fun hclean => hclean.2.1⟩
  · rw [erased_iff htidy hocc href hgc l vm.needsWorkGrowth]
    exact ⟨fun ⟨hlast, hstale⟩ => ⟨hlast, hstale, fun _ => hlinks⟩,
      fun ⟨hlast, hstale, _⟩ => ⟨hlast, hstale⟩⟩
  · -- the object stays where it is
    refine iff_of_false (fun herased => ?_) fun hclean => hlinks (hclean.2.2 trivial)
    have hslot := herased.slot
    rw [show (_ : Vm).slots[new.index]? = some (.occupied o) from Vm.occupied?_eq_some.mp hocc]
      at hslot
    split at hslot <;> cases hslot

end Failure

/-! ### Runs -/

section Runs

/-- The heap of a new VM is in order. -/
theorem Vm.tidy_new (id : VmId) (profile : LuaProfile) (hashSeed : Nat) (ledger : Ledger)
    (majorDue : Nat → Bool) (nextToken : Nat) :
    (Vm.new id profile hashSeed ledger majorDue nextToken).Tidy := by
  have hnone : ∀ i, (Vm.new id profile hashSeed ledger majorDue nextToken).occupied? i = none :=
    fun i => rfl
  have hcolor : ∀ i, (GcState.new majorDue).color i = none := fun i => rfl
  constructor
  case pages =>
    show 0 = (0 + 63) / 64
    omega
  case occupied => exact fun i => rfl
  case free =>
    refine fun i => iff_of_false (by simp [GcState.freeBit, GcState.bitAt, Vm.new, GcState.new]) ?_
    rintro ⟨g, hg⟩
    cases hg
  case scanEnd => exact Nat.le_refl _
  case behind => exact fun i _ hi => absurd hi (Nat.not_lt_zero i)
  case count => rfl
  case reference =>
    intro i o ho
    cases (hnone i).symm.trans ho
  case pause =>
    refine fun _ => ⟨rfl, fun i hblack => ?_⟩
    cases (hcolor i).symm.trans hblack
  case nodup => exact List.nodup_nil
  case gray =>
    refine fun o => iff_of_false List.not_mem_nil ?_
    rintro ⟨i, s, hs, -⟩
    cases (hnone i).symm.trans hs
  case idle => exact fun _ => rfl
  case capacity => exact fun _ => Nat.le_refl _
  case growth => exact ⟨Nat.le_refl _, Nat.le_refl _⟩
  case remembered => exact List.nodup_nil

variable [DefaultHasher] {vm vm' : Vm}

/-- A step of a VM: an operation on the heap, or an allocation with its collection that succeeds or
    fails cleanly. -/
inductive VmStep (vm : Vm) : Vm → Prop
  | heap {kept : RootEntry} {vm' : Vm} (h : HeapStep kept vm vm') : VmStep vm vm'
  | allocate (payload : HeapPayload) (chargesFull collects : Bool) (collection : VmM Unit)
      (hnested : Nested payload collection vm)
      (hclean : CleanFailure payload chargesFull collects collection vm) :
      VmStep vm (allocatePayloadWithCharge payload chargesFull collects collection vm).2

theorem allocatePayloadWithCharge_tidy {payload : HeapPayload} {chargesFull collects : Bool}
    {collection : VmM Unit} (h : vm.Tidy) (hnested : Nested payload collection vm)
    (hclean : CleanFailure payload chargesFull collects collection vm) :
    (allocatePayloadWithCharge payload chargesFull collects collection vm).2.Tidy := by
  rcases hresult : allocatePayloadWithCharge payload chargesFull collects collection vm with ⟨r, vm'⟩
  cases r with
  | error e =>
    unfold CleanFailure at hclean
    rcases allocatePayloadWithCharge_cases h hnested hresult with
      ⟨e', l, hrun, rfl⟩ | ⟨new, e', l, before, hp, ⟨l', roots, rfl⟩, hbefore, hrun, rfl⟩
        | ⟨new, e', failed, o, hrun, htidy, hocc, href, hback⟩
    · exact h.ledger l
    · exact (Vm.rolledBack_spec hbefore ((hp.occupied? new.index).trans (if_pos rfl)) hp.last).1
    · rw [hrun] at hclean
      obtain ⟨hlast, -, hlinks⟩ := hclean
      obtain ⟨-, l, gc', hgc, rfl⟩ | ⟨hnot, -⟩ := hback
      · exact htidy.rolledBack_without hocc href hlast hgc l
      · exact absurd (hlinks rfl) hnot
  | ok reference =>
    unfold allocatePayloadWithCharge at hresult
    rcases attemptAllocation_cases chargesFull collects h hnested with
      ⟨e', l, hrun⟩ | ⟨reference', done, hrun, hdone⟩ | ⟨new, e', l, l', roots, hp, hrun⟩
        | ⟨new, e', failed, o, hrun, htidy, hocc, href⟩
    · rw [Prog.bind_apply_error hrun] at hresult
      cases hresult
    · rw [Prog.bind_apply_ok hrun] at hresult
      cases hresult
      exact hdone
    · rw [Prog.bind_apply_ok hrun] at hresult
      obtain ⟨_, _, -, hfail⟩ := Prog.bind_eq_ok hresult
      obtain ⟨_, _, -, hfail⟩ := Prog.bind_eq_ok hfail
      cases hfail
    · rw [Prog.bind_apply_ok hrun] at hresult
      obtain ⟨_, _, -, hfail⟩ := Prog.bind_eq_ok hresult
      obtain ⟨_, _, -, hfail⟩ := Prog.bind_eq_ok hfail
      cases hfail

/-- **Every state of a run is in order**, so that the result on one allocation holds of each. -/
theorem tidy_of_run {id : VmId} {profile : LuaProfile} {hashSeed : Nat} {ledger : Ledger}
    {majorDue : Nat → Bool} {nextToken : Nat}
    (hrun : ReflTransGen VmStep (Vm.new id profile hashSeed ledger majorDue nextToken) vm) :
    vm.Tidy := by
  induction hrun with
  | refl => exact Vm.tidy_new _ _ _ _ _ _
  | tail _ hstep ih =>
    cases hstep with
    | heap h => exact h.tidy ih
    | allocate payload chargesFull collects collection hnested hclean =>
      exact allocatePayloadWithCharge_tidy ih hnested hclean

/-- The collector alone is such a collection. -/
theorem nested_incrementalStep (payload : HeapPayload) (budget : Nat) (vm : Vm) :
    Nested payload (incrementalStep budget) vm :=
  fun _ _ _ rooted _ _ => incrementalStep_run _ budget rooted

end Runs

/-- A collection that is refused leaves no trace. -/
theorem leavesNoTrace_refusedCollection :
    LeavesNoTrace (.value .nil) false true (incrementalStep 0) Vm.sample
      (allocatePayloadWithCharge (.value .nil) false true (incrementalStep 0) Vm.sample).2 := by
  have hclean : CleanFailure (.value .nil) false true (incrementalStep 0) Vm.sample := by
    refine ⟨fun _ => rfl, fun _ hmem => ?_, fun _ hmem => ?_⟩
    · cases hmem
    · cases hmem
  exact (@leavesNoTrace_iff _ _ _ _ _ collidingHasher (Vm.tidy_new _ _ _ _ _ _)
    (@nested_incrementalStep collidingHasher _ _ _) .invalidGcStepBudget _ rfl).mpr hclean

/-- A run with a collection that is refused, and one that is not. -/
theorem tidy_of_run_refusedCollection :
    (gcStep (allocatePayloadWithCharge (.value .nil) false true (incrementalStep 0)
      Vm.sample).2).2.Tidy := by
  have hclean : CleanFailure (.value .nil) false true (incrementalStep 0) Vm.sample := by
    refine ⟨fun _ => rfl, fun _ hmem => ?_, fun _ hmem => ?_⟩
    · cases hmem
    · cases hmem
  have hfirst : @VmStep collidingHasher Vm.sample
      (allocatePayloadWithCharge (.value .nil) false true (incrementalStep 0) Vm.sample).2 :=
    @VmStep.allocate collidingHasher _ _ _ _ _ (@nested_incrementalStep collidingHasher _ 0 _) hclean
  have hsecond := @VmStep.heap collidingHasher _ ⟨⟨⟨0⟩, 0⟩, .temporary, .opaqueId 0, none⟩ _
    (@HeapStep.collect collidingHasher _
      (allocatePayloadWithCharge (.value .nil) false true (incrementalStep 0) Vm.sample).2)
  exact @tidy_of_run collidingHasher _ _ _ _ _ _ _ ((ReflTransGen.single hfirst).tail hsecond)

/-- A finalizer makes an object, and the next finalizer fails. -/
def failingFinalizers : VmM Unit := do
  let _ ← publishObject (.value .nil)
  Prog.fail .allocationFailed

theorem failingFinalizers_run [DefaultHasher] (kept : RootEntry) (vm : Vm) :
    ReflTransGen (HeapStep kept) vm (failingFinalizers vm).2 := by
  have hstep : HeapStep kept vm _ := .publish (.value .nil)
  have hstate : (failingFinalizers vm).2 = (publishObject (.value .nil) vm).2 := by
    unfold failingFinalizers
    rw [Prog.bind_apply]
    rcases publishObject (.value .nil) vm with ⟨_ | _, _⟩ <;> rfl
  rw [hstate]
  exact .single hstep

/-- The object of the first finalizer is dropped in place of the new one. -/
theorem not_leavesNoTrace_failingFinalizers :
    @Nested (.value .nil) failingFinalizers collidingHasher Vm.sample
      ∧ ¬ LeavesNoTrace (.value .nil) false true failingFinalizers Vm.sample
        (allocatePayloadWithCharge (.value .nil) false true failingFinalizers Vm.sample).2 := by
  refine ⟨fun _ _ _ rooted _ _ => @failingFinalizers_run collidingHasher _ rooted, fun h => ?_⟩
  have herased : Erased _ _ _ _ := h
  have hothers := herased.others 1 (by decide)
  cases hothers

end RivetLua.Runtime
