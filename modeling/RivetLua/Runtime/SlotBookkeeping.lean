import RivetLua.Runtime.HeapInvariant

namespace RivetLua.Runtime

open RivetLua.Core RivetLua.Gc StateProg

/-!
# Runtime — publishing, freeing and dropping slots keep the bookkeeping

* `Vm.Publishes` — what a successful `publishObject` does, `TidyWith.published` that it keeps
  the bookkeeping;
* `TidyWith.freed` — a slot gives its object up; nothing but the object itself may be in hand;
* `TidyWith.retreat`, `TidyWith.pop` — the scan bound is lowered, the last slot is dropped;
* `removeUnpublishedGcReference_cases` — the clean-up of the collector's lists before an object
  is freed;
* `reclaim_cases`, `rollbackNewObject_cases`, `rollbackUnpublishedCreatedObject_cases` — how the
  three ways of freeing end.
-/

/-! ### Ledger and roots -/

section Frame

variable {vm : Vm} {hole : List ObjectRef}

/-- The ledger plays no part in the bookkeeping. -/
theorem Vm.TidyWith.ledger (h : vm.TidyWith hole) (l : Ledger) :
    Vm.TidyWith hole { vm with ledger := l } :=
  @SameHandles.tidy vm _ hole ⟨rfl, rfl, rfl, rfl⟩ rfl h

/-- A program over the ledger changes the ledger only. -/
theorem liftLedger_eq {α : Type} (m : LedgerM α) (vm : Vm) :
    ∃ l, (liftLedger m vm).2 = { vm with ledger := l } := ⟨_, rfl⟩

end Frame

/-! ### Publishing -/

/-- What a successful publication did: `vm` is the state before it. -/
structure Vm.Publishes (vm : Vm) (new : NewObject) (payload : HeapPayload) : Prop where
  place : (new.free = some new.index ∧ vm.slots[new.index]? = some (.free new.generation)) ∨
    (new.free = none ∧ new.index = vm.slots.length ∧ new.generation = ⟨0⟩)
  reference : new.reference = .heap ⟨vm.id, new.index, new.generation⟩ (some vm.nextToken)
  children : ∀ c ∈ payload.childRefs, ∃ o, vm.checkedSlot c = .ok o

section Publish

variable {vm : Vm}

/-- The free slot the search finds is free. -/
theorem Vm.TidyWith.freeSlot {hole : List ObjectRef} (h : vm.TidyWith hole) {i : Nat}
    (hi : vm.freeSlot = some i) : ∃ g, vm.slots[i]? = some (.free g) := by
  unfold Vm.freeSlot at hi
  cases hn : vm.gc.nextReusableFree 0 vm.gcScanEnd with
  | some k =>
    simp only [hn, Option.some.injEq] at hi
    subst hi
    exact (h.free k).mp (GcState.nextReusableFree_eq_some hn).2
  | none =>
    simp only [hn] at hi
    by_cases hlt : vm.gcScanEnd < vm.slots.length
    · rw [if_pos hlt, Option.some.injEq] at hi
      subst hi
      exact h.behind _ le_rfl hlt
    · rw [if_neg hlt] at hi
      exact absurd hi (by simp)

/-- Every reference was checked. -/
theorem Vm.checkChildren_eq_ok {refs : List ObjectRef} (h : vm.checkChildren refs = .ok ()) :
    ∀ c ∈ refs, ∃ o, vm.checkedSlot c = .ok o := by
  induction refs with
  | nil => simp
  | cons child rest ih =>
    unfold Vm.checkChildren at h
    cases hc : vm.checkedSlot child with
    | error e => simp [hc] at h
    | ok o =>
      simp only [hc] at h
      intro c hmem
      rcases List.mem_cons.mp hmem with rfl | hmem
      · exact ⟨o, hc⟩
      · exact ih h c hmem

/-- **A publication ends normally with the object in its slot, or changes the ledger only.** -/
theorem publishObject_cases (payload : HeapPayload) (h : vm.Tidy) :
    (∃ e l, publishObject payload vm = (.error e, { vm with ledger := l })) ∨
    (∃ new l, publishObject payload vm =
        (.ok new, Vm.published { vm with ledger := l } new payload) ∧
      Vm.Publishes { vm with ledger := l } new payload) := by
  unfold publishObject
  rw [Prog.bind_apply_ok (Prog.get_apply vm)]
  cases hchildren : vm.checkChildren payload.childRefs with
  | error e => exact .inl ⟨e, vm.ledger, rfl⟩
  | ok u =>
    rw [Prog.bind_apply_ok (show Prog.ofExcept (.ok u) vm = (.ok u, vm) from rfl)]
    by_cases hpages : vm.gc.slotBits.length < vm.freeSlot.getD vm.slots.length / 64
    · simp only [if_pos hpages]
      exact .inl ⟨_, vm.ledger, rfl⟩
    · simp only [if_neg hpages]
      rcases hres : liftLedger (reserveObject vm
        (decide (vm.freeSlot.getD vm.slots.length / 64 = vm.gc.slotBits.length))) vm with ⟨r, vm₁⟩
      obtain ⟨l, hl⟩ := liftLedger_eq (reserveObject vm
        (decide (vm.freeSlot.getD vm.slots.length / 64 = vm.gc.slotBits.length))) vm
      rw [hres] at hl
      simp only at hl
      subst hl
      cases r with
      | error e => exact .inl ⟨e, l, Prog.bind_apply_error hres⟩
      | ok u' =>
        rw [Prog.bind_apply_ok hres]
        cases htoken : vm.newToken with
        | none => exact .inl ⟨_, l, rfl⟩
        | some token =>
          refine .inr ⟨_, l, rfl, ?_⟩
          have htok : token = vm.nextToken := by
            unfold Vm.newToken at htoken
            split at htoken
            · simpa using htoken.symm
            · exact absurd htoken (by simp)
          refine ⟨?_, by rw [htok], fun c hc => Vm.checkChildren_eq_ok hchildren c hc⟩
          simp only
          cases hfree : vm.freeSlot with
          | some i =>
            obtain ⟨g, hg⟩ := h.freeSlot hfree
            simp [hg]
          | none => simp

variable {new : NewObject} {payload : HeapPayload}

namespace Vm.Publishes

theorem index_le (h : vm.Publishes new payload) : new.index ≤ vm.slots.length := by
  rcases h.place with ⟨-, hfree⟩ | ⟨-, hi, -⟩
  · exact (List.getElem?_eq_some_iff.mp hfree).1.le
  · exact hi.le

/-- The slot was not occupied. -/
theorem occupied?_eq_none (h : vm.Publishes new payload) : vm.occupied? new.index = none := by
  unfold Vm.occupied?
  rcases h.place with ⟨-, hfree⟩ | ⟨-, hi, -⟩
  · rw [hfree]
    rfl
  · rw [hi, List.getElem?_eq_none le_rfl]
    rfl

/-- The slots afterwards. -/
theorem getElem? (h : vm.Publishes new payload) (j : Nat) :
    (vm.published new payload).slots[j]? =
      if j = new.index then some (.occupied (new.occupied payload)) else vm.slots[j]? := by
  rcases h.place with ⟨hf, hfree⟩ | ⟨hf, hi, -⟩
  · have hlt := (List.getElem?_eq_some_iff.mp hfree).1
    simp only [Vm.published, hf, List.getElem?_set]
    by_cases hj : j = new.index
    · subst hj
      simp [hlt]
    · simp [hj, Ne.symm hj]
  · simp only [Vm.published, hf]
    by_cases hj : j = new.index
    · rw [if_pos hj, hj, hi, List.getElem?_append_right le_rfl]
      simp
    · rw [if_neg hj]
      by_cases hlt : j < vm.slots.length
      · rw [List.getElem?_append_left hlt]
      · rw [List.getElem?_eq_none (l := vm.slots) (by omega), List.getElem?_eq_none]
        simp
        omega

theorem occupied? (h : vm.Publishes new payload) (j : Nat) :
    (vm.published new payload).occupied? j =
      if j = new.index then some (new.occupied payload) else vm.occupied? j := by
  unfold Vm.occupied?
  rw [h.getElem?]
  by_cases hj : j = new.index
  · rw [if_pos hj, if_pos hj]
    rfl
  · rw [if_neg hj, if_neg hj]

theorem length_eq (h : vm.Publishes new payload) :
    (vm.published new payload).slots.length = max vm.slots.length (new.index + 1) := by
  rcases h.place with ⟨hf, hfree⟩ | ⟨hf, hi, -⟩
  · have hlt := (List.getElem?_eq_some_iff.mp hfree).1
    simp only [Vm.published, hf, List.length_set]
    omega
  · simp only [Vm.published, hf, List.length_append, List.length_singleton]
    omega

theorem countP_eq (h : vm.Publishes new payload) :
    (vm.published new payload).slots.countP Slot.isOccupied
      = vm.slots.countP Slot.isOccupied + 1 := by
  rcases h.place with ⟨hf, hfree⟩ | ⟨hf, hi, -⟩
  · obtain ⟨hlt, hget⟩ := List.getElem?_eq_some_iff.mp hfree
    simp only [Vm.published, hf]
    rw [List.countP_set hlt, hget]
    simp [Slot.isOccupied, Slot.occupied?]
  · simp only [Vm.published, hf, List.countP_append]
    simp [Slot.isOccupied, Slot.occupied?]

/-- The page of the new slot is there. -/
theorem page_lt {hole : List ObjectRef} (h : vm.Publishes new payload) (ht : vm.TidyWith hole) :
    new.index / 64 < (vm.gc.withPage new.index).slotBits.length := by
  have hle := h.index_le
  have hpages := ht.pages
  unfold GcState.withPage
  by_cases hp : new.index / 64 = vm.gc.slotBits.length
  · rw [if_pos hp, List.length_append, hp]
    simp
  · rw [if_neg hp]
    omega

/-- Bits and counters are all of the collector state that changes. -/
theorem gc_frame (vm : Vm) (new : NewObject) (payload : HeapPayload) :
    ∃ bits count capacity charge growth, (vm.published new payload).gc = { vm.gc with
      slotBits := bits
      occupiedCount := count
      workCapacity := capacity
      charge := charge
      growthCharges := growth } := by
  have hpage : ∃ bits, vm.gc.withPage new.index = { vm.gc with slotBits := bits } := by
    unfold GcState.withPage
    split
    · exact ⟨_, rfl⟩
    · exact ⟨_, rfl⟩
  obtain ⟨bits, hbits⟩ := hpage
  unfold Vm.published
  rw [hbits]
  cases vm.needsWorkGrowth with
  | true => exact ⟨_, _, _, _, _, rfl⟩
  | false => exact ⟨_, _, _, _, _, rfl⟩

/-- The collector state afterwards, up to the growth of the work list. -/
theorem gc_eq (vm : Vm) (new : NewObject) (payload : HeapPayload) :
    (vm.published new payload).gc.slotBits
        = ((vm.gc.withPage new.index).publishOccupied new.index).slotBits ∧
      (vm.published new payload).gc.phase = vm.gc.phase ∧
      (vm.published new payload).gc.work = vm.gc.work ∧
      (vm.published new payload).gc.occupiedCount = vm.gc.occupiedCount + 1 ∧
      (vm.published new payload).gc.remembered = vm.gc.remembered ∧
      ((vm.needsWorkGrowth = true ∧
          (vm.published new payload).gc.workCapacity = vm.gc.workCapacity + 1 ∧
          (vm.published new payload).gc.charge = vm.gc.charge + objectRefSize ∧
          (vm.published new payload).gc.growthCharges = vm.gc.growthCharges ++ [new.index]) ∨
        (vm.needsWorkGrowth = false ∧
          (vm.published new payload).gc.workCapacity = vm.gc.workCapacity ∧
          (vm.published new payload).gc.charge = vm.gc.charge ∧
          (vm.published new payload).gc.growthCharges = vm.gc.growthCharges)) := by
  have hpage : ∀ {β : Type} (f : GcState → β),
      (∀ bits, f { vm.gc with slotBits := bits } = f vm.gc) →
      f (vm.gc.withPage new.index) = f vm.gc := by
    intro β f hf
    unfold GcState.withPage
    split
    · exact hf _
    · rfl
  unfold Vm.published
  cases hg : vm.needsWorkGrowth with
  | true =>
    simp only [if_true]
    exact ⟨rfl, hpage GcState.phase fun _ => rfl, hpage GcState.work fun _ => rfl,
      congrArg (· + 1) (hpage GcState.occupiedCount fun _ => rfl),
      hpage GcState.remembered fun _ => rfl,
      .inl ⟨trivial, congrArg (· + 1) (hpage GcState.workCapacity fun _ => rfl),
        congrArg (· + objectRefSize) (hpage GcState.charge fun _ => rfl),
        congrArg (· ++ [new.index]) (hpage GcState.growthCharges fun _ => rfl)⟩⟩
  | false =>
    simp only [Bool.false_eq_true, if_false]
    exact ⟨trivial, hpage GcState.phase fun _ => rfl, hpage GcState.work fun _ => rfl,
      congrArg (· + 1) (hpage GcState.occupiedCount fun _ => rfl),
      hpage GcState.remembered fun _ => rfl,
      .inr ⟨trivial, hpage GcState.workCapacity fun _ => rfl, hpage GcState.charge fun _ => rfl,
        hpage GcState.growthCharges fun _ => rfl⟩⟩

section Bits

variable {hole : List ObjectRef} (h : vm.Publishes new payload) (ht : vm.TidyWith hole)
include h ht

theorem occupiedBit (j : Nat) :
    (vm.published new payload).gc.occupiedBit j = (vm.gc.occupiedBit j || decide (j = new.index)) := by
  have hbit := GcState.occupiedBit_publishOccupied (h.page_lt ht) j
  rw [GcState.occupiedBit, GcState.bitAt_congr (gc_eq vm new payload).1]
  rw [GcState.occupiedBit, GcState.occupiedBit, GcState.bitAt_withPage _ _ rfl] at hbit
  exact hbit

omit h ht in
theorem freeBit (j : Nat) :
    (vm.published new payload).gc.freeBit j = (vm.gc.freeBit j && !decide (j = new.index)) := by
  have hbit := @GcState.freeBit_publishOccupied (vm.gc.withPage new.index) new.index j
  rw [GcState.freeBit, GcState.bitAt_congr (gc_eq vm new payload).1]
  rw [GcState.freeBit, GcState.freeBit, GcState.bitAt_withPage _ _ rfl] at hbit
  exact hbit

/-- The new object is white. -/
theorem color (j : Nat) :
    (vm.published new payload).gc.color j = if j = new.index then some .white else vm.gc.color j := by
  rw [GcState.color_congr (gc_eq vm new payload).1, GcState.color_publishOccupied (h.page_lt ht),
    GcState.color_withPage]

end Bits

end Vm.Publishes

/-- **A publication keeps the bookkeeping.** -/
theorem Vm.TidyWith.published (ht : vm.Tidy) (h : vm.Publishes new payload) :
    (vm.published new payload).Tidy := by
  obtain ⟨hbits, hphase, hwork, hcount, hrem, hgrow⟩ := Vm.Publishes.gc_eq vm new payload
  have hle := h.index_le
  have hidx : vm.gc.occupiedBit new.index = false := by
    rw [ht.occupied, h.occupied?_eq_none]
    rfl
  exact {
    pages := by
      rw [h.length_eq, hbits]
      have hpages := ht.pages
      have hlen : ((vm.gc.withPage new.index).publishOccupied new.index).slotBits.length
          = (vm.gc.withPage new.index).slotBits.length := by
        simp [GcState.publishOccupied, GcState.modifyPage]
      rw [hlen]
      unfold GcState.withPage
      by_cases hp : new.index / 64 = vm.gc.slotBits.length
      · rw [if_pos hp, List.length_append, List.length_singleton]
        omega
      · rw [if_neg hp]
        omega
    occupied := fun j => by
      rw [h.occupiedBit ht, h.occupied?, ht.occupied]
      by_cases hj : j = new.index <;> simp [hj]
    free := fun j => by
      rw [Vm.Publishes.freeBit, h.getElem?]
      by_cases hj : j = new.index
      · simp [hj]
      · simp only [hj, decide_false, Bool.not_false, Bool.and_true, if_false]
        exact ht.free j
    scanEnd := by
      rw [h.length_eq]
      have := ht.scanEnd
      show max vm.gcScanEnd (new.index + 1) ≤ _
      omega
    behind := by
      intro j hj hlt
      have hj' : max vm.gcScanEnd (new.index + 1) ≤ j := hj
      rw [h.length_eq] at hlt
      rw [h.getElem?, if_neg (by omega)]
      exact ht.behind j (by omega) (by omega)
    count := by rw [hcount, h.countP_eq, ht.count]
    reference := by
      intro j o ho
      rw [h.occupied?] at ho
      by_cases hj : j = new.index
      · rw [if_pos hj, Option.some.injEq] at ho
        subst ho hj
        exact ⟨vm.nextToken, h.reference, Nat.lt_succ_self _⟩
      · rw [if_neg hj] at ho
        obtain ⟨token, href, hlt⟩ := ht.reference j o ho
        exact ⟨token, href, Nat.lt_succ_of_lt hlt⟩
    pause := by
      intro hp
      rw [hphase] at hp
      obtain ⟨hnil, hblack⟩ := ht.pause hp
      constructor
      · rcases hgrow with ⟨hneeds, -⟩ | ⟨-, -, -, hg⟩
        · simp [Vm.needsWorkGrowth, hp] at hneeds
        · rw [hg, hnil]
      · intro j
        rw [h.color ht]
        by_cases hj : j = new.index
        · simp [hj]
        · rw [if_neg hj]
          exact hblack j
    nodup := by rw [hwork]; exact ht.nodup
    gray := by
      intro x
      rw [hwork, ht.gray]
      constructor
      · rintro ⟨j, s, hs, href, hc⟩
        have hj : j ≠ new.index := by
          rintro rfl
          rw [h.occupied?_eq_none] at hs
          exact absurd hs (by simp)
        exact ⟨j, s, by rw [h.occupied?, if_neg hj]; exact hs, href,
          by rw [h.color ht, if_neg hj]; exact hc⟩
      · rintro ⟨j, s, hs, href, hc⟩
        rw [h.color ht] at hc
        rw [h.occupied?] at hs
        by_cases hj : j = new.index
        · rw [if_pos hj] at hc
          exact absurd hc (by simp)
        · rw [if_neg hj] at hc hs
          exact ⟨j, s, hs, href, hc⟩
    idle := by
      rw [hphase, hwork]
      exact ht.idle
    capacity := by
      intro hp
      rw [hphase] at hp
      have hcap := ht.capacity hp
      rw [hcount]
      rcases hgrow with ⟨-, hc, -⟩ | ⟨hneeds, hc, -⟩
      · omega
      · simp only [Vm.needsWorkGrowth, ne_eq, hp, not_false_eq_true, decide_true, Bool.true_and,
          decide_eq_false_iff_not] at hneeds
        omega
    growth := by
      obtain ⟨hg1, hg2⟩ := ht.growth
      rcases hgrow with ⟨-, hc, hch, hgc⟩ | ⟨-, hc, hch, hgc⟩
      · rw [hc, hch, hgc, List.length_append, List.length_singleton]
        exact ⟨by omega, by rw [Nat.add_mul]; omega⟩
      · rw [hc, hch, hgc]
        exact ⟨hg1, hg2⟩
    remembered := by rw [hrem]; exact ht.remembered }

end Publish

/-! ### Freeing -/

section Free

variable {vm : Vm} {hole : List ObjectRef}

/-- **A slot gives its object up.**  The object is not on the work list any more, and nothing
    else is in hand. -/
theorem Vm.TidyWith.freed {i : Nat} {o : OccupiedSlot} (slot : Slot) (reusable : Bool)
    (h : vm.TidyWith hole) (ho : vm.occupied? i = some o) (hwork : o.reference ∉ vm.gc.work)
    (hhole : ∀ x ∈ hole, x = o.reference)
    (hslot : (∃ g, slot = .free g ∧ reusable = true) ∨ (slot = .retired ∧ reusable = false)) :
    Vm.Tidy { vm with slots := vm.slots.set i slot, gc := vm.gc.retireOrFree i reusable } := by
  have hi := Vm.lt_of_occupied ho
  have hget : vm.slots[i]? = some (.occupied o) := Vm.occupied?_eq_some.mp ho
  have hbit : vm.gc.occupiedBit i = true := by rw [h.occupied, ho]; rfl
  have hnone : slot.occupied? = none := by
    rcases hslot with ⟨g, rfl, -⟩ | ⟨rfl, -⟩ <;> rfl
  have hocc : ∀ j, Vm.occupied? { vm with slots := vm.slots.set i slot } j
      = if j = i then none else vm.occupied? j := by
    intro j
    rw [occupied?_set hi, hnone]
  exact {
    pages := by
      rw [List.length_set, ← h.pages]
      simp [GcState.retireOrFree, GcState.modifyPage]
    occupied := fun j => by
      rw [GcState.occupiedBit_retireOrFree, h.occupied]
      show _ = (Vm.occupied? { vm with slots := vm.slots.set i slot } j).isSome
      rw [hocc]
      by_cases hj : j = i <;> simp [hj]
    free := fun j => by
      rw [GcState.freeBit_retireOrFree (GcState.page_of_bitAt hbit)]
      simp only [List.getElem?_set]
      by_cases hj : j = i
      · subst hj
        simp only [if_true, if_pos hi, Option.some.injEq]
        rcases hslot with ⟨g, rfl, hr⟩ | ⟨rfl, hr⟩
        · simp [hr]
        · simp [hr]
      · rw [if_neg hj, if_neg (Ne.symm hj)]
        exact h.free j
    scanEnd := by
      rw [List.length_set]
      exact h.scanEnd
    behind := by
      intro j hj hlt
      rw [List.length_set] at hlt
      obtain ⟨g, hg⟩ := h.behind j hj hlt
      have hne : i ≠ j := by
        rintro rfl
        rw [hget] at hg
        exact absurd hg (by simp)
      exact ⟨g, by rw [List.getElem?_set_ne hne]; exact hg⟩
    count := by
      show vm.gc.occupiedCount - 1 = _
      rw [List.countP_set hi, h.count]
      have h1 : Slot.isOccupied vm.slots[i] = true := by
        rw [List.getElem?_eq_getElem hi, Option.some.injEq] at hget
        rw [hget]
        rfl
      have h2 : slot.isOccupied = false := by
        unfold Slot.isOccupied
        rw [hnone]
        rfl
      rw [h1, h2]
      simp
    reference := by
      intro j s hs
      have hs' : Vm.occupied? { vm with slots := vm.slots.set i slot } j = some s := hs
      rw [hocc] at hs'
      by_cases hj : j = i
      · rw [if_pos hj] at hs'
        exact absurd hs' (by simp)
      · rw [if_neg hj] at hs'
        exact h.reference j s hs'
    pause := by
      intro hp
      obtain ⟨hnil, hblack⟩ := h.pause hp
      refine ⟨hnil, fun j => ?_⟩
      rw [GcState.color_retireOrFree]
      by_cases hj : j = i
      · simp [hj]
      · rw [if_neg hj]
        exact hblack j
    nodup := by
      rw [List.append_nil]
      exact (List.nodup_append.mp h.nodup).1
    gray := by
      intro x
      rw [List.append_nil]
      show x ∈ vm.gc.work ↔ ∃ j s, Vm.occupied? { vm with slots := vm.slots.set i slot } j = some s ∧
        s.reference = x ∧ (vm.gc.retireOrFree i reusable).color j = some .gray
      simp only [hocc, GcState.color_retireOrFree]
      constructor
      · intro hx
        obtain ⟨j, s, hs, href, hc⟩ := (h.gray x).mp (List.mem_append_left _ hx)
        have hj : j ≠ i := by
          rintro rfl
          rw [ho, Option.some.injEq] at hs
          subst hs
          exact hwork (href ▸ hx)
        exact ⟨j, s, by rw [if_neg hj]; exact hs, href, by rw [if_neg hj]; exact hc⟩
      · rintro ⟨j, s, hs, href, hc⟩
        by_cases hj : j = i
        · rw [if_pos hj] at hs
          exact absurd hs (by simp)
        · rw [if_neg hj] at hs hc
          rcases List.mem_append.mp ((h.gray x).mpr ⟨j, s, hs, href, hc⟩) with hx | hx
          · exact hx
          · exact absurd (h.slot_inj hs ho (href.trans (hhole x hx))) hj
    idle := h.idle
    capacity := fun hp => le_trans (Nat.sub_le _ _) (h.capacity hp)
    growth := h.growth
    remembered := h.remembered }

theorem retreatFrom_le (slots : List Slot) : ∀ n, retreatFrom slots n ≤ n
  | 0 => le_rfl
  | n + 1 => by
    unfold retreatFrom
    split
    · exact Nat.le_succ_of_le (retreatFrom_le slots n)
    · exact le_rfl

/-- The bound only passes free slots. -/
theorem retreatFrom_free {slots : List Slot} {n j : Nat} (hj : retreatFrom slots n ≤ j) (hn : j < n) :
    ∃ g, slots[j]? = some (.free g) := by
  induction n with
  | zero => omega
  | succ n ih =>
    unfold retreatFrom at hj
    split at hj
    · rename_i g hg
      rcases Nat.lt_succ_iff_lt_or_eq.mp hn with hlt | rfl
      · exact ih hj hlt
      · exact ⟨g, hg⟩
    · omega

/-- Lowering the scan bound keeps the bookkeeping. -/
theorem Vm.TidyWith.retreat (h : vm.TidyWith hole) : vm.retreatGcScanEnd.TidyWith hole :=
  { h with
    scanEnd := le_trans (retreatFrom_le _ _) (min_le_right _ _)
    behind := by
      intro j hj hlt
      by_cases hj' : vm.gcScanEnd ≤ j
      · exact h.behind j hj' hlt
      · exact retreatFrom_free hj (lt_min (Nat.lt_of_not_le hj') hlt) }

/-- The last slot is dropped. -/
def Vm.popSlot (vm : Vm) : Vm :=
  { vm with
    slots := vm.slots.dropLast
    gc := vm.gc.truncateSlotPages vm.slots.dropLast.length }

theorem Vm.popSlot_gc (vm : Vm) : ∃ bits, vm.popSlot.gc = { vm.gc with slotBits := bits } := by
  unfold Vm.popSlot GcState.truncateSlotPages
  split
  · exact ⟨_, rfl⟩
  · exact ⟨_, rfl⟩

section Pop

variable {g : Generation} (hlast : vm.slots.getLast? = some (.free g))
include hlast

theorem Vm.slots_eq_of_getLast? : vm.slots = vm.slots.dropLast ++ [.free g] :=
  (List.dropLast_append_getLast? _ hlast).symm

/-- Nothing is occupied behind the slots that stay. -/
theorem Vm.occupied?_behind_pop {j : Nat} (hj : vm.slots.dropLast.length ≤ j) :
    vm.occupied? j = none := by
  unfold Vm.occupied?
  rw [Vm.slots_eq_of_getLast? hlast, List.getElem?_append_right hj]
  rcases Nat.eq_zero_or_pos (j - vm.slots.dropLast.length) with h0 | h0
  · rw [h0]
    rfl
  · rw [List.getElem?_eq_none (by rw [List.length_singleton]; omega)]
    rfl

theorem Vm.occupied?_popSlot (j : Nat) : vm.popSlot.occupied? j = vm.occupied? j := by
  by_cases hj : j < vm.slots.dropLast.length
  · unfold Vm.occupied? Vm.popSlot
    simp only
    conv_rhs => rw [Vm.slots_eq_of_getLast? hlast, List.getElem?_append_left hj]
  · rw [Vm.occupied?_behind_pop hlast (Nat.le_of_not_lt hj)]
    unfold Vm.occupied? Vm.popSlot
    simp only
    rw [List.getElem?_eq_none (Nat.le_of_not_lt hj)]
    rfl

variable (h : vm.TidyWith hole)
include h

theorem Vm.TidyWith.pages_popSlot :
    vm.gc.slotBits.length = (vm.slots.dropLast.length + 64) / 64 := by
  rw [h.pages]
  conv_lhs => rw [Vm.slots_eq_of_getLast? hlast]
  rw [List.length_append, List.length_singleton]

theorem Vm.TidyWith.occupiedBit_behind_pop (j : Nat) (hj : vm.slots.dropLast.length ≤ j) :
    vm.gc.occupiedBit j = false := by
  rw [h.occupied, Vm.occupied?_behind_pop hlast hj]
  rfl

theorem Vm.TidyWith.color_popSlot (j : Nat) : vm.popSlot.gc.color j = vm.gc.color j :=
  GcState.color_truncate vm.gc (h.pages_popSlot hlast) (h.occupiedBit_behind_pop hlast) j

/-- Dropping a free slot at the end keeps the bookkeeping. -/
theorem Vm.TidyWith.pop (hscan : vm.gcScanEnd < vm.slots.length) :
    vm.popSlot.TidyWith hole := by
  have hinit := Vm.slots_eq_of_getLast? hlast
  have hlen : vm.slots.length = vm.slots.dropLast.length + 1 := by
    conv_lhs => rw [hinit]
    rw [List.length_append, List.length_singleton]
  have hpages := h.pages_popSlot hlast
  have hbit := h.occupiedBit_behind_pop hlast
  have hcolor := h.color_popSlot hlast
  have hocc := Vm.occupied?_popSlot hlast
  have hsame : ∀ {β : Type} (f : GcState → β),
      (∀ bits, f { vm.gc with slotBits := bits } = f vm.gc) → f vm.popSlot.gc = f vm.gc := by
    intro β f hf
    obtain ⟨bits, hgc⟩ := vm.popSlot_gc
    rw [hgc]
    exact hf bits
  have hphase := hsame GcState.phase fun _ => rfl
  have hwork := hsame GcState.work fun _ => rfl
  have hcount := hsame GcState.occupiedCount fun _ => rfl
  have hcap := hsame GcState.workCapacity fun _ => rfl
  have hgrowth := hsame GcState.growthCharges fun _ => rfl
  have hcharge := hsame GcState.charge fun _ => rfl
  have hrem := hsame GcState.remembered fun _ => rfl
  exact {
    pages := GcState.length_truncate vm.gc hpages
    occupied := fun j => by
      rw [hocc, ← h.occupied]
      have hcut : vm.popSlot.gc.occupiedBit j = _ :=
        GcState.bitAt_truncate vm.gc false (fun _ _ => rfl) hpages (.inr hbit) j
      rw [hcut]
      by_cases hj : j < vm.slots.dropLast.length
      · rw [decide_eq_true hj, Bool.and_true]
        rfl
      · rw [decide_eq_false hj, Bool.and_false, hbit j (Nat.le_of_not_lt hj)]
    free := fun j => by
      have hcut : vm.popSlot.gc.freeBit j = _ :=
        GcState.bitAt_truncate vm.gc true (fun _ _ => rfl) hpages (.inl rfl) j
      rw [hcut, Bool.and_eq_true, decide_eq_true_eq]
      rw [show (vm.gc.bitAt GcSlotBits.reusableFree j = true) ↔ _ from h.free j]
      show _ ↔ ∃ g', vm.slots.dropLast[j]? = some (.free g')
      constructor
      · rintro ⟨⟨g', hg'⟩, hj⟩
        rw [hinit, List.getElem?_append_left hj] at hg'
        exact ⟨g', hg'⟩
      · rintro ⟨g', hg'⟩
        have hj := (List.getElem?_eq_some_iff.mp hg').1
        exact ⟨⟨g', by rw [hinit, List.getElem?_append_left hj]; exact hg'⟩, hj⟩
    scanEnd := by
      show vm.gcScanEnd ≤ vm.slots.dropLast.length
      omega
    behind := by
      intro j hj hlt
      have hlt' : j < vm.slots.dropLast.length := hlt
      obtain ⟨g', hg'⟩ := h.behind j hj (by omega)
      rw [hinit, List.getElem?_append_left hlt'] at hg'
      exact ⟨g', hg'⟩
    count := by
      rw [hcount, h.count]
      show _ = vm.slots.dropLast.countP Slot.isOccupied
      conv_lhs => rw [hinit]
      rw [List.countP_append]
      simp [Slot.isOccupied, Slot.occupied?]
    reference := fun j o ho => h.reference j o (by rw [← hocc]; exact ho)
    pause := by
      simp only [hphase, hgrowth, hcolor]
      exact h.pause
    nodup := by rw [hwork]; exact h.nodup
    gray := by
      intro x
      simp only [hwork, hocc, hcolor]
      exact h.gray x
    idle := by rw [hphase, hwork]; exact h.idle
    capacity := by rw [hphase, hcount, hcap]; exact h.capacity
    growth := by rw [hgrowth, hcap, hcharge]; exact h.growth
    remembered := by rw [hrem]; exact h.remembered }

end Pop

end Free

/-! ### Taking an object off the collector's lists -/

section Remove

variable {vm : Vm} {reference : ObjectRef}

/-- The collector state after a reference was taken off its lists. -/
def GcState.Without (gc : GcState) (reference : ObjectRef) (gc' : GcState) : Prop :=
  ∃ rememberedCursor, gc' = { gc with
    remembered := gc.remembered.erase reference
    rememberedCursor := rememberedCursor
    work := gc.work.filter fun object => decide (object ≠ reference)
    roots := gc.roots.filter fun object => decide (object ≠ reference)
    rootCursor := gc.rootCursor -
      (gc.roots.take gc.rootCursor).countP fun object => decide (object = reference) }

/-- Erasing at the position of the first occurrence. -/
theorem eraseIdx_findIdx {l : List ObjectRef} {i : Nat}
    (h : l.findIdx? (fun object => decide (object = reference)) = some i) :
    l.eraseIdx i = l.erase reference := by
  have hp : (fun object : ObjectRef => decide (object = reference)) = (· == reference) := by
    funext object
    exact (beq_eq_decide object reference).symm
  rw [List.erase_eq_eraseP', List.eraseP_eq_eraseIdx, ← hp, h]

theorem erase_of_findIdx_eq_none {l : List ObjectRef}
    (h : l.findIdx? (fun object => decide (object = reference)) = none) :
    l.erase reference = l := by
  rw [List.findIdx?_eq_none_iff] at h
  exact List.erase_of_not_mem fun hmem => by simpa using h reference hmem

/-- The clean-up is refused, or it takes the reference off every list. -/
theorem removeUnpublishedGcReference_cases (vm : Vm) (reference : ObjectRef) :
    (∃ e l, removeUnpublishedGcReference reference vm = (.error e, { vm with ledger := l })) ∨
    (∃ l gc', removeUnpublishedGcReference reference vm =
        (.ok (), { vm with ledger := l, gc := gc' }) ∧ GcState.Without vm.gc reference gc') := by
  unfold removeUnpublishedGcReference
  rw [Prog.bind_apply_ok (Prog.get_apply vm)]
  cases hfind : vm.gc.remembered.findIdx? fun object => decide (object = reference) with
  | none =>
    refine .inr ⟨vm.ledger, _, rfl, vm.gc.rememberedCursor, ?_⟩
    rw [erase_of_findIdx_eq_none hfind]
  | some index =>
    simp only
    rcases hres : liftLedger (do
      let _ ← checkedBytes (vm.gc.remembered.length - 1) objectRefSize
      checkpoint .rememberedReserve) vm with ⟨r, vm₁⟩
    obtain ⟨l, hl⟩ := liftLedger_eq (do
      let _ ← checkedBytes (vm.gc.remembered.length - 1) objectRefSize
      checkpoint .rememberedReserve) vm
    rw [hres] at hl
    simp only at hl
    subst hl
    cases r with
    | error e => exact .inl ⟨e, l, Prog.bind_apply_error hres⟩
    | ok u =>
      refine .inr ⟨l, _, (Prog.bind_apply_ok hres).trans rfl,
        if index < vm.gc.rememberedCursor then vm.gc.rememberedCursor - 1
        else vm.gc.rememberedCursor, ?_⟩
      rw [← eraseIdx_findIdx hfind]

/-- Objects that are taken off the work list are in hand. -/
theorem Vm.TidyWith.filterWork (h : vm.Tidy) (p : ObjectRef → Bool) {gc : GcState}
    (hbits : gc.slotBits = vm.gc.slotBits)
    (hwork : gc.work = vm.gc.work.filter fun object => !p object)
    (hcounts : gc.occupiedCount = vm.gc.occupiedCount ∧ gc.workCapacity = vm.gc.workCapacity ∧
      gc.growthCharges = vm.gc.growthCharges ∧ gc.charge = vm.gc.charge)
    (hphase : gc.phase = vm.gc.phase) (hremembered : gc.remembered.Nodup) :
    Vm.TidyWith (vm.gc.work.filter p) { vm with gc := gc } := by
  have hperm : ((vm.gc.work.filter fun object => !p object) ++ vm.gc.work.filter p).Perm
      vm.gc.work := by
    have := List.filter_append_perm (fun object => !p object) vm.gc.work
    simpa using this
  have hcolor := GcState.color_congr hbits
  refine h.of_gc (by rw [hbits]) (GcState.bitAt_congr hbits _) (GcState.bitAt_congr hbits _) hcounts
    (by rw [hphase]) (fun hp i => ?_) (fun hp => ?_) ?_ (fun x => ?_) hremembered
  · rw [hcolor]
    exact (h.pause (hphase ▸ hp)).2 i
  · rw [hwork, h.idle (hphase ▸ hp)]
    rfl
  · have hnodup := h.nodup
    rw [List.append_nil] at hnodup
    rw [hwork]
    exact hperm.nodup_iff.mpr hnodup
  · have hgray := h.gray x
    rw [List.append_nil, ← hperm.mem_iff] at hgray
    rw [hwork, hgray]
    simp only [hcolor]

/-- An object that is taken off the lists is in hand when it is gray. -/
theorem Vm.TidyWith.without (h : vm.Tidy) {gc' : GcState} (hgc : GcState.Without vm.gc reference gc') :
    Vm.TidyWith (vm.gc.work.filter fun object => decide (object = reference))
      { vm with gc := gc' } := by
  obtain ⟨cursor, rfl⟩ := hgc
  refine h.filterWork _ rfl ?_ ⟨rfl, rfl, rfl, rfl⟩ rfl (h.remembered.erase reference)
  simp only [← decide_not, ne_eq]

end Remove

/-! ### Reclaiming -/

/-- The VM after the object in slot `id.slot` was freed. -/
def Vm.reclaimed (vm : Vm) (id : ObjectId) : Vm :=
  { vm with
    slots := vm.slots.set id.slot (reclaimedSlot id)
    gc := vm.gc.retireOrFree id.slot id.generation.next.isSome }.retreatGcScanEnd

section Reclaim

variable {vm : Vm} {object : ObjectRef}

/-- **Reclaiming fails with the heap as it was, or frees the slot of an object that
    resolved.** -/
theorem reclaim_cases (vm : Vm) (object : ObjectRef) :
    (∃ e l, reclaim object vm = (.error e, { vm with ledger := l })) ∨
    (∃ id o l gc', object.identity = some id ∧ vm.checkedSlot object = .ok o ∧
      GcState.Without vm.gc object gc' ∧
      reclaim object vm = (.ok (), Vm.reclaimed { vm with ledger := l, gc := gc' } id)) := by
  unfold reclaim
  cases hid : object.identity with
  | none => exact .inl ⟨_, vm.ledger, rfl⟩
  | some id =>
    rw [Prog.bind_apply_ok (show Prog.ofOption VmError.staleObject (some id) vm = (.ok id, vm) from rfl),
      Prog.bind_apply_ok (Prog.get_apply vm)]
    cases hres : vm.checkedSlot object with
    | error e => exact .inl ⟨e, vm.ledger, rfl⟩
    | ok o =>
      rw [Prog.bind_apply_ok (show Prog.ofExcept (.ok o) vm = (.ok o, vm) from rfl)]
      rcases removeUnpublishedGcReference_cases vm object with ⟨e, l, hrun⟩ | ⟨l, gc', hrun, hgc⟩
      · exact .inl ⟨e, l, Prog.bind_apply_error hrun⟩
      · exact .inr ⟨id, o, l, gc', rfl, rfl, hgc, (Prog.bind_apply_ok hrun).trans rfl⟩

/-- A freed object leaves the bookkeeping in order. -/
theorem Vm.TidyWith.reclaimed {hole : List ObjectRef} (h : vm.TidyWith hole) {id : ObjectId}
    {o : OccupiedSlot} (ho : vm.occupied? id.slot = some o) (hwork : o.reference ∉ vm.gc.work)
    (hhole : ∀ x ∈ hole, x = o.reference) : (vm.reclaimed id).Tidy := by
  refine Vm.TidyWith.retreat (h.freed _ _ ho hwork hhole ?_)
  unfold reclaimedSlot
  cases id.generation.next with
  | some next => exact .inl ⟨next, rfl, rfl⟩
  | none => exact .inr ⟨rfl, rfl⟩

/-- The object was on no list but perhaps in hand. -/
theorem Vm.TidyWith.reclaimed_without (h : vm.Tidy) {id : ObjectId} {o : OccupiedSlot}
    {gc' : GcState} (hid : object.identity = some id) (hres : vm.checkedSlot object = .ok o)
    (hgc : GcState.Without vm.gc object gc') (l : Ledger) :
    (Vm.reclaimed { vm with ledger := l, gc := gc' } id).Tidy := by
  obtain ⟨id', hid', hocc, href⟩ := Vm.occupied_of_checkedSlot hres
  obtain rfl : id = id' := by simpa [hid] using hid'
  refine Vm.TidyWith.reclaimed ((h.without hgc).ledger l) hocc ?_ ?_
  · obtain ⟨_, rfl⟩ := hgc
    rw [href]
    simp
  · intro x hx
    rw [href]
    simpa using (List.mem_filter.mp hx).2

end Reclaim

/-! ### Work capacity given back -/

/-- The collector state after the growth charged to a slot was given back. -/
def GcState.released (gc : GcState) (index : Nat) : GcState :=
  match gc.growthCharges.findIdx? fun slot => decide (slot = index) with
  | none => gc
  | some position =>
    { gc with
      charge := gc.charge - objectRefSize
      workCapacity := gc.workCapacity - 1
      growthCharges := swapRemove gc.growthCharges position }

section Release

variable {vm : Vm} {hole : List ObjectRef}

theorem length_swapRemove {α : Type} {l : List α} {i : Nat} (hi : i < l.length) :
    (swapRemove l i).length + 1 = l.length := by
  unfold swapRemove
  cases h : l.getLast? with
  | none =>
    rw [List.getLast?_eq_none_iff] at h
    simp [h] at hi
  | some last =>
    simp only [List.length_dropLast, List.length_set]
    omega

/-- Giving capacity back never underflows. -/
theorem releaseGcGrowthForSlot_eq (index : Nat)
    (hgrowth : vm.gc.growthCharges.length ≤ vm.gc.workCapacity ∧
      vm.gc.growthCharges.length * objectRefSize ≤ vm.gc.charge) :
    releaseGcGrowthForSlot index vm =
      (.ok (), { vm with gc := GcState.released vm.gc index }) := by
  unfold releaseGcGrowthForSlot GcState.released
  cases hfind : vm.gc.growthCharges.findIdx? fun slot => decide (slot = index) with
  | none => rfl
  | some position =>
    obtain ⟨hpos, -⟩ := List.findIdx?_eq_some_iff_getElem.mp hfind
    obtain ⟨h1, h2⟩ := hgrowth
    have hcharge : ¬ vm.gc.charge < objectRefSize := by
      have : 1 * objectRefSize ≤ vm.gc.growthCharges.length * objectRefSize :=
        Nat.mul_le_mul_right _ (by omega)
      omega
    simp only [if_neg hcharge]
    rw [if_neg (by omega)]

/-- Capacity that is not needed may be given back. -/
theorem Vm.TidyWith.released (h : vm.TidyWith hole) (index : Nat)
    (hroom : vm.gc.phase ≠ .pause → vm.gc.occupiedCount < vm.gc.workCapacity) :
    Vm.TidyWith hole { vm with gc := GcState.released vm.gc index } := by
  unfold GcState.released
  cases hfind : vm.gc.growthCharges.findIdx? fun slot => decide (slot = index) with
  | none => exact h
  | some position =>
    obtain ⟨hpos, -⟩ := List.findIdx?_eq_some_iff_getElem.mp hfind
    have hlen := length_swapRemove hpos
    obtain ⟨h1, h2⟩ := h.growth
    exact { h with
      pause := fun hp => by
        rw [(h.pause hp).1] at hpos
        simp at hpos
      capacity := fun hp => Nat.le_sub_one_of_lt (hroom hp)
      growth := by
        constructor
        · show (swapRemove _ _).length ≤ vm.gc.workCapacity - 1
          omega
        · show (swapRemove _ _).length * objectRefSize ≤ vm.gc.charge - objectRefSize
          rw [← hlen, Nat.add_mul] at h2
          omega }

end Release

/-! ### One slot gives its object up -/

/-- What every way of freeing does: the slot `index` keeps `left` of what it was (nothing when
    it is dropped), `reference` leaves the collector's lists, the rest of the VM stays. -/
structure Vm.Frees (vm : Vm) (index : Nat) (reference : ObjectRef) (left : Option Slot)
    (vm' : Vm) : Prop where
  frame : ∃ slots scanEnd ledger gc, vm' = { vm with
    slots := slots, gcScanEnd := scanEnd, ledger := ledger, gc := gc }
  slots : ∀ j, vm'.slots[j]? = if j = index then left else vm.slots[j]?
  left : left.bind Slot.occupied? = none
  color : ∀ j, vm'.gc.color j = if j = index then none else vm.gc.color j
  cycle : vm'.gc.phase = vm.gc.phase ∧ vm'.gc.mode = vm.gc.mode ∧ vm'.gc.cycle = vm.gc.cycle ∧
    vm'.gc.atomicFinalizerStage = vm.gc.atomicFinalizerStage ∧
    vm'.gc.sweepCursor = vm.gc.sweepCursor
  work : ∀ x ∈ vm'.gc.work, x ∈ vm.gc.work
  snapshot : ∀ x ∈ vm.gc.roots.drop vm.gc.rootCursor, x ≠ reference →
    x ∈ vm'.gc.roots.drop vm'.gc.rootCursor
  scanned : ∀ j, (vm'.occupied? j).isSome → j < vm.gc.ephemeronCursor →
    j < vm'.gc.ephemeronCursor
  unscanned : vm'.gc.ephemeronCursor ≤ vm.gc.ephemeronCursor

namespace Vm.Frees

variable {vm vm' : Vm} {index : Nat} {reference : ObjectRef} {left : Option Slot}

theorem occupied? (h : vm.Frees index reference left vm') (j : Nat) :
    vm'.occupied? j = if j = index then none else vm.occupied? j := by
  unfold Vm.occupied?
  rw [h.slots]
  by_cases hj : j = index
  · rw [if_pos hj, if_pos hj]
    exact h.left
  · rw [if_neg hj, if_neg hj]

/-- Nothing resolves that did not resolve before, and the freed slot resolves nothing. -/
theorem checkedSlot (h : vm.Frees index reference left vm') {object : ObjectRef}
    {o : OccupiedSlot} :
    vm'.checkedSlot object = .ok o ↔
      vm.checkedSlot object = .ok o ∧ ∀ id, object.identity = some id → id.slot ≠ index := by
  obtain ⟨slots, scanEnd, ledger, gc, heq⟩ := h.frame
  have hvm : vm'.id = vm.id := by rw [heq]
  rw [Vm.checkedSlot_eq_ok, Vm.checkedSlot_eq_ok, hvm]
  constructor
  · rintro ⟨id, hid, hv, hocc, hrest⟩
    rw [h.occupied?] at hocc
    by_cases hj : id.slot = index
    · rw [if_pos hj] at hocc
      exact absurd hocc (by simp)
    · rw [if_neg hj] at hocc
      refine ⟨⟨id, hid, hv, hocc, hrest⟩, fun id' hid' => ?_⟩
      obtain rfl : id = id' := by simpa [hid] using hid'
      exact hj
  · rintro ⟨⟨id, hid, hv, hocc, hrest⟩, hne⟩
    exact ⟨id, hid, hv, by rw [h.occupied?, if_neg (hne id hid)]; exact hocc, hrest⟩

end Vm.Frees

section Frees

variable {vm : Vm} {object : ObjectRef}

/-- The cursor still separates the same elements when some are filtered out. -/
theorem drop_filter_sub_countP {α : Type} (p q : α → Bool) (hpq : ∀ x, q x = !p x) (l : List α)
    (c : Nat) : (l.filter p).drop (c - (l.take c).countP q) = (l.drop c).filter p := by
  induction l generalizing c with
  | nil => simp
  | cons x rest ih =>
    cases c with
    | zero => simp
    | succ c =>
      have hle : (rest.take c).countP q ≤ c :=
        le_trans List.countP_le_length (by simp)
      cases hp : p x with
      | true =>
        rw [List.filter_cons_of_pos hp, List.take_succ_cons, List.drop_succ_cons,
          List.countP_cons_of_neg (by simp [hpq, hp]), Nat.succ_sub hle, List.drop_succ_cons, ih]
      | false =>
        rw [List.filter_cons_of_neg (by simp [hp]), List.take_succ_cons, List.drop_succ_cons,
          List.countP_cons_of_pos (by simp [hpq, hp]), Nat.add_sub_add_right, ih]

/-- Reclaiming frees the slot, with the next generation. -/
theorem Vm.frees_reclaimed {id : ObjectId} {o : OccupiedSlot} {gc' : GcState}
    (hocc : vm.occupied? id.slot = some o) (hgc : GcState.Without vm.gc object gc') (l : Ledger) :
    vm.Frees id.slot object (some (reclaimedSlot id))
      (Vm.reclaimed { vm with ledger := l, gc := gc' } id) := by
  have hlt := Vm.lt_of_occupied hocc
  obtain ⟨cursor, rfl⟩ := hgc
  exact {
    frame := ⟨_, _, _, _, rfl⟩
    slots := fun j => by
      simp only [Vm.reclaimed, Vm.retreatGcScanEnd, List.getElem?_set]
      by_cases hj : j = id.slot
      · rw [if_pos hj, if_pos hj.symm, if_pos hlt]
      · rw [if_neg hj, if_neg (Ne.symm hj)]
    left := by
      unfold reclaimedSlot
      cases id.generation.next <;> rfl
    color := fun j => GcState.color_retireOrFree j
    cycle := ⟨rfl, rfl, rfl, rfl, rfl⟩
    work := fun x hx => (List.mem_filter.mp hx).1
    snapshot := fun x hx hne => by
      have hmem : x ∈ (vm.gc.roots.drop vm.gc.rootCursor).filter fun y => decide (y ≠ object) :=
        List.mem_filter.mpr ⟨hx, by simpa using hne⟩
      rw [← drop_filter_sub_countP _ (fun y => decide (y = object)) (fun y => by simp)] at hmem
      exact hmem
    scanned := fun j _ hj => hj
    unscanned := le_rfl }

/-- **Reclaiming fails with the heap as it was, or frees the slot of an object that
    resolved.** -/
theorem reclaim_spec (h : vm.Tidy) (object : ObjectRef) :
    (∃ e l, reclaim object vm = (.error e, { vm with ledger := l })) ∨
    (∃ id o vm', object.identity = some id ∧ vm.checkedSlot object = .ok o ∧
      reclaim object vm = (.ok (), vm') ∧ vm'.Tidy ∧
      vm.Frees id.slot object (some (reclaimedSlot id)) vm') := by
  rcases reclaim_cases vm object with herr | ⟨id, o, l, gc', hid, hres, hgc, hrun⟩
  · exact .inl herr
  · obtain ⟨id', hid', hocc, -⟩ := Vm.occupied_of_checkedSlot hres
    obtain rfl : id = id' := by simpa [hid] using hid'
    exact .inr ⟨id, o, _, hid, hres, hrun, h.reclaimed_without hid hres hgc l,
      Vm.frees_reclaimed hocc hgc l⟩

/-- The object is off the lists already: nothing is asked of the ledger. -/
theorem removeUnpublishedGcReference_of_not_mem (h : object ∉ vm.gc.remembered) :
    ∃ gc', removeUnpublishedGcReference object vm = (.ok (), { vm with gc := gc' }) ∧
      GcState.Without vm.gc object gc' := by
  unfold removeUnpublishedGcReference
  have hfind : (vm.gc.remembered.findIdx? fun x => decide (x = object)) = none := by
    rw [List.findIdx?_eq_none_iff]
    intro x hx
    simp only [decide_eq_false_iff_not]
    rintro rfl
    exact h hx
  rw [Prog.bind_apply_ok (Prog.get_apply vm)]
  simp only [hfind]
  refine ⟨_, rfl, vm.gc.rememberedCursor, ?_⟩
  rw [List.erase_of_not_mem h]

/-- Taking a reference off the lists a second time changes nothing more. -/
theorem GcState.Without.trans {gc gc' gc'' : GcState} (h : GcState.Without gc object gc')
    (h' : GcState.Without gc' object gc'') (hnodup : gc.remembered.Nodup) :
    GcState.Without gc object gc'' := by
  obtain ⟨c, rfl⟩ := h
  obtain ⟨c', rfl⟩ := h'
  have hidem : ∀ l : List ObjectRef, (l.filter fun x => decide (x ≠ object)).filter
      (fun x => decide (x ≠ object)) = l.filter fun x => decide (x ≠ object) := by
    intro l
    simp [List.filter_filter]
  have hcount : ∀ (l : List ObjectRef) (n : Nat),
      ((l.filter fun x => decide (x ≠ object)).take n).countP (fun x => decide (x = object)) = 0 := by
    intro l n
    rw [List.countP_eq_zero]
    intro x hx
    simpa using (List.mem_filter.mp (List.mem_of_mem_take hx)).2
  refine ⟨c', ?_⟩
  simp only [hidem, hcount, Nat.sub_zero]
  rw [List.erase_of_not_mem (a := object) (hnodup.not_mem_erase)]

/-- An object that resolves and is not remembered is reclaimed without any request. -/
theorem reclaim_of_not_mem (vm : Vm) {o : OccupiedSlot} (hres : vm.checkedSlot object = .ok o)
    (hmem : object ∉ vm.gc.remembered) : ∃ vm', reclaim object vm = (.ok (), vm') := by
  obtain ⟨id, hid, -⟩ := Vm.checkedSlot_eq_ok.mp hres
  obtain ⟨gc', hrun, -⟩ := removeUnpublishedGcReference_of_not_mem hmem
  unfold reclaim
  rw [hid, Prog.bind_apply_ok (show Prog.ofOption VmError.staleObject (some id) vm = (.ok id, vm) from rfl),
    Prog.bind_apply_ok (Prog.get_apply vm), hres,
    Prog.bind_apply_ok (show Prog.ofExcept (.ok o) vm = (.ok o, vm) from rfl),
    Prog.bind_apply_ok hrun]
  exact ⟨_, rfl⟩

/-- **Reclaiming an unpublished object** fails with the heap as it was, or frees its slot. -/
theorem reclaimUnpublishedObject_cases (h : vm.Tidy) (object : ObjectRef) :
    (∃ e l gc', reclaimUnpublishedObject object vm = (.error e, { vm with ledger := l, gc := gc' }) ∧
      (gc' = vm.gc ∨
        (GcState.Without vm.gc object gc' ∧ ∀ o, vm.checkedSlot object ≠ .ok o))) ∨
    (∃ id o l gc', object.identity = some id ∧ vm.checkedSlot object = .ok o ∧
      GcState.Without vm.gc object gc' ∧
      reclaimUnpublishedObject object vm =
        (.ok (), Vm.reclaimed { vm with ledger := l, gc := gc' } id)) := by
  unfold reclaimUnpublishedObject
  rcases removeUnpublishedGcReference_cases vm object with ⟨e, l, hrun⟩ | ⟨l, gc', hrun, hgc⟩
  · exact .inl ⟨e, l, vm.gc, Prog.bind_apply_error hrun, .inl rfl⟩
  · rw [Prog.bind_apply_ok hrun]
    have hmem : object ∉ gc'.remembered := by
      obtain ⟨_, rfl⟩ := hgc
      exact h.remembered.not_mem_erase
    rcases reclaim_cases { vm with ledger := l, gc := gc' } object with
      ⟨e, l', hrun'⟩ | ⟨id, o, l', gc'', hid, hres, hgc', hrun'⟩
    · have hstale : ∀ o, vm.checkedSlot object ≠ .ok o := by
        intro o ho
        obtain ⟨vm', hok⟩ := reclaim_of_not_mem { vm with ledger := l, gc := gc' } ho hmem
        rw [hrun'] at hok
        exact absurd (congrArg Prod.fst hok) (by simp)
      exact .inl ⟨e, l', gc', hrun', .inr ⟨hgc, hstale⟩⟩
    · exact .inr ⟨id, o, l', _, hid, hres, hgc.trans hgc' h.remembered, hrun'⟩

end Frees

end RivetLua.Runtime
