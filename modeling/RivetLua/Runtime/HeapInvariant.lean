import Mathlib.Data.List.Nodup
import Mathlib.Data.List.Perm.Subperm
import RivetLua.Gc.Bits
import RivetLua.Runtime.Mutator

namespace RivetLua.Runtime

open RivetLua.Core RivetLua.Gc StateProg

/-!
# Runtime — the bookkeeping of slots, bits and the gray work list

* `Vm.TidyWith hole` — bits, slots, counters and the work list agree.  `hole` lists the gray
  objects that are in hand and not on the work list: the one being traced, or being freed;
* `Vm.Tidy` — the same with nothing in hand, which is how every operation leaves the VM;
* `Marked P` — what a program that only marks may change: white objects of `P` become gray;
* `TidyWith.mark` — marking an object that resolves succeeds: the capacity announced at the
  start of the cycle always suffices.
-/

/-- Is the slot occupied? -/
def Slot.isOccupied (s : Slot) : Bool := s.occupied?.isSome

/-- Bits, slots, counters and work list agree; the objects of `hole` are gray and not on the
    work list. -/
structure Vm.TidyWith (hole : List ObjectRef) (vm : Vm) : Prop where
  pages : vm.gc.slotBits.length = (vm.slots.length + 63) / 64
  occupied : ∀ i, vm.gc.occupiedBit i = (vm.occupied? i).isSome
  free : ∀ i, vm.gc.freeBit i = true ↔ ∃ g, vm.slots[i]? = some (.free g)
  scanEnd : vm.gcScanEnd ≤ vm.slots.length
  behind : ∀ i, vm.gcScanEnd ≤ i → i < vm.slots.length → ∃ g, vm.slots[i]? = some (.free g)
  count : vm.gc.occupiedCount = vm.slots.countP Slot.isOccupied
  reference : ∀ i o, vm.occupied? i = some o →
    ∃ token, o.reference = .heap ⟨vm.id, i, o.generation⟩ (some token) ∧ token < vm.nextToken
  pause : vm.gc.phase = .pause → vm.gc.growthCharges = [] ∧ ∀ i, vm.gc.color i ≠ some .black
  nodup : (vm.gc.work ++ hole).Nodup
  gray : ∀ o, o ∈ vm.gc.work ++ hole ↔
    ∃ i s, vm.occupied? i = some s ∧ s.reference = o ∧ vm.gc.color i = some .gray
  idle : vm.gc.phase = .pause → vm.gc.work = []
  capacity : vm.gc.phase ≠ .pause → vm.gc.occupiedCount ≤ vm.gc.workCapacity
  growth : vm.gc.growthCharges.length ≤ vm.gc.workCapacity ∧
    vm.gc.growthCharges.length * objectRefSize ≤ vm.gc.charge
  remembered : vm.gc.remembered.Nodup

/-- The bookkeeping between two operations. -/
abbrev Vm.Tidy (vm : Vm) : Prop := vm.TidyWith []

/-! ### Slots -/

theorem Vm.occupied?_eq_some {vm : Vm} {i : Nat} {o : OccupiedSlot} :
    vm.occupied? i = some o ↔ vm.slots[i]? = some (.occupied o) := by
  unfold Vm.occupied?
  cases h : vm.slots[i]? with
  | none => simp
  | some s => cases s <;> simp [Slot.occupied?]

theorem Vm.lt_of_occupied {vm : Vm} {i : Nat} {o : OccupiedSlot} (h : vm.occupied? i = some o) :
    i < vm.slots.length :=
  (List.getElem?_eq_some_iff.mp (Vm.occupied?_eq_some.mp h)).1

/-- Reading a slot list after one slot changed. -/
theorem occupied?_set {vm : Vm} {i : Nat} {s : Slot} (hi : i < vm.slots.length) (j : Nat) :
    Vm.occupied? { vm with slots := vm.slots.set i s } j =
      if j = i then s.occupied? else vm.occupied? j := by
  unfold Vm.occupied?
  simp only [List.getElem?_set]
  by_cases h : j = i
  · subst h
    simp [hi]
  · simp [h, Ne.symm h]

theorem Vm.occupied?_setOccupied {vm : Vm} {i : Nat} {o o' : OccupiedSlot}
    (h : vm.occupied? i = some o) (j : Nat) :
    (vm.setOccupied i o').occupied? j = if j = i then some o' else vm.occupied? j :=
  occupied?_set (Vm.lt_of_occupied h) j

section Tidy

variable {vm : Vm} {hole : List ObjectRef}

theorem Vm.TidyWith.color_eq_none (h : vm.TidyWith hole) (i : Nat) :
    vm.gc.color i = none ↔ vm.occupied? i = none := by
  rw [GcState.color_eq_none, h.occupied]
  cases vm.occupied? i <;> simp

/-- An occupied slot has a colour. -/
theorem Vm.TidyWith.color_of_occupied (h : vm.TidyWith hole) {i : Nat} {o : OccupiedSlot}
    (ho : vm.occupied? i = some o) : ∃ c, vm.gc.color i = some c := by
  rw [← Option.ne_none_iff_exists', Ne, h.color_eq_none, ho]
  simp

theorem Vm.TidyWith.identity (h : vm.TidyWith hole) {i : Nat} {o : OccupiedSlot}
    (ho : vm.occupied? i = some o) : o.reference.identity = some ⟨vm.id, i, o.generation⟩ := by
  obtain ⟨token, href, -⟩ := h.reference i o ho
  rw [href]
  rfl

/-- The reference stored in a slot resolves to the slot. -/
theorem Vm.TidyWith.checkedSlot_reference (h : vm.TidyWith hole) {i : Nat} {o : OccupiedSlot}
    (ho : vm.occupied? i = some o) : vm.checkedSlot o.reference = .ok o :=
  Vm.checkedSlot_eq_ok.mpr ⟨_, h.identity ho, rfl, ho, rfl, rfl⟩

/-- A reference that resolves is the one stored in its slot. -/
theorem Vm.occupied_of_checkedSlot {object : ObjectRef} {o : OccupiedSlot}
    (h : vm.checkedSlot object = .ok o) :
    ∃ id, object.identity = some id ∧ vm.occupied? id.slot = some o ∧ o.reference = object := by
  obtain ⟨id, hid, -, hocc, -, href⟩ := Vm.checkedSlot_eq_ok.mp h
  exact ⟨id, hid, hocc, href⟩

/-- Gray objects are distinct occupied slots, so they are counted. -/
theorem Vm.TidyWith.length_le (h : vm.TidyWith hole) (extra : List Nat) (hnodup : extra.Nodup)
    (hextra : ∀ i ∈ extra, (vm.occupied? i).isSome ∧ vm.gc.color i ≠ some .gray) :
    vm.gc.work.length + hole.length + extra.length ≤ vm.gc.occupiedCount := by
  -- the slots of the gray objects
  obtain ⟨slots, hslots⟩ : ∃ slots : List Nat, slots = (vm.gc.work ++ hole).map fun o =>
      (o.identity.map ObjectId.slot).getD 0 := ⟨_, rfl⟩
  have hmem : ∀ o ∈ vm.gc.work ++ hole, ∃ s,
      vm.occupied? ((o.identity.map ObjectId.slot).getD 0) = some s ∧ s.reference = o ∧
        vm.gc.color ((o.identity.map ObjectId.slot).getD 0) = some .gray := by
    intro o ho
    obtain ⟨i, s, hs, rfl, hc⟩ := (h.gray o).mp ho
    rw [h.identity hs]
    exact ⟨s, hs, rfl, hc⟩
  have hinj : slots.Nodup := by
    rw [hslots]
    refine List.Nodup.map_on (fun a ha b hb heq => ?_) h.nodup
    obtain ⟨s, hs, hsa, -⟩ := hmem a ha
    obtain ⟨t, ht, htb, -⟩ := hmem b hb
    rw [heq, ht] at hs
    rw [← hsa, ← htb, Option.some.inj hs]
  have hall : (slots ++ extra).Nodup := by
    rw [List.nodup_append]
    refine ⟨hinj, hnodup, ?_⟩
    rintro i hi j hj rfl
    rw [hslots] at hi
    obtain ⟨o, ho, rfl⟩ := List.mem_map.mp hi
    obtain ⟨s, -, -, hc⟩ := hmem o ho
    exact (hextra _ hj).2 hc
  have hsub : slots ++ extra ⊆ (List.range vm.slots.length).filter fun i => (vm.occupied? i).isSome := by
    intro i hi
    have hocc : (vm.occupied? i).isSome := by
      rcases List.mem_append.mp hi with hi | hi
      · rw [hslots] at hi
        obtain ⟨o, ho, rfl⟩ := List.mem_map.mp hi
        obtain ⟨s, hs, -⟩ := hmem o ho
        simp [hs]
      · exact (hextra i hi).1
    obtain ⟨o, ho⟩ := Option.isSome_iff_exists.mp hocc
    exact List.mem_filter.mpr ⟨List.mem_range.mpr (Vm.lt_of_occupied ho), by simp [ho]⟩
  have hlen := (hall.subperm hsub).length_le
  have hcount : ((List.range vm.slots.length).filter fun i => (vm.occupied? i).isSome).length
      = vm.slots.countP Slot.isOccupied := by
    rw [← List.countP_eq_length_filter]
    have hmap : vm.slots = (List.range vm.slots.length).map fun i => vm.slots[i]?.getD .retired := by
      refine List.ext_getElem (by simp) fun i h₁ h₂ => ?_
      simp [List.getElem?_eq_getElem h₁]
    conv_rhs => rw [hmap, List.countP_map]
    refine List.countP_congr fun i hi => ?_
    have hi' := List.mem_range.mp hi
    simp [Vm.occupied?, Slot.isOccupied, List.getElem?_eq_getElem hi']
  rw [h.count, ← hcount]
  have : slots.length = vm.gc.work.length + hole.length := by
    rw [hslots, List.length_map, List.length_append]
  rw [List.length_append, this] at hlen
  omega

/-- There is room on the work list for a white object. -/
theorem Vm.TidyWith.room (h : vm.TidyWith hole) (hphase : vm.gc.phase ≠ .pause) {i : Nat}
    {o : OccupiedSlot} (ho : vm.occupied? i = some o) (hc : vm.gc.color i = some .white) :
    vm.gc.work.length < vm.gc.workCapacity := by
  have hle := h.length_le [i] (List.nodup_singleton i) fun j hj => by
    rw [List.mem_singleton.mp hj]
    exact ⟨by simp [ho], by simp [hc]⟩
  have hcap := h.capacity hphase
  simp only [List.length_singleton] at hle
  omega

/-- The bookkeeping after a change of the collector state that keeps bits and counters. -/
theorem Vm.TidyWith.of_gc (h : vm.TidyWith hole) {gc : GcState} {hole' : List ObjectRef}
    (hpages : gc.slotBits.length = vm.gc.slotBits.length)
    (hocc : ∀ i, gc.occupiedBit i = vm.gc.occupiedBit i)
    (hfree : ∀ i, gc.freeBit i = vm.gc.freeBit i)
    (hcounts : gc.occupiedCount = vm.gc.occupiedCount ∧ gc.workCapacity = vm.gc.workCapacity ∧
      gc.growthCharges = vm.gc.growthCharges ∧ gc.charge = vm.gc.charge)
    (hphase : gc.phase = .pause ↔ vm.gc.phase = .pause)
    (hblack : gc.phase = .pause → ∀ i, gc.color i ≠ some .black)
    (hidle : gc.phase = .pause → gc.work = [])
    (hnodup : (gc.work ++ hole').Nodup)
    (hgray : ∀ o, o ∈ gc.work ++ hole' ↔
      ∃ i s, vm.occupied? i = some s ∧ s.reference = o ∧ gc.color i = some .gray)
    (hremembered : gc.remembered.Nodup) :
    Vm.TidyWith hole' { vm with gc := gc } := by
  obtain ⟨hcount, hcap, hgrowth, hcharge⟩ := hcounts
  exact {
    pages := hpages.trans h.pages
    occupied := fun i => (hocc i).trans (h.occupied i)
    free := fun i => (by rw [hfree]; exact h.free i)
    scanEnd := h.scanEnd
    behind := h.behind
    count := hcount.trans h.count
    reference := h.reference
    pause := fun hp => ⟨hgrowth.trans (h.pause (hphase.mp hp)).1, hblack hp⟩
    nodup := hnodup
    gray := hgray
    idle := hidle
    capacity := fun hp => by
      rw [hcount, hcap]
      exact h.capacity fun h' => hp (hphase.mpr h')
    growth := by
      rw [hgrowth, hcap, hcharge]
      exact h.growth
    remembered := hremembered }

/-- A change of the collector state that touches neither bits, counters, work list nor
    phase. -/
theorem Vm.TidyWith.of_gc_same (h : vm.TidyWith hole) {gc : GcState}
    (hbits : gc.slotBits = vm.gc.slotBits) (hwork : gc.work = vm.gc.work)
    (hcounts : gc.occupiedCount = vm.gc.occupiedCount ∧ gc.workCapacity = vm.gc.workCapacity ∧
      gc.growthCharges = vm.gc.growthCharges ∧ gc.charge = vm.gc.charge)
    (hphase : gc.phase = .pause ↔ vm.gc.phase = .pause)
    (hremembered : gc.remembered.Nodup) :
    Vm.TidyWith hole { vm with gc := gc } := by
  have hbit := GcState.bitAt_congr hbits
  have hcolor := GcState.color_congr hbits
  refine h.of_gc (by rw [hbits]) (hbit _) (hbit _) hcounts hphase ?_ ?_ ?_ ?_ hremembered
  · intro hp i
    rw [hcolor]
    exact (h.pause (hphase.mp hp)).2 i
  · intro hp
    rw [hwork]
    exact h.idle (hphase.mp hp)
  · rw [hwork]
    exact h.nodup
  · intro o
    simp only [hwork, hcolor]
    exact h.gray o

/-- An object that is not gray is not on the work list. -/
theorem Vm.TidyWith.not_mem (h : vm.TidyWith hole) {i : Nat} {o : OccupiedSlot}
    (ho : vm.occupied? i = some o) (hc : vm.gc.color i ≠ some .gray) :
    o.reference ∉ vm.gc.work ++ hole := by
  intro hmem
  obtain ⟨j, s, hs, href, hgray⟩ := (h.gray _).mp hmem
  -- the reference determines the slot
  have hid := h.identity hs
  rw [href, h.identity ho] at hid
  obtain rfl : i = j := by
    simpa using congrArg (Option.map ObjectId.slot) hid
  exact hc hgray

/-- The slot of an occupied object is determined by its reference. -/
theorem Vm.TidyWith.slot_inj (h : vm.TidyWith hole) {i j : Nat} {o s : OccupiedSlot}
    (ho : vm.occupied? i = some o) (hs : vm.occupied? j = some s)
    (href : o.reference = s.reference) : i = j := by
  have hid := h.identity hs
  rw [← href, h.identity ho] at hid
  simpa using congrArg (Option.map ObjectId.slot) hid

end Tidy

/-! ### Marking -/

/-- What a program that only marks may change: white objects in slots of `P` become gray and
    are pushed on the work list. -/
structure Marked (P : Nat → Prop) (vm vm' : Vm) : Prop where
  gc : ∃ bits work phase, vm' = { vm with
    gc := { vm.gc with slotBits := bits, work := work, phase := phase } }
  color : ∀ i, vm'.gc.color i = vm.gc.color i ∨
    (P i ∧ vm.gc.color i = some .white ∧ vm'.gc.color i = some .gray)
  phase : vm'.gc.phase = vm.gc.phase ∨ (vm.gc.phase = .sweep ∧ vm'.gc.phase = .propagate)
  work : ∃ new, vm'.gc.work = new ++ vm.gc.work
  same : vm'.gc.work.length = vm.gc.work.length → vm' = vm

namespace Marked

variable {P Q : Nat → Prop} {vm vm' vm'' : Vm}

theorem refl (P : Nat → Prop) (vm : Vm) : Marked P vm vm where
  gc := ⟨_, _, _, rfl⟩
  color := fun _ => .inl rfl
  phase := .inl rfl
  work := ⟨[], rfl⟩
  same := fun _ => rfl

theorem mono (h : Marked P vm vm') (hPQ : ∀ i, P i → Q i) : Marked Q vm vm' :=
  { h with
    color := fun i => (h.color i).imp_right fun ⟨hP, hc⟩ => ⟨hPQ i hP, hc⟩ }

theorem trans (h : Marked P vm vm') (h' : Marked P vm' vm'') : Marked P vm vm'' where
  gc := by
    obtain ⟨bits, work, phase, rfl⟩ := h.gc
    obtain ⟨bits', work', phase', rfl⟩ := h'.gc
    exact ⟨bits', work', phase', rfl⟩
  color := by
    intro i
    rcases h'.color i with h₂ | ⟨hP, hw, hg⟩
    · rw [h₂]
      exact h.color i
    · rcases h.color i with h₁ | ⟨-, -, hg'⟩
      · exact .inr ⟨hP, h₁ ▸ hw, hg⟩
      · rw [hg'] at hw
        exact absurd hw (by simp)
  phase := by
    rcases h'.phase with h₂ | ⟨hs, hp⟩
    · rw [h₂]
      exact h.phase
    · rcases h.phase with h₁ | ⟨-, hp'⟩
      · exact .inr ⟨h₁ ▸ hs, hp⟩
      · rw [hp'] at hs
        exact absurd hs (by simp)
  work := by
    obtain ⟨new, hnew⟩ := h.work
    obtain ⟨new', hnew'⟩ := h'.work
    exact ⟨new' ++ new, by rw [hnew', hnew, List.append_assoc]⟩
  same := by
    intro hlen
    obtain ⟨new, hnew⟩ := h.work
    obtain ⟨new', hnew'⟩ := h'.work
    have h₁ : vm'.gc.work.length = vm.gc.work.length := by
      rw [hnew', hnew] at hlen
      rw [hnew]
      simp only [List.length_append] at hlen ⊢
      omega
    have h₂ : vm''.gc.work.length = vm'.gc.work.length := hlen.trans h₁.symm
    rw [h'.same h₂, h.same h₁]

theorem slots (h : Marked P vm vm') : vm'.slots = vm.slots := by
  obtain ⟨_, _, _, rfl⟩ := h.gc
  rfl

theorem occupied? (h : Marked P vm vm') (i : Nat) : vm'.occupied? i = vm.occupied? i := by
  obtain ⟨_, _, _, rfl⟩ := h.gc
  rfl

theorem checkedSlot (h : Marked P vm vm') (o : ObjectRef) : vm'.checkedSlot o = vm.checkedSlot o := by
  obtain ⟨_, _, _, rfl⟩ := h.gc
  rfl

/-- Marking never makes an object white. -/
theorem nonwhite (h : Marked P vm vm') {i : Nat} (hc : vm.gc.color i ≠ some .white) :
    vm'.gc.color i = vm.gc.color i := by
  rcases h.color i with h₁ | ⟨-, hw, -⟩
  · exact h₁
  · exact absurd hw hc

theorem phase_pause (h : Marked P vm vm') : vm'.gc.phase = .pause ↔ vm.gc.phase = .pause := by
  rcases h.phase with hp | ⟨hs, hp⟩
  · rw [hp]
  · simp [hs, hp]

end Marked

section Mark

variable {vm : Vm} {hole : List ObjectRef}

/-- A white object becomes gray. -/
theorem Vm.TidyWith.pushGray (h : vm.TidyWith hole) {i : Nat} {o : OccupiedSlot}
    (ho : vm.occupied? i = some o) (hphase : vm.gc.phase ≠ .pause)
    (hc : vm.gc.color i = some .white) :
    Vm.TidyWith hole { vm with gc := vm.gc.pushGray i o.reference } ∧
      Marked (· = i) vm { vm with gc := vm.gc.pushGray i o.reference } := by
  have hbit : vm.gc.occupiedBit i = true := by rw [h.occupied, ho]; rfl
  obtain ⟨phase, hgc, hph⟩ := GcState.pushGray_eq vm.gc i o.reference
  rw [hgc]
  have hcolor : ∀ j, (vm.gc.setColor i .gray).color j = if j = i then some .gray else vm.gc.color j :=
    GcState.color_setColor vm.gc i .gray hbit
  have hpause : phase = .pause ↔ vm.gc.phase = .pause := by
    rcases hph with rfl | ⟨hs, rfl⟩
    · exact Iff.rfl
    · simp [hs]
  constructor
  · refine h.of_gc (by simp [GcState.setColor, GcState.modifyPage]) (fun j => ?_) (fun j => ?_)
      ⟨rfl, rfl, rfl, rfl⟩ hpause (fun hp => absurd (hpause.mp hp) hphase)
      (fun hp => absurd (hpause.mp hp) hphase) ?_ (fun x => ?_) h.remembered
    · exact GcState.occupiedBit_setColor vm.gc i .gray j
    · exact GcState.freeBit_setColor vm.gc i .gray j
    · exact List.nodup_cons.mpr ⟨h.not_mem ho (by simp [hc]), h.nodup⟩
    · rw [List.cons_append, List.mem_cons, h.gray]
      constructor
      · rintro (rfl | ⟨j, s, hs, href, hg⟩)
        · exact ⟨i, o, ho, rfl, (hcolor i).trans (if_pos rfl)⟩
        · refine ⟨j, s, hs, href, (hcolor j).trans ?_⟩
          rw [if_neg]
          · exact hg
          · rintro rfl
            rw [hc] at hg
            exact absurd hg (by simp)
      · rintro ⟨j, s, hs, href, hg⟩
        have hg' := (hcolor j).symm.trans hg
        by_cases hj : j = i
        · subst hj
          rw [ho] at hs
          exact .inl (by rw [← href, Option.some.inj hs])
        · rw [if_neg hj] at hg'
          exact .inr ⟨j, s, hs, href, hg'⟩
  · refine ⟨⟨_, _, _, rfl⟩, fun j => ?_, ?_, ⟨[o.reference], rfl⟩, fun hlen => ?_⟩
    · by_cases hj : j = i
      · subst hj
        exact .inr ⟨rfl, hc, (hcolor j).trans (if_pos rfl)⟩
      · exact .inl ((hcolor j).trans (if_neg hj))
    · exact hph
    · exact absurd hlen (by simp)

/-- **Marking an object that resolves succeeds**, and leaves it gray or black. -/
theorem Vm.TidyWith.mark (h : vm.TidyWith hole) {object : ObjectRef} {o : OccupiedSlot}
    (hres : vm.checkedSlot object = .ok o) :
    ∃ id vm', object.identity = some id ∧ gcMarkSlot object vm = (.ok (), vm') ∧
      vm'.TidyWith hole ∧ Marked (· = id.slot) vm vm' ∧
      (vm.gc.phase ≠ .pause → vm'.gc.color id.slot ≠ some .white) := by
  obtain ⟨id, hid, hocc, href⟩ := Vm.occupied_of_checkedSlot hres
  refine ⟨id, ?_⟩
  rcases gcMarkSlot_cases object vm with ⟨e, -, herr⟩ | ⟨id', o', hid', -, hrun⟩
  · rcases herr with herr | ⟨id', -, hid', -, hphase, ⟨hnone, -⟩ | ⟨hwhite, hfull, -⟩⟩
    · rw [hres] at herr
      exact absurd herr (by simp)
    · obtain rfl : id = id' := by simpa [hid] using hid'
      rw [h.color_eq_none, hocc] at hnone
      exact absurd hnone (by simp)
    · obtain rfl : id = id' := by simpa [hid] using hid'
      have := h.room hphase hocc hwhite
      omega
  · obtain rfl : id = id' := by simpa [hid] using hid'
    rcases hrun with ⟨hrun, hdone⟩ | ⟨hrun, hphase, hwhite, -⟩
    · refine ⟨vm, hid, hrun, h, Marked.refl _ vm, fun hp => ?_⟩
      rcases hdone with hpause | hc | hc
      · exact absurd hpause hp
      · simp [hc]
      · simp [hc]
    · subst href
      obtain ⟨htidy, hmarked⟩ := h.pushGray hocc hphase hwhite
      refine ⟨_, hid, hrun, htidy, hmarked, fun _ => ?_⟩
      have hbit : vm.gc.occupiedBit id.slot = true := by rw [h.occupied, hocc]; rfl
      simp [GcState.color_pushGray o.reference hbit]

end Mark

/-! ### Slots apart from their objects -/

/-- What a slot is, apart from the object in it. -/
inductive SlotHandle where
  | occupied (generation : Generation) (reference : ObjectRef)
  | free (generation : Generation)
  | retired

/-- The handle of a slot. -/
def Slot.handle : Slot → SlotHandle
  | .occupied o => .occupied o.generation o.reference
  | .free generation => .free generation
  | .retired => .retired

/-- Two states of a VM with the same handles: objects may have changed, their places and
    references have not. -/
structure SameHandles (vm vm' : Vm) : Prop where
  id : vm'.id = vm.id
  handles : vm'.slots.map Slot.handle = vm.slots.map Slot.handle
  scanEnd : vm'.gcScanEnd = vm.gcScanEnd
  token : vm'.nextToken = vm.nextToken

namespace SameHandles

variable {vm vm' vm'' : Vm}

theorem refl (vm : Vm) : SameHandles vm vm := ⟨rfl, rfl, rfl, rfl⟩

theorem symm (h : SameHandles vm vm') : SameHandles vm' vm :=
  ⟨h.id.symm, h.handles.symm, h.scanEnd.symm, h.token.symm⟩

theorem trans (h : SameHandles vm vm') (h' : SameHandles vm' vm'') : SameHandles vm vm'' :=
  ⟨h'.id.trans h.id, h'.handles.trans h.handles, h'.scanEnd.trans h.scanEnd,
    h'.token.trans h.token⟩

theorem handle_eq (h : SameHandles vm vm') (i : Nat) :
    vm'.slots[i]?.map Slot.handle = vm.slots[i]?.map Slot.handle := by
  rw [← List.getElem?_map, ← List.getElem?_map, h.handles]

theorem length_eq (h : SameHandles vm vm') : vm'.slots.length = vm.slots.length := by
  simpa using congrArg List.length h.handles

/-- An occupied slot stays occupied, with the same generation and reference. -/
theorem occupied (h : SameHandles vm vm') {i : Nat} {o : OccupiedSlot}
    (ho : vm.occupied? i = some o) :
    ∃ o', vm'.occupied? i = some o' ∧ o'.generation = o.generation ∧
      o'.reference = o.reference := by
  have hi := h.handle_eq i
  rw [Vm.occupied?_eq_some.mp ho] at hi
  obtain ⟨s, hs, hhandle⟩ := Option.map_eq_some_iff.mp hi
  cases s with
  | occupied o' =>
    simp only [Slot.handle, SlotHandle.occupied.injEq] at hhandle
    exact ⟨o', Vm.occupied?_eq_some.mpr hs, hhandle⟩
  | free g => exact absurd hhandle (by simp [Slot.handle])
  | retired => exact absurd hhandle (by simp [Slot.handle])

theorem occupied_isSome (h : SameHandles vm vm') (i : Nat) :
    (vm'.occupied? i).isSome = (vm.occupied? i).isSome := by
  rw [Bool.eq_iff_iff, Option.isSome_iff_exists, Option.isSome_iff_exists]
  constructor
  · rintro ⟨o, ho⟩
    obtain ⟨o', ho', -⟩ := h.symm.occupied ho
    exact ⟨o', ho'⟩
  · rintro ⟨o, ho⟩
    obtain ⟨o', ho', -⟩ := h.occupied ho
    exact ⟨o', ho'⟩

theorem free (h : SameHandles vm vm') {i : Nat} {g : Generation}
    (hg : vm.slots[i]? = some (.free g)) : vm'.slots[i]? = some (.free g) := by
  have hi := h.handle_eq i
  rw [hg] at hi
  obtain ⟨s, hs, hhandle⟩ := Option.map_eq_some_iff.mp hi
  cases s with
  | occupied o' => exact absurd hhandle (by simp [Slot.handle])
  | free g' =>
    simp only [Slot.handle, SlotHandle.free.injEq] at hhandle
    rw [hs, hhandle]
  | retired => exact absurd hhandle (by simp [Slot.handle])

theorem countP_eq (h : SameHandles vm vm') :
    vm'.slots.countP Slot.isOccupied = vm.slots.countP Slot.isOccupied := by
  have hcount : ∀ l : List Slot, l.countP Slot.isOccupied =
      (l.map Slot.handle).countP fun
        | .occupied _ _ => true
        | _ => false := by
    intro l
    rw [List.countP_map]
    refine List.countP_congr fun s _ => ?_
    cases s <;> simp [Slot.isOccupied, Slot.occupied?, Slot.handle]
  rw [hcount, hcount, h.handles]

/-- The same references resolve. -/
theorem checkedSlot (h : SameHandles vm vm') {object : ObjectRef} {o : OccupiedSlot}
    (hres : vm.checkedSlot object = .ok o) :
    ∃ o', vm'.checkedSlot object = .ok o' := by
  obtain ⟨id, hid, hvm, hocc, hgen, href⟩ := Vm.checkedSlot_eq_ok.mp hres
  obtain ⟨o', hocc', hgen', href'⟩ := h.occupied hocc
  exact ⟨o', Vm.checkedSlot_eq_ok.mpr
    ⟨id, hid, hvm.trans h.id.symm, hocc', hgen'.trans hgen, href'.trans href⟩⟩

/-- The bookkeeping depends on handles only. -/
theorem tidy {hole : List ObjectRef} (h : SameHandles vm vm') (hgc : vm'.gc = vm.gc)
    (ht : vm.TidyWith hole) : vm'.TidyWith hole where
  pages := by rw [hgc, h.length_eq]; exact ht.pages
  occupied := fun i => by rw [hgc, h.occupied_isSome]; exact ht.occupied i
  free := fun i => by
    rw [hgc, ht.free]
    exact exists_congr fun g => ⟨fun hg => h.free hg, fun hg => h.symm.free hg⟩
  scanEnd := by rw [h.scanEnd, h.length_eq]; exact ht.scanEnd
  behind := by
    intro i hi hlt
    rw [h.scanEnd] at hi
    rw [h.length_eq] at hlt
    obtain ⟨g, hg⟩ := ht.behind i hi hlt
    exact ⟨g, h.free hg⟩
  count := by rw [hgc, h.countP_eq]; exact ht.count
  reference := by
    intro i o' ho'
    obtain ⟨o, ho, hgen, href⟩ := h.symm.occupied ho'
    obtain ⟨token, heq, hlt⟩ := ht.reference i o ho
    exact ⟨token, by rw [h.id, ← href, ← hgen, heq], by rw [h.token]; exact hlt⟩
  pause := by rw [hgc]; exact ht.pause
  nodup := by rw [hgc]; exact ht.nodup
  gray := by
    intro x
    rw [hgc, ht.gray]
    constructor
    · rintro ⟨i, s, hs, href, hc⟩
      obtain ⟨s', hs', -, href'⟩ := h.occupied hs
      exact ⟨i, s', hs', href'.trans href, hc⟩
    · rintro ⟨i, s', hs', href, hc⟩
      obtain ⟨s, hs, -, href'⟩ := h.symm.occupied hs'
      exact ⟨i, s, hs, href'.trans href, hc⟩
  idle := by rw [hgc]; exact ht.idle
  capacity := by rw [hgc]; exact ht.capacity
  growth := by rw [hgc]; exact ht.growth
  remembered := by rw [hgc]; exact ht.remembered

/-- Replacing the content of an occupied slot, generation and reference kept. -/
theorem setOccupied {i : Nat} {o o' : OccupiedSlot} (ho : vm.occupied? i = some o)
    (hgen : o'.generation = o.generation) (href : o'.reference = o.reference) :
    SameHandles vm (vm.setOccupied i o') where
  id := rfl
  handles := by
    refine List.ext_getElem? fun j => ?_
    simp only [Vm.setOccupied, List.getElem?_map, List.getElem?_set]
    by_cases hj : i = j
    · subst hj
      rw [if_pos rfl, if_pos (Vm.lt_of_occupied ho), Vm.occupied?_eq_some.mp ho]
      simp [Slot.handle, hgen, href]
    · rw [if_neg hj]
  scanEnd := rfl
  token := rfl

theorem setPayload (vm : Vm) (i : Nat) (payload : HeapPayload) :
    SameHandles vm (vm.setPayload i payload) := by
  unfold Vm.setPayload
  cases ho : vm.occupied? i with
  | none => exact refl vm
  | some o => exact setOccupied ho rfl rfl

theorem setObject (vm : Vm) (i : Nat) (object : HeapObject) :
    SameHandles vm (vm.setObject i object) := by
  unfold Vm.setObject
  cases ho : vm.occupied? i with
  | none => exact refl vm
  | some o => exact setOccupied ho rfl rfl

/-- A change of every object in place. -/
theorem map {f : Slot → Slot} (hf : ∀ s, (f s).handle = s.handle) (vm : Vm) :
    SameHandles vm { vm with slots := vm.slots.map f } where
  id := rfl
  handles := by
    rw [List.map_map]
    exact List.map_congr_left fun s _ => hf s
  scanEnd := rfl
  token := rfl

end SameHandles

end RivetLua.Runtime
