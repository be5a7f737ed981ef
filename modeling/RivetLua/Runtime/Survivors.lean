import RivetLua.Runtime.HeapActivity

namespace RivetLua.Runtime

open RivetLua.Core RivetLua.Gc StateProg Relation

/-!
# Runtime — what a collection leaves of the nodes

The collector frees objects, clears weak tables and ages what is left.  It never changes a node,
and nothing that did not resolve before resolves afterwards.

* `Vm.Descends` — the objects of one VM are what is left of those of another;
* `Vm.Shrinks` — the same without ageing: what the single steps of a cycle do;
* `OccupiedSlot.Outlives` — ages that are never overtaken;
* `Vm.Cell` — an open upvalue as the collector sees it: at most one edge, to an object that
  outlives it, so that it is never remembered, `Vm.Cell.gcStep`.
-/

/-! ### Nodes -/

/-- A node with its edges and extra children. -/
def HeapObject.node? (o : HeapObject) : Option (NodeKind × List ObjectRef × List ObjectRef) :=
  match o.payload with
  | .node kind edges => some (kind, edges, o.children)
  | _ => none

/-- What is in a slot is what was in it, up to its age; a node has not changed. -/
structure OccupiedSlot.Descends (o o' : OccupiedSlot) : Prop where
  reference : o'.reference = o.reference
  generation : o'.generation = o.generation
  node : o'.object.node? = o.object.node?

/-- The same with the age. -/
structure OccupiedSlot.Stays (o o' : OccupiedSlot) : Prop extends o.Descends o' where
  age : o'.age = o.age
  survivals : o'.survivals = o.survivals

/-- The objects of `vm'` are what is left of those of `vm`. -/
structure Vm.Descends (vm vm' : Vm) : Prop where
  id : vm'.id = vm.id
  token : vm'.nextToken = vm.nextToken
  length : vm'.slots.length = vm.slots.length
  occupied : ∀ i o', vm'.occupied? i = some o' → ∃ o, vm.occupied? i = some o ∧ o.Descends o'

/-- The same without ageing, and nothing is remembered anew. -/
structure Vm.Shrinks (vm vm' : Vm) : Prop where
  id : vm'.id = vm.id
  token : vm'.nextToken = vm.nextToken
  length : vm'.slots.length = vm.slots.length
  occupied : ∀ i o', vm'.occupied? i = some o' → ∃ o, vm.occupied? i = some o ∧ o.Stays o'
  remembered : ∀ r ∈ vm'.gc.remembered, r ∈ vm.gc.remembered

section Descends

variable {vm vm' vm'' : Vm}

theorem OccupiedSlot.Stays.refl (o : OccupiedSlot) : o.Stays o := ⟨⟨rfl, rfl, rfl⟩, rfl, rfl⟩

theorem OccupiedSlot.Descends.trans {o o' o'' : OccupiedSlot} (h : o.Descends o')
    (h' : o'.Descends o'') : o.Descends o'' :=
  ⟨h'.reference.trans h.reference, h'.generation.trans h.generation, h'.node.trans h.node⟩

theorem Vm.Descends.refl (vm : Vm) : vm.Descends vm :=
  ⟨rfl, rfl, rfl, fun _ o ho => ⟨o, ho, rfl, rfl, rfl⟩⟩

theorem Vm.Descends.trans (h : vm.Descends vm') (h' : vm'.Descends vm'') : vm.Descends vm'' where
  id := h'.id.trans h.id
  token := h'.token.trans h.token
  length := h'.length.trans h.length
  occupied := fun i o'' ho'' => by
    obtain ⟨o', ho', hd'⟩ := h'.occupied i o'' ho''
    obtain ⟨o, ho, hd⟩ := h.occupied i o' ho'
    exact ⟨o, ho, hd.trans hd'⟩

theorem Vm.Shrinks.descends (h : vm.Shrinks vm') : vm.Descends vm' where
  id := h.id
  token := h.token
  length := h.length
  occupied := fun i o' ho' => by
    obtain ⟨o, ho, hs⟩ := h.occupied i o' ho'
    exact ⟨o, ho, hs.toDescends⟩

theorem Vm.Shrinks.refl (vm : Vm) : vm.Shrinks vm :=
  ⟨rfl, rfl, rfl, fun _ o ho => ⟨o, ho, .refl o⟩, fun _ h => h⟩

/-- What resolves has resolved before. -/
theorem Vm.Descends.checkedSlot (h : vm.Descends vm') {r : ObjectRef} {o' : OccupiedSlot}
    (hres : vm'.checkedSlot r = .ok o') : ∃ o, vm.checkedSlot r = .ok o ∧ o.Descends o' := by
  obtain ⟨id, hid, hvm, hocc, hgen, href⟩ := Vm.checkedSlot_eq_ok.mp hres
  obtain ⟨o, ho, hd⟩ := h.occupied id.slot o' hocc
  refine ⟨o, Vm.checkedSlot_eq_ok.mpr ⟨id, hid, hvm.trans h.id, ho, ?_, ?_⟩, hd⟩
  · rw [← hgen, hd.generation]
  · rw [← href, hd.reference]

/-- The slots are the same. -/
theorem Vm.Shrinks.of_slots (hid : vm'.id = vm.id) (htoken : vm'.nextToken = vm.nextToken)
    (hslots : vm'.slots = vm.slots) (hremembered : ∀ r ∈ vm'.gc.remembered, r ∈ vm.gc.remembered) :
    vm.Shrinks vm' where
  id := hid
  token := htoken
  length := congrArg List.length hslots
  occupied := fun i o' ho' => by
    refine ⟨o', ?_, .refl o'⟩
    rw [Vm.occupied?_eq_some, hslots] at ho'
    exact Vm.occupied?_eq_some.mpr ho'
  remembered := hremembered

/-- One slot gets another content. -/
theorem Vm.Shrinks.setOccupied {i : Nat} {o o' : OccupiedSlot} (ho : vm.occupied? i = some o)
    (hs : o.Stays o') : vm.Shrinks (vm.setOccupied i o') where
  id := rfl
  token := rfl
  length := List.length_set
  occupied := fun j p hp => by
    rw [Vm.occupied?_setOccupied ho] at hp
    by_cases hj : j = i
    · rw [if_pos hj, Option.some.injEq] at hp
      subst hp hj
      exact ⟨o, ho, hs⟩
    · rw [if_neg hj] at hp
      exact ⟨p, hp, .refl p⟩
  remembered := fun _ h => h

/-- A table is replaced by a table. -/
theorem Vm.Shrinks.setTable {i : Nat} {t : Table} (ht : vm.tableAt i = some t) (t' : Table) :
    vm.Shrinks (vm.setPayload i (.table t')) := by
  unfold Vm.setPayload
  unfold Vm.tableAt at ht
  cases ho : vm.occupied? i with
  | none => exact .refl vm
  | some o =>
    refine Vm.Shrinks.setOccupied ho ⟨⟨rfl, rfl, ?_⟩, rfl, rfl⟩
    rw [ho] at ht
    unfold HeapObject.node?
    cases hpayload : o.object.payload <;> simp_all

/-- A slot is freed. -/
theorem Vm.Shrinks.of_frees {i : Nat} {r : ObjectRef} {left : Option Slot}
    (h : vm.Frees i r left vm') (hlength : vm'.slots.length = vm.slots.length)
    (hremembered : ∀ r ∈ vm'.gc.remembered, r ∈ vm.gc.remembered) : vm.Shrinks vm' where
  id := by
    obtain ⟨_, _, _, _, heq⟩ := h.frame
    rw [heq]
  token := by
    obtain ⟨_, _, _, _, heq⟩ := h.frame
    rw [heq]
  length := hlength
  occupied := fun j o' ho' => by
    rw [h.occupied?] at ho'
    by_cases hj : j = i
    · rw [if_pos hj] at ho'
      cases ho'
    · rw [if_neg hj] at ho'
      exact ⟨o', ho', .refl o'⟩
  remembered := hremembered

end Descends

/-! ### The steps of a cycle -/

section Steps

variable {vm vm' : Vm}

theorem clearDeadWeakSlot_shrinks (clearValues clearKeys : Bool) (index : Nat) (vm : Vm) :
    vm.Shrinks (clearDeadWeakSlot clearValues clearKeys index vm).2 := by
  rcases clearDeadWeakSlot_cases clearValues clearKeys index vm with
    heq | ⟨o, t, r, t', l, -, ht, -, heq⟩
  · rw [heq]
    exact .refl vm
  · rw [heq]
    have h := Vm.Shrinks.setTable ht t'
    exact ⟨h.id, h.token, h.length, h.occupied, h.remembered⟩

theorem gcMarkSlot_shrinks (object : ObjectRef) (vm : Vm) :
    vm.Shrinks (gcMarkSlot object vm).2 := by
  rcases gcMarkSlot_cases object vm with ⟨e, hrun, -⟩ | ⟨id, o, -, -, ⟨hrun, -⟩ | ⟨hrun, -⟩⟩
  · rw [hrun]
    exact .refl vm
  · rw [hrun]
    exact .refl vm
  · rw [hrun]
    refine .of_slots rfl rfl rfl fun r hr => ?_
    rwa [show (_ : Vm).gc.remembered = _ from GcState.remembered_pushGray _ _ _] at hr

theorem Vm.Shrinks.trans {vm'' : Vm} (h : vm.Shrinks vm') (h' : vm'.Shrinks vm'') :
    vm.Shrinks vm'' where
  id := h'.id.trans h.id
  token := h'.token.trans h.token
  length := h'.length.trans h.length
  occupied := fun i o'' ho'' => by
    obtain ⟨o', ho', hs'⟩ := h'.occupied i o'' ho''
    obtain ⟨o, ho, hs⟩ := h.occupied i o' ho'
    exact ⟨o, ho, ⟨hs.toDescends.trans hs'.toDescends, hs'.age.trans hs.age,
      hs'.survivals.trans hs.survivals⟩⟩
  remembered := fun r hr => h.remembered r (h'.remembered r hr)

theorem separateDeadFinalizer_shrinks (index : Nat) (vm : Vm) :
    vm.Shrinks (separateDeadFinalizer index vm).2 := by
  unfold separateDeadFinalizer
  rw [Prog.bind_apply_ok (Prog.get_apply vm)]
  cases ho : vm.occupied? index with
  | none => exact .refl vm
  | some o =>
    simp only
    by_cases hc : o.finalizer = .registered ∧ vm.gc.color index = some .white
    case neg =>
      rw [if_neg hc]
      exact .refl vm
    rw [if_pos hc]
    have hmark := gcMarkSlot_shrinks o.reference vm
    obtain ⟨gc, hframe⟩ := gcMarkSlot_frame o.reference vm
    rcases hrun : gcMarkSlot o.reference vm with ⟨_ | _, marked⟩
    · rw [hrun] at hmark
      rw [Prog.bind_apply_error hrun]
      exact hmark
    · rw [hrun] at hmark hframe
      obtain rfl : marked = { vm with gc := gc } := hframe
      rw [Prog.bind_apply_ok hrun]
      have hset : Vm.Shrinks { vm with gc := gc }
          (Vm.setOccupied { vm with gc := gc } index { o with finalizer := .pending }) :=
        .setOccupied ho ⟨⟨rfl, rfl, rfl⟩, rfl, rfl⟩
      have h := hmark.trans hset
      exact ⟨h.id, h.token, h.length, h.occupied, h.remembered⟩

theorem snapshotWeakMode_shrinks (index : Nat) (vm : Vm) :
    vm.Shrinks (snapshotWeakMode index vm).2 := by
  unfold snapshotWeakMode
  rw [Prog.bind_apply_ok (Prog.get_apply vm)]
  cases ht : vm.tableAt index with
  | none => exact .refl vm
  | some t =>
    simp only
    cases vm.currentWeakMode t with
    | error e => exact .refl vm
    | ok mode => exact .setTable ht _

theorem reclaim_shrinks (object : ObjectRef) (vm : Vm) : vm.Shrinks (reclaim object vm).2 := by
  rcases reclaim_cases vm object with ⟨e, l, hrun⟩ | ⟨id, o, l, gc', hid, hres, hgc, hrun⟩
  · rw [hrun]
    exact .of_slots rfl rfl rfl fun _ h => h
  · rw [hrun]
    obtain ⟨id', hid', hocc, -⟩ := Vm.occupied_of_checkedSlot hres
    obtain rfl : id = id' := by simpa [hid] using hid'
    refine .of_frees (Vm.frees_reclaimed hocc hgc l) List.length_set fun r hr => ?_
    obtain ⟨cursor, rfl⟩ := hgc
    exact List.mem_of_mem_erase (show r ∈ vm.gc.remembered.erase object from hr)

/-- **A collection leaves descendants**: whatever it frees and however it ends, no node has changed
    and nothing has come back. -/
theorem collects_descends (vm₀ : Vm) : Collects (Vm.Descends vm₀) where
  gc := fun _ _ h => ⟨h.id, h.token, h.length, h.occupied⟩
  ledger := fun _ _ h => ⟨h.id, h.token, h.length, h.occupied⟩
  compact := fun _ h => ⟨h.id, h.token, h.length, h.occupied⟩
  clear := fun clearValues clearKeys index => Keeps.of_apply fun vm h =>
    h.trans (clearDeadWeakSlot_shrinks clearValues clearKeys index vm).descends
  separate := fun index => Keeps.of_apply fun vm h =>
    h.trans (separateDeadFinalizer_shrinks index vm).descends
  sort := fun _ h => ⟨h.id, h.token, h.length, h.occupied⟩
  promote := fun vm index o ho h => h.trans
    { id := rfl
      token := rfl
      length := List.length_set
      occupied := fun j p hp => by
        rw [Vm.occupied?_setOccupied ho] at hp
        by_cases hj : j = index
        · rw [if_pos hj, Option.some.injEq] at hp
          subst hp hj
          exact ⟨o, ho, rfl, rfl, rfl⟩
        · rw [if_neg hj] at hp
          exact ⟨p, hp, rfl, rfl, rfl⟩ }
  snapshot := fun index => Keeps.of_apply fun vm h =>
    h.trans (snapshotWeakMode_shrinks index vm).descends
  reclaim := fun object => Keeps.of_apply fun vm h => h.trans (reclaim_shrinks object vm).descends

end Steps

/-! ### Ages -/

/-- `o` is never old while `c` is not: `c` is old, or it has survived at least as often. -/
def OccupiedSlot.Outlives (c o : OccupiedSlot) : Prop :=
  c.age = .old ∨ (o.age ≠ .old ∧ o.survivals ≤ c.survivals)

/-- Both were there when a cycle ended, and the elder one has survived it. -/
theorem OccupiedSlot.Outlives.promoted {c o : OccupiedSlot} (h : c.Outlives o) (n : Nat)
    (hold : c.age ≠ .old) : (c.promoted n).Outlives (o.promoted n) := by
  obtain ⟨-, hle⟩ := h.resolve_left hold
  unfold OccupiedSlot.Outlives OccupiedSlot.promoted
  simp only
  by_cases hc : n ≤ min (c.survivals + 1) 255
  · simp [hc]
  · have ho : ¬ n ≤ min (o.survivals + 1) 255 := by omega
    right
    simp only [ho, if_false]
    exact ⟨by simp, by omega⟩

/-- The elder one has survived the cycle, the other one has not been counted. -/
theorem OccupiedSlot.Outlives.promoted_left {c o : OccupiedSlot} (h : c.Outlives o) (n : Nat)
    (hbound : o.survivals ≤ 255) (hold : c.age ≠ .old) : (c.promoted n).Outlives o := by
  obtain ⟨hyoung, hle⟩ := h.resolve_left hold
  unfold OccupiedSlot.Outlives OccupiedSlot.promoted
  exact .inr ⟨hyoung, by simp only; omega⟩

section Aging

variable {vm : Vm}

/-- The body of `promote_gc_survivors`. -/
def promoteSlot (index : Nat) : VmM Unit := do
  let vm ← Prog.get
  match vm.occupied? index with
  | some o =>
    if o.age ≠ .old ∧ vm.gc.color index = some .black then
      Prog.modify fun vm => vm.setOccupied index (o.promoted vm.gc.promotionSurvivals)
  | none => pure ()

/-- What ageing makes of the object in a slot. -/
def Vm.aged (vm : Vm) (index : Nat) (o : OccupiedSlot) : OccupiedSlot :=
  if o.age ≠ .old ∧ vm.gc.color index = some .black then o.promoted vm.gc.promotionSurvivals else o

/-- Every slot of the list is aged once. -/
theorem promoteSlots_spec : ∀ (slots : List Nat), slots.Nodup → ∀ vm : Vm,
    ∃ aged, (slots.forM promoteSlot) vm = (.ok (), { vm with slots := aged })
      ∧ ∀ i, Vm.occupied? { vm with slots := aged } i
        = if i ∈ slots then (vm.occupied? i).map (vm.aged i) else vm.occupied? i
  | [], _, vm => ⟨vm.slots, rfl, fun i => by simp⟩
  | index :: rest, hnodup, vm => by
    obtain ⟨hfresh, hrest⟩ := List.nodup_cons.mp hnodup
    -- the first slot
    have hfirst : ∃ first, promoteSlot index vm = (.ok (), { vm with slots := first })
        ∧ ∀ i, Vm.occupied? { vm with slots := first } i
          = if i = index then (vm.occupied? i).map (vm.aged i) else vm.occupied? i := by
      unfold promoteSlot
      rw [Prog.bind_apply_ok (Prog.get_apply vm)]
      cases ho : vm.occupied? index with
      | none =>
        refine ⟨vm.slots, rfl, fun i => ?_⟩
        split
        · next hi =>
          subst hi
          rw [ho]
          rfl
        · rfl
      | some o =>
        simp only
        by_cases hc : o.age ≠ .old ∧ vm.gc.color index = some .black
        · rw [if_pos hc]
          refine ⟨_, rfl, fun i => ?_⟩
          refine (Vm.occupied?_setOccupied ho i).trans ?_
          by_cases hi : i = index
          · rw [if_pos hi, if_pos hi, hi, ho, Option.map_some, Vm.aged, if_pos hc]
          · rw [if_neg hi, if_neg hi]
        · rw [if_neg hc]
          refine ⟨vm.slots, rfl, fun i => ?_⟩
          by_cases hi : i = index
          · rw [if_pos hi, hi, ho, Option.map_some, Vm.aged, if_neg hc]
          · rw [if_neg hi]
    obtain ⟨first, hrun, hslots⟩ := hfirst
    obtain ⟨aged, hrun', hslots'⟩ := promoteSlots_spec rest hrest { vm with slots := first }
    refine ⟨aged, ?_, fun i => ?_⟩
    · show (promoteSlot index >>= fun _ => rest.forM promoteSlot) vm = _
      rw [Prog.bind_apply_ok hrun, hrun']
    · rw [hslots' i, hslots i]
      by_cases hi : i = index
      · rw [if_pos hi, if_neg (fun hmem => hfresh (hi ▸ hmem)), if_pos (by simp [hi])]
      · rw [if_neg hi]
        by_cases hmem : i ∈ rest
        · rw [if_pos hmem, if_pos (List.mem_cons_of_mem _ hmem)]
          rfl
        · rw [if_neg hmem, if_neg (by simp [hi, hmem])]

/-- **The end of a cycle ages every black object that is not old**, in generational mode. -/
theorem promoteGcSurvivors_spec (h : vm.Tidy) :
    ∃ slots, (promoteGcSurvivors vm).2 = { vm with slots := slots }
      ∧ ((∀ i, Vm.occupied? { vm with slots := slots } i = vm.occupied? i)
        ∨ ∀ i, Vm.occupied? { vm with slots := slots } i = (vm.occupied? i).map (vm.aged i)) := by
  unfold promoteGcSurvivors
  rw [Prog.bind_apply_ok (Prog.get_apply vm)]
  by_cases hmode : vm.gc.mode = .generational
  case neg =>
    rw [if_neg hmode]
    exact ⟨vm.slots, rfl, .inl fun _ => rfl⟩
  rw [if_pos hmode]
  obtain ⟨slots, hrun, hslots⟩ := promoteSlots_spec _
    (GcState.nodup_occupiedSlots vm.gc vm.gcScanEnd) vm
  refine ⟨slots, congrArg Prod.snd (show forOccupied promoteSlot vm = _ from hrun), .inr fun i => ?_⟩
  rw [hslots]
  by_cases hmem : i ∈ vm.gc.occupiedSlots vm.gcScanEnd
  · rw [if_pos hmem]
  · rw [if_neg hmem]
    cases ho : vm.occupied? i with
    | none => rfl
    | some o =>
      refine absurd (GcState.mem_occupiedSlots.mpr ⟨h.lt_scanEnd ho, ?_⟩) hmem
      rw [h.occupied, ho]
      rfl

/-- An old object whose elder one is not old after this cycle: there is none. -/
theorem Vm.futureGcAgeAt_old {i j : Nat} {o c : OccupiedSlot} (ho : vm.occupied? i = some o)
    (hc : vm.occupied? j = some c) (h : c.Outlives o)
    (hi : vm.futureGcAgeAt i = .ok (some .old)) {age : GcAge}
    (hj : vm.futureGcAgeAt j = .ok (some age)) : age = .old := by
  unfold Vm.futureGcAgeAt at hi hj
  rw [ho] at hi
  rw [hc] at hj
  simp only at hi hj
  by_cases hold : c.age = .old
  · -- an old object stays old
    by_cases hminor : vm.gc.cycle = .minor ∧ c.age = .old
    · rw [if_pos hminor] at hj
      cases hj
      rfl
    · rw [if_neg hminor] at hj
      cases hcolor : vm.gc.color j with
      | none =>
        rw [hcolor] at hj
        cases hj
      | some color =>
        rw [hcolor] at hj
        cases color with
        | white => cases hj
        | gray =>
          simp only [hold, true_or, if_true] at hj
          cases hj
          rfl
        | black =>
          simp only [hold, true_or, if_true] at hj
          cases hj
          rfl
  · obtain ⟨hyoung, hle⟩ := h.resolve_left hold
    rw [if_neg fun hminor => hyoung hminor.2] at hi
    rw [if_neg fun hminor => hold hminor.2] at hj
    -- neither is old: both ages come from the counters
    have hpromotes : vm.gc.mode ≠ .incremental ∧ vm.gc.promotionSurvivals ≤ min (o.survivals + 1) 255 := by
      cases hcolor : vm.gc.color i with
      | none =>
        rw [hcolor] at hi
        cases hi
      | some color =>
        rw [hcolor] at hi
        cases color with
        | white => cases hi
        | gray | black =>
          simp only [hyoung, false_or] at hi
          by_cases hmode : vm.gc.mode = .incremental
          · rw [if_pos hmode] at hi
            exact absurd (by simpa using hi) hyoung
          · rw [if_neg hmode] at hi
            refine ⟨hmode, ?_⟩
            by_contra hlt
            rw [if_neg hlt] at hi
            cases hi
    obtain ⟨hmode, hsurvived⟩ := hpromotes
    have hsurvived' : vm.gc.promotionSurvivals ≤ min (c.survivals + 1) 255 := by omega
    cases hcolor : vm.gc.color j with
    | none =>
      rw [hcolor] at hj
      cases hj
    | some color =>
      rw [hcolor] at hj
      cases color with
      | white => cases hj
      | gray | black =>
        simp only [hold, hmode, or_self, if_false, if_pos hsurvived'] at hj
        cases hj
        rfl

end Aging

/-! ### Cells -/

theorem HeapObject.node?_eq_some {o : HeapObject} {kind : NodeKind} {edges children : List ObjectRef}
    (h : o.node? = some (kind, edges, children)) : o = ⟨.node kind edges, children⟩ := by
  unfold HeapObject.node? at h
  obtain ⟨payload, extra⟩ := o
  cases payload with
  | node kind' edges' =>
    simp only [Option.some.injEq, Prod.mk.injEq] at h
    obtain ⟨rfl, rfl, rfl⟩ := h
    rfl
  | _ => cases h

/-- An open upvalue: its only edge is the coroutine it belongs to, which outlives it. -/
structure Vm.Cell (parent : Option ObjectRef) (cell : ObjectRef) (vm : Vm) : Prop where
  node : ∀ i o, vm.occupied? i = some o → o.reference = cell →
    o.object.node? = some (.upvalue, parent.toList, []) ∧ o.survivals ≤ 255
  unremembered : cell ∉ vm.gc.remembered
  outlived : ∀ i j o c, vm.occupied? i = some o → o.reference = cell → vm.occupied? j = some c →
    parent = some c.reference → c.Outlives o

section Cell

variable {vm vm' : Vm} {parent : Option ObjectRef} {cell : ObjectRef}

theorem Vm.Cell.of_shrinks (h : vm.Cell parent cell) (hs : vm.Shrinks vm') :
    vm'.Cell parent cell where
  node := fun i o' ho' href => by
    obtain ⟨o, ho, hstay⟩ := hs.occupied i o' ho'
    rw [hstay.node, hstay.survivals]
    exact h.node i o ho (hstay.reference ▸ href)
  unremembered := fun hmem => h.unremembered (hs.remembered _ hmem)
  outlived := fun i j o' c' ho' href hc' hparent => by
    obtain ⟨o, ho, hstay⟩ := hs.occupied i o' ho'
    obtain ⟨c, hc, hstay'⟩ := hs.occupied j c' hc'
    have hage := h.outlived i j o c ho (hstay.reference ▸ href) hc (by rw [hparent, hstay'.reference])
    unfold OccupiedSlot.Outlives
    rw [hstay.age, hstay.survivals, hstay'.age, hstay'.survivals]
    exact hage

/-- The owners that are to be remembered are old and have a young child. -/
theorem Vm.scanOldOwners_mem : ∀ {slots owners : List Nat},
    vm.scanOldOwners slots = .ok (.inl owners) → ∀ i ∈ owners,
      vm.futureGcAgeAt i = .ok (some .old)
        ∧ vm.oldOwnerHasYoungChild (vm.childRefsAt i) = .ok (true, none)
  | [], owners, h, i, hi => by
    simp only [Vm.scanOldOwners, Except.ok.injEq, Sum.inl.injEq] at h
    subst h
    cases hi
  | index :: rest, owners, h, i, hi => by
    unfold Vm.scanOldOwners at h
    cases hage : vm.futureGcAgeAt index with
    | error e =>
      rw [hage] at h
      cases h
    | ok age =>
      rw [hage] at h
      by_cases hold : age = some .old
      · subst hold
        simp only at h
        cases hyoung : vm.oldOwnerHasYoungChild (vm.childRefsAt index) with
        | error e =>
          rw [hyoung] at h
          cases h
        | ok found =>
          obtain ⟨young, white⟩ := found
          rw [hyoung] at h
          cases white with
          | some child => cases h
          | none =>
            simp only at h
            cases hscan : vm.scanOldOwners rest with
            | error e =>
              rw [hscan] at h
              cases h
            | ok found =>
              rw [hscan] at h
              cases found with
              | inr child => cases h
              | inl owners' =>
                simp only [Except.ok.injEq, Sum.inl.injEq] at h
                subst h
                by_cases hy : young = true
                · subst hy
                  rcases List.mem_cons.mp (show i ∈ index :: owners' from hi) with rfl | hi
                  · exact ⟨hage, hyoung⟩
                  · exact Vm.scanOldOwners_mem hscan i hi
                · rw [if_neg hy] at hi
                  exact Vm.scanOldOwners_mem hscan i hi
      · have hrest : vm.scanOldOwners rest = .ok (.inl owners) := by
          split at h
          · cases h
          · next heq => exact absurd (by simpa using heq) hold
          · exact h
        exact Vm.scanOldOwners_mem hrest i hi

/-- **An open upvalue is not remembered**: its coroutine is never the younger one. -/
theorem Vm.Cell.not_mem_owners (h : vm.Cell parent cell) {owners : List Nat}
    {i : Nat} {o : OccupiedSlot} (ho : vm.occupied? i = some o) (href : o.reference = cell)
    (hscan : vm.scanOldOwners (vm.gc.occupiedSlots vm.gcScanEnd) = .ok (.inl owners)) :
    i ∉ owners := by
  intro hmem
  obtain ⟨hold, hyoung⟩ := Vm.scanOldOwners_mem hscan i hmem
  have hchildren : vm.childRefsAt i = parent.toList := by
    unfold Vm.childRefsAt
    simp [ho, HeapObject.node?_eq_some (h.node i o ho href).1, HeapObject.childRefs,
      HeapPayload.childRefs]
  rw [hchildren] at hyoung
  cases parent with
  | none => cases hyoung
  | some p =>
    simp only [Option.toList_some, Vm.oldOwnerHasYoungChild] at hyoung
    cases hres : vm.checkedSlot p with
    | error e =>
      rw [hres] at hyoung
      cases hyoung
    | ok c =>
      obtain ⟨id, hid, hocc, hcref⟩ := Vm.occupied_of_checkedSlot hres
      simp only [hres, hid] at hyoung
      cases hage : vm.futureGcAgeAt id.slot with
      | error e =>
        rw [hage] at hyoung
        cases hyoung
      | ok age =>
        rw [hage] at hyoung
        cases age with
        | none => cases hyoung
        | some age =>
          obtain rfl := Vm.futureGcAgeAt_old ho hocc
            (h.outlived i id.slot o c ho href hocc (by rw [hcref])) hold hage
          cases hyoung

theorem keeps_cell_rebuild : Keeps (Vm.Cell parent cell) rebuildRememberedSet := by
  refine Keeps.of_apply fun vm h => ?_
  unfold rebuildRememberedSet
  rw [Prog.bind_apply_ok (Prog.get_apply vm)]
  cases hscan : vm.scanOldOwners (vm.gc.occupiedSlots vm.gcScanEnd) with
  | error e => exact h
  | ok scanned =>
    rw [Prog.bind_apply_ok (show Prog.ofExcept (.ok scanned) vm = (.ok scanned, vm) from rfl)]
    rcases scanned with (_ | ⟨index, owners⟩) | child
    · exact ⟨h.node, List.not_mem_nil, h.outlived⟩
    · simp only
      refine Triple.apply (I := Vm.Cell parent cell)
        (P := fun vm' => ∃ l, vm' = { vm with ledger := l }) ?_ ⟨vm.ledger, rfl⟩
      refine Triple.bind (Q := fun _ vm' => ∃ l, vm' = { vm with ledger := l }) ?_ fun _ => ?_
      · rintro _ ⟨l, rfl⟩
        obtain ⟨l', hl'⟩ := liftLedger_eq (do
          let _ ← checkedBytes (index :: owners).length objectRefSize
          checkpoint .rememberedReserve) { vm with ledger := l }
        rcases hrun : liftLedger (do
          let _ ← checkedBytes (index :: owners).length objectRefSize
          checkpoint .rememberedReserve) { vm with ledger := l } with ⟨_ | _, reserved⟩
        all_goals
          rw [hrun] at hl'
          obtain rfl : reserved = _ := hl'
        · exact ⟨h.node, h.unremembered, h.outlived⟩
        · exact ⟨l', rfl⟩
      · rintro _ ⟨l, rfl⟩
        refine ⟨h.node, fun hmem => ?_, h.outlived⟩
        obtain ⟨i, hi, hcell⟩ := List.mem_filterMap.mp hmem
        obtain ⟨o, ho, href⟩ := Option.map_eq_some_iff.mp hcell
        exact h.not_mem_owners ho href hscan hi
    · have hmarked := h.of_shrinks (gcMarkSlot_shrinks child vm)
      show Vm.Cell parent cell (((gcMarkSlot child) >>= fun _ => pure false) vm).2
      rcases hrun : gcMarkSlot child vm with ⟨_ | _, marked⟩
      · rw [hrun] at hmarked
        rw [Prog.bind_apply_error hrun]
        exact hmarked
      · rw [hrun] at hmarked
        rw [Prog.bind_apply_ok hrun]
        exact hmarked

theorem collectsRemembering_cell : CollectsRemembering (Vm.Cell parent cell) where
  gc := fun _ _ hgc h => ⟨h.node, fun hmem => h.unremembered (hgc ▸ hmem), h.outlived⟩
  ledger := fun _ _ h => ⟨h.node, h.unremembered, h.outlived⟩
  compact := fun _ h => ⟨h.node, h.unremembered, h.outlived⟩
  clear := fun clearValues clearKeys index => Keeps.of_apply fun vm h =>
    h.of_shrinks (clearDeadWeakSlot_shrinks clearValues clearKeys index vm)
  separate := fun index => Keeps.of_apply fun vm h =>
    h.of_shrinks (separateDeadFinalizer_shrinks index vm)
  sort := fun _ h => ⟨h.node, h.unremembered, h.outlived⟩
  snapshot := fun index => Keeps.of_apply fun vm h =>
    h.of_shrinks (snapshotWeakMode_shrinks index vm)
  reclaim := fun object => Keeps.of_apply fun vm h => h.of_shrinks (reclaim_shrinks object vm)
  rebuild := keeps_cell_rebuild

end Cell

section CellRuns

variable {vm vm' : Vm} {parent : Option ObjectRef} {cell : ObjectRef}

theorem OccupiedSlot.promoted_stays (o : OccupiedSlot) (n : Nat) :
    (o.promoted n).reference = o.reference ∧ (o.promoted n).object = o.object := ⟨rfl, rfl⟩

theorem Vm.aged_reference (vm : Vm) (i : Nat) (o : OccupiedSlot) :
    (vm.aged i o).reference = o.reference ∧ (vm.aged i o).object = o.object := by
  unfold Vm.aged
  split
  · exact o.promoted_stays _
  · exact ⟨rfl, rfl⟩

/-- The end of a cycle, in which the coroutine has survived. -/
theorem Vm.Cell.promote (h : vm.Cell parent cell) (htidy : vm.Tidy)
    (hblack : ∀ j c, vm.occupied? j = some c → parent = some c.reference →
      vm.gc.color j = some .black) : (promoteGcSurvivors vm).2.Cell parent cell := by
  obtain ⟨slots, hrun, hsame | haged⟩ := promoteGcSurvivors_spec htidy
  · rw [hrun]
    exact h.of_shrinks
      { id := rfl
        token := rfl
        length := by
          rw [← hrun]
          exact ((collects_descends vm).promoteGcSurvivors.apply (.refl vm)).length
        occupied := fun i o ho => ⟨o, hsame i ▸ ho, .refl o⟩
        remembered := fun _ hr => hr }
  · rw [hrun]
    refine ⟨fun i o' ho' href => ?_, h.unremembered, fun i j o' c' ho' href hc' hparent => ?_⟩
    · obtain ⟨o, ho, rfl⟩ := Option.map_eq_some_iff.mp ((haged i).symm.trans ho')
      obtain ⟨href', hobject⟩ := vm.aged_reference i o
      obtain ⟨hnode, hbound⟩ := h.node i o ho (href'.symm.trans href)
      rw [hobject]
      refine ⟨hnode, ?_⟩
      unfold Vm.aged OccupiedSlot.promoted
      split
      · exact Nat.min_le_right _ _
      · exact hbound
    · obtain ⟨o, ho, rfl⟩ := Option.map_eq_some_iff.mp ((haged i).symm.trans ho')
      obtain ⟨c, hc, rfl⟩ := Option.map_eq_some_iff.mp ((haged j).symm.trans hc')
      have href' : o.reference = cell := (vm.aged_reference i o).1.symm.trans href
      have hparent' : parent = some c.reference := by rw [hparent, (vm.aged_reference j c).1]
      have hage := h.outlived i j o c ho href' hc hparent'
      have hcolor := hblack j c hc hparent'
      by_cases hold : c.age = .old
      · refine .inl ?_
        unfold Vm.aged
        rw [if_neg fun hc => hc.1 hold]
        exact hold
      · rw [show vm.aged j c = c.promoted vm.gc.promotionSurvivals from if_pos ⟨hold, hcolor⟩]
        unfold Vm.aged
        split
        · exact hage.promoted _ hold
        · exact hage.promoted_left _ (h.node i o ho href').2 hold

/-- The coroutine of an upvalue is rooted. -/
def Vm.ParentRooted (parent : Option ObjectRef) (vm : Vm) : Prop :=
  ∀ p, parent = some p → ∃ kept : RootEntry, kept.object = p ∧ kept.lease = none ∧ Sheltered kept vm

/-- **A unit of collector work keeps an open upvalue as it is.** -/
theorem Vm.Cell.gcStep (h : vm.Cell parent cell) (htidy : vm.Tidy)
    (hparent : vm.ParentRooted parent) : (gcStep vm).2.Cell parent cell := by
  refine collectsRemembering_cell.gcStep h fun hphase hwork => ?_
  refine Vm.Cell.promote ⟨h.node, h.unremembered, h.outlived⟩
    (@SameHandles.tidy vm _ [] ⟨rfl, rfl, rfl, rfl⟩ rfl htidy) fun j c hc hp => ?_
  obtain ⟨kept, hkept, hlease, hsheltered⟩ := hparent _ hp
  have hshield := hsheltered.guarded.shield _ (hsheltered.rooted.mem_anchors hlease)
  have hnonwhite : vm.gc.color j ≠ some .white := by
    rcases hshield.color with hpause | hw | ⟨hroot, -⟩
    · rw [hphase] at hpause
      cases hpause
    · exact hw ⟨vm.id, j, c.generation⟩ (by rw [hkept]; exact htidy.identity hc)
    · rw [hphase] at hroot
      cases hroot
  obtain ⟨color, hcolor⟩ := htidy.color_of_occupied hc
  cases color with
  | white => exact absurd hcolor hnonwhite
  | gray =>
    -- a gray object is on the work list, which is empty
    have hmem := (htidy.gray c.reference).mpr ⟨j, c, hc, rfl, hcolor⟩
    rw [hwork] at hmem
    cases hmem
  | black => exact hcolor

end CellRuns

end RivetLua.Runtime
