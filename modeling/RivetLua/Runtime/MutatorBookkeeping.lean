import RivetLua.Runtime.CycleBookkeeping
import RivetLua.Runtime.Roots

namespace RivetLua.Runtime

open RivetLua.Core RivetLua.Gc StateProg

/-!
# Runtime — the program keeps the bookkeeping and the anchors

* `keeps_guarded_writeRef` — the write barrier, and from it the barriered field writes;
* `Vm.Prepared`, `Vm.TidyWith.barrier` — a prepared barrier marks distinct white objects for
  which there is room, so publishing it cannot fail;
* `keeps_guarded_rawSet`, `keeps_guarded_setMetatable` and so on — one lemma for each operation;
* `addRootEntry_guarded` — a new root is shielded.
-/

section Basic

variable {guard : Anchoring} {hole : List ObjectRef}

theorem Vm.Guarded.ledger {vm : Vm} (h : vm.Guarded guard hole) (l : Ledger) :
    Vm.Guarded guard hole { vm with ledger := l } :=
  h.of_sameHandles ⟨rfl, rfl, rfl, rfl⟩ rfl fun _ hr => hr

theorem keeps_guarded_liftLedger {α : Type} (m : LedgerM α) :
    Keeps (Vm.Guarded guard hole) (liftLedger m) :=
  keeps_liftLedger (fun _ l h => h.ledger l) m

/-- Marking, in any phase. -/
theorem keeps_guarded_gcMarkSlot (object : ObjectRef) :
    Keeps (Vm.Guarded guard hole) (gcMarkSlot object) := by
  refine Keeps.of_apply fun vm h => ?_
  by_cases hp : vm.gc.phase = .pause
  · rcases gcMarkSlot_cases object vm with ⟨e, hrun, -⟩ | ⟨id, o, -, -, ⟨hrun, -⟩ | ⟨-, hp', -⟩⟩
    · rw [hrun]
      exact h
    · rw [hrun]
      exact h
    · exact absurd hp hp'
  · exact ((keeps_guarded_mark object).apply ⟨h, hp⟩).1

theorem Vm.Guarded.remember {vm : Vm} (h : vm.Guarded guard hole) {owner : ObjectRef}
    (hnot : owner ∉ vm.gc.remembered) :
    Vm.Guarded guard hole { vm with
      gc := { vm.gc with remembered := vm.gc.remembered ++ [owner] } } :=
  h.of_gc_same rfl rfl ⟨rfl, rfl, rfl, rfl⟩ rfl
    (List.nodup_append.mpr ⟨h.tidy.remembered, List.nodup_singleton _, fun a ha b hb => by
      rw [List.mem_singleton.mp hb]
      rintro rfl
      exact hnot ha⟩) ⟨rfl, rfl⟩

/-- The owner is remembered once. -/
theorem rememberGcOwner_cases (owner : ObjectRef) (vm : Vm) :
    (∃ r l, rememberGcOwner owner vm = (r, { vm with ledger := l })) ∨
    (∃ l, owner ∉ vm.gc.remembered ∧ rememberGcOwner owner vm = (.ok (), { vm with
      ledger := l, gc := { vm.gc with remembered := vm.gc.remembered ++ [owner] } })) := by
  unfold rememberGcOwner
  rw [Prog.bind_apply_ok (Prog.get_apply vm)]
  by_cases hmem : owner ∈ vm.gc.remembered
  · rw [if_pos hmem]
    exact .inl ⟨.ok (), vm.ledger, rfl⟩
  · rw [if_neg hmem]
    rcases hres : liftLedger (reserveVec 1 objectRefSize .rememberedReserve) vm with ⟨r, vm₁⟩
    obtain ⟨l, hl⟩ := liftLedger_eq (reserveVec 1 objectRefSize .rememberedReserve) vm
    rw [hres] at hl
    simp only at hl
    subst hl
    cases r with
    | error e => exact .inl ⟨.error e, l, Prog.bind_apply_error hres⟩
    | ok u => exact .inr ⟨l, hmem, (Prog.bind_apply_ok hres).trans rfl⟩

theorem keeps_guarded_rememberGcOwner (owner : ObjectRef) :
    Keeps (Vm.Guarded guard hole) (rememberGcOwner owner) := by
  refine Keeps.of_apply fun vm h => ?_
  rcases rememberGcOwner_cases owner vm with ⟨r, l, hrun⟩ | ⟨l, hnot, hrun⟩
  · rw [hrun]
    exact h.ledger l
  · rw [hrun]
    exact (h.remember hnot).ledger l

/-- **The write barrier keeps bookkeeping and shields.** -/
theorem keeps_guarded_writeRef (owner : ObjectRef) (field : RefField) (child : ObjectRef) :
    Keeps (Vm.Guarded guard hole) (writeRef owner field child) := by
  refine Keeps.bind Keeps.get fun vm => Keeps.bind (Keeps.ofExcept _) fun o =>
    Keeps.bind (Keeps.ofExcept _) fun c =>
      Keeps.bind (Keeps.when (keeps_guarded_rememberGcOwner owner)) fun _ =>
        Keeps.bind (Keeps.ofExcept _) fun weak => Keeps.when ?_
  exact Keeps.bind (Keeps.ofExcept _) fun _ => Keeps.when (keeps_guarded_gcMarkSlot child)

theorem keeps_guarded_writeRef? (owner : ObjectRef) (field : RefField) (child : Option ObjectRef) :
    Keeps (Vm.Guarded guard hole) (writeRef? owner field child) := by
  cases child with
  | none => exact Keeps.pure ()
  | some child => exact keeps_guarded_writeRef owner field child

/-- The object of a slot changes. -/
theorem Vm.Guarded.setPayload {vm : Vm} (h : vm.Guarded guard hole) (index : Nat)
    (payload : HeapPayload) : (vm.setPayload index payload).Guarded guard hole := by
  obtain ⟨slots, heq⟩ := vm.setPayload_frame index payload
  have hs := SameHandles.setPayload vm index payload
  rw [heq] at hs ⊢
  exact h.of_sameHandles hs rfl fun _ hr => hr

theorem Vm.Guarded.setObject {vm : Vm} (h : vm.Guarded guard hole) (index : Nat)
    (object : HeapObject) : (vm.setObject index object).Guarded guard hole := by
  have hs := SameHandles.setObject vm index object
  refine h.of_sameHandles hs ?_ fun r hr => ?_
  · unfold Vm.setObject
    cases vm.occupied? index <;> rfl
  · unfold Vm.setObject at hr
    cases ho : vm.occupied? index with
    | none =>
      rw [ho] at hr
      exact hr
    | some o =>
      rw [ho] at hr
      exact hr

theorem Vm.Guarded.setOccupied {vm : Vm} (h : vm.Guarded guard hole) {index : Nat}
    {o o' : OccupiedSlot} (ho : vm.occupied? index = some o) (hgen : o'.generation = o.generation)
    (href : o'.reference = o.reference) : (vm.setOccupied index o').Guarded guard hole :=
  h.of_sameHandles (SameHandles.setOccupied ho hgen href) rfl fun _ hr => hr

/-! ### Field writes -/

theorem keeps_guarded_addChild (parent child : ObjectRef) :
    Keeps (Vm.Guarded guard hole) (addChild parent child) :=
  Keeps.bind (keeps_guarded_writeRef _ _ _) fun _ => Keeps.bind Keeps.get fun _ =>
    Keeps.bind (Keeps.ofOption _ _) fun _ => Keeps.bind (Keeps.ofOption _ _) fun _ =>
      Keeps.bind (keeps_guarded_liftLedger _) fun _ => Keeps.modify fun _ h => h.setObject _ _

theorem keeps_guarded_setUservalue (object : ObjectRef) (index : Nat) (value : Value) :
    Keeps (Vm.Guarded guard hole) (setUservalue object index value) := by
  refine Keeps.bind Keeps.get fun vm => Keeps.bind (Keeps.ofExcept _) fun parts => ?_
  exact Keeps.ite (Keeps.bind (keeps_guarded_writeRef? _ _ _) fun _ =>
    Keeps.bind (Keeps.ofOption _ _) fun _ => Keeps.bind (Keeps.modify fun _ h => h.setPayload _ _)
      fun _ => Keeps.pure true) (Keeps.pure false)

theorem keeps_guarded_withNodeMut (owner : ObjectRef) (newRefs : List ObjectRef)
    (keep : ObjectRef → Bool) : Keeps (Vm.Guarded guard hole) (withNodeMut owner newRefs keep) := by
  refine Keeps.bind Keeps.get fun vm => Keeps.bind (Keeps.ofExcept _) fun parts => ?_
  exact Keeps.bind (Keeps.forM (fun child => keeps_guarded_writeRef _ _ child) _) fun _ =>
    Keeps.bind (Keeps.ofOption _ _) fun _ => Keeps.modify fun _ h => h.setPayload _ _

/-! ### Finalizers and metatables -/

/-- A registration changes the finalizer fields of one object. -/
theorem registerFinalizer_cases (object : ObjectRef) (vm : Vm) :
    (registerFinalizer object vm).2 = vm ∨
    ∃ id o, object.identity = some id ∧ vm.checkedSlot object = .ok o ∧
      vm.shutdownClosing = false ∧ o.newRegistration = true ∧
      registerFinalizer object vm = (.ok (),
        { vm.setOccupied id.slot (o.registered vm.finalizerNextOrder) with
          finalizerNextOrder := vm.finalizerNextOrder + 1 }) := by
  unfold registerFinalizer
  rw [Prog.bind_apply_ok (Prog.get_apply vm)]
  cases hres : vm.checkedSlot object with
  | error e => exact .inl rfl
  | ok o =>
    rw [Prog.bind_apply_ok (show Prog.ofExcept (.ok o) vm = (.ok o, vm) from rfl)]
    cases hclosing : vm.shutdownClosing with
    | true => exact .inl rfl
    | false =>
      simp only [Bool.false_eq_true, if_false]
      cases hnew : o.newRegistration with
      | false => exact .inl rfl
      | true =>
        simp only [if_true]
        obtain ⟨id, hid, -⟩ := Vm.checkedSlot_eq_ok.mp hres
        by_cases horder : vm.finalizerNextOrder + 1 < 2 ^ 64
        · rw [if_pos horder, hid]
          exact .inr ⟨id, o, rfl, rfl, trivial, hnew, rfl⟩
        · rw [if_neg horder]
          exact .inl rfl

theorem OccupiedSlot.registered_handle (o : OccupiedSlot) (order : Nat) :
    (o.registered order).generation = o.generation ∧
      (o.registered order).reference = o.reference := by
  unfold OccupiedSlot.registered
  split <;> exact ⟨rfl, rfl⟩

theorem keeps_guarded_registerFinalizer (object : ObjectRef) :
    Keeps (Vm.Guarded guard hole) (registerFinalizer object) := by
  refine Keeps.of_apply fun vm h => ?_
  rcases registerFinalizer_cases object vm with heq | ⟨id, o, hid, hres, -, -, heq⟩
  · rw [heq]
    exact h
  · rw [heq]
    obtain ⟨id', hid', hocc, -⟩ := Vm.occupied_of_checkedSlot hres
    obtain rfl : id = id' := by simpa [hid] using hid'
    obtain ⟨hgen, href⟩ := o.registered_handle vm.finalizerNextOrder
    have hs := SameHandles.setOccupied hocc hgen href
    exact h.of_sameHandles ⟨hs.id, hs.handles, hs.scanEnd, hs.token⟩ rfl fun _ hr => hr

theorem keeps_guarded_setMetatable (object : ObjectRef) (metatable : Option ObjectRef) :
    Keeps (Vm.Guarded guard hole) (setMetatable object metatable) := by
  have hpreflight : Keeps (Vm.Guarded guard hole) (preflightFinalizerRegistration object) :=
    Keeps.bind Keeps.get fun _ => Keeps.bind (Keeps.ofExcept _) fun _ =>
      Keeps.ite (Keeps.pure ()) (Keeps.ite (Keeps.pure ()) (Keeps.fail _))
  exact Keeps.bind Keeps.get fun _ => Keeps.bind (Keeps.ofExcept _) fun _ =>
    Keeps.bind (Keeps.ofOption _ _) fun _ => Keeps.bind (Keeps.ofExcept _) fun _ =>
      Keeps.bind (Keeps.when hpreflight) fun _ =>
        Keeps.bind (keeps_guarded_writeRef? _ _ _) fun _ => Keeps.bind (Keeps.ofOption _ _) fun _ =>
          Keeps.bind (Keeps.modify fun _ h => h.setPayload _ _) fun _ =>
            Keeps.when (keeps_guarded_registerFinalizer object)

end Basic

/-! ### The raw write -/

section RawSet

variable {vm : Vm} {guard : Anchoring} {hole : List ObjectRef}

/-- What the preparation of one edge finds: a reference that resolves, and a mark exactly when
    the owner is black, the edge is not weak and the child is white. -/
theorem Vm.prepareEdge_eq_ok {mode : WeakMode} {ownerOld ownerBlack : Bool} {field : RefField}
    {child : ObjectRef} {edge : Bool × Option (ObjectRef × Nat)}
    (h : vm.prepareEdge mode ownerOld ownerBlack field child = .ok edge) :
    ∃ c id, vm.checkedSlot child = .ok c ∧ child.identity = some id ∧
      edge.1 = (ownerOld && decide (c.age ≠ .old)) ∧
      ((edge.2 = some (child, id.slot) ∧ ownerBlack = true ∧ vm.gc.color id.slot = some .white ∧
          weakTableEdge mode field c.object.payload.isByteString = false) ∨
        (edge.2 = none ∧ (weakTableEdge mode field c.object.payload.isByteString = true ∨
          ownerBlack = false ∨ vm.gc.color id.slot ≠ some .white))) := by
  obtain ⟨remember, mark⟩ := edge
  unfold Vm.prepareEdge at h
  cases hres : vm.checkedSlot child with
  | error e => simp [hres] at h
  | ok c =>
    obtain ⟨id, hid, -⟩ := Vm.checkedSlot_eq_ok.mp hres
    simp only [hres, hid] at h
    refine ⟨c, id, rfl, hid, ?_⟩
    by_cases hskip : (weakTableEdge mode field c.object.payload.isByteString || !ownerBlack) = true
    · rw [if_pos hskip] at h
      simp only [Except.ok.injEq, Prod.mk.injEq] at h
      refine ⟨h.1.symm, .inr ⟨h.2.symm, ?_⟩⟩
      simp only [Bool.or_eq_true, Bool.not_eq_true'] at hskip
      exact hskip.imp_right .inl
    · rw [if_neg hskip] at h
      simp only [Bool.or_eq_true, Bool.not_eq_true', not_or, Bool.not_eq_false] at hskip
      cases hcolor : vm.gc.color id.slot with
      | none => simp [hcolor] at h
      | some color =>
        cases color with
        | white =>
          simp only [hcolor, Except.ok.injEq, Prod.mk.injEq] at h
          exact ⟨h.1.symm, .inl ⟨h.2.symm, hskip.2, rfl, by simpa using hskip.1⟩⟩
        | gray =>
          simp only [hcolor, Except.ok.injEq, Prod.mk.injEq] at h
          exact ⟨h.1.symm, .inr ⟨h.2.symm, .inr (.inr (by simp))⟩⟩
        | black =>
          simp only [hcolor, Except.ok.injEq, Prod.mk.injEq] at h
          exact ⟨h.1.symm, .inr ⟨h.2.symm, .inr (.inr (by simp))⟩⟩

/-- A barrier prepared for a write of `key` and `value` into the table `t`. -/
structure Vm.Prepared (vm : Vm) (owner : ObjectRef) (t : Table) (key value : Option ObjectRef)
    (barrier : PreparedTableBarrier) : Prop where
  table : vm.table owner = .ok t
  edges : ∃ ownerOld ownerBlack keyEdge valueEdge, vm.ownerBlack owner = .ok ownerBlack ∧
    vm.prepareEdge? t.weakMode ownerOld ownerBlack .tableKey key = .ok keyEdge ∧
    vm.prepareEdge? t.weakMode ownerOld ownerBlack .tableValue value = .ok valueEdge ∧
    barrier.marks = mergeMarks keyEdge.2 valueEdge.2
  room : barrier.marks.length ≤ vm.gc.workCapacity - vm.gc.work.length
  remember : barrier.remember = true → owner ∉ vm.gc.remembered

/-- The preparation of a barrier reads the heap and asks the ledger. -/
theorem prepareTableWriteBarrier_cases (owner : ObjectRef) (key value : Option ObjectRef) (vm : Vm) :
    (∃ e l, prepareTableWriteBarrier owner key value vm = (.error e, { vm with ledger := l })) ∨
    (∃ barrier t l, prepareTableWriteBarrier owner key value vm = (.ok barrier, { vm with ledger := l }) ∧
      vm.Prepared owner t key value barrier) := by
  unfold prepareTableWriteBarrier
  rw [Prog.bind_apply_ok (Prog.get_apply vm)]
  cases hres : vm.checkedSlot owner with
  | error e => exact .inl ⟨e, vm.ledger, rfl⟩
  | ok o =>
    refine ?_
    cases htable : vm.table owner with
    | error e => exact .inl ⟨e, vm.ledger, rfl⟩
    | ok t =>
      cases hblack : vm.ownerBlack owner with
      | error e => exact .inl ⟨e, vm.ledger, rfl⟩
      | ok black =>
        rw [Prog.bind_apply_ok (show Prog.ofExcept (.ok o) vm = (.ok o, vm) from rfl),
          Prog.bind_apply_ok (show Prog.ofExcept (.ok t) vm = (.ok t, vm) from rfl)]
        simp only
        rw [Prog.bind_apply_ok (show Prog.ofExcept (.ok black) vm = (.ok black, vm) from rfl)]
        cases hkey : vm.prepareEdge? t.weakMode
          (decide (vm.gc.mode = .generational) && decide (o.age = .old)) black .tableKey key with
        | error e => exact .inl ⟨e, vm.ledger, rfl⟩
        | ok keyEdge =>
          cases hvalue : vm.prepareEdge? t.weakMode
            (decide (vm.gc.mode = .generational) && decide (o.age = .old)) black .tableValue value with
          | error e => exact .inl ⟨e, vm.ledger, rfl⟩
          | ok valueEdge =>
            rw [Prog.bind_apply_ok (show Prog.ofExcept (.ok keyEdge) vm = (.ok keyEdge, vm) from rfl),
              Prog.bind_apply_ok (show Prog.ofExcept (.ok valueEdge) vm = (.ok valueEdge, vm) from rfl)]
            by_cases hroom : vm.gc.workCapacity - vm.gc.work.length
                < (mergeMarks keyEdge.2 valueEdge.2).length
            · rw [if_pos hroom]
              exact .inl ⟨_, vm.ledger, rfl⟩
            · rw [if_neg hroom]
              obtain ⟨remember, hremember⟩ : ∃ b, b =
                ((keyEdge.1 || valueEdge.1) && !decide (owner ∈ vm.gc.remembered)) := ⟨_, rfl⟩
              rw [← hremember]
              have hprepared : vm.Prepared owner t key value
                  ⟨remember, mergeMarks keyEdge.2 valueEdge.2⟩ :=
                { table := htable
                  edges := ⟨_, black, keyEdge, valueEdge, hblack, hkey, hvalue, rfl⟩
                  room := Nat.le_of_not_lt hroom
                  remember := fun hb => by
                    rw [show remember = true from hb] at hremember
                    simpa using (Bool.and_eq_true_iff.mp hremember.symm).2 }
              cases remember with
              | false =>
                exact .inr ⟨_, t, vm.ledger, rfl, hprepared⟩
              | true =>
                rcases hres : liftLedger (reserveVec 1 objectRefSize .rememberedReserve) vm with ⟨r, vm₁⟩
                obtain ⟨l, hl⟩ := liftLedger_eq (reserveVec 1 objectRefSize .rememberedReserve) vm
                rw [hres] at hl
                obtain rfl : vm₁ = { vm with ledger := l } := hl
                cases r with
                | error e => exact .inl ⟨e, l, Prog.bind_apply_error hres⟩
                | ok u => exact .inr ⟨_, t, l, (Prog.bind_apply_ok hres).trans rfl, hprepared⟩

/-- White objects in different slots become gray one after the other. -/
theorem Vm.TidyWith.pushGrays : ∀ {vm : Vm} {marks : List (ObjectRef × Nat)},
    vm.TidyWith hole → (marks.map Prod.snd).Nodup → (marks ≠ [] → vm.gc.phase ≠ .pause) →
    (∀ m ∈ marks, ∃ o, vm.occupied? m.2 = some o ∧ o.reference = m.1 ∧
      vm.gc.color m.2 = some .white) →
    Vm.TidyWith hole { vm with gc := marks.foldl (fun gc m => gc.pushGray m.2 m.1) vm.gc } ∧
      Marked (· ∈ marks.map Prod.snd) vm
        { vm with gc := marks.foldl (fun gc m => gc.pushGray m.2 m.1) vm.gc } ∧
      ∀ m ∈ marks, (marks.foldl (fun gc m => gc.pushGray m.2 m.1) vm.gc).color m.2 ≠ some .white
  | vm, [], h, _, _, _ => ⟨h, Marked.refl _ vm, fun m hm => absurd hm (by simp)⟩
  | vm, mark :: rest, h, hnodup, hphase, hmarks => by
    obtain ⟨o, ho, href, hwhite⟩ := hmarks mark List.mem_cons_self
    have hp := hphase (by simp)
    obtain ⟨htidy, hm⟩ := h.pushGray ho hp hwhite
    rw [href] at htidy hm
    obtain ⟨hnot, hnodup'⟩ := List.nodup_cons.mp (show (mark.2 :: rest.map Prod.snd).Nodup from hnodup)
    have hbit : vm.gc.occupiedBit mark.2 = true := by rw [h.occupied, ho]; rfl
    obtain ⟨htidy', hm', hgray⟩ := htidy.pushGrays hnodup'
      (fun _ hp' => hp (hm.phase_pause.mp hp')) fun m hmem => by
        obtain ⟨o', ho', href', hwhite'⟩ := hmarks m (List.mem_cons_of_mem _ hmem)
        refine ⟨o', ho', href', ?_⟩
        -- the other marks are in other slots
        show (vm.gc.pushGray mark.2 mark.1).color m.2 = some .white
        rw [GcState.color_pushGray _ hbit, if_neg, hwhite']
        intro heq
        exact hnot (heq ▸ List.mem_map_of_mem hmem)
    refine ⟨htidy', ?_, fun m hmem => ?_⟩
    · exact (hm.mono fun i hi => by simp [hi]).trans
        (hm'.mono fun i hi => List.mem_cons_of_mem _ hi)
    · rcases List.mem_cons.mp hmem with rfl | hmem
      · rw [List.foldl_cons]
        refine fun hw => ?_
        have hfirst : (vm.gc.pushGray m.2 m.1).color m.2 ≠ some .white := by
          rw [GcState.color_pushGray _ hbit, if_pos rfl]
          simp
        exact hfirst ((hm'.nonwhite hfirst).symm.trans hw)
      · exact hgray m hmem

theorem mem_mergeMarks {first second : Option (ObjectRef × Nat)} {m : ObjectRef × Nat}
    (h : m ∈ mergeMarks first second) : first = some m ∨ second = some m := by
  unfold mergeMarks at h
  split at h
  · split at h
    · simp only [List.mem_singleton] at h
      exact .inl (by rw [h])
    · simp only [List.mem_cons, List.not_mem_nil, or_false] at h
      rcases h with h | h
      · exact .inl (by rw [h])
      · exact .inr (by rw [h])
  · simp only [List.mem_singleton] at h
    exact .inl (by rw [h])
  · simp only [List.mem_singleton] at h
    exact .inr (by rw [h])
  · exact absurd h (by simp)

/-- A mark that was left out is a repetition. -/
theorem fst_mem_mergeMarks {first second : Option (ObjectRef × Nat)} {m : ObjectRef × Nat}
    (h : first = some m ∨ second = some m) : ∃ m' ∈ mergeMarks first second, m'.1 = m.1 := by
  unfold mergeMarks
  rcases h with rfl | rfl
  · cases second with
    | none => exact ⟨m, by simp, rfl⟩
    | some b =>
      simp only
      split
      · exact ⟨m, by simp, rfl⟩
      · exact ⟨m, by simp, rfl⟩
  · cases first with
    | none => exact ⟨m, by simp, rfl⟩
    | some a =>
      simp only
      split
      · rename_i heq
        exact ⟨a, by simp, heq⟩
      · exact ⟨m, by simp, rfl⟩

/-- The marks of a prepared barrier: different white objects, in an active cycle. -/
theorem Vm.Prepared.marks {owner : ObjectRef} {t : Table} {key value : Option ObjectRef}
    {barrier : PreparedTableBarrier} (hb : vm.Prepared owner t key value barrier) :
    (barrier.marks.map Prod.snd).Nodup ∧ (barrier.marks ≠ [] → vm.gc.phase ≠ .pause) ∧
      ∀ m ∈ barrier.marks, ∃ o, vm.occupied? m.2 = some o ∧ o.reference = m.1 ∧
        vm.gc.color m.2 = some .white := by
  obtain ⟨old, black, keyEdge, valueEdge, hblack, hkey, hvalue, hmarks⟩ := hb.edges
  -- one edge: the mark is the child in its slot, white, and the owner is black
  have hedge : ∀ {field child edge m}, vm.prepareEdge? t.weakMode old black field child = .ok edge →
      edge.2 = some m → black = true ∧ ∃ o, vm.occupied? m.2 = some o ∧ o.reference = m.1 ∧
        vm.gc.color m.2 = some .white := by
    intro field child edge m hprep hm
    cases child with
    | none =>
      obtain rfl : (false, none) = edge := by simpa [Vm.prepareEdge?] using hprep
      exact absurd hm (by simp)
    | some child =>
      obtain ⟨c, id, hres, hid, -, ⟨hmark, hbl, hwhite, -⟩ | ⟨hnone, -⟩⟩ :=
        Vm.prepareEdge_eq_ok hprep
      · rw [hmark, Option.some.injEq] at hm
        subst hm
        obtain ⟨id', hid', hocc, href⟩ := Vm.occupied_of_checkedSlot hres
        obtain rfl : id = id' := by simpa [hid] using hid'
        exact ⟨hbl, c, hocc, href, hwhite⟩
      · rw [hnone] at hm
        exact absurd hm (by simp)
  have hall : ∀ m ∈ barrier.marks, black = true ∧ ∃ o, vm.occupied? m.2 = some o ∧
      o.reference = m.1 ∧ vm.gc.color m.2 = some .white := by
    intro m hm
    rw [hmarks] at hm
    rcases mem_mergeMarks hm with h | h
    · exact hedge hkey h
    · exact hedge hvalue h
  refine ⟨?_, fun hne => ?_, fun m hm => (hall m hm).2⟩
  · -- two marks in one slot would be one reference
    rw [hmarks]
    unfold mergeMarks
    cases hk : keyEdge.2 with
    | none => cases hv : valueEdge.2 <;> simp
    | some a =>
      cases hv : valueEdge.2 with
      | none => simp
      | some b =>
        simp only
        split
        · simp
        · rename_i hne
          simp only [List.map_cons, List.map_nil, List.nodup_cons, List.mem_singleton,
            List.not_mem_nil, not_false_eq_true, List.nodup_nil, and_true]
          intro heq
          obtain ⟨-, o, ho, href, -⟩ := hedge hkey hk
          obtain ⟨-, o', ho', href', -⟩ := hedge hvalue hv
          rw [heq, ho', Option.some.injEq] at ho
          exact hne (by rw [← href, ← href', ho])
  · obtain ⟨m, hm⟩ := List.exists_mem_of_ne_nil _ hne
    have hbl := (hall m hm).1
    intro hp
    unfold Vm.ownerBlack at hblack
    rw [if_pos hp, hbl] at hblack
    exact absurd hblack (by simp)

/-- **Publishing a prepared barrier cannot fail**: it remembers the owner at most once and marks
    every child that is stored in a black table by an edge that is not weak. -/
theorem Vm.Prepared.publish {owner : ObjectRef} {t : Table} {key value : Option ObjectRef}
    {barrier : PreparedTableBarrier} (h : vm.TidyWith hole)
    (hb : vm.Prepared owner t key value barrier) :
    Vm.TidyWith hole { vm with gc := barrier.apply owner vm.gc } ∧
      (∃ remembered, Marked (fun _ => True)
        { vm with gc := { vm.gc with remembered := remembered } }
        { vm with gc := barrier.apply owner vm.gc }) ∧
      ∀ field child, (field = .tableKey ∧ key = some child) ∨
          (field = .tableValue ∧ value = some child) →
        ∃ c, vm.checkedSlot child = .ok c ∧
          (weakTableEdge t.weakMode field c.object.payload.isByteString = true ∨
            vm.ownerBlack owner = .ok false ∨
            Vm.Nonwhite { vm with gc := barrier.apply owner vm.gc } child) := by
  obtain ⟨hnodup, hphase, hwhite⟩ := hb.marks
  obtain ⟨vm₁, hvm₁⟩ : ∃ vm₁, vm₁ = { vm with gc := if barrier.remember then
    { vm.gc with remembered := vm.gc.remembered ++ [owner] } else vm.gc } := ⟨_, rfl⟩
  have hsame : ∃ remembered, vm₁ = { vm with gc := { vm.gc with remembered := remembered } } ∧
      remembered.Nodup := by
    rw [hvm₁]
    cases hrem : barrier.remember with
    | false => exact ⟨vm.gc.remembered, rfl, h.remembered⟩
    | true =>
      refine ⟨_, rfl, List.nodup_append.mpr ⟨h.remembered, List.nodup_singleton _, ?_⟩⟩
      intro a ha b hmem
      rw [List.mem_singleton.mp hmem]
      rintro rfl
      exact hb.remember hrem ha
  obtain ⟨remembered, heq, hremembered⟩ := hsame
  have htidy₁ : vm₁.TidyWith hole := by
    rw [heq]
    exact h.of_gc_same rfl rfl ⟨rfl, rfl, rfl, rfl⟩ Iff.rfl hremembered
  obtain ⟨htidy, hm, hgray⟩ := Vm.TidyWith.pushGrays htidy₁ hnodup
    (by rw [heq]; exact hphase) (by rw [heq]; exact hwhite)
  have happly : { vm₁ with gc := barrier.marks.foldl (fun gc m => gc.pushGray m.2 m.1) vm₁.gc }
      = { vm with gc := barrier.apply owner vm.gc } := by
    rw [hvm₁]
    rfl
  rw [happly] at htidy hm
  refine ⟨htidy, ⟨remembered, by rw [← heq]; exact hm.mono fun _ _ => trivial⟩, ?_⟩
  intro field child hchild
  obtain ⟨old, black, keyEdge, valueEdge, hblack, hkey, hvalue, hmarks⟩ := hb.edges
  -- the edge of the child, and where its mark is
  obtain ⟨edge, hprep, hmem⟩ : ∃ edge, vm.prepareEdge t.weakMode old black field child = .ok edge ∧
      (keyEdge.2 = edge.2 ∨ valueEdge.2 = edge.2) := by
    rcases hchild with ⟨rfl, rfl⟩ | ⟨rfl, rfl⟩
    · exact ⟨keyEdge, hkey, .inl rfl⟩
    · exact ⟨valueEdge, hvalue, .inr rfl⟩
  obtain ⟨c, id, hres, hid, -, ⟨hmark, -, -, -⟩ | ⟨-, hskip⟩⟩ :=
    Vm.prepareEdge_eq_ok hprep
  · refine ⟨c, hres, .inr (.inr fun id' hid' => ?_)⟩
    obtain rfl : id = id' := by simpa [hid] using hid'
    obtain ⟨m, hm', hfst⟩ := fst_mem_mergeMarks
      (show keyEdge.2 = some (child, id.slot) ∨ valueEdge.2 = some (child, id.slot) by
        rw [hmark] at hmem; exact hmem)
    rw [← hmarks] at hm'
    obtain ⟨o, ho, href, -⟩ := hwhite m hm'
    have hslot : m.2 = id.slot := by
      have hid₂ := h.identity ho
      rw [href, hfst, hid, Option.some.injEq] at hid₂
      rw [hid₂]
    have := hgray m hm'
    rw [hslot] at this
    rw [← happly]
    exact this
  · refine ⟨c, hres, ?_⟩
    rcases hskip with hweak | hb' | hcolor
    · exact .inl hweak
    · exact .inr (.inl (by rw [hblack, hb']))
    · refine .inr (.inr fun id' hid' => ?_)
      obtain rfl : id = id' := by simpa [hid] using hid'
      have hc₁ : vm₁.gc.color id.slot ≠ some .white := by
        rw [heq]
        exact hcolor
      rw [hm.nonwhite hc₁]
      exact hc₁

/-- **The raw write**: it is refused, with nothing but ledger requests made, or the barrier is
    published and the mutation stored. -/
theorem rawSet_cases [DefaultHasher] (table : ObjectRef) (key value : Value) (vm : Vm) :
    (∃ e l, Vm.rawSet table key value vm = (.error e, { vm with ledger := l })) ∨
    (∃ id t mutation barrier l l₁, table.identity = some id ∧ vm.table table = .ok t ∧
      t.prepareRawSet vm key value vm.ledger = (.ok mutation, l₁) ∧
      Vm.Prepared { vm with ledger := l₁ } table t mutation.newEdges.1 mutation.newEdges.2 barrier ∧
      Vm.rawSet table key value vm = (.ok (),
        { vm with ledger := l, gc := barrier.apply table vm.gc }.setPayload id.slot
          (.table (mutation.apply t)))) := by
  unfold Vm.rawSet
  rw [Prog.bind_apply_ok (Prog.get_apply vm)]
  cases htable : vm.table table with
  | error e => exact .inl ⟨e, vm.ledger, rfl⟩
  | ok t =>
    obtain ⟨id, hid⟩ : ∃ id, table.identity = some id := by
      cases hres : vm.checkedSlot table with
      | error e =>
        unfold Vm.table at htable
        rw [hres] at htable
        exact absurd htable (by simp)
      | ok o =>
        obtain ⟨id, hid, -⟩ := Vm.checkedSlot_eq_ok.mp hres
        exact ⟨id, hid⟩
    rw [Prog.bind_apply_ok (show Prog.ofExcept (.ok t) vm = (.ok t, vm) from rfl), hid,
      Prog.bind_apply_ok (show Prog.ofOption VmError.staleObject (some id) vm = (.ok id, vm) from rfl)]
    rcases hprep : t.prepareRawSet vm key value vm.ledger with ⟨r, l₁⟩
    have hlift : liftLedger (t.prepareRawSet vm key value) vm = (r, { vm with ledger := l₁ }) := by
      unfold liftLedger
      rw [hprep]
    cases r with
    | error e => exact .inl ⟨e, l₁, Prog.bind_apply_error hlift⟩
    | ok mutation =>
      rw [Prog.bind_apply_ok hlift]
      rcases prepareTableWriteBarrier_cases table mutation.newEdges.1 mutation.newEdges.2
          { vm with ledger := l₁ } with ⟨e, l, hrun⟩ | ⟨barrier, t', l, hrun, hb⟩
      · exact .inl ⟨e, l, Prog.bind_apply_error hrun⟩
      · obtain rfl : t = t' := by
          have := hb.table
          rw [show Vm.table { vm with ledger := l₁ } table = vm.table table from rfl, htable] at this
          simpa using this
        exact .inr ⟨id, t, mutation, barrier, l, l₁, rfl, rfl, hprep, hb,
          (Prog.bind_apply_ok hrun).trans rfl⟩

theorem keeps_guarded_rawSet [DefaultHasher] (table : ObjectRef) (key value : Value) :
    Keeps (Vm.Guarded guard hole) (Vm.rawSet table key value) := by
  refine Keeps.of_apply fun vm h => ?_
  rcases rawSet_cases table key value vm with
    ⟨e, l, hrun⟩ | ⟨id, t, mutation, barrier, l, l₁, -, -, -, hb, hrun⟩
  · rw [hrun]
    exact h.ledger l
  · rw [hrun]
    refine Vm.Guarded.setPayload ?_ _ _
    have h₁ := h.ledger l₁
    obtain ⟨htidy, ⟨remembered, hm⟩, -⟩ := hb.publish h₁.tidy
    have hg : Vm.Guarded guard hole { vm with ledger := l₁, gc := barrier.apply table vm.gc } := by
      refine ⟨htidy, fun r hr => ?_⟩
      have hshield : Vm.Shields { vm with ledger := l₁, gc := { vm.gc with remembered := remembered } } r :=
        (h₁.shield r (hm.anchors ▸ hr)).of_gc rfl ⟨rfl, rfl⟩ fun _ hc => hc
      exact hshield.of_marked hm
    exact hg.ledger l

end RawSet

/-! ### Objects come and go -/

section Objects

variable {vm vm' : Vm} {guard : Anchoring}

/-- A publication keeps bookkeeping and shields. -/
theorem Vm.Guarded.published {new : NewObject} {payload : HeapPayload} (h : vm.Guarded guard [])
    (hp : vm.Publishes new payload) : (vm.published new payload).Guarded guard [] := by
  have htidy := h.tidy.published hp
  obtain ⟨-, hphase, -⟩ := Vm.Publishes.gc_eq vm new payload
  refine ⟨htidy, fun r hr => ?_⟩
  have hshield := h.shield r hr
  obtain ⟨o, hres⟩ := hshield.resolves
  obtain ⟨id, hid, hvm, hocc, hgen, href⟩ := Vm.checkedSlot_eq_ok.mp hres
  -- the new object goes to a slot that was not occupied
  have hne : id.slot ≠ new.index := by
    intro heq
    rw [heq, hp.occupied?_eq_none] at hocc
    exact absurd hocc (by simp)
  refine ⟨⟨o, Vm.checkedSlot_eq_ok.mpr ⟨id, hid, hvm, ?_, hgen, href⟩⟩, ?_⟩
  · rw [hp.occupied?, if_neg hne]
    exact hocc
  · rw [hphase]
    refine hshield.color.imp_right fun hc => hc.imp (fun hw id' hid' => ?_) fun hmem => ?_
    · obtain rfl : id = id' := by simpa [hid] using hid'
      rw [hp.color h.tidy, if_neg hne]
      exact hw id hid
    · obtain ⟨_, _, _, _, _, hgc⟩ := Vm.Publishes.gc_frame vm new payload
      rw [hgc]
      exact hmem

end Objects

/-! ### Roots -/

section RootTable

variable {vm vm' : Vm} {guard : Anchoring}

/-- Removing a root drops its entry, or leaves the table as it is. -/
theorem removeRoot_cases (id : RootId) (vm : Vm) :
    (∃ e, removeRoot id vm = (.error e, vm)) ∨
    ∃ index entry r, vm.roots.entries[index]? = some entry ∧ entry.id = id ∧
      (r = .ok entry.object ∨ (r = .error .staleRoot ∧ entry.isActive = false)) ∧
      removeRoot id vm = (r, { vm with
        roots := { vm.roots with entries := swapRemove vm.roots.entries index } }) := by
  unfold removeRoot
  by_cases hvm : id.vm ≠ vm.roots.vm
  · rw [if_pos hvm]
    exact .inl ⟨_, rfl⟩
  · rw [if_neg hvm]
    cases hfind : vm.roots.entries.findIdx? fun e => decide (e.id = id) with
    | none => exact .inl ⟨_, rfl⟩
    | some index =>
      cases hentry : vm.roots.entries[index]? with
      | none => exact .inl ⟨.staleRoot, by simp only [hentry]⟩
      | some entry =>
        have hid : entry.id = id := by
          obtain ⟨hlt, hdec, -⟩ := List.findIdx?_eq_some_iff_getElem.mp hfind
          rw [List.getElem?_eq_getElem hlt, Option.some.injEq] at hentry
          rw [← hentry]
          simpa using hdec
        by_cases hact : entry.isActive = true
        · exact .inr ⟨index, entry, .ok entry.object, hentry, hid, .inl rfl, by
            simp only [hentry, hact, if_true]⟩
        · refine .inr ⟨index, entry, .error .staleRoot, hentry, hid, .inr ⟨rfl, by simpa using hact⟩, ?_⟩
          simp only [hentry, hact, if_false, Bool.false_eq_true]

theorem mem_of_mem_swapRemove {α : Type} {l : List α} {i : Nat} {x y : α} (h : l[i]? = some y)
    (hx : x ∈ swapRemove l i) : x ∈ l :=
  (swapRemove_perm h).mem_iff.mpr (List.mem_cons_of_mem _ hx)

theorem RootSet.mem_objects {r : RootSet} {o : ObjectRef} :
    o ∈ r.objects ↔ ∃ e ∈ r.entries, e.isActive = true ∧ e.object = o := by
  simp [RootSet.objects, and_assoc]

/-- Fewer roots, the same heap. -/
theorem Vm.Guarded.of_roots (h : vm.Guarded guard []) {roots : RootSet}
    (hsub : ∀ o ∈ roots.objects, o ∈ vm.roots.objects) :
    Vm.Guarded guard [] { vm with roots := roots } := by
  refine h.of_sameHandles ⟨rfl, rfl, rfl, rfl⟩ rfl fun r hr => ?_
  obtain ⟨hr, honly⟩ := Vm.mem_anchors.mp hr
  exact Vm.mem_anchors.mpr ⟨hr.imp_left (hsub r), honly⟩

theorem keeps_guarded_removeRoot (id : RootId) : Keeps (Vm.Guarded guard []) (removeRoot id) := by
  refine Keeps.of_apply fun vm h => ?_
  rcases removeRoot_cases id vm with ⟨e, hrun⟩ | ⟨index, entry, r, hentry, -, -, hrun⟩
  · rw [hrun]
    exact h
  · rw [hrun]
    refine h.of_roots fun o ho => ?_
    obtain ⟨e, he, hact, rfl⟩ := RootSet.mem_objects.mp ho
    exact RootSet.mem_objects.mpr ⟨e, mem_of_mem_swapRemove hentry he, hact, rfl⟩

theorem keeps_guarded_deactivateLease (id : RootId) :
    Keeps (Vm.Guarded guard []) (deactivateLease id) := by
  refine Keeps.modify fun vm h => h.of_roots fun o ho => ?_
  obtain ⟨e, he, hact, rfl⟩ := RootSet.mem_objects.mp ho
  obtain ⟨e', he', heq⟩ := List.mem_map.mp he
  by_cases hend : e'.id = id ∧ e'.lease.isSome = true
  · rw [if_pos hend] at heq
    rw [← heq] at hact
    exact absurd hact (by simp [RootEntry.isActive])
  · rw [if_neg hend] at heq
    subst heq
    exact RootSet.mem_objects.mpr ⟨e', he', hact, rfl⟩

/-- What a registration adds to the root table. -/
theorem RootSet.add_cases (r : RootSet) (kind : RootKind) (object : ObjectRef)
    (lease : Option Bool) (l : Ledger) :
    (∃ e l', r.add kind object lease l = (.error e, l')) ∨
    (∃ l', r.add kind object lease l = (.ok (⟨r.vm, r.nextSequence⟩,
      { r with
        entries := r.compact.entries ++ [⟨⟨r.vm, r.nextSequence⟩, kind, object, lease⟩]
        nextSequence := r.nextSequence + 1 }), l')) := by
  unfold RootSet.add
  simp only [show r.compact.nextSequence = r.nextSequence from rfl, show r.compact.vm = r.vm from rfl]
  split
  · rcases hc : checkpoint .rootReserve l with ⟨res, l'⟩
    cases res with
    | error e => exact .inl ⟨e, l', Prog.bind_apply_error hc⟩
    | ok u => exact .inr ⟨l', Prog.bind_apply_ok hc⟩
  · exact .inl ⟨_, l, rfl⟩

/-- **Registering a root**: it is refused, with the ended leases dropped at most, or the new
    entry is there and its object is marked. -/
theorem addRootEntry_cases (h : vm.Tidy) (kind : RootKind) (object : ObjectRef)
    (lease : Option Bool) :
    (∃ e l roots, addRootEntry kind object lease vm
        = (.error e, { vm with ledger := l, roots := roots }) ∧
      (roots = vm.roots ∨ roots = vm.roots.compact)) ∨
    (∃ id o l roots vm', vm.checkedSlot object = .ok o ∧ id = ⟨vm.roots.vm, vm.roots.nextSequence⟩ ∧
      roots = { vm.roots with
        entries := vm.roots.compact.entries ++ [⟨id, kind, object, lease⟩]
        nextSequence := vm.roots.nextSequence + 1 } ∧
      gcMarkSlot object { vm with ledger := l, roots := roots } = (.ok (), vm') ∧
      addRootEntry kind object lease vm = (.ok id, vm')) := by
  unfold addRootEntry
  rw [Prog.bind_apply_ok (Prog.get_apply vm)]
  cases hres : vm.checkedSlot object with
  | error e => exact .inl ⟨e, vm.ledger, vm.roots, rfl, .inl rfl⟩
  | ok o =>
    rw [Prog.bind_apply_ok (show Prog.ofExcept (.ok o) vm = (.ok o, vm) from rfl),
      Prog.bind_apply_ok (Prog.modify_apply _ vm), Prog.bind_apply_ok (Prog.get_apply _)]
    simp only
    have hcompact : vm.roots.compact.compact = vm.roots.compact := by
      simp [RootSet.compact, List.filter_filter]
    rcases RootSet.add_cases vm.roots.compact kind object lease vm.ledger with
      ⟨e, l, hadd⟩ | ⟨l, hadd⟩
    · refine .inl ⟨e, l, vm.roots.compact, Prog.bind_apply_error ?_, .inr rfl⟩
      unfold liftLedger
      rw [show Vm.ledger { vm with roots := vm.roots.compact } = vm.ledger from rfl, hadd]
    · rw [hcompact] at hadd
      rw [Prog.bind_apply_ok (show liftLedger (vm.roots.compact.add kind object lease)
        { vm with roots := vm.roots.compact } = (_, { vm with ledger := l, roots := vm.roots.compact })
          by unfold liftLedger; rw [show Vm.ledger { vm with roots := vm.roots.compact }
              = vm.ledger from rfl, hadd])]
      simp only
      rw [Prog.bind_apply_ok (Prog.modify_apply _ _)]
      obtain ⟨roots, hroots⟩ : ∃ roots : RootSet, roots = { vm.roots with
        entries := vm.roots.compact.entries ++
          [⟨⟨vm.roots.vm, vm.roots.nextSequence⟩, kind, object, lease⟩]
        nextSequence := vm.roots.nextSequence + 1 } := ⟨_, rfl⟩
      have htidy : Vm.Tidy { vm with ledger := l, roots := roots } :=
        @SameHandles.tidy vm _ [] ⟨rfl, rfl, rfl, rfl⟩ rfl h
      obtain ⟨-, vm', -, hmark, -⟩ :=
        htidy.mark (show Vm.checkedSlot { vm with ledger := l, roots := roots } object = .ok o from hres)
      refine .inr ⟨_, o, l, roots, vm', rfl, rfl, hroots, hmark, ?_⟩
      rw [hroots] at hmark
      exact (Prog.bind_apply_ok (Prog.onError_apply_ok hmark)).trans rfl

theorem keeps_guarded_addRootEntry (kind : RootKind) (object : ObjectRef) (lease : Option Bool) :
    Keeps (Vm.Guarded guard []) (addRootEntry kind object lease) := by
  refine Keeps.of_apply fun vm h => ?_
  rcases addRootEntry_cases h.tidy kind object lease with
    ⟨e, l, roots, hrun, hroots⟩ | ⟨id, o, l, roots, vm', hres, -, hroots, hmark, hrun⟩
  · rw [hrun]
    refine (h.ledger l).of_roots fun r hr => ?_
    rcases hroots with rfl | rfl
    · exact hr
    · rw [RootSet.objects_compact] at hr
      exact hr
  · rw [hrun]
    have hsame : SameHandles vm { vm with ledger := l, roots := roots } := ⟨rfl, rfl, rfl, rfl⟩
    have htidy := hsame.tidy rfl h.tidy
    -- an anchor is an old one or the new root
    have hanchors : ∀ r ∈ Vm.anchors guard { vm with ledger := l, roots := roots },
        r ∈ vm.anchors guard ∨ r = object := by
      intro r hr
      obtain ⟨hr, honly⟩ := Vm.mem_anchors.mp hr
      rcases hr with hr | hr
      · obtain ⟨e, he, hact, rfl⟩ := RootSet.mem_objects.mp hr
        rw [hroots] at he
        rcases List.mem_append.mp he with he | he
        · exact .inl (Vm.mem_anchors.mpr ⟨.inl (RootSet.mem_objects.mpr
            ⟨e, (List.mem_filter.mp he).1, hact, rfl⟩), honly⟩)
        · exact .inr (by rw [List.mem_singleton.mp he])
      · exact .inl (Vm.mem_anchors.mpr ⟨.inr hr, honly⟩)
    by_cases hp : vm.gc.phase = .pause
    · -- between cycles marking does nothing
      have hvm' : vm' = { vm with ledger := l, roots := roots } := by
        rcases gcMarkSlot_cases object { vm with ledger := l, roots := roots } with
          ⟨e, hrun', -⟩ | ⟨id, o, -, -, ⟨hrun', -⟩ | ⟨-, hp', -⟩⟩
        · rw [hrun'] at hmark
          exact absurd (congrArg Prod.fst hmark) (by simp)
        · rw [hrun'] at hmark
          exact (congrArg Prod.snd hmark).symm
        · exact absurd hp hp'
      rw [hvm']
      refine ⟨htidy, fun r hr => ?_⟩
      rcases hanchors r hr with hr | rfl
      · exact (h.shield r hr).of_sameHandles hsame rfl
      · exact ⟨⟨o, hres⟩, .inl hp⟩
    · obtain ⟨htidy', id', o', hid', hres', hm, hnonwhite⟩ := htidy.of_mark hp hmark
      refine ⟨htidy', fun r hr => ?_⟩
      rw [hm.anchors] at hr
      rcases hanchors r hr with hr | rfl
      · exact ((h.shield r hr).of_sameHandles hsame rfl).of_marked hm
      · refine ⟨⟨o', by rw [hm.checkedSlot]; exact hres'⟩, .inr (.inl fun id hid => ?_)⟩
        obtain rfl : id' = id := by simpa [hid'] using hid
        exact hnonwhite

end RootTable

/-! ### The life of a queued finalizer -/

section Finalizers

variable {vm vm' : Vm} {guard : Anchoring} {object : ObjectRef}

/-- What the finalizer operations find in the slot of their object. -/
theorem Vm.finalizerSlot_eq_ok {index : Nat} {o : OccupiedSlot}
    (h : vm.finalizerSlot object = .ok (index, o)) :
    ∃ id, object.identity = some id ∧ id.slot = index ∧ vm.occupied? index = some o := by
  unfold Vm.finalizerSlot at h
  cases hid : object.identity with
  | none => simp [hid] at h
  | some id =>
    simp only [hid] at h
    cases hocc : vm.occupied? id.slot with
    | none => simp [hocc] at h
    | some o' =>
      simp only [hocc, Except.ok.injEq, Prod.mk.injEq] at h
      obtain ⟨rfl, rfl⟩ := h
      exact ⟨id, rfl, rfl, hocc⟩

theorem startFinalizer_cases (object : ObjectRef) (vm : Vm) :
    (∃ e, startFinalizer object vm = (.error e, vm)) ∨
    ∃ index o, vm.finalizerSlot object = .ok (index, o) ∧ vm.finalizerRunning = false ∧
      vm.nextFinalizer = some object ∧ o.finalizer = .pending ∧
      startFinalizer object vm = (.ok (),
        { vm.setOccupied index { o with finalizer := .running } with finalizerRunning := true }) := by
  unfold startFinalizer
  rw [Prog.bind_apply_ok (Prog.get_apply vm)]
  by_cases hc : vm.finalizerRunning = true ∨ vm.nextFinalizer ≠ some object
  · rw [if_pos hc]
    exact .inl ⟨_, rfl⟩
  · rw [if_neg hc]
    rw [not_or, not_not, Bool.not_eq_true] at hc
    cases hslot : vm.finalizerSlot object with
    | error e => exact .inl ⟨e, rfl⟩
    | ok part =>
      obtain ⟨index, o⟩ := part
      rw [Prog.bind_apply_ok (show Prog.ofExcept (.ok (index, o)) vm = (.ok (index, o), vm) from rfl)]
      dsimp only
      by_cases hp : o.finalizer ≠ .pending
      · rw [if_pos hp]
        exact .inl ⟨_, rfl⟩
      · rw [if_neg hp]
        exact .inr ⟨index, o, rfl, hc.1, hc.2, not_not.mp hp, rfl⟩

theorem pauseFinalizerStart_cases (object : ObjectRef) (vm : Vm) :
    (∃ e, pauseFinalizerStart object vm = (.error e, vm)) ∨
    ∃ index o, vm.finalizerSlot object = .ok (index, o) ∧ o.finalizer = .running ∧
      pauseFinalizerStart object vm = (.ok (),
        { vm.setOccupied index { o with finalizer := .pending } with finalizerRunning := false }) := by
  unfold pauseFinalizerStart
  rw [Prog.bind_apply_ok (Prog.get_apply vm)]
  cases hslot : vm.finalizerSlot object with
  | error e => exact .inl ⟨e, rfl⟩
  | ok part =>
    obtain ⟨index, o⟩ := part
    rw [Prog.bind_apply_ok (show Prog.ofExcept (.ok (index, o)) vm = (.ok (index, o), vm) from rfl)]
    dsimp only
    by_cases hp : o.finalizer ≠ .running
    · rw [if_pos hp]
      exact .inl ⟨_, rfl⟩
    · rw [if_neg hp]
      exact .inr ⟨index, o, rfl, not_not.mp hp, rfl⟩

theorem finishFinalizer_cases (object : ObjectRef) (vm : Vm) :
    (∃ e, finishFinalizer object vm = (.error e, vm)) ∨
    ∃ index o, vm.finalizerSlot object = .ok (index, o) ∧ vm.finalizerRunning = true ∧
      vm.nextFinalizer = some object ∧ o.finalizer = .running ∧
      finishFinalizer object vm = (.ok (),
        { vm.setOccupied index o.finished with
          finalizerQueue := vm.finalizerQueue.dropLast
          finalizerRunning := false }) := by
  unfold finishFinalizer
  rw [Prog.bind_apply_ok (Prog.get_apply vm)]
  by_cases hc : vm.finalizerRunning = false ∨ vm.nextFinalizer ≠ some object
  · rw [if_pos hc]
    exact .inl ⟨_, rfl⟩
  · rw [if_neg hc]
    rw [not_or, not_not, Bool.not_eq_false] at hc
    cases hslot : vm.finalizerSlot object with
    | error e => exact .inl ⟨e, rfl⟩
    | ok part =>
      obtain ⟨index, o⟩ := part
      rw [Prog.bind_apply_ok (show Prog.ofExcept (.ok (index, o)) vm = (.ok (index, o), vm) from rfl)]
      dsimp only
      by_cases hp : o.finalizer ≠ .running
      · rw [if_pos hp]
        exact .inl ⟨_, rfl⟩
      · rw [if_neg hp]
        exact .inr ⟨index, o, rfl, hc.1, hc.2, not_not.mp hp, rfl⟩

theorem queueShutdownFinalizers_cases (vm : Vm) :
    (∃ e l, queueShutdownFinalizers vm = (.error e, { vm with ledger := l })) ∨
    (∃ l, vm.executionRunning = false ∧ vm.finalizerRunning = false ∧
      queueShutdownFinalizers vm = (.ok (), { vm with
        ledger := l
        shutdownClosing := true
        slots := vm.slots.map Vm.shutdownSlot
        finalizerQueue := sortQueue (vm.finalizerQueue ++ vm.slots.filterMap Vm.shutdownEntry) })) := by
  unfold queueShutdownFinalizers
  rw [Prog.bind_apply_ok (Prog.get_apply vm)]
  by_cases hc : vm.executionRunning = true ∨ vm.finalizerRunning = true
  · rw [if_pos hc]
    exact .inl ⟨_, vm.ledger, rfl⟩
  · rw [if_neg hc]
    rw [not_or, Bool.not_eq_true, Bool.not_eq_true] at hc
    by_cases hne : vm.slots.filterMap Vm.shutdownEntry ≠ []
    · unfold Prog.when
      simp only [if_pos hne]
      rcases hres : liftLedger (reserveVec (vm.slots.filterMap Vm.shutdownEntry).length
        finalizerEntrySize .workReserve) vm with ⟨r, vm₁⟩
      obtain ⟨l, hl⟩ := liftLedger_eq (reserveVec (vm.slots.filterMap Vm.shutdownEntry).length
        finalizerEntrySize .workReserve) vm
      rw [hres] at hl
      obtain rfl : vm₁ = { vm with ledger := l } := hl
      cases r with
      | error e => exact .inl ⟨e, l, Prog.bind_apply_error hres⟩
      | ok u => exact .inr ⟨l, hc.1, hc.2, (Prog.bind_apply_ok hres).trans rfl⟩
    · unfold Prog.when
      simp only [if_neg hne]
      exact .inr ⟨vm.ledger, hc.1, hc.2, rfl⟩

/-- A change of the finalizer fields of one object; the queue gets no new object. -/
theorem Vm.Guarded.setFinalizer (h : vm.Guarded guard []) {index : Nat} {o : OccupiedSlot}
    (ho : vm.occupied? index = some o) (o' : OccupiedSlot)
    (hgen : o'.generation = o.generation) (href : o'.reference = o.reference)
    {queue : List FinalizerEntry} (hqueue : ∀ e ∈ queue, e ∈ vm.finalizerQueue) (running : Bool) :
    Vm.Guarded guard [] { vm.setOccupied index o' with
      finalizerQueue := queue
      finalizerRunning := running } := by
  have hs := SameHandles.setOccupied ho hgen href
  refine h.of_sameHandles ⟨hs.id, hs.handles, hs.scanEnd, hs.token⟩ rfl fun r hr => ?_
  obtain ⟨hr, honly⟩ := Vm.mem_anchors.mp hr
  refine Vm.mem_anchors.mpr ⟨hr.imp_right fun ⟨hq, e, he, heq⟩ => ⟨hq, e, hqueue e he, heq⟩, honly⟩

theorem keeps_guarded_startFinalizer (object : ObjectRef) :
    Keeps (Vm.Guarded guard []) (startFinalizer object) := by
  refine Keeps.of_apply fun vm h => ?_
  rcases startFinalizer_cases object vm with ⟨e, hrun⟩ | ⟨index, o, hslot, -, -, -, hrun⟩
  · rw [hrun]
    exact h
  · rw [hrun]
    obtain ⟨id, -, -, hocc⟩ := Vm.finalizerSlot_eq_ok hslot
    exact h.setFinalizer hocc { o with finalizer := .running } rfl rfl (fun _ he => he) true

theorem keeps_guarded_pauseFinalizerStart (object : ObjectRef) :
    Keeps (Vm.Guarded guard []) (pauseFinalizerStart object) := by
  refine Keeps.of_apply fun vm h => ?_
  rcases pauseFinalizerStart_cases object vm with ⟨e, hrun⟩ | ⟨index, o, hslot, -, hrun⟩
  · rw [hrun]
    exact h
  · rw [hrun]
    obtain ⟨id, -, -, hocc⟩ := Vm.finalizerSlot_eq_ok hslot
    exact h.setFinalizer hocc { o with finalizer := .pending } rfl rfl (fun _ he => he) false

theorem keeps_guarded_finishFinalizer (object : ObjectRef) :
    Keeps (Vm.Guarded guard []) (finishFinalizer object) := by
  refine Keeps.of_apply fun vm h => ?_
  rcases finishFinalizer_cases object vm with ⟨e, hrun⟩ | ⟨index, o, hslot, -, -, -, hrun⟩
  · rw [hrun]
    exact h
  · rw [hrun]
    obtain ⟨id, -, -, hocc⟩ := Vm.finalizerSlot_eq_ok hslot
    exact h.setFinalizer hocc o.finished rfl rfl (fun _ he => List.dropLast_subset _ he) false

theorem Vm.shutdownSlot_handle (s : Slot) : (Vm.shutdownSlot s).handle = s.handle := by
  unfold Vm.shutdownSlot
  split
  · split <;> rfl
  · rfl

/-- **Queueing every registered object** keeps the shields if the objects it queues are not white
    now, or queued objects are no anchors. -/
theorem queueShutdownFinalizers_guarded (h : vm.Guarded guard [])
    (hwhite : guard.queue = true → vm.gc.phase ≠ .pause → ∀ i o, vm.occupied? i = some o →
      o.finalizer = .registered → guard.only o.reference = true → vm.gc.color i ≠ some .white) :
    ((queueShutdownFinalizers vm).2).Guarded guard [] := by
  rcases queueShutdownFinalizers_cases vm with ⟨e, l, hrun⟩ | ⟨l, -, -, hrun⟩
  · rw [hrun]
    exact h.ledger l
  · rw [hrun]
    have hs := SameHandles.map Vm.shutdownSlot_handle vm
    have hs' : SameHandles vm { vm with
        ledger := l
        shutdownClosing := true
        slots := vm.slots.map Vm.shutdownSlot
        finalizerQueue := sortQueue (vm.finalizerQueue ++ vm.slots.filterMap Vm.shutdownEntry) } :=
      ⟨hs.id, hs.handles, hs.scanEnd, hs.token⟩
    refine ⟨hs'.tidy rfl h.tidy, fun r hr => ?_⟩
    obtain ⟨hr, honly⟩ := Vm.mem_anchors.mp hr
    rcases hr with hr | ⟨hq, e, he, rfl⟩
    · exact (h.shield r (Vm.mem_anchors.mpr ⟨.inl hr, honly⟩)).of_sameHandles hs' rfl
    · rcases List.mem_append.mp (mem_sortQueue.mp he) with he | he
      · exact (h.shield _ (Vm.mem_anchors.mpr ⟨.inr ⟨hq, e, he, rfl⟩, honly⟩)).of_sameHandles hs' rfl
      · -- a newly queued object is the one in its slot
        obtain ⟨s, hs, hentry⟩ := List.mem_filterMap.mp he
        obtain ⟨i, hi⟩ := List.mem_iff_getElem?.mp hs
        cases s with
        | free g => exact absurd hentry (by simp [Vm.shutdownEntry])
        | retired => exact absurd hentry (by simp [Vm.shutdownEntry])
        | occupied o =>
          simp only [Vm.shutdownEntry] at hentry
          split at hentry
          · rename_i hreg
            rw [Option.some.injEq] at hentry
            subst hentry
            have hocc : vm.occupied? i = some o := Vm.occupied?_eq_some.mpr hi
            refine Vm.Shields.of_sameHandles ⟨⟨o, h.tidy.checkedSlot_reference hocc⟩, ?_⟩ hs' rfl
            by_cases hp : vm.gc.phase = .pause
            · exact .inl hp
            · refine .inr (.inl fun id hid => ?_)
              rw [h.tidy.identity hocc, Option.some.injEq] at hid
              subst hid
              exact hwhite hq hp i o hocc hreg honly
          · exact absurd hentry (by simp)

/-- Changing the mode happens between cycles. -/
theorem setGcMode_cases (mode : GcMode) (vm : Vm) :
    (∃ r, setGcMode mode vm = (r, vm)) ∨
    (vm.gc.phase = .pause ∧ setGcMode mode vm = (.ok (), { vm with
      gc := { vm.gc.clearRemembered with mode := mode, cycle := .full }
      slots := vm.slots.map fun
        | .occupied o => .occupied o.rejuvenated
        | slot => slot })) := by
  unfold setGcMode
  rw [Prog.bind_apply_ok (Prog.get_apply vm)]
  by_cases hp : vm.gc.phase ≠ .pause
  · rw [if_pos hp]
    exact .inl ⟨_, rfl⟩
  · rw [if_neg hp]
    by_cases hm : vm.gc.mode = mode
    · rw [if_pos hm]
      exact .inl ⟨_, rfl⟩
    · rw [if_neg hm]
      exact .inr ⟨not_not.mp hp, rfl⟩

theorem keeps_guarded_setGcMode (mode : GcMode) : Keeps (Vm.Guarded guard []) (setGcMode mode) := by
  refine Keeps.of_apply fun vm h => ?_
  rcases setGcMode_cases mode vm with ⟨r, hrun⟩ | ⟨hp, hrun⟩
  · rw [hrun]
    exact h
  · rw [hrun]
    have hgc : Vm.Guarded guard [] { vm with
        gc := { vm.gc.clearRemembered with mode := mode, cycle := .full } } :=
      h.of_gc_same rfl rfl ⟨rfl, rfl, rfl, rfl⟩ rfl List.nodup_nil ⟨rfl, rfl⟩
    refine hgc.of_sameHandles (SameHandles.map (fun s => ?_) _) rfl fun _ hr => hr
    cases s <;> rfl

end Finalizers

end RivetLua.Runtime
