import RivetLua.Runtime.CloseUpvalues

namespace RivetLua.Runtime

open RivetLua.Core RivetLua.Gc StateProg

/-!
# Runtime — capturing variables, and undoing it

* `Execution.Captures` — entries were added to the list, for new upvalues;
* `addOpen_spec`, `capture_spec` — one variable;
* `rollbackOpenPrefix_spec` — the list is cut back, and what was cut off resolves no more;
* `newClosure_spec` — a closure instruction: it adds entries, or leaves the list as it found it.
-/

section Onward

variable {P : List RootEntry} {s s' : Execution}

/-- The upvalues of a frame in execution outlast other allocations. -/
theorem Execution.Sound.onward (h : s.Sound P) (hrooted : s.frame.Rooted) {vm' : Vm}
    (htracks : vm'.Tracks (P ++ s.frame.openRoots) (P.map RootEntry.id ++ s.frame.rootIds))
    (honward : s.vm.Onward vm') (hcells : ∀ k ∈ s.frame.openRoots, vm'.Cell s.coroutine k.object) :
    Execution.Sound P { s with vm := vm' } ∧ s.Follows { s with vm := vm' } := by
  refine ⟨?_, .of_onward honward rfl rfl rfl⟩
  exact {
    registers := h.registers
    roots := h.roots
    slots := h.slots
    listed := fun e he => by
      obtain ⟨entry, hentry, rfl⟩ := List.mem_map.mp he
      have hlisted := h.listed _ he
      obtain ⟨k, hk, hobject⟩ := hrooted.mem_openRoots hentry
      obtain ⟨o', hres'⟩ := htracks.resolves (List.mem_append_right _ hk)
      rw [hobject] at hres'
      refine ⟨?_, hobject ▸ hcells k hk, hlisted.above, hlisted.below⟩
      show _ = Except.ok (UpvalueState.opened vm'.id _ _)
      rw [honward.id]
      exact @Execution.upvalueState_of_onward s { s with vm := vm' } honward h.tidy rfl _ _
        hlisted.state _ hres'
    tracks := htracks
    parent := h.parent
    apart := h.apart }

/-- The objects of the open roots are cells. -/
theorem Execution.Sound.cells (h : s.Sound P) :
    ∀ k ∈ s.frame.openRoots, s.vm.Cell s.coroutine k.object := by
  intro k hk
  obtain ⟨e, he, -, hobject⟩ := CallFrame.mem_openRoots hk
  rw [← hobject]
  exact (h.listed_of_mem he).cell

/-- **An allocation in a frame in execution.** -/
theorem AllocationSite.allocate_spec (site : AllocationSite) (payload : HeapPayload) (h : s.Sound P)
    (hrooted : s.frame.Rooted) :
    ∃ r vm', site.allocate payload s = (r, { s with vm := vm' })
      ∧ Execution.Sound P { s with vm := vm' } ∧ s.Follows { s with vm := vm' }
      ∧ ∀ object, r = .ok object → s.vm.Allocates s.coroutine payload object vm' := by
  obtain ⟨r, vm', hrun, htracks, honward, hcells, hallocates⟩ := h.tracks.allocate h.parent h.cells
    payload site.chargesFull site.collects site.collection
  obtain ⟨hsound, hfollows⟩ := h.onward hrooted htracks honward hcells
  cases r with
  | ok object =>
    refine ⟨.ok object, vm', onHeap_ok hrun, hsound, hfollows, fun object' heq => ?_⟩
    rw [← Except.ok.inj heq]
    exact hallocates object rfl
  | error e => exact ⟨.error (.heap e), vm', onHeap_error hrun, hsound, hfollows, nofun⟩

/-- **A new object is taken back**; what the frame holds is older. -/
theorem reclaim_spec_frame (h : s.Sound P) (hrooted : s.frame.Rooted) {object : ObjectRef}
    (hres : ∃ o, s.vm.checkedSlot object = .ok o)
    (hne : ∀ k ∈ P ++ s.frame.openRoots, k.object ≠ object) :
    ∃ r vm', onHeap (reclaimUnpublishedObject object) s = (r, { s with vm := vm' })
      ∧ Execution.Sound P { s with vm := vm' } ∧ s.Follows { s with vm := vm' }
      ∧ (object ∉ s.vm.gc.remembered → r = .ok ()) := by
  obtain ⟨o, hres⟩ := hres
  rcases h.tracks.reclaimUnpublished_cases hres hne with
    ⟨vm', hrun, htracks, hshrinks, -⟩ | ⟨e, l, hrun⟩
  · obtain ⟨hsound, hfollows⟩ := h.onward hrooted htracks hshrinks.descends.onward
      fun k hk => (h.cells k hk).of_shrinks hshrinks
    exact ⟨.ok (), vm', onHeap_ok hrun, hsound, hfollows, fun _ => rfl⟩
  · refine ⟨_, _, onHeap_error hrun, h.ledger l, .ledger s l, fun hremembered => ?_⟩
    obtain ⟨vm', hok, -⟩ := h.tracks.reclaimUnpublished hres hremembered hne
    cases hok.symm.trans hrun

end Onward

/-! ### One variable -/

section Capture

variable {P : List RootEntry} {s s' s'' : Execution} {slot : Nat} {object : ObjectRef}

/-- Entries were added for new upvalues; the registers and the other entries are the same. -/
structure Execution.Captures (P : List RootEntry) (s : Execution) (new : List OpenUpvalue)
    (s' : Execution) : Prop where
  sound : s'.Sound P
  rooted : s'.frame.Rooted
  follows : s.Follows s'
  frame : ∃ charge, s'.frame = { s.frame with
    openUpvalues := s.frame.openUpvalues ++ new, openCharge := charge }
  fresh : ∀ e ∈ new, ∃ t, e.object.runtimeToken = some t ∧ s.vm.nextToken ≤ t

theorem Execution.Captures.refl (h : s.Sound P) (hrooted : s.frame.Rooted) : s.Captures P [] s :=
  ⟨h, hrooted, .refl s, ⟨s.frame.openCharge, by rw [List.append_nil]⟩, nofun⟩

theorem Execution.Captures.trans {new new' : List OpenUpvalue} (h : s.Captures P new s')
    (h' : s'.Captures P new' s'') : s.Captures P (new ++ new') s'' where
  sound := h'.sound
  rooted := h'.rooted
  follows := h.follows.trans h'.follows
  frame := by
    obtain ⟨charge, hframe⟩ := h.frame
    obtain ⟨charge', hframe'⟩ := h'.frame
    refine ⟨charge', ?_⟩
    rw [hframe', hframe]
    simp only [List.append_assoc]
  fresh := fun e he => by
    rcases List.mem_append.mp he with he | he
    · exact h.fresh e he
    · obtain ⟨t, ht, hle⟩ := h'.fresh e he
      exact ⟨t, ht, h.follows.token.trans hle⟩

/-- Only the VM changed. -/
theorem Execution.Captures.of_vm {vm' : Vm} (hsound : Execution.Sound P { s with vm := vm' })
    (hrooted : s.frame.Rooted) (hfollows : s.Follows { s with vm := vm' }) :
    s.Captures P [] { s with vm := vm' } :=
  ⟨hsound, hrooted, hfollows, ⟨s.frame.openCharge, by rw [List.append_nil]⟩, nofun⟩

/-- **An entry is added** for an open upvalue of a free slot, or the frame is as it was. -/
theorem addOpen_spec (h : s.Sound P) (hlisted : s.Listed slot object)
    (hslot : ∀ e ∈ s.frame.openUpvalues, e.slot ≠ slot) (hapart : ∀ k ∈ P, k.object ≠ object) :
    (∃ vm' root, s.vm.SameObjects vm'
        ∧ addOpen slot object s = (.ok (), { s with vm := vm', frame := { s.frame with
            openUpvalues := s.frame.openUpvalues ++ [⟨slot, object, some root⟩]
            openCharge := (s.frame.openUpvalues.length + 1) * openUpvalueSize } })
        ∧ Execution.Sound P { s with vm := vm', frame := { s.frame with
            openUpvalues := s.frame.openUpvalues ++ [⟨slot, object, some root⟩]
            openCharge := (s.frame.openUpvalues.length + 1) * openUpvalueSize } })
      ∨ ∃ e vm', s.vm.SameObjects vm' ∧ addOpen slot object s = (.error e, { s with vm := vm' })
        ∧ Execution.Sound P { s with vm := vm' } := by
  have hfailed : ∀ {vm' : Vm}, s.vm.SameObjects vm' →
      vm'.Tracks (P ++ s.frame.openRoots) (P.map RootEntry.id ++ s.frame.rootIds) →
      Execution.Sound P { s with vm := vm' } := fun hsame htracks =>
    h.reroots ⟨hsame, rfl, rfl, rfl⟩ htracks
  unfold addOpen
  rcases h.tracks.addRoot .temporary object with
    ⟨root, vm₁, hadd, htracks₁, hsame₁⟩ | ⟨e, vm₁, hadd, htracks₁, hsame₁⟩
  case inr =>
    exact .inr ⟨_, vm₁, hsame₁, Prog.bind_apply_error (onHeap_error hadd), hfailed hsame₁ htracks₁⟩
  rw [Prog.bind_apply_ok (onHeap_ok hadd), Prog.bind_apply_ok (Prog.get_apply _)]
  by_cases hover : usizeMax < s.frame.openUpvalues.length + 1
  · -- the root stays registered
    simp only [if_pos hover]
    refine .inr ⟨_, vm₁, hsame₁, rfl, hfailed hsame₁ (htracks₁.mono (List.subset_cons_self _ _) ?_)⟩
    exact (List.sublist_cons_self _ _).subperm
  simp only [if_neg hover]
  rcases onHeap_liftLedger (do
      Ledger.request
      reserveVec (s.frame.openUpvalues.length + 1) openUpvalueSize .openUpvaluesReserve)
    { s with vm := vm₁ } with ⟨_, l, hreserve⟩ | ⟨e, l, hreserve⟩
  case inr =>
    -- the new root is removed again
    obtain ⟨object', vm₂, hremove, htracks₂, hsame₂⟩ := (htracks₁.ledger l).removeRoot_of_perm
      (.refl _) (List.subset_cons_self _ _) fun k hk => by
        rcases List.mem_append.mp (CallFrame.kept_ids hk) with hmem | hmem
        · exact List.mem_append_left _ hmem
        · refine List.mem_append_right _ ((CallFrame.rootIds_perm _ .openUpvalues).mem_iff.mpr ?_)
          exact List.mem_append_left _ hmem
    have hsame : s.vm.SameObjects vm₂ := hsame₁.trans ((Vm.SameObjects.ledger vm₁ l).trans hsame₂)
    refine .inr ⟨.heap e, vm₂, hsame, Prog.bind_apply_error ?_, hfailed hsame htracks₂⟩
    exact Prog.onError_apply_error hreserve (Prog.bind_apply_ok (onHeap_ok hremove))
  have hsame : s.vm.SameObjects { vm₁ with ledger := l } :=
    hsame₁.trans (.ledger vm₁ l)
  refine .inl ⟨{ vm₁ with ledger := l }, root, hsame, ?_, ?_⟩
  · refine (Prog.bind_apply_ok (Prog.onError_apply_ok hreserve)).trans ?_
    rfl
  have hentries : CallFrame.entries { s.frame with
      openUpvalues := s.frame.openUpvalues ++ [⟨slot, object, some root⟩]
      openCharge := (s.frame.openUpvalues.length + 1) * openUpvalueSize }
        = s.frame.entries ++ [(slot, object)] := List.map_append
  have hold : Execution.Sound _ { s with vm := { vm₁ with ledger := l } } :=
    h.reroots ⟨hsame, rfl, rfl, rfl⟩ ((htracks₁.ledger l).mono (List.subset_cons_self _ _)
      (List.sublist_cons_self _ _).subperm)
  exact {
    registers := h.registers
    roots := h.roots
    slots := by
      rw [hentries, List.map_append, List.nodup_append]
      refine ⟨h.slots, List.nodup_singleton _, fun i hi j hj heq => ?_⟩
      obtain ⟨entry, hentry, rfl⟩ := List.mem_map.mp hi
      obtain ⟨e, he, rfl⟩ := List.mem_map.mp hentry
      exact hslot e he (heq.trans (List.mem_singleton.mp hj))
    listed := fun e he => by
      rw [hentries] at he
      rcases List.mem_append.mp he with he | he
      · have hlisted' := hold.listed e he
        exact ⟨hlisted'.state, hlisted'.cell, hlisted'.above, hlisted'.below⟩
      · rw [List.mem_singleton.mp he]
        refine ⟨?_, hlisted.cell.of_shrinks hsame.shrinks, hlisted.above, hlisted.below⟩
        refine (@Execution.upvalueState_of_sameObjects s { s with vm := { vm₁ with ledger := l } }
          hsame rfl object).trans (hlisted.state.trans ?_)
        exact congrArg (fun i => Except.ok (UpvalueState.opened i s.coroutine slot)) hsame.id.symm
    tracks := by
      refine (htracks₁.ledger l).mono (fun k hk => ?_) (List.Perm.subperm ?_)
      · rcases List.mem_append.mp hk with hk | hk
        · exact List.mem_cons_of_mem _ (List.mem_append_left _ hk)
        · obtain ⟨e, he, hentry⟩ := List.mem_filterMap.mp hk
          rcases List.mem_append.mp he with he | he
          · exact List.mem_cons_of_mem _ (List.mem_append_right _ (List.mem_filterMap.mpr ⟨e, he, hentry⟩))
          · rw [List.mem_singleton.mp he] at hentry
            obtain rfl := Option.some.inj hentry
            exact List.mem_cons_self
      · have hids := @CallFrame.rootIds_of_append ⟨slot, object, some root⟩ s.frame.openUpvalues []
          { s.frame with
            openUpvalues := s.frame.openUpvalues ++ [⟨slot, object, some root⟩]
            openCharge := (s.frame.openUpvalues.length + 1) * openUpvalueSize } rfl
        refine (hids.append_left _).trans ?_
        simp only [List.append_nil]
        exact List.perm_middle
    parent := h.parent
    apart := fun k hk e he => by
      rw [hentries] at he
      rcases List.mem_append.mp he with he | he
      · exact h.apart k hk e he
      · rw [List.mem_singleton.mp he]
        exact hapart k hk }

/-- A new open upvalue: it is newer than the frame, and open on its slot. -/
theorem allocateUpvalue_spec (site : AllocationSite) (h : s.Sound P) (hrooted : s.frame.Rooted)
    (slot : Nat) :
    (∃ object vm' upvalues, allocateUpvalue site slot s
          = (.ok object, { s with vm := vm', upvalues := upvalues })
        ∧ Execution.Sound P { s with vm := vm', upvalues := upvalues }
        ∧ s.Follows { s with vm := vm', upvalues := upvalues }
        ∧ Execution.upvalueState { s with vm := vm', upvalues := upvalues } object
          = .ok (.opened vm'.id s.coroutine slot)
        ∧ vm'.Cell s.coroutine object
        ∧ ∃ t, object.runtimeToken = some t ∧ s.vm.nextToken ≤ t)
      ∨ ∃ e vm', allocateUpvalue site slot s = (.error e, { s with vm := vm' })
        ∧ Execution.Sound P { s with vm := vm' } ∧ s.Follows { s with vm := vm' } := by
  unfold allocateUpvalue
  rw [Prog.bind_apply_ok (Prog.get_apply s)]
  obtain ⟨r, vm', hrun, hsound, hfollows, hallocates⟩ := AllocationSite.allocate_spec site
    (.node .upvalue s.coroutine.toList) h hrooted
  cases r with
  | error e => exact .inr ⟨e, vm', Prog.bind_apply_error hrun, hsound, hfollows⟩
  | ok object =>
  left
  obtain ⟨⟨t, ht, hle⟩, ⟨o, hres, hnode⟩, hcell⟩ := hallocates object rfl
  obtain ⟨id, hid, -⟩ := Vm.checkedSlot_eq_ok.mp hres
  have hpayload : o.object.payload = .node .upvalue s.coroutine.toList := by
    rw [HeapObject.node?_eq_some hnode]
  have hold : ∀ r u, r ≠ object → (Execution.upvalueState { s with
      vm := vm'
      upvalues := Function.update s.upvalues id.slot (.opened s.vm.id s.coroutine slot) } r = .ok u
        ↔ Execution.upvalueState { s with vm := vm' } r = .ok u) := fun r u hr =>
    @Execution.upvalueState_update { s with vm := vm' } object id o hid hres _ r hr u
  -- what was there is older
  have hne : ∀ {r : ObjectRef} {u : UpvalueState}, s.upvalueState r = .ok u → r ≠ object := by
    rintro r u hu rfl
    obtain ⟨-, o', -, -, hres', -⟩ := Execution.upvalueState_eq_ok.mp hu
    obtain ⟨t', ht', hlt⟩ := h.tidy.token_lt hres'
    obtain rfl : t = t' := by simpa [ht] using ht'
    omega
  refine ⟨object, vm', Function.update s.upvalues id.slot (.opened s.vm.id s.coroutine slot), ?_, ?_,
    ?_, ?_, hcell rfl, t, ht, hle⟩
  · rw [Prog.bind_apply_ok hrun, hid]
    rfl
  · exact {
      registers := h.registers
      roots := h.roots
      slots := h.slots
      listed := fun e he => by
        have hlisted := hsound.listed e he
        exact ⟨(hold e.2 _ (hne (h.listed e he).state)).mpr hlisted.state, hlisted.cell,
          hlisted.above, hlisted.below⟩
      tracks := hsound.tracks
      parent := h.parent
      apart := h.apart }
  · refine ⟨hfollows.id, rfl, rfl, hfollows.token, fun r u' hu' => ?_⟩
    by_cases hr : r = object
    · exact .inr ⟨t, hr ▸ ht, hle⟩
    · exact hfollows.upvalue r u' ((hold r u' hr).mp hu')
  · rw [show vm'.id = s.vm.id from hfollows.id]
    exact Execution.upvalueState_eq_ok.mpr ⟨id, o, s.coroutine.toList, hid, hres, hpayload,
      Function.update_self _ _ _⟩

/-- What the roots in use hold is older than what was allocated since. -/
theorem Execution.Sound.kept_ne (h : s.Sound P) {t : Nat} (ht : object.runtimeToken = some t)
    (hle : s.vm.nextToken ≤ t) : ∀ k ∈ P ++ s.frame.openRoots, k.object ≠ object := by
  rintro k hk rfl
  obtain ⟨o, hres⟩ := h.tracks.resolves hk
  obtain ⟨t', ht', hlt⟩ := h.tidy.token_lt hres
  obtain rfl : t = t' := by simpa [ht] using ht'
  omega

theorem CallFrame.findOpen_eq_some {f : CallFrame} (hfind : f.findOpen slot = some object) :
    ∃ e ∈ f.openUpvalues, e.slot = slot ∧ e.object = object := by
  obtain ⟨e, he, heq⟩ := List.exists_of_findSome?_eq_some hfind
  split at heq
  · exact ⟨e, he, ‹_›, Option.some.inj heq⟩
  · cases heq

theorem CallFrame.findOpen_eq_none {f : CallFrame} (hfind : f.findOpen slot = none) :
    ∀ e ∈ f.openUpvalues, e.slot ≠ slot := by
  intro e he heq
  have hnone := List.findSome?_eq_none_iff.mp hfind e he
  rw [if_pos heq] at hnone
  cases hnone

/-- **A register is captured**: the open upvalue of its slot is shared, and if there is none, one is
    made; a capture that fails leaves the list as it was. -/
theorem capture_register_spec (site : AllocationSite) (register : Nat) (h : s.Sound P)
    (hrooted : s.frame.Rooted) :
    ∃ r s' new, capture site (.parentLocal (some register)) s = (r, s') ∧ s.Captures P new s'
      ∧ (∀ e, r = .error e → new = [])
      ∧ ∀ object, r = .ok object →
        (∃ e ∈ s'.frame.openUpvalues, e.slot = s.frame.stackBase + register ∧ e.object = object)
          ∧ ((∃ e ∈ s.frame.openUpvalues, e.slot = s.frame.stackBase + register) → new = []) := by
  rw [capture, Prog.bind_apply_ok (Prog.get_apply s)]
  unfold CallFrame.index
  by_cases hlimit : s.frame.registerLimit ≤ register
  · rw [if_pos hlimit]
    exact ⟨.error .registerOutOfBounds, s, [], rfl, .refl h hrooted, fun _ _ => rfl, nofun⟩
  rw [if_neg hlimit, Prog.bind_apply_ok (show Prog.ofExcept (.ok register) s = (.ok register, s) from rfl)]
  by_cases hover : usizeMax < s.frame.stackBase + register
  · rw [if_pos hover]
    exact ⟨.error .registerOutOfBounds, s, [], rfl, .refl h hrooted, fun _ _ => rfl, nofun⟩
  rw [if_neg hover]
  cases hfind : s.frame.findOpen (s.frame.stackBase + register) with
  | some existing =>
    refine ⟨.ok existing, s, [], rfl, .refl h hrooted, fun _ _ => rfl, fun object heq => ?_⟩
    rw [← Except.ok.inj heq]
    exact ⟨CallFrame.findOpen_eq_some hfind, fun _ => rfl⟩
  | none =>
  have hfree := CallFrame.findOpen_eq_none hfind
  simp only
  rcases allocateUpvalue_spec site h hrooted (s.frame.stackBase + register) with
    ⟨object, vm₁, upvalues, hallocate, h₁, hfollows₁, hstate, hcell, t, ht, hle⟩
      | ⟨e, vm₁, hallocate, h₁, hfollows₁⟩
  case inr =>
    exact ⟨.error e, _, [], Prog.bind_apply_error hallocate, .of_vm h₁ hrooted hfollows₁,
      fun _ _ => rfl, nofun⟩
  rw [Prog.bind_apply_ok hallocate]
  have hne := h.kept_ne ht hle
  have hlisted : Execution.Listed { s with vm := vm₁, upvalues := upvalues }
      (s.frame.stackBase + register) object :=
    ⟨hstate, hcell, Nat.le_add_right _ _, Nat.add_lt_add_left (Nat.not_le.mp hlimit) _⟩
  rcases addOpen_spec h₁ hlisted hfree fun k hk => hne k (List.mem_append_left _ hk) with
    ⟨vm₂, root, hsame, hadd, h₂⟩ | ⟨e, vm₂, hsame, hadd, h₂⟩
  · -- the new upvalue is listed
    have hfollows₂ : s.Follows { s with
        vm := vm₂
        upvalues := upvalues
        frame := { s.frame with
          openUpvalues := s.frame.openUpvalues ++ [⟨s.frame.stackBase + register, object, some root⟩]
          openCharge := (s.frame.openUpvalues.length + 1) * openUpvalueSize } } :=
      hfollows₁.trans (.of_onward hsame.shrinks.descends.onward rfl rfl rfl)
    refine ⟨.ok object, _, [⟨s.frame.stackBase + register, object, some root⟩],
      (Prog.bind_apply_ok (Prog.onError_apply_ok hadd)).trans rfl,
      ⟨h₂, fun e he => ?_, hfollows₂, ⟨_, rfl⟩, fun e he => ?_⟩, nofun, fun object' heq => ⟨?_, ?_⟩⟩
    · rcases List.mem_append.mp he with he | he
      · exact hrooted e he
      · rw [List.mem_singleton.mp he]
        exact nofun
    · rw [List.mem_singleton.mp he]
      exact ⟨t, ht, hle⟩
    · rw [← Except.ok.inj heq]
      exact ⟨_, List.mem_append_right _ List.mem_cons_self, rfl, rfl⟩
    · rintro ⟨e, he, hslot⟩
      exact absurd hslot (hfree e he)
  · -- it is taken back
    have hremembered : object ∉ vm₂.gc.remembered := (hcell.of_shrinks hsame.shrinks).unremembered
    obtain ⟨-, o, -, -, hres, -⟩ := Execution.upvalueState_eq_ok.mp hstate
    obtain ⟨r, vm₃, hreclaim, h₃, hfollows₃, hok⟩ := @reclaim_spec_frame P
      { s with vm := vm₂, upvalues := upvalues } h₂ hrooted object
      ⟨o, (hsame.checkedSlot object).trans hres⟩ hne
    obtain rfl := hok hremembered
    have hfollows₂ : Execution.Follows { s with vm := vm₁, upvalues := upvalues }
        { s with vm := vm₂, upvalues := upvalues } :=
      .of_onward hsame.shrinks.descends.onward rfl rfl rfl
    refine ⟨.error e, _, [], Prog.bind_apply_error (Prog.onError_apply_error hadd hreclaim),
      ⟨h₃, hrooted, hfollows₁.trans (hfollows₂.trans hfollows₃), ⟨s.frame.openCharge, ?_⟩, nofun⟩,
      fun _ _ => rfl, nofun⟩
    rw [List.append_nil]

/-- **A variable is captured**, of this frame or of the running closure. -/
theorem capture_spec (site : AllocationSite) (source : CaptureSource) (h : s.Sound P)
    (hrooted : s.frame.Rooted) :
    ∃ r s' new, capture site source s = (r, s') ∧ s.Captures P new s'
      ∧ (∀ e, r = .error e → new = []) := by
  cases source with
  | parentUpvalue found =>
    cases found with
    | ok object => exact ⟨.ok object, s, [], rfl, .refl h hrooted, nofun⟩
    | error e => exact ⟨.error e, s, [], rfl, .refl h hrooted, fun _ _ => rfl⟩
  | parentLocal register =>
    cases register with
    | none => exact ⟨.error .registerOutOfBounds, s, [], rfl, .refl h hrooted, fun _ _ => rfl⟩
    | some register =>
      obtain ⟨r, s', new, hrun, hcaptures, herror, -⟩ := capture_register_spec site register h hrooted
      exact ⟨r, s', new, hrun, hcaptures, herror⟩

/-- **The captures of a closure**, up to one that fails. -/
theorem captureAll_spec : ∀ (sources : List (AllocationSite × CaptureSource)) (s : Execution),
    s.Sound P → s.frame.Rooted →
    ∃ r s' new, captureAll sources s = (r, s') ∧ s.Captures P new s'
  | [], s, h, hrooted => ⟨.ok [], s, [], rfl, .refl h hrooted⟩
  | (site, source) :: rest, s, h, hrooted => by
    unfold captureAll
    obtain ⟨r₁, s₁, new₁, hrun₁, hcaptures₁, -⟩ := capture_spec site source h hrooted
    cases r₁ with
    | error e => exact ⟨.error e, s₁, new₁, Prog.bind_apply_error hrun₁, hcaptures₁⟩
    | ok object =>
      obtain ⟨r, s', new, hrun, hcaptures⟩ := captureAll_spec rest s₁ hcaptures₁.sound
        hcaptures₁.rooted
      cases r with
      | error e =>
        exact ⟨.error e, s', new₁ ++ new, (Prog.bind_apply_ok hrun₁).trans (Prog.bind_apply_error hrun),
          hcaptures₁.trans hcaptures⟩
      | ok objects =>
        exact ⟨.ok (object :: objects), s', new₁ ++ new,
          (Prog.bind_apply_ok hrun₁).trans ((Prog.bind_apply_ok hrun).trans rfl),
          hcaptures₁.trans hcaptures⟩

end Capture

/-! ### Undoing captures -/

section Rollback

variable {P K : List RootEntry} {T : List RootId} {s s' : Execution}

/-- The check of an entry changes nothing. -/
theorem keeps_checkEntry (s : Execution) (e : OpenUpvalue) : Keeps (· = s) (checkEntry e) := by
  have hkind : Keeps (· = s) (onHeap (Prog.ofExcept (s.vm.objectKind e.object)) >>= fun kind =>
      if kind ≠ .upvalue then Prog.fail (.heap .wrongObjectType) else pure () : FrameM Unit) := by
    refine Keeps.bind (Keeps.of_apply fun t ht => ?_) fun kind => Keeps.ite (Keeps.fail _) (Keeps.pure ())
    cases s.vm.objectKind e.object <;> exact ht
  refine Keeps.get_bind fun t ht => ?_
  subst ht
  cases e.root with
  | none => exact hkind.apply rfl
  | some root =>
    exact (Keeps.ite (c := t.vm.roots.activeObject root ≠ some e.object) (Keeps.fail _) hkind).apply rfl

/-- **Entries are taken back** one after the other; no other object is touched. -/
theorem dropEntries_spec : ∀ (es : List OpenUpvalue) (s : Execution),
    s.vm.Tracks (K ++ es.filterMap OpenUpvalue.entry?) ((es.map OpenUpvalue.root).reduceOption ++ T) →
    (∀ k ∈ K, k.id ∈ T) → (es.map OpenUpvalue.object).Nodup →
    (∀ k ∈ K, ∀ e ∈ es, k.object ≠ e.object) →
    (∀ e ∈ es, (∃ o, s.vm.checkedSlot e.object = .ok o) ∧ e.object ∉ s.vm.gc.remembered) →
    ∃ vm', es.forM dropEntry s = (.ok (), { s with vm := vm' }) ∧ vm'.Tracks K T ∧ s.vm.Shrinks vm'
      ∧ (∀ e ∈ es, ∀ o, vm'.checkedSlot e.object ≠ .ok o)
      ∧ ∀ r, (∀ e ∈ es, e.object ≠ r) → ∀ o, vm'.checkedSlot r = .ok o ↔ s.vm.checkedSlot r = .ok o
  | [], s, h, _, _, _, _ => by
    rw [List.filterMap_nil, List.append_nil] at h
    exact ⟨s.vm, rfl, h, .refl _, nofun, fun _ _ _ => .rfl⟩
  | e :: es, s, h, hids, hnodup, hne, hcells => by
    obtain ⟨hnot, hnodup'⟩ := List.nodup_cons.mp hnodup
    obtain ⟨⟨o, hres⟩, hremembered⟩ := hcells e List.mem_cons_self
    -- the root goes first
    have hentries : K ++ es.filterMap OpenUpvalue.entry? ⊆ K ++ (e :: es).filterMap OpenUpvalue.entry? := by
      intro k hk
      rcases List.mem_append.mp hk with hk | hk
      · exact List.mem_append_left _ hk
      · exact List.mem_append_right _ (((List.sublist_cons_self e es).filterMap _).subset hk)
    have hkept : ∀ k ∈ K ++ es.filterMap OpenUpvalue.entry?,
        k.id ∈ (es.map OpenUpvalue.root).reduceOption ++ T := by
      intro k hk
      rcases List.mem_append.mp hk with hk | hk
      · exact List.mem_append_right _ (hids k hk)
      · refine List.mem_append_left _ ?_
        have hroots := CallFrame.openRoots_ids { s.frame with openUpvalues := es }
        exact hroots ▸ List.mem_map_of_mem hk
    have hslots : ((e :: es).map OpenUpvalue.root).reduceOption ++ T
        = e.root.toList ++ ((es.map OpenUpvalue.root).reduceOption ++ T) := by
      rw [List.map_cons]
      cases e.root <;> rfl
    rw [hslots] at h
    obtain ⟨vm₁, hrelease, htracks₁, hsame₁⟩ := releaseRoot_spec h hentries hkept
    have hobjects : ∀ k ∈ K ++ es.filterMap OpenUpvalue.entry?, k.object ≠ e.object := by
      intro k hk
      rcases List.mem_append.mp hk with hk | hk
      · exact hne k hk e List.mem_cons_self
      · obtain ⟨e', he', -, hobject⟩ := @CallFrame.mem_openRoots { s.frame with openUpvalues := es } k hk
        rintro heq
        exact hnot (heq ▸ hobject ▸ List.mem_map_of_mem he')
    obtain ⟨vm₂, hreclaim, htracks₂, hshrinks₂, hstale, hothers⟩ := htracks₁.reclaimUnpublished
      ((hsame₁.checkedSlot e.object).trans hres) (fun hmem => hremembered (hsame₁.remembered ▸ hmem))
      hobjects
    -- the others resolve as before
    have hsame₂ : ∀ r, e.object ≠ r → ∀ o, vm₂.checkedSlot r = .ok o ↔ s.vm.checkedSlot r = .ok o := by
      intro r hr o
      rw [hothers r hr.symm, hsame₁.checkedSlot r]
    have hne' : ∀ e' ∈ es, e.object ≠ e'.object := fun e' he' heq =>
      hnot (heq ▸ List.mem_map_of_mem he')
    obtain ⟨vm', hrun, htracks, hshrinks, hgone, hrest⟩ := dropEntries_spec es { s with vm := vm₂ } htracks₂
      hids hnodup' (fun k hk e' he' => hne k hk e' (List.mem_cons_of_mem _ he')) fun e' he' => by
        obtain ⟨⟨o', hres'⟩, hremembered'⟩ := hcells e' (List.mem_cons_of_mem _ he')
        refine ⟨⟨o', (hsame₂ e'.object (hne' e' he') o').mpr hres'⟩, fun hmem => hremembered' ?_⟩
        exact hsame₁.remembered ▸ hshrinks₂.remembered _ hmem
    refine ⟨vm', ?_, htracks, hsame₁.shrinks.trans (hshrinks₂.trans hshrinks), fun e' he' o' => ?_,
      fun r hr o' => ?_⟩
    · refine (@Prog.bind_apply_ok _ _ _ _ _ _ _ { s with vm := vm₂ } () ?_).trans hrun
      exact (Prog.bind_apply_ok hrelease).trans (onHeap_ok hreclaim)
    · rcases List.mem_cons.mp he' with rfl | he'
      · exact fun ho => hstale o' ((hrest e'.object (fun e'' he'' heq => hne' e'' he'' heq.symm) o').mp ho)
      · exact hgone e' he' o'
    · rw [hrest r fun e' he' => hr e' (List.mem_cons_of_mem _ he')]
      exact hsame₂ r (hr e List.mem_cons_self) o'

/-- Only the ledger is different. -/
def Execution.Bills (s t : Execution) : Prop := ∃ l, t = { s with vm := { s.vm with ledger := l } }

theorem Execution.Bills.refl (s : Execution) : s.Bills s := ⟨s.vm.ledger, rfl⟩

theorem keeps_bills_onHeap {α : Type} (s : Execution) (m : LedgerM α) :
    Keeps s.Bills (onHeap (liftLedger m)) := by
  refine Keeps.of_apply fun t ht => ?_
  obtain ⟨l, rfl⟩ := ht
  rcases onHeap_liftLedger m { s with vm := { s.vm with ledger := l } } with
    ⟨a, l', hrun⟩ | ⟨e, l', hrun⟩
  all_goals
    rw [hrun]
    exact ⟨l', rfl⟩

theorem keeps_bills_prepareNormalize (s : Execution) (bytes : Nat) :
    Keeps s.Bills (prepareNormalize bytes) :=
  Keeps.bind Keeps.get fun _ => Keeps.ite (Keeps.fail _)
    (Keeps.ite (Keeps.pure ()) (keeps_bills_onHeap s _))

theorem keeps_bills_checkEntries (s : Execution) (es : List OpenUpvalue) :
    Keeps s.Bills (es.forM checkEntry) := by
  refine Keeps.forM (fun e => Keeps.of_apply fun t ht => ?_) es
  rw [(keeps_checkEntry t e).apply rfl]
  exact ht

/-- The list was cut back to a prefix. -/
structure Execution.RollsBack (P : List RootEntry) (s : Execution) (original : Nat)
    (s' : Execution) : Prop where
  length : original ≤ s.frame.openUpvalues.length
  sound : s'.Sound P
  follows : s.Follows s'
  frame : ∃ charge, s'.frame = { s.frame with
    openUpvalues := s.frame.openUpvalues.take original, openCharge := charge }
  dropped : ∀ e ∈ s.frame.openUpvalues.drop original, ∀ u, s'.upvalueState e.object ≠ .ok u
  others : ∀ r, (∀ e ∈ s.frame.openUpvalues.drop original, e.object ≠ r) →
    ∀ u, s'.upvalueState r = .ok u ↔ s.upvalueState r = .ok u

/-- An upvalue that resolves as before has the state of before. -/
theorem Execution.upvalueState_congr {r : ObjectRef} (hupvalues : s'.upvalues = s.upvalues)
    (hres : ∀ o, s'.vm.checkedSlot r = .ok o ↔ s.vm.checkedSlot r = .ok o) (u : UpvalueState) :
    s'.upvalueState r = .ok u ↔ s.upvalueState r = .ok u := by
  rw [Execution.upvalueState_eq_ok, Execution.upvalueState_eq_ok, hupvalues]
  simp only [hres]

/-- The entries have different upvalues. -/
theorem Execution.Sound.nodup_objects (h : s.Sound P) :
    (s.frame.openUpvalues.map OpenUpvalue.object).Nodup := by
  have hslots := h.slots
  unfold CallFrame.entries at hslots
  rw [List.map_map] at hslots
  refine (List.Nodup.of_map _ hslots).map_on fun e he e' he' heq => ?_
  exact h.entry_eq he he' ((h.slot_iff he he').mpr heq)

/-- The roots of a prefix of the list, and those of the rest. -/
theorem CallFrame.rootIds_take (f : CallFrame) (original : Nat) :
    f.rootIds.Perm (((f.openUpvalues.drop original).map OpenUpvalue.root).reduceOption
      ++ CallFrame.rootIds { f with openUpvalues := f.openUpvalues.take original }) := by
  have hwhole := f.rootIds_perm .openUpvalues
  have hfront := CallFrame.rootIds_perm { f with openUpvalues := f.openUpvalues.take original }
    .openUpvalues
  refine hwhole.trans (.trans ?_ (hfront.symm.append_left _))
  have hothers : f.otherIds .openUpvalues
      = CallFrame.otherIds { f with openUpvalues := f.openUpvalues.take original } .openUpvalues := rfl
  rw [← hothers, ← List.append_assoc]
  refine List.Perm.append_right _ ?_
  have hsplit : (f.rootsOf .openUpvalues).reduceOption
      = ((f.openUpvalues.take original).map OpenUpvalue.root).reduceOption
        ++ ((f.openUpvalues.drop original).map OpenUpvalue.root).reduceOption := by
    rw [← List.reduceOption_append, ← List.map_append, List.take_append_drop]
    rfl
  rw [hsplit]
  exact List.perm_append_comm

/-- The last part of a rollback cannot fail. -/
theorem dropEntries_rollsBack {original : Nat} (h : s.Sound P)
    (hlength : original ≤ s.frame.openUpvalues.length) :
    ∃ vm', (s.frame.openUpvalues.drop original).reverse.forM dropEntry s = (.ok (), { s with vm := vm' })
      ∧ ∀ charge, s.RollsBack P original { s with vm := vm', frame := { s.frame with
        openUpvalues := s.frame.openUpvalues.take original, openCharge := charge } } := by
  have htake : ∀ e ∈ s.frame.openUpvalues.take original, e ∈ s.frame.openUpvalues :=
    fun e he => List.mem_of_mem_take he
  have hdrop : ∀ e ∈ (s.frame.openUpvalues.drop original).reverse, e ∈ s.frame.openUpvalues :=
    fun e he => List.mem_of_mem_drop (List.mem_reverse.mp he)
  -- the prefix and the rest have different upvalues
  have hobjects := h.nodup_objects
  rw [← List.take_append_drop original s.frame.openUpvalues, List.map_append, List.nodup_append]
    at hobjects
  obtain ⟨-, hnodup, hdisjoint⟩ := hobjects
  have hapart : ∀ e ∈ s.frame.openUpvalues.take original,
      ∀ e' ∈ (s.frame.openUpvalues.drop original).reverse, e.object ≠ e'.object := fun e he e' he' =>
    hdisjoint _ (List.mem_map_of_mem he) _ (List.mem_map_of_mem (List.mem_reverse.mp he'))
  have htracks : s.vm.Tracks
      (P ++ CallFrame.openRoots { s.frame with openUpvalues := s.frame.openUpvalues.take original }
        ++ (s.frame.openUpvalues.drop original).reverse.filterMap OpenUpvalue.entry?)
      (((s.frame.openUpvalues.drop original).reverse.map OpenUpvalue.root).reduceOption
        ++ (P.map RootEntry.id ++ CallFrame.rootIds
          { s.frame with openUpvalues := s.frame.openUpvalues.take original })) := by
    refine h.tracks.mono (fun k hk => ?_) (List.Perm.subperm ?_)
    · rcases List.mem_append.mp hk with hk | hk
      · rcases List.mem_append.mp hk with hk | hk
        · exact List.mem_append_left _ hk
        · obtain ⟨e, he, hentry⟩ := List.mem_filterMap.mp hk
          exact List.mem_append_right _ (List.mem_filterMap.mpr ⟨e, htake e he, hentry⟩)
      · obtain ⟨e, he, hentry⟩ := List.mem_filterMap.mp hk
        exact List.mem_append_right _ (List.mem_filterMap.mpr ⟨e, hdrop e he, hentry⟩)
    · refine (List.perm_append_comm_assoc _ _ _).trans (List.Perm.append_left _ ?_)
      refine .trans (List.Perm.append_right _ ?_) (s.frame.rootIds_take original).symm
      exact ((List.reverse_perm _).map _).filterMap _
  have hids : ∀ k ∈ P ++ CallFrame.openRoots
        { s.frame with openUpvalues := s.frame.openUpvalues.take original },
      k.id ∈ P.map RootEntry.id ++ CallFrame.rootIds
        { s.frame with openUpvalues := s.frame.openUpvalues.take original } := by
    intro k hk
    rcases List.mem_append.mp (CallFrame.kept_ids hk) with hmem | hmem
    · exact List.mem_append_left _ hmem
    · refine List.mem_append_right _ ((CallFrame.rootIds_perm _ .openUpvalues).mem_iff.mpr ?_)
      exact List.mem_append_left _ hmem
  obtain ⟨vm', hrun, htracks', hshrinks, hgone, hothers⟩ := dropEntries_spec _ s htracks hids
    (((List.reverse_perm _).map OpenUpvalue.object).nodup_iff.mpr hnodup) (fun k hk e he => by
      rcases List.mem_append.mp hk with hk | hk
      · exact h.apart k hk _ (List.mem_map_of_mem (hdrop e he))
      · obtain ⟨e', he', -, hobject⟩ := CallFrame.mem_openRoots hk
        exact hobject ▸ hapart e' he' e he) fun e he => by
      have hlisted := h.listed_of_mem (hdrop e he)
      obtain ⟨-, o, -, -, hres, -⟩ := Execution.upvalueState_eq_ok.mp hlisted.state
      exact ⟨⟨o, hres⟩, hlisted.cell.unremembered⟩
  refine ⟨vm', hrun, fun charge => ?_⟩
  have hstates : ∀ r, (∀ e ∈ s.frame.openUpvalues.drop original, e.object ≠ r) → ∀ u,
      Execution.upvalueState { s with vm := vm' } r = .ok u ↔ s.upvalueState r = .ok u := fun r hr u =>
    @Execution.upvalueState_congr s { s with vm := vm' } r rfl
      (hothers r fun e he => hr e (List.mem_reverse.mp he)) u
  exact {
    length := hlength
    sound := {
      registers := h.registers
      roots := h.roots
      slots := h.slots.sublist (((List.take_sublist _ _).map _).map _)
      listed := fun e he => by
        obtain ⟨entry, hentry, rfl⟩ := List.mem_map.mp he
        have hlisted := h.listed_of_mem (htake entry hentry)
        refine ⟨?_, hlisted.cell.of_shrinks hshrinks, hlisted.above, hlisted.below⟩
        show _ = Except.ok (UpvalueState.opened vm'.id _ _)
        rw [hshrinks.id]
        refine (hstates entry.object (fun e' he' => ?_) _).mpr hlisted.state
        exact (hapart entry hentry e' (List.mem_reverse.mpr he')).symm
      tracks := htracks'
      parent := h.parent
      apart := fun k hk e he => by
        obtain ⟨entry, hentry, rfl⟩ := List.mem_map.mp he
        exact h.apart k hk _ (List.mem_map_of_mem (htake entry hentry)) }
    follows := .of_onward hshrinks.descends.onward rfl rfl rfl
    frame := ⟨charge, rfl⟩
    dropped := fun e he u hu => by
      obtain ⟨-, o, -, -, hres, -⟩ := Execution.upvalueState_eq_ok.mp hu
      exact hgone e (List.mem_reverse.mpr he) o hres
    others := hstates }

/-- **Undoing captures** cuts the list back to what it was; if it fails, nothing has changed. -/
theorem rollbackOpenPrefix_spec (h : s.Sound P) (original : Nat) :
    (∃ s', rollbackOpenPrefix original s = (.ok (), s') ∧ s.RollsBack P original s')
      ∨ ∃ e l, rollbackOpenPrefix original s
          = (.error e, { s with vm := { s.vm with ledger := l } }) := by
  have htriple : Triple s.Bills (rollbackOpenPrefix original) (fun _ s' => s.RollsBack P original s')
      (fun _ t => s.Bills t) := by
    intro t ht
    obtain ⟨l, rfl⟩ := ht
    unfold rollbackOpenPrefix
    rw [Prog.bind_apply_ok (Prog.get_apply _)]
    by_cases hlength : s.frame.openUpvalues.length < original
    · rw [if_pos hlength]
      exact ⟨l, rfl⟩
    rw [if_neg hlength]
    refine Triple.bind (P := s.Bills) (keeps_bills_onHeap s _) (fun bytes => ?_) _ ⟨l, rfl⟩
    refine Triple.bind (Keeps.when (keeps_bills_onHeap s _)) fun _ =>
      Triple.bind (keeps_bills_prepareNormalize s bytes) fun _ =>
        Triple.bind (keeps_bills_checkEntries s _) fun _ => ?_
    rintro t ⟨l', rfl⟩
    obtain ⟨vm', hdrop, hback⟩ := dropEntries_rollsBack (h.ledger l') (Nat.not_lt.mp hlength)
    rw [Prog.bind_apply_ok hdrop]
    obtain ⟨-, hsound, hfollows, hframe, hdropped, hothers⟩ := hback bytes
    refine ⟨Nat.not_lt.mp hlength, hsound, (Execution.Follows.ledger s l').trans hfollows, hframe,
      hdropped, fun r hr u => ?_⟩
    exact hothers r hr u
  have hrun := htriple s (.refl s)
  rcases hresult : rollbackOpenPrefix original s with ⟨e | _, s'⟩
  all_goals rw [hresult] at hrun
  · obtain ⟨l, rfl⟩ := hrun
    exact .inr ⟨e, l, rfl⟩
  · exact .inl ⟨s', rfl, hrun⟩

end Rollback

/-! ### A closure instruction -/

section Closure

variable {P : List RootEntry} {s s' : Execution} {new : List OpenUpvalue}

theorem Execution.Bills.sound (hb : s.Bills s') (h : s.Sound P) :
    s'.Sound P ∧ s.Follows s' ∧ s'.frame = s.frame := by
  obtain ⟨l, rfl⟩ := hb
  exact ⟨h.ledger l, .ledger s l, rfl⟩

/-- A request before the rest. -/
theorem when_onHeap_cases {c : Prop} [Decidable c] (m : LedgerM Unit) (s : Execution) :
    (∃ s', Prog.when c (onHeap (liftLedger m)) s = (.ok (), s') ∧ s.Bills s')
      ∨ ∃ e s', Prog.when c (onHeap (liftLedger m)) s = (.error e, s') ∧ s.Bills s' := by
  have hbills := (Keeps.when (c := c) (keeps_bills_onHeap s m)).apply (.refl s)
  rcases hrun : Prog.when c (onHeap (liftLedger m)) s with ⟨e | _, s'⟩
  all_goals rw [hrun] at hbills
  · exact .inr ⟨e, s', rfl, hbills⟩
  · exact .inl ⟨s', rfl, hbills⟩

/-- **The closure is stored**, or the frame is as it was. -/
theorem storeClosure_spec (site : AllocationSite) (dest : Nat) (captures : List ObjectRef)
    (environment : List ObjectRef → Except FrameError (Option ObjectRef)) (h : s.Sound P)
    (hrooted : s.frame.Rooted) :
    ∃ r s', storeClosure site dest captures environment s = (r, s') ∧ s'.Sound P ∧ s.Follows s'
      ∧ s'.frame.openUpvalues = s.frame.openUpvalues
      ∧ (∀ e, r = .error e → s'.frame = s.frame)
      ∧ (r = .ok () → dest < s.frame.registerLimit
        ∧ ∃ object, s'.frame.registers = s.frame.registers.set dest (.object object)) := by
  unfold storeClosure
  cases environment captures with
  | error e => exact ⟨.error e, s, rfl, h, .refl s, rfl, fun _ _ => rfl, nofun⟩
  | ok cell =>
  rw [Prog.bind_apply_ok (show Prog.ofExcept (.ok cell) s = (.ok cell, s) from rfl),
    Prog.bind_apply_ok (Prog.get_apply s)]
  cases s.frame.module with
  | none => exact ⟨.error .missingEntryPoint, s, rfl, h, .refl s, rfl, fun _ _ => rfl, nofun⟩
  | some module =>
  rw [Prog.bind_apply_ok (show Prog.ofOption FrameError.missingEntryPoint (some module) s
    = (.ok module, s) from rfl)]
  rcases when_onHeap_cases (c := captures.length ≠ 0)
      (reserveVec captures.length objectRefSize .closureCapturesReserve) s with
    ⟨s₁, hrun₁, l, rfl⟩ | ⟨e, s₁, hrun₁, l, rfl⟩
  case inr =>
    exact ⟨.error e, _, Prog.bind_apply_error hrun₁, h.ledger l, .ledger s l, rfl, fun _ _ => rfl, nofun⟩
  rw [Prog.bind_apply_ok hrun₁]
  obtain ⟨r₂, vm₂, hrun₂, h₂, hfollows₂, hallocates⟩ := AllocationSite.allocate_spec site
    (.node .closure (module :: captures ++ cell.toList)) (h.ledger l) hrooted
  replace hfollows₂ := (Execution.Follows.ledger s l).trans hfollows₂
  cases r₂ with
  | error e =>
    exact ⟨.error e, _, Prog.bind_apply_error hrun₂, h₂, hfollows₂, rfl, fun _ _ => rfl, nofun⟩
  | ok object =>
  rw [Prog.bind_apply_ok hrun₂]
  obtain ⟨⟨t, ht, hle⟩, ⟨o, hres, -⟩, -⟩ := hallocates object rfl
  rcases write_spec h₂ dest (.object object) with
    ⟨vm₃, root, hdest, hsame, hwrite, h₃⟩ | ⟨e, vm₃, hsame, hwrite, h₃⟩
  · refine ⟨.ok (), _, Prog.onError_apply_ok hwrite, h₃, hfollows₂.trans ?_, rfl, nofun,
      fun _ => ⟨hdest, object, rfl⟩⟩
    exact .of_onward hsame.shrinks.descends.onward rfl rfl rfl
  · obtain ⟨r₄, vm₄, hreclaim, h₄, hfollows₄, -⟩ := @reclaim_spec_frame P { s with vm := vm₃ } h₃ hrooted
      object ⟨o, (hsame.checkedSlot object).trans hres⟩ ((h.ledger l).kept_ne ht hle)
    have hfollows₃ : Execution.Follows { s with vm := vm₂ } { s with vm := vm₃ } :=
      .of_onward hsame.shrinks.descends.onward rfl rfl rfl
    refine ⟨.error (match r₄ with | .ok _ => e | .error e' => e'), { s with vm := vm₄ }, ?_, h₄,
      hfollows₂.trans (hfollows₃.trans hfollows₄), rfl, fun _ _ => rfl, nofun⟩
    unfold Prog.onError
    rw [hwrite]
    cases r₄ <;> simp only [hreclaim]

/-- The list is as it was, or undoing the captures has failed. -/
def Execution.RolledBack (P : List RootEntry) (s : Execution) (new : List OpenUpvalue)
    (e : FrameError) (s' : Execution) : Prop :=
  new = [] ∨ ∃ s₁, s.Captures P new s₁
    ∧ rollbackOpenPrefix s.frame.openUpvalues.length s₁ = (.error e, s')

/-- **Captures are undone** after an error. -/
theorem Execution.Captures.rollback {α : Type} {m : FrameM α} {t : Execution} {e : FrameError}
    (h : s.Captures P new s') (hrun : m t = (.error e, s')) :
    ∃ err s'' kept, Prog.onError m (rollbackOpenPrefix s.frame.openUpvalues.length) t
        = (.error err, s'')
      ∧ s.Captures P kept s'' ∧ s.RolledBack P kept err s'' := by
  obtain ⟨charge, hframe⟩ := h.frame
  rcases rollbackOpenPrefix_spec h.sound s.frame.openUpvalues.length with
    ⟨s'', hrollback, hback⟩ | ⟨err, l, hrollback⟩
  · refine ⟨e, s'', [], Prog.onError_apply_error hrun hrollback, ?_, .inl rfl⟩
    obtain ⟨charge', hframe'⟩ := hback.frame
    have htake : s'.frame.openUpvalues.take s.frame.openUpvalues.length = s.frame.openUpvalues := by
      rw [hframe]
      exact List.take_left
    rw [htake] at hframe'
    refine ⟨hback.sound, fun entry hentry => h.rooted entry ?_, h.follows.trans hback.follows,
      ⟨charge', ?_⟩, nofun⟩
    · rw [hframe'] at hentry
      rw [hframe]
      exact List.mem_append_left _ hentry
    · rw [hframe', hframe, List.append_nil]
  · refine ⟨err, _, new, ?_, ⟨h.sound.ledger l, h.rooted, h.follows.trans (.ledger s' l), h.frame,
      h.fresh⟩, .inr ⟨s', h, hrollback⟩⟩
    unfold Prog.onError
    rw [hrun]
    simp only [hrollback]

theorem captureUpvalues_spec (sources : List (AllocationSite × CaptureSource)) (h : s.Sound P)
    (hrooted : s.frame.Rooted) :
    ∃ r s' new, captureUpvalues sources s = (r, s') ∧ s.Captures P new s'
      ∧ (∀ captures original, r = .ok (captures, original) → original = s.frame.openUpvalues.length)
      ∧ (∀ e, r = .error e → s.RolledBack P new e s') := by
  unfold captureUpvalues
  rcases when_onHeap_cases (c := sources.length ≠ 0)
      (reserveVec sources.length objectRefSize .closureCapturesReserve) s with
    ⟨s₁, hrun₁, l, rfl⟩ | ⟨e, s₁, hrun₁, l, rfl⟩
  case inr =>
    exact ⟨.error e, _, [], Prog.bind_apply_error hrun₁, .of_vm (h.ledger l) hrooted (.ledger s l),
      nofun, fun _ _ => .inl rfl⟩
  rw [Prog.bind_apply_ok hrun₁, Prog.bind_apply_ok (Prog.get_apply _)]
  obtain ⟨r₂, s₂, new, hrun₂, hcaptures₂⟩ := captureAll_spec sources _ (h.ledger l) hrooted
  have hcaptures : s.Captures P new s₂ :=
    ⟨hcaptures₂.sound, hcaptures₂.rooted, (Execution.Follows.ledger s l).trans hcaptures₂.follows,
      hcaptures₂.frame, hcaptures₂.fresh⟩
  cases r₂ with
  | ok captures =>
    refine ⟨.ok (captures, s.frame.openUpvalues.length), s₂, new,
      (Prog.bind_apply_ok (Prog.onError_apply_ok hrun₂)).trans rfl, hcaptures, ?_, nofun⟩
    rintro captures' original heq
    exact (Prod.mk.inj (Except.ok.inj heq)).2.symm
  | error e =>
    obtain ⟨err, s'', kept, hrun, hkept, hback⟩ := hcaptures.rollback hrun₂
    refine ⟨.error err, s'', kept, Prog.bind_apply_error hrun, hkept, nofun, fun e' heq => ?_⟩
    rw [← Except.error.inj heq]
    exact hback

/-- **A closure instruction** adds entries for the variables it captures; if it fails, the registers
    are as they were, and the list too unless undoing the captures has failed. -/
theorem newClosure_spec (site : AllocationSite) (dest : Nat)
    (sources : List (AllocationSite × CaptureSource))
    (environment : List ObjectRef → Except FrameError (Option ObjectRef)) (h : s.Sound P)
    (hrooted : s.frame.Rooted) :
    ∃ r s' new, newClosure site dest sources environment s = (r, s') ∧ s'.Sound P
      ∧ s'.frame.Rooted ∧ s.Follows s'
      ∧ s'.frame.openUpvalues = s.frame.openUpvalues ++ new
      ∧ (r = .ok () → dest < s.frame.registerLimit
        ∧ ∃ object, s'.frame.registers = s.frame.registers.set dest (.object object))
      ∧ (∀ e, r = .error e → s'.frame.registers = s.frame.registers ∧ s.RolledBack P new e s') := by
  unfold newClosure
  obtain ⟨r₁, s₁, new, hrun₁, hcaptures₁, horiginal, herror⟩ := captureUpvalues_spec sources h hrooted
  obtain ⟨charge, hframe₁⟩ := hcaptures₁.frame
  have hopen₁ : s₁.frame.openUpvalues = s.frame.openUpvalues ++ new := by rw [hframe₁]
  cases r₁ with
  | error e =>
    refine ⟨.error e, s₁, new, Prog.bind_apply_error hrun₁, hcaptures₁.sound, hcaptures₁.rooted,
      hcaptures₁.follows, hopen₁, nofun, fun e' heq => ⟨by rw [hframe₁], ?_⟩⟩
    rw [← Except.error.inj heq]
    exact herror e rfl
  | ok result =>
  obtain ⟨captures, original⟩ := result
  obtain rfl := horiginal captures original rfl
  rw [Prog.bind_apply_ok hrun₁]
  obtain ⟨r₂, s₂, hrun₂, h₂, hfollows₂, hopen₂, hsame₂, hok₂⟩ := storeClosure_spec site dest captures
    environment hcaptures₁.sound hcaptures₁.rooted
  have hrooted₂ : s₂.frame.Rooted := fun e he => hcaptures₁.rooted e (hopen₂ ▸ he)
  cases r₂ with
  | ok _ =>
    refine ⟨.ok (), s₂, new, Prog.onError_apply_ok hrun₂, h₂, hrooted₂,
      hcaptures₁.follows.trans hfollows₂, hopen₂.trans hopen₁, fun _ => ?_, nofun⟩
    obtain ⟨hdest, object, hregisters⟩ := hok₂ rfl
    rw [hframe₁] at hdest hregisters
    exact ⟨hdest, object, hregisters⟩
  | error e =>
    have hcaptures₂ : s.Captures P new s₂ :=
      ⟨h₂, hrooted₂, hcaptures₁.follows.trans hfollows₂, ⟨charge, (hsame₂ e rfl).trans hframe₁⟩,
        hcaptures₁.fresh⟩
    obtain ⟨err, s'', kept, hrun, hkept, hback⟩ := hcaptures₂.rollback hrun₂
    obtain ⟨charge', hframe'⟩ := hkept.frame
    refine ⟨.error err, s'', kept, hrun, hkept.sound, hkept.rooted, hkept.follows, by rw [hframe'],
      nofun, fun e' heq => ⟨by rw [hframe'], ?_⟩⟩
    rw [← Except.error.inj heq]
    exact hback

end Closure

end RivetLua.Runtime
