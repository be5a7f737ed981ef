import RivetLua.Runtime.OpenUpvalues

namespace RivetLua.Runtime

open RivetLua.Core RivetLua.Gc StateProg

/-!
# Runtime — closing open upvalues

* `Execution.ClosesAll` — some upvalues get the values of their registers, and no other one changes;
* `closeEntry_spec` — one entry of the list;
* `closeSlot_spec`, `closeOpen_spec` — the entry of a register, and all entries.
-/

/-- The value of the register at a slot. -/
def CallFrame.valueAt (f : CallFrame) (slot : Nat) : Value :=
  f.registers.getD (slot - f.stackBase) .nil

/-- The upvalues of some entries were closed with the values of their registers. -/
structure Execution.ClosesAll (s : Execution) (gone : List OpenUpvalue) (s' : Execution) : Prop where
  frame : ∃ l, s'.frame = { s.frame with openUpvalues := l }
  closed : ∀ e ∈ gone, s'.upvalueState e.object = .ok (.closed (s.frame.valueAt e.slot))
  others : ∀ r, (∀ e ∈ gone, e.object ≠ r) →
    ∀ u, s'.upvalueState r = .ok u ↔ s.upvalueState r = .ok u

section Close

variable {P : List RootEntry} {s s' : Execution} {e : OpenUpvalue} {before after : List OpenUpvalue}

theorem Execution.ClosesAll.nil (hframe : s'.frame = s.frame) (hstates : ∀ r u,
    s'.upvalueState r = .ok u ↔ s.upvalueState r = .ok u) : s.ClosesAll [] s' where
  frame := ⟨s.frame.openUpvalues, hframe⟩
  closed := nofun
  others := fun r _ => hstates r

theorem Execution.ClosesAll.cons {s'' : Execution} {gone : List OpenUpvalue}
    (h : s.ClosesAll [e] s') (h' : s'.ClosesAll gone s'') (hne : ∀ e' ∈ gone, e'.object ≠ e.object) :
    s.ClosesAll (gone ++ [e]) s'' where
  frame := by
    obtain ⟨l, hl⟩ := h.frame
    obtain ⟨l', hl'⟩ := h'.frame
    exact ⟨l', by rw [hl', hl]⟩
  closed := fun e' he' => by
    obtain ⟨l, hl⟩ := h.frame
    rcases List.mem_append.mp he' with he' | he'
    · rw [h'.closed e' he', hl]
      rfl
    · rw [List.mem_singleton.mp he']
      exact (h'.others e.object hne _).mpr (h.closed e List.mem_cons_self)
  others := fun r hr u => by
    rw [h'.others r fun e' he' => hr e' (List.mem_append_left _ he')]
    exact h.others r (fun e' he' => hr e' (List.mem_append_right _ he')) u

/-- The register of a listed upvalue. -/
theorem Execution.Sound.slotIndex (h : s.Sound P) (he : e ∈ s.frame.openUpvalues) :
    s.frame.slotIndex e.slot = .ok (e.slot - s.frame.stackBase) := by
  have hlisted := h.listed_of_mem he
  have habove := hlisted.above
  have hbelow := hlisted.below
  unfold CallFrame.slotIndex
  rw [if_pos]
  omega

/-- The frame without an entry. -/
theorem Execution.Sound.entries_of_append (hlist : s.frame.openUpvalues = before ++ e :: after) :
    s.frame.entries.Perm ((e.slot, e.object) :: CallFrame.entries
      { s.frame with openUpvalues := before ++ after }) := by
  unfold CallFrame.entries
  rw [hlist]
  simp only [List.map_append, List.map_cons]
  exact List.perm_middle

/-- The identities in the slots of a frame without an entry. -/
theorem CallFrame.rootIds_of_append {f : CallFrame} (hlist : f.openUpvalues = before ++ e :: after) :
    f.rootIds.Perm (e.root.toList
      ++ CallFrame.rootIds { f with openUpvalues := before ++ after }) := by
  have hwhole := f.rootIds_perm .openUpvalues
  have hrest := CallFrame.rootIds_perm { f with openUpvalues := before ++ after } .openUpvalues
  refine hwhole.trans (.trans ?_ (hrest.symm.append_left _))
  have hothers : f.otherIds .openUpvalues
      = CallFrame.otherIds { f with openUpvalues := before ++ after } .openUpvalues := rfl
  rw [← hothers, ← List.append_assoc]
  refine List.Perm.append_right _ ?_
  unfold CallFrame.rootsOf
  rw [hlist]
  simp only [List.map_append, List.map_cons, List.reduceOption_append]
  cases hroot : e.root with
  | none => exact .refl _
  | some id => exact List.perm_middle

/-- **An entry is closed**: its upvalue has the value, its root is removed, and the frame without it
    is in order; or nothing has changed. -/
theorem closeEntry_spec (h : s.Sound P) (hlist : s.frame.openUpvalues = before ++ e :: after)
    (value : Value) :
    (∃ vm' upvalues, closeEntry e value s = (.ok (), { s with vm := vm', upvalues := upvalues })
        ∧ s.Closes e.object value { s with vm := vm', upvalues := upvalues }
        ∧ Execution.Sound P { s with
            vm := vm', upvalues := upvalues
            frame := { s.frame with openUpvalues := before ++ after } })
      ∨ ∃ err l, closeEntry e value s = (.error err, { s with vm := { s.vm with ledger := l } }) := by
  have he : e ∈ s.frame.openUpvalues := by
    rw [hlist]
    exact List.mem_append_right _ List.mem_cons_self
  have hlisted := h.listed_of_mem he
  unfold closeEntry
  rcases closeUpvalue_spec h.tracks hlisted.state value with
    ⟨err, l, hrun⟩ | ⟨vm₁, upvalues, hrun, htracks, hcloses⟩
  · exact .inr ⟨err, l, Prog.bind_apply_error hrun⟩
  left
  -- the roots of the other entries stay in use
  have hids := CallFrame.rootIds_of_append hlist
  have hkept : P ++ CallFrame.openRoots { s.frame with openUpvalues := before ++ after }
      ⊆ P ++ s.frame.openRoots := by
    have hsub : (before ++ after).Sublist s.frame.openUpvalues := by
      rw [hlist]
      exact (List.Sublist.refl before).append (List.sublist_cons_self e after)
    intro k hk
    rcases List.mem_append.mp hk with hk | hk
    · exact List.mem_append_left _ hk
    · exact List.mem_append_right _ ((hsub.filterMap _).subset hk)
  have hkept_ids : ∀ k ∈ P ++ CallFrame.openRoots { s.frame with openUpvalues := before ++ after },
      k.id ∈ P.map RootEntry.id
        ++ CallFrame.rootIds { s.frame with openUpvalues := before ++ after } := by
    intro k hk
    rcases List.mem_append.mp (CallFrame.kept_ids hk) with hmem | hmem
    · exact List.mem_append_left _ hmem
    · refine List.mem_append_right _ ((CallFrame.rootIds_perm _ .openUpvalues).mem_iff.mpr ?_)
      exact List.mem_append_left _ hmem
  obtain ⟨vm', hrelease, htracks', hsame⟩ := @releaseRoot_spec _ _
    { s with vm := vm₁, upvalues := upvalues } e.root (htracks.mono (List.Subset.refl _)
      (List.Perm.subperm (.trans (List.perm_append_comm_assoc _ _ _) (hids.symm.append_left _))))
    _ hkept hkept_ids
  have hcloses' : s.Closes e.object value { s with vm := vm', upvalues := upvalues } :=
    hcloses.of_sameObjects hsame rfl rfl
  refine ⟨vm', upvalues, (Prog.bind_apply_ok hrun).trans hrelease, hcloses', ?_⟩
  have hentries := Execution.Sound.entries_of_append hlist
  have hslots := (hentries.map Prod.fst).nodup_iff.mp h.slots
  rw [List.map_cons, List.nodup_cons] at hslots
  have hrest : ∀ e' ∈ CallFrame.entries { s.frame with openUpvalues := before ++ after },
      e' ∈ s.frame.entries ∧ e'.2 ≠ e.object := by
    intro e' he'
    have hmem := hentries.mem_iff.mpr (List.mem_cons_of_mem _ he')
    refine ⟨hmem, fun heq => hslots.1 ?_⟩
    obtain ⟨entry, hentry, rfl⟩ := List.mem_map.mp hmem
    rw [← (h.slot_iff hentry he).mpr heq]
    exact List.mem_map.mpr ⟨_, he', rfl⟩
  exact {
    registers := h.registers
    roots := h.roots
    slots := hslots.2
    listed := fun e' he' => by
      obtain ⟨hmem, hne⟩ := hrest e' he'
      have hlisted' := h.listed e' hmem
      refine ⟨?_, hcloses'.cells e'.2 hne hlisted'.cell, hlisted'.above, hlisted'.below⟩
      show _ = Except.ok (UpvalueState.opened vm'.id _ _)
      rw [show vm'.id = s.vm.id from hcloses'.id]
      exact (hcloses'.others e'.2 hne _).mpr hlisted'.state
    tracks := htracks'
    parent := h.parent
    apart := fun k hk e' he' => h.apart k hk e' (hrest e' he').1 }

/-- The ledger is not an upvalue. -/
theorem Execution.ClosesAll.ledger (s : Execution) (l : Ledger) :
    s.ClosesAll [] { s with vm := { s.vm with ledger := l } } :=
  .nil rfl fun r u => by
    rw [@Execution.upvalueState_of_sameObjects s { s with vm := { s.vm with ledger := l } }
      ⟨rfl, rfl, rfl, rfl⟩ rfl r]

theorem Execution.Follows.ledger (s : Execution) (l : Ledger) :
    s.Follows { s with vm := { s.vm with ledger := l } } :=
  .of_onward (.of_slots rfl rfl rfl) rfl rfl rfl

/-- One entry of the list is closed and taken out. -/
theorem closeEntry_removes (h : s.Sound P) (hlist : s.frame.openUpvalues = before ++ e :: after)
    {vm' : Vm} {upvalues : Nat → UpvalueState}
    (hcloses : s.Closes e.object (s.frame.valueAt e.slot) { s with vm := vm', upvalues := upvalues }) :
    s.ClosesAll [e] { s with vm := vm', upvalues := upvalues, frame := { s.frame with
        openUpvalues := before ++ after } }
      ∧ s.Follows { s with vm := vm', upvalues := upvalues, frame := { s.frame with
        openUpvalues := before ++ after } } := by
  have he : e ∈ s.frame.openUpvalues := by
    rw [hlist]
    exact List.mem_append_right _ List.mem_cons_self
  refine ⟨⟨⟨before ++ after, rfl⟩, fun e' he' => ?_, fun r hr => ?_⟩, ?_⟩
  · rw [List.mem_singleton.mp he']
    exact hcloses.closed
  · exact hcloses.others r (hr e List.mem_cons_self).symm
  · have hfollows := hcloses.follows (h.listed_of_mem he).state rfl
    exact ⟨hfollows.id, hfollows.coroutine, rfl, hfollows.token, hfollows.upvalue⟩

theorem closeLast_spec : ∀ (n : Nat) (s : Execution), s.Sound P → s.frame.openUpvalues.length = n →
    ∃ r s' gone, closeLast n s = (r, s') ∧ s'.Sound P ∧ s.Follows s' ∧ s.ClosesAll gone s'
      ∧ s.frame.openUpvalues = s'.frame.openUpvalues ++ gone
      ∧ (r = .ok () → s'.frame.openUpvalues = [])
  | 0, s, h, hlength => by
    have hnil := List.eq_nil_of_length_eq_zero hlength
    exact ⟨.ok (), s, [], rfl, h, .refl s, .nil rfl fun _ _ => .rfl, (List.append_nil _).symm,
      fun _ => hnil⟩
  | n + 1, s, h, hlength => by
    obtain ⟨before, e, hlist⟩ : ∃ before e, s.frame.openUpvalues = before ++ [e] := by
      rcases List.eq_nil_or_concat' s.frame.openUpvalues with hnil | hlist
      · rw [hnil] at hlength
        cases hlength
      · exact hlist
    have hlast : s.frame.openUpvalues.getLast? = some e := by
      rw [hlist, List.getLast?_concat]
    have he : e ∈ s.frame.openUpvalues := by
      rw [hlist]
      exact List.mem_append_right _ List.mem_cons_self
    unfold closeLast
    rw [Prog.bind_apply_ok (Prog.get_apply s)]
    simp only [hlast]
    rw [h.slotIndex he, Prog.bind_apply_ok (show Prog.ofExcept (.ok (e.slot - s.frame.stackBase)) s
      = (.ok (e.slot - s.frame.stackBase), s) from rfl)]
    rcases closeEntry_spec h hlist (s.frame.valueAt e.slot) with
      ⟨vm', upvalues, hrun, hcloses, hsound⟩ | ⟨err, l, hrun⟩
    case inr =>
      exact ⟨_, _, [], Prog.bind_apply_error hrun, h.ledger l, .ledger s l, .ledger s l,
        (List.append_nil _).symm, nofun⟩
    obtain ⟨hone, hfollows⟩ := closeEntry_removes h hlist hcloses
    rw [List.append_nil] at hone hfollows hsound
    obtain ⟨r, s', gone, hrun', h', hfollows', hgone, hrest, hok⟩ := closeLast_spec n _ hsound (by
      rw [hlist, List.length_append] at hlength
      simpa using hlength)
    refine ⟨r, s', gone ++ [e], ?_, h', hfollows.trans hfollows', hone.cons hgone fun e' he' heq => ?_,
      ?_, hok⟩
    · refine (Prog.bind_apply_ok hrun).trans ((Prog.bind_apply_ok (a := ()) ?_).trans hrun')
      have hdrop : s.frame.openUpvalues.dropLast = before := by
        rw [hlist, List.dropLast_concat]
      rw [← hdrop]
      rfl
    · -- the entries have different upvalues
      have hmem : e' ∈ s.frame.openUpvalues := by
        rw [hlist, show before = _ from hrest]
        exact List.mem_append_left _ (List.mem_append_right _ he')
      have hslots := h.slots
      have hslot := (h.slot_iff hmem he).mpr heq
      unfold CallFrame.entries at hslots
      rw [hlist, show before = _ from hrest] at hslots
      simp only [List.map_append, List.map_map, List.map_cons, List.map_nil, List.nodup_append] at hslots
      exact hslots.2.2 _ (List.mem_append_right _ (List.mem_map_of_mem he')) _
        (List.mem_singleton_self _) hslot
    · rw [hlist, show before = _ from hrest, List.append_assoc]

/-- **Closing all** closes entries from the end of the list; if it succeeds, all of them. -/
theorem closeOpen_spec (h : s.Sound P) :
    ∃ r s' gone, closeOpen s = (r, s') ∧ s'.Sound P ∧ s.Follows s' ∧ s.ClosesAll gone s'
      ∧ s.frame.openUpvalues = s'.frame.openUpvalues ++ gone
      ∧ (r = .ok () → s'.frame.openUpvalues = []) := by
  obtain ⟨r, s', gone, hrun, hrest⟩ := closeLast_spec s.frame.openUpvalues.length s h rfl
  exact ⟨r, s', gone, hrun, hrest⟩

/-- The register has an open upvalue that is closed, or nothing changes. -/
theorem closeSlot_cases (h : s.Sound P) (register : Nat) :
    (∃ before e after vm' upvalues, s.frame.openUpvalues = before ++ e :: after
        ∧ e.slot = s.frame.stackBase + register
        ∧ closeSlot register s = (.ok (), { s with vm := vm', upvalues := upvalues, frame :=
            { s.frame with openUpvalues := before ++ after } })
        ∧ s.Closes e.object (s.frame.valueAt e.slot) { s with vm := vm', upvalues := upvalues }
        ∧ Execution.Sound P { s with vm := vm', upvalues := upvalues, frame :=
            { s.frame with openUpvalues := before ++ after } })
      ∨ ∃ r l, closeSlot register s = (r, { s with vm := { s.vm with ledger := l } })
        ∧ (r = .ok () → ∀ e ∈ s.frame.openUpvalues, e.slot ≠ s.frame.stackBase + register) := by
  unfold closeSlot
  rw [Prog.bind_apply_ok (Prog.get_apply s)]
  unfold CallFrame.index
  by_cases hlimit : s.frame.registerLimit ≤ register
  · rw [if_pos hlimit]
    exact .inr ⟨.error .registerOutOfBounds, s.vm.ledger, rfl, fun hok => nomatch hok⟩
  rw [if_neg hlimit, Prog.bind_apply_ok (show Prog.ofExcept (.ok register) s = (.ok register, s) from rfl)]
  by_cases hover : usizeMax < s.frame.stackBase + register
  · rw [if_pos hover]
    exact .inr ⟨.error .registerOutOfBounds, s.vm.ledger, rfl, fun hok => nomatch hok⟩
  rw [if_neg hover]
  cases hfind : s.frame.openUpvalues.findIdx? fun e =>
      decide (e.slot = s.frame.stackBase + register) with
  | none =>
    refine .inr ⟨.ok (), s.vm.ledger, rfl, fun _ e he => ?_⟩
    simpa using List.findIdx?_eq_none_iff.mp hfind e he
  | some position =>
    obtain ⟨hlt, hslot, -⟩ := List.findIdx?_eq_some_iff_getElem.mp hfind
    obtain ⟨e, hget⟩ : ∃ e, s.frame.openUpvalues[position] = e := ⟨_, rfl⟩
    have hlist : s.frame.openUpvalues = s.frame.openUpvalues.take position
        ++ e :: s.frame.openUpvalues.drop (position + 1) := by
      rw [← hget, ← List.drop_eq_getElem_cons hlt, List.take_append_drop]
    replace hslot : e.slot = s.frame.stackBase + register := by
      rw [← hget]
      exact of_decide_eq_true hslot
    simp only [List.getElem?_eq_getElem hlt, hget]
    have hvalue : s.frame.registers.getD register .nil = s.frame.valueAt e.slot := by
      unfold CallFrame.valueAt
      rw [hslot, Nat.add_sub_cancel_left]
    rw [hvalue]
    rcases closeEntry_spec h hlist (s.frame.valueAt e.slot) with
      ⟨vm', upvalues, hrun, hcloses, hsound⟩ | ⟨err, l, hrun⟩
    · refine .inl ⟨_, e, _, vm', upvalues, hlist, hslot, ?_, hcloses, hsound⟩
      rw [Prog.bind_apply_ok hrun, ← List.eraseIdx_eq_take_drop_succ]
      rfl
    · exact .inr ⟨.error err, l, Prog.bind_apply_error hrun, fun hok => nomatch hok⟩

/-- **Closing a register** closes the upvalue that is open on it, if there is one. -/
theorem closeSlot_spec (h : s.Sound P) (register : Nat) :
    ∃ r s' before gone after, closeSlot register s = (r, s') ∧ s'.Sound P ∧ s.Follows s'
      ∧ s.ClosesAll gone s' ∧ s.frame.openUpvalues = before ++ gone ++ after
      ∧ s'.frame.openUpvalues = before ++ after
      ∧ (r = .ok () → ∀ e ∈ s.frame.openUpvalues,
        e ∈ gone ↔ e.slot = s.frame.stackBase + register)
      ∧ (∀ e, r = .error e → gone = []) := by
  rcases closeSlot_cases h register with
    ⟨before, e, after, vm', upvalues, hlist, hslot, hrun, hcloses, hsound⟩ | ⟨r, l, hrun, hnone⟩
  · obtain ⟨hone, hfollows⟩ := closeEntry_removes h hlist hcloses
    have he : e ∈ s.frame.openUpvalues := by
      rw [hlist]
      exact List.mem_append_right _ List.mem_cons_self
    refine ⟨.ok (), _, before, [e], after, hrun, hsound, hfollows, hone, by simpa using hlist, rfl,
      fun _ e' he' => ?_, fun _ hr => nomatch hr⟩
    rw [List.mem_singleton, ← hslot]
    exact ⟨fun heq => heq ▸ rfl, fun heq => h.entry_eq he' he heq⟩
  · refine ⟨r, _, s.frame.openUpvalues, [], [], hrun, h.ledger l, .ledger s l, .ledger s l, by simp,
      by simp, fun hok e he => ?_, fun _ _ => rfl⟩
    exact iff_of_false List.not_mem_nil (hnone hok e he)

end Close

end RivetLua.Runtime
