import RivetLua.Runtime.UpvalueStates

namespace RivetLua.Runtime

open RivetLua.Core RivetLua.Gc StateProg

/-!
# Runtime — frames whose open upvalues are in order

* `CallFrame.unrooted` — a frame but for its roots;
* `Execution.Sound` — every listed upvalue is open on its own register, and the roots of the frame
  are registered;
* `write_spec`, `growForOpenResults_spec` — registers;
* `parkRoots_spec`, `restoreRoots_spec` — roots.
-/

/-! ### Frames and their roots -/

/-- The fields with roots. -/
def RootField.all : List RootField :=
  [.closure, .registers, .varargs, .debugVarargTable, .openUpvalues, .closeEntries]

theorem RootField.mem_all (field : RootField) : field ∈ RootField.all := by
  cases field <;> decide

theorem RootField.nodup_all : RootField.all.Nodup := by
  decide

/-- The identities in the root slots of a frame. -/
def CallFrame.rootIds (f : CallFrame) : List RootId := (RootField.all.flatMap f.rootsOf).reduceOption

/-- Those of the other fields. -/
def CallFrame.otherIds (f : CallFrame) (field : RootField) : List RootId :=
  ((RootField.all.erase field).flatMap f.rootsOf).reduceOption

/-- The root of an entry, as it is registered. -/
def OpenUpvalue.entry? (e : OpenUpvalue) : Option RootEntry :=
  e.root.map fun id => ⟨id, .temporary, e.object, none⟩

/-- The roots of the open upvalues. -/
def CallFrame.openRoots (f : CallFrame) : List RootEntry := f.openUpvalues.filterMap OpenUpvalue.entry?

/-- The slots and objects of the list. -/
def CallFrame.entries (f : CallFrame) : List (Nat × ObjectRef) :=
  f.openUpvalues.map fun e => (e.slot, e.object)

/-- Every open upvalue has its root. -/
def CallFrame.Rooted (f : CallFrame) : Prop := ∀ e ∈ f.openUpvalues, e.root ≠ none

/-- The frame without its roots. -/
def CallFrame.unrooted (f : CallFrame) : CallFrame :=
  { f with
    closureRoot := none
    roots := f.roots.map fun _ => none
    varargRoots := f.varargRoots.map fun _ => none
    debugVarargTableRoot := none
    openUpvalues := f.openUpvalues.map fun e => { e with root := none }
    closeEntries := f.closeEntries.map fun e => { e with root := none } }

section Frames

variable {f f' : CallFrame}

/-- What is zipped in is read back. -/
theorem map_zipWith_right {α β γ : Type} {g : γ → β} {f : α → β → γ} (hg : ∀ a b, g (f a b) = b) :
    ∀ {l : List α} {l' : List β}, l'.length = l.length → (List.zipWith f l l').map g = l'
  | _, [], _ => by simp
  | [], _ :: _, h => absurd h (by simp)
  | a :: l, b :: l', h => by
    rw [List.zipWith_cons_cons, List.map_cons, hg, map_zipWith_right hg (by simpa using h)]

/-- What does not depend on it is the same. -/
theorem map_zipWith_left {α β γ δ : Type} {g : γ → δ} {h : α → δ} {f : α → β → γ}
    (hg : ∀ a b, g (f a b) = h a) :
    ∀ {l : List α} {l' : List β}, l'.length = l.length → (List.zipWith f l l').map g = l.map h
  | [], _, _ => by simp
  | _ :: _, [], hlength => absurd hlength (by simp)
  | a :: l, b :: l', hlength => by
    rw [List.zipWith_cons_cons, List.map_cons, hg, map_zipWith_left hg (by simpa using hlength),
      List.map_cons]

/-- The slots of one field, and those of the others. -/
theorem CallFrame.rootIds_perm (f : CallFrame) (field : RootField) :
    f.rootIds.Perm ((f.rootsOf field).reduceOption ++ f.otherIds field) := by
  have hperm := (List.perm_cons_erase field.mem_all).flatMap_right f.rootsOf
  rw [List.flatMap_cons] at hperm
  refine (hperm.filterMap id).trans ?_
  rw [List.filterMap_append]
  exact .refl _

theorem CallFrame.mem_otherIds {field field' : RootField} (hne : field' ≠ field) {id : RootId}
    (hid : id ∈ (f.rootsOf field').reduceOption) : id ∈ f.otherIds field := by
  rw [List.reduceOption_mem_iff] at hid
  rw [CallFrame.otherIds, List.reduceOption_mem_iff]
  exact List.mem_flatMap.mpr ⟨field', (List.mem_erase_of_ne hne).mpr field'.mem_all, hid⟩

theorem CallFrame.rootsOf_setRoots (f : CallFrame) {field : RootField} {roots : List (Option RootId)}
    (hlength : roots.length = (f.rootsOf field).length) (field' : RootField) :
    (f.setRoots field roots).rootsOf field' = if field' = field then roots else f.rootsOf field' := by
  have hone : (field = .closure ∨ field = .debugVarargTable) → [roots.head?.join] = roots := by
    intro hfield
    have h1 : roots.length = 1 := by
      rcases hfield with rfl | rfl
      all_goals exact hlength
    obtain ⟨root, rfl⟩ := List.length_eq_one_iff.mp h1
    rfl
  by_cases hfield : field' = field
  · subst hfield
    rw [if_pos rfl]
    cases field' with
    | closure => exact hone (.inl rfl)
    | debugVarargTable => exact hone (.inr rfl)
    | registers => rfl
    | varargs => rfl
    | openUpvalues => exact map_zipWith_right (fun _ _ => rfl) (hlength.trans (List.length_map _))
    | closeEntries => exact map_zipWith_right (fun _ _ => rfl) (hlength.trans (List.length_map _))
  · rw [if_neg hfield]
    cases field <;> cases field' <;> first | rfl | exact absurd rfl hfield

theorem CallFrame.otherIds_setRoots (f : CallFrame) {field : RootField}
    {roots : List (Option RootId)} (hlength : roots.length = (f.rootsOf field).length) :
    (f.setRoots field roots).otherIds field = f.otherIds field := by
  unfold CallFrame.otherIds
  refine congrArg List.reduceOption (List.flatMap_congr fun field' hfield' => ?_)
  rw [f.rootsOf_setRoots hlength, if_neg]
  rintro rfl
  exact RootField.nodup_all.not_mem_erase hfield'

/-- New roots in the slots of one field. -/
theorem CallFrame.rootIds_setRoots (f : CallFrame) {field : RootField}
    {roots : List (Option RootId)} (hlength : roots.length = (f.rootsOf field).length) :
    (f.setRoots field roots).rootIds.Perm (roots.reduceOption ++ f.otherIds field) := by
  refine ((f.setRoots field roots).rootIds_perm field).trans ?_
  rw [f.rootsOf_setRoots hlength, if_pos rfl, f.otherIds_setRoots hlength]

/-- Only roots are new. -/
theorem CallFrame.unrooted_setRoots (f : CallFrame) {field : RootField}
    {roots : List (Option RootId)} (hlength : roots.length = (f.rootsOf field).length) :
    (f.setRoots field roots).unrooted = f.unrooted := by
  have hnone : ∀ {l : List (Option RootId)}, roots.length = l.length →
      roots.map (fun _ => (none : Option RootId)) = l.map fun _ => none := by
    intro l hl
    rw [List.map_const', List.map_const', hl]
  cases field with
  | closure => rfl
  | debugVarargTable => rfl
  | registers => exact congrArg (fun l => { f.unrooted with roots := l }) (hnone hlength)
  | varargs => exact congrArg (fun l => { f.unrooted with varargRoots := l }) (hnone hlength)
  | openUpvalues =>
    have hentries : (List.zipWith (fun (e : OpenUpvalue) root => { e with root := root })
        f.openUpvalues roots).map (fun e => { e with root := none })
          = f.openUpvalues.map fun e => { e with root := none } := by
      refine map_zipWith_left ?_ (hlength.trans (List.length_map _))
      exact fun _ _ => rfl
    exact congrArg (fun l => { f.unrooted with openUpvalues := l }) hentries
  | closeEntries =>
    have hentries : (List.zipWith (fun (e : CloseEntry) root => { e with root := root })
        f.closeEntries roots).map (fun e => { e with root := none })
          = f.closeEntries.map fun e => { e with root := none } := by
      refine map_zipWith_left ?_ (hlength.trans (List.length_map _))
      exact fun _ _ => rfl
    exact congrArg (fun l => { f.unrooted with closeEntries := l }) hentries

theorem CallFrame.openUpvalues_setRoots {field : RootField} (hne : field ≠ .openUpvalues)
    (roots : List (Option RootId)) :
    (f.setRoots field roots).openUpvalues = f.openUpvalues := by
  cases field <;> first | rfl | exact absurd rfl hne

/-- The identities of the roots of the open upvalues. -/
theorem CallFrame.openRoots_ids (f : CallFrame) :
    f.openRoots.map RootEntry.id = (f.rootsOf .openUpvalues).reduceOption := by
  unfold CallFrame.openRoots List.reduceOption CallFrame.rootsOf
  rw [List.map_filterMap, List.filterMap_map]
  refine congrArg (fun g => List.filterMap g f.openUpvalues) (funext fun e => ?_)
  show (e.entry?).map RootEntry.id = e.root
  unfold OpenUpvalue.entry?
  cases e.root <;> rfl

theorem CallFrame.entries_unrooted (f : CallFrame) : f.unrooted.entries = f.entries := by
  unfold CallFrame.entries CallFrame.unrooted
  rw [List.map_map]
  rfl

/-- A frame whose open upvalues have their roots has a root for each. -/
theorem CallFrame.Rooted.mem_openRoots (h : f.Rooted) {e : OpenUpvalue} (he : e ∈ f.openUpvalues) :
    ∃ k ∈ f.openRoots, k.object = e.object := by
  obtain ⟨id, hid⟩ := Option.ne_none_iff_exists'.mp (h e he)
  refine ⟨⟨id, .temporary, e.object, none⟩, List.mem_filterMap.mpr ⟨e, he, ?_⟩, rfl⟩
  unfold OpenUpvalue.entry?
  rw [hid]
  rfl

theorem CallFrame.mem_openRoots {k : RootEntry} (hk : k ∈ f.openRoots) :
    ∃ e ∈ f.openUpvalues, e.root = some k.id ∧ e.object = k.object := by
  obtain ⟨e, he, hentry⟩ := List.mem_filterMap.mp hk
  obtain ⟨id, hid, rfl⟩ := Option.map_eq_some_iff.mp hentry
  exact ⟨e, he, hid, rfl⟩

end Frames

/-! ### Frames in order -/

/-- An open upvalue of this coroutine, on a register of the frame. -/
structure Execution.Listed (s : Execution) (slot : Nat) (object : ObjectRef) : Prop where
  state : s.upvalueState object = .ok (.opened s.vm.id s.coroutine slot)
  cell : s.vm.Cell s.coroutine object
  above : s.frame.stackBase ≤ slot
  below : slot < s.frame.stackBase + s.frame.registerLimit

/-- A frame in order; the roots of `P` are not its own, and one of them keeps its coroutine. -/
structure Execution.Sound (P : List RootEntry) (s : Execution) : Prop where
  registers : s.frame.registers.length = s.frame.registerLimit
  roots : s.frame.roots.length = s.frame.registerLimit
  slots : (s.frame.entries.map Prod.fst).Nodup
  listed : ∀ e ∈ s.frame.entries, s.Listed e.1 e.2
  tracks : s.vm.Tracks (P ++ s.frame.openRoots) (P.map RootEntry.id ++ s.frame.rootIds)
  parent : ∀ p, s.coroutine = some p → ∃ k ∈ P, k.object = p
  apart : ∀ k ∈ P, ∀ e ∈ s.frame.entries, k.object ≠ e.2

/-- Only roots change, of the VM and of the frame. -/
structure Execution.Reroots (s s' : Execution) : Prop where
  objects : s.vm.SameObjects s'.vm
  coroutine : s'.coroutine = s.coroutine
  upvalues : s'.upvalues = s.upvalues
  frame : s'.frame.unrooted = s.frame.unrooted

section Sound

variable {P : List RootEntry} {s s' : Execution}

theorem Execution.Reroots.refl (s : Execution) : s.Reroots s := ⟨.refl _, rfl, rfl, rfl⟩

theorem Execution.Reroots.trans {s'' : Execution} (h : s.Reroots s') (h' : s'.Reroots s'') :
    s.Reroots s'' :=
  ⟨h.objects.trans h'.objects, h'.coroutine.trans h.coroutine, h'.upvalues.trans h.upvalues,
    h'.frame.trans h.frame⟩

/-- The objects and the list are the same. -/
theorem Execution.Sound.of_frame (h : s.Sound P) (hsame : s.vm.SameObjects s'.vm)
    (hcoroutine : s'.coroutine = s.coroutine) (hupvalues : s'.upvalues = s.upvalues)
    (hregisters : s'.frame.registers.length = s'.frame.registerLimit)
    (hroots : s'.frame.roots.length = s'.frame.registerLimit)
    (hlimit : s.frame.registerLimit ≤ s'.frame.registerLimit)
    (hbase : s'.frame.stackBase = s.frame.stackBase) (hentries : s'.frame.entries = s.frame.entries)
    (htracks : s'.vm.Tracks (P ++ s'.frame.openRoots) (P.map RootEntry.id ++ s'.frame.rootIds)) :
    s'.Sound P where
  registers := hregisters
  roots := hroots
  slots := hentries ▸ h.slots
  listed := fun e he => by
    rw [hentries] at he
    have hlisted := h.listed e he
    refine ⟨?_, ?_, ?_, ?_⟩
    · rw [Execution.upvalueState_of_sameObjects hsame hupvalues, hsame.id, hcoroutine]
      exact hlisted.state
    · rw [hcoroutine]
      exact hlisted.cell.of_shrinks hsame.shrinks
    · rw [hbase]
      exact hlisted.above
    · have hbelow := hlisted.below
      rw [hbase]
      omega
  tracks := htracks
  parent := hcoroutine ▸ h.parent
  apart := hentries ▸ h.apart

theorem Execution.Reroots.registers (h : s.Reroots s') : s'.frame.registers = s.frame.registers :=
  show s'.frame.unrooted.registers = s.frame.unrooted.registers by rw [h.frame]

theorem Execution.Reroots.stackBase (h : s.Reroots s') : s'.frame.stackBase = s.frame.stackBase :=
  show s'.frame.unrooted.stackBase = s.frame.unrooted.stackBase by rw [h.frame]

theorem Execution.Reroots.registerLimit (h : s.Reroots s') :
    s'.frame.registerLimit = s.frame.registerLimit :=
  show s'.frame.unrooted.registerLimit = s.frame.unrooted.registerLimit by rw [h.frame]

theorem Execution.Reroots.entries (h : s.Reroots s') : s'.frame.entries = s.frame.entries := by
  rw [← CallFrame.entries_unrooted, h.frame, CallFrame.entries_unrooted]

theorem Execution.Reroots.follows (h : s.Reroots s') : s.Follows s' :=
  .of_onward h.objects.shrinks.descends.onward h.coroutine h.stackBase h.upvalues

theorem Execution.Sound.reroots (h : s.Sound P) (hr : s.Reroots s')
    (htracks : s'.vm.Tracks (P ++ s'.frame.openRoots) (P.map RootEntry.id ++ s'.frame.rootIds)) :
    s'.Sound P := by
  refine h.of_frame hr.objects hr.coroutine hr.upvalues ?_ ?_ hr.registerLimit.ge hr.stackBase
    hr.entries htracks
  · rw [hr.registers, hr.registerLimit]
    exact h.registers
  · have hlength := congrArg (fun f => f.roots.length) hr.frame
    simp only [CallFrame.unrooted, List.length_map] at hlength
    rw [hlength, hr.registerLimit]
    exact h.roots

theorem Execution.Sound.tidy (h : s.Sound P) : s.vm.Tidy := h.tracks.tidy

/-- A list entry is in its object's state. -/
theorem Execution.Sound.listed_of_mem (h : s.Sound P) {e : OpenUpvalue}
    (he : e ∈ s.frame.openUpvalues) : s.Listed e.slot e.object :=
  h.listed _ (List.mem_map_of_mem he)

/-- A slot has one entry. -/
theorem Execution.Sound.entry_eq (h : s.Sound P) {e e' : OpenUpvalue}
    (he : e ∈ s.frame.openUpvalues) (he' : e' ∈ s.frame.openUpvalues) (heq : e.slot = e'.slot) :
    e = e' := by
  have hslots := h.slots
  unfold CallFrame.entries at hslots
  rw [List.map_map] at hslots
  exact List.inj_on_of_nodup_map hslots he he' heq

/-- **A slot has one open upvalue, and an open upvalue has one slot.** -/
theorem Execution.Sound.slot_iff (h : s.Sound P) {e e' : OpenUpvalue}
    (he : e ∈ s.frame.openUpvalues) (he' : e' ∈ s.frame.openUpvalues) :
    e.slot = e'.slot ↔ e.object = e'.object := by
  constructor
  · intro heq
    rw [h.entry_eq he he' heq]
  · intro heq
    have hstate := (h.listed_of_mem he).state
    rw [heq, (h.listed_of_mem he').state] at hstate
    simp only [Except.ok.injEq, UpvalueState.opened.injEq, true_and] at hstate
    exact hstate.symm

end Sound

/-! ### Registers -/

section Registers

variable {P K : List RootEntry} {T : List RootId} {s s' : Execution}

/-- A slot and the rest of them. -/
theorem reduceOption_set_perm {α : Type} {l : List (Option α)} {i : Nat} (hi : i < l.length)
    (x : Option α) : (l.set i x).reduceOption.Perm (x.toList ++ (l.eraseIdx i).reduceOption) := by
  rw [List.set_eq_take_append_cons_drop, if_pos hi, List.eraseIdx_eq_take_drop_succ,
    List.reduceOption_append, List.reduceOption_append]
  cases x with
  | none => exact .refl _
  | some x => exact List.perm_middle

/-- The roots in use are among those of a frame. -/
theorem CallFrame.kept_ids {f : CallFrame} {k : RootEntry} (hk : k ∈ P ++ f.openRoots) :
    k.id ∈ P.map RootEntry.id ++ (f.rootsOf .openUpvalues).reduceOption := by
  rw [← f.openRoots_ids, ← List.map_append]
  exact List.mem_map_of_mem hk

theorem CallFrame.kept_ids_other {f : CallFrame} {field : RootField} (hne : field ≠ .openUpvalues)
    {k : RootEntry} (hk : k ∈ P ++ f.openRoots) :
    k.id ∈ P.map RootEntry.id ++ f.otherIds field := by
  rcases List.mem_append.mp (CallFrame.kept_ids hk) with hmem | hmem
  · exact List.mem_append_left _ hmem
  · exact List.mem_append_right _ (CallFrame.mem_otherIds hne.symm hmem)

/-- The root of a slot is removed. -/
theorem releaseRoot_spec {root : Option RootId} (h : s.vm.Tracks K (root.toList ++ T)) {K' : List RootEntry}
    (hsub : K' ⊆ K) (hK : ∀ k ∈ K', k.id ∈ T) :
    ∃ vm', releaseRoot root s = (.ok (), { s with vm := vm' }) ∧ vm'.Tracks K' T
      ∧ s.vm.SameObjects vm' := by
  cases root with
  | none => exact ⟨s.vm, rfl, h.mono hsub (.refl _), .refl _⟩
  | some id =>
    obtain ⟨object, vm', hrun, htracks, hsame⟩ := h.removeRoot_of_perm (.refl _) hsub hK
    exact ⟨vm', Prog.bind_apply_ok (onHeap_ok hrun), htracks, hsame⟩

theorem stackRoot_spec (h : s.vm.Tracks K T) (value : Value) :
    (∃ root vm', stackRoot value s = (.ok root, { s with vm := vm' })
        ∧ vm'.Tracks K (root.toList ++ T) ∧ s.vm.SameObjects vm')
      ∨ ∃ e vm', stackRoot value s = (.error e, { s with vm := vm' }) ∧ vm'.Tracks K T
        ∧ s.vm.SameObjects vm' := by
  unfold stackRoot
  cases hobject : value.objectRef? with
  | none => exact .inl ⟨none, s.vm, rfl, h, .refl _⟩
  | some object =>
    rcases h.addRoot .stack object with ⟨id, vm', hrun, htracks, hsame⟩ | ⟨e, vm', hrun, htracks, hsame⟩
    · refine .inl ⟨some id, vm', Prog.bind_apply_ok (onHeap_ok hrun), ?_, hsame⟩
      exact htracks.mono (List.subset_cons_self _ _) (.refl _)
    · exact .inr ⟨_, vm', Prog.bind_apply_error (onHeap_error hrun), htracks, hsame⟩

/-- **A register is written**, and its root replaced, or the frame is as it was. -/
theorem write_spec (h : s.Sound P) (register : Nat) (value : Value) :
    (∃ vm' root, register < s.frame.registerLimit ∧ s.vm.SameObjects vm'
        ∧ write register value s = (.ok (), { s with vm := vm', frame := { s.frame with
            registers := s.frame.registers.set register value
            roots := s.frame.roots.set register root } })
        ∧ Execution.Sound P { s with vm := vm', frame := { s.frame with
            registers := s.frame.registers.set register value
            roots := s.frame.roots.set register root } })
      ∨ ∃ e vm', s.vm.SameObjects vm' ∧ write register value s = (.error e, { s with vm := vm' })
        ∧ Execution.Sound P { s with vm := vm' } := by
  have hfailed : ∀ {vm' : Vm}, s.vm.SameObjects vm' →
      vm'.Tracks (P ++ s.frame.openRoots) (P.map RootEntry.id ++ s.frame.rootIds) →
      Execution.Sound P { s with vm := vm' } := fun hsame htracks =>
    h.reroots ⟨hsame, rfl, rfl, rfl⟩ htracks
  unfold write
  rw [Prog.bind_apply_ok (Prog.get_apply s)]
  unfold CallFrame.index
  by_cases hlimit : s.frame.registerLimit ≤ register
  · rw [if_pos hlimit]
    exact .inr ⟨_, s.vm, .refl _, rfl, h⟩
  rw [if_neg hlimit, Prog.bind_apply_ok (show Prog.ofExcept (.ok register) s = (.ok register, s) from rfl)]
  have hindex : register < s.frame.roots.length := by
    rw [h.roots]
    omega
  rcases stackRoot_spec h.tracks value with
    ⟨root, vm₁, hrun, htracks, hsame⟩ | ⟨e, vm₁, hrun, htracks, hsame⟩
  case inr => exact .inr ⟨_, vm₁, hsame, Prog.bind_apply_error hrun, hfailed hsame htracks⟩
  rw [Prog.bind_apply_ok hrun]
  -- the new root takes the place of the old one
  obtain ⟨old, hold⟩ : ∃ old, s.frame.roots[register]? = some old := ⟨_, List.getElem?_eq_getElem hindex⟩
  have hbefore : s.frame.rootIds.Perm (old.toList ++ (s.frame.roots.eraseIdx register).reduceOption
      ++ s.frame.otherIds .registers) := by
    refine (s.frame.rootIds_perm .registers).trans (List.Perm.append_right _ ?_)
    have hset := reduceOption_set_perm hindex old
    obtain ⟨_, rfl⟩ := List.getElem?_eq_some_iff.mp hold
    rwa [List.set_getElem_self] at hset
  have hafter : (s.frame.setRoots .registers (s.frame.roots.set register root)).rootIds.Perm
      (root.toList ++ (s.frame.roots.eraseIdx register).reduceOption ++ s.frame.otherIds .registers) :=
    (s.frame.rootIds_setRoots List.length_set).trans ((reduceOption_set_perm hindex root).append_right _)
  have hmove : (root.toList ++ (P.map RootEntry.id ++ s.frame.rootIds)).Perm
      (old.toList ++ (P.map RootEntry.id ++ (root.toList
        ++ (s.frame.roots.eraseIdx register).reduceOption ++ s.frame.otherIds .registers))) := by
    refine ((hbefore.append_left _).append_left _).trans (List.perm_iff_count.mpr fun id => ?_)
    simp only [List.count_append]
    omega
  have hkept : ∀ k ∈ P ++ s.frame.openRoots, k.id ∈ P.map RootEntry.id ++ (root.toList
      ++ (s.frame.roots.eraseIdx register).reduceOption ++ s.frame.otherIds .registers) := by
    intro k hk
    rcases List.mem_append.mp (CallFrame.kept_ids_other (nofun : RootField.registers ≠ .openUpvalues) hk) with hmem | hmem
    · exact List.mem_append_left _ hmem
    · exact List.mem_append_right _ (List.mem_append_right _ hmem)
  obtain ⟨vm₂, hdrop, htracks₂, hsame₂⟩ := @releaseRoot_spec _ _ { s with vm := vm₁ } old
    (htracks.mono (List.Subset.refl _) hmove.symm.subperm) _ (List.Subset.refl _) hkept
  replace hsame₂ := hsame.trans hsame₂
  refine .inl ⟨vm₂, root, by omega, hsame₂, ?_, ?_⟩
  · rw [hold]
    exact Prog.bind_apply_ok (Prog.onError_apply_ok hdrop)
  refine h.of_frame hsame₂ rfl rfl ?_ ?_ (Nat.le_refl _) rfl rfl ?_
  · exact List.length_set.trans h.registers
  · exact List.length_set.trans h.roots
  · exact htracks₂.mono (List.Subset.refl _) (hafter.append_left _).subperm

theorem resized_eq {α : Type} {l : List α} {n : Nat} (h : l.length ≤ n) (x : α) :
    resized l n x = l ++ List.replicate (n - l.length) x := by
  rw [resized, List.take_of_length_le h]

/-- Only the ledger changes. -/
theorem Execution.Sound.ledger (h : s.Sound P) (l : Ledger) :
    Execution.Sound P { s with vm := { s.vm with ledger := l } } :=
  h.reroots ⟨⟨rfl, rfl, rfl, rfl⟩, rfl, rfl, rfl⟩ (h.tracks.ledger l)

/-- A program of the ledger. -/
theorem onHeap_liftLedger {α : Type} (m : LedgerM α) (s : Execution) :
    (∃ a l, onHeap (liftLedger m) s = (.ok a, { s with vm := { s.vm with ledger := l } }))
      ∨ ∃ e l, onHeap (liftLedger m) s = (.error (.heap e), { s with vm := { s.vm with ledger := l } }) := by
  unfold onHeap liftLedger
  rcases m s.vm.ledger with ⟨e | a, l⟩
  · exact .inr ⟨e, l, rfl⟩
  · exact .inl ⟨a, l, rfl⟩

/-- **Growing** appends empty registers and root slots, or the frame is as it was. -/
theorem growForOpenResults_spec (h : s.Sound P) (required : Nat) :
    (∃ l, s.frame.registerLimit < required
        ∧ growForOpenResults required s
          = (.ok (), { s with vm := { s.vm with ledger := l }, frame := { s.frame with
              registers := s.frame.registers
                ++ List.replicate (required - s.frame.registers.length) .nil
              roots := s.frame.roots ++ List.replicate (required - s.frame.roots.length) none
              registerLimit := required } })
        ∧ Execution.Sound P { s with vm := { s.vm with ledger := l }, frame := { s.frame with
              registers := s.frame.registers
                ++ List.replicate (required - s.frame.registers.length) .nil
              roots := s.frame.roots ++ List.replicate (required - s.frame.roots.length) none
              registerLimit := required } })
      ∨ ∃ r l, (r = .ok () → required ≤ s.frame.registerLimit)
        ∧ growForOpenResults required s = (r, { s with vm := { s.vm with ledger := l } }) := by
  unfold growForOpenResults
  rw [Prog.bind_apply_ok (Prog.get_apply s)]
  by_cases hfits : required ≤ s.frame.registerLimit
  · rw [if_pos hfits]
    exact .inr ⟨.ok (), s.vm.ledger, fun _ => hfits, rfl⟩
  rw [if_neg hfits]
  by_cases hmax : s.frame.maxRegisterLimit < required
  · rw [if_pos hmax]
    exact .inr ⟨.error .registerOutOfBounds, s.vm.ledger, nofun, rfl⟩
  rw [if_neg hmax]
  rcases onHeap_liftLedger (checkedBytes required valueSize) s with ⟨registerBytes, l₁, h₁⟩ | ⟨e, l₁, h₁⟩
  case inr => exact .inr ⟨.error (.heap e), l₁, nofun, Prog.bind_apply_error h₁⟩
  rw [Prog.bind_apply_ok h₁]
  rcases onHeap_liftLedger (checkedBytes required optionalRootSize)
    { s with vm := { s.vm with ledger := l₁ } } with ⟨rootBytes, l₂, h₂⟩ | ⟨e, l₂, h₂⟩
  case inr => exact .inr ⟨.error (.heap e), l₂, nofun, Prog.bind_apply_error h₂⟩
  rw [Prog.bind_apply_ok h₂]
  by_cases hover : usizeMax < registerBytes + rootBytes
  · rw [if_pos hover]
    exact .inr ⟨.error _, l₂, nofun, rfl⟩
  rw [if_neg hover]
  rcases onHeap_liftLedger (reserveVec required valueSize .frameRegistersReserve)
    { s with vm := { s.vm with ledger := l₂ } } with ⟨_, l₃, h₃⟩ | ⟨e, l₃, h₃⟩
  case inr => exact .inr ⟨.error (.heap e), l₃, nofun, Prog.bind_apply_error h₃⟩
  rw [Prog.bind_apply_ok h₃]
  rcases onHeap_liftLedger (reserveVec required optionalRootSize .frameRootsReserve)
    { s with vm := { s.vm with ledger := l₃ } } with ⟨_, l₄, h₄⟩ | ⟨e, l₄, h₄⟩
  case inr => exact .inr ⟨.error (.heap e), l₄, nofun, Prog.bind_apply_error h₄⟩
  rw [Prog.bind_apply_ok h₄]
  have hregisters : s.frame.registers.length ≤ required := by
    rw [h.registers]
    omega
  have hroots : s.frame.roots.length ≤ required := by
    rw [h.roots]
    omega
  refine .inl ⟨l₄, by omega, ?_, ?_⟩
  · rw [← resized_eq hregisters, ← resized_eq hroots]
    rfl
  · refine h.of_frame ⟨rfl, rfl, rfl, rfl⟩ rfl rfl ?_ ?_
      (show s.frame.registerLimit ≤ required by omega) rfl rfl ?_
    · simpa using Nat.add_sub_cancel' hregisters
    · simpa using Nat.add_sub_cancel' hroots
    · refine (h.tracks.ledger l₄).mono (List.Subset.refl _) (List.Perm.subperm ?_)
      have hgrown : (s.frame.roots ++ List.replicate (required - s.frame.roots.length) none).reduceOption
          = s.frame.roots.reduceOption := by
        rw [List.reduceOption_append, List.reduceOption_replicate_none, List.append_nil]
      refine List.Perm.append_left _ ?_
      refine (CallFrame.rootIds_perm _ .registers).trans (.trans ?_
        (s.frame.rootIds_perm .registers).symm)
      exact List.Perm.append_right _ (.of_eq hgrown)

end Registers

/-! ### Clearing and filling the root slots -/

section Roots

variable {P : List RootEntry} {s s' : Execution}

/-- The slots of a field are moved to the front. -/
theorem Execution.Sound.tracks_field (h : s.Sound P) (field : RootField) :
    s.vm.Tracks (P ++ s.frame.openRoots)
      ((s.frame.rootsOf field).reduceOption ++ (P.map RootEntry.id ++ s.frame.otherIds field)) := by
  refine h.tracks.mono (List.Subset.refl _) (List.Perm.subperm ?_)
  refine (List.perm_append_comm_assoc _ _ _).trans (List.Perm.append_left _ ?_)
  exact (s.frame.rootIds_perm field).symm

/-- The frame after the slots of a field got new roots. -/
theorem Execution.Sound.setRoots (h : s.Sound P) {field : RootField} {roots : List (Option RootId)}
    {vm' : Vm} (hlength : roots.length = (s.frame.rootsOf field).length)
    (hsame : s.vm.SameObjects vm') {K : List RootEntry}
    (htracks : vm'.Tracks K (roots.reduceOption ++ (P.map RootEntry.id ++ s.frame.otherIds field)))
    (hK : P ++ (s.frame.setRoots field roots).openRoots ⊆ K) :
    Execution.Sound P { s with vm := vm', frame := s.frame.setRoots field roots }
      ∧ s.Reroots { s with vm := vm', frame := s.frame.setRoots field roots } := by
  have hreroots : s.Reroots { s with vm := vm', frame := s.frame.setRoots field roots } :=
    ⟨hsame, rfl, rfl, s.frame.unrooted_setRoots hlength⟩
  refine ⟨h.reroots hreroots (htracks.mono hK (List.Perm.subperm ?_)), hreroots⟩
  refine (List.Perm.append_left _ (s.frame.rootIds_setRoots hlength)).trans ?_
  exact List.perm_append_comm_assoc _ _ _

/-- **The slots of a field are cleared.** -/
theorem clearField_spec (h : s.Sound P) (field : RootField) :
    ∃ s', clearField field s = (.ok (), s') ∧ s'.Sound P ∧ s.Reroots s' := by
  have hlength : ((s.frame.rootsOf field).map fun _ => (none : Option RootId)).length
      = (s.frame.rootsOf field).length := List.length_map _
  -- the roots that stay in use are in the other fields
  have hkept : P ++ (s.frame.setRoots field
        ((s.frame.rootsOf field).map fun _ => none)).openRoots ⊆ P ++ s.frame.openRoots
      ∧ ∀ k ∈ P ++ (s.frame.setRoots field ((s.frame.rootsOf field).map fun _ => none)).openRoots,
        k.id ∈ P.map RootEntry.id ++ s.frame.otherIds field := by
    by_cases hfield : field = .openUpvalues
    · subst hfield
      have hnone : (s.frame.setRoots .openUpvalues
          ((s.frame.rootsOf .openUpvalues).map fun _ => none)).openRoots = [] := by
        refine List.filterMap_eq_nil_iff.mpr fun e he => ?_
        have hroot : e.root ∈ (s.frame.setRoots .openUpvalues
            ((s.frame.rootsOf .openUpvalues).map fun _ => none)).rootsOf .openUpvalues :=
          List.mem_map_of_mem he
        rw [s.frame.rootsOf_setRoots hlength, if_pos rfl] at hroot
        obtain ⟨-, -, hroot⟩ := List.mem_map.mp hroot
        unfold OpenUpvalue.entry?
        rw [← hroot]
        rfl
      rw [hnone, List.append_nil]
      exact ⟨List.subset_append_left _ _, fun k hk =>
        List.mem_append_left _ (List.mem_map_of_mem hk)⟩
    · have hopen : (s.frame.setRoots field ((s.frame.rootsOf field).map fun _ => none)).openRoots
          = s.frame.openRoots :=
        congrArg (List.filterMap OpenUpvalue.entry?) (CallFrame.openUpvalues_setRoots hfield _)
      rw [hopen]
      exact ⟨List.Subset.refl _, fun k hk => CallFrame.kept_ids_other hfield hk⟩
  have hfield := (h.tracks_field field).mono hkept.1 (.refl _)
  obtain ⟨vm', hrun, htracks, hsame⟩ := clearSlots_spec field.takes (s.frame.rootsOf field) s.vm hfield
    fun k hk hmem => (List.nodup_append.mp hfield.nodup).2.2 _ hmem _ (hkept.2 k hk) rfl
  have hnil : ((s.frame.rootsOf field).map fun _ => (none : Option RootId)).reduceOption = [] := by
    rw [List.map_const', List.reduceOption_replicate_none]
  obtain ⟨hsound, hreroots⟩ := h.setRoots hlength hsame (K := P ++ (s.frame.setRoots field
    ((s.frame.rootsOf field).map fun _ => none)).openRoots)
    (by rw [hnil]; exact htracks) (List.Subset.refl _)
  refine ⟨_, ?_, hsound, hreroots⟩
  rw [clearField, hrun]
  rfl

/-- The list with its own roots. -/
theorem zipWith_root (es : List OpenUpvalue) :
    es.zipWith (fun e root => { e with root := root }) (es.map OpenUpvalue.root) = es := by
  induction es with
  | nil => rfl
  | cons e es ih => rw [List.map_cons, List.zipWith_cons_cons, ih]

/-- Filled slots hold roots that are in use. -/
theorem Refilled.openRoots {N : List RootEntry} {r : Except VmError Unit} :
    ∀ {es : List OpenUpvalue} {roots' : List (Option RootId)},
      Refilled .temporary N r (es.map fun e => some e.object) (es.map OpenUpvalue.root) roots' →
      (es.zipWith (fun e root => { e with root := root }) roots').filterMap OpenUpvalue.entry?
          ⊆ N ++ es.filterMap OpenUpvalue.entry?
        ∧ (r = .ok () → ∀ e ∈ es.zipWith (fun e root => { e with root := root }) roots',
          e.root ≠ none)
  | [], _, _ => by simp
  | e :: es, _, h => by
    cases h with
    | done hend => exact absurd hend (by simp)
    | stop err _ _ =>
      rw [zipWith_root]
      exact ⟨List.subset_append_right _ _, nofun⟩
    | @fill _ _ _ id _ _ roots' hnew h =>
      obtain ⟨hsub, hrooted⟩ := h.openRoots
      rw [List.zipWith_cons_cons]
      refine ⟨fun k hk => ?_, fun hok e' he' => ?_⟩
      · rw [List.filterMap_cons_some (show OpenUpvalue.entry? ⟨e.slot, e.object, some id⟩
          = some ⟨id, .temporary, e.object, none⟩ from rfl)] at hk
        rcases List.mem_cons.mp hk with rfl | hk
        · exact List.mem_append_left _ hnew
        · rcases List.mem_append.mp (hsub hk) with hk | hk
          · exact List.mem_append_left _ hk
          · obtain ⟨e', he', hentry⟩ := List.mem_filterMap.mp hk
            exact List.mem_append_right _ (List.mem_filterMap.mpr ⟨e', List.mem_cons_of_mem _ he', hentry⟩)
      · rcases List.mem_cons.mp he' with rfl | he'
        · exact nofun
        · exact hrooted hok e' he'

/-- **The slots of a field are filled**, or some of them. -/
theorem fillField_spec (h : s.Sound P) (field : RootField) :
    ∃ r s', fillField field s = (r, s') ∧ s'.Sound P ∧ s.Reroots s'
      ∧ (r = .ok () → field = .openUpvalues ∨ s.frame.Rooted → s'.frame.Rooted) := by
  obtain ⟨r, roots', N, vm', hrun, htracks, hrefilled, hsame⟩ := fillSlots_spec field.kind
    (s.frame.objectsOf field) (s.frame.rootsOf field) _ _ s.vm (h.tracks_field field)
  have hopen : P ++ (s.frame.setRoots field roots').openRoots ⊆ N ++ (P ++ s.frame.openRoots)
      ∧ (r = .ok () → field = .openUpvalues ∨ s.frame.Rooted
        → (s.frame.setRoots field roots').Rooted) := by
    by_cases hfield : field = .openUpvalues
    · subst hfield
      obtain ⟨hsub, hrooted⟩ := hrefilled.openRoots
      refine ⟨List.append_subset.mpr ⟨?_, fun k hk => ?_⟩, fun hok _ => hrooted hok⟩
      · exact List.subset_append_of_subset_right _ (List.subset_append_left _ _)
      · rcases List.mem_append.mp (hsub hk) with hk | hk
        · exact List.mem_append_left _ hk
        · exact List.mem_append_right _ (List.mem_append_right _ hk)
    · have heq := CallFrame.openUpvalues_setRoots (f := s.frame) hfield roots'
      unfold CallFrame.openRoots CallFrame.Rooted
      rw [heq]
      exact ⟨List.subset_append_right _ _, fun _ hrooted => hrooted.resolve_left hfield⟩
  obtain ⟨hsound, hreroots⟩ := h.setRoots hrefilled.length hsame htracks hopen.1
  refine ⟨r.mapError .heap, _, ?_, hsound, hreroots, fun hok => hopen.2 ?_⟩
  · rw [fillField, hrun]
  · cases r with
    | ok _ => rfl
    | error e => cases hok

theorem clearFields_spec : ∀ (fields : List RootField) (s : Execution), s.Sound P →
    ∃ s', fields.forM clearField s = (.ok (), s') ∧ s'.Sound P ∧ s.Reroots s'
  | [], s, h => ⟨s, rfl, h, .refl s⟩
  | field :: fields, s, h => by
    obtain ⟨s₁, hrun₁, h₁, hreroots₁⟩ := clearField_spec h field
    obtain ⟨s', hrun, h', hreroots⟩ := clearFields_spec fields s₁ h₁
    exact ⟨s', (Prog.bind_apply_ok hrun₁).trans hrun, h', hreroots₁.trans hreroots⟩

theorem fillFields_spec : ∀ (fields : List RootField) (s : Execution), s.Sound P →
    ∃ r s', fields.forM fillField s = (r, s') ∧ s'.Sound P ∧ s.Reroots s'
      ∧ (r = .ok () → .openUpvalues ∈ fields ∨ s.frame.Rooted → s'.frame.Rooted)
  | [], s, h => ⟨.ok (), s, rfl, h, .refl s, fun _ hor => hor.resolve_left nofun⟩
  | field :: fields, s, h => by
    obtain ⟨r₁, s₁, hrun₁, h₁, hreroots₁, hrooted₁⟩ := fillField_spec h field
    cases r₁ with
    | error e => exact ⟨.error e, s₁, Prog.bind_apply_error hrun₁, h₁, hreroots₁, nofun⟩
    | ok _ =>
      obtain ⟨r, s', hrun, h', hreroots, hrooted⟩ := fillFields_spec fields s₁ h₁
      refine ⟨r, s', (Prog.bind_apply_ok hrun₁).trans hrun, h', hreroots₁.trans hreroots,
        fun hok hor => hrooted hok ?_⟩
      rcases hor with hmem | hrooted
      · rcases List.mem_cons.mp hmem with heq | hmem
        · exact .inr (hrooted₁ rfl (.inl heq.symm))
        · exact .inl hmem
      · exact .inr (hrooted₁ rfl (.inr hrooted))

/-- **Parking** removes the roots of the frame, and nothing else. -/
theorem parkRoots_spec (h : s.Sound P) :
    ∃ s', parkRoots s = (.ok (), s') ∧ s'.Sound P ∧ s.Reroots s' := by
  obtain ⟨s₁, hrun₁, h₁, hreroots₁⟩ := clearFields_spec _ s h
  obtain ⟨s', hrun, h', hreroots⟩ := clearField_spec h₁ .openUpvalues
  exact ⟨s', (Prog.bind_apply_ok hrun₁).trans hrun, h', hreroots₁.trans hreroots⟩

/-- **Restoring** gives every open upvalue its root again; if it fails, the frame is parked. -/
theorem restoreRoots_spec (h : s.Sound P) :
    ∃ r s', restoreRoots s = (r, s') ∧ s'.Sound P ∧ s.Reroots s'
      ∧ (r = .ok () → s'.frame.Rooted) := by
  obtain ⟨r, s₁, hrun₁, h₁, hreroots₁, hrooted₁⟩ := fillFields_spec
    [.closure, .registers, .varargs, .debugVarargTable, .openUpvalues, .closeEntries] s h
  cases r with
  | ok _ =>
    exact ⟨.ok (), s₁, Prog.onError_apply_ok hrun₁, h₁, hreroots₁,
      fun _ => hrooted₁ rfl (.inl (by decide))⟩
  | error e =>
    obtain ⟨s', hrun, h', hreroots⟩ := parkRoots_spec h₁
    exact ⟨.error e, s', Prog.onError_apply_error hrun₁ hrun, h', hreroots₁.trans hreroots, nofun⟩

end Roots

end RivetLua.Runtime
