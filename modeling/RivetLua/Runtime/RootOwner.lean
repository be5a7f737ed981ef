import RivetLua.Runtime.PendingOp

namespace RivetLua.Runtime

open RivetLua.Core StateProg

/-!
# Runtime — states that own roots

* `Owner` — how a state owns roots: the identities it holds, the state without them, the
  objects it restores roots for, and whether its root arrays have their size;
* `Owner.Clears` — a method that removes exactly the roots a state holds and always
  succeeds; `Owner.Restores` — a method that adds one root for each object of a state, and on
  an error holds the roots it has added so far; `Owner.Parks` — both;
* `slot_parks`, `slots_parks` — root slots; `Owner.Parks.option`, `prod`, `lift`, `pair`,
  `list` — states built from states.
-/

/-- How a state owns roots. -/
structure Owner (S : Type) where
  rootIds : S → List RootId
  unrooted : S → S
  objects : S → List ObjectRef
  shaped : S → Prop

variable {S T : Type}

/-- `clear` removes the roots of a state and leaves its data. -/
def Owner.Clears (o : Owner S) (clear : RootM S Unit) : Prop :=
  ∀ ⦃s : S⦄ ⦃vm : Vm⦄ ⦃E A : List RootEntry⦄, o.shaped s → E.map RootEntry.id = o.rootIds s →
    vm.Registered (E ++ A) →
    ∃ vm', clear (s, vm) = (.ok (), (o.unrooted s, vm')) ∧ vm'.Registered A

/-- The outcome of restoring `s` beside the registrations `A`. -/
def Owner.Restored (o : Owner S) (s : S) (A : List RootEntry)
    (res : Except VmError Unit × S × Vm) : Prop :=
  (∃ s' vm' E, res = (.ok (), s', vm') ∧ o.shaped s' ∧ E.map RootEntry.id = o.rootIds s' ∧
    (E.map RootEntry.object).Perm (o.objects s) ∧ vm'.Registered (E ++ A) ∧
    o.unrooted s' = s) ∨
  (∃ e s' vm' E, res = (.error e, s', vm') ∧ o.shaped s' ∧ E.map RootEntry.id = o.rootIds s' ∧
    vm'.Registered (E ++ A))

/-- What `restore` does to a state without roots: it adds a root for each of its objects, or
    stops with the roots it has added so far. -/
def Owner.Restores (o : Owner S) (restore : RootM S Unit) : Prop :=
  ∀ ⦃s : S⦄ ⦃vm : Vm⦄ ⦃A : List RootEntry⦄, o.unrooted s = s → vm.Registered A →
    o.Restored s A (restore (s, vm))

/-- A clean-up that may run with any roots held: it succeeds, and what is held stays
    registered. -/
def Owner.Tidies (o : Owner S) (tidy : RootM S Unit) : Prop :=
  ∀ ⦃s : S⦄ ⦃vm : Vm⦄ ⦃E A : List RootEntry⦄, o.shaped s → E.map RootEntry.id = o.rootIds s →
    vm.Registered (E ++ A) →
    ∃ s' vm' E', tidy (s, vm) = (.ok (), s', vm') ∧ o.shaped s' ∧
      E'.map RootEntry.id = o.rootIds s' ∧ vm'.Registered (E' ++ A)

/-- A state with its two methods. -/
structure Owner.Parks (o : Owner S) (clear restore : RootM S Unit) : Prop where
  clears : o.Clears clear
  restores : o.Restores restore
  ids : ∀ s, o.rootIds (o.unrooted s) = []
  shape : ∀ s, o.shaped (o.unrooted s)
  idem : ∀ s, o.unrooted (o.unrooted s) = o.unrooted s
  objects : ∀ s, o.objects (o.unrooted s) = o.objects s

theorem Vm.Registered.perm {A B : List RootEntry} {vm : Vm} (h : vm.Registered A)
    (hperm : A.Perm B) : vm.Registered B :=
  ⟨h.1, h.2.trans hperm⟩

/-! ### Root slots -/

/-- One slot beside a value. -/
def Owner.slot (value : Value) : Owner (Option RootId) where
  rootIds := Option.toList
  unrooted := fun _ => none
  objects := fun _ => valueRefs [value]
  shaped := fun _ => True

theorem takeRoot_clears (value : Value) : (Owner.slot value).Clears takeRoot := by
  intro root vm E A _ hE hreg
  cases root with
  | none =>
    obtain rfl : E = [] := by simpa [Owner.slot] using hE
    exact ⟨vm, rfl, hreg⟩
  | some id =>
    obtain ⟨e, rfl, rfl⟩ : ∃ e, E = [e] ∧ e.id = id := List.map_eq_singleton_iff.mp hE
    have h := removeRoot_spec e A vm hreg
    rcases hr : removeRoot e.id vm with ⟨_ | o, vm'⟩
    · rw [hr] at h
      exact h.elim
    · rw [hr] at h
      exact ⟨vm', by simp [takeRoot, hr, Owner.slot], h.2⟩

theorem fillRoot_restores (keep : Bool) (value : Value) :
    (Owner.slot value).Restores (fillRoot keep value) := by
  intro root vm A hroot hreg
  obtain rfl : none = root := hroot
  unfold fillRoot
  cases hv : value.objectRef? with
  | none =>
    exact .inl ⟨none, vm, [], by simp, trivial, rfl, by simp [Owner.slot, valueRefs, hv], hreg, rfl⟩
  | some object =>
    simp only [Option.isSome_none, Bool.and_false, Bool.not_false, Option.filter_some, if_true]
    have h := addRoot_spec .temporary object A vm hreg
    rcases hr : addRoot .temporary object vm with ⟨e | id, vm'⟩
    · rw [hr] at h
      exact .inr ⟨e, none, vm', [], rfl, trivial, rfl, h⟩
    · rw [hr] at h
      exact .inl ⟨some id, vm', [⟨id, .temporary, object, none⟩], rfl, trivial, rfl,
        by simp [Owner.slot, valueRefs, hv], h, rfl⟩

theorem slot_parks (keep : Bool) (value : Value) :
    (Owner.slot value).Parks takeRoot (fillRoot keep value) :=
  ⟨takeRoot_clears value, fillRoot_restores keep value, fun _ => rfl, fun _ => trivial,
    fun _ => rfl, fun _ => rfl⟩

/-- An array of slots beside an array of values. -/
def Owner.slots (values : List Value) : Owner (List (Option RootId)) where
  rootIds := fun roots => roots.flatMap Option.toList
  unrooted := fun _ => values.map fun _ => none
  objects := fun _ => valueRefs values
  shaped := fun roots => roots.length = values.length

theorem takeRoots_clears (values : List Value) : (Owner.slots values).Clears takeRoots := by
  intro roots
  induction roots generalizing values with
  | nil =>
    intro vm E A hlen hE hreg
    obtain rfl : E = [] := by simpa [Owner.slots] using hE
    obtain rfl : values = [] := List.length_eq_zero_iff.mp (Eq.symm hlen)
    exact ⟨vm, rfl, hreg⟩
  | cons root rest ih =>
    intro vm E A hlen hE hreg
    cases values with
    | nil => exact absurd hlen (by simp [Owner.slots])
    | cons value values =>
      obtain ⟨E₁, E₂, rfl, h₁, h₂⟩ := List.map_eq_append_iff.mp (hE.trans List.flatMap_cons)
      -- the rest is cleared first, then the slot itself
      have hswap : vm.Registered (E₂ ++ (E₁ ++ A)) := by
        refine hreg.perm ?_
        rw [List.append_assoc]
        exact (List.perm_append_comm_assoc E₁ E₂ A)
      have hlen' : rest.length = values.length := by simpa [Owner.slots] using hlen
      obtain ⟨vm₁, hrest, hreg₁⟩ := ih values hlen' h₂ hswap
      obtain ⟨vm₂, hslot, hreg₂⟩ := takeRoot_clears value trivial h₁ hreg₁
      refine ⟨vm₂, ?_, hreg₂⟩
      have hrest' : takeRootList rest vm = (.ok (), values.map fun _ => none, vm₁) := hrest
      simp [takeRoots, takeRootList, hrest', hslot, Owner.slots, Owner.slot]

theorem fillRoots_restores (keep : Bool) (values : List Value) :
    (Owner.slots values).Restores (fillRoots keep values) := by
  induction values with
  | nil =>
    intro roots vm A hroots hreg
    obtain rfl : [] = roots := hroots
    exact .inl ⟨[], vm, [], rfl, rfl, rfl, by simp [Owner.slots, valueRefs], hreg, rfl⟩
  | cons value values ih =>
    intro roots vm A hroots hreg
    obtain rfl : none :: (values.map fun _ => none) = roots := hroots
    have hlen : ∀ l : List (Option RootId), l.length = values.length →
        ∀ r, (Owner.slots (value :: values)).shaped (r :: l) := by
      intro l hl r
      simp [Owner.slots, hl]
    simp only [fillRoots]
    rcases fillRoot_restores keep value (s := none) rfl hreg with
      ⟨r, vm₁, E₁, hr, -, hid₁, hob₁, hreg₁, -⟩ | ⟨e, r, vm₁, E₁, hr, -, hid₁, hreg₁⟩
    · rw [hr]
      simp only
      rcases ih (s := values.map fun _ => none) rfl hreg₁ with
        ⟨rest, vm₂, E₂, hrest, hsh, hid₂, hob₂, hreg₂, -⟩ | ⟨e, rest, vm₂, E₂, hrest, hsh, hid₂, hreg₂⟩
      · rw [hrest]
        refine .inl ⟨r :: rest, vm₂, E₁ ++ E₂, rfl, hlen rest hsh r, ?_, ?_, ?_, rfl⟩
        · rw [List.map_append, hid₁, hid₂]
          rfl
        · have : valueRefs (value :: values) = valueRefs [value] ++ valueRefs values := by
            rw [← List.singleton_append]
            exact List.filterMap_append
          simp only [Owner.slots, this, List.map_append]
          exact hob₁.append hob₂
        · refine hreg₂.perm ?_
          rw [List.append_assoc]
          exact List.perm_append_comm_assoc E₂ E₁ A
      · rw [hrest]
        refine .inr ⟨e, r :: rest, vm₂, E₁ ++ E₂, rfl, hlen rest hsh r, ?_, ?_⟩
        · rw [List.map_append, hid₁, hid₂]
          rfl
        · refine hreg₂.perm ?_
          rw [List.append_assoc]
          exact List.perm_append_comm_assoc E₂ E₁ A
    · rw [hr]
      refine .inr ⟨e, r :: values.map fun _ => none, vm₁, E₁, rfl, hlen _ (by simp) r, ?_, hreg₁⟩
      rw [hid₁]
      simp [Owner.slots, Owner.slot]

theorem slots_parks (keep : Bool) (values : List Value) :
    (Owner.slots values).Parks takeRoots (fillRoots keep values) where
  clears := takeRoots_clears values
  restores := fillRoots_restores keep values
  ids := fun _ => by simp [Owner.slots]
  shape := fun _ => by simp [Owner.slots]
  idem := fun _ => rfl
  objects := fun _ => rfl

/-! ### Clean-up on errors -/

theorem Owner.Parks.tidies {o : Owner S} {clear restore : RootM S Unit} (h : o.Parks clear restore) :
    o.Tidies clear := by
  intro s vm E A hs hE hreg
  obtain ⟨vm', hrun, hreg'⟩ := h.clears hs hE hreg
  exact ⟨o.unrooted s, vm', [], hrun, h.shape s, (h.ids s).symm, hreg'⟩

theorem Owner.tidies_pure (o : Owner S) : o.Tidies (pure ()) := by
  intro s vm E A hs hE hreg
  exact ⟨s, vm, E, rfl, hs, hE, hreg⟩

/-- A clean-up after a failed restore. -/
theorem Owner.Restores.onError {o : Owner S} {restore tidy : RootM S Unit}
    (h : o.Restores restore) (ht : o.Tidies tidy) : o.Restores (Prog.onError restore tidy) := by
  intro s vm A hs hreg
  rcases h hs hreg with ⟨s', vm', E, hrun, hrest⟩ | ⟨e, s', vm', E, hrun, hsh, hid, hreg'⟩
  · exact .inl ⟨s', vm', E, Prog.onError_apply_ok hrun, hrest⟩
  · obtain ⟨s'', vm'', E', hrun', hsh', hid', hreg''⟩ := ht hsh hid hreg'
    exact .inr ⟨e, s'', vm'', E', Prog.onError_apply_error hrun hrun', hsh', hid', hreg''⟩

theorem Owner.Parks.onError {o : Owner S} {clear restore : RootM S Unit}
    (h : o.Parks clear restore) : o.Parks clear (Prog.onError restore clear) :=
  { h with restores := h.restores.onError h.tidies }

/-- A clean-up of the whole state after a first part that fails. -/
theorem Owner.Restores.onError_bind {o : Owner S} (m₁ m₂ : S → RootM S Unit) {tidy : RootM S Unit}
    (h : o.Restores fun s => (m₁ s.1 >>= fun _ => m₂ s.1) s) (ht : o.Tidies tidy) :
    o.Restores fun s => (Prog.onError (m₁ s.1) tidy >>= fun _ => m₂ s.1) s := by
  intro s vm A hs hreg
  have hrest := h hs hreg
  rcases hm : m₁ s (s, vm) with ⟨e | _, s₁, vm₁⟩
  · have hfail : (m₁ s >>= fun _ => m₂ s) (s, vm) = (.error e, s₁, vm₁) := Prog.bind_apply_error hm
    rcases hrest with ⟨s', vm', E, hrun, -⟩ | ⟨e', s', vm', E, hrun, hsh, hid, hreg'⟩
    · exact absurd (hfail.symm.trans hrun) (by simp)
    · obtain ⟨rfl, rfl, rfl⟩ : e = e' ∧ s₁ = s' ∧ vm₁ = vm' := by
        simpa using hfail.symm.trans hrun
      obtain ⟨s₂, vm₂, E₂, hrun₂, hsh₂, hid₂, hreg₂⟩ := ht hsh hid hreg'
      exact .inr ⟨e, s₂, vm₂, E₂, Prog.bind_apply_error (Prog.onError_apply_error hm hrun₂), hsh₂,
        hid₂, hreg₂⟩
  · have hok : (Prog.onError (m₁ s) tidy >>= fun _ => m₂ s) (s, vm)
        = (m₁ s >>= fun _ => m₂ s) (s, vm) :=
      (Prog.bind_apply_ok (Prog.onError_apply_ok hm)).trans
        (Prog.bind_apply_ok (f := fun _ => m₂ s) hm).symm
    simp only [hok]
    exact hrest

/-! ### Options, pairs, lists and fields -/

/-- A state that may be absent. -/
def Owner.option (o : Owner S) : Owner (Option S) where
  rootIds := fun s => (s.map o.rootIds).getD []
  unrooted := Option.map o.unrooted
  objects := fun s => (s.map o.objects).getD []
  shaped := fun s => ∀ x ∈ s, o.shaped x

theorem Owner.Parks.option {o : Owner S} {clear restore : RootM S Unit}
    (h : o.Parks clear restore) : o.option.Parks (onOption clear) (onOption restore) where
  clears := by
    intro s vm E A hs hE hreg
    cases s with
    | none =>
      obtain rfl : E = [] := by simpa [Owner.option] using hE
      exact ⟨vm, rfl, hreg⟩
    | some x =>
      obtain ⟨vm', hrun, hreg'⟩ := h.clears (hs x rfl) hE hreg
      exact ⟨vm', by simp [onOption, hrun, Owner.option], hreg'⟩
  restores := by
    intro s vm A hs hreg
    cases s with
    | none =>
      exact .inl ⟨none, vm, [], rfl, by simp [Owner.option], rfl, by simp [Owner.option], hreg, rfl⟩
    | some x =>
      have hx : o.unrooted x = x := by simpa [Owner.option] using hs
      rcases h.restores hx hreg with ⟨x', vm', E, hrun, hsh, hid, hob, hreg', hun⟩ |
        ⟨e, x', vm', E, hrun, hsh, hid, hreg'⟩
      · exact .inl ⟨some x', vm', E, by simp [onOption, hrun], by simpa [Owner.option] using hsh,
          hid, hob, hreg', by simp [Owner.option, hun]⟩
      · exact .inr ⟨e, some x', vm', E, by simp [onOption, hrun],
          by simpa [Owner.option] using hsh, hid, hreg'⟩
  ids := fun s => by cases s <;> simp [Owner.option, h.ids]
  shape := fun s => by cases s <;> simp [Owner.option, h.shape]
  idem := fun s => by cases s <;> simp [Owner.option, h.idem]
  objects := fun s => by cases s <;> simp [Owner.option, h.objects]

/-- Two states side by side. -/
def Owner.prod (o₁ : Owner S) (o₂ : Owner T) : Owner (S × T) where
  rootIds := fun s => o₁.rootIds s.1 ++ o₂.rootIds s.2
  unrooted := fun s => (o₁.unrooted s.1, o₂.unrooted s.2)
  objects := fun s => o₁.objects s.1 ++ o₂.objects s.2
  shaped := fun s => o₁.shaped s.1 ∧ o₂.shaped s.2

/-- Run a method on the first component. -/
def onFst (m : RootM S Unit) : RootM (S × T) Unit := onField Prod.fst (fun s a => (a, s.2)) m

/-- Run a method on the second component. -/
def onSnd (m : RootM T Unit) : RootM (S × T) Unit := onField Prod.snd (fun s b => (s.1, b)) m

theorem onField_apply {view : S → T} {update : S → T → S} {m : RootM T Unit} {s : S} {vm vm' : Vm}
    {r : Except VmError Unit} {t : T} (h : m (view s, vm) = (r, t, vm')) :
    onField view update m (s, vm) = (r, update s t, vm') := by
  simp only [onField, Prog.focus, h]

theorem onFst_apply {m : RootM S Unit} {s : S × T} {vm vm' : Vm} {r : Except VmError Unit} {a : S}
    (h : m (s.1, vm) = (r, a, vm')) : onFst m (s, vm) = (r, (a, s.2), vm') :=
  onField_apply h

theorem onSnd_apply {m : RootM T Unit} {s : S × T} {vm vm' : Vm} {r : Except VmError Unit} {b : T}
    (h : m (s.2, vm) = (r, b, vm')) : onSnd m (s, vm) = (r, (s.1, b), vm') :=
  onField_apply h

section Prod

variable {o₁ : Owner S} {o₂ : Owner T} {c₁ r₁ : RootM S Unit} {c₂ r₂ : RootM T Unit}

theorem registered_swap {E₁ E₂ A : List RootEntry} {vm : Vm} (h : vm.Registered (E₁ ++ E₂ ++ A)) :
    vm.Registered (E₂ ++ (E₁ ++ A)) := by
  refine h.perm ?_
  rw [List.append_assoc]
  exact List.perm_append_comm_assoc E₁ E₂ A

/-- Clearing two states, the second one first. -/
theorem Owner.Clears.prod (h₁ : o₁.Clears c₁) (h₂ : o₂.Clears c₂) :
    (o₁.prod o₂).Clears (do onSnd c₂; onFst c₁) := by
  intro s vm E A hs hE hreg
  obtain ⟨E₁, E₂, rfl, hE₁, hE₂⟩ := List.map_eq_append_iff.mp hE
  obtain ⟨vm₁, hrun₁, hreg₁⟩ := h₂ hs.2 hE₂ (registered_swap hreg)
  obtain ⟨vm₂, hrun₂, hreg₂⟩ := h₁ hs.1 hE₁ hreg₁
  exact ⟨vm₂, (Prog.bind_apply_ok (onSnd_apply hrun₁)).trans (onFst_apply hrun₂), hreg₂⟩

/-- Clearing the first of two states only. -/
theorem Owner.Parks.tidies_fst (h₁ : o₁.Parks c₁ r₁) : (o₁.prod o₂).Tidies (onFst c₁) := by
  intro s vm E A hs hE hreg
  obtain ⟨E₁, E₂, rfl, hE₁, hE₂⟩ := List.map_eq_append_iff.mp hE
  rw [List.append_assoc] at hreg
  obtain ⟨vm₁, hrun₁, hreg₁⟩ := h₁.clears hs.1 hE₁ hreg
  refine ⟨_, vm₁, E₂, onFst_apply hrun₁, ⟨h₁.shape _, hs.2⟩, ?_, hreg₁⟩
  simp [Owner.prod, h₁.ids, hE₂]

/-- Restoring the second of two states, the first one already rooted. -/
theorem Owner.Restores.snd (h₂ : o₂.Restores r₂) {s : S × T} {vm : Vm} {E₁ A : List RootEntry}
    (hs₁ : o₁.shaped s.1) (hE₁ : E₁.map RootEntry.id = o₁.rootIds s.1)
    (hs₂ : o₂.unrooted s.2 = s.2) (hreg : vm.Registered (E₁ ++ A)) :
    (∃ b vm' E₂, onSnd r₂ (s, vm) = (.ok (), (s.1, b), vm') ∧ o₂.shaped b ∧
      (E₁ ++ E₂).map RootEntry.id = (o₁.prod o₂).rootIds (s.1, b) ∧
      (E₂.map RootEntry.object).Perm (o₂.objects s.2) ∧
      vm'.Registered (E₁ ++ E₂ ++ A) ∧ o₂.unrooted b = s.2) ∨
    (∃ e b vm' E, onSnd r₂ (s, vm) = (.error e, (s.1, b), vm') ∧
      (o₁.prod o₂).shaped (s.1, b) ∧ E.map RootEntry.id = (o₁.prod o₂).rootIds (s.1, b) ∧
      vm'.Registered (E ++ A)) := by
  have hback : ∀ {E₂ : List RootEntry} {vm' : Vm}, vm'.Registered (E₂ ++ (E₁ ++ A)) →
      vm'.Registered (E₁ ++ E₂ ++ A) := by
    intro E₂ vm' h
    refine h.perm ?_
    rw [List.append_assoc]
    exact List.perm_append_comm_assoc E₂ E₁ A
  have hids : ∀ {E₂ : List RootEntry} {b : T}, E₂.map RootEntry.id = o₂.rootIds b →
      (E₁ ++ E₂).map RootEntry.id = (o₁.prod o₂).rootIds (s.1, b) := by
    intro E₂ b h
    rw [List.map_append, hE₁, h]
    rfl
  rcases h₂ hs₂ hreg with ⟨b, vm₂, E₂, hrun₂, hsh₂, hid₂, hob₂, hreg₂, hun₂⟩ |
    ⟨e, b, vm₂, E₂, hrun₂, hsh₂, hid₂, hreg₂⟩
  · exact .inl ⟨b, vm₂, E₂, onSnd_apply hrun₂, hsh₂, hids hid₂, hob₂, hback hreg₂, hun₂⟩
  · exact .inr ⟨e, b, vm₂, E₁ ++ E₂, onSnd_apply hrun₂, ⟨hs₁, hsh₂⟩, hids hid₂, hback hreg₂⟩

/-- Restoring two states, the first one first; `tidy` runs when the second one fails. -/
theorem Owner.Parks.restores_prod (h₁ : o₁.Parks c₁ r₁) (h₂ : o₂.Parks c₂ r₂)
    {tidy : RootM (S × T) Unit} (ht : (o₁.prod o₂).Tidies tidy) :
    (o₁.prod o₂).Restores (do onFst r₁; Prog.onError (onSnd r₂) tidy) := by
  intro s vm A hs hreg
  obtain ⟨hs₁, hs₂⟩ : o₁.unrooted s.1 = s.1 ∧ o₂.unrooted s.2 = s.2 := by
    simpa [Owner.prod, Prod.ext_iff] using hs
  rcases h₁.restores hs₁ hreg with ⟨a, vm₁, E₁, hrun₁, hsh₁, hid₁, hob₁, hreg₁, hun₁⟩ |
    ⟨e, a, vm₁, E₁, hrun₁, hsh₁, hid₁, hreg₁⟩
  · have hfst := Prog.bind_apply_ok (f := fun _ => Prog.onError (onSnd r₂) tidy)
      (onFst_apply (s := s) hrun₁)
    rcases h₂.restores.snd (s := (a, s.2)) hsh₁ hid₁ hs₂ hreg₁ with
      ⟨b, vm₂, E₂, hrun₂, hsh₂, hids, hob₂, hreg₂, hun₂⟩ | ⟨e, b, vm₂, E, hrun₂, hsh₂, hids, hreg₂⟩
    · refine .inl ⟨(a, b), vm₂, E₁ ++ E₂, hfst.trans (Prog.onError_apply_ok hrun₂), ⟨hsh₁, hsh₂⟩,
        hids, ?_, hreg₂, Prod.ext hun₁ hun₂⟩
      rw [List.map_append]
      exact hob₁.append hob₂
    · obtain ⟨s', vm₃, E', hrun₃, hsh₃, hids₃, hreg₃⟩ := ht hsh₂ hids hreg₂
      exact .inr ⟨e, s', vm₃, E', hfst.trans (Prog.onError_apply_error hrun₂ hrun₃), hsh₃, hids₃,
        hreg₃⟩
  · refine .inr ⟨e, (a, s.2), vm₁, E₁, Prog.bind_apply_error (onFst_apply hrun₁),
      ⟨hsh₁, hs₂ ▸ h₂.shape s.2⟩, ?_, hreg₁⟩
    have : o₂.rootIds s.2 = [] := hs₂ ▸ h₂.ids s.2
    simp [Owner.prod, hid₁, this]

/-- Two states whose second one is cleared first and restored last. -/
theorem Owner.Parks.prod (h₁ : o₁.Parks c₁ r₁) (h₂ : o₂.Parks c₂ r₂)
    {tidy : RootM (S × T) Unit} (ht : (o₁.prod o₂).Tidies tidy) :
    (o₁.prod o₂).Parks (do onSnd c₂; onFst c₁) (do onFst r₁; Prog.onError (onSnd r₂) tidy) where
  clears := h₁.clears.prod h₂.clears
  restores := h₁.restores_prod h₂ ht
  ids := fun s => by simp [Owner.prod, h₁.ids, h₂.ids]
  shape := fun s => ⟨h₁.shape _, h₂.shape _⟩
  idem := fun s => Prod.ext (h₁.idem _) (h₂.idem _)
  objects := fun s => by simp [Owner.prod, h₁.objects, h₂.objects]

end Prod

section Field

variable {view : S → T} {update : S → T → S}

/-- A state that owns the roots of one of its fields; the values beside them are elsewhere in
    the state. -/
def Owner.lift (view : S → T) (update : S → T → S) (o : S → Owner T) : Owner S where
  rootIds := fun s => (o s).rootIds (view s)
  unrooted := fun s => update s ((o s).unrooted (view s))
  objects := fun s => (o s).objects (view s)
  shaped := fun s => (o s).shaped (view s)

theorem Owner.Parks.lift (view : S → T) (update : S → T → S) {o : S → Owner T}
    {c : RootM T Unit} {r : S → RootM T Unit}
    (hview : ∀ s t, view (update s t) = t) (hupdate : ∀ s t t', update (update s t) t' = update s t')
    (ho : ∀ s t, o (update s t) = o s) (h : ∀ s, (o s).Parks c (r s)) :
    (Owner.lift view update o).Parks (onField view update c)
      (fun s => onField view update (r s.1) s) where
  clears := by
    intro s vm E A hs hE hreg
    obtain ⟨vm', hrun, hreg'⟩ := (h s).clears hs hE hreg
    exact ⟨vm', onField_apply hrun, hreg'⟩
  restores := by
    intro s vm A hs hreg
    have hs' : (o s).unrooted (view s) = view s := by
      have := congrArg view hs
      rwa [Owner.lift, hview] at this
    have hself : update s (view s) = s := by
      rw [← hs']
      exact hs
    rcases (h s).restores hs' hreg with ⟨t, vm', E, hrun, hsh, hid, hob, hreg', hun⟩ |
      ⟨e, t, vm', E, hrun, hsh, hid, hreg'⟩
    · refine .inl ⟨update s t, vm', E, onField_apply hrun, ?_, ?_, hob, hreg', ?_⟩
      · simpa only [Owner.lift, ho, hview] using hsh
      · simpa only [Owner.lift, ho, hview] using hid
      · simp only [Owner.lift, ho, hview, hun, hupdate, hself]
    · refine .inr ⟨e, update s t, vm', E, onField_apply hrun, ?_, ?_, hreg'⟩
      · simpa only [Owner.lift, ho, hview] using hsh
      · simpa only [Owner.lift, ho, hview] using hid
  ids := fun s => by simp only [Owner.lift, ho, hview, (h s).ids]
  shape := fun s => by simpa only [Owner.lift, ho, hview] using (h s).shape (view s)
  idem := fun s => by simp only [Owner.lift, ho, hview, hupdate, (h s).idem]
  objects := fun s => by simp only [Owner.lift, ho, hview, (h s).objects]

/-- A sequence on a field. -/
theorem onField_bind (hview : ∀ s t, view (update s t) = t)
    (hupdate : ∀ s t t', update (update s t) t' = update s t') (m₁ m₂ : RootM T Unit) :
    onField view update (m₁ >>= fun _ => m₂)
      = (onField view update m₁ >>= fun _ => onField view update m₂) := by
  funext ⟨s, vm⟩
  rcases h₁ : m₁ (view s, vm) with ⟨_ | _, t, vm₁⟩
  · rw [Prog.bind_apply_error (onField_apply h₁)]
    exact onField_apply (Prog.bind_apply_error h₁)
  · rw [Prog.bind_apply_ok (onField_apply h₁)]
    rcases h₂ : m₂ (t, vm₁) with ⟨r, t', vm₂⟩
    have h₂' : m₂ (view (update s t), vm₁) = (r, t', vm₂) := by rw [hview, h₂]
    rw [onField_apply h₂', hupdate]
    exact onField_apply ((Prog.bind_apply_ok h₁).trans h₂)

/-- A clean-up on a field. -/
theorem onField_onError (hview : ∀ s t, view (update s t) = t)
    (hupdate : ∀ s t t', update (update s t) t' = update s t') (m h : RootM T Unit) :
    onField view update (Prog.onError m h)
      = Prog.onError (onField view update m) (onField view update h) := by
  funext ⟨s, vm⟩
  rcases h₁ : m (view s, vm) with ⟨e | _, t, vm₁⟩
  · rcases h₂ : h (t, vm₁) with ⟨r, t', vm₂⟩
    cases r <;> simp [Prog.onError, onField, Prog.focus, h₁, h₂, hview, hupdate]
  · rw [Prog.onError_apply_ok (onField_apply h₁)]
    exact onField_apply (Prog.onError_apply_ok h₁)

end Field

/-- Rewrite a method on two fields as one on the pair. -/
theorem onField_onFst {U : Type} (view : S → T × U) (update : S → T × U → S) (m : RootM T Unit) :
    onField view update (onFst m)
      = onField (fun s => (view s).1) (fun s t => update s (t, (view s).2)) m := by
  funext ⟨s, vm⟩
  rcases h : m ((view s).1, vm) with ⟨r, t, vm'⟩
  simp only [onField, onFst, Prog.focus, h]

theorem onField_onSnd {U : Type} (view : S → T × U) (update : S → T × U → S) (m : RootM U Unit) :
    onField view update (onSnd m)
      = onField (fun s => (view s).2) (fun s u => update s ((view s).1, u)) m := by
  funext ⟨s, vm⟩
  rcases h : m ((view s).2, vm) with ⟨r, t, vm'⟩
  simp only [onField, onSnd, Prog.focus, h]

section Pair

variable {U : Type} (view : S → T × U) (update : S → T × U → S) (o₁ : S → Owner T)
  (o₂ : S → Owner U) {c₁ : RootM T Unit} {c₂ : RootM U Unit} {r₁ : S → RootM T Unit}
  {r₂ : S → RootM U Unit} {tidy : RootM (T × U) Unit}

/-- A state with two rooted fields. -/
theorem Owner.Parks.pair (hview : ∀ s t, view (update s t) = t)
    (hupdate : ∀ s t t', update (update s t) t' = update s t')
    (ho₁ : ∀ s t, o₁ (update s t) = o₁ s) (ho₂ : ∀ s t, o₂ (update s t) = o₂ s)
    (h₁ : ∀ s, (o₁ s).Parks c₁ (r₁ s)) (h₂ : ∀ s, (o₂ s).Parks c₂ (r₂ s))
    (ht : ∀ s, ((o₁ s).prod (o₂ s)).Tidies tidy) :
    (Owner.lift view update fun s => (o₁ s).prod (o₂ s)).Parks
      (onField view update (onSnd c₂) >>= fun _ => onField view update (onFst c₁))
      (fun s => (onField view update (onFst (r₁ s.1)) >>= fun _ =>
        Prog.onError (onField view update (onSnd (r₂ s.1))) (onField view update tidy)) s) := by
  have h := Owner.Parks.lift view update hview hupdate (o := fun s => (o₁ s).prod (o₂ s))
    (fun s t => by rw [ho₁, ho₂]) fun s => (h₁ s).prod (h₂ s) (ht s)
  simpa only [onField_bind hview hupdate, onField_onError hview hupdate] using h

/-- The same without a clean-up. -/
theorem Owner.Parks.pair_bare (hview : ∀ s t, view (update s t) = t)
    (hupdate : ∀ s t t', update (update s t) t' = update s t')
    (ho₁ : ∀ s t, o₁ (update s t) = o₁ s) (ho₂ : ∀ s t, o₂ (update s t) = o₂ s)
    (h₁ : ∀ s, (o₁ s).Parks c₁ (r₁ s)) (h₂ : ∀ s, (o₂ s).Parks c₂ (r₂ s)) :
    (Owner.lift view update fun s => (o₁ s).prod (o₂ s)).Parks
      (onField view update (onSnd c₂) >>= fun _ => onField view update (onFst c₁))
      (fun s => (onField view update (onFst (r₁ s.1)) >>= fun _ =>
        onField view update (onSnd (r₂ s.1))) s) := by
  have h := Owner.Parks.lift view update hview hupdate (o := fun s => (o₁ s).prod (o₂ s))
    (fun s t => by rw [ho₁, ho₂]) fun s => (h₁ s).prod (h₂ s) (Owner.tidies_pure _)
  simpa only [Prog.onError_pure, onField_bind hview hupdate] using h

end Pair

/-! ### Lists -/

/-- A list of states. -/
def Owner.list (o : Owner S) : Owner (List S) where
  rootIds := fun l => l.flatMap o.rootIds
  unrooted := List.map o.unrooted
  objects := fun l => l.flatMap o.objects
  shaped := fun l => ∀ s ∈ l, o.shaped s

/-- Run a method on every state of a list. -/
def onList (m : RootM S Unit) : RootM (List S) Unit := fun s => forEntries m s.1 s.2

theorem onList_cons {m : RootM S Unit} {s s' : S} {l : List S} {vm vm' : Vm}
    (h : m (s, vm) = (.ok (), s', vm')) :
    onList m (s :: l, vm) =
      ((onList m (l, vm')).1, s' :: (onList m (l, vm')).2.1, (onList m (l, vm')).2.2) := by
  simp only [onList, forEntries, h]

section List

variable {o : Owner S} {clear restore : RootM S Unit}

theorem Owner.Parks.clears_list (h : o.Parks clear restore) : o.list.Clears (onList clear) := by
  intro l
  induction l with
  | nil =>
    intro vm E A _ hE hreg
    obtain rfl : E = [] := by simpa [Owner.list] using hE
    exact ⟨vm, rfl, hreg⟩
  | cons s l ih =>
    intro vm E A hs hE hreg
    obtain ⟨E₁, E₂, rfl, h₁, h₂⟩ := List.map_eq_append_iff.mp (hE.trans List.flatMap_cons)
    rw [List.append_assoc] at hreg
    obtain ⟨vm₁, hrun₁, hreg₁⟩ := h.clears (hs s List.mem_cons_self) h₁ hreg
    obtain ⟨vm₂, hrun₂, hreg₂⟩ := ih (fun x hx => hs x (List.mem_cons_of_mem _ hx)) h₂ hreg₁
    exact ⟨vm₂, by rw [onList_cons hrun₁, hrun₂]; rfl, hreg₂⟩

theorem Owner.Parks.ids_list (h : o.Parks clear restore) (l : List S) :
    o.list.rootIds (o.list.unrooted l) = [] := by
  simp [Owner.list, h.ids]

theorem Owner.Parks.shape_list (h : o.Parks clear restore) (l : List S) :
    o.list.shaped (o.list.unrooted l) := by
  intro s hs
  obtain ⟨s', -, rfl⟩ := List.mem_map.mp hs
  exact h.shape s'

theorem Owner.Parks.restores_list (h : o.Parks clear restore) :
    o.list.Restores (onList restore) := by
  intro l
  induction l with
  | nil =>
    intro vm A _ hreg
    exact .inl ⟨[], vm, [], rfl, by simp [Owner.list], rfl, by simp [Owner.list], hreg, rfl⟩
  | cons s l ih =>
    intro vm A hs hreg
    obtain ⟨hs₁, hs₂⟩ : o.unrooted s = s ∧ o.list.unrooted l = l := List.cons_eq_cons.mp hs
    have hshape : ∀ {s' : S} {l' : List S}, o.shaped s' → o.list.shaped l' →
        o.list.shaped (s' :: l') := fun h₁ h₂ => List.forall_mem_cons.mpr ⟨h₁, h₂⟩
    have hids : ∀ {s' : S} {l' : List S} {E₁ E₂ : List RootEntry},
        E₁.map RootEntry.id = o.rootIds s' → E₂.map RootEntry.id = o.list.rootIds l' →
        (E₁ ++ E₂).map RootEntry.id = o.list.rootIds (s' :: l') := by
      intro s' l' E₁ E₂ h₁ h₂
      rw [List.map_append, h₁, h₂]
      exact List.flatMap_cons.symm
    rcases h.restores hs₁ hreg with ⟨s', vm₁, E₁, hrun₁, hsh₁, hid₁, hob₁, hreg₁, hun₁⟩ |
      ⟨e, s', vm₁, E₁, hrun₁, hsh₁, hid₁, hreg₁⟩
    · have hcons := onList_cons (l := l) hrun₁
      rcases ih hs₂ hreg₁ with ⟨l', vm₂, E₂, hrun₂, hsh₂, hid₂, hob₂, hreg₂, hun₂⟩ |
        ⟨e, l', vm₂, E₂, hrun₂, hsh₂, hid₂, hreg₂⟩
      · rw [hrun₂] at hcons
        refine .inl ⟨s' :: l', vm₂, E₁ ++ E₂, hcons, hshape hsh₁ hsh₂, hids hid₁ hid₂, ?_, ?_, ?_⟩
        · rw [List.map_append]
          exact (hob₁.append hob₂).trans (.of_eq List.flatMap_cons.symm)
        · exact (registered_swap (List.append_assoc .. ▸ hreg₂)).perm (by simp)
        · exact List.cons_eq_cons.mpr ⟨hun₁, hun₂⟩
      · rw [hrun₂] at hcons
        refine .inr ⟨e, s' :: l', vm₂, E₁ ++ E₂, hcons, hshape hsh₁ hsh₂, hids hid₁ hid₂, ?_⟩
        exact (registered_swap (List.append_assoc .. ▸ hreg₂)).perm (by simp)
    · refine .inr ⟨e, s' :: l, vm₁, E₁, by simp only [onList, forEntries, hrun₁],
        hshape hsh₁ (hs₂ ▸ h.shape_list l), ?_, hreg₁⟩
      have hnone : o.list.rootIds l = [] := hs₂ ▸ h.ids_list l
      have hids₁ : (E₁ ++ []).map RootEntry.id = o.list.rootIds (s' :: l) := hids hid₁ hnone.symm
      rwa [List.append_nil] at hids₁

/-- A list of states, cleared and restored from the first to the last. -/
theorem Owner.Parks.list (h : o.Parks clear restore) :
    o.list.Parks (onList clear) (onList restore) where
  clears := h.clears_list
  restores := h.restores_list
  ids := h.ids_list
  shape := h.shape_list
  idem := fun l => by simp [Owner.list, h.idem]
  objects := fun l => by simp [Owner.list, List.flatMap_map, h.objects]

end List

end RivetLua.Runtime
