import RivetLua.Runtime.RootOwner

namespace RivetLua.Runtime

open RivetLua.Core StateProg

/-!
# Runtime — parking and restoring the roots of a suspended execution

* an `owner` and a lemma `parks` for every state of a pending operation, up to `PendingStack`;
* `PendingStack.parkSafe_iff` — parking and restoring is exact, and what is parked is traced,
  exactly when no pending warning has an object argument and no debug hook has a target.
-/

/-! ### Arguments -/

/-- Values with a stack of roots. -/
def PrintArguments.owner : Owner PrintArguments where
  rootIds := PrintArguments.roots
  unrooted := fun a => { a with roots := [] }
  objects := fun a => valueRefs a.values
  shaped := fun _ => True

namespace PrintArguments

theorem popRoots_eq {A : List RootEntry} : ∀ {E : List RootEntry} {vm : Vm},
    vm.Registered (E ++ A) →
    ∃ vm', popRoots (E.map RootEntry.id) vm = (.ok (), [], vm') ∧ vm'.Registered A
  | [], vm, h => ⟨vm, rfl, h⟩
  | e :: E, vm, h => by
    have hrem := removeRoot_spec e (E ++ A) vm h
    rcases hr : removeRoot e.id vm with ⟨_ | o, vm₁⟩
    · rw [hr] at hrem
      exact hrem.elim
    · rw [hr] at hrem
      obtain ⟨vm', hpop, hreg⟩ := popRoots_eq hrem.2
      exact ⟨vm', by simp [popRoots, hr, hpop], hreg⟩

/-- Pushing extends the stack by one root for each object. -/
theorem pushRoots_eq {A : List RootEntry} : ∀ (values : List Value) {E : List RootEntry} {vm : Vm},
    vm.Registered (E ++ A) →
    (∃ E' vm', pushRoots values (E.map RootEntry.id) vm = (.ok (), E'.map RootEntry.id, vm') ∧
      (E'.map RootEntry.object).Perm (E.map RootEntry.object ++ valueRefs values) ∧
      vm'.Registered (E' ++ A)) ∨
    (∃ e E' vm', pushRoots values (E.map RootEntry.id) vm = (.error e, E'.map RootEntry.id, vm') ∧
      vm'.Registered (E' ++ A))
  | [], E, vm, h => .inl ⟨E, vm, rfl, by simp [valueRefs], h⟩
  | value :: values, E, vm, h => by
    rw [pushRoots]
    cases hv : value.objectRef? with
    | none =>
      have hrefs : valueRefs (value :: values) = valueRefs values := by
        simp [valueRefs, hv]
      rw [hrefs]
      exact pushRoots_eq values h
    | some object =>
      have hrefs : valueRefs (value :: values) = object :: valueRefs values := by
        simp [valueRefs, hv]
      have hadd := addRoot_spec .temporary object (E ++ A) vm h
      simp only
      rcases hr : addRoot .temporary object vm with ⟨e | id, vm₁⟩
      · rw [hr] at hadd
        exact .inr ⟨e, E, vm₁, rfl, hadd⟩
      · rw [hr] at hadd
        have hadd' : vm₁.Registered ((⟨id, .temporary, object, none⟩ :: E) ++ A) := hadd
        rcases pushRoots_eq values hadd' with ⟨E', vm', hpush, hob, hreg⟩ | ⟨e, E', vm', hpush, hreg⟩
        · refine .inl ⟨E', vm', hpush, ?_, hreg⟩
          rw [hrefs]
          exact hob.trans List.perm_middle.symm
        · exact .inr ⟨e, E', vm', hpush, hreg⟩

theorem parks : owner.Parks clearRoots restoreRoots := by
  have hclears : owner.Clears clearRoots := by
    intro a vm E A _ hE hreg
    obtain ⟨vm', hpop, hreg'⟩ := popRoots_eq hreg
    have hroots : a.roots = E.map RootEntry.id := hE.symm
    exact ⟨vm', by simp [clearRoots, hroots, hpop, owner], hreg'⟩
  refine Owner.Parks.onError ⟨hclears, ?_, fun _ => rfl, fun _ => trivial, fun _ => rfl,
    fun _ => rfl⟩
  intro a vm A ha hreg
  have hroots : a.roots = ([] : List RootEntry).map RootEntry.id := (congrArg roots ha).symm
  rcases pushRoots_eq a.values (E := []) hreg with ⟨E, vm', hpush, hob, hreg'⟩ |
    ⟨e, E, vm', hpush, hreg'⟩
  · exact .inl ⟨{ a with roots := E.map RootEntry.id }, vm', E, by simp only [hroots, hpush],
      trivial, rfl, hob, hreg', ha⟩
  · exact .inr ⟨e, { a with roots := E.map RootEntry.id }, vm', E, by simp only [hroots, hpush],
      trivial, rfl, hreg'⟩

end PrintArguments

/-! ### The states of library calls -/

namespace HostCallbackPending

/-- Both argument lists. -/
def rooted (s : HostCallbackPending) : PrintArguments × PrintArguments := (s.captures, s.arguments)

def withRooted (_ : HostCallbackPending) (t : PrintArguments × PrintArguments) :
    HostCallbackPending := ⟨t.1, t.2⟩

def owner : Owner HostCallbackPending :=
  Owner.lift rooted withRooted fun _ => PrintArguments.owner.prod PrintArguments.owner

theorem parks : owner.Parks clearRoots restoreRoots := by
  have h := Owner.Parks.pair rooted withRooted _ _ (fun _ _ => rfl)
    (fun _ _ _ => rfl) (fun _ _ => rfl) (fun _ _ => rfl) (fun _ => PrintArguments.parks)
    (fun _ => PrintArguments.parks) (fun _ => PrintArguments.parks.tidies_fst)
  simp only [onField_onFst, onField_onSnd] at h
  exact h

end HostCallbackPending

namespace GSubState

def rooted (s : GSubState) : PrintArguments × Option PrintArguments :=
  (s.arguments, s.callbackArguments)

def withRooted (_ : GSubState) (t : PrintArguments × Option PrintArguments) : GSubState :=
  ⟨t.1, t.2⟩

def owner : Owner GSubState :=
  Owner.lift rooted withRooted fun _ => PrintArguments.owner.prod PrintArguments.owner.option

theorem parks : owner.Parks clearRoots restoreRoots := by
  have h := Owner.Parks.pair_bare rooted withRooted _ _ (fun _ _ => rfl) (fun _ _ _ => rfl)
    (fun _ _ => rfl) (fun _ _ => rfl) (fun _ => PrintArguments.parks)
    (fun _ => PrintArguments.parks.option)
  simp only [onField_onFst, onField_onSnd] at h
  exact h

end GSubState

namespace FormatState

def owner : Owner FormatState :=
  Owner.lift arguments (fun s a => { s with arguments := a }) fun _ => PrintArguments.owner

theorem parks : owner.Parks clearRoots restoreRoots :=
  Owner.Parks.lift arguments (fun s a => { s with arguments := a }) (fun _ _ => rfl)
    (fun _ _ _ => rfl) (fun _ _ => rfl) fun _ => PrintArguments.parks

end FormatState

namespace MinMaxState

def owner : Owner MinMaxState :=
  Owner.lift arguments (fun s a => { s with arguments := a }) fun _ => PrintArguments.owner

theorem parks : owner.Parks clearRoots restoreRoots :=
  Owner.Parks.lift arguments (fun s a => { s with arguments := a }) (fun _ _ => rfl)
    (fun _ _ _ => rfl) (fun _ _ => rfl) fun _ => PrintArguments.parks

end MinMaxState

namespace PreloadState

def owner : Owner PreloadState :=
  Owner.lift root (fun s r => { s with root := r }) fun s => Owner.slot (.object s.key)

theorem parks : owner.Parks clearRoots restoreRoots :=
  Owner.Parks.lift root (fun s r => { s with root := r }) (fun _ _ => rfl) (fun _ _ _ => rfl)
    (fun _ _ => rfl) fun s => slot_parks true (.object s.key)

end PreloadState

namespace PathSearcherState

def owner : Owner PathSearcherState :=
  Owner.lift roots (fun s r => { s with roots := r }) fun s => Owner.slots s.values

theorem parks : owner.Parks clearRoots restoreRoots :=
  (Owner.Parks.lift roots (fun s r => { s with roots := r }) (fun _ _ => rfl) (fun _ _ _ => rfl)
    (fun _ _ => rfl) fun s => slots_parks true s.values).onError

end PathSearcherState

namespace RequireState

def owner : Owner RequireState :=
  Owner.lift roots (fun s r => { s with roots := r }) fun s => Owner.slots s.refs

theorem parks : owner.Parks clearRoots restoreRoots :=
  (Owner.Parks.lift roots (fun s r => { s with roots := r }) (fun _ _ => rfl) (fun _ _ _ => rfl)
    (fun _ _ => rfl) fun s => slots_parks true s.refs).onError

end RequireState

namespace SortState

def owner : Owner SortState :=
  Owner.lift roots (fun s r => { s with roots := r }) fun s => Owner.slots s.values

theorem parks : owner.Parks clearRoots restoreRoots :=
  Owner.Parks.lift roots (fun s r => { s with roots := r }) (fun _ _ => rfl) (fun _ _ _ => rfl)
    (fun _ _ => rfl) fun s => slots_parks true s.values

end SortState

namespace LoadReaderState

def rooted (s : LoadReaderState) : Option RootId × Option RootId := (s.readerRoot, s.environmentRoot)

def withRooted (s : LoadReaderState) (t : Option RootId × Option RootId) : LoadReaderState :=
  { s with readerRoot := t.1, environmentRoot := t.2 }

def owner : Owner LoadReaderState :=
  Owner.lift rooted withRooted fun s => (Owner.slot s.reader).prod (Owner.slot s.environment)

theorem parks : owner.Parks clearRoots restoreRoots := by
  have h := Owner.Parks.pair rooted withRooted (fun s => Owner.slot s.reader)
    (fun s => Owner.slot s.environment) (fun _ _ => rfl) (fun _ _ _ => rfl) (fun _ _ => rfl)
    (fun _ _ => rfl) (fun s => slot_parks true s.reader)
    (fun s => slot_parks true s.environment)
    (fun s => ((slot_parks true s.reader).prod (slot_parks true s.environment)
      (Owner.tidies_pure _)).tidies)
  have hview : ∀ s t, rooted (withRooted s t) = t := fun _ _ => rfl
  have hbind := onField_bind hview fun _ _ _ => rfl
  simp only [hbind, onField_onFst, onField_onSnd] at h
  exact h

end LoadReaderState

namespace TableOpState

def rooted (s : TableOpState) : List (Option RootId) × List (Option RootId) :=
  (s.roots, s.outputRoots)

def withRooted (s : TableOpState) (t : List (Option RootId) × List (Option RootId)) :
    TableOpState :=
  { s with roots := t.1, outputRoots := t.2 }

def owner : Owner TableOpState :=
  Owner.lift rooted withRooted fun s => (Owner.slots s.values).prod (Owner.slots s.output)

theorem parks : owner.Parks clearRoots restoreRoots := by
  have h := Owner.Parks.pair_bare rooted withRooted (fun s => Owner.slots s.values)
    (fun s => Owner.slots s.output) (fun _ _ => rfl) (fun _ _ _ => rfl) (fun _ _ => rfl)
    (fun _ _ => rfl) (fun s => slots_parks true s.values)
    (fun s => slots_parks true s.output)
  simp only [onField_onFst, onField_onSnd] at h
  exact h

end TableOpState

namespace CalendarTimeState

def rooted (s : CalendarTimeState) : Option RootId × Option RootId := (s.tableRoot, s.keyRoot)

def withRooted (s : CalendarTimeState) (t : Option RootId × Option RootId) : CalendarTimeState :=
  { s with tableRoot := t.1, keyRoot := t.2 }

/-- The key as a value, `nil` when there is none. -/
def keyValue (s : CalendarTimeState) : Value := (s.key.map Value.object).getD .nil

def owner : Owner CalendarTimeState :=
  Owner.lift rooted withRooted fun s =>
    (Owner.slot (.object s.table)).prod (Owner.slot s.keyValue)

/-- Setting a key when no root is held for one. -/
theorem setKey_eq {s : CalendarTimeState} (hs : s.keyRoot = none) (key : ObjectRef) (vm : Vm) :
    setKey key (s, vm) = match addRoot .temporary key vm with
      | (.ok id, vm') => (.ok (), { s with keyRoot := some id, key := some key }, vm')
      | (.error e, vm') => (.error e, { s with keyRoot := none, key := none }, vm') := by
  have hclear : clearKey (s, vm) = (.ok (), { s with keyRoot := none, key := none }, vm) := by
    simp [clearKey, Prog.bind_apply, onKeyRoot, onField, Prog.focus, hs, takeRoot]
  rcases hr : addRoot .temporary key vm with ⟨e | id, vm'⟩ <;>
    simp [setKey, Prog.bind_apply, hclear, onVm, Prog.focus, hr]

theorem parks : owner.Parks clearRoots restoreRoots := by
  have h := Owner.Parks.pair_bare rooted withRooted (fun s => Owner.slot (.object s.table))
    (fun s => Owner.slot s.keyValue) (fun _ _ => rfl) (fun _ _ _ => rfl) (fun _ _ => rfl)
    (fun _ _ => rfl) (fun s => slot_parks false (.object s.table))
    (fun s => slot_parks false s.keyValue)
  simp only [onField_onFst, onField_onSnd] at h
  have hclears : owner.Clears clearRoots := h.clears
  refine ⟨hclears, ?_, h.ids, h.shape, h.idem, h.objects⟩
  -- the key is set again and not only rooted again, so it is gone when that fails
  rintro ⟨table, key, tableRoot, keyRoot⟩ vm A hs hreg
  obtain ⟨rfl, rfl⟩ : none = tableRoot ∧ none = keyRoot := by
    simpa [owner, Owner.lift, withRooted, Owner.prod, Owner.slot] using hs
  rcases fillRoot_restores false (.object table) (s := none) rfl hreg with
    ⟨r, vm₁, E₁, hr, -, hid₁, hob₁, hreg₁, -⟩ | ⟨e, r, vm₁, E₁, hr, -, hid₁, hreg₁⟩
  · cases key with
    | none =>
      have htable : restoreRoots (⟨table, none, none, none⟩, vm)
          = (.ok (), ⟨table, none, r, none⟩, vm₁) :=
        (Prog.bind_apply_ok rfl).trans (Prog.bind_apply_ok (onField_apply hr))
      refine .inl ⟨⟨table, none, r, none⟩, vm₁, E₁, htable, ⟨trivial, trivial⟩, ?_, ?_, hreg₁, rfl⟩
      · exact hid₁.trans (List.append_nil _).symm
      · exact hob₁.trans (.of_eq (List.append_nil _).symm)
    | some key =>
      have htable : restoreRoots (⟨table, some key, none, none⟩, vm)
          = Prog.onError (setKey key) clearRoots (⟨table, some key, r, none⟩, vm₁) :=
        (Prog.bind_apply_ok rfl).trans (Prog.bind_apply_ok (onField_apply hr))
      rw [htable]
      have hset := setKey_eq (s := ⟨table, some key, r, none⟩) rfl key vm₁
      have hadd := addRoot_spec .temporary key (E₁ ++ A) vm₁ hreg₁
      rcases hk : addRoot .temporary key vm₁ with ⟨e | id, vm₂⟩
      · rw [hk] at hadd hset
        obtain ⟨vm₃, hrun, hreg₃⟩ := hclears (s := ⟨table, none, r, none⟩) (E := E₁)
          ⟨trivial, trivial⟩ (hid₁.trans (List.append_nil _).symm) hadd
        exact .inr ⟨e, _, vm₃, [], Prog.onError_apply_error hset hrun, ⟨trivial, trivial⟩, rfl, hreg₃⟩
      · rw [hk] at hadd hset
        refine .inl ⟨_, vm₂, E₁ ++ [⟨id, .temporary, key, none⟩], Prog.onError_apply_ok hset,
          ⟨trivial, trivial⟩, ?_, ?_, ?_, rfl⟩
        · rw [List.map_append, hid₁]
          rfl
        · rw [List.map_append]
          exact hob₁.append (.of_eq rfl)
        · refine Vm.Registered.perm hadd ?_
          rw [List.append_assoc]
          exact List.perm_middle.symm
  · refine .inr ⟨e, ⟨table, key, r, none⟩, vm₁, E₁, ?_, ⟨trivial, trivial⟩,
      hid₁.trans (List.append_nil _).symm, hreg₁⟩
    exact (Prog.bind_apply_ok rfl).trans (Prog.bind_apply_error (onField_apply hr))

end CalendarTimeState

/-! ### Pending operations -/

namespace BasicPending

/-- The roots a variant holds, the variant without them, the objects `restoreRoots` adds roots
    for, and the size of its root arrays. -/
def owner : Owner BasicPending where
  rootIds
    | .hostCallback state => HostCallbackPending.owner.rootIds state
    | .debugHook _ _ targetRoot result =>
      targetRoot.toList ++ PrintArguments.owner.option.rootIds result
    | .osCalendarTime state => CalendarTimeState.owner.rootIds state
    | .preload state => PreloadState.owner.rootIds state
    | .packagePath state => PathSearcherState.owner.rootIds state
    | .require state => RequireState.owner.rootIds state
    | .loadReader state => LoadReaderState.owner.rootIds state
    | .print arguments | .warning arguments => PrintArguments.owner.rootIds arguments
    | .stringFormat state => FormatState.owner.rootIds state
    | .stringGSub state => GSubState.owner.rootIds state
    | .mathMinMax state => MinMaxState.owner.rootIds state
    | .tableSort state => SortState.owner.rootIds state
    | .tableOp state => TableOpState.owner.rootIds state
    | .doFile | .debugConsole _ | .debugConsoleStringify _ | .toString | .pairs | .ipairsAux => []
  unrooted
    | .hostCallback state => .hostCallback (HostCallbackPending.owner.unrooted state)
    | .debugHook hook target _ result =>
      .debugHook hook target none (PrintArguments.owner.option.unrooted result)
    | .osCalendarTime state => .osCalendarTime (CalendarTimeState.owner.unrooted state)
    | .preload state => .preload (PreloadState.owner.unrooted state)
    | .packagePath state => .packagePath (PathSearcherState.owner.unrooted state)
    | .require state => .require (RequireState.owner.unrooted state)
    | .loadReader state => .loadReader (LoadReaderState.owner.unrooted state)
    | .print arguments => .print (PrintArguments.owner.unrooted arguments)
    | .warning arguments => .warning (PrintArguments.owner.unrooted arguments)
    | .stringFormat state => .stringFormat (FormatState.owner.unrooted state)
    | .stringGSub state => .stringGSub (GSubState.owner.unrooted state)
    | .mathMinMax state => .mathMinMax (MinMaxState.owner.unrooted state)
    | .tableSort state => .tableSort (SortState.owner.unrooted state)
    | .tableOp state => .tableOp (TableOpState.owner.unrooted state)
    | basic => basic
  objects
    | .hostCallback state => HostCallbackPending.owner.objects state
    | .debugHook _ _ _ result => PrintArguments.owner.option.objects result
    | .osCalendarTime state => CalendarTimeState.owner.objects state
    | .preload state => PreloadState.owner.objects state
    | .packagePath state => PathSearcherState.owner.objects state
    | .require state => RequireState.owner.objects state
    | .loadReader state => LoadReaderState.owner.objects state
    | .print arguments => PrintArguments.owner.objects arguments
    | .stringFormat state => FormatState.owner.objects state
    | .stringGSub state => GSubState.owner.objects state
    | .mathMinMax state => MinMaxState.owner.objects state
    | .tableSort state => SortState.owner.objects state
    | .tableOp state => TableOpState.owner.objects state
    | .warning _ | .doFile | .debugConsole _ | .debugConsoleStringify _ | .toString | .pairs
    | .ipairsAux => []
  shaped
    | .packagePath state => PathSearcherState.owner.shaped state
    | .require state => RequireState.owner.shaped state
    | .tableSort state => SortState.owner.shaped state
    | .tableOp state => TableOpState.owner.shaped state
    | _ => True

section Within

variable {T : Type} {o : Owner T} {c r : RootM T Unit} {wrap : T → BasicPending}

theorem clears_within (h : o.Parks c r) {t : T} {vm : Vm} {E A : List RootEntry} (hs : o.shaped t)
    (hE : E.map RootEntry.id = o.rootIds t) (hreg : vm.Registered (E ++ A)) :
    ∃ vm', within wrap t c vm = (.ok (), wrap (o.unrooted t), vm') ∧ vm'.Registered A := by
  obtain ⟨vm', hrun, hreg'⟩ := h.clears hs hE hreg
  exact ⟨vm', by simp only [within, hrun], hreg'⟩

/-- Restoring inside a variant, given what the owner says about the variant. -/
theorem restored_within (h : o.Parks c r) {t : T} {vm : Vm} {A : List RootEntry}
    (hids : ∀ t, owner.rootIds (wrap t) = o.rootIds t)
    (hobjects : ∀ t, owner.objects (wrap t) = o.objects t)
    (hshape : ∀ t, o.shaped t → owner.shaped (wrap t))
    (hunrooted : ∀ t, owner.unrooted (wrap t) = wrap (o.unrooted t)) (ht : o.unrooted t = t)
    (hreg : vm.Registered A) : owner.Restored (wrap t) A (within wrap t r vm) := by
  rcases h.restores ht hreg with ⟨t', vm', E, hrun, hsh, hid, hob, hreg', hun⟩ |
    ⟨e, t', vm', E, hrun, hsh, hid, hreg'⟩
  · exact .inl ⟨wrap t', vm', E, by simp only [within, hrun], hshape t' hsh,
      hid.trans (hids t').symm, hob.trans (.of_eq (hobjects t).symm), hreg',
      (hunrooted t').trans (congrArg wrap hun)⟩
  · exact .inr ⟨e, wrap t', vm', E, by simp only [within, hrun], hshape t' hsh,
      hid.trans (hids t').symm, hreg'⟩

end Within

theorem clear_clears : owner.Clears clear := by
  intro basic vm E A hs hE hreg
  cases basic with
  | hostCallback state => exact clears_within HostCallbackPending.parks ⟨trivial, trivial⟩ hE hreg
  | debugHook hook target targetRoot result =>
    obtain ⟨E₁, E₂, rfl, h₁, h₂⟩ := List.map_eq_append_iff.mp hE
    rw [List.append_assoc] at hreg
    have hreg₀ : Vm.Registered (E₁ ++ (E₂ ++ A)) { vm with debugHookRunning := false } := hreg
    obtain ⟨vm₁, hrun₁, hreg₁⟩ := takeRoot_clears .nil (s := targetRoot) trivial h₁ hreg₀
    obtain ⟨vm₂, hrun₂, hreg₂⟩ := PrintArguments.parks.option.clears (s := result)
      (fun _ _ => trivial) h₂ hreg₁
    exact ⟨vm₂, by simp only [clear, hrun₁, within, Owner.slot, hrun₂]; rfl, hreg₂⟩
  | osCalendarTime state => exact clears_within CalendarTimeState.parks ⟨trivial, trivial⟩ hE hreg
  | preload state => exact clears_within PreloadState.parks trivial hE hreg
  | packagePath state => exact clears_within PathSearcherState.parks hs hE hreg
  | require state => exact clears_within RequireState.parks hs hE hreg
  | loadReader state => exact clears_within LoadReaderState.parks ⟨trivial, trivial⟩ hE hreg
  | print arguments => exact clears_within PrintArguments.parks trivial hE hreg
  | warning arguments => exact clears_within PrintArguments.parks trivial hE hreg
  | stringFormat state => exact clears_within FormatState.parks trivial hE hreg
  | stringGSub state =>
    exact clears_within GSubState.parks ⟨trivial, fun _ _ => trivial⟩ hE hreg
  | mathMinMax state => exact clears_within MinMaxState.parks trivial hE hreg
  | tableSort state => exact clears_within SortState.parks hs hE hreg
  | tableOp state => exact clears_within TableOpState.parks hs hE hreg
  | doFile | debugConsole | debugConsoleStringify | toString | pairs | ipairsAux =>
    obtain rfl : E = [] := List.map_eq_nil_iff.mp hE
    exact ⟨vm, rfl, hreg⟩

theorem restoreRoots_restores : owner.Restores restoreRoots := by
  intro basic vm A hs hreg
  cases basic with
  | hostCallback state =>
    exact restored_within HostCallbackPending.parks (fun _ => rfl) (fun _ => rfl)
      (fun _ _ => trivial) (fun _ => rfl) (hostCallback.inj hs) hreg
  | debugHook hook target targetRoot result =>
    obtain ⟨-, -, rfl, hresult⟩ := debugHook.inj hs
    exact restored_within PrintArguments.parks.option (fun _ => rfl) (fun _ => rfl)
      (fun _ _ => trivial) (fun _ => rfl) hresult hreg
  | osCalendarTime state =>
    exact restored_within CalendarTimeState.parks (fun _ => rfl) (fun _ => rfl)
      (fun _ _ => trivial) (fun _ => rfl) (osCalendarTime.inj hs) hreg
  | preload state =>
    exact restored_within PreloadState.parks (fun _ => rfl) (fun _ => rfl)
      (fun _ _ => trivial) (fun _ => rfl) (preload.inj hs) hreg
  | packagePath state =>
    exact restored_within PathSearcherState.parks (fun _ => rfl) (fun _ => rfl)
      (fun _ h => h) (fun _ => rfl) (packagePath.inj hs) hreg
  | require state =>
    exact restored_within RequireState.parks (fun _ => rfl) (fun _ => rfl)
      (fun _ h => h) (fun _ => rfl) (require.inj hs) hreg
  | loadReader state =>
    exact restored_within LoadReaderState.parks (fun _ => rfl) (fun _ => rfl)
      (fun _ _ => trivial) (fun _ => rfl) (loadReader.inj hs) hreg
  | print arguments =>
    exact restored_within PrintArguments.parks (fun _ => rfl) (fun _ => rfl)
      (fun _ _ => trivial) (fun _ => rfl) (print.inj hs) hreg
  | warning arguments =>
    -- nothing is restored for the arguments of a warning
    have hroots : arguments.roots = [] := (congrArg PrintArguments.roots (warning.inj hs)).symm
    exact .inl ⟨.warning arguments, vm, [], rfl, trivial, hroots.symm, .refl _, hreg, hs⟩
  | stringFormat state =>
    exact restored_within FormatState.parks (fun _ => rfl) (fun _ => rfl)
      (fun _ _ => trivial) (fun _ => rfl) (stringFormat.inj hs) hreg
  | stringGSub state =>
    exact restored_within GSubState.parks (fun _ => rfl) (fun _ => rfl)
      (fun _ _ => trivial) (fun _ => rfl) (stringGSub.inj hs) hreg
  | mathMinMax state =>
    exact restored_within MinMaxState.parks (fun _ => rfl) (fun _ => rfl)
      (fun _ _ => trivial) (fun _ => rfl) (mathMinMax.inj hs) hreg
  | tableSort state =>
    exact restored_within SortState.parks (fun _ => rfl) (fun _ => rfl)
      (fun _ h => h) (fun _ => rfl) (tableSort.inj hs) hreg
  | tableOp state =>
    exact restored_within TableOpState.parks (fun _ => rfl) (fun _ => rfl)
      (fun _ h => h) (fun _ => rfl) (tableOp.inj hs) hreg
  | doFile | debugConsole | debugConsoleStringify | toString | pairs | ipairsAux =>
    exact .inl ⟨_, vm, [], rfl, trivial, rfl, .refl _, hreg, rfl⟩

theorem parks : owner.Parks clear restoreRoots where
  clears := clear_clears
  restores := restoreRoots_restores
  ids := by
    intro basic
    cases basic with
    | packagePath state => exact PathSearcherState.parks.ids state
    | require state => exact RequireState.parks.ids state
    | tableSort state => exact SortState.parks.ids state
    | tableOp state => exact TableOpState.parks.ids state
    | debugHook _ _ _ result => exact PrintArguments.parks.option.ids result
    | stringGSub state => exact GSubState.parks.ids state
    | _ => rfl
  shape := by
    intro basic
    cases basic with
    | packagePath state => exact PathSearcherState.parks.shape state
    | require state => exact RequireState.parks.shape state
    | tableSort state => exact SortState.parks.shape state
    | tableOp state => exact TableOpState.parks.shape state
    | _ => trivial
  idem := by
    intro basic
    cases basic with
    | debugHook hook target _ result =>
      exact congrArg (debugHook hook target none) (PrintArguments.parks.option.idem result)
    | stringGSub state => exact congrArg stringGSub (GSubState.parks.idem state)
    | _ => rfl
  objects := by
    intro basic
    cases basic with
    | debugHook _ _ _ result => exact PrintArguments.parks.option.objects result
    | stringGSub state => exact GSubState.parks.objects state
    | _ => rfl

end BasicPending

namespace PendingOp

def rooted (s : PendingOp) : List (Option RootId) × Option BasicPending := (s.roots, s.basic)

def withRooted (s : PendingOp) (t : List (Option RootId) × Option BasicPending) : PendingOp :=
  { s with roots := t.1, basic := t.2 }

def owner : Owner PendingOp :=
  Owner.lift rooted withRooted fun s => (Owner.slots s.values).prod BasicPending.owner.option

theorem parks : owner.Parks parkRoots restoreRoots := by
  have h := Owner.Parks.pair_bare rooted withRooted (fun s => Owner.slots s.values)
    (fun _ => BasicPending.owner.option) (fun _ _ => rfl) (fun _ _ _ => rfl) (fun _ _ => rfl)
    (fun _ _ => rfl) (fun s => slots_parks false s.values)
    (fun _ => BasicPending.parks.option)
  simp only [onField_onFst, onField_onSnd] at h
  have hparks : owner.Parks parkRoots _ := h
  have hrestores := Owner.Restores.onError_bind (fun s => onRoots (fillRoots false s.values))
    (fun _ => onBasic BasicPending.restoreRoots) hparks.restores hparks.tidies
  exact { hparks with restores := hrestores }

end PendingOp

namespace PendingStack

def owner : Owner PendingStack :=
  Owner.lift entries (fun _ l => ⟨l⟩) fun _ => PendingOp.owner.list

theorem parks : owner.Parks parkRoots restoreRoots :=
  (Owner.Parks.lift entries (fun _ l => ⟨l⟩) (fun _ _ => rfl) (fun _ _ _ => rfl) (fun _ _ => rfl)
    fun _ => PendingOp.parks.list).onError

end PendingStack

/-! ### What is traced, and what is neglected -/

namespace BasicPending

/-- Objects of roots that `clear` removes and neither `restoreRoots` nor `traceChildren`
    knows: the arguments of a warning and the target of a debug hook. -/
def neglected : BasicPending → List ObjectRef
  | .warning arguments => if arguments.roots = [] then [] else valueRefs arguments.values
  | .debugHook _ target targetRoot _ => if targetRoot.isSome then target.toList else []
  | _ => []

/-- The variant holds no root that is neglected. -/
def Covered : BasicPending → Prop
  | .warning arguments => arguments.roots = [] ∨ valueRefs arguments.values = []
  | .debugHook _ target targetRoot _ => targetRoot = none ∨ target = none
  | _ => True

theorem covered_iff (basic : BasicPending) : basic.Covered ↔ basic.neglected = [] := by
  cases basic with
  | warning arguments =>
    by_cases h : arguments.roots = [] <;> simp [Covered, neglected, h]
  | debugHook hook target targetRoot result =>
    cases targetRoot <;> cases target <;> simp [Covered, neglected]
  | _ => simp [Covered, neglected]

/-- Parking does not change what is traced. -/
theorem traceChildren_unrooted (basic : BasicPending) :
    (owner.unrooted basic).traceChildren = basic.traceChildren := by
  cases basic with
  | debugHook hook target targetRoot result => cases result <;> rfl
  | stringGSub state =>
    rcases state with ⟨arguments, _ | callback⟩ <;> rfl
  | _ => rfl

/-- Every object that gets its root back is traced meanwhile. -/
theorem mem_traceChildren {basic : BasicPending} {object : ObjectRef}
    (h : object ∈ owner.objects basic) : object ∈ basic.traceChildren := by
  cases basic with
  | debugHook hook target targetRoot result =>
    refine List.mem_cons_of_mem _ ?_
    cases result <;> exact h
  | osCalendarTime state =>
    rcases state with ⟨table, _ | key, tableRoot, keyRoot⟩ <;> exact h
  | stringGSub state =>
    rcases state with ⟨arguments, _ | callback⟩ <;> exact h
  | loadReader state =>
    show object ∈ valueRefs ([state.reader] ++ [state.environment])
    rw [valueRefs, List.filterMap_append]
    exact h
  | tableOp state =>
    show object ∈ valueRefs (state.values ++ state.output)
    rw [valueRefs, List.filterMap_append]
    exact h
  | _ => exact h

end BasicPending

namespace PendingOp

/-- The neglected objects of an operation. -/
def neglected (s : PendingOp) : List ObjectRef := (s.basic.map BasicPending.neglected).getD []

theorem traceChildren_unrooted (s : PendingOp) :
    (owner.unrooted s).traceChildren = s.traceChildren := by
  rcases s with ⟨values, callerModule, _ | basic, roots⟩
  · rfl
  · exact congrArg (callerModule.toList ++ valueRefs values ++ ·)
      (BasicPending.traceChildren_unrooted basic)

theorem mem_traceChildren {s : PendingOp} {object : ObjectRef} (h : object ∈ owner.objects s) :
    object ∈ s.traceChildren := by
  rcases s with ⟨values, callerModule, _ | basic, roots⟩
  · exact List.mem_append_left _ (List.mem_append_right _ (by simpa [owner, Owner.lift, Owner.prod,
      Owner.slots, Owner.option, rooted] using h))
  · rcases List.mem_append.mp h with h | h
    · exact List.mem_append_left _ (List.mem_append_right _ h)
    · exact List.mem_append_right _ (BasicPending.mem_traceChildren h)

end PendingOp

namespace PendingStack

/-- The objects a running execution has roots for. -/
def heldObjects (s : PendingStack) : List ObjectRef :=
  owner.objects s ++ s.entries.flatMap PendingOp.neglected

/-- No entry holds a root that is neglected: a warning with roots has no object argument, a
    debug hook with a target root has no target. -/
def Covered (s : PendingStack) : Prop := ∀ op ∈ s.entries, ∀ basic ∈ op.basic, basic.Covered

theorem covered_iff (s : PendingStack) :
    s.Covered ↔ s.entries.flatMap PendingOp.neglected = [] := by
  rw [List.flatMap_eq_nil_iff]
  refine forall₂_congr fun op _ => ?_
  rcases op with ⟨values, callerModule, _ | basic, roots⟩
  · simp [PendingOp.neglected]
  · simpa [PendingOp.neglected] using basic.covered_iff

theorem traceChildren_unrooted (s : PendingStack) :
    (owner.unrooted s).traceChildren = s.traceChildren := by
  show (s.entries.map PendingOp.owner.unrooted).flatMap _ = _
  rw [List.flatMap_map]
  exact congrArg List.flatten (List.map_congr_left fun op _ => op.traceChildren_unrooted)

theorem mem_traceChildren {s : PendingStack} {object : ObjectRef} (h : object ∈ owner.objects s) :
    object ∈ s.traceChildren := by
  obtain ⟨op, hop, hobject⟩ := List.mem_flatMap.mp h
  exact List.mem_flatMap.mpr ⟨op, hop, PendingOp.mem_traceChildren hobject⟩

/-- A running execution with the registrations `E`, beside the other registrations `A`: the
    root fields name the registrations, one for each object held. -/
structure Rooted (vm : Vm) (s : PendingStack) (E A : List RootEntry) : Prop where
  shape : owner.shaped s
  ids : E.map RootEntry.id = owner.rootIds s
  objects : (E.map RootEntry.object).Perm s.heldObjects
  registered : vm.Registered (E ++ A)

/-- Parking the execution removes exactly its registrations, every object they kept is traced
    afterwards, and restoring later, in any VM state and beside any registrations `B`, adds one
    for each of the same objects or, when it fails, none. -/
def ParkSafe (vm : Vm) (s : PendingStack) (E A : List RootEntry) : Prop :=
  ∃ parked vm', parkRoots (s, vm) = (.ok (), parked, vm') ∧ vm'.Registered A ∧
    (∀ e ∈ E, e.object ∈ parked.traceChildren) ∧
    ∀ vm₂ B, vm₂.Registered B →
      match restoreRoots (parked, vm₂) with
      | (.ok _, _, vm₃) => ∃ E', (E'.map RootEntry.object).Perm (E.map RootEntry.object) ∧
          vm₃.Registered (E' ++ B)
      | (.error _, _, vm₃) => vm₃.Registered B

/-- In some VM state the roots of the execution can be restored. -/
def Restorable (s : PendingStack) : Prop :=
  ∃ vm B s' vm', vm.Registered B ∧ restoreRoots (owner.unrooted s, vm) = (.ok (), s', vm')

/-- What a failed restore leaves: the registrations that were there. -/
theorem restoreRoots_error {s : PendingStack} {vm : Vm} {B : List RootEntry}
    (hreg : vm.Registered B) {e : VmError} {s' : PendingStack} {vm' : Vm}
    (h : restoreRoots (owner.unrooted s, vm) = (.error e, s', vm')) : vm'.Registered B := by
  rcases hrun : each PendingOp.restoreRoots (owner.unrooted s, vm) with ⟨e' | _, s₁, vm₁⟩
  · have hlist := Owner.Parks.lift entries (fun _ l => ⟨l⟩) (fun _ _ => rfl) (fun _ _ _ => rfl)
      (fun _ _ => rfl) fun _ : PendingStack => PendingOp.parks.list
    rcases hlist.restores (parks.idem s) hreg with ⟨_, _, _, hok, -⟩ |
      ⟨e₂, s₂, vm₂, E, herr, hsh, hid, hreg₂⟩
    · exact absurd (hrun.symm.trans hok) (by simp)
    · obtain ⟨vm₃, hpark, hreg₃⟩ := parks.clears hsh hid hreg₂
      have := (Prog.onError_apply_error herr hpark).symm.trans h
      obtain ⟨-, -, rfl⟩ : e₂ = e ∧ owner.unrooted s₂ = s' ∧ vm₃ = vm' := by simpa using this
      exact hreg₃
  · exact absurd ((Prog.onError_apply_ok hrun).symm.trans h) (by simp)

/-- What a successful restore adds. -/
theorem restoreRoots_ok {s : PendingStack} {vm : Vm} {B : List RootEntry} (hreg : vm.Registered B)
    {s' : PendingStack} {vm' : Vm}
    (h : restoreRoots (owner.unrooted s, vm) = (.ok (), s', vm')) :
    ∃ E, (E.map RootEntry.object).Perm (owner.objects s) ∧ vm'.Registered (E ++ B) := by
  rcases parks.restores (parks.idem s) hreg with ⟨s₁, vm₁, E, hok, -, -, hob, hreg₁, -⟩ |
    ⟨_, _, _, _, herr, -⟩
  · obtain ⟨rfl, rfl⟩ : s₁ = s' ∧ vm₁ = vm' := by simpa using hok.symm.trans h
    exact ⟨E, hob.trans (.of_eq (parks.objects s)), hreg₁⟩
  · exact absurd (herr.symm.trans h) (by simp)

/-- Two registrations of the same VM beside the same others are for the same objects. -/
theorem registered_objects {vm : Vm} {E E' B : List RootEntry} (h : vm.Registered (E ++ B))
    (h' : vm.Registered (E' ++ B)) :
    (E.map RootEntry.object).Perm (E'.map RootEntry.object) :=
  ((List.perm_append_right_iff B).mp (h.2.symm.trans h'.2)).map _

/-- **Parking is safe** exactly when no neglected root is held.  Only the converse needs a VM
    in which the roots can be restored: where they never can, nothing is restored wrongly. -/
theorem parkSafe_iff {vm : Vm} {s : PendingStack} {E A : List RootEntry}
    (h : Rooted vm s E A) :
    (s.Covered → ParkSafe vm s E A) ∧ (ParkSafe vm s E A → s.Restorable → s.Covered) := by
  obtain ⟨vm', hpark, hreg⟩ := parks.clears h.shape h.ids h.registered
  constructor
  · intro hcov
    have hheld : s.heldObjects = owner.objects s := by
      rw [heldObjects, s.covered_iff.mp hcov, List.append_nil]
    refine ⟨owner.unrooted s, vm', hpark, hreg, fun e he => ?_, fun vm₂ B hB => ?_⟩
    · rw [traceChildren_unrooted]
      refine mem_traceChildren ?_
      rw [← hheld]
      exact h.objects.mem_iff.mp (List.mem_map_of_mem he)
    · rcases hrun : restoreRoots (owner.unrooted s, vm₂) with ⟨e | _, s₃, vm₃⟩
      · exact restoreRoots_error hB hrun
      · obtain ⟨E', hob, hreg'⟩ := restoreRoots_ok hB hrun
        exact ⟨E', (hob.trans (.of_eq hheld.symm)).trans h.objects.symm, hreg'⟩
  · rintro ⟨parked, vm'', hpark', -, -, hrestore⟩ ⟨vm₂, B, s₃, vm₃, hB, hrun⟩
    obtain ⟨rfl, rfl⟩ : owner.unrooted s = parked ∧ vm' = vm'' := by
      simpa using hpark.symm.trans hpark'
    have hsame := hrestore vm₂ B hB
    rw [hrun] at hsame
    obtain ⟨E₁, hob₁, hreg₁⟩ := hsame
    obtain ⟨E₂, hob₂, hreg₂⟩ := restoreRoots_ok hB hrun
    -- as many objects are restored as were held, so none was neglected
    have hperm := (hob₂.symm.trans (registered_objects hreg₂ hreg₁)).trans (hob₁.trans h.objects)
    have hlen := hperm.length_eq
    rw [heldObjects, List.length_append] at hlen
    exact s.covered_iff.mpr (List.length_eq_zero_iff.mp (by omega))

/-- The object in a slot that was used once. -/
def sampleObject (slot : Nat) : ObjectRef := .heap ⟨⟨1⟩, slot, ⟨0⟩⟩ (some slot)

/-- An operation that holds a value and, as the arguments of a library call, this value and
    another one. -/
def sampleStack (basic : PrintArguments → BasicPending) : PendingStack :=
  ⟨[{ values := [.object (sampleObject 0), .nil, .nil, .nil, .nil]
      callerModule := none
      basic := some (basic
        ⟨[.object (sampleObject 0), .object (sampleObject 1)], [⟨⟨1⟩, 2⟩, ⟨⟨1⟩, 1⟩]⟩)
      roots := [some ⟨⟨1⟩, 3⟩, none, none, none, none] }]⟩

/-- Its registrations. -/
def sampleRoots : List RootEntry :=
  [⟨⟨⟨1⟩, 3⟩, .temporary, sampleObject 0, none⟩, ⟨⟨⟨1⟩, 2⟩, .temporary, sampleObject 1, none⟩,
   ⟨⟨⟨1⟩, 1⟩, .temporary, sampleObject 0, none⟩]

/-- A VM with these registrations only. -/
def sampleVm : Vm :=
  { Vm.new ⟨1⟩ .lua54 0 .granting (fun _ => false) 2 with roots := ⟨⟨1⟩, sampleRoots, 4⟩ }

theorem sampleVm_registered : sampleVm.Registered (sampleRoots ++ []) :=
  ⟨⟨by decide, by decide, by decide⟩, .refl _⟩

theorem parkSafe_iff_print : ParkSafe sampleVm (sampleStack .print) sampleRoots [] := by
  have hrooted : Rooted sampleVm (sampleStack .print) sampleRoots [] :=
    ⟨by simp [owner, Owner.lift, Owner.list, PendingOp.owner, Owner.prod, Owner.slots, Owner.option,
        sampleStack, PendingOp.rooted, BasicPending.owner],
      rfl, by decide, sampleVm_registered⟩
  refine (parkSafe_iff hrooted).1 ?_
  intro op hop basic hbasic
  obtain rfl := List.mem_singleton.mp hop
  obtain rfl := Option.mem_some_iff.mp hbasic
  trivial

/-- The second argument of a warning is not traced once its root is parked. -/
theorem not_parkSafe_warning : ¬ ParkSafe sampleVm (sampleStack .warning) sampleRoots [] := by
  rintro ⟨parked, vm', hpark, -, htrace, -⟩
  obtain rfl : owner.unrooted (sampleStack .warning) = parked := by
    obtain ⟨_, hpark', -⟩ := parks.clears (s := sampleStack .warning)
      (by simp [owner, Owner.lift, Owner.list, PendingOp.owner, Owner.prod, Owner.slots, Owner.option,
        sampleStack, PendingOp.rooted, BasicPending.owner]) rfl sampleVm_registered
    exact congrArg (·.2.1) (hpark'.symm.trans hpark)
  exact absurd (htrace ⟨⟨⟨1⟩, 2⟩, .temporary, sampleObject 1, none⟩ (by decide)) (by decide)

end PendingStack

end RivetLua.Runtime
