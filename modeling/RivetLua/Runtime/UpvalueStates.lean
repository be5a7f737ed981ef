import RivetLua.Runtime.TrackedRoots

namespace RivetLua.Runtime

open RivetLua.Core RivetLua.Gc StateProg

/-!
# Runtime — the states of upvalues

What the heap operations of a frame do to upvalues.

* `Execution.upvalueState_eq_ok` — an upvalue that resolves, and its state;
* `UpvalueState.Becomes`, `Execution.Follows` — an open upvalue may be closed, a closed one stays as
  it is;
* `closeUpvalue_spec` — closing changes one upvalue, or fails before it does;
* `Vm.Tracks.allocate`, `Vm.Tracks.reclaimUnpublished` — a new object, and taking one back.
-/

theorem HeapObject.node?_of_payload {o : HeapObject} {kind : NodeKind} {edges : List ObjectRef}
    (h : o.payload = .node kind edges) : o.node? = some (kind, edges, o.children) := by
  unfold HeapObject.node?
  rw [h]

/-- The slot and the state of an upvalue. -/
theorem Execution.upvalueState_eq_ok {s : Execution} {object : ObjectRef} {u : UpvalueState} :
    s.upvalueState object = .ok u ↔ ∃ id o edges, object.identity = some id ∧
      s.vm.checkedSlot object = .ok o ∧ o.object.payload = .node .upvalue edges ∧
      s.upvalues id.slot = u := by
  unfold Execution.upvalueState
  cases hres : s.vm.checkedSlot object with
  | error e => simp
  | ok o =>
    obtain ⟨id, hid, -⟩ := Vm.checkedSlot_eq_ok.mp hres
    rw [hid]
    cases hpayload : o.object.payload with
    | node kind edges => cases kind <;> simp [hpayload]
    | _ => simp [hpayload]

/-- An open upvalue may be closed. -/
inductive UpvalueState.Becomes : UpvalueState → UpvalueState → Prop
  | same (u : UpvalueState) : Becomes u u
  | close (thread : VmId) (coroutine : Option ObjectRef) (slot : Nat) (value : Value) :
      Becomes (.opened thread coroutine slot) (.closed value)

theorem UpvalueState.Becomes.trans {u u' u'' : UpvalueState} (h : u.Becomes u')
    (h' : u'.Becomes u'') : u.Becomes u'' := by
  cases h with
  | same => exact h'
  | close thread coroutine slot value =>
    cases h'
    exact .close thread coroutine slot value

/-- A later state: every upvalue has become what it is from what it was, or is newer. -/
structure Execution.Follows (s s' : Execution) : Prop where
  id : s'.vm.id = s.vm.id
  coroutine : s'.coroutine = s.coroutine
  stackBase : s'.frame.stackBase = s.frame.stackBase
  token : s.vm.nextToken ≤ s'.vm.nextToken
  upvalue : ∀ r u', s'.upvalueState r = .ok u' → (∃ u, s.upvalueState r = .ok u ∧ u.Becomes u') ∨
    ∃ t, r.runtimeToken = some t ∧ s.vm.nextToken ≤ t

section Follows

variable {s s' s'' : Execution}

theorem Execution.Follows.refl (s : Execution) : s.Follows s :=
  ⟨rfl, rfl, rfl, Nat.le_refl _, fun _ u hu => .inl ⟨u, hu, .same u⟩⟩

theorem Execution.Follows.trans (h : s.Follows s') (h' : s'.Follows s'') : s.Follows s'' where
  id := h'.id.trans h.id
  coroutine := h'.coroutine.trans h.coroutine
  stackBase := h'.stackBase.trans h.stackBase
  token := h.token.trans h'.token
  upvalue := fun r u'' hu'' => by
    rcases h'.upvalue r u'' hu'' with ⟨u', hu', hb'⟩ | ⟨t, ht, hle⟩
    · rcases h.upvalue r u' hu' with ⟨u, hu, hb⟩ | hnew
      · exact .inl ⟨u, hu, hb.trans hb'⟩
      · exact .inr hnew
    · exact .inr ⟨t, ht, h.token.trans hle⟩

/-- **A closed upvalue keeps its value.** -/
theorem Execution.Follows.closed (h : s.Follows s') (htidy : s.vm.Tidy) {r : ObjectRef}
    {value : Value} {u' : UpvalueState} (hclosed : s.upvalueState r = .ok (.closed value))
    (hu' : s'.upvalueState r = .ok u') : u' = .closed value := by
  rcases h.upvalue r u' hu' with ⟨u, hu, hb⟩ | ⟨t, ht, hle⟩
  · obtain rfl : UpvalueState.closed value = u := by simpa [hclosed] using hu
    cases hb
    rfl
  · -- the token of an object that resolves has been given out
    obtain ⟨id, o, edges, -, hres, -⟩ := Execution.upvalueState_eq_ok.mp hclosed
    obtain ⟨t', ht', hlt⟩ := htidy.token_lt hres
    obtain rfl : t = t' := by simpa [ht] using ht'
    omega

/-- The objects are those of before or newer, and the states are the same. -/
theorem Execution.Follows.of_onward (h : s.vm.Onward s'.vm) (hcoroutine : s'.coroutine = s.coroutine)
    (hbase : s'.frame.stackBase = s.frame.stackBase) (hupvalues : s'.upvalues = s.upvalues) :
    s.Follows s' where
  id := h.id
  coroutine := hcoroutine
  stackBase := hbase
  token := h.token
  upvalue := fun r u' hu' => by
    obtain ⟨id, o', edges, hid, hres', hpayload, hstate⟩ := Execution.upvalueState_eq_ok.mp hu'
    rcases h.checkedSlot hres' with ⟨o, hres, hd⟩ | hnew
    · refine .inl ⟨u', Execution.upvalueState_eq_ok.mpr ⟨id, o, edges, hid, hres, ?_, ?_⟩, .same u'⟩
      · rw [HeapObject.node?_eq_some (hd.node.symm.trans (HeapObject.node?_of_payload hpayload))]
      · rw [← hstate, hupvalues]
    · exact .inr hnew

/-- The objects and the states are the same. -/
theorem Execution.upvalueState_of_sameObjects (h : s.vm.SameObjects s'.vm)
    (hupvalues : s'.upvalues = s.upvalues) (r : ObjectRef) :
    s'.upvalueState r = s.upvalueState r := by
  unfold Execution.upvalueState
  rw [h.checkedSlot r, hupvalues]

/-- An object that still resolves has its state. -/
theorem Execution.upvalueState_of_onward (h : s.vm.Onward s'.vm) (htidy : s.vm.Tidy)
    (hupvalues : s'.upvalues = s.upvalues) {r : ObjectRef} {u : UpvalueState}
    (hu : s.upvalueState r = .ok u) {o' : OccupiedSlot} (hres' : s'.vm.checkedSlot r = .ok o') :
    s'.upvalueState r = .ok u := by
  obtain ⟨id, o, edges, hid, hres, hpayload, hstate⟩ := Execution.upvalueState_eq_ok.mp hu
  rcases h.checkedSlot hres' with ⟨o₁, hres₁, hd⟩ | ⟨t, ht, hle⟩
  · obtain rfl : o = o₁ := by simpa [hres] using hres₁
    refine Execution.upvalueState_eq_ok.mpr ⟨id, o', edges, hid, hres', ?_, by rw [hupvalues, hstate]⟩
    rw [HeapObject.node?_eq_some (hd.node.trans (HeapObject.node?_of_payload hpayload))]
  · obtain ⟨t', ht', hlt⟩ := htidy.token_lt hres
    obtain rfl : t = t' := by simpa [ht] using ht'
    omega

end Follows

/-! ### Closing -/

/-- The barrier of a write: the owner may be remembered, and no object changes. -/
structure Vm.Barred (vm : Vm) (owner : ObjectRef) (vm' : Vm) : Prop where
  id : vm'.id = vm.id
  token : vm'.nextToken = vm.nextToken
  slots : vm'.slots = vm.slots
  roots : vm'.roots = vm.roots
  remembered : ∀ r ∈ vm'.gc.remembered, r ∈ vm.gc.remembered ∨ r = owner

section Barrier

variable {vm vm' : Vm} {K : List RootEntry} {T : List RootId} {owner : ObjectRef}

theorem Vm.Barred.refl (vm : Vm) (owner : ObjectRef) : vm.Barred owner vm :=
  ⟨rfl, rfl, rfl, rfl, fun _ hr => .inl hr⟩

theorem keeps_barred_writeRef? (vm : Vm) (owner : ObjectRef) (field : RefField)
    (child : Option ObjectRef) : Keeps (vm.Barred owner) (writeRef? owner field child) := by
  have hremember : Keeps (vm.Barred owner) (rememberGcOwner owner) := by
    refine Keeps.of_apply fun vm' h => ?_
    rcases rememberGcOwner_cases owner vm' with ⟨r, l, hrun⟩ | ⟨l, -, hrun⟩
    · rw [hrun]
      exact ⟨h.id, h.token, h.slots, h.roots, h.remembered⟩
    · rw [hrun]
      refine ⟨h.id, h.token, h.slots, h.roots, fun r hr => ?_⟩
      rcases List.mem_append.mp hr with hr | hr
      · exact h.remembered r hr
      · exact .inr (List.mem_singleton.mp hr)
  have hmark : ∀ child, Keeps (vm.Barred owner) (gcMarkSlot child) := fun child => by
    refine Keeps.of_apply fun vm' h => ?_
    have hsame := gcMarkSlot_sameObjects child vm'
    obtain ⟨gc, hgc⟩ := gcMarkSlot_frame child vm'
    rw [hgc] at hsame ⊢
    exact ⟨h.id, h.token, h.slots, h.roots, fun r hr => h.remembered r (hsame.remembered ▸ hr)⟩
  cases child with
  | none => exact Keeps.pure ()
  | some child =>
    refine Keeps.bind Keeps.get fun vm => Keeps.bind (Keeps.ofExcept _) fun o =>
      Keeps.bind (Keeps.ofExcept _) fun c => Keeps.bind (Keeps.when hremember) fun _ =>
        Keeps.bind (Keeps.ofExcept _) fun weak => Keeps.when ?_
    exact Keeps.bind (Keeps.ofExcept _) fun _ => Keeps.when (hmark child)

theorem Vm.Barred.occupied? (h : vm.Barred owner vm') (i : Nat) :
    vm'.occupied? i = vm.occupied? i := by
  unfold Vm.occupied?
  rw [h.slots]

theorem Vm.Barred.checkedSlot (h : vm.Barred owner vm') (r : ObjectRef) :
    vm'.checkedSlot r = vm.checkedSlot r := by
  unfold Vm.checkedSlot
  simp only [h.id, h.occupied?]

/-- **A barrier that fails has changed nothing**: once the owner is remembered, there is a colour for
    each object and room for a gray one. -/
theorem writeRef?_error (h : vm.Tidy) {child : Option ObjectRef} {e : VmError}
    (hrun : writeRef? owner .upvalue child vm = (.error e, vm')) :
    ∃ l, vm' = { vm with ledger := l } := by
  cases child with
  | none => cases hrun
  | some child =>
    change writeRef owner .upvalue child vm = _ at hrun
    unfold writeRef at hrun
    rw [Prog.bind_apply_ok (Prog.get_apply vm)] at hrun
    cases howner : vm.checkedSlot owner with
    | error e' =>
      rw [howner, Prog.bind_apply_error (show Prog.ofExcept (.error e') vm = (.error e', vm) from rfl)]
        at hrun
      exact ⟨vm.ledger, (Prod.mk.inj hrun).2.symm⟩
    | ok o =>
    rw [howner, Prog.bind_apply_ok (show Prog.ofExcept (.ok o) vm = (.ok o, vm) from rfl)] at hrun
    cases hchild : vm.checkedSlot child with
    | error e' =>
      rw [hchild, Prog.bind_apply_error (show Prog.ofExcept (.error e') vm = (.error e', vm) from rfl)]
        at hrun
      exact ⟨vm.ledger, (Prod.mk.inj hrun).2.symm⟩
    | ok c =>
    rw [hchild, Prog.bind_apply_ok (show Prog.ofExcept (.ok c) vm = (.ok c, vm) from rfl)] at hrun
    -- the rest cannot fail
    have hrest : ∀ vm₁ : Vm, vm₁.Tidy → vm₁.checkedSlot child = .ok c → ∃ vm₂,
        (Prog.ofExcept (vm.skipsBarrier owner .upvalue c) >>= fun weak =>
          Prog.when (weak = false ∧ vm.gc.phase ≠ .pause) (do
            let hit ← Prog.ofExcept (vm.barrierHits owner child)
            Prog.when (hit = true) (gcMarkSlot child)) : VmM Unit) vm₁ = (.ok (), vm₂) := by
      intro vm₁ htidy hres
      rw [show vm.skipsBarrier owner .upvalue c = .ok false from rfl,
        Prog.bind_apply_ok (show Prog.ofExcept (.ok false) vm₁ = (.ok false, vm₁) from rfl)]
      by_cases hphase : vm.gc.phase = .pause
      · exact ⟨vm₁, congrFun (if_neg fun hand => hand.2 hphase) vm₁⟩
      unfold Prog.when
      rw [if_pos ⟨rfl, hphase⟩]
      obtain ⟨hit, hhit⟩ : ∃ hit, vm.barrierHits owner child = .ok hit := by
        obtain ⟨i, hi, hocc, -⟩ := Vm.occupied_of_checkedSlot howner
        obtain ⟨j, hj, hocc', -⟩ := Vm.occupied_of_checkedSlot hchild
        obtain ⟨color, hcolor⟩ := h.color_of_occupied hocc
        obtain ⟨color', hcolor'⟩ := h.color_of_occupied hocc'
        unfold Vm.barrierHits
        rw [hi, hj]
        simp only [hcolor, hcolor']
        cases color <;> exact ⟨_, rfl⟩
      rw [hhit, Prog.bind_apply_ok (show Prog.ofExcept (.ok hit) vm₁ = (.ok hit, vm₁) from rfl)]
      cases hit with
      | false => exact ⟨vm₁, rfl⟩
      | true =>
        obtain ⟨-, vm₂, -, hmark, -⟩ := htidy.mark hres
        exact ⟨vm₂, hmark⟩
    by_cases hold : vm.gc.mode = .generational ∧ o.age = .old ∧ c.age ≠ .old
    · have hnone : vm.Guarded ⟨false, fun _ => false⟩ [] :=
        ⟨h, fun r hr => nomatch (Vm.mem_anchors.mp hr).2⟩
      have htidy := ((keeps_guarded_rememberGcOwner owner).apply hnone).tidy
      rw [show Prog.when (vm.gc.mode = .generational ∧ o.age = .old ∧ c.age ≠ .old)
        (rememberGcOwner owner) = rememberGcOwner owner from if_pos hold] at hrun
      rcases rememberGcOwner_cases owner vm with ⟨_ | _, l, hremember⟩ | ⟨l, -, hremember⟩
      · rw [Prog.bind_apply_error hremember] at hrun
        exact ⟨l, (Prod.mk.inj hrun).2.symm⟩
      all_goals
        rw [hremember] at htidy
        rw [Prog.bind_apply_ok hremember] at hrun
        obtain ⟨vm₂, hok⟩ := hrest _ htidy hchild
        cases hrun.symm.trans hok
    · rw [show Prog.when (vm.gc.mode = .generational ∧ o.age = .old ∧ c.age ≠ .old)
        (rememberGcOwner owner) = pure () from if_neg hold] at hrun
      obtain ⟨vm₂, hok⟩ := hrest vm h hchild
      cases hrun.symm.trans hok

/-- Another upvalue does not notice. -/
theorem Vm.Cell.barred {parent : Option ObjectRef} {cell : ObjectRef} (h : vm.Cell parent cell)
    (hb : vm.Barred owner vm') (hne : cell ≠ owner) : vm'.Cell parent cell where
  node := fun i o ho => h.node i o (hb.occupied? i ▸ ho)
  unremembered := fun hmem => by
    rcases hb.remembered cell hmem with hmem | heq
    · exact h.unremembered hmem
    · exact hne heq
  outlived := fun i j o c ho href hc => h.outlived i j o c (hb.occupied? i ▸ ho) href
    (hb.occupied? j ▸ hc)

/-- **The barrier keeps the roots in use.** -/
theorem Vm.Tracks.writeRef? (h : vm.Tracks K T) (field : RefField) (child : Option ObjectRef)
    {o : OccupiedSlot} (hres : vm.checkedSlot owner = .ok o) :
    (writeRef? owner field child vm).2.Tracks K T := by
  obtain ⟨A, hholds, hids⟩ := h.roots
  have hbarred := (keeps_barred_writeRef? vm owner field child).apply (.refl vm owner)
  refine ⟨⟨A, ?_, hids⟩, h.nodup⟩
  exact {
    tidy := by
      have hnone : vm.Guarded ⟨false, fun _ => false⟩ [] :=
        ⟨h.tidy, fun r hr => nomatch (Vm.mem_anchors.mp hr).2⟩
      exact ((keeps_guarded_writeRef? owner field child).apply hnone).tidy
    allocated := fun r hr => by
      rw [hbarred.token]
      rcases hbarred.remembered r hr with hr | rfl
      · exact hholds.allocated r hr
      · exact h.tidy.token_lt hres
    registered := by
      show (_ : RootSet).Wf ∧ _
      rw [hbarred.roots]
      exact hholds.registered
    kept := fun k hk => by
      obtain ⟨hmem, hlease, hsheltered⟩ := hholds.kept k hk
      exact ⟨hmem, hlease, (keeps_guarded_writeRef? owner field child).apply hsheltered.guarded,
        (keeps_rooted_writeRef? hlease owner field child).apply hsheltered.rooted⟩
    inUse := nofun
    cells := nofun }

/-- The payload of an object changes. -/
theorem Vm.Tracks.setPayload (h : vm.Tracks K T) (i : Nat) (payload : HeapPayload) :
    (vm.setPayload i payload).Tracks K T := by
  obtain ⟨A, hholds, hids⟩ := h.roots
  obtain ⟨slots, hframe⟩ := vm.setPayload_frame i payload
  refine ⟨⟨A, ?_, hids⟩, h.nodup⟩
  exact {
    tidy := by
      have hnone : vm.Guarded ⟨false, fun _ => false⟩ [] :=
        ⟨h.tidy, fun r hr => nomatch (Vm.mem_anchors.mp hr).2⟩
      exact (hnone.setPayload i payload).tidy
    allocated := by
      rw [hframe]
      exact hholds.allocated
    registered := by
      rw [hframe]
      exact hholds.registered
    kept := fun k hk => by
      obtain ⟨hmem, hlease, hsheltered⟩ := hholds.kept k hk
      exact ⟨hmem, hlease, hsheltered.guarded.setPayload i payload,
        hsheltered.rooted.setPayload i payload⟩
    inUse := nofun
    cells := nofun }

theorem Vm.occupied?_setPayload {i : Nat} {o : OccupiedSlot} (ho : vm.occupied? i = some o)
    (payload : HeapPayload) (j : Nat) : (vm.setPayload i payload).occupied? j =
      if j = i then some { o with object := { o.object with payload := payload } }
      else vm.occupied? j := by
  unfold Vm.setPayload
  rw [ho]
  exact Vm.occupied?_setOccupied ho j

/-- The object of another slot does not notice. -/
theorem Vm.Cell.setPayload {parent : Option ObjectRef} {cell : ObjectRef} (h : vm.Cell parent cell)
    {i : Nat} {o : OccupiedSlot} (ho : vm.occupied? i = some o) (hne : o.reference ≠ cell)
    (payload : HeapPayload) : (vm.setPayload i payload).Cell parent cell := by
  have hback : ∀ j o', (vm.setPayload i payload).occupied? j = some o' →
      ∃ o₀, vm.occupied? j = some o₀ ∧ o'.reference = o₀.reference ∧ o'.age = o₀.age
        ∧ o'.survivals = o₀.survivals ∧ (j = i ∨ o' = o₀) := by
    intro j o' ho'
    rw [Vm.occupied?_setPayload ho] at ho'
    by_cases hj : j = i
    · rw [if_pos hj, Option.some.injEq] at ho'
      subst ho' hj
      exact ⟨o, ho, rfl, rfl, rfl, .inl rfl⟩
    · rw [if_neg hj] at ho'
      exact ⟨o', ho', rfl, rfl, rfl, .inr rfl⟩
  refine ⟨fun j o' ho' href => ?_, fun hmem => ?_, fun j k o' c' ho' href hc' hp => ?_⟩
  · obtain ⟨o₀, ho₀, href₀, -, -, rfl | rfl⟩ := hback j o' ho'
    · obtain rfl : o = o₀ := by simpa [ho] using ho₀
      exact absurd (href₀.symm.trans href) hne
    · exact h.node j o' ho₀ href
  · obtain ⟨slots, hframe⟩ := vm.setPayload_frame i payload
    rw [hframe] at hmem
    exact h.unremembered hmem
  · obtain ⟨o₀, ho₀, href₀, hage, hsurvivals, -⟩ := hback j o' ho'
    obtain ⟨c₀, hc₀, cref, cage, csurvivals, -⟩ := hback k c' hc'
    have houtlived := h.outlived j k o₀ c₀ ho₀ (href₀ ▸ href) hc₀ (cref ▸ hp)
    unfold OccupiedSlot.Outlives at houtlived ⊢
    rw [hage, hsurvivals, cage, csurvivals]
    exact houtlived

end Barrier

theorem onHeap_ok {α : Type} {m : VmM α} {s : Execution} {a : α} {vm' : Vm}
    (h : m s.vm = (.ok a, vm')) : onHeap m s = (.ok a, { s with vm := vm' }) := by
  rw [onHeap, h]

theorem onHeap_error {α : Type} {m : VmM α} {s : Execution} {e : VmError} {vm' : Vm}
    (h : m s.vm = (.error e, vm')) : onHeap m s = (.error (.heap e), { s with vm := vm' }) := by
  rw [onHeap, h]

/-- One upvalue was closed, with a value. -/
structure Execution.Closes (s : Execution) (owner : ObjectRef) (value : Value) (s' : Execution) :
    Prop where
  id : s'.vm.id = s.vm.id
  token : s'.vm.nextToken = s.vm.nextToken
  coroutine : s'.coroutine = s.coroutine
  closed : s'.upvalueState owner = .ok (.closed value)
  others : ∀ r, r ≠ owner → ∀ u, s'.upvalueState r = .ok u ↔ s.upvalueState r = .ok u
  cells : ∀ cell, cell ≠ owner → s.vm.Cell s.coroutine cell → s'.vm.Cell s.coroutine cell

section Close

variable {s s' : Execution} {K : List RootEntry} {T : List RootId} {owner : ObjectRef}

/-- An upvalue that was open becomes what it was closed with. -/
theorem Execution.Closes.follows {value : Value} {thread : VmId} {coroutine : Option ObjectRef}
    {slot : Nat} (h : s.Closes owner value s')
    (hopen : s.upvalueState owner = .ok (.opened thread coroutine slot))
    (hbase : s'.frame.stackBase = s.frame.stackBase) : s.Follows s' where
  id := h.id
  coroutine := h.coroutine
  stackBase := hbase
  token := h.token.ge
  upvalue := fun r u' hu' => by
    by_cases hr : r = owner
    · subst hr
      obtain rfl : UpvalueState.closed value = u' := by simpa [h.closed] using hu'
      exact .inl ⟨_, hopen, .close thread coroutine slot value⟩
    · exact .inl ⟨u', (h.others r hr u').mp hu', .same u'⟩

theorem Execution.Closes.of_sameObjects {value : Value} {s'' : Execution}
    (h : s.Closes owner value s') (hsame : s'.vm.SameObjects s''.vm)
    (hcoroutine : s''.coroutine = s'.coroutine) (hupvalues : s''.upvalues = s'.upvalues) :
    s.Closes owner value s'' where
  id := hsame.id.trans h.id
  token := hsame.token.trans h.token
  coroutine := hcoroutine.trans h.coroutine
  closed := (Execution.upvalueState_of_sameObjects hsame hupvalues owner).trans h.closed
  others := fun r hr u => by
    rw [Execution.upvalueState_of_sameObjects hsame hupvalues r]
    exact h.others r hr u
  cells := fun cell hne hcell => (h.cells cell hne hcell).of_shrinks hsame.shrinks

/-- **Closing an upvalue** fails before anything changes, or changes this upvalue only. -/
theorem closeUpvalue_spec {u : UpvalueState} (h : s.vm.Tracks K T)
    (hopen : s.upvalueState owner = .ok u) (value : Value) :
    (∃ e l, closeUpvalue owner value s = (.error e, { s with vm := { s.vm with ledger := l } }))
      ∨ ∃ vm' upvalues, closeUpvalue owner value s
          = (.ok (), { s with vm := vm', upvalues := upvalues })
        ∧ vm'.Tracks K T ∧ s.Closes owner value { s with vm := vm', upvalues := upvalues } := by
  obtain ⟨id, o, edges, hid, hres, hpayload, -⟩ := Execution.upvalueState_eq_ok.mp hopen
  have hbarred := (keeps_barred_writeRef? s.vm owner .upvalue value.objectRef?).apply (.refl _ owner)
  have htracks := h.writeRef? .upvalue value.objectRef? hres
  unfold closeUpvalue
  rcases hrun : writeRef? owner .upvalue value.objectRef? s.vm with ⟨e | _, vm₁⟩
  all_goals rw [hrun] at hbarred htracks
  · obtain ⟨l, rfl⟩ := writeRef?_error h.tidy hrun
    exact .inl ⟨_, l, Prog.bind_apply_error (onHeap_error hrun)⟩
  right
  have hres₁ : vm₁.checkedSlot owner = .ok o := (hbarred.checkedSlot owner).trans hres
  obtain ⟨id', hid', hocc, href⟩ := Vm.occupied_of_checkedSlot hres₁
  obtain rfl : id = id' := by simpa [hid] using hid'
  refine ⟨vm₁.setPayload id.slot (.node .upvalue value.objectRef?.toList),
    Function.update s.upvalues id.slot (.closed value), ?_, htracks.setPayload _ _, ?_⟩
  · rw [Prog.bind_apply_ok (onHeap_ok hrun), Prog.bind_apply_ok (Prog.get_apply _), hid,
      Prog.bind_apply_ok (onHeap_ok (show Prog.ofOption VmError.staleObject (some id) vm₁
        = (.ok id, vm₁) from rfl)), hres₁,
      Prog.bind_apply_ok (onHeap_ok (show Prog.ofExcept (.ok o) vm₁ = (.ok o, vm₁) from rfl)),
      hpayload]
    rfl
  obtain ⟨slots, hframe⟩ := vm₁.setPayload_frame id.slot (.node .upvalue value.objectRef?.toList)
  have hocc' := Vm.occupied?_setPayload hocc (.node .upvalue value.objectRef?.toList)
  have hids : (vm₁.setPayload id.slot (.node .upvalue value.objectRef?.toList)).id = s.vm.id := by
    rw [hframe]
    exact hbarred.id
  exact {
    id := hids
    token := by
      rw [hframe]
      exact hbarred.token
    coroutine := rfl
    closed := by
      obtain ⟨id₁, hid₁, hvm, -, hgen, href'⟩ := Vm.checkedSlot_eq_ok.mp hres
      obtain rfl : id = id₁ := by simpa [hid] using hid₁
      refine Execution.upvalueState_eq_ok.mpr ⟨id,
        { o with object := { o.object with payload := .node .upvalue value.objectRef?.toList } },
        value.objectRef?.toList, hid, ?_, rfl, Function.update_self _ _ _⟩
      refine Vm.checkedSlot_eq_ok.mpr ⟨id, hid, hvm.trans hids.symm, ?_, hgen, href'⟩
      exact (hocc' id.slot).trans (if_pos rfl)
    others := fun r hr u => by
      -- the slot of the upvalue holds no other object
      rw [Execution.upvalueState_eq_ok, Execution.upvalueState_eq_ok]
      constructor
      · rintro ⟨i, o', edges', hi, hres', hp, hu⟩
        obtain ⟨i', hi', hvm, hocc₁, hgen, href'⟩ := Vm.checkedSlot_eq_ok.mp hres'
        obtain rfl : i = i' := by simpa [hi] using hi'
        rw [hocc'] at hocc₁
        by_cases hne : i.slot = id.slot
        · rw [if_pos hne, Option.some.injEq] at hocc₁
          subst hocc₁
          exact absurd (href'.symm.trans href) hr
        · rw [if_neg hne] at hocc₁
          refine ⟨i, o', edges', hi, ?_, hp, ?_⟩
          · rw [← hbarred.checkedSlot r]
            exact Vm.checkedSlot_eq_ok.mpr ⟨i, hi, hvm.trans (hids.trans hbarred.id.symm), hocc₁, hgen,
              href'⟩
          · rw [← hu]
            exact (Function.update_of_ne hne _ _).symm
      · rintro ⟨i, o', edges', hi, hres', hp, hu⟩
        rw [← hbarred.checkedSlot r] at hres'
        obtain ⟨i', hi', hvm, hocc₁, hgen, href'⟩ := Vm.checkedSlot_eq_ok.mp hres'
        obtain rfl : i = i' := by simpa [hi] using hi'
        have hne : i.slot ≠ id.slot := fun heq => by
          rw [heq, hocc, Option.some.injEq] at hocc₁
          subst hocc₁
          exact hr (href'.symm.trans href)
        refine ⟨i, o', edges', hi, Vm.checkedSlot_eq_ok.mpr ⟨i, hi, hvm.trans
          (hbarred.id.trans hids.symm), ?_, hgen, href'⟩, hp, ?_⟩
        · exact (hocc' i.slot).trans ((if_neg hne).trans hocc₁)
        · rw [← hu]
          exact Function.update_of_ne hne _ _
    cells := fun cell hne hcell =>
      (hcell.barred hbarred hne).setPayload hocc (fun heq => hne (heq.symm.trans href)) _ }

end Close

/-! ### New objects -/

section Objects

variable {vm : Vm} {parent : Option ObjectRef} {P O K : List RootEntry} {T : List RootId}

/-- **An allocation** next to the roots of open upvalues. -/
theorem Vm.Tracks.allocate (h : vm.Tracks (P ++ O) T)
    (hparent : ∀ p, parent = some p → ∃ k ∈ P, k.object = p)
    (hcells : ∀ k ∈ O, vm.Cell parent k.object) (payload : HeapPayload)
    (chargesFull collects : Bool) (collection : CollectorProgram) :
    ∃ r vm', allocatePayloadWithCharge payload chargesFull collects collection.run vm = (r, vm')
      ∧ vm'.Tracks (P ++ O) T ∧ vm.Onward vm' ∧ (∀ k ∈ O, vm'.Cell parent k.object)
      ∧ ∀ object, r = .ok object → vm.Allocates parent payload object vm' := by
  obtain ⟨A, hholds, hids⟩ := h.roots
  have hall : vm.Holds parent P O A :=
    { hholds with
      kept := fun k hk => hholds.kept k (by simpa using hk)
      inUse := hparent
      cells := hcells }
  rcases hall.allocate payload chargesFull collects collection with
    ⟨object, vm', hrun, hafter, honward, hallocates⟩ | ⟨e, vm', hrun, hafter, honward⟩
  · refine ⟨.ok object, vm', hrun, ⟨⟨A, hafter.forget, hids⟩, h.nodup⟩, honward, hafter.cells, ?_⟩
    rintro object' heq
    rw [← Except.ok.inj heq]
    exact hallocates
  · exact ⟨.error e, vm', hrun, ⟨⟨A, hafter.forget, hids⟩, h.nodup⟩, honward, hafter.cells, nofun⟩

/-- **Collector work** next to the roots of open upvalues. -/
theorem Vm.Tracks.collected (h : vm.Tracks (P ++ O) T)
    (hparent : ∀ p, parent = some p → ∃ k ∈ P, k.object = p)
    (hcells : ∀ k ∈ O, vm.Cell parent k.object) (collection : CollectorProgram) :
    (collection.run vm).2.Tracks (P ++ O) T ∧ vm.Onward (collection.run vm).2
      ∧ ∀ k ∈ O, (collection.run vm).2.Cell parent k.object := by
  obtain ⟨A, hholds, hids⟩ := h.roots
  have hall : vm.Holds parent P O A :=
    { hholds with
      kept := fun k hk => hholds.kept k (by simpa using hk)
      inUse := hparent
      cells := hcells }
  obtain ⟨hafter, hdescends, -⟩ := hall.collected collection
  exact ⟨⟨⟨A, hafter.forget, hids⟩, h.nodup⟩, hdescends.onward, hafter.cells⟩

/-- **An object is taken back**, and its reference resolves no more, or only the ledger changes. -/
theorem Vm.Tracks.reclaimUnpublished_cases (h : vm.Tracks K T) {object : ObjectRef}
    {o : OccupiedSlot} (hres : vm.checkedSlot object = .ok o) (hne : ∀ k ∈ K, k.object ≠ object) :
    (∃ vm', reclaimUnpublishedObject object vm = (.ok (), vm') ∧ vm'.Tracks K T ∧ vm.Shrinks vm'
        ∧ (∀ o', vm'.checkedSlot object ≠ .ok o')
        ∧ ∀ r, r ≠ object → ∀ o', vm'.checkedSlot r = .ok o' ↔ vm.checkedSlot r = .ok o')
      ∨ ∃ e l, reclaimUnpublishedObject object vm = (.error e, { vm with ledger := l }) := by
  obtain ⟨A, hholds, hids⟩ := h.roots
  rcases reclaimUnpublishedObject_cases h.tidy object with
    ⟨e, l, gc', hrun, rfl | ⟨-, hstale⟩⟩ | ⟨id, o', l, gc', hid, hres', hgc, hrun⟩
  · exact .inr ⟨e, l, hrun⟩
  · exact absurd hres (hstale o)
  left
  obtain rfl : o = o' := by simpa [hres] using hres'
  obtain ⟨id', hid', hocc, href⟩ := Vm.occupied_of_checkedSlot hres
  obtain rfl : id = id' := by simpa [hid] using hid'
  have htidy := h.tidy.reclaimed_without hid hres hgc l
  have hfrees := Vm.frees_reclaimed hocc hgc l
  have hkept : ∀ r ∈ (Vm.reclaimed { vm with ledger := l, gc := gc' } id).gc.remembered,
      r ∈ vm.gc.remembered := by
    obtain ⟨_, rfl⟩ := hgc
    exact fun r hr => List.mem_of_mem_erase hr
  refine ⟨_, hrun, ⟨⟨A, ?_, hids⟩, h.nodup⟩, Vm.Shrinks.of_frees hfrees ?_ hkept, fun o' ho' => ?_,
    fun r hr o' => ?_⟩
  · exact hholds.freed hid hres hfrees htidy hkept fun k hk => hne k (by simpa using hk)
  · simp [Vm.reclaimed, Vm.retreatGcScanEnd]
  · exact (hfrees.checkedSlot.mp ho').2 id hid rfl
  · rw [hfrees.checkedSlot]
    refine and_iff_left_of_imp fun hres'' i hi heq => ?_
    obtain ⟨i', hi', hocc', href'⟩ := Vm.occupied_of_checkedSlot hres''
    obtain rfl : i = i' := by simpa [hi] using hi'
    rw [heq, hocc, Option.some.injEq] at hocc'
    subst hocc'
    exact hr (href'.symm.trans href)

/-- **An object that is not remembered is taken back.** -/
theorem Vm.Tracks.reclaimUnpublished (h : vm.Tracks K T) {object : ObjectRef} {o : OccupiedSlot}
    (hres : vm.checkedSlot object = .ok o) (hremembered : object ∉ vm.gc.remembered)
    (hne : ∀ k ∈ K, k.object ≠ object) :
    ∃ vm', reclaimUnpublishedObject object vm = (.ok (), vm') ∧ vm'.Tracks K T ∧ vm.Shrinks vm'
      ∧ (∀ o', vm'.checkedSlot object ≠ .ok o')
      ∧ ∀ r, r ≠ object → ∀ o', vm'.checkedSlot r = .ok o' ↔ vm.checkedSlot r = .ok o' := by
  refine (h.reclaimUnpublished_cases hres hne).resolve_right ?_
  rintro ⟨e, l, herror⟩
  obtain ⟨gc', hunlink, hwithout⟩ := removeUnpublishedGcReference_of_not_mem hremembered
  obtain ⟨vm', hreclaim⟩ := reclaim_of_not_mem { vm with gc := gc' } hres fun hmem => by
    obtain ⟨_, rfl⟩ := hwithout
    exact hremembered (List.mem_of_mem_erase hmem)
  cases herror.symm.trans ((Prog.bind_apply_ok hunlink).trans hreclaim)

/-- The state of an upvalue is set, and no other state. -/
theorem Execution.upvalueState_update {s : Execution} {object : ObjectRef} {id : ObjectId}
    {o : OccupiedSlot} (hid : object.identity = some id) (hres : s.vm.checkedSlot object = .ok o)
    (u : UpvalueState) {r : ObjectRef} (hr : r ≠ object) (u' : UpvalueState) :
    Execution.upvalueState { s with upvalues := Function.update s.upvalues id.slot u } r = .ok u'
      ↔ s.upvalueState r = .ok u' := by
  rw [Execution.upvalueState_eq_ok, Execution.upvalueState_eq_ok]
  obtain ⟨id', hid', hocc, href⟩ := Vm.occupied_of_checkedSlot hres
  obtain rfl : id = id' := by simpa [hid] using hid'
  have hslot : ∀ i o', r.identity = some i → s.vm.checkedSlot r = .ok o' → i.slot ≠ id.slot := by
    intro i o' hi hres' heq
    obtain ⟨i', hi', hocc', href'⟩ := Vm.occupied_of_checkedSlot hres'
    obtain rfl : i = i' := by simpa [hi] using hi'
    rw [heq, hocc, Option.some.injEq] at hocc'
    subst hocc'
    exact hr (href'.symm.trans href)
  constructor
  · rintro ⟨i, o', edges, hi, hres', hp, hu⟩
    refine ⟨i, o', edges, hi, hres', hp, ?_⟩
    rw [← hu]
    exact (Function.update_of_ne (hslot i o' hi hres') _ _).symm
  · rintro ⟨i, o', edges, hi, hres', hp, hu⟩
    refine ⟨i, o', edges, hi, hres', hp, ?_⟩
    rw [← hu]
    exact Function.update_of_ne (hslot i o' hi hres') _ _

end Objects

end RivetLua.Runtime
