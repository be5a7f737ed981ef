import RivetLua.Runtime.CallFrame
import Mathlib.Data.List.ReduceOption

namespace RivetLua.Runtime

open RivetLua.Core RivetLua.Gc StateProg

/-!
# Runtime — root slots

The roots of a frame are in slots, one field after the other, and a program that fills or clears
them may stop in between.

* `Vm.Tracks` — a VM with roots in use, and the identities that are still to be removed;
* `Vm.Tracks.addRoot`, `Vm.Tracks.removeRoot` — one slot;
* `clearSlots_spec`, `fillSlots_spec` — the slots of a field, `Refilled`;
* `Vm.Tracks.allocate` — an allocation while the roots of open upvalues are in use.
-/

/-- The roots `K` shelter their objects, and `T` are identities of registered roots. -/
structure Vm.Tracks (K : List RootEntry) (T : List RootId) (vm : Vm) : Prop where
  roots : ∃ A, vm.Holds none K [] A ∧ ∀ id ∈ T, ∃ k ∈ A, k.id = id
  nodup : T.Nodup

section Tracks

variable {vm vm' : Vm} {parent : Option ObjectRef} {P O A B K K' : List RootEntry}
  {T T' : List RootId}

theorem Vm.Holds.perm (h : vm.Holds parent P O A) (hperm : A.Perm B) : vm.Holds parent P O B where
  tidy := h.tidy
  allocated := h.allocated
  registered := ⟨h.registered.1, h.registered.2.trans hperm⟩
  kept := fun k hk => ⟨hperm.mem_iff.mp (h.kept k hk).1, (h.kept k hk).2⟩
  inUse := h.inUse
  cells := h.cells

/-- The roots in use are those of open upvalues or not. -/
theorem Vm.Holds.forget (h : vm.Holds parent P O A) : vm.Holds none (P ++ O) [] A where
  tidy := h.tidy
  allocated := h.allocated
  registered := h.registered
  kept := fun k hk => h.kept k (by simpa using hk)
  inUse := nofun
  cells := nofun

/-- Fewer roots are in use. -/
theorem Vm.Holds.mono (h : vm.Holds none K [] A) (hsub : K' ⊆ K) : vm.Holds none K' [] A where
  tidy := h.tidy
  allocated := h.allocated
  registered := h.registered
  kept := fun k hk => h.kept k (by
    rw [List.append_nil] at hk ⊢
    exact hsub hk)
  inUse := nofun
  cells := nofun

theorem Vm.Tracks.mono (h : vm.Tracks K T) (hK : K' ⊆ K) (hT : T'.Subperm T) : vm.Tracks K' T' where
  roots := by
    obtain ⟨A, hholds, hids⟩ := h.roots
    exact ⟨A, hholds.mono hK, fun id hid => hids id (hT.subset hid)⟩
  nodup := by
    obtain ⟨l, hperm, hsub⟩ := hT
    exact hperm.nodup_iff.mp (h.nodup.sublist hsub)

theorem Vm.Tracks.tidy (h : vm.Tracks K T) : vm.Tidy := by
  obtain ⟨A, hholds, -⟩ := h.roots
  exact hholds.tidy

theorem Vm.Tracks.ledger (h : vm.Tracks K T) (l : Ledger) : Vm.Tracks K T { vm with ledger := l } where
  roots := by
    obtain ⟨A, hholds, hids⟩ := h.roots
    exact ⟨A, hholds.ledger l, hids⟩
  nodup := h.nodup

/-- The objects of roots in use are in their slots. -/
theorem Vm.Tracks.resolves (h : vm.Tracks K T) {k : RootEntry} (hk : k ∈ K) :
    ∃ o, vm.checkedSlot k.object = .ok o := by
  obtain ⟨A, hholds, -⟩ := h.roots
  exact hholds.resolves (List.mem_append_left _ hk)

/-- **A root is added**, with a new identity, or not. -/
theorem Vm.Tracks.addRoot (h : vm.Tracks K T) (kind : RootKind) (object : ObjectRef) :
    (∃ id vm', addRoot kind object vm = (.ok id, vm')
        ∧ vm'.Tracks (⟨id, kind, object, none⟩ :: K) (id :: T) ∧ vm.SameObjects vm')
      ∨ ∃ e vm', addRoot kind object vm = (.error e, vm') ∧ vm'.Tracks K T
        ∧ vm.SameObjects vm' := by
  obtain ⟨A, hholds, hids⟩ := h.roots
  rcases hholds.addRoot kind object with
    ⟨id, vm', hrun, hadded, hshelter, hsame⟩ | ⟨e, vm', hrun, hadded, hsame⟩
  · refine .inl ⟨id, vm', hrun, ⟨⟨⟨id, kind, object, none⟩ :: A, ?_, fun id' hid' => ?_⟩, ?_⟩, hsame⟩
    · exact {
        hadded with
        kept := fun k hk => by
          rcases List.mem_cons.mp hk with rfl | hk
          · exact ⟨List.mem_cons_self, rfl, hshelter⟩
          · exact hadded.kept k hk
        inUse := nofun }
    · rcases List.mem_cons.mp hid' with rfl | hid'
      · exact ⟨_, List.mem_cons_self, rfl⟩
      · obtain ⟨k, hk, heq⟩ := hids id' hid'
        exact ⟨k, List.mem_cons_of_mem _ hk, heq⟩
    · refine List.nodup_cons.mpr ⟨fun hmem => ?_, h.nodup⟩
      obtain ⟨k, hk, heq⟩ := hids id hmem
      exact hadded.registered.id_ne hk heq.symm
  · exact .inr ⟨e, vm', hrun, ⟨⟨A, hadded, hids⟩, h.nodup⟩, hsame⟩

/-- **A root that is tracked is removed.** -/
theorem Vm.Tracks.removeRoot {id : RootId} (h : vm.Tracks K (id :: T)) (hK : ∀ k ∈ K, k.id ≠ id) :
    ∃ object vm', removeRoot id vm = (.ok object, vm') ∧ vm'.Tracks K T ∧ vm.SameObjects vm' := by
  obtain ⟨A, hholds, hids⟩ := h.roots
  obtain ⟨k, hk, rfl⟩ := hids id List.mem_cons_self
  obtain ⟨A₁, A₂, rfl⟩ := List.append_of_mem hk
  have hrest : ∀ k' ∈ A₁ ++ k :: A₂, k'.id ≠ k.id → k' ∈ A₁ ++ A₂ := by
    intro k' hk' hne
    rcases List.mem_cons.mp (List.perm_middle.mem_iff.mp hk') with rfl | hk'
    · exact absurd rfl hne
    · exact hk'
  obtain ⟨hnot, hnodup⟩ := List.nodup_cons.mp h.nodup
  obtain ⟨vm', hrun, hremoved, roots, heq⟩ := (hholds.perm List.perm_middle).removeRoot
    fun k' hk' => hrest k' (hholds.kept k' hk').1 (hK k' (by simpa using hk'))
  refine ⟨k.object, vm', hrun, ⟨⟨_, hremoved, fun id' hid' => ?_⟩, hnodup⟩, ?_⟩
  · obtain ⟨k', hk', rfl⟩ := hids id' (List.mem_cons_of_mem _ hid')
    exact ⟨k', hrest k' hk' fun heq => hnot (heq ▸ hid'), rfl⟩
  · rw [heq]
    exact ⟨rfl, rfl, rfl, rfl⟩

/-- The same with the identity anywhere. -/
theorem Vm.Tracks.removeRoot_of_perm {id : RootId} (h : vm.Tracks K T) (hperm : T.Perm (id :: T'))
    (hsub : K' ⊆ K) (hK : ∀ k ∈ K', k.id ∈ T') :
    ∃ object vm', Runtime.removeRoot id vm = (.ok object, vm') ∧ vm'.Tracks K' T'
      ∧ vm.SameObjects vm' := by
  have htracks := h.mono hsub hperm.symm.subperm
  refine htracks.removeRoot fun k hk heq => ?_
  exact (List.nodup_cons.mp htracks.nodup).1 (heq ▸ hK k hk)

end Tracks

/-! ### The slots of a field -/

section Slots

variable {vm : Vm} {K : List RootEntry} {T : List RootId}

/-- **Clearing** removes the root of every slot. -/
theorem clearSlots_spec (takes : Bool) : ∀ (roots : List (Option RootId)) (vm : Vm),
    vm.Tracks K (roots.reduceOption ++ T) → (∀ k ∈ K, k.id ∉ roots.reduceOption) →
    ∃ vm', clearSlots takes roots vm = (.ok (), roots.map fun _ => none, vm') ∧ vm'.Tracks K T
      ∧ vm.SameObjects vm'
  | [], vm, h, _ => ⟨vm, rfl, h, .refl vm⟩
  | none :: roots, vm, h, hK => by
    rw [List.reduceOption_cons_of_none] at h hK
    obtain ⟨vm', hrun, htracks, hsame⟩ := clearSlots_spec takes roots vm h hK
    refine ⟨vm', ?_, htracks, hsame⟩
    rw [clearSlots, hrun]
    rfl
  | some id :: roots, vm, h, hK => by
    rw [List.reduceOption_cons_of_some] at h hK
    obtain ⟨object, vm₁, hremove, htracks₁, hsame₁⟩ :=
      h.removeRoot fun k hk heq => hK k hk (heq ▸ List.mem_cons_self)
    obtain ⟨vm', hrun, htracks, hsame⟩ := clearSlots_spec takes roots vm₁ htracks₁
      fun k hk hmem => hK k hk (List.mem_cons_of_mem _ hmem)
    refine ⟨vm', ?_, htracks, hsame₁.trans hsame⟩
    rw [clearSlots, hremove]
    simp only [hrun]
    rfl

/-- The slots after they were filled up to an error: each has its old root, or a new one of the
    object beside it. -/
inductive Refilled (kind : RootKind) (N : List RootEntry) : Except VmError Unit →
    List (Option ObjectRef) → List (Option RootId) → List (Option RootId) → Prop
  | done {objects : List (Option ObjectRef)} {roots : List (Option RootId)}
      (hend : objects = [] ∨ roots = []) : Refilled kind N (.ok ()) objects roots roots
  | stop (e : VmError) (objects : List (Option ObjectRef)) (roots : List (Option RootId)) :
      Refilled kind N (.error e) objects roots roots
  | keep {r : Except VmError Unit} {objects : List (Option ObjectRef)} {root : Option RootId}
      {roots roots' : List (Option RootId)} (h : Refilled kind N r objects roots roots') :
      Refilled kind N r (none :: objects) (root :: roots) (root :: roots')
  | fill {r : Except VmError Unit} {object : ObjectRef} {objects : List (Option ObjectRef)}
      {id : RootId} {root : Option RootId} {roots roots' : List (Option RootId)}
      (hnew : ⟨id, kind, object, none⟩ ∈ N) (h : Refilled kind N r objects roots roots') :
      Refilled kind N r (some object :: objects) (root :: roots) (some id :: roots')

section Refilled

variable {kind : RootKind} {N N' : List RootEntry} {r : Except VmError Unit}
  {objects : List (Option ObjectRef)} {roots roots' : List (Option RootId)}

theorem Refilled.mono (h : Refilled kind N r objects roots roots') (hsub : N ⊆ N') :
    Refilled kind N' r objects roots roots' := by
  induction h with
  | done hend => exact .done hend
  | stop e objects roots => exact .stop e objects roots
  | keep _ ih => exact .keep ih
  | fill hnew _ ih => exact .fill (hsub hnew) ih

theorem Refilled.length (h : Refilled kind N r objects roots roots') :
    roots'.length = roots.length := by
  induction h with
  | done _ => rfl
  | stop _ _ _ => rfl
  | keep _ ih => simp [ih]
  | fill _ _ ih => simp [ih]

end Refilled

/-- **Filling** adds a root for every object until one cannot be added. -/
theorem fillSlots_spec (kind : RootKind) : ∀ (objects : List (Option ObjectRef))
    (roots : List (Option RootId)) (K : List RootEntry) (T : List RootId) (vm : Vm),
    vm.Tracks K (roots.reduceOption ++ T) →
    ∃ r roots' N vm', fillSlots kind objects roots vm = (r, roots', vm')
      ∧ vm'.Tracks (N ++ K) (roots'.reduceOption ++ T) ∧ Refilled kind N r objects roots roots'
      ∧ vm.SameObjects vm'
  | [], roots, K, T, vm, h => ⟨.ok (), roots, [], vm, by simp [fillSlots], h, .done (.inl rfl), .refl vm⟩
  | object :: objects, [], K, T, vm, h =>
    ⟨.ok (), [], [], vm, by simp [fillSlots], h, .done (.inr rfl), .refl vm⟩
  | none :: objects, root :: roots, K, T, vm, h => by
    have hperm : (roots.reduceOption ++ (root.toList ++ T)).Perm
        ((root :: roots).reduceOption ++ T) := by
      cases root with
      | none => exact .refl _
      | some id => exact List.perm_middle
    obtain ⟨r, roots', N, vm', hrun, htracks, hrefilled, hsame⟩ :=
      fillSlots_spec kind objects roots K (root.toList ++ T) vm (h.mono (List.Subset.refl K)
        hperm.subperm)
    have hperm' : ((root :: roots').reduceOption ++ T).Perm
        (roots'.reduceOption ++ (root.toList ++ T)) := by
      cases root with
      | none => exact .refl _
      | some id => exact List.perm_middle.symm
    refine ⟨r, root :: roots', N, vm', ?_, htracks.mono (List.Subset.refl _) hperm'.subperm,
      .keep hrefilled, hsame⟩
    rw [fillSlots, hrun]
  | some object :: objects, root :: roots, K, T, vm, h => by
    rcases h.addRoot kind object with ⟨id, vm₁, hadd, htracks₁, hsame₁⟩ | ⟨e, vm₁, hadd, htracks₁, hsame₁⟩
    · -- the root that was in the slot is no longer tracked
      have hsub : (roots.reduceOption ++ (id :: T)).Subperm
          (id :: ((root :: roots).reduceOption ++ T)) := by
        refine List.perm_middle.subperm.trans ?_
        rw [List.subperm_cons]
        cases root with
        | none => exact .refl _
        | some id' => exact (List.sublist_cons_self _ _).subperm
      obtain ⟨r, roots', N, vm', hrun, htracks, hrefilled, hsame⟩ :=
        fillSlots_spec kind objects roots (⟨id, kind, object, none⟩ :: K) (id :: T) vm₁
          (htracks₁.mono (List.Subset.refl _) hsub)
      refine ⟨r, some id :: roots', N ++ [⟨id, kind, object, none⟩], vm', ?_, ?_, ?_,
        hsame₁.trans hsame⟩
      · rw [fillSlots, hadd]
        simp only [hrun]
      · rw [List.append_assoc]
        refine htracks.mono (List.Subset.refl _) (List.Perm.subperm ?_)
        exact List.perm_middle.symm
      · exact .fill (List.mem_append_right _ List.mem_cons_self)
          (hrefilled.mono (List.subset_append_left _ _))
    · refine ⟨.error e, root :: roots, [], vm₁, ?_, htracks₁, .stop _ _ _, hsame₁⟩
      rw [fillSlots, hadd]

end Slots

end RivetLua.Runtime
