import Mathlib.Data.List.Perm.Basic
import RivetLua.Runtime.Heap

namespace RivetLua.Runtime

open RivetLua.Core RivetLua.Gc StateProg

/-!
# Runtime — the root table as a multiset

`swap_remove` and compaction permute the root table and drop ended leases, so the content of
the table is stated up to order:

* `RootSet.Wf` — identities are pairwise different and belong to the table;
* `Vm.Registered A` — the active registrations are, in some order, those of `A`;
* `addRoot_spec`, `removeRoot_spec` — the two root operations against it.
-/

/-- Identities are pairwise different, of this VM, and below the next sequence number. -/
structure RootSet.Wf (r : RootSet) : Prop where
  nodup : (r.entries.map RootEntry.id).Nodup
  own : ∀ e ∈ r.entries, e.id.vm = r.vm
  below : ∀ e ∈ r.entries, e.id.sequence < r.nextSequence

/-- The active registrations of a VM, in any order. -/
def Vm.Registered (A : List RootEntry) (vm : Vm) : Prop :=
  vm.roots.Wf ∧ (vm.roots.entries.filter RootEntry.isActive).Perm A

theorem swapRemove_perm {α : Type} {l : List α} {i : Nat} {x : α} (h : l[i]? = some x) :
    l.Perm (x :: swapRemove l i) := by
  obtain ⟨hi, rfl⟩ := List.getElem?_eq_some_iff.mp h
  have hne : l ≠ [] := by
    rintro rfl
    exact absurd hi (by simp)
  -- the list ends in some `last`
  obtain ⟨front, last, rfl⟩ : ∃ front last, l = front ++ [last] :=
    ⟨l.dropLast, l.getLast hne, (List.dropLast_append_getLast hne).symm⟩
  have hswap : swapRemove (front ++ [last]) i = ((front ++ [last]).set i last).dropLast := by
    simp [swapRemove]
  rw [hswap]
  by_cases hlast : i < front.length
  · rw [List.set_append_left _ _ hlast, List.dropLast_concat, List.getElem_append_left hlast]
    calc (front ++ [last]).Perm (last :: front) := List.perm_append_singleton last front
      _ |>.Perm (last :: front[i] :: front.eraseIdx i) :=
        (List.getElem_cons_eraseIdx_perm hlast).symm.cons last
      _ |>.Perm (front[i] :: last :: front.eraseIdx i) := List.Perm.swap _ _ _
      _ |>.Perm (front[i] :: front.set i last) :=
        (List.set_perm_cons_eraseIdx hlast last).symm.cons _
  · have hi' : i = front.length := by
      simp only [List.length_append, List.length_singleton] at hi
      omega
    subst hi'
    simp

namespace RootSet

theorem Wf.compact {r : RootSet} (h : r.Wf) : r.compact.Wf where
  nodup := h.nodup.sublist (List.filter_sublist.map _)
  own := fun e he => h.own e (List.mem_filter.mp he).1
  below := fun e he => h.below e (List.mem_filter.mp he).1

theorem filter_compact (r : RootSet) :
    r.compact.entries.filter RootEntry.isActive = r.entries.filter RootEntry.isActive := by
  simp [compact, List.filter_filter]

end RootSet

/-- Marking touches the collector state only. -/
theorem gcMarkSlot_frame (object : ObjectRef) (vm : Vm) :
    ∃ gc, (gcMarkSlot object vm).2 = { vm with gc := gc } := by
  rcases gcMarkSlot_cases object vm with ⟨e, h, -⟩ | ⟨id, o, -, -, ⟨h, -⟩ | ⟨h, -⟩⟩
  · exact ⟨vm.gc, by rw [h]⟩
  · exact ⟨vm.gc, by rw [h]⟩
  · exact ⟨vm.gc.pushGray id.slot object, by rw [h]⟩

theorem gcMarkSlot_registered (A : List RootEntry) (object : ObjectRef) :
    Keeps (Vm.Registered A) (gcMarkSlot object) := by
  refine Keeps.of_apply fun vm h => ?_
  obtain ⟨gc, hgc⟩ := gcMarkSlot_frame object vm
  rw [hgc]
  exact h

/-- A ledger request changes the ledger only. -/
theorem liftLedger_spec {α : Type} {m : LedgerM α} {P : Vm → Prop}
    (hP : ∀ vm l, P vm → P { vm with ledger := l }) :
    Triple P (liftLedger m) (fun a vm => (∃ l l', m l = (.ok a, l')) ∧ P vm)
      (fun _ vm => P vm) := by
  intro vm h
  unfold liftLedger
  rcases hm : m vm.ledger with ⟨r, l⟩
  cases r with
  | ok a => exact ⟨⟨vm.ledger, l, hm⟩, hP vm l h⟩
  | error e => exact hP vm l h

/-- The entry of an identity is where the table search finds it. -/
theorem RootSet.Wf.findIdx_eq {r : RootSet} (h : r.Wf) {e : RootEntry} (he : e ∈ r.entries) :
    ∃ i, (r.entries.findIdx? fun e' => decide (e'.id = e.id)) = some i ∧
      r.entries[i]? = some e := by
  obtain ⟨i, hi, hie⟩ := List.mem_iff_getElem.mp he
  refine ⟨i, ?_, by rw [List.getElem?_eq_getElem hi, hie]⟩
  rw [List.findIdx?_eq_some_iff_getElem]
  refine ⟨hi, by simp [hie], fun j hj => ?_⟩
  have hjl : j < r.entries.length := by omega
  -- an earlier entry of the same identity would be a duplicate
  have hpair := List.pairwise_map.mp h.nodup
  have hne := List.pairwise_iff_getElem.mp hpair j i hjl hi hj
  simpa [hie] using hne

/-- Removing a registered root. -/
theorem removeRoot_spec (e : RootEntry) (A : List RootEntry) :
    Triple (Vm.Registered (e :: A)) (removeRoot e.id)
      (fun o vm => o = e.object ∧ Vm.Registered A vm) (fun _ _ => False) := by
  rintro vm ⟨hwf, hperm⟩
  obtain ⟨hmem, hact⟩ := List.mem_filter.mp (hperm.mem_iff.mpr List.mem_cons_self)
  obtain ⟨i, hfind, hget⟩ := hwf.findIdx_eq hmem
  have hown := hwf.own e hmem
  have hswap := swapRemove_perm hget
  unfold removeRoot
  rw [if_neg (by simpa using hown), hfind]
  simp only [hget, hact, if_true]
  refine ⟨trivial, ⟨?_, ?_, ?_⟩, ?_⟩
  · have := (hswap.map RootEntry.id).nodup_iff.mp hwf.nodup
    exact (List.nodup_cons.mp this).2
  · exact fun e' he' => hwf.own e' (hswap.mem_iff.mpr (List.mem_cons_of_mem _ he'))
  · exact fun e' he' => hwf.below e' (hswap.mem_iff.mpr (List.mem_cons_of_mem _ he'))
  · have h := (hswap.filter RootEntry.isActive).symm.trans hperm
    rw [List.filter_cons_of_pos hact] at h
    exact h.cons_inv

/-- The part of a registration that touches the root table. -/
theorem RootSet.add_spec {r : RootSet} (hwf : r.Wf) (kind : RootKind) (object : ObjectRef)
    (lease : Option Bool) {l l' : Ledger} {id : RootId} {r' : RootSet}
    (h : r.add kind object lease l = (.ok (id, r'), l')) :
    r'.Wf ∧ r'.entries = r.compact.entries ++ [⟨id, kind, object, lease⟩] := by
  unfold RootSet.add at h
  simp only at h
  split at h
  · obtain ⟨_, _, -, h⟩ := Prog.bind_eq_ok h
    simp only [Prog.pure_apply, Prod.mk.injEq, Except.ok.injEq] at h
    obtain ⟨⟨rfl, rfl⟩, -⟩ := h
    have hc := hwf.compact
    refine ⟨⟨?_, ?_, ?_⟩, rfl⟩
    · -- the new identity is above all others
      rw [List.map_append, List.nodup_append]
      refine ⟨hc.nodup, by simp, ?_⟩
      rintro a ha b hb rfl
      obtain ⟨e, he, rfl⟩ := List.mem_map.mp ha
      obtain ⟨e', he', heq⟩ := List.mem_map.mp hb
      rw [List.mem_singleton] at he'
      subst he'
      have := hc.below e he
      rw [← heq] at this
      exact absurd this (lt_irrefl _)
    · intro e he
      rcases List.mem_append.mp he with he | he
      · exact hc.own e he
      · rw [List.mem_singleton] at he
        subst he
        rfl
    · intro e he
      rcases List.mem_append.mp he with he | he
      · exact lt_trans (hc.below e he) (Nat.lt_succ_self _)
      · rw [List.mem_singleton] at he
        subst he
        exact Nat.lt_succ_self _
  · exact absurd h (by simp)

/-- Registering a root.  A failed registration leaves the others as they were. -/
theorem addRootEntry_spec (kind : RootKind) (object : ObjectRef) (lease : Option Bool)
    (hlease : lease ≠ some false) (A : List RootEntry) :
    Triple (Vm.Registered A) (addRootEntry kind object lease)
      (fun id vm => Vm.Registered (⟨id, kind, object, lease⟩ :: A) vm)
      (fun _ vm => Vm.Registered A vm) := by
  have hactive : ∀ id, RootEntry.isActive ⟨id, kind, object, lease⟩ = true := by
    intro id
    cases lease with
    | none => rfl
    | some b => cases b <;> simp_all [RootEntry.isActive]
  unfold addRootEntry
  refine Triple.bind Triple.get fun _ => Triple.bind (Keeps.ofExcept _) fun _ => ?_
  -- compaction drops inactive entries only
  refine Triple.bind (Q := fun _ => Vm.Registered A) (fun vm h => ?_) fun _ => ?_
  · exact ⟨h.1.compact, by rw [RootSet.filter_compact]; exact h.2⟩
  refine Triple.bind (Q := fun a vm => vm.roots = a.roots ∧ Vm.Registered A vm)
    (fun vm h => ⟨rfl, h⟩) fun vm₁ => ?_
  refine Triple.bind ((liftLedger_spec (P := fun vm => vm.roots = vm₁.roots ∧ Vm.Registered A vm)
    fun _ _ h => h).conseq (fun _ h => h) (fun _ _ h => h) (fun _ _ h => h.2)) fun ⟨id, roots⟩ => ?_
  refine Triple.of_pure fun ⟨l, l', hadd⟩ => ?_
  refine Triple.bind (Q := fun _ => Vm.Registered (⟨id, kind, object, lease⟩ :: A))
    (fun vm h => ?_) fun _ => ?_
  · obtain ⟨hroots, hwf, hperm⟩ := h
    rw [hroots] at hwf hperm
    obtain ⟨hwf', hentries⟩ := RootSet.add_spec hwf kind object lease hadd
    refine ⟨hwf', ?_⟩
    show (roots.entries.filter _).Perm _
    rw [hentries, List.filter_append, RootSet.filter_compact]
    simp only [List.filter_cons, hactive, if_true, List.filter_nil]
    exact (List.perm_append_singleton _ _).trans (hperm.cons _)
  refine Triple.bind (Q := fun _ => Vm.Registered (⟨id, kind, object, lease⟩ :: A))
    (Triple.onError (gcMarkSlot_registered _ object) fun _ => ?_)
    fun _ => Triple.return_of fun _ h => h
  refine Triple.bind ((removeRoot_spec ⟨id, kind, object, lease⟩ A).conseq (fun _ h => h)
    (fun _ _ h => h.2) (fun _ _ h => h.elim)) fun _ => Triple.return_of fun _ h => h

theorem addRoot_spec (kind : RootKind) (object : ObjectRef) (A : List RootEntry) :
    Triple (Vm.Registered A) (addRoot kind object)
      (fun id vm => Vm.Registered (⟨id, kind, object, none⟩ :: A) vm)
      (fun _ vm => Vm.Registered A vm) :=
  addRootEntry_spec kind object none (by simp) A

end RivetLua.Runtime
