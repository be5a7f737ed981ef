import Mathlib.Data.List.Perm.Subperm
import RivetLua.Runtime.TableNext

namespace RivetLua.Runtime

open RivetLua.Core StateProg

/-!
# Runtime — traversal with clearing

* `Traversal` — a traversal in progress: calls of `next` with the key just returned, and
  writes to existing fields in between;
* `TraversalCorrect` — no error, no key twice, a bounded number of calls, and every field
  that is still there at the end has been returned;
* `Table.StaleTwin` — an integer key that lives in the array part while a dead entry for it
  is left in the hash part, with other live fields between the two places;
* `traversalCorrect_iff` — a table is traversed correctly exactly when it has no stale twin.

`next` looks a cleared array key up in the hash part before it falls back to the array
index, so clearing the live one of two twins makes the traversal jump.
-/

/-- A traversal of `t₀` in progress: the table now, the key returned last, and the classes of
    the keys returned so far, the latest first.  Each call runs in a heap view that still
    knows the keys of the table and the key returned last. -/
inductive Traversal [DefaultHasher] (t₀ : Table) : Table → Value → List RawKey → Prop
  | start : Traversal t₀ t₀ .nil []
  | edit {t t' : Table} {previous : Value} {seen : List RawKey} {op : RawSet} {r : RawKey}
      {w : Value} : Traversal t₀ t previous seen → RawKey.ofValue op.view op.key = some r →
      t.Holds r w → (Table.rawSet op.view t op.key op.value op.ledger).1 = .ok t' →
      Traversal t₀ t' previous seen
  | next {t : Table} {previous key value : Value} {seen : List RawKey} {vm : Vm} {r : RawKey} :
      Traversal t₀ t previous seen → t.Sees vm → RawKey.ofValue vm previous = seen.head? →
      Table.nextRaw vm t previous = .ok (some (key, value)) → RawKey.ofValue vm key = some r →
      Traversal t₀ t key (r :: seen)

/-- Every traversal of the table is correct. -/
def TraversalCorrect [DefaultHasher] (t₀ : Table) : Prop :=
  ∀ t previous seen, Traversal t₀ t previous seen →
    -- no key is returned twice, and the number of calls is bounded
    seen.Nodup ∧ seen.length ≤ t₀.array.length + t₀.hash.length ∧
    ∀ vm, t.Sees vm → RawKey.ofValue vm previous = seen.head? →
      -- the next call does not fail
      (∃ field, Table.nextRaw vm t previous = .ok field) ∧
      -- and at the end nothing is missing
      (Table.nextRaw vm t previous = .ok none → ∀ r v, t.Holds r v → r ∈ seen)

/-- An integer key that lives in array slot `i` and has a dead entry in bucket `p`, with a
    live field between the two places. -/
def Table.StaleTwin (t : Table) : Prop :=
  ∃ i p k v w, t.slot i = some w ∧ t.entry p = some (k, v) ∧ k.rawKey.arrayIndex = some i ∧
    ((∃ j u, i < j ∧ t.slot j = some u) ∨
      ∃ q k' u, q < p ∧ t.entry q = some (k', u) ∧ u ≠ .nil)

namespace Table

/-- A stale twin, by positions: a live field lies strictly between. -/
theorem staleTwin_iff {t : Table} (hsize : t.Sized) :
    t.StaleTwin ↔ ∃ i p r, i < t.array.length ∧ t.LiveAt i ∧ t.keyAt i = some r ∧
      t.keyAt (t.array.length + p) = some r ∧
      ∃ x, i < x ∧ x < t.array.length + p ∧ t.LiveAt x := by
  have hlen := hsize.lt
  constructor
  · rintro ⟨i, p, k, v, w, hs, he, hki, hbetween⟩
    have hi := lt_of_slot hs
    refine ⟨i, p, k.rawKey, hi, ?_, ?_, keyAt_add_eq_some.mpr ⟨k, v, he, rfl⟩, ?_⟩
    · rw [liveAt_slot hi, hs]
      rfl
    · rw [keyAt_of_lt hi, (eq_integer_iff (by omega)).mpr hki]
    · rcases hbetween with ⟨j, u, hij, hj⟩ | ⟨q, k', u, hqp, hq, hu⟩
      · have hjl := lt_of_slot hj
        refine ⟨j, hij, by omega, ?_⟩
        rw [liveAt_slot hjl, hj]
        rfl
      · refine ⟨t.array.length + q, by omega, by omega, ?_⟩
        have hfield : t.fieldAt (t.array.length + q) = some (k'.asValue, u) :=
          fieldAt_add.mpr ⟨k', hq, hu, rfl⟩
        rw [LiveAt, hfield]
        rfl
  · rintro ⟨i, p, r, hi, hlive, hkey, hbucket, x, hix, hxp, hx⟩
    obtain ⟨k, v, he, hk⟩ := keyAt_add_eq_some.mp hbucket
    obtain ⟨w, hw⟩ := Option.isSome_iff_exists.mp ((liveAt_slot hi).mp hlive)
    rw [keyAt_of_lt hi, Option.some.injEq, eq_integer_iff (by omega)] at hkey
    refine ⟨i, p, k, v, w, hw, he, hk ▸ hkey, ?_⟩
    obtain ⟨f, hf⟩ := Option.isSome_iff_exists.mp hx
    rcases liveAt_cases hf with ⟨-, hs, -⟩ | ⟨q, k', rfl, he', hv, -⟩
    · exact .inl ⟨x, f.2, hix, hs⟩
    · exact .inr ⟨q, k', f.2, by omega, he', hv⟩

/-- What holds throughout a traversal of a table without stale twins: every position below
    the frontier `x` that is still live has been returned, and only such positions have. -/
structure Progress (t₀ t : Table) (previous : Value) (seen : List RawKey) (x : Nat) : Prop where
  wf : t.Wf
  sized : t.Sized
  edited : Edited t₀ t
  nodup : seen.Nodup
  frontier : (seen = [] ∧ previous = .nil ∧ x = 0) ∨
    ∃ r rest y, seen = r :: rest ∧ x = y + 1 ∧ t₀.keyAt y = some r ∧ t₀.LiveAt y
  returned : ∀ r ∈ seen, ∃ y < x, t₀.keyAt y = some r ∧ t₀.LiveAt y
  covered : ∀ y < x, t.LiveAt y → ∃ r ∈ seen, t.keyAt y = some r

/-- Where `next` resumes, no live position has been jumped over. -/
theorem Progress.start {t₀ t : Table} {previous : Value} {seen : List RawKey} {x : Nat}
    (h : Progress t₀ t previous seen x) (wf₀ : t₀.Wf) (hsize₀ : t₀.Sized)
    (htwin : ¬ t₀.StaleTwin) {vm : Vm} (hprev : RawKey.ofValue vm previous = seen.head?) :
    ∃ x', x ≤ x' ∧ (∀ y, x ≤ y → y < x' → ¬ t.LiveAt y) ∧
      ((previous = .nil ∧ x' = 0) ∨
        ∃ r, RawKey.ofValue vm previous = some r ∧ t.resume r = some x') := by
  have hn := h.edited.array
  rcases h.frontier with ⟨-, rfl, rfl⟩ | ⟨r, rest, y, rfl, rfl, hkey, hlive⟩
  · exact ⟨0, le_refl _, fun y _ hy => absurd hy (Nat.not_lt_zero y), .inl ⟨rfl, rfl⟩⟩
  have hprev' : RawKey.ofValue vm previous = some r := hprev
  have hkeyt : t.keyAt y = some r := (h.edited.key y).trans hkey
  -- the place where the key was found is live, or the key has been cleared since
  by_cases hyt : t.LiveAt y
  · exact ⟨y + 1, le_refl _, fun z hz hz' => absurd hz' (by omega),
      .inr ⟨r, hprev', h.wf.resume_of_live h.sized hyt hkeyt⟩⟩
  by_cases hyn : y < t.array.length
  · by_cases hbucket : ∃ p, t.keyAt (t.array.length + p) = some r
    · obtain ⟨p, hp⟩ := hbucket
      refine ⟨t.array.length + p + 1, by omega, ?_, .inr ⟨r, hprev', ?_⟩⟩
      · -- a twin: nothing is live up to the dead entry
        intro z hz hzp hzt
        have hz₀ := h.edited.live hzt
        have hp₀ : t₀.keyAt (t₀.array.length + p) = some r := by
          rw [← h.edited.key, ← hn]
          exact hp
        by_cases hzeq : z = t.array.length + p
        · subst hzeq
          have := wf₀.liveAt_inj hsize₀ hlive hz₀ hkey (by rw [hn]; exact hp₀)
          omega
        · exact htwin ((staleTwin_iff hsize₀).mpr
            ⟨y, p, r, by omega, hlive, hkey, hp₀, z, by omega, by omega, hz₀⟩)
      · refine h.wf.resume_of_bucket h.sized hp fun i _ hki hli => hyt ?_
        have hi₀ := h.edited.live hli
        rw [wf₀.liveAt_inj hsize₀ hlive hi₀ hkey (h.edited.key i ▸ hki)]
        exact hli
    · exact ⟨y + 1, le_refl _, fun z hz hz' => absurd hz' (by omega), .inr ⟨r, hprev',
        resume_of_slot h.sized hyn hkeyt fun p hp => hbucket ⟨p, hp⟩⟩⟩
  · obtain ⟨p, rfl⟩ := Nat.exists_eq_add_of_le (not_lt.mp hyn)
    refine ⟨t.array.length + p + 1, le_refl _, fun z hz hz' => absurd hz' (by omega),
      .inr ⟨r, hprev', h.wf.resume_of_bucket h.sized hkeyt fun i hi hki hli => ?_⟩⟩
    have := wf₀.liveAt_inj hsize₀ hlive (h.edited.live hli) hkey (h.edited.key i ▸ hki)
    omega

/-- What a call does from a state that has made progress. -/
theorem Progress.next {t₀ t : Table} {previous : Value} {seen : List RawKey} {x : Nat}
    (h : Progress t₀ t previous seen x) (wf₀ : t₀.Wf) (hsize₀ : t₀.Sized)
    (htwin : ¬ t₀.StaleTwin) {vm : Vm} (hsees : t.Sees vm)
    (hprev : RawKey.ofValue vm previous = seen.head?) :
    (nextRaw vm t previous = .ok none ∧ ∀ r v, t.Holds r v → r ∈ seen) ∨
    ∃ y f r, nextRaw vm t previous = .ok (some f) ∧ RawKey.ofValue vm f.1 = some r ∧
      Progress t₀ t f.1 (r :: seen) (y + 1) := by
  obtain ⟨x', hxx', hgap, hstart⟩ := h.start wf₀ hsize₀ htwin hprev
  rcases h.wf.nextRaw_of_start h.sized hsees hstart with ⟨hnone, hend⟩ | ⟨y, f, hy, hsome, hf, hlt⟩
  · refine .inl ⟨hnone, fun r v hv => ?_⟩
    obtain ⟨y, f, hkey, hf, -⟩ := (holds_iff_fieldAt h.wf h.sized).mp hv
    have hly : t.LiveAt y := by rw [LiveAt, hf]; rfl
    by_cases hyx : y < x
    · obtain ⟨r', hr', hkey'⟩ := h.covered y hyx hly
      rw [hkey, Option.some.injEq] at hkey'
      exact hkey' ▸ hr'
    · by_cases hyx' : y < x'
      · exact absurd hly (hgap y (by omega) hyx')
      · rw [hend y (by omega)] at hf
        exact absurd hf (by simp)
  · have hly : t.LiveAt y := by rw [LiveAt, hf]; rfl
    obtain ⟨r, hkey⟩ := keyAt_isSome hly
    have hkey₀ : t₀.keyAt y = some r := (h.edited.key y).symm.trans hkey
    have hly₀ := h.edited.live hly
    refine .inr ⟨y, f, r, hsome, (hsees.keyAt_eq hf).trans hkey, h.wf, h.sized, h.edited, ?_,
      .inr ⟨r, seen, y, rfl, rfl, hkey₀, hly₀⟩, ?_, ?_⟩
    · refine List.nodup_cons.mpr ⟨fun hr => ?_, h.nodup⟩
      obtain ⟨z, hz, hkz, hlz⟩ := h.returned r hr
      have := wf₀.liveAt_inj hsize₀ hlz hly₀ hkz hkey₀
      omega
    · intro r' hr'
      rcases List.mem_cons.mp hr' with rfl | hr'
      · exact ⟨y, by omega, hkey₀, hly₀⟩
      · obtain ⟨z, hz, hkz, hlz⟩ := h.returned r' hr'
        exact ⟨z, by omega, hkz, hlz⟩
    · intro z hz hlz
      by_cases hzx : z < x
      · obtain ⟨r', hr', hkz⟩ := h.covered z hzx hlz
        exact ⟨r', List.mem_cons_of_mem _ hr', hkz⟩
      · by_cases hzy : z = y
        · exact ⟨r, List.mem_cons_self, hzy ▸ hkey⟩
        · by_cases hzx' : z < x'
          · exact absurd hlz (hgap z (by omega) hzx')
          · rw [LiveAt, hlt z (by omega) (by omega)] at hlz
            exact absurd hlz (by simp)

/-- An edit keeps the progress made. -/
theorem Progress.edit {t₀ t t' : Table} {previous : Value} {seen : List RawKey} {x : Nat}
    (h : Progress t₀ t previous seen x) (wf' : t'.Wf) (hsize' : t'.Sized) (hed : Edited t t') :
    Progress t₀ t' previous seen x := by
  refine ⟨wf', hsize', h.edited.trans hed, h.nodup, h.frontier, h.returned, fun y hy hly => ?_⟩
  obtain ⟨r, hr, hkey⟩ := h.covered y hy (hed.live hly)
  exact ⟨r, hr, (hed.key y).trans hkey⟩

theorem Progress.length_le {t₀ t : Table} {previous : Value} {seen : List RawKey} {x : Nat}
    (h : Progress t₀ t previous seen x) :
    seen.length ≤ t₀.array.length + t₀.hash.length := by
  -- every returned key sits at a position of the table
  have hsub : seen ⊆ (List.range (t₀.array.length + t₀.hash.length)).filterMap t₀.keyAt := by
    intro r hr
    obtain ⟨y, -, hkey, hlive⟩ := h.returned r hr
    exact List.mem_filterMap.mpr ⟨y, List.mem_range.mpr (lt_of_liveAt hlive), hkey⟩
  calc seen.length
      ≤ ((List.range (t₀.array.length + t₀.hash.length)).filterMap t₀.keyAt).length :=
        (List.subperm_of_subset h.nodup hsub).length_le
    _ ≤ (List.range (t₀.array.length + t₀.hash.length)).length := List.length_filterMap_le _ _
    _ = t₀.array.length + t₀.hash.length := List.length_range

variable [DefaultHasher]

/-- Along every traversal of a table without stale twins there is progress. -/
theorem Wf.progress {t₀ : Table} (wf₀ : t₀.Wf) (hsize₀ : t₀.Sized) (htwin : ¬ t₀.StaleTwin)
    {t : Table} {previous : Value} {seen : List RawKey} (h : Traversal t₀ t previous seen) :
    ∃ x, Progress t₀ t previous seen x := by
  induction h with
  | start =>
    exact ⟨0, wf₀, hsize₀, Edited.refl t₀, List.nodup_nil, .inl ⟨rfl, rfl, rfl⟩, by simp,
      fun y hy => absurd hy (Nat.not_lt_zero y)⟩
  | edit _ hr hold hset ih =>
    obtain ⟨x, hx⟩ := ih
    obtain ⟨_, -, hw⟩ := hx.wf.rawSet_written hset
    exact ⟨x, hx.edit hw.wf (hx.sized.rawSet hset) (hx.wf.rawSet_existing hr hold hset)⟩
  | next _ hsees hprev hnext hr ih =>
    obtain ⟨x, hx⟩ := ih
    rcases hx.next wf₀ hsize₀ htwin hsees hprev with ⟨hnone, -⟩ | ⟨y, f, r', hf, hr', hprog⟩
    · rw [hnone] at hnext
      exact absurd hnext (by simp)
    · obtain rfl : f = _ := by simpa [hf] using hnext
      obtain rfl : r' = _ := by simpa [hr'] using hr
      exact ⟨y + 1, hprog⟩

/-- A table without stale twins is traversed correctly. -/
theorem Wf.traversalCorrect {t₀ : Table} (wf₀ : t₀.Wf) (hsize₀ : t₀.Sized)
    (htwin : ¬ t₀.StaleTwin) : TraversalCorrect t₀ := by
  intro t previous seen h
  obtain ⟨x, hx⟩ := wf₀.progress hsize₀ htwin h
  refine ⟨hx.nodup, hx.length_le, fun vm hsees hprev => ?_⟩
  rcases hx.next wf₀ hsize₀ htwin hsees hprev with ⟨hnone, hall⟩ | ⟨y, f, r, hf, -⟩
  · exact ⟨⟨none, hnone⟩, fun _ => hall⟩
  · refine ⟨⟨some f, hf⟩, fun hnone => ?_⟩
    rw [hf] at hnone
    exact absurd hnone (by simp)

/-! ### A stale twin makes a traversal jump -/

/-- A traversal that stands at a known position, in a heap view that does not change. -/
structure Standing (t₀ t : Table) (vm : Vm) (previous : Value) (seen : List RawKey) (x : Nat) :
    Prop where
  run : Traversal t₀ t previous seen
  head : RawKey.ofValue vm previous = seen.head?
  start : (previous = .nil ∧ x = 0) ∨
    ∃ r, RawKey.ofValue vm previous = some r ∧ t.resume r = some x

/-- Without edits, a traversal can be continued until no live field is left before `b`. -/
theorem Standing.walk {t₀ t : Table} (wf : t.Wf) (hsize : t.Sized) {vm : Vm} (hsees : t.Sees vm)
    (b : Nat) {previous : Value} {seen : List RawKey} {x : Nat}
    (h : Standing t₀ t vm previous seen x) (hxb : x ≤ b) :
    ∃ previous' seen' x', Standing t₀ t vm previous' seen' x' ∧ x' ≤ b ∧
      (∀ z, x' ≤ z → z < b → t.fieldAt z = none) ∧
      ∀ r ∈ seen', r ∈ seen ∨ ∃ z, x ≤ z ∧ z < b ∧ t.keyAt z = some r ∧ t.LiveAt z := by
  induction hn : b - x using Nat.strong_induction_on generalizing previous seen x with
  | _ n ih =>
    rcases wf.nextRaw_of_start hsize hsees h.start with ⟨-, hend⟩ | ⟨y, f, hy, hsome, hf, hlt⟩
    · exact ⟨previous, seen, x, h, hxb, fun z hz _ => hend z hz, fun r hr => .inl hr⟩
    · by_cases hyb : b ≤ y
      · exact ⟨previous, seen, x, h, hxb, fun z hz hzb => hlt z hz (by omega),
          fun r hr => .inl hr⟩
      · have hly : t.LiveAt y := by rw [LiveAt, hf]; rfl
        obtain ⟨r, hkey⟩ := keyAt_isSome hly
        have hr : RawKey.ofValue vm f.1 = some r := (hsees.keyAt_eq hf).trans hkey
        have hstep : Standing t₀ t vm f.1 (r :: seen) (y + 1) :=
          ⟨.next h.run hsees h.head hsome hr, hr,
            .inr ⟨r, hr, wf.resume_of_live hsize hly hkey⟩⟩
        obtain ⟨p', s', x', hst, hx', hnone, hmem⟩ :=
          ih (b - (y + 1)) (by omega) hstep (by omega) rfl
        refine ⟨p', s', x', hst, hx', hnone, fun q hq => ?_⟩
        rcases hmem q hq with hq | ⟨z, hz, hzb, hkz, hlz⟩
        · rcases List.mem_cons.mp hq with rfl | hq
          · exact .inr ⟨y, hy, by omega, hkey, hly⟩
          · exact .inl hq
        · exact .inr ⟨z, by omega, hzb, hkz, hlz⟩

/-- The table after clearing an array slot. -/
def clearSlot (t : Table) (i : Nat) : Table :=
  bumpMutationVersion { t with array := t.array.set i none }

omit [DefaultHasher] in
theorem liveAt_clearSlot {t : Table} {i : Nat} (hi : i < t.array.length) (z : Nat) :
    (t.clearSlot i).LiveAt z ↔ z ≠ i ∧ t.LiveAt z := by
  have hslot : (t.clearSlot i).slot z = if z = i then none else t.slot z := slot_set t hi none z
  have hentry : ∀ p, (t.clearSlot i).entry p = t.entry p := fun _ => rfl
  have hlen : (t.clearSlot i).array.length = t.array.length := by
    simp [clearSlot, bumpMutationVersion]
  unfold LiveAt fieldAt
  rw [hlen, hslot, hentry]
  by_cases hz : z = i
  · subst hz
    simp [hi]
  · simp [hz]

/-- Assigning nil to a live array key clears its slot. -/
theorem rawSet_clearSlot {t : Table} {i : Nat} {w : Value} (hsize : t.Sized)
    (hs : t.slot i = some w) (vm : Vm) :
    (rawSet vm t (.integer (Int64.ofNat (i + 1))) .nil .granting).1 = .ok (t.clearSlot i) := by
  have hlen := hsize.lt
  have hi := lt_of_slot hs
  have hidx : (CanonicalKey.integer (Int64.ofNat (i + 1))).arrayIndex = some i := by
    rw [CanonicalKey.arrayIndex_eq_rawKey]
    exact arrayIndex_ofNat_succ (by omega)
  have hset : t.prepareSet (.integer (Int64.ofNat (i + 1))) .nil = pure (.arraySlot i .nil) := by
    unfold prepareSet
    rw [hidx, Option.filter_some, if_pos (by rw [hs]; rfl)]
  have hprep : t.prepareRawSet vm (.integer (Int64.ofNat (i + 1))) .nil
      = t.prepareSet (.integer (Int64.ofNat (i + 1))) .nil := rfl
  rw [rawSet, hprep, hset]
  rfl

/-- A table with a stale twin has an incorrect traversal: walk up to the live twin, clear it,
    and walk on. -/
theorem Wf.not_traversalCorrect {t : Table} (wf : t.Wf) (hsize : t.Sized) {vm : Vm}
    (hsees : t.Sees vm) (htwin : t.StaleTwin) : ¬ TraversalCorrect t := by
  intro hcorrect
  have hlen := hsize.lt
  obtain ⟨i, p, r, hi, hli, hki, hkp, x, hix, hxp, hlx⟩ := (staleTwin_iff hsize).mp htwin
  obtain ⟨w, hw⟩ := Option.isSome_iff_exists.mp ((liveAt_slot hi).mp hli)
  -- walk up to slot `i`
  have hstart : Standing t t vm .nil [] 0 := ⟨.start, rfl, .inl ⟨rfl, rfl⟩⟩
  obtain ⟨prev₁, seen₁, x₁, h₁, hx₁, hgap₁, hmem₁⟩ := hstart.walk wf hsize hsees i (Nat.zero_le i)
  have hfi : t.fieldAt i = some (.integer (Int64.ofNat (i + 1)), w) := by
    rw [fieldAt_of_lt hi, hw]
    rfl
  have hr : RawKey.ofValue vm (.integer (Int64.ofNat (i + 1))) = some r :=
    (hsees.keyAt_eq hfi).trans hki
  have hnext : nextRaw vm t prev₁ = .ok (some (.integer (Int64.ofNat (i + 1)), w)) := by
    rcases wf.nextRaw_of_start hsize hsees h₁.start with ⟨-, hend⟩ | ⟨y, f, hy, hsome, hf, hlt⟩
    · rw [hend i hx₁] at hfi
      exact absurd hfi (by simp)
    · have hyi : y = i := by
        by_contra hne
        rcases Nat.lt_or_gt_of_ne hne with h | h
        · rw [hgap₁ y hy h] at hf
          exact absurd hf (by simp)
        · rw [hlt i hx₁ h] at hfi
          exact absurd hfi (by simp)
      subst hyi
      rw [hsome, ← hf, hfi]
  -- clear it
  obtain ⟨op, hview, hopkey, hset⟩ : ∃ op : RawSet, op.view = vm ∧
      op.key = .integer (Int64.ofNat (i + 1)) ∧
      (rawSet op.view t op.key op.value op.ledger).1 = .ok (t.clearSlot i) :=
    ⟨⟨vm, .granting, .integer (Int64.ofNat (i + 1)), .nil⟩, rfl, rfl,
      rawSet_clearSlot hsize hw vm⟩
  have hold : t.Holds r w := (holds_iff_fieldAt wf hsize).mpr ⟨i, _, hki, hfi, rfl⟩
  have hrun₂ : Traversal t (t.clearSlot i) (.integer (Int64.ofNat (i + 1))) (r :: seen₁) :=
    .edit (.next h₁.run hsees h₁.head hnext hr) (by rw [hview, hopkey]; exact hr) hold hset
  obtain ⟨_, -, hwritten⟩ := wf.rawSet_written hset
  have wf₂ := hwritten.wf
  have hed : Edited t (t.clearSlot i) := edited_slot hw rfl rfl
  have hsize₂ : (t.clearSlot i).Sized := hsize.of_length hed.array
  have hsees₂ : (t.clearSlot i).Sees vm := ⟨hsees.live, hsees.function, hsees.object⟩
  -- the traversal now resumes behind the dead twin
  have hresume : (t.clearSlot i).resume r = some (t.array.length + p + 1) := by
    rw [← hed.array]
    refine wf₂.resume_of_bucket hsize₂ ?_ fun j hj hkj hlj => ?_
    · rw [hed.array, hed.key]
      exact hkp
    · have hji := wf.liveAt_inj hsize (hed.live hlj) hli (by rw [← hed.key]; exact hkj) hki
      exact ((liveAt_clearSlot hi j).mp hlj).1 hji
  have h₂ : Standing t (t.clearSlot i) vm (.integer (Int64.ofNat (i + 1))) (r :: seen₁)
      (t.array.length + p + 1) := ⟨hrun₂, hr, .inr ⟨r, hr, hresume⟩⟩
  have hpb : p < t.hash.length := by
    obtain ⟨k, v, he, -⟩ := keyAt_add_eq_some.mp hkp
    exact lt_of_entry he
  -- and walks to the end
  obtain ⟨prev₃, seen₃, x₃, h₃, hx₃, hgap₃, hmem₃⟩ :=
    h₂.walk wf₂ hsize₂ hsees₂ (t.array.length + t.hash.length) (by omega)
  have hnone : nextRaw vm (t.clearSlot i) prev₃ = .ok none := by
    rcases wf₂.nextRaw_of_start hsize₂ hsees₂ h₃.start with ⟨hn, -⟩ | ⟨y, f, hy, -, hf, -⟩
    · exact hn
    · have hly : (t.clearSlot i).LiveAt y := by rw [LiveAt, hf]; rfl
      rw [hgap₃ y hy (lt_of_liveAt (hed.live hly))] at hf
      exact absurd hf (by simp)
  -- but the field in between was never returned
  have hlx₂ := (liveAt_clearSlot hi x).mpr ⟨by omega, hlx⟩
  obtain ⟨fx, hfx⟩ := Option.isSome_iff_exists.mp hlx₂
  obtain ⟨rx, hkx⟩ := keyAt_isSome hlx
  have hholds : (t.clearSlot i).Holds rx fx.2 :=
    (holds_iff_fieldAt wf₂ hsize₂).mpr ⟨x, fx, (hed.key x).trans hkx, hfx, rfl⟩
  have hseen := ((hcorrect _ _ _ h₃.run).2.2 vm hsees₂ h₃.head).2 hnone rx fx.2 hholds
  have hfresh : ∀ z, t.LiveAt z → t.keyAt z = some rx → z = x :=
    fun z hlz hkz => wf.liveAt_inj hsize hlz hlx hkz hkx
  rcases hmem₃ rx hseen with hin | ⟨z, hz, -, hkz, hlz⟩
  · rcases List.mem_cons.mp hin with rfl | hin
    · have := hfresh i hli hki
      omega
    · rcases hmem₁ rx hin with hin | ⟨z, -, hz, hkz, hlz⟩
      · exact absurd hin (by simp)
      · have := hfresh z hlz hkz
        omega
  · have := hfresh z (hed.live hlz) ((hed.key z).symm.trans hkz)
    omega

/-! ### Reachable tables -/

/-- A table some sequence of raw writes leads to. -/
def Reachable (t : Table) : Prop :=
  ∃ (arrayCapacity hashCapacity hashSeed : Nat) (l l' : Ledger) (t₀ : Table) (ops : List RawSet),
    tryNew arrayCapacity hashCapacity hashSeed l = (.ok t₀, l') ∧ t₀.rawSets ops = .ok t

/-- What every successful write preserves holds after a sequence of them. -/
theorem rawSets_induction {I : Table → Prop} {t t' : Table} {ops : List RawSet}
    (hstep : ∀ {t t' : Table} {op : RawSet}, op ∈ ops → I t →
      (rawSet op.view t op.key op.value op.ledger).1 = .ok t' → I t')
    (h : t.rawSets ops = .ok t') (ht : I t) : I t' := by
  induction ops generalizing t with
  | nil =>
    obtain rfl : t = t' := by simpa [rawSets] using h
    exact ht
  | cons op ops ih =>
    simp only [rawSets] at h
    cases hop : (rawSet op.view t op.key op.value op.ledger).1 with
    | error e => rw [hop] at h; exact absurd h (by simp)
    | ok u =>
      rw [hop] at h
      exact ih (fun hmem => hstep (List.mem_cons_of_mem _ hmem)) h (hstep List.mem_cons_self ht hop)

theorem Reachable.wf_sized {t : Table} (h : t.Reachable) : t.Wf ∧ t.Sized := by
  obtain ⟨_, _, _, _, _, t₀, ops, hnew, hrun⟩ := h
  refine rawSets_induction (I := fun t => t.Wf ∧ t.Sized) ?_ hrun
    ⟨(tryNew_spec hnew).1, tryNew_sized hnew⟩
  rintro t t' op - ⟨wf, hsize⟩ hset
  obtain ⟨_, -, hw⟩ := wf.rawSet_written hset
  exact ⟨hw.wf, hsize.rawSet hset⟩

omit [DefaultHasher] in
/-- A heap in which every stored key resolves sees the table. -/
theorem sees_of_resolves {t : Table} {vm : Vm}
    (h : ∀ {p k v}, t.entry p = some (k, v) → RawKey.ofValue vm k.asValue = some k.rawKey) :
    t.Sees vm := by
  refine ⟨fun he _ => h he, fun {p id v} he => ?_, fun {p source id v} he o bytes external hb => ?_⟩
  · have := h he
    simp only [CanonicalKey.asValue, RawKey.ofValue] at this
    by_contra hne
    rw [if_pos hne] at this
    exact absurd this (by simp)
  · obtain ⟨x, hx, ⟨bs, e, -, hraw⟩ | ⟨id', hno, hid', hraw⟩⟩ := RawKey.ofValue_object (h he)
    · exact absurd hraw (by simp [CanonicalKey.rawKey])
    · obtain rfl : id = id' := by simpa [CanonicalKey.rawKey] using hraw
      intro hid
      obtain ⟨y, hy⟩ : ∃ y, vm.checkedSlot o = .ok y := by
        unfold Vm.byteString at hb
        cases hc : vm.checkedSlot o with
        | error e => rw [hc] at hb; exact absurd hb (by simp)
        | ok y => exact ⟨y, rfl⟩
      rw [Vm.checkedSlot_inj hy hx (hid.trans hid'.symm), hno] at hb
      exact absurd hb (by simp)

/-- A heap that does not change during the writes sees the table. -/
theorem sees_of_rawSets {arrayCapacity hashCapacity hashSeed : Nat} {l l' : Ledger}
    {t₀ t : Table} {ops : List RawSet} {vm : Vm}
    (hnew : tryNew arrayCapacity hashCapacity hashSeed l = (.ok t₀, l'))
    (hrun : t₀.rawSets ops = .ok t) (hview : ∀ op ∈ ops, op.view = vm) : t.Sees vm := by
  refine sees_of_resolves (rawSets_induction
    (I := fun t => ∀ {p k v}, t.entry p = some (k, v) →
      RawKey.ofValue vm k.asValue = some k.rawKey) ?_ hrun ?_)
  · intro t t' op hop ih hset p k v he
    obtain ⟨key, m, l₁, l₂, l₃, hkey, hprep, rfl⟩ := rawSet_eq_ok hset
    rcases ((t.prepareSet_fits key op.value).ok trivial hprep).entry_cases he with
      ⟨q, w, hq⟩ | ⟨hraw, hval⟩
    · exact ih hq
    · rw [hraw, hval, ← hview op hop]
      have hclass := ((canonicalKey_spec op.view op.key).ok trivial hkey).1
      rcases (canonicalKey_asValue op.view op.key).ok trivial hkey key rfl with hv | ⟨i, rfl⟩
      · rw [hv, hclass]
        rfl
      · rfl
  · intro p k v he
    rw [(tryNew_empty hnew).1] at he
    exact absurd he (by simp)

end Table

/-- **When a traversal with clearing is correct.**  For a table any sequence of raw writes
    leads to, in a heap that knows its keys: every traversal that only writes to existing
    fields returns every field that stays, no field twice, and never fails, exactly when
    no integer key that lives in the array part has left a dead hash entry behind with live
    fields in between. -/
theorem traversalCorrect_iff [DefaultHasher] {t : Table} (h : t.Reachable) {vm : Vm}
    (hsees : t.Sees vm) : TraversalCorrect t ↔ ¬ t.StaleTwin := by
  obtain ⟨wf, hsize⟩ := h.wf_sized
  constructor
  · exact fun hcorrect htwin => wf.not_traversalCorrect hsize hsees htwin hcorrect
  · exact wf.traversalCorrect hsize

/-- Key 2 enters the hash part, key 1 makes the array part grow over it, key 2 is deleted and
    the hash part filled up; key 2 then comes back in the array part, and key 3 follows. -/
def twinSets : List RawSet :=
  [⟨.sample, .granting, .integer 2, .boolean true⟩,
   ⟨.sample, .granting, .integer 1, .boolean true⟩,
   ⟨.sample, .granting, .integer 2, .nil⟩,
   ⟨.sample, .granting, .boolean true, .boolean true⟩,
   ⟨.sample, .granting, .boolean false, .boolean true⟩,
   ⟨.sample, .granting, .integer 0, .boolean true⟩,
   ⟨.sample, .granting, .integer 2, .boolean true⟩,
   ⟨.sample, .granting, .integer 3, .boolean true⟩]

/-- The table these writes lead to: slot 1 holds key 2, whose dead entry is in bucket 0, and
    slot 2 holds key 3. -/
def twinTable : Table where
  metatable := none
  weakMode := .strong
  hashSeed := 7
  mutationVersion := 8
  array := [some (.boolean true), some (.boolean true), some (.boolean true), none]
  hash := [some (.integer 2, .nil), some (.boolean true, .boolean true),
    some (.boolean false, .boolean true), some (.integer 0, .boolean true)]

theorem twinTable_reachable :
    Table.tryNew 0 4 7 .granting = (.ok ⟨none, .strong, 7, 0, [], [none, none, none, none]⟩,
      { Ledger.granting with requests := 2 }) ∧
    @Table.rawSets collidingHasher ⟨none, .strong, 7, 0, [], [none, none, none, none]⟩ twinSets
      = .ok twinTable := ⟨rfl, rfl⟩

theorem twinTable_sees : twinTable.Sees Vm.sample := by
  refine @Table.sees_of_rawSets collidingHasher _ _ _ _ _ _ _ _ _ twinTable_reachable.1
    twinTable_reachable.2 ?_
  simp [twinSets]

/-- The traversal 1, 2, clear 2 jumps behind bucket 0 and never returns key 3. -/
theorem not_traversalCorrect_twinTable :
    @Table.Reachable collidingHasher twinTable ∧ twinTable.Sees .sample ∧
      ¬ @TraversalCorrect collidingHasher twinTable := by
  have hreach : @Table.Reachable collidingHasher twinTable :=
    ⟨0, 4, 7, _, _, _, _, twinTable_reachable.1, twinTable_reachable.2⟩
  obtain ⟨wf, hsize⟩ := @Table.Reachable.wf_sized collidingHasher _ hreach
  refine ⟨hreach, twinTable_sees, ?_⟩
  refine @Table.Wf.not_traversalCorrect collidingHasher _ wf hsize _ twinTable_sees ?_
  exact ⟨1, 0, .integer 2, .nil, .boolean true, rfl, rfl, by decide,
    .inl ⟨2, .boolean true, by decide, rfl⟩⟩

/-- The table `sampleSets` leads to: key 1 in the array part, a dead entry of key 2. -/
def clearedTable : Table where
  metatable := none
  weakMode := .strong
  hashSeed := 7
  mutationVersion := 3
  array := [some (.boolean false), none, none, none]
  hash := [some (.integer 2, .nil)]

theorem traversalCorrect_iff_clearedTable :
    @TraversalCorrect collidingHasher clearedTable ∧ ¬ clearedTable.StaleTwin := by
  have hnew : Table.tryNew 0 0 7 .granting = (.ok .sample, _) := rfl
  have hrun : @Table.rawSets collidingHasher .sample sampleSets = .ok clearedTable := rfl
  have hsees : clearedTable.Sees .sample :=
    @Table.sees_of_rawSets collidingHasher _ _ _ _ _ _ _ _ _ hnew hrun (by simp [sampleSets])
  have htwin : ¬ clearedTable.StaleTwin := by
    rintro ⟨i, p, k, v, w, hs, he, hk, -⟩
    -- only slot 0 is live and only bucket 0 is occupied, by key 2
    have hi := Table.lt_of_slot hs
    have hp := Table.lt_of_entry he
    simp only [clearedTable, List.length_cons, List.length_nil] at hi hp
    obtain rfl : p = 0 := by omega
    obtain rfl : .integer 2 = k := by simpa [Table.entry, clearedTable] using congrArg (Option.map Prod.fst) he
    have hidx : (CanonicalKey.integer 2).rawKey.arrayIndex = some 1 := by decide
    rw [hidx, Option.some.injEq] at hk
    subst hk
    exact absurd hs (by simp [Table.slot, clearedTable])
  refine ⟨?_, htwin⟩
  exact (@traversalCorrect_iff collidingHasher _ ⟨0, 0, 7, _, _, _, _, hnew, hrun⟩ _ hsees).mpr htwin

end RivetLua.Runtime
