import RivetLua.Runtime.RawKey

namespace RivetLua.Runtime

open RivetLua.Core StateProg

/-!
# Runtime — the table invariant

The storage invariant of a table and what one raw write does to it:

* `Table.Wf` — stored keys are storable and pairwise different, array slots never hold nil,
  and a field that is live in the array part has no live entry in the hash part;
* `Table.Holds` — the field relation a table stands for; `Wf.get_eq_iff` relates the raw
  read to it;
* `Table.Written` — the effect of one write on that relation; `Wf.prepareSet_spec` shows that
  every one of the seven mutations has it.
-/

/-! ### Buckets and slots after an update -/

namespace Table

theorem entry_set (t : Table) {p : Nat} (hp : p < t.hash.length) (b : Bucket) (q : Nat) :
    ({ t with hash := t.hash.set p b } : Table).entry q = if q = p then b else t.entry q := by
  simp only [entry]
  by_cases hq : q = p
  · subst hq
    rw [if_pos rfl, List.getElem?_set_self hp]
    rfl
  · rw [if_neg hq, List.getElem?_set_ne (Ne.symm hq)]

theorem slot_set (t : Table) {i : Nat} (hi : i < t.array.length) (o : Option Value) (j : Nat) :
    ({ t with array := t.array.set i o } : Table).slot j = if j = i then o else t.slot j := by
  simp only [slot]
  by_cases hj : j = i
  · subst hj
    rw [if_pos rfl, List.getElem?_set_self hi]
    rfl
  · rw [if_neg hj, List.getElem?_set_ne (Ne.symm hj)]

theorem lt_of_entry {t : Table} {p : Nat} {e : CanonicalKey × Value} (h : t.entry p = some e) :
    p < t.hash.length := by
  by_contra hp
  simp [entry, List.getElem?_eq_none (not_lt.mp hp)] at h

theorem lt_of_slot {t : Table} {i : Nat} {v : Value} (h : t.slot i = some v) :
    i < t.array.length := by
  by_contra hi
  simp [slot, List.getElem?_eq_none (not_lt.mp hi)] at h

@[simp] theorem entry_bump (t : Table) (p : Nat) : t.bumpMutationVersion.entry p = t.entry p := rfl

@[simp] theorem slot_bump (t : Table) (i : Nat) : t.bumpMutationVersion.slot i = t.slot i := rfl

/-! ### Probing -/

/-- A probe visits every bucket. -/
theorem mem_probes {start count p : Nat} (hs : start < count) (hp : p < count) :
    p ∈ probes start count := by
  simp only [probes, List.mem_map, List.mem_range]
  by_cases h : start ≤ p
  · refine ⟨p - start, by omega, ?_⟩
    rw [probe, if_pos (by omega)]
    omega
  · refine ⟨p + (count - start), by omega, ?_⟩
    rw [probe, if_neg (by omega)]
    omega

/-- A probe visits buckets only. -/
theorem lt_of_mem_probes {start count p : Nat} (hs : start < count) (h : p ∈ probes start count) :
    p < count := by
  simp only [probes, List.mem_map, List.mem_range] at h
  obtain ⟨step, hstep, rfl⟩ := h
  unfold probe
  split <;> omega

/-! ### The invariant and the relation a table stands for -/

/-- Storage invariant of a table. -/
structure Wf (t : Table) : Prop where
  storable : ∀ {p k v}, t.entry p = some (k, v) → k.Storable
  /-- No two hash entries, dead ones included, hold equal keys. -/
  distinct : ∀ {p q k v k' v'}, t.entry p = some (k, v) → t.entry q = some (k', v') →
    k.rawKey = k'.rawKey → p = q
  slot_ne : ∀ {i}, t.slot i ≠ some .nil
  /-- A field that is live in the array part is not live in the hash part. -/
  exclusive : ∀ {i p k v w}, t.slot i = some w → t.entry p = some (k, v) →
    k.rawKey.arrayIndex = some i → v = .nil

/-- The table has the field `r` with the value `v`. -/
def Holds (t : Table) (r : RawKey) (v : Value) : Prop :=
  v ≠ .nil ∧ ((∃ i, r.arrayIndex = some i ∧ t.slot i = some v) ∨
    ∃ p k, t.entry p = some (k, v) ∧ k.rawKey = r)

/-- A field has one value. -/
theorem Wf.holds_unique {t : Table} (wf : t.Wf) {r : RawKey} {v w : Value} (hv : t.Holds r v)
    (hw : t.Holds r w) : v = w := by
  obtain ⟨hv0, ⟨i, hi, hsi⟩ | ⟨p, k, hp, hk⟩⟩ := hv
  · obtain ⟨hw0, ⟨j, hj, hsj⟩ | ⟨q, k', hq, hk'⟩⟩ := hw
    · rw [hi, Option.some.injEq] at hj
      subst hj
      rw [hsi, Option.some.injEq] at hsj
      exact hsj
    · exact absurd (wf.exclusive hsi hq (hk' ▸ hi)) hw0
  · obtain ⟨hw0, ⟨j, hj, hsj⟩ | ⟨q, k', hq, hk'⟩⟩ := hw
    · exact absurd (wf.exclusive hsj hp (hk ▸ hj)) hv0
    · obtain rfl := wf.distinct hp hq (hk.trans hk'.symm)
      rw [hp, Option.some.injEq, Prod.mk.injEq] at hq
      exact hq.2

/-! ### One write -/

/-- `t'` is `t` with the field `r` set to `v`, or removed when `v` is nil. -/
structure Written (t t' : Table) (r : RawKey) (v : Value) : Prop where
  wf : t'.Wf
  holds : ∀ r' v', t'.Holds r' v' ↔ if r' = r then v' = v ∧ v' ≠ .nil else t.Holds r' v'

/-- Writing the array slot of a key none of whose hash entries is live. -/
theorem Wf.written_slot {t t' : Table} (wf : t.Wf) {r : RawKey} {i : Nat} {v : Value}
    (hr : r.arrayIndex = some i)
    (hslot : ∀ j, t'.slot j = if j = i then PreparedTableMutation.slotOf v else t.slot j)
    (hentry : ∀ p, t'.entry p = t.entry p)
    (hdead : ∀ {p k w}, t.entry p = some (k, w) → k.rawKey = r → w = .nil) :
    Written t t' r v := by
  have hself : ∀ w, PreparedTableMutation.slotOf v = some w ↔ w = v ∧ w ≠ .nil := by
    intro w
    unfold PreparedTableMutation.slotOf
    split
    · rename_i h
      subst h
      simp
    · rename_i h
      simp only [Option.some.injEq]
      exact ⟨fun e => e ▸ ⟨rfl, h⟩, fun e => e.1.symm⟩
  refine ⟨⟨?_, ?_, ?_, ?_⟩, ?_⟩
  · intro p k w h
    exact wf.storable (hentry p ▸ h)
  · intro p q k w k' w' h h'
    exact wf.distinct (hentry p ▸ h) (hentry q ▸ h')
  · intro j h
    rw [hslot] at h
    split at h
    · exact ((hself _).mp h).2 rfl
    · exact wf.slot_ne h
  · intro j p k w u hs he hk
    rw [hentry] at he
    rw [hslot] at hs
    split at hs
    · rename_i hj
      subst hj
      exact hdead he (RawKey.arrayIndex_inj hk hr)
    · exact wf.exclusive hs he hk
  · intro r' v'
    by_cases hrr : r' = r
    · subst hrr
      rw [if_pos rfl]
      constructor
      · rintro ⟨hv', ⟨j, hj, hs⟩ | ⟨p, k, he, hk⟩⟩
        · rw [hr, Option.some.injEq] at hj
          subst hj
          rw [hslot, if_pos rfl] at hs
          exact (hself _).mp hs
        · rw [hentry] at he
          exact absurd (hdead he hk) hv'
      · rintro ⟨hv, hv'⟩
        exact ⟨hv', .inl ⟨i, hr, by rw [hslot, if_pos rfl]; exact (hself _).mpr ⟨hv, hv'⟩⟩⟩
    · rw [if_neg hrr]
      -- another key owns another slot
      have hne : ∀ j, r'.arrayIndex = some j → t'.slot j = t.slot j := by
        intro j hj
        rw [hslot, if_neg]
        rintro rfl
        exact hrr (RawKey.arrayIndex_inj hj hr)
      unfold Holds
      simp only [hentry]
      constructor
      · rintro ⟨hv', ⟨j, hj, hs⟩ | h⟩
        · exact ⟨hv', .inl ⟨j, hj, hne j hj ▸ hs⟩⟩
        · exact ⟨hv', .inr h⟩
      · rintro ⟨hv', ⟨j, hj, hs⟩ | h⟩
        · exact ⟨hv', .inl ⟨j, hj, (hne j hj).symm ▸ hs⟩⟩
        · exact ⟨hv', .inr h⟩

/-- Writing a bucket that is empty or already holds the key; the array part has no value for
    the key. -/
theorem Wf.written_entry {t t' : Table} (wf : t.Wf) {r : RawKey} {p : Nat} {k : CanonicalKey}
    {v : Value} (hk : k.rawKey = r) (hks : k.Storable)
    (hslot : ∀ j, t'.slot j = t.slot j)
    (hentry : ∀ q, t'.entry q = if q = p then some (k, v) else t.entry q)
    (hother : ∀ {q k' w}, t.entry q = some (k', w) → k'.rawKey = r → q = p)
    (hhere : ∀ {k' w}, t.entry p = some (k', w) → k'.rawKey = r)
    (hempty : ∀ {i}, r.arrayIndex = some i → t.slot i = none) :
    Written t t' r v := by
  refine ⟨⟨?_, ?_, ?_, ?_⟩, ?_⟩
  · intro q k' w h
    rw [hentry] at h
    split at h
    · simp only [Option.some.injEq, Prod.mk.injEq] at h
      exact h.1 ▸ hks
    · exact wf.storable h
  · intro q q' k₁ w₁ k₂ w₂ h₁ h₂ h12
    rw [hentry] at h₁ h₂
    split at h₁ <;> split at h₂
    · rename_i ha hb
      rw [ha, hb]
    · rename_i ha hb
      simp only [Option.some.injEq, Prod.mk.injEq] at h₁
      exact absurd (hother h₂ (h12 ▸ h₁.1 ▸ hk)) hb
    · rename_i ha hb
      simp only [Option.some.injEq, Prod.mk.injEq] at h₂
      exact absurd (hother h₁ (h12.trans (h₂.1 ▸ hk))) ha
    · exact wf.distinct h₁ h₂ h12
  · intro j
    rw [hslot]
    exact wf.slot_ne
  · intro j q k' w u hs he hj
    rw [hslot] at hs
    rw [hentry] at he
    split at he
    · simp only [Option.some.injEq, Prod.mk.injEq] at he
      rw [← he.1, hk] at hj
      rw [hempty hj] at hs
      exact absurd hs (by simp)
    · exact wf.exclusive hs he hj
  · intro r' v'
    by_cases hrr : r' = r
    · subst hrr
      rw [if_pos rfl]
      constructor
      · rintro ⟨hv', ⟨j, hj, hs⟩ | ⟨q, k', he, hk'⟩⟩
        · rw [hslot, hempty hj] at hs
          exact absurd hs (by simp)
        · rw [hentry] at he
          split at he
          · simp only [Option.some.injEq, Prod.mk.injEq] at he
            exact ⟨he.2.symm, hv'⟩
          · rename_i hq
            exact absurd (hother he hk') hq
      · rintro ⟨rfl, hv'⟩
        exact ⟨hv', .inr ⟨p, k, by rw [hentry, if_pos rfl], hk⟩⟩
    · rw [if_neg hrr]
      unfold Holds
      simp only [hslot]
      refine and_congr_right fun _ => or_congr_right ?_
      constructor
      · rintro ⟨q, k', he, hk'⟩
        rw [hentry] at he
        split at he
        · simp only [Option.some.injEq, Prod.mk.injEq] at he
          exact absurd (hk'.symm.trans (he.1 ▸ hk)) hrr
        · exact ⟨q, k', he, hk'⟩
      · rintro ⟨q, k', he, hk'⟩
        refine ⟨q, k', ?_, hk'⟩
        rw [hentry, if_neg]
        · exact he
        · rintro rfl
          exact hrr (hk'.symm.trans (hhere he))

/-- Removing a field that is not there. -/
theorem Wf.written_noop {t : Table} (wf : t.Wf) {r : RawKey}
    (hdead : ∀ {p k w}, t.entry p = some (k, w) → k.rawKey = r → w = .nil)
    (hempty : ∀ {i}, r.arrayIndex = some i → t.slot i = none) : Written t t r .nil := by
  refine ⟨wf, fun r' v' => ?_⟩
  by_cases hrr : r' = r
  · subst hrr
    rw [if_pos rfl]
    constructor
    · rintro ⟨hv', ⟨j, hj, hs⟩ | ⟨q, k', he, hk'⟩⟩
      · rw [hempty hj] at hs
        exact absurd hs (by simp)
      · exact absurd (hdead he hk') hv'
    · rintro ⟨h, h'⟩
      exact absurd h h'
  · rw [if_neg hrr]

/-! ### Repacking -/

/-- Two indices of a list with equal entries, from the pairwise form. -/
theorem distinct_of_pairwise {l : List Bucket}
    (h : l.Pairwise fun a b => ∀ x ∈ a, ∀ y ∈ b, x.1.rawKey ≠ y.1.rawKey) {p q : Nat}
    {x y : CanonicalKey × Value} (hp : (l[p]?).join = some x) (hq : (l[q]?).join = some y)
    (hxy : x.1.rawKey = y.1.rawKey) : p = q := by
  obtain ⟨hpl, hpx⟩ := List.getElem?_eq_some_iff.mp (Option.join_eq_some_iff.mp hp)
  obtain ⟨hql, hqy⟩ := List.getElem?_eq_some_iff.mp (Option.join_eq_some_iff.mp hq)
  rw [List.pairwise_iff_getElem] at h
  rcases lt_trichotomy p q with hlt | heq | hgt
  · exact absurd hxy (h p q hpl hql hlt x hpx y hqy)
  · exact heq
  · exact absurd hxy.symm (h q p hql hpl hgt y hqy x hpx)

theorem Wf.pairwise {t : Table} (wf : t.Wf) :
    t.hash.Pairwise fun a b => ∀ x ∈ a, ∀ y ∈ b, x.1.rawKey ≠ y.1.rawKey := by
  rw [List.pairwise_iff_getElem]
  rintro p q hp hq hlt ⟨k, v⟩ hx ⟨k', v'⟩ hy hxy
  have he : t.entry p = some (k, v) := by
    rw [entry, List.getElem?_eq_getElem hp]
    exact hx
  have he' : t.entry q = some (k', v') := by
    rw [entry, List.getElem?_eq_getElem hq]
    exact hy
  exact absurd (wf.distinct he he' hxy) (by omega)

theorem liveHashCount_eq_length (t : Table) :
    t.liveHashCount = (t.hash.filter Bucket.isLive).length :=
  List.countP_eq_length_filter

/-- The grown hash part: the live entries, the new one, and empty buckets. -/
theorem repack_eq {old : List Bucket} {capacity : Nat} (key : CanonicalKey) (value : Value)
    (h : (old.filter Bucket.isLive).length < capacity) :
    PreparedTableMutation.repack old (List.replicate capacity none)
        (old.filter Bucket.isLive).length key value
      = old.filter Bucket.isLive ++ some (key, value) ::
          List.replicate (capacity - (old.filter Bucket.isLive).length - 1) none := by
  unfold PreparedTableMutation.repack
  simp only
  generalize old.filter Bucket.isLive = live at *
  obtain ⟨n, hn⟩ : ∃ n, capacity - live.length = n + 1 := ⟨capacity - live.length - 1, by omega⟩
  rw [List.drop_replicate, hn, List.set_append_right _ _ (le_refl _)]
  simp [List.replicate_succ]

theorem mem_of_entry {t : Table} {p : Nat} {e : CanonicalKey × Value} (h : t.entry p = some e) :
    some e ∈ t.hash :=
  List.mem_of_getElem? (Option.join_eq_some_iff.mp h)

theorem entry_of_mem {t : Table} {e : CanonicalKey × Value} (h : some e ∈ t.hash) :
    ∃ p, t.entry p = some e := by
  obtain ⟨p, hp⟩ := List.mem_iff_getElem?.mp h
  exact ⟨p, Option.join_eq_some_iff.mpr hp⟩

/-- Growing the hash part around a new key that has no live field. -/
theorem Wf.written_repack {t t' : Table} (wf : t.Wf) {key : CanonicalKey} {value : Value}
    {n : Nat} (hkey : key.Storable) (hslot : ∀ j, t'.slot j = t.slot j)
    (hhash : t'.hash = t.hash.filter Bucket.isLive ++ some (key, value) :: List.replicate n none)
    (hdead : ∀ {p k w}, t.entry p = some (k, w) → k.rawKey = key.rawKey → w = .nil)
    (hempty : ∀ {i}, key.rawKey.arrayIndex = some i → t.slot i = none) :
    Written t t' key.rawKey value := by
  -- an entry of the new hash part is a live old one or the new one
  have hmem : ∀ {k v}, (∃ p, t'.entry p = some (k, v)) ↔
      (v ≠ .nil ∧ ∃ p, t.entry p = some (k, v)) ∨ (k = key ∧ v = value) := by
    intro k v
    have : (∃ p, t'.entry p = some (k, v)) ↔ some (k, v) ∈ t'.hash :=
      ⟨fun ⟨_, h⟩ => mem_of_entry h, entry_of_mem⟩
    rw [this, hhash, List.mem_append, List.mem_filter, List.mem_cons]
    have hrep : some (k, v) ∉ List.replicate n (none : Bucket) := by
      intro h
      exact absurd (List.eq_of_mem_replicate h) (by simp)
    simp only [hrep, or_false, Option.some.injEq, Prod.mk.injEq, Bucket.isLive, decide_eq_true_eq]
    constructor
    · rintro (⟨h, hv⟩ | h)
      · exact .inl ⟨hv, entry_of_mem h⟩
      · exact .inr h
    · rintro (⟨hv, p, h⟩ | h)
      · exact .inl ⟨mem_of_entry h, hv⟩
      · exact .inr h
  have hpair : t'.hash.Pairwise fun a b => ∀ x ∈ a, ∀ y ∈ b, x.1.rawKey ≠ y.1.rawKey := by
    rw [hhash, List.pairwise_append, List.pairwise_cons]
    have hnone : ∀ b ∈ List.replicate n (none : Bucket), b = none :=
      fun b hb => List.eq_of_mem_replicate hb
    refine ⟨wf.pairwise.filter _, ⟨?_, ?_⟩, ?_⟩
    · rintro b hb x - y hy
      rw [hnone b hb] at hy
      exact absurd hy (by simp)
    · exact List.pairwise_replicate.mpr (.inr (by simp))
    · rintro a ha b hb ⟨k, v⟩ hx y hy hxy
      rw [List.mem_cons] at hb
      rcases hb with rfl | hb
      · obtain rfl : (key, value) = y := by simpa using hy
        obtain rfl : a = some (k, v) := hx
        rw [List.mem_filter] at ha
        obtain ⟨p, hp⟩ := entry_of_mem ha.1
        have := hdead hp hxy
        simp [Bucket.isLive, this] at ha
      · rw [hnone b hb] at hy
        exact absurd hy (by simp)
  refine ⟨⟨?_, ?_, ?_, ?_⟩, ?_⟩
  · intro p k v h
    rcases hmem.mp ⟨p, h⟩ with ⟨-, q, hq⟩ | ⟨rfl, -⟩
    · exact wf.storable hq
    · exact hkey
  · intro p q k v k' v' h h' hk
    exact distinct_of_pairwise hpair h h' hk
  · intro j
    rw [hslot]
    exact wf.slot_ne
  · intro j p k v w hs he hj
    rw [hslot] at hs
    rcases hmem.mp ⟨p, he⟩ with ⟨hv, q, hq⟩ | ⟨rfl, -⟩
    · exact wf.exclusive hs hq hj
    · rw [hempty hj] at hs
      exact absurd hs (by simp)
  · intro r v
    have hex : (∃ p k, t'.entry p = some (k, v) ∧ k.rawKey = r) ↔
        (v ≠ .nil ∧ ∃ p k, t.entry p = some (k, v) ∧ k.rawKey = r) ∨
          (key.rawKey = r ∧ v = value) := by
      constructor
      · rintro ⟨p, k, he, hk⟩
        rcases hmem.mp ⟨p, he⟩ with ⟨hv, q, hq⟩ | ⟨rfl, rfl⟩
        · exact .inl ⟨hv, q, k, hq, hk⟩
        · exact .inr ⟨hk, rfl⟩
      · rintro (⟨hv, q, k, hq, hk⟩ | ⟨hk, rfl⟩)
        · obtain ⟨p, hp⟩ := hmem.mpr (.inl ⟨hv, q, hq⟩)
          exact ⟨p, k, hp, hk⟩
        · obtain ⟨p, hp⟩ := hmem.mpr (.inr ⟨rfl, rfl⟩)
          exact ⟨p, key, hp, hk⟩
    unfold Holds
    simp only [hslot, hex]
    by_cases hr : r = key.rawKey
    · subst hr
      rw [if_pos rfl]
      constructor
      · rintro ⟨hv, ⟨i, hi, hs⟩ | ⟨-, p, k, he, hk⟩ | ⟨-, h⟩⟩
        · rw [hempty hi] at hs
          exact absurd hs (by simp)
        · exact absurd (hdead he hk) hv
        · exact ⟨h, hv⟩
      · rintro ⟨h, hv⟩
        exact ⟨hv, .inr (.inr ⟨rfl, h⟩)⟩
    · rw [if_neg hr]
      constructor
      · rintro ⟨hv, h | ⟨-, h⟩ | ⟨h, -⟩⟩
        · exact ⟨hv, .inl h⟩
        · exact ⟨hv, .inr h⟩
        · exact absurd h.symm hr
      · rintro ⟨hv, h | h⟩
        · exact ⟨hv, .inl h⟩
        · exact ⟨hv, .inr (.inl ⟨hv, h⟩)⟩

/-! ### Lookup -/

variable [DefaultHasher]

theorem bucket_lt (t : Table) (key : CanonicalKey) {count : Nat} (h : 0 < count) :
    t.bucket key count < count := Nat.mod_lt _ h

/-- A bucket that is found stores the key. -/
theorem findAnyHash_eq_some {t : Table} {key : CanonicalKey} {p : Nat}
    (h : t.findAnyHash key = some p) : ∃ k v, t.entry p = some (k, v) ∧ k.eq key = true := by
  unfold findAnyHash at h
  simp only at h
  split at h
  · exact absurd h (by simp)
  · have := List.find?_some h
    cases he : t.entry p with
    | none => rw [he] at this; exact absurd this (by simp)
    | some e =>
      obtain ⟨k, v⟩ := e
      rw [he] at this
      exact ⟨k, v, rfl, this⟩

/-- When no bucket is found, none stores the key. -/
theorem findAnyHash_eq_none {t : Table} {key : CanonicalKey} (h : t.findAnyHash key = none)
    {p : Nat} {k : CanonicalKey} {v : Value} (he : t.entry p = some (k, v)) :
    k.eq key = false := by
  have hp := lt_of_entry he
  unfold findAnyHash at h
  simp only at h
  rw [if_neg (by omega)] at h
  have := List.find?_eq_none.mp h p (mem_probes (t.bucket_lt key (by omega)) hp)
  rw [he] at this
  simpa using this

/-- A live bucket that is found holds the field. -/
theorem Wf.findHash_eq_some {t : Table} (wf : t.Wf) {key : CanonicalKey} (hkey : key.Storable)
    {p : Nat} (h : t.findHash key = some p) :
    ∃ k v, t.entry p = some (k, v) ∧ k.rawKey = key.rawKey ∧ v ≠ .nil := by
  unfold findHash at h
  obtain ⟨hany, hlive⟩ := Option.filter_eq_some_iff.mp h
  obtain ⟨k, v, he, hk⟩ := findAnyHash_eq_some hany
  refine ⟨k, v, he, (CanonicalKey.eq_iff_rawKey (wf.storable he) hkey).mp hk, ?_⟩
  rw [he] at hlive
  simpa [Bucket.isLive] using hlive

/-- When no live bucket is found, every entry of the key is dead. -/
theorem Wf.findHash_eq_none {t : Table} (wf : t.Wf) {key : CanonicalKey} (hkey : key.Storable)
    (h : t.findHash key = none) {p : Nat} {k : CanonicalKey} {v : Value}
    (he : t.entry p = some (k, v)) (hk : k.rawKey = key.rawKey) : v = .nil := by
  unfold findHash at h
  cases hany : t.findAnyHash key with
  | none =>
    have := findAnyHash_eq_none hany he
    rw [(CanonicalKey.eq_iff_rawKey (wf.storable he) hkey).mpr hk] at this
    exact absurd this (by simp)
  | some q =>
    obtain ⟨k', v', he', hk'⟩ := findAnyHash_eq_some hany
    have hq := (CanonicalKey.eq_iff_rawKey (wf.storable he') hkey).mp hk'
    obtain rfl := wf.distinct he he' (hk.trans hq.symm)
    rw [hany, Option.filter_some, he] at h
    by_contra hv
    simp [Bucket.isLive, hv] at h

/-- A key without array slot is read from its bucket. -/
theorem get_eq_hash {t : Table} {key : CanonicalKey}
    (hslot : ∀ i, key.arrayIndex = some i → t.slot i = none) :
    t.get key = (((t.findHash key).bind t.entry).map Prod.snd).getD .nil := by
  unfold get
  simp only
  cases hi : key.arrayIndex with
  | none => cases t.findHash key <;> rfl
  | some i =>
    simp only [hslot i hi]
    cases t.findHash key <;> rfl

/-- **The raw read.**  It returns the value of the field, nil when there is none. -/
theorem Wf.get_eq_iff {t : Table} (wf : t.Wf) {key : CanonicalKey} (hkey : key.Storable)
    {v : Value} (hv : v ≠ .nil) : t.get key = v ↔ t.Holds key.rawKey v := by
  by_cases hslot : ∀ i, key.arrayIndex = some i → t.slot i = none
  · rw [get_eq_hash hslot]
    cases hf : t.findHash key with
    | some p =>
      obtain ⟨k, w, he, hk, hw⟩ := wf.findHash_eq_some hkey hf
      simp only [Option.bind_some, he, Option.map_some, Option.getD_some]
      constructor
      · rintro rfl
        exact ⟨hw, .inr ⟨p, k, he, hk⟩⟩
      · exact fun h => wf.holds_unique ⟨hw, .inr ⟨p, k, he, hk⟩⟩ h
    | none =>
      constructor
      · exact fun h => absurd h.symm hv
      · rintro ⟨-, ⟨i, hi, hs⟩ | ⟨p, k, he, hk⟩⟩
        · rw [hslot i (by rw [CanonicalKey.arrayIndex_eq_rawKey]; exact hi)] at hs
          exact absurd hs (by simp)
        · exact absurd (wf.findHash_eq_none hkey hf he hk) hv
  · push Not at hslot
    obtain ⟨i, hi, hs⟩ := hslot
    obtain ⟨w, hs⟩ := Option.ne_none_iff_exists'.mp hs
    have hr : key.rawKey.arrayIndex = some i := by rw [← CanonicalKey.arrayIndex_eq_rawKey, hi]
    have hw : w ≠ .nil := fun h => wf.slot_ne (h ▸ hs)
    have hget : t.get key = w := by
      unfold get
      simp only [hi, hs]
    rw [hget]
    constructor
    · rintro rfl
      exact ⟨hv, .inl ⟨i, hr, hs⟩⟩
    · exact fun h => wf.holds_unique ⟨hw, .inl ⟨i, hr, hs⟩⟩ h

/-! ### The seven mutations -/

/-- An empty bucket exists as long as not every bucket is occupied. -/
theorem emptyBucket_spec (t : Table) (key : CanonicalKey)
    (h : t.hash.countP Option.isSome < t.hash.length) :
    Triple (fun _ => True) (t.emptyBucket t.hash key)
      (fun p _ => p < t.hash.length ∧ t.entry p = none) (fun _ _ => False) := by
  have hpos : 0 < t.hash.length := by omega
  intro l _
  unfold emptyBucket
  simp only
  rw [if_neg (by omega)]
  cases hf : (probes (t.bucket key t.hash.length) t.hash.length).find?
      fun index => (t.hash[index]?).join.isNone with
  | some p =>
    have hlt := lt_of_mem_probes (t.bucket_lt key hpos) (List.mem_of_find?_eq_some hf)
    exact ⟨hlt, by simpa [entry] using List.find?_some hf⟩
  | none =>
    -- then every bucket is occupied
    have hall : ∀ b ∈ t.hash, Option.isSome b = true := by
      intro b hb
      obtain ⟨p, hp, rfl⟩ := List.mem_iff_getElem.mp hb
      have := List.find?_eq_none.mp hf p (mem_probes (t.bucket_lt key hpos) hp)
      rw [List.getElem?_eq_getElem hp] at this
      simpa [Option.isSome_iff_ne_none] using this
    exact absurd (List.countP_eq_length.mpr hall) (by omega)

/-- The insertion of a key that has no entry at all, or no room to revive its dead one. -/
theorem Wf.prepareInsert_spec {t : Table} (wf : t.Wf) {key : CanonicalKey} (hkey : key.Storable)
    (value : Value)
    (hdead : ∀ {p k w}, t.entry p = some (k, w) → k.rawKey = key.rawKey → w = .nil)
    (hempty : ∀ {i}, key.rawKey.arrayIndex = some i → t.slot i = none)
    (hfresh : t.liveHashCount + 1 ≤ t.hash.length - t.hash.length / 4 →
      ∀ {p k w}, t.entry p = some (k, w) → k.rawKey ≠ key.rawKey) :
    Triple (fun _ => True) (t.prepareInsert key value)
      (fun m _ => Written t (m.apply t) key.rawKey value) (fun e _ => e ≠ .ledgerInvariant) := by
  have hcount : t.liveHashCount ≤ t.hash.length := List.countP_le_length
  unfold prepareInsert
  simp only
  refine Triple.ite (fun hgrow => ?_) (fun hroom => ?_)
  · refine Triple.ite (fun hbad => ?_) (fun hfit => ?_)
    · -- twice the capacity is always enough for one more entry
      exact absurd hbad (by omega)
    · refine Triple.bind (checkedBytes_spec _ _) fun _ => ?_
      refine Triple.bind (reserveVec_spec _ _ _) fun _ => ?_
      refine Triple.bind (checkpoint_spec _) fun _ => ?_
      refine Triple.bind (checkpoint_spec _) fun _ _ _ => ?_
      have hlt : (t.hash.filter Bucket.isLive).length < max (t.hash.length * 2) 1 := by
        rw [← liveHashCount_eq_length]
        omega
      have hhash := repack_eq key value hlt
      rw [← liveHashCount_eq_length] at hhash
      exact wf.written_repack hkey (fun _ => rfl) hhash hdead hempty
  · rw [not_or, not_or] at hroom
    obtain ⟨-, hocc, hload⟩ := hroom
    refine Triple.bind (checkpoint_spec _) fun _ => ?_
    refine Triple.bind ((t.emptyBucket_spec key (by omega)).conseq (fun _ h => h)
      (fun _ _ h => h) (fun _ _ h => h.elim)) fun p l hp => ?_
    have hload' : t.liveHashCount + 1 ≤ t.hash.length - t.hash.length / 4 := by omega
    refine wf.written_entry (p := p) rfl hkey (fun _ => rfl)
      (fun q => (entry_bump _ q).trans (entry_set t hp.1 _ q)) ?_ ?_ hempty
    · intro q k w he hk
      exact absurd hk (hfresh hload' he)
    · intro k w he
      rw [hp.2] at he
      exact absurd he (by simp)

/-- The write of a key that has no live field. -/
theorem Wf.prepareAbsent_spec {t : Table} (wf : t.Wf) {key : CanonicalKey} (hkey : key.Storable)
    {value : Value} (hvalue : value ≠ .nil)
    (hdead : ∀ {p k w}, t.entry p = some (k, w) → k.rawKey = key.rawKey → w = .nil)
    (hempty : ∀ {i}, key.rawKey.arrayIndex = some i → t.slot i = none)
    (hfresh : t.liveHashCount + 1 ≤ t.hash.length - t.hash.length / 4 →
      ∀ {p k w}, t.entry p = some (k, w) → k.rawKey ≠ key.rawKey) :
    Triple (fun _ => True) (t.prepareAbsent key value)
      (fun m _ => Written t (m.apply t) key.rawKey value) (fun e _ => e ≠ .ledgerInvariant) := by
  unfold prepareAbsent
  cases hi : key.arrayIndex with
  | none => exact wf.prepareInsert_spec hkey value hdead hempty hfresh
  | some i =>
    have hr : key.rawKey.arrayIndex = some i := by rw [← CanonicalKey.arrayIndex_eq_rawKey, hi]
    refine Triple.ite (fun hlt => ?_) (fun hge => ?_)
    · refine Triple.bind (checkpoint_spec _) fun _ _ _ => ?_
      exact wf.written_slot hr (fun j => (slot_bump _ j).trans (slot_set t hlt _ j))
        (fun _ => rfl) hdead
    · refine Triple.ite (fun heq => ?_)
        (fun _ => wf.prepareInsert_spec hkey value hdead hempty hfresh)
      refine Triple.bind (checkedBytes_spec _ _) fun _ => ?_
      refine Triple.bind (reserveVec_spec _ _ _) fun _ => ?_
      refine Triple.bind (checkpoint_spec _) fun _ _ _ => ?_
      refine wf.written_slot hr (fun j => ?_) (fun _ => rfl) hdead
      -- the new array agrees with the old one below its length and is empty above it
      show (((t.array ++ List.replicate _ none).set i (some value))[j]?).join = _
      by_cases hj : j = i
      · subst hj
        rw [if_pos rfl, List.getElem?_set_self (by simp; omega)]
        simp [PreparedTableMutation.slotOf, hvalue]
      · rw [if_neg hj, List.getElem?_set_ne (Ne.symm hj), slot]
        by_cases hjl : j < t.array.length
        · rw [List.getElem?_append_left hjl]
        · rw [List.getElem?_append_right (by omega), List.getElem?_replicate,
            List.getElem?_eq_none (by omega)]
          split <;> rfl

/-- **One raw write.**  Whatever mutation is chosen, publishing it keeps the invariant and
    changes the written field only; the internal consistency error is never raised. -/
theorem Wf.prepareSet_spec {t : Table} (wf : t.Wf) {key : CanonicalKey} (hkey : key.Storable)
    (value : Value) :
    Triple (fun _ => True) (t.prepareSet key value)
      (fun m _ => Written t (m.apply t) key.rawKey value) (fun e _ => e ≠ .ledgerInvariant) := by
  unfold prepareSet
  cases hin : key.arrayIndex.filter fun index => (t.slot index).isSome with
  | some i =>
    obtain ⟨hi, hsome⟩ := Option.filter_eq_some_iff.mp hin
    obtain ⟨w, hw⟩ := Option.isSome_iff_exists.mp hsome
    have hr : key.rawKey.arrayIndex = some i := by rw [← CanonicalKey.arrayIndex_eq_rawKey, hi]
    refine fun _ _ => wf.written_slot hr
      (fun j => (slot_bump _ j).trans (slot_set t (lt_of_slot hw) _ j)) (fun _ => rfl) ?_
    intro p k u he hk
    exact wf.exclusive hw he (hk ▸ hr)
  | none =>
    have hempty : ∀ {i}, key.rawKey.arrayIndex = some i → t.slot i = none := by
      intro i hi
      rw [← CanonicalKey.arrayIndex_eq_rawKey] at hi
      simpa using Option.filter_eq_none_iff.mp hin i hi
    simp only
    cases hf : t.findHash key with
    | some p =>
      obtain ⟨k, w, he, hk, hw⟩ := wf.findHash_eq_some hkey hf
      have hlt := lt_of_entry he
      have hother : ∀ {q k' u}, t.entry q = some (k', u) → k'.rawKey = key.rawKey → q = p :=
        fun he' hk' => wf.distinct he' he (hk'.trans hk.symm)
      have hhere : ∀ {k' u}, t.entry p = some (k', u) → k'.rawKey = key.rawKey := by
        intro k' u he'
        rw [he, Option.some.injEq, Prod.mk.injEq] at he'
        exact he'.1 ▸ hk
      refine Triple.ite (fun hnil => ?_) (fun hnil => ?_)
      · subst hnil
        refine Triple.bind key.makeDead_spec fun dead _ hd => ?_
        exact wf.written_entry hd.1 (hd.2 hkey) (fun _ => rfl)
          (fun q => (entry_bump _ q).trans (entry_set t hlt _ q)) hother hhere hempty
      · refine fun _ _ => wf.written_entry (k := k) hk (wf.storable he) ?_ ?_ hother hhere hempty
        · intro j
          simp [PreparedTableMutation.apply, hnil]
          rfl
        · intro q
          simp only [PreparedTableMutation.apply, if_neg hnil, entry_bump]
          have : t.hash.modify p (Option.map fun e => (e.1, value))
              = t.hash.set p (some (k, value)) := by
            rw [List.modify_eq_set_getElem?]
            have hget : t.hash[p]? = some (some (k, w)) := Option.join_eq_some_iff.mp he
            simp [hget]
          rw [this]
          exact entry_set t hlt _ q
    | none =>
      have hdead : ∀ {p k w}, t.entry p = some (k, w) → k.rawKey = key.rawKey → w = .nil :=
        fun he hk => wf.findHash_eq_none hkey hf he hk
      refine Triple.ite (fun hnil => ?_) (fun hnil => ?_)
      · subst hnil
        exact fun _ _ => wf.written_noop hdead hempty
      · cases hany : t.findAnyHash key with
        | some p =>
          obtain ⟨k, w, he, hk⟩ := findAnyHash_eq_some hany
          have hk' := (CanonicalKey.eq_iff_rawKey (wf.storable he) hkey).mp hk
          refine Triple.ite (fun hload => ?_) (fun hload => ?_)
          · refine Triple.bind (checkpoint_spec _) fun _ _ _ => ?_
            refine wf.written_entry rfl hkey (fun _ => rfl)
              (fun q => (entry_bump _ q).trans (entry_set t (lt_of_entry he) _ q))
              (fun he' hk'' => wf.distinct he' he (hk''.trans hk'.symm)) ?_ hempty
            intro k'' u he'
            rw [he, Option.some.injEq, Prod.mk.injEq] at he'
            exact he'.1 ▸ hk'
          · exact wf.prepareAbsent_spec hkey hnil hdead hempty (fun h => absurd h hload)
        | none =>
          refine wf.prepareAbsent_spec hkey hnil hdead hempty fun _ => ?_
          intro p k w he hk
          have := findAnyHash_eq_none hany he
          rw [(CanonicalKey.eq_iff_rawKey (wf.storable he) hkey).mpr hk] at this
          exact absurd this (by simp)

end Table

end RivetLua.Runtime
