import RivetLua.Lib.Check
import RivetLua.Runtime.ShortStrings

namespace RivetLua.Runtime

open OpenAddressing

/-!
# Runtime — the index of short strings is a well-formed table

* `ShortStringIndex.Wf` — exact counters, no entry hidden behind an empty bucket, one bucket for
  each object;
* `Wf.insert`, `Wf.remove`, `Wf.foldlM_insert` — what the operations do to the entries;
* `Wf.reserveSlot` — after a reservation there is room.
-/

namespace ShortStringIndex

variable {index : ShortStringIndex}

/-- There is a bucket with an entry. -/
def Holds (index : ShortStringIndex) (entry : IndexEntry) : Prop :=
  ∃ i, bucket index.buckets i = .occupied entry

/-- A well-formed table. -/
structure Wf (index : ShortStringIndex) : Prop where
  capacity : index.buckets = [] ∨ ∃ k ≤ 59, index.buckets.length = 2 ^ (k + 4)
  occupied_eq : index.occupied = index.buckets.countP Bucket.isOccupied
  deleted_eq : index.deleted = index.buckets.countP Bucket.isDeleted
  reach : ∀ i entry, bucket index.buckets i = .occupied entry →
    Reaches index.buckets (positions entry.hash index.buckets.length) i
  distinct : ∀ i j a b, bucket index.buckets i = .occupied a → bucket index.buckets j = .occupied b →
    a.object = b.object → i = j

/-- The number of buckets that are not empty. -/
def used (index : ShortStringIndex) : Nat := index.occupied + index.deleted

/-! ### Probing -/

theorem lt_of_mem_positions {hash : UInt64} {capacity i : Nat} (h : i ∈ positions hash capacity) :
    i < capacity := by
  simp only [positions, List.mem_map, List.mem_range] at h
  obtain ⟨offset, hoffset, rfl⟩ := h
  exact Nat.mod_lt _ (by omega)

/-- Wrapping around does not disturb a probe, as capacities are powers of two. -/
theorem mem_positions {hash : UInt64} {k i : Nat} (hk : k ≤ 59) (hi : i < 2 ^ (k + 4)) :
    i ∈ positions hash (2 ^ (k + 4)) := by
  have hdvd : 2 ^ (k + 4) ∣ 2 ^ 64 := Nat.pow_dvd_pow 2 (by omega)
  have hpos : 0 < 2 ^ (k + 4) := Nat.two_pow_pos _
  simp only [positions, List.mem_map, List.mem_range, Nat.mod_mod_of_dvd _ hdvd]
  have hhome : hash.toNat % 2 ^ (k + 4) < 2 ^ (k + 4) := Nat.mod_lt _ hpos
  by_cases hle : hash.toNat % 2 ^ (k + 4) ≤ i
  · refine ⟨i - hash.toNat % 2 ^ (k + 4), by omega, ?_⟩
    rw [Nat.add_mod, Nat.mod_eq_of_lt (a := i - _) (by omega), Nat.add_sub_cancel' hle,
      Nat.mod_eq_of_lt hi]
  · refine ⟨i + 2 ^ (k + 4) - hash.toNat % 2 ^ (k + 4), by omega, ?_⟩
    rw [Nat.add_mod, Nat.mod_eq_of_lt (a := _ - _) (by omega),
      show hash.toNat % 2 ^ (k + 4) + (i + 2 ^ (k + 4) - hash.toNat % 2 ^ (k + 4))
        = i + 2 ^ (k + 4) by omega, Nat.add_mod_right, Nat.mod_eq_of_lt hi]

/-! ### Insertion -/

/-- A free bucket that a probe reaches can be filled. -/
theorem Wf.fill (h : index.Wf) {t : Nat} {entry : IndexEntry}
    (hreach : Reaches index.buckets (positions entry.hash index.buckets.length) t)
    (hfree : bucket index.buckets t = .empty ∨ bucket index.buckets t = .deleted)
    (hnew : ∀ other, index.Holds other → other.object ≠ entry.object) :
    (index.fill t entry).Wf ∧ (index.fill t entry).deleted ≤ index.deleted
      ∧ ∀ other, (index.fill t entry).Holds other ↔ index.Holds other ∨ other = entry := by
  have htlt : t < index.buckets.length := by
    obtain ⟨before, after, hsplit, -⟩ := hreach
    exact lt_of_mem_positions (hsplit ▸ List.mem_append_right _ (by simp))
  have hbucket : ∀ j, bucket (index.fill t entry).buckets j
      = if j = t then .occupied entry else bucket index.buckets j :=
    bucket_set htlt (.occupied entry)
  have hlength : (index.fill t entry).buckets.length = index.buckets.length := List.length_set
  have hocc := countP_set_bucket htlt Bucket.isOccupied (.occupied entry)
  have hdel := countP_set_bucket htlt Bucket.isDeleted (.occupied entry)
  have hfreeOcc : (bucket index.buckets t).isOccupied = false := by
    obtain hb | hb := hfree <;> rw [hb] <;> rfl
  constructor
  · constructor
    case capacity =>
      refine h.capacity.imp (fun hnil => ?_) fun ⟨k, hk, hpow⟩ => ⟨k, hk, hlength.trans hpow⟩
      simp [hnil] at htlt
    case occupied_eq =>
      show index.occupied + 1 = (index.buckets.set t (.occupied entry)).countP Bucket.isOccupied
      rw [hfreeOcc] at hocc
      simpa [h.occupied_eq, Bucket.isOccupied] using hocc.symm
    case deleted_eq =>
      show (if (bucket index.buckets t).isDeleted then index.deleted - 1 else index.deleted)
        = (index.buckets.set t (.occupied entry)).countP Bucket.isDeleted
      have hcount := h.deleted_eq
      obtain hb | hb := hfree
      all_goals
        simp only [hb, Bucket.isDeleted, Bool.false_eq_true, if_false, if_true] at hdel ⊢
        omega
    case reach =>
      intro i other hi
      rw [hlength]
      rw [hbucket] at hi
      by_cases hit : i = t
      · subst hit
        rw [if_pos rfl] at hi
        cases hi
        exact hreach.set htlt (by simp)
      · rw [if_neg hit] at hi
        exact (h.reach i other hi).set htlt (by simp)
    case distinct =>
      intro i j a b hi hj hab
      rw [hbucket] at hi hj
      by_cases hit : i = t
      · by_cases hjt : j = t
        · rw [hit, hjt]
        · rw [if_pos hit] at hi
          rw [if_neg hjt] at hj
          cases hi
          exact absurd hab.symm (hnew b ⟨j, hj⟩)
      · rw [if_neg hit] at hi
        by_cases hjt : j = t
        · rw [if_pos hjt] at hj
          cases hj
          exact absurd hab (hnew a ⟨i, hi⟩)
        · rw [if_neg hjt] at hj
          exact h.distinct i j a b hi hj hab
  refine ⟨?_, fun other => ⟨?_, ?_⟩⟩
  · show (if (bucket index.buckets t).isDeleted then index.deleted - 1 else index.deleted)
      ≤ index.deleted
    split
    · exact Nat.sub_le _ _
    · exact Nat.le_refl _
  · rintro ⟨i, hi⟩
    rw [hbucket] at hi
    by_cases hit : i = t
    · rw [if_pos hit] at hi
      cases hi
      exact .inr rfl
    · rw [if_neg hit] at hi
      exact .inl ⟨i, hi⟩
  · rintro (⟨i, hi⟩ | rfl)
    · have hit : i ≠ t := by
        rintro rfl
        simp [hi, Bucket.isOccupied] at hfreeOcc
      exact ⟨i, by rw [hbucket, if_neg hit, hi]⟩
    · exact ⟨t, by rw [hbucket, if_pos rfl]⟩

/-- An insertion into a table with an empty bucket finds one that is free. -/
theorem Wf.exists_target (h : index.Wf) (hroom : index.used < index.buckets.length)
    (hash : UInt64) :
    ∃ t, target index.buckets (positions hash index.buckets.length) none = some t := by
  obtain hnil | ⟨k, hk, hlength⟩ := h.capacity
  · simp [hnil] at hroom
  have hcount : index.buckets.countP Bucket.isOccupied + index.buckets.countP Bucket.isDeleted
      < index.buckets.length := by
    rw [← h.occupied_eq, ← h.deleted_eq]
    exact hroom
  obtain ⟨e, he, hempty⟩ := exists_empty hcount
  have hvisited : e ∈ positions hash index.buckets.length := by
    rw [hlength] at he ⊢
    exact mem_positions hk he
  exact Option.isSome_iff_exists.mp (target_isSome ⟨e, hvisited, hempty⟩ none)

theorem Wf.insert_eq (h : index.Wf) (hroom : index.used < index.buckets.length) (hash : UInt64)
    (object : StringRef) :
    ∃ t, target index.buckets (positions hash index.buckets.length) none = some t
      ∧ index.insert hash object = .ok (index.fill t ⟨hash, object⟩) := by
  obtain ⟨t, ht⟩ := h.exists_target hroom hash
  refine ⟨t, ht, ?_⟩
  rw [ShortStringIndex.insert, if_neg (by omega), ht]

/-- A table with an empty bucket takes one more entry. -/
theorem Wf.insert (h : index.Wf) (hroom : index.used < index.buckets.length) (hash : UInt64)
    {object : StringRef} (hnew : ∀ entry, index.Holds entry → entry.object ≠ object) :
    ∃ next, index.insert hash object = .ok next ∧ next.Wf
      ∧ next.buckets.length = index.buckets.length ∧ next.occupied = index.occupied + 1
      ∧ next.deleted ≤ index.deleted
      ∧ ∀ entry, next.Holds entry ↔ index.Holds entry ∨ entry = ⟨hash, object⟩ := by
  obtain ⟨t, ht, hinsert⟩ := h.insert_eq hroom hash object
  obtain ⟨hreach, hfree⟩ := target_eq_some ht
  let entry : IndexEntry := ⟨hash, object⟩
  obtain ⟨hwf, hdel, hholds⟩ := @Wf.fill _ h _ entry hreach hfree hnew
  exact ⟨_, hinsert, hwf, List.length_set, rfl, hdel, hholds⟩

/-! ### Removal -/

theorem wf_default : default.Wf := by
  constructor
  case capacity => exact .inl rfl
  case occupied_eq | deleted_eq => rfl
  all_goals
    intro i
    simp [default, bucket]

theorem not_holds_default (entry : IndexEntry) : ¬ default.Holds entry := by
  rintro ⟨i, hi⟩
  simp [default, bucket] at hi

/-- A table without entries, for the counter. -/
theorem Wf.not_holds_of_occupied (h : index.Wf) (hzero : index.occupied = 0) (entry : IndexEntry) :
    ¬ index.Holds entry := by
  rintro ⟨i, hi⟩
  have hlt : i < index.buckets.length := lt_of_bucket (by simp [hi])
  have hmem : bucket index.buckets i ∈ index.buckets := by
    rw [show bucket index.buckets i = index.buckets[i] by simp [bucket, hlt]]
    exact List.getElem_mem hlt
  have hpos : 0 < index.buckets.countP Bucket.isOccupied :=
    List.countP_pos_iff.mpr ⟨_, hmem, by rw [hi]; rfl⟩
  rw [h.occupied_eq] at hzero
  omega

/-- The removal of an object that has an entry. -/
theorem Wf.remove (h : index.Wf) {entry : IndexEntry} (hentry : index.Holds entry) :
    (index.remove entry.hash entry.object).Wf
      ∧ (index.remove entry.hash entry.object).used ≤ index.used
      ∧ ((index.remove entry.hash entry.object).buckets = []
        ∨ (index.remove entry.hash entry.object).buckets.length = index.buckets.length)
      ∧ ((index.remove entry.hash entry.object).buckets = [] →
        (index.remove entry.hash entry.object).used = 0)
      ∧ ∀ other, (index.remove entry.hash entry.object).Holds other
        ↔ index.Holds other ∧ other ≠ entry := by
  obtain ⟨i, hi⟩ := hentry
  -- the look-up finds the bucket
  have hfound : index.entryOf entry.hash entry.object = .ok (some (i, entry)) := by
    obtain ⟨j, found, hsearch, hj, haccepts⟩ | ⟨-, hnone⟩ := search_eq_ok
      (fun e : IndexEntry => (.ok (decide (e = ⟨entry.hash, entry.object⟩)) : Except VmError Bool))
      (fun e => decide (e = ⟨entry.hash, entry.object⟩)) (fun _ _ _ => rfl)
      (positions entry.hash index.buckets.length)
    · obtain rfl : found = entry := of_decide_eq_true haccepts
      obtain rfl := h.distinct i j found found hi hj rfl
      exact hsearch
    · exact absurd (hnone i entry (h.reach i entry hi) hi) (by simp)
  have hlt : i < index.buckets.length := lt_of_bucket (by simp [hi])
  have hocc := countP_set_bucket hlt Bucket.isOccupied .deleted
  have hdel := countP_set_bucket hlt Bucket.isDeleted .deleted
  simp only [hi, Bucket.isOccupied, Bucket.isDeleted, Bool.false_eq_true, if_false, if_true,
    Nat.add_zero] at hocc hdel
  have hbucket := bucket_set hlt (.deleted : Bucket IndexEntry)
  have hcounts := h.occupied_eq
  have hcounts' := h.deleted_eq
  have hother : ∀ {other}, index.Holds other → other ≠ entry →
      ∃ j, bucket (index.buckets.set i .deleted) j = .occupied other := by
    rintro other ⟨j, hj⟩ hne
    refine ⟨j, ?_⟩
    have hji : j ≠ i := by
      rintro rfl
      rw [hi] at hj
      cases hj
      exact hne rfl
    rw [hbucket, if_neg hji, hj]
  unfold ShortStringIndex.remove
  rw [hfound]
  by_cases hlast : index.occupied - 1 = 0
  · simp only [hlast, if_true]
    refine ⟨wf_default, Nat.zero_le _, .inl rfl, fun _ => rfl, fun other => ?_⟩
    refine iff_of_false (not_holds_default other) ?_
    rintro ⟨hother', hne⟩
    obtain ⟨j, hj⟩ := hother hother' hne
    have hjlt : j < (index.buckets.set i .deleted).length := lt_of_bucket (by simp [hj])
    have hpos : 0 < (index.buckets.set i .deleted).countP Bucket.isOccupied := by
      refine List.countP_pos_iff.mpr ⟨_, List.getElem_mem hjlt, ?_⟩
      rw [show (index.buckets.set i .deleted)[j] = bucket (index.buckets.set i .deleted) j by
        simp only [bucket, List.getD_eq_getElem?_getD, List.getElem?_eq_getElem hjlt]
        rfl, hj]
      rfl
    omega
  · simp only [hlast, if_false]
    refine ⟨?_, ?_, .inr List.length_set, fun hnil => ?_, fun other => ⟨?_, fun h =>
      hother h.1 h.2⟩⟩
    · constructor
      case capacity =>
        rcases h.capacity with hnil | ⟨k, hk, hpow⟩
        · simp [hnil] at hlt
        · exact .inr ⟨k, hk, by simpa using hpow⟩
      case occupied_eq =>
        simp only
        omega
      case deleted_eq =>
        simp only
        omega
      case reach =>
        intro j other hj
        simp only [List.length_set]
        rw [hbucket] at hj
        by_cases hji : j = i
        · simp [hji] at hj
        · rw [if_neg hji] at hj
          exact (h.reach j other hj).set hlt (by simp)
      case distinct =>
        intro j k a b hj hk hab
        rw [hbucket] at hj hk
        by_cases hji : j = i
        · simp [hji] at hj
        · by_cases hki : k = i
          · simp [hki] at hk
          · rw [if_neg hji] at hj
            rw [if_neg hki] at hk
            exact h.distinct j k a b hj hk hab
    · simp only [used]
      omega
    · have hzero : (index.buckets.set i .deleted).length = 0 := congrArg List.length hnil
      simp only [List.length_set] at hzero
      omega
    · rintro ⟨j, hj⟩
      rw [hbucket] at hj
      by_cases hji : j = i
      · simp [hji] at hj
      · rw [if_neg hji] at hj
        refine ⟨⟨j, hj⟩, ?_⟩
        rintro rfl
        exact hji (h.distinct j i other other hj hi rfl)

/-- The removal of an object without an entry. -/
theorem remove_of_not_holds {hash : UInt64} {object : StringRef}
    (hentry : ¬ index.Holds ⟨hash, object⟩) : index.remove hash object = index := by
  have hfound : index.entryOf hash object = .ok none := by
    obtain ⟨j, found, hsearch, hj, haccepts⟩ | ⟨hnone, -⟩ := search_eq_ok
      (fun e : IndexEntry => (.ok (decide (e = ⟨hash, object⟩)) : Except VmError Bool))
      (fun e => decide (e = ⟨hash, object⟩)) (fun _ _ _ => rfl)
      (positions hash index.buckets.length)
    · obtain rfl : found = ⟨hash, object⟩ := of_decide_eq_true haccepts
      exact absurd ⟨j, hj⟩ hentry
    · exact hnone
  unfold ShortStringIndex.remove
  rw [hfound]

/-! ### Growth -/

theorem mem_entries {entry : IndexEntry} : entry ∈ index.entries ↔ index.Holds entry := by
  simp only [entries, List.mem_filterMap]
  constructor
  · rintro ⟨b, hb, hentry⟩
    obtain ⟨i, hi, rfl⟩ := List.getElem_of_mem hb
    refine ⟨i, ?_⟩
    rw [show bucket index.buckets i = index.buckets[i] by simp [bucket, hi]]
    rcases hbucket : index.buckets[i] with _ | _ | stored
    all_goals
      rw [hbucket] at hentry
      cases hentry
    rfl
  · rintro ⟨i, hi⟩
    have hlt : i < index.buckets.length := lt_of_bucket (by simp [hi])
    refine ⟨bucket index.buckets i, ?_, by rw [hi]⟩
    rw [show bucket index.buckets i = index.buckets[i] by simp [bucket, hlt]]
    exact List.getElem_mem hlt

theorem Wf.entries_pairwise (h : index.Wf) :
    index.entries.Pairwise fun a b => a.object ≠ b.object := by
  unfold entries
  rw [List.pairwise_filterMap, List.pairwise_iff_getElem]
  intro i j hi hj hij a ha b hb hab
  have hbucket : ∀ {k : Nat} (hk : k < index.buckets.length),
      bucket index.buckets k = index.buckets[k] := fun hk => by
    simp [bucket, hk]
  split at ha <;> cases ha
  next ho =>
  split at hb <;> cases hb
  next ho' =>
  exact absurd (h.distinct i j a b ((hbucket hi).trans ho) ((hbucket hj).trans ho') hab)
    (Nat.ne_of_lt hij)

theorem Wf.entries_length (h : index.Wf) : index.entries.length = index.occupied := by
  rw [h.occupied_eq, entries, List.length_filterMap_eq_countP]
  congr 1
  funext b
  cases b <;> rfl

theorem wf_ofCapacity {k : Nat} (hk : k ≤ 59) : (ofCapacity (2 ^ (k + 4))).Wf := by
  have hbucket : ∀ i, bucket (ofCapacity (2 ^ (k + 4))).buckets i = .empty := by
    intro i
    simp only [ofCapacity, bucket, List.getD_eq_getElem?_getD, List.getElem?_replicate]
    split <;> rfl
  constructor
  case capacity => exact .inr ⟨k, hk, by simp [ofCapacity]⟩
  case occupied_eq => simp [ofCapacity, List.countP_replicate, Bucket.isOccupied]
  case deleted_eq => simp [ofCapacity, List.countP_replicate, Bucket.isDeleted]
  all_goals
    intro i
    simp [hbucket]

theorem not_holds_ofCapacity (capacity : Nat) (entry : IndexEntry) :
    ¬ (ofCapacity capacity).Holds entry := by
  rintro ⟨i, hi⟩
  simp only [ofCapacity, bucket, List.getD_eq_getElem?_getD, List.getElem?_replicate] at hi
  split at hi <;> cases hi

/-- Filling a table with entries, one after another. -/
theorem Wf.foldlM_insert {f : ShortStringIndex → IndexEntry → Except VmError ShortStringIndex}
    {l : List IndexEntry} (h : index.Wf) (hl : l.Pairwise fun a b => a.object ≠ b.object)
    (hf : ∀ next, ∀ entry ∈ l, f next entry = next.insert entry.hash entry.object)
    (hroom : index.used + l.length ≤ index.buckets.length)
    (hnew : ∀ entry ∈ l, ∀ other, index.Holds other → other.object ≠ entry.object) :
    ∃ next, l.foldlM f index = .ok next ∧ next.Wf
      ∧ next.buckets.length = index.buckets.length ∧ next.occupied = index.occupied + l.length
      ∧ next.deleted ≤ index.deleted
      ∧ ∀ entry, next.Holds entry ↔ index.Holds entry ∨ entry ∈ l := by
  induction l generalizing index with
  | nil => exact ⟨index, rfl, h, rfl, rfl, Nat.le_refl _, by simp⟩
  | cons entry l ih =>
    obtain ⟨hhead, htail⟩ := List.pairwise_cons.mp hl
    have hlt : index.used < index.buckets.length := by
      simp only [List.length_cons] at hroom
      omega
    obtain ⟨mid, hmid, hwf, hlength, hocc, hdel, hholds⟩ :=
      h.insert hlt entry.hash (hnew entry (by simp))
    have hroom' : mid.used + l.length ≤ mid.buckets.length := by
      simp only [List.length_cons, used] at hroom ⊢
      omega
    obtain ⟨next, hnext, hwf', hlength', hocc', hdel', hholds'⟩ := ih hwf htail
      (fun next other hother => hf next other (List.mem_cons_of_mem _ hother)) hroom' (by
        intro other hother stored hstored
        rcases (hholds stored).mp hstored with hold | rfl
        · exact hnew other (List.mem_cons_of_mem _ hother) stored hold
        · exact hhead other hother)
    refine ⟨next, ?_, hwf', hlength'.trans hlength, ?_, Nat.le_trans hdel' hdel, fun other => ?_⟩
    · rw [List.foldlM_cons, hf index entry (by simp), hmid]
      exact hnext
    · rw [hocc', hocc, List.length_cons]
      omega
    · rw [hholds', hholds, List.mem_cons]
      exact or_assoc

/-- All entries of a table fit into an empty one that is large enough. -/
theorem Wf.rehash {f : ShortStringIndex → IndexEntry → Except VmError ShortStringIndex}
    (h : index.Wf) {k : Nat} (hk : k ≤ 59) (hroom : index.occupied ≤ 2 ^ (k + 4))
    (hf : ∀ next entry, index.Holds entry → f next entry = next.insert entry.hash entry.object) :
    ∃ next, index.entries.foldlM f (ofCapacity (2 ^ (k + 4))) = .ok next ∧ next.Wf
      ∧ next.buckets.length = 2 ^ (k + 4) ∧ next.used = index.occupied
      ∧ ∀ entry, next.Holds entry ↔ index.Holds entry := by
  obtain ⟨next, hnext, hwf, hlength, hocc, hdel, hholds⟩ :=
    (wf_ofCapacity hk).foldlM_insert h.entries_pairwise
      (fun next entry hentry => hf next entry (mem_entries.mp hentry))
      (by simpa [ofCapacity, used, h.entries_length] using hroom)
      (fun entry _ other hother => absurd hother (not_holds_ofCapacity _ other))
  refine ⟨next, hnext, hwf, by simpa [ofCapacity] using hlength, ?_, fun entry => ?_⟩
  · simp only [ofCapacity, h.entries_length] at hocc hdel
    simp only [used]
    omega
  · rw [hholds, mem_entries]
    exact or_iff_right (not_holds_ofCapacity _ entry)

/-- `reserve_slot` makes room for one more entry and keeps the others. -/
theorem Wf.reserveSlot (h : index.Wf) (hused : index.used ≤ index.buckets.length / 2 + 1)
    {reserve : Except VmError Unit} {grown : Option ShortStringIndex} {next : ShortStringIndex}
    (hs : index.reserveSlot reserve = .ok (grown, next)) :
    next.Wf ∧ next.used + 1 ≤ next.buckets.length / 2 ∧ (∀ entry, next.Holds entry ↔ index.Holds entry)
      ∧ (grown = none ∨ grown = some index) := by
  unfold ShortStringIndex.reserveSlot at hs
  by_cases hfits : index.buckets.length ≠ 0
      ∧ index.occupied + index.deleted + 1 ≤ index.buckets.length / 2
  · rw [if_pos hfits] at hs
    cases hs
    exact ⟨h, hfits.2, fun _ => Iff.rfl, .inl rfl⟩
  · rw [if_neg hfits] at hs
    by_cases hover : usizeMax < index.grownCapacity
    · rw [if_pos hover] at hs
      cases hs
    · rw [if_neg hover] at hs
      obtain ⟨-, -, next', hnext, hs⟩ : ∃ u, reserve = .ok u ∧ ∃ next',
          index.entries.foldlM (fun next entry => next.insert entry.hash entry.object)
            (ofCapacity index.grownCapacity) = .ok next'
          ∧ (Except.ok (some index, next') : Except VmError _) = .ok (grown, next) := by
        obtain ⟨u, hu, hs⟩ := Check.bind_eq_ok.mp hs
        exact ⟨u, hu, Check.bind_eq_ok.mp hs⟩
      cases hs
      -- the new capacity is a power of two, with room to spare
      obtain ⟨k, hk, hgrown, hspare⟩ : ∃ k ≤ 59, index.grownCapacity = 2 ^ (k + 4)
          ∧ index.occupied + 1 ≤ 2 ^ (k + 4) / 2 := by
        unfold grownCapacity at hover ⊢
        simp only [usizeMax] at hover
        obtain hnil | ⟨k, hk, hlength⟩ := h.capacity
        · simp only [hnil, List.length_nil, if_true, used] at hused ⊢
          have hocc : index.occupied = 0 := by simp [h.occupied_eq, hnil]
          exact ⟨0, Nat.zero_le _, rfl, by simp [hocc]⟩
        · have hne : index.buckets.length ≠ 0 := by
            rw [hlength]
            exact Nat.ne_of_gt (Nat.two_pow_pos _)
          rw [if_neg hne] at hover ⊢
          by_cases hsame : index.occupied + 1 ≤ index.buckets.length / 2
          · rw [if_pos hsame]
            exact ⟨k, hk, hlength, hlength ▸ hsame⟩
          · rw [if_neg hsame] at hover ⊢
            have hdouble : index.buckets.length * 2 = 2 ^ (k + 1 + 4) := by
              rw [hlength, ← Nat.pow_succ, Nat.succ_eq_add_one, Nat.add_right_comm]
            have hk' : k + 1 ≤ 59 := by
              by_contra hlarge
              have hpow : 2 ^ 64 ≤ 2 ^ (k + 1 + 4) := Nat.pow_le_pow_right (by omega) (by omega)
              omega
            have h16 : 16 ≤ index.buckets.length := by
              rw [hlength, Nat.pow_add]
              have := Nat.two_pow_pos k
              omega
            refine ⟨k + 1, hk', hdouble, ?_⟩
            rw [← hdouble]
            simp only [used] at hused
            omega
      rw [hgrown] at hnext
      obtain ⟨next'', hnext'', hwf, hlength, hused', hholds⟩ := h.rehash hk (by omega)
        (fun _ _ _ => rfl)
      obtain rfl : next'' = next := Except.ok.inj (hnext''.symm.trans hnext)
      exact ⟨hwf, by rw [hlength, hused']; exact hspare, hholds, .inr rfl⟩

end ShortStringIndex

end RivetLua.Runtime
