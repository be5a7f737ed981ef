import Mathlib.Data.List.Basic
import Mathlib.Tactic.Basic

namespace OpenAddressing

/-!
# Open addressing with tombstones

A table of buckets in which an element is looked for from its home position on, up to the first
empty bucket.

* `Bucket`, `bucket` — empty, deleted or occupied;
* `target`, `search` — the loops of an insertion and of a look-up, over the positions to visit;
* `Reaches` — no empty bucket hides a position, seen from a home position;
* `search_eq_ok`, `target_eq_some`, `target_isSome` — what the loops find;
* `isOccupied`, `isDeleted`, `exists_empty`, `countP_set_bucket` — counting buckets.
-/

variable {α ε : Type}

/-- A bucket. -/
inductive Bucket (α : Type) where
  | empty
  | deleted
  | occupied (entry : α)
  deriving DecidableEq

/-- The bucket at a position. -/
def bucket (buckets : List (Bucket α)) (i : Nat) : Bucket α := buckets.getD i .empty

/-- The bucket an insertion takes: the first deleted one on the way to an empty one. -/
def target (buckets : List (Bucket α)) : List Nat → Option Nat → Option Nat
  | [], _ => none
  | i :: rest, firstDeleted =>
    match bucket buckets i with
    | .empty => some (firstDeleted.getD i)
    | .deleted => target buckets rest (firstDeleted.or (some i))
    | .occupied _ => target buckets rest firstDeleted

/-- The first entry that a check accepts, up to the first empty bucket. -/
def search (check : α → Except ε Bool) (buckets : List (Bucket α)) :
    List Nat → Except ε (Option (Nat × α))
  | [] => .ok none
  | i :: rest =>
    match bucket buckets i with
    | .empty => .ok none
    | .deleted => search check buckets rest
    | .occupied entry => do
      if ← check entry then .ok (some (i, entry)) else search check buckets rest

/-- No bucket before the first visit to `i` is empty. -/
def Reaches (buckets : List (Bucket α)) (positions : List Nat) (i : Nat) : Prop :=
  ∃ before after, positions = before ++ i :: after ∧ ∀ j ∈ before, bucket buckets j ≠ .empty

/-! ### Updates -/

theorem bucket_set {buckets : List (Bucket α)} {i : Nat} (hi : i < buckets.length) (b : Bucket α)
    (j : Nat) : bucket (buckets.set i b) j = if j = i then b else bucket buckets j := by
  unfold bucket
  by_cases hj : j = i
  · subst hj
    simp [hi]
  · rw [if_neg hj, List.getD_eq_getElem?_getD, List.getD_eq_getElem?_getD,
      List.getElem?_set_ne (Ne.symm hj)]

theorem lt_of_bucket {buckets : List (Bucket α)} {i : Nat} (h : bucket buckets i ≠ .empty) :
    i < buckets.length := by
  by_contra hi
  refine h ?_
  unfold bucket
  rw [List.getD_eq_getElem?_getD, List.getElem?_eq_none (Nat.not_lt.mp hi)]
  rfl

/-- Filling a bucket, or leaving a tombstone, hides nothing. -/
theorem Reaches.set {buckets : List (Bucket α)} {positions : List Nat} {i t : Nat} {b : Bucket α}
    (h : Reaches buckets positions i) (ht : t < buckets.length) (hb : b ≠ .empty) :
    Reaches (buckets.set t b) positions i := by
  obtain ⟨before, after, hsplit, hbefore⟩ := h
  refine ⟨before, after, hsplit, fun j hj => ?_⟩
  rw [bucket_set ht]
  by_cases hjt : j = t
  · rwa [if_pos hjt]
  · rw [if_neg hjt]
    exact hbefore j hj

/-! ### The loops -/

theorem Reaches.tail {buckets : List (Bucket α)} {positions : List Nat} {i j : Nat}
    (h : Reaches buckets (j :: positions) i) :
    i = j ∨ (bucket buckets j ≠ .empty ∧ Reaches buckets positions i) := by
  obtain ⟨before, after, hsplit, hbefore⟩ := h
  cases before with
  | nil => exact .inl (List.cons.inj hsplit).1.symm
  | cons k before =>
    obtain ⟨rfl, hrest⟩ := List.cons.inj hsplit
    exact .inr ⟨hbefore j (by simp), before, after, hrest, fun k hk =>
      hbefore k (List.mem_cons_of_mem _ hk)⟩

/-- A look-up whose checks succeed finds an accepted entry, or there is none within reach. -/
theorem search_eq_ok (check : α → Except ε Bool) (accepts : α → Bool) {buckets : List (Bucket α)}
    (hcheck : ∀ i entry, bucket buckets i = .occupied entry → check entry = .ok (accepts entry))
    (positions : List Nat) :
    (∃ i entry, search check buckets positions = .ok (some (i, entry))
        ∧ bucket buckets i = .occupied entry ∧ accepts entry = true)
      ∨ (search check buckets positions = .ok none
        ∧ ∀ i entry, Reaches buckets positions i → bucket buckets i = .occupied entry →
          accepts entry = false) := by
  induction positions with
  | nil =>
    refine .inr ⟨rfl, fun i entry hreach _ => ?_⟩
    obtain ⟨before, after, hsplit, -⟩ := hreach
    simp at hsplit
  | cons j positions ih =>
    rcases hj : bucket buckets j with _ | _ | stored
    · refine .inr ⟨by simp [search, hj], fun i entry hreach hi => ?_⟩
      obtain rfl | ⟨hne, -⟩ := hreach.tail
      · simp [hj] at hi
      · exact absurd hj hne
    · have hstep : search check buckets (j :: positions) = search check buckets positions := by
        simp [search, hj]
      rw [hstep]
      refine ih.imp_right fun ⟨hnone, hall⟩ => ⟨hnone, fun i entry hreach hi => ?_⟩
      obtain rfl | ⟨-, hrest⟩ := hreach.tail
      · simp [hj] at hi
      · exact hall i entry hrest hi
    · have hstored := hcheck j stored hj
      rcases haccepts : accepts stored with _ | _
      · have hstep : search check buckets (j :: positions) = search check buckets positions := by
          simp [search, hj, hstored, haccepts, bind, Except.bind]
        rw [hstep]
        refine ih.imp_right fun ⟨hnone, hall⟩ => ⟨hnone, fun i entry hreach hi => ?_⟩
        obtain rfl | ⟨-, hrest⟩ := hreach.tail
        · rw [hj] at hi
          cases hi
          exact haccepts
        · exact hall i entry hrest hi
      · refine .inl ⟨j, stored, ?_, hj, haccepts⟩
        simp [search, hj, hstored, haccepts, bind, Except.bind]

/-- The bucket of an insertion is free and within reach. -/
theorem target_eq_some {buckets : List (Bucket α)} {positions : List Nat} {t : Nat}
    (h : target buckets positions none = some t) :
    Reaches buckets positions t ∧ (bucket buckets t = .empty ∨ bucket buckets t = .deleted) := by
  -- once a deleted bucket has been met, it is the target
  have hkept : ∀ (positions : List Nat) (d t : Nat),
      target buckets positions (some d) = some t → t = d := by
    intro positions d t
    induction positions with
    | nil => simp [target]
    | cons j positions ih =>
      rcases hj : bucket buckets j with _ | _ | stored
      · simp [target, hj, eq_comm]
      · simpa [target, hj] using ih
      · simpa [target, hj] using ih
  induction positions with
  | nil => simp [target] at h
  | cons j positions ih =>
    rcases hj : bucket buckets j with _ | _ | stored
    · simp only [target, hj, Option.getD_none, Option.some.injEq] at h
      subst h
      exact ⟨⟨[], positions, rfl, by simp⟩, .inl hj⟩
    · simp only [target, hj, Option.none_or] at h
      obtain rfl := hkept positions j t h
      exact ⟨⟨[], positions, rfl, by simp⟩, .inr hj⟩
    · simp only [target, hj] at h
      obtain ⟨⟨before, after, hsplit, hbefore⟩, hfree⟩ := ih h
      refine ⟨⟨j :: before, after, by simp [hsplit], ?_⟩, hfree⟩
      intro k hk
      rcases List.mem_cons.mp hk with rfl | hk
      · simp [hj]
      · exact hbefore k hk

/-- An insertion finds a bucket if one of those visited is empty. -/
theorem target_isSome {buckets : List (Bucket α)} {positions : List Nat}
    (h : ∃ i ∈ positions, bucket buckets i = .empty) (firstDeleted : Option Nat) :
    (target buckets positions firstDeleted).isSome = true := by
  induction positions generalizing firstDeleted with
  | nil => simp at h
  | cons j positions ih =>
    rcases hj : bucket buckets j with _ | _ | stored
    · simp [target, hj]
    all_goals
      have hrest : ∃ i ∈ positions, bucket buckets i = .empty := by
        obtain ⟨i, hi, hempty⟩ := h
        rcases List.mem_cons.mp hi with rfl | hi
        · simp [hj] at hempty
        · exact ⟨i, hi, hempty⟩
      simp only [target, hj]
      exact ih hrest _

/-! ### Counting -/

/-- Is the bucket occupied? -/
def Bucket.isOccupied : Bucket α → Bool
  | .occupied _ => true
  | _ => false

/-- Is the bucket a tombstone? -/
def Bucket.isDeleted : Bucket α → Bool
  | .deleted => true
  | _ => false

/-- A table that is not full of entries and tombstones has an empty bucket. -/
theorem exists_empty {buckets : List (Bucket α)}
    (h : buckets.countP Bucket.isOccupied + buckets.countP Bucket.isDeleted < buckets.length) :
    ∃ i < buckets.length, bucket buckets i = .empty := by
  induction buckets with
  | nil => simp at h
  | cons b buckets ih =>
    cases b with
    | empty => exact ⟨0, by simp, rfl⟩
    | deleted | occupied entry =>
      simp only [List.countP_cons, Bucket.isOccupied, Bucket.isDeleted, List.length_cons] at h
      obtain ⟨i, hi, hempty⟩ := ih (by simp at h; omega)
      exact ⟨i + 1, by simpa using hi, hempty⟩

/-- The counts after one bucket changed. -/
theorem countP_set_bucket {buckets : List (Bucket α)} {i : Nat} (hi : i < buckets.length)
    (p : Bucket α → Bool) (b : Bucket α) :
    (buckets.set i b).countP p + (if p (bucket buckets i) then 1 else 0)
      = buckets.countP p + (if p b then 1 else 0) := by
  have hget : bucket buckets i = buckets[i] := by simp [bucket, hi]
  rw [List.countP_set hi, hget]
  by_cases hp : p buckets[i] = true
  · have hpos : 0 < buckets.countP p := List.countP_pos_iff.mpr ⟨_, List.getElem_mem hi, hp⟩
    simp only [hp, if_true]
    omega
  · simp [hp]

end OpenAddressing
