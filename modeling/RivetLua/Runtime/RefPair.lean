import RivetLua.Lib.Check
import RivetLua.Runtime.LookupCache

namespace RivetLua.Runtime

open RivetLua.Core StateProg

/-!
# Runtime — two fields at once are two writes

`PreparedRefPair.apply` replaces the storages that have grown and then writes its fields one after
another into places that were chosen for both of them.

* `PreparedRefPair.staged` — the table with the new storages and without the new fields;
* `RefPairEntry.Ready` — what a place has to be for a field to be written there;
* `PreparedRefPair.foldl_applyEntry_spec` — fields with different keys and different places, one after another;
* `Chosen`, `PlaceStep`, `Landed` — the places that are chosen, and where they end up;
* `Prepared.apply_spec` — the pair stands for the two assignments.
-/

namespace Allocation

/-! ### Writing the fields -/

/-- Where a place lies: in the array part or in the hash part. -/
def RefPairSlot.place : RefPairSlot → Nat ⊕ Nat
  | .array index => .inl index
  | .hashExisting index | .hashNew index => .inr index

/-- The class of the key of a field. -/
def RefPairEntry.rawKey (entry : RefPairEntry) : RawKey := .integer entry.key

/-- A place a field may be written to: its slot in the array part, its own bucket or an empty one. -/
def RefPairEntry.Ready (t : Table) (entry : RefPairEntry) : Prop :=
  match entry.slot with
  | .array index => entry.rawKey.arrayIndex = some index ∧ index < t.array.length
      ∧ ∀ {p k w}, t.entry p = some (k, w) → k.rawKey = entry.rawKey → w = .nil
  | .hashExisting index => (∃ k w, t.entry index = some (k, w) ∧ k.rawKey = entry.rawKey)
      ∧ ∀ {i}, entry.rawKey.arrayIndex = some i → t.slot i = none
  | .hashNew index => index < t.hash.length ∧ t.entry index = none
      ∧ (∀ {p k w}, t.entry p = some (k, w) → k.rawKey ≠ entry.rawKey)
      ∧ ∀ {i}, entry.rawKey.arrayIndex = some i → t.slot i = none

namespace PreparedRefPair

theorem slot_applyEntry (t : Table) {entry : RefPairEntry} (h : entry.Ready t) (j : Nat) :
    (applyEntry t entry).slot j
      = if entry.slot.place = .inl j then some entry.value else t.slot j := by
  cases hslot : entry.slot with
  | array index =>
    simp only [RefPairEntry.Ready, hslot] at h
    simp only [applyEntry, hslot, RefPairSlot.place, Sum.inl.injEq]
    rw [Table.slot_set t h.2.1]
    simp only [eq_comm]
  | hashExisting index | hashNew index =>
    simp only [applyEntry, hslot, RefPairSlot.place, reduceCtorEq, if_false]
    rfl

/-- The key a field is stored under: the one of its bucket, if there is one. -/
theorem entry_applyEntry {t : Table} {entry : RefPairEntry} (h : entry.Ready t) :
    (∀ p, entry.slot.place ≠ .inr p → (applyEntry t entry).entry p = t.entry p)
      ∧ ∀ p, entry.slot.place = .inr p → ∃ k, k.rawKey = entry.rawKey
        ∧ (applyEntry t entry).entry p = some (k, entry.value)
        ∧ (k = .integer entry.key ∨ ∃ w, t.entry p = some (k, w)) := by
  cases hslot : entry.slot with
  | array index =>
    simp only [applyEntry, hslot, RefPairSlot.place, reduceCtorEq, false_imp_iff, implies_true,
      and_true]
    exact fun p _ => rfl
  | hashExisting index =>
    simp only [RefPairEntry.Ready, hslot] at h
    obtain ⟨⟨k, w, hentry, hk⟩, -⟩ := h
    have hget : t.hash[index]? = some (some (k, w)) := Option.join_eq_some_iff.mp hentry
    have hset : applyEntry t entry
        = { t with hash := t.hash.set index (some (k, entry.value)) } := by
      simp only [applyEntry, hslot, List.modify_eq_set_getElem?, hget]
      rfl
    simp only [RefPairSlot.place, Sum.inr.injEq]
    rw [hset]
    refine ⟨fun p hp => ?_, fun p hp => ⟨k, hk, ?_, .inr ⟨w, hp ▸ hentry⟩⟩⟩
    · rw [Table.entry_set t (Table.lt_of_entry hentry), if_neg (fun heq => hp (by rw [heq]))]
    · rw [Table.entry_set t (Table.lt_of_entry hentry), if_pos hp.symm]
  | hashNew index =>
    simp only [RefPairEntry.Ready, hslot] at h
    have hset : applyEntry t entry
        = { t with hash := t.hash.set index (some (.integer entry.key, entry.value)) } := by
      simp only [applyEntry, hslot]
    simp only [RefPairSlot.place, Sum.inr.injEq]
    rw [hset]
    refine ⟨fun p hp => ?_, fun p hp => ⟨.integer entry.key, rfl, ?_, .inl rfl⟩⟩
    · rw [Table.entry_set t h.1, if_neg (fun heq => hp (by rw [heq]))]
    · rw [Table.entry_set t h.1, if_pos hp.symm]

/-- A bucket a field may be written to holds no other key, and no other bucket holds its key. -/
theorem ready_bucket {t : Table} (wf : t.Wf) {entry : RefPairEntry} (h : entry.Ready t) {p : Nat}
    (hplace : entry.slot.place = .inr p) :
    p < t.hash.length
      ∧ (∀ {q k w}, t.entry q = some (k, w) → k.rawKey = entry.rawKey → q = p)
      ∧ (∀ {k w}, t.entry p = some (k, w) → k.rawKey = entry.rawKey)
      ∧ ∀ {i}, entry.rawKey.arrayIndex = some i → t.slot i = none := by
  cases hslot : entry.slot with
  | array index => simp [hslot, RefPairSlot.place] at hplace
  | hashExisting index =>
    simp only [RefPairEntry.Ready, hslot] at h
    obtain rfl : index = p := by simpa [hslot, RefPairSlot.place] using hplace
    obtain ⟨⟨k, w, hentry, hk⟩, hempty⟩ := h
    refine ⟨Table.lt_of_entry hentry, fun hq hkey => wf.distinct hq hentry (hkey.trans hk.symm),
      fun {k' w'} hhere => ?_, hempty⟩
    rw [hentry] at hhere
    cases hhere
    exact hk
  | hashNew index =>
    simp only [RefPairEntry.Ready, hslot] at h
    obtain rfl : index = p := by simpa [hslot, RefPairSlot.place] using hplace
    obtain ⟨hlt, hnone, hnew, hempty⟩ := h
    refine ⟨hlt, fun hq hkey => absurd hkey (hnew hq), fun {k' w'} hhere => ?_, hempty⟩
    rw [hnone] at hhere
    cases hhere

/-- One field in its place. -/
theorem applyEntry_written {t : Table} (wf : t.Wf) {entry : RefPairEntry} (h : entry.Ready t)
    (hvalue : entry.value ≠ .nil) :
    Table.Written t (applyEntry t entry) entry.rawKey entry.value := by
  have hslots := slot_applyEntry t h
  obtain ⟨hothers, hhere⟩ := entry_applyEntry h
  cases hplace : entry.slot.place with
  | inl index =>
    obtain ⟨hindex, -, hdead⟩ : entry.rawKey.arrayIndex = some index ∧ index < t.array.length
        ∧ ∀ {p k w}, t.entry p = some (k, w) → k.rawKey = entry.rawKey → w = .nil := by
      cases hslot : entry.slot with
      | array i =>
        obtain rfl : i = index := by simpa [hslot, RefPairSlot.place] using hplace
        simpa only [RefPairEntry.Ready, hslot] using h
      | hashExisting p | hashNew p => simp [hslot, RefPairSlot.place] at hplace
    refine wf.written_slot hindex (fun j => ?_) (fun p => hothers p (by simp [hplace])) hdead
    rw [hslots, PreparedTableMutation.slotOf, if_neg hvalue]
    simp only [hplace, Sum.inl.injEq, eq_comm]
  | inr p =>
    obtain ⟨-, hother, hkey, hempty⟩ := ready_bucket wf h hplace
    obtain ⟨k, hk, hwritten, horigin⟩ := hhere p hplace
    have hstorable : k.Storable := by
      obtain rfl | ⟨w, hw⟩ := horigin
      · trivial
      · exact wf.storable hw
    refine wf.written_entry hk hstorable (fun j => ?_) (fun q => ?_) hother hkey hempty
    · rw [hslots, if_neg (by simp [hplace])]
    · split
      · next hq => rw [hq, hwritten]
      · next hq => exact hothers q (by simpa [hplace] using Ne.symm hq)

/-- A field may still be written after another one with another key and another place. -/
theorem ready_applyEntry {t : Table} {entry other : RefPairEntry}
    (h : entry.Ready t) (hother : other.Ready t) (hkey : other.rawKey ≠ entry.rawKey)
    (hplace : other.slot.place ≠ entry.slot.place) : other.Ready (applyEntry t entry) := by
  have hslots := slot_applyEntry t h
  obtain ⟨hothers, hhere⟩ := entry_applyEntry h
  -- an entry with the key of the other field is an old one
  have hold : ∀ {p k w}, (applyEntry t entry).entry p = some (k, w) → k.rawKey = other.rawKey →
      t.entry p = some (k, w) := by
    intro p k w hp hk
    by_cases hhit : entry.slot.place = .inr p
    · obtain ⟨k', hk', hwritten, -⟩ := hhere p hhit
      rw [hwritten] at hp
      cases hp
      exact absurd (hk.symm.trans hk') hkey
    · rwa [hothers p hhit] at hp
  have hempty : (∀ {i}, other.rawKey.arrayIndex = some i → t.slot i = none) →
      ∀ {i}, other.rawKey.arrayIndex = some i → (applyEntry t entry).slot i = none := by
    intro hnone i hi
    rw [hslots, if_neg, hnone hi]
    intro hhit
    cases hslot : entry.slot with
    | array index =>
      obtain rfl : index = i := by simpa [hslot, RefPairSlot.place] using hhit
      simp only [RefPairEntry.Ready, hslot] at h
      exact hkey (RawKey.arrayIndex_inj hi h.1)
    | hashExisting p | hashNew p => simp [hslot, RefPairSlot.place] at hhit
  have harray : (applyEntry t entry).array.length = t.array.length := by
    unfold applyEntry
    split <;> simp
  have hhash : (applyEntry t entry).hash.length = t.hash.length := by
    unfold applyEntry
    split <;> simp
  cases hslot : other.slot with
  | array index =>
    simp only [RefPairEntry.Ready, hslot] at hother ⊢
    exact ⟨hother.1, harray ▸ hother.2.1, fun hp hk => hother.2.2 (hold hp hk) hk⟩
  | hashExisting index =>
    simp only [RefPairEntry.Ready, hslot] at hother ⊢
    obtain ⟨⟨k, w, hentry, hk⟩, hnone⟩ := hother
    have hmiss : entry.slot.place ≠ .inr index := fun hhit => hplace (by rw [hhit, hslot]; rfl)
    exact ⟨⟨k, w, (hothers index hmiss).trans hentry, hk⟩, hempty hnone⟩
  | hashNew index =>
    simp only [RefPairEntry.Ready, hslot] at hother ⊢
    obtain ⟨hlt, hentry, hnew, hnone⟩ := hother
    have hmiss : entry.slot.place ≠ .inr index := fun hhit => hplace (by rw [hhit, hslot]; rfl)
    exact ⟨hhash ▸ hlt, (hothers index hmiss).trans hentry, fun hp hk => hnew (hold hp hk) hk,
      hempty hnone⟩

/-- The abstract effect of fields that are written one after another. -/
def assignAll (m : FieldMap) (entries : List RefPairEntry) : FieldMap :=
  entries.foldl (fun m entry => m.assign entry.rawKey entry.value) m

/-- **Fields with different keys and different places**, one after another. -/
theorem foldl_applyEntry_spec {entries : List RefPairEntry} {t : Table} (wf : t.Wf)
    {m : FieldMap} (hm : t.Represents m) (hready : ∀ entry ∈ entries, entry.Ready t)
    (hvalues : ∀ entry ∈ entries, entry.value ≠ .nil)
    (hdistinct : entries.Pairwise fun a b => b.rawKey ≠ a.rawKey ∧ b.slot.place ≠ a.slot.place) :
    (entries.foldl applyEntry t).Wf
      ∧ (entries.foldl applyEntry t).Represents (assignAll m entries) := by
  induction entries generalizing t m with
  | nil => exact ⟨wf, hm⟩
  | cons entry rest ih =>
    rw [List.pairwise_cons] at hdistinct
    have hfirst := hready entry List.mem_cons_self
    have hwritten := applyEntry_written wf hfirst (hvalues entry List.mem_cons_self)
    refine ih hwritten.wf (hwritten.represents hm) (fun other hother => ?_)
      (fun other hother => hvalues other (List.mem_cons_of_mem _ hother)) hdistinct.2
    obtain ⟨hkey, hplace⟩ := hdistinct.1 other hother
    exact ready_applyEntry hfirst (hready other (List.mem_cons_of_mem _ hother)) hkey hplace

/-! ### The new storages -/

variable (pair : PreparedRefPair)

/-- The table with the storages that have grown, before the fields are written. -/
def staged (t : Table) : Table :=
  { t with
    array := pair.arrayGrowth.elim t.array RefPairGrowth.next
    hash := pair.hashGrowth.elim t.hash fun growth =>
      t.hash.filter Bucket.isLive ++ growth.next.drop (t.hash.filter Bucket.isLive).length }

theorem apply_eq (t : Table) :
    pair.apply t = (pair.entries.foldl applyEntry (pair.staged t)).bumpMutationVersion := rfl

/-- The storages a pair grows: a longer array part with the old slots in front, and an empty hash
    part with room for the live buckets. -/
structure Grows (t : Table) : Prop where
  array : ∀ growth, pair.arrayGrowth = some growth →
    ∃ n, growth.next = t.array ++ List.replicate n none
  hash : ∀ growth, pair.hashGrowth = some growth →
    ∃ n, growth.next = List.replicate n none ∧ t.liveHashCount ≤ n

variable {pair} {t : Table}

theorem Grows.slot_staged (h : pair.Grows t) (j : Nat) : (pair.staged t).slot j = t.slot j := by
  cases hgrowth : pair.arrayGrowth with
  | none => simp only [staged, hgrowth, Option.elim, Table.slot]
  | some growth =>
    obtain ⟨n, hnext⟩ := h.array growth hgrowth
    simp only [staged, hgrowth, Option.elim, Table.slot, hnext]
    rw [List.getElem?_append]
    split
    · rfl
    · next hlt =>
      rw [List.getElem?_eq_none (l := t.array) (by omega), List.getElem?_replicate]
      split <;> rfl

/-- The position of a live bucket among the live ones. -/
theorem getElem?_filter_live {hash : List Bucket} {i : Nat} {e : CanonicalKey × Value}
    (h : hash[i]? = some (some e)) (hlive : e.2 ≠ .nil) :
    (hash.filter Bucket.isLive)[(hash.take i).countP Bucket.isLive]? = some (some e) := by
  induction hash generalizing i with
  | nil => simp at h
  | cons bucket rest ih =>
    cases i with
    | zero =>
      obtain rfl : bucket = some e := by simpa using h
      have hbucket : Bucket.isLive (some e) = true := by simpa [Bucket.isLive] using hlive
      simp [hbucket]
    | succ i =>
      have hrest := ih (by simpa using h)
      cases hbucket : Bucket.isLive bucket with
      | true => simpa [List.filter_cons, hbucket] using hrest
      | false => simpa [List.filter_cons, hbucket] using hrest

/-- The buckets behind the live ones of a grown hash part are empty. -/
theorem Grows.entry_behind (h : pair.Grows t) {growth : RefPairGrowth Bucket}
    (hgrowth : pair.hashGrowth = some growth) {p : Nat} (hp : t.liveHashCount ≤ p) :
    (pair.staged t).entry p = none := by
  obtain ⟨n, hnext, -⟩ := h.hash growth hgrowth
  rw [Table.liveHashCount_eq_length] at hp
  simp only [staged, hgrowth, Option.elim, Table.entry, hnext, List.drop_replicate]
  rw [List.getElem?_append_right hp, List.getElem?_replicate]
  split <;> rfl

/-- A grown hash part holds the live entries and no others. -/
theorem Grows.entry_staged (h : pair.Grows t) {growth : RefPairGrowth Bucket}
    (hgrowth : pair.hashGrowth = some growth) {e : CanonicalKey × Value} :
    (∃ p, (pair.staged t).entry p = some e) ↔ e.2 ≠ .nil ∧ ∃ p, t.entry p = some e := by
  obtain ⟨n, hnext, -⟩ := h.hash growth hgrowth
  have hmem : some e ∈ (pair.staged t).hash ↔ e.2 ≠ .nil ∧ some e ∈ t.hash := by
    simp only [staged, hgrowth, Option.elim, hnext, List.drop_replicate, List.mem_append,
      List.mem_filter]
    have hrep : some e ∉ List.replicate (n - (t.hash.filter Bucket.isLive).length)
        (none : Bucket) := by
      intro hin
      exact absurd (List.eq_of_mem_replicate hin) (by simp)
    simp only [hrep, or_false, Bucket.isLive, decide_eq_true_eq]
    exact and_comm
  have hentry : ∀ u : Table, (∃ p, u.entry p = some e) ↔ some e ∈ u.hash := by
    intro u
    constructor
    · rintro ⟨p, hp⟩
      exact Table.mem_of_entry hp
    · exact Table.entry_of_mem
  rw [hentry, hentry, hmem]

/-- The new storages keep every field. -/
theorem Grows.staged_spec (h : pair.Grows t) (wf : t.Wf) :
    (pair.staged t).Wf ∧ ∀ r v, (pair.staged t).Holds r v ↔ t.Holds r v := by
  have hslots := h.slot_staged
  cases hgrowth : pair.hashGrowth with
  | none =>
    have hentries : ∀ p, (pair.staged t).entry p = t.entry p := by
      intro p
      simp only [staged, hgrowth, Option.elim, Table.entry]
    refine ⟨⟨fun hp => wf.storable (hentries _ ▸ hp),
      fun hp hq => wf.distinct (hentries _ ▸ hp) (hentries _ ▸ hq), fun {i} => ?_,
      fun hs hp => wf.exclusive (hslots _ ▸ hs) (hentries _ ▸ hp)⟩, fun r v => ?_⟩
    · rw [hslots]
      exact wf.slot_ne
    · simp only [Table.Holds, hslots, hentries]
  | some growth =>
    have hentries := @Grows.entry_staged pair t h growth hgrowth
    obtain ⟨n, hnext, -⟩ := h.hash growth hgrowth
    have hpair : (pair.staged t).hash.Pairwise fun a b =>
        ∀ x ∈ a, ∀ y ∈ b, x.1.rawKey ≠ y.1.rawKey := by
      simp only [staged, hgrowth, Option.elim, hnext, List.drop_replicate]
      rw [List.pairwise_append]
      refine ⟨wf.pairwise.filter _, List.pairwise_replicate.mpr (.inr (by simp)), ?_⟩
      intro a _ b hb x _ y hy
      rw [List.eq_of_mem_replicate hb] at hy
      simp at hy
    refine ⟨⟨fun {p k v} hp => ?_, fun hp hq => Table.distinct_of_pairwise hpair hp hq,
      fun {i} => ?_, fun {i p k v w} hs hp hk => ?_⟩, fun r v => ?_⟩
    · obtain ⟨-, q, hq⟩ := hentries.mp ⟨p, hp⟩
      exact wf.storable hq
    · rw [hslots]
      exact wf.slot_ne
    · obtain ⟨-, q, hq⟩ := hentries.mp ⟨p, hp⟩
      exact wf.exclusive (hslots i ▸ hs) hq hk
    · have hex : (∃ p k, (pair.staged t).entry p = some (k, v) ∧ k.rawKey = r) ↔
          v ≠ .nil ∧ ∃ p k, t.entry p = some (k, v) ∧ k.rawKey = r := by
        constructor
        · rintro ⟨p, k, hp, hk⟩
          obtain ⟨hv, q, hq⟩ := hentries.mp ⟨p, hp⟩
          exact ⟨hv, q, k, hq, hk⟩
        · rintro ⟨hv, p, k, hp, hk⟩
          obtain ⟨q, hq⟩ := hentries.mpr ⟨hv, p, hp⟩
          exact ⟨q, k, hq, hk⟩
      simp only [Table.Holds, hslots, hex]
      exact and_congr_right fun hv => or_congr_right (and_iff_right hv)

end PreparedRefPair

/-! ### Choosing the places -/

section Prepare

variable [DefaultHasher] {t : Table}

/-- What `refSlot` knows of the place of a key. -/
structure Chosen (t : Table) (arrayLength : Nat) (key : Int64) (slot : RefPairSlot) : Prop where
  array : ∀ i, slot = .array i → (CanonicalKey.integer key).arrayIndex = some i
    ∧ ((t.slot i).isSome ∨ t.findAnyHash (.integer key) = none ∧ i < arrayLength)
  hash : ∀ p, slot = .hashExisting p → t.findAnyHash (.integer key) = some p
  new : ∀ p, slot = .hashNew p → t.findAnyHash (.integer key) = none
  empty : (∃ p, slot.place = .inr p) → ∀ i, (CanonicalKey.integer key).arrayIndex = some i →
    t.slot i = none

/-- A place that makes one more bucket live. -/
def RefPairSlot.inserts (t : Table) : RefPairSlot → Nat
  | .array _ => 0
  | .hashExisting p => if (t.entry p).any fun entry => decide (entry.2 = .nil) then 1 else 0
  | .hashNew _ => 1

omit [DefaultHasher] in
/-- The empty slot of a key that is not in the array part. -/
theorem slot_none_of_filter {key : CanonicalKey}
    (h : (key.arrayIndex.filter fun index => (t.slot index).isSome) = none) (i : Nat)
    (hi : key.arrayIndex = some i) : t.slot i = none := by
  rw [hi, Option.filter_some] at h
  simpa using h

theorem refSlot_spec (arrayLength : Nat) (key : Int64) :
    Triple (fun _ => True) (refSlot t arrayLength key)
      (fun r _ => Chosen t arrayLength key r.1 ∧ r.2 = r.1.inserts t) (fun _ _ => True) := by
  unfold refSlot
  simp only
  cases hin : (CanonicalKey.integer key).arrayIndex.filter fun index => (t.slot index).isSome with
  | some i =>
    obtain ⟨hi, hsome⟩ := Option.filter_eq_some_iff.mp hin
    refine Triple.return_of fun _ _ => ⟨⟨?_, by simp, by simp, by simp [RefPairSlot.place]⟩, rfl⟩
    rintro j ⟨⟩
    exact ⟨hi, .inl hsome⟩
  | none =>
    have hempty := slot_none_of_filter hin
    simp only
    cases hany : t.findAnyHash (.integer key) with
    | some p =>
      have hchosen : Chosen t arrayLength key (.hashExisting p) :=
        ⟨by simp, by rintro q ⟨⟩; exact hany, by simp, fun _ => hempty⟩
      refine Triple.ite (fun hdead => ?_) (fun hlive => ?_)
      · refine Triple.bind Triple.top fun _ => Triple.return_of fun _ _ => ⟨hchosen, ?_⟩
        simp only [RefPairSlot.inserts, hdead, if_true]
      · refine Triple.return_of fun _ _ => ⟨hchosen, ?_⟩
        simp only [RefPairSlot.inserts, hlive, Bool.false_eq_true, if_false]
    | none =>
      refine Triple.bind Triple.top fun _ => ?_
      cases hlt : (CanonicalKey.integer key).arrayIndex.filter
          fun index => decide (index < arrayLength) with
      | some i =>
        obtain ⟨hi, hless⟩ := Option.filter_eq_some_iff.mp hlt
        refine Triple.return_of fun _ _ => ⟨⟨?_, by simp, by simp, by simp [RefPairSlot.place]⟩, rfl⟩
        rintro j ⟨⟩
        exact ⟨hi, .inr ⟨hany, by simpa using hless⟩⟩
      | none =>
        exact Triple.return_of fun _ _ =>
          ⟨⟨by simp, by simp, fun _ _ => hany, fun _ => hempty⟩, rfl⟩

/-- The places that are chosen for some writes. -/
def ChosenAll (t : Table) (arrayLength : Nat) (values : List (Int64 × Value))
    (entries : List RefPairEntry) : Prop :=
  entries.map (fun entry => (entry.key, entry.value)) = values
    ∧ ∀ entry ∈ entries, Chosen t arrayLength entry.key entry.slot

/-- The buckets some fields make live. -/
def insertsOf (t : Table) (entries : List RefPairEntry) : Nat :=
  (entries.map fun entry => entry.slot.inserts t).sum

theorem refSlots_spec (arrayLength : Nat) (values : List (Int64 × Value)) :
    Triple (fun _ => True) (refSlots t arrayLength values)
      (fun r _ => ChosenAll t arrayLength values r.1 ∧ r.2 = insertsOf t r.1)
      (fun _ _ => True) := by
  induction values with
  | nil => exact Triple.return_of fun _ _ => ⟨⟨rfl, by simp⟩, rfl⟩
  | cons item rest ih =>
    refine Triple.bind (refSlot_spec arrayLength item.1) fun slot l hslot => ?_
    refine Triple.bind (P := fun _ => True) ih (fun others l' hothers => ?_) l trivial
    obtain ⟨⟨hmap, hall⟩, hcount⟩ := hothers
    refine ⟨⟨by rw [List.map_cons, hmap], ?_⟩, ?_⟩
    · rintro entry (_ | ⟨_, hentry⟩)
      · exact hslot.1
      · exact hall entry hentry
    · simp only [insertsOf, List.map_cons, List.sum_cons] at hcount ⊢
      rw [hslot.2, hcount]

/-! ### Placing the fields in the new storages -/

omit [DefaultHasher] in
/-- An entry whose value is nil, as the preparation tests it. -/
theorem dead_iff {bucket : Bucket} :
    (bucket.any fun entry => decide (entry.2 = .nil)) = true ↔ ∃ k, bucket = some (k, .nil) := by
  cases bucket with
  | none => simp
  | some e =>
    obtain ⟨k, v⟩ := e
    simp

/-- One step of `placeSlot`. -/
inductive PlaceStep (t : Table) (state : Nat × List Nat) :
    Bool → RefPairSlot → RefPairSlot → Nat × List Nat → Prop
  | array {grows : Bool} (i : Nat) : PlaceStep t state grows (.array i) (.array i) state
  | stays (p : Nat) : PlaceStep t state false (.hashExisting p) (.hashExisting p) state
  | moves (p : Nat) : ¬ (∃ k, t.entry p = some (k, .nil)) →
      PlaceStep t state true (.hashExisting p)
        (.hashExisting ((t.hash.take p).countP Bucket.isLive)) state
  | renews (p : Nat) : (∃ k, t.entry p = some (k, .nil)) →
      PlaceStep t state true (.hashExisting p) (.hashNew state.1) (state.1 + 1, state.2)
  | appends (p : Nat) :
      PlaceStep t state true (.hashNew p) (.hashNew state.1) (state.1 + 1, state.2)
  | claims (p : Nat) {index : Nat} : index < t.hash.length → t.entry index = none →
      index ∉ state.2 →
      PlaceStep t state false (.hashNew p) (.hashNew index) (state.1, index :: state.2)

theorem placeSlot_step {grows : Bool} {state : Nat × List Nat} {key : Int64}
    {slot : RefPairSlot} {r : RefPairSlot × Nat × List Nat}
    (h : placeSlot t grows state key slot = .ok r) : PlaceStep t state grows slot r.1 r.2 := by
  cases slot with
  | array i =>
    cases h
    exact .array i
  | hashExisting p =>
    cases grows with
    | false =>
      cases h
      exact .stays p
    | true =>
      simp only [placeSlot, if_true] at h
      split at h
      · next hdead =>
        cases h
        exact .renews p (dead_iff.mp hdead)
      · next hlive =>
        cases h
        exact .moves p fun hdead => hlive (dead_iff.mpr hdead)
  | hashNew p =>
    cases grows with
    | true =>
      cases h
      exact .appends p
    | false =>
      simp only [placeSlot, Bool.false_eq_true, if_false] at h
      split at h
      · next index hfind =>
        cases h
        have htest := List.find?_some hfind
        rw [Bool.and_eq_true, Option.isNone_iff_eq_none] at htest
        have hpos : 0 < t.hash.length := by
          by_contra hzero
          have hnil : t.hash.length = 0 := by omega
          simp [Table.probes, hnil] at hfind
        exact .claims p
          (Table.lt_of_mem_probes (t.bucket_lt _ hpos) (List.mem_of_find?_eq_some hfind)) htest.1
          (by simpa using htest.2)
      · cases h

/-- No entry holds a key that is not found. -/
theorem ne_of_findAnyHash_none {t : Table} (wf : t.Wf) {key : Int64}
    (h : t.findAnyHash (.integer key) = none) {p : Nat} {k : CanonicalKey} {v : Value}
    (he : t.entry p = some (k, v)) : k.rawKey ≠ .integer key := by
  intro hk
  have hne := Table.findAnyHash_eq_none h he
  rw [(CanonicalKey.eq_iff_rawKey (b := .integer key) (wf.storable he) trivial).mpr hk] at hne
  cases hne

/-- The entry of a key that is found. -/
theorem entry_of_findAnyHash {t : Table} (wf : t.Wf) {key : Int64} {p : Nat}
    (h : t.findAnyHash (.integer key) = some p) :
    ∃ k v, t.entry p = some (k, v) ∧ k.rawKey = .integer key := by
  obtain ⟨k, v, he, hk⟩ := Table.findAnyHash_eq_some h
  exact ⟨k, v, he, (CanonicalKey.eq_iff_rawKey (b := .integer key) (wf.storable he) trivial).mp hk⟩

section Place

variable {pair : PreparedRefPair} {arrayLength : Nat}

/-- **One place** in the new storages. -/
theorem ready_of_step (wf : t.Wf) (hgrows : pair.Grows t)
    (hlength : arrayLength ≤ (pair.staged t).array.length)
    (hold : t.array.length ≤ (pair.staged t).array.length) {entry : RefPairEntry}
    (hchosen : Chosen t arrayLength entry.key entry.slot) {state state' : Nat × List Nat}
    {slot : RefPairSlot}
    (hstep : PlaceStep t state pair.hashGrowth.isSome entry.slot slot state')
    (hlive : t.liveHashCount ≤ state.1)
    (hroom : pair.hashGrowth.isSome = true →
      state.1 + entry.slot.inserts t ≤ (pair.staged t).hash.length) :
    RefPairEntry.Ready (pair.staged t) { entry with slot := slot } := by
  obtain ⟨hstaged, -⟩ := hgrows.staged_spec wf
  have hslots := hgrows.slot_staged
  -- an entry of the new storages is one of the old ones
  have hfrom : ∀ {p k w}, (pair.staged t).entry p = some (k, w) →
      ∃ q, t.entry q = some (k, w) ∧ (pair.hashGrowth.isSome = true → w ≠ .nil) := by
    intro p k w hp
    cases hgrowth : pair.hashGrowth with
    | none =>
      simp only [PreparedRefPair.staged, hgrowth, Option.elim, Table.entry] at hp
      exact ⟨p, hp, by simp⟩
    | some growth =>
      obtain ⟨hw, q, hq⟩ := (hgrows.entry_staged hgrowth).mp ⟨p, hp⟩
      exact ⟨q, hq, fun _ => hw⟩
  have hsame : pair.hashGrowth.isSome = false → ∀ p, (pair.staged t).entry p = t.entry p := by
    intro hnone p
    have hgrowth : pair.hashGrowth = none := by simpa using hnone
    simp only [PreparedRefPair.staged, hgrowth, Option.elim, Table.entry]
  obtain ⟨key, value, chosen⟩ := entry
  simp only at hchosen hstep hroom ⊢
  generalize hflag : pair.hashGrowth.isSome = flag at hstep hroom hfrom hsame
  cases hstep with
  | array i =>
    obtain ⟨hindex, hwhere⟩ := hchosen.array i rfl
    refine ⟨hindex, ?_, fun {p k w} hp hk => ?_⟩
    · obtain hsome | ⟨-, hless⟩ := hwhere
      · obtain ⟨v, hv⟩ := Option.isSome_iff_exists.mp hsome
        have := Table.lt_of_slot hv
        omega
      · omega
    · obtain hsome | ⟨hnone, -⟩ := hwhere
      · obtain ⟨v, hv⟩ := Option.isSome_iff_exists.mp hsome
        refine hstaged.exclusive ((hslots i).trans hv) hp ?_
        rw [hk]
        exact hindex
      · obtain ⟨q, hq, -⟩ := hfrom hp
        exact absurd hk (ne_of_findAnyHash_none wf hnone hq)
  | stays p =>
    obtain ⟨k, v, he, hk⟩ := entry_of_findAnyHash wf (hchosen.hash p rfl)
    refine ⟨⟨k, v, (hsame rfl p).trans he, hk⟩, fun {i} hi => ?_⟩
    rw [hslots]
    exact hchosen.empty ⟨p, rfl⟩ i hi
  | moves p hnot =>
    obtain ⟨k, v, he, hk⟩ := entry_of_findAnyHash wf (hchosen.hash p rfl)
    have hv : v ≠ .nil := by
      rintro rfl
      exact hnot ⟨k, he⟩
    obtain ⟨growth, hgrowth⟩ := Option.isSome_iff_exists.mp hflag
    refine ⟨⟨k, v, ?_, hk⟩, fun {i} hi => ?_⟩
    · have hget := PreparedRefPair.getElem?_filter_live (Option.join_eq_some_iff.mp he) hv
      simp only [PreparedRefPair.staged, hgrowth, Option.elim, Table.entry]
      rw [List.getElem?_append_left (List.getElem?_eq_some_iff.mp hget).1, hget]
      rfl
    · rw [hslots]
      exact hchosen.empty ⟨p, rfl⟩ i hi
  | renews p hdead =>
    obtain ⟨k, hdead⟩ := hdead
    obtain ⟨k', v, he, hk⟩ := entry_of_findAnyHash wf (hchosen.hash p rfl)
    obtain ⟨growth, hgrowth⟩ := Option.isSome_iff_exists.mp hflag
    have hinserts : (RefPairSlot.hashExisting p).inserts t = 1 :=
      if_pos (dead_iff.mpr ⟨k, hdead⟩)
    have hlt := hroom rfl
    rw [hinserts] at hlt
    refine ⟨by omega, hgrows.entry_behind hgrowth hlive, fun {q k'' w} hq hkey => ?_,
      fun {i} hi => ?_⟩
    · obtain ⟨q', hq', hw⟩ := hfrom hq
      obtain rfl := wf.distinct he hq' (hk.trans hkey.symm)
      rw [hdead] at hq'
      cases hq'
      exact hw rfl rfl
    · rw [hslots]
      exact hchosen.empty ⟨p, rfl⟩ i hi
  | appends p =>
    obtain ⟨growth, hgrowth⟩ := Option.isSome_iff_exists.mp hflag
    have hlt := hroom rfl
    refine ⟨Nat.lt_of_succ_le hlt, hgrows.entry_behind hgrowth hlive, fun {q k'' w} hq => ?_,
      fun {i} hi => ?_⟩
    · obtain ⟨q', hq', -⟩ := hfrom hq
      exact ne_of_findAnyHash_none wf (hchosen.new p rfl) hq'
    · rw [hslots]
      exact hchosen.empty ⟨p, rfl⟩ i hi
  | @claims p index hless hnone hfree =>
    have hgrowth : pair.hashGrowth = none := by simpa using hflag
    refine ⟨?_, (hsame rfl index).trans hnone, fun {q k'' w} hq => ?_, fun {i} hi => ?_⟩
    · simpa only [PreparedRefPair.staged, hgrowth, Option.elim] using hless
    · obtain ⟨q', hq', -⟩ := hfrom hq
      exact ne_of_findAnyHash_none wf (hchosen.new p rfl) hq'
    · rw [hslots]
      exact hchosen.empty ⟨p, rfl⟩ i hi

/-- What is known of the fields behind a placement: they are the chosen ones, they may be written,
    and the buckets that are taken now lie behind those that were taken before, or are others. -/
structure Landed (pair : PreparedRefPair) (t : Table) (state : Nat × List Nat)
    (entries placed : List RefPairEntry) : Prop where
  fields : placed.map (fun entry => (entry.key, entry.value))
    = entries.map fun entry => (entry.key, entry.value)
  ready : ∀ entry ∈ placed, entry.Ready (pair.staged t)
  fresh : ∀ entry ∈ placed, ∀ p, entry.slot = .hashNew p →
    (pair.hashGrowth.isSome = true → state.1 ≤ p) ∧
      (pair.hashGrowth.isSome = false → p ∉ state.2)
  distinct : placed.Pairwise fun a b => ∀ p q, a.slot = .hashNew p → b.slot = .hashNew q → p ≠ q

/-- **All places** in the new storages. -/
theorem placeSlots_spec (wf : t.Wf) (hgrows : pair.Grows t)
    (hlength : arrayLength ≤ (pair.staged t).array.length)
    (hold : t.array.length ≤ (pair.staged t).array.length) {entries placed : List RefPairEntry}
    (hchosen : ∀ entry ∈ entries, Chosen t arrayLength entry.key entry.slot)
    {state : Nat × List Nat} (hlive : t.liveHashCount ≤ state.1)
    (hroom : pair.hashGrowth.isSome = true →
      state.1 + insertsOf t entries ≤ (pair.staged t).hash.length)
    (h : placeSlots t pair.hashGrowth.isSome state entries = .ok placed) :
    Landed pair t state entries placed := by
  induction entries generalizing state placed with
  | nil =>
    cases h
    exact ⟨rfl, by simp, by simp, .nil⟩
  | cons entry rest ih =>
    obtain ⟨⟨slot, state'⟩, hslot, h⟩ := Check.bind_eq_ok.mp h
    obtain ⟨others, hothers, h⟩ := Check.bind_eq_ok.mp h
    cases h
    have hstep := placeSlot_step hslot
    simp only [insertsOf, List.map_cons, List.sum_cons] at hroom
    have hready := ready_of_step wf hgrows hlength hold (hchosen entry List.mem_cons_self) hstep
      hlive (fun hflag => by have := hroom hflag; omega)
    -- the count of taken buckets goes up by the buckets the field takes
    have hnext : state.1 ≤ state'.1 ∧ (∀ p ∈ state.2, p ∈ state'.2)
        ∧ (pair.hashGrowth.isSome = true → state'.1 = state.1 + entry.slot.inserts t)
        ∧ ∀ p, slot = .hashNew p → (pair.hashGrowth.isSome = true → state.1 ≤ p ∧ p < state'.1)
          ∧ (pair.hashGrowth.isSome = false → p ∉ state.2 ∧ p ∈ state'.2) := by
      generalize hflag : pair.hashGrowth.isSome = flag at hstep
      generalize hentry : entry.slot = chosen at hstep ⊢
      cases hstep with
      | array i => exact ⟨le_refl _, fun _ hp => hp, fun _ => rfl, by simp⟩
      | stays p => exact ⟨le_refl _, fun _ hp => hp, by simp, by simp⟩
      | moves p hnot =>
        refine ⟨le_refl _, fun _ hp => hp, fun _ => ?_, by simp⟩
        rw [RefPairSlot.inserts, if_neg (fun hdead => hnot (dead_iff.mp hdead))]
        rfl
      | renews p hdead =>
        refine ⟨Nat.le_succ _, fun _ hp => hp, fun _ => ?_, ?_⟩
        · rw [RefPairSlot.inserts, if_pos (dead_iff.mpr hdead)]
        · rintro q ⟨⟩
          exact ⟨fun _ => ⟨le_refl _, Nat.lt_succ_self _⟩, by simp⟩
      | appends p =>
        refine ⟨Nat.le_succ _, fun _ hp => hp, fun _ => rfl, ?_⟩
        rintro q ⟨⟩
        exact ⟨fun _ => ⟨le_refl _, Nat.lt_succ_self _⟩, by simp⟩
      | claims p _ _ hfree =>
        refine ⟨le_refl _, fun _ hp => List.mem_cons_of_mem _ hp, by simp, ?_⟩
        rintro q ⟨⟩
        exact ⟨by simp, fun _ => ⟨hfree, List.mem_cons_self⟩⟩
    obtain ⟨hmono, hkept, hcount, hnew⟩ := hnext
    have hrest := ih (fun other hother => hchosen other (List.mem_cons_of_mem _ hother))
      (hlive.trans hmono) (fun hflag => by
        have := hroom hflag
        have := hcount hflag
        unfold insertsOf
        omega) hothers
    refine ⟨by simp only [List.map_cons, hrest.fields], ?_, ?_, ?_⟩
    · rintro other (_ | ⟨_, hother⟩)
      · exact hready
      · exact hrest.ready other hother
    · rintro other (_ | ⟨_, hother⟩) p hp
      · exact ⟨fun hflag => ((hnew p hp).1 hflag).1, fun hflag => ((hnew p hp).2 hflag).1⟩
      · obtain ⟨hge, hfree⟩ := hrest.fresh other hother p hp
        exact ⟨fun hflag => hmono.trans (hge hflag), fun hflag hin => hfree hflag (hkept p hin)⟩
    · refine List.pairwise_cons.mpr ⟨fun other hother p q hp hq hpq => ?_, hrest.distinct⟩
      obtain ⟨hge, hfree⟩ := hrest.fresh other hother q hq
      obtain ⟨hless, hclaimed⟩ := hnew p hp
      cases hflag : pair.hashGrowth.isSome with
      | true =>
        have := hge hflag
        have := (hless hflag).2
        omega
      | false => exact hfree hflag (hpq ▸ (hclaimed hflag).2)

end Place

/-! ### The lengths of the storages -/

omit [DefaultHasher] in
theorem doubled_eq_ok {length least n : Nat} (h : doubled length least = .ok n) :
    length * 2 ≤ usizeMax ∧ n = max (length * 2) least := by
  unfold doubled at h
  split at h
  · cases h
  · next hfit =>
    cases h
    exact ⟨by omega, rfl⟩

/-- A hash part is too short for the buckets of a pair. -/
def TooShort (required occupied inserts length : Nat) : Prop :=
  required > length - length / 4 ∨ occupied + inserts > length

/-- The loop that doubles the length of a hash part while it is too short, with its result. -/
inductive Doubling (required occupied inserts : Nat) : Nat → Except VmError Nat → Prop
  | enough {length : Nat} : ¬ TooShort required occupied inserts length →
      Doubling required occupied inserts length (.ok length)
  | overflow {length : Nat} {e : VmError} : TooShort required occupied inserts length →
      doubled length 1 = .error e → Doubling required occupied inserts length (.error e)
  | double {length length' : Nat} {r : Except VmError Nat} :
      TooShort required occupied inserts length → doubled length 1 = .ok length' →
      Doubling required occupied inserts length' r → Doubling required occupied inserts length r

omit [DefaultHasher] in
/-- As many rounds as a `usize` has doublings end the loop. -/
theorem doubling_of_rounds {required occupied inserts rounds length : Nat} (hpos : 0 < rounds)
    (hrounds : rounds ≤ 64 → 2 ^ (64 - rounds) ≤ length) :
    Doubling required occupied inserts length
      (refHashLength required occupied inserts rounds length) := by
  induction rounds generalizing length with
  | zero => omega
  | succ rounds ih =>
    rw [refHashLength]
    split
    · next hshort =>
      cases hdoubled : doubled length 1 with
      | error e => exact .overflow hshort hdoubled
      | ok length' =>
        obtain ⟨hfit, hlength'⟩ := doubled_eq_ok hdoubled
        refine .double hshort hdoubled (ih ?_ fun hle => ?_)
        · -- in the last round a doubled length is no `usize`
          by_contra hzero
          obtain rfl : rounds = 0 := by omega
          have hlong := hrounds (by omega)
          simp only [usizeMax] at hfit
          norm_num at hlong
          omega
        · obtain rfl | hlt := Nat.eq_or_lt_of_le hle
          · rw [hlength']
            exact le_max_right _ _
          · have hlong := hrounds (by omega)
            have hpow : 2 ^ (64 - rounds) = 2 ^ (64 - (rounds + 1)) * 2 := by
              rw [← pow_succ]
              congr 1
              omega
            rw [hpow, hlength']
            exact (Nat.mul_le_mul_right 2 hlong).trans (le_max_left _ _)
    · next hlong => exact .enough hlong

omit [DefaultHasher] in
/-- **The growth loop ends**, from every length. -/
theorem refHashLength_doubling (required occupied inserts length : Nat) :
    Doubling required occupied inserts length
      (refHashLength required occupied inserts 65 length) :=
  doubling_of_rounds (by decide) fun h => absurd h (by decide)

omit [DefaultHasher] in
theorem Doubling.ok {required occupied inserts length n : Nat} {r : Except VmError Nat}
    (h : Doubling required occupied inserts length r) (hr : r = .ok n) :
    length ≤ n ∧ ¬ TooShort required occupied inserts n := by
  induction h with
  | enough hlong =>
    cases hr
    exact ⟨le_refl _, hlong⟩
  | overflow => cases hr
  | double _ hdoubled _ ih =>
    have := (doubled_eq_ok hdoubled).2
    obtain ⟨hle, hlong⟩ := ih hr
    exact ⟨by omega, hlong⟩

/-! ### The whole preparation -/

/-- What `prepare_ref_pair` returns. -/
structure Prepared (t : Table) (first second : Int64 × Value) (pair : PreparedRefPair) : Prop where
  grows : pair.Grows t
  fields : pair.entries.map (fun entry => (entry.key, entry.value)) = refPairValues first second
  values : ∀ entry ∈ pair.entries, entry.value ≠ .nil
  ready : ∀ entry ∈ pair.entries, entry.Ready (pair.staged t)
  distinct : pair.entries.Pairwise fun a b =>
    b.rawKey ≠ a.rawKey ∧ b.slot.place ≠ a.slot.place

omit [DefaultHasher] in
/-- Fields with different keys that may be written have different places, unless both take an empty
    bucket. -/
theorem place_ne {u : Table} (wf : u.Wf) {a b : RefPairEntry} (ha : a.Ready u) (hb : b.Ready u)
    (hkey : b.rawKey ≠ a.rawKey)
    (hnew : ∀ p q, a.slot = .hashNew p → b.slot = .hashNew q → p ≠ q) :
    b.slot.place ≠ a.slot.place := by
  intro hplace
  cases hslot : a.slot.place with
  | inl i =>
    rw [hslot] at hplace
    have hindex : ∀ {e : RefPairEntry}, e.Ready u → e.slot.place = .inl i →
        e.rawKey.arrayIndex = some i := by
      intro e he hi
      cases hs : e.slot with
      | array j =>
        obtain rfl : j = i := by simpa [hs, RefPairSlot.place] using hi
        simp only [RefPairEntry.Ready, hs] at he
        exact he.1
      | hashExisting p | hashNew p => simp [hs, RefPairSlot.place] at hi
    exact hkey (RawKey.arrayIndex_inj (hindex hb hplace) (hindex ha hslot))
  | inr p =>
    rw [hslot] at hplace
    obtain ⟨-, -, hkeyA, -⟩ := PreparedRefPair.ready_bucket wf ha hslot
    obtain ⟨-, -, hkeyB, -⟩ := PreparedRefPair.ready_bucket wf hb hplace
    -- an occupied bucket would hold both keys
    cases hentry : u.entry p with
    | some e =>
      obtain ⟨k, w⟩ := e
      exact hkey ((hkeyB hentry).symm.trans (hkeyA hentry))
    | none =>
      have hempty : ∀ {e : RefPairEntry}, e.Ready u → e.slot.place = .inr p →
          e.slot = .hashNew p := by
        intro e he hp
        cases hs : e.slot with
        | array j => simp [hs, RefPairSlot.place] at hp
        | hashExisting q =>
          obtain rfl : q = p := by simpa [hs, RefPairSlot.place] using hp
          simp only [RefPairEntry.Ready, hs] at he
          obtain ⟨⟨k, w, hk, -⟩, -⟩ := he
          rw [hentry] at hk
          cases hk
        | hashNew q =>
          obtain rfl : q = p := by simpa [hs, RefPairSlot.place] using hp
          rfl
      exact hnew p p (hempty ha hslot) (hempty hb hplace) rfl

omit [DefaultHasher] in
theorem growRefArray_eq_ok {s : Surroundings} {n : Nat} {growth : Option (RefPairGrowth (Option Value))}
    {b b' : Books} (h : growRefArray s t n b = (.ok growth, b')) :
    (growth = none ∧ n ≤ t.array.length) ∨ ∃ g, growth = some g ∧ t.array.length < n
      ∧ g.next = t.array ++ List.replicate (n - t.array.length) none := by
  unfold growRefArray at h
  split at h
  · next hlonger =>
    split at h
    · cases h
    · obtain ⟨ticket, b'', -, h⟩ := Prog.bind_eq_ok h
      cases h
      exact .inr ⟨_, rfl, hlonger, rfl⟩
  · next hfits =>
    cases h
    exact .inl ⟨rfl, by omega⟩

omit [DefaultHasher] in
theorem growRefHash_eq_ok {s : Surroundings} {n : Nat} {growth : Option (RefPairGrowth Bucket)}
    {b b' : Books} (h : growRefHash s t n b = (.ok growth, b')) :
    ∀ g, growth = some g → g.next = List.replicate n none := by
  rintro g rfl
  unfold growRefHash at h
  split at h
  · split at h
    · cases h
    · obtain ⟨ticket, b'', -, h⟩ := Prog.bind_eq_ok h
      obtain ⟨u, b₃, -, h⟩ := Prog.bind_eq_ok h
      cases h
      rfl
  · cases h

omit [DefaultHasher] in
/-- The keys of the writes differ. -/
theorem refPairValues_keys (first second : Int64 × Value) :
    (refPairValues first second).Pairwise fun a b => a.1 ≠ b.1 := by
  unfold refPairValues
  split
  · simp
  · next hne => simpa using hne

/-- **`prepare_ref_pair`** returns fields that may be written one after another. -/
theorem prepared_of_run (wf : t.Wf) {s : Surroundings} {first second : Int64 × Value}
    {pair : PreparedRefPair} {b b' : Books}
    (h : prepareRefPair s t first second b = (.ok pair, b')) : Prepared t first second pair := by
  unfold prepareRefPair at h
  split at h
  · cases h
  next hnil =>
  obtain ⟨arrayLength, b₁, harrayLength, h⟩ := Prog.bind_eq_ok h
  have harrayLength := (Prog.ofExcept_eq_ok harrayLength).1
  obtain ⟨⟨slots, inserts⟩, b₂, hslots, h⟩ := Prog.bind_eq_ok h
  obtain ⟨arrayGrowth, b₃, harray, h⟩ := Prog.bind_eq_ok h
  obtain ⟨⟨entries, hashGrowth⟩, b₄, hhash, h⟩ := Prog.bind_eq_ok h
  cases h
  have hhash := Prog.onError_eq_ok hhash
  obtain ⟨hashLength, b₅, hhashLength, hhash⟩ := Prog.bind_eq_ok hhash
  have hhashLength := (Prog.ofExcept_eq_ok hhashLength).1
  obtain ⟨hashGrowth', b₆, hgrowth, hhash⟩ := Prog.bind_eq_ok hhash
  obtain ⟨entries', b₇, hplaced, hhash⟩ := Prog.bind_eq_ok hhash
  cases hhash
  have hplaced := (Prog.ofExcept_eq_ok (Prog.onError_eq_ok hplaced)).1
  obtain ⟨⟨hfields, hchosen⟩, hcount⟩ := (refSlots_spec arrayLength _).ok trivial hslots
  simp only at hfields hchosen hcount hhashLength hplaced
  -- the hash part has room for the buckets that are live and those that become so
  have hlong := ((refHashLength_doubling _ _ _ _).ok hhashLength).2
  have hroom : t.liveHashCount + inserts ≤ hashLength := by
    unfold TooShort at hlong
    omega
  have hnext := growRefHash_eq_ok hgrowth
  have hgrows : PreparedRefPair.Grows ⟨entries, arrayGrowth, hashGrowth⟩ t := by
    refine ⟨fun growth hg => ?_, fun growth hg => ⟨hashLength, hnext growth hg, by omega⟩⟩
    obtain ⟨hnone, -⟩ | ⟨g, hsome, -, hgnext⟩ := growRefArray_eq_ok harray
    · rw [hnone] at hg
      cases hg
    · obtain rfl : g = growth := by simpa [hsome] using hg
      exact ⟨_, hgnext⟩
  have harrays : arrayLength ≤ (PreparedRefPair.staged ⟨entries, arrayGrowth, hashGrowth⟩
      t).array.length ∧ t.array.length ≤ (PreparedRefPair.staged
        ⟨entries, arrayGrowth, hashGrowth⟩ t).array.length := by
    obtain ⟨hnone, hle⟩ | ⟨g, hsome, hlt, hgnext⟩ := growRefArray_eq_ok harray
    · simp only [PreparedRefPair.staged, hnone, Option.elim]
      exact ⟨hle, le_refl _⟩
    · simp only [PreparedRefPair.staged, hsome, Option.elim, hgnext, List.length_append,
        List.length_replicate]
      omega
  have hlanded : Landed ⟨entries, arrayGrowth, hashGrowth⟩ t (t.liveHashCount, []) slots entries := by
    refine placeSlots_spec wf hgrows harrays.1 harrays.2 hchosen (le_refl _) (fun hflag => ?_)
      hplaced
    obtain ⟨g, hsome⟩ := Option.isSome_iff_exists.mp hflag
    obtain rfl : hashGrowth = some g := hsome
    simp only [PreparedRefPair.staged, Option.elim, hnext g rfl, List.length_append,
      List.drop_replicate, List.length_replicate, ← hcount, Table.liveHashCount_eq_length] at hroom ⊢
    omega
  have hvalues := hlanded.fields.trans hfields
  have hkeys : entries.Pairwise fun a b => b.rawKey ≠ a.rawKey := by
    have hdiffer := refPairValues_keys first second
    rw [← hvalues, List.pairwise_map] at hdiffer
    refine hdiffer.imp fun {a b'} hne heq => hne ?_
    exact (RawKey.integer.inj heq).symm
  refine ⟨hgrows, hvalues, fun entry hentry hv => hnil ?_, hlanded.ready, ?_⟩
  · rw [List.any_eq_true]
    refine ⟨(entry.key, entry.value), ?_, by simpa using hv⟩
    rw [← hvalues]
    exact List.mem_map.mpr ⟨entry, hentry, rfl⟩
  · obtain ⟨hstaged, -⟩ := hgrows.staged_spec wf
    refine (hkeys.and hlanded.distinct).imp_of_mem fun {a b'} ha hb hab => ⟨hab.1, ?_⟩
    exact place_ne hstaged (hlanded.ready a ha) (hlanded.ready b' hb) hab.1 hab.2

end Prepare

/-! ### After the commit -/

/-- A pair that only differs in its accounts. -/
structure SamePair (pair pair' : PreparedRefPair) : Prop where
  entries : pair'.entries = pair.entries
  array : pair'.arrayGrowth.map RefPairGrowth.next = pair.arrayGrowth.map RefPairGrowth.next
  hash : pair'.hashGrowth.map RefPairGrowth.next = pair.hashGrowth.map RefPairGrowth.next

theorem next_of_commit? {α : Type} {growth growth' : Option (RefPairGrowth α)} {b b' : Books}
    (h : RefPairGrowth.commit? growth b = (.ok growth', b')) :
    growth'.map RefPairGrowth.next = growth.map RefPairGrowth.next := by
  cases growth with
  | none =>
    cases h
    rfl
  | some g =>
    obtain ⟨committed, b'', -, h⟩ := Prog.bind_eq_ok h
    cases h
    rfl

/-- The commit changes the accounts only. -/
theorem samePair_of_commit {pair pair' : PreparedRefPair} {b b' : Books}
    (h : pair.commitAccounting b = (.ok pair', b')) : SamePair pair pair' := by
  unfold PreparedRefPair.commitAccounting at h
  split at h
  · obtain ⟨u, b'', -, h⟩ := Prog.bind_eq_ok h
    cases h
  · obtain ⟨arrayGrowth, b₁, harray, h⟩ := Prog.bind_eq_ok h
    obtain ⟨hashGrowth, b₂, hhash, h⟩ := Prog.bind_eq_ok h
    cases h
    exact ⟨rfl, next_of_commit? (Prog.onError_eq_ok harray),
      next_of_commit? (Prog.onError_eq_ok hhash)⟩

theorem SamePair.staged {pair pair' : PreparedRefPair} (h : SamePair pair pair') (t : Table) :
    pair'.staged t = pair.staged t := by
  have helim : ∀ {α β : Type} {growth growth' : Option (RefPairGrowth α)} (f : List α → β) (b : β),
      growth'.map RefPairGrowth.next = growth.map RefPairGrowth.next →
      growth'.elim b (fun g => f g.next) = growth.elim b fun g => f g.next := by
    intro α β growth growth' f b hnext
    rcases growth with _ | g <;> rcases growth' with _ | g' <;>
      simp only [Option.map_none, Option.map_some, reduceCtorEq, Option.some.injEq] at hnext
    · rfl
    · simp only [Option.elim, hnext]
  unfold PreparedRefPair.staged
  congr 1
  · exact helim id t.array h.array
  · exact helim (fun next => t.hash.filter Bucket.isLive
      ++ next.drop (t.hash.filter Bucket.isLive).length) t.hash h.hash

theorem SamePair.apply {pair pair' : PreparedRefPair} (h : SamePair pair pair') (t : Table) :
    pair'.apply t = pair.apply t := by
  rw [PreparedRefPair.apply_eq, PreparedRefPair.apply_eq, h.entries, h.staged]

theorem bumpMutationVersion_wf {t : Table} (wf : t.Wf) : t.bumpMutationVersion.Wf :=
  ⟨wf.storable, wf.distinct, wf.slot_ne, wf.exclusive⟩

/-- **The published pair** is the table with its fields assigned. -/
theorem Prepared.apply_spec [DefaultHasher] {t : Table} (wf : t.Wf) {m : FieldMap}
    (hm : t.Represents m) {first second : Int64 × Value} {pair : PreparedRefPair}
    (h : Prepared t first second pair) :
    (pair.apply t).Wf ∧ (pair.apply t).Represents
      ((m.assign (.integer first.1) first.2).assign (.integer second.1) second.2) := by
  obtain ⟨hstaged, hholds⟩ := h.grows.staged_spec wf
  have hm' : (pair.staged t).Represents m := fun r v => (hholds r v).trans (hm r v)
  obtain ⟨hwf, hrep⟩ := PreparedRefPair.foldl_applyEntry_spec hstaged hm' h.ready h.values h.distinct
  have hassign : PreparedRefPair.assignAll m pair.entries
      = (m.assign (.integer first.1) first.2).assign (.integer second.1) second.2 := by
    have hfold : PreparedRefPair.assignAll m pair.entries
        = (pair.entries.map fun entry => (entry.key, entry.value)).foldl
            (fun m item => m.assign (.integer item.1) item.2) m := by
      rw [List.foldl_map]
      rfl
    rw [hfold, h.fields]
    unfold refPairValues
    split
    · next hsame =>
      -- of two writes to one key the second remains
      rw [List.foldl_cons, List.foldl_nil]
      unfold FieldMap.assign
      rw [hsame, Function.update_idem]
    · rfl
  rw [PreparedRefPair.apply_eq]
  exact ⟨bumpMutationVersion_wf hwf, hassign ▸ hrep⟩

end Allocation

end RivetLua.Runtime
