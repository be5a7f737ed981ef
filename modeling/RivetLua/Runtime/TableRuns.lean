import RivetLua.Runtime.AtomicWrite
import RivetLua.Runtime.RefPair

namespace RivetLua.Runtime

open RivetLua.Core StateProg

/-!
# Runtime — the tables a run can reach

* `Table.OfRun` — a new table after any operations, failing ones among them;
* `Table.Wf.thinned` — removing fields keeps the storage invariant;
* `Table.OfRun.wf` — every reachable table has the storage invariant;
* `rawSetRefPair_agrees` — on a reachable table a pair of fields is two raw writes.
-/

/-- A new table after some operations. -/
def Table.OfRun [DefaultHasher] (t : Table) : Prop :=
  ∃ arrayCapacity hashCapacity hashSeed ledger ledger' t₀ ops,
    Table.tryNew arrayCapacity hashCapacity hashSeed ledger = (.ok t₀, ledger')
      ∧ t = t₀.run ops

/-! ### Removing fields -/

/-- A bucket behind an operation that removes fields: an entry was one of the same key, and a dead
    one is still dead. -/
def Bucket.Thinned (old new : Bucket) : Prop :=
  ∀ k v, new = some (k, v) → ∃ k' v', old = some (k', v') ∧ k.rawKey = k'.rawKey
    ∧ (k'.Storable → k.Storable) ∧ (v' = .nil → v = .nil)

theorem Bucket.Thinned.refl (bucket : Bucket) : bucket.Thinned bucket :=
  fun k v h => ⟨k, v, h, rfl, id, id⟩

theorem Bucket.Thinned.none (bucket : Bucket) : bucket.Thinned none := by
  intro k v h
  cases h

/-- Removing fields keeps the storage invariant. -/
theorem Table.Wf.thinned {t t' : Table} (wf : t.Wf)
    (hslot : ∀ i v, t'.slot i = some v → t.slot i = some v)
    (hentry : ∀ p, (t.entry p).Thinned (t'.entry p)) : t'.Wf := by
  refine ⟨fun {p k v} h => ?_, fun {p q k v k' v'} h h' hk => ?_, fun {i} h => ?_,
    fun {i p k v w} hs h hk => ?_⟩
  · obtain ⟨k₀, v₀, h₀, -, hstorable, -⟩ := hentry p k v h
    exact hstorable (wf.storable h₀)
  · obtain ⟨k₀, v₀, h₀, hk₀, -⟩ := hentry p k v h
    obtain ⟨k₁, v₁, h₁, hk₁, -⟩ := hentry q k' v' h'
    exact wf.distinct h₀ h₁ (hk₀.symm.trans (hk.trans hk₁))
  · exact wf.slot_ne (hslot i .nil h)
  · obtain ⟨k₀, v₀, h₀, hk₀, -, hdead⟩ := hentry p k v h
    exact hdead (wf.exclusive (hslot i w hs) h₀ (hk₀ ▸ hk))

/-- The invariant is about the two parts only. -/
theorem Table.Wf.congr {t t' : Table} (wf : t.Wf) (harray : t'.array = t.array)
    (hhash : t'.hash = t.hash) : t'.Wf := by
  refine wf.thinned (fun i v hs => ?_) fun p => ?_
  · rwa [Table.slot, harray] at hs
  · rw [Table.entry, Table.entry, hhash]
    exact Bucket.Thinned.refl _

section Clear

variable {isDead isLiveKey : ObjectRef → Except VmError Bool} {clearValues clearKeys : Bool}

/-- An array slot that is not empty was not cleared. -/
theorem clearDeadArray_slot {array : List (Option Value)} {i : Nat} {v : Value}
    (h : (clearDeadArray isDead array).2.1[i]? = some (some v)) : array[i]? = some (some v) := by
  induction array generalizing i with
  | nil => exact h
  | cons entry rest ih =>
    rw [clearDeadArray] at h
    -- the head stays or is emptied, and the rest is cleared
    have hcases : (clearDeadArray isDead (entry :: rest)).2.1 = entry :: rest
        ∨ (clearDeadArray isDead (entry :: rest)).2.1
            = entry :: (clearDeadArray isDead rest).2.1
        ∨ (clearDeadArray isDead (entry :: rest)).2.1
            = none :: (clearDeadArray isDead rest).2.1 := by
      rw [clearDeadArray]
      cases entry.bind Value.objectRef? with
      | none => exact .inr (.inl rfl)
      | some object =>
        simp only
        cases isDead object with
        | error e => exact .inl rfl
        | ok dead =>
          cases dead with
          | false => exact .inr (.inl rfl)
          | true => exact .inr (.inr rfl)
    rw [← clearDeadArray] at h
    obtain hsame | hkept | hcleared := hcases
    · rwa [hsame] at h
    · rw [hkept] at h
      cases i with
      | zero => exact h
      | succ i => exact ih h
    · rw [hcleared] at h
      cases i with
      | zero => simp at h
      | succ i => exact ih h

/-- A changed bucket is empty or holds the dead key. -/
theorem clearDeadBucket_thinned {mode : WeakMode} {bucket bucket' : Bucket} {l l' : Ledger}
    (h : clearDeadBucket isDead isLiveKey clearValues clearKeys mode bucket l
      = (.ok (some bucket'), l')) : bucket.Thinned bucket' := by
  cases bucket with
  | none => cases h
  | some e =>
    obtain ⟨key, value⟩ := e
    rw [clearDeadBucket] at h
    split at h
    · cases h
      exact Bucket.Thinned.none _
    obtain ⟨deadKey, l₁, -, h⟩ := Prog.bind_eq_ok h
    obtain ⟨deadValue, l₂, -, h⟩ := Prog.bind_eq_ok h
    split at h
    · obtain ⟨keyIsDead, l₃, -, h⟩ := Prog.bind_eq_ok h
      split at h
      · cases h
        exact Bucket.Thinned.none _
      · obtain ⟨dead, l₄, hdead, h⟩ := Prog.bind_eq_ok h
        cases h
        obtain ⟨hkey, hstorable⟩ := (key.makeDead_spec).ok trivial hdead
        rintro k v ⟨⟩
        exact ⟨key, value, rfl, hkey, hstorable, fun _ => rfl⟩
    · cases h

theorem clearDeadBuckets_thinned {mode : WeakMode} {hash : List Bucket} {l : Ledger} (p : Nat) :
    Bucket.Thinned (hash[p]?).join
      ((clearDeadBuckets isDead isLiveKey clearValues clearKeys mode hash l).2.1[p]?).join := by
  induction hash generalizing l p with
  | nil => exact Bucket.Thinned.refl _
  | cons bucket rest ih =>
    rw [clearDeadBuckets]
    rcases hrun : clearDeadBucket isDead isLiveKey clearValues clearKeys mode bucket l with
      ⟨_ | change, l'⟩
    · exact Bucket.Thinned.refl _
    · simp only
      cases change with
      | none =>
        cases p with
        | zero => exact Bucket.Thinned.refl _
        | succ p => exact ih p
      | some bucket' =>
        cases p with
        | zero => exact clearDeadBucket_thinned hrun
        | succ p => exact ih p

/-- Clearing the dead entries of a weak table, also where it stops at an error. -/
theorem Table.Wf.clearDeadWeakPairs {t : Table} (wf : t.Wf) (l : Ledger) :
    (t.clearDeadWeakPairs isDead isLiveKey clearValues clearKeys l).2.1.Wf := by
  unfold Table.clearDeadWeakPairs
  split
  · exact wf
  have harray : ∀ {r : Except VmError Unit} {array : List (Option Value)} {cleared : Nat},
      (if clearValues && t.weakMode.weakValues then clearDeadArray isDead t.array
        else (.ok (), t.array, 0)) = (r, array, cleared) →
      Table.Wf { t.bumpBy cleared with array := array } := by
    intro r array cleared hrun
    refine wf.thinned (fun i v hs => ?_) fun p => Bucket.Thinned.refl _
    split at hrun
    · have hcleared := @clearDeadArray_slot isDead t.array i v
      rw [hrun] at hcleared
      exact Option.join_eq_some_iff.mpr (hcleared (Option.join_eq_some_iff.mp hs))
    · cases hrun
      exact hs
  rcases hrun : (if clearValues && t.weakMode.weakValues then clearDeadArray isDead t.array
    else (.ok (), t.array, 0)) with ⟨_ | _, array, cleared⟩
  · exact harray hrun
  have hfirst := harray hrun
  simp only
  rcases hbuckets : clearDeadBuckets isDead isLiveKey clearValues clearKeys
    (t.bumpBy cleared).weakMode (t.bumpBy cleared).hash l with ⟨r, hash, changed, l'⟩
  -- the cleared hash part
  have hsecond : ∀ version, Table.Wf
      { t with array := array, hash := hash, mutationVersion := version } := by
    intro version
    refine hfirst.thinned (fun i v hs => hs) fun p => ?_
    have hthin := @clearDeadBuckets_thinned isDead isLiveKey clearValues clearKeys
      (t.bumpBy cleared).weakMode (t.bumpBy cleared).hash l p
    rw [hbuckets] at hthin
    exact hthin
  rcases r with _ | _
  · exact hsecond _
  · simp only
    split
    · exact (hsecond (t.mutationVersion)).thinned (fun i v hs => hs) fun p => by
        show Bucket.Thinned _ ((([] : List Bucket)[p]?).join)
        exact Bucket.Thinned.none _
    · exact hsecond _

end Clear

/-- The undoing of an installation. -/
theorem Table.Wf.restoreExistingByteKey {t t' : Table} (wf : t.Wf) {name : List UInt8}
    {value : Value} (h : t.restoreExistingByteKey name value = .ok t') : t'.Wf := by
  unfold Table.restoreExistingByteKey at h
  split at h
  · cases h
  next index hindex =>
  obtain ⟨hlt, htest, -⟩ := List.findIdx?_eq_some_iff_getElem.mp hindex
  split at h
  · cases h
    refine wf.thinned (fun i v hs => hs) fun p => ?_
    show Bucket.Thinned _ ((if _ then ([] : List Bucket) else t.hash.set index none)[p]?).join
    split
    · exact Bucket.Thinned.none _
    · rw [List.getElem?_set]
      split
      · exact Bucket.Thinned.none _
      · exact Bucket.Thinned.refl _
  · cases h
    refine wf.thinned (fun i v hs => hs) fun p => ?_
    show Bucket.Thinned _
      ((t.hash.modify index (Option.map fun e => (e.1, value)))[p]?).join
    rw [List.getElem?_modify]
    by_cases heq : index = p
    · subst heq
      -- the field was live before
      cases hbucket : t.hash[index] with
      | none =>
        rw [hbucket] at htest
        cases htest
      | some e =>
        rw [hbucket] at htest
        have hlive : e.2 ≠ .nil := (of_decide_eq_true htest).1
        have hold : t.entry index = some e := by
          rw [Table.entry, List.getElem?_eq_getElem hlt, hbucket]
          rfl
        simp only [List.getElem?_eq_getElem hlt, hbucket, hold, if_true]
        rintro k v ⟨⟩
        exact ⟨e.1, e.2, rfl, rfl, id, fun hnil => absurd hnil hlive⟩
    · simp only [if_neg heq, id_map']
      exact Bucket.Thinned.refl _

/-! ### Reachable tables -/

open Classical in
/-- A table with the storage invariant stands for some map. -/
theorem Table.Wf.exists_represents {t : Table} (wf : t.Wf) : ∃ m, t.Represents m := by
  refine ⟨fun r => if h : ∃ v, t.Holds r v then some h.choose else none, fun r v => ?_⟩
  by_cases h : ∃ v, t.Holds r v
  · simp only [dif_pos h, Option.some.injEq]
    exact ⟨fun hv => wf.holds_unique h.choose_spec hv, fun heq => heq ▸ h.choose_spec⟩
  · simp only [dif_neg h]
    exact ⟨fun hv => absurd ⟨v, hv⟩ h, fun heq => absurd heq (by simp)⟩

section OfRun

variable [DefaultHasher] {t : Table}

open Allocation in
/-- **One operation** keeps the storage invariant. -/
theorem TableOp.apply_wf (wf : t.Wf) (op : TableOp) : (op.apply t).Wf := by
  cases op with
  | rawSet vm key value ledger =>
    simp only [apply]
    cases hrun : (t.rawSet vm key value ledger).1 with
    | error e => exact wf
    | ok t' =>
      obtain ⟨r, -, hwritten⟩ :=
        @Table.Wf.rawSet_written _ t wf ⟨vm, ledger, key, value⟩ t' hrun
      exact hwritten.wf
  | rawSetRefPair s first second books =>
    simp only [apply]
    rcases hrun : (do
      let pair ← prepareRefPair s t first second
      let pair ← pair.commitAccounting
      pure (pair.apply t) : BooksM Table) books with ⟨_ | t', books'⟩
    · exact wf
    · obtain ⟨pair, b, hprepare, hcommit⟩ := Prog.bind_eq_ok hrun
      obtain ⟨pair', b', hcommitted, hpub⟩ := Prog.bind_eq_ok hcommit
      obtain ⟨rfl, -⟩ : pair'.apply t = t' ∧ b' = books' := by simpa using hpub
      obtain ⟨m, hm⟩ := wf.exists_represents
      rw [(samePair_of_commit hcommitted).apply]
      exact ((prepared_of_run wf hprepare).apply_spec wf hm).1
  | setMetatable metatable =>
    refine wf.congr ?_ ?_ <;> (simp only [apply, Table.setMetatable]; split <;> rfl)
  | setWeakMode mode =>
    refine wf.congr ?_ ?_ <;> (simp only [apply, Table.setWeakMode]; split <;> rfl)
  | clearDeadWeakPairs isDead isLiveKey clearValues clearKeys ledger =>
    exact wf.clearDeadWeakPairs ledger
  | restoreExistingByteKey name value =>
    simp only [apply]
    cases hrun : t.restoreExistingByteKey name value with
    | error e => exact wf
    | ok t' => exact wf.restoreExistingByteKey hrun

theorem Table.OfRun.wf (h : t.OfRun) : t.Wf := by
  obtain ⟨arrayCapacity, hashCapacity, hashSeed, ledger, ledger', t₀, ops, hnew, rfl⟩ := h
  have wf := (tryNew_spec hnew).1
  clear hnew
  induction ops generalizing t₀ with
  | nil => exact wf
  | cons op ops ih => exact ih (op.apply t₀) (op.apply_wf wf)

end OfRun

/-! ### A pair of fields -/

/-- Two tables that stand for one map are read alike. -/
theorem Table.rawGet_congr [DefaultHasher] {t t' : Table} (wf : t.Wf) (wf' : t'.Wf) {m : FieldMap}
    (hm : t.Represents m) (hm' : t'.Represents m) (vm : Vm) (key : Value) (ledger : Ledger) :
    (t.rawGet vm key ledger).1 = (t'.rawGet vm key ledger).1 := by
  cases hkey : (canonicalKey vm key ledger).1 with
  | ok k => rw [wf.rawGet_eq hm hkey, wf'.rawGet_eq hm' hkey]
  | error e =>
    rcases hrun : canonicalKey vm key ledger with ⟨r, l⟩
    rw [hrun] at hkey
    obtain rfl : r = .error e := hkey
    rw [rawGet, rawGet, Prog.bind_apply_error hrun, Prog.bind_apply_error hrun]

namespace Allocation

/-- The places of a pair are sound for a table: they lie inside the new storages, no two are the
    same, and an entry that is written over is the one of the same key. -/
structure PreparedRefPair.Sound (pair : PreparedRefPair) (t : Table) : Prop where
  /-- The live buckets fit into a new hash part. -/
  live : ∀ growth, pair.hashGrowth = some growth → t.liveHashCount ≤ growth.next.length
  array : ∀ entry ∈ pair.entries, ∀ i, entry.slot.place = .inl i →
    i < (pair.staged t).array.length ∧ entry.rawKey.arrayIndex = some i
  hash : ∀ entry ∈ pair.entries, ∀ p, entry.slot.place = .inr p →
    p < (pair.staged t).hash.length
      ∧ ∀ k v, (pair.staged t).entry p = some (k, v) → k.rawKey = entry.rawKey
  distinct : pair.entries.Pairwise fun a b => a.slot.place ≠ b.slot.place

theorem Prepared.sound [DefaultHasher] {t : Table} (wf : t.Wf) {first second : Int64 × Value}
    {pair : PreparedRefPair} (h : Prepared t first second pair) : pair.Sound t := by
  obtain ⟨hstaged, -⟩ := h.grows.staged_spec wf
  refine ⟨fun growth hgrowth => ?_, fun entry hentry i hi => ?_, fun entry hentry p hp => ?_,
    h.distinct.imp fun hab => hab.2.symm⟩
  · obtain ⟨n, hnext, hle⟩ := h.grows.hash growth hgrowth
    rwa [hnext, List.length_replicate]
  · have hready := h.ready entry hentry
    cases hslot : entry.slot with
    | array j =>
      obtain rfl : j = i := by simpa [hslot, RefPairSlot.place] using hi
      simp only [RefPairEntry.Ready, hslot] at hready
      exact ⟨hready.2.1, hready.1⟩
    | hashExisting p | hashNew p => simp [hslot, RefPairSlot.place] at hi
  · obtain ⟨hlt, -, hkey, -⟩ := PreparedRefPair.ready_bucket hstaged (h.ready entry hentry) hp
    exact ⟨hlt, fun k v hkv => hkey hkv⟩

theorem SamePair.prepared [DefaultHasher] {t : Table} {first second : Int64 × Value}
    {pair pair' : PreparedRefPair} (hsame : SamePair pair pair')
    (h : Prepared t first second pair) : Prepared t first second pair' := by
  have hnext : ∀ {α : Type} {growth growth' : Option (RefPairGrowth α)} {g' : RefPairGrowth α},
      growth'.map RefPairGrowth.next = growth.map RefPairGrowth.next → growth' = some g' →
      ∃ g, growth = some g ∧ g'.next = g.next := by
    rintro α growth growth' g' hmap rfl
    rw [Option.map_some] at hmap
    obtain ⟨g, hg, hgnext⟩ := Option.map_eq_some_iff.mp hmap.symm
    exact ⟨g, hg, hgnext.symm⟩
  refine ⟨⟨fun growth hgrowth => ?_, fun growth hgrowth => ?_⟩, ?_, ?_, ?_, ?_⟩
  · obtain ⟨g, hg, heq⟩ := hnext hsame.array hgrowth
    rw [heq]
    exact h.grows.array g hg
  · obtain ⟨g, hg, heq⟩ := hnext hsame.hash hgrowth
    rw [heq]
    exact h.grows.hash g hg
  · rw [hsame.entries]
    exact h.fields
  · rw [hsame.entries]
    exact h.values
  · rw [hsame.entries, hsame.staged]
    exact h.ready
  · rw [hsame.entries]
    exact h.distinct

end Allocation

open Allocation in
/-- **Two fields at once are two raw writes.**  On every reachable table, when the preparation of two
    integer fields and its commit succeed:

    * every raw read of the published table is the one after the two raw writes;
    * the places lie inside the storages, are different, and no entry of another key is written over;
    * no two hash entries hold equal keys, and no integer key is live in both parts;
    * the loop that doubles the hash part ends. -/
theorem rawSetRefPair_agrees [DefaultHasher] {t : Table} (hreach : t.OfRun)
    {s : Surroundings} {first second : Int64 × Value} {pair committed : PreparedRefPair}
    {books books' books₁ books₂ : Books}
    (hprepare : prepareRefPair s t first second books = (.ok pair, books'))
    (hcommit : pair.commitAccounting books₁ = (.ok committed, books₂)) :
    (∀ vm₁ ledger₁ t₁ vm₂ ledger₂ t₂,
      (t.rawSet vm₁ (.integer first.1) first.2 ledger₁).1 = .ok t₁ →
      (t₁.rawSet vm₂ (.integer second.1) second.2 ledger₂).1 = .ok t₂ →
      ∀ vm key ledger,
        ((committed.apply t).rawGet vm key ledger).1 = (t₂.rawGet vm key ledger).1)
    ∧ committed.Sound t
    ∧ (∀ p q k k' v v', p ≠ q → (committed.apply t).entry p = some (k, v) →
        (committed.apply t).entry q = some (k', v') → k.eq k' = false)
    ∧ (∀ (i p : Nat) (n : Int64) (v w : Value), n.toInt = i + 1 →
        (committed.apply t).slot i = some w →
        (committed.apply t).entry p = some (.integer n, v) → v = .nil)
    ∧ ∀ required occupied inserts length, Doubling required occupied inserts length
        (refHashLength required occupied inserts 65 length) := by
  have wf := hreach.wf
  obtain ⟨m, hm⟩ := wf.exists_represents
  have hprepared := (samePair_of_commit hcommit).prepared (prepared_of_run wf hprepare)
  obtain ⟨wf', hm'⟩ := hprepared.apply_spec wf hm
  refine ⟨?_, hprepared.sound wf, ?_, ?_, refHashLength_doubling⟩
  · intro vm₁ ledger₁ t₁ vm₂ ledger₂ t₂ hfirst hsecond vm key ledger
    obtain ⟨r₁, hr₁, hw₁⟩ :=
      @Table.Wf.rawSet_written _ t wf ⟨vm₁, ledger₁, .integer first.1, first.2⟩ t₁ hfirst
    obtain ⟨r₂, hr₂, hw₂⟩ :=
      @Table.Wf.rawSet_written _ t₁ hw₁.wf ⟨vm₂, ledger₂, .integer second.1, second.2⟩ t₂ hsecond
    obtain rfl : .integer first.1 = r₁ := Option.some.inj hr₁
    obtain rfl : .integer second.1 = r₂ := Option.some.inj hr₂
    exact Table.rawGet_congr wf' hw₂.wf hm' (hw₂.represents (hw₁.represents hm)) vm key ledger
  · intro p q k k' v v' hpq hp hq
    exact wf'.keys_ne hpq hp hq
  · intro i p n v w hn hs he
    exact wf'.parts_disjoint hn hs he

/-- A table with key 2 in its hash part, for fixed inputs. -/
def Table.sampleField : Table :=
  @Table.run collidingHasher .sample [.rawSet .sample (.integer 2) (.boolean true) .granting]

open Allocation in
/-- Keys 2 and 1: the array part grows, and key 2 stays in its bucket. -/
theorem rawSetRefPair_agrees_sample : ∃ pair books' committed books'',
    @prepareRefPair collidingHasher .sample .sampleField (2, .integer 5) (1, .integer 6)
        (World.new 1000 false).books = (.ok pair, books')
      ∧ pair.commitAccounting books' = (.ok committed, books'')
      ∧ committed.Sound .sampleField
      ∧ (@Table.rawGet collidingHasher .sample (committed.apply .sampleField) (.integer 2)
          .granting).1 = .ok (.integer 5) := by
  have hreach : @Table.OfRun collidingHasher .sampleField :=
    ⟨0, 0, 7, .granting, _, .sample, _, rfl, rfl⟩
  have hrun : ∃ pair books' committed books'',
      @prepareRefPair collidingHasher .sample .sampleField (2, .integer 5) (1, .integer 6)
          (World.new 1000 false).books = (.ok pair, books')
        ∧ pair.commitAccounting books' = (.ok committed, books'') := ⟨_, _, _, _, rfl, rfl⟩
  obtain ⟨pair, books', committed, books'', hprepare, hcommit⟩ := hrun
  have h := @rawSetRefPair_agrees collidingHasher _ hreach _ _ _ _ _ _ _ _ _ hprepare hcommit
  refine ⟨pair, books', committed, books'', hprepare, hcommit, h.2.1, ?_⟩
  exact h.1 .sample .granting _ .sample .granting _ rfl rfl .sample (.integer 2) .granting

end RivetLua.Runtime
