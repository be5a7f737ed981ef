import RivetLua.Runtime.TableInvariant

namespace RivetLua.Runtime

open RivetLua.Core StateProg

/-!
# Runtime — the shapes of a prepared mutation

`PreparedTableMutation.Fits` lists the mutations `prepareSet` can choose, each with the facts
about the table that made it the choice; `Table.prepareSet_fits` is the inversion lemma.
Two consequences are used by the traversal and by the collector:

* `Fits.sized` — the array part stays small enough for its indices to be `i64` keys;
* `Fits.entry_cases` — a stored key is an old one or the written one.
-/

/-- A mutation `prepareSet` can choose for a key and a value. -/
inductive PreparedTableMutation.Fits [DefaultHasher] (t : Table) (key : CanonicalKey)
    (value : Value) : PreparedTableMutation → Prop
  | noop : value = .nil → Fits t key value .noop
  | arraySlot {i : Nat} : key.arrayIndex = some i → i < t.array.length →
      Fits t key value (.arraySlot i value)
  | clear {p : Nat} {dead : CanonicalKey} : t.findHash key = some p → value = .nil →
      dead.rawKey = key.rawKey → dead.asValue = key.asValue →
      Fits t key value (.hashSlot p value (some dead))
  | hashSlot {p : Nat} : t.findHash key = some p → value ≠ .nil →
      Fits t key value (.hashSlot p value none)
  | hashReplace {p : Nat} : value ≠ .nil → t.findAnyHash key = some p →
      Fits t key value (.hashReplace p key value)
  | hashInsert {p : Nat} : value ≠ .nil → p < t.hash.length → t.entry p = none →
      Fits t key value (.hashInsert p key value)
  | growArray {capacity : Nat} : value ≠ .nil → key.arrayIndex = some t.array.length →
      t.array.length < capacity → capacity * optionValueSize ≤ usizeMax →
      Fits t key value (.growArray ((t.array ++
        List.replicate (capacity - t.array.length) none).set t.array.length (some value)) value)
  | growHash {capacity : Nat} : value ≠ .nil → t.liveHashCount < capacity →
      Fits t key value (.growHash (List.replicate capacity none) t.liveHashCount key value)

namespace Table

theorem makeDead_asValue (k : CanonicalKey) :
    Triple (fun _ => True) k.makeDead
      (fun k' _ => k'.rawKey = k.rawKey ∧ k'.asValue = k.asValue) (fun _ _ => True) := by
  cases k with
  | byteString source bytes external =>
    cases external with
    | false => exact fun _ _ => ⟨rfl, rfl⟩
    | true => exact Triple.bind Triple.top fun _ => Triple.return_of fun _ _ => ⟨rfl, rfl⟩
  | _ => exact fun _ _ => ⟨rfl, rfl⟩

variable [DefaultHasher]

theorem prepareInsert_fits (t : Table) (key : CanonicalKey) {value : Value}
    (hvalue : value ≠ .nil) :
    Triple (fun _ => True) (t.prepareInsert key value) (fun m _ => m.Fits t key value)
      (fun _ _ => True) := by
  have hcount : t.liveHashCount ≤ t.hash.length := List.countP_le_length
  unfold prepareInsert
  refine Triple.ite (fun _ => Triple.ite (fun _ _ _ => trivial) (fun hfit => ?_)) (fun hroom => ?_)
  · refine Triple.bind Triple.top fun _ => Triple.bind Triple.top fun _ => ?_
    refine Triple.bind Triple.top fun _ => Triple.bind Triple.top fun _ => ?_
    exact Triple.return_of fun _ _ => .growHash hvalue (by omega)
  · rw [not_or, not_or] at hroom
    refine Triple.bind Triple.top fun _ => ?_
    refine Triple.bind ((t.emptyBucket_spec key (by omega)).conseq (fun _ h => h)
      (fun _ _ h => h) (fun _ _ h => h.elim)) fun p => Triple.return_of fun _ hp => ?_
    exact .hashInsert hvalue hp.1 hp.2

theorem prepareAbsent_fits (t : Table) (key : CanonicalKey) {value : Value}
    (hvalue : value ≠ .nil) :
    Triple (fun _ => True) (t.prepareAbsent key value) (fun m _ => m.Fits t key value)
      (fun _ _ => True) := by
  unfold prepareAbsent
  cases hi : key.arrayIndex with
  | none => exact t.prepareInsert_fits key hvalue
  | some i =>
    refine Triple.ite (fun hlt => ?_) (fun _ => Triple.ite (fun heq => ?_) (fun _ => ?_))
    · exact Triple.bind Triple.top fun _ => Triple.return_of fun _ _ => .arraySlot hi hlt
    · subst heq
      refine Triple.bind (checkedBytes_le _ _) fun _ l hle => ?_
      refine (Triple.bind Triple.top fun _ => Triple.bind Triple.top fun _ =>
        Triple.return_of fun _ _ => ?_ : Triple (fun _ => True) _ _ _) l trivial
      exact .growArray hvalue hi (by omega) hle
    · exact t.prepareInsert_fits key hvalue

/-- **Inversion of `prepareSet`.** -/
theorem prepareSet_fits (t : Table) (key : CanonicalKey) (value : Value) :
    Triple (fun _ => True) (t.prepareSet key value) (fun m _ => m.Fits t key value)
      (fun _ _ => True) := by
  unfold prepareSet
  cases hin : key.arrayIndex.filter fun index => (t.slot index).isSome with
  | some i =>
    obtain ⟨hi, hsome⟩ := Option.filter_eq_some_iff.mp hin
    obtain ⟨u, hu⟩ := Option.isSome_iff_exists.mp hsome
    exact Triple.return_of fun _ _ => .arraySlot hi (lt_of_slot hu)
  | none =>
    simp only
    cases hf : t.findHash key with
    | some p =>
      refine Triple.ite (fun hnil => ?_) (fun hnil => Triple.return_of fun _ _ => .hashSlot hf hnil)
      refine Triple.bind (makeDead_asValue key) fun dead => Triple.return_of fun _ hd => ?_
      exact .clear hf hnil hd.1 hd.2
    | none =>
      refine Triple.ite (fun hnil => Triple.return_of fun _ _ => .noop hnil) (fun hnil => ?_)
      cases hany : t.findAnyHash key with
      | some p =>
        refine Triple.ite (fun _ => ?_) (fun _ => t.prepareAbsent_fits key hnil)
        exact Triple.bind Triple.top fun _ => Triple.return_of fun _ _ => .hashReplace hnil hany
      | none => exact t.prepareAbsent_fits key hnil

/-! ### The size of the array part -/

omit [DefaultHasher] in
/-- The array part is small enough for its indices to be `i64` keys. -/
def Sized (t : Table) : Prop := t.array.length * optionValueSize ≤ usizeMax

omit [DefaultHasher] in
theorem Sized.of_length {t t' : Table} (h : t.Sized) (hlen : t'.array.length = t.array.length) :
    t'.Sized := by
  unfold Sized at h ⊢
  rwa [hlen]

omit [DefaultHasher] in
theorem tryNew_sized {arrayCapacity hashCapacity hashSeed : Nat} {l l' : Ledger} {t : Table}
    (h : tryNew arrayCapacity hashCapacity hashSeed l = (.ok t, l')) : t.Sized := by
  obtain ⟨_, _, hreserve, h⟩ := Prog.bind_eq_ok h
  obtain ⟨_, _, hbytes, -⟩ := Prog.bind_eq_ok hreserve
  have hle := (checkedBytes_le _ _).ok trivial hbytes
  obtain ⟨_, _, -, h⟩ := Prog.bind_eq_ok h
  simp only [Prog.pure_apply, Prod.mk.injEq, Except.ok.injEq] at h
  obtain ⟨rfl, -⟩ := h
  simpa [Sized] using hle

end Table

namespace PreparedTableMutation.Fits

variable [DefaultHasher] {t : Table} {key : CanonicalKey} {value : Value}
  {m : PreparedTableMutation}

theorem sized (h : m.Fits t key value) (hsize : t.Sized) : (m.apply t).Sized := by
  cases h with
  | noop => exact hsize
  | arraySlot => exact hsize.of_length (by simp [apply, Table.bumpMutationVersion])
  | clear _ hv => exact hsize.of_length (by simp [apply, Table.bumpMutationVersion, hv])
  | hashSlot _ hv => exact hsize.of_length (by simp [apply, Table.bumpMutationVersion, hv])
  | hashReplace => exact hsize
  | hashInsert => exact hsize
  | growArray _ _ hlt hle =>
    simp only [Table.Sized, apply, Table.bumpMutationVersion, List.length_set, List.length_append,
      List.length_replicate]
    rwa [Nat.add_sub_cancel' (by omega)]
  | growHash => exact hsize

/-- A stored key was stored before, or is the written key. -/
theorem entry_cases (h : m.Fits t key value) {p : Nat} {k : CanonicalKey} {v : Value}
    (he : (m.apply t).entry p = some (k, v)) :
    (∃ q w, t.entry q = some (k, w)) ∨ (k.rawKey = key.rawKey ∧ k.asValue = key.asValue) := by
  -- a bucket that is overwritten with a key of the written class
  have hset : ∀ {q : Nat} {k' : CanonicalKey} {w : Value}, q < t.hash.length →
      k'.rawKey = key.rawKey ∧ k'.asValue = key.asValue →
      ({ t with hash := t.hash.set q (some (k', w)) } : Table).entry p = some (k, v) →
      (∃ q w, t.entry q = some (k, w)) ∨ (k.rawKey = key.rawKey ∧ k.asValue = key.asValue) := by
    intro q k' w hq hk' he
    rw [Table.entry_set t hq] at he
    split at he
    · obtain ⟨rfl, -⟩ : k' = k ∧ w = v := by simpa using he
      exact .inr hk'
    · exact .inl ⟨p, v, he⟩
  have hlt : ∀ {q : Nat}, t.findAnyHash key = some q → q < t.hash.length := by
    intro q hq
    obtain ⟨k', w, hq', -⟩ := Table.findAnyHash_eq_some hq
    exact Table.lt_of_entry hq'
  have hany : ∀ {q : Nat}, t.findHash key = some q → t.findAnyHash key = some q :=
    fun hq => (Option.filter_eq_some_iff.mp hq).1
  cases h with
  | noop => exact .inl ⟨p, v, he⟩
  | arraySlot => exact .inl ⟨p, v, he⟩
  | clear hf hv hk hvalue =>
    subst hv
    exact hset (hlt (hany hf)) ⟨hk, hvalue⟩ he
  | @hashSlot q hf hv =>
    obtain ⟨k', w, hq, -⟩ := Table.findAnyHash_eq_some (hany hf)
    have hget : t.hash[q]? = some (some (k', w)) := Option.join_eq_some_iff.mp hq
    simp only [apply, if_neg hv, Table.entry_bump, List.modify_eq_set_getElem?, hget] at he
    have he' : ({ t with hash := t.hash.set q (some (k', value)) } : Table).entry p
        = some (k, v) := he
    rw [Table.entry_set t (Table.lt_of_entry hq)] at he'
    split at he'
    · obtain ⟨rfl, -⟩ : k' = k ∧ value = v := by simpa using he'
      exact .inl ⟨q, w, hq⟩
    · exact .inl ⟨p, v, he'⟩
  | hashReplace hv hf => exact hset (hlt hf) ⟨rfl, rfl⟩ he
  | hashInsert hv hp _ => exact hset hp ⟨rfl, rfl⟩ he
  | growArray => exact .inl ⟨p, v, he⟩
  | @growHash capacity hv hc =>
    rw [Table.liveHashCount_eq_length] at hc
    have hrep := Table.repack_eq key value hc
    rw [← Table.liveHashCount_eq_length] at hrep
    have hmem := Table.mem_of_entry he
    simp only [apply, Table.bumpMutationVersion, hrep, List.mem_append, List.mem_cons,
      List.mem_filter, Option.some.injEq, Prod.mk.injEq] at hmem
    rcases hmem with ⟨hmem, -⟩ | ⟨rfl, -⟩ | hmem
    · obtain ⟨q, hq⟩ := Table.entry_of_mem hmem
      exact .inl ⟨q, v, hq⟩
    · exact .inr ⟨rfl, rfl⟩
    · exact absurd (List.eq_of_mem_replicate hmem) (by simp)

end PreparedTableMutation.Fits

end RivetLua.Runtime
