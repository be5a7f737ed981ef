import Mathlib.Logic.Relation
import RivetLua.Lib.Check
import RivetLua.Runtime.ShortStringIndex

namespace RivetLua.Runtime

open OpenAddressing Relation

/-!
# Runtime — short strings over runs

* `Interning` — what the index is for: one entry for each content, and no live string is missed;
* `Sound` — the invariant, of the objects and an index, and how each operation keeps it;
* `Clean`, `Possible` — a finalizer must not intern the string that is being allocated, and an
  interned string must not lie in a slot that a failed allocation drops;
* `interning_of_run` — runs.
-/

/-- An object for each live reference. -/
abbrev Objects := StringRef → Option StringObject

/-- Content of a byte string. -/
def Objects.content (objects : Objects) (ref : StringRef) : Option (List UInt8) :=
  (objects ref).bind StringObject.bytes

/-- Entries and interned objects belong to each other, and contents do not repeat. -/
structure Sound (hash : List UInt8 → UInt64) (objects : Objects) (index : ShortStringIndex) :
    Prop where
  wf : index.Wf
  stored : ∀ entry, index.Holds entry → ∃ o bytes, objects entry.object = some o
    ∧ o.interned = true ∧ o.bytes = some bytes ∧ bytes.length ≤ maxShortStringLen
    ∧ hash bytes = entry.hash
  unique : ∀ a b bytes, index.Holds a → index.Holds b → objects.content a.object = some bytes →
    objects.content b.object = some bytes → a = b
  indexed : ∀ ref o, objects ref = some o → o.interned = true → ∃ h, index.Holds ⟨h, ref⟩

namespace Sound

variable {hash : List UInt8 → UInt64} {objects objects' : Objects} {index index' : ShortStringIndex}

/-- A table with the same entries. -/
theorem reindex (h : Sound hash objects index) (hwf : index'.Wf)
    (hsame : ∀ entry, index'.Holds entry ↔ index.Holds entry) : Sound hash objects index' where
  wf := hwf
  stored := fun entry hentry => h.stored entry ((hsame entry).mp hentry)
  unique := fun a b bytes ha hb => h.unique a b bytes ((hsame a).mp ha) ((hsame b).mp hb)
  indexed := fun ref o ho hinterned =>
    (h.indexed ref o ho hinterned).imp fun _ => (hsame _).mpr

theorem interned_of_holds (h : Sound hash objects index) {entry : IndexEntry}
    (hentry : index.Holds entry) {o : StringObject} (ho : objects entry.object = some o) :
    o.interned = true := by
  obtain ⟨o', -, ho', hinterned, -⟩ := h.stored entry hentry
  rw [ho] at ho'
  cases ho'
  exact hinterned

/-- Objects without an entry come and go. -/
theorem reobject (h : Sound hash objects index)
    (hkept : ∀ entry, index.Holds entry → objects' entry.object = objects entry.object)
    (hnew : ∀ ref o, objects' ref = some o → o.interned = true → objects ref = some o) :
    Sound hash objects' index where
  wf := h.wf
  stored := fun entry hentry => by
    rw [hkept entry hentry]
    exact h.stored entry hentry
  unique := fun a b bytes ha hb => by
    unfold Objects.content
    rw [hkept a ha, hkept b hb]
    exact h.unique a b bytes ha hb
  indexed := fun ref o ho hinterned => h.indexed ref o (hnew ref o ho hinterned) hinterned

/-- An interned object goes, together with its entry. -/
theorem remove (h : Sound hash objects index) {entry : IndexEntry} (hentry : index.Holds entry)
    (hwf : index'.Wf)
    (hholds : ∀ other, index'.Holds other ↔ index.Holds other ∧ other ≠ entry)
    (hgone : objects' entry.object = none)
    (hkept : ∀ ref o, objects' ref = some o → objects ref = some o)
    (hleft : ∀ other, index.Holds other → other.object ≠ entry.object →
      objects' other.object = objects other.object) :
    Sound hash objects' index' := by
  have hobject : ∀ other, index'.Holds other → index.Holds other
      ∧ objects' other.object = objects other.object := by
    intro other hother
    obtain ⟨hold, hne⟩ := (hholds other).mp hother
    refine ⟨hold, hleft other hold fun hsame => hne ?_⟩
    obtain ⟨i, hi⟩ := hold
    obtain ⟨j, hj⟩ := hentry
    obtain rfl := h.wf.distinct i j other entry hi hj hsame
    rw [hi] at hj
    cases hj
    rfl
  constructor
  case wf => exact hwf
  case stored =>
    intro other hother
    obtain ⟨hold, hsame⟩ := hobject other hother
    rw [hsame]
    exact h.stored other hold
  case unique =>
    intro a b bytes ha hb
    obtain ⟨holda, hsamea⟩ := hobject a ha
    obtain ⟨holdb, hsameb⟩ := hobject b hb
    unfold Objects.content
    rw [hsamea, hsameb]
    exact h.unique a b bytes holda holdb
  case indexed =>
    intro ref o ho hinterned
    obtain ⟨stored, hstored⟩ := h.indexed ref o (hkept ref o ho) hinterned
    refine ⟨stored, (hholds _).mpr ⟨hstored, ?_⟩⟩
    rintro rfl
    rw [hgone] at ho
    cases ho

/-- A live string whose content has no entry gets one. -/
theorem insert (h : Sound hash objects index) {ref : StringRef} {o : StringObject}
    {bytes : List UInt8} (ho : objects ref = some o) (hbytes : o.bytes = some bytes)
    (hshort : bytes.length ≤ maxShortStringLen) (hwf : index'.Wf)
    (hholds : ∀ entry, index'.Holds entry ↔ index.Holds entry ∨ entry = ⟨hash bytes, ref⟩)
    (hfresh : ∀ entry, index.Holds entry → objects.content entry.object ≠ some bytes)
    (hself : objects' ref = some { o with interned := true })
    (hothers : ∀ other, other ≠ ref → objects' other = objects other) :
    Sound hash objects' index' := by
  have hcontent : objects.content ref = some bytes := by simp [Objects.content, ho, hbytes]
  have hne : ∀ entry, index.Holds entry → entry.object ≠ ref := by
    intro entry hentry hsame
    exact hfresh entry hentry (hsame ▸ hcontent)
  have hcontent' : ∀ other, objects'.content other = objects.content other := by
    intro other
    unfold Objects.content
    by_cases hsame : other = ref
    · rw [hsame, hself, ho]
      rfl
    · rw [hothers other hsame]
  constructor
  case wf => exact hwf
  case stored =>
    intro entry hentry
    obtain hold | rfl := (hholds entry).mp hentry
    · rw [hothers _ (hne entry hold)]
      exact h.stored entry hold
    · exact ⟨_, bytes, hself, rfl, hbytes, hshort, rfl⟩
  case unique =>
    intro a b content ha hb hca hcb
    rw [hcontent'] at hca hcb
    obtain holda | rfl := (hholds a).mp ha <;> obtain holdb | rfl := (hholds b).mp hb
    · exact h.unique a b content holda holdb hca hcb
    · rw [hcontent] at hcb
      cases hcb
      exact absurd hca (hfresh a holda)
    · rw [hcontent] at hca
      cases hca
      exact absurd hcb (hfresh b holdb)
    · rfl
  case indexed =>
    intro other stored hstored hinterned
    by_cases hsame : other = ref
    · exact ⟨hash bytes, (hholds _).mpr (.inr (by rw [hsame]))⟩
    · rw [hothers other hsame] at hstored
      exact (h.indexed other stored hstored hinterned).imp fun _ hold => (hholds _).mpr (.inl hold)

end Sound

/-! ### Objects of a state -/

namespace StringVm

variable {hash : List UInt8 → UInt64} {vm vm' : StringVm}

theorem byteString_eq_ok {ref : StringRef} {bytes : List UInt8} :
    vm.byteString ref = .ok bytes ↔ Objects.content vm.object? ref = some bytes := by
  unfold byteString Objects.content
  rcases vm.object? ref with _ | o
  · simp
  · rcases hbytes : o.bytes with _ | stored <;> simp [hbytes]

/-- Two live references to one slot are the same. -/
theorem object?_slot_inj {a b : StringRef} {o o' : StringObject} (ha : vm.object? a = some o)
    (hb : vm.object? b = some o') (hslot : a.slot = b.slot) : a = b := by
  unfold object? at ha hb
  rw [hslot] at ha
  obtain ⟨ha, hta⟩ := Option.filter_eq_some_iff.mp ha
  obtain ⟨hb, htb⟩ := Option.filter_eq_some_iff.mp hb
  rw [ha] at hb
  cases hb
  have htoken : a.token = b.token := (beq_iff_eq.mp hta).symm.trans (beq_iff_eq.mp htb)
  cases a
  cases b
  cases hslot
  cases htoken
  rfl

theorem object?_set_none {slot : Nat} (hslots : vm'.slots = vm.slots.set slot none)
    (ref : StringRef) : vm'.object? ref = if ref.slot = slot then none else vm.object? ref := by
  unfold object?
  rw [hslots, List.getElem?_set]
  by_cases hsame : slot = ref.slot
  · rw [if_pos hsame, if_pos hsame.symm]
    split <;> rfl
  · rw [if_neg hsame, if_neg (Ne.symm hsame)]

theorem object?_dropLast (hslots : vm'.slots = vm.slots.dropLast) (ref : StringRef) :
    vm'.object? ref = if ref.slot + 1 = vm.slots.length then none else vm.object? ref := by
  unfold object?
  rw [hslots, List.getElem?_dropLast]
  by_cases hlast : ref.slot + 1 = vm.slots.length
  · rw [if_pos hlast, if_neg (by omega)]
    rfl
  · rw [if_neg hlast]
    by_cases hlt : ref.slot < vm.slots.length - 1
    · rw [if_pos hlt]
    · rw [if_neg hlt, List.getElem?_eq_none (by omega)]

theorem object?_intern {ref : StringRef} {o : StringObject} (ho : vm.object? ref = some o)
    (index : ShortStringIndex) (other : StringRef) :
    (vm.intern ref index).object? other
      = if other = ref then some { o with interned := true } else vm.object? other := by
  obtain ⟨hslot, htoken⟩ := Option.filter_eq_some_iff.mp ho
  have hlt : ref.slot < vm.slots.length := by
    by_contra hge
    rw [List.getElem?_eq_none (by omega)] at hslot
    cases hslot
  by_cases hsame : other = ref
  · subst hsame
    rw [if_pos rfl]
    simp only [object?, intern, List.getElem?_set_self hlt, hslot, Option.map_some, Option.join_some,
      Option.filter_eq_some_iff, true_and]
    exact htoken
  · rw [if_neg hsame]
    by_cases hslots : other.slot = ref.slot
    · have htokens : (o.token == other.token) = false := by
        refine beq_eq_false_iff_ne.mpr fun htoken' => hsame ?_
        have hother : vm.object? other = some o :=
          Option.filter_eq_some_iff.mpr ⟨by rw [hslots, hslot], beq_iff_eq.mpr htoken'⟩
        exact object?_slot_inj hother ho hslots
      simp only [object?, intern, hslots, List.getElem?_set_self hlt, hslot, Option.map_some,
        Option.join_some, Option.filter_some, htokens, Bool.false_eq_true, if_false]
    · simp [object?, intern, List.getElem?_set_ne (Ne.symm hslots)]

/-- A published object is new, and the others stay. -/
theorem publish_spec {slot : Nat} {bytes : Option (List UInt8)} {ref : StringRef}
    (h : vm.publish slot bytes = some (ref, vm')) :
    vm'.index = vm.index ∧ vm'.outer = vm.outer ∧ vm.object? ref = none ∧ ref.slot = slot
      ∧ (∀ other, vm'.object? other
        = if other = ref then some ⟨vm.nextToken, bytes, false⟩ else vm.object? other) := by
  unfold publish at h
  by_cases happend : slot = vm.slots.length
  · simp only [happend, if_true, Option.some.injEq, Prod.mk.injEq] at h
    obtain ⟨rfl, rfl⟩ := h
    refine ⟨rfl, rfl, by simp [object?], happend.symm, fun other => ?_⟩
    by_cases hslot : other.slot = vm.slots.length
    · obtain ⟨otherSlot, otherToken⟩ := other
      obtain rfl : otherSlot = vm.slots.length := hslot
      by_cases htoken : otherToken = vm.nextToken
      · simp [object?, htoken]
      · simp [object?, htoken, Ne.symm htoken]
    · have hne : other ≠ ⟨vm.slots.length, vm.nextToken⟩ := by
        rintro rfl
        exact hslot rfl
      rw [if_neg hne]
      simp only [object?, List.getElem?_append]
      by_cases hlt : other.slot < vm.slots.length
      · rw [if_pos hlt]
      · rw [if_neg hlt, List.getElem?_eq_none (by simp; omega),
          List.getElem?_eq_none (by omega)]
  · by_cases hfree : vm.slots[slot]? = some none
    · simp only [happend, hfree, if_false, if_true, Option.some.injEq, Prod.mk.injEq] at h
      obtain ⟨rfl, rfl⟩ := h
      have hlt : slot < vm.slots.length := (List.getElem?_eq_some_iff.mp hfree).1
      refine ⟨rfl, rfl, by simp [object?, hfree], rfl, fun other => ?_⟩
      by_cases hslot : other.slot = slot
      · obtain ⟨otherSlot, otherToken⟩ := other
        obtain rfl : otherSlot = slot := hslot
        by_cases htoken : otherToken = vm.nextToken
        · simp [object?, htoken, hlt]
        · simp only [object?, List.getElem?_set_self hlt, hfree, StringRef.mk.injEq, htoken,
            and_false, if_false, Option.join_some, Option.filter_none, Option.filter_some,
            beq_eq_false_iff_ne.mpr (Ne.symm htoken), Bool.false_eq_true]
      · have hne : other ≠ ⟨slot, vm.nextToken⟩ := by
          rintro rfl
          exact hslot rfl
        rw [if_neg hne]
        simp [object?, List.getElem?_set_ne (Ne.symm hslot)]
    · simp [happend, hfree] at h

/-! ### Looking up -/

/-- `find_short_string` finds the entry of a content, if there is one. -/
theorem findShortString_eq (h : Sound hash vm.object? vm.index) (bytes : List UInt8) :
    (∃ ref, vm.findShortString bytes (hash bytes) = .ok (some ref)
        ∧ vm.index.Holds ⟨hash bytes, ref⟩ ∧ Objects.content vm.object? ref = some bytes)
      ∨ (vm.findShortString bytes (hash bytes) = .ok none
        ∧ ∀ entry, vm.index.Holds entry → Objects.content vm.object? entry.object ≠ some bytes) := by
  let accepts : IndexEntry → Bool := fun entry =>
    decide (entry.hash = hash bytes ∧ Objects.content vm.object? entry.object = some bytes)
  obtain ⟨i, entry, hsearch, hi, haccepts⟩ | ⟨hsearch, hnone⟩ := search_eq_ok
    (fun entry : IndexEntry =>
      if entry.hash = hash bytes then do
        let stored ← vm.byteString entry.object
        .ok (decide (stored = bytes))
      else .ok false) accepts
    (fun i entry hi => by
      obtain ⟨o, stored, ho, -, hstored, -⟩ := h.stored entry ⟨i, hi⟩
      have hcontent : Objects.content vm.object? entry.object = some stored := by
        simp [Objects.content, ho, hstored]
      by_cases hhash : entry.hash = hash bytes
      · simp [accepts, hhash, byteString_eq_ok.mpr hcontent, hcontent, bind, Except.bind]
      · simp [accepts, hhash])
    (ShortStringIndex.positions (hash bytes) vm.index.buckets.length)
  · obtain ⟨hhash, hcontent⟩ := of_decide_eq_true haccepts
    refine .inl ⟨entry.object, ?_, ⟨i, ?_⟩, hcontent⟩
    · exact Check.bind_eq_ok.mpr ⟨_, hsearch, rfl⟩
    · rw [hi, ← hhash]
  · refine .inr ⟨?_, fun entry ⟨i, hi⟩ hcontent => ?_⟩
    · exact Check.bind_eq_ok.mpr ⟨_, hsearch, rfl⟩
    · obtain ⟨o, stored, ho, -, hstored, -, hhash⟩ := h.stored entry ⟨i, hi⟩
      have hbytes : stored = bytes := by simpa [Objects.content, ho, hstored] using hcontent
      have hreach := h.wf.reach i entry hi
      rw [← hhash, hbytes] at hreach
      refine of_decide_eq_false (hnone i entry hreach hi) ⟨?_, hcontent⟩
      rw [← hhash, hbytes]

end StringVm

namespace ShortStringIndex

/-- A capacity that growth leads to. -/
def ValidCapacity (index : ShortStringIndex) : Prop :=
  index.buckets = [] ∨ ∃ k ≤ 59, index.buckets.length = 2 ^ (k + 4)

/-- Half of the buckets are in use, or a few more. -/
def Fits (index : ShortStringIndex) (spare : Nat) : Prop :=
  index.used ≤ index.buckets.length / 2 + spare

end ShortStringIndex

namespace StringVm

variable {hash : List UInt8 → UInt64} {vm vm' : StringVm}

theorem object?_congr (hslots : vm'.slots = vm.slots) : vm'.object? = vm.object? := by
  funext ref
  unfold object?
  rw [hslots]

/-! ### Taking things back -/

/-- Entries of a sound index pass the check before they are moved. -/
theorem moveEntry_eq (h : Sound hash vm.object? vm.index) {entry : IndexEntry}
    (hentry : vm.index.Holds entry) (next : ShortStringIndex) :
    vm.moveEntry hash next entry = next.insert entry.hash entry.object := by
  obtain ⟨o, bytes, ho, -, hbytes, hshort, hhash⟩ := h.stored entry hentry
  have hread : vm.byteString entry.object = .ok bytes :=
    byteString_eq_ok.mpr (by simp [Objects.content, ho, hbytes])
  unfold moveEntry
  rw [hread, Check.ok_bind, if_pos ⟨hshort, hhash⟩]

theorem restoreShortStringGrowth_spec (h : Sound hash vm.object? vm.index)
    {previous : Option ShortStringIndex} (hcapacity : ∀ p, previous = some p → p.ValidCapacity) :
    ∃ vm', vm.restoreShortStringGrowth hash previous = .ok vm' ∧ vm'.slots = vm.slots
      ∧ vm'.outer = vm.outer ∧ Sound hash vm'.object? vm'.index
      ∧ ∀ spare, vm.index.Fits spare → vm'.index.Fits spare := by
  unfold restoreShortStringGrowth
  cases previous with
  | none => exact ⟨vm, rfl, rfl, rfl, h, fun _ => id⟩
  | some previous =>
    by_cases hempty : vm.index.occupied = 0
    · simp only [hempty, if_true]
      have hnone := h.wf.not_holds_of_occupied hempty
      refine ⟨_, rfl, rfl, rfl, h.reindex ShortStringIndex.wf_default fun entry => ?_, ?_⟩
      · exact iff_of_false (ShortStringIndex.not_holds_default entry) (hnone entry)
      · intro spare _
        exact Nat.zero_le _
    · by_cases hkeep : previous.buckets.length = 0
          ∨ previous.buckets.length / 2 < vm.index.occupied
      · simp only [hempty, hkeep, if_true, if_false]
        exact ⟨vm, rfl, rfl, rfl, h, fun _ => id⟩
      · simp only [hempty, hkeep, if_false]
        obtain ⟨hne, hlive⟩ := not_or.mp hkeep
        obtain hnil | ⟨k, hk, hlength⟩ := hcapacity previous rfl
        · exact absurd (congrArg List.length hnil) hne
        obtain ⟨next, hnext, hwf, hnextLength, hused, hholds⟩ := h.wf.rehash
          (f := vm.moveEntry hash) hk (by omega) fun next entry hentry => moveEntry_eq h hentry next
        rw [hlength, hnext]
        refine ⟨_, rfl, rfl, rfl, h.reindex hwf hholds, fun spare _ => ?_⟩
        show next.used ≤ next.buckets.length / 2 + spare
        omega

/-- What an operation on one slot leaves alone: the allocation in progress, the objects of the other
    slots, and the room in the index. -/
structure Keeps (slot : Nat) (vm vm' : StringVm) : Prop where
  outer : vm'.outer = vm.outer
  object : ∀ ref, ref.slot ≠ slot → vm'.object? ref = vm.object? ref
  fits : ∀ spare, vm.index.Fits spare → vm'.index.Fits spare

theorem reclaim_eq_ok {ref : StringRef} (hs : vm.reclaim hash ref = .ok vm') :
    ∃ o, vm.object? ref = some o ∧ vm'.slots = vm.slots.set ref.slot none ∧ vm'.outer = vm.outer
      ∧ vm'.index = match o.bytes with
        | some bytes =>
          if bytes.length ≤ maxShortStringLen then vm.index.remove (hash bytes) ref else vm.index
        | none => vm.index := by
  unfold reclaim at hs
  rcases ho : vm.object? ref with _ | o
  all_goals
    rw [ho] at hs
    cases hs
  exact ⟨o, rfl, rfl, rfl, rfl⟩

theorem reclaim_spec (h : Sound hash vm.object? vm.index) {ref : StringRef}
    (hs : vm.reclaim hash ref = .ok vm') :
    Sound hash vm'.object? vm'.index ∧ Keeps ref.slot vm vm'
      ∧ vm'.slots = vm.slots.set ref.slot none := by
  obtain ⟨o, ho, hslots, houter, hindex⟩ := reclaim_eq_ok hs
  have hobject := object?_set_none hslots
  have hkept : ∀ other stored, vm'.object? other = some stored →
      vm.object? other = some stored := by
    intro other stored hstored
    rw [hobject] at hstored
    split at hstored
    · cases hstored
    · exact hstored
  have hleft : ∀ entry, vm.index.Holds entry → entry.object ≠ ref →
      vm'.object? entry.object = vm.object? entry.object := by
    intro entry hentry hne
    obtain ⟨stored, -, hstored, -⟩ := h.stored entry hentry
    rw [hobject, if_neg fun hslot => hne (object?_slot_inj hstored ho hslot)]
  have hothers : ∀ other, other.slot ≠ ref.slot → vm'.object? other = vm.object? other :=
    fun other hslot => (hobject other).trans (if_neg hslot)
  by_cases hinterned : o.interned = true
  · -- the object has its entry under the hash of its bytes
    obtain ⟨stored, hentry⟩ := h.indexed ref o ho hinterned
    obtain ⟨o', bytes, ho', -, hbytes, hshort, rfl⟩ := h.stored _ hentry
    obtain rfl : o = o' := Option.some.inj (ho.symm.trans ho')
    obtain ⟨hwf, hused, hlength, hnil, hholds⟩ := h.wf.remove hentry
    simp only [hbytes, hshort, if_true] at hindex
    rw [hindex]
    refine ⟨h.remove hentry hwf hholds ?_ hkept hleft, ⟨houter, hothers, fun spare hfits => ?_⟩,
      hslots⟩
    · rw [hobject, if_pos rfl]
    · have hfits' : vm.index.used ≤ vm.index.buckets.length / 2 + spare := hfits
      rw [hindex]
      unfold ShortStringIndex.Fits
      obtain hempty | hsame := hlength
      · rw [hnil hempty]
        exact Nat.zero_le _
      · rw [hsame]
        exact Nat.le_trans hused hfits'
  · -- there is no entry to remove
    have hnone : ∀ stored, ¬ vm.index.Holds ⟨stored, ref⟩ := fun stored hentry =>
      hinterned (h.interned_of_holds hentry ho)
    have hsame : vm'.index = vm.index := by
      rw [hindex]
      rcases o.bytes with _ | bytes
      · rfl
      · simp only [ShortStringIndex.remove_of_not_holds (hnone _), ite_self]
    rw [hsame]
    refine ⟨h.reobject (fun entry hentry => hleft entry hentry fun hself => ?_)
      fun other stored hstored _ => hkept other stored hstored,
      ⟨houter, hothers, fun _ hfits => hsame ▸ hfits⟩, hslots⟩
    exact hnone entry.hash (hself ▸ hentry)

theorem rollbackUnpublishedCreatedObject_spec (h : Sound hash vm.object? vm.index)
    {ref : StringRef} {previousSlots : Nat}
    (hs : vm.rollbackUnpublishedCreatedObject hash ref previousSlots = .ok vm') :
    Sound hash vm'.object? vm'.index ∧ Keeps ref.slot vm vm' := by
  unfold rollbackUnpublishedCreatedObject at hs
  obtain ⟨-, -, hs⟩ := Check.bind_eq_ok.mp hs
  obtain ⟨mid, hmid, hs⟩ := Check.bind_eq_ok.mp hs
  obtain ⟨hsound, hkeeps, hslots⟩ := reclaim_spec h hmid
  by_cases happended : ref.slot = previousSlots ∧ previousSlots + 1 = vm.slots.length
  · simp only [happended, and_self, decide_true, if_true] at hs
    cases hs
    -- the slot that is dropped is the one that was emptied
    have hobject : StringVm.object? { mid with slots := mid.slots.dropLast } = mid.object? := by
      funext other
      rw [@object?_dropLast mid _ rfl]
      split
      · rename_i hlast
        rw [hslots, List.length_set] at hlast
        rw [object?_set_none hslots, if_pos (by omega)]
      · rfl
    exact ⟨hobject ▸ hsound, hkeeps.outer, fun other hslot =>
      (congrFun hobject other).trans (hkeeps.object other hslot), hkeeps.fits⟩
  · simp only [happended, decide_false, Bool.false_eq_true, if_false] at hs
    cases hs
    exact ⟨hsound, hkeeps⟩

theorem undo_spec (h : Sound hash vm.object? vm.index) {ref : StringRef} {previousSlots : Nat}
    {previous : Option ShortStringIndex} (hcapacity : ∀ p, previous = some p → p.ValidCapacity)
    (hs : vm.undo hash ref previousSlots previous = .ok vm') :
    Sound hash vm'.object? vm'.index ∧ Keeps ref.slot vm vm' := by
  unfold undo at hs
  obtain ⟨mid, hmid, hs⟩ := Check.bind_eq_ok.mp hs
  obtain ⟨hsound, hkeeps⟩ := rollbackUnpublishedCreatedObject_spec h hmid
  obtain ⟨vm'', hrestore, hslots, houter, hsound', hfits⟩ :=
    restoreShortStringGrowth_spec hsound hcapacity
  obtain rfl : vm'' = vm' := Except.ok.inj (hrestore.symm.trans hs)
  refine ⟨hsound', houter.trans hkeeps.outer, fun other hslot => ?_, fun spare h =>
    hfits spare (hkeeps.fits spare h)⟩
  rw [object?_congr hslots]
  exact hkeeps.object other hslot

end StringVm

namespace StringVm

variable {hash : List UInt8 → UInt64} {vm vm' : StringVm}

/-! ### Interning -/

/-- With room in the index, a live string whose content has no entry gets one. -/
theorem intern_spec (h : Sound hash vm.object? vm.index) {string : ShortString} {ref : StringRef}
    {o : StringObject} (ho : vm.object? ref = some o) (hbytes : o.bytes = some string.bytes)
    (hfresh : ∀ entry, vm.index.Holds entry →
      Objects.content vm.object? entry.object ≠ some string.bytes)
    {index : ShortStringIndex} (hwf : index.Wf)
    (hsame : ∀ entry, index.Holds entry ↔ vm.index.Holds entry)
    (hroom : index.used < index.buckets.length) :
    ∃ next, index.insert (hash string.bytes) ref = .ok next
      ∧ Sound hash (vm.intern ref next).object? next
      ∧ (∀ other, other ≠ ref → (vm.intern ref next).object? other = vm.object? other)
      ∧ next.used ≤ index.used + 1 ∧ next.buckets.length = index.buckets.length := by
  have hne : ∀ entry, index.Holds entry → entry.object ≠ ref := by
    intro entry hentry hself
    refine hfresh entry ((hsame entry).mp hentry) ?_
    simp [Objects.content, hself, ho, hbytes]
  obtain ⟨next, hnext, hwf', hlength, hocc, hdel, hholds⟩ := hwf.insert hroom (hash string.bytes) hne
  have hobject := object?_intern ho next
  refine ⟨next, hnext, ?_, fun other hother => (hobject other).trans (if_neg hother), ?_, hlength⟩
  · refine h.insert ho hbytes string.short hwf' (fun entry => ?_) hfresh
      ((hobject ref).trans (if_pos rfl)) fun other hother => (hobject other).trans (if_neg hother)
    rw [hholds, hsame]
  · simp only [ShortStringIndex.used]
    omega

theorem indexObject_spec (h : Sound hash vm.object? vm.index) (hfits : vm.index.Fits 0)
    {string : ShortString} {ref : StringRef} {o : StringObject} (ho : vm.object? ref = some o)
    (hbytes : o.bytes = some string.bytes)
    (hfresh : ∀ entry, vm.index.Holds entry →
      Objects.content vm.object? entry.object ≠ some string.bytes)
    {previousSlots : Nat} {previous : Option ShortStringIndex}
    (hcapacity : ∀ p, previous = some p → p.ValidCapacity) {second : Except VmError Unit}
    (hs : vm.indexObject hash string ref previousSlots previous second = .ok vm') :
    Sound hash vm'.object? vm'.index ∧ vm'.outer = vm.outer
      ∧ (∀ other, other.slot ≠ ref.slot → vm'.object? other = vm.object? other)
      ∧ vm'.index.Fits 1
      ∧ (vm.index.used + 1 ≤ vm.index.buckets.length / 2 → vm'.index.Fits 0) := by
  unfold indexObject at hs
  -- either nothing is reserved, and the string is taken back, or there is room
  have hreserved : (∃ e, (if vm.index.buckets.isEmpty then vm.index.reserveSlot second
        else .ok (none, vm.index)) = .error e)
      ∨ ∃ grown index, (if vm.index.buckets.isEmpty then vm.index.reserveSlot second
        else .ok (none, vm.index)) = .ok (grown, index) ∧ index.Wf
        ∧ (∀ entry, index.Holds entry ↔ vm.index.Holds entry)
        ∧ index.used < index.buckets.length
        ∧ (index.used + 1 ≤ index.buckets.length / 2 ∨ index = vm.index) := by
    by_cases hempty : vm.index.buckets.isEmpty = true
    · simp only [hempty, if_true]
      rcases hreserve : vm.index.reserveSlot second with e | ⟨grown, index⟩
      · exact .inl ⟨e, rfl⟩
      · obtain ⟨hwf, hroom, hsame, -⟩ :=
          h.wf.reserveSlot (Nat.le_trans hfits (Nat.le_succ _)) hreserve
        exact .inr ⟨grown, index, rfl, hwf, hsame, by omega, .inl hroom⟩
    · simp only [hempty, Bool.false_eq_true, if_false]
      refine .inr ⟨none, vm.index, rfl, h.wf, fun _ => Iff.rfl, ?_, .inr rfl⟩
      have hfits' : vm.index.used ≤ vm.index.buckets.length / 2 + 0 := hfits
      have hpos : 0 < vm.index.buckets.length :=
        List.length_pos_iff.mpr fun hnil => hempty (by rw [hnil]; rfl)
      omega
  obtain ⟨e, hfailed⟩ | ⟨grown, index, hok, hwf, hsame, hroom, hspare⟩ := hreserved
  · rw [hfailed] at hs
    obtain ⟨hsound, hkeeps⟩ := undo_spec h hcapacity hs
    have hfits' := hkeeps.fits 0 hfits
    exact ⟨hsound, hkeeps.outer, hkeeps.object, Nat.le_succ_of_le hfits', fun _ => hfits'⟩
  · rw [hok] at hs
    obtain ⟨next, hnext, hsound, hothers, hused, hlength⟩ :=
      intern_spec h ho hbytes hfresh hwf hsame hroom
    simp only [hnext] at hs
    cases hs
    refine ⟨hsound, rfl, fun other hslot => hothers other fun hself => hslot (by rw [hself]), ?_, ?_⟩
    · show next.used ≤ next.buckets.length / 2 + 1
      obtain hspare | rfl := hspare
      · omega
      · have hfits' : vm.index.used ≤ vm.index.buckets.length / 2 + 0 := hfits
        omega
    · intro hvm
      show next.used ≤ next.buckets.length / 2 + 0
      obtain hspare | rfl := hspare <;> omega

/-- The start of an allocation: a hit, or room for a string that has no entry. -/
theorem beginAllocation_spec (h : Sound hash vm.object? vm.index) (hfits : vm.index.Fits 1)
    {string : ShortString} {reserve : Except VmError Unit} {previous : Option ShortStringIndex}
    (hs : vm.beginAllocation hash string reserve = .ok (.inr (previous, vm'))) :
    Sound hash vm'.object? vm'.index ∧ vm'.slots = vm.slots ∧ vm'.outer = vm.outer
      ∧ vm'.index.used + 1 ≤ vm'.index.buckets.length / 2
      ∧ (∀ entry, vm'.index.Holds entry →
        Objects.content vm'.object? entry.object ≠ some string.bytes)
      ∧ ∀ p, previous = some p → p.ValidCapacity := by
  unfold beginAllocation at hs
  obtain ⟨found, hfound, hs⟩ := Check.bind_eq_ok.mp hs
  cases found with
  | some object => cases hs
  | none =>
    obtain ⟨⟨previous', index⟩, hreserve, hs⟩ := Check.bind_eq_ok.mp hs
    cases hs
    obtain ⟨hwf, hroom, hsame, hprevious⟩ := h.wf.reserveSlot hfits hreserve
    obtain ⟨ref, hsome, -⟩ | ⟨-, hnone⟩ := findShortString_eq h string.bytes
    · rw [hsome] at hfound
      cases hfound
    refine ⟨h.reindex hwf hsame, rfl, rfl, hroom, fun entry hentry =>
      hnone entry ((hsame entry).mp hentry), ?_⟩
    rintro p rfl
    obtain hgrown | hgrown := hprevious
    · cases hgrown
    · cases hgrown
      exact h.wf.capacity

/-- A new object does not concern the index. -/
theorem publish_sound (h : Sound hash vm.object? vm.index) {slot : Nat} {bytes : Option (List UInt8)}
    {ref : StringRef} (hs : vm.publish slot bytes = some (ref, vm')) :
    Sound hash vm'.object? vm'.index ∧ (∀ other, vm.object? other ≠ none →
      vm'.object? other = vm.object? other) := by
  obtain ⟨hindex, -, hnone, -, hobject⟩ := publish_spec hs
  have hothers : ∀ other, vm.object? other ≠ none → vm'.object? other = vm.object? other := by
    intro other hother
    rw [hobject, if_neg]
    rintro rfl
    exact hother hnone
  rw [hindex]
  refine ⟨h.reobject (fun entry hentry => hothers _ ?_) fun other o ho hinterned => ?_, hothers⟩
  · obtain ⟨o, -, ho, -⟩ := h.stored entry hentry
    simp [ho]
  · rw [hobject] at ho
    split at ho
    · cases ho
      cases hinterned
    · exact ho

end StringVm

namespace StringVm

variable (hash : List UInt8 → UInt64) (vm : StringVm) {vm' : StringVm}

/-! ### Steps -/

/-- What the index of short strings is for. -/
structure Interning : Prop where
  unique : ∀ i j a b, bucket vm.index.buckets i = .occupied a →
    bucket vm.index.buckets j = .occupied b → vm.byteString a.object = vm.byteString b.object → i = j
  resolves : ∀ i entry, bucket vm.index.buckets i = .occupied entry →
    ∃ bytes, vm.byteString entry.object = .ok bytes ∧ bytes.length ≤ maxShortStringLen
      ∧ hash bytes = entry.hash
  found : ∀ ref o bytes, vm.object? ref = some o → o.interned = true → o.bytes = some bytes →
    vm.findShortString bytes (hash bytes) = .ok (some ref)
  occupied_eq : vm.index.occupied = vm.index.buckets.countP Bucket.isOccupied
  deleted_eq : vm.index.deleted = vm.index.buckets.countP Bucket.isDeleted
  insert_reserved : ∀ reserve grown next, vm.index.reserveSlot reserve = .ok (grown, next) →
    ∀ h ref, (next.insert h ref).isOk = true
  insert_pending : ∀ allocation string, vm.outer = some allocation →
    allocation.string = some string → vm.index.buckets ≠ [] →
    ∀ h ref, (vm.index.insert h ref).isOk = true

/-- No finalizer has interned the string that is being allocated, and no interned string is in a
    slot that a failed allocation drops. -/
def Clean : Action → Prop
  | .finish _ => ∀ allocation string, vm.outer = some allocation →
    allocation.string = some string →
    vm.findShortString string.bytes (hash string.bytes) = .ok none
  | .abort => ∀ allocation, vm.outer = some allocation → allocation.appended = true →
    ∀ i entry, bucket vm.index.buckets i = .occupied entry →
      entry.object.slot + 1 ≠ vm.slots.length
  | _ => True

/-- The object of the allocation in progress is a root, and the tables that callers have kept are
    tables that were in use. -/
def Possible : Action → Prop
  | .reclaim ref => ∀ allocation, vm.outer = some allocation → ref ≠ allocation.object
  | .undo ref _ previous => (∀ allocation, vm.outer = some allocation → ref ≠ allocation.object)
    ∧ ∀ p, previous = some p → p.ValidCapacity
  | _ => True

/-- The allocation in progress: its object has no entry, and for a string there is room. -/
structure Pending (allocation : Allocation) : Prop where
  live : ∃ o, vm.object? allocation.object = some o ∧ o.interned = false
    ∧ ∀ string, allocation.string = some string → o.bytes = some string.bytes
  fits : ∀ string, allocation.string = some string → vm.index.Fits 0
  capacity : ∀ p, allocation.previous = some p → p.ValidCapacity

/-- The invariant. -/
structure Good : Prop where
  sound : Sound hash vm.object? vm.index
  fits : vm.index.Fits 1
  pending : ∀ allocation, vm.outer = some allocation → vm.Pending allocation

variable {hash vm}

/-- An operation in which the allocation in progress is not involved. -/
theorem Good.of_sound (h : Good hash vm) (hsound : Sound hash vm'.object? vm'.index)
    (houter : vm'.outer = vm.outer)
    (hobject : ∀ allocation, vm.outer = some allocation →
      vm'.object? allocation.object = vm.object? allocation.object)
    (hfits : ∀ spare, spare ≤ 1 → vm.index.Fits spare → vm'.index.Fits spare) : Good hash vm' where
  sound := hsound
  fits := hfits 1 (Nat.le_refl _) h.fits
  pending := fun allocation hallocation => by
    rw [houter] at hallocation
    obtain ⟨hlive, hroom, hcapacity⟩ := h.pending allocation hallocation
    rw [← hobject allocation hallocation] at hlive
    exact ⟨hlive, fun string hstring => hfits 0 (Nat.zero_le _) (hroom string hstring), hcapacity⟩

/-- … on another slot. -/
theorem Good.of_keeps (h : Good hash vm) (hsound : Sound hash vm'.object? vm'.index) {ref : StringRef}
    (hkeeps : Keeps ref.slot vm vm') {o : StringObject} (ho : vm.object? ref = some o)
    (hroot : ∀ allocation, vm.outer = some allocation → ref ≠ allocation.object) : Good hash vm' := by
  refine h.of_sound hsound hkeeps.outer (fun allocation hallocation => ?_) fun spare _ =>
    hkeeps.fits spare
  obtain ⟨⟨pending, hpending, -⟩, -, -⟩ := h.pending allocation hallocation
  refine hkeeps.object allocation.object fun hslot => ?_
  exact hroot allocation hallocation (object?_slot_inj ho hpending hslot.symm)

/-- A string is interned without a collection in between. -/
theorem Good.allocate (h : Good hash vm) {string : ShortString} {slot : Nat}
    {reserve second : Except VmError Unit} (hs : vm.step hash (.allocate string slot reserve second)
      = some vm') : Good hash vm' := by
  simp only [step] at hs
  split at hs
  · rename_i previous grown hbegin
    obtain ⟨⟨ref, published⟩, hpublish, hs⟩ := Option.bind_eq_some_iff.mp hs
    obtain ⟨hsound, hslots, houter, hroom, hfresh, hcapacity⟩ :=
      beginAllocation_spec h.sound h.fits hbegin
    obtain ⟨hindex, houter', hnew, -, hobject⟩ := publish_spec hpublish
    obtain ⟨hsound', hold⟩ := publish_sound hsound hpublish
    rcases hresult : published.indexObject hash string ref vm.slots.length previous second with
      e | result
    · rw [hresult] at hs
      cases hs
    rw [hresult] at hs
    obtain rfl : result = vm' := Option.some.inj hs
    have hfits : published.index.Fits 0 := by
      rw [hindex]
      exact Nat.le_of_succ_le hroom
    have hself := (hobject ref).trans (if_pos rfl)
    have hfresh' : ∀ entry, published.index.Holds entry →
        Objects.content published.object? entry.object ≠ some string.bytes := by
      intro entry hentry
      rw [hindex] at hentry
      obtain ⟨o, -, ho, -⟩ := hsound.stored entry hentry
      unfold Objects.content
      rw [hold entry.object (by simp [ho])]
      exact hfresh entry hentry
    obtain ⟨hsound'', houter'', hothers, hfits₁, hfits₀⟩ :=
      indexObject_spec hsound' hfits hself rfl hfresh' hcapacity hresult
    refine h.of_sound hsound'' (houter''.trans (houter'.trans houter)) ?_ ?_
    · intro allocation hallocation
      obtain ⟨⟨pending, hpending, -⟩, -, -⟩ := h.pending allocation hallocation
      rw [← object?_congr hslots] at hpending ⊢
      have hkept := hold allocation.object (by simp [hpending])
      rw [hothers allocation.object fun hslot => ?_, hkept]
      have hsame := object?_slot_inj (hkept.trans hpending) hself hslot
      rw [hsame, hnew] at hpending
      cases hpending
    · intro spare hspare _
      obtain rfl | rfl : spare = 0 ∨ spare = 1 := by omega
      · refine hfits₀ ?_
        rw [hindex]
        exact hroom
      · exact hfits₁
  · cases hs

/-- A string is refused after its slot of the index was reserved. -/
theorem Good.refuse (h : Good hash vm) {string : ShortString} {reserve : Except VmError Unit}
    (hs : vm.step hash (.refuse string reserve) = some vm') : Good hash vm' := by
  simp only [step] at hs
  split at hs
  · rename_i previous grown hbegin
    obtain ⟨hsound, hslots, houter, hroom, -, hcapacity⟩ :=
      beginAllocation_spec h.sound h.fits hbegin
    obtain ⟨result, hrestore, hslots', houter', hsound', hfits⟩ :=
      restoreShortStringGrowth_spec hsound hcapacity
    rw [hrestore] at hs
    obtain rfl : result = vm' := Option.some.inj hs
    refine h.of_sound hsound' (houter'.trans houter) (fun _ _ => ?_) fun spare _ _ => hfits spare ?_
    · rw [object?_congr hslots', object?_congr hslots]
    · unfold ShortStringIndex.Fits
      omega
  · cases hs

/-- The allocation starts that a collection will interrupt. -/
theorem Good.start (h : Good hash vm) {string : ShortString} {slot : Nat}
    {reserve : Except VmError Unit} (hs : vm.step hash (.start string slot reserve) = some vm') :
    Good hash vm' := by
  simp only [step] at hs
  split at hs
  · rename_i previous grown houter hbegin
    obtain ⟨⟨ref, published⟩, hpublish, hs⟩ := Option.bind_eq_some_iff.mp hs
    obtain rfl := Option.some.inj hs
    obtain ⟨hsound, -, -, hroom, -, hcapacity⟩ := beginAllocation_spec h.sound h.fits hbegin
    obtain ⟨hindex, -, -, -, hobject⟩ := publish_spec hpublish
    obtain ⟨hsound', -⟩ := publish_sound hsound hpublish
    have hfits : ∀ spare, published.index.Fits spare := by
      intro spare
      rw [hindex]
      unfold ShortStringIndex.Fits
      omega
    refine ⟨hsound', hfits 1, ?_⟩
    rintro allocation ⟨⟩
    refine ⟨⟨_, (hobject ref).trans (if_pos rfl), rfl, ?_⟩, fun _ _ => hfits 0, hcapacity⟩
    rintro stored ⟨⟩
    rfl
  · cases hs

end StringVm

namespace StringVm

variable {hash : List UInt8 → UInt64} {vm vm' : StringVm}

theorem Good.finish (h : Good hash vm) {second : Except VmError Unit}
    (hclean : vm.Clean hash (.finish second)) (hs : vm.step hash (.finish second) = some vm') :
    Good hash vm' := by
  simp only [step] at hs
  obtain ⟨⟨string, previous, previousSlots, object, appended⟩, hallocation, hs⟩ :=
    Option.bind_eq_some_iff.mp hs
  obtain ⟨⟨o, ho, -, hbytes⟩, hroom, hcapacity⟩ := h.pending _ hallocation
  cases string with
  | none =>
    obtain rfl := Option.some.inj hs
    exact ⟨h.sound, h.fits, fun _ hnone => nomatch hnone⟩
  | some string =>
    rcases hresult : indexObject hash { vm with outer := none } string object previousSlots previous
      second with e | result
    · simp only [hresult] at hs
      cases hs
    simp only [hresult] at hs
    obtain rfl : result = vm' := Option.some.inj hs
    obtain ⟨ref, hsome, -⟩ | ⟨-, hfresh⟩ := findShortString_eq h.sound string.bytes
    · rw [hclean _ string hallocation rfl] at hsome
      cases hsome
    have hsound : Sound hash ({ vm with outer := none } : StringVm).object? vm.index := h.sound
    have hroom' : ShortStringIndex.Fits ({ vm with outer := none } : StringVm).index 0 :=
      hroom string rfl
    obtain ⟨hsound, houter, -, hfits, -⟩ :=
      indexObject_spec hsound hroom' ho (hbytes string rfl) hfresh hcapacity hresult
    exact ⟨hsound, hfits, fun allocation hsome => nomatch houter.symm.trans hsome⟩

/-- What a failed allocation drops has no entry. -/
theorem Good.rollbackNewObject (h : Good hash vm) {allocation : Allocation}
    (hallocation : vm.outer = some allocation)
    (hclean : allocation.appended = true → ∀ entry, vm.index.Holds entry →
      entry.object.slot + 1 ≠ vm.slots.length) :
    Sound hash (vm.rollbackNewObject allocation.object.slot allocation.appended).object?
      vm.index := by
  obtain ⟨⟨o, ho, hinterned, -⟩, -, -⟩ := h.pending _ hallocation
  have hlive : ∀ entry, vm.index.Holds entry → vm.object? entry.object ≠ none := by
    intro entry hentry
    obtain ⟨stored, -, hstored, -⟩ := h.sound.stored entry hentry
    simp [hstored]
  cases happended : allocation.appended with
  | true =>
    have hobject : ∀ ref, (vm.rollbackNewObject allocation.object.slot true).object? ref
        = if ref.slot + 1 = vm.slots.length then none else vm.object? ref := object?_dropLast rfl
    refine h.sound.reobject (fun entry hentry => ?_) fun ref stored hstored _ => ?_
    · rw [hobject, if_neg (hclean happended entry hentry)]
    · rw [hobject] at hstored
      split at hstored
      · cases hstored
      · exact hstored
  | false =>
    have hobject : ∀ ref, (vm.rollbackNewObject allocation.object.slot false).object? ref
        = if ref.slot = allocation.object.slot then none else vm.object? ref :=
      object?_set_none rfl
    refine h.sound.reobject (fun entry hentry => ?_) fun ref stored hstored _ => ?_
    · rw [hobject, if_neg fun hslot => ?_]
      obtain ⟨stored, -, hstored, -⟩ := h.sound.stored entry hentry
      have hself := object?_slot_inj hstored ho hslot
      rw [hself] at hstored
      have hheld := h.sound.interned_of_holds hentry (o := o) (hself ▸ ho)
      rw [hinterned] at hheld
      cases hheld
    · rw [hobject] at hstored
      split at hstored
      · cases hstored
      · exact hstored

theorem Good.abort (h : Good hash vm) (hclean : vm.Clean hash .abort)
    (hs : vm.step hash .abort = some vm') : Good hash vm' := by
  simp only [step] at hs
  obtain ⟨allocation, hallocation, hs⟩ := Option.bind_eq_some_iff.mp hs
  have hsound := h.rollbackNewObject hallocation fun happended entry ⟨i, hi⟩ =>
    hclean allocation hallocation happended i entry hi
  -- the allocation is over before the index is restored
  let dropped : StringVm :=
    { vm with outer := none }.rollbackNewObject allocation.object.slot allocation.appended
  obtain ⟨result, hrestore, -, houter, hsound', hfits⟩ :=
    @restoreShortStringGrowth_spec _ dropped hsound _ (h.pending _ hallocation).capacity
  rw [hrestore] at hs
  obtain rfl : result = vm' := Option.some.inj hs
  exact ⟨hsound', hfits 1 h.fits, fun allocation hsome => nomatch houter.symm.trans hsome⟩

theorem Good.other (h : Good hash vm) {slot : Nat} {bytes : Option (List UInt8)}
    (hs : vm.step hash (.other slot bytes) = some vm') : Good hash vm' := by
  obtain ⟨⟨ref, published⟩, hpublish, rfl⟩ := Option.map_eq_some_iff.mp hs
  obtain ⟨hindex, houter, -, -, -⟩ := publish_spec hpublish
  obtain ⟨hsound, hold⟩ := publish_sound h.sound hpublish
  refine h.of_sound hsound houter (fun allocation hallocation => hold _ ?_) fun _ _ hfits =>
    hindex ▸ hfits
  obtain ⟨⟨o, ho, -⟩, -, -⟩ := h.pending _ hallocation
  simp [ho]

theorem Good.startOther (h : Good hash vm) {slot : Nat} {bytes : Option (List UInt8)}
    (hs : vm.step hash (.startOther slot bytes) = some vm') : Good hash vm' := by
  simp only [step] at hs
  split at hs
  · cases hs
  · obtain ⟨⟨ref, published⟩, hpublish, hs⟩ := Option.bind_eq_some_iff.mp hs
    obtain rfl := Option.some.inj hs
    obtain ⟨hindex, -, -, -, hobject⟩ := publish_spec hpublish
    obtain ⟨hsound, -⟩ := publish_sound h.sound hpublish
    refine ⟨hsound, hindex ▸ h.fits, ?_⟩
    rintro allocation ⟨⟩
    exact ⟨⟨_, (hobject ref).trans (if_pos rfl), rfl, (fun _ hnone => nomatch hnone)⟩,
      (fun _ hnone => nomatch hnone), (fun _ hnone => nomatch hnone)⟩

theorem Good.reclaim (h : Good hash vm) {ref : StringRef} (hpossible : vm.Possible (.reclaim ref))
    (hs : vm.step hash (.reclaim ref) = some vm') : Good hash vm' := by
  simp only [step] at hs
  rcases hresult : vm.reclaim hash ref with e | result
  · rw [hresult] at hs
    cases hs
  rw [hresult] at hs
  obtain rfl : result = vm' := Option.some.inj hs
  obtain ⟨o, ho, -⟩ := reclaim_eq_ok hresult
  obtain ⟨hsound, hkeeps, -⟩ := reclaim_spec h.sound hresult
  exact h.of_keeps hsound hkeeps ho hpossible

theorem Good.undo (h : Good hash vm) {ref : StringRef} {previousSlots : Nat}
    {previous : Option ShortStringIndex} (hpossible : vm.Possible (.undo ref previousSlots previous))
    (hs : vm.step hash (.undo ref previousSlots previous) = some vm') : Good hash vm' := by
  simp only [step] at hs
  rcases hresult : vm.undo hash ref previousSlots previous with e | result
  · rw [hresult] at hs
    cases hs
  rw [hresult] at hs
  obtain rfl : result = vm' := Option.some.inj hs
  obtain ⟨hsound, hkeeps⟩ := undo_spec h.sound hpossible.2 hresult
  -- the object was read before it was taken back
  obtain ⟨o, ho⟩ : ∃ o, vm.object? ref = some o := by
    unfold StringVm.undo rollbackUnpublishedCreatedObject at hresult
    obtain ⟨mid, hmid, -⟩ := Check.bind_eq_ok.mp hresult
    obtain ⟨-, -, hmid⟩ := Check.bind_eq_ok.mp hmid
    obtain ⟨mid', hreclaim, -⟩ := Check.bind_eq_ok.mp hmid
    obtain ⟨o, ho, -⟩ := reclaim_eq_ok hreclaim
    exact ⟨o, ho⟩
  exact h.of_keeps hsound hkeeps ho hpossible.1

/-- Each step that is clean keeps the invariant. -/
theorem Good.step (h : Good hash vm) {action : Action} (hpossible : vm.Possible action)
    (hclean : vm.Clean hash action) (hs : vm.step hash action = some vm') : Good hash vm' := by
  cases action with
  | allocate string slot reserve second => exact h.allocate hs
  | refuse string reserve => exact h.refuse hs
  | start string slot reserve => exact h.start hs
  | finish second => exact h.finish hclean hs
  | abort => exact h.abort hclean hs
  | other slot bytes => exact h.other hs
  | startOther slot bytes => exact h.startOther hs
  | reclaim ref => exact h.reclaim hpossible hs
  | undo ref previousSlots previous => exact h.undo hpossible hs

theorem Good.interning (h : Good hash vm) : Interning hash vm := by
  have hcontent : ∀ i entry, bucket vm.index.buckets i = .occupied entry →
      ∃ bytes, Objects.content vm.object? entry.object = some bytes
        ∧ bytes.length ≤ maxShortStringLen ∧ hash bytes = entry.hash := by
    intro i entry hi
    obtain ⟨o, bytes, ho, -, hbytes, hshort, hhash⟩ := h.sound.stored entry ⟨i, hi⟩
    exact ⟨bytes, by simp [Objects.content, ho, hbytes], hshort, hhash⟩
  have hroom : ∀ {index : ShortStringIndex}, index.Wf → index.used < index.buckets.length →
      ∀ h ref, (index.insert h ref).isOk = true := by
    intro index hwf hlt stored ref
    obtain ⟨t, -, hinsert⟩ := hwf.insert_eq hlt stored ref
    rw [hinsert]
    rfl
  constructor
  case unique =>
    intro i j a b hi hj hab
    obtain ⟨bytes, hbytes, -⟩ := hcontent i a hi
    have hb := byteString_eq_ok.mp (hab.symm.trans (byteString_eq_ok.mpr hbytes))
    obtain rfl := h.sound.unique a b bytes ⟨i, hi⟩ ⟨j, hj⟩ hbytes hb
    exact h.sound.wf.distinct i j a a hi hj rfl
  case resolves =>
    intro i entry hi
    obtain ⟨bytes, hbytes, hshort, hhash⟩ := hcontent i entry hi
    exact ⟨bytes, byteString_eq_ok.mpr hbytes, hshort, hhash⟩
  case found =>
    intro ref o bytes ho hinterned hbytes
    obtain ⟨stored, hentry⟩ := h.sound.indexed ref o ho hinterned
    have hself : Objects.content vm.object? ref = some bytes := by
      simp [Objects.content, ho, hbytes]
    obtain ⟨ref', hfound, hentry', hbytes'⟩ | ⟨-, hnone⟩ := findShortString_eq h.sound bytes
    · have hsame := h.sound.unique _ _ bytes hentry hentry' hself hbytes'
      cases hsame
      exact hfound
    · exact absurd hself (hnone _ hentry)
  case occupied_eq => exact h.sound.wf.occupied_eq
  case deleted_eq => exact h.sound.wf.deleted_eq
  case insert_reserved =>
    intro reserve grown next hreserve
    obtain ⟨hwf, hspare, -⟩ := h.sound.wf.reserveSlot h.fits hreserve
    exact hroom hwf (by omega)
  case insert_pending =>
    intro allocation string hallocation hstring hne
    have hfits : vm.index.used ≤ vm.index.buckets.length / 2 + 0 :=
      (h.pending allocation hallocation).fits string hstring
    have hpos := List.length_pos_iff.mpr hne
    exact hroom h.sound.wf (by omega)

/-! ### Runs -/

/-- Nothing has been allocated. -/
def initial : StringVm := ⟨[], 0, .default, none⟩

theorem good_initial : Good hash initial := by
  have hobject : ∀ ref, initial.object? ref = none := fun ref => by simp [object?, initial]
  refine ⟨⟨ShortStringIndex.wf_default, fun entry hentry => ?_, fun a _ _ hentry => ?_,
    fun ref o ho => ?_⟩, Nat.zero_le _, fun _ hnone => nomatch hnone⟩
  · exact absurd hentry (ShortStringIndex.not_holds_default entry)
  · exact absurd hentry (ShortStringIndex.not_holds_default a)
  · rw [hobject] at ho
    cases ho

/-- A step that is clean. -/
def CleanStep (hash : List UInt8 → UInt64) (vm vm' : StringVm) : Prop :=
  ∃ action, vm.Possible action ∧ vm.Clean hash action ∧ vm.step hash action = some vm'

theorem good_of_run (hrun : ReflTransGen (CleanStep hash) initial vm) : Good hash vm := by
  induction hrun with
  | refl => exact good_initial
  | tail _ hstep ih =>
    obtain ⟨action, hpossible, hclean, hs⟩ := hstep
    exact ih.step hpossible hclean hs

/-- In every run of clean steps, the index has one entry for each content, and each string that
    was interned and is alive is found. -/
theorem interning_of_run (hrun : ReflTransGen (CleanStep hash) initial vm) : Interning hash vm :=
  (good_of_run hrun).interning

end StringVm

namespace StringVm

/-- The string of one byte. -/
def oneByte (byte : UInt8) : ShortString := ⟨[byte], Nat.le_add_left 1 39⟩

/-- The first string is in its slot, and its allocation collects. -/
def nestedStart : StringVm :=
  ⟨[some ⟨0, some [1], false⟩], 1, .ofCapacity 16,
    some ⟨some (oneByte 1), some .default, 0, ⟨0, 0⟩, true⟩⟩

/-- A finalizer has interned the second one. -/
def nestedInner : StringVm :=
  { nestedStart with
    slots := [some ⟨0, some [1], false⟩, some ⟨1, some [2], true⟩]
    nextToken := 2
    index := nestedStart.index.fill 7 ⟨7, ⟨1, 1⟩⟩ }

/-- Both are interned. -/
def nestedEnd : StringVm :=
  { nestedInner with
    slots := [some ⟨0, some [1], true⟩, some ⟨1, some [2], true⟩]
    index := nestedInner.index.fill 8 ⟨7, ⟨0, 0⟩⟩
    outer := none }

/-- A string is interned while the allocation of another one is in progress. -/
theorem interning_of_run_nested : ReflTransGen (CleanStep fun _ => 7) initial nestedEnd
    ∧ nestedEnd.findShortString [1] 7 = .ok (some ⟨0, 0⟩)
    ∧ nestedEnd.findShortString [2] 7 = .ok (some ⟨1, 1⟩) := by
  have hstart : CleanStep (fun _ => 7) initial nestedStart :=
    ⟨.start (oneByte 1) 0 (.ok ()), trivial, trivial, rfl⟩
  have hinner : CleanStep (fun _ => 7) nestedStart nestedInner :=
    ⟨.allocate (oneByte 2) 1 (.ok ()) (.ok ()), trivial, trivial, rfl⟩
  have hend : CleanStep (fun _ => 7) nestedInner nestedEnd := by
    refine ⟨.finish (.ok ()), trivial, ?_, rfl⟩
    rintro allocation string ⟨⟩ ⟨⟩
    rfl
  have hrun : ReflTransGen (CleanStep fun _ => 7) initial nestedEnd :=
    ((ReflTransGen.single hstart).tail hinner).tail hend
  exact ⟨hrun, (interning_of_run hrun).found ⟨0, 0⟩ ⟨0, some [1], true⟩ [1] rfl rfl rfl,
    (interning_of_run hrun).found ⟨1, 1⟩ ⟨1, some [2], true⟩ [2] rfl rfl rfl⟩

/-- Run actions one after another. -/
def runAll (hash : List UInt8 → UInt64) (actions : List Action) (vm : StringVm) : Option StringVm :=
  actions.foldlM (fun vm action => vm.step hash action) vm

/-- A finalizer interns the string that is being allocated: afterwards there are two entries. -/
theorem not_interning_twice : ∃ vm,
    runAll (fun _ => 7) [.start (oneByte 1) 0 (.ok ()), .allocate (oneByte 1) 1 (.ok ()) (.ok ()),
      .finish (.ok ())] initial = some vm ∧ ¬ Interning (fun _ => 7) vm := by
  refine ⟨_, rfl, fun h => ?_⟩
  have hsame := h.unique 7 8 ⟨7, ⟨1, 1⟩⟩ ⟨7, ⟨0, 0⟩⟩ rfl rfl rfl
  cases hsame

end StringVm

end RivetLua.Runtime
