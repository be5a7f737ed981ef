import RivetLua.Stdlib.TableAgreement

namespace RivetLua.Stdlib.Table

open RivetLua.Core Machine Reference

/-!
# Stdlib — the list operations on plain lists

* `Agrees` — where an operation is that of the C code, once the length is known;
* `inserted`, `removed`, `copied` — what the operations do to a plain list;
* `tableOps_follow` — both, for every operation.
-/

/-! ### Plain lists -/

/-- Plain tables answer accesses; they have no metamethods to call. -/
def plain : Question → Store → Value × Store
  | .access request, store => store.answer request
  | .call _ _ _, store => (.nil, store)

/-- A value at `pos`, the elements from there to `n` one up. -/
def inserted (elements : Int → Value) (n pos : Int) (value : Value) (k : Int) : Value :=
  if k < pos ∨ n + 1 < k then elements k
  else if k = pos then value
  else elements (k - 1)

/-- The elements behind `pos` to `n` one down, and none at `n`. -/
def removed (elements : Int → Value) (n pos : Int) (k : Int) : Value :=
  if k < pos ∨ n < k then elements k
  else if k = n then .nil
  else elements (k + 1)

/-- The elements from `f` to `e` at `t`, all at once. -/
def copied (source elements : Int → Value) (f e t : Int) (k : Int) : Value :=
  if t ≤ k ∧ k ≤ t + (e - f) then source (f + (k - t)) else elements k

section Runs

variable (store : Store) (table : ObjectRef)

@[simp] theorem run_geti (index : Int) (next : Value → Program) :
    (geti table index next).run plain store
      = (next (store.element table index)).run plain store := rfl

@[simp] theorem run_seti (index : Int) (value : Value) (next : Program) :
    (seti table index value next).run plain store
      = next.run plain (store.write table index value) := rfl

/-- The elements between `pos` and `i` one up. -/
def shiftedUp (elements : Int → Value) (pos i : Int) (k : Int) : Value :=
  if pos < k ∧ k ≤ i then elements (k - 1) else elements k

theorem insertLoop_run (pos : Int) (next : Program) (i : Int) :
    (insertLoop table pos next i).run plain store
      = next.run plain (store.holding table (shiftedUp (store.element table) pos i)) := by
  induction hleft : (i - pos).toNat generalizing i store with
  | zero =>
    rw [insertLoop, if_neg (by omega)]
    have hsame : shiftedUp (store.element table) pos i = store.element table := by
      funext k
      exact if_neg (by omega)
    rw [hsame, Store.holding_self]
  | succ left ih =>
    rw [insertLoop, if_pos (by omega), run_geti, run_seti, ih _ _ (by omega)]
    have hshift : shiftedUp ((store.write table i (store.element table (i - 1))).element table)
        pos (i - 1) = shiftedUp (store.element table) pos i := by
      funext k
      unfold shiftedUp Store.write
      rw [Store.holding_same]
      by_cases hk : k = i
      · rw [hk, if_neg (by omega), if_pos (by omega), Function.update_self]
      · by_cases hin : pos < k ∧ k ≤ i - 1
        · rw [if_pos hin, if_pos (by omega), Function.update_of_ne (by omega)]
        · rw [if_neg hin, if_neg (by omega), Function.update_of_ne hk]
    rw [hshift, Store.write, Store.holding_holding]

/-- Insertion keeps every element. -/
theorem insert_run {n pos : Int} (hpos : pos ≤ n + 1) (value : Value) :
    (insertLoop table pos (seti table pos value (returned [])) (n + 1)).run plain store
      = (.returned (.values []),
          store.holding table (inserted (store.element table) n pos value)) := by
  rw [insertLoop_run, run_seti, Store.holding_write]
  have hall : Function.update (shiftedUp (store.element table) pos (n + 1)) pos value
      = inserted (store.element table) n pos value := by
    funext k
    unfold inserted
    by_cases hk : k = pos
    · rw [hk, Function.update_self, if_neg (by omega), if_pos rfl]
    · rw [Function.update_of_ne hk, shiftedUp]
      by_cases hout : k < pos ∨ n + 1 < k
      · rw [if_neg (by omega), if_pos hout]
      · rw [if_pos (by omega), if_neg hout, if_neg hk]
  rw [hall]
  rfl

/-- The elements behind `pos` to `n` one down. -/
def shiftedDown (elements : Int → Value) (n pos : Int) (k : Int) : Value :=
  if pos ≤ k ∧ k < n then elements (k + 1) else elements k

theorem removeLoop_run (n : Int) (next : Int → Program) (pos : Int) :
    (removeLoop table n next pos).run plain store
      = (next (max pos n)).run plain
        (store.holding table (shiftedDown (store.element table) n pos)) := by
  induction hleft : (n - pos).toNat generalizing pos store with
  | zero =>
    rw [removeLoop, if_neg (by omega), max_eq_left (by omega)]
    have hsame : shiftedDown (store.element table) n pos = store.element table := by
      funext k
      exact if_neg (by omega)
    rw [hsame, Store.holding_self]
  | succ left ih =>
    rw [removeLoop, if_pos (by omega), run_geti, run_seti, ih _ _ (by omega),
      max_eq_right (by omega), max_eq_right (by omega)]
    have hshift : shiftedDown ((store.write table pos (store.element table (pos + 1))).element
        table) n (pos + 1) = shiftedDown (store.element table) n pos := by
      funext k
      unfold shiftedDown Store.write
      rw [Store.holding_same]
      by_cases hk : k = pos
      · rw [hk, if_neg (by omega), if_pos (by omega), Function.update_self]
      · by_cases hin : pos + 1 ≤ k ∧ k < n
        · rw [if_pos hin, if_pos (by omega), Function.update_of_ne (by omega)]
        · rw [if_neg hin, if_neg (by omega), Function.update_of_ne hk]
    rw [hshift, Store.write, Store.holding_holding]

/-- Removal returns the element and keeps the others. -/
theorem remove_run {n pos : Int} (hpos : pos ≤ n) :
    (geti table pos fun result =>
        removeLoop table n (fun pos => seti table pos .nil (returned [result])) pos).run plain
        store
      = (.returned (.values [store.element table pos]),
          store.holding table (removed (store.element table) n pos)) := by
  rw [run_geti, removeLoop_run, run_seti, Store.holding_write, max_eq_right hpos]
  have hall : Function.update (shiftedDown (store.element table) n pos) n .nil
      = removed (store.element table) n pos := by
    funext k
    unfold removed
    by_cases hk : k = n
    · rw [hk, Function.update_self, if_neg (by omega), if_pos rfl]
    · rw [Function.update_of_ne hk, shiftedDown]
      by_cases hout : k < pos ∨ n < k
      · rw [if_neg (by omega), if_pos hout]
      · rw [if_pos (by omega), if_neg hout, if_neg hk]
  rw [hall]
  rfl

/-- The elements at the offsets from `lo` to below `hi`, all at once. -/
def copiedPart (source elements : Int → Value) (f t lo hi : Int) (k : Int) : Value :=
  if t + lo ≤ k ∧ k < t + hi then source (f + (k - t)) else elements k

theorem copiedPart_all (source elements : Int → Value) (f e t : Int) :
    copiedPart source elements f t 0 (e - f + 1) = copied source elements f e t := by
  funext k
  unfold copiedPart copied
  by_cases hin : t ≤ k ∧ k ≤ t + (e - f)
  · rw [if_pos (by omega), if_pos hin]
  · rw [if_neg (by omega), if_neg hin]

theorem copiedPart_empty (source elements : Int → Value) (f t : Int) {lo hi : Int} (h : hi ≤ lo) :
    copiedPart source elements f t lo hi = elements := by
  funext k
  exact if_neg (by omega)

variable {source destination : ObjectRef}

/-- One element is copied, and the elements yet to be read are not written. -/
theorem copiedPart_write {f t lo hi i : Int} (hi' : lo ≤ i ∧ i < hi)
    (hedge : i = lo ∨ i = hi - 1)
    (hfree : source ≠ destination ∨ ∀ m, lo ≤ m → m < hi → m ≠ i → f + m ≠ t + i) :
    copiedPart ((store.write destination (t + i) (store.element source (f + i))).element source)
        ((store.write destination (t + i) (store.element source (f + i))).element destination)
        f t (if i = lo then lo + 1 else lo) (if i = lo then hi else hi - 1)
      = copiedPart (store.element source) (store.element destination) f t lo hi := by
  funext k
  unfold copiedPart Store.write
  rw [Store.holding_same]
  by_cases hk : k = t + i
  · rw [hk, Function.update_self, if_neg (by split <;> omega), if_pos (by omega)]
    congr 1
    omega
  · rw [Function.update_of_ne hk]
    by_cases hin : t + lo ≤ k ∧ k < t + hi
    · rw [if_pos hin, if_pos (by split <;> omega)]
      by_cases hsame : source = destination
      · subst hsame
        have hne := hfree.resolve_left (fun h => h rfl) (k - t) (by omega) (by omega) (by omega)
        rw [Store.holding_same, Function.update_of_ne hne]
      · rw [Store.holding_other _ _ _ hsame]
    · rw [if_neg hin, if_neg (by split <;> omega)]

theorem forwardLoop_run {f t n : Int} (next : Program) {i : Int} (hi : 0 ≤ i)
    (hfree : source ≠ destination ∨ t ≤ f ∨ f + n ≤ t) :
    (forwardLoop source destination f t n next i).run plain store
      = next.run plain (store.holding destination
        (copiedPart (store.element source) (store.element destination) f t i n)) := by
  induction hleft : (n - i).toNat generalizing i store with
  | zero =>
    rw [forwardLoop, if_neg (by omega), copiedPart_empty _ _ _ _ (by omega), Store.holding_self]
  | succ left ih =>
    rw [forwardLoop, if_pos (by omega), run_geti, run_seti, ih _ (by omega) (by omega)]
    have hwrite := @copiedPart_write store source destination f t i n i ⟨le_refl i, by omega⟩
      (.inl rfl) (hfree.imp id fun h m hm hmn hne => by omega)
    rw [if_pos rfl, if_pos rfl] at hwrite
    rw [hwrite, Store.write, Store.holding_holding]

theorem backwardLoop_run {f t : Int} (next : Program) {i : Int}
    (hfree : source ≠ destination ∨ f < t) :
    (backwardLoop source destination f t next i).run plain store
      = next.run plain (store.holding destination
        (copiedPart (store.element source) (store.element destination) f t 0 (i + 1))) := by
  induction hleft : (i + 1).toNat generalizing i store with
  | zero =>
    rw [backwardLoop, if_neg (by omega), copiedPart_empty _ _ _ _ (by omega), Store.holding_self]
  | succ left ih =>
    rw [backwardLoop, if_pos (by omega), run_geti, run_seti, ih _ (by omega), sub_add_cancel]
    have hwrite := @copiedPart_write store source destination f t 0 (i + 1) i (by omega)
      (by omega) (hfree.imp id fun h m hm hmn hne => by omega)
    by_cases hlast : i = 0
    · have hstart : (if i = 0 then (0 : Int) + 1 else 0) = 1 := if_pos hlast
      rw [hstart, if_pos hlast, hlast] at hwrite
      rw [hlast, copiedPart_empty _ _ _ _ (le_refl 0)]
      rw [copiedPart_empty _ _ _ _ (by omega)] at hwrite
      rw [hwrite, Store.write, Store.holding_holding]
    · rw [if_neg hlast, if_neg hlast, add_sub_cancel_right] at hwrite
      rw [hwrite, Store.write, Store.holding_holding]

/-- Moving is a copy of all elements at once, whatever the ranges. -/
theorem moveElements_run (host : Host) (tt : Option ObjectRef) (f e t : Int) :
    (moveElements host table tt f e t).run plain store
      = (.returned (.values [.object (tt.getD table)]), store.holding (tt.getD table)
        (copied (store.element table) (store.element (tt.getD table)) f e t)) := by
  have hforward : ∀ destination, table ≠ destination ∨ t ≤ f ∨ f + (e - f + 1) ≤ t →
      (forwardLoop table destination f t (e - f + 1) (returned [.object destination]) 0).run plain
        store = (.returned (.values [.object destination]), store.holding destination
          (copied (store.element table) (store.element destination) f e t)) := by
    intro destination hfree
    rw [forwardLoop_run _ _ (le_refl 0) hfree, copiedPart_all]
    rfl
  have hbackward : ∀ destination, f < t →
      (backwardLoop table destination f t (returned [.object destination])
        (e - f + 1 - 1)).run plain store
        = (.returned (.values [.object destination]), store.holding destination
          (copied (store.element table) (store.element destination) f e t)) := by
    intro destination hfree
    rw [backwardLoop_run _ _ (.inr hfree), sub_add_cancel, copiedPart_all]
    rfl
  unfold moveElements
  by_cases hways : t > e ∨ t ≤ f
  · simp only [if_pos hways]
    exact hforward _ (by omega)
  · simp only [if_neg hways]
    cases tt with
    | none => exact hbackward table (by omega)
    | some o =>
      simp only [compareEq]
      by_cases hsame : table = o
      · rw [if_pos hsame, if_pos trivial]
        exact hbackward o (by omega)
      · rw [if_neg hsame]
        by_cases hevent : host.binaryEvent .eq (.object table) (.object o) = .nil
        · rw [if_pos hevent, if_neg Bool.false_ne_true]
          exact hforward o (.inl hsame)
        · rw [if_neg hevent]
          -- a plain table answers nil, and the tables are not equal
          exact hforward o (.inl hsame)

end Runs

/-! ### Against the C code -/

/-- The continuation once the length has been answered. -/
def afterLength (n : Int64) : Program → Program
  | .ask (.access (.length _)) next => next (.integer n)
  | d => d

/-- Where an operation does what the C function does, with the length `n`.  For lengths of lists it
    always does.  Past a negative length, and where the place behind the list wraps around to a
    negative one, the C code lets positions through that the machine rejects. -/
def Agrees (host : Host) (kind : TableBuiltin) (args : List Value) (n : Int) : Prop :=
  match kind with
  | .insert =>
    match args.length with
    | 2 => 0 ≤ n ∧ n + 1 < 2 ^ 63
    | 3 => ∀ pos, host.tableInteger (args.getD 1 .nil) = .ok pos →
      (0 ≤ n ∧ n + 1 < 2 ^ 63) ∨ n = -1 ∨ (intop (n + 1) < pos ∧ pos ≤ 0)
    | _ => True
  | .remove => ∀ pos, TableOpState.optionalInteger host (args.getD 1 .nil) n = .ok pos →
    pos = n ∨ (0 ≤ n ∧ (1 ≤ pos ∨ n + 1 < 2 ^ 63)) ∨ (intop (n + 1) < pos ∧ pos ≤ 0)
  | _ => True

section Reference

variable {host : Host} {table : ObjectRef} {args : List Value}

theorem intop_of_lt {n : Int} (h : -2 ^ 63 ≤ n ∧ n < 2 ^ 63) : intop n = n := by
  unfold intop
  rw [Int.bmod_eq_of_le] <;> omega

theorem intop_top : intop (2 ^ 63) = -2 ^ 63 := by decide

/-- The place behind the list, where a list of this length has one. -/
theorem intop_cases {n : Int} (h : -2 ^ 63 ≤ n ∧ n < 2 ^ 63) :
    (n + 1 < 2 ^ 63 ∧ intop (n + 1) = n + 1) ∨ (n + 1 = 2 ^ 63 ∧ intop (n + 1) = -2 ^ 63) := by
  by_cases hlt : n + 1 < 2 ^ 63
  · exact .inl ⟨hlt, intop_of_lt ⟨by omega, hlt⟩⟩
  · have htop : n + 1 = 2 ^ 63 := by omega
    exact .inr ⟨htop, by rw [htop, intop_top]⟩

/-- The unsigned check of `insert`. -/
theorem insert_check_iff {n pos : Int} (hn : -2 ^ 63 ≤ n ∧ n < 2 ^ 63)
    (hpos : -2 ^ 63 ≤ pos ∧ pos < 2 ^ 63) :
    unsigned (pos - 1) < unsigned (intop (n + 1))
      ↔ (0 ≤ n ∧ n + 1 < 2 ^ 63 ∧ 1 ≤ pos ∧ pos ≤ n + 1)
        ∨ ((n < -1 ∨ n + 1 = 2 ^ 63) ∧ (1 ≤ pos ∨ pos ≤ intop (n + 1))) := by
  unfold unsigned
  rcases intop_cases hn with ⟨hlt, h⟩ | ⟨htop, h⟩ <;> rw [h] <;> omega

/-- The unsigned check of `remove`. -/
theorem remove_check_iff {n pos : Int} (hn : -2 ^ 63 ≤ n ∧ n < 2 ^ 63)
    (hpos : -2 ^ 63 ≤ pos ∧ pos < 2 ^ 63) :
    unsigned (pos - 1) ≤ unsigned n
      ↔ (0 ≤ n ∧ 1 ≤ pos ∧ pos ≤ n + 1)
        ∨ ((n < 0 ∨ n + 1 = 2 ^ 63) ∧ (1 ≤ pos ∨ pos ≤ intop (n + 1))) := by
  unfold unsigned
  rcases intop_cases hn with ⟨hlt, h⟩ | ⟨htop, h⟩ <;> rw [h] <;> omega

/-- Two checks in front of the same program agree where they accept the same. -/
theorem argcheck_eq_iff {c c' : Prop} [Decidable c] [Decidable c'] {d : Program}
    (h : d ≠ rejected) : argcheck c d = argcheck c' d ↔ (c ↔ c') := by
  unfold argcheck
  by_cases hc : c <;> by_cases hc' : c'
  · simp [hc, hc']
  · simp [hc, hc', h]
  · simp [hc, hc', h.symm]
  · simp [hc, hc']

theorem insertLoop_ne_rejected (pos : Int) (value : Value) (next : Program) (i : Int) :
    insertLoop table pos (seti table pos value next) i ≠ rejected := by
  intro h
  rw [insertLoop] at h
  split at h <;> cases h

theorem insertAfter_two (h : args.length = 2) (n : Int) :
    insertAfter host table args n = argcheck (n + 1 < 2 ^ 63 ∧ 0 ≤ n)
      (seti table (n + 1) (args.getD 1 .nil) (returned [])) := by
  unfold insertAfter argcheck
  rw [h, ite_and]
  rfl

theorem insertAfter_three (h : args.length = 3) (n : Int) :
    insertAfter host table args n = checkinteger host (args.getD 1 .nil) fun pos =>
      argcheck (n + 1 < 2 ^ 63 ∧ 1 ≤ pos ∧ pos ≤ n + 1)
        (insertLoop table pos (seti table pos (args.getD 2 .nil) (returned [])) (n + 1)) := by
  unfold insertAfter
  rw [h]
  by_cases hlt : n + 1 < 2 ^ 63
  · simp only [hlt, true_and]
    rfl
  · simp only [hlt, false_and, argcheck, if_false]
    unfold checkinteger
    split <;> rfl

theorem insertFrom_two (h : args.length = 2) (n : Int) :
    insertFrom host table args n
      = seti table (intop (n + 1)) (args.getD 1 .nil) (returned []) := by
  unfold insertFrom
  rw [h]
  rfl

theorem insertFrom_three (h : args.length = 3) (n : Int) :
    insertFrom host table args n = checkinteger host (args.getD 1 .nil) fun pos =>
      argcheck (unsigned (pos - 1) < unsigned (intop (n + 1)))
        (insertLoop table pos (seti table pos (args.getD 2 .nil) (returned []))
          (intop (n + 1))) := by
  unfold insertFrom
  rw [h]
  rfl

/-- `insert` agrees with the C function where `Agrees` says, and rejects elsewhere. -/
theorem insert_agrees_iff {n : Int} (hn : -2 ^ 63 ≤ n ∧ n < 2 ^ 63) :
    (insertAfter host table args n = insertFrom host table args n ↔ Agrees host .insert args n)
      ∧ (¬ Agrees host .insert args n → insertAfter host table args n = rejected) := by
  match hcount : args.length with
  | 2 =>
    have hagrees : Agrees host .insert args n ↔ 0 ≤ n ∧ n + 1 < 2 ^ 63 := by
      unfold Agrees
      rw [hcount]
      rfl
    rw [insertAfter_two hcount, insertFrom_two hcount, hagrees, argcheck]
    by_cases hlist : 0 ≤ n ∧ n + 1 < 2 ^ 63
    · rw [if_pos hlist.symm, intop_of_lt (by omega)]
      exact ⟨iff_of_true rfl hlist, absurd hlist⟩
    · rw [if_neg fun h => hlist h.symm]
      exact ⟨iff_of_false (fun h => by cases h) hlist, fun _ => rfl⟩
  | 3 =>
    have hagrees : Agrees host .insert args n ↔ ∀ pos,
        host.tableInteger (args.getD 1 .nil) = .ok pos →
          (0 ≤ n ∧ n + 1 < 2 ^ 63) ∨ n = -1 ∨ (intop (n + 1) < pos ∧ pos ≤ 0) := by
      unfold Agrees
      rw [hcount]
      rfl
    rw [insertAfter_three hcount, insertFrom_three hcount, hagrees]
    cases hpos : host.tableInteger (args.getD 1 .nil) with
    | error error =>
      rw [checkinteger_error hpos, checkinteger_error hpos]
      exact ⟨iff_of_true rfl (fun pos h => by cases h), fun _ => rfl⟩
    | ok pos =>
      have hone : (∀ p, (.ok pos : Except TableError Int) = .ok p →
          (0 ≤ n ∧ n + 1 < 2 ^ 63) ∨ n = -1 ∨ (intop (n + 1) < p ∧ p ≤ 0))
          ↔ ((0 ≤ n ∧ n + 1 < 2 ^ 63) ∨ n = -1 ∨ (intop (n + 1) < pos ∧ pos ≤ 0)) := by
        constructor
        · exact fun h => h pos rfl
        · rintro h p ⟨⟩
          exact h
      rw [checkinteger_ok hpos, checkinteger_ok hpos, hone]
      have hcheck := insert_check_iff hn (Host.tableInteger_range hpos)
      have hcases := intop_cases hn
      -- where the machine goes on the place behind the list has not wrapped around
      have hsame : ∀ next : Int → Program,
          argcheck (n + 1 < 2 ^ 63 ∧ 1 ≤ pos ∧ pos ≤ n + 1) (next (n + 1))
            = argcheck (n + 1 < 2 ^ 63 ∧ 1 ≤ pos ∧ pos ≤ n + 1) (next (intop (n + 1))) := by
        intro next
        unfold argcheck
        by_cases hin : n + 1 < 2 ^ 63 ∧ 1 ≤ pos ∧ pos ≤ n + 1
        · rw [intop_of_lt (by omega)]
        · rw [if_neg hin, if_neg hin]
      rw [hsame fun i => insertLoop table pos (seti table pos (args.getD 2 .nil) (returned [])) i,
        argcheck_eq_iff (insertLoop_ne_rejected _ _ _ _), hcheck]
      refine ⟨by omega, fun hnot => ?_⟩
      exact if_neg (by omega)
  | 0 | 1 | count + 4 =>
    have hrejected : insertAfter host table args n = rejected := by
      unfold insertAfter
      rw [hcount]
      exact ite_self rejected
    have hreference : insertFrom host table args n = rejected := by
      unfold insertFrom
      rw [hcount]
      rfl
    have hagrees : Agrees host .insert args n := by
      unfold Agrees
      rw [hcount]
      trivial
    rw [hrejected, hreference]
    exact ⟨iff_of_true rfl hagrees, fun _ => rfl⟩

/-- `remove` agrees with the C function where `Agrees` says, and rejects elsewhere. -/
theorem remove_agrees_iff {n : Int} (hn : -2 ^ 63 ≤ n ∧ n < 2 ^ 63) :
    (removeAfter host table args n = removeFrom host table args n ↔ Agrees host .remove args n)
      ∧ (¬ Agrees host .remove args n → removeAfter host table args n = rejected) := by
  unfold removeAfter removeFrom Agrees
  cases optional host (args.getD 1 .nil) n with
  | error hpos hreference =>
    rw [hreference, hreference]
    refine ⟨iff_of_true rfl fun pos h => ?_, fun _ => rfl⟩
    rw [hpos] at h
    cases h
  | ok pos hpos hreference hrange =>
    have hone : (∀ p, TableOpState.optionalInteger host (args.getD 1 .nil) n = .ok p →
        p = n ∨ (0 ≤ n ∧ (1 ≤ p ∨ n + 1 < 2 ^ 63)) ∨ (intop (n + 1) < p ∧ p ≤ 0))
        ↔ (pos = n ∨ (0 ≤ n ∧ (1 ≤ pos ∨ n + 1 < 2 ^ 63)) ∨ (intop (n + 1) < pos ∧ pos ≤ 0)) := by
      rw [hpos]
      constructor
      · exact fun h => h pos rfl
      · rintro h p ⟨⟩
        exact h
    rw [hreference, hreference]
    show _ ∧ (¬ (∀ p, _ → _) → _)
    rw [hone, argcheck_eq_iff (fun h => by cases h), remove_check_iff hn (hrange hn)]
    have hcases := intop_cases hn
    refine ⟨by omega, fun hnot => ?_⟩
    exact if_neg (by omega)

end Reference

/-! ### Every operation -/

/-- The effect of an operation on plain lists: the outcome and the tables afterwards. -/
def Effect (host : Host) (kind : TableBuiltin) (table : ObjectRef) (args : List Value)
    (store : Store) (result : Outcome × Store) : Prop :=
  let elements := store.element table
  let n := (store.border table).toInt
  match kind with
  | .insert => 0 ≤ n → n + 1 < 2 ^ 63 →
    (args.length = 2 → result = (.returned (.values []),
        store.holding table (inserted elements n (n + 1) (args.getD 1 .nil))))
      ∧ (args.length = 3 → ∀ pos, host.tableInteger (args.getD 1 .nil) = .ok pos →
        1 ≤ pos → pos ≤ n + 1 → result = (.returned (.values []),
          store.holding table (inserted elements n pos (args.getD 2 .nil))))
  | .remove => ∀ pos, TableOpState.optionalInteger host (args.getD 1 .nil) n = .ok pos →
    1 ≤ pos → pos ≤ n → result = (.returned (.values [elements pos]),
      store.holding table (removed elements n pos))
  | .move => ∀ f e t tt, host.tableInteger (args.getD 1 .nil) = .ok f →
    host.tableInteger (args.getD 2 .nil) = .ok e → host.tableInteger (args.getD 3 .nil) = .ok t →
    (∀ next, checkDestination host (args.getD 4 .nil) next = next tt) →
    f ≤ e → e - f + 1 < 2 ^ 63 → t + (e - f) < 2 ^ 63 →
    result = (.returned (.values [.object (tt.getD table)]), store.holding (tt.getD table)
      (copied elements (store.element (tt.getD table)) f e t))
  | _ => True

section Effects

variable {host : Host} {table : ObjectRef} {args : List Value} {store : Store}

/-- A plain table is asked for its length. -/
theorem run_len (next : Int → Program) :
    (len host table next).run plain store = (next (store.border table).toInt).run plain store := by
  show (checkinteger host (.integer (store.border table)) next).run plain store = _
  rw [checkinteger_ok (Host.tableInteger_integer ..)]

theorem insert_effect : Effect host .insert table args store
    ((len host table fun n => insertAfter host table args n).run plain store) := by
  intro hn hlt
  rw [run_len]
  refine ⟨fun hcount => ?_, fun hcount pos hpos hlower hupper => ?_⟩
  · rw [insertAfter_two hcount, argcheck, if_pos ⟨hlt, hn⟩]
    have hrun := insert_run store table (n := (store.border table).toInt) (le_refl _)
      (args.getD 1 .nil)
    rw [insertLoop, if_neg (lt_irrefl _)] at hrun
    exact hrun
  · rw [insertAfter_three hcount, checkinteger_ok hpos, argcheck, if_pos ⟨hlt, hlower, hupper⟩]
    exact insert_run store table hupper _

theorem remove_effect : Effect host .remove table args store
    ((len host table fun n => removeAfter host table args n).run plain store) := by
  intro pos hpos hlower hupper
  rw [run_len, removeAfter]
  cases optional host (args.getD 1 .nil) (store.border table).toInt with
  | error hpos' _ =>
    rw [hpos'] at hpos
    cases hpos
  | ok p hpos' hreference _ =>
    rw [hpos'] at hpos
    cases hpos
    rw [hreference, argcheck, if_pos (by omega)]
    exact remove_run store table hupper

theorem move_effect : Effect host .move table args store
    ((tmove host table args).run plain store) := by
  intro f e t tt hf he ht htt hordered hcount hwrap
  have hf' := Host.tableInteger_range hf
  have he' := Host.tableInteger_range he
  rw [tmove, checkinteger_ok hf, checkinteger_ok he, checkinteger_ok ht, htt, if_pos hordered,
    argcheck, if_pos (by omega), argcheck, if_pos (by omega)]
  exact moveElements_run store table host tt f e t

end Effects

/-- **The list operations follow `ltablib.c`.**  Every operation has a dialogue.  With any length
    the rest of it is that of the C function, with room for 65535 results, exactly where `Agrees`
    says, and elsewhere the operation is rejected before an element is touched.  On plain lists
    `insert` and `remove` keep every element, and `move` is a copy of all elements at once. -/
theorem tableOps_follow (host : Host) (kind : TableBuiltin) (table : ObjectRef)
    (args : List Value) :
    ∃ d, Plays (tableOpStep host) (.new kind table args) none d
      ∧ (∀ n : Int64,
        (afterLength n d = afterLength n (perform host unpackRoom kind table args)
          ↔ Agrees host kind args n.toInt)
        ∧ (¬ Agrees host kind args n.toInt → afterLength n d = rejected))
      ∧ ∀ store, Effect host kind table args store (d.run plain store) := by
  have hrange : ∀ n : Int64, -2 ^ 63 ≤ n.toInt ∧ n.toInt < 2 ^ 63 :=
    fun n => ⟨Int64.le_toInt n, Int64.toInt_lt n⟩
  cases kind with
  | concat =>
    exact ⟨_, concat_plays table args, fun n => ⟨iff_of_true rfl trivial, absurd trivial⟩,
      fun _ => trivial⟩
  | unpack =>
    exact ⟨_, unpack_plays table args, fun n => ⟨iff_of_true rfl trivial, absurd trivial⟩,
      fun _ => trivial⟩
  | move =>
    exact ⟨_, move_plays table args, fun n => ⟨iff_of_true rfl trivial, absurd trivial⟩,
      fun _ => move_effect⟩
  | insert => exact ⟨_, insert_plays table args, fun n => insert_agrees_iff (hrange n),
      fun _ => insert_effect⟩
  | remove => exact ⟨_, remove_plays table args, fun n => remove_agrees_iff (hrange n),
      fun _ => remove_effect⟩
  | create | pack | sort =>
    have herror : ∀ kind, kind = .create ∨ kind = .pack ∨ kind = .sort →
        TableOpState.advance host (.new kind table args) none = .error .argument := by
      rintro kind (rfl | rfl | rfl) <;> rfl
    exact ⟨_, plays_error (herror _ (by decide)), fun n => ⟨iff_of_true rfl trivial,
      absurd trivial⟩, fun _ => trivial⟩

/-- `table.insert(t, 7)` where `#t` is -1: the C code writes `t[0]`, the machine rejects the
    position that it has chosen itself. -/
theorem insert_negative_length :
    ∃ d, Plays (tableOpStep .sample) (.new .insert (.opaqueId 0) [.object (.opaqueId 0), .integer 7])
        none d
      ∧ afterLength (-1) d = rejected
      ∧ afterLength (-1) (perform .sample unpackRoom .insert (.opaqueId 0)
          [.object (.opaqueId 0), .integer 7]) = seti (.opaqueId 0) 0 (.integer 7) (returned [])
      ∧ afterLength (-1) d ≠ afterLength (-1) (perform .sample unpackRoom .insert (.opaqueId 0)
          [.object (.opaqueId 0), .integer 7]) := by
  refine ⟨_, insert_plays _ _, rfl, rfl, fun h => ?_⟩
  cases h

end RivetLua.Stdlib.Table
