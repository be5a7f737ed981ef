import RivetLua.Lib.StableOrder
import RivetLua.Stdlib.TableSort

namespace RivetLua.Stdlib.Table

open RivetLua.Core Machine StableOrder

/-!
# Stdlib — the invariant of `table.sort`

The invariant has one case for each step of the machine; it holds the table against the elements
at the beginning, by a permutation of the positions.

* `Setting`, `SortInv` — the sort that is watched, and the invariant;
* `Standing.swaps_le`, `Standing.counters` — the bounds the cursors give;
* `SortRun.measure` — the moves a sort has left;
* `Standing.advance_compareStart`, … — what the machine does where the invariant holds.
-/

/-! ### Setting -/

/-- What is fixed in a run: the table, the comparator, the tables at the beginning, and which
    answers may be given.  `lt` is the order they may come from. -/
structure Setting where
  table : ObjectRef
  comparator : Option Value
  store : Store
  Answers : Value → Value → Value → Prop
  lt : Value → Value → Prop

namespace Setting

variable (g : Setting)

/-- The number of elements. -/
def n : Int := (g.store.border g.table).toInt

/-- The elements at the beginning. -/
def elements : Int → Value := g.store.element g.table

/-- The tables, with these elements in the one that is sorted. -/
def holding (elements : Int → Value) : Store := g.store.holding g.table elements

/-- The answers are those of a strict weak order. -/
def Orderly : Prop :=
  IsStrictWeakOrder Value g.lt
    ∧ ∀ left right value, g.Answers left right value → (isTruthy value = true ↔ g.lt left right)

@[simp] theorem holding_elements : g.holding g.elements = g.store := g.store.holding_self g.table

@[simp] theorem holding_element (elements : Int → Value) :
    (g.holding elements).element g.table = elements := g.store.holding_same g.table elements

@[simp] theorem holding_write (elements : Int → Value) (k : Int) (value : Value) :
    (g.holding elements).write g.table k value
      = g.holding (Function.update elements k value) :=
  g.store.holding_write g.table elements k value

end Setting

/-! ### Invariant -/

/-- Comparisons made for an exchange that is not done, or for an element that is not settled. -/
def pending : SortPhase → SortStep → Int
  | .forward, .awaitCompare => 1
  | .forward, _ => 0
  | .reverse, .compareStart | .reverse, .compare => 1
  | .reverse, _ => 2

/-- The cursors are within the list, the counters within what the cursors say, and the elements are
    those of the beginning in another order. -/
structure Standing (g : Setting) (s : SortState) (elements : Int → Value) : Prop where
  table : s.table = g.table
  comparator : s.comparator = g.comparator.filter (· ≠ .nil)
  len : s.len = g.n
  small : g.n < 2 ^ 31 - 1
  lower : 2 ≤ s.j
  upper : s.j ≤ s.i
  within : s.i ≤ g.n ∨ (s.j = s.i ∧ (s.i = g.n + 1 ∨ s.i = 2))
  swaps : 2 * (s.trace.swaps : Int) ≤ (s.i - 1) * (s.i - 2) + 2 * (s.i - s.j)
  comparisons : (s.trace.comparisons : Int)
    ≤ 2 * s.trace.swaps + (s.i - 2) + pending s.phase s.step
  running : s.trace.stop = .running
  arranged : ∃ π, Rearranged g.elements elements g.n π
    ∧ (g.Orderly → Sinking g.lt g.elements π s.i s.j)

/-- The elements that are compared are in hand. -/
structure Held (g : Setting) (s : SortState) (elements : Int → Value) : Prop where
  active : s.i ≤ g.n
  left : s.left = elements s.j
  right : s.right = elements (s.j - 1)
  /-- Before the second comparison the first has said yes. -/
  asked : s.phase = .reverse →
    ∃ value, isTruthy value = true ∧ g.Answers (elements s.j) (elements (s.j - 1)) value

/-- **The invariant.** -/
inductive SortInv (g : Setting) : SortRun → Prop
  | needLength (host : Host) : SortInv g (.start host g.store g.table g.comparator)
  | awaitLength (host : Host) :
      SortInv g ⟨{ SortState.new g.table g.comparator with step := .awaitLength },
        some (.integer (g.store.border g.table)), g.store, host⟩
  | compareStart {s : SortState} {elements : Int → Value} (answer : Option Value) (host : Host)
      (h : Standing g s elements) (hstep : s.step = .compareStart)
      (hheld : s.phase = .reverse → Held g s elements) :
      SortInv g ⟨s, answer, g.holding elements, host⟩
  | awaitReadLeft {s : SortState} {elements : Int → Value} (host : Host)
      (h : Standing g s elements) (hstep : s.step = .awaitReadLeft) (hphase : s.phase = .forward)
      (hactive : s.i ≤ g.n) :
      SortInv g ⟨s, some (elements s.j), g.holding elements, host⟩
  | awaitReadRight {s : SortState} {elements : Int → Value} (host : Host)
      (h : Standing g s elements) (hstep : s.step = .awaitReadRight) (hphase : s.phase = .forward)
      (hactive : s.i ≤ g.n) (hleft : s.left = elements s.j) :
      SortInv g ⟨s, some (elements (s.j - 1)), g.holding elements, host⟩
  | compare {s : SortState} {elements : Int → Value} (answer : Option Value) (host : Host)
      (h : Standing g s elements) (hstep : s.step = .compare) (hheld : Held g s elements) :
      SortInv g ⟨s, answer, g.holding elements, host⟩
  | awaitCompare {s : SortState} {elements : Int → Value} {value : Value} (host : Host)
      (h : Standing g s elements) (hstep : s.step = .awaitCompare) (hheld : Held g s elements)
      (hanswer : g.Answers s.operands.1 s.operands.2 value) :
      SortInv g ⟨s, some value, g.holding elements, host⟩
  | awaitWriteFirst {s : SortState} {elements : Int → Value} (answer : Option Value) (host : Host)
      (h : Standing g s elements) (hstep : s.step = .awaitWriteFirst) (hphase : s.phase = .reverse)
      (hheld : Held g s elements) :
      SortInv g
        ⟨s, answer, g.holding (Function.update elements (s.j - 1) (elements s.j)), host⟩
  | awaitWriteSecond {s : SortState} {elements : Int → Value} (answer : Option Value)
      (host : Host) (h : Standing g s elements) (hstep : s.step = .awaitWriteSecond)
      (hphase : s.phase = .reverse) (hheld : Held g s elements) :
      SortInv g ⟨s, answer, g.holding (exchanged elements s.j), host⟩

/-! ### Bounds -/

section Standing

variable {g : Setting} {s : SortState} {elements : Int → Value}

theorem Standing.i_lt (h : Standing g s elements) : s.i < 2 ^ 31 := by
  have hwithin := h.within
  have hsmall := h.small
  omega

/-- The cursors and their neighbours fit an `i64`. -/
theorem Standing.fits (h : Standing g s elements) (error : TableError) :
    fit error (s.j - 1) = .ok (s.j - 1) ∧ fit error (s.i + 1) = .ok (s.i + 1) := by
  have hi := h.i_lt
  have hlower := h.lower
  have hupper := h.upper
  exact ⟨fit_of (by omega), fit_of (by omega)⟩

/-- No more exchanges than pairs. -/
theorem Standing.swaps_le (h : Standing g s elements) :
    2 * (s.trace.swaps : Int) ≤ g.n * (g.n - 1) := by
  have hswaps := h.swaps
  have hlower := h.lower
  have hupper := h.upper
  rcases h.within with hi | ⟨hj, hi | hi⟩
  · have hup : s.i * (s.i - 1) ≤ g.n * (g.n - 1) := by
      apply mul_le_mul hi <;> omega
    have hexpand : (s.i - 1) * (s.i - 2) + 2 * (s.i - 2) = s.i * (s.i - 1) - 2 := by ring
    omega
  · have hexpand : (s.i - 1) * (s.i - 2) = g.n * (g.n - 1) := by
      rw [hi]
      ring
    omega
  · have hzero : (s.i - 1) * (s.i - 2) = 0 := by
      rw [hi]
      rfl
    have hpairs : 0 ≤ g.n * (g.n - 1) := by
      rcases le_or_gt 1 g.n with hn | hn
      · exact mul_nonneg (by omega) (by omega)
      · exact mul_nonneg_of_nonpos_of_nonpos (by omega) (by omega)
    omega

theorem pending_le (phase : SortPhase) (step : SortStep) : pending phase step ≤ 2 := by
  cases phase <;> cases step <;> decide

/-- The counters are far from their limit. -/
theorem Standing.counters (h : Standing g s elements) :
    s.trace.swaps + 1 < 2 ^ 64 ∧ s.trace.comparisons + 1 < 2 ^ 64 := by
  have hi := h.i_lt
  have hlower := h.lower
  have hupper := h.upper
  have hswaps := h.swaps
  have hcomparisons := h.comparisons
  have hpending := pending_le s.phase s.step
  have hsquare : (s.i - 1) * (s.i - 2) ≤ 2 ^ 31 * 2 ^ 31 := by
    apply mul_le_mul <;> omega
  omega

theorem counted_of {n : Nat} (h : n + 1 < 2 ^ 64) : counted n = .ok (n + 1) := if_pos h

/-- Another step, with the elements in hand and the comparisons made that go with it. -/
theorem Standing.move (h : Standing g s elements) (left right : Value) (phase : SortPhase)
    (step : SortStep) (comparisons : Nat)
    (hcount : (comparisons : Int) ≤ 2 * s.trace.swaps + (s.i - 2) + pending phase step) :
    Standing g
      { s with
        left := left
        right := right
        phase := phase
        step := step
        trace := { s.trace with comparisons := comparisons } } elements where
  table := h.table
  comparator := h.comparator
  len := h.len
  small := h.small
  lower := h.lower
  upper := h.upper
  within := h.within
  swaps := h.swaps
  comparisons := hcount
  running := h.running
  arranged := h.arranged

/-- The element at `i` has found its place. -/
theorem Standing.settled (h : Standing g s elements) (hactive : s.i ≤ g.n) (phase : SortPhase)
    {elements' : Int → Value}
    (horder : ∃ π, Rearranged g.elements elements' g.n π
      ∧ (g.Orderly → InOrder g.lt g.elements π s.i ∧ ∀ k, s.i < k → π k = k))
    (swaps : Nat) (hswaps : 2 * (swaps : Int) ≤ (s.i - 1) * (s.i - 2) + 2 * (s.i - 1))
    (hcount : (s.trace.comparisons : Int) ≤ 2 * swaps + (s.i - 1)) :
    Standing g
      { s with
        i := s.i + 1
        j := s.i + 1
        phase := phase
        step := .compareStart
        trace := { s.trace with swaps := swaps } } elements' where
  table := h.table
  comparator := h.comparator
  len := h.len
  small := h.small
  lower := by
    have hlower := h.lower
    have hupper := h.upper
    show 2 ≤ s.i + 1
    omega
  upper := le_refl _
  within := by
    show s.i + 1 ≤ g.n ∨ (s.i + 1 = s.i + 1 ∧ (s.i + 1 = g.n + 1 ∨ s.i + 1 = 2))
    omega
  swaps := by
    show 2 * (swaps : Int) ≤ (s.i + 1 - 1) * (s.i + 1 - 2) + 2 * (s.i + 1 - (s.i + 1))
    have hexpand : (s.i + 1 - 1) * (s.i + 1 - 2) + 2 * (s.i + 1 - (s.i + 1))
        = (s.i - 1) * (s.i - 2) + 2 * (s.i - 1) := by ring
    omega
  comparisons := by
    show (s.trace.comparisons : Int) ≤ 2 * swaps + (s.i + 1 - 2) + pending phase .compareStart
    have hpending : 0 ≤ pending phase .compareStart := by cases phase <;> decide
    omega
  running := h.running
  arranged := by
    obtain ⟨π, hπ, horder⟩ := horder
    exact ⟨π, hπ, fun hg => Sinking.next (horder hg).1 (horder hg).2⟩

end Standing

/-! ### Moves -/

section Moves

variable {Answers : Value → Value → Value → Prop} {c c' : SortRun}

theorem SortRun.Moves.of_next {s : SortState} {answer : Option Value}
    (h : sortStep c.host c.state c.answer = .next s answer) (hm : c.Moves Answers c') :
    c' = { c with state := s, answer := answer }
      ∧ (c.state.step = .compare → ∀ value, answer = some value →
        Answers c.state.operands.1 c.state.operands.2 value) := by
  cases hm with
  | next h' hanswer =>
    rw [h] at h'
    cases h'
    exact ⟨rfl, hanswer⟩
  | access h' => exact absurd (h.symm.trans h') (by simp)
  | call h' => exact absurd (h.symm.trans h') (by simp)

theorem SortRun.Moves.of_access {s : SortState} {request : TableOpRequest}
    (h : sortStep c.host c.state c.answer = .ask s (.access request)) (hm : c.Moves Answers c') :
    c' = { c with
      state := s
      answer := some (c.store.answer request).1
      store := (c.store.answer request).2 } := by
  cases hm with
  | next h' => exact absurd (h.symm.trans h') (by simp)
  | access h' =>
    rw [h] at h'
    cases h'
    rfl
  | call h' => exact absurd (h.symm.trans h') (by simp)

theorem SortRun.Moves.of_call {s : SortState} {event left right : Value}
    (h : sortStep c.host c.state c.answer = .ask s (.call event left right))
    (hm : c.Moves Answers c') :
    ∃ value host, Answers left right value
      ∧ c' = { c with state := s, answer := some value, host := host } := by
  cases hm with
  | next h' => exact absurd (h.symm.trans h') (by simp)
  | access h' => exact absurd (h.symm.trans h') (by simp)
  | call h' hanswer host =>
    rw [h] at h'
    cases h'
    exact ⟨_, host, hanswer, rfl⟩

theorem SortRun.Moves.not_done {ending : SortEnd}
    (h : sortStep c.host c.state c.answer = .done ending) : ¬ c.Moves Answers c' := by
  intro hm
  cases hm with
  | next h' => exact absurd (h.symm.trans h') (by simp)
  | access h' => exact absurd (h.symm.trans h') (by simp)
  | call h' => exact absurd (h.symm.trans h') (by simp)

end Moves

/-! ### Measure -/

/-- The steps left until the element at `j` has moved or is settled. -/
def rank : SortPhase → SortStep → Int
  | .forward, .compareStart => 9
  | .forward, .awaitReadLeft => 8
  | .forward, .awaitReadRight => 7
  | .forward, .compare => 6
  | .forward, .awaitCompare => 5
  | .reverse, .compareStart => 4
  | .reverse, .compare => 3
  | .reverse, .awaitCompare => 2
  | .reverse, .awaitWriteFirst => 1
  | _, _ => 0

theorem rank_range (phase : SortPhase) (step : SortStep) :
    0 ≤ rank phase step ∧ rank phase step ≤ 9 := by
  cases phase <;> cases step <;> decide

/-- What is left to do with the cursors at `i` and `j`. -/
def weight (n i j rank : Int) : Nat := (16 * ((n + 3) * (n + 2 - i) + j) + rank).toNat

theorem weight_lt_of_rank {n i j r r' : Int} (hi : i ≤ n) (hj : 2 ≤ j) (hji : j ≤ i) (hr : 0 ≤ r')
    (h : r' < r) : weight n i j r' < weight n i j r := by
  have hpos : 0 ≤ (n + 3) * (n + 2 - i) := mul_nonneg (by omega) (by omega)
  unfold weight
  omega

theorem weight_lt_of_sink {n i j r r' : Int} (hi : i ≤ n) (hj : 2 ≤ j) (hji : j ≤ i) (hr : 0 ≤ r)
    (hr' : r' ≤ 9) : weight n i (j - 1) r' < weight n i j r := by
  have hpos : 0 ≤ (n + 3) * (n + 2 - i) := mul_nonneg (by omega) (by omega)
  unfold weight
  omega

theorem weight_lt_of_next {n i j r r' : Int} (hi : i ≤ n) (hj : 2 ≤ j) (hji : j ≤ i) (hr : 0 ≤ r)
    (hr' : r' ≤ 9) : weight n (i + 1) (i + 1) r' < weight n i j r := by
  have hpos : 0 ≤ (n + 3) * (n + 2 - i) := mul_nonneg (by omega) (by omega)
  have hexpand : (n + 3) * (n + 2 - (i + 1)) = (n + 3) * (n + 2 - i) - (n + 3) := by ring
  unfold weight
  omega

/-- The moves a sort has left. -/
def SortRun.measure (n : Int) (c : SortRun) : Nat :=
  match c.state.step with
  | .needLength => weight n 2 2 9 + 2
  | .awaitLength => weight n 2 2 9 + 1
  | _ => weight n c.state.i c.state.j (rank c.state.phase c.state.step)

theorem SortRun.measure_eq {n : Int} {c : SortRun}
    (h : c.state.step ≠ .needLength ∧ c.state.step ≠ .awaitLength) :
    c.measure n = weight n c.state.i c.state.j (rank c.state.phase c.state.step) := by
  unfold SortRun.measure
  cases hstep : c.state.step <;> simp_all

/-! ### What the machine does -/

section Step

variable {g : Setting} {s : SortState} {elements : Int → Value} {c' : SortRun}

theorem step_of_advance {host : Host} {s : SortState} {answer : Option Value} {move : SortMove}
    (h : s.advance host answer = .ok move) : sortStep host s answer = move := by
  rw [sortStep, h]

theorem step_of_error {host : Host} {s : SortState} {answer : Option Value} {error : TableError}
    (h : s.advance host answer = .error error) :
    sortStep host s answer = .done ⟨.error error, s.trace.finish (errorStop error)⟩ := by
  rw [sortStep, h]

theorem nextElement_of {s : SortState} (h : fit .arithmeticOverflow (s.i + 1) = .ok (s.i + 1)) :
    s.nextElement = .ok { s with i := s.i + 1, j := s.i + 1 } := by
  rw [SortState.nextElement, h]
  rfl

theorem Standing.advance_compareStart (h : Standing g s elements) (hstep : s.step = .compareStart)
    (host : Host) (answer : Option Value) :
    s.advance host answer = .ok (if s.i > g.n then .done ⟨.ok (), s.trace.finish .completed⟩
      else match s.phase with
        | .forward => .ask { s with step := .awaitReadLeft } (.access (.get s.table s.j))
        | .reverse => .next { s with step := .compare } none) := by
  rw [SortState.advance, hstep]
  show s.compareStart = _
  have hlower := h.lower
  unfold SortState.compareStart
  rw [h.len]
  split
  · rfl
  · cases s.phase with
    | forward => exact if_neg (by omega)
    | reverse => rfl

theorem Standing.advance_awaitReadLeft (h : Standing g s elements)
    (hstep : s.step = .awaitReadLeft) (host : Host) (value : Value) :
    s.advance host (some value) = .ok (.ask { s with left := value, step := .awaitReadRight }
      (.access (.get s.table (s.j - 1)))) := by
  rw [SortState.advance, hstep]
  show (fit .panicked (s.j - 1) >>= _) = _
  rw [(h.fits _).1, Check.ok_bind]

theorem advance_awaitReadRight (hstep : s.step = .awaitReadRight) (host : Host) (value : Value) :
    s.advance host (some value) = .ok (.next { s with right := value, step := .compare } none) := by
  rw [SortState.advance, hstep]
  rfl

/-- The state while a comparison is made. -/
def SortState.waiting (s : SortState) : SortState :=
  { s with
    step := .awaitCompare
    trace := { s.trace with comparisons := s.trace.comparisons + 1 } }

theorem Standing.advance_compare (h : Standing g s elements) (hstep : s.step = .compare)
    (host : Host) (answer : Option Value) :
    s.advance host answer
      = SortState.compareBy host s.waiting s.comparator s.operands.1 s.operands.2 := by
  rw [SortState.advance, hstep]
  show (counted s.trace.comparisons >>= _) = _
  rw [counted_of h.counters.2, Check.ok_bind]
  rfl

theorem Standing.advance_awaitCompare (h : Standing g s elements) (hstep : s.step = .awaitCompare)
    (host : Host) (value : Value) :
    s.advance host (some value) = .ok (match s.phase with
      | .forward =>
        if isTruthy value then .next { s with phase := .reverse, step := .compareStart } none
        else .next { s with i := s.i + 1, j := s.i + 1, step := .compareStart } none
      | .reverse =>
        if isTruthy value then
          .done ⟨.error .argument, s.trace.finish .inconsistentComparator⟩
        else .ask { s with step := .awaitWriteFirst }
          (.access (.set s.table (s.j - 1) s.left))) := by
  rw [SortState.advance, hstep]
  show s.compared value = _
  unfold SortState.compared
  by_cases hyes : isTruthy value = true
  · cases s.phase <;> simp only [if_pos hyes]
  · cases hphase : s.phase with
    | forward =>
      simp only [if_neg hyes]
      rw [nextElement_of (h.fits _).2, Check.ok_bind, hphase]
    | reverse =>
      simp only [if_neg hyes]
      rw [(h.fits _).1, Check.ok_bind]

theorem advance_awaitWriteFirst (hstep : s.step = .awaitWriteFirst) (host : Host)
    (answer : Option Value) :
    s.advance host answer = .ok (.ask { s with step := .awaitWriteSecond }
      (.access (.set s.table s.j s.right))) := by
  rw [SortState.advance, hstep]

/-- The state after an exchange. -/
def SortState.lowered (s : SortState) : SortState :=
  { s with
    j := s.j - 1
    phase := .forward
    step := .compareStart
    trace := { s.trace with swaps := s.trace.swaps + 1 } }

theorem Standing.advance_awaitWriteSecond (h : Standing g s elements)
    (hstep : s.step = .awaitWriteSecond) (host : Host) (answer : Option Value) :
    s.advance host answer = .ok (.next
      (if s.j - 1 ≤ 1 then { s.lowered with i := s.i + 1, j := s.i + 1 } else s.lowered) none) := by
  rw [SortState.advance, hstep]
  show s.swapped = _
  unfold SortState.swapped
  rw [counted_of h.counters.1, Check.ok_bind, (h.fits _).1, Check.ok_bind]
  by_cases hbottom : s.j - 1 ≤ 1
  · rw [if_pos hbottom, if_pos hbottom]
    show (s.lowered.nextElement >>= _) = _
    rw [nextElement_of (s := s.lowered) (h.fits _).2]
    rfl
  · rw [if_neg hbottom, if_neg hbottom]
    rfl

end Step

end RivetLua.Stdlib.Table
