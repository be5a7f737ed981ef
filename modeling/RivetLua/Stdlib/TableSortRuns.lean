import RivetLua.Stdlib.TableSortInvariant

namespace RivetLua.Stdlib.Table

open RivetLua.Core Machine StableOrder

/-!
# Stdlib — runs of `table.sort`

Whatever the comparator answers, a sort moves elements about by exchanging neighbours and comes to
an end.

* `SortInv.step` — one move preserves the invariant and makes the measure smaller;
* `Setting.Ends`, `Setting.Allows` — how a sort ends, and what it may do on the way;
* `sort_runs` — what holds in every run.
-/

/-! ### One move -/

section Step

variable {g : Setting} {s : SortState} {elements : Int → Value} {c' : SortRun}

/-- What one move leaves: the invariant, and less to do. -/
def Lands (g : Setting) (c c' : SortRun) : Prop :=
  SortInv g c' ∧ c'.measure g.n < c.measure g.n

/-- The length is asked for. -/
theorem lands_needLength (host : Host)
    (hm : (SortRun.start host g.store g.table g.comparator).Moves g.Answers c') :
    Lands g (.start host g.store g.table g.comparator) c' := by
  obtain rfl := hm.of_access (step_of_advance rfl)
  exact ⟨.awaitLength host, Nat.lt_succ_self _⟩

/-- The first element to sink. -/
theorem standing_first (hsmall : g.n < 2 ^ 31 - 1) :
    Standing g
      { SortState.new g.table g.comparator with len := g.n, step := .compareStart }
      g.elements where
  table := rfl
  comparator := rfl
  len := rfl
  small := hsmall
  lower := le_refl 2
  upper := le_refl 2
  within := .inr ⟨rfl, .inr rfl⟩
  swaps := le_refl 0
  comparisons := le_refl 0
  running := rfl
  arranged := ⟨1, .refl _ _, fun _ => .start _⟩

theorem advance_awaitLength (g : Setting) (host : Host) :
    SortState.advance host { SortState.new g.table g.comparator with step := .awaitLength }
      (some (.integer (g.store.border g.table)))
      = SortState.checkLength host
          { SortState.new g.table g.comparator with step := .awaitLength } g.n >>= fun _ =>
        .ok (.next { SortState.new g.table g.comparator with
          len := g.n, step := .compareStart } none) := rfl

/-- The length is there: it is too big, the comparator is no function, or the sort begins. -/
theorem lands_awaitLength (host : Host)
    (hm : (SortRun.mk { SortState.new g.table g.comparator with step := .awaitLength }
      (some (.integer (g.store.border g.table))) g.store host).Moves g.Answers c') :
    Lands g ⟨{ SortState.new g.table g.comparator with step := .awaitLength },
      some (.integer (g.store.border g.table)), g.store, host⟩ c' := by
  have hadvance := advance_awaitLength g host
  cases hcheck : SortState.checkLength host
      { SortState.new g.table g.comparator with step := .awaitLength } g.n with
  | error error =>
    rw [hcheck] at hadvance
    exact absurd hm (SortRun.Moves.not_done (step_of_error hadvance))
  | ok u =>
    rw [hcheck] at hadvance
    obtain ⟨rfl, -⟩ := hm.of_next (step_of_advance hadvance)
    have hsmall : g.n < 2 ^ 31 - 1 := by
      by_contra hbig
      rw [SortState.checkLength, if_pos (by omega), if_pos (by omega)] at hcheck
      cases hcheck
    refine ⟨?_, Nat.lt_succ_self _⟩
    have h := SortInv.compareStart none host (standing_first hsmall) rfl (fun h => by cases h)
    rw [Setting.holding_elements] at h
    exact h

/-- What a step with the cursors where they are has to show. -/
theorem lands_of_rank {c : SortRun} (h : Standing g c.state elements) (hactive : c.state.i ≤ g.n)
    (hstep : c.state.step ≠ .needLength ∧ c.state.step ≠ .awaitLength) (hinv : SortInv g c')
    (hstep' : c'.state.step ≠ .needLength ∧ c'.state.step ≠ .awaitLength)
    (hi : c'.state.i = c.state.i) (hj : c'.state.j = c.state.j)
    (hrank : rank c'.state.phase c'.state.step < rank c.state.phase c.state.step) :
    Lands g c c' := by
  refine ⟨hinv, ?_⟩
  rw [SortRun.measure_eq hstep, SortRun.measure_eq hstep', hi, hj]
  exact weight_lt_of_rank hactive h.lower h.upper (rank_range ..).1 hrank

/-- The element is settled. -/
theorem measure_lt_of_next {c : SortRun} (h : Standing g c.state elements)
    (hactive : c.state.i ≤ g.n)
    (hstep : c.state.step ≠ .needLength ∧ c.state.step ≠ .awaitLength)
    (hstep' : c'.state.step ≠ .needLength ∧ c'.state.step ≠ .awaitLength)
    (hi : c'.state.i = c.state.i + 1) (hj : c'.state.j = c.state.i + 1) :
    c'.measure g.n < c.measure g.n := by
  rw [SortRun.measure_eq hstep, SortRun.measure_eq hstep', hi, hj]
  exact weight_lt_of_next hactive h.lower h.upper (rank_range ..).1 (rank_range ..).2

/-- The elements above `j` are in order: the end, or the elements at `j` are read. -/
theorem lands_compareStart {answer : Option Value} {host : Host} (h : Standing g s elements)
    (hstep : s.step = .compareStart) (hheld : s.phase = .reverse → Held g s elements)
    (hm : (SortRun.mk s answer (g.holding elements) host).Moves g.Answers c') :
    Lands g ⟨s, answer, g.holding elements, host⟩ c' := by
  have hadvance := h.advance_compareStart hstep host answer
  by_cases hend : s.i > g.n
  · rw [if_pos hend] at hadvance
    exact absurd hm (SortRun.Moves.not_done (step_of_advance hadvance))
  rw [if_neg hend] at hadvance
  have hactive : s.i ≤ g.n := not_lt.mp hend
  have hsame := h.comparisons
  cases hphase : s.phase with
  | forward =>
    rw [hphase] at hadvance
    obtain rfl := hm.of_access (step_of_advance hadvance)
    rw [hstep, hphase] at hsame
    refine lands_of_rank h hactive (by simp [hstep]) ?_ (by simp) rfl rfl
      (by simp [hstep, hphase, rank])
    have hanswer : ((g.holding elements).answer (.get s.table s.j)).1 = elements s.j := by
      show (g.holding elements).element s.table s.j = _
      rw [h.table, Setting.holding_element]
    rw [hanswer]
    exact .awaitReadLeft host
      (h.move s.left s.right _ .awaitReadLeft s.trace.comparisons hsame) rfl rfl hactive
  | reverse =>
    rw [hphase] at hadvance
    obtain ⟨rfl, -⟩ := hm.of_next (step_of_advance hadvance)
    rw [hstep, hphase] at hsame
    refine lands_of_rank h hactive (by simp [hstep]) ?_ (by simp) rfl rfl
      (by simp [hstep, hphase, rank])
    have hheld' := hheld hphase
    exact .compare none host (h.move s.left s.right _ .compare s.trace.comparisons hsame) rfl
      ⟨hactive, hheld'.left, hheld'.right, fun _ => hheld'.asked hphase⟩

theorem lands_awaitReadLeft {host : Host} (h : Standing g s elements)
    (hstep : s.step = .awaitReadLeft) (hphase : s.phase = .forward) (hactive : s.i ≤ g.n)
    (hm : (SortRun.mk s (some (elements s.j)) (g.holding elements) host).Moves g.Answers c') :
    Lands g ⟨s, some (elements s.j), g.holding elements, host⟩ c' := by
  obtain rfl := hm.of_access (step_of_advance (h.advance_awaitReadLeft hstep host _))
  refine lands_of_rank h hactive (by simp [hstep]) ?_ (by simp) rfl rfl
    (by simp [hstep, hphase, rank])
  have hanswer : ((g.holding elements).answer (.get s.table (s.j - 1))).1
      = elements (s.j - 1) := by
    show (g.holding elements).element s.table (s.j - 1) = _
    rw [h.table, Setting.holding_element]
  rw [hanswer]
  have hsame := h.comparisons
  rw [hstep, hphase] at hsame
  refine .awaitReadRight host (h.move _ s.right s.phase _ s.trace.comparisons ?_) rfl hphase
    hactive rfl
  rw [hphase]
  exact hsame

theorem lands_awaitReadRight {host : Host} (h : Standing g s elements)
    (hstep : s.step = .awaitReadRight) (hphase : s.phase = .forward) (hactive : s.i ≤ g.n)
    (hleft : s.left = elements s.j)
    (hm : (SortRun.mk s (some (elements (s.j - 1))) (g.holding elements) host).Moves
      g.Answers c') :
    Lands g ⟨s, some (elements (s.j - 1)), g.holding elements, host⟩ c' := by
  obtain ⟨rfl, -⟩ := hm.of_next (step_of_advance (advance_awaitReadRight hstep host _))
  refine lands_of_rank h hactive (by simp [hstep]) ?_ (by simp) rfl rfl
    (by simp [hstep, hphase, rank])
  have hsame := h.comparisons
  rw [hstep, hphase] at hsame
  refine .compare none host (h.move s.left _ s.phase _ s.trace.comparisons ?_) rfl
    ⟨hactive, hleft, rfl, fun hreverse => ?_⟩
  · rw [hphase]
    exact hsame
  · exact absurd (hphase.symm.trans hreverse) (by simp)

/-- A comparison is made, by whatever is asked. -/
theorem lands_compare {answer : Option Value} {host : Host} (h : Standing g s elements)
    (hstep : s.step = .compare) (hheld : Held g s elements)
    (hm : (SortRun.mk s answer (g.holding elements) host).Moves g.Answers c') :
    Lands g ⟨s, answer, g.holding elements, host⟩ c' := by
  have hwaiting : Standing g s.waiting elements := by
    refine h.move s.left s.right s.phase _ (s.trace.comparisons + 1) ?_
    have hsame := h.comparisons
    rw [hstep] at hsame
    cases hphase : s.phase <;> rw [hphase] at hsame <;> simp only [pending] at hsame ⊢ <;> omega
  have hland : ∀ value host', g.Answers s.operands.1 s.operands.2 value →
      Lands g ⟨s, answer, g.holding elements, host⟩
        ⟨s.waiting, some value, g.holding elements, host'⟩ := by
    intro value host' hanswer
    refine lands_of_rank h hheld.active (by simp [hstep]) ?_ (by simp [SortState.waiting]) rfl rfl ?_
    · exact .awaitCompare host' hwaiting rfl ⟨hheld.active, hheld.left, hheld.right, hheld.asked⟩
        hanswer
    · show rank s.phase .awaitCompare < rank s.phase s.step
      rw [hstep]
      cases s.phase <;> decide
  have hadvance := h.advance_compare hstep host answer
  cases hcomparator : s.comparator with
  | some comparator =>
    rw [hcomparator] at hadvance
    obtain ⟨value, host', hanswer, rfl⟩ := hm.of_call (step_of_advance hadvance)
    exact hland value host' hanswer
  | none =>
    rw [hcomparator] at hadvance
    cases hraw : host.rawLess s.operands.1 s.operands.2 with
    | some value =>
      simp only [SortState.compareBy, hraw] at hadvance
      obtain ⟨rfl, hanswer⟩ := hm.of_next (step_of_advance hadvance)
      exact hland value host (hanswer hstep value rfl)
    | none =>
      simp only [SortState.compareBy, hraw] at hadvance
      by_cases hevent : host.binaryEvent .lt s.operands.1 s.operands.2 = .nil
      · rw [if_pos hevent] at hadvance
        exact absurd hm (SortRun.Moves.not_done (step_of_error hadvance))
      · rw [if_neg hevent] at hadvance
        obtain ⟨value, host', hanswer, rfl⟩ := hm.of_call (step_of_advance hadvance)
        exact hland value host' hanswer

/-- The answer is there: the element is settled, the comparator is asked again, or it contradicts
    itself, or the exchange begins. -/
theorem lands_awaitCompare {value : Value} {host : Host} (h : Standing g s elements)
    (hstep : s.step = .awaitCompare) (hheld : Held g s elements)
    (hanswer : g.Answers s.operands.1 s.operands.2 value)
    (hm : (SortRun.mk s (some value) (g.holding elements) host).Moves g.Answers c') :
    Lands g ⟨s, some value, g.holding elements, host⟩ c' := by
  have hadvance := h.advance_awaitCompare hstep host value
  have hsame := h.comparisons
  have hactive := hheld.active
  cases hphase : s.phase with
  | forward =>
    rw [SortState.operands, hphase] at hanswer
    rw [hstep, hphase] at hsame
    by_cases hyes : isTruthy value = true
    · simp only [hphase, if_pos hyes] at hadvance
      obtain ⟨rfl, -⟩ := hm.of_next (step_of_advance hadvance)
      refine lands_of_rank h hactive (by simp [hstep]) ?_ (by simp) rfl rfl
        (by simp [hstep, hphase, rank])
      refine .compareStart none host (h.move s.left s.right _ _ s.trace.comparisons hsame) rfl
        fun _ => ⟨hactive, hheld.left, hheld.right, fun _ => ⟨value, hyes, ?_⟩⟩
      rw [← hheld.left, ← hheld.right]
      exact hanswer
    · simp only [hphase, if_neg hyes] at hadvance
      obtain ⟨rfl, -⟩ := hm.of_next (step_of_advance hadvance)
      refine ⟨.compareStart none host (h.settled hactive .forward ?_ s.trace.swaps ?_ ?_) rfl
        (fun h => by cases h), ?_⟩
      · obtain ⟨π, hπ, hsinking⟩ := h.arranged
        refine ⟨π, hπ, fun hg => ⟨?_, (hsinking hg).untouched⟩⟩
        have := hg.1
        refine (hsinking hg).settle hπ h.upper fun hless => hyes ?_
        refine (hg.2 _ _ _ hanswer).mpr ?_
        rw [hheld.left, hheld.right]
        exact hless
      · have hswaps := h.swaps
        have hlower := h.lower
        omega
      · have hpending : pending .forward .awaitCompare = 1 := rfl
        omega
      · exact measure_lt_of_next h hactive (by simp [hstep]) (by simp) rfl rfl
  | reverse =>
    rw [hstep, hphase] at hsame
    by_cases hyes : isTruthy value = true
    · simp only [hphase, if_pos hyes] at hadvance
      exact absurd hm (SortRun.Moves.not_done (step_of_advance hadvance))
    · simp only [hphase, if_neg hyes] at hadvance
      obtain rfl := hm.of_access (step_of_advance hadvance)
      refine lands_of_rank h hactive (by simp [hstep]) ?_ (by simp) rfl rfl
        (by simp [hstep, hphase, rank])
      have hwrite : ((g.holding elements).answer (.set s.table (s.j - 1) s.left)).2
          = g.holding (Function.update elements (s.j - 1) (elements s.j)) := by
        show (g.holding elements).write s.table (s.j - 1) s.left = _
        rw [h.table, Setting.holding_write, hheld.left]
      rw [hwrite]
      exact .awaitWriteFirst _ host
        (h.move s.left s.right _ .awaitWriteFirst s.trace.comparisons hsame) rfl rfl
        ⟨hactive, hheld.left, hheld.right, fun _ => hheld.asked hphase⟩

theorem lands_awaitWriteFirst {answer : Option Value} {host : Host} (h : Standing g s elements)
    (hstep : s.step = .awaitWriteFirst) (hphase : s.phase = .reverse) (hheld : Held g s elements)
    (hm : (SortRun.mk s answer (g.holding (Function.update elements (s.j - 1) (elements s.j)))
      host).Moves g.Answers c') :
    Lands g ⟨s, answer, g.holding (Function.update elements (s.j - 1) (elements s.j)), host⟩
      c' := by
  obtain rfl := hm.of_access (step_of_advance (advance_awaitWriteFirst hstep host answer))
  refine lands_of_rank h hheld.active (by simp [hstep]) ?_ (by simp) rfl rfl
    (by simp [hstep, hphase, rank])
  have hsame := h.comparisons
  rw [hstep, hphase] at hsame
  have hwrite : ((g.holding (Function.update elements (s.j - 1) (elements s.j))).answer
      (.set s.table s.j s.right)).2 = g.holding (exchanged elements s.j) := by
    show (g.holding (Function.update elements (s.j - 1) (elements s.j))).write s.table s.j s.right
      = _
    rw [h.table, Setting.holding_write, hheld.right]
    rfl
  rw [hwrite]
  refine .awaitWriteSecond _ host (h.move s.left s.right s.phase _ s.trace.comparisons ?_) rfl
    hphase ⟨hheld.active, hheld.left, hheld.right, hheld.asked⟩
  rw [hphase]
  exact hsame

/-- In an exchange the elements come nearer to their order. -/
theorem Held.exchange (h : Standing g s elements) (hphase : s.phase = .reverse)
    (hheld : Held g s elements) :
    ∃ π, Rearranged g.elements (exchanged elements s.j) g.n π
      ∧ (g.Orderly → Sinking g.lt g.elements π s.i (s.j - 1)) := by
  obtain ⟨π, hπ, hsinking⟩ := h.arranged
  have hactive := hheld.active
  have hupper := h.upper
  refine ⟨_, hπ.exchange h.lower (by omega), fun hg => ?_⟩
  obtain ⟨value, hyes, hanswer⟩ := hheld.asked hphase
  exact (hsinking hg).exchange hπ h.lower h.upper ((hg.2 _ _ _ hanswer).mp hyes)

/-- The exchange is done; at the bottom the element is settled. -/
theorem lands_awaitWriteSecond {answer : Option Value} {host : Host} (h : Standing g s elements)
    (hstep : s.step = .awaitWriteSecond) (hphase : s.phase = .reverse)
    (hheld : Held g s elements)
    (hm : (SortRun.mk s answer (g.holding (exchanged elements s.j)) host).Moves g.Answers c') :
    Lands g ⟨s, answer, g.holding (exchanged elements s.j), host⟩ c' := by
  have hactive := hheld.active
  have hlower := h.lower
  have hupper := h.upper
  have hswaps := h.swaps
  have hsame := h.comparisons
  rw [hstep, hphase] at hsame
  have hpending : pending .reverse .awaitWriteSecond = 2 := rfl
  have harranged := hheld.exchange h hphase
  have hadvance := h.advance_awaitWriteSecond hstep host answer
  by_cases hbottom : s.j - 1 ≤ 1
  · rw [if_pos hbottom] at hadvance
    obtain ⟨rfl, -⟩ := hm.of_next (step_of_advance hadvance)
    refine ⟨.compareStart none host
      (h.settled hactive .forward ?_ (s.trace.swaps + 1) ?_ ?_) rfl (fun h => by cases h), ?_⟩
    · obtain ⟨π, hπ, hsinking⟩ := harranged
      have hone : s.j - 1 = 1 := by omega
      rw [hone] at hsinking
      exact ⟨π, hπ, fun hg => ⟨(hsinking hg).bottom, (hsinking hg).untouched⟩⟩
    · push_cast
      omega
    · push_cast
      omega
    · exact measure_lt_of_next h hactive (by simp [hstep]) (by simp [SortState.lowered]) rfl rfl
  · rw [if_neg hbottom] at hadvance
    obtain ⟨rfl, -⟩ := hm.of_next (step_of_advance hadvance)
    refine ⟨.compareStart none host ?_ rfl (fun h => by cases h), ?_⟩
    · exact
        { table := h.table
          comparator := h.comparator
          len := h.len
          small := h.small
          lower := by
            show 2 ≤ s.j - 1
            omega
          upper := by
            show s.j - 1 ≤ s.i
            omega
          within := .inl hactive
          swaps := by
            show 2 * ((s.trace.swaps + 1 : Nat) : Int)
              ≤ (s.i - 1) * (s.i - 2) + 2 * (s.i - (s.j - 1))
            push_cast
            omega
          comparisons := by
            show (s.trace.comparisons : Int)
              ≤ 2 * ((s.trace.swaps + 1 : Nat) : Int) + (s.i - 2) + 0
            push_cast
            omega
          running := h.running
          arranged := harranged }
    · rw [SortRun.measure_eq (by simp [SortState.lowered]), SortRun.measure_eq (by simp [hstep])]
      exact weight_lt_of_sink hactive hlower hupper (rank_range ..).1 (rank_range ..).2

/-- **One move.**  The invariant holds again, and less is left to do. -/
theorem SortInv.step {c : SortRun} (h : SortInv g c) (hm : c.Moves g.Answers c') :
    Lands g c c' := by
  cases h with
  | needLength host => exact lands_needLength host hm
  | awaitLength host => exact lands_awaitLength host hm
  | compareStart answer host h hstep hheld => exact lands_compareStart h hstep hheld hm
  | awaitReadLeft host h hstep hphase hactive =>
    exact lands_awaitReadLeft h hstep hphase hactive hm
  | awaitReadRight host h hstep hphase hactive hleft =>
    exact lands_awaitReadRight h hstep hphase hactive hleft hm
  | compare answer host h hstep hheld => exact lands_compare h hstep hheld hm
  | awaitCompare host h hstep hheld hanswer => exact lands_awaitCompare h hstep hheld hanswer hm
  | awaitWriteFirst answer host h hstep hphase hheld =>
    exact lands_awaitWriteFirst h hstep hphase hheld hm
  | awaitWriteSecond answer host h hstep hphase hheld =>
    exact lands_awaitWriteSecond h hstep hphase hheld hm

end Step

/-! ### Runs -/

/-- The access is one to the table, at an index of the list. -/
def TableOpRequest.Within (table : ObjectRef) (n : Int) : TableOpRequest → Prop
  | .length t => t = table
  | .get t index | .set t index _ => t = table ∧ 1 ≤ index ∧ index ≤ n

/-- The table has the elements it had, in another order, and nothing else has changed. -/
def Setting.Permuted (g : Setting) (store : Store) : Prop :=
  ∃ elements π, store = g.holding elements ∧ Rearranged g.elements elements g.n π

/-- Refused before an element is touched: too many elements, or a comparator that is no function. -/
def Setting.Refused (g : Setting) (host : Host) : Prop :=
  1 < g.n ∧ (2 ^ 31 - 1 ≤ g.n ∨ ∃ comparator, g.comparator.filter (· ≠ .nil) = some comparator
    ∧ ∀ object, comparator = .object object → host.isFunction object = false)

/-- Without a comparator: two elements that are neither numbers nor strings, and no metamethod. -/
def SortRun.Incomparable (c : SortRun) : Prop :=
  c.state.comparator = none
    ∧ c.host.rawLess c.state.operands.1 c.state.operands.2 = none
    ∧ c.host.binaryEvent .lt c.state.operands.1 c.state.operands.2 = .nil

/-- The ways a sort ends. -/
inductive Setting.Ends (g : Setting) (c : SortRun) : SortEnd → Prop
  | completed {trace : TableSortTrace} (hstop : trace.stop = .completed)
      (hsorted : g.Orderly → ∃ π, Rearranged g.elements (c.store.element g.table) g.n π
        ∧ Sorted g.lt (c.store.element g.table) g.n π) : Ends g c ⟨.ok (), trace⟩
  | inconsistent {trace : TableSortTrace} (hstop : trace.stop = .inconsistentComparator)
      (horder : ¬ g.Orderly) : Ends g c ⟨.error .argument, trace⟩
  | refused {trace : TableSortTrace} (hstop : trace.stop = .luaError) (hrefused : g.Refused c.host)
      (hstore : c.store = g.store) : Ends g c ⟨.error .argument, trace⟩
  | incomparable {trace : TableSortTrace} (hstop : trace.stop = .luaError)
      (hincomparable : c.Incomparable) : Ends g c ⟨.error .argument, trace⟩

/-- What the machine may do next. -/
def Setting.Allows (g : Setting) (c : SortRun) : SortMove → Prop
  | .next _ _ => True
  | .ask _ (.access request) => request.Within g.table g.n
  | .ask _ (.call _ _ _) => g.Permuted c.store
  | .done ending => g.Permuted c.store ∧ g.Ends c ending

section Outcome

variable {g : Setting} {s : SortState} {elements : Int → Value}

theorem finish_stop {trace : TableSortTrace} (h : trace.stop = .running) (stop : TableSortStop) :
    (trace.finish stop).stop = stop := by
  rw [TableSortTrace.finish, if_pos h]

theorem Standing.permuted (h : Standing g s elements) : g.Permuted (g.holding elements) := by
  obtain ⟨π, hπ, -⟩ := h.arranged
  exact ⟨elements, π, rfl, hπ⟩

theorem Setting.permuted_start (g : Setting) : g.Permuted g.store :=
  ⟨g.elements, 1, g.holding_elements.symm, .refl _ _⟩

theorem checkLength_eq_error {host : Host} {len : Int} {error : TableError}
    (h : SortState.checkLength host s len = .error error) :
    error = .argument ∧ 1 < len ∧ (2 ^ 31 - 1 ≤ len ∨ ∃ comparator, s.comparator = some comparator
      ∧ ∀ object, comparator = .object object → host.isFunction object = false) := by
  unfold SortState.checkLength at h
  by_cases hmany : len > 1
  · rw [if_pos hmany] at h
    by_cases hbig : len ≥ 2 ^ 31 - 1
    · rw [if_pos hbig] at h
      cases h
      exact ⟨rfl, hmany, .inl hbig⟩
    · rw [if_neg hbig] at h
      cases hcomparator : s.comparator with
      | none =>
        rw [hcomparator] at h
        cases h
      | some comparator =>
        rw [hcomparator] at h
        cases comparator with
        | object object =>
          have hfunction : host.isFunction object ≠ true := fun hyes => by
            simp only [if_pos hyes] at h
            cases h
          simp only [if_neg hfunction] at h
          cases h
          refine ⟨rfl, hmany, .inr ⟨_, rfl, fun o ho => ?_⟩⟩
          cases ho
          exact Bool.not_eq_true _ ▸ hfunction
        | _ =>
          cases h
          exact ⟨rfl, hmany, .inr ⟨_, rfl, fun o ho => by cases ho⟩⟩
  · rw [if_neg hmany] at h
    cases h

theorem allows_awaitLength (host : Host) :
    g.Allows ⟨{ SortState.new g.table g.comparator with step := .awaitLength },
        some (.integer (g.store.border g.table)), g.store, host⟩
      (sortStep host { SortState.new g.table g.comparator with step := .awaitLength }
        (some (.integer (g.store.border g.table)))) := by
  have hadvance := advance_awaitLength g host
  cases hcheck : SortState.checkLength host
      { SortState.new g.table g.comparator with step := .awaitLength } g.n with
  | ok u =>
    rw [hcheck] at hadvance
    rw [step_of_advance hadvance]
    trivial
  | error error =>
    rw [hcheck] at hadvance
    rw [step_of_error hadvance]
    obtain ⟨rfl, hrefused⟩ := checkLength_eq_error hcheck
    exact ⟨g.permuted_start, .refused rfl hrefused rfl⟩

/-- The whole list is in order when no element is left. -/
theorem Standing.sorted (h : Standing g s elements) (hend : g.n < s.i) :
    g.Orderly → ∃ π, Rearranged g.elements elements g.n π ∧ Sorted g.lt elements g.n π := by
  intro hg
  obtain ⟨π, hπ, hsinking⟩ := h.arranged
  have := hg.1
  refine ⟨π, hπ, InOrder.sorted (?_ : InOrder _ g.elements _ _) hπ⟩
  intro k l hk hlt hl
  have hwithin := h.within
  exact (hsinking hg).others k l hk hlt (by omega) (by omega) (by omega)

theorem Standing.allows_compareStart (h : Standing g s elements) (hstep : s.step = .compareStart)
    (host : Host) (answer : Option Value) :
    g.Allows ⟨s, answer, g.holding elements, host⟩ (sortStep host s answer) := by
  rw [step_of_advance (h.advance_compareStart hstep host answer)]
  by_cases hend : s.i > g.n
  · rw [if_pos hend]
    refine ⟨h.permuted, .completed (finish_stop h.running _) ?_⟩
    rw [Setting.holding_element]
    exact h.sorted hend
  · rw [if_neg hend]
    have hlower := h.lower
    have hupper := h.upper
    cases s.phase with
    | forward => exact ⟨h.table, by omega, by omega⟩
    | reverse => trivial

theorem Standing.allows_compare (h : Standing g s elements) (hstep : s.step = .compare)
    (host : Host) (answer : Option Value) :
    g.Allows ⟨s, answer, g.holding elements, host⟩ (sortStep host s answer) := by
  have hadvance := h.advance_compare hstep host answer
  cases hcomparator : s.comparator with
  | some comparator =>
    rw [hcomparator] at hadvance
    rw [step_of_advance hadvance]
    exact h.permuted
  | none =>
    rw [hcomparator] at hadvance
    cases hraw : host.rawLess s.operands.1 s.operands.2 with
    | some value =>
      simp only [SortState.compareBy, hraw] at hadvance
      rw [step_of_advance hadvance]
      trivial
    | none =>
      simp only [SortState.compareBy, hraw] at hadvance
      by_cases hevent : host.binaryEvent .lt s.operands.1 s.operands.2 = .nil
      · rw [if_pos hevent] at hadvance
        rw [step_of_error hadvance]
        exact ⟨h.permuted, .incomparable (finish_stop h.running _) ⟨hcomparator, hraw, hevent⟩⟩
      · rw [if_neg hevent] at hadvance
        rw [step_of_advance hadvance]
        exact h.permuted

theorem Standing.allows_awaitCompare {value : Value} (h : Standing g s elements)
    (hstep : s.step = .awaitCompare) (hheld : Held g s elements)
    (hanswer : g.Answers s.operands.1 s.operands.2 value) (host : Host) :
    g.Allows ⟨s, some value, g.holding elements, host⟩ (sortStep host s (some value)) := by
  rw [step_of_advance (h.advance_awaitCompare hstep host value)]
  have hactive := hheld.active
  have hlower := h.lower
  have hupper := h.upper
  cases hphase : s.phase with
  | forward =>
    show g.Allows _ (if isTruthy value = true then _ else _)
    split <;> trivial
  | reverse =>
    by_cases hyes : isTruthy value = true
    · simp only [if_pos hyes]
      refine ⟨h.permuted, .inconsistent (finish_stop h.running _) fun hg => ?_⟩
      have := hg.1
      obtain ⟨first, hfirst, hasked⟩ := hheld.asked hphase
      rw [SortState.operands, hphase, hheld.left, hheld.right] at hanswer
      exact asymm ((hg.2 _ _ _ hasked).mp hfirst) ((hg.2 _ _ _ hanswer).mp hyes)
    · simp only [if_neg hyes]
      exact ⟨h.table, by omega, by omega⟩

/-- **What the machine may do.**  Accesses stay within the list, the list is a permutation of the
    one at the beginning when a function is called and at the end, and the end is one of those. -/
theorem SortInv.allows {c : SortRun} (h : SortInv g c) :
    g.Allows c (sortStep c.host c.state c.answer) := by
  cases h with
  | needLength host => rfl
  | awaitLength host => exact allows_awaitLength host
  | compareStart answer host h hstep hheld => exact h.allows_compareStart hstep host answer
  | awaitReadLeft host h hstep hphase hactive =>
    have hlower := h.lower
    have hupper := h.upper
    rw [step_of_advance (h.advance_awaitReadLeft hstep host _)]
    exact ⟨h.table, by omega, by omega⟩
  | awaitReadRight host h hstep hphase hactive hleft =>
    rw [step_of_advance (advance_awaitReadRight hstep host _)]
    trivial
  | compare answer host h hstep hheld => exact h.allows_compare hstep host answer
  | awaitCompare host h hstep hheld hanswer => exact h.allows_awaitCompare hstep hheld hanswer host
  | awaitWriteFirst answer host h hstep hphase hheld =>
    have hactive := hheld.active
    have hlower := h.lower
    have hupper := h.upper
    rw [step_of_advance (advance_awaitWriteFirst hstep host answer)]
    exact ⟨h.table, by omega, by omega⟩
  | awaitWriteSecond answer host h hstep hphase hheld =>
    rw [step_of_advance (h.advance_awaitWriteSecond hstep host answer)]
    trivial

/-- No run makes more exchanges than there are pairs. -/
theorem SortInv.swaps_le {c : SortRun} (h : SortInv g c) :
    2 * (c.state.trace.swaps : Int) ≤ g.n * (g.n - 1) := by
  have hpairs : 0 ≤ g.n * (g.n - 1) := by
    rcases le_or_gt 1 g.n with hn | hn
    · exact mul_nonneg (by omega) (by omega)
    · exact mul_nonneg_of_nonpos_of_nonpos (by omega) (by omega)
  cases h with
  | needLength host => exact hpairs
  | awaitLength host => exact hpairs
  | compareStart answer host h => exact h.swaps_le
  | awaitReadLeft host h => exact h.swaps_le
  | awaitReadRight host h => exact h.swaps_le
  | compare answer host h => exact h.swaps_le
  | awaitCompare host h => exact h.swaps_le
  | awaitWriteFirst answer host h => exact h.swaps_le
  | awaitWriteSecond answer host h => exact h.swaps_le

end Outcome

/-- The moves a sort of `n` elements has at most. -/
def sortBound (n : Int) : Nat := weight n 2 2 9 + 2

/-- **Runs of `table.sort`.**  Whatever is answered, a run is bounded, makes no more exchanges than
    there are pairs, touches the indices of the list only, and has a permutation of the list when a
    function is called and at the end.  It ends completed or with an inconsistent comparator,
    unless the list or the comparator is refused at the beginning or, without a comparator, two
    elements have no order; with the answers of a strict weak order the comparator is not
    inconsistent, and the completed list is sorted stably. -/
theorem sort_runs (g : Setting) (host : Host) {steps : Nat} {c : SortRun}
    (h : Steps (SortRun.Moves g.Answers) (.start host g.store g.table g.comparator) steps c) :
    steps ≤ sortBound g.n
      ∧ 2 * (c.state.trace.swaps : Int) ≤ g.n * (g.n - 1)
      ∧ g.Allows c (sortStep c.host c.state c.answer)
      ∧ ((∃ ending, sortStep c.host c.state c.answer = .done ending)
        ∨ ∃ c', c.Moves (fun _ _ _ => True) c') := by
  have hstep : ∀ a b, SortInv g a → a.Moves g.Answers b → SortInv g b :=
    fun _ _ hinv hm => (hinv.step hm).1
  have hinv : SortInv g c := h.invariant hstep (.needLength host)
  refine ⟨?_, hinv.swaps_le, hinv.allows, ?_⟩
  · have hlength := h.length_le hstep (fun _ _ hinv hm => (hinv.step hm).2) (.needLength host)
    exact (Nat.le_add_right _ _).trans hlength
  · cases hmove : sortStep c.host c.state c.answer with
    | next state answer => exact .inr ⟨_, .next hmove fun _ _ _ => trivial⟩
    | done ending => exact .inl ⟨ending, rfl⟩
    | ask state question =>
      cases question with
      | access request => exact .inr ⟨_, .access hmove⟩
      | call event left right =>
        exact .inr ⟨_, @SortRun.Moves.call (fun _ _ _ => True) c state event left right .nil hmove
          trivial c.host⟩

/-- The list `{2, 1}`, in ascending order of integers. -/
def Setting.sample : Setting where
  table := .opaqueId 0
  comparator := none
  store := ⟨fun _ index => .integer (Int64.ofInt (3 - index)), fun _ => 2⟩
  Answers := fun left right value => Host.sample.rawLess left right = some value
  lt := fun left right => Host.sample.rawLess left right = some (.boolean true)

/-- The list `{2, 1}` is sorted in twelve moves. -/
theorem sort_runs_sample :
    ∃ c, Steps (SortRun.Moves Setting.sample.Answers)
        (.start Host.sample Setting.sample.store Setting.sample.table Setting.sample.comparator)
        12 c
      ∧ 2 * (c.state.trace.swaps : Int) ≤ Setting.sample.n * (Setting.sample.n - 1)
      ∧ c.state.trace.swaps = 1
      ∧ c.store.element (.opaqueId 0) 1 = .integer 1
      ∧ c.store.element (.opaqueId 0) 2 = .integer 2 := by
  have hrun : ∃ c, Steps (SortRun.Moves Setting.sample.Answers)
      (.start Host.sample Setting.sample.store Setting.sample.table Setting.sample.comparator) 12 c
      ∧ c.state.trace.swaps = 1 ∧ c.store.element (.opaqueId 0) 1 = .integer 1
      ∧ c.store.element (.opaqueId 0) 2 = .integer 2 := by
    refine ⟨_, .tail (.tail (.tail (.tail (.tail (.tail (.tail (.tail (.tail (.tail (.tail (.tail
      .refl (.access rfl)) (.next rfl ?_)) (.access rfl)) (.access rfl)) (.next rfl ?_))
      (.next rfl ?_)) (.next rfl ?_)) (.next rfl ?_)) (.next rfl ?_)) (.access rfl))
      (.access rfl)) (.next rfl ?_), rfl, rfl, rfl⟩
    -- two of the moves are comparisons of numbers
    all_goals intro _ value hvalue
    all_goals first | (cases hvalue; done) | (cases hvalue; rfl)
  obtain ⟨c, hsteps, hrest⟩ := hrun
  exact ⟨c, hsteps, (sort_runs _ _ hsteps).2.1, hrest⟩

/-- A list with as many elements as an `i32` can count. -/
def Setting.big : Setting :=
  { Setting.sample with
    comparator := some (.object (.opaqueId 1))
    store := ⟨fun _ _ => .integer 0, fun _ => 2147483647⟩
    Answers := fun _ _ _ => True }

/-- The list is refused. -/
theorem sort_refuses_big :
    ∃ steps c ending, Steps (SortRun.Moves Setting.big.Answers)
        (.start Host.sample Setting.big.store Setting.big.table Setting.big.comparator) steps c
      ∧ sortStep c.host c.state c.answer = .done ending
      ∧ ending.trace.stop = .luaError := by
  refine ⟨1, _, _, .tail .refl (.access rfl), rfl, rfl⟩

end RivetLua.Stdlib.Table
