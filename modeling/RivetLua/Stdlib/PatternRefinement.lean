import RivetLua.Stdlib.PatternReference

namespace RivetLua.Stdlib.Pattern

open RivetLua.Core
open StateProg

/-!
# Stdlib — the matcher gives the answer of the reference

A run of the matcher that is not stopped by a limit ends as the reference does: with the same
answer or with a malformed pattern (`Settles`).  The rules below take a run apart; the branches of
the matcher are compared with the items of the pattern, and the loop by induction.

* `Settles` — a run and the answer it has to give;
* `repetition_settles`, `round_settles` — one item;
* `matcher_faithful` — a search and a match at one place.
-/

/-! ### Runs and answers -/

/-- A run takes no more steps than allowed, and gives the answer `x`, up to `R`, unless a limit
    stops it. -/
def Settles {α β : Type} (m : Matcher) (run : Run α) (R : α → β → Prop)
    (x : Except PatternError β) : Prop :=
  ∀ steps, steps ≤ m.limit → (run steps).2 ≤ m.limit
    ∧ match (run steps).1 with
      | .error .malformed => x = .error .malformed
      | .error _ => True
      | .ok a => ∃ b, x = .ok b ∧ R a b

section Rules

variable {α β γ δ : Type} {m : Matcher} {R : α → β → Prop} {S : γ → δ → Prop}

theorem settles_pure {a : α} {b : β} (h : R a b) : Settles m (pure a) R (.ok b) := by
  intro steps hsteps
  exact ⟨hsteps, b, rfl, h⟩

theorem settles_malformed : Settles m (Prog.fail .malformed) R (.error .malformed) := by
  intro steps hsteps
  exact ⟨hsteps, rfl⟩

theorem settles_tooComplex (x : Except PatternError β) :
    Settles m (Prog.fail .tooComplex) R x := by
  intro steps hsteps
  exact ⟨hsteps, trivial⟩

/-- The rule of sequence: the second run starts from what the answer to the first one tells. -/
theorem Settles.bind {run : Run α} {x : Except PatternError β} (h : Settles m run R x)
    {next : α → Run γ} {y : β → Except PatternError δ}
    (hnext : ∀ a b, R a b → x = .ok b → Settles m (next a) S (y b)) :
    Settles m (run >>= next) S (x >>= y) := by
  intro steps hsteps
  obtain ⟨hlimit, hanswer⟩ := h steps hsteps
  rw [Prog.bind_apply]
  rcases hrun : run steps with ⟨_ | a, steps'⟩
  · rename_i e
    rw [hrun] at hlimit hanswer
    cases e with
    | malformed =>
      refine ⟨hlimit, ?_⟩
      rw [hanswer]
      rfl
    | tooComplex => exact ⟨hlimit, trivial⟩
    | exhausted => exact ⟨hlimit, trivial⟩
  · rw [hrun] at hlimit hanswer
    obtain ⟨b, hx, hR⟩ := hanswer
    have hrest := hnext a b hR hx steps' hlimit
    rw [hx]
    exact hrest

theorem settles_step : Settles m m.step (fun _ _ => True) (.ok ()) := by
  intro steps hsteps
  unfold Matcher.step
  split
  · exact ⟨hsteps, trivial⟩
  · exact ⟨by simp only; omega, (), rfl, trivial⟩

theorem settles_step_bind {next : Unit → Run γ} {y : Except PatternError δ}
    (h : Settles m (next ()) S y) : Settles m (m.step >>= next) S y :=
  settles_step.bind fun _ _ _ _ => h

/-- A test whose outcome is known. -/
theorem Settles.bind_eq {run : Run α} {a : α} (h : Settles m run Eq (.ok a))
    {next : α → Run γ} {y : Except PatternError δ} (hnext : Settles m (next a) S y) :
    Settles m (run >>= next) S y :=
  h.bind (y := fun _ => y) fun a' b heq hb => by
    subst heq
    cases hb
    exact hnext

end Rules

/-! ### One character -/

variable {m : Matcher}

/-- `parseSingle` as an answer. -/
def orMalformed {α : Type} : Option α → Except PatternError α
  | none => .error .malformed
  | some a => .ok a

theorem classEndLoop_settles (fuel : Nat) (cursor : List UInt8) :
    Settles m (m.classEndLoop fuel cursor) Eq
      (orMalformed ((splitSet fuel cursor).map Prod.snd)) := by
  induction fuel generalizing cursor with
  | zero => exact settles_malformed
  | succ fuel ih =>
    unfold Matcher.classEndLoop
    refine settles_step_bind ?_
    cases cursor with
    | nil => exact settles_malformed
    | cons byte cursor =>
      simp only [splitSet]
      generalize (if byte = 0x25 then cursor.drop 1 else cursor) = next
      split
      · exact settles_pure rfl
      · simpa only [Option.map_map, Function.comp_def] using ih next

theorem classEnd_settles (p : List UInt8) :
    Settles m (m.classEnd p) Eq (orMalformed ((parseSingle p).map Prod.snd)) := by
  unfold Matcher.classEnd
  refine settles_step_bind ?_
  cases p with
  | nil => exact settles_malformed
  | cons byte rest =>
    simp only [parseSingle]
    split
    · split
      · rename_i hrest
        subst hrest
        exact settles_malformed
      · cases rest with
        | nil => contradiction
        | cons symbol rest => exact settles_pure rfl
    · split
      · unfold parseSet
        by_cases hcaret : rest.head? = some 0x5e
        · obtain ⟨tail, rfl⟩ : ∃ tail, rest = 0x5e :: tail := by
            cases rest with
            | nil => cases hcaret
            | cons first tail =>
              cases hcaret
              exact ⟨tail, rfl⟩
          have hloop := @classEndLoop_settles m (tail.length + 1) tail
          simpa [Option.map_map, Function.comp_def] using hloop
        · have hloop := @classEndLoop_settles m (rest.length + 1) rest
          simpa [hcaret, Option.map_map, Function.comp_def] using hloop
      · split <;> exact settles_pure rfl

theorem head?_eq_cons {bytes : List UInt8} {byte : UInt8} (h : bytes.head? = some byte) :
    bytes = byte :: bytes.drop 1 := by
  cases bytes with
  | nil => cases h
  | cons first bytes =>
    cases h
    rfl

theorem splitSet_eq_some {fuel : Nat} {cursor set rest : List UInt8}
    (h : splitSet fuel cursor = some (set, rest)) : cursor = set ++ 0x5d :: rest ∧ set ≠ [] := by
  induction fuel generalizing cursor set rest with
  | zero => cases h
  | succ fuel ih =>
    cases cursor with
    | nil => cases h
    | cons byte cursor =>
      simp only [splitSet] at h
      have hsplit : (if byte = 0x25 then byte :: cursor.take 1 else [byte])
          ++ (if byte = 0x25 then cursor.drop 1 else cursor) = byte :: cursor := by
        split
        · rw [List.cons_append, List.take_append_drop]
        · rfl
      have hne : (if byte = 0x25 then byte :: cursor.take 1 else [byte]) ≠ [] := by
        split <;> simp
      generalize (if byte = 0x25 then byte :: cursor.take 1 else [byte]) = taken at *
      generalize (if byte = 0x25 then cursor.drop 1 else cursor) = next at *
      rw [← hsplit]
      split at h
      · rename_i hclose
        cases h
        exact ⟨by rw [← head?_eq_cons hclose], hne⟩
      · rw [Option.map_eq_some_iff] at h
        obtain ⟨⟨set', rest'⟩, hset, heq⟩ := h
        cases heq
        obtain ⟨hnext, -⟩ := ih hset
        exact ⟨by rw [hnext, List.append_assoc], by simp [hne]⟩

/-! ### Sets -/

/-- The class the matcher takes a loose escape for: the escape itself. -/
def escapeByte : UInt8 := 0x25

/-- The first item of a set, as the matcher and as the reference read it. -/
theorem setItems_succ (fuel : Nat) {set : List UInt8} (hset : set ≠ []) :
    ∃ item, ∀ byte, setItems (fuel + 1) set
        = item :: setItems fuel (Matcher.setItem byte set).2
      ∧ (Matcher.setItem byte set).1 = item.has escapeByte byte
      ∧ (Matcher.setItem byte set).2.length < set.length := by
  obtain _ | ⟨first, rest⟩ := set
  · exact absurd rfl hset
  by_cases hescape : first = 0x25
  · subst hescape
    obtain _ | ⟨symbol, rest⟩ := rest
    · exact ⟨.loose, fun byte => ⟨by cases fuel <;> rfl, rfl, by simp [Matcher.setItem]⟩⟩
    · refine ⟨.escaped symbol, fun byte => ⟨rfl, rfl, ?_⟩⟩
      show rest.length < rest.length + 1 + 1
      omega
  · by_cases hrange : ∃ high tail, rest = 0x2d :: high :: tail
    · obtain ⟨high, tail, rfl⟩ := hrange
      refine ⟨.range first high, fun byte => ?_⟩
      simp [setItems, Matcher.setItem, SetItem.has]
      omega
    · refine ⟨.byte first, fun byte => ?_⟩
      have hitem : Matcher.setItem byte (first :: rest) = (byte == first, rest) := by
        unfold Matcher.setItem
        split <;> simp_all
      have hitems : setItems (fuel + 1) (first :: rest) = .byte first :: setItems fuel rest := by
        rw [setItems]
        · exact fun heq => absurd heq hescape
        · exact fun _ _ heq => absurd heq hescape
        · simpa using hrange
      rw [hitem]
      exact ⟨hitems, rfl, by simp⟩

theorem bracketLoop_settles (byte : UInt8) (positive : Bool) {fuel : Nat} {set : List UInt8}
    (hfuel : set.length ≤ fuel) :
    Settles m (m.bracketLoop byte positive fuel set) Eq
      (.ok (if (setItems fuel set).any (SetItem.has escapeByte byte) then positive else !positive)) := by
  induction fuel generalizing set with
  | zero => exact settles_pure (by simp [setItems])
  | succ fuel ih =>
    unfold Matcher.bracketLoop
    split
    · rename_i hset
      subst hset
      exact settles_pure (by simp [setItems])
    · rename_i hset
      obtain ⟨item, hitem⟩ := setItems_succ fuel hset
      obtain ⟨hitems, hhas, hless⟩ := hitem byte
      refine settles_step_bind ?_
      rw [hitems, List.any_cons, ← hhas]
      have hrest := @ih (Matcher.setItem byte set).2 (by omega)
      cases hhit : (Matcher.setItem byte set).1 with
      | true =>
        simp only [hhit]
        exact settles_pure (by simp)
      | false =>
        simp only [hhit]
        simpa using hrest

theorem setBytes_eq (body stop : List UInt8) :
    Matcher.setBytes (0x5b :: (body ++ 0x5d :: stop)) stop = body := by
  have hlength : (0x5b :: (body ++ 0x5d :: stop)).length - stop.length - 2 = body.length := by
    simp
    omega
  rw [Matcher.setBytes, hlength]
  simp

/-- A set is read from the bytes between its brackets. -/
theorem bracket_settles (byte : UInt8) {rest stop : List UInt8} {one : Single}
    (hset : parseSet rest = some (one, stop)) :
    Settles m (m.bracket byte (0x5b :: rest) stop) Eq (.ok (one.has escapeByte byte)) := by
  unfold parseSet at hset
  unfold Matcher.bracket
  split at hset
  · rename_i hcaret
    obtain ⟨⟨set, rest'⟩, hsplit, heq⟩ := Option.map_eq_some_iff.mp hset
    cases heq
    obtain ⟨hrest, -⟩ := splitSet_eq_some hsplit
    have hbytes : Matcher.setBytes (0x5b :: rest) stop = 0x5e :: set := by
      rw [head?_eq_cons hcaret, hrest]
      exact setBytes_eq (0x5e :: set) stop
    simp only [hbytes, List.head?_cons, if_true]
    exact bracketLoop_settles byte false (le_refl _)
  · rename_i hcaret
    obtain ⟨⟨set, rest'⟩, hsplit, heq⟩ := Option.map_eq_some_iff.mp hset
    cases heq
    obtain ⟨hrest, hne⟩ := splitSet_eq_some hsplit
    have hbytes : Matcher.setBytes (0x5b :: rest) stop = set := by
      rw [hrest, setBytes_eq]
    have hhead : set.head? ≠ some 0x5e := by
      rw [hrest] at hcaret
      obtain _ | ⟨first, set⟩ := set
      · exact absurd rfl hne
      · exact hcaret
    simp only [hbytes, if_neg hhead]
    exact bracketLoop_settles byte true (le_refl _)

/-- Whether a class has the character at a place of the subject. -/
def Single.hasAt (source : List UInt8) (one : Single) (s : Nat) : Bool :=
  source[s]?.any fun byte => one.has escapeByte byte

/-- A test of one character. -/
theorem single_settles (s : Nat) {p stop : List UInt8} {one : Single}
    (hparse : parseSingle p = some (one, stop)) :
    Settles m (m.single s p stop) Eq (.ok (one.hasAt m.source s)) := by
  unfold Matcher.single Single.hasAt
  refine settles_step_bind ?_
  cases hbyte : m.source[s]? with
  | none => exact settles_pure rfl
  | some byte =>
    simp only [Option.any_some]
    cases p with
    | nil => cases hparse
    | cons first rest =>
      simp only [parseSingle] at hparse
      show Settles m (if first = 0x2e then pure true else if first = 0x25 then _
        else if first = 0x5b then _ else _) Eq _
      by_cases hescape : first = 0x25
      · subst hescape
        rw [if_pos rfl] at hparse
        rw [if_neg (by decide), if_pos rfl]
        cases rest with
        | nil => cases hparse
        | cons symbol rest =>
          cases hparse
          exact settles_pure rfl
      · rw [if_neg hescape] at hparse
        by_cases hset : first = 0x5b
        · subst hset
          rw [if_pos rfl] at hparse
          rw [if_neg (by decide), if_neg (by decide), if_pos rfl]
          exact bracket_settles byte hparse
        · rw [if_neg hset] at hparse
          by_cases hany : first = 0x2e
          · rw [if_pos hany] at hparse ⊢
            cases hparse
            exact settles_pure rfl
          · rw [if_neg hany] at hparse ⊢
            rw [if_neg hescape, if_neg hset]
            cases hparse
            exact settles_pure rfl

/-! ### Repetitions -/

theorem runLength_eq (source : List UInt8) (one : Single) (s : Nat) :
    runLength escapeByte source one s
      = if one.hasAt source s then runLength escapeByte source one (s + 1) + 1 else 0 := by
  unfold runLength Single.hasAt
  by_cases hlt : s < source.length
  · rw [List.drop_eq_getElem_cons hlt, List.takeWhile_cons, List.getElem?_eq_getElem hlt]
    simp only [Option.any_some]
    split <;> rfl
  · rw [List.drop_eq_nil_of_le (by omega), List.getElem?_eq_none (by omega)]
    simp

theorem longestRun_settles {p stop : List UInt8} {one : Single}
    (hparse : parseSingle p = some (one, stop)) {fuel last : Nat}
    (hfuel : m.source.length < fuel + last) :
    Settles m (m.longestRun p stop fuel last) Eq (.ok (last + runLength escapeByte m.source one last)) := by
  induction fuel generalizing last with
  | zero =>
    have hrun := @runLength_le escapeByte m.source one last
    refine settles_pure ?_
    omega
  | succ fuel ih =>
    unfold Matcher.longestRun
    refine (single_settles last hparse).bind_eq ?_
    rw [runLength_eq]
    cases one.hasAt m.source last with
    | true =>
      have hrest := @ih (last + 1) (by omega)
      simpa [Nat.add_assoc, Nat.add_comm 1] using hrest
    | false => exact settles_pure (by simp)

/-- What the outcome of a run says: the captures count only where something was found. -/
def Tells (outcome : Matcher.Outcome) (answer : Option (Nat × List Capture)) : Prop :=
  match outcome.1 with
  | some stop => answer = some (stop, outcome.2)
  | none => answer = none

/-- The first answer, or the second one when the first finds nothing. -/
def Answer.orElse (x y : Answer) : Answer := x >>= fun
  | some found => .ok (some found)
  | none => y

theorem firstMatch_cons (next : Nat → Answer) (candidate : Nat) (places : List Nat) :
    firstMatch next (candidate :: places)
      = Answer.orElse (next candidate) (firstMatch next places) := by
  rw [firstMatch, Answer.orElse]
  rcases next candidate with _ | _ | _ <;> rfl

/-- Trying a continuation and going on with the others when it finds nothing. -/
theorem settles_try {run : Run Matcher.Outcome} {x : Answer} (h : Settles m run Tells x)
    {otherwise : Run Matcher.Outcome} {y : Answer} (hnext : Settles m otherwise Tells y) :
    Settles m (run >>= fun
        | (some found, captures) => pure (some found, captures)
        | (none, _) => otherwise) Tells (Answer.orElse x y) := by
  refine h.bind ?_
  rintro ⟨_ | stop, captures⟩ answer htells -
  · cases htells
    exact hnext
  · cases htells
    exact settles_pure rfl

section Branches

variable {again enter : Nat → List UInt8 → List Capture → Run Matcher.Outcome}
  {next : Nat → Answer} {rest : List UInt8} {captures : List Capture} {s : Nat}

theorem longest_settles {n : Nat}
    (h : ∀ i < n, Settles m (enter (s + i) rest captures) Tells (next (s + i))) :
    Settles m (m.longest enter rest captures s n) Tells
      (firstMatch next ((List.range n).reverse.map (s + ·))) := by
  induction n with
  | zero => exact settles_pure rfl
  | succ n ih =>
    rw [List.range_succ, List.reverse_append, List.reverse_singleton, List.singleton_append,
      List.map_cons, firstMatch_cons]
    exact settles_step_bind (settles_try (h n (Nat.lt_succ_self n))
      (ih fun i hi => h i (by omega)))

/-- The candidates of a greedy repetition. -/
theorem greedy_settles {p stop : List UInt8} {one : Single}
    (hparse : parseSingle p = some (one, stop))
    (h : ∀ candidate, s ≤ candidate → candidate ≤ max s m.source.length →
      Settles m (enter candidate rest captures) Tells (next candidate)) :
    Settles m (m.greedy enter p stop rest captures s) Tells
      (firstMatch next ((List.range (runLength escapeByte m.source one s + 1)).reverse.map (s + ·))) := by
  have hrun := @runLength_le escapeByte m.source one s
  refine (longestRun_settles hparse (by omega)).bind_eq ?_
  have hcount : s + runLength escapeByte m.source one s + 1 - s = runLength escapeByte m.source one s + 1 := by omega
  rw [hcount]
  exact longest_settles fun i hi => h (s + i) (by omega) (by omega)

theorem lazy_eq (source : List UInt8) (one : Single) (s : Nat) :
    (List.range (runLength escapeByte source one s + 1)).map (s + ·)
      = s :: if one.hasAt source s
          then (List.range (runLength escapeByte source one (s + 1) + 1)).map (s + 1 + ·) else [] := by
  rw [runLength_eq]
  split
  · rw [List.range_succ_eq_map, List.map_cons, List.map_map, Nat.add_zero]
    congr 2
    funext i
    simp only [Function.comp_apply]
    omega
  · rfl

/-- The candidates of a lazy repetition. -/
theorem shortest_settles {p stop : List UInt8} {one : Single}
    (hparse : parseSingle p = some (one, stop)) {fuel : Nat}
    (hfuel : m.source.length < fuel + s) (hle : s ≤ m.source.length)
    (h : ∀ candidate, s ≤ candidate → candidate ≤ m.source.length →
      Settles m (enter candidate rest captures) Tells (next candidate)) :
    Settles m (m.shortest enter p stop rest captures fuel s) Tells
      (firstMatch next ((List.range (runLength escapeByte m.source one s + 1)).map (s + ·))) := by
  induction fuel generalizing s with
  | zero => omega
  | succ fuel ih =>
    rw [lazy_eq, firstMatch_cons]
    refine settles_try (h s (le_refl _) hle) ((single_settles s hparse).bind_eq ?_)
    cases hhas : one.hasAt m.source s with
    | true =>
      have hlt : s < m.source.length := by
        by_contra hnot
        rw [Single.hasAt, List.getElem?_eq_none (by omega)] at hhas
        cases hhas
      exact settles_step_bind (ih (by omega) hlt fun candidate hfirst hlast =>
        h candidate (by omega) hlast)
    | false => exact settles_pure rfl

end Branches

/-! ### One item -/

/-- A run that gives the answer for every rest of a pattern of less than `fuel` bytes. -/
def Continues (m : Matcher) (fuel : Nat)
    (run : Nat → List UInt8 → List Capture → Run Matcher.Outcome) : Prop :=
  ∀ s p captures, p.length < fuel → Inside m.source s captures →
    Settles m (run s p captures) Tells (matchItems escapeByte m.source (parse fuel p) s captures)

theorem parseSet_length {rest stop : List UInt8} {one : Single}
    (h : parseSet rest = some (one, stop)) : stop.length < rest.length := by
  unfold parseSet at h
  split at h
  · obtain ⟨⟨set, rest'⟩, hsplit, heq⟩ := Option.map_eq_some_iff.mp h
    cases heq
    have hlength := congrArg List.length (splitSet_eq_some hsplit).1
    simp only [List.length_drop, List.length_append, List.length_cons] at hlength
    omega
  · obtain ⟨⟨set, rest'⟩, hsplit, heq⟩ := Option.map_eq_some_iff.mp h
    cases heq
    have hlength := congrArg List.length (splitSet_eq_some hsplit).1
    simp only [List.length_append, List.length_cons] at hlength
    omega

theorem parseSingle_length {p stop : List UInt8} {one : Single}
    (h : parseSingle p = some (one, stop)) : stop.length < p.length := by
  cases p with
  | nil => cases h
  | cons byte rest =>
    simp only [parseSingle] at h
    split at h
    · split at h
      · cases h
      · cases h
        rw [List.length_cons, List.length_cons]
        omega
    · split at h
      · exact (parseSet_length h).trans (by simp)
      · split at h <;> (cases h; simp)

section Item

variable {again enter : Nat → List UInt8 → List Capture → Run Matcher.Outcome} {fuel s : Nat}
  {captures : List Capture}

/-- What stands behind a class, and what is left of the pattern. -/
theorem parseRepetition_cases (stop : List UInt8) :
    (∃ rest, stop = 0x3f :: rest ∧ parseRepetition stop = (.optional, rest))
      ∨ (∃ rest, stop = 0x2a :: rest ∧ parseRepetition stop = (.star, rest))
      ∨ (∃ rest, stop = 0x2b :: rest ∧ parseRepetition stop = (.plus, rest))
      ∨ (∃ rest, stop = 0x2d :: rest ∧ parseRepetition stop = (.lazy, rest))
      ∨ (stop.head? ≠ some 0x3f ∧ stop.head? ≠ some 0x2a ∧ stop.head? ≠ some 0x2b
          ∧ stop.head? ≠ some 0x2d ∧ parseRepetition stop = (.once, stop)) := by
  unfold parseRepetition
  split
  · exact .inl ⟨_, rfl, rfl⟩
  · exact .inr (.inl ⟨_, rfl, rfl⟩)
  · exact .inr (.inr (.inl ⟨_, rfl, rfl⟩))
  · exact .inr (.inr (.inr (.inl ⟨_, rfl, rfl⟩)))
  · rename_i h1 h2 h3 h4
    refine .inr (.inr (.inr (.inr ⟨?_, ?_, ?_, ?_, rfl⟩)))
    · exact fun h => h1 _ (head?_eq_cons h)
    · exact fun h => h2 _ (head?_eq_cons h)
    · exact fun h => h3 _ (head?_eq_cons h)
    · exact fun h => h4 _ (head?_eq_cons h)

theorem firstMatch_singleton (next : Nat → Answer) (candidate : Nat) :
    firstMatch next [candidate] = next candidate := by
  rw [firstMatch_cons, firstMatch, Answer.orElse]
  rcases next candidate with _ | _ | _ <;> rfl

theorem runLength_eq_zero {source : List UInt8} {one : Single} {s : Nat} :
    runLength escapeByte source one s = 0 ↔ one.hasAt source s = false := by
  rw [runLength_eq]
  cases one.hasAt source s <;> simp

/-- **A class with its repetition.** -/
theorem repetition_settles (hagain : Continues m fuel again) (henter : Continues m fuel enter)
    {p : List UInt8} (hlength : p.length ≤ fuel) (hinside : Inside m.source s captures) :
    Settles m (m.repetition again enter s p captures) Tells
      (matchItems escapeByte m.source ((parseRepeated p).1 :: parse fuel (parseRepeated p).2) s
        captures) := by
  unfold Matcher.repetition
  unfold parseRepeated
  have hend := @classEnd_settles m p
  cases hparse : parseSingle p with
  | none =>
    rw [hparse] at hend
    exact hend.bind (y := fun _ => .error .malformed) fun _ _ _ h => nomatch h
  | some parsed =>
    obtain ⟨one, stop⟩ := parsed
    rw [hparse] at hend
    have hshort := parseSingle_length hparse
    have hle := hinside.le
    refine hend.bind_eq ?_
    refine (single_settles s hparse).bind_eq ?_
    have hcandidate : ∀ {run : Nat → List UInt8 → List Capture → Run Matcher.Outcome}
        {rest : List UInt8}, Continues m fuel run → rest.length < fuel →
        ∀ candidate, s ≤ candidate → candidate ≤ m.source.length →
          Settles m (run candidate rest captures) Tells
            (matchItems escapeByte m.source (parse fuel rest) candidate captures) :=
      fun hrun hlt candidate hfirst hlast =>
        hrun candidate _ captures hlt (hinside.mono hfirst hlast)
    have hhas : one.hasAt m.source s = true → s + 1 ≤ m.source.length := by
      intro hhas
      by_contra hnot
      rw [Single.hasAt, List.getElem?_eq_none (by omega)] at hhas
      cases hhas
    have hzero := @runLength_eq_zero m.source one s
    rcases parseRepetition_cases stop with
      ⟨rest, rfl, hrep⟩ | ⟨rest, rfl, hrep⟩ | ⟨rest, rfl, hrep⟩ | ⟨rest, rfl, hrep⟩
        | ⟨h1, h2, h3, h4, hrep⟩
    · simp only [hrep]
      rw [List.length_cons] at hshort
      show Settles m (Matcher.optional again enter _ s rest captures) Tells _
      simp only [matchItems, candidates, hzero, Matcher.optional]
      cases hmatched : one.hasAt m.source s with
      | true =>
        rw [if_pos rfl, if_neg (by decide), firstMatch_cons, firstMatch_singleton]
        exact settles_try (hcandidate henter (by omega) (s + 1) (by omega) (hhas hmatched))
          (hcandidate hagain (by omega) s (le_refl _) hle)
      | false =>
        rw [if_neg (by decide), if_pos rfl, firstMatch_singleton]
        exact hcandidate hagain (by omega) s (le_refl _) hle
    · simp only [hrep]
      rw [List.length_cons] at hshort
      show Settles m (m.greedy enter p _ rest captures s) Tells _
      simp only [matchItems, candidates]
      exact greedy_settles hparse fun candidate hfirst hlast =>
        hcandidate henter (by omega) candidate hfirst (by omega)
    · simp only [hrep]
      rw [List.length_cons] at hshort
      show Settles m (if _ then m.greedy enter p _ rest captures (s + 1) else _) Tells _
      simp only [matchItems, candidates]
      cases hmatched : one.hasAt m.source s with
      | true =>
        have hlt := hhas hmatched
        rw [if_pos rfl, runLength_eq, if_pos hmatched]
        exact greedy_settles hparse fun candidate hfirst hlast =>
          hcandidate henter (by omega) candidate (by omega) (by omega)
      | false =>
        rw [if_neg (by decide), hzero.mpr hmatched]
        exact settles_pure rfl
    · simp only [hrep]
      rw [List.length_cons] at hshort
      show Settles m (m.shortest enter p _ rest captures _ s) Tells _
      simp only [matchItems, candidates]
      exact shortest_settles hparse (by omega) hle
        (hcandidate henter (by omega))
    · simp only [hrep]
      simp only [matchItems, candidates, hzero]
      split
      · exact absurd rfl h1
      · exact absurd rfl h2
      · exact absurd rfl h3
      · exact absurd rfl h4
      · cases hmatched : one.hasAt m.source s with
        | true =>
          rw [if_pos rfl, if_neg (by decide), firstMatch_singleton]
          exact hcandidate hagain (by omega) (s + 1) (by omega) (hhas hmatched)
        | false =>
          rw [if_neg (by decide), if_pos rfl]
          exact settles_pure rfl

theorem balanceLoop_settles (opening closing : UInt8) (text : List UInt8) (level s : Nat) :
    Settles m (m.balanceLoop opening closing text level s) Eq
      (.ok (balanced opening closing text level s)) := by
  induction text generalizing level s with
  | nil => exact settles_pure rfl
  | cons byte text ih =>
    unfold Matcher.balanceLoop balanced
    refine settles_step_bind ?_
    split
    · split
      · exact settles_pure rfl
      · exact ih _ _
    · split
      · exact ih _ _
      · exact ih _ _

/-- **A balanced string.** -/
theorem balance_settles (hagain : Continues m fuel again) {opening closing : UInt8}
    {rest : List UInt8} (hlength : rest.length < fuel) (hinside : Inside m.source s captures) :
    Settles m (m.balance again s (opening :: closing :: rest) captures) Tells
      (matchItems escapeByte m.source (.balance opening closing :: parse fuel rest) s captures) := by
  simp only [Matcher.balance, matchItems]
  split
  · exact settles_pure rfl
  · rename_i hopen
    refine (balanceLoop_settles opening closing _ 1 (s + 1)).bind_eq ?_
    cases hbalanced : balanced opening closing (m.source.drop (s + 1)) 1 (s + 1) with
    | none => exact settles_pure rfl
    | some stop =>
      have hbounds := balanced_bounds hbalanced
      have hlt : s < m.source.length := by
        by_contra hnot
        rw [List.getElem?_eq_none (by omega)] at hopen
        exact hopen (by simp)
      rw [List.length_drop] at hbounds
      exact hagain stop rest captures hlength (hinside.mono (by omega) (by omega))

/-- **A frontier.** -/
theorem frontier_settles (hagain : Continues m fuel again) {rest stop : List UInt8} {set : Single}
    (hset : parseSet rest = some (set, stop)) (hlength : rest.length < fuel)
    (hinside : Inside m.source s captures)  :
    Settles m (m.frontier again s (0x5b :: rest) captures) Tells
      (matchItems escapeByte m.source (.frontier set :: parse fuel stop) s captures) := by
  have hend := @classEnd_settles m (0x5b :: rest)
  have hparse : parseSingle (0x5b :: rest) = some (set, stop) := hset
  rw [hparse] at hend
  simp only [Matcher.frontier, matchItems]
  rw [if_neg (by simp)]
  refine hend.bind_eq ((bracket_settles _ hset).bind_eq ?_)
  generalize (if s = 0 then (0 : UInt8) else m.source.getD (s - 1) 0) = previous
  cases hprevious : set.has escapeByte previous with
  | true =>
    rw [if_pos rfl, if_neg (by simp)]
    exact settles_pure rfl
  | false =>
    rw [if_neg (by decide)]
    refine (bracket_settles _ hset).bind_eq ?_
    cases hcurrent : set.has escapeByte (m.source.getD s 0) with
    | true =>
      rw [if_pos rfl, if_pos ⟨rfl, rfl⟩]
      exact hagain s stop captures ((parseSet_length hset).trans hlength) hinside
    | false =>
      rw [if_neg (by decide), if_neg (by simp)]
      exact settles_pure rfl

theorem malformed_frontier_settles {rest : List UInt8} (hset : parseSet rest = none) :
    Settles m (m.frontier again s (0x5b :: rest) captures) Tells (.error .malformed) := by
  have hend := @classEnd_settles m (0x5b :: rest)
  have hparse : parseSingle (0x5b :: rest) = none := hset
  rw [hparse] at hend
  unfold Matcher.frontier
  rw [if_neg (by simp)]
  exact hend.bind (y := fun _ => .error .malformed) fun _ _ _ h => nomatch h

/-- The comparison of a back reference is one of byte strings. -/
theorem sameBytes_settles {length start : Nat} (hs : s + length ≤ m.source.length)
    (hstart : start + length ≤ m.source.length) :
    Settles m (m.sameBytes length s start) Eq
      (.ok (((m.source.drop start).take length).isPrefixOf (m.source.drop s))) := by
  induction length generalizing s start with
  | zero => exact settles_pure (by simp)
  | succ length ih =>
    have hs' : s < m.source.length := by omega
    have hstart' : start < m.source.length := by omega
    unfold Matcher.sameBytes
    refine settles_step_bind ?_
    rw [List.drop_eq_getElem_cons hs', List.drop_eq_getElem_cons hstart', List.take_succ_cons,
      List.isPrefixOf_cons_cons, List.getElem?_eq_getElem hs', List.getElem?_eq_getElem hstart']
    by_cases hsame : m.source[s] = m.source[start]
    · rw [if_neg (by simp [hsame])]
      simpa [hsame] using ih (by omega) (by omega)
    · rw [if_pos (by simpa using hsame)]
      refine settles_pure ?_
      simp [Ne.symm hsame]

/-- **A back reference.** -/
theorem backReference_settles (hagain : Continues m fuel again) {code : UInt8} {rest : List UInt8}
    (hlength : rest.length < fuel) (hinside : Inside m.source s captures) :
    Settles m (m.backReference again code s rest captures) Tells
      (matchItems escapeByte m.source (.backReference code :: parse fuel rest) s captures) := by
  simp only [Matcher.backReference, matchItems]
  split
  · exact settles_malformed
  · cases hcapture : captures[(code - 0x31).toNat]? with
    | none => exact settles_malformed
    | some capture =>
      obtain ⟨start, stop, position⟩ := capture
      have hmem := List.mem_of_getElem? hcapture
      obtain ⟨hfirst, hstop⟩ := hinside.captures _ hmem
      have hle := hinside.le
      cases stop with
      | none => exact settles_malformed
      | some stop =>
        obtain ⟨hbefore, hlast⟩ := hstop stop rfl
        have hbefore : start ≤ stop := hbefore
        cases position with
        | true => exact settles_pure rfl
        | false =>
          simp only [Bool.false_eq_true, if_false]
          rw [if_neg (by omega)]
          split
          · -- the capture is longer than the rest of the subject
            have hnot : ((m.source.drop start).take (stop - start)).isPrefixOf
                (m.source.drop s) = false := by
              rw [← Bool.not_eq_true, List.isPrefixOf_iff_prefix]
              intro hprefix
              have hlength := hprefix.length_le
              simp only [List.length_take, List.length_drop] at hlength
              omega
            rw [hnot]
            exact settles_pure rfl
          · refine (sameBytes_settles (by omega) (by omega)).bind_eq ?_
            split
            · exact hagain _ rest captures hlength (hinside.mono (by omega) (by omega))
            · exact settles_pure rfl

theorem openCapture_settles (hagain : Continues m fuel again) {rest : List UInt8}
    (hlength : rest.length < fuel) (hinside : Inside m.source s captures) :
    Settles m (Matcher.openCapture again s rest captures) Tells
      (matchItems escapeByte m.source ((parseItem 0x28 rest).1 :: parse fuel (parseItem 0x28 rest).2) s
        captures) := by
  simp only [parseItem, if_true, Matcher.openCapture]
  by_cases hposition : rest.head? = some 0x29
  · simp only [hposition, if_true, matchItems]
    split
    · exact settles_malformed
    · have hdrop : (rest.drop 1).length < fuel := by
        rw [List.length_drop]
        omega
      exact hagain s (rest.drop 1) _ hdrop (hinside.openCapture true)
  · simp only [hposition, if_false, matchItems]
    split
    · exact settles_malformed
    · exact hagain s rest _ hlength (hinside.openCapture false)

theorem closeCapture_settles (hagain : Continues m fuel again) {rest : List UInt8}
    (hlength : rest.length < fuel) (hinside : Inside m.source s captures) :
    Settles m (Matcher.closeCapture again s rest captures) Tells
      (matchItems escapeByte m.source (.closeCapture :: parse fuel rest) s captures) := by
  simp only [Matcher.closeCapture, matchItems]
  cases lastOpen captures with
  | none => exact settles_malformed
  | some index => exact hagain s rest _ hlength (hinside.closeAt index)

/-- **An escape.** -/
theorem escape_settles (hagain : Continues m fuel again) (henter : Continues m fuel enter)
    {rest : List UInt8} (hlength : rest.length < fuel) (hinside : Inside m.source s captures) :
    Settles m (m.escape again enter s (0x25 :: rest) rest captures) Tells
      (matchItems escapeByte m.source ((parseEscape (0x25 :: rest) rest).1
        :: parse fuel (parseEscape (0x25 :: rest) rest).2) s captures) := by
  cases rest with
  | nil => exact settles_malformed
  | cons code rest =>
    rw [List.length_cons] at hlength
    simp only [Matcher.escape, parseEscape]
    by_cases hbalance : code = 0x62
    · simp only [hbalance, if_true]
      obtain _ | ⟨opening, _ | ⟨closing, rest⟩⟩ := rest
      · exact settles_malformed
      · exact settles_malformed
      · simp only [List.length_cons] at hlength
        exact balance_settles hagain (by omega) hinside
    · by_cases hfrontier : code = 0x66
      · simp only [hfrontier, if_true, if_neg (show (0x66 : UInt8) ≠ 0x62 by decide)]
         
        by_cases hset : rest.head? = some 0x5b
        · have hcons := head?_eq_cons hset
          rw [if_neg (not_not.mpr hset)]
          have htail : (rest.drop 1).length < fuel := by
            rw [List.length_drop]
            omega
          cases hparse : parseSet (rest.drop 1) with
          | none =>
            rw [hcons]
            exact malformed_frontier_settles hparse
          | some parsed =>
            obtain ⟨set, stop⟩ := parsed
            rw [hcons]
            exact frontier_settles hagain hparse htail hinside
        · rw [if_pos hset]
          simp only [Matcher.frontier, if_pos hset]
          exact settles_malformed
      · rw [if_neg hbalance, if_neg hfrontier]
        rw [if_neg hbalance, if_neg hfrontier]
        by_cases hdigit : isAsciiDigit code = true
        · rw [if_pos hdigit]
          rw [if_pos hdigit]
          exact backReference_settles hagain (by omega) hinside
        · rw [if_neg hdigit]
          rw [if_neg hdigit]
          exact repetition_settles hagain henter (by simp; omega) hinside

/-- **One round.**  The loop takes one item of the pattern. -/
theorem round_settles (hagain : Continues m fuel again) (henter : Continues m fuel enter)
    {p : List UInt8} (hlength : p.length < fuel + 1) (hinside : Inside m.source s captures) :
    Settles m (m.round again enter s p captures) Tells
      (matchItems escapeByte m.source (parse (fuel + 1) p) s captures) := by
  unfold Matcher.round
  refine settles_step_bind ?_
  cases p with
  | nil => exact settles_pure rfl
  | cons byte rest =>
    rw [List.length_cons] at hlength
    simp only [parse]
    by_cases hopen : byte = 0x28
    · subst hopen
      rw [if_pos rfl]
      exact openCapture_settles hagain (by omega) hinside
    · by_cases hclose : byte = 0x29
      · subst hclose
        rw [if_neg hopen, if_pos rfl]
        exact closeCapture_settles hagain (by omega) hinside
      · simp only [parseItem, if_neg hopen, if_neg hclose]
        by_cases hend : byte = 0x24 ∧ rest = []
        · simp only [if_pos hend, matchItems]
          have hnil : parse fuel [] = [] := by cases fuel <;> rfl
          rw [hnil]
          split
          · exact settles_pure rfl
          · exact settles_pure rfl
        · simp only [if_neg hend]
          by_cases hescape : byte = 0x25
          · subst hescape
            rw [if_pos rfl]
            rw [if_pos rfl]
            exact escape_settles hagain henter (by omega) hinside
          · rw [if_neg hescape]
            rw [if_neg hescape]
            exact repetition_settles hagain henter (by simp; omega) hinside

end Item

/-! ### Whole patterns -/

/-- **The loop.**  By induction on the rounds that are left: a round takes at least a byte of the
    pattern, so they are enough for every rest shorter than their number. -/
theorem matchLoop_continues (fuel depth : Nat) : Continues m fuel (m.matchLoop fuel depth) := by
  induction fuel generalizing depth with
  | zero =>
    intro s p captures hlength
    omega
  | succ fuel ih =>
    have henter : Continues m fuel fun s p captures =>
        if depth + 1 ≥ Matcher.maxDepth then Prog.fail .tooComplex
        else m.matchLoop fuel (depth + 1) s p captures := by
      intro s p captures hlength hinside
      simp only
      split
      · exact settles_tooComplex _
      · exact ih (depth + 1) s p captures hlength hinside
    intro s p captures hlength hinside
    exact round_settles (ih depth) henter hlength hinside

theorem matchAt_settles {depth s : Nat} {p : List UInt8} {captures : List Capture}
    (hlength : p.length ≤ m.pattern.length) (hinside : Inside m.source s captures) :
    Settles m (m.matchAt depth s p captures) Tells
      (matchItems escapeByte m.source (parse (m.pattern.length + 1) p) s captures) := by
  unfold Matcher.matchAt
  split
  · exact settles_tooComplex _
  · exact matchLoop_continues _ depth s p captures (by omega) hinside

theorem patternStart_length (anchor : Bool) :
    (m.patternStart anchor).length ≤ m.pattern.length := by
  unfold Matcher.patternStart
  split <;> simp

/-- One place: the match there, then what the search makes of it. -/
theorem searchStep_settles {anchor : Bool} {last : Option Nat} {position : Nat}
    (hle : position ≤ m.source.length) {otherwise : Run (Option Found)} {places : List Nat}
    (hnext : Settles m otherwise Eq (searchItems escapeByte m.source
      (patternItems m.pattern anchor) last places)) :
    Settles m (m.matchAt 0 position (m.patternStart anchor) [] >>= fun
        | (some stop, captures) =>
          if some stop ≠ last then pure (some ⟨position, stop, captures⟩) else otherwise
        | (none, _) => otherwise) Eq
      (searchItems escapeByte m.source (patternItems m.pattern anchor) last
        (position :: places)) := by
  have hmatch := @matchAt_settles m 0 position (m.patternStart anchor) []
    (patternStart_length anchor) (inside_nil hle)
  have hbind : searchItems escapeByte m.source (patternItems m.pattern anchor) last
        (position :: places)
      = matchItems escapeByte m.source (patternItems m.pattern anchor) position [] >>= fun
          | none => searchItems escapeByte m.source (patternItems m.pattern anchor) last places
          | some (stop, captures) =>
            if some stop ≠ last then .ok (some ⟨position, stop, captures⟩)
            else searchItems escapeByte m.source (patternItems m.pattern anchor) last places := by
    rw [searchItems]
    rcases matchItems escapeByte m.source (patternItems m.pattern anchor) position []
      with _ | _ | _ <;> rfl
  rw [hbind]
  refine hmatch.bind ?_
  rintro ⟨_ | stop, captures⟩ answer htells -
  · cases htells
    exact hnext
  · cases htells
    simp only
    split
    · exact settles_pure rfl
    · exact hnext

theorem searchLoop_settles (last : Option Nat) {n position : Nat}
    (hle : position + n ≤ m.source.length + 1) :
    Settles m (m.searchLoop false last n position) Eq
      (searchItems escapeByte m.source (patternItems m.pattern false) last
        (List.range' position n)) := by
  induction n generalizing position with
  | zero => exact settles_pure rfl
  | succ n ih =>
    rw [List.range'_succ]
    exact settles_step_bind (searchStep_settles (by omega) (ih (by omega)))

/-- **A search.**  The answer is that of the reference that takes a loose escape for itself. -/
theorem search_settles (start : Nat) (anchor : Bool) (last : Option Nat) :
    Settles m (m.search start anchor last) Eq
      (referenceSearch escapeByte m.source m.pattern start anchor last) := by
  unfold Matcher.search referenceSearch searchPlaces
  split
  · exact settles_pure rfl
  · cases anchor with
    | false => exact searchLoop_settles last (by omega)
    | true =>
      obtain ⟨n, hn⟩ : ∃ n, m.source.length + 1 - start = n + 1 :=
        ⟨m.source.length - start, by omega⟩
      rw [hn]
      exact settles_step_bind (searchStep_settles (by omega) (settles_pure rfl))

/-- **A match at one place.** -/
theorem at_settles (start : Nat) (anchor : Bool) :
    Settles m (m.«at» start anchor) Eq (searchItems escapeByte m.source
      (patternItems m.pattern anchor) none (searchPlaces m.source start true)) := by
  unfold Matcher.«at» searchPlaces
  split
  · exact settles_pure rfl
  · have hstep := @searchStep_settles m anchor none start (by omega) (pure none) []
      (settles_pure rfl)
    simp only [ne_eq, reduceCtorEq, not_false_eq_true, if_true] at hstep
    exact settles_step_bind hstep

/-- The class `lstrlib.c` takes a loose escape for: the bracket behind it. -/
def closingBracket : UInt8 := 0x5d

/-- What the outcome of a search and the number of its steps have to be, for the items of a pattern
    and the places that are tried. -/
structure Faithful (m : Matcher) (items : List Item) (last : Option Nat) (places : List Nat)
    (outcome : Except PatternError (Option Found) × Nat) : Prop where
  steps_le : outcome.2 ≤ m.limit
  answer : outcome.1 ≠ .error .tooComplex → outcome.1 ≠ .error .exhausted →
    outcome.1 = searchItems escapeByte m.source items last places
      ∧ (items.all Item.tidy = true →
          outcome.1 = searchItems closingBracket m.source items last places)
  bounds : ∀ found, outcome.1 = .ok (some found) →
    found.start ∈ places ∧ found.start ≤ found.stop ∧ found.stop ≤ m.source.length
      ∧ ∀ capture ∈ found.captures, ∀ stop, capture.stop = some stop →
          capture.start ≤ stop ∧ stop ≤ m.source.length

theorem Settles.faithful {run : Run (Option Found)} {items : List Item} {last : Option Nat}
    {places : List Nat} (hplaces : ∀ place ∈ places, place ≤ m.source.length)
    (h : Settles m run Eq (searchItems escapeByte m.source items last places)) {steps : Nat}
    (hsteps : steps ≤ m.limit) : Faithful m items last places (run steps) := by
  obtain ⟨hlimit, hanswer⟩ := h steps hsteps
  constructor
  · exact hlimit
  · intro hcomplex hexhausted
    have heq : (run steps).1 = searchItems escapeByte m.source items last places := by
      revert hanswer hcomplex hexhausted
      rcases (run steps).1 with e | answer
      · cases e <;> simp
        exact fun h => h.symm
      · rintro ⟨answer', hx, rfl⟩ _ _
        exact hx.symm
    refine ⟨heq, fun htidy => ?_⟩
    rw [heq]
    exact searchItems_of_tidy htidy escapeByte closingBracket last places
  · intro found hfound
    rw [hfound] at hanswer
    obtain ⟨answer, hx, rfl⟩ := hanswer
    obtain ⟨hmem, hle, hinside⟩ := searchItems_bounds hplaces hx
    refine ⟨hmem, hle, hinside.le, fun capture hcapture stop hstop => ?_⟩
    obtain ⟨hfirst, hlast⟩ := (hinside.captures capture hcapture).2 stop hstop
    exact ⟨hfirst, hlast.trans hinside.le⟩

/-- The places of a search lie within the subject. -/
theorem searchPlaces_le {source : List UInt8} {start place : Nat} {anchor : Bool}
    (h : place ∈ searchPlaces source start anchor) : place ≤ source.length := by
  unfold searchPlaces at h
  split at h
  · cases h
  · split at h
    · rw [List.mem_singleton] at h
      omega
    · rw [List.mem_range'_1] at h
      omega

/-- **The matcher.**  A search and a match at one place give the answer of the reference, unless a
    limit stops them, within the steps they are allowed; a loose escape stands for itself, where
    `lstrlib.c` takes the bracket that closes its set. -/
theorem matcher_faithful (m : Matcher) (start : Nat) (anchor : Bool) (last : Option Nat)
    {steps : Nat} (hsteps : steps ≤ m.limit) :
    Faithful m (patternItems m.pattern anchor) last (searchPlaces m.source start anchor)
        (m.search start anchor last steps)
      ∧ Faithful m (patternItems m.pattern anchor) none (searchPlaces m.source start true)
        (m.«at» start anchor steps) :=
  ⟨(search_settles start anchor last).faithful (fun _ => searchPlaces_le) hsteps,
    (at_settles start anchor).faithful (fun _ => searchPlaces_le) hsteps⟩

/-- `(%a+)=(%a-)$` in `k=vw`, with two captures and a lazy repetition that has to come back. -/
theorem matcher_faithful_assignment :
    (Matcher.search ⟨[0x6b, 0x3d, 0x76, 0x77],
        [0x28, 0x25, 0x61, 0x2b, 0x29, 0x3d, 0x28, 0x25, 0x61, 0x2d, 0x29, 0x24], 100⟩ 0 false none
        0).1 = .ok (some ⟨0, 4, [⟨0, some 1, false⟩, ⟨2, some 4, false⟩]⟩)
      ∧ searchItems closingBracket [0x6b, 0x3d, 0x76, 0x77]
        (patternItems [0x28, 0x25, 0x61, 0x2b, 0x29, 0x3d, 0x28, 0x25, 0x61, 0x2d, 0x29, 0x24]
          false) none (searchPlaces [0x6b, 0x3d, 0x76, 0x77] 0 false)
        = .ok (some ⟨0, 4, [⟨0, some 1, false⟩, ⟨2, some 4, false⟩]⟩) := by
  let m : Matcher := ⟨[0x6b, 0x3d, 0x76, 0x77],
    [0x28, 0x25, 0x61, 0x2b, 0x29, 0x3d, 0x28, 0x25, 0x61, 0x2d, 0x29, 0x24], 100⟩
  have hsearch : (m.search 0 false none 0).1
      = .ok (some ⟨0, 4, [⟨0, some 1, false⟩, ⟨2, some 4, false⟩]⟩) := by rfl
  have hfaithful := (matcher_faithful m 0 false none (Nat.zero_le 100)).1
  obtain ⟨-, htidy⟩ := hfaithful.answer (by rw [hsearch]; simp) (by rw [hsearch]; simp)
  exact ⟨hsearch, (htidy (by rfl)).symm.trans hsearch⟩

/-- `[a-%%]` on a closing bracket: the reference matches, the matcher does not. -/
theorem matcher_differs_looseEscape :
    (Matcher.search ⟨[0x5d], [0x5b, 0x61, 0x2d, 0x25, 0x25, 0x5d], 100⟩ 0 false none 0).1 = .ok none
      ∧ referenceSearch closingBracket [0x5d] [0x5b, 0x61, 0x2d, 0x25, 0x25, 0x5d] 0 false none
        = .ok (some ⟨0, 1, []⟩) :=
  ⟨by rfl, by rfl⟩

end RivetLua.Stdlib.Pattern
