import Mathlib.Data.List.TakeWhile
import Mathlib.Order.Bounds.Basic
import RivetLua.Stdlib.Pattern

namespace RivetLua.Stdlib.Pattern

open StateProg

/-!
# Stdlib — the plain search and the matcher

`string.find` leaves the matcher out when the pattern has none of the bytes of `special`, and looks
for the pattern itself.  The list is that of `lstrlib.c`: a closing parenthesis is not on it, and the
matcher, were it asked, would stop at one with a malformed pattern.

* `special`, `Matcher.plainFind` — the choice and the loop; every index of the loop may panic;
* `OccursAt`, `Leftmost` — what a search without special bytes is after;
* `matchLoop_literal` — the matcher on a pattern without special bytes;
* `plainFind_search` — the two searches compared.
-/

/-! ### The plain search -/

/-- `special`. -/
def special (pattern : List UInt8) : Bool :=
  pattern.any fun byte =>
    [0x5e, 0x24, 0x2a, 0x2b, 0x3f, 0x2e, 0x28, 0x5b, 0x25, 0x2d].contains byte

/-- How a plain search stops: the matcher refuses, or an index or a difference panics. -/
inductive PlainStop where
  | refused (error : PatternError)
  | panicked
  deriving DecidableEq, Repr

/-- A program of the plain search. -/
abbrev PlainRun (α : Type) := Prog Nat PlainStop α

/-- `bytes[index]`. -/
def readAt (bytes : List UInt8) (index : Nat) : PlainRun UInt8 :=
  Prog.ofOption .panicked bytes[index]?

/-- `a - b` on `usize`. -/
def differenceOf (a b : Nat) : PlainRun Nat :=
  if b ≤ a then pure (a - b) else Prog.fail .panicked

namespace Matcher

variable (m : Matcher)

/-- `Matcher::step`, in a plain search. -/
def plainStep : PlainRun Unit := fun steps =>
  if steps ≥ m.limit then (.error (.refused .exhausted), steps) else (.ok (), steps + 1)

/-- The inner loop of `Matcher::plain_find`, over the offsets of the pattern from `offset` on. -/
def plainEqual (position : Nat) : Nat → Nat → PlainRun Bool
  | 0, _ => pure true
  | n + 1, offset => do
    m.plainStep
    let byte ← readAt m.source (position + offset)
    let wanted ← readAt m.pattern offset
    if byte ≠ wanted then pure false else plainEqual position n (offset + 1)

/-- The loop of `Matcher::plain_find` over `n` places from `position` on. -/
def plainLoop : Nat → Nat → PlainRun (Option Found)
  | 0, _ => pure none
  | n + 1, position => do
    m.plainStep
    if ← m.plainEqual position m.pattern.length 0 then
      pure (some ⟨position, position + m.pattern.length, []⟩)
    else plainLoop n (position + 1)

/-- `Matcher::plain_find`. -/
def plainFind (start : Nat) : PlainRun (Option Found) :=
  if start > m.source.length then pure none
  else do
    let room ← differenceOf m.source.length start
    if m.pattern.length > room then pure none
    else do
      let last ← differenceOf m.source.length m.pattern.length
      m.plainLoop (last + 1 - start) start

end Matcher

/-! ### Occurrences -/

/-- The text occurs in the subject at a place. -/
def OccursAt (source text : List UInt8) (place : Nat) : Prop :=
  ∃ front back, source = front ++ text ++ back ∧ front.length = place

/-- The answer of a search for the text itself, from `start` on. -/
def Leftmost (source text : List UInt8) (start : Nat) : Option Found → Prop
  | none => ∀ place, start ≤ place → ¬ OccursAt source text place
  | some found =>
    IsLeast (fun place => start ≤ place ∧ OccursAt source text place) found.start
      ∧ found.stop = found.start + text.length ∧ found.captures = []

/-- The bytes before the first closing parenthesis. -/
def untilClosing (pattern : List UInt8) : List UInt8 := pattern.takeWhile (· != 0x29)

/-- The matcher comes to the closing parenthesis of a pattern that opens none. -/
def ReachesClosing (source pattern : List UInt8) (start : Nat) : Prop :=
  0x29 ∈ pattern ∧ ∃ place, start ≤ place ∧ OccursAt source (untilClosing pattern) place

section Occurrences

variable {source text : List UInt8} {place : Nat}

theorem occursAt_iff : OccursAt source text place
    ↔ place ≤ source.length ∧ text <+: source.drop place := by
  constructor
  · rintro ⟨front, back, rfl, rfl⟩
    refine ⟨by simp, back, ?_⟩
    simp
  · rintro ⟨hle, back, hback⟩
    refine ⟨source.take place, back, ?_, by simp [hle]⟩
    rw [List.append_assoc, hback, List.take_append_drop]

theorem OccursAt.le (h : OccursAt source text place) : place + text.length ≤ source.length := by
  obtain ⟨front, back, rfl, rfl⟩ := h
  simp

/-- A part of the text from its start occurs where the text does. -/
theorem OccursAt.of_prefix {part : List UInt8} (h : OccursAt source text place)
    (hpart : part <+: text) : OccursAt source part place := by
  rw [occursAt_iff] at h ⊢
  exact ⟨h.1, hpart.trans h.2⟩

theorem untilClosing_prefix (pattern : List UInt8) : untilClosing pattern <+: pattern :=
  List.takeWhile_prefix _

/-- Two answers to the same search are the same. -/
theorem Leftmost.unique {start : Nat} {answer answer' : Option Found}
    (h : Leftmost source text start answer) (h' : Leftmost source text start answer') :
    answer = answer' := by
  rcases answer with _ | found <;> rcases answer' with _ | found'
  · rfl
  · exact absurd h'.1.1.2 (h _ h'.1.1.1)
  · exact absurd h.1.1.2 (h' _ h.1.1.1)
  · obtain ⟨hleast, hstop, hcaptures⟩ := h
    obtain ⟨hleast', hstop', hcaptures'⟩ := h'
    have hstart : found.start = found'.start := hleast.unique hleast'
    congr 1
    rcases found with ⟨first, stop, captures⟩
    rcases found' with ⟨first', stop', captures'⟩
    simp only at hstart hstop hstop' hcaptures hcaptures'
    rw [hstart, hstop, hstop', hcaptures, hcaptures', hstart]

/-- A search goes on behind a place where the text does not occur. -/
theorem Leftmost.succ {position : Nat} {answer : Option Found}
    (h : Leftmost source text (position + 1) answer) (hnot : ¬ OccursAt source text position) :
    Leftmost source text position answer := by
  have hlater : ∀ place, position ≤ place → OccursAt source text place → position + 1 ≤ place := by
    intro place hle hoccurs
    refine Nat.lt_of_le_of_ne hle ?_
    rintro rfl
    exact hnot hoccurs
  cases answer with
  | none =>
    intro place hle hoccurs
    exact h place (hlater place hle hoccurs) hoccurs
  | some found =>
    obtain ⟨⟨⟨hle, hoccurs⟩, hleast⟩, hrest⟩ := h
    refine ⟨⟨⟨by omega, hoccurs⟩, ?_⟩, hrest⟩
    rintro place ⟨hplace, hat⟩
    exact hleast ⟨hlater place hplace hat, hat⟩

/-- A search ends where the text occurs at its first place. -/
theorem Leftmost.here (h : OccursAt source text place) :
    Leftmost source text place (some ⟨place, place + text.length, []⟩) :=
  ⟨⟨⟨Nat.le_refl _, h⟩, fun _ hother => hother.1⟩, rfl, rfl⟩

end Occurrences

/-! ### Runs with a limit -/

/-- Unless the limit stops it, a run returns a value with `Q` or ends with an error with `E`. -/
def Yields {ε α : Type} (limit : ε) (run : Prog Nat ε α) (Q : α → Prop) (E : ε → Prop) : Prop :=
  Triple (fun _ => True) run (fun a _ => Q a) (fun e _ => e = limit ∨ E e)

namespace Yields

variable {ε α β : Type} {limit : ε} {run : Prog Nat ε α} {Q Q' : α → Prop} {R : β → Prop}
  {E E' : ε → Prop}

theorem pure {a : α} (h : Q a) : Yields limit (Pure.pure a) Q E := Triple.return_of fun _ _ => h

theorem fail {e : ε} (h : E e) : Yields limit (Prog.fail e : Prog Nat ε α) Q E :=
  fun _ _ => Or.inr h

theorem bind {f : α → Prog Nat ε β} (h : Yields limit run Q E)
    (hf : ∀ a, Q a → Yields limit (f a) R E) : Yields limit (run >>= f) R E :=
  Triple.bind h fun a s hQ => hf a hQ s trivial

theorem mono (h : Yields limit run Q E) (hQ : ∀ a, Q a → Q' a) (hE : ∀ e, E e → E' e) :
    Yields limit run Q' E' :=
  Triple.conseq h (fun _ hs => hs) (fun a _ => hQ a) fun e _ he => he.imp_right (hE e)

/-- What a run has ended with. -/
theorem result (h : Yields limit run Q E) (steps : Nat) :
    (∃ a, (run steps).1 = .ok a ∧ Q a) ∨ ∃ e, (run steps).1 = .error e ∧ (e = limit ∨ E e) := by
  have hend := h steps trivial
  rcases hrun : run steps with ⟨_ | a, steps'⟩
  · rw [hrun] at hend
    exact .inr ⟨_, rfl, hend⟩
  · rw [hrun] at hend
    exact .inl ⟨a, rfl, hend⟩

end Yields

variable {m : Matcher}

theorem step_yields {E : PatternError → Prop} :
    Yields .exhausted m.step (fun _ => True) E := by
  intro steps _
  unfold Matcher.step
  by_cases hlimit : steps ≥ m.limit
  · rw [if_pos hlimit]
    exact Or.inl rfl
  · rw [if_neg hlimit]
    trivial

theorem plainStep_yields {E : PlainStop → Prop} :
    Yields (.refused .exhausted) m.plainStep (fun _ => True) E := by
  intro steps _
  unfold Matcher.plainStep
  by_cases hlimit : steps ≥ m.limit
  · rw [if_pos hlimit]
    exact Or.inl rfl
  · rw [if_neg hlimit]
    trivial

/-- Go on behind a step. -/
theorem step_bind_yields {β : Type} {next : Unit → Run β} {R : β → Prop} {E : PatternError → Prop}
    (h : Yields .exhausted (next ()) R E) : Yields .exhausted (m.step >>= next) R E :=
  step_yields.bind fun _ _ => h

theorem plainStep_bind_yields {β : Type} {next : Unit → PlainRun β} {R : β → Prop}
    {E : PlainStop → Prop} (h : Yields (.refused .exhausted) (next ()) R E) :
    Yields (.refused .exhausted) (m.plainStep >>= next) R E :=
  plainStep_yields.bind fun _ _ => h

/-! ### The plain search finds the leftmost occurrence -/

theorem readAt_of {bytes : List UInt8} {index : Nat} {byte : UInt8} (h : bytes[index]? = some byte) :
    readAt bytes index = pure byte := by
  rw [readAt, h]
  rfl

theorem differenceOf_of {a b : Nat} (h : b ≤ a) : differenceOf a b = pure (a - b) := if_pos h

/-- The inner loop compares the rest of the pattern, and stays within the subject. -/
theorem plainEqual_yields {position : Nat} {n offset : Nat}
    (hpattern : offset + n = m.pattern.length)
    (hsource : position + m.pattern.length ≤ m.source.length) :
    Yields (.refused .exhausted) (m.plainEqual position n offset)
      (fun equal => equal = true
        ↔ m.pattern.drop offset <+: m.source.drop (position + offset)) (fun _ => False) := by
  induction n generalizing offset with
  | zero =>
    refine Yields.pure ?_
    simp [List.drop_of_length_le (show m.pattern.length ≤ offset by omega)]
  | succ n ih =>
    have hfirst : offset < m.pattern.length := by omega
    have hplace : position + offset < m.source.length := by omega
    unfold Matcher.plainEqual
    apply plainStep_bind_yields
    rw [readAt_of (List.getElem?_eq_getElem hplace), readAt_of (List.getElem?_eq_getElem hfirst)]
    show Yields _ (if m.source[position + offset] ≠ m.pattern[offset] then _ else _) _ _
    rw [List.drop_eq_getElem_cons hfirst, List.drop_eq_getElem_cons hplace, List.cons_prefix_cons]
    by_cases hbyte : m.source[position + offset] = m.pattern[offset]
    · rw [if_neg (not_not.mpr hbyte)]
      refine (ih (by omega)).mono ?_ fun _ h => h
      intro equal hequal
      rw [hequal, hbyte]
      simp [Nat.add_assoc]
    · rw [if_pos hbyte]
      refine Yields.pure ?_
      simp [Ne.symm hbyte]

/-- The loop over the places is complete when it ends behind the last place the pattern fits. -/
theorem plainLoop_yields {n position : Nat}
    (hend : position + n + m.pattern.length = m.source.length + 1) :
    Yields (.refused .exhausted) (m.plainLoop n position)
      (Leftmost m.source m.pattern position) (fun _ => False) := by
  induction n generalizing position with
  | zero =>
    refine Yields.pure ?_
    intro place hle hoccurs
    have := hoccurs.le
    omega
  | succ n ih =>
    unfold Matcher.plainLoop
    apply plainStep_bind_yields
    refine (plainEqual_yields (Nat.zero_add _) (by omega)).bind ?_
    intro equal hequal
    have hoccurs : equal = true ↔ OccursAt m.source m.pattern position := by
      rw [hequal, occursAt_iff]
      simp only [List.drop_zero, Nat.add_zero]
      exact ⟨fun h => ⟨by omega, h⟩, fun h => h.2⟩
    cases equal with
    | true => exact Yields.pure (Leftmost.here (hoccurs.mp rfl))
    | false =>
      have hnot : ¬ OccursAt m.source m.pattern position := fun h => by simpa using hoccurs.mpr h
      refine Yields.mono (ih (by omega)) ?_ fun _ h => h
      intro answer hanswer
      exact hanswer.succ hnot

/-- **The plain search.**  It finds the leftmost occurrence, and no index or difference of it
    panics. -/
theorem plainFind_yields (m : Matcher) (start : Nat) :
    Yields (.refused .exhausted) (m.plainFind start)
      (Leftmost m.source m.pattern start) (fun _ => False) := by
  have hnone : m.source.length < start + m.pattern.length →
      Leftmost m.source m.pattern start none := by
    intro hlong place hle hoccurs
    have := hoccurs.le
    omega
  unfold Matcher.plainFind
  by_cases hstart : start > m.source.length
  · rw [if_pos hstart]
    exact Yields.pure (hnone (by omega))
  · rw [if_neg hstart, differenceOf_of (by omega)]
    show Yields _ (if m.pattern.length > m.source.length - start then _ else _) _ _
    by_cases hroom : m.pattern.length > m.source.length - start
    · rw [if_pos hroom]
      exact Yields.pure (hnone (by omega))
    · rw [if_neg hroom, differenceOf_of (by omega)]
      exact plainLoop_yields (by omega)

/-! ### The matcher without special bytes -/

/-- A byte that is not special starts a round of one character, unless it closes a capture. -/
theorem special_cons {byte : UInt8} {rest : List UInt8} (h : special (byte :: rest) = false) :
    (byte ≠ 0x5e ∧ byte ≠ 0x24 ∧ byte ≠ 0x2a ∧ byte ≠ 0x2b ∧ byte ≠ 0x3f ∧ byte ≠ 0x2e ∧ byte ≠ 0x28
      ∧ byte ≠ 0x5b ∧ byte ≠ 0x25 ∧ byte ≠ 0x2d) ∧ special rest = false := by
  simp only [special, List.any_cons, Bool.or_eq_false_iff] at h
  refine ⟨?_, h.2⟩
  simpa using h.1

theorem classEnd_yields {byte : UInt8} {rest : List UInt8} (hescape : byte ≠ 0x25)
    (hset : byte ≠ 0x5b) {E : PatternError → Prop} :
    Yields .exhausted (m.classEnd (byte :: rest)) (· = rest) E := by
  unfold Matcher.classEnd
  apply step_bind_yields
  simp only [if_neg hescape, if_neg hset]
  exact Yields.pure rfl

theorem single_yields {byte : UInt8} {rest stop : List UInt8} {s : Nat} (hany : byte ≠ 0x2e)
    (hescape : byte ≠ 0x25) (hset : byte ≠ 0x5b) {E : PatternError → Prop} :
    Yields .exhausted (m.single s (byte :: rest) stop)
      (fun matched => matched = true ↔ m.source[s]? = some byte) E := by
  unfold Matcher.single
  apply step_bind_yields
  cases hbyte : m.source[s]? with
  | none =>
    refine Yields.pure ?_
    simp
  | some found =>
    simp only [if_neg hany, if_neg hescape, if_neg hset]
    refine Yields.pure ?_
    simp

/-- A character with no repetition behind it. -/
theorem repetition_yields {again enter : Nat → List UInt8 → List Capture → Run Matcher.Outcome}
    {byte : UInt8} {rest : List UInt8} {s : Nat} {Q : Matcher.Outcome → Prop}
    {E : PatternError → Prop} (hany : byte ≠ 0x2e) (hescape : byte ≠ 0x25) (hset : byte ≠ 0x5b)
    (hrest : special rest = false)
    (hhit : m.source[s]? = some byte → Yields .exhausted (again (s + 1) rest []) Q E)
    (hmiss : m.source[s]? ≠ some byte → Q (none, [])) :
    Yields .exhausted (m.repetition again enter s (byte :: rest) []) Q E := by
  unfold Matcher.repetition
  refine (classEnd_yields hescape hset).bind ?_
  rintro stop rfl
  refine (single_yields hany hescape hset).bind ?_
  intro matched hmatched
  have hplain : Yields .exhausted
      (if matched then again (s + 1) stop [] else pure (none, [])) Q E := by
    cases matched with
    | true => exact hhit (hmatched.mp rfl)
    | false => exact Yields.pure (hmiss fun h => by simpa using hmatched.mpr h)
  -- None of the four repetitions can follow.
  split
  · exact absurd rfl (special_cons hrest).1.2.2.2.2.1
  · exact absurd rfl (special_cons hrest).1.2.2.1
  · exact absurd rfl (special_cons hrest).1.2.2.2.1
  · exact absurd rfl (special_cons hrest).1.2.2.2.2.2.2.2.2.2
  · exact hplain

/-- **The matcher on a literal pattern.**  It compares the pattern with the subject byte by byte and
    goes no deeper; at a closing parenthesis it stops with a malformed pattern. -/
theorem matchLoop_literal {fuel depth s : Nat} {p : List UInt8} (hfuel : p.length < fuel)
    (hplain : special p = false) :
    Yields .exhausted (m.matchLoop fuel depth s p [])
      (fun outcome =>
        (outcome = (some (s + p.length), []) ∧ 0x29 ∉ p ∧ p <+: m.source.drop s)
          ∨ (outcome = (none, []) ∧ ¬ untilClosing p <+: m.source.drop s))
      (fun e => e = .malformed ∧ 0x29 ∈ p ∧ untilClosing p <+: m.source.drop s) := by
  induction p generalizing fuel s with
  | nil =>
    obtain ⟨fuel, rfl⟩ : ∃ n, fuel = n + 1 := ⟨fuel - 1, by omega⟩
    refine step_bind_yields (Yields.pure ?_)
    simp
  | cons byte rest ih =>
    obtain ⟨fuel, rfl⟩ : ∃ n, fuel = n + 1 := ⟨fuel - 1, by omega⟩
    obtain ⟨⟨-, hend, -, -, -, hany, hopen, hset, hescape, -⟩, hrest⟩ := special_cons hplain
    refine step_bind_yields ?_
    simp only [if_neg hopen]
    by_cases hclose : byte = 0x29
    · subst hclose
      rw [if_pos rfl]
      refine Yields.fail ⟨rfl, by simp, ?_⟩
      simp [untilClosing]
    · rw [if_neg hclose, if_neg (fun h => hend h.1), if_neg hescape]
      have huntil : untilClosing (byte :: rest) = byte :: untilClosing rest :=
        List.takeWhile_cons_of_pos (by simpa using hclose)
      rw [huntil]
      refine repetition_yields hany hescape hset hrest ?_ ?_
      · intro hbyte
        have hdrop : m.source.drop s = byte :: m.source.drop (s + 1) := by
          obtain ⟨hlt, hget⟩ := List.getElem?_eq_some_iff.mp hbyte
          rw [List.drop_eq_getElem_cons hlt, hget]
        rw [hdrop]
        refine (ih (by simpa using hfuel) hrest).mono ?_ ?_
        · intro outcome houtcome
          simpa [List.cons_prefix_cons, Ne.symm hclose, Nat.add_assoc, Nat.add_comm 1]
            using houtcome
        · intro e he
          simpa [List.cons_prefix_cons, Ne.symm hclose] using he
      · intro hbyte
        right
        refine ⟨rfl, ?_⟩
        rintro ⟨back, hback⟩
        refine hbyte ?_
        rw [← List.head?_drop, ← hback]
        rfl

/-- What a search with the matcher answers from a place on. -/
def Searched (source pattern : List UInt8) (start : Nat) (answer : Option Found) : Prop :=
  ¬ ReachesClosing source pattern start ∧ Leftmost source pattern start answer

/-- The loop of the search is complete when it ends behind the subject. -/
theorem searchLoop_yields (hplain : special m.pattern = false) {n position : Nat}
    (hend : position + n = m.source.length + 1) :
    Yields .exhausted (m.searchLoop false none n position)
      (Searched m.source m.pattern position)
      (fun e => e = .malformed ∧ ReachesClosing m.source m.pattern position) := by
  induction n generalizing position with
  | zero =>
    have hnot : ∀ text place, position ≤ place → ¬ OccursAt m.source text place := by
      intro text place hle hoccurs
      have := hoccurs.le
      omega
    refine Yields.pure ⟨?_, hnot m.pattern⟩
    rintro ⟨-, place, hle, hoccurs⟩
    exact hnot _ place hle hoccurs
  | succ n ih =>
    have hat : ∀ {text : List UInt8},
        OccursAt m.source text position ↔ text <+: m.source.drop position := by
      intro text
      rw [occursAt_iff]
      exact ⟨fun h => h.2, fun h => ⟨by omega, h⟩⟩
    unfold Matcher.searchLoop
    apply step_bind_yields
    have hmatch : m.matchAt 0 position (m.patternStart false) []
        = m.matchLoop (m.pattern.length + 1) 0 position m.pattern [] := rfl
    rw [hmatch]
    refine Yields.bind ((matchLoop_literal (Nat.lt_succ_self _) hplain).mono (fun _ h => h) ?_) ?_
    · rintro e ⟨rfl, hmem, hprefix⟩
      exact ⟨rfl, hmem, position, Nat.le_refl _, hat.mpr hprefix⟩
    · rintro _ (⟨rfl, hmem, hprefix⟩ | ⟨rfl, hprefix⟩)
      · -- The pattern is found at the first place.
        refine Yields.pure ⟨fun h => hmem h.1, Leftmost.here (hat.mpr hprefix)⟩
      · have hnot : ¬ OccursAt m.source (untilClosing m.pattern) position := fun h =>
          hprefix (hat.mp h)
        refine Yields.mono (ih (by omega)) ?_ ?_
        · rintro answer ⟨hclosing, hleftmost⟩
          refine ⟨?_, hleftmost.succ fun h => hnot ( h.of_prefix ( untilClosing_prefix _))⟩
          rintro ⟨hmem, place, hle, hoccurs⟩
          refine hclosing ⟨hmem, place, Nat.lt_of_le_of_ne hle ?_, hoccurs⟩
          rintro rfl
          exact hnot hoccurs
        · rintro e ⟨rfl, hmem, place, hle, hoccurs⟩
          exact ⟨rfl, hmem, place, by omega, hoccurs⟩

theorem search_yields (hplain : special m.pattern = false) (start : Nat) :
    Yields .exhausted (m.search start false none) (Searched m.source m.pattern start)
      (fun e => e = .malformed ∧ ReachesClosing m.source m.pattern start) := by
  unfold Matcher.search
  by_cases hstart : start > m.source.length
  · rw [if_pos hstart]
    have hnot : ∀ text place, start ≤ place → ¬ OccursAt m.source text place := by
      intro text place hle hoccurs
      have := hoccurs.le
      omega
    refine Yields.pure ⟨?_, hnot m.pattern⟩
    rintro ⟨-, place, hle, hoccurs⟩
    exact hnot _ place hle hoccurs
  · rw [if_neg hstart]
    exact searchLoop_yields hplain (by omega)

/-! ### The two searches -/

/-- **Plain search and matcher.**  The plain search never panics and answers with the leftmost
    occurrence.  Where neither exhausts its limit and no byte of the pattern is special, the matcher
    gives the same answer, unless it comes to a closing parenthesis: then it stops with a malformed
    pattern. -/
theorem plainFind_search (m : Matcher) (hplain : special m.pattern = false)
    (start steps steps' : Nat) :
    (m.plainFind start steps).1 ≠ .error .panicked
      ∧ (∀ answer, (m.plainFind start steps).1 = .ok answer →
          Leftmost m.source m.pattern start answer)
      ∧ ((m.plainFind start steps).1 ≠ .error (.refused .exhausted) →
          (m.search start false none steps').1 ≠ .error .exhausted →
          ∃ answer, (m.plainFind start steps).1 = .ok answer
            ∧ (¬ ReachesClosing m.source m.pattern start →
                (m.search start false none steps').1 = .ok answer)
            ∧ (ReachesClosing m.source m.pattern start →
                (m.search start false none steps').1 = .error .malformed)) := by
  have hfind := (plainFind_yields m start).result steps
  have hsearch := (search_yields hplain start).result steps'
  refine ⟨?_, ?_, ?_⟩
  · intro hpanic
    rcases hfind with ⟨answer, hok, -⟩ | ⟨e, herror, hlimit | hfalse⟩
    · rw [hok] at hpanic
      cases hpanic
    · rw [herror, hlimit] at hpanic
      cases hpanic
    · exact hfalse
  · intro answer hanswer
    rcases hfind with ⟨answer', hok, hleftmost⟩ | ⟨e, herror, -⟩
    · rw [hok] at hanswer
      cases hanswer
      exact hleftmost
    · rw [herror] at hanswer
      cases hanswer
  · intro hfound hsearched
    rcases hfind with ⟨answer, hok, hleftmost⟩ | ⟨e, herror, hlimit | hfalse⟩
    · refine ⟨answer, hok, ?_, ?_⟩
      · intro hopen
        rcases hsearch with ⟨answer', hok', -, hleftmost'⟩ | ⟨e, herror, hlimit | hclosing⟩
        · rw [hok', hleftmost.unique hleftmost']
        · exact absurd (by rw [herror, hlimit]) hsearched
        · exact absurd hclosing.2 hopen
      · intro hclosing
        rcases hsearch with ⟨answer', -, hopen, -⟩ | ⟨e, herror, hlimit | hmalformed⟩
        · exact absurd hclosing hopen
        · exact absurd (by rw [herror, hlimit]) hsearched
        · rw [herror, hmalformed.1]
    · exact absurd (by rw [herror, hlimit]) hfound
    · exact hfalse.elim

/-- `lo` in `hello`, whose first `l` is not enough. -/
theorem plainFind_search_hello :
    ∃ answer, (Matcher.plainFind ⟨[0x68, 0x65, 0x6c, 0x6c, 0x6f], [0x6c, 0x6f], 100⟩ 0 0).1
        = .ok answer
      ∧ (¬ ReachesClosing [0x68, 0x65, 0x6c, 0x6c, 0x6f] [0x6c, 0x6f] 0 →
          (Matcher.search ⟨[0x68, 0x65, 0x6c, 0x6c, 0x6f], [0x6c, 0x6f], 100⟩ 0 false none 0).1
            = .ok answer)
      ∧ (ReachesClosing [0x68, 0x65, 0x6c, 0x6c, 0x6f] [0x6c, 0x6f] 0 →
          (Matcher.search ⟨[0x68, 0x65, 0x6c, 0x6c, 0x6f], [0x6c, 0x6f], 100⟩ 0 false none 0).1
            = .error .malformed) :=
  (plainFind_search ⟨[0x68, 0x65, 0x6c, 0x6c, 0x6f], [0x6c, 0x6f], 100⟩ (by decide) 0 0 0).2.2
    (by
      have hrun : (Matcher.plainFind ⟨[0x68, 0x65, 0x6c, 0x6c, 0x6f], [0x6c, 0x6f], 100⟩ 0 0).1
          = .ok (some ⟨3, 5, []⟩) := by rfl
      rw [hrun]
      simp)
    (by
      have hrun : (Matcher.search ⟨[0x68, 0x65, 0x6c, 0x6c, 0x6f], [0x6c, 0x6f], 100⟩ 0 false none
          0).1 = .ok (some ⟨3, 5, []⟩) := by rfl
      rw [hrun]
      simp)

/-- A closing parenthesis is no special byte: the plain search finds it, the matcher refuses. -/
theorem plainFind_differs_closing :
    special [0x29] = false
      ∧ (Matcher.plainFind ⟨[0x29], [0x29], 100⟩ 0 0).1 = .ok (some ⟨0, 1, []⟩)
      ∧ (Matcher.search ⟨[0x29], [0x29], 100⟩ 0 false none 0).1 = .error .malformed :=
  ⟨by decide, by rfl, by rfl⟩

end RivetLua.Stdlib.Pattern
