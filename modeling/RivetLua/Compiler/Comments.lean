import RivetLua.Compiler.LexerPositions
import RivetLua.Compiler.LexerTermination

namespace RivetLua.Compiler.Lexer

open RivetLua.Core Check

/-!
# Compiler — comments and spaces

What stands between the tokens, as text.  A comment is two dashes with the rest of the line, or with
a long bracket that reaches to the first closing bracket of its level; which of the two it is
depends on what follows the dashes.

* `longBracket`, `IsComment` — the two kinds of comments;
* `longOpeningSeparator_some`, `longClosingSeparator_iff` — the scanner looks for long brackets;
* `scanShortComment_text` — what the scanner skips as a comment is one;
* `scanElement_blank` — an element that is no token is a space, a newline or a comment.
-/

/-- A bracket of a long string or comment, with its equals signs. -/
def longBracket (bracket : UInt8) (equals : Nat) : List UInt8 :=
  bracket :: (List.replicate equals 0x3d ++ [bracket])

/-- A comment, and what follows it. -/
inductive IsComment : List UInt8 → List UInt8 → Prop where
  /-- the rest of a line that does not open a long bracket -/
  | line (body following : List UInt8) (hbody : ∀ byte ∈ body, isLineBreak byte = false)
      (hopen : ∀ equals, ¬ longBracket 0x5b equals <+: body ++ following)
      (hend : following.head?.all isLineBreak = true) :
      IsComment (0x2d :: 0x2d :: body) following
  /-- a long bracket, up to the first closing bracket of its level -/
  | long (equals : Nat) (body following : List UInt8)
      (hfirst : ∀ n, n < body.length →
        ¬ longBracket 0x5d equals <+: (body ++ longBracket 0x5d equals ++ following).drop n) :
      IsComment (0x2d :: 0x2d :: (longBracket 0x5b equals ++ body ++ longBracket 0x5d equals))
        following

/-! ### Long brackets -/

@[simp] theorem length_longBracket (bracket : UInt8) (equals : Nat) :
    (longBracket bracket equals).length = equals + 2 := by
  simp [longBracket]

theorem longBracket_prefix_iff {bracket : UInt8} {equals : Nat} {text : List UInt8} :
    longBracket bracket equals <+: text ↔ text[0]? = some bracket
      ∧ (∀ i, i < equals → text[i + 1]? = some 0x3d) ∧ text[equals + 1]? = some bracket := by
  rw [List.prefix_iff_getElem?]
  constructor
  · intro h
    refine ⟨by simpa [longBracket] using h 0 (by simp), fun i hi => ?_, ?_⟩
    · have hmid := h (i + 1) (by simp; omega)
      simpa [longBracket, List.getElem_append, hi] using hmid
    · have hlast := h (equals + 1) (by simp)
      simpa [longBracket] using hlast
  · rintro ⟨hfirst, hmid, hlast⟩ i hi
    rw [length_longBracket] at hi
    rcases i with _ | i
    · simpa [longBracket] using hfirst
    · by_cases hequals : i < equals
      · simpa [longBracket, List.getElem_append, hequals] using hmid i hequals
      · obtain rfl : i = equals := by omega
        simpa [longBracket] using hlast

theorem longClosingSeparator_iff {c : Cursor} {equals : Nat} :
    longClosingSeparator c equals = true ↔ longBracket 0x5d equals <+: c.rest := by
  rw [longBracket_prefix_iff]
  simp [longClosingSeparator, Cursor.peek, Cursor.peekN, List.head?_eq_getElem?, and_assoc]

/-- The equals signs are counted up to the first other byte. -/
theorem length_takeWhile_equals {text : List UInt8} {n : Nat} {bracket : UInt8}
    (hmid : ∀ i, i < n → text[i]? = some 0x3d) (hlast : text[n]? = some bracket)
    (hbracket : bracket ≠ 0x3d) : (text.takeWhile (· == 0x3d)).length = n := by
  induction n generalizing text with
  | zero =>
    cases text with
    | nil => rfl
    | cons byte text =>
      obtain rfl : byte = bracket := by simpa using hlast
      simp [hbracket]
  | succ n ih =>
    cases text with
    | nil => simp at hlast
    | cons byte text =>
      obtain rfl : byte = 0x3d := by simpa using hmid 0 (by omega)
      have hrest := ih (fun i hi => by simpa using hmid (i + 1) (by omega)) (by simpa using hlast)
      simp [hrest]

theorem getElem?_of_lt_takeWhile {text : List UInt8} {i : Nat}
    (hi : i < (text.takeWhile (· == 0x3d)).length) : text[i]? = some 0x3d := by
  induction text generalizing i with
  | nil => simp at hi
  | cons byte text ih =>
    by_cases hbyte : byte = 0x3d
    · subst hbyte
      rcases i with _ | i
      · rfl
      · simp only [List.takeWhile_cons, beq_self_eq_true, if_true, List.length_cons] at hi
        simpa using ih (by omega)
    · simp [hbyte] at hi

/-- The scanner finds an opening bracket where there is one. -/
theorem longOpeningSeparator_some {c : Cursor} {equals : Nat}
    (h : longOpeningSeparator c = .ok (some equals)) : longBracket 0x5b equals <+: c.rest := by
  unfold longOpeningSeparator at h
  split at h
  · cases h
  · rename_i hpeek
    have hfirst : c.rest[0]? = some 0x5b := by
      simpa [Cursor.peek, List.head?_eq_getElem?] using hpeek
    simp only at h
    split at h
    · rename_i hlast
      cases h
      refine longBracket_prefix_iff.mpr ⟨hfirst, fun i hi => ?_, hlast⟩
      have hmid := getElem?_of_lt_takeWhile hi
      rwa [List.getElem?_drop, Nat.add_comm] at hmid
    · split at h <;> cases h

/-- Where it finds none there is none, of any level. -/
theorem longOpeningSeparator_none {c : Cursor} (h : longOpeningSeparator c = .ok none)
    (equals : Nat) : ¬ longBracket 0x5b equals <+: c.rest := by
  intro hopen
  obtain ⟨hfirst, hmid, hlast⟩ := longBracket_prefix_iff.mp hopen
  have hcount : ((c.rest.drop 1).takeWhile (· == 0x3d)).length = equals :=
    length_takeWhile_equals
      (fun i hi => by rw [List.getElem?_drop, Nat.add_comm]; exact hmid i hi)
      (by rw [List.getElem?_drop, Nat.add_comm]; exact hlast) (by decide : (0x5b : UInt8) ≠ 0x3d)
  have hpeek : c.peek = some 0x5b := by rw [Cursor.peek, List.head?_eq_getElem?, hfirst]
  simp only [longOpeningSeparator, hpeek, ne_eq, not_true_eq_false, if_false, hcount,
    Cursor.peekN, hlast, if_true] at h
  cases h

/-! ### What the loops skip -/

section Text

variable {limits : CompileLimits} {fl : FloatArith} {origin : Origin} {c c' : Cursor}
  {tokens tokens' : List Token}

/-- A step within the limits. -/
theorem advance_step (hne : c.rest ≠ []) (h : advance limits origin c = .ok c') : c.Step c' := by
  unfold advance at h
  split at h
  · cases h
  · rename_i c₁ hadvance
    split at h
    · cases h
    · cases h
      exact ⟨hne, limits, hadvance⟩

/-- Bytes of one line are taken one by one. -/
theorem advanceBy_text {text more : List UInt8}
    (htext : ∀ byte ∈ text, isLineBreak byte = false) (hrest : c.rest = text ++ more)
    (h : advanceBy limits origin text.length c = .ok c') : c'.rest = more := by
  induction text generalizing c with
  | nil =>
    cases h
    exact hrest
  | cons byte text ih =>
    rw [List.length_cons, advanceBy, bind_eq_ok] at h
    obtain ⟨c₁, hadvance, h⟩ := h
    obtain ⟨rfl, -⟩ := (advance_eq_ok_iff hrest (htext byte (by simp))).mp hadvance
    exact ih (fun b hb => htext b (by simp [hb])) (by simp [hrest]) h

theorem longBracket_line {bracket : UInt8} {equals : Nat}
    (hbracket : isLineBreak bracket = false) :
    ∀ byte ∈ longBracket bracket equals, isLineBreak byte = false := by
  intro byte hbyte
  simp only [longBracket, List.mem_cons, List.mem_append, List.mem_replicate,
    List.not_mem_nil, or_false] at hbyte
  obtain rfl | ⟨-, rfl⟩ | rfl := hbyte
  · exact hbracket
  · decide
  · exact hbracket

theorem advanceBy_longBracket {bracket : UInt8} {equals : Nat} {more : List UInt8}
    (hbracket : isLineBreak bracket = false) (hrest : c.rest = longBracket bracket equals ++ more)
    (h : advanceBy limits origin (equals + 2) c = .ok c') : c'.rest = more := by
  rw [← length_longBracket bracket equals] at h
  exact advanceBy_text (longBracket_line hbracket) hrest h

/-- The rest of a line. -/
theorem advanceWhile_line {fuel : Nat} (hfuel : c.rest.length ≤ fuel)
    (h : advanceWhile limits origin (fun byte => !isLineBreak byte) fuel c = .ok c') :
    ∃ body, c.rest = body ++ c'.rest ∧ (∀ byte ∈ body, isLineBreak byte = false)
      ∧ c'.rest.head?.all isLineBreak = true := by
  induction fuel generalizing c with
  | zero =>
    have hnil : c.rest = [] := List.length_eq_zero_iff.mp (Nat.le_zero.mp hfuel)
    cases h
    exact ⟨[], rfl, by simp, by simp [hnil]⟩
  | succ fuel ih =>
    unfold advanceWhile at h
    split at h
    · rename_i hpeek
      cases h
      exact ⟨[], rfl, by simp, by rw [← Cursor.peek, hpeek]; rfl⟩
    · rename_i byte hpeek
      split at h
      · rename_i hbyte
        have hline : isLineBreak byte = false := by simpa using hbyte
        obtain ⟨rest, hrest⟩ := Cursor.peek_eq_some.mp hpeek
        rw [bind_eq_ok] at h
        obtain ⟨c₁, hadvance, h⟩ := h
        obtain ⟨rfl, -⟩ := (advance_eq_ok_iff hrest hline).mp hadvance
        rw [hrest, List.length_cons] at hfuel
        obtain ⟨body, hsplit, hbody, hend⟩ := ih (by simp [hrest]; omega) h
        refine ⟨byte :: body, ?_, by simpa [hline] using hbody, hend⟩
        rw [Cursor.skip_rest, hrest, List.drop_one, List.tail_cons] at hsplit
        rw [hrest, hsplit, List.cons_append]
      · rename_i hbyte
        cases h
        exact ⟨[], rfl, by simp, by rw [← Cursor.peek, hpeek]; simpa using hbyte⟩

/-- The body of a long comment ends at the first closing bracket of its level. -/
theorem longComment_text {equals fuel : Nat}
    (h : longComment limits origin equals fuel c = .ok c') :
    ∃ body, c.rest = body ++ longBracket 0x5d equals ++ c'.rest
      ∧ ∀ n, n < body.length → ¬ longBracket 0x5d equals <+: c.rest.drop n := by
  induction fuel generalizing c with
  | zero => cases h
  | succ fuel ih =>
    unfold longComment at h
    split at h
    · cases h
    · rename_i byte hpeek
      split at h
      · rename_i hclose
        obtain ⟨more, hmore⟩ := longClosingSeparator_iff.mp hclose.2
        obtain rfl := advanceBy_longBracket (by decide) hmore.symm h
        exact ⟨[], by simpa using hmore.symm, by simp⟩
      · rename_i hopen
        have hnot : ¬ longBracket 0x5d equals <+: c.rest := by
          intro hclose
          refine hopen ⟨?_, longClosingSeparator_iff.mpr hclose⟩
          have hfirst := (longBracket_prefix_iff.mp hclose).1
          rw [← List.head?_eq_getElem?, ← Cursor.peek, hpeek] at hfirst
          exact Option.some.inj hfirst
        rw [bind_eq_ok] at h
        obtain ⟨c₁, hadvance, h⟩ := h
        obtain ⟨body, hsplit, hfirst⟩ := ih h
        obtain ⟨text, hrest, -, hunit⟩ := (advance_step (ne_nil_of_peek hpeek) hadvance).unit
        refine ⟨text ++ body, by rw [hrest, hsplit]; simp, fun n hn => ?_⟩
        by_cases hbody : text.length ≤ n
        · have hlater := hfirst (n - text.length) (by simp at hn; omega)
          rwa [hrest, List.drop_append, List.drop_of_length_le hbody, List.nil_append]
        · -- within a step there is no bracket: the step is one byte or a newline
          have hn : n < text.length := by omega
          obtain ⟨byte, rfl, -⟩ | ⟨hbreak, -⟩ := hunit
          · obtain rfl : n = 0 := by simpa using hn
            exact hnot
          · intro hclose
            have hbracket := (longBracket_prefix_iff.mp hclose).1
            rw [List.getElem?_drop, Nat.add_zero, hrest, List.getElem?_append_left hn] at hbracket
            have hline := hbreak.all_break.2 0x5d (List.mem_of_getElem? hbracket)
            exact absurd hline (by decide)

/-- What is skipped behind two dashes is a comment. -/
theorem scanShortComment_text {tail : List UInt8} (hrest : c.rest = 0x2d :: 0x2d :: tail)
    (h : scanShortComment limits c = .ok c') :
    ∃ text, c.rest = text ++ c'.rest ∧ IsComment text c'.rest := by
  simp only [scanShortComment, bind_eq_ok] at h
  obtain ⟨c₁, hdashes, h⟩ := h
  have hline : ∀ byte ∈ ([0x2d, 0x2d] : List UInt8), isLineBreak byte = false := by
    simp [isLineBreak]
  have htail : c₁.rest = tail := advanceBy_text hline hrest hdashes
  split at h
  · rename_i equals hopen
    simp only [bind_eq_ok] at h
    obtain ⟨c₂, hbracket, hcomment⟩ := h
    obtain ⟨more, hmore⟩ := longOpeningSeparator_some hopen
    have hinner := advanceBy_longBracket (by decide) hmore.symm hbracket
    obtain ⟨body, hsplit, hfirst⟩ := longComment_text hcomment
    refine ⟨_, ?_, .long equals body c'.rest (by rwa [← hsplit])⟩
    rw [hrest, ← htail, ← hmore, ← hinner, hsplit]
    simp
  · rename_i hopen
    obtain ⟨body, hsplit, hbody, hend⟩ := advanceWhile_line (le_refl _) h
    refine ⟨_, ?_, .line body c'.rest hbody ?_ hend⟩
    · rw [hrest, ← htail, hsplit]
      rfl
    · rw [← hsplit]
      exact longOpeningSeparator_none hopen
  · cases h

/-! ### Elements that are no tokens -/

theorem isSpace_of_isLineBreak {byte : UInt8} (h : isLineBreak byte = true) :
    isSpace byte = true := by
  simp only [isLineBreak, Bool.or_eq_true, beq_iff_eq] at h
  obtain rfl | rfl := h <;> decide

/-- A space, or a newline. -/
theorem advance_space {byte : UInt8} (hpeek : c.peek = some byte) (hspace : isSpace byte = true)
    (h : advance limits origin c = .ok c') :
    ∃ text, c.rest = text ++ c'.rest ∧ ∀ b ∈ text, isSpace b = true := by
  obtain ⟨text, hrest, -, hunit⟩ := (advance_step (ne_nil_of_peek hpeek) h).unit
  refine ⟨text, hrest, ?_⟩
  obtain ⟨byte', rfl, -⟩ | ⟨hbreak, -⟩ := hunit
  · rw [Cursor.peek, hrest] at hpeek
    obtain rfl : byte' = byte := by simpa using hpeek
    simpa using hspace
  · intro b hb
    exact isSpace_of_isLineBreak (hbreak.all_break.2 b hb)

theorem OneToken.ne (h : OneToken c c' tokens tokens') : tokens' ≠ tokens := by
  obtain ⟨kind, literal, -, rfl⟩ := h
  simp

/-- An element without a token is a space, a newline or a comment. -/
theorem scanElement_blank {byte : UInt8} (hpeek : c.peek = some byte)
    (h : scanElement limits fl byte c tokens = .ok (c', tokens)) :
    ∃ text, c.rest = text ++ c'.rest
      ∧ ((∀ b ∈ text, isSpace b = true) ∨ IsComment text c'.rest) := by
  unfold scanElement at h
  split_ifs at h with hspace hbracket hname hdigit hquote hcomment
  · simp only [bind_eq_ok, pure, Except.pure, Except.ok.injEq, Prod.mk.injEq, and_true] at h
    obtain ⟨c₁, hadvance, rfl⟩ := h
    obtain ⟨text, hrest, hall⟩ := advance_space hpeek hspace hadvance
    exact ⟨text, hrest, .inl hall⟩
  · split at h
    · exact absurd rfl (scanLongString_oneToken h).2.ne
    · exact absurd rfl (scanSymbol_oneToken h).2.ne
    · simp only [bind_eq_ok, lexError] at h
      obtain ⟨c₁, -, h⟩ := h
      cases h
  · exact absurd rfl (scanName_oneToken h).2.ne
  · obtain ⟨-, kind, literal, htokens⟩ := scanNumber_moves h
    simp at htokens
  · exact absurd rfl (scanShortString_oneToken h).2.ne
  · simp only [bind_eq_ok, pure, Except.pure, Except.ok.injEq, Prod.mk.injEq, and_true] at h
    obtain ⟨c₁, hskip, rfl⟩ := h
    obtain ⟨rest, hrest⟩ := Cursor.peek_eq_some.mp hpeek
    obtain ⟨rfl, hnext⟩ := hcomment
    obtain ⟨tail, rfl⟩ : ∃ tail, rest = 0x2d :: tail := by
      rw [Cursor.peekN, hrest, List.getElem?_cons_succ, ← List.head?_eq_getElem?] at hnext
      obtain ⟨tail, htail⟩ := List.head?_eq_some_iff.mp hnext
      exact ⟨tail, htail⟩
    obtain ⟨text, hsplit, htext⟩ := scanShortComment_text hrest hskip
    exact ⟨text, hsplit, .inr htext⟩
  · exact absurd rfl (scanSymbol_oneToken h).2.ne

end Text

end RivetLua.Compiler.Lexer
