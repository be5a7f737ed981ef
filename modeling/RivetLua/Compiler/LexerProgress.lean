import RivetLua.Compiler.LexerRuns
import Mathlib.Logic.Relation

namespace RivetLua.Compiler.Lexer

open RivetLua.Core Check

/-!
# Compiler — the lexer moves forward

No scanning function moves the cursor back or loses a byte, and a token starts where the element
that produces it does.

* `Moves` — the cursor went on in the same input; one lemma for each function;
* `scanElement_cases` — the three outcomes of an element;
* `scanElements_tokens` — the tokens of the rest of an input start at or behind the cursor.
-/

/-- One step of the cursor that passes no limit. -/
def Cursor.Step (c c' : Cursor) : Prop :=
  c.rest ≠ [] ∧ ∃ limits, c.advance limits = (c', none)

/-- The cursor has moved on in the same input, step by step. -/
structure Moves (c c' : Cursor) : Prop where
  offset_le : c.offset ≤ c'.offset
  total : c'.offset + c'.rest.length = c.offset + c.rest.length
  profile : c'.profile = c.profile
  walk : Relation.ReflTransGen Cursor.Step c c'

theorem Moves.refl (c : Cursor) : Moves c c := ⟨le_refl _, rfl, rfl, .refl⟩

theorem Moves.trans {c₁ c₂ c₃ : Cursor} (h : Moves c₁ c₂) (h' : Moves c₂ c₃) : Moves c₁ c₃ :=
  ⟨h.offset_le.trans h'.offset_le, h'.total.trans h.total, h'.profile.trans h.profile,
    h.walk.trans h'.walk⟩

section Progress

variable {limits : CompileLimits} {origin : Origin} {c c' : Cursor} {bytes bytes' : List UInt8}

theorem Cursor.advance_moves (h : c.advance limits = (c', none)) :
    Moves c c' ∧ (c.rest ≠ [] → c.offset < c'.offset) := by
  have hadvance := h
  unfold Cursor.advance at h
  split at h
  · rename_i hrest
    cases h
    exact ⟨.refl c, fun hne => absurd hrest hne⟩
  · rename_i byte rest hrest
    have hstep : c.Step c' := ⟨by simp [hrest], limits, hadvance⟩
    split at h
    · -- a line break, of one byte or two
      have hwidth : (if isBreakPair byte rest.head? then 2 else 1) ≤ c.rest.length := by
        rw [hrest]
        cases rest with
        | nil => simp [isBreakPair]
        | cons next rest => split <;> simp
      have hpos : 1 ≤ if isBreakPair byte rest.head? then 2 else 1 := by split <;> omega
      generalize (if isBreakPair byte rest.head? then 2 else 1) = width at h hwidth hpos
      simp only at h
      split at h
      · cases h
      · cases h
        exact ⟨⟨by simp, by simp; omega, rfl, .single hstep⟩, fun _ => by simp; omega⟩
    · cases h
      exact ⟨⟨by simp, by simp [hrest]; omega, rfl, .single hstep⟩, fun _ => by simp⟩

/-- One step moves on, and takes a byte if there is one. -/
theorem advance_moves (h : advance limits origin c = .ok c') :
    Moves c c' ∧ (c.rest ≠ [] → c.offset < c'.offset) := by
  unfold advance at h
  split at h
  · cases h
  · rename_i c₁ hadvance
    split at h
    · cases h
    · cases h
      exact Cursor.advance_moves hadvance

theorem advanceBy_moves {n : Nat} (h : advanceBy limits origin n c = .ok c') : Moves c c' := by
  induction n generalizing c with
  | zero =>
    cases h
    exact .refl _
  | succ n ih =>
    simp only [advanceBy, bind_eq_ok] at h
    obtain ⟨c₁, hadvance, hrest⟩ := h
    exact (advance_moves hadvance).1.trans (ih hrest)

theorem advanceBy_strict {n : Nat} (hrest : c.rest ≠ [])
    (h : advanceBy limits origin (n + 1) c = .ok c') : c.offset < c'.offset := by
  simp only [advanceBy, bind_eq_ok] at h
  obtain ⟨c₁, hadvance, hmore⟩ := h
  exact lt_of_lt_of_le ((advance_moves hadvance).2 hrest) (advanceBy_moves hmore).offset_le

theorem advanceWhile_moves {p : UInt8 → Bool} {fuel : Nat}
    (h : advanceWhile limits origin p fuel c = .ok c') : Moves c c' := by
  induction fuel generalizing c with
  | zero =>
    cases h
    exact .refl _
  | succ fuel ih =>
    unfold advanceWhile at h
    split at h
    · cases h
      exact .refl _
    · split at h
      · rw [bind_eq_ok] at h
        obtain ⟨c₁, hadvance, hrest⟩ := h
        exact (advance_moves hadvance).1.trans (ih hrest)
      · cases h
        exact .refl _

theorem consumeNumberByte_moves {byte : UInt8}
    (h : consumeNumberByte limits origin c bytes byte = .ok (c', bytes')) : Moves c c' := by
  simp only [consumeNumberByte, bind_eq_ok, pure, Except.pure, Except.ok.injEq,
    Prod.mk.injEq] at h
  obtain ⟨_, -, c₁, hadvance, rfl, -⟩ := h
  exact (advance_moves hadvance).1

theorem consumeWhile_moves {p : UInt8 → Bool} {fuel : Nat}
    (h : consumeWhile limits origin p fuel c bytes = .ok (c', bytes')) : Moves c c' := by
  induction fuel generalizing c bytes with
  | zero =>
    cases h
    exact .refl _
  | succ fuel ih =>
    unfold consumeWhile at h
    split at h
    · cases h
      exact .refl _
    · split at h
      · rw [bind_eq_ok] at h
        obtain ⟨⟨c₁, bytes₁⟩, hbyte, hrest⟩ := h
        exact (consumeNumberByte_moves hbyte).trans (ih hrest)
      · cases h
        exact .refl _

theorem unicodeDigits_moves {fuel value X : Nat} {hasDigits : Bool}
    (h : unicodeDigits limits origin fuel c value hasDigits = .ok (c', X)) : Moves c c' := by
  induction fuel generalizing c value hasDigits with
  | zero => cases h
  | succ fuel ih =>
    unfold unicodeDigits at h
    split at h
    · cases h
    · split at h
      · split at h
        · simp only [bind_eq_ok, pure, Except.pure, Except.ok.injEq, Prod.mk.injEq] at h
          obtain ⟨c₁, hadvance, rfl, -⟩ := h
          exact (advance_moves hadvance).1
        · cases h
      · split at h
        · cases h
        · split at h
          · cases h
          · rw [bind_eq_ok] at h
            obtain ⟨c₁, hadvance, hrest⟩ := h
            exact (advance_moves hadvance).1.trans (ih hrest)

theorem decimalEscape_moves {n value X : Nat}
    (h : decimalEscape limits origin n c value = .ok (c', X)) : Moves c c' := by
  induction n generalizing c value with
  | zero =>
    cases h
    exact .refl _
  | succ n ih =>
    unfold decimalEscape at h
    split at h
    · cases h
      exact .refl _
    · split at h
      · split at h
        · cases h
        · rw [bind_eq_ok] at h
          obtain ⟨c₁, hadvance, hrest⟩ := h
          exact (advance_moves hadvance).1.trans (ih hrest)
      · cases h
        exact .refl _

theorem scanUnicodeEscape_moves
    (h : scanUnicodeEscape limits origin c bytes = .ok (c', bytes')) : Moves c c' := by
  simp only [scanUnicodeEscape, bind_eq_ok] at h
  obtain ⟨c₁, hfirst, h⟩ := h
  split at h
  · cases h
  · simp only [bind_eq_ok, pure, Except.pure, Except.ok.injEq, Prod.mk.injEq] at h
    obtain ⟨c₂, hsecond, ⟨c₃, value⟩, hdigits, _, -, rfl, -⟩ := h
    exact (advance_moves hfirst).1.trans
      ((advance_moves hsecond).1.trans (unicodeDigits_moves hdigits))

theorem scanEscape_moves {escape : UInt8}
    (h : scanEscape limits origin c bytes escape = .ok (c', bytes')) : Moves c c' := by
  unfold scanEscape at h
  split at h
  · simp only [bind_eq_ok, pure, Except.pure, Except.ok.injEq, Prod.mk.injEq] at h
    obtain ⟨_, -, c₁, hadvance, rfl, -⟩ := h
    exact (advance_moves hadvance).1
  · split_ifs at h
    · simp only [bind_eq_ok, pure, Except.pure, Except.ok.injEq, Prod.mk.injEq] at h
      obtain ⟨c₁, hx, _, -, c₂, hhigh, _, -, _, -, c₃, hlow, rfl, -⟩ := h
      exact (advance_moves hx).1.trans ((advance_moves hhigh).1.trans (advance_moves hlow).1)
    · simp only [bind_eq_ok, pure, Except.pure, Except.ok.injEq, Prod.mk.injEq] at h
      obtain ⟨c₁, hz, c₂, hspace, rfl, -⟩ := h
      exact (advance_moves hz).1.trans (advanceWhile_moves hspace)
    · exact scanUnicodeEscape_moves h
    · simp only [bind_eq_ok, pure, Except.pure, Except.ok.injEq, Prod.mk.injEq] at h
      obtain ⟨⟨c₁, value⟩, hdigits, _, -, rfl, -⟩ := h
      exact decimalEscape_moves hdigits
    · simp only [bind_eq_ok, pure, Except.pure, Except.ok.injEq, Prod.mk.injEq] at h
      obtain ⟨_, -, c₁, hadvance, rfl, -⟩ := h
      exact (advance_moves hadvance).1
    · cases h

theorem shortString_moves {quote : UInt8} {fuel : Nat}
    (h : shortString limits origin quote fuel c bytes = .ok (c', bytes')) : Moves c c' := by
  induction fuel generalizing c bytes with
  | zero => cases h
  | succ fuel ih =>
    rw [shortString.eq_2] at h
    split at h
    · cases h
    · split_ifs at h
      · simp only [bind_eq_ok, pure, Except.pure, Except.ok.injEq, Prod.mk.injEq] at h
        obtain ⟨c₁, hadvance, rfl, -⟩ := h
        exact (advance_moves hadvance).1
      · cases h
      · simp only [bind_eq_ok] at h
        obtain ⟨_, -, c₁, hadvance, hrest⟩ := h
        exact (advance_moves hadvance).1.trans (ih hrest)
      · simp only [bind_eq_ok] at h
        obtain ⟨c₁, hadvance, h⟩ := h
        split at h
        · cases h
        · rw [bind_eq_ok] at h
          obtain ⟨⟨c₂, bytes₂⟩, hescape, hrest⟩ := h
          exact (advance_moves hadvance).1.trans ((scanEscape_moves hescape).trans (ih hrest))

theorem longString_moves {equals fuel : Nat}
    (h : longString limits origin equals fuel c bytes = .ok (c', bytes')) : Moves c c' := by
  induction fuel generalizing c bytes with
  | zero => cases h
  | succ fuel ih =>
    unfold longString at h
    split at h
    · cases h
    · split at h
      · simp only [bind_eq_ok, pure, Except.pure, Except.ok.injEq, Prod.mk.injEq] at h
        obtain ⟨c₁, hclose, rfl, -⟩ := h
        exact advanceBy_moves hclose
      · simp only [bind_eq_ok] at h
        obtain ⟨_, -, c₁, hadvance, hrest⟩ := h
        exact (advance_moves hadvance).1.trans (ih hrest)

theorem longComment_moves {equals fuel : Nat}
    (h : longComment limits origin equals fuel c = .ok c') : Moves c c' := by
  induction fuel generalizing c with
  | zero => cases h
  | succ fuel ih =>
    unfold longComment at h
    split at h
    · cases h
    · split at h
      · exact advanceBy_moves h
      · simp only [bind_eq_ok] at h
        obtain ⟨c₁, hadvance, hrest⟩ := h
        exact (advance_moves hadvance).1.trans (ih hrest)

/-! ### Elements -/

/-- A comment moves on. -/
theorem scanShortComment_moves (hrest : c.rest ≠ []) (h : scanShortComment limits c = .ok c') :
    Moves c c' ∧ c.offset < c'.offset := by
  simp only [scanShortComment, bind_eq_ok] at h
  obtain ⟨c₁, hopen, h⟩ := h
  have hinner : Moves c₁ c' := by
    split at h
    · simp only [bind_eq_ok] at h
      obtain ⟨c₂, hbracket, hcomment⟩ := h
      exact (advanceBy_moves hbracket).trans (longComment_moves hcomment)
    · exact advanceWhile_moves h
    · cases h
  exact ⟨(advanceBy_moves hopen).trans hinner,
    lt_of_lt_of_le (advanceBy_strict hrest hopen) hinner.offset_le⟩

/-- The kinds of the numerals. -/
def isNumeric (kind : TokenKind) : Bool := kind == .integer || kind == .float

/-- An element with one token that is no numeral, from the cursor where it starts. -/
def OneToken (c c' : Cursor) (tokens tokens' : List Token) : Prop :=
  ∃ kind literal, isNumeric kind = false ∧ tokens' = tokens ++ [tokenAt c.origin c' kind literal]

variable {tokens tokens' : List Token}

theorem scanName_oneToken (h : scanName limits c tokens = .ok (c', tokens')) :
    Moves c c' ∧ OneToken c c' tokens tokens' := by
  simp only [scanName, bind_eq_ok] at h
  obtain ⟨⟨c₁, bytes⟩, hbytes, h⟩ := h
  have hmove := consumeWhile_moves hbytes
  split at h <;> rw [emit_eq_ok_iff] at h <;> obtain ⟨rfl, rfl, -⟩ := h
  · exact ⟨hmove, _, _, rfl, rfl⟩
  · exact ⟨hmove, _, _, rfl, rfl⟩

theorem scanShortString_oneToken {quote : UInt8}
    (h : scanShortString limits quote c tokens = .ok (c', tokens')) :
    Moves c c' ∧ OneToken c c' tokens tokens' := by
  simp only [scanShortString, bind_eq_ok, emit_eq_ok_iff] at h
  obtain ⟨c₁, hadvance, ⟨c₂, bytes⟩, hstring, rfl, rfl, -⟩ := h
  exact ⟨(advance_moves hadvance).1.trans (shortString_moves hstring), _, _, rfl, rfl⟩

theorem scanLongString_oneToken {equals : Nat}
    (h : scanLongString limits equals c tokens = .ok (c', tokens')) :
    Moves c c' ∧ OneToken c c' tokens tokens' := by
  simp only [scanLongString, bind_eq_ok, emit_eq_ok_iff] at h
  obtain ⟨c₁, hopen, c₂, hbreak, ⟨c₃, bytes⟩, hstring, rfl, rfl, -⟩ := h
  have hmove : Moves c₁ c₂ := by
    unfold skipLineBreak at hbreak
    split at hbreak
    · exact (advance_moves hbreak).1
    · cases hbreak
      exact .refl _
  exact ⟨(advanceBy_moves hopen).trans (hmove.trans (longString_moves hstring)), _, _, rfl, rfl⟩

theorem scanSymbol_oneToken {first : UInt8}
    (h : scanSymbol limits first c tokens = .ok (c', tokens')) :
    Moves c c' ∧ OneToken c c' tokens tokens' := by
  simp only [scanSymbol] at h
  split at h
  · simp only [bind_eq_ok, emit_eq_ok_iff] at h
    obtain ⟨c₁, hadvance, rfl, rfl, -⟩ := h
    exact ⟨advanceBy_moves hadvance, _, _, rfl, rfl⟩
  · simp only [bind_eq_ok, lexError] at h
    obtain ⟨c₁, -, h⟩ := h
    cases h

/-- The outcomes of an element: no token, one that is no numeral, or a numeral. -/
theorem scanElement_cases {fl : FloatArith} {byte : UInt8} (hrest : c.rest ≠ [])
    (h : scanElement limits fl byte c tokens = .ok (c', tokens')) :
    (Moves c c' ∧ c.offset < c'.offset ∧ tokens' = tokens)
      ∨ (Moves c c' ∧ OneToken c c' tokens tokens')
      ∨ ((isAsciiDigit byte = true ∨ (byte = 0x2e ∧ (c.peekN 1).any isAsciiDigit = true))
        ∧ scanNumber limits fl c tokens = .ok (c', tokens')) := by
  unfold scanElement at h
  split_ifs at h with hspace hbracket hname hdigit hquote hcomment
  · simp only [bind_eq_ok, pure, Except.pure, Except.ok.injEq, Prod.mk.injEq] at h
    obtain ⟨c₁, hadvance, rfl, rfl⟩ := h
    obtain ⟨hmove, hstrict⟩ := advance_moves hadvance
    exact .inl ⟨hmove, hstrict hrest, rfl⟩
  · split at h
    · exact .inr (.inl (scanLongString_oneToken h))
    · exact .inr (.inl (scanSymbol_oneToken h))
    · simp only [bind_eq_ok, lexError] at h
      obtain ⟨c₁, -, h⟩ := h
      cases h
  · exact .inr (.inl (scanName_oneToken h))
  · exact .inr (.inr ⟨hdigit, h⟩)
  · exact .inr (.inl (scanShortString_oneToken h))
  · simp only [bind_eq_ok, pure, Except.pure, Except.ok.injEq, Prod.mk.injEq] at h
    obtain ⟨c₁, hskip, rfl, rfl⟩ := h
    obtain ⟨hmove, hstrict⟩ := scanShortComment_moves hrest hskip
    exact .inl ⟨hmove, hstrict, rfl⟩
  · exact .inr (.inl (scanSymbol_oneToken h))

theorem consumeIf_moves {p : UInt8 → Bool}
    (h : consumeIf limits origin p c bytes = .ok (c', bytes')) : Moves c c' := by
  unfold consumeIf at h
  split at h
  · cases h
    exact .refl _
  · split at h
    · exact consumeNumberByte_moves h
    · cases h
      exact .refl _

theorem consumeMantissa_moves {digit : UInt8 → Bool}
    (h : consumeMantissa limits origin digit c bytes = .ok (c', bytes')) : Moves c c' := by
  simp only [consumeMantissa, bind_eq_ok] at h
  obtain ⟨⟨c₁, bytes₁⟩, hwhole, h⟩ := h
  split at h
  · simp only [bind_eq_ok] at h
    obtain ⟨⟨c₂, bytes₂⟩, hpoint, hfraction⟩ := h
    exact (consumeWhile_moves hwhole).trans
      ((consumeNumberByte_moves hpoint).trans (consumeWhile_moves hfraction))
  · cases h
    exact consumeWhile_moves hwhole

theorem consumeExponent_moves {marker : UInt8 → Bool} {message : String}
    (h : consumeExponent limits origin marker message c bytes = .ok (c', bytes')) : Moves c c' := by
  unfold consumeExponent at h
  split at h
  · simp only [bind_eq_ok] at h
    obtain ⟨⟨c₁, bytes₁⟩, hmarker, ⟨c₂, bytes₂⟩, hsign, ⟨c₃, bytes₃⟩, hdigits, h⟩ := h
    split at h
    · cases h
    · cases h
      exact (consumeIf_moves hmarker).trans
        ((consumeIf_moves hsign).trans (consumeWhile_moves hdigits))
  · cases h
    exact .refl _

theorem consumeHex_moves (h : consumeHex limits origin c bytes = .ok (c', bytes')) :
    Moves c c' := by
  simp only [consumeHex, bind_eq_ok] at h
  obtain ⟨⟨c₁, _⟩, hzero, ⟨c₂, _⟩, hx, ⟨c₃, _⟩, hmantissa, h⟩ := h
  have hmove := (consumeIf_moves hzero).trans
    ((consumeIf_moves hx).trans (consumeMantissa_moves hmantissa))
  split at h
  · cases h
  · exact hmove.trans (consumeExponent_moves h)

theorem consumeDecimal_moves (h : consumeDecimal limits origin c bytes = .ok (c', bytes')) :
    Moves c c' := by
  simp only [consumeDecimal, bind_eq_ok] at h
  obtain ⟨⟨c₁, _⟩, hmantissa, hexponent⟩ := h
  exact (consumeMantissa_moves hmantissa).trans (consumeExponent_moves hexponent)

/-- A numeral is one token, too. -/
theorem scanNumber_moves {fl : FloatArith} (h : scanNumber limits fl c tokens = .ok (c', tokens')) :
    Moves c c' ∧ ∃ kind literal, tokens' = tokens ++ [tokenAt c.origin c' kind literal] := by
  simp only [scanNumber, bind_eq_ok] at h
  obtain ⟨⟨c₁, bytes⟩, hbytes, h⟩ := h
  have hmove : Moves c c₁ := by
    unfold consumeNumeral at hbytes
    split at hbytes
    · exact consumeHex_moves hbytes
    · exact consumeDecimal_moves hbytes
  split at h
  · simp only [bind_eq_ok, lexError] at h
    obtain ⟨_, -, h⟩ := h
    cases h
  · split at h
    · cases h
    · obtain ⟨rfl, rfl, -⟩ := emit_eq_ok_iff.mp h
      exact ⟨hmove, _, _, rfl⟩
    · obtain ⟨rfl, rfl, -⟩ := emit_eq_ok_iff.mp h
      exact ⟨hmove, _, _, rfl⟩

/-- The tokens of the rest of an input start at or behind the cursor. -/
theorem scanElements_tokens {fl : FloatArith} {fuel : Nat}
    (h : scanElements limits fl fuel c tokens = .ok (c', tokens')) :
    Moves c c' ∧ ∃ later, tokens' = tokens ++ later
      ∧ ∀ token ∈ later, c.offset ≤ token.span.startByte := by
  induction fuel generalizing c tokens with
  | zero =>
    cases h
    exact ⟨.refl _, [], by simp, by simp⟩
  | succ fuel ih =>
    unfold scanElements at h
    split at h
    · cases h
      exact ⟨.refl _, [], by simp, by simp⟩
    · rename_i byte hpeek
      rw [bind_eq_ok] at h
      obtain ⟨⟨c₁, tokens₁⟩, helement, hrest⟩ := h
      obtain ⟨rest, hbyte⟩ := Cursor.peek_eq_some.mp hpeek
      obtain ⟨hlast, later, htokens, hlater⟩ := ih hrest
      have hfirst : Moves c c₁ ∧ ∃ new, tokens₁ = tokens ++ new
          ∧ ∀ token ∈ new, c.offset ≤ token.span.startByte := by
        obtain ⟨hmove, -, rfl⟩ | ⟨hmove, kind, literal, -, rfl⟩ | ⟨-, hnumber⟩ :=
          scanElement_cases (by simp [hbyte]) helement
        · exact ⟨hmove, [], by simp, by simp⟩
        · exact ⟨hmove, _, rfl, by simp [tokenAt, Cursor.origin]⟩
        · obtain ⟨hmove, kind, literal, rfl⟩ := scanNumber_moves hnumber
          exact ⟨hmove, _, rfl, by simp [tokenAt, Cursor.origin]⟩
      obtain ⟨hmove, new, rfl, hnew⟩ := hfirst
      refine ⟨hmove.trans hlast, new ++ later, by simp [htokens], fun token htoken => ?_⟩
      rcases List.mem_append.mp htoken with htoken | htoken
      · exact hnew token htoken
      · exact hmove.offset_le.trans (hlater token htoken)

end Progress

end RivetLua.Compiler.Lexer
