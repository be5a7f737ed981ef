import RivetLua.Compiler.LexerProgress

namespace RivetLua.Compiler.Lexer

open RivetLua.Core Check

/-!
# Compiler — the lexer ends

A round of a loop that goes on has taken a byte, so no loop of the scanner runs for more rounds
than there are unread bytes.  Here that bound is the fuel, and the loops are shown not to depend on
it: with as much fuel as there are unread bytes, or more, the outcome is the same, errors included.

* `scanElement_strict` — an element takes at least one byte, whatever it is;
* `Round`, `round_wellFounded` — the loop of `scan` has no infinite run;
* `LoopsEnd`, `loopsEnd` — no loop ends for want of fuel.
-/

section Termination

variable {limits : CompileLimits} {fl : FloatArith} {origin : Origin} {c c' : Cursor}
  {bytes bytes' : List UInt8} {tokens tokens' : List Token}

theorem Moves.rest_le (h : Moves c c') : c'.rest.length ≤ c.rest.length := by
  have htotal := h.total
  have hoffset := h.offset_le
  omega

theorem Moves.rest_lt (h : Moves c c') (hlt : c.offset < c'.offset) :
    c'.rest.length < c.rest.length := by
  have htotal := h.total
  omega

theorem advance_rest_lt (hne : c.rest ≠ []) (h : advance limits origin c = .ok c') :
    c'.rest.length < c.rest.length := by
  obtain ⟨hmoves, hstrict⟩ := advance_moves h
  exact hmoves.rest_lt (hstrict hne)

theorem consumeNumberByte_strict {byte : UInt8} (hne : c.rest ≠ [])
    (h : consumeNumberByte limits origin c bytes byte = .ok (c', bytes')) :
    c.offset < c'.offset := by
  simp only [consumeNumberByte, bind_eq_ok, pure, Except.pure, Except.ok.injEq,
    Prod.mk.injEq] at h
  obtain ⟨_, -, c₁, hadvance, rfl, -⟩ := h
  exact (advance_moves hadvance).2 hne

theorem ne_nil_of_peek {byte : UInt8} (h : c.peek = some byte) : c.rest ≠ [] := by
  obtain ⟨rest, hrest⟩ := Cursor.peek_eq_some.mp h
  simp [hrest]

/-! ### Every element takes a byte -/

/-- A run of bytes whose first one belongs to it. -/
theorem consumeWhile_strict {p : UInt8 → Bool} {byte : UInt8} (hpeek : c.peek = some byte)
    (hp : p byte = true)
    (h : consumeWhile limits origin p c.rest.length c bytes = .ok (c', bytes')) :
    c.offset < c'.offset := by
  obtain ⟨rest, hrest⟩ := Cursor.peek_eq_some.mp hpeek
  rw [hrest, List.length_cons, consumeWhile.eq_2, hpeek] at h
  simp only [hp, if_true, bind_eq_ok] at h
  obtain ⟨⟨c₁, bytes₁⟩, hbyte, hmore⟩ := h
  exact lt_of_lt_of_le (consumeNumberByte_strict (by simp [hrest]) hbyte)
    (consumeWhile_moves hmore).offset_le

/-- A numeral starts with a digit, or with a point in front of one. -/
theorem consumeDecimal_strict {byte : UInt8} (hpeek : c.peek = some byte)
    (hbyte : isAsciiDigit byte = true ∨ (byte = 0x2e ∧ (c.peekN 1).any isAsciiDigit = true))
    (h : consumeDecimal limits origin c bytes = .ok (c', bytes')) : c.offset < c'.offset := by
  simp only [consumeDecimal, bind_eq_ok] at h
  obtain ⟨⟨c₁, bytes₁⟩, hmantissa, hexponent⟩ := h
  refine lt_of_lt_of_le ?_ (consumeExponent_moves hexponent).offset_le
  simp only [consumeMantissa, bind_eq_ok] at hmantissa
  obtain ⟨⟨c₂, bytes₂⟩, hwhole, hmantissa⟩ := hmantissa
  have hlater : c₂.offset ≤ c₁.offset := by
    split at hmantissa
    · simp only [bind_eq_ok] at hmantissa
      obtain ⟨⟨c₃, bytes₃⟩, hpoint, hfraction⟩ := hmantissa
      exact ((consumeNumberByte_moves hpoint).trans (consumeWhile_moves hfraction)).offset_le
    · cases hmantissa
      exact le_refl _
  obtain ⟨rest, hrest⟩ := Cursor.peek_eq_some.mp hpeek
  by_cases hdigit : isAsciiDigit byte = true
  · exact lt_of_lt_of_le (consumeWhile_strict hpeek hdigit hwhole) hlater
  · obtain ⟨rfl, hnext⟩ := hbyte.resolve_left hdigit
    -- no digit stands before the point, so it is the next byte
    rw [hrest, List.length_cons, consumeWhile.eq_2, hpeek] at hwhole
    simp only [hdigit, Bool.false_eq_true, if_false] at hwhole
    cases hwhole
    have hpoint : c.peekN 1 ≠ some 0x2e := by
      intro hpoint
      rw [hpoint] at hnext
      exact absurd hnext (by decide)
    rw [if_pos ⟨hpeek, hpoint⟩] at hmantissa
    simp only [bind_eq_ok] at hmantissa
    obtain ⟨⟨c₃, bytes₃⟩, hbyte, hfraction⟩ := hmantissa
    exact lt_of_lt_of_le (consumeNumberByte_strict (by simp [hrest]) hbyte)
      (consumeWhile_moves hfraction).offset_le

theorem consumeHex_strict (hne : c.rest ≠ [])
    (h : consumeHex limits origin c bytes = .ok (c', bytes')) : c.offset < c'.offset := by
  simp only [consumeHex, bind_eq_ok] at h
  obtain ⟨⟨c₁, _⟩, hzero, ⟨c₂, _⟩, hx, ⟨c₃, _⟩, hmantissa, h⟩ := h
  have hfirst : c.offset < c₁.offset := by
    obtain ⟨byte, rest, hrest⟩ := List.exists_cons_of_ne_nil hne
    simp only [consumeIf, Cursor.peek, hrest, List.head?_cons, if_true] at hzero
    exact consumeNumberByte_strict hne hzero
  have hmove := (consumeIf_moves hx).trans (consumeMantissa_moves hmantissa)
  split at h
  · cases h
  · exact lt_of_lt_of_le hfirst (hmove.trans (consumeExponent_moves h)).offset_le

theorem scanNumber_strict {byte : UInt8} (hpeek : c.peek = some byte)
    (hbyte : isAsciiDigit byte = true ∨ (byte = 0x2e ∧ (c.peekN 1).any isAsciiDigit = true))
    (h : scanNumber limits fl c tokens = .ok (c', tokens')) : c.offset < c'.offset := by
  simp only [scanNumber, bind_eq_ok] at h
  obtain ⟨⟨c₁, bytes⟩, hbytes, h⟩ := h
  have hstrict : c.offset < c₁.offset := by
    unfold consumeNumeral at hbytes
    split at hbytes
    · exact consumeHex_strict (ne_nil_of_peek hpeek) hbytes
    · exact consumeDecimal_strict hpeek hbyte hbytes
  split at h
  · simp only [bind_eq_ok, lexError] at h
    obtain ⟨_, -, h⟩ := h
    cases h
  · split at h
    · cases h
    · obtain ⟨rfl, -, -⟩ := emit_eq_ok_iff.mp h
      exact hstrict
    · obtain ⟨rfl, -, -⟩ := emit_eq_ok_iff.mp h
      exact hstrict

theorem scanName_strict {byte : UInt8} (hpeek : c.peek = some byte)
    (hbyte : isNameStart byte = true) (h : scanName limits c tokens = .ok (c', tokens')) :
    c.offset < c'.offset := by
  simp only [scanName, bind_eq_ok] at h
  obtain ⟨⟨c₁, bytes⟩, hbytes, h⟩ := h
  have hstrict := consumeWhile_strict hpeek (by simp [isNameContinue, hbyte]) hbytes
  split at h <;> rw [emit_eq_ok_iff] at h <;> obtain ⟨rfl, -, -⟩ := h
  · exact hstrict
  · exact hstrict

theorem scanShortString_strict {quote : UInt8} (hne : c.rest ≠ [])
    (h : scanShortString limits quote c tokens = .ok (c', tokens')) : c.offset < c'.offset := by
  simp only [scanShortString, bind_eq_ok, emit_eq_ok_iff] at h
  obtain ⟨c₁, hadvance, ⟨c₂, bytes⟩, hstring, rfl, -, -⟩ := h
  exact lt_of_lt_of_le ((advance_moves hadvance).2 hne) (shortString_moves hstring).offset_le

theorem scanLongString_strict {equals : Nat} (hne : c.rest ≠ [])
    (h : scanLongString limits equals c tokens = .ok (c', tokens')) : c.offset < c'.offset := by
  simp only [scanLongString, bind_eq_ok, emit_eq_ok_iff] at h
  obtain ⟨c₁, hopen, c₂, hbreak, ⟨c₃, bytes⟩, hstring, rfl, -, -⟩ := h
  have hmove : Moves c₁ c₂ := by
    unfold skipLineBreak at hbreak
    split at hbreak
    · exact (advance_moves hbreak).1
    · cases hbreak
      exact .refl _
  exact lt_of_lt_of_le (advanceBy_strict hne hopen) (hmove.trans (longString_moves hstring)).offset_le

theorem width_ite {p : Prop} [Decidable p] {a b : Option (Symbol × Nat)}
    (ha : ∀ s ∈ a, 0 < s.2) (hb : ∀ s ∈ b, 0 < s.2) : ∀ s ∈ (if p then a else b), 0 < s.2 := by
  split
  · exact ha
  · exact hb

/-- No symbol is empty. -/
theorem symbolAt_pos {first : UInt8} : ∀ s ∈ symbolAt c first, 0 < s.2 := by
  unfold symbolAt
  repeat' apply width_ite
  all_goals simp

theorem scanSymbol_strict {first : UInt8} (hne : c.rest ≠ [])
    (h : scanSymbol limits first c tokens = .ok (c', tokens')) : c.offset < c'.offset := by
  simp only [scanSymbol] at h
  split at h
  · rename_i symbol width hsymbol
    obtain ⟨n, rfl⟩ := Nat.exists_eq_succ_of_ne_zero (symbolAt_pos _ hsymbol).ne'
    simp only [bind_eq_ok, emit_eq_ok_iff] at h
    obtain ⟨c₁, hadvance, rfl, -, -⟩ := h
    exact advanceBy_strict hne hadvance
  · simp only [bind_eq_ok, lexError] at h
    obtain ⟨c₁, -, h⟩ := h
    cases h

/-- The element at the cursor, whatever it is, takes at least one byte. -/
theorem scanElement_strict {byte : UInt8} (hpeek : c.peek = some byte)
    (h : scanElement limits fl byte c tokens = .ok (c', tokens')) : c.offset < c'.offset := by
  have hne := ne_nil_of_peek hpeek
  unfold scanElement at h
  split_ifs at h with hspace hbracket hname hdigit hquote hcomment
  · simp only [bind_eq_ok, pure, Except.pure, Except.ok.injEq, Prod.mk.injEq] at h
    obtain ⟨c₁, hadvance, rfl, -⟩ := h
    exact (advance_moves hadvance).2 hne
  · split at h
    · exact scanLongString_strict hne h
    · exact scanSymbol_strict hne h
    · simp only [bind_eq_ok, lexError] at h
      obtain ⟨c₁, -, h⟩ := h
      cases h
  · exact scanName_strict hpeek hname h
  · exact scanNumber_strict hpeek hdigit h
  · exact scanShortString_strict hne h
  · simp only [bind_eq_ok, pure, Except.pure, Except.ok.injEq, Prod.mk.injEq] at h
    obtain ⟨c₁, hskip, rfl, -⟩ := h
    exact (scanShortComment_moves hne hskip).2
  · exact scanSymbol_strict hne h

theorem scanElement_moves {byte : UInt8} (hpeek : c.peek = some byte)
    (h : scanElement limits fl byte c tokens = .ok (c', tokens')) : Moves c c' := by
  obtain ⟨hmove, -, -⟩ | ⟨hmove, -⟩ | ⟨-, hnumber⟩ := scanElement_cases (ne_nil_of_peek hpeek) h
  · exact hmove
  · exact hmove
  · exact (scanNumber_moves hnumber).1

/-! ### The loop of `scan` -/

/-- One round of the loop leads from the second state to the first. -/
def Round (limits : CompileLimits) (fl : FloatArith) (next state : Cursor × List Token) : Prop :=
  ∃ byte, state.1.peek = some byte ∧ scanElement limits fl byte state.1 state.2 = .ok next

/-- A round leaves fewer unread bytes. -/
theorem Round.rest_lt {next state : Cursor × List Token} (h : Round limits fl next state) :
    next.1.rest.length < state.1.rest.length := by
  obtain ⟨byte, hpeek, helement⟩ := h
  exact (scanElement_moves hpeek helement).rest_lt (scanElement_strict hpeek helement)

/-- The loop has no infinite run, from any state. -/
theorem round_wellFounded : WellFounded (Round limits fl) :=
  Subrelation.wf Round.rest_lt (measure (fun state : Cursor × List Token => state.1.rest.length)).wf

/-! ### No loop wants for fuel -/

/-- What does not change from one bound to the next is the same for every later one. -/
theorem eq_of_le_of_succ {α : Type} {f : Nat → α} {m n : Nat}
    (hsucc : ∀ k, m ≤ k → f (k + 1) = f k) (hle : m ≤ n) : f n = f m := by
  induction n, hle using Nat.le_induction with
  | base => rfl
  | succ n hle ih => rw [hsucc n hle, ih]

theorem peek_eq_none (h : c.rest.length ≤ 0) : c.peek = none := by
  simp [Cursor.peek, List.length_eq_zero_iff.mp (Nat.le_zero.mp h)]

theorem advanceWhile_succ {p : UInt8 → Bool} {n : Nat} (hn : c.rest.length ≤ n) :
    advanceWhile limits origin p (n + 1) c = advanceWhile limits origin p n c := by
  induction n generalizing c with
  | zero => rw [advanceWhile.eq_2, peek_eq_none hn, advanceWhile.eq_1]
  | succ n ih =>
    rw [advanceWhile.eq_2, advanceWhile.eq_2]
    cases hpeek : c.peek with
    | none => rfl
    | some byte =>
      simp only
      split
      · apply bind_congr_of_ok
        intro c₁ hadvance
        have := advance_rest_lt (ne_nil_of_peek hpeek) hadvance
        exact ih (by omega)
      · rfl

theorem consumeWhile_succ {p : UInt8 → Bool} {n : Nat} (hn : c.rest.length ≤ n) :
    consumeWhile limits origin p (n + 1) c bytes = consumeWhile limits origin p n c bytes := by
  induction n generalizing c bytes with
  | zero => rw [consumeWhile.eq_2, peek_eq_none hn, consumeWhile.eq_1]
  | succ n ih =>
    rw [consumeWhile.eq_2, consumeWhile.eq_2]
    cases hpeek : c.peek with
    | none => rfl
    | some byte =>
      simp only
      split
      · apply bind_congr_of_ok
        intro next hbyte
        have := (consumeNumberByte_moves hbyte).rest_lt
          (consumeNumberByte_strict (ne_nil_of_peek hpeek) hbyte)
        exact ih (by omega)
      · rfl

theorem unicodeDigits_succ {n value : Nat} {hasDigits : Bool} (hn : c.rest.length ≤ n) :
    unicodeDigits limits origin (n + 1) c value hasDigits
      = unicodeDigits limits origin n c value hasDigits := by
  induction n generalizing c value hasDigits with
  | zero => rw [unicodeDigits.eq_2, peek_eq_none hn, unicodeDigits.eq_1]
  | succ n ih =>
    rw [unicodeDigits.eq_2, unicodeDigits.eq_2]
    cases hpeek : c.peek with
    | none => rfl
    | some byte =>
      simp only
      split
      · rfl
      · split
        · rfl
        · split
          · rfl
          · apply bind_congr_of_ok
            intro c₁ hadvance
            have := advance_rest_lt (ne_nil_of_peek hpeek) hadvance
            exact ih (by omega)

theorem shortString_succ {quote : UInt8} {n : Nat} (hn : c.rest.length ≤ n) :
    shortString limits origin quote (n + 1) c bytes
      = shortString limits origin quote n c bytes := by
  induction n generalizing c bytes with
  | zero => rw [shortString.eq_2, peek_eq_none hn, shortString.eq_1]
  | succ n ih =>
    rw [shortString.eq_2, shortString.eq_2]
    cases hpeek : c.peek with
    | none => rfl
    | some byte =>
      simp only
      have hround : ∀ c₁, advance limits origin c = .ok c₁ → c₁.rest.length ≤ n := by
        intro c₁ hadvance
        have := advance_rest_lt (ne_nil_of_peek hpeek) hadvance
        omega
      split
      · rfl
      · split
        · rfl
        · split
          · apply bind_congr_of_ok
            intro bytes₁ _
            apply bind_congr_of_ok
            intro c₁ hadvance
            exact ih (hround c₁ hadvance)
          · apply bind_congr_of_ok
            intro c₁ hadvance
            split
            · rfl
            · apply bind_congr_of_ok
              intro next hescape
              have hle := (scanEscape_moves hescape).rest_le
              have := hround c₁ hadvance
              exact ih (by omega)

theorem longString_succ {equals n : Nat} (hn : c.rest.length ≤ n) :
    longString limits origin equals (n + 1) c bytes = longString limits origin equals n c bytes := by
  induction n generalizing c bytes with
  | zero => rw [longString.eq_2, peek_eq_none hn, longString.eq_1]
  | succ n ih =>
    rw [longString.eq_2, longString.eq_2]
    cases hpeek : c.peek with
    | none => rfl
    | some byte =>
      simp only
      split
      · rfl
      · apply bind_congr_of_ok
        intro bytes₁ _
        apply bind_congr_of_ok
        intro c₁ hadvance
        have := advance_rest_lt (ne_nil_of_peek hpeek) hadvance
        exact ih (by omega)

theorem longComment_succ {equals n : Nat} (hn : c.rest.length ≤ n) :
    longComment limits origin equals (n + 1) c = longComment limits origin equals n c := by
  induction n generalizing c with
  | zero => rw [longComment.eq_2, peek_eq_none hn, longComment.eq_1]
  | succ n ih =>
    rw [longComment.eq_2, longComment.eq_2]
    cases hpeek : c.peek with
    | none => rfl
    | some byte =>
      simp only
      split
      · rfl
      · apply bind_congr_of_ok
        intro c₁ hadvance
        have := advance_rest_lt (ne_nil_of_peek hpeek) hadvance
        exact ih (by omega)

theorem scanElements_succ {n : Nat} (hn : c.rest.length ≤ n) :
    scanElements limits fl (n + 1) c tokens = scanElements limits fl n c tokens := by
  induction n generalizing c tokens with
  | zero => rw [scanElements.eq_2, peek_eq_none hn, scanElements.eq_1]
  | succ n ih =>
    rw [scanElements.eq_2, scanElements.eq_2]
    cases hpeek : c.peek with
    | none => rfl
    | some byte =>
      apply bind_congr_of_ok
      intro next helement
      have hround : Round limits fl next (c, tokens) := ⟨byte, hpeek, helement⟩
      have hlt := hround.rest_lt
      exact ih (by simp only at hlt; omega)

/-- Each loop takes a byte a round, and does not depend on the bound on its rounds. -/
structure LoopsEnd (limits : CompileLimits) (fl : FloatArith) : Prop where
  round : ∀ origin c c', c.rest ≠ [] → advance limits origin c = .ok c' →
    c'.rest.length < c.rest.length
  escape : ∀ origin c c' bytes bytes' escape,
    scanEscape limits origin c bytes escape = .ok (c', bytes') → c'.rest.length ≤ c.rest.length
  advanceWhile : ∀ origin p c n, c.rest.length ≤ n →
    advanceWhile limits origin p n c = advanceWhile limits origin p c.rest.length c
  consumeWhile : ∀ origin p c bytes n, c.rest.length ≤ n →
    consumeWhile limits origin p n c bytes = consumeWhile limits origin p c.rest.length c bytes
  unicodeDigits : ∀ origin c value hasDigits n, c.rest.length ≤ n →
    unicodeDigits limits origin n c value hasDigits
      = unicodeDigits limits origin c.rest.length c value hasDigits
  shortString : ∀ origin quote c bytes n, c.rest.length ≤ n →
    shortString limits origin quote n c bytes
      = shortString limits origin quote c.rest.length c bytes
  longString : ∀ origin equals c bytes n, c.rest.length ≤ n →
    longString limits origin equals n c bytes
      = longString limits origin equals c.rest.length c bytes
  longComment : ∀ origin equals c n, c.rest.length ≤ n →
    longComment limits origin equals n c = longComment limits origin equals c.rest.length c
  scanElements : ∀ c tokens n, c.rest.length ≤ n →
    scanElements limits fl n c tokens = scanElements limits fl c.rest.length c tokens

theorem loopsEnd : LoopsEnd limits fl where
  round _ _ _ hne h := advance_rest_lt hne h
  escape _ _ _ _ _ _ h := (scanEscape_moves h).rest_le
  advanceWhile origin p c _ := eq_of_le_of_succ
    (f := fun n => advanceWhile limits origin p n c) fun _ => advanceWhile_succ
  consumeWhile origin p c bytes _ := eq_of_le_of_succ
    (f := fun n => consumeWhile limits origin p n c bytes) fun _ => consumeWhile_succ
  unicodeDigits origin c value hasDigits _ := eq_of_le_of_succ
    (f := fun n => unicodeDigits limits origin n c value hasDigits) fun _ => unicodeDigits_succ
  shortString origin quote c bytes _ := eq_of_le_of_succ
    (f := fun n => shortString limits origin quote n c bytes) fun _ => shortString_succ
  longString origin equals c bytes _ := eq_of_le_of_succ
    (f := fun n => longString limits origin equals n c bytes) fun _ => longString_succ
  longComment origin equals c _ := eq_of_le_of_succ
    (f := fun n => longComment limits origin equals n c) fun _ => longComment_succ
  scanElements c tokens _ := eq_of_le_of_succ
    (f := fun n => scanElements limits fl n c tokens) fun _ => scanElements_succ

end Termination

end RivetLua.Compiler.Lexer
