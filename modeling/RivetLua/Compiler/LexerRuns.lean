import RivetLua.Compiler.Lexer
import RivetLua.Lib.Check

namespace RivetLua.Compiler.Lexer

open RivetLua.Core Check

/-!
# Compiler — what the scanning loops do

Within a line the cursor moves byte by byte.  Each lemma says exactly when a loop of the scanner
succeeds and where it leaves the cursor, in terms of the unread bytes and the room the limits
leave.

* `Cursor.skip`, `advance_eq_ok_iff` — one byte that is not a line break;
* `consumeWhile_eq_ok_iff` — a run of bytes of one class;
* `unicodeDigits_eq_ok_iff` — the digits of a Unicode escape.
-/

/-- The cursor `n` bytes further on the same line. -/
def Cursor.skip (c : Cursor) (n : Nat) : Cursor :=
  { c with rest := c.rest.drop n, offset := c.offset + n, column := c.column + n }

@[simp] theorem Cursor.skip_zero (c : Cursor) : c.skip 0 = c := by simp [skip]

@[simp] theorem Cursor.skip_rest (c : Cursor) (n : Nat) : (c.skip n).rest = c.rest.drop n := rfl

@[simp] theorem Cursor.skip_offset (c : Cursor) (n : Nat) :
    (c.skip n).offset = c.offset + n := rfl

theorem Cursor.skip_skip (c : Cursor) (m n : Nat) : (c.skip m).skip n = c.skip (m + n) := by
  simp [skip, Nat.add_assoc]

@[simp] theorem Cursor.peek_eq_some {c : Cursor} {byte : UInt8} :
    c.peek = some byte ↔ ∃ rest, c.rest = byte :: rest := by
  simp [peek, List.head?_eq_some_iff]

section Runs

variable {limits : CompileLimits} {origin : Origin}

/-- The limits leave room for a token that extends to `n` bytes behind the cursor. -/
def Room (limits : CompileLimits) (origin : Origin) (c : Cursor) (n : Nat) : Prop :=
  c.offset + n ≤ origin.startByte + limits.maxTokenBytes

theorem Room.mono {c : Cursor} {m n : Nat} (h : Room limits origin c n) (hle : m ≤ n) :
    Room limits origin c m := by
  unfold Room at *
  omega

theorem room_skip {c : Cursor} {m n : Nat} :
    Room limits origin (c.skip m) n ↔ Room limits origin c (m + n) := by
  unfold Room
  rw [Cursor.skip_offset, Nat.add_assoc]

/-- A byte that is no line break is one step. -/
theorem advance_eq_ok_iff {c c' : Cursor} {byte : UInt8} {rest : List UInt8}
    (hrest : c.rest = byte :: rest) (hbyte : isLineBreak byte = false) :
    advance limits origin c = .ok c' ↔ c' = c.skip 1 ∧ Room limits origin c 1 := by
  have hstep : c.advance limits = (c.skip 1, none) := by
    simp [Cursor.advance, hrest, hbyte, Cursor.skip]
  have hoffset : (c.skip 1).offset = c.offset + 1 := rfl
  simp only [advance, hstep, Room]
  by_cases hover : (c.skip 1).offset - origin.startByte > limits.maxTokenBytes
  · rw [if_pos hover]
    constructor
    · intro h
      cases h
    · rintro ⟨-, hroom⟩
      omega
  · rw [if_neg hover, Except.ok.injEq]
    constructor
    · rintro rfl
      exact ⟨rfl, by omega⟩
    · rintro ⟨rfl, -⟩
      rfl

theorem pushLiteralByte_eq_ok_iff {c : Cursor} {bytes bytes' : List UInt8} {byte : UInt8} :
    pushLiteralByte limits origin c bytes byte = .ok bytes'
      ↔ bytes' = bytes ++ [byte] ∧ bytes.length < limits.maxTokenBytes := by
  unfold pushLiteralByte
  by_cases hover : bytes.length ≥ limits.maxTokenBytes
  · rw [if_pos hover]
    constructor
    · intro h
      cases h
    · rintro ⟨-, hroom⟩
      omega
  · rw [if_neg hover, Except.ok.injEq]
    constructor
    · rintro rfl
      exact ⟨rfl, by omega⟩
    · rintro ⟨rfl, -⟩
      rfl

theorem not_isLineBreak_of_digit {byte : UInt8} (h : isAsciiDigit byte = true) :
    isLineBreak byte = false := by
  revert h
  exact forall_byte (p := fun byte => isAsciiDigit byte = true → isLineBreak byte = false)
    (by decide +kernel) byte

/-! ### Unicode escapes -/

/-- The number a sequence of hexadecimal digits denotes, behind a value read before. -/
def hexNumber (digits : List UInt8) (value : Nat) : Nat :=
  digits.foldl (fun value digit => value * 16 + (hexValue digit).getD 0) value

theorem le_hexNumber (digits : List UInt8) (value : Nat) : value ≤ hexNumber digits value := by
  induction digits generalizing value with
  | nil => exact le_refl _
  | cons digit digits ih =>
    have := ih (value * 16 + (hexValue digit).getD 0)
    simp only [hexNumber, List.foldl_cons] at this ⊢
    omega

/-- Hexadecimal digits stand in the line. -/
theorem not_isLineBreak_of_hexValue {byte : UInt8} {digit : Nat} (h : hexValue byte = some digit) :
    isLineBreak byte = false := by
  by_contra hbreak
  simp only [isLineBreak, Bool.not_eq_false, Bool.or_eq_true, beq_iff_eq] at hbreak
  obtain rfl | rfl := hbreak <;> cases h

/-- The digits of a Unicode escape, up to its closing brace. -/
theorem unicodeDigits_eq_ok_iff {fuel : Nat} {c c' : Cursor} {value X : Nat} {hasDigits : Bool}
    (hfuel : c.rest.length ≤ fuel) :
    unicodeDigits limits origin fuel c value hasDigits = .ok (c', X)
      ↔ ∃ digits rest, c.rest = digits ++ 0x7d :: rest ∧ (∀ d ∈ digits, isAsciiHexdigit d = true)
        ∧ (hasDigits = true ∨ digits ≠ []) ∧ X = hexNumber digits value
        ∧ (digits = [] ∨ X ≤ 0x7fffffff) ∧ c' = c.skip (digits.length + 1)
        ∧ Room limits origin c (digits.length + 1) := by
  induction fuel generalizing c value hasDigits with
  | zero =>
    have hnil : c.rest = [] := List.length_eq_zero_iff.mp (Nat.le_zero.mp hfuel)
    simp [unicodeDigits, lexError, hnil]
  | succ fuel ih =>
    unfold unicodeDigits
    cases hrest : c.rest with
    | nil => simp [Cursor.peek, hrest, lexError]
    | cons byte tail =>
      simp only [Cursor.peek, hrest, List.head?_cons]
      by_cases hbrace : byte = 0x7d
      · -- the closing brace: no digit is left
        subst hbrace
        have hline : isLineBreak 0x7d = false := by decide
        cases hasDigits with
        | false =>
          simp only [lexError, if_true, Bool.false_eq_true, if_false, reduceCtorEq, false_iff]
          rintro ⟨digits, rest, hsplit, hall, hsome, -⟩
          obtain _ | ⟨d, digits⟩ := digits
          · simp at hsome
          · simp only [List.cons_append, List.cons.injEq] at hsplit
            have := hall d (by simp)
            rw [← hsplit.1] at this
            exact absurd this (by decide)
        | true =>
          simp only [if_true, bind_eq_ok, advance_eq_ok_iff hrest hline, pure, Except.pure,
            Except.ok.injEq, Prod.mk.injEq]
          constructor
          · rintro ⟨_, ⟨rfl, hroom⟩, rfl, rfl⟩
            exact ⟨[], tail, by simp, by simp, by simp, rfl, by simp, by simp, by simpa using hroom⟩
          · rintro ⟨digits, rest, hsplit, hall, -, hX, -, hc, hroom⟩
            obtain _ | ⟨d, digits⟩ := digits
            · exact ⟨_, ⟨rfl, by simpa using hroom⟩, by simpa using hc.symm, by simp [hX, hexNumber]⟩
            · simp only [List.cons_append, List.cons.injEq] at hsplit
              have := hall d (by simp)
              rw [← hsplit.1] at this
              exact absurd this (by decide)
      · rw [if_neg hbrace]
        cases hdigit : hexValue byte with
        | none =>
          simp only [lexError, reduceCtorEq, false_iff]
          rintro ⟨digits, rest, hsplit, hall, -⟩
          obtain _ | ⟨d, digits⟩ := digits
          · simp only [List.nil_append, List.cons.injEq] at hsplit
            exact hbrace hsplit.1
          · simp only [List.cons_append, List.cons.injEq] at hsplit
            have := hall d (by simp)
            simp [isAsciiHexdigit, ← hsplit.1, hdigit] at this
        | some digit =>
          have hline := not_isLineBreak_of_hexValue hdigit
          have hlen : (c.skip 1).rest.length ≤ fuel := by
            rw [hrest, List.length_cons] at hfuel
            simp only [Cursor.skip_rest, hrest, List.drop_succ_cons, List.drop_zero]
            omega
          by_cases hover : value * 16 + digit > 0x7fffffff
          · simp only [lexError, if_pos hover, reduceCtorEq, false_iff]
            rintro ⟨digits, rest, hsplit, hall, -, hX, hle, -⟩
            obtain _ | ⟨d, digits⟩ := digits
            · simp only [List.nil_append, List.cons.injEq] at hsplit
              exact hbrace hsplit.1
            · simp only [List.cons_append, List.cons.injEq] at hsplit
              have hgrow := le_hexNumber digits (value * 16 + digit)
              have hstep : hexNumber (d :: digits) value = hexNumber digits (value * 16 + digit) := by
                simp [hexNumber, ← hsplit.1, hdigit]
              simp at hle
              omega
          · simp only [if_neg hover, bind_eq_ok, advance_eq_ok_iff hrest hline]
            constructor
            · rintro ⟨_, ⟨rfl, -⟩, hrun⟩
              obtain ⟨digits, rest, hsplit, hall, -, hX, hle, hc, hroom⟩ := (ih hlen).mp hrun
              simp only [Cursor.skip_rest, hrest, List.drop_succ_cons, List.drop_zero] at hsplit
              have hstep : hexNumber (byte :: digits) value = hexNumber digits (value * 16 + digit) := by
                simp [hexNumber, hdigit]
              refine ⟨byte :: digits, rest, by simp [hsplit], ?_, by simp, by rw [hstep, hX], ?_, ?_, ?_⟩
              · intro d hd
                rcases List.mem_cons.mp hd with rfl | hd
                · simp [isAsciiHexdigit, hdigit]
                · exact hall d hd
              · rcases hle with rfl | hle
                · simp [hX, hexNumber]
                  omega
                · exact .inr hle
              · rw [hc, Cursor.skip_skip, List.length_cons, Nat.add_comm 1]
              · rw [room_skip, Nat.add_comm 1] at hroom
                exact hroom
            · rintro ⟨digits, rest, hsplit, hall, -, hX, hle, hc, hroom⟩
              obtain _ | ⟨d, digits⟩ := digits
              · simp only [List.nil_append, List.cons.injEq] at hsplit
                exact absurd hsplit.1 hbrace
              · simp only [List.cons_append, List.cons.injEq] at hsplit
                obtain ⟨rfl, hsplit⟩ := hsplit
                have hstep : hexNumber (byte :: digits) value
                    = hexNumber digits (value * 16 + digit) := by
                  simp [hexNumber, hdigit]
                refine ⟨_, ⟨rfl, hroom.mono (by simp)⟩, (ih hlen).mpr ⟨digits, rest, ?_, ?_, .inl rfl,
                  by rw [hX, hstep], ?_, ?_, ?_⟩⟩
                · simp [hrest, hsplit]
                · intro d hd
                  exact hall d (List.mem_cons_of_mem _ hd)
                · simp at hle
                  exact .inr hle
                · rw [hc, Cursor.skip_skip, List.length_cons, Nat.add_comm 1]
                · rw [room_skip, Nat.add_comm 1]
                  exact hroom

/-! ### One token -/

theorem pushToken_eq_ok_iff {c : Cursor} {tokens tokens' : List Token} {token : Token} :
    pushToken limits c tokens token = .ok tokens'
      ↔ tokens' = tokens ++ [token] ∧ tokens.length < limits.maxTokens := by
  unfold pushToken
  by_cases hover : tokens.length ≥ limits.maxTokens
  · rw [if_pos hover]
    constructor
    · intro h
      cases h
    · rintro ⟨-, hroom⟩
      omega
  · rw [if_neg hover, Except.ok.injEq]
    constructor
    · rintro rfl
      exact ⟨rfl, by omega⟩
    · rintro ⟨rfl, -⟩
      rfl

/-- The token that `emit` adds. -/
def tokenAt (origin : Origin) (c : Cursor) (kind : TokenKind) (literal : Option Literal) : Token :=
  ⟨kind, ⟨origin.startByte, c.offset⟩, origin.start, c.position, literal⟩

theorem emit_eq_ok_iff {c c' : Cursor} {tokens tokens' : List Token} {kind : TokenKind}
    {literal : Option Literal} :
    emit limits origin c tokens kind literal = .ok (c', tokens')
      ↔ c' = c ∧ tokens' = tokens ++ [tokenAt origin c kind literal]
        ∧ tokens.length < limits.maxTokens := by
  simp only [emit, bind_eq_ok, pushToken_eq_ok_iff, pure, Except.pure, Except.ok.injEq,
    Prod.mk.injEq]
  constructor
  · rintro ⟨_, ⟨rfl, hroom⟩, rfl, rfl⟩
    exact ⟨rfl, rfl, hroom⟩
  · rintro ⟨rfl, rfl, hroom⟩
    exact ⟨_, ⟨rfl, hroom⟩, rfl, rfl⟩

/-- An input that is one element with one token lexes to that token and the end. -/
theorem lex_of_scanElement {fl : FloatArith} {profile : LuaProfile} {byte : UInt8}
    {tail : List UInt8} {c : Cursor} {token : Token}
    (hsource : (byte :: tail).length ≤ limits.maxSourceBytes) (htokens : 2 ≤ limits.maxTokens)
    (h : scanElement limits fl byte (.new (byte :: tail) profile) [] = .ok (c, [token]))
    (hend : c.rest = []) :
    lex limits fl (byte :: tail) profile
      = .ok ⟨c.profile, c.offset, [token, tokenAt c.origin c .eof none]⟩ := by
  have hpeek : (Cursor.new (byte :: tail) profile).peek = some byte := rfl
  have hfuel : (Cursor.new (byte :: tail) profile).rest.length = tail.length + 1 := rfl
  have hstop : scanElements limits fl tail.length c [token] = .ok (c, [token]) := by
    unfold scanElements
    cases htail : tail.length with
    | zero => rfl
    | succ n => simp [Cursor.peek, hend]
  have hemit : emit limits c.origin c [token] .eof none
      = .ok (c, [token, tokenAt c.origin c .eof none]) :=
    emit_eq_ok_iff.mpr ⟨rfl, rfl, htokens⟩
  rw [lex, if_neg (by omega), scan, hfuel, scanElements.eq_2]
  simp only [hpeek, h, ok_bind, hstop, hemit]
  rfl

end Runs

end RivetLua.Compiler.Lexer
