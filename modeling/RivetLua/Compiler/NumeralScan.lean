import RivetLua.Compiler.LexerProgress
import Mathlib.Data.List.TakeWhile

namespace RivetLua.Compiler.Lexer

open RivetLua.Core Check

/-!
# Compiler — which inputs are one numeral

Within the limits the scanner takes a mantissa and an exponent and nothing else, so an input is a
single numeral exactly when it has the form of one and its value can be computed.

* `mantissaOf`, `exponentOf` — the two parts of a text, and `isNumeral_iff`;
* `consumeMantissa_eq`, `consumeExponent_iff`, `consumeNumeral_iff` — the scanner takes them;
* `LexesAs`, `lexesAs_iff` — the input as a whole.
-/

/-! ### The parts of a numeral -/

section Parts

variable {digit marker : UInt8 → Bool}

/-- The digits at the front of a text, with a point that is not the start of `..`. -/
def mantissaOf (digit : UInt8 → Bool) (text : List UInt8) : List UInt8 :=
  match text.dropWhile digit with
  | [] => text.takeWhile digit
  | byte :: rest =>
    if byte = 0x2e ∧ rest.head? ≠ some 0x2e then
      text.takeWhile digit ++ 0x2e :: rest.takeWhile digit
    else text.takeWhile digit

/-- What follows the mantissa. -/
def exponentOf (digit : UInt8 → Bool) (text : List UInt8) : List UInt8 :=
  match text.dropWhile digit with
  | [] => []
  | byte :: rest =>
    if byte = 0x2e ∧ rest.head? ≠ some 0x2e then rest.dropWhile digit else byte :: rest

theorem mantissaOf_append_exponentOf (digit : UInt8 → Bool) (text : List UInt8) :
    mantissaOf digit text ++ exponentOf digit text = text := by
  have hsplit := List.takeWhile_append_dropWhile (p := digit) (l := text)
  unfold mantissaOf exponentOf
  cases hrest : text.dropWhile digit with
  | nil =>
    rw [hrest] at hsplit
    simpa using hsplit
  | cons byte rest =>
    rw [hrest] at hsplit
    simp only
    split
    · rename_i hpoint
      rw [hpoint.1] at hsplit
      rw [List.append_assoc, List.cons_append, List.takeWhile_append_dropWhile, hsplit]
    · exact hsplit

/-- A run of bytes of one class is empty or has one. -/
theorem any_takeWhile (text : List UInt8) :
    (text.takeWhile digit).any digit = !(text.takeWhile digit).isEmpty := by
  cases text with
  | nil => rfl
  | cons byte rest =>
    by_cases h : digit byte = true
    · simp [h]
    · simp [h]

/-- A numeral is a mantissa with a digit and an exponent. -/
theorem isNumeral_iff (hdigit : digit 0x2e = false) (hmarker : marker 0x2e = false)
    (text : List UInt8) :
    isNumeral digit marker text = true
      ↔ (mantissaOf digit text).any digit = true
        ∧ isExponent marker (exponentOf digit text) = true := by
  unfold isNumeral mantissaOf exponentOf
  cases hrest : text.dropWhile digit with
  | nil => simp [any_takeWhile, isExponent]
  | cons byte rest =>
    simp only
    by_cases hpoint : byte = 0x2e
    · subst hpoint
      by_cases hdots : rest.head? = some 0x2e
      · -- two points are no numeral
        obtain ⟨tail, rfl⟩ := List.head?_eq_some_iff.mp hdots
        simp [isExponent, hmarker, hdigit]
      · simp only [hdots, if_true, not_false_eq_true, and_self, ne_eq, List.any_append,
          List.any_cons, hdigit, Bool.false_or, any_takeWhile, Bool.and_eq_true, Bool.or_eq_true,
          Bool.not_eq_true', Bool.and_eq_false_iff]
    · simp [hpoint, any_takeWhile]

end Parts

/-! ### The scanner within the limits -/

section Scan

variable {limits : CompileLimits} {origin : Origin}

/-- The limits leave room for all unread bytes, as part of the token and of its text. -/
structure Enough (limits : CompileLimits) (origin : Origin) (c : Cursor) (bytes : List UInt8) :
    Prop where
  token : c.offset + c.rest.length ≤ origin.startByte + limits.maxTokenBytes
  text : bytes.length + c.rest.length ≤ limits.maxTokenBytes

theorem Enough.skip {c : Cursor} {bytes : List UInt8} (h : Enough limits origin c bytes)
    (taken : List UInt8) (hle : taken.length ≤ c.rest.length) :
    Enough limits origin (c.skip taken.length) (bytes ++ taken) := by
  obtain ⟨htoken, htext⟩ := h
  constructor
  · simp only [Cursor.skip_offset, Cursor.skip_rest, List.length_drop]
    omega
  · simp only [Cursor.skip_rest, List.length_drop, List.length_append]
    omega

theorem consumeNumberByte_eq {c : Cursor} {bytes rest : List UInt8} {byte : UInt8}
    (h : Enough limits origin c bytes) (hrest : c.rest = byte :: rest)
    (hbreak : isLineBreak byte = false) :
    consumeNumberByte limits origin c bytes byte = .ok (c.skip 1, bytes ++ [byte]) := by
  obtain ⟨htoken, htext⟩ := h
  rw [hrest, List.length_cons] at htoken htext
  have hpush : pushLiteralByte limits origin c bytes byte = .ok (bytes ++ [byte]) :=
    pushLiteralByte_eq_ok_iff.mpr ⟨rfl, by omega⟩
  have hadvance : advance limits origin c = .ok (c.skip 1) :=
    (advance_eq_ok_iff hrest hbreak).mpr ⟨rfl, by unfold Room; omega⟩
  simp only [consumeNumberByte, hpush, hadvance, ok_bind]
  rfl

/-- A run of bytes of one class is taken as a whole. -/
theorem consumeWhile_eq {p : UInt8 → Bool} (hp : ∀ byte, p byte = true → isLineBreak byte = false)
    {fuel : Nat} {c : Cursor} {bytes : List UInt8} (h : Enough limits origin c bytes)
    (hfuel : c.rest.length ≤ fuel) :
    consumeWhile limits origin p fuel c bytes
      = .ok (c.skip (c.rest.takeWhile p).length, bytes ++ c.rest.takeWhile p) := by
  induction fuel generalizing c bytes with
  | zero =>
    have hnil : c.rest = [] := List.length_eq_zero_iff.mp (Nat.le_zero.mp hfuel)
    simp [consumeWhile, hnil]
  | succ fuel ih =>
    unfold consumeWhile
    cases hrest : c.rest with
    | nil => simp [Cursor.peek, hrest]
    | cons byte rest =>
      simp only [Cursor.peek, hrest, List.head?_cons, List.takeWhile_cons]
      by_cases hbyte : p byte = true
      · have hskip : (c.skip 1).rest = rest := by simp [hrest]
        have hnext := ih (h.skip [byte] (by simp [hrest]))
          (by rw [List.length_singleton, hskip]; rw [hrest] at hfuel; simpa using hfuel)
        rw [List.length_singleton, hskip] at hnext
        rw [if_pos hbyte, if_pos hbyte, consumeNumberByte_eq h hrest (hp byte hbyte), ok_bind, hnext,
          Cursor.skip_skip, List.length_cons, Nat.add_comm]
        simp
      · simp [hbyte]

/-- Behind the bytes taken the rest is unread. -/
theorem drop_length_takeWhile (p : UInt8 → Bool) (text : List UInt8) :
    text.drop (text.takeWhile p).length = text.dropWhile p := by
  calc text.drop (text.takeWhile p).length
      = (text.takeWhile p ++ text.dropWhile p).drop (text.takeWhile p).length := by
        rw [List.takeWhile_append_dropWhile]
    _ = text.dropWhile p := List.drop_left

theorem length_takeWhile_le (p : UInt8 → Bool) (text : List UInt8) :
    (text.takeWhile p).length ≤ text.length :=
  (List.takeWhile_sublist p).length_le

theorem consumeMantissa_eq {digit : UInt8 → Bool}
    (hdigit : ∀ byte, digit byte = true → isLineBreak byte = false) {c : Cursor}
    {bytes : List UInt8} (h : Enough limits origin c bytes) :
    consumeMantissa limits origin digit c bytes
      = .ok (c.skip (mantissaOf digit c.rest).length, bytes ++ mantissaOf digit c.rest) := by
  have hwhole := consumeWhile_eq hdigit h (le_refl _)
  have henough := h.skip _ (length_takeWhile_le digit c.rest)
  have hrest : (c.skip (c.rest.takeWhile digit).length).rest = c.rest.dropWhile digit :=
    drop_length_takeWhile digit c.rest
  simp only [consumeMantissa, hwhole, ok_bind, Cursor.peek, Cursor.peekN, hrest]
  cases htail : c.rest.dropWhile digit with
  | nil =>
    have hm : mantissaOf digit c.rest = c.rest.takeWhile digit := by simp [mantissaOf, htail]
    simp [hm, pure, Except.pure]
  | cons byte rest =>
    rw [htail] at hrest
    have hone : (byte :: rest)[1]? = rest.head? := by cases rest <;> rfl
    by_cases hpoint : byte = 0x2e ∧ rest.head? ≠ some 0x2e
    · have hm : mantissaOf digit c.rest
          = c.rest.takeWhile digit ++ 0x2e :: rest.takeWhile digit := by
        simp [mantissaOf, htail, hpoint]
      obtain ⟨rfl, hdots⟩ := hpoint
      have hskip : ((c.skip (c.rest.takeWhile digit).length).skip 1).rest = rest := by
        rw [Cursor.skip_rest, hrest, List.drop_succ_cons, List.drop_zero]
      have hnext := consumeWhile_eq hdigit (henough.skip [0x2e] (by rw [hrest]; simp)) (le_refl _)
      rw [List.length_singleton, hskip] at hnext
      rw [if_pos ⟨rfl, by rw [hone]; exact hdots⟩,
        consumeNumberByte_eq henough hrest (by decide), ok_bind]
      simp only [hskip]
      rw [hnext, Cursor.skip_skip, Cursor.skip_skip, hm]
      simp [Nat.add_comm]
    · have hm : mantissaOf digit c.rest = c.rest.takeWhile digit := by
        simp only [mantissaOf, htail]
        rw [if_neg hpoint]
      rw [hm, if_neg (by
        rintro ⟨hbyte, hnext⟩
        rw [hone] at hnext
        exact hpoint ⟨by simpa using hbyte, hnext⟩)]
      rfl

/-- The mantissa is followed by what was called the exponent. -/
theorem drop_length_mantissaOf (digit : UInt8 → Bool) (text : List UInt8) :
    text.drop (mantissaOf digit text).length = exponentOf digit text := by
  calc text.drop (mantissaOf digit text).length
      = (mantissaOf digit text ++ exponentOf digit text).drop (mantissaOf digit text).length := by
        rw [mantissaOf_append_exponentOf]
    _ = exponentOf digit text := List.drop_left

/-- An optional sign is taken. -/
theorem consumeIf_sign {c : Cursor} {bytes : List UInt8} (h : Enough limits origin c bytes) :
    ∃ sign, c.rest = sign ++ (splitSign c.rest).2
      ∧ consumeIf limits origin (fun byte => byte == 0x2b || byte == 0x2d) c bytes
        = .ok (c.skip sign.length, bytes ++ sign) := by
  cases hrest : c.rest with
  | nil => exact ⟨[], by simp [splitSign], by simp [consumeIf, Cursor.peek, hrest]⟩
  | cons byte rest =>
    have hpeek : c.peek = some byte := Cursor.peek_eq_some.mpr ⟨rest, hrest⟩
    by_cases hsign : byte = 0x2d ∨ byte = 0x2b
    · have hsplit : (splitSign (byte :: rest)).2 = rest := by
        obtain rfl | rfl := hsign <;> rfl
      have hbreak : isLineBreak byte = false := by
        obtain rfl | rfl := hsign <;> decide
      refine ⟨[byte], by simp [hsplit], ?_⟩
      rw [consumeIf, hpeek]
      simp only
      rw [if_pos (by simpa using hsign.symm), consumeNumberByte_eq h hrest hbreak]
      rfl
    · rw [not_or] at hsign
      have hsplit : (splitSign (byte :: rest)).2 = byte :: rest := by
        simp [splitSign, hsign]
      refine ⟨[], by simp [hsplit], ?_⟩
      rw [consumeIf, hpeek]
      simp [hsign]

/-- An exponent is taken to the end of the input exactly when the input is one. -/
theorem consumeExponent_iff {marker : UInt8 → Bool} (message : String)
    (hmarker : ∀ byte, marker byte = true → isLineBreak byte = false) {c : Cursor}
    {bytes : List UInt8} (h : Enough limits origin c bytes) (c' : Cursor) (bytes' : List UInt8) :
    (consumeExponent limits origin marker message c bytes = .ok (c', bytes') ∧ c'.rest = [])
      ↔ isExponent marker c.rest = true ∧ c' = c.skip c.rest.length ∧ bytes' = bytes ++ c.rest := by
  unfold consumeExponent
  cases hrest : c.rest with
  | nil =>
    simp only [Cursor.peek, hrest, List.head?_nil, Option.any_none, Bool.false_eq_true, if_false,
      isExponent, pure, Except.pure, Except.ok.injEq, Prod.mk.injEq, true_and, List.length_nil,
      Cursor.skip_zero, List.append_nil]
    constructor
    · rintro ⟨⟨rfl, rfl⟩, -⟩
      exact ⟨rfl, rfl⟩
    · rintro ⟨rfl, rfl⟩
      exact ⟨⟨rfl, rfl⟩, hrest⟩
  | cons byte rest =>
    have hpeek : c.peek = some byte := Cursor.peek_eq_some.mpr ⟨rest, hrest⟩
    by_cases hbyte : marker byte = true
    · have hfirst : consumeIf limits origin marker c bytes = .ok (c.skip 1, bytes ++ [byte]) := by
        rw [consumeIf, hpeek]
        simp only
        rw [if_pos hbyte, consumeNumberByte_eq h hrest (hmarker byte hbyte)]
      have hskip : (c.skip 1).rest = rest := by simp [hrest]
      have henough : Enough limits origin (c.skip 1) (bytes ++ [byte]) :=
        h.skip [byte] (by simp [hrest])
      obtain ⟨sign, hsign, htake⟩ := consumeIf_sign henough
      rw [hskip] at hsign
      have henough' := henough.skip sign
        (by rw [hskip, hsign, List.length_append]; omega)
      have hskip' : ((c.skip 1).skip sign.length).rest = (splitSign rest).2 := by
        rw [Cursor.skip_rest, hskip]
        conv_lhs => rw [hsign]
        exact List.drop_left
      have hdigits := consumeWhile_eq (p := isAsciiDigit) (fun _ => not_isLineBreak_of_digit)
        henough' (le_refl _)
      rw [hskip'] at hdigits
      have hafter : (((c.skip 1).skip sign.length).skip
          ((splitSign rest).2.takeWhile isAsciiDigit).length).rest
          = (splitSign rest).2.dropWhile isAsciiDigit := by
        rw [Cursor.skip_rest, hskip', drop_length_takeWhile]
      simp only [hpeek, Option.any_some, hbyte, if_true, hfirst, htake, ok_bind, hskip', hdigits,
        isExponent, Bool.true_and, Bool.and_eq_true, Bool.not_eq_true', List.isEmpty_eq_false_iff]
      generalize (splitSign rest).2 = digits at *
      constructor
      · rintro ⟨hok, hend⟩
        split at hok
        · cases hok
        · rename_i hnew
          simp only [pure, Except.pure, Except.ok.injEq, Prod.mk.injEq] at hok
          obtain ⟨rfl, rfl⟩ := hok
          have hall : digits.takeWhile isAsciiDigit = digits := by
            have hsplit := List.takeWhile_append_dropWhile (p := isAsciiDigit) (l := digits)
            rwa [← hafter, hend, List.append_nil] at hsplit
          refine ⟨⟨?_, ?_⟩, ?_, ?_⟩
          · rintro rfl
            simp at hnew
          · exact List.all_eq_true.mpr (List.takeWhile_eq_self_iff.mp hall)
          · rw [hall, Cursor.skip_skip, Cursor.skip_skip, hsign, List.length_cons,
              List.length_append]
            congr 1
            omega
          · rw [hall, hsign]
            simp
      · rintro ⟨⟨hne, hall⟩, rfl, rfl⟩
        have hself : digits.takeWhile isAsciiDigit = digits :=
          List.takeWhile_eq_self_iff.mpr (List.all_eq_true.mp hall)
        have hpos : 0 < digits.length := List.length_pos_iff.mpr hne
        rw [hself, if_neg (by simp only [List.length_append]; omega)]
        refine ⟨?_, by simp [hrest]⟩
        simp only [pure, Except.pure, Except.ok.injEq, Prod.mk.injEq]
        constructor
        · rw [Cursor.skip_skip, Cursor.skip_skip, hsign, List.length_cons, List.length_append]
          congr 1
          omega
        · rw [hsign]
          simp
    · simp only [hpeek, Option.any_some, if_neg hbyte, isExponent, Bool.and_eq_true, pure,
        Except.pure, Except.ok.injEq, Prod.mk.injEq]
      constructor
      · rintro ⟨⟨rfl, -⟩, hend⟩
        rw [hrest] at hend
        cases hend
      · rintro ⟨⟨⟨hmark, -⟩, -⟩, -⟩
        exact absurd hmark hbyte

/-- A mantissa and an exponent up to the end of the input. -/
theorem consumeBody_iff {digit marker : UInt8 → Bool} (message : String)
    (hdigit : ∀ byte, digit byte = true → isLineBreak byte = false)
    (hmarker : ∀ byte, marker byte = true → isLineBreak byte = false) {c : Cursor}
    {bytes : List UInt8} (h : Enough limits origin c bytes) (c' : Cursor) (bytes' : List UInt8) :
    (∃ c₁ bytes₁, consumeMantissa limits origin digit c bytes = .ok (c₁, bytes₁)
        ∧ consumeExponent limits origin marker message c₁ bytes₁ = .ok (c', bytes')
        ∧ c'.rest = [])
      ↔ isExponent marker (exponentOf digit c.rest) = true ∧ c' = c.skip c.rest.length
        ∧ bytes' = bytes ++ c.rest := by
  have hlen := congrArg List.length (mantissaOf_append_exponentOf digit c.rest)
  rw [List.length_append] at hlen
  have henough := h.skip (mantissaOf digit c.rest) (by omega)
  have hrest : (c.skip (mantissaOf digit c.rest).length).rest = exponentOf digit c.rest :=
    drop_length_mantissaOf digit c.rest
  have hend := consumeExponent_iff message hmarker henough c' bytes'
  rw [hrest, Cursor.skip_skip, hlen, List.append_assoc, mantissaOf_append_exponentOf] at hend
  rw [← hend, consumeMantissa_eq hdigit h]
  constructor
  · rintro ⟨c₁, bytes₁, hmantissa, hexponent, hdone⟩
    cases hmantissa
    exact ⟨hexponent, hdone⟩
  · rintro ⟨hexponent, hdone⟩
    exact ⟨_, _, rfl, hexponent, hdone⟩

end Scan

/-! ### Whole inputs -/

/-- The scanner takes the hexadecimal branch. -/
def startsHex (text : List UInt8) : Bool :=
  text.head? == some 0x30 && (text[1]? == some 0x78 || text[1]? == some 0x58)

/-- The form of a numeral. -/
def isNumeralText (text : List UInt8) : Bool :=
  if startsHex text then isNumeral isAsciiHexdigit isHexExponentMark (text.drop 2)
  else isDecimal text

/-- The main loop hands an input to `scan_number`. -/
def startsNumeral (text : List UInt8) : Bool :=
  text.head?.any isAsciiDigit || (text.head? == some 0x2e && text[1]?.any isAsciiDigit)

theorem not_isLineBreak_of_hexdigit {byte : UInt8} (h : isAsciiHexdigit byte = true) :
    isLineBreak byte = false := by
  obtain ⟨digit, hdigit⟩ := Option.isSome_iff_exists.mp h
  exact not_isLineBreak_of_hexValue hdigit

theorem not_isLineBreak_of_hexMark {byte : UInt8} (h : isHexExponentMark byte = true) :
    isLineBreak byte = false := by
  simp only [isHexExponentMark, Bool.or_eq_true, beq_iff_eq] at h
  obtain rfl | rfl := h <;> decide

theorem not_isLineBreak_of_mark {byte : UInt8} (h : isExponentMark byte = true) :
    isLineBreak byte = false := by
  simp only [isExponentMark, Bool.or_eq_true, beq_iff_eq] at h
  obtain rfl | rfl := h <;> decide

/-- Where the main loop sees a numeral, the mantissa has a digit. -/
theorem any_mantissaOf {text : List UInt8} (h : startsNumeral text = true) :
    (mantissaOf isAsciiDigit text).any isAsciiDigit = true := by
  obtain _ | ⟨first, rest⟩ := text
  · cases h
  · by_cases hfirst : isAsciiDigit first = true
    · have hwhole : ((first :: rest).takeWhile isAsciiDigit).any isAsciiDigit = true := by
        simp [hfirst]
      unfold mantissaOf
      split
      · exact hwhole
      · split
        · rw [List.any_append, hwhole, Bool.true_or]
        · exact hwhole
    · simp only [startsNumeral, List.head?_cons, Option.any_some, hfirst, Bool.false_or,
        Bool.and_eq_true, beq_iff_eq, Option.some.injEq] at h
      obtain ⟨rfl, hsecond⟩ := h
      obtain _ | ⟨second, rest⟩ := rest
      · cases hsecond
      · have hsecond : isAsciiDigit second = true := by simpa using hsecond
        have hpoint : second ≠ 0x2e := by
          rintro rfl
          exact absurd hsecond (by decide)
        simp [mantissaOf, hfirst, hpoint, hsecond]

/-- Conversely a decimal numeral is seen by the main loop. -/
theorem startsNumeral_of_isDecimal {text : List UInt8} (h : isDecimal text = true) :
    startsNumeral text = true := by
  obtain ⟨hany, -⟩ := (isNumeral_iff (by decide) (by decide) text).mp h
  obtain _ | ⟨first, rest⟩ := text
  · cases hany
  · by_cases hfirst : isAsciiDigit first = true
    · simp [startsNumeral, hfirst]
    · simp only [mantissaOf, List.dropWhile_cons, hfirst, Bool.false_eq_true, if_false,
        List.takeWhile_cons, List.nil_append] at hany
      split at hany
      · rename_i hpoint
        obtain ⟨rfl, -⟩ := hpoint
        obtain _ | ⟨second, rest⟩ := rest
        · exact absurd hany (by decide)
        · by_cases hsecond : isAsciiDigit second = true
          · simp [startsNumeral, hsecond]
          · have hpoint : isAsciiDigit 0x2e = false := by decide
            simp [hsecond, hpoint] at hany
      · cases hany

section Whole

variable {limits : CompileLimits} {origin : Origin}

/-- The hexadecimal branch, on an input with the body `body`. -/
theorem consumeHex_iff {c c' : Cursor} {bytes' body : List UInt8} {x : UInt8}
    (h : Enough limits origin c []) (hrest : c.rest = 0x30 :: x :: body)
    (hx : x = 0x78 ∨ x = 0x58) :
    (consumeHex limits origin c [] = .ok (c', bytes') ∧ c'.rest = [])
      ↔ isNumeral isAsciiHexdigit isHexExponentMark body = true ∧ c' = c.skip c.rest.length
        ∧ bytes' = c.rest := by
  have hbreak : isLineBreak x = false := by
    obtain rfl | rfl := hx <;> decide
  have hpeek : c.peek = some 0x30 := Cursor.peek_eq_some.mpr ⟨_, hrest⟩
  have hrest₁ : (c.skip 1).rest = x :: body := by simp [hrest]
  have hpeek₁ : (c.skip 1).peek = some x := Cursor.peek_eq_some.mpr ⟨_, hrest₁⟩
  have hrest₂ : (c.skip 2).rest = body := by simp [hrest]
  have henough₁ : Enough limits origin (c.skip 1) [0x30] :=
    h.skip [0x30] (by simp [hrest])
  have henough₂ : Enough limits origin (c.skip 2) [0x30, x] :=
    h.skip [0x30, x] (by simp [hrest])
  have hzero : consumeIf limits origin (fun _ => true) c [] = .ok (c.skip 1, [0x30]) := by
    rw [consumeIf, hpeek]
    exact consumeNumberByte_eq h hrest (by decide)
  have hmark : consumeIf limits origin (fun _ => true) (c.skip 1) [0x30]
      = .ok (c.skip 2, [0x30, x]) := by
    rw [consumeIf, hpeek₁, show c.skip 2 = (c.skip 1).skip 1 from (c.skip_skip 1 1).symm]
    exact consumeNumberByte_eq henough₁ hrest₁ hbreak
  have hmantissa := consumeMantissa_eq (fun _ => not_isLineBreak_of_hexdigit) henough₂
  have hbody := consumeBody_iff "十六進位 exponent 不合法" (fun _ => not_isLineBreak_of_hexdigit)
    (fun _ => not_isLineBreak_of_hexMark) henough₂ c' bytes'
  rw [hrest₂] at hmantissa hbody
  have hcount : ([0x30, x] ++ mantissaOf isAsciiHexdigit body).drop 2
      = mantissaOf isAsciiHexdigit body := rfl
  rw [isNumeral_iff (by decide) (by decide), hrest]
  simp only [consumeHex, hzero, hmark, hmantissa, ok_bind, hcount]
  by_cases hany : (mantissaOf isAsciiHexdigit body).any isAsciiHexdigit = true
  · have hpos : ¬ (mantissaOf isAsciiHexdigit body).countP isAsciiHexdigit = 0 := by
      obtain ⟨byte, hmem, hbyte⟩ := List.any_eq_true.mp hany
      exact fun hnone => List.countP_eq_zero.mp hnone byte hmem hbyte
    have hskip : (c.skip 2).skip body.length = c.skip (0x30 :: x :: body).length := by
      rw [Cursor.skip_skip, List.length_cons, List.length_cons]
      congr 1
      omega
    rw [hskip, hmantissa] at hbody
    rw [if_neg hpos]
    constructor
    · rintro ⟨hexponent, hdone⟩
      obtain ⟨hform, hc, hbytes⟩ := hbody.mp ⟨_, _, rfl, hexponent, hdone⟩
      exact ⟨⟨hany, hform⟩, hc, hbytes⟩
    · rintro ⟨⟨-, hform⟩, hc, hbytes⟩
      obtain ⟨c₁, bytes₁, hok, hexponent, hdone⟩ := hbody.mpr ⟨hform, hc, hbytes⟩
      cases hok
      exact ⟨hexponent, hdone⟩
  · have hnone : (mantissaOf isAsciiHexdigit body).countP isAsciiHexdigit = 0 := by
      rw [List.countP_eq_zero]
      intro byte hmem hbyte
      exact hany (List.any_eq_true.mpr ⟨byte, hmem, hbyte⟩)
    rw [if_pos hnone]
    constructor
    · rintro ⟨herror, -⟩
      cases herror
    · rintro ⟨⟨hsome, -⟩, -⟩
      exact absurd hsome hany

/-- The bytes of a numeral are the whole input exactly when the input has the form of one. -/
theorem consumeNumeral_iff {c c' : Cursor} {bytes' : List UInt8} (h : Enough limits origin c [])
    (hstart : startsNumeral c.rest = true) :
    (consumeNumeral limits origin c = .ok (c', bytes') ∧ c'.rest = [])
      ↔ isNumeralText c.rest = true ∧ c' = c.skip c.rest.length ∧ bytes' = c.rest := by
  have hbranch : (c.peek = some 0x30 ∧ (c.peekN 1 = some 0x78 ∨ c.peekN 1 = some 0x58))
      ↔ startsHex c.rest = true := by
    simp [startsHex, Cursor.peek, Cursor.peekN]
  by_cases hhex : startsHex c.rest = true
  · obtain ⟨hzero, hx⟩ := hbranch.mpr hhex
    obtain ⟨rest, hrest⟩ := Cursor.peek_eq_some.mp hzero
    obtain ⟨x, body, rfl, hx⟩ : ∃ x body, rest = x :: body ∧ (x = 0x78 ∨ x = 0x58) := by
      obtain _ | ⟨x, body⟩ := rest
      · simp [Cursor.peekN, hrest] at hx
      · exact ⟨x, body, rfl, by simpa [Cursor.peekN, hrest] using hx⟩
    rw [consumeNumeral, if_pos (hbranch.mpr hhex), isNumeralText, if_pos hhex,
      consumeHex_iff h hrest hx, hrest]
    rfl
  · have hform : isNumeralText c.rest = true
        ↔ isExponent isExponentMark (exponentOf isAsciiDigit c.rest) = true := by
      rw [isNumeralText, if_neg hhex]
      exact (isNumeral_iff (by decide) (by decide) c.rest).trans
        (and_iff_right (any_mantissaOf hstart))
    rw [consumeNumeral, if_neg (mt hbranch.mp hhex), hform]
    have hbody := consumeBody_iff "decimal exponent 不合法" (fun _ => not_isLineBreak_of_digit)
      (fun _ => not_isLineBreak_of_mark) h c' bytes'
    rw [List.nil_append] at hbody
    rw [← hbody]
    simp only [consumeDecimal, bind_eq_ok]
    constructor
    · rintro ⟨⟨⟨c₁, bytes₁⟩, hmantissa, hexponent⟩, hdone⟩
      exact ⟨c₁, bytes₁, hmantissa, hexponent, hdone⟩
    · rintro ⟨c₁, bytes₁, hmantissa, hexponent, hdone⟩
      exact ⟨⟨(c₁, bytes₁), hmantissa, hexponent⟩, hdone⟩

/-- The kind of the token of a number. -/
def numberKind : Number → TokenKind
  | .integer _ => .integer
  | .float _ => .float

/-- What the token of a number carries. -/
def numberLiteral : Number → Literal
  | .integer value => .integer (.integer value)
  | .float value => .float (.float value)

/-- `scan_number` on an input that is a numeral as a whole. -/
theorem scanNumber_iff {fl : FloatArith} {c c' : Cursor} {tokens tokens' : List Token}
    (h : Enough limits c.origin c []) (hstart : startsNumeral c.rest = true) :
    (scanNumber limits fl c tokens = .ok (c', tokens') ∧ c'.rest = [])
      ↔ ∃ n, isNumeralText c.rest = true ∧ parseNumber fl c.rest = .ok n
        ∧ c' = c.skip c.rest.length ∧ tokens.length < limits.maxTokens
        ∧ tokens' = tokens ++ [tokenAt c.origin c' (numberKind n) (some (numberLiteral n))] := by
  simp only [scanNumber, bind_eq_ok]
  constructor
  · rintro ⟨⟨⟨c₁, bytes⟩, hbytes, hrun⟩, hdone⟩
    have hsame : c' = c₁ := by
      split at hrun
      · simp only [bind_eq_ok, lexError] at hrun
        obtain ⟨_, -, hrun⟩ := hrun
        cases hrun
      · split at hrun
        · cases hrun
        · exact (emit_eq_ok_iff.mp hrun).1
        · exact (emit_eq_ok_iff.mp hrun).1
    subst hsame
    obtain ⟨hform, hc, rfl⟩ := (consumeNumeral_iff h hstart).mp ⟨hbytes, hdone⟩
    have hpeek : c'.peek.any isNameStart = false := by simp [Cursor.peek, hdone]
    simp only [hpeek, Bool.false_eq_true, if_false] at hrun
    split at hrun
    · cases hrun
    · rename_i value hvalue
      obtain ⟨-, htokens, hroom⟩ := emit_eq_ok_iff.mp hrun
      exact ⟨.integer value, hform, hvalue, hc, hroom, htokens⟩
    · rename_i value hvalue
      obtain ⟨-, htokens, hroom⟩ := emit_eq_ok_iff.mp hrun
      exact ⟨.float value, hform, hvalue, hc, hroom, htokens⟩
  · rintro ⟨n, hform, hvalue, rfl, hroom, rfl⟩
    obtain ⟨hbytes, hdone⟩ := (consumeNumeral_iff h hstart).mpr ⟨hform, rfl, rfl⟩
    have hpeek : (c.skip c.rest.length).peek.any isNameStart = false := by
      simp [Cursor.peek]
    refine ⟨⟨_, hbytes, ?_⟩, hdone⟩
    simp only [hpeek, Bool.false_eq_true, if_false, hvalue]
    cases n with
    | integer value => exact emit_eq_ok_iff.mpr ⟨rfl, rfl, hroom⟩
    | float value => exact emit_eq_ok_iff.mpr ⟨rfl, rfl, hroom⟩

/-- The lexer accepts the input as exactly one numeral, with the given number. -/
def LexesAs (limits : CompileLimits) (fl : FloatArith) (profile : LuaProfile) (text : List UInt8)
    (n : Number) : Prop :=
  ∃ token stop, lex limits fl text profile = .ok ⟨profile, text.length, [token, stop]⟩
    ∧ token.span = ⟨0, text.length⟩ ∧ token.kind = numberKind n
    ∧ token.literal = some (numberLiteral n) ∧ stop.kind = .eof

/-- The limits of the lexer leave room for a text that is one token. -/
structure RoomFor (limits : CompileLimits) (text : List UInt8) : Prop where
  source : text.length ≤ limits.maxSourceBytes
  token : text.length ≤ limits.maxTokenBytes
  tokens : 2 ≤ limits.maxTokens

theorem startsNumeral_of_isNumeralText {text : List UInt8} (h : isNumeralText text = true) :
    startsNumeral text = true := by
  unfold isNumeralText at h
  split at h
  · rename_i hhex
    simp only [startsHex, Bool.and_eq_true, beq_iff_eq] at hhex
    have hzero : isAsciiDigit 0x30 = true := by decide
    simp [startsNumeral, hhex.1, hzero]
  · exact startsNumeral_of_isDecimal h

/-- The main loop hands over to `scan_number`. -/
theorem scanElement_startsNumeral {fl : FloatArith} {c : Cursor} {byte : UInt8} {tail : List UInt8}
    {tokens : List Token} (hrest : c.rest = byte :: tail) (h : startsNumeral c.rest = true) :
    scanElement limits fl byte c tokens = scanNumber limits fl c tokens := by
  rw [hrest] at h
  have hnumber : isAsciiDigit byte = true ∨ (byte = 0x2e ∧ (c.peekN 1).any isAsciiDigit = true) := by
    simpa [startsNumeral, Cursor.peekN, hrest] using h
  have hclass : isSpace byte = false ∧ byte ≠ 0x5b ∧ isNameStart byte = false := by
    obtain hdigit | ⟨rfl, -⟩ := hnumber
    · exact forall_byte (p := fun byte => isAsciiDigit byte = true →
        isSpace byte = false ∧ byte ≠ 0x5b ∧ isNameStart byte = false) (by decide +kernel) byte hdigit
    · decide
  unfold scanElement
  rw [if_neg (by simp [hclass.1]), if_neg hclass.2.1, if_neg (by simp [hclass.2.2]), if_pos hnumber]

theorem numberLiteral_injective {m n : Number} (h : numberLiteral m = numberLiteral n) : m = n := by
  cases m <;> cases n <;> simp_all [numberLiteral]

theorem isNumeric_numberKind (n : Number) : isNumeric (numberKind n) = true := by
  cases n <;> rfl

/-- **An input is one numeral** exactly when it has the form of a numeral and its value can be
    computed. -/
theorem lexesAs_iff {fl : FloatArith} {profile : LuaProfile} {text : List UInt8} {n : Number}
    (hroom : RoomFor limits text) :
    LexesAs limits fl profile text n
      ↔ isNumeralText text = true ∧ parseNumber fl text = .ok n := by
  obtain ⟨hsource, htoken, htokens⟩ := hroom
  have henough : Enough limits (Cursor.new text profile).origin (Cursor.new text profile) [] :=
    ⟨by simpa [Cursor.new, Cursor.origin] using htoken, by simpa [Cursor.new] using htoken⟩
  constructor
  · rintro ⟨token, stop, hlex, hspan, hkind, hliteral, -⟩
    rw [lex, if_neg (by omega)] at hlex
    simp only [scan, bind_eq_ok, pure, Except.pure, Except.ok.injEq, LexedChunk.mk.injEq] at hlex
    obtain ⟨⟨c₁, found⟩, hscan, ⟨c₂, all⟩, hstop, -, -, hfound⟩ := hlex
    obtain ⟨-, rfl, -⟩ := emit_eq_ok_iff.mp hstop
    obtain rfl : found = [token] := by
      simpa using congrArg List.dropLast hfound
    obtain _ | ⟨byte, tail⟩ := text
    · cases hscan
    · rw [show (Cursor.new (byte :: tail) profile).rest.length = tail.length + 1 from rfl,
        scanElements.eq_2] at hscan
      simp only [Cursor.new, Cursor.peek, List.head?_cons, bind_eq_ok] at hscan
      obtain ⟨⟨c₃, first⟩, helement, hrest⟩ := hscan
      obtain ⟨-, later, hlater, hbehind⟩ := scanElements_tokens hrest
      obtain ⟨-, hmove, rfl⟩ | ⟨-, kind, literal, hplain, rfl⟩ | ⟨hstart, hnumber⟩ :=
        scanElement_cases (by simp) helement
      · -- nothing found yet: the token would start behind the first byte
        obtain rfl : later = [token] := by simpa using hlater.symm
        have hlow : c₃.offset ≤ token.span.startByte := hbehind token (by simp)
        rw [hspan] at hlow
        exact absurd hlow (Nat.not_le.mpr hmove)
      · -- a token of another kind
        simp only [List.nil_append, List.singleton_append, List.cons.injEq] at hlater
        rw [hlater.1] at hkind
        have := isNumeric_numberKind n
        rw [← hkind] at this
        exact absurd this (by simp [tokenAt, hplain])
      · -- the numeral itself, which ends where its span does
        have hbegins : startsNumeral (Cursor.new (byte :: tail) profile).rest = true := by
          simpa [startsNumeral, Cursor.new, Cursor.peekN] using hstart
        obtain ⟨hmove, kind, literal, rfl⟩ := scanNumber_moves hnumber
        simp only [List.nil_append, List.singleton_append, List.cons.injEq] at hlater
        have hdone : c₃.rest = [] := by
          have hend : c₃.offset = (byte :: tail).length := by
            rw [hlater.1] at hspan
            exact congrArg Span.endByte hspan
          have htotal := hmove.total
          rw [hend] at htotal
          refine List.length_eq_zero_iff.mp ?_
          simp only at htotal
          omega
        obtain ⟨m, hform, hvalue, -, -, htoken⟩ := (scanNumber_iff henough hbegins).mp ⟨hnumber, hdone⟩
        simp only [List.nil_append, List.cons.injEq, and_true] at htoken
        rw [hlater.1, htoken] at hliteral
        have hsame : m = n := by
          refine numberLiteral_injective ?_
          simpa [tokenAt] using hliteral
        exact ⟨hform, hsame ▸ hvalue⟩
  · rintro ⟨hform, hvalue⟩
    have hstart := startsNumeral_of_isNumeralText hform
    obtain _ | ⟨byte, tail⟩ := text
    · cases hstart
    · let c := Cursor.new (byte :: tail) profile
      let token := tokenAt c.origin (c.skip c.rest.length) (numberKind n) (some (numberLiteral n))
      obtain ⟨hnumber, hdone⟩ : scanNumber limits fl c [] = .ok (c.skip c.rest.length, [token])
          ∧ (c.skip c.rest.length).rest = [] :=
        (scanNumber_iff henough hstart).mpr ⟨n, hform, hvalue, rfl, by simp; omega, rfl⟩
      have helement : scanElement limits fl byte c [] = .ok (c.skip c.rest.length, [token]) :=
        (scanElement_startsNumeral rfl hstart).trans hnumber
      have hoffset : (c.skip c.rest.length).offset = (byte :: tail).length := by
        simp [c, Cursor.new]
      refine ⟨token, tokenAt (c.skip c.rest.length).origin (c.skip c.rest.length) .eof none, ?_, ?_,
        rfl, rfl, rfl⟩
      · rw [lex_of_scanElement hsource htokens helement hdone, hoffset]
        rfl
      · simp only [token, tokenAt, hoffset]
        rfl

end Whole

end RivetLua.Compiler.Lexer
