import RivetLua.Stdlib.Numeral
import RivetLua.Compiler.NumeralScan

namespace RivetLua.Stdlib.Basic

open RivetLua.Core RivetLua.Compiler RivetLua.Compiler.Lexer Check

/-!
# Stdlib — numerals in the source and in `tonumber`

The lexer and `tonumber` read numerals with separate code.  Both are computed on the parts of a
numeral — digits, point, digits, exponent — and then compared.

* `Parts` — a numeral taken apart;
* `parseNumber_hex`, `luaHexNumber_hex` — the two readers on a hexadecimal numeral;
* `NumeralsAgree`, `numeralsAgree_iff` — where they agree.
-/

/-! ### The parts of a numeral -/

/-- A numeral over the given digits, taken apart. -/
structure Parts (digit marker : UInt8 → Bool) (text : List UInt8) where
  whole : List UInt8
  point : Bool
  fraction : List UInt8
  exponent : List UInt8
  text_eq : text = whole ++ ((if point then 0x2e :: fraction else []) ++ exponent)
  whole_digits : ∀ byte ∈ whole, digit byte = true
  fraction_digits : ∀ byte ∈ fraction, digit byte = true
  fraction_nil : point = false → fraction = []
  some_digit : whole ≠ [] ∨ fraction ≠ []
  is_exponent : isExponent marker exponent = true

section Parts

variable {digit marker : UInt8 → Bool}

/-- Every numeral has its parts. -/
theorem exists_parts {text : List UInt8} (h : isNumeral digit marker text = true) :
    Nonempty (Parts digit marker text) := by
  have hsplit := List.takeWhile_append_dropWhile (p := digit) (l := text)
  have hwhole : ∀ byte ∈ text.takeWhile digit, digit byte = true :=
    fun _ hbyte => List.mem_takeWhile_imp hbyte
  unfold isNumeral at h
  cases hrest : text.dropWhile digit with
  | nil =>
    rw [hrest, List.append_nil] at hsplit
    simp only [hrest] at h
    exact ⟨{ whole := text.takeWhile digit, point := false, fraction := [], exponent := []
             text_eq := by simp [hsplit], whole_digits := hwhole, fraction_digits := by simp
             fraction_nil := fun _ => rfl, some_digit := .inl (by simpa using h)
             is_exponent := rfl }⟩
  | cons byte rest =>
    rw [hrest] at hsplit
    simp only [hrest] at h
    split at h
    · rename_i hpoint
      subst hpoint
      simp only [Bool.and_eq_true, Bool.not_eq_true', Bool.and_eq_false_iff,
        List.isEmpty_eq_false_iff] at h
      exact ⟨{ whole := text.takeWhile digit, point := true, fraction := rest.takeWhile digit
               exponent := rest.dropWhile digit
               text_eq := by
                rw [if_pos rfl, List.cons_append, List.takeWhile_append_dropWhile, hsplit]
               whole_digits := hwhole
               fraction_digits := fun _ hbyte => List.mem_takeWhile_imp hbyte
               fraction_nil := fun h => by cases h
               some_digit := h.1, is_exponent := h.2 }⟩
    · simp only [Bool.and_eq_true, Bool.not_eq_true', List.isEmpty_eq_false_iff] at h
      exact ⟨{ whole := text.takeWhile digit, point := false, fraction := []
               exponent := byte :: rest, text_eq := by simp [hsplit], whole_digits := hwhole
               fraction_digits := by simp, fraction_nil := fun _ => rfl, some_digit := .inl h.1
               is_exponent := h.2 }⟩

/-- A digit, the marker and a sign are what a numeral may contain besides its point. -/
theorem Parts.bytes {text : List UInt8} (parts : Parts digit marker text) {byte : UInt8}
    (hbyte : byte ∈ text) :
    digit byte = true ∨ marker byte = true ∨ isAsciiDigit byte = true ∨ byte = 0x2e
      ∨ byte = 0x2b ∨ byte = 0x2d := by
  rw [parts.text_eq, List.mem_append, List.mem_append] at hbyte
  rcases hbyte with hbyte | hbyte | hbyte
  · exact .inl (parts.whole_digits byte hbyte)
  · split at hbyte
    · rcases List.mem_cons.mp hbyte with rfl | hbyte
      · exact .inr (.inr (.inr (.inl rfl)))
      · exact .inl (parts.fraction_digits byte hbyte)
    · cases hbyte
  · have hexponent := parts.is_exponent
    generalize parts.exponent = exponent at hbyte hexponent
    cases exponent with
    | nil => cases hbyte
    | cons mark rest =>
      simp only [isExponent, Bool.and_eq_true] at hexponent
      rcases List.mem_cons.mp hbyte with rfl | hbyte
      · exact .inr (.inl hexponent.1.1)
      · have hdigits := List.all_eq_true.mp hexponent.2
        cases rest with
        | nil => cases hbyte
        | cons sign rest =>
          by_cases hminus : sign = 0x2d
          · subst hminus
            rcases List.mem_cons.mp hbyte with rfl | hbyte
            · simp
            · exact .inr (.inr (.inl (hdigits byte hbyte)))
          · by_cases hplus : sign = 0x2b
            · subst hplus
              rcases List.mem_cons.mp hbyte with rfl | hbyte
              · simp
              · exact .inr (.inr (.inl (hdigits byte hbyte)))
            · have hsplit : (splitSign (sign :: rest)).2 = sign :: rest := by
                simp [splitSign, hminus, hplus]
              rw [hsplit] at hdigits
              exact .inr (.inr (.inl (hdigits byte hbyte)))

end Parts

/-! ### Texts that need no trimming -/

/-- An ASCII byte that is no whitespace. -/
def isPlain (byte : UInt8) : Bool := byte < 0x80 && !isAsciiWhitespace byte

theorem trimWhitespace_eq {text : List UInt8} (h : ∀ byte ∈ text, isAsciiWhitespace byte = false) :
    trimWhitespace text = text := by
  have hfront : text.dropWhile isAsciiWhitespace = text := by
    cases text with
    | nil => rfl
    | cons byte rest => simp [h byte (by simp)]
  have hback : text.reverse.dropWhile isAsciiWhitespace = text.reverse := by
    cases hrev : text.reverse with
    | nil => rfl
    | cons byte rest =>
      have hmem : byte ∈ text := List.mem_reverse.mp (by rw [hrev]; simp)
      simp [h byte hmem]
  rw [trimWhitespace, hfront, hback, List.reverse_reverse]

/-- The bytes of numerals are plain. -/
theorem isPlain_of_decimal {text : List UInt8} (h : isDecimal text = true) :
    ∀ byte ∈ text, isPlain byte = true := by
  intro byte hbyte
  obtain ⟨parts⟩ := exists_parts h
  have hclass := parts.bytes hbyte
  revert hclass
  exact forall_byte (p := fun byte => (isAsciiDigit byte = true ∨ isExponentMark byte = true
      ∨ isAsciiDigit byte = true ∨ byte = 0x2e ∨ byte = 0x2b ∨ byte = 0x2d) →
    isPlain byte = true) (by decide +kernel) byte

theorem Parts.isPlain_of_hex {body : List UInt8}
    (parts : Parts isAsciiHexdigit isHexExponentMark body) :
    ∀ byte ∈ body, isPlain byte = true := by
  intro byte hbyte
  have hclass := parts.bytes hbyte
  revert hclass
  exact forall_byte (p := fun byte => (isAsciiHexdigit byte = true ∨ isHexExponentMark byte = true
      ∨ isAsciiDigit byte = true ∨ byte = 0x2e ∨ byte = 0x2b ∨ byte = 0x2d) →
    isPlain byte = true) (by decide +kernel) byte

theorem eq_of_fromUtf8 {bytes text : List UInt8} (h : fromUtf8 bytes = some text) :
    text = bytes := by
  unfold fromUtf8 at h
  split at h
  · exact (Option.some.inj h).symm
  · cases h

/-- Plain texts are read as they are. -/
theorem parseNumberBytes_of_plain (fl : FloatArith) {text : List UInt8}
    (h : ∀ byte ∈ text, isPlain byte = true) : parseNumberBytes fl text = numberOfText fl text := by
  have hsplit : ∀ byte ∈ text, byte < 0x80 ∧ isAsciiWhitespace byte = false := by
    intro byte hbyte
    simpa [isPlain] using h byte hbyte
  simp only [parseNumberBytes, fromUtf8_of_ascii fun byte hbyte => (hsplit byte hbyte).1,
    Option.bind_eq_bind, Option.bind_some, trimWhitespace_eq fun byte hbyte => (hsplit byte hbyte).2]

/-- A text without whitespace that is read is read as it is. -/
theorem numberOfText_of_parseNumberBytes {fl : FloatArith} {text : List UInt8} {n : Number}
    (hspace : ∀ byte ∈ text, isAsciiWhitespace byte = false)
    (h : parseNumberBytes fl text = some n) : numberOfText fl text = some n := by
  simp only [parseNumberBytes, Option.bind_eq_bind, Option.bind_eq_some_iff] at h
  obtain ⟨found, hfound, h⟩ := h
  rwa [eq_of_fromUtf8 hfound, trimWhitespace_eq hspace] at h

/-! ### Hexadecimal digits -/

section Hex

variable (fl : FloatArith)

/-- Digits as an integer, modulo `2^64`. -/
def hexWrap (value : UInt64) (digits : List UInt8) : UInt64 :=
  digits.foldl (fun value digit => value * 16 + UInt64.ofNat ((hexValue digit).getD 0)) value

/-- Digits as part of a float. -/
def stepDigits (state : FloatArith.HexState) (digits : List UInt8) : FloatArith.HexState :=
  digits.foldl (fun state digit => fl.hexStep state ((hexValue digit).getD 0)) state

/-- Digits in `lua_hex_number`. -/
def pushDigits (run : HexRun) (digits : List UInt8) : HexRun :=
  ⟨hexWrap run.integer digits, stepDigits fl run.state digits, run.digits + digits.length⟩

theorem hexStep_fractional (state : FloatArith.HexState) (digit : Nat) :
    (fl.hexStep state digit).fractional = state.fractional := by
  unfold FloatArith.hexStep
  split <;> rfl

theorem stepDigits_fractional (state : FloatArith.HexState) (digits : List UInt8) :
    (stepDigits fl state digits).fractional = state.fractional := by
  induction digits generalizing state with
  | nil => rfl
  | cons digit digits ih =>
    show (stepDigits fl (fl.hexStep state _) digits).fractional = _
    rw [ih, hexStep_fractional]

variable {fl}

theorem hexLoop_digits {digits : List UInt8} (h : ∀ byte ∈ digits, isAsciiHexdigit byte = true)
    (rest : List UInt8) (run : HexRun) :
    hexLoop fl (digits ++ rest) run = hexLoop fl rest (pushDigits fl run digits) := by
  induction digits generalizing run with
  | nil => rfl
  | cons byte digits ih =>
    obtain ⟨digit, hdigit⟩ := Option.isSome_iff_exists.mp (h byte (by simp))
    have hpoint : ¬ (byte = 0x2e ∧ run.state.fractional = false) := by
      rintro ⟨rfl, -⟩
      cases hdigit
    rw [List.cons_append, hexLoop, if_neg hpoint, hdigit]
    simp only
    rw [ih fun b hb => h b (List.mem_cons_of_mem _ hb)]
    simp [pushDigits, hexWrap, stepDigits, HexRun.push, hdigit, Nat.add_comm, Nat.add_left_comm]

/-- The loop stops in front of a byte that is no digit and no first point. -/
theorem hexLoop_stop {rest : List UInt8} {run : HexRun}
    (h : ∀ byte ∈ rest.head?, hexValue byte = none
      ∧ ¬ (byte = 0x2e ∧ run.state.fractional = false)) :
    hexLoop fl rest run = (run, rest) := by
  cases rest with
  | nil => rfl
  | cons byte rest =>
    obtain ⟨hdigit, hpoint⟩ := h byte (by simp)
    rw [hexLoop, if_neg hpoint, hdigit]

theorem hexMantissa_digits {digits : List UInt8} (h : ∀ byte ∈ digits, isAsciiHexdigit byte = true)
    (rest : List UInt8) (state : FloatArith.HexState) :
    hexMantissa fl (digits ++ rest) state = hexMantissa fl rest (stepDigits fl state digits) := by
  induction digits generalizing state with
  | nil => rfl
  | cons byte digits ih =>
    obtain ⟨digit, hdigit⟩ := Option.isSome_iff_exists.mp (h byte (by simp))
    have hpoint : byte ≠ 0x2e := by
      rintro rfl
      cases hdigit
    rw [List.cons_append, hexMantissa, if_neg hpoint, hdigit]
    simp only
    rw [ih fun b hb => h b (List.mem_cons_of_mem _ hb)]
    simp [stepDigits, hdigit]

theorem hexInteger_digits {digits : List UInt8} (h : ∀ byte ∈ digits, isAsciiHexdigit byte = true)
    (value : UInt64) : hexInteger digits value = .ok (hexWrap value digits) := by
  induction digits generalizing value with
  | nil => rfl
  | cons byte digits ih =>
    obtain ⟨digit, hdigit⟩ := Option.isSome_iff_exists.mp (h byte (by simp))
    rw [hexInteger, hdigit]
    simp only
    rw [ih fun b hb => h b (List.mem_cons_of_mem _ hb)]
    simp [hexWrap, hdigit]

/-! ### The two readers on the parts of a hexadecimal numeral -/

/-- A hexadecimal numeral behind its `0x`, taken apart. -/
abbrev HexParts (body : List UInt8) := Parts isAsciiHexdigit isHexExponentMark body

variable {body : List UInt8} (parts : HexParts body)

/-- The digits as a float, before the exponent is applied. -/
def Parts.mantissa (fl : FloatArith) (parts : HexParts body) : FloatArith.HexState :=
  let state := stepDigits fl fl.hexStart parts.whole
  if parts.point then stepDigits fl { state with fractional := true } parts.fraction else state

/-- The value of the exponent, if it is one of the machine's. -/
def Parts.power (parts : HexParts body) : Option Int :=
  match parts.exponent with
  | [] => some 0
  | _ :: exponent => parseI32 exponent

/-- The numeral is an integer: neither point nor exponent. -/
def Parts.isInteger (parts : HexParts body) : Prop := parts.point = false ∧ parts.exponent = []

instance : Decidable parts.isInteger := inferInstanceAs (Decidable (_ ∧ _))

/-- The marker stops both loops. -/
theorem exponent_head {exponent : List UInt8} (h : isExponent isHexExponentMark exponent = true) :
    ∀ byte ∈ exponent.head?, isHexExponentMark byte = true ∧ hexValue byte = none
      ∧ byte ≠ 0x2e := by
  intro byte hbyte
  obtain ⟨rest, rfl⟩ := List.head?_eq_some_iff.mp hbyte
  simp only [isExponent, Bool.and_eq_true] at h
  refine ⟨h.1.1, ?_⟩
  have hmark := h.1.1
  simp only [isHexExponentMark, Bool.or_eq_true, beq_iff_eq] at hmark
  obtain rfl | rfl := hmark <;> decide

theorem hexLoop_parts :
    hexLoop fl body (.start fl)
      = (⟨hexWrap (hexWrap 0 parts.whole) parts.fraction, parts.mantissa fl,
          parts.whole.length + parts.fraction.length⟩, parts.exponent) := by
  have hstop : ∀ run : HexRun, hexLoop fl parts.exponent run = (run, parts.exponent) := by
    intro run
    refine hexLoop_stop fun byte hbyte => ?_
    obtain ⟨-, hdigit, hpoint⟩ := exponent_head parts.is_exponent byte hbyte
    exact ⟨hdigit, fun h => hpoint h.1⟩
  conv_lhs => rw [parts.text_eq]
  rw [hexLoop_digits parts.whole_digits]
  cases hpoint : parts.point with
  | false =>
    have hnil := parts.fraction_nil hpoint
    simp [hstop, pushDigits, HexRun.start, Parts.mantissa, hpoint, hnil, hexWrap]
  | true =>
    have hfractional : (pushDigits fl (.start fl) parts.whole).state.fractional = false := by
      simp [pushDigits, stepDigits_fractional, HexRun.start, FloatArith.hexStart]
    rw [if_pos rfl, List.cons_append, hexLoop, if_pos ⟨rfl, hfractional⟩,
      hexLoop_digits parts.fraction_digits, hstop]
    simp [pushDigits, HexRun.start, HexRun.point, Parts.mantissa, hpoint]

/-- The float `tonumber` computes: without an exponent nothing is multiplied. -/
def Parts.toFloat (fl : FloatArith) (parts : HexParts body) : Option F64 :=
  if parts.exponent = [] then some (parts.mantissa fl).value
  else parts.power.map fun power => fl.mul (parts.mantissa fl).value (fl.powi power)

/-- `lua_hex_number` on a hexadecimal numeral. -/
theorem luaHexNumber_hex {x : UInt8} (hx : x = 0x78 ∨ x = 0x58) :
    luaHexNumber fl (0x30 :: x :: body)
      = if parts.isInteger ∧ parts.whole.length ≤ 16 then
          some (.integer (hexWrap 0 parts.whole).toInt64)
        else (parts.toFloat fl).map .float := by
  have hsign : splitSign (0x30 :: x :: body) = (false, 0x30 :: x :: body) := rfl
  have hhex : hasHexPrefix (0x30 :: x :: body) = true := by
    obtain rfl | rfl := hx <;> rfl
  have hbody : (0x30 :: x :: body).drop 2 = body := rfl
  have hdigits : ¬ parts.whole.length + parts.fraction.length = 0 := by
    have hsome := parts.some_digit
    rw [← List.length_pos_iff, ← List.length_pos_iff] at hsome
    omega
  have hfractional : (parts.mantissa fl).fractional = parts.point := by
    unfold Parts.mantissa
    cases parts.point <;> simp [stepDigits_fractional, FloatArith.hexStart]
  simp only [luaHexNumber, hsign, hhex, hbody, hexLoop_parts parts, hfractional, hdigits,
    Bool.true_eq_false, if_false]
  by_cases hinteger : parts.isInteger
  · have hnil := parts.fraction_nil hinteger.1
    simp only [Parts.isInteger] at hinteger
    simp only [Parts.isInteger, hinteger, hnil, hexWrap, List.foldl_nil, List.length_nil,
      Nat.add_zero, true_and, and_self, Bool.false_eq_true, if_false, Parts.toFloat, if_true]
    split <;> rfl
  · rw [if_neg (fun h => hinteger ⟨h.1, h.2.1⟩), if_neg (fun h => hinteger h.1)]
    cases hexponent : parts.exponent with
    | nil => simp [Parts.toFloat, hexponent, signed]
    | cons mark exponent =>
      have hmark := (exponent_head parts.is_exponent mark (by simp [hexponent])).1
      have htext : fromUtf8 exponent = some exponent := by
        refine fromUtf8_of_ascii fun byte hbyte => ?_
        have hmem : byte ∈ body := by
          rw [parts.text_eq, hexponent]
          simp [hbyte]
        have := parts.isPlain_of_hex byte hmem
        simp only [isPlain, Bool.and_eq_true, decide_eq_true_eq] at this
        exact this.1
      simp only [hmark, if_true, htext, Parts.toFloat, hexponent, reduceCtorEq, if_false,
        Parts.power, Option.bind_eq_bind, Option.bind_some]
      cases parseI32 exponent <;> rfl

/-- The text in front of the exponent. -/
theorem splitHexExponent_parts :
    splitHexExponent body = match parts.power with
      | none => .error "十六進位 exponent 不合法"
      | some power => .ok (parts.whole ++ if parts.point then 0x2e :: parts.fraction else [], power)
    := by
  have hnomark : ∀ byte ∈ parts.whole ++ (if parts.point then 0x2e :: parts.fraction else []),
      (!isHexExponentMark byte) = true := by
    have hclass : ∀ byte, isAsciiHexdigit byte = true → (!isHexExponentMark byte) = true :=
      forall_byte (p := fun byte => isAsciiHexdigit byte = true → (!isHexExponentMark byte) = true)
        (by decide +kernel)
    intro byte hbyte
    rcases List.mem_append.mp hbyte with hbyte | hbyte
    · exact hclass byte (parts.whole_digits byte hbyte)
    · split at hbyte
      · rcases List.mem_cons.mp hbyte with rfl | hbyte
        · decide
        · exact hclass byte (parts.fraction_digits byte hbyte)
      · cases hbyte
  have htext : body = (parts.whole ++ (if parts.point then 0x2e :: parts.fraction else []))
      ++ parts.exponent := by
    rw [List.append_assoc]
    exact parts.text_eq
  cases hexponent : parts.exponent with
  | nil =>
    rw [hexponent, List.append_nil] at htext
    have hdrop : body.dropWhile (fun byte => !isHexExponentMark byte) = [] := by
      rw [htext]
      exact List.dropWhile_eq_nil_iff.mpr hnomark
    simp only [splitHexExponent, hdrop, Parts.power, hexponent]
    rw [← htext]
  | cons mark exponent =>
    have hmark := (exponent_head parts.is_exponent mark (by simp [hexponent])).1
    rw [hexponent] at htext
    have hdrop : body.dropWhile (fun byte => !isHexExponentMark byte) = mark :: exponent := by
      rw [htext, List.dropWhile_append_of_pos hnomark]
      simp [hmark]
    have htake : body.takeWhile (fun byte => !isHexExponentMark byte)
        = parts.whole ++ (if parts.point then 0x2e :: parts.fraction else []) := by
      conv_lhs => rw [htext]
      rw [List.takeWhile_append_of_pos hnomark]
      simp [hmark]
    -- the two matches on the exponent may be one
    simp only [splitHexExponent, hdrop, htake, Parts.power, hexponent] <;> rfl

theorem hexMantissa_parts :
    hexMantissa fl (parts.whole ++ if parts.point then 0x2e :: parts.fraction else []) fl.hexStart
      = .ok (parts.mantissa fl) := by
  rw [hexMantissa_digits parts.whole_digits]
  cases hpoint : parts.point with
  | false => simp [hexMantissa, Parts.mantissa, hpoint]
  | true =>
    have hfractional : (stepDigits fl fl.hexStart parts.whole).fractional = false := by
      simp [stepDigits_fractional, FloatArith.hexStart]
    have hfraction := @hexMantissa_digits fl _ parts.fraction_digits []
    simp only [List.append_nil] at hfraction
    simp [hexMantissa, hfractional, hfraction, Parts.mantissa, hpoint]

/-- Whether the body has a byte that makes it a float. -/
theorem any_hexFloatMark_iff : body.any isHexFloatMark = false ↔ parts.isInteger := by
  have hdigit : ∀ byte, isAsciiHexdigit byte = true → isHexFloatMark byte = false :=
    forall_byte (p := fun byte => isAsciiHexdigit byte = true → isHexFloatMark byte = false)
      (by decide +kernel)
  constructor
  · intro hnone
    rw [List.any_eq_false] at hnone
    constructor
    · by_contra hpoint
      rw [Bool.not_eq_false] at hpoint
      refine hnone 0x2e ?_ (by decide)
      rw [parts.text_eq, hpoint]
      simp
    · cases hexponent : parts.exponent with
      | nil => rfl
      | cons mark exponent =>
        have hmark := (exponent_head parts.is_exponent mark (by simp [hexponent])).1
        refine absurd ?_ (hnone mark (by rw [parts.text_eq, hexponent]; simp))
        simp only [isHexExponentMark, Bool.or_eq_true, beq_iff_eq] at hmark
        obtain rfl | rfl := hmark <;> decide
  · rintro ⟨hpoint, hexponent⟩
    rw [List.any_eq_false]
    intro byte hbyte
    rw [parts.text_eq, hpoint, hexponent] at hbyte
    simp only [Bool.false_eq_true, if_false, List.append_nil] at hbyte
    rw [hdigit byte (parts.whole_digits byte hbyte)]
    decide

/-- `parse_number` on a hexadecimal numeral. -/
theorem parseNumber_hex {x : UInt8} (hx : x = 0x78 ∨ x = 0x58) (n : Number) :
    parseNumber fl (0x30 :: x :: body) = .ok n
      ↔ (parts.isInteger ∧ n = .integer (hexWrap 0 parts.whole).toInt64)
        ∨ (¬ parts.isInteger ∧ ∃ power, parts.power = some power
          ∧ (fl.mul (parts.mantissa fl).value (fl.powi power)).isFinite = true
          ∧ n = .float (fl.mul (parts.mantissa fl).value (fl.powi power))) := by
  have htext : fromUtf8 (0x30 :: x :: body) = some (0x30 :: x :: body) := by
    refine fromUtf8_of_ascii fun byte hbyte => ?_
    rcases List.mem_cons.mp hbyte with rfl | hbyte
    · decide
    · rcases List.mem_cons.mp hbyte with rfl | hbyte
      · obtain rfl | rfl := hx <;> decide
      · have := parts.isPlain_of_hex byte hbyte
        simp only [isPlain, Bool.and_eq_true, decide_eq_true_eq] at this
        exact this.1
  have hhex : [0x30, 0x78] <+: 0x30 :: x :: body ∨ [0x30, 0x58] <+: 0x30 :: x :: body := by
    obtain rfl | rfl := hx
    · exact .inl ⟨body, rfl⟩
    · exact .inr ⟨body, rfl⟩
  have hbody : (0x30 :: x :: body).drop 2 = body := rfl
  simp only [parseNumber, htext, if_pos hhex, hbody, any_hexFloatMark_iff parts]
  by_cases hinteger : parts.isInteger
  · have hwhole : body = parts.whole := by
      have := parts.text_eq
      rw [hinteger.1, hinteger.2] at this
      simpa using this
    have hvalue : hexInteger body 0 = .ok (hexWrap 0 parts.whole) := by
      conv_lhs => rw [hwhole]
      exact hexInteger_digits parts.whole_digits 0
    simp only [if_pos hinteger, hvalue, ok_bind, pure, Except.pure, Except.ok.injEq]
    constructor
    · rintro rfl
      exact .inl ⟨hinteger, rfl⟩
    · rintro (⟨-, rfl⟩ | ⟨hnot, -⟩)
      · rfl
      · exact absurd hinteger hnot
  · rw [if_neg hinteger, splitHexExponent_parts parts]
    cases hpower : parts.power with
    | none => simp [hinteger]
    | some power =>
      simp only [ok_bind, hexMantissa_parts parts]
      by_cases hfinite : (fl.mul (parts.mantissa fl).value (fl.powi power)).isFinite = true
      · rw [if_pos hfinite]
        simp only [hinteger, hfinite, pure, Except.pure, Except.ok.injEq, Option.some.injEq,
          exists_eq_left', false_and, not_false_eq_true, true_and, false_or]
        exact eq_comm
      · rw [if_neg hfinite]
        simp [hfinite, hinteger]

/-- The digits of an accepted integer text. -/
theorem digits_of_parseInteger {least greatest value : Int} {text : List UInt8}
    (h : parseInteger least greatest text = some value) :
    (splitSign text).2 ≠ [] ∧ (splitSign text).2.all isAsciiDigit = true := by
  unfold parseInteger at h
  simp only at h
  split at h
  · cases h
  · rename_i hdigits
    rw [not_or, Bool.not_eq_false] at hdigits
    exact hdigits

/-- What `lua_hex_number` accepts ends in an exponent and has a digit. -/
theorem hexLoop_of_luaHexNumber {x : UInt8} {n : Number}
    (h : luaHexNumber fl (0x30 :: x :: body) = some n) :
    (hexLoop fl body (.start fl)).1.digits ≠ 0
      ∧ isExponent isHexExponentMark (hexLoop fl body (.start fl)).2 = true := by
  have hsign : splitSign (0x30 :: x :: body) = (false, 0x30 :: x :: body) := rfl
  have hbody : (0x30 :: x :: body).drop 2 = body := rfl
  simp only [luaHexNumber, hsign, hbody] at h
  split at h
  · cases h
  · split at h
    · cases h
    · rename_i hdigits
      refine ⟨hdigits, ?_⟩
      split at h
      · rename_i hinteger
        rw [hinteger.2.1]
        rfl
      · split at h
        · rename_i hnil
          rw [hnil]
          rfl
        · rename_i byte exponent hrest
          rw [hrest]
          split at h
          · rename_i hmark
            simp only [Option.bind_eq_bind, Option.bind_eq_some_iff] at h
            obtain ⟨text, htext, power, hpower, -⟩ := h
            rw [eq_of_fromUtf8 htext] at hpower
            obtain ⟨hsome, hall⟩ := digits_of_parseInteger hpower
            simp [isExponent, hmark, hsome, hall]
          · cases h

theorem isNumeral_of_luaHexNumber {x : UInt8} {n : Number}
    (h : luaHexNumber fl (0x30 :: x :: body) = some n) :
    isNumeral isAsciiHexdigit isHexExponentMark body = true := by
  obtain ⟨hdigits, hexponent⟩ := hexLoop_of_luaHexNumber h
  have hsplit := List.takeWhile_append_dropWhile (p := isAsciiHexdigit) (l := body)
  have hwhole : ∀ byte ∈ body.takeWhile isAsciiHexdigit, isAsciiHexdigit byte = true :=
    fun _ hbyte => List.mem_takeWhile_imp hbyte
  have hloop : hexLoop fl body (.start fl) = hexLoop fl (body.dropWhile isAsciiHexdigit)
      (pushDigits fl (.start fl) (body.takeWhile isAsciiHexdigit)) := by
    conv_lhs => rw [← hsplit]
    exact hexLoop_digits hwhole _ _
  have hfresh : (pushDigits fl (.start fl) (body.takeWhile isAsciiHexdigit)).state.fractional
      = false := by
    simp [pushDigits, stepDigits_fractional, HexRun.start, FloatArith.hexStart]
  rw [hloop] at hdigits hexponent
  unfold isNumeral
  cases hrest : body.dropWhile isAsciiHexdigit with
  | nil =>
    simp only [hrest, hexLoop, pushDigits, HexRun.start, Nat.zero_add] at hdigits
    simpa [List.length_eq_zero_iff] using hdigits
  | cons byte rest =>
    rw [hrest] at hdigits hexponent
    simp only
    by_cases hpoint : byte = 0x2e
    · -- a point: the loop goes on over the digits behind it
      subst hpoint
      have hfraction : ∀ byte ∈ rest.takeWhile isAsciiHexdigit, isAsciiHexdigit byte = true :=
        fun _ hbyte => List.mem_takeWhile_imp hbyte
      have hstop : hexLoop fl (0x2e :: rest)
          (pushDigits fl (.start fl) (body.takeWhile isAsciiHexdigit))
          = (pushDigits fl (pushDigits fl (.start fl) (body.takeWhile isAsciiHexdigit)).point
              (rest.takeWhile isAsciiHexdigit), rest.dropWhile isAsciiHexdigit) := by
        rw [hexLoop, if_pos ⟨rfl, hfresh⟩]
        conv_lhs => rw [← List.takeWhile_append_dropWhile (p := isAsciiHexdigit) (l := rest)]
        rw [hexLoop_digits hfraction]
        refine hexLoop_stop fun byte hbyte => ⟨?_, ?_⟩
        · have hnot := List.head?_dropWhile_not isAsciiHexdigit rest
          rw [hbyte] at hnot
          simpa [isAsciiHexdigit] using hnot
        · rintro ⟨-, hfractional⟩
          simp [pushDigits, stepDigits_fractional, HexRun.point] at hfractional
      rw [hstop] at hdigits hexponent
      rw [if_pos rfl]
      simp only [pushDigits, HexRun.point, HexRun.start, Nat.zero_add] at hdigits
      simp only [Bool.and_eq_true, Bool.not_eq_true', Bool.and_eq_false_iff,
        List.isEmpty_eq_false_iff]
      refine ⟨?_, hexponent⟩
      rw [← List.length_pos_iff, ← List.length_pos_iff]
      omega
    · have hstop : hexLoop fl (byte :: rest)
          (pushDigits fl (.start fl) (body.takeWhile isAsciiHexdigit))
          = (pushDigits fl (.start fl) (body.takeWhile isAsciiHexdigit), byte :: rest) := by
        refine hexLoop_stop fun b hbyte => ⟨?_, ?_⟩
        · have hnot := List.head?_dropWhile_not isAsciiHexdigit body
          rw [hrest, hbyte] at hnot
          simpa [isAsciiHexdigit] using hnot
        · rintro ⟨rfl, -⟩
          simp at hbyte
          exact hpoint hbyte
      rw [hstop] at hdigits hexponent
      rw [if_neg hpoint]
      simp only [pushDigits, HexRun.start, Nat.zero_add] at hdigits
      simp only [Bool.and_eq_true, Bool.not_eq_true', List.isEmpty_eq_false_iff]
      refine ⟨?_, hexponent⟩
      rw [← List.length_pos_iff]
      omega

end Hex

/-! ### Decimal numerals -/

section Decimal

variable {fl : FloatArith} {text : List UInt8}

/-- A text without a sign in front. -/
def Unsigned (text : List UInt8) : Prop := text.head? ≠ some 0x2d ∧ text.head? ≠ some 0x2b

theorem splitSign_of_unsigned (h : Unsigned text) : splitSign text = (false, text) := by
  cases text with
  | nil => rfl
  | cons byte rest =>
    obtain ⟨hminus, hplus⟩ := h
    simp only [List.head?_cons, ne_eq, Option.some.injEq] at hminus hplus
    simp [splitSign, hminus, hplus]

theorem unsigned_of_isNumeralText (h : isNumeralText text = true) : Unsigned text := by
  have hstart := startsNumeral_of_isNumeralText h
  constructor <;> intro hsign <;> simp [startsNumeral, hsign] at hstart <;>
    exact absurd hstart (by decide)

theorem hasHexPrefix_eq (text : List UInt8) : hasHexPrefix text = startsHex text := by
  obtain _ | ⟨first, _ | ⟨second, rest⟩⟩ := text
  · rfl
  · simp [hasHexPrefix, startsHex]
  · simp [hasHexPrefix, startsHex, Bool.and_or_distrib_left]

theorem startsHex_iff : startsHex text = true
    ↔ ∃ x body, text = 0x30 :: x :: body ∧ (x = 0x78 ∨ x = 0x58) := by
  constructor
  · intro h
    obtain _ | ⟨first, _ | ⟨x, body⟩⟩ := text
    · cases h
    · simp [startsHex] at h
    · simp only [startsHex, List.head?_cons, Bool.and_eq_true, beq_iff_eq, Option.some.injEq,
        List.getElem?_cons_succ, List.getElem?_cons_zero, Bool.or_eq_true] at h
      exact ⟨x, body, by rw [h.1], h.2⟩
  · rintro ⟨x, body, rfl, hx⟩
    simpa [startsHex] using hx

/-- Digits only. -/
theorem isDecimal_of_digits (hne : text ≠ []) (hall : text.all isAsciiDigit = true) :
    isDecimal text = true := by
  have hself : text.takeWhile isAsciiDigit = text :=
    List.takeWhile_eq_self_iff.mpr (List.all_eq_true.mp hall)
  have hdrop : text.dropWhile isAsciiDigit = [] :=
    List.dropWhile_eq_nil_iff.mpr (List.all_eq_true.mp hall)
  simp [isDecimal, isNumeral, hself, hdrop, hne]

theorem digits_of_parseI64 {value : Int64} (hsign : Unsigned text)
    (h : parseI64 text = some value) : text ≠ [] ∧ text.all isAsciiDigit = true := by
  simp only [parseI64, Option.map_eq_some_iff] at h
  obtain ⟨v, hv, -⟩ := h
  have := digits_of_parseInteger hv
  rwa [splitSign_of_unsigned hsign] at this

/-- `nan` and `inf` are no numerals. -/
theorem not_isFloatWord_of_isDecimal (h : isDecimal text = true) : isFloatWord text = false := by
  obtain ⟨parts⟩ := exists_parts h
  by_contra hword
  rw [Bool.not_eq_false] at hword
  obtain _ | ⟨first, rest⟩ := text
  · exact absurd hword (by decide)
  · have hfirst : first ∈ first :: rest := List.mem_cons_self
    have hclass := parts.bytes hfirst
    have hlower : ∀ byte : UInt8, (isAsciiDigit byte = true ∨ isExponentMark byte = true
          ∨ isAsciiDigit byte = true ∨ byte = 0x2e ∨ byte = 0x2b ∨ byte = 0x2d) →
        (if 0x41 ≤ byte ∧ byte ≤ 0x5a then byte + 0x20 else byte) ≠ 0x6e
          ∧ (if 0x41 ≤ byte ∧ byte ≤ 0x5a then byte + 0x20 else byte) ≠ 0x69 :=
      forall_byte (by decide +kernel)
    obtain ⟨hn, hi⟩ := hlower first hclass
    simp only [isFloatWord, eqIgnoreAsciiCase, List.map_cons, Bool.or_eq_true, beq_iff_eq,
      List.cons.injEq] at hword
    obtain (⟨hword, -⟩ | ⟨hword, -⟩) | ⟨hword, -⟩ := hword
    · exact hn hword
    · exact hi hword
    · exact hi hword

/-- `tonumber` on a text without sign that is no hexadecimal numeral. -/
theorem numberOfText_decimal (hsign : Unsigned text) (hhex : startsHex text = false) :
    numberOfText fl text = match parseI64 text with
      | some value => some (.integer value)
      | none => if isDecimal text then some (.float (fl.nearest text)) else none := by
  have hsplit := splitSign_of_unsigned hsign
  have htrim : text.dropWhile (fun byte => byte == 0x2d || byte == 0x2b) = text := by
    obtain _ | ⟨first, rest⟩ := text
    · rfl
    · obtain ⟨hminus, hplus⟩ := hsign
      simp only [List.head?_cons, ne_eq, Option.some.injEq] at hminus hplus
      simp [hminus, hplus]
  by_cases hsecond : startsHex (text.drop 1) = true
  · -- `0x` at the second byte: refused, and no decimal numeral
    have hmem : ∃ x ∈ text, x = 0x78 ∨ x = 0x58 := by
      obtain ⟨x, body, htail, hx⟩ := startsHex_iff.mp hsecond
      exact ⟨x, List.mem_of_mem_drop (i := 1) (by rw [htail]; simp), hx⟩
    have hnot : isDecimal text = false := by
      by_contra hdecimal
      rw [Bool.not_eq_false] at hdecimal
      obtain ⟨parts⟩ := exists_parts hdecimal
      obtain ⟨x, hx, hcase⟩ := hmem
      have hclass := parts.bytes hx
      obtain rfl | rfl := hcase <;> exact absurd hclass (by decide)
    have hnone : parseI64 text = none := by
      cases hparse : parseI64 text with
      | none => rfl
      | some value =>
        obtain ⟨hne, hall⟩ := digits_of_parseI64 hsign hparse
        rw [isDecimal_of_digits hne hall] at hnot
        cases hnot
    simp only [numberOfText, hasHexPrefix_eq, hhex, hsecond, Bool.or_true, if_true, luaHexNumber,
      hsplit, hnone, hnot, Bool.false_eq_true, if_false]
  · have hparse : fl.parseF64 text
        = if isDecimal text || isFloatWord text then some (fl.nearest text) else none := by
      simp [FloatArith.parseF64, isFloatText, hsplit]
    simp only [numberOfText, hasHexPrefix_eq, hhex, hsecond, Bool.or_self, Bool.false_eq_true,
      if_false, htrim, hparse]
    cases parseI64 text with
    | some value => rfl
    | none =>
      simp only
      by_cases hdecimal : isDecimal text = true
      · simp [hdecimal, not_isFloatWord_of_isDecimal hdecimal]
      · by_cases hword : isFloatWord text = true
        · simp [hdecimal, hword]
        · simp [hdecimal, hword]

/-- Without such a byte a decimal numeral is digits. -/
theorem digits_of_no_mark (h : isDecimal text = true) (hnone : text.any isFloatMark = false) :
    text ≠ [] ∧ text.all isAsciiDigit = true := by
  obtain ⟨parts⟩ := exists_parts h
  rw [List.any_eq_false] at hnone
  have hpoint : parts.point = false := by
    by_contra hpoint
    rw [Bool.not_eq_false] at hpoint
    refine hnone 0x2e ?_ (by decide)
    rw [parts.text_eq, hpoint]
    simp
  have hexponent : parts.exponent = [] := by
    cases hexponent : parts.exponent with
    | nil => rfl
    | cons mark exponent =>
      have hmark := parts.is_exponent
      rw [hexponent] at hmark
      simp only [isExponent, Bool.and_eq_true] at hmark
      refine absurd ?_ (hnone mark (by rw [parts.text_eq, hexponent]; simp))
      have hmark := hmark.1.1
      simp only [isExponentMark, Bool.or_eq_true, beq_iff_eq] at hmark
      obtain rfl | rfl := hmark <;> decide
  have hwhole : text = parts.whole := by
    have := parts.text_eq
    rw [hpoint, hexponent] at this
    simpa using this
  have hsome : parts.whole ≠ [] := by
    rcases parts.some_digit with h | h
    · exact h
    · exact absurd (parts.fraction_nil hpoint) h
  constructor
  · intro hnil
    exact hsome (hwhole.symm.trans hnil)
  · refine List.all_eq_true.mpr fun byte hbyte => parts.whole_digits byte ?_
    exact hwhole ▸ hbyte

/-- `parse_number` on a decimal numeral. -/
theorem parseNumber_decimal (h : isDecimal text = true) (hhex : startsHex text = false)
    (n : Number) :
    parseNumber fl text = .ok n ↔ match parseI64 text with
      | some value => n = .integer value
      | none => n = .float (fl.nearest text)
        ∧ ¬ (text.all isAsciiDigit = true ∧ (fl.nearest text).isFinite = false) := by
  have hform : isNumeralText text = true := by simp [isNumeralText, hhex, h]
  have hsign := unsigned_of_isNumeralText hform
  have htext : fromUtf8 text = some text := by
    refine fromUtf8_of_ascii fun byte hbyte => ?_
    have := isPlain_of_decimal h byte hbyte
    simp only [isPlain, Bool.and_eq_true, decide_eq_true_eq] at this
    exact this.1
  have hnothex : ¬ ([0x30, 0x78] <+: text ∨ [0x30, 0x58] <+: text) := by
    rintro (⟨body, rfl⟩ | ⟨body, rfl⟩) <;> exact absurd hhex (by simp [startsHex])
  have hfloat : fl.parseF64 text = some (fl.nearest text) := by
    simp [FloatArith.parseF64, isFloatText, splitSign_of_unsigned hsign, h]
  simp only [parseNumber, htext, if_neg hnothex, hfloat]
  by_cases hmark : text.any isFloatMark = true
  · -- a float, whatever its value
    have hdigits : ¬ text.all isAsciiDigit = true := by
      intro hall
      obtain ⟨byte, hbyte, hfloat⟩ := List.any_eq_true.mp hmark
      have hdigit := List.all_eq_true.mp hall byte hbyte
      exact absurd hdigit (forall_byte (p := fun byte => isFloatMark byte = true →
        ¬ isAsciiDigit byte = true) (by decide +kernel) byte hfloat)
    have hnone : parseI64 text = none := by
      cases hparse : parseI64 text with
      | none => rfl
      | some value => exact absurd (digits_of_parseI64 hsign hparse).2 hdigits
    rw [if_pos hmark, hnone, Except.ok.injEq]
    constructor
    · rintro rfl
      exact ⟨rfl, fun h => hdigits h.1⟩
    · rintro ⟨rfl, -⟩
      rfl
  · rw [if_neg hmark]
    obtain ⟨hne, hall⟩ := digits_of_no_mark h (by simpa using hmark)
    cases parseI64 text with
    | some value =>
      rw [Except.ok.injEq]
      exact eq_comm
    | none =>
      simp only [hall, true_and]
      by_cases hfinite : (fl.nearest text).isFinite = true
      · simp only [hfinite, if_true, Except.ok.injEq, Bool.true_eq_false, not_false_eq_true, and_true]
        exact eq_comm
      · simp [hfinite]

end Decimal

/-! ### Agreement -/

/-- The lexer and `tonumber` agree on a text: what the lexer accepts as one numeral `tonumber`
    accepts with the same number, and what `tonumber` accepts, if it has no sign and no whitespace,
    the lexer accepts as one numeral with the same number.  The limits of the lexer are those that
    leave room for the text. -/
def NumeralsAgree (fl : FloatArith) (text : List UInt8) : Prop :=
  ∀ (limits : CompileLimits) (profile : LuaProfile), RoomFor limits text →
    (∀ n, LexesAs limits fl profile text n → parseNumberBytes fl text = some n)
    ∧ (Unsigned text → (∀ byte ∈ text, isAsciiWhitespace byte = false) →
      ∀ n, parseNumberBytes fl text = some n → LexesAs limits fl profile text n)

/-- A hexadecimal integer of more than sixteen digits: an integer for the lexer, which wraps
    around, a float for `tonumber`. -/
def LongHexInteger (text : List UInt8) : Prop :=
  ∃ x digits, text = 0x30 :: x :: digits ∧ (x = 0x78 ∨ x = 0x58)
    ∧ digits.all isAsciiHexdigit = true ∧ 16 < digits.length

/-- A hexadecimal float whose value is not finite: refused by the lexer only. -/
def HexFloatOverflow (fl : FloatArith) (text : List UInt8) : Prop :=
  ∃ (x : UInt8) (body : List UInt8) (parts : HexParts body) (power : Int),
    text = 0x30 :: x :: body ∧ (x = 0x78 ∨ x = 0x58) ∧ ¬ parts.isInteger
      ∧ parts.power = some power
      ∧ (fl.mul (parts.mantissa fl).value (fl.powi power)).isFinite = false

/-- A decimal integer beyond `i64` whose nearest float is not finite: refused by the lexer only. -/
def DecimalIntegerOverflow (fl : FloatArith) (text : List UInt8) : Prop :=
  text ≠ [] ∧ text.all isAsciiDigit = true ∧ parseI64 text = none
    ∧ (fl.nearest text).isFinite = false

section Agreement

variable {fl : FloatArith} {text : List UInt8}

/-- The number the lexer reads from a text that is one numeral. -/
def Reads (fl : FloatArith) (text : List UInt8) (n : Number) : Prop :=
  isNumeralText text = true ∧ parseNumber fl text = .ok n

/-- The limits only have to leave room. -/
theorem numeralsAgree_iff_reads :
    NumeralsAgree fl text
      ↔ (∀ n, Reads fl text n → parseNumberBytes fl text = some n)
        ∧ (Unsigned text → (∀ byte ∈ text, isAsciiWhitespace byte = false) →
          ∀ n, parseNumberBytes fl text = some n → Reads fl text n) := by
  constructor
  · intro h
    have hroom : RoomFor ⟨text.length, text.length, 2, 1⟩ text := ⟨le_refl _, le_refl _, le_refl _⟩
    obtain ⟨hlex, htonumber⟩ := h _ .lua54 hroom
    exact ⟨fun n hn => hlex n ((lexesAs_iff hroom).mpr hn),
      fun hsign hspace n hn => (lexesAs_iff hroom).mp (htonumber hsign hspace n hn)⟩
  · rintro ⟨hlex, htonumber⟩ limits profile hroom
    exact ⟨fun n hn => hlex n ((lexesAs_iff hroom).mp hn),
      fun hsign hspace n hn => (lexesAs_iff hroom).mpr (htonumber hsign hspace n hn)⟩

section Hex

variable {x : UInt8} {body : List UInt8}

/-- On a hexadecimal text `tonumber` is `lua_hex_number`. -/
theorem numberOfText_hex (hx : x = 0x78 ∨ x = 0x58) :
    numberOfText fl (0x30 :: x :: body) = luaHexNumber fl (0x30 :: x :: body) := by
  have hhex : hasHexPrefix (0x30 :: x :: body) = true := by
    obtain rfl | rfl := hx <;> rfl
  simp [numberOfText, hhex]

theorem isNumeralText_hex (hx : x = 0x78 ∨ x = 0x58) :
    isNumeralText (0x30 :: x :: body)
      = isNumeral isAsciiHexdigit isHexExponentMark body := by
  have hhex : startsHex (0x30 :: x :: body) = true := startsHex_iff.mpr ⟨x, body, rfl, hx⟩
  simp [isNumeralText, hhex]

theorem plain_hex (hx : x = 0x78 ∨ x = 0x58) (parts : HexParts body) :
    ∀ byte ∈ (0x30 :: x :: body : List UInt8), isPlain byte = true := by
  intro byte hbyte
  rcases List.mem_cons.mp hbyte with rfl | hbyte
  · decide
  · rcases List.mem_cons.mp hbyte with rfl | hbyte
    · obtain rfl | rfl := hx <;> decide
    · exact parts.isPlain_of_hex byte hbyte

theorem unsigned_hex : Unsigned (0x30 :: x :: body) := ⟨by simp, by simp⟩

theorem not_whitespace_of_plain (h : ∀ byte ∈ text, isPlain byte = true) :
    ∀ byte ∈ text, isAsciiWhitespace byte = false := by
  intro byte hbyte
  have := h byte hbyte
  simp only [isPlain, Bool.and_eq_true, Bool.not_eq_true'] at this
  exact this.2

/-- Without a point and an exponent the value is that of `tonumber`, if it is finite. -/
theorem toFloat_eq (parts : HexParts body) {power : Int} (hpower : parts.power = some power)
    (hfinite : (fl.mul (parts.mantissa fl).value (fl.powi power)).isFinite = true) :
    parts.toFloat fl = some (fl.mul (parts.mantissa fl).value (fl.powi power)) := by
  unfold Parts.toFloat
  split
  · rename_i hnil
    obtain rfl : power = 0 := by simpa [Parts.power, hnil, eq_comm] using hpower
    cases hvalue : (parts.mantissa fl).value.isFinite with
    | true => rw [fl.mul_powi_zero _ hvalue]
    | false => rw [fl.not_isFinite_mul_powi_zero _ hvalue] at hfinite; cases hfinite
  · rw [hpower]
    rfl

/-- A float of `tonumber` has an exponent in range. -/
theorem power_of_toFloat (parts : HexParts body) {value : F64}
    (h : parts.toFloat fl = some value) : ∃ power, parts.power = some power := by
  unfold Parts.toFloat at h
  split at h
  · rename_i hnil
    exact ⟨0, by simp [Parts.power, hnil]⟩
  · obtain ⟨power, hpower, -⟩ := Option.map_eq_some_iff.mp h
    exact ⟨power, hpower⟩

/-- A short hexadecimal integer is the same integer for both; any other hexadecimal numeral with
    a finite value is the same float. -/
theorem reads_hex_iff (hx : x = 0x78 ∨ x = 0x58)
    (hlong : ¬ LongHexInteger (0x30 :: x :: body))
    (hover : ¬ HexFloatOverflow fl (0x30 :: x :: body)) (n : Number) :
    Reads fl (0x30 :: x :: body) n ↔ luaHexNumber fl (0x30 :: x :: body) = some n := by
  have hshort : ∀ parts : HexParts body, parts.isInteger → parts.whole.length ≤ 16 := by
    intro parts hinteger
    by_contra hlen
    have hwhole : body = parts.whole := by
      have := parts.text_eq
      rw [hinteger.1, hinteger.2] at this
      simpa using this
    exact hlong ⟨x, parts.whole, by rw [← hwhole], hx,
      List.all_eq_true.mpr parts.whole_digits, by omega⟩
  have hcompare : ∀ parts : HexParts body,
      parseNumber fl (0x30 :: x :: body) = .ok n
        ↔ luaHexNumber fl (0x30 :: x :: body) = some n := by
    intro parts
    rw [parseNumber_hex parts hx, luaHexNumber_hex parts hx]
    by_cases hinteger : parts.isInteger
    · rw [if_pos ⟨hinteger, hshort parts hinteger⟩]
      simp only [hinteger, true_and, not_true_eq_false, false_and, or_false, Option.some.injEq]
      exact eq_comm
    · rw [if_neg (fun h => hinteger h.1)]
      simp only [hinteger, false_and, not_false_eq_true, true_and, false_or, Option.map_eq_some_iff]
      constructor
      · rintro ⟨power, hpower, hfinite, rfl⟩
        exact ⟨_, toFloat_eq parts hpower hfinite, rfl⟩
      · rintro ⟨value, hvalue, rfl⟩
        obtain ⟨power, hpower⟩ := power_of_toFloat parts hvalue
        have hfinite : (fl.mul (parts.mantissa fl).value (fl.powi power)).isFinite = true := by
          by_contra hinfinite
          exact hover ⟨x, body, parts, power, rfl, hx, hinteger, hpower, by simpa using hinfinite⟩
        rw [toFloat_eq parts hpower hfinite] at hvalue
        exact ⟨power, hpower, hfinite, by rw [Option.some.inj hvalue]⟩
  unfold Reads
  rw [isNumeralText_hex hx]
  constructor
  · rintro ⟨hform, hvalue⟩
    obtain ⟨parts⟩ := exists_parts hform
    exact (hcompare parts).mp hvalue
  · intro hvalue
    have hform := isNumeral_of_luaHexNumber hvalue
    obtain ⟨parts⟩ := exists_parts hform
    exact ⟨hform, (hcompare parts).mpr hvalue⟩

end Hex

/-- A decimal numeral is the same number for both, unless it is an integer that overflows. -/
theorem reads_decimal_iff (hhex : startsHex text = false) (hsign : Unsigned text)
    (hover : ¬ DecimalIntegerOverflow fl text) (n : Number) :
    Reads fl text n ↔ numberOfText fl text = some n := by
  rw [numberOfText_decimal hsign hhex]
  have hform : isNumeralText text = isDecimal text := by simp [isNumeralText, hhex]
  unfold Reads
  rw [hform]
  by_cases hdecimal : isDecimal text = true
  · rw [parseNumber_decimal hdecimal hhex]
    cases hparse : parseI64 text with
    | some value =>
      simp only [hdecimal, true_and, Option.some.injEq]
      exact eq_comm
    | none =>
      have hgood : ¬ (text.all isAsciiDigit = true ∧ (fl.nearest text).isFinite = false) := by
        rintro ⟨hall, hinfinite⟩
        refine hover ⟨?_, hall, hparse, hinfinite⟩
        rintro rfl
        exact absurd hdecimal (by decide)
      simp only [hdecimal, true_and, hgood, not_false_eq_true, and_true, if_true, Option.some.injEq]
      exact eq_comm
  · have hnone : parseI64 text = none := by
      cases hparse : parseI64 text with
      | none => rfl
      | some value =>
        obtain ⟨hne, hall⟩ := digits_of_parseI64 hsign hparse
        exact absurd (isDecimal_of_digits hne hall) hdecimal
    simp [hdecimal, hnone]

/-- A text that `tonumber` reads without trimming is one whose bytes are plain, or one of the
    numerals. -/
theorem parseNumberBytes_of_reads {n : Number} (h : Reads fl text n) :
    parseNumberBytes fl text = numberOfText fl text := by
  refine parseNumberBytes_of_plain fl ?_
  cases hhex : startsHex text with
  | true =>
    obtain ⟨x, body, rfl, hx⟩ := startsHex_iff.mp hhex
    have hform := h.1
    rw [isNumeralText_hex hx] at hform
    obtain ⟨parts⟩ := exists_parts hform
    exact plain_hex hx parts
  | false =>
    have hform := h.1
    simp only [isNumeralText, hhex, Bool.false_eq_true, if_false] at hform
    exact isPlain_of_decimal hform

/-- Where the lexer and `tonumber` agree on texts that need no trimming. -/
theorem reads_iff (hsign : Unsigned text) (hlong : ¬ LongHexInteger text)
    (hhexover : ¬ HexFloatOverflow fl text) (hdecover : ¬ DecimalIntegerOverflow fl text)
    (n : Number) : Reads fl text n ↔ numberOfText fl text = some n := by
  cases hhex : startsHex text with
  | true =>
    obtain ⟨x, body, rfl, hx⟩ := startsHex_iff.mp hhex
    rw [numberOfText_hex hx]
    exact reads_hex_iff hx hlong hhexover n
  | false => exact reads_decimal_iff hhex hsign hdecover n

/-- A long hexadecimal integer is two different numbers. -/
theorem not_agree_of_longHexInteger (h : LongHexInteger text) : ¬ NumeralsAgree fl text := by
  rw [numeralsAgree_iff_reads]
  rintro ⟨hlex, -⟩
  obtain ⟨x, digits, rfl, hx, hall, hlen⟩ := h
  let parts : HexParts digits :=
    { whole := digits, point := false, fraction := [], exponent := [], text_eq := by simp
      whole_digits := List.all_eq_true.mp hall, fraction_digits := by simp
      fraction_nil := fun _ => rfl
      some_digit := .inl fun hnil => by simp [hnil] at hlen
      is_exponent := rfl }
  have hinteger : parts.isInteger := ⟨rfl, rfl⟩
  have hfloat : luaHexNumber fl (0x30 :: x :: digits) = some (.float (parts.mantissa fl).value) := by
    rw [luaHexNumber_hex parts hx, if_neg (fun h => by have : digits.length ≤ 16 := h.2; omega)]
    rfl
  have hreads : Reads fl (0x30 :: x :: digits) (.integer (hexWrap 0 digits).toInt64) := by
    refine ⟨?_, (parseNumber_hex parts hx _).mpr (.inl ⟨hinteger, rfl⟩)⟩
    rw [isNumeralText_hex hx]
    exact isNumeral_of_luaHexNumber hfloat
  have hsame := hlex _ hreads
  rw [parseNumberBytes_of_reads hreads, numberOfText_hex hx, hfloat] at hsame
  cases hsame

/-- A hexadecimal float without finite value is a number for `tonumber` only. -/
theorem not_agree_of_hexFloatOverflow (h : HexFloatOverflow fl text) : ¬ NumeralsAgree fl text := by
  rw [numeralsAgree_iff_reads]
  rintro ⟨-, htonumber⟩
  obtain ⟨x, body, parts, power, rfl, hx, hinteger, hpower, hinfinite⟩ := h
  have hplain := plain_hex hx parts
  obtain ⟨value, hvalue⟩ : ∃ value, parts.toFloat fl = some value := by
    unfold Parts.toFloat
    split
    · exact ⟨_, rfl⟩
    · exact ⟨_, by rw [hpower]; rfl⟩
  have hfloat : parseNumberBytes fl (0x30 :: x :: body) = some (.float value) := by
    rw [parseNumberBytes_of_plain fl hplain, numberOfText_hex hx, luaHexNumber_hex parts hx,
      if_neg (fun h => hinteger h.1), hvalue]
    rfl
  obtain ⟨-, hreads⟩ := htonumber unsigned_hex (not_whitespace_of_plain hplain) _ hfloat
  obtain ⟨hyes, -⟩ | ⟨-, power', hpower', hfinite, -⟩ := (parseNumber_hex parts hx _).mp hreads
  · exact hinteger hyes
  · rw [hpower] at hpower'
    cases hpower'
    rw [hinfinite] at hfinite
    cases hfinite

/-- A decimal integer without finite value is a number for `tonumber` only. -/
theorem not_agree_of_decimalIntegerOverflow (h : DecimalIntegerOverflow fl text) :
    ¬ NumeralsAgree fl text := by
  rw [numeralsAgree_iff_reads]
  rintro ⟨-, htonumber⟩
  obtain ⟨hne, hall, hparse, hinfinite⟩ := h
  have hdecimal := isDecimal_of_digits hne hall
  have hhex : startsHex text = false := by
    by_contra hhex
    rw [Bool.not_eq_false] at hhex
    obtain ⟨x, body, rfl, hx⟩ := startsHex_iff.mp hhex
    have := List.all_eq_true.mp hall x (by simp)
    obtain rfl | rfl := hx <;> exact absurd this (by decide)
  have hsign : Unsigned text := unsigned_of_isNumeralText (by simp [isNumeralText, hhex, hdecimal])
  have hplain := isPlain_of_decimal hdecimal
  have hfloat : parseNumberBytes fl text = some (.float (fl.nearest text)) := by
    rw [parseNumberBytes_of_plain fl hplain, numberOfText_decimal hsign hhex, hparse]
    simp [hdecimal]
  obtain ⟨-, hreads⟩ := htonumber hsign (not_whitespace_of_plain hplain) _ hfloat
  rw [parseNumber_decimal hdecimal hhex, hparse] at hreads
  exact hreads.2 ⟨hall, hinfinite⟩

end Agreement

/-- **Numerals in the source and in `tonumber`.**  The two readers agree on a text exactly when it
    is none of these: a hexadecimal integer of more than sixteen digits, a hexadecimal float
    without finite value, a decimal integer without finite value. -/
theorem numerals_agree_iff (fl : FloatArith) (text : List UInt8) :
    NumeralsAgree fl text
      ↔ ¬ LongHexInteger text ∧ ¬ HexFloatOverflow fl text ∧ ¬ DecimalIntegerOverflow fl text := by
  constructor
  · intro h
    exact ⟨fun hlong => not_agree_of_longHexInteger hlong h,
      fun hover => not_agree_of_hexFloatOverflow hover h,
      fun hover => not_agree_of_decimalIntegerOverflow hover h⟩
  · rintro ⟨hlong, hhexover, hdecover⟩
    rw [numeralsAgree_iff_reads]
    constructor
    · intro n hreads
      rw [parseNumberBytes_of_reads hreads]
      exact (reads_iff (unsigned_of_isNumeralText hreads.1) hlong hhexover hdecover n).mp hreads
    · intro hsign hspace n hnumber
      exact (reads_iff hsign hlong hhexover hdecover n).mpr
        (numberOfText_of_parseNumberBytes hspace hnumber)

/-- `0x00000000000000001` has seventeen digits: the integer 1 in the source, a float in
    `tonumber`. -/
theorem numerals_disagree_leading_zeros :
    ¬ NumeralsAgree .smallNat (0x30 :: 0x78 :: (List.replicate 16 0x30 ++ [0x31])) :=
  not_agree_of_longHexInteger
    ⟨0x78, List.replicate 16 0x30 ++ [0x31], rfl, .inl rfl, by decide, by decide⟩

end RivetLua.Stdlib.Basic
