import RivetLua.Stdlib.Utf8
import RivetLua.Compiler.LexerRuns

namespace RivetLua.Stdlib.Format

open RivetLua.Core RivetLua.Compiler RivetLua.Compiler.Lexer Check

/-!
# Stdlib — `%q` and the lexer

`string.format('%q', s)` writes a string so that the lexer reads it back.  The length is computed
by a loop of its own before the bytes are appended.

* `quoteLength`, `quote`, `appendQuoted` — `quote_length` and the quoted pieces of `append_piece`;
* `quoteLength_eq` — the computed length is that of the bytes;
* `shortString_quoteByte`, `shortString_quote` — what the lexer does on one quoted byte, and on
  all of them.
-/

/-- What stops the formatting of a piece. -/
inductive FormatError where
  | arithmeticOverflow
  | format
  deriving DecidableEq, Repr

/-! ### The code -/

/-- `usize::checked_add`. -/
def checkedAdd (a b : Nat) : Except FormatError Nat :=
  if a + b < 2 ^ 64 then .ok (a + b) else .error .arithmeticOverflow

/-- The bytes that are written behind a backslash as they are. -/
def isEscaped (byte : UInt8) : Bool := byte == 0x22 || byte == 0x5c || byte == 0x0a

/-- The width of one byte in `quote_length`. -/
def quoteWidth (byte : UInt8) (next : Option UInt8) : Nat :=
  if isEscaped byte then 2
  else if isAsciiControl byte then
    if next.any isAsciiDigit then 4
    else 2 + (if byte ≥ 10 then 1 else 0) + (if byte ≥ 100 then 1 else 0)
  else 1

/-- The loop of `quote_length`. -/
def quoteLengthLoop : List UInt8 → Nat → Except FormatError Nat
  | [], length => .ok length
  | byte :: rest, length => do
    let length ← checkedAdd length (quoteWidth byte rest.head?)
    quoteLengthLoop rest length

/-- `quote_length`. -/
def quoteLength (bytes : List UInt8) : Except FormatError Nat := quoteLengthLoop bytes 2

/-- The decimal digits of a control byte: three in front of another digit, else no more than it
    needs. -/
def controlDigits (byte : UInt8) (three : Bool) : List UInt8 :=
  if three then [0x30 + byte / 100, 0x30 + byte / 10 % 10, 0x30 + byte % 10]
  else
    (if byte ≥ 100 then [0x30 + byte / 100] else [])
      ++ (if byte ≥ 10 then [0x30 + byte / 10 % 10] else []) ++ [0x30 + byte % 10]

/-- One byte of a quoted piece. -/
def quoteByte (byte : UInt8) (next : Option UInt8) : List UInt8 :=
  if isEscaped byte then [0x5c, byte]
  else if isAsciiControl byte then 0x5c :: controlDigits byte (next.any isAsciiDigit)
  else [byte]

/-- The bytes between the quotes. -/
def quoteBody : List UInt8 → List UInt8
  | [] => []
  | byte :: rest => quoteByte byte rest.head? ++ quoteBody rest

/-- A quoted piece. -/
def quote (bytes : List UInt8) : List UInt8 := 0x22 :: (quoteBody bytes ++ [0x22])

/-- `check_size`. -/
def checkSize (profile : LuaProfile) (buffer : List UInt8) (additional : Nat) :
    Except FormatError Unit := do
  let next ← checkedAdd buffer.length additional
  reject (next > Utf8.maxSize profile) .format

/-- `prepare_piece` and `append_piece` for `%q` and a string. -/
def appendQuoted (profile : LuaProfile) (buffer bytes : List UInt8) :
    Except FormatError (List UInt8) := do
  let length ← quoteLength bytes
  checkSize profile buffer length
  pure (buffer ++ quote bytes)

/-! ### The length -/

theorem length_quoteByte (byte : UInt8) (next : Option UInt8) :
    (quoteByte byte next).length = quoteWidth byte next := by
  unfold quoteByte quoteWidth controlDigits
  split_ifs <;> simp

theorem length_quoteByte_pos (byte : UInt8) (next : Option UInt8) :
    1 ≤ (quoteByte byte next).length := by
  rw [length_quoteByte]
  unfold quoteWidth
  split_ifs <;> omega

theorem quoteLengthLoop_eq (bytes : List UInt8) (length : Nat) (hlength : length < 2 ^ 64) :
    quoteLengthLoop bytes length
      = if length + (quoteBody bytes).length < 2 ^ 64 then .ok (length + (quoteBody bytes).length)
        else .error .arithmeticOverflow := by
  induction bytes generalizing length with
  | nil =>
    rw [if_pos (by simpa [quoteBody] using hlength)]
    rfl
  | cons byte rest ih =>
    simp only [quoteLengthLoop, quoteBody, List.length_append, length_quoteByte, checkedAdd]
    by_cases hfits : length + quoteWidth byte rest.head? < 2 ^ 64
    · rw [if_pos hfits]
      show quoteLengthLoop rest _ = _
      rw [ih _ hfits, Nat.add_assoc]
    · rw [if_neg hfits, if_neg (by omega)]
      rfl

theorem length_quote (bytes : List UInt8) : (quote bytes).length = 2 + (quoteBody bytes).length := by
  simp [quote]
  omega

/-- `quote_length` is the number of bytes, as far as a `usize` goes. -/
theorem quoteLength_eq (bytes : List UInt8) :
    quoteLength bytes
      = if (quote bytes).length < 2 ^ 64 then .ok (quote bytes).length
        else .error .arithmeticOverflow := by
  rw [quoteLength, quoteLengthLoop_eq bytes 2 (by decide), length_quote]

/-- What is appended is the quoted piece. -/
theorem appendQuoted_eq_ok {profile : LuaProfile} {buffer bytes buffer' : List UInt8}
    (h : appendQuoted profile buffer bytes = .ok buffer') :
    buffer' = buffer ++ quote bytes ∧ quoteLength bytes = .ok (quote bytes).length := by
  simp only [appendQuoted, bind_eq_ok, pure, Except.pure, Except.ok.injEq] at h
  obtain ⟨length, hlength, -, -, rfl⟩ := h
  refine ⟨rfl, ?_⟩
  rw [quoteLength_eq] at hlength ⊢
  split at hlength
  · rename_i hfits
    rw [if_pos hfits]
  · cases hlength

/-! ### One quoted byte in the lexer -/

section Scan

variable {limits : CompileLimits} {origin : Origin}

/-- The digits of a control byte are digits, at most three, and denote it. -/
theorem controlDigits_spec {byte : UInt8} (h : isAsciiControl byte = true) (three : Bool) :
    (controlDigits byte three).all isAsciiDigit = true ∧ (controlDigits byte three).length ≤ 3
      ∧ controlDigits byte three ≠ [] ∧ (three = true → (controlDigits byte three).length = 3)
      ∧ decimalValue (controlDigits byte three) = byte.toNat := by
  revert h three
  refine forall_byte (p := fun byte => isAsciiControl byte = true → ∀ three : Bool,
    (controlDigits byte three).all isAsciiDigit = true ∧ (controlDigits byte three).length ≤ 3
      ∧ controlDigits byte three ≠ [] ∧ (three = true → (controlDigits byte three).length = 3)
      ∧ decimalValue (controlDigits byte three) = byte.toNat) ?_ byte
  decide +kernel

/-- Digits only add to the value read before. -/
theorem le_foldl_decimal (digits : List UInt8) (value : Nat) :
    value ≤ digits.foldl (fun value digit => value * 10 + digitValue digit) value := by
  induction digits generalizing value with
  | nil => exact le_refl _
  | cons digit digits ih =>
    have := ih (value * 10 + digitValue digit)
    simp only [List.foldl_cons]
    omega

/-- A decimal escape takes its digits: all it may, or all there are. -/
theorem decimalEscape_eq {n : Nat} {c : Cursor} {digits tail : List UInt8} {value : Nat}
    (hrest : c.rest = digits ++ tail) (hdigits : digits.all isAsciiDigit = true)
    (hlen : digits.length ≤ n) (hstop : digits.length = n ∨ tail.head?.any isAsciiDigit = false)
    (hvalue : digits.foldl (fun value digit => value * 10 + digitValue digit) value ≤ 255)
    (hroom : Room limits origin c digits.length) :
    decimalEscape limits origin n c value = .ok (c.skip digits.length,
      digits.foldl (fun value digit => value * 10 + digitValue digit) value) := by
  induction n generalizing c digits value with
  | zero =>
    have hnil : digits = [] := List.length_eq_zero_iff.mp (Nat.le_zero.mp hlen)
    simp [decimalEscape, hnil]
  | succ n ih =>
    unfold decimalEscape
    cases digits with
    | nil =>
      have htail : tail.head?.any isAsciiDigit = false := by
        rcases hstop with h | h
        · cases h
        · exact h
      rw [List.nil_append] at hrest
      cases tail with
      | nil => simp [Cursor.peek, hrest]
      | cons byte tail =>
        simp only [List.head?_cons, Option.any_some] at htail
        simp [Cursor.peek, hrest, htail]
    | cons digit digits =>
      simp only [List.all_cons, Bool.and_eq_true] at hdigits
      obtain ⟨hdigit, hdigits⟩ := hdigits
      rw [List.cons_append] at hrest
      have hpeek : c.peek = some digit := Cursor.peek_eq_some.mpr ⟨_, hrest⟩
      have hstep := le_foldl_decimal digits (value * 10 + digitValue digit)
      simp only [List.foldl_cons] at hvalue
      simp only [hpeek, hdigit, if_true]
      rw [if_neg (by omega), (advance_eq_ok_iff hrest (not_isLineBreak_of_digit hdigit)).mpr
        ⟨rfl, hroom.mono (by simp)⟩]
      show decimalEscape limits origin n (c.skip 1) _ = _
      rw [@ih _ digits _ (by simp [hrest]) hdigits (by simpa using hlen)
        (by simpa using hstop) hvalue (by rw [room_skip]; exact hroom.mono (by simp; omega))]
      rw [Cursor.skip_skip, List.length_cons, Nat.add_comm, List.foldl_cons]

/-- The cursor behind a quoted byte: a newline starts a line. -/
def behindQuoted (c : Cursor) (byte : UInt8) (width : Nat) : Cursor :=
  if byte = 0x0a then
    { c with rest := c.rest.drop width, offset := c.offset + width, line := c.line + 1, column := 1 }
  else c.skip width

/-- What may follow a quoted byte: no digit behind a short decimal escape, and no carriage return,
    which the lexer would take for the second half of a line break. -/
structure Follows (next : Option UInt8) (tail : List UInt8) : Prop where
  noDigit : next.any isAsciiDigit = false → tail.head?.any isAsciiDigit = false
  noReturn : tail.head? ≠ some 0x0d

/-- Behind a backslash the lexer reads an escape. -/
theorem shortString_backslash {fuel : Nat} {c : Cursor} {escape : UInt8} {tail bytes : List UInt8}
    (hrest : c.rest = 0x5c :: escape :: tail) (hroom : Room limits origin c 1) :
    shortString limits origin 0x22 (fuel + 1) c bytes = (do
      let (c, bytes) ← scanEscape limits origin (c.skip 1) bytes escape
      shortString limits origin 0x22 fuel c bytes) := by
  have hpeek : c.peek = some 0x5c := Cursor.peek_eq_some.mpr ⟨_, hrest⟩
  have hnext : (c.skip 1).peek = some escape := Cursor.peek_eq_some.mpr ⟨tail, by simp [hrest]⟩
  have hadvance : advance limits origin c = .ok (c.skip 1) :=
    (advance_eq_ok_iff hrest (by decide)).mpr ⟨rfl, hroom⟩
  have hbreak : isLineBreak 0x5c = false := by decide
  rw [shortString.eq_2]
  simp only [hpeek, hbreak, hadvance, ok_bind, hnext]
  rw [if_neg (by decide), if_neg (by decide), if_neg (by decide)]

/-- Any other byte stands for itself. -/
theorem shortString_plain {fuel : Nat} {c : Cursor} {byte : UInt8} {tail bytes : List UInt8}
    (hrest : c.rest = byte :: tail) (hquote : byte ≠ 0x22) (hbreak : isLineBreak byte = false)
    (hslash : byte ≠ 0x5c) (hroom : Room limits origin c 1)
    (hbytes : bytes.length < limits.maxTokenBytes) :
    shortString limits origin 0x22 (fuel + 1) c bytes
      = shortString limits origin 0x22 fuel (c.skip 1) (bytes ++ [byte]) := by
  have hpeek : c.peek = some byte := Cursor.peek_eq_some.mpr ⟨_, hrest⟩
  have hpush : pushLiteralByte limits origin c bytes byte = .ok (bytes ++ [byte]) :=
    pushLiteralByte_eq_ok_iff.mpr ⟨rfl, hbytes⟩
  have hadvance : advance limits origin c = .ok (c.skip 1) :=
    (advance_eq_ok_iff hrest hbreak).mpr ⟨rfl, hroom⟩
  rw [shortString.eq_2]
  simp only [hpeek, hbreak, hpush, hadvance, if_neg hquote, ok_bind, Bool.false_eq_true, if_false]
  rw [if_pos hslash]

/-- `advance` over a newline that no carriage return follows. -/
theorem advance_newline {c : Cursor} {tail : List UInt8} (hrest : c.rest = 0x0a :: tail)
    (hreturn : tail.head? ≠ some 0x0d) (hroom : Room limits origin c 1)
    (hline : c.line + 1 ≤ limits.maxLines) :
    advance limits origin c
      = .ok { c with rest := tail, offset := c.offset + 1, line := c.line + 1, column := 1 } := by
  have hpair : isBreakPair 0x0a tail.head? = false := by
    simp [isBreakPair, hreturn]
  have hbreak : isLineBreak 0x0a = true := by decide
  unfold Room at hroom
  simp only [advance, Cursor.advance, hrest, hbreak, hpair, if_true, Bool.false_eq_true, if_false]
  rw [if_neg (by omega)]
  simp only
  rw [if_neg (by omega)]
  rfl

/-- **One quoted byte.**  The lexer takes all of it and appends the byte. -/
theorem shortString_quoteByte (fuel : Nat) {c : Cursor} {byte : UInt8} {next : Option UInt8}
    {tail : List UInt8} (bytes : List UInt8) (hrest : c.rest = quoteByte byte next ++ tail)
    (htail : Follows next tail) (hroom : Room limits origin c (quoteByte byte next).length)
    (hbytes : bytes.length < limits.maxTokenBytes)
    (hline : byte = 0x0a → c.line + 1 ≤ limits.maxLines) :
    shortString limits origin 0x22 (fuel + 1) c bytes
      = shortString limits origin 0x22 fuel
          (behindQuoted c byte (quoteByte byte next).length) (bytes ++ [byte]) := by
  have hpush : ∀ c, pushLiteralByte limits origin c bytes byte = .ok (bytes ++ [byte]) :=
    fun c => pushLiteralByte_eq_ok_iff.mpr ⟨rfl, hbytes⟩
  by_cases hescaped : isEscaped byte = true
  · have hquoted : quoteByte byte next = [0x5c, byte] := by simp [quoteByte, hescaped]
    rw [hquoted] at hrest hroom ⊢
    have hrest' : (c.skip 1).rest = byte :: tail := by simp [hrest]
    have hroom' : Room limits origin (c.skip 1) 1 := by
      rw [room_skip]
      exact hroom
    rw [shortString_backslash hrest (hroom.mono (by simp))]
    by_cases hnewline : byte = 0x0a
    · -- a newline, which the lexer appends and counts
      subst hnewline
      have hadvance := advance_newline hrest' htail.noReturn hroom' (hline rfl)
      have hclass : simpleEscape 0x0a = none ∧ isAsciiDigit 0x0a = false
          ∧ isLineBreak 0x0a = true := by decide
      simp only [scanEscape, hclass, hpush, hadvance, ok_bind]
      simp [behindQuoted, hrest, Cursor.skip, pure, Except.pure]
    · have hsimple : simpleEscape byte = some byte := by
        simp only [isEscaped, Bool.or_eq_true, beq_iff_eq] at hescaped
        obtain (rfl | rfl) | rfl := hescaped
        · decide
        · decide
        · exact absurd rfl hnewline
      have hbreak : isLineBreak byte = false := by
        simp only [isEscaped, Bool.or_eq_true, beq_iff_eq] at hescaped
        obtain (rfl | rfl) | rfl := hescaped
        · decide
        · decide
        · exact absurd rfl hnewline
      have hadvance : advance limits origin (c.skip 1) = .ok ((c.skip 1).skip 1) :=
        (advance_eq_ok_iff hrest' hbreak).mpr ⟨rfl, hroom'⟩
      simp only [scanEscape, hsimple, hpush, hadvance, ok_bind]
      simp [behindQuoted, hnewline, Cursor.skip_skip, pure, Except.pure]
  · have hnewline : byte ≠ 0x0a := by
      rintro rfl
      exact hescaped (by decide)
    by_cases hcontrol : isAsciiControl byte = true
    · -- a control byte, which is written with its number
      have hquoted : quoteByte byte next
          = 0x5c :: controlDigits byte (next.any isAsciiDigit) := by
        simp [quoteByte, hescaped, hcontrol]
      obtain ⟨hdigits, hthree, hsome, hfull, hvalue⟩ :=
        controlDigits_spec hcontrol (next.any isAsciiDigit)
      rw [hquoted] at hrest hroom ⊢
      generalize controlDigits byte (next.any isAsciiDigit) = digits at *
      obtain _ | ⟨digit, digits⟩ := digits
      · exact absurd rfl hsome
      have hrest' : (c.skip 1).rest = (digit :: digits) ++ tail := by simp [hrest]
      have hdigit : isAsciiDigit digit = true := by
        simp only [List.all_cons, Bool.and_eq_true] at hdigits
        exact hdigits.1
      have hclass := forall_byte (p := fun d => isAsciiDigit d = true →
        simpleEscape d = none ∧ d ≠ 0x78 ∧ d ≠ 0x7a ∧ d ≠ 0x75) (by decide +kernel) digit hdigit
      have hstop : (digit :: digits).length = 3 ∨ tail.head?.any isAsciiDigit = false := by
        cases hnext : next.any isAsciiDigit with
        | true => exact .inl (hfull hnext)
        | false => exact .inr (htail.noDigit hnext)
      have hfold : (digit :: digits).foldl (fun value digit => value * 10 + digitValue digit) 0
          = byte.toNat := hvalue
      have hroom' : Room limits origin (c.skip 1) (digit :: digits).length := by
        rw [room_skip]
        exact hroom.mono (by simp; omega)
      have hescape := decimalEscape_eq hrest' hdigits hthree hstop
        (by rw [hfold]; have := byte.toNat_lt; omega) hroom'
      rw [List.cons_append, List.cons_append] at hrest
      rw [shortString_backslash hrest (hroom.mono (by simp))]
      rw [hfold] at hescape
      simp only [scanEscape, hclass, hdigit, hescape, ok_bind, UInt8.ofNat_toNat, hpush]
      simp [behindQuoted, hnewline, Cursor.skip_skip, pure, Except.pure, Nat.add_comm]
    · -- any other byte
      have hquoted : quoteByte byte next = [byte] := by simp [quoteByte, hescaped, hcontrol]
      rw [hquoted] at hrest hroom ⊢
      have hclass := forall_byte (p := fun d => ¬ isEscaped d = true → ¬ isAsciiControl d = true →
        d ≠ 0x22 ∧ isLineBreak d = false ∧ d ≠ 0x5c) (by decide +kernel) byte hescaped hcontrol
      rw [shortString_plain hrest hclass.1 hclass.2.1 hclass.2.2 hroom hbytes]
      simp [behindQuoted, hnewline]

/-! ### Quoted strings in the lexer -/

/-- The bytes behind a quoted byte do not disturb it. -/
theorem follows_quoteBody (rest after : List UInt8) :
    Follows rest.head? (quoteBody rest ++ 0x22 :: after) := by
  cases rest with
  | nil => exact ⟨fun _ => by simp [quoteBody]; decide, by simp [quoteBody]⟩
  | cons byte rest =>
    have hhead : (quoteBody (byte :: rest) ++ 0x22 :: after).head? = some 0x5c
        ∨ ((quoteBody (byte :: rest) ++ 0x22 :: after).head? = some byte ∧ byte ≠ 0x0d) := by
      by_cases hescaped : isEscaped byte = true
      · exact .inl (by simp [quoteBody, quoteByte, hescaped])
      · by_cases hcontrol : isAsciiControl byte = true
        · exact .inl (by simp [quoteBody, quoteByte, hescaped, hcontrol])
        · refine .inr ⟨by simp [quoteBody, quoteByte, hescaped, hcontrol], ?_⟩
          rintro rfl
          exact hcontrol (by decide)
    obtain hslash | ⟨hsame, hreturn⟩ := hhead
    · exact ⟨fun _ => by rw [hslash]; decide, by rw [hslash]; decide⟩
    · exact ⟨fun h => by rw [hsame]; exact h, by rw [hsame]; simpa using hreturn⟩

/-- Behind a quoted byte its bytes are read and only a newline has changed the line. -/
theorem behindQuoted_spec (c : Cursor) (byte : UInt8) (width : Nat) :
    (behindQuoted c byte width).rest = c.rest.drop width
      ∧ (behindQuoted c byte width).offset = c.offset + width
      ∧ (behindQuoted c byte width).profile = c.profile
      ∧ (behindQuoted c byte width).line = c.line + [byte].count 0x0a := by
  unfold behindQuoted
  split
  · rename_i h
    subst h
    exact ⟨rfl, rfl, rfl, rfl⟩
  · rename_i h
    exact ⟨rfl, rfl, rfl, by simp [Cursor.skip, h]⟩

/-- **A quoted string.**  From behind the opening quote the lexer reads the string and stops behind
    the closing one. -/
theorem shortString_quoteBody {s after : List UInt8} (fuel : Nat) {c : Cursor}
    (bytes : List UInt8) (hrest : c.rest = quoteBody s ++ 0x22 :: after) (hfuel : c.rest.length ≤ fuel)
    (hroom : Room limits origin c ((quoteBody s).length + 1))
    (hbytes : bytes.length + s.length ≤ limits.maxTokenBytes)
    (hline : c.line + s.count 0x0a ≤ limits.maxLines) :
    ∃ c', shortString limits origin 0x22 fuel c bytes = .ok (c', bytes ++ s) ∧ c'.rest = after
      ∧ c'.offset = c.offset + ((quoteBody s).length + 1) ∧ c'.profile = c.profile := by
  induction s generalizing c bytes fuel with
  | nil =>
    cases fuel with
    | zero => simp [hrest] at hfuel
    | succ fuel =>
      rw [quoteBody, List.nil_append] at hrest
      have hpeek : c.peek = some 0x22 := Cursor.peek_eq_some.mpr ⟨_, hrest⟩
      have hadvance : advance limits origin c = .ok (c.skip 1) :=
        (advance_eq_ok_iff hrest (by decide)).mpr ⟨rfl, by simpa [quoteBody] using hroom⟩
      refine ⟨c.skip 1, ?_, by simp [hrest], by simp [quoteBody], rfl⟩
      simp [shortString, hpeek, hadvance, pure, Except.pure]
  | cons byte rest ih =>
    have hwidth := length_quoteByte_pos byte rest.head?
    rw [quoteBody, List.append_assoc] at hrest
    rw [quoteBody, List.length_append] at hroom
    rw [List.length_cons] at hbytes
    rw [List.count_cons] at hline
    cases fuel with
    | zero =>
      rw [hrest, List.length_append] at hfuel
      omega
    | succ fuel =>
      have hstep := shortString_quoteByte fuel bytes hrest
        (follows_quoteBody rest after) (hroom.mono (by omega)) (by omega)
        (fun h => by simp [h] at hline; omega)
      obtain ⟨hbehind, hoffset, hprofile, hlines⟩ :=
        behindQuoted_spec c byte (quoteByte byte rest.head?).length
      rw [hrest, List.drop_left] at hbehind
      obtain ⟨c', hrun, hrest', hoffset', hprofile'⟩ := ih fuel
        (bytes ++ [byte]) hbehind
        (by rw [hbehind]; rw [hrest, List.length_append] at hfuel; omega)
        (by unfold Room at *; omega)
        (by rw [List.length_append, List.length_singleton]; omega)
        (by rw [hlines, List.count_singleton]; omega)
      refine ⟨c', ?_, hrest', ?_, by rw [hprofile', hprofile]⟩
      · rw [hstep, hrun, List.append_assoc, List.singleton_append]
      · rw [hoffset', hoffset, quoteBody, List.length_append]
        omega

end Scan

/-- A text fits the limits of the lexer: its bytes, as a source and as one token, its lines, and
    the two tokens of a chunk that is one literal. -/
structure FitsLimits (limits : CompileLimits) (text : List UInt8) : Prop where
  source : text.length ≤ limits.maxSourceBytes
  token : text.length ≤ limits.maxTokenBytes
  lines : 1 + text.count 0x0a ≤ limits.maxLines
  tokens : 2 ≤ limits.maxTokens

/-- Quoting keeps the newlines and adds none. -/
theorem count_quoteByte (byte : UInt8) (next : Option UInt8) :
    (quoteByte byte next).count 0x0a = [byte].count 0x0a := by
  by_cases hescaped : isEscaped byte = true
  · simp [quoteByte, hescaped, List.count_cons]
  · by_cases hcontrol : isAsciiControl byte = true
    · have hdigits := (controlDigits_spec hcontrol (next.any isAsciiDigit)).1
      have hnone : (controlDigits byte (next.any isAsciiDigit)).count 0x0a = 0 := by
        refine List.count_eq_zero.mpr fun hmem => ?_
        exact absurd (List.all_eq_true.mp hdigits _ hmem) (by decide)
      have hnewline : byte ≠ 0x0a := by
        rintro rfl
        exact hescaped (by decide)
      simp [quoteByte, hescaped, hcontrol, hnone, hnewline]
    · simp [quoteByte, hescaped, hcontrol]

theorem count_quoteBody (s : List UInt8) : (quoteBody s).count 0x0a = s.count 0x0a := by
  induction s with
  | nil => rfl
  | cons byte rest ih =>
    rw [quoteBody, List.count_append, ih, count_quoteByte, ← List.count_append,
      List.singleton_append]

theorem length_le_length_quoteBody (s : List UInt8) : s.length ≤ (quoteBody s).length := by
  induction s with
  | nil => exact le_refl _
  | cons byte rest ih =>
    have hwidth := length_quoteByte_pos byte rest.head?
    rw [quoteBody, List.length_append, List.length_cons]
    omega

/-- **`%q` and the lexer are inverse.**  Whatever `string.format('%q', s)` appends to its buffer is
    the quoted form of `s`, of the length computed before; and a quoted form that fits the limits
    is one string token with the contents `s`, then the end of the input. -/
theorem lex_quote (s : List UInt8) :
    (∀ (profile : LuaProfile) (buffer buffer' : List UInt8),
        appendQuoted profile buffer s = .ok buffer' →
        buffer' = buffer ++ quote s ∧ quoteLength s = .ok (quote s).length)
    ∧ ∀ (limits : CompileLimits) (fl : FloatArith) (profile : LuaProfile),
        FitsLimits limits (quote s) →
        ∃ token stop, lex limits fl (quote s) profile
            = .ok ⟨profile, (quote s).length, [token, stop]⟩
          ∧ token.kind = .string ∧ token.literal = some (.string s)
          ∧ token.span = ⟨0, (quote s).length⟩ ∧ stop.kind = .eof := by
  refine ⟨fun profile buffer buffer' => appendQuoted_eq_ok, fun limits fl profile hfits => ?_⟩
  obtain ⟨hsource, htoken, hlines, htokens⟩ := hfits
  have hlen := length_quote s
  have hcount : (quote s).count 0x0a = s.count 0x0a := by
    simp [quote, List.count_append, count_quoteBody]
  have hshort := length_le_length_quoteBody s
  let c := Cursor.new (quote s) profile
  have hrest : c.rest = 0x22 :: (quoteBody s ++ [0x22]) := rfl
  have hadvance : advance limits c.origin c = .ok (c.skip 1) :=
    (advance_eq_ok_iff hrest (by decide)).mpr ⟨rfl, by
      show 0 + 1 ≤ 0 + limits.maxTokenBytes
      omega⟩
  have hbody : (c.skip 1).rest = quoteBody s ++ 0x22 :: [] := by simp [hrest]
  have hroom : Room limits c.origin (c.skip 1) ((quoteBody s).length + 1) := by
    show 0 + 1 + ((quoteBody s).length + 1) ≤ 0 + limits.maxTokenBytes
    omega
  have hcounted : (c.skip 1).line + s.count 0x0a ≤ limits.maxLines := by
    show 1 + s.count 0x0a ≤ limits.maxLines
    omega
  obtain ⟨c', hrun, hrest', hoffset, hprofile⟩ :=
    shortString_quoteBody _ [] hbody (le_refl _) hroom (by simp; omega) hcounted
  rw [List.nil_append] at hrun
  have hemit : emit limits c.origin c' [] .string (some (.string s))
      = .ok (c', [tokenAt c.origin c' .string (some (.string s))]) :=
    emit_eq_ok_iff.mpr ⟨rfl, rfl, by simp; omega⟩
  have helement : scanElement limits fl 0x22 c []
      = .ok (c', [tokenAt c.origin c' .string (some (.string s))]) := by
    have hclass : isSpace 0x22 = false ∧ isNameStart 0x22 = false ∧ isAsciiDigit 0x22 = false := by
      decide
    simp only [scanElement, hclass, scanShortString, hadvance, hrun, hemit, ok_bind]
    rfl
  have hoffset' : c'.offset = (quote s).length := by
    rw [hoffset, hlen]
    show 0 + 1 + _ = _
    omega
  have hprofile' : c'.profile = profile := hprofile
  refine ⟨tokenAt c.origin c' .string (some (.string s)), tokenAt c'.origin c' .eof none, ?_, rfl,
    rfl, ?_, rfl⟩
  · rw [show quote s = 0x22 :: (quoteBody s ++ [0x22]) from rfl] at hsource ⊢
    rw [lex_of_scanElement hsource htokens helement hrest', hprofile', hoffset']
    rfl
  · simp only [tokenAt, hoffset']
    rfl

/-- A control byte before a digit, a newline and a quote, under the standard limits. -/
theorem lex_quote_control_newline :
    FitsLimits .standard (quote [0x01, 0x31, 0x0a, 0x22])
    ∧ ∀ fl : FloatArith, ∃ token stop, lex .standard fl (quote [0x01, 0x31, 0x0a, 0x22]) .lua54
        = .ok ⟨.lua54, 11, [token, stop]⟩
      ∧ token.kind = .string ∧ token.literal = some (.string [0x01, 0x31, 0x0a, 0x22])
      ∧ token.span = ⟨0, 11⟩ ∧ stop.kind = .eof := by
  have hfits : FitsLimits .standard (quote [0x01, 0x31, 0x0a, 0x22]) :=
    ⟨by decide, by decide, by decide, by decide⟩
  exact ⟨hfits, fun fl => (lex_quote [0x01, 0x31, 0x0a, 0x22]).2 .standard fl .lua54 hfits⟩

end RivetLua.Stdlib.Format
