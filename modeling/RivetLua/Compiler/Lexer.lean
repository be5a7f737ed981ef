import RivetLua.Compiler.Ast
import RivetLua.Core.NumberText

namespace RivetLua.Compiler.Lexer

open RivetLua.Core

/-!
# Compiler — the lexer

Source bytes are scanned left to right.  The cursor of the source is an input and an offset into
it; here it keeps the unread bytes, which is all it looks at, together with the offset.  Byte
offsets, lines and columns are `usize` and stay below the length of the input, so they are natural
numbers.  Numerals are read without a budget, as `lex` does.

A loop of the source takes at least one byte a round.  Its `fuel` here is the number of unread
bytes, so that the round in which it runs out is the one at the end of the input.

* `Cursor`, `advance`, `pushLiteralByte` — movement, and the limits checked on the way;
* `scanShortString`, `scanLongString`, `scanNumber`, `scanName`, `scanSymbol` — the tokens;
* `parseNumber` — the value of a numeral;
* `lex` — the whole input, closed by an end token.
-/

/-! ### Tokens, limits and diagnostics -/

/-- A position, counted from 1. -/
structure SourcePosition where
  line : Nat
  column : Nat
  deriving DecidableEq, Repr

/-- The limits of `CompileLimits` that the lexer checks. -/
structure CompileLimits where
  maxSourceBytes : Nat
  maxTokenBytes : Nat
  maxTokens : Nat
  maxLines : Nat
  deriving DecidableEq, Repr

/-- `CompileLimits::default`. -/
def CompileLimits.standard : CompileLimits := ⟨1024 * 1024, 64 * 1024, 100000, 100000⟩

/-- `DiagnosticCode`. -/
inductive DiagnosticCode where
  | lex | compileLimit
  deriving DecidableEq, Repr

/-- `Diagnostic`. -/
structure Diagnostic where
  code : DiagnosticCode
  span : Span
  start : SourcePosition
  stop : SourcePosition
  message : String
  deriving DecidableEq, Repr

/-- `Keyword`. -/
inductive Keyword where
  | kwAnd | kwBreak | kwDo | kwElse | kwElseIf | kwEnd | kwFalse | kwFor | kwFunction | kwGoto
  | kwIf | kwIn | kwLocal | kwNil | kwNot | kwOr | kwRepeat | kwReturn | kwThen | kwTrue
  | kwUntil | kwWhile | kwGlobal
  deriving DecidableEq, Repr

/-- `Symbol`. -/
inductive Symbol where
  | plus | minus | star | slash | floorSlash | percent | caret | hash | ampersand | pipe | tilde
  | shiftLeft | shiftRight | equalEqual | notEqual | less | lessEqual | greater | greaterEqual
  | assign | openParen | closeParen | openBrace | closeBrace | openBracket | closeBracket
  | semicolon | colon | doubleColon | comma | dot | concat | vararg
  deriving DecidableEq, Repr

/-- `TokenKind`. -/
inductive TokenKind where
  | eof
  | keyword (keyword : Keyword)
  | name
  | integer
  | float
  | string
  | symbol (symbol : Symbol)
  deriving DecidableEq, Repr

/-- `Token`. -/
structure Token where
  kind : TokenKind
  span : Span
  start : SourcePosition
  stop : SourcePosition
  literal : Option Literal
  deriving DecidableEq, Repr

/-- `LexedChunk`. -/
structure LexedChunk where
  profile : LuaProfile
  sourceLen : Nat
  tokens : List Token
  deriving DecidableEq, Repr

/-! ### The cursor -/

/-- `Cursor`: the unread bytes and where the first of them stands. -/
structure Cursor where
  rest : List UInt8
  profile : LuaProfile
  offset : Nat
  line : Nat
  column : Nat
  deriving DecidableEq, Repr

namespace Cursor

/-- `Cursor::new`. -/
def new (input : List UInt8) (profile : LuaProfile) : Cursor := ⟨input, profile, 0, 1, 1⟩

/-- `Cursor::peek`. -/
def peek (c : Cursor) : Option UInt8 := c.rest.head?

/-- `Cursor::peek_n`. -/
def peekN (c : Cursor) (distance : Nat) : Option UInt8 := c.rest[distance]?

/-- `Cursor::position`. -/
def position (c : Cursor) : SourcePosition := ⟨c.line, c.column⟩

end Cursor

/-- A byte that starts a line break. -/
def isLineBreak (byte : UInt8) : Bool := byte == 0x0a || byte == 0x0d

/-- `\n\r` and `\r\n` are one line break. -/
def isBreakPair (byte : UInt8) (next : Option UInt8) : Bool :=
  (byte == 0x0a && next == some 0x0d) || (byte == 0x0d && next == some 0x0a)

/-- `Cursor::advance`: the cursor behind the next byte, with a message when a limit is passed. -/
def Cursor.advance (limits : CompileLimits) (c : Cursor) : Cursor × Option String :=
  match c.rest with
  | [] => (c, none)
  | byte :: rest =>
    if isLineBreak byte then
      let width := if isBreakPair byte rest.head? then 2 else 1
      let c := { c with rest := c.rest.drop width, offset := c.offset + width, line := c.line + 1 }
      if c.line > limits.maxLines then (c, some "行數超過編譯限制")
      else ({ c with column := 1 }, none)
    else ({ c with rest, offset := c.offset + 1, column := c.column + 1 }, none)

/-- Where the element that is being scanned starts. -/
structure Origin where
  startByte : Nat
  start : SourcePosition
  deriving DecidableEq, Repr

/-- The origin of an element that starts at the cursor. -/
def Cursor.origin (c : Cursor) : Origin := ⟨c.offset, c.position⟩

/-- `Diagnostic::at`. -/
def Diagnostic.at (code : DiagnosticCode) (origin : Origin) (c : Cursor) (message : String) :
    Diagnostic :=
  ⟨code, ⟨origin.startByte, c.offset⟩, origin.start, c.position, message⟩

/-- `lex_error`. -/
def lexError {α : Type} (c : Cursor) (origin : Origin) (message : String) :
    Except Diagnostic α :=
  .error (.at .lex origin c message)

section Scanner

variable (limits : CompileLimits)

/-- `advance`: one byte or line break, within the length of a token. -/
def advance (origin : Origin) (c : Cursor) : Except Diagnostic Cursor :=
  match c.advance limits with
  | (c, some message) => .error (.at .compileLimit origin c message)
  | (c, none) =>
    if c.offset - origin.startByte > limits.maxTokenBytes then
      .error (.at .compileLimit origin c "token 超過編譯限制")
    else .ok c

/-- `push_literal_byte`, also under the name `append_input_byte`. -/
def pushLiteralByte (origin : Origin) (c : Cursor) (bytes : List UInt8) (byte : UInt8) :
    Except Diagnostic (List UInt8) :=
  if bytes.length ≥ limits.maxTokenBytes then
    .error (.at .compileLimit origin c "literal 超過編譯限制")
  else .ok (bytes ++ [byte])

/-- `push_token`. -/
def pushToken (c : Cursor) (tokens : List Token) (token : Token) :
    Except Diagnostic (List Token) :=
  if tokens.length ≥ limits.maxTokens then
    .error (.at .compileLimit ⟨token.span.startByte, token.start⟩ c "token 數超過編譯限制")
  else .ok (tokens ++ [token])

/-- `emit`. -/
def emit (origin : Origin) (c : Cursor) (tokens : List Token) (kind : TokenKind)
    (literal : Option Literal) : Except Diagnostic (Cursor × List Token) := do
  let token := ⟨kind, ⟨origin.startByte, c.offset⟩, origin.start, c.position, literal⟩
  let tokens ← pushToken limits c tokens token
  pure (c, tokens)

/-- `advance` a fixed number of times. -/
def advanceBy (origin : Origin) : Nat → Cursor → Except Diagnostic Cursor
  | 0, c => .ok c
  | n + 1, c => do
    let c ← advance limits origin c
    advanceBy origin n c

/-- `advance` while the next byte satisfies a condition. -/
def advanceWhile (origin : Origin) (p : UInt8 → Bool) : Nat → Cursor → Except Diagnostic Cursor
  | 0, c => .ok c
  | fuel + 1, c =>
    match c.peek with
    | none => .ok c
    | some byte =>
      if p byte then do
        let c ← advance limits origin c
        advanceWhile origin p fuel c
      else .ok c

/-- `consume_number_byte`. -/
def consumeNumberByte (origin : Origin) (c : Cursor) (bytes : List UInt8) (byte : UInt8) :
    Except Diagnostic (Cursor × List UInt8) := do
  let bytes ← pushLiteralByte limits origin c bytes byte
  let c ← advance limits origin c
  pure (c, bytes)

/-- Take the bytes that satisfy a condition. -/
def consumeWhile (origin : Origin) (p : UInt8 → Bool) :
    Nat → Cursor → List UInt8 → Except Diagnostic (Cursor × List UInt8)
  | 0, c, bytes => .ok (c, bytes)
  | fuel + 1, c, bytes =>
    match c.peek with
    | none => .ok (c, bytes)
    | some byte =>
      if p byte then do
        let (c, bytes) ← consumeNumberByte limits origin c bytes byte
        consumeWhile origin p fuel c bytes
      else .ok (c, bytes)

/-! ### Character classes -/

/-- `is_space`. -/
def isSpace (byte : UInt8) : Bool :=
  byte == 0x20 || byte == 0x09 || byte == 0x0b || byte == 0x0c || byte == 0x0a || byte == 0x0d

/-- `is_name_start`. -/
def isNameStart (byte : UInt8) : Bool := isAsciiAlphabetic byte || byte == 0x5f

/-- `is_name_continue`. -/
def isNameContinue (byte : UInt8) : Bool := isNameStart byte || isAsciiDigit byte

/-! ### Names -/

/-- The reserved words; `global` is one in Lua 5.5 only. -/
def keywords : List (String × Keyword) :=
  [("and", .kwAnd), ("break", .kwBreak), ("do", .kwDo), ("else", .kwElse), ("elseif", .kwElseIf),
    ("end", .kwEnd), ("false", .kwFalse), ("for", .kwFor), ("function", .kwFunction),
    ("goto", .kwGoto), ("if", .kwIf), ("in", .kwIn), ("local", .kwLocal), ("nil", .kwNil),
    ("not", .kwNot), ("or", .kwOr), ("repeat", .kwRepeat), ("return", .kwReturn),
    ("then", .kwThen), ("true", .kwTrue), ("until", .kwUntil), ("while", .kwWhile)]

/-- `keyword`. -/
def keyword (profile : LuaProfile) (name : List UInt8) : Option Keyword :=
  match keywords.find? (fun entry => entry.1.toUTF8.toList == name) with
  | some entry => some entry.2
  | none =>
    if "global".toUTF8.toList = name ∧ profile.rules.globalDeclarations = true then some .kwGlobal
    else none

/-- `scan_name`. -/
def scanName (c : Cursor) (tokens : List Token) : Except Diagnostic (Cursor × List Token) := do
  let origin := c.origin
  let (c, bytes) ← consumeWhile limits origin isNameContinue c.rest.length c []
  match keyword c.profile bytes with
  | some word => emit limits origin c tokens (.keyword word) none
  | none => emit limits origin c tokens .name (some (.name bytes))

/-! ### Numerals -/

/-- The digits of a hexadecimal integer, modulo `2^64`. -/
def hexInteger : List UInt8 → UInt64 → Except String UInt64
  | [], value => .ok value
  | byte :: rest, value =>
    match hexValue byte with
    | none => .error "十六進位 numeral 不合法"
    | some digit => hexInteger rest (value * 16 + UInt64.ofNat digit)

/-- The digits of a hexadecimal mantissa. -/
def hexMantissa (fl : FloatArith) :
    List UInt8 → FloatArith.HexState → Except String FloatArith.HexState
  | [], state => .ok state
  | byte :: rest, state =>
    if byte = 0x2e then
      if state.fractional then .error "十六進位小數點不合法"
      else hexMantissa fl rest { state with fractional := true }
    else
      match hexValue byte with
      | none => .error "十六進位 numeral 不合法"
      | some digit => hexMantissa fl rest (fl.hexStep state digit)

/-- A byte that makes a hexadecimal numeral a float. -/
def isHexFloatMark (byte : UInt8) : Bool := byte == 0x2e || byte == 0x70 || byte == 0x50

/-- A byte that makes a decimal numeral a float. -/
def isFloatMark (byte : UInt8) : Bool := byte == 0x2e || byte == 0x65 || byte == 0x45

/-- The mantissa and the exponent of a hexadecimal float. -/
def splitHexExponent (body : List UInt8) : Except String (List UInt8 × Int) :=
  match body.dropWhile (fun byte => !isHexExponentMark byte) with
  | [] => .ok (body, 0)
  | _ :: exponent =>
    match parseI32 exponent with
    | none => .error "十六進位 exponent 不合法"
    | some exponent => .ok (body.takeWhile (fun byte => !isHexExponentMark byte), exponent)

/-- `parse_number`. -/
def parseNumber (fl : FloatArith) (bytes : List UInt8) : Except String Number :=
  match fromUtf8 bytes with
  | none => .error "numeral 不是 ASCII"
  | some text =>
    if [0x30, 0x78] <+: text ∨ [0x30, 0x58] <+: text then
      let body := text.drop 2
      if body.any isHexFloatMark = false then do
        let value ← hexInteger body 0
        pure (.integer value.toInt64)
      else do
        let (mantissa, exponent) ← splitHexExponent body
        let state ← hexMantissa fl mantissa fl.hexStart
        let value := fl.mul state.value (fl.powi exponent)
        if value.isFinite then pure (.float value) else .error "十六進位浮點數超出範圍"
    else if text.any isFloatMark then
      match fl.parseF64 text with
      | none => .error "浮點 numeral 不合法"
      | some value => .ok (.float value)
    else
      match parseI64 text with
      | some value => .ok (.integer value)
      | none =>
        match fl.parseF64 text with
        | none => .error "整數 numeral 不合法"
        | some value => if value.isFinite then .ok (.float value) else .error "整數超出範圍"

/-- Take the next byte if there is one that satisfies the condition. -/
def consumeIf (origin : Origin) (p : UInt8 → Bool) (c : Cursor) (bytes : List UInt8) :
    Except Diagnostic (Cursor × List UInt8) :=
  match c.peek with
  | none => .ok (c, bytes)
  | some byte => if p byte then consumeNumberByte limits origin c bytes byte else .ok (c, bytes)

/-- Digits, and behind a point that is not the start of `..` more digits. -/
def consumeMantissa (origin : Origin) (digit : UInt8 → Bool) (c : Cursor) (bytes : List UInt8) :
    Except Diagnostic (Cursor × List UInt8) := do
  let (c, bytes) ← consumeWhile limits origin digit c.rest.length c bytes
  if c.peek = some 0x2e ∧ c.peekN 1 ≠ some 0x2e then
    let (c, bytes) ← consumeNumberByte limits origin c bytes 0x2e
    consumeWhile limits origin digit c.rest.length c bytes
  else pure (c, bytes)

/-- An exponent: the marker, an optional sign and at least one digit. -/
def consumeExponent (origin : Origin) (marker : UInt8 → Bool) (message : String) (c : Cursor)
    (bytes : List UInt8) : Except Diagnostic (Cursor × List UInt8) := do
  if c.peek.any marker then
    let (c, bytes) ← consumeIf limits origin marker c bytes
    let (c, bytes) ← consumeIf limits origin (fun byte => byte == 0x2b || byte == 0x2d) c bytes
    let exponentStart := bytes.length
    let (c, bytes) ← consumeWhile limits origin isAsciiDigit c.rest.length c bytes
    if bytes.length = exponentStart then lexError c origin message else pure (c, bytes)
  else pure (c, bytes)

/-- The bytes of a hexadecimal numeral behind `0x`; the digits on both sides of the point are
    counted. -/
def consumeHex (origin : Origin) (c : Cursor) (bytes : List UInt8) :
    Except Diagnostic (Cursor × List UInt8) := do
  let (c, bytes) ← consumeIf limits origin (fun _ => true) c bytes
  let (c, bytes) ← consumeIf limits origin (fun _ => true) c bytes
  let (c, bytes) ← consumeMantissa limits origin isAsciiHexdigit c bytes
  if (bytes.drop 2).countP isAsciiHexdigit = 0 then lexError c origin "十六進位 numeral 缺少數字"
  else consumeExponent limits origin isHexExponentMark "十六進位 exponent 不合法" c bytes

/-- The bytes of a decimal numeral. -/
def consumeDecimal (origin : Origin) (c : Cursor) (bytes : List UInt8) :
    Except Diagnostic (Cursor × List UInt8) := do
  let (c, bytes) ← consumeMantissa limits origin isAsciiDigit c bytes
  consumeExponent limits origin isExponentMark "decimal exponent 不合法" c bytes

/-- The bytes of a numeral. -/
def consumeNumeral (origin : Origin) (c : Cursor) : Except Diagnostic (Cursor × List UInt8) :=
  if c.peek = some 0x30 ∧ (c.peekN 1 = some 0x78 ∨ c.peekN 1 = some 0x58) then
    consumeHex limits origin c []
  else consumeDecimal limits origin c []

/-- `scan_number`. -/
def scanNumber (fl : FloatArith) (c : Cursor) (tokens : List Token) :
    Except Diagnostic (Cursor × List Token) := do
  let origin := c.origin
  let (c, bytes) ← consumeNumeral limits origin c
  if c.peek.any isNameStart then
    let (c, _) ← consumeWhile limits origin isNameContinue c.rest.length c bytes
    lexError c origin "numeral 不可黏接識別字"
  else
    match parseNumber fl bytes with
    | .error message => lexError c origin message
    | .ok (.integer value) =>
      emit limits origin c tokens .integer (some (.integer (.integer value)))
    | .ok (.float value) => emit limits origin c tokens .float (some (.float (.float value)))

/-! ### Strings -/

/-- The rounds of `scan_unicode_escape`: digits up to the closing brace, at most `0x7fffffff`. -/
def unicodeDigits (origin : Origin) :
    Nat → Cursor → Nat → Bool → Except Diagnostic (Cursor × Nat)
  | 0, c, _, _ => lexError c origin "Unicode escape 未結束"
  | fuel + 1, c, value, hasDigits =>
    match c.peek with
    | none => lexError c origin "Unicode escape 未結束"
    | some byte =>
      if byte = 0x7d then
        if hasDigits then do
          let c ← advance limits origin c
          pure (c, value)
        else lexError c origin "Unicode escape 缺少十六進位數字"
      else
        match hexValue byte with
        | none => lexError c origin "Unicode escape 格式不合法"
        | some digit =>
          -- the overflow check of `u32` is implied by the bound on the value
          if value * 16 + digit > 0x7fffffff then
            lexError c origin "Unicode escape 超出 Lua 範圍"
          else do
            let c ← advance limits origin c
            unicodeDigits origin fuel c (value * 16 + digit) true

/-- The length and the marker bits of the first byte of a Unicode escape. -/
def unicodeLength (value : Nat) : Option (Nat × UInt8) :=
  if value ≤ 0x7f then some (1, 0x00)
  else if value ≤ 0x7ff then some (2, 0xc0)
  else if value ≤ 0xffff then some (3, 0xe0)
  else if value ≤ 0x1fffff then some (4, 0xf0)
  else if value ≤ 0x3ffffff then some (5, 0xf8)
  else if value ≤ 0x7fffffff then some (6, 0xfc)
  else none

/-- The continuation bytes, the most significant bits first. -/
def pushContinuations (origin : Origin) (c : Cursor) (value : Nat) :
    Nat → List UInt8 → Except Diagnostic (List UInt8)
  | 0, bytes => .ok bytes
  | shift + 1, bytes => do
    let byte := 0x80 ||| UInt8.ofNat ((value >>> (shift * 6)) &&& 0x3f)
    let bytes ← pushLiteralByte limits origin c bytes byte
    pushContinuations origin c value shift bytes

/-- `push_unicode_escape_bytes`. -/
def pushUnicodeEscapeBytes (origin : Origin) (c : Cursor) (bytes : List UInt8) (value : Nat) :
    Except Diagnostic (List UInt8) :=
  match unicodeLength value with
  | none => lexError c origin "Unicode escape 超出 Lua 範圍"
  | some (length, marker) => do
    let first := marker ||| UInt8.ofNat (value >>> ((length - 1) * 6))
    let bytes ← pushLiteralByte limits origin c bytes first
    pushContinuations limits origin c value (length - 1) bytes

/-- `scan_unicode_escape`, from the `u`. -/
def scanUnicodeEscape (origin : Origin) (c : Cursor) (bytes : List UInt8) :
    Except Diagnostic (Cursor × List UInt8) := do
  let c ← advance limits origin c
  if c.peek ≠ some 0x7b then lexError c origin "Unicode escape 格式不合法"
  else
    let c ← advance limits origin c
    let (c, value) ← unicodeDigits limits origin c.rest.length c 0 false
    let bytes ← pushUnicodeEscapeBytes limits origin c bytes value
    pure (c, bytes)

/-- At most `n` decimal digits of an escape, whose value stays a byte. -/
def decimalEscape (origin : Origin) : Nat → Cursor → Nat → Except Diagnostic (Cursor × Nat)
  | 0, c, value => .ok (c, value)
  | n + 1, c, value =>
    match c.peek with
    | none => .ok (c, value)
    | some byte =>
      if isAsciiDigit byte then
        if value * 10 + digitValue byte > 255 then lexError c origin "十進位 escape 超過 255"
        else do
          let c ← advance limits origin c
          decimalEscape origin n c (value * 10 + digitValue byte)
      else .ok (c, value)

/-- The hexadecimal digit at the cursor. -/
def hexEscapeDigit (origin : Origin) (c : Cursor) : Except Diagnostic Nat :=
  match c.peek.bind hexValue with
  | some digit => .ok digit
  | none => lexError c origin "十六進位 escape 不合法"

/-- The byte a one-letter escape stands for. -/
def simpleEscape (escape : UInt8) : Option UInt8 :=
  if escape = 0x61 then some 0x07
  else if escape = 0x62 then some 0x08
  else if escape = 0x66 then some 0x0c
  else if escape = 0x6e then some 0x0a
  else if escape = 0x72 then some 0x0d
  else if escape = 0x74 then some 0x09
  else if escape = 0x76 then some 0x0b
  else if escape = 0x5c ∨ escape = 0x27 ∨ escape = 0x22 then some escape
  else none

/-- An escape sequence of a short string, from the byte behind the backslash. -/
def scanEscape (origin : Origin) (c : Cursor) (bytes : List UInt8) (escape : UInt8) :
    Except Diagnostic (Cursor × List UInt8) :=
  match simpleEscape escape with
  | some byte => do
    let bytes ← pushLiteralByte limits origin c bytes byte
    let c ← advance limits origin c
    pure (c, bytes)
  | none =>
    if escape = 0x78 then do
      let c ← advance limits origin c
      let high ← hexEscapeDigit origin c
      let c ← advance limits origin c
      let low ← hexEscapeDigit origin c
      let bytes ← pushLiteralByte limits origin c bytes (UInt8.ofNat (high * 16 + low))
      let c ← advance limits origin c
      pure (c, bytes)
    else if escape = 0x7a then do
      let c ← advance limits origin c
      let c ← advanceWhile limits origin isSpace c.rest.length c
      pure (c, bytes)
    else if escape = 0x75 then scanUnicodeEscape limits origin c bytes
    else if isAsciiDigit escape then do
      let (c, value) ← decimalEscape limits origin 3 c 0
      let bytes ← pushLiteralByte limits origin c bytes (UInt8.ofNat value)
      pure (c, bytes)
    else if isLineBreak escape then do
      let bytes ← pushLiteralByte limits origin c bytes 0x0a
      let c ← advance limits origin c
      pure (c, bytes)
    else lexError c origin "短字串 escape 不合法"

/-- The rounds of `scan_short_string`, behind the opening quote. -/
def shortString (origin : Origin) (quote : UInt8) :
    Nat → Cursor → List UInt8 → Except Diagnostic (Cursor × List UInt8)
  | 0, c, _ => lexError c origin "短字串未結束"
  | fuel + 1, c, bytes =>
    match c.peek with
    | none => lexError c origin "短字串未結束"
    | some byte =>
      if byte = quote then do
        let c ← advance limits origin c
        pure (c, bytes)
      else if isLineBreak byte then lexError c origin "短字串含未轉義換行"
      else if byte ≠ 0x5c then do
        let bytes ← pushLiteralByte limits origin c bytes byte
        let c ← advance limits origin c
        shortString origin quote fuel c bytes
      else do
        let c ← advance limits origin c
        match c.peek with
        | none => lexError c origin "短字串 escape 未結束"
        | some escape =>
          let (c, bytes) ← scanEscape limits origin c bytes escape
          shortString origin quote fuel c bytes

/-- `scan_short_string`, at the opening quote. -/
def scanShortString (quote : UInt8) (c : Cursor) (tokens : List Token) :
    Except Diagnostic (Cursor × List Token) := do
  let origin := c.origin
  let c ← advance limits origin c
  let (c, bytes) ← shortString limits origin quote c.rest.length c []
  emit limits origin c tokens .string (some (.string bytes))

/-! ### Long brackets -/

/-- `long_opening_separator`: the number of equals signs, `none` for a plain bracket and an error
    for equals signs without a second bracket. -/
def longOpeningSeparator (c : Cursor) : Except Unit (Option Nat) :=
  if c.peek ≠ some 0x5b then .ok none
  else
    let equals := ((c.rest.drop 1).takeWhile (· == 0x3d)).length
    if c.peekN (equals + 1) = some 0x5b then .ok (some equals)
    else if equals > 0 then .error ()
    else .ok none

/-- `long_closing_separator`. -/
def longClosingSeparator (c : Cursor) (equals : Nat) : Bool :=
  c.peek == some 0x5d && (List.range equals).all (fun i => c.peekN (i + 1) == some 0x3d)
    && c.peekN (equals + 1) == some 0x5d

/-- The rounds of `scan_long_string`, behind the opening bracket. -/
def longString (origin : Origin) (equals : Nat) :
    Nat → Cursor → List UInt8 → Except Diagnostic (Cursor × List UInt8)
  | 0, c, _ => lexError c origin "long 字串未結束"
  | fuel + 1, c, bytes =>
    match c.peek with
    | none => lexError c origin "long 字串未結束"
    | some byte =>
      if byte = 0x5d ∧ longClosingSeparator c equals = true then do
        let c ← advanceBy limits origin (equals + 2) c
        pure (c, bytes)
      else do
        let bytes ← pushLiteralByte limits origin c bytes (if isLineBreak byte then 0x0a else byte)
        let c ← advance limits origin c
        longString origin equals fuel c bytes

/-- A line break right behind the opening bracket is skipped. -/
def skipLineBreak (origin : Origin) (c : Cursor) : Except Diagnostic Cursor :=
  if c.peek.any isLineBreak then advance limits origin c else .ok c

/-- `scan_long_string`. -/
def scanLongString (equals : Nat) (c : Cursor) (tokens : List Token) :
    Except Diagnostic (Cursor × List Token) := do
  let origin := c.origin
  let c ← advanceBy limits origin (equals + 2) c
  let c ← skipLineBreak limits origin c
  let (c, bytes) ← longString limits origin equals c.rest.length c []
  emit limits origin c tokens .string (some (.string bytes))

/-- The rounds of `scan_long_comment`, behind the opening bracket. -/
def longComment (origin : Origin) (equals : Nat) : Nat → Cursor → Except Diagnostic Cursor
  | 0, c => lexError c origin "long 註解未結束"
  | fuel + 1, c =>
    match c.peek with
    | none => lexError c origin "long 註解未結束"
    | some byte =>
      if byte = 0x5d ∧ longClosingSeparator c equals = true then
        advanceBy limits origin (equals + 2) c
      else do
        let c ← advance limits origin c
        longComment origin equals fuel c

/-- `scan_short_comment`, which also meets the long comments. -/
def scanShortComment (c : Cursor) : Except Diagnostic Cursor := do
  let origin := c.origin
  let c ← advanceBy limits origin 2 c
  match longOpeningSeparator c with
  | .ok (some equals) =>
    let c ← advanceBy limits origin (equals + 2) c
    longComment limits origin equals c.rest.length c
  | .ok none => advanceWhile limits origin (fun byte => !isLineBreak byte) c.rest.length c
  | .error () => lexError c c.origin "long delimiter 不合法"

/-! ### Symbols and the main loop -/

/-- The symbol at the cursor and the number of bytes it takes. -/
def symbolAt (c : Cursor) (first : UInt8) : Option (Symbol × Nat) :=
  if first = 0x2b then some (.plus, 1)
  else if first = 0x2d then some (.minus, 1)
  else if first = 0x2a then some (.star, 1)
  else if first = 0x2f then
    if c.peekN 1 = some 0x2f then some (.floorSlash, 2) else some (.slash, 1)
  else if first = 0x25 then some (.percent, 1)
  else if first = 0x5e then some (.caret, 1)
  else if first = 0x23 then some (.hash, 1)
  else if first = 0x26 then some (.ampersand, 1)
  else if first = 0x7c then some (.pipe, 1)
  else if first = 0x7e then
    if c.peekN 1 = some 0x3d then some (.notEqual, 2) else some (.tilde, 1)
  else if first = 0x3c then
    if c.peekN 1 = some 0x3d then some (.lessEqual, 2)
    else if c.peekN 1 = some 0x3c then some (.shiftLeft, 2)
    else some (.less, 1)
  else if first = 0x3e then
    if c.peekN 1 = some 0x3d then some (.greaterEqual, 2)
    else if c.peekN 1 = some 0x3e then some (.shiftRight, 2)
    else some (.greater, 1)
  else if first = 0x3d then
    if c.peekN 1 = some 0x3d then some (.equalEqual, 2) else some (.assign, 1)
  else if first = 0x28 then some (.openParen, 1)
  else if first = 0x29 then some (.closeParen, 1)
  else if first = 0x7b then some (.openBrace, 1)
  else if first = 0x7d then some (.closeBrace, 1)
  else if first = 0x5b then some (.openBracket, 1)
  else if first = 0x5d then some (.closeBracket, 1)
  else if first = 0x3b then some (.semicolon, 1)
  else if first = 0x3a then
    if c.peekN 1 = some 0x3a then some (.doubleColon, 2) else some (.colon, 1)
  else if first = 0x2c then some (.comma, 1)
  else if first = 0x2e then
    if c.peekN 1 = some 0x2e ∧ c.peekN 2 = some 0x2e then some (.vararg, 3)
    else if c.peekN 1 = some 0x2e then some (.concat, 2)
    else some (.dot, 1)
  else none

/-- `scan_symbol`. -/
def scanSymbol (first : UInt8) (c : Cursor) (tokens : List Token) :
    Except Diagnostic (Cursor × List Token) := do
  let origin := c.origin
  match symbolAt c first with
  | some (symbol, width) =>
    let c ← advanceBy limits origin width c
    emit limits origin c tokens (.symbol symbol) none
  | none =>
    let c ← advance limits origin c
    lexError c origin "未知詞法元素"

/-- One round of `scan`: the element that starts with the byte at the cursor. -/
def scanElement (fl : FloatArith) (byte : UInt8) (c : Cursor) (tokens : List Token) :
    Except Diagnostic (Cursor × List Token) :=
  if isSpace byte then do
    let c ← advance limits c.origin c
    pure (c, tokens)
  else if byte = 0x5b then
    match longOpeningSeparator c with
    | .ok (some equals) => scanLongString limits equals c tokens
    | .ok none => scanSymbol limits byte c tokens
    | .error () => do
      let origin := c.origin
      let c ← advance limits origin c
      lexError c origin "long delimiter 不合法"
  else if isNameStart byte then scanName limits c tokens
  else if isAsciiDigit byte ∨ (byte = 0x2e ∧ (c.peekN 1).any isAsciiDigit) then
    scanNumber limits fl c tokens
  else if byte = 0x27 ∨ byte = 0x22 then scanShortString limits byte c tokens
  else if byte = 0x2d ∧ c.peekN 1 = some 0x2d then do
    let c ← scanShortComment limits c
    pure (c, tokens)
  else scanSymbol limits byte c tokens

/-- The loop of `scan`. -/
def scanElements (fl : FloatArith) :
    Nat → Cursor → List Token → Except Diagnostic (Cursor × List Token)
  | 0, c, tokens => .ok (c, tokens)
  | fuel + 1, c, tokens =>
    match c.peek with
    | none => .ok (c, tokens)
    | some byte => do
      let (c, tokens) ← scanElement limits fl byte c tokens
      scanElements fl fuel c tokens

/-- `scan`: the elements of the input, then the end token. -/
def scan (fl : FloatArith) (c : Cursor) : Except Diagnostic LexedChunk := do
  let (c, tokens) ← scanElements limits fl c.rest.length c []
  let (c, tokens) ← emit limits c.origin c tokens .eof none
  pure ⟨c.profile, c.offset, tokens⟩

/-- `lex`. -/
def lex (fl : FloatArith) (input : List UInt8) (profile : LuaProfile) :
    Except Diagnostic LexedChunk :=
  if input.length > limits.maxSourceBytes then
    .error ⟨.compileLimit, ⟨0, 0⟩, ⟨1, 1⟩, ⟨1, 1⟩, "來源超過編譯限制"⟩
  else scan limits fl (.new input profile)

end Scanner

end RivetLua.Compiler.Lexer
