import RivetLua.Core.Value
import RivetLua.Lib.Check
import RivetLua.Stdlib.PatternRefinement
import RivetLua.Stdlib.Utf8

namespace RivetLua.Stdlib.Gsub

open RivetLua.Core
open StateProg
open Pattern (Capture Found Matcher)
open Utf8 (maxSize)

/-!
# Stdlib — the replacements of `string.gsub`

`gsub` collects its result in a buffer.  A replacement text is gone over twice: once for the length
of what it stands for, and, when that much has been reserved, once more to append it.  Here an index,
a slice or a difference outside its bounds panics, and a program keeps what it has appended when it
stops.  The ledger's answers are arguments: any of them may refuse.

* `GsubState.textOutputLen`, `GsubState.appendText` — the two passes over a replacement text;
* `GsubState.answerLen`, `GsubState.appendAnswer` — the answer of a function or a table;
* `GsubState.advance`, `GsubState.finish` — one turn of the driver, and the result.
-/

/-- The errors of `gsub`; `memory` is a refusal of the ledger. -/
inductive GsubError where
  | pattern | argument | overflow | memory | panicked
  deriving DecidableEq, Repr

/-- `Replacement`. -/
inductive Replacement where
  | text (bytes : List UInt8)
  | function (value : Value)
  | table (value : Value)
  deriving DecidableEq, Repr

/-- `Buffer`: its bytes and the size it is charged for. -/
structure Buffer where
  bytes : List UInt8
  charge : Nat
  deriving DecidableEq, Repr

/-- `GSubState`; `original` is the first of its arguments. -/
structure GsubState where
  original : Value
  source : List UInt8
  pattern : List UInt8
  output : Buffer
  replacement : Replacement
  cursor : Nat
  last : Option Nat
  count : Int
  maximum : Int
  changed : Bool
  anchored : Bool
  awaiting : Option (Nat × Nat)
  deriving DecidableEq, Repr

/-- A program over the state of a call. -/
abbrev Run (α : Type) := Prog GsubState GsubError α

/-! ### Indices, slices and sums -/

/-- `bytes[index]`. -/
def readAt (bytes : List UInt8) (index : Nat) : Except GsubError UInt8 :=
  Check.some? bytes[index]? .panicked

/-- `bytes[first..last]`. -/
def slice (bytes : List UInt8) (first last : Nat) : Except GsubError (List UInt8) :=
  if first ≤ last ∧ last ≤ bytes.length then .ok ((bytes.drop first).take (last - first))
  else .error .panicked

/-- `a - b` on `usize`. -/
def minus (a b : Nat) : Except GsubError Nat := if b ≤ a then .ok (a - b) else .error .panicked

/-- `checked_add` on `usize`. -/
def checkedAdd (a b : Nat) : Except GsubError Nat :=
  if a + b < 2 ^ 64 then .ok (a + b) else .error .overflow

/-- The decimal digits of a number. -/
def decimal (n : Nat) : List UInt8 := (Nat.toDigits 10 n).map fun digit => digit.toNat.toUInt8

/-- `basic_number_bytes` of the place behind `first`, which has to be an integer. -/
def positionBytes (first : Nat) : Except GsubError (List UInt8) :=
  if first + 1 < 2 ^ 63 then .ok (decimal (first + 1)) else .error .overflow

/-! ### The length of a replacement -/

/-- `GSubState::capture_range`. -/
def captureRange (found : Found) (index : Nat) : Except GsubError (Nat × Nat × Bool) :=
  if index = 0 ∨ (index = 1 ∧ found.captures.length = 0) then .ok (found.start, found.stop, false)
  else do
    let capture ← Check.some? found.captures[index - 1]? .pattern
    let stop ← Check.some? capture.stop .pattern
    .ok (capture.start, stop, capture.position)

/-- What an escape adds to the length. -/
def markerLen (found : Found) (marker : UInt8) : Except GsubError Nat :=
  if marker = 0x25 then .ok 1
  else if isAsciiDigit marker then do
    let (first, last, position) ← captureRange found (marker - 0x30).toNat
    if position then do
      let number ← positionBytes first
      .ok number.length
    else minus last first
  else .error .pattern

/-- The loop of `GSubState::text_output_len`. -/
def lengthLoop (found : Found) (text : List UInt8) : Nat → Nat → Nat → Except GsubError Nat
  | 0, _, length => .ok length
  | fuel + 1, cursor, length =>
    if cursor < text.length then do
      let byte ← readAt text cursor
      if byte ≠ 0x25 then do
        let length ← checkedAdd length 1
        lengthLoop found text fuel (cursor + 1) length
      else do
        let marker ← Check.some? text[cursor + 1]? .pattern
        let extra ← markerLen found marker
        let length ← checkedAdd length extra
        lengthLoop found text fuel (cursor + 2) length
    else .ok length

namespace GsubState

/-- `GSubState::text_output_len`. -/
def textOutputLen (state : GsubState) (found : Found) : Except GsubError Nat :=
  match state.replacement with
  | .text text => lengthLoop found text text.length 0 0
  | _ => .error .argument

/-! ### Appending -/

/-- `extend_from_slice` on the output. -/
def push (bytes : List UInt8) (state : GsubState) : GsubState :=
  { state with output := { state.output with bytes := state.output.bytes ++ bytes } }

/-- `Buffer::reserve_extra` of the output. -/
def reserveExtra (granted : Bool) (additional : Nat) : Run Unit := fun state =>
  match checkedAdd state.output.bytes.length additional with
  | .error e => (.error e, state)
  | .ok needed =>
    if needed ≤ state.output.charge then (.ok (), state)
    else if granted then
      let doubled := max state.output.charge 1 * 2
      let next := max (if doubled < 2 ^ 64 then doubled else needed) needed
      (.ok (), { state with output := { state.output with charge := next } })
    else (.error .memory, state)

/-- `Buffer::append` on the output. -/
def appendBytes (granted : Bool) (bytes : List UInt8) : Run Unit := do
  reserveExtra granted bytes.length
  Prog.modify (push bytes)

/-- The test against the greatest length of a string. -/
def requireRoom (profile : LuaProfile) (extra : Nat) : Run Unit := do
  let state ← Prog.get
  let next ← Prog.ofExcept (checkedAdd state.output.bytes.length extra)
  if next > maxSize profile then Prog.fail .argument else pure ()

/-- `GSubState::append`. -/
def append (profile : LuaProfile) (granted : Bool) (bytes : List UInt8) : Run Unit := do
  requireRoom profile bytes.length
  appendBytes granted bytes

/-- What an escape appends. -/
def copyMarker (found : Found) (marker : UInt8) : Run Unit :=
  if marker = 0x25 then Prog.modify (push [0x25])
  else if isAsciiDigit marker then do
    let (first, last, position) ← Prog.ofExcept (captureRange found (marker - 0x30).toNat)
    if position then do
      let number ← Prog.ofExcept (positionBytes first)
      Prog.modify (push number)
    else do
      let state ← Prog.get
      let bytes ← Prog.ofExcept (slice state.source first last)
      Prog.modify (push bytes)
  else Prog.fail .pattern

/-- The loop of `GSubState::append_text`; the bytes from `literalStart` to `cursor` are still to be
    copied. -/
def copyLoop (found : Found) (text : List UInt8) : Nat → Nat → Nat → Run Unit
  | 0, _, literalStart => do
    let literal ← Prog.ofExcept (slice text literalStart text.length)
    Prog.modify (push literal)
  | fuel + 1, cursor, literalStart =>
    if cursor < text.length then do
      let byte ← Prog.ofExcept (readAt text cursor)
      if byte ≠ 0x25 then copyLoop found text fuel (cursor + 1) literalStart
      else do
        let literal ← Prog.ofExcept (slice text literalStart cursor)
        Prog.modify (push literal)
        let marker ← Prog.ofExcept (Check.some? text[cursor + 1]? .pattern)
        copyMarker found marker
        copyLoop found text fuel (cursor + 2) (cursor + 2)
    else do
      let literal ← Prog.ofExcept (slice text literalStart text.length)
      Prog.modify (push literal)

/-- `GSubState::append_text`. -/
def appendText (profile : LuaProfile) (granted : Bool) (found : Found) : Run Unit := do
  let state ← Prog.get
  let outputLen ← Prog.ofExcept (state.textOutputLen found)
  requireRoom profile outputLen
  reserveExtra granted outputLen
  match state.replacement with
  | .text text => do
    copyLoop found text text.length 0 0
    Prog.modify fun state => { state with changed := true }
  | _ => Prog.fail .argument

/-! ### Answers -/

/-- The answers that leave the match as it is. -/
def isFalsy : Value → Bool
  | .nil | .boolean false => true
  | _ => false

section Answers

variable (withBytes : Value → Except GsubError (List UInt8))

/-- `GSubState::answer_len`. -/
def answerLen (state : GsubState) (value : Value) : Except GsubError Nat :=
  if isFalsy value then do
    let (first, last) ← Check.some? state.awaiting .pattern
    minus last first
  else do
    let bytes ← withBytes value
    .ok bytes.length

/-- `awaiting.take()`. -/
def takeAwaiting : Run (Nat × Nat) := do
  let state ← Prog.get
  let range ← Prog.ofOption .pattern state.awaiting
  Prog.modify fun state => { state with awaiting := none }
  pure range

/-- `GSubState::append_answer`; the bytes of the answer are owned before they are appended. -/
def appendAnswer (profile : LuaProfile) (owned granted : Bool) (value : Value) : Run Unit := do
  let (first, last) ← takeAwaiting
  if isFalsy value then do
    let state ← Prog.get
    let text ← Prog.ofExcept (slice state.source first last)
    append profile granted text
  else do
    let bytes ← Prog.ofExcept (withBytes value)
    if owned then do
      append profile granted bytes
      Prog.modify fun state => { state with changed := true }
    else Prog.fail .memory

end Answers

/-! ### The driver -/

/-- One turn of the driver with what it meets: no match at the cursor, a match whose text is
    appended, or a match with the answer to it. -/
inductive Turn where
  | noMatch (granted : Bool)
  | text (found : Found) (granted : Bool)
  | answer (found : Found) (value : Value) (owned granted : Bool)
  deriving DecidableEq, Repr

/-- The match of a turn. -/
def Turn.found? : Turn → Option Found
  | .noMatch _ => none
  | .text found _ => some found
  | .answer found _ _ _ => some found

/-- The turn puts something in the place of its match. -/
def Turn.replaces : Turn → Bool
  | .noMatch _ => false
  | .text _ _ => true
  | .answer _ value _ _ => !isFalsy value

/-- The bookkeeping of a match. -/
def countMatch (found : Found) : Run Unit := fun state =>
  if state.count + 1 < 2 ^ 63 then
    (.ok (), { state with
      count := state.count + 1
      cursor := found.stop
      last := some found.stop
      maximum := if state.anchored then state.count + 1 else state.maximum })
  else (.error .overflow, state)

/-- The branch without a match: copy a byte, or end behind the last one. -/
def copyByte (profile : LuaProfile) (granted : Bool) : Run Unit := do
  let state ← Prog.get
  if state.cursor < state.source.length then do
    let byte ← Prog.ofExcept (readAt state.source state.cursor)
    append profile granted [byte]
    Prog.modify fun state => { state with
      cursor := state.cursor + 1
      maximum := if state.anchored then state.count else state.maximum }
  else Prog.modify fun state => { state with maximum := state.count }

/-- One turn of `advance_string_gsub`, from one search to the next. -/
def advance (withBytes : Value → Except GsubError (List UInt8)) (profile : LuaProfile) :
    Turn → Run Unit
  | .noMatch granted => copyByte profile granted
  | .text found granted => do
    countMatch found
    appendText profile granted found
  | .answer found value owned granted => do
    countMatch found
    Prog.modify fun state => { state with awaiting := some (found.start, found.stop) }
    appendAnswer withBytes profile owned granted value

/-- The result of a call: the subject itself, the text of a number that was the subject, or the
    string that was built. -/
inductive GsubResult where
  | kept (original : Value)
  | converted (bytes : List UInt8)
  | built (bytes : List UInt8)
  deriving DecidableEq, Repr

/-- The subject is a number. -/
def isNumber : Value → Bool
  | .integer _ | .float _ => true
  | _ => false

/-- `vm.allocate_byte_string` and the vector of the results, which the ledger may refuse. -/
def allocate (allocated : Bool) (result : GsubResult) : Run GsubResult :=
  if allocated then pure result else Prog.fail .memory

/-- The first result: the subject when nothing has changed, else what was built. -/
def buildResult (profile : LuaProfile) (granted allocated : Bool) : Run GsubResult := do
  let state ← Prog.get
  if state.changed then do
    let last ← Prog.ofExcept (slice state.source state.cursor state.source.length)
    requireRoom profile last.length
    appendBytes granted last
    let state ← Prog.get
    allocate allocated (.built state.output.bytes)
  else if isNumber state.original then allocate allocated (.converted state.source)
  else pure (.kept state.original)

/-- `GSubState::finish`; the count, which is the second result, is left out. -/
def finish (profile : LuaProfile) (granted allocated returned : Bool) : Run GsubResult := do
  let result ← buildResult profile granted allocated
  if returned then pure result else Prog.fail .memory

/-- `GSubState::new` behind the reading of its arguments. -/
def new (original : Value) (source pattern : List UInt8) (replacement : Replacement)
    (maximum : Int) : GsubState where
  original := original
  source := source
  pattern := pattern
  output := ⟨[], 0⟩
  replacement := replacement
  cursor := 0
  last := none
  count := 0
  maximum := maximum
  changed := false
  anchored := pattern.head? == some 0x5e
  awaiting := none

end GsubState

end RivetLua.Stdlib.Gsub
