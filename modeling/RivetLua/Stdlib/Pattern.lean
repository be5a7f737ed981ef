import RivetLua.Core.NumberText
import RivetLua.Lib.Prog

namespace RivetLua.Stdlib.Pattern

open RivetLua.Core
open StateProg

/-!
# Stdlib — the pattern matcher

The matcher follows the pattern from left to right and calls itself where it may have to come back:
after an optional item and after each candidate of a repetition.  It counts its steps and its
depth, and stops when either reaches its limit.

A place in the pattern is the part of the pattern that starts there, a place in the subject its
index.  The captures are those up to `count`: entries behind it are never read.

* `Matcher.classEnd`, `Matcher.bracket`, `Matcher.single` — one character of the subject;
* `Matcher.matchAt` — the pattern from one place of the subject on;
* `Matcher.search`, `Matcher.«at»` — the places of the subject that are tried.
-/

/-- `PatternError`. -/
inductive PatternError where
  | malformed | tooComplex | exhausted
  deriving DecidableEq, Repr

/-- `Capture`: a capture that is still open has no end. -/
structure Capture where
  start : Nat
  stop : Option Nat
  position : Bool
  deriving DecidableEq, Repr

/-- `Found`. -/
structure Found where
  start : Nat
  stop : Nat
  captures : List Capture
  deriving DecidableEq, Repr

/-- What a matcher is made for; the steps taken so far are the state of its programs. -/
structure Matcher where
  source : List UInt8
  pattern : List UInt8
  limit : Nat
  deriving DecidableEq, Repr

/-- A program of the matcher: it counts steps, also when it stops. -/
abbrev Run (α : Type) := Prog Nat PatternError α

/-! ### Characters -/

/-- `u8::is_ascii_graphic`. -/
def isGraphic (byte : UInt8) : Bool := 0x21 ≤ byte && byte ≤ 0x7e

/-- `u8::is_ascii_lowercase`. -/
def isLowercase (byte : UInt8) : Bool := 0x61 ≤ byte && byte ≤ 0x7a

/-- `u8::is_ascii_uppercase`. -/
def isUppercase (byte : UInt8) : Bool := 0x41 ≤ byte && byte ≤ 0x5a

/-- `u8::is_ascii_alphanumeric`. -/
def isAlphanumeric (byte : UInt8) : Bool := isAsciiAlphabetic byte || isAsciiDigit byte

/-- `u8::is_ascii_punctuation`. -/
def isPunctuation (byte : UInt8) : Bool := isGraphic byte && !isAlphanumeric byte

/-- The bytes `%s` stands for. -/
def isSpace (byte : UInt8) : Bool :=
  byte == 0x09 || byte == 0x0a || byte == 0x0b || byte == 0x0c || byte == 0x0d || byte == 0x20

/-- `u8::to_ascii_lowercase`. -/
def toLowercase (byte : UInt8) : UInt8 := if isUppercase byte then byte + 0x20 else byte

/-- The class a letter stands for. -/
def letterClass (byte : UInt8) : UInt8 → Option Bool
  | 0x61 => some (isAsciiAlphabetic byte)
  | 0x63 => some (isAsciiControl byte)
  | 0x64 => some (isAsciiDigit byte)
  | 0x67 => some (isGraphic byte)
  | 0x6c => some (isLowercase byte)
  | 0x70 => some (isPunctuation byte)
  | 0x73 => some (isSpace byte)
  | 0x75 => some (isUppercase byte)
  | 0x77 => some (isAlphanumeric byte)
  | 0x78 => some (isAsciiHexdigit byte)
  | 0x7a => some (byte == 0)
  | _ => none

/-- `Matcher::class`: what `%symbol` stands for; an upper-case letter is the complement. -/
def inClass (byte symbol : UInt8) : Bool :=
  match letterClass byte (toLowercase symbol) with
  | none => byte == symbol
  | some hit => if isLowercase symbol then hit else !hit

/-! ### Captures -/

/-- The last capture that is open. -/
def lastOpen (captures : List Capture) : Option Nat :=
  (List.range captures.length).reverse.find? fun index =>
    captures[index]?.any fun capture => capture.stop.isNone

/-- Close a capture at a place of the subject. -/
def closeAt (captures : List Capture) (index s : Nat) : List Capture :=
  captures.modify index fun capture => { capture with stop := some s }

namespace Matcher

variable (m : Matcher)

/-- `Matcher::step`. -/
def step : Run Unit := fun steps =>
  if steps ≥ m.limit then (.error .exhausted, steps) else (.ok (), steps + 1)

/-! ### One character -/

/-- The search for the end of a set, from behind its first bracket. -/
def classEndLoop : Nat → List UInt8 → Run (List UInt8)
  | 0, _ => Prog.fail .malformed
  | fuel + 1, cursor => do
    m.step
    match cursor with
    | [] => Prog.fail .malformed
    | byte :: cursor =>
      let cursor := if byte = 0x25 then cursor.drop 1 else cursor
      if cursor.head? = some 0x5d then pure (cursor.drop 1) else classEndLoop fuel cursor

/-- `Matcher::class_end`: the pattern behind a class. -/
def classEnd (p : List UInt8) : Run (List UInt8) := do
  m.step
  match p with
  | [] => Prog.fail .malformed
  | byte :: rest =>
    if byte = 0x25 then
      if rest = [] then Prog.fail .malformed else pure (rest.drop 1)
    else if byte = 0x5b then
      let cursor := if rest.head? = some 0x5e then rest.drop 1 else rest
      m.classEndLoop (cursor.length + 1) cursor
    else pure rest

/-- Whether the first item of a set has a byte, and the items behind it: an escaped class, a range
    or a byte. -/
def setItem (byte : UInt8) : List UInt8 → Bool × List UInt8
  | [] => (false, [])
  | 0x25 :: symbol :: rest => (inClass byte symbol, rest)
  | low :: 0x2d :: high :: rest => (decide (low ≤ byte ∧ byte ≤ high), rest)
  | candidate :: rest => (byte == candidate, rest)

/-- The loop of `Matcher::bracket` over the bytes between the brackets. -/
def bracketLoop (byte : UInt8) (positive : Bool) : Nat → List UInt8 → Run Bool
  | 0, _ => pure (!positive)
  | fuel + 1, set =>
    if set = [] then pure (!positive)
    else do
      m.step
      let (hit, rest) := setItem byte set
      if hit then pure positive else bracketLoop byte positive fuel rest

/-- The bytes between the brackets of a set that starts at `start` and ends before `stop`. -/
def setBytes (start stop : List UInt8) : List UInt8 :=
  (start.drop 1).take (start.length - stop.length - 2)

/-- `Matcher::bracket`. -/
def bracket (byte : UInt8) (start stop : List UInt8) : Run Bool :=
  let set := setBytes start stop
  if set.head? = some 0x5e then m.bracketLoop byte false (set.length - 1) (set.drop 1)
  else m.bracketLoop byte true set.length set

/-- `Matcher::single`. -/
def single (s : Nat) (p stop : List UInt8) : Run Bool := do
  m.step
  match m.source[s]? with
  | none => pure false
  | some byte =>
    match p with
    | [] => pure false
    | first :: rest =>
      if first = 0x2e then pure true
      else if first = 0x25 then pure (rest.head?.any (inClass byte))
      else if first = 0x5b then m.bracket byte p stop
      else pure (byte == first)

/-! ### The parts of `match_at`

`again` goes on with the loop, `enter` is a call of `match_at` one level deeper. -/

/-- The result of a run: the end of the match, and the captures it has left, which a run that
    found nothing may have changed. -/
abbrev Outcome := Option Nat × List Capture

section Parts

variable (again enter : Nat → List UInt8 → List Capture → Run Outcome)

/-- The branch of an opening parenthesis. -/
def openCapture (s : Nat) (rest : List UInt8) (captures : List Capture) : Run Outcome :=
  if captures.length = 32 then Prog.fail .malformed
  else if rest.head? = some 0x29 then again s (rest.drop 1) (captures ++ [⟨s, some s, true⟩])
  else again s rest (captures ++ [⟨s, none, false⟩])

/-- The branch of a closing parenthesis. -/
def closeCapture (s : Nat) (rest : List UInt8) (captures : List Capture) : Run Outcome :=
  match lastOpen captures with
  | none => Prog.fail .malformed
  | some index => again s rest (closeAt captures index s)

/-- The loop of `%b` over the subject behind its first byte. -/
def balanceLoop (opening closing : UInt8) : List UInt8 → Nat → Nat → Run (Option Nat)
  | [], _, _ => pure none
  | byte :: rest, level, s => do
    m.step
    if byte = closing then
      if level = 1 then pure (some (s + 1))
      else balanceLoop opening closing rest (level - 1) (s + 1)
    else if byte = opening then balanceLoop opening closing rest (level + 1) (s + 1)
    else balanceLoop opening closing rest level (s + 1)

/-- The branch of `%b`. -/
def balance (s : Nat) (rest : List UInt8) (captures : List Capture) : Run Outcome :=
  match rest with
  | opening :: closing :: rest =>
    if m.source[s]? ≠ some opening then pure (none, captures)
    else do
      match ← m.balanceLoop opening closing (m.source.drop (s + 1)) 1 (s + 1) with
      | none => pure (none, captures)
      | some s => again s rest captures
  | _ => Prog.fail .malformed

/-- The branch of `%f`: the second test is made only when the first one fails. -/
def frontier (s : Nat) (set : List UInt8) (captures : List Capture) : Run Outcome :=
  if set.head? ≠ some 0x5b then Prog.fail .malformed
  else do
    let stop ← m.classEnd set
    let previous := if s = 0 then 0 else m.source.getD (s - 1) 0
    if ← m.bracket previous set stop then pure (none, captures)
    else if ← m.bracket (m.source.getD s 0) set stop then again s stop captures
    else pure (none, captures)

/-- The comparison of a back reference, byte by byte. -/
def sameBytes : Nat → Nat → Nat → Run Bool
  | 0, _, _ => pure true
  | length + 1, s, start => do
    m.step
    if m.source[s]? ≠ m.source[start]? then pure false else sameBytes length (s + 1) (start + 1)

/-- The branch of a back reference. -/
def backReference (code : UInt8) (s : Nat) (rest : List UInt8) (captures : List Capture) :
    Run Outcome :=
  if code < 0x31 then Prog.fail .malformed
  else
    match captures[(code - 0x31).toNat]? with
    | none => Prog.fail .malformed
    | some capture =>
      match capture.stop with
      | none => Prog.fail .malformed
      | some stop =>
        if capture.position then pure (none, captures)
        else if stop < capture.start then Prog.fail .malformed
        else if s + (stop - capture.start) > m.source.length then pure (none, captures)
        else do
          if ← m.sameBytes (stop - capture.start) s capture.start then
            again (s + (stop - capture.start)) rest captures
          else pure (none, captures)

/-- The loop of `-`: as few characters as possible. -/
def shortest (p stop rest : List UInt8) (captures : List Capture) : Nat → Nat → Run Outcome
  | 0, _ => pure (none, captures)
  | fuel + 1, candidate => do
    match ← enter candidate rest captures with
    | (some found, captures) => pure (some found, captures)
    | (none, _) =>
      if ← m.single candidate p stop then do
        m.step
        shortest p stop rest captures fuel (candidate + 1)
      else pure (none, captures)

/-- The characters a repetition can take. -/
def longestRun (p stop : List UInt8) : Nat → Nat → Run Nat
  | 0, last => pure last
  | fuel + 1, last => do
    if ← m.single last p stop then longestRun p stop fuel (last + 1) else pure last

/-- The candidates `first`, …, `first + n - 1` of a repetition, the last one first. -/
def longest (rest : List UInt8) (captures : List Capture) (first : Nat) : Nat → Run Outcome
  | 0 => pure (none, captures)
  | n + 1 => do
    m.step
    match ← enter (first + n) rest captures with
    | (some found, captures) => pure (some found, captures)
    | (none, _) => longest rest captures first n

/-- The loops of `*` and `+`. -/
def greedy (p stop rest : List UInt8) (captures : List Capture) (first : Nat) : Run Outcome := do
  let last ← m.longestRun p stop (m.source.length + 1) first
  m.longest enter rest captures first (last + 1 - first)

/-- The branch of `?`. -/
def optional (matched : Bool) (s : Nat) (rest : List UInt8) (captures : List Capture) :
    Run Outcome :=
  if matched then do
    match ← enter (s + 1) rest captures with
    | (some found, captures) => pure (some found, captures)
    | (none, _) => again s rest captures
  else again s rest captures

/-- The branch of a class with what may follow it. -/
def repetition (s : Nat) (p : List UInt8) (captures : List Capture) : Run Outcome := do
  let stop ← m.classEnd p
  let matched ← m.single s p stop
  match stop with
  | 0x3f :: rest => optional again enter matched s rest captures
  | 0x2a :: rest => m.greedy enter p stop rest captures s
  | 0x2b :: rest =>
    if matched then m.greedy enter p stop rest captures (s + 1) else pure (none, captures)
  | 0x2d :: rest => m.shortest enter p stop rest captures (m.source.length + 1) s
  | _ => if matched then again (s + 1) stop captures else pure (none, captures)

/-- The branch of an escape. -/
def escape (s : Nat) (p rest : List UInt8) (captures : List Capture) : Run Outcome :=
  match rest with
  | [] => Prog.fail .malformed
  | code :: rest =>
    if code = 0x62 then m.balance again s rest captures
    else if code = 0x66 then m.frontier again s rest captures
    else if isAsciiDigit code then m.backReference again code s rest captures
    else m.repetition again enter s p captures

/-- One round of the loop of `match_at`. -/
def round (s : Nat) (p : List UInt8) (captures : List Capture) : Run Outcome := do
  m.step
  match p with
  | [] => pure (some s, captures)
  | byte :: rest =>
    if byte = 0x28 then openCapture again s rest captures
    else if byte = 0x29 then closeCapture again s rest captures
    else if byte = 0x24 ∧ rest = [] then
      pure (if s = m.source.length then some s else none, captures)
    else if byte = 0x25 then m.escape again enter s p rest captures
    else m.repetition again enter s p captures

end Parts

/-- The depth at which `match_at` gives up. -/
def maxDepth : Nat := 200

/-- The loop of `match_at`.  Every round and every call leaves a shorter pattern, so as many rounds
    as the pattern has bytes, and one for its end, are enough. -/
def matchLoop : Nat → Nat → Nat → List UInt8 → List Capture → Run Outcome
  | 0, _, _, _, captures => pure (none, captures)
  | fuel + 1, depth, s, p, captures =>
    m.round (matchLoop fuel depth)
      (fun s p captures => if depth + 1 ≥ maxDepth then Prog.fail .tooComplex
        else matchLoop fuel (depth + 1) s p captures) s p captures

/-- `Matcher::match_at`. -/
def matchAt (depth s : Nat) (p : List UInt8) (captures : List Capture) : Run Outcome :=
  if depth ≥ maxDepth then Prog.fail .tooComplex
  else m.matchLoop (m.pattern.length + 1) depth s p captures

/-! ### The places that are tried -/

/-- The pattern behind its anchor. -/
def patternStart (anchor : Bool) : List UInt8 := if anchor then m.pattern.drop 1 else m.pattern

/-- The loop of `Matcher::search` over `n` places from `position` on. -/
def searchLoop (anchor : Bool) (last : Option Nat) : Nat → Nat → Run (Option Found)
  | 0, _ => pure none
  | n + 1, position => do
    m.step
    match ← m.matchAt 0 position (m.patternStart anchor) [] with
    | (some stop, captures) =>
      if some stop ≠ last then pure (some ⟨position, stop, captures⟩)
      else if anchor then pure none
      else searchLoop anchor last n (position + 1)
    | (none, _) => if anchor then pure none else searchLoop anchor last n (position + 1)

/-- `Matcher::search`. -/
def search (start : Nat) (anchor : Bool) (last : Option Nat) : Run (Option Found) :=
  if start > m.source.length then pure none
  else m.searchLoop anchor last (m.source.length + 1 - start) start

/-- `Matcher::at`. -/
def «at» (start : Nat) (anchor : Bool) : Run (Option Found) :=
  if start > m.source.length then pure none
  else do
    m.step
    match ← m.matchAt 0 start (m.patternStart anchor) [] with
    | (some stop, captures) => pure (some ⟨start, stop, captures⟩)
    | (none, _) => pure none

end Matcher

end RivetLua.Stdlib.Pattern
