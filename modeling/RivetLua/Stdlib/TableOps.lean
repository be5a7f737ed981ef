import RivetLua.Stdlib.TableRequests

namespace RivetLua.Stdlib.Table

open RivetLua.Core Machine

/-!
# Stdlib — the list operations of the table library

`table.insert`, `remove`, `move`, `concat` and `unpack` are one machine.  Its stages share the
cursors `first`, `last`, `index` and `target`; an operation starts at `start`, asks for the length
where it needs it, checks its arguments in `init` and then goes round its own stages.

* `TableOpState`, `tableOpStep` — the machine;
* `TableOpState.new` — an operation that begins.
-/

/-- The functions of the library. -/
inductive TableBuiltin where
  | concat | create | insert | remove | move | pack | unpack | sort
  deriving DecidableEq, Repr

/-- Where an operation stands. -/
inductive TableOpStage where
  | start | afterLength | init
  | concatNext | concatGot | concatDone
  | unpackNext | unpackGot | unpackDone
  | insertNext | insertGot | insertWrote | insertFinalDone
  | removeInitial | removeGot | removeNext | removeShiftGot | removeShiftWrote | removeFinalDone
  | moveNext | moveCompared | moveGot | moveWrote
  deriving DecidableEq, Repr

/-- The state of an operation.  An argument that is not there reads as nil. -/
structure TableOpState where
  kind : TableBuiltin
  args : List Value
  table : ObjectRef
  destination : ObjectRef
  stage : TableOpStage
  len : Int
  first : Int
  last : Int
  index : Int
  target : Int
  reverse : Bool
  explicitDestination : Bool
  hold : Value
  removed : Value
  output : List Value
  buffer : List UInt8
  deriving DecidableEq, Repr

/-- What an operation returns: values, or a new string. -/
inductive TableOpResult where
  | values (values : List Value)
  | text (bytes : List UInt8)
  deriving DecidableEq, Repr

/-- How an operation ends.  A rejection is an error of whatever kind. -/
inductive Outcome where
  | returned (result : TableOpResult)
  | rejected
  | panicked
  deriving DecidableEq, Repr

/-- The kind of end an error is. -/
def Outcome.ofError : TableError → Outcome
  | .panicked => .panicked
  | _ => .rejected

abbrev TableOpMove := Step TableOpState Question Value Outcome

namespace TableOpState

/-- `TableOpState::new`. -/
def new (kind : TableBuiltin) (table : ObjectRef) (args : List Value) : TableOpState where
  kind := kind
  args := args
  table := table
  destination := table
  stage := .start
  len := 0
  first := 0
  last := 0
  index := 0
  target := 0
  reverse := false
  explicitDestination := false
  hold := .nil
  removed := .nil
  output := []
  buffer := []

/-- An argument; the state has room for five. -/
def arg (state : TableOpState) (k : Nat) : Value := state.args.getD k .nil

/-- `table_optional_integer`. -/
def optionalInteger (host : Host) (value : Value) (default : Int) : Except TableError Int :=
  if value = .nil then .ok default else host.tableInteger value

/-- Stop with the argument error where a check fails. -/
def require (c : Prop) [Decidable c] : Except TableError Unit :=
  if c then .ok () else .error .argument

/-- Ask for an access. -/
def request (state : TableOpState) (access : TableOpRequest) : Except TableError TableOpMove :=
  .ok (.ask state (.access access))

/-- The end of an operation. -/
def finish (result : TableOpResult) : Except TableError TableOpMove := .ok (.done (.returned result))

/-- `Start`: whether the length is needed. -/
def start (host : Host) (state : TableOpState) (answer : Option Value) :
    Except TableError TableOpMove :=
  match state.kind with
  | .concat | .insert | .remove =>
    request { state with stage := .afterLength } (.length state.table)
  | .unpack =>
    match host.profile with
    | .lua55 => request { state with stage := .afterLength } (.length state.table)
    | .lua54 => do
      let first ← optionalInteger host (state.arg 1) 1
      if state.arg 2 = .nil then
        request { state with first := first, stage := .afterLength } (.length state.table)
      else .ok (.next { state with first := first, stage := .init } answer)
  | .move => .ok (.next { state with stage := .init } answer)
  | .create | .pack | .sort => .error .argument

/-! #### Init -/

/-- `Init` of `concat`. -/
def initConcat (host : Host) (state : TableOpState) (answer : Option Value) :
    Except TableError TableOpMove := do
  require (state.arg 1 = .nil ∨ (host.text (state.arg 1)).isSome)
  let first ← optionalInteger host (state.arg 2) 1
  let last ← optionalInteger host (state.arg 3) state.len
  .ok (.next { state with first := first, last := last, index := first, stage := .concatNext }
    answer)

/-- The most results `unpack` has. -/
def unpackLimit : Int := 65535

/-- The check of the range of `unpack`. -/
def checkRange (first last : Int) : Except TableError Unit :=
  if first ≤ last then do
    let difference ← fit .argument (last - first)
    let count ← fit .argument (difference + 1)
    require (0 ≤ count ∧ count ≤ unpackLimit)
    require (count ≠ 0)
  else .ok ()

/-- `Init` of `unpack`. -/
def initUnpack (host : Host) (state : TableOpState) (answer : Option Value) :
    Except TableError TableOpMove := do
  let first ← match host.profile with
    | .lua55 => optionalInteger host (state.arg 1) 1
    | .lua54 => .ok state.first
  let last ← optionalInteger host (state.arg 2) state.len
  checkRange first last
  .ok (.next { state with first := first, last := last, index := first, stage := .unpackNext }
    answer)

/-- `Init` of `insert`. -/
def initInsert (host : Host) (state : TableOpState) (answer : Option Value) :
    Except TableError TableOpMove := do
  let last ← fit .arithmeticOverflow (state.len + 1)
  let position ← match state.args.length with
    | 2 => .ok last
    | 3 => host.tableInteger (state.arg 1)
    | _ => .error .argument
  let value := if state.args.length = 2 then state.arg 1 else state.arg 2
  require (¬ (position < 1 ∨ position > last))
  .ok (.next
    { state with first := position, index := state.len, hold := value, stage := .insertNext }
    answer)

/-- `Init` of `remove`. -/
def initRemove (host : Host) (state : TableOpState) (answer : Option Value) :
    Except TableError TableOpMove := do
  let first ← optionalInteger host (state.arg 1) state.len
  require (¬ (first ≠ state.len ∧ (first < 1 ∨ first > min (state.len + 1) (2 ^ 63 - 1))))
  .ok (.next { state with first := first, index := first, stage := .removeInitial } answer)

/-- The destination of `move`: the table itself, or one that is given. -/
def moveDestination (host : Host) (state : TableOpState) : Except TableError ObjectRef :=
  match state.arg 4 with
  | .nil => .ok state.table
  | .object o => if host.isTable o then .ok o else .error .argument
  | _ => .error .argument

/-- The checks of the ranges of `move`. -/
def checkMove (first last target : Int) : Except TableError Unit :=
  if last ≥ first then do
    let difference ← fit .argument (last - first)
    let count ← fit .argument (difference + 1)
    let _ ← fit .argument (target + (count - 1))
    .ok ()
  else .ok ()

/-- Which way to go: down where the ranges overlap in one table, or in two that are equal. -/
def chooseWay (host : Host) (state : TableOpState) (answer : Option Value) :
    Except TableError TableOpMove :=
  let beginning := { state with index := 0, stage := .moveNext }
  if state.target > state.first ∧ state.target ≤ state.last then
    if state.explicitDestination = false ∨ state.table = state.destination then
      .ok (.next { beginning with reverse := true } answer)
    else
      let event := host.binaryEvent .eq (.object state.table) (.object state.destination)
      if event ≠ .nil then
        .ok (.ask { state with stage := .moveCompared }
          (.call event (.object state.table) (.object state.destination)))
      else .ok (.next beginning answer)
  else .ok (.next beginning answer)

/-- `Init` of `move`. -/
def initMove (host : Host) (state : TableOpState) (answer : Option Value) :
    Except TableError TableOpMove := do
  let first ← host.tableInteger (state.arg 1)
  let last ← host.tableInteger (state.arg 2)
  let target ← host.tableInteger (state.arg 3)
  let destination ← moveDestination host state
  checkMove first last target
  let state :=
    { state with
      first := first
      last := last
      target := target
      explicitDestination := decide (state.arg 4 ≠ Value.nil)
      destination := destination }
  chooseWay host state answer

/-- `Init`. -/
def init (host : Host) (state : TableOpState) (answer : Option Value) :
    Except TableError TableOpMove :=
  match state.kind with
  | .concat => state.initConcat host answer
  | .unpack => state.initUnpack host answer
  | .insert => state.initInsert host answer
  | .remove => state.initRemove host answer
  | .move => state.initMove host answer
  | .create | .pack | .sort => .error .argument

/-! #### The stages of the operations -/

/-- The stages of `concat`. -/
def concatNext (host : Host) (state : TableOpState) (answer : Option Value) :
    Except TableError TableOpMove :=
  if state.index > state.last then .ok (.next { state with stage := .concatDone } answer)
  else do
    let separator ←
      if state.index ≠ state.first ∧ state.arg 1 ≠ .nil then
        Check.some? (host.text (state.arg 1)) .argument
      else .ok []
    request { state with buffer := state.buffer ++ separator, stage := .concatGot }
      (.get state.table state.index)

def concatGot (host : Host) (state : TableOpState) (answer : Option Value) :
    Except TableError TableOpMove := do
  let value ← taken answer
  let bytes ← Check.some? (host.text value) (.invalidValue state.index)
  let state := { state with buffer := state.buffer ++ bytes }
  if state.index = state.last then .ok (.next { state with stage := .concatDone } none)
  else do
    let index ← fit .arithmeticOverflow (state.index + 1)
    .ok (.next { state with index := index, stage := .concatNext } none)

/-- The stages of `unpack`. -/
def unpackNext (state : TableOpState) (answer : Option Value) : Except TableError TableOpMove :=
  if state.index > state.last then .ok (.next { state with stage := .unpackDone } answer)
  else request { state with stage := .unpackGot } (.get state.table state.index)

def unpackGot (state : TableOpState) (answer : Option Value) : Except TableError TableOpMove := do
  let value ← taken answer
  let state := { state with output := state.output ++ [value] }
  if state.index = state.last then .ok (.next { state with stage := .unpackDone } none)
  else do
    let index ← fit .arithmeticOverflow (state.index + 1)
    .ok (.next { state with index := index, stage := .unpackNext } none)

/-- The stages of `insert`. -/
def insertNext (state : TableOpState) : Except TableError TableOpMove :=
  if state.index < state.first then
    request { state with stage := .insertFinalDone } (.set state.table state.first state.hold)
  else request { state with stage := .insertGot } (.get state.table state.index)

def insertGot (state : TableOpState) (answer : Option Value) : Except TableError TableOpMove := do
  let value ← taken answer
  let index ← fit .panicked (state.index + 1)
  request { state with removed := value, stage := .insertWrote } (.set state.table index value)

def insertWrote (state : TableOpState) (answer : Option Value) :
    Except TableError TableOpMove := do
  let index ← fit .panicked (state.index - 1)
  .ok (.next { state with index := index, stage := .insertNext } answer)

/-- The stages of `remove`. -/
def removeGot (state : TableOpState) (answer : Option Value) : Except TableError TableOpMove := do
  let value ← taken answer
  .ok (.next { state with removed := value, stage := .removeNext } none)

def removeNext (state : TableOpState) : Except TableError TableOpMove :=
  if state.index < state.len then do
    let index ← fit .panicked (state.index + 1)
    request { state with stage := .removeShiftGot } (.get state.table index)
  else request { state with stage := .removeFinalDone } (.set state.table state.index .nil)

def removeShiftGot (state : TableOpState) (answer : Option Value) :
    Except TableError TableOpMove := do
  let value ← taken answer
  request { state with hold := value, stage := .removeShiftWrote }
    (.set state.table state.index value)

def removeShiftWrote (state : TableOpState) (answer : Option Value) :
    Except TableError TableOpMove := do
  let index ← fit .panicked (state.index + 1)
  .ok (.next { state with index := index, stage := .removeNext } answer)

/-- How far the element that is moved lies behind the first one. -/
def offset (state : TableOpState) : Except TableError Int :=
  if state.reverse then do
    let difference ← fit .panicked (state.last - state.first)
    fit .panicked (difference - state.index)
  else .ok state.index

/-- The stages of `move`. -/
def moveNext (state : TableOpState) : Except TableError TableOpMove :=
  let finished := finish (.values [.object state.destination])
  if state.last < state.first then finished
  else do
    let difference ← fit .panicked (state.last - state.first)
    if state.index > difference then finished
    else do
      let offset ← state.offset
      let source ← fit .argument (state.first + offset)
      request { state with stage := .moveGot } (.get state.table source)

def moveCompared (state : TableOpState) (answer : Option Value) :
    Except TableError TableOpMove := do
  let value ← taken answer
  .ok (.next { state with reverse := isTruthy value, index := 0, stage := .moveNext } none)

def moveGot (state : TableOpState) (answer : Option Value) : Except TableError TableOpMove := do
  let value ← taken answer
  let offset ← state.offset
  let target ← fit .argument (state.target + offset)
  request { state with hold := value, stage := .moveWrote } (.set state.destination target value)

def moveWrote (state : TableOpState) (answer : Option Value) : Except TableError TableOpMove := do
  let index ← fit .panicked (state.index + 1)
  .ok (.next { state with index := index, stage := .moveNext } answer)

/-- The loop of `advance_table_op_inner`, one time round. -/
def advance (host : Host) (state : TableOpState) (answer : Option Value) :
    Except TableError TableOpMove :=
  match state.stage with
  | .start => state.start host answer
  | .afterLength => do
    let value ← taken answer
    let len ← host.tableInteger value
    .ok (.next { state with len := len, stage := .init } none)
  | .init => state.init host answer
  | .concatNext => state.concatNext host answer
  | .concatGot => state.concatGot host answer
  | .concatDone => finish (.text state.buffer)
  | .unpackNext => state.unpackNext answer
  | .unpackGot => state.unpackGot answer
  | .unpackDone => finish (.values state.output)
  | .insertNext => state.insertNext
  | .insertGot => state.insertGot answer
  | .insertWrote => state.insertWrote answer
  | .insertFinalDone => finish (.values [])
  | .removeInitial => request { state with stage := .removeGot } (.get state.table state.first)
  | .removeGot => state.removeGot answer
  | .removeNext => state.removeNext
  | .removeShiftGot => state.removeShiftGot answer
  | .removeShiftWrote => state.removeShiftWrote answer
  | .removeFinalDone => finish (.values [state.removed])
  | .moveNext => state.moveNext
  | .moveCompared => state.moveCompared answer
  | .moveGot => state.moveGot answer
  | .moveWrote => state.moveWrote answer

end TableOpState

/-- One step of an operation; an error ends it. -/
def tableOpStep (host : Host) (state : TableOpState) (answer : Option Value) : TableOpMove :=
  match state.advance host answer with
  | .ok move => move
  | .error error => .done (.ofError error)

end RivetLua.Stdlib.Table
