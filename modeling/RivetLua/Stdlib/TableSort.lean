import RivetLua.Stdlib.TableRequests
import RivetLua.Core.Comparison

namespace RivetLua.Stdlib.Table

open RivetLua.Core Machine

/-!
# Stdlib — `table.sort`

The sort is a machine of nine steps.  It takes the elements from the second to the last and lets
each sink to its place, one exchange of neighbours after the other; before an exchange it asks the
comparator a second time, with the elements the other way round.

* `SortState`, `sortStep` — the machine;
* `SortRun`, `SortRun.Moves` — the machine on a plain table, with a comparator that answers.
-/

/-! ### The machine -/

/-- Which way round the comparator is asked. -/
inductive SortPhase where
  | forward | reverse
  deriving DecidableEq, Repr

/-- Where the machine stands. -/
inductive SortStep where
  | needLength | awaitLength | compareStart | awaitReadLeft | awaitReadRight | compare
  | awaitCompare | awaitWriteFirst | awaitWriteSecond
  deriving DecidableEq, Repr

/-- Why a sort has ended. -/
inductive TableSortStop where
  | notStarted | running | completed | luaError | aborted | allocation | inconsistentComparator
  deriving DecidableEq, Repr

/-- The diagnosis of a sort. -/
structure TableSortTrace where
  comparisons : Nat
  swaps : Nat
  stop : TableSortStop
  deriving DecidableEq, Repr

/-- `end_table_sort`. -/
def TableSortTrace.finish (trace : TableSortTrace) (stop : TableSortStop) : TableSortTrace :=
  if trace.stop = .running then { trace with stop := stop } else trace

/-- The state of a sort.  Its trace is the VM's while it runs; a callback that sorts a table of its
    own has another one. -/
structure SortState where
  table : ObjectRef
  comparator : Option Value
  len : Int
  i : Int
  j : Int
  left : Value
  right : Value
  phase : SortPhase
  step : SortStep
  trace : TableSortTrace
  deriving DecidableEq, Repr

/-- `SortState::new`, after `begin_table_sort`.  A nil comparator is none. -/
def SortState.new (table : ObjectRef) (comparator : Option Value) : SortState where
  table := table
  comparator := comparator.filter (· ≠ .nil)
  len := 0
  i := 2
  j := 2
  left := .nil
  right := .nil
  phase := .forward
  step := .needLength
  trace := ⟨0, 0, .running⟩

/-- How a sort ends. -/
structure SortEnd where
  result : Except TableError Unit
  trace : TableSortTrace

abbrev SortMove := Step SortState Question Value SortEnd

/-- One more in a counter of the trace. -/
def counted (n : Nat) : Except TableError Nat :=
  if n + 1 < 2 ^ 64 then .ok (n + 1) else .error .arithmeticOverflow

/-- `raw_order` for `<`: two numbers, or two byte strings. -/
def Host.rawLess (host : Host) (left right : Value) : Option Value :=
  match left.number?, right.number? with
  | some a, some b => some (.boolean (Number.order .less a b))
  | _, _ =>
    match left, right with
    | .object a, .object b =>
      match host.bytes a, host.bytes b with
      | some a, some b => some (.boolean (decide (a < b)))
      | _, _ => none
    | _, _ => none

namespace SortState

/-- The element after this one. -/
def nextElement (state : SortState) : Except TableError SortState := do
  let i ← fit .arithmeticOverflow (state.i + 1)
  .ok { state with i := i, j := i }

/-- The operands of the comparison. -/
def operands (state : SortState) : Value × Value :=
  match state.phase with
  | .forward => (state.left, state.right)
  | .reverse => (state.right, state.left)

/-- The checks made when the length is known. -/
def checkLength (host : Host) (state : SortState) (len : Int) : Except TableError Unit :=
  if len > 1 then
    if len ≥ 2 ^ 31 - 1 then .error .argument
    else match state.comparator with
      | none => .ok ()
      | some (.object object) => if host.isFunction object then .ok () else .error .argument
      | some _ => .error .argument
  else .ok ()

/-- `CompareStart`. -/
def compareStart (state : SortState) : Except TableError SortMove :=
  if state.i > state.len then
    .ok (.done ⟨.ok (), state.trace.finish .completed⟩)
  else match state.phase with
    | .forward =>
      if state.j ≤ 1 then do
        let state ← state.nextElement
        .ok (.next state none)
      else .ok (.ask { state with step := .awaitReadLeft } (.access (.get state.table state.j)))
    | .reverse => .ok (.next { state with step := .compare } none)

/-- Which of the three makes a comparison: the comparator, the raw order, or the metamethod. -/
def compareBy (host : Host) (waiting : SortState) (comparator : Option Value)
    (left right : Value) : Except TableError SortMove :=
  match comparator with
  | some comparator => .ok (.ask waiting (.call comparator left right))
  | none =>
    match host.rawLess left right with
    | some value => .ok (.next waiting (some value))
    | none =>
      let event := host.binaryEvent .lt left right
      if event = .nil then .error .argument
      else .ok (.ask waiting (.call event left right))

/-- `Compare`. -/
def compare (host : Host) (state : SortState) : Except TableError SortMove := do
  let comparisons ← counted state.trace.comparisons
  let waiting :=
    { state with
      step := .awaitCompare
      trace := { state.trace with comparisons := comparisons } }
  compareBy host waiting state.comparator state.operands.1 state.operands.2

/-- `AwaitCompare`. -/
def compared (state : SortState) (value : Value) : Except TableError SortMove :=
  match state.phase with
  | .forward =>
    if isTruthy value then
      .ok (.next { state with phase := .reverse, step := .compareStart } none)
    else do
      let state ← state.nextElement
      .ok (.next { state with step := .compareStart } none)
  | .reverse =>
    if isTruthy value then
      .ok (.done ⟨.error .argument, state.trace.finish .inconsistentComparator⟩)
    else do
      let index ← fit .panicked (state.j - 1)
      .ok (.ask { state with step := .awaitWriteFirst }
        (.access (.set state.table index state.left)))

/-- `AwaitWriteSecond`: the exchange is done. -/
def swapped (state : SortState) : Except TableError SortMove := do
  let swaps ← counted state.trace.swaps
  let j ← fit .panicked (state.j - 1)
  let state :=
    { state with
      j := j
      phase := .forward
      step := .compareStart
      trace := { state.trace with swaps := swaps } }
  if j ≤ 1 then do
    let state ← state.nextElement
    .ok (.next state none)
  else .ok (.next state none)

/-- The loop of `advance_table_sort_inner`, one time round. -/
def advance (host : Host) (state : SortState) (answer : Option Value) :
    Except TableError SortMove :=
  match state.step with
  | .needLength => .ok (.ask { state with step := .awaitLength } (.access (.length state.table)))
  | .awaitLength => do
    let value ← taken answer
    let len ← host.tableInteger value
    checkLength host state len
    .ok (.next { state with len := len, step := .compareStart } none)
  | .compareStart => state.compareStart
  | .awaitReadLeft => do
    let left ← taken answer
    let index ← fit .panicked (state.j - 1)
    .ok (.ask { state with left := left, step := .awaitReadRight }
      (.access (.get state.table index)))
  | .awaitReadRight => do
    let right ← taken answer
    .ok (.next { state with right := right, step := .compare } none)
  | .compare => state.compare host
  | .awaitCompare => do
    let value ← taken answer
    state.compared value
  | .awaitWriteFirst =>
    .ok (.ask { state with step := .awaitWriteSecond }
      (.access (.set state.table state.j state.right)))
  | .awaitWriteSecond => state.swapped

end SortState

/-- `table_sort_error_stop`. -/
def errorStop : TableError → TableSortStop
  | .arithmeticOverflow => .allocation
  | _ => .luaError

/-- One step of a sort; an error ends it. -/
def sortStep (host : Host) (state : SortState) (answer : Option Value) : SortMove :=
  match state.advance host answer with
  | .ok move => move
  | .error error => .done ⟨.error error, state.trace.finish (errorStop error)⟩

/-! ### On a plain table -/

/-- A sort under way: the machine, the answer it is handed, the tables, and the VM as the last call
    has left it. -/
structure SortRun where
  state : SortState
  answer : Option Value
  store : Store
  host : Host

/-- A sort that begins. -/
def SortRun.start (host : Host) (store : Store) (table : ObjectRef) (comparator : Option Value) :
    SortRun :=
  ⟨.new table comparator, none, store, host⟩

/-- One step of a sort.  `Answers left right value` says that `left` and `right` may be compared
    with this outcome; calls leave the tables alone. -/
inductive SortRun.Moves (Answers : Value → Value → Value → Prop) (c : SortRun) : SortRun → Prop
  | next {state : SortState} {answer : Option Value}
      (h : sortStep c.host c.state c.answer = .next state answer)
      (hanswer : c.state.step = .compare → ∀ value, answer = some value →
        Answers c.state.operands.1 c.state.operands.2 value) :
      c.Moves Answers { c with state := state, answer := answer }
  | access {state : SortState} {request : TableOpRequest}
      (h : sortStep c.host c.state c.answer = .ask state (.access request)) :
      c.Moves Answers
        { c with
          state := state
          answer := some (c.store.answer request).1
          store := (c.store.answer request).2 }
  | call {state : SortState} {event left right value : Value}
      (h : sortStep c.host c.state c.answer = .ask state (.call event left right))
      (hanswer : Answers left right value) (host : Host) :
      c.Moves Answers { c with state := state, answer := some value, host := host }

end RivetLua.Stdlib.Table
