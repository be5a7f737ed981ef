import RivetLua.Runtime.Roots

namespace RivetLua.Runtime

open RivetLua.Core StateProg

/-!
# Runtime — pending operations and their temporary roots

A pending operation keeps its values alive by temporary roots.  When the execution is
suspended the roots are removed (*parked*) and the suspended object traces the values
instead; when it resumes the roots are added back.

* `takeRoot`, `fillRoot` — one optional root, `takeRoots`, `fillRoots` — an array of them
  beside an array of values; `PrintArguments` — values with a stack of roots;
* one structure for each state of a library call in progress, with the three methods
  `clearRoots`, `restoreRoots` and `traceChildren`;
* `BasicPending`, `PendingOp`, `PendingStack` — the same three methods on a suspended
  execution.

The three methods read the values and the root identities; the other fields of the source's
structures (counters, buffers, program positions) are left out.
-/

/-- Methods that may change a state and the VM. -/
abbrev RootM (S α : Type) := Prog (S × Vm) VmError α

/-- Run a VM operation beside a state. -/
def onVm {S α : Type} (m : VmM α) : RootM S α :=
  Prog.focus Prod.snd (fun s vm => (s.1, vm)) m

/-- Run a method on a field of the state. -/
def onField {S T : Type} (view : S → T) (update : S → T → S) (m : RootM T Unit) : RootM S Unit :=
  Prog.focus (fun s => (view s.1, s.2)) (fun s t => (update s.1 t.1, t.2)) m

/-- Run a method on an optional field, if it is there. -/
def onOption {T : Type} (m : RootM T Unit) : RootM (Option T) Unit := fun s =>
  match s.1 with
  | none => (.ok (), s)
  | some a =>
    match m (a, s.2) with
    | (r, a, vm) => (r, some a, vm)

/-- Run a method on the entries of a list in order, until one fails. -/
def forEntries {T : Type} (m : RootM T Unit) : List T → Vm → Except VmError Unit × List T × Vm
  | [], vm => (.ok (), [], vm)
  | entry :: rest, vm =>
    match m (entry, vm) with
    | (.error e, entry, vm) => (.error e, entry :: rest, vm)
    | (.ok _, entry, vm) =>
      match forEntries m rest vm with
      | (r, rest, vm) => (r, entry :: rest, vm)

/-! ### Root slots -/

/-- `root.take()` and `remove_root`. -/
def takeRoot : RootM (Option RootId) Unit := fun s =>
  match s.1 with
  | none => (.ok (), none, s.2)
  | some id =>
    match removeRoot id s.2 with
    | (.ok _, vm) => (.ok (), none, vm)
    | (.error e, vm) => (.error e, none, vm)

/-- `add_root` for an object value; a slot that has a root already is skipped when `keep` is
    set. -/
def fillRoot (keep : Bool) (value : Value) : RootM (Option RootId) Unit := fun s =>
  match value.objectRef?.filter fun _ => !(keep && s.1.isSome) with
  | none => (.ok (), s)
  | some object =>
    match addRoot .temporary object s.2 with
    | (.ok id, vm) => (.ok (), some id, vm)
    | (.error e, vm) => (.error e, s.1, vm)

/-- `takeRoot` for every slot of a list, from the last to the first. -/
def takeRootList : List (Option RootId) → Vm → Except VmError Unit × List (Option RootId) × Vm
  | [], vm => (.ok (), [], vm)
  | root :: rest, vm =>
    match takeRootList rest vm with
    | (.error e, rest, vm) => (.error e, root :: rest, vm)
    | (.ok _, rest, vm) =>
      match takeRoot (root, vm) with
      | (r, root, vm) => (r, root :: rest, vm)

/-- `takeRoot` for every slot of an array. -/
def takeRoots : RootM (List (Option RootId)) Unit := fun s => takeRootList s.1 s.2

/-- `fillRoot` for every slot of an array, from the first to the last. -/
def fillRoots (keep : Bool) : List Value → RootM (List (Option RootId)) Unit
  | value :: values, (root :: roots, vm) =>
    match fillRoot keep value (root, vm) with
    | (.error e, root, vm) => (.error e, root :: roots, vm)
    | (.ok _, root, vm) =>
      match fillRoots keep values (roots, vm) with
      | (r, roots, vm) => (r, root :: roots, vm)
  | _, s => (.ok (), s)

/-! ### Arguments of a library call -/

/-- Values with their roots; the head of `roots` was pushed last. -/
structure PrintArguments where
  values : List Value
  roots : List RootId

namespace PrintArguments

/-- Pop and remove every root. -/
def popRoots : List RootId → Vm → Except VmError Unit × List RootId × Vm
  | [], vm => (.ok (), [], vm)
  | root :: rest, vm =>
    match removeRoot root vm with
    | (.ok _, vm) => popRoots rest vm
    | (.error e, vm) => (.error e, rest, vm)

/-- Add and push a root for every object value. -/
def pushRoots : List Value → List RootId → Vm → Except VmError Unit × List RootId × Vm
  | [], roots, vm => (.ok (), roots, vm)
  | value :: values, roots, vm =>
    match value.objectRef? with
    | none => pushRoots values roots vm
    | some object =>
      match addRoot .temporary object vm with
      | (.ok id, vm) => pushRoots values (id :: roots) vm
      | (.error e, vm) => (.error e, roots, vm)

def clearRoots : RootM PrintArguments Unit := fun s =>
  match popRoots s.1.roots s.2 with
  | (r, roots, vm) => (r, { s.1 with roots := roots }, vm)

def restoreRoots : RootM PrintArguments Unit :=
  Prog.onError
    (fun s =>
      match pushRoots s.1.values s.1.roots s.2 with
      | (r, roots, vm) => (r, { s.1 with roots := roots }, vm))
    clearRoots

def traceChildren (a : PrintArguments) : List ObjectRef := valueRefs a.values

end PrintArguments

/-! ### States of library calls -/

/-- A host callback with its captures and arguments. -/
structure HostCallbackPending where
  captures : PrintArguments
  arguments : PrintArguments

namespace HostCallbackPending

def onCaptures (m : RootM PrintArguments Unit) : RootM HostCallbackPending Unit :=
  onField captures (fun s a => { s with captures := a }) m

def onArguments (m : RootM PrintArguments Unit) : RootM HostCallbackPending Unit :=
  onField arguments (fun s a => { s with arguments := a }) m

def clearRoots : RootM HostCallbackPending Unit := do
  onArguments PrintArguments.clearRoots
  onCaptures PrintArguments.clearRoots

def restoreRoots : RootM HostCallbackPending Unit := do
  onCaptures PrintArguments.restoreRoots
  Prog.onError (onArguments PrintArguments.restoreRoots) (onCaptures PrintArguments.clearRoots)

def traceChildren (s : HostCallbackPending) : List ObjectRef :=
  s.captures.traceChildren ++ s.arguments.traceChildren

end HostCallbackPending

/-- `string.gsub`: the arguments, and those of a running replacement function. -/
structure GSubState where
  arguments : PrintArguments
  callbackArguments : Option PrintArguments

namespace GSubState

def onArguments (m : RootM PrintArguments Unit) : RootM GSubState Unit :=
  onField arguments (fun s a => { s with arguments := a }) m

def onCallback (m : RootM PrintArguments Unit) : RootM GSubState Unit :=
  onField callbackArguments (fun s a => { s with callbackArguments := a }) (onOption m)

def clearRoots : RootM GSubState Unit := do
  onCallback PrintArguments.clearRoots
  onArguments PrintArguments.clearRoots

def restoreRoots : RootM GSubState Unit := do
  onArguments PrintArguments.restoreRoots
  onCallback PrintArguments.restoreRoots

def traceChildren (s : GSubState) : List ObjectRef :=
  s.arguments.traceChildren ++ (s.callbackArguments.map PrintArguments.traceChildren).getD []

end GSubState

/-- `string.format`. -/
structure FormatState where
  arguments : PrintArguments

namespace FormatState

def onArguments (m : RootM PrintArguments Unit) : RootM FormatState Unit :=
  onField arguments (fun s a => { s with arguments := a }) m

def clearRoots : RootM FormatState Unit := onArguments PrintArguments.clearRoots

def restoreRoots : RootM FormatState Unit := onArguments PrintArguments.restoreRoots

def traceChildren (s : FormatState) : List ObjectRef := s.arguments.traceChildren

end FormatState

/-- `math.min` and `math.max`. -/
structure MinMaxState where
  arguments : PrintArguments

namespace MinMaxState

def onArguments (m : RootM PrintArguments Unit) : RootM MinMaxState Unit :=
  onField arguments (fun s a => { s with arguments := a }) m

def clearRoots : RootM MinMaxState Unit := onArguments PrintArguments.clearRoots

def restoreRoots : RootM MinMaxState Unit := onArguments PrintArguments.restoreRoots

def traceChildren (s : MinMaxState) : List ObjectRef := s.arguments.traceChildren

end MinMaxState

/-- `os.time` reading the fields of a table. -/
structure CalendarTimeState where
  table : ObjectRef
  key : Option ObjectRef
  tableRoot : Option RootId
  keyRoot : Option RootId

namespace CalendarTimeState

def onTableRoot (m : RootM (Option RootId) Unit) : RootM CalendarTimeState Unit :=
  onField tableRoot (fun s r => { s with tableRoot := r }) m

def onKeyRoot (m : RootM (Option RootId) Unit) : RootM CalendarTimeState Unit :=
  onField keyRoot (fun s r => { s with keyRoot := r }) m

def clearKey : RootM CalendarTimeState Unit := do
  onKeyRoot takeRoot
  Prog.modify fun s => ({ s.1 with key := none }, s.2)

def setKey (key : ObjectRef) : RootM CalendarTimeState Unit := do
  clearKey
  let root ← onVm (addRoot .temporary key)
  Prog.modify fun s => ({ s.1 with keyRoot := some root, key := some key }, s.2)

def clearRoots : RootM CalendarTimeState Unit := do
  onKeyRoot takeRoot
  onTableRoot takeRoot

def restoreRoots : RootM CalendarTimeState Unit := do
  let s ← Prog.get
  onTableRoot (fillRoot false (.object s.1.table))
  match s.1.key with
  | none => pure ()
  | some key => Prog.onError (setKey key) clearRoots

def traceChildren (s : CalendarTimeState) : List ObjectRef := s.table :: s.key.toList

end CalendarTimeState

/-- A preload searcher. -/
structure PreloadState where
  key : ObjectRef
  root : Option RootId

namespace PreloadState

def onRoot (m : RootM (Option RootId) Unit) : RootM PreloadState Unit :=
  onField root (fun s r => { s with root := r }) m

def clearRoots : RootM PreloadState Unit := onRoot takeRoot

def restoreRoots : RootM PreloadState Unit := fun s =>
  onRoot (fillRoot true (.object s.1.key)) s

def traceChildren (s : PreloadState) : List ObjectRef := [s.key]

end PreloadState

/-- A path searcher. -/
structure PathSearcherState where
  package : ObjectRef
  environment : ObjectRef
  name : ObjectRef
  pathKey : ObjectRef
  roots : List (Option RootId)

namespace PathSearcherState

def onRoots (m : RootM (List (Option RootId)) Unit) : RootM PathSearcherState Unit :=
  onField roots (fun s r => { s with roots := r }) m

def values (s : PathSearcherState) : List Value :=
  [.object s.package, .object s.environment, .object s.name, .object s.pathKey]

def clearRoots : RootM PathSearcherState Unit := onRoots takeRoots

def restoreRoots : RootM PathSearcherState Unit := fun s =>
  Prog.onError (onRoots (fillRoots true s.1.values)) clearRoots s

def traceChildren (s : PathSearcherState) : List ObjectRef := valueRefs s.values

end PathSearcherState

/-- `require`: package, loaded table, name, key, searchers, loader and data. -/
structure RequireState where
  refs : List Value
  roots : List (Option RootId)

namespace RequireState

def onRoots (m : RootM (List (Option RootId)) Unit) : RootM RequireState Unit :=
  onField roots (fun s r => { s with roots := r }) m

def clearRoots : RootM RequireState Unit := onRoots takeRoots

def restoreRoots : RootM RequireState Unit := fun s =>
  Prog.onError (onRoots (fillRoots true s.1.refs)) clearRoots s

def traceChildren (s : RequireState) : List ObjectRef := valueRefs s.refs

end RequireState

/-- `load` with a reader function. -/
structure LoadReaderState where
  reader : Value
  environment : Value
  readerRoot : Option RootId
  environmentRoot : Option RootId

namespace LoadReaderState

def onReaderRoot (m : RootM (Option RootId) Unit) : RootM LoadReaderState Unit :=
  onField readerRoot (fun s r => { s with readerRoot := r }) m

def onEnvironmentRoot (m : RootM (Option RootId) Unit) : RootM LoadReaderState Unit :=
  onField environmentRoot (fun s r => { s with environmentRoot := r }) m

def clearRoots : RootM LoadReaderState Unit := do
  onEnvironmentRoot takeRoot
  onReaderRoot takeRoot

def restoreRoots : RootM LoadReaderState Unit := do
  let s ← Prog.get
  onReaderRoot (fillRoot true s.1.reader)
  Prog.onError (onEnvironmentRoot (fillRoot true s.1.environment)) clearRoots

def traceChildren (s : LoadReaderState) : List ObjectRef := valueRefs [s.reader, s.environment]

end LoadReaderState

/-- `table.sort`. -/
structure SortState where
  table : ObjectRef
  comparator : Option Value
  left : Value
  right : Value
  roots : List (Option RootId)

namespace SortState

def onRoots (m : RootM (List (Option RootId)) Unit) : RootM SortState Unit :=
  onField roots (fun s r => { s with roots := r }) m

def values (s : SortState) : List Value :=
  [.object s.table, s.comparator.getD .nil, s.left, s.right]

def clearRoots : RootM SortState Unit := onRoots takeRoots

def restoreRoots : RootM SortState Unit := fun s => onRoots (fillRoots true s.1.values) s

def traceChildren (s : SortState) : List ObjectRef := valueRefs s.values

end SortState

/-- The other table functions. -/
structure TableOpState where
  args : List Value
  hold : Value
  removed : Value
  output : List Value
  roots : List (Option RootId)
  outputRoots : List (Option RootId)

namespace TableOpState

def onRoots (m : RootM (List (Option RootId)) Unit) : RootM TableOpState Unit :=
  onField roots (fun s r => { s with roots := r }) m

def onOutputRoots (m : RootM (List (Option RootId)) Unit) : RootM TableOpState Unit :=
  onField outputRoots (fun s r => { s with outputRoots := r }) m

def values (s : TableOpState) : List Value := s.args ++ [s.hold, s.removed]

def clearRoots : RootM TableOpState Unit := do
  onOutputRoots takeRoots
  onRoots takeRoots

def restoreRoots : RootM TableOpState Unit := do
  let s ← Prog.get
  onRoots (fillRoots true s.1.values)
  onOutputRoots (fillRoots true s.1.output)

def traceChildren (s : TableOpState) : List ObjectRef := valueRefs (s.values ++ s.output)

end TableOpState

/-! ### Pending operations -/

/-- What a pending library call carries. -/
inductive BasicPending where
  | hostCallback (state : HostCallbackPending)
  | debugHook (hookFunction : ObjectRef) (target : Option ObjectRef) (targetRoot : Option RootId)
      (builtinReturn : Option PrintArguments)
  | osCalendarTime (state : CalendarTimeState)
  | preload (state : PreloadState)
  | packagePath (state : PathSearcherState)
  | require (state : RequireState)
  | loadReader (state : LoadReaderState)
  | doFile
  | debugConsole (environment : Value)
  | debugConsoleStringify (environment : Value)
  | toString
  | pairs
  | ipairsAux
  | print (arguments : PrintArguments)
  | warning (arguments : PrintArguments)
  | stringFormat (state : FormatState)
  | stringGSub (state : GSubState)
  | mathMinMax (state : MinMaxState)
  | tableSort (state : SortState)
  | tableOp (state : TableOpState)

namespace BasicPending

/-- Run a method on the state a variant carries. -/
def within {T : Type} (wrap : T → BasicPending) (t : T) (m : RootM T Unit) (vm : Vm) :
    Except VmError Unit × BasicPending × Vm :=
  match m (t, vm) with
  | (r, t, vm) => (r, wrap t, vm)

/-- Remove every root of the variant. -/
def clear : RootM BasicPending Unit := fun s =>
  match s.1 with
  | .hostCallback state => within .hostCallback state HostCallbackPending.clearRoots s.2
  | .debugHook hook target targetRoot builtinReturn =>
    let vm := { s.2 with debugHookRunning := false }
    match takeRoot (targetRoot, vm) with
    | (.error e, root, vm) => (.error e, .debugHook hook target root builtinReturn, vm)
    | (.ok _, root, vm) =>
      within (.debugHook hook target root) builtinReturn (onOption PrintArguments.clearRoots) vm
  | .osCalendarTime state => within .osCalendarTime state CalendarTimeState.clearRoots s.2
  | .print arguments => within .print arguments PrintArguments.clearRoots s.2
  | .warning arguments => within .warning arguments PrintArguments.clearRoots s.2
  | .stringFormat state => within .stringFormat state FormatState.clearRoots s.2
  | .stringGSub state => within .stringGSub state GSubState.clearRoots s.2
  | .mathMinMax state => within .mathMinMax state MinMaxState.clearRoots s.2
  | .tableOp state => within .tableOp state TableOpState.clearRoots s.2
  | .tableSort state => within .tableSort state SortState.clearRoots s.2
  | .loadReader state => within .loadReader state LoadReaderState.clearRoots s.2
  | .require state => within .require state RequireState.clearRoots s.2
  | .preload state => within .preload state PreloadState.clearRoots s.2
  | .packagePath state => within .packagePath state PathSearcherState.clearRoots s.2
  | .doFile | .debugConsole _ | .debugConsoleStringify _ | .toString | .pairs | .ipairsAux =>
    (.ok (), s)

/-- The part of `PendingOp.restoreRoots` that concerns the variant. -/
def restoreRoots : RootM BasicPending Unit := fun s =>
  match s.1 with
  | .osCalendarTime state => within .osCalendarTime state CalendarTimeState.restoreRoots s.2
  | .hostCallback state => within .hostCallback state HostCallbackPending.restoreRoots s.2
  | .debugHook hook target targetRoot builtinReturn =>
    within (.debugHook hook target targetRoot) builtinReturn
      (onOption PrintArguments.restoreRoots) s.2
  | .print arguments => within .print arguments PrintArguments.restoreRoots s.2
  | .stringFormat state => within .stringFormat state FormatState.restoreRoots s.2
  | .stringGSub state => within .stringGSub state GSubState.restoreRoots s.2
  | .mathMinMax state => within .mathMinMax state MinMaxState.restoreRoots s.2
  | .tableOp state => within .tableOp state TableOpState.restoreRoots s.2
  | .tableSort state => within .tableSort state SortState.restoreRoots s.2
  | .loadReader state => within .loadReader state LoadReaderState.restoreRoots s.2
  | .require state => within .require state RequireState.restoreRoots s.2
  | .preload state => within .preload state PreloadState.restoreRoots s.2
  | .packagePath state => within .packagePath state PathSearcherState.restoreRoots s.2
  | .warning _ | .doFile | .debugConsole _ | .debugConsoleStringify _ | .toString | .pairs
  | .ipairsAux => (.ok (), s)

/-- The part of `PendingOp.traceChildren` that concerns the variant. -/
def traceChildren : BasicPending → List ObjectRef
  | .osCalendarTime state => state.traceChildren
  | .hostCallback state => state.traceChildren
  | .debugHook hook _ _ builtinReturn =>
    hook :: (builtinReturn.map PrintArguments.traceChildren).getD []
  | .print arguments => arguments.traceChildren
  | .stringFormat state => state.traceChildren
  | .stringGSub state => state.traceChildren
  | .mathMinMax state => state.traceChildren
  | .tableOp state => state.traceChildren
  | .tableSort state => state.traceChildren
  | .loadReader state => state.traceChildren
  | .require state => state.traceChildren
  | .preload state => state.traceChildren
  | .packagePath state => state.traceChildren
  | .warning _ | .doFile | .debugConsole _ | .debugConsoleStringify _ | .toString | .pairs
  | .ipairsAux => []

end BasicPending

/-- A pending operation: five values with their roots, and the library call it belongs to. -/
structure PendingOp where
  values : List Value
  callerModule : Option ObjectRef
  basic : Option BasicPending
  roots : List (Option RootId)

namespace PendingOp

def onBasic (m : RootM BasicPending Unit) : RootM PendingOp Unit :=
  onField basic (fun s b => { s with basic := b }) (onOption m)

def onRoots (m : RootM (List (Option RootId)) Unit) : RootM PendingOp Unit :=
  onField roots (fun s r => { s with roots := r }) m

def parkRoots : RootM PendingOp Unit := do
  onBasic BasicPending.clear
  onRoots takeRoots

def restoreRoots : RootM PendingOp Unit := do
  let s ← Prog.get
  Prog.onError (onRoots (fillRoots false s.1.values)) parkRoots
  onBasic BasicPending.restoreRoots

def traceChildren (s : PendingOp) : List ObjectRef :=
  s.callerModule.toList ++ valueRefs s.values ++ (s.basic.map BasicPending.traceChildren).getD []

end PendingOp

/-- The pending operations of an execution. -/
structure PendingStack where
  entries : List PendingOp

namespace PendingStack

/-- `for pending in &mut self.entries`. -/
def each (m : RootM PendingOp Unit) : RootM PendingStack Unit := fun s =>
  match forEntries m s.1.entries s.2 with
  | (r, entries, vm) => (r, ⟨entries⟩, vm)

def parkRoots : RootM PendingStack Unit := each PendingOp.parkRoots

def restoreRoots : RootM PendingStack Unit :=
  Prog.onError (each PendingOp.restoreRoots) parkRoots

def traceChildren (s : PendingStack) : List ObjectRef := s.entries.flatMap PendingOp.traceChildren

end PendingStack

end RivetLua.Runtime
