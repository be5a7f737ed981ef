import Mathlib.Logic.Function.Basic
import RivetLua.Core.Profile
import RivetLua.Lib.Check
import RivetLua.Lib.Machine
import RivetLua.Stdlib.Numeral

namespace RivetLua.Stdlib.Table

open RivetLua.Core

/-!
# Stdlib — what the table library asks of the VM

`table.sort` and the list operations are machines that stop at every length query, at every element
they read or write and at every call.  The VM answers at once or after a metamethod or a comparator
has run; the machine does not see the difference.

* `TableOpRequest`, `Question` — what a machine asks;
* `Host` — what it reads from the VM on the way, `tableInteger` and `binaryEvent` with it;
* `Store`, `Store.answer` — tables without metatables, and what they answer.
-/

/-- Why the library stops. -/
inductive TableError where
  | argument
  | arithmeticOverflow
  | missingEntryPoint
  | invalidValue (index : Int)
  /-- Plain `i64` arithmetic that does not fit. -/
  | panicked
  deriving DecidableEq, Repr

/-- The value of an `i64` computation, or the error where it does not fit. -/
def fit (error : TableError) (x : Int) : Except TableError Int :=
  if -2 ^ 63 ≤ x ∧ x < 2 ^ 63 then .ok x else .error error

theorem fit_of {error : TableError} {x : Int} (h : -2 ^ 63 ≤ x ∧ x < 2 ^ 63) :
    fit error x = .ok x := by rw [fit, if_pos h]

/-- The answer that has been waited for. -/
def taken (answer : Option Value) : Except TableError Value :=
  Check.some? answer .missingEntryPoint

/-- An access to a table. -/
inductive TableOpRequest where
  | length (table : ObjectRef)
  | get (table : ObjectRef) (index : Int)
  | set (table : ObjectRef) (index : Int) (value : Value)
  deriving DecidableEq, Repr

/-- What a machine stops for: an access, or a function to call with two arguments. -/
inductive Question where
  | access (request : TableOpRequest)
  | call (event left right : Value)
  deriving DecidableEq, Repr

/-! ### The VM -/

/-- The metamethods the library looks up. -/
inductive MetamethodEvent where
  | lt | eq
  deriving DecidableEq, Repr

/-- What the library reads from the VM: the bytes of byte strings, which objects are functions and
    tables, and the metamethods of a value. -/
structure Host where
  arith : FloatArith
  profile : LuaProfile
  bytes : ObjectRef → Option (List UInt8)
  isFunction : ObjectRef → Bool
  isTable : ObjectRef → Bool
  valueEvent : MetamethodEvent → Value → Value
  /-- `basic_number_bytes`. -/
  numberBytes : Number → List UInt8

/-- `lookup_binary_event`. -/
def Host.binaryEvent (host : Host) (event : MetamethodEvent) (left right : Value) : Value :=
  let first := host.valueEvent event left
  if first ≠ .nil then first else host.valueEvent event right

/-- `is_truthy`. -/
def isTruthy : Value → Bool
  | .nil | .boolean false => false
  | _ => true

/-- `lua_integer`. -/
def luaInteger : Number → Option Int64
  | .integer i => some i
  | .float x => x.toI64?

/-- `basic::number` without a base. -/
def Host.number (host : Host) : Value → Option Number
  | .integer i => some (.integer i)
  | .float x => some (.float x)
  | .object o => (host.bytes o).bind (Basic.parseNumberBytes host.arith)
  | _ => none

/-- The text of a string or a number; nothing else has one. -/
def Host.text (host : Host) : Value → Option (List UInt8)
  | .object o => host.bytes o
  | .integer i => some (host.numberBytes (.integer i))
  | .float x => some (host.numberBytes (.float x))
  | _ => none

/-- `table_integer`. -/
def Host.tableInteger (host : Host) (value : Value) : Except TableError Int :=
  Check.some? (((host.number value).bind luaInteger).map Int64.toInt) .argument

@[simp] theorem Host.tableInteger_integer (host : Host) (i : Int64) :
    host.tableInteger (.integer i) = .ok i.toInt := rfl

theorem Host.tableInteger_range {host : Host} {value : Value} {n : Int}
    (h : host.tableInteger value = .ok n) : -2 ^ 63 ≤ n ∧ n < 2 ^ 63 := by
  have hsome := Check.some?_eq_ok.mp h
  obtain ⟨i, -, rfl⟩ := Option.map_eq_some_iff.mp hsome
  exact ⟨Int64.le_toInt i, Int64.toInt_lt i⟩

/-- A VM without strings whose objects are functions without metamethods. -/
def Host.sample : Host where
  arith :=
    { add := fun x _ => x
      mul := fun x _ => x
      div := fun x _ => x
      neg := fun x => x
      ofNat := fun _ => ⟨0⟩
      powi := fun _ => ⟨0⟩
      nearest := fun _ => ⟨0⟩
      mul_powi_zero := fun _ _ => rfl
      not_isFinite_mul_powi_zero := fun _ h => h }
  profile := .lua54
  bytes := fun _ => none
  isFunction := fun _ => true
  isTable := fun _ => false
  valueEvent := fun _ _ => .nil
  numberBytes := fun _ => []

/-! ### Tables without metatables -/

/-- Tables without metatables: the elements, and the border a length query answers. -/
structure Store where
  element : ObjectRef → Int → Value
  border : ObjectRef → Int64

/-- Other elements in one of the tables. -/
def Store.holding (store : Store) (table : ObjectRef) (elements : Int → Value) : Store :=
  { store with element := Function.update store.element table elements }

/-- Write an element. -/
def Store.write (store : Store) (table : ObjectRef) (index : Int) (value : Value) : Store :=
  store.holding table (Function.update (store.element table) index value)

/-- What a plain table answers to an access, and what is there afterwards. -/
def Store.answer (store : Store) : TableOpRequest → Value × Store
  | .length table => (.integer (store.border table), store)
  | .get table index => (store.element table index, store)
  | .set table index value => (.nil, store.write table index value)

section Holding

variable (store : Store) (table : ObjectRef) (elements : Int → Value)

@[simp] theorem Store.holding_border : (store.holding table elements).border = store.border := rfl

@[simp] theorem Store.holding_same : (store.holding table elements).element table = elements :=
  Function.update_self ..

theorem Store.holding_other {other : ObjectRef} (h : other ≠ table) :
    (store.holding table elements).element other = store.element other :=
  Function.update_of_ne h ..

@[simp] theorem Store.holding_self : store.holding table (store.element table) = store := by
  unfold Store.holding
  rw [Function.update_eq_self]

@[simp] theorem Store.holding_holding (elements' : Int → Value) :
    (store.holding table elements).holding table elements' = store.holding table elements' := by
  unfold Store.holding
  rw [Function.update_idem]

@[simp] theorem Store.holding_write (index : Int) (value : Value) :
    (store.holding table elements).write table index value
      = store.holding table (Function.update elements index value) := by
  unfold Store.write
  rw [Store.holding_same, Store.holding_holding]

end Holding

end RivetLua.Stdlib.Table
