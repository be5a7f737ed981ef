import RivetLua.Stdlib.TableOps

namespace RivetLua.Stdlib.Table.Reference

open RivetLua.Core Machine

/-!
# Stdlib — the list operations of `ltablib.c`

The C functions as dialogues: what they ask of their tables, and what they return.  An integer of
the C code is an `Int` of its range; unsigned comparisons are made modulo `2^64`.

* `tinsert`, `tremove`, `tmove`, `tconcat`, `tunpack` — the functions;
* `perform` — the one that is called.
-/

abbrev Program := Dialogue Question Value Outcome

/-- An error is raised. -/
def rejected : Program := .done .rejected

/-- The results of the call. -/
def returned (values : List Value) : Program := .done (.returned (.values values))

/-- `lua_geti`. -/
def geti (table : ObjectRef) (index : Int) (next : Value → Program) : Program :=
  .ask (.access (.get table index)) next

/-- `lua_seti`. -/
def seti (table : ObjectRef) (index : Int) (value : Value) (next : Program) : Program :=
  .ask (.access (.set table index value)) fun _ => next

/-- `luaL_argcheck`. -/
def argcheck (c : Prop) [Decidable c] (next : Program) : Program := if c then next else rejected

/-- `luaL_checkinteger`. -/
def checkinteger (host : Host) (value : Value) (next : Int → Program) : Program :=
  match host.tableInteger value with
  | .ok n => next n
  | .error _ => rejected

/-- `luaL_optinteger`. -/
def optinteger (host : Host) (value : Value) (default : Int) (next : Int → Program) : Program :=
  if value = .nil then next default else checkinteger host value next

/-- `luaL_len`. -/
def len (host : Host) (table : ObjectRef) (next : Int → Program) : Program :=
  .ask (.access (.length table)) fun value => checkinteger host value next

/-- An integer read as unsigned. -/
def unsigned (n : Int) : Int := n % 2 ^ 64

/-- A sum that wraps around. -/
def intop (n : Int) : Int := n.bmod (2 ^ 64)

/-! ### insert and remove -/

/-- `for (i = e; i > pos; i--) t[i] = t[i - 1]`. -/
def insertLoop (table : ObjectRef) (pos : Int) (next : Program) (i : Int) : Program :=
  if i > pos then
    geti table (i - 1) fun value => seti table i value (insertLoop table pos next (i - 1))
  else next
termination_by (i - pos).toNat

/-- `tinsert`, with the length. -/
def insertFrom (host : Host) (table : ObjectRef) (args : List Value) (n : Int) : Program :=
  let e := intop (n + 1)
  match args.length with
  | 2 => seti table e (args.getD 1 .nil) (returned [])
  | 3 =>
    checkinteger host (args.getD 1 .nil) fun pos =>
      argcheck (unsigned (pos - 1) < unsigned e)
        (insertLoop table pos (seti table pos (args.getD 2 .nil) (returned [])) e)
  | _ => rejected

def tinsert (host : Host) (table : ObjectRef) (args : List Value) : Program :=
  len host table (insertFrom host table args)

/-- `for ( ; pos < size; pos++) t[pos] = t[pos + 1]`. -/
def removeLoop (table : ObjectRef) (size : Int) (next : Int → Program) (pos : Int) : Program :=
  if pos < size then
    geti table (pos + 1) fun value => seti table pos value (removeLoop table size next (pos + 1))
  else next pos
termination_by (size - pos).toNat

/-- `tremove`, with the length. -/
def removeFrom (host : Host) (table : ObjectRef) (args : List Value) (size : Int) : Program :=
  optinteger host (args.getD 1 .nil) size fun pos =>
    argcheck (pos = size ∨ unsigned (pos - 1) ≤ unsigned size)
      (geti table pos fun result =>
        removeLoop table size (fun pos => seti table pos .nil (returned [result])) pos)

def tremove (host : Host) (table : ObjectRef) (args : List Value) : Program :=
  len host table (removeFrom host table args)

/-! ### move -/

/-- `for (i = 0; i < n; i++) tt[t + i] = a1[f + i]`, from `i` on. -/
def forwardLoop (source destination : ObjectRef) (f t n : Int) (next : Program) (i : Int) :
    Program :=
  if i < n then
    geti source (f + i) fun value =>
      seti destination (t + i) value (forwardLoop source destination f t n next (i + 1))
  else next
termination_by (n - i).toNat

/-- `for (i = n - 1; i >= 0; i--) tt[t + i] = a1[f + i]`, from `i` on. -/
def backwardLoop (source destination : ObjectRef) (f t : Int) (next : Program) (i : Int) :
    Program :=
  if i ≥ 0 then
    geti source (f + i) fun value =>
      seti destination (t + i) value (backwardLoop source destination f t next (i - 1))
  else next
termination_by (i + 1).toNat

/-- `lua_compare` with `LUA_OPEQ` for two tables. -/
def compareEq (host : Host) (left right : ObjectRef) (next : Bool → Program) : Program :=
  if left = right then next true
  else
    let event := host.binaryEvent .eq (.object left) (.object right)
    if event = .nil then next false
    else .ask (.call event (.object left) (.object right)) fun value => next (isTruthy value)

/-- The loops of `tmove`.  `tt` is the destination if one is given. -/
def moveElements (host : Host) (table : ObjectRef) (tt : Option ObjectRef) (f e t : Int) : Program :=
  let n := e - f + 1
  let destination := tt.getD table
  let finished := returned [.object destination]
  let forward := forwardLoop table destination f t n finished 0
  let backward := backwardLoop table destination f t finished (n - 1)
  if t > e ∨ t ≤ f then forward
  else match tt with
    | none => backward
    | some tt => compareEq host table tt fun equal => if equal then backward else forward

/-- The destination, if it is a table. -/
def checkDestination (host : Host) (value : Value) (next : Option ObjectRef → Program) : Program :=
  match value with
  | .nil => next none
  | .object o => if host.isTable o then next (some o) else rejected
  | _ => rejected

/-- `tmove`; of what behaves like a table only tables are let through. -/
def tmove (host : Host) (table : ObjectRef) (args : List Value) : Program :=
  checkinteger host (args.getD 1 .nil) fun f =>
    checkinteger host (args.getD 2 .nil) fun e =>
      checkinteger host (args.getD 3 .nil) fun t =>
        checkDestination host (args.getD 4 .nil) fun tt =>
          if e ≥ f then
            argcheck (f > 0 ∨ e < 2 ^ 63 - 1 + f)
              (argcheck (t ≤ 2 ^ 63 - 1 - (e - f + 1) + 1) (moveElements host table tt f e t))
          else returned [.object (tt.getD table)]

/-! ### concat and unpack -/

/-- The loop of `tconcat`, from `i` on, with what the buffer holds. -/
def concatLoop (host : Host) (table : ObjectRef) (separator : List UInt8) (last : Int) (i : Int)
    (buffer : List UInt8) : Program :=
  if i < last then
    geti table i fun value =>
      match host.text value with
      | none => rejected
      | some bytes => concatLoop host table separator last (i + 1) (buffer ++ bytes ++ separator)
  else if i = last then
    geti table i fun value =>
      match host.text value with
      | none => rejected
      | some bytes => .done (.returned (.text (buffer ++ bytes)))
  else .done (.returned (.text buffer))
termination_by (last - i).toNat

/-- `luaL_optlstring` with an empty default. -/
def optlstring (host : Host) (value : Value) (next : List UInt8 → Program) : Program :=
  if value = .nil then next []
  else match host.text value with
    | none => rejected
    | some bytes => next bytes

def tconcat (host : Host) (table : ObjectRef) (args : List Value) : Program :=
  len host table fun last =>
    optlstring host (args.getD 1 .nil) fun separator =>
      optinteger host (args.getD 2 .nil) 1 fun i =>
        optinteger host (args.getD 3 .nil) last fun last =>
          concatLoop host table separator last i []

/-- The loop of `tunpack`, from `i` on, with what has been pushed. -/
def unpackLoop (table : ObjectRef) (e : Int) (i : Int) (pushed : List Value) : Program :=
  if i < e then geti table i fun value => unpackLoop table e (i + 1) (pushed ++ [value])
  else geti table e fun value => returned (pushed ++ [value])
termination_by (e - i).toNat

/-- The rest of `tunpack`; `room` is the answer of `lua_checkstack`. -/
def unpackRange (room : Int → Bool) (table : ObjectRef) (i e : Int) : Program :=
  if i > e then returned []
  else
    let n := unsigned (e - i)
    if n ≥ 2 ^ 31 - 1 ∨ room (n + 1) = false then rejected else unpackLoop table e i []

/-- `tunpack`; the 5.5 library asks for the length first, and whether it is needed or not. -/
def tunpack (host : Host) (room : Int → Bool) (table : ObjectRef) (args : List Value) : Program :=
  match host.profile with
  | .lua54 =>
    optinteger host (args.getD 1 .nil) 1 fun i =>
      if args.getD 2 .nil = .nil then len host table fun e => unpackRange room table i e
      else checkinteger host (args.getD 2 .nil) fun e => unpackRange room table i e
  | .lua55 =>
    len host table fun n =>
      optinteger host (args.getD 1 .nil) 1 fun i =>
        optinteger host (args.getD 2 .nil) n fun e => unpackRange room table i e

/-- The function that is called, with room for as many results as `room` says. -/
def perform (host : Host) (room : Int → Bool) (kind : TableBuiltin) (table : ObjectRef)
    (args : List Value) : Program :=
  match kind with
  | .concat => tconcat host table args
  | .unpack => tunpack host room table args
  | .insert => tinsert host table args
  | .remove => tremove host table args
  | .move => tmove host table args
  | .create | .pack | .sort => rejected

end RivetLua.Stdlib.Table.Reference
