import RivetLua.Compiler.Lower

namespace RivetLua.Compiler

open RivetLua.Bytecode (Register Instruction)

/-!
# Compiler — the register layout of expressions

How many registers lowering an expression takes, and where its value ends up, depends on the
expression only.  With these numbers one can tell from the tree whether the inputs of a call are
safe until they have been copied into its window.

* `registersTaken`, `resultPlace` — the layout of an expression;
* `InputSite` — a list of inputs that is evaluated first and copied afterwards;
* `InputSite.clear` — the copies do not overwrite inputs that are still to be copied;
* `InputSite.settled` — no input is a local that a function may assign before it is copied;
* `blockSites` — all sites of a block.
-/

/-! ### Locals that functions may assign -/

/-- The register of a binding. -/
def BuilderContext.registerOf (ctx : BuilderContext) (binding : BindingId) : Option Register :=
  (ctx.bindingRegisters.find? fun entry => decide (entry.1 = binding)).map Prod.snd

/-- The registers of the bindings in `held`. -/
def BuilderContext.heldRegister (ctx : BuilderContext) (held : BindingId → Bool) (register : Nat) :
    Prop :=
  ∃ binding r, held binding = true ∧ ctx.registerOf binding = some r ∧ r.toNat = register

/-! ### Layout -/

/-- The registers taken for a name. -/
def nameTaken (ctx : BuilderContext) : ResolvedName → Nat
  | .local _ => 0
  | .upvalue _ => 1
  | .envField env _ => if env.function = ctx.function.id then 2 else 3
  | .global _ => 2

/-- The arguments that are evaluated before an open last one. -/
def fixedArguments (arguments : List ResolvedExpr) : List ResolvedExpr :=
  if openLast? arguments then arguments.dropLast else arguments

/-- The room at the place of an open last argument: the registers from there on that are taken
    when it is lowered.  The window starts `room` registers below the next one, its inputs took
    `taken` more, and it has `count` values behind the callee. -/
def lastRoom (room taken count : Nat) : Nat := max (room + taken) (count + 2) - (count + 1)

/-- The registers a window with a fixed base takes, given what an open last argument takes. -/
def windowTaken (room taken count : Nat) (openLast : Option (Nat → Nat)) : Nat :=
  match openLast with
  | none => max (room + taken) (count + 1) - room
  | some lastTaken =>
    max (room + taken) (count + 2) - room + lastTaken (lastRoom room taken count)

mutual

/-- The registers that lowering an expression takes. -/
def registersTaken (ctx : BuilderContext) : ResolvedExpr → Nat
  | .literal _ _ | .nil _ | .bool _ _ | .vararg _ _ | .function _ _ => 1
  | .name _ resolution _ => nameTaken ctx resolution
  | .unary _ expression _ => registersTaken ctx expression + 1
  | .binary op left right _ =>
    registersTaken ctx left + registersTaken ctx right + (if op = .or then 2 else 1)
  | .paren expression _ => registersTaken ctx expression
  | .index base index _ => registersTaken ctx base + registersTaken ctx index + 1
  | .field base _ _ => registersTaken ctx base + 2
  | .call callee arguments _ =>
    registersTaken ctx callee + argumentsTaken ctx arguments
      + (if openLast? arguments then
          (fixedArguments arguments).length + 2 + openLastTaken ctx arguments 1
        else (fixedArguments arguments).length + 1)
  | .methodCall receiver _ arguments _ =>
    registersTaken ctx receiver + 2 + argumentsTaken ctx arguments
      + (if openLast? arguments then
          (fixedArguments arguments).length + 3 + openLastTaken ctx arguments 1
        else (fixedArguments arguments).length + 2)
  | .tableConstructor fields _ => 1 + fieldsTaken ctx fields

/-- The registers that the arguments before an open last one take. -/
def argumentsTaken (ctx : BuilderContext) : List ResolvedExpr → Nat
  | [] => 0
  | argument :: rest =>
    if rest.isEmpty && isOpenExpression argument then 0
    else registersTaken ctx argument + argumentsTaken ctx rest

/-- The registers that the open last argument takes. -/
def openLastTaken (ctx : BuilderContext) : List ResolvedExpr → Nat → Nat
  | [], _ => 0
  | argument :: rest, room =>
    if rest.isEmpty then openTaken ctx argument room else openLastTaken ctx rest room

/-- The registers that an open expression takes where `room` registers are taken already. -/
def openTaken (ctx : BuilderContext) : ResolvedExpr → Nat → Nat
  | .call callee arguments _, room =>
    windowTaken room (registersTaken ctx callee + argumentsTaken ctx arguments)
      (fixedArguments arguments).length
      (if openLast? arguments then some (openLastTaken ctx arguments) else none)
  | .methodCall receiver _ arguments _, room =>
    windowTaken room (registersTaken ctx receiver + 2 + argumentsTaken ctx arguments)
      ((fixedArguments arguments).length + 1)
      (if openLast? arguments then some (openLastTaken ctx arguments) else none)
  | _, _ => 0

/-- The registers that the fields of a table constructor take. -/
def fieldsTaken (ctx : BuilderContext) : List ResolvedTableField → Nat
  | [] => 0
  | .array value _ _ :: rest =>
    if rest.isEmpty && isOpenExpression value then 5 + openTaken ctx value 1
    else 1 + registersTaken ctx value + fieldsTaken ctx rest
  | .named _ value _ _ :: rest => 1 + registersTaken ctx value + fieldsTaken ctx rest
  | .indexed key value _ _ :: rest =>
    registersTaken ctx key + registersTaken ctx value + fieldsTaken ctx rest

end

/-- Where the value of an expression is, counted from the next register; a local is used in
    place. -/
def resultPlace (ctx : BuilderContext) : ResolvedExpr → Option Nat
  | .name _ (.local _) _ => none
  | .name _ resolution _ => some (nameTaken ctx resolution - 1)
  | .literal _ _ | .nil _ | .bool _ _ | .vararg _ _ | .function _ _ | .tableConstructor _ _ => some 0
  | .unary _ expression _ => some (registersTaken ctx expression)
  | .binary op left right _ =>
    if op.isLogical then some (registersTaken ctx left)
    else some (registersTaken ctx left + registersTaken ctx right)
  | .paren expression _ => resultPlace ctx expression
  | .index base index _ => some (registersTaken ctx base + registersTaken ctx index)
  | .field base _ _ => some (registersTaken ctx base + 1)
  | .call callee arguments _ => some (registersTaken ctx callee + argumentsTaken ctx arguments)
  | .methodCall receiver _ arguments _ =>
    some (registersTaken ctx receiver + 2 + argumentsTaken ctx arguments)

/-! ### Sites -/

/-- Inputs that are evaluated in order and copied afterwards.  A method call looks its method up
    behind the first input.  `room` is absent where the window lies behind the inputs. -/
structure InputSite where
  inputs : List ResolvedExpr
  isMethod : Bool
  room : Option Nat

/-- An input in its own register, `offset` and its place above the base of the window, is not
    below the `index` it is copied to; and so for the inputs behind it. -/
def argumentsClear (ctx : BuilderContext) : Nat → Nat → List ResolvedExpr → Bool
  | _, _, [] => true
  | offset, index, argument :: rest =>
    (match resultPlace ctx argument with
      | none => true
      | some place => decide (index ≤ offset + place))
    && argumentsClear ctx (offset + registersTaken ctx argument) (index + 1) rest

/-- No copy overwrites an input that is still to be copied. -/
def InputSite.clear (ctx : BuilderContext) (site : InputSite) : Bool :=
  match site.room, site.inputs with
  | some room, first :: arguments =>
    if site.isMethod then argumentsClear ctx (room + registersTaken ctx first + 2) 2 arguments
    else argumentsClear ctx (room + registersTaken ctx first) 1 arguments
  | _, _ => true

/-- Lowering the expression emits no instruction that may run a function. -/
def isQuiet : ResolvedExpr → Bool
  | .literal _ _ | .nil _ | .bool _ _ | .vararg _ _ | .function _ _ => true
  | .name _ resolution _ =>
    match resolution with
    | .local _ | .upvalue _ => true
    | .envField _ _ | .global _ => false
  | .unary op expression _ => decide (op = .not) && isQuiet expression
  | .binary op left right _ => op.isLogical && isQuiet left && isQuiet right
  | .paren expression _ => isQuiet expression
  | .tableConstructor fields _ => fields.isEmpty
  | .index _ _ _ | .field _ _ _ | .call _ _ _ | .methodCall _ _ _ _ => false

/-- A local that is used in place and that a function may assign. -/
def isHeldLocal (held : BindingId → Bool) : ResolvedExpr → Bool
  | .name _ (.local binding) _ => held binding
  | .paren expression _ => isHeldLocal held expression
  | _ => false

/-- No input that a function may assign is followed by one that may run a function. -/
def inputsSettled (held : BindingId → Bool) : List ResolvedExpr → Bool
  | [] => true
  | input :: rest => (!isHeldLocal held input || rest.all isQuiet) && inputsSettled held rest

/-- No input is a local that a function may assign before it is copied. -/
def InputSite.settled (held : BindingId → Bool) (site : InputSite) : Bool :=
  (!site.isMethod || !(site.inputs.head?.any (isHeldLocal held))) && inputsSettled held site.inputs

/-- The inputs of a site arrive in their window. -/
def InputSite.safe (ctx : BuilderContext) (held : BindingId → Bool) (site : InputSite) : Bool :=
  site.clear ctx && site.settled held

mutual

/-- The sites in an expression. -/
def exprSites (ctx : BuilderContext) : ResolvedExpr → List InputSite
  | .literal _ _ | .nil _ | .bool _ _ | .vararg _ _ | .function _ _ | .name _ _ _ => []
  | .unary _ expression _ | .paren expression _ | .field expression _ _ => exprSites ctx expression
  | .binary _ left right _ | .index left right _ => exprSites ctx left ++ exprSites ctx right
  | .call callee arguments _ =>
    exprSites ctx callee ++ argumentSites ctx arguments
      ++ (if openLast? arguments then openLastSites ctx arguments 1 else [])
      ++ [⟨callee :: fixedArguments arguments, false, none⟩]
  | .methodCall receiver _ arguments _ =>
    exprSites ctx receiver ++ argumentSites ctx arguments
      ++ (if openLast? arguments then openLastSites ctx arguments 1 else [])
      ++ [⟨receiver :: fixedArguments arguments, true, none⟩]
  | .tableConstructor fields _ => fieldSites ctx fields

/-- The sites in the arguments before an open last one. -/
def argumentSites (ctx : BuilderContext) : List ResolvedExpr → List InputSite
  | [] => []
  | argument :: rest =>
    if rest.isEmpty && isOpenExpression argument then []
    else exprSites ctx argument ++ argumentSites ctx rest

/-- The sites in the open last argument. -/
def openLastSites (ctx : BuilderContext) : List ResolvedExpr → Nat → List InputSite
  | [], _ => []
  | argument :: rest, room =>
    if rest.isEmpty then openSites ctx argument room else openLastSites ctx rest room

/-- The sites in an open expression where `room` registers are taken already. -/
def openSites (ctx : BuilderContext) : ResolvedExpr → Nat → List InputSite
  | .call callee arguments _, room =>
    exprSites ctx callee ++ argumentSites ctx arguments
      ++ (if openLast? arguments then
          openLastSites ctx arguments
            (lastRoom room (registersTaken ctx callee + argumentsTaken ctx arguments)
              (fixedArguments arguments).length)
        else [])
      ++ [⟨callee :: fixedArguments arguments, false, some room⟩]
  | .methodCall receiver _ arguments _, room =>
    exprSites ctx receiver ++ argumentSites ctx arguments
      ++ (if openLast? arguments then
          openLastSites ctx arguments
            (lastRoom room (registersTaken ctx receiver + 2 + argumentsTaken ctx arguments)
              ((fixedArguments arguments).length + 1))
        else [])
      ++ [⟨receiver :: fixedArguments arguments, true, some room⟩]
  | _, _ => []

/-- The sites in the fields of a table constructor. -/
def fieldSites (ctx : BuilderContext) : List ResolvedTableField → List InputSite
  | [] => []
  | .array value _ _ :: rest =>
    if rest.isEmpty && isOpenExpression value then openSites ctx value 1
    else exprSites ctx value ++ fieldSites ctx rest
  | .named _ value _ _ :: rest => exprSites ctx value ++ fieldSites ctx rest
  | .indexed key value _ _ :: rest =>
    exprSites ctx key ++ exprSites ctx value ++ fieldSites ctx rest

end

/-! ### Sites of statements -/

/-- The registers the window of an open expression takes. -/
def openSlotCount : ResolvedExpr → Nat
  | .call _ arguments _ => arguments.length + 1
  | .methodCall _ _ arguments _ => arguments.length + 2
  | _ => 1

/-- The registers reserved for an expression list of which `count` values are wanted. -/
def listSlots (values : List ResolvedExpr) (count : Nat) : Nat :=
  match values.getLast? with
  | some last =>
    if isOpenExpression last && decide (min (values.length - 1) count < count) then
      max count (min (values.length - 1) count + openSlotCount last)
    else count
  | none => count

/-- The sites in an expression list of which `count` values are wanted.  The list has `room`
    registers, and `filled` values are there already. -/
def listSites (ctx : BuilderContext) (count : Nat) :
    Nat → Nat → List ResolvedExpr → List InputSite
  | _, _, [] => []
  | room, filled, value :: rest =>
    if rest.isEmpty && isOpenExpression value then
      if count - filled = 0 then exprSites ctx value else openSites ctx value (room - filled)
    else exprSites ctx value ++ listSites ctx count (room + registersTaken ctx value)
      (if filled < count then filled + 1 else filled) rest

/-- The sites in the right-hand side of a declaration or an assignment. -/
def valueSites (ctx : BuilderContext) (values : List ResolvedExpr) (count : Nat) :
    List InputSite :=
  listSites ctx count (listSlots values count) 0 values

/-- The sites of a return: the values before an open last one are evaluated first. -/
def returnSites (ctx : BuilderContext) (values : List ResolvedExpr) : List InputSite :=
  match values.getLast? with
  | none => []
  | some last =>
    if isOpenExpression last then
      (values.dropLast.flatMap (exprSites ctx)) ++ [⟨values.dropLast, false, none⟩]
        ++ openSites ctx last (openSlotCount last)
    else valueSites ctx values values.length

/-- The sites in a target of an assignment. -/
def targetSites (ctx : BuilderContext) : ResolvedExpr → List InputSite
  | .index base index _ => exprSites ctx base ++ exprSites ctx index
  | .field base _ _ => exprSites ctx base
  | _ => []

/-- The sites in a global declaration. -/
def globalSites (ctx : BuilderContext) : ResolvedGlobalDeclaration → List InputSite
  | .names names values _ _ => (values.take names.length).flatMap (exprSites ctx)
  | .star _ _ | .function _ _ _ _ => []

mutual

/-- The sites of a statement. -/
def statementSites (ctx : BuilderContext) : ResolvedStmt → List InputSite
  | .empty _ | .label _ _ _ | .break _ _ | .goto _ _ _ _ | .localFunction _ _ _ => []
  | .ret [value] _ _ => if value.isCall then exprSites ctx value else returnSites ctx [value]
  | .ret values _ _ => returnSites ctx values
  | .local bindings _ values _ => valueSites ctx values bindings.length
  | .assignment targets values _ =>
    targets.flatMap (targetSites ctx) ++ valueSites ctx values targets.length
  | .call call _ => exprSites ctx call
  | .do body _ => blockSites ctx body
  | .if clauses none _ => clauseSites ctx clauses
  | .if clauses (some body) _ => clauseSites ctx clauses ++ blockSites ctx body
  | .while condition body _ | .repeat body condition _ =>
    exprSites ctx condition ++ blockSites ctx body
  | .numericFor _ initial limit none body _ =>
    exprSites ctx initial ++ exprSites ctx limit ++ blockSites ctx body
  | .numericFor _ initial limit (some step) body _ =>
    exprSites ctx initial ++ exprSites ctx limit ++ exprSites ctx step ++ blockSites ctx body
  | .genericFor _ values _ body _ _ => valueSites ctx values 4 ++ blockSites ctx body
  | .function name _ _ _ => targetSites ctx name
  | .global declaration _ => globalSites ctx declaration

/-- The sites of a block. -/
def blockSites (ctx : BuilderContext) : ResolvedBlock → List InputSite
  | ⟨_, statements, _, _, _, _⟩ => statementsSites ctx statements

/-- The sites of a list of statements. -/
def statementsSites (ctx : BuilderContext) : List ResolvedStmt → List InputSite
  | [] => []
  | statement :: rest => statementSites ctx statement ++ statementsSites ctx rest

/-- The sites of the clauses of an `if`. -/
def clauseSites (ctx : BuilderContext) : List ResolvedIfClause → List InputSite
  | [] => []
  | ⟨condition, body⟩ :: rest =>
    exprSites ctx condition ++ blockSites ctx body ++ clauseSites ctx rest

end

end RivetLua.Compiler
