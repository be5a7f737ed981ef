import RivetLua.Compiler.Lower

namespace RivetLua.Compiler

open RivetLua.Core
open RivetLua.Bytecode (Register ProtoId)

/-!
# Compiler — lowering a module

* `blockBodies` — the functions written in a block;
* `lowerFunctions` — a prototype for each function, in the order of their identifiers;
* `lower` — all functions of a module, and the hidden upvalue of those that use the list writer.
-/

/-- `IrModule`. -/
structure IrModule where
  profile : LuaProfile
  span : Span
  functionPrototypes : List (FunctionId × ProtoId)
  prototypes : List IrPrototype
  deriving DecidableEq

/-! ### The bodies of functions -/

mutual

/-- `collect_block_bodies`. -/
def blockBodies : ResolvedBlock → List ResolvedFunctionBody
  | ⟨_, statements, _, _, _, _⟩ => statementsBodies statements

/-- `collect_body`. -/
def functionBodies : ResolvedFunctionBody → List ResolvedFunctionBody
  | ⟨function, parameters, vararg, body, span⟩ =>
    ⟨function, parameters, vararg, body, span⟩ :: blockBodies body

/-- The bodies in a list of statements. -/
def statementsBodies : List ResolvedStmt → List ResolvedFunctionBody
  | [] => []
  | statement :: rest => statementBodies statement ++ statementsBodies rest

/-- The bodies in the clauses of an `if`. -/
def clausesBodies : List ResolvedIfClause → List ResolvedFunctionBody
  | [] => []
  | ⟨condition, body⟩ :: rest => exprBodies condition ++ blockBodies body ++ clausesBodies rest

/-- `collect_statement_bodies`. -/
def statementBodies : ResolvedStmt → List ResolvedFunctionBody
  | .ret values _ _ | .local _ _ values _ => exprsBodies values
  | .assignment targets values _ => exprsBodies targets ++ exprsBodies values
  | .call call _ => exprBodies call
  | .do body _ => blockBodies body
  | .if clauses none _ => clausesBodies clauses
  | .if clauses (some body) _ => clausesBodies clauses ++ blockBodies body
  | .while condition body _ => exprBodies condition ++ blockBodies body
  | .repeat body condition _ => blockBodies body ++ exprBodies condition
  | .numericFor _ initial limit none body _ =>
    exprBodies initial ++ exprBodies limit ++ blockBodies body
  | .numericFor _ initial limit (some step) body _ =>
    exprBodies initial ++ exprBodies limit ++ exprBodies step ++ blockBodies body
  | .genericFor _ values _ body _ _ => exprsBodies values ++ blockBodies body
  | .function name _ body _ => exprBodies name ++ functionBodies body
  | .localFunction _ body _ => functionBodies body
  | .global declaration _ => declarationBodies declaration
  | .empty _ | .break _ _ | .goto _ _ _ _ | .label _ _ _ => []

/-- The bodies in a global declaration. -/
def declarationBodies : ResolvedGlobalDeclaration → List ResolvedFunctionBody
  | .names _ values _ _ => exprsBodies values
  | .function _ _ body _ => functionBodies body
  | .star _ _ => []

/-- `collect_expr_bodies`. -/
def exprBodies : ResolvedExpr → List ResolvedFunctionBody
  | .unary _ expression _ | .paren expression _ | .field expression _ _ => exprBodies expression
  | .binary _ left right _ | .index left right _ => exprBodies left ++ exprBodies right
  | .call callee arguments _ => exprBodies callee ++ exprsBodies arguments
  | .methodCall receiver _ arguments _ => exprBodies receiver ++ exprsBodies arguments
  | .function body _ => functionBodies body
  | .tableConstructor fields _ => fieldsBodies fields
  | .literal _ _ | .nil _ | .bool _ _ | .name _ _ _ | .vararg _ _ => []

/-- The bodies in a list of expressions. -/
def exprsBodies : List ResolvedExpr → List ResolvedFunctionBody
  | [] => []
  | expression :: rest => exprBodies expression ++ exprsBodies rest

/-- The bodies in the fields of a table constructor. -/
def fieldsBodies : List ResolvedTableField → List ResolvedFunctionBody
  | [] => []
  | .array value _ _ :: rest | .named _ value _ _ :: rest => exprBodies value ++ fieldsBodies rest
  | .indexed key value _ _ :: rest => exprBodies key ++ exprBodies value ++ fieldsBodies rest

end

/-! ### Prototypes -/

/-- The prototype of each function is its place in the list. -/
def numberPrototypes : Nat → List ResolvedFunction → Checked (List (FunctionId × ProtoId))
  | _, [] => .ok []
  | index, function :: rest => do
    let id ← orFail (if index < 2 ^ 32 then some (UInt32.ofNat index) else none) function.span
      "prototype ID 超過 IR 限制"
    let others ← numberPrototypes (index + 1) rest
    .ok ((function.id, id) :: others)

/-- The body of a function; the chunk has none. -/
def bodyOf (bodies : List ResolvedFunctionBody) (function : ResolvedFunction) :
    Checked (Option ResolvedFunctionBody) :=
  if function.id = rootFunction then .ok none
  else do
    let body ← orFail (bodies.find? fun body => decide (body.function = function.id)) function.span
      "P04 function metadata 缺少 body"
    failIf ((bodies.filter fun body => decide (body.function = function.id)).length ≠ 1)
      function.span "P04 function body map 不唯一"
    .ok (some body)

/-- One function of a module. -/
def lowerFunctionOf (module_ : ResolvedModule) (limits : IrLimits)
    (functions : List ResolvedFunction) (prototypes : List (FunctionId × ProtoId))
    (function : ResolvedFunction) : Checked IrPrototype := do
  let functionBody ← bodyOf (blockBodies module_.root) function
  let body := (functionBody.map ResolvedFunctionBody.body).getD module_.root
  let id ← prototypeOf prototypes function.id function.span
  let parent ← match function.parent with
    | some parent => do
      let proto ← prototypeOf prototypes parent function.span
      .ok (some proto)
    | none => .ok none
  let ctx ← newContext function id parent body.span limits prototypes functions functionBody
  lowerBody ctx body

/-- The functions of a module, one after the other. -/
def lowerFunctions (module_ : ResolvedModule) (limits : IrLimits)
    (functions : List ResolvedFunction) (prototypes : List (FunctionId × ProtoId)) :
    List ResolvedFunction → Checked (List IrPrototype)
  | [] => .ok []
  | function :: rest => do
    let prototype ← lowerFunctionOf module_ limits functions prototypes function
    let others ← lowerFunctions module_ limits functions prototypes rest
    .ok (prototype :: others)

/-! ### Hidden upvalues -/

/-- The prototypes around a prototype, itself included.  A parent comes before its children, so
    that there are at most as many as prototypes. -/
def enclosing (prototypes : List IrPrototype) : Nat → Option ProtoId → List ProtoId
  | 0, _ | _, none => []
  | fuel + 1, some id => id :: enclosing prototypes fuel (prototypes[id.toNat]?.bind IrPrototype.parent)

/-- A prototype needs the hidden upvalue if it or a function in it calls the list writer. -/
def needsHidden (prototypes : List IrPrototype) (id : ProtoId) : Bool :=
  prototypes.any fun prototype => !prototype.nativeListWrites.isEmpty
    && (enclosing prototypes prototypes.length (some prototype.id)).contains id

/-- The hidden upvalue of a prototype: the list writer, handed down from the chunk. -/
def addHidden (limits : IrLimits) (prototypes : List IrPrototype) (prototype : IrPrototype) :
    Checked IrPrototype :=
  if needsHidden prototypes prototype.id then do
    failIf (limits.maxUpvaluesPerPrototype ≤ prototype.upvalues.length) prototype.span
      "native hidden upvalue 數超過 IR 限制"
    let hidden ← checkU16 prototype.upvalues.length prototype.span "native hidden upvalue ID 超過限制"
    let source ← match prototype.parent with
      | some parent => do
        let guests := (prototypes[parent.toNat]?.map fun proto => proto.upvalues.length).getD 0
        let upvalue ← orFail (if guests < 2 ^ 32 then some (UInt32.ofNat guests) else none)
          prototype.span "parent hidden upvalue ID 超過限制"
        .ok (UpvalueSource.parentUpvalue ⟨upvalue⟩)
      | none => .ok (.parentLocal prototype.globalEnvironmentBinding)
    .ok { prototype with
      upvalues := prototype.upvalues ++ [⟨hidden, source⟩]
      nativeListWriteUpvalue := some hidden }
  else .ok prototype

/-- `lower`. -/
def lower (module_ : ResolvedModule) (limits : IrLimits) : Checked IrModule := do
  let functions := module_.functions.mergeSort fun a b => decide (a.id.index ≤ b.id.index)
  failIf (¬ (functions.map ResolvedFunction.id).Nodup) module_.span
    "P04 function metadata 有重複 FunctionId"
  failIf (¬ ∃ function ∈ functions, function.id = rootFunction) module_.span
    "P04 metadata 缺少 root FunctionId"
  failIf (limits.maxPrototypes < functions.length) module_.span "prototype 數超過 IR 限制"
  let functionPrototypes ← numberPrototypes 0 functions
  let prototypes ← lowerFunctions module_ limits functions functionPrototypes functions
  let prototypes ← prototypes.mapM (addHidden limits prototypes)
  .ok
    { profile := module_.profile
      span := module_.span
      functionPrototypes := functionPrototypes
      prototypes := prototypes }

end RivetLua.Compiler
