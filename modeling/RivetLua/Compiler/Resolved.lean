import RivetLua.Compiler.Ast

namespace RivetLua.Compiler

open RivetLua.Core

/-!
# Compiler — the resolved tree

The resolver replaces every name by the binding, upvalue or environment field it denotes, and
gives every way out of a scope the list of bindings that leave with it.

* `ResolvedFunction` — the bindings and upvalues of one function;
* `ResolvedExpr`, `ResolvedStmt`, `ResolvedBlock`, … — the tree;
* `ResolvedModule` — a resolved chunk.
-/

/-- `FunctionId`: functions are numbered in source order, the chunk is 0. -/
structure FunctionId where
  index : UInt32
  deriving DecidableEq, Repr

/-- `BindingId`: the function that declares the binding and its ordinal there. -/
structure BindingId where
  function : FunctionId
  ordinal : UInt32
  deriving DecidableEq, Repr

/-- `UpvalueId` of the resolver. -/
structure UpvalueId where
  index : UInt32
  deriving DecidableEq, Repr

/-- What an upvalue captures. -/
inductive UpvalueSource where
  | parentLocal (binding : BindingId)
  | parentUpvalue (upvalue : UpvalueId)
  deriving DecidableEq, Repr

/-- `BindingKind`. -/
inductive BindingKind where
  | local | parameter | numericFor | genericFor | genericForClose | localFunction
  | varargTable | environment | global
  deriving DecidableEq, Repr

/-- `BindingMeta`. -/
structure BindingMeta where
  id : BindingId
  name : List UInt8
  span : Span
  kind : BindingKind
  owner : FunctionId
  scopeDepth : Nat
  readonly : Bool
  attrib : Option Attribute
  closeMarker : Option Span
  deriving DecidableEq, Repr

/-- What a name denotes. -/
inductive ResolvedName where
  | local (binding : BindingId)
  | upvalue (upvalue : UpvalueId)
  | envField (env : BindingId) (name : List UInt8)
  | global (binding : BindingId)
  deriving DecidableEq, Repr

/-- `ScopeId`. -/
structure ScopeId where
  index : UInt32
  deriving DecidableEq, Repr

/-- `ExitKind`: how a scope is left. -/
inductive ExitKind where
  | normal | return | break | goto | error
  deriving DecidableEq, Repr

/-- `ClosePath`: `bindings` are the to-be-closed bindings that a way out leaves, innermost first;
    `exitedBindings` are all bindings that it leaves. -/
structure ClosePath where
  kind : ExitKind
  span : Span
  fromScope : ScopeId
  targetScope : Option ScopeId
  bindings : List BindingId
  exitedBindings : List BindingId
  deriving DecidableEq, Repr

/-- `ResolvedLocalName`. -/
structure ResolvedLocalName where
  binding : BindingId
  name : List UInt8
  attrib : Option Attribute
  span : Span
  deriving DecidableEq, Repr

/-- `ResolvedGenericForClose`: the hidden binding of the fourth value of a generic for. -/
structure ResolvedGenericForClose where
  binding : BindingId
  span : Span
  deriving DecidableEq, Repr

/-- `ResolvedVararg`. -/
structure ResolvedVararg where
  tableBinding : Option BindingId
  span : Span
  deriving DecidableEq, Repr

/-- `ResolvedFunction`: what the resolver collected about one function. -/
structure ResolvedFunction where
  id : FunctionId
  parent : Option FunctionId
  span : Span
  bindings : List BindingMeta
  upvalues : List UpvalueSource
  deriving DecidableEq, Repr

mutual

/-- `ResolvedExpr`. -/
inductive ResolvedExpr where
  | literal (literal : Literal) (span : Span)
  | nil (span : Span)
  | bool (value : Bool) (span : Span)
  | name (name : List UInt8) (resolution : ResolvedName) (span : Span)
  | vararg (binding : Option BindingId) (span : Span)
  | unary (op : UnaryOp) (expression : ResolvedExpr) (span : Span)
  | binary (op : BinaryOp) (left right : ResolvedExpr) (span : Span)
  | paren (expression : ResolvedExpr) (span : Span)
  | index (base index : ResolvedExpr) (span : Span)
  | field (base : ResolvedExpr) (name : List UInt8) (span : Span)
  | call (callee : ResolvedExpr) (arguments : List ResolvedExpr) (span : Span)
  | methodCall (receiver : ResolvedExpr) (method : List UInt8) (arguments : List ResolvedExpr)
      (span : Span)
  | function (body : ResolvedFunctionBody) (span : Span)
  | tableConstructor (fields : List ResolvedTableField) (span : Span)

/-- `ResolvedTableField`. -/
inductive ResolvedTableField where
  | array (value : ResolvedExpr) (separator : Option FieldSeparator) (span : Span)
  | named (name : List UInt8) (value : ResolvedExpr) (separator : Option FieldSeparator)
      (span : Span)
  | indexed (key value : ResolvedExpr) (separator : Option FieldSeparator) (span : Span)

/-- `ResolvedFunctionBody`. -/
structure ResolvedFunctionBody where
  function : FunctionId
  parameters : List ResolvedLocalName
  vararg : Option ResolvedVararg
  body : ResolvedBlock
  span : Span

/-- `ResolvedBlock`. -/
structure ResolvedBlock where
  scope : ScopeId
  statements : List ResolvedStmt
  terminator : Option Span
  span : Span
  normalClosePath : ClosePath
  errorClosePath : ClosePath

/-- `ResolvedIfClause`. -/
structure ResolvedIfClause where
  condition : ResolvedExpr
  body : ResolvedBlock

/-- `ResolvedGlobalDeclaration`. -/
inductive ResolvedGlobalDeclaration where
  | names (names : List ResolvedLocalName) (values : List ResolvedExpr)
      (prefixAttribute : Option Attribute) (span : Span)
  | star (prefixAttribute : Option Attribute) (span : Span)
  | function (binding : BindingId) (name : List UInt8) (body : ResolvedFunctionBody) (span : Span)

/-- `ResolvedStmt`. -/
inductive ResolvedStmt where
  | empty (span : Span)
  | ret (values : List ResolvedExpr) (closePath : ClosePath) (span : Span)
  | assignment (targets values : List ResolvedExpr) (span : Span)
  | call (call : ResolvedExpr) (span : Span)
  | local (bindings : List BindingId) (names : List ResolvedLocalName)
      (values : List ResolvedExpr) (span : Span)
  | global (declaration : ResolvedGlobalDeclaration) (span : Span)
  | break (closePath : ClosePath) (span : Span)
  | goto (name : List UInt8) (nameSpan : Span) (closePath : ClosePath) (span : Span)
  | label (name : List UInt8) (nameSpan span : Span)
  | do (body : ResolvedBlock) (span : Span)
  | if (clauses : List ResolvedIfClause) (elseBlock : Option ResolvedBlock) (span : Span)
  | while (condition : ResolvedExpr) (body : ResolvedBlock) (span : Span)
  | repeat (body : ResolvedBlock) (condition : ResolvedExpr) (span : Span)
  | numericFor (name : ResolvedLocalName) (initial limit : ResolvedExpr)
      (step : Option ResolvedExpr) (body : ResolvedBlock) (span : Span)
  | genericFor (names : List ResolvedLocalName) (values : List ResolvedExpr)
      (closing : ResolvedGenericForClose) (body : ResolvedBlock) (closePath : ClosePath)
      (span : Span)
  | function (name : ResolvedExpr) (method : Option MethodName) (body : ResolvedFunctionBody)
      (span : Span)
  | localFunction (name : ResolvedLocalName) (body : ResolvedFunctionBody) (span : Span)

end

/-- `expr_span`. -/
def ResolvedExpr.span : ResolvedExpr → Span
  | .literal _ span | .nil span | .bool _ span | .name _ _ span | .vararg _ span
  | .unary _ _ span | .binary _ _ _ span | .paren _ span | .index _ _ span | .field _ _ span
  | .call _ _ span | .methodCall _ _ _ span | .function _ span | .tableConstructor _ span => span

/-- `resolved_statement_span`. -/
def ResolvedStmt.span : ResolvedStmt → Span
  | .empty span | .ret _ _ span | .assignment _ _ span | .call _ span | .local _ _ _ span
  | .global _ span | .break _ span | .goto _ _ _ span | .label _ _ span | .do _ span
  | .if _ _ span | .while _ _ span | .repeat _ _ span | .numericFor _ _ _ _ _ span
  | .genericFor _ _ _ _ _ span | .function _ _ _ span | .localFunction _ _ span => span

/-- `ResolvedModule`. -/
structure ResolvedModule where
  profile : LuaProfile
  span : Span
  root : ResolvedBlock
  functions : List ResolvedFunction

end RivetLua.Compiler
