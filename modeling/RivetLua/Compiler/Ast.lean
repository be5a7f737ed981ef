import RivetLua.Core.Profile
import RivetLua.Core.Value

namespace RivetLua.Compiler

open RivetLua.Core

/-!
# Compiler — the syntax tree

The tree the parser builds and the resolver reads.  Byte positions are `usize` in the source and
natural numbers here; a byte string is a list of bytes.

* `Expr`, `TableField`, `FunctionBody`, `Block`, `Stmt`, … — the tree, one type for each
  nonterminal that carries data;
* `Module` — a parsed chunk.
-/

/-- A half-open range of source bytes. -/
structure Span where
  startByte : Nat
  endByte : Nat
  deriving DecidableEq, Repr

/-- `Literal`: what a token carries. -/
inductive Literal where
  | name (bytes : List UInt8)
  | integer (value : Number)
  | float (value : Number)
  | string (bytes : List UInt8)
  deriving DecidableEq, Repr

/-- `UnaryOp`. -/
inductive UnaryOp where
  | negate | not | length | bitNot
  deriving DecidableEq, Repr

/-- `BinaryOp`. -/
inductive BinaryOp where
  | or | and | equal | notEqual | less | lessEqual | greater | greaterEqual
  | pipe | bitXor | ampersand | shiftLeft | shiftRight | concat
  | add | subtract | multiply | divide | floorDivide | modulo | power
  deriving DecidableEq, Repr

/-- `FieldSeparator`. -/
inductive FieldSeparator where
  | comma | semicolon
  deriving DecidableEq, Repr

/-- The name behind the colon of a method definition. -/
structure MethodName where
  name : List UInt8
  colonSpan : Span
  span : Span
  deriving DecidableEq, Repr

/-- An attribute such as `<const>`. -/
structure Attribute where
  name : List UInt8
  span : Span
  deriving DecidableEq, Repr

/-- A declared name. -/
structure LocalName where
  name : List UInt8
  attrib : Option Attribute
  span : Span
  deriving DecidableEq, Repr

/-- The `...` of a parameter list; Lua 5.5 may name its table. -/
structure Vararg where
  tableName : Option LocalName
  span : Span
  deriving DecidableEq, Repr

mutual

/-- An expression. -/
inductive Expr where
  | literal (literal : Literal) (span : Span)
  | nil (span : Span)
  | bool (value : Bool) (span : Span)
  | name (name : List UInt8) (span : Span)
  | vararg (span : Span)
  | unary (op : UnaryOp) (expression : Expr) (span : Span)
  | binary (op : BinaryOp) (left right : Expr) (span : Span)
  | paren (expression : Expr) (span : Span)
  | index (base index : Expr) (span : Span)
  | field (base : Expr) (name : List UInt8) (span : Span)
  | call (callee : Expr) (arguments : List Expr) (span : Span)
  | methodCall (receiver : Expr) (method : List UInt8) (arguments : List Expr) (span : Span)
  | function (body : FunctionBody) (span : Span)
  | tableConstructor (fields : List TableField) (span : Span)

/-- A field of a table constructor. -/
inductive TableField where
  | array (value : Expr) (separator : Option FieldSeparator) (span : Span)
  | named (name : List UInt8) (value : Expr) (separator : Option FieldSeparator) (span : Span)
  | indexed (key value : Expr) (separator : Option FieldSeparator) (span : Span)

/-- The parameters and the block of a function. -/
structure FunctionBody where
  parameters : List LocalName
  vararg : Option Vararg
  body : Block
  span : Span

/-- A block with the keyword that ends it. -/
structure Block where
  statements : List Stmt
  terminator : Option Span
  span : Span

/-- A clause of an `if`: the source's pair of condition and body. -/
structure IfClause where
  condition : Expr
  body : Block

/-- A Lua 5.5 `global` declaration. -/
inductive GlobalDeclaration where
  | names (names : List LocalName) (values : List Expr) (prefixAttribute : Option Attribute)
      (span : Span)
  | star (prefixAttribute : Option Attribute) (span : Span)
  | function (name : List UInt8) (body : FunctionBody) (span : Span)

/-- A statement. -/
inductive Stmt where
  | empty (span : Span)
  | ret (values : List Expr) (span : Span)
  | assignment (targets values : List Expr) (span : Span)
  | call (call : Expr) (span : Span)
  | local (names : List LocalName) (values : List Expr) (span : Span)
  | global (declaration : GlobalDeclaration) (span : Span)
  | break (span : Span)
  | goto (name : List UInt8) (nameSpan span : Span)
  | label (name : List UInt8) (nameSpan span : Span)
  | do (body : Block) (span : Span)
  | if (clauses : List IfClause) (elseBlock : Option Block) (span : Span)
  | while (condition : Expr) (body : Block) (span : Span)
  | repeat (body : Block) (condition : Expr) (span : Span)
  | numericFor (name : LocalName) (initial limit : Expr) (step : Option Expr) (body : Block)
      (span : Span)
  | genericFor (names : List LocalName) (values : List Expr) (body : Block) (span : Span)
  | function (name : Expr) (method : Option MethodName) (body : FunctionBody) (span : Span)
  | localFunction (name : LocalName) (body : FunctionBody) (span : Span)

end

/-- `Expr::span`. -/
def Expr.span : Expr → Span
  | .literal _ span | .nil span | .bool _ span | .name _ span | .vararg span
  | .unary _ _ span | .binary _ _ _ span | .paren _ span | .index _ _ span | .field _ _ span
  | .call _ _ span | .methodCall _ _ _ span | .function _ span | .tableConstructor _ span => span

/-- A parsed chunk. -/
structure Module where
  profile : LuaProfile
  span : Span
  root : Block

end RivetLua.Compiler
