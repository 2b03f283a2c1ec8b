import TopoLlvm.Library.IntegerBits

/-!
# Lifted programs

The statement lists that the lifter produces, and what they mean: the operators work at the common
type of their operands, and a declaration converts to its type.
-/

namespace TopoLlvm
namespace Decompile

open IntegerBits

/-- The types of the lifted integers: `bool`, and an integer type by its sign and width
(`int32_t`, `uint8_t`, `i7`). -/
inductive TypeNode where
  | bool
  | int (signed : Bool) (width : ℕ)
  deriving DecidableEq

inductive BinaryOp where
  | Add | Sub | Mul | Div | Mod | And | Or
  | Eq | NotEq | Less | Greater | LessEq | GreaterEq
  deriving DecidableEq

inductive Expr where
  | literalBool (value : Bool)
  | literalInt (value : ℤ)
  | varRef (name : String)
  | binaryOp (op : BinaryOp) (lhs rhs : Expr)
  | ternary (condition trueExpr falseExpr : Expr)
  | unsupported (description : String)
  deriving DecidableEq

inductive Stmt where
  | varDecl (type : TypeNode) (name : String) (init : Expr)
  | returnStmt (value : Expr)
  deriving DecidableEq

structure Parameter where
  type : TypeNode
  name : String
  deriving DecidableEq

structure TranspileFunction where
  qualifiedName : String
  returnType : TypeNode
  params : List Parameter
  body : List Stmt
  deriving DecidableEq

def Expr.hasUnsupported : Expr → Bool
  | binaryOp _ lhs rhs => lhs.hasUnsupported || rhs.hasUnsupported
  | ternary condition trueExpr falseExpr =>
      condition.hasUnsupported || trueExpr.hasUnsupported || falseExpr.hasUnsupported
  | unsupported _ => true
  | literalBool _ | literalInt _ | varRef _ => false

def Stmt.hasUnsupported : Stmt → Bool
  | varDecl _ _ init => init.hasUnsupported
  | returnStmt value => value.hasUnsupported

def TranspileFunction.hasUnsupported (func : TranspileFunction) : Bool :=
  func.body.any Stmt.hasUnsupported

namespace TypeNode

def width : TypeNode → ℕ
  | bool => 1
  | int _ width => width

/-- The value of the type that an integer converts to. -/
def convert : TypeNode → ℤ → ℤ
  | bool, value => if value = 0 then 0 else 1
  | int signed width, value => reading signed width value

/-- A truth value in an operation is an `int`. -/
def promote : TypeNode → TypeNode
  | bool => int true 32
  | int signed width => int signed width

/-- The type at which two operands meet: the wider one, and the unsigned one at equal widths.  A
literal, which has no type of its own, takes the other operand's. -/
def common : Option TypeNode → Option TypeNode → Option TypeNode
  | none, none => none
  | some type, none | none, some type => some type.promote
  | some left, some right =>
      match left.promote, right.promote with
      | int leftSigned leftWidth, int rightSigned rightWidth =>
          if leftWidth < rightWidth then some (int rightSigned rightWidth)
          else if rightWidth < leftWidth then some (int leftSigned leftWidth)
          else some (int (leftSigned && rightSigned) leftWidth)
      | _, _ => none

end TypeNode

/-- A value with its type; a literal has none. -/
structure TypedValue where
  type : Option TypeNode
  value : ℤ
  deriving DecidableEq

/-- Conversion to the common type of an operation; between literals there is none to make. -/
def convertTo : Option TypeNode → ℤ → ℤ
  | none, value => value
  | some type, value => type.convert value

/-- The result of an operator on operands of one type: a truth value for the comparisons, an
integer otherwise.  `bitwise` says which `And` and `Or` are meant. -/
def BinaryOp.apply (bitwise : Bool) : BinaryOp → ℤ → ℤ → Option (Bool ⊕ ℤ)
  | Add, lhs, rhs => some (.inr (lhs + rhs))
  | Sub, lhs, rhs => some (.inr (lhs - rhs))
  | Mul, lhs, rhs => some (.inr (lhs * rhs))
  | Div, lhs, rhs => if rhs = 0 then none else some (.inr (lhs.tdiv rhs))
  | Mod, lhs, rhs => if rhs = 0 then none else some (.inr (lhs.tmod rhs))
  | And, lhs, rhs =>
      some (if bitwise then .inr (Int.land lhs rhs) else .inl (decide (lhs ≠ 0 ∧ rhs ≠ 0)))
  | Or, lhs, rhs =>
      some (if bitwise then .inr (Int.lor lhs rhs) else .inl (decide (lhs ≠ 0 ∨ rhs ≠ 0)))
  | Eq, lhs, rhs => some (.inl (decide (lhs = rhs)))
  | NotEq, lhs, rhs => some (.inl (decide (lhs ≠ rhs)))
  | Less, lhs, rhs => some (.inl (decide (lhs < rhs)))
  | Greater, lhs, rhs => some (.inl (decide (rhs < lhs)))
  | LessEq, lhs, rhs => some (.inl (decide (lhs ≤ rhs)))
  | GreaterEq, lhs, rhs => some (.inl (decide (rhs ≤ lhs)))

/-- An operator on typed operands. -/
def BinaryOp.eval (bitwise : Bool) (op : BinaryOp) (lhs rhs : TypedValue) : Option TypedValue :=
  let type := TypeNode.common lhs.type rhs.type
  (op.apply bitwise (convertTo type lhs.value) (convertTo type rhs.value)).map fun
    | .inl holds => ⟨some .bool, if holds then 1 else 0⟩
    | .inr value => ⟨type, convertTo type value⟩

/-- The variables, the last declaration of a name first. -/
abbrev Scope := List (String × TypeNode × ℤ)

def Expr.eval (bitwise : Bool) (scope : Scope) : Expr → Option TypedValue
  | literalBool value => some ⟨some .bool, if value then 1 else 0⟩
  | literalInt value => some ⟨none, value⟩
  | varRef name => (scope.lookup name).map fun entry => ⟨some entry.1, entry.2⟩
  | binaryOp op lhs rhs => do
      op.eval bitwise (← lhs.eval bitwise scope) (← rhs.eval bitwise scope)
  | ternary condition trueExpr falseExpr => do
      let condition ← condition.eval bitwise scope
      let trueValue ← trueExpr.eval bitwise scope
      let falseValue ← falseExpr.eval bitwise scope
      let type := TypeNode.common trueValue.type falseValue.type
      let chosen := if condition.value ≠ 0 then trueValue else falseValue
      return ⟨type, convertTo type chosen.value⟩
  | unsupported _ => none

/-- The value that a statement list returns, converted to the return type. -/
def runStmts (bitwise : Bool) (returnType : TypeNode) : Scope → List Stmt → Option ℤ
  | _, [] => none
  | scope, .varDecl type name init :: rest => do
      let value ← init.eval bitwise scope
      runStmts bitwise returnType ((name, type, type.convert value.value) :: scope) rest
  | scope, .returnStmt value :: _ => do
      return returnType.convert (← value.eval bitwise scope).value

namespace TranspileFunction

variable (bitwise : Bool) (func : TranspileFunction)

/-- The variables on entry, for arguments of the parameters' types. -/
def entry (args : List ℤ) : Scope :=
  (List.zipWith (fun param arg => (param.name, param.type, param.type.convert arg))
    func.params args).reverse

def eval (args : List ℤ) : Option ℤ :=
  if args.length = func.params.length then
    runStmts bitwise func.returnType (func.entry args) func.body
  else none

end TranspileFunction

end Decompile
end TopoLlvm
