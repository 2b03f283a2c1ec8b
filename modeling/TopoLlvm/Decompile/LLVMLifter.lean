import TopoLlvm.Decompile.IntegerIR
import TopoLlvm.Decompile.SourceLanguage

/-!
# Direct lifting

The lifter names the values of a function and turns each instruction into a declaration.
-/

namespace TopoLlvm
namespace Decompile

/-- What the metadata has about a function. -/
structure FunctionSymbol where
  returnType : TypeNode
  params : List Parameter
  deriving DecidableEq

def liftType (width : ℕ) : TypeNode :=
  if width = 1 then .bool else .int true width

def mapBinaryOp : BinaryOpcode → BinaryOp
  | .add => .Add
  | .sub => .Sub
  | .mul => .Mul
  | .sdiv | .udiv => .Div
  | .srem | .urem => .Mod
  | .and => .And
  | .or => .Or
  -- The fallback of the source: `shl`, `lshr`, `ashr` and `xor` have no case of their own.
  | _ => .Add

def mapICmpPredicate : ICmpPredicate → BinaryOp
  | .eq => .Eq
  | .ne => .NotEq
  | .slt | .ult => .Less
  | .sgt | .ugt => .Greater
  | .sle | .ule => .LessEq
  | .sge | .uge => .GreaterEq

/-- The state of the lifter within a function. -/
structure LifterState where
  nameMap : ℕ → Option String
  tmpCounter : ℕ

def LifterState.setName (state : LifterState) (id : ℕ) (name : String) : LifterState :=
  { state with nameMap := fun other => if other = id then some name else state.nameMap other }

/-- The name of a value, given the one it has in the IR. -/
def getValueName (id : ℕ) (irName : Option String) (state : LifterState) : String × LifterState :=
  match state.nameMap id, irName with
  | some name, _ => (name, state)
  | none, some name => (name, state.setName id name)
  | none, none =>
      let name := "_tmp" ++ toString state.tmpCounter
      (name, { state.setName id name with tmpCounter := state.tmpCounter + 1 })

/-- The low 64 bits of a constant, sign-extended. -/
def getSExtValue (width : ℕ) (bits : ℤ) : ℤ :=
  ((BitVec.ofInt width bits).signExtend 64).toInt

/-- The expression of an operand; `irNames` are the names that values have in the IR. -/
def liftValue (irNames : ℕ → Option String) (width : ℕ) (operand : Operand)
    (state : LifterState) : Expr × LifterState :=
  match operand with
  | .constant bits =>
      if width = 1 then (.literalBool (BitVec.ofInt width bits != 0), state)
      else (.literalInt (getSExtValue width bits), state)
  | .undef => (.unsupported "undef", state)
  | .value id =>
      let (name, state) := getValueName id (irNames id) state
      (.varRef name, state)

/-- The declaration of the value numbered `id`. -/
def liftInstruction (irNames : ℕ → Option String) (id : ℕ) (form : Form) (state : LifterState) :
    Stmt × LifterState :=
  match form with
  | .binary opcode _ width lhs rhs =>
      let (lhs, state) := liftValue irNames width lhs state
      let (rhs, state) := liftValue irNames width rhs state
      let (name, state) := getValueName id (irNames id) state
      (.varDecl (liftType width) name (.binaryOp (mapBinaryOp opcode) lhs rhs), state)
  | .icmp predicate _ width lhs rhs =>
      let (lhs, state) := liftValue irNames width lhs state
      let (rhs, state) := liftValue irNames width rhs state
      let (name, state) := getValueName id (irNames id) state
      (.varDecl (liftType 1) name (.binaryOp (mapICmpPredicate predicate) lhs rhs), state)
  | .select width condition trueValue falseValue =>
      let (condition, state) := liftValue irNames 1 condition state
      let (trueExpr, state) := liftValue irNames width trueValue state
      let (falseExpr, state) := liftValue irNames width falseValue state
      let (name, state) := getValueName id (irNames id) state
      (.varDecl (liftType width) name (.ternary condition trueExpr falseExpr), state)
  | .cast _ _ source target operand =>
      -- The name is taken before the operand is lifted.
      let (name, state) := getValueName id (irNames id) state
      let (init, state) := liftValue irNames source operand state
      (.varDecl (liftType target) name init, state)

/-- The statements of the instructions from the one numbered `id` on, with the return. -/
def liftBody (irNames : ℕ → Option String) (width : ℕ) (returned : Operand) :
    ℕ → List Instruction → LifterState → List Stmt
  | _, [], state => [.returnStmt (liftValue irNames width returned state).1]
  | id, inst :: rest, state =>
      let (stmt, state) := liftInstruction irNames id inst.form state
      stmt :: liftBody irNames width returned (id + 1) rest state

namespace Function

variable (func : Function)

/-- The names of the values in the IR. -/
def irNames (id : ℕ) : Option String :=
  ((func.args.map Argument.name ++ func.body.map Instruction.name)[id]?).join

/-- The name under which the body refers to an argument. -/
def argName (symbol : Option FunctionSymbol) (index : ℕ) (arg : Argument) : String :=
  match arg.name, symbol.bind (·.params[index]?) with
  | some name, _ => name
  | none, some param => param.name
  | none, none => "arg" ++ toString index

/-- The parameters in the absence of metadata. -/
def irParams : List Parameter :=
  func.args.mapIdx fun index arg =>
    ⟨liftType arg.width, arg.name.getD ("arg" ++ toString index)⟩

/-- The state of the lifter once it has named the arguments. -/
def initialState (symbol : Option FunctionSymbol) : LifterState where
  nameMap id := (func.args[id]?).map (argName symbol id)
  tmpCounter := 0

end Function

def liftFunctionDirect (func : Function) (qualifiedName : String)
    (symbol : Option FunctionSymbol) : TranspileFunction where
  qualifiedName
  returnType := (symbol.map FunctionSymbol.returnType).getD (liftType func.width)
  params := (symbol.map FunctionSymbol.params).getD func.irParams
  body := liftBody func.irNames func.width func.returned func.args.length func.body
    (func.initialState symbol)

end Decompile
end TopoLlvm
