import Mathlib.Tactic

/-!
# Straight-line integer IR

Functions of one block over integers.  A value is its bits, or poison; an instruction with undefined
behaviour has no value at all.
-/

namespace TopoLlvm
namespace Decompile

inductive BinaryOpcode where
  | add | sub | mul | udiv | sdiv | urem | srem | shl | lshr | ashr | and | or | xor
  deriving DecidableEq

inductive ICmpPredicate where
  | eq | ne | ugt | uge | ult | ule | sgt | sge | slt | sle
  deriving DecidableEq

inductive CastOpcode where
  | trunc | zext | sext
  deriving DecidableEq

/-- What an instruction promises of its operands; where the promise fails its value is poison. -/
structure Flags where
  nuw : Bool := false
  nsw : Bool := false
  exact : Bool := false
  disjoint : Bool := false
  nneg : Bool := false
  samesign : Bool := false
  deriving DecidableEq

/-- An operand: the value with a number (the arguments come first, then the instructions), an
integer constant, or `undef` and `poison`. -/
inductive Operand where
  | value (id : ℕ)
  | constant (bits : ℤ)
  | undef
  deriving DecidableEq

/-- An instruction without its name, with the widths of its operands. -/
inductive Form where
  | binary (opcode : BinaryOpcode) (flags : Flags) (width : ℕ) (lhs rhs : Operand)
  | icmp (predicate : ICmpPredicate) (flags : Flags) (width : ℕ) (lhs rhs : Operand)
  | select (width : ℕ) (condition trueValue falseValue : Operand)
  | cast (opcode : CastOpcode) (flags : Flags) (source target : ℕ) (operand : Operand)
  deriving DecidableEq

namespace Form

/-- The width of the result. -/
def width : Form → ℕ
  | binary _ _ width _ _ => width
  | icmp _ _ _ _ _ => 1
  | select width _ _ _ => width
  | cast _ _ _ target _ => target

/-- The operands with their widths. -/
def operands : Form → List (ℕ × Operand)
  | binary _ _ width lhs rhs | icmp _ _ width lhs rhs => [(width, lhs), (width, rhs)]
  | select width condition trueValue falseValue =>
      [(1, condition), (width, trueValue), (width, falseValue)]
  | cast _ _ source _ operand => [(source, operand)]

end Form

structure Instruction where
  name : Option String
  form : Form
  deriving DecidableEq

structure Argument where
  name : Option String
  width : ℕ
  deriving DecidableEq

structure Function where
  args : List Argument
  body : List Instruction
  returned : Operand
  /-- The width of the returned value. -/
  width : ℕ
  deriving DecidableEq

/-- What the verifier asks of an operand where the values so far have these widths. -/
def Operand.Verified (widths : List ℕ) (width : ℕ) : Operand → Prop
  | value id => widths[id]? = some width
  | constant _ | undef => True

/-- What the verifier asks of an instruction: operands defined before it at their widths, no empty
integer type, casts in their direction. -/
def Form.Verified (widths : List ℕ) (form : Form) : Prop :=
  (∀ entry ∈ form.operands, 0 < entry.1 ∧ entry.2.Verified widths entry.1) ∧
    match form with
    | .cast .trunc _ source target _ => 0 < target ∧ target < source
    | .cast _ _ source target _ => source < target
    | _ => True

def bodyVerified : List ℕ → List Instruction → Prop
  | _, [] => True
  | widths, inst :: rest =>
      inst.form.Verified widths ∧ bodyVerified (widths ++ [inst.form.width]) rest

def Function.widths (func : Function) : List ℕ :=
  func.args.map Argument.width ++ func.body.map (·.form.width)

/-- A function that the verifier passes. -/
structure Function.Verified (func : Function) : Prop where
  args : ∀ arg ∈ func.args, 0 < arg.width
  body : bodyVerified (func.args.map Argument.width) func.body
  returned : 0 < func.width ∧ func.returned.Verified func.widths func.width

section Evaluation

variable {width : ℕ}

namespace BinaryOpcode

/-- Whether a poison second operand, or a zero one, is undefined behaviour. -/
def divides : BinaryOpcode → Bool
  | udiv | sdiv | urem | srem => true
  | _ => false

/-- The value on operands with bits. -/
def value (opcode : BinaryOpcode) (lhs rhs : BitVec width) : BitVec width :=
  match opcode with
  | add => lhs + rhs
  | sub => lhs - rhs
  | mul => lhs * rhs
  | udiv => lhs.udiv rhs
  | sdiv => lhs.sdiv rhs
  | urem => lhs.umod rhs
  | srem => lhs.srem rhs
  | shl => lhs <<< rhs
  | lshr => lhs >>> rhs
  | ashr => lhs.sshiftRight' rhs
  | and => lhs &&& rhs
  | or => lhs ||| rhs
  | xor => lhs ^^^ rhs

/-- Whether the result is poison. -/
def poisons (opcode : BinaryOpcode) (flags : Flags) (lhs rhs : BitVec width) : Bool :=
  match opcode with
  | add => flags.nuw && lhs.uaddOverflow rhs || flags.nsw && lhs.saddOverflow rhs
  | sub => flags.nuw && lhs.usubOverflow rhs || flags.nsw && lhs.ssubOverflow rhs
  | mul => flags.nuw && lhs.umulOverflow rhs || flags.nsw && lhs.smulOverflow rhs
  | udiv => flags.exact && lhs.umod rhs != 0
  | sdiv => flags.exact && lhs.srem rhs != 0
  | urem | srem => false
  | shl =>
      decide (width ≤ rhs.toNat) || flags.nuw && (lhs <<< rhs) >>> rhs != lhs ||
        flags.nsw && (lhs <<< rhs).sshiftRight' rhs != lhs
  | lshr => decide (width ≤ rhs.toNat) || flags.exact && (lhs >>> rhs) <<< rhs != lhs
  | ashr => decide (width ≤ rhs.toNat) || flags.exact && (lhs.sshiftRight' rhs) <<< rhs != lhs
  | and | xor => false
  | or => flags.disjoint && lhs &&& rhs != 0

/-- Whether the behaviour is undefined on operands with bits. -/
def undefined (opcode : BinaryOpcode) (lhs rhs : BitVec width) : Bool :=
  match opcode with
  | udiv | urem => rhs == 0
  | sdiv | srem => rhs == 0 || lhs.sdivOverflow rhs
  | _ => false

def eval (opcode : BinaryOpcode) (flags : Flags) :
    Option (BitVec width) → Option (BitVec width) → Option (Option (BitVec width))
  | some lhs, some rhs =>
      if opcode.undefined lhs rhs then none
      else if opcode.poisons flags lhs rhs then some none
      else some (some (opcode.value lhs rhs))
  | none, some rhs => if opcode.divides && rhs == 0 then none else some none
  | _, none => if opcode.divides then none else some none

end BinaryOpcode

namespace ICmpPredicate

def holds (predicate : ICmpPredicate) (lhs rhs : BitVec width) : Bool :=
  match predicate with
  | eq => lhs == rhs
  | ne => lhs != rhs
  | ugt => rhs.ult lhs
  | uge => rhs.ule lhs
  | ult => lhs.ult rhs
  | ule => lhs.ule rhs
  | sgt => rhs.slt lhs
  | sge => rhs.sle lhs
  | slt => lhs.slt rhs
  | sle => lhs.sle rhs

def eval (predicate : ICmpPredicate) (flags : Flags) :
    Option (BitVec width) → Option (BitVec width) → Option (BitVec 1)
  | some lhs, some rhs =>
      if flags.samesign && lhs.msb != rhs.msb then none
      else some (BitVec.ofBool (predicate.holds lhs rhs))
  | _, _ => none

end ICmpPredicate

def evalSelect : Option (BitVec 1) → Option (BitVec width) → Option (BitVec width) →
    Option (BitVec width)
  | some condition, trueValue, falseValue => if condition = 1 then trueValue else falseValue
  | none, _, _ => none

namespace CastOpcode

variable {target : ℕ}

def value (opcode : CastOpcode) (target : ℕ) (bits : BitVec width) : BitVec target :=
  match opcode with
  | trunc | zext => bits.setWidth target
  | sext => bits.signExtend target

def poisons (opcode : CastOpcode) (flags : Flags) (target : ℕ) (bits : BitVec width) : Bool :=
  match opcode with
  | trunc =>
      flags.nuw && (bits.setWidth target).setWidth width != bits ||
        flags.nsw && (bits.setWidth target).signExtend width != bits
  | zext => flags.nneg && bits.msb
  | sext => false

def eval (opcode : CastOpcode) (flags : Flags) (target : ℕ) :
    Option (BitVec width) → Option (BitVec target)
  | some bits => if opcode.poisons flags target bits then none else some (opcode.value target bits)
  | none => none

end CastOpcode

end Evaluation

/-- The values so far, as unsigned numbers; `none` is poison. -/
abbrev Values := List (Option ℕ)

/-- The value of an operand, where it is defined.  Of `undef` nothing is known, as of poison. -/
def Operand.eval (values : Values) (width : ℕ) : Operand → Option (Option (BitVec width))
  | value id => values[id]?.map (·.map (BitVec.ofNat width))
  | constant bits => some (some (BitVec.ofInt width bits))
  | undef => some none

/-- The value of an instruction: nothing where the behaviour is undefined. -/
def Form.eval (values : Values) : Form → Option (Option ℕ)
  | binary opcode flags width lhs rhs => do
      let result ← opcode.eval flags (← lhs.eval values width) (← rhs.eval values width)
      return result.map BitVec.toNat
  | icmp predicate flags width lhs rhs => do
      let result := predicate.eval flags (← lhs.eval values width) (← rhs.eval values width)
      return result.map BitVec.toNat
  | select width condition trueValue falseValue => do
      let result := evalSelect (← condition.eval values 1) (← trueValue.eval values width)
        (← falseValue.eval values width)
      return result.map BitVec.toNat
  | cast opcode flags source target operand => do
      let result := opcode.eval flags target (← operand.eval values source)
      return result.map BitVec.toNat

def runBody : Values → List Instruction → Option Values
  | values, [] => some values
  | values, inst :: rest => do runBody (values ++ [← inst.form.eval values]) rest

/-- The bits that a function returns for arguments given as unsigned numbers: nothing where the
behaviour is undefined, and `some none` where the result is poison. -/
def Function.eval (func : Function) (args : List ℕ) : Option (Option (BitVec func.width)) := do
  func.returned.eval (← runBody (args.map some) func.body) func.width

end Decompile
end TopoLlvm
