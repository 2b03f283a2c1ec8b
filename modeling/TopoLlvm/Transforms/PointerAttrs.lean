import TopoLlvm.Transforms.SmartPointers

/-!
# Attributes of pointer parameters

`IndirectionPass` takes the parameters of a function that a pipeline calls for not null by the
forms of the arguments that it sees, and for unaliased where the function has a stage of its own.
-/

namespace TopoLlvm
namespace Indirection

open TopoLlvm.Backend

inductive PointerAttr where
  | nonNull
  | noAlias
  deriving DecidableEq

/-- An attribute of a parameter. -/
structure Placed where
  id : FunctionId
  param : Nat
  attr : PointerAttr
  deriving DecidableEq

/-- A parameter that the pass looks at, for a call of a pipeline. -/
structure Visit where
  analysis : PipelineAnalysis
  calledFn : Name
  id : FunctionId
  param : Nat

section Inference

variable (symbols : SymbolTable) (mapping : SymbolMapping) (allowed : Option (List FunctionId))
  (module : Module)

/-- The argument has one of the forms that are known not to be null: a local, a GEP or a global
variable. -/
def isKnownNonNull (caller : Function) : Operand → Bool
  | .inst index =>
      match caller.insts[index]? with
      | some (.alloca _) | some (.gep ..) => true
      | _ => false
  | .global _ => true
  | _ => false

/-- A user of a function does not speak against its parameter. -/
def admits (caller : Function) (id : FunctionId) (param : Nat) : Inst → Bool
  | .call callee arguments =>
      -- as an argument, the function is not called
      callee ≠ .function id || arguments[param]?.any (isKnownNonNull caller)
  | inst => !inst.operands.contains (.function id)

def allCallsNonNull (id : FunctionId) (param : Nat) : Bool :=
  !module.usedByConstants.contains id && module.ids.all fun caller =>
    (module.function caller).insts.all (admits (module.function caller) id param)

def hasCallers (id : FunctionId) (param : Nat) : Bool :=
  module.ids.any fun caller => (module.function caller).insts.any fun
    | .call callee arguments => callee = .function id && param < arguments.length
    | _ => false

/-- No other stage is on the level of the function's. -/
def hasOwnStage (analysis : PipelineAnalysis) (calledFn : Name) : Bool :=
  (findStageNumber analysis calledFn).any fun (matchedKey, thisStage) =>
    isExclusiveStage analysis calledFn matchedKey thisStage

def declares (id : FunctionId) (param : Nat) : PointerAttr → Bool
  | .nonNull => (module.function id).params[param]?.any (·.nonNull)
  | .noAlias => (module.function id).params[param]?.any (·.noAlias)

/-- The attribute is inferred at a visit. -/
def infers (visit : Visit) : PointerAttr → Bool
  | .nonNull => allCallsNonNull module visit.id visit.param && hasCallers module visit.id visit.param
  | .noAlias => hasOwnStage visit.analysis visit.calledFn

/-- The parameters that are visited for a call of a pipeline. -/
def visitsOf (analysis : PipelineAnalysis) (calledFn : Name) : List Visit :=
  match mapping.matched.lookup calledFn with
  | none => []
  | some id =>
      if (module.function id).isDeclaration || !allows allowed id then []
      else
        ((List.range (module.function id).params.length).filter fun param =>
          (module.function id).params[param]?.any (·.isPointer)).map
            fun param => ⟨analysis, calledFn, id, param⟩

def visits : List Visit :=
  symbols.logicBlocks.flatMap fun lb =>
    match lb.isPipeline, lb.pipelineAnalysis with
    | true, some analysis => lb.calledFunctions.flatMap (visitsOf mapping allowed module analysis)
    | _, _ => []

/-- One attribute at a visit, which is not placed again. -/
def place (visit : Visit) (placed : List Placed) (attr : PointerAttr) : List Placed :=
  if infers module visit attr && !declares module visit.id visit.param attr &&
      !placed.contains ⟨visit.id, visit.param, attr⟩ then
    placed ++ [⟨visit.id, visit.param, attr⟩]
  else placed

end Inference

/-! ## Calls -/

/-- The pointer through which memory is accessed. -/
inductive Root where
  | param (index : Nat)
  | global (index : Nat)
  | other
  deriving DecidableEq

structure Access where
  root : Root
  address : Nat
  isWrite : Bool
  deriving DecidableEq

/-- Where a call comes from: a call instruction that names the function, or a pointer or another
module. -/
inductive Origin where
  | site (caller : FunctionId) (index : Nat)
  | elsewhere

/-- A call in an execution, with the accesses during it. -/
structure Call where
  origin : Origin
  target : FunctionId
  arguments : List Nat
  accesses : List Access

/-- The value is the address of a local or of a global variable that is always defined. -/
def Function.isAddress (func : Function) (weak : List Nat) : Operand → Bool
  | .inst index =>
      match func.insts[index]? with
      | some (.alloca _) => true
      | _ => false
  | .global index => !weak.contains index
  | _ => false

/-- The instruction at a site is a call of the function with these arguments. -/
def Call.IsAt (call : Call) (module : Module) (weak : List Nat) (caller : FunctionId)
    (index : Nat) : Prop :=
  caller ∈ module.ids ∧ ∃ arguments : List Operand, (module.function caller).insts[index]? =
      some (.call (.function call.target) arguments) ∧
    arguments.length = call.arguments.length ∧ ∀ (param value : Nat) (argument : Operand),
      arguments[param]? = some argument → call.arguments[param]? = some value →
        (module.function caller).isAddress weak argument = true → value ≠ 0

/-- The executions of a program that a module is part of; global variables that may be undefined
are weak. -/
structure Program (module : Module) where
  weak : List Nat
  executes : List Call → Prop
  sited : ∀ calls, executes calls → ∀ call ∈ calls, ∀ caller index,
    call.origin = .site caller index → call.IsAt module weak caller index

section Programs

variable {module : Module} (program : Program module)

def Program.Calls (call : Call) : Prop := ∃ calls, program.executes calls ∧ call ∈ calls

/-- Memory that is written through the parameter is accessed through another one or a global. -/
def Call.Conflicts (call : Call) (param : Nat) : Prop :=
  ∃ written ∈ call.accesses, ∃ accessed ∈ call.accesses,
    written.root = .param param ∧ written.isWrite = true ∧ accessed.address = written.address ∧
      accessed.root ≠ .param param ∧ accessed.root ≠ .other

/-- Every call keeps what an attribute promises. -/
def Program.Keeps (placed : Placed) : Prop :=
  ∀ call, program.Calls call → call.target = placed.id →
    match placed.attr with
    | .nonNull => call.arguments[placed.param]? ≠ some 0
    | .noAlias => ¬ call.Conflicts placed.param

end Programs

/-! ## Soundness -/

section Soundness

variable {symbols : SymbolTable} {mapping : SymbolMapping} {allowed : Option (List FunctionId)}
  {module : Module} {program : Program module} {placed : List Placed} {item : Placed}

end Soundness

end Indirection
end TopoLlvm
