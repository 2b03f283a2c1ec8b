import TopoLlvm.Library.Emission
import TopoLlvm.Library.Text
import TopoLlvm.Transforms.PipelineDataflow

/-!
# Bodies under construction

`generatePipelineBody` deletes the stub's body before it emits the first instruction of the new
one, and returns at the first argument or result that is missing.  Its two callers go on with the
module in either case.
-/

namespace TopoLlvm
namespace PipelineCodeGen

open TopoLlvm.Runtime (Name)

/-- An instruction of a function; results are named by the node that they belong to. -/
inductive Inst (Ty Fn : Type) where
  | extractValue (node : Name) (index : Nat)
  | alloca (ty : Ty)
  | call (node : Name) (callee : Fn) (args : List Operand)
  | load (ty : Ty)
  | ret (returned : Returned)
  /-- An instruction that the pass does not write, with the function that a call calls. -/
  | other (calledFunction : Option Fn) (terminator : Bool)
  deriving DecidableEq

namespace Inst

variable {Ty Fn : Type}

def isTerminator : Inst Ty Fn → Bool
  | .ret _ => true
  | .other _ terminator => terminator
  | .extractValue .. | .alloca _ | .call .. | .load _ => false

def getCalledFunction : Inst Ty Fn → Option Fn
  | .call _ callee _ => some callee
  | .other calledFunction _ => calledFunction
  | .extractValue .. | .alloca _ | .load _ | .ret _ => none

/-- The call of a node. -/
def nodeCall? : Inst Ty Fn → Option (Name × List Operand)
  | .call node _ args => some (node, args)
  | .extractValue .. | .alloca _ | .load _ | .ret _ | .other .. => none

end Inst

/-- A function with its basic blocks; a declaration has none. -/
structure Function (Ty Fn : Type) where
  name : Name
  params : List (Param Ty)
  returnTy : Ty
  blocks : List (List (Inst Ty Fn))
  deriving DecidableEq

/-- Every block ends with a terminator. -/
def Function.Whole {Ty Fn : Type} (func : Function Ty Fn) : Prop :=
  ∀ block ∈ func.blocks, block.getLast?.any Inst.isTerminator = true

instance {Ty Fn : Type} (func : Function Ty Fn) : Decidable func.Whole :=
  inferInstanceAs (Decidable (∀ block ∈ func.blocks, _))

abbrev Module (Ty Fn : Type) := Fn → Function Ty Fn

/-- An entry of the symbol table's logic blocks, with its analysis where it has one. -/
structure LogicBlock where
  isPipeline : Bool
  analysed : Option Pipeline

variable {Ty Fn : Type}

section Stubs

variable (demangle : Name → Name) (module : Module Ty Fn)

/-- `isPipelineStub`: some call names a placeholder. -/
def isPipelineStub (func : Function Ty Fn) : Bool :=
  func.blocks.any fun block => block.any fun inst => inst.getCalledFunction.any fun callee =>
    let name := demangle (module callee).name
    (Text.split "topo::detail::pipeline_placeholder".toList name).isSome ||
      (Text.split "topo::pipeline::placeholder".toList name).isSome

/-- What the generator reads of a function. -/
def describe (fn : Fn) : ModuleFunction Ty where
  params := (module fn).params
  returnTy := (module fn).returnTy
  isDeclaration := (module fn).blocks.isEmpty
  isPipelineStub := isPipelineStub demangle module (module fn)

end Stubs

variable [DecidableEq Ty] (types : TypeSystem Ty) (utilities : Utilities) (demangle : Name → Name)
  (matched : Name → Option Fn) (module : Module Ty Fn)

/-- The functions that names are mapped to. -/
def mappingOf : Mapping Ty := fun name => (matched name).map (describe demangle module)

/-- Slots are allocated on the way, until a parameter has no argument. -/
def emitArgs (pipelineParams : List (Param Ty)) :
    List (Param Ty) → List (Ty × Operand) → Emission (Inst Ty Fn) (List Operand)
  | [], _ => pure []
  | param :: params, available =>
      match param.structRet with
      | some structRet => do
          Emission.emit (.alloca structRet)
          let args ← emitArgs pipelineParams params available
          return .slot :: args
      | none =>
          match takeUnused param.ty available with
          | some (taken, left) => do
              let args ← emitArgs pipelineParams params left
              return taken :: args
          | none => do
              let index ← Emission.ofOption (pipelineParams.findIdx? (·.ty = param.ty))
              let args ← emitArgs pipelineParams params available
              return .arg index :: args

namespace Pipeline

variable (pipeline : Pipeline)

/-- The function of a node. -/
def nodeCallee (node : Name) : Option Fn :=
  let qualifiedCallee := utilities.resolveNodeCallee node pipeline.calledFunctions
  matched (if qualifiedCallee = [] then node else qualifiedCallee)

/-- Extract the fields that the upstream outputs offer. -/
def emitAvailable (nodeOutputs : List (Name × Ty)) (node : Name) :
    Emission (Inst Ty Fn) (List (Ty × Operand)) :=
  let available := pipeline.availableValues types utilities nodeOutputs node
  { emitted := available.filterMap fun value =>
      match value.2 with
      | .field up index => some (.extractValue up index)
      | .arg _ | .output _ | .slot => none
    result := some available }

/-- The arguments of a node's call. -/
def emitNodeArgs (params : List (Param Ty)) (nodeOutputs : List (Name × Ty)) (node : Name)
    (callee : ModuleFunction Ty) : Emission (Inst Ty Fn) (List Operand) :=
  if pipeline.isSource utilities node then
    Emission.ofOption ((matchSourceNodeArgs params callee.params).map (·.map .arg))
  else do
    let available ← pipeline.emitAvailable types utilities nodeOutputs node
    emitArgs params callee.params available

/-- Load a result that is returned through a slot. -/
def emitLoad (callee : ModuleFunction Ty) (args : List Operand) : Emission (Inst Ty Fn) PUnit :=
  match callee.params.head?.bind (·.structRet), args.head? with
  | some structRet, some .slot => Emission.emit (.load structRet)
  | _, _ => pure ()

/-- Emit the call of one node. -/
def emitNode (params : List (Param Ty)) (nodeOutputs : List (Name × Ty)) (node : Name) :
    Emission (Inst Ty Fn) (List (Name × Ty)) :=
  match pipeline.nodeCallee utilities matched node with
  | none => pure nodeOutputs
  | some fn => do
      let callee := describe demangle module fn
      let args ← pipeline.emitNodeArgs types utilities params nodeOutputs node callee
      Emission.emit (.call node fn args)
      emitLoad callee args
      return (node, outputTy callee args) :: nodeOutputs

/-- Emit the return, after the extraction of a field that is returned. -/
def emitReturn (returnTy : Ty) (terminalTy : Option Ty) : Emission (Inst Ty Fn) Returned := do
  let returned ← Emission.ofOption (pipeline.generateReturn types returnTy terminalTy)
  match returned with
  | .value (.field node index) => Emission.emit (.extractValue node index)
  | .void | .value (.arg _) | .value (.output _) | .value .slot => pure ()
  Emission.emit (.ret returned)
  return returned

/-- The entry block. -/
def emitBody (func : Function Ty Fn) : Emission (Inst Ty Fn) Returned := do
  let nodeOutputs ← pipeline.order.foldlM
    (pipeline.emitNode types utilities demangle matched module func.params) []
  pipeline.emitReturn types func.returnTy (nodeOutputs.lookup pipeline.terminalNode)

variable [DecidableEq Fn]

/-- `generatePipelineBody` on a function of the module: whether it succeeds, and the module that it
leaves. -/
def writeBody (target : Fn) : Bool × Module Ty Fn :=
  let entry := pipeline.emitBody types utilities demangle matched module (module target)
  (entry.result.isSome,
    Function.update module target { module target with blocks := [entry.emitted] })

omit [DecidableEq Fn] in
/-- The stub that a logic block's pipeline is to replace. -/
def stubTarget : Option Fn :=
  (matched pipeline.qualifiedName).filter fun fn =>
    !(describe demangle module fn).isDeclaration && (describe demangle module fn).isPipelineStub

end Pipeline

variable [DecidableEq Fn]

/-- The loop of `PipelineCodeGenPass::run` after some bodies are generated. -/
def runFrom (generated : Int) : List LogicBlock → Module Ty Fn → Int × Module Ty Fn
  | [], module => (generated, module)
  | block :: blocks, module =>
      match block.analysed.filter fun _ => block.isPipeline with
      | none => runFrom generated blocks module
      | some pipeline =>
          match pipeline.stubTarget demangle matched module with
          | none => runFrom generated blocks module
          | some target =>
              match pipeline.writeBody types utilities demangle matched module target with
              | (true, next) => runFrom (generated + 1) blocks next
              | (false, next) => (-1, next)

/-- The step of `PassPipeline::run`: the recorded count and the module for the passes after it. -/
def generateAhead (pipelineCfg : Option Bool) (blocks : List LogicBlock) :
    Option UInt32 × Module Ty Fn :=
  if pipelineCfg.getD true then
    let (count, next) := runFrom types utilities demangle matched 0 blocks module
    (some (UInt32.ofInt count), next)
  else (none, module)

/-- The step of `doSpecializeImpl`: the module that the engine goes on with. -/
def generateJit (blocks : List LogicBlock) : Module Ty Fn :=
  (runFrom types utilities demangle matched 0 blocks module).2

/-- The calls of `generatePipelineBody` in a run, each with the module at its turn. -/
def attempts : List LogicBlock → Module Ty Fn → List (Pipeline × Fn × Module Ty Fn)
  | [], _ => []
  | block :: blocks, module =>
      match block.analysed.filter fun _ => block.isPipeline with
      | none => attempts blocks module
      | some pipeline =>
          match pipeline.stubTarget demangle matched module with
          | none => attempts blocks module
          | some target =>
              (pipeline, target, module) ::
                match pipeline.writeBody types utilities demangle matched module target with
                | (true, next) => attempts blocks next
                | (false, _) => []

/-! ## What is asked of a failure -/

/-- A call that fails leaves the module as it was. -/
def FailsAtomically (pipeline : Pipeline) (target : Fn) : Prop :=
  (pipeline.writeBody types utilities demangle matched module target).1 = false →
    (pipeline.writeBody types utilities demangle matched module target).2 = module

/-- Both callers go on with bodies whose blocks all end with terminators. -/
def HandsOnWhole (blocks : List LogicBlock) : Prop :=
  (∀ pipelineCfg fn,
      ((generateAhead types utilities demangle matched module pipelineCfg blocks).2 fn).Whole) ∧
    ∀ fn, (generateJit types utilities demangle matched module blocks fn).Whole

/-- Every call finds its arguments, and the terminal output has the returned type or a field of
it. -/
structure Fits (mapping : Mapping Ty) (pipeline : Pipeline) (params : List (Param Ty))
    (returnTy : Ty) : Prop where
  source : ∀ node ∈ pipeline.order, ∀ callee,
    pipeline.resolveFunction utilities mapping node = some callee → node ∈ pipeline.sourceNodes →
      (matchSourceNodeArgs params callee.params).isSome
  inner : ∀ before node after callee, pipeline.order = before ++ node :: after →
    pipeline.resolveFunction utilities mapping node = some callee → node ∉ pipeline.sourceNodes →
      Supplied params callee.params (pipeline.supply types utilities mapping before node)
  terminal : types.isVoid returnTy = false → pipeline.terminalNode ∈ pipeline.order ∧
    ∃ ty, pipeline.outputTyOf utilities mapping pipeline.terminalNode = some ty ∧
      (ty = returnTy ∨ ∃ elements, types.elements ty = some elements ∧ returnTy ∈ elements)

end PipelineCodeGen
end TopoLlvm
