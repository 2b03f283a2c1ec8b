import TopoLlvm.Runtime.Adaptive

/-!
# Generated pipeline bodies

`PipelineCodeGenPass` replaces a pipeline's stub by calls of its nodes in stage order.  Parameters
are matched to the pipeline's parameters and to the outputs of upstream nodes by type.  A body is
run with stages that are pure functions of their arguments.
-/

namespace TopoLlvm
namespace PipelineCodeGen

open TopoLlvm.Runtime (Name)

instance : LawfulBEq Name := inferInstance

/-- What the generator asks of types. -/
structure TypeSystem (Ty : Type) where
  isVoid : Ty → Bool
  /-- The elements of a struct type. -/
  elements : Ty → Option (List Ty)

structure Param (Ty : Type) where
  ty : Ty
  /-- The type of an `sret` attribute. -/
  structRet : Option Ty
  deriving DecidableEq

/-- A function of the module. -/
structure ModuleFunction (Ty : Type) where
  params : List (Param Ty)
  returnTy : Ty
  isDeclaration : Bool
  /-- `isPipelineStub`: the body calls the placeholder. -/
  isPipelineStub : Bool

/-- The functions that qualified names are mapped to. -/
abbrev Mapping (Ty : Type) := Name → Option (ModuleFunction Ty)

/-- A pipeline's entry in the symbol table, with its analysis; `stages` is a map in its order. -/
structure Pipeline where
  qualifiedName : Name
  calledFunctions : List Name
  edges : List (Name × Name)
  stages : List (Name × Int)
  sourceNodes : List Name
  terminalNode : Name
  distinct : (stages.map (·.1)).Nodup

/-- The graph utilities of the analysis library. -/
structure Utilities where
  isSourceNode : Name → List Name → Bool
  isSourceNode_iff : ∀ node sources, isSourceNode node sources = true ↔ node ∈ sources
  findUpstreamNodes : Name → List (Name × Name) → List Name
  /-- Edges into other nodes do not matter. -/
  findUpstreamNodes_filter : ∀ node edges,
    findUpstreamNodes node (edges.filter (·.2 = node)) = findUpstreamNodes node edges
  /-- The empty name where no called function has the node's name. -/
  resolveNodeCallee : Name → List Name → Name

/-- `stageMap[stage].push_back(node)`, on a map ordered by stages. -/
def pushNode (stage : Int) (node : Name) : List (Int × List Name) → List (Int × List Name)
  | [] => [(stage, [node])]
  | (key, nodes) :: groups =>
      if stage < key then (stage, [node]) :: (key, nodes) :: groups
      else if stage = key then (key, nodes ++ [node]) :: groups
      else (key, nodes) :: pushNode stage node groups

def groupNodesByStage (stages : List (Name × Int)) : List (Int × List Name) :=
  stages.foldl (fun groups (node, stage) => pushNode stage node groups) []

/-- An operand of a call or of the return. -/
inductive Operand where
  /-- A parameter of the pipeline. -/
  | arg (index : Nat)
  /-- The result of a node's call, loaded from its slot where it is returned through one. -/
  | output (node : Name)
  | field (node : Name) (index : Nat)
  /-- A fresh slot for a result. -/
  | slot
  deriving DecidableEq

/-- The node whose output an operand takes. -/
def Operand.node? : Operand → Option Name
  | .output node | .field node _ => some node
  | .arg _ | .slot => none

/-- What a generated body returns. -/
inductive Returned where
  | void
  | value (operand : Operand)
  deriving DecidableEq

structure Generated where
  calls : List (Name × List Operand)
  returned : Returned
  deriving DecidableEq

variable {Ty : Type} [DecidableEq Ty]

/-- A body under construction, with the types of the outputs in `nodeOutputs`. -/
structure Body (Ty : Type) where
  calls : List (Name × List Operand)
  nodeOutputs : List (Name × Ty)

/-- Pipeline parameters for the parameters of a source node: of the type and not used yet, else at
the same position. -/
def matchSourceNodeArgs (pipelineParams calleeParams : List (Param Ty)) : Option (List Nat) :=
  calleeParams.zipIdx.foldlM (fun args (param, index) =>
    match (List.range pipelineParams.length).find? fun arg =>
        (pipelineParams[arg]?).map (·.ty) = some param.ty ∧ arg ∉ args with
    | some arg => some (args ++ [arg])
    | none => if index < pipelineParams.length then some (args ++ [index]) else none) []

/-- The first value of the type that is not used, and the values that are left. -/
def takeUnused (ty : Ty) : List (Ty × Operand) → Option (Operand × List (Ty × Operand))
  | [] => none
  | value :: values =>
      if value.1 = ty then some (value.2, values)
      else (takeUnused ty values).map fun (taken, left) => (taken, value :: left)

/-- Arguments of a node that is not a source: slots for results, available values of the type, and
else the first pipeline parameter of the type. -/
def matchArgs (pipelineParams : List (Param Ty)) :
    List (Param Ty) → List (Ty × Operand) → Option (List Operand)
  | [], _ => some []
  | param :: params, available =>
      if param.structRet.isSome then (matchArgs pipelineParams params available).map (.slot :: ·)
      else
        match takeUnused param.ty available with
        | some (taken, left) => (matchArgs pipelineParams params left).map (taken :: ·)
        | none =>
            match pipelineParams.findIdx? (·.ty = param.ty) with
            | some index => (matchArgs pipelineParams params available).map (.arg index :: ·)
            | none => none

/-- The type of a call's output. -/
def outputTy (callee : ModuleFunction Ty) (args : List Operand) : Ty :=
  match callee.params.head?.bind (·.structRet), args.head? with
  | some structRet, some .slot => structRet
  | _, _ => callee.returnTy

variable (types : TypeSystem Ty) (utilities : Utilities) (mapping : Mapping Ty)

/-- The values that an output offers. -/
def outputValues (node : Name) (ty : Ty) : List (Ty × Operand) :=
  match types.elements ty with
  | some elements => elements.zipIdx.map fun (element, index) => (element, .field node index)
  | none => [(ty, .output node)]

namespace Pipeline

variable (pipeline : Pipeline)

/-- The nodes in stage order. -/
def order : List Name := (groupNodesByStage pipeline.stages).flatMap (·.2)

def resolveFunction (node : Name) : Option (ModuleFunction Ty) :=
  let qualifiedCallee := utilities.resolveNodeCallee node pipeline.calledFunctions
  mapping (if qualifiedCallee = [] then node else qualifiedCallee)

def isSource (node : Name) : Bool := utilities.isSourceNode node pipeline.sourceNodes

/-- The values that the upstream outputs offer. -/
def availableValues (nodeOutputs : List (Name × Ty)) (node : Name) : List (Ty × Operand) :=
  (utilities.findUpstreamNodes node pipeline.edges).flatMap fun up =>
    match nodeOutputs.lookup up with
    | some ty => outputValues types up ty
    | none => []

/-- Emit the call of one node. -/
def generateNode (params : List (Param Ty)) (body : Body Ty) (node : Name) : Option (Body Ty) :=
  match pipeline.resolveFunction utilities mapping node with
  | none => some body
  | some callee =>
      let args? := if pipeline.isSource utilities node then
          (matchSourceNodeArgs params callee.params).map (·.map .arg)
        else matchArgs params callee.params
          (pipeline.availableValues types utilities body.nodeOutputs node)
      args?.map fun args =>
        { calls := body.calls ++ [(node, args)]
          nodeOutputs := (node, outputTy callee args) :: body.nodeOutputs }

/-- The return from the terminal node's output, which may be missing. -/
def generateReturn (returnTy : Ty) (terminalTy : Option Ty) : Option Returned :=
  if types.isVoid returnTy then some .void
  else
    match terminalTy with
    | none => none
    | some ty =>
        if ty = returnTy then some (.value (.output pipeline.terminalNode))
        else
          match types.elements ty with
          | none => none
          | some elements => (elements.findIdx? (· = returnTy)).map fun index =>
              .value (.field pipeline.terminalNode index)

/-- The body that replaces the stub, none where an argument or the result is missing. -/
def generatePipelineBody (func : ModuleFunction Ty) : Option Generated :=
  (pipeline.order.foldlM (pipeline.generateNode types utilities mapping func.params)
      { calls := [], nodeOutputs := [] }).bind fun body =>
    (pipeline.generateReturn types func.returnTy
        (body.nodeOutputs.lookup pipeline.terminalNode)).map fun returned =>
      { calls := body.calls, returned }

/-- The stub that the pass replaces. -/
def stub : Option (ModuleFunction Ty) :=
  (mapping pipeline.qualifiedName).filter fun func => !func.isDeclaration && func.isPipelineStub

end Pipeline

/-- `PipelineCodeGenPass::run`: the bodies generated up to the first failure. -/
def run : List Pipeline → List (Name × Generated)
  | [] => []
  | pipeline :: pipelines =>
      match pipeline.stub mapping with
      | none => run pipelines
      | some func =>
          match pipeline.generatePipelineBody types utilities mapping func with
          | none => []
          | some generated => (pipeline.qualifiedName, generated) :: run pipelines

/-- Stages as pure functions on the values of a domain. -/
structure PureStages (V : Type) where
  call : Name → List V → V
  extract : V → Nat → V
  slot : V
  undef : V

namespace PureStages

variable {V : Type} (pure : PureStages V) (args : Nat → V)

def eval (outputs : Name → V) : Operand → V
  | .arg index => args index
  | .output node => outputs node
  | .field node index => pure.extract (outputs node) index
  | .slot => pure.slot

/-- The outputs after one more call. -/
def perform (outputs : Name → V) (call : Name × List Operand) : Name → V :=
  Function.update outputs call.1 (pure.call call.1 (call.2.map (pure.eval args outputs)))

/-- The outputs after calls in order. -/
def runCalls (calls : List (Name × List Operand)) : Name → V :=
  calls.foldl (pure.perform args) fun _ => pure.undef

/-- The value that a generated body returns. -/
def result (generated : Generated) : Option V :=
  match generated.returned with
  | .void => none
  | .value operand => some (pure.eval args (pure.runCalls args generated.calls) operand)

end PureStages

end PipelineCodeGen
end TopoLlvm
