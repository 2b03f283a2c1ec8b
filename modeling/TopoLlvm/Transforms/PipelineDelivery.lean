import TopoLlvm.Transforms.PipelineOrder
import TopoLlvm.Transforms.PipelineTypes

/-!
# What the caller of a generated body gets

A function that returns a struct through a parameter looks void to the generator.  Its caller gets
the terminal output only where the terminal node, as a source, was passed that parameter for its own
and no later node was.
-/

namespace TopoLlvm
namespace PipelineCodeGen

open TopoLlvm.Runtime (Name)

variable {Ty : Type} [DecidableEq Ty]

/-- The position and the type of the parameter that a struct is returned through. -/
def sretParam (params : List (Param Ty)) : Option (Nat × Ty) :=
  params.zipIdx.findSome? fun entry => entry.1.structRet.map fun ty => (entry.2, ty)

/-- Stages that return values, or write them where a struct-return parameter points. -/
structure Stages (V : Type) where
  call : Name → List V → V
  written : Name → List V → V
  extract : V → Nat → V
  slot : V
  undef : V

/-- The state of a body that runs. -/
structure Delivery (V : Type) where
  /-- What the generator takes for the outputs of the nodes. -/
  outputs : Name → V
  /-- What the nodes have returned, by value or through a parameter. -/
  results : Name → V
  /-- Where the caller expects a struct. -/
  cell : V

/-- The output of a call is loaded from a slot of its own. -/
def loads (callee : ModuleFunction Ty) (args : List Operand) : Bool :=
  (callee.params.head?.bind (·.structRet)).isSome && args.head? = some .slot

/-- The call is passed the pipeline's parameter for its struct-return parameter. -/
def passes (host : Nat) (callee : ModuleFunction Ty) (args : List Operand) : Bool :=
  (sretParam callee.params).any fun param => args[param.1]? = some (.arg host)

namespace Stages

variable {V : Type} (stages : Stages V) (inputs : Nat → V)

def eval (outputs : Name → V) : Operand → V
  | .arg index => inputs index
  | .output node => outputs node
  | .field node index => stages.extract (outputs node) index
  | .slot => stages.slot

variable (resolve : Name → Option (ModuleFunction Ty)) (host : Option Nat)

/-- Perform one call; the host's struct-return parameter is given by its position. -/
def perform (state : Delivery V) (call : Name × List Operand) : Delivery V :=
  match resolve call.1 with
  | none => state
  | some callee =>
      let values := call.2.map (stages.eval inputs state.outputs)
      let called := stages.call call.1 values
      let written := stages.written call.1 values
      { outputs := Function.update state.outputs call.1
          (if loads callee call.2 then written else called)
        results := Function.update state.results call.1
          (if (sretParam callee.params).isSome then written else called)
        cell := if host.any fun index => passes index callee call.2 then written else state.cell }

def start : Delivery V where
  outputs _ := stages.undef
  results _ := stages.undef
  cell := stages.undef

def run (calls : List (Name × List Operand)) : Delivery V :=
  calls.foldl (stages.perform inputs resolve host) stages.start

end Stages

namespace Pipeline

variable (types : TypeSystem Ty) (utilities : Utilities) (mapping : Mapping Ty)
  (pipeline : Pipeline)

/-- What the caller observes as the result. -/
def observed {V : Type} (stages : Stages V) (inputs : Nat → V) (func : ModuleFunction Ty)
    (generated : Generated) : Option V :=
  let host := (sretParam func.params).map (·.1)
  let state := stages.run inputs (pipeline.resolveFunction utilities mapping) host generated.calls
  if host.isSome then some state.cell
  else match generated.returned with
    | .void => none
    | .value operand => some (stages.eval inputs state.outputs operand)

end Pipeline

/-! ## Struct-return parameters -/

section Parameters

omit [DecidableEq Ty]

end Parameters

/-! ## Runs -/

namespace Stages

variable {V : Type} {stages : Stages V} {inputs : Nat → V}
  {resolve : Name → Option (ModuleFunction Ty)} {host : Option Nat} {node : Name}
  {callee : ModuleFunction Ty}

omit [DecidableEq Ty]

variable (stages inputs resolve host) in
theorem run_append (calls others : List (Name × List Operand)) :
    stages.run inputs resolve host (calls ++ others) =
      others.foldl (stages.perform inputs resolve host) (stages.run inputs resolve host calls) :=
  List.foldl_append

variable (stages inputs resolve host) in
theorem perform_of_ne (state : Delivery V) {call : Name × List Operand} (other : call.1 ≠ node) :
    (stages.perform inputs resolve host state call).outputs node = state.outputs node ∧
      (stages.perform inputs resolve host state call).results node = state.results node := by
  unfold perform
  split
  · exact ⟨rfl, rfl⟩
  · exact ⟨Function.update_of_ne other.symm _ _, Function.update_of_ne other.symm _ _⟩

variable (stages inputs host) in
theorem perform_self (state : Delivery V) (args : List Operand)
    (resolved : resolve node = some callee) :
    (stages.perform inputs resolve host state (node, args)).outputs node =
        (if loads callee args then
          stages.written node (args.map (stages.eval inputs state.outputs))
        else stages.call node (args.map (stages.eval inputs state.outputs))) ∧
      (stages.perform inputs resolve host state (node, args)).results node =
        if (sretParam callee.params).isSome then
          stages.written node (args.map (stages.eval inputs state.outputs))
        else stages.call node (args.map (stages.eval inputs state.outputs)) := by
  simp only [perform, resolved]
  exact ⟨Function.update_self .., Function.update_self ..⟩

/-- Stages that return and write constants. -/
def constant (called written : Name → V) (extract : V → V) (undef : V) : Stages V where
  call node _ := called node
  written node _ := written node
  extract value _ := extract value
  slot := undef
  undef := undef

section Constant

variable (called written : Name → V) (extract : V → V) (undef : V)
  {calls : List (Name × List Operand)}

end Constant

end Stages

/-! ## Generated calls -/

namespace Pipeline

variable {types : TypeSystem Ty} {utilities : Utilities} {mapping : Mapping Ty}
  {pipeline : Pipeline} {params : List (Param Ty)} {generated : List Name} {node : Name}
  {callee : ModuleFunction Ty} {args : List Operand}

end Pipeline

end PipelineCodeGen
end TopoLlvm
