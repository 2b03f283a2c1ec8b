import TopoLlvm.Library.Text
import TopoLlvm.Runtime.Adaptive

/-!
# Stages that run as tasks

`TopoParallelPass` turns the calls of a pipeline stage into tasks that are spawned and awaited
where the first of the calls stands.  This is the choice of the functions it looks for.
-/

namespace TopoLlvm
namespace TopoParallel

open TopoLlvm.Runtime (Name)

def simpleName (name : Name) : Name := Text.afterLast [':', ':'] name

/-- The name or its simple name is excluded. -/
def isExcluded (name : Name) (exclude : List Name) : Bool :=
  exclude.any fun excluded => name == excluded || simpleName name == excluded

/-- The called function with the node's name. -/
def resolveNodeToQualified (nodeName : Name) (calledFunctions : List Name) : Name :=
  (calledFunctions.find? (simpleName · == nodeName)).getD nodeName

/-- A stage of a pipeline with what the pass asks of the module, the mapping and the settings. -/
structure Stage (Fn : Type) where
  isDeclaration : Fn → Bool
  isVarArg : Fn → Bool
  /-- The functions that qualified names are mapped to. -/
  matched : Name → Option Fn
  exclude : List Name
  calledFunctions : List Name
  nodes : List Name

structure Candidate (Fn : Type) where
  simpleName : Name
  qualifiedName : Name
  irFunc : Fn

variable {Fn : Type}

namespace Stage

variable (stage : Stage Fn)

/-- The candidate for a node: mapped, defined, not variadic and not excluded. -/
def candidate (nodeName : Name) : Option (Candidate Fn) :=
  let qualName := resolveNodeToQualified nodeName stage.calledFunctions
  (stage.matched qualName).bind fun irFunc =>
    if stage.isDeclaration irFunc || stage.isVarArg irFunc || isExcluded qualName stage.exclude ||
        isExcluded nodeName stage.exclude then none
    else some ⟨nodeName, qualName, irFunc⟩

def candidates : List (Candidate Fn) := stage.nodes.filterMap stage.candidate

/-- A call of the function becomes a task of the stage. -/
def calls [DecidableEq Fn] (calledFunction : Option Fn) : Bool :=
  calledFunction.any fun called => stage.candidates.any fun candidate => called = candidate.irFunc

end Stage

end TopoParallel
end TopoLlvm
