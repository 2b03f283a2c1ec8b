import TopoLlvm.Library.Slot
import TopoLlvm.Library.Text
import TopoLlvm.Runtime.Adaptive

/-!
# Where arenas are created and destroyed

`LifetimeArenaPass` creates the arena of a lifetime group in the function that owns it, before the
first call of the start function, and destroys it after the first call of the end function, or at
the exits where there is none.  The arena is kept in a global variable.
-/

namespace TopoLlvm
namespace LifetimeArena

open TopoLlvm.Runtime (Name)
open FlowGraph (Role)

/-- A lifetime group, with the functions that qualified names are mapped to. -/
structure LifetimeScope (Fn : Type) where
  startFunc : Name
  endFunc : Name
  coveredFunctions : List Name
  matched : Name → Option Fn

/-- An instruction, as the pass looks at it. -/
inductive Kind (Fn : Type) where
  | phi
  | landingPad
  | ret
  /-- A call that is not an invoke, with its callee where that is direct. -/
  | call (callee : Option Fn)
  | other
  deriving DecidableEq

namespace LifetimeScope

variable {Fn : Type} [DecidableEq Fn] (scope : LifetimeScope Fn)

/-- A call of a covered function of the simple name. -/
def isCallOf (name : Name) : Kind Fn → Bool
  | .call (some callee) => scope.coveredFunctions.any fun covered =>
      scope.matched covered = some callee && Text.afterLast [':', ':'] covered = name
  | _ => false

end LifetimeScope

/-- What the pass inserts at an instruction and what that may do, in order. -/
inductive Phase where
  | create
  | destroyBefore
  /-- Converted allocations, its own or those of a callee. -/
  | allocate
  /-- The function is entered again. -/
  | reenter
  | leave
  | destroyAfter
  deriving DecidableEq

def Phase.next : Phase → Option Phase
  | .create => some .destroyBefore
  | .destroyBefore => some .allocate
  | .allocate => some .reenter
  | .reenter => some .leave
  | .leave => some .destroyAfter
  | .destroyAfter => none

/-- The function that owns a lifetime group, as the flow graph of its instructions.  Exits are
returns, resumes and the calls that an exception may leave it from. -/
structure OwnerFunction (Node Fn : Type) where
  graph : FlowGraph Node
  /-- The instructions of the blocks, the entry block first. -/
  blocks : List (List Node)
  kind : Node → Kind Fn
  allocates : Node → Bool
  reenters : Node → Bool

namespace OwnerFunction

variable {Node Fn : Type} [DecidableEq Node] [DecidableEq Fn] (owner : OwnerFunction Node Fn)
  (scope : LifetimeScope Fn)

def startCall : Option Node :=
  owner.blocks.flatten.find? fun node => scope.isCallOf scope.startFunc (owner.kind node)

def endCall : Option Node :=
  if scope.endFunc = [] then none
  else owner.blocks.flatten.find? fun node => scope.isCallOf scope.endFunc (owner.kind node)

/-- The arena is created before this instruction: `getFirstInsertionPt` where the start function
is not called. -/
def createPoint : Option Node :=
  match owner.startCall scope with
  | some call => some call
  | none => (owner.blocks.headD []).find? fun node =>
      owner.kind node ≠ .phi ∧ owner.kind node ≠ .landingPad

/-- The event of the creation splits its block. -/
def splitBlocks : List (List Node) :=
  match owner.createPoint scope with
  | none => owner.blocks
  | some point => owner.blocks.flatMap fun block =>
      if point ∈ block then [block.takeWhile (· ≠ point), block.dropWhile (· ≠ point)]
      else [block]

def returns (block : List Node) : Bool := block.getLast?.any (owner.kind · = .ret)

/-- The landing pad that the block starts with. -/
def landingPad (block : List Node) : Option Node :=
  (block.find? (owner.kind · ≠ .phi)).filter (owner.kind · = .landingPad)

/-- The arena is destroyed before the return. -/
def destroysBefore (node : Node) : Bool :=
  owner.endCall scope = none ∧ (owner.splitBlocks scope).any fun block =>
    owner.returns block && block.getLast? = some node

/-- The arena is destroyed after the end call or the landing pad. -/
def destroysAfter (node : Node) : Bool :=
  match owner.endCall scope with
  | some call => node = call
  | none => (owner.splitBlocks scope).any fun block =>
      !owner.returns block && owner.landingPad block = some node

/-- The rewritten function: each instruction with all its phases. -/
def rewritten : FlowGraph (Node × Phase) where
  edge point next := (next.1 = point.1 ∧ point.2.next = some next.2) ∨
    (point.2 = .destroyAfter ∧ next.2 = .create ∧ owner.graph.edge point.1 next.1)
  entry := (owner.graph.entry, .create)
  exit point := point.2 = .leave ∧ owner.graph.exit point.1

/-- What a phase does to the arena. -/
def role : Node × Phase → Role
  | (node, .create) => if owner.createPoint scope = some node then .opens else .neutral
  | (node, .destroyBefore) => if owner.destroysBefore scope node then .closes else .neutral
  | (node, .allocate) => if owner.allocates node then .inside else .neutral
  | (node, .reenter) => if owner.reenters node then .outside else .neutral
  | (_, .leave) => .neutral
  | (node, .destroyAfter) => if owner.destroysAfter scope node then .closes else .neutral

/-- However often the function is entered, also from its own calls: it destroys each arena that it
creates exactly once before it is left, and nothing else, and no converted allocation is served
from a destroyed arena. -/
def TornDown : Prop := Slot.Safe owner.rewritten (owner.role scope)

/-- Arenas are torn down exactly where every way to a teardown or a converted allocation passes
the creation after the last teardown, and every way from the creation on passes a teardown before
another creation, a call that enters the function again, or an exit; and where neither a creation
nor a teardown is ever passed. -/
theorem tornDown_iff : owner.TornDown scope ↔
    owner.rewritten.Disciplined (owner.role scope) ∨
      ∀ points, owner.rewritten.Run owner.rewritten.entry points → ∀ point ∈ points,
        owner.role scope point ≠ .opens ∧ owner.role scope point ≠ .closes :=
  Slot.safe_iff

/-- The phases of an instruction before it may be left. -/
def phasesBefore (node : Node) : List (Node × Phase) :=
  [(node, .create), (node, .destroyBefore), (node, .allocate), (node, .reenter)]

/-- The run of the rewritten function that goes the same way. -/
def rewrittenRun : List Node → List (Node × Phase)
  | [] => []
  | [last] => phasesBefore last ++ [(last, .leave)]
  | node :: next :: nodes =>
      phasesBefore node ++ (node, .leave) :: (node, .destroyAfter) :: rewrittenRun (next :: nodes)

section

omit [DecidableEq Node] [DecidableEq Fn]

variable {owner : OwnerFunction Node Fn} {node : Node}

theorem rewritten_phase {phase next : Phase} (step : phase.next = some next) :
    owner.rewritten.edge (node, phase) (node, next) := .inl ⟨rfl, step⟩

theorem rewritten_walk :
    owner.rewritten.Walk (node, .create) (phasesBefore node) (node, .leave) :=
  .cons (rewritten_phase rfl) (.cons (rewritten_phase rfl) (.cons (rewritten_phase rfl)
    (.cons (rewritten_phase rfl) (.nil _))))

theorem rewritten_run {nodes : List Node} (run : owner.graph.Run node nodes) :
    owner.rewritten.Run (node, .create) (rewrittenRun nodes) := by
  induction run with
  | exit isExit => exact rewritten_walk.run (.exit ⟨rfl, isExit⟩)
  | @step node next nodes edge run ih =>
      obtain ⟨rest, rfl⟩ := run.eq_cons
      have across : owner.rewritten.edge (node, .destroyAfter) (next, .create) :=
        .inr ⟨rfl, rfl, edge⟩
      exact rewritten_walk.run (.step (rewritten_phase rfl) (.step across ih))

end

end OwnerFunction

/-- An owner that calls `open`, allocates and invokes; its landing pad rejoins the way to the
return. -/
def recoveringEdges : List (Fin 6 × Fin 6) := [(0, 1), (1, 2), (2, 5), (2, 3), (3, 4), (4, 5)]

def recovering : OwnerFunction (Fin 6) Name where
  graph :=
    { edge := fun node next => (node, next) ∈ recoveringEdges
      entry := 0
      exit := (· = 5) }
  blocks := [[0, 1, 2], [3, 4], [5]]
  kind
    | 0 => .call (some "open".toList)
    | 1 => .call (some "malloc".toList)
    | 3 => .landingPad
    | 5 => .ret
    | _ => .other
  allocates := (· = 1)
  reenters _ := false

def openScope : LifetimeScope Name where
  startFunc := "open".toList
  endFunc := []
  coveredFunctions := ["open".toList]
  matched := some

/-- The landing pad and the return destroy the same arena. -/
theorem recovering_destroys_twice : ¬ recovering.TornDown openScope := by
  intro safe
  have run : recovering.graph.Run recovering.graph.entry [0, 1, 2, 3, 4, 5] := by
    have edge {node next : Fin 6} (edge : recoveringEdges.elem (node, next) = true) :
        recovering.graph.edge node next := List.elem_iff.mp edge
    exact .step (edge rfl) (.step (edge rfl) (.step (edge rfl) (.step (edge rfl)
      (.step (edge rfl) (.exit rfl)))))
  have faultless := safe _
    (.call trivial (Slot.fits_ofNodes (OwnerFunction.rewritten_run run)) .idle)
  revert faultless
  decide

end LifetimeArena
end TopoLlvm
