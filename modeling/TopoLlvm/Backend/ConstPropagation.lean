import TopoLlvm.Backend.SymbolMapper
import Mathlib.Order.Nat

/-!
# Const propagation

`VisibilityApplier` turns what is declared const into attributes.  It counts arguments and declared
parameters together, though a method or a function that returns a struct has an argument that is
not declared; and it takes a const function for one that writes no memory.
-/

namespace TopoLlvm
namespace VisibilityApplier

open TopoLlvm.Backend

inductive Modifier where
  | none
  | ref
  | ptr
  deriving DecidableEq

/-- What is declared of a parameter; an ownership is given by its name. -/
structure ParamConst where
  isConst : Bool
  modifier : Modifier
  ownership : Option Name
  deriving DecidableEq

/-- `analysis::VisibilityAction`, which the policy computes for an entry. -/
structure Action where
  internalLinkage : Bool
  isExport : Bool
  dsoLocal : Bool
  inlineHint : Bool
  alwaysInline : Bool
  stripDebug : Bool
  isConst : Bool
  paramConsts : List ParamConst
  deriving DecidableEq

/-- An argument that is not declared. -/
inductive Hidden where
  | implicitThis
  | structRet
  deriving DecidableEq

inductive Access where
  | read (address : Nat)
  | write (address : Nat)
  deriving DecidableEq

/-- What an execution does to memory, with the memory that lives in it only. -/
structure Execution where
  own : List Nat
  accesses : List Access

/-- A function of the module: its hidden arguments and then one for each declared parameter, and
its executions on some arguments. -/
structure Function where
  isDeclaration : Bool
  hidden : List Hidden
  declared : Nat
  executes : List Nat → Execution → Prop

def Function.argSize (func : Function) : Nat := func.hidden.length + func.declared

/-- The declared parameter that an argument stands for. -/
def Function.declared? (func : Function) (argument : Nat) : Option Nat :=
  if func.hidden.length ≤ argument ∧ argument < func.argSize then
    some (argument - func.hidden.length)
  else none

/-- A change of a function. -/
inductive Change where
  | removeOptimizeNone
  | removeNoInline
  | setInternalLinkage
  | setDLLExport
  | setDefaultVisibility
  | setDSOLocal
  | addInlineHint
  | addAlwaysInline
  | dropSubprogram
  | prefixName (text : Name)
  /-- `setMemoryEffects(MemoryEffects::readOnly())`. -/
  | setReadOnlyMemory
  | addReadOnly (argument : Nat)
  | setMetadata (kind : Name)
  deriving DecidableEq

structure ApplyStats where
  publicCount : Nat
  protectedCount : Nat
  privateCount : Nat
  internalCount : Nat
  deriving DecidableEq

/-- A const reference or pointer. -/
def ParamConst.isReadOnly (declared : ParamConst) : Bool :=
  declared.isConst && (declared.modifier = .ref || declared.modifier = .ptr)

/-- The changes for the declared parameter at the position of an argument. -/
def ParamConst.changes (declared : ParamConst) (argument : Nat) : List Change :=
  (if declared.isReadOnly then [.addReadOnly argument] else []) ++
    declared.ownership.toList.map fun kind => .setMetadata ("topo.ownership.".toList ++ kind)

/-- The changes that `applyAction` makes to a function, in order. -/
def applyAction (isCOFF : Bool) (func : Function) (action : Action) : List Change :=
  (if action.internalLinkage then [.setInternalLinkage] else []) ++
    (if action.isExport then [if isCOFF then .setDLLExport else .setDefaultVisibility] else []) ++
    (if action.dsoLocal then [.setDSOLocal] else []) ++
    (if action.inlineHint then [.addInlineHint] else []) ++
    (if action.alwaysInline then
      [.addAlwaysInline,
        if action.stripDebug then .dropSubprogram else .prefixName "__topo_internal_".toList]
    else []) ++
    (if action.isConst then [.setReadOnlyMemory] else []) ++
    (List.range func.argSize).flatMap fun argument =>
      match action.paramConsts[argument]? with
      | some declared => declared.changes argument
      | none => []

def ApplyStats.count (stats : ApplyStats) : Visibility → ApplyStats
  | .isPublic => { stats with publicCount := stats.publicCount + 1 }
  | .isProtected => { stats with protectedCount := stats.protectedCount + 1 }
  | .isPrivate => { stats with privateCount := stats.privateCount + 1 }
  | .isInternal => { stats with internalCount := stats.internalCount + 1 }
  | .isIgnore => stats

/-- A module: its functions in order, by their identities. -/
structure Module where
  ids : List FunctionId
  function : FunctionId → Function

variable (module : Module) (mapping : SymbolMapping)

def stripO0Blockers : List (FunctionId × Change) :=
  (module.ids.filter fun id => !(module.function id).isDeclaration).flatMap fun id =>
    [(id, .removeOptimizeNone), (id, .removeNoInline)]

/-- `VisibilityApplier::apply`: all changes in order, with the statistics; there is one action for
each entry. -/
def apply (isCOFF : Bool) (entries : List (VisibilityEntry × Action)) :
    List (FunctionId × Change) × ApplyStats :=
  entries.foldl (fun (changes, stats) (entry, action) =>
    match mapping.matched.lookup entry.qualifiedName with
    | none => (changes, stats)
    | some id =>
        (changes ++ (applyAction isCOFF (module.function id) action).map (id, ·),
          stats.count entry.visibility))
    (stripO0Blockers module, ⟨0, 0, 0, 0⟩)

/-- An entry with this action is matched with the function. -/
def Matched (entries : List (VisibilityEntry × Action)) (id : FunctionId) (action : Action) : Prop :=
  ∃ entry, (entry, action) ∈ entries ∧ mapping.matched.lookup entry.qualifiedName = some id

/-- A const reference or pointer is declared at a position. -/
def Action.declaresReadOnly (action : Action) (position : Nat) : Prop :=
  ∃ declared, action.paramConsts[position]? = some declared ∧ declared.isReadOnly = true

/-- Some memory is written that the caller can observe. -/
def Execution.WritesCaller (execution : Execution) : Prop :=
  ∃ address, .write address ∈ execution.accesses ∧ address ∉ execution.own

def Function.WritesNothing (func : Function) : Prop :=
  ∀ arguments execution, func.executes arguments execution → ¬ execution.WritesCaller

/-- A change promises only what is declared and what holds. -/
def Justified (entries : List (VisibilityEntry × Action)) (id : FunctionId) : Change → Prop
  | .addReadOnly argument => ∃ position,
      (module.function id).declared? argument = some position ∧
        ∃ action, Matched mapping entries id action ∧ action.declaresReadOnly position
  | .setReadOnlyMemory => (module.function id).WritesNothing
  | _ => True

def Sound (isCOFF : Bool) (entries : List (VisibilityEntry × Action)) : Prop :=
  ∀ change ∈ (apply module mapping isCOFF entries).1,
    Justified module mapping entries change.1 change.2

section Changes

variable {module} {mapping} {isCOFF : Bool} {entries : List (VisibilityEntry × Action)}
  {id : FunctionId} {change : Change}

end Changes

/-! ## Soundness -/

section Soundness

variable {module} {mapping} {isCOFF : Bool} {entries : List (VisibilityEntry × Action)}

/-- `Pair K::swap(const Pair& other) const`: the object and the parameter are read, and the result
is written where the caller wants it. -/
def swapped : Function where
  isDeclaration := false
  hidden := [.structRet, .implicitThis]
  declared := 1
  executes arguments execution := ∃ result object other, arguments = [result, object, other] ∧
    execution = ⟨[], [.read object, .read other, .write result]⟩

end Soundness

end VisibilityApplier
end TopoLlvm
