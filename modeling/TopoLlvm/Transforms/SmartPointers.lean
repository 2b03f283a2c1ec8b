import TopoLlvm.Backend.SymbolMapper
import TopoLlvm.Library.Text
import Mathlib.Algebra.Ring.Nat
import Mathlib.Data.List.Infix

/-!
# Smart pointers

`IndirectionPass` marks the loads of the inner pointer of a smart pointer that is a local of a
function, unless it finds a store to that pointer or an escape of the local.
-/

namespace TopoLlvm
namespace Indirection

open TopoLlvm.Backend

/-- A type as the pass looks at it. -/
inductive Ty where
  | pointer
  | struct (name : Option Name) (elements : List Ty)
  | other (size : Nat)

/-- A value of a function. -/
inductive Operand where
  | inst (index : Nat)
  | param (index : Nat)
  | global (index : Nat)
  | function (id : FunctionId)
  | constant (value : Nat)
  deriving DecidableEq

inductive RMWOp where
  | add
  | sub
  | other
  deriving DecidableEq

/-- An instruction; its index in the function is also the name of its value. -/
inductive Inst where
  | alloca (type : Ty)
  | gep (source : Ty) (base : Operand) (indices : List Operand)
  | load (type : Ty) (pointer : Operand)
  | store (type : Ty) (value pointer : Operand)
  /-- A call or an invoke. -/
  | call (callee : Operand) (arguments : List Operand)
  | phi (incoming : List Operand)
  | select (condition onTrue onFalse : Operand)
  /-- It is split where it has become a load, an operation and a store. -/
  | atomicRMW (operation : RMWOp) (value pointer : Operand) (split : Bool)
  /-- A fence or a `cmpxchg`. -/
  | ordering (operands : List Operand)
  | other (operands : List Operand)

def Inst.operands : Inst → List Operand
  | alloca _ => []
  | gep _ base indices => base :: indices
  | load _ pointer => [pointer]
  | store _ value pointer => [value, pointer]
  | call callee arguments => callee :: arguments
  | phi incoming => incoming
  | select condition onTrue onFalse => [condition, onTrue, onFalse]
  | atomicRMW _ value pointer _ => [value, pointer]
  | ordering operands => operands
  | other operands => operands

structure Param where
  isPointer : Bool
  nonNull : Bool
  noAlias : Bool

structure Function where
  name : Name
  isDeclaration : Bool
  params : List Param
  blocks : List (List Inst)

namespace Function

variable (func : Function)

def insts : List Inst := func.blocks.flatten

/-- The struct that an `alloca` allocates. -/
def slotType (slot : Nat) : Option Ty :=
  match func.insts[slot]? with
  | some (.alloca type@(.struct ..)) => some type
  | _ => none

/-- A store of a parameter to a local. -/
def storedParams (slot : Nat) : List Nat :=
  func.insts.filterMap fun
    | .store _ (.param param) pointer => if pointer = .inst slot then some param else none
    | _ => none

end Function

inductive Ownership where
  | none
  | owned
  | shared
  | weak
  deriving DecidableEq

structure PipelineAnalysis where
  stages : List (Name × Int)

structure LogicBlock where
  isPipeline : Bool
  pipelineAnalysis : Option PipelineAnalysis
  calledFunctions : List Name

/-- What is declared; the parameters of a function by their ownership. -/
structure SymbolTable where
  findFunction : Name → Option (List Ownership)
  logicBlocks : List LogicBlock

section Helpers

variable (symbols : SymbolTable) (func : Function)

def getParamOwnershipFromSymbols (funcName : Name) (paramIdx : Nat) : Ownership :=
  match symbols.findFunction funcName with
  | some params => params[paramIdx]?.getD .none
  | none => .none

/-- `isOwnedAlloca` and `isSharedAlloca`, by the ownership that they look for. -/
def isAllocaOf (ownership : Ownership) (slot : Nat) (funcName : Name) : Bool :=
  (func.storedParams slot).any fun param =>
    getParamOwnershipFromSymbols symbols funcName param = ownership

def isOwnedAlloca : Nat → Name → Bool := isAllocaOf symbols func .owned

def isSharedAlloca : Nat → Name → Bool := isAllocaOf symbols func .shared

def isSmartPtrType (pattern : Name) : Ty → Bool
  | .struct (some name) _ => pattern <:+: name
  | _ => false

mutual

/-- The path to the first pointer of a struct. -/
def findInnerPointer : Ty → Option (List Nat)
  | .struct _ elements => findInElements 0 elements
  | _ => none

def findInElements (position : Nat) : List Ty → Option (List Nat)
  | [] => none
  | element :: rest =>
      match element with
      | .pointer => some [position]
      | .struct name elements =>
          match findInnerPointer (.struct name elements) with
          | some path => some (position :: path)
          | none => findInElements (position + 1) rest
      | .other _ => findInElements (position + 1) rest

end

/-- A use of a value with which it escapes. -/
def Inst.escapes (value : Operand) : Inst → Bool
  | .store _ stored _ => stored = value
  -- the value may also be the callee, which is then not known
  | .call callee arguments => (callee :: arguments).contains value
  | .phi incoming => incoming.contains value
  | .select condition onTrue onFalse => [condition, onTrue, onFalse].contains value
  | _ => false

def escapesFunction (value : Operand) : Bool := func.insts.any (·.escapes value)

/-- The indices lead to the field, after the first one, which is not looked at. -/
def followsPath (path : List Nat) (indices : List Operand) : Bool :=
  path.length + 1 ≤ indices.length && (path.map Operand.constant).isPrefixOf (indices.drop 1)

/-- The value is a GEP from a local to a field. -/
def Function.isFieldOf (slot : Nat) (path : List Nat) : Operand → Bool
  | .inst index =>
      match func.insts[index]? with
      | some (.gep _ base indices) => base = .inst slot && followsPath path indices
      | _ => false
  | _ => false

/-- A store instruction that stores to a field. -/
def Function.storesTo (slot : Nat) (path : List Nat) : Inst → Bool
  | .store _ _ pointer => func.isFieldOf slot path pointer
  | _ => false

def hasStoreToInternalPtr (slot : Nat) (ptrFieldPath : List Nat) : Bool :=
  func.insts.any fun inst => func.storesTo slot ptrFieldPath inst ||
    match inst with
    | .atomicRMW _ _ pointer true => func.isFieldOf slot ptrFieldPath pointer
    | _ => false

/-- The loads from a field. -/
def ptrLoads (slot : Nat) (ptrFieldPath : List Nat) : List Nat :=
  (List.range func.insts.length).filter fun index =>
    match func.insts[index]? with
    | some (.load _ pointer) => func.isFieldOf slot ptrFieldPath pointer
    | _ => false

/-- The loads that are marked for a local: none where it fails a check. -/
def markedLoads (slot : Nat) (sty : Ty) : List Nat :=
  match findInnerPointer sty with
  | none => []
  | some ptrFieldPath =>
      if hasStoreToInternalPtr func slot ptrFieldPath || escapesFunction func (.inst slot) then []
      else ptrLoads func slot ptrFieldPath

end Helpers

/-! ## Unique pointers -/

/-- A module: its functions in order, by their identities, and those that constants use, such as
tables of functions and aliases. -/
structure Module where
  ids : List FunctionId
  function : FunctionId → Function
  usedByConstants : List FunctionId

/-- The last name that is matched with a function. -/
def funcToName (matched : List (Name × FunctionId)) (id : FunctionId) : Option Name :=
  ((matched.reverse).find? (·.2 = id)).map Prod.fst

/-- A filter for functions, if there is one, lets the function pass. -/
def allows (allowed : Option (List FunctionId)) (id : FunctionId) : Bool :=
  allowed.all (·.contains id)

/-- The locals of a function that hold a pointer of a kind, with their types. -/
def candidates (isBacked : Function → Nat → Name → Bool) (pattern : Name)
    (funcName : Option Name) (func : Function) : List (Nat × Ty) :=
  (List.range func.insts.length).filterMap fun slot =>
    (func.slotType slot).bind fun sty =>
      if funcName.any (isBacked func slot) || isSmartPtrType pattern sty then some (slot, sty)
      else none

/-- The marks that the pass sets: loads that are invariant and not null, and parameters that are not
null. -/
inductive Mark where
  | load (index : Nat)
  | param (index : Nat)
  deriving DecidableEq

/-- Parameters that a promoted local holds. -/
def nonNullParams (func : Function) (slot : Nat) : List Nat :=
  (func.storedParams slot).filter fun param =>
    func.params[param]?.any fun declared => declared.isPointer && !declared.nonNull

/-- The marks in a function, and the number of promoted locals. -/
def promoteIn (symbols : SymbolTable) (funcName : Option Name) (func : Function) :
    List Mark × Nat :=
  let promoted := (candidates (isOwnedAlloca symbols) "unique_ptr".toList funcName func).filter
    fun (slot, sty) => !(markedLoads func slot sty).isEmpty
  (promoted.flatMap fun (slot, sty) =>
      (markedLoads func slot sty).map Mark.load ++ (nonNullParams func slot).map Mark.param,
    promoted.length)

def promoteUniquePtr (symbols : SymbolTable) (matched : List (Name × FunctionId))
    (allowed : Option (List FunctionId)) (module : Module) : List (FunctionId × Mark) × Nat :=
  let functions := module.ids.filter fun id =>
    !(module.function id).isDeclaration && allows allowed id
  (functions.flatMap fun id =>
      (promoteIn symbols (funcToName matched id) (module.function id)).1.map (id, ·),
    (functions.map fun id =>
      (promoteIn symbols (funcToName matched id) (module.function id)).2).sum)

/-! ## Shared pointers -/

/-- The stage of a function, with the key under which it is found. -/
def findStageNumber (analysis : PipelineAnalysis) (calledFn : Name) : Option (Name × Int) :=
  (analysis.stages.find? (·.1 = calledFn)).or
    (analysis.stages.find? (·.1 = Text.afterLast [':', ':'] calledFn))

def isExclusiveStage (analysis : PipelineAnalysis) (calledFn matchedKey : Name)
    (thisStage : Int) : Bool :=
  analysis.stages.all fun (otherName, otherStage) =>
    otherName = calledFn || otherName = matchedKey || otherStage ≠ thisStage

/-- Instructions that end a pending decrement, other than atomic operations. -/
def Inst.ordersMemory : Inst → Bool
  | .call .. | .load .. | .store .. | .ordering _ | .atomicRMW _ _ _ true => true
  | _ => false

/-- The positions of the pairs of a decrement and an increment of one counter; one decrement may be
pending. -/
def refcountPairs (position : Nat) (pending : Option (Nat × Operand)) : List Inst → List Nat
  | [] => []
  | inst :: rest =>
      match inst with
      | .atomicRMW operation value pointer false =>
          if operation = .sub ∧ value = .constant 1 then
            refcountPairs (position + 1) (some (position, pointer)) rest
          else
            match pending with
            | some (first, counter) =>
                if operation = .add ∧ value = .constant 1 ∧ pointer = counter then
                  first :: position :: refcountPairs (position + 1) none rest
                else refcountPairs (position + 1) none rest
            | none => refcountPairs (position + 1) none rest
      | _ => refcountPairs (position + 1) (if inst.ordersMemory then none else pending) rest

def Inst.split : Inst → Inst
  | .atomicRMW operation value pointer _ => .atomicRMW operation value pointer true
  | inst => inst

def eliminateInBlock (block : List Inst) : List Inst :=
  let pairs := refcountPairs 0 none block
  block.mapIdx fun position inst => if pairs.contains position then inst.split else inst

/-- The function with its pairs split, and the number of operations that were split. -/
def eliminateBatchRefcount (func : Function) : Function × Nat :=
  ({ func with blocks := func.blocks.map eliminateInBlock },
    (func.blocks.map fun block => (refcountPairs 0 none block).length).sum)

/-- What the pass makes of a module. -/
structure Progress where
  module : Module
  marks : List (FunctionId × Mark)
  uniquePtrPromoted : Nat
  sharedPtrDereferenced : Nat
  refcountEliminated : Nat

/-- The steps for a function that a pipeline calls on a stage of its own. -/
def Progress.share (progress : Progress) (symbols : SymbolTable)
    (matched : List (Name × FunctionId)) (id : FunctionId) : Progress :=
  let (func, eliminated) := eliminateBatchRefcount (progress.module.function id)
  let dereferenced := (candidates (isSharedAlloca symbols) "shared_ptr".toList
    (funcToName matched id) func).filter fun (slot, sty) => !(markedLoads func slot sty).isEmpty
  { progress with
    module := { progress.module with function := Function.update progress.module.function id func }
    marks := progress.marks ++ dereferenced.flatMap fun (slot, sty) =>
      (markedLoads func slot sty).map (id, Mark.load ·)
    sharedPtrDereferenced := progress.sharedPtrDereferenced + dereferenced.length
    refcountEliminated := progress.refcountEliminated + eliminated }

/-- The function of a call of a pipeline that is on a stage of its own. -/
def exclusiveCallee (mapping : SymbolMapping) (allowed : Option (List FunctionId))
    (module : Module) (analysis : PipelineAnalysis) (calledFn : Name) : Option FunctionId :=
  match mapping.matched.lookup calledFn, findStageNumber analysis calledFn with
  | some id, some (matchedKey, thisStage) =>
      if (module.function id).isDeclaration = false ∧ allows allowed id = true ∧ 0 ≤ thisStage ∧
          isExclusiveStage analysis calledFn matchedKey thisStage = true then some id
      else none
  | _, _ => none

def optimizeSharedPtr (symbols : SymbolTable) (mapping : SymbolMapping)
    (matched : List (Name × FunctionId)) (allowed : Option (List FunctionId))
    (progress : Progress) : Progress :=
  symbols.logicBlocks.foldl (fun progress lb =>
    match lb.isPipeline, lb.pipelineAnalysis with
    | true, some analysis =>
        lb.calledFunctions.foldl (fun progress calledFn =>
          match exclusiveCallee mapping allowed progress.module analysis calledFn with
          | some id => progress.share symbols matched id
          | none => progress) progress
    | _, _ => progress) progress

structure IndirectionConfig where
  isEnabled : Bool
  uniquePtrPromotion : Bool
  sharedPtrExclusive : Bool

/-- The functions that a filter lets pass. -/
def allowedBy (matched : List (Name × FunctionId)) (module : Module)
    (functionFilter : Option (List Name)) : Option (List FunctionId) :=
  functionFilter.map fun filter =>
    (matched.map Prod.snd).filter fun id => filter.contains (module.function id).name

/-- `IndirectionPass::run` up to its second step. -/
def run (mapping : SymbolMapping) (matched : List (Name × FunctionId)) (symbols : SymbolTable)
    (config : IndirectionConfig) (functionFilter : Option (List Name)) (module : Module) :
    Progress :=
  let start : Progress := ⟨module, [], 0, 0, 0⟩
  let allowed := allowedBy matched module functionFilter
  if config.isEnabled = false ∨ allowed = some [] then start
  else
    let promoted : Progress :=
      if config.uniquePtrPromotion then
        let (marks, count) := promoteUniquePtr symbols matched allowed module
        { start with marks := marks, uniquePtrPromoted := count }
      else start
    if config.sharedPtrExclusive then optimizeSharedPtr symbols mapping matched allowed promoted
    else promoted

end Indirection
end TopoLlvm
