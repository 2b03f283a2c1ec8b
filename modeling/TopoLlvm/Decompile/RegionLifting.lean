import TopoLlvm.Library.Worklist
import Mathlib.Logic.Function.Basic

/-!
# Lifting control flow

`LLVMLifter` turns the blocks of a function into nested statements, recursively from a block up to an
exit, with the blocks that it has lifted as shared state.  In front of each block it tries to recover
a `try` statement from the calls that unwind to one landing pad.
-/

namespace TopoLlvm
namespace Decompile
namespace RegionLifting

abbrev BlockId := Nat

/-- A clause of a landing pad; the readable name of a type is empty where it is not found. -/
inductive Clause where
  | catchAll
  | catchTyped (readableName : String)
  | filter
  deriving DecidableEq

structure LandingPad where
  clauses : List Clause
  isCleanup : Bool
  deriving DecidableEq

/-- A terminator; those that are lifted as instructions have an id. -/
inductive Terminator where
  | ret (id : Nat)
  | br (target : BlockId)
  | condBr (condition : Nat) (onTrue onFalse : BlockId)
  | switch (condition : Nat) (cases : List (Int × BlockId)) (defaultDest : BlockId)
  | invoke (id : Nat) (normalDest unwindDest : BlockId)
  | resume
  /-- Exception handling by funclets. -/
  | funclet (id : Nat) (successors : List BlockId)
  | other (id : Nat) (successors : List BlockId)
  deriving DecidableEq

/-- A block with the ids of its instructions, the terminator and a landing pad left out. -/
structure Block where
  insts : List Nat
  landingPad : Option LandingPad
  /-- It holds a pad of a funclet. -/
  funcletPad : Bool
  terminator : Terminator
  deriving DecidableEq

structure Function where
  blocks : List Block
  personality : Option String

structure Loop where
  header : BlockId
  /-- The header first. -/
  blocks : List BlockId
  latch : Option BlockId
  exitBlocks : List BlockId

/-- What a counted loop initializes, tests and computes for the next turn. -/
structure CountedLoop where
  init : Nat
  condition : Nat
  increment : Nat

/-- What the analyses of a function say. -/
structure Analyses where
  /-- The innermost loop of a block. -/
  getLoopFor : BlockId → Option Loop
  /-- In the tree of post-dominators. -/
  findNearestCommonDominator : BlockId → BlockId → Option BlockId
  detectCountedLoop : Loop → Option CountedLoop

inductive Condition where
  | value (id : Nat)
  | always
  | missing

/-- A statement.  What is lifted from a branch or a loop says from which block, which the source does
not keep. -/
inductive Stmt where
  | inst (id : Nat)
  /-- A load, an operation and a store in a row. -/
  | compoundAssign (load operation store : Nat)
  | ifStmt (branch : BlockId) (condition : Nat) (thenBody elseBody : List Stmt)
  | whileStmt (header : BlockId) (condition : Condition) (body : List Stmt)
  | forStmt (header : BlockId) (counted : CountedLoop) (body : List Stmt)
  /-- The default case has no value. -/
  | switchStmt (branch : BlockId) (subject : Nat) (cases : List (Option Int × List Stmt))
  /-- A clause that catches everything has no type. -/
  | tryCatch (tryBody : List Stmt) (catchClauses : List (Option String × List Stmt))
      (finallyBody : List Stmt)
  | breakStmt
  | continueStmt

/-- The blocks that are lifted, and the entries of the `try` regions that are being lifted. -/
structure State where
  visited : BlockId → Bool
  ehRegionEntries : BlockId → Bool

def State.visit (state : State) (block : BlockId) : State :=
  { state with visited := Function.update state.visited block true }

def Terminator.successors : Terminator → List BlockId
  | .ret _ | .resume => []
  | .br target => [target]
  | .condBr _ onTrue onFalse => [onTrue, onFalse]
  | .switch _ cases defaultDest => defaultDest :: cases.map Prod.snd
  | .invoke _ normalDest unwindDest => [normalDest, unwindDest]
  | .funclet _ successors | .other _ successors => successors

namespace Function

variable (func : Function)

def block (id : BlockId) : Block :=
  (func.blocks[id]?).getD
    { insts := [], landingPad := none, funcletPad := false, terminator := .resume }

def usesItaniumCxxEH : Bool := func.personality = some "__gxx_personality_v0"

def usesFunclets : Bool :=
  func.blocks.any fun block => block.funcletPad ||
    match block.terminator with
    | .funclet .. => true
    | _ => false

end Function

/-! ## The protected region -/

/-- The normal destinations of the calls found so far, and their common landing pad. -/
structure Invokes where
  normalDests : List BlockId
  landingPadBB : Option BlockId

section Lift

variable (func : Function) (analyses : Analyses)

def isLoopHeader (block : BlockId) : Bool :=
  (analyses.getLoopFor block).any fun loop => loop.header = block

/-- Look for calls that unwind; a second landing pad ends the search, a nested loop is left out. -/
def visitForInvokes (entry : BlockId) (exit : Option BlockId) (bb : BlockId) (found : Invokes) :
    Worklist.Verdict BlockId Invokes :=
  if some bb = exit then .go [] found
  else
    match (func.block bb).terminator with
    | .invoke _ normalDest unwindDest =>
        if (func.block unwindDest).landingPad.isNone then .stop found
        else if found.landingPadBB.any (· ≠ unwindDest) then .stop found
        else
          .go [normalDest]
            { normalDests := found.normalDests ++ [normalDest], landingPadBB := some unwindDest }
    | terminator =>
        if isLoopHeader analyses bb && bb ≠ entry then .go [] found
        else .go terminator.successors found

/-- Where control goes on behind the region. -/
def converge (first : BlockId) (others : List BlockId) : Option BlockId :=
  others.foldl (fun converge dest =>
    converge.bind fun converge => analyses.findNearestCommonDominator converge dest) (some first)

structure ProtectedRegion where
  landingPadBB : BlockId
  landingPad : LandingPad
  converge : Option BlockId

/-- The region that a block opens, if it can be delimited. -/
def protectedRegion (entry : BlockId) (exit : Option BlockId) : Option ProtectedRegion :=
  if (func.block entry).landingPad.isSome || !func.usesItaniumCxxEH || func.usesFunclets then none
  else
    match Worklist.search (visitForInvokes func analyses entry exit) func.blocks.length [entry] []
        { normalDests := [], landingPadBB := none } with
    | .stopped _ => none
    | .finished _ found =>
        match found.normalDests, found.landingPadBB with
        | first :: others, some landingPadBB =>
            (func.block landingPadBB).landingPad.map fun landingPad =>
              { landingPadBB, landingPad, converge := (converge analyses first others).or exit }
        | _, _ => none

/-- The types that the clauses catch; a filter and a type without a name are not modelled. -/
def catchTypes : List Clause → Option (List (Option String))
  | [] => some []
  | .catchAll :: clauses => (catchTypes clauses).map (none :: ·)
  | .catchTyped readableName :: clauses =>
      if readableName = "" then none else (catchTypes clauses).map (some readableName :: ·)
  | .filter :: _ => none

/-- Lift the blocks from an entry up to an exit, behind what is lifted. -/
abbrev Lift : Type :=
  Option BlockId → Option BlockId → List Stmt → State → Option (List Stmt × State)

variable (lift : Lift)

/-- The catch clauses and the body of `finally`; none where the pad is not understood.  The handlers
are lifted into the first clause. -/
def liftLandingPad (region : ProtectedRegion) (state : State) :
    Option (Option (List (Option String × List Stmt) × List Stmt) × State) :=
  match catchTypes region.landingPad.clauses with
  | none => some (none, state)
  | some [] =>
      if region.landingPad.isCleanup then
        (lift (some region.landingPadBB) region.converge [] state).map fun (body, state) =>
          (some ([], body), state)
      else some (none, state)
  | some (first :: others) =>
      (lift (some region.landingPadBB) region.converge [] state).map fun (body, state) =>
        (some ((first, body) :: others.map (·, []), []), state)

/-- The state in which the protected region is lifted: its handler counts as lifted. -/
def State.protect (state : State) (entry landingPadBB : BlockId) : State where
  visited := Function.update state.visited landingPadBB true
  ehRegionEntries := Function.update state.ehRegionEntries entry true

/-- Back to what the handler was before. -/
def State.unprotect (state : State) (entry landingPadBB : BlockId) (lpadWasVisited : Bool) :
    State where
  visited := Function.update state.visited landingPadBB lpadWasVisited
  ehRegionEntries := Function.update state.ehRegionEntries entry false

def tryLiftEHRegion (entry : BlockId) (exit : Option BlockId) (stmts : List Stmt) (state : State) :
    Option (Bool × List Stmt × State) :=
  if state.ehRegionEntries entry then some (false, stmts, state)
  else
    match protectedRegion func analyses entry exit with
    | none => some (false, stmts, state)
    | some region => do
        let (tryBody, inside) ←
          lift (some entry) region.converge [] (state.protect entry region.landingPadBB)
        let (handlers, after) ← liftLandingPad lift region
          (inside.unprotect entry region.landingPadBB (state.visited region.landingPadBB))
        match handlers with
        | none => some (false, stmts, after)
        | some (catchClauses, finallyBody) =>
            if tryBody.isEmpty && catchClauses.isEmpty && finallyBody.isEmpty then
              some (false, stmts, after)
            else
              let stmts := stmts ++ [.tryCatch tryBody catchClauses finallyBody]
              if region.converge.isSome && region.converge ≠ exit then
                (lift region.converge exit stmts after).map (true, ·)
              else some (true, stmts, after)

/-! ## The other blocks

Loads, operations and stores in a row become compound assignments by `compactCompoundAssigns`. -/

variable (compactCompoundAssigns : List Stmt → List Stmt)

/-- The instructions of a block of a loop; a conditional branch is left out. -/
def liftBodyBlock (loop : Loop) (bb : BlockId) : List Stmt :=
  (func.block bb).insts.map .inst ++
    match (func.block bb).terminator with
    | .br target =>
        if target ∈ loop.exitBlocks then [.breakStmt]
        else if target = loop.header || loop.latch = some target then [.continueStmt]
        else []
    | .condBr .. | .resume => []
    | .switch condition cases _ =>
        [.switchStmt bb condition (cases.map (fun (value, _) => (some value, [])) ++ [(none, [])])]
    | .ret id | .invoke id .. | .funclet id _ | .other id _ => [.inst id]

/-- The blocks of a loop in order, without the header and what is lifted already. -/
def liftLoopBody (loop : Loop) : List BlockId → List Stmt → State → List Stmt × State
  | [], body, state => (body, state)
  | bb :: blocks, body, state =>
      if bb = loop.header || state.visited bb then liftLoopBody loop blocks body state
      else liftLoopBody loop blocks (body ++ liftBodyBlock func loop bb) (state.visit bb)

/-- The loop of a header, and then each of its exits. -/
def liftLoop (loop : Loop) (entry : BlockId) (exit : Option BlockId) (stmts : List Stmt)
    (state : State) : Option (List Stmt × State) :=
  let (body, state) := liftLoopBody func loop loop.blocks [] state
  let body := compactCompoundAssigns body
  let stmt : Stmt :=
    match analyses.detectCountedLoop loop with
    | some counted => .forStmt entry counted body
    | none =>
        match (func.block entry).terminator with
        | .condBr condition .. => .whileStmt entry (.value condition) body
        | .br _ => .whileStmt entry .always body
        | _ => .whileStmt entry .missing body
  let state := loop.blocks.foldl State.visit state
  loop.exitBlocks.foldlM (fun (stmts, state) exitBB => lift (some exitBB) exit stmts state)
    (stmts ++ [stmt], state)

/-- The cases of a switch, one after the other. -/
def liftCases (convergeBB : Option BlockId) :
    List (Int × BlockId) → State → Option (List (Option Int × List Stmt) × State)
  | [], state => some ([], state)
  | (value, dest) :: cases, state => do
      let (body, state) ← lift (some dest) convergeBB [] state
      let (rest, state) ← liftCases convergeBB cases state
      some ((some value, body) :: rest, state)

/-- An arm; it has no blocks where it is the convergence point itself. -/
def liftArm (arm : BlockId) (convergeBB : Option BlockId) (state : State) :
    Option (List Stmt × State) :=
  if some arm ≠ convergeBB then lift (some arm) convergeBB [] state else some ([], state)

def liftSwitch (entry : BlockId) (condition : Nat) (cases : List (Int × BlockId))
    (defaultDest : BlockId) (exit : Option BlockId) (stmts : List Stmt) (state : State) :
    Option (List Stmt × State) := do
  let convergeBB :=
    match cases.map Prod.snd ++ [defaultDest] with
    | [] => none
    | first :: others => converge analyses first others
  let (lifted, state) ← liftCases lift convergeBB cases state
  let (body, state) ← liftArm lift defaultDest convergeBB state
  lift convergeBB exit (stmts ++ [.switchStmt entry condition (lifted ++ [(none, body)])]) state

def liftIf (entry : BlockId) (condition : Nat) (trueBB falseBB : BlockId) (exit : Option BlockId)
    (stmts : List Stmt) (state : State) : Option (List Stmt × State) := do
  let convergeBB := analyses.findNearestCommonDominator trueBB falseBB
  let (thenBody, state) ← lift (some trueBB) convergeBB [] state
  let (elseBody, state) ← liftArm lift falseBB convergeBB state
  lift convergeBB exit (stmts ++ [.ifStmt entry condition thenBody elseBody]) state

/-- A block that opens neither a `try` region nor a loop. -/
def liftBlock (entry : BlockId) (exit : Option BlockId) (stmts : List Stmt) (state : State) :
    Option (List Stmt × State) :=
  let stmts := stmts ++ (func.block entry).insts.map .inst
  match (func.block entry).terminator with
  | .switch condition cases defaultDest =>
      liftSwitch analyses lift entry condition cases defaultDest exit stmts state
  | .invoke id normalDest _ => lift (some normalDest) exit (stmts ++ [.inst id]) state
  | .resume => some (stmts, state)
  | .condBr condition trueBB falseBB =>
      liftIf analyses lift entry condition trueBB falseBB exit stmts state
  | .br target => lift (some target) exit stmts state
  | .ret id | .funclet id _ | .other id _ =>
      some (compactCompoundAssigns (stmts ++ [.inst id]), state)

/-- The recursion; without fuel there is no result. -/
def liftBlockRegion : Nat → Lift
  | 0, _, _, _, _ => none
  | _ + 1, none, _, stmts, state => some (stmts, state)
  | fuel + 1, some entry, exit, stmts, state =>
      if some entry = exit || state.visited entry then some (stmts, state)
      else do
        let (recovered, stmts, state) ←
          tryLiftEHRegion func analyses (liftBlockRegion fuel) entry exit stmts state
        if recovered || state.visited entry then some (stmts, state)
        else
          let state := state.visit entry
          match (analyses.getLoopFor entry).filter (·.header = entry) with
          | some loop =>
              liftLoop func analyses (liftBlockRegion fuel) compactCompoundAssigns loop entry exit
                stmts state
          | none =>
              liftBlock func analyses (liftBlockRegion fuel) compactCompoundAssigns entry exit stmts
                state

end Lift

end RegionLifting
end Decompile
end TopoLlvm
