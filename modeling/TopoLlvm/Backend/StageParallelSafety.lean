import TopoLlvm.Backend.StageOrder
import TopoLlvm.Library.Reorder
import Mathlib.Algebra.GroupWithZero.Nat

/-!
# The operations of one stage

`Verifier::checkStageParallelSafety` looks at each two calls of a host function whose callees are in
one stage of its logic block: one must not use the result of the other, and a warning says where
both name one global variable and not both of them only read memory.  Where it is silent, the calls
of a stage can be performed in any order.
-/

namespace TopoLlvm
namespace Backend
namespace BodyVerifier

/-- An operand of a call. -/
inductive CallOperand where
  /-- The result of a call, as it is. -/
  | result (call : Nat)
  /-- Another value, with the calls from whose results it is computed. -/
  | derived (value : Nat) (results : List Nat)
  deriving DecidableEq

/-- A call or an invoke with its operands. -/
structure IRCall where
  id : Nat
  callee : Option FunctionId
  operands : List CallOperand
  deriving DecidableEq

/-- The body of a callee: the global variables that its instructions name. -/
structure CalleeBody where
  globals : List Nat
  onlyReadsMemory : Bool
  deriving DecidableEq

/-- A host module with the operands of its calls and the bodies of its functions. -/
structure ParallelHost extends HostModule where
  irCalls : FunctionId → List IRCall
  irCalls_callee : ∀ func, (irCalls func).map (·.callee) = (calls func).map (·.callee)
  distinct : ∀ func, ((irCalls func).map (·.id)).Nodup
  /-- Nothing for a declaration. -/
  body : FunctionId → Option CalleeBody
  globalName : Nat → Name

/-- A call of a function that has a Topo name. -/
structure TopoCall where
  call : IRCall
  callee : FunctionId
  topoName : Name
  deriving DecidableEq

/-! ## The check -/

def ParallelHost.findTopoCallsInFunction (host : ParallelHost) (names : TopoNames)
    (func : FunctionId) : List TopoCall :=
  (host.irCalls func).filterMap fun call =>
    call.callee.bind fun callee =>
      (names.lookup (host.getName callee)).map fun topoName => ⟨call, callee, topoName⟩

def isAssign (callee : Name) : Bool :=
  8 < callee.length && callee.take 8 = "<assign:".toList

/-- The operations of a stage. -/
def FnBlock.stageOps (block : FnBlock) (stage : Int) : List Name :=
  ((block.calledFunctions.zip block.stages).filter fun entry =>
    !isAssign entry.1 && entry.2 = stage).map fun entry => block.nsPrefix ++ entry.1

def TopoCall.isOf (ops : List Name) (call : TopoCall) : Bool := ops.any (call.topoName = ·)

inductive SafetyFinding where
  | dependency (stage : Int) (former latter : Name)
  | sharedGlobal (stage : Int) (one other global : Name)
  deriving DecidableEq

/-- The text of the error or the warning. -/
def SafetyFinding.message (blockName : Name) : SafetyFinding → Name
  | .dependency stage former latter =>
      "fn block '".toList ++ blockName ++ "': stage ".toList ++ (toString stage).toList ++
        " operations '".toList ++ former ++ "' and '".toList ++ latter ++
        ("' have direct data dependency — " ++
          "return value of the former feeds the latter").toList
  | .sharedGlobal stage one other global =>
      "fn block '".toList ++ blockName ++ "': stage ".toList ++ (toString stage).toList ++
        " operations '".toList ++ one ++ "' and '".toList ++ other ++
        "' both access global '".toList ++ global ++ "' — potential data race".toList

/-- The pairs of elements, the earlier one first. -/
def pairs {α : Type} : List α → List (α × α)
  | [] => []
  | first :: rest => rest.map (first, ·) ++ pairs rest

/-- One finding for each use of a result. -/
def uses (stage : Int) (former latter : TopoCall) : List SafetyFinding :=
  List.replicate (latter.call.operands.count (.result former.call.id))
    (.dependency stage former.topoName latter.topoName)

def dependencies (stage : Int) (pair : TopoCall × TopoCall) : List SafetyFinding :=
  uses stage pair.1 pair.2 ++ uses stage pair.2 pair.1

/-- The first global variable of the second callee that the first names too decides. -/
def ParallelHost.sharedGlobal (host : ParallelHost) (stage : Int) (pair : TopoCall × TopoCall) :
    Option SafetyFinding :=
  match host.body pair.1.callee, host.body pair.2.callee with
  | some one, some other =>
      (other.globals.find? (one.globals.contains ·)).bind fun global =>
        if !one.onlyReadsMemory || !other.onlyReadsMemory then
          some (.sharedGlobal stage pair.1.topoName pair.2.topoName (host.globalName global))
        else none
  | _, _ => none

/-- What the check finds in one stage. -/
def ParallelHost.checkStage (host : ParallelHost) (calls : List TopoCall) (stage : Int)
    (ops : List Name) : List SafetyFinding :=
  if ops.length < 2 then []
  else
    let stageCalls := calls.filter (·.isOf ops)
    (pairs stageCalls).flatMap (dependencies stage) ++
      (pairs stageCalls).filterMap (host.sharedGlobal stage)

/-- What the check finds in a block, whose stages are walked in some order. -/
def ParallelHost.checkBlock (host : ParallelHost) (names : TopoNames) (block : FnBlock)
    (stages : List Int) : List SafetyFinding :=
  if block.stages = [] ∨ block.isPipeline = true then []
  else
    match host.matched.lookup block.qualifiedName with
    | none => []
    | some func =>
        stages.flatMap fun stage =>
          host.checkStage (host.findTopoCallsInFunction names func) stage (block.stageOps stage)

/-- The diagnostics of `Verifier::checkStageParallelSafety`. -/
def checkStageParallelSafety (host : ParallelHost) (walked : List (Name × FunctionId))
    (blocks : List FnBlock) (stages : FnBlock → List Int) : List Name :=
  blocks.flatMap fun block =>
    (host.checkBlock (host.llvmToTopo walked) block (stages block)).map
      (·.message block.qualifiedName)

/-! ## What a silent check says -/

theorem mem_pairs {α : Type} {l : List α} {one other : α} :
    (one, other) ∈ pairs l ↔ Reorder.Before l one other := by
  induction l with
  | nil =>
      constructor
      · intro member
        cases member
      · intro before
        cases before
  | cons first rest induction =>
      rw [pairs, List.mem_append, List.mem_map, induction]
      constructor
      · rintro (⟨later, member, same⟩ | inside)
        · obtain ⟨rfl, rfl⟩ := Prod.mk.inj same
          exact List.cons_sublist_cons.mpr (List.singleton_sublist.mpr member)
        · exact inside.cons first
      · intro before
        rcases List.sublist_cons_iff.mp before with inside | ⟨tail, same, member⟩
        · exact Or.inr inside
        · obtain ⟨rfl, rfl⟩ := List.cons.inj same
          exact Or.inl ⟨other, List.singleton_sublist.mp member, rfl⟩

/-- Two calls of which the check has nothing to say. -/
structure SafePair (host : ParallelHost) (one other : TopoCall) : Prop where
  unused : .result one.call.id ∉ other.call.operands
  unused_back : .result other.call.id ∉ one.call.operands
  globals : ∀ body otherBody, host.body one.callee = some body →
    host.body other.callee = some otherBody → ∀ global ∈ otherBody.globals,
      global ∈ body.globals → body.onlyReadsMemory = true ∧ otherBody.onlyReadsMemory = true

theorem uses_eq_nil_iff {stage : Int} {former latter : TopoCall} :
    uses stage former latter = [] ↔ .result former.call.id ∉ latter.call.operands := by
  rw [uses, List.replicate_eq_nil_iff, List.count_eq_zero]

theorem sharedGlobal_eq_none_iff {host : ParallelHost} {stage : Int} {one other : TopoCall} :
    host.sharedGlobal stage (one, other) = none ↔
      ∀ body otherBody, host.body one.callee = some body →
        host.body other.callee = some otherBody → ∀ global ∈ otherBody.globals,
          global ∈ body.globals →
            body.onlyReadsMemory = true ∧ otherBody.onlyReadsMemory = true := by
  unfold ParallelHost.sharedGlobal
  cases first : host.body one.callee with
  | none => simp
  | some body =>
      cases second : host.body other.callee with
      | none => simp
      | some otherBody =>
          simp only [Option.some.injEq]
          constructor
          · rintro silent _ _ rfl rfl global inside shared
            cases search : otherBody.globals.find? (body.globals.contains ·) with
            | none =>
                have missed := List.find?_eq_none.mp search global inside
                exact absurd (List.contains_iff_mem.mpr shared) missed
            | some found =>
                rw [search, Option.bind_some] at silent
                simpa using silent
          · intro pure
            cases search : otherBody.globals.find? (body.globals.contains ·) with
            | none => rfl
            | some found =>
                obtain ⟨reads, otherReads⟩ := pure body otherBody rfl rfl found
                  (List.mem_of_find?_eq_some search)
                  (List.contains_iff_mem.mp (List.find?_some search))
                simp [reads, otherReads]

/-- The check is silent on a stage if and only if each two of its calls are safe. -/
theorem checkStage_eq_nil_iff {host : ParallelHost} {calls : List TopoCall} {stage : Int}
    {ops : List Name} (several : 2 ≤ ops.length) :
    host.checkStage calls stage ops = [] ↔
      ∀ one other, Reorder.Before (calls.filter (·.isOf ops)) one other →
        SafePair host one other := by
  rw [ParallelHost.checkStage, if_neg (Nat.not_lt.mpr several), List.append_eq_nil_iff,
    List.flatMap_eq_nil_iff, List.filterMap_eq_nil_iff]
  constructor
  · rintro ⟨independent, unshared⟩ one other before
    have member := mem_pairs.mpr before
    obtain ⟨unused, back⟩ := List.append_eq_nil_iff.mp (independent _ member)
    exact ⟨uses_eq_nil_iff.mp unused, uses_eq_nil_iff.mp back,
      sharedGlobal_eq_none_iff.mp (unshared _ member)⟩
  · intro safe
    refine ⟨fun pair member => ?_, fun pair member => ?_⟩
    · have apart := safe pair.1 pair.2 (mem_pairs.mp member)
      exact List.append_eq_nil_iff.mpr
        ⟨uses_eq_nil_iff.mpr apart.unused, uses_eq_nil_iff.mpr apart.unused_back⟩
    · exact sharedGlobal_eq_none_iff.mpr (safe pair.1 pair.2 (mem_pairs.mp member)).globals

/-! ## The calls as actions -/

/-- A global variable, or the result of a call. -/
inductive Place where
  | global (id : Nat)
  | result (call : Nat)
  deriving DecidableEq

/-- What a function with a body does: it reads and writes only the variables that its body names,
and writes none where it only reads memory. -/
structure Behaviour (Value : Type) (body : CalleeBody) where
  run : List Value → (Nat → Value) → (Nat → Option Value) × Value
  frame : ∀ args globals, ∀ global ∉ body.globals, (run args globals).1 global = none
  reads : ∀ args globals others, (∀ global ∈ body.globals, globals global = others global) →
    run args globals = run args others
  readOnly : body.onlyReadsMemory = true → ∀ args globals global,
    (run args globals).1 global = none

variable {Value : Type}

/-- The calls whose results an operand needs. -/
def CallOperand.results : CallOperand → List Nat
  | .result call => [call]
  | .derived _ results => results

/-- The value of an operand; `derive` computes a value from results. -/
def CallOperand.value (derive : Nat → List Value → Value) (state : Place → Value) :
    CallOperand → Value
  | .result call => state (.result call)
  | .derived value results => derive value (results.map fun call => state (.result call))

namespace ParallelHost

variable (host : ParallelHost) (behaviour : ∀ body, Behaviour Value body)
  (derive : Nat → List Value → Value)

def bodyOf (call : TopoCall) : CalleeBody := (host.body call.callee).getD ⟨[], false⟩

/-- A call, as it reads and writes variables and results. -/
def action (call : TopoCall) : Reorder.Action Place Value where
  reads := fun place =>
    match place with
    | .global id => id ∈ (host.bodyOf call).globals
    | .result other => ∃ operand ∈ call.call.operands, other ∈ operand.results
  writes := fun place =>
    match place with
    | .global id => id ∈ (host.bodyOf call).globals ∧ (host.bodyOf call).onlyReadsMemory = false
    | .result other => other = call.call.id
  update state place :=
    let outcome := (behaviour (host.bodyOf call)).run
      (call.call.operands.map (·.value derive state)) fun id => state (.global id)
    match place with
    | .global id => outcome.1 id
    | .result other => if other = call.call.id then some outcome.2 else none
  frame := by
    intro state place outside
    cases place with
    | global id =>
        cases reads : (host.bodyOf call).onlyReadsMemory with
        | true => exact (behaviour _).readOnly reads _ _ id
        | false => exact (behaviour _).frame _ _ id fun inside => outside ⟨inside, reads⟩
    | result other => exact if_neg outside
  depends := by
    intro state other same
    have args : call.call.operands.map (·.value derive state) =
        call.call.operands.map (·.value derive other) := by
      refine List.map_congr_left fun operand member => ?_
      cases operand with
      | result id => exact same (.result id) ⟨_, member, List.mem_singleton_self id⟩
      | derived value results =>
          refine congrArg (derive value) (List.map_congr_left fun id inside => ?_)
          exact same (.result id) ⟨_, member, inside⟩
    have outcome := (behaviour (host.bodyOf call)).reads
      (call.call.operands.map (·.value derive state)) (fun id => state (.global id))
      (fun id => other (.global id)) fun id inside => same (.global id) inside
    rw [args] at outcome
    funext place
    simp only [args, outcome]

variable {host}

/-- Safe calls are independent, where no value computed from one goes to the other. -/
theorem independent_of_safe {one other : TopoCall} (safe : SafePair host one other)
    (bodies : (host.body one.callee).isSome = true ∧ (host.body other.callee).isSome = true)
    (differ : one.call.id ≠ other.call.id)
    (direct : ∀ value results, .derived value results ∈ other.call.operands →
      one.call.id ∉ results)
    (direct_back : ∀ value results, .derived value results ∈ one.call.operands →
      other.call.id ∉ results) :
    (host.action behaviour derive one).Independent (host.action behaviour derive other) := by
  obtain ⟨body, body_eq⟩ := Option.isSome_iff_exists.mp bodies.1
  obtain ⟨otherBody, other_eq⟩ := Option.isSome_iff_exists.mp bodies.2
  have own : host.bodyOf one = body := by rw [bodyOf, body_eq, Option.getD_some]
  have others : host.bodyOf other = otherBody := by rw [bodyOf, other_eq, Option.getD_some]
  have shared := safe.globals body otherBody body_eq other_eq
  have needs {first second : TopoCall} (unused : .result first.call.id ∉ second.call.operands)
      (underived : ∀ value results, .derived value results ∈ second.call.operands →
        first.call.id ∉ results) : ¬ ∃ operand ∈ second.call.operands,
          first.call.id ∈ operand.results := by
    rintro ⟨operand, member, named⟩
    cases operand with
    | result id =>
        rw [CallOperand.results, List.mem_singleton] at named
        exact unused (named ▸ member)
    | derived value results => exact underived value results member named
  refine ⟨?_, ?_, ?_⟩ <;> rw [Set.disjoint_left] <;> intro place written touched
  · cases place with
    | global id =>
        have reads := (shared id (others ▸ touched.1) (own ▸ written.1)).1
        exact Bool.false_ne_true (written.2.symm.trans (own ▸ reads))
    | result id => exact differ (Eq.trans (Eq.symm written) touched)
  · cases place with
    | global id =>
        have reads := (shared id (others ▸ touched) (own ▸ written.1)).1
        exact Bool.false_ne_true (written.2.symm.trans (own ▸ reads))
    | result id =>
        obtain rfl : id = one.call.id := written
        exact needs safe.unused direct touched
  · cases place with
    | global id =>
        have reads := (shared id (others ▸ written.1) (own ▸ touched)).2
        exact Bool.false_ne_true (written.2.symm.trans (others ▸ reads))
    | result id =>
        obtain rfl : id = other.call.id := written
        exact needs safe.unused_back direct_back touched

/-! ## Schedules -/

theorem calls_findTopoCalls (names : TopoNames) (func : FunctionId) :
    ((host.findTopoCallsInFunction names func).map (·.call)).Sublist (host.irCalls func) := by
  rw [findTopoCallsInFunction]
  induction host.irCalls func with
  | nil => exact List.Sublist.slnil
  | cons call calls induction =>
      rw [List.filterMap_cons]
      split
      · exact induction.cons call
      · rename_i topoCall found
        obtain ⟨callee, -, named⟩ := Option.bind_eq_some_iff.mp found
        obtain ⟨topoName, -, rfl⟩ := Option.map_eq_some_iff.mp named
        exact induction.cons_cons call

theorem ids_nodup (host : ParallelHost) (names : TopoNames) (func : FunctionId) :
    ((host.findTopoCallsInFunction names func).map (·.call.id)).Nodup := by
  have within : ((host.findTopoCallsInFunction names func).map (·.call)).Sublist
      (host.irCalls func) := calls_findTopoCalls names func
  have calls := within.map IRCall.id
  rw [List.map_map] at calls
  exact (host.distinct func).sublist calls

/-- The block's check is silent on each of its stages. -/
theorem checkStage_eq_nil {names : TopoNames} {block : FnBlock} {stages : List Int}
    {func : FunctionId} (found : host.matched.lookup block.qualifiedName = some func)
    (ordinary : block.isPipeline = false) (silent : host.checkBlock names block stages = [])
    {stage : Int} (walked : stage ∈ stages) (listed : block.stages ≠ []) :
    host.checkStage (host.findTopoCallsInFunction names func) stage (block.stageOps stage) =
      [] := by
  rw [checkBlock, if_neg (by simp [listed, ordinary]), found] at silent
  exact List.flatMap_eq_nil_iff.mp silent stage walked

theorem mem_stages_of_stageOps {block : FnBlock} {stage : Int} {op : Name}
    (member : op ∈ block.stageOps stage) : stage ∈ block.stages := by
  obtain ⟨⟨callee, listed⟩, kept, -⟩ := List.mem_map.mp member
  obtain ⟨entry, keeps⟩ := List.mem_filter.mp kept
  rw [Bool.and_eq_true, decide_eq_true_iff] at keeps
  obtain rfl : listed = stage := keeps.2
  exact (List.of_mem_zip entry).2

/-- Where the check is silent, the calls of a block's host function can be performed in any order
that changes the order within stages of two or more operations only: all variables and all results
come out the same.  The callees have bodies and touch no other memory than the variables that these
name; a value that goes from one call of a stage to another is the result itself. -/
theorem parallel_stages {walked : List (Name × FunctionId)} {blocks : List FnBlock}
    {stages : FnBlock → List Int} (silent : checkStageParallelSafety host walked blocks stages = [])
    {block : FnBlock} (checked : block ∈ blocks)
    (walks : ∀ stage ∈ block.stages, stage ∈ stages block) (ordinary : block.isPipeline = false)
    {func : FunctionId} (found : host.matched.lookup block.qualifiedName = some func)
    {staged schedule : List TopoCall} {stage : TopoCall → Int}
    (calls : staged.Sublist (host.findTopoCallsInFunction (host.llvmToTopo walked) func))
    (in_stage : ∀ call ∈ staged, call.isOf (block.stageOps (stage call)) = true)
    (bodies : ∀ call ∈ staged, (host.body call.callee).isSome = true)
    (direct : ∀ one ∈ staged, ∀ other ∈ staged, stage one = stage other →
      ∀ value results, .derived value results ∈ other.call.operands → one.call.id ∉ results)
    (perm : staged.Perm schedule)
    (keeps : ∀ one other, Reorder.Before staged one other →
      stage one ≠ stage other ∨ (block.stageOps (stage one)).length < 2 →
        Reorder.Before schedule one other)
    (state : Place → Value) :
    Reorder.runAll (host.action behaviour derive) staged state =
      Reorder.runAll (host.action behaviour derive) schedule state := by
  have ids : (staged.map (·.call.id)).Nodup := (ids_nodup host _ func).sublist (calls.map _)
  have block_silent : host.checkBlock (host.llvmToTopo walked) block (stages block) = [] :=
    List.map_eq_nil_iff.mp (List.flatMap_eq_nil_iff.mp silent block checked)
  refine Reorder.runAll_perm perm (ids.of_map _) (fun one other before dependent => ?_) state
  refine keeps one other before ?_
  by_contra together
  rw [not_or, not_not, not_lt] at together
  obtain ⟨same, several⟩ := together
  apply dependent
  have one_mem : one ∈ staged := before.subset List.mem_cons_self
  have other_mem : other ∈ staged := before.subset (List.mem_cons_of_mem _ List.mem_cons_self)
  have one_of := in_stage one one_mem
  have other_of := in_stage other other_mem
  rw [← same] at other_of
  obtain ⟨op, op_mem, -⟩ := List.any_eq_true.mp one_of
  have listed := mem_stages_of_stageOps op_mem
  have quiet := checkStage_eq_nil found ordinary block_silent (walks _ listed)
    (List.ne_nil_of_mem listed)
  have within : Reorder.Before
      ((host.findTopoCallsInFunction (host.llvmToTopo walked) func).filter
        (·.isOf (block.stageOps (stage one)))) one other := by
    have filtered := List.Sublist.filter (·.isOf (block.stageOps (stage one)))
      (List.Sublist.trans before calls)
    rwa [List.filter_cons_of_pos one_of, List.filter_cons_of_pos other_of, List.filter_nil]
      at filtered
  have differ : one.call.id ≠ other.call.id := by
    intro same_id
    have pair := List.Sublist.map (fun call : TopoCall => call.call.id) before
    have distinct := ids.sublist pair
    simp [same_id] at distinct
  have safe := (checkStage_eq_nil_iff several).mp quiet one other within
  exact independent_of_safe behaviour derive safe
    ⟨bodies one one_mem, bodies other other_mem⟩ differ
    (direct one one_mem other other_mem same) (direct other other_mem one one_mem same.symm)

end ParallelHost

/-- A function that adds its arguments to the variables that it names. -/
def adding (body : CalleeBody) : Behaviour Nat body where
  run args globals :=
    (fun global =>
      if global ∈ body.globals ∧ body.onlyReadsMemory = false then
        some (globals global + args.sum + 1)
      else none,
      args.sum + (body.globals.map globals).sum)
  frame args globals global outside := if_neg fun inside => outside inside.1
  reads args globals others same := by
    have sums : body.globals.map globals = body.globals.map others := List.map_congr_left same
    rw [sums]
    refine Prod.ext (funext fun global => ?_) rfl
    by_cases inside : global ∈ body.globals
    · simp only [same global inside]
    · simp only [inside, false_and, if_false]
  readOnly reads args globals global := by simp [reads]

/-- `load` and `scale` in the first stage, and `join` of their results in the second. -/
def joinBlock : FnBlock where
  qualifiedName := "demo::run".toList
  isPipeline := false
  calledFunctions := ["load".toList, "scale".toList, "join".toList]
  stages := [1, 1, 2]

def joinHost : ParallelHost where
  getName func := List.replicate func 'f'
  getName_injective := replicate_injective
  calls _ := [⟨some 1, none⟩, ⟨some 2, none⟩, ⟨some 3, none⟩]
  matched := (∅ : FunctionMap).insert "demo::run".toList 0
  irCalls _ := [⟨10, some 1, []⟩, ⟨11, some 2, [.derived 0 []]⟩,
    ⟨12, some 3, [.result 10, .derived 1 [11]]⟩]
  irCalls_callee _ := rfl
  distinct _ := by decide
  body
    | 1 => some ⟨[0], false⟩
    | 2 => some ⟨[1], false⟩
    | 3 => some ⟨[0, 1], false⟩
    | _ => none
  globalName id := List.replicate id 'g'

def joinWalk : List (Name × FunctionId) :=
  [("demo::load".toList, 1), ("demo::scale".toList, 2), ("demo::join".toList, 3)]

theorem parallel_stages_join :
    let load : TopoCall := ⟨⟨10, some 1, []⟩, 1, "demo::load".toList⟩
    let scale : TopoCall := ⟨⟨11, some 2, [.derived 0 []]⟩, 2, "demo::scale".toList⟩
    let join : TopoCall := ⟨⟨12, some 3, [.result 10, .derived 1 [11]]⟩, 3, "demo::join".toList⟩
    let action := joinHost.action adding fun value results => value + results.sum
    Reorder.runAll action [load, scale, join] (fun _ => 5) =
      Reorder.runAll action [scale, load, join] fun _ => 5 := by
  intro load scale join action
  let stage : TopoCall → Int := fun call => if call.callee = 3 then 2 else 1
  have found : joinHost.matched.lookup joinBlock.qualifiedName = some 0 := by decide
  have silent : checkStageParallelSafety joinHost joinWalk [joinBlock] (fun _ => [2, 1]) = [] := by
    decide
  have calls : joinHost.findTopoCallsInFunction (joinHost.llvmToTopo joinWalk) 0 =
      [load, scale, join] := by decide
  have in_stage : ∀ call ∈ [load, scale, join],
      call.isOf (joinBlock.stageOps (stage call)) = true := by decide
  have direct : ∀ one ∈ [load, scale, join], ∀ other ∈ [load, scale, join],
      stage one = stage other → ∀ operand ∈ other.call.operands,
        one.call.id ∈ operand.results → operand = .result one.call.id := by decide
  have keeps : ∀ pair ∈ pairs [load, scale, join],
      stage pair.1 ≠ stage pair.2 ∨ (joinBlock.stageOps (stage pair.1)).length < 2 →
        pair ∈ pairs [scale, load, join] := by decide
  refine ParallelHost.parallel_stages adding _ silent List.mem_cons_self (by decide) rfl found
    (calls ▸ List.Sublist.refl _) in_stage (by decide) ?_ (List.Perm.swap scale load [join]) ?_ _
  · intro one one_mem other other_mem same value results member named
    have result := direct one one_mem other other_mem same _ member named
    cases result
  · intro one other before apart
    exact mem_pairs.mp (keeps _ (mem_pairs.mpr before) apart)

end BodyVerifier
end Backend
end TopoLlvm
