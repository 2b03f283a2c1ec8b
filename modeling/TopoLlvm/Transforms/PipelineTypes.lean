import TopoLlvm.Transforms.PartialPipeline
import TopoLlvm.Transforms.PipelineFailure

/-!
# The types of generated bodies

Inner nodes get arguments of their parameters' types.  A source node gets the pipeline parameter at
the same position where none of the type is left, whatever the type of that parameter is.
-/

namespace TopoLlvm
namespace PipelineCodeGen

open TopoLlvm.Runtime (Name)

variable {Ty : Type} [DecidableEq Ty]

/-- Each parameter of a source node has a pipeline parameter of its type that no earlier one uses
up, or the one at its position has the type. -/
def PositionsFit (pipelineParams params : List (Param Ty)) : Prop :=
  ∀ index param, params[index]? = some param →
    (params.take index).countP (·.ty = param.ty) < pipelineParams.countP (·.ty = param.ty) ∨
      (pipelineParams[index]?).map (·.ty) = some param.ty

/-! ## Source nodes -/

section Sources

variable {pipelineParams : List (Param Ty)}

/-- The type of a pipeline parameter. -/
def argTy (pipelineParams : List (Param Ty)) (arg : Nat) : Option Ty :=
  (pipelineParams[arg]?).map (·.ty)

/-- The pipeline parameters of a type. -/
def argsOf (pipelineParams : List (Param Ty)) (ty : Ty) : List Nat :=
  (List.range pipelineParams.length).filter fun arg => argTy pipelineParams arg = some ty

theorem mem_argsOf {ty : Ty} {arg : Nat} :
    arg ∈ argsOf pipelineParams ty ↔ argTy pipelineParams arg = some ty := by
  rw [argsOf, List.mem_filter, List.mem_range, decide_eq_true_eq, and_iff_right_iff_imp]
  intro same
  obtain ⟨param, found, -⟩ := Option.map_eq_some_iff.mp same
  exact (List.getElem?_eq_some_iff.mp found).1

theorem length_argsOf (ty : Ty) :
    (argsOf pipelineParams ty).length = pipelineParams.countP (·.ty = ty) := by
  have entries : (List.range pipelineParams.length).map (pipelineParams[·]?) =
      pipelineParams.map some := by
    refine List.ext_getElem? fun index => ?_
    rcases Nat.lt_or_ge index pipelineParams.length with inside | outside
    · simp [inside]
    · simp [outside]
  have counts := congrArg (List.countP fun entry => entry.map Param.ty = some ty) entries
  rw [List.countP_map, List.countP_map] at counts
  rw [argsOf, ← List.countP_eq_length_filter]
  refine counts.trans ?_
  simp [Function.comp_def]

/-- The arguments found for some parameters have their types. -/
def Typed (pipelineParams seen : List (Param Ty)) (taken : List Nat) : Prop :=
  taken.map (argTy pipelineParams) = seen.map fun param => some param.ty

/-- The pipeline parameters of a type that are used. -/
def used (pipelineParams : List (Param Ty)) (ty : Ty) (taken : List Nat) : Nat :=
  (argsOf pipelineParams ty).countP (· ∈ taken)

/-- What the search has done for some parameters: while the types are right, it has used pipeline
parameters of each type until none was left. -/
structure Searched (pipelineParams seen : List (Param Ty)) (taken : List Nat) : Prop where
  typed : Typed pipelineParams seen taken ↔ PositionsFit pipelineParams seen
  counts : Typed pipelineParams seen taken → ∀ ty, used pipelineParams ty taken =
    min (seen.countP (·.ty = ty)) (pipelineParams.countP (·.ty = ty))

omit [DecidableEq Ty] in
theorem typed_concat {seen : List (Param Ty)} {taken : List Nat} {param : Param Ty} {arg : Nat} :
    Typed pipelineParams (seen ++ [param]) (taken ++ [arg]) ↔
      Typed pipelineParams seen taken ∧ argTy pipelineParams arg = some param.ty := by
  unfold Typed
  rw [List.map_append, List.map_append]
  constructor
  · intro same
    obtain ⟨front, last⟩ := List.append_inj' same rfl
    exact ⟨front, (List.cons.inj last).1⟩
  · rintro ⟨front, last⟩
    rw [front, List.map_singleton, List.map_singleton, last]

theorem positionsFit_concat {seen : List (Param Ty)} {param : Param Ty} :
    PositionsFit pipelineParams (seen ++ [param]) ↔ PositionsFit pipelineParams seen ∧
      (seen.countP (·.ty = param.ty) < pipelineParams.countP (·.ty = param.ty) ∨
        argTy pipelineParams seen.length = some param.ty) := by
  constructor
  · intro fits
    refine ⟨fun index other found => ?_, ?_⟩
    · have bound := (List.getElem?_eq_some_iff.mp found).1
      have there := fits index other (by rwa [List.getElem?_append_left bound])
      rwa [List.take_append_of_le_length bound.le] at there
    · have last := fits seen.length param (by simp)
      rwa [List.take_left] at last
  · rintro ⟨fits, last⟩ index other found
    rcases Nat.lt_trichotomy index seen.length with inside | rfl | outside
    · rw [List.getElem?_append_left inside] at found
      rw [List.take_append_of_le_length inside.le]
      exact fits index other found
    · rw [List.getElem?_concat_length] at found
      obtain rfl := Option.some.inj found
      rwa [List.take_left]
    · rw [List.getElem?_eq_none (by simp; omega)] at found
      cases found

theorem used_concat_new {ty : Ty} {taken : List Nat} {arg : Nat} (unused : arg ∉ taken) :
    used pipelineParams ty (taken ++ [arg]) =
      used pipelineParams ty taken + if argTy pipelineParams arg = some ty then 1 else 0 := by
  have disjoint (args : List Nat) : args.countP (· ∈ taken ++ [arg]) =
      args.countP (· ∈ taken) + args.count arg := by
    induction args with
    | nil => rfl
    | cons other args ih =>
        rw [List.countP_cons, List.countP_cons, List.count_cons, ih]
        by_cases here : other = arg
        · subst here
          simp [unused]
          omega
        · simp [here]
          omega
  have distinct : (argsOf pipelineParams ty).Nodup := List.nodup_range.filter _
  rw [used, disjoint, distinct.count, used]
  simp only [mem_argsOf]

theorem used_concat_old {ty : Ty} {taken : List Nat} {arg : Nat}
    (old : argTy pipelineParams arg = some ty → arg ∈ taken) :
    used pipelineParams ty (taken ++ [arg]) = used pipelineParams ty taken := by
  refine List.countP_congr fun other member => ?_
  simp only [List.mem_append, List.mem_singleton, decide_eq_true_eq, or_iff_left_iff_imp]
  rintro rfl
  exact old (mem_argsOf.mp member)

/-- One parameter is searched for. -/
theorem Searched.step {seen : List (Param Ty)} {taken next : List Nat}
    (searched : Searched pipelineParams seen taken) {param : Param Ty}
    (found : (match (List.range pipelineParams.length).find? fun arg =>
        (pipelineParams[arg]?).map (·.ty) = some param.ty ∧ arg ∉ taken with
      | some arg => some (taken ++ [arg])
      | none => if seen.length < pipelineParams.length then some (taken ++ [seen.length])
          else none) = some next) :
    Searched pipelineParams (seen ++ [param]) next := by
  split at found
  · rename_i arg first
    cases found
    obtain ⟨here, unused⟩ : argTy pipelineParams arg = some param.ty ∧ arg ∉ taken :=
      of_decide_eq_true (List.find?_some first :)
    -- An unused parameter of the type: fewer have been asked for than there are.
    have left (typed : Typed pipelineParams seen taken) :
        seen.countP (·.ty = param.ty) < pipelineParams.countP (·.ty = param.ty) := by
      have counts := searched.counts typed param.ty
      have some : used pipelineParams param.ty taken < (argsOf pipelineParams param.ty).length := by
        refine List.countP_le_length.lt_of_ne fun every => unused ?_
        simpa using List.countP_eq_length.mp every arg (mem_argsOf.mpr here)
      rw [length_argsOf] at some
      omega
    refine ⟨?_, fun typed ty => ?_⟩
    · rw [typed_concat, positionsFit_concat, ← searched.typed]
      exact ⟨fun ⟨typed, _⟩ => ⟨typed, .inl (left typed)⟩, fun ⟨typed, _⟩ => ⟨typed, here⟩⟩
    · have typed := (typed_concat.mp typed).1
      rw [used_concat_new unused, searched.counts typed ty, List.countP_append, here]
      have fewer := left typed
      by_cases same : param.ty = ty
      · subst same
        simp
        omega
      · simp [same]
  · rename_i none
    obtain ⟨-, same⟩ := Option.ite_none_right_eq_some.mp found
    cases same
    have all (arg : Nat) (here : argTy pipelineParams arg = some param.ty) : arg ∈ taken := by
      obtain ⟨other, entry, type⟩ := Option.map_eq_some_iff.mp here
      by_contra unused
      have skipped := List.find?_eq_none.mp none arg
        (List.mem_range.mpr (List.getElem?_eq_some_iff.mp entry).1)
      exact skipped (decide_eq_true ⟨here, unused⟩)
    have usedUp : used pipelineParams param.ty taken = pipelineParams.countP (·.ty = param.ty) := by
      rw [← length_argsOf]
      exact List.countP_eq_length.mpr fun arg member => by simpa using all arg (mem_argsOf.mp member)
    refine ⟨?_, fun typed ty => ?_⟩
    · rw [typed_concat, positionsFit_concat, ← searched.typed]
      refine and_congr_right fun typed => (or_iff_right ?_).symm
      have counts := searched.counts typed param.ty
      omega
    · obtain ⟨typed, here⟩ := typed_concat.mp typed
      have counts := searched.counts typed ty
      rw [used_concat_old, counts, List.countP_append]
      · by_cases same : param.ty = ty
        · subst same
          simp
          omega
        · simp [same]
      · intro other
        exact all _ here

/-- The arguments of a source node have its parameters' types exactly where the positions fit. -/
theorem typed_matchSourceNodeArgs_iff {params : List (Param Ty)} {indices : List Nat}
    (matched : matchSourceNodeArgs pipelineParams params = some indices) :
    Typed pipelineParams params indices ↔ PositionsFit pipelineParams params := by
  unfold matchSourceNodeArgs at matched
  have start : Searched pipelineParams [] [] :=
    ⟨iff_of_true rfl nofun, fun _ ty => by simp [used]⟩
  have go {seen rest : List (Param Ty)} {taken : List Nat}
      (searched : Searched pipelineParams seen taken)
      (folded : (rest.zipIdx seen.length).foldlM (fun args (entry : Param Ty × Nat) =>
        (match (List.range pipelineParams.length).find? fun arg =>
            (pipelineParams[arg]?).map (·.ty) = some entry.1.ty ∧ arg ∉ args with
          | some arg => some (args ++ [arg])
          | none => if entry.2 < pipelineParams.length then some (args ++ [entry.2])
              else none)) taken = some indices) :
      Searched pipelineParams (seen ++ rest) indices := by
    induction rest generalizing seen taken with
    | nil =>
        cases folded
        simpa using searched
    | cons param rest ih =>
        rw [List.zipIdx_cons, List.foldlM_cons] at folded
        obtain ⟨next, first, later⟩ := Option.bind_eq_some_iff.mp folded
        have further := ih (searched.step first) (by simpa using later)
        rwa [List.append_assoc, List.singleton_append] at further
  exact (go start matched).typed

end Sources

/-! ## Bodies -/

namespace Pipeline

variable (types : TypeSystem Ty) (utilities : Utilities) (mapping : Mapping Ty)
  (pipeline : Pipeline) (pointer : Ty) (pipelineParams : List (Param Ty))

/-- The type of an operand; slots are pointers. -/
def operandTy : Operand → Option Ty
  | .arg index => argTy pipelineParams index
  | .output node => pipeline.outputTyOf utilities mapping node
  | .field node index =>
      ((pipeline.outputTyOf utilities mapping node).bind types.elements).bind (·[index]?)
  | .slot => some pointer

/-- A call passes the number of parameters of its callee, with their types. -/
def CallTyped (call : Name × List Operand) : Prop :=
  ∃ callee, pipeline.resolveFunction utilities mapping call.1 = some callee ∧
    call.2.map (pipeline.operandTy types utilities mapping pointer pipelineParams) =
      callee.params.map fun param => some param.ty

/-- The return has the type of the pipeline's function. -/
def ReturnTyped (returnTy : Ty) : Returned → Prop
  | .void => types.isVoid returnTy = true
  | .value operand =>
      pipeline.operandTy types utilities mapping pointer pipelineParams operand = some returnTy

/-- A generated body passes and returns values of the right types. -/
structure WellTyped (func : ModuleFunction Ty) (generated : Generated) : Prop where
  calls : ∀ call ∈ generated.calls,
    pipeline.CallTyped types utilities mapping pointer func.params call
  returned : pipeline.ReturnTyped types utilities mapping pointer func.params func.returnTy
    generated.returned

variable {types utilities mapping pipeline pointer pipelineParams} {generated : List Name}
  {node : Name}

omit [DecidableEq Ty] in
/-- Outputs are offered with their types. -/
theorem operandTy_of_mem_supply {value : Ty × Operand}
    (member : value ∈ pipeline.supply types utilities mapping generated node) :
    pipeline.operandTy types utilities mapping pointer pipelineParams value.2 = some value.1 := by
  obtain ⟨up, -, offered⟩ := List.mem_flatMap.mp member
  split at offered
  · cases known : pipeline.outputTyOf utilities mapping up with
    | none =>
        rw [known] at offered
        cases offered
    | some ty =>
        rw [known] at offered
        simp only [outputValues] at offered
        cases fields : types.elements ty with
        | none =>
            rw [fields] at offered
            obtain rfl := List.mem_singleton.mp offered
            exact known
        | some elements =>
            rw [fields] at offered
            obtain ⟨⟨element, index⟩, inside, rfl⟩ := List.mem_map.mp offered
            simp only [operandTy, known, Option.bind_some, fields]
            exact List.mem_zipIdx_iff_getElem?.mp inside
  · cases offered

/-- The arguments of an inner node have its parameters' types. -/
theorem operandTy_matchArgs {params : List (Param Ty)} {available : List (Ty × Operand)}
    (slots : ∀ param ∈ params, param.structRet.isSome → param.ty = pointer)
    (offered : ∀ value ∈ available,
      pipeline.operandTy types utilities mapping pointer pipelineParams value.2 = some value.1)
    {args : List Operand} (matched : matchArgs pipelineParams params available = some args) :
    args.map (pipeline.operandTy types utilities mapping pointer pipelineParams) =
      params.map fun param => some param.ty := by
  induction params generalizing available args with
  | nil =>
      cases matched
      rfl
  | cons param params ih =>
      obtain ⟨here, later⟩ := List.forall_mem_cons.mp slots
      by_cases slot : param.structRet.isSome = true
      · rw [matchArgs_slot slot] at matched
        obtain ⟨rest, deeper, rfl⟩ := Option.map_eq_some_iff.mp matched
        rw [List.map_cons, List.map_cons, ih later offered deeper, here slot]
        rfl
      · cases takes : takeUnused param.ty available with
        | some value =>
            obtain ⟨value, left⟩ := value
            rw [matchArgs_taken slot takes] at matched
            obtain ⟨rest, deeper, rfl⟩ := Option.map_eq_some_iff.mp matched
            obtain ⟨inside, others⟩ := mem_of_takeUnused takes
            rw [List.map_cons, List.map_cons,
              ih later (fun other member => offered other (others member)) deeper,
              offered _ inside]
        | none =>
            rw [matchArgs_fallback slot takes] at matched
            obtain ⟨index, first, matched⟩ := Option.bind_eq_some_iff.mp matched
            obtain ⟨rest, deeper, rfl⟩ := Option.map_eq_some_iff.mp matched
            obtain ⟨bound, type, -⟩ := List.findIdx?_eq_some_iff_getElem.mp first
            have found : pipeline.operandTy types utilities mapping pointer pipelineParams
                (.arg index) = some param.ty := by
              rw [operandTy, argTy, List.getElem?_eq_getElem bound, Option.map_some,
                of_decide_eq_true type]
            rw [List.map_cons, List.map_cons, ih later offered deeper, found]

/-- The arguments of a call have its parameters' types, of a source node where the positions
fit. -/
theorem operandTy_arguments_iff {callee : ModuleFunction Ty}
    (slots : ∀ param ∈ callee.params, param.structRet.isSome → param.ty = pointer)
    {args : List Operand}
    (found : pipeline.arguments types utilities mapping pipelineParams generated node callee =
      some args) :
    args.map (pipeline.operandTy types utilities mapping pointer pipelineParams) =
        callee.params.map (fun param => some param.ty) ↔
      (node ∈ pipeline.sourceNodes → PositionsFit pipelineParams callee.params) := by
  have source := utilities.isSourceNode_iff node pipeline.sourceNodes
  unfold arguments at found
  split at found
  · rename_i isSource
    obtain ⟨indices, matched, rfl⟩ := Option.map_eq_some_iff.mp found
    rw [imp_iff_right (source.mp isSource), ← typed_matchSourceNodeArgs_iff matched, Typed,
      List.map_map]
    rfl
  · rename_i inner
    have typed := operandTy_matchArgs slots (fun value member => operandTy_of_mem_supply member)
      found
    exact iff_of_true typed fun member => absurd (source.mpr member) inner

/-- The return is always of the right type. -/
theorem returnTyped {returnTy : Ty} {terminalTy : Option Ty} {returned : Returned}
    (known : ∀ ty, terminalTy = some ty →
      pipeline.outputTyOf utilities mapping pipeline.terminalNode = some ty)
    (returns : pipeline.generateReturn types returnTy terminalTy = some returned) :
    pipeline.ReturnTyped types utilities mapping pointer pipelineParams returnTy returned := by
  unfold generateReturn at returns
  split at returns
  · rename_i void
    cases returns
    exact void
  · split at returns
    · cases returns
    · rename_i ty
      have output := known ty rfl
      split at returns
      · rename_i same
        cases returns
        exact output.trans (congrArg some same)
      · split at returns
        · cases returns
        · rename_i elements fields
          obtain ⟨index, first, rfl⟩ := Option.map_eq_some_iff.mp returns
          obtain ⟨bound, type, -⟩ := List.findIdx?_eq_some_iff_getElem.mp first
          simp only [ReturnTyped, operandTy, output, Option.bind_some, fields,
            List.getElem?_eq_getElem bound]
          rw [of_decide_eq_true type]

/-- The calls of nodes are the arguments found for each. -/
theorem mem_callsFrom_iff {nodes : List Name} {calls : List (Name × List Operand)}
    (found : pipeline.callsFrom types utilities mapping pipelineParams generated nodes =
      some calls) {call : Name × List Operand} :
    call ∈ calls ↔ ∃ before after callee, nodes = before ++ call.1 :: after ∧
      pipeline.resolveFunction utilities mapping call.1 = some callee ∧
      pipeline.arguments types utilities mapping pipelineParams (generated ++ before) call.1
        callee = some call.2 := by
  induction nodes generalizing generated calls with
  | nil =>
      cases found
      simp
  | cons first nodes ih =>
      cases resolved : pipeline.resolveFunction utilities mapping first with
      | none =>
          rw [callsFrom_cons_of_unknown resolved] at found
          rw [ih found]
          constructor
          · rintro ⟨before, after, callee, rfl, known, args⟩
            exact ⟨first :: before, after, callee, rfl, known, by simpa using args⟩
          · rintro ⟨before, after, callee, split, known, args⟩
            rcases List.cons_eq_append_iff.mp split with ⟨rfl, here⟩ | ⟨before, rfl, inside⟩
            · obtain ⟨rfl, -⟩ := List.cons.inj here
              cases resolved.symm.trans known
            · exact ⟨before, after, callee, inside, known, by simpa using args⟩
      | some firstCallee =>
          obtain ⟨args, later, here, rest, rfl⟩ := (callsFrom_cons_of_resolved resolved).mp found
          rw [List.mem_cons, ih rest]
          constructor
          · rintro (rfl | ⟨before, after, callee, rfl, known, args⟩)
            · exact ⟨[], nodes, firstCallee, rfl, resolved, by simpa using here⟩
            · exact ⟨first :: before, after, callee, rfl, known, by simpa using args⟩
          · rintro ⟨before, after, callee, split, known, found⟩
            rcases List.cons_eq_append_iff.mp split with ⟨rfl, same⟩ | ⟨before, rfl, inside⟩
            · obtain ⟨rfl, -⟩ := List.cons.inj same
              obtain rfl := Option.some.inj (resolved.symm.trans known)
              rw [List.append_nil, here] at found
              exact .inl (Prod.ext rfl (Option.some.inj found).symm)
            · exact .inr ⟨before, after, callee, inside, known, by simpa using found⟩

/-- **Types of generated bodies.** A generated body is well typed exactly where every parameter of a
staged source node has a pipeline parameter of its type left, or one at its position. -/
theorem wellTyped_iff (types : TypeSystem Ty) (utilities : Utilities) (mapping : Mapping Ty)
    (pipeline : Pipeline) (pointer : Ty)
    (slots : ∀ node callee, pipeline.resolveFunction utilities mapping node = some callee →
      ∀ param ∈ callee.params, param.structRet.isSome → param.ty = pointer)
    (func : ModuleFunction Ty) {generated : Generated}
    (succeeds : pipeline.generatePipelineBody types utilities mapping func = some generated) :
    pipeline.WellTyped types utilities mapping pointer func generated ↔
      ∀ node ∈ pipeline.stages.map (·.1), node ∈ pipeline.sourceNodes → ∀ callee,
        pipeline.resolveFunction utilities mapping node = some callee →
          PositionsFit func.params callee.params := by
  rw [generatePipelineBody_eq] at succeeds
  obtain ⟨calls, found, succeeds⟩ := Option.bind_eq_some_iff.mp succeeds
  obtain ⟨returned, returns, rfl⟩ := Option.map_eq_some_iff.mp succeeds
  have terminal (ty : Ty) (known : (if pipeline.terminalNode ∈ pipeline.order then
      pipeline.outputTyOf utilities mapping pipeline.terminalNode else none) = some ty) :
      pipeline.outputTyOf utilities mapping pipeline.terminalNode = some ty :=
    (Option.ite_none_right_eq_some.mp known).2
  constructor
  · intro typed node staged source callee resolved
    have inside := (groupNodesByStage_perm pipeline.stages).mem_iff.mpr staged
    obtain ⟨before, after, split⟩ := List.append_of_mem inside
    have some := callsFrom_isSome_iff.mp (Option.isSome_iff_exists.mpr ⟨calls, found⟩) before node
      after callee split resolved
    obtain ⟨args, arguments⟩ := Option.isSome_iff_exists.mp some
    have called : (node, args) ∈ calls :=
      (mem_callsFrom_iff found).mpr ⟨before, after, callee, split, resolved, arguments⟩
    obtain ⟨other, known, same⟩ := typed.calls _ called
    obtain rfl := Option.some.inj (resolved.symm.trans known)
    exact (operandTy_arguments_iff (slots node callee resolved) arguments).mp same source
  · intro fit
    refine ⟨fun call member => ?_, returnTyped terminal returns⟩
    obtain ⟨before, after, callee, split, resolved, arguments⟩ := (mem_callsFrom_iff found).mp member
    refine ⟨callee, resolved,
      (operandTy_arguments_iff (slots _ callee resolved) arguments).mpr fun source => ?_⟩
    have staged := (groupNodesByStage_perm pipeline.stages).mem_iff.mp
      (split ▸ List.mem_append_right before List.mem_cons_self)
    exact fit call.1 staged source callee resolved

end Pipeline

theorem nodup_load : ([("load".toList, (1 : Int))].map (·.1)).Nodup := by decide

/-- One source node, which is the terminal node. -/
def sourceOnly : Pipeline where
  qualifiedName := "app::run".toList
  calledFunctions := ["app::load".toList]
  edges := []
  stages := [("load".toList, 1)]
  sourceNodes := ["load".toList]
  terminalNode := "load".toList
  distinct := nodup_load

/-- The callee of the one node. -/
def loadMapping (callee : ModuleFunction Nat) : Mapping Nat := fun name =>
  if name = "app::load".toList then some callee else none

theorem loadMapping_eq {callee found : ModuleFunction Nat} {node : Name}
    (resolved : sourceOnly.resolveFunction Utilities.onLists (loadMapping callee) node =
      some found) : found = callee := by
  unfold Pipeline.resolveFunction loadMapping at resolved
  exact (Option.some.inj (Option.ite_none_right_eq_some.mp resolved).2).symm

/-- `int run(int)` with the source `int load(int)`. -/
theorem wellTyped_integer :
    sourceOnly.WellTyped scalarTypes Utilities.onLists (loadMapping ⟨[⟨1, none⟩], 1, false, false⟩)
      3 ⟨[⟨1, none⟩], 1, false, true⟩
      { calls := [("load".toList, [.arg 0])], returned := .value (.output "load".toList) } := by
  refine (sourceOnly.wellTyped_iff scalarTypes Utilities.onLists
    (loadMapping ⟨[⟨1, none⟩], 1, false, false⟩) 3 (fun node callee resolved => ?_)
    ⟨[⟨1, none⟩], 1, false, true⟩ (by decide)).mpr fun node _ _ callee resolved => ?_
  · rw [loadMapping_eq resolved]
    decide
  · rw [loadMapping_eq resolved]
    intro index param found
    match index, found with
    | 0, found =>
        cases found
        exact .inl (by decide)

/-- `void run(int, int)` with the source `void load(ptr sret, int)`: the first integer is passed as
the pointer. -/
theorem integer_passed_as_pointer :
    let load : ModuleFunction Nat := ⟨[⟨3, some 5⟩, ⟨1, none⟩], 0, false, false⟩
    let run : ModuleFunction Nat := ⟨[⟨1, none⟩, ⟨1, none⟩], 0, false, true⟩
    let generated : Generated :=
      { calls := [("load".toList, [.arg 0, .arg 1])], returned := .void }
    sourceOnly.generatePipelineBody scalarTypes Utilities.onLists (loadMapping load) run =
        some generated ∧
      (∀ param ∈ load.params, param.structRet.isSome → param.ty = 3) ∧
      ¬ sourceOnly.WellTyped scalarTypes Utilities.onLists (loadMapping load) 3 run generated := by
  intro load run generated
  refine ⟨by decide, by decide, fun typed => ?_⟩
  obtain ⟨callee, resolved, same⟩ := typed.calls _ (List.mem_singleton_self _)
  rw [loadMapping_eq resolved] at same
  revert same
  decide

end PipelineCodeGen
end TopoLlvm
