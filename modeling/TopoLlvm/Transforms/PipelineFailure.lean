import TopoLlvm.Transforms.PipelineEmission

/-!
# Failed bodies

A body that cannot be completed has no terminator, and the one that it replaces is gone.  The
generator succeeds exactly on pipelines whose calls and return fit, and then emits the calls of the
generated body in order.
-/

namespace TopoLlvm
namespace PipelineCodeGen

open TopoLlvm.Runtime (Name)

variable {Ty Fn : Type} [DecidableEq Ty] {types : TypeSystem Ty}
  {utilities : Utilities} {demangle : Name → Name} {matched : Name → Option Fn}
  {module : Module Ty Fn}

/-! ## Emitted instructions -/

/-- Arguments are found as without the emission. -/
@[simp]
theorem result_emitArgs (pipelineParams params : List (Param Ty))
    (available : List (Ty × Operand)) :
    (emitArgs pipelineParams params available : Emission (Inst Ty Fn) (List Operand)).result =
      matchArgs pipelineParams params available := by
  induction params generalizing available with
  | nil => rfl
  | cons param params ih =>
      rw [emitArgs]
      cases slot : param.structRet with
      | some structRet =>
          rw [matchArgs_slot (by simp [slot]), Option.map_eq_bind]
          simp only [Emission.result_bind, Emission.result_emit, Option.bind_some, ih,
            Emission.result_pure]
          rfl
      | none =>
          have value : ¬ param.structRet.isSome = true := by simp [slot]
          simp only
          cases takes : takeUnused param.ty available with
          | some taking =>
              obtain ⟨taken, left⟩ := taking
              rw [matchArgs_taken value takes, Option.map_eq_bind]
              simp only [Emission.result_bind, ih, Emission.result_pure]
              rfl
          | none =>
              rw [matchArgs_fallback value takes]
              simp only [Emission.result_bind, Emission.result_ofOption, ih, Emission.result_pure,
                Option.map_eq_bind]
              rfl

/-- An instruction that is neither a terminator nor the call of a node. -/
def Inst.IsPlain (inst : Inst Ty Fn) : Prop := inst.isTerminator = false ∧ inst.nodeCall? = none

omit [DecidableEq Ty] in
theorem any_getLast?_of_forall {insts : List (Inst Ty Fn)}
    (silent : ∀ inst ∈ insts, inst.isTerminator = false) :
    insts.getLast?.any Inst.isTerminator = false := by
  cases last : insts.getLast? with
  | none => rfl
  | some inst => exact silent inst (List.mem_of_getLast? last)

omit [DecidableEq Ty] in
theorem filterMap_nodeCall?_of_plain {insts : List (Inst Ty Fn)}
    (plain : ∀ inst ∈ insts, inst.IsPlain) : insts.filterMap Inst.nodeCall? = [] :=
  List.filterMap_eq_nil_iff.mpr fun inst member => (plain inst member).2

theorem plain_emitArgs (pipelineParams params : List (Param Ty))
    (available : List (Ty × Operand)) :
    (emitArgs pipelineParams params available : Emission (Inst Ty Fn) (List Operand)).Only
      Inst.IsPlain := by
  induction params generalizing available with
  | nil => exact Emission.only_pure _
  | cons param params ih =>
      have go (available : List (Ty × Operand)) (operand : Operand) :
          (emitArgs pipelineParams params available >>= fun args =>
            pure (operand :: args) : Emission (Inst Ty Fn) (List Operand)).Only Inst.IsPlain :=
        (ih available).bind fun _ _ => Emission.only_pure _
      rw [emitArgs]
      split
      · exact (Emission.only_emit ⟨rfl, rfl⟩).bind fun _ _ => go _ _
      · split
        · exact go _ _
        · exact (Emission.only_ofOption _).bind fun _ _ => go _ _

namespace Pipeline

variable {pipeline : Pipeline}

omit [DecidableEq Ty] in
theorem plain_emitAvailable (nodeOutputs : List (Name × Ty)) (node : Name) :
    (pipeline.emitAvailable types utilities nodeOutputs node :
      Emission (Inst Ty Fn) (List (Ty × Operand))).Only Inst.IsPlain := by
  intro inst member
  obtain ⟨value, -, extracts⟩ := List.mem_filterMap.mp member
  split at extracts <;> cases extracts
  exact ⟨rfl, rfl⟩

omit [DecidableEq Ty] in
/-- The function that the generator looks up is the callee of the model without emission. -/
theorem resolveFunction_mappingOf (node : Name) :
    pipeline.resolveFunction utilities (mappingOf demangle matched module) node =
      (pipeline.nodeCallee utilities matched node).map (describe demangle module) := rfl

variable (Fn types utilities pipeline) in
/-- The arguments as they are found without emission. -/
theorem result_emitNodeArgs (params : List (Param Ty)) (nodeOutputs : List (Name × Ty))
    (node : Name) (callee : ModuleFunction Ty) :
    (pipeline.emitNodeArgs types utilities params nodeOutputs node callee :
        Emission (Inst Ty Fn) (List Operand)).result =
      if pipeline.isSource utilities node then
        (matchSourceNodeArgs params callee.params).map (·.map .arg)
      else matchArgs params callee.params
        (pipeline.availableValues types utilities nodeOutputs node) := by
  unfold emitNodeArgs
  split
  · rfl
  · rw [Emission.result_bind]
    exact result_emitArgs _ _ _

theorem plain_emitNodeArgs (params : List (Param Ty)) (nodeOutputs : List (Name × Ty))
    (node : Name) (callee : ModuleFunction Ty) :
    (pipeline.emitNodeArgs types utilities params nodeOutputs node callee :
      Emission (Inst Ty Fn) (List Operand)).Only Inst.IsPlain := by
  unfold emitNodeArgs
  split
  · exact Emission.only_ofOption _
  · exact (plain_emitAvailable nodeOutputs node).bind fun _ _ => plain_emitArgs _ _ _

omit [DecidableEq Ty] in
variable (Fn) in
theorem emitLoad_spec (callee : ModuleFunction Ty) (args : List Operand) :
    (emitLoad callee args : Emission (Inst Ty Fn) PUnit).result = some ⟨⟩ ∧
      (emitLoad callee args : Emission (Inst Ty Fn) PUnit).Only Inst.IsPlain := by
  unfold emitLoad
  split
  · exact ⟨rfl, Emission.only_emit ⟨rfl, rfl⟩⟩
  · exact ⟨rfl, Emission.only_pure _⟩

variable (types utilities demangle matched module pipeline) in
/-- The emission for a node records the output of the node's call and emits the one call. -/
theorem emitNode_spec (params : List (Param Ty)) (body : Body Ty) (node : Name) :
    match pipeline.generateNode types utilities (mappingOf demangle matched module) params body
      node with
    | none => (pipeline.emitNode types utilities demangle matched module params body.nodeOutputs
        node).result = none
    | some next =>
        (pipeline.emitNode types utilities demangle matched module params body.nodeOutputs
          node).result = some next.nodeOutputs ∧
        next.calls = body.calls ++ (pipeline.emitNode types utilities demangle matched module params
          body.nodeOutputs node).emitted.filterMap Inst.nodeCall? := by
  rw [generateNode, resolveFunction_mappingOf]
  unfold emitNode
  cases pipeline.nodeCallee utilities matched node with
  | none => exact ⟨rfl, by simp⟩
  | some fn =>
      have same := result_emitNodeArgs Fn types utilities pipeline params body.nodeOutputs node
        (describe demangle module fn)
      simp only [Option.map_some, ← same]
      cases found : (pipeline.emitNodeArgs types utilities params body.nodeOutputs node
          (describe demangle module fn) : Emission (Inst Ty Fn) (List Operand)).result with
      | none => simp [found]
      | some args =>
          obtain ⟨loads, plain⟩ := emitLoad_spec Fn (describe demangle module fn) args
          refine ⟨by simp [found, loads], ?_⟩
          rw [Emission.emitted_bind_of_some found, Emission.emitted_emit_bind,
            Emission.emitted_bind_of_some loads, List.filterMap_append,
            filterMap_nodeCall?_of_plain (plain_emitNodeArgs _ _ _ _), Emission.emitted_pure,
            List.append_nil,
            List.filterMap_cons_some (show (Inst.call node fn args).nodeCall? = some (node, args)
              from rfl), filterMap_nodeCall?_of_plain plain]
          rfl

variable (types utilities demangle matched module pipeline) in
/-- The emission for nodes records their outputs and emits their calls in order. -/
theorem foldlM_emitNode_spec (params : List (Param Ty)) (nodes : List Name) (body : Body Ty) :
    match nodes.foldlM (pipeline.generateNode types utilities
        (mappingOf demangle matched module) params) body with
    | none => (nodes.foldlM (pipeline.emitNode types utilities demangle matched module params)
        body.nodeOutputs).result = none
    | some last =>
        (nodes.foldlM (pipeline.emitNode types utilities demangle matched module params)
          body.nodeOutputs).result = some last.nodeOutputs ∧
        last.calls = body.calls ++ (nodes.foldlM (pipeline.emitNode types utilities demangle
          matched module params) body.nodeOutputs).emitted.filterMap Inst.nodeCall? := by
  induction nodes generalizing body with
  | nil => exact ⟨rfl, by simp⟩
  | cons node nodes ih =>
      have first := emitNode_spec types utilities demangle matched module pipeline params body node
      rw [List.foldlM_cons, List.foldlM_cons]
      split at first
      · rename_i missing
        simp [missing, first]
      · rename_i next found
        obtain ⟨result, calls⟩ := first
        have rest := ih next
        simp only [found, Option.bind_eq_bind, Option.bind_some, Emission.result_bind, result]
        split at rest
        · exact rest
        · refine ⟨rest.1, ?_⟩
          rw [rest.2, calls, Emission.emitted_bind_of_some result, List.filterMap_append,
            List.append_assoc]

theorem silent_emitNode (params : List (Param Ty)) (nodeOutputs : List (Name × Ty))
    (node : Name) :
    (pipeline.emitNode types utilities demangle matched module params nodeOutputs node).Only
      (·.isTerminator = false) := by
  unfold emitNode
  split
  · exact Emission.only_pure _
  · rename_i fn _
    have args : (pipeline.emitNodeArgs types utilities params nodeOutputs node
        (describe demangle module fn) : Emission (Inst Ty Fn) (List Operand)).Only
          (·.isTerminator = false) :=
      fun inst member => (plain_emitNodeArgs _ _ _ _ inst member).1
    refine args.bind fun found _ => Emission.Only.bind (Emission.only_emit rfl) fun _ _ => ?_
    have loads : (emitLoad (describe demangle module fn) found : Emission (Inst Ty Fn) PUnit).Only
        (·.isTerminator = false) := fun inst member => ((emitLoad_spec Fn _ _).2 inst member).1
    exact loads.bind fun _ _ => Emission.only_pure _

variable (Fn types pipeline) in
theorem emitReturn_eq (returnTy : Ty) (terminalTy : Option Ty) :
    match pipeline.generateReturn types returnTy terminalTy with
    | none => (pipeline.emitReturn types returnTy terminalTy :
        Emission (Inst Ty Fn) Returned) = ⟨[], none⟩
    | some returned => ∃ extracted : List (Inst Ty Fn), (∀ inst ∈ extracted, inst.IsPlain) ∧
        pipeline.emitReturn types returnTy terminalTy =
          ⟨extracted ++ [.ret returned], some returned⟩ := by
  unfold emitReturn
  cases pipeline.generateReturn types returnTy terminalTy with
  | none => rfl
  | some returned =>
      cases returned with
      | void => exact ⟨[], nofun, rfl⟩
      | value operand =>
          cases operand with
          | field node index =>
              exact ⟨[.extractValue node index], List.forall_mem_singleton.mpr ⟨rfl, rfl⟩, rfl⟩
          | arg | output | slot => exact ⟨[], nofun, rfl⟩

variable (types utilities demangle matched module pipeline) in
/-- The emitted entry block has the calls of the generated body and ends with its return. -/
theorem emitBody_spec (func : Function Ty Fn) (described : ModuleFunction Ty)
    (params : described.params = func.params) (returnTy : described.returnTy = func.returnTy) :
    match pipeline.generatePipelineBody types utilities (mappingOf demangle matched module)
      described with
    | none => (pipeline.emitBody types utilities demangle matched module func).result = none
    | some generated =>
        (pipeline.emitBody types utilities demangle matched module func).result =
          some generated.returned ∧
        generated.calls = (pipeline.emitBody types utilities demangle matched module
          func).emitted.filterMap Inst.nodeCall? ∧
        (pipeline.emitBody types utilities demangle matched module func).emitted.getLast? =
          some (.ret generated.returned) := by
  have nodes := foldlM_emitNode_spec types utilities demangle matched module pipeline func.params
    pipeline.order { calls := [], nodeOutputs := [] }
  unfold generatePipelineBody emitBody
  rw [params, returnTy]
  split at nodes
  · rename_i missing
    simp [missing, nodes]
  · rename_i last found
    obtain ⟨result, calls⟩ := nodes
    have returns := emitReturn_eq Fn types pipeline func.returnTy
      (last.nodeOutputs.lookup pipeline.terminalNode)
    simp only [found, Option.bind_some, Emission.result_bind, result,
      Emission.emitted_bind_of_some result]
    split at returns
    · rename_i missing
      simp [missing, returns]
    · rename_i returned value
      obtain ⟨extracted, plain, emits⟩ := returns
      rw [value, emits]
      refine ⟨rfl, ?_, ?_⟩
      · rw [List.filterMap_append, List.filterMap_append, filterMap_nodeCall?_of_plain plain]
        simpa [Inst.nodeCall?, List.filterMap_cons] using calls
      · rw [← List.append_assoc, List.getLast?_append]
        rfl

variable (types utilities demangle matched module pipeline) in
/-- The entry block ends with a terminator exactly where the generator succeeds. -/
theorem terminated_emitBody (func : Function Ty Fn) :
    (pipeline.emitBody types utilities demangle matched module func).emitted.getLast?.any
        Inst.isTerminator =
      (pipeline.emitBody types utilities demangle matched module func).result.isSome := by
  have nodes : (pipeline.order.foldlM
      (pipeline.emitNode types utilities demangle matched module func.params) []).Only
        (·.isTerminator = false) :=
    Emission.only_foldlM (fun _ _ => silent_emitNode _ _ _) _ _
  unfold emitBody
  cases result : (pipeline.order.foldlM
      (pipeline.emitNode types utilities demangle matched module func.params) []).result with
  | none =>
      rw [Emission.emitted_bind_of_none result, Emission.result_bind, result]
      exact any_getLast?_of_forall nodes
  | some nodeOutputs =>
      rw [Emission.emitted_bind_of_some result, Emission.result_bind, result, Option.bind_some]
      have returns := emitReturn_eq Fn types pipeline func.returnTy
        (nodeOutputs.lookup pipeline.terminalNode)
      split at returns
      · rw [returns, List.append_nil]
        exact any_getLast?_of_forall nodes
      · obtain ⟨extracted, -, emits⟩ := returns
        rw [emits, ← List.append_assoc, List.getLast?_append]
        rfl

/-! ## Pipelines that fit -/

section Fits

variable {mapping : Mapping Ty}

variable (types pipeline) in
theorem isSome_generateReturn_iff (returnTy : Ty) (terminalTy : Option Ty) :
    (pipeline.generateReturn types returnTy terminalTy).isSome ↔
      (types.isVoid returnTy = false → ∃ ty, terminalTy = some ty ∧
        (ty = returnTy ∨ ∃ elements, types.elements ty = some elements ∧
          returnTy ∈ elements)) := by
  unfold generateReturn
  cases void : types.isVoid returnTy with
  | true => simp
  | false =>
      cases terminalTy with
      | none => simp
      | some ty =>
          by_cases direct : ty = returnTy
          · simp [direct]
          · cases fields : types.elements ty with
            | none => simp [direct, fields]
            | some elements => simp [direct, fields, List.findIdx?_isSome]

theorem isSome_arguments_iff {params : List (Param Ty)} {generated : List Name} {node : Name}
    {callee : ModuleFunction Ty} :
    (pipeline.arguments types utilities mapping params generated node callee).isSome ↔
      (node ∈ pipeline.sourceNodes → (matchSourceNodeArgs params callee.params).isSome) ∧
        (node ∉ pipeline.sourceNodes → Supplied params callee.params
          (pipeline.supply types utilities mapping generated node)) := by
  unfold arguments
  have source := utilities.isSourceNode_iff node pipeline.sourceNodes
  by_cases member : node ∈ pipeline.sourceNodes
  · simp [isSource, source.mpr member, member]
  · have inner : ¬ pipeline.isSource utilities node = true := fun here => member (source.mp here)
    rw [if_neg inner, matchArgs_isSome_iff]
    simp [member]

/-- A body is generated exactly for pipelines that fit. -/
theorem isSome_generatePipelineBody_iff (func : ModuleFunction Ty) :
    (pipeline.generatePipelineBody types utilities mapping func).isSome ↔
      Fits types utilities mapping pipeline func.params func.returnTy := by
  have calls := @callsFrom_isSome_iff Ty _ types utilities mapping pipeline func.params []
    pipeline.order
  simp only [List.nil_append, isSome_arguments_iff] at calls
  have returns := isSome_generateReturn_iff types pipeline func.returnTy
    (if pipeline.terminalNode ∈ pipeline.order then
      pipeline.outputTyOf utilities mapping pipeline.terminalNode else none)
  have both : (pipeline.generatePipelineBody types utilities mapping func).isSome ↔
      (pipeline.callsFrom types utilities mapping func.params [] pipeline.order).isSome ∧
        (pipeline.generateReturn types func.returnTy (if pipeline.terminalNode ∈ pipeline.order then
          pipeline.outputTyOf utilities mapping pipeline.terminalNode else none)).isSome := by
    rw [generatePipelineBody_eq]
    cases pipeline.callsFrom types utilities mapping func.params [] pipeline.order <;> simp
  rw [both, calls, returns]
  constructor
  · rintro ⟨arguments, returned⟩
    refine ⟨fun node member callee resolved => ?_, fun before node after callee place resolved =>
      (arguments before node after callee place resolved).2, fun value => ?_⟩
    · obtain ⟨before, after, place⟩ := List.append_of_mem member
      exact (arguments before node after callee place resolved).1
    · obtain ⟨ty, terminal, fits⟩ := returned value
      split at terminal
      · rename_i inside
        exact ⟨inside, ty, terminal, fits⟩
      · cases terminal
  · rintro ⟨source, inner, terminal⟩
    refine ⟨fun before node after callee place resolved =>
      ⟨source node (place ▸ List.mem_append_right before List.mem_cons_self) callee resolved,
        inner before node after callee place resolved⟩, fun value => ?_⟩
    obtain ⟨inside, ty, known, fits⟩ := terminal value
    exact ⟨ty, by rw [if_pos inside, known], fits⟩

end Fits

variable [DecidableEq Fn]

/-- The generator succeeds on a function exactly where the pipeline fits it. -/
theorem writeBody_fst (target : Fn) :
    (pipeline.writeBody types utilities demangle matched module target).1 = true ↔
      Fits types utilities (mappingOf demangle matched module) pipeline (module target).params
        (module target).returnTy := by
  refine Iff.trans ?_ (isSome_generatePipelineBody_iff (describe demangle module target))
  have spec := emitBody_spec types utilities demangle matched module pipeline (module target)
    (describe demangle module target) rfl rfl
  change (pipeline.emitBody types utilities demangle matched module (module target)).result.isSome =
    true ↔ _
  split at spec
  · rename_i missing
    simp [missing, spec]
  · rename_i generated found
    simp [found, spec.1]

/-- The new body is whole exactly where the generator succeeds. -/
theorem whole_writeBody (target : Fn) :
    ((pipeline.writeBody types utilities demangle matched module target).2 target).Whole ↔
      (pipeline.writeBody types utilities demangle matched module target).1 = true := by
  have terminated := terminated_emitBody types utilities demangle matched module pipeline
    (module target)
  simp [writeBody, Function.Whole, terminated]

theorem writeBody_of_ne {target fn : Fn} (apart : fn ≠ target) :
    (pipeline.writeBody types utilities demangle matched module target).2 fn = module fn :=
  Function.update_of_ne apart _ _

end Pipeline

variable [DecidableEq Fn]

/-- A failure is atomic on a whole body exactly where there is none. -/
theorem failsAtomically_iff {pipeline : Pipeline} {target : Fn} (whole : (module target).Whole) :
    FailsAtomically types utilities demangle matched module pipeline target ↔
      Fits types utilities (mappingOf demangle matched module) pipeline (module target).params
        (module target).returnTy := by
  rw [← Pipeline.writeBody_fst]
  constructor
  · intro atomic
    by_contra failed
    have same := atomic (Bool.eq_false_iff.mpr failed)
    exact failed ((Pipeline.whole_writeBody target).mp (by rwa [same]))
  · exact fun succeeds failed => absurd (succeeds.symm.trans failed) Bool.true_eq_false.mp

/-- The pass leaves whole bodies exactly where each call in it succeeds. -/
theorem whole_runFrom_iff (blocks : List LogicBlock) (generated : Int)
    (whole : ∀ fn, (module fn).Whole) :
    (∀ fn, ((runFrom types utilities demangle matched generated blocks module).2 fn).Whole) ↔
      ∀ attempt ∈ attempts types utilities demangle matched blocks module,
        (attempt.1.writeBody types utilities demangle matched attempt.2.2 attempt.2.1).1 = true := by
  induction blocks generalizing generated module with
  | nil => simpa [runFrom, attempts] using whole
  | cons block blocks ih =>
      rw [runFrom, attempts]
      cases block.analysed.filter fun _ => block.isPipeline with
      | none => exact ih generated whole
      | some pipeline =>
          simp only
          cases pipeline.stubTarget demangle matched module with
          | none => exact ih generated whole
          | some target =>
              simp only
              have shape := @Pipeline.whole_writeBody Ty Fn _ types utilities demangle matched
                module pipeline _ target
              have others := fun fn (apart : fn ≠ target) =>
                @Pipeline.writeBody_of_ne Ty Fn _ types utilities demangle matched module pipeline _
                  target fn apart
              rw [List.forall_mem_cons]
              cases written : pipeline.writeBody types utilities demangle matched module target with
              | mk success next =>
                  rw [written] at shape others
                  cases success with
                  | true =>
                      have nextWhole (fn : Fn) : (next fn).Whole := by
                        by_cases here : fn = target
                        · exact here ▸ shape.mpr rfl
                        · have kept : next fn = module fn := others fn here
                          exact kept ▸ whole fn
                      simpa using ih (generated + 1) nextWhole
                  | false =>
                      refine iff_of_false (fun all => ?_) (by simp)
                      exact Bool.false_ne_true (shape.mp (all target))

variable (types utilities demangle matched module) in
/-- The calls of a run fail atomically, and the callers go on with whole bodies, exactly where each
pipeline fits the stub that it replaces.  So it is for a call on any function. -/
theorem generatePipelineBody_atomic_iff (whole : ∀ fn, (module fn).Whole) :
    (∀ pipeline target,
      FailsAtomically types utilities demangle matched module pipeline target ↔
        Fits types utilities (mappingOf demangle matched module) pipeline (module target).params
          (module target).returnTy) ∧
    ∀ blocks,
      ((∀ attempt ∈ attempts types utilities demangle matched blocks module,
          FailsAtomically types utilities demangle matched attempt.2.2 attempt.1 attempt.2.1) ∧
        HandsOnWhole types utilities demangle matched module blocks) ↔
      ∀ attempt ∈ attempts types utilities demangle matched blocks module,
        Fits types utilities (mappingOf demangle matched attempt.2.2) attempt.1
          (attempt.2.2 attempt.2.1).params (attempt.2.2 attempt.2.1).returnTy := by
  refine ⟨fun pipeline target => failsAtomically_iff (whole target), fun blocks => ?_⟩
  have run := @whole_runFrom_iff Ty Fn _ types utilities demangle matched module _ blocks 0 whole
  simp only [Pipeline.writeBody_fst] at run
  constructor
  · rintro ⟨-, -, jit⟩
    exact run.mp jit
  · intro fits
    refine ⟨fun attempt member failed => ?_, fun pipelineCfg fn => ?_, run.mpr fits⟩
    · have succeeds := (Pipeline.writeBody_fst attempt.2.1).mpr (fits attempt member)
      exact absurd (succeeds.symm.trans failed) Bool.true_eq_false.mp
    · unfold generateAhead
      split
      · exact run.mpr fits fn
      · exact whole fn

/-! ## A source with two parameters -/

theorem contains_iff (node : Name) (sources : List Name) :
    sources.contains node = true ↔ node ∈ sources :=
  List.contains_iff_mem

theorem upstream_filter (node : Name) (edges : List (Name × Name)) :
    (((edges.filter (·.2 = node)).filter (·.2 = node)).map (·.1) : List Name) =
      (edges.filter (·.2 = node)).map (·.1) := by
  rw [List.filter_filter]
  simp

/-- Graph utilities on lists, with node names completed to called functions. -/
def Utilities.onLists : Utilities where
  isSourceNode node sources := sources.contains node
  isSourceNode_iff := contains_iff
  findUpstreamNodes node edges := (edges.filter (·.2 = node)).map (·.1)
  findUpstreamNodes_filter := upstream_filter
  resolveNodeCallee node called :=
    (called.find? fun name => ("::".toList ++ node).isSuffixOf name).getD []

/-- The type `0` is void, `1` an integer and `2` a `double`. -/
def scalarTypes : TypeSystem Nat where
  isVoid ty := ty = 0
  elements _ := none

def loadMatched : Name → Option (Fin 3) := fun name =>
  if name = "app::run".toList then some 0 else if name = "app::load".toList then some 2 else none

/-- A stub on an integer, the placeholder and the one stage, with some parameters. -/
def loadModule (loadParams : List (Param Nat)) : Module Nat (Fin 3) := fun fn =>
  if fn = 0 then ⟨"app::run".toList, [⟨1, none⟩], 1, [[.other (some 1) false, .other none true]]⟩
  else if fn = 1 then ⟨"topo::detail::pipeline_placeholder()".toList, [], 0, []⟩
  else ⟨"app::load".toList, loadParams, 1, [[.other none true]]⟩

def loadPipeline : Pipeline where
  qualifiedName := "app::run".toList
  calledFunctions := ["app::load".toList]
  edges := [("load".toList, "void".toList)]
  stages := [("load".toList, 1)]
  sourceNodes := ["load".toList]
  terminalNode := "load".toList
  distinct := by decide

/-- The stage takes the integer. -/
theorem generatePipelineBody_atomic_integer :
    HandsOnWhole scalarTypes Utilities.onLists id loadMatched (loadModule [⟨1, none⟩])
      [⟨true, some loadPipeline⟩] := by
  have whole : ∀ fn, (loadModule [⟨1, none⟩] fn).Whole := by decide
  have succeeds : ∀ attempt ∈ attempts scalarTypes Utilities.onLists id loadMatched
      [⟨true, some loadPipeline⟩] (loadModule [⟨1, none⟩]),
      (attempt.1.writeBody scalarTypes Utilities.onLists id loadMatched attempt.2.2
        attempt.2.1).1 = true := by decide
  refine (((generatePipelineBody_atomic_iff scalarTypes Utilities.onLists id loadMatched
    (loadModule [⟨1, none⟩]) whole).2 [⟨true, some loadPipeline⟩]).mpr ?_).2
  exact fun attempt member => (Pipeline.writeBody_fst attempt.2.1).mp (succeeds attempt member)

/-- The stage takes two doubles: the stub is left with an empty block, and both callers go on. -/
theorem generatePipelineBody_leaves_half_body :
    ¬ FailsAtomically scalarTypes Utilities.onLists id loadMatched
        (loadModule [⟨2, none⟩, ⟨2, none⟩]) loadPipeline 0 ∧
      ¬ (generateJit scalarTypes Utilities.onLists id loadMatched
        (loadModule [⟨2, none⟩, ⟨2, none⟩]) [⟨true, some loadPipeline⟩] 0).Whole ∧
      generateAhead scalarTypes Utilities.onLists id loadMatched
        (loadModule [⟨2, none⟩, ⟨2, none⟩]) none [⟨true, some loadPipeline⟩] =
        (some 4294967295, generateJit scalarTypes Utilities.onLists id loadMatched
          (loadModule [⟨2, none⟩, ⟨2, none⟩]) [⟨true, some loadPipeline⟩]) := by
  refine ⟨fun atomic => ?_, by decide, rfl⟩
  exact absurd (congrFun (atomic (by decide)) 0) (by decide)

end PipelineCodeGen
end TopoLlvm
