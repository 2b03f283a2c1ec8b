import TopoLlvm.Transforms.PipelineDataflow
import Mathlib.Logic.Relation

/-!
# Generating only some nodes

When some nodes are left out, the others are called with what remains.  The result is the same for
all pure stages exactly where the terminal output depends on no node that is left out.
-/

namespace TopoLlvm
namespace PipelineCodeGen

open TopoLlvm.Runtime (Name)
open Relation

variable {Ty : Type} [DecidableEq Ty]

namespace Pipeline

variable {types : TypeSystem Ty} {utilities : Utilities} {mapping : Mapping Ty}
  {pipeline : Pipeline} {params : List (Param Ty)} {generated : List Name} {node : Name}
  {callee : ModuleFunction Ty} {args : List Operand}

omit [DecidableEq Ty] in
theorem node?_of_mem_outputValues {up : Name} {ty : Ty} {value : Ty × Operand}
    (member : value ∈ outputValues types up ty) : value.2.node? = some up := by
  unfold outputValues at member
  split at member
  · obtain ⟨entry, -, rfl⟩ := List.mem_map.mp member
    rfl
  · rw [List.mem_singleton.mp member]
    rfl

omit [DecidableEq Ty] in
theorem supply_filter (keep : Name → Bool) :
    pipeline.supply types utilities mapping (generated.filter keep) node =
      (pipeline.supply types utilities mapping generated node).filter (keepsValue keep) := by
  unfold supply
  rw [List.filter_flatMap]
  congr 1
  funext up
  by_cases member : up ∈ generated
  · rw [if_pos member]
    cases kept : keep up with
    | true =>
        rw [if_pos (List.mem_filter.mpr ⟨member, kept⟩)]
        refine (List.filter_eq_self.mpr fun value offered => ?_).symm
        split at offered
        · rw [keepsValue, node?_of_mem_outputValues offered]
          exact kept
        · cases offered
    | false =>
        rw [if_neg fun inside => by simp [kept] at inside]
        refine (List.filter_eq_nil_iff.mpr fun value offered => ?_).symm
        split at offered
        · rw [keepsValue, node?_of_mem_outputValues offered]
          simp [kept]
        · cases offered
  · rw [if_neg member, if_neg fun inside => member (List.mem_of_mem_filter inside)]
    rfl

/-- Arguments that take only outputs of kept nodes are found without the others. -/
theorem arguments_filter {keep : Name → Bool}
    (found : pipeline.arguments types utilities mapping params generated node callee = some args)
    (kept : ∀ operand ∈ args, operand.node?.all keep = true) :
    pipeline.arguments types utilities mapping params (generated.filter keep) node callee =
      some args := by
  unfold arguments at found ⊢
  split at found
  · rename_i source
    rwa [if_pos source]
  · rename_i source
    rw [if_neg source, supply_filter]
    exact matchArgs_filter found kept

omit [DecidableEq Ty] in
theorem mem_of_mem_supply {up : Name} {value : Ty × Operand}
    (member : value ∈ pipeline.supply types utilities mapping generated node)
    (output : value.2.node? = some up) :
    up ∈ generated ∧ (pipeline.outputTyOf utilities mapping up).isSome := by
  obtain ⟨other, -, offered⟩ := List.mem_flatMap.mp member
  split at offered
  · rename_i before
    cases known : pipeline.outputTyOf utilities mapping other with
    | none =>
        rw [known] at offered
        cases offered
    | some ty =>
        rw [known] at offered
        obtain rfl := Option.some.inj ((node?_of_mem_outputValues offered).symm.trans output)
        exact ⟨before, by rw [known]; rfl⟩
  · cases offered

theorem mem_of_takeUnused {ty : Ty} {values left : List (Ty × Operand)} {taken : Operand}
    (takes : takeUnused ty values = some (taken, left)) :
    (ty, taken) ∈ values ∧ left ⊆ values := by
  induction values generalizing left with
  | nil => cases takes
  | cons value values ih =>
      rw [takeUnused] at takes
      split at takes
      · rename_i here
        obtain ⟨rfl, rfl⟩ := Prod.mk.inj (Option.some.inj takes)
        subst here
        exact ⟨List.mem_cons_self, List.subset_cons_self _ _⟩
      · obtain ⟨⟨found, rest⟩, deeper, same⟩ := Option.map_eq_some_iff.mp takes
        obtain ⟨rfl, rfl⟩ := Prod.mk.inj same
        obtain ⟨inside, others⟩ := ih deeper
        exact ⟨List.mem_cons_of_mem _ inside, List.cons_subset_cons _ others⟩

/-- An output among matched arguments was available. -/
theorem mem_of_matchArgs {pipelineParams params : List (Param Ty)}
    {available : List (Ty × Operand)}
    (matched : matchArgs pipelineParams params available = some args) {operand : Operand}
    (member : operand ∈ args) {up : Name} (output : operand.node? = some up) :
    ∃ value ∈ available, value.2 = operand := by
  induction params generalizing available args with
  | nil =>
      cases matched
      cases member
  | cons param params ih =>
      by_cases slot : param.structRet.isSome = true
      · rw [matchArgs_slot slot] at matched
        obtain ⟨rest, deeper, rfl⟩ := Option.map_eq_some_iff.mp matched
        rcases List.mem_cons.mp member with rfl | later
        · cases output
        · exact ih deeper later
      · cases takes : takeUnused param.ty available with
        | some value =>
            obtain ⟨value, left⟩ := value
            rw [matchArgs_taken slot takes] at matched
            obtain ⟨rest, deeper, rfl⟩ := Option.map_eq_some_iff.mp matched
            obtain ⟨inside, others⟩ := mem_of_takeUnused takes
            rcases List.mem_cons.mp member with rfl | later
            · exact ⟨_, inside, rfl⟩
            · obtain ⟨found, there, same⟩ := ih deeper later
              exact ⟨found, others there, same⟩
        | none =>
            rw [matchArgs_fallback slot takes] at matched
            obtain ⟨index, -, matched⟩ := Option.bind_eq_some_iff.mp matched
            obtain ⟨rest, deeper, rfl⟩ := Option.map_eq_some_iff.mp matched
            rcases List.mem_cons.mp member with rfl | later
            · cases output
            · exact ih deeper later

/-- A call takes outputs of generated nodes whose callees are known. -/
theorem mem_of_arguments
    (found : pipeline.arguments types utilities mapping params generated node callee = some args)
    {operand : Operand} (member : operand ∈ args) {up : Name} (output : operand.node? = some up) :
    up ∈ generated ∧ (pipeline.outputTyOf utilities mapping up).isSome := by
  unfold arguments at found
  split at found
  · obtain ⟨indices, -, rfl⟩ := Option.map_eq_some_iff.mp found
    obtain ⟨index, -, rfl⟩ := List.mem_map.mp member
    cases output
  · obtain ⟨value, available, rfl⟩ := mem_of_matchArgs found member output
    exact mem_of_mem_supply available output

/-! ## Results -/

/-- A node has one place in the order. -/
theorem before_unique {before after before' after' : List Name}
    (place : pipeline.order = before ++ node :: after)
    (place' : pipeline.order = before' ++ node :: after') : before = before' := by
  have distinct := pipeline.order_nodup
  rw [place'] at distinct
  have alone := (List.nodup_cons.mp (List.perm_middle.nodup_iff.mp distinct)).1
  rw [List.mem_append, not_or] at alone
  exact ((List.append_cons_inj_of_notMem alone.1 alone.2).mp (place'.symm.trans place)).1.symm

variable (types utilities mapping pipeline params) in
/-- The node's call in the full body takes an output of the other node. -/
def Takes (node up : Name) : Prop :=
  ∃ before after callee args operand, pipeline.order = before ++ node :: after ∧
    pipeline.resolveFunction utilities mapping node = some callee ∧
    pipeline.arguments types utilities mapping params before node callee = some args ∧
    operand ∈ args ∧ operand.node? = some up

variable (types utilities mapping pipeline params) in
/-- The node's output in the full body depends on the other node. -/
def DependsOn : Name → Name → Prop :=
  ReflTransGen (pipeline.Takes types utilities mapping params)

end Pipeline

namespace PureStages

variable {V : Type} {pure : PureStages V} {inputs : Nat → V}

theorem eval_congr {outputs others : Name → V} {operand : Operand}
    (same : ∀ up, operand.node? = some up → outputs up = others up) :
    pure.eval inputs outputs operand = pure.eval inputs others operand := by
  cases operand with
  | arg index => rfl
  | output node => exact same node rfl
  | field node index => exact congrArg (pure.extract · index) (same node rfl)
  | slot => rfl

theorem perform_of_ne {outputs : Name → V} {node other : Name} {operands : List Operand}
    (apart : other ≠ node) : pure.perform inputs outputs (node, operands) other = outputs other :=
  Function.update_of_ne apart _ _

theorem perform_self {outputs : Name → V} {node : Name} {operands : List Operand} :
    pure.perform inputs outputs (node, operands) node =
      pure.call node (operands.map (pure.eval inputs outputs)) :=
  Function.update_self ..

variable {types : TypeSystem Ty} {utilities : Utilities} {mapping : Mapping Ty}
  {pipeline : Pipeline} {params : List (Param Ty)} {keep : Name → Bool}

/-- Nodes that depend only on kept nodes have the same outputs without the others. -/
theorem foldl_perform_agree (wanted : Name → Prop) (kept : ∀ node, wanted node → keep node = true)
    (closed : ∀ node up, wanted node → pipeline.Takes types utilities mapping params node up →
      wanted up) {generated nodes : List Name} (order : pipeline.order = generated ++ nodes)
    {full rest : List (Name × List Operand)}
    (fullCalls : pipeline.callsFrom types utilities mapping params generated nodes = some full)
    (restCalls : pipeline.callsFrom types utilities mapping params (generated.filter keep)
      (nodes.filter keep) = some rest)
    {outputs others : Name → V} (agree : ∀ node, wanted node → outputs node = others node) :
    ∀ node, wanted node →
      full.foldl (pure.perform inputs) outputs node =
        rest.foldl (pure.perform inputs) others node := by
  induction nodes generalizing generated full rest outputs others with
  | nil =>
      cases fullCalls
      cases restCalls
      exact agree
  | cons node nodes ih =>
      have next : pipeline.order = (generated ++ [node]) ++ nodes := by simp [order]
      cases keeps : keep node with
      | false =>
          rw [List.filter_cons_of_neg (by simp [keeps])] at restCalls
          have same : (generated ++ [node]).filter keep = generated.filter keep := by simp [keeps]
          rw [← same] at restCalls
          have unwanted : ¬ wanted node := fun here => by simp [kept node here] at keeps
          cases resolved : pipeline.resolveFunction utilities mapping node with
          | none =>
              rw [Pipeline.callsFrom_cons_of_unknown resolved] at fullCalls
              exact ih next fullCalls restCalls agree
          | some callee =>
              obtain ⟨args, later, -, fullLater, rfl⟩ :=
                (Pipeline.callsFrom_cons_of_resolved resolved).mp fullCalls
              refine ih next fullLater restCalls fun other here => ?_
              have apart : other ≠ node := fun same => unwanted (same ▸ here)
              rw [perform_of_ne apart, agree other here]
      | true =>
          rw [List.filter_cons_of_pos keeps] at restCalls
          have same : (generated ++ [node]).filter keep = generated.filter keep ++ [node] := by
            simp [keeps]
          cases resolved : pipeline.resolveFunction utilities mapping node with
          | none =>
              rw [Pipeline.callsFrom_cons_of_unknown resolved] at fullCalls restCalls
              rw [← same] at restCalls
              exact ih next fullCalls restCalls agree
          | some callee =>
              obtain ⟨args, later, fullArgs, fullLater, rfl⟩ :=
                (Pipeline.callsFrom_cons_of_resolved resolved).mp fullCalls
              obtain ⟨restArgs, restLater, foundArgs, found, rfl⟩ :=
                (Pipeline.callsFrom_cons_of_resolved resolved).mp restCalls
              rw [← same] at found
              refine ih next fullLater found fun other here => ?_
              by_cases apart : other = node
              · subst apart
                have takes (operand : Operand) (member : operand ∈ args) (up : Name)
                    (output : operand.node? = some up) : wanted up :=
                  closed other up here
                    ⟨generated, nodes, callee, args, operand, order, resolved, fullArgs, member,
                      output⟩
                have sameArgs : restArgs = args := by
                  refine Option.some.inj (foundArgs.symm.trans
                    (Pipeline.arguments_filter fullArgs fun operand member => ?_))
                  cases output : operand.node? with
                  | none => rfl
                  | some up => exact kept up (takes operand member up output)
                rw [perform_self, perform_self, sameArgs]
                refine congrArg _ (List.map_congr_left fun operand member => ?_)
                exact eval_congr fun up output => agree up (takes operand member up output)
              · rw [perform_of_ne apart, perform_of_ne apart, agree other here]

/-- Stages that tell whether a node is among what their arguments depend on. -/
def tracing (traced : Name) : PureStages Bool where
  call node values := node = traced ∨ true ∈ values
  extract value _ := value
  slot := false
  undef := false

theorem eval_tracing {traced : Name} {outputs : Name → Bool} {operand : Operand} {up : Name}
    (output : operand.node? = some up) :
    (tracing traced).eval (fun _ => false) outputs operand = outputs up := by
  cases operand with
  | output node =>
      cases output
      rfl
  | field node index =>
      cases output
      rfl
  | arg | slot => cases output

/-- In the full body, the outputs that depend on the traced node tell so. -/
theorem foldl_tracing_of_dependsOn {traced : Name} {generated nodes : List Name}
    (order : pipeline.order = generated ++ nodes) {full : List (Name × List Operand)}
    (fullCalls : pipeline.callsFrom types utilities mapping params generated nodes = some full)
    (outputs : Name → Bool)
    (told : ∀ node ∈ generated, (pipeline.outputTyOf utilities mapping node).isSome →
      pipeline.DependsOn types utilities mapping params node traced → outputs node = true) :
    ∀ node ∈ pipeline.order, (pipeline.outputTyOf utilities mapping node).isSome →
      pipeline.DependsOn types utilities mapping params node traced →
        full.foldl ((tracing traced).perform fun _ => false) outputs node = true := by
  induction nodes generalizing generated full outputs with
  | nil =>
      cases fullCalls
      rw [order, List.append_nil]
      exact told
  | cons node nodes ih =>
      have next : pipeline.order = (generated ++ [node]) ++ nodes := by simp [order]
      cases resolved : pipeline.resolveFunction utilities mapping node with
      | none =>
          rw [Pipeline.callsFrom_cons_of_unknown resolved] at fullCalls
          refine ih next fullCalls outputs fun other member known => ?_
          rcases List.mem_append.mp member with before | here
          · exact told other before known
          · rw [List.mem_singleton.mp here, Pipeline.outputTyOf, resolved] at known
            cases known
      | some callee =>
          obtain ⟨args, later, fullArgs, fullLater, rfl⟩ :=
            (Pipeline.callsFrom_cons_of_resolved resolved).mp fullCalls
          refine ih next fullLater _ fun other member known depends => ?_
          by_cases here : other = node
          · subst here
            rw [perform_self]
            rcases depends.cases_head with same | ⟨up, takes, depends⟩
            · exact decide_eq_true (.inl same)
            · obtain ⟨before, after, found, args', operand, place, known', args'Found, member,
                output⟩ := takes
              obtain rfl := Option.some.inj (resolved.symm.trans known')
              obtain rfl := Pipeline.before_unique order place
              obtain rfl := Option.some.inj (fullArgs.symm.trans args'Found)
              obtain ⟨earlier, upKnown⟩ := Pipeline.mem_of_arguments fullArgs member output
              have among : true ∈ args.map ((tracing traced).eval (fun _ => false) outputs) :=
                List.mem_map.mpr ⟨operand, member,
                  (eval_tracing output).trans (told up earlier upKnown depends)⟩
              exact decide_eq_true (.inr among)
          · rw [perform_of_ne here]
            refine told other ?_ known depends
            exact (List.mem_append.mp member).resolve_right fun last =>
              here (List.mem_singleton.mp last)

/-- Where the traced node is not called, no output tells of it. -/
theorem foldl_tracing_of_absent (traced : Name) {calls : List (Name × List Operand)}
    (absent : ∀ call ∈ calls, call.1 ≠ traced) (node : Name) :
    calls.foldl ((tracing traced).perform fun _ => false) (fun _ => false) node = false := by
  refine List.foldlRecOn (motive := fun outputs : Name → Bool => ∀ node, outputs node = false)
    _ _ (fun _ => rfl) (fun outputs silent call member node => ?_) node
  obtain ⟨called, operands⟩ := call
  by_cases here : node = called
  · subst here
    rw [perform_self]
    refine decide_eq_false fun told => told.elim (absent _ member) fun among => ?_
    obtain ⟨operand, -, told⟩ := List.mem_map.mp among
    cases operand with
    | output up | field up index =>
        simp [eval, tracing, silent up] at told
    | arg index | slot => cases told
  · rw [perform_of_ne here]
    exact silent node

end PureStages

namespace Pipeline

variable {types : TypeSystem Ty} {utilities : Utilities} {mapping : Mapping Ty}
  {pipeline : Pipeline} {keep : Name → Bool}

theorem mem_of_callsFrom {params : List (Param Ty)} {generated nodes : List Name}
    {calls : List (Name × List Operand)}
    (found : pipeline.callsFrom types utilities mapping params generated nodes = some calls)
    {call : Name × List Operand} (member : call ∈ calls) : call.1 ∈ nodes := by
  induction nodes generalizing generated calls with
  | nil =>
      cases found
      cases member
  | cons node nodes ih =>
      cases resolved : pipeline.resolveFunction utilities mapping node with
      | none =>
          rw [callsFrom_cons_of_unknown resolved] at found
          exact List.mem_cons_of_mem _ (ih found member)
      | some callee =>
          obtain ⟨args, later, -, rest, rfl⟩ := (callsFrom_cons_of_resolved resolved).mp found
          rcases List.mem_cons.mp member with rfl | after
          · exact List.mem_cons_self
          · exact List.mem_cons_of_mem _ (ih rest after)

/-- A body that is to return a value returns the terminal output or a field of it. -/
theorem operand_of_generateReturn {returnTy : Ty} {terminalTy : Option Ty} {returned : Returned}
    (value : types.isVoid returnTy = false)
    (returns : pipeline.generateReturn types returnTy terminalTy = some returned) :
    ∃ operand, returned = .value operand ∧ operand.node? = some pipeline.terminalNode ∧
      terminalTy.isSome := by
  unfold generateReturn at returns
  rw [value, if_neg Bool.false_ne_true] at returns
  split at returns
  · cases returns
  · split at returns
    · cases returns
      exact ⟨_, rfl, rfl, rfl⟩
    · split at returns
      · cases returns
      · obtain ⟨index, -, rfl⟩ := Option.map_eq_some_iff.mp returns
        exact ⟨_, rfl, rfl, rfl⟩

/-- With the same return, the body without some nodes gives the same value for all stages exactly
where the terminal output depends on kept nodes only. -/
theorem result_eq_iff {params : List (Param Ty)} {full rest : List (Name × List Operand)}
    {operand : Operand} (output : operand.node? = some pipeline.terminalNode)
    (inside : pipeline.terminalNode ∈ pipeline.order)
    (known : (pipeline.outputTyOf utilities mapping pipeline.terminalNode).isSome)
    (fullCalls : pipeline.callsFrom types utilities mapping params [] pipeline.order = some full)
    (restCalls : pipeline.callsFrom types utilities mapping params []
      (pipeline.order.filter keep) = some rest) :
    (∀ (V : Type) (pure : PureStages V) (args : Nat → V),
        pure.result args { calls := rest, returned := .value operand } =
          pure.result args { calls := full, returned := .value operand }) ↔
      ∀ node, pipeline.DependsOn types utilities mapping params pipeline.terminalNode node →
        keep node = true := by
  constructor
  · intro same node depends
    by_contra dropped
    have told := PureStages.foldl_tracing_of_dependsOn (pipeline.order.nil_append.symm) fullCalls
      (fun _ => false) (fun _ member => absurd member List.not_mem_nil) pipeline.terminalNode inside
      known depends
    have silent := PureStages.foldl_tracing_of_absent node
      (fun call member here => dropped
        (here ▸ (List.mem_filter.mp (mem_of_callsFrom restCalls member)).2)) pipeline.terminalNode
    have values := Option.some.inj (same Bool (PureStages.tracing node) fun _ => false)
    rw [PureStages.eval_tracing output, PureStages.eval_tracing output] at values
    exact Bool.false_ne_true (silent.symm.trans (values.trans told))
  · intro kept V pure args
    refine congrArg some (PureStages.eval_congr fun up same => ?_)
    obtain rfl := Option.some.inj (output.symm.trans same)
    exact (PureStages.foldl_perform_agree
      (pipeline.DependsOn types utilities mapping params pipeline.terminalNode)
      kept (fun _ _ depends takes => depends.tail takes) (pipeline.order.nil_append.symm)
      fullCalls restCalls (fun _ _ => rfl) _ .refl).symm

end Pipeline

end PipelineCodeGen
end TopoLlvm
