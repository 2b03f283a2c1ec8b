import TopoLlvm.Transforms.PipelineCodeGen
import Mathlib.Data.List.Perm.Basic

/-!
# Which outputs a generated call takes

The generator's choices depend on types alone: the arguments of a node follow from the nodes that
come before it in the order.  Dropping nodes from the stages drops them from the order.
-/

namespace TopoLlvm
namespace PipelineCodeGen

open TopoLlvm.Runtime (Name)

/-! ## The order of the nodes -/

/-- Groups with only some of their nodes, and without empty groups. -/
def pruneGroups (keep : Name → Bool) (groups : List (Int × List Name)) : List (Int × List Name) :=
  (groups.map fun group => (group.1, group.2.filter keep)).filter (·.2 ≠ [])

theorem pruneGroups_cons (keep : Name → Bool) (key : Int) (nodes : List Name)
    (groups : List (Int × List Name)) : pruneGroups keep ((key, nodes) :: groups) =
      if nodes.filter keep = [] then pruneGroups keep groups
      else (key, nodes.filter keep) :: pruneGroups keep groups := by
  rw [pruneGroups, List.map_cons, List.filter_cons]
  by_cases empty : nodes.filter keep = []
  · rw [if_neg (by simpa using empty), if_pos empty]
    rfl
  · rw [if_pos (by simpa using empty), if_neg empty]
    rfl

theorem flatMap_pruneGroups (keep : Name → Bool) (groups : List (Int × List Name)) :
    (pruneGroups keep groups).flatMap (·.2) = (groups.flatMap (·.2)).filter keep := by
  induction groups with
  | nil => rfl
  | cons group groups ih =>
      rw [List.flatMap_cons, List.filter_append, ← ih, pruneGroups_cons]
      split
      · rename_i empty
        rw [empty]
        rfl
      · rfl

theorem pushNode_of_lt {stage : Int} {groups : List (Int × List Name)} (node : Name)
    (below : ∀ group ∈ groups, stage < group.1) :
    pushNode stage node groups = (stage, [node]) :: groups := by
  cases groups with
  | nil => rfl
  | cons group groups => rw [pushNode, if_pos (below group List.mem_cons_self)]

theorem mem_pushNode {stage : Int} {node : Name} {groups : List (Int × List Name)}
    {group : Int × List Name} (member : group ∈ pushNode stage node groups) :
    group.1 = stage ∨ ∃ old ∈ groups, old.1 = group.1 := by
  induction groups with
  | nil => exact .inl (congrArg Prod.fst (List.mem_singleton.mp member))
  | cons first groups ih =>
      rw [pushNode] at member
      split at member
      · rcases List.mem_cons.mp member with rfl | old
        · exact .inl rfl
        · exact .inr ⟨group, old, rfl⟩
      · split at member
        · rename_i here
          rcases List.mem_cons.mp member with rfl | old
          · exact .inl here.symm
          · exact .inr ⟨group, List.mem_cons_of_mem _ old, rfl⟩
        · rcases List.mem_cons.mp member with rfl | later
          · exact .inr ⟨first, List.mem_cons_self, rfl⟩
          · rcases ih later with here | ⟨old, there, same⟩
            · exact .inl here
            · exact .inr ⟨old, List.mem_cons_of_mem _ there, same⟩

/-- Groups ordered by their stages. -/
abbrev Ordered (groups : List (Int × List Name)) : Prop :=
  groups.Pairwise fun first second => first.1 < second.1

theorem Ordered.pushNode {groups : List (Int × List Name)} (ordered : Ordered groups)
    (stage : Int) (node : Name) : Ordered (pushNode stage node groups) := by
  induction groups with
  | nil => exact List.pairwise_singleton _ _
  | cons first groups ih =>
      obtain ⟨above, rest⟩ := List.pairwise_cons.mp ordered
      rw [PipelineCodeGen.pushNode]
      split
      · rename_i before
        refine List.pairwise_cons.mpr ⟨fun group member => ?_, ordered⟩
        rcases List.mem_cons.mp member with rfl | later
        · exact before
        · exact Int.lt_trans before (above group later)
      · split
        · exact List.pairwise_cons.mpr ⟨above, rest⟩
        · refine List.pairwise_cons.mpr ⟨fun group member => ?_, ih rest⟩
          rcases mem_pushNode member with here | ⟨old, there, same⟩
          · simp only
            omega
          · exact same ▸ above old there

theorem pushNode_perm (stage : Int) (node : Name) (groups : List (Int × List Name)) :
    ((pushNode stage node groups).flatMap (·.2)).Perm (node :: groups.flatMap (·.2)) := by
  induction groups with
  | nil => exact .refl _
  | cons first groups ih =>
      rw [pushNode]
      split
      · exact .refl _
      · split
        · simp only [List.flatMap_cons, List.append_assoc]
          exact List.perm_middle
        · simp only [List.flatMap_cons]
          exact (ih.append_left _).trans List.perm_middle

theorem pruneGroups_pushNode_of_drop {keep : Name → Bool} {node : Name}
    (dropped : keep node = false) (stage : Int) (groups : List (Int × List Name)) :
    pruneGroups keep (pushNode stage node groups) = pruneGroups keep groups := by
  have none : [node].filter keep = [] := by simp [dropped]
  induction groups with
  | nil => rw [pushNode, pruneGroups_cons, if_pos none]
  | cons first groups ih =>
      obtain ⟨key, nodes⟩ := first
      rw [pushNode]
      split
      · rw [pruneGroups_cons, if_pos none]
      · split
        · rw [pruneGroups_cons, pruneGroups_cons, List.filter_append, none, List.append_nil]
        · rw [pruneGroups_cons, pruneGroups_cons, ih]

theorem pruneGroups_pushNode {keep : Name → Bool} {node : Name} (kept : keep node = true)
    (stage : Int) {groups : List (Int × List Name)} (ordered : Ordered groups) :
    pruneGroups keep (pushNode stage node groups) =
      pushNode stage node (pruneGroups keep groups) := by
  have one : [node].filter keep = [node] := by simp [kept]
  induction groups with
  | nil => rw [pushNode, pruneGroups_cons, one, if_neg (List.cons_ne_nil _ _)]; rfl
  | cons first groups ih =>
      obtain ⟨key, nodes⟩ := first
      obtain ⟨above, rest⟩ := List.pairwise_cons.mp ordered
      have later (group : Int × List Name) (member : group ∈ pruneGroups keep groups) :
          key < group.1 := by
        obtain ⟨old, there, rfl⟩ := List.mem_map.mp (List.mem_of_mem_filter member)
        exact above old there
      rw [pushNode]
      split
      · rename_i before
        rw [pruneGroups_cons, one, if_neg (List.cons_ne_nil _ _), pushNode_of_lt]
        intro group member
        rw [pruneGroups_cons] at member
        split at member
        · exact Int.lt_trans before (later group member)
        · rcases List.mem_cons.mp member with rfl | old
          · exact before
          · exact Int.lt_trans before (later group old)
      · rename_i notBefore
        split
        · rename_i here
          subst here
          rw [pruneGroups_cons, pruneGroups_cons, List.filter_append, one,
            if_neg (List.append_ne_nil_of_right_ne_nil _ (List.cons_ne_nil _ _))]
          split
          · rename_i empty
            rw [empty, pushNode_of_lt node later]
            rfl
          · rw [pushNode, if_neg notBefore, if_pos rfl]
        · rename_i elsewhere
          rw [pruneGroups_cons, pruneGroups_cons, ih rest]
          split
          · rfl
          · rw [pushNode, if_neg notBefore, if_neg elsewhere]

theorem groupNodesByStage_concat (stages : List (Name × Int)) (node : Name) (stage : Int) :
    groupNodesByStage (stages ++ [(node, stage)]) =
      pushNode stage node (groupNodesByStage stages) := by
  rw [groupNodesByStage, List.foldl_append]
  rfl

theorem ordered_groupNodesByStage (stages : List (Name × Int)) :
    Ordered (groupNodesByStage stages) :=
  List.foldlRecOn (motive := Ordered) _ _ .nil fun _ ordered last _ => ordered.pushNode last.2 last.1

/-- Nodes that are dropped from the stages are dropped from the groups. -/
theorem groupNodesByStage_filter (keep : Name → Bool) (stages : List (Name × Int)) :
    groupNodesByStage (stages.filter (keep ·.1)) = pruneGroups keep (groupNodesByStage stages) := by
  induction stages using List.reverseRecOn with
  | nil => rfl
  | append_singleton stages last ih =>
      obtain ⟨node, stage⟩ := last
      rw [List.filter_append, groupNodesByStage_concat]
      cases kept : keep node with
      | false =>
          rw [pruneGroups_pushNode_of_drop kept, ← ih]
          simp [kept]
      | true =>
          rw [pruneGroups_pushNode kept stage (ordered_groupNodesByStage stages), ← ih,
            ← groupNodesByStage_concat]
          simp [kept]

/-- The groups hold the nodes of the stages. -/
theorem groupNodesByStage_perm (stages : List (Name × Int)) :
    ((groupNodesByStage stages).flatMap (·.2)).Perm (stages.map (·.1)) := by
  induction stages using List.reverseRecOn with
  | nil => exact .refl _
  | append_singleton stages last ih =>
      obtain ⟨node, stage⟩ := last
      rw [groupNodesByStage_concat, List.map_append]
      exact ((pushNode_perm stage node _).trans (ih.cons node)).trans
        (List.perm_append_singleton _ _).symm

theorem Pipeline.order_nodup (pipeline : Pipeline) : pipeline.order.Nodup :=
  (groupNodesByStage_perm pipeline.stages).nodup_iff.mpr pipeline.distinct

/-! ## Arguments -/

variable {Ty : Type} [DecidableEq Ty]

/-- A fold that does not fail keeps a relation to the items that it has seen. -/
theorem foldlM_keeps {α β : Type} {step : β → α → Option β} (Keeps : List α → β → Prop)
    (each : ∀ seen item value next, Keeps seen value → step value item = some next →
      Keeps (seen ++ [item]) next)
    {items : List α} (seen : List α) {value last : β} (start : Keeps seen value)
    (folded : items.foldlM step value = some last) : Keeps (seen ++ items) last := by
  induction items generalizing seen value with
  | nil =>
      cases folded
      simpa using start
  | cons item items ih =>
      rw [List.foldlM_cons] at folded
      obtain ⟨next, first, rest⟩ := Option.bind_eq_some_iff.mp folded
      have kept := ih _ (each seen item value next start first) rest
      rwa [List.append_assoc, List.singleton_append] at kept

/-- What a value keeps where only some outputs remain. -/
def keepsValue (keep : Name → Bool) (value : Ty × Operand) : Bool := value.2.node?.all keep

theorem takeUnused_filter {keep : Ty × Operand → Bool} {ty : Ty} {values left : List (Ty × Operand)}
    {taken : Operand} (takes : takeUnused ty values = some (taken, left))
    (kept : keep (ty, taken) = true) :
    takeUnused ty (values.filter keep) = some (taken, left.filter keep) := by
  induction values generalizing left with
  | nil => cases takes
  | cons value values ih =>
      rw [takeUnused] at takes
      split at takes
      · rename_i here
        obtain ⟨rfl, rfl⟩ := Prod.mk.inj (Option.some.inj takes)
        subst here
        rw [List.filter_cons, if_pos kept, takeUnused, if_pos rfl]
      · rename_i elsewhere
        obtain ⟨⟨found, rest⟩, deeper, same⟩ := Option.map_eq_some_iff.mp takes
        obtain ⟨rfl, rfl⟩ := Prod.mk.inj same
        rw [List.filter_cons, List.filter_cons]
        split
        · rw [takeUnused, if_neg elsewhere, ih deeper]
          rfl
        · exact ih deeper

theorem takeUnused_eq_none {ty : Ty} {values : List (Ty × Operand)} :
    takeUnused ty values = none ↔ ∀ value ∈ values, value.1 ≠ ty := by
  induction values with
  | nil => simp [takeUnused]
  | cons value values ih =>
      rw [takeUnused, List.forall_mem_cons, ← ih]
      split
      · rename_i here
        simp [here]
      · rename_i elsewhere
        simp [elsewhere]

/-- Taking a value leaves one less of its type and as many of the others. -/
theorem countP_takeUnused {ty : Ty} {values left : List (Ty × Operand)} {taken : Operand}
    (takes : takeUnused ty values = some (taken, left)) (other : Ty) :
    values.countP (·.1 = other) = left.countP (·.1 = other) + if ty = other then 1 else 0 := by
  induction values generalizing left with
  | nil => cases takes
  | cons value values ih =>
      rw [takeUnused] at takes
      split at takes
      · rename_i here
        obtain ⟨rfl, rfl⟩ := Prod.mk.inj (Option.some.inj takes)
        simp [List.countP_cons, here]
      · obtain ⟨⟨found, rest⟩, deeper, same⟩ := Option.map_eq_some_iff.mp takes
        obtain ⟨rfl, rfl⟩ := Prod.mk.inj same
        rw [List.countP_cons, List.countP_cons, ih deeper]
        omega

section

variable {pipelineParams params : List (Param Ty)} {param : Param Ty}
  {available left : List (Ty × Operand)} {taken : Operand}

theorem matchArgs_slot (slot : param.structRet.isSome = true) :
    matchArgs pipelineParams (param :: params) available =
      (matchArgs pipelineParams params available).map (.slot :: ·) := by
  rw [matchArgs, if_pos slot]

theorem matchArgs_taken (value : ¬ param.structRet.isSome = true)
    (takes : takeUnused param.ty available = some (taken, left)) :
    matchArgs pipelineParams (param :: params) available =
      (matchArgs pipelineParams params left).map (taken :: ·) := by
  rw [matchArgs, if_neg value, takes]

theorem matchArgs_fallback (value : ¬ param.structRet.isSome = true)
    (none : takeUnused param.ty available = none) :
    matchArgs pipelineParams (param :: params) available =
      (pipelineParams.findIdx? (·.ty = param.ty)).bind fun index =>
        (matchArgs pipelineParams params available).map (.arg index :: ·) := by
  rw [matchArgs, if_neg value, none]
  simp only
  cases pipelineParams.findIdx? (·.ty = param.ty) <;> rfl

/-- Without the outputs that no argument takes, the arguments are the same. -/
theorem matchArgs_filter {args : List Operand} {keep : Name → Bool}
    (matched : matchArgs pipelineParams params available = some args)
    (kept : ∀ operand ∈ args, operand.node?.all keep = true) :
    matchArgs pipelineParams params (available.filter (keepsValue keep)) = some args := by
  induction params generalizing available args with
  | nil => exact matched
  | cons param params ih =>
      by_cases slot : param.structRet.isSome = true
      · rw [matchArgs_slot slot] at matched ⊢
        obtain ⟨rest, deeper, rfl⟩ := Option.map_eq_some_iff.mp matched
        rw [ih deeper fun operand member => kept operand (List.mem_cons_of_mem _ member)]
        rfl
      · cases takes : takeUnused param.ty available with
        | some value =>
            obtain ⟨value, left⟩ := value
            rw [matchArgs_taken slot takes] at matched
            obtain ⟨rest, deeper, rfl⟩ := Option.map_eq_some_iff.mp matched
            have same : takeUnused param.ty (available.filter (keepsValue keep)) =
                some (value, left.filter (keepsValue keep)) :=
              takeUnused_filter takes (kept value List.mem_cons_self)
            rw [matchArgs_taken slot same,
              ih deeper fun operand member => kept operand (List.mem_cons_of_mem _ member)]
            rfl
        | none =>
            have still : takeUnused param.ty (available.filter (keepsValue keep)) = none :=
              takeUnused_eq_none.mpr fun value member =>
                takeUnused_eq_none.mp takes value (List.mem_of_mem_filter member)
            rw [matchArgs_fallback slot takes] at matched
            obtain ⟨index, first, matched⟩ := Option.bind_eq_some_iff.mp matched
            obtain ⟨rest, deeper, rfl⟩ := Option.map_eq_some_iff.mp matched
            rw [matchArgs_fallback slot still, first,
              ih deeper fun operand member => kept operand (List.mem_cons_of_mem _ member)]
            rfl

/-- As many values of a type as parameters of the type, for each type that no pipeline parameter
has. -/
def Supplied (pipelineParams params : List (Param Ty)) (available : List (Ty × Operand)) : Prop :=
  ∀ ty, (∀ param ∈ pipelineParams, param.ty ≠ ty) →
    params.countP (fun param => param.structRet = none ∧ param.ty = ty) ≤
      available.countP (·.1 = ty)

/-- Every parameter finds an argument exactly where the values supply the parameters. -/
theorem matchArgs_isSome_iff :
    (matchArgs pipelineParams params available).isSome ↔
      Supplied pipelineParams params available := by
  unfold Supplied
  induction params generalizing available with
  | nil => simp [matchArgs]
  | cons param params ih =>
      by_cases slot : param.structRet.isSome = true
      · have isSlot : param.structRet ≠ none := Option.isSome_iff_ne_none.mp slot
        simp [matchArgs_slot slot, ih, isSlot]
      · have isValue : param.structRet = none := by simpa using slot
        cases takes : takeUnused param.ty available with
        | some value =>
            obtain ⟨value, left⟩ := value
            have count := countP_takeUnused takes
            rw [matchArgs_taken slot takes, Option.isSome_map, ih]
            simp [List.countP_cons, isValue, count]
        | none =>
            rw [matchArgs_fallback slot takes]
            cases first : pipelineParams.findIdx? (·.ty = param.ty) with
            | none =>
                have missing : ∀ other ∈ pipelineParams, other.ty ≠ param.ty := by
                  simpa using List.findIdx?_eq_none_iff.mp first
                have noValue : available.countP (·.1 = param.ty) = 0 := by
                  simpa [List.countP_eq_zero] using takeUnused_eq_none.mp takes
                simp only [Option.bind_none, Option.isSome_none, Bool.false_eq_true, false_iff]
                intro all
                have enough := all param.ty missing
                simp [isValue, noValue] at enough
            | some index =>
                have there : ∃ other ∈ pipelineParams, other.ty = param.ty := by
                  obtain ⟨bound, here, -⟩ := List.findIdx?_eq_some_iff_getElem.mp first
                  exact ⟨_, List.getElem_mem bound, by simpa using here⟩
                rw [Option.bind_some, Option.isSome_map, ih]
                refine forall₂_congr fun ty missing => ?_
                have other : param.ty ≠ ty := by
                  obtain ⟨found, member, same⟩ := there
                  exact same ▸ missing found member
                simp [other]

end

/-! ## Bodies -/

namespace Pipeline

variable (types : TypeSystem Ty) (utilities : Utilities) (mapping : Mapping Ty)
  (pipeline : Pipeline)

/-- The type of a node's output, where its callee is known. -/
def outputTyOf (node : Name) : Option Ty :=
  (pipeline.resolveFunction utilities mapping node).map fun callee =>
    if pipeline.isSource utilities node then callee.returnTy
    else (callee.params.head?.bind (·.structRet)).getD callee.returnTy

/-- The values that the generated nodes upstream of a node offer. -/
def supply (generated : List Name) (node : Name) : List (Ty × Operand) :=
  (utilities.findUpstreamNodes node pipeline.edges).flatMap fun up =>
    if up ∈ generated then
      match pipeline.outputTyOf utilities mapping up with
      | some ty => outputValues types up ty
      | none => []
    else []

/-- The arguments of a node's call after some nodes are generated. -/
def arguments (params : List (Param Ty)) (generated : List Name) (node : Name)
    (callee : ModuleFunction Ty) : Option (List Operand) :=
  if pipeline.isSource utilities node then
    (matchSourceNodeArgs params callee.params).map (·.map .arg)
  else matchArgs params callee.params (pipeline.supply types utilities mapping generated node)

/-- The calls of nodes after others, none where an argument is missing. -/
def callsFrom (params : List (Param Ty)) :
    List Name → List Name → Option (List (Name × List Operand))
  | _, [] => some []
  | generated, node :: nodes =>
      match pipeline.resolveFunction utilities mapping node with
      | none => callsFrom params (generated ++ [node]) nodes
      | some callee =>
          (pipeline.arguments types utilities mapping params generated node callee).bind fun args =>
            (callsFrom params (generated ++ [node]) nodes).map ((node, args) :: ·)

variable {types utilities mapping pipeline} {params : List (Param Ty)} {generated : List Name}
  {node : Name} {callee : ModuleFunction Ty} {args : List Operand}

theorem outputTyOf_of_arguments
    (resolved : pipeline.resolveFunction utilities mapping node = some callee)
    (found : pipeline.arguments types utilities mapping params generated node callee = some args) :
    pipeline.outputTyOf utilities mapping node = some (outputTy callee args) := by
  rw [outputTyOf, resolved, Option.map_some]
  unfold arguments at found
  split at found
  · rename_i source
    obtain ⟨indices, -, rfl⟩ := Option.map_eq_some_iff.mp found
    rw [if_pos source, outputTy]
    cases indices <;> cases callee.params.head?.bind (·.structRet) <;> rfl
  · rename_i source
    rw [if_neg source, outputTy]
    cases shape : callee.params with
    | nil => rfl
    | cons param rest =>
        rw [List.head?_cons, Option.bind_some]
        cases ret : param.structRet with
        | none => rfl
        | some structRet =>
            rw [shape, matchArgs_slot (by simp [ret])] at found
            obtain ⟨others, -, rfl⟩ := Option.map_eq_some_iff.mp found
            rfl

/-- The recorded outputs are those of the generated nodes. -/
def Tracks (utilities : Utilities) (mapping : Mapping Ty) (pipeline : Pipeline)
    (generated : List Name) (nodeOutputs : List (Name × Ty)) : Prop :=
  ∀ up, nodeOutputs.lookup up =
    if up ∈ generated then pipeline.outputTyOf utilities mapping up else none

omit [DecidableEq Ty] in
theorem Tracks.availableValues {nodeOutputs : List (Name × Ty)}
    (tracks : Tracks utilities mapping pipeline generated nodeOutputs) (node : Name) :
    pipeline.availableValues types utilities nodeOutputs node =
      pipeline.supply types utilities mapping generated node := by
  unfold Pipeline.availableValues supply
  congr 1
  funext up
  rw [tracks]
  by_cases member : up ∈ generated
  · cases outputTyOf utilities mapping pipeline up <;> simp only [if_pos member]
  · rw [if_neg member, if_neg member]

omit [DecidableEq Ty] in
theorem Tracks.skip {nodeOutputs : List (Name × Ty)}
    (tracks : Tracks utilities mapping pipeline generated nodeOutputs)
    (unknown : pipeline.resolveFunction utilities mapping node = none) :
    Tracks utilities mapping pipeline (generated ++ [node]) nodeOutputs := by
  intro up
  rw [tracks]
  by_cases here : up = node
  · simp [here, outputTyOf, unknown]
  · simp [here]

omit [DecidableEq Ty] in
theorem Tracks.record {nodeOutputs : List (Name × Ty)} {ty : Ty}
    (tracks : Tracks utilities mapping pipeline generated nodeOutputs)
    (known : pipeline.outputTyOf utilities mapping node = some ty) :
    Tracks utilities mapping pipeline (generated ++ [node]) ((node, ty) :: nodeOutputs) := by
  intro up
  rw [List.lookup_cons]
  by_cases here : up = node
  · simp [here, known]
  · have apart : (up == node) = false := by simpa using here
    rw [apart, tracks]
    simp [here]

/-- The generator emits the calls of the nodes in order and records their outputs. -/
theorem foldlM_generateNode (types : TypeSystem Ty) (params : List (Param Ty)) (body : Body Ty)
    (nodes : List Name)
    (tracks : Tracks utilities mapping pipeline generated body.nodeOutputs) :
    match pipeline.callsFrom types utilities mapping params generated nodes with
    | none => nodes.foldlM (pipeline.generateNode types utilities mapping params) body = none
    | some calls => ∃ nodeOutputs,
        nodes.foldlM (pipeline.generateNode types utilities mapping params) body =
            some { calls := body.calls ++ calls, nodeOutputs } ∧
          Tracks utilities mapping pipeline (generated ++ nodes) nodeOutputs := by
  induction nodes generalizing generated body with
  | nil => exact ⟨body.nodeOutputs, by simp, by simpa using tracks⟩
  | cons node nodes ih =>
      rw [callsFrom, List.foldlM_cons, generateNode]
      cases resolved : pipeline.resolveFunction utilities mapping node with
      | none =>
          have rest := ih body (tracks.skip resolved)
          simpa using rest
      | some callee =>
          have same : (if pipeline.isSource utilities node then
              (matchSourceNodeArgs params callee.params).map (·.map .arg)
            else matchArgs params callee.params
              (pipeline.availableValues types utilities body.nodeOutputs node)) =
                pipeline.arguments types utilities mapping params generated node callee := by
            rw [tracks.availableValues, arguments]
          simp only [same]
          cases found : pipeline.arguments types utilities mapping params generated node callee with
          | none => simp
          | some args =>
              have rest := ih
                { calls := body.calls ++ [(node, args)]
                  nodeOutputs := (node, outputTy callee args) :: body.nodeOutputs }
                (tracks.record (outputTyOf_of_arguments resolved found))
              simp only [Option.map_some, Option.bind_some, Option.bind_eq_bind]
              cases calls : pipeline.callsFrom types utilities mapping params (generated ++ [node])
                  nodes with
              | none => simpa [calls] using rest
              | some calls => simpa [calls] using rest

/-- A generated body has the calls of the nodes in order and returns the terminal output. -/
theorem generatePipelineBody_eq (func : ModuleFunction Ty) :
    pipeline.generatePipelineBody types utilities mapping func =
      (pipeline.callsFrom types utilities mapping func.params [] pipeline.order).bind fun calls =>
        (pipeline.generateReturn types func.returnTy
            (if pipeline.terminalNode ∈ pipeline.order then
              pipeline.outputTyOf utilities mapping pipeline.terminalNode else none)).map
          fun returned => { calls, returned } := by
  have spec := foldlM_generateNode types func.params { calls := [], nodeOutputs := [] }
    pipeline.order
    (show Tracks utilities mapping pipeline [] [] from fun up => rfl)
  unfold generatePipelineBody
  split at spec
  · rename_i missing
    rw [spec, missing]
    rfl
  · rename_i calls present
    obtain ⟨nodeOutputs, emitted, tracks⟩ := spec
    rw [emitted, present]
    simp only [Option.bind_some, List.nil_append]
    rw [tracks, List.nil_append]

theorem callsFrom_cons_of_unknown {nodes : List Name}
    (unknown : pipeline.resolveFunction utilities mapping node = none) :
    pipeline.callsFrom types utilities mapping params generated (node :: nodes) =
      pipeline.callsFrom types utilities mapping params (generated ++ [node]) nodes := by
  rw [callsFrom, unknown]

theorem callsFrom_cons_of_resolved {nodes : List Name}
    (resolved : pipeline.resolveFunction utilities mapping node = some callee)
    {calls : List (Name × List Operand)} :
    pipeline.callsFrom types utilities mapping params generated (node :: nodes) = some calls ↔
      ∃ args later,
        pipeline.arguments types utilities mapping params generated node callee = some args ∧
          pipeline.callsFrom types utilities mapping params (generated ++ [node]) nodes =
            some later ∧ calls = (node, args) :: later := by
  rw [callsFrom, resolved]
  simp only [Option.bind_eq_some_iff, Option.map_eq_some_iff]
  exact ⟨fun ⟨args, found, later, rest, same⟩ => ⟨args, later, found, rest, same.symm⟩,
    fun ⟨args, later, found, rest, same⟩ => ⟨args, found, later, rest, same.symm⟩⟩

/-- The calls of nodes are found where the arguments of each are. -/
theorem callsFrom_isSome_iff {nodes : List Name} :
    (pipeline.callsFrom types utilities mapping params generated nodes).isSome ↔
      ∀ before node after callee, nodes = before ++ node :: after →
        pipeline.resolveFunction utilities mapping node = some callee →
          (pipeline.arguments types utilities mapping params (generated ++ before) node
            callee).isSome := by
  induction nodes generalizing generated with
  | nil => simp [callsFrom]
  | cons first nodes ih =>
      have later (rest : (pipeline.callsFrom types utilities mapping params (generated ++ [first])
          nodes).isSome) {before after : List Name} {node : Name} {callee : ModuleFunction Ty}
          (split : nodes = before ++ node :: after)
          (resolved : pipeline.resolveFunction utilities mapping node = some callee) :
          (pipeline.arguments types utilities mapping params (generated ++ first :: before) node
            callee).isSome := by
        have found := ih.mp rest before node after callee split resolved
        rwa [List.append_assoc, List.singleton_append] at found
      have shift (all : ∀ before node after callee, first :: nodes = before ++ node :: after →
          pipeline.resolveFunction utilities mapping node = some callee →
            (pipeline.arguments types utilities mapping params (generated ++ before) node
              callee).isSome) :
          (pipeline.callsFrom types utilities mapping params (generated ++ [first])
            nodes).isSome := by
        refine ih.mpr fun before node after callee split resolved => ?_
        have found := all (first :: before) node after callee (by rw [split]; rfl) resolved
        rwa [List.append_assoc, List.singleton_append]
      rw [callsFrom]
      cases resolved : pipeline.resolveFunction utilities mapping first with
      | none =>
          refine ⟨fun rest before node after callee split known => ?_, shift⟩
          rcases List.cons_eq_append_iff.mp split with ⟨rfl, here⟩ | ⟨before, rfl, inside⟩
          · cases here
            cases resolved.symm.trans known
          · exact later rest inside known
      | some callee =>
          simp only
          cases found : pipeline.arguments types utilities mapping params generated first callee with
          | none =>
              refine iff_of_false (by simp) fun all => ?_
              have missing := all [] first nodes callee rfl resolved
              rw [List.append_nil, found] at missing
              cases missing
          | some args =>
              rw [Option.bind_some, Option.isSome_map]
              refine ⟨fun rest before node after callee split known => ?_, shift⟩
              rcases List.cons_eq_append_iff.mp split with ⟨rfl, here⟩ | ⟨before, rfl, inside⟩
              · cases here
                obtain rfl := Option.some.inj (resolved.symm.trans known)
                rw [List.append_nil, found]
                rfl
              · exact later rest inside known

end Pipeline

end PipelineCodeGen
end TopoLlvm
