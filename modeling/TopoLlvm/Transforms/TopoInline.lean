import TopoLlvm.Backend.IREmbed
import TopoLlvm.Library.BackEdges

/-!
# Inlining by visibility

`TopoInlinePass` adds inline attributes: first by the visibility and the number of call sites of a
function, then to all private functions that a pipeline calls and that its search of the call graph
has not found to be recursive.
-/

namespace TopoLlvm
namespace TopoInline

open TopoLlvm.Backend

/-- The inline attributes of a function. -/
structure InlineAttrs where
  alwaysInline : Bool
  inlineHint : Bool
  noInline : Bool
  deriving DecidableEq

def InlineAttrs.any (attrs : InlineAttrs) : Bool :=
  attrs.alwaysInline || attrs.inlineHint || attrs.noInline

structure TopoInlineEntry where
  callee : Name
  reason : Name
  deriving DecidableEq

/-- What the pass changes; the report may be absent. -/
structure State where
  attrs : FunctionId → InlineAttrs
  annotated : Nat
  report : Option (List TopoInlineEntry)

/-- The order in which an `unordered_map` or an `unordered_set` is walked. -/
structure Iteration where
  order : List FunctionId → List FunctionId
  perm : ∀ ids, (order ids).Perm ids

section Module

variable (module : IRModule)

def isDeclaration (id : FunctionId) : Bool := (module.find? id).all (·.isDeclaration)

/-- The defined functions that a function calls directly, in the order of the calls. -/
def callees (id : FunctionId) : List FunctionId :=
  match module.find? id with
  | none => []
  | some func =>
      if func.isDeclaration then []
      else func.callees.filter fun callee => !isDeclaration module callee

/-- The number of call sites of a function. -/
def callCount (id : FunctionId) : Nat :=
  ((module.functions.filter fun func => !func.isDeclaration).flatMap fun func =>
    func.callees.filter fun callee => !isDeclaration module callee).count id

/-- Add the callees of a function, and those that are found to be recursive. -/
def collectTransitiveCallees (root : FunctionId) (sets : List FunctionId × List FunctionId) :
    List FunctionId × List FunctionId :=
  let search := BackEdges.run (callees module) (module.functions.map (·.id)) root sets.1 sets.2
  (search.reached, search.marked)

end Module

section Pass

variable (module : IRModule) (entries : List VisibilityEntry) (mapping : SymbolMapping)

/-- The visibilities of the functions that entries are matched with. -/
def funcVis : AList fun _ : FunctionId => Visibility :=
  entries.foldl (fun map entry =>
    match mapping.matched.lookup entry.qualifiedName with
    | some id => map.insert id entry.visibility
    | none => map) ∅

def funcQualName : AList fun _ : FunctionId => Name :=
  entries.foldl (fun map entry =>
    match mapping.matched.lookup entry.qualifiedName with
    | some id => map.insert id entry.qualifiedName
    | none => map) ∅

/-- The name of a function in the report. -/
def calleeName (id : FunctionId) : Name :=
  ((funcQualName entries mapping).lookup id).getD (((module.find? id).map (·.name)).getD [])

/-- Give a function new attributes, for a reason. -/
def State.annotate (state : State) (id : FunctionId) : Option (InlineAttrs × Name) → State
  | none => state
  | some (attrs, reason) =>
      { attrs := Function.update state.attrs id attrs
        annotated := state.annotated + 1
        report := state.report.map fun entries' =>
          entries' ++ [{ callee := calleeName module entries mapping id, reason }] }

/-- Decide on functions, one after the other. -/
def State.annotateAll (choose : FunctionId → InlineAttrs → Option (InlineAttrs × Name))
    (ids : List FunctionId) (state : State) : State :=
  ids.foldl (fun state id => state.annotate module entries mapping id (choose id (state.attrs id)))
    state

/-- The first step; `atLeastO2` is `level >= OptLevel::O2`. -/
def byVisibility (atLeastO2 : Bool) (id : FunctionId) (attrs : InlineAttrs) :
    Option (InlineAttrs × Name) :=
  match (funcVis entries mapping).lookup id with
  | none => none
  | some vis =>
      if isDeclaration module id || attrs.any then none
      else match vis with
        | .isInternal => some ({ attrs with alwaysInline := true }, "internal".toList)
        | .isPrivate =>
            if callCount module id ≤ 1 then
              some ({ attrs with alwaysInline := true }, "private_single_caller".toList)
            else some ({ attrs with inlineHint := true }, "private_multi_caller".toList)
        | .isProtected =>
            if atLeastO2 then some ({ attrs with inlineHint := true }, "protected".toList) else none
        | _ => none

/-- The second step, for a callee of a pipeline. -/
def ofFunctor (recursive : List FunctionId) (id : FunctionId) (attrs : InlineAttrs) :
    Option (InlineAttrs × Name) :=
  if id ∈ recursive || isDeclaration module id then none
  else match (funcVis entries mapping).lookup id with
    | some .isPrivate | some .isInternal =>
        if attrs.alwaysInline then none
        else some ({ attrs with alwaysInline := true, inlineHint := false },
          "pipeline_functor".toList)
    | _ => none

variable (symbols : Option (List LogicBlock))

/-- The defined functions of the pipelines; without symbols there are none. -/
def functors : List FunctionId :=
  (symbols.getD []).filterMap fun block =>
    if block.isPipeline then
      (mapping.matched.lookup block.qualifiedName).filter fun id => !isDeclaration module id
    else none

/-- `functorCallees` and `recursive`. -/
def functorSets : List FunctionId × List FunctionId :=
  (functors module mapping symbols).foldl
    (fun sets root => collectTransitiveCallees module root sets) ([], [])

/-- `TopoInlinePass::run`, from the attributes there are and an empty report, if any. -/
def run (iteration : Iteration) (atLeastO2 : Bool) (attrs : FunctionId → InlineAttrs)
    (report : Option (List TopoInlineEntry)) : State :=
  let annotated := State.annotateAll module entries mapping
    (byVisibility module entries mapping atLeastO2)
    (iteration.order (funcVis entries mapping).keys) { attrs, annotated := 0, report }
  let sets := functorSets module mapping symbols
  annotated.annotateAll module entries mapping
    (ofFunctor module entries mapping sets.2) (iteration.order sets.1)

/-- One function calls another directly. -/
def Calls (caller callee : FunctionId) : Prop := callee ∈ callees module caller

def OnCycle (id : FunctionId) : Prop := Relation.TransGen (Calls module) id id

/-- A pipeline calls the function, directly or not. -/
def Reached (id : FunctionId) : Prop :=
  ∃ functor ∈ functors module mapping symbols, Relation.ReflTransGen (Calls module) functor id

/-- All functions on cycles that a pipeline calls are found, and none on any cycle is newly forced
to be inlined. -/
def ForcesNoRecursion (iteration : Iteration) (atLeastO2 : Bool)
    (attrs : FunctionId → InlineAttrs) (report : Option (List TopoInlineEntry)) : Prop :=
  (∀ id, OnCycle module id → Reached module mapping symbols id →
    id ∈ (functorSets module mapping symbols).2) ∧
  ∀ id, OnCycle module id →
    ((run module entries mapping symbols iteration atLeastO2 attrs report).attrs id).alwaysInline =
      true → (attrs id).alwaysInline = true

/-- Every function on a cycle that a pipeline calls has a call back to its first path from one, or
is called back on the path of its caller; and without an inline attribute, no function on a cycle
is internal, or private with one call site. -/
structure CyclesSpared (attrs : FunctionId → InlineAttrs) : Prop where
  found : ∀ id, OnCycle module id → Reached module mapping symbols id →
    ∃ functor ∈ functors module mapping symbols,
      BackEdges.OnBackEdge (callees module) functor id
  isInternal : ∀ id, OnCycle module id → (attrs id).any = false →
    (funcVis entries mapping).lookup id ≠ some .isInternal
  isPrivate : ∀ id, OnCycle module id → (attrs id).any = false →
    (funcVis entries mapping).lookup id = some .isPrivate → 1 < callCount module id

end Pass

/-! ## The call graph -/

section Graph

variable {module : IRModule} {mapping : SymbolMapping} {symbols : Option (List LogicBlock)}
  {id root : FunctionId}

theorem mem_of_defined (defined : isDeclaration module id = false) :
    id ∈ module.functions.map (·.id) := by
  unfold isDeclaration at defined
  cases found : module.find? id with
  | none =>
      rw [found] at defined
      cases defined
  | some func =>
      obtain ⟨member, rfl⟩ := IRModule.find?_eq_some_iff.mp found
      exact List.mem_map_of_mem member

theorem callees_defined {callee : FunctionId} (calls : callee ∈ callees module id) :
    isDeclaration module callee = false := by
  unfold callees at calls
  split at calls
  · cases calls
  · split at calls
    · cases calls
    · simpa using (List.mem_filter.mp calls).2

theorem functors_defined (member : root ∈ functors module mapping symbols) :
    isDeclaration module root = false := by
  obtain ⟨block, -, found⟩ := List.mem_filterMap.mp member
  split at found
  · simpa using (Option.filter_eq_some_iff.mp found).2
  · cases found

theorem defined_of_onCycle (cycle : OnCycle module id) : isDeclaration module id = false := by
  obtain ⟨caller, -, calls⟩ := Relation.TransGen.tail'_iff.mp cycle
  exact callees_defined calls

theorem collectTransitiveCallees_spec (defined : isDeclaration module root = false)
    (sets : List FunctionId × List FunctionId) :
    (∀ id, id ∈ (collectTransitiveCallees module root sets).2 ↔
      id ∈ sets.2 ∨ BackEdges.OnBackEdge (callees module) root id) ∧
    ∀ id ∈ (collectTransitiveCallees module root sets).1,
      id ∈ sets.1 ∨ Relation.TransGen (Calls module) root id := by
  have complete (id : FunctionId) : callees module id ⊆ module.functions.map (·.id) :=
    fun _ calls => mem_of_defined (callees_defined calls)
  exact (BackEdges.run_spec complete (mem_of_defined defined) sets.1 sets.2).2

variable (module mapping symbols) in
/-- The search of all pipelines. -/
theorem functorSets_spec :
    (∀ id, id ∈ (functorSets module mapping symbols).2 ↔
      ∃ functor ∈ functors module mapping symbols,
        BackEdges.OnBackEdge (callees module) functor id) ∧
    ∀ id ∈ (functorSets module mapping symbols).1, Reached module mapping symbols id := by
  have fold (roots : List FunctionId) (sets : List FunctionId × List FunctionId)
      (defined : ∀ root ∈ roots, isDeclaration module root = false) :
      let after := roots.foldl (fun sets root => collectTransitiveCallees module root sets) sets
      (∀ id, id ∈ after.2 ↔ id ∈ sets.2 ∨
        ∃ root ∈ roots, BackEdges.OnBackEdge (callees module) root id) ∧
      ∀ id ∈ after.1, id ∈ sets.1 ∨ ∃ root ∈ roots, Relation.TransGen (Calls module) root id := by
    induction roots generalizing sets with
    | nil => simp
    | cons root roots ih =>
        rw [List.forall_mem_cons] at defined
        obtain ⟨marks, reaches⟩ := collectTransitiveCallees_spec defined.1 sets
        obtain ⟨marked, reached⟩ := ih (collectTransitiveCallees module root sets) defined.2
        rw [List.foldl_cons]
        refine ⟨fun id => ?_, fun id member => ?_⟩
        · rw [marked, marks]
          simp [or_assoc]
        · rcases reached id member with old | ⟨other, inside, calls⟩
          · rcases reaches id old with older | calls
            · exact .inl older
            · exact .inr ⟨root, List.mem_cons_self, calls⟩
          · exact .inr ⟨other, List.mem_cons_of_mem _ inside, calls⟩
  obtain ⟨marked, reached⟩ := fold (functors module mapping symbols) ([], [])
    fun _ => functors_defined
  refine ⟨fun id => ?_, fun id member => ?_⟩
  · rw [functorSets, marked]
    simp
  · obtain ⟨functor, inside, calls⟩ := (reached id member).resolve_left List.not_mem_nil
    exact ⟨functor, inside, calls.to_reflTransGen⟩

end Graph

/-! ## Attributes -/

section Attributes

variable {module : IRModule} {entries : List VisibilityEntry} {mapping : SymbolMapping}
  {id : FunctionId}

/-- Where a decision is taken at most once, every function gets its own. -/
theorem annotateAll_attrs {choose : FunctionId → InlineAttrs → Option (InlineAttrs × Name)}
    (settled : ∀ id attrs chosen, choose id attrs = some chosen → choose id chosen.1 = none)
    (ids : List FunctionId) (state : State) :
    (state.annotateAll module entries mapping choose ids).attrs id =
      if id ∈ ids then ((choose id (state.attrs id)).map (·.1)).getD (state.attrs id)
      else state.attrs id := by
  induction ids generalizing state with
  | nil => rfl
  | cons first ids ih =>
      rw [State.annotateAll, List.foldl_cons]
      refine (ih _).trans ?_
      by_cases same : id = first
      · subst same
        cases chosen : choose id (state.attrs id) with
        | none => simp [State.annotate, chosen]
        | some attrs =>
            have again := settled id _ attrs chosen
            simp [State.annotate, again]
      · have kept : (state.annotate module entries mapping first
            (choose first (state.attrs first))).attrs id = state.attrs id := by
          cases choose first (state.attrs first) with
          | none => rfl
          | some chosen => exact Function.update_of_ne same ..
        simp [kept, same]

theorem byVisibility_settled {atLeastO2 : Bool} (attrs : InlineAttrs) (chosen : InlineAttrs × Name)
    (choice : byVisibility module entries mapping atLeastO2 id attrs = some chosen) :
    byVisibility module entries mapping atLeastO2 id chosen.1 = none := by
  have annotated : chosen.1.any = true := by
    unfold byVisibility at choice
    split at choice
    · cases choice
    · split at choice
      · cases choice
      · split at choice
        · cases choice
          simp [InlineAttrs.any]
        · split at choice <;> cases choice <;> simp [InlineAttrs.any]
        · split at choice <;> cases choice
          simp [InlineAttrs.any]
        · cases choice
  unfold byVisibility
  split
  · rfl
  · simp [annotated]

theorem ofFunctor_forced {recursive : List FunctionId} {attrs : InlineAttrs}
    (forced : attrs.alwaysInline = true) :
    ofFunctor module entries mapping recursive id attrs = none := by
  unfold ofFunctor
  split
  · rfl
  · split <;> rfl

theorem ofFunctor_settled {recursive : List FunctionId} (attrs : InlineAttrs)
    (chosen : InlineAttrs × Name)
    (choice : ofFunctor module entries mapping recursive id attrs = some chosen) :
    ofFunctor module entries mapping recursive id chosen.1 = none := by
  refine ofFunctor_forced ?_
  unfold ofFunctor at choice
  split at choice
  · cases choice
  · split at choice
    · split at choice <;> cases choice
      rfl
    · split at choice <;> cases choice
      rfl
    · cases choice

/-- The first step forces a function to be inlined that is internal, or private with one call
site. -/
theorem forced_byVisibility {atLeastO2 : Bool} {attrs : InlineAttrs}
    (fresh : attrs.alwaysInline = false)
    (forced : (((byVisibility module entries mapping atLeastO2 id attrs).map (·.1)).getD
      attrs).alwaysInline = true) :
    attrs.any = false ∧ ((funcVis entries mapping).lookup id = some .isInternal ∨
      (funcVis entries mapping).lookup id = some .isPrivate ∧ callCount module id ≤ 1) := by
  unfold byVisibility at forced
  split at forced
  · exact absurd (fresh.symm.trans forced) Bool.false_ne_true
  · rename_i vis known
    split at forced
    · exact absurd (fresh.symm.trans forced) Bool.false_ne_true
    · rename_i open'
      rw [Bool.or_eq_true, not_or] at open'
      refine ⟨Bool.eq_false_iff.mpr open'.2, ?_⟩
      rw [known]
      split at forced
      · exact .inl rfl
      · split at forced
        · rename_i few
          exact .inr ⟨rfl, few⟩
        · exact absurd (fresh.symm.trans forced) Bool.false_ne_true
      · split at forced <;> exact absurd (fresh.symm.trans forced) Bool.false_ne_true
      · exact absurd (fresh.symm.trans forced) Bool.false_ne_true

theorem byVisibility_forces (atLeastO2 : Bool) {attrs : InlineAttrs} (fresh : attrs.any = false)
    (defined : isDeclaration module id = false)
    (private' : (funcVis entries mapping).lookup id = some .isInternal ∨
      (funcVis entries mapping).lookup id = some .isPrivate ∧ callCount module id ≤ 1) :
    (((byVisibility module entries mapping atLeastO2 id attrs).map (·.1)).getD
      attrs).alwaysInline = true := by
  unfold byVisibility
  rcases private' with known | ⟨known, few⟩
  · simp [known, fresh, defined]
  · simp [known, fresh, defined, few]

variable {symbols : Option (List LogicBlock)} {iteration : Iteration} {atLeastO2 : Bool}
  {attrs : FunctionId → InlineAttrs} {report : Option (List TopoInlineEntry)}

theorem mem_order {ids : List FunctionId} : id ∈ iteration.order ids ↔ id ∈ ids :=
  (iteration.perm ids).mem_iff

theorem mem_keys : id ∈ (funcVis entries mapping).keys ↔
    ((funcVis entries mapping).lookup id).isSome :=
  AList.lookup_isSome.symm

/-- The attributes of a function after both steps. -/
theorem run_attrs :
    (run module entries mapping symbols iteration atLeastO2 attrs report).attrs id =
      let first := ((byVisibility module entries mapping atLeastO2 id (attrs id)).map (·.1)).getD
        (attrs id)
      let sets := functorSets module mapping symbols
      if id ∈ sets.1 then
        ((ofFunctor module entries mapping sets.2 id first).map (·.1)).getD first
      else first := by
  have visible : ((State.annotateAll module entries mapping
      (byVisibility module entries mapping atLeastO2)
      (iteration.order (funcVis entries mapping).keys)
      { attrs, annotated := 0, report }).attrs id) =
        ((byVisibility module entries mapping atLeastO2 id (attrs id)).map (·.1)).getD
          (attrs id) := by
    rw [annotateAll_attrs fun id => byVisibility_settled]
    split
    · rfl
    · rename_i absent
      rw [mem_order, mem_keys, Option.not_isSome_iff_eq_none] at absent
      simp [byVisibility, absent]
  rw [run, annotateAll_attrs fun id => ofFunctor_settled, visible]
  simp only [mem_order]

/-- The second step forces no function to be inlined that is found to be recursive. -/
theorem ofFunctor_recursive {recursive : List FunctionId} (found : id ∈ recursive)
    (attrs : InlineAttrs) : ofFunctor module entries mapping recursive id attrs = none := by
  simp [ofFunctor, found]

end Attributes

/-- **Recursion is not forced to be inlined** exactly where cycles are spared. -/
theorem forcesNoRecursion_iff (module : IRModule) (entries : List VisibilityEntry)
    (mapping : SymbolMapping) (symbols : Option (List LogicBlock)) (iteration : Iteration)
    (atLeastO2 : Bool) (attrs : FunctionId → InlineAttrs)
    (report : Option (List TopoInlineEntry)) :
    ForcesNoRecursion module entries mapping symbols iteration atLeastO2 attrs report ↔
      CyclesSpared module entries mapping symbols attrs := by
  obtain ⟨marked, reached⟩ := functorSets_spec module mapping symbols
  constructor
  · rintro ⟨found, spared⟩
    have unforced (id : FunctionId) (cycle : OnCycle module id) (fresh : (attrs id).any = false) :
        ¬ ((funcVis entries mapping).lookup id = some .isInternal ∨
          (funcVis entries mapping).lookup id = some .isPrivate ∧ callCount module id ≤ 1) := by
      intro private'
      have forced := byVisibility_forces atLeastO2 fresh (defined_of_onCycle cycle) private'
      have always := spared id cycle <| by
        rw [run_attrs]
        dsimp only
        split
        · rw [ofFunctor_forced forced]
          exact forced
        · exact forced
      simp [InlineAttrs.any, always] at fresh
    refine ⟨fun id cycle reached => (marked id).mp (found id cycle reached), ?_, ?_⟩
    · exact fun id cycle fresh known => unforced id cycle fresh (.inl known)
    · intro id cycle fresh known
      by_contra few
      exact unforced id cycle fresh (.inr ⟨known, Nat.not_lt.mp few⟩)
  · intro spared
    have found (id : FunctionId) (cycle : OnCycle module id)
        (reached : Reached module mapping symbols id) :
        id ∈ (functorSets module mapping symbols).2 :=
      (marked id).mpr (spared.found id cycle reached)
    refine ⟨found, fun id cycle forced => ?_⟩
    by_contra open'
    rw [Bool.not_eq_true] at open'
    have first : (((byVisibility module entries mapping atLeastO2 id (attrs id)).map (·.1)).getD
        (attrs id)).alwaysInline = true := by
      rw [run_attrs] at forced
      dsimp only at forced
      split at forced
      · rename_i member
        rw [ofFunctor_recursive (found id cycle (reached id member))] at forced
        exact forced
      · exact forced
    obtain ⟨fresh, isInternal | ⟨isPrivate, few⟩⟩ := forced_byVisibility open' first
    · exact spared.isInternal id cycle fresh isInternal
    · exact absurd few (Nat.not_le.mpr (spared.isPrivate id cycle fresh isPrivate))

/-- Containers that are walked in their order. -/
def Iteration.inOrder : Iteration := ⟨id, fun _ => .refl _⟩

/-- A pipeline calls a private function, this a public one, and this the pipeline. -/
def ring : IRModule where
  functions :=
    [⟨0, "run".toList, false, .external, [1]⟩, ⟨1, "step".toList, false, .external, [2]⟩,
      ⟨2, "next".toList, false, .external, [0]⟩]
  distinct := by decide

def ringMapping : SymbolMapping where
  matched := (AList.singleton "run".toList 0).insert "step".toList 1
  unmatchedTopo := []
  unmatchedIR := []

/-- The search finds only the two ends of the call back to the pipeline, and the function between
is forced to be inlined. -/
theorem ring_forced :
    let entries : List VisibilityEntry := [⟨"step".toList, .isPrivate, none⟩]
    let symbols := some [⟨"run".toList, true, ["step".toList]⟩]
    let plain : FunctionId → InlineAttrs := fun _ => ⟨false, false, false⟩
    (functorSets ring ringMapping symbols).2 = [2, 0] ∧
      (run ring entries ringMapping symbols .inOrder true plain none).attrs 1 =
        ⟨true, false, false⟩ ∧
      ¬ ForcesNoRecursion ring entries ringMapping symbols .inOrder true plain none := by
  intro entries symbols plain
  have forced : (run ring entries ringMapping symbols .inOrder true plain none).attrs 1 =
      ⟨true, false, false⟩ := by decide
  refine ⟨by decide, forced, fun spared => ?_⟩
  have cycle : OnCycle ring 1 := by
    have first : Calls ring 1 2 := by unfold Calls; decide
    have second : Calls ring 2 0 := by unfold Calls; decide
    have third : Calls ring 0 1 := by unfold Calls; decide
    exact .tail (.tail (.single first) second) third
  have always := spared.2 1 cycle (by rw [forced])
  cases always

end TopoInline
end TopoLlvm
