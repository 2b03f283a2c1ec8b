import TopoLlvm.Backend.IREmbed

/-!
# The engine's lookup of matched functions

The engine finds functions of the embedded module by what their symbols spell.  An entry that the
mapper matched by another route, such as a suffix, a binding or a simple name, is not found again,
and of several functions that spell one name the last one counts.
-/

namespace TopoLlvm
namespace Backend

variable (tools : Toolchain)

/-- The mapping that `doSpecializeImpl` builds over the embedded module. -/
def jitMapping (embedded : List IRFunction) : FunctionMap :=
  embedded.foldl (fun matched func =>
    let demangled := demangleQualified tools.toDemangler func.name
    if demangled = [] then matched else matched.insert demangled func.id) ∅

/-- The function whose mangled name the engine takes for the pipeline. -/
def findPipelineFunction (embedded : List IRFunction) (pipelineName : Name) : Option IRFunction :=
  embedded.find? fun func =>
    !func.isDeclaration && demangleQualified tools.toDemangler func.name = pipelineName

/-- The name of a pipeline. -/
def IsPipeline (blocks : List LogicBlock) (name : Name) : Prop :=
  ∃ block ∈ blocks, block.isPipeline = true ∧ block.qualifiedName = name

/-- The name of a stage of a pipeline. -/
def IsStage (blocks : List LogicBlock) (name : Name) : Prop :=
  ∃ block ∈ blocks, block.isPipeline = true ∧ name ∈ block.calledFunctions

/-- The engine's lookups find the function under the name. -/
def JitAgrees (embedded : List IRFunction) (blocks : List LogicBlock) (name : Name)
    (func : FunctionId) : Prop :=
  (jitMapping tools embedded).lookup name = some func ∧
    (IsPipeline blocks name →
      (findPipelineFunction tools embedded name).map (·.id) = some func)

/-- The symbol of the function spells the name, and no later symbol of the embedded module does;
for the name of a pipeline the function has a body, and no earlier symbol of a body does either. -/
def SpellsAlone (embedded : List IRFunction) (blocks : List LogicBlock) (name : Name)
    (id : FunctionId) : Prop :=
  ∃ before func after, embedded = before ++ func :: after ∧ func.id = id ∧
    Spells tools.toDemangler func.name name ∧
    (∀ later ∈ after, ¬ Spells tools.toDemangler later.name name) ∧
    (IsPipeline blocks name → func.isDeclaration = false ∧
      ∀ earlier ∈ before, earlier.isDeclaration = false →
        ¬ Spells tools.toDemangler earlier.name name)

variable {tools} {embedded : List IRFunction} {blocks : List LogicBlock} {name : Name}
  {id : FunctionId}

/-- A list that ends with an element is split there or before. -/
theorem concat_eq_append_cons {functions before after : List IRFunction}
    {last func : IRFunction} : functions ++ [last] = before ++ func :: after ↔
      (before = functions ∧ func = last ∧ after = []) ∨
        ∃ rest, after = rest ++ [last] ∧ functions = before ++ func :: rest := by
  constructor
  · intro split
    rcases List.eq_nil_or_concat' after with rfl | ⟨rest, final, rfl⟩
    · obtain ⟨front, same⟩ := List.append_inj' split rfl
      exact .inl ⟨front.symm, (List.singleton_inj.mp same).symm, rfl⟩
    · rw [← List.cons_append, ← List.append_assoc] at split
      obtain ⟨front, same⟩ := List.append_inj' split rfl
      exact .inr ⟨rest, by rw [same], front⟩
  · rintro (⟨rfl, rfl, rfl⟩ | ⟨rest, rfl, rfl⟩)
    · rfl
    · simp

/-- A name that is not empty is found where the last function spells it. -/
theorem lookup_jitMapping (nonempty : name ≠ []) :
    (jitMapping tools embedded).lookup name = some id ↔
      ∃ before func after, embedded = before ++ func :: after ∧ func.id = id ∧
        Spells tools.toDemangler func.name name ∧
        ∀ later ∈ after, ¬ Spells tools.toDemangler later.name name := by
  induction embedded using List.reverseRecOn with
  | nil => simp [jitMapping]
  | append_singleton functions last ih =>
      rw [jitMapping, List.foldl_append, List.foldl_cons, List.foldl_nil, ← jitMapping]
      by_cases here : Spells tools.toDemangler last.name name
      · rw [(demangleQualified_eq_iff _ _ nonempty).mpr here, if_neg nonempty,
          AList.lookup_insert]
        constructor
        · rintro ⟨⟩
          exact ⟨functions, last, [], rfl, rfl, here, nofun⟩
        · rintro ⟨before, func, after, split, rfl, -, others⟩
          rcases concat_eq_append_cons.mp split with ⟨-, rfl, -⟩ | ⟨rest, rfl, -⟩
          · rfl
          · exact absurd here (others last (by simp))
      · have kept : (if demangleQualified tools.toDemangler last.name = [] then
            jitMapping tools functions
          else (jitMapping tools functions).insert
            (demangleQualified tools.toDemangler last.name) last.id).lookup name =
              (jitMapping tools functions).lookup name := by
          split
          · rfl
          · refine AList.lookup_insert_ne fun same => here ?_
            exact (demangleQualified_eq_iff _ _ nonempty).mp same.symm
        rw [kept, ih]
        constructor
        · rintro ⟨before, func, after, rfl, same, spells, others⟩
          refine ⟨before, func, after ++ [last], by simp, same, spells, fun later member => ?_⟩
          rcases List.mem_append.mp member with old | new
          · exact others later old
          · exact List.mem_singleton.mp new ▸ here
        · rintro ⟨before, func, after, split, same, spells, others⟩
          rcases concat_eq_append_cons.mp split with ⟨-, rfl, -⟩ | ⟨rest, rfl, rfl⟩
          · exact absurd spells here
          · exact ⟨before, func, rest, rfl, same, spells, fun later member =>
              others later (List.mem_append_left _ member)⟩

/-- The empty name is never found. -/
theorem lookup_jitMapping_nil : (jitMapping tools embedded).lookup [] = none := by
  refine List.foldlRecOn (motive := fun map : FunctionMap => map.lookup [] = none) _ _ rfl
    fun map absent func _ => ?_
  simp only
  split
  · exact absent
  · rename_i nonempty
    rw [AList.lookup_insert_ne (Ne.symm nonempty)]
    exact absent

/-- The pipeline function is the first body that spells the name. -/
theorem findPipelineFunction_eq_some (nonempty : name ≠ []) {func : IRFunction} :
    findPipelineFunction tools embedded name = some func ↔
      func.isDeclaration = false ∧ Spells tools.toDemangler func.name name ∧
        ∃ before after, embedded = before ++ func :: after ∧
          ∀ earlier ∈ before, earlier.isDeclaration = false →
            ¬ Spells tools.toDemangler earlier.name name := by
  rw [findPipelineFunction, List.find?_eq_some_iff_append]
  simp [demangleQualified_eq_iff _ _ nonempty, and_assoc, imp_iff_not_or]

/-- The engine finds a function of a module with distinct functions exactly where its symbol
spells the name alone. -/
theorem jitAgrees_iff (distinct : (embedded.map (·.id)).Nodup) :
    JitAgrees tools embedded blocks name id ↔ SpellsAlone tools embedded blocks name id := by
  unfold JitAgrees SpellsAlone
  by_cases empty : name = []
  · subst empty
    constructor
    · rintro ⟨found, -⟩
      cases lookup_jitMapping_nil.symm.trans found
    · rintro ⟨-, -, -, -, -, ⟨nonempty, -⟩, -⟩
      exact absurd rfl nonempty
  · rw [lookup_jitMapping empty]
    constructor
    · rintro ⟨⟨before, func, after, rfl, same, spells, later⟩, pipeline⟩
      refine ⟨before, func, after, rfl, same, spells, later, fun isPipeline => ?_⟩
      obtain ⟨first, found, firstId⟩ := Option.map_eq_some_iff.mp (pipeline isPipeline)
      obtain ⟨body, -, front, back, split, earlier⟩ :=
        (findPipelineFunction_eq_some empty).mp found
      -- Distinct functions stand at one place.
      obtain rfl : first = func := List.inj_on_of_nodup_map distinct (by simp [split])
        (by simp) (firstId.trans same.symm)
      have place : before.length = front.length := by
        refine (List.getElem?_inj (by simp) distinct.of_map).mp ?_
        rw [List.getElem?_append_right (Nat.le_refl _), split,
          List.getElem?_append_right (Nat.le_refl _)]
        simp
      exact ⟨body, (List.append_inj split place).1 ▸ earlier⟩
    · rintro ⟨before, func, after, rfl, same, spells, later, pipeline⟩
      refine ⟨⟨before, func, after, rfl, same, spells, later⟩, fun isPipeline => ?_⟩
      obtain ⟨body, earlier⟩ := pipeline isPipeline
      rw [(findPipelineFunction_eq_some empty).mpr
        ⟨body, spells, before, after, rfl, earlier⟩]
      exact congrArg some same

/-- The engine maps a matched name to its function exactly where the function's symbol in the
embedded module spells the name alone; functions of pipelines and stages are embedded. -/
theorem jit_finds_matched (tools : Toolchain) (module : IRModule) (entries : List VisibilityEntry)
    (actions : List VisibilityAction) (blocks : List LogicBlock) {name : Name} {id : FunctionId}
    (matched : (mapSymbols tools module entries).matched.lookup name = some id) :
    (JitAgrees tools (embeddedIR tools module entries actions blocks) blocks name id ↔
        SpellsAlone tools (embeddedIR tools module entries actions blocks) blocks name id) ∧
      (IsPipeline blocks name ∨ IsStage blocks name →
        ∃ func ∈ embeddedIR tools module entries actions blocks, func.id = id) := by
  refine ⟨jitAgrees_iff (serializePreCodegenIR_distinct _ blocks _), fun known => ?_⟩
  obtain ⟨func, member, rfl, defined⟩ :=
    allDefined_mapSymbols tools module entries name id matched
  obtain ⟨visible, inside, same, body⟩ : (applyVisibility tools module
      (mapSymbols tools module entries) entries actions).Retains func :=
    retains_applyVisibility entries actions member
  rw [← same] at matched ⊢
  rcases known with ⟨block, known, pipeline, rfl⟩ | ⟨block, known, pipeline, called⟩
  · exact ⟨visible, stub_embedded known pipeline inside (body.trans defined) matched, rfl⟩
  · obtain ⟨copy, embedded, copyId, -⟩ := stage_embedded known pipeline called inside matched
    exact ⟨copy, embedded, copyId⟩

/-- A toolchain whose demangler knows one pipeline and one of its stages. -/
def sampleTools : Toolchain where
  demangle name :=
    if name = "_ZN2ns3runEv".toList then "ns::run()".toList
    else if name = "_ZN2ns4loadEi".toList then "ns::load(int)".toList
    else name
  microsoftDemangle _ := none
  iterate map := map.entries.map fun entry => (entry.1, entry.2)
  mem_iterate map entry := by
    obtain ⟨key, func⟩ := entry
    rw [← Option.mem_def, AList.mem_lookup_iff]
    constructor
    · intro member
      obtain ⟨⟨_, _⟩, inside, same⟩ := List.mem_map.mp member
      cases same
      exact inside
    · exact fun inside => List.mem_map.mpr ⟨⟨key, func⟩, inside, rfl⟩
  uniqueName _ name := name
  uniqueName_free _ _ _ := rfl

/-- A pipeline, a stage with a C++ name and a stage with C linkage. -/
def sampleModule : IRModule where
  functions :=
    [⟨0, "_ZN2ns3runEv".toList, false, .external, []⟩,
      ⟨1, "_ZN2ns4loadEi".toList, false, .external, []⟩,
      ⟨2, "step".toList, false, .external, []⟩]
  distinct := by decide

/-- The declarations of the three functions. -/
def sampleEntries : List VisibilityEntry :=
  ["ns::run", "ns::load", "ns::step"].map fun name => ⟨name.toList, .isPublic, none⟩

/-- The pipeline with its two stages. -/
def sampleBlocks : List LogicBlock :=
  [⟨"ns::run".toList, true, ["ns::load".toList, "ns::step".toList]⟩]

theorem jit_finds_matched_load :
    (mapSymbols sampleTools sampleModule sampleEntries).matched.lookup "ns::load".toList =
        some 1 ∧
      SpellsAlone sampleTools
        (embeddedIR sampleTools sampleModule sampleEntries [] sampleBlocks)
        sampleBlocks "ns::load".toList 1 := by
  have matched : (mapSymbols sampleTools sampleModule sampleEntries).matched.lookup
      "ns::load".toList = some 1 := by decide
  refine ⟨matched, (jit_finds_matched sampleTools sampleModule sampleEntries [] sampleBlocks
    matched).1.mp ⟨by decide, ?_⟩⟩
  rintro ⟨block, known, -, named⟩
  obtain rfl := List.mem_singleton.mp known
  exact absurd named (by decide)

/-- A stage with C linkage is matched by its simple name, and the engine misses it. -/
theorem jit_misses_cLinkage :
    (mapSymbols sampleTools sampleModule sampleEntries).matched.lookup "ns::step".toList =
        some 2 ∧
      IsStage sampleBlocks "ns::step".toList ∧
      (jitMapping sampleTools (embeddedIR sampleTools sampleModule sampleEntries []
        sampleBlocks)).lookup "ns::step".toList = none := by
  refine ⟨by decide, ⟨_, List.mem_singleton_self _, rfl, by decide⟩, by decide⟩

end Backend
end TopoLlvm
