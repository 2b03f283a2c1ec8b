import TopoLlvm.Backend.Names
import Mathlib.Data.List.Nodup

/-!
# The module that the engine compiles

Before the engine hands a module to LLJIT it renames the function that it has specialized, takes
the bodies of all others away, removes what refers to the process (aliases, run-time type
information, the lists of constructors) and then sweeps global variables without a use.  No operand
is left without a target, and the specialized function alone is defined.
-/

namespace TopoLlvm
namespace JitEngine

open Backend (Name)

abbrev ValueId := Nat

/-- An operand. -/
structure Operand where
  /-- The global value that it names; `none` is `undef`. -/
  target : Option ValueId
  /-- A constant names the value, and stays when the instruction or the variable is deleted. -/
  nested : Bool
  deriving DecidableEq

structure JitFunction where
  id : ValueId
  name : Name
  /-- The operands of the instructions; a declaration has no body. -/
  body : Option (List Operand)
  personality : Option Operand
  deriving DecidableEq

structure GlobalVariable where
  id : ValueId
  name : Name
  initializer : Option (List Operand)
  deriving DecidableEq

structure GlobalAlias where
  id : ValueId
  name : Name
  aliasee : Operand
  deriving DecidableEq

structure JitModule where
  functions : List JitFunction
  globals : List GlobalVariable
  aliases : List GlobalAlias
  /-- Operands of constants that nothing refers to any more. -/
  loose : List Operand
  deriving DecidableEq

def JitFunction.operands (func : JitFunction) : List Operand :=
  func.body.getD [] ++ func.personality.toList

def GlobalVariable.operands (global : GlobalVariable) : List Operand :=
  global.initializer.getD []

namespace JitModule

variable (module : JitModule)

def operands : List Operand :=
  module.functions.flatMap JitFunction.operands ++
    module.globals.flatMap GlobalVariable.operands ++ module.aliases.map (·.aliasee) ++ module.loose

def ids : List ValueId :=
  module.functions.map (·.id) ++ module.globals.map (·.id) ++ module.aliases.map (·.id)

def names : List Name :=
  module.functions.map (·.name) ++ module.globals.map (·.name) ++ module.aliases.map (·.name)

/-- `!use_empty()`. -/
def Uses (id : ValueId) : Prop :=
  ∃ operand ∈ module.operands, operand.target = some id

instance (id : ValueId) : Decidable (module.Uses id) :=
  inferInstanceAs (Decidable (∃ operand ∈ module.operands, operand.target = some id))

end JitModule

/-! ## The steps -/

def nestedOf (operands : List Operand) : List Operand :=
  operands.filter (·.nested)

/-- `undef` in place of a value. -/
def Operand.undef (id : ValueId) (operand : Operand) : Operand :=
  if operand.target = some id then { operand with target := none } else operand

def renameFirst (mangledName jitName : Name) : List JitFunction → List JitFunction
  | [] => []
  | func :: functions =>
      if func.name = mangledName then { func with name := jitName } :: functions
      else func :: renameFirst mangledName jitName functions

namespace JitModule

variable (module : JitModule)

def deleteBodies (jitName : Name) : JitModule :=
  { module with
    functions := module.functions.map fun func =>
      if func.name = jitName then func else { func with body := none }
    loose := module.loose ++
      nestedOf ((module.functions.filter (·.name ≠ jitName)).flatMap (·.body.getD [])) }

def clearPersonalities : JitModule :=
  { module with
    functions := module.functions.map fun func => { func with personality := none }
    loose := module.loose ++ nestedOf (module.functions.flatMap (·.personality.toList)) }

/-- `replaceAllUsesWith(UndefValue)`. -/
def replaceUses (id : ValueId) : JitModule where
  functions := module.functions.map fun func =>
    { func with
      body := func.body.map (List.map (Operand.undef id))
      personality := func.personality.map (Operand.undef id) }
  globals := module.globals.map fun global =>
    { global with initializer := global.initializer.map (List.map (Operand.undef id)) }
  aliases := module.aliases.map fun entry => { entry with aliasee := entry.aliasee.undef id }
  loose := module.loose.map (Operand.undef id)

def eraseVariable (id : ValueId) : JitModule :=
  { module with
    globals := module.globals.filter (·.id ≠ id)
    loose := module.loose ++
      nestedOf ((module.globals.filter (·.id = id)).flatMap GlobalVariable.operands) }

def eraseAlias (id : ValueId) : JitModule :=
  { module with
    aliases := module.aliases.filter (·.id ≠ id)
    loose := module.loose ++
      nestedOf ((module.aliases.filter (·.id = id)).map (·.aliasee)) }

end JitModule

/-- The variables that LLVM keeps for itself and that the engine drops. -/
def reservedNames : List Name :=
  ["llvm.used".toList, "llvm.compiler.used".toList, "llvm.global_ctors".toList,
    "llvm.global_dtors".toList]

def isRtti (name : Name) : Bool :=
  "??_R".toList.isPrefixOf name || "_CT??_R".toList.isPrefixOf name ||
    "??_7type_info".toList.isPrefixOf name

namespace JitModule

variable (module : JitModule)

/-- Erase the variable of a name, if there is one. -/
def eraseNamed (name : Name) : JitModule :=
  match module.globals.find? (·.name = name) with
  | some global => module.eraseVariable global.id
  | none => module

def eraseAliases : JitModule :=
  (module.aliases.map (·.id)).foldl (fun module id => (module.replaceUses id).eraseAlias id) module

def eraseRtti : JitModule :=
  ((module.globals.filter (isRtti ·.name)).map (·.id)).foldl
    (fun module id => (module.replaceUses id).eraseVariable id) module

/-- The variables that a round of the sweep removes. -/
def unusedVariables : List ValueId :=
  (module.globals.filter fun global =>
    ¬ module.Uses global.id ∧ !"llvm.".toList.isPrefixOf global.name).map (·.id)

/-- Rounds of the sweep, until one removes nothing. -/
def sweep : Nat → JitModule → JitModule
  | 0, module => module
  | rounds + 1, module =>
      if module.unusedVariables = [] then module
      else sweep rounds (module.unusedVariables.foldl eraseVariable module)

/-- The module that the engine adds to its library. -/
def prepare (mangledName jitName : Name) : JitModule :=
  let module := { module with functions := renameFirst mangledName jitName module.functions }
  let module := (module.deleteBodies jitName).clearPersonalities
  let module := reservedNames.foldl eraseNamed module
  let module := module.eraseAliases.eraseRtti
  sweep module.globals.length module

end JitModule

/-! ## Uses -/

theorem JitModule.mem_operands {module : JitModule} {operand : Operand} :
    operand ∈ module.operands ↔
      (∃ func ∈ module.functions, operand ∈ func.operands) ∨
        (∃ global ∈ module.globals, operand ∈ global.operands) ∨
        (∃ entry ∈ module.aliases, entry.aliasee = operand) ∨ operand ∈ module.loose := by
  simp only [JitModule.operands, List.mem_append, List.mem_flatMap, List.mem_map, or_assoc]

theorem JitFunction.mem_operands {func : JitFunction} {operand : Operand} :
    operand ∈ func.operands ↔
      (∃ body, func.body = some body ∧ operand ∈ body) ∨ func.personality = some operand := by
  rw [JitFunction.operands, List.mem_append, Option.mem_toList]
  cases func.body <;> simp

theorem GlobalVariable.mem_operands {global : GlobalVariable} {operand : Operand} :
    operand ∈ global.operands ↔ ∃ values, global.initializer = some values ∧ operand ∈ values := by
  unfold GlobalVariable.operands
  cases global.initializer <;> simp

theorem mem_of_mem_nestedOf {operands : List Operand} {operand : Operand}
    (member : operand ∈ nestedOf operands) : operand ∈ operands :=
  (List.mem_filter.mp member).1

@[simp]
theorem Operand.target_undef {operand : Operand} {id other : ValueId} :
    (operand.undef id).target = some other ↔ operand.target = some other ∧ other ≠ id := by
  unfold Operand.undef
  split
  · rename_i named
    simp only [named, Option.some.injEq]
    constructor
    · intro none_eq
      cases none_eq
    · rintro ⟨rfl, differs⟩
      exact absurd rfl differs
  · rename_i others
    constructor
    · intro named
      exact ⟨named, fun same => others (same ▸ named)⟩
    · exact And.left

namespace JitModule

variable {module : JitModule} {id other : ValueId}

/-- A step that drops functions' operands, variables or aliases and leaves the operands of constants
behind brings no use about. -/
theorem uses_of_step {step : JitModule} {dropped : List Operand} (uses : step.Uses id)
    (functions : ∀ func ∈ step.functions, ∃ original ∈ module.functions,
      ∀ operand ∈ func.operands, operand ∈ original.operands)
    (globals : ∀ global ∈ step.globals, global ∈ module.globals)
    (aliases : ∀ entry ∈ step.aliases, entry ∈ module.aliases)
    (loose : step.loose = module.loose ++ nestedOf dropped)
    (held : ∀ operand ∈ dropped, operand ∈ module.operands) : module.Uses id := by
  obtain ⟨operand, member, named⟩ := uses
  refine ⟨operand, ?_, named⟩
  rcases mem_operands.mp member with
    ⟨func, inside, within⟩ | ⟨global, inside, within⟩ | ⟨entry, inside, within⟩ | left
  · obtain ⟨original, kept, more⟩ := functions func inside
    exact mem_operands.mpr (.inl ⟨original, kept, more operand within⟩)
  · exact mem_operands.mpr (.inr (.inl ⟨global, globals global inside, within⟩))
  · exact mem_operands.mpr (.inr (.inr (.inl ⟨entry, aliases entry inside, within⟩)))
  · rw [loose] at left
    rcases List.mem_append.mp left with old | new
    · exact mem_operands.mpr (.inr (.inr (.inr old)))
    · exact held operand (mem_of_mem_nestedOf new)

theorem uses_deleteBodies {jitName : Name} (uses : (module.deleteBodies jitName).Uses id) :
    module.Uses id := by
  refine uses_of_step uses (fun func inside => ?_) (fun _ inside => inside)
    (fun _ inside => inside) rfl fun operand held => ?_
  · obtain ⟨original, kept, rfl⟩ := List.mem_map.mp inside
    refine ⟨original, kept, fun operand held => ?_⟩
    split at held
    · exact held
    · rcases JitFunction.mem_operands.mp held with ⟨body, absent, -⟩ | personality
      · cases absent
      · exact JitFunction.mem_operands.mpr (.inr personality)
  · obtain ⟨func, kept, held⟩ := List.mem_flatMap.mp held
    exact mem_operands.mpr
      (.inl ⟨func, (List.mem_filter.mp kept).1, List.mem_append_left _ held⟩)

theorem uses_clearPersonalities (uses : module.clearPersonalities.Uses id) : module.Uses id := by
  refine uses_of_step uses (fun func inside => ?_) (fun _ inside => inside)
    (fun _ inside => inside) rfl fun operand held => ?_
  · obtain ⟨original, kept, rfl⟩ := List.mem_map.mp inside
    refine ⟨original, kept, fun operand held => ?_⟩
    rcases JitFunction.mem_operands.mp held with body | absent
    · exact JitFunction.mem_operands.mpr (.inl body)
    · cases absent
  · obtain ⟨func, kept, held⟩ := List.mem_flatMap.mp held
    exact mem_operands.mpr (.inl ⟨func, kept, List.mem_append_right _ held⟩)

theorem uses_eraseVariable (uses : (module.eraseVariable other).Uses id) : module.Uses id := by
  refine uses_of_step uses (fun func inside => ⟨func, inside, fun _ held => held⟩)
    (fun global inside => (List.mem_filter.mp inside).1) (fun _ inside => inside) rfl
    fun operand held => ?_
  obtain ⟨global, erased, held⟩ := List.mem_flatMap.mp held
  exact mem_operands.mpr (.inr (.inl ⟨global, (List.mem_filter.mp erased).1, held⟩))

theorem uses_eraseAlias (uses : (module.eraseAlias other).Uses id) : module.Uses id := by
  refine uses_of_step uses (fun func inside => ⟨func, inside, fun _ held => held⟩)
    (fun _ inside => inside) (fun entry inside => (List.mem_filter.mp inside).1) rfl
    fun operand held => ?_
  obtain ⟨entry, erased, held⟩ := List.mem_map.mp held
  exact mem_operands.mpr (.inr (.inr (.inl ⟨entry, (List.mem_filter.mp erased).1, held⟩)))

theorem operands_replaceUses (module : JitModule) (id : ValueId) :
    (module.replaceUses id).operands = module.operands.map (Operand.undef id) := by
  have functions : (module.replaceUses id).functions.flatMap JitFunction.operands =
      (module.functions.flatMap JitFunction.operands).map (Operand.undef id) := by
    rw [replaceUses, List.flatMap_map, List.map_flatMap]
    refine List.flatMap_congr fun func _ => ?_
    rw [JitFunction.operands, JitFunction.operands, List.map_append]
    cases func.body <;> cases func.personality <;> rfl
  have globals : (module.replaceUses id).globals.flatMap GlobalVariable.operands =
      (module.globals.flatMap GlobalVariable.operands).map (Operand.undef id) := by
    rw [replaceUses, List.flatMap_map, List.map_flatMap]
    refine List.flatMap_congr fun global _ => ?_
    rw [GlobalVariable.operands, GlobalVariable.operands]
    cases global.initializer <;> rfl
  rw [operands, functions, globals, operands, List.map_append, List.map_append, List.map_append]
  simp only [replaceUses, List.map_map, Function.comp_def]

/-- No use of a replaced value is left. -/
theorem uses_replaceUses :
    (module.replaceUses other).Uses id ↔ module.Uses id ∧ id ≠ other := by
  unfold Uses
  rw [operands_replaceUses]
  constructor
  · rintro ⟨operand, member, named⟩
    obtain ⟨original, inside, rfl⟩ := List.mem_map.mp member
    obtain ⟨original_named, differs⟩ := Operand.target_undef.mp named
    exact ⟨⟨original, inside, original_named⟩, differs⟩
  · rintro ⟨⟨operand, member, named⟩, differs⟩
    exact ⟨operand.undef other, List.mem_map_of_mem member,
      Operand.target_undef.mpr ⟨named, differs⟩⟩

end JitModule

/-! ## What a step leaves -/

/-- `undef` in place of values. -/
def Operand.undefs (ids : List ValueId) (operand : Operand) : Operand :=
  ids.foldl (fun operand id => operand.undef id) operand

def JitFunction.undefs (ids : List ValueId) (func : JitFunction) : JitFunction :=
  { func with
    body := func.body.map (List.map (Operand.undefs ids))
    personality := func.personality.map (Operand.undefs ids) }

def GlobalVariable.undefs (ids : List ValueId) (global : GlobalVariable) : GlobalVariable :=
  { global with initializer := global.initializer.map (List.map (Operand.undefs ids)) }

def GlobalAlias.undefs (ids : List ValueId) (entry : GlobalAlias) : GlobalAlias :=
  { entry with aliasee := entry.aliasee.undefs ids }

theorem Operand.undefs_concat (ids : List ValueId) (id : ValueId) :
    Operand.undefs (ids ++ [id]) = Operand.undef id ∘ Operand.undefs ids := by
  funext operand
  simp [Operand.undefs]

theorem Operand.target_undefs {ids : List ValueId} {operand : Operand} {id : ValueId} :
    (operand.undefs ids).target = some id ↔ operand.target = some id ∧ id ∉ ids := by
  induction ids using List.reverseRecOn with
  | nil => simp [Operand.undefs]
  | append_singleton ids last induction =>
      rw [Operand.undefs_concat, Function.comp_apply, Operand.target_undef, induction, and_assoc,
        List.mem_append, List.mem_singleton, not_or]

/-- A module of which only erasures have been made, and whose erased values nothing uses. -/
structure Residue (base : JitModule) (replaced erased : List ValueId) (module : JitModule) :
    Prop where
  functions : module.functions = base.functions.map (JitFunction.undefs replaced)
  globals : module.globals =
    (base.globals.filter (·.id ∉ erased)).map (GlobalVariable.undefs replaced)
  aliases : module.aliases =
    (base.aliases.filter (·.id ∉ erased)).map (GlobalAlias.undefs replaced)
  uses : ∀ id, module.Uses id → base.Uses id ∧ id ∉ replaced ∧ id ∉ erased

namespace Residue

variable {base module : JitModule} {replaced erased : List ValueId} {id : ValueId}

theorem refl (base : JitModule) : Residue base [] [] base := by
  have operand_eq : Operand.undefs [] = fun operand => operand := rfl
  have function_eq : JitFunction.undefs [] = fun func => func := by
    funext func
    rcases func with ⟨_, _, body, personality⟩
    simp [JitFunction.undefs, operand_eq]
  have global_eq : GlobalVariable.undefs [] = fun global => global := by
    funext global
    simp [GlobalVariable.undefs, operand_eq]
  have alias_eq : GlobalAlias.undefs [] = fun entry => entry := rfl
  exact ⟨by simp [function_eq], by simp [global_eq], by simp [alias_eq], fun id uses => by
    simpa using uses⟩

theorem replaceUses (residue : Residue base replaced erased module) (id : ValueId) :
    Residue base (replaced ++ [id]) erased (module.replaceUses id) where
  functions := by
    rw [JitModule.replaceUses, residue.functions, List.map_map]
    refine List.map_congr_left fun func _ => ?_
    simp only [Function.comp_apply, JitFunction.undefs, Operand.undefs_concat, Option.map_map,
      List.map_comp_map]
  globals := by
    rw [JitModule.replaceUses, residue.globals, List.map_map]
    refine List.map_congr_left fun global _ => ?_
    simp only [Function.comp_apply, GlobalVariable.undefs, Operand.undefs_concat, Option.map_map,
      List.map_comp_map]
  aliases := by
    rw [JitModule.replaceUses, residue.aliases, List.map_map]
    refine List.map_congr_left fun entry _ => ?_
    simp only [Function.comp_apply, GlobalAlias.undefs, Operand.undefs_concat]
  uses := by
    intro other uses
    obtain ⟨before, differs⟩ := JitModule.uses_replaceUses.mp uses
    obtain ⟨original, kept, present⟩ := residue.uses other before
    refine ⟨original, ?_, present⟩
    rw [List.mem_append, List.mem_singleton]
    exact fun member => member.elim kept differs

theorem filter_erased {α : Type*} (ident : α → ValueId) (change : α → α)
    (same : ∀ one, ident (change one) = ident one) (l : List α) (erased : List ValueId)
    (id : ValueId) :
    ((l.filter fun one => ident one ∉ erased).map change).filter (fun one => ident one ≠ id) =
      (l.filter fun one => ident one ∉ erased ++ [id]).map change := by
  rw [List.filter_map, List.filter_filter]
  congr 1
  refine List.filter_congr fun one _ => ?_
  simp [same, and_comm, not_or]

theorem filter_unaffected {α : Type*} (ident : α → ValueId) {l : List α} (erased : List ValueId)
    {id : ValueId} (absent : id ∉ l.map ident) :
    (l.filter fun one => ident one ∉ erased) = l.filter fun one => ident one ∉ erased ++ [id] := by
  refine List.filter_congr fun one member => ?_
  have differs : ident one ≠ id := by
    rintro rfl
    exact absent (List.mem_map_of_mem member)
  simp [differs]

/-- What is used is not what has been erased without a use. -/
theorem uses_of_unused (residue : Residue base replaced erased module) (unused : ¬ module.Uses id)
    {other : ValueId} (uses : module.Uses other) :
    base.Uses other ∧ other ∉ replaced ∧ other ∉ erased ++ [id] := by
  obtain ⟨original, kept, present⟩ := residue.uses other uses
  refine ⟨original, kept, ?_⟩
  rw [List.mem_append, List.mem_singleton]
  rintro (gone | rfl)
  · exact present gone
  · exact unused uses

/-- A variable that nothing uses is erased. -/
theorem eraseVariable (residue : Residue base replaced erased module)
    (variable_only : id ∉ base.aliases.map (·.id)) (unused : ¬ module.Uses id) :
    Residue base replaced (erased ++ [id]) (module.eraseVariable id) where
  functions := residue.functions
  globals := by
    rw [JitModule.eraseVariable, residue.globals]
    exact filter_erased GlobalVariable.id (GlobalVariable.undefs replaced) (fun _ => rfl)
      base.globals erased id
  aliases := by
    rw [JitModule.eraseVariable, residue.aliases, filter_unaffected _ erased variable_only]
  uses other uses := residue.uses_of_unused unused (JitModule.uses_eraseVariable uses)

/-- An alias that nothing uses is erased. -/
theorem eraseAlias (residue : Residue base replaced erased module)
    (alias_only : id ∉ base.globals.map (·.id)) (unused : ¬ module.Uses id) :
    Residue base replaced (erased ++ [id]) (module.eraseAlias id) where
  functions := residue.functions
  globals := by
    rw [JitModule.eraseAlias, residue.globals, filter_unaffected _ erased alias_only]
  aliases := by
    rw [JitModule.eraseAlias, residue.aliases]
    exact filter_erased GlobalAlias.id (GlobalAlias.undefs replaced) (fun _ => rfl)
      base.aliases erased id
  uses other uses := residue.uses_of_unused unused (JitModule.uses_eraseAlias uses)

/-- Values whose uses are replaced are erased one after another. -/
theorem replaceAll (erase : JitModule → ValueId → JitModule) {ids : List ValueId}
    (erases : ∀ id ∈ ids, ∀ (replaced erased : List ValueId) (module : JitModule),
      Residue base replaced erased module → ¬ module.Uses id →
        Residue base replaced (erased ++ [id]) (erase module id))
    (residue : Residue base replaced erased module) :
    Residue base (replaced ++ ids) (erased ++ ids)
      (ids.foldl (fun module id => erase (module.replaceUses id) id) module) := by
  induction ids generalizing module replaced erased with
  | nil => simpa using residue
  | cons first rest induction =>
      have unused : ¬ (module.replaceUses first).Uses first := fun uses =>
        (JitModule.uses_replaceUses.mp uses).2 rfl
      have stepped := erases first List.mem_cons_self _ _ _ (residue.replaceUses first) unused
      have rest_erases := fun id member => erases id (List.mem_cons_of_mem first member)
      simpa only [List.append_assoc, List.singleton_append, List.foldl_cons] using
        induction rest_erases stepped

/-- One round of the sweep: what is unused stays so while others are erased. -/
theorem eraseVariables (residue : Residue base replaced erased module) {ids : List ValueId}
    (variable_only : ∀ id ∈ ids, id ∉ base.aliases.map (·.id))
    (unused : ∀ id ∈ ids, ¬ module.Uses id) :
    Residue base replaced (erased ++ ids) (ids.foldl JitModule.eraseVariable module) := by
  induction ids generalizing module erased with
  | nil => simpa using residue
  | cons first rest induction =>
      have stepped := residue.eraseVariable (variable_only first List.mem_cons_self)
        (unused first List.mem_cons_self)
      have rest_only : ∀ id ∈ rest, id ∉ base.aliases.map (·.id) := fun id member =>
        variable_only id (List.mem_cons_of_mem first member)
      have rest_unused : ∀ id ∈ rest, ¬ (module.eraseVariable first).Uses id :=
        fun id member uses =>
          unused id (List.mem_cons_of_mem first member) (JitModule.uses_eraseVariable uses)
      simpa only [List.append_assoc, List.singleton_append, List.foldl_cons] using
        induction stepped rest_only rest_unused

end Residue

/-! ## The sweep -/

namespace JitModule

variable {module : JitModule}

theorem mem_unusedVariables {id : ValueId} :
    id ∈ module.unusedVariables ↔ ∃ global ∈ module.globals,
      ¬ module.Uses global.id ∧ "llvm.".toList.isPrefixOf global.name = false ∧
        global.id = id := by
  simp [unusedVariables, and_assoc]

theorem globals_foldl_eraseVariable (ids : List ValueId) (module : JitModule) :
    (ids.foldl eraseVariable module).globals = module.globals.filter (·.id ∉ ids) := by
  induction ids generalizing module with
  | nil => simp
  | cons first rest induction =>
      rw [List.foldl_cons, induction, eraseVariable, List.filter_filter]
      refine List.filter_congr fun global _ => ?_
      simp [Bool.and_comm]

/-- A round that erases something leaves fewer variables. -/
theorem length_round_lt (erases : module.unusedVariables ≠ []) :
    (module.unusedVariables.foldl eraseVariable module).globals.length <
      module.globals.length := by
  obtain ⟨id, member⟩ := List.exists_mem_of_ne_nil _ erases
  obtain ⟨global, present, unused, ordinary, rfl⟩ := mem_unusedVariables.mp member
  rw [globals_foldl_eraseVariable]
  refine List.length_filter_lt_length_iff_exists.mpr ⟨global, present, ?_⟩
  simpa using member

/-- The sweep ends with a round that finds nothing to erase. -/
theorem unusedVariables_sweep {rounds : Nat} (enough : module.globals.length ≤ rounds) :
    (sweep rounds module).unusedVariables = [] := by
  induction rounds generalizing module with
  | zero =>
      have none_left : module.globals = [] := List.length_eq_zero_iff.mp (by omega)
      simp [sweep, unusedVariables, none_left]
  | succ rounds induction =>
      rw [sweep]
      split
      · assumption
      · rename_i erases
        have fewer := length_round_lt erases
        exact induction (by omega)

end JitModule

theorem Residue.sweep {base : JitModule} {replaced : List ValueId} {erased : List ValueId}
    {module : JitModule} (residue : Residue base replaced erased module)
    (variable_only : ∀ id ∈ base.globals.map (·.id), id ∉ base.aliases.map (·.id))
    (rounds : Nat) :
    ∃ swept, Residue base replaced (erased ++ swept) (JitModule.sweep rounds module) := by
  induction rounds generalizing module erased with
  | zero => exact ⟨[], by simpa [JitModule.sweep] using residue⟩
  | succ rounds induction =>
      rw [JitModule.sweep]
      split
      · exact ⟨[], by simpa using residue⟩
      · have only : ∀ id ∈ module.unusedVariables, id ∉ base.aliases.map (·.id) := by
          intro id member
          obtain ⟨global, present, -, -, rfl⟩ := JitModule.mem_unusedVariables.mp member
          rw [residue.globals] at present
          obtain ⟨original, kept, rfl⟩ := List.mem_map.mp present
          exact variable_only original.id
            (List.mem_map.mpr ⟨original, (List.mem_filter.mp kept).1, rfl⟩)
        have unused : ∀ id ∈ module.unusedVariables, ¬ module.Uses id := by
          intro id member
          obtain ⟨global, -, unused, -, rfl⟩ := JitModule.mem_unusedVariables.mp member
          exact unused
        obtain ⟨swept, remains⟩ := induction (residue.eraseVariables only unused)
        exact ⟨module.unusedVariables ++ swept, by simpa only [List.append_assoc] using remains⟩

/-! ## Reserved variables -/

namespace Residue

variable {base module : JitModule} {erased : List ValueId}

/-- The variable of a reserved name is erased, if it is there. -/
theorem eraseNamed (residue : Residue base [] erased module) {name : Name}
    (distinct : (base.globals.map (·.name)).Nodup)
    (variable_only : ∀ id ∈ base.globals.map (·.id), id ∉ base.aliases.map (·.id))
    (unused : ∀ global ∈ base.globals, global.name = name → ¬ base.Uses global.id) :
    ∃ more, Residue base [] (erased ++ more) (module.eraseNamed name) ∧
      (∀ global ∈ base.globals, global.name = name → global.id ∈ erased ++ more) ∧
      ∀ id ∈ more, ∃ global ∈ base.globals, global.name = name ∧ global.id = id := by
  rw [JitModule.eraseNamed]
  split
  · rename_i found search
    have found_mem := List.mem_of_find?_eq_some search
    have found_name : found.name = name := by simpa using List.find?_some search
    rw [residue.globals] at found_mem
    obtain ⟨original, kept, rfl⟩ := List.mem_map.mp found_mem
    have present := (List.mem_filter.mp kept).1
    have only := variable_only original.id (List.mem_map.mpr ⟨original, present, rfl⟩)
    have still_unused : ¬ module.Uses original.id := fun uses =>
      unused original present found_name (residue.uses original.id uses).1
    refine ⟨[original.id], residue.eraseVariable only still_unused, ?_, ?_⟩
    · intro global inside named
      have same : global = original :=
        List.inj_on_of_nodup_map distinct inside present (named.trans found_name.symm)
      rw [same]
      exact List.mem_append_right _ List.mem_cons_self
    · intro id member
      rw [List.mem_singleton.mp member]
      exact ⟨original, present, found_name, rfl⟩
  · rename_i search
    refine ⟨[], by simpa using residue, ?_, by simp⟩
    intro global inside named
    by_contra kept
    rw [List.append_nil] at kept
    have listed : global.undefs [] ∈ module.globals := by
      rw [residue.globals]
      exact List.mem_map_of_mem (List.mem_filter.mpr ⟨inside, by simpa using kept⟩)
    have missed := List.find?_eq_none.mp search _ listed
    exact missed (decide_eq_true named)

theorem eraseReserved (residue : Residue base [] erased module) {names : List Name}
    (distinct : (base.globals.map (·.name)).Nodup)
    (variable_only : ∀ id ∈ base.globals.map (·.id), id ∉ base.aliases.map (·.id))
    (unused : ∀ global ∈ base.globals, global.name ∈ names → ¬ base.Uses global.id) :
    ∃ more, Residue base [] (erased ++ more) (names.foldl JitModule.eraseNamed module) ∧
      (∀ global ∈ base.globals, global.name ∈ names → global.id ∈ erased ++ more) ∧
      ∀ id ∈ more, ∃ global ∈ base.globals, global.name ∈ names ∧ global.id = id := by
  induction names generalizing module erased with
  | nil => exact ⟨[], by simpa using residue, by simp, by simp⟩
  | cons first rest induction =>
      obtain ⟨more, stepped, covers, from_first⟩ := residue.eraseNamed distinct variable_only
        fun global inside named => unused global inside (named ▸ List.mem_cons_self)
      obtain ⟨others, finished, covers_rest, from_rest⟩ := induction stepped
        fun global inside member => unused global inside (List.mem_cons_of_mem first member)
      refine ⟨more ++ others, ?_, ?_, ?_⟩
      · rw [List.foldl_cons, ← List.append_assoc]
        exact finished
      · intro global inside member
        rw [← List.append_assoc]
        rcases List.mem_cons.mp member with named | later
        · exact List.mem_append_left _ (covers global inside named)
        · exact covers_rest global inside later
      · intro id member
        rcases List.mem_append.mp member with here | later
        · obtain ⟨global, inside, named, same⟩ := from_first id here
          exact ⟨global, inside, by simp [named], same⟩
        · obtain ⟨global, inside, named, same⟩ := from_rest id later
          exact ⟨global, inside, List.mem_cons_of_mem first named, same⟩

end Residue

/-! ## The prepared module -/

/-- A module whose names are distinct, whose operands have their targets, and that defines the
function to specialize. -/
structure Work where
  module : JitModule
  mangledName : Name
  distinct_ids : module.ids.Nodup
  distinct_names : module.names.Nodup
  closed : ∀ operand ∈ module.operands, ∀ id ∈ operand.target, id ∈ module.ids
  reserved : ∀ global ∈ module.globals, global.name ∈ reservedNames → ¬ module.Uses global.id
  defined : ∃ func ∈ module.functions, func.name = mangledName ∧ func.body.isSome = true

/-- The aliases and the run-time type information of the module. -/
def JitModule.replacedIds (module : JitModule) : List ValueId :=
  module.aliases.map (·.id) ++ (module.globals.filter (isRtti ·.name)).map (·.id)

def JitFunction.specialized (mangledName jitName : Name) (replaced : List ValueId)
    (func : JitFunction) : JitFunction :=
  if func.name = mangledName then
    { func with
      name := jitName
      body := func.body.map (List.map (Operand.undefs replaced))
      personality := none }
  else { func with body := none, personality := none }

/-- The module when all bodies but one are gone. -/
def JitModule.bare (module : JitModule) (mangledName jitName : Name) : JitModule :=
  ({ module with
      functions := renameFirst mangledName jitName module.functions }.deleteBodies
    jitName).clearPersonalities

theorem operands_renameFirst (mangledName jitName : Name) (functions : List JitFunction) :
    (renameFirst mangledName jitName functions).flatMap JitFunction.operands =
      functions.flatMap JitFunction.operands := by
  induction functions with
  | nil => rfl
  | cons func functions induction =>
      rw [renameFirst]
      split
      · rfl
      · rw [List.flatMap_cons, List.flatMap_cons, induction]

theorem JitModule.uses_bare {module : JitModule} {mangledName jitName : Name} {id : ValueId}
    (uses : (module.bare mangledName jitName).Uses id) : module.Uses id := by
  have renamed := uses_deleteBodies (uses_clearPersonalities uses)
  unfold Uses operands at renamed ⊢
  rwa [operands_renameFirst] at renamed

theorem renameFirst_eq_map {mangledName : Name} {functions : List JitFunction}
    (distinct : (functions.map (·.name)).Nodup) (jitName : Name) :
    renameFirst mangledName jitName functions = functions.map fun func =>
      if func.name = mangledName then { func with name := jitName } else func := by
  induction functions with
  | nil => rfl
  | cons func functions induction =>
      rw [List.map_cons, List.nodup_cons] at distinct
      rw [renameFirst, List.map_cons]
      split
      · rename_i named
        have unchanged : ∀ other ∈ functions,
            (if other.name = mangledName then { other with name := jitName } else other) =
              other := by
          intro other member
          have differs : other.name ≠ mangledName := fun same =>
            distinct.1 (List.mem_map.mpr ⟨other, member, same.trans named.symm⟩)
          rw [if_neg differs]
        rw [List.map_congr_left unchanged, List.map_id']
      · rw [induction distinct.2]

/-- The functions of the bare module. -/
theorem JitModule.functions_bare {module : JitModule} {mangledName jitName : Name}
    (distinct : module.names.Nodup) (fresh : jitName ∉ module.names) :
    (module.bare mangledName jitName).functions =
      module.functions.map (JitFunction.specialized mangledName jitName []) := by
  have function_names : (module.functions.map (·.name)).Nodup :=
    (List.nodup_append.mp (List.nodup_append.mp distinct).1).1
  simp only [bare, deleteBodies, clearPersonalities, renameFirst_eq_map function_names,
    List.map_map]
  refine List.map_congr_left fun func member => ?_
  have not_taken : func.name ≠ jitName := by
    rintro rfl
    exact fresh (List.mem_append_left _ (List.mem_append_left _ (List.mem_map_of_mem member)))
  have operand_eq : Operand.undefs [] = fun operand => operand := rfl
  simp only [Function.comp_apply, JitFunction.specialized, operand_eq]
  by_cases named : func.name = mangledName
  · simp [named]
  · simp [named, not_taken]

/-- What is left of a module when it is prepared. -/
structure Prepared (module : JitModule) (mangledName jitName : Name) (prepared : JitModule) :
    Prop where
  functions : prepared.functions =
    module.functions.map (JitFunction.specialized mangledName jitName module.replacedIds)
  globals : ∃ kept : List GlobalVariable, kept.Sublist module.globals ∧
    prepared.globals = kept.map (GlobalVariable.undefs module.replacedIds) ∧
      ∀ original ∈ kept, original.name ∉ reservedNames ∧ isRtti original.name = false
  aliases : prepared.aliases = []
  closed : ∀ id, prepared.Uses id →
    id ∈ prepared.functions.map (·.id) ++ prepared.globals.map (·.id)
  swept : ∀ global ∈ prepared.globals,
    prepared.Uses global.id ∨ "llvm.".toList.isPrefixOf global.name = true

theorem not_isRtti_of_reserved {name : Name} (reserved : name ∈ reservedNames) :
    isRtti name = false := by
  simp only [reservedNames, List.mem_cons, List.not_mem_nil, or_false] at reserved
  rcases reserved with rfl | rfl | rfl | rfl <;> decide

theorem undefs_specialized (mangledName jitName : Name) (ids : List ValueId)
    (func : JitFunction) :
    (func.specialized mangledName jitName []).undefs ids =
      func.specialized mangledName jitName ids := by
  have operand_eq : Operand.undefs [] = fun operand => operand := rfl
  unfold JitFunction.specialized
  split
  · simp [JitFunction.undefs, operand_eq]
  · rfl

theorem id_specialized (mangledName jitName : Name) (ids : List ValueId) (func : JitFunction) :
    (func.specialized mangledName jitName ids).id = func.id := by
  unfold JitFunction.specialized
  split <;> rfl

namespace Residue

variable {base module : JitModule} {replaced erased : List ValueId}

theorem alias_ids (residue : Residue base replaced erased module)
    (kept : ∀ id ∈ erased, id ∉ base.aliases.map (·.id)) :
    module.aliases.map (·.id) = base.aliases.map (·.id) := by
  have all : (base.aliases.filter (·.id ∉ erased)) = base.aliases := by
    refine List.filter_eq_self.mpr fun entry member => decide_eq_true fun gone => ?_
    exact kept entry.id gone (List.mem_map_of_mem member)
  rw [residue.aliases, all, List.map_map]
  rfl

theorem rtti_ids (residue : Residue base replaced erased module)
    (kept : ∀ global ∈ base.globals, isRtti global.name = true → global.id ∉ erased) :
    (module.globals.filter (isRtti ·.name)).map (·.id) =
      (base.globals.filter (isRtti ·.name)).map (·.id) := by
  rw [residue.globals, List.filter_map, List.map_map, List.filter_filter]
  refine congrArg (List.map _) (List.filter_congr fun global member => ?_)
  cases rtti : isRtti global.name with
  | false => simp [GlobalVariable.undefs, rtti]
  | true => simp [GlobalVariable.undefs, rtti, kept global member rtti]

end Residue

namespace Work

variable (work : Work)

theorem variable_only : ∀ id ∈ work.module.globals.map (·.id),
    id ∉ work.module.aliases.map (·.id) := by
  intro id global alias_id
  have separate := (List.nodup_append.mp work.distinct_ids).2.2
  exact separate id (List.mem_append_right _ global) id alias_id rfl

/-- The steps of the engine leave what `Prepared` says. -/
theorem prepared {jitName : Name} (fresh : jitName ∉ work.module.names) :
    Prepared work.module work.mangledName jitName
      (work.module.prepare work.mangledName jitName) := by
  have global_names : (work.module.globals.map (·.name)).Nodup :=
    (List.nodup_append.mp (List.nodup_append.mp work.distinct_names).1).2.1
  set base := work.module.bare work.mangledName jitName with base_eq
  have base_globals : base.globals = work.module.globals := rfl
  have base_aliases : base.aliases = work.module.aliases := rfl
  have variable_only : ∀ id ∈ base.globals.map (·.id), id ∉ base.aliases.map (·.id) :=
    work.variable_only
  obtain ⟨reserved, bare_residue, covers, from_reserved⟩ :=
    (Residue.refl base).eraseReserved global_names variable_only
      fun global inside (named : global.name ∈ reservedNames) uses =>
        work.reserved global inside named (JitModule.uses_bare uses)
  rw [List.nil_append] at bare_residue
  set withoutReserved := reservedNames.foldl JitModule.eraseNamed base
  have reserved_variable : ∀ id ∈ reserved, id ∉ base.aliases.map (·.id) := by
    intro id member
    obtain ⟨global, inside, -, rfl⟩ := from_reserved id member
    exact variable_only _ (List.mem_map_of_mem inside)
  have alias_only : ∀ id ∈ base.aliases.map (·.id), id ∉ base.globals.map (·.id) :=
    fun id entry global => variable_only id global entry
  have alias_residue : Residue base (base.aliases.map (·.id))
      (reserved ++ base.aliases.map (·.id)) withoutReserved.eraseAliases := by
    rw [JitModule.eraseAliases, bare_residue.alias_ids reserved_variable]
    exact bare_residue.replaceAll JitModule.eraseAlias fun id member _ _ _ residue unused =>
      residue.eraseAlias (alias_only id member) unused
  have rtti_kept : ∀ global ∈ base.globals, isRtti global.name = true →
      global.id ∉ reserved ++ base.aliases.map (·.id) := by
    intro global inside rtti member
    rcases List.mem_append.mp member with gone | entry
    · obtain ⟨other, other_inside, named, same⟩ := from_reserved _ gone
      have global_ids : (base.globals.map (·.id)).Nodup :=
        (List.nodup_append.mp (List.nodup_append.mp work.distinct_ids).1).2.1
      have equal := List.inj_on_of_nodup_map global_ids other_inside inside same
      rw [equal] at named
      rw [not_isRtti_of_reserved named] at rtti
      cases rtti
    · exact variable_only _ (List.mem_map_of_mem inside) entry
  have rtti_residue : Residue base work.module.replacedIds
      (reserved ++ base.aliases.map (·.id) ++ (base.globals.filter (isRtti ·.name)).map (·.id))
      withoutReserved.eraseAliases.eraseRtti := by
    rw [JitModule.eraseRtti, alias_residue.rtti_ids rtti_kept]
    refine alias_residue.replaceAll JitModule.eraseVariable fun id member _ _ _ residue unused => ?_
    obtain ⟨global, inside, rfl⟩ := List.mem_map.mp member
    exact residue.eraseVariable
      (variable_only _ (List.mem_map_of_mem (List.mem_filter.mp inside).1)) unused
  set withoutRtti := withoutReserved.eraseAliases.eraseRtti
  obtain ⟨swept, residue⟩ := rtti_residue.sweep variable_only withoutRtti.globals.length
  have prepared_eq : work.module.prepare work.mangledName jitName =
      JitModule.sweep withoutRtti.globals.length withoutRtti := rfl
  rw [prepared_eq]
  exact
    { functions := by
        rw [residue.functions, base_eq, JitModule.functions_bare work.distinct_names fresh,
          List.map_map]
        exact List.map_congr_left fun func _ => undefs_specialized _ _ _ func
      globals := by
        refine ⟨_, List.filter_sublist, residue.globals, fun original kept => ?_⟩
        obtain ⟨inside, listed⟩ := List.mem_filter.mp kept
        have present := of_decide_eq_true listed
        refine ⟨fun named => ?_, ?_⟩
        · have gone := covers original inside named
          simp only [List.nil_append] at gone
          exact present (by simp [gone])
        · by_contra rtti
          rw [Bool.not_eq_false] at rtti
          exact present (List.mem_append_left _ (List.mem_append_right _
            (List.mem_map_of_mem (List.mem_filter.mpr ⟨inside, rtti⟩))))
      aliases := by
        rw [residue.aliases, List.map_eq_nil_iff, List.filter_eq_nil_iff]
        intro entry inside
        simp [List.mem_map_of_mem inside]
      closed := by
        intro id uses
        obtain ⟨base_uses, -, present⟩ := residue.uses id uses
        rw [residue.functions, residue.globals, base_eq,
          JitModule.functions_bare work.distinct_names fresh]
        obtain ⟨operand, member, named⟩ := JitModule.uses_bare base_uses
        rcases List.mem_append.mp (work.closed operand member id named) with own | entry
        · rcases List.mem_append.mp own with func | global
          · obtain ⟨original, inside, rfl⟩ := List.mem_map.mp func
            refine List.mem_append_left _ (List.mem_map.mpr ⟨_, List.mem_map_of_mem
              (List.mem_map_of_mem inside), ?_⟩)
            exact id_specialized _ _ _ original
          · obtain ⟨original, inside, rfl⟩ := List.mem_map.mp global
            exact List.mem_append_right _ (List.mem_map.mpr ⟨_, List.mem_map_of_mem
              (List.mem_filter.mpr ⟨inside, decide_eq_true present⟩), rfl⟩)
        · exact absurd (List.mem_append_left _ (List.mem_append_left _
            (List.mem_append_right _ entry))) present
      swept := by
        intro global member
        by_contra unswept
        rw [not_or, Bool.not_eq_true] at unswept
        have removed := JitModule.mem_unusedVariables.mpr
          ⟨global, member, unswept.1, unswept.2, rfl⟩
        rw [JitModule.unusedVariables_sweep le_rfl] at removed
        exact List.not_mem_nil removed }

end Work

/-! ## Where the symbols are found -/

/-- A symbol is found in the library of the module, or by its name in the process. -/
inductive Location where
  | own (id : ValueId)
  | process (name : Name)
  deriving DecidableEq

def JitModule.locate (module : JitModule) (id : ValueId) : Option Location :=
  match module.functions.find? (·.id = id) with
  | some func => some (if func.body.isSome then .own id else .process func.name)
  | none =>
      (module.globals.find? (·.id = id)).map fun global =>
        if global.initializer.isSome then .own id else .process global.name

theorem find?_eq_of_nodup {α β : Type*} [DecidableEq β] {ident : α → β} {l : List α} {one : α}
    (distinct : (l.map ident).Nodup) (member : one ∈ l) :
    l.find? (fun other => ident other = ident one) = some one := by
  cases search : l.find? (fun other => decide (ident other = ident one)) with
  | none =>
      have missed := List.find?_eq_none.mp search one member
      exact absurd (decide_eq_true rfl) missed
  | some found =>
      have same : ident found = ident one := by simpa using List.find?_some search
      rw [List.inj_on_of_nodup_map distinct (List.mem_of_find?_eq_some search) member same]

namespace Work

variable (work : Work)

theorem function_ids : (work.module.functions.map (·.id)).Nodup :=
  (List.nodup_append.mp (List.nodup_append.mp work.distinct_ids).1).1

theorem global_ids : (work.module.globals.map (·.id)).Nodup :=
  (List.nodup_append.mp (List.nodup_append.mp work.distinct_ids).1).2.1

theorem function_only {func : JitFunction} (member : func ∈ work.module.functions) :
    func.id ∉ work.module.globals.map (·.id) := by
  intro global
  have separate := (List.nodup_append.mp (List.nodup_append.mp work.distinct_ids).1).2.2
  exact separate func.id (List.mem_map_of_mem member) func.id global rfl

end Work

namespace Prepared

variable {work : Work} {jitName : Name} {prepared : JitModule}

theorem function_ids (left : Prepared work.module work.mangledName jitName prepared) :
    prepared.functions.map (·.id) = work.module.functions.map (·.id) := by
  rw [left.functions, List.map_map]
  exact List.map_congr_left fun func _ => id_specialized _ _ _ func

/-- Only the specialized function is its library's own. -/
theorem locate_function (left : Prepared work.module work.mangledName jitName prepared)
    {func : JitFunction} (member : func ∈ work.module.functions)
    (body : func.name = work.mangledName → func.body.isSome = true) :
    prepared.locate func.id =
      some (if func.name = work.mangledName then .own func.id else .process func.name) := by
  have listed : func.specialized work.mangledName jitName work.module.replacedIds ∈
      prepared.functions := by
    rw [left.functions]
    exact List.mem_map_of_mem member
  have distinct : (prepared.functions.map (·.id)).Nodup := by
    rw [left.function_ids]
    exact work.function_ids
  have found := find?_eq_of_nodup distinct listed
  rw [id_specialized] at found
  rw [JitModule.locate, found]
  by_cases named : func.name = work.mangledName
  · simp [JitFunction.specialized, named, body named]
  · simp [JitFunction.specialized, named]

/-- A variable that something uses is kept, with its initializer if it has one. -/
theorem locate_global (left : Prepared work.module work.mangledName jitName prepared)
    {global : GlobalVariable} (member : global ∈ work.module.globals)
    (uses : prepared.Uses global.id) :
    prepared.locate global.id =
      some (if global.initializer.isSome then .own global.id else .process global.name) := by
  have no_function : prepared.functions.find? (·.id = global.id) = none := by
    rw [List.find?_eq_none]
    intro func inside same
    have listed : func.id ∈ work.module.functions.map (·.id) := by
      rw [← left.function_ids]
      exact List.mem_map_of_mem inside
    obtain ⟨original, original_mem, original_id⟩ := List.mem_map.mp listed
    apply work.function_only original_mem
    rw [original_id, of_decide_eq_true same]
    exact List.mem_map_of_mem member
  obtain ⟨kept, sublist, globals_eq, -⟩ := left.globals
  have listed : global.undefs work.module.replacedIds ∈ prepared.globals := by
    rcases List.mem_append.mp (left.closed global.id uses) with func | variable_id
    · rw [left.function_ids] at func
      obtain ⟨original, original_mem, original_id⟩ := List.mem_map.mp func
      apply absurd _ (work.function_only original_mem)
      rw [original_id]
      exact List.mem_map_of_mem member
    · obtain ⟨survivor, inside, same⟩ := List.mem_map.mp variable_id
      rw [globals_eq] at inside ⊢
      obtain ⟨original, original_kept, rfl⟩ := List.mem_map.mp inside
      rw [List.inj_on_of_nodup_map work.global_ids (sublist.subset original_kept) member same]
        at inside
      exact inside
  have distinct : (prepared.globals.map (·.id)).Nodup := by
    rw [globals_eq, List.map_map]
    exact work.global_ids.sublist (sublist.map _)
  have found := find?_eq_of_nodup distinct listed
  rw [JitModule.locate, no_function]
  refine (congrArg (Option.map _) found).trans ?_
  simp [GlobalVariable.undefs]

end Prepared

namespace Work

variable (work : Work)

theorem function_names : (work.module.functions.map (·.name)).Nodup :=
  (List.nodup_append.mp (List.nodup_append.mp work.distinct_names).1).1

/-- The one function of the name to specialize has a body. -/
theorem isSome_body {func : JitFunction} (member : func ∈ work.module.functions)
    (named : func.name = work.mangledName) : func.body.isSome = true := by
  obtain ⟨target, inside, target_name, defined⟩ := work.defined
  rw [List.inj_on_of_nodup_map work.function_names member inside (named.trans target_name.symm)]
  exact defined

theorem filter_eq_singleton {α : Type*} [DecidableEq α] {keep : α → Bool} {l : List α} {one : α}
    (distinct : l.Nodup) (member : one ∈ l) (alone : ∀ other ∈ l, keep other = true ↔ other = one) :
    l.filter keep = [one] := by
  have same : l.filter keep = l.filter (· = one) := by
    refine List.filter_congr fun other inside => ?_
    rw [Bool.eq_iff_iff, alone other inside, decide_eq_true_iff]
  rw [same, List.filter_eq, List.count_eq_one_of_mem distinct member]
  rfl

/-- The engine adds a module whose one definition of a function is the specialized one.  Each
value that the module still names is found: a function by its name in the process, apart from the
specialized one itself, and a variable in the module if it has an initializer there. -/
theorem specialized_links {jitName : Name} (fresh : jitName ∉ work.module.names) :
    let prepared := work.module.prepare work.mangledName jitName
    ∃ func ∈ work.module.functions, ∃ body, func.name = work.mangledName ∧
      func.body = some body ∧
      prepared.functions.filter (·.body.isSome) =
        [{ func with
            name := jitName
            body := some (body.map (Operand.undefs work.module.replacedIds))
            personality := none }] ∧
      (∀ id, prepared.Uses id → (prepared.locate id).isSome = true) ∧
      (∀ other ∈ work.module.functions, prepared.locate other.id =
        some (if other.name = work.mangledName then .own other.id else .process other.name)) ∧
      (∀ global ∈ work.module.globals, prepared.Uses global.id → prepared.locate global.id =
        some (if global.initializer.isSome then .own global.id else .process global.name)) ∧
      prepared.aliases = [] ∧
      ∀ global ∈ prepared.globals,
        prepared.Uses global.id ∨ "llvm.".toList.isPrefixOf global.name = true := by
  intro prepared
  have left : Prepared work.module work.mangledName jitName prepared := work.prepared fresh
  obtain ⟨func, member, named, defined⟩ := work.defined
  obtain ⟨body, body_eq⟩ := Option.isSome_iff_exists.mp defined
  have functions_located : ∀ other ∈ work.module.functions, prepared.locate other.id =
      some (if other.name = work.mangledName then .own other.id else .process other.name) :=
    fun other inside => left.locate_function inside (work.isSome_body inside)
  have globals_located : ∀ global ∈ work.module.globals, prepared.Uses global.id →
      prepared.locate global.id =
        some (if global.initializer.isSome then .own global.id else .process global.name) :=
    fun global inside uses => left.locate_global inside uses
  refine ⟨func, member, body, named, body_eq, ?_, ?_, functions_located, globals_located,
    left.aliases, left.swept⟩
  · have alone : ∀ other ∈ work.module.functions,
        (other.specialized work.mangledName jitName work.module.replacedIds).body.isSome = true ↔
          other = func := by
      intro other inside
      by_cases same : other.name = work.mangledName
      · have equal := List.inj_on_of_nodup_map work.function_names inside member
          (same.trans named.symm)
        simp [JitFunction.specialized, equal, named, body_eq]
      · have differs : other ≠ func := fun equal => same (equal ▸ named)
        simp [JitFunction.specialized, same, differs]
    have only := filter_eq_singleton (work.function_names.of_map _) member alone
    rw [left.functions, List.filter_map, Function.comp_def, only]
    simp [JitFunction.specialized, named, body_eq]
  · intro id uses
    rcases List.mem_append.mp (left.closed id uses) with function_id | variable_id
    · rw [left.function_ids] at function_id
      obtain ⟨other, inside, rfl⟩ := List.mem_map.mp function_id
      rw [functions_located other inside]
      rfl
    · obtain ⟨kept, sublist, globals_eq, -⟩ := left.globals
      rw [globals_eq] at variable_id
      obtain ⟨survivor, inside, rfl⟩ := List.mem_map.mp variable_id
      obtain ⟨global, global_kept, rfl⟩ := List.mem_map.mp inside
      have located := globals_located global (sublist.subset global_kept) uses
      rw [show (global.undefs work.module.replacedIds).id = global.id from rfl, located]
      rfl

end Work

/-- A pipeline that calls `f`, and names a table and an alias; `f` alone uses the counter. -/
def tableWork : Work where
  module :=
    { functions :=
        [⟨0, "p".toList, some [⟨some 1, false⟩, ⟨some 2, true⟩, ⟨some 5, false⟩],
            some ⟨some 6, false⟩⟩,
          ⟨1, "f".toList, some [⟨some 3, false⟩], none⟩, ⟨6, "personality".toList, none, none⟩]
      globals :=
        [⟨2, "table".toList, some [⟨some 4, true⟩]⟩, ⟨3, "counter".toList, some []⟩,
          ⟨4, "??_R0".toList, none⟩]
      aliases := [⟨5, "a".toList, ⟨some 1, false⟩⟩]
      loose := [] }
  mangledName := "p".toList
  distinct_ids := by decide
  distinct_names := by decide
  closed := by decide
  reserved := by decide
  defined := by decide

/-- The table is the library's own, with `undef` for the type information; the counter is gone. -/
theorem tableWork_links :
    let prepared := tableWork.module.prepare "p".toList "p.jit.1".toList
    prepared.globals = [⟨2, "table".toList, some [⟨none, true⟩]⟩] ∧
      prepared.locate 0 = some (.own 0) ∧ prepared.locate 1 = some (.process "f".toList) ∧
      prepared.locate 2 = some (.own 2) := by
  intro prepared
  have fresh : "p.jit.1".toList ∉ tableWork.module.names := by decide
  obtain ⟨func, -, body, -, -, -, -, functions, globals, -, -⟩ :=
    tableWork.specialized_links fresh
  have pipeline := functions ⟨0, "p".toList,
    some [⟨some 1, false⟩, ⟨some 2, true⟩, ⟨some 5, false⟩], some ⟨some 6, false⟩⟩ (by decide)
  have callee := functions ⟨1, "f".toList, some [⟨some 3, false⟩], none⟩ (by decide)
  have table := globals ⟨2, "table".toList, some [⟨some 4, true⟩]⟩ (by decide) (by decide)
  exact ⟨by decide, pipeline, callee, table⟩

end JitEngine
end TopoLlvm
