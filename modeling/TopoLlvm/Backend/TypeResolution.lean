import TopoLlvm.Backend.TemplateArgs
import TopoLlvm.Library.Chains

/-!
# Types behind aliases

`Verifier::typesMatch` and `Verifier::resolveTopoTypeName` follow type aliases by calling themselves
on the target.  An alias is skipped where its target has the name of the alias; longer cycles are
followed, and with these the calls do not end.  Fuel bounds the depth of the calls.
-/

namespace TopoLlvm
namespace Backend
namespace TypeResolution

/-- `TypeNode::modifier`, as far as the verifier tells its values apart. -/
inductive TypeModifier where
  | ref
  | ptr
  | other
  deriving DecidableEq

/-- A type as it is written. -/
inductive TypeNode where
  | mk (nameParts : List Name) (templateArgs : List TypeNode) (modifier : TypeModifier)

namespace TypeNode

def nameParts : TypeNode → List Name
  | mk nameParts _ _ => nameParts

def templateArgs : TypeNode → List TypeNode
  | mk _ templateArgs _ => templateArgs

def modifier : TypeNode → TypeModifier
  | mk _ _ modifier => modifier

/-- `nameParts.back()`. -/
def lastName (type : TypeNode) : Name := type.nameParts.getLastD []

def isVoid (type : TypeNode) : Bool :=
  type.nameParts.isEmpty || type.nameParts = ["void".toList]

/-- The type within `lifetime<scope, T>`. -/
def lifetimeOf (type : TypeNode) : Option TypeNode :=
  if type.nameParts = ["lifetime".toList] then type.templateArgs.getLast? else none

end TypeNode

/-- `llvm::Type`, as far as the verifier asks. -/
inductive LLVMType where
  | void
  | integer (bits : Nat)
  | float
  | double
  | otherFloatingPoint
  | pointer
  | struct
  | other
  deriving DecidableEq

namespace LLVMType

def isIntegerTy : LLVMType → Bool
  | integer _ => true
  | _ => false

def isFloatingPointTy : LLVMType → Bool
  | float | double | otherFloatingPoint => true
  | _ => false

end LLVMType

/-- `LogicalTypeKind`. -/
inductive LogicalTypeKind where
  | integer
  | unsignedInteger
  | floating
  | boolean
  | text
  | other
  deriving DecidableEq

/-- An alias; its target has a name. -/
structure TypeAlias where
  targetType : TypeNode
  named : targetType.nameParts ≠ []

/-- What resolution reads of the symbol table and the type registry. -/
structure SymbolTable where
  aliases : List TypeAlias
  findTypeAlias : Name → Option TypeAlias
  mem_of_found : ∀ {name known}, findTypeAlias name = some known → known ∈ aliases
  classifyAbstractName : Name → Option LogicalTypeKind
  classSymbols : List Name

/-- Accepted integer widths and floating-point types of the built-in names. -/
def builtinTypes : List (List Name × List LLVMType) :=
  [(["bool", "Bool"], [.integer 1]),
    (["char", "Char", "int8", "Int8", "i8", "u8"], [.integer 8]),
    (["short", "int16", "Int16", "i16", "u16"], [.integer 16]),
    (["int", "Int", "int32", "Int32", "i32", "u32"], [.integer 32]),
    (["long", "Int64", "int64", "i64", "u64"], [.integer 64]),
    (["isize", "usize"], [.integer 64, .integer 32]),
    (["float", "Float", "f32"], [.float]),
    (["double", "Double", "f64"], [.double])].map
      fun entry => (entry.1.map String.toList, entry.2)

namespace SymbolTable

variable (symbols : SymbolTable)

/-- The target of an alias that has another name. -/
def aliasTarget (name : Name) : Option TypeNode :=
  (symbols.findTypeAlias name).bind fun known =>
    if known.targetType.lastName ≠ name then some known.targetType else none

/-- The end of `typesMatch`, for a class that may be passed in pieces. -/
def isKnownClass (topoType : TypeNode) : Bool :=
  let qualName := topoType.nameParts.foldl
    (fun joined part => (if joined.isEmpty then joined else joined ++ [':', ':']) ++ part) []
  let suffix := [':', ':'] ++ topoType.lastName
  symbols.classSymbols.contains qualName ||
    symbols.classSymbols.any fun cls =>
      cls = topoType.lastName || (suffix.length < cls.length && suffix.isSuffixOf cls)

/-- What `typesMatch` says of a name that it does not follow. -/
def matchesNamed (llvmType : LLVMType) (topoType : TypeNode) : Bool :=
  match symbols.classifyAbstractName topoType.lastName with
  | some .integer | some .unsignedInteger => llvmType.isIntegerTy
  | some .floating => llvmType.isFloatingPointTy
  | some .boolean => llvmType = .integer 1
  | some .text => llvmType = .pointer || llvmType = .struct
  | some .other => true
  | none =>
      match builtinTypes.find? fun entry => entry.1.contains topoType.lastName with
      | some entry => entry.2.contains llvmType
      | none =>
          llvmType = .struct || llvmType = .pointer || symbols.isKnownClass topoType

def typesMatch (llvmType : LLVMType) : Nat → TypeNode → Option Bool
  | 0, _ => none
  | fuel + 1, topoType =>
      if topoType.isVoid then some (llvmType = .void)
      else
        match topoType.lifetimeOf with
        | some inner => typesMatch llvmType fuel inner
        | none =>
            if topoType.modifier = .ref ∨ topoType.modifier = .ptr then some (llvmType = .pointer)
            else
              match symbols.aliasTarget topoType.lastName with
              | some target => typesMatch llvmType fuel target
              | none => some (symbols.matchesNamed llvmType topoType)

end SymbolTable

/-- The basic type mapping of `resolveTopoTypeName`. -/
def basicTypes : List (Name × Name) :=
  [("Int", "int"), ("int", "int"), ("Bool", "bool"), ("bool", "bool"), ("Char", "char"),
    ("char", "char"), ("Float", "float"), ("float", "float"), ("Double", "double"),
    ("double", "double"), ("String", "std::string"), ("Int8", "int8_t"), ("int8", "int8_t"),
    ("Int16", "int16_t"), ("int16", "int16_t"), ("Int32", "int32_t"), ("int32", "int32_t"),
    ("Int64", "int64_t"), ("int64", "int64_t")].map fun entry => (entry.1.toList, entry.2.toList)

/-- What `resolveTopoTypeName` makes of a name that it does not follow. -/
def resolveNamed (type : TypeNode) : Name :=
  match basicTypes.lookup type.lastName with
  | some basic => basic
  | none =>
      let canonical := canonicalizeTypeName type.lastName
      if 1 < type.nameParts.length ∧ canonical = type.lastName then
        ([':', ':'] : Name).intercalate type.nameParts
      else canonical

namespace SymbolTable

variable (symbols : SymbolTable)

def resolveTopoTypeName : Nat → TypeNode → Option Name
  | 0, _ => none
  | fuel + 1, type =>
      if type.nameParts.isEmpty then some []
      else
        match symbols.aliasTarget type.lastName with
        | some target => resolveTopoTypeName fuel target
        | none => some (resolveNamed type)

/-- From a type to what its name stands for. -/
def ResolveStep (type target : TypeNode) : Prop :=
  type.nameParts ≠ [] ∧ symbols.aliasTarget type.lastName = some target

/-- From a type to the type within its lifetime or, for a value, to what its name stands for. -/
inductive MatchStep : TypeNode → TypeNode → Prop where
  | lifetime {type inner : TypeNode} (solid : type.isVoid = false)
      (within : type.lifetimeOf = some inner) : MatchStep type inner
  | named {type target : TypeNode} (solid : type.isVoid = false)
      (bare : type.lifetimeOf = none) (value : type.modifier = .other)
      (stands : symbols.aliasTarget type.lastName = some target) : MatchStep type target

/-- The call returns, given enough fuel. -/
def TypesMatchReturns (llvmType : LLVMType) (type : TypeNode) : Prop :=
  ∃ fuel, (symbols.typesMatch llvmType fuel type).isSome

def ResolveReturns (type : TypeNode) : Prop :=
  ∃ fuel, (symbols.resolveTopoTypeName fuel type).isSome

variable {symbols}

theorem matchStep_value {modifier : TypeModifier} (other : ¬(modifier = .ref ∨ modifier = .ptr)) :
    modifier = .other := by
  cases modifier with
  | ref => exact absurd (.inl rfl) other
  | ptr => exact absurd (.inr rfl) other
  | other => rfl

theorem recursion_typesMatch (llvmType : LLVMType) :
    Chains.Recursion symbols.MatchStep (symbols.typesMatch llvmType) where
  deterministic := by
    intro type next other first second
    cases first with
    | lifetime solid within =>
        cases second with
        | lifetime _ again => exact Option.some.inj (within.symm.trans again)
        | named _ bare => exact absurd (within.symm.trans bare) (by simp)
    | named solid bare value stands =>
        cases second with
        | lifetime _ within => exact absurd (within.symm.trans bare) (by simp)
        | named _ _ _ again => exact Option.some.inj (stands.symm.trans again)
  zero _ := rfl
  next := by
    intro type next taken fuel
    cases taken with
    | lifetime solid within =>
        rw [typesMatch, solid, if_neg Bool.false_ne_true, within]
    | named solid bare value stands =>
        rw [typesMatch, solid, if_neg Bool.false_ne_true, bare]
        simp only [value, stands, reduceCtorEq, or_self, if_false]
  last := by
    intro type ends fuel
    rw [typesMatch]
    split
    · rfl
    · rename_i solid
      rw [Bool.not_eq_true] at solid
      split
      · rename_i inner within
        exact absurd (.lifetime solid within) (ends inner)
      · rename_i bare
        split
        · rfl
        · rename_i other
          split
          · rename_i target stands
            exact absurd (.named solid bare (matchStep_value other) stands) (ends target)
          · rfl

theorem recursion_resolveTopoTypeName :
    Chains.Recursion symbols.ResolveStep symbols.resolveTopoTypeName where
  deterministic first second := Option.some.inj (first.2.symm.trans second.2)
  zero _ := rfl
  next := by
    rintro type next ⟨some, stands⟩ fuel
    rw [resolveTopoTypeName, if_neg (by simpa using some), stands]
  last := by
    intro type ends fuel
    rw [resolveTopoTypeName]
    split
    · rfl
    · rename_i some
      split
      · rename_i target stands
        exact absurd ⟨by simpa using some, stands⟩ (ends target)
      · rfl

/-- From a type to the type within its lifetime. -/
def Within (type inner : TypeNode) : Prop := type.lifetimeOf = some inner

theorem sizeOf_within {type inner : TypeNode} (within : Within type inner) :
    sizeOf inner < sizeOf type := by
  cases type with
  | mk nameParts templateArgs modifier =>
      unfold Within TypeNode.lifetimeOf at within
      split at within
      · have member : inner ∈ templateArgs := List.mem_of_getLast? within
        have smaller := List.sizeOf_lt_of_mem member
        rw [TypeNode.mk.sizeOf_spec]
        omega
      · cases within

theorem finite_within (type : TypeNode) :
    {other | Relation.ReflTransGen Within type other}.Finite := by
  refine Chains.finite_of_acc
    (fun first second => Option.some.inj (first.symm.trans second)) ?_
  have smaller : WellFounded (InvImage (· < ·) (sizeOf : TypeNode → Nat)) :=
    InvImage.wf sizeOf Nat.lt_wfRel.wf
  exact Subrelation.accessible sizeOf_within (smaller.apply type)

theorem aliasTarget_mem {name : Name} {target : TypeNode}
    (stands : symbols.aliasTarget name = some target) :
    target ∈ symbols.aliases.map TypeAlias.targetType := by
  obtain ⟨known, found, kept⟩ := Option.bind_eq_some_iff.mp stands
  split at kept
  · rw [← Option.some.inj kept]
    exact List.mem_map_of_mem (symbols.mem_of_found found)
  · cases kept

theorem finite_matchStep (type : TypeNode) :
    {other | Relation.ReflTransGen symbols.MatchStep type other}.Finite := by
  refine Chains.finite_reachable
    (symbols.aliases.map TypeAlias.targetType).finite_toSet finite_within ?_ type
  intro state next taken
  cases taken with
  | lifetime _ within => exact .inl within
  | named _ _ _ stands => exact .inr (aliasTarget_mem stands)

theorem finite_resolveStep (type : TypeNode) :
    {other | Relation.ReflTransGen symbols.ResolveStep type other}.Finite :=
  Chains.finite_reachable (symbols.aliases.map TypeAlias.targetType).finite_toSet finite_within
    (fun taken => .inr (aliasTarget_mem taken.2)) type

/-- Either call returns exactly where the types it goes through do not come back to one of them. -/
theorem resolution_returns_iff (symbols : SymbolTable) (type : TypeNode) :
    ((∀ llvmType, symbols.TypesMatchReturns llvmType type) ↔
        ¬Chains.ReachesCycle symbols.MatchStep type) ∧
      (symbols.ResolveReturns type ↔ ¬Chains.ReachesCycle symbols.ResolveStep type) := by
  constructor
  · rw [← Chains.acc_iff_not_reachesCycle (finite_matchStep type)]
    constructor
    · intro returns
      exact (recursion_typesMatch .other).exists_fuel_iff.mp (returns .other)
    · intro ends llvmType
      exact (recursion_typesMatch llvmType).exists_fuel_iff.mpr ends
  · rw [← Chains.acc_iff_not_reachesCycle (finite_resolveStep type)]
    exact recursion_resolveTopoTypeName.exists_fuel_iff

/-- A value of the named type. -/
def plain (name : String) : TypeNode := .mk [name.toList] [] .other

/-- `using A = B; using B = A;`. -/
def swappedAliases : SymbolTable where
  aliases := [⟨plain "B", by decide⟩, ⟨plain "A", by decide⟩]
  findTypeAlias name :=
    if name = ['A'] then some ⟨plain "B", by decide⟩
    else if name = ['B'] then some ⟨plain "A", by decide⟩
    else none
  mem_of_found := by
    intro name known found
    split_ifs at found with first second
    · exact Option.some.inj found ▸ .head _
    · exact Option.some.inj found ▸ .tail _ (.head _)
  classifyAbstractName _ := none
  classSymbols := []

theorem swappedAliases_do_not_return :
    ¬swappedAliases.TypesMatchReturns .pointer (plain "A") ∧
      ¬swappedAliases.ResolveReturns (plain "A") := by
  constructor
  · intro returns
    have there : swappedAliases.MatchStep (plain "A") (plain "B") :=
      .named (by decide) (by decide) rfl rfl
    have back : swappedAliases.MatchStep (plain "B") (plain "A") :=
      .named (by decide) (by decide) rfl rfl
    have ends := (recursion_typesMatch .pointer).exists_fuel_iff.mp returns
    exact Chains.not_cycle_of_acc ends (.tail (.single there) back)
  · intro returns
    have there : swappedAliases.ResolveStep (plain "A") (plain "B") := ⟨by decide, rfl⟩
    have back : swappedAliases.ResolveStep (plain "B") (plain "A") := ⟨by decide, rfl⟩
    have ends := recursion_resolveTopoTypeName.exists_fuel_iff.mp returns
    exact Chains.not_cycle_of_acc ends (.tail (.single there) back)

end SymbolTable
end TypeResolution
end Backend
end TopoLlvm
