import TopoLlvm.Backend.SymbolMapper
import TopoLlvm.Library.Text
import TopoLlvm.Library.VirtualTable

/-!
# Devirtualized calls

`IndirectionPass` takes the number of an entry in a virtual table for the number of a method that
the declared class of a parameter declares itself, and calls that method directly.
-/

namespace TopoLlvm
namespace Devirtualization

open TopoLlvm.Backend

/-! ## Declarations -/

structure TypeNode where
  nameParts : List Name
  deriving DecidableEq

def TypeNode.name (type : TypeNode) : Name := [':', ':'].intercalate type.nameParts

structure FunctionSymbol where
  params : List TypeNode
  isStatic : Bool

/-- What a class declares, in order. -/
inductive Member where
  | method (qualifiedName : Name)
  | constructor
  | destructor

structure ClassSymbol where
  baseClass : Option TypeNode
  members : List Member

/-- The methods, static ones included; the constructors and the destructor are kept elsewhere. -/
def ClassSymbol.memberFunctions (cls : ClassSymbol) : List Name :=
  cls.members.filterMap fun
    | .method qualifiedName => some qualifiedName
    | _ => none

structure LogicBlock where
  isPipeline : Bool
  hasAnalysis : Bool
  calledFunctions : List Name

structure SymbolTable where
  functions : AList fun _ : Name => FunctionSymbol
  classSymbols : AList fun _ : Name => ClassSymbol
  logicBlocks : List LogicBlock

namespace SymbolTable

variable (symbols : SymbolTable)

def findFunction (name : Name) : Option FunctionSymbol := symbols.functions.lookup name

def findClassSymbol (name : Name) : Option ClassSymbol := symbols.classSymbols.lookup name

def isStatic (name : Name) : Bool := (symbols.findFunction name).any (·.isStatic)

/-- `TypeHierarchy::derivedClasses`; a base without derived classes has no entry. -/
def derivedClasses (baseName : Name) : List Name :=
  symbols.classSymbols.entries.filterMap fun ⟨name, cls⟩ =>
    match cls.baseClass with
    | some base => if base.name ≠ [] ∧ base.name = baseName then some name else none
    | none => none

/-- `TypeHierarchy::classMethods`: the instance methods that the class declares itself. -/
def classMethods (name : Name) : Option (List Name) :=
  (symbols.findClassSymbol name).map fun cls =>
    cls.memberFunctions.filter fun method => !symbols.isStatic method

/-- `ConcreteTypeMap::paramTypes`. -/
def paramTypes (function : Name) (param : Nat) : Option Name :=
  (symbols.findFunction function).bind fun funcSym =>
    (funcSym.params[param]?).bind fun type =>
      let typeName := type.name
      if typeName = [] then none
      else
        (symbols.findClassSymbol typeName).bind fun cls =>
          let isLeaf := (symbols.derivedClasses typeName).isEmpty
          let isDerived := cls.baseClass.isSome
          if isLeaf || isDerived then some typeName else none

end SymbolTable

/-! ## Functions -/

inductive Operand where
  | argument (argNo : Nat)
  | inst (index : Nat)
  | function (id : FunctionId)
  | other (value : Nat)
  deriving DecidableEq

/-- An index of a GEP. -/
inductive Index where
  | constant {width : Nat} (bits : BitVec width)
  | value (operand : Operand)

/-- An instruction; its index in the function is also the name of its value. -/
inductive Inst (Ty : Type) where
  | alloca
  /-- With the size of the type that the first index counts in. -/
  | gep (elementSize : Nat) (base : Operand) (indices : List Index)
  | load (isPointer : Bool) (pointer : Operand)
  | store (value pointer : Operand)
  /-- A call or an invoke. -/
  | call (type : Ty) (callee : Operand) (arguments : List Operand)
  /-- A phi, a select or a cast: one of its operands. -/
  | merge (incoming : List Operand)
  | other (operands : List Operand)

def Index.operands : Index → List Operand
  | .constant _ => []
  | .value operand => [operand]

def Inst.operands {Ty : Type} : Inst Ty → List Operand
  | alloca => []
  | gep _ base indices => base :: indices.flatMap Index.operands
  | load _ pointer => [pointer]
  | store value pointer => [value, pointer]
  | call _ callee arguments => callee :: arguments
  | merge incoming => incoming
  | other operands => operands

structure Function (Ty : Type) where
  isDeclaration : Bool
  type : Ty
  /-- The arguments ahead of the declared ones, an object or a place for the result, with the
  classes of the objects. -/
  implicit : List (Option Name)
  insts : List (Inst Ty)
  /-- The users of an instruction, in the order in which LLVM lists them. -/
  users : Nat → List Nat
  mem_users : ∀ index user, user ∈ users index ↔
    ∃ inst, insts[user]? = some inst ∧ .inst index ∈ inst.operands

structure Module (Ty : Type) where
  function : FunctionId → Function Ty

namespace Function

variable {Ty : Type} (func : Function Ty)

/-- What the entry of the table is read through. -/
def calledPointer (call : Nat) : Option Operand :=
  match func.insts[call]? with
  | some (.call _ (.inst fptrLoad) _) =>
      match func.insts[fptrLoad]? with
      | some (.load _ pointer) => some pointer
      | _ => none
  | _ => none

/-- `isVtableCall`: the object whose table is read, and the index of the entry. -/
def isVtableCall (call : Nat) : Option (Operand × Int) :=
  match func.calledPointer call with
  | some (.inst pointer) =>
      match func.insts[pointer]? with
      | some (.gep _ (.inst vtableLoad) [.constant bits]) =>
          match func.insts[vtableLoad]? with
          | some (.load _ object) => some (object, (bits.setWidth 32).toInt)
          | _ => none
      | some (.load true object) => some (object, 0)
      | _ => none
  | _ => none

/-- How far into the table the entry is read. -/
def entryOffset (call : Nat) : Int :=
  match func.calledPointer call with
  | some (.inst pointer) =>
      match func.insts[pointer]? with
      | some (.gep elementSize _ [.constant bits]) => bits.toInt * elementSize
      | _ => 0
  | _ => 0

/-- An argument that is stored to a local. -/
def storedArgument (slot user : Nat) : Option Nat :=
  match func.insts[user]? with
  | some (.store (.argument argNo) pointer) => if pointer = .inst slot then some argNo else none
  | _ => none

def traceSteps : Nat → Operand → Option Nat
  | 0, _ => none
  | _ + 1, .argument argNo => some argNo
  | depth + 1, .inst index =>
      match func.insts[index]? with
      | some (.gep _ base _) => traceSteps depth base
      | some (.load _ pointer) => traceSteps depth pointer
      | some .alloca => (func.users index).findSome? (func.storedArgument index)
      | _ => none
  | _ + 1, _ => none

def traceToArgument (object : Operand) : Option Nat := func.traceSteps 8 object

end Function

/-! ## The pass -/

/-- A call that is made direct, for a function that a pipeline calls. -/
structure Replacement where
  calledFn : Name
  id : FunctionId
  call : Nat
  targetMethod : Name
  target : FunctionId

section Pass

variable {Ty : Type} [DecidableEq Ty] (symbols : SymbolTable)
  (mapping : SymbolMapping) (allowed : Option (List FunctionId)) (module : Module Ty)

/-- The method that a call is resolved to. -/
def resolve (calledFn : Name) (func : Function Ty) (call : Nat) : Option Name :=
  (func.isVtableCall call).bind fun (object, vtableIdx) =>
    (func.traceToArgument object).bind fun argNo =>
      (symbols.paramTypes calledFn argNo).bind fun concreteClass =>
        (symbols.classMethods concreteClass).bind fun methods =>
          if vtableIdx < 0 then none else methods[vtableIdx.toNat]?

/-- The call, with the function of the method that it is resolved to, where the types agree. -/
def offer (calledFn : Name) (id : FunctionId) (call : Nat) : Option Replacement :=
  let func := module.function id
  if func.isDeclaration ∨ allowed.any fun functions => !functions.contains id then none
  else
    (resolve symbols calledFn func call).bind fun targetMethod =>
      (mapping.matched.lookup targetMethod).bind fun target =>
        match func.insts[call]? with
        | some (.call type _ _) =>
            if (module.function target).type = type then
              some { calledFn, id, call, targetMethod, target }
            else none
        | _ => none

/-- The replacements in a function; a call that has been replaced is direct. -/
def devirtualizeFunction (replaced : List Replacement) (calledFn : Name) : List Replacement :=
  match mapping.matched.lookup calledFn with
  | none => []
  | some id =>
      (List.range (module.function id).insts.length).filterMap fun call =>
        if replaced.any fun earlier => earlier.id = id ∧ earlier.call = call then none
        else offer symbols mapping allowed module calledFn id call

def stageFunctions : List Name :=
  symbols.logicBlocks.flatMap fun lb =>
    if lb.isPipeline && lb.hasAnalysis then lb.calledFunctions else []

/-- `devirtualizeCalls`: the calls that are replaced, in order. -/
def devirtualizeCalls : List Replacement :=
  (stageFunctions symbols).foldl
    (fun replaced calledFn =>
      replaced ++ devirtualizeFunction symbols mapping allowed module replaced calledFn) []

end Pass

/-! ## What is replaced -/

section Replaced

variable {Ty : Type} [DecidableEq Ty] (symbols : SymbolTable) (mapping : SymbolMapping)
  (allowed : Option (List FunctionId)) (module : Module Ty)

/-- The table of an object is read, which is traced to a parameter of a class that is taken for
exact; the method of that class with the number of the entry has a function of the call's type. -/
def Recognises (calledFn : Name) (id : FunctionId) (call : Nat) (object : Operand)
    (concreteClass targetMethod : Name) (target : FunctionId) : Prop :=
  (module.function id).isDeclaration = false ∧
    (allowed.any fun functions => !functions.contains id) = false ∧
      ∃ vtableIdx argNo methods arguments callee,
        (module.function id).isVtableCall call = some (object, vtableIdx) ∧
        (module.function id).traceToArgument object = some argNo ∧
        symbols.paramTypes calledFn argNo = some concreteClass ∧
        symbols.classMethods concreteClass = some methods ∧ 0 ≤ vtableIdx ∧
        methods[vtableIdx.toNat]? = some targetMethod ∧
        mapping.matched.lookup targetMethod = some target ∧
        (module.function id).insts[call]? =
          some (.call (module.function target).type callee arguments)

variable {symbols mapping allowed module} {calledFn targetMethod : Name} {id target : FunctionId}
  {call : Nat} {replacement : Replacement}

omit [DecidableEq Ty] in
theorem resolve_eq_some_iff {func : Function Ty} :
    resolve symbols calledFn func call = some targetMethod ↔
      ∃ object vtableIdx argNo concreteClass methods,
        func.isVtableCall call = some (object, vtableIdx) ∧
        func.traceToArgument object = some argNo ∧
        symbols.paramTypes calledFn argNo = some concreteClass ∧
        symbols.classMethods concreteClass = some methods ∧ 0 ≤ vtableIdx ∧
        methods[vtableIdx.toNat]? = some targetMethod := by
  unfold resolve
  constructor
  · intro resolved
    obtain ⟨⟨object, vtableIdx⟩, isCall, resolved⟩ := Option.bind_eq_some_iff.mp resolved
    obtain ⟨argNo, traced, resolved⟩ := Option.bind_eq_some_iff.mp resolved
    obtain ⟨concreteClass, isExact, resolved⟩ := Option.bind_eq_some_iff.mp resolved
    obtain ⟨methods, declared, resolved⟩ := Option.bind_eq_some_iff.mp resolved
    split at resolved
    · cases resolved
    · rename_i natural
      exact ⟨object, vtableIdx, argNo, concreteClass, methods, isCall, traced, isExact, declared,
        Int.not_lt.mp natural, resolved⟩
  · rintro ⟨object, vtableIdx, argNo, concreteClass, methods, isCall, traced, isExact, declared,
      natural, found⟩
    rw [isCall, Option.bind_some]
    dsimp only
    rw [traced, Option.bind_some, isExact, Option.bind_some, declared, Option.bind_some,
      if_neg (Int.not_lt.mpr natural), found]

/-- An offer is for a call that is recognised. -/
theorem offer_eq_some_iff :
    offer symbols mapping allowed module calledFn id call = some replacement ↔
      ∃ object concreteClass targetMethod target,
        replacement = { calledFn, id, call, targetMethod, target } ∧
          Recognises symbols mapping allowed module calledFn id call object concreteClass
            targetMethod target := by
  unfold offer
  constructor
  · intro offered
    dsimp only at offered
    split at offered
    · cases offered
    · rename_i admitted
      obtain ⟨defined, within⟩ := not_or.mp admitted
      obtain ⟨targetMethod, resolved, offered⟩ := Option.bind_eq_some_iff.mp offered
      obtain ⟨target, matched, offered⟩ := Option.bind_eq_some_iff.mp offered
      obtain ⟨object, vtableIdx, argNo, concreteClass, methods, isCall, traced, isExact, declared,
        natural, found⟩ := resolve_eq_some_iff.mp resolved
      split at offered
      · rename_i type callee arguments there
        split at offered
        · rename_i agree
          subst agree
          exact ⟨object, concreteClass, targetMethod, target, (Option.some.inj offered).symm,
            Bool.eq_false_iff.mpr defined, Bool.eq_false_iff.mpr within, vtableIdx, argNo, methods,
            arguments, callee, isCall, traced, isExact, declared, natural, found, matched, there⟩
        · cases offered
      · cases offered
  · rintro ⟨object, concreteClass, targetMethod, target, rfl, defined, within, vtableIdx, argNo,
      methods, arguments, callee, isCall, traced, isExact, declared, natural, found, matched, there⟩
    have resolved := resolve_eq_some_iff.mpr ⟨object, vtableIdx, argNo, concreteClass, methods,
      isCall, traced, isExact, declared, natural, found⟩
    dsimp only
    rw [if_neg (not_or.mpr ⟨Bool.eq_false_iff.mp defined, Bool.eq_false_iff.mp within⟩), resolved,
      Option.bind_some, matched, Option.bind_some, there]
    exact if_pos rfl

/-- The function of the name offers to replace the call. -/
def Offers (symbols : SymbolTable) (mapping : SymbolMapping) (allowed : Option (List FunctionId))
    (module : Module Ty) (id : FunctionId) (call : Nat) (calledFn : Name) : Prop :=
  mapping.matched.lookup calledFn = some id ∧
    ∃ replacement, offer symbols mapping allowed module calledFn id call = some replacement

theorem mem_devirtualizeFunction {replaced : List Replacement} :
    replacement ∈ devirtualizeFunction symbols mapping allowed module replaced calledFn ↔
      mapping.matched.lookup calledFn = some replacement.id ∧
        (∀ earlier ∈ replaced, earlier.id = replacement.id → earlier.call ≠ replacement.call) ∧
          offer symbols mapping allowed module calledFn replacement.id replacement.call =
            some replacement := by
  unfold devirtualizeFunction
  constructor
  · intro member
    split at member
    · cases member
    · rename_i id matched
      obtain ⟨call, -, offered⟩ := List.mem_filterMap.mp member
      split at offered
      · cases offered
      · rename_i free
        have ⟨_, _, _, _, same, _⟩ := offer_eq_some_iff.mp offered
        subst same
        refine ⟨matched, fun earlier member' sameId sameCall => free ?_, offered⟩
        exact List.any_eq_true.mpr ⟨earlier, member', decide_eq_true ⟨sameId, sameCall⟩⟩
  · rintro ⟨matched, free, offered⟩
    rw [matched]
    have ⟨_, _, _, _, _, recognised⟩ := offer_eq_some_iff.mp offered
    obtain ⟨-, -, _, _, _, _, _, -, -, -, -, -, -, -, there⟩ := recognised
    refine List.mem_filterMap.mpr ⟨replacement.call,
      List.mem_range.mpr (List.getElem?_eq_some_iff.mp there).1, ?_⟩
    rw [if_neg, offered]
    intro taken
    obtain ⟨earlier, member, same⟩ := List.any_eq_true.mp taken
    obtain ⟨sameId, sameCall⟩ := of_decide_eq_true same
    exact free earlier member sameId sameCall

/-- A call is replaced for the first function of a pipeline that offers to. -/
theorem mem_foldl_devirtualizeFunction {names : List Name} {replaced : List Replacement} :
    replacement ∈ names.foldl (fun replaced calledFn =>
        replaced ++ devirtualizeFunction symbols mapping allowed module replaced calledFn)
        replaced ↔
      replacement ∈ replaced ∨
        (∀ earlier ∈ replaced, earlier.id = replacement.id → earlier.call ≠ replacement.call) ∧
          ∃ front back, names = front ++ replacement.calledFn :: back ∧
            mapping.matched.lookup replacement.calledFn = some replacement.id ∧
            offer symbols mapping allowed module replacement.calledFn replacement.id
              replacement.call = some replacement ∧
            ∀ earlier ∈ front, ¬ Offers symbols mapping allowed module replacement.id
              replacement.call earlier := by
  induction names generalizing replaced with
  | nil =>
      constructor
      · exact .inl
      · rintro (member | ⟨-, front, back, split, -⟩)
        · exact member
        · cases front <;> cases split
  | cons name names ih =>
      rw [List.foldl_cons, ih, List.mem_append, mem_devirtualizeFunction]
      constructor
      · rintro ((member | ⟨matched, free, offered⟩) |
          ⟨free, front, back, rfl, matched, offered, first⟩)
        · exact .inl member
        · have ⟨_, _, _, _, same, _⟩ := offer_eq_some_iff.mp offered
          have isName : replacement.calledFn = name := congrArg Replacement.calledFn same
          subst isName
          exact .inr ⟨free, [], names, rfl, matched, offered, nofun⟩
        · rw [List.forall_mem_append] at free
          refine .inr ⟨free.1, name :: front, back, rfl, matched, offered,
            List.forall_mem_cons.mpr ⟨?_, first⟩⟩
          rintro ⟨matched', other, offered'⟩
          have ⟨_, _, _, _, same, _⟩ := offer_eq_some_iff.mp offered'
          have sameId : other.id = replacement.id := by rw [same]
          have sameCall : other.call = replacement.call := by rw [same]
          refine free.2 other (mem_devirtualizeFunction.mpr ?_) sameId sameCall
          rw [sameId, sameCall]
          exact ⟨matched', free.1, offered'⟩
      · rintro (member | ⟨free, front, back, split, matched, offered, first⟩)
        · exact .inl (.inl member)
        · cases front with
          | nil =>
              obtain ⟨rfl, rfl⟩ := List.cons.inj split
              exact .inl (.inr ⟨matched, free, offered⟩)
          | cons other front =>
              obtain ⟨rfl, rfl⟩ := List.cons.inj split
              obtain ⟨declines, first⟩ := List.forall_mem_cons.mp first
              refine .inr ⟨List.forall_mem_append.mpr ⟨free, ?_⟩, front, back, rfl, matched,
                offered, first⟩
              intro earlier member sameId sameCall
              obtain ⟨matched', -, offered'⟩ := mem_devirtualizeFunction.mp member
              rw [sameId] at matched'
              rw [sameId, sameCall] at offered'
              exact declines ⟨matched', earlier, offered'⟩

theorem mem_devirtualizeCalls :
    replacement ∈ devirtualizeCalls symbols mapping allowed module ↔
      ∃ front back, stageFunctions symbols = front ++ replacement.calledFn :: back ∧
        mapping.matched.lookup replacement.calledFn = some replacement.id ∧
        offer symbols mapping allowed module replacement.calledFn replacement.id
          replacement.call = some replacement ∧
        ∀ earlier ∈ front, ¬ Offers symbols mapping allowed module replacement.id
          replacement.call earlier := by
  unfold devirtualizeCalls
  rw [mem_foldl_devirtualizeFunction]
  constructor
  · rintro (none | ⟨-, found⟩)
    · cases none
    · exact found
  · intro found
    exact .inr ⟨List.forall_mem_nil _, found⟩

end Replaced

/-! ## Dynamic dispatch -/

/-- What a declaration has to agree with to override another. -/
inductive Key where
  | method (simpleName : Name) (params : Option (List TypeNode))
  | destructor (variant : Nat)
  deriving DecidableEq

inductive Implementation where
  | method (qualifiedName : Name)
  | destructor (className : Name) (variant : Nat)
  deriving DecidableEq

/-- How tables are laid out: some compilers give a destructor two entries and others one. -/
structure TableLayout where
  pointerSize : Nat
  destructorEntries : Nat

namespace SymbolTable

variable (symbols : SymbolTable) (layout : TableLayout)

def methodKey (method : Name) : Key :=
  .method (Text.afterLast [':', ':'] method) ((symbols.findFunction method).map (·.params))

def memberEntries (className : Name) : Member → List (Key × Implementation)
  | .method method =>
      if symbols.isStatic method then [] else [(symbols.methodKey method, .method method)]
  | .constructor => []
  | .destructor => (List.range layout.destructorEntries).map fun variant =>
      (.destructor variant, .destructor className variant)

/-- What a class puts into its table. -/
def declaredEntries (className : Name) (cls : ClassSymbol) : List (Key × Implementation) :=
  cls.members.flatMap (symbols.memberEntries layout className)

end SymbolTable

/-- Classes as the host language admits them: none declares a method twice, and a qualified name
is a method of one class. -/
structure HostClasses (symbols : SymbolTable) extends TableLayout where
  distinct : ∀ name cls, symbols.findClassSymbol name = some cls →
    ((symbols.declaredEntries toTableLayout name cls).map (·.1)).Nodup
  owner : ∀ name cls other cls' method, symbols.findClassSymbol name = some cls →
    symbols.findClassSymbol other = some cls' → method ∈ cls.memberFunctions →
    method ∈ cls'.memberFunctions → name = other

namespace SymbolTable

variable {symbols : SymbolTable} {layout : TableLayout} {className : Name} {cls : ClassSymbol}

theorem mem_memberFunctions {method : Name} :
    method ∈ cls.memberFunctions ↔ .method method ∈ cls.members := by
  unfold ClassSymbol.memberFunctions
  rw [List.mem_filterMap]
  constructor
  · rintro ⟨member, inside, isMethod⟩
    cases member with
    | method other =>
        cases isMethod
        exact inside
    | constructor | destructor => cases isMethod
  · intro inside
    exact ⟨_, inside, rfl⟩

/-- The entry of a method is that of its name. -/
theorem method_mem_declaredEntries {key : Key} {method : Name} :
    (key, .method method) ∈ symbols.declaredEntries layout className cls ↔
      method ∈ cls.memberFunctions ∧ symbols.isStatic method = false ∧
        key = symbols.methodKey method := by
  unfold declaredEntries
  rw [List.mem_flatMap, mem_memberFunctions]
  constructor
  · rintro ⟨member, inside, entry⟩
    cases member with
    | method other =>
        rw [memberEntries] at entry
        split at entry
        · cases entry
        · rename_i instance_
          obtain ⟨rfl, same⟩ := Prod.mk.inj (List.mem_singleton.mp entry)
          obtain rfl := Implementation.method.inj same
          exact ⟨inside, Bool.eq_false_iff.mpr instance_, rfl⟩
    | constructor => cases entry
    | destructor =>
        obtain ⟨_, -, same⟩ := List.mem_map.mp entry
        cases same
  · rintro ⟨inside, notStatic, rfl⟩
    refine ⟨_, inside, ?_⟩
    rw [memberEntries, notStatic]
    exact List.mem_singleton_self _

theorem destructor_mem_declaredEntries {key : Key} {other : Name} {variant : Nat}
    (entry : (key, .destructor other variant) ∈ symbols.declaredEntries layout className cls) :
    other = className ∧ key = .destructor variant := by
  obtain ⟨member, inside, entry⟩ := List.mem_flatMap.mp entry
  cases member with
  | method method =>
      rw [memberEntries] at entry
      split at entry
      · cases entry
      · cases List.mem_singleton.mp entry
  | constructor => cases entry
  | destructor =>
      obtain ⟨_, -, same⟩ := List.mem_map.mp entry
      cases same
      exact ⟨rfl, rfl⟩

end SymbolTable

namespace HostClasses

variable {symbols : SymbolTable} (host : HostClasses symbols)

def hierarchy : VirtualTable.Hierarchy Name Key Implementation where
  find name := (symbols.findClassSymbol name).map fun cls =>
    { base := cls.baseClass.map TypeNode.name
      declared := symbols.declaredEntries host.toTableLayout name cls }
  distinct name cls found := by
    obtain ⟨symbol, isClass, rfl⟩ := Option.map_eq_some_iff.mp found
    exact host.distinct name symbol isClass
  owner name cls other cls' key key' f found found' entry entry' := by
    obtain ⟨symbol, isClass, rfl⟩ := Option.map_eq_some_iff.mp found
    obtain ⟨symbol', isClass', rfl⟩ := Option.map_eq_some_iff.mp found'
    cases f with
    | method method =>
        obtain ⟨inside, -, rfl⟩ := SymbolTable.method_mem_declaredEntries.mp entry
        obtain ⟨inside', -, rfl⟩ := SymbolTable.method_mem_declaredEntries.mp entry'
        exact ⟨host.owner _ _ _ _ _ isClass isClass' inside inside', rfl⟩
    | destructor className variant =>
        obtain ⟨rfl, rfl⟩ := SymbolTable.destructor_mem_declaredEntries entry
        obtain ⟨rfl, rfl⟩ := SymbolTable.destructor_mem_declaredEntries entry'
        exact ⟨rfl, rfl⟩

/-- The entry that is read so far into a table. -/
def entryAt (table : List (Key × Implementation)) (offset : Int) :
    Option (Key × Implementation) :=
  if offset < 0 ∨ offset % host.pointerSize ≠ 0 then none
  else table[(offset / host.pointerSize).toNat]?

theorem entryAt_cases (offset : Int) :
    (∀ table, host.entryAt table offset = none) ∨
      ∃ slot : Nat, ∀ table, host.entryAt table offset = table[slot]? := by
  by_cases outside : offset < 0 ∨ offset % host.pointerSize ≠ 0
  · exact .inl fun table => if_pos outside
  · exact .inr ⟨_, fun table => if_neg outside⟩

end HostClasses

/-- The operands that the object that a value points to may come from. -/
def Inst.sources {Ty : Type} : Inst Ty → List Operand
  | .gep _ base _ => [base]
  | .load _ pointer => [pointer]
  | .merge incoming => incoming
  | _ => []

/-- The object that a value points to may have come from the argument. -/
inductive CameFrom {Ty : Type} (func : Function Ty) : Operand → Nat → Prop
  | argument (argNo : Nat) : CameFrom func (.argument argNo) argNo
  | source {index argNo : Nat} {inst : Inst Ty} {source : Operand}
      (there : func.insts[index]? = some inst) (isSource : source ∈ inst.sources)
      (rest : CameFrom func source argNo) : CameFrom func (.inst index) argNo
  | stored {slot user argNo : Nat} {value : Operand} (isSlot : func.insts[slot]? = some .alloca)
      (there : func.insts[user]? = some (.store value (.inst slot)))
      (rest : CameFrom func value argNo) : CameFrom func (.inst slot) argNo

/-- The class that is declared for the object that an argument points to. -/
def argumentClass {Ty : Type} (symbols : SymbolTable) (calledFn : Name) (func : Function Ty)
    (argNo : Nat) : Option Name :=
  (symbols.findFunction calledFn).bind fun funcSym =>
    (func.implicit ++ funcSym.params.map fun type => some type.name)[argNo]?.join

/-- The argument that the pass traces an object to is one that it may have come from. -/
theorem cameFrom_of_traceToArgument {Ty : Type} {func : Function Ty} {object : Operand}
    {argNo : Nat} (traced : func.traceToArgument object = some argNo) :
    CameFrom func object argNo := by
  unfold Function.traceToArgument at traced
  generalize 8 = depth at traced
  induction depth generalizing object with
  | zero => cases traced
  | succ depth ih =>
      cases object with
      | argument argNo' =>
          cases traced
          exact .argument _
      | inst index =>
          rw [Function.traceSteps] at traced
          split at traced
          · rename_i elementSize base indices there
            exact .source there List.mem_cons_self (ih traced)
          · rename_i isPointer pointer there
            exact .source there List.mem_cons_self (ih traced)
          · rename_i isSlot
            obtain ⟨user, -, stored⟩ := List.exists_of_findSome?_eq_some traced
            unfold Function.storedArgument at stored
            split at stored
            · rename_i argNo' pointer there
              split at stored
              · rename_i same
                subst same
                cases stored
                exact .stored isSlot there (.argument _)
              · cases stored
            · cases stored
          · cases traced
      | function | other => cases traced

section Dispatch

variable {Ty : Type} {symbols : SymbolTable} (host : HostClasses symbols) (func : Function Ty)

/-- Whatever parameter the object has come from, and whatever class it has then, its table has the
target where the call reads it. -/
def Dispatches (calledFn : Name) (call : Nat) (object : Operand) (targetMethod : Name) : Prop :=
  ∀ argNo declared, CameFrom func object argNo →
    argumentClass symbols calledFn func argNo = some declared →
      ∀ name table, host.hierarchy.Derives name declared → host.hierarchy.HasTable name table →
        (host.entryAt table (func.entryOffset call)).map (·.2) = some (.method targetMethod)

/-- The declared class of each parameter that the object may have come from is the class of the
method or derived from it, the method stands where the call reads it there, and no class below that
an object may have, or that is between, declares it again. -/
def Fits (calledFn : Name) (call : Nat) (object : Operand) (concreteClass targetMethod : Name) :
    Prop :=
  ∀ argNo declared table, CameFrom func object argNo →
    argumentClass symbols calledFn func argNo = some declared →
      host.hierarchy.HasTable declared table →
        host.hierarchy.Derives declared concreteClass ∧
          (∃ table, host.hierarchy.HasTable concreteClass table ∧
            (host.entryAt table (func.entryOffset call)).map (·.1) =
              some (symbols.methodKey targetMethod)) ∧
          ∀ between, Relation.TransGen host.hierarchy.Base between concreteClass →
            host.hierarchy.Derives between declared ∨ host.hierarchy.Derives declared between →
              ¬ host.hierarchy.Declares between (symbols.methodKey targetMethod)

variable {host func}

theorem dispatches_iff_fits {calledFn concreteClass targetMethod : Name} {call : Nat}
    {object : Operand} {methods : List Name}
    (declares : symbols.classMethods concreteClass = some methods)
    (member : targetMethod ∈ methods) :
    Dispatches host func calledFn call object targetMethod ↔
      Fits host func calledFn call object concreteClass targetMethod := by
  obtain ⟨cls, isClass, rfl⟩ := Option.map_eq_some_iff.mp declares
  obtain ⟨inside, notStatic⟩ := List.mem_filter.mp member
  have found : host.hierarchy.find concreteClass =
      some ⟨cls.baseClass.map TypeNode.name,
        symbols.declaredEntries host.toTableLayout concreteClass cls⟩ := by
    change (symbols.findClassSymbol concreteClass).map _ = _
    rw [isClass]
    rfl
  have entry : (symbols.methodKey targetMethod, .method targetMethod) ∈
      symbols.declaredEntries host.toTableLayout concreteClass cls :=
    SymbolTable.method_mem_declaredEntries.mpr ⟨inside, by simpa using notStatic, rfl⟩
  rcases host.entryAt_cases (func.entryOffset call) with outside | ⟨slot, isSlot⟩
  · -- nothing stands there, in any table
    constructor
    · intro dispatches argNo declared table came isDeclared has
      have selected := dispatches argNo declared came isDeclared declared table .refl has
      rw [outside] at selected
      cases selected
    · intro fits argNo declared came isDeclared name table derives has
      obtain ⟨table', has', -⟩ := has.exists_inherited derives
      obtain ⟨-, ⟨_, -, selected⟩, -⟩ := fits argNo declared table' came isDeclared has'
      rw [outside] at selected
      cases selected
  · simp only [Dispatches, Fits, isSlot]
    constructor
    · intro dispatches argNo declared table came isDeclared has
      exact (VirtualTable.Hierarchy.selects_iff found entry has).mp
        (dispatches argNo declared came isDeclared)
    · intro fits argNo declared came isDeclared name table derives has
      obtain ⟨table', has', -⟩ := has.exists_inherited derives
      exact (VirtualTable.Hierarchy.selects_iff found entry has').mpr
        (fits argNo declared table' came isDeclared has') name table derives has

variable (host) in
/-- The target of each call that is replaced is what its object dispatches to, exactly where each
call that is recognised, for the first function of a pipeline that offers to replace it, fits. -/
theorem devirtualizeCalls_dispatches_iff [DecidableEq Ty] (mapping : SymbolMapping)
    (allowed : Option (List FunctionId)) (module : Module Ty) :
    (∀ replacement ∈ devirtualizeCalls symbols mapping allowed module, ∀ object vtableIdx,
        (module.function replacement.id).isVtableCall replacement.call = some (object, vtableIdx) →
          Dispatches host (module.function replacement.id) replacement.calledFn replacement.call
            object replacement.targetMethod) ↔
      ∀ front calledFn back, stageFunctions symbols = front ++ calledFn :: back →
        ∀ id call object concreteClass targetMethod target,
          mapping.matched.lookup calledFn = some id →
          Recognises symbols mapping allowed module calledFn id call object concreteClass
            targetMethod target →
          (∀ earlier ∈ front, ¬ Offers symbols mapping allowed module id call earlier) →
            Fits host (module.function id) calledFn call object concreteClass targetMethod := by
  constructor
  · intro sound front calledFn back split id call object concreteClass targetMethod target matched
      recognised first
    have offered := offer_eq_some_iff.mpr
      ⟨object, concreteClass, targetMethod, target, rfl, recognised⟩
    obtain ⟨-, -, vtableIdx, argNo, methods, _, _, isCall, -, -, declares, -, found, -⟩ :=
      recognised
    have member : ({ calledFn, id, call, targetMethod, target } : Replacement) ∈
        devirtualizeCalls symbols mapping allowed module :=
      mem_devirtualizeCalls.mpr ⟨front, back, split, matched, offered, first⟩
    exact (dispatches_iff_fits declares (List.mem_of_getElem? found)).mp
      (sound _ member object vtableIdx isCall)
  · intro fits replacement member object vtableIdx isCall
    obtain ⟨front, back, split, matched, offered, first⟩ := mem_devirtualizeCalls.mp member
    obtain ⟨object', concreteClass, targetMethod, target, same, recognised⟩ :=
      offer_eq_some_iff.mp offered
    have fits := fits front _ back split _ _ object' concreteClass targetMethod target matched
      recognised first
    obtain ⟨-, -, vtableIdx', argNo, methods, _, _, isCall', -, -, declares, -, found, -⟩ :=
      recognised
    obtain ⟨rfl, rfl⟩ := Prod.mk.inj (Option.some.inj (isCall.symm.trans isCall'))
    have isTarget : replacement.targetMethod = targetMethod := by rw [same]
    rw [isTarget]
    exact (dispatches_iff_fits declares (List.mem_of_getElem? found)).mpr fits

end Dispatch

/-! ### A call of an inherited method -/

/-- The users of an instruction by their positions. -/
def usersInOrder {Ty : Type} (insts : List (Inst Ty)) (index : Nat) : List Nat :=
  (List.range insts.length).filter fun user =>
    insts[user]?.any fun inst => decide (.inst index ∈ inst.operands)

theorem mem_usersInOrder {Ty : Type} {insts : List (Inst Ty)} {index user : Nat} :
    user ∈ usersInOrder insts index ↔
      ∃ inst, insts[user]? = some inst ∧ .inst index ∈ inst.operands := by
  unfold usersInOrder
  rw [List.mem_filter, List.mem_range, Option.any_eq_true]
  constructor
  · rintro ⟨-, inst, there, used⟩
    exact ⟨inst, there, of_decide_eq_true used⟩
  · rintro ⟨inst, there, used⟩
    exact ⟨(List.getElem?_eq_some_iff.mp there).1, inst, there, decide_eq_true used⟩

def shape : ClassSymbol where
  baseClass := none
  members := [.method "Shape::name".toList, .method "Shape::area".toList]

/-- A class that overrides the second method of its base. -/
def disc : ClassSymbol where
  baseClass := some ⟨["Shape".toList]⟩
  members := [.method "Disc::area".toList]

def shapes : SymbolTable where
  functions := AList.singleton "draw".toList ⟨[⟨["Disc".toList]⟩], false⟩
  classSymbols := (AList.singleton "Shape".toList shape).insert "Disc".toList disc
  logicBlocks := [⟨true, true, ["draw".toList]⟩]

theorem findClassSymbol_shapes {name : Name} {cls : ClassSymbol}
    (found : shapes.findClassSymbol name = some cls) :
    name = "Disc".toList ∧ cls = disc ∨ name = "Shape".toList ∧ cls = shape := by
  have member : (⟨name, cls⟩ : Sigma fun _ : Name => ClassSymbol) ∈
      [⟨"Disc".toList, disc⟩, ⟨"Shape".toList, shape⟩] := AList.mem_lookup_iff.mp found
  rcases List.mem_cons.mp member with same | member
  · cases same
    exact .inl ⟨rfl, rfl⟩
  · cases List.mem_singleton.mp member
    exact .inr ⟨rfl, rfl⟩

def shapesHost : HostClasses shapes where
  pointerSize := 8
  destructorEntries := 2
  distinct name cls found := by
    rcases findClassSymbol_shapes found with ⟨rfl, rfl⟩ | ⟨rfl, rfl⟩ <;> decide
  owner name cls other cls' method found found' member member' := by
    rcases findClassSymbol_shapes found with ⟨rfl, rfl⟩ | ⟨rfl, rfl⟩ <;>
      rcases findClassSymbol_shapes found' with ⟨rfl, rfl⟩ | ⟨rfl, rfl⟩
    · rfl
    · revert method
      decide
    · revert method
      decide
    · rfl

/-- The first entry of the table of a `Disc` is called. -/
def drawInsts : List (Inst Unit) :=
  [.load true (.argument 0), .load true (.inst 0), .call () (.inst 1) [.argument 0]]

def shapesModule : Module Unit where
  function id :=
    { isDeclaration := false
      type := ()
      implicit := []
      insts := if id = 0 then drawInsts else []
      users := usersInOrder _
      mem_users := fun _ _ => mem_usersInOrder }

def shapesMapping : SymbolMapping where
  matched := (AList.singleton "draw".toList 0).insert "Disc::area".toList 1
  unmatchedTopo := []
  unmatchedIR := []

def drawReplacement : Replacement where
  calledFn := "draw".toList
  id := 0
  call := 2
  targetMethod := "Disc::area".toList
  target := 1

theorem draw_calls_area :
    ¬ ∀ replacement ∈ devirtualizeCalls shapes shapesMapping none shapesModule,
      ∀ object vtableIdx,
        (shapesModule.function replacement.id).isVtableCall replacement.call =
            some (object, vtableIdx) →
          Dispatches shapesHost (shapesModule.function replacement.id) replacement.calledFn
            replacement.call object replacement.targetMethod := by
  intro sound
  have offered : offer shapes shapesMapping none shapesModule "draw".toList 0 2 =
      some drawReplacement := by rfl
  have replaced : drawReplacement ∈ devirtualizeCalls shapes shapesMapping none shapesModule :=
    mem_devirtualizeCalls.mpr ⟨[], [], rfl, by decide, offered, List.forall_mem_nil _⟩
  have dispatches := sound _ replaced (.argument 0) 0 rfl 0 "Disc".toList (.argument 0) rfl
  have selected := dispatches "Disc".toList _ .refl (.derived rfl rfl (.root rfl rfl))
  revert selected
  decide

end Devirtualization
end TopoLlvm
