import TopoLlvm.Backend.Names
import TopoLlvm.Library.Instrumentation
import TopoLlvm.Runtime.ContainmentDump

/-!
# Interception of calls that leave a contained program

`ContainmentInterceptionPass` puts a call of the runtime before each direct call of a restricted
API, unless the caller or the callee is declared external.  The main theorem is about whole runs:
the program goes on as before, and at each moment the runtime has recorded exactly the restricted
calls made so far, in their order, the next of them at most being recorded in advance.
-/

namespace TopoLlvm
namespace ContainmentInterception

open Backend (Name Demangler)
open Instrumentation (Action Program Config Frame)
open TopoLlvm.Runtime (Containment ViolationEntry CString)

/-! ## Modules -/

/-- The instructions of `n` functions, with the callee of a call where it is direct. -/
inductive Instr (n : Nat) (Op : Type) where
  | callInst (calledFunction : Option (Fin n)) (op : Op)
  | invokeInst (calledFunction : Option (Fin n)) (op : Op)
  | other (op : Op)

namespace Instr

variable {n : Nat} {Op : Type}

/-- The direct callee of a call or an invoke. -/
def getCalledFunction : Instr n Op → Option (Fin n)
  | callInst callee _ | invokeInst callee _ => callee
  | other _ => none

end Instr

/-- A function, which is a declaration where it has no blocks. -/
structure Function (Inst : Type) where
  name : Name
  blocks : List (List Inst)

/-- A global variable that holds a string. -/
structure GlobalString where
  name : Name
  hasLocalLinkage : Bool
  contents : Name

structure Module (n : Nat) (Inst : Type) where
  targetTriple : Name
  function : Fin n → Function Inst
  globals : List GlobalString

/-- A call of `__topo_containment_violation`, by the strings that it is given pointers to. -/
abbrev ViolationCall := ViolationEntry Name

namespace Module

variable {n : Nat} {Inst State : Type}

/-- The program that a module is linked to, where `library` is the code of its declarations. -/
def program (module : Module n Inst) (library : Fin n → Nat → List Inst)
    (act : State → Fin n → Inst → Action (Fin n) → State → Prop) : Program (Fin n) Inst State where
  code function block :=
    if (module.function function).blocks = [] then library function block
    else (module.function function).blocks.getD block []
  act := act

end Module

/-! ## The pass -/

/-- The parts of a `FunctionSymbol` that the pass reads. -/
structure FunctionSymbol where
  qualifiedName : Name
  isExternal : Bool
  externalOwner : Name

/-- What the pass asks of the symbol table and of the capability catalog. -/
structure Declarations where
  functions : List FunctionSymbol
  findFunction : Name → Option FunctionSymbol
  externalTypeForMember : Name → Bool
  classifyApiCall : Name → Bool

structure InterceptionEntry where
  callerFunction : Name
  interceptedCallee : Name

structure Progress where
  globals : List GlobalString
  instrumented : Nat
  entries : List InterceptionEntry

def callerPrefix : Name := ".str.topo_cont_caller.".toList

def calleePrefix : Name := ".str.topo_cont_callee.".toList

/-- `Module::getGlobalVariable` does not return local globals, so not those that the pass makes. -/
def getGlobalVariable (globals : List GlobalString) (name : Name) : Option GlobalString :=
  globals.find? fun global => global.name = name && !global.hasLocalLinkage

/-- The contents of the global for a string, and the globals with it. -/
def getOrCreateGlobalString (globals : List GlobalString) (str start : Name) :
    Name × List GlobalString :=
  let globalName := start ++ str
  match getGlobalVariable globals globalName with
  | some existing => (existing.contents, globals)
  | none => (str, globals ++ [⟨globalName, true, str⟩])

section Pass

variable {n : Nat} {Op : Type} (tools : Demangler) (symbols : Declarations)
  (matched : List (Name × Option (Fin n))) (module : Module n (Instr n Op))

def isMachO : Bool :=
  "apple".toList <:+: module.targetTriple || "darwin".toList <:+: module.targetTriple ||
    "macho".toList <:+: module.targetTriple

/-- The name of a function as the catalog and the symbol table spell it. -/
def normalizeIRName (function : Fin n) : Name :=
  let name := (module.function function).name
  let raw :=
    if isMachO module && ['_'].isPrefixOf name && !(['_', 'Z'].isPrefixOf name) then name.drop 1
    else name
  let demangled := tools.demangle raw
  if demangled = raw then raw else Text.upTo '(' demangled

def isExternalName (qualifiedName : Name) : Bool :=
  (symbols.findFunction qualifiedName).any (·.isExternal) ||
    symbols.externalTypeForMember qualifiedName

/-- The function that an external symbol exempts. -/
def externalFunc (symbol : FunctionSymbol) : Option (Fin n) :=
  if symbol.isExternal then
    match matched.lookup symbol.qualifiedName with
    | some (some function) =>
        if symbol.externalOwner ≠ [] &&
            !symbols.externalTypeForMember (normalizeIRName tools module function) then none
        else some function
    | some none | none => none
  else none

/-- The functions of external symbols, and those with external names. -/
def externalFuncs : List (Fin n) :=
  symbols.functions.filterMap (externalFunc tools symbols matched module) ++
    (List.finRange n).filter fun function =>
      isExternalName symbols (normalizeIRName tools module function)

/-- The qualified name that a function is matched with last. -/
def funcQualName (function : Fin n) : Option Name :=
  (matched.filter (·.2 = some function)).getLast?.map Prod.fst

/-- The normalized name of the callee where the call is to be intercepted. -/
def intercepted (inst : Instr n Op) : Option Name :=
  match inst.getCalledFunction with
  | none => none
  | some callee =>
      let calleeName := normalizeIRName tools module callee
      if !symbols.classifyApiCall calleeName then none
      else if (externalFuncs tools symbols matched module).contains callee ||
          isExternalName symbols calleeName then none
      else some calleeName

def visitInst (function : Fin n) (progress : Progress) (inst : Instr n Op) :
    Progress × List ViolationCall :=
  match intercepted tools symbols matched module inst with
  | none => (progress, [])
  | some calleeName =>
      let funcName := (module.function function).name
      let callerStr := getOrCreateGlobalString progress.globals funcName callerPrefix
      let calleeStr := getOrCreateGlobalString callerStr.2 calleeName calleePrefix
      ({  globals := calleeStr.2
          instrumented := progress.instrumented + 1
          entries := progress.entries ++
            [⟨(funcQualName matched function).getD funcName, calleeName⟩] },
        [⟨callerStr.1, calleeStr.1⟩])

/-- The body of a function after the pass. -/
def visitFunction (progress : Progress) (function : Fin n) :
    Progress × Function (ViolationCall ⊕ Instr n Op) :=
  let name := (module.function function).name
  let blocks := (module.function function).blocks
  if blocks = [] then (progress, ⟨name, []⟩)
  else if (externalFuncs tools symbols matched module).contains function then
    (progress, ⟨name, blocks.map (·.map .inr)⟩)
  else
    let visited := Instrumentation.mapAccum
      (Instrumentation.walk (visitInst tools symbols matched module function)) progress blocks
    (visited.1, ⟨name, visited.2⟩)

def visitFunctions : Progress × List (Function (ViolationCall ⊕ Instr n Op)) :=
  Instrumentation.mapAccum (visitFunction tools symbols matched module)
    { globals := module.globals, instrumented := 0, entries := [] } (List.finRange n)

/-- The module after the pass. -/
def run : Module n (ViolationCall ⊕ Instr n Op) where
  targetTriple := module.targetTriple
  function := fun function =>
    (visitFunctions tools symbols matched module).2.getD function ⟨[], []⟩
  globals := (visitFunctions tools symbols matched module).1.globals

end Pass

/-! ## Restricted calls -/

section Restricted

variable {n : Nat} {Op : Type} (tools : Demangler) (symbols : Declarations)
  (matched : List (Name × Option (Fin n))) (module : Module n (Instr n Op))

/-- A function that may call restricted APIs and stand for them: its name or its whole type is
declared external, or an external symbol is matched with it, which for a member of an external type
has to be its own. -/
def Exempt (function : Fin n) : Prop :=
  isExternalName symbols (normalizeIRName tools module function) = true ∨
  ∃ symbol ∈ symbols.functions, symbol.isExternal = true ∧
    matched.lookup symbol.qualifiedName = some (some function) ∧
    (symbol.externalOwner = [] ∨
      symbols.externalTypeForMember (normalizeIRName tools module function) = true)

theorem externalFunc_eq_some_iff {symbol : FunctionSymbol} {function : Fin n} :
    externalFunc tools symbols matched module symbol = some function ↔
      symbol.isExternal = true ∧ matched.lookup symbol.qualifiedName = some (some function) ∧
      (symbol.externalOwner = [] ∨
        symbols.externalTypeForMember (normalizeIRName tools module function) = true) := by
  rw [externalFunc]
  cases symbol.isExternal with
  | false => simp
  | true =>
      rcases matched.lookup symbol.qualifiedName with _ | _ | other
      · simp
      · simp
      · simp only [reduceIte, Option.some.injEq, true_and]
        by_cases same : other = function
        · subst same
          cases symbols.externalTypeForMember (normalizeIRName tools module other) <;> simp
        · simp [same]

theorem contains_externalFuncs (function : Fin n) :
    (externalFuncs tools symbols matched module).contains function = true ↔
      Exempt tools symbols matched module function := by
  rw [List.contains_iff_mem, externalFuncs, List.mem_append, or_comm, Exempt, List.mem_filter,
    and_iff_right (List.mem_finRange function), List.mem_filterMap]
  simp only [externalFunc_eq_some_iff]

instance : DecidablePred (Exempt tools symbols matched module) := fun function =>
  decidable_of_iff _ (contains_externalFuncs tools symbols matched module function)

/-- What is to be recorded of an instruction: a direct call of a restricted API, where neither the
caller nor the callee is exempt. -/
def unauthorised (function : Fin n) (inst : Instr n Op) : Option (ViolationEntry Name) :=
  if (module.function function).blocks = [] ∨ Exempt tools symbols matched module function then none
  else inst.getCalledFunction.bind fun callee =>
    if symbols.classifyApiCall (normalizeIRName tools module callee) = true ∧
        ¬ Exempt tools symbols matched module callee then
      some ⟨(module.function function).name, normalizeIRName tools module callee⟩
    else none

/-- The restricted calls of a run. -/
def restricted (trace : List (Fin n × Instr n Op)) : List (ViolationEntry Name) :=
  trace.filterMap fun entry => unauthorised tools symbols matched module entry.1 entry.2

variable {tools symbols matched module}

theorem unauthorised_of_skipped {function : Fin n}
    (skipped : (module.function function).blocks = [] ∨
      Exempt tools symbols matched module function) (inst : Instr n Op) :
    unauthorised tools symbols matched module function inst = none := if_pos skipped

/-- The pass intercepts the restricted calls. -/
theorem unauthorised_eq {function : Fin n}
    (body : (module.function function).blocks ≠ [])
    (contained : ¬ Exempt tools symbols matched module function) (inst : Instr n Op) :
    unauthorised tools symbols matched module function inst =
      (intercepted tools symbols matched module inst).map
        fun calleeName => ⟨(module.function function).name, calleeName⟩ := by
  rw [unauthorised, if_neg (not_or.mpr ⟨body, contained⟩), intercepted]
  cases inst.getCalledFunction with
  | none => rfl
  | some callee =>
      simp only [Option.bind_some, Bool.or_eq_true, contains_externalFuncs]
      have external : isExternalName symbols (normalizeIRName tools module callee) = true →
          Exempt tools symbols matched module callee := .inl
      grind

/-! ## The module after the pass -/

/-- Global variables of the module with the names that the pass looks up hold their strings. -/
def Honest (globals : List GlobalString) : Prop :=
  ∀ global ∈ globals, global.hasLocalLinkage = false → ∀ str,
    global.name = callerPrefix ++ str ∨ global.name = calleePrefix ++ str → global.contents = str

abbrev Progress.Sound (progress : Progress) : Prop := Honest progress.globals

theorem honest_getOrCreateGlobalString {globals : List GlobalString} (honest : Honest globals)
    (str start : Name) : Honest (getOrCreateGlobalString globals str start).2 := by
  rw [getOrCreateGlobalString]
  split
  · exact honest
  · rintro global member shared
    obtain member | made := List.mem_append.mp member
    · exact honest global member shared
    · rw [List.mem_singleton.mp made] at shared
      cases shared

theorem getOrCreateGlobalString_fst {globals : List GlobalString} (honest : Honest globals)
    {str start : Name} (known : start = callerPrefix ∨ start = calleePrefix) :
    (getOrCreateGlobalString globals str start).1 = str := by
  rw [getOrCreateGlobalString]
  split
  · rename_i existing found
    have same := List.find?_some found
    rw [Bool.and_eq_true, Bool.not_eq_true', decide_eq_true_eq] at same
    refine honest existing (List.mem_of_find?_eq_some found) same.2 str ?_
    rcases known with rfl | rfl
    · exact .inl same.1
    · exact .inr same.1
  · rfl

/-- The probes that the pass inserts. -/
def probes (tools : Demangler) (symbols : Declarations) (matched : List (Name × Option (Fin n)))
    (module : Module n (Instr n Op)) (function : Fin n) (inst : Instr n Op) : List ViolationCall :=
  (unauthorised tools symbols matched module function inst).toList

theorem visitInst_of {function : Fin n} (body : (module.function function).blocks ≠ [])
    (contained : ¬ Exempt tools symbols matched module function) {progress : Progress}
    (honest : Honest progress.globals) (inst : Instr n Op) :
    Honest (visitInst tools symbols matched module function progress inst).1.globals ∧
    (visitInst tools symbols matched module function progress inst).2 =
      probes tools symbols matched module function inst := by
  rw [visitInst, probes, unauthorised_eq body contained]
  cases intercepted tools symbols matched module inst with
  | none => exact ⟨honest, rfl⟩
  | some calleeName =>
      have caller := honest_getOrCreateGlobalString honest (module.function function).name
        callerPrefix
      refine ⟨honest_getOrCreateGlobalString caller calleeName calleePrefix, ?_⟩
      dsimp only
      rw [getOrCreateGlobalString_fst honest (.inl rfl),
        getOrCreateGlobalString_fst caller (.inr rfl)]
      rfl

theorem visitFunction_of {progress : Progress} (honest : Honest progress.globals)
    (function : Fin n) :
    Honest (visitFunction tools symbols matched module progress function).1.globals ∧
    (visitFunction tools symbols matched module progress function).2 =
      ⟨(module.function function).name, (module.function function).blocks.map
        (Instrumentation.insert (probes tools symbols matched module) function)⟩ := by
  rw [visitFunction]
  dsimp only
  by_cases body : (module.function function).blocks = []
  · rw [if_pos body, body]
    exact ⟨honest, rfl⟩
  rw [if_neg body]
  by_cases contained : Exempt tools symbols matched module function
  · rw [if_pos ((contains_externalFuncs tools symbols matched module function).mpr contained)]
    have none : ∀ inst, probes tools symbols matched module function inst = [] := by
      intro inst
      rw [probes, unauthorised_of_skipped (.inr contained), Option.toList_none]
    refine ⟨honest, ?_⟩
    dsimp only
    rw [funext (Instrumentation.insert_of_none none)]
  · rw [if_neg (contained ∘ (contains_externalFuncs tools symbols matched module function).mp)]
    obtain ⟨kept, visited⟩ := Instrumentation.mapAccum_of Progress.Sound
      (fun _ insts kept => Instrumentation.walk_of Progress.Sound
        (fun _ inst kept => visitInst_of body contained kept inst) kept insts) honest
      (module.function function).blocks
    exact ⟨kept, by rw [visited]⟩

/-- The pass inserts the calls before the restricted calls and changes nothing else. -/
theorem run_function (honest : Honest module.globals) (function : Fin n) :
    (run tools symbols matched module).function function =
      ⟨(module.function function).name, (module.function function).blocks.map
        (Instrumentation.insert (probes tools symbols matched module) function)⟩ := by
  have bodies : (visitFunctions tools symbols matched module).2 = _ :=
    (Instrumentation.mapAccum_of Progress.Sound
      (fun _ function kept => visitFunction_of kept function) honest (List.finRange n)).2
  rw [run]
  dsimp only
  rw [bodies]
  simp

/-- What the report says of a function. -/
def entriesOf (tools : Demangler) (symbols : Declarations) (matched : List (Name × Option (Fin n)))
    (module : Module n (Instr n Op)) (function : Fin n) : List InterceptionEntry :=
  (module.function function).blocks.flatMap fun insts => insts.flatMap fun inst =>
    (probes tools symbols matched module function inst).map fun call =>
      ⟨(funcQualName matched function).getD call.caller, call.callee⟩

theorem entries_visitInst {function : Fin n} (body : (module.function function).blocks ≠ [])
    (contained : ¬ Exempt tools symbols matched module function) (progress : Progress)
    (inst : Instr n Op) :
    (visitInst tools symbols matched module function progress inst).1.entries = progress.entries ++
      (probes tools symbols matched module function inst).map fun call =>
        ⟨(funcQualName matched function).getD call.caller, call.callee⟩ := by
  rw [visitInst, probes, unauthorised_eq body contained]
  cases intercepted tools symbols matched module inst with
  | none => exact (List.append_nil _).symm
  | some calleeName => rfl

theorem entries_visitFunction (progress : Progress) (function : Fin n) :
    (visitFunction tools symbols matched module progress function).1.entries =
      progress.entries ++ entriesOf tools symbols matched module function := by
  rw [visitFunction, entriesOf]
  dsimp only
  by_cases body : (module.function function).blocks = []
  · rw [if_pos body, body]
    exact (List.append_nil _).symm
  rw [if_neg body]
  by_cases contained : Exempt tools symbols matched module function
  · rw [if_pos ((contains_externalFuncs tools symbols matched module function).mpr contained)]
    simp [probes, unauthorised_of_skipped (.inr contained)]
  · rw [if_neg (contained ∘ (contains_externalFuncs tools symbols matched module function).mp)]
    exact Instrumentation.mapAccum_log
      (fun progress insts => Instrumentation.walk_log
        (fun progress inst => entries_visitInst body contained progress inst) progress insts)
      progress (module.function function).blocks

/-- The report lists the intercepted calls in the order of the code. -/
theorem entries_visitFunctions : (visitFunctions tools symbols matched module).1.entries =
    (List.finRange n).flatMap (entriesOf tools symbols matched module) :=
  (Instrumentation.mapAccum_log entries_visitFunction _ _).trans (List.nil_append _)

end Restricted

/-! ## Runs -/

section Runs

variable {n : Nat} {Op State : Type} {tools : Demangler} {symbols : Declarations}
  {matched : List (Name × Option (Fin n))} {module : Module n (Instr n Op)}

/-- A call of the runtime leaves the program alone. -/
def withViolations (act : State → Fin n → Instr n Op → Action (Fin n) → State → Prop)
    (before : State) (function : Fin n) :
    ViolationCall ⊕ Instr n Op → Action (Fin n) → State → Prop
  | .inl _, action, after => action = .next ∧ after = before
  | .inr inst, action, after => act before function inst action after

variable (tools symbols matched module) in
/-- The instrumented module, linked to the same library. -/
def instrumented (library : Fin n → Nat → List (Instr n Op))
    (act : State → Fin n → Instr n Op → Action (Fin n) → State → Prop) :
    Program (Fin n) (ViolationCall ⊕ Instr n Op) State :=
  (run tools symbols matched module).program (fun function block => (library function block).map .inr)
    (withViolations act)

theorem instrumented_eq (honest : Honest module.globals)
    (library : Fin n → Nat → List (Instr n Op))
    (act : State → Fin n → Instr n Op → Action (Fin n) → State → Prop) :
    instrumented tools symbols matched module library act =
      (module.program library act).weave (probes tools symbols matched module) := by
  rw [instrumented, Module.program, Program.weave]
  congr
  · funext function block
    rw [run_function honest, Module.program]
    dsimp only
    by_cases body : (module.function function).blocks = []
    · have none : ∀ inst, probes tools symbols matched module function inst = [] := by
        intro inst
        rw [probes, unauthorised_of_skipped (.inl body), Option.toList_none]
      rw [if_pos (List.map_eq_nil_iff.mpr body), if_pos body, Instrumentation.insert_of_none none]
    · rw [if_neg (body ∘ List.map_eq_nil_iff.mp), if_neg body, List.getD_eq_getElem?_getD,
        List.getElem?_map, List.getD_eq_getElem?_getD]
      cases (module.function function).blocks[block]? <;> rfl
  · funext before function inst
    cases inst <;> rfl

/-- What the runtime has recorded after a run, where it started with nothing. -/
def recorded (encode : Name → CString) (trace : List (Fin n × (ViolationCall ⊕ Instr n Op))) :
    List (ViolationEntry CString) :=
  (Containment.record {} ((Instrumentation.fired trace).map fun call =>
    (some (encode call.caller), some (encode call.callee)))).violations

theorem recorded_eq (encode : Name → CString)
    (trace : List (Fin n × (ViolationCall ⊕ Instr n Op))) :
    recorded encode trace = (Instrumentation.fired trace).map (·.map encode) := by
  rw [recorded, Containment.violations_record, List.map_map]
  rfl

theorem fired_probes_eq (trace : List (Fin n × Instr n Op)) :
    trace.flatMap (fun entry => probes tools symbols matched module entry.1 entry.2) =
      restricted tools symbols matched module trace := by
  rw [restricted, List.filterMap_eq_flatMap_toList]
  rfl

variable (tools symbols matched) in
/-- The instrumented program has the runs of the program.  At each moment the runtime has recorded
the restricted calls that were made, in their order, and at most the one that comes next. -/
theorem violations_of_runs (honest : Honest module.globals)
    (library : Fin n → Nat → List (Instr n Op))
    (act : State → Fin n → Instr n Op → Action (Fin n) → State → Prop) (encode : Name → CString)
    (entry : Fin n) (state : State) :
    (∀ trace finish, (module.program library act).Run
        ((module.program library act).call entry state) trace finish →
      ∃ calls other, (instrumented tools symbols matched module library act).Run
          ((instrumented tools symbols matched module library act).call entry state) calls other ∧
        Instrumentation.executed calls = trace ∧ other.state = finish.state ∧
        (other.frames = [] ↔ finish.frames = []) ∧
        recorded encode calls =
          (restricted tools symbols matched module trace).map (·.map encode)) ∧
    ∀ calls other, (instrumented tools symbols matched module library act).Run
        ((instrumented tools symbols matched module library act).call entry state) calls other →
      ∃ trace finish, (module.program library act).Run
          ((module.program library act).call entry state) trace finish ∧
        Instrumentation.executed calls = trace ∧ other.state = finish.state ∧
        (other.frames = [] ↔ finish.frames = []) ∧
        (recorded encode calls =
            (restricted tools symbols matched module trace).map (·.map encode) ∨
          ∃ next, finish.upcoming = some next ∧ recorded encode calls =
            (restricted tools symbols matched module (trace ++ [next])).map (·.map encode)) := by
  rw [instrumented_eq honest]
  simp only [recorded_eq, ← Program.call_insert]
  constructor
  · rintro trace finish reached
    refine ⟨_, _, Program.run_weave reached, Instrumentation.executed_expand _ trace, rfl,
      List.map_eq_nil_iff, ?_⟩
    rw [Instrumentation.fired_expand, fired_probes_eq]
  · rintro calls other reached
    obtain ⟨trace, finish, pending, source, rfl, within⟩ := Program.run_of_weave reached
    refine ⟨trace, finish, source, ?_, within.state_eq, within.frames_eq_nil_iff, ?_⟩
    · rw [Instrumentation.executed_append, Instrumentation.executed_expand,
        Instrumentation.executed_map_inl, List.append_nil]
    rw [Instrumentation.fired_append, Instrumentation.fired_expand, fired_probes_eq,
      Instrumentation.fired_map_inl]
    obtain rfl | ⟨function, inst, next, todo, split⟩ := within.prefix_upcoming
    · rw [List.map_nil, List.append_nil]
      exact .inl rfl
    -- At most one call is inserted before an instruction, so either none has been made or all.
    · rw [probes] at split
      cases fires : pending.map Prod.snd with
      | nil => exact .inl (by rw [List.append_nil])
      | cons call rest =>
          refine .inr ⟨(function, inst), next, ?_⟩
          rw [fires] at split
          cases due : unauthorised tools symbols matched module function inst with
          | none =>
              rw [due] at split
              cases split
          | some violation =>
              rw [due, Option.toList_some, List.cons_append, List.cons.injEq,
                List.append_eq_nil_iff] at split
              obtain ⟨rfl, rfl, -⟩ := split
              have last : restricted tools symbols matched module [(function, inst)] = [call] := by
                rw [restricted, List.filterMap_cons, due, List.filterMap_nil]
              rw [← last, restricted, restricted, restricted, List.filterMap_append]

/-- A program that opens a file and returns. -/
def opener : Module 2 (Instr 2 Bool) where
  targetTriple := "x86_64-pc-linux-gnu".toList
  function := fun function =>
    if function = Fin.last 1 then ⟨"fopen".toList, []⟩
    else ⟨"main".toList, [[.callInst (some (Fin.last 1)) true, .other false]]⟩
  globals := []

def openerTools : Demangler := ⟨id, fun _ => none⟩

/-- Nothing is external, and opening files is restricted. -/
def openerSymbols : Declarations where
  functions := []
  findFunction _ := none
  externalTypeForMember _ := false
  classifyApiCall name := name = "fopen".toList

/-- All instructions but calls return. -/
def openerAct (_ : Unit) (_ : Fin 2) : Instr 2 Bool → Action (Fin 2) → Unit → Prop
  | .callInst (some callee) _, action, _ => action = .call callee
  | .callInst none _, _, _ | .invokeInst _ _, _, _ => False
  | .other _, action, _ => action = .ret

def openerLibrary (_ : Fin 2) (_ : Nat) : List (Instr 2 Bool) := [.other true]

def cString (name : Name) : CString := ⟨(JitEngine.utf8 name).filter (· ≠ 0), by simp⟩

/-- The call of `main` is recorded. -/
theorem opener_recorded : ∃ calls other,
    (instrumented openerTools openerSymbols [] opener openerLibrary openerAct).Run
      ((instrumented openerTools openerSymbols [] opener openerLibrary openerAct).call 0 ()) calls
      other ∧
    other.frames = [] ∧
    recorded cString calls = [⟨cString "main".toList, cString "fopen".toList⟩] := by
  let program := opener.program openerLibrary openerAct
  have run : program.Run (program.call 0 ())
      [(0, .callInst (some (Fin.last 1)) true), (Fin.last 1, .other true), (0, .other false)]
      ⟨[], ()⟩ := by
    have called : program.act () 0 (.callInst (some (Fin.last 1)) true) (.call (Fin.last 1)) () :=
      rfl
    have opened : program.act () (Fin.last 1) (.other true) .ret () := rfl
    have returned : program.act () 0 (.other false) .ret () := rfl
    exact ((Program.Run.start.step (.execute called)).step (.execute opened)).step
      (.execute returned)
  have honest : Honest opener.globals := fun _ member => absurd member List.not_mem_nil
  obtain ⟨calls, other, reached, -, -, ended, written⟩ := (violations_of_runs openerTools
    openerSymbols [] honest openerLibrary openerAct cString 0 ()).1 _ _ run
  exact ⟨calls, other, reached, ended.mpr rfl, written⟩

end Runs
end ContainmentInterception
end TopoLlvm
