import TopoLlvm.Library.StableSort
import TopoLlvm.Runtime.AdaptiveShutdown
import TopoLlvm.Transforms.PipelineCodeGen

/-!
# Constructors of an instrumented program

The passes that call a runtime library give a module a constructor that compares the version of the
library with the one that they were built for, and `AdaptiveDispatchPass` gives it a constructor for
each pipeline.  At the start of a process the constructors of all modules run by their priorities:
each check once for its module, before every registration, and none behind a check that fails.
-/

namespace TopoLlvm
namespace Startup

open TopoLlvm.Runtime (Name Adaptive Registration toName)

/-- The runtime libraries that the emitted code calls. -/
inductive RuntimeLib where
  | parallel
  | arena
  | adaptive
  | observe
  | containment
  deriving DecidableEq

namespace RuntimeLib

def libName : RuntimeLib → Name
  | parallel => "parallel".toList
  | arena => "arena".toList
  | adaptive => "adaptive".toList
  | observe => "observe".toList
  | containment => "containment".toList

def versionSymbol : RuntimeLib → Name
  | parallel => "topo_parallel_version".toList
  | arena => "topo_arena_version".toList
  | adaptive => "topo_adaptive_version".toList
  | observe => "topo_trace_version".toList
  | containment => "topo_containment_version".toList

/-- The versions that the passes are built for. -/
def expectedVersion : RuntimeLib → BitVec 32
  | parallel | arena | adaptive | observe | containment => 1

end RuntimeLib

/-- What a check calls and compares, and what it writes where they differ. -/
structure AbiCheck where
  versionSymbol : Name
  expectedVersion : BitVec 32
  message : Name
  deriving DecidableEq

inductive Ctor where
  /-- A constructor of the program itself. -/
  | user (id : Nat)
  | abiCheck (check : AbiCheck)
  | register (registration : Registration)

/-- A module, by the names of its values and its constructors with their priorities. -/
structure Module where
  names : List Name
  ctors : List (Nat × Ctor)

/-! ## The passes -/

def buildDiagnostic (libName : Name) (expectedVersion : BitVec 32) : Name :=
  "topo: libtopo-".toList ++ libName ++ " ABI mismatch (expected v".toList ++
    toName expectedVersion.toNat ++
    ("); rebuild caller and runtime from a matching commit. " ++
      "See topo-llvm/runtime/ABI-COMPAT.md\n").toList

def runtimeAbiCheckCtorName (libName : Name) : Name :=
  "topo_".toList ++ libName ++ "_abi_check_ctor".toList

namespace Module

variable (module : Module)

def declare (name : Name) : Module :=
  if name ∈ module.names then module else { module with names := module.names ++ [name] }

/-- Append to `llvm.global_ctors`. -/
def addGlobalCtor (name : Name) (ctor : Ctor) (priority : Nat) : Module where
  names := module.names ++ [name]
  ctors := module.ctors ++ [(priority, ctor)]

/-- A check is there already where the name of its constructor is. -/
def injectAbiCheckCtor (libName versionSymbol : Name) (expectedVersion : BitVec 32) : Module :=
  if runtimeAbiCheckCtorName libName ∈ module.names then module
  else
    ((((module.declare versionSymbol).declare "write".toList).declare "abort".toList).declare
        (".str.topo_abi.".toList ++ libName)).addGlobalCtor (runtimeAbiCheckCtorName libName)
      (.abiCheck ⟨versionSymbol, expectedVersion, buildDiagnostic libName expectedVersion⟩) 0

def inject (lib : RuntimeLib) : Module :=
  module.injectAbiCheckCtor lib.libName lib.versionSymbol lib.expectedVersion

def register (registration : Registration) : Module :=
  module.addGlobalCtor (registration.mangledName ++ ".__adaptive_ctor".toList)
    (.register registration) 65535

end Module

/-- A run of a pass, by what it has instrumented. -/
inductive PassRun where
  /-- A pass that calls a library, in a number of places. -/
  | calls (lib : RuntimeLib) (count : Nat)
  /-- The loop pass checks its library before it looks for loops to partition. -/
  | loopParallelize (partitionEnabled : Bool)
  | adaptiveDispatch (pipelines : List Registration)

def PassRun.run (module : Module) : PassRun → Module
  | .calls lib count => if 0 < count then module.inject lib else module
  | .loopParallelize partitionEnabled =>
      if partitionEnabled then module.inject .parallel else module
  | .adaptiveDispatch pipelines =>
      let module := pipelines.foldl Module.register module
      if 0 < pipelines.length then module.inject .adaptive else module

/-- A module as it is compiled: without checks, and with constructors of its own. -/
structure SourceModule where
  names : List Name
  userCtors : List (Nat × Nat)
  runs : List PassRun
  unchecked : ∀ lib : RuntimeLib, runtimeAbiCheckCtorName lib.libName ∉ names
  priority_le : ∀ ctor ∈ userCtors, ctor.1 ≤ 65535

def SourceModule.compiled (source : SourceModule) : Module :=
  source.runs.foldl PassRun.run
    { names := source.names
      ctors := source.userCtors.map fun ctor => (ctor.1, .user ctor.2) }

/-! ## The start of a process -/

structure Process where
  ran : List Ctor
  written : List Name
  adaptive : Adaptive
  aborted : Bool

section Start

variable (versions : Name → BitVec 32) (does : Nat → Adaptive → Adaptive)

/-- The library has the version that the check expects. -/
def Ctor.passes : Ctor → Bool
  | .abiCheck check => versions check.versionSymbol = check.expectedVersion
  | .user _ | .register _ => true

/-- What a constructor does to the adaptive runtime. -/
def Ctor.effect (adaptive : Adaptive) : Ctor → Adaptive
  | .user id => does id adaptive
  | .abiCheck _ => adaptive
  | .register registration =>
      adaptive.register registration.mangledName registration.pipelineName registration.jitPtr
        registration.aotTTICost

def Ctor.call (process : Process) (ctor : Ctor) : Process :=
  if process.aborted then process
  else
    match ctor with
    | .abiCheck check =>
        if versions check.versionSymbol = check.expectedVersion then
          { process with ran := process.ran ++ [ctor] }
        else { process with written := process.written ++ [check.message], aborted := true }
    | .user _ | .register _ =>
        { process with
          ran := process.ran ++ [ctor]
          adaptive := ctor.effect does process.adaptive }

/-- Constructors of lower priority values run first, those of one priority in order. -/
def order (ctors : List (Nat × Ctor)) : List Ctor :=
  (ctors.insertionSort fun one other => one.1 ≤ other.1).map Prod.snd

/-- Run the constructors of modules that are linked in order. -/
def start (adaptive : Adaptive) (modules : List Module) : Process :=
  (order (modules.flatMap Module.ctors)).foldl (Ctor.call versions does)
    { ran := [], written := [], adaptive, aborted := false }

end Start

/-! ## What a compiled module runs -/

def PassRun.libs : PassRun → List RuntimeLib
  | .calls lib count => if 0 < count then [lib] else []
  | .loopParallelize partitionEnabled => if partitionEnabled then [.parallel] else []
  | .adaptiveDispatch pipelines => if 0 < pipelines.length then [.adaptive] else []

def PassRun.registrations : PassRun → List Registration
  | .calls _ _ | .loopParallelize _ => []
  | .adaptiveDispatch pipelines => pipelines

def RuntimeLib.check (lib : RuntimeLib) : AbiCheck where
  versionSymbol := lib.versionSymbol
  expectedVersion := lib.expectedVersion
  message := buildDiagnostic lib.libName lib.expectedVersion

def Ctor.registration? : Ctor → Option Registration
  | .register registration => some registration
  | .user _ | .abiCheck _ => none

/-- The entry of a pipeline that has just been registered. -/
def newEntry (registration : Registration) : Runtime.PipelineEntry where
  mangledName := registration.mangledName
  pipelineName := registration.pipelineName
  jitPtr := registration.jitPtr
  aotTTICost := registration.aotTTICost
  state := .warmup
  jitVersions := 0
  aotBaselineNS := 0
  jitBaselineNS := 0
  verifyCount := 0
  jitFuture := none

namespace SourceModule

variable (source : SourceModule)

/-- The libraries that the passes call, each once, by their first calls. -/
def libs : List RuntimeLib :=
  (source.runs.flatMap PassRun.libs).eraseDups

def registrations : List Registration :=
  source.runs.flatMap PassRun.registrations

def usersAt (priority : Nat) : List Ctor :=
  (source.userCtors.filter (·.1 = priority)).map fun ctor => .user ctor.2

/-- What runs at the lowest priority value: the checks, behind the constructors of the program. -/
def early : List Ctor :=
  source.usersAt 0 ++ source.libs.map fun lib => .abiCheck lib.check

def late : List Ctor :=
  source.usersAt 65535 ++ source.registrations.map .register

end SourceModule

/-! ## The names of checks -/

@[simp]
theorem mem_names_declare {module : Module} {name other : Name} :
    other ∈ (module.declare name).names ↔ other ∈ module.names ∨ other = name := by
  unfold Module.declare
  split
  · rename_i present
    constructor
    · exact Or.inl
    · rintro (member | rfl)
      · exact member
      · exact present
  · simp

@[simp]
theorem ctors_declare (module : Module) (name : Name) :
    (module.declare name).ctors = module.ctors := by
  unfold Module.declare
  split <;> rfl

theorem ctorName_ne_adaptive (lib : RuntimeLib) (mangledName : Name) :
    runtimeAbiCheckCtorName lib.libName ≠ mangledName ++ ".__adaptive_ctor".toList := by
  intro same
  have check_suffix : "k_ctor".toList <:+ runtimeAbiCheckCtorName lib.libName :=
    ⟨"topo_".toList ++ lib.libName ++ "_abi_chec".toList, by
      rw [List.append_assoc]
      rfl⟩
  have adaptive_suffix : "e_ctor".toList <:+ runtimeAbiCheckCtorName lib.libName :=
    ⟨mangledName ++ ".__adaptiv".toList, by
      rw [same, List.append_assoc]
      rfl⟩
  have suffixes := List.suffix_of_suffix_length_le check_suffix adaptive_suffix (by decide)
  exact absurd suffixes (by decide)

/-- The check of another library has a name of its own, and none of what a check declares has it. -/
theorem ctorName_eq_iff (lib other : RuntimeLib) :
    (runtimeAbiCheckCtorName other.libName = runtimeAbiCheckCtorName lib.libName ↔ other = lib) ∧
      runtimeAbiCheckCtorName other.libName ≠ lib.versionSymbol ∧
      runtimeAbiCheckCtorName other.libName ≠ "write".toList ∧
      runtimeAbiCheckCtorName other.libName ≠ "abort".toList ∧
      runtimeAbiCheckCtorName other.libName ≠ ".str.topo_abi.".toList ++ lib.libName := by
  cases lib <;> cases other <;> decide

theorem mem_names_inject (module : Module) (lib other : RuntimeLib) :
    runtimeAbiCheckCtorName other.libName ∈ (module.inject lib).names ↔
      runtimeAbiCheckCtorName other.libName ∈ module.names ∨ other = lib := by
  obtain ⟨same_iff, ne_version, ne_write, ne_abort, ne_text⟩ := ctorName_eq_iff lib other
  unfold Module.inject Module.injectAbiCheckCtor
  split
  · rename_i present
    constructor
    · exact Or.inl
    · rintro (member | rfl)
      · exact member
      · exact present
  · simp only [Module.addGlobalCtor, List.mem_append, List.mem_singleton, mem_names_declare,
      ne_version, ne_write, ne_abort, ne_text, same_iff, or_false]

theorem ctors_inject (module : Module) (lib : RuntimeLib) :
    (module.inject lib).ctors =
      if runtimeAbiCheckCtorName lib.libName ∈ module.names then module.ctors
      else module.ctors ++ [(0, .abiCheck lib.check)] := by
  unfold Module.inject Module.injectAbiCheckCtor
  split
  · rfl
  · simp only [Module.addGlobalCtor, ctors_declare, RuntimeLib.check]

/-! ## What passes add -/

/-- What passes that call the libraries and register the pipelines add to a module. -/
structure Adds (base : Module) (libs : List RuntimeLib) (registrations : List Registration)
    (module : Module) : Prop where
  checked : ∀ lib : RuntimeLib,
    runtimeAbiCheckCtorName lib.libName ∈ module.names ↔ lib ∈ libs
  ctors : ∃ added : List (Nat × Ctor),
    module.ctors = base.ctors ++ added ∧
      added.filter (·.1 = 0) = libs.eraseDups.map (fun lib => (0, .abiCheck lib.check)) ∧
      added.filter (·.1 = 65535) =
        registrations.map (fun registration => (65535, .register registration)) ∧
      ∀ ctor ∈ added, ctor.1 = 0 ∨ ctor.1 = 65535

theorem eraseDups_concat {α : Type*} [BEq α] [LawfulBEq α] [DecidableEq α] (l : List α) (one : α) :
    (l ++ [one]).eraseDups = if one ∈ l then l.eraseDups else l.eraseDups ++ [one] := by
  rw [List.eraseDups_append]
  split <;> rename_i present <;> simp [List.removeAll, List.eraseDups_cons, present]

namespace Adds

variable {base module : Module} {libs : List RuntimeLib} {registrations : List Registration}

theorem inject (adds : Adds base libs registrations module) (lib : RuntimeLib) :
    Adds base (libs ++ [lib]) registrations (module.inject lib) := by
  obtain ⟨added, ctors, checks, registers, priorities⟩ := adds.ctors
  refine ⟨fun other => ?_, ?_⟩
  · rw [mem_names_inject, adds.checked other, List.mem_append, List.mem_singleton]
  · by_cases known : lib ∈ libs
    · refine ⟨added, ?_, ?_, registers, priorities⟩
      · rw [ctors_inject, if_pos ((adds.checked lib).mpr known), ctors]
      · rw [checks, eraseDups_concat, if_pos known]
    · have unchecked := mt (adds.checked lib).mp known
      refine ⟨added ++ [(0, .abiCheck lib.check)], ?_, ?_, ?_, ?_⟩
      · rw [ctors_inject, if_neg unchecked, ctors, List.append_assoc]
      · rw [List.filter_append, checks, eraseDups_concat, if_neg known, List.map_append]
        rfl
      · rw [List.filter_append, registers]
        exact List.append_nil _
      · intro ctor member
        rcases List.mem_append.mp member with old | new
        · exact priorities ctor old
        · rw [List.mem_singleton.mp new]
          exact Or.inl rfl

theorem register (adds : Adds base libs registrations module) (registration : Registration) :
    Adds base libs (registrations ++ [registration]) (module.register registration) := by
  obtain ⟨added, ctors, checks, registers, priorities⟩ := adds.ctors
  refine ⟨fun lib => ?_, added ++ [(65535, .register registration)], ?_, ?_, ?_, ?_⟩
  · rw [← adds.checked lib, Module.register, Module.addGlobalCtor, List.mem_append,
      List.mem_singleton, or_iff_left (ctorName_ne_adaptive lib registration.mangledName)]
  · rw [Module.register, Module.addGlobalCtor, ctors, List.append_assoc]
  · rw [List.filter_append, checks]
    exact List.append_nil _
  · rw [List.filter_append, registers, List.map_append]
    rfl
  · intro ctor member
    rcases List.mem_append.mp member with old | new
    · exact priorities ctor old
    · rw [List.mem_singleton.mp new]
      exact Or.inr rfl

theorem registers (adds : Adds base libs registrations module) (pipelines : List Registration) :
    Adds base libs (registrations ++ pipelines) (pipelines.foldl Module.register module) := by
  induction pipelines generalizing module registrations with
  | nil => simpa using adds
  | cons first rest induction =>
      have registered := induction (adds.register first)
      rw [List.append_assoc] at registered
      exact registered

/-- One run of a pass. -/
theorem run (adds : Adds base libs registrations module) (run : PassRun) :
    Adds base (libs ++ run.libs) (registrations ++ run.registrations) (run.run module) := by
  cases run with
  | calls lib count =>
      simp only [PassRun.libs, PassRun.registrations, PassRun.run, List.append_nil]
      split
      · exact adds.inject lib
      · rwa [List.append_nil]
  | loopParallelize partitionEnabled =>
      simp only [PassRun.libs, PassRun.registrations, PassRun.run, List.append_nil]
      split
      · exact adds.inject .parallel
      · rwa [List.append_nil]
  | adaptiveDispatch pipelines =>
      simp only [PassRun.libs, PassRun.registrations, PassRun.run]
      split
      · exact (adds.registers pipelines).inject .adaptive
      · rw [List.append_nil]
        exact adds.registers pipelines

/-- The runs of all passes. -/
theorem runs (adds : Adds base libs registrations module) (runs : List PassRun) :
    Adds base (libs ++ runs.flatMap PassRun.libs)
      (registrations ++ runs.flatMap PassRun.registrations) (runs.foldl PassRun.run module) := by
  induction runs generalizing module libs registrations with
  | nil => simpa using adds
  | cons first rest induction =>
      have ran := induction (adds.run first)
      simp only [List.append_assoc] at ran
      exact ran

end Adds

/-! ## The order of the constructors -/

/-- What runs at the priorities in between: constructors of the programs only. -/
def between (sources : List SourceModule) : List Ctor :=
  order (((sources.flatMap SourceModule.userCtors).filter fun ctor =>
    0 < ctor.1 ∧ ctor.1 < 65535).map fun ctor => (ctor.1, .user ctor.2))

/-- Constructors of one priority stay in their order. -/
theorem order_eq_of_priority {ctors : List (Nat × Ctor)} {priority : Nat}
    (same : ∀ ctor ∈ ctors, ctor.1 = priority) : order ctors = ctors.map Prod.snd := by
  have sorted : ctors.Pairwise fun one other => one.1 ≤ other.1 := by
    rw [List.pairwise_iff_forall_sublist]
    intro one other pair
    rw [same one (pair.subset (by simp)), same other (pair.subset (by simp))]
  rw [order, sorted.insertionSort_eq]

theorem order_eq_append (ctors : List (Nat × Ctor)) (bound : Nat) :
    order ctors =
      order (ctors.filter (·.1 ≤ bound)) ++ order (ctors.filter (bound < ·.1)) := by
  have split := Library.StableSort.insertionSort_eq_filter_append
    (r := fun one other : Nat × Ctor => one.1 ≤ other.1) (fun ctor => decide (ctor.1 ≤ bound))
    (l := ctors)
    (fun one _ other _ low high => by
      simp only [decide_eq_true_eq, decide_eq_false_iff_not] at low high
      omega)
    (fun one _ other _ low high => by
      simp only [decide_eq_true_eq, decide_eq_false_iff_not] at low high
      omega)
  rw [order, split, List.map_append]
  simp only [order, ← decide_not, not_le]

theorem order_eq_of_le {ctors : List (Nat × Ctor)} (le : ∀ ctor ∈ ctors, ctor.1 ≤ 65535) :
    order ctors =
      (ctors.filter (·.1 = 0)).map Prod.snd ++
        order (ctors.filter fun ctor => 0 < ctor.1 ∧ ctor.1 < 65535) ++
        (ctors.filter (·.1 = 65535)).map Prod.snd := by
  have lowest : ctors.filter (·.1 ≤ 0) = ctors.filter (·.1 = 0) :=
    List.filter_congr fun ctor _ => by simp
  have middle : (ctors.filter (0 < ·.1)).filter (·.1 ≤ 65534) =
      ctors.filter fun ctor => 0 < ctor.1 ∧ ctor.1 < 65535 := by
    rw [List.filter_filter]
    refine List.filter_congr fun ctor _ => ?_
    rw [← Bool.decide_and, decide_eq_decide]
    omega
  have highest : (ctors.filter (0 < ·.1)).filter (65534 < ·.1) =
      ctors.filter (·.1 = 65535) := by
    rw [List.filter_filter]
    refine List.filter_congr fun ctor member => ?_
    have bounded := le ctor member
    rw [← Bool.decide_and, decide_eq_decide]
    omega
  rw [order_eq_append ctors 0, order_eq_append (ctors.filter (0 < ·.1)) 65534, lowest, middle,
    highest, List.append_assoc,
    order_eq_of_priority fun ctor member => of_decide_eq_true (List.mem_filter.mp member).2,
    order_eq_of_priority fun ctor member => of_decide_eq_true (List.mem_filter.mp member).2]

namespace SourceModule

variable (source : SourceModule)

theorem adds_compiled :
    Adds ⟨source.names, source.userCtors.map fun ctor => (ctor.1, .user ctor.2)⟩
      (source.runs.flatMap PassRun.libs) source.registrations source.compiled := by
  have unchanged : Adds ⟨source.names, source.userCtors.map fun ctor => (ctor.1, .user ctor.2)⟩
      [] [] ⟨source.names, source.userCtors.map fun ctor => (ctor.1, .user ctor.2)⟩ :=
    ⟨fun lib => iff_of_false (source.unchecked lib) List.not_mem_nil, [], by simp⟩
  exact unchanged.runs source.runs

theorem filter_users (keep : Nat → Bool) :
    (source.userCtors.map fun ctor => (ctor.1, Ctor.user ctor.2)).filter (fun ctor => keep ctor.1) =
      (source.userCtors.filter fun ctor => keep ctor.1).map fun ctor => (ctor.1, .user ctor.2) := by
  rw [List.filter_map]
  rfl

theorem compiled_priority_le : ∀ ctor ∈ source.compiled.ctors, ctor.1 ≤ 65535 := by
  obtain ⟨added, ctors, -, -, priorities⟩ := source.adds_compiled.ctors
  intro ctor member
  rw [ctors] at member
  rcases List.mem_append.mp member with user | new
  · obtain ⟨own, inside, rfl⟩ := List.mem_map.mp user
    exact source.priority_le own inside
  · rcases priorities ctor new with lowest | highest <;> omega

theorem compiled_early :
    (source.compiled.ctors.filter (·.1 = 0)).map Prod.snd = source.early := by
  obtain ⟨added, ctors, checks, -, -⟩ := source.adds_compiled.ctors
  rw [ctors, List.filter_append, checks, source.filter_users (fun priority => priority = 0),
    List.map_append, List.map_map, List.map_map]
  rfl

theorem compiled_late :
    (source.compiled.ctors.filter (·.1 = 65535)).map Prod.snd = source.late := by
  obtain ⟨added, ctors, -, registers, -⟩ := source.adds_compiled.ctors
  rw [ctors, List.filter_append, registers,
    source.filter_users (fun priority => priority = 65535), List.map_append, List.map_map,
    List.map_map]
  rfl

theorem compiled_between :
    source.compiled.ctors.filter (fun ctor => 0 < ctor.1 ∧ ctor.1 < 65535) =
      (source.userCtors.filter fun ctor => 0 < ctor.1 ∧ ctor.1 < 65535).map
        fun ctor => (ctor.1, .user ctor.2) := by
  obtain ⟨added, ctors, -, -, priorities⟩ := source.adds_compiled.ctors
  have none_added : added.filter (fun ctor => 0 < ctor.1 ∧ ctor.1 < 65535) = [] := by
    rw [List.filter_eq_nil_iff]
    intro ctor member
    have extreme := priorities ctor member
    rw [decide_eq_true_eq]
    omega
  rw [ctors, List.filter_append, none_added, List.append_nil,
    source.filter_users (fun priority => 0 < priority ∧ priority < 65535)]

end SourceModule

/-- The constructors of linked modules, in the order in which they run. -/
theorem order_compiled (sources : List SourceModule) :
    order ((sources.map SourceModule.compiled).flatMap Module.ctors) =
      sources.flatMap SourceModule.early ++ between sources ++
        sources.flatMap SourceModule.late := by
  have bounded : ∀ ctor ∈ (sources.map SourceModule.compiled).flatMap Module.ctors,
      ctor.1 ≤ 65535 := by
    intro ctor member
    obtain ⟨module, inside, ctor_mem⟩ := List.mem_flatMap.mp member
    obtain ⟨source, -, rfl⟩ := List.mem_map.mp inside
    exact source.compiled_priority_le ctor ctor_mem
  rw [order_eq_of_le bounded, List.flatMap_map]
  simp only [List.filter_flatMap, List.map_flatMap, SourceModule.compiled_early,
    SourceModule.compiled_late, SourceModule.compiled_between, between]

/-! ## The start -/

section Start

variable {versions : Name → BitVec 32} {does : Nat → Adaptive → Adaptive}

theorem foldl_call_of_passes {process : Process} {ctors : List Ctor}
    (running : process.aborted = false) (pass : ∀ ctor ∈ ctors, ctor.passes versions = true) :
    ctors.foldl (Ctor.call versions does) process =
      { process with
        ran := process.ran ++ ctors
        adaptive := ctors.foldl (Ctor.effect does) process.adaptive } := by
  induction ctors generalizing process with
  | nil => simp
  | cons first rest induction =>
      have called : Ctor.call versions does process first =
          { process with
            ran := process.ran ++ [first]
            adaptive := Ctor.effect does process.adaptive first } := by
        have passes := pass first List.mem_cons_self
        cases first with
        | user id => simp [Ctor.call, running]
        | register registration => simp [Ctor.call, running]
        | abiCheck check =>
            have same : versions check.versionSymbol = check.expectedVersion := by
              simpa [Ctor.passes] using passes
            simp [Ctor.call, Ctor.effect, running, same]
      rw [List.foldl_cons, called]
      have remaining := @induction
        { process with
          ran := process.ran ++ [first]
          adaptive := Ctor.effect does process.adaptive first }
        running fun ctor member => pass ctor (List.mem_cons_of_mem first member)
      refine remaining.trans ?_
      rw [List.append_assoc, List.singleton_append, List.foldl_cons]

theorem foldl_call_of_aborted {process : Process} (ctors : List Ctor)
    (aborted : process.aborted = true) :
    ctors.foldl (Ctor.call versions does) process = process := by
  induction ctors with
  | nil => rfl
  | cons first rest induction =>
      have called : Ctor.call versions does process first = process := by
        simp [Ctor.call, aborted]
      rw [List.foldl_cons, called, induction]

theorem foldl_call_of_fails {process : Process} {before : List Ctor} {failed : AbiCheck}
    (running : process.aborted = false) (pass : ∀ ctor ∈ before, ctor.passes versions = true)
    (differs : versions failed.versionSymbol ≠ failed.expectedVersion) (after : List Ctor) :
    (before ++ .abiCheck failed :: after).foldl (Ctor.call versions does) process =
      { ran := process.ran ++ before
        written := process.written ++ [failed.message]
        adaptive := before.foldl (Ctor.effect does) process.adaptive
        aborted := true } := by
  rw [List.foldl_append, foldl_call_of_passes running pass, List.foldl_cons]
  have called : Ctor.call versions does
      { process with
        ran := process.ran ++ before
        adaptive := before.foldl (Ctor.effect does) process.adaptive } (.abiCheck failed) =
      { ran := process.ran ++ before
        written := process.written ++ [failed.message]
        adaptive := before.foldl (Ctor.effect does) process.adaptive
        aborted := true } := by
    simp [Ctor.call, running, differs]
  rw [called, foldl_call_of_aborted after rfl]

/-- The modules' checks hold for the libraries that are linked. -/
abbrev Matches (versions : Name → BitVec 32) (sources : List SourceModule) : Prop :=
  ∀ source ∈ sources, ∀ lib ∈ source.libs, versions lib.versionSymbol = lib.expectedVersion

theorem passes_early_iff (sources : List SourceModule) :
    (∀ ctor ∈ sources.flatMap SourceModule.early, ctor.passes versions = true) ↔
      Matches versions sources := by
  constructor
  · intro pass source inside lib called
    have passes := pass (.abiCheck lib.check) (List.mem_flatMap.mpr ⟨source, inside,
      List.mem_append_right _ (List.mem_map_of_mem called)⟩)
    exact of_decide_eq_true passes
  · intro matching ctor member
    obtain ⟨source, inside, ctor_mem⟩ := List.mem_flatMap.mp member
    rcases List.mem_append.mp ctor_mem with user | check
    · obtain ⟨own, -, rfl⟩ := List.mem_map.mp user
      rfl
    · obtain ⟨lib, called, rfl⟩ := List.mem_map.mp check
      exact decide_eq_true (matching source inside lib called)

theorem exists_lib_of_mem_early {sources : List SourceModule} {check : AbiCheck}
    (member : .abiCheck check ∈ sources.flatMap SourceModule.early) :
    ∃ lib : RuntimeLib, check = lib.check := by
  obtain ⟨source, -, inside⟩ := List.mem_flatMap.mp member
  rcases List.mem_append.mp inside with user | own
  · obtain ⟨ctor, -, same⟩ := List.mem_map.mp user
    cases same
  · obtain ⟨lib, -, same⟩ := List.mem_map.mp own
    cases same
    exact ⟨lib, rfl⟩

/-- A list that does not pass has a first constructor that does not, and it is a check. -/
theorem exists_first_failing {ctors : List Ctor}
    (fails : ¬ ∀ ctor ∈ ctors, ctor.passes versions = true) :
    ∃ before failed after, ctors = before ++ .abiCheck failed :: after ∧
      (∀ ctor ∈ before, ctor.passes versions = true) ∧
      versions failed.versionSymbol ≠ failed.expectedVersion := by
  induction ctors with
  | nil => exact absurd (by simp) fails
  | cons first rest induction =>
      cases passes : first.passes versions with
      | false =>
          cases first with
          | user id => simp [Ctor.passes] at passes
          | register registration => simp [Ctor.passes] at passes
          | abiCheck check =>
              exact ⟨[], check, rest, rfl, by simp, by simpa [Ctor.passes] using passes⟩
      | true =>
          have rest_fails : ¬ ∀ ctor ∈ rest, ctor.passes versions = true := by
            intro rest_passes
            apply fails
            intro ctor member
            rcases List.mem_cons.mp member with rfl | inside
            · exact passes
            · exact rest_passes ctor inside
          obtain ⟨before, failed, after, rfl, pass, differs⟩ := induction rest_fails
          refine ⟨first :: before, failed, after, rfl, ?_, differs⟩
          intro ctor member
          rcases List.mem_cons.mp member with rfl | inside
          · exact passes
          · exact pass ctor inside

/-- No constructor before the registrations changes the pipelines. -/
theorem pipelines_foldl_effect
    (quiet : ∀ id state, (does id state).pipelines = state.pipelines) (adaptive : Adaptive)
    (ctors : List Ctor) :
    (ctors.foldl (Ctor.effect does) adaptive).pipelines =
      adaptive.pipelines ++ (ctors.filterMap Ctor.registration?).map newEntry := by
  induction ctors generalizing adaptive with
  | nil => simp
  | cons first rest induction =>
      rw [List.foldl_cons, induction]
      cases first with
      | user id => rw [Ctor.effect, quiet]; rfl
      | abiCheck check => rfl
      | register registration =>
          simp [Ctor.effect, Adaptive.register, Ctor.registration?, newEntry]

theorem registrations_early (sources : List SourceModule) :
    (sources.flatMap SourceModule.early).filterMap Ctor.registration? = [] := by
  rw [List.filterMap_eq_nil_iff]
  intro ctor member
  obtain ⟨source, -, ctor_mem⟩ := List.mem_flatMap.mp member
  rcases List.mem_append.mp ctor_mem with user | check
  · obtain ⟨own, -, rfl⟩ := List.mem_map.mp user
    rfl
  · obtain ⟨lib, -, rfl⟩ := List.mem_map.mp check
    rfl

theorem eq_user_of_mem_between {sources : List SourceModule} {ctor : Ctor}
    (member : ctor ∈ between sources) : ∃ id, ctor = .user id := by
  obtain ⟨placed, inside, rfl⟩ := List.mem_map.mp member
  obtain ⟨own, -, rfl⟩ := List.mem_map.mp ((List.mem_insertionSort _).mp inside)
  exact ⟨own.2, rfl⟩

theorem registrations_between (sources : List SourceModule) :
    (between sources).filterMap Ctor.registration? = [] := by
  rw [List.filterMap_eq_nil_iff]
  intro ctor member
  obtain ⟨id, rfl⟩ := eq_user_of_mem_between member
  rfl

theorem registrations_late (source : SourceModule) :
    source.late.filterMap Ctor.registration? = source.registrations := by
  have users : (source.usersAt 65535).filterMap Ctor.registration? = [] := by
    rw [List.filterMap_eq_nil_iff]
    intro ctor member
    obtain ⟨own, -, rfl⟩ := List.mem_map.mp member
    rfl
  rw [SourceModule.late, List.filterMap_append, users, List.filterMap_map]
  exact List.filterMap_some

theorem registrations_all (sources : List SourceModule) :
    (sources.flatMap SourceModule.early ++ between sources ++
        sources.flatMap SourceModule.late).filterMap Ctor.registration? =
      sources.flatMap SourceModule.registrations := by
  rw [List.filterMap_append, List.filterMap_append, registrations_early, registrations_between,
    List.nil_append, List.nil_append, List.filterMap_flatMap]
  simp only [registrations_late]

theorem passes_of_mem_late {source : SourceModule} {ctor : Ctor} (member : ctor ∈ source.late) :
    ctor.passes versions = true := by
  rcases List.mem_append.mp member with user | register
  · obtain ⟨own, -, rfl⟩ := List.mem_map.mp user
    rfl
  · obtain ⟨registration, -, rfl⟩ := List.mem_map.mp register
    rfl

theorem passes_all {sources : List SourceModule} (matching : Matches versions sources) :
    ∀ ctor ∈ sources.flatMap SourceModule.early ++ between sources ++
      sources.flatMap SourceModule.late, ctor.passes versions = true := by
  intro ctor member
  rcases List.mem_append.mp member with front | last
  · rcases List.mem_append.mp front with first | middle
    · exact (passes_early_iff sources).mpr matching ctor first
    · obtain ⟨id, rfl⟩ := eq_user_of_mem_between middle
      rfl
  · obtain ⟨source, -, inside⟩ := List.mem_flatMap.mp last
    exact passes_of_mem_late inside

/-- At the start of a process all checks run before everything of a higher priority value, and
each module checks each library that its passes call once.  Where the versions match everything
runs, and the pipelines of all modules are registered in order; otherwise the first check that
fails names its library and ends the process, and no pipeline is registered. -/
theorem start_compiled (versions : Name → BitVec 32) (does : Nat → Adaptive → Adaptive)
    (adaptive : Adaptive) (sources : List SourceModule) :
    let early := sources.flatMap SourceModule.early
    let all := early ++ between sources ++ sources.flatMap SourceModule.late
    let process := start versions does adaptive (sources.map SourceModule.compiled)
    (Matches versions sources →
      process =
        { ran := all
          written := []
          adaptive := all.foldl (Ctor.effect does) adaptive
          aborted := false }) ∧
      (¬ Matches versions sources →
        ∃ (before : List Ctor) (lib : RuntimeLib) (after : List Ctor),
          early = before ++ .abiCheck lib.check :: after ∧
            (∀ ctor ∈ before, ctor.passes versions = true) ∧
            versions lib.versionSymbol ≠ lib.expectedVersion ∧
            process =
              { ran := before
                written := [buildDiagnostic lib.libName lib.expectedVersion]
                adaptive := before.foldl (Ctor.effect does) adaptive
                aborted := true }) ∧
      ((∀ id state, (does id state).pipelines = state.pipelines) →
        process.adaptive.pipelines = adaptive.pipelines ++
          if Matches versions sources then
            (sources.flatMap SourceModule.registrations).map newEntry
          else []) := by
  intro early all process
  have started : process = all.foldl (Ctor.call versions does)
      { ran := [], written := [], adaptive, aborted := false } := by
    simp only [process, start, order_compiled, all, early]
  have completes : Matches versions sources → process =
      { ran := all
        written := []
        adaptive := all.foldl (Ctor.effect does) adaptive
        aborted := false } := by
    intro matching
    rw [started, foldl_call_of_passes rfl (passes_all matching)]
    rfl
  have fails : ¬ Matches versions sources →
      ∃ (before : List Ctor) (lib : RuntimeLib) (after : List Ctor),
        early = before ++ .abiCheck lib.check :: after ∧
          (∀ ctor ∈ before, ctor.passes versions = true) ∧
          versions lib.versionSymbol ≠ lib.expectedVersion ∧
          process =
            { ran := before
              written := [buildDiagnostic lib.libName lib.expectedVersion]
              adaptive := before.foldl (Ctor.effect does) adaptive
              aborted := true } := by
    intro differing
    obtain ⟨before, failed, after, split, pass, differs⟩ :=
      exists_first_failing (mt (passes_early_iff sources).mp differing)
    obtain ⟨lib, rfl⟩ := exists_lib_of_mem_early
      (show Ctor.abiCheck failed ∈ sources.flatMap SourceModule.early by rw [split]; simp)
    refine ⟨before, lib, after, split, pass, differs, ?_⟩
    have all_split : all =
        before ++ .abiCheck lib.check ::
          (after ++ between sources ++ sources.flatMap SourceModule.late) := by
      simp only [all, early, split, List.append_assoc, List.cons_append]
    rw [started, all_split, foldl_call_of_fails rfl pass differs]
    rfl
  refine ⟨completes, fails, fun quiet => ?_⟩
  split
  · rename_i matching
    rw [completes matching, pipelines_foldl_effect quiet, registrations_all]
  · rename_i differing
    obtain ⟨before, lib, after, split, -, -, ended⟩ := fails differing
    have unregistered : before.filterMap Ctor.registration? = [] := by
      have none_early : early.filterMap Ctor.registration? = [] := registrations_early sources
      rw [split, List.filterMap_append] at none_early
      exact (List.append_eq_nil_iff.mp none_early).1
    rw [ended, pipelines_foldl_effect quiet, unregistered, List.map_nil]

/-- A module with a pipeline runs its checks before its own constructors, and registers nothing
where a module beside it needs another version of the arena. -/
theorem start_two_modules :
    let registration : Registration := ⟨"p".toList, "p".toList, 0, 7⟩
    let one : SourceModule :=
      ⟨["p".toList], [(65535, 1), (101, 2)],
        [.calls .parallel 2, .adaptiveDispatch [registration]],
        fun lib => by cases lib <;> decide, by decide⟩
    let other : SourceModule :=
      ⟨[], [(0, 3)], [.loopParallelize true, .calls .parallel 1, .calls .arena 1],
        fun _ => List.not_mem_nil, by decide⟩
    let versions : Name → BitVec 32 :=
      fun name => if name = "topo_arena_version".toList then 2 else 1
    (start versions (fun _ state => state) .boot ([one].map SourceModule.compiled)).ran =
        [.abiCheck RuntimeLib.parallel.check, .abiCheck RuntimeLib.adaptive.check, .user 2,
          .user 1, .register registration] ∧
      (start versions (fun _ state => state) .boot
        ([one, other].map SourceModule.compiled)).adaptive.pipelines = [] := by
  intro registration one other versions
  have matching : Matches versions [one] := by decide
  have differing : ¬ Matches versions [one, other] := by decide
  obtain ⟨completes, -, -⟩ := start_compiled versions (fun _ state => state) .boot [one]
  obtain ⟨-, -, withholds⟩ :=
    start_compiled versions (fun _ state => state) .boot [one, other]
  have planned : [one].flatMap SourceModule.early ++ between [one] ++
      [one].flatMap SourceModule.late =
        [.abiCheck RuntimeLib.parallel.check, .abiCheck RuntimeLib.adaptive.check, .user 2,
          .user 1, .register registration] := rfl
  have withheld := withholds fun _ _ => rfl
  rw [completes matching, withheld, if_neg differing, planned]
  exact ⟨rfl, rfl⟩

end Start

end Startup
end TopoLlvm
