import TopoLlvm.JitEngine.ModulePreparation
import TopoLlvm.Library.SharedThreads
import TopoLlvm.Library.Text

/-!
# Concurrent specializations

The calls of the engine run concurrently: the LLJIT is built under a mutex, once, the passes run
outside of it, and the library of a specialized function is made, filled and looked up under the
mutex again.  A counter keeps the names of libraries apart.  Whatever the interleaving, a call that
returns a pointer returns its own specialized function.
-/

namespace TopoLlvm
namespace JitEngine
namespace SpecializationRuns

open Backend (Name)

/-- `std::to_string` of a positive number. -/
def toName (number : Nat) : Name := Nat.toDigits 10 number

def jitName (mangledName : Name) (number : Nat) : Name :=
  mangledName ++ ".jit.".toList ++ toName number

/-- What a call has read, matched and transformed; no name is one that the engine gives. -/
structure Request extends Work where
  fresh : ∀ number, jitName mangledName number ∉ module.names

def Request.libraryName (request : Request) (number : Nat) : Name :=
  jitName request.mangledName number

/-- The module that is added to the library. -/
def Request.prepared (request : Request) (number : Nat) : JitModule :=
  request.module.prepare request.mangledName (request.libraryName number)

/-- A library of the LLJIT, which is empty until a module is added. -/
structure Dylib where
  name : Name
  module : Option JitModule

/-- What a lookup finds: a function of a library, or a symbol of the process. -/
inductive Pointer where
  | function (library : Name) (id : ValueId)
  | process (name : Name)
  deriving DecidableEq

/-- A lookup in a library, whose generator offers the symbols of the process. -/
def Dylib.lookup (library : Dylib) (name : Name) : Pointer :=
  match library.module.bind fun module =>
      module.functions.find? fun func => func.name = name && func.body.isSome with
  | some func => .function library.name func.id
  | none => .process name

/-- A call that has returned a pointer. -/
structure Returned where
  request : Request
  number : Nat
  pointer : Pointer

structure Shared (Thread : Type) where
  owner : Option Thread
  initialized : Bool
  /-- `g_jit` is there. -/
  jit : Bool
  /-- How many times an LLJIT has been built. -/
  built : Nat
  counter : Nat
  dylibs : List Dylib
  returned : List Returned

/-- Where a thread is; `probe` tells a call that only asks whether the engine is there. -/
inductive Phase where
  | idle
  | entering (probe : Bool)
  | ensuring (probe : Bool)
  | transforming
  | counting (request : Request)
  | waiting (request : Request) (number : Nat)
  | creating (request : Request) (number : Nat)
  | adding (request : Request) (number : Nat)
  | looking (request : Request) (number : Nat)
  /-- `createJITDylib` has refused the name. -/
  | refused
  /-- A null `g_jit` has been dereferenced. -/
  | crashed

/-- What a step leaves open. -/
inductive Choice where
  | call (probe : Bool)
  | built (success : Bool)
  | transformed (request : Option Request)
  | added (success : Bool)
  | found (success : Bool)
  | proceed

section Step

variable {Thread : Type}

namespace Shared

variable (shared : Shared Thread)

def release : Shared Thread := { shared with owner := none }

/-- The end of `ensureJIT`. -/
def ensured (probe : Bool) : Shared Thread × Phase :=
  (shared.release, if !probe && shared.jit then .transforming else .idle)

def hasDylib (name : Name) : Bool := shared.dylibs.any (·.name = name)

/-- `createJITDylib`. -/
def create (request : Request) (number : Nat) : Shared Thread × Phase :=
  let name := request.libraryName number
  if shared.hasDylib name then (shared.release, .refused)
  else ({ shared with dylibs := shared.dylibs ++ [⟨name, none⟩] }, .adding request number)

/-- `addIRModule`. -/
def add (request : Request) (number : Nat) : Shared Thread :=
  { shared with
    dylibs := shared.dylibs.map fun library =>
      if library.name = request.libraryName number then
        { library with module := some (request.prepared number) }
      else library }

/-- The pointer of a lookup in the library of a name. -/
def find (request : Request) (number : Nat) : Pointer :=
  let name := request.libraryName number
  match shared.dylibs.find? (·.name = name) with
  | some library => library.lookup name
  | none => .process name

end Shared

/-- One step of a thread. -/
def stepThread (thread : Thread) (shared : Shared Thread) :
    Phase → Choice → Option (Shared Thread × Phase)
  | .idle, .call probe => some (shared, .entering probe)
  | .entering probe, .proceed =>
      if shared.owner = none then some ({ shared with owner := some thread }, .ensuring probe)
      else none
  | .ensuring probe, .proceed => if shared.initialized then some (shared.ensured probe) else none
  | .ensuring probe, .built success =>
      if shared.initialized then none
      else
        some (({ shared with
          initialized := true, jit := success, built := shared.built + 1 }).ensured probe)
  | .transforming, .transformed none => some (shared, .idle)
  | .transforming, .transformed (some request) => some (shared, .counting request)
  | .counting request, .proceed =>
      some ({ shared with counter := shared.counter + 1 }, .waiting request (shared.counter + 1))
  | .waiting request number, .proceed =>
      if shared.owner = none then
        some ({ shared with owner := some thread }, .creating request number)
      else none
  | .creating request number, .proceed =>
      if shared.jit then some (shared.create request number) else some (shared, .crashed)
  | .adding request number, .added true => some (shared.add request number, .looking request number)
  | .adding _ _, .added false => some (shared.release, .idle)
  | .looking request number, .found true =>
      some ({ shared.release with
        returned := shared.returned ++ [⟨request, number, shared.find request number⟩] }, .idle)
  | .looking _ _, .found false => some (shared.release, .idle)
  | _, _ => none

end Step

abbrev State (Thread : Type) := Library.Threads Thread (Shared Thread) Phase

/-- The engine of a process in which any number of threads call it. -/
def machine (Thread : Type) [DecidableEq Thread] :
    Transition.Machine (State Thread) (Thread × Choice) :=
  Library.Threads.machine (fun shared => shared = ⟨none, false, false, 0, 0, [], []⟩) .idle
    stepThread

/-- The counter is an `int`. -/
def InRange {Thread : Type} (state : State Thread) (_ : Thread × Choice) : Prop :=
  state.shared.counter < 2147483647

/-! ## The names of libraries -/

theorem toName_injective : Function.Injective toName := by
  intro one other same
  have values := congrArg (fun digits => Nat.ofDigitChars 10 digits 0) same
  simpa [toName, Nat.ofDigitChars_toDigits] using values

theorem dot_not_mem_toName (number : Nat) : '.' ∉ toName number := by
  intro member
  have digit := Nat.isDigit_of_mem_toDigits (by decide) (by decide) member
  exact absurd digit (by decide)

/-- The name of a library tells the number of the call. -/
theorem jitName_inj {mangledName other : Name} {number third : Nat}
    (same : jitName mangledName number = jitName other third) : number = third := by
  have parts (front : Name) (count : Nat) :
      Text.rsplit ['.'] (jitName front count) = some (front ++ ".jit".toList, toName count) := by
    refine Text.rsplit_singleton_eq_some.mpr ⟨?_, dot_not_mem_toName count⟩
    rw [jitName, List.append_assoc, List.append_assoc]
    rfl
  have cut := parts mangledName number
  rw [same, parts other third] at cut
  exact toName_injective (Prod.mk.inj (Option.some.inj cut)).2.symm

/-! ## What holds in every run -/

namespace Phase

/-- The thread holds the mutex. -/
def Locked : Phase → Prop
  | ensuring _ | creating .. | adding .. | looking .. => True
  | idle | entering _ | transforming | counting _ | waiting .. | refused | crashed => False

/-- The thread has seen that the LLJIT is there. -/
def NeedsJit : Phase → Prop
  | transforming | counting _ | waiting .. | creating .. | adding .. | looking .. => True
  | idle | entering _ | ensuring _ | refused | crashed => False

/-- The number that the call of the thread has drawn. -/
def number : Phase → Option Nat
  | waiting _ number | creating _ number | adding _ number | looking _ number => some number
  | idle | entering _ | ensuring _ | transforming | counting _ | refused | crashed => none

end Phase

variable {Thread : Type}

/-- No library has the number. -/
def Unpublished (dylibs : List Dylib) (number : Nat) : Prop :=
  ∀ name ∈ dylibs.map (·.name), ∀ mangledName, name ≠ jitName mangledName number

/-- How far the call of a thread is. -/
def Progress (dylibs : List Dylib) : Phase → Prop
  | .waiting _ number | .creating _ number => Unpublished dylibs number
  | .adding request number => request.libraryName number ∈ dylibs.map (·.name)
  | .looking request number =>
      ⟨request.libraryName number, some (request.prepared number)⟩ ∈ dylibs
  | .idle | .entering _ | .ensuring _ | .transforming | .counting _ => True
  | .refused | .crashed => False

/-- The pointer is the specialized function's, in the library of the call. -/
def Returned.Own (returned : Returned) (dylibs : List Dylib) : Prop :=
  ⟨returned.request.libraryName returned.number,
      some (returned.request.prepared returned.number)⟩ ∈ dylibs ∧
    ∃ func ∈ returned.request.module.functions, func.name = returned.request.mangledName ∧
      returned.pointer = .function (returned.request.libraryName returned.number) func.id

structure Holds (shared : Shared Thread) : Prop where
  built : shared.built = if shared.initialized then 1 else 0
  jit : shared.jit = true → shared.initialized = true
  names : (shared.dylibs.map (·.name)).Nodup
  named : ∀ name ∈ shared.dylibs.map (·.name), ∃ mangledName number,
    name = jitName mangledName number ∧ number ≤ shared.counter
  returned : ∀ returned ∈ shared.returned,
    returned.number ≤ shared.counter ∧ returned.Own shared.dylibs
  numbers : (shared.returned.map (·.number)).Nodup

structure Ok (shared : Shared Thread) (thread : Thread) (phase : Phase) : Prop where
  locked : phase.Locked → shared.owner = some thread
  jit : phase.NeedsJit → shared.jit = true
  number : ∀ number, phase.number = some number →
    number ≤ shared.counter ∧ ∀ returned ∈ shared.returned, returned.number ≠ number
  progress : Progress shared.dylibs phase

/-- Two threads have drawn different numbers. -/
def Apart (one other : Phase) : Prop :=
  ∀ number, one.number = some number → other.number ≠ some number

/-- A step of another thread does not disturb a thread. -/
theorem Ok.frame {shared after : Shared Thread} {thread : Thread} {phase : Phase}
    (ok : Ok shared thread phase) (owner : phase.Locked → after.owner = shared.owner)
    (jit : shared.jit = true → after.jit = true) (counter : shared.counter ≤ after.counter)
    (returned : ∀ number, phase.number = some number →
      ∀ returned ∈ after.returned, returned ∈ shared.returned ∨ returned.number ≠ number)
    (progress : Progress after.dylibs phase) : Ok after thread phase where
  locked inside := (owner inside).trans (ok.locked inside)
  jit needs := jit (ok.jit needs)
  number number drawn := by
    obtain ⟨bounded, unused⟩ := ok.number number drawn
    refine ⟨bounded.trans counter, fun call member => ?_⟩
    rcases returned number drawn call member with old | differs
    · exact unused call old
    · exact differs
  progress := progress

/-- The owner of the mutex is alone. -/
theorem Ok.not_locked {shared : Shared Thread} {thread other : Thread} {phase : Phase}
    (ok : Ok shared other phase) (owner : shared.owner = some thread) (differs : other ≠ thread) :
    ¬ phase.Locked := fun inside =>
  differs (Option.some.inj ((ok.locked inside).symm.trans owner))

open Library.Threads (Keeps)

section Steps

variable {thread : Thread} {shared : Shared Thread} {phase next : Phase}

/-- A step that may take or give up the mutex, and changes nothing else that is shared. -/
theorem keeps_owner {owner : Option Thread} (holds : Holds shared)
    (own : Ok { shared with owner } thread next)
    (alone : ∀ other position, other ≠ thread → Ok shared other position → position.Locked →
      owner = shared.owner)
    (number : next.number = none ∨ next.number = phase.number) :
    Keeps Holds Ok Apart thread shared phase { shared with owner } next where
  holds := ⟨holds.built, holds.jit, holds.names, holds.named, holds.returned, holds.numbers⟩
  own := own
  others other position differs ok apart := by
    refine ⟨ok.frame (alone other position differs ok) id le_rfl (fun _ _ _ member => Or.inl member)
      ok.progress, fun drawn has => ?_⟩
    rcases number with without | same
    · rw [without] at has
      cases has
    · rw [same] at has
      exact apart drawn has

/-- Steps outside of the mutex. -/
theorem keeps_outside (holds : Holds shared) (own : Ok shared thread next)
    (number : next.number = none) : Keeps Holds Ok Apart thread shared phase shared next :=
  keeps_owner holds own (fun _ _ _ _ _ => rfl) (Or.inl number)

theorem keeps_lock (holds : Holds shared) (free : shared.owner = none)
    (own : Ok { shared with owner := some thread } thread next)
    (number : next.number = none ∨ next.number = phase.number) :
    Keeps Holds Ok Apart thread shared phase { shared with owner := some thread } next := by
  refine keeps_owner holds own (fun other position _ ok inside => ?_) number
  cases free.symm.trans (ok.locked inside)

theorem keeps_release (holds : Holds shared) (ok : Ok shared thread phase)
    (inside : phase.Locked) (own : Ok shared.release thread next) (number : next.number = none) :
    Keeps Holds Ok Apart thread shared phase shared.release next :=
  keeps_owner holds own
    (fun _ _ differs other_ok there =>
      absurd there (other_ok.not_locked (ok.locked inside) differs))
    (Or.inl number)

theorem ok_idle : Ok shared thread .idle :=
  ⟨False.elim, False.elim, fun _ drawn => (by cases drawn), trivial⟩

/-- The end of `ensureJIT`. -/
theorem ok_ensured (probe : Bool) : Ok (shared.ensured probe).1 thread (shared.ensured probe).2 := by
  unfold Shared.ensured
  split
  · rename_i there
    refine ⟨False.elim, fun _ => ?_, fun _ drawn => (by cases drawn), trivial⟩
    exact (Bool.and_eq_true_iff.mp there).2
  · exact ok_idle

theorem number_ensured (probe : Bool) : (shared.ensured probe).2.number = none := by
  unfold Shared.ensured
  split <;> rfl

/-- The LLJIT is built once: afterwards the engine counts as initialized. -/
theorem keeps_built (holds : Holds shared) {probe : Bool} (ok : Ok shared thread (.ensuring probe))
    (first : shared.initialized = false) (success : Bool) :
    Keeps Holds Ok Apart thread shared (.ensuring probe)
      (({ shared with
        initialized := true, jit := success, built := shared.built + 1 }).ensured probe).1
      (({ shared with
        initialized := true, jit := success, built := shared.built + 1 }).ensured probe).2 where
  holds := by
    refine ⟨?_, fun _ => rfl, holds.names, holds.named, holds.returned, holds.numbers⟩
    simp [Shared.ensured, Shared.release, holds.built, first]
  own := ok_ensured probe
  others other position differs other_ok apart := by
    refine ⟨other_ok.frame
      (fun there => absurd there (other_ok.not_locked (ok.locked trivial) differs))
      (fun there => ?_) le_rfl (fun _ _ _ member => Or.inl member) other_ok.progress,
      fun drawn has => ?_⟩
    · cases first.symm.trans (holds.jit there)
    · rw [number_ensured] at has
      cases has

/-- Nothing of a number is there before it is drawn. -/
theorem keeps_count (holds : Holds shared) {request : Request}
    (ok : Ok shared thread (.counting request)) :
    Keeps Holds Ok Apart thread shared (.counting request)
      { shared with counter := shared.counter + 1 } (.waiting request (shared.counter + 1)) where
  holds := by
    refine ⟨holds.built, holds.jit, holds.names, fun name member => ?_, fun call member => ?_,
      holds.numbers⟩
    · obtain ⟨mangledName, number, same, bounded⟩ := holds.named name member
      exact ⟨mangledName, number, same, Nat.le_succ_of_le bounded⟩
    · obtain ⟨bounded, kept⟩ := holds.returned call member
      exact ⟨Nat.le_succ_of_le bounded, kept⟩
  own := by
    refine ⟨False.elim, fun _ => ok.jit trivial, fun number drawn => ?_, fun name member => ?_⟩
    · obtain rfl := Option.some.inj drawn
      refine ⟨le_rfl, fun call member same => ?_⟩
      have bounded := (holds.returned call member).1
      omega
    · intro mangledName same
      obtain ⟨other, number, named, bounded⟩ := holds.named name member
      have equal := jitName_inj (named.symm.trans same)
      omega
  others other position _ other_ok _ := by
    refine ⟨other_ok.frame (fun _ => rfl) id (Nat.le_succ _) (fun _ _ _ member => Or.inl member)
      other_ok.progress, fun number drawn has => ?_⟩
    obtain rfl := Option.some.inj drawn
    have bounded := (other_ok.number _ has).1
    omega

theorem hasDylib_eq_false {number : Nat} (unpublished : Unpublished shared.dylibs number)
    (mangledName : Name) : shared.hasDylib (jitName mangledName number) = false := by
  rw [Shared.hasDylib, List.any_eq_false]
  intro library member named
  exact unpublished library.name (List.mem_map_of_mem member) mangledName (of_decide_eq_true named)

/-- A library is created under a name that no other has. -/
theorem keeps_create (holds : Holds shared) {request : Request} {number : Nat}
    (ok : Ok shared thread (.creating request number)) :
    Keeps Holds Ok Apart thread shared (.creating request number)
      (shared.create request number).1 (shared.create request number).2 := by
  have unpublished : Unpublished shared.dylibs number := ok.progress
  have created : shared.create request number =
      ({ shared with dylibs := shared.dylibs ++ [⟨request.libraryName number, none⟩] },
        .adding request number) := by
    rw [Shared.create, Request.libraryName, hasDylib_eq_false unpublished]
    rfl
  have names : (shared.dylibs ++ [Dylib.mk (request.libraryName number) none]).map (·.name) =
      shared.dylibs.map (·.name) ++ [request.libraryName number] := by
    rw [List.map_append]
    rfl
  rw [created]
  refine ⟨⟨holds.built, holds.jit, ?_, ?_, ?_, holds.numbers⟩, ?_, ?_⟩
  · rw [names]
    refine holds.names.append (List.nodup_singleton _) fun name member new => ?_
    exact unpublished name member request.mangledName (List.mem_singleton.mp new)
  · intro name member
    rw [names] at member
    rcases List.mem_append.mp member with old | new
    · exact holds.named name old
    · exact ⟨request.mangledName, number, List.mem_singleton.mp new, (ok.number number rfl).1⟩
  · intro call member
    obtain ⟨bounded, kept, pointer⟩ := holds.returned call member
    exact ⟨bounded, List.mem_append_left _ kept, pointer⟩
  · refine ⟨ok.locked, ok.jit, ok.number, ?_⟩
    rw [Progress, names]
    exact List.mem_append_right _ List.mem_cons_self
  · intro other position differs other_ok apart
    have outside := other_ok.not_locked (ok.locked trivial) differs
    refine ⟨other_ok.frame (fun there => absurd there outside) id le_rfl
      (fun _ _ _ member => Or.inl member) ?_, apart⟩
    cases position with
    | waiting other_request third =>
        intro name member mangledName same
        rw [names] at member
        rcases List.mem_append.mp member with old | new
        · exact other_ok.progress name old mangledName same
        · have equal := jitName_inj ((List.mem_singleton.mp new).symm.trans same)
          exact apart number rfl (congrArg some equal.symm)
    | creating | adding | looking => exact absurd trivial outside
    | idle | entering | ensuring | transforming | counting | refused | crashed =>
        exact other_ok.progress

theorem names_add (shared : Shared Thread) (request : Request) (number : Nat) :
    (shared.add request number).dylibs.map (·.name) = shared.dylibs.map (·.name) := by
  rw [Shared.add, List.map_map]
  refine List.map_congr_left fun library _ => ?_
  rw [Function.comp_apply]
  split <;> rfl

/-- A module is added to its own library only. -/
theorem keeps_add (holds : Holds shared) {request : Request} {number : Nat}
    (ok : Ok shared thread (.adding request number)) :
    Keeps Holds Ok Apart thread shared (.adding request number) (shared.add request number)
      (.looking request number) := by
  have names := names_add shared request number
  refine ⟨⟨holds.built, holds.jit, ?_, ?_, ?_, holds.numbers⟩, ?_, ?_⟩
  · rw [names]
    exact holds.names
  · rw [names]
    exact holds.named
  · intro call member
    obtain ⟨bounded, kept, pointer⟩ := holds.returned call member
    refine ⟨bounded, List.mem_map.mpr ⟨_, kept, if_neg fun same => ?_⟩, pointer⟩
    exact (ok.number number rfl).2 call member (jitName_inj same)
  · refine ⟨ok.locked, ok.jit, ok.number, ?_⟩
    obtain ⟨library, member, named⟩ := List.mem_map.mp ok.progress
    refine List.mem_map.mpr ⟨library, member, ?_⟩
    rw [if_pos named, ← named]
  · intro other position differs other_ok apart
    have outside := other_ok.not_locked (ok.locked trivial) differs
    refine ⟨other_ok.frame (fun there => absurd there outside) id le_rfl
      (fun _ _ _ member => Or.inl member) ?_, apart⟩
    cases position with
    | waiting other_request third =>
        have unpublished := other_ok.progress
        rw [Progress, Unpublished] at unpublished ⊢
        rwa [names]
    | creating | adding | looking => exact absurd trivial outside
    | idle | entering | ensuring | transforming | counting | refused | crashed =>
        exact other_ok.progress

/-- A lookup in the library of a call finds its specialized function. -/
theorem find_eq (holds : Holds shared) {request : Request} {number : Nat}
    (published : ⟨request.libraryName number, some (request.prepared number)⟩ ∈ shared.dylibs) :
    ∃ func ∈ request.module.functions, func.name = request.mangledName ∧
      shared.find request number = .function (request.libraryName number) func.id := by
  obtain ⟨func, member, body, named, -, alone, -⟩ :=
    request.toWork.specialized_links (request.fresh number)
  refine ⟨func, member, named, ?_⟩
  have library := find?_eq_of_nodup holds.names published
  have found : (request.prepared number).functions.find?
      (fun other => other.name = request.libraryName number && other.body.isSome) =
        some { func with
          name := request.libraryName number
          body := some (body.map (Operand.undefs request.module.replacedIds))
          personality := none } := by
    rw [← List.head?_filter, ← List.filter_filter]
    refine (congrArg (fun functions => (List.filter _ functions).head?) alone).trans ?_
    simp [Request.libraryName]
  rw [Shared.find, library]
  simp only [Dylib.lookup, Option.bind_some, found]

/-- A call returns its own function, under a number that no other call has returned. -/
theorem keeps_return (holds : Holds shared) {request : Request} {number : Nat}
    (ok : Ok shared thread (.looking request number)) :
    Keeps Holds Ok Apart thread shared (.looking request number)
      { shared.release with
        returned := shared.returned ++ [⟨request, number, shared.find request number⟩] } .idle := by
  obtain ⟨bounded, unused⟩ := ok.number number rfl
  obtain ⟨func, member, named, found⟩ := find_eq holds ok.progress
  refine ⟨⟨holds.built, holds.jit, holds.names, holds.named, ?_, ?_⟩, ok_idle, ?_⟩
  · intro call inside
    rcases List.mem_append.mp inside with old | new
    · exact holds.returned call old
    · rw [List.mem_singleton.mp new]
      exact ⟨bounded, ok.progress, func, member, named, found⟩
  · rw [List.map_append]
    refine holds.numbers.append (List.nodup_singleton _) fun drawn old new => ?_
    obtain ⟨call, inside, same⟩ := List.mem_map.mp old
    exact unused call inside (same.trans (List.mem_singleton.mp new))
  · intro other position differs other_ok apart
    have outside := other_ok.not_locked (ok.locked trivial) differs
    refine ⟨other_ok.frame (fun there => absurd there outside) id le_rfl
      (fun drawn has call inside => ?_) other_ok.progress, fun _ has => (by cases has)⟩
    rcases List.mem_append.mp inside with old | new
    · exact Or.inl old
    · refine Or.inr fun same => apart number rfl ?_
      rw [has, ← same, List.mem_singleton.mp new]

theorem keeps_of_step {choice : Choice} {after : Shared Thread} (holds : Holds shared)
    (ok : Ok shared thread phase)
    (step : stepThread thread shared phase choice = some (after, next)) :
    Keeps Holds Ok Apart thread shared phase after next := by
  cases phase with
  | idle =>
      cases choice <;> cases step
      exact keeps_outside holds
        ⟨False.elim, False.elim, fun _ drawn => (by cases drawn), trivial⟩ rfl
  | entering probe =>
      cases choice <;> try cases step
      rw [stepThread] at step
      split at step
      · rename_i free
        cases step
        exact keeps_lock holds free
          ⟨fun _ => rfl, False.elim, fun _ drawn => (by cases drawn), trivial⟩ (Or.inl rfl)
      · cases step
  | ensuring probe =>
      cases choice with
      | proceed =>
          rw [stepThread] at step
          split at step
          · cases step
            exact keeps_release holds ok trivial (ok_ensured probe) (number_ensured probe)
          · cases step
      | built success =>
          rw [stepThread] at step
          split at step
          · cases step
          · rename_i first
            cases step
            exact keeps_built holds ok (Bool.eq_false_iff.mpr first) success
      | call | transformed | added | found => cases step
  | transforming =>
      cases choice with
      | transformed request =>
          cases request with
          | none =>
              cases step
              exact keeps_outside holds ok_idle rfl
          | some request =>
              cases step
              exact keeps_outside holds
                ⟨False.elim, fun _ => ok.jit trivial, fun _ drawn => (by cases drawn), trivial⟩ rfl
      | call | built | added | found | proceed => cases step
  | counting request =>
      cases choice <;> cases step
      exact keeps_count holds ok
  | waiting request number =>
      cases choice <;> try cases step
      rw [stepThread] at step
      split at step
      · rename_i free
        cases step
        exact keeps_lock holds free ⟨fun _ => rfl, ok.jit, ok.number, ok.progress⟩ (Or.inr rfl)
      · cases step
  | creating request number =>
      cases choice <;> try cases step
      rw [stepThread, if_pos (ok.jit trivial)] at step
      have keeps := keeps_create holds ok
      rwa [Option.some.inj step] at keeps
  | adding request number =>
      cases choice with
      | added success =>
          cases success with
          | true =>
              cases step
              exact keeps_add holds ok
          | false =>
              cases step
              exact keeps_release holds ok trivial ok_idle rfl
      | call | built | transformed | found | proceed => cases step
  | looking request number =>
      cases choice with
      | found success =>
          cases success with
          | true =>
              cases step
              exact keeps_return holds ok
          | false =>
              cases step
              exact keeps_release holds ok trivial ok_idle rfl
      | call | built | transformed | added | proceed => cases step
  | refused | crashed => exact ok.progress.elim

end Steps

section Runs

variable [DecidableEq Thread]

theorem Apart.symm {one other : Phase} (apart : Apart one other) : Apart other one :=
  fun number drawn same => apart number same drawn

theorem invariant_of_reachable {state : State Thread}
    (reach : (machine Thread).Reachable InRange state) :
    Library.Threads.Invariant Holds Ok Apart state := by
  refine Library.Threads.invariant_of_reachable (fun _ _ => Apart.symm) ?_ ?_ ?_ reach
  · intro number drawn
    cases drawn
  · rintro shared rfl
    exact ⟨⟨rfl, fun there => there, List.nodup_nil, by simp, by simp, List.nodup_nil⟩,
      fun thread => ok_idle⟩
  · intro thread shared phase choice after next holds ok step
    exact keeps_of_step holds ok step

/-- In every run, the LLJIT is built at most once and is there when it is used, no name of a
library is refused, and each pointer that a call has returned is the function that this call has
specialized, in a library of its own: no two calls return one pointer. -/
theorem specialized_pointers {state : State Thread}
    (reach : (machine Thread).Reachable InRange state) :
    state.shared.built ≤ 1 ∧
      (∀ thread, state.phase thread ≠ .refused ∧ state.phase thread ≠ .crashed) ∧
      (state.shared.returned.map (·.pointer)).Nodup ∧
      ∀ call ∈ state.shared.returned, ∃ func ∈ call.request.module.functions, ∃ body,
        func.name = call.request.mangledName ∧ func.body = some body ∧
          call.pointer = .function (call.request.libraryName call.number) func.id ∧
          ∃ library ∈ state.shared.dylibs,
            library.name = call.request.libraryName call.number ∧
            library.module.map (fun module => module.functions.filter (·.body.isSome)) =
              some [{ func with
                name := call.request.libraryName call.number
                body := some (body.map (Operand.undefs call.request.module.replacedIds))
                personality := none }] := by
  obtain ⟨holds, ok, -⟩ := invariant_of_reachable reach
  refine ⟨?_, fun thread => ⟨fun there => ?_, fun there => ?_⟩, ?_, ?_⟩
  · rw [holds.built]
    split <;> omega
  · have progress := (ok thread).progress
    rw [there] at progress
    exact progress
  · have progress := (ok thread).progress
    rw [there] at progress
    exact progress
  · refine (List.nodup_map_iff_inj_on (holds.numbers.of_map _)).mpr
      fun one inside other there same => ?_
    obtain ⟨-, -, func, -, -, pointer⟩ := holds.returned one inside
    obtain ⟨-, -, third, -, -, other_pointer⟩ := holds.returned other there
    rw [pointer, other_pointer] at same
    have number := jitName_inj (Pointer.function.inj same).1
    exact List.inj_on_of_nodup_map holds.numbers inside there number
  · intro call inside
    obtain ⟨-, published, func, member, named, pointer⟩ := holds.returned call inside
    obtain ⟨target, target_mem, body, target_name, body_eq, alone, -⟩ :=
      call.request.toWork.specialized_links (call.request.fresh call.number)
    obtain rfl : target = func :=
      List.inj_on_of_nodup_map call.request.function_names target_mem member
        (target_name.trans named.symm)
    exact ⟨target, member, body, named, body_eq, pointer, _, published, rfl, congrArg some alone⟩

end Runs

/-- The pipeline with a table, as a call has transformed it. -/
def tableRequest : Request where
  toWork := tableWork
  fresh number member := by
    have dotless : ∀ name ∈ tableWork.module.names, '.' ∉ name := by decide
    exact dotless _ member (List.mem_append_left _ (List.mem_append_right _ (by decide)))

instance (state : State Bool) (label : Bool × Choice) : Decidable (InRange state label) :=
  inferInstanceAs (Decidable (state.shared.counter < 2147483647))

/-- Two threads specialize one pipeline at once; the second to draw a number is the first to
return. -/
theorem two_specializations : ∃ state : State Bool,
    state.shared.returned.map (·.pointer) =
        [.function "p.jit.2".toList 0, .function "p.jit.1".toList 0] ∧
      (state.shared.returned.map (·.pointer)).Nodup ∧ state.shared.built ≤ 1 := by
  have initial : ((machine Bool).restrict InRange).initial
      ⟨⟨none, false, false, 0, 0, [], []⟩, fun _ => .idle⟩ := ⟨rfl, fun _ => rfl⟩
  obtain ⟨state, reach, pointers⟩ := Transition.Machine.exists_reachable
    ((machine Bool).restrict InRange)
    (fun state => state.shared.returned.map (·.pointer) =
      [.function "p.jit.2".toList 0, .function "p.jit.1".toList 0])
    [(true, .call false), (false, .call false), (true, .proceed), (true, .built true),
      (false, .proceed), (false, .proceed), (true, .transformed (some tableRequest)),
      (false, .transformed (some tableRequest)), (true, .proceed), (false, .proceed),
      (false, .proceed), (false, .proceed), (false, .added true), (false, .found true),
      (true, .proceed), (true, .proceed), (true, .added true), (true, .found true)]
    initial (by decide)
  obtain ⟨built, -, distinct, -⟩ := specialized_pointers (.of_restrict reach)
  exact ⟨state, pointers, distinct, built⟩

end SpecializationRuns
end JitEngine
end TopoLlvm
