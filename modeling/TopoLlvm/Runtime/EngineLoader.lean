import TopoLlvm.Library.Machine
import Mathlib.Logic.Function.Basic

/-!
# Loading of the JIT engine

The calls of the JIT API share one lazy loader.  It is tried once, under a lock, and the functions
of the engine are called without the lock.  `calls_are_safe` is about every interleaving of the
calls of any number of threads: what is called is in the mapped engine that passed the version
check, and nobody changes the function pointers meanwhile.
-/

namespace TopoLlvm
namespace Runtime
namespace EngineLoader

abbrev Path := List Char

/-! ## The loader -/

/-- What the loader looks up in the engine. -/
inductive Symbol where
  | version
  | available
  | specialize
  | specializeBytes
  | dumpIR
  | dumpIRBytes
  | freeString
  deriving DecidableEq

/-- The lookups in their order. -/
def Symbol.order : List Symbol :=
  [.version, .available, .specialize, .specializeBytes, .dumpIR, .dumpIRBytes, .freeString]

/-- The functions of the API. -/
inductive Api where
  | available
  | specialize
  | dumpIR
  | specializeBytes
  | dumpIRBytes

/-- The function of the engine that is called. -/
def Api.symbol : Api → Symbol
  | available => .available
  | specialize => .specialize
  | dumpIR => .dumpIR
  | specializeBytes => .specializeBytes
  | dumpIRBytes => .dumpIRBytes

/-- The result is a string that is to be freed. -/
def Api.dumps : Api → Bool
  | dumpIR | dumpIRBytes => true
  | available | specialize | specializeBytes => false

/-- The contents of a shared library. -/
structure Image where
  exports : Symbol → Bool
  abiVersion : Nat

/-- A shared library that was mapped from a path. -/
structure Engine where
  path : Path
  image : Image

def abiVersion : Nat := 2

/-- The candidate paths in priority order. -/
def engineSearchCandidates (exeDir libName : Path) (envOverride : Option Path) : List Path :=
  (envOverride.filter (· ≠ [])).toList ++
    if exeDir ≠ [] then [exeDir ++ '/' :: libName, exeDir ++ ("/../lib/".toList ++ libName)] else []

/-- `g_engineMutex`, `g_engine` and `g_engineLib`.  A pointer that is not null points into an
engine, which is mapped as long as it is the one of `engineLib`. -/
structure Shared (Thread : Type) where
  owner : Option Thread
  triedLoad : Bool
  loaded : Bool
  pointers : Symbol → Option Engine
  engineLib : Option Engine

/-- Where a thread is.  From `entered` to `leaving` it holds the lock. -/
inductive Phase where
  | idle
  | waiting (api : Api)
  | entered (api : Api)
  | searching (api : Api) (candidates : List Path)
  | resolving (api : Api) (symbols : List Symbol)
  | checking (api : Api)
  | leaving (api : Api) (result : Bool)
  | returned (api : Api) (result : Bool)
  | calling (api : Api) (symbol : Symbol) (engine : Engine)

/-- What a step leaves open: the call that is made, the file at a path, and whether the engine
returns something. -/
inductive Choice where
  | begin (api : Api)
  | file (image : Option Image)
  | result (returns : Bool)
  | proceed

section Step

variable {Thread : Type} [DecidableEq Thread] (candidates : List Path)

/-- `g_engineLib` is unloaded and deleted, and the pointers into it stay. -/
def Shared.unload (shared : Shared Thread) : Shared Thread := { shared with engineLib := none }

/-- The checks after the lookups: the functions without which the engine is of no use, and the
version. -/
def Shared.check (shared : Shared Thread) : Shared Thread × Bool :=
  match shared.pointers .version, shared.pointers .available, shared.pointers .specialize with
  | some engine, some _, some _ =>
      if engine.image.abiVersion = abiVersion then ({ shared with loaded := true }, true)
      else (shared.unload, false)
  | _, _, _ => (shared.unload, false)

/-- The function pointer that a thread reads, and calls if it is there. -/
def Shared.dispatch (shared : Shared Thread) (api : Api) (symbol : Symbol) : Phase :=
  match shared.pointers symbol with
  | some engine => .calling api symbol engine
  | none => .idle

/-- One step of a thread. -/
def stepThread (thread : Thread) (shared : Shared Thread) :
    Phase → Choice → Option (Shared Thread × Phase)
  | .idle, .begin api => some (shared, .waiting api)
  | .waiting api, .proceed =>
      if shared.owner = none then some ({ shared with owner := some thread }, .entered api) else none
  | .entered api, .proceed =>
      if shared.triedLoad then some (shared, .leaving api shared.loaded)
      else some ({ shared with triedLoad := true }, .searching api candidates)
  | .searching api (_ :: rest), .file none => some (shared, .searching api rest)
  | .searching api (path :: _), .file (some image) =>
      some ({ shared with engineLib := some ⟨path, image⟩ }, .resolving api Symbol.order)
  | .searching api [], .proceed => some (shared.unload, .leaving api false)
  | .resolving api (symbol :: rest), .proceed =>
      let pointer := shared.engineLib.filter (·.image.exports symbol)
      some ({ shared with pointers := Function.update shared.pointers symbol pointer },
        .resolving api rest)
  | .resolving api [], .proceed => some (shared, .checking api)
  | .checking api, .proceed => some (shared.check.1, .leaving api shared.check.2)
  | .leaving api result, .proceed => some ({ shared with owner := none }, .returned api result)
  | .returned _ false, .proceed => some (shared, .idle)
  | .returned api true, .proceed => some (shared, shared.dispatch api api.symbol)
  | .calling api symbol _, .result returns =>
      if api.dumps && symbol = api.symbol && returns then
        some (shared, shared.dispatch api .freeString)
      else some (shared, .idle)
  | _, _ => none

structure State (Thread : Type) where
  shared : Shared Thread
  phase : Thread → Phase

def State.move (state : State Thread) (thread : Thread) (after : Shared Thread × Phase) :
    State Thread where
  shared := after.1
  phase := Function.update state.phase thread after.2

@[simp] theorem State.phase_move_self (state : State Thread) (thread : Thread)
    (after : Shared Thread × Phase) : (state.move thread after).phase thread = after.2 :=
  Function.update_self ..

theorem State.phase_move_of_ne (state : State Thread) {thread other : Thread}
    (differs : other ≠ thread) (after : Shared Thread × Phase) :
    (state.move thread after).phase other = state.phase other :=
  Function.update_of_ne differs ..

/-- Any number of threads call the API in any order. -/
def machine : Transition.Machine (State Thread) (Thread × Choice) where
  initial state := state.shared.owner = none ∧ state.shared.triedLoad = false ∧
    state.shared.loaded = false ∧ ∀ thread, state.phase thread = .idle
  step state label :=
    (stepThread candidates label.1 state.shared (state.phase label.1) label.2).map
      (state.move label.1)

end Step

/-! ## What holds in every run -/

namespace Phase

/-- The thread holds the lock. -/
def Locked : Phase → Prop
  | entered _ | searching .. | resolving .. | checking _ | leaving .. => True
  | idle | waiting _ | returned .. | calling .. => False

/-- The thread is the one that loads the engine, and may change the pointers. -/
def Loading : Phase → Prop
  | searching .. | resolving .. | checking _ => True
  | idle | waiting _ | entered _ | leaving .. | returned .. | calling .. => False

/-- What the thread knows of the outcome. -/
def decision : Phase → Option Bool
  | leaving _ result | returned _ result => some result
  | calling .. => some true
  | idle | waiting _ | entered _ | searching .. | resolving .. | checking _ => none

theorem Loading.locked {phase : Phase} (loading : phase.Loading) : phase.Locked := by
  cases phase <;> first | exact trivial | exact loading

theorem Loading.decision_eq {phase : Phase} (loading : phase.Loading) : phase.decision = none := by
  cases phase <;> first | rfl | exact loading.elim

end Phase

/-- The pointer that a lookup in a mapped engine gives. -/
def Engine.pointer (engine : Engine) (symbol : Symbol) : Option Engine :=
  (some engine).filter (·.image.exports symbol)

theorem Engine.eq_of_pointer {engine other : Engine} {symbol : Symbol}
    (found : engine.pointer symbol = some other) : engine = other ∧ engine.image.exports symbol := by
  obtain ⟨same, exported⟩ := Option.filter_eq_some_iff.mp found
  exact ⟨Option.some.inj same, Option.some.inj same ▸ exported⟩

section Invariant

variable {Thread : Type} {candidates : List Path}

/-- An engine from one of the candidate paths is mapped, and the functions outside of a list have
been looked up in it. -/
def Resolved (candidates : List Path) (shared : Shared Thread) (todo : List Symbol) : Prop :=
  ∃ engine, shared.engineLib = some engine ∧ engine.path ∈ candidates ∧
    ∀ symbol ∉ todo, shared.pointers symbol = engine.pointer symbol

/-- An engine that can be called. -/
def Ready (candidates : List Path) (shared : Shared Thread) : Prop :=
  ∃ engine, shared.engineLib = some engine ∧ engine.path ∈ candidates ∧
    (∀ symbol, shared.pointers symbol = engine.pointer symbol) ∧
    engine.image.abiVersion = abiVersion

/-- How far the loading thread is. -/
def Progress (candidates : List Path) (shared : Shared Thread) : Phase → Prop
  | .searching _ rest => rest ⊆ candidates
  | .resolving _ symbols => Resolved candidates shared symbols
  | .checking _ => Resolved candidates shared []
  | .idle | .waiting _ | .entered _ | .leaving .. | .returned .. | .calling .. => True

/-- A thread agrees with what is shared. -/
structure ThreadOk (candidates : List Path) (shared : Shared Thread) (thread : Thread)
    (phase : Phase) : Prop where
  locked : phase.Locked → shared.owner = some thread
  loading : phase.Loading → shared.triedLoad = true ∧ shared.loaded = false
  progress : Progress candidates shared phase
  decided : ∀ result, phase.decision = some result →
    shared.triedLoad = true ∧ shared.loaded = result
  calling : ∀ api symbol engine, phase = .calling api symbol engine →
    shared.pointers symbol = some engine

structure Sound (candidates : List Path) (state : State Thread) : Prop where
  thread : ∀ thread, ThreadOk candidates state.shared thread (state.phase thread)
  ready : state.shared.loaded = true → Ready candidates state.shared
  /-- Nobody loads once somebody knows the outcome. -/
  quiet : ∀ thread other, (state.phase thread).Loading → (state.phase other).decision = none
  untried : state.shared.triedLoad = false → state.shared.loaded = false

/-- Another thread is not disturbed by changes under the lock. -/
theorem ThreadOk.frame {shared after : Shared Thread} {thread : Thread} {phase : Phase}
    (ok : ThreadOk candidates shared thread phase) (outside : ¬ phase.Locked)
    (same : phase.decision ≠ none → after.triedLoad = shared.triedLoad ∧
      after.loaded = shared.loaded ∧ after.pointers = shared.pointers) :
    ThreadOk candidates after thread phase where
  locked inside := absurd inside outside
  loading inside := absurd inside.locked outside
  progress := by
    cases phase <;> first | exact trivial | exact absurd trivial outside
  decided result known := by
    obtain ⟨tried, loaded, -⟩ := same (known ▸ Option.some_ne_none result)
    rw [tried, loaded]
    exact ok.decided result known
  calling api symbol engine here := by
    subst here
    rw [(same (Option.some_ne_none true)).2.2]
    exact ok.calling api symbol engine rfl

/-- What the step of a thread does to what is shared. -/
inductive Effect (candidates : List Path) (thread : Thread) (shared : Shared Thread) :
    Phase → Shared Thread → Phase → Prop
  /-- Steps outside of the lock. -/
  | outside {phase next : Phase} : ¬ next.Locked →
      (next.decision ≠ none → phase.decision ≠ none) →
      ThreadOk candidates shared thread next → Effect candidates thread shared phase shared next
  | lock {api : Api} : shared.owner = none →
      Effect candidates thread shared (.waiting api) { shared with owner := some thread }
        (.entered api)
  | known {api : Api} : shared.triedLoad = true →
      Effect candidates thread shared (.entered api) shared (.leaving api shared.loaded)
  | tries {api : Api} : shared.triedLoad = false →
      Effect candidates thread shared (.entered api) { shared with triedLoad := true }
        (.searching api candidates)
  /-- Steps of the loading thread. -/
  | loads {phase next : Phase} {after : Shared Thread} : phase.Loading →
      after.owner = shared.owner → after.triedLoad = shared.triedLoad →
      (after.loaded = true → Ready candidates after) →
      (next.Loading ∧ after.loaded = false ∧ Progress candidates after next ∨
        ∃ api, next = .leaving api after.loaded) →
      Effect candidates thread shared phase after next
  | unlock {api : Api} {result : Bool} :
      Effect candidates thread shared (.leaving api result) { shared with owner := none }
        (.returned api result)

theorem threadOk_idle {shared : Shared Thread} {thread : Thread} :
    ThreadOk candidates shared thread .idle where
  locked inside := inside.elim
  loading inside := inside.elim
  progress := trivial
  decided _ known := by cases known
  calling _ _ _ here := by cases here

/-- The thread reads a pointer of the loaded engine. -/
theorem threadOk_dispatch (candidates : List Path) {shared : Shared Thread} {thread : Thread}
    (tried : shared.triedLoad = true) (loaded : shared.loaded = true) (api : Api) (symbol : Symbol) :
    ¬ (shared.dispatch api symbol).Locked ∧
      ThreadOk candidates shared thread (shared.dispatch api symbol) := by
  rw [Shared.dispatch]
  cases found : shared.pointers symbol with
  | none => exact ⟨not_false, threadOk_idle⟩
  | some engine =>
      refine ⟨not_false, False.elim, False.elim, trivial, ?_, ?_⟩
      · rintro result known
        exact ⟨tried, Option.some.inj known ▸ loaded⟩
      · rintro api symbol engine here
        cases here
        exact found

/-- The checks let only an engine pass that can be called. -/
theorem check_loads {shared : Shared Thread} (waits : shared.loaded = false)
    (resolved : Resolved candidates shared []) :
    (shared.check.1.loaded = true → Ready candidates shared.check.1) ∧
      shared.check.2 = shared.check.1.loaded ∧ shared.check.1.owner = shared.owner ∧
      shared.check.1.triedLoad = shared.triedLoad := by
  obtain ⟨engine, mapped, candidate, pointers⟩ := resolved
  have refused : shared.unload.loaded = true → Ready candidates shared.unload := by
    intro loaded
    cases waits.symm.trans loaded
  rw [Shared.check]
  split
  · rename_i found _ _ version _ _
    obtain rfl := (Engine.eq_of_pointer ((pointers .version List.not_mem_nil).symm.trans version)).1
    split
    · rename_i same
      exact ⟨fun _ => ⟨engine, mapped, candidate, fun symbol =>
        pointers symbol List.not_mem_nil, same⟩, rfl, rfl, rfl⟩
    · exact ⟨refused, waits.symm, rfl, rfl⟩
  · exact ⟨refused, waits.symm, rfl, rfl⟩

theorem effect_of_step {thread : Thread} {shared after : Shared Thread} {phase next : Phase}
    {choice : Choice} (ok : ThreadOk candidates shared thread phase)
    (step : stepThread candidates thread shared phase choice = some (after, next)) :
    Effect candidates thread shared phase after next := by
  have load {before : Phase} (ok : ThreadOk candidates shared thread before)
      (loading : before.Loading) {after : Shared Thread} {next : Phase}
      (owner : after.owner = shared.owner) (tried : after.triedLoad = shared.triedLoad)
      (same : after.loaded = shared.loaded) (inside : next.Loading)
      (progress : Progress candidates after next) :
      Effect candidates thread shared before after next := by
    have waits := same.trans (ok.loading loading).2
    refine .loads loading owner tried (fun loaded => ?_) (.inl ⟨inside, waits, progress⟩)
    cases waits.symm.trans loaded
  cases phase with
  | idle =>
      cases choice <;> cases step
      refine .outside not_false id ⟨False.elim, False.elim, trivial, ?_, ?_⟩
      · rintro result known
        cases known
      · rintro api symbol engine here
        cases here
  | waiting api =>
      cases choice <;> try cases step
      rw [stepThread] at step
      split at step
      · rename_i free
        cases step
        exact .lock free
      · cases step
  | entered api =>
      cases choice <;> try cases step
      rw [stepThread] at step
      split at step
      · rename_i tried
        cases step
        exact .known tried
      · rename_i untried
        cases step
        exact .tries (Bool.eq_false_iff.mpr untried)
  | searching api rest =>
      cases rest with
      | nil =>
          cases choice <;> cases step
          have waits := (ok.loading trivial).2
          refine .loads trivial rfl rfl (fun loaded => ?_) (.inr ⟨api, congrArg _ waits.symm⟩)
          cases waits.symm.trans loaded
      | cons path rest =>
          cases choice with
          | begin | result | proceed => cases step
          | file image =>
              cases image with
              | none =>
                  cases step
                  exact load ok trivial rfl rfl rfl trivial fun _ member =>
                    ok.progress (List.mem_cons_of_mem path member)
              | some image =>
                  cases step
                  refine load ok trivial rfl rfl rfl trivial
                    ⟨⟨path, image⟩, rfl, ok.progress List.mem_cons_self, fun symbol missing => ?_⟩
                  cases symbol <;> simp [Symbol.order] at missing
  | resolving api symbols =>
      obtain ⟨engine, mapped, candidate, pointers⟩ := ok.progress
      cases symbols with
      | nil =>
          cases choice <;> cases step
          exact load ok trivial rfl rfl rfl trivial ok.progress
      | cons symbol rest =>
          cases choice <;> cases step
          refine load ok trivial rfl rfl rfl trivial
            ⟨engine, mapped, candidate, fun other outside => ?_⟩
          by_cases here : other = symbol
          · subst here
            exact (Function.update_self ..).trans (congrArg _ mapped)
          · exact (Function.update_of_ne here ..).trans (pointers other (by simp [here, outside]))
  | checking api =>
      cases choice <;> cases step
      obtain ⟨ready, result, owner, tried⟩ := check_loads (ok.loading trivial).2 ok.progress
      exact .loads trivial owner tried ready (.inr ⟨api, congrArg _ result⟩)
  | leaving api result =>
      cases choice <;> cases step
      exact .unlock
  | returned api result =>
      cases result with
      | false =>
          cases choice <;> cases step
          exact .outside not_false (absurd rfl) threadOk_idle
      | true =>
          cases choice <;> cases step
          obtain ⟨tried, loaded⟩ := ok.decided true rfl
          obtain ⟨unlocked, fine⟩ := threadOk_dispatch candidates tried loaded api api.symbol
          exact .outside unlocked (fun _ => Option.some_ne_none true) fine
  | calling api symbol engine =>
      cases choice <;> try cases step
      rw [stepThread] at step
      obtain ⟨tried, loaded⟩ := ok.decided true rfl
      split at step
      · cases step
        obtain ⟨unlocked, fine⟩ := threadOk_dispatch candidates tried loaded api .freeString
        exact .outside unlocked (fun _ => Option.some_ne_none true) fine
      · cases step
        exact .outside not_false (absurd rfl) threadOk_idle

variable [DecidableEq Thread]

/-- A step of one thread keeps the invariant where it suits that thread and the others. -/
theorem Sound.update {state : State Thread} {thread : Thread} {after : Shared Thread} {next : Phase}
    (sound : Sound candidates state) (own : ThreadOk candidates after thread next)
    (others : ∀ other ≠ thread, ThreadOk candidates after other (state.phase other))
    (ready : after.loaded = true → Ready candidates after)
    (loads : next.Loading → ∀ other ≠ thread, (state.phase other).decision = none)
    (knows : next.decision ≠ none → ∀ other ≠ thread, ¬ (state.phase other).Loading)
    (untried : after.triedLoad = false → after.loaded = false) :
    Sound candidates (state.move thread (after, next)) where
  thread other := by
    by_cases here : other = thread
    · subst here
      rwa [State.phase_move_self]
    · rw [state.phase_move_of_ne here]
      exact others other here
  ready := ready
  quiet one other loading := by
    by_cases here : one = thread <;> by_cases there : other = thread
    · subst here there
      rw [State.phase_move_self] at loading ⊢
      exact loading.decision_eq
    · subst here
      rw [State.phase_move_self] at loading
      rw [state.phase_move_of_ne there]
      exact loads loading other there
    · subst there
      rw [state.phase_move_of_ne here] at loading
      rw [State.phase_move_self]
      by_contra known
      exact knows known one here loading
    · rw [state.phase_move_of_ne here] at loading
      rw [state.phase_move_of_ne there]
      exact sound.quiet one other loading
  untried := untried

theorem Sound.step {state after : State Thread} {label : Thread × Choice}
    (sound : Sound candidates state) (step : (machine candidates).step state label = some after) :
    Sound candidates after := by
  obtain ⟨thread, choice⟩ := label
  obtain ⟨⟨shared, next⟩, stepped, rfl⟩ := Option.map_eq_some_iff.mp step
  have own := sound.thread thread
  have effect := effect_of_step own stepped
  have alone (inside : (state.phase thread).Locked) (other : Thread) (differs : other ≠ thread) :
      ¬ (state.phase other).Locked := fun there =>
    differs (Option.some.inj (((sound.thread other).locked there).symm.trans (own.locked inside)))
  have knows (known : (state.phase thread).decision ≠ none) (other : Thread) :
      ¬ (state.phase other).Loading := fun loading => known (sound.quiet other thread loading)
  have quiet (loading : (state.phase thread).Loading) (other : Thread) :
      (state.phase other).decision = none := sound.quiet thread other loading
  generalize state.phase thread = phase at own effect alone knows quiet
  cases effect with
  | outside unlocked known fine =>
      exact sound.update fine (fun other _ => sound.thread other) sound.ready
        (fun loading => absurd loading.locked unlocked)
        (fun told other _ => knows (known told) other)
        sound.untried
  | lock free =>
      have nobody (other : Thread) : ¬ (state.phase other).Locked := fun inside => by
        cases free.symm.trans ((sound.thread other).locked inside)
      refine sound.update ⟨fun _ => rfl, False.elim, trivial, ?_, ?_⟩
        (fun other _ => (sound.thread other).frame (nobody other) fun _ => ⟨rfl, rfl, rfl⟩)
        sound.ready False.elim (absurd rfl) sound.untried
      · rintro result known
        cases known
      · rintro api symbol engine here
        cases here
  | known tried =>
      refine sound.update ⟨fun _ => own.locked trivial, False.elim, trivial, ?_, ?_⟩
        (fun other _ => sound.thread other) sound.ready False.elim
        (fun _ other differs loading => alone trivial other differs loading.locked) sound.untried
      · rintro result same
        exact ⟨tried, Option.some.inj same⟩
      · rintro api symbol engine here
        cases here
  | tries untried =>
      have waits := sound.untried untried
      have nobody (other : Thread) : (state.phase other).decision = none := by
        cases known : (state.phase other).decision with
        | none => rfl
        | some result => cases untried.symm.trans ((sound.thread other).decided result known).1
      refine sound.update ⟨fun _ => own.locked trivial, fun _ => ⟨rfl, waits⟩,
          List.Subset.refl candidates, ?_, ?_⟩
        (fun other differs => (sound.thread other).frame (alone trivial other differs)
          (absurd (nobody other))) (fun loaded => ?_) (fun _ other _ => nobody other) (absurd rfl)
        nofun
      · rintro result known
        cases known
      · rintro api symbol engine here
        cases here
      · cases waits.symm.trans loaded
  | loads loading owner tried ready outcome =>
      have tried := tried.trans (own.loading loading).1
      have locked := owner.trans (own.locked loading.locked)
      have others (other : Thread) (differs : other ≠ thread) :
          ThreadOk candidates shared other (state.phase other) :=
        (sound.thread other).frame (alone loading.locked other differs)
          (absurd (quiet loading other))
      have untried (waits : shared.triedLoad = false) : shared.loaded = false := by
        cases tried.symm.trans waits
      obtain ⟨inside, waits, progress⟩ | ⟨api, rfl⟩ := outcome
      · refine sound.update ⟨fun _ => locked, fun _ => ⟨tried, waits⟩, progress, ?_, ?_⟩ others
          ready (fun _ other _ => quiet loading other) (absurd inside.decision_eq) untried
        · rintro result known
          cases inside.decision_eq.symm.trans known
        · rintro api symbol engine rfl
          exact inside.elim
      · refine sound.update ⟨fun _ => locked, False.elim, trivial, ?_, ?_⟩ others ready False.elim
          (fun _ other differs there => alone loading.locked other differs there.locked) untried
        · rintro result known
          exact ⟨tried, Option.some.inj known⟩
        · rintro api symbol engine here
          cases here
  | @unlock api result =>
      refine sound.update ⟨False.elim, False.elim, trivial, own.decided, ?_⟩
        (fun other differs => (sound.thread other).frame (alone trivial other differs)
          fun _ => ⟨rfl, rfl, rfl⟩)
        sound.ready False.elim (fun _ other _ => knows (Option.some_ne_none result) other)
        sound.untried
      rintro api symbol engine here
      cases here

theorem sound_reachable {state : State Thread}
    (reach : (machine candidates).Reachable Transition.Machine.anyStep state) :
    Sound candidates state := by
  refine reach.invariant ?_ ?_
  · rintro state ⟨free, untried, waits, idle⟩
    refine ⟨fun thread => ?_, fun loaded => ?_, fun thread other loading => ?_, fun _ => waits⟩
    · rw [idle]
      exact threadOk_idle
    · cases waits.symm.trans loaded
    · rw [idle] at loading
      exact loading.elim
  · rintro before label after _ sound _ step
    exact sound.step step

/-- Some thread knows the outcome of loading, and no thread is loading. -/
def Settled (state : State Thread) : Prop :=
  state.shared.triedLoad = true ∧ ∀ thread, ¬ (state.phase thread).Loading

theorem Settled.step {state after : State Thread} {label : Thread × Choice}
    (settled : Settled state) (sound : Sound candidates state)
    (step : (machine candidates).step state label = some after) :
    Settled after ∧ after.shared = { state.shared with owner := after.shared.owner } := by
  obtain ⟨thread, choice⟩ := label
  obtain ⟨⟨shared, next⟩, stepped, rfl⟩ := Option.map_eq_some_iff.mp step
  have effect := effect_of_step (sound.thread thread) stepped
  have idle := settled.2 thread
  have moved (quiet : ¬ next.Loading) (tried : shared.triedLoad = true) :
      Settled (state.move thread (shared, next)) := by
    refine ⟨tried, fun other => ?_⟩
    by_cases here : other = thread
    · subst here
      rwa [State.phase_move_self]
    · rw [state.phase_move_of_ne here]
      exact settled.2 other
  generalize state.phase thread = phase at effect idle
  cases effect with
  | outside unlocked => exact ⟨moved (fun loading => unlocked loading.locked) settled.1, rfl⟩
  | lock | known | unlock => exact ⟨moved not_false settled.1, rfl⟩
  | tries untried => cases untried.symm.trans settled.1
  | loads loading => exact absurd loading idle

theorem Settled.exec {state later : State Thread} {labels : List (Thread × Choice)}
    (settled : Settled state) (sound : Sound candidates state)
    (run : (machine candidates).exec state labels = some later) :
    later.shared = { state.shared with owner := later.shared.owner } := by
  induction labels generalizing state with
  | nil =>
      cases run
      rfl
  | cons label labels ih =>
      obtain ⟨next, step, rest⟩ := Option.bind_eq_some_iff.mp run
      obtain ⟨kept, same⟩ := settled.step sound step
      rw [ih kept (sound.step step) rest, same]

theorem mem_engineSearchCandidates {exeDir libName path : Path} {envOverride : Option Path}
    (candidate : path ∈ engineSearchCandidates exeDir libName envOverride) :
    some path = envOverride ∨ ∃ rest, exeDir ≠ [] ∧ path = exeDir ++ '/' :: rest := by
  obtain chosen | anchored := List.mem_append.mp candidate
  · exact .inl (Option.filter_eq_some_iff.mp (Option.mem_toList.mp chosen)).1.symm
  · split at anchored
    · rename_i known
      rw [List.mem_cons, List.mem_singleton] at anchored
      rcases anchored with rfl | rfl
      · exact .inr ⟨libName, known, rfl⟩
      · exact .inr ⟨"../lib/".toList ++ libName, known, rfl⟩
    · cases anchored

/-- In every run, what is called is in the mapped engine, which came from an anchored path or the
override and has the right version, and no thread changes the pointers.  Once a thread knows the
outcome of loading, it is final: only the lock changes. -/
theorem calls_are_safe (exeDir libName : Path) (envOverride : Option Path) {state : State Thread}
    (reach : (machine (engineSearchCandidates exeDir libName envOverride)).Reachable
      Transition.Machine.anyStep state) :
    (∀ thread api symbol engine, state.phase thread = .calling api symbol engine →
      state.shared.engineLib = some engine ∧ engine.image.exports symbol = true ∧
      engine.image.abiVersion = abiVersion ∧
      (some engine.path = envOverride ∨ ∃ rest, exeDir ≠ [] ∧ engine.path = exeDir ++ '/' :: rest) ∧
      ∀ other, ¬ (state.phase other).Loading) ∧
    ∀ thread result, (state.phase thread).decision = some result →
      result = state.shared.loaded ∧ ∀ labels later,
        (machine (engineSearchCandidates exeDir libName envOverride)).exec state labels = some later →
        later.shared = { state.shared with owner := later.shared.owner } := by
  have sound := sound_reachable reach
  have quiet {thread : Thread} {result : Bool}
      (known : (state.phase thread).decision = some result) (other : Thread) :
      ¬ (state.phase other).Loading := fun loading => by
    cases (sound.quiet other thread loading).symm.trans known
  constructor
  · rintro thread api symbol engine here
    have ok := sound.thread thread
    have known : (state.phase thread).decision = some true := by rw [here]; rfl
    obtain ⟨mapped, is, candidate, pointers, version⟩ := sound.ready (ok.decided true known).2
    obtain ⟨rfl, exported⟩ := Engine.eq_of_pointer
      ((pointers symbol).symm.trans (ok.calling api symbol engine here))
    exact ⟨is, exported, version, mem_engineSearchCandidates candidate, quiet known⟩
  · rintro thread result known
    obtain ⟨tried, loaded⟩ := (sound.thread thread).decided result known
    exact ⟨loaded.symm, fun labels later run => Settled.exec ⟨tried, quiet known⟩ sound run⟩

/-- An engine of the right version that can do nothing but what it has to. -/
def smallEngine : Image where
  exports symbol := symbol = .version || symbol = .available || symbol = .specialize
  abiVersion := abiVersion

def freshLoader : State Unit where
  shared := {
    owner := none
    triedLoad := false
    loaded := false
    pointers := fun _ => none
    engineLib := none }
  phase := fun _ => .idle

/-- The engine is asked for from where it is installed. -/
def firstCall : List (Unit × Choice) :=
  [.begin .available, .proceed, .proceed, .file none, .file (some smallEngine)].map (Prod.mk ()) ++
    List.replicate 11 ((), .proceed)

def installed : List Path := engineSearchCandidates "/opt/bin".toList "engine.so".toList none

/-- The first call reaches the installed engine. -/
theorem firstCall_safe : ∃ state engine,
    (machine installed).exec freshLoader firstCall = some state ∧
    state.phase () = .calling .available .available engine ∧
    state.shared.engineLib = some engine ∧ engine.image.abiVersion = abiVersion ∧
    ∃ rest, engine.path = "/opt/bin".toList ++ '/' :: rest := by
  obtain ⟨state, run, engine, here⟩ : ∃ state,
      (machine installed).exec freshLoader firstCall = some state ∧
      ∃ engine, state.phase () = .calling .available .available engine := ⟨_, rfl, _, rfl⟩
  have fresh : (machine installed).initial freshLoader := ⟨rfl, rfl, rfl, fun _ => rfl⟩
  have reach := Transition.Machine.reachable_exec firstCall (.start fresh) run
  obtain ⟨mapped, -, version, path, -⟩ :=
    (calls_are_safe "/opt/bin".toList "engine.so".toList none reach).1 () _ _ _ here
  obtain chosen | ⟨rest, -, path⟩ := path
  · cases chosen
  · exact ⟨state, engine, run, here, mapped, version, rest, path⟩

end Invariant

end EngineLoader
end Runtime
end TopoLlvm
