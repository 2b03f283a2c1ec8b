import Mathlib.Data.List.Induction

/-!
# Programs with probes

A program gives the blocks of each function as lists of instructions; it runs on a stack of frames,
with calls, returns and exceptions.  Probes are inserted before instructions and do nothing to the
program.  `Program.run_weave` and `Program.run_of_weave` say that the program with probes has the
runs of the program, and in which order the probes fire in them.  `walk` is the loop of a pass that
inserts probes and keeps an account of them.
-/

namespace Instrumentation

variable {Fn Inst Probe State : Type*}

/-- What an instruction asks of the frame that executes it. -/
inductive Action (Fn : Type*) where
  | next
  | jump (block : Nat)
  | call (callee : Fn)
  | invoke (callee : Fn) (normal unwind : Nat)
  | ret
  | throw
  | leave

/-- The code of the functions, and which actions an instruction may take.  The entry of a function
is its block 0. -/
structure Program (Fn Inst State : Type*) where
  code : Fn → Nat → List Inst
  act : State → Fn → Inst → Action Fn → State → Prop

/-- An activation: the rest of its block, and the block where exceptions of its callee land. -/
structure Frame (Fn Inst : Type*) where
  function : Fn
  rest : List Inst
  unwind : Option Nat := none

/-- The innermost frame is the first. -/
structure Config (Fn Inst State : Type*) where
  frames : List (Frame Fn Inst)
  state : State

/-- The instruction that comes next, with its function. -/
def Config.upcoming (config : Config Fn Inst State) : Option (Fn × Inst) :=
  config.frames.head?.bind fun frame => frame.rest.head?.map (frame.function, ·)

namespace Program

variable (program : Program Fn Inst State)

def enter (function : Fn) : Frame Fn Inst := { function, rest := program.code function 0 }

/-- The configuration in which a function is entered from outside. -/
def call (function : Fn) (state : State) : Config Fn Inst State := ⟨[program.enter function], state⟩

/-- The frames where an exception lands. -/
def land : List (Frame Fn Inst) → List (Frame Fn Inst)
  | [] => []
  | frame :: below =>
      match frame.unwind with
      | some block => { frame with rest := program.code frame.function block } :: below
      | none => land below

/-- The frames after an action of an activation, with the rest of its block. -/
def perform (function : Fn) (rest : List Inst) (unwind : Option Nat)
    (below : List (Frame Fn Inst)) : Action Fn → List (Frame Fn Inst)
  | .next => { function, rest, unwind } :: below
  | .jump block => { function, rest := program.code function block, unwind } :: below
  | .call callee => program.enter callee :: { function, rest } :: below
  | .invoke callee normal unwind =>
      program.enter callee ::
        { function, rest := program.code function normal, unwind := some unwind } :: below
  | .ret => below
  | .throw => program.land below
  | .leave => []

/-- The innermost frame executes its next instruction. -/
inductive Step : Config Fn Inst State → Fn × Inst → Config Fn Inst State → Prop
  | execute {function : Fn} {inst : Inst} {rest : List Inst} {unwind : Option Nat}
      {below : List (Frame Fn Inst)} {before after : State} {action : Action Fn} :
      program.act before function inst action after →
      Step ⟨⟨function, inst :: rest, unwind⟩ :: below, before⟩ (function, inst)
        ⟨program.perform function rest unwind below action, after⟩

/-- A run and the instructions it executes. -/
inductive Run (start : Config Fn Inst State) : List (Fn × Inst) → Config Fn Inst State → Prop
  | start : Run start [] start
  | step {trace : List (Fn × Inst)} {entry : Fn × Inst} {before after : Config Fn Inst State} :
      Run start trace before → program.Step before entry after → Run start (trace ++ [entry]) after

variable {program} {start middle finish : Config Fn Inst State}

theorem Run.trans {front back : List (Fn × Inst)} (first : program.Run start front middle)
    (second : program.Run middle back finish) : program.Run start (front ++ back) finish := by
  induction second with
  | start => rwa [List.append_nil]
  | step _ next ih =>
      rw [← List.append_assoc]
      exact ih.step next

theorem Step.run {entry : Fn × Inst} (step : program.Step start entry finish) :
    program.Run start [entry] finish := Run.start.step step

end Program

/-! ## Inserting probes -/

section Insert

variable (probes : Fn → Inst → List Probe) (function : Fn)

/-- The instructions with their probes before them. -/
def insert (insts : List Inst) : List (Probe ⊕ Inst) :=
  insts.flatMap fun inst => (probes function inst).map .inl ++ [.inr inst]

@[simp] theorem insert_nil : insert probes function [] = [] := rfl

@[simp] theorem insert_cons (inst : Inst) (rest : List Inst) :
    insert probes function (inst :: rest) =
      (probes function inst).map .inl ++ .inr inst :: insert probes function rest := by
  simp [insert]

def Frame.insert (frame : Frame Fn Inst) : Frame Fn (Probe ⊕ Inst) where
  function := frame.function
  rest := Instrumentation.insert probes frame.function frame.rest
  unwind := frame.unwind

def Config.insert (config : Config Fn Inst State) : Config Fn (Probe ⊕ Inst) State where
  frames := config.frames.map (·.insert probes)
  state := config.state

/-- The program with probes. -/
def Program.weave (program : Program Fn Inst State) : Program Fn (Probe ⊕ Inst) State where
  code function block := Instrumentation.insert probes function (program.code function block)
  act before function
    | .inl _, action, after => action = .next ∧ after = before
    | .inr inst, action, after => program.act before function inst action after

/-- What is executed for some instructions of the program. -/
def expand (trace : List (Fn × Inst)) : List (Fn × (Probe ⊕ Inst)) :=
  trace.flatMap fun entry =>
    (probes entry.1 entry.2).map (fun probe => (entry.1, .inl probe)) ++ [(entry.1, .inr entry.2)]

theorem expand_append (front back : List (Fn × Inst)) :
    expand probes (front ++ back) = expand probes front ++ expand probes back :=
  List.flatMap_append

theorem expand_singleton (inst : Inst) :
    expand probes [(function, inst)] =
      (probes function inst).map (fun probe => (function, .inl probe)) ++ [(function, .inr inst)] :=
  List.flatMap_singleton ..

end Insert

/-- The instructions of the program that a trace executes. -/
def executed (trace : List (Fn × (Probe ⊕ Inst))) : List (Fn × Inst) :=
  trace.filterMap fun entry => entry.2.getRight?.map (entry.1, ·)

/-- The probes that fire in a trace. -/
def fired (trace : List (Fn × (Probe ⊕ Inst))) : List Probe :=
  trace.filterMap fun entry => entry.2.getLeft?

section Traces

variable (probes : Fn → Inst → List Probe)

theorem executed_append (front back : List (Fn × (Probe ⊕ Inst))) :
    executed (front ++ back) = executed front ++ executed back := List.filterMap_append

theorem fired_append (front back : List (Fn × (Probe ⊕ Inst))) :
    fired (front ++ back) = fired front ++ fired back := List.filterMap_append

theorem executed_map_inl {Item : Type*} (function : Item → Fn) (probe : Item → Probe)
    (items : List Item) :
    executed (items.map fun item => (function item, (.inl (probe item) : Probe ⊕ Inst))) = [] := by
  induction items with
  | nil => rfl
  | cons item items ih => exact ih

theorem fired_map_inl {Item : Type*} (function : Item → Fn) (probe : Item → Probe)
    (items : List Item) :
    fired (items.map fun item => (function item, (.inl (probe item) : Probe ⊕ Inst))) =
      items.map probe := by
  induction items with
  | nil => rfl
  | cons item items ih => exact congrArg (probe item :: ·) ih

theorem executed_expand (trace : List (Fn × Inst)) : executed (expand probes trace) = trace := by
  induction trace with
  | nil => rfl
  | cons entry trace ih =>
      obtain ⟨function, inst⟩ := entry
      rw [← List.singleton_append, expand_append, executed_append, ih, expand_singleton,
        executed_append, executed_map_inl]
      rfl

theorem fired_expand (trace : List (Fn × Inst)) :
    fired (expand probes trace) = trace.flatMap fun entry => probes entry.1 entry.2 := by
  induction trace with
  | nil => rfl
  | cons entry trace ih =>
      obtain ⟨function, inst⟩ := entry
      rw [← List.singleton_append, expand_append, fired_append, ih, expand_singleton, fired_append,
        fired_map_inl, List.map_id', List.flatMap_append, List.flatMap_singleton]
      exact congrArg (· ++ _) (List.append_nil _)

end Traces

/-! ## Runs with probes -/

namespace Program

variable {program : Program Fn Inst State} {probes : Fn → Inst → List Probe}

theorem land_insert (frames : List (Frame Fn Inst)) :
    (program.weave probes).land (frames.map (·.insert probes)) =
      (program.land frames).map (·.insert probes) := by
  induction frames with
  | nil => rfl
  | cons frame below ih =>
      obtain ⟨function, rest, unwind⟩ := frame
      cases unwind with
      | none => exact ih
      | some block => rfl

theorem perform_insert (function : Fn) (rest : List Inst) (unwind : Option Nat)
    (below : List (Frame Fn Inst)) (action : Action Fn) :
    (program.weave probes).perform function (insert probes function rest) unwind
        (below.map (·.insert probes)) action =
      (program.perform function rest unwind below action).map (·.insert probes) := by
  cases action with
  | throw => exact land_insert below
  | _ => rfl

theorem step_probe (function : Fn) (probe : Probe) (rest : List (Probe ⊕ Inst))
    (unwind : Option Nat) (below : List (Frame Fn (Probe ⊕ Inst))) (state : State) :
    (program.weave probes).Step ⟨⟨function, .inl probe :: rest, unwind⟩ :: below, state⟩
      (function, .inl probe) ⟨⟨function, rest, unwind⟩ :: below, state⟩ := by
  have act : (program.weave probes).act state function (.inl probe) .next state := ⟨rfl, rfl⟩
  exact Step.execute act

/-- The probes before an instruction fire one after another. -/
theorem run_probes (function : Fn) (pending : List Probe) (rest : List (Probe ⊕ Inst))
    (unwind : Option Nat) (below : List (Frame Fn (Probe ⊕ Inst))) (state : State) :
    (program.weave probes).Run ⟨⟨function, pending.map .inl ++ rest, unwind⟩ :: below, state⟩
      (pending.map fun probe => (function, .inl probe))
      ⟨⟨function, rest, unwind⟩ :: below, state⟩ := by
  induction pending with
  | nil => exact .start
  | cons probe pending ih => exact (step_probe function probe _ unwind below state).run.trans ih

theorem Step.weave {before after : Config Fn Inst State} {entry : Fn × Inst}
    (step : program.Step before entry after) :
    (program.weave probes).Run (before.insert probes) (expand probes [entry])
      (after.insert probes) := by
  obtain @⟨function, inst, rest, unwind, below, before, after, action, act⟩ := step
  have executes : (program.weave probes).Step
      ⟨⟨function, .inr inst :: insert probes function rest, unwind⟩ ::
        below.map (·.insert probes), before⟩ (function, .inr inst)
      ((Config.mk (program.perform function rest unwind below action) after).insert probes) := by
    rw [Config.insert, ← perform_insert]
    exact .execute act
  rw [expand_singleton]
  refine Run.trans ?_ executes.run
  rw [Config.insert, List.map_cons, Frame.insert, insert_cons]
  exact run_probes ..

theorem call_insert (function : Fn) (state : State) :
    (program.call function state).insert probes =
      (program.weave probes).call function state := rfl

/-- The program with probes follows each run of the program, with all probes on the way. -/
theorem run_weave {start finish : Config Fn Inst State} {trace : List (Fn × Inst)}
    (run : program.Run start trace finish) :
    (program.weave probes).Run (start.insert probes) (expand probes trace)
      (finish.insert probes) := by
  induction run with
  | start => exact .start
  | step _ next ih =>
      rw [expand_append]
      exact ih.trans next.weave

/-- A configuration of the program and one with probes, where some probes of the next instruction
have fired already. -/
inductive Within (probes : Fn → Inst → List Probe) :
    Config Fn Inst State → List (Fn × Probe) → Config Fn (Probe ⊕ Inst) State → Prop
  | between (config : Config Fn Inst State) : Within probes config [] (config.insert probes)
  | before {function : Fn} {inst : Inst} (fires todo : List Probe) (rest : List Inst)
      (unwind : Option Nat) (below : List (Frame Fn Inst)) (state : State) :
      probes function inst = fires ++ todo →
      Within probes ⟨⟨function, inst :: rest, unwind⟩ :: below, state⟩
        (fires.map fun probe => (function, probe))
        ⟨⟨function, todo.map .inl ++ .inr inst :: insert probes function rest, unwind⟩ ::
          below.map (·.insert probes), state⟩

namespace Within

variable {config : Config Fn Inst State} {pending : List (Fn × Probe)}
  {other : Config Fn (Probe ⊕ Inst) State}

theorem state_eq (within : Within probes config pending other) : other.state = config.state := by
  cases within <;> rfl

theorem frames_eq_nil_iff (within : Within probes config pending other) :
    other.frames = [] ↔ config.frames = [] := by
  cases within with
  | between => exact List.map_eq_nil_iff
  | before => exact ⟨nofun, nofun⟩

/-- Only probes of the next instruction have fired in advance. -/
theorem prefix_upcoming (within : Within probes config pending other) :
    pending = [] ∨ ∃ function inst, config.upcoming = some (function, inst) ∧
      pending.map Prod.snd <+: probes function inst := by
  cases within with
  | between => exact .inl rfl
  | @before function inst fires todo rest unwind below state split =>
      refine .inr ⟨function, inst, rfl, todo, ?_⟩
      rw [split, List.map_map]
      exact congrArg (· ++ todo) (List.map_id fires)

end Within

/-- What a step with probes does where an instruction comes next. -/
def Follows (program : Program Fn Inst State) (probes : Fn → Inst → List Probe)
    (config : Config Fn Inst State) (pending : List (Fn × Probe)) (entry : Fn × (Probe ⊕ Inst))
    (after : Config Fn (Probe ⊕ Inst) State) : Prop :=
  (∃ function probe, entry = (function, .inl probe) ∧
    Within probes config (pending ++ [(function, probe)]) after) ∨
  ∃ function inst next, entry = (function, .inr inst) ∧
    pending = (probes function inst).map (fun probe => (function, probe)) ∧
    program.Step config (function, inst) next ∧ after = next.insert probes

theorem follows_before {function : Fn} {inst : Inst} {fires todo : List Probe} {rest : List Inst}
    {unwind : Option Nat} {below : List (Frame Fn Inst)} {state : State}
    {entry : Fn × (Probe ⊕ Inst)} {after : Config Fn (Probe ⊕ Inst) State}
    (split : probes function inst = fires ++ todo)
    (step : (program.weave probes).Step
      ⟨⟨function, todo.map .inl ++ .inr inst :: insert probes function rest, unwind⟩ ::
        below.map (·.insert probes), state⟩ entry after) :
    program.Follows probes ⟨⟨function, inst :: rest, unwind⟩ :: below, state⟩
      (fires.map fun probe => (function, probe)) entry after := by
  cases todo with
  | nil =>
      obtain ⟨act⟩ := step
      refine .inr ⟨function, inst, _, rfl, ?_, .execute act, ?_⟩
      · rw [split, List.append_nil]
      · rw [Config.insert, ← perform_insert]
  | cons probe todo =>
      obtain ⟨act⟩ := step
      obtain ⟨rfl, rfl⟩ := act
      have reached : probes function inst = (fires ++ [probe]) ++ todo := by
        rw [split, List.append_assoc, List.singleton_append]
      refine .inl ⟨function, probe, rfl, ?_⟩
      rw [show [(function, probe)] = [probe].map fun probe => (function, probe) from rfl,
        ← List.map_append]
      exact .before (fires ++ [probe]) todo rest unwind below _ reached

/-- A step with probes fires a probe, or is a step of the program once all probes have fired. -/
theorem Within.step {config : Config Fn Inst State} {pending : List (Fn × Probe)}
    {before after : Config Fn (Probe ⊕ Inst) State} {entry : Fn × (Probe ⊕ Inst)}
    (within : Within probes config pending before)
    (step : (program.weave probes).Step before entry after) :
    program.Follows probes config pending entry after := by
  cases within with
  | before fires todo rest unwind below state split => exact follows_before split step
  | between =>
      obtain ⟨frames, state⟩ := config
      cases frames with
      | nil => cases step
      | cons frame below =>
          obtain ⟨function, rest, unwind⟩ := frame
          cases rest with
          | nil => cases step
          | cons inst rest =>
              rw [Config.insert, List.map_cons, Frame.insert, insert_cons] at step
              exact follows_before (List.nil_append _).symm step

/-- Each run with probes is a run of the program, with all probes on the way and at most some of
those before the next instruction. -/
theorem run_of_weave {start : Config Fn Inst State} {trace : List (Fn × (Probe ⊕ Inst))}
    {finish : Config Fn (Probe ⊕ Inst) State}
    (run : (program.weave probes).Run (start.insert probes) trace finish) :
    ∃ source middle pending, program.Run start source middle ∧
      trace = expand probes source ++ pending.map (fun entry => (entry.1, .inl entry.2)) ∧
      Within probes middle pending finish := by
  induction run with
  | start => exact ⟨[], start, [], .start, rfl, .between start⟩
  | step _ next ih =>
      obtain ⟨source, middle, pending, run, rfl, within⟩ := ih
      obtain ⟨function, probe, rfl, more⟩ | ⟨function, inst, after, rfl, rfl, step, rfl⟩ :=
        within.step next
      · refine ⟨source, middle, _, run, ?_, more⟩
        rw [List.append_assoc, List.map_append]
        rfl
      · refine ⟨source ++ [(function, inst)], after, [], run.step step, ?_, .between after⟩
        rw [expand_append, expand_singleton, List.append_assoc, List.map_nil, List.append_nil,
          List.map_map]
        rfl

end Program

/-! ## The loop of a pass -/

section Walk

variable {Acc Item Result : Type*}

/-- Visit the items in order with an account. -/
def mapAccum (visit : Acc → Item → Acc × Result) : Acc → List Item → Acc × List Result
  | acc, [] => (acc, [])
  | acc, item :: items =>
      let here := visit acc item
      let later := mapAccum visit here.1 items
      (later.1, here.2 :: later.2)

/-- An account that all visits keep, and the results where the visits give them under it. -/
theorem mapAccum_of (inv : Acc → Prop) {visit : Acc → Item → Acc × Result} {result : Item → Result}
    (visits : ∀ acc item, inv acc → inv (visit acc item).1 ∧ (visit acc item).2 = result item)
    {acc : Acc} (base : inv acc) (items : List Item) :
    inv (mapAccum visit acc items).1 ∧ (mapAccum visit acc items).2 = items.map result := by
  induction items generalizing acc with
  | nil => exact ⟨base, rfl⟩
  | cons item items ih =>
      obtain ⟨here, made⟩ := visits acc item base
      obtain ⟨kept, later⟩ := ih here
      refine ⟨kept, ?_⟩
      rw [List.map_cons, ← made, ← later]
      rfl

/-- A list in the account that each visit extends. -/
theorem mapAccum_log {Entry : Type*} {visit : Acc → Item → Acc × Result} {log : Acc → List Entry}
    {made : Item → List Entry} (longer : ∀ acc item, log (visit acc item).1 = log acc ++ made item)
    (acc : Acc) (items : List Item) :
    log (mapAccum visit acc items).1 = log acc ++ items.flatMap made := by
  induction items generalizing acc with
  | nil => exact (List.append_nil _).symm
  | cons item items ih =>
      rw [List.flatMap_cons, ← List.append_assoc, ← longer]
      exact ih _

/-- The visit of an instruction, which puts the probes that it asks for before the instruction. -/
def probed (visit : Acc → Inst → Acc × List Probe) (acc : Acc) (inst : Inst) :
    Acc × List (Probe ⊕ Inst) :=
  ((visit acc inst).1, (visit acc inst).2.map .inl ++ [.inr inst])

/-- Visit the instructions of a block and insert probes. -/
def walk (visit : Acc → Inst → Acc × List Probe) (acc : Acc) (insts : List Inst) :
    Acc × List (Probe ⊕ Inst) :=
  let walked := mapAccum (probed visit) acc insts
  (walked.1, walked.2.flatten)

theorem walk_of (inv : Acc → Prop) {visit : Acc → Inst → Acc × List Probe}
    {probes : Fn → Inst → List Probe} {function : Fn}
    (visits : ∀ acc inst, inv acc →
      inv (visit acc inst).1 ∧ (visit acc inst).2 = probes function inst)
    {acc : Acc} (base : inv acc) (insts : List Inst) :
    inv (walk visit acc insts).1 ∧ (walk visit acc insts).2 = insert probes function insts := by
  have placed : ∀ acc inst, inv acc → inv (probed visit acc inst).1 ∧
      (probed visit acc inst).2 = (probes function inst).map .inl ++ [.inr inst] := by
    intro acc inst kept
    refine ⟨(visits acc inst kept).1, ?_⟩
    rw [probed, (visits acc inst kept).2]
  obtain ⟨kept, walked⟩ := mapAccum_of inv placed base insts
  exact ⟨kept, congrArg List.flatten walked⟩

theorem walk_log {Entry : Type*} {visit : Acc → Inst → Acc × List Probe} {log : Acc → List Entry}
    {made : Inst → List Entry} (longer : ∀ acc inst, log (visit acc inst).1 = log acc ++ made inst)
    (acc : Acc) (insts : List Inst) :
    log (walk visit acc insts).1 = log acc ++ insts.flatMap made := by
  have longer : ∀ acc inst, log (probed visit acc inst).1 = log acc ++ made inst := longer
  exact mapAccum_log longer acc insts

theorem insert_of_none {probes : Fn → Inst → List Probe} {function : Fn}
    (none : ∀ inst, probes function inst = []) (insts : List Inst) :
    insert probes function insts = insts.map .inr := by
  induction insts with
  | nil => rfl
  | cons inst insts ih =>
      rw [insert_cons, none, ih]
      rfl

end Walk
end Instrumentation
