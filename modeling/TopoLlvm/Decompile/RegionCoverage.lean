import TopoLlvm.Decompile.RegionTermination
import Mathlib.Logic.Relation

/-!
# Every instruction once, in its region

A run passes from region to region: into an arm of a branch until the arms meet, into a loop until it
is left, out of a loop by one exit until the exits meet.  The statements have a place for an arm and
for a loop, but not for what is nested in a loop nor for the ways out of a loop.  The lifting covers
a function exactly when no instruction needs such a place and none is reached through two regions.
-/

namespace TopoLlvm
namespace Decompile
namespace RegionLifting

/-- A step of a run from a region into the next. -/
inductive Step where
  | place (place : Place)
  /-- Into a branch or a loop inside a loop. -/
  | inner (header : BlockId)
  /-- Out of a loop by one of its exits. -/
  | leaving (header exitBB : BlockId)

section Regions

variable (func : Function) (analyses : Analyses)

def Reachable (block : BlockId) : Prop :=
  Relation.ReflTransGen (fun block next => next ∈ (func.block block).terminator.successors) 0 block

/-- Control goes on inside a loop, around a block. -/
def Around (loop : Loop) (avoided block next : BlockId) : Prop :=
  block ≠ avoided ∧ next ∈ (func.block block).terminator.successors ∧ next ∈ loop.blocks

/-- A block is passed once in each turn of a loop: it is in no inner loop, and no turn goes around
it. -/
def EachTurn (loop : Loop) (block : BlockId) : Prop :=
  (∃ innermost, analyses.getLoopFor block = some innermost ∧ innermost.header = loop.header) ∧
    ∀ last, Relation.ReflTransGen (Around func loop block) loop.header last → last ≠ block →
      loop.header ∉ (func.block last).terminator.successors

/-- A run from a block up to an exit passes another block inside some regions. -/
inductive Occurs : BlockId → Option BlockId → BlockId → List Step → Prop where
  | here {entry : BlockId} {exit : Option BlockId} (distinct : some entry ≠ exit)
      (plain : analyses.loopOf entry = none) : Occurs entry exit entry []
  | jump {entry target block : BlockId} {exit : Option BlockId} {run : List Step}
      (distinct : some entry ≠ exit) (plain : analyses.loopOf entry = none)
      (jumps : (func.block entry).terminator = .br target) (rest : Occurs target exit block run) :
      Occurs entry exit block run
  | arm {entry dest block : BlockId} {exit : Option BlockId} {index : Nat} {run : List Step}
      (distinct : some entry ≠ exit) (plain : analyses.loopOf entry = none)
      (chosen : (func.block entry).terminator.arms[index]? = some dest)
      (inside : Occurs dest (analyses.join (func.block entry).terminator.arms) block run) :
      Occurs entry exit block (.place (.arm entry index) :: run)
  | joined {entry meet block : BlockId} {exit : Option BlockId} {run : List Step}
      (distinct : some entry ≠ exit) (plain : analyses.loopOf entry = none)
      (join : analyses.join (func.block entry).terminator.arms = some meet)
      (rest : Occurs meet exit block run) : Occurs entry exit block run
  | turn {entry block : BlockId} {exit : Option BlockId} {loop : Loop}
      (distinct : some entry ≠ exit) (header : analyses.loopOf entry = some loop)
      (inside : block ∈ loop.blocks) (each : EachTurn func analyses loop block) :
      Occurs entry exit block [.place (.loop entry)]
  | inner {entry block : BlockId} {exit : Option BlockId} {loop : Loop}
      (distinct : some entry ≠ exit) (header : analyses.loopOf entry = some loop)
      (inside : block ∈ loop.blocks) (skipped : ¬EachTurn func analyses loop block) :
      Occurs entry exit block [.place (.loop entry), .inner entry]
  | leaving {entry exitBB block : BlockId} {exit : Option BlockId} {loop : Loop} {run : List Step}
      (distinct : some entry ≠ exit) (header : analyses.loopOf entry = some loop)
      (leaves : exitBB ∈ loop.exitBlocks)
      (rest : Occurs exitBB (analyses.join loop.exitBlocks.dedup) block run) :
      Occurs entry exit block (.leaving entry exitBB :: run)
  | left {entry meet block : BlockId} {exit : Option BlockId} {loop : Loop} {run : List Step}
      (distinct : some entry ≠ exit) (header : analyses.loopOf entry = some loop)
      (join : analyses.join loop.exitBlocks.dedup = some meet)
      (rest : Occurs meet exit block run) : Occurs entry exit block run

/-- What the head of a loop statement holds of the instructions. -/
def loopHead (loop : Loop) : List Nat :=
  match analyses.detectCountedLoop loop with
  | some counted => [counted.init, counted.condition, counted.increment]
  | none =>
      match (func.block loop.header).terminator with
      | .condBr condition .. => [condition]
      | _ => []

/-- An instruction of the header of a loop that is in no other loop, held by the head. -/
def Absorbed (block : BlockId) (id : Nat) : Prop :=
  ∃ loop, analyses.loopOf block = some loop ∧ id ∈ loopHead func analyses loop ∧
    ∀ header other, analyses.loopOf header = some other → block ∈ other.blocks → header = block

/-- Every instruction of a block that can be reached is lifted once, in the region of every run that
passes it, unless the head of a loop has absorbed it. -/
def Covers (stmts : List Stmt) : Prop :=
  ∀ block, Reachable func block → ∀ id ∈ (func.block block).insts, ¬Absorbed func analyses block id →
    ∃ path, (placements stmts).filter (·.1 = id) = [(id, path)] ∧
      ∀ run, Occurs func analyses 0 none block run ↔ run = path.map .place

/-- Every block that has an instruction to lift is no header of a loop, and is passed in one region
only, which is an arm or a loop in the regions around it. -/
def OneRegion : Prop :=
  ∀ block, Reachable func block →
    (∃ id ∈ (func.block block).insts, ¬Absorbed func analyses block id) →
      analyses.loopOf block = none ∧
        ∃ path : List Place, ∀ run, Occurs func analyses 0 none block run → run = path.map .place

/-- A function of conditionals, loops and switches, its instructions numbered, with what holds of
every loop. -/
structure ControlFlow : Prop where
  structured : ∀ block, (func.block block).terminator.isStructured = true
  owner : ∀ block other id, id ∈ (func.block block).ids → id ∈ (func.block other).ids → block = other
  nodup : ∀ block, (func.block block).ids.Nodup
  header_lt : ∀ header loop, analyses.loopOf header = some loop → header < func.blocks.length
  header_mem : ∀ header loop, analyses.loopOf header = some loop → header ∈ loop.blocks
  exit : ∀ header loop, analyses.loopOf header = some loop → ∀ block ∈ loop.blocks,
    ∀ next ∈ (func.block block).terminator.successors, next ∈ loop.blocks ∨ next ∈ loop.exitBlocks

end Regions

section Coverage

variable {func : Function} {analyses : Analyses} {task : Task} {exit : Option BlockId}
  {state after : State} {log : Log}

/-! ## What a walk visits -/

/-- Some blocks are passed that were not visited, each once; only headers of loops are visited
without being passed. -/
structure Passes (analyses : Analyses) (before after : State) (blocks : List BlockId) : Prop where
  mono : ∀ block, before.visited block = true → after.visited block = true
  nodup : blocks.Nodup
  fresh : ∀ block ∈ blocks, before.visited block = false ∧ after.visited block = true
  all : ∀ block, after.visited block = true →
    before.visited block = true ∨ block ∈ blocks ∨ (analyses.loopOf block).isSome = true

namespace Passes

variable {before between after : State} {blocks more : List BlockId} {entry : BlockId}

theorem refl (state : State) : Passes analyses state state [] :=
  ⟨fun _ => id, List.nodup_nil, by simp, fun _ => .inl⟩

theorem visit (fresh : before.visited entry = false) :
    Passes analyses before (before.visit entry) [entry] where
  mono := (before.extends_visit entry).visited
  nodup := List.nodup_singleton entry
  fresh := by simp [fresh, State.visit]
  all block visited := by
    rw [State.visited_visit] at visited
    exact visited.imp_right fun same => .inl (List.mem_singleton.mpr same)

theorem append (first : Passes analyses before between blocks)
    (second : Passes analyses between after more) :
    Passes analyses before after (blocks ++ more) where
  mono block visited := second.mono block (first.mono block visited)
  nodup := by
    refine List.nodup_append.mpr ⟨first.nodup, second.nodup, fun block listed other later same => ?_⟩
    -- A block of the first part is visited when the second part begins.
    have visited := (first.fresh block listed).2
    rw [same, (second.fresh other later).1] at visited
    cases visited
  fresh := by
    rw [List.forall_mem_append]
    refine ⟨fun block listed => ?_, fun block listed => ?_⟩
    · exact ⟨(first.fresh block listed).1, second.mono block (first.fresh block listed).2⟩
    · have unvisited := (second.fresh block listed).1
      rw [Bool.eq_false_iff] at unvisited ⊢
      exact ⟨unvisited ∘ first.mono block, (second.fresh block listed).2⟩
  all block visited := by
    rw [List.mem_append]
    rcases second.all block visited with earlier | listed | header
    · rcases first.all block earlier with before | listed | header
      · exact .inl before
      · exact .inr (.inl (.inl listed))
      · exact .inr (.inr header)
    · exact .inr (.inl (.inr listed))
    · exact .inr (.inr header)

/-- A loop is passed without its header. -/
theorem body {loop : Loop} (header : analyses.loopOf entry = some loop) (nodup : blocks.Nodup)
    (mem_blocks : ∀ block, block ∈ blocks ↔
      block ∈ loop.blocks ∧ block ≠ entry ∧ before.visited block = false)
    (visited : ∀ block, after.visited block = true ↔
      block = entry ∨ before.visited block = true ∨ block ∈ loop.blocks) :
    Passes analyses before after blocks where
  mono block earlier := (visited block).mpr (.inr (.inl earlier))
  nodup := nodup
  fresh block listed := by
    obtain ⟨inside, -, unvisited⟩ := (mem_blocks block).mp listed
    exact ⟨unvisited, (visited block).mpr (.inr (.inr inside))⟩
  all block later := by
    by_cases same : block = entry
    · exact .inr (.inr (by simp [same, header]))
    · cases earlier : before.visited block with
      | true => exact .inl rfl
      | false =>
          have inside : block ∈ loop.blocks := by
            simpa [same, earlier] using (visited block).mp later
          exact .inr (.inl ((mem_blocks block).mpr ⟨inside, same, earlier⟩))

end Passes

theorem Log.map_fst_within (place : Place) (log : Log) :
    (log.within place).map Prod.fst = log.map Prod.fst := by
  simp [within, Function.comp_def]

theorem Walk.passes (walked : Walk func analyses task exit state after log) :
    Passes analyses state after (log.map Prod.fst) := by
  induction walked with
  | stop | done | noArms | noExits => exact .refl _
  | leaf distinct fresh plain final => exact .visit fresh
  | jump distinct fresh plain jumps rest ih => exact (Passes.visit fresh).append ih
  | branch distinct fresh plain branches arms joined passesArms passesJoined =>
      rw [List.map_cons, List.map_append]
      exact (Passes.visit fresh).append (passesArms.append passesJoined)
  | loop distinct fresh header nodup mem_body visited rest ih =>
      rw [List.map_append, List.map_map]
      exact (Passes.body header (by simpa [Function.comp_def] using nodup)
        (by simpa [Function.comp_def] using mem_body) visited).append ih
  | arm first others passesFirst passesOthers =>
      rw [List.map_append, Log.map_fst_within]
      exact passesFirst.append passesOthers
  | exit first others passesFirst passesOthers =>
      rw [List.map_append]
      exact passesFirst.append passesOthers

/-! ## Everything that can be reached is visited -/

def Task.entries : Task → List BlockId
  | .region entry => entry.toList
  | .arms _ _ dests => dests
  | .exits exitBlocks => exitBlocks

/-- Control does not get past an exit and what is visited. -/
def Stays (exit : Option BlockId) (after : State) (next : BlockId) : Prop :=
  some next = exit ∨ after.visited next = true

theorem Stays.mono {between : State} {next : BlockId} (stays : Stays exit between next)
    (mono : ∀ block, between.visited block = true → after.visited block = true) :
    Stays exit after next :=
  stays.imp_right (mono next)

/-- Control does not get out of the blocks that are passed. -/
def Closed (func : Function) (exit : Option BlockId) (before after : State) : Prop :=
  ∀ block, before.visited block = false → after.visited block = true →
    ∀ next ∈ (func.block block).terminator.successors, Stays exit after next

theorem Closed.append {before between : State} (first : Closed func exit before between)
    (second : Closed func exit between after)
    (mono : ∀ block, between.visited block = true → after.visited block = true) :
    Closed func exit before after := by
  intro block fresh visited next follows
  cases earlier : between.visited block with
  | true => exact (first block fresh earlier next follows).mono mono
  | false => exact second block earlier visited next follows

/-- A block is passed, and what follows it is. -/
theorem Closed.visit {entry : BlockId}
    (entered : ∀ next ∈ (func.block entry).terminator.successors, Stays exit after next)
    (rest : Closed func exit (state.visit entry) after) : Closed func exit state after := by
  intro block fresh visited next follows
  by_cases same : block = entry
  · exact entered next (same ▸ follows)
  · exact rest block (by simpa [State.visit, same] using fresh) visited next follows

theorem Walk.closed (flow : ControlFlow func analyses)
    (walked : Walk func analyses task exit state after log) :
    (∀ next ∈ task.entries, Stays exit after next) ∧ Closed func exit state after := by
  have none (exit : Option BlockId) (state : State) : Closed func exit state state :=
    fun block fresh visited => by simp [fresh] at visited
  induction walked with
  | stop | noArms | noExits => exact ⟨by simp [Task.entries], none _ _⟩
  | done done => exact ⟨by simpa [Task.entries, Stays] using done, none _ _⟩
  | leaf distinct fresh plain final =>
      refine ⟨by simp [Task.entries, Stays, State.visit], .visit ?_ (none _ _)⟩
      simp [final]
  | jump distinct fresh plain jumps rest ih =>
      refine ⟨by simp [Task.entries, Stays, rest.passes.mono, State.visit], .visit ?_ ih.2⟩
      rw [jumps]
      exact ih.1
  | @branch entry exit state between after log rest distinct fresh plain branches arms joined
      closedArms closedJoined =>
      have mono := joined.passes.mono
      -- Where the arms meet is passed, or is the exit.
      have past (next : BlockId)
          (stays : Stays (analyses.join (func.block entry).terminator.arms) between next) :
          Stays exit after next := by
        rcases stays with meets | visited
        · exact closedJoined.1 next (Option.mem_toList.mpr meets.symm)
        · exact .inr (mono next visited)
      have armsClosed : Closed func exit (state.visit entry) after := by
        intro block unvisited visited next follows
        cases earlier : between.visited block with
        | true => exact past next (closedArms.2 block unvisited earlier next follows)
        | false => exact closedJoined.2 block earlier visited next follows
      refine ⟨by simp [Task.entries, Stays, mono, arms.passes.mono, State.visit],
        .visit (fun next follows => ?_) armsClosed⟩
      exact past next (closedArms.1 next (branches follows))
  | @loop entry exit state inside after loop body log distinct fresh header nodup mem_body visited
      rest ih =>
      have mono := rest.passes.mono
      have headed : inside.visited entry = true := (visited entry).mpr (.inl rfl)
      refine ⟨by simp [Task.entries, Stays, mono, headed],
        fun block unvisited later next follows => ?_⟩
      cases marked : inside.visited block with
      | false => exact ih.2 block marked later next follows
      | true =>
          have member : block ∈ loop.blocks := by
            rcases (visited block).mp marked with rfl | earlier | member
            · exact flow.header_mem block loop header
            · rw [earlier] at unvisited
              cases unvisited
            · exact member
          rcases flow.exit entry loop header block member next follows with stays | leaves
          · exact .inr (mono next ((visited next).mpr (.inr (.inr stays))))
          · exact ih.1 next leaves
  | arm first others closedFirst closedOthers =>
      have mono := others.passes.mono
      refine ⟨?_, closedFirst.2.append closedOthers.2 mono⟩
      rw [Task.entries, List.forall_mem_cons]
      exact ⟨(closedFirst.1 _ (by simp [Task.entries])).mono mono, closedOthers.1⟩
  | exit first others closedFirst closedOthers =>
      have mono := others.passes.mono
      refine ⟨?_, closedFirst.2.append closedOthers.2 mono⟩
      rw [Task.entries, List.forall_mem_cons]
      exact ⟨(closedFirst.1 _ (by simp [Task.entries])).mono mono, closedOthers.1⟩

/-- Lifting from the entry up to no exit visits every block that can be reached. -/
theorem Walk.visits (flow : ControlFlow func analyses)
    (walked : Walk func analyses (.region (some 0)) none unlifted after log) {block : BlockId}
    (reachable : Reachable func block) : after.visited block = true := by
  obtain ⟨entered, closed⟩ := walked.closed flow
  induction reachable with
  | refl => simpa [Stays] using entered 0 (by simp [Task.entries])
  | @tail last next reached follows visited =>
      simpa [Stays] using closed last rfl visited next follows

/-! ## Every place is where a run passes -/

/-- A run can be cut at any block: it passes it, or meets that block first. -/
theorem Occurs.cut {entry block : BlockId} {run : List Step}
    (occurs : Occurs func analyses entry exit block run) (meet : Option BlockId) :
    Occurs func analyses entry meet block run ∨
      ∃ met, meet = some met ∧ Occurs func analyses met exit block run := by
  induction occurs with
  | @here entry exit distinct plain =>
      by_cases met : some entry = meet
      · exact .inr ⟨entry, met.symm, .here distinct plain⟩
      · exact .inl (.here met plain)
  | @jump entry target block exit run distinct plain jumps rest ih =>
      by_cases met : some entry = meet
      · exact .inr ⟨entry, met.symm, .jump distinct plain jumps rest⟩
      · exact ih.imp_left (.jump met plain jumps)
  | @arm entry dest block exit index run distinct plain chosen inside ih =>
      by_cases met : some entry = meet
      · exact .inr ⟨entry, met.symm, .arm distinct plain chosen inside⟩
      · exact .inl (.arm met plain chosen inside)
  | @joined entry target block exit run distinct plain join rest ih =>
      by_cases met : some entry = meet
      · exact .inr ⟨entry, met.symm, .joined distinct plain join rest⟩
      · exact ih.imp_left (.joined met plain join)
  | @turn entry block exit loop distinct header inside each =>
      by_cases met : some entry = meet
      · exact .inr ⟨entry, met.symm, .turn distinct header inside each⟩
      · exact .inl (.turn met header inside each)
  | @inner entry block exit loop distinct header inside notEach =>
      by_cases met : some entry = meet
      · exact .inr ⟨entry, met.symm, .inner distinct header inside notEach⟩
      · exact .inl (.inner met header inside notEach)
  | @leaving entry exitBB block exit loop run distinct header leaves rest ih =>
      by_cases met : some entry = meet
      · exact .inr ⟨entry, met.symm, .leaving distinct header leaves rest⟩
      · exact .inl (.leaving met header leaves rest)
  | @left entry target block exit loop run distinct header join rest ih =>
      by_cases met : some entry = meet
      · exact .inr ⟨entry, met.symm, .left distinct header join rest⟩
      · exact ih.imp_left (.left met header join)

/-- A block is put where a run passes it, or some run passes it in a region without a place. -/
def Fits (func : Function) (analyses : Analyses) (entry : BlockId) (exit : Option BlockId)
    (block : BlockId) (path : List Place) : Prop :=
  (analyses.loopOf block = none ∧ Occurs func analyses entry exit block (path.map .place)) ∨
    ∃ run, Occurs func analyses entry exit block run ∧ ∀ path : List Place, run ≠ path.map .place

/-- What fits is taken along from one region into another where runs are. -/
theorem Fits.lift {entry other block : BlockId} {exit next : Option BlockId} {path : List Place}
    (more : List Place) (fits : Fits func analyses entry exit block path)
    (runs : ∀ run, Occurs func analyses entry exit block run →
      Occurs func analyses other next block (more.map .place ++ run)) :
    Fits func analyses other next block (more ++ path) := by
  rcases fits with ⟨plain, occurs⟩ | ⟨run, occurs, noPlace⟩
  · exact .inl ⟨plain, by simpa using runs _ occurs⟩
  · refine .inr ⟨_, runs run occurs, fun path same => ?_⟩
    obtain ⟨first, last, -, -, same⟩ := List.append_eq_map_iff.mp same
    exact noPlace last same.symm

/-- Where a task puts a block. -/
def Task.Puts (func : Function) (analyses : Analyses) (exit : Option BlockId) (block : BlockId)
    (path : List Place) : Task → Prop
  | .region none => False
  | .region (some entry) => Fits func analyses entry exit block path
  | .arms branch index dests => ∃ offset dest rest, dests[offset]? = some dest ∧
      path = .arm branch (index + offset) :: rest ∧ Fits func analyses dest exit block rest
  | .exits exitBlocks => ∃ exitBB ∈ exitBlocks, Fits func analyses exitBB exit block path

/-- Out of a loop, a block is passed before the exits meet, in a region without a place, or after. -/
theorem Fits.of_exit {entry exitBB block : BlockId} {loop : Loop} {path : List Place}
    (distinct : some entry ≠ exit) (header : analyses.loopOf entry = some loop)
    (leaves : exitBB ∈ loop.exitBlocks) (fits : Fits func analyses exitBB exit block path) :
    Fits func analyses entry exit block path := by
  have apart (run : List Step)
      (occurs : Occurs func analyses exitBB (analyses.join loop.exitBlocks.dedup) block run) :
      Fits func analyses entry exit block path := by
    refine .inr ⟨_, .leaving distinct header leaves occurs, fun path same => ?_⟩
    cases path with
    | nil => cases same
    | cons place path => cases same
  rcases fits with ⟨plain, occurs⟩ | ⟨run, occurs, noPlace⟩
  · rcases occurs.cut (analyses.join loop.exitBlocks.dedup) with before | ⟨met, join, behind⟩
    · exact apart _ before
    · exact .inl ⟨plain, .left distinct header join behind⟩
  · rcases occurs.cut (analyses.join loop.exitBlocks.dedup) with before | ⟨met, join, behind⟩
    · exact apart run before
    · exact .inr ⟨run, .left distinct header join behind, noPlace⟩

/-- In the body of a loop, a block is passed in each turn or in a region without a place. -/
theorem Fits.of_body {entry block : BlockId} {loop : Loop} (distinct : some entry ≠ exit)
    (header : analyses.loopOf entry = some loop) (inside : block ∈ loop.blocks)
    (other : block ≠ entry) : Fits func analyses entry exit block [.loop entry] := by
  by_cases each : EachTurn func analyses loop block
  · refine .inl ⟨?_, .turn distinct header inside each⟩
    obtain ⟨innermost, found, same⟩ := each.1
    have headed : loop.header = entry := by simpa using (Option.filter_eq_some_iff.mp header).2
    simp [Analyses.loopOf, found, same, headed, other.symm]
  · refine .inr ⟨_, .inner distinct header inside each, fun path same => ?_⟩
    obtain ⟨-, last, -, -, same⟩ := List.append_eq_map_iff.mp
      (show [Step.place (.loop entry)] ++ [.inner entry] = path.map .place from same)
    cases last with
    | nil => cases same
    | cons place last => cases same

theorem Walk.puts (walked : Walk func analyses task exit state after log) :
    ∀ placed ∈ log, task.Puts func analyses exit placed.1 placed.2 := by
  induction walked with
  | stop | done | noArms | noExits => simp
  | leaf distinct fresh plain final =>
      rw [List.forall_mem_singleton]
      exact .inl ⟨plain, .here distinct plain⟩
  | jump distinct fresh plain jumps rest ih =>
      rw [List.forall_mem_cons]
      refine ⟨.inl ⟨plain, .here distinct plain⟩, fun placed listed => ?_⟩
      exact Fits.lift [] (ih placed listed) fun run => .jump distinct plain jumps
  | @branch entry exit state between after log rest distinct fresh plain branches arms joined
      putsArms putsJoined =>
      rw [List.forall_mem_cons, List.forall_mem_append]
      refine ⟨.inl ⟨plain, .here distinct plain⟩, fun placed listed => ?_, fun placed listed => ?_⟩
      · obtain ⟨offset, dest, path, chosen, same, fits⟩ := putsArms placed listed
        rw [Nat.zero_add] at same
        rw [same]
        exact Fits.lift [.arm entry offset] fits fun run => .arm distinct plain chosen
      · have puts := putsJoined placed listed
        cases join : analyses.join (func.block entry).terminator.arms with
        | none =>
            rw [join] at puts
            cases puts
        | some meet =>
            rw [join] at puts
            exact Fits.lift [] puts fun run => .joined distinct plain join
  | @loop entry exit state inside after loop body log distinct fresh header nodup mem_body visited
      rest ih =>
      rw [List.forall_mem_append, List.forall_mem_map]
      refine ⟨fun block listed => ?_, fun placed listed => ?_⟩
      · obtain ⟨member, other, -⟩ := (mem_body block).mp listed
        exact .of_body distinct header member other
      · obtain ⟨exitBB, leaves, fits⟩ := ih placed listed
        exact fits.of_exit distinct header leaves
  | @arm branch dest index dests exit state between after log others first rest putsFirst putsRest =>
      rw [List.forall_mem_append, Log.within, List.forall_mem_map]
      refine ⟨fun placed listed => ⟨0, dest, placed.2, rfl, rfl, putsFirst placed listed⟩,
        fun placed listed => ?_⟩
      obtain ⟨offset, dest, path, chosen, same, fits⟩ := putsRest placed listed
      exact ⟨offset + 1, dest, path, chosen, by rw [same, Nat.add_right_comm, Nat.add_assoc], fits⟩
  | exit first others putsFirst putsOthers =>
      rw [List.forall_mem_append]
      refine ⟨fun placed listed => ⟨_, List.mem_cons_self, putsFirst placed listed⟩,
        fun placed listed => ?_⟩
      obtain ⟨exitBB, member, fits⟩ := putsOthers placed listed
      exact ⟨exitBB, List.mem_cons_of_mem _ member, fits⟩

/-! ## Where an instruction is found -/

theorem Function.mem_placed {id : Nat} {path : List Place} :
    (id, path) ∈ func.placed log ↔ ∃ block, (block, path) ∈ log ∧ id ∈ (func.block block).ids := by
  simp only [placed, List.mem_flatMap, List.mem_map, Prod.exists, Prod.mk.injEq]
  constructor
  · rintro ⟨block, other, listed, found, member, rfl, rfl⟩
    exact ⟨block, listed, member⟩
  · rintro ⟨block, listed, member⟩
    exact ⟨block, path, listed, id, member, rfl, rfl⟩

/-- The instructions of blocks that are passed once are found once. -/
theorem Function.filter_placed (flow : ControlFlow func analyses)
    (nodup : (log.map Prod.fst).Nodup) {block : BlockId} {path : List Place}
    (listed : (block, path) ∈ log) {id : Nat} (member : id ∈ (func.block block).ids) :
    (func.placed log).filter (·.1 = id) = [(id, path)] := by
  induction log with
  | nil => cases listed
  | cons first log ih =>
      obtain ⟨other, place⟩ := first
      rw [List.map_cons, List.nodup_cons] at nodup
      rw [placed_cons, List.filter_append]
      rcases List.mem_cons.mp listed with same | later
      · cases same
        have here : ((func.block block).ids.map (·, path)).filter (·.1 = id) = [(id, path)] := by
          rw [List.filter_map]
          have once := List.count_eq_one_of_mem (flow.nodup block) member
          simp [Function.comp_def, List.filter_eq, once]
        have nowhere : (func.placed log).filter (·.1 = id) = [] := by
          rw [List.filter_eq_nil_iff]
          rintro ⟨found, path⟩ inside same
          obtain ⟨other, listed, owned⟩ := mem_placed.mp inside
          obtain rfl : found = id := by simpa using same
          obtain rfl := flow.owner block other found member owned
          exact nodup.1 (List.mem_map.mpr ⟨_, listed, rfl⟩)
        rw [here, nowhere, List.append_nil]
      · have nowhere : ((func.block other).ids.map (·, place)).filter (·.1 = id) = [] := by
          rw [List.filter_eq_nil_iff]
          rintro ⟨found, path⟩ inside same
          obtain ⟨owned, owns, rfl, rfl⟩ : ∃ owned ∈ (func.block other).ids, owned = found ∧
              place = path := by simpa using inside
          obtain rfl : owned = id := by simpa using same
          obtain rfl := flow.owner other block owned owns member
          exact nodup.1 (List.mem_map.mpr ⟨_, later, rfl⟩)
        rw [nowhere, List.nil_append, ih nodup.2 later]

/-- With fuel for all blocks the lifting ends, and every instruction is lifted once and in its
region exactly when every block with instructions has one region only and is no header of a loop. -/
theorem liftBlockRegion_covers_iff (flow : ControlFlow func analyses)
    (folds : Nat → Nat → Nat → Bool) {fuel : Nat} (enough : func.blocks.length < fuel) :
    ∃ stmts after,
      liftBlockRegion func analyses (compactCompoundAssigns folds) fuel (some 0) none [] unlifted =
        some (stmts, after) ∧
      (Covers func analyses stmts ↔ OneRegion func analyses) := by
  have few : (func.unvisited unlifted).card < fuel :=
    lt_of_le_of_lt (Finset.card_filter_le _ _) (by simpa using enough)
  obtain ⟨stmts, after, ran⟩ :=
    liftBlockRegion_total (compactCompoundAssigns folds) flow.structured flow.header_lt fuel
      (some 0) none [] few
  refine ⟨stmts, after, ran, ?_⟩
  obtain ⟨log, walked, placed⟩ := liftBlockRegion_walks flow.structured fuel ran
  rw [placements_nil, List.nil_append] at placed
  have passes := walked.passes
  constructor
  · rintro covers block reachable ⟨id, member, kept⟩
    obtain ⟨path, found, runs⟩ := covers block reachable id member kept
    refine ⟨?_, path, fun run => (runs run).mp⟩
    -- The instruction is found where its block was put, so the block is no header.
    have inside : (id, path) ∈ func.placed log := by
      rw [← placed]
      exact List.mem_of_mem_filter (found ▸ List.mem_singleton_self _)
    obtain ⟨owner, listed, owned⟩ := Function.mem_placed.mp inside
    obtain rfl := flow.owner block owner id (List.mem_append_left _ member) owned
    rcases walked.puts _ listed with ⟨plain, -⟩ | ⟨run, occurs, noPlace⟩
    · exact plain
    · exact absurd ((runs run).mp occurs) (noPlace path)
  · intro oneRegion block reachable id member kept
    obtain ⟨plain, path, only⟩ := oneRegion block reachable ⟨id, member, kept⟩
    -- The block is visited, and as it is no header it was put somewhere.
    have visited := walked.visits flow reachable
    obtain ⟨⟨owner, found⟩, listed, rfl⟩ : ∃ placed ∈ log, placed.1 = block := by
      rcases passes.all block visited with earlier | listed | header
      · cases earlier
      · simpa using listed
      · simp [plain] at header
    have occurs : Occurs func analyses 0 none owner (found.map .place) := by
      rcases walked.puts _ listed with ⟨-, occurs⟩ | ⟨run, occurs, noPlace⟩
      · exact occurs
      · exact absurd (only run occurs) (noPlace path)
    refine ⟨found, ?_, fun run => ⟨fun other => ?_, fun same => same ▸ occurs⟩⟩
    · rw [placed]
      exact Function.filter_placed flow passes.nodup listed (List.mem_append_left _ member)
    · rw [only run other, only _ occurs]

/-- How a run goes on at a block that is no header of a loop. -/
theorem Occurs.of_plain {entry block : BlockId} {run : List Step}
    (plain : analyses.loopOf entry = none)
    (occurs : Occurs func analyses entry exit block run) :
    some entry ≠ exit ∧
      (block = entry ∧ run = [] ∨
        (∃ target, (func.block entry).terminator = .br target ∧
          Occurs func analyses target exit block run) ∨
        (∃ index dest rest, (func.block entry).terminator.arms[index]? = some dest ∧
          run = .place (.arm entry index) :: rest ∧
          Occurs func analyses dest (analyses.join (func.block entry).terminator.arms) block rest) ∨
        ∃ meet, analyses.join (func.block entry).terminator.arms = some meet ∧
          Occurs func analyses meet exit block run) := by
  cases occurs with
  | here distinct => exact ⟨distinct, .inl ⟨rfl, rfl⟩⟩
  | jump distinct _ jumps rest => exact ⟨distinct, .inr (.inl ⟨_, jumps, rest⟩)⟩
  | arm distinct _ chosen inside =>
      exact ⟨distinct, .inr (.inr (.inl ⟨_, _, _, chosen, rfl, inside⟩))⟩
  | joined distinct _ join rest => exact ⟨distinct, .inr (.inr (.inr ⟨_, join, rest⟩))⟩
  | turn _ header | inner _ header | leaving _ header | left _ header =>
      rw [plain] at header
      cases header

end Coverage

/-! ## A choice, and a loop -/

/-- Choose between two blocks, and return behind them. -/
def choice : Function where
  blocks :=
    [{ insts := [1], landingPad := none, funcletPad := false, terminator := .condBr 1 1 2 },
      { insts := [2], landingPad := none, funcletPad := false, terminator := .br 3 },
      { insts := [3], landingPad := none, funcletPad := false, terminator := .br 3 },
      { insts := [4], landingPad := none, funcletPad := false, terminator := .ret 5 }]
  personality := none

/-- Every block is followed by the return. -/
def choiceAnalyses : Analyses where
  getLoopFor _ := none
  findNearestCommonDominator first second := some (if first = second then first else 3)
  detectCountedLoop _ := none

/-- Without loops, only the blocks that exist are to be looked at. -/
theorem ControlFlow.of_loopless (func : Function) {analyses : Analyses}
    (plain : ∀ block, analyses.loopOf block = none)
    (structured : ∀ block < func.blocks.length, (func.block block).terminator.isStructured = true)
    (owner : ∀ block < func.blocks.length, ∀ other < func.blocks.length,
      ∀ id ∈ (func.block block).ids, id ∈ (func.block other).ids → block = other)
    (nodup : ∀ block < func.blocks.length, (func.block block).ids.Nodup) :
    ControlFlow func analyses where
  structured block := by
    rcases lt_or_ge block func.blocks.length with inside | absent
    · exact structured block inside
    · rw [(func.block_of_le absent).2]
      rfl
  owner block other id first second := by
    rcases lt_or_ge block func.blocks.length with inside | absent
    · rcases lt_or_ge other func.blocks.length with within | absent
      · exact owner block inside other within id first second
      · simp [func.block_of_le absent] at second
    · simp [func.block_of_le absent] at first
  nodup block := by
    rcases lt_or_ge block func.blocks.length with inside | absent
    · exact nodup block inside
    · simp [func.block_of_le absent]
  header_lt _ _ header := by simp [plain] at header
  header_mem _ _ header := by simp [plain] at header
  exit _ _ header := by simp [plain] at header

theorem choice_flow : ControlFlow choice choiceAnalyses :=
  .of_loopless choice (fun _ => rfl) (by decide) (by decide) (by decide)

/-- The region of each block. -/
def choicePath (block : BlockId) : List Place :=
  if block = 1 then [.arm 0 0] else if block = 2 then [.arm 0 1] else []

theorem choice_oneRegion : OneRegion choice choiceAnalyses := by
  have arm {entry : BlockId} (jumps : (choice.block entry).terminator = .br 3) {block : BlockId}
      {run : List Step} (occurs : Occurs choice choiceAnalyses entry (some 3) block run) :
      block = entry ∧ run = [] := by
    obtain ⟨-, here | ⟨target, jumps', rest⟩ | ⟨index, dest, rest, chosen, -⟩ | ⟨meet, join, -⟩⟩ :=
      occurs.of_plain rfl
    · exact here
    · rw [jumps] at jumps'
      cases jumps'
      exact absurd rfl (rest.of_plain rfl).1
    · simp [jumps, Terminator.arms] at chosen
    · simp [jumps, Terminator.arms, Analyses.join] at join
  have last {block : BlockId} {run : List Step}
      (occurs : Occurs choice choiceAnalyses 3 none block run) : block = 3 ∧ run = [] := by
    obtain ⟨-, here | ⟨target, jumps, -⟩ | ⟨index, dest, rest, chosen, -⟩ | ⟨meet, join, -⟩⟩ :=
      occurs.of_plain rfl
    · exact here
    · cases jumps
    · cases chosen
    · cases join
  refine fun block _ _ => ⟨rfl, choicePath block, fun run occurs => ?_⟩
  obtain ⟨-, ⟨rfl, rfl⟩ | ⟨target, jumps, -⟩ | ⟨index, dest, rest, chosen, rfl, inside⟩ |
    ⟨meet, join, rest⟩⟩ := occurs.of_plain rfl
  · rfl
  · cases jumps
  · rcases index with _ | _ | index
    · cases chosen
      obtain ⟨rfl, rfl⟩ := arm rfl inside
      rfl
    · cases chosen
      obtain ⟨rfl, rfl⟩ := arm rfl inside
      rfl
    · cases chosen
  · cases join
    obtain ⟨rfl, rfl⟩ := last rest
    rfl

/-- The arms of a choice and what follows them are covered. -/
theorem liftBlockRegion_covers_choice :
    ∃ stmts after,
      liftBlockRegion choice choiceAnalyses (compactCompoundAssigns fun _ _ _ => false) 5 (some 0)
        none [] unlifted = some (stmts, after) ∧ Covers choice choiceAnalyses stmts := by
  have enough : choice.blocks.length < 5 := by decide
  obtain ⟨stmts, after, ran, covers⟩ :=
    liftBlockRegion_covers_iff choice_flow (fun _ _ _ => false) enough
  exact ⟨stmts, after, ran, covers.mpr choice_oneRegion⟩

/-- Read a counter and compare it at the head of a loop, and write it in the body. -/
def countdown : Function where
  blocks :=
    [{ insts := [], landingPad := none, funcletPad := false, terminator := .br 1 },
      { insts := [1, 2], landingPad := none, funcletPad := false, terminator := .condBr 2 2 3 },
      { insts := [3], landingPad := none, funcletPad := false, terminator := .br 1 },
      { insts := [], landingPad := none, funcletPad := false, terminator := .ret 4 }]
  personality := none

def countdownLoop : Loop where
  header := 1
  blocks := [1, 2]
  latch := some 2
  exitBlocks := [3]

def countdownAnalyses : Analyses where
  getLoopFor block := if block ∈ countdownLoop.blocks then some countdownLoop else none
  findNearestCommonDominator first second :=
    some (if first = second then first else if first = 3 ∨ second = 3 then 3 else 1)
  detectCountedLoop _ := none

/-- The counter is read nowhere in the lifted statements. -/
theorem countdown_loses_header :
    ∃ stmts after,
      liftBlockRegion countdown countdownAnalyses (compactCompoundAssigns fun _ _ _ => false) 5
        (some 0) none [] unlifted = some (stmts, after) ∧
      ¬Covers countdown countdownAnalyses stmts := by
  refine ⟨_, _, rfl, fun covers => ?_⟩
  have kept : ¬Absorbed countdown countdownAnalyses 1 1 := by
    rintro ⟨loop, header, held, -⟩
    cases header
    simp [loopHead, countdownAnalyses, countdownLoop, countdown, Function.block] at held
  obtain ⟨path, found, -⟩ := covers 1 (.single (by decide)) 1 (by decide) kept
  cases found

end RegionLifting
end Decompile
end TopoLlvm
