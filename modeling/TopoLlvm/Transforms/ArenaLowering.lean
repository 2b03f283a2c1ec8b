import TopoLlvm.Runtime.ArenaReset

/-!
# Lowered allocators

The instructions that `LifetimeArenaPass` puts in place of a call of `malloc`, `calloc` or
`operator new`, with what they do to the arena and to memory, against the contracts of these
functions.
-/

namespace TopoLlvm
namespace LifetimeArena
namespace Lowering

open TopoLlvm.Runtime WordAlign

/-- An integer argument of a call; `size_t` may be narrower than a word. -/
structure Argument where
  width : Nat
  width_le : width ≤ 64
  bits : BitVec width

def Argument.size (argument : Argument) : Nat := argument.bits.toNat

/-- A call that is replaced. -/
inductive AllocCall where
  | malloc (size : Argument)
  | calloc (count elemSize : Argument)
  /-- `_Znwm`, `_Znwj`, `_Znam` or `_Znaj`. -/
  | operatorNew (size : Argument)

/-- The values that the pass creates, by its own names for them. -/
inductive Reg where
  | arena
  | count
  | elemSize
  | mulRes
  | product
  | overflow
  | totalSize
  | memsetSize
  | newAlloc
  deriving DecidableEq

inductive Operand where
  | argument (index : Nat)
  | reg (name : Reg)
  | constant (value : UInt64)

inductive Instr where
  /-- Load the global that holds the arena. -/
  | loadArena (dest : Reg)
  | zext (dest : Reg) (source : Operand)
  | umulWithOverflow (dest : Reg) (left right : Operand)
  | extractValue (dest : Reg) (aggregate : Operand) (index : Nat)
  | select (dest : Reg) (condition onTrue onFalse : Operand)
  /-- Call `topo_arena_alloc`. -/
  | arenaAlloc (dest : Reg) (arena size alignment : Operand)
  | memset (pointer : Operand) (byte : UInt8) (size : Operand)

/-! ## What the pass emits -/

/-- An argument as a word. -/
def widen (dest : Reg) (index : Nat) (argument : Argument) : List Instr × Operand :=
  if argument.width = 64 then ([], .argument index)
  else ([.zext dest (.argument index)], .reg dest)

def lowerSized (size : Argument) : List Instr :=
  let totalSize := widen .totalSize 0 size
  [.loadArena .arena] ++ totalSize.1 ++
    [.arenaAlloc .newAlloc (.reg .arena) totalSize.2 (.constant 16)]

/-- The product, or a size that is too large for any arena, and as many zeros. -/
def zeroedAlloc (count elemSize : Operand) : List Instr :=
  [.umulWithOverflow .mulRes count elemSize,
    .extractValue .product (.reg .mulRes) 0,
    .extractValue .overflow (.reg .mulRes) 1,
    .select .totalSize (.reg .overflow) (.constant sizeMax) (.reg .product),
    .select .memsetSize (.reg .overflow) (.constant 0) (.reg .product),
    .arenaAlloc .newAlloc (.reg .arena) (.reg .totalSize) (.constant 16),
    .memset (.reg .newAlloc) 0 (.reg .memsetSize)]

def lowerCalloc (count elemSize : Argument) : List Instr :=
  let count := widen .count 0 count
  let elemSize := widen .elemSize 1 elemSize
  [.loadArena .arena] ++ count.1 ++ elemSize.1 ++ zeroedAlloc count.2 elemSize.2

def lower : AllocCall → List Instr
  | .malloc size | .operatorNew size => lowerSized size
  | .calloc count elemSize => lowerCalloc count elemSize

def AllocCall.arguments : AllocCall → List Argument
  | malloc size | operatorNew size => [size]
  | calloc count elemSize => [count, elemSize]

/-! ## What it does -/

inductive Value where
  | word (value : UInt64)
  | narrow (width : Nat) (bits : BitVec width)
  | flag (value : Bool)
  | pair (product : UInt64) (overflow : Bool)
  | pointer (address : Address)
  /-- The arena's handle. -/
  | handle

def Argument.value (argument : Argument) : Value :=
  if argument.width = 64 then .word (.ofNat argument.size)
  else .narrow argument.width argument.bits

/-- The state of the emitted code; a null handle is no arena. -/
structure Exec where
  regs : Reg → Option Value
  arena : Option Arena
  memory : Nat → UInt8
  /-- The pointers that bytes were written through. -/
  writes : List Address

/-- The second result of `llvm.umul.with.overflow`. -/
def overflows (left right : UInt64) : Bool := decide (2 ^ 64 ≤ left.toNat * right.toNat)

namespace Exec

variable (platform : Platform) (arguments : List Argument) (answer : Address) (exec : Exec)

def eval : Operand → Option Value
  | .argument index => arguments[index]?.map (·.value)
  | .reg name => exec.regs name
  | .constant value => some (.word value)

def set (dest : Reg) (value : Value) : Exec :=
  { exec with regs := Function.update exec.regs dest (some value) }

/-- One instruction, with the answer to the call of `malloc` that the arena may make; none where
the operands have the wrong types. -/
def step : Instr → Option Exec
  | .loadArena dest => some (exec.set dest .handle)
  | .zext dest source =>
      match exec.eval arguments source with
      | some (.narrow _ bits) => some (exec.set dest (.word (.ofNat bits.toNat)))
      | _ => none
  | .umulWithOverflow dest left right =>
      match exec.eval arguments left, exec.eval arguments right with
      | some (.word left), some (.word right) =>
          some (exec.set dest (.pair (left * right) (overflows left right)))
      | _, _ => none
  | .extractValue dest aggregate index =>
      match exec.eval arguments aggregate with
      | some (.pair product overflow) =>
          match index with
          | 0 => some (exec.set dest (.word product))
          | 1 => some (exec.set dest (.flag overflow))
          | _ => none
      | _ => none
  | .select dest condition onTrue onFalse =>
      match exec.eval arguments condition, exec.eval arguments onTrue,
          exec.eval arguments onFalse with
      | some (.flag condition), some onTrue, some onFalse =>
          some (exec.set dest (if condition then onTrue else onFalse))
      | _, _, _ => none
  | .arenaAlloc dest arena size alignment =>
      match exec.eval arguments arena, exec.eval arguments size,
          exec.eval arguments alignment with
      | some .handle, some (.word size), some (.word alignment) =>
          let result := topoArenaAlloc platform exec.arena size alignment answer
          some { exec.set dest (.pointer result.2) with arena := result.1 }
      | _, _, _ => none
  | .memset pointer byte size =>
      match exec.eval arguments pointer, exec.eval arguments size with
      | some (.pointer pointer), some (.word size) =>
          some { exec with
            memory := fun address =>
              if pointer.toNat ≤ address ∧ address < pointer.toNat + size.toNat then byte
              else exec.memory address
            writes := if size = 0 then exec.writes else pointer :: exec.writes }
      | _, _ => none

/-- Instructions, one after the other. -/
def execute : List Instr → Exec → Option Exec
  | [], exec => some exec
  | instr :: instrs, exec => (exec.step platform arguments answer instr).bind (execute instrs)

end Exec

/-- What a call leaves: its result, the arena and the memory, with what was written through. -/
structure Outcome where
  pointer : Address
  arena : Option Arena
  memory : Nat → UInt8
  writes : List Address

/-- What the uses of the replaced call see. -/
def Exec.outcome (exec : Exec) : Option Outcome :=
  match exec.regs .newAlloc with
  | some (.pointer pointer) =>
      some { pointer, arena := exec.arena, memory := exec.memory, writes := exec.writes }
  | _ => none

def Exec.start (arena : Option Arena) (memory : Nat → UInt8) : Exec where
  regs _ := none
  arena := arena
  memory := memory
  writes := []

/-- Run what is emitted for a call. -/
def run (platform : Platform) (call : AllocCall) (arena : Option Arena) (memory : Nat → UInt8)
    (answer : Address) : Option Outcome :=
  ((Exec.start arena memory).execute platform call.arguments answer (lower call)).bind Exec.outcome

/-! ### The emitted code as one step -/

section Run

namespace Exec

variable {platform : Platform} {arguments : List Argument} {answer : Address} {exec : Exec}

@[simp] theorem eval_reg (name : Reg) : exec.eval arguments (.reg name) = exec.regs name := rfl

@[simp] theorem eval_constant (value : UInt64) :
    exec.eval arguments (.constant value) = some (.word value) := rfl

theorem execute_append (front back : List Instr) :
    exec.execute platform arguments answer (front ++ back) =
      (exec.execute platform arguments answer front).bind
        (execute platform arguments answer back) := by
  induction front generalizing exec with
  | nil => rfl
  | cons instr front ih =>
      simp only [List.cons_append, execute, Option.bind_assoc]
      exact Option.bind_congr fun next _ => ih

/-- An argument is available as a word after it is widened, and nothing else has changed. -/
theorem execute_widen (dest : Reg) {index : Nat} {argument : Argument}
    (given : arguments[index]? = some argument) :
    ∃ after, exec.execute platform arguments answer (widen dest index argument).1 = some after ∧
      after.eval arguments (widen dest index argument).2 = some (.word (.ofNat argument.size)) ∧
      (∀ name ≠ dest, after.regs name = exec.regs name) ∧ after.arena = exec.arena ∧
        after.memory = exec.memory ∧ after.writes = exec.writes := by
  unfold widen
  by_cases wide : argument.width = 64
  · simp only [if_pos wide]
    refine ⟨exec, rfl, ?_, fun _ _ => rfl, rfl, rfl, rfl⟩
    rw [eval, given, Option.map_some, Argument.value, if_pos wide]
  · simp only [if_neg wide]
    have value : exec.eval arguments (.argument index) =
        some (.narrow argument.width argument.bits) := by
      rw [eval, given, Option.map_some, Argument.value, if_neg wide]
    refine ⟨exec.set dest (.word (.ofNat argument.size)), ?_, ?_, ?_, rfl, rfl, rfl⟩
    · simp [execute, step, value, Argument.size]
    · exact Function.update_self ..
    · exact fun name other => Function.update_of_ne other ..

end Exec

/-- The size that is asked of the arena for a product. -/
def requested (left right : UInt64) : UInt64 :=
  if overflows left right then sizeMax else left * right

/-- The number of bytes that are zeroed. -/
def zeroed (left right : UInt64) : UInt64 :=
  if overflows left right then 0 else left * right

variable (platform : Platform) (answer : Address)

theorem outcome_zeroedAlloc {arguments : List Argument} {exec : Exec} {count elemSize : Operand}
    {left right : UInt64} (first : exec.eval arguments count = some (.word left))
    (second : exec.eval arguments elemSize = some (.word right))
    (handle : exec.regs .arena = some .handle) :
    (exec.execute platform arguments answer (zeroedAlloc count elemSize)).bind Exec.outcome =
      let result := topoArenaAlloc platform exec.arena (requested left right) 16 answer
      some
        { pointer := result.2
          arena := result.1
          memory := fun address =>
            if result.2.toNat ≤ address ∧ address < result.2.toNat + (zeroed left right).toNat then 0
            else exec.memory address
          writes := if zeroed left right = 0 then exec.writes else result.2 :: exec.writes } := by
  unfold requested zeroed
  cases overflow : overflows left right <;>
    simp [zeroedAlloc, Exec.execute, Exec.step, Exec.set, Exec.outcome, first, second, handle,
      overflow]

variable (arena : Option Arena) (memory : Nat → UInt8)

theorem outcome_lowerSized (size : Argument) :
    ((Exec.start arena memory).execute platform [size] answer (lowerSized size)).bind
        Exec.outcome =
      let result := topoArenaAlloc platform arena (.ofNat size.size) 16 answer
      some { pointer := result.2, arena := result.1, memory, writes := [] } := by
  let loaded := (Exec.start arena memory).set .arena .handle
  have given : [size][0]? = some size := rfl
  obtain ⟨widened, runs, value, kept, sameArena, sameMemory, sameWrites⟩ :=
    @Exec.execute_widen platform [size] answer loaded .totalSize 0 size given
  have handle : widened.regs .arena = some .handle := kept .arena (by decide)
  have split : (Exec.start arena memory).execute platform [size] answer (lowerSized size) =
      (loaded.execute platform [size] answer (widen .totalSize 0 size).1).bind
        (Exec.execute platform [size] answer
          [.arenaAlloc .newAlloc (.reg .arena) (widen .totalSize 0 size).2 (.constant 16)]) :=
    Exec.execute_append ..
  rw [split, runs]
  simp [Exec.execute, Exec.step, Exec.set, Exec.outcome, value, handle, sameArena, sameMemory,
    sameWrites, loaded, Exec.start]

theorem run_calloc (count elemSize : Argument) :
    run platform (.calloc count elemSize) arena memory answer =
      let left := UInt64.ofNat count.size
      let right := UInt64.ofNat elemSize.size
      let result := topoArenaAlloc platform arena (requested left right) 16 answer
      some
        { pointer := result.2
          arena := result.1
          memory := fun address =>
            if result.2.toNat ≤ address ∧ address < result.2.toNat + (zeroed left right).toNat then 0
            else memory address
          writes := if zeroed left right = 0 then [] else [result.2] } := by
  let loaded := (Exec.start arena memory).set .arena .handle
  let arguments := [count, elemSize]
  have given : arguments[0]? = some count := rfl
  have given' : arguments[1]? = some elemSize := rfl
  obtain ⟨first, runs, value, kept, sameArena, sameMemory, sameWrites⟩ :=
    @Exec.execute_widen platform arguments answer loaded .count 0 count given
  obtain ⟨second, runs', value', kept', sameArena', sameMemory', sameWrites'⟩ :=
    @Exec.execute_widen platform arguments answer first .elemSize 1 elemSize given'
  have handle : second.regs .arena = some .handle :=
    (kept' .arena (by decide)).trans (kept .arena (by decide))
  -- The first operand is an argument or was widened into another register.
  have still : second.eval arguments (widen .count 0 count).2 =
      some (.word (.ofNat count.size)) := by
    rw [← value]
    unfold widen
    by_cases wide : count.width = 64
    · simp only [if_pos wide]
      rfl
    · simp only [if_neg wide]
      exact kept' .count (by decide)
  have split : (Exec.start arena memory).execute platform arguments answer
      (lowerCalloc count elemSize) =
        ((loaded.execute platform arguments answer (widen .count 0 count).1).bind
          (Exec.execute platform arguments answer (widen .elemSize 1 elemSize).1)).bind
            (Exec.execute platform arguments answer
              (zeroedAlloc (widen .count 0 count).2 (widen .elemSize 1 elemSize).2)) := by
    rw [← Exec.execute_append]
    exact Exec.execute_append ..
  have outcome := outcome_zeroedAlloc platform answer still value' handle
  rw [sameArena', sameMemory', sameWrites', sameArena, sameMemory, sameWrites] at outcome
  rw [run, lower, AllocCall.arguments, split, runs, Option.bind_some, runs', Option.bind_some]
  exact outcome

end Run

/-! ## Contracts -/

/-- An aligned block of a size, in the arena after the call and apart from all that was granted
before. -/
structure OwnBlock (before : Option Tracked) (outcome : Outcome) (size : Nat) : Prop where
  nonnull : outcome.pointer ≠ 0
  aligned : 16 ∣ outcome.pointer.toNat
  within : ∃ arena, outcome.arena = some arena ∧ ∃ block ∈ arena.blocks,
    block.data.toNat ≤ outcome.pointer.toNat ∧
      outcome.pointer.toNat + size ≤ block.data.toNat + block.capacity.toNat
  apart : ∀ tracked ∈ before, ∀ grant ∈ tracked.granted,
    outcome.pointer.toNat + size ≤ grant.pointer.toNat ∨
      grant.pointer.toNat + grant.size.toNat ≤ outcome.pointer.toNat

/-- The contract of the function that is called, and no write through null. -/
def Refines (call : AllocCall) (before : Option Tracked) (outcome : Outcome) : Prop :=
  (∀ pointer ∈ outcome.writes, pointer ≠ 0) ∧
    match call with
    | .malloc size => outcome.pointer = 0 ∨ OwnBlock before outcome size.size
    | .calloc count elemSize =>
        (2 ^ 64 ≤ count.size * elemSize.size → outcome.pointer = 0) ∧
          (outcome.pointer = 0 ∨ OwnBlock before outcome (count.size * elemSize.size) ∧
            ∀ address, outcome.pointer.toNat ≤ address →
              address < outcome.pointer.toNat + count.size * elemSize.size →
                outcome.memory address = 0)
    | .operatorNew size => OwnBlock before outcome size.size

/-- The arena is there and can serve a request of the size. -/
def CanServe (before : Option Tracked) (size : Nat) (answer : Address) : Prop :=
  size ≠ 0 ∧ ∃ tracked ∈ before, tracked.arena.canServe (.ofNat size) 16 answer = true

/-- The call does not depend on the arena, or the arena can serve it. -/
def Served (call : AllocCall) (before : Option Tracked) (answer : Address) : Prop :=
  match call with
  | .malloc _ => True
  | .calloc count elemSize => 2 ^ 64 ≤ count.size * elemSize.size ∨
      count.size * elemSize.size = 0 ∨ CanServe before (count.size * elemSize.size) answer
  | .operatorNew size => CanServe before size.size answer

/-- What is asked of the arena. -/
def AllocCall.requested : AllocCall → UInt64
  | malloc size | operatorNew size => .ofNat size.size
  | calloc count elemSize => Lowering.requested (.ofNat count.size) (.ofNat elemSize.size)

theorem Argument.toNat_ofNat_size (argument : Argument) :
    (UInt64.ofNat argument.size).toNat = argument.size := by
  refine UInt64.toNat_ofNat_of_lt' (Nat.lt_of_lt_of_le argument.bits.isLt ?_)
  exact Nat.pow_le_pow_right (by decide) argument.width_le

section Arena

variable {platform : Platform} {heap : ArenaHeap} {before : Option Tracked} {size : UInt64}
  {answer : Address}

/-- The answer of `malloc` does not matter where it is not asked. -/
theorem alloc_of_growth_none {arena : Arena} {alignment : UInt64}
    (enough : arena.growth size alignment = none) (other : Address) :
    arena.alloc size alignment answer = arena.alloc size alignment other := by
  unfold Arena.growth at enough
  unfold Arena.alloc
  cases last : arena.blocks.getLast? with
  | none => rfl
  | some current =>
      simp only [last] at enough ⊢
      split at enough
      · rename_i large
        simp only [if_pos large]
      · rename_i small
        split at enough
        · rename_i room
          simp only [if_neg small, if_pos room]
        · cases enough

/-- What the arena answers. -/
theorem alloc_spec (reach : (ArenaHeap.machine platform).Reachable Transition.Machine.anyStep heap)
    (live : ∀ tracked ∈ before, tracked ∈ heap.live)
    (fresh : ∀ tracked ∈ before, ∀ capacity, tracked.arena.growth size 16 = some capacity →
      heap.Fresh capacity answer) (memory : Nat → UInt8) (writes : List Address) :
    let result := topoArenaAlloc platform (before.map (·.arena)) size 16 answer
    CanServe before size.toNat answer ∧
        OwnBlock before { pointer := result.2, arena := result.1, memory, writes } size.toNat ∨
      ¬ CanServe before size.toNat answer ∧ result.2 = 0 := by
  obtain ⟨ledger, settled⟩ := ArenaHeap.exists_settled reach
  intro result
  cases before with
  | none =>
      right
      exact ⟨fun ⟨_, _, member, _⟩ => (nomatch member), rfl⟩
  | some tracked =>
      by_cases empty : size = 0
      · right
        refine ⟨fun serves => serves.1 (by rw [empty]; rfl), ?_⟩
        simp only [result, Option.map_some, topoArenaAlloc, if_pos empty]
      have inside := live tracked rfl
      have ok := settled.ok tracked inside
      have power : IsAlignment 16 := ⟨4, by decide, rfl⟩
      have effective : platform.effectiveAlign 16 = 16 := if_neg (by decide)
      have called : result = (some (tracked.arena.alloc size 16 answer).1,
          (tracked.arena.alloc size 16 answer).2) := by
        simp only [result, Option.map_some, topoArenaAlloc, if_neg empty, effective]
      rw [called]
      cases serves : tracked.arena.canServe size 16 answer with
      | false =>
          right
          refine ⟨?_, by rw [(Arena.alloc_of_not_canServe serves).1]⟩
          rintro ⟨-, other, same, serves'⟩
          obtain rfl := Option.some.inj same
          rw [UInt64.ofNat_toNat, serves] at serves'
          cases serves'
      | true =>
          left
          have nonnull := ok.alloc_ne_zero (settled.made tracked inside) power empty
            (fun capacity grows => (fresh tracked rfl capacity grows).imp_right And.left) serves
          -- The answer of malloc may be anything where it is not asked.
          have granted : Tracked.Ok (tracked.grant size 16 (tracked.arena.alloc size 16 answer).1
              (tracked.arena.alloc size 16 answer).2) := by
            cases grows : tracked.arena.growth size 16 with
            | none =>
                rw [alloc_of_growth_none grows 0]
                exact ok.alloc power empty (.inl rfl)
            | some capacity =>
                obtain ⟨rfl, -⟩ := Arena.growth_eq grows
                refine ok.alloc power empty ((fresh tracked rfl _ grows).imp_right ?_)
                exact fun fits => ⟨fits.1, fits.2 tracked inside⟩
          obtain ⟨blocks, -, aligned, within, disjoint⟩ := granted
          simp only [Tracked.grant, if_neg nonnull] at blocks aligned within disjoint
          obtain ⟨block, member, start, stop⟩ := within _ List.mem_cons_self
          have used := UInt64.le_iff_toNat_le.mp (blocks block member).used_le
          refine ⟨⟨?_, tracked, rfl, ?_⟩, nonnull, aligned _ List.mem_cons_self,
            ⟨_, rfl, block, member, start, stop.trans (Nat.add_le_add_left used _)⟩, ?_⟩
          · exact fun zero => empty (UInt64.toNat_inj.mp zero)
          · rw [UInt64.ofNat_toNat]
            exact serves
          · intro other same grant old
            obtain rfl := Option.some.inj same
            exact (List.pairwise_cons.mp disjoint).1 grant old

/-- No arena can serve a request for all of memory. -/
theorem not_canServe_sizeMax : ¬ CanServe before sizeMax.toNat answer := by
  rintro ⟨-, tracked, -, serves⟩
  rw [UInt64.ofNat_toNat] at serves
  unfold Arena.canServe at serves
  cases last : tracked.arena.blocks.getLast? with
  | none => simp [last] at serves
  | some current =>
      have large : sizeMax - 16 < sizeMax := by decide
      simp [last, large] at serves

variable {count elemSize : Argument}

theorem of_overflow (beyond : 2 ^ 64 ≤ count.size * elemSize.size) :
    requested (.ofNat count.size) (.ofNat elemSize.size) = sizeMax ∧
      zeroed (.ofNat count.size) (.ofNat elemSize.size) = 0 := by
  have overflow : overflows (.ofNat count.size) (.ofNat elemSize.size) = true := by
    unfold overflows
    rw [count.toNat_ofNat_size, elemSize.toNat_ofNat_size]
    exact decide_eq_true beyond
  exact ⟨if_pos overflow, if_pos overflow⟩

theorem of_not_overflow (fits : ¬ 2 ^ 64 ≤ count.size * elemSize.size) :
    requested (.ofNat count.size) (.ofNat elemSize.size) =
        .ofNat (count.size * elemSize.size) ∧
      zeroed (.ofNat count.size) (.ofNat elemSize.size) = .ofNat (count.size * elemSize.size) ∧
        (UInt64.ofNat (count.size * elemSize.size)).toNat = count.size * elemSize.size := by
  have overflow : ¬ overflows (.ofNat count.size) (.ofNat elemSize.size) = true := by
    unfold overflows
    rw [count.toNat_ofNat_size, elemSize.toNat_ofNat_size]
    simpa using fits
  have product := UInt64.ofNat_mul count.size elemSize.size
  refine ⟨(if_neg overflow).trans product.symm, (if_neg overflow).trans product.symm, ?_⟩
  exact UInt64.toNat_ofNat_of_lt' (Nat.not_le.mp fits)

end Arena

/-- **Lowering.** What is emitted for a call refines the function that is called exactly where the
call is served. -/
theorem refines_iff (platform : Platform) {heap : ArenaHeap}
    (reach : (ArenaHeap.machine platform).Reachable Transition.Machine.anyStep heap)
    (call : AllocCall) (before : Option Tracked) (live : ∀ tracked ∈ before, tracked ∈ heap.live)
    (memory : Nat → UInt8) (answer : Address)
    (fresh : ∀ tracked ∈ before, ∀ capacity, tracked.arena.growth call.requested 16 = some capacity →
      heap.Fresh capacity answer) :
    ∃ outcome, run platform call (before.map (·.arena)) memory answer = some outcome ∧
      (Refines call before outcome ↔ Served call before answer) := by
  cases call with
  | malloc size =>
      refine ⟨_, outcome_lowerSized platform answer _ memory size, iff_of_true ⟨nofun, ?_⟩ trivial⟩
      have spec := alloc_spec reach live fresh memory []
      rw [AllocCall.requested, size.toNat_ofNat_size] at spec
      exact spec.elim (fun served => .inr served.2) fun refused => .inl refused.2
  | operatorNew size =>
      refine ⟨_, outcome_lowerSized platform answer _ memory size, ?_⟩
      have spec := alloc_spec reach live fresh memory []
      rw [AllocCall.requested, size.toNat_ofNat_size] at spec
      rcases spec with ⟨served, owns⟩ | ⟨refused, null⟩
      · exact iff_of_true ⟨nofun, owns⟩ served
      · exact iff_of_false (fun refines => refines.2.nonnull null) refused
  | calloc count elemSize =>
      have ran := run_calloc platform answer (before.map (·.arena)) memory count elemSize
      simp only at ran
      rw [AllocCall.requested] at fresh
      refine ⟨_, ran, ?_⟩
      by_cases beyond : 2 ^ 64 ≤ count.size * elemSize.size
      · obtain ⟨large, none⟩ := of_overflow beyond
        rw [large, none]
        rw [large] at fresh
        have null := ((alloc_spec reach live fresh memory []).resolve_left fun served =>
          not_canServe_sizeMax served.1).2
        exact iff_of_true ⟨nofun, fun _ => null, .inl null⟩ (.inl beyond)
      · obtain ⟨exact', bytes, whole⟩ := of_not_overflow beyond
        rw [exact', bytes]
        rw [exact'] at fresh
        have spec := fun memory writes => alloc_spec reach live fresh memory writes
        simp only [whole] at spec ⊢
        by_cases zero : count.size * elemSize.size = 0
        · have null := ((spec memory []).resolve_left fun served => served.1.1 zero).2
          refine iff_of_true ⟨?_, fun _ => null, .inl null⟩ (.inr (.inl zero))
          rw [if_pos (by rw [zero]; rfl)]
          exact nofun
        · have some_byte : UInt64.ofNat (count.size * elemSize.size) ≠ 0 := by
            intro none
            rw [none] at whole
            exact zero whole.symm
          rw [if_neg some_byte]
          rcases spec _ _ with ⟨served, owns⟩ | ⟨refused, null⟩
          · refine iff_of_true ⟨?_, fun over' => absurd over' beyond, .inr ⟨owns, ?_⟩⟩
              (.inr (.inr served))
            · intro pointer member
              rw [List.mem_singleton.mp member]
              exact owns.nonnull
            · exact fun address low high => if_pos ⟨low, high⟩
          · refine iff_of_false (fun refines => ?_) (fun served => ?_)
            · exact refines.1 _ (List.mem_singleton_self _) null
            · exact (served.resolve_left beyond).elim zero refused

/-- An argument of the width of a word. -/
def Argument.word (value : UInt64) : Argument := ⟨64, Nat.le_refl _, value.toBitVec⟩

/-- An arena with one block, of which some bytes are used. -/
def oneBlock (used : UInt64) (granted : List Grant) : Tracked where
  arena := { blocks := [⟨4096, 64, used⟩], defaultBlockSize := 64 }
  granted := granted

/-- A `calloc` of two words from a new arena. -/
theorem refines_calloc :
    ∃ outcome, run ArenaHeap.Platform.sixteen (.calloc (.word 2) (.word 8))
        (some (oneBlock 0 []).arena) (fun _ => 1) 0 = some outcome ∧
      Refines (.calloc (.word 2) (.word 8)) (some (oneBlock 0 [])) outcome := by
  obtain ⟨_, reach, rfl⟩ := (ArenaHeap.machine ArenaHeap.Platform.sixteen).exists_reachable
    (fun heap => heap = { arenas := [some (oneBlock 0 [])] }) [.create 64 4096] rfl (by decide)
  obtain ⟨outcome, ran, refines⟩ := refines_iff ArenaHeap.Platform.sixteen reach
    (.calloc (.word 2) (.word 8)) (some (oneBlock 0 [])) (fun tracked same => by
      obtain rfl := Option.some.inj same
      exact List.mem_singleton_self _) (fun _ => 1) 0 (fun _ _ _ _ => .inl rfl)
  exact ⟨outcome, ran, refines.mpr (.inr (.inr ⟨by decide, _, rfl, by decide⟩))⟩

/-- Where a full arena gets no block, `calloc` writes zeros through null; and `operator new` returns
null for no bytes. -/
theorem calloc_writes_null :
    (ArenaHeap.machine ArenaHeap.Platform.sixteen).Reachable Transition.Machine.anyStep
        { arenas := [some (oneBlock 64 [⟨4096, 64, 16⟩])] } ∧
    (∃ outcome, run ArenaHeap.Platform.sixteen (.calloc (.word 1) (.word 8))
        (some (oneBlock 64 [⟨4096, 64, 16⟩]).arena) (fun _ => 1) 0 = some outcome ∧
      outcome.writes = [0] ∧
      ¬ Refines (.calloc (.word 1) (.word 8)) (some (oneBlock 64 [⟨4096, 64, 16⟩])) outcome) ∧
    ∃ outcome, run ArenaHeap.Platform.sixteen (.operatorNew (.word 0)) (some (oneBlock 0 []).arena)
        (fun _ => 1) 0 = some outcome ∧
      outcome.pointer = 0 ∧
      ¬ Refines (.operatorNew (.word 0)) (some (oneBlock 0 [])) outcome := by
  refine ⟨?_, ?_, ?_⟩
  · obtain ⟨_, reach, rfl⟩ := (ArenaHeap.machine ArenaHeap.Platform.sixteen).exists_reachable
      (fun heap => heap = { arenas := [some (oneBlock 64 [⟨4096, 64, 16⟩])] })
      [.create 64 4096, .alloc 0 64 16 0] rfl (by decide)
    exact reach
  · refine ⟨_, run_calloc .., by decide, fun refines => ?_⟩
    have through : ∀ pointer ∈ [(0 : Address)], pointer ≠ 0 := refines.1
    exact through 0 (List.mem_singleton_self _) rfl
  · refine ⟨_, outcome_lowerSized .., by decide, fun refines => refines.2.nonnull (by decide)⟩

end Lowering
end LifetimeArena
end TopoLlvm
