import TopoLlvm.Library.Overwrite
import Mathlib.Logic.Function.Iterate

/-!
# Loops of one or two blocks

The fragment of LLVM IR that the loop passes meet: a header with phi nodes, possibly a latch block
of straight-line code, and one exit test.  Values are identified by the place that computes them.
What an instruction computes, reads and writes is a parameter.
-/

namespace TopoLlvm
namespace Transforms

open Overwrite

/-- The name of a function, a type or an operation. -/
abbrev Symbol := List Char

inductive Value where
  | int (width : Nat) (bits : BitVec width)
  | pointer (address : Nat)
  | float (bits : UInt64)
  deriving DecidableEq

instance instInhabitedValue : Inhabited Value := ⟨.pointer 0⟩

/-- Memory is addressed by bytes. -/
abbrev Memory := Nat → UInt8

/-- Bytes written to memory, in order. -/
abbrev Writes := List (Nat × UInt8)

/-- The opcodes of a `BinaryOperator`; those that the passes do not name are `other`. -/
inductive BinaryOp where
  | add
  | sub
  | mul
  | and
  | or
  | xor
  | fadd
  | fsub
  | fmul
  | other (name : Symbol)
  deriving DecidableEq

/-- A call instruction: its callee, unless that is indirect, and its memory attributes. -/
structure CallBase where
  callee : Option Symbol
  mayRead : Bool
  mayWrite : Bool
  deriving DecidableEq

/-- An instruction that is neither a phi node nor a terminator, without its operands. -/
inductive Opcode where
  | binary (op : BinaryOp)
  /-- Comparisons, casts, address computations and whatever else leaves memory alone. -/
  | pure (name : Symbol)
  | load (type : Symbol)
  | store (type : Symbol)
  | call (call : CallBase)
  | fence
  | atomicRMW (name : Symbol)
  | atomicCmpXchg
  deriving DecidableEq

/-- The instruction only computes a value. -/
def Opcode.isPure : Opcode → Bool
  | .binary _ | .pure _ => true
  | .load _ | .store _ | .call _ | .fence | .atomicRMW _ | .atomicCmpXchg => false

/-- What the instructions compute, read and write. -/
structure Interpretation where
  binary : BinaryOp → Value → Value → Value
  pure : Symbol → List Value → Value
  load : Symbol → List Value → Memory → Value
  store : Symbol → List Value → Writes
  call : CallBase → List Value → Memory → Value × Writes
  atomic : Opcode → List Value → Memory → Value × Writes
  binary_add : ∀ (width : Nat) (left right : BitVec width),
    binary .add (.int width left) (.int width right) = .int width (left + right)
  /-- A call that does not read memory does the same in every memory. -/
  call_unread : ∀ site : CallBase, site.mayRead = false →
    ∀ operands memory other, call site operands memory = call site operands other
  /-- A call that does not write memory leaves it alone. -/
  call_unwritten : ∀ site : CallBase, site.mayWrite = false →
    ∀ operands memory, (call site operands memory).2 = []

/-- The result and the writes of an instruction. -/
def Interpretation.exec (interp : Interpretation) (opcode : Opcode) (operands : List Value)
    (memory : Memory) : Value × Writes :=
  match opcode with
  | .binary op => (interp.binary op (operands.getD 0 default) (operands.getD 1 default), [])
  | .pure name => (interp.pure name operands, [])
  | .load type => (interp.load type operands memory, [])
  | .store type => (default, interp.store type operands)
  | .call call => interp.call call operands memory
  | .fence | .atomicRMW _ | .atomicCmpXchg => interp.atomic opcode operands memory

theorem Interpretation.exec_isPure (interp : Interpretation) {opcode : Opcode}
    (silent : opcode.isPure = true) (operands : List Value) (memory : Memory) :
    (interp.exec opcode operands memory).2 = [] := by
  cases opcode with
  | binary op => rfl
  | pure name => rfl
  | _ => cases silent

/-- An instruction whose operands are given by `Ref`. -/
structure Inst (Ref : Type) where
  opcode : Opcode
  operands : List Ref
  deriving DecidableEq

/-- An operand of a loop instruction. -/
inductive Operand where
  | const (value : Value)
  /-- An argument of the function or an instruction outside the loop. -/
  | outer (name : Nat)
  /-- A phi node of the header. -/
  | phi (index : Nat)
  | header (index : Nat)
  /-- A phi node of the latch block. -/
  | bodyPhi (index : Nat)
  | body (index : Nat)
  deriving DecidableEq

inductive PhiType where
  | int (width : Nat)
  | pointer
  | float
  deriving DecidableEq

/-- A phi node of the header, with its values from the preheader and from the latch. -/
structure Phi where
  type : PhiType
  init : Operand
  next : Operand
  deriving DecidableEq

/-- The blocks of a loop and the one that exits. -/
inductive Shape where
  /-- The header is the latch. -/
  | single
  /-- The header tests and the latch block follows. -/
  | topTested
  /-- The latch block tests. -/
  | bottomTested
  deriving DecidableEq

/-- The exiting terminator: it leaves the loop if the condition is one of the cases, or if it is
none of them. -/
structure ExitTest where
  condition : Operand
  cases : List Value
  onMatch : Bool
  deriving DecidableEq

def ExitTest.leaves (test : ExitTest) (condition : Value) : Bool :=
  decide (condition ∈ test.cases) == test.onMatch

/-- The operand is available to the instruction at a position of the header. -/
def Operand.beforeHeader (phis position : Nat) : Operand → Bool
  | .const _ | .outer _ => true
  | .phi index => index < phis
  | .header index => index < position
  | .bodyPhi _ | .body _ => false

/-- The operand is available to the instruction at a position of the latch block. -/
def Operand.beforeBody (phis header bodyPhis position : Nat) : Operand → Bool
  | .const _ | .outer _ => true
  | .phi index => index < phis
  | .header index => index < header
  | .bodyPhi index => index < bodyPhis
  | .body index => index < position

/-- An innermost loop with a preheader, a single exit edge and at most two blocks. -/
structure Loop where
  phis : List Phi
  header : List (Inst Operand)
  /-- The values of the latch block's phi nodes, which have the header as their only predecessor. -/
  bodyPhis : List Operand
  body : List (Inst Operand)
  shape : Shape
  exit : ExitTest
  single : shape = .single → bodyPhis = [] ∧ body = []
  headerDominated : ∀ entry ∈ header.zipIdx, ∀ operand ∈ entry.1.operands,
    operand.beforeHeader phis.length entry.2 = true
  bodyDominated : ∀ entry ∈ body.zipIdx, ∀ operand ∈ entry.1.operands,
    operand.beforeBody phis.length header.length bodyPhis.length entry.2 = true

/-- The place of an instruction. -/
inductive Position where
  | header (index : Nat)
  | body (index : Nat)
  deriving DecidableEq

/-- An execution of an instruction, with the values of its operands. -/
structure Event where
  position : Position
  operands : List Value
  deriving DecidableEq

/-- What a block has computed, written and done so far. -/
structure Outcome where
  values : List Value
  writes : Writes
  log : List Event

section Blocks

variable {Ref : Type} (interp : Interpretation) (memory : Memory)
  (resolve : List Value → Ref → Value) (observe : Nat → Inst Ref → (Ref → Value) → List Event)

/-- Execute one instruction. -/
def execInst (outcome : Outcome) (inst : Inst Ref) : Outcome :=
  let value := resolve outcome.values
  let result := interp.exec inst.opcode (inst.operands.map value)
    (overwrite memory outcome.writes)
  { values := outcome.values ++ [result.1]
    writes := outcome.writes ++ result.2
    log := outcome.log ++ observe outcome.values.length inst value }

/-- Execute straight-line code. -/
def execInsts (outcome : Outcome) (insts : List (Inst Ref)) : Outcome :=
  insts.foldl (execInst interp memory resolve observe) outcome

end Blocks

/-- The values that an iteration has computed. -/
structure Frame where
  outer : Nat → Value
  phis : List Value
  header : List Value
  bodyPhis : List Value
  body : List Value

def Frame.resolve (frame : Frame) : Operand → Value
  | .const value => value
  | .outer name => frame.outer name
  | .phi index => frame.phis.getD index default
  | .header index => frame.header.getD index default
  | .bodyPhi index => frame.bodyPhis.getD index default
  | .body index => frame.body.getD index default

namespace Loop

variable (loop : Loop)

/-- The instruction that computes an operand. -/
def definition : Operand → Option (Inst Operand)
  | .header index => loop.header[index]?
  | .body index => loop.body[index]?
  | _ => none

/-- The phi node starts at zero and is incremented by one. -/
def isCanonical (index : Nat) : Bool :=
  match loop.phis[index]? with
  | some { type := .int width, init := .const init, next } =>
      init = .int width 0 &&
        match loop.definition next with
        | some { opcode := .binary .add, operands := [.phi base, .const step] } =>
            base = index && step = .int width 1
        | _ => false
  | _ => false

/-- `getCanonicalInductionVariable`: the first such phi node of the header. -/
def canonicalInductionVariable : Option Nat :=
  (List.range loop.phis.length).find? loop.isCanonical

/-- An operand that carries a value other than the induction variable between iterations. -/
def isAccumulator : Operand → Bool
  | .phi index => loop.canonicalInductionVariable ≠ some index
  | _ => false

/-- The instruction is the increment of the induction variable. -/
def isIncrement (operand : Operand) : Bool :=
  match loop.canonicalInductionVariable with
  | none => false
  | some index => (loop.phis[index]?).any (·.next = operand)

/-- A header instruction that does nothing but control the loop: the increment of the induction
variable or the exit test. -/
def controls (index : Nat) (inst : Inst Operand) : Bool :=
  inst.opcode.isPure && (loop.isIncrement (.header index) || loop.exit.condition = .header index)

/-- The observable operands of an instruction: partial sums are left out. -/
def observed (value : Operand → Value) (inst : Inst Operand) : List Value :=
  (inst.operands.filter fun operand => !loop.isAccumulator operand).map value

def observeHeader (index : Nat) (inst : Inst Operand) (value : Operand → Value) : List Event :=
  if loop.controls index inst then []
  else [{ position := .header index, operands := loop.observed value inst }]

def observeBody (index : Nat) (inst : Inst Operand) (value : Operand → Value) : List Event :=
  [{ position := .body index, operands := loop.observed value inst }]

variable (interp : Interpretation) (outer : Nat → Value) (memory : Memory)

/-- The frame at the start of an iteration. -/
def entryFrame (phis : List Value) : Frame where
  outer
  phis
  header := []
  bodyPhis := []
  body := []

/-- Execute the header, from the writes of earlier iterations. -/
def execHeader (phis : List Value) (writes : Writes) : Outcome :=
  execInsts interp memory (fun values => { entryFrame outer phis with header := values }.resolve)
    loop.observeHeader { values := [], writes, log := [] } loop.header

/-- The frame after the header and the phi nodes of the latch block. -/
def bodyFrame (phis header : List Value) : Frame :=
  let frame := { entryFrame outer phis with header }
  { frame with bodyPhis := loop.bodyPhis.map frame.resolve }

/-- Execute the latch block. -/
def execBody (phis : List Value) (header : Outcome) : Outcome :=
  execInsts interp memory
    (fun values => { loop.bodyFrame outer phis header.values with body := values }.resolve)
    loop.observeBody { values := [], writes := header.writes, log := [] } loop.body

/-- The state at the header, with what each iteration has done. -/
structure State where
  phis : List Value
  writes : Writes
  log : List (List Event)

/-- What a loop has written and done when it exits. -/
structure Result where
  writes : Writes
  log : List (List Event)
  /-- The events of a last evaluation of the header that no body follows. -/
  closing : List Event

/-- The loop goes round or exits. -/
inductive Turn where
  | again (state : State)
  | leave (result : Result)

/-- An iteration, whatever the exit test says. -/
def iterate (state : State) : State :=
  let header := loop.execHeader interp outer memory state.phis state.writes
  let body := loop.execBody interp outer memory state.phis header
  let frame := { loop.bodyFrame outer state.phis header.values with body := body.values }
  { phis := loop.phis.map fun phi => frame.resolve phi.next
    writes := body.writes
    log := state.log ++ [header.log ++ body.log] }

/-- One evaluation of the header and, unless the loop exits there, of the latch block. -/
def turn (state : State) : Turn :=
  let header := loop.execHeader interp outer memory state.phis state.writes
  let headerFrame := loop.bodyFrame outer state.phis header.values
  if loop.shape = .topTested ∧
      loop.exit.leaves (headerFrame.resolve loop.exit.condition) = true then
    .leave { writes := header.writes, log := state.log, closing := header.log }
  else
    let body := loop.execBody interp outer memory state.phis header
    let frame := { headerFrame with body := body.values }
    let next := loop.iterate interp outer memory state
    if loop.shape ≠ .topTested ∧ loop.exit.leaves (frame.resolve loop.exit.condition) = true then
      .leave { writes := next.writes, log := next.log, closing := [] }
    else
      .again next

/-- The state in which the loop is entered. -/
def start : State where
  phis := loop.phis.map fun phi => (entryFrame outer []).resolve phi.init
  writes := []
  log := []

/-- Run the loop for at most the given number of turns. -/
def run : Nat → State → Option Result
  | 0, _ => none
  | fuel + 1, state =>
      match loop.turn interp outer memory state with
      | .again next => run fuel next
      | .leave result => some result

/-- The state after the loop has gone round a number of times. -/
def turns : Nat → State → Option State
  | 0, state => some state
  | count + 1, state =>
      match loop.turn interp outer memory state with
      | .again next => turns count next
      | .leave _ => none

/-- The backedge is taken exactly the given number of times. -/
def takesBackedge (count : Nat) : Prop :=
  ∃ state result, loop.turns interp outer memory count (loop.start outer) = some state ∧
    loop.turn interp outer memory state = .leave result

variable {loop interp outer memory}

/-- A loop that goes round a number of times and then exits returns its result. -/
theorem run_of_turns {count : Nat} {state last : State} {result : Result}
    (rounds : loop.turns interp outer memory count state = some last)
    (leaves : loop.turn interp outer memory last = .leave result) :
    loop.run interp outer memory (count + 1) state = some result := by
  induction count generalizing state with
  | zero =>
      obtain rfl : state = last := Option.some.inj rounds
      simp only [run, leaves]
  | succ count ih =>
      rw [turns] at rounds
      rw [run]
      cases went : loop.turn interp outer memory state with
      | leave other => simp only [went, reduceCtorEq] at rounds
      | again next =>
          simp only [went] at rounds
          exact ih rounds

/-- The result of a run does not depend on the number of turns allowed. -/
theorem run_unique {fuel more : Nat} {state : State} {result other : Result}
    (returns : loop.run interp outer memory fuel state = some result)
    (also : loop.run interp outer memory more state = some other) : result = other := by
  induction fuel generalizing more state with
  | zero => cases returns
  | succ fuel ih =>
      cases more with
      | zero => cases also
      | succ more =>
          rw [run] at returns also
          cases went : loop.turn interp outer memory state with
          | again next =>
              simp only [went] at returns also
              exact ih returns also
          | leave last =>
              simp only [went] at returns also
              cases returns
              cases also
              rfl

variable (loop interp outer memory) in
/-- A turn exits in the header, exits after the body or goes round. -/
theorem turn_cases (state : State) :
    let header := loop.execHeader interp outer memory state.phis state.writes
    let next := loop.iterate interp outer memory state
    loop.shape = .topTested ∧ loop.turn interp outer memory state =
        .leave { writes := header.writes, log := state.log, closing := header.log } ∨
      loop.shape ≠ .topTested ∧ loop.turn interp outer memory state =
        .leave { writes := next.writes, log := next.log, closing := [] } ∨
      loop.turn interp outer memory state = .again next := by
  intro header next
  unfold turn
  dsimp only
  split
  · rename_i top
    exact .inl ⟨top.1, rfl⟩
  · split
    · rename_i bottom
      exact .inr (.inl ⟨bottom.1, rfl⟩)
    · exact .inr (.inr rfl)

/-- Going round is an iteration. -/
theorem turn_eq_again {state next : State}
    (went : loop.turn interp outer memory state = .again next) :
    next = loop.iterate interp outer memory state := by
  rcases loop.turn_cases interp outer memory state with ⟨-, same⟩ | ⟨-, same⟩ | same
  · cases went.symm.trans same
  · cases went.symm.trans same
  · cases went.symm.trans same
    rfl

/-- Going round a number of times is as many iterations. -/
theorem turns_eq_iterate {count : Nat} {state last : State}
    (rounds : loop.turns interp outer memory count state = some last) :
    last = (loop.iterate interp outer memory)^[count] state := by
  induction count generalizing state with
  | zero => exact (Option.some.inj rounds).symm
  | succ count ih =>
      rw [turns] at rounds
      cases went : loop.turn interp outer memory state with
      | leave result => simp only [went, reduceCtorEq] at rounds
      | again next =>
          simp only [went] at rounds
          rw [ih rounds, turn_eq_again went, Function.iterate_succ_apply]

/-- A loop that returns a result goes round a number of times and then exits. -/
theorem turns_of_run {fuel : Nat} {state : State} {result : Result}
    (returns : loop.run interp outer memory fuel state = some result) :
    ∃ count last, loop.turns interp outer memory count state = some last ∧
      loop.turn interp outer memory last = .leave result := by
  induction fuel generalizing state with
  | zero => cases returns
  | succ fuel ih =>
      rw [run] at returns
      cases went : loop.turn interp outer memory state with
      | leave other =>
          simp only [went, Option.some.injEq] at returns
          exact ⟨0, state, rfl, returns ▸ went⟩
      | again next =>
          simp only [went] at returns
          obtain ⟨count, last, rounds, leaves⟩ := ih returns
          refine ⟨count + 1, last, ?_, leaves⟩
          simp only [turns, went, rounds]

/-- A run only appends to the log. -/
theorem run_log {fuel : Nat} {state : State} {result : Result}
    (returns : loop.run interp outer memory fuel state = some result) :
    ∃ rest, result.log = state.log ++ rest := by
  induction fuel generalizing state with
  | zero => cases returns
  | succ fuel ih =>
      rw [run] at returns
      rcases loop.turn_cases interp outer memory state with ⟨-, went⟩ | ⟨-, went⟩ | went
      · simp only [went] at returns
        cases returns
        exact ⟨[], (List.append_nil _).symm⟩
      · simp only [went] at returns
        cases returns
        exact ⟨_, rfl⟩
      · simp only [went] at returns
        obtain ⟨rest, extended⟩ := ih returns
        exact ⟨_, by rw [extended, iterate, List.append_assoc]⟩

/-- The first iteration of a run that executes the body at all. -/
theorem run_head {fuel : Nat} {result : Result}
    (returns : loop.run interp outer memory fuel (loop.start outer) = some result)
    (nonempty : 0 < result.log.length) :
    let header := loop.execHeader interp outer memory (loop.start outer).phis []
    let body := loop.execBody interp outer memory (loop.start outer).phis header
    result.log.head? = some (header.log ++ body.log) := by
  intro header body
  cases fuel with
  | zero => cases returns
  | succ fuel =>
      rw [run] at returns
      obtain ⟨-, went⟩ | ⟨-, went⟩ | went := loop.turn_cases interp outer memory (loop.start outer)
      · simp only [went] at returns
        cases returns
        cases nonempty
      · simp only [went] at returns
        cases returns
        rfl
      · simp only [went] at returns
        obtain ⟨rest, extended⟩ := run_log returns
        rw [extended]
        rfl

end Loop
end Transforms
end TopoLlvm
