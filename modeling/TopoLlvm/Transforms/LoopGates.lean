import TopoLlvm.Transforms.LoopIR

/-!
# The gates of loop partitioning

The candidate gates of `LoopParallelizePass`: synchronization, dependences through memory,
dependences through the header's phi nodes, and the reductions that rescue some of these.
-/

namespace TopoLlvm
namespace Transforms

/-- Prefixes of the names of synchronization functions. -/
def syncPrefixes : List Symbol :=
  ["pthread_mutex", "pthread_rwlock", "pthread_spin", "pthread_barrier", "pthread_cond",
    "mtx_lock", "mtx_unlock", "mtx_timedlock", "__gthread_mutex", "__gthread_recursive_mutex",
    "std::mutex", "std::recursive_mutex", "std::shared_mutex", "std::condition_variable",
    "omp_set_lock", "omp_unset_lock"].map String.toList

/-- Names of synchronization functions. -/
def syncExact : List Symbol :=
  ["atomic_thread_fence", "__atomic_thread_fence", "__sync_synchronize"].map String.toList

/-- Operations that a reduction may accumulate with. -/
def isAssociativeReductionOp : BinaryOp → Bool
  | .add | .mul | .and | .or | .xor | .fadd | .fmul => true
  | .sub | .fsub | .other _ => false

/-- An instruction or terminator of the loop that uses a value. -/
inductive User where
  | phi (index : Nat)
  | header (index : Nat)
  | bodyPhi (index : Nat)
  | body (index : Nat)
  | exit
  deriving DecidableEq

/-- The instruction that computes an operand, as a user of other values. -/
def Operand.asUser : Operand → Option User
  | .header index => some (.header index)
  | .body index => some (.body index)
  | .const _ | .outer _ | .phi _ | .bodyPhi _ => none

/-- A phi node that accumulates with an associative operation. -/
structure ReductionInfo where
  phi : Nat
  type : PhiType
  binop : Operand
  rhs : Operand
  opcode : BinaryOp
  deriving DecidableEq

/-- The bits of `1.0`. -/
def floatOne : UInt64 := 0x3FF0000000000000

/-- `ConstantInt` or `ConstantFP` of a type, null where the type has no such constant. -/
def PhiType.constant (type : PhiType) (bits : Int) (float : UInt64) : Value :=
  match type with
  | .int width => .int width (BitVec.ofInt width bits)
  | .float => .float float
  | .pointer => .pointer 0

def ReductionInfo.getIdentity (info : ReductionInfo) : Value :=
  match info.opcode with
  | .add | .sub => info.type.constant 0 0
  | .mul => info.type.constant 1 floatOne
  | .and => info.type.constant (-1) 0
  | .or | .xor => info.type.constant 0 0
  | .fadd | .fsub => info.type.constant 0 0
  | .fmul => info.type.constant 1 floatOne
  | .other _ => info.type.constant 0 0

namespace Loop

variable (loop : Loop)

/-- All instructions of the loop but phi nodes and terminators. -/
def insts : List (Inst Operand) := loop.header ++ loop.body

def containsSyncPrimitives : Bool :=
  loop.insts.any fun inst =>
    match inst.opcode with
    | .fence | .atomicRMW _ | .atomicCmpXchg => true
    | .call call =>
        match call.callee with
        | none => true
        | some name => syncPrefixes.any (·.isPrefixOf name) || syncExact.contains name
    | .binary _ | .pure _ | .load _ | .store _ => false

/-- Some header phi node is not the canonical induction variable. -/
def hasCrossIterationDeps : Bool :=
  (List.range loop.phis.length).any fun index => loop.canonicalInductionVariable ≠ some index

def hasLoad (inst : Inst Operand) : Bool :=
  match inst.opcode with
  | .load _ => true
  | .call call => call.mayRead
  | _ => false

def hasStore (inst : Inst Operand) : Bool :=
  match inst.opcode with
  | .store _ => true
  | .call call => call.mayWrite
  | _ => false

/-- The loop both reads and writes memory. -/
def hasCrossIterationMemoryDeps : Bool := loop.insts.any hasLoad && loop.insts.any hasStore

/-- The users of a value within the loop. -/
def users (value : Operand) : List User :=
  (loop.phis.zipIdx.filterMap fun (phi, index) =>
      if phi.next = value then some (.phi index) else none) ++
    (loop.header.zipIdx.filterMap fun (inst, index) =>
      if value ∈ inst.operands then some (.header index) else none) ++
    (loop.bodyPhis.zipIdx.filterMap fun (incoming, index) =>
      if incoming = value then some (.bodyPhi index) else none) ++
    (loop.body.zipIdx.filterMap fun (inst, index) =>
      if value ∈ inst.operands then some (.body index) else none) ++
    if loop.exit.condition = value then [.exit] else []

/-- The accumulator operand of a binary operation is dropped; the other one is returned. -/
def otherOperand (phi left right : Operand) : Option Operand :=
  if left = phi then some right else if right = phi then some left else none

/-- The phi node is updated by an associative operation, which alone uses it and which it alone
uses. -/
def detectReduction (index : Nat) : Option ReductionInfo :=
  match loop.phis[index]? with
  | none => none
  | some phi =>
      match loop.definition phi.next with
      | some { opcode := .binary opcode, operands := [left, right] } =>
          if isAssociativeReductionOp opcode then
            (otherOperand (.phi index) left right).bind fun rhs =>
              if (loop.users (.phi index)).all (fun user => phi.next.asUser = some user) ∧
                  (loop.users phi.next).all (· = .phi index) then
                some { phi := index, type := phi.type, binop := phi.next, rhs, opcode }
              else none
          else none
      | _ => none

/-- The gates of `partitionLoopsPhase2`, with the reductions of the candidate. -/
def candidateReductions (reductionEnabled : Bool) : Option (List ReductionInfo) :=
  if loop.canonicalInductionVariable = none then none
  else if loop.containsSyncPrimitives then none
  else if loop.hasCrossIterationMemoryDeps then none
  else if loop.hasCrossIterationDeps then
    if reductionEnabled then
      let carried := (List.range loop.phis.length).filter fun index =>
        loop.canonicalInductionVariable ≠ some index
      match carried.mapM loop.detectReduction with
      | some reductions => if reductions.isEmpty then none else some reductions
      | none => none
    else none
  else some []

end Loop
end Transforms
end TopoLlvm
