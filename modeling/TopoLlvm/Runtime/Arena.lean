import TopoLlvm.Library.Machine
import TopoLlvm.Library.WordAlign

/-!
# The bump arena

`topo_arena`: a list of blocks of which the last one is bumped.  Sizes and addresses are 64-bit
words, and what `malloc` returns is part of each operation.
-/

namespace TopoLlvm
namespace Runtime

open WordAlign

/-- An address; zero is the null pointer. -/
abbrev Address := UInt64

/-- `SIZE_MAX`. -/
def sizeMax : UInt64 := 0 - 1

/-- `topo_arena::Block`. -/
structure Block where
  data : Address
  capacity : UInt64
  used : UInt64
  deriving DecidableEq

/-- `topo_arena`. -/
structure Arena where
  blocks : List Block
  defaultBlockSize : UInt64
  deriving DecidableEq

namespace Arena

variable (arena : Arena) (size alignment : UInt64) (answer : Address)

/-- The capacity of the block that `addBlock` asks `malloc` for. -/
def blockCapacity (minSize : UInt64) : UInt64 :=
  if arena.defaultBlockSize < minSize then minSize else arena.defaultBlockSize

/-- `addBlock`, unless `malloc` returns null. -/
def addBlock (minSize : UInt64) : Option Arena :=
  if answer = 0 then none
  else some { arena with
    blocks := arena.blocks ++
      [{ data := answer, capacity := arena.blockCapacity minSize, used := 0 }] }

/-- The arena with another last block. -/
def setLast (block : Block) : Arena :=
  { arena with blocks := arena.blocks.dropLast ++ [block] }

/-- The second half of `alloc`, which adds a block. -/
def allocNewBlock : Arena × Address :=
  match arena.addBlock answer (size + alignment) with
  | none => (arena, 0)
  | some grown =>
      match grown.blocks.getLast? with
      | none => (grown, 0)
      | some newBlock =>
          let addr := newBlock.data
          let aligned := alignUp addr alignment
          let padding := aligned - addr
          if newBlock.capacity < padding + size then (grown, 0)
          else (grown.setLast { newBlock with used := padding + size }, aligned)

def alloc : Arena × Address :=
  match arena.blocks.getLast? with
  | none => (arena, 0)
  | some current =>
      if sizeMax - alignment < size then (arena, 0)
      else
        let addr := current.data + current.used
        let aligned := alignUp addr alignment
        let padding := aligned - addr
        if padding + size ≤ current.capacity - current.used then
          (arena.setLast { current with used := current.used + (padding + size) }, aligned)
        else arena.allocNewBlock size alignment answer

def reset : Arena :=
  { arena with
    blocks := match arena.blocks.take 1 with
      | [] => []
      | first :: rest => { first with used := 0 } :: rest }

/-- The constructor, which keeps no block if `malloc` returns null. -/
def new (initialCapacity : UInt64) : Arena :=
  let empty : Arena := { blocks := [], defaultBlockSize := initialCapacity }
  (empty.addBlock answer initialCapacity).getD empty

end Arena

/-- The platform's `alignof(std::max_align_t)`. -/
structure Platform where
  maxAlign : UInt64
  isAlignment : IsAlignment maxAlign

/-- The capacity that `topo_arena_create` asks for. -/
def initialCapacity (requested : UInt64) : UInt64 := if requested = 0 then 4096 else requested

def topoArenaCreate (requested : UInt64) (answer : Address) : Arena :=
  Arena.new answer (initialCapacity requested)

/-- The alignment that an allocation is made with. -/
def Platform.effectiveAlign (platform : Platform) (alignment : UInt64) : UInt64 :=
  if alignment = 0 then platform.maxAlign else alignment

/-- `topo_arena_alloc` of a handle that may be null. -/
def topoArenaAlloc (platform : Platform) (handle : Option Arena) (size alignment : UInt64)
    (answer : Address) : Option Arena × Address :=
  match handle with
  | none => (none, 0)
  | some arena =>
      if size = 0 then (some arena, 0)
      else
        let result := arena.alloc size (platform.effectiveAlign alignment) answer
        (some result.1, result.2)

def topoArenaReset (handle : Option Arena) : Option Arena := handle.map Arena.reset

/-- A non-null pointer that `topo_arena_alloc` returned, with what was asked for. -/
structure Grant where
  pointer : Address
  size : UInt64
  alignment : UInt64
  deriving DecidableEq

/-- An arena and the pointers that it returned since its last reset, newest first. -/
structure Tracked where
  arena : Arena
  granted : List Grant
  deriving DecidableEq

/-- The record after an allocation: the pointer is noted unless it is null. -/
def Tracked.grant (tracked : Tracked) (size alignment : UInt64) (arena : Arena)
    (pointer : Address) : Tracked where
  arena
  granted := if pointer = 0 then tracked.granted
    else { pointer, size, alignment } :: tracked.granted

/-- The arenas of a program; a destroyed one leaves `none` in its place. -/
structure ArenaHeap where
  arenas : List (Option Tracked)
  deriving DecidableEq

/-- Calls of the arena runtime, each with the answer to the call of `malloc` it may make. -/
inductive ArenaLabel where
  | create (requested : UInt64) (answer : Address)
  | alloc (handle : Nat) (size alignment : UInt64) (answer : Address)
  | reset (handle : Nat)
  | destroy (handle : Nat)

/-- Two ranges of addresses have no byte in common. -/
def Apart (left : Address) (leftSize : UInt64) (right : Address) (rightSize : UInt64) : Prop :=
  left.toNat + leftSize.toNat ≤ right.toNat ∨ right.toNat + rightSize.toNat ≤ left.toNat

instance decidableApart (left right : Address) (leftSize rightSize : UInt64) :
    Decidable (Apart left leftSize right rightSize) :=
  inferInstanceAs (Decidable (_ ∨ _))

namespace ArenaHeap

/-- The arenas that have not been destroyed. -/
def live (heap : ArenaHeap) : List Tracked := heap.arenas.filterMap id

/-- `malloc` returns null or a fresh block that does not wrap the address space. -/
def Fresh (heap : ArenaHeap) (capacity : UInt64) (answer : Address) : Prop :=
  answer = 0 ∨ answer.toNat + capacity.toNat ≤ 2 ^ 64 ∧
    ∀ tracked ∈ heap.live, ∀ block ∈ tracked.arena.blocks,
      Apart block.data block.capacity answer capacity

instance decidableFresh (heap : ArenaHeap) (capacity : UInt64) (answer : Address) :
    Decidable (heap.Fresh capacity answer) :=
  inferInstanceAs (Decidable (_ ∨ _ ∧ _))

/-- Another arena, or none, under a handle. -/
def put (heap : ArenaHeap) (handle : Nat) (entry : Option Tracked) : ArenaHeap where
  arenas := heap.arenas.set handle entry

/-- One call; alignments are zero or powers of two. -/
def step (platform : Platform) (heap : ArenaHeap) : ArenaLabel → Option ArenaHeap
  | .create requested answer =>
      if heap.Fresh (initialCapacity requested) answer then
        let created := { arena := topoArenaCreate requested answer, granted := [] }
        some { arenas := heap.arenas ++ [some created] }
      else none
  | .alloc handle size alignment answer =>
      match heap.arenas[handle]? with
      | some (some tracked) =>
          let effective := platform.effectiveAlign alignment
          if (alignment = 0 ∨ IsAlignment alignment) ∧
              heap.Fresh (tracked.arena.blockCapacity (size + effective)) answer then
            let result := topoArenaAlloc platform (some tracked.arena) size alignment answer
            some (heap.put handle
              (result.1.map fun arena => tracked.grant size effective arena result.2))
          else none
      | _ => none
  | .reset handle =>
      match heap.arenas[handle]? with
      | some (some tracked) =>
          some (heap.put handle
            ((topoArenaReset (some tracked.arena)).map fun arena => { arena, granted := [] }))
      | _ => none
  | .destroy handle =>
      match heap.arenas[handle]? with
      | some (some _) => some (heap.put handle none)
      | _ => none

/-- The arena runtime as a machine; at the start there are no arenas. -/
def machine (platform : Platform) : Transition.Machine ArenaHeap ArenaLabel where
  initial heap := heap = { arenas := [] }
  step := step platform

end ArenaHeap
end Runtime
end TopoLlvm
