import TopoLlvm.Runtime.ArenaSafety

/-!
# Failed allocations and resets

An allocation that returns null leaves the arena as it was, and a reset arena is the one that
`topo_arena_create` makes of its first block.  What is held from `malloc` is kept in a ledger: every
block is freed once, by the reset or the destruction that drops it.
-/

namespace TopoLlvm
namespace Runtime

open WordAlign

/-- A call of the system's allocator. -/
inductive HeapCall where
  | malloc (size : UInt64) (answer : Address)
  | free (pointer : Address)
  deriving DecidableEq

namespace Arena

variable (arena : Arena)

/-- What `alloc` asks `malloc` for, where it adds a block. -/
def growth (size alignment : UInt64) : Option UInt64 :=
  match arena.blocks.getLast? with
  | none => none
  | some current =>
      if sizeMax - alignment < size then none
      else
        let addr := current.data + current.used
        let padding := alignUp addr alignment - addr
        if padding + size ≤ current.capacity - current.used then none
        else some (arena.blockCapacity (size + alignment))

/-- `alloc` has room in the last block, or gets a new one. -/
def canServe (size alignment : UInt64) (answer : Address) : Bool :=
  match arena.blocks.getLast? with
  | none => false
  | some current =>
      let addr := current.data + current.used
      let padding := alignUp addr alignment - addr
      !decide (sizeMax - alignment < size) &&
        (decide (padding + size ≤ current.capacity - current.used) || answer ≠ 0)

def bytesUsed : UInt64 := arena.blocks.foldl (fun total block => total + block.used) 0

def totalCapacity : UInt64 := arena.blocks.foldl (fun total block => total + block.capacity) 0

def pointers : List Address := arena.blocks.map (·.data)

end Arena

/-- An operation on a handle, with the answer to the call of `malloc` that it may make. -/
inductive Operation where
  | alloc (size alignment : UInt64) (answer : Address)
  | reset
  | bytesUsed
  | capacity
  | destroy

/-- What an operation returns, and the calls that it makes. -/
structure Reply where
  value : UInt64
  calls : List HeapCall
  deriving DecidableEq

variable (platform : Platform)

/-- One operation; a destroyed handle counts as null. -/
def perform (handle : Option Arena) : Operation → Option Arena × Reply
  | .alloc size alignment answer =>
      let result := topoArenaAlloc platform handle size alignment answer
      (result.1,
        { value := result.2
          calls := match handle with
            | none => []
            | some arena =>
                if size = 0 then []
                else (arena.growth size (platform.effectiveAlign alignment)).toList.map
                  fun capacity => .malloc capacity answer })
  | .reset =>
      (topoArenaReset handle,
        { value := 0
          calls := match handle with
            | none => []
            | some arena => (arena.pointers.drop 1).map .free })
  | .bytesUsed => (handle, { value := (handle.map Arena.bytesUsed).getD 0, calls := [] })
  | .capacity => (handle, { value := (handle.map Arena.totalCapacity).getD 0, calls := [] })
  | .destroy =>
      (none,
        { value := 0
          calls := match handle with
            | none => []
            | some arena => arena.pointers.map .free })

/-- What a sequence of operations lets its caller and the system's allocator see. -/
def replies : Option Arena → List Operation → List Reply
  | _, [] => []
  | handle, operation :: operations =>
      let after := perform platform handle operation
      after.2 :: replies after.1 operations

/-- The pointers that are held after some calls; only what is held may be freed. -/
def settle : List Address → List HeapCall → Option (List Address)
  | ledger, [] => some ledger
  | ledger, .malloc _ answer :: calls =>
      settle (if answer = 0 then ledger else answer :: ledger) calls
  | ledger, .free pointer :: calls =>
      if pointer ∈ ledger then settle (ledger.erase pointer) calls else none

namespace ArenaHeap

/-- The arena under a handle. -/
def arenaAt (heap : ArenaHeap) (handle : Nat) : Option Arena :=
  heap.arenas[handle]?.join.map (·.arena)

def calls (heap : ArenaHeap) : ArenaLabel → List HeapCall
  | .create requested answer => [.malloc (initialCapacity requested) answer]
  | .alloc handle size alignment answer =>
      (perform platform (heap.arenaAt handle) (.alloc size alignment answer)).2.calls
  | .reset handle => (perform platform (heap.arenaAt handle) .reset).2.calls
  | .destroy handle => (perform platform (heap.arenaAt handle) .destroy).2.calls

/-- The arena runtime with a ledger of what it holds. -/
def settled : Transition.Machine (ArenaHeap × List Address) ArenaLabel where
  initial state := state = ({ arenas := [] }, [])
  step state label := (state.1.step platform label).bind fun after =>
    (settle state.2 (state.1.calls platform label)).map fun ledger => (after, ledger)

/-- The pointers of the blocks of all arenas. -/
def held (heap : ArenaHeap) : List Address :=
  heap.arenas.flatMap fun entry => (entry.map (·.arena.pointers)).getD []

end ArenaHeap

/-- What all arenas have in common with a new one. -/
structure Arena.Made (arena : Arena) : Prop where
  nonzero : arena.defaultBlockSize ≠ 0
  blocks : ∀ block ∈ arena.blocks, block.data ≠ 0 ∧ arena.defaultBlockSize ≤ block.capacity
  first : ∀ block ∈ arena.blocks.head?, block.capacity = arena.defaultBlockSize

/-! ## One arena -/

section Alloc

variable {tracked : Tracked} {size alignment : UInt64} {answer : Address}

/-- A block of nonzero address never grants the null pointer. -/
theorem Block.Ok.next_ne_zero {block : Block} (ok : block.Ok) (nonnull : block.data ≠ 0)
    (power : IsAlignment alignment) (guard : size ≤ sizeMax - alignment) (nonzero : size ≠ 0)
    (room : block.hasRoom size alignment) : block.next alignment ≠ 0 := by
  obtain ⟨padding, pointer, -, -⟩ := ok.bump_toNat power guard nonzero room
  intro null
  rw [null, UInt64.toNat_zero] at pointer
  exact nonnull (UInt64.toNat_inj.mp (by rw [UInt64.toNat_zero]; omega))

theorem Arena.le_blockCapacity (arena : Arena) (minSize : UInt64) :
    minSize ≤ arena.blockCapacity minSize ∧
      arena.defaultBlockSize ≤ arena.blockCapacity minSize := by
  unfold Arena.blockCapacity
  split
  · rename_i larger
    exact ⟨UInt64.le_refl _, UInt64.le_of_lt larger⟩
  · rename_i enough
    exact ⟨UInt64.not_lt.mp enough, UInt64.le_refl _⟩

/-- A new block has room for the request that it is added for. -/
theorem Arena.blockCapacity_hasRoom (arena : Arena) (power : IsAlignment alignment)
    (guard : size ≤ sizeMax - alignment) :
    Block.hasRoom ⟨answer, arena.blockCapacity (size + alignment), 0⟩ size alignment := by
  have positive : 0 < alignment.toNat := by
    obtain ⟨exponent, -, power⟩ := power
    exact power ▸ Nat.two_pow_pos exponent
  have width := alignment.toNat_lt
  have below : alignment ≤ sizeMax := by
    rw [UInt64.le_iff_toNat_le, toNat_sizeMax]
    omega
  have gap := toNat_alignUp_sub answer power
  have small := padding_lt answer.toNat positive
  have covers := (arena.le_blockCapacity (size + alignment)).1
  rw [UInt64.le_iff_toNat_le, UInt64.toNat_sub_of_le _ _ below, toNat_sizeMax] at guard
  rw [UInt64.le_iff_toNat_le, UInt64.toNat_add] at covers
  simp only [Block.hasRoom, Block.next, UInt64.add_zero, UInt64.sub_zero]
  rw [UInt64.le_iff_toNat_le, UInt64.toNat_add, gap]
  clear below
  omega

/-- A request that cannot be served changes nothing. -/
theorem Arena.alloc_of_not_canServe {arena : Arena}
    (refused : arena.canServe size alignment answer = false) :
    arena.alloc size alignment answer = (arena, 0) ∧
      (answer ≠ 0 → arena.growth size alignment = none) := by
  unfold Arena.canServe at refused
  unfold Arena.alloc Arena.growth
  cases last : arena.blocks.getLast? with
  | none => exact ⟨rfl, fun _ => rfl⟩
  | some current =>
      simp only [last] at refused ⊢
      by_cases large : sizeMax - alignment < size
      · simp only [if_pos large]
        exact ⟨trivial, fun _ => trivial⟩
      · simp only [large, decide_false, Bool.not_false, Bool.true_and, Bool.or_eq_false_iff,
          decide_eq_false_iff_not, not_not] at refused
        obtain ⟨full, rfl⟩ := refused
        simp only [if_neg large, if_neg full]
        exact ⟨rfl, fun present => absurd rfl present⟩

/-- A request that can be served is not answered with null. -/
theorem Tracked.Ok.alloc_ne_zero (ok : tracked.Ok) (made : tracked.arena.Made)
    (power : IsAlignment alignment) (nonzero : size ≠ 0)
    (fits : ∀ capacity, tracked.arena.growth size alignment = some capacity →
      answer = 0 ∨ answer.toNat + capacity.toNat ≤ 2 ^ 64)
    (serves : tracked.arena.canServe size alignment answer = true) :
    (tracked.arena.alloc size alignment answer).2 ≠ 0 := by
  unfold Arena.canServe at serves
  unfold Arena.growth at fits
  unfold Arena.alloc
  cases last : tracked.arena.blocks.getLast? with
  | none => simp [last] at serves
  | some current =>
      have member := List.mem_of_getLast? last
      simp only [last, Bool.and_eq_true, Bool.not_eq_true', decide_eq_false_iff_not,
        Bool.or_eq_true, decide_eq_true_eq] at serves fits ⊢
      obtain ⟨small, serves⟩ := serves
      have guard := UInt64.not_lt.mp small
      rw [if_neg small]
      rw [if_neg small] at fits
      split
      · rename_i room
        exact (ok.blocks current member).next_ne_zero (made.blocks current member).1 power guard
          nonzero room
      · rename_i full
        have present := serves.resolve_left full
        rw [if_neg full] at fits
        have room : Block.hasRoom
            ⟨answer, tracked.arena.blockCapacity (size + alignment), 0⟩ size alignment :=
          tracked.arena.blockCapacity_hasRoom power guard
        have newOk : Block.Ok ⟨answer, tracked.arena.blockCapacity (size + alignment), 0⟩ :=
          ⟨UInt64.zero_le, (fits _ rfl).resolve_left present⟩
        have granted := newOk.next_ne_zero present power guard nonzero room
        have enough := UInt64.not_lt.mpr room
        simp only [Block.next, UInt64.add_zero, UInt64.sub_zero] at granted enough
        simp only [Arena.allocNewBlock, Arena.addBlock, if_neg present, List.getLast?_concat,
          if_neg enough]
        exact granted

/-- An allocation keeps the blocks there are, and adds the one that it gets from `malloc`. -/
theorem Arena.alloc_blocks (arena : Arena) (size alignment : UInt64) (answer : Address) :
    (arena.alloc size alignment answer).1.defaultBlockSize = arena.defaultBlockSize ∧
      (arena.alloc size alignment answer).1.blocks.map (fun block => (block.data, block.capacity)) =
        arena.blocks.map (fun block => (block.data, block.capacity)) ++
          ((arena.growth size alignment).filter fun _ => answer ≠ 0).toList.map
            fun capacity => (answer, capacity) := by
  have last_same (arena : Arena) (current : Block) (used : UInt64)
      (last : arena.blocks.getLast? = some current) :
      (arena.setLast { current with used }).blocks.map (fun block => (block.data, block.capacity)) =
        arena.blocks.map (fun block => (block.data, block.capacity)) := by
    obtain ⟨before, split⟩ := List.getLast?_eq_some_iff.mp last
    simp [Arena.setLast, split]
  unfold Arena.alloc Arena.growth
  cases last : arena.blocks.getLast? with
  | none => simp
  | some current =>
      dsimp only
      split
      · simp
      · split
        · refine ⟨rfl, (last_same arena current _ last).trans ?_⟩
          simp
        · unfold Arena.allocNewBlock Arena.addBlock
          by_cases absent : answer = 0
          · simp [absent]
          · simp only [if_neg absent, List.getLast?_concat]
            split
            · simp [absent, Option.filter]
            · refine ⟨rfl, (last_same _ ⟨answer, arena.blockCapacity (size + alignment), 0⟩ _
                (List.getLast?_concat ..)).trans ?_⟩
              simp [absent, Option.filter]

end Alloc

theorem Arena.alloc_pointers (arena : Arena) (size alignment : UInt64) (answer : Address) :
    (arena.alloc size alignment answer).1.pointers =
      arena.pointers ++
        if answer ≠ 0 ∧ (arena.growth size alignment).isSome then [answer] else [] := by
  have same := congrArg (List.map Prod.fst) (arena.alloc_blocks size alignment answer).2
  rw [List.map_append, List.map_map, List.map_map, List.map_map] at same
  refine same.trans (congrArg (arena.pointers ++ ·) ?_)
  cases arena.growth size alignment with
  | none => simp
  | some capacity => by_cases absent : answer = 0 <;> simp [absent, Option.filter]

theorem Arena.growth_eq {arena : Arena} {size alignment capacity : UInt64}
    (grows : arena.growth size alignment = some capacity) :
    capacity = arena.blockCapacity (size + alignment) ∧ arena.blocks ≠ [] := by
  unfold Arena.growth at grows
  split at grows
  · cases grows
  · rename_i last
    dsimp only at grows
    split at grows
    · cases grows
    · split at grows <;> cases grows
      exact ⟨rfl, fun empty => by simp [empty] at last⟩

/-- A reset keeps the first block. -/
theorem Arena.pointers_reset (arena : Arena) : arena.reset.pointers = arena.pointers.take 1 := by
  unfold Arena.reset Arena.pointers
  cases arena.blocks <;> rfl

theorem Arena.pointers_split (arena : Arena) :
    arena.pointers.Perm (arena.pointers.drop 1 ++ arena.reset.pointers) := by
  rw [arena.pointers_reset]
  exact .trans (by rw [List.take_append_drop]) List.perm_append_comm

namespace Arena.Made

variable {arena : Arena}

theorem create (requested : UInt64) (answer : Address) :
    (topoArenaCreate requested answer).Made := by
  have nonzero : initialCapacity requested ≠ 0 := by
    unfold initialCapacity
    split
    · decide
    · assumption
  unfold topoArenaCreate Arena.new Arena.addBlock
  by_cases absent : answer = 0
  · simp only [if_pos absent]
    exact ⟨nonzero, nofun, nofun⟩
  · simp only [if_neg absent]
    refine ⟨nonzero, ?_, ?_⟩
    · simp [Arena.blockCapacity, absent]
    · simp [Arena.blockCapacity]

/-- What depends on the places and the capacities of the blocks only. -/
theorem of_blocks (made : arena.Made) {after : Arena}
    (default : after.defaultBlockSize = arena.defaultBlockSize) (more : List (Address × UInt64))
    (grown : more ≠ [] → arena.blocks ≠ [])
    (large : ∀ block ∈ more, block.1 ≠ 0 ∧ arena.defaultBlockSize ≤ block.2)
    (blocks : after.blocks.map (fun block => (block.data, block.capacity)) =
      arena.blocks.map (fun block => (block.data, block.capacity)) ++ more) : after.Made := by
  refine ⟨by rw [default]; exact made.nonzero, fun block member => ?_, fun block first => ?_⟩
  · have inside : (block.data, block.capacity) ∈
        after.blocks.map fun block => (block.data, block.capacity) := List.mem_map_of_mem member
    rw [blocks] at inside
    rw [default]
    rcases List.mem_append.mp inside with old | new
    · obtain ⟨other, member, same⟩ := List.mem_map.mp old
      obtain ⟨data, capacity⟩ := Prod.mk.inj same
      rw [← data, ← capacity]
      exact made.blocks other member
    · exact large _ new
  · have heads := congrArg List.head? blocks
    rw [List.head?_map, Option.mem_def.mp first, Option.map_some] at heads
    rw [default]
    cases inside : arena.blocks with
    | nil =>
        rw [inside] at heads grown
        have none : more = [] := by
          by_contra some
          exact grown some rfl
        rw [none] at heads
        cases heads
    | cons head rest =>
        rw [inside] at heads
        obtain ⟨-, capacity⟩ := Prod.mk.inj (Option.some.inj heads)
        rw [capacity]
        exact made.first head (by rw [inside]; rfl)

theorem alloc (made : arena.Made) (size alignment : UInt64) (answer : Address) :
    (arena.alloc size alignment answer).1.Made := by
  obtain ⟨default, blocks⟩ := arena.alloc_blocks size alignment answer
  refine made.of_blocks default _ (fun some => ?_) (fun block member => ?_) blocks
  · cases grows : arena.growth size alignment with
    | none => simp [grows] at some
    | some capacity => exact (Arena.growth_eq grows).2
  · obtain ⟨capacity, inside, rfl⟩ := List.mem_map.mp member
    obtain ⟨grows, absent⟩ := Option.filter_eq_some_iff.mp (Option.mem_toList.mp inside)
    obtain ⟨rfl, -⟩ := Arena.growth_eq grows
    exact ⟨by simpa using absent, (arena.le_blockCapacity _).2⟩

/-- A reset arena is a new one over its first block. -/
theorem reset_eq (made : arena.Made) :
    arena.reset = topoArenaCreate arena.defaultBlockSize
      ((arena.blocks.head?.map (·.data)).getD 0) := by
  have capacity : initialCapacity arena.defaultBlockSize = arena.defaultBlockSize :=
    if_neg made.nonzero
  unfold topoArenaCreate Arena.new Arena.addBlock Arena.reset
  rw [capacity]
  cases blocks : arena.blocks with
  | nil => simp
  | cons first rest =>
      have whole := made.first first (by rw [blocks]; rfl)
      have present := (made.blocks first (by rw [blocks]; exact List.mem_cons_self)).1
      simp [Arena.blockCapacity, present, ← whole]

theorem reset (made : arena.Made) : arena.reset.Made := by
  rw [made.reset_eq]
  exact create _ _

end Arena.Made

/-! ## The ledger -/

/-- What is held can be freed. -/
theorem settle_free {freed rest ledger : List Address} (holds : ledger.Perm (freed ++ rest)) :
    ∃ after, settle ledger (freed.map .free) = some after ∧ after.Perm rest := by
  induction freed generalizing ledger with
  | nil => exact ⟨ledger, rfl, holds⟩
  | cons pointer freed ih =>
      have member : pointer ∈ ledger := holds.mem_iff.mpr List.mem_cons_self
      obtain ⟨after, settled, left⟩ := ih (List.cons_perm_iff_perm_erase.mp holds.symm).2.symm
      refine ⟨after, ?_, left⟩
      rw [List.map_cons, settle, if_pos member]
      exact settled

namespace ArenaHeap

/-- The ledger holds the blocks of all arenas, and these are distinct. -/
structure Settled (heap : ArenaHeap) (ledger : List Address) : Prop where
  ok : heap.Ok
  made : ∀ tracked ∈ heap.live, tracked.arena.Made
  holds : ledger.Perm heap.held
  distinct : heap.held.Nodup

variable {platform} {heap after : ArenaHeap} {ledger : List Address} {handle : Nat}
  {tracked : Tracked}

theorem arenaAt_eq (present : heap.arenas[handle]? = some (some tracked)) :
    heap.arenaAt handle = some tracked.arena := by
  rw [arenaAt, present]
  rfl

/-- Another entry changes what is held from the arena under the handle. -/
theorem held_put (present : heap.arenas[handle]? = some (some tracked)) :
    ∃ others, heap.held.Perm (tracked.arena.pointers ++ others) ∧ ∀ entry : Option Tracked,
      (heap.put handle entry).held.Perm ((entry.map (·.arena.pointers)).getD [] ++ others) := by
  obtain ⟨inside, here⟩ := List.getElem?_eq_some_iff.mp present
  let pointers (entry : Option Tracked) : List Address :=
    (entry.map (·.arena.pointers)).getD []
  have move (front back : List (Option Tracked)) (entry : Option Tracked) :
      ((front ++ entry :: back).flatMap pointers).Perm
        (pointers entry ++ (front.flatMap pointers ++ back.flatMap pointers)) := by
    rw [List.flatMap_append, List.flatMap_cons]
    exact List.perm_append_comm_assoc ..
  refine ⟨(heap.arenas.take handle).flatMap pointers ++
    (heap.arenas.drop (handle + 1)).flatMap pointers, ?_, fun entry => ?_⟩
  · have split := List.take_append_drop handle heap.arenas
    rw [List.drop_eq_getElem_cons inside, here] at split
    have moved := move (heap.arenas.take handle) (heap.arenas.drop (handle + 1)) (some tracked)
    rw [split] at moved
    exact moved
  · unfold held put
    rw [List.set_eq_take_append_cons_drop, if_pos inside]
    exact move ..

theorem mem_held {pointer : Address} :
    pointer ∈ heap.held ↔ ∃ tracked ∈ heap.live, ∃ block ∈ tracked.arena.blocks,
      block.data = pointer := by
  unfold held
  rw [List.mem_flatMap]
  constructor
  · rintro ⟨entry, member, inside⟩
    cases entry with
    | none => cases inside
    | some tracked => exact ⟨tracked, mem_live.mpr member, List.mem_map.mp inside⟩
  · rintro ⟨tracked, member, inside⟩
    exact ⟨some tracked, mem_live.mp member, List.mem_map.mpr inside⟩

/-- A fresh block is none of those that are held. -/
theorem Settled.not_held (settled : heap.Settled ledger) {capacity : UInt64} {answer : Address}
    (positive : capacity ≠ 0) (fresh : heap.Fresh capacity answer) (present : answer ≠ 0) :
    answer ∉ heap.held := by
  intro member
  obtain ⟨tracked, live, block, inside, rfl⟩ := mem_held.mp member
  have made := settled.made tracked live
  have apart := (fresh.resolve_left present).2 tracked live block inside
  have large := UInt64.le_iff_toNat_le.mp (made.blocks block inside).2
  have size : 0 < tracked.arena.defaultBlockSize.toNat :=
    Nat.pos_of_ne_zero fun zero => made.nonzero (UInt64.toNat_inj.mp zero)
  have some_byte : 0 < capacity.toNat :=
    Nat.pos_of_ne_zero fun zero => positive (UInt64.toNat_inj.mp zero)
  unfold Apart at apart
  omega

theorem Settled.put (settled : heap.Settled ledger) (handle : Nat) {entry : Option Tracked}
    {now : List Address} (ok : (heap.put handle entry).Ok)
    (entryMade : ∀ tracked ∈ entry, tracked.arena.Made)
    (holds : now.Perm (heap.put handle entry).held) (distinct : now.Nodup) :
    (heap.put handle entry).Settled now := by
  refine ⟨ok, fun tracked member => ?_, holds, holds.nodup distinct⟩
  rcases List.mem_or_eq_of_mem_set (mem_live.mp member) with old | new
  · exact settled.made tracked (mem_live.mpr old)
  · exact entryMade tracked new.symm

/-- Blocks that are dropped are freed. -/
theorem Settled.drop (settled : heap.Settled ledger)
    (present : heap.arenas[handle]? = some (some tracked)) {entry : Option Tracked}
    (ok : (heap.put handle entry).Ok) (entryMade : ∀ tracked ∈ entry, tracked.arena.Made)
    {freed : List Address}
    (split : tracked.arena.pointers.Perm (freed ++ (entry.map (·.arena.pointers)).getD [])) :
    ∃ now, settle ledger (freed.map .free) = some now ∧ (heap.put handle entry).Settled now ∧
      ledger.Perm (freed ++ now) := by
  obtain ⟨others, before, after⟩ := held_put present
  have whole : ledger.Perm (freed ++ ((entry.map (·.arena.pointers)).getD [] ++ others)) := by
    rw [← List.append_assoc]
    exact (settled.holds.trans before).trans (split.append_right others)
  obtain ⟨now, frees, left⟩ := settle_free whole
  have nodup : ledger.Nodup := settled.holds.symm.nodup settled.distinct
  have holds := left.trans (after entry).symm
  have rest : ledger.Perm (freed ++ now) := whole.trans (left.symm.append_left freed)
  have distinct : now.Nodup := (List.nodup_append.mp (rest.nodup nodup)).2.1
  exact ⟨now, frees, settled.put handle ok entryMade holds distinct, rest⟩

/-- What an allocation gets from `malloc` is held. -/
theorem Settled.alloc (settled : heap.Settled ledger) {size alignment : UInt64} {answer : Address}
    (step : heap.step platform (.alloc handle size alignment answer) = some after) :
    ∃ now, settle ledger (heap.calls platform (.alloc handle size alignment answer)) = some now ∧
      after.Settled now := by
  have ok := settled.ok.step step
  simp only [ArenaHeap.step] at step
  split at step
  · rename_i tracked present
    split at step <;> cases step
    rename_i guards
    have made := settled.made tracked (mem_live.mpr (List.mem_of_getElem? present))
    obtain ⟨others, before, put⟩ := held_put present
    have nodup := settled.holds.symm.nodup settled.distinct
    have whole := settled.holds.trans before
    simp only [calls, arenaAt_eq present, perform]
    by_cases empty : size = 0
    · have held := (put (some (tracked.grant size (platform.effectiveAlign alignment) tracked.arena
        0))).symm
      simp only [topoArenaAlloc, if_pos empty, Option.map_some] at ok ⊢
      refine ⟨ledger, rfl, settled.put handle ok ?_ (whole.trans held) nodup⟩
      rintro later same
      obtain rfl := Option.some.inj same
      exact made
    · simp only [topoArenaAlloc, if_neg empty, Option.map_some] at ok ⊢
      have pointers := tracked.arena.alloc_pointers size (platform.effectiveAlign alignment) answer
      have entryMade := made.alloc size (platform.effectiveAlign alignment) answer
      have held := (put (some (tracked.grant size (platform.effectiveAlign alignment)
        (tracked.arena.alloc size (platform.effectiveAlign alignment) answer).1
        (tracked.arena.alloc size (platform.effectiveAlign alignment) answer).2))).symm
      simp only [Option.map_some, Option.getD_some, Tracked.grant, pointers] at held
      by_cases added : answer ≠ 0 ∧
          (tracked.arena.growth size (platform.effectiveAlign alignment)).isSome
      · obtain ⟨absent, grows⟩ := added
        obtain ⟨capacity, grows⟩ := Option.isSome_iff_exists.mp grows
        obtain ⟨rfl, -⟩ := Arena.growth_eq grows
        have positive : tracked.arena.blockCapacity
            (size + platform.effectiveAlign alignment) ≠ 0 := by
          intro zero
          have large := (tracked.arena.le_blockCapacity
            (size + platform.effectiveAlign alignment)).2
          rw [zero] at large
          exact made.nonzero (UInt64.le_zero_iff.mp large)
        have fresh := settled.not_held positive guards.2 absent
        refine ⟨answer :: ledger, by simp [grows, settle, absent], settled.put handle ok ?_ ?_ ?_⟩
        · rintro later same
          obtain rfl := Option.some.inj same
          exact entryMade
        · rw [if_pos ⟨absent, by rw [grows]; rfl⟩, List.append_assoc] at held
          refine (whole.cons answer).trans (.trans ?_ held)
          exact List.perm_middle.symm
        · exact List.nodup_cons.mpr ⟨fun member => fresh (settled.holds.mem_iff.mp member), nodup⟩
      · rw [if_neg added, List.append_nil] at held
        refine ⟨ledger, ?_, settled.put handle ok ?_ (whole.trans held) nodup⟩
        · cases grows : tracked.arena.growth size (platform.effectiveAlign alignment) with
          | none => rfl
          | some capacity =>
              have absent : answer = 0 := by
                by_contra present
                exact added ⟨present, by rw [grows]; rfl⟩
              simp [settle, absent]
        · rintro later same
          obtain rfl := Option.some.inj same
          exact entryMade
  · cases step

/-- Every call keeps the ledger in order: what it frees is held. -/
theorem Settled.step (settled : heap.Settled ledger) {label : ArenaLabel}
    (step : heap.step platform label = some after) :
    ∃ now, settle ledger (heap.calls platform label) = some now ∧ after.Settled now := by
  cases label with
  | alloc handle size alignment answer => exact settled.alloc step
  | create requested answer =>
      have ok := settled.ok.step step
      simp only [ArenaHeap.step] at step
      split at step <;> cases step
      rename_i fresh
      have nodup := settled.holds.symm.nodup settled.distinct
      have pointers : (topoArenaCreate requested answer).pointers =
          if answer = 0 then [] else [answer] := by
        unfold topoArenaCreate Arena.new Arena.addBlock
        by_cases absent : answer = 0 <;> simp [absent, Arena.pointers]
      have held : ArenaHeap.held { arenas := heap.arenas ++
          [some { arena := topoArenaCreate requested answer, granted := [] }] } =
            heap.held ++ if answer = 0 then [] else [answer] := by
        simp [ArenaHeap.held, pointers]
      have made (tracked : Tracked) (member : tracked ∈ ArenaHeap.live { arenas := heap.arenas ++
          [some { arena := topoArenaCreate requested answer, granted := [] }] }) :
            tracked.arena.Made := by
        rcases List.mem_append.mp (mem_live.mp member) with old | new
        · exact settled.made tracked (mem_live.mpr old)
        · obtain rfl : tracked = _ := by simpa using new
          exact .create requested answer
      by_cases absent : answer = 0
      · rw [if_pos absent, List.append_nil] at held
        refine ⟨ledger, by simp [calls, settle, absent], ok, made, ?_, ?_⟩
        · rw [held]
          exact settled.holds
        · rw [held]
          exact settled.distinct
      · rw [if_neg absent] at held
        have positive : initialCapacity requested ≠ 0 := by
          unfold initialCapacity
          split
          · decide
          · assumption
        have new := settled.not_held positive fresh absent
        have holds : (answer :: ledger).Perm (heap.held ++ [answer]) :=
          (settled.holds.cons answer).trans (List.perm_append_singleton ..).symm
        refine ⟨answer :: ledger, by simp [calls, settle, absent], ok, made, ?_, ?_⟩
        · rw [held]
          exact holds
        · rw [held]
          refine holds.nodup (List.nodup_cons.mpr ⟨fun member => new ?_, nodup⟩)
          exact settled.holds.mem_iff.mp member
  | reset handle =>
      have ok := settled.ok.step step
      simp only [ArenaHeap.step] at step
      split at step <;> cases step
      rename_i tracked present
      have made := settled.made tracked (mem_live.mpr (List.mem_of_getElem? present))
      obtain ⟨now, frees, kept, -⟩ := settled.drop present ok
        (fun later same => Option.some.inj same ▸ made.reset) tracked.arena.pointers_split
      refine ⟨now, ?_, kept⟩
      simpa only [calls, arenaAt_eq present, perform] using frees
  | destroy handle =>
      have ok := settled.ok.step step
      simp only [ArenaHeap.step] at step
      split at step <;> cases step
      rename_i tracked present
      have split : tracked.arena.pointers.Perm (tracked.arena.pointers ++ []) := by
        rw [List.append_nil]
      obtain ⟨now, frees, kept, -⟩ := settled.drop present ok
        (fun later same => by cases same) split
      refine ⟨now, ?_, kept⟩
      simpa only [calls, arenaAt_eq present, perform] using frees

theorem settled_of_reachable
    (reach : (settled platform).Reachable Transition.Machine.anyStep (heap, ledger)) :
    heap.Settled ledger := by
  let inv (state : ArenaHeap × List Address) : Prop := state.1.Settled state.2
  have every : inv (heap, ledger) := by
    refine reach.invariant ?_ fun before label after _ holds _ step => ?_
    · rintro _ rfl
      exact ⟨nofun, nofun, .refl _, .nil⟩
    · obtain ⟨next, stepped, settles⟩ := Option.bind_eq_some_iff.mp step
      obtain ⟨now, known, rfl⟩ := Option.map_eq_some_iff.mp settles
      obtain ⟨ledger, expected, kept⟩ := Settled.step holds stepped
      obtain rfl := Option.some.inj (known.symm.trans expected)
      exact kept
  exact every

/-- The arenas of every run have a ledger. -/
theorem exists_settled (reach : (machine platform).Reachable Transition.Machine.anyStep heap) :
    ∃ ledger, heap.Settled ledger := by
  let inv (heap : ArenaHeap) : Prop := ∃ ledger, heap.Settled ledger
  have every : inv heap := by
    refine reach.invariant ?_ fun before label after _ holds _ step => ?_
    · rintro _ rfl
      exact ⟨[], nofun, nofun, .refl _, .nil⟩
    · obtain ⟨ledger, holds⟩ := holds
      obtain ⟨now, -, kept⟩ := holds.step step
      exact ⟨now, kept⟩
  exact every

/-- An allocation that returns null is as if it had not been made. -/
theorem Settled.alloc_null (settled : heap.Settled ledger)
    (present : heap.arenas[handle]? = some (some tracked)) {size alignment : UInt64}
    {answer : Address}
    (step : heap.step platform (.alloc handle size alignment answer) = some after)
    (null : (topoArenaAlloc platform (some tracked.arena) size alignment answer).2 = 0) :
    (topoArenaAlloc platform (some tracked.arena) size alignment answer).1 = some tracked.arena ∧
      after = heap ∧
      settle ledger (heap.calls platform (.alloc handle size alignment answer)) = some ledger := by
  have live := mem_live.mpr (List.mem_of_getElem? present)
  have same : heap.put handle (some tracked) = heap := by
    obtain ⟨inside, here⟩ := List.getElem?_eq_some_iff.mp present
    unfold ArenaHeap.put
    rw [← here, List.set_getElem_self]
  simp only [ArenaHeap.step, present] at step
  split at step <;> cases step
  rename_i guards
  simp only [calls, arenaAt_eq present, perform]
  by_cases empty : size = 0
  · simp only [topoArenaAlloc, if_pos empty]
    exact ⟨trivial, same, rfl⟩
  · simp only [topoArenaAlloc, if_neg empty] at null ⊢
    have power : IsAlignment (platform.effectiveAlign alignment) := by
      unfold Platform.effectiveAlign
      split
      · exact platform.isAlignment
      · exact guards.1.resolve_left ‹_›
    have refused : tracked.arena.canServe size (platform.effectiveAlign alignment) answer =
        false := by
      by_contra serves
      refine (settled.ok tracked live).alloc_ne_zero (settled.made tracked live) power empty
        (fun capacity grows => ?_) (Bool.not_eq_false _ ▸ serves) null
      obtain ⟨rfl, -⟩ := Arena.growth_eq grows
      exact guards.2.imp_right And.left
    obtain ⟨unchanged, silent⟩ := Arena.alloc_of_not_canServe refused
    rw [unchanged]
    refine ⟨rfl, same, ?_⟩
    by_cases absent : answer = 0
    · cases tracked.arena.growth size (platform.effectiveAlign alignment) <;> simp [settle, absent]
    · rw [silent absent]
      rfl

variable (platform) in
/-- A reset frees every later block, once. -/
theorem Settled.reset_frees (settled : heap.Settled ledger)
    (present : heap.arenas[handle]? = some (some tracked)) :
    ∃ now, settle ledger (heap.calls platform (.reset handle)) = some now ∧
      ledger.Perm (tracked.arena.pointers.drop 1 ++ now) ∧ ledger.Nodup := by
  have live := mem_live.mpr (List.mem_of_getElem? present)
  obtain ⟨others, before, -⟩ := held_put present
  have whole : ledger.Perm (tracked.arena.pointers.drop 1 ++
      (tracked.arena.reset.pointers ++ others)) := by
    rw [← List.append_assoc]
    exact (settled.holds.trans before).trans (tracked.arena.pointers_split.append_right others)
  obtain ⟨now, frees, left⟩ := settle_free whole
  refine ⟨now, ?_, whole.trans (left.symm.append_left _), settled.holds.symm.nodup settled.distinct⟩
  simpa only [calls, arenaAt_eq present, perform] using frees

/-- **Failed allocations and resets.** In every run, an allocation that returns null changes
nothing, and a reset arena is a new one over its first block, with every later block freed once; no
call frees what is not held. -/
theorem failed_alloc_and_reset (platform : Platform)
    (reach : (settled platform).Reachable Transition.Machine.anyStep (heap, ledger))
    (present : heap.arenas[handle]? = some (some tracked)) :
    (∀ size alignment answer after,
      heap.step platform (.alloc handle size alignment answer) = some after →
        (topoArenaAlloc platform (some tracked.arena) size alignment answer).2 = 0 →
          let kept := (topoArenaAlloc platform (some tracked.arena) size alignment answer).1
          kept = some tracked.arena ∧
            (∀ operations, replies platform kept operations =
              replies platform (some tracked.arena) operations) ∧
            (settled platform).step (heap, ledger) (.alloc handle size alignment answer) =
              some (heap, ledger)) ∧
      (let first := tracked.arena.blocks.head?
        let fresh := topoArenaCreate tracked.arena.defaultBlockSize ((first.map (·.data)).getD 0)
        (∀ operations, replies platform (topoArenaReset (some tracked.arena)) operations =
            replies platform (some fresh) operations) ∧
          tracked.arena.reset.bytesUsed = 0 ∧
          tracked.arena.reset.totalCapacity = (first.map (·.capacity)).getD 0 ∧
          ∃ now, (settled platform).step (heap, ledger) (.reset handle) =
              some (heap.put handle (some { arena := fresh, granted := [] }), now) ∧
            ledger.Perm ((tracked.arena.blocks.drop 1).map (·.data) ++ now) ∧ ledger.Nodup) ∧
      ∀ label after, heap.step platform label = some after →
        (settle ledger (heap.calls platform label)).isSome := by
  have inv := settled_of_reachable reach
  have live := mem_live.mpr (List.mem_of_getElem? present)
  refine ⟨fun size alignment answer after step null => ?_, ?_, fun label after step => ?_⟩
  · obtain ⟨unchanged, rfl, settles⟩ := inv.alloc_null present step null
    refine ⟨unchanged, fun operations => by rw [unchanged], ?_⟩
    simp only [settled, step, settles, Option.bind_some, Option.map_some]
  · have equal := (inv.made tracked live).reset_eq
    intro first fresh
    obtain ⟨now, frees, split, nodup⟩ := inv.reset_frees platform present
    refine ⟨fun operations => ?_, ?_, ?_, now, ?_, ?_, nodup⟩
    · rw [topoArenaReset, Option.map_some, equal]
    · unfold Arena.bytesUsed Arena.reset
      cases tracked.arena.blocks <;> simp
    · simp only [first]
      unfold Arena.totalCapacity Arena.reset
      cases tracked.arena.blocks <;> simp
    · simp only [settled, ArenaHeap.step, present, topoArenaReset, Option.map_some, equal, frees,
        Option.bind_some, first, fresh]
    · rw [List.map_drop]
      exact split
  · obtain ⟨now, settles, -⟩ := inv.step step
    rw [settles]
    rfl

/-- An arena that grew by one block, and is reset to its first one. -/
theorem failed_alloc_and_reset_grow :
    let grown : Tracked :=
      { arena := { blocks := [⟨4096, 64, 0⟩, ⟨8200, 164, 156⟩], defaultBlockSize := 64 }
        granted := [⟨8256, 100, 64⟩] }
    (settled Platform.sixteen).Reachable Transition.Machine.anyStep
        ({ arenas := [some grown] }, [8200, 4096]) ∧
      ∀ operations, replies Platform.sixteen (topoArenaReset (some grown.arena)) operations =
        replies Platform.sixteen (some (topoArenaCreate 64 4096)) operations := by
  intro grown
  obtain ⟨_, reach, rfl⟩ := (settled Platform.sixteen).exists_reachable
    (fun state => state = ({ arenas := [some grown] }, [8200, 4096]))
    [.create 64 4096, .alloc 0 100 64 8200] rfl (by decide)
  have present : ({ arenas := [some grown] } : ArenaHeap).arenas[0]? = some (some grown) := rfl
  exact ⟨reach, (failed_alloc_and_reset Platform.sixteen reach present).2.1.1⟩

end ArenaHeap

end Runtime
end TopoLlvm
