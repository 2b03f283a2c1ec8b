import TopoLlvm.Runtime.Arena

/-!
# Memory safety of the bump arena

An allocation adds a block or not, and then bumps the last block or not.  Blocks keep apart by the
freshness of what `malloc` returns; within a block every new range starts where the used part of
the block ends.
-/

namespace TopoLlvm
namespace Runtime

open WordAlign

theorem toNat_sizeMax : sizeMax.toNat = 2 ^ 64 - 1 := rfl

/-- A block is used within its capacity and does not wrap the address space. -/
structure Block.Ok (block : Block) : Prop where
  used_le : block.used ≤ block.capacity
  fits : block.data.toNat + block.capacity.toNat ≤ 2 ^ 64

/-- The bytes of a grant lie in the used part of a block. -/
structure Grant.Within (grant : Grant) (block : Block) : Prop where
  start : block.data.toNat ≤ grant.pointer.toNat
  stop : grant.pointer.toNat + grant.size.toNat ≤ block.data.toNat + block.used.toNat

/-- Two grants have no byte in common. -/
def Grant.Apart (left right : Grant) : Prop :=
  Runtime.Apart left.pointer left.size right.pointer right.size

/-- Two blocks have no byte in common. -/
def Block.Apart (left right : Block) : Prop :=
  Runtime.Apart left.data left.capacity right.data right.capacity

/-- The block after an allocation from it. -/
def Block.bump (block : Block) (size alignment : UInt64) : Block :=
  let addr := block.data + block.used
  { block with used := block.used + (alignUp addr alignment - addr + size) }

/-- The pointer that an allocation from the block returns. -/
def Block.next (block : Block) (alignment : UInt64) : Address :=
  alignUp (block.data + block.used) alignment

/-- The block has room for an allocation. -/
def Block.hasRoom (block : Block) (size alignment : UInt64) : Prop :=
  block.next alignment - (block.data + block.used) + size ≤ block.capacity - block.used

section Bump

variable {block : Block} {size alignment : UInt64}

/-- Where the room suffices nothing wraps. -/
theorem Block.Ok.bump_toNat (ok : block.Ok) (power : IsAlignment alignment)
    (guard : size ≤ sizeMax - alignment) (nonzero : size ≠ 0)
    (room : block.hasRoom size alignment) :
    ∃ padding, (block.next alignment).toNat = block.data.toNat + block.used.toNat + padding ∧
      (block.bump size alignment).used.toNat = block.used.toNat + padding + size.toNat ∧
      block.used.toNat + padding + size.toNat ≤ block.capacity.toNat := by
  obtain ⟨used, fits⟩ := ok
  have aligned := toNat_alignUp (block.data + block.used) power
  have gap := toNat_alignUp_sub (block.data + block.used) power
  have positive : 0 < alignment.toNat := by
    obtain ⟨exponent, -, power⟩ := power
    exact power ▸ Nat.two_pow_pos exponent
  have small := padding_lt (block.data + block.used).toNat positive
  have addr := UInt64.toNat_add block.data block.used
  have remaining := UInt64.toNat_sub_of_le _ _ used
  have below : alignment ≤ sizeMax := by
    rw [UInt64.le_iff_toNat_le, toNat_sizeMax]
    have := alignment.toNat_lt
    omega
  have bound := UInt64.toNat_sub_of_le _ _ below
  rw [UInt64.le_iff_toNat_le] at used guard
  rw [hasRoom, next, UInt64.le_iff_toNat_le, UInt64.toNat_add, gap, remaining] at room
  rw [bound, toNat_sizeMax] at guard
  have some_byte : 0 < size.toNat := Nat.pos_of_ne_zero fun zero =>
    nonzero (UInt64.toNat_inj.mp zero)
  have capacity := block.capacity.toNat_lt
  refine ⟨padding (block.data + block.used).toNat alignment.toNat, ?_, ?_, ?_⟩
  · rw [next, aligned]
    omega
  · rw [bump, UInt64.toNat_add, UInt64.toNat_add, gap]
    omega
  · omega

/-- Bumping keeps the block in order. -/
theorem Block.Ok.bump (ok : block.Ok) (power : IsAlignment alignment)
    (guard : size ≤ sizeMax - alignment) (nonzero : size ≠ 0)
    (room : block.hasRoom size alignment) : (block.bump size alignment).Ok := by
  obtain ⟨padding, -, used, bound⟩ := ok.bump_toNat power guard nonzero room
  refine ⟨?_, ok.fits⟩
  rw [UInt64.le_iff_toNat_le, used]
  exact bound

/-- What a block has granted stays in its used part. -/
theorem Grant.Within.bump {grant : Grant} (within : grant.Within block) (ok : block.Ok)
    (power : IsAlignment alignment) (guard : size ≤ sizeMax - alignment) (nonzero : size ≠ 0)
    (room : block.hasRoom size alignment) : grant.Within (block.bump size alignment) := by
  obtain ⟨padding, -, used, -⟩ := ok.bump_toNat power guard nonzero room
  have stop := within.stop
  refine ⟨within.start, ?_⟩
  rw [used]
  simp only [Block.bump]
  omega

end Bump

/-- Grants in blocks that are apart are apart. -/
theorem Grant.Within.apart {left right : Grant} {first second : Block}
    (inFirst : left.Within first) (inSecond : right.Within second) (firstOk : first.Ok)
    (secondOk : second.Ok) (apart : first.Apart second) : left.Apart right := by
  have firstUsed := UInt64.le_iff_toNat_le.mp firstOk.used_le
  have secondUsed := UInt64.le_iff_toNat_le.mp secondOk.used_le
  obtain ⟨start, stop⟩ := inFirst
  obtain ⟨otherStart, otherStop⟩ := inSecond
  unfold Block.Apart Runtime.Apart at apart
  unfold Grant.Apart Runtime.Apart
  omega

theorem Block.Apart.symm {left right : Block} (apart : left.Apart right) : right.Apart left :=
  Or.symm apart

/-- The invariant of an arena with the pointers granted since its last reset. -/
structure Tracked.Ok (tracked : Tracked) : Prop where
  blocks : ∀ block ∈ tracked.arena.blocks, block.Ok
  apart : tracked.arena.blocks.Pairwise Block.Apart
  aligned : ∀ grant ∈ tracked.granted, grant.alignment.toNat ∣ grant.pointer.toNat
  within : ∀ grant ∈ tracked.granted, ∃ block ∈ tracked.arena.blocks, grant.Within block
  disjoint : tracked.granted.Pairwise Grant.Apart

namespace Tracked.Ok

variable {tracked : Tracked}

/-- A fresh block keeps the arena in order. -/
theorem grow (ok : tracked.Ok) {minSize : UInt64} {answer : Address}
    (fits : answer.toNat + (tracked.arena.blockCapacity minSize).toNat ≤ 2 ^ 64)
    (fresh : ∀ block ∈ tracked.arena.blocks,
      Apart block.data block.capacity answer (tracked.arena.blockCapacity minSize))
    {grown : Arena} (added : tracked.arena.addBlock answer minSize = some grown) :
    Tracked.Ok { arena := grown, granted := tracked.granted } := by
  unfold Arena.addBlock at added
  split at added
  · cases added
  · cases added
    refine ⟨fun block member => ?_, ?_, ok.aligned, fun grant member => ?_, ok.disjoint⟩
    · rcases List.mem_append.mp member with old | new
      · exact ok.blocks block old
      · obtain rfl := List.mem_singleton.mp new
        exact ⟨UInt64.zero_le, fits⟩
    · refine List.pairwise_append.mpr ⟨ok.apart, List.pairwise_singleton _ _, ?_⟩
      intro block member other new
      obtain rfl := List.mem_singleton.mp new
      exact fresh block member
    · obtain ⟨block, old, within⟩ := ok.within grant member
      exact ⟨block, List.mem_append_left _ old, within⟩

/-- A bump of the last block, recorded as a grant, keeps the arena in order. -/
theorem bump (ok : tracked.Ok) {current : Block} {size alignment : UInt64}
    (last : tracked.arena.blocks.getLast? = some current) (power : IsAlignment alignment)
    (guard : size ≤ sizeMax - alignment) (nonzero : size ≠ 0)
    (room : current.hasRoom size alignment) :
    Tracked.Ok (tracked.grant size alignment
      (tracked.arena.setLast (current.bump size alignment)) (current.next alignment)) := by
  obtain ⟨before, split⟩ := List.getLast?_eq_some_iff.mp last
  have blocks := ok.blocks
  have apart := ok.apart
  have within := ok.within
  rw [split] at blocks apart within
  have currentOk := blocks current (by simp)
  have bumped := currentOk.bump power guard nonzero room
  have after : (tracked.arena.setLast (current.bump size alignment)).blocks =
      before ++ [current.bump size alignment] := by
    simp [Arena.setLast, split]
  have kept (grant : Grant) (member : grant ∈ tracked.granted) :
      ∃ block ∈ before ++ [current.bump size alignment], grant.Within block := by
    obtain ⟨block, old, inside⟩ := within grant member
    rcases List.mem_append.mp old with early | here
    · exact ⟨block, List.mem_append_left _ early, inside⟩
    · obtain rfl := List.mem_singleton.mp here
      exact ⟨_, by simp, inside.bump currentOk power guard nonzero room⟩
  obtain ⟨padding, pointer, used, bound⟩ := currentOk.bump_toNat power guard nonzero room
  have new : Grant.Within ⟨current.next alignment, size, alignment⟩
      (current.bump size alignment) := by
    refine ⟨?_, ?_⟩
    · rw [pointer]
      simp only [Block.bump]
      omega
    · rw [pointer, used]
      simp only [Block.bump]
      omega
  -- An earlier grant lies in another block, or below the used part that it found.
  have separate (grant : Grant) (member : grant ∈ tracked.granted) :
      Grant.Apart ⟨current.next alignment, size, alignment⟩ grant := by
    obtain ⟨block, old, inside⟩ := within grant member
    rcases List.mem_append.mp old with early | here
    · have far := (List.pairwise_append.mp apart).2.2 block early current (by simp)
      exact new.apart inside bumped (blocks block old) far.symm
    · obtain rfl := List.mem_singleton.mp here
      have stop := inside.stop
      right
      rw [pointer]
      omega
  refine ⟨fun block member => ?_, ?_, fun grant member => ?_, fun grant member => ?_, ?_⟩
  · simp only [grant, after] at member
    rcases List.mem_append.mp member with old | new
    · exact blocks block (List.mem_append_left _ old)
    · obtain rfl := List.mem_singleton.mp new
      exact bumped
  · simp only [grant, after]
    obtain ⟨early, -, far⟩ := List.pairwise_append.mp apart
    refine List.pairwise_append.mpr ⟨early, List.pairwise_singleton _ _, ?_⟩
    intro block member other here
    obtain rfl := List.mem_singleton.mp here
    exact far block member current (by simp)
  · simp only [Tracked.grant] at member
    split at member
    · exact ok.aligned grant member
    · rcases List.mem_cons.mp member with rfl | old
      · exact dvd_toNat_alignUp _ power
      · exact ok.aligned grant old
  · simp only [Tracked.grant, after] at member ⊢
    split at member
    · exact kept grant member
    · rcases List.mem_cons.mp member with rfl | old
      · exact ⟨_, by simp, new⟩
      · exact kept grant old
  · simp only [Tracked.grant]
    split
    · exact ok.disjoint
    · exact List.pairwise_cons.mpr ⟨separate, ok.disjoint⟩

/-- An allocation that adds a block keeps the arena in order. -/
theorem allocNewBlock (ok : tracked.Ok) {size alignment : UInt64} {answer : Address}
    (power : IsAlignment alignment) (guard : size ≤ sizeMax - alignment) (nonzero : size ≠ 0)
    (fits : answer.toNat + (tracked.arena.blockCapacity (size + alignment)).toNat ≤ 2 ^ 64)
    (fresh : ∀ block ∈ tracked.arena.blocks,
      Apart block.data block.capacity answer (tracked.arena.blockCapacity (size + alignment))) :
    Tracked.Ok (tracked.grant size alignment
      (tracked.arena.allocNewBlock size alignment answer).1
      (tracked.arena.allocNewBlock size alignment answer).2) := by
  unfold Arena.allocNewBlock
  cases added : tracked.arena.addBlock answer (size + alignment) with
  | none => exact ok
  | some grown =>
      have grownOk := ok.grow fits fresh added
      have newest : grown.blocks.getLast? =
          some ⟨answer, tracked.arena.blockCapacity (size + alignment), 0⟩ := by
        unfold Arena.addBlock at added
        split at added
        · cases added
        · cases added
          simp
      simp only [newest]
      split
      · exact grownOk
      · rename_i room
        have bumped := grownOk.bump newest power guard nonzero (by
          simpa [Block.hasRoom, Block.next] using UInt64.not_lt.mp room)
        simpa [Block.bump, Block.next, grant] using bumped

/-- An allocation keeps the arena in order, whatever `malloc` answers. -/
theorem alloc (ok : tracked.Ok) {size alignment : UInt64} {answer : Address}
    (power : IsAlignment alignment) (nonzero : size ≠ 0)
    (fresh : answer = 0 ∨
      answer.toNat + (tracked.arena.blockCapacity (size + alignment)).toNat ≤ 2 ^ 64 ∧
        ∀ block ∈ tracked.arena.blocks, Apart block.data block.capacity answer
          (tracked.arena.blockCapacity (size + alignment))) :
    Tracked.Ok (tracked.grant size alignment (tracked.arena.alloc size alignment answer).1
      (tracked.arena.alloc size alignment answer).2) := by
  unfold Arena.alloc
  cases last : tracked.arena.blocks.getLast? with
  | none => exact ok
  | some current =>
      simp only
      split
      · exact ok
      · rename_i small
        have guard := UInt64.not_lt.mp small
        split
        · rename_i room
          exact ok.bump last power guard nonzero room
        · rcases fresh with rfl | ⟨fits, fresh⟩
          · simpa [Arena.allocNewBlock, Arena.addBlock, grant] using ok
          · exact ok.allocNewBlock power guard nonzero fits fresh

/-- A reset keeps the first block and forgets the grants. -/
theorem reset (ok : tracked.Ok) : Tracked.Ok { arena := tracked.arena.reset, granted := [] } := by
  refine ⟨?_, ?_, nofun, nofun, .nil⟩
  · intro block member
    cases blocks : tracked.arena.blocks with
    | nil => simp [Arena.reset, blocks] at member
    | cons first rest =>
        obtain rfl : block = { first with used := 0 } := by
          simpa [Arena.reset, blocks] using member
        exact ⟨UInt64.zero_le, (ok.blocks first (by simp [blocks])).fits⟩
  · cases blocks : tracked.arena.blocks with
    | nil => simp [Arena.reset, blocks]
    | cons first rest => simp [Arena.reset, blocks]

/-- A new arena has a fresh block or none. -/
theorem create (requested : UInt64) (answer : Address)
    (fits : answer = 0 ∨ answer.toNat + (initialCapacity requested).toNat ≤ 2 ^ 64) :
    Tracked.Ok { arena := topoArenaCreate requested answer, granted := [] } := by
  refine ⟨?_, ?_, nofun, nofun, .nil⟩
  · intro block member
    simp only [topoArenaCreate, Arena.new, Arena.addBlock] at member
    split at member
    · cases member
    · rename_i nonnull
      obtain rfl := List.mem_singleton.mp member
      refine ⟨UInt64.zero_le, ?_⟩
      simpa [Arena.blockCapacity] using fits.resolve_left nonnull
  · simp only [topoArenaCreate, Arena.new, Arena.addBlock]
    split <;> simp

end Tracked.Ok

namespace ArenaHeap

/-- All arenas that have not been destroyed are in order. -/
def Ok (heap : ArenaHeap) : Prop := ∀ tracked ∈ heap.live, tracked.Ok

theorem mem_live {heap : ArenaHeap} {tracked : Tracked} :
    tracked ∈ heap.live ↔ some tracked ∈ heap.arenas := by
  simp [live]

theorem Ok.put {heap : ArenaHeap} (ok : heap.Ok) (handle : Nat) {entry : Option Tracked}
    (entryOk : ∀ tracked ∈ entry, tracked.Ok) : (heap.put handle entry).Ok := by
  intro tracked member
  rcases List.mem_or_eq_of_mem_set (mem_live.mp member) with old | new
  · exact ok tracked (mem_live.mpr old)
  · exact entryOk tracked new.symm

/-- Every call keeps all arenas in order. -/
theorem Ok.step {platform : Platform} {heap after : ArenaHeap} {label : ArenaLabel}
    (ok : heap.Ok) (step : heap.step platform label = some after) : after.Ok := by
  cases label with
  | create requested answer =>
      simp only [ArenaHeap.step] at step
      split at step <;> cases step
      rename_i fresh
      intro tracked member
      rcases List.mem_append.mp (mem_live.mp member) with old | new
      · exact ok tracked (mem_live.mpr old)
      · obtain rfl : tracked = _ := by simpa using new
        exact .create requested answer (fresh.imp_right And.left)
  | alloc handle size alignment answer =>
      simp only [ArenaHeap.step] at step
      split at step
      · rename_i tracked found
        split at step <;> cases step
        rename_i guards
        obtain ⟨power, fresh⟩ := guards
        have member := mem_live.mpr (List.mem_of_getElem? found)
        have trackedOk := ok tracked member
        refine ok.put handle fun later same => ?_
        by_cases empty : size = 0
        · subst empty
          obtain rfl : tracked = later := by
            simpa [topoArenaAlloc, Tracked.grant] using same
          exact trackedOk
        · have effective : IsAlignment (platform.effectiveAlign alignment) := by
            unfold Platform.effectiveAlign
            split
            · exact platform.isAlignment
            · exact power.resolve_left ‹_›
          simp only [topoArenaAlloc, if_neg empty, Option.map_some, Option.mem_def,
            Option.some.injEq] at same
          subst same
          exact trackedOk.alloc effective empty (fresh.imp_right fun fresh =>
            ⟨fresh.1, fresh.2 tracked member⟩)
      · cases step
  | reset handle =>
      simp only [ArenaHeap.step] at step
      split at step <;> cases step
      rename_i tracked found
      refine ok.put handle fun later same => ?_
      obtain rfl : _ = later := by simpa [topoArenaReset] using same
      exact (ok tracked (mem_live.mpr (List.mem_of_getElem? found))).reset
  | destroy handle =>
      simp only [ArenaHeap.step] at step
      split at step <;> cases step
      exact ok.put handle nofun

/-- In every run each arena's blocks are used within their capacity, and the pointers returned
since the last reset are aligned and have disjoint ranges, each within a block. -/
theorem arena_memory_safe (platform : Platform) {heap : ArenaHeap}
    (reach : (machine platform).Reachable Transition.Machine.anyStep heap) :
    ∀ tracked ∈ heap.live,
      (∀ block ∈ tracked.arena.blocks, block.used ≤ block.capacity) ∧
        (∀ grant ∈ tracked.granted, grant.alignment.toNat ∣ grant.pointer.toNat ∧
          ∃ block ∈ tracked.arena.blocks, block.data.toNat ≤ grant.pointer.toNat ∧
            grant.pointer.toNat + grant.size.toNat ≤
              block.data.toNat + block.capacity.toNat) ∧
        tracked.granted.Pairwise fun left right =>
          Apart left.pointer left.size right.pointer right.size := by
  have ok : heap.Ok := by
    refine reach.invariant ?_ fun before label after _ ok _ step => ok.step step
    rintro _ rfl tracked member
    cases member
  intro tracked member
  obtain ⟨blocks, -, aligned, within, disjoint⟩ := ok tracked member
  refine ⟨fun block inArena => (blocks block inArena).used_le, fun grant granted => ?_, disjoint⟩
  refine ⟨aligned grant granted, ?_⟩
  obtain ⟨block, inArena, start, stop⟩ := within grant granted
  have used := UInt64.le_iff_toNat_le.mp (blocks block inArena).used_le
  exact ⟨block, inArena, start, by omega⟩

/-- A platform whose widest scalar takes 16 bytes. -/
def Platform.sixteen : Platform where
  maxAlign := 16
  isAlignment := ⟨4, by decide, rfl⟩

/-- Two small requests, one that is too large for any block and one that needs a new block. -/
def growRun : List ArenaLabel :=
  [.create 64 4096, .alloc 0 10 1 0, .alloc 0 8 0 0, .alloc 0 (sizeMax - 8) 16 0,
    .alloc 0 100 64 8200]

theorem arena_memory_safe_grow :
    ∃ heap, (machine Platform.sixteen).Reachable Transition.Machine.anyStep heap ∧
      (heap.live.map (·.granted)) = [[⟨8256, 100, 64⟩, ⟨4112, 8, 16⟩, ⟨4096, 10, 1⟩]] ∧
      ∀ tracked ∈ heap.live, tracked.granted.Pairwise fun left right =>
        Apart left.pointer left.size right.pointer right.size := by
  obtain ⟨heap, reach, granted⟩ := (machine Platform.sixteen).exists_reachable
    (fun heap => (heap.live.map (·.granted)) =
      [[⟨8256, 100, 64⟩, ⟨4112, 8, 16⟩, ⟨4096, 10, 1⟩]]) growRun rfl (by decide)
  exact ⟨heap, reach, granted, fun tracked member =>
    (arena_memory_safe Platform.sixteen reach tracked member).2.2⟩

end ArenaHeap
end Runtime
end TopoLlvm
