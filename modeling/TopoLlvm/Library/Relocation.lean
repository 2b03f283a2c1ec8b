import TopoLlvm.Library.RecordLayout

/-!
# Blocks that live elsewhere

Two memories that are the same but for some blocks, which the second has at other addresses.  What
is written at a block in both keeps it so, blocks are moved by copying them one after the other, and
what is copied back makes the memories the same outside of the places away.
-/

open RecordLayout (Range)

variable {V Block : Type*}

/-! ## Reading and writing -/

namespace Relocation

def read (memory : Nat → V) (address size : Nat) : List V :=
  (List.range size).map fun offset => memory (address + offset)

def write (memory : Nat → V) (address : Nat) (values : List V) : Nat → V := fun other =>
  if address ≤ other then (values[other - address]?).getD (memory other) else memory other

def Inside (address : Nat) (range : Range) : Prop :=
  range.start ≤ address ∧ address < range.start + range.size

instance (address : Nat) (range : Range) : Decidable (Inside address range) :=
  inferInstanceAs (Decidable (_ ∧ _))

variable {memory other : Nat → V} {address size offset place : Nat} {values : List V}
  {range taken : Range}

theorem inside_add (small : offset < range.size) : Inside (range.start + offset) range :=
  ⟨Nat.le_add_right .., Nat.add_lt_add_left small _⟩

theorem exists_offset (inside : Inside place range) :
    ∃ offset < range.size, place = range.start + offset := by
  obtain ⟨first, last⟩ := inside
  exact ⟨place - range.start, by omega, by omega⟩

theorem not_inside_of_apart (apart : range.Apart taken) (inside : Inside place range) :
    ¬ Inside place taken := by
  rintro ⟨first, last⟩
  obtain ⟨first', last'⟩ := inside
  rcases apart with before | after <;> omega

/-- A place in a part of a range is a place in the range. -/
theorem Inside.mono (inside : Inside place taken) (within : taken.Within range) :
    Inside place range :=
  ⟨within.1.trans inside.1, inside.2.trans_le within.2⟩

@[simp] theorem length_read : (read memory address size).length = size := by simp [read]

theorem read_congr (same : ∀ offset < size, memory (address + offset) = other (place + offset)) :
    read memory address size = read other place size :=
  List.map_congr_left fun offset inside => same offset (List.mem_range.mp inside)

theorem write_add (inside : offset < values.length) :
    write memory address values (address + offset) = values[offset] := by
  rw [write, if_pos (Nat.le_add_right ..), Nat.add_sub_cancel_left, List.getElem?_eq_getElem inside]
  rfl

theorem write_of_not_inside (outside : ¬ Inside place ⟨address, values.length⟩) :
    write memory address values place = memory place := by
  rw [write]
  split
  · rename_i below
    rw [List.getElem?_eq_none]
    · rfl
    · have : ¬ place < address + values.length := fun above => outside ⟨below, above⟩
      omega
  · rfl

/-! ## Copying -/

def copy (memory : Nat → V) (source target size : Nat) : Nat → V :=
  write memory target (read memory source size)

theorem copy_add (small : offset < size) {source target : Nat} :
    copy memory source target size (target + offset) = memory (source + offset) := by
  have inside : offset < (read memory source size).length := by rwa [length_read]
  rw [copy, write_add inside]
  simp [read]

theorem copy_of_not_inside {source target : Nat} (outside : ¬ Inside place ⟨target, size⟩) :
    copy memory source target size place = memory place :=
  write_of_not_inside (by rwa [length_read])

section Blocks

variable (source target : Block → Range)

/-- Copy blocks one after the other. -/
def copyAll (blocks : List Block) (memory : Nat → V) : Nat → V :=
  blocks.foldl
    (fun memory block => copy memory (source block).start (target block).start (target block).size)
    memory

variable {source target} {blocks : List Block} {block : Block}

theorem copyAll_cons : copyAll source target (block :: blocks) memory =
    copyAll source target blocks
      (copy memory (source block).start (target block).start (target block).size) := rfl

theorem copyAll_of_not_inside (outside : ∀ block ∈ blocks, ¬ Inside place (target block)) :
    copyAll source target blocks memory place = memory place := by
  induction blocks generalizing memory with
  | nil => rfl
  | cons first blocks ih =>
      obtain ⟨here, later⟩ := List.forall_mem_cons.mp outside
      exact (ih later).trans (copy_of_not_inside here)

/-- A block is copied whose place no other block takes, and that lies where nothing is written. -/
theorem copyAll_add [DecidableEq Block] (member : block ∈ blocks)
    (small : offset < (target block).size)
    (free : ∀ other ∈ blocks, other ≠ block → (target block).Apart (target other))
    (kept : ∀ other ∈ blocks, ¬ Inside ((source block).start + offset) (target other)) :
    copyAll source target blocks memory ((target block).start + offset) =
      memory ((source block).start + offset) := by
  induction blocks generalizing memory with
  | nil => cases member
  | cons first blocks ih =>
      obtain ⟨-, freeLater⟩ := List.forall_mem_cons.mp free
      obtain ⟨keptHere, keptLater⟩ := List.forall_mem_cons.mp kept
      rw [copyAll_cons]
      by_cases again : block ∈ blocks
      · exact (ih again freeLater keptLater).trans (copy_of_not_inside keptHere)
      · obtain rfl := (List.mem_cons.mp member).resolve_right again
        refine (copyAll_of_not_inside fun other among => ?_).trans (copy_add small)
        have differ : other ≠ block := fun same => again (same ▸ among)
        exact not_inside_of_apart (freeLater other among differ) (inside_add small)

end Blocks

end Relocation

/-! ## Relocations -/

/-- Blocks of a memory, with the places at which another memory has them. -/
structure Relocation (Block : Type*) where
  home : Block → Range
  away : Block → Range
  size_eq : ∀ block, (home block).size = (away block).size
  homes_apart : ∀ block other, block ≠ other → (home block).Apart (home other)
  aways_apart : ∀ block other, block ≠ other → (away block).Apart (away other)
  apart : ∀ block other, (home block).Apart (away other)

namespace Relocation

variable (relocation : Relocation Block)

/-- The memories are the same but for the blocks, which the second has away. -/
structure Related (memory other : Nat → V) : Prop where
  moved : ∀ block, ∀ offset < (relocation.home block).size,
    memory ((relocation.home block).start + offset) =
      other ((relocation.away block).start + offset)
  same : ∀ place, (∀ block, ¬ Inside place (relocation.home block)) →
    (∀ block, ¬ Inside place (relocation.away block)) → memory place = other place

/-- No block is in the range, neither at home nor away. -/
def Clear (range : Range) : Prop :=
  ∀ block, range.Apart (relocation.home block) ∧ range.Apart (relocation.away block)

variable {relocation} {memory other : Nat → V} {block : Block} {offset address size : Nat}
  {values : List V}

theorem within_add {start : Nat} {range : Range} (fits : offset + size ≤ range.size)
    (same : start = range.start) : Range.Within ⟨start + offset, size⟩ range := by
  subst same
  refine ⟨Nat.le_add_right .., ?_⟩
  simp only
  omega

theorem Related.read_moved (related : relocation.Related memory other) (block : Block)
    (offset : Nat) (fits : offset + size ≤ (relocation.home block).size) :
    read memory ((relocation.home block).start + offset) size =
      read other ((relocation.away block).start + offset) size := by
  refine read_congr fun _ inside => ?_
  rw [Nat.add_assoc, Nat.add_assoc]
  exact related.moved block _ (by omega)

theorem Related.read_clear (related : relocation.Related memory other)
    (clear : relocation.Clear ⟨address, size⟩) :
    read memory address size = read other address size :=
  read_congr fun _ inside => related.same _
    (fun block => not_inside_of_apart (clear block).1 (inside_add inside))
    (fun block => not_inside_of_apart (clear block).2 (inside_add inside))

/-- What is written into a block at home in one memory and away in the other. -/
theorem Related.write_moved [DecidableEq Block] (related : relocation.Related memory other)
    (block : Block) (offset : Nat) (fits : offset + values.length ≤ (relocation.home block).size) :
    relocation.Related (write memory ((relocation.home block).start + offset) values)
      (write other ((relocation.away block).start + offset) values) := by
  have atHome := within_add fits rfl
  have isAway := within_add (relocation.size_eq block ▸ fits)
    (rfl : (relocation.away block).start = _)
  refine ⟨fun moved further inside => ?_, fun place notHome notAway => ?_⟩
  · by_cases here : moved = block
    · subst here
      by_cases written : Inside further ⟨offset, values.length⟩
      · obtain ⟨index, small, rfl⟩ := exists_offset written
        dsimp only at small ⊢
        rw [← Nat.add_assoc, ← Nat.add_assoc, write_add small, write_add small]
      · have outside {start : Nat} : ¬ Inside (start + further) ⟨start + offset, values.length⟩ := by
          rintro ⟨first, last⟩
          refine written ⟨?_, ?_⟩ <;> simp only at first last ⊢ <;> omega
        rw [write_of_not_inside outside, write_of_not_inside outside]
        exact related.moved moved further inside
    · have small : further < (relocation.away moved).size := relocation.size_eq moved ▸ inside
      rw [write_of_not_inside fun written => not_inside_of_apart
          (relocation.homes_apart _ _ here) (inside_add inside) (written.mono atHome),
        write_of_not_inside fun written => not_inside_of_apart
          (relocation.aways_apart _ _ here) (inside_add small) (written.mono isAway)]
      exact related.moved moved further inside
  · rw [write_of_not_inside fun written => notHome block (written.mono atHome),
      write_of_not_inside fun written => notAway block (written.mono isAway)]
    exact related.same place notHome notAway

/-- What is written in both memories away from the blocks. -/
theorem Related.write_clear (related : relocation.Related memory other)
    (clear : relocation.Clear ⟨address, values.length⟩) :
    relocation.Related (write memory address values) (write other address values) := by
  refine ⟨fun block further inside => ?_, fun place notHome notAway => ?_⟩
  · have small : further < (relocation.away block).size := relocation.size_eq block ▸ inside
    rw [write_of_not_inside (not_inside_of_apart (clear block).1.symm (inside_add inside)),
      write_of_not_inside (not_inside_of_apart (clear block).2.symm (inside_add small))]
    exact related.moved block further inside
  · by_cases written : Inside place ⟨address, values.length⟩
    · obtain ⟨index, small, rfl⟩ := exists_offset written
      dsimp only at small ⊢
      rw [write_add small, write_add small]
    · rw [write_of_not_inside written, write_of_not_inside written]
      exact related.same place notHome notAway

section All

variable [DecidableEq Block] {blocks : List Block} (all : ∀ block, block ∈ blocks)

include all

/-- A memory is related to the one into which the blocks have been copied. -/
theorem related_copyAll (memory : Nat → V) :
    relocation.Related memory (copyAll relocation.home relocation.away blocks memory) where
  moved block offset inside := by
    refine (copyAll_add (all block) (relocation.size_eq block ▸ inside) ?_ ?_).symm
    · exact fun other _ differ => relocation.aways_apart _ _ differ.symm
    · exact fun other _ => not_inside_of_apart (relocation.apart block other) (inside_add inside)
  same place _ notAway := (copyAll_of_not_inside fun block _ => notAway block).symm

/-- Copied back, the blocks are at home again. -/
theorem Related.copyAll_back (related : relocation.Related memory other) {place : Nat}
    (notAway : ∀ block, ¬ Inside place (relocation.away block)) :
    copyAll relocation.away relocation.home blocks other place = memory place := by
  by_cases home : ∃ block, Inside place (relocation.home block)
  · obtain ⟨block, inside⟩ := home
    obtain ⟨offset, small, rfl⟩ := exists_offset inside
    refine (copyAll_add (all block) small ?_ ?_).trans (related.moved block offset small).symm
    · exact fun other _ differ => relocation.homes_apart _ _ differ.symm
    · intro other _
      exact not_inside_of_apart (relocation.apart other block).symm
        (inside_add (relocation.size_eq block ▸ small))
  · push Not at home
    exact (copyAll_of_not_inside fun block _ => home block).trans
      (related.same place home notAway).symm

end All

end Relocation
