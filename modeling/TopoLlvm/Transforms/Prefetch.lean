import TopoLlvm.Backend.Names
import TopoLlvm.Library.NaturalLoops

/-!
# Prefetches in front of loops

`PrefetchPass` prefetches the first memory operand of a loop whose base is defined outside the loop,
at the end of the preheader or, where there is none, of the header.  The base is available there.
-/

namespace TopoLlvm
namespace Prefetch

/-- A value of a function; a result is named by the place of its definition. -/
inductive Value where
  | inst (block index : Nat)
  /-- The result of the terminator of a block. -/
  | result (block : Nat)
  | argument (index : Nat)
  | global (id : Nat)
  | constant (value : Int)
  deriving DecidableEq

inductive Inst where
  /-- The values that come from predecessors. -/
  | phi (incoming : List (Nat × Value))
  | load (pointer : Value)
  | store (value pointer : Value)
  | gep (pointer : Value) (indices : List Value)
  | call (callee : Value) (arguments : List Value)
  | other (operands : List Value)

inductive Terminator where
  | plain (operands : List Value) (successors : List Nat)
  | invoke (operands : List Value) (normalDest unwindDest : Nat)
  /-- Another terminator that nothing may be hoisted across. -/
  | special (operands : List Value) (successors : List Nat)

structure Block where
  insts : List Inst
  terminator : Terminator

/-- A function, its entry block first. -/
structure Function where
  blocks : List Block

/-- The operands that an instruction uses where it stands. -/
def Inst.operands : Inst → List Value
  | .phi _ => []
  | .load pointer => [pointer]
  | .store value pointer => [value, pointer]
  | .gep pointer indices => pointer :: indices
  | .call callee arguments => callee :: arguments
  | .other operands => operands

def Inst.incoming : Inst → List (Nat × Value)
  | .phi incoming => incoming
  | _ => []

def Inst.pointerOperand? : Inst → Option Value
  | .load pointer | .store _ pointer => some pointer
  | _ => none

def Terminator.operands : Terminator → List Value
  | .plain operands _ | .invoke operands .. | .special operands _ => operands

def Terminator.successors : Terminator → List Nat
  | .plain _ successors | .special _ successors => successors
  | .invoke _ normalDest unwindDest => [normalDest, unwindDest]

def Terminator.isSpecialTerminator : Terminator → Bool
  | .plain .. => false
  | .invoke .. | .special .. => true

/-- The block that holds the definition. -/
def Value.parent? : Value → Option Nat
  | .inst block _ | .result block => some block
  | .argument _ | .global _ | .constant _ => none

namespace Function

variable (func : Function)

def inst? (block index : Nat) : Option Inst := func.blocks[block]?.bind (·.insts[index]?)

def successors (block : Nat) : List Nat :=
  (func.blocks[block]?.map (·.terminator.successors)).getD []

def predecessors (block : Nat) : List Nat :=
  (List.range func.blocks.length).filter (block ∈ func.successors ·)

/-- Where a block ends. -/
def size (block : Nat) : Nat := (func.blocks[block]?.map (·.insts.length)).getD 0

def graph : FlowGraph Nat where
  edge block next := next ∈ func.successors block
  entry := 0
  exit block := func.successors block = []

/-- The result of the terminator of a block is there in another block; that of an invoke is there
only behind the normal edge. -/
def ResultDominates (parent block : Nat) : Prop :=
  match func.blocks[parent]?.map Block.terminator with
  | some (.invoke _ normalDest _) => func.graph.EdgeDominates parent normalDest block
  | some (.special ..) => func.graph.Dominates parent block
  | _ => False

/-- The definition of a value dominates a position of a block. -/
def Available (block position : Nat) : Value → Prop
  | .inst parent index => (func.inst? parent index).isSome ∧
      (parent = block ∧ index < position ∨ func.graph.Dominates parent block)
  | .result parent => func.ResultDominates parent block
  | .argument _ | .global _ | .constant _ => True

/-- A value that comes along an edge; the result of an invoke comes along its normal edge. -/
def AvailableFrom (pred block : Nat) (value : Value) : Prop :=
  func.Available pred (func.size pred) value ∨ value = .result pred ∧
    ∀ operands normalDest unwindDest,
      func.blocks[pred]?.map Block.terminator = some (.invoke operands normalDest unwindDest) →
        normalDest = block

/-- Every use in a reachable block is dominated by the definition. -/
structure WellFormed : Prop where
  operands : ∀ block position inst, func.graph.Reached block →
    func.inst? block position = some inst → ∀ value ∈ inst.operands,
      func.Available block position value
  incoming : ∀ block position inst, func.graph.Reached block →
    func.inst? block position = some inst → ∀ pred value, (pred, value) ∈ inst.incoming →
      func.graph.Reached pred → func.AvailableFrom pred block value
  terminators : ∀ block terminator, func.graph.Reached block →
    func.blocks[block]?.map Block.terminator = some terminator →
      ∀ value ∈ terminator.operands, func.Available block (func.size block) value

end Function

/-- A loop as the loop analysis finds it. -/
structure Loop where
  header : Nat
  blocks : List Nat

/-- The blocks of the loop are those of the natural loop of its header. -/
structure Function.NaturalLoop (func : Function) (loop : Loop) : Prop where
  latched : ∃ latch, func.graph.BackEdge latch loop.header
  inLoop : ∀ block, block ∈ loop.blocks ↔ func.graph.InLoop loop.header block

section Pass

variable (func : Function) (loop : Loop)

def isLoopInvariant (value : Value) : Bool := value.parent?.all (· ∉ loop.blocks)

/-- Walk back through GEPs to a value that is defined outside the loop. -/
def stripToInvariantBase : Nat → Value → Option Value
  | 0, _ => none
  | guard + 1, ptr =>
      if isLoopInvariant loop ptr then some ptr
      else
        match ptr with
        | .inst block index =>
            match func.inst? block index with
            | some (.gep pointer _) => stripToInvariantBase guard pointer
            | _ => none
        | _ => none

def findFirstMemoryPointer : Option Value :=
  (loop.blocks.flatMap fun block => (func.blocks[block]?.map Block.insts).getD []).findSome?
    fun inst => inst.pointerOperand?.bind (stripToInvariantBase func loop 16)

/-- The only block outside the loop that leads to the header. -/
def getLoopPredecessor : Option Nat :=
  match (func.predecessors loop.header).filter (· ∉ loop.blocks) with
  | [] => none
  | out :: others => if others.all (· = out) then some out else none

def isLegalToHoistInto (block : Nat) : Bool :=
  func.blocks[block]?.all fun block => !block.terminator.isSpecialTerminator

def getLoopPreheader : Option Nat :=
  (getLoopPredecessor func loop).filter fun out =>
    isLegalToHoistInto func out && (func.successors out).length = 1

/-- The block at the end of which the prefetch stands. -/
def insertBlock : Nat := (getLoopPreheader func loop).getD loop.header

/-- The id of the intrinsic among the globals. -/
def prefetchFn : Value := .global 0

/-- The address and the call, from a position of a block on. -/
def prefetchInsts (basePtr : Value) (distance : Int) (block position : Nat) : List Inst :=
  [.gep basePtr [.constant distance],
    .call prefetchFn [.inst block position, .constant 0, .constant 3, .constant 1]]

def insertPrefetch (basePtr : Value) (distance : Int) : Function where
  blocks := func.blocks.modify (insertBlock func loop) fun block =>
    { block with insts := block.insts ++
        prefetchInsts basePtr distance (insertBlock func loop) block.insts.length }

end Pass

/-- The loops of a function in order; also counts the prefetches. -/
def runLoops (distance : Int) : List Loop → Function × Nat → Function × Nat
  | [], found => found
  | loop :: loops, (func, inserted) =>
      match findFirstMemoryPointer func loop with
      | none => runLoops distance loops (func, inserted)
      | some ptr => runLoops distance loops (insertPrefetch func loop ptr distance, inserted + 1)

/-! ## The base -/

section Base

variable {func : Function} {loop : Loop} {value base : Value} {block position : Nat}

theorem Function.NaturalLoop.reached_header (natural : func.NaturalLoop loop) :
    func.graph.Reached loop.header := by
  obtain ⟨latch, edge, ⟨nodes, reach⟩, -⟩ := natural.latched
  exact ⟨_, reach.append (.cons edge (.nil _))⟩

theorem Function.NaturalLoop.reached (natural : func.NaturalLoop loop)
    (inside : block ∈ loop.blocks) : func.graph.Reached block :=
  ((natural.inLoop block).mp inside).reached natural.reached_header

theorem Function.ResultDominates.imp {parent other : Nat}
    (dominates : func.ResultDominates parent block)
    (edge : ∀ target, func.graph.EdgeDominates parent target block →
      func.graph.EdgeDominates parent target other)
    (node : func.graph.Dominates parent block → func.graph.Dominates parent other) :
    func.ResultDominates parent other := by
  unfold ResultDominates at dominates ⊢
  split at dominates
  · exact edge _ dominates
  · exact node dominates
  · exact dominates

theorem Function.ResultDominates.isSpecialTerminator {parent : Nat}
    (dominates : func.ResultDominates parent block) :
    ∃ contents, func.blocks[parent]? = some contents ∧
      contents.terminator.isSpecialTerminator = true := by
  unfold ResultDominates at dominates
  split at dominates
  · rename_i ends
    obtain ⟨contents, present, ends⟩ := Option.map_eq_some_iff.mp ends
    exact ⟨contents, present, by rw [ends]; rfl⟩
  · rename_i ends
    obtain ⟨contents, present, ends⟩ := Option.map_eq_some_iff.mp ends
    exact ⟨contents, present, by rw [ends]; rfl⟩
  · exact dominates.elim

/-- The value is used at a position of a block of the loop and defined outside. -/
def IsBase (func : Function) (loop : Loop) (value : Value) : Prop :=
  isLoopInvariant loop value ∧
    ∃ block ∈ loop.blocks, ∃ position, func.Available block position value

theorem stripToInvariantBase_sound (wellFormed : func.WellFormed) (natural : func.NaturalLoop loop)
    (inside : block ∈ loop.blocks) (available : func.Available block position value) {guard : Nat}
    (stripped : stripToInvariantBase func loop guard value = some base) :
    IsBase func loop base := by
  induction guard generalizing block position value with
  | zero => cases stripped
  | succ guard ih =>
      unfold stripToInvariantBase at stripped
      split at stripped
      · rename_i invariant
        cases stripped
        exact ⟨invariant, block, inside, position, available⟩
      · rename_i variant
        split at stripped
        · rename_i parent index
          split at stripped
          · rename_i pointer indices found
            have within : parent ∈ loop.blocks := by
              simpa [isLoopInvariant, Value.parent?] using variant
            have used := wellFormed.operands parent index _ (natural.reached within) found pointer
              (List.mem_cons_self ..)
            exact ih within used stripped
          · cases stripped
        · cases stripped

theorem findFirstMemoryPointer_sound (wellFormed : func.WellFormed)
    (natural : func.NaturalLoop loop) (found : findFirstMemoryPointer func loop = some base) :
    IsBase func loop base := by
  obtain ⟨inst, member, stripped⟩ := List.exists_of_findSome?_eq_some found
  obtain ⟨block, inside, member⟩ := List.mem_flatMap.mp member
  obtain ⟨pointer, operand, stripped⟩ := Option.bind_eq_some_iff.mp stripped
  obtain ⟨position, placed⟩ := List.mem_iff_getElem?.mp member
  have placed : func.inst? block position = some inst := by
    unfold Function.inst?
    cases present : func.blocks[block]? with
    | none => simp [present] at placed
    | some contents => simpa [present] using placed
  have used : pointer ∈ inst.operands := by
    cases inst <;> cases operand <;> simp [Inst.operands]
  exact stripToInvariantBase_sound wellFormed natural inside
    (wellFormed.operands block position inst (natural.reached inside) placed pointer used) stripped

theorem getLoopPreheader_eq_some {out : Nat} (found : getLoopPreheader func loop = some out) :
    func.graph.edge out loop.header ∧ isLegalToHoistInto func out := by
  obtain ⟨only, legal⟩ := Option.filter_eq_some_iff.mp found
  refine ⟨?_, (Bool.and_eq_true_iff.mp legal).1⟩
  unfold getLoopPredecessor at only
  split at only
  · cases only
  · rename_i first others outside
    split at only
    · cases only
      have member : out ∈ (func.predecessors loop.header).filter (· ∉ loop.blocks) := by
        rw [outside]
        exact List.mem_cons_self ..
      have leads := (List.mem_filter.mp (List.mem_filter.mp member).1).2
      change loop.header ∈ func.successors out
      exact of_decide_eq_true leads
    · cases only

/-- The base is available where the prefetch is inserted. -/
theorem IsBase.available (isBase : IsBase func loop base) (natural : func.NaturalLoop loop) :
    func.Available (insertBlock func loop) (func.size (insertBlock func loop)) base := by
  obtain ⟨invariant, block, inside, position, available⟩ := isBase
  have header := natural.reached_header
  have inLoop := (natural.inLoop block).mp inside
  have outside {parent : Nat} (defined : base.parent? = some parent) :
      ¬ func.graph.InLoop loop.header parent := by
    rw [← natural.inLoop]
    simpa [isLoopInvariant, defined] using invariant
  -- What holds at the header holds at the end of a preheader, which may hold the definition.
  cases base with
  | inst parent index =>
      obtain ⟨present, place⟩ := available
      have apart : parent ≠ block := fun same => outside rfl (same ▸ inLoop)
      have dominates := inLoop.dominates_header header (outside rfl)
        (place.resolve_left fun same => apart same.1)
      refine ⟨present, ?_⟩
      cases found : getLoopPreheader func loop with
      | none => exact .inr (by rwa [insertBlock, found])
      | some out =>
          rw [insertBlock, found, Option.getD_some]
          by_cases same : parent = out
          · subst same
            refine .inl ⟨rfl, ?_⟩
            obtain ⟨inst, present⟩ := Option.isSome_iff_exists.mp present
            obtain ⟨contents, there, placed⟩ := Option.bind_eq_some_iff.mp present
            rw [Function.size, there]
            exact (List.getElem?_eq_some_iff.mp placed).1
          · exact .inr (dominates.of_edge (getLoopPreheader_eq_some found).1 same)
  | result parent =>
      have available : func.ResultDominates parent block := available
      have atHeader : func.ResultDominates parent loop.header :=
        available.imp (fun _ => inLoop.edgeDominates_header header (outside rfl))
          (inLoop.dominates_header header (outside rfl))
      cases found : getLoopPreheader func loop with
      | none =>
          rw [insertBlock, found]
          exact atHeader
      | some out =>
          obtain ⟨edge, legal⟩ := getLoopPreheader_eq_some found
          rw [insertBlock, found]
          have apart : parent ≠ out := by
            rintro rfl
            obtain ⟨contents, there, special⟩ := atHeader.isSpecialTerminator
            simp [isLegalToHoistInto, there, special] at legal
          exact atHeader.imp (fun _ dominates => dominates.of_edge edge apart)
            fun dominates => dominates.of_edge edge apart
  | argument _ => trivial
  | global _ => trivial
  | constant _ => trivial

end Base

/-! ## The function with the prefetch -/

section Extension

variable {func other : Function} {loop : Loop} {value base : Value}
  {block position later : Nat} {inst : Inst}

/-- Instructions are only added behind those of a block. -/
structure Extends (func other : Function) : Prop where
  terminator : ∀ block : Nat,
    other.blocks[block]?.map Block.terminator = func.blocks[block]?.map Block.terminator
  inst : ∀ block position inst, func.inst? block position = some inst →
    other.inst? block position = some inst
  size : ∀ block, func.size block ≤ other.size block

namespace Extends

theorem successors (ext : Extends func other) (block : Nat) :
    other.successors block = func.successors block := by
  have same := congrArg (Option.map Terminator.successors) (ext.terminator block)
  rw [Option.map_map, Option.map_map] at same
  exact congrArg (Option.getD · []) same

theorem graph (ext : Extends func other) : other.graph = func.graph := by
  have same : other.successors = func.successors := funext ext.successors
  simp only [Function.graph, same]

theorem naturalLoop (ext : Extends func other) (natural : func.NaturalLoop loop) :
    other.NaturalLoop loop where
  latched := by
    rw [ext.graph]
    exact natural.latched
  inLoop := by
    rw [ext.graph]
    exact natural.inLoop

/-- What is available stays so, further behind as well. -/
theorem available (ext : Extends func other) (before : position ≤ later)
    (available : func.Available block position value) : other.Available block later value := by
  cases value with
  | inst parent index =>
      obtain ⟨present, place⟩ := available
      obtain ⟨inst, present⟩ := Option.isSome_iff_exists.mp present
      refine ⟨by rw [ext.inst _ _ _ present]; rfl, ?_⟩
      rw [ext.graph]
      exact place.imp_left fun same => ⟨same.1, Nat.lt_of_lt_of_le same.2 before⟩
  | result parent =>
      have available : func.ResultDominates parent block := available
      change other.ResultDominates parent block
      unfold Function.ResultDominates at available ⊢
      rwa [ext.terminator, ext.graph]
  | _ => trivial

theorem availableFrom (ext : Extends func other) {pred : Nat}
    (available : func.AvailableFrom pred block value) : other.AvailableFrom pred block value := by
  rcases available with there | ⟨result, edge⟩
  · exact .inl (ext.available (ext.size pred) there)
  · refine .inr ⟨result, ?_⟩
    rwa [ext.terminator]

/-- A function with more instructions is well formed if the operands of the new ones are there. -/
theorem wellFormed (ext : Extends func other) (wellFormed : func.WellFormed)
    (added : ∀ block position inst, other.inst? block position = some inst →
      func.inst? block position = some inst ∨ inst.incoming = [] ∧
        ∀ value ∈ inst.operands, other.Available block position value) :
    other.WellFormed where
  operands block position inst reached present value used := by
    rcases added block position inst present with old | ⟨-, fresh⟩
    · rw [ext.graph] at reached
      exact ext.available (Nat.le_refl _) (wellFormed.operands _ _ _ reached old value used)
    · exact fresh value used
  incoming block position inst reached present pred value used reachedPred := by
    rcases added block position inst present with old | ⟨none, -⟩
    · rw [ext.graph] at reached reachedPred
      exact ext.availableFrom
        (wellFormed.incoming _ _ _ reached old pred value used reachedPred)
    · rw [none] at used
      cases used
  terminators block terminator reached ends value used := by
    rw [ext.graph] at reached
    rw [ext.terminator] at ends
    exact ext.available (ext.size block) (wellFormed.terminators _ _ reached ends value used)

end Extends

/-- The instructions of a block with the prefetch. -/
theorem inst?_insertPrefetch (ptr : Value) (distance : Int) (block position : Nat) :
    (insertPrefetch func loop ptr distance).inst? block position =
      func.blocks[block]?.bind fun contents =>
        if insertBlock func loop = block then
          (contents.insts ++ prefetchInsts ptr distance block contents.insts.length)[position]?
        else contents.insts[position]? := by
  unfold Function.inst? insertPrefetch
  rw [List.getElem?_modify]
  cases func.blocks[block]? with
  | none => rfl
  | some contents =>
      by_cases here : insertBlock func loop = block
      · subst here
        simp
      · simp [here]

theorem extends_insertPrefetch (ptr : Value) (distance : Int) :
    Extends func (insertPrefetch func loop ptr distance) where
  terminator block := by
    unfold insertPrefetch
    rw [List.getElem?_modify]
    cases func.blocks[block]? with
    | none => rfl
    | some contents => by_cases here : insertBlock func loop = block <;> simp [here]
  inst block position inst present := by
    obtain ⟨contents, there, placed⟩ := Option.bind_eq_some_iff.mp present
    rw [inst?_insertPrefetch, there, Option.bind_some]
    split
    · rwa [List.getElem?_append_left (List.getElem?_eq_some_iff.mp placed).1]
    · exact placed
  size block := by
    unfold Function.size insertPrefetch
    rw [List.getElem?_modify]
    cases func.blocks[block]? with
    | none => exact Nat.le_refl _
    | some contents => by_cases here : insertBlock func loop = block <;> simp [here]

/-- The address is computed from the base, and the call follows it. -/
theorem wellFormed_insertPrefetch (wellFormed : func.WellFormed) (natural : func.NaturalLoop loop)
    (isBase : IsBase func loop base) (distance : Int) :
    (insertPrefetch func loop base distance).WellFormed := by
  have ext : Extends func (insertPrefetch func loop base distance) := extends_insertPrefetch ..
  refine ext.wellFormed wellFormed fun block position inst present => ?_
  have whole := present
  rw [inst?_insertPrefetch] at present
  obtain ⟨contents, there, placed⟩ := Option.bind_eq_some_iff.mp present
  split at placed
  · rename_i here
    rcases Nat.lt_or_ge position contents.insts.length with old | new
    · rw [List.getElem?_append_left old] at placed
      exact .inl (Option.bind_eq_some_iff.mpr ⟨contents, there, placed⟩)
    · have size : func.size block = contents.insts.length := by
        rw [Function.size, there]
        rfl
      have available := isBase.available natural
      rw [here, size] at available
      rw [List.getElem?_append_right new] at placed
      obtain ⟨offset, rfl⟩ := Nat.exists_eq_add_of_le new
      rw [Nat.add_sub_cancel_left] at placed
      cases offset with
      | zero =>
          cases placed
          refine .inr ⟨rfl, fun value used => ?_⟩
          rcases List.mem_cons.mp used with rfl | used
          · exact ext.available (Nat.le_add_right ..) available
          · obtain rfl := List.mem_singleton.mp used
            trivial
      | succ offset =>
          obtain rfl : offset = 0 := by
            have inside := (List.getElem?_eq_some_iff.mp placed).1
            simp only [prefetchInsts, List.length_cons, List.length_nil] at inside
            omega
          cases placed
          have address : (insertPrefetch func loop base distance).inst? block
              contents.insts.length = some (.gep base [.constant distance]) := by
            rw [inst?_insertPrefetch, there, Option.bind_some, if_pos here,
              List.getElem?_append_right (Nat.le_refl _), Nat.sub_self]
            rfl
          refine .inr ⟨rfl, fun value used => ?_⟩
          simp only [Inst.operands, List.mem_cons, List.not_mem_nil, or_false] at used
          rcases used with rfl | rfl | rfl | rfl | rfl
          · trivial
          · exact ⟨by rw [address]; rfl, .inl ⟨rfl, Nat.lt_succ_self _⟩⟩
          all_goals trivial
  · exact .inl (Option.bind_eq_some_iff.mpr ⟨contents, there, placed⟩)

end Extension

/-! ## All loops -/

section Loops

variable {func : Function} {loop : Loop} {loops : List Loop} {base : Value} {inserted : Nat}

theorem runLoops_append (distance : Int) (before after : List Loop) (found : Function × Nat) :
    runLoops distance (before ++ after) found =
      runLoops distance after (runLoops distance before found) := by
  induction before generalizing found with
  | nil => rfl
  | cons loop before ih =>
      obtain ⟨func, inserted⟩ := found
      simp only [List.cons_append, runLoops]
      cases findFirstMemoryPointer func loop with
      | none => exact ih _
      | some ptr => exact ih _

/-- The function stays well formed, and its loops the same. -/
theorem runLoops_sound (wellFormed : func.WellFormed)
    (natural : ∀ loop ∈ loops, func.NaturalLoop loop) (distance : Int) (inserted : Nat)
    {others : List Loop} (kept : ∀ loop ∈ others, func.NaturalLoop loop) :
    (runLoops distance loops (func, inserted)).1.WellFormed ∧
      ∀ loop ∈ others, (runLoops distance loops (func, inserted)).1.NaturalLoop loop := by
  induction loops generalizing func inserted with
  | nil => exact ⟨wellFormed, kept⟩
  | cons loop loops ih =>
      have here := natural loop (List.mem_cons_self ..)
      have rest := fun other member => natural other (List.mem_cons_of_mem loop member)
      unfold runLoops
      cases found : findFirstMemoryPointer func loop with
      | none => exact ih wellFormed rest inserted kept
      | some ptr =>
          have ext : Extends func (insertPrefetch func loop ptr distance) :=
            extends_insertPrefetch ..
          exact ih
            (wellFormed_insertPrefetch wellFormed here
              (findFirstMemoryPointer_sound wellFormed here found) distance)
            (fun other member => ext.naturalLoop (rest other member)) (inserted + 1)
            fun other member => ext.naturalLoop (kept other member)

/-- Whichever loop the pass comes to, the base that it finds is available at the end of the block
where the prefetch goes, and in the end every use of the function is dominated by its definition. -/
theorem prefetch_wellFormed (wellFormed : func.WellFormed)
    (natural : ∀ loop ∈ loops, func.NaturalLoop loop) (distance : Int) :
    (runLoops distance loops (func, 0)).1.WellFormed ∧
      ∀ before loop after, loops = before ++ loop :: after →
        let current := (runLoops distance before (func, 0)).1
        ∀ base, findFirstMemoryPointer current loop = some base →
          current.Available (insertBlock current loop) (current.size (insertBlock current loop))
            base := by
  refine ⟨(runLoops_sound wellFormed natural distance 0 natural).1, ?_⟩
  rintro before loop after rfl current base found
  have kept : ∀ other ∈ [loop], func.NaturalLoop other := fun other member => by
    obtain rfl := List.mem_singleton.mp member
    exact natural other (by simp)
  obtain ⟨sound, same⟩ := runLoops_sound wellFormed
    (fun other member => natural other (List.mem_append_left _ member)) distance 0 kept
  have loopThere := same loop (List.mem_singleton_self _)
  exact (findFirstMemoryPointer_sound sound loopThere found).available loopThere

/-- A loop over the memory that its preheader allocates. -/
def sumLoop : Function where
  blocks := [
    { insts := [.other []], terminator := .plain [] [1] },
    { insts := [
        .phi [(0, .constant 0), (1, .inst 1 2)],
        .gep (.inst 0 0) [.inst 1 0],
        .other [.inst 1 0],
        .load (.inst 1 1)]
      terminator := .plain [.inst 1 2] [1, 2] },
    { insts := [], terminator := .plain [] [] }]

theorem sumLoop_edge {block next : Nat} :
    sumLoop.graph.edge block next ↔ block = 0 ∧ next = 1 ∨ block = 1 ∧ (next = 1 ∨ next = 2) := by
  rcases block with _ | _ | _ | block <;>
    simp [Function.graph, Function.successors, sumLoop, Terminator.successors]

theorem sumLoop_naturalLoop : sumLoop.NaturalLoop { header := 1, blocks := [1] } where
  latched := ⟨1, sumLoop_edge.mpr (by decide), ⟨[0], .cons (sumLoop_edge.mpr (by decide)) (.nil 1)⟩,
    .inl rfl⟩
  inLoop block := by
    refine ⟨fun member => .inl (List.mem_singleton.mp member), fun inside => ?_⟩
    obtain rfl | ⟨-, latch, ⟨edge, -, dominated⟩, nodes, -, avoids⟩ := inside
    · exact List.mem_singleton_self _
    · have apart : latch ≠ 1 := (List.ne_of_not_mem_cons avoids).symm
      obtain ⟨rfl, -⟩ := (sumLoop_edge.mp edge).resolve_right fun there => apart there.1
      exact absurd (dominated.resolve_left Nat.zero_ne_one [] (.nil 0)) List.not_mem_nil

theorem sumLoop_wellFormed : sumLoop.WellFormed where
  operands block position inst reached present value used := by
    have ahead : sumLoop.graph.Dominates 0 1 := FlowGraph.dominates_of_entry Nat.one_ne_zero
    rcases block with _ | _ | _ | block
    · rcases position with _ | position <;> cases present
      cases used
    · rcases position with _ | _ | _ | _ | position <;> cases present <;>
        simp only [Inst.operands, List.mem_cons, List.not_mem_nil, or_false] at used
      · rcases used with rfl | rfl
        · exact ⟨rfl, .inr ahead⟩
        · exact ⟨rfl, .inl ⟨rfl, by decide⟩⟩
      · subst used
        exact ⟨rfl, .inl ⟨rfl, by decide⟩⟩
      · subst used
        exact ⟨rfl, .inl ⟨rfl, by decide⟩⟩
    · cases present
    · cases present
  incoming block position inst reached present pred value used reachedPred := by
    rcases block with _ | _ | _ | block
    · rcases position with _ | position <;> cases present
      cases used
    · rcases position with _ | _ | _ | _ | position <;> cases present <;>
        simp only [Inst.incoming, List.mem_cons, List.not_mem_nil, or_false] at used
      rcases used with same | same <;> cases same
      · exact .inl trivial
      · exact .inl ⟨rfl, .inl ⟨rfl, by decide⟩⟩
    · cases present
    · cases present
  terminators block terminator reached ends value used := by
    rcases block with _ | _ | _ | block <;> cases ends
    · cases used
    · obtain rfl := List.mem_singleton.mp used
      exact ⟨rfl, .inl ⟨rfl, by decide⟩⟩
    · cases used

/-- The allocation is prefetched at the end of the block that it stands in. -/
theorem prefetch_wellFormed_sumLoop :
    findFirstMemoryPointer sumLoop { header := 1, blocks := [1] } = some (.inst 0 0) ∧
      insertBlock sumLoop { header := 1, blocks := [1] } = 0 ∧
      sumLoop.Available 0 1 (.inst 0 0) := by
  refine ⟨by decide, by decide, ?_⟩
  have sound := (prefetch_wellFormed sumLoop_wellFormed
    (fun loop member => List.mem_singleton.mp member ▸ sumLoop_naturalLoop) 64).2
  exact sound [] { header := 1, blocks := [1] } [] rfl (.inst 0 0) (by decide)

end Loops

/-! ## The module -/

section Module

open TopoLlvm.Backend

variable (loopInfo : Function → List Loop) (declared : Name → Bool) (distance : Int)

/-- The matched functions in order; a declaration has no body.  Every declared access pattern opts
in. -/
def runMatched : List (Name × Option Nat) → List (Option Function) → List (Option Function)
  | [], module => module
  | (topoName, llvmFunc) :: matched, module =>
      match llvmFunc.bind fun id => module[id]?.join.map (id, ·) with
      | some (id, func) =>
          if declared topoName then
            runMatched matched
              (module.set id (some (runLoops distance (loopInfo func) (func, 0)).1))
          else runMatched matched module
      | none => runMatched matched module

/-- The functions of the module stay well formed. -/
theorem runMatched_wellFormed
    (natural : ∀ func, ∀ loop ∈ loopInfo func, func.NaturalLoop loop)
    (matched : List (Name × Option Nat)) {module : List (Option Function)}
    (wellFormed : ∀ func, some func ∈ module → func.WellFormed) (func : Function)
    (member : some func ∈ runMatched loopInfo declared distance matched module) :
    func.WellFormed := by
  induction matched generalizing module with
  | nil => exact wellFormed func member
  | cons entry matched ih =>
      obtain ⟨topoName, llvmFunc⟩ := entry
      unfold runMatched at member
      split at member
      · rename_i id visited found
        obtain ⟨index, -, found⟩ := Option.bind_eq_some_iff.mp found
        obtain ⟨body, present, same⟩ := Option.map_eq_some_iff.mp found
        cases same
        split at member
        · refine ih (fun other inside => ?_) member
          rcases List.mem_or_eq_of_mem_set inside with old | new
          · exact wellFormed other old
          · cases new
            have before := wellFormed visited
              (List.mem_of_getElem? (Option.join_eq_some_iff.mp present))
            exact (prefetch_wellFormed before (natural visited) distance).1
        · exact ih wellFormed member
      · exact ih wellFormed member

end Module

end Prefetch
end TopoLlvm
