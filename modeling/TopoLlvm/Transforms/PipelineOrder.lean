import TopoLlvm.Library.Reorder
import TopoLlvm.Transforms.PartialPipeline
import TopoLlvm.Transforms.PipelineFailure

/-!
# The order of generated calls

The nodes of a pipeline whose edges lead to later stages are called once each, after the nodes
upstream of them, and a generated body takes no value before the instruction that gives it.
-/

namespace TopoLlvm
namespace PipelineCodeGen

open TopoLlvm.Runtime (Name)
open Relation Reorder

/-! ## Stages in order -/

theorem mem_pushNode_self (stage : Int) (node : Name) (groups : List (Int × List Name)) :
    ∃ nodes, (stage, nodes) ∈ pushNode stage node groups ∧ node ∈ nodes := by
  induction groups with
  | nil => exact ⟨[node], List.mem_singleton_self _, List.mem_singleton_self _⟩
  | cons first groups ih =>
      rw [pushNode]
      split
      · exact ⟨[node], List.mem_cons_self, List.mem_singleton_self _⟩
      · split
        · rename_i here
          exact ⟨first.2 ++ [node], here ▸ List.mem_cons_self, by simp⟩
        · obtain ⟨nodes, member, inside⟩ := ih
          exact ⟨nodes, List.mem_cons_of_mem _ member, inside⟩

theorem mem_pushNode_of_mem {stage key : Int} {node other : Name}
    {groups : List (Int × List Name)}
    (old : ∃ nodes, (key, nodes) ∈ groups ∧ other ∈ nodes) :
    ∃ nodes, (key, nodes) ∈ pushNode stage node groups ∧ other ∈ nodes := by
  induction groups with
  | nil => simp at old
  | cons first groups ih =>
      obtain ⟨nodes, member, inside⟩ := old
      rw [pushNode]
      split
      · exact ⟨nodes, List.mem_cons_of_mem _ member, inside⟩
      · rcases List.mem_cons.mp member with rfl | later
        · split
          · exact ⟨nodes ++ [node], List.mem_cons_self, List.mem_append_left _ inside⟩
          · exact ⟨nodes, List.mem_cons_self, inside⟩
        · split
          · exact ⟨nodes, List.mem_cons_of_mem _ later, inside⟩
          · obtain ⟨found, there, has⟩ := ih ⟨nodes, later, inside⟩
            exact ⟨found, List.mem_cons_of_mem _ there, has⟩

/-- A node is in the group of its stage. -/
theorem mem_groupNodesByStage {stages : List (Name × Int)} {node : Name} {stage : Int}
    (member : (node, stage) ∈ stages) :
    ∃ nodes, (stage, nodes) ∈ groupNodesByStage stages ∧ node ∈ nodes := by
  induction stages using List.reverseRecOn with
  | nil => cases member
  | append_singleton stages last ih =>
      rw [groupNodesByStage_concat]
      rcases List.mem_append.mp member with before | here
      · exact mem_pushNode_of_mem (ih before)
      · obtain rfl := List.mem_singleton.mp here
        exact mem_pushNode_self stage node _

/-- Nodes of earlier stages come first. -/
theorem Pipeline.before_of_stage {pipeline : Pipeline} {first second : Name} {early late : Int}
    (firstStage : (first, early) ∈ pipeline.stages)
    (secondStage : (second, late) ∈ pipeline.stages) (earlier : early < late) :
    Before pipeline.order first second := by
  obtain ⟨nodes, member, inside⟩ := mem_groupNodesByStage firstStage
  obtain ⟨others, otherMember, otherInside⟩ := mem_groupNodesByStage secondStage
  have ordered := ordered_groupNodesByStage pipeline.stages
  obtain ⟨front, back, split⟩ := List.append_of_mem member
  rw [split] at ordered otherMember
  have behind : (late, others) ∈ back := by
    rcases List.mem_append.mp otherMember with before | rest
    · have lower := (List.pairwise_append.mp ordered).2.2 _ before _ List.mem_cons_self
      exact absurd earlier (Int.lt_asymm lower)
    · rcases List.mem_cons.mp rest with same | later
      · exact absurd (congrArg Prod.fst same) earlier.ne'
      · exact later
  rw [Pipeline.order, split, List.append_cons, List.flatMap_append]
  refine before_of_mem ?_ (List.mem_flatMap.mpr ⟨_, behind, otherInside⟩)
  exact List.mem_flatMap.mpr ⟨(early, nodes), by simp, inside⟩

/-! ## Values and the instructions that define them -/

variable {Ty Fn : Type}

/-- The values that an instruction takes; a load takes the slot of the call before it. -/
def Inst.uses : Inst Ty Fn → List Operand
  | .extractValue node _ => [.output node]
  | .call _ _ args => args
  | .load _ => [.slot]
  | .ret (.value operand) => [operand]
  | .alloca _ | .ret .void | .other _ _ => []

section Defined

variable (demangle : Name → Name) (matched : Name → Option Fn) (module : Module Ty Fn)

/-- The instructions that give a node's output: its call, and the load from its slot if any. -/
def outputInsts (node : Name) (fn : Fn) (args : List Operand) : List (Inst Ty Fn) :=
  .call node fn args :: (Pipeline.emitLoad (describe demangle module fn) args).emitted

/-- A value is a parameter of the function or given by instructions that come before. -/
def Defined (params : Nat) (before : List (Inst Ty Fn)) : Operand → Prop
  | .arg index => index < params
  | .output node => ∃ fn args, outputInsts demangle module node fn args <:+: before
  | .field node index => .extractValue node index ∈ before
  | .slot => ∃ ty, .alloca ty ∈ before

/-- What a generated body asks of an instruction after others. -/
structure Placed (utilities : Utilities) (pipeline : Pipeline) (params : Nat)
    (before : List (Inst Ty Fn)) (inst : Inst Ty Fn) : Prop where
  defined : ∀ value ∈ inst.uses, Defined demangle module params before value
  callee : ∀ node fn args, inst = .call node fn args →
    pipeline.nodeCallee utilities matched node = some fn
  /-- Every slot that a call takes is allocated right before it. -/
  slots : ∀ node fn args, inst = .call node fn args → ∃ earlier tys,
    before = earlier ++ List.map .alloca tys ∧ tys.length = args.count .slot

variable {demangle matched module} {params : Nat}

theorem Defined.mono {before later : List (Inst Ty Fn)} (inside : before <+: later)
    {value : Operand} (defined : Defined demangle module params before value) :
    Defined demangle module params later value := by
  cases value with
  | arg index => exact defined
  | output node =>
      obtain ⟨fn, args, emitted⟩ := defined
      exact ⟨fn, args, emitted.trans inside.isInfix⟩
  | field node index => exact inside.subset defined
  | slot =>
      obtain ⟨ty, allocated⟩ := defined
      exact ⟨ty, inside.subset allocated⟩

end Defined

section Emitted

variable [DecidableEq Ty]

/-- Slots are allocated, and nothing else is emitted, for the arguments that are found. -/
theorem emitArgs_spec {pipelineParams params : List (Param Ty)} {available : List (Ty × Operand)}
    (noSlot : ∀ value ∈ available, value.2 ≠ .slot) {args : List Operand}
    (result : (emitArgs pipelineParams params available :
      Emission (Inst Ty Fn) (List Operand)).result = some args) :
    (∃ tys, (emitArgs pipelineParams params available :
        Emission (Inst Ty Fn) (List Operand)).emitted = List.map .alloca tys ∧
      tys.length = args.count .slot) ∧
    ∀ operand ∈ args, operand = .slot ∨ (∃ value ∈ available, value.2 = operand) ∨
      ∃ index < pipelineParams.length, operand = .arg index := by
  induction params generalizing available args with
  | nil =>
      cases result
      exact ⟨⟨[], rfl, rfl⟩, nofun⟩
  | cons param params ih =>
      rw [emitArgs] at result ⊢
      cases slot : param.structRet with
      | some structRet =>
          simp only [slot, Emission.result_bind, Emission.result_emit, Option.bind_some,
            Emission.result_pure] at result ⊢
          obtain ⟨rest, found, same⟩ := Option.bind_eq_some_iff.mp result
          cases same
          obtain ⟨⟨tys, emitted, length⟩, places⟩ := ih noSlot found
          refine ⟨⟨structRet :: tys, ?_, by simp [length]⟩, fun operand member => ?_⟩
          · rw [Emission.emitted_emit_bind, Emission.emitted_bind_of_some found, emitted]
            simp
          · rcases List.mem_cons.mp member with rfl | later
            · exact .inl rfl
            · exact places operand later
      | none =>
          simp only [slot] at result ⊢
          cases takes : takeUnused param.ty available with
          | some taking =>
              obtain ⟨taken, left⟩ := taking
              simp only [takes, Emission.result_bind, Emission.result_pure] at result ⊢
              obtain ⟨rest, found, same⟩ := Option.bind_eq_some_iff.mp result
              cases same
              obtain ⟨inside, others⟩ := Pipeline.mem_of_takeUnused takes
              obtain ⟨⟨tys, emitted, length⟩, places⟩ :=
                ih (fun value member => noSlot value (others member)) found
              have apart : taken ≠ .slot := noSlot _ inside
              refine ⟨⟨tys, ?_, by simp [length, apart]⟩, fun operand member => ?_⟩
              · rw [Emission.emitted_bind_of_some found, emitted]
                simp
              · rcases List.mem_cons.mp member with rfl | later
                · exact .inr (.inl ⟨_, inside, rfl⟩)
                · rcases places operand later with slot | ⟨value, has, same⟩ | arg
                  · exact .inl slot
                  · exact .inr (.inl ⟨value, others has, same⟩)
                  · exact .inr (.inr arg)
          | none =>
              simp only [takes, Emission.result_bind, Emission.result_ofOption,
                Emission.result_pure] at result ⊢
              obtain ⟨index, first, result⟩ := Option.bind_eq_some_iff.mp result
              obtain ⟨rest, found, same⟩ := Option.bind_eq_some_iff.mp result
              cases same
              obtain ⟨⟨tys, emitted, length⟩, places⟩ := ih noSlot found
              obtain ⟨bound, -⟩ := List.findIdx?_eq_some_iff_getElem.mp first
              refine ⟨⟨tys, ?_, by simp [length]⟩, fun operand member => ?_⟩
              · have given : (Emission.ofOption (pipelineParams.findIdx? (·.ty = param.ty)) :
                    Emission (Inst Ty Fn) Nat).result = some index := first
                rw [Emission.emitted_bind_of_some given, Emission.emitted_bind_of_some found,
                  emitted]
                simp
              · rcases List.mem_cons.mp member with rfl | later
                · exact .inr (.inr ⟨index, bound, rfl⟩)
                · exact places operand later

/-- Positions of the pipeline's parameters. -/
theorem lt_of_mem_matchSourceNodeArgs {pipelineParams params : List (Param Ty)}
    {indices : List Nat} (matched : matchSourceNodeArgs pipelineParams params = some indices)
    {index : Nat} (member : index ∈ indices) : index < pipelineParams.length := by
  refine foldlM_keeps (fun _ taken => ∀ index ∈ taken, index < pipelineParams.length) ?_ []
    (by simp) matched index member
  rintro - ⟨param, position⟩ taken next kept given index inside
  dsimp only at given
  split at given
  · rename_i arg found
    cases given
    rcases List.mem_append.mp inside with before | here
    · exact kept index before
    · rw [List.mem_singleton.mp here]
      exact List.mem_range.mp (List.mem_of_find?_eq_some found)
  · obtain ⟨bound, same⟩ := Option.ite_none_right_eq_some.mp given
    cases same
    rcases List.mem_append.mp inside with before | here
    · exact kept index before
    · rwa [List.mem_singleton.mp here]

namespace Pipeline

variable {types : TypeSystem Ty} {utilities : Utilities} {demangle : Name → Name}
  {matched : Name → Option Fn} {module : Module Ty Fn} {pipeline : Pipeline}
  {params : List (Param Ty)} {before : List (Inst Ty Fn)} {nodeOutputs : List (Name × Ty)}

omit [DecidableEq Ty] in
/-- An available value is an output, or a field of one that is extracted. -/
theorem available_cases {node : Name} {value : Ty × Operand}
    (member : value ∈ pipeline.availableValues types utilities nodeOutputs node) :
    ∃ up ty, nodeOutputs.lookup up = some ty ∧
      (value.2 = .output up ∨ ∃ index, value.2 = .field up index) := by
  obtain ⟨up, -, offered⟩ := List.mem_flatMap.mp member
  split at offered
  · rename_i ty found
    refine ⟨up, ty, found, ?_⟩
    unfold outputValues at offered
    split at offered
    · obtain ⟨entry, -, rfl⟩ := List.mem_map.mp offered
      exact .inr ⟨_, rfl⟩
    · obtain rfl := List.mem_singleton.mp offered
      exact .inl rfl
  · cases offered

variable (matched) in
/-- The arguments of a node's call are defined when the call comes, and the slots among them are
allocated last. -/
theorem emitNodeArgs_placed
    (outputs : ∀ up ty, nodeOutputs.lookup up = some ty →
      Defined demangle module params.length before (.output up))
    {node : Name} {callee : ModuleFunction Ty} {args : List Operand}
    (result : (pipeline.emitNodeArgs types utilities params nodeOutputs node callee :
      Emission (Inst Ty Fn) (List Operand)).result = some args) :
    let emitted := (pipeline.emitNodeArgs types utilities params nodeOutputs node callee :
      Emission (Inst Ty Fn) (List Operand)).emitted
    Emission.Sequenced (Placed demangle matched module utilities pipeline params.length) before
        emitted ∧
      (∀ operand ∈ args, Defined demangle module params.length (before ++ emitted) operand) ∧
      ∃ earlier tys, emitted = earlier ++ List.map .alloca tys ∧
        tys.length = args.count .slot := by
  intro emitted
  unfold emitNodeArgs at result
  by_cases source : pipeline.isSource utilities node = true
  · rw [if_pos source, Emission.result_ofOption] at result
    obtain ⟨indices, found, rfl⟩ := Option.map_eq_some_iff.mp result
    have nothing : emitted = [] := by
      simp only [emitted, emitNodeArgs, if_pos source, Emission.emitted_ofOption]
    have noSlot : (indices.map Operand.arg).count .slot = 0 :=
      List.count_eq_zero.mpr fun member => by simp at member
    rw [nothing]
    refine ⟨trivial, fun operand member => ?_, [], [], rfl, by simp [noSlot]⟩
    obtain ⟨index, inside, rfl⟩ := List.mem_map.mp member
    exact lt_of_mem_matchSourceNodeArgs found inside
  · rw [if_neg source, Emission.result_bind] at result
    obtain ⟨available, offered, result⟩ := Option.bind_eq_some_iff.mp result
    have same : available = pipeline.availableValues types utilities nodeOutputs node :=
      (Option.some.inj offered).symm
    have values (value : Ty × Operand) (member : value ∈ available) :=
      available_cases (same ▸ member)
    obtain ⟨⟨tys, allocated, length⟩, places⟩ := emitArgs_spec (fun value member slot => by
      obtain ⟨up, ty, -, output | ⟨index, field⟩⟩ := values value member
      · cases output.symm.trans slot
      · cases field.symm.trans slot) result
    let extracts : List (Inst Ty Fn) :=
      (pipeline.emitAvailable types utilities nodeOutputs node).emitted
    have split : emitted = extracts ++ List.map .alloca tys := by
      simp only [emitted, emitNodeArgs, if_neg source]
      rw [Emission.emitted_bind_of_some offered, allocated]
    have extract {up : Name} {index : Nat} {value : Ty × Operand} (member : value ∈ available)
        (field : value.2 = .field up index) : .extractValue up index ∈ extracts :=
      List.mem_filterMap.mpr ⟨value, same ▸ member, by rw [field]⟩
    rw [split]
    refine ⟨Emission.sequenced_append.mpr ⟨?_, ?_⟩, fun operand member => ?_,
      extracts, tys, rfl, length⟩
    · refine Emission.sequenced_of_mem fun earlier longer inst member => ?_
      obtain ⟨value, inside, extracted⟩ := List.mem_filterMap.mp member
      obtain ⟨up, ty, found, output | ⟨index, field⟩⟩ := available_cases inside
      · simp only [output] at extracted
        cases extracted
      · simp only [field] at extracted
        cases extracted
        refine ⟨fun taken uses => ?_, ?_, ?_⟩
        · rw [List.mem_singleton.mp uses]
          exact (outputs up ty found).mono longer
        all_goals
          intros
          contradiction
    · refine Emission.sequenced_of_mem fun earlier _ inst member => ?_
      obtain ⟨ty, -, rfl⟩ := List.mem_map.mp member
      refine ⟨?_, ?_, ?_⟩
      all_goals
        intros
        contradiction
    · rcases places operand member with rfl | ⟨value, inside, rfl⟩ | ⟨index, bound, rfl⟩
      · have some : 0 < tys.length := length ▸ List.count_pos_iff.mpr member
        obtain ⟨ty, first⟩ := List.exists_mem_of_length_pos some
        exact ⟨ty, by simp [first]⟩
      · obtain ⟨up, ty, found, output | ⟨index, field⟩⟩ := values value inside
        · rw [output]
          exact (outputs up ty found).mono (List.prefix_append ..)
        · rw [field]
          exact List.mem_append_right _ (List.mem_append_left _ (extract inside field))
      · exact bound

/-- What is emitted so far is placed, and the recorded outputs are defined. -/
def Sound (utilities : Utilities) (demangle : Name → Name) (matched : Name → Option Fn)
    (module : Module Ty Fn) (pipeline : Pipeline) (params : Nat) (before : List (Inst Ty Fn))
    (nodeOutputs : List (Name × Ty)) : Prop :=
  Emission.Sequenced (Placed demangle matched module utilities pipeline params) [] before ∧
    ∀ up ty, nodeOutputs.lookup up = some ty → Defined demangle module params before (.output up)

omit [DecidableEq Ty] in
/-- A call with its load, after its arguments. -/
theorem outputInsts_placed {node : Name} {fn : Fn}
    (callee : pipeline.nodeCallee utilities matched node = some fn) {args : List Operand}
    (defined : ∀ operand ∈ args, Defined demangle module params.length before operand)
    (slots : ∃ earlier tys, before = earlier ++ List.map .alloca tys ∧
      tys.length = args.count .slot) :
    Emission.Sequenced (Placed demangle matched module utilities pipeline params.length) before
      (outputInsts demangle module node fn args) := by
  refine ⟨⟨defined, fun other otherFn operands same => ?_, fun other otherFn operands same => ?_⟩,
    ?_⟩
  · cases same
    exact callee
  · cases same
    exact slots
  · unfold emitLoad
    split
    · rename_i structRet _ first
      have slot : Operand.slot ∈ args := List.mem_of_mem_head? first
      refine ⟨⟨fun value uses => ?_, nofun, nofun⟩, trivial⟩
      rw [List.mem_singleton.mp uses]
      exact (defined _ slot).mono (List.prefix_append ..)
    · trivial

/-- One node keeps the emission sound. -/
theorem Sound.emitNode
    (sound : Sound utilities demangle matched module pipeline params.length before nodeOutputs)
    {node : Name} {next : List (Name × Ty)}
    (result : (pipeline.emitNode types utilities demangle matched module params nodeOutputs
      node).result = some next) :
    Sound utilities demangle matched module pipeline params.length
      (before ++ (pipeline.emitNode types utilities demangle matched module params nodeOutputs
        node).emitted) next := by
  unfold Pipeline.emitNode at result ⊢
  cases callee : pipeline.nodeCallee utilities matched node with
  | none =>
      rw [callee] at result
      cases result
      simpa using sound
  | some fn =>
      simp only [callee] at result ⊢
      rw [Emission.result_bind] at result
      obtain ⟨args, found, result⟩ := Option.bind_eq_some_iff.mp result
      obtain ⟨loads, -⟩ := emitLoad_spec Fn (describe demangle module fn) args
      simp only [Emission.result_bind, Emission.result_emit, loads, Option.bind_some,
        Emission.result_pure] at result
      cases result
      obtain ⟨placed, defined, earlier, tys, split, length⟩ :=
        emitNodeArgs_placed matched sound.2 found
      rw [Emission.emitted_bind_of_some found, Emission.emitted_emit_bind,
        Emission.emitted_bind_of_some loads, Emission.emitted_pure, List.append_nil,
        ← List.append_assoc]
      have call := outputInsts_placed callee defined
        ⟨before ++ earlier, tys, by rw [split, List.append_assoc], length⟩
      refine ⟨?_, fun up ty known => ?_⟩
      · refine Emission.sequenced_append.mpr ⟨Emission.sequenced_append.mpr ⟨sound.1, ?_⟩, ?_⟩
        · simpa using placed
        · rw [List.nil_append]
          exact call
      · rw [List.lookup_cons] at known
        split at known
        · rename_i here
          rw [eq_of_beq here]
          exact ⟨fn, args, (List.suffix_append ..).isInfix⟩
        · exact ((sound.2 up ty known).mono (List.prefix_append ..)).mono (List.prefix_append ..)

/-- The return takes the terminal output, which is defined where it is recorded. -/
theorem emitReturn_placed {returnTy : Ty} {terminalTy : Option Ty} {returned : Returned}
    (result : (pipeline.emitReturn types returnTy terminalTy :
      Emission (Inst Ty Fn) Returned).result = some returned)
    (terminal : terminalTy.isSome →
      Defined demangle module params.length before (.output pipeline.terminalNode)) :
    Emission.Sequenced (Placed demangle matched module utilities pipeline params.length) before
      (pipeline.emitReturn types returnTy terminalTy :
        Emission (Inst Ty Fn) Returned).emitted := by
  unfold emitReturn at result ⊢
  cases found : pipeline.generateReturn types returnTy terminalTy with
  | none =>
      rw [found] at result
      cases result
  | some returned =>
      have result : (Emission.ofOption (some returned) :
          Emission (Inst Ty Fn) Returned).result = some returned := rfl
      rw [Emission.emitted_bind_of_some result]
      cases returned with
      | void => exact ⟨⟨nofun, nofun, nofun⟩, trivial⟩
      | value operand =>
          have value : types.isVoid returnTy = false := by
            by_contra void
            unfold generateReturn at found
            rw [if_pos (by simpa using void)] at found
            cases found
          obtain ⟨other, same, output, known⟩ := operand_of_generateReturn value found
          obtain rfl := Returned.value.inj same
          have terminal := terminal known
          cases operand with
          | output node =>
              cases output
              exact ⟨⟨fun taken uses => List.mem_singleton.mp uses ▸ terminal, nofun, nofun⟩,
                trivial⟩
          | field node index =>
              cases output
              refine ⟨⟨fun taken uses => List.mem_singleton.mp uses ▸ terminal, nofun, nofun⟩,
                ⟨fun taken uses => ?_, nofun, nofun⟩, trivial⟩
              rw [List.mem_singleton.mp uses]
              exact List.mem_append_right _ (List.mem_singleton_self _)
          | arg | slot => cases output

/-! ## Bodies -/

variable {mapping : Mapping Ty}

/-- The nodes whose callees are known are called in order. -/
theorem callsFrom_names {generated nodes : List Name} {calls : List (Name × List Operand)}
    (found : pipeline.callsFrom types utilities mapping params generated nodes = some calls) :
    calls.map (·.1) =
      nodes.filter fun node => (pipeline.resolveFunction utilities mapping node).isSome := by
  induction nodes generalizing generated calls with
  | nil =>
      cases found
      rfl
  | cons node nodes ih =>
      cases resolved : pipeline.resolveFunction utilities mapping node with
      | none =>
          rw [callsFrom_cons_of_unknown resolved] at found
          rw [List.filter_cons_of_neg (by simp [resolved]), ih found]
      | some callee =>
          obtain ⟨args, later, -, rest, rfl⟩ := (callsFrom_cons_of_resolved resolved).mp found
          rw [List.filter_cons_of_pos (by simp [resolved]), List.map_cons, ih rest]

variable (types utilities demangle matched module pipeline) in
/-- A generated entry block is placed instruction by instruction. -/
theorem emitBody_placed {func : Function Ty Fn} {returned : Returned}
    (result : (pipeline.emitBody types utilities demangle matched module func).result =
      some returned) :
    Emission.Sequenced (Placed demangle matched module utilities pipeline func.params.length) []
      (pipeline.emitBody types utilities demangle matched module func).emitted := by
  unfold emitBody at result ⊢
  rw [Emission.result_bind] at result
  obtain ⟨nodeOutputs, nodes, returns⟩ := Option.bind_eq_some_iff.mp result
  have sound : Sound utilities demangle matched module pipeline func.params.length []
      ([] : List (Name × Ty)) := ⟨trivial, nofun⟩
  have kept := Emission.foldlM_keeps
    (Sound utilities demangle matched module pipeline func.params.length)
    (fun _ _ _ _ sound found => sound.emitNode found) pipeline.order sound nodes
  rw [List.nil_append] at kept
  rw [Emission.emitted_bind_of_some nodes]
  refine Emission.sequenced_append.mpr ⟨kept.1, emitReturn_placed returns fun known => ?_⟩
  obtain ⟨ty, found⟩ := Option.isSome_iff_exists.mp known
  exact kept.2 _ ty found

variable (types utilities demangle matched module pipeline) in
/-- A generated entry block ends with its return and has no other terminator. -/
theorem emitBody_straight {func : Function Ty Fn} {returned : Returned}
    (result : (pipeline.emitBody types utilities demangle matched module func).result =
      some returned) :
    ∃ straight, (pipeline.emitBody types utilities demangle matched module func).emitted =
        straight ++ [.ret returned] ∧ ∀ inst ∈ straight, inst.isTerminator = false := by
  have silent : (pipeline.order.foldlM
      (pipeline.emitNode types utilities demangle matched module func.params) []).Only
        (·.isTerminator = false) :=
    Emission.only_foldlM (fun _ _ => silent_emitNode _ _ _) _ _
  unfold emitBody at result ⊢
  rw [Emission.result_bind] at result
  obtain ⟨nodeOutputs, nodes, returns⟩ := Option.bind_eq_some_iff.mp result
  rw [Emission.emitted_bind_of_some nodes]
  have shape := emitReturn_eq Fn types pipeline func.returnTy
    (nodeOutputs.lookup pipeline.terminalNode)
  split at shape
  · rw [shape] at returns
    cases returns
  · obtain ⟨extracted, plain, emits⟩ := shape
    rw [emits] at returns ⊢
    cases returns
    refine ⟨_, (List.append_assoc _ _ _).symm, fun inst member => ?_⟩
    rcases List.mem_append.mp member with before | after
    · exact silent inst before
    · exact (plain inst after).1

end Pipeline

/-- The nodes that a block calls, in order. -/
def calledNodes (block : List (Inst Ty Fn)) : List Name :=
  (block.filterMap Inst.nodeCall?).map (·.1)

/-- Edges between staged nodes lead to later stages. -/
def Pipeline.Ascending (pipeline : Pipeline) : Prop :=
  ∀ edge ∈ pipeline.edges, ∀ first second, (edge.1, first) ∈ pipeline.stages →
    (edge.2, second) ∈ pipeline.stages → first < second

/-- One node is upstream of another along edges between staged nodes. -/
def Pipeline.Upstream (pipeline : Pipeline) : Name → Name → Prop :=
  TransGen fun first second => (first, second) ∈ pipeline.edges ∧
    first ∈ pipeline.stages.map (·.1) ∧ second ∈ pipeline.stages.map (·.1)

namespace Pipeline

variable {types : TypeSystem Ty} {utilities : Utilities} {demangle : Name → Name}
  {matched : Name → Option Fn} {module : Module Ty Fn} {pipeline : Pipeline}

theorem Upstream.before (ascending : pipeline.Ascending) {first second : Name}
    (upstream : pipeline.Upstream first second) : Before pipeline.order first second := by
  have step {first second : Name} (edge : (first, second) ∈ pipeline.edges ∧
      first ∈ pipeline.stages.map (·.1) ∧ second ∈ pipeline.stages.map (·.1)) :
      Before pipeline.order first second := by
    obtain ⟨edge, firstStaged, secondStaged⟩ := edge
    obtain ⟨⟨_, early⟩, firstStage, rfl⟩ := List.mem_map.mp firstStaged
    obtain ⟨⟨_, late⟩, secondStage, rfl⟩ := List.mem_map.mp secondStaged
    exact before_of_stage firstStage secondStage
      (ascending _ edge early late firstStage secondStage)
  induction upstream with
  | single edge => exact step edge
  | tail _ edge ih => exact ih.trans (step edge) pipeline.order_nodup

theorem calledNodes_emitBody {func : Fn} {straight : List (Inst Ty Fn)} {returned : Returned}
    (result : (pipeline.emitBody types utilities demangle matched module (module func)).result =
      some returned)
    (emitted : (pipeline.emitBody types utilities demangle matched module (module func)).emitted =
      straight ++ [.ret returned]) :
    calledNodes straight =
      pipeline.order.filter fun node => (pipeline.nodeCallee utilities matched node).isSome := by
  have spec := emitBody_spec types utilities demangle matched module pipeline (module func)
    (describe demangle module func) rfl rfl
  split at spec
  · rw [spec] at result
    cases result
  · rename_i generated found
    rw [generatePipelineBody_eq] at found
    obtain ⟨calls, called, found⟩ := Option.bind_eq_some_iff.mp found
    obtain ⟨_, _, rfl⟩ := Option.map_eq_some_iff.mp found
    have same : calls = straight.filterMap Inst.nodeCall? := by
      simpa [emitted, Inst.nodeCall?, List.filterMap_cons] using spec.2.1
    rw [calledNodes, ← same, callsFrom_names called]
    refine List.filter_congr fun node _ => ?_
    rw [resolveFunction_mappingOf, Option.isSome_map]

/-- **Call order.** Where the generator succeeds on a pipeline whose edges lead to later stages, the
body is straight-line code that calls each staged node with a known callee once and after the nodes
upstream of it, and every value that an instruction takes is defined before. -/
theorem calls_in_order [DecidableEq Fn] (types : TypeSystem Ty) (utilities : Utilities)
    (demangle : Name → Name) (matched : Name → Option Fn) (module : Module Ty Fn)
    (pipeline : Pipeline) (ascending : pipeline.Ascending) (target : Fn)
    (succeeds : (pipeline.writeBody types utilities demangle matched module target).1 = true) :
    ∃ straight returned,
      ((pipeline.writeBody types utilities demangle matched module target).2 target).blocks =
        [straight ++ [.ret returned]] ∧
      (∀ inst ∈ straight, inst.isTerminator = false) ∧
      (∀ node ∈ pipeline.stages.map (·.1), (pipeline.nodeCallee utilities matched node).isSome →
        (calledNodes straight).count node = 1) ∧
      (∀ first second, pipeline.Upstream first second →
        (pipeline.nodeCallee utilities matched first).isSome →
        (pipeline.nodeCallee utilities matched second).isSome →
          Before (calledNodes straight) first second) ∧
      ∀ before inst after, straight ++ [.ret returned] = before ++ inst :: after →
        Placed demangle matched module utilities pipeline (module target).params.length before
          inst := by
  obtain ⟨returned, result⟩ := Option.isSome_iff_exists.mp succeeds
  obtain ⟨straight, emitted, silent⟩ :=
    emitBody_straight types utilities demangle matched module pipeline result
  have placed := emitBody_placed types utilities demangle matched module pipeline result
  have names : calledNodes straight =
      pipeline.order.filter fun node => (pipeline.nodeCallee utilities matched node).isSome :=
    calledNodes_emitBody result emitted
  refine ⟨straight, returned, ?_, silent, fun node staged known => ?_,
    fun first second upstream firstKnown secondKnown => ?_, ?_⟩
  · simp [writeBody, emitted]
  · rw [names]
    have inside : node ∈ pipeline.order :=
      (groupNodesByStage_perm pipeline.stages).mem_iff.mpr staged
    exact List.count_eq_one_of_mem (pipeline.order_nodup.filter _)
      (List.mem_filter.mpr ⟨inside, known⟩)
  · rw [names]
    have kept := (upstream.before ascending).filter fun node =>
      (pipeline.nodeCallee utilities matched node).isSome
    have both : [first, second].filter (fun node =>
        (pipeline.nodeCallee utilities matched node).isSome) = [first, second] := by
      simp [firstKnown, secondKnown]
    rwa [both] at kept
  · rw [← emitted]
    exact Emission.sequenced_iff.mp placed

end Pipeline

end Emitted

/-- A source and a stage that returns a struct through a slot: `load` feeds `scale`. -/
def chainMatched : Name → Option Nat := fun name =>
  if name = "app::run".toList then some 0 else if name = "app::load".toList then some 2
  else if name = "app::scale".toList then some 3 else none

def chainModule : Module Nat Nat := fun fn =>
  if fn = 0 then ⟨"app::run".toList, [⟨1, none⟩], 5, [[.other (some 1) false, .other none true]]⟩
  else if fn = 1 then ⟨"topo::detail::pipeline_placeholder()".toList, [], 0, []⟩
  else if fn = 2 then ⟨"app::load".toList, [⟨1, none⟩], 2, [[.other none true]]⟩
  else ⟨"app::scale".toList, [⟨3, some 5⟩, ⟨2, none⟩], 0, [[.other none true]]⟩

def chainPipeline : Pipeline where
  qualifiedName := "app::run".toList
  calledFunctions := ["app::load".toList, "app::scale".toList]
  edges := [("load".toList, "scale".toList)]
  stages := [("scale".toList, 2), ("load".toList, 1)]
  sourceNodes := ["load".toList]
  terminalNode := "scale".toList
  distinct := by decide

theorem calls_in_order_chain :
    (calledNodes (((chainPipeline.writeBody scalarTypes Utilities.onLists id chainMatched
      chainModule 0).2 0).blocks.flatten)).count "scale".toList = 1 := by
  have ascending : chainPipeline.Ascending := by
    have all : ∀ edge ∈ chainPipeline.edges, ∀ first ∈ chainPipeline.stages,
        ∀ second ∈ chainPipeline.stages, first.1 = edge.1 → second.1 = edge.2 →
          first.2 < second.2 := by decide
    exact fun edge member first second firstStage secondStage =>
      all edge member _ firstStage _ secondStage rfl rfl
  obtain ⟨straight, returned, blocks, -, once, -⟩ := chainPipeline.calls_in_order scalarTypes
    Utilities.onLists id chainMatched chainModule ascending 0 (by decide)
  have called := once "scale".toList (by decide) (by decide)
  rw [blocks]
  simpa [calledNodes, Inst.nodeCall?, List.filterMap_cons] using called

end PipelineCodeGen
end TopoLlvm
