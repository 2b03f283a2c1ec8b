import TopoLlvm.JitEngine.ColdPruning
import TopoLlvm.JitEngine.ContextJson
import TopoLlvm.Library.JsonDump
import TopoLlvm.Library.Lookup
import TopoLlvm.Library.Text

/-!
# Pipelines as metadata

`serializeMetadata` writes the pipelines of a module as a JSON document; the engine reads them,
applies the constraints of a context and builds a symbol table again, in which stages that the
sources do not reach are left out.
-/

namespace TopoLlvm
namespace JitEngine

open Json (Value)
open TopoLlvm.Runtime (Name)
open PipelineCodeGen (Pipeline)
open Sweep (sweep mem_sweep Reached)

/-- The analysis of a pipeline; maps and sets are in the order of their iteration. -/
structure PipelineAnalysis where
  stages : List (Name × Int32)
  sourceNodes : List Name
  terminalNode : Name
  terminalType : Name
  /-- The fields that are used of each node's result. -/
  demand : List (Name × List Name)
  distinctStages : (stages.map (·.1)).Nodup
  distinctDemand : (demand.map (·.1)).Nodup

structure LogicBlockEntry where
  qualifiedName : Name
  simpleName : Name
  isPipeline : Bool
  calledFunctions : List Name
  edges : List (Name × Name)
  pipelineAnalysis : Option PipelineAnalysis

/-! ## Writing -/

/-- `json[key] = value` for each member, from a null value on. -/
def filled (members : List (List Char × Value)) : Value :=
  if members.isEmpty then .null else .object (entries members)

def intLexeme : Int → List Char
  | .ofNat number => Nat.toDigits 10 number
  | .negSucc number => '-' :: Nat.toDigits 10 (number + 1)

def names (texts : List Name) : Value := .array (texts.map .string)

def stagesValue (stages : List (Name × Int32)) : Value :=
  filled (stages.map (Prod.map id fun stage => .number (intLexeme stage.toInt)))

def demandValue (demand : List (Name × List Name)) : Value :=
  filled (demand.map (Prod.map id names))

/-- The object of one pipeline, with the hints of its functions if there are any. -/
def pipelineValue (block : LogicBlockEntry) (analysis : PipelineAnalysis) (hints : Option Value) :
    Value :=
  filled ([("name".toList, .string block.qualifiedName),
    ("simpleName".toList, .string block.simpleName),
    ("edges".toList, .array (block.edges.map edgeValue)),
    ("stages".toList, stagesValue analysis.stages),
    ("sourceNodes".toList, names analysis.sourceNodes),
    ("terminalNode".toList, .string analysis.terminalNode),
    ("terminalType".toList, .string analysis.terminalType),
    ("demand".toList, demandValue analysis.demand),
    ("calledFunctions".toList, names block.calledFunctions)] ++
      (hints.map fun hints => ("hints".toList, hints)).toList)

/-- The other sections of the document. -/
structure Sections where
  functions : Option Value
  parallel : Value
  adaptive : Option Value
  bindings : Option Value
  typeAdapters : Option Value

/-- The document of a symbol table, before it is dumped. -/
def metadataValue (logicBlocks : List LogicBlockEntry) (hints : LogicBlockEntry → Option Value)
    (sections : Sections) : Value :=
  let pipelines := logicBlocks.filterMap fun block =>
    if block.isPipeline then
      block.pipelineAnalysis.map fun analysis => pipelineValue block analysis (hints block)
    else none
  filled (("pipelines".toList, .array pipelines) ::
    ((sections.functions.map fun value => ("functions".toList, value)).toList ++
      [("parallel".toList, sections.parallel)] ++
      (sections.adaptive.map fun value => ("adaptive".toList, value)).toList ++
      (sections.bindings.map fun value => ("bindings".toList, value)).toList ++
      (sections.typeAdapters.map fun value => ("typeAdapters".toList, value)).toList))

/-- The text of the document, with the library's `dump`. -/
def serializeMetadata (dump : Value → Bytes) (logicBlocks : List LogicBlockEntry)
    (hints : LogicBlockEntry → Option Value) (sections : Sections) : Bytes :=
  dump (metadataValue logicBlocks hints sections)

/-! ## Reading -/

/-- The characters of a string value. -/
def getName : Value → Option Name
  | .string chars => some chars
  | .null | .boolean _ | .number _ | .array _ | .object _ => none

/-- `value(key, fallback)` for a value of any kind. -/
def valueOr (key : List Char) (fallback : Value) : Value → Option Value
  | .object members => some (((entries members).lookup key).getD fallback)
  | .null | .boolean _ | .number _ | .string _ | .array _ => none

/-- `value(key, "")`. -/
def valueName (key : List Char) (value : Value) : Option Name :=
  (valueOr key (.string []) value).bind getName

/-- `get<int>()` of a whole number. -/
def getInt : Value → Option Int32
  | .number lexeme =>
      let digits := if lexeme.head? = some '-' then lexeme.tail else lexeme
      let magnitude := Nat.ofDigitChars 10 digits 0
      if digits.all Char.isDigit then
        some (Int32.ofInt (if lexeme.head? = some '-' then -magnitude else magnitude))
      else none
  | .null | .boolean _ | .string _ | .array _ | .object _ => none

structure PipelineMeta where
  name : Name
  stages : Value
  edges : Value
  demand : Value
  sourceNodes : List Name
  terminalNode : Name
  terminalType : Name
  calledFunctions : List Name

/-- The names in a member that may be missing. -/
def namesOfMember (key : List Char) (value : Value) : Option (List Name) :=
  ((member? key value).elim [] elements).mapM getName

/-- An element of `pipelines`. -/
def readPipelineMeta (p : Value) : Option PipelineMeta := do
  let name ← valueName "name".toList p
  let stages ← valueOr "stages".toList (.object []) p
  let edges ← valueOr "edges".toList (.array []) p
  let demand ← valueOr "demand".toList (.object []) p
  let terminalNode ← valueName "terminalNode".toList p
  let terminalType ← valueName "terminalType".toList p
  let sourceNodes ← namesOfMember "sourceNodes".toList p
  let calledFunctions ← namesOfMember "calledFunctions".toList p
  return { name, stages, edges, demand, sourceNodes, terminalNode, terminalType, calledFunctions }

/-- No result where a type error is thrown. -/
def parseMetadata (parse : Parser) (json : Bytes) : Option (List PipelineMeta) :=
  match parse json with
  | none => some []
  | some doc => ((member? "pipelines".toList doc).elim [] elements).mapM readPipelineMeta

/-- `edge[key] == text`. -/
def memberIs (key : List Char) (text : Name) (edge : Value) : Bool :=
  (member? key edge).bind getName = some text

namespace PipelineMeta

/-- Erase the edges that a pruned edge matches. -/
def pruneEdges (pruned : Name × Name) : Value → Value
  | .array edges => .array (edges.filter fun edge =>
      !((pruned.1 = ['*'] || memberIs "source".toList pruned.1 edge) &&
        (pruned.2 = ['*'] || memberIs "target".toList pruned.2 edge)))
  | value => value

/-- Replace the demand of a node that has one. -/
def narrowDemand (narrow : NarrowedReturn Name) : Value → Value
  | .object members =>
      if ((entries members).lookup narrow.func).isSome then
        .object (assign narrow.func (names narrow.fields) (entries members))
      else .object members
  | value => value

/-- `applyConstraints` on one pipeline. -/
def applyConstraints (ctx : ContextData Name) (pipeline : PipelineMeta) : PipelineMeta :=
  { pipeline with
    edges := ctx.prunedEdges.foldl (fun edges pruned => pruneEdges pruned edges) pipeline.edges
    demand := ctx.narrowedReturns.foldl (fun demand narrow => narrowDemand narrow demand)
      pipeline.demand }

end PipelineMeta

/-- An element of `edges` in the synthetic symbol table. -/
def readPipelineEdge (e : Value) : Option (Name × Name) := do
  let source ← valueName "source".toList e
  let target ← valueName "target".toList e
  return (source, target)

/-- A set of names, from names in any order. -/
def nameSet (fields : List Name) : List Name :=
  (entries (fields.map fun field => (field, ()))).map (·.1)

/-- The field set of a node. -/
def readFields (fields : Value) : Option (List Name) :=
  ((elements fields).mapM getName).map nameSet

/-- The analysis in the synthetic symbol table, without the stages that are not reached. -/
def syntheticAnalysis (pipeline : PipelineMeta) (edges : List (Name × Name))
    (stages : List (Name × Int32)) (demand : List (Name × List Name)) : PipelineAnalysis where
  stages := (entries stages).filter (·.1 ∈ sweep edges pipeline.sourceNodes)
  sourceNodes := pipeline.sourceNodes
  terminalNode := pipeline.terminalNode
  terminalType := pipeline.terminalType
  demand := entries demand
  distinctStages := (nodup_entries stages).sublist (List.filter_sublist.map _)
  distinctDemand := nodup_entries demand

def syntheticEntry (pipeline : PipelineMeta) (edges : List (Name × Name))
    (stages : List (Name × Int32)) (demand : List (Name × List Name)) : LogicBlockEntry where
  qualifiedName := pipeline.name
  simpleName := Text.afterLast [':', ':'] pipeline.name
  isPipeline := true
  calledFunctions := pipeline.calledFunctions
  edges := edges
  pipelineAnalysis := some (syntheticAnalysis pipeline edges stages demand)

/-- The logic block that the engine builds. -/
def buildEntry (pipeline : PipelineMeta) : Option LogicBlockEntry := do
  let edges ← (elements pipeline.edges).mapM readPipelineEdge
  let stages ← (items pipeline.stages).mapM fun (node, stage) => (getInt stage).map (node, ·)
  let demand ← (items pipeline.demand).mapM fun (node, fields) =>
    (readFields fields).map (node, ·)
  return syntheticEntry pipeline edges stages demand

/-- The logic blocks of the synthetic symbol table. -/
def syntheticSymbols (parse : Parser) (ctx : ContextData Name) (json : Bytes) :
    Option (List LogicBlockEntry) := do
  let pipelines ← parseMetadata parse json
  (pipelines.map (PipelineMeta.applyConstraints ctx)).mapM buildEntry

/-! ## What is read of what was written -/

theorem lookup_filled {members : List (List Char × Value)} (key : List Char) :
    member? key (filled members) = members.reverse.lookup key := by
  unfold filled
  split
  · rename_i empty
    rw [List.isEmpty_iff.mp empty]
    rfl
  · rw [member?, lookup_entries, lookup_reverse (nodup_entries members), lookup_entries]

theorem lookup_filled_cons {members : List (List Char × Value)} {key : List Char} {value : Value}
    (others : ∀ member ∈ members, member.1 ≠ key) :
    member? key (filled ((key, value) :: members)) = some value := by
  have absent : members.reverse.lookup key = none := by
    refine List.lookup_eq_none_iff.mpr fun member inside => ?_
    exact bne_iff_ne.mpr (others member (List.mem_reverse.mp inside)).symm
  rw [lookup_filled, List.reverse_cons, List.lookup_append, absent, lookup_cons, if_pos rfl]
  rfl

theorem valueOr_filled {members : List (List Char × Value)} {key : List Char} {value : Value}
    (found : members.reverse.lookup key = some value) (fallback : Value) :
    valueOr key fallback (filled members) = some value := by
  have known := (lookup_filled key).trans found
  unfold filled at known ⊢
  split
  · rename_i empty
    rw [if_pos empty] at known
    cases known
  · rename_i nonempty
    rw [if_neg nonempty, member?] at known
    rw [valueOr, known]
    rfl

theorem items_filled {members : List (List Char × Value)}
    (distinct : (members.map (·.1)).Nodup) : (items (filled members)).Perm members := by
  unfold filled
  split
  · rename_i empty
    rw [List.isEmpty_iff.mp empty]
    exact .refl _
  · exact (entries_perm (nodup_entries members)).trans (entries_perm distinct)

theorem mapM_getName (texts : List Name) : (texts.map Value.string).mapM getName = some texts := by
  simpa using Traversal.mapM_map (fun text => show getName (.string text) = some (id text) from rfl)
    texts

theorem head?_toDigits_ne (number : Nat) : (Nat.toDigits 10 number).head? ≠ some '-' :=
  fun starts => absurd (Nat.isDigit_of_mem_toDigits (by decide) (by decide)
    (List.mem_of_mem_head? starts)) (by decide)

theorem getInt_intLexeme (stage : Int32) :
    getInt (.number (intLexeme stage.toInt)) = some stage := by
  have isDigit (number : Nat) : (Nat.toDigits 10 number).all Char.isDigit = true :=
    List.all_eq_true.mpr fun c member => Nat.isDigit_of_mem_toDigits (by decide) (by decide) member
  cases value : stage.toInt with
  | ofNat number =>
      simp only [intLexeme, getInt, head?_toDigits_ne, if_false, isDigit, if_true,
        Nat.ofDigitChars_ten_toDigits]
      rw [← Int.ofNat_eq_natCast, ← value, Int32.ofInt_toInt]
  | negSucc number =>
      simp only [intLexeme, getInt, List.head?_cons, if_true, List.tail_cons, isDigit,
        Nat.ofDigitChars_ten_toDigits]
      rw [Int.natCast_add, Int.cast_ofNat_Int, ← Int.negSucc_eq, ← value, Int32.ofInt_toInt]

theorem valueName_filled {members : List (List Char × Value)} {key : List Char} {text : Name}
    (found : members.reverse.lookup key = some (.string text)) :
    valueName key (filled members) = some text := by
  rw [valueName, valueOr_filled found]
  rfl

theorem namesOfMember_filled {members : List (List Char × Value)} {key : List Char}
    {texts : List Name} (found : members.reverse.lookup key = some (names texts)) :
    namesOfMember key (filled members) = some texts := by
  rw [namesOfMember, lookup_filled, found, Option.elim_some, names, elements, mapM_getName]

/-! ## The round trip -/

/-- A fixed order of the nodes of a stage map. -/
structure Arrangement where
  arrange : List (Name × Int32) → List (Name × Int32)
  perm : ∀ stages, (stages.map (·.1)).Nodup → (arrange stages).Perm stages
  /-- It depends on the nodes and their stages only. -/
  fixed : ∀ stages others, (stages.map (·.1)).Nodup → stages.Perm others →
    arrange stages = arrange others

/-- The pipeline that bodies are generated from. -/
def LogicBlockEntry.pipeline (arrangement : Arrangement) (block : LogicBlockEntry)
    (analysis : PipelineAnalysis) : Pipeline where
  qualifiedName := block.qualifiedName
  calledFunctions := block.calledFunctions
  edges := block.edges
  stages := (arrangement.arrange analysis.stages).map (Prod.map id Int32.toInt)
  sourceNodes := analysis.sourceNodes
  terminalNode := analysis.terminalNode
  distinct := by
    rw [List.map_map]
    exact ((arrangement.perm _ analysis.distinctStages).map (·.1)).nodup_iff.mpr
      analysis.distinctStages

/-- An entry and its analysis say what another entry and its analysis say. -/
structure Agrees (block : LogicBlockEntry) (analysis : PipelineAnalysis)
    (again : LogicBlockEntry) (rebuilt : PipelineAnalysis) : Prop where
  qualifiedName : again.qualifiedName = block.qualifiedName
  calledFunctions : again.calledFunctions = block.calledFunctions
  edges : again.edges = block.edges
  stages : ∀ node, rebuilt.stages.lookup node = analysis.stages.lookup node
  sourceNodes : rebuilt.sourceNodes = analysis.sourceNodes
  terminalNode : rebuilt.terminalNode = analysis.terminalNode
  terminalType : rebuilt.terminalType = analysis.terminalType
  demand : ∀ node, (rebuilt.demand.lookup node).map (fun fields => {field | field ∈ fields}) =
    (analysis.demand.lookup node).map fun fields => {field | field ∈ fields}

/-- The same bodies are generated from both, for every fixed order of the nodes. -/
def SameBodies (block : LogicBlockEntry) (analysis : PipelineAnalysis) (again : LogicBlockEntry)
    (rebuilt : PipelineAnalysis) : Prop :=
  ∀ (arrangement : Arrangement) (Ty : Type) [DecidableEq Ty]
    (types : PipelineCodeGen.TypeSystem Ty) (utilities : PipelineCodeGen.Utilities)
    (mapping : PipelineCodeGen.Mapping Ty) (func : PipelineCodeGen.ModuleFunction Ty),
    (again.pipeline arrangement rebuilt).generatePipelineBody types utilities mapping func =
      (block.pipeline arrangement analysis).generatePipelineBody types utilities mapping func

/-- The logic blocks that are written, with their analyses. -/
def written (logicBlocks : List LogicBlockEntry) : List (LogicBlockEntry × PipelineAnalysis) :=
  logicBlocks.filterMap fun block =>
    if block.isPipeline then block.pipelineAnalysis.map fun analysis => (block, analysis) else none

theorem mem_nameSet {fields : List Name} {field : Name} :
    field ∈ nameSet fields ↔ field ∈ fields := by
  have keys (map : List (Name × Unit)) :
      field ∈ map.map (·.1) ↔ map.lookup field ≠ none := by
    rw [Ne, List.lookup_eq_none_iff, List.mem_map]
    simp only [bne_iff_ne, ne_eq, not_forall, not_not, exists_prop]
    exact exists_congr fun entry => and_congr_right fun _ => eq_comm
  rw [nameSet, keys, lookup_entries, ← keys]
  simp

/-- The members of a written map are read again. -/
theorem read_items {V W : Type} {members : List (Name × V)}
    (distinct : (members.map (·.1)).Nodup) {encode : V → Value} {read : Value → Option W}
    {result : V → W} (each : ∀ value, read (encode value) = some (result value)) :
    ∃ found, (items (filled (members.map (Prod.map id encode)))).mapM
        (fun (key, value) => (read value).map (key, ·)) = some found ∧
      found.Perm (members.map (Prod.map id result)) := by
  refine Traversal.mapM_perm (items_filled ?_) (Traversal.mapM_map (fun member => ?_) members)
  · rw [List.map_map]
    exact distinct
  · simp [Prod.map, each]

/-- The pipeline as it is read from what was written. -/
def LogicBlockEntry.metadata (block : LogicBlockEntry) (analysis : PipelineAnalysis) :
    PipelineMeta where
  name := block.qualifiedName
  stages := stagesValue analysis.stages
  edges := .array (block.edges.map edgeValue)
  demand := demandValue analysis.demand
  sourceNodes := analysis.sourceNodes
  terminalNode := analysis.terminalNode
  terminalType := analysis.terminalType
  calledFunctions := block.calledFunctions

theorem readPipelineMeta_pipelineValue (block : LogicBlockEntry) (analysis : PipelineAnalysis)
    (hints : Option Value) :
    readPipelineMeta (pipelineValue block analysis hints) = some (block.metadata analysis) := by
  unfold pipelineValue readPipelineMeta
  cases hints <;>
    rw [valueName_filled rfl, valueOr_filled rfl, valueOr_filled rfl, valueOr_filled rfl,
      valueName_filled rfl, valueName_filled rfl, namesOfMember_filled rfl,
      namesOfMember_filled rfl] <;>
    rfl

/-- What the engine builds from a pipeline that was written. -/
theorem buildEntry_metadata (block : LogicBlockEntry) (analysis : PipelineAnalysis)
    (reached : ∀ entry ∈ analysis.stages, Reached block.edges analysis.sourceNodes entry.1) :
    ∃ again rebuilt, buildEntry (block.metadata analysis) = some again ∧
      again.isPipeline = true ∧ again.pipelineAnalysis = some rebuilt ∧
      Agrees block analysis again rebuilt ∧ rebuilt.stages.Perm analysis.stages := by
  have edges : (block.edges.map edgeValue).mapM readPipelineEdge = some block.edges := by
    simpa using Traversal.mapM_map (fun e => show readPipelineEdge (edgeValue e) = some (id e)
      from rfl) block.edges
  obtain ⟨stages, readStages, permStages⟩ :=
    read_items analysis.distinctStages getInt_intLexeme
  change stages.Perm (analysis.stages.map id) at permStages
  rw [List.map_id] at permStages
  obtain ⟨demand, readDemand, permDemand⟩ :=
    @read_items _ _ _ analysis.distinctDemand names readFields nameSet fun fields => by
      rw [readFields, names, elements, mapM_getName]
      rfl
  have distinct : (stages.map (·.1)).Nodup :=
    (permStages.map _).nodup_iff.mpr analysis.distinctStages
  have perm : (entries stages).Perm analysis.stages := (entries_perm distinct).trans permStages
  -- Nothing is left out, since every stage is reached.
  have whole : (syntheticAnalysis (block.metadata analysis) block.edges stages demand).stages =
      entries stages :=
    List.filter_eq_self.mpr fun entry member =>
      decide_eq_true (mem_sweep.mpr (reached entry (perm.mem_iff.mp member)))
  have demandKeys : (demand.map (·.1)).Nodup := by
    rw [(permDemand.map _).nodup_iff, List.map_map]
    exact analysis.distinctDemand
  refine ⟨syntheticEntry (block.metadata analysis) block.edges stages demand,
    syntheticAnalysis (block.metadata analysis) block.edges stages demand, ?_, rfl, rfl,
    ⟨rfl, rfl, rfl, fun node => ?_, rfl, rfl, rfl, fun node => ?_⟩, ?_⟩
  · simp only [buildEntry, LogicBlockEntry.metadata, elements, edges, stagesValue, readStages,
      demandValue, readDemand]
    rfl
  · rw [whole]
    exact Lookup.perm (nodup_entries stages) perm node
  · simp only [syntheticAnalysis]
    rw [Lookup.perm (nodup_entries demand) ((entries_perm demandKeys).trans permDemand), Lookup.map,
      Option.map_map]
    refine congrFun (congrArg Option.map (funext fun fields => ?_)) _
    exact Set.ext fun field => mem_nameSet
  · rw [whole]
    exact perm

/-- Agreement is enough for the same bodies. -/
theorem Agrees.sameBodies {block again : LogicBlockEntry} {analysis rebuilt : PipelineAnalysis}
    (agrees : Agrees block analysis again rebuilt)
    (stages : rebuilt.stages.Perm analysis.stages) : SameBodies block analysis again rebuilt := by
  intro arrangement Ty _ types utilities mapping func
  have order := arrangement.fixed _ _ rebuilt.distinctStages stages
  have same : again.pipeline arrangement rebuilt = block.pipeline arrangement analysis := by
    simp only [LogicBlockEntry.pipeline, agrees.qualifiedName, agrees.calledFunctions,
      agrees.edges, agrees.sourceNodes, agrees.terminalNode, order]
  rw [same]

/-- The engine rebuilds every pipeline that was written: entry and analysis agree, and so do the
generated bodies. -/
theorem metadata_roundtrip (dump : Value → Bytes) (parse : Parser)
    (logicBlocks : List LogicBlockEntry) (hints : LogicBlockEntry → Option Value)
    (sections : Sections)
    (inverse : parse (dump (metadataValue logicBlocks hints sections)) =
      some (metadataValue logicBlocks hints sections))
    (reached : ∀ entry ∈ written logicBlocks, ∀ node ∈ entry.2.stages,
      Reached entry.1.edges entry.2.sourceNodes node.1) :
    ∃ table, syntheticSymbols parse { prunedEdges := [], narrowedReturns := [] }
        (serializeMetadata dump logicBlocks hints sections) = some table ∧
      List.Forall₂ (fun entry again => again.isPipeline = true ∧
        ∃ rebuilt, again.pipelineAnalysis = some rebuilt ∧
          Agrees entry.1 entry.2 again rebuilt ∧ SameBodies entry.1 entry.2 again rebuilt)
        (written logicBlocks) table := by
  have doc : member? "pipelines".toList (metadataValue logicBlocks hints sections) =
      some (.array (logicBlocks.filterMap fun block =>
        if block.isPipeline then
          block.pipelineAnalysis.map fun analysis => pipelineValue block analysis (hints block)
        else none)) := by
    refine lookup_filled_cons fun member inside => ?_
    simp only [List.mem_append, Option.mem_toList, Option.map_eq_some_iff,
      List.mem_singleton] at inside
    rcases inside with (((⟨value, -, rfl⟩ | rfl) | ⟨value, -, rfl⟩) | ⟨value, -, rfl⟩) |
      ⟨value, -, rfl⟩ <;> dsimp only <;> decide
  have pipelines : (logicBlocks.filterMap fun block =>
      if block.isPipeline then
        block.pipelineAnalysis.map fun analysis => pipelineValue block analysis (hints block)
      else none) =
        (written logicBlocks).map fun entry => pipelineValue entry.1 entry.2 (hints entry.1) := by
    rw [written, List.map_filterMap]
    refine List.filterMap_congr fun block _ => ?_
    split
    · cases block.pipelineAnalysis <;> rfl
    · rfl
  have parsed : parseMetadata parse (serializeMetadata dump logicBlocks hints sections) =
      some ((written logicBlocks).map fun entry => entry.1.metadata entry.2) := by
    rw [parseMetadata, serializeMetadata, inverse]
    simp only [doc, pipelines, Option.elim_some, elements]
    have each (entry : LogicBlockEntry × PipelineAnalysis) :
        readPipelineMeta (pipelineValue entry.1 entry.2 (hints entry.1)) =
          some (entry.1.metadata entry.2) :=
      readPipelineMeta_pipelineValue entry.1 entry.2 (hints entry.1)
    generalize pipelineValue = write at each ⊢
    exact Traversal.mapM_map each _
  clear doc pipelines inverse
  have unconstrained (pipeline : PipelineMeta) : PipelineMeta.applyConstraints
      { prunedEdges := [], narrowedReturns := [] } pipeline = pipeline := rfl
  simp only [syntheticSymbols, parsed, Option.bind_eq_bind, Option.bind_some, List.map_map,
    Function.comp_def, unconstrained]
  generalize written logicBlocks = entries at reached ⊢
  induction entries with
  | nil => exact ⟨[], rfl, .nil⟩
  | cons entry entries ih =>
      obtain ⟨table, read, rest⟩ := ih fun other member =>
        reached other (List.mem_cons_of_mem _ member)
      obtain ⟨again, rebuilt, built, isPipeline, analysis, agrees, stages⟩ :=
        buildEntry_metadata entry.1 entry.2 (reached entry List.mem_cons_self)
      refine ⟨again :: table, ?_,
        .cons ⟨isPipeline, rebuilt, analysis, agrees, agrees.sameBodies stages⟩ rest⟩
      rw [List.map_cons, List.mapM_cons, built, read]
      rfl

/-- Nodes in the order of their names. -/
def Arrangement.byName : Arrangement where
  arrange := entries
  perm _ distinct := entries_perm distinct
  fixed stages others distinct same := by
    have other : (others.map (·.1)).Nodup := (same.map _).nodup_iff.mp distinct
    have perm := (entries_perm distinct).trans (same.trans (entries_perm other).symm)
    refine perm.eq_of_pairwise (fun entry later _ _ before after => ?_)
      (increasing_entries stages) (increasing_entries others)
    exact (List.lt_irrefl _ (List.lt_trans before after)).elim

/-! ## Documents that can be read -/

theorem mem_of_mem_assign {V : Type} {key : List Char} {value : V} {map : List (List Char × V)}
    {entry : List Char × V} (member : entry ∈ assign key value map) :
    entry = (key, value) ∨ entry ∈ map := by
  induction map with
  | nil => exact .inl (List.mem_singleton.mp member)
  | cons first map ih =>
      rw [assign] at member
      split at member
      · exact List.mem_cons.mp member
      · split at member
        · exact (List.mem_cons.mp member).imp_right (List.mem_cons_of_mem _)
        · rcases List.mem_cons.mp member with rfl | later
          · exact .inr List.mem_cons_self
          · exact (ih later).imp_right (List.mem_cons_of_mem _)

theorem isNumeric_filled {members : List (List Char × Value)}
    (numeric : ∀ member ∈ members, member.2.IsNumeric) : (filled members).IsNumeric := by
  unfold filled
  split
  · trivial
  · refine Json.membersNumeric_iff.mpr ?_
    refine List.foldlRecOn (motive := fun map : List (List Char × Value) =>
      ∀ member ∈ map, member.2.IsNumeric) _ _ (fun _ absent => by cases absent) ?_
    intro map holds member inside entry found
    rcases mem_of_mem_assign found with rfl | old
    · exact numeric member inside
    · exact holds entry old

theorem isNumeric_names (texts : List Name) : (names texts).IsNumeric :=
  Json.allNumeric_iff.mpr (List.forall_mem_map.mpr fun _ _ => trivial)

theorem isNumber_intLexeme (number : Int) : Json.isNumber (intLexeme number) = true := by
  cases number with
  | ofNat number => exact Json.isNumber_toDigits number
  | negSucc number =>
      have positive := Json.isNumber_toDigits (number + 1)
      simp only [Json.isNumber, if_neg (head?_toDigits_ne (number + 1))] at positive
      exact positive

theorem isNumeric_pipelineValue (block : LogicBlockEntry) (analysis : PipelineAnalysis)
    {hints : Option Value} (numeric : ∀ value ∈ hints, value.IsNumeric) :
    (pipelineValue block analysis hints).IsNumeric := by
  have edges : (Value.array (block.edges.map edgeValue)).IsNumeric :=
    Json.allNumeric_iff.mpr (List.forall_mem_map.mpr fun _ _ => ⟨trivial, trivial, trivial⟩)
  have stages : (stagesValue analysis.stages).IsNumeric :=
    isNumeric_filled (List.forall_mem_map.mpr fun entry _ => isNumber_intLexeme _)
  have demand : (demandValue analysis.demand).IsNumeric :=
    isNumeric_filled (List.forall_mem_map.mpr fun entry _ => isNumeric_names _)
  refine isNumeric_filled fun member inside => ?_
  rcases List.mem_append.mp inside with fixed | hint
  · simp only [List.mem_cons, List.not_mem_nil, or_false] at fixed
    rcases fixed with rfl | rfl | rfl | rfl | rfl | rfl | rfl | rfl | rfl
    exacts [trivial, trivial, edges, stages, isNumeric_names _, trivial, trivial, demand,
      isNumeric_names _]
  · simp only [Option.mem_toList, Option.map_eq_some_iff] at hint
    obtain ⟨value, known, rfl⟩ := hint
    exact numeric value known

/-- The numbers of the sections that are given as they are. -/
structure Sections.IsNumeric (sections : Sections) : Prop where
  functions : ∀ value ∈ sections.functions, value.IsNumeric
  parallel : sections.parallel.IsNumeric
  adaptive : ∀ value ∈ sections.adaptive, value.IsNumeric
  bindings : ∀ value ∈ sections.bindings, value.IsNumeric
  typeAdapters : ∀ value ∈ sections.typeAdapters, value.IsNumeric

/-- The document is one that the dumped text spells. -/
theorem isNumeric_metadataValue {logicBlocks : List LogicBlockEntry}
    {hints : LogicBlockEntry → Option Value} {sections : Sections}
    (hinted : ∀ block ∈ logicBlocks, ∀ value ∈ hints block, value.IsNumeric)
    (numeric : sections.IsNumeric) : (metadataValue logicBlocks hints sections).IsNumeric := by
  refine isNumeric_filled fun member inside => ?_
  rcases List.mem_cons.mp inside with rfl | section'
  · refine Json.allNumeric_iff.mpr fun value written => ?_
    obtain ⟨block, known, made⟩ := List.mem_filterMap.mp written
    split at made
    · obtain ⟨analysis, -, rfl⟩ := Option.map_eq_some_iff.mp made
      exact isNumeric_pipelineValue block analysis (hinted block known)
    · cases made
  · simp only [List.mem_append, Option.mem_toList, Option.map_eq_some_iff,
      List.mem_singleton] at section'
    rcases section' with (((⟨value, known, rfl⟩ | rfl) | ⟨value, known, rfl⟩) |
      ⟨value, known, rfl⟩) | ⟨value, known, rfl⟩
    · exact numeric.functions value known
    · exact numeric.parallel
    · exact numeric.adaptive value known
    · exact numeric.bindings value known
    · exact numeric.typeAdapters value known

/-! ## A pipeline with an empty field set -/

def loadAnalysis : PipelineAnalysis where
  stages := [("scale".toList, 1), ("load".toList, 0)]
  sourceNodes := ["load".toList]
  terminalNode := "scale".toList
  terminalType := "double".toList
  demand := [("load".toList, [])]
  distinctStages := by decide
  distinctDemand := by decide

def loadBlock : LogicBlockEntry where
  qualifiedName := "app::run".toList
  simpleName := "run".toList
  isPipeline := true
  calledFunctions := ["app::load".toList, "app::scale".toList]
  edges := [("load".toList, "scale".toList)]
  pipelineAnalysis := some loadAnalysis

def loadSections : Sections where
  functions := none
  parallel := .object [("enabled".toList, .boolean true)]
  adaptive := none
  bindings := none
  typeAdapters := none

theorem metadata_roundtrip_load :
    ∃ again, syntheticSymbols parseBytes { prunedEdges := [], narrowedReturns := [] }
        (serializeMetadata (utf8 ∘ Json.dump) [loadBlock] (fun _ => none) loadSections) =
          some [again] ∧
      again.isPipeline = true ∧ ∃ rebuilt, again.pipelineAnalysis = some rebuilt ∧
        Agrees loadBlock loadAnalysis again rebuilt ∧
          SameBodies loadBlock loadAnalysis again rebuilt := by
  have numeric : (metadataValue [loadBlock] (fun _ => none) loadSections).IsNumeric :=
    isNumeric_metadataValue (fun _ _ => nofun) ⟨nofun, ⟨trivial, trivial⟩, nofun, nofun, nofun⟩
  have inverse : parseBytes (utf8 (Json.dump (metadataValue [loadBlock] (fun _ => none)
      loadSections))) = some (metadataValue [loadBlock] (fun _ => none) loadSections) :=
    (conforms_parseBytes _ _).mpr ⟨_, rfl, Json.spells_dump numeric⟩
  have reached : ∀ entry ∈ written [loadBlock], ∀ node ∈ entry.2.stages,
      Reached entry.1.edges entry.2.sourceNodes node.1 := by
    have inSweep : ∀ node ∈ loadAnalysis.stages,
        node.1 ∈ sweep loadBlock.edges loadAnalysis.sourceNodes := by decide
    intro entry member node inside
    obtain rfl := List.mem_singleton.mp member
    exact mem_sweep.mp (inSweep node inside)
  obtain ⟨table, read, agree⟩ := metadata_roundtrip (utf8 ∘ Json.dump) parseBytes [loadBlock]
    (fun _ => none) loadSections inverse reached
  obtain ⟨again, rest, ⟨isPipeline, agrees⟩, none, rfl⟩ := List.forall₂_cons_left_iff.mp agree
  obtain rfl := List.forall₂_nil_left_iff.mp none
  exact ⟨again, read, isPipeline, agrees⟩

end JitEngine
end TopoLlvm
