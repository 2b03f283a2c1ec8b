import TopoLlvm.Transforms.DataLayout
import TopoLlvm.Transforms.InlineRewrite

/-!
# The rewritten function runs along

A pipeline function with columns runs along with the original one.  The memories are the same but for
the fields that have columns, which are moved.  Where the recognised accesses go where the pass takes
them to go and nothing else touches the fields, a return is the same in both, and an exception leaves
the fields as they were at the entry.
-/

namespace TopoLlvm
namespace InlineRewrite

open ReturnSpecialization RecordLayout
open DataLayout (Ty GEP FieldGEP ArrayOfStructInfo shapes)
open Relocation (Inside)

/-- Types as the data layout has them: GEPs address by it, and fields have no padding that a load or
a store passes over. -/
structure Layout (site : Site) (setting : Setting) where
  types : Nat → Ty
  info : ArrayOfStructInfo
  wrapper : types site.wrapperSty = info.wrapperType
  arraySize : site.arraySize = info.arraySize
  elements : site.fieldTypes.map types = info.elements
  column : ∀ field type, site.fieldTypes[field]? = some type →
    types (site.columnType field) = .array (types type) site.arraySize
  address : ∀ (gep : GEP Nat) (source : Nat) (range : Range) (last : Ty),
    types source = gep.sourceElementType → gep.range id = some (range, last) →
      setting.gep source (.word gep.pointerOperand)
        (gep.indices.map fun index => .word (index.eval id)) = .word range.start
  small : ∀ type ∈ site.fieldTypes, setting.size type ≤ (types type).shape.size
  copied : ∀ type ∈ site.fieldTypes, ∀ bytes : List UInt8, bytes.length = setting.size type →
    setting.encode type (setting.decode type bytes) = bytes

/-- A field of an element that has a column. -/
abbrev Block (site : Site) (func : Function) :=
  Fin site.arraySize × { field : Nat // field ∈ site.liveFields func }

namespace Site

variable (site : Site) (func : Function)

def IsColumn (index : Nat) : Prop :=
  ∃ field element, site.rewrite func index = some (.column field element)

/-- Pointers into columns are loaded from and stored to, and nothing else. -/
structure Rewritable : Prop where
  pointers : ∀ (index : Nat) (inst : Inst), func.insts[index]? = some inst →
    ∀ moved, site.IsColumn func moved → .inst moved ∈ inst.operands →
      (∃ type, inst = .load type (.inst moved)) ∨
        ∃ type value, inst = .store type value (.inst moved) ∧ value ≠ .inst moved
  /-- The pass erases a load of an element, so that it must not be the index of another one. -/
  indices : ∀ index load, site.rewrite func index = some (.direct (.inst load)) →
    site.field0Access func load = none
  /-- A store of a pointer to itself is taken up twice. -/
  stores : ∀ index type value pointer, func.insts[index]? = some (.store type value pointer) →
    site.field0Access func index ≠ none → value ≠ pointer

end Site

namespace Layout

variable {site : Site} {setting : Setting} (layout : Layout site setting)

def elementSize : Nat := layout.info.elementType.shape.size

def offset (field : Nat) : Nat := (fieldOffset? (shapes layout.info.elements) field).getD 0

def fieldType (site : Site) (field : Nat) : Nat := site.fieldTypes.getD field 0

def itemSize (field : Nat) : Nat := (layout.types (fieldType site field)).shape.size

end Layout

/-- An activation: the array that the parameter points to, and columns that `aligned_alloc` gives. -/
structure Activation {site : Site} {setting : Setting} (layout : Layout site setting)
    (func : Function) where
  args : List Value
  memory : Memory
  array : Nat
  pointer : args[site.argIndex]? = some (.word array)
  nonnull : 0 < array
  columns : Nat → Nat
  fresh : ∀ field ∈ site.liveFields func,
    Range.Apart ⟨array, site.arraySize * layout.elementSize⟩
      ⟨columns field, site.arraySize * layout.itemSize field⟩
  apart : ∀ field ∈ site.liveFields func, ∀ other ∈ site.liveFields func, field ≠ other →
    Range.Apart ⟨columns field, site.arraySize * layout.itemSize field⟩
      ⟨columns other, site.arraySize * layout.itemSize other⟩

/-! ## Where the fields are -/

section Places

variable {site : Site} {setting : Setting} {func : Function} {layout : Layout site setting}

theorem lt_of_mem_liveFields {field : Nat} (live : field ∈ site.liveFields func) :
    field < site.fieldTypes.length :=
  List.mem_range.mp (List.mem_filter.mp live).1

namespace Layout

theorem getElem?_fieldType {field : Nat} (inside : field < site.fieldTypes.length) :
    site.fieldTypes[field]? = some (fieldType site field) := by
  rw [fieldType, List.getD_eq_getElem?_getD, List.getElem?_eq_getElem inside, Option.getD_some]

theorem fieldType_mem {field : Nat} (inside : field < site.fieldTypes.length) :
    fieldType site field ∈ site.fieldTypes :=
  List.mem_of_getElem? (getElem?_fieldType inside)

theorem getElem?_elements (layout : Layout site setting) {field : Nat}
    (inside : field < site.fieldTypes.length) :
    layout.info.elements[field]? = some (layout.types (fieldType site field)) := by
  rw [← layout.elements, List.getElem?_map, getElem?_fieldType inside]
  rfl

theorem fieldOffset?_eq (layout : Layout site setting) {field : Nat}
    (inside : field < site.fieldTypes.length) :
    fieldOffset? (shapes layout.info.elements) field = some (layout.offset field) := by
  obtain ⟨start, placed⟩ :=
    fieldOffset?_isSome (DataLayout.getElem?_shapes (layout.getElem?_elements inside))
  rw [offset, placed, Option.getD_some]

/-- A field ends within its element. -/
theorem offset_add_le (layout : Layout site setting) {field : Nat}
    (inside : field < site.fieldTypes.length) :
    layout.offset field + layout.itemSize field ≤ layout.elementSize :=
  (offsetsFrom_sound (DataLayout.getElem?_shapes (layout.getElem?_elements inside))
    (layout.fieldOffset?_eq inside)).2.2.trans (size_record_ge _)

theorem size_le (layout : Layout site setting) {field : Nat}
    (inside : field < site.fieldTypes.length) :
    setting.size (fieldType site field) ≤ layout.itemSize field :=
  layout.small _ (fieldType_mem inside)

/-- Fields of one element lie apart. -/
theorem offsets_apart (layout : Layout site setting) {field other : Nat}
    (inside : field < site.fieldTypes.length) (within : other < site.fieldTypes.length)
    (differ : field ≠ other) :
    Range.Apart ⟨layout.offset field, layout.itemSize field⟩
      ⟨layout.offset other, layout.itemSize other⟩ := by
  have ordered {first second : Nat} (inside : first < site.fieldTypes.length)
      (within : second < site.fieldTypes.length) (order : first < second) :
      layout.offset first + layout.itemSize first ≤ layout.offset second :=
    offsetsFrom_ordered (DataLayout.getElem?_shapes (layout.getElem?_elements inside))
      (layout.fieldOffset?_eq inside) order (layout.fieldOffset?_eq within)
  rcases Nat.lt_or_gt_of_ne differ with order | order
  · exact .inl (ordered inside within order)
  · exact .inr (ordered within inside order)

end Layout

namespace Activation

variable (activation : Activation layout func)

def home (block : Block site func) : Range where
  start := activation.array + (block.1 * layout.elementSize + layout.offset block.2)
  size := setting.size (Layout.fieldType site block.2)

def away (block : Block site func) : Range where
  start := activation.columns block.2 + block.1 * layout.itemSize block.2
  size := setting.size (Layout.fieldType site block.2)

theorem home_within_item (block : Block site func) :
    (activation.home block).Within (item activation.array layout.elementSize block.1) := by
  have inside := lt_of_mem_liveFields block.2.2
  have ends := layout.offset_add_le inside
  have small := layout.size_le inside
  refine ⟨?_, ?_⟩ <;> simp only [home, item] <;> omega

theorem home_within (block : Block site func) :
    (activation.home block).Within ⟨activation.array, site.arraySize * layout.elementSize⟩ :=
  (activation.home_within_item block).trans (item_within block.1.isLt)

theorem away_within_item (block : Block site func) :
    (activation.away block).Within
      (item (activation.columns block.2) (layout.itemSize block.2) block.1) :=
  ⟨Nat.le_refl _, Nat.add_le_add_left (layout.size_le (lt_of_mem_liveFields block.2.2)) _⟩

theorem away_within (block : Block site func) :
    (activation.away block).Within
      ⟨activation.columns block.2, site.arraySize * layout.itemSize block.2⟩ :=
  (activation.away_within_item block).trans (item_within block.1.isLt)

theorem homes_apart (block other : Block site func) (differ : block ≠ other) :
    (activation.home block).Apart (activation.home other) := by
  by_cases same : block.1 = other.1
  · have fields : (block.2 : Nat) ≠ other.2 := fun equal =>
      differ (Prod.ext same (Subtype.ext equal))
    have inside := lt_of_mem_liveFields block.2.2
    have within := lt_of_mem_liveFields other.2.2
    have apart := (layout.offsets_apart inside within fields).shift
      (activation.array + other.1 * layout.elementSize)
    refine apart.mono ⟨?_, ?_⟩ ⟨?_, ?_⟩ <;> simp only [home, Range.shift, same] <;>
      have := layout.size_le inside <;> have := layout.size_le within <;> omega
  · exact (item_apart fun equal => same (Fin.ext equal)).mono (activation.home_within_item block)
      (activation.home_within_item other)

theorem aways_apart (block other : Block site func) (differ : block ≠ other) :
    (activation.away block).Apart (activation.away other) := by
  by_cases same : (block.2 : Nat) = other.2
  · have elements : (block.1 : Nat) ≠ other.1 := fun equal =>
      differ (Prod.ext (Fin.ext equal) (Subtype.ext same))
    have within := activation.away_within_item block
    rw [same] at within
    exact (item_apart elements).mono within (activation.away_within_item other)
  · exact (activation.apart _ block.2.2 _ other.2.2 same).mono (activation.away_within block)
      (activation.away_within other)

/-- The fields of the array and the items of the columns. -/
def relocation : Relocation (Block site func) where
  home := activation.home
  away := activation.away
  size_eq _ := rfl
  homes_apart := activation.homes_apart
  aways_apart := activation.aways_apart
  apart block other := (activation.fresh _ other.2.2).mono (activation.home_within block)
    (activation.away_within other)

theorem home_start_pos (block : Block site func) : 0 < (activation.home block).start :=
  Nat.add_pos_left activation.nonnull _

/-- What GEPs into a column take for its base. -/
def columnValues (field : Nat) : Value := .word (activation.columns field)

theorem wrapperGEP_eq (block : Block site func) :
    wrapperGEP site setting activation.args block.1 block.2 =
      .word (activation.home block).start := by
  have inside := lt_of_mem_liveFields block.2.2
  have range := @FieldGEP.range_aosGEP Nat _ ⟨block.2, block.1, activation.array⟩ id _ _
    (layout.getElem?_elements inside) (layout.fieldOffset?_eq inside)
  have address := layout.address _ site.wrapperSty _ _ layout.wrapper range
  rw [wrapperGEP, List.getD_eq_getElem?_getD, activation.pointer, Option.getD_some]
  exact address

theorem columnGEP_eq (block : Block site func) :
    columnGEP site setting activation.columnValues block.2 (.word block.1) =
      .word (activation.away block).start := by
  have inside := lt_of_mem_liveFields block.2.2
  let gep : GEP Nat := {
    sourceElementType := .array (layout.types (Layout.fieldType site block.2)) site.arraySize
    pointerOperand := activation.columns block.2
    indices := [.const 0, .val block.1] }
  have range : gep.range id = some (⟨(activation.away block).start, layout.itemSize block.2⟩,
      layout.types (Layout.fieldType site block.2)) := by
    simp [gep, GEP.range, DataLayout.Index.eval, Ty.parts, DataLayout.part_array, away,
      Layout.itemSize]
  have address := layout.address gep (site.columnType block.2) _ _
    (layout.column _ _ (Layout.getElem?_fieldType inside)) range
  exact address

/-! ## The loops -/

def blocks (site : Site) (func : Function) : List (Block site func) :=
  (List.finRange site.arraySize).flatMap fun element =>
    (site.liveFields func).attach.map fun field => (element, field)

theorem mem_blocks (block : Block site func) : block ∈ blocks site func :=
  List.mem_flatMap.mpr ⟨block.1, List.mem_finRange _,
    List.mem_map.mpr ⟨block.2, List.mem_attach .., rfl⟩⟩

theorem map_blocks : (blocks site func).map (fun block => ((block.1 : Nat), (block.2 : Nat))) =
    places site func := by
  have fields (element : Fin site.arraySize) :
      ((site.liveFields func).attach.map fun field => (element, field)).map
          (fun block => ((block.1 : Nat), (block.2 : Nat))) =
        (site.liveFields func).map fun field => ((element : Nat), field) := by
    rw [List.map_map]
    exact List.attach_map_val (f := fun field : Nat => ((element : Nat), field))
  rw [blocks, places, List.map_flatMap]
  simp only [fields]
  rw [← List.map_coe_finRange_eq_range, List.flatMap_map]

/-- A value is moved byte by byte. -/
theorem moveValue_eq {field : Nat} (inside : field < site.fieldTypes.length)
    (layout : Layout site setting) (source target : Nat) (memory : Memory) :
    moveValue setting (Layout.fieldType site field) (.word source) (.word target) memory =
      Relocation.copy memory source target (setting.size (Layout.fieldType site field)) := by
  rw [moveValue, layout.copied _ (Layout.fieldType_mem inside) _ (by simp)]
  rfl

theorem foldl_moveField {source target : Nat → Nat → Value} {here there : Block site func → Range}
    (sources : ∀ block : Block site func, source block.1 block.2 = .word (here block).start)
    (targets : ∀ block : Block site func, target block.1 block.2 = .word (there block).start)
    (sizes : ∀ block, (there block).size = setting.size (Layout.fieldType site block.2))
    (layout : Layout site setting) (memory : Memory) :
    (places site func).foldl (moveField setting site.fieldTypes source target) memory =
      Relocation.copyAll here there (blocks site func) memory := by
  rw [← map_blocks, List.foldl_map, Relocation.copyAll]
  refine List.foldl_ext _ _ _ fun memory block _ => ?_
  rw [moveField, sources, targets, sizes]
  exact moveValue_eq (lt_of_mem_liveFields block.2.2) layout _ _ _

theorem scatter_eq (memory : Memory) :
    scatter site setting func activation.args activation.columnValues memory =
      Relocation.copyAll activation.relocation.home activation.relocation.away (blocks site func)
        memory :=
  foldl_moveField activation.wrapperGEP_eq activation.columnGEP_eq (fun _ => rfl) layout memory

theorem gather_eq (memory : Memory) :
    gather site setting func activation.args activation.columnValues memory =
      Relocation.copyAll activation.relocation.away activation.relocation.home (blocks site func)
        memory :=
  foldl_moveField activation.columnGEP_eq activation.wrapperGEP_eq (fun _ => rfl) layout memory

end Activation

end Places

/-! ## What the rewriting takes for granted -/

section Runs

variable {site : Site} {setting : Setting} {func : Function} {layout : Layout site setting}
  (activation : Activation layout func)

/-- An access goes to the field that it has been recognised as, through a pointer into a column
within the field, or else to none of the fields. -/
def AdmittedAccess (state : State) (type : Nat) (pointer : Operand) (address : Value) : Prop :=
  (∀ element, site.rewrite func state.point = some (.direct element) →
    ∃ block : Block site func, (block.2 : Nat) = 0 ∧
      state.eval setting activation.args 2 element = .word block.1 ∧
      address = .word (activation.home block).start ∧
      setting.size type ≤ (activation.home block).size) ∧
  ((∀ element, site.rewrite func state.point ≠ some (.direct element)) →
    (∀ index, pointer = .inst index → site.IsColumn func index →
      (∃ block, address = .word (activation.home block).start) ∧
        ∀ block, address = .word (activation.home block).start →
          setting.size type ≤ (activation.home block).size) ∧
    ((∀ index, pointer = .inst index → ¬ site.IsColumn func index) →
      activation.relocation.Clear ⟨address.address, setting.size type⟩))

/-- A call neither reads nor writes the fields, at home or away. -/
def AdmittedCall (state : State) (callee : Operand) (operands : List Operand) : Prop :=
  (∀ address ∈ setting.reads state.calls (state.eval setting activation.args 0 callee)
      (state.evalAll setting activation.args 1 operands),
    ∀ block, ¬ Inside address (activation.home block) ∧ ¬ Inside address (activation.away block)) ∧
  activation.relocation.Clear ⟨(state.outcome setting activation.args callee operands).address,
    (state.outcome setting activation.args callee operands).bytes.length⟩

/-- What the rewriting takes for granted of an instruction that is about to be executed. -/
def AdmittedInst (state : State) : Inst → Prop
  | .gep source base indices => ∀ field element,
      site.rewrite func state.point = some (.column field element) →
        ∃ block : Block site func, (block.2 : Nat) = field ∧
          state.eval setting activation.args 2 element = .word block.1 ∧
          setting.gep source (state.eval setting activation.args 0 base)
            (state.evalAll setting activation.args 1 indices) =
              .word (activation.home block).start
  | .load type pointer =>
      AdmittedAccess activation state type pointer (state.eval setting activation.args 0 pointer)
  | .store type _ pointer =>
      AdmittedAccess activation state type pointer (state.eval setting activation.args 1 pointer)
  | .call callee operands => AdmittedCall activation state callee operands
  | .invoke callee operands _ _ => AdmittedCall activation state callee operands
  | _ => True

def Admitted (state : State) (_ : Unit) : Prop :=
  ∀ inst ∈ func.insts[state.point]?, AdmittedInst activation state inst

/-- The states of the two functions while they run. -/
structure Along (state other : State) : Prop where
  memory : activation.relocation.Related state.memory other.memory
  /-- The array itself is not written any more. -/
  kept : ∀ block, ∀ offset < (activation.home block).size,
    other.memory ((activation.home block).start + offset) =
      activation.memory ((activation.home block).start + offset)
  values : ∀ index, ¬ site.IsColumn func index → state.values index = other.values index
  pointers : ∀ index, site.IsColumn func index → state.values index = .word 0 ∨
    ∃ block, state.values index = .word (activation.home block).start ∧
      other.values index = .word (activation.away block).start
  point : state.point = other.point
  clock : state.clock = other.clock
  calls : state.calls = other.calls
  running : state.exit = .running
  otherRunning : other.exit = .running

/-- The states of the two functions in the end, to a caller that knows nothing of the columns. -/
structure SameEnd (state other : State) : Prop where
  exit : state.exit = other.exit
  calls : state.calls = other.calls
  /-- A return leaves the same memory. -/
  returned : ∀ value, state.exit = .returned value → ∀ place,
    (∀ block, ¬ Inside place (activation.away block)) → state.memory place = other.memory place
  /-- An exception leaves the fields as they were at the entry. -/
  unwound : ∀ value, state.exit = .unwound value →
    (∀ place, (∀ block, ¬ Inside place (activation.home block)) →
      (∀ block, ¬ Inside place (activation.away block)) →
        state.memory place = other.memory place) ∧
      ∀ block, ∀ offset < (activation.home block).size,
        other.memory ((activation.home block).start + offset) =
          activation.memory ((activation.home block).start + offset)

/-! ## Operands -/

/-- The operand is no pointer into a column. -/
def Unmoved (site : Site) (func : Function) (operand : Operand) : Prop :=
  ∀ index, operand = .inst index → ¬ site.IsColumn func index

/-- The operand is an index of some GEP. -/
def IsIndex (func : Function) (operand : Operand) : Prop :=
  ∃ (place source : Nat) (base : Operand) (indices : List Operand),
    func.insts[place]? = some (.gep source base indices) ∧ operand ∈ indices

variable {activation}

theorem Site.IsColumn.gep {index : Nat} (column : site.IsColumn func index) :
    ∃ (source : Nat) (base : Operand) (indices : List Operand),
      func.insts[index]? = some (.gep source base indices) := by
  obtain ⟨field, element, rewritten⟩ := column
  unfold Site.rewrite at rewritten
  split at rewritten
  · rename_i found
    unfold Site.fieldGEP at found
    split at found
    · exact ⟨_, _, _, by assumption⟩
    · cases found
  · obtain ⟨_, -, same⟩ := Option.map_eq_some_iff.mp rewritten
    cases same

/-- What is neither loaded from nor stored to is no pointer into a column. -/
theorem Site.Rewritable.unmoved (rewritable : site.Rewritable func) {index : Nat} {inst : Inst}
    (here : func.insts[index]? = some inst) {operand : Operand} (member : operand ∈ inst.operands)
    (notLoad : ∀ type, inst ≠ .load type operand)
    (notStore : ∀ type value, inst = .store type value operand → value = operand) :
    Unmoved site func operand := by
  rintro moved rfl column
  rcases rewritable.pointers index inst here moved column member with
    ⟨type, rfl⟩ | ⟨type, value, rfl, differ⟩
  · exact notLoad type rfl
  · exact differ (notStore type value rfl)

theorem Site.isIndex_of_elementIdx {pointer element : Operand}
    (found : site.elementIdx func pointer = some element) : IsIndex func element := by
  unfold elementIdx at found
  split at found
  · split at found
    · refine ⟨_, _, _, _, by assumption, ?_⟩
      split at found
      · exact List.mem_of_getElem? found
      · split at found
        · exact List.mem_of_getElem? found
        · cases found
    · cases found
  · cases found

theorem Site.isIndex_of_fieldGEP {index field : Nat} {element : Operand}
    (found : site.fieldGEP func index = some (field, element)) : IsIndex func element := by
  unfold fieldGEP at found
  split at found
  · split at found
    · obtain ⟨_, -, found⟩ := Option.bind_eq_some_iff.mp found
      obtain ⟨_, found, same⟩ := Option.map_eq_some_iff.mp found
      cases same
      exact ⟨index, _, _, _, by assumption, List.mem_of_getElem? found⟩
    · split at found
      · obtain ⟨_, -, found⟩ := Option.bind_eq_some_iff.mp found
        obtain ⟨_, found, same⟩ := Option.map_eq_some_iff.mp found
        cases same
        exact isIndex_of_elementIdx found
      · cases found
  · cases found

theorem Site.isIndex_of_elemGEP {pointer element : Operand}
    (found : site.elemGEP func pointer = some element) : IsIndex func element := by
  unfold elemGEP at found
  split at found
  · split at found
    · split at found
      · exact ⟨_, _, _, _, by assumption, List.mem_of_getElem? found⟩
      · cases found
    · cases found
  · cases found

theorem Site.elemGEP_of_field0Access {index : Nat} {element : Operand}
    (found : site.field0Access func index = some element) :
    ∃ pointer, site.elemGEP func pointer = some element := by
  unfold field0Access at found
  split at found
  · split at found
    · exact ⟨_, found⟩
    · cases found
  · exact ⟨_, found⟩
  · cases found

/-- The index of the element of a recognised access. -/
def Rewrite.elementIdx : Rewrite → Operand
  | column _ element => element
  | direct element => element

/-- It is an index of some GEP. -/
theorem Site.Rewritable.unmoved_elementIdx (rewritable : site.Rewritable func) {index : Nat}
    {rewrite : Rewrite} (found : site.rewrite func index = some rewrite) :
    Unmoved site func rewrite.elementIdx := by
  have unmoved {element : Operand} (indexed : IsIndex func element) :
      Unmoved site func element := by
    obtain ⟨place, source, base, indices, here, member⟩ := indexed
    exact rewritable.unmoved here (List.mem_cons_of_mem _ member) (by intro _ same; cases same)
      (by intro _ _ same; cases same)
  unfold Site.rewrite at found
  split at found
  · rename_i recognised
    cases found
    exact unmoved (Site.isIndex_of_fieldGEP recognised)
  · obtain ⟨element, recognised, rfl⟩ := Option.map_eq_some_iff.mp found
    obtain ⟨pointer, recognised⟩ := Site.elemGEP_of_field0Access recognised
    exact unmoved (Site.isIndex_of_elemGEP recognised)

theorem phi_of_mem_phisAt {target index : Nat} (member : index ∈ func.phisAt target) :
    ∃ incoming, func.insts[index]? = some (.phi incoming) := by
  have isPhi := List.mem_takeWhile_imp member
  split at isPhi
  · exact ⟨_, by assumption⟩
  · cases isPhi

/-- Phi nodes take no pointers into columns. -/
theorem Site.Rewritable.unmoved_phiSource (rewritable : site.Rewritable func) (index source : Nat) :
    Unmoved site func (func.phiSource index source) := by
  unfold Function.phiSource
  split
  · rename_i incoming here
    cases found : incoming.lookup source with
    | none =>
        intro index same
        cases same
    | some operand =>
        obtain ⟨before, after, rfl, -⟩ := List.lookup_eq_some_iff.mp found
        have member : (source, operand) ∈ before ++ (source, operand) :: after :=
          List.mem_append_cons_self
        exact rewritable.unmoved here (List.mem_map_of_mem (f := Prod.snd) member)
          (by intro _ same; cases same) (by intro _ _ same; cases same)
  · intro index same
    cases same

/-! ## One step -/

namespace Along

variable {state other : State} (along : Along activation state other)

include along

theorem eval (position : Nat) {operand : Operand} (unmoved : Unmoved site func operand) :
    state.eval setting activation.args position operand =
      other.eval setting activation.args position operand := by
  cases operand with
  | inst index => exact along.values index (unmoved index rfl)
  | undef => rw [State.eval, State.eval, along.clock]
  | _ => rfl

theorem evalAll (position : Nat) {operands : List Operand}
    (unmoved : ∀ operand ∈ operands, Unmoved site func operand) :
    state.evalAll setting activation.args position operands =
      other.evalAll setting activation.args position operands := by
  refine List.ext_getElem (by simp [State.evalAll]) fun index inside _ => ?_
  simp only [State.evalAll, List.getElem_mapIdx]
  exact along.eval _ (unmoved _ (List.getElem_mem _))

theorem next : Along activation state.next other.next :=
  { along with
    point := congrArg (· + 1) along.point
    clock := congrArg (· + 1) along.clock }

/-- The same value, or a pointer into a column. -/
theorem give {value new : Value}
    (same : ¬ site.IsColumn func state.point → value = new)
    (moved : site.IsColumn func state.point → ∃ block,
      value = .word (activation.home block).start ∧ new = .word (activation.away block).start) :
    Along activation (state.give value) (other.give new) := by
  refine Along.next { along with
    values := fun index unmoved => ?_
    pointers := fun index column => ?_ }
  · by_cases here : index = state.point
    · subst here
      simpa only [← along.point, Function.update_self] using same unmoved
    · simpa only [← along.point, Function.update_of_ne here] using along.values index unmoved
  · by_cases here : index = state.point
    · subst here
      simp only [← along.point, Function.update_self]
      exact .inr (moved column)
    · simpa only [← along.point, Function.update_of_ne here] using along.pointers index column

/-- Bytes written away from the fields. -/
theorem write_clear {address : Nat} {bytes : List UInt8}
    (clear : activation.relocation.Clear ⟨address, bytes.length⟩) :
    Along activation { state with memory := state.memory.write address bytes }
      { other with memory := other.memory.write address bytes } :=
  { along with
    memory := along.memory.write_clear clear
    kept := fun block offset inside =>
      (Relocation.write_of_not_inside (Relocation.not_inside_of_apart (clear block).1.symm
        (Relocation.inside_add inside))).trans (along.kept block offset inside) }

/-- Bytes written into a field and its column. -/
theorem write_moved {block : Block site func} {bytes : List UInt8}
    (fits : bytes.length ≤ (activation.home block).size) :
    Along activation
      { state with memory := state.memory.write (activation.home block).start bytes }
      { other with memory := other.memory.write (activation.away block).start bytes } :=
  { along with
    memory := along.memory.write_moved block 0 (by rwa [Nat.zero_add])
    kept := fun kept offset inside => by
      refine (Relocation.write_of_not_inside fun written => ?_).trans (along.kept kept offset inside)
      have within : Inside _ (activation.away block) := written.mono ⟨Nat.le_refl _,
        Nat.add_le_add_left fits _⟩
      exact Relocation.not_inside_of_apart (activation.relocation.apart kept block)
        (Relocation.inside_add inside) within }

theorem jump (rewritable : site.Rewritable func) (target : Nat) :
    Along activation (state.jump setting func activation.args target)
      (other.jump setting func activation.args target) :=
  { along with
    values := fun index unmoved => by
      simp only [State.jump, ← along.point]
      split
      · exact along.eval _ (rewritable.unmoved_phiSource index state.point)
      · exact along.values index unmoved
    pointers := fun index column => by
      have notPhi : index ∉ func.phisAt target := fun member => by
        obtain ⟨source, base, indices, here⟩ := column.gep
        obtain ⟨incoming, other⟩ := phi_of_mem_phisAt member
        cases here.symm.trans other
      simp only [State.jump, if_neg notPhi]
      exact along.pointers index column
    point := rfl
    clock := congrArg (· + 1) along.clock }

theorem outcome_eq {callee : Operand} {operands : List Operand}
    (unmoved : ∀ operand ∈ callee :: operands, Unmoved site func operand)
    (admitted : AdmittedCall activation state callee operands) :
    state.outcome setting activation.args callee operands =
      other.outcome setting activation.args callee operands := by
  rw [List.forall_mem_cons] at unmoved
  unfold State.outcome
  rw [← along.calls, ← along.eval 0 unmoved.1, ← along.evalAll 1 unmoved.2]
  exact setting.call_frame _ _ _ _ _ fun address read => along.memory.same address
    (fun block => (admitted.1 address read block).1) fun block => (admitted.1 address read block).2

theorem called {callee : Operand} {operands : List Operand}
    (notColumn : ¬ site.IsColumn func state.point)
    (unmoved : ∀ operand ∈ callee :: operands, Unmoved site func operand)
    (admitted : AdmittedCall activation state callee operands) :
    Along activation (state.called setting activation.args callee operands)
      (other.called setting activation.args callee operands) := by
  have same := along.outcome_eq unmoved admitted
  have written := along.write_clear admitted.2
  rw [List.forall_mem_cons] at unmoved
  refine ⟨?_, ?_, ?_, ?_, along.point, along.clock, ?_, along.running, along.otherRunning⟩
  · simpa only [State.called, ← same] using written.memory
  · simpa only [State.called, ← same] using written.kept
  · intro index free
    simp only [State.called, ← same, ← along.point]
    by_cases here : index = state.point
    · subst here
      rw [Function.update_self, Function.update_self]
    · rw [Function.update_of_ne here, Function.update_of_ne here]
      exact along.values index free
  · intro index column
    have here : index ≠ state.point := fun here => notColumn (here ▸ column)
    simp only [State.called, ← along.point, Function.update_of_ne here]
    exact along.pointers index column
  · simp only [State.called, same, along.calls, along.eval 0 unmoved.1, along.evalAll 1 unmoved.2]

/-! ### Accesses -/

omit along in
/-- The addresses of an access in the two functions. -/
def Reaches (activation : Activation layout func) (size : Nat) (address other : Value) : Prop :=
  (∃ block, address = .word (activation.home block).start ∧
    other = .word (activation.away block).start ∧ size ≤ (activation.home block).size) ∨
  (address = other ∧ activation.relocation.Clear ⟨address.address, size⟩)

theorem rewrittenPointer_eq (rewritable : site.Rewritable func) {rewrite : Rewrite}
    (found : site.rewrite func state.point = some rewrite) (block : Block site func)
    (element : state.eval setting activation.args 2 rewrite.elementIdx = .word block.1) :
    rewrittenPointer site setting activation.args activation.columnValues other block.2
      rewrite.elementIdx = .word (activation.away block).start := by
  rw [rewrittenPointer, ← along.eval 2 (rewritable.unmoved_elementIdx found), element]
  exact activation.columnGEP_eq block

theorem reaches_direct (rewritable : site.Rewritable func) {type : Nat} {pointer element : Operand}
    {address : Value} (found : site.rewrite func state.point = some (.direct element))
    (admitted : AdmittedAccess activation state type pointer address) :
    Reaches activation (setting.size type) address
      (rewrittenPointer site setting activation.args activation.columnValues other 0 element) := by
  obtain ⟨block, first, indexed, reached, fits⟩ := admitted.1 element found
  have moved := along.rewrittenPointer_eq rewritable found block indexed
  rw [first] at moved
  exact .inl ⟨block, reached, moved, fits⟩

theorem reaches_plain {type position : Nat} {pointer : Operand}
    (plain : ∀ element, site.rewrite func state.point ≠ some (.direct element))
    (admitted : AdmittedAccess activation state type pointer
      (state.eval setting activation.args position pointer)) :
    Reaches activation (setting.size type) (state.eval setting activation.args position pointer)
      (other.eval setting activation.args position pointer) := by
  obtain ⟨into, beside⟩ := admitted.2 plain
  by_cases column : ∃ index, pointer = .inst index ∧ site.IsColumn func index
  · obtain ⟨index, rfl, column⟩ := column
    obtain ⟨⟨reached, start⟩, fits⟩ := into index rfl column
    rcases along.pointers index column with null | ⟨block, here, there⟩
    · have positive := activation.home_start_pos reached
      rw [State.eval, null] at start
      have := Value.word.inj start
      omega
    · exact .inl ⟨block, here, there, fits block here⟩
  · push Not at column
    exact .inr ⟨along.eval position column, beside column⟩

theorem read_eq {size : Nat} {address new : Value} (reaches : Reaches activation size address new) :
    ((List.range size).map fun offset => state.memory (address.address + offset)) =
      (List.range size).map fun offset => other.memory (new.address + offset) := by
  rcases reaches with ⟨block, rfl, rfl, fits⟩ | ⟨rfl, clear⟩
  · exact along.memory.read_moved block 0 (by rwa [Nat.zero_add])
  · exact along.memory.read_clear clear

theorem write {bytes : List UInt8} {address new : Value}
    (reaches : Reaches activation bytes.length address new) :
    Along activation { state with memory := state.memory.write address.address bytes }
      { other with memory := other.memory.write new.address bytes } := by
  rcases reaches with ⟨block, rfl, rfl, fits⟩ | ⟨rfl, clear⟩
  · exact along.write_moved fits
  · exact along.write_clear clear

/-! ### All instructions -/

omit along in
/-- The two functions run along each other, or both have ended in the same way. -/
def Follows (activation : Activation layout func) (state other : State) : Prop :=
  Along activation state other ∨ state.exit ≠ .running ∧ SameEnd activation state other

/-- What an exception leaves. -/
theorem unwound (value : Value) :
    Follows activation { state with exit := .unwound value } { other with exit := .unwound value } :=
  .inr ⟨by simp, {
    exit := rfl
    calls := along.calls
    returned := fun _ exit => by cases exit
    unwound := fun _ _ => ⟨along.memory.same, along.kept⟩ }⟩

theorem returned (value : Option Value) :
    Follows activation { state with exit := .returned value }
      { other with
        memory := gather site setting func activation.args activation.columnValues other.memory
        exit := .returned value } :=
  .inr ⟨by simp, {
    exit := rfl
    calls := along.calls
    returned := fun _ _ place away => by
      rw [activation.gather_eq]
      exact (along.memory.copyAll_back Activation.mem_blocks away).symm
    unwound := fun _ exit => by cases exit }⟩

theorem perform (rewritable : site.Rewritable func) {inst : Inst}
    (here : func.insts[state.point]? = some inst) (admitted : AdmittedInst activation state inst) :
    Follows activation (state.perform setting func activation.args inst)
      (performRewritten site setting func activation.args activation.columnValues other inst) := by
  have notColumn (other : ∀ source base indices, inst ≠ .gep source base indices) :
      ¬ site.IsColumn func state.point := fun column => by
    obtain ⟨source, base, indices, same⟩ := column.gep
    exact other source base indices (Option.some.inj (here.symm.trans same))
  have unmoved (notLoad : ∀ type pointer, inst ≠ .load type pointer)
      (notStore : ∀ type value pointer, inst ≠ .store type value pointer) :
      ∀ operand ∈ inst.operands, Unmoved site func operand := fun operand member =>
    rewritable.unmoved here member (fun type => notLoad type operand)
      fun type value same => absurd same (notStore type value operand)
  have stays (notRet : ∀ value, inst ≠ .ret value)
      (notGep : ∀ source base indices, inst ≠ .gep source base indices)
      (notLoad : ∀ type pointer, inst ≠ .load type pointer)
      (notStore : ∀ type value pointer, inst ≠ .store type value pointer) :
      performRewritten site setting func activation.args activation.columnValues other inst =
        other.perform setting func activation.args inst :=
    performRewritten_plain notRet (fun _ _ _ => notGep) fun _ _ => ⟨notLoad, notStore⟩
  cases inst with
  | gep source base indices =>
      have unmoved := unmoved (by simp) (by simp)
      rw [Inst.operands, List.forall_mem_cons] at unmoved
      refine .inl ?_
      by_cases column : site.IsColumn func state.point
      · obtain ⟨field, element, found⟩ := column
        obtain ⟨block, rfl, indexed, start⟩ := admitted field element found
        rw [performRewritten_column (along.point ▸ found)]
        exact along.give (fun free => absurd ⟨_, _, found⟩ free) fun _ =>
          ⟨block, start, along.rewrittenPointer_eq rewritable found block indexed⟩
      · rw [performRewritten_plain (by simp)
          (fun _ _ found => absurd ⟨_, _, along.point ▸ found⟩ column) (by simp)]
        refine along.give (fun _ => ?_) fun there => absurd there column
        rw [along.eval 0 unmoved.1, along.evalAll 1 unmoved.2]
  | load type pointer =>
      have free := notColumn (by simp)
      refine .inl ?_
      by_cases direct : ∃ element, site.rewrite func state.point = some (.direct element)
      · obtain ⟨element, found⟩ := direct
        have reaches := along.reaches_direct rewritable found admitted
        rw [performRewritten_load (along.point ▸ found)]
        refine along.give (fun _ => ?_) fun there => absurd there free
        rw [along.read_eq reaches]
      · push Not at direct
        have reaches := along.reaches_plain direct admitted
        rw [performRewritten_plain (by simp) (by simp)
          fun element found => absurd (along.point ▸ found) (direct element)]
        refine along.give (fun _ => ?_) fun there => absurd there free
        rw [along.read_eq reaches]
  | store type value pointer =>
      have stored : Unmoved site func value := rewritable.unmoved here List.mem_cons_self (by simp)
        fun type' value' same => by cases same; rfl
      have bytes := along.eval 0 stored
      refine .inl ?_
      by_cases direct : ∃ element, site.rewrite func state.point = some (.direct element)
      · obtain ⟨element, found⟩ := direct
        have reaches := along.reaches_direct rewritable found admitted
        rw [performRewritten_store (along.point ▸ found), ← bytes]
        rw [← setting.length_encode type (state.eval setting activation.args 0 value)] at reaches
        exact (along.write reaches).next
      · push Not at direct
        have reaches := along.reaches_plain direct admitted
        rw [performRewritten_plain (by simp) (by simp)
          fun element found => absurd (along.point ▸ found) (direct element)]
        simp only [State.perform, ← bytes]
        rw [← setting.length_encode type (state.eval setting activation.args 0 value)] at reaches
        exact (along.write reaches).next
  | call callee operands =>
      have unmoved := unmoved (by simp) (by simp)
      have called := along.called (notColumn (by simp)) unmoved admitted
      rw [stays (by simp) (by simp) (by simp) (by simp)]
      simp only [State.perform, ← along.outcome_eq unmoved admitted]
      split
      · exact called.unwound _
      · exact .inl called.next
  | invoke callee operands normalDest unwindDest =>
      have unmoved := unmoved (by simp) (by simp)
      have called := along.called (notColumn (by simp)) unmoved admitted
      rw [stays (by simp) (by simp) (by simp) (by simp)]
      simp only [State.perform, ← along.outcome_eq unmoved admitted]
      exact .inl (called.jump rewritable _)
  | ret value =>
      have unmoved := unmoved (by simp) (by simp)
      rw [performRewritten_ret]
      cases value with
      | none => exact along.returned none
      | some value =>
          have same := along.eval 0 (unmoved value (List.mem_singleton_self _))
          simp only [State.perform, Option.map_some, ← same]
          exact along.returned _
  | resume value =>
      have unmoved := unmoved (by simp) (by simp)
      rw [stays (by simp) (by simp) (by simp) (by simp)]
      simp only [State.perform, ← along.eval 0 (unmoved value (List.mem_singleton_self _))]
      exact along.unwound _
  | insertValue aggregate value indices =>
      have unmoved := unmoved (by simp) (by simp)
      rw [Inst.operands, List.forall_mem_cons, List.forall_mem_singleton] at unmoved
      rw [stays (by simp) (by simp) (by simp) (by simp)]
      refine .inl (along.give (fun _ => ?_) fun there => absurd there (notColumn (by simp)))
      rw [along.eval 0 unmoved.1, along.eval 1 unmoved.2]
  | extractValue aggregate indices =>
      have unmoved := unmoved (by simp) (by simp)
      rw [stays (by simp) (by simp) (by simp) (by simp)]
      refine .inl (along.give (fun _ => ?_) fun there => absurd there (notColumn (by simp)))
      rw [along.eval 0 (unmoved aggregate (List.mem_singleton_self _))]
  | phi incoming =>
      rw [stays (by simp) (by simp) (by simp) (by simp)]
      exact .inl along.next
  | other opcode operands =>
      have unmoved : ∀ operand ∈ operands, Unmoved site func operand := unmoved (by simp) (by simp)
      rw [stays (by simp) (by simp) (by simp) (by simp)]
      refine .inl (along.give (fun _ => ?_) fun there => absurd there (notColumn (by simp)))
      rw [along.clock, along.evalAll 0 unmoved]
  | br target =>
      rw [stays (by simp) (by simp) (by simp) (by simp)]
      exact .inl (along.jump rewritable target)
  | switch condition targets =>
      have unmoved := unmoved (by simp) (by simp)
      rw [stays (by simp) (by simp) (by simp) (by simp)]
      simp only [State.perform, ← along.eval 0 (unmoved condition (List.mem_singleton_self _))]
      exact .inl (along.jump rewritable _)

end Along

/-! ## Runs -/

theorem Along.sameEnd {state other : State} (along : Along activation state other) :
    SameEnd activation state other where
  exit := along.running.trans along.otherRunning.symm
  calls := along.calls
  returned value exit := by cases along.running.symm.trans exit
  unwound value exit := by cases along.running.symm.trans exit

theorem along_start (activation : Activation layout func) : Along activation
    (start activation.memory)
    (start (scatter site setting func activation.args activation.columnValues
      activation.memory)) where
  memory := by
    rw [activation.scatter_eq]
    exact Relocation.related_copyAll Activation.mem_blocks activation.memory
  kept block offset inside := by
    rw [activation.scatter_eq]
    exact Relocation.copyAll_of_not_inside fun other _ => Relocation.not_inside_of_apart
      (activation.relocation.apart block other) (Relocation.inside_add inside)
  values _ _ := rfl
  pointers _ _ := .inl rfl
  point := rfl
  clock := rfl
  calls := rfl
  running := rfl
  otherRunning := rfl

theorem Along.step {state other after : State} (along : Along activation state other)
    (rewritable : site.Rewritable func) (admitted : Admitted activation state ())
    (step : state.step setting func activation.args = some after) :
    ∃ next, stepRewritten site setting func activation.args activation.columnValues other =
      some next ∧ Along.Follows activation after next := by
  unfold State.step at step
  rw [along.running] at step
  obtain ⟨inst, here, rfl⟩ := Option.map_eq_some_iff.mp step
  refine ⟨_, ?_, along.perform rewritable here (admitted inst here)⟩
  unfold stepRewritten
  rw [along.otherRunning, ← along.point]
  simp only [here, Option.map_some]

/-- A run in which the recognised accesses go where they are taken to go, and nothing else touches the
fields that have columns, goes the same way in the rewritten function: a return gives the same value
and leaves the same memory, but for the columns.  An exception gives the same as well, and leaves the
fields as they were at the entry. -/
theorem columns_preserve_runs (activation : Activation layout func)
    (rewritable : site.Rewritable func) {state : State}
    (reach : (machine setting func activation.args activation.memory).Reachable
      (Admitted activation) state) :
    ∃ other, (rewrittenMachine site setting func activation.args activation.columnValues
        activation.memory).Reachable Transition.Machine.anyStep other ∧
      SameEnd activation state other := by
  suffices follows : ∃ other, (rewrittenMachine site setting func activation.args
      activation.columnValues activation.memory).Reachable Transition.Machine.anyStep other ∧
      Along.Follows activation state other by
    obtain ⟨other, reached, along | ⟨-, same⟩⟩ := follows
    · exact ⟨other, reached, along.sameEnd⟩
    · exact ⟨other, reached, same⟩
  induction reach with
  | start entry =>
      subst entry
      exact ⟨_, .start rfl, .inl (along_start activation)⟩
  | @next before after _ _ admitted step ih =>
      obtain ⟨other, reached, along | ⟨ended, -⟩⟩ := ih
      · obtain ⟨next, stepped, follows⟩ := along.step rewritable admitted step
        exact ⟨next, .tick reached trivial stepped, follows⟩
      · simp only [machine, State.step] at step
        cases step

end Runs

/-! ## An element with two fields -/

section Example

/-- Bytes, elements of two of them, arrays of two elements and of two bytes. -/
def pairTypes : Nat → Ty
  | 1 => pair
  | 2 => .struct "struct.topo::array".toList [.array pair 2]
  | 3 => .array pair 2
  | 4 => .array byte 2
  | _ => byte
where
  byte : Ty := .value ⟨1, 0, by decide⟩
  pair : Ty := .struct "struct.Pair".toList [byte, byte]

def pairSite : Site where
  argIndex := 0
  wrapperSty := 2
  elemSty := 1
  arraySize := 2
  fieldTypes := [0, 0]
  elementType type := if type = 3 then some 1 else none
  columnType _ := 4
  isScalar type := type = 0
  isBitCast _ := false

/-- `first[index] = second[index]`, through a GEP to the field and directly. -/
def copySecond : Function where
  insts := [.gep 2 (.arg 0) [.constant 0, .constant 0, .arg 1, .constant 1], .load 0 (.inst 0),
    .gep 3 (.arg 0) [.constant 0, .arg 1], .store 0 (.inst 1) (.inst 2), .ret none]
  isDeclaration := false
  hasInternalLinkage := true
  hasUses := true
  hasStructRet := false
  fields := none

def pairGEP (source address : Nat) (indices : List Nat) : GEP Nat where
  sourceElementType := pairTypes source
  pointerOperand := address
  indices := indices.map .const

def pairSetting : Setting :=
  { byteSetting with
    gep := fun source base indices =>
      match (pairGEP source base.address (indices.map Value.address)).range id with
      | some (range, _) => .word range.start
      | none => .word 0 }

def pairLayout : Layout pairSite pairSetting where
  types := pairTypes
  info := {
    wrapperName := "struct.topo::array".toList
    elementName := "struct.Pair".toList
    elements := [pairTypes.byte, pairTypes.byte]
    arraySize := 2 }
  wrapper := rfl
  arraySize := rfl
  elements := rfl
  column field type present := by
    have inside := (List.getElem?_eq_some_iff.mp present).1
    have zero : type = 0 := by
      have member := List.mem_of_getElem? present
      simpa [pairSite] using member
    subst zero
    rfl
  address gep source range last same found := by
    have again : (pairGEP source gep.pointerOperand
        ((gep.indices.map fun index => Value.word (index.eval id)).map Value.address)).range id =
          some (range, last) := by
      rw [← found]
      simp only [GEP.range, pairGEP, List.map_map, same]
      rfl
    simp only [pairSetting, Value.address, again]
  small type member := by
    simp only [pairSite, List.mem_cons, List.not_mem_nil, or_false, or_self] at member
    subst member
    decide
  copied type member bytes length := by
    obtain ⟨byte, rfl⟩ := List.length_eq_one_iff.mp length
    simp [pairSetting, byteSetting, Value.address]

theorem pairLayout_fresh (field : Nat) :
    Range.Apart ⟨100, pairSite.arraySize * pairLayout.elementSize⟩
      ⟨200 + 10 * field, pairSite.arraySize * pairLayout.itemSize field⟩ := by
  refine .inl ?_
  change 100 + 2 * 2 ≤ 200 + 10 * field
  omega

theorem pairLayout_apart {field other : Nat} (differ : field ≠ other) :
    Range.Apart ⟨200 + 10 * field, pairSite.arraySize * pairLayout.itemSize field⟩
      ⟨200 + 10 * other, pairSite.arraySize * pairLayout.itemSize other⟩ := by
  have size (field : Nat) : pairSite.arraySize * pairLayout.itemSize field = 2 := by
    rcases field with _ | _ | field <;> rfl
  rw [size, size, Range.Apart]
  dsimp only
  omega

/-- An activation on the second element. -/
def pairActivation : Activation pairLayout copySecond where
  args := [.word 100, .word 1]
  memory place := UInt8.ofNat place
  array := 100
  pointer := rfl
  nonnull := by decide
  columns field := 200 + 10 * field
  fresh field _ := pairLayout_fresh field
  apart _ _ _ _ differ := pairLayout_apart differ

theorem pairSite_isColumn {index : Nat} (column : pairSite.IsColumn copySecond index) :
    index = 0 := by
  obtain ⟨source, base, indices, here⟩ := column.gep
  obtain ⟨field, element, found⟩ := column
  rcases index with _ | _ | _ | _ | _ | index
  · rfl
  · cases here
  · have plain : pairSite.rewrite copySecond 2 = none := by decide
    cases plain.symm.trans found
  all_goals cases here

theorem pairSite_rewritable : pairSite.Rewritable copySecond where
  pointers index inst here moved column member := by
    obtain rfl := pairSite_isColumn column
    rcases index with _ | _ | _ | _ | _ | index
    · cases here
      simp [Inst.operands] at member
    · cases here
      exact .inl ⟨0, rfl⟩
    · cases here
      simp [Inst.operands] at member
    · cases here
      simp [Inst.operands] at member
    · cases here
      simp [Inst.operands] at member
    · cases here
  indices index load found := by
    have element : ∀ index < copySecond.insts.length, ∀ rewrite,
        pairSite.rewrite copySecond index = some rewrite → rewrite.elementIdx = .arg 1 := by
      decide
    rcases Nat.lt_or_ge index copySecond.insts.length with inside | outside
    · cases element index inside _ found
    · have none : copySecond.insts[index]? = none := List.getElem?_eq_none outside
      simp [Site.rewrite, Site.fieldGEP, Site.field0Access, none] at found
  stores index type value pointer here _ := by
    rcases index with _ | _ | _ | _ | _ | index
    any_goals cases here
    intro same
    cases same

/-- The copy is made in both functions. -/
theorem copySecond_preserved : ∃ state other : State, state.exit.isRunning = false ∧
    (rewrittenMachine pairSite pairSetting copySecond pairActivation.args
      pairActivation.columnValues pairActivation.memory).Reachable Transition.Machine.anyStep other ∧
    SameEnd pairActivation state other := by
  have first : 0 ∈ pairSite.liveFields copySecond := by decide
  have second : 1 ∈ pairSite.liveFields copySecond := by decide
  have column : pairSite.rewrite copySecond 0 = some (.column 1 (.arg 1)) := by decide
  have direct : pairSite.rewrite copySecond 3 = some (.direct (.arg 1)) := by decide
  have plain : pairSite.rewrite copySecond 1 = none := by decide
  have plain' : pairSite.rewrite copySecond 2 = none := by decide
  obtain ⟨state, reach, ended⟩ : ∃ state, (machine pairSetting copySecond pairActivation.args
      pairActivation.memory).Reachable (Admitted pairActivation) state ∧
        state.exit.isRunning = false := by
    refine ⟨_, .tick (.tick (.tick (.tick (.tick (.start rfl) ?_ rfl) ?_ rfl) ?_ rfl) ?_ rfl) ?_ rfl,
      rfl⟩
    · intro inst here
      cases here
      intro field element found
      cases column.symm.trans found
      exact ⟨⟨⟨1, Nat.one_lt_two⟩, ⟨1, second⟩⟩, rfl, rfl, rfl⟩
    · intro inst here
      cases here
      refine ⟨fun element found => ?_, fun _ => ⟨fun index same _ => ?_, fun free => ?_⟩⟩
      · cases plain.symm.trans found
      · cases same
        exact ⟨⟨⟨⟨1, Nat.one_lt_two⟩, ⟨1, second⟩⟩, rfl⟩, fun _ _ => Nat.le_refl _⟩
      · exact absurd ⟨_, _, column⟩ (free 0 rfl)
    · intro inst here
      cases here
      intro field element found
      cases plain'.symm.trans found
    · intro inst here
      cases here
      refine ⟨fun element found => ?_, fun none => absurd direct (none _)⟩
      cases direct.symm.trans found
      exact ⟨⟨⟨1, Nat.one_lt_two⟩, ⟨0, first⟩⟩, rfl, rfl, rfl, Nat.le_refl _⟩
    · intro inst here
      cases here
      trivial
  obtain ⟨other, reached, same⟩ := columns_preserve_runs pairActivation pairSite_rewritable reach
  exact ⟨state, other, ended, reached, same⟩

end Example

end InlineRewrite
end TopoLlvm
