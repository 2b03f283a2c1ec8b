import TopoLlvm.Backend.Names
import TopoLlvm.Library.RecordLayout

/-!
# Columns in place of an array of structs

`DataLayoutPass` overlays a struct of columns, one array for each field, on the storage of an array
of structs.  The columns fit the storage, and no two elements of them share a byte.
-/

namespace TopoLlvm
namespace DataLayout

open TopoLlvm.Backend
open RecordLayout

/-- A type; of a scalar or a vector only what the data layout says of it is kept. -/
inductive Ty where
  | value (shape : Shape)
  | array (elem : Ty) (count : Nat)
  | struct (name : Name) (elements : List Ty)

mutual

/-- Allocation size and ABI alignment. -/
def Ty.shape : Ty → Shape
  | .value shape => shape
  | .array elem count => elem.shape.array count
  | .struct _ elements => record (shapes elements)

def shapes : List Ty → List Shape
  | [] => []
  | elem :: elements => elem.shape :: shapes elements

end

theorem shapes_eq_map (elements : List Ty) : shapes elements = elements.map Ty.shape := by
  induction elements with
  | nil => rfl
  | cons elem elements ih => rw [shapes, ih, List.map_cons]

/-- An index of a GEP. -/
inductive Index (V : Type) where
  | const (value : Nat)
  | val (value : V)

def Index.eval {V : Type} (env : V → Nat) : Index V → Nat
  | .const value => value
  | .val value => env value

/-- The part of a type at an index, and where it begins. -/
def Ty.part (index : Nat) : Ty → Option (Nat × Ty)
  | .value _ => none
  | .array elem _ => some (index * elem.shape.size, elem)
  | .struct _ elements =>
      match fieldOffset? (shapes elements) index, elements[index]? with
      | some start, some elem => some (start, elem)
      | _, _ => none

theorem part_array (elem : Ty) (count index : Nat) :
    (Ty.array elem count).part index = some (index * elem.shape.size, elem) := rfl

def Ty.parts (source : Ty) : List Nat → Option (Nat × Ty)
  | [] => some (0, source)
  | index :: indices =>
      match source.part index with
      | none => none
      | some (start, elem) => (elem.parts indices).map fun (rest, last) => (start + rest, last)

/-- A GEP; the first index steps over whole values of the source type. -/
structure GEP (V : Type) where
  sourceElementType : Ty
  pointerOperand : V
  indices : List (Index V)

/-- The bytes that a GEP points to, and the type of what is there. -/
def GEP.range {V : Type} (gep : GEP V) (env : V → Nat) : Option (Range × Ty) :=
  match gep.indices.map (Index.eval env) with
  | [] => none
  | first :: indices =>
      (gep.sourceElementType.parts indices).map fun (start, last) =>
        (⟨env gep.pointerOperand + first * gep.sourceElementType.shape.size + start,
          last.shape.size⟩, last)

structure ArrayOfStructInfo where
  wrapperName : Name
  elementName : Name
  /-- The fields of the element type. -/
  elements : List Ty
  arraySize : Nat

/-- Characters of the inline namespace of libc++ up to the next `::`. -/
def skipSegment : Name → Option Name
  | [] => none
  | ':' :: ':' :: rest => some rest
  | _ :: rest => skipSegment rest

def matchesArrayName (name : Name) : Bool :=
  "struct.topo::array".toList.isPrefixOf name || "class.topo::array".toList.isPrefixOf name ||
    "struct.std::array".toList.isPrefixOf name || "class.std::array".toList.isPrefixOf name ||
    ["struct.std::__".toList, "class.std::__".toList].any fun pre =>
      (name.dropPrefix? pre).any fun rest =>
        (skipSegment rest).any fun after => "array".toList.isPrefixOf after

def isFixedSizeArrayOfStruct : Ty → Option ArrayOfStructInfo
  | .struct wrapperName [.array (.struct elementName elements) arraySize] =>
      if matchesArrayName wrapperName = false ∨ arraySize = 0 then none
      else some { wrapperName, elementName, elements, arraySize }
  | _ => none

namespace ArrayOfStructInfo

variable (info : ArrayOfStructInfo)

def elementType : Ty := .struct info.elementName info.elements

/-- The storage of the array. -/
def arrayTy : Ty := .array info.elementType info.arraySize

def wrapperType : Ty := .struct info.wrapperName [info.arrayTy]

/-- The struct of columns. -/
def soaType : Ty :=
  .struct (info.wrapperName ++ ".soa".toList) (info.elements.map (.array · info.arraySize))

end ArrayOfStructInfo

/-- What the pass takes for an array of structs is a wrapper of its storage, which is not empty. -/
theorem isFixedSizeArrayOfStruct_eq_some {sty : Ty} {info : ArrayOfStructInfo}
    (found : isFixedSizeArrayOfStruct sty = some info) :
    sty = info.wrapperType ∧ 0 < info.arraySize := by
  unfold isFixedSizeArrayOfStruct at found
  split at found
  · split at found
    · cases found
    · rename_i accepted
      cases found
      exact ⟨rfl, Nat.pos_of_ne_zero fun empty => accepted (.inr empty)⟩
  · cases found

/-- An access to a field of an element, by whatever GEPs it is reached. -/
structure FieldGEP (V : Type) where
  fieldIdx : Nat
  elementIdx : V
  basePtr : V

namespace FieldGEP

variable {V : Type} (fg : FieldGEP V) (soaSty : Ty)

/-- The GEP in place of that of the access; a direct access to an element is one to its field 0. -/
def newGEP : GEP V where
  sourceElementType := soaSty
  pointerOperand := fg.basePtr
  indices := [.const 0, .const fg.fieldIdx, .val fg.elementIdx]

/-- The column that the access goes to. -/
def columnGEP : GEP V where
  sourceElementType := soaSty
  pointerOperand := fg.basePtr
  indices := [.const 0, .const fg.fieldIdx]

/-- The access in the array of structs. -/
def aosGEP (wrapperSty : Ty) : GEP V where
  sourceElementType := wrapperSty
  pointerOperand := fg.basePtr
  indices := [.const 0, .const 0, .val fg.elementIdx, .const fg.fieldIdx]

end FieldGEP

/-! ## The layout -/

section Layout

variable {V : Type} {info : ArrayOfStructInfo} {fg other : FieldGEP V} {env : V → Nat} {ty : Ty}

theorem getElem?_shapes {elements : List Ty} {index : Nat} (present : elements[index]? = some ty) :
    (shapes elements)[index]? = some ty.shape := by
  rw [shapes_eq_map, List.getElem?_map, present]
  rfl

theorem shapes_columns (count : Nat) (elements : List Ty) :
    shapes (elements.map (.array · count)) = columns count (shapes elements) := by
  rw [shapes_eq_map, shapes_eq_map, columns, List.map_map, List.map_map]
  rfl

namespace ArrayOfStructInfo

/-- A part of the struct of columns is a column. -/
theorem part_soaType {index start : Nat} (present : info.elements[index]? = some ty)
    (placed : fieldOffset? (columns info.arraySize (shapes info.elements)) index = some start) :
    info.soaType.part index = some (start, .array ty info.arraySize) := by
  have column : (info.elements.map (Ty.array · info.arraySize))[index]? =
      some (.array ty info.arraySize) := by
    rw [List.getElem?_map, present]
    rfl
  simp only [soaType, Ty.part, shapes_columns, placed, column]

end ArrayOfStructInfo

namespace FieldGEP

theorem exists_start (present : info.elements[fg.fieldIdx]? = some ty) :
    ∃ start, fieldOffset? (columns info.arraySize (shapes info.elements)) fg.fieldIdx =
      some start :=
  fieldOffset?_isSome (getElem?_columns (getElem?_shapes present) _)

theorem range_columnGEP {start : Nat} (present : info.elements[fg.fieldIdx]? = some ty)
    (placed : fieldOffset? (columns info.arraySize (shapes info.elements)) fg.fieldIdx =
      some start) :
    (fg.columnGEP info.soaType).range env =
      some (Range.shift (env fg.basePtr) ⟨start, info.arraySize * ty.shape.size⟩,
        .array ty info.arraySize) := by
  simp [GEP.range, columnGEP, Index.eval, Ty.parts, ArrayOfStructInfo.part_soaType present placed,
    Range.shift, Ty.shape]

theorem range_newGEP {start : Nat} (present : info.elements[fg.fieldIdx]? = some ty)
    (placed : fieldOffset? (columns info.arraySize (shapes info.elements)) fg.fieldIdx =
      some start) :
    (fg.newGEP info.soaType).range env =
      some ((item start ty.shape.size (env fg.elementIdx)).shift (env fg.basePtr), ty) := by
  simp [GEP.range, newGEP, Index.eval, Ty.parts, ArrayOfStructInfo.part_soaType present placed,
    part_array, Range.shift, item]

theorem range_aosGEP {start : Nat} (present : info.elements[fg.fieldIdx]? = some ty)
    (placed : fieldOffset? (shapes info.elements) fg.fieldIdx = some start) :
    (fg.aosGEP info.wrapperType).range env =
      some (⟨env fg.basePtr + (env fg.elementIdx * info.elementType.shape.size + start),
        ty.shape.size⟩, ty) := by
  have field : info.elementType.part fg.fieldIdx = some (start, ty) := by
    simp only [ArrayOfStructInfo.elementType, Ty.part, placed, present]
  have storage : info.wrapperType.part 0 = some (0, info.arrayTy) := by
    simp [ArrayOfStructInfo.wrapperType, Ty.part, shapes, fieldOffset?, offsetsFrom, alignTo,
      WordAlign.padding]
  simp [GEP.range, aosGEP, Index.eval, Ty.parts, storage, ArrayOfStructInfo.arrayTy, part_array,
    field]

/-- The access goes to an aligned item of its column. -/
theorem newGEP_sound (present : info.elements[fg.fieldIdx]? = some ty)
    (inside : env fg.elementIdx < info.arraySize) :
    ∃ range column, (fg.newGEP info.soaType).range env = some (range, ty) ∧
      (fg.columnGEP info.soaType).range env = some (column, .array ty info.arraySize) ∧
      range.size = ty.shape.size ∧ range.Within column ∧
      column.Within ⟨env fg.basePtr, info.arrayTy.shape.size⟩ ∧
      (info.elementType.shape.alignment ∣ env fg.basePtr → ty.shape.alignment ∣ range.start) := by
  obtain ⟨start, placed⟩ := exists_start present
  have shaped := getElem?_shapes present
  refine ⟨_, _, range_newGEP present placed, range_columnGEP present placed, rfl,
    (item_within inside).shift _, (column_within shaped placed).shift _, fun aligned => ?_⟩
  have divides := alignment_dvd_record (List.mem_of_getElem? shaped)
  exact Nat.dvd_add (divides.trans aligned) (item_aligned shaped placed _)

/-- What kept to the element keeps to the storage. -/
theorem newGEP_within {range aos : Range} {width : Nat}
    (present : info.elements[fg.fieldIdx]? = some ty)
    (inside : env fg.elementIdx < info.arraySize)
    (rewritten : (fg.newGEP info.soaType).range env = some (range, ty))
    (before : (fg.aosGEP info.wrapperType).range env = some (aos, ty))
    (fits : Range.Within ⟨aos.start, width⟩
      (item (env fg.basePtr) info.elementType.shape.size (env fg.elementIdx))) :
    Range.Within ⟨range.start, width⟩ ⟨env fg.basePtr, info.arrayTy.shape.size⟩ := by
  have shaped := getElem?_shapes present
  obtain ⟨start, placed⟩ := exists_start present
  obtain ⟨next, plain⟩ := fieldOffset?_isSome shaped
  cases (range_newGEP present placed).symm.trans rewritten
  cases (range_aosGEP present plain).symm.trans before
  have ends : env fg.basePtr + (env fg.elementIdx * info.elementType.shape.size + next) + width ≤
      env fg.basePtr + env fg.elementIdx * info.elementType.shape.size +
        info.elementType.shape.size := fits.2
  have small : next + width ≤ (record (shapes info.elements)).size := by
    change next + width ≤ info.elementType.shape.size
    omega
  exact (access_within shaped plain placed inside small).shift (env fg.basePtr)

/-- Accesses to other fields or elements of the array do not touch. -/
theorem newGEP_apart {range taken : Range} {elem : Ty} (same : fg.basePtr = other.basePtr)
    (inside : env fg.elementIdx < info.arraySize) (within : env other.elementIdx < info.arraySize)
    (present : info.elements[fg.fieldIdx]? = some ty)
    (sibling : info.elements[other.fieldIdx]? = some elem)
    (differ : (env fg.elementIdx, fg.fieldIdx) ≠ (env other.elementIdx, other.fieldIdx))
    (first : (fg.newGEP info.soaType).range env = some (range, ty))
    (second : (other.newGEP info.soaType).range env = some (taken, elem)) : range.Apart taken := by
  obtain ⟨start, placed⟩ := exists_start present
  obtain ⟨behind, located⟩ := exists_start sibling
  cases (range_newGEP present placed).symm.trans first
  cases (range_newGEP sibling located).symm.trans second
  rw [same]
  exact (items_apart (getElem?_shapes present) (getElem?_shapes sibling) placed located inside
    within differ).shift _

end FieldGEP

/-- The columns fit the storage of the array.  An access to a field of an element is one to an
aligned item of the field's column, whatever kept to its element keeps to the storage, and no two
accesses share a byte. -/
theorem soaType_fits (info : ArrayOfStructInfo) (env : V → Nat) :
    info.soaType.shape.size ≤ info.arrayTy.shape.size ∧
    (∀ (fg : FieldGEP V) (ty : Ty), info.elements[fg.fieldIdx]? = some ty →
      env fg.elementIdx < info.arraySize →
      ∃ range column, (fg.newGEP info.soaType).range env = some (range, ty) ∧
        (fg.columnGEP info.soaType).range env = some (column, .array ty info.arraySize) ∧
        range.size = ty.shape.size ∧ range.Within column ∧
        column.Within ⟨env fg.basePtr, info.arrayTy.shape.size⟩ ∧
        (info.elementType.shape.alignment ∣ env fg.basePtr → ty.shape.alignment ∣ range.start) ∧
        ∀ aos width, (fg.aosGEP info.wrapperType).range env = some (aos, ty) →
          Range.Within ⟨aos.start, width⟩
            (item (env fg.basePtr) info.elementType.shape.size (env fg.elementIdx)) →
          Range.Within ⟨range.start, width⟩ ⟨env fg.basePtr, info.arrayTy.shape.size⟩) ∧
    (∀ (fg other : FieldGEP V) (range taken : Range) (ty elem : Ty),
      fg.basePtr = other.basePtr →
      env fg.elementIdx < info.arraySize → env other.elementIdx < info.arraySize →
      info.elements[fg.fieldIdx]? = some ty → info.elements[other.fieldIdx]? = some elem →
      (env fg.elementIdx, fg.fieldIdx) ≠ (env other.elementIdx, other.fieldIdx) →
      (fg.newGEP info.soaType).range env = some (range, ty) →
      (other.newGEP info.soaType).range env = some (taken, elem) → range.Apart taken) := by
  refine ⟨?_, fun fg ty present inside => ?_, fun fg other range taken ty elem same inside within
    present sibling differ first second =>
      FieldGEP.newGEP_apart same inside within present sibling differ first second⟩
  · change (record (shapes (info.elements.map (.array · info.arraySize)))).size ≤
      info.arraySize * (record (shapes info.elements)).size
    rw [shapes_columns]
    exact size_record_columns_le ..
  · obtain ⟨range, column, rewritten, whole, size, placed, inStorage, aligned⟩ :=
      FieldGEP.newGEP_sound present inside
    exact ⟨range, column, rewritten, whole, size, placed, inStorage, aligned,
      fun aos width before fits => FieldGEP.newGEP_within present inside rewritten before fits⟩

/-- The columns of three fields, the elements of which are padded in front of the second and behind
the third. -/
example :
    let info : ArrayOfStructInfo := {
      wrapperName := "struct.topo::array".toList
      elementName := "struct.Particle".toList
      elements := [.value ⟨1, 0, by decide⟩, .value ⟨4, 2, by decide⟩, .value ⟨2, 1, by decide⟩]
      arraySize := 3 }
    (info.arrayTy.shape.size, info.soaType.shape.size) = (36, 24) := by
  decide

end Layout

end DataLayout
end TopoLlvm
