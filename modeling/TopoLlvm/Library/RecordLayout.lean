import TopoLlvm.Library.WordAlign
import Mathlib.Data.List.Basic

/-!
# Records in memory

The natural layout of a record: each field at the first aligned offset behind the field before it,
and the end rounded up to the greatest alignment.  A record of columns, one array for each field,
needs no more room than an array of records.
-/

namespace RecordLayout

open WordAlign

/-- The first multiple of the alignment from an offset on. -/
def alignTo (offset alignment : Nat) : Nat := offset + padding offset alignment

theorem le_alignTo (offset alignment : Nat) : offset ≤ alignTo offset alignment :=
  Nat.le_add_right ..

theorem dvd_alignTo (offset : Nat) {alignment : Nat} (positive : 0 < alignment) :
    alignment ∣ alignTo offset alignment :=
  dvd_add_padding offset positive

theorem alignTo_le {offset alignment bound : Nat} (positive : 0 < alignment)
    (below : offset ≤ bound) (aligned : alignment ∣ bound) : alignTo offset alignment ≤ bound := by
  obtain ⟨count, exact⟩ := dvd_alignTo offset positive
  obtain ⟨limit, rfl⟩ := aligned
  have small : alignTo offset alignment < offset + alignment :=
    Nat.add_lt_add_left (padding_lt offset positive) offset
  rw [exact] at small ⊢
  have less : alignment * count < alignment * (limit + 1) := by
    rw [Nat.mul_add, Nat.mul_one]
    omega
  exact Nat.mul_le_mul_left _ (Nat.le_of_lt_succ (Nat.lt_of_mul_lt_mul_left less))

/-- Rounding up once for several items needs no more than rounding up for each. -/
theorem alignTo_le_mul {offset alignment count bound : Nat} (positive : 0 < alignment)
    (below : offset ≤ count * bound) :
    alignTo offset alignment ≤ count * alignTo bound alignment :=
  alignTo_le positive (below.trans (Nat.mul_le_mul_left count (le_alignTo ..)))
    ((dvd_alignTo bound positive).mul_left count)

/-- What a value occupies: a size that is a multiple of a power of two. -/
structure Shape where
  size : Nat
  exponent : Nat
  aligned : 2 ^ exponent ∣ size
  deriving DecidableEq

namespace Shape

variable (shape : Shape)

def alignment : Nat := 2 ^ shape.exponent

theorem alignment_pos : 0 < shape.alignment := Nat.two_pow_pos _

/-- Copies of a value one behind the other. -/
def array (count : Nat) : Shape where
  size := count * shape.size
  exponent := shape.exponent
  aligned := shape.aligned.mul_left count

@[simp] theorem size_array (count : Nat) : (shape.array count).size = count * shape.size := rfl

@[simp] theorem alignment_array (count : Nat) : (shape.array count).alignment = shape.alignment :=
  rfl

end Shape

/-- Where fields begin that are laid out from an offset on. -/
def offsetsFrom (offset : Nat) : List Shape → List Nat
  | [] => []
  | field :: fields =>
      let start := alignTo offset field.alignment
      start :: offsetsFrom (start + field.size) fields

/-- The end of the fields that are laid out from an offset on. -/
def extentFrom (offset : Nat) : List Shape → Nat
  | [] => offset
  | field :: fields => extentFrom (alignTo offset field.alignment + field.size) fields

def maxExponent (fields : List Shape) : Nat := (fields.map Shape.exponent).foldr max 0

/-- A record with natural padding, also behind its last field. -/
def record (fields : List Shape) : Shape where
  size := alignTo (extentFrom 0 fields) (2 ^ maxExponent fields)
  exponent := maxExponent fields
  aligned := dvd_alignTo _ (Nat.two_pow_pos _)

def fieldOffset? (fields : List Shape) (index : Nat) : Option Nat := (offsetsFrom 0 fields)[index]?

/-! ## Fields -/

section Fields

variable {fields : List Shape} {field : Shape} {index offset start : Nat}

theorem exponent_le_maxExponent (member : field ∈ fields) :
    field.exponent ≤ maxExponent fields := by
  induction fields with
  | nil => cases member
  | cons first rest ih =>
      rcases List.mem_cons.mp member with rfl | later
      · exact Nat.le_max_left ..
      · exact (ih later).trans (Nat.le_max_right ..)

/-- Alignments are powers of two, so that the one of the record is a multiple of each. -/
theorem alignment_dvd_record (member : field ∈ fields) :
    field.alignment ∣ (record fields).alignment :=
  Nat.pow_dvd_pow 2 (exponent_le_maxExponent member)

theorem length_offsetsFrom (offset : Nat) (fields : List Shape) :
    (offsetsFrom offset fields).length = fields.length := by
  induction fields generalizing offset with
  | nil => rfl
  | cons field fields ih => exact congrArg (· + 1) (ih _)

theorem fieldOffset?_isSome (present : fields[index]? = some field) :
    ∃ start, fieldOffset? fields index = some start := by
  obtain ⟨inside, -⟩ := List.getElem?_eq_some_iff.mp present
  exact ⟨_, List.getElem?_eq_getElem (by rwa [length_offsetsFrom])⟩

theorem le_extentFrom (offset : Nat) (fields : List Shape) : offset ≤ extentFrom offset fields := by
  induction fields generalizing offset with
  | nil => exact Nat.le_refl _
  | cons field fields ih =>
      exact ((le_alignTo ..).trans (Nat.le_add_right ..)).trans (ih _)

/-- A field begins at a multiple of its alignment and ends within the extent. -/
theorem offsetsFrom_sound (present : fields[index]? = some field)
    (placed : (offsetsFrom offset fields)[index]? = some start) :
    field.alignment ∣ start ∧ offset ≤ start ∧ start + field.size ≤ extentFrom offset fields := by
  induction fields generalizing offset index with
  | nil => cases present
  | cons first rest ih =>
      cases index with
      | zero =>
          cases present
          cases placed
          exact ⟨dvd_alignTo _ (Shape.alignment_pos _), le_alignTo .., le_extentFrom ..⟩
      | succ index =>
          obtain ⟨aligned, after, before⟩ := ih present placed
          exact ⟨aligned, ((le_alignTo ..).trans (Nat.le_add_right ..)).trans after, before⟩

/-- Fields lie one behind the other. -/
theorem offsetsFrom_ordered {later next : Nat} (present : fields[index]? = some field)
    (placed : (offsetsFrom offset fields)[index]? = some start) (order : index < later)
    (behind : (offsetsFrom offset fields)[later]? = some next) : start + field.size ≤ next := by
  induction fields generalizing offset index later with
  | nil => cases present
  | cons first rest ih =>
      cases later with
      | zero => cases order
      | succ later =>
          cases index with
          | zero =>
              cases present
              cases placed
              have behind : (offsetsFrom (alignTo offset field.alignment + field.size)
                  rest)[later]? = some next := behind
              obtain ⟨inside, -⟩ := List.getElem?_eq_some_iff.mp behind
              rw [length_offsetsFrom] at inside
              exact (offsetsFrom_sound (List.getElem?_eq_getElem inside) behind).2.1
          | succ index => exact ih present placed (Nat.lt_of_succ_lt_succ order) behind

theorem size_record_ge (fields : List Shape) : extentFrom 0 fields ≤ (record fields).size :=
  le_alignTo ..

end Fields

/-! ## Columns -/

/-- An array for each field. -/
def columns (count : Nat) (fields : List Shape) : List Shape := fields.map (·.array count)

section Columns

variable {fields : List Shape} {field : Shape} {count index offset before start column : Nat}

theorem maxExponent_columns (count : Nat) (fields : List Shape) :
    maxExponent (columns count fields) = maxExponent fields := by
  rw [maxExponent, columns, List.map_map]
  rfl

/-- Columns end no later than that many records would. -/
theorem extentFrom_columns_le (below : offset ≤ count * before) :
    extentFrom offset (columns count fields) ≤ count * extentFrom before fields := by
  induction fields generalizing offset before with
  | nil => exact below
  | cons field fields ih =>
      refine ih ?_
      rw [Nat.mul_add]
      exact Nat.add_le_add_right (alignTo_le_mul field.alignment_pos below) _

/-- A column begins no later than that many parts of a record in front of the field. -/
theorem offsetsFrom_columns_le (below : offset ≤ count * before)
    (placed : (offsetsFrom before fields)[index]? = some start)
    (wide : (offsetsFrom offset (columns count fields))[index]? = some column) :
    column ≤ count * start := by
  induction fields generalizing offset before index with
  | nil => cases placed
  | cons field fields ih =>
      have here := alignTo_le_mul field.alignment_pos below
      cases index with
      | zero =>
          cases placed
          cases wide
          exact here
      | succ index =>
          refine ih ?_ placed wide
          rw [Nat.mul_add]
          exact Nat.add_le_add_right here _

/-- A record of columns needs no more room than an array of records, whatever the order of the
fields. -/
theorem size_record_columns_le (count : Nat) (fields : List Shape) :
    (record (columns count fields)).size ≤ count * (record fields).size := by
  change alignTo _ (2 ^ maxExponent (columns count fields)) ≤ _
  rw [maxExponent_columns]
  exact alignTo_le_mul (Nat.two_pow_pos _) (extentFrom_columns_le (Nat.zero_le _))

end Columns

/-! ## Ranges -/

/-- The bytes from a start on. -/
structure Range where
  start : Nat
  size : Nat
  deriving DecidableEq

namespace Range

def Within (inner outer : Range) : Prop :=
  outer.start ≤ inner.start ∧ inner.start + inner.size ≤ outer.start + outer.size

def Apart (left right : Range) : Prop :=
  left.start + left.size ≤ right.start ∨ right.start + right.size ≤ left.start

variable {left right inner outer : Range}

theorem Apart.symm (apart : left.Apart right) : right.Apart left := Or.symm apart

theorem Within.trans {middle : Range} (within : inner.Within middle) (wide : middle.Within outer) :
    inner.Within outer :=
  ⟨wide.1.trans within.1, within.2.trans wide.2⟩

/-- Parts of ranges that have nothing in common have nothing in common. -/
theorem Apart.mono {part other : Range} (apart : left.Apart right) (within : part.Within left)
    (inside : other.Within right) : part.Apart other :=
  apart.imp (fun before => within.2.trans (before.trans inside.1))
    fun before => inside.2.trans (before.trans within.1)

def shift (base : Nat) (range : Range) : Range := ⟨base + range.start, range.size⟩

theorem Within.shift (within : inner.Within outer) (base : Nat) :
    (inner.shift base).Within (outer.shift base) := by
  obtain ⟨after, before⟩ := within
  refine ⟨Nat.add_le_add_left after base, ?_⟩
  simp only [Range.shift]
  omega

theorem Apart.shift (apart : left.Apart right) (base : Nat) :
    (left.shift base).Apart (right.shift base) := by
  simp only [Apart, Range.shift] at apart ⊢
  omega

end Range

/-- The bytes of an item of an array. -/
def item (start size index : Nat) : Range := ⟨start + index * size, size⟩

theorem item_within {start size index count : Nat} (inside : index < count) :
    (item start size index).Within ⟨start, count * size⟩ := by
  refine ⟨Nat.le_add_right .., ?_⟩
  have next : (index + 1) * size ≤ count * size := Nat.mul_le_mul_right size inside
  rw [Nat.add_mul, Nat.one_mul] at next
  simp only [item]
  omega

theorem item_apart {start size index other : Nat} (differ : index ≠ other) :
    (item start size index).Apart (item start size other) := by
  have ordered {low high : Nat} (order : low < high) :
      start + low * size + size ≤ start + high * size := by
    have next : (low + 1) * size ≤ high * size := Nat.mul_le_mul_right size order
    rw [Nat.add_mul, Nat.one_mul] at next
    omega
  exact (Nat.lt_or_gt_of_ne differ).imp ordered ordered

/-! ## Items of columns -/

section Items

variable {fields : List Shape} {field other : Shape} {count index next start behind : Nat}

theorem getElem?_columns (present : fields[index]? = some field) (count : Nat) :
    (columns count fields)[index]? = some (field.array count) := by
  rw [columns, List.getElem?_map, present]
  rfl

/-- A column lies in the storage of the records. -/
theorem column_within (present : fields[index]? = some field)
    (placed : fieldOffset? (columns count fields) index = some start) :
    Range.Within ⟨start, count * field.size⟩ ⟨0, count * (record fields).size⟩ := by
  obtain ⟨-, -, inside⟩ := offsetsFrom_sound (getElem?_columns present count) placed
  refine ⟨Nat.zero_le _, ?_⟩
  calc
    start + count * field.size ≤ extentFrom 0 (columns count fields) := inside
    _ ≤ (record (columns count fields)).size := size_record_ge _
    _ ≤ count * (record fields).size := size_record_columns_le ..
    _ = 0 + count * (record fields).size := (Nat.zero_add _).symm

theorem columns_apart (present : fields[index]? = some field) (sibling : fields[next]? = some other)
    (placed : fieldOffset? (columns count fields) index = some start)
    (located : fieldOffset? (columns count fields) next = some behind) (differ : index ≠ next) :
    Range.Apart ⟨start, count * field.size⟩ ⟨behind, count * other.size⟩ := by
  rcases Nat.lt_or_gt_of_ne differ with order | order
  · exact .inl (offsetsFrom_ordered (getElem?_columns present count) placed order located)
  · exact .inr (offsetsFrom_ordered (getElem?_columns sibling count) located order placed)

theorem item_aligned (present : fields[index]? = some field)
    (placed : fieldOffset? (columns count fields) index = some start) (place : Nat) :
    field.alignment ∣ (item start field.size place).start :=
  Nat.dvd_add (offsetsFrom_sound (getElem?_columns present count) placed).1
    (field.aligned.mul_left place)

/-- Items of one column or of two do not share a byte. -/
theorem items_apart {place space : Nat} (present : fields[index]? = some field)
    (sibling : fields[next]? = some other)
    (placed : fieldOffset? (columns count fields) index = some start)
    (located : fieldOffset? (columns count fields) next = some behind)
    (inside : place < count) (within : space < count) (differ : (place, index) ≠ (space, next)) :
    (item start field.size place).Apart (item behind other.size space) := by
  by_cases same : index = next
  · subst same
    obtain rfl := Option.some.inj (present.symm.trans sibling)
    obtain rfl := Option.some.inj (placed.symm.trans located)
    exact item_apart fun equal => differ (by rw [equal])
  · exact (columns_apart present sibling placed located same).mono (item_within inside)
      (item_within within)

/-- What lies in a record from a field on lies in the storage as well when it begins at the item
of the column. -/
theorem access_within {place width : Nat} (present : fields[index]? = some field)
    (plain : fieldOffset? fields index = some next)
    (placed : fieldOffset? (columns count fields) index = some start) (inside : place < count)
    (fits : next + width ≤ (record fields).size) :
    Range.Within ⟨start + place * field.size, width⟩ ⟨0, count * (record fields).size⟩ := by
  have early : start ≤ count * next := offsetsFrom_columns_le (Nat.zero_le _) plain placed
  obtain ⟨-, -, ends⟩ := offsetsFrom_sound present plain
  have whole : next + field.size ≤ (record fields).size := ends.trans (size_record_ge fields)
  refine ⟨Nat.zero_le _, ?_⟩
  obtain ⟨others, rfl⟩ : ∃ others, count = others + 1 := ⟨count - 1, by omega⟩
  have items : place * field.size ≤ others * field.size :=
    Nat.mul_le_mul_right _ (Nat.le_of_lt_succ inside)
  have rest := Nat.mul_le_mul_left others whole
  rw [Nat.mul_add] at rest
  rw [Nat.add_mul, Nat.one_mul] at early ⊢
  simp only
  omega

end Items

end RecordLayout
