import TopoLlvm.Backend.Names
import TopoLlvm.Library.Bracketed

/-!
# Candidate keys of Rust methods

The demangler renders a method as `<Type>::method` or `<Type as Trait>::method`, where generic
arguments may have paths and projections of their own.  `rustImplCandidates` looks for `>::`, ` as `
and `::` without regard to the brackets.
-/

namespace TopoLlvm
namespace Backend
namespace RustImpls

/-- A character within generic arguments. -/
def IsInner (letter : Char) : Prop := letter ≠ '<' ∧ letter ≠ '>'

/-- A character of a name. -/
def IsOuter (letter : Char) : Prop :=
  letter ≠ '<' ∧ letter ≠ '>' ∧ letter ≠ ':' ∧ letter ≠ ' '

/-- A segment of a path, with its generic arguments. -/
structure Segment where
  text : Name
  nonempty : text ≠ []
  shape : Bracketed.Outer IsInner '<' '>' IsOuter text

/-- A Rust path: the segments of its crate and modules, and the last one. -/
structure Path where
  modules : List Segment
  last : Segment

def Path.text (path : Path) : Name :=
  path.modules.flatMap (fun segment => segment.text ++ [':', ':']) ++ path.last.text

/-- A method in an implementation for a type, of a trait if there is one. -/
structure ImplMethod where
  self : Path
  implemented : Option Path
  method : Path

variable (impl : ImplMethod)

namespace ImplMethod

def traitPart : Name :=
  match impl.implemented with
  | none => []
  | some path => " as ".toList ++ path.text

/-- The demangled name. -/
def rendered : Name :=
  '<' :: (impl.self.text ++ impl.traitPart) ++ ['>', ':', ':'] ++ impl.method.text

/-- The full key, and the bare one of a type in a crate or a module. -/
def keys : List Name :=
  (impl.self.text ++ [':', ':'] ++ impl.method.text) ::
    if impl.self.modules.isEmpty then []
    else [impl.self.last.text ++ [':', ':'] ++ impl.method.text]

/-- What is looked for occurs nowhere else. -/
structure Plain : Prop where
  noInnerPath : ¬['>', ':', ':'] <:+: impl.method.text
  noProjection : ¬" as ".toList <:+: impl.self.text
  noQualifiedArgument : ¬[':', ':'] <:+: impl.self.last.text

end ImplMethod

section

variable {path : Path} {segment : Segment}

theorem Segment.head {letter : Char} (first : segment.text.head? = some letter) :
    letter ≠ ':' := by
  rintro rfl
  rcases segment.shape.head first with outer | opening
  · exact outer.2.2.1 rfl
  · cases opening

theorem Path.head {letter : Char} (first : path.text.head? = some letter) : letter ≠ ':' := by
  obtain ⟨modules, last⟩ := path
  cases modules with
  | nil => exact last.head first
  | cons segment modules =>
      refine segment.head ?_
      obtain ⟨head, tail, same⟩ := List.exists_cons_of_ne_nil segment.nonempty
      simp only [Path.text, List.flatMap_cons, same, List.cons_append, List.head?_cons] at first
      rw [same, List.head?_cons, first]

theorem Path.text_ne_nil : path.text ≠ [] :=
  List.append_ne_nil_of_right_ne_nil _ path.last.nonempty

/-- A blank in a path is within generic arguments. -/
theorem Path.shape (path : Path) :
    Bracketed.Outer IsInner '<' '>' (fun letter => letter ≠ ' ') path.text := by
  have segment (segment : Segment) :
      Bracketed.Outer IsInner '<' '>' (fun letter => letter ≠ ' ') segment.text :=
    segment.shape.mono fun _ outer => outer.2.2.2
  obtain ⟨modules, last⟩ := path
  refine Bracketed.Outer.append ?_ (segment last)
  induction modules with
  | nil => exact .nil
  | cons first modules ih =>
      rw [List.flatMap_cons]
      exact ((segment first).append (.of_forall (by simp))).append ih

/-! ## Occurrences at the borders -/

theorem close_infix_iff {text : Name} :
    ['>', ':', ':'] <:+: ':' :: ':' :: text ↔ ['>', ':', ':'] <:+: text := by
  simp [List.infix_cons_iff]

theorem colons_infix_iff {text : Name}
    (starts : ∀ letter, text.head? = some letter → letter ≠ ':') :
    [':', ':'] <:+: ':' :: text ↔ [':', ':'] <:+: text := by
  cases text with
  | nil => simp [List.infix_cons_iff]
  | cons letter text =>
      have plain := starts letter rfl
      simp [List.infix_cons_iff (a := ':'), plain.symm]

theorem as_infix_iff :
    " as ".toList <:+: path.text ++ " as".toList ↔ " as ".toList <:+: path.text := by
  refine ⟨fun occurs => ?_, List.infix_append_of_infix_left⟩
  rcases List.infix_append_iff_ne_nil.mp occurs with inside | beyond | across
  · exact inside
  · exact absurd beyond.length_le (by decide)
  · obtain ⟨front, back, nonempty, -, whole, ends, -⟩ := across
    obtain ⟨letter, rest, rfl⟩ := List.exists_cons_of_ne_nil nonempty
    have within : letter :: rest <+: " as ".toList := ⟨back, whole.symm⟩
    have blank : letter = ' ' := (List.cons.inj whole).1.symm
    have after : '>' ∉ letter :: rest := fun member => absurd (within.subset member) (by decide)
    exact absurd blank (path.shape.suffix ends after letter List.mem_cons_self)

/-! ## What the search finds -/

/-- The type of an implementation. -/
def typePart (self : Name) : Name :=
  match Text.split " as ".toList self with
  | none => self
  | some (type, _) => type

/-- The keys of a method of a type. -/
def keysOf (self method : Name) : List Name :=
  (self ++ [':', ':'] ++ method) ::
    match Text.rsplit [':', ':'] self with
    | none => []
    | some (_, type) => [type ++ [':', ':'] ++ method]

theorem typePart_begins (self : Name) : typePart self <+: self := by
  unfold typePart
  cases found : Text.split " as ".toList self with
  | none => exact List.prefix_rfl
  | some parts =>
      obtain ⟨whole, -⟩ := (Text.split_eq_some (by decide)).mp found
      simp only [whole, List.append_assoc, List.prefix_append]

/-- The candidates once the method is found. -/
theorem rustImplCandidates_of_rsplit {qualified opened method : Name}
    (found : Text.rsplit ['>', ':', ':'] qualified = some ('<' :: opened, method)) :
    rustImplCandidates qualified =
      if (typePart opened).isEmpty || method.isEmpty then []
      else keysOf (typePart opened) method := by
  obtain ⟨whole, -⟩ := (Text.rsplit_eq_some (by decide)).mp found
  have long : ¬(qualified.length < 4 ∨ qualified.head? ≠ some '<') := by
    rw [whole]
    simp
    omega
  have steps : rustImplCandidates qualified =
      if opened.isEmpty || method.isEmpty then []
      else if (typePart opened).isEmpty then [] else keysOf (typePart opened) method := by
    unfold rustImplCandidates
    rw [if_neg long, found]
    rfl
  rw [steps]
  cases opened with
  | nil => rfl
  | cons letter opened =>
      cases method with
      | nil => simp
      | cons head method => simp

variable {impl : ImplMethod}

theorem ImplMethod.typePart_eq_iff :
    typePart (impl.self.text ++ impl.traitPart) = impl.self.text ↔
      ¬" as ".toList <:+: impl.self.text := by
  constructor
  · intro same occurs
    cases found : Text.split " as ".toList (impl.self.text ++ impl.traitPart) with
    | none => exact Text.split_eq_none.mp found (List.infix_append_of_infix_left occurs)
    | some parts =>
        obtain ⟨-, first⟩ := (Text.split_eq_some (by decide)).mp found
        unfold typePart at same
        rw [found] at same
        rw [← show parts.1 = impl.self.text from same] at occurs
        exact first (List.infix_append_of_infix_left occurs)
  · intro plain
    unfold typePart ImplMethod.traitPart
    cases impl.implemented with
    | none =>
        simp only [List.append_nil]
        rw [Text.split_eq_none.mpr plain]
    | some path =>
        have found : Text.split " as ".toList (impl.self.text ++ (" as ".toList ++ path.text)) =
            some (impl.self.text, path.text) := by
          refine (Text.split_eq_some (by decide)).mpr ⟨(List.append_assoc _ _ _).symm, ?_⟩
          exact fun occurs => plain (as_infix_iff.mp occurs)
        simp only [found]

theorem Path.eq_last {path : Path} (alone : path.modules = []) : path.text = path.last.text := by
  rw [Path.text, alone]
  rfl

/-- The text of a path with modules ends with a separator and the last segment. -/
theorem Path.exists_front {path : Path} (within : path.modules ≠ []) :
    ∃ front, path.text = front ++ [':', ':'] ++ path.last.text := by
  obtain ⟨modules, last⟩ := path
  cases modules using List.reverseRecOn with
  | nil => exact absurd rfl within
  | append_singleton modules segment =>
      let front := modules.flatMap fun segment => segment.text ++ [':', ':']
      exact ⟨front ++ segment.text, by simp [Path.text, front]⟩

/-- The keys that are read off the type are the expected ones exactly where no generic argument of
its last segment is a path. -/
theorem ImplMethod.keysOf_eq_iff :
    keysOf impl.self.text impl.method.text = impl.keys ↔
      ¬[':', ':'] <:+: impl.self.last.text := by
  unfold keysOf ImplMethod.keys
  rw [List.cons.injEq, and_iff_right rfl]
  by_cases alone : impl.self.modules = []
  · rw [Path.eq_last alone, alone, List.isEmpty_nil, if_pos rfl, ← Text.rsplit_eq_none]
    cases Text.rsplit [':', ':'] impl.self.last.text with
    | none => simp
    | some _ => simp
  · obtain ⟨front, whole⟩ := Path.exists_front alone
    rw [whole, List.isEmpty_eq_false_iff.mpr alone, if_neg Bool.false_ne_true]
    constructor
    · intro same occurs
      cases found : Text.rsplit [':', ':'] (front ++ [':', ':'] ++ impl.self.last.text) with
      | none => exact Text.rsplit_eq_none.mp found (List.infix_append_of_infix_right occurs)
      | some parts =>
          rw [found] at same
          have shorter := Text.length_lt_of_rsplit (by decide) found occurs
          simp only [List.cons.injEq, List.append_cancel_right_eq, and_true] at same
          rw [same] at shorter
          exact Nat.lt_irrefl _ shorter
    · intro plain
      have found : Text.rsplit [':', ':'] (front ++ [':', ':'] ++ impl.self.last.text) =
          some (front, impl.self.last.text) := by
        refine (Text.rsplit_eq_some (by decide)).mpr ⟨rfl, fun occurs => plain ?_⟩
        exact (colons_infix_iff fun letter => impl.self.last.head).mp occurs
      rw [found]

theorem ImplMethod.colon_not_after_self (impl : ImplMethod) :
    ¬impl.self.text ++ [':'] <+:
      impl.self.text ++ impl.traitPart ++ ['>', ':', ':'] ++ impl.method.text := by
  rw [List.append_assoc, List.append_assoc, List.prefix_append_right_inj]
  unfold ImplMethod.traitPart
  cases impl.implemented with
  | none => simp
  | some path => simp

/-- A full key of a shorter method has a longer type. -/
theorem afterSelf_of_eq {self method shortMethod after : Name} (opened : Name)
    (shorter : shortMethod.length < method.length)
    (same : typePart opened ++ [':', ':'] ++ shortMethod = self ++ [':', ':'] ++ method) :
    self ++ [':'] <+: opened ++ after := by
  have lengths := congrArg List.length same
  simp only [List.length_append] at lengths
  have colon : self ++ [':'] <+: typePart opened ++ [':', ':'] ++ shortMethod :=
    ⟨':' :: method, by simp [same]⟩
  have typed : typePart opened <+: typePart opened ++ [':', ':'] ++ shortMethod :=
    ⟨[':', ':'] ++ shortMethod, (List.append_assoc _ _ _).symm⟩
  have start : self ++ [':'] <+: typePart opened := by
    refine List.prefix_of_prefix_length_le colon typed ?_
    rw [List.length_append, List.length_singleton]
    omega
  exact (start.trans (typePart_begins opened)).trans (List.prefix_append _ _)

/-- The candidates are the keys only if the method is found where the type ends. -/
theorem ImplMethod.noInnerPath_of_eq (same : rustImplCandidates impl.rendered = impl.keys) :
    ¬['>', ':', ':'] <:+: impl.method.text := by
  intro occurs
  cases found : Text.rsplit ['>', ':', ':'] impl.rendered with
  | none => exact Text.rsplit_eq_none.mp found (List.infix_append_of_infix_right occurs)
  | some parts =>
      obtain ⟨opened, method⟩ := parts
      have shorter : method.length < impl.method.text.length :=
        Text.length_lt_of_rsplit (by decide) found occurs
      obtain ⟨whole, -⟩ := (Text.rsplit_eq_some (by decide)).mp found
      cases opened with
      | nil => exact absurd (List.cons.inj whole).1 (by decide)
      | cons letter opened =>
          obtain ⟨rfl, rest⟩ := List.cons.inj whole
          rw [rustImplCandidates_of_rsplit found] at same
          split at same
          · cases same
          · obtain ⟨full, -⟩ := List.cons.inj same
            have whole : impl.self.text ++ impl.traitPart ++ ['>', ':', ':'] ++ impl.method.text =
                opened ++ (['>', ':', ':'] ++ method) := rest.trans (List.append_assoc _ _ _)
            refine impl.colon_not_after_self ?_
            rw [whole]
            exact afterSelf_of_eq opened shorter full

theorem ImplMethod.rsplit_rendered (plain : ¬['>', ':', ':'] <:+: impl.method.text) :
    Text.rsplit ['>', ':', ':'] impl.rendered =
      some ('<' :: (impl.self.text ++ impl.traitPart), impl.method.text) :=
  (Text.rsplit_eq_some (by decide)).mpr ⟨rfl, fun occurs => plain (close_infix_iff.mp occurs)⟩

/-- The candidates are the full key, with the bare one of a type in a crate or a module, exactly
where the marks that are looked for occur nowhere else. -/
theorem implCandidates_eq_keys_iff (impl : ImplMethod) :
    rustImplCandidates impl.rendered = impl.keys ↔ impl.Plain := by
  constructor
  · intro same
    have noInnerPath := impl.noInnerPath_of_eq same
    rw [rustImplCandidates_of_rsplit (impl.rsplit_rendered noInnerPath)] at same
    split at same
    · cases same
    · obtain ⟨full, -⟩ := List.cons.inj same
      simp only [List.append_cancel_right_eq] at full
      rw [full] at same
      exact ⟨noInnerPath, ImplMethod.typePart_eq_iff.mp full, ImplMethod.keysOf_eq_iff.mp same⟩
  · intro plain
    rw [rustImplCandidates_of_rsplit (impl.rsplit_rendered plain.noInnerPath),
      ImplMethod.typePart_eq_iff.mpr plain.noProjection, if_neg]
    · exact ImplMethod.keysOf_eq_iff.mpr plain.noQualifiedArgument
    · simp [Path.text_ne_nil]

theorem outer_of_all {text : Name}
    (all : (text.all fun letter => letter ≠ '<' && letter ≠ '>' && letter ≠ ':' && letter ≠ ' ') =
      true) : Bracketed.Outer IsInner '<' '>' IsOuter text := by
  refine .of_forall fun letter member => ?_
  simpa [IsOuter, and_assoc] using List.all_eq_true.mp all letter member

theorem inner_of_all {text : Name}
    (all : (text.all fun letter => letter ≠ '<' && letter ≠ '>') = true) :
    Bracketed.Balanced IsInner '<' '>' text := by
  refine .of_plain fun letter member => ?_
  simpa [IsInner] using List.all_eq_true.mp all letter member

theorem bag_shape : Bracketed.Outer IsInner '<' '>' IsOuter "Bag<cart::Item>".toList := by
  have name : Bracketed.Outer IsInner '<' '>' IsOuter "Bag".toList := outer_of_all (by decide)
  have argument : Bracketed.Balanced IsInner '<' '>' "cart::Item".toList := inner_of_all (by decide)
  exact name.append (.pair argument .nil)

/-- `<cart::Bag<cart::Item>>::get`. -/
def bagGet : ImplMethod where
  self :=
    { modules := [⟨"cart".toList, by decide, outer_of_all (by decide)⟩]
      last := ⟨"Bag<cart::Item>".toList, by decide, bag_shape⟩ }
  implemented := none
  method := { modules := [], last := ⟨"get".toList, by decide, outer_of_all (by decide)⟩ }

/-- The second candidate names a type `Item>`. -/
theorem bagGet_candidates :
    rustImplCandidates bagGet.rendered =
        ["cart::Bag<cart::Item>::get", "Item>::get"].map String.toList ∧
      bagGet.keys =
        ["cart::Bag<cart::Item>::get", "Bag<cart::Item>::get"].map String.toList := by
  decide

end
end RustImpls
end Backend
end TopoLlvm
