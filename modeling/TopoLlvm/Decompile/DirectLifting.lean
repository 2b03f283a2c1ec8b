import TopoLlvm.Decompile.OperatorFidelity

/-!
# Soundness of direct lifting

The lifted statements keep, under the name of each value, an integer that stands for its word.  They
do so as long as every operator reads its operands the way its instruction does, every constant fits
its literal and every value has a name of its own.
-/

namespace TopoLlvm
namespace Decompile

/-- The names that the instructions are declared under, from a count of temporaries on. -/
def temporaryNames : ℕ → List Instruction → List String
  | _, [] => []
  | counter, inst :: rest =>
      match inst.name with
      | some name => name :: temporaryNames counter rest
      | none => ("_tmp" ++ toString counter) :: temporaryNames (counter + 1) rest

/-- Whether an operand is read signed.  Truth values are not; literals take any sign they can. -/
def Operand.isSigned (types : List TypeNode) (width : ℕ) : Operand → Bool
  | value id => (types[id]?.map TypeNode.isSigned).getD false
  | constant _ | undef => width ≠ 1

/-- A constant that its literal can spell. -/
def Operand.Spelled (width : ℕ) : Operand → Prop
  | constant bits => width = 1 ∨
      -2 ^ 63 ≤ (BitVec.ofInt width bits).toInt ∧ (BitVec.ofInt width bits).toInt < 2 ^ 63
  | value _ | undef => True

/-- An instruction whose operator, at the types of its operands, does what the opcode does. -/
def Form.Faithful (bitwise : Bool) (types : List TypeNode) (form : Form) : Prop :=
  (∀ entry ∈ form.operands, entry.2.Spelled entry.1) ∧
    match form with
    | binary opcode flags width lhs rhs =>
        opcode.Faithful bitwise (lhs.isSigned types width && rhs.isSigned types width) flags width
    | icmp predicate flags width lhs rhs =>
        predicate.Faithful (lhs.isSigned types width && rhs.isSigned types width) flags
    | select _ _ _ _ => True
    | cast opcode flags source target operand =>
        opcode.Faithful (operand.isSigned types source) flags target

def bodyFaithful (bitwise : Bool) : List TypeNode → List Instruction → Prop
  | _, [] => True
  | types, inst :: rest =>
      inst.form.Faithful bitwise types ∧
        bodyFaithful bitwise (types ++ [liftType inst.form.width]) rest

namespace Function

variable (bitwise : Bool) (func : Function) (symbol : Option FunctionSymbol)

def params : List Parameter := (symbol.map FunctionSymbol.params).getD func.irParams

def argNames : List String := func.args.mapIdx (argName symbol)

/-- The lifted function is sound: it says what it could not express, or returns what the IR does,
wherever the IR returns something. -/
def LiftSound (qualifiedName : String) : Prop :=
  (liftFunctionDirect func qualifiedName symbol).hasUnsupported = true ∨
    ∀ (args : List ℕ) (bits : BitVec func.width),
      List.Forall₂ (fun arg argument => arg < 2 ^ argument.width) args func.args →
      func.eval args = some (some bits) →
      ∃ value, (liftFunctionDirect func qualifiedName symbol).eval bitwise (args.map Int.ofNat) =
          some value ∧ BitVec.ofInt func.width value = bits

/-- What makes the lifted function sound: the metadata agrees with the IR, names are not shared, and
operators and constants are right. -/
structure Faithful : Prop where
  names : (func.params symbol).map Parameter.name = func.argNames symbol
  types : List.Forall₂ TypeNode.Fits (func.args.map Argument.width)
    ((func.params symbol).map Parameter.type)
  returnType : ((symbol.map FunctionSymbol.returnType).getD (liftType func.width)).Fits func.width
  distinct : (func.argNames symbol ++ temporaryNames 0 func.body).Nodup
  body : bodyFaithful bitwise ((func.params symbol).map Parameter.type) func.body
  returned : func.returned.Spelled func.width

end Function

/-- The expression of an operand, once the values it may name are named. -/
def operandExpr (names : List String) (width : ℕ) : Operand → Expr
  | .constant bits =>
      if width = 1 then .literalBool (BitVec.ofInt width bits != 0)
      else .literalInt (getSExtValue width bits)
  | .undef => .unsupported "undef"
  | .value id => .varRef ((names[id]?).getD "")

def formExpr (names : List String) : Form → Expr
  | .binary opcode _ width lhs rhs =>
      .binaryOp (mapBinaryOp opcode) (operandExpr names width lhs) (operandExpr names width rhs)
  | .icmp predicate _ width lhs rhs =>
      .binaryOp (mapICmpPredicate predicate) (operandExpr names width lhs)
        (operandExpr names width rhs)
  | .select width condition trueValue falseValue =>
      .ternary (operandExpr names 1 condition) (operandExpr names width trueValue)
        (operandExpr names width falseValue)
  | .cast _ _ source _ operand => operandExpr names source operand

section Naming

variable {names : List String} {widths : List ℕ} {irNames : ℕ → Option String} {width : ℕ}
  {state : LifterState}

theorem liftValue_eq (irNames : ℕ → Option String) {operand : Operand}
    (named : ∀ id < names.length, state.nameMap id = names[id]?)
    (length_eq : widths.length = names.length) (verified : operand.Verified widths width) :
    liftValue irNames width operand state = (operandExpr names width operand, state) := by
  cases operand with
  | constant bits => by_cases truth : width = 1 <;> simp [liftValue, operandExpr, truth]
  | undef => rfl
  | value id =>
      have inside : id < names.length := by
        rw [← length_eq]
        exact (List.getElem?_eq_some_iff.mp verified).1
      have known := named id inside
      rw [List.getElem?_eq_getElem inside] at known
      simp [liftValue, getValueName, known, operandExpr, List.getElem?_eq_getElem inside]

/-- The name that a new value gets. -/
def newName (irName : Option String) (counter : ℕ) : String :=
  irName.getD ("_tmp" ++ toString counter)

theorem getValueName_new {id : ℕ} (irName : Option String) (unnamed : state.nameMap id = none) :
    (getValueName id irName state).1 = newName irName state.tmpCounter ∧
      (∀ other, (getValueName id irName state).2.nameMap other =
        if other = id then some (newName irName state.tmpCounter) else state.nameMap other) ∧
      (getValueName id irName state).2.tmpCounter =
        if irName.isSome then state.tmpCounter else state.tmpCounter + 1 := by
  cases irName <;> simp [getValueName, unnamed, newName, LifterState.setName]

theorem temporaryNames_cons (counter : ℕ) (inst : Instruction) (rest : List Instruction) :
    temporaryNames counter (inst :: rest) = newName inst.name counter ::
      temporaryNames (if inst.name.isSome then counter else counter + 1) rest := by
  cases named : inst.name <;> simp [temporaryNames, named, newName]

/-- The declaration that an instruction becomes, and the names after it. -/
theorem liftInstruction_eq {form : Form}
    (named : ∀ id, state.nameMap id = names[id]?) (length_eq : widths.length = names.length)
    (verified : form.Verified widths) :
    liftInstruction irNames names.length form state =
      (.varDecl (liftType form.width) (newName (irNames names.length) state.tmpCounter)
          (formExpr names form),
        (getValueName names.length (irNames names.length) state).2) := by
  have unnamed : state.nameMap names.length = none := by rw [named]; simp
  have new_name := getValueName_new (irNames names.length) unnamed
  have lifted : ∀ entry ∈ form.operands,
      liftValue irNames entry.1 entry.2 state = (operandExpr names entry.1 entry.2, state) :=
    fun entry mem => liftValue_eq irNames (fun id _ => named id) length_eq (verified.1 entry mem).2
  cases form with
  | binary opcode flags width lhs rhs =>
      simp only [Form.operands, List.forall_mem_cons] at lifted
      simp only [liftInstruction, lifted.1, lifted.2.1, new_name.1, formExpr, Form.width]
  | icmp predicate flags width lhs rhs =>
      simp only [Form.operands, List.forall_mem_cons] at lifted
      simp only [liftInstruction, lifted.1, lifted.2.1, new_name.1, formExpr, Form.width]
  | select width condition trueValue falseValue =>
      simp only [Form.operands, List.forall_mem_cons] at lifted
      simp only [liftInstruction, lifted.1, lifted.2.1, lifted.2.2.1, new_name.1, formExpr,
        Form.width]
  | cast opcode flags source target operand =>
      have after : liftValue irNames source operand
          (getValueName names.length (irNames names.length) state).2 =
            (operandExpr names source operand,
              (getValueName names.length (irNames names.length) state).2) := by
        refine liftValue_eq irNames (fun id inside => ?_) length_eq
          (verified.1 (source, operand) (by simp [Form.operands])).2
        rw [new_name.2.1]
        simp [inside.ne, named]
      simp only [liftInstruction, after, new_name.1, formExpr, Form.width]

end Naming

/-- A variable of a type that stands for a value of a width. -/
structure Carries (width : ℕ) (bits : Option ℕ) (type : TypeNode) (value : ℤ) : Prop where
  fits : type.Fits width
  stable : type.convert value = value
  same : ∀ number ∈ bits, BitVec.ofInt width value = BitVec.ofNat width number

/-- The scope holds, under the name of each value, a variable that stands for it. -/
structure Tracks (names : List String) (types : List TypeNode) (widths : List ℕ) (values : Values)
    (scope : Scope) : Prop where
  names_length : names.length = widths.length
  types_length : types.length = widths.length
  values_length : values.length = widths.length
  carries : ∀ id width : ℕ, widths[id]? = some width →
    ∃ (name : String) (type : TypeNode) (bits : Option ℕ) (value : ℤ),
      names[id]? = some name ∧ types[id]? = some type ∧ values[id]? = some bits ∧
        scope.lookup name = some (type, value) ∧ Carries width bits type value

namespace Tracks

variable {bitwise : Bool} {names : List String} {types : List TypeNode} {widths : List ℕ}
  {values : Values} {scope : Scope}

/-- An operand of the lifted program stands for the operand. -/
theorem operand (bitwise : Bool) (tracks : Tracks names types widths values scope)
    {width : ℕ} {operand : Operand}
    (verified : operand.Verified widths width) (spelled : operand.Spelled width)
    (supported : (operandExpr names width operand).hasUnsupported = false) :
    ∃ value bits, (operandExpr names width operand).eval bitwise scope = some value ∧
      operand.eval values width = some bits ∧
      Stands (operand.isSigned types width) width bits value := by
  cases operand with
  | undef => simp [operandExpr, Expr.hasUnsupported] at supported
  | constant bits =>
      by_cases truth : width = 1
      · subst truth
        refine ⟨⟨some .bool, if BitVec.ofInt 1 bits != 0 then 1 else 0⟩, some (BitVec.ofInt 1 bits),
          by simp [operandExpr, Expr.eval], rfl, ?_⟩
        generalize BitVec.ofInt 1 bits = word
        rcases truth_word word with rfl | rfl
        · exact .typed .bool 0 rfl rfl (by simp)
        · exact .typed .bool 1 rfl rfl (by simp)
      · obtain ⟨lower, upper⟩ := spelled.resolve_left truth
        have spelled_value : getSExtValue width bits = (BitVec.ofInt width bits).toInt := by
          rw [getSExtValue, BitVec.signExtend, BitVec.toInt_ofInt_eq_self (by decide) lower upper]
        refine ⟨⟨none, (BitVec.ofInt width bits).toInt⟩, some (BitVec.ofInt width bits),
          by simp [operandExpr, truth, Expr.eval, spelled_value], rfl, ?_⟩
        simpa [Operand.isSigned, truth] using Stands.literal (BitVec.ofInt width bits) truth
  | value id =>
      obtain ⟨name, type, bits, value, name_eq, type_eq, bits_eq, found, carries⟩ :=
        tracks.carries id width verified
      refine ⟨⟨some type, value⟩, bits.map (BitVec.ofNat width),
        by simp [operandExpr, name_eq, Expr.eval, found], by simp [Operand.eval, bits_eq], ?_⟩
      rw [Operand.isSigned, type_eq]
      refine .typed type value carries.fits carries.stable fun word known => ?_
      obtain ⟨number, number_known, rfl⟩ := Option.map_eq_some_iff.mp known
      exact carries.same number number_known

/-- **Step lemma.** The expression of a defined instruction has a value, which becomes the
instruction's in its declaration. -/
theorem step (tracks : Tracks names types widths values scope) {form : Form}
    (verified : form.Verified widths) (faithful : form.Faithful bitwise types)
    (supported : (formExpr names form).hasUnsupported = false) {result : Option ℕ}
    (defined : form.eval values = some result) :
    ∃ value, (formExpr names form).eval bitwise scope = some value ∧
      Carries form.width result (liftType form.width)
        ((liftType form.width).convert value.value) := by
  have declared : ∀ {width : ℕ} {bits : Option (BitVec width)} {value : ℤ},
      (∀ word ∈ bits, BitVec.ofInt width ((liftType width).convert value) = word) →
      Carries width (bits.map BitVec.toNat) (liftType width) ((liftType width).convert value) := by
    intro width bits value same
    refine ⟨TypeNode.liftType_fits width, TypeNode.convert_convert value, fun number known => ?_⟩
    obtain ⟨word, word_known, rfl⟩ := Option.map_eq_some_iff.mp known
    rw [same word word_known, BitVec.ofNat_toNat, BitVec.setWidth_eq]
  obtain ⟨operands, direction⟩ := verified
  obtain ⟨spelled, faithful⟩ := faithful
  cases form with
  | binary opcode flags width lhs rhs =>
      simp only [Form.operands, List.forall_mem_cons] at operands spelled
      simp only [formExpr, Expr.hasUnsupported, Bool.or_eq_false_iff] at supported
      obtain ⟨left, leftBits, left_eval, left_bits, leftStands⟩ :=
        tracks.operand bitwise operands.1.2 spelled.1 supported.1
      obtain ⟨right, rightBits, right_eval, right_bits, rightStands⟩ :=
        tracks.operand bitwise operands.2.1.2 spelled.2.1 supported.2
      simp only [Form.eval, left_bits, right_bits, Option.bind_eq_bind, Option.bind_some,
        Option.bind_eq_some_iff] at defined
      obtain ⟨bits, evaluated, returned⟩ := defined
      obtain rfl := Option.some.inj returned
      obtain ⟨value, value_eval, same⟩ := faithful.eval evaluated leftStands rightStands
      exact ⟨value, by simp [formExpr, Expr.eval, left_eval, right_eval, value_eval], declared same⟩
  | icmp predicate flags width lhs rhs =>
      simp only [Form.operands, List.forall_mem_cons] at operands spelled
      simp only [formExpr, Expr.hasUnsupported, Bool.or_eq_false_iff] at supported
      obtain ⟨left, leftBits, left_eval, left_bits, leftStands⟩ :=
        tracks.operand bitwise operands.1.2 spelled.1 supported.1
      obtain ⟨right, rightBits, right_eval, right_bits, rightStands⟩ :=
        tracks.operand bitwise operands.2.1.2 spelled.2.1 supported.2
      simp only [Form.eval, left_bits, right_bits, Option.bind_eq_bind, Option.bind_some] at defined
      obtain rfl := Option.some.inj defined
      obtain ⟨value, value_eval, same⟩ := faithful.eval bitwise leftStands rightStands
      exact ⟨value, by simp [formExpr, Expr.eval, left_eval, right_eval, value_eval], declared same⟩
  | select width condition trueValue falseValue =>
      simp only [Form.operands, List.forall_mem_cons] at operands spelled
      simp only [formExpr, Expr.hasUnsupported, Bool.or_eq_false_iff] at supported
      obtain ⟨test, testBits, test_eval, test_bits, testStands⟩ :=
        tracks.operand bitwise operands.1.2 spelled.1 supported.1.1
      obtain ⟨left, leftBits, left_eval, left_bits, leftStands⟩ :=
        tracks.operand bitwise operands.2.1.2 spelled.2.1 supported.1.2
      obtain ⟨right, rightBits, right_eval, right_bits, rightStands⟩ :=
        tracks.operand bitwise operands.2.2.1.2 spelled.2.2.1 supported.2
      simp only [Form.eval, test_bits, left_bits, right_bits, Option.bind_eq_bind,
        Option.bind_some] at defined
      obtain rfl := Option.some.inj defined
      refine ⟨⟨TypeNode.common left.type right.type,
        convertTo (TypeNode.common left.type right.type)
          (if test.value ≠ 0 then left else right).value⟩, ?_,
        declared (select_fidelity testStands leftStands rightStands)⟩
      simp only [formExpr, Expr.eval, test_eval, left_eval, right_eval, Option.bind_eq_bind,
        Option.bind_some]
      rfl
  | cast opcode flags source target operand =>
      simp only [Form.operands, List.forall_mem_cons] at operands spelled
      obtain ⟨value, bits, value_eval, value_bits, stands⟩ :=
        tracks.operand bitwise operands.1.2 spelled.1 supported
      simp only [Form.eval, value_bits, Option.bind_eq_bind, Option.bind_some] at defined
      obtain rfl := Option.some.inj defined
      refine ⟨value, value_eval, declared (faithful.eval ?_ operands.1.1 stands)⟩
      cases opcode with
      | trunc => exact direction.2
      | zext => exact direction
      | sext => exact direction

/-- A declaration under a new name extends what the scope holds. -/
theorem extend (tracks : Tracks names types widths values scope) {name : String} {width : ℕ}
    {bits : Option ℕ} {type : TypeNode} {value : ℤ} (fresh : name ∉ names)
    (carries : Carries width bits type value) :
    Tracks (names ++ [name]) (types ++ [type]) (widths ++ [width]) (values ++ [bits])
      ((name, type, value) :: scope) where
  names_length := by simp [tracks.names_length]
  types_length := by simp [tracks.types_length]
  values_length := by simp [tracks.values_length]
  carries id otherWidth known := by
    rcases Nat.lt_or_ge id widths.length with inside | outside
    · rw [List.getElem?_append_left inside] at known
      obtain ⟨other, otherType, otherBits, otherValue, name_eq, type_eq, bits_eq, found,
        other_carries⟩ := tracks.carries id otherWidth known
      refine ⟨other, otherType, otherBits, otherValue, ?_, ?_, ?_, ?_, other_carries⟩
      · rw [List.getElem?_append_left (by rw [tracks.names_length]; exact inside), name_eq]
      · rw [List.getElem?_append_left (by rw [tracks.types_length]; exact inside), type_eq]
      · rw [List.getElem?_append_left (by rw [tracks.values_length]; exact inside), bits_eq]
      · have differ : other ≠ name := by
          rintro rfl
          exact fresh (List.mem_of_getElem? name_eq)
        rw [List.lookup_cons, beq_false_of_ne differ]
        exact found
    · have last : id = widths.length := by
        have inside := (List.getElem?_eq_some_iff.mp known).1
        rw [List.length_append, List.length_singleton] at inside
        omega
      subst last
      obtain rfl : width = otherWidth := by simpa using known
      refine ⟨name, type, bits, value, ?_, ?_, ?_, ?_, carries⟩
      · simp [← tracks.names_length]
      · simp [← tracks.types_length]
      · simp [← tracks.values_length]
      · simp

/-- **Run lemma.** The statements of a faithful body return what the body does. -/
theorem run {irNames : ℕ → Option String} {returned : Operand} {returnType : TypeNode} {width : ℕ}
    (fits : returnType.Fits width) (spelled : returned.Spelled width) {rest : List Instruction} :
    ∀ {names : List String} {types : List TypeNode} {widths : List ℕ} {values final : Values}
      {scope : Scope} {state : LifterState} {bits : BitVec width},
      Tracks names types widths values scope →
      (∀ id, state.nameMap id = names[id]?) →
      (∀ index, irNames (names.length + index) = (rest[index]?).bind Instruction.name) →
      (names ++ temporaryNames state.tmpCounter rest).Nodup →
      bodyVerified widths rest → bodyFaithful bitwise types rest →
      returned.Verified (widths ++ rest.map (·.form.width)) width →
      (liftBody irNames width returned names.length rest state).any Stmt.hasUnsupported = false →
      runBody values rest = some final → returned.eval final width = some (some bits) →
      ∃ value, runStmts bitwise returnType scope
          (liftBody irNames width returned names.length rest state) = some value ∧
        BitVec.ofInt width value = bits := by
  induction rest with
  | nil =>
      intro names types widths values final scope state bits tracks named ir_names distinct verified
        faithful returned_verified supported ran returned_eval
      obtain rfl : values = final := by simpa [runBody] using ran
      have returned_here : returned.Verified widths width := by simpa using returned_verified
      have lifted := liftValue_eq irNames (fun id _ => named id)
        tracks.names_length.symm returned_here
      simp only [liftBody, lifted, List.any_cons, List.any_nil, Stmt.hasUnsupported,
        Bool.or_false] at supported ⊢
      obtain ⟨value, found, value_eval, value_bits, stands⟩ :=
        tracks.operand bitwise returned_here spelled supported
      rw [returned_eval] at value_bits
      obtain rfl := Option.some.inj value_bits
      refine ⟨returnType.convert value.value, by simp [runStmts, value_eval], ?_⟩
      rw [stands.value_eq rfl, fits.ofInt_readWord]
  | cons inst rest ih =>
      intro names types widths values final scope state bits tracks named ir_names distinct verified
        faithful returned_verified supported ran returned_eval
      have unnamed : state.nameMap names.length = none := by rw [named]; simp
      have ir_name : irNames names.length = inst.name := by simpa using ir_names 0
      have new_name := getValueName_new (irNames names.length) unnamed
      rw [liftBody, liftInstruction_eq named tracks.names_length.symm verified.1] at supported ⊢
      generalize getValueName names.length (irNames names.length) state = next
        at new_name supported ⊢
      obtain ⟨-, next_names, next_counter⟩ := new_name
      rw [ir_name] at next_names next_counter supported ⊢
      rw [temporaryNames_cons] at distinct
      generalize newName inst.name state.tmpCounter = name at distinct next_names supported ⊢
      simp only [List.any_cons, Stmt.hasUnsupported, Bool.or_eq_false_iff] at supported
      simp only [runBody, Option.bind_eq_bind, Option.bind_eq_some_iff] at ran
      obtain ⟨result, defined, ran⟩ := ran
      obtain ⟨value, value_eval, carries⟩ :=
        tracks.step verified.1 faithful.1 supported.1 defined
      have fresh : name ∉ names := by
        intro mem
        exact (List.nodup_append.mp distinct).2.2 name mem name (by simp) rfl
      have next_named : ∀ id, next.2.nameMap id = (names ++ [name])[id]? := by
        intro id
        rw [next_names]
        rcases Nat.lt_trichotomy id names.length with inside | rfl | outside
        · rw [if_neg inside.ne, named, List.getElem?_append_left inside]
        · simp
        · rw [if_neg outside.ne', named, List.getElem?_eq_none (by omega),
            List.getElem?_eq_none (by simp; omega)]
      have next_ir_names : ∀ index, irNames ((names ++ [name]).length + index) =
          (rest[index]?).bind Instruction.name := by
        intro index
        have shifted := ir_names (index + 1)
        rw [List.getElem?_cons_succ] at shifted
        rw [List.length_append, List.length_singleton, add_assoc, add_comm 1 index]
        exact shifted
      have next_distinct :
          ((names ++ [name]) ++ temporaryNames next.2.tmpCounter rest).Nodup := by
        rw [next_counter]
        simpa using distinct
      obtain ⟨returnValue, returned_value, same⟩ := ih (tracks.extend fresh carries) next_named
        next_ir_names next_distinct verified.2 faithful.2 (by simpa using returned_verified)
        (by simpa using supported.2) ran returned_eval
      refine ⟨returnValue, ?_, same⟩
      simpa [runStmts, value_eval] using returned_value

/-- The parameters hold the arguments on entry. -/
theorem entry (entries : List (Parameter × ℕ × ℕ))
    (fits : ∀ entry ∈ entries, entry.1.type.Fits entry.2.1 ∧ entry.2.2 < 2 ^ entry.2.1)
    (distinct : (entries.map (·.1.name)).Nodup) :
    Tracks (entries.map (·.1.name)) (entries.map (·.1.type)) (entries.map (·.2.1))
      (entries.map fun entry => some entry.2.2)
      (entries.map fun entry =>
        (entry.1.name, entry.1.type, entry.1.type.convert entry.2.2)).reverse := by
  induction entries using List.reverseRecOn with
  | nil => exact ⟨rfl, rfl, rfl, by simp⟩
  | append_singleton entries last ih =>
      simp only [List.map_append, List.map_cons, List.map_nil, List.reverse_append,
        List.reverse_cons, List.reverse_nil, List.nil_append, List.singleton_append] at distinct ⊢
      have apart := List.nodup_append.mp distinct
      refine (ih (fun entry mem => fits entry (by simp [mem])) apart.1).extend ?_ ?_
      · intro mem
        exact apart.2.2 _ mem _ (List.mem_singleton_self _) rfl
      · obtain ⟨last_fits, bounded⟩ := fits last (by simp)
        refine ⟨last_fits, TypeNode.convert_convert _, ?_⟩
        intro number known
        obtain rfl := Option.some.inj known
        have word := last_fits.ofInt_readWord false (BitVec.ofNat last.2.1 last.2.2)
        rwa [readWord, if_neg Bool.false_ne_true, BitVec.toNat_ofNat,
          Nat.mod_eq_of_lt bounded] at word

end Tracks

section Soundness

variable {bitwise : Bool} {func : Function} {symbol : Option FunctionSymbol}

theorem Function.initialState_nameMap (func : Function) (symbol : Option FunctionSymbol) (id : ℕ) :
    (func.initialState symbol).nameMap id = (func.argNames symbol)[id]? := by
  simp [initialState, argNames]

/-- Parameters, widths and arguments in step. -/
theorem exists_entries {params : List Parameter} :
    ∀ {widths args : List ℕ}, List.Forall₂ TypeNode.Fits widths (params.map Parameter.type) →
      List.Forall₂ (fun arg width => arg < 2 ^ width) args widths →
      ∃ entries : List (Parameter × ℕ × ℕ), entries.map (·.1) = params ∧
        entries.map (·.2.1) = widths ∧ entries.map (·.2.2) = args ∧
        ∀ entry ∈ entries, entry.1.type.Fits entry.2.1 ∧ entry.2.2 < 2 ^ entry.2.1 := by
  induction params with
  | nil =>
      intro widths args fits bounded
      cases fits
      cases bounded
      exact ⟨[], rfl, rfl, rfl, by simp⟩
  | cons param params ih =>
      intro widths args fits bounded
      cases fits with
      | cons fits rest_fits =>
          cases bounded with
          | cons bound rest_bounded =>
              obtain ⟨entries, rfl, rfl, rfl, good⟩ := ih rest_fits rest_bounded
              exact ⟨(param, _, _) :: entries, rfl, rfl, rfl,
                List.forall_mem_cons.mpr ⟨⟨fits, bound⟩, good⟩⟩

/-- **Direct lifting is sound on faithful functions.** -/
theorem Function.Faithful.liftSound (faithful : func.Faithful bitwise symbol)
    (verified : func.Verified) (qualifiedName : String) :
    func.LiftSound bitwise symbol qualifiedName := by
  rw [LiftSound]
  by_cases supported : (liftFunctionDirect func qualifiedName symbol).hasUnsupported = true
  · exact .inl supported
  refine .inr fun args bits bounded evaluated => ?_
  simp only [Function.eval, Option.bind_eq_bind, Option.bind_eq_some_iff] at evaluated
  obtain ⟨final, ran, returned_eval⟩ := evaluated
  obtain ⟨entries, params_eq, widths_eq, rfl, good⟩ :=
    exists_entries faithful.types (List.forall₂_map_right_iff.mpr bounded)
  have names_eq : entries.map (·.1.name) = func.argNames symbol := by
    rw [← faithful.names, ← params_eq, List.map_map]
    rfl
  have types_eq : entries.map (·.1.type) = (func.params symbol).map Parameter.type := by
    rw [← params_eq, List.map_map]
    rfl
  have tracks := Tracks.entry entries good
    (by rw [names_eq]; exact (List.nodup_append.mp faithful.distinct).1)
  rw [names_eq, types_eq, widths_eq] at tracks
  have scope_eq : (liftFunctionDirect func qualifiedName symbol).entry
      ((entries.map (·.2.2)).map Int.ofNat) =
        (entries.map fun entry =>
          (entry.1.name, entry.1.type, entry.1.type.convert entry.2.2)).reverse := by
    rw [TranspileFunction.entry]
    change (List.zipWith _ (func.params symbol) _).reverse = _
    rw [← params_eq, List.map_map, List.zipWith_map, List.zipWith_self]
    rfl
  have lengths : (func.argNames symbol).length = func.args.length := by simp [argNames]
  have ir_names : ∀ index, func.irNames ((func.argNames symbol).length + index) =
      (func.body[index]?).bind Instruction.name := by
    intro index
    rw [lengths, irNames, List.getElem?_append_right (by simp), List.length_map,
      Nat.add_sub_cancel_left, List.getElem?_map]
    cases func.body[index]? <;> rfl
  have no_unsupported : (liftBody func.irNames func.width func.returned
      (func.argNames symbol).length func.body (func.initialState symbol)).any
        Stmt.hasUnsupported = false := by
    rw [lengths]
    exact Bool.eq_false_of_not_eq_true supported
  rw [List.map_map] at ran
  obtain ⟨value, returned_value, same⟩ := tracks.run faithful.returnType
    faithful.returned (func.initialState_nameMap symbol) ir_names faithful.distinct verified.body
    faithful.body verified.returned.2 no_unsupported ran returned_eval
  refine ⟨value, ?_, same⟩
  rw [TranspileFunction.eval, if_pos, scope_eq]
  · rw [lengths] at returned_value
    exact returned_value
  · change _ = (func.params symbol).length
    rw [← params_eq]
    simp

end Soundness

end Decompile
end TopoLlvm
