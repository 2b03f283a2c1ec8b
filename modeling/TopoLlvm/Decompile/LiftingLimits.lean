import TopoLlvm.Decompile.DirectLifting

/-!
# The limits of direct lifting

A function of one instruction on two arguments is lifted soundly only if the operator reads the
arguments the way the opcode does: for every other opcode there are arguments on which it goes
wrong.
-/

namespace TopoLlvm
namespace Decompile

open IntegerBits

section Words

variable {width : ℕ}

theorem two_lt_two_pow (wide : 1 < width) : 2 < 2 ^ width :=
  calc 2 < 2 ^ 2 := by decide
    _ ≤ 2 ^ width := Nat.pow_le_pow_right (by decide) wide

theorem exists_toNat_eq (wide : 1 < width) {number : ℕ} (small : number ≤ 2) :
    ∃ word : BitVec width, word.toNat = number := by
  have big := two_lt_two_pow wide
  exact ⟨BitVec.ofNat width number, by rw [BitVec.toNat_ofNat, Nat.mod_eq_of_lt (by omega)]⟩

theorem toInt_of_toNat_one (wide : 1 < width) {one : BitVec width} (one_nat : one.toNat = 1) :
    one.toInt = 1 := by
  obtain rfl : one = BitVec.ofNat width 1 := by
    rw [← one_nat, BitVec.ofNat_toNat, BitVec.setWidth_eq]
  exact BitVec.toInt_one wide

theorem ne_of_toNat_ne {left right : BitVec width} (differ : left.toNat ≠ right.toNat) :
    left ≠ right := by
  rintro rfl
  exact differ rfl

theorem ones_ne_zero (pos : 0 < width) : BitVec.allOnes width ≠ 0 := by
  have big : 1 < 2 ^ width := Nat.one_lt_two_pow (by omega)
  apply ne_of_toNat_ne
  rw [BitVec.toNat_allOnes]
  simp only [BitVec.ofNat_eq_ofNat, BitVec.toNat_zero]
  omega

theorem toInt_ones (pos : 0 < width) : (BitVec.allOnes width).toInt = -1 := by
  rw [BitVec.toInt_allOnes, if_pos pos]

/-- One divided by the word of ones, which is the greatest number and minus one. -/
theorem udiv_ne_sdiv (wide : 1 < width) {one : BitVec width} (one_nat : one.toNat = 1) :
    one.udiv (BitVec.allOnes width) ≠ one.sdiv (BitVec.allOnes width) := by
  have big := two_lt_two_pow wide
  have unsigned : one.udiv (BitVec.allOnes width) = 0 := by
    apply BitVec.eq_of_toNat_eq
    change (one / BitVec.allOnes width).toNat = 0
    rw [BitVec.toNat_udiv, one_nat, BitVec.toNat_allOnes, Nat.div_eq_of_lt (by omega)]
  have signed : one.sdiv (BitVec.allOnes width) = BitVec.allOnes width := by
    rw [← ofInt_tdiv, toInt_of_toNat_one wide one_nat]
    calc BitVec.ofInt width (Int.tdiv 1 (BitVec.allOnes width).toInt)
        = BitVec.ofInt width (BitVec.allOnes width).toInt := by
          rw [toInt_ones (by omega)]
          rfl
      _ = BitVec.allOnes width := BitVec.ofInt_toInt
  rw [unsigned, signed]
  exact (ones_ne_zero (by omega)).symm

theorem umod_ne_srem (wide : 1 < width) {one : BitVec width} (one_nat : one.toNat = 1) :
    one.umod (BitVec.allOnes width) ≠ one.srem (BitVec.allOnes width) := by
  have big := two_lt_two_pow wide
  have unsigned : (one % BitVec.allOnes width).toNat = 1 := by
    rw [BitVec.toNat_umod, one_nat, BitVec.toNat_allOnes, Nat.mod_eq_of_lt (by omega)]
  have signed : one.srem (BitVec.allOnes width) = 0 := by
    rw [← ofInt_tmod, toInt_of_toNat_one wide one_nat, toInt_ones (by omega)]
    rfl
  rw [signed]
  apply ne_of_toNat_ne
  change (one % BitVec.allOnes width).toNat ≠ _
  simp [unsigned]

/-- Some words on which the operator of an opcode is wrong, at a sign. -/
def BinaryOpcode.Wrong (bitwise signed : Bool) (opcode : BinaryOpcode) (lhs rhs : BitVec width) :
    Prop :=
  ∃ result, opcode.undefined lhs rhs = false ∧ opcode.poisons {} lhs rhs = false ∧
    (mapBinaryOp opcode).apply bitwise (readWord signed lhs) (readWord signed rhs) = some result ∧
    BitVec.ofInt width (result.elim (fun holds => if holds then 1 else 0) id) ≠ opcode.value lhs rhs

/-- An opcode that falls to addition is wrong where it does not add. -/
theorem BinaryOpcode.wrong_of_add {bitwise signed : Bool} {opcode : BinaryOpcode}
    {lhs rhs : BitVec width} (adds : mapBinaryOp opcode = .Add)
    (defined : opcode.undefined lhs rhs = false) (clean : opcode.poisons {} lhs rhs = false)
    (differ : lhs + rhs ≠ opcode.value lhs rhs) : opcode.Wrong bitwise signed lhs rhs := by
  refine ⟨_, defined, clean, by rw [adds]; rfl, ?_⟩
  simpa [BitVec.ofInt_add] using differ

/-- An unfaithful opcode is wrong somewhere. -/
theorem BinaryOpcode.exists_wrong {bitwise signed : Bool} {opcode : BinaryOpcode} (wide : 1 < width)
    (unfaithful : ¬opcode.Faithful bitwise signed {} width) :
    ∃ lhs rhs : BitVec width, opcode.Wrong bitwise signed lhs rhs := by
  have big := two_lt_two_pow wide
  have pos : 0 < width := by omega
  obtain ⟨one, one_nat⟩ := exists_toNat_eq wide (show 1 ≤ 2 by decide)
  obtain ⟨two, two_nat⟩ := exists_toNat_eq wide le_rfl
  have one_ne_zero : one ≠ 0 := ne_of_toNat_ne (by simp [one_nat])
  have two_ne_zero : two ≠ 0 := ne_of_toNat_ne (by simp [two_nat])
  have no_overflow : one.sdivOverflow (BitVec.allOnes width) = false := by
    have power : (0 : ℤ) < 2 ^ (width - 1) := by positivity
    simp only [BitVec.sdivOverflow, toInt_of_toNat_one wide one_nat, toInt_ones pos,
      Bool.or_eq_false_iff, decide_eq_false_iff_not, not_le, not_lt]
    omega
  have read_ne_zero : ∀ {word : BitVec width}, word ≠ 0 → readWord signed word ≠ 0 :=
    fun nonzero => readWord_eq_zero.not.mpr nonzero
  have shift : ∀ {opcode : BinaryOpcode}, mapBinaryOp opcode = .Add →
      opcode.undefined 0 one = false → opcode.poisons {} 0 one = false →
      opcode.value 0 one = 0 → opcode.Wrong bitwise signed 0 one := by
    intro opcode adds defined clean zero
    refine wrong_of_add adds defined clean ?_
    rw [zero]
    apply ne_of_toNat_ne
    simp [one_nat]
  cases opcode with
  | add =>
      refine absurd (fun narrow => ?_) unfaithful
      omega
  | sub | mul => exact absurd trivial unfaithful
  | xor =>
      refine ⟨one, one, wrong_of_add rfl rfl rfl (ne_of_toNat_ne ?_)⟩
      simp [value, one_nat, Nat.mod_eq_of_lt big]
  | shl => exact ⟨0, one, shift rfl rfl (by simp [poisons, one_nat, wide]) (by simp [value])⟩
  | lshr => exact ⟨0, one, shift rfl rfl (by simp [poisons, one_nat, wide]) (by simp [value])⟩
  | ashr => exact ⟨0, one, shift rfl rfl (by simp [poisons, one_nat, wide]) (by simp [value])⟩
  | and =>
      obtain rfl : bitwise = false := Bool.eq_false_of_not_eq_true fun h => unfaithful (.inl h)
      refine ⟨one, two, .inl true, rfl, rfl, ?_, ne_of_toNat_ne ?_⟩
      · simp [mapBinaryOp, BinaryOp.apply, read_ne_zero one_ne_zero, read_ne_zero two_ne_zero]
      · simp [value, one_nat, two_nat, Nat.mod_eq_of_lt (show 1 < 2 ^ width by omega)]
  | or =>
      obtain rfl : bitwise = false := Bool.eq_false_of_not_eq_true fun h => unfaithful (.inl h)
      refine ⟨one, two, .inl true, rfl, rfl, ?_, ne_of_toNat_ne ?_⟩
      · simp [mapBinaryOp, BinaryOp.apply, read_ne_zero one_ne_zero]
      · simp [value, one_nat, two_nat, Nat.mod_eq_of_lt (show 1 < 2 ^ width by omega)]
  | udiv =>
      obtain rfl : signed = true := by simpa [Faithful] using unfaithful
      refine ⟨one, BitVec.allOnes width, _, by simpa [undefined] using ones_ne_zero pos, rfl,
        if_neg (read_ne_zero (ones_ne_zero pos)), ?_⟩
      exact fun equal => udiv_ne_sdiv wide one_nat (equal.symm.trans (ofInt_tdiv _ _))
  | urem =>
      obtain rfl : signed = true := by simpa [Faithful] using unfaithful
      refine ⟨one, BitVec.allOnes width, _, by simpa [undefined] using ones_ne_zero pos, rfl,
        if_neg (read_ne_zero (ones_ne_zero pos)), ?_⟩
      exact fun equal => umod_ne_srem wide one_nat (equal.symm.trans (ofInt_tmod _ _))
  | sdiv =>
      obtain rfl : signed = false := Bool.eq_false_of_not_eq_true fun h => unfaithful (.inl h)
      refine ⟨one, BitVec.allOnes width, _,
        by simpa [undefined, no_overflow] using ones_ne_zero pos, rfl,
        if_neg (read_ne_zero (ones_ne_zero pos)), ?_⟩
      exact fun equal => udiv_ne_sdiv wide one_nat ((ofInt_tdiv_toNat _ _).symm.trans equal)
  | srem =>
      obtain rfl : signed = false := Bool.eq_false_of_not_eq_true fun h => unfaithful (.inl h)
      refine ⟨one, BitVec.allOnes width, _,
        by simpa [undefined, no_overflow] using ones_ne_zero pos, rfl,
        if_neg (read_ne_zero (ones_ne_zero pos)), ?_⟩
      exact fun equal => umod_ne_srem wide one_nat ((ofInt_tmod_toNat _ _).symm.trans equal)

/-- The word of ones is extended in two ways. -/
theorem ofInt_ones_ne_setWidth {source target : ℕ} (pos : 0 < source) (longer : source < target) :
    BitVec.ofInt target (BitVec.allOnes source).toInt ≠
      (BitVec.allOnes source).setWidth target := by
  have source_big : 0 < 2 ^ source := Nat.two_pow_pos source
  have powers : 2 ^ source < 2 ^ target := Nat.pow_lt_pow_right (by decide) longer
  have minus_one : (BitVec.allOnes source).toInt = (BitVec.allOnes target).toInt := by
    rw [BitVec.toInt_allOnes, BitVec.toInt_allOnes, if_pos pos, if_pos (by omega)]
  apply ne_of_toNat_ne
  rw [minus_one, BitVec.ofInt_toInt, BitVec.toNat_setWidth, BitVec.toNat_allOnes,
    BitVec.toNat_allOnes, Nat.mod_eq_of_lt (by omega)]
  omega

/-- An unfaithful predicate is wrong on zero and the word of ones. -/
theorem ICmpPredicate.exists_wrong (bitwise : Bool) {signed : Bool} {predicate : ICmpPredicate}
    (pos : 0 < width) (unfaithful : ¬predicate.Faithful signed {}) :
    ∃ lhs rhs : BitVec width, (mapICmpPredicate predicate).apply bitwise (readWord signed lhs)
      (readWord signed rhs) ≠ some (.inl (predicate.holds lhs rhs)) := by
  refine ⟨0, BitVec.allOnes width, ?_⟩
  have nat_big : 1 < 2 ^ width := Nat.one_lt_two_pow (by omega)
  have big : (1 : ℤ) < 2 ^ width := by exact_mod_cast nat_big
  have unsigned : (BitVec.allOnes width).toNat = 2 ^ width - 1 := BitVec.toNat_allOnes
  cases predicate with
  | eq | ne => exact absurd trivial unfaithful
  | ugt | ule =>
      obtain rfl : signed = true := by simpa [Faithful] using unfaithful
      simp [mapICmpPredicate, BinaryOp.apply, readWord, holds, BitVec.ult_eq_decide,
        BitVec.ule_eq_decide, toInt_ones pos]
  | uge | ult =>
      obtain rfl : signed = true := by simpa [Faithful] using unfaithful
      simp [mapICmpPredicate, BinaryOp.apply, readWord, holds, BitVec.ult_eq_decide,
        BitVec.ule_eq_decide, toInt_ones pos, unsigned]
      omega
  | sgt | sge | slt | sle =>
      obtain rfl : signed = false := by simpa [Faithful] using unfaithful
      simp [mapICmpPredicate, BinaryOp.apply, readWord, holds, BitVec.slt_eq_decide,
        BitVec.sle_eq_decide, toInt_ones pos, unsigned, big, big.le]

end Words

/-- A function that returns what one instruction makes of its two arguments. -/
def pairFunction (width : ℕ) (form : Operand → Operand → Form) : Function where
  args := [⟨some "left", width⟩, ⟨some "right", width⟩]
  body := [⟨some "result", form (.value 0) (.value 1)⟩]
  returned := .value 2
  width := (form (.value 0) (.value 1)).width

/-- What the metadata says of such a function. -/
def pairSymbol (left right : TypeNode) (resultWidth : ℕ) : FunctionSymbol where
  returnType := liftType resultWidth
  params := [⟨left, "left"⟩, ⟨right, "right"⟩]

/-- An argument on entry stands for its word. -/
theorem TypeNode.Fits.stands {type : TypeNode} {width : ℕ} (fits : type.Fits width)
    (word : BitVec width) :
    Stands type.isSigned width (some word) ⟨some type, type.convert word.toNat⟩ := by
  refine .typed type _ fits (convert_convert _) fun other known => ?_
  obtain rfl := Option.some.inj known
  simpa [readWord] using fits.ofInt_readWord false word

section Pairs

variable {bitwise : Bool} {width : ℕ} {left right : TypeNode} {qualifiedName : String}

theorem pair_verified {form : Operand → Operand → Form} (pos : 0 < width)
    (form_verified : (form (.value 0) (.value 1)).Verified [width, width])
    (result_pos : 0 < (form (.value 0) (.value 1)).width) : (pairFunction width form).Verified where
  args := by simp [pairFunction, pos]
  body := ⟨form_verified, trivial⟩
  returned := ⟨result_pos, rfl⟩

theorem pair_faithful {form : Operand → Operand → Form} {resultWidth : ℕ}
    (leftFits : left.Fits width) (rightFits : right.Fits width)
    (result : (form (.value 0) (.value 1)).width = resultWidth)
    (form_faithful : (form (.value 0) (.value 1)).Faithful bitwise [left, right]) :
    (pairFunction width form).Faithful bitwise (some (pairSymbol left right resultWidth)) where
  names := rfl
  types := .cons leftFits (.cons rightFits .nil)
  returnType := by
    subst result
    exact TypeNode.liftType_fits _
  distinct := by
    change ["left", "right", "result"].Nodup
    decide
  body := ⟨form_faithful, trivial⟩
  returned := trivial

/-- Soundness of an operator on the two arguments, in words. -/
theorem pair_sound {form : Operand → Operand → Form} {op : BinaryOp} {resultWidth : ℕ}
    (lifted : liftFunctionDirect (pairFunction width form) qualifiedName
      (some (pairSymbol left right resultWidth)) =
        { qualifiedName
          returnType := liftType resultWidth
          params := [⟨left, "left"⟩, ⟨right, "right"⟩]
          body := [.varDecl (liftType resultWidth) "result"
              (.binaryOp op (.varRef "left") (.varRef "right")),
            .returnStmt (.varRef "result")] })
    (sound : (pairFunction width form).LiftSound bitwise
      (some (pairSymbol left right resultWidth)) qualifiedName)
    (lhs rhs : BitVec width) (bits : BitVec (pairFunction width form).width)
    (returns : (pairFunction width form).eval [lhs.toNat, rhs.toNat] = some (some bits)) :
    ∃ value, op.eval bitwise ⟨some left, left.convert lhs.toNat⟩
        ⟨some right, right.convert rhs.toNat⟩ = some value ∧
      BitVec.ofInt (pairFunction width form).width
        ((liftType resultWidth).convert value.value) = bits := by
  rw [Function.LiftSound, lifted] at sound
  replace sound := sound.resolve_left (by
    simp [TranspileFunction.hasUnsupported, Stmt.hasUnsupported, Expr.hasUnsupported])
  obtain ⟨value, evaluated, same⟩ :=
    sound [lhs.toNat, rhs.toNat] bits (.cons lhs.isLt (.cons rhs.isLt .nil)) returns
  have returned : (op.eval bitwise ⟨some left, left.convert lhs.toNat⟩
      ⟨some right, right.convert rhs.toNat⟩).bind
        (fun result => some ((liftType resultWidth).convert result.value)) = some value := by
    simpa [TranspileFunction.eval, TranspileFunction.entry, runStmts, Expr.eval,
      List.lookup_cons] using evaluated
  obtain ⟨result, result_eval, converted⟩ := Option.bind_eq_some_iff.mp returned
  obtain rfl := Option.some.inj converted
  exact ⟨result, result_eval, same⟩

theorem binary_sound {opcode : BinaryOpcode} (leftFits : left.Fits width)
    (rightFits : right.Fits width) (wide : width ≠ 1)
    (sound : (pairFunction width (.binary opcode {} width)).LiftSound bitwise
      (some (pairSymbol left right width)) qualifiedName)
    {lhs rhs : BitVec width} (defined : opcode.undefined lhs rhs = false)
    (clean : opcode.poisons {} lhs rhs = false) :
    ∃ result, (mapBinaryOp opcode).apply bitwise
        (readWord (left.isSigned && right.isSigned) lhs)
        (readWord (left.isSigned && right.isSigned) rhs) = some result ∧
      BitVec.ofInt width (result.elim (fun holds => if holds then 1 else 0) id) =
        opcode.value lhs rhs := by
  obtain ⟨value, evaluated, same⟩ := pair_sound (by rfl) sound lhs rhs (opcode.value lhs rhs) (by
      simp [Function.eval, pairFunction, runBody, Form.eval, Operand.eval, BinaryOpcode.eval,
        defined, clean, Form.width])
  have meets := (leftFits.stands lhs).meets (rightFits.stands rhs)
  simp only [BinaryOp.eval, Option.map_eq_some_iff] at evaluated
  obtain ⟨result, applied, rfl⟩ := evaluated
  rw [meets.left lhs rfl, meets.right rhs rfl] at applied
  refine ⟨result, applied, ?_⟩
  change BitVec.ofInt width ((liftType width).convert _) = _ at same
  rw [(TypeNode.liftType_fits width).ofInt_convert wide] at same
  cases result with
  | inl holds => exact same
  | inr value => rw [meets.keeps] at same; exact same

/-- Truth values go wrong where one and one is not two. -/
theorem truth_wrong {opcode : BinaryOpcode} (adds : mapBinaryOp opcode = .Add)
    (defined : opcode.undefined (1#1) (1#1) = false)
    (clean : opcode.poisons {} (1#1) (1#1) = false) (zero : opcode.value (1#1) (1#1) = 0) :
    ¬(pairFunction 1 (.binary opcode {} 1)).LiftSound bitwise (some (pairSymbol .bool .bool 1))
      qualifiedName := by
  intro sound
  obtain ⟨value, evaluated, same⟩ := pair_sound (by rfl) sound 1#1 1#1 (0 : BitVec 1) (by
      simp [Function.eval, pairFunction, runBody, Form.eval, Operand.eval, BinaryOpcode.eval,
        defined, clean, zero, Form.width])
  have two : BinaryOp.Add.eval bitwise ⟨some .bool, 1⟩ ⟨some .bool, 1⟩ =
      some ⟨some (.int true 32), 2⟩ := by
    rfl
  rw [adds] at evaluated
  obtain rfl := Option.some.inj (two.symm.trans evaluated)
  exact absurd same (by
    change ¬BitVec.ofInt 1 (TypeNode.bool.convert 2) = 0
    decide)

/-- **Necessity for binary instructions.** -/
theorem binary_faithful {opcode : BinaryOpcode} (leftFits : left.Fits width)
    (rightFits : right.Fits width) (pos : 0 < width)
    (sound : (pairFunction width (.binary opcode {} width)).LiftSound bitwise
      (some (pairSymbol left right width)) qualifiedName) :
    opcode.Faithful bitwise (left.isSigned && right.isSigned) {} width := by
  by_cases narrow : width = 1
  · subst narrow
    have bools : left = .bool ∧ right = .bool := by
      cases left with
      | bool =>
          cases right with
          | bool => exact ⟨rfl, rfl⟩
          | int signed typeWidth => exact absurd rfl rightFits.2
      | int signed typeWidth => exact absurd rfl leftFits.2
    obtain ⟨rfl, rfl⟩ := bools
    cases opcode with
    | add | xor => exact absurd sound (truth_wrong rfl rfl rfl rfl)
    | sub | mul => trivial
    | udiv | urem => rfl
    | shl | lshr | ashr => rfl
    | sdiv | srem | and | or => exact .inr rfl
  · have wide : 1 < width := by omega
    by_contra unfaithful
    obtain ⟨lhs, rhs, result, defined, clean, applied, wrong⟩ :=
      BinaryOpcode.exists_wrong wide unfaithful
    obtain ⟨other, other_applied, same⟩ :=
      binary_sound leftFits rightFits narrow sound defined clean
    obtain rfl := Option.some.inj (applied.symm.trans other_applied)
    exact wrong same

/-- **Necessity for comparisons.** -/
theorem icmp_faithful {predicate : ICmpPredicate} (leftFits : left.Fits width)
    (rightFits : right.Fits width) (pos : 0 < width)
    (sound : (pairFunction width (.icmp predicate {} width)).LiftSound bitwise
      (some (pairSymbol left right 1)) qualifiedName) :
    predicate.Faithful (left.isSigned && right.isSigned) {} := by
  by_contra unfaithful
  obtain ⟨lhs, rhs, wrong⟩ := ICmpPredicate.exists_wrong bitwise pos unfaithful
  obtain ⟨value, evaluated, same⟩ := pair_sound (by rfl) sound lhs rhs
    (BitVec.ofBool (predicate.holds lhs rhs)) (by
      simp [Function.eval, pairFunction, runBody, Form.eval, Operand.eval, ICmpPredicate.eval,
        Form.width]
      cases predicate.holds lhs rhs <;> rfl)
  have meets := (leftFits.stands lhs).meets (rightFits.stands rhs)
  simp only [BinaryOp.eval, Option.map_eq_some_iff] at evaluated
  obtain ⟨result, applied, rfl⟩ := evaluated
  rw [meets.left lhs rfl, meets.right rhs rfl] at applied
  obtain ⟨truth, other_applied⟩ := ICmpPredicate.exists_apply bitwise predicate
    (readWord (left.isSigned && right.isSigned) lhs)
    (readWord (left.isSigned && right.isSigned) rhs)
  rw [other_applied] at applied wrong
  obtain rfl := Option.some.inj applied
  change BitVec.ofInt 1 (TypeNode.bool.convert (if truth = true then 1 else 0)) = _ at same
  generalize predicate.holds lhs rhs = holds at same wrong
  cases truth <;> cases holds <;> simp_all [TypeNode.convert]

end Pairs

section Casts

variable {bitwise : Bool} {source target : ℕ} {type : TypeNode} {qualifiedName : String}
  {opcode : CastOpcode}

/-- A function that returns its argument after a cast. -/
def castFunction (opcode : CastOpcode) (source target : ℕ) : Function where
  args := [⟨some "operand", source⟩]
  body := [⟨some "result", .cast opcode {} source target (.value 0)⟩]
  returned := .value 1
  width := target

def castSymbol (type : TypeNode) (target : ℕ) : FunctionSymbol where
  returnType := liftType target
  params := [⟨type, "operand"⟩]

theorem cast_verified (source_pos : 0 < source) (target_pos : 0 < target)
    (direction : if opcode = .trunc then target < source else source < target) :
    (castFunction opcode source target).Verified where
  args := by simp [castFunction, source_pos]
  body := by
    refine ⟨⟨by simp [Form.operands, source_pos, Operand.Verified, castFunction], ?_⟩, trivial⟩
    cases opcode with
    | trunc => exact ⟨target_pos, direction⟩
    | zext | sext => exact direction
  returned := ⟨target_pos, rfl⟩

theorem cast_faithful_of (fits : type.Fits source)
    (faithful : opcode.Faithful type.isSigned {} target) :
    (castFunction opcode source target).Faithful bitwise (some (castSymbol type target)) where
  names := rfl
  types := .cons fits .nil
  returnType := TypeNode.liftType_fits target
  distinct := by
    change ["operand", "result"].Nodup
    decide
  body := ⟨⟨by simp [Form.operands, Operand.Spelled], faithful⟩, trivial⟩
  returned := trivial

/-- Soundness of a cast alone, in words. -/
theorem cast_sound (fits : type.Fits source)
    (sound : (castFunction opcode source target).LiftSound bitwise
      (some (castSymbol type target)) qualifiedName) (word : BitVec source)
    (clean : opcode.poisons {} target word = false) :
    BitVec.ofInt target ((liftType target).convert (readWord type.isSigned word)) =
      opcode.value target word := by
  have lifted : liftFunctionDirect (castFunction opcode source target) qualifiedName
      (some (castSymbol type target)) =
        { qualifiedName
          returnType := liftType target
          params := [⟨type, "operand"⟩]
          body := [.varDecl (liftType target) "result" (.varRef "operand"),
            .returnStmt (.varRef "result")] } := by
    rfl
  rw [Function.LiftSound, lifted] at sound
  replace sound := sound.resolve_left (by
    simp [TranspileFunction.hasUnsupported, Stmt.hasUnsupported, Expr.hasUnsupported])
  obtain ⟨value, evaluated, same⟩ := sound [word.toNat] (opcode.value target word)
    (.cons word.isLt .nil) (by
      simp [Function.eval, castFunction, runBody, Form.eval, Operand.eval, CastOpcode.eval, clean])
  have returned : (liftType target).convert (type.convert word.toNat) = value := by
    simpa [TranspileFunction.eval, TranspileFunction.entry, runStmts, Expr.eval,
      List.lookup_cons] using evaluated
  rw [← (fits.stands word).value_eq rfl, returned]
  exact same

/-- **Necessity for casts.** -/
theorem cast_faithful (fits : type.Fits source) (pos : 0 < source)
    (direction : if opcode = .trunc then target < source else source < target)
    (sound : (castFunction opcode source target).LiftSound bitwise
      (some (castSymbol type target)) qualifiedName) :
    opcode.Faithful type.isSigned {} target := by
  cases opcode with
  | trunc =>
      rintro rfl
      rw [if_pos rfl] at direction
      obtain ⟨two, two_nat⟩ := exists_toNat_eq direction le_rfl
      have nonzero : readWord type.isSigned two ≠ 0 :=
        readWord_eq_zero.not.mpr (ne_of_toNat_ne (by simp [two_nat]))
      have same := cast_sound fits sound two rfl
      change BitVec.ofInt 1 (TypeNode.bool.convert _) = two.setWidth 1 at same
      rw [TypeNode.convert, if_neg nonzero] at same
      have bit := congrArg BitVec.toNat same
      rw [BitVec.toNat_setWidth, two_nat] at bit
      simp at bit
  | zext =>
      left
      rw [if_neg (by decide)] at direction
      by_contra signed
      have same := cast_sound fits sound (BitVec.allOnes source) rfl
      rw [(TypeNode.liftType_fits target).ofInt_convert (by omega), readWord,
        if_pos (by simpa using signed)] at same
      exact ofInt_ones_ne_setWidth pos direction same
  | sext =>
      rw [if_neg (by decide)] at direction
      by_contra unsigned
      change ¬type.isSigned = true at unsigned
      have same := cast_sound fits sound (BitVec.allOnes source) rfl
      rw [(TypeNode.liftType_fits target).ofInt_convert (by omega), readWord, if_neg unsigned,
        BitVec.ofInt_natCast, BitVec.ofNat_toNat] at same
      exact ofInt_ones_ne_setWidth pos direction same.symm

end Casts

/-- **When direct lifting is sound.**  On every function whose operators read their operands as the
opcodes do; and on one instruction on two arguments, on no other opcode. -/
theorem liftFunctionDirect_sound (bitwise : Bool) (qualifiedName : String) :
    (∀ (func : Function) (symbol : Option FunctionSymbol), func.Verified →
      func.Faithful bitwise symbol → func.LiftSound bitwise symbol qualifiedName) ∧
    (∀ (opcode : BinaryOpcode) (width : ℕ) (left right : TypeNode), 0 < width →
      left.Fits width → right.Fits width →
      ((pairFunction width (.binary opcode {} width)).LiftSound bitwise
          (some (pairSymbol left right width)) qualifiedName ↔
        opcode.Faithful bitwise (left.isSigned && right.isSigned) {} width)) ∧
    (∀ (predicate : ICmpPredicate) (width : ℕ) (left right : TypeNode), 0 < width →
      left.Fits width → right.Fits width →
      ((pairFunction width (.icmp predicate {} width)).LiftSound bitwise
          (some (pairSymbol left right 1)) qualifiedName ↔
        predicate.Faithful (left.isSigned && right.isSigned) {})) ∧
    (∀ (opcode : CastOpcode) (source target : ℕ) (type : TypeNode), 0 < source → 0 < target →
      (if opcode = .trunc then target < source else source < target) → type.Fits source →
      ((castFunction opcode source target).LiftSound bitwise (some (castSymbol type target))
          qualifiedName ↔
        opcode.Faithful type.isSigned {} target)) := by
  have sufficient : ∀ (func : Function) (symbol : Option FunctionSymbol), func.Verified →
      func.Faithful bitwise symbol → func.LiftSound bitwise symbol qualifiedName :=
    fun func symbol verified faithful => faithful.liftSound verified qualifiedName
  refine ⟨sufficient, fun opcode width left right pos leftFits rightFits => ⟨?_, ?_⟩,
    fun predicate width left right pos leftFits rightFits => ⟨?_, ?_⟩,
    fun opcode source target type source_pos target_pos direction fits => ⟨?_, ?_⟩⟩
  · exact binary_faithful leftFits rightFits pos
  · intro faithful
    refine sufficient _ _ (pair_verified pos ⟨?_, trivial⟩ pos)
      (pair_faithful leftFits rightFits rfl ⟨?_, faithful⟩)
    · simp [Form.operands, pos, Operand.Verified]
    · simp [Form.operands, Operand.Spelled]
  · exact icmp_faithful leftFits rightFits pos
  · intro faithful
    refine sufficient _ _ (pair_verified pos ⟨?_, trivial⟩ Nat.one_pos)
      (pair_faithful leftFits rightFits rfl ⟨?_, faithful⟩)
    · simp [Form.operands, pos, Operand.Verified]
    · simp [Form.operands, Operand.Spelled]
  · exact cast_faithful fits source_pos direction
  · intro faithful
    exact sufficient _ _ (cast_verified source_pos target_pos direction)
      (cast_faithful_of fits faithful)

/-- A signed division of 32-bit arguments without metadata is lifted soundly. -/
theorem liftFunctionDirect_sound_division :
    (pairFunction 32 (.binary .sdiv {} 32)).LiftSound true none "quotient" :=
  (liftFunctionDirect_sound true "quotient").1 (pairFunction 32 (.binary .sdiv {} 32)) none
    ⟨by simp [pairFunction], ⟨⟨by simp [Form.operands, Operand.Verified, pairFunction], trivial⟩,
      trivial⟩, ⟨by decide, rfl⟩⟩
    ⟨rfl, .cons ⟨rfl, by decide⟩ (.cons ⟨rfl, by decide⟩ .nil), TypeNode.liftType_fits 32,
      by change ["left", "right", "result"].Nodup; decide,
      ⟨⟨by simp [Form.operands, Operand.Spelled], .inl rfl⟩, trivial⟩, trivial⟩

/-- The exclusive or of one and one is 0, and comes back as the sum of one and one. -/
theorem exclusive_or_lifted_as_sum :
    (pairFunction 32 (.binary .xor {} 32)).Verified ∧
      ¬(pairFunction 32 (.binary .xor {} 32)).LiftSound true none "parity" ∧
      ¬(pairFunction 32 (.binary .xor {} 32)).LiftSound false none "parity" := by
  have wrong : ∀ bitwise,
      ¬(pairFunction 32 (.binary .xor {} 32)).LiftSound bitwise none "parity" := by
    intro bitwise sound
    rcases sound with unsupported | sound
    · exact absurd unsupported (by decide)
    · obtain ⟨value, evaluated, same⟩ := sound [1, 1] (0 : BitVec 32)
        (.cons (by decide) (.cons (by decide) .nil)) (by rfl)
      have two : (liftFunctionDirect (pairFunction 32 (.binary .xor {} 32)) "parity" none).eval
          bitwise [1, 1] = some 2 := by
        rfl
      obtain rfl := Option.some.inj (two.symm.trans evaluated)
      exact absurd same (by
        change ¬BitVec.ofInt 32 2 = 0
        decide)
  exact ⟨⟨by simp [pairFunction], ⟨⟨by simp [Form.operands, Operand.Verified, pairFunction],
    trivial⟩, trivial⟩, ⟨by decide, rfl⟩⟩, wrong true, wrong false⟩

end Decompile
end TopoLlvm
