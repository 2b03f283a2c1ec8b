import TopoLlvm.Decompile.SourceLanguage
import TopoLlvm.Library.LiveNames

/-!
# Compound assignments

The lifter folds a load into a temporary, an operation on it and an assignment of the result back
into one compound assignment.  The fold takes the other operand of the operation from whichever side
it is on, and it drops both temporaries.
-/

namespace TopoLlvm
namespace Decompile
namespace CompoundAssign

open LiveNames

variable {Value Call : Type}

/-- What an expression computes that the fold does not look into. -/
structure Reading (Value Call : Type) where
  reads : List String
  eval : (String → Value) → Value × List Call
  depends : ∀ env other, (∀ name ∈ reads, env name = other name) → eval env = eval other

inductive Expr (Value Call : Type) where
  | varRef (name : String)
  | binaryOp (op : BinaryOp) (lhs rhs : Expr Value Call)
  | other (reading : Reading Value Call)

inductive Stmt (Value Call : Type) where
  | varDecl (name : String) (init : Option (Expr Value Call))
  /-- An assignment to a variable. -/
  | assign (target : String) (value : Expr Value Call)
  /-- An expression statement with a compound assignment to a variable. -/
  | compoundAssign (op : BinaryOp) (target : String) (value : Expr Value Call)
  /-- Any other statement, an assignment to a member or an element among them. -/
  | other (step : Step String Value Call)

def Expr.varName? : Expr Value Call → Option String
  | .varRef name => some name
  | .binaryOp .. | .other _ => none

/-- A load into a temporary, an operation with it and an assignment of the result. -/
structure Fold (Value Call : Type) where
  loaded : String
  result : String
  target : String
  op : BinaryOp
  lhs : Expr Value Call
  rhs : Expr Value Call

namespace Fold

variable (fold : Fold Value Call)

def lhsIsLoad : Bool := fold.lhs.varName? = some fold.loaded

def rhsIsLoad : Bool := fold.rhs.varName? = some fold.loaded

/-- The operand of the compound assignment. -/
def value : Expr Value Call := if fold.lhsIsLoad then fold.rhs else fold.lhs

def stmt : Stmt Value Call := .compoundAssign fold.op fold.target fold.value

end Fold

/-- The fold that three statements in a row make. -/
def matchFold : Stmt Value Call → Stmt Value Call → Stmt Value Call → Option (Fold Value Call)
  | .varDecl loaded (some (.varRef target)), .varDecl result (some (.binaryOp op lhs rhs)),
      .assign assigned (.varRef source) =>
      let fold : Fold Value Call := { loaded, result, target, op, lhs, rhs }
      if (fold.lhsIsLoad || fold.rhsIsLoad) && assigned = target && source = result then some fold
      else none
  | _, _, _ => none

/-- Fold from left to right; the statement of a fold does not begin another one. -/
def compactCompoundAssigns : List (Stmt Value Call) → List (Stmt Value Call)
  | loadDecl :: binopDecl :: assign :: rest =>
      match matchFold loadDecl binopDecl assign with
      | some fold => fold.stmt :: compactCompoundAssigns rest
      | none => loadDecl :: compactCompoundAssigns (binopDecl :: assign :: rest)
  | stmts => stmts

/-- The folds that are made, each with what stands behind it in the end. -/
def folds : List (Stmt Value Call) → List (Fold Value Call × List (Stmt Value Call))
  | loadDecl :: binopDecl :: assign :: rest =>
      match matchFold loadDecl binopDecl assign with
      | some fold => (fold, compactCompoundAssigns rest) :: folds rest
      | none => folds (binopDecl :: assign :: rest)
  | _ => []

/-! ## Meaning -/

section Meaning

variable (apply : BinaryOp → Value → Value → Value)

namespace Expr

def reads : Expr Value Call → List String
  | varRef name => [name]
  | binaryOp _ lhs rhs => lhs.reads ++ rhs.reads
  | other reading => reading.reads

/-- The value and the calls, from left to right. -/
def eval (env : String → Value) : Expr Value Call → Value × List Call
  | varRef name => (env name, [])
  | binaryOp op lhs rhs =>
      (apply op (lhs.eval env).1 (rhs.eval env).1, (lhs.eval env).2 ++ (rhs.eval env).2)
  | other reading => reading.eval env

theorem eval_congr {env other : String → Value} {expr : Expr Value Call}
    (agree : ∀ name ∈ expr.reads, env name = other name) :
    expr.eval apply env = expr.eval apply other := by
  induction expr with
  | varRef name => simp only [eval, agree name (List.mem_singleton_self name)]
  | binaryOp op lhs rhs left right =>
      simp only [eval, left fun name member => agree name (List.mem_append_left _ member),
        right fun name member => agree name (List.mem_append_right _ member)]
  | other reading => exact reading.depends _ _ agree

/-- Assign the value to a variable. -/
def store (expr : Expr Value Call) (target : String) : Step String Value Call where
  reads := expr.reads
  sets := [target]
  leaves := false
  effect env :=
    { calls := (expr.eval apply env).2
      writes := fun name => if name = target then some (expr.eval apply env).1 else none
      flow := .next }
  depends env other agree := by rw [eval_congr apply agree]
  assigns env name member := by simp [List.mem_singleton.mp member]
  declares env left := by cases left

end Expr

/-- A variable that is only declared keeps what it happens to hold. -/
def idle : Step String Value Call where
  reads := []
  sets := []
  leaves := false
  effect _ := { calls := [], writes := fun _ => none, flow := .next }
  depends _ _ _ := rfl
  assigns _ _ member := by cases member
  declares _ left := by cases left

def Stmt.step : Stmt Value Call → Step String Value Call
  | varDecl name (some init) => init.store apply name
  | varDecl _ none => idle
  | assign target value => value.store apply target
  | compoundAssign op target value => (Expr.binaryOp op (.varRef target) value).store apply target
  | other step => step

def steps (stmts : List (Stmt Value Call)) : List (Step String Value Call) :=
  stmts.map (Stmt.step apply)

def Commutes (op : BinaryOp) : Prop := ∀ left right, apply op left right = apply op right left

/-- Compaction keeps what a statement list means: from any environment it makes the same calls and
gives the same values to what is read afterwards, it folds an operation only where the order of its
operands allows it, and no temporary that it drops is used behind. -/
structure Keeps (after : List String) (stmts : List (Stmt Value Call)) : Prop where
  meaning : ∀ env, Outcome.Alike after (run (steps apply stmts) env)
    (run (steps apply (compactCompoundAssigns stmts)) env)
  ordered : ∀ fold behind, (fold, behind) ∈ folds stmts → fold.lhsIsLoad ∨ Commutes apply fold.op
  temporaries : ∀ fold behind, (fold, behind) ∈ folds stmts →
    (fold.loaded ≠ fold.target → fold.loaded ∉ live after (steps apply (fold.stmt :: behind))) ∧
    (fold.result ≠ fold.target → fold.result ∉ live after (steps apply behind))

/-- What a fold needs of the statements behind it. -/
structure Fold.Sound (fold : Fold Value Call) (after : List String)
    (rest : List (Stmt Value Call)) : Prop where
  ordered : fold.lhsIsLoad ∨ Commutes apply fold.op
  operand : fold.loaded ≠ fold.target → fold.loaded ∉ fold.value.reads
  loaded : fold.loaded ≠ fold.target → fold.loaded ∉ live after (steps apply rest)
  result : fold.result ≠ fold.target → fold.result ∉ live after (steps apply rest)

/-- Every fold is sound: the loaded temporary is the left operand or the operator commutes, it is
not the other operand as well, and neither temporary is read behind. -/
def Foldable (after : List String) : List (Stmt Value Call) → Prop
  | loadDecl :: binopDecl :: assign :: rest =>
      match matchFold loadDecl binopDecl assign with
      | some fold => fold.Sound apply after rest ∧ Foldable after rest
      | none => Foldable after (binopDecl :: assign :: rest)
  | _ => True

end Meaning

/-! ## The fold -/

section Window

variable {apply : BinaryOp → Value → Value → Value} {after : List String}
  {loadDecl binopDecl assignStmt : Stmt Value Call} {rest stmts : List (Stmt Value Call)}
  {fold : Fold Value Call} {env other : String → Value} {name : String}

theorem Expr.eq_varRef {expr : Expr Value Call} (named : expr.varName? = some name) :
    expr = .varRef name := by
  cases expr with
  | varRef _ => exact congrArg Expr.varRef (Option.some.inj named)
  | binaryOp _ _ _ => cases named
  | other _ => cases named

theorem matchFold_eq_some (found : matchFold loadDecl binopDecl assignStmt = some fold) :
    loadDecl = .varDecl fold.loaded (some (.varRef fold.target)) ∧
      binopDecl = .varDecl fold.result (some (.binaryOp fold.op fold.lhs fold.rhs)) ∧
      assignStmt = .assign fold.target (.varRef fold.result) ∧
      (fold.lhsIsLoad = true ∨ fold.rhsIsLoad = true) := by
  unfold matchFold at found
  split at found
  · dsimp only at found
    split at found
    · rename_i condition
      cases found
      simp only [Bool.and_eq_true, Bool.or_eq_true, decide_eq_true_eq] at condition
      obtain ⟨⟨load, rfl⟩, rfl⟩ := condition
      exact ⟨rfl, rfl, rfl, load⟩
    · cases found
  · cases found

namespace Fold

/-- One operand is the loaded temporary, the other one the value. -/
theorem operands (load : fold.lhsIsLoad = true ∨ fold.rhsIsLoad = true) :
    fold.lhs = .varRef fold.loaded ∧ fold.value = fold.rhs ∧ fold.lhsIsLoad = true ∨
      fold.rhs = .varRef fold.loaded ∧ fold.value = fold.lhs ∧ fold.lhsIsLoad = false := by
  cases left : fold.lhsIsLoad with
  | true => exact .inl ⟨Expr.eq_varRef (of_decide_eq_true left), by rw [value, left]; rfl, rfl⟩
  | false =>
      have right := load.resolve_left (by rw [left]; exact Bool.false_ne_true)
      exact .inr ⟨Expr.eq_varRef (of_decide_eq_true right), by rw [value, left]; rfl, rfl⟩

theorem mem_reads (load : fold.lhsIsLoad = true ∨ fold.rhsIsLoad = true) :
    name ∈ (Expr.binaryOp fold.op fold.lhs fold.rhs).reads ↔
      name = fold.loaded ∨ name ∈ fold.value.reads := by
  rcases operands load with ⟨left, value, -⟩ | ⟨right, value, -⟩
  · rw [value, Expr.reads, left]
    simp [Expr.reads]
  · rw [value, Expr.reads, right]
    simp [Expr.reads, or_comm]

/-- What is live in front of the three statements. -/
theorem mem_live_window (found : matchFold loadDecl binopDecl assignStmt = some fold) :
    name ∈ live after (steps apply (loadDecl :: binopDecl :: assignStmt :: rest)) ↔
      name = fold.target ∨ name ≠ fold.loaded ∧ (name ∈ fold.value.reads ∨
        name ≠ fold.result ∧ name ≠ fold.target ∧ name ∈ live after (steps apply rest)) := by
  obtain ⟨rfl, rfl, rfl, load⟩ := matchFold_eq_some found
  have used : name ∈ (Expr.binaryOp fold.op fold.lhs fold.rhs).reads ↔
      name = fold.loaded ∨ name ∈ fold.value.reads := mem_reads load
  simp only [steps, List.map_cons, mem_live_cons, Stmt.step, Expr.store, Expr.reads,
    List.mem_singleton, Bool.false_eq_true, false_and, false_or] at used ⊢
  rw [used]
  by_cases result : name = fold.result
  · subst result
    tauto
  · tauto

theorem mem_live_stmt :
    name ∈ live after (steps apply (fold.stmt :: rest)) ↔
      name = fold.target ∨ name ∈ fold.value.reads ∨
        name ≠ fold.target ∧ name ∈ live after (steps apply rest) := by
  simp only [steps, List.map_cons, mem_live_cons, stmt, Stmt.step, Expr.store, Expr.reads,
    List.mem_singleton, List.mem_append, Bool.false_eq_true, false_and, false_or]
  tauto

/-- The value and the calls of the operation, with the loaded temporary in the environment. -/
theorem eval_operation (load : fold.lhsIsLoad = true ∨ fold.rhsIsLoad = true)
    (ordered : fold.lhsIsLoad = true ∨ Commutes apply fold.op)
    (loaded : env fold.loaded = other fold.target)
    (agree : ∀ name ∈ fold.value.reads, env name = other name) :
    (Expr.binaryOp fold.op fold.lhs fold.rhs).eval apply env =
      (Expr.binaryOp fold.op (.varRef fold.target) fold.value).eval apply other := by
  have same : fold.value.eval apply env = fold.value.eval apply other :=
    Expr.eval_congr apply agree
  rcases operands load with ⟨left, value, -⟩ | ⟨right, value, rightOnly⟩
  · rw [Expr.eval, Expr.eval, ← same, ← value, left]
    simp only [Expr.eval, loaded, List.nil_append]
  · have commutes := ordered.resolve_left (by rw [rightOnly]; exact Bool.false_ne_true)
    rw [Expr.eval, Expr.eval, ← same, ← value, right]
    simp only [Expr.eval, loaded, List.nil_append, List.append_nil]
    rw [commutes]

end Fold

/-- Compaction with sound folds leaves what is live as it is. -/
theorem live_compact (foldable : Foldable apply after stmts) :
    name ∈ live after (steps apply (compactCompoundAssigns stmts)) ↔
      name ∈ live after (steps apply stmts) := by
  induction stmts using compactCompoundAssigns.induct with
  | case1 loadDecl binopDecl assignStmt rest fold found ih =>
      rw [Foldable, found] at foldable
      obtain ⟨sound, foldable⟩ := foldable
      rw [compactCompoundAssigns, found, Fold.mem_live_stmt, Fold.mem_live_window found,
        ih foldable]
      have operand := sound.operand
      have loaded := sound.loaded
      have result := sound.result
      by_cases isTarget : name = fold.target
      · simp [isTarget]
      · by_cases isLoaded : name = fold.loaded
        · subst isLoaded
          simp [isTarget, operand isTarget, loaded isTarget]
        · by_cases isResult : name = fold.result
          · subst isResult
            simp [isTarget, isLoaded, result isTarget]
          · simp [isTarget, isLoaded, isResult]
  | case2 loadDecl binopDecl assignStmt rest found ih =>
      rw [Foldable, found] at foldable
      rw [compactCompoundAssigns, found]
      have ih := ih foldable
      simp only [steps, List.map_cons, mem_live_cons] at ih ⊢
      rw [ih]
  | case3 stmts short => rw [compactCompoundAssigns.eq_2 stmts short]

theorem run_store (expr : Expr Value Call) (target : String)
    (later : List (Step String Value Call)) (env : String → Value) :
    run (expr.store apply target :: later) env =
      let rest := run later fun name =>
        if name = target then (expr.eval apply env).1 else env name
      { rest with calls := (expr.eval apply env).2 ++ rest.calls } := by
  have updated : ((expr.store apply target).effect env).update env =
      fun name => if name = target then (expr.eval apply env).1 else env name := by
    funext name
    simp only [Effect.update, Expr.store]
    split <;> rfl
  rw [run, updated]
  rfl

namespace Fold

/-- The environment behind the load. -/
def load (fold : Fold Value Call) (env : String → Value) (name : String) : Value :=
  if name = fold.loaded then env fold.target else env name

/-- The environment behind the assignment. -/
def assign (fold : Fold Value Call) (env : String → Value) (value : Value) (name : String) :
    Value :=
  if name = fold.target ∨ name = fold.result then value else fold.load env name

theorem run_window (found : matchFold loadDecl binopDecl assignStmt = some fold)
    (env : String → Value) :
    run (steps apply (loadDecl :: binopDecl :: assignStmt :: rest)) env =
      let computed := (Expr.binaryOp fold.op fold.lhs fold.rhs).eval apply (fold.load env)
      let onwards := run (steps apply rest) (fold.assign env computed.1)
      { onwards with calls := computed.2 ++ onwards.calls } := by
  obtain ⟨rfl, rfl, rfl, -⟩ := matchFold_eq_some found
  change run ((Expr.varRef fold.target).store apply fold.loaded ::
    (Expr.binaryOp fold.op fold.lhs fold.rhs).store apply fold.result ::
    (Expr.varRef fold.result).store apply fold.target :: steps apply rest) env = _
  have loaded : (fun name => if name = fold.loaded then env fold.target else env name) =
      fold.load env := rfl
  have assigned (value : Value) : (fun name => if name = fold.target then value else
      if name = fold.result then value else fold.load env name) = fold.assign env value := by
    funext name
    by_cases isTarget : name = fold.target <;> by_cases isResult : name = fold.result <;>
      simp [Fold.assign, isTarget, isResult]
  simp only [run_store, Expr.eval, if_true, List.nil_append, loaded, assigned]

theorem run_stmt (env : String → Value) :
    run (steps apply (fold.stmt :: rest)) env =
      let computed := (Expr.binaryOp fold.op (.varRef fold.target) fold.value).eval apply env
      let onwards := run (steps apply rest) fun name =>
        if name = fold.target then computed.1 else env name
      { onwards with calls := computed.2 ++ onwards.calls } :=
  run_store ..

/-- The operation computes what the compound assignment does: the loaded temporary is not the other
operand, or it is the variable itself. -/
theorem Sound.eval_eq (sound : fold.Sound apply after rest)
    (found : matchFold loadDecl binopDecl assignStmt = some fold)
    (agree :
      AgreeOn (live after (steps apply (loadDecl :: binopDecl :: assignStmt :: rest))) env other) :
    (Expr.binaryOp fold.op fold.lhs fold.rhs).eval apply (fold.load env) =
      (Expr.binaryOp fold.op (.varRef fold.target) fold.value).eval apply other := by
  have target : env fold.target = other fold.target :=
    agree _ ((mem_live_window found).mpr (.inl rfl))
  obtain ⟨-, -, -, load⟩ := matchFold_eq_some found
  refine eval_operation load sound.ordered (by simpa [Fold.load] using target) fun name read => ?_
  by_cases isLoaded : name = fold.loaded
  · subst isLoaded
    have isTarget : fold.loaded = fold.target := not_imp_comm.mp sound.operand (not_not.mpr read)
    rw [Fold.load, if_pos rfl, target, isTarget]
  · rw [Fold.load, if_neg isLoaded]
    exact agree _ ((mem_live_window found).mpr (.inr ⟨isLoaded, .inl read⟩))

/-- Behind the fold the environments differ in the temporaries at most. -/
theorem Sound.agreeOn (sound : fold.Sound apply after rest)
    (found : matchFold loadDecl binopDecl assignStmt = some fold)
    (agree :
      AgreeOn (live after (steps apply (loadDecl :: binopDecl :: assignStmt :: rest))) env other)
    (value : Value) :
    AgreeOn (live after (steps apply rest)) (fold.assign env value) fun name =>
      if name = fold.target then value else other name := by
  intro name later
  by_cases isTarget : name = fold.target
  · simp [Fold.assign, isTarget]
  have notResult : name ≠ fold.result := by
    rintro rfl
    exact sound.result isTarget later
  have notLoaded : name ≠ fold.loaded := by
    rintro rfl
    exact sound.loaded isTarget later
  simp only [Fold.assign, Fold.load, isTarget, notResult, notLoaded, or_self, if_false]
  exact agree _ ((mem_live_window found).mpr
    (.inr ⟨notLoaded, .inr ⟨notResult, isTarget, later⟩⟩))

end Fold

/-- Compaction with sound folds runs as the list itself. -/
theorem run_compact (foldable : Foldable apply after stmts)
    (agree : AgreeOn (live after (steps apply stmts)) env other) :
    Outcome.Alike after (run (steps apply stmts) env)
      (run (steps apply (compactCompoundAssigns stmts)) other) := by
  induction stmts using compactCompoundAssigns.induct generalizing env other with
  | case1 loadDecl binopDecl assignStmt rest fold found ih =>
      rw [Foldable, found] at foldable
      obtain ⟨sound, foldable⟩ := foldable
      have onwards := ih foldable (sound.agreeOn found agree
        ((Expr.binaryOp fold.op fold.lhs fold.rhs).eval apply (fold.load env)).1)
      rw [compactCompoundAssigns, found, Fold.run_window found, Fold.run_stmt,
        ← sound.eval_eq found agree]
      exact ⟨congrArg (List.append _) onwards.calls, onwards.flow, onwards.env⟩
  | case2 loadDecl binopDecl assignStmt rest found ih =>
      rw [Foldable, found] at foldable
      rw [compactCompoundAssigns, found]
      exact .cons agree (ih foldable agree.update)
  | case3 stmts short =>
      rw [compactCompoundAssigns.eq_2 stmts short]
      exact run_alike agree

/-- A fold whose temporaries nothing reads in the end is sound, if the folds behind it are. -/
theorem Fold.keeps_iff_of_foldable (foldable : Foldable apply after rest) :
    fold.Sound apply after rest ↔
      (fold.lhsIsLoad ∨ Commutes apply fold.op) ∧
      (fold.loaded ≠ fold.target → fold.loaded ∉
        live after (steps apply (fold.stmt :: compactCompoundAssigns rest))) ∧
      (fold.result ≠ fold.target →
        fold.result ∉ live after (steps apply (compactCompoundAssigns rest))) := by
  simp only [mem_live_stmt, live_compact foldable]
  constructor
  · rintro ⟨ordered, operand, loaded, result⟩
    refine ⟨ordered, fun differ read => ?_, result⟩
    rcases read with same | read | ⟨-, read⟩
    · exact differ same
    · exact operand differ read
    · exact loaded differ read
  · rintro ⟨ordered, loaded, result⟩
    exact ⟨ordered, fun differ read => loaded differ (.inr (.inl read)),
      fun differ read => loaded differ (.inr (.inr ⟨differ, read⟩)), result⟩

/-- Compaction keeps the meaning of exactly the lists whose folds are all sound. -/
theorem keeps_iff (apply : BinaryOp → Value → Value → Value) (after : List String)
    (stmts : List (Stmt Value Call)) : Keeps apply after stmts ↔ Foldable apply after stmts := by
  constructor
  · rintro ⟨-, ordered, temporaries⟩
    induction stmts using compactCompoundAssigns.induct with
    | case1 loadDecl binopDecl assignStmt rest fold found ih =>
        rw [folds, found] at ordered temporaries
        rw [Foldable, found]
        have foldable := ih (fun fold behind member => ordered _ _ (List.mem_cons_of_mem _ member))
          fun fold behind member => temporaries _ _ (List.mem_cons_of_mem _ member)
        have here : (fold, compactCompoundAssigns rest) ∈
            (fold, compactCompoundAssigns rest) :: folds rest := List.mem_cons_self ..
        have sound := (Fold.keeps_iff_of_foldable foldable).mpr
          ⟨ordered _ _ here, temporaries _ _ here⟩
        exact ⟨sound, foldable⟩
    | case2 loadDecl binopDecl assignStmt rest found ih =>
        rw [folds, found] at ordered temporaries
        rw [Foldable, found]
        exact ih ordered temporaries
    | case3 stmts short =>
        rw [Foldable.eq_2 _ _ _ short]
        trivial
  · intro foldable
    have kept : ∀ fold behind, (fold, behind) ∈ folds stmts →
        (fold.lhsIsLoad ∨ Commutes apply fold.op) ∧
        (fold.loaded ≠ fold.target →
          fold.loaded ∉ live after (steps apply (fold.stmt :: behind))) ∧
        (fold.result ≠ fold.target → fold.result ∉ live after (steps apply behind)) := by
      induction stmts using compactCompoundAssigns.induct with
      | case1 loadDecl binopDecl assignStmt rest fold found ih =>
          rw [Foldable, found] at foldable
          rw [folds, found]
          intro other behind member
          rcases List.mem_cons.mp member with here | later
          · cases here
            exact (Fold.keeps_iff_of_foldable foldable.2).mp foldable.1
          · exact ih foldable.2 other behind later
      | case2 loadDecl binopDecl assignStmt rest found ih =>
          rw [Foldable, found] at foldable
          rw [folds, found]
          exact ih foldable
      | case3 stmts short =>
          rw [folds.eq_2 stmts short]
          intro fold behind member
          cases member
    exact ⟨fun env => run_compact foldable fun _ _ => rfl,
      fun fold behind member => (kept fold behind member).1,
      fun fold behind member => (kept fold behind member).2⟩

end Window

/-! ## Lists that are not kept -/

section Lists

/-- The operators on integers, a comparison as one or zero. -/
def intApply (op : BinaryOp) (lhs rhs : ℤ) : ℤ :=
  (op.apply true lhs rhs).elim 0 (Sum.elim (fun holds => if holds then 1 else 0) id)

/-- An expression without calls that is the same in every environment. -/
def literal (value : ℤ) : Expr ℤ Unit :=
  .other { reads := [], eval := fun _ => (value, []), depends := fun _ _ _ => rfl }

/-- `x = 1 - x`, as it is lifted. -/
def difference : List (Stmt ℤ Unit) :=
  [.varDecl "_tmp0" (some (.varRef "x")),
    .varDecl "_tmp1" (some (.binaryOp .Sub (literal 1) (.varRef "_tmp0"))),
    .assign "x" (.varRef "_tmp1")]

/-- `y = x++`, as it is lifted. -/
def postIncrement : List (Stmt ℤ Unit) :=
  [.varDecl "_tmp0" (some (.varRef "x")),
    .varDecl "_tmp1" (some (.binaryOp .Add (.varRef "_tmp0") (literal 1))),
    .assign "x" (.varRef "_tmp1"), .assign "y" (.varRef "_tmp0")]

/-- The difference is taken the wrong way round, and the old value is gone. -/
theorem difference_and_postIncrement_change :
    ¬ Keeps intApply ["x"] difference ∧ ¬ Keeps intApply ["x", "y"] postIncrement := by
  constructor
  · intro keeps
    have same := (keeps.meaning fun _ => 5).env (by decide) "x" (by decide)
    exact absurd same (by decide)
  · intro keeps
    have same := (keeps.meaning fun name => if name = "x" then 5 else 0).env (by decide) "y"
      (by decide)
    exact absurd same (by decide)

end Lists

end CompoundAssign
end Decompile
end TopoLlvm
