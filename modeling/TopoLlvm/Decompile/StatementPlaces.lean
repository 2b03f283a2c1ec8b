import TopoLlvm.Decompile.RegionLifting

/-!
# Places in a statement tree

An instruction that was lifted stands in the arms and loops around its statement.  Compacting a list
of statements leaves every instruction where it is.
-/

namespace TopoLlvm
namespace Decompile
namespace RegionLifting

/-- Where a statement keeps statements of its own. -/
inductive Place where
  | arm (branch : BlockId) (index : Nat)
  | loop (header : BlockId)
  /-- The body, the cleanup and the handlers of a `try`. -/
  | attempt (part : Nat)
  deriving DecidableEq

/-- An instruction with the places around it, the outermost first. -/
abbrev Placement : Type := Nat × List Place

/-- What is found at a place of a statement. -/
def within (place : Place) (placements : List Placement) : List Placement :=
  placements.map fun (id, path) => (id, place :: path)

mutual

/-- The instructions of a statement, in order. -/
def Stmt.placements : Stmt → List Placement
  | .inst id => [(id, [])]
  | .compoundAssign load operation store => [(load, []), (operation, []), (store, [])]
  | .ifStmt branch _ thenBody elseBody =>
      within (.arm branch 0) (placements thenBody) ++ within (.arm branch 1) (placements elseBody)
  | .whileStmt header _ body | .forStmt header _ body => within (.loop header) (placements body)
  | .switchStmt branch _ cases => casePlacements branch 0 cases
  | .tryCatch tryBody catchClauses finallyBody =>
      within (.attempt 0) (placements tryBody) ++ clausePlacements 2 catchClauses ++
        within (.attempt 1) (placements finallyBody)
  | .breakStmt | .continueStmt => []

def placements : List Stmt → List Placement
  | [] => []
  | stmt :: stmts => stmt.placements ++ placements stmts

def casePlacements (branch : BlockId) : Nat → List (Option Int × List Stmt) → List Placement
  | _, [] => []
  | index, (_, body) :: cases =>
      within (.arm branch index) (placements body) ++ casePlacements branch (index + 1) cases

def clausePlacements : Nat → List (Option String × List Stmt) → List Placement
  | _, [] => []
  | part, (_, body) :: clauses =>
      within (.attempt part) (placements body) ++ clausePlacements (part + 1) clauses

end

/-- Fold a load, an operation and a store in a row where they belong together. -/
def compactCompoundAssigns (folds : Nat → Nat → Nat → Bool) : List Stmt → List Stmt
  | .inst load :: .inst operation :: .inst store :: stmts =>
      if folds load operation store then
        .compoundAssign load operation store :: compactCompoundAssigns folds stmts
      else .inst load :: compactCompoundAssigns folds (.inst operation :: .inst store :: stmts)
  | stmt :: stmts => stmt :: compactCompoundAssigns folds stmts
  | [] => []

@[simp]
theorem within_nil (place : Place) : within place [] = [] := rfl

@[simp]
theorem placements_nil : placements [] = [] := rfl

@[simp]
theorem placements_cons (stmt : Stmt) (stmts : List Stmt) :
    placements (stmt :: stmts) = stmt.placements ++ placements stmts := rfl

@[simp]
theorem placements_append (stmts more : List Stmt) :
    placements (stmts ++ more) = placements stmts ++ placements more := by
  induction stmts with
  | nil => rfl
  | cons stmt stmts ih => simp [ih]

/-- Instructions in a row stand where the row stands. -/
@[simp]
theorem placements_insts (ids : List Nat) : placements (ids.map .inst) = ids.map (·, []) := by
  induction ids with
  | nil => rfl
  | cons id ids ih => simp [ih, Stmt.placements]

theorem casePlacements_append (branch : BlockId) (index : Nat)
    (cases more : List (Option Int × List Stmt)) :
    casePlacements branch index (cases ++ more) =
      casePlacements branch index cases ++ casePlacements branch (index + cases.length) more := by
  induction cases generalizing index with
  | nil => rfl
  | cons case cases ih => simp [casePlacements, ih, Nat.add_assoc, Nat.add_comm 1]

/-- Nothing is found in cases that are empty. -/
theorem casePlacements_empty {branch : BlockId} {cases : List (Option Int × List Stmt)}
    (empty : ∀ case ∈ cases, case.2 = []) (index : Nat) :
    casePlacements branch index cases = [] := by
  induction cases generalizing index with
  | nil => rfl
  | cons case cases ih =>
      have first := empty case List.mem_cons_self
      simp [casePlacements, first, ih fun case listed => empty case (List.mem_cons_of_mem _ listed)]

/-- No instruction is lost or moved by compacting. -/
@[simp]
theorem placements_compactCompoundAssigns (folds : Nat → Nat → Nat → Bool) (stmts : List Stmt) :
    placements (compactCompoundAssigns folds stmts) = placements stmts := by
  induction stmts using compactCompoundAssigns.induct folds with
  | case1 load operation store stmts folded ih =>
      simp [compactCompoundAssigns, folded, ih, Stmt.placements]
  | case2 load operation store stmts apart ih =>
      rw [compactCompoundAssigns, if_neg apart, placements_cons, ih]
      rfl
  | case3 stmt stmts other ih =>
      rw [compactCompoundAssigns.eq_2 folds stmt stmts other, placements_cons, ih, placements_cons]
  | case4 => rfl

end RegionLifting
end Decompile
end TopoLlvm
