import TopoLlvm.Transforms.ArenaEscape

/-!
# Conversion of allocations

For each lifetime group `LifetimeArenaPass` converts allocations of the group's functions that do
not escape, and erases the calls that free them.  An allocation that shares such a call with
another one is left alone.
-/

namespace TopoLlvm
namespace LifetimeArena

open TopoLlvm.Runtime (Name)
open Worklist (Outcome)

/-- A lifetime group with the logic blocks among which its owner is found. -/
structure Group (Fn : Type) extends LifetimeScope Fn where
  /-- The qualified names and the called functions. -/
  logicBlocks : List (Name × List Name)
  order : UseOrder Fn

structure AllocSite (Fn : Type) where
  fn : Fn
  call : Nat
  matchedFrees : List Nat

structure ScopeInfo (Fn : Type) where
  ownerFunc : Fn
  scopeFuncsIR : List Fn
  safeSites : List (AllocSite Fn)
  escapingFrees : List (Fn × Nat)

/-- The allocations that are converted and the calls that are erased, by the allocation that claims
them. -/
structure Rewriting (Fn : Type) where
  converted : List (Fn × Nat)
  erased : List (Fn × Nat × Nat)

variable {Fn : Type} [DecidableEq Fn]

namespace Rewriting

variable (rewriting : Rewriting Fn)

def Converts (fn : Fn) (site : Nat) : Prop := (fn, site) ∈ rewriting.converted

def Erases (fn : Fn) (index : Nat) : Prop := ∃ site, (fn, index, site) ∈ rewriting.erased

instance (fn : Fn) (site : Nat) : Decidable (rewriting.Converts fn site) :=
  inferInstanceAs (Decidable (_ ∈ _))

instance (fn : Fn) (index : Nat) : Decidable (rewriting.Erases fn index) :=
  decidable_of_iff (∃ entry ∈ rewriting.erased, entry.1 = fn ∧ entry.2.1 = index)
    ⟨fun ⟨(_, _, site), member, same, at'⟩ => ⟨site, same ▸ at' ▸ member⟩,
      fun ⟨site, member⟩ => ⟨(fn, index, site), member, rfl, rfl⟩⟩

end Rewriting

namespace Module

variable (module : Module Fn)

/-- The instruction that takes the place of another. -/
def rewriteInst (rewriting : Rewriting Fn) (fn : Fn) (index : Nat) (inst : Inst Fn) : Inst Fn :=
  match inst with
  | .call _ (.direct callee) arguments =>
      if rewriting.Erases fn index then .erased
      else if rewriting.Converts fn index then
        .arenaAlloc (module.name callee = "calloc".toList) arguments
      else inst
  | _ => inst

variable {module} {rewriting : Rewriting Fn} {fn : Fn} {index : Nat} {inst : Inst Fn}

theorem rewriteInst_kinds : (module.rewriteInst rewriting fn index inst).isAlloca = inst.isAlloca ∧
    (module.rewriteInst rewriting fn index inst).isGep = inst.isGep ∧
    (module.rewriteInst rewriting fn index inst).indices = inst.indices := by
  unfold rewriteInst
  split
  · split
    · exact ⟨rfl, rfl, rfl⟩
    · split <;> exact ⟨rfl, rfl, rfl⟩
  · exact ⟨rfl, rfl, rfl⟩

variable (module rewriting fn) in
def rewriteBody (body : Body Fn) : Body Fn where
  insts := body.insts.mapIdx (module.rewriteInst rewriting fn)
  next := body.next
  phisAt := body.phisAt
  typed := by
    intro inst member k used other there
    obtain ⟨index, small, rfl⟩ := List.mem_mapIdx.mp member
    rw [List.getElem?_mapIdx] at there
    obtain ⟨original, found, rfl⟩ := Option.map_eq_some_iff.mp there
    rw [rewriteInst_kinds.2.2] at used
    rw [rewriteInst_kinds.1, rewriteInst_kinds.2.1]
    exact body.typed _ (List.getElem_mem small) k used original found

variable (module) in
def rewrite (rewriting : Rewriting Fn) : Module Fn where
  name := module.name
  body fn := (module.body fn).map (module.rewriteBody rewriting fn)

variable (module)

def findAllocSites (body : Body Fn) : List Nat :=
  (List.range body.insts.length).filter fun index =>
    match body.insts[index]? with
    | some (.call false (.direct callee) _) => isAllocFunction (module.name callee)
    | _ => false

/-- The mapped, defined logic block that calls the start function. -/
def ownerFunc (group : Group Fn) : Option Fn :=
  group.logicBlocks.findSome? fun (blockName, calledFunctions) =>
    (group.matched blockName).filter fun candidate => (module.body candidate).isSome &&
      calledFunctions.any fun called => Text.afterLast [':', ':'] called = group.startFunc

/-- The result of the walk from each allocation of the functions. -/
def walks (order : UseOrder Fn) (scopeFuncsIR : List Fn) :
    List (Fn × Nat × Outcome Operand (List Nat)) :=
  scopeFuncsIR.flatMap fun fn =>
    ((module.body fn).map fun body => (module.findAllocSites body).map fun call =>
      (fn, call, module.escapesScope order scopeFuncsIR body (.inst call))).getD []

def discoverScope (group : Group Fn) : Option (ScopeInfo Fn) :=
  if group.coveredFunctions = [] then none
  else
    (module.ownerFunc group).bind fun ownerFunc =>
      let scopeFuncsIR := (group.coveredFunctions.filterMap group.matched ++ [ownerFunc]).eraseDups
      let walks := module.walks group.order scopeFuncsIR
      let safeSites := walks.filterMap fun (fn, call, outcome) =>
        match outcome with
        | .finished _ matchedFrees => some { fn, call, matchedFrees : AllocSite Fn }
        | .stopped _ => none
      let escapingFrees := walks.flatMap fun (fn, _, outcome) =>
        match outcome with
        | .finished _ _ => []
        | .stopped frees => frees.map (fn, ·)
      if safeSites.isEmpty then none
      else some { ownerFunc, scopeFuncsIR, safeSites, escapingFrees }

end Module

namespace ScopeInfo

variable (info : ScopeInfo Fn)

/-- The number of safe sites whose walk has matched the call. -/
def freeClaimCount (fn : Fn) (free : Nat) : Nat :=
  info.safeSites.countP fun site => site.fn = fn && site.matchedFrees.contains free

def siteIsConvertible (site : AllocSite Fn) : Bool :=
  site.matchedFrees.all fun free =>
    info.freeClaimCount site.fn free = 1 && !info.escapingFrees.contains (site.fn, free)

def applyArenaReplacement : Rewriting Fn :=
  let converted := info.safeSites.filter info.siteIsConvertible
  { converted := converted.map fun site => (site.fn, site.call)
    erased := converted.flatMap fun site => site.matchedFrees.map fun free =>
      (site.fn, free, site.call) }

end ScopeInfo

namespace Module

/-- Convert allocations for one more group. -/
def runGroup (state : Module Fn × Rewriting Fn) (group : Group Fn) : Module Fn × Rewriting Fn :=
  match state.1.discoverScope group with
  | none => state
  | some info =>
      let rewriting := info.applyArenaReplacement
      (state.1.rewrite rewriting,
        { converted := state.2.converted ++ rewriting.converted
          erased := state.2.erased ++ rewriting.erased })

/-- All that the pass converts and erases. -/
def run (module : Module Fn) (groups : List (Group Fn)) : Rewriting Fn :=
  (groups.foldl runGroup (module, { converted := [], erased := [] })).2

end Module
end LifetimeArena
end TopoLlvm
