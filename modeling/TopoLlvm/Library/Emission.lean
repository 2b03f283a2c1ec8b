import Mathlib.Data.List.Induction
import Mathlib.Data.List.Monad

/-!
# Emission with failures

A generator emits instructions as it goes on and may fail on the way.  What it has emitted before a
failure stays behind.
-/

universe u v

/-- The instructions that a generator has emitted, with its result where it has not failed. -/
structure Emission (Inst : Type u) (α : Type v) where
  emitted : List Inst
  result : Option α

namespace Emission

variable {Inst : Type u} {α β : Type v}

def emit (inst : Inst) : Emission Inst PUnit.{v + 1} := ⟨[inst], some ⟨⟩⟩

/-- Fail where there is no value. -/
def ofOption (value : Option α) : Emission Inst α := ⟨[], value⟩

/-- Go on from the result, if there is one. -/
def andThen (first : Emission Inst α) (next : α → Emission Inst β) : Emission Inst β :=
  match first.result with
  | none => ⟨first.emitted, none⟩
  | some value => ⟨first.emitted ++ (next value).emitted, (next value).result⟩

instance : Monad (Emission Inst) where
  pure value := ⟨[], some value⟩
  bind := andThen

@[simp]
theorem result_pure (value : α) : (pure value : Emission Inst α).result = some value := rfl

@[simp]
theorem emitted_pure (value : α) : (pure value : Emission Inst α).emitted = [] := rfl

@[simp]
theorem result_emit (inst : Inst) : (emit inst).result = some PUnit.unit.{v + 1} := rfl

@[simp]
theorem emitted_emit (inst : Inst) : (emit.{u, v} inst).emitted = [inst] := rfl

@[simp]
theorem result_ofOption (value : Option α) : (ofOption value : Emission Inst α).result = value :=
  rfl

@[simp]
theorem emitted_ofOption (value : Option α) : (ofOption value : Emission Inst α).emitted = [] := rfl

@[simp]
theorem result_bind (first : Emission Inst α) (next : α → Emission Inst β) :
    (first >>= next).result = first.result.bind fun value => (next value).result := by
  change (first.andThen next).result = _
  unfold andThen
  cases first.result <;> rfl

theorem emitted_bind_of_none {first : Emission Inst α} (failed : first.result = none)
    (next : α → Emission Inst β) : (first >>= next).emitted = first.emitted := by
  change (first.andThen next).emitted = _
  rw [andThen, failed]

theorem emitted_bind_of_some {first : Emission Inst α} {value : α}
    (result : first.result = some value) (next : α → Emission Inst β) :
    (first >>= next).emitted = first.emitted ++ (next value).emitted := by
  change (first.andThen next).emitted = _
  rw [andThen, result]

@[simp]
theorem emitted_emit_bind (inst : Inst) (next : PUnit → Emission Inst β) :
    (emit inst >>= next).emitted = inst :: (next ⟨⟩).emitted :=
  emitted_bind_of_some rfl next

/-- Every emitted instruction has the property, also where the generator fails. -/
def Only (allowed : Inst → Prop) (emission : Emission Inst α) : Prop :=
  ∀ inst ∈ emission.emitted, allowed inst

variable {allowed : Inst → Prop}

theorem only_pure (value : α) : (pure value : Emission Inst α).Only allowed :=
  fun _ member => nomatch member

theorem only_ofOption (value : Option α) : (ofOption value : Emission Inst α).Only allowed :=
  fun _ member => nomatch member

theorem only_emit {inst : Inst} (allows : allowed inst) : (emit.{u, v} inst).Only allowed :=
  List.forall_mem_singleton.mpr allows

theorem Only.bind {first : Emission Inst α} {next : α → Emission Inst β}
    (before : first.Only allowed)
    (after : ∀ value, first.result = some value → (next value).Only allowed) :
    (first >>= next).Only allowed := by
  intro inst member
  cases result : first.result with
  | none => exact before inst (emitted_bind_of_none result next ▸ member)
  | some value =>
      rw [emitted_bind_of_some result] at member
      exact (List.mem_append.mp member).elim (before inst) (after value result inst)

theorem only_foldlM {γ : Type*} {step : α → γ → Emission Inst α}
    (each : ∀ value item, (step value item).Only allowed) (items : List γ) (value : α) :
    (items.foldlM step value).Only allowed := by
  induction items generalizing value with
  | nil => exact only_pure value
  | cons item items ih =>
      rw [List.foldlM_cons]
      exact (each value item).bind fun next _ => ih next

/-- A fold keeps a relation between what is emitted so far and the value at hand. -/
theorem foldlM_keeps {γ : Type*} {step : α → γ → Emission Inst α}
    (Keeps : List Inst → α → Prop)
    (each : ∀ before value item next, Keeps before value → (step value item).result = some next →
      Keeps (before ++ (step value item).emitted) next)
    (items : List γ) {before : List Inst} {value last : α} (start : Keeps before value)
    (result : (items.foldlM step value).result = some last) :
    Keeps (before ++ (items.foldlM step value).emitted) last := by
  induction items generalizing before value with
  | nil =>
      cases result
      simpa using start
  | cons item items ih =>
      rw [List.foldlM_cons] at result ⊢
      rw [result_bind] at result
      obtain ⟨next, first, rest⟩ := Option.bind_eq_some_iff.mp result
      rw [emitted_bind_of_some first, ← List.append_assoc]
      exact ih (each before value item next start first) rest

/-! ## What comes before an instruction -/

/-- Every instruction is allowed after what comes before it. -/
def Sequenced (allowed : List Inst → Inst → Prop) : List Inst → List Inst → Prop
  | _, [] => True
  | before, inst :: insts => allowed before inst ∧ Sequenced allowed (before ++ [inst]) insts

variable {follows : List Inst → Inst → Prop}

theorem sequenced_append {before first second : List Inst} :
    Sequenced follows before (first ++ second) ↔
      Sequenced follows before first ∧ Sequenced follows (before ++ first) second := by
  induction first generalizing before with
  | nil => simp [Sequenced]
  | cons inst first ih =>
      rw [List.cons_append, Sequenced, ih, Sequenced, and_assoc, List.append_assoc,
        List.singleton_append]

theorem sequenced_iff {insts : List Inst} : Sequenced follows [] insts ↔
    ∀ before inst after, insts = before ++ inst :: after → follows before inst := by
  constructor
  · rintro sequenced before inst after rfl
    have rest := (sequenced_append.mp sequenced).2
    simpa using rest.1
  · intro all
    induction insts using List.reverseRecOn with
    | nil => trivial
    | append_singleton insts last ih =>
        refine sequenced_append.mpr ⟨ih fun before inst after split => ?_, ?_⟩
        · exact all before inst (after ++ [last]) (by rw [split, List.append_assoc]; rfl)
        · exact ⟨all insts last [] rfl, trivial⟩

theorem sequenced_of_mem {before insts : List Inst}
    (all : ∀ earlier, before <+: earlier → ∀ inst ∈ insts, follows earlier inst) :
    Sequenced follows before insts := by
  induction insts generalizing before with
  | nil => trivial
  | cons inst insts ih =>
      refine ⟨all before (List.prefix_refl _) inst List.mem_cons_self,
        ih fun earlier longer other member => ?_⟩
      exact all earlier ((List.prefix_append before [inst]).trans longer) other
        (List.mem_cons_of_mem _ member)

end Emission
