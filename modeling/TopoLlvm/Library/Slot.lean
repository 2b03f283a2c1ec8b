import TopoLlvm.Library.FlowGraph

/-!
# A resource in a global slot

Activations of a procedure open and close resources that they keep in one slot, which nested and
later activations use as well.  No activation goes wrong exactly where every run of the procedure
takes turns, unless no run opens or closes anything.
-/

namespace Slot

open FlowGraph (Role)

/-- What activations do, in order. -/
inductive Events (Node : Type*) where
  | done
  | visit (node : Node) (rest : Events Node)
  | activate (inner rest : Events Node)

/-- The slot, with the resources opened and closed so far. -/
structure Store where
  slot : Option Nat
  next : Nat
  closed : List Nat
  fault : Bool

namespace Store

def initial : Store where
  slot := none
  next := 0
  closed := []
  fault := false

/-- A visit, in an activation that has opened `own`.  It is a fault to close what the activation
has not opened or what is closed, and to use what is closed. -/
def visit (role : Role) (own : List Nat) (store : Store) : List Nat × Store :=
  match role with
  | .opens =>
      (store.next :: own, { store with slot := some store.next, next := store.next + 1 })
  | .closes =>
      match store.slot with
      | none => (own, { store with fault := true })
      | some resource =>
          (own, { store with
            closed := resource :: store.closed
            fault := store.fault || !(resource ∈ own ∧ resource ∉ store.closed : Bool) })
  | .inside => (own, { store with fault := store.fault || store.slot.any (· ∈ store.closed) })
  | .outside | .neutral => (own, store)

/-- It is a fault to leave something open. -/
def leave (own : List Nat) (store : Store) : Store :=
  { store with fault := store.fault || !own.all (· ∈ store.closed) }

end Store

variable {Node : Type*}

def exec (role : Node → Role) : Events Node → List Nat → Store → List Nat × Store
  | .done, own, store => (own, store)
  | .visit node rest, own, store =>
      let (own, store) := store.visit (role node) own
      exec role rest own store
  | .activate inner rest, own, store =>
      let (opened, store) := exec role inner [] store
      exec role rest own (store.leave opened)

/-- Where the events of an activation, or of its callers, go on. -/
inductive Place (Node : Type*) where
  | outside
  | before (node : Node)
  | after (node : Node)

/-- Activations start outside and at the nodes of that role. -/
def Place.MayCall (role : Node → Role) : Place Node → Prop
  | .outside => True
  | .before _ => False
  | .after node => role node = .outside

/-- The events follow the flow graph. -/
inductive Fits (g : FlowGraph Node) (role : Node → Role) : Place Node → Events Node → Prop
  | idle : Fits g role .outside .done
  | exit {node : Node} : g.exit node → Fits g role (.after node) .done
  | visit {node : Node} {rest : Events Node} :
      Fits g role (.after node) rest → Fits g role (.before node) (.visit node rest)
  | move {node next : Node} {rest : Events Node} :
      g.edge node next → Fits g role (.before next) rest → Fits g role (.after node) rest
  | call {place : Place Node} {inner rest : Events Node} :
      place.MayCall role → Fits g role (.before g.entry) inner → Fits g role place rest →
        Fits g role place (.activate inner rest)

/-- No sequence of activations goes wrong. -/
def Safe (g : FlowGraph Node) (role : Node → Role) : Prop :=
  ∀ events, Fits g role .outside events → (exec role events [] .initial).2.fault = false

/-- The nodes that the activation itself visits. -/
def visits : Events Node → List Node
  | .done => []
  | .visit node rest => node :: visits rest
  | .activate _ rest => visits rest

/-- A run without nested activations. -/
def ofNodes : List Node → Events Node
  | [] => .done
  | node :: nodes => .visit node (ofNodes nodes)

variable {g : FlowGraph Node} {role : Node → Role} {node : Node} {nodes : List Node}
  {events : Events Node} {place : Place Node} {own : List Nat} {store : Store}

theorem Fits.run (fits : Fits g role place events) :
    (∀ node, place = .before node → g.Run node (visits events)) ∧
      ∀ node, place = .after node →
        (visits events = [] ∧ g.exit node) ∨
          ∃ next, g.edge node next ∧ g.Run next (visits events) := by
  induction fits with
  | idle => exact ⟨nofun, nofun⟩
  | exit isExit =>
      refine ⟨nofun, ?_⟩
      rintro node ⟨⟩
      exact .inl ⟨rfl, isExit⟩
  | @visit node rest _ ih =>
      refine ⟨?_, nofun⟩
      rintro _ ⟨⟩
      rcases ih.2 node rfl with ⟨none, isExit⟩ | ⟨next, edge, run⟩
      · rw [visits, none]
        exact .exit isExit
      · exact .step edge run
  | move edge _ ih =>
      refine ⟨nofun, ?_⟩
      rintro node ⟨⟩
      exact .inr ⟨_, edge, ih.1 _ rfl⟩
  | call _ _ _ _ ih => exact ih

/-- Callers visit no node of their own. -/
theorem Fits.visits_outside (fits : Fits g role .outside events) : visits events = [] := by
  generalize here : Place.outside = place at fits
  induction fits with
  | idle => rfl
  | exit _ => cases here
  | visit _ _ => cases here
  | move _ _ _ => cases here
  | call _ _ _ _ ih => exact ih here

theorem fits_ofNodes (run : g.Run node nodes) : Fits g role (.before node) (ofNodes nodes) := by
  induction run with
  | exit isExit => exact .visit (.exit isExit)
  | step edge _ ih => exact .visit (.move edge ih)

/-! ## What any activation keeps -/

/-- Resources are numbered in the order of their opening. -/
structure Numbered (own : List Nat) (store : Store) : Prop where
  own_lt : ∀ resource ∈ own, resource < store.next
  slot_lt : ∀ resource ∈ store.slot, resource < store.next
  closed_lt : ∀ resource ∈ store.closed, resource < store.next

structure Extends (old new : Store) : Prop where
  next_le : old.next ≤ new.next
  closed_subset : old.closed ⊆ new.closed
  fault_of : old.fault = true → new.fault = true

theorem Extends.refl (store : Store) : Extends store store := ⟨Nat.le_refl _, List.Subset.refl _, id⟩

theorem Extends.trans {first second third : Store} (front : Extends first second)
    (back : Extends second third) : Extends first third :=
  ⟨Nat.le_trans front.next_le back.next_le, List.Subset.trans front.closed_subset back.closed_subset,
    back.fault_of ∘ front.fault_of⟩

theorem extends_visit (kind : Role) (own : List Nat) (store : Store) :
    Extends store (store.visit kind own).2 := by
  unfold Store.visit
  split
  · exact ⟨Nat.le_succ _, List.Subset.refl _, id⟩
  · split
    · exact ⟨Nat.le_refl _, List.Subset.refl _, fun _ => rfl⟩
    · exact ⟨Nat.le_refl _, List.subset_cons_self _ _, fun fault => by simp [fault]⟩
  · exact ⟨Nat.le_refl _, List.Subset.refl _, fun fault => by simp [fault]⟩
  · exact .refl _
  · exact .refl _

theorem extends_leave (own : List Nat) (store : Store) : Extends store (store.leave own) :=
  ⟨Nat.le_refl _, List.Subset.refl _, fun fault => by simp [Store.leave, fault]⟩

theorem extends_exec (role : Node → Role) (events : Events Node) (own : List Nat)
    (store : Store) : Extends store (exec role events own store).2 := by
  induction events generalizing own store with
  | done => exact .refl _
  | visit node rest ih => exact (extends_visit (role node) own store).trans (ih _ _)
  | activate inner rest inner_ih ih =>
      exact ((inner_ih [] store).trans (extends_leave _ _)).trans (ih own _)

theorem numbered_visit (numbered : Numbered own store) (kind : Role) :
    Numbered (store.visit kind own).1 (store.visit kind own).2 := by
  obtain ⟨own_lt, slot_lt, closed_lt⟩ := numbered
  unfold Store.visit
  split
  · refine ⟨?_, ?_, ?_⟩
    · rintro resource (_ | ⟨_, member⟩)
      · exact Nat.lt_succ_self _
      · exact Nat.lt_succ_of_lt (own_lt resource member)
    · rintro resource ⟨⟩
      exact Nat.lt_succ_self _
    · exact fun resource member => Nat.lt_succ_of_lt (closed_lt resource member)
  · split
    · exact ⟨own_lt, slot_lt, closed_lt⟩
    · rename_i resource slot
      refine ⟨own_lt, slot_lt, ?_⟩
      rintro other (_ | ⟨_, member⟩)
      · exact slot_lt resource slot
      · exact closed_lt other member
  · exact ⟨own_lt, slot_lt, closed_lt⟩
  · exact ⟨own_lt, slot_lt, closed_lt⟩
  · exact ⟨own_lt, slot_lt, closed_lt⟩

theorem numbered_exec (role : Node → Role) (events : Events Node)
    (numbered : Numbered own store) :
    Numbered (exec role events own store).1 (exec role events own store).2 := by
  induction events generalizing own store with
  | done => exact numbered
  | visit node rest ih => exact ih (numbered_visit numbered (role node))
  | activate inner rest inner_ih ih =>
      have nested : Numbered (exec role inner [] store).1 (exec role inner [] store).2 :=
        inner_ih ⟨nofun, numbered.slot_lt, numbered.closed_lt⟩
      have longer := extends_exec role inner [] store
      exact ih ⟨fun resource member =>
          Nat.lt_of_lt_of_le (numbered.own_lt resource member) longer.next_le,
        nested.slot_lt, nested.closed_lt⟩

/-! ## Activations that take turns -/

/-- The slot has the one resource of the activation that is open, if any. -/
structure Tidy (held : Bool) (own : List Nat) (store : Store) : Prop where
  numbered : Numbered own store
  faultless : store.fault = false
  holds : held = true → ∃ resource ∈ own, store.slot = some resource ∧ resource ∉ store.closed
  closed : ∀ resource ∈ own,
    resource ∈ store.closed ∨ held = true ∧ store.slot = some resource

/-- A turn of the activation. -/
theorem Tidy.turn {held next : Bool} (tidy : Tidy held own store) {kind : Role}
    (turn : kind.turn held = some next) :
    Tidy next (store.visit kind own).1 (store.visit kind own).2 := by
  have numbered := numbered_visit tidy.numbered kind
  cases kind with
  | opens =>
      obtain rfl := Role.free_of_needsFree turn (.inl rfl)
      obtain rfl := Role.next_of_opens turn
      have fresh : store.next ∉ store.closed := fun member =>
        Nat.lt_irrefl _ (tidy.numbered.closed_lt _ member)
      refine ⟨numbered, tidy.faultless, fun _ => ⟨_, List.mem_cons_self, rfl, fresh⟩, ?_⟩
      rintro resource (_ | ⟨_, member⟩)
      · exact .inr ⟨rfl, rfl⟩
      · exact .inl ((tidy.closed resource member).resolve_right nofun)
  | closes =>
      obtain rfl := Role.held_of_needsHeld turn (.inl rfl)
      obtain rfl := Role.next_of_closes turn
      obtain ⟨resource, member, slot, still⟩ := tidy.holds rfl
      simp only [Store.visit, slot] at numbered ⊢
      refine ⟨numbered, by simp [tidy.faultless, member, still], nofun, ?_⟩
      intro other otherMember
      rcases tidy.closed other otherMember with closed | ⟨-, same⟩
      · exact .inl (List.mem_cons_of_mem _ closed)
      · rw [slot] at same
        exact .inl (Option.some.inj same ▸ List.mem_cons_self)
  | inside =>
      obtain rfl := Role.held_of_needsHeld turn (.inr rfl)
      cases turn
      obtain ⟨resource, member, slot, still⟩ := tidy.holds rfl
      refine ⟨numbered, ?_, tidy.holds, tidy.closed⟩
      simp [Store.visit, tidy.faultless, slot, still]
  | outside =>
      obtain rfl := Role.free_of_needsFree turn (.inr rfl)
      cases turn
      exact tidy
  | neutral =>
      cases turn
      exact tidy

/-- A nested activation leaves a store in which the others can go on. -/
theorem Tidy.after_nested {opened : List Nat} {nested : Store} (tidy : Tidy false own store)
    (longer : Extends store nested) (inner : Tidy false opened nested) :
    Tidy false own (nested.leave opened) where
  numbered :=
    { own_lt := fun resource member =>
        Nat.lt_of_lt_of_le (tidy.numbered.own_lt resource member) longer.next_le
      slot_lt := inner.numbered.slot_lt
      closed_lt := inner.numbered.closed_lt }
  faultless := by
    have all : opened.all (· ∈ nested.closed) = true := List.all_eq_true.mpr fun resource member =>
      decide_eq_true ((inner.closed resource member).resolve_right nofun)
    simp [Store.leave, inner.faultless, all]
  holds := nofun
  closed resource member :=
    .inl (longer.closed_subset ((tidy.closed resource member).resolve_right nofun))

variable (taking : ∀ nodes, g.Run g.entry nodes → Role.turns false (nodes.map role) = some false)

include taking in
/-- Events that go on taking turns end tidily, since activations only start when nothing is held. -/
theorem Fits.tidy (fits : Fits g role place events) {held : Bool} (tidy : Tidy held own store)
    (turns : Role.turns held ((visits events).map role) = some false)
    (free : place.MayCall role → held = false) :
    Tidy false (exec role events own store).1 (exec role events own store).2 := by
  induction fits generalizing held own store with
  | idle =>
      obtain rfl := free trivial
      exact tidy
  | exit _ =>
      cases turns
      exact tidy
  | @visit node rest _ ih =>
      obtain ⟨next, turn, turns⟩ := Option.bind_eq_some_iff.mp turns
      refine ih (tidy.turn turn) turns fun outside => ?_
      have before := Role.free_of_needsFree turn (.inr outside)
      subst before
      rw [show role node = .outside from outside] at turn
      exact (Option.some.inj turn).symm
  | move _ _ ih => exact ih tidy turns nofun
  | @call place inner rest mayCall activation _ inner_ih ih =>
      obtain rfl := free mayCall
      have fresh : Tidy false [] store :=
        ⟨⟨nofun, tidy.numbered.slot_lt, tidy.numbered.closed_lt⟩, tidy.faultless, nofun, nofun⟩
      have nested := inner_ih fresh (taking _ (activation.run.1 _ rfl)) nofun
      exact ih (tidy.after_nested (extends_exec role inner [] store) nested) turns fun _ => rfl

include taking in
theorem safe_of_turns : Safe g role := by
  intro events fits
  have start : Tidy false [] .initial := ⟨⟨nofun, nofun, nofun⟩, rfl, nofun, nofun⟩
  exact (fits.tidy taking start (by rw [fits.visits_outside]; rfl) fun _ => rfl).faultless

/-! ## Activations that do not -/

/-- The activation has lost sight of something open. -/
def Lost (own : List Nat) (store : Store) : Prop :=
  ∃ resource ∈ own, resource < store.next ∧ store.slot ≠ some resource ∧ resource ∉ store.closed

theorem Lost.visit (lost : Lost own store) (kind : Role) :
    Lost (store.visit kind own).1 (store.visit kind own).2 := by
  obtain ⟨resource, member, old, other, still⟩ := lost
  unfold Store.visit
  split
  · refine ⟨resource, List.mem_cons_of_mem _ member, Nat.lt_succ_of_lt old, ?_, still⟩
    rintro ⟨⟩
    exact Nat.lt_irrefl _ old
  · split
    · exact ⟨resource, member, old, other, still⟩
    · rename_i present slot
      refine ⟨resource, member, old, other, ?_⟩
      rintro (_ | ⟨_, closed⟩)
      · exact other slot
      · exact still closed
  · exact ⟨resource, member, old, other, still⟩
  · exact ⟨resource, member, old, other, still⟩
  · exact ⟨resource, member, old, other, still⟩

theorem Lost.run (lost : Lost own store) (role : Node → Role) (nodes : List Node) :
    Lost (exec role (ofNodes nodes) own store).1 (exec role (ofNodes nodes) own store).2 := by
  induction nodes generalizing own store with
  | nil => exact lost
  | cons node nodes ih => exact ih (lost.visit (role node))

theorem fault_of_leave {resource : Nat} (member : resource ∈ own)
    (still : resource ∉ store.closed) : (store.leave own).fault = true := by
  have not_all : own.all (· ∈ store.closed) = false :=
    List.all_eq_false.mpr ⟨resource, member, by simpa using still⟩
  simp [Store.leave, not_all]

/-- A run that has gone wrong or lost something ends in a fault. -/
theorem fault_of_run (wrong : store.fault = true ∨ Lost own store) (nodes : List Node) :
    ((exec role (ofNodes nodes) own store).2.leave (exec role (ofNodes nodes) own store).1).fault =
      true := by
  rcases wrong with fault | lost
  · exact (extends_leave _ _).fault_of ((extends_exec role _ own store).fault_of fault)
  · obtain ⟨resource, member, -, -, still⟩ := lost.run role nodes
    exact fault_of_leave member still

/-- A resource of another activation. -/
structure Foreign (resource : Nat) (own : List Nat) (store : Store) : Prop where
  old : resource < store.next
  not_mem : resource ∉ own
  still : resource ∉ store.closed

theorem Foreign.visit {resource : Nat} (foreign : Foreign resource own store) (kind : Role) :
    (store.visit kind own).2.fault = true ∨
      Foreign resource (store.visit kind own).1 (store.visit kind own).2 := by
  obtain ⟨old, not_mem, still⟩ := foreign
  unfold Store.visit
  split
  · refine .inr ⟨Nat.lt_succ_of_lt old, ?_, still⟩
    rintro (_ | ⟨_, member⟩)
    · exact Nat.lt_irrefl _ old
    · exact not_mem member
  · split
    · exact .inl rfl
    · rename_i present slot
      by_cases same : resource = present
      · subst same
        exact .inl (by simp [not_mem])
      · exact .inr ⟨old, not_mem, fun member => still ((List.mem_cons.mp member).resolve_left same)⟩
  · exact .inr ⟨old, not_mem, still⟩
  · exact .inr ⟨old, not_mem, still⟩
  · exact .inr ⟨old, not_mem, still⟩

/-- A run closes nothing of another activation, or goes wrong. -/
theorem Foreign.run {resource : Nat} (foreign : Foreign resource own store)
    (role : Node → Role) (nodes : List Node) :
    (exec role (ofNodes nodes) own store).2.fault = true ∨
      Foreign resource (exec role (ofNodes nodes) own store).1
        (exec role (ofNodes nodes) own store).2 := by
  induction nodes generalizing own store with
  | nil => exact .inr foreign
  | cons node nodes ih =>
      rcases foreign.visit (role node) with fault | foreign
      · exact .inl ((extends_exec role (ofNodes nodes) _ _).fault_of fault)
      · exact ih foreign

/-- What a run that opens something leaves in the slot is its own and new. -/
theorem slot_of_run (opening : ∃ node ∈ nodes, role node = .opens) (own : List Nat)
    (store : Store) : ∃ resource ∈ (exec role (ofNodes nodes) own store).1,
      (exec role (ofNodes nodes) own store).2.slot = some resource ∧ store.next ≤ resource := by
  have keep (nodes : List Node) {own : List Nat} {store : Store} {resource : Nat}
      (member : resource ∈ own) (slot : store.slot = some resource) (old : resource < store.next)
      {first : Nat} (le : first ≤ resource) :
      ∃ resource ∈ (exec role (ofNodes nodes) own store).1,
        (exec role (ofNodes nodes) own store).2.slot = some resource ∧ first ≤ resource := by
    induction nodes generalizing own store resource with
    | nil => exact ⟨resource, member, slot, le⟩
    | cons node nodes ih =>
        rw [ofNodes, exec]
        cases role node with
        | opens =>
            exact ih List.mem_cons_self rfl (Nat.lt_succ_self _)
              (Nat.le_trans le (Nat.le_of_lt old))
        | closes =>
            simp only [Store.visit, slot]
            exact ih member rfl old le
        | inside => exact ih member slot old le
        | outside => exact ih member slot old le
        | neutral => exact ih member slot old le
  induction nodes generalizing own store with
  | nil => obtain ⟨_, member, _⟩ := opening; cases member
  | cons node nodes ih =>
      by_cases here : role node = .opens
      · rw [ofNodes, exec, here]
        exact keep nodes List.mem_cons_self rfl (Nat.lt_succ_self _) (Nat.le_refl _)
      · obtain ⟨other, member, opens⟩ := opening
        rcases List.mem_cons.mp member with rfl | member
        · exact absurd opens here
        · obtain ⟨resource, member, slot, le⟩ := ih ⟨other, member, opens⟩
            (store.visit (role node) own).1 (store.visit (role node) own).2
          exact ⟨resource, member, slot,
            Nat.le_trans (extends_visit (role node) own store).next_le le⟩

/-- Nothing is open and the slot has what was closed before. -/
def Stale (store : Store) : Prop := ∃ resource ∈ store.closed, store.slot = some resource

theorem Stale.turn {held next : Bool} {kind : Role} (stale : held = false → Stale store)
    (tidy : Tidy held own store) (turn : kind.turn held = some next) :
    next = false → Stale (store.visit kind own).2 := by
  rintro rfl
  cases kind with
  | opens => cases Role.next_of_opens turn
  | closes =>
      obtain rfl := Role.held_of_needsHeld turn (.inl rfl)
      obtain ⟨resource, -, slot, -⟩ := tidy.holds rfl
      simp only [Store.visit, slot]
      exact ⟨resource, List.mem_cons_self, rfl⟩
  | inside =>
      obtain rfl := Role.held_of_needsHeld turn (.inr rfl)
      cases turn
  | outside => exact stale (Role.free_of_needsFree turn (.inr rfl))
  | neutral => exact stale (Option.some.inj turn)

/-- A node that is out of turn goes wrong, unless it is one where activations start. -/
theorem wrong_of_visit {held : Bool} (tidy : Tidy held own store)
    (stale : held = false → Stale store) {kind : Role} (turn : kind.turn held = none)
    (other : kind ≠ .outside) :
    (store.visit kind own).2.fault = true ∨
      Lost (store.visit kind own).1 (store.visit kind own).2 := by
  cases kind with
  | opens =>
      cases held with
      | false => cases turn
      | true =>
          obtain ⟨resource, member, slot, still⟩ := tidy.holds rfl
          have old := tidy.numbered.own_lt resource member
          refine .inr ⟨resource, List.mem_cons_of_mem _ member, Nat.lt_succ_of_lt old, ?_, still⟩
          rintro ⟨⟩
          exact Nat.lt_irrefl _ old
  | closes =>
      cases held with
      | false =>
          obtain ⟨resource, closed, slot⟩ := stale rfl
          exact .inl (by simp [Store.visit, slot, closed])
      | true => cases turn
  | inside =>
      cases held with
      | false =>
          obtain ⟨resource, closed, slot⟩ := stale rfl
          exact .inl (by simp [Store.visit, slot, closed])
      | true => cases turn
  | outside => exact absurd rfl other
  | neutral => cases turn

variable {opening : List Node}

/-- A run that does not take turns goes wrong after another that opened something, or around it. -/
theorem exists_fault (openingRun : g.Run g.entry opening)
    (opens : ∃ node ∈ opening, role node = .opens) (run : g.Run node nodes) {held : Bool}
    (tidy : Tidy held own store) (stale : held = false → Stale store)
    (turns : Role.turns held (nodes.map role) ≠ some false) :
    ∃ events, Fits g role (.before node) events ∧
      ((exec role events own store).2.leave (exec role events own store).1).fault = true := by
  -- A node out of turn, with the rest of the run.
  have out {node : Node} {nodes : List Node} {own : List Nat} {store : Store} {held : Bool}
      (rest : Fits g role (.after node) (ofNodes nodes)) (tidy : Tidy held own store)
      (stale : held = false → Stale store) (turn : (role node).turn held = none) :
      ∃ events, Fits g role (.before node) events ∧
        ((exec role events own store).2.leave (exec role events own store).1).fault = true := by
    by_cases outside : role node = .outside
    · -- The nested activation takes the slot.
      rw [outside] at turn
      obtain rfl : held = true := by
        cases held with
        | false => cases turn
        | true => rfl
      refine ⟨.visit node (.activate (ofNodes opening) (ofNodes nodes)),
        .visit (.call outside (fits_ofNodes openingRun) rest), ?_⟩
      obtain ⟨resource, member, slot, still⟩ := tidy.holds rfl
      have old := tidy.numbered.own_lt resource member
      obtain ⟨taken, -, takenSlot, le⟩ := slot_of_run opens [] store
      have foreign : Foreign resource [] store := ⟨old, List.not_mem_nil, still⟩
      rw [exec, outside]
      refine fault_of_run ?_ nodes
      rcases foreign.run role opening with fault | foreign
      · exact .inl ((extends_leave _ _).fault_of fault)
      · refine .inr ⟨resource, member, foreign.old, ?_, foreign.still⟩
        intro same
        rw [show taken = resource from Option.some.inj (takenSlot.symm.trans same)] at le
        exact Nat.not_le_of_lt old le
    · exact ⟨.visit node (ofNodes nodes), .visit rest,
        fault_of_run (wrong_of_visit tidy stale turn outside) nodes⟩
  induction run generalizing own store held with
  | @exit node isExit =>
      cases turn : (role node).turn held with
      | none =>
          have rest : Fits g role (.after node) (ofNodes []) := .exit isExit
          exact out rest tidy stale turn
      | some next =>
          rw [List.map_singleton, Role.turns_cons, turn] at turns
          cases next with
          | false => exact absurd rfl turns
          | true =>
              refine ⟨.visit node .done, .visit (.exit isExit), ?_⟩
              obtain ⟨resource, member, -, still⟩ := (tidy.turn turn).holds rfl
              exact fault_of_leave member still
  | @step node next nodes edge run ih =>
      cases turn : (role node).turn held with
      | none => exact out (.move edge (fits_ofNodes run)) tidy stale turn
      | some after =>
          rw [List.map_cons, Role.turns_cons, turn] at turns
          obtain ⟨events, fits, fault⟩ := ih (tidy.turn turn) (Stale.turn stale tidy turn) turns
          exact ⟨.visit node events, .visit (.move edge fits), fault⟩

/-- Without an opening, a closing goes wrong in the first activation. -/
theorem fault_of_closing (unopened : ∀ node ∈ nodes, role node ≠ .opens)
    (closes : ∃ node ∈ nodes, role node = .closes) (slot : store.slot = none) :
    (exec role (ofNodes nodes) own store).2.fault = true := by
  induction nodes generalizing own store with
  | nil => obtain ⟨_, member, _⟩ := closes; cases member
  | cons node nodes ih =>
      have unopened_here := unopened node List.mem_cons_self
      have ih (later : ∃ node ∈ nodes, role node = .closes)
          (slot : (store.visit (role node) own).2.slot = none) :
          (exec role (ofNodes nodes) own (store.visit (role node) own).2).2.fault = true :=
        ih (fun other member => unopened other (List.mem_cons_of_mem _ member)) later slot
      have later : role node ≠ .closes → ∃ node ∈ nodes, role node = .closes := by
        obtain ⟨other, member, closes⟩ := closes
        intro ne
        rcases List.mem_cons.mp member with rfl | member
        · exact absurd closes ne
        · exact ⟨other, member, closes⟩
      rw [ofNodes, exec]
      cases kind : role node with
      | opens => exact absurd kind unopened_here
      | closes =>
          simp only [Store.visit, slot]
          exact (extends_exec role _ _ _).fault_of rfl
      | inside => rw [kind] at ih; exact ih (later (by simp [kind])) slot
      | outside => rw [kind] at ih; exact ih (later (by simp [kind])) slot
      | neutral => rw [kind] at ih; exact ih (later (by simp [kind])) slot

/-- Activations go wrong unless runs take turns, or open and close nothing. -/
theorem turns_of_safe (safe : Safe g role) (openingRun : g.Run g.entry opening)
    (opens : ∃ node ∈ opening, role node = .opens) (run : g.Run g.entry nodes) :
    Role.turns false (nodes.map role) = some false := by
  by_contra turns
  -- A first activation leaves what it has closed in the slot.
  have first := safe _ (.call trivial (fits_ofNodes openingRun) .idle)
  have numbered : Numbered [] Store.initial := ⟨nofun, nofun, nofun⟩
  have numbered := numbered_exec role (ofNodes opening) numbered
  obtain ⟨resource, member, slot, -⟩ := slot_of_run opens [] .initial
  have tidy : Tidy false [] ((exec role (ofNodes opening) [] .initial).2.leave
      (exec role (ofNodes opening) [] .initial).1) :=
    ⟨⟨nofun, numbered.slot_lt, numbered.closed_lt⟩, first, nofun, nofun⟩
  have closed : resource ∈ (exec role (ofNodes opening) [] .initial).2.closed := by
    by_contra still
    exact Bool.false_ne_true (first.symm.trans (fault_of_leave member still))
  obtain ⟨events, fits, fault⟩ := exists_fault openingRun opens run tidy
    (fun _ => ⟨resource, closed, slot⟩) turns
  have second := safe _ (.call trivial (fits_ofNodes openingRun) (.call trivial fits .idle))
  exact Bool.false_ne_true (second.symm.trans fault)

variable (idle : ∀ nodes, g.Run g.entry nodes →
  ∀ node ∈ nodes, role node ≠ .opens ∧ role node ≠ .closes)

include idle in
/-- Where no run opens or closes anything, the slot stays empty. -/
theorem Fits.unopened (fits : Fits g role place events)
    (visited : ∀ node ∈ visits events, role node ≠ .opens ∧ role node ≠ .closes)
    (slot : store.slot = none) (faultless : store.fault = false) :
    (exec role events [] store).1 = [] ∧ (exec role events [] store).2.slot = none ∧
      (exec role events [] store).2.fault = false := by
  induction fits generalizing store with
  | idle => exact ⟨rfl, slot, faultless⟩
  | exit _ => exact ⟨rfl, slot, faultless⟩
  | @visit node rest _ ih =>
      obtain ⟨unopened, unclosed⟩ := visited node List.mem_cons_self
      have visited_rest : ∀ node ∈ visits rest, role node ≠ .opens ∧ role node ≠ .closes :=
        fun other member => visited other (List.mem_cons_of_mem _ member)
      rw [exec]
      cases kind : role node with
      | opens => exact absurd kind unopened
      | closes => exact absurd kind unclosed
      | inside => exact ih visited_rest slot (by simp [faultless, slot])
      | outside => exact ih visited_rest slot faultless
      | neutral => exact ih visited_rest slot faultless
  | move _ _ ih => exact ih visited slot faultless
  | @call place inner rest _ activation _ inner_ih ih =>
      obtain ⟨unowned, innerSlot, innerFault⟩ :=
        inner_ih (idle _ (activation.run.1 _ rfl)) slot faultless
      refine ih visited innerSlot ?_
      rw [unowned]
      simp [Store.leave, innerFault]

/-- Activations are safe exactly where all runs take turns or none opens or closes anything. -/
theorem safe_iff : Safe g role ↔ g.Disciplined role ∨
    ∀ nodes, g.Run g.entry nodes → ∀ node ∈ nodes, role node ≠ .opens ∧ role node ≠ .closes := by
  constructor
  · intro safe
    by_cases opens : ∃ nodes, g.Run g.entry nodes ∧ ∃ node ∈ nodes, role node = .opens
    · obtain ⟨opening, openingRun, opens⟩ := opens
      exact .inl (FlowGraph.disciplined_iff.mpr fun _ => turns_of_safe safe openingRun opens)
    · refine .inr fun nodes run => ?_
      push Not at opens
      have unopened := opens nodes run
      refine fun node member => ⟨unopened node member, fun closes => ?_⟩
      have first := safe _ (.call trivial (fits_ofNodes run) .idle)
      have fault : (exec role (ofNodes nodes) [] .initial).2.fault = true :=
        fault_of_closing unopened ⟨node, member, closes⟩ rfl
      exact Bool.false_ne_true (first.symm.trans ((extends_leave _ _).fault_of fault))
  · rintro (disciplined | idle)
    · exact safe_of_turns (FlowGraph.disciplined_iff.mp disciplined)
    · intro events fits
      exact (fits.unopened idle (by rw [fits.visits_outside]; nofun) rfl rfl).2.2

end Slot
