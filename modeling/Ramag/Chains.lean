import Mathlib.Data.List.Nodup
import Mathlib.Data.List.Perm.Subperm

/-!
Following names from state to state. A state is a last one, is stuck, or names
the next; a name always leads to the same state. Following stops at a name that
was met before, so with finitely many names it comes to an end (`follow_total`):
at the last state, where it is stuck, or on a cycle, and at most one of the three
can be reached (`follow_last_iff`, `follow_stops_iff`).
-/
namespace Ramag.Chains
open List

/-- What a state shows. -/
inductive View (State Name : Type)
  | last
  | stuck
  | next (name : Name) (state : State)

/-- Where a chain ends. -/
inductive Outcome (State : Type)
  | last (state : State)
  | stuck (state : State)
  | cycle (state : State)

section

variable {State Name : Type} (view : State → View State Name)

/-- The chain from a state, with the names met so far. -/
def follow [DecidableEq Name] : Nat → List Name → State → Option (Outcome State)
  | 0, _, _ => none
  | fuel + 1, met, state =>
    match view state with
    | .last => some (.last state)
    | .stuck => some (.stuck state)
    | .next name next => if name ∈ met then some (.cycle state) else follow fuel (met ++ [name]) next

def Step (state next : State) : Prop := ∃ name, view state = .next name next

abbrev Leads : State → State → Prop := Relation.ReflTransGen (Step view)

/-- The chain leads there in a number of steps. -/
inductive LeadsIn : Nat → State → State → Prop
  | refl (state : State) : LeadsIn 0 state state
  | head {count : Nat} {state next last : State} (step : Step view state next) (rest : LeadsIn count next last) :
    LeadsIn (count + 1) state last

/-- A name always leads to the same state. -/
def Named : Prop := ∀ ⦃first second name firstNext secondNext⦄,
  view first = .next name firstNext → view second = .next name secondNext → firstNext = secondNext

/-- The state comes back to itself. -/
def Cyclic (state : State) : Prop := Relation.TransGen (Step view) state state

variable {view}

variable {state : State}

theorem step_unique {first second : State} (one : Step view state first) (other : Step view state second) : first = second := by
  obtain ⟨name, shown⟩ := one
  obtain ⟨name', shown'⟩ := other
  rw [shown] at shown'
  cases shown'
  rfl

variable {last : State}

theorem LeadsIn.leads {count : Nat} (leadsIn : LeadsIn view count state last) : Leads view state last := by
  induction leadsIn with
  | refl => exact .refl
  | head step _ ih => exact ih.head step

/-- A state without a next one is where the chains that pass it end. -/
theorem leads_end {middle : State} (ends : ∀ next, ¬ Step view last next) (toEnd : Leads view state last)
    (toMiddle : Leads view state middle) : Leads view middle last := by
  induction toMiddle with
  | refl => exact toEnd
  | tail before step ih =>
    rcases Relation.ReflTransGen.cases_head ih with same | ⟨next, first, rest⟩
    · exact absurd step (same ▸ ends _)
    · rwa [step_unique step first]

/-- No chain both ends and comes back. -/
theorem not_cyclic_of_ends (ends : ∀ next, ¬ Step view last next) (toEnd : Leads view state last) : ¬ Cyclic view state := by
  intro cyclic
  induction toEnd using Relation.ReflTransGen.head_induction_on with
  | refl =>
    obtain ⟨next, step, -⟩ := Relation.TransGen.head'_iff.mp cyclic
    exact ends next step
  | head step rest ih =>
    obtain ⟨next, step', back⟩ := Relation.TransGen.head'_iff.mp cyclic
    rw [step_unique step' step] at back
    exact ih (Relation.TransGen.tail'_iff.mpr ⟨_, back, step⟩)

theorem last_ends (last : view state = .last) (next : State) : ¬ Step view state next := by
  rintro ⟨name, shown⟩
  simp [last] at shown

theorem stuck_ends (stuck : view state = .stuck) (next : State) : ¬ Step view state next := by
  rintro ⟨name, shown⟩
  simp [stuck] at shown

theorem leads_ends {middle : State} (ends : ∀ next, ¬ Step view last next) (leads : Leads view last middle) : middle = last := by
  rcases Relation.ReflTransGen.cases_head leads with same | ⟨next, step, -⟩
  · exact same.symm
  · exact absurd step (ends next)

/-! ### Where following stops -/

variable [DecidableEq Name]

variable (view) in
/-- Where the chain stops, from the state that it begins at. -/
def Stops (start : State) : Outcome State → Prop
  | .last state => Leads view start state ∧ view state = .last
  | .stuck state => Leads view start state ∧ view state = .stuck
  | .cycle state => Leads view start state ∧ Cyclic view state

theorem follow_stops (named : Named view) {start : State} {fuel : Nat} {met : List Name} {outcome : Outcome State}
    (here : Leads view start state) (back : ∀ name ∈ met, ∃ before next, view before = .next name next ∧ Leads view next state)
    (followed : follow view fuel met state = some outcome) : Stops view start outcome := by
  induction fuel generalizing met state with
  | zero => cases followed
  | succ fuel ih =>
    rw [follow] at followed
    cases shown : view state with
    | last | stuck =>
      rw [shown] at followed
      cases followed
      exact ⟨here, shown⟩
    | next name next =>
      rw [shown] at followed
      simp only at followed
      have step : Step view state next := ⟨name, shown⟩
      split_ifs at followed with known
      · cases followed
        obtain ⟨before, next', shown', leads⟩ := back name known
        rw [named shown' shown] at leads
        exact ⟨here, .head' step leads⟩
      refine ih (here.tail step) (fun other mem => ?_) followed
      rcases mem_append.mp mem with old | new
      · obtain ⟨before, next', shown', leads⟩ := back other old
        exact ⟨before, next', shown', leads.tail step⟩
      · rw [mem_singleton.mp new]
        exact ⟨state, next, shown, .refl⟩

/-- With finitely many names the chain comes to an end. -/
theorem follow_total {names : List Name} {fuel : Nat} {met : List Name}
    (within : ∀ reached name next, Leads view state reached → view reached = .next name next → name ∈ names)
    (distinct : met.Nodup) (known : ∀ name ∈ met, name ∈ names) (enough : names.length < fuel + met.length) :
    (follow view fuel met state).isSome = true := by
  induction fuel generalizing met state with
  | zero =>
    have bound := (subperm_of_subset distinct known).length_le
    omega
  | succ fuel ih =>
    rw [follow]
    cases shown : view state with
    | last => rfl
    | stuck => rfl
    | next name next =>
      simp only
      split_ifs with old
      · rfl
      refine ih (fun reached name' next' leads => within reached name' next' (leads.head ⟨name, shown⟩)) ?_ ?_ ?_
      · exact nodup_append.mpr ⟨distinct, nodup_singleton name, fun a mem b single =>
          fun same => old (by rw [← mem_singleton.mp single, ← same]; exact mem)⟩
      · intro other mem
        rcases mem_append.mp mem with before | single
        · exact known other before
        · rw [mem_singleton.mp single]
          exact within state name next .refl shown
      · rw [length_append, length_singleton]
        omega

variable (view)

/-- Enough fuel for a chain whose names are among these. -/
structure Enough (start : State) (fuel : Nat) (names : List Name) : Prop where
  named : Named view
  within : ∀ reached name next, Leads view start reached → view reached = .next name next → name ∈ names
  fuel : names.length < fuel

variable {view} {start : State} {fuel : Nat} {names : List Name}

section
variable (enough : Enough view start fuel names)
include enough

theorem follow_ends :
    ∃ outcome, follow view fuel [] start = some outcome ∧ Stops view start outcome := by
  have total := follow_total enough.within nodup_nil (fun _ absent => (by cases absent)) (by simpa using enough.fuel)
  obtain ⟨outcome, followed⟩ := Option.isSome_iff_exists.mp total
  exact ⟨outcome, followed, follow_stops enough.named .refl (fun _ absent => (by cases absent)) followed⟩

/-- Following comes to a last state exactly if the chain does. -/
theorem follow_last_iff :
    follow view fuel [] start = some (.last state) ↔ Leads view start state ∧ view state = .last := by
  constructor
  · intro followed
    exact follow_stops enough.named .refl (fun _ absent => (by cases absent)) followed
  rintro ⟨leads, last⟩
  obtain ⟨outcome, followed, stops⟩ := follow_ends enough
  have ends := last_ends last
  cases outcome with
  | last other => rw [followed, leads_ends (last_ends stops.2) (leads_end ends leads stops.1)]
  | stuck other =>
    have same := leads_ends (stuck_ends stops.2) (leads_end ends leads stops.1)
    have stuck := stops.2
    simp [← same, last] at stuck
  | cycle other => exact absurd stops.2 (not_cyclic_of_ends ends (leads_end ends leads stops.1))

/-- Following stops elsewhere exactly if the chain is stuck or comes back. -/
theorem follow_stops_iff :
    (∃ state, follow view fuel [] start = some (.stuck state) ∨ follow view fuel [] start = some (.cycle state)) ↔
      ∃ state, Leads view start state ∧ (view state = .stuck ∨ Cyclic view state) := by
  constructor
  · rintro ⟨state, stuck | cycle⟩
    · have stops := follow_stops enough.named .refl (fun _ absent => (by cases absent)) stuck
      exact ⟨state, stops.1, .inl stops.2⟩
    · have stops := follow_stops enough.named .refl (fun _ absent => (by cases absent)) cycle
      exact ⟨state, stops.1, .inr stops.2⟩
  · rintro ⟨state, leads, fault⟩
    obtain ⟨outcome, followed, stops⟩ := follow_ends enough
    cases outcome with
    | last other =>
      have ends := last_ends stops.2
      have toEnd := leads_end ends stops.1 leads
      rcases fault with stuck | cyclic
      · have last := stops.2
        simp [leads_ends (stuck_ends stuck) toEnd, stuck] at last
      · exact absurd cyclic (not_cyclic_of_ends ends toEnd)
    | stuck other => exact ⟨other, .inl followed⟩
    | cycle other => exact ⟨other, .inr followed⟩

end

end

end Ramag.Chains
