import Mathlib.Data.List.Basic

/-!
Readers of a binary format that keep a state, what they read off it, what they
keep, and what they cost. The rules follow how readers are put together.
-/
namespace Ramag.Wires
open List

variable {σ α β γ : Type}

/-- A reader of `α`; the state stays when it refuses. -/
def Reading (σ α : Type) : Type := σ → Option α × σ

instance : Monad (Reading σ) where
  pure a := fun s => (some a, s)
  bind p f := fun s =>
    match p s with
    | (some a, s') => f a s'
    | (none, s') => (none, s')

/-- The end of a reading without a result. -/
def refuse : Reading σ α := fun s => (none, s)

/-- Refuses what is bad. -/
def refuseIf (bad : Prop) [Decidable bad] : Reading σ Unit := if bad then refuse else pure ()

/-- A value that is there, or the end of the reading. -/
def given : Option α → Reading σ α
  | some a => pure a
  | none => refuse

/-- The loop over a number of rounds. -/
def rounds : Nat → (α → Reading σ α) → α → Reading σ α
  | 0, _, a => pure a
  | n + 1, body, a => do
    let b ← body a
    rounds n body b

variable {p : Reading σ α} {f : α → Reading σ β}

theorem bind_some {s s' : σ} {b : β} : (p >>= f) s = (some b, s') ↔ ∃ a t, p s = (some a, t) ∧ f a t = (some b, s') := by
  show (match p s with | (some a, t) => f a t | (none, t) => (none, t)) = _ ↔ _
  constructor
  · intro done
    split at done
    · exact ⟨_, _, by assumption, done⟩
    · cases done
  · rintro ⟨a, t, first, second⟩
    rw [first]
    exact second

theorem bind_state (p : Reading σ α) (f : α → Reading σ β) (s : σ) :
    ((p >>= f) s).2 = (match p s with | (some a, t) => (f a t).2 | (none, t) => t) := by
  show (match p s with | (some a, t) => f a t | (none, t) => (none, t)).2 = _
  split <;> simp_all

/-! ### What is read -/

/-- The reader takes exactly the texts of `wire` off what is in view. -/
structure Reads (view : σ → List γ) (p : Reading σ α) (wire : α → List γ → Prop) : Prop where
  sound : ∀ {s a s'}, p s = (some a, s') → ∃ w, wire a w ∧ view s = w ++ view s'
  complete : ∀ {s a w rest}, wire a w → view s = w ++ rest → ∃ s', p s = (some a, s') ∧ view s' = rest

variable {view : σ → List γ}

theorem Reads.weaken {wire wire' : α → List γ → Prop} (reads : Reads view p wire)
    (same : ∀ a w, wire' a w ↔ wire a w) : Reads view p wire' := by
  have equal : wire' = wire := funext fun a => funext fun w => propext (same a w)
  rw [equal]
  exact reads

theorem Reads.pure (a : α) : Reads view (pure a : Reading σ α) fun b w => b = a ∧ w = [] where
  sound := by
    rintro s b s' ⟨⟩
    exact ⟨[], ⟨rfl, rfl⟩, rfl⟩
  complete := by
    rintro s b w rest ⟨rfl, rfl⟩ shown
    exact ⟨s, rfl, shown⟩

theorem Reads.refuse : Reads view (refuse : Reading σ α) fun _ _ => False where
  sound := by rintro s a s' ⟨⟩
  complete := by rintro s a w rest ⟨⟩

theorem Reads.bind {wire : α → List γ → Prop} {next : α → β → List γ → Prop}
    (first : Reads view p wire) (second : ∀ a, Reads view (f a) (next a)) :
    Reads view (p >>= f) fun b w => ∃ a u v, wire a u ∧ next a b v ∧ w = u ++ v where
  sound := by
    intro s b s' done
    obtain ⟨a, t, got, rest⟩ := bind_some.mp done
    obtain ⟨u, front, shown⟩ := first.sound got
    obtain ⟨v, back, left⟩ := (second a).sound rest
    exact ⟨u ++ v, ⟨a, u, v, front, back, rfl⟩, by rw [shown, left, append_assoc]⟩
  complete := by
    rintro s b w rest ⟨a, u, v, front, back, rfl⟩ shown
    rw [append_assoc] at shown
    obtain ⟨t, got, left⟩ := first.complete front shown
    obtain ⟨s', more, last⟩ := (second a).complete back left
    exact ⟨s', bind_some.mpr ⟨a, t, got, more⟩, last⟩

theorem Reads.refuseIf (bad : Prop) [Decidable bad] : Reads view (refuseIf bad : Reading σ Unit) fun _ w => ¬ bad ∧ w = [] := by
  unfold Wires.refuseIf
  split_ifs with held
  · exact Reads.refuse.weaken fun _ _ => by simp [held]
  · exact (Reads.pure ()).weaken fun _ _ => by simp [held]

theorem Reads.given (found : Option α) : Reads view (given found : Reading σ α) fun a w => found = some a ∧ w = [] := by
  cases found with
  | none => exact Reads.refuse.weaken fun _ _ => by simp
  | some b => exact (Reads.pure b).weaken fun a _ => by rw [Option.some_inj, eq_comm]

theorem Reads.rounds {body : α → Reading σ α} {wire : α → α → List γ → Prop} {all : Nat → α → α → List γ → Prop}
    (each : ∀ a, Reads view (body a) (wire a)) (none : ∀ a b w, all 0 a b w ↔ b = a ∧ w = [])
    (more : ∀ n a c w, all (n + 1) a c w ↔ ∃ b u v, wire a b u ∧ all n b c v ∧ w = u ++ v) (n : Nat) (a : α) :
    Reads view (rounds n body a) (all n a) := by
  induction n generalizing a with
  | zero => exact (Reads.pure a).weaken fun b w => none a b w
  | succ n ih => exact ((each a).bind ih).weaken fun c w => more n a c w

/-- There is room for what is added, or nothing is. -/
def Room {δ : Type} (most : Nat) (before added : List δ) : Prop := added = [] ∨ before.length + added.length ≤ most

theorem Room.append {δ : Type} {most : Nat} {before first rest : List δ} :
    Room most before (first ++ rest) ↔ Room most before first ∧ Room most (before ++ first) rest := by
  unfold Room
  rw [append_eq_nil_iff, length_append, length_append]
  by_cases none : rest = []
  · simp [none]
  simp only [none, and_false, false_or]
  constructor
  · intro fits
    exact ⟨Or.inr (by omega), by omega⟩
  · omega

/-- What `n` rounds find that each put what is found behind what is there. -/
def Gathered {ι δ : Type} (most : Nat) (valid : ι → Prop) (found : ι → List δ) (spelled : ι → List γ)
    (n : Nat) (before after : List δ) (w : List γ) : Prop :=
  ∃ xs : List ι, xs.length = n ∧ (∀ x ∈ xs, valid x) ∧ Room most before (xs.flatMap found) ∧
    after = before ++ xs.flatMap found ∧ w = xs.flatMap spelled

theorem Reads.gather {ι δ : Type} {most : Nat} {valid : ι → Prop} {found : ι → List δ} {spelled : ι → List γ}
    {body : List δ → Reading σ (List δ)} (each : ∀ before, Reads view (body before) fun after w =>
      ∃ x, valid x ∧ Room most before (found x) ∧ after = before ++ found x ∧ w = spelled x) (n : Nat) (before : List δ) :
    Reads view (Wires.rounds n body before) (Gathered most valid found spelled n before) := by
  refine Reads.rounds each ?_ ?_ n before
  · intro before after w
    constructor
    · rintro ⟨xs, none, -, -, rfl, rfl⟩
      rw [length_eq_zero_iff.mp none]
      exact ⟨append_nil _, rfl⟩
    · rintro ⟨rfl, rfl⟩
      exact ⟨[], rfl, by simp, Or.inl rfl, (append_nil _).symm, rfl⟩
  · intro n before after w
    constructor
    · rintro ⟨_ | ⟨x, xs⟩, length, valid, room, rfl, rfl⟩
      · cases length
      rw [flatMap_cons, Room.append] at room
      refine ⟨_, _, _, ⟨x, valid x mem_cons_self, room.1, rfl, rfl⟩,
        ⟨xs, Nat.succ.inj length, fun y mem => valid y (mem_cons_of_mem x mem), room.2, ?_, rfl⟩, rfl⟩
      rw [flatMap_cons, append_assoc]
    · rintro ⟨_, _, _, ⟨x, first, space, rfl, rfl⟩, ⟨xs, rfl, rest, space', rfl, rfl⟩, rfl⟩
      refine ⟨x :: xs, rfl, ?_, ?_, ?_, rfl⟩
      · intro y mem
        rcases mem_cons.mp mem with rfl | mem
        · exact first
        · exact rest y mem
      · rw [flatMap_cons, Room.append]
        exact ⟨space, space'⟩
      · rw [flatMap_cons, append_assoc]

/-- The reader keeps the invariant, also when it refuses. -/
def Keeps (kept : σ → Prop) (p : Reading σ α) : Prop := ∀ s, kept s → kept (p s).2

variable {kept : σ → Prop}

theorem Keeps.pure (a : α) : Keeps kept (pure a : Reading σ α) := fun _ held => held

theorem Keeps.refuse : Keeps kept (refuse : Reading σ α) := fun _ held => held

theorem Keeps.bind (first : Keeps kept p) (second : ∀ a, Keeps kept (f a)) : Keeps kept (p >>= f) := by
  intro s held
  have between := first s held
  rw [bind_state]
  split
  · next a t got =>
    rw [got] at between
    exact second a t between
  · next t got =>
    rw [got] at between
    exact between

theorem Keeps.refuseIf (bad : Prop) [Decidable bad] : Keeps kept (refuseIf bad : Reading σ Unit) := by
  unfold Wires.refuseIf
  split
  · exact Keeps.refuse
  · exact Keeps.pure ()

theorem Keeps.given (found : Option α) : Keeps kept (given found : Reading σ α) := by
  cases found with
  | none => exact Keeps.refuse
  | some a => exact Keeps.pure a

theorem Keeps.rounds {body : α → Reading σ α} (each : ∀ a, Keeps kept (body a)) (n : Nat) (a : α) : Keeps kept (rounds n body a) := by
  induction n generalizing a with
  | zero => exact Keeps.pure a
  | succ n ih => exact (each a).bind ih

/-- A reader that succeeds raises the potential by `cost` at most, and one that
    refuses by `slack`. -/
structure Costs (potential : σ → Nat) (p : Reading σ α) (cost : Int) (slack : Nat) : Prop where
  done : ∀ {s a s'}, p s = (some a, s') → (potential s' : Int) ≤ potential s + cost
  refused : ∀ {s s'}, p s = (none, s') → potential s' ≤ potential s + slack

variable {potential : σ → Nat}

theorem Costs.pure (a : α) : Costs potential (pure a : Reading σ α) 0 0 where
  done := by
    rintro s b s' ⟨⟩
    omega
  refused := by rintro s s' ⟨⟩

theorem Costs.refuse : Costs potential (refuse : Reading σ α) 0 0 where
  done := by rintro s a s' ⟨⟩
  refused := by
    rintro s s' ⟨⟩
    omega

theorem Costs.weaken {cost cost' : Int} {slack slack' : Nat} (costs : Costs potential p cost slack)
    (more : cost ≤ cost') (loose : slack ≤ slack') : Costs potential p cost' slack' where
  done := by
    intro s a s' got
    have := costs.done got
    omega
  refused := by
    intro s s' got
    have := costs.refused got
    omega

theorem Costs.bind {cost cost' : Int} {slack slack' : Nat}
    (first : Costs potential p cost slack) (second : ∀ a, Costs potential (f a) cost' slack')
    (room : cost + slack' ≤ slack) : Costs potential (p >>= f) (cost + cost') slack where
  done := by
    intro s b s' got
    obtain ⟨a, t, front, back⟩ := bind_some.mp got
    have := first.done front
    have := (second a).done back
    omega
  refused := by
    intro s s' got
    change (match p s with | (some a, t) => f a t | (none, t) => (none, t)) = _ at got
    split at got
    · next a t front =>
      have := first.done front
      have := (second a).refused got
      omega
    · next t front =>
      cases got
      exact first.refused front

theorem Costs.refuseIf (bad : Prop) [Decidable bad] : Costs potential (refuseIf bad : Reading σ Unit) 0 0 := by
  unfold Wires.refuseIf
  split
  · exact Costs.refuse
  · exact Costs.pure ()

theorem Costs.given (found : Option α) : Costs potential (given found : Reading σ α) 0 0 := by
  cases found with
  | none => exact Costs.refuse
  | some a => exact Costs.pure a

theorem Costs.rounds {body : α → Reading σ α} {slack : Nat} (each : ∀ a, Costs potential (body a) 0 slack) (n : Nat) (a : α) :
    Costs potential (rounds n body a) 0 slack := by
  induction n generalizing a with
  | zero => exact (Costs.pure a).weaken (Int.le_refl 0) (Nat.zero_le slack)
  | succ n ih => exact (each a).bind ih (by omega)

end Ramag.Wires
