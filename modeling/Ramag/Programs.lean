import Mathlib.Data.List.Basic

/-!
Programs that change a state and may fail, with loops that need not end: a
program that is given too few rounds is still running. What a program does is
stated by triples with two ends, one for a result and one for a failure or an
unfinished run.
-/
namespace Ramag.Programs

variable {σ ε α β : Type}

inductive Outcome (ε α : Type)
  | ok (value : α)
  | error (error : ε)
  | running

/-- A program over a state. -/
def Prog (σ ε α : Type) : Type := σ → Outcome ε α × σ

namespace Prog

def ret (value : α) : Prog σ ε α := fun s => (.ok value, s)

/-- One program after the other; a failure or an unfinished run ends both. -/
def andThen (first : Prog σ ε α) (next : α → Prog σ ε β) : Prog σ ε β := fun s =>
  match first s with
  | (.ok value, s) => next value s
  | (.error error, s) => (.error error, s)
  | (.running, s) => (.running, s)

instance : Monad (Prog σ ε) where
  pure := ret
  bind := andThen

def fail (error : ε) : Prog σ ε α := fun s => (.error error, s)

def get : Prog σ ε σ := fun s => (.ok s, s)

def modify (f : σ → σ) : Prog σ ε Unit := fun s => (.ok (), f s)

/-- A value or an error that does not come from the state. -/
def lift : Except ε α → Prog σ ε α
  | .ok value => ret value
  | .error error => fail error

/-- A result together with a failure that is handled by the caller. -/
def attempt (p : Prog σ ε α) : Prog σ ε (Except ε α) := fun s =>
  match p s with
  | (.ok value, s) => (.ok (.ok value), s)
  | (.error error, s) => (.ok (.error error), s)
  | (.running, s) => (.running, s)

def forEach : List β → (β → Prog σ ε Unit) → Prog σ ε Unit
  | [], _ => ret ()
  | x :: xs, body => body x >>= fun _ => forEach xs body

/-- The body again and again, until it gives a result or the rounds are used up. -/
def loop (body : β → Prog σ ε (β ⊕ α)) : Nat → β → Prog σ ε α
  | 0, _ => fun s => (.running, s)
  | rounds + 1, b => body b >>= fun
    | .inl b => loop body rounds b
    | .inr value => ret value

theorem bind_of_ok {p : Prog σ ε α} {next : α → Prog σ ε β} {s s' : σ} {value : α} (done : p s = (.ok value, s')) :
    (p >>= next) s = next value s' := by
  show andThen p next s = _
  rw [andThen, done]

theorem bind_of_error {p : Prog σ ε α} {next : α → Prog σ ε β} {s s' : σ} {error : ε} (failed : p s = (.error error, s')) :
    (p >>= next) s = (.error error, s') := by
  show andThen p next s = _
  rw [andThen, failed]

end Prog

/-! ### Triples -/

/-- From the states of `pre` a result leads to `post`, and any other end to `stop`. -/
def Triple (pre : σ → Prop) (p : Prog σ ε α) (post : α → σ → Prop) (stop : σ → Prop) : Prop :=
  ∀ s, pre s → match p s with
    | (.ok value, s') => post value s'
    | (.error _, s') => stop s'
    | (.running, s') => stop s'

namespace Triple

variable {pre pre' : σ → Prop} {post post' : α → σ → Prop} {stop stop' : σ → Prop} {p : Prog σ ε α}

theorem weaken (holds : Triple pre p post stop) (before : ∀ s, pre' s → pre s) (after : ∀ a s, post a s → post' a s)
    (failed : ∀ s, stop s → stop' s) : Triple pre' p post' stop' := by
  intro s start
  have done := holds s (before s start)
  revert done
  cases p s with
  | mk outcome s' =>
    cases outcome with
    | ok value => exact after value s'
    | error _ | running => exact failed s'

theorem enter (holds : Triple pre p post stop) (before : ∀ s, pre' s → pre s) : Triple pre' p post stop :=
  weaken holds before (fun _ _ => id) fun _ => id

theorem adapt (holds : Triple pre p post stop) (before : ∀ s, pre' s → pre s) (after : ∀ a s, post a s → post' a s) :
    Triple pre' p post' stop := weaken holds before after fun _ => id

theorem ret {value : α} (start : ∀ s, pre s → post value s) : Triple pre (Prog.ret value : Prog σ ε α) post stop := start

theorem done {value : α} : Triple pre (Prog.ret value : Prog σ ε α) (fun _ => pre) stop := ret fun _ => id

theorem fail {error : ε} (start : ∀ s, pre s → stop s) : Triple pre (Prog.fail error : Prog σ ε α) post stop := start

theorem halt {error : ε} : Triple stop (Prog.fail error : Prog σ ε α) post stop := fail fun _ => id

/-- A program that looks at its state runs as the program for that state. -/
theorem getThen {next : σ → Prog σ ε α} (start : ∀ v, Triple (fun s => s = v ∧ pre s) (next v) post stop) :
    Triple pre (Prog.get >>= next) post stop :=
  fun s held => start s s ⟨rfl, held⟩

theorem modify {f : σ → σ} {post : Unit → σ → Prop} (start : ∀ s, pre s → post () (f s)) :
    Triple pre (Prog.modify f : Prog σ ε Unit) post stop :=
  start

theorem lift {step : Except ε α} (start : ∀ s value, step = .ok value → pre s → post value s)
    (failed : ∀ s, pre s → stop s) : Triple pre (Prog.lift step : Prog σ ε α) post stop := by
  intro s held
  cases step with
  | ok value => exact start s value rfl held
  | error _ => exact failed s held

/-- A step that takes nothing from the state and does not change it. -/
theorem lift_same {step : Except ε α} (failed : ∀ s, pre s → stop s) :
    Triple pre (Prog.lift step : Prog σ ε α) (fun value s => step = .ok value ∧ pre s) stop :=
  lift (fun _ _ done held => ⟨done, held⟩) failed

/-- What does not speak of the state may be assumed for the whole program. -/
theorem given {c : Prop} (holds : c → Triple pre p post stop) : Triple (fun s => c ∧ pre s) p post stop :=
  fun s held => holds held.1 s held.2

theorem bind {middle : β → σ → Prop} {first : Prog σ ε β} {next : β → Prog σ ε α}
    (head : Triple pre first middle stop) (tail : ∀ b, Triple (middle b) (next b) post stop) : Triple pre (first >>= next) post stop := by
  intro s start
  have done := head s start
  show match Prog.andThen first next s with
    | (.ok value, s') => post value s'
    | (.error _, s') => stop s'
    | (.running, s') => stop s'
  unfold Prog.andThen
  revert done
  cases first s with
  | mk outcome s' =>
    cases outcome with
    | ok value => exact fun between => tail value s' between
    | error _ => exact id
    | running => exact id

theorem attempt {post : Except ε α → σ → Prop} {failed : σ → Prop} (holds : Triple pre p (fun a => post (.ok a)) failed)
    (refused : ∀ error s, failed s → post (.error error) s) (unfinished : ∀ s, failed s → stop s) : Triple pre p.attempt post stop := by
  intro s start
  have done := holds s start
  unfold Prog.attempt
  revert done
  cases p s with
  | mk outcome s' =>
    cases outcome with
    | ok value => exact id
    | error error => exact refused error s'
    | running => exact unfinished s'

theorem ite {c : Prop} [Decidable c] {q : Prog σ ε α} (yes : c → Triple pre p post stop)
    (no : ¬ c → Triple pre q post stop) : Triple pre (if c then p else q) post stop := by
  split_ifs with held
  · exact yes held
  · exact no held

/-- What every element keeps is kept by the run over all of them. -/
theorem forEach {invariant : σ → Prop} {xs : List β} {body : β → Prog σ ε Unit}
    (step : ∀ x ∈ xs, Triple invariant (body x) (fun _ => invariant) stop) :
    Triple invariant (Prog.forEach xs body) (fun _ => invariant) stop := by
  induction xs with
  | nil => exact fun _ => id
  | cons x xs ih => exact bind (step x List.mem_cons_self) fun _ => ih fun y mem => step y (List.mem_cons_of_mem x mem)

/-- A run over a list, with what holds after the elements that are done. -/
theorem forEach_prefix {invariant : List β → σ → Prop} {body : β → Prog σ ε Unit} (xs done : List β)
    (step : ∀ before x after, xs = before ++ x :: after →
      Triple (invariant (done ++ before)) (body x) (fun _ => invariant (done ++ before ++ [x])) stop) :
    Triple (invariant done) (Prog.forEach xs body) (fun _ => invariant (done ++ xs)) stop := by
  induction xs generalizing done with
  | nil =>
    rw [List.append_nil]
    exact fun _ => id
  | cons x xs ih =>
    have first := step [] x xs rfl
    rw [List.append_nil] at first
    refine bind first fun _ => ?_
    have rest := ih (done ++ [x]) fun before y after split => by
      have own := step (x :: before) y after (by rw [split]; rfl)
      simpa using own
    simpa using rest

/-- What every round keeps holds when the loop ends. -/
theorem loop {invariant : β → σ → Prop} {body : β → Prog σ ε (β ⊕ α)} (unfinished : ∀ b s, invariant b s → stop s)
    (round : ∀ b, Triple (invariant b) (body b) (fun next s => Sum.elim (invariant · s) (post · s) next) stop)
    (rounds : Nat) (b : β) : Triple (invariant b) (Prog.loop body rounds b) post stop := by
  induction rounds generalizing b with
  | zero => exact fun s held => unfinished b s held
  | succ rounds ih =>
    refine bind (round b) fun next => ?_
    cases next with
    | inl next => exact ih next
    | inr value => exact fun _ => id

/-- The same for a condition that does not look at what the rounds hand on. -/
theorem loop_keeps {invariant : σ → Prop} {body : β → Prog σ ε (β ⊕ α)} (unfinished : ∀ s, invariant s → stop s)
    (round : ∀ b, Triple invariant (body b) (fun next s => Sum.elim (fun _ => invariant s) (post · s) next) stop)
    (rounds : Nat) (b : β) : Triple invariant (Prog.loop body rounds b) post stop :=
  @loop _ _ _ _ _ _ (fun _ => invariant) _ (fun _ => unfinished) round rounds b

/-- The program is never still running. -/
def Finishes (p : Prog σ ε α) : Prop := ∀ s, (p s).1 ≠ .running

namespace Finishes

theorem ret {value : α} : Finishes (Prog.ret value : Prog σ ε α) := fun _ done => nomatch done
theorem fail {error : ε} : Finishes (Prog.fail error : Prog σ ε α) := fun _ done => nomatch done
theorem modify {f : σ → σ} : Finishes (Prog.modify f : Prog σ ε Unit) := fun _ done => nomatch done

theorem lift {step : Except ε α} : Finishes (Prog.lift step : Prog σ ε α) := by
  cases step with
  | ok value => exact ret
  | error error => exact fail

theorem getThen {next : σ → Prog σ ε α} (rest : ∀ v, Finishes (next v)) : Finishes (Prog.get >>= next) :=
  fun s => rest s s

theorem bind {first : Prog σ ε β} {next : β → Prog σ ε α} (head : Finishes first) (tail : ∀ b, Finishes (next b)) :
    Finishes (first >>= next) := by
  intro s
  show (Prog.andThen first next s).1 ≠ _
  have finished := head s
  revert finished
  unfold Prog.andThen
  cases first s with
  | mk outcome s' =>
    cases outcome with
    | ok value => exact fun _ => tail value s'
    | error _ => exact fun _ done => nomatch done
    | running => exact fun finished => absurd rfl finished

theorem ite {c : Prop} [Decidable c] {q : Prog σ ε α} (yes : Finishes p) (no : Finishes q) : Finishes (if c then p else q) := by
  split_ifs with held
  · exact yes
  · exact no

end Finishes

/-- The failure of a program that finishes is handled by what comes next. -/
theorem attempt_finishing {failed : σ → Prop} (holds : Triple pre p post failed) (finishes : Finishes p) :
    Triple pre p.attempt (fun result s => match result with
      | .ok value => post value s
      | .error _ => failed s) stop := by
  intro s start
  have done := holds s start
  have finished := finishes s
  unfold Prog.attempt
  revert done finished
  cases p s with
  | mk outcome s' =>
    cases outcome with
    | ok value | error error => exact fun done _ => done

    | running => exact fun _ finished => absurd rfl finished

end Triple

end Ramag.Programs
