import Ramag.Domain

/-!
Two programs that give the same results, where the first one fails unless a
condition holds. The rules follow how programs are put together.
-/
namespace Ramag.Guards
open Domain

variable {ε α β : Type}

/-- The strict program succeeds as the lax one does, if what guards it holds. -/
def Guarded (strict lax : Except ε α) (allowed : Prop) : Prop := ∀ result, strict = .ok result ↔ lax = .ok result ∧ allowed

theorem Guarded.same (program : Except ε α) : Guarded program program True := by
  intro result
  rw [and_true]

variable {strict lax : Except ε α} {allowed : Prop}

theorem Guarded.weaken {allowed' : Prop} (guarded : Guarded strict lax allowed) (same : allowed' ↔ allowed) :
    Guarded strict lax allowed' := by
  intro result
  rw [guarded, same]

/-- What the second part may rely on is the result of the lax program. -/
theorem Guarded.bind {next next' : α → Except ε β} {allowed' : Prop} (first : Guarded strict lax allowed)
    (second : ∀ value, lax = .ok value → Guarded (next value) (next' value) allowed') :
    Guarded (strict >>= next) (lax >>= next') (allowed ∧ allowed') := by
  intro result
  rw [bind_ok_iff, bind_ok_iff]
  constructor
  · rintro ⟨value, done, rest⟩
    obtain ⟨done', held⟩ := (first value).mp done
    obtain ⟨rest', held'⟩ := (second value done' result).mp rest
    exact ⟨⟨value, done', rest'⟩, held, held'⟩
  · rintro ⟨⟨value, done, rest⟩, held, held'⟩
    exact ⟨value, (first value).mpr ⟨done, held⟩, (second value done result).mpr ⟨rest, held'⟩⟩

theorem Guarded.map (guarded : Guarded strict lax allowed) (f : α → β) : Guarded (strict.map f) (lax.map f) allowed := by
  have mapped := guarded.bind fun value _ => Guarded.same (.ok (f value))
  exact mapped.weaken (iff_of_eq (and_true allowed).symm)

theorem Guarded.mapM {strict lax : α → Except ε β} {allowed : α → Prop} (each : ∀ item, Guarded (strict item) (lax item) (allowed item))
    (items : List α) : Guarded (items.mapM strict) (items.mapM lax) (∀ item ∈ items, allowed item) := by
  induction items with
  | nil => exact (Guarded.same _).weaken (by simp)
  | cons item items ih =>
    rw [List.mapM_cons, List.mapM_cons, List.forall_mem_cons]
    refine ((each item).bind fun first _ => ih.bind fun rest _ => Guarded.same _).weaken ?_
    rw [and_true]

/-- The strict program fails where its guard does not hold. -/
theorem Guarded.toOption (guarded : Guarded strict lax allowed) [Decidable allowed] :
    strict.toOption = if allowed then lax.toOption else none := by
  cases done : strict with
  | ok result =>
    obtain ⟨done', held⟩ := (guarded result).mp done
    rw [if_pos held, done']
  | error error =>
    split_ifs with held
    · cases done' : lax with
      | error _ => rfl
      | ok result =>
        rw [(guarded result).mpr ⟨done', held⟩] at done
        cases done
    · rfl

end Ramag.Guards
