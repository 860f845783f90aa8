import Mathlib.Data.List.Sort

/-!
Lists in the strict order of a key. Two such lists with the same members are
one, and one is the beginning of another when it holds, of the other's members,
all those up to some rank.
-/
namespace Ramag.RankedLists
open List

variable {α κ : Type} [LinearOrder κ] {key : α → κ}

/-- Each member has a smaller key than all later ones. -/
def Ranked (key : α → κ) (items : List α) : Prop := items.Pairwise fun a b => key a < key b

/-- Nothing of the whole that ranks before a member of the part is missing in the part. -/
def Downward (key : α → κ) (part : List α) (whole : α → Prop) : Prop := ∀ a ∈ part, ∀ b, whole b → key b < key a → b ∈ part

theorem Ranked.begins {part whole : List α} (ranked : Ranked key part) (all : Ranked key whole)
    (within : ∀ a ∈ part, a ∈ whole) (down : Downward key part (· ∈ whole)) : part <+: whole := by
  induction whole generalizing part with
  | nil =>
    cases part with
    | nil => exact prefix_rfl
    | cons a part => exact absurd (within a mem_cons_self) not_mem_nil
  | cons b whole ih =>
    obtain ⟨first, rest⟩ := pairwise_cons.mp all
    cases part with
    | nil => exact nil_prefix
    | cons a part =>
      obtain ⟨above, ranked⟩ := pairwise_cons.mp ranked
      -- the first of the whole ranks before any other member, so the part begins with it
      have same : a = b := by
        by_contra apart
        have later : a ∈ whole := (mem_cons.mp (within a mem_cons_self)).resolve_left apart
        have less := first a later
        rcases mem_cons.mp (down a mem_cons_self b mem_cons_self less) with equal | inside
        · exact apart equal.symm
        · exact absurd (less.trans (above b inside)) (lt_irrefl _)
      subst same
      rw [cons_prefix_cons]
      refine ⟨rfl, ih ranked rest (fun c mem => ?_) fun c mem d there less => ?_⟩
      · rcases mem_cons.mp (within c (mem_cons_of_mem a mem)) with equal | inside
        · exact absurd (equal ▸ above c mem) (lt_irrefl _)
        · exact inside
      · rcases mem_cons.mp (down c (mem_cons_of_mem a mem) d (mem_cons_of_mem a there) less) with equal | inside
        · exact absurd (equal ▸ first d there) (lt_irrefl _)
        · exact inside

theorem Ranked.of_begins {part whole : List α} (all : Ranked key whole) (begins : part <+: whole) :
    Ranked key part ∧ (∀ a ∈ part, a ∈ whole) ∧ Downward key part (· ∈ whole) := by
  obtain ⟨rest, rfl⟩ := begins
  obtain ⟨ranked, -, apart⟩ := pairwise_append.mp all
  refine ⟨ranked, fun a mem => mem_append_left rest mem, fun a mem b there less => ?_⟩
  rcases mem_append.mp there with inside | later
  · exact inside
  · exact absurd (less.trans (apart a mem b later)) (lt_irrefl _)

theorem Ranked.unique {left right : List α} (one : Ranked key left) (other : Ranked key right)
    (same : ∀ a, a ∈ left ↔ a ∈ right) : left = right := by
  have forth : left <+: right := one.begins other (fun a => (same a).mp) fun _ _ b there _ => (same b).mpr there
  have back : right <+: left := other.begins one (fun a => (same a).mpr) fun _ _ b there _ => (same b).mp there
  exact forth.eq_of_length (le_antisymm forth.length_le back.length_le)

theorem ranked_insertionSort {items : List α} (apart : items.Pairwise fun a b => key a ≠ key b) :
    Ranked key (items.insertionSort fun a b => key a ≤ key b) := by
  have perm := perm_insertionSort (fun a b => key a ≤ key b) items
  have different := (perm.pairwise_iff fun {a b} (other : key a ≠ key b) => Ne.symm other).mpr apart
  exact ((pairwise_insertionSort (fun a b => key a ≤ key b) items).and different).imp fun both => lt_of_le_of_ne both.1 both.2

end Ramag.RankedLists
