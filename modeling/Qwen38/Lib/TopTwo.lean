import Mathlib.Data.Finset.Lattice.Fold
import Mathlib.Order.Interval.Finset.Nat
import Mathlib.Tactic.Common

/-!
# The two largest of a set

`TopTwo.push` keeps the two largest elements seen so far, and `TopTwo.merge` pushes the two largest
of one set into those of another. `TopTwo.Holds` says of which set they are the largest: the
greatest element, and the greatest of the others, where the least element of the order stands for
none.

`TreeFold.fold` halves an array: the upper half is merged into the lower one. What holds of the
parts of a whole holds of their supremum when the array has been halved to one place
(`TreeFold.folds`).
-/

namespace TopTwo

variable {α : Type*} [LinearOrder α]

/-- One element more, which comes first, second or not at all. -/
def push (x : α) (p : α × α) : α × α :=
  if p.1 < x then (x, p.1) else if x ≠ p.1 ∧ p.2 < x then (p.1, x) else p

/-- The two largest of two sets. -/
def merge (p q : α × α) : α × α := push q.2 (push q.1 p)

variable [OrderBot α]

/-- The greatest of a set, and the greatest of the others. -/
structure Holds (s : Finset α) (p : α × α) : Prop where
  first : p.1 = s.sup id
  second : p.2 = (s.erase p.1).sup id

theorem holds_empty : Holds (∅ : Finset α) (⊥, ⊥) := ⟨rfl, rfl⟩

namespace Holds

variable {s t : Finset α} {p q : α × α} {x y : α}

theorem le_first (h : Holds s p) (hx : x ∈ s) : x ≤ p.1 := by
  rw [h.first]
  exact Finset.le_sup (f := id) hx

theorem le_second (h : Holds s p) (hx : x ∈ s) (hne : x ≠ p.1) : x ≤ p.2 := by
  rw [h.second]
  exact Finset.le_sup (f := id) (Finset.mem_erase.mpr ⟨hne, hx⟩)

/-- The first is in the set, unless there is none. -/
theorem first_mem (h : Holds s p) (hne : p.1 ≠ ⊥) : p.1 ∈ s := by
  have hs : s.Nonempty := by
    rw [Finset.nonempty_iff_ne_empty]
    rintro rfl
    exact hne h.first
  obtain ⟨x, hx, hsup⟩ := Finset.exists_mem_eq_sup s hs id
  rw [h.first, hsup]
  exact hx

theorem second_mem (h : Holds s p) (hne : p.2 ≠ ⊥) : p.2 ∈ s ∧ p.2 ≠ p.1 := by
  have hs : (s.erase p.1).Nonempty := by
    rw [Finset.nonempty_iff_ne_empty]
    intro hempty
    exact hne (h.second.trans (by rw [hempty]; rfl))
  obtain ⟨x, hx, hsup⟩ := Finset.exists_mem_eq_sup _ hs id
  have hsecond : p.2 = x := h.second.trans hsup
  rw [hsecond]
  exact ⟨Finset.mem_of_mem_erase hx, Finset.ne_of_mem_erase hx⟩

/-- **The two largest, told by their places**: either is in the set or there is none, and nothing
else is above. -/
theorem of_bounds (hfirst : p.1 = ⊥ ∨ p.1 ∈ s) (hsecond : p.2 = ⊥ ∨ p.2 ∈ s ∧ p.2 ≠ p.1)
    (hle : ∀ x ∈ s, x ≤ p.1) (hle' : ∀ x ∈ s, x ≠ p.1 → x ≤ p.2) : Holds s p where
  first := by
    refine le_antisymm ?_ (Finset.sup_le hle)
    rcases hfirst with h | h
    · exact h ▸ bot_le
    · exact Finset.le_sup (f := id) h
  second := by
    refine le_antisymm ?_ (Finset.sup_le fun x hx =>
      hle' x (Finset.mem_of_mem_erase hx) (Finset.ne_of_mem_erase hx))
    rcases hsecond with h | ⟨h, hne⟩
    · exact h ▸ bot_le
    · exact Finset.le_sup (f := id) (Finset.mem_erase.mpr ⟨hne, h⟩)

/-- **One element more.** -/
theorem push (h : Holds s p) (x : α) : Holds (insert x s) (push x p) := by
  rw [TopTwo.push]
  split
  · next hlt =>
    -- a new first: the old one is second
    refine of_bounds (Or.inr (Finset.mem_insert_self x s)) ?_ ?_ ?_
    · by_cases hbot : p.1 = ⊥
      · exact Or.inl hbot
      · exact Or.inr ⟨Finset.mem_insert_of_mem (h.first_mem hbot), hlt.ne⟩
    · rintro y hy
      rcases Finset.mem_insert.mp hy with rfl | hy
      · exact le_rfl
      · exact (h.le_first hy).trans hlt.le
    · rintro y hy hne
      exact h.le_first (Finset.mem_of_mem_insert_of_ne hy hne)
  · next hle =>
    have hxle : x ≤ p.1 := not_lt.mp hle
    have hbot : p.1 = ⊥ ∨ p.1 ∈ insert x s :=
      (em (p.1 = ⊥)).imp_right fun hne => Finset.mem_insert_of_mem (h.first_mem hne)
    have hbound : ∀ y ∈ insert x s, y ≤ p.1 := by
      intro y hy
      rcases Finset.mem_insert.mp hy with rfl | hy
      · exact hxle
      · exact h.le_first hy
    split
    -- a new second
    · next hlt =>
      refine of_bounds hbot (Or.inr ⟨Finset.mem_insert_self x s, hlt.1⟩) hbound fun y hy hne => ?_
      rcases Finset.mem_insert.mp hy with rfl | hy
      · exact le_rfl
      · exact (h.le_second hy hne).trans hlt.2.le
    · next hge =>
      refine of_bounds hbot ?_ hbound fun y hy hne => ?_
      · exact (em (p.2 = ⊥)).imp_right fun hne =>
          ⟨Finset.mem_insert_of_mem (h.second_mem hne).1, (h.second_mem hne).2⟩
      · rcases Finset.mem_insert.mp hy with rfl | hy
        · exact not_lt.mp fun hlt => hge ⟨hne, hlt⟩
        · exact h.le_second hy hne

/-- A set may be replaced by its two largest. -/
theorem of_insert_insert (hq : Holds t q) (h : Holds (insert q.2 (insert q.1 s)) p) :
    Holds (s ∪ t) p := by
  have hq₁ : q.1 ∈ insert q.2 (insert q.1 s) :=
    Finset.mem_insert_of_mem (Finset.mem_insert_self _ _)
  have hq₂ : q.2 ∈ insert q.2 (insert q.1 s) := Finset.mem_insert_self _ _
  have hmem {x : α} (hx : x ∈ insert q.2 (insert q.1 s)) (hne : x ≠ ⊥) : x ∈ s ∪ t := by
    rcases Finset.mem_insert.mp hx with rfl | hx
    · exact Finset.mem_union_right s (hq.second_mem hne).1
    · rcases Finset.mem_insert.mp hx with rfl | hx
      · exact Finset.mem_union_right s (hq.first_mem hne)
      · exact Finset.mem_union_left t hx
  have hin {x : α} (hx : x ∈ s) : x ∈ insert q.2 (insert q.1 s) :=
    Finset.mem_insert_of_mem (Finset.mem_insert_of_mem hx)
  refine of_bounds ?_ ?_ ?_ ?_
  · exact (em (p.1 = ⊥)).imp_right fun hne => hmem (h.first_mem hne) hne
  · exact (em (p.2 = ⊥)).imp_right fun hne =>
      ⟨hmem (h.second_mem hne).1 hne, (h.second_mem hne).2⟩
  · intro x hx
    rcases Finset.mem_union.mp hx with hx | hx
    · exact h.le_first (hin hx)
    · exact (hq.le_first hx).trans (h.le_first hq₁)
  · intro x hx hne
    rcases Finset.mem_union.mp hx with hx | hx
    · exact h.le_second (hin hx) hne
    · -- the largest of the second set, unless that is the first of all
      by_cases hfirst : q.1 = p.1
      · have hx₂ : x ≤ q.2 := hq.le_second hx (hfirst ▸ hne)
        by_cases hbot : q.2 = ⊥
        · exact hx₂.trans (hbot ▸ bot_le)
        · exact hx₂.trans (h.le_second hq₂ (hfirst ▸ (hq.second_mem hbot).2))
      · exact (hq.le_first hx).trans (h.le_second hq₁ hfirst)

/-- **Two sets together.** -/
theorem merge (hp : Holds s p) (hq : Holds t q) : Holds (s ∪ t) (merge p q) :=
  hq.of_insert_insert ((hp.push q.1).push q.2)

/-- **Sets may be replaced by their two largest**, all of them. -/
theorem of_candidates {parts : Nat → Finset α} {tops : Nat → α × α} {count : Nat}
    (hparts : ∀ part < count, Holds (parts part) (tops part))
    (h : Holds (s ∪ (Finset.range count).biUnion fun part => {(tops part).1, (tops part).2}) p) :
    Holds (s ∪ (Finset.range count).biUnion parts) p := by
  induction count generalizing s with
  | zero => exact h
  | succ count ih =>
    rw [Finset.range_add_one, Finset.biUnion_insert] at h ⊢
    rw [← Finset.union_assoc]
    refine ih (fun part hpart => hparts part (Nat.lt_succ_of_lt hpart)) ?_
    rw [Finset.union_right_comm]
    refine (hparts count (Nat.lt_succ_self count)).of_insert_insert ?_
    convert h using 1
    ext x
    simp only [Finset.mem_insert, Finset.mem_union, Finset.mem_singleton]
    tauto

end Holds

end TopTwo

namespace TreeFold

variable {β : Type*} (merge : β → β → β)

/-- The upper half of `2 * stride` places is merged into the lower one. -/
def halve (stride : Nat) (a : Nat → β) : Nat → β := fun place =>
  if place < stride then merge (a place) (a (place + stride)) else a place

/-- `2 ^ levels` places are halved to one. -/
def fold : Nat → (Nat → β) → β
  | 0, a => a 0
  | levels + 1, a => fold levels (halve merge (2 ^ levels) a)

variable {merge} {ι : Type*} [SemilatticeSup ι] [OrderBot ι] {R : ι → β → Prop}

/-- **What holds of the parts holds of the whole.** -/
theorem folds (hmerge : ∀ {i j a b}, R i a → R j b → R (i ⊔ j) (merge a b)) {levels : Nat}
    {parts : Nat → ι} {a : Nat → β} (h : ∀ place < 2 ^ levels, R (parts place) (a place)) :
    R ((Finset.range (2 ^ levels)).sup parts) (fold merge levels a) := by
  induction levels generalizing parts a with
  | zero =>
    rw [pow_zero, Finset.range_one, Finset.sup_singleton]
    exact h 0 (Nat.lt_succ_self 0)
  | succ levels ih =>
    have hhalf : (2 : Nat) ^ (levels + 1) = 2 ^ levels + 2 ^ levels := by rw [pow_succ, Nat.mul_two]
    have hsup : (Finset.range (2 ^ (levels + 1))).sup parts =
        (Finset.range (2 ^ levels)).sup (parts ⊔ fun place => parts (place + 2 ^ levels)) := by
      rw [Finset.sup_sup, hhalf, Finset.range_add_eq_union, Finset.sup_union, Finset.sup_map]
      refine congrArg (_ ⊔ ·) (Finset.sup_congr rfl fun place _ => ?_)
      simp [Nat.add_comm]
    rw [hsup, fold]
    refine ih fun place hplace => ?_
    rw [halve, if_pos hplace]
    exact hmerge (h place (by omega)) (h (place + 2 ^ levels) (by omega))

end TreeFold
