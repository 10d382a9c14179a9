import Mathlib.Data.List.Basic
import Mathlib.Logic.ExistsUnique

/-!
# Consecutive ranges

A list of ranges of which each begins where the one before it ended (`Ranges.Consecutive`).
Every number from the first beginning up to the last end is in exactly one of them
(`Ranges.Consecutive.existsUnique`), and that is the first one that ends behind it
(`Ranges.Consecutive.find_eq_of_mem`). Empty ranges are allowed, and never found.
-/

namespace Ranges

variable {σ : Type*} {first last : σ → ℕ}

/-- Ranges from one number to another, without a gap. -/
inductive Consecutive (first last : σ → ℕ) : ℕ → List σ → ℕ → Prop
  | nil (n : ℕ) : Consecutive first last n [] n
  | cons {s : σ} {l : List σ} {m : ℕ} (hs : first s ≤ last s)
      (hl : Consecutive first last (last s) l m) : Consecutive first last (first s) (s :: l) m

variable {l : List σ} {s : σ} {n m k : ℕ}

namespace Consecutive

theorem le (h : Consecutive first last n l m) : n ≤ m := by
  induction h with
  | nil => exact Nat.le_refl _
  | cons hs _ ih => exact Nat.le_trans hs ih

/-- One more range at the end. -/
theorem concat (h : Consecutive first last n l m) (hfirst : first s = m) (hs : first s ≤ last s) :
    Consecutive first last n (l ++ [s]) (last s) := by
  induction h with
  | nil =>
    subst hfirst
    exact .cons hs (.nil _)
  | cons ht _ ih => exact .cons ht (ih hfirst)

/-- Where the range of a number is, no other one is. -/
theorem le_of_getElem? (h : Consecutive first last n l m) {i : ℕ} (hi : l[i]? = some s) :
    n ≤ first s ∧ first s ≤ last s ∧ last s ≤ m := by
  induction h generalizing i with
  | nil => cases hi
  | cons ht hl ih =>
    cases i with
    | zero =>
      obtain rfl := Option.some.inj hi
      exact ⟨Nat.le_refl _, ht, hl.le⟩
    | succ i =>
      obtain ⟨hfirst, hs, hlast⟩ := ih hi
      exact ⟨Nat.le_trans ht hfirst, hs, hlast⟩

/-- **A range with a number** is the first one that ends behind it. -/
theorem find_eq_of_mem (h : Consecutive first last n l m) (hs : s ∈ l) (hfirst : first s ≤ k)
    (hlast : k < last s) : l.find? (fun s => k < last s) = some s := by
  induction h with
  | nil => cases hs
  | @cons t l m ht hl ih =>
    rcases List.mem_cons.mp hs with rfl | htail
    · exact List.find?_cons_of_pos (decide_eq_true hlast)
    · obtain ⟨i, hi⟩ := List.getElem?_of_mem htail
      have hbehind := (hl.le_of_getElem? hi).1
      rw [List.find?_cons_of_neg (by rw [decide_eq_true_eq]; omega)]
      exact ih htail

/-- **A number is in exactly one range.** -/
theorem existsUnique (h : Consecutive first last n l m) (hn : n ≤ k) (hm : k < m) :
    ∃! i : ℕ, ∃ s, l[i]? = some s ∧ first s ≤ k ∧ k < last s := by
  induction h with
  | nil => omega
  | @cons t l m ht hl ih =>
    by_cases hk : k < last t
    · refine ⟨0, ⟨t, rfl, hn, hk⟩, ?_⟩
      rintro (_ | i) ⟨s, hs, hfirst, -⟩
      · rfl
      · have hle := (hl.le_of_getElem? hs).1
        omega
    · obtain ⟨i, hi, hunique⟩ := ih (Nat.le_of_not_lt hk) hm
      refine ⟨i + 1, hi, ?_⟩
      rintro (_ | j) ⟨s, hs, hrange⟩
      · obtain rfl := Option.some.inj hs
        exact absurd hrange.2 hk
      · exact congrArg (· + 1) (hunique j ⟨s, hs, hrange⟩)

end Consecutive

end Ranges
