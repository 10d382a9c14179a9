import Mathlib.Data.Finset.Card
import Mathlib.Data.Finset.Dedup
import Mathlib.Data.List.Nodup
import Mathlib.Order.Defs.LinearOrder

/-!
# A best selection of a fixed size

`Selection.IsTop score k all top` says that `top` is a choice of `k` members of `all` such that no
other member scores higher than a chosen one. With equal scores several choices are best, so this
is a relation and not a function.

The rule for a tournament is `Selection.IsTop.merge`: the best of two best selections is a best
selection of both sets. It does not ask the sets to be disjoint, and the selections may be merged in
any tree.
-/

namespace Selection

variable {ι V : Type*} [LinearOrder V] {score : ι → V} {k : ℕ}

/-- A best selection of `k` members. -/
structure IsTop (score : ι → V) (k : ℕ) (all top : Finset ι) : Prop where
  subset : top ⊆ all
  card : top.card = k
  best : ∀ x ∈ all, x ∉ top → ∀ y ∈ top, score x ≤ score y

namespace IsTop

variable {all all₁ all₂ top top₁ top₂ : Finset ι}

/-- Of more than `k` members one is left out, and every chosen one scores as high. -/
theorem exists_le {good : Finset ι} (h : IsTop score k all top) (hsub : good ⊆ all)
    (hcard : k < good.card) {y : ι} (hy : y ∈ top) : ∃ x ∈ good, score x ≤ score y := by
  obtain ⟨x, hx, hnot⟩ := Finset.exists_mem_notMem_of_card_lt_card (h.card ▸ hcard)
  exact ⟨x, hx, h.best x (hsub hx) hnot y hy⟩

variable [DecidableEq ι]

/-- What a best selection leaves out stays out of a best selection from a larger pool: a member of
`top` scores as high, or the selections agree. -/
theorem le_of_notMem (h₁ : IsTop score k all₁ top₁) (h : IsTop score k (top₁ ∪ top₂) top) {x y : ι}
    (hx : x ∈ all₁) (hnot : x ∉ top₁) (hy : y ∈ top) : score x ≤ score y := by
  by_cases hsub : top₁ ⊆ top
  · -- then the two have one size and are equal
    have heq : top₁ = top := Finset.eq_of_subset_of_card_le hsub (by rw [h.card, h₁.card])
    exact h₁.best x hx hnot y (heq ▸ hy)
  · obtain ⟨z, hz, hout⟩ := Finset.not_subset.mp hsub
    calc score x ≤ score z := h₁.best x hx hnot z hz
      _ ≤ score y := h.best z (Finset.mem_union_left _ hz) hout y hy

/-- **The rule of a tournament.** -/
theorem merge (h₁ : IsTop score k all₁ top₁) (h₂ : IsTop score k all₂ top₂)
    (h : IsTop score k (top₁ ∪ top₂) top) : IsTop score k (all₁ ∪ all₂) top where
  subset := h.subset.trans (Finset.union_subset_union h₁.subset h₂.subset)
  card := h.card
  best := by
    intro x hx hnot y hy
    by_cases hpool : x ∈ top₁ ∪ top₂
    · exact h.best x hpool hnot y hy
    · rw [Finset.mem_union, not_or] at hpool
      rcases Finset.mem_union.mp hx with hx | hx
      · exact h₁.le_of_notMem h hx hpool.1 hy
      · rw [Finset.union_comm] at h
        exact h₂.le_of_notMem h hx hpool.2 hy

end IsTop

/-- Sorting by a score. -/
theorem pairwise_mergeSort (score : ι → V) (l : List ι) :
    (l.mergeSort fun a b => score a ≤ score b).Pairwise fun a b => score a ≤ score b := by
  have htrans : ∀ a b c : ι, decide (score a ≤ score b) = true → decide (score b ≤ score c) = true →
      decide (score a ≤ score c) = true := by
    intro a b c hab hbc
    exact decide_eq_true ((of_decide_eq_true hab).trans (of_decide_eq_true hbc))
  have htotal : ∀ a b : ι, (decide (score a ≤ score b) || decide (score b ≤ score a)) = true := by
    intro a b
    simpa using le_total (score a) (score b)
  exact (List.pairwise_mergeSort htrans htotal l).imp fun h => of_decide_eq_true h

/-- The end of a sorted list is a best selection. -/
theorem isTop_drop [DecidableEq ι] {sorted : List ι} {rest : ℕ} (hnodup : sorted.Nodup)
    (hsorted : sorted.Pairwise fun a b => score a ≤ score b) (hlength : sorted.length = rest + k) :
    IsTop score k sorted.toFinset (sorted.drop rest).toFinset where
  subset := by
    intro x hx
    rw [List.mem_toFinset] at hx ⊢
    exact List.mem_of_mem_drop hx
  card := by
    rw [List.toFinset_card_of_nodup (hnodup.sublist (List.drop_sublist _ _)), List.length_drop,
      hlength, Nat.add_sub_cancel_left]
  best := by
    intro x hx hnot y hy
    rw [List.mem_toFinset] at hx hnot hy
    rw [← List.take_append_drop rest sorted] at hx hsorted
    rcases List.mem_append.mp hx with hx | hx
    · exact (List.pairwise_append.mp hsorted).2.2 x hx y hy
    · exact absurd hx hnot

end Selection
