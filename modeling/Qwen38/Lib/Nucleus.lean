import Mathlib.Algebra.BigOperators.Field
import Mathlib.Algebra.Order.BigOperators.Group.Finset
import Mathlib.Algebra.Order.Field.Basic
import Mathlib.Data.Finset.Dedup
import Mathlib.Data.Finset.Max

/-!
# The nucleus of a distribution

`Nucleus.keep all score weight k bound` keeps those of `all` that have fewer than `k` members above
them, of a total weight below `bound`. Above means a higher score; scores and weights need not go
together.

Two results. A walk down a sorted list keeps the same (`Nucleus.toFinset_leading`). And the nucleus
of a part under a laxer bound is the nucleus of the whole exactly when the part has it and nothing
comes in between the bounds (`Nucleus.keep_eq_keep_iff`).
-/

namespace Nucleus

variable {ι V K : Type*} [LinearOrder V] [AddCommGroup K] [LinearOrder K]

section Above

variable (all : Finset ι) (score : ι → V)

/-- The members with a higher score. -/
def above (t : ι) : Finset ι := all.filter fun u => score t < score u

variable {all score} {part : Finset ι} {t u : ι}

@[simp] theorem mem_above : u ∈ above all score t ↔ u ∈ all ∧ score t < score u :=
  Finset.mem_filter

theorem above_subset_above (h : score t ≤ score u) : above all score u ⊆ above all score t := by
  intro v hv
  rw [mem_above] at hv ⊢
  exact ⟨hv.1, h.trans_lt hv.2⟩

theorem above_mono (h : part ⊆ all) : above part score t ⊆ above all score t :=
  Finset.filter_subset_filter _ h

end Above

section Keep

variable (all : Finset ι) (score : ι → V) (weight : ι → K) (k : ℕ) (bound : K)

/-- The members with fewer than `k` above them, of less than `bound` in weight. -/
def keep : Finset ι :=
  all.filter fun t => (above all score t).card < k ∧ ∑ u ∈ above all score t, weight u < bound

variable {all score weight k bound} {part : Finset ι} {bound' : K} {t u : ι}

theorem mem_keep : t ∈ keep all score weight k bound ↔
    t ∈ all ∧ (above all score t).card < k ∧ ∑ u ∈ above all score t, weight u < bound :=
  Finset.mem_filter

theorem keep_subset : keep all score weight k bound ⊆ all :=
  Finset.filter_subset _ _

@[simp] theorem keep_empty : keep ∅ score weight k bound = ∅ :=
  Finset.filter_empty _

theorem card_keep_le (hinj : Set.InjOn score all) : (keep all score weight k bound).card ≤ k := by
  classical
  rcases (keep all score weight k bound).eq_empty_or_nonempty with hempty | hne
  · rw [hempty, Finset.card_empty]
    exact Nat.zero_le k
  · obtain ⟨t, ht, hmin⟩ := (keep all score weight k bound).exists_min_image score hne
    have hsub : (keep all score weight k bound).erase t ⊆ above all score t := by
      intro u hu
      obtain ⟨hne, hu⟩ := Finset.mem_erase.mp hu
      refine mem_above.mpr ⟨keep_subset hu, (hmin u hu).lt_of_ne fun heq => ?_⟩
      exact hne (hinj (keep_subset hu) (keep_subset ht) heq.symm)
    have hcard := Finset.card_le_card hsub
    rw [Finset.card_erase_of_mem ht] at hcard
    have hlt := (mem_keep.mp ht).2.1
    omega

theorem card_keep_le_min (hinj : Set.InjOn score all) :
    (keep all score weight k bound).card ≤ min k all.card :=
  le_min (card_keep_le hinj) (Finset.card_le_card keep_subset)

/-- No member has all of them above it. -/
theorem keep_min : keep all score weight (min k all.card) bound = keep all score weight k bound := by
  refine Finset.filter_congr fun t ht => and_congr_left fun _ => ?_
  have hssub : above all score t ⊂ all :=
    Finset.filter_ssubset.mpr ⟨t, ht, lt_irrefl _⟩
  have hlt := Finset.card_lt_card hssub
  omega

section Positive

variable [IsOrderedAddMonoid K] (hpos : ∀ t, 0 < weight t)

include hpos

/-- What scores as high as a kept member is kept. -/
theorem mem_keep_of_le (ht : t ∈ keep all score weight k bound) (hu : u ∈ all)
    (hle : score t ≤ score u) : u ∈ keep all score weight k bound := by
  obtain ⟨-, hcard, hweight⟩ := mem_keep.mp ht
  have hsub : above all score u ⊆ above all score t := above_subset_above hle
  refine mem_keep.mpr ⟨hu, (Finset.card_le_card hsub).trans_lt hcard, ?_⟩
  exact (Finset.sum_le_sum_of_subset_of_nonneg hsub fun v _ _ => (hpos v).le).trans_lt hweight

/-- What is not kept is below all that is. -/
theorem keep_subset_above (hu : u ∈ all) (hnot : u ∉ keep all score weight k bound)
    (hsub : keep all score weight k bound ⊆ part) :
    keep all score weight k bound ⊆ above part score u := by
  intro t ht
  refine mem_above.mpr ⟨hsub ht, lt_of_not_ge fun hle => ?_⟩
  exact hnot (mem_keep_of_le hpos ht hu hle)

/-- A missing member: the highest one is next after the kept ones. -/
theorem exists_next (hsub : part ⊆ all) (hkeep : keep all score weight k bound ⊂ part) :
    ∃ t ∈ part, t ∉ keep all score weight k bound ∧
      above part score t = keep all score weight k bound := by
  classical
  obtain ⟨rest, hrest, hnot⟩ := Finset.exists_of_ssubset hkeep
  obtain ⟨t, ht, hmax⟩ := (part \ keep all score weight k bound).exists_max_image score
    ⟨rest, Finset.mem_sdiff.mpr ⟨hrest, hnot⟩⟩
  obtain ⟨hpart, hout⟩ := Finset.mem_sdiff.mp ht
  refine ⟨t, hpart, hout, Finset.Subset.antisymm (fun u hu => ?_)
    (keep_subset_above hpos (hsub hpart) hout hkeep.subset)⟩
  obtain ⟨hu, hlt⟩ := mem_above.mp hu
  by_contra hmissing
  exact absurd (hmax u (Finset.mem_sdiff.mpr ⟨hu, hmissing⟩)) (not_le_of_gt hlt)

variable (hinj : Set.InjOn score all)

include hinj

/-- **The nucleus of a part** is that of the whole exactly when the part has all of it and, unless
its size ended it, its weight reaches the laxer bound too. -/
theorem keep_eq_keep_iff (hsub : part ⊆ all) (hsize : min k all.card ≤ part.card)
    (hbound : bound ≤ bound') :
    keep part score weight k bound' = keep all score weight k bound ↔
      keep all score weight k bound ⊆ part ∧
        ((keep all score weight k bound).card = min k all.card ∨
          bound' ≤ ∑ t ∈ keep all score weight k bound, weight t) := by
  constructor
  · intro heq
    have hkeep : keep all score weight k bound ⊆ part := heq ▸ keep_subset
    refine ⟨hkeep, or_iff_not_imp_left.mpr fun hcard => ?_⟩
    have hlt := lt_of_le_of_ne (card_keep_le_min hinj) hcard
    have hssub : keep all score weight k bound ⊂ part :=
      Finset.ssubset_iff_subset_ne.mpr ⟨hkeep, fun he => absurd hsize (by rw [← he]; omega)⟩
    -- the next member of the part is left out, and only the weight can be why
    obtain ⟨t, hpart, hnot, habove⟩ := exists_next hpos hsub hssub
    rw [← heq, mem_keep, habove] at hnot
    by_contra hweight
    exact hnot ⟨hpart, by omega, lt_of_not_ge hweight⟩
  · rintro ⟨hkeep, hend⟩
    refine Finset.Subset.antisymm (fun t ht => ?_) fun t ht => ?_
    · obtain ⟨hpart, hcard, hweight⟩ := mem_keep.mp ht
      by_contra hnot
      -- a member outside the nucleus has all of it above itself
      have habove := keep_subset_above hpos (hsub hpart) hnot hkeep
      rcases hend with hfull | hreach
      · have hle := Finset.card_le_card habove
        have hall : keep all score weight k bound = all :=
          Finset.eq_of_subset_of_card_le keep_subset (by omega)
        exact hnot (by rw [hall]; exact hsub hpart)
      · refine absurd hweight (not_lt_of_ge (hreach.trans ?_))
        exact Finset.sum_le_sum_of_subset_of_nonneg habove fun u _ _ => (hpos u).le
    · obtain ⟨-, hcard, hweight⟩ := mem_keep.mp ht
      have habove : above part score t ⊆ above all score t := above_mono hsub
      refine mem_keep.mpr ⟨hkeep ht, (Finset.card_le_card habove).trans_lt hcard, ?_⟩
      calc ∑ u ∈ above part score t, weight u
          ≤ ∑ u ∈ above all score t, weight u :=
            Finset.sum_le_sum_of_subset_of_nonneg habove fun u _ _ => (hpos u).le
        _ < bound := hweight
        _ ≤ bound' := hbound

/-- Under one bound the part only has to have it. -/
theorem keep_eq_keep (hsub : part ⊆ all) (hsize : min k all.card ≤ part.card)
    (hkeep : keep all score weight k bound ⊆ part) :
    keep part score weight k bound = keep all score weight k bound := by
  refine (keep_eq_keep_iff hpos hinj hsub hsize le_rfl).mpr ⟨hkeep, or_iff_not_imp_left.mpr ?_⟩
  intro hcard
  have hlt := lt_of_le_of_ne (card_keep_le_min hinj) hcard
  have hssub : keep all score weight k bound ⊂ all :=
    Finset.ssubset_iff_subset_ne.mpr ⟨keep_subset, fun he => absurd hlt (by
      rw [he]
      exact not_lt_of_ge (min_le_right _ _))⟩
  obtain ⟨t, hall, hnot, habove⟩ := exists_next hpos subset_rfl hssub
  rw [mem_keep, habove] at hnot
  by_contra hweight
  exact hnot ⟨hall, by omega, lt_of_not_ge hweight⟩

end Positive

end Keep

/-- A common factor of the weights goes to the bound. -/
theorem keep_div {F : Type*} [Field F] [LinearOrder F] [IsStrictOrderedRing F] {all : Finset ι}
    {score : ι → V} {weight : ι → F} {k : ℕ} {bound total : F} (htotal : 0 < total) :
    keep all score (fun t => weight t / total) k bound =
      keep all score weight k (bound * total) := by
  refine Finset.filter_congr fun t _ => and_congr_right fun _ => ?_
  rw [← Finset.sum_div, div_lt_iff₀ htotal]

/-! ### A walk down a sorted list -/

section Leading

variable {α : Type*} [DecidableEq ι] (member : α → ι) (weight : α → K) (bound : K)

/-- The first `k` entries, until the weight of those passed reaches the bound. -/
def leading : ℕ → K → List α → List α
  | 0, _, _ => []
  | _ + 1, _, [] => []
  | k + 1, higher, entry :: rest =>
    if higher < bound then entry :: leading k (higher + weight entry) rest else []

variable {weight bound} {k : ℕ} {higher : K} {l : List α}
variable [IsOrderedAddMonoid K] {score : ι → V} {mass : ι → K} {rest : Finset ι} {first t : ι}

theorem above_insert (hfirst : ∀ u ∈ rest, score u < score first) :
    above (insert first rest) score first = ∅ := by
  refine Finset.filter_eq_empty_iff.mpr fun {u} hu => ?_
  rcases Finset.mem_insert.mp hu with rfl | hu
  · exact lt_irrefl _
  · exact (hfirst u hu).not_gt

theorem above_insert_of_mem (hfirst : ∀ u ∈ rest, score u < score first) (ht : t ∈ rest) :
    above (insert first rest) score t = insert first (above rest score t) := by
  rw [above, Finset.filter_insert, if_pos (hfirst t ht), above]

/-- The nucleus with a member above all others. -/
theorem keep_insert (hmass : ∀ u, 0 < mass u) (hfirst : ∀ u ∈ rest, score u < score first) :
    keep (insert first rest) score mass (k + 1) bound =
      if 0 < bound then insert first (keep rest score mass k (bound - mass first)) else ∅ := by
  have hnotin : first ∉ rest := fun hmem => lt_irrefl _ (hfirst first hmem)
  split
  · next hbound =>
    ext t
    rw [mem_keep, Finset.mem_insert, Finset.mem_insert, mem_keep]
    by_cases heq : t = first
    · subst heq
      simp [above_insert hfirst, hbound]
    · simp only [heq, false_or]
      refine and_congr_right fun ht => ?_
      have hout : first ∉ above rest score t := fun hmem => hnotin (mem_above.mp hmem).1
      rw [above_insert_of_mem hfirst ht, Finset.card_insert_of_notMem hout,
        Finset.sum_insert hout, Nat.add_lt_add_iff_right, lt_sub_iff_add_lt']
  · next hbound =>
    refine Finset.filter_eq_empty_iff.mpr fun {t} _ => ?_
    rintro ⟨-, hlt⟩
    exact hbound ((Finset.sum_nonneg fun u _ => (hmass u).le).trans_lt hlt)

/-- **The walk keeps the nucleus.** -/
theorem toFinset_leading (hmass : ∀ u, 0 < mass u)
    (hsorted : l.Pairwise fun a b => score (member b) < score (member a))
    (hweight : ∀ entry ∈ l, weight entry = mass (member entry)) :
    ((leading weight bound k higher l).map member).toFinset =
      keep (l.map member).toFinset score mass k (bound - higher) := by
  induction k generalizing higher l with
  | zero =>
    rw [leading]
    exact (Finset.filter_eq_empty_iff.mpr fun {_} _ hlt => Nat.not_lt_zero _ hlt.1).symm
  | succ k ih =>
    cases l with
    | nil => simp [leading]
    | cons entry rest =>
      obtain ⟨hfirst, hrest⟩ := List.pairwise_cons.mp hsorted
      have hbelow : ∀ u ∈ (rest.map member).toFinset, score u < score (member entry) := by
        intro u hu
        obtain ⟨other, hother, rfl⟩ := List.mem_map.mp (List.mem_toFinset.mp hu)
        exact hfirst other hother
      rw [List.map_cons, List.toFinset_cons, keep_insert hmass hbelow, leading]
      by_cases hlt : higher < bound
      · rw [if_pos hlt, if_pos (sub_pos.mpr hlt), List.map_cons, List.toFinset_cons, ih hrest
          fun other hother => hweight other (List.mem_cons_of_mem _ hother),
          hweight entry List.mem_cons_self, sub_sub]
      · rw [if_neg hlt, if_neg (fun hpos => hlt (sub_pos.mp hpos))]
        rfl

end Leading

end Nucleus
