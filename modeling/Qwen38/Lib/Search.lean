import Mathlib.Data.List.Infix
import Mathlib.Data.Nat.Find
import Mathlib.Tactic.Common

/-!
# Searching a text that arrives in pieces

The position of the first occurrence of a pattern in a list, and the two facts a
streaming reader lives on.

* An occurrence that has been found stays the first one whatever is appended
  (`Search.find_append_of_some`).
* A reader that has seen no occurrence may forget everything but the last
  `pat.length - 1` elements: searching what it kept, extended by what arrives next,
  is searching the whole text (`Search.find_append_of_none`).

The second is the arithmetic of a *hold-back*: an occurrence that straddles the
border starts within the retained suffix, because one that starts earlier would
have been complete before the border.
-/

namespace Search

variable {α : Type*} [DecidableEq α]

/-- The position of the first occurrence of `pat` in a list. -/
def find (pat : List α) : List α → Option Nat
  | [] => if pat = [] then some 0 else none
  | a :: l => if pat <+: a :: l then some 0 else (find pat l).map (· + 1)

/-! ### What the search returns -/

theorem find_nil_eq_some_iff {pat : List α} {i : Nat} :
    find pat [] = some i ↔
      i ≤ 0 ∧ pat <+: ([] : List α).drop i ∧ ∀ j < i, ¬pat <+: ([] : List α).drop j := by
  by_cases hp : pat = []
  · subst hp
    simp only [find, if_pos, Option.some.injEq, List.drop_nil]
    refine ⟨?_, fun h => by omega⟩
    rintro rfl
    exact ⟨le_refl 0, List.prefix_refl _, fun j hj => absurd hj (Nat.not_lt_zero j)⟩
  · simp [find, hp]

theorem find_cons_eq_some_of_prefix {pat l : List α} {a : α} (hp : pat <+: a :: l) {i : Nat} :
    find pat (a :: l) = some i ↔
      i ≤ (a :: l).length ∧ pat <+: (a :: l).drop i ∧ ∀ j < i, ¬pat <+: (a :: l).drop j := by
  rw [find, if_pos hp]
  constructor
  · rintro ⟨⟩
    exact ⟨Nat.zero_le _, hp, fun j hj => absurd hj (Nat.not_lt_zero j)⟩
  · rintro ⟨-, -, hmin⟩
    rcases Nat.eq_zero_or_pos i with rfl | hi
    · rfl
    · exact absurd hp (hmin 0 hi)

theorem find_cons_eq_some_of_not_prefix {pat l : List α} {a : α} (hp : ¬pat <+: a :: l)
    (ih : ∀ {i}, find pat l = some i ↔
      i ≤ l.length ∧ pat <+: l.drop i ∧ ∀ j < i, ¬pat <+: l.drop j) {i : Nat} :
    find pat (a :: l) = some i ↔
      i ≤ (a :: l).length ∧ pat <+: (a :: l).drop i ∧ ∀ j < i, ¬pat <+: (a :: l).drop j := by
  rw [find, if_neg hp, Option.map_eq_some_iff]
  constructor
  · rintro ⟨k, hk, rfl⟩
    obtain ⟨hle, hocc, hmin⟩ := ih.mp hk
    refine ⟨Nat.succ_le_succ hle, hocc, fun j hj => ?_⟩
    rcases j with _ | j
    · exact hp
    · exact hmin j (by omega)
  · rintro ⟨hle, hocc, hmin⟩
    rcases i with _ | i
    · exact absurd hocc hp
    · exact ⟨i, ih.mpr ⟨Nat.le_of_succ_le_succ hle, hocc,
        fun j hj => hmin (j + 1) (by omega)⟩, rfl⟩

theorem find_eq_some_iff {pat l : List α} {i : Nat} :
    find pat l = some i ↔
      i ≤ l.length ∧ pat <+: l.drop i ∧ ∀ j < i, ¬pat <+: l.drop j := by
  induction l generalizing i with
  | nil => exact find_nil_eq_some_iff
  | cons a l ih =>
    by_cases hp : pat <+: a :: l
    · exact find_cons_eq_some_of_prefix hp
    · exact find_cons_eq_some_of_not_prefix hp ih

theorem find_eq_none_iff {pat l : List α} :
    find pat l = none ↔ ∀ i ≤ l.length, ¬pat <+: l.drop i := by
  constructor
  · intro h i hi hocc
    -- The least occurrence would have been returned.
    classical
    have hex : ∃ i, i ≤ l.length ∧ pat <+: l.drop i := ⟨i, hi, hocc⟩
    obtain ⟨hle, hpre⟩ := Nat.find_spec hex
    have hfound : find pat l = some (Nat.find hex) :=
      find_eq_some_iff.mpr ⟨hle, hpre, fun j hj hj' => Nat.find_min hex hj ⟨by omega, hj'⟩⟩
    exact Option.some_ne_none _ (hfound.symm.trans h)
  · intro h
    rcases hf : find pat l with _ | i
    · rfl
    · obtain ⟨hle, hocc, -⟩ := find_eq_some_iff.mp hf
      exact absurd hocc (h i hle)

theorem find_eq_none_iff_not_isInfix {pat l : List α} : find pat l = none ↔ ¬pat <:+: l := by
  rw [find_eq_none_iff]
  constructor
  · rintro h ⟨s, t, rfl⟩
    refine h s.length ?_ ?_
    · rw [List.append_assoc, List.length_append]
      exact Nat.le_add_right _ _
    · rw [List.append_assoc, List.drop_left]
      exact List.prefix_append _ _
  · intro h i _ hocc
    exact h (hocc.isInfix.trans (List.drop_suffix i l).isInfix)

/-- A text with an occurrence has a first one. -/
theorem exists_find {pat l : List α} {i : Nat} (hi : i ≤ l.length) (h : pat <+: l.drop i) :
    ∃ j, find pat l = some j ∧ j ≤ i := by
  rcases hf : find pat l with _ | j
  · exact absurd h (find_eq_none_iff.mp hf i hi)
  · refine ⟨j, rfl, Nat.le_of_not_lt fun hlt => ?_⟩
    exact (find_eq_some_iff.mp hf).2.2 i hlt h

/-- **A found occurrence lies inside the text.** -/
theorem find_bound {pat l : List α} {i : Nat} (h : find pat l = some i) :
    i + pat.length ≤ l.length := by
  obtain ⟨hle, hocc, -⟩ := find_eq_some_iff.mp h
  have := hocc.length_le
  rw [List.length_drop] at this
  omega

/-- A text splits at a found occurrence. -/
theorem eq_of_find {pat l : List α} {i : Nat} (h : find pat l = some i) :
    l = l.take i ++ pat ++ l.drop (i + pat.length) := by
  obtain ⟨-, ⟨r, hr⟩, -⟩ := find_eq_some_iff.mp h
  calc l = l.take i ++ l.drop i := (List.take_append_drop i l).symm
    _ = l.take i ++ (pat ++ r) := by rw [hr]
    _ = l.take i ++ pat ++ (l.drop i).drop pat.length := by
        rw [← hr, List.drop_left, List.append_assoc]
    _ = l.take i ++ pat ++ l.drop (i + pat.length) := by rw [List.drop_drop]

/-- The text from a found occurrence on starts with the pattern. -/
theorem prefix_of_find {pat l : List α} {i : Nat} (h : find pat l = some i) :
    pat <+: l.drop i :=
  (find_eq_some_iff.mp h).2.1

/-- Searching a text that starts with the pattern finds it at once. -/
theorem find_of_prefix {pat l : List α} (h : pat <+: l) : find pat l = some 0 :=
  find_eq_some_iff.mpr ⟨Nat.zero_le _, by simpa using h, fun j hj => absurd hj (Nat.not_lt_zero j)⟩

/-- The first occurrence of an element. -/
theorem find_singleton {x : α} {l : List α} (h : x ∉ l) (r : List α) :
    find [x] (l ++ x :: r) = some l.length := by
  induction l with
  | nil => exact find_of_prefix ⟨r, rfl⟩
  | cons a l ih =>
    rw [List.mem_cons, not_or] at h
    obtain ⟨hne, hmem⟩ := h
    have hnot : ¬[x] <+: a :: (l ++ x :: r) := by
      rw [List.cons_prefix_cons]
      exact fun hp => hne hp.1
    rw [List.cons_append, find, if_neg hnot, ih hmem]
    rfl

/-! ### Texts that grow at the end -/

omit [DecidableEq α] in
/-- An occurrence that ends inside `l` is an occurrence in `l`. -/
theorem prefix_drop_of_append {pat l r : List α} {j : Nat} (hj : j + pat.length ≤ l.length)
    (h : pat <+: (l ++ r).drop j) : pat <+: l.drop j := by
  rw [List.drop_append_of_le_length (by omega)] at h
  refine List.prefix_of_prefix_length_le h (List.prefix_append _ _) ?_
  rw [List.length_drop]
  omega

/-- **A first occurrence stays the first one** whatever is appended. -/
theorem find_append_of_some {pat l : List α} {i : Nat} (h : find pat l = some i) (r : List α) :
    find pat (l ++ r) = some i := by
  have hb := find_bound h
  obtain ⟨hle, hocc, hmin⟩ := find_eq_some_iff.mp h
  refine find_eq_some_iff.mpr ⟨by rw [List.length_append]; omega, ?_, fun j hj hj' => ?_⟩
  · rw [List.drop_append_of_le_length hle]
    exact hocc.trans (List.prefix_append _ _)
  · exact hmin j hj (prefix_drop_of_append (by omega) hj')

/-- **An element that is not in the pattern separates**: behind a text without an
occurrence, and such an element, the search starts anew. -/
theorem find_append_separator {pat l : List α} {x : α} (h : find pat l = none) (hx : x ∉ pat)
    {r : List α} (hr : pat <+: r) : find pat (l ++ x :: r) = some (l.length + 1) := by
  have hdrop : (l ++ x :: r).drop (l.length + 1) = r := by
    rw [← List.drop_drop, List.drop_left, List.drop_succ_cons, List.drop_zero]
  refine find_eq_some_iff.mpr ⟨by rw [List.length_append, List.length_cons]; omega, ?_, ?_⟩
  · rw [hdrop]
    exact hr
  · intro j hj hocc
    rcases Nat.lt_or_ge l.length (j + pat.length) with hlt | hge
    · -- it would reach over the separator
      have hget : pat[l.length - j]? = some x := by
        obtain ⟨t, ht⟩ := hocc
        have hat : ((l ++ x :: r).drop j)[l.length - j]? = some x := by
          rw [List.getElem?_drop, List.getElem?_append_right (by omega)]
          have hzero : j + (l.length - j) - l.length = 0 := by omega
          rw [hzero, List.getElem?_cons_zero]
        rw [← ht, List.getElem?_append_left (by omega)] at hat
        exact hat
      exact hx (List.mem_of_getElem? hget)
    · exact find_eq_none_iff.mp h j (by omega) (prefix_drop_of_append hge hocc)

/-- **A pattern whose first element does not come back** is found behind a text without an
occurrence: two occurrences do not overlap. -/
theorem find_append_self {x : α} {pat l : List α} (hx : x ∉ pat) (h : find (x :: pat) l = none)
    (r : List α) : find (x :: pat) (l ++ (x :: pat ++ r)) = some l.length := by
  refine find_eq_some_iff.mpr ⟨by rw [List.length_append]; omega, ?_, fun j hj hocc => ?_⟩
  · rw [List.drop_left]
    exact List.prefix_append _ _
  · rcases Nat.lt_or_ge l.length (j + (x :: pat).length) with hlt | hge
    · -- it would reach over the first element of the other one
      obtain ⟨t, ht⟩ := hocc
      have hat : ((l ++ (x :: pat ++ r)).drop j)[l.length - j]? = some x := by
        rw [List.getElem?_drop, List.getElem?_append_right (by omega),
          show j + (l.length - j) - l.length = 0 by omega]
        rfl
      obtain ⟨k, hk⟩ : ∃ k, l.length - j = k + 1 := ⟨l.length - j - 1, by omega⟩
      rw [← ht, hk, List.getElem?_append_left (by rw [← hk]; omega), List.getElem?_cons_succ] at hat
      exact hx (List.mem_of_getElem? hat)
    · exact find_eq_none_iff.mp h j (by omega) (prefix_drop_of_append hge hocc)

/-- A text without an occurrence has none in its beginnings. -/
theorem find_none_of_append {pat l r : List α} (h : find pat (l ++ r) = none) :
    find pat l = none := by
  rcases hf : find pat l with _ | i
  · rfl
  · exact absurd ((find_append_of_some hf r).symm.trans h) (Option.some_ne_none i)

/-- An occurrence that appears when text arrives ends in what arrived. -/
theorem length_lt_of_find_append {pat l r : List α} {i : Nat} (h : find pat l = none)
    (hr : find pat (l ++ r) = some i) : l.length < i + pat.length := by
  by_contra hle
  obtain ⟨-, hocc, -⟩ := find_eq_some_iff.mp hr
  exact find_eq_none_iff.mp h i (by omega) (prefix_drop_of_append (by omega) hocc)

/-- The search in the beginning of a text with an occurrence. -/
theorem find_left {pat l r : List α} {i : Nat} (h : find pat (l ++ r) = some i) :
    find pat l = if i + pat.length ≤ l.length then some i else none := by
  rcases hf : find pat l with _ | j
  · have hlt := length_lt_of_find_append hf h
    rw [if_neg (by omega)]
  · obtain rfl := Option.some.inj ((find_append_of_some hf r).symm.trans h)
    rw [if_pos (find_bound hf)]

/-- A text without the first element of the pattern is passed over. -/
theorem find_append_of_not_mem {x : α} {pat l : List α} (h : x ∉ l) (r : List α) :
    find (x :: pat) (l ++ r) = (find (x :: pat) r).map (· + l.length) := by
  induction l with
  | nil => simp
  | cons a l ih =>
    rw [List.mem_cons, not_or] at h
    obtain ⟨hne, hmem⟩ := h
    have hnot : ¬x :: pat <+: a :: (l ++ r) := by
      rw [List.cons_prefix_cons]
      exact fun hp => hne hp.1
    rw [List.cons_append, find, if_neg hnot, ih hmem, Option.map_map]
    rfl

/-- **The hold-back.** A reader that has seen `e ++ c` without an occurrence, and has
kept only `c`, finds in `c` and what arrives next exactly what it would find in the
whole text – provided `c` is long enough for an occurrence not to have started in
`e`. -/
theorem find_append_of_none {pat e c : List α} (h : find pat (e ++ c) = none)
    (hc : e = [] ∨ pat.length ≤ c.length + 1) (r : List α) :
    find pat (e ++ (c ++ r)) = (find pat (c ++ r)).map (e.length + ·) := by
  rcases hc with rfl | hc
  · simp
  have hnone := find_eq_none_iff.mp h
  -- No occurrence starts in `e`: it would be complete in `e ++ c`.
  have hearly : ∀ j < e.length, ¬pat <+: (e ++ (c ++ r)).drop j := by
    intro j hj hocc
    refine hnone j (by rw [List.length_append]; omega) ?_
    rw [← List.append_assoc] at hocc
    exact prefix_drop_of_append (by rw [List.length_append]; omega) hocc
  have hlate : ∀ j, (e ++ (c ++ r)).drop (e.length + j) = (c ++ r).drop j := by
    intro j
    rw [← List.drop_drop, List.drop_left]
  rcases hf : find pat (c ++ r) with _ | i
  · refine find_eq_none_iff.mpr fun j hj hocc => ?_
    rcases Nat.lt_or_ge j e.length with hlt | hge
    · exact hearly j hlt hocc
    · obtain ⟨k, rfl⟩ := Nat.exists_eq_add_of_le hge
      rw [hlate] at hocc
      exact find_eq_none_iff.mp hf k (by rw [List.length_append] at hj; omega) hocc
  · obtain ⟨hle, hocc, hmin⟩ := find_eq_some_iff.mp hf
    rw [Option.map_some]
    refine find_eq_some_iff.mpr ⟨by rw [List.length_append]; omega, by rwa [hlate], ?_⟩
    intro j hj hj'
    rcases Nat.lt_or_ge j e.length with hlt | hge
    · exact hearly j hlt hj'
    · obtain ⟨k, rfl⟩ := Nat.exists_eq_add_of_le hge
      rw [hlate] at hj'
      exact hmin k (by omega) hj'

end Search
