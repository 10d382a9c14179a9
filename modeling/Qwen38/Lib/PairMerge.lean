import Mathlib.Data.List.Chain
import Mathlib.Data.List.Infix
import Mathlib.Logic.Relation
import Mathlib.Order.Lattice
import Mathlib.Tactic.Common

/-!
# Merging neighbours by rank

A table gives a rank to some pairs of symbols. The reference merges one pair at a time: the
leftmost occurrence of the neighbours with the lowest rank (`PairMerge.MergeOne`), until no
neighbours have a rank (`PairMerge.Reference`).

A pass that merges every occurrence of the lowest-ranked pair from left to right
(`PairMerge.mergeAll`) is a run of such steps, in every table in which the rank of a rule is above
the ranks of the rules that produce its parts (`PairMerge.reaches_mergeAll`): the symbol that a
step of the pass leaves behind is part of no pair that ranks as low, so that the pair stays the
lowest one and the next occurrence is the leftmost one. Without that condition a merged symbol
could come first in the reference and last in the pass.
-/

namespace PairMerge

variable {α κ : Type*}

section Table

variable (rank : α → α → Option κ) (join : α → α → α)

/-- The rank of a rule is above the ranks of all rules that produce one of its parts. -/
def Ordered [LT κ] : Prop :=
  ∀ {a b l r k k'}, rank a b = some k → rank l r = some k' → join a b = l ∨ join a b = r → k < k'

/-- A rank is the rank of one pair. -/
def Distinct : Prop :=
  ∀ {a b l r k}, rank a b = some k → rank l r = some k → a = l ∧ b = r

/-- No neighbours have a rank below `k`. -/
def AtLeast [LE κ] (k : κ) (symbols : List α) : Prop :=
  symbols.IsChain fun a b => ∀ {k'}, rank a b = some k' → k ≤ k'

/-- No neighbours have a rank. -/
def Unranked (symbols : List α) : Prop := symbols.IsChain fun a b => rank a b = none

end Table

/-- The pair is nowhere among the symbols. -/
def Avoids (l r : α) (symbols : List α) : Prop := symbols.IsChain fun a b => ¬(a = l ∧ b = r)

/-- The leftmost occurrence of the lowest-ranked pair merged. -/
inductive MergeOne [LE κ] (rank : α → α → Option κ) (join : α → α → α) :
    List α → List α → Prop
  | merge {before after l r k} (hrank : rank l r = some k)
      (hlow : AtLeast rank k (before ++ l :: r :: after)) (hleft : Avoids l r (before ++ [l])) :
      MergeOne rank join (before ++ l :: r :: after) (before ++ join l r :: after)

/-- One merge at a time, until none applies. -/
def Reference [LE κ] (rank : α → α → Option κ) (join : α → α → α) (symbols result : List α) :
    Prop :=
  Relation.ReflTransGen (MergeOne rank join) symbols result ∧
    ∀ next, ¬MergeOne rank join result next

/-- Every occurrence of a pair merged, from left to right. -/
def mergeAll [DecidableEq α] (join : α → α → α) (l r : α) : List α → List α
  | a :: b :: symbols =>
    if a = l ∧ b = r then join a b :: mergeAll join l r symbols
    else a :: mergeAll join l r (b :: symbols)
  | [a] => [a]
  | [] => []

/-! ### The reference is a function -/

section Reference

variable {rank : α → α → Option κ} {join : α → α → α} {symbols result : List α}

theorem Unranked.not_mergeOne [LE κ] (h : Unranked rank symbols) (next : List α) :
    ¬MergeOne rank join symbols next := by
  rintro ⟨hrank, -, -⟩
  have hpair := (List.isChain_append.mp h).2.1
  rw [List.isChain_cons_cons, hrank] at hpair
  exact Option.some_ne_none _ hpair.1

theorem Unranked.reference [LE κ] (h : Unranked rank symbols) :
    Reference rank join symbols symbols :=
  ⟨.refl, h.not_mergeOne⟩

theorem Reference.head [LE κ] {symbols' : List α}
    (h : Relation.ReflTransGen (MergeOne rank join) symbols symbols')
    (h' : Reference rank join symbols' result) : Reference rank join symbols result :=
  ⟨h.trans h'.1, h'.2⟩

/-- An occurrence that starts further left is avoided. -/
theorem Avoids.not_occurs {l r : α} (before middle : List α)
    (h : Avoids l r (before ++ l :: r :: middle)) : False := by
  have hpair := (List.isChain_append.mp h).2.1
  rw [List.isChain_cons_cons] at hpair
  exact hpair.1 ⟨rfl, rfl⟩

/-- Two leftmost occurrences are the same one. -/
theorem leftmost_unique {l r : α} {before before' after after' : List α}
    (heq : before ++ l :: r :: after = before' ++ l :: r :: after')
    (hleft : Avoids l r (before ++ [l])) (hleft' : Avoids l r (before' ++ [l])) :
    before = before' ∧ after = after' := by
  rcases List.append_eq_append_iff.mp heq with ⟨m, rfl, hm⟩ | ⟨m, rfl, hm⟩
  · match m with
    | [] => simpa using hm
    | [a] =>
      obtain ⟨rfl, hr, -⟩ : l = a ∧ r = l ∧ after = r :: after' := by simpa using hm
      subst hr
      exact (Avoids.not_occurs before [] (by simpa using hleft')).elim
    | a :: b :: m =>
      obtain ⟨rfl, rfl, -⟩ : l = a ∧ r = b ∧ after = m ++ l :: r :: after' := by simpa using hm
      exact (Avoids.not_occurs before (m ++ [l]) (by simpa using hleft')).elim
  · match m with
    | [] =>
      have h : after' = after := by simpa using hm
      exact ⟨List.append_nil _, h.symm⟩
    | [a] =>
      obtain ⟨rfl, hr, -⟩ : l = a ∧ r = l ∧ after' = r :: after := by simpa using hm
      subst hr
      exact (Avoids.not_occurs before' [] (by simpa using hleft)).elim
    | a :: b :: m =>
      obtain ⟨rfl, rfl, -⟩ : l = a ∧ r = b ∧ after' = m ++ l :: r :: after := by simpa using hm
      exact (Avoids.not_occurs before' (m ++ [l]) (by simpa using hleft)).elim

variable [LinearOrder κ]

theorem AtLeast.le {k k' : κ} {l r : α} {before after : List α}
    (h : AtLeast rank k (before ++ l :: r :: after)) (hrank : rank l r = some k') : k ≤ k' := by
  have hpair := (List.isChain_append.mp h).2.1
  rw [List.isChain_cons_cons] at hpair
  exact hpair.1 hrank

theorem mergeOne_rightUnique (hrank : Distinct rank) :
    Relator.RightUnique (MergeOne rank join) := by
  rintro symbols next next' h h'
  obtain @⟨before, after, l, r, k, hk, hlow, hleft⟩ := h
  generalize hs : before ++ l :: r :: after = s at h'
  obtain @⟨before', after', l', r', k', hk', hlow', hleft'⟩ := h'
  have hle : k ≤ k' := AtLeast.le (hs ▸ hlow) hk'
  have hge : k' ≤ k := AtLeast.le (hs.symm ▸ hlow') hk
  obtain rfl := le_antisymm hle hge
  obtain ⟨rfl, rfl⟩ := hrank hk hk'
  obtain ⟨rfl, rfl⟩ := leftmost_unique hs hleft hleft'
  rfl

/-- **The reference has one result.** -/
theorem Reference.unique (hrank : Distinct rank) {result' : List α}
    (h : Reference rank join symbols result) (h' : Reference rank join symbols result') :
    result = result' := by
  rcases Relation.ReflTransGen.total_of_right_unique (mergeOne_rightUnique hrank) h.1 h'.1 with
    hr | hr
  · rcases hr.cases_head with heq | ⟨next, hnext, -⟩
    · exact heq
    · exact absurd hnext (h.2 next)
  · rcases hr.cases_head with heq | ⟨next, hnext, -⟩
    · exact heq.symm
    · exact absurd hnext (h'.2 next)

end Reference

/-! ### A pass -/

section Pass

variable [DecidableEq α] {rank : α → α → Option κ} {join : α → α → α} {l r : α}

@[simp] theorem mergeAll_nil : mergeAll join l r [] = [] := by rw [mergeAll]

@[simp] theorem mergeAll_singleton (a : α) : mergeAll join l r [a] = [a] := by rw [mergeAll]

/-- An element of the result is an old one, or the pair. -/
theorem mem_mergeAll {symbols : List α} {a : α} (h : a ∈ mergeAll join l r symbols) :
    a ∈ symbols ∨ a = join l r := by
  fun_induction mergeAll join l r symbols with
  | case1 b c symbols hpair ih =>
    obtain ⟨rfl, rfl⟩ := hpair
    rcases List.mem_cons.mp h with rfl | htail
    · exact Or.inr rfl
    · exact (ih htail).imp_left fun hold => List.mem_cons_of_mem _ (List.mem_cons_of_mem _ hold)
  | case2 b c symbols hpair ih =>
    rcases List.mem_cons.mp h with rfl | htail
    · exact Or.inl List.mem_cons_self
    · exact (ih htail).imp_left (List.mem_cons_of_mem _)
  | case3 b => exact Or.inl h
  | case4 => exact Or.inl h

theorem length_mergeAll_le (symbols : List α) :
    (mergeAll join l r symbols).length ≤ symbols.length := by
  fun_induction mergeAll join l r symbols <;> grind

/-- A pass over an occurrence of its pair shortens the list. -/
theorem length_mergeAll_lt (before after : List α) :
    (mergeAll join l r (before ++ l :: r :: after)).length < (before ++ l :: r :: after).length := by
  generalize hs : before ++ l :: r :: after = s
  fun_induction mergeAll join l r s generalizing before with
  | case1 a b symbols hpair ih =>
    have hle : (mergeAll join l r symbols).length ≤ symbols.length := length_mergeAll_le symbols
    simp only [List.length_cons]
    omega
  | case2 a b symbols hpair ih =>
    cases before with
    | nil =>
      obtain ⟨rfl, rfl, -⟩ : l = a ∧ r = b ∧ after = symbols := by simpa using hs
      exact absurd ⟨rfl, rfl⟩ hpair
    | cons c before =>
      have hlt := ih before (by simpa using (List.cons_eq_cons.mp hs).2)
      simp only [List.length_cons] at hlt ⊢
      omega
  | case3 a => exact absurd (congrArg List.length hs) (by simp; omega)
  | case4 => exact absurd (congrArg List.length hs) (by simp)

variable [LinearOrder κ] {k : κ}

omit [DecidableEq α] in
/-- The symbol that a merge leaves behind is in no pair that ranks as low. -/
theorem AtLeast.merge (hordered : Ordered rank join) (hrank : rank l r = some k)
    {before after : List α} (h : AtLeast rank k (before ++ l :: r :: after)) :
    AtLeast rank k (before ++ join l r :: after) := by
  obtain ⟨hbefore, htail, -⟩ := List.isChain_append.mp h
  have hafter : AtLeast rank k after := (List.isChain_cons.mp (List.isChain_cons.mp htail).2).2
  refine List.isChain_append.mpr ⟨hbefore, List.isChain_cons.mpr ⟨?_, hafter⟩, ?_⟩
  · intro b _ k' hk'
    exact (hordered hrank hk' (.inl rfl)).le
  · rintro a _ b hb k' hk'
    obtain rfl : join l r = b := by simpa using hb
    exact (hordered hrank hk' (.inr rfl)).le

omit [DecidableEq α] in
/-- Nor is it part of the pair itself. -/
theorem Avoids.merge (hordered : Ordered rank join) (hrank : rank l r = some k)
    {before : List α} (h : Avoids l r (before ++ [l])) (next : List α) (hnext : next.length ≤ 1) :
    Avoids l r (before ++ join l r :: next) := by
  have hne : ¬(join l r = l ∨ join l r = r) := fun heq =>
    lt_irrefl k (hordered hrank hrank heq)
  refine List.isChain_append.mpr ⟨(List.isChain_append.mp h).1, ?_, ?_⟩
  · refine List.isChain_cons.mpr ⟨fun b _ hb => hne (.inl hb.1), ?_⟩
    match next, hnext with
    | [], _ => exact .nil
    | [a], _ => exact .singleton a
  · intro a _ b hb hab
    obtain rfl : join l r = b := by simpa using hb
    exact hne (.inr hab.2)

omit [DecidableEq α] [LinearOrder κ] in
/-- A symbol further: the next pair is another one. -/
theorem Avoids.concat {a b : α} {before : List α} (h : Avoids l r (before ++ [a]))
    (hpair : ¬(a = l ∧ b = r)) : Avoids l r ((before ++ [a]) ++ [b]) := by
  refine List.isChain_append.mpr ⟨h, .singleton b, ?_⟩
  intro a' ha' b' hb'
  obtain rfl : a = a' := by simpa using ha'
  obtain rfl : b = b' := by simpa using hb'
  exact hpair

/-- The pass, from where it is: what lies before has no neighbours that start the pair. -/
theorem reaches_mergeAll_from (hordered : Ordered rank join) (hrank : rank l r = some k)
    (before symbols : List α) (hlow : AtLeast rank k (before ++ symbols))
    (hleft : Avoids l r (before ++ symbols.take 1)) :
    Relation.ReflTransGen (MergeOne rank join) (before ++ symbols)
      (before ++ mergeAll join l r symbols) := by
  fun_induction mergeAll join l r symbols generalizing before with
  | case1 a b symbols hpair ih =>
    obtain ⟨rfl, rfl⟩ := hpair
    refine .head (.merge hrank hlow (by simpa using hleft)) ?_
    have hbefore : Avoids a b (before ++ join a b :: symbols.take 1) :=
      Avoids.merge hordered hrank hleft _ (List.length_take_le 1 symbols)
    have hrest := ih (before ++ [join a b]) (by simpa using hlow.merge hordered hrank)
      (by simpa using hbefore)
    simpa using hrest
  | case2 a b symbols hpair ih =>
    have hrest := ih (before ++ [a]) (by simpa using hlow) (Avoids.concat hleft hpair)
    simpa using hrest
  | case3 a => exact .refl
  | case4 => exact .refl

/-- **A pass is a run of the reference.** -/
theorem reaches_mergeAll (hordered : Ordered rank join) (hrank : rank l r = some k)
    {symbols : List α} (hlow : AtLeast rank k symbols) :
    Relation.ReflTransGen (MergeOne rank join) symbols (mergeAll join l r symbols) := by
  refine reaches_mergeAll_from hordered hrank [] symbols hlow ?_
  cases symbols with
  | nil => exact .nil
  | cons a symbols => exact .singleton a

end Pass

end PairMerge
