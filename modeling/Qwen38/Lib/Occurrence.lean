import Mathlib.Data.List.Infix
import Mathlib.Data.List.DropRight
import Mathlib.Order.SuccPred.Archimedean
import Mathlib.Data.Nat.SuccPred
import Mathlib.Tactic.Common

/-!
# Where a word occurs in a history

Drafting by repetition looks for the end of a history earlier in it, or in another text, and
proposes what came next there.

* `Occurrence.starts gram history`: the occurrences of a word that have a continuation. When
  the history grows by one element, the only new one is the one at its old end
  (`Occurrence.mem_starts_append`).
* `Occurrence.CommonSuffix n l l'`: two lists that end in the same `n` elements; one more is
  one comparison (`Occurrence.commonSuffix_succ`).
* `Occurrence.best`: a scan that keeps the first candidate of the highest score and stops at a
  score that cannot be beaten (`Occurrence.best_eq_some`).
-/

namespace Occurrence

variable {α : Type*}

/-! ### Occurrences with a continuation -/

/-- The positions where a word starts in a history that goes on behind it. -/
def starts (gram history : List α) : Set Nat :=
  {start | start + gram.length < history.length ∧ gram <+: history.drop start}

variable {gram history : List α} {x : α} {start : Nat}

theorem starts_nil : starts gram ([] : List α) = ∅ :=
  Set.eq_empty_iff_forall_notMem.mpr fun _ h => Nat.not_lt_zero _ h.1

/-- A word that starts at the end of a history, less its length, is a suffix. -/
theorem prefix_drop_iff_suffix (h : start + gram.length = history.length) :
    gram <+: history.drop start ↔ gram <:+ history := by
  have hlen : gram.length = (history.drop start).length := by rw [List.length_drop]; omega
  constructor
  · intro hp
    rw [hp.eq_of_length hlen]
    exact List.drop_suffix _ _
  · intro hs
    obtain ⟨l, rfl⟩ := hs
    rw [List.length_append, Nat.add_comm] at h
    rw [List.drop_left' (by omega)]

/-- **One element more**: the only new occurrence is the one at the old end. -/
theorem mem_starts_append :
    start ∈ starts gram (history ++ [x]) ↔
      start ∈ starts gram history ∨ start + gram.length = history.length ∧ gram <:+ history := by
  have hstarts (h : start + gram.length ≤ history.length) :
      gram <+: (history ++ [x]).drop start ↔ gram <+: history.drop start := by
    rw [List.drop_append_of_le_length (by omega)]
    refine ⟨fun hp => ?_, fun hp => hp.trans (List.prefix_append _ _)⟩
    exact List.prefix_of_prefix_length_le hp (List.prefix_append _ _)
      (by rw [List.length_drop]; omega)
  rw [starts, starts, Set.mem_ofPred_eq, Set.mem_ofPred_eq, List.length_append, List.length_singleton]
  constructor
  · rintro ⟨hlt, hp⟩
    rw [hstarts (by omega)] at hp
    rcases Nat.lt_or_ge (start + gram.length) history.length with h | h
    · exact Or.inl ⟨h, hp⟩
    · have heq : start + gram.length = history.length := by omega
      exact Or.inr ⟨heq, (prefix_drop_iff_suffix heq).mp hp⟩
  · rintro (⟨hlt, hp⟩ | ⟨heq, hs⟩)
    · exact ⟨by omega, (hstarts (by omega)).mpr hp⟩
    · exact ⟨by omega, (hstarts (by omega)).mpr ((prefix_drop_iff_suffix heq).mpr hs)⟩

theorem starts_append_of_not_suffix (h : ¬gram <:+ history) :
    starts gram (history ++ [x]) = starts gram history := by
  ext start
  rw [mem_starts_append]
  exact or_iff_left fun hs => h hs.2

/-- The occurrence at the old end is the latest one. -/
theorem isGreatest_starts_append (h : gram <:+ history) :
    IsGreatest (starts gram (history ++ [x])) (history.length - gram.length) := by
  have hle := h.length_le
  constructor
  · exact mem_starts_append.mpr (Or.inr ⟨by omega, h⟩)
  · rintro start ⟨hlt, -⟩
    rw [List.length_append, List.length_singleton] at hlt
    omega

/-- The occurrences lie in the history, so that there is a latest one. -/
theorem exists_isGreatest_starts (h : (starts gram history).Nonempty) :
    ∃ start, IsGreatest (starts gram history) start := by
  refine BddAbove.exists_isGreatest_of_nonempty ⟨history.length, fun start hstart => ?_⟩ h
  exact (Nat.le_add_right _ _).trans hstart.1.le

/-! ### Ending alike -/

/-- Two lists that end in the same `n` elements. -/
def CommonSuffix (n : Nat) (l l' : List α) : Prop := ∃ s, s.length = n ∧ s <:+ l ∧ s <:+ l'

variable {n m : Nat} {l l' : List α}

theorem commonSuffix_iff :
    CommonSuffix n l l' ↔
      n ≤ l.length ∧ n ≤ l'.length ∧ l.drop (l.length - n) = l'.drop (l'.length - n) := by
  constructor
  · rintro ⟨s, rfl, ⟨a, rfl⟩, ⟨b, rfl⟩⟩
    simp
  · rintro ⟨h, h', heq⟩
    refine ⟨l.drop (l.length - n), by rw [List.length_drop]; omega, List.drop_suffix _ _, ?_⟩
    rw [heq]
    exact List.drop_suffix _ _

theorem CommonSuffix.mono (h : CommonSuffix n l l') (hm : m ≤ n) : CommonSuffix m l l' := by
  obtain ⟨s, rfl, hs, hs'⟩ := h
  refine ⟨s.drop (s.length - m), by rw [List.length_drop]; omega, ?_, ?_⟩
  · exact (List.drop_suffix _ _).trans hs
  · exact (List.drop_suffix _ _).trans hs'

/-- **One element more**: one comparison. -/
theorem commonSuffix_succ :
    CommonSuffix (n + 1) l l' ↔
      CommonSuffix n l l' ∧ n < l.length ∧ n < l'.length ∧
        l[l.length - n - 1]? = l'[l'.length - n - 1]? := by
  have hcons (k : List α) (h : n < k.length) :
      k.drop (k.length - (n + 1)) = k[k.length - n - 1] :: k.drop (k.length - n) := by
    rw [show k.length - (n + 1) = k.length - n - 1 by omega, List.drop_eq_getElem_cons (by omega),
      show k.length - n - 1 + 1 = k.length - n by omega]
  rw [commonSuffix_iff, commonSuffix_iff]
  constructor
  · rintro ⟨h, h', heq⟩
    rw [hcons l h, hcons l' h', List.cons.injEq] at heq
    refine ⟨⟨by omega, by omega, heq.2⟩, h, h', ?_⟩
    rw [List.getElem?_eq_getElem (by omega), List.getElem?_eq_getElem (by omega), heq.1]
  · rintro ⟨⟨-, -, heq⟩, h, h', hx⟩
    rw [List.getElem?_eq_getElem (by omega), List.getElem?_eq_getElem (by omega),
      Option.some.injEq] at hx
    rw [hcons l h, hcons l' h', hx, heq]
    exact ⟨h, h', rfl⟩

/-! ### The first candidate of the highest score -/

/-- A candidate with its score; a candidate without one is passed over. -/
def best (score : α → Option Nat) (cap : Nat) : List α → Option (α × Nat) → Option (α × Nat)
  | [], kept => kept
  | candidate :: rest, kept =>
    match score candidate with
    | none => best score cap rest kept
    | some s =>
      if kept.all fun k => k.2 < s then
        if s = cap then some (candidate, s) else best score cap rest (some (candidate, s))
      else best score cap rest kept

variable {score : α → Option Nat} {cap : Nat} {candidates : List α} {kept : Option (α × Nat)}
  {a : α} {s : Nat}

/-- The first of the candidates with the highest score, and that score. -/
def IsBest (score : α → Option Nat) (candidates : List α) (a : α) (s : Nat) : Prop :=
  ∃ before after, candidates = before ++ a :: after ∧ score a = some s ∧
    (∀ c ∈ before, ∀ s', score c = some s' → s' < s) ∧
    ∀ c ∈ after, ∀ s', score c = some s' → s' ≤ s

theorem IsBest.mem (h : IsBest score candidates a s) : a ∈ candidates := by
  obtain ⟨before, after, rfl, -⟩ := h
  exact List.mem_append_right _ List.mem_cons_self

theorem IsBest.score_eq (h : IsBest score candidates a s) : score a = some s := by
  obtain ⟨_, _, -, hs, -⟩ := h
  exact hs

/-- A candidate in front that does not do as well. -/
theorem IsBest.cons {c : α} (h : IsBest score candidates a s)
    (hc : ∀ s', score c = some s' → s' < s) : IsBest score (c :: candidates) a s := by
  obtain ⟨before, after, rfl, hs, hbefore, hafter⟩ := h
  exact ⟨c :: before, after, rfl, hs, List.forall_mem_cons.mpr ⟨hc, hbefore⟩, hafter⟩

/-- In a list that runs downwards the first of the highest is the last in the order. -/
theorem IsBest.le_of_pairwise {candidates : List Nat} {score : Nat → Option Nat} {a c s : Nat}
    (h : IsBest score candidates a s) (hsorted : candidates.Pairwise (· > ·))
    (hc : c ∈ candidates) {s' : Nat} (hs' : score c = some s') : s' ≤ s ∧ (s' = s → c ≤ a) := by
  obtain ⟨before, after, rfl, hs, hbefore, hafter⟩ := h
  rw [List.pairwise_append, List.pairwise_cons] at hsorted
  rcases List.mem_append.mp hc with hmem | hmem
  · have hlt := hbefore c hmem s' hs'
    exact ⟨hlt.le, fun heq => absurd heq hlt.ne⟩
  · rcases List.mem_cons.mp hmem with rfl | hmem
    · rw [hs, Option.some.injEq] at hs'
      exact ⟨hs'.ge, fun _ => le_rfl⟩
    · exact ⟨hafter c hmem s' hs', fun _ => (hsorted.2.1.1 c hmem).le⟩

/-- The scan finds nothing where there is nothing. -/
theorem best_eq_none :
    best score cap candidates kept = none ↔
      kept = none ∧ ∀ c ∈ candidates, score c = none := by
  induction candidates generalizing kept with
  | nil => simp [best]
  | cons c candidates ih =>
    rw [best, List.forall_mem_cons]
    cases hc : score c with
    | none => simp only [ih, true_and]
    | some s =>
      cases kept with
      | none => simp [apply_ite (· = none), ih]
      | some k => simp [apply_ite (· = none), ih]

/-- **The scan**: it keeps what it has, or takes the first of the highest score. -/
theorem best_eq_some_or (hcap : ∀ c s, score c = some s → s ≤ cap)
    (h : best score cap candidates kept = some (a, s)) :
    kept = some (a, s) ∧ (∀ c ∈ candidates, ∀ s', score c = some s' → s' ≤ s) ∨
      IsBest score candidates a s ∧ ∀ k, kept = some k → k.2 < s := by
  induction candidates generalizing kept with
  | nil => exact Or.inl ⟨h, fun c hc => absurd hc List.not_mem_nil⟩
  | cons c candidates ih =>
    rw [best] at h
    split at h
    next hc =>
      rcases ih h with ⟨hkept, hall⟩ | ⟨hbest, hlt⟩
      · exact Or.inl ⟨hkept, List.forall_mem_cons.mpr ⟨by simp [hc], hall⟩⟩
      · exact Or.inr ⟨hbest.cons (by simp [hc]), hlt⟩
    next t hc =>
      split_ifs at h with htake hstop
      · -- nothing behind this candidate can have a higher score
        simp only [Option.some.injEq, Prod.mk.injEq] at h
        obtain ⟨rfl, rfl⟩ := h
        refine Or.inr ⟨⟨[], candidates, rfl, hc, by simp, fun c' _ s' hs' => ?_⟩, ?_⟩
        · exact hstop ▸ hcap c' s' hs'
        · rintro k rfl
          simpa using htake
      · rcases ih h with ⟨hkept, hall⟩ | ⟨hbest, hlt⟩
        · simp only [Option.some.injEq, Prod.mk.injEq] at hkept
          obtain ⟨rfl, rfl⟩ := hkept
          refine Or.inr ⟨⟨[], candidates, rfl, hc, by simp, hall⟩, ?_⟩
          rintro k rfl
          simpa using htake
        · have hts : t < s := hlt (c, t) rfl
          refine Or.inr ⟨hbest.cons fun s' hs' => ?_, ?_⟩
          · rw [hc, Option.some.injEq] at hs'
            exact hs' ▸ hts
          · rintro k rfl
            have : k.2 < t := by simpa using htake
            exact this.trans hts
      · obtain ⟨k, rfl⟩ : ∃ k, kept = some k := by
          cases kept with
          | none => exact absurd rfl htake
          | some k => exact ⟨k, rfl⟩
        have hle : t ≤ k.2 := by simpa using htake
        rcases ih h with ⟨hkept, hall⟩ | ⟨hbest, hlt⟩
        · refine Or.inl ⟨hkept, List.forall_mem_cons.mpr ⟨fun s' hs' => ?_, hall⟩⟩
          rw [Option.some.injEq] at hkept
          rw [hc, Option.some.injEq] at hs'
          rw [← hs']
          exact hle.trans_eq (congrArg Prod.snd hkept)
        · refine Or.inr ⟨hbest.cons fun s' hs' => ?_, hlt⟩
          rw [hc, Option.some.injEq] at hs'
          exact hs' ▸ hle.trans_lt (hlt k rfl)

/-- **A scan from nothing** takes the first of the highest score. -/
theorem best_eq_some (hcap : ∀ c s, score c = some s → s ≤ cap)
    (h : best score cap candidates none = some (a, s)) : IsBest score candidates a s := by
  rcases best_eq_some_or hcap h with ⟨hnone, -⟩ | ⟨hbest, -⟩
  · exact absurd hnone (by simp)
  · exact hbest

end Occurrence
