import Mathlib.Algebra.Group.Nat.Defs
import Mathlib.Data.List.Sort
import Mathlib.Order.Basic
import Mathlib.Tactic.Common

/-!
# Bitonic sorting

A compare-exchange replaces two neighbours by a lower and a higher one. `Bitonic.merge` halves a
list, compares the halves place by place and goes on in each half; `Bitonic.sort` sorts the halves
in opposite directions and merges them.

A network of compare-exchanges commutes with every map that commutes with the compare-exchange
(`Bitonic.map_sort`), so that it is enough to know it on lists of two letters: a list that is sorted
at every threshold is sorted (`Bitonic.pairwise_sortBy`). On two letters, comparing the halves of a
bitonic list leaves one half constant and the other bitonic (`Bitonic.clean`).
-/

namespace Bitonic

section Network

variable {α β : Type*} (low high : α → α → α)

/-- The merge of a list of `2 ^ levels`, ascending from `low` to `high`. -/
def merge : Nat → List α → List α
  | 0, l => l
  | levels + 1, l =>
    merge levels (List.zipWith low (l.take (2 ^ levels)) (l.drop (2 ^ levels))) ++
      merge levels (List.zipWith high (l.take (2 ^ levels)) (l.drop (2 ^ levels)))

/-- The network: an ascending half and a descending one, merged in one direction or the other. In
the descending direction a compare-exchange puts an upper element before a lower one. -/
def sort (low high upper lower : α → α → α) : Bool → Nat → List α → List α
  | _, 0, l => l
  | ascending, levels + 1, l =>
    merge (if ascending then low else upper) (if ascending then high else lower) (levels + 1)
      (sort low high upper lower true levels (l.take (2 ^ levels)) ++
        sort low high upper lower false levels (l.drop (2 ^ levels)))

variable {low high} {upper lower : α → α → α} {l : List α} {levels : Nat} {ascending : Bool}

theorem length_halves (h : l.length = 2 ^ (levels + 1)) :
    (l.take (2 ^ levels)).length = 2 ^ levels ∧ (l.drop (2 ^ levels)).length = 2 ^ levels := by
  rw [Nat.pow_succ] at h
  rw [List.length_take, List.length_drop]
  omega

theorem length_zipWith_halves (f : α → α → α) (h : l.length = 2 ^ (levels + 1)) :
    (List.zipWith f (l.take (2 ^ levels)) (l.drop (2 ^ levels))).length = 2 ^ levels := by
  obtain ⟨htake, hdrop⟩ := length_halves h
  rw [List.length_zipWith, htake, hdrop, Nat.min_self]

/-! ### Maps -/

section Map

variable {low' high' : β → β → β} {φ : α → β} (hlow : ∀ a b, φ (low a b) = low' (φ a) (φ b))
  (hhigh : ∀ a b, φ (high a b) = high' (φ a) (φ b))

include hlow hhigh

theorem map_merge : (merge low high levels l).map φ = merge low' high' levels (l.map φ) := by
  induction levels generalizing l with
  | zero => rfl
  | succ levels ih =>
    have hzip {f : α → α → α} {f' : β → β → β} (hf : ∀ a b, φ (f a b) = f' (φ a) (φ b)) :
        (List.zipWith f (l.take (2 ^ levels)) (l.drop (2 ^ levels))).map φ =
          List.zipWith f' ((l.map φ).take (2 ^ levels)) ((l.map φ).drop (2 ^ levels)) := by
      rw [← List.map_take, ← List.map_drop, List.map_zipWith, List.zipWith_map]
      exact congrFun (congrFun (congrArg _ (funext fun a => funext fun b => hf a b)) _) _
    rw [merge, merge, List.map_append, ih, ih, hzip hlow, hzip hhigh]

/-- **The network commutes** with what commutes with its compare-exchanges. -/
theorem map_sort {upper' lower' : β → β → β} (hupper : ∀ a b, φ (upper a b) = upper' (φ a) (φ b))
    (hlower : ∀ a b, φ (lower a b) = lower' (φ a) (φ b)) :
    (sort low high upper lower ascending levels l).map φ =
      sort low' high' upper' lower' ascending levels (l.map φ) := by
  induction levels generalizing l ascending with
  | zero => rfl
  | succ levels ih =>
    rw [sort, sort, ← List.map_take, ← List.map_drop, ← ih, ← ih, ← List.map_append]
    cases ascending with
    | true => exact map_merge hlow hhigh
    | false => exact map_merge hupper hlower

end Map

/-! ### Permutations -/

section Perm

/-- Comparing the halves permutes them. -/
theorem perm_zipWith {l l' : List α} (hperm : ∀ a b, [low a b, high a b].Perm [a, b])
    (h : l.length = l'.length) :
    (List.zipWith low l l' ++ List.zipWith high l l').Perm (l ++ l') := by
  induction l generalizing l' with
  | nil =>
    obtain rfl := List.length_eq_zero_iff.mp h.symm
    rfl
  | cons a l ih =>
    cases l' with
    | nil => exact absurd h (Nat.succ_ne_zero _)
    | cons b l' =>
      have hrest := ih (Nat.succ_injective h)
      have hfront {x y : α} {s t : List α} : (x :: s ++ y :: t).Perm ([x, y] ++ (s ++ t)) :=
        (List.perm_middle).cons x
      refine hfront.trans (((hperm a b).append hrest).trans hfront.symm)

theorem perm_merge (hperm : ∀ a b, [low a b, high a b].Perm [a, b]) (h : l.length = 2 ^ levels) :
    (merge low high levels l).Perm l := by
  induction levels generalizing l with
  | zero => rfl
  | succ levels ih =>
    obtain ⟨htake, hdrop⟩ := length_halves h
    have hhalves := perm_zipWith hperm (htake.trans hdrop.symm)
    rw [List.take_append_drop] at hhalves
    exact ((ih (length_zipWith_halves low h)).append (ih (length_zipWith_halves high h))).trans hhalves

/-- **The network permutes.** -/
theorem perm_sort (hperm : ∀ a b, [low a b, high a b].Perm [a, b])
    (hperm' : ∀ a b, [upper a b, lower a b].Perm [a, b]) (h : l.length = 2 ^ levels) :
    (sort low high upper lower ascending levels l).Perm l := by
  induction levels generalizing l ascending with
  | zero => rfl
  | succ levels ih =>
    obtain ⟨htake, hdrop⟩ := length_halves h
    have hhalves := (@ih _ true htake).append (@ih _ false hdrop)
    rw [List.take_append_drop] at hhalves
    rw [sort]
    cases ascending with
    | true => exact (perm_merge hperm (hhalves.length_eq.trans h)).trans hhalves
    | false => exact (perm_merge hperm' (hhalves.length_eq.trans h)).trans hhalves

end Perm

end Network

/-! ### Two letters -/

section Letters

/-- The letters of the places from `a` up to `b`. -/
def block (a b n : Nat) : List Bool := (List.range n).map fun i => decide (a ≤ i ∧ i < b)

@[simp] theorem length_block (a b n : Nat) : (block a b n).length = n := by
  rw [block, List.length_map, List.length_range]

theorem getElem_block {a b n i : Nat} (h : i < (block a b n).length) :
    (block a b n)[i] = decide (a ≤ i ∧ i < b) := by
  simp [block]

/-- One letter, the other one, and the first again. -/
def IsBitonic (l : List Bool) : Prop :=
  ∃ a b, l = block a b l.length ∨ l = (block a b l.length).map not

theorem IsBitonic.map_not {l : List Bool} (h : IsBitonic l) : IsBitonic (l.map not) := by
  obtain ⟨a, b, h | h⟩ := h
  · exact ⟨a, b, Or.inr (by rw [List.length_map, ← h])⟩
  · refine ⟨a, b, Or.inl ?_⟩
    rw [List.length_map]
    conv_lhs => rw [h]
    rw [List.map_map]
    exact (congrFun (congrArg _ (funext Bool.not_not)) _).trans (List.map_id _)

theorem map_not_zipWith_and (l l' : List Bool) : (List.zipWith and l l').map not =
    List.zipWith or (l.map not) (l'.map not) := by
  rw [List.map_zipWith, List.zipWith_map]
  exact congrFun (congrFun (congrArg _ (funext fun a => funext fun b => Bool.not_and a b)) _) _

theorem map_not_zipWith_or (l l' : List Bool) : (List.zipWith or l l').map not =
    List.zipWith and (l.map not) (l'.map not) := by
  rw [List.map_zipWith, List.zipWith_map]
  exact congrFun (congrFun (congrArg _ (funext fun a => funext fun b => Bool.not_or a b)) _) _

/-- One block, compared with itself half a length further. -/
theorem zipWith_halves_block (f : Bool → Bool → Bool) (a b n : Nat) :
    List.zipWith f ((block a b (n + n)).take n) ((block a b (n + n)).drop n) =
      (List.range n).map fun i =>
        f (decide (a ≤ i ∧ i < b)) (decide (a ≤ n + i ∧ n + i < b)) := by
  apply List.ext_getElem
  · simp
  · intro i h₁ h₂
    simp [block]

/-- **A bitonic list compared with itself half a length further**: one half is constant, and the
other bitonic. -/
structure Cleaned (n : Nat) (low high : List Bool) : Prop where
  halves : low = block 0 0 n ∧ IsBitonic high ∨ high = block 0 n n ∧ IsBitonic low

theorem map_range_congr {n : Nat} {p q : Nat → Prop} [DecidablePred p] [DecidablePred q]
    {f : Nat → Bool} (hf : ∀ i < n, f i = decide (p i)) (h : ∀ i < n, p i ↔ q i) :
    (List.range n).map f = (List.range n).map fun i => decide (q i) :=
  List.map_congr_left fun i hi => by
    have hi := List.mem_range.mp hi
    rw [hf i hi, decide_eq_decide]
    exact h i hi

theorem clean_block (a b n : Nat) : Cleaned n
    (List.zipWith and ((block a b (n + n)).take n) ((block a b (n + n)).drop n))
    (List.zipWith or ((block a b (n + n)).take n) ((block a b (n + n)).drop n)) := by
  have hand {p : Nat → Prop} [DecidablePred p]
      (h : ∀ i < n, (a ≤ i ∧ i < b) ∧ (a ≤ n + i ∧ n + i < b) ↔ p i) :
      List.zipWith and ((block a b (n + n)).take n) ((block a b (n + n)).drop n) =
        (List.range n).map fun i => decide (p i) := by
    rw [zipWith_halves_block]
    exact map_range_congr (fun i _ => (Bool.decide_and _ _).symm) h
  have hor {p : Nat → Prop} [DecidablePred p]
      (h : ∀ i < n, (a ≤ i ∧ i < b) ∨ (a ≤ n + i ∧ n + i < b) ↔ p i) :
      List.zipWith or ((block a b (n + n)).take n) ((block a b (n + n)).drop n) =
        (List.range n).map fun i => decide (p i) := by
    rw [zipWith_halves_block]
    exact map_range_congr (fun i _ => (Bool.decide_or _ _).symm) h
  have hbitonic {l : List Bool} {c d : Nat} (h : l = block c d n) : IsBitonic l :=
    ⟨c, d, Or.inl (by rw [h, length_block])⟩
  by_cases hlow : n ≤ a
  · exact ⟨Or.inl ⟨hand fun i hi => by omega,
      hbitonic (c := a - n) (d := b - n) (hor fun i hi => by omega)⟩⟩
  by_cases hhigh : b ≤ n
  · exact ⟨Or.inl ⟨hand fun i hi => by omega,
      hbitonic (c := a) (d := b) (hor fun i hi => by omega)⟩⟩
  by_cases hgap : b - n ≤ a
  · -- the block begins behind its end in the other half: a gap is left between
    refine ⟨Or.inl ⟨hand fun i hi => by omega, b - n, a, Or.inr ?_⟩⟩
    rw [hor (p := fun i => ¬(b - n ≤ i ∧ i < a)) fun i hi => by omega, List.length_map,
      List.length_range, block, List.map_map]
    exact List.map_congr_left fun i _ => decide_not
  · exact ⟨Or.inr ⟨hor fun i hi => by omega,
      hbitonic (c := a) (d := b - n) (hand fun i hi => by omega)⟩⟩

theorem clean {l : List Bool} {n : Nat} (h : IsBitonic l) (hlength : l.length = n + n) :
    Cleaned n (List.zipWith and (l.take n) (l.drop n)) (List.zipWith or (l.take n) (l.drop n)) := by
  obtain ⟨a, b, hl | hl⟩ := h
  · rw [hl, hlength]
    exact clean_block a b n
  · -- the other letters: what was constant below is constant above
    rw [hl, hlength, ← List.map_take, ← List.map_drop, ← map_not_zipWith_or, ← map_not_zipWith_and]
    have hzero : (block 0 0 n).map not = block 0 n n := by
      rw [block, block, List.map_map]
      exact List.map_congr_left fun i hi => by simpa using List.mem_range.mp hi
    have hall : (block 0 n n).map not = block 0 0 n := by
      rw [block, block, List.map_map]
      exact List.map_congr_left fun i hi => by simpa using List.mem_range.mp hi
    rcases (clean_block a b n).halves with ⟨hlow, hhigh⟩ | ⟨hhigh, hlow⟩
    · exact ⟨Or.inr ⟨(congrArg _ hlow).trans hzero, hhigh.map_not⟩⟩
    · exact ⟨Or.inl ⟨(congrArg _ hhigh).trans hall, hlow.map_not⟩⟩

/-- Constant lists stay as they are. -/
theorem merge_replicate {b : Bool} {levels : Nat} :
    merge and or levels (List.replicate (2 ^ levels) b) = List.replicate (2 ^ levels) b := by
  induction levels with
  | zero => rfl
  | succ levels ih =>
    have hhalf : 2 ^ (levels + 1) = 2 ^ levels + 2 ^ levels := by rw [Nat.pow_succ, Nat.mul_two]
    have hzip (f : Bool → Bool → Bool) (hf : f b b = b) : List.zipWith f
        ((List.replicate (2 ^ (levels + 1)) b).take (2 ^ levels))
        ((List.replicate (2 ^ (levels + 1)) b).drop (2 ^ levels)) =
          List.replicate (2 ^ levels) b := by
      rw [List.take_replicate, List.drop_replicate, hhalf, Nat.add_sub_cancel,
        Nat.min_eq_left (Nat.le_add_right _ _), List.zipWith_replicate, Nat.min_self, hf]
    rw [merge, hzip and (Bool.and_self b), hzip or (Bool.or_self b), ih, hhalf,
      List.replicate_append_replicate]

theorem block_zero (n : Nat) : block 0 0 n = List.replicate n false := by
  rw [List.eq_replicate_iff]
  simp [block]

theorem block_all (n : Nat) : block 0 n n = List.replicate n true := by
  rw [List.eq_replicate_iff]
  simp [block]

/-- A sorted list of letters. -/
def IsSorted (l : List Bool) : Prop := ∃ a, l = block a l.length l.length

theorem length_merge {α : Type*} {low high : α → α → α} {levels : Nat} {l : List α}
    (h : l.length = 2 ^ levels) : (merge low high levels l).length = 2 ^ levels := by
  induction levels generalizing l with
  | zero => exact h
  | succ levels ih =>
    rw [merge, List.length_append, ih (length_zipWith_halves low h),
      ih (length_zipWith_halves high h), Nat.pow_succ, Nat.mul_two]

theorem isBitonic_of_length_one {l : List Bool} (h : l.length = 1) : IsBitonic l := by
  obtain ⟨b, rfl⟩ := List.length_eq_one_iff.mp h
  cases b with
  | false => exact ⟨0, 0, Or.inl rfl⟩
  | true => exact ⟨0, 1, Or.inl rfl⟩

/-- **The merge sorts bitonic lists.** -/
theorem isSorted_merge {levels : Nat} {l : List Bool} (h : IsBitonic l)
    (hlength : l.length = 2 ^ levels) : IsSorted (merge and or levels l) := by
  induction levels generalizing l with
  | zero =>
    obtain ⟨b, rfl⟩ := List.length_eq_one_iff.mp hlength
    cases b with
    | false => exact ⟨1, rfl⟩
    | true => exact ⟨0, rfl⟩
  | succ levels ih =>
    have hhalf : 2 ^ (levels + 1) = 2 ^ levels + 2 ^ levels := by rw [Nat.pow_succ, Nat.mul_two]
    have hlow := length_zipWith_halves and hlength
    have hhigh := length_zipWith_halves or hlength
    rw [merge]
    rcases (clean h (hlength.trans hhalf)).halves with ⟨hconst, hbitonic⟩ | ⟨hconst, hbitonic⟩
    · obtain ⟨a, ha⟩ := ih hbitonic hhigh
      rw [length_merge hhigh] at ha
      rw [hconst, block_zero, merge_replicate, ha, ← block_zero]
      refine ⟨2 ^ levels + a, ?_⟩
      rw [List.length_append, length_block, length_block]
      apply List.ext_getElem
      · simp
      · intro i h₁ h₂
        simp only [List.getElem_append, getElem_block, length_block]
        simp at h₁
        split <;> rw [decide_eq_decide] <;> omega
    · obtain ⟨a, ha⟩ := ih hbitonic hlow
      rw [length_merge hlow] at ha
      rw [hconst, block_all, merge_replicate, ha, ← block_all]
      refine ⟨min a (2 ^ levels), ?_⟩
      rw [List.length_append, length_block, length_block]
      apply List.ext_getElem
      · simp
      · intro i h₁ h₂
        simp only [List.getElem_append, getElem_block, length_block]
        simp at h₁
        split <;> rw [decide_eq_decide] <;> omega

/-- An ascending half and a descending one are bitonic together. -/
theorem isBitonic_append {l l' : List Bool} (h : IsSorted l) (h' : IsSorted (l'.map not)) :
    IsBitonic (l ++ l') := by
  obtain ⟨a, ha⟩ := h
  obtain ⟨b, hb⟩ := h'
  rw [List.length_map] at hb
  refine ⟨min a l.length, l.length + b, Or.inl ?_⟩
  apply List.ext_getElem
  · simp
  · intro i h₁ h₂
    rw [getElem_block, List.getElem_append]
    split
    · next hi =>
      have hletter : l[i] = decide (a ≤ i ∧ i < l.length) := by
        conv_lhs => rw [List.getElem_of_eq ha hi]
        exact getElem_block _
      rw [hletter, decide_eq_decide]
      omega
    · next hi =>
      have hi' : i - l.length < l'.length := by
        rw [List.length_append] at h₁
        omega
      have hletter : (!l'[i - l.length]) =
          decide (b ≤ i - l.length ∧ i - l.length < l'.length) := by
        have hmap : i - l.length < (l'.map not).length := by rwa [List.length_map]
        rw [← List.getElem_map not (h := hmap), List.getElem_of_eq hb hmap]
        exact getElem_block _
      rw [← Bool.not_not l'[i - l.length], hletter, ← decide_not, decide_eq_decide]
      omega

theorem length_sort {α : Type*} {low high upper lower : α → α → α} {ascending : Bool}
    {levels : Nat} {l : List α} (h : l.length = 2 ^ levels) :
    (sort low high upper lower ascending levels l).length = 2 ^ levels := by
  induction levels generalizing l ascending with
  | zero => exact h
  | succ levels ih =>
    obtain ⟨htake, hdrop⟩ := length_halves h
    refine length_merge ?_
    rw [List.length_append, ih htake, ih hdrop, Nat.pow_succ, Nat.mul_two]

/-- **The network sorts two letters**; in the other direction it sorts the other letters. -/
theorem isSorted_sort {levels : Nat} {l : List Bool} (hlength : l.length = 2 ^ levels) :
    IsSorted (sort and or or and true levels l) ∧
      IsSorted ((sort and or or and false levels l).map not) := by
  induction levels generalizing l with
  | zero =>
    have hbitonic := isBitonic_of_length_one hlength
    have hother : IsSorted (merge and or 0 (l.map not)) :=
      isSorted_merge hbitonic.map_not (by rwa [List.length_map])
    exact ⟨isSorted_merge hbitonic hlength, hother⟩
  | succ levels ih =>
    obtain ⟨htake, hdrop⟩ := length_halves hlength
    have hbitonic := isBitonic_append (ih htake).1 (ih hdrop).2
    have hhalves : (sort and or or and true levels (l.take (2 ^ levels)) ++
        sort and or or and false levels (l.drop (2 ^ levels))).length = 2 ^ (levels + 1) := by
      rw [List.length_append, length_sort htake, length_sort hdrop, Nat.pow_succ, Nat.mul_two]
    refine ⟨isSorted_merge hbitonic hhalves, ?_⟩
    -- descending is ascending in the other letters
    rw [sort]
    refine (map_merge Bool.not_or Bool.not_and).symm ▸ ?_
    exact isSorted_merge hbitonic.map_not (by rwa [List.length_map])

end Letters

/-! ### Any order -/

section Order

variable {α κ : Type*} [LinearOrder κ] (key : α → κ)

/-- A compare-exchange by keys: the elements change places when they are in the wrong order. -/
def keyLow (a b : α) : α := if key b < key a then b else a

def keyHigh (a b : α) : α := if key b < key a then a else b

/-- The compare-exchange in the other direction, which leaves equal keys in their places too. -/
def keyUpper (a b : α) : α := if key a < key b then b else a

def keyLower (a b : α) : α := if key a < key b then a else b

theorem perm_ascending (a b : α) : [keyLow key a b, keyHigh key a b].Perm [a, b] := by
  rw [keyLow, keyHigh]
  split
  · exact List.Perm.swap _ _ _
  · exact List.Perm.refl _

theorem perm_descending (a b : α) : [keyUpper key a b, keyLower key a b].Perm [a, b] := by
  rw [keyUpper, keyLower]
  split
  · exact List.Perm.swap _ _ _
  · exact List.Perm.refl _

section Threshold

variable (c : κ) (a b : α)

/-- At a threshold the lower of two is a conjunction, and the higher a disjunction. -/
theorem threshold_keyLow : decide (c ≤ key (keyLow key a b)) =
    (decide (c ≤ key a) && decide (c ≤ key b)) := by
  rw [keyLow, ← Bool.decide_and, decide_eq_decide]
  split
  · next h => exact ⟨fun hc => ⟨hc.trans h.le, hc⟩, And.right⟩
  · next h => exact ⟨fun hc => ⟨hc, hc.trans (not_lt.mp h)⟩, And.left⟩

theorem threshold_keyHigh : decide (c ≤ key (keyHigh key a b)) =
    (decide (c ≤ key a) || decide (c ≤ key b)) := by
  rw [keyHigh, ← Bool.decide_or, decide_eq_decide]
  split
  · next h => exact ⟨Or.inl, fun hc => hc.elim id fun hc => hc.trans h.le⟩
  · next h => exact ⟨Or.inr, fun hc => hc.elim (fun hc => hc.trans (not_lt.mp h)) id⟩

theorem threshold_keyUpper : decide (c ≤ key (keyUpper key a b)) =
    (decide (c ≤ key a) || decide (c ≤ key b)) := by
  rw [keyUpper, ← Bool.decide_or, decide_eq_decide]
  split
  · next h => exact ⟨Or.inr, fun hc => hc.elim (fun hc => hc.trans h.le) id⟩
  · next h => exact ⟨Or.inl, fun hc => hc.elim id fun hc => hc.trans (not_lt.mp h)⟩

theorem threshold_keyLower : decide (c ≤ key (keyLower key a b)) =
    (decide (c ≤ key a) && decide (c ≤ key b)) := by
  rw [keyLower, ← Bool.decide_and, decide_eq_decide]
  split
  · next h => exact ⟨fun hc => ⟨hc, hc.trans h.le⟩, And.left⟩
  · next h => exact ⟨fun hc => ⟨hc.trans (not_lt.mp h), hc⟩, And.right⟩

end Threshold

/-- The network by keys. -/
def sortBy (levels : Nat) (l : List α) : List α :=
  sort (keyLow key) (keyHigh key) (keyUpper key) (keyLower key) true levels l

variable {levels : Nat} {l : List α}

theorem perm_sortBy (h : l.length = 2 ^ levels) : (sortBy key levels l).Perm l :=
  perm_sort (perm_ascending key) (perm_descending key) h

/-- **The network sorts**, because it sorts at every threshold. -/
theorem pairwise_sortBy (hlength : l.length = 2 ^ levels) :
    (sortBy key levels l).Pairwise fun a b => key a ≤ key b := by
  rw [List.pairwise_iff_getElem]
  intro i j hi hj hij
  -- at the threshold of the earlier one
  generalize hcut : key (sortBy key levels l)[i] = cut
  have hlength' : (l.map fun a => decide (cut ≤ key a)).length = 2 ^ levels := by
    rwa [List.length_map]
  obtain ⟨c, hc⟩ := (isSorted_sort hlength').1
  rw [← map_sort (threshold_keyLow key cut) (threshold_keyHigh key cut)
    (threshold_keyUpper key cut) (threshold_keyLower key cut), ← sortBy, List.length_map] at hc
  have hletter {k : Nat} (hk : k < (sortBy key levels l).length) :
      decide (cut ≤ key (sortBy key levels l)[k]) =
        decide (c ≤ k ∧ k < (sortBy key levels l).length) := by
    have hmap : k < ((sortBy key levels l).map fun a => decide (cut ≤ key a)).length := by
      rwa [List.length_map]
    have hget := List.getElem_of_eq hc hmap
    rwa [List.getElem_map, getElem_block] at hget
  have hci : c ≤ i := ((decide_eq_decide.mp (hletter hi)).mp hcut.ge).1
  exact (decide_eq_decide.mp (hletter hj)).mpr ⟨hci.trans hij.le, hj⟩

end Order

end Bitonic
