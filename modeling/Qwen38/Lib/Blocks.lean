import Mathlib.Data.List.Infix
import Mathlib.Data.List.Basic

/-!
# Blocks of a stream

A stream that is looked at block by block, `n` elements at a time: whether one of the complete
blocks so far has a property (`Blocks.HasBlock`), and what is pending behind the last of them. A
counter that starts again with every block is in step with this definition, since the next element
either closes the pending block or joins it (`Blocks.pending_append`, `Blocks.hasBlock_append`).

The elements may come to a stream of events, of which only some carry one. The events up to the
end of the first block with the property are `Blocks.EndsFirst`; a stream has one such beginning
at most (`Blocks.EndsFirst.unique`), and none as long as it has no such block.
-/

namespace Blocks

variable {α β : Type*}

/-- A block of a list, by its number. -/
def block (n k : Nat) (xs : List α) : List α := (xs.drop (n * k)).take n

/-- One of the complete blocks has the property. -/
def HasBlock (n : Nat) (p : List α → Prop) (xs : List α) : Prop :=
  ∃ k, n * (k + 1) ≤ xs.length ∧ p (block n k xs)

/-- The elements behind the last complete block. -/
def pending (n : Nat) (xs : List α) : List α := xs.drop (n * (xs.length / n))

variable {n k : Nat} {p q : List α → Prop} {xs : List α} {x : α}

@[simp] theorem pending_nil (n : Nat) : pending n ([] : List α) = [] := List.drop_nil

theorem not_hasBlock_nil (hn : 0 < n) : ¬HasBlock n p [] := by
  rintro ⟨k, hk, -⟩
  have hpos : 0 < n * (k + 1) := Nat.mul_pos hn k.succ_pos
  rw [List.length_nil] at hk
  omega

theorem length_pending (n : Nat) (xs : List α) : (pending n xs).length = xs.length % n := by
  rw [pending, List.length_drop, Nat.mod_eq_sub_mul_div]

theorem length_pending_lt (hn : 0 < n) (xs : List α) : (pending n xs).length < n := by
  rw [length_pending]
  exact Nat.mod_lt _ hn

/-- A complete block stays as it is when the stream goes on. -/
theorem block_append (h : n * (k + 1) ≤ xs.length) (ys : List α) :
    block n k (xs ++ ys) = block n k xs := by
  rw [Nat.mul_succ] at h
  rw [block, block, List.drop_append_of_le_length (by omega), List.take_append_of_le_length]
  rw [List.length_drop]
  omega

theorem HasBlock.append (h : HasBlock n p xs) (ys : List α) : HasBlock n p (xs ++ ys) := by
  obtain ⟨k, hk, hp⟩ := h
  refine ⟨k, ?_, by rwa [block_append hk]⟩
  rw [List.length_append]
  omega

/-- The number of complete blocks, when an element comes. -/
theorem div_succ (hn : 0 < n) (m : Nat) :
    (m + 1) / n = if m % n + 1 = n then m / n + 1 else m / n := by
  have hdiv := Nat.div_add_mod m n
  have hlt := Nat.mod_lt m hn
  split_ifs with hclosed
  · rw [show m + 1 = n * (m / n + 1) by rw [Nat.mul_succ]; omega, Nat.mul_div_cancel_left _ hn]
  · rw [show m + 1 = m % n + 1 + n * (m / n) by omega, Nat.add_mul_div_left _ _ hn,
      Nat.div_eq_of_lt (by omega), Nat.zero_add]

/-- **The next element** closes the pending block or joins it. -/
theorem pending_append (hn : 0 < n) (xs : List α) (x : α) :
    pending n (xs ++ [x]) = if (pending n xs).length + 1 = n then [] else pending n xs ++ [x] := by
  have hdiv := Nat.div_add_mod xs.length n
  rw [length_pending, pending, List.length_append, List.length_singleton, div_succ hn]
  split_ifs with hclosed
  · refine List.drop_eq_nil_of_le ?_
    rw [List.length_append, List.length_singleton, Nat.mul_succ]
    omega
  · rw [pending, List.drop_append_of_le_length (by omega)]

/-- **What a closed block adds** to the blocks with the property. -/
theorem hasBlock_append (hn : 0 < n) (xs : List α) (x : α) :
    HasBlock n p (xs ++ [x]) ↔
      HasBlock n p xs ∨ (pending n xs).length + 1 = n ∧ p (pending n xs ++ [x]) := by
  have hdiv := Nat.div_add_mod xs.length n
  rw [length_pending]
  constructor
  · rintro ⟨k, hk, hp⟩
    rw [List.length_append, List.length_singleton] at hk
    rcases Nat.lt_or_ge xs.length (n * (k + 1)) with hlast | hbefore
    · have hlength : xs.length + 1 = n * (k + 1) := by omega
      have hnumber : xs.length / n = k := by
        refine Nat.div_eq_of_lt_le ?_ (by rwa [Nat.mul_comm])
        rw [Nat.mul_succ] at hlength
        rw [Nat.mul_comm]
        omega
      rw [hnumber] at hdiv
      rw [Nat.mul_succ] at hlength
      refine Or.inr ⟨by omega, ?_⟩
      rw [block, List.drop_append_of_le_length (by omega), List.take_of_length_le] at hp
      · rwa [pending, hnumber]
      · rw [List.length_append, List.length_drop, List.length_singleton]
        omega
    · exact Or.inl ⟨k, hbefore, by rwa [block_append hbefore] at hp⟩
  · rintro (h | ⟨hclosed, hp⟩)
    · exact h.append [x]
    · refine ⟨xs.length / n, ?_, ?_⟩
      · rw [List.length_append, List.length_singleton, Nat.mul_succ]
        omega
      · rw [block, List.drop_append_of_le_length (by omega), List.take_of_length_le]
        · exact hp
        · rw [List.length_append, List.length_drop, List.length_singleton]
          omega

/-- Two properties that are the same for the blocks of a list. -/
theorem hasBlock_congr (h : ∀ ys, ys.Sublist xs → ys.length = n → (p ys ↔ q ys)) :
    HasBlock n p xs ↔ HasBlock n q xs := by
  refine exists_congr fun k => and_congr_right fun hk => h _ ?_ ?_
  · exact (List.take_sublist _ _).trans (List.drop_sublist _ _)
  · rw [Nat.mul_succ] at hk
    rw [block, List.length_take, List.length_drop]
    omega

/-! ### Streams of events -/

section Events

variable {select : β → Option α} {events before before' after after' : List β} {event : β}

/-- The events end where the first block with the property does. -/
def EndsFirst (n : Nat) (p : List α → Prop) (select : β → Option α) (events : List β) : Prop :=
  HasBlock n p (events.filterMap select) ∧
    ∀ before, before <+: events → before ≠ events → ¬HasBlock n p (before.filterMap select)

theorem hasBlock_filterMap_append (h : HasBlock n p (before.filterMap select)) (after : List β) :
    HasBlock n p ((before ++ after).filterMap select) := by
  rw [List.filterMap_append]
  exact h.append _

/-- The event that completes the first such block. -/
theorem EndsFirst.of_append (hbefore : ¬HasBlock n p (events.filterMap select))
    (h : HasBlock n p ((events ++ [event]).filterMap select)) :
    EndsFirst n p select (events ++ [event]) := by
  refine ⟨h, fun before hbegin hne hblock => hbefore ?_⟩
  obtain ⟨after, rfl⟩ := (List.prefix_concat_iff.mp hbegin).resolve_left hne
  exact hasBlock_filterMap_append hblock after

/-- **There is one first end.** -/
theorem EndsFirst.unique (h : EndsFirst n p select before) (h' : EndsFirst n p select before')
    (heq : before ++ after = before' ++ after') : before = before' ∧ after = after' := by
  have hbefore : before = before' := by
    by_contra hne
    rcases List.prefix_or_prefix_of_prefix (List.prefix_append before after)
      (heq ▸ List.prefix_append before' after') with hbegin | hbegin
    · exact h'.2 before hbegin hne h.1
    · exact h.2 before' hbegin (Ne.symm hne) h'.1
  subst hbefore
  exact ⟨rfl, List.append_cancel_left heq⟩

theorem endsFirst_congr
    (h : ∀ ys, ys.Sublist (events.filterMap select) → ys.length = n → (p ys ↔ q ys)) :
    EndsFirst n p select events ↔ EndsFirst n q select events := by
  refine and_congr (hasBlock_congr h) (forall₃_congr fun before hbegin _ => not_congr ?_)
  exact hasBlock_congr fun ys hys => h ys (hys.trans (hbegin.sublist.filterMap select))

end Events

end Blocks
