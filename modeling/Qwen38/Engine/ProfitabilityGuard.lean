import Mathlib.Algebra.Order.BigOperators.Group.List
import Mathlib.Data.List.DropRight
import Qwen38.Engine.Mtp
import Qwen38.Lib.RingBuffer

/-!
# The ring buffer of the profitability guard

`MtpProfitabilityGuard` keeps the accepted counts of its window in a ring buffer, with their sum
updated as counts come and go. `Qwen38.MtpProfitabilityGuard` has the window itself; the guard of
the header (`Qwen38.RingBuffer.MtpProfitabilityGuard`) is in step with it (`RingBuffer.Follows`),
and both decide as the whole sequence of the observed rounds says (`fallback`).

The counters are words. The sum of a window does not wrap when sixteen counts fit in a word.
-/

namespace Qwen38

/-! ### The decision, from all rounds -/

/-- The last counts, as many as the window takes. -/
def last_window (history : List Nat) : List Nat :=
  history.drop (history.length - MtpProfitabilityGuard.window_size)

/-- The number of rounds at the end that accepted nothing. -/
def zero_streak (history : List Nat) : Nat := (history.rtakeWhile fun accepted => accepted = 0).length

/-- Before the window is full a streak of empty rounds decides, unless as many tokens as rounds
were accepted; after that the window alone. -/
def fallback (fallback_streak : Nat) (history : List Nat) : Bool :=
  if history.length < MtpProfitabilityGuard.window_size then
    fallback_streak ≤ zero_streak history ∧ history.sum < history.length
  else (last_window history).sum < MtpProfitabilityGuard.window_size

namespace RingBuffer

/-- `MtpProfitabilityGuard`. -/
structure MtpProfitabilityGuard where
  accepted_window : List Nat := List.replicate 16 0
  rounds : Nat := 0
  total_accepted : Nat := 0
  window_rows : Nat := 0
  window_accepted : Nat := 0
  cursor : Nat := 0
  zero_accept_streak : Nat := 0

namespace MtpProfitabilityGuard

/-- `window_size`. -/
def window_size : Nat := 16

/-- `observe`. -/
def observe (guard : MtpProfitabilityGuard) (accepted : Nat) : MtpProfitabilityGuard :=
  let guard := { guard with
    zero_accept_streak := if accepted = 0 then (guard.zero_accept_streak + 1) % 2 ^ 64 else 0
    rounds := (guard.rounds + 1) % 2 ^ 64
    total_accepted := (guard.total_accepted + accepted) % 2 ^ 64 }
  if guard.window_rows < window_size then
    { guard with
      accepted_window := guard.accepted_window.set guard.window_rows accepted
      window_rows := guard.window_rows + 1
      window_accepted := (guard.window_accepted + accepted) % 2 ^ 64 }
  else
    let oldest := guard.accepted_window.getD guard.cursor 0
    { guard with
      accepted_window := guard.accepted_window.set guard.cursor accepted
      window_accepted := ((guard.window_accepted + (2 ^ 64 - oldest)) % 2 ^ 64 + accepted) % 2 ^ 64
      cursor := (guard.cursor + 1) % window_size }

/-- `should_fallback`, with `should_fallback_mtp`. -/
def should_fallback (guard : MtpProfitabilityGuard) (fallback_streak : Nat) : Bool :=
  if guard.window_rows < window_size then
    fallback_streak ≤ guard.zero_accept_streak ∧ guard.total_accepted < guard.rounds
  else guard.window_accepted < window_size

/-- What the subtraction in `observe` needs: the count that goes is part of the sum. -/
def NoUnderflow (guard : MtpProfitabilityGuard) : Prop :=
  window_size ≤ guard.window_rows →
    guard.accepted_window.getD guard.cursor 0 ≤ guard.window_accepted

end MtpProfitabilityGuard

/-! ### The guard over a history -/

/-- The ring buffer holds the window of the history. -/
structure Follows (guard : MtpProfitabilityGuard) (history : List Nat) : Prop where
  length : guard.accepted_window.length = 16
  rounds : guard.rounds = history.length % 2 ^ 64
  total_accepted : guard.total_accepted = history.sum % 2 ^ 64
  zero_accept_streak : guard.zero_accept_streak = zero_streak history % 2 ^ 64
  window_rows : guard.window_rows = min history.length 16
  cursor : guard.cursor < 16
  filling : history.length < 16 → guard.cursor = 0
  contents : RingBuffer.contents guard.accepted_window guard.window_rows guard.cursor =
    last_window history
  window_accepted : guard.window_accepted = (last_window history).sum

variable {guard : MtpProfitabilityGuard} {history : List Nat} {accepted : Nat}

theorem follows_nil : Follows {} [] where
  length := rfl
  rounds := rfl
  total_accepted := rfl
  zero_accept_streak := rfl
  window_rows := rfl
  cursor := Nat.succ_pos 15
  filling _ := rfl
  contents := rfl
  window_accepted := rfl

theorem zero_streak_append (history : List Nat) (accepted : Nat) :
    zero_streak (history ++ [accepted]) =
      if accepted = 0 then zero_streak history + 1 else 0 := by
  rw [zero_streak, zero_streak]
  split
  next h =>
    rw [List.rtakeWhile_concat_pos _ _ _ (by simpa using h), List.length_append,
      List.length_singleton]
  next h => rw [List.rtakeWhile_concat_neg _ _ _ (by simpa using h), List.length_nil]

theorem length_last_window (history : List Nat) :
    (last_window history).length = min history.length 16 := by
  rw [last_window, List.length_drop, Qwen38.MtpProfitabilityGuard.window_size]
  omega

theorem last_window_of_le (h : history.length ≤ 16) : last_window history = history := by
  rw [last_window, Qwen38.MtpProfitabilityGuard.window_size, Nat.sub_eq_zero_of_le h, List.drop_zero]

/-- Counts that fit sixteen times in a word have a window that does. -/
theorem sum_last_window_lt (h : ∀ count ∈ history, count < 2 ^ 60) :
    (last_window history).sum < 2 ^ 64 := by
  have hle : (last_window history).sum ≤ (last_window history).length • (2 ^ 60 - 1) := by
    refine List.sum_le_card_nsmul _ _ fun count hcount => ?_
    have hlt := h count (List.mem_of_mem_drop hcount)
    omega
  rw [length_last_window, nsmul_eq_mul, Nat.cast_id] at hle
  have hmin : min history.length 16 * (2 ^ 60 - 1) ≤ 16 * (2 ^ 60 - 1) :=
    Nat.mul_le_mul_right _ (Nat.min_le_right _ _)
  omega

/-- A full window loses its oldest count. -/
theorem last_window_append (h : 16 ≤ history.length) (accepted : Nat) :
    last_window (history ++ [accepted]) = (last_window history).drop 1 ++ [accepted] := by
  have hdrop : (history ++ [accepted]).length - 16 = history.length - 16 + 1 := by
    rw [List.length_append, List.length_singleton]
    omega
  rw [last_window, last_window, Qwen38.MtpProfitabilityGuard.window_size, hdrop,
    List.drop_append_of_le_length (by omega), List.drop_drop]

/-- The count that goes is the first one of the window. -/
theorem Follows.oldest (h : Follows guard history) (hfull : 16 ≤ history.length) :
    last_window history =
      guard.accepted_window.getD guard.cursor 0 :: (last_window history).drop 1 := by
  have hhead := RingBuffer.head?_contents (h.length.symm ▸ h.cursor)
  have hrows : guard.window_rows = guard.accepted_window.length := by
    rw [h.window_rows, h.length, Nat.min_eq_right hfull]
  rw [← hrows, h.contents] at hhead
  have hlength := length_last_window history
  cases hwindow : last_window history with
  | nil =>
    rw [hwindow, List.length_nil] at hlength
    omega
  | cons oldest rest =>
    rw [hwindow, List.head?_cons] at hhead
    rw [List.getD_eq_getElem?_getD, ← hhead]
    rfl

theorem Follows.noUnderflow (h : Follows guard history) : guard.NoUnderflow := by
  intro hrows
  rw [h.window_rows, MtpProfitabilityGuard.window_size] at hrows
  rw [h.window_accepted, h.oldest (by omega), List.sum_cons]
  exact Nat.le_add_right _ _

/-- One more round, while the buffer fills. -/
theorem Follows.fill (h : Follows guard history) (hlt : history.length < 16)
    (hbound : ∀ count ∈ history ++ [accepted], count < 2 ^ 60) :
    Follows (guard.observe accepted) (history ++ [accepted]) := by
  -- the cursor is still where it started: the rows are at the front of the buffer
  have hrows : guard.window_rows = history.length := by rw [h.window_rows, Nat.min_eq_left hlt.le]
  have hcursor := h.filling hlt
  have hwindow : last_window (history ++ [accepted]) = last_window history ++ [accepted] := by
    rw [last_window_of_le hlt.le, last_window_of_le (by rw [List.length_append]; exact hlt)]
  have hsum := sum_last_window_lt hbound
  rw [MtpProfitabilityGuard.observe, if_pos (by rw [hrows]; exact hlt)]
  refine ⟨?length, ?rounds, ?total, ?streak, ?rows, ?cursor, ?filling, ?contents, ?sum⟩
  case length => exact (List.length_set ..).trans h.length
  case rounds =>
    rw [h.rounds, List.length_append, List.length_singleton, Nat.mod_add_mod]
  case total =>
    rw [h.total_accepted, List.sum_append, List.sum_singleton, Nat.mod_add_mod]
  case streak =>
    simp only [zero_streak_append, h.zero_accept_streak, Nat.mod_add_mod]
    split <;> rfl
  case rows =>
    simp only [hrows, List.length_append, List.length_singleton]
    omega
  case cursor => exact h.cursor
  case filling => exact fun _ => hcursor
  case contents =>
    have hcontents := h.contents
    simp only [hcursor] at hcontents ⊢
    rw [RingBuffer.contents_fill (by rw [hrows, h.length]; exact hlt), hcontents, hwindow]
  case sum =>
    rw [hwindow, List.sum_append, List.sum_singleton] at hsum ⊢
    simp only [h.window_accepted]
    exact Nat.mod_eq_of_lt hsum

/-- One more round, when the buffer is full. -/
theorem Follows.overwrite (h : Follows guard history) (hfull : 16 ≤ history.length)
    (hbound : ∀ count ∈ history ++ [accepted], count < 2 ^ 60) :
    Follows (guard.observe accepted) (history ++ [accepted]) := by
  have hrows : guard.window_rows = 16 := by rw [h.window_rows, Nat.min_eq_right hfull]
  have hwindow := last_window_append hfull accepted
  have hold := sum_last_window_lt fun count hcount => hbound count (List.mem_append_left _ hcount)
  have hsum := sum_last_window_lt hbound
  -- the count under the cursor is the oldest one, and leaves the sum
  have holdest := congrArg List.sum (h.oldest hfull)
  rw [List.sum_cons] at holdest
  rw [MtpProfitabilityGuard.observe, if_neg (by rw [hrows]; exact lt_irrefl 16)]
  refine ⟨?length, ?rounds, ?total, ?streak, ?rows, ?cursor, ?filling, ?contents, ?sum⟩
  case length => exact (List.length_set ..).trans h.length
  case rounds =>
    rw [h.rounds, List.length_append, List.length_singleton, Nat.mod_add_mod]
  case total =>
    rw [h.total_accepted, List.sum_append, List.sum_singleton, Nat.mod_add_mod]
  case streak =>
    simp only [zero_streak_append, h.zero_accept_streak, Nat.mod_add_mod]
    split <;> rfl
  case rows =>
    simp only [hrows, List.length_append, List.length_singleton]
    omega
  case cursor => exact Nat.mod_lt _ (Nat.succ_pos 15)
  case filling =>
    intro hlt
    rw [List.length_append] at hlt
    omega
  case contents =>
    have hcontents := h.contents
    rw [hrows] at hcontents
    have hover := RingBuffer.contents_overwrite (x := accepted) (h.length.symm ▸ h.cursor)
    rw [h.length] at hover
    simp only [hrows, MtpProfitabilityGuard.window_size]
    rw [hover, hcontents, hwindow]
  case sum =>
    rw [hwindow, List.sum_append, List.sum_singleton] at hsum ⊢
    simp only [h.window_accepted]
    omega

theorem Follows.observe (h : Follows guard history)
    (hbound : ∀ count ∈ history ++ [accepted], count < 2 ^ 60) :
    Follows (guard.observe accepted) (history ++ [accepted]) := by
  rcases Nat.lt_or_ge history.length 16 with hlt | hfull
  · exact h.fill hlt hbound
  · exact h.overwrite hfull hbound

/-- **The ring buffer after any rounds.** -/
theorem follows_observe (history : List Nat) (hbound : ∀ count ∈ history, count < 2 ^ 60) :
    Follows (history.foldl MtpProfitabilityGuard.observe {}) history := by
  induction history using List.reverseRecOn with
  | nil => exact follows_nil
  | append_singleton history accepted ih =>
    rw [List.foldl_append]
    exact (ih fun count hcount => hbound count (List.mem_append_left _ hcount)).observe hbound

/-- The decision of the guard is that of its history. -/
theorem Follows.should_fallback (h : Follows guard history)
    (hbound : ∀ count ∈ history, count < 2 ^ 60) (fallback_streak : Nat) :
    guard.should_fallback fallback_streak = fallback fallback_streak history := by
  rw [MtpProfitabilityGuard.should_fallback, fallback, h.window_accepted, h.window_rows,
    MtpProfitabilityGuard.window_size, Qwen38.MtpProfitabilityGuard.window_size]
  rcases Nat.lt_or_ge history.length 16 with hlt | hfull
  · have hsum := sum_last_window_lt hbound
    rw [last_window_of_le hlt.le] at hsum
    have hstreak : zero_streak history < 2 ^ 64 := by
      have hle : zero_streak history ≤ history.length :=
        (List.rtakeWhile_suffix _ history).length_le
      omega
    rw [if_pos (by omega), if_pos hlt, h.zero_accept_streak, h.total_accepted, h.rounds,
      Nat.mod_eq_of_lt hstreak, Nat.mod_eq_of_lt hsum, Nat.mod_eq_of_lt (by omega)]
  · rw [if_neg (by omega), if_neg (by omega)]

end RingBuffer

/-! ### The window and the ring buffer -/

namespace MtpProfitabilityGuard

/-- The guard of the decode loop after any rounds. -/
theorem observe_eq (history : List Nat) :
    history.foldl (fun guard accepted => observe accepted guard) {} =
      ⟨last_window history, history.length, history.sum, zero_streak history⟩ := by
  induction history using List.reverseRecOn with
  | nil => rfl
  | append_singleton history accepted ih =>
    rw [List.foldl_append, ih, List.foldl_cons, List.foldl_nil, observe, RingBuffer.length_last_window,
      window_size, List.length_append, List.length_singleton, List.sum_append, List.sum_singleton,
      RingBuffer.zero_streak_append]
    congr 1
    rcases Nat.lt_or_ge history.length 16 with hlt | hfull
    · have hlt' : (history ++ [accepted]).length ≤ 16 := by
        rw [List.length_append]
        exact hlt
      rw [if_pos (by omega), RingBuffer.last_window_of_le hlt.le, RingBuffer.last_window_of_le hlt']
    · rw [if_neg (by omega), RingBuffer.last_window_append hfull]

/-- **The ring buffer decides as the window does.** -/
theorem should_fallback_eq (history : List Nat) (hbound : ∀ count ∈ history, count < 2 ^ 60)
    (fallback_streak : Nat) :
    (history.foldl (fun guard accepted => observe accepted guard) {}).should_fallback
        fallback_streak =
      (history.foldl RingBuffer.MtpProfitabilityGuard.observe {}).should_fallback
        fallback_streak := by
  rw [(RingBuffer.follows_observe history hbound).should_fallback hbound, observe_eq,
    MtpProfitabilityGuard.should_fallback, fallback, RingBuffer.length_last_window, window_size]
  rcases Nat.lt_or_ge history.length 16 with hlt | hfull
  · rw [if_pos (by omega), if_pos hlt]
  · rw [if_neg (by omega), if_neg (by omega)]

end MtpProfitabilityGuard

/-- **The windowed sum is the sum of the last counts, no subtraction underflows, and the decision
is the one of the whole history.** -/
theorem profitability_guard_of_history (history : List Nat)
    (hbound : ∀ accepted ∈ history, accepted < 2 ^ 60) :
    (history.foldl RingBuffer.MtpProfitabilityGuard.observe {}).window_accepted =
        (last_window history).sum ∧
      (history.foldl RingBuffer.MtpProfitabilityGuard.observe {}).NoUnderflow ∧
      ∀ fallback_streak,
        (history.foldl RingBuffer.MtpProfitabilityGuard.observe {}).should_fallback fallback_streak =
          fallback fallback_streak history := by
  have h := RingBuffer.follows_observe history hbound
  exact ⟨h.window_accepted, h.noUnderflow, h.should_fallback hbound⟩

/-- More rounds than the window has. -/
def eighteen_rounds : List Nat := [3, 4, 2, 1, 0, 2, 1, 3, 0, 0, 1, 2, 0, 4, 1, 0, 0, 2]

theorem profitability_guard_of_history_eighteen :
    (eighteen_rounds.foldl RingBuffer.MtpProfitabilityGuard.observe {}).window_accepted = 19 ∧
      (eighteen_rounds.foldl RingBuffer.MtpProfitabilityGuard.observe {}).NoUnderflow ∧
      ∀ fallback_streak,
        (eighteen_rounds.foldl RingBuffer.MtpProfitabilityGuard.observe {}).should_fallback
            fallback_streak =
          fallback fallback_streak eighteen_rounds :=
  profitability_guard_of_history eighteen_rounds (by decide)

end Qwen38
