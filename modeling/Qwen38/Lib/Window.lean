import Qwen38.Lib.Pipeline

/-!
# Sliding windows

A convolution over a sequence that grows keeps the last rows of its input as its state. A
row is convolved with the rows kept before it and is then kept in the place of the oldest
(`Window.push`); rows that come together are put behind the state and the window slides
over all of them (`Window.slide`), and the state after any of them is a slice of the same
input (`Window.slice`). Both are the same (`Window.slide_append`,
`Window.slice_append`).
-/

namespace Window

variable {α β : Type*}

/-- The rows from `start` to before `stop`. -/
def slice (start stop : Nat) (rows : List α) : List α := (rows.take stop).drop start

/-- The state after a row. -/
def push (state : List α) (x : α) : List α := (state ++ [x]).drop 1

/-- A function of so many consecutive rows, at every place where there are as many. -/
def slide (width : Nat) (f : List α → β) (rows : List α) : List β :=
  (List.range (rows.length + 1 - width)).map fun i => f (slice i (i + width) rows)

variable {state rows : List α} {x : α} {start width : Nat}

@[simp] theorem length_push : (push state x).length = state.length := by simp [push]

theorem push_append (rows : List α) : push state x ++ rows = (state ++ x :: rows).drop 1 := by
  rw [push, ← List.drop_append_of_le_length (by simp), List.append_assoc, List.singleton_append]

/-- The slices of an input are those of the input without its first row. -/
theorem slice_drop_one (start stop : Nat) (rows : List α) :
    slice start stop (rows.drop 1) = slice (start + 1) (stop + 1) rows := by
  rw [slice, slice, List.take_drop, List.drop_drop, Nat.add_comm 1 stop, Nat.add_comm 1 start]

/-- **The state after the first of the rows.** -/
theorem slice_one (state : List α) (x : α) (rows : List α) :
    slice 1 (1 + state.length) (state ++ x :: rows) = push state x := by
  rw [slice, push, Nat.add_comm, ← List.singleton_append, ← List.append_assoc,
    List.take_append_of_le_length (by simp), List.take_of_length_le (by simp)]

/-- **The states after the other rows.** -/
theorem slice_append (state : List α) (x : α) (row : Nat) (rows : List α) :
    slice (row + 1 + 1) (row + 1 + 1 + state.length) (state ++ x :: rows) =
      slice (row + 1) (row + 1 + state.length) (push state x ++ rows) := by
  rw [push_append, slice_drop_one, Nat.add_right_comm (row + 1) state.length 1]

/-- **The window over the state and the rows**: over the state and the first row, and then
over the state after it and the others. -/
theorem slide_append (f : List α → β) (state : List α) (x : α) (rows : List α) :
    slide (state.length + 1) f (state ++ x :: rows) =
      f (state ++ [x]) :: slide (state.length + 1) f (push state x ++ rows) := by
  have hfirst : slice 0 (0 + (state.length + 1)) (state ++ x :: rows) = state ++ [x] := by
    rw [slice, Nat.zero_add, List.drop_zero, ← List.singleton_append, ← List.append_assoc,
      List.take_append_of_le_length (by simp), List.take_of_length_le (by simp)]
  have hcount : (state ++ x :: rows).length + 1 - (state.length + 1) = rows.length + 1 := by
    simp only [List.length_append, List.length_cons]
    omega
  have hrest : (push state x ++ rows).length + 1 - (state.length + 1) = rows.length := by
    simp only [List.length_append, length_push]
    omega
  rw [slide, slide, hcount, hrest, List.range_succ_eq_map, List.map_cons, hfirst, List.map_map]
  refine congrArg _ (List.map_congr_left fun i _ => ?_)
  rw [Function.comp_apply, push_append, slice_drop_one, Nat.succ_eq_add_one,
    Nat.add_right_comm i 1]

end Window
