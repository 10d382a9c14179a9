import Mathlib.Data.List.Rotate
import Mathlib.Tactic.Ring

/-!
# Ring buffers

The last elements of a sequence in a list of cells: the cells fill up from the left, and then the
cursor goes round and overwrites the oldest one. What the cells hold, the oldest first, is the list
from the cursor on and round (`RingBuffer.contents`); a new element takes the place of the oldest in
it (`RingBuffer.contents_fill`, `RingBuffer.contents_overwrite`), so that the contents are a suffix
of what has been put in.
-/

namespace RingBuffer

variable {α : Type*}

/-- The cells that are in use, the oldest first. -/
def contents (cells : List α) (rows cursor : Nat) : List α := (cells.rotate cursor).take rows

variable {cells : List α} {x : α} {rows cursor : Nat}

theorem contents_fill (h : rows < cells.length) :
    contents (cells.set rows x) (rows + 1) 0 = contents cells rows 0 ++ [x] := by
  rw [contents, contents, List.rotate_zero, List.rotate_zero, List.set_eq_take_append_cons_drop,
    if_pos h, List.take_append, List.take_take, List.length_take, Nat.min_eq_left h.le,
    Nat.add_sub_cancel_left, Nat.min_eq_right (Nat.le_succ rows)]
  rfl

/-- The cells are all in use. -/
theorem contents_full (cells : List α) (cursor : Nat) :
    contents cells cells.length cursor = cells.rotate cursor :=
  List.take_of_length_le (List.length_rotate cells cursor).le

theorem exists_split (h : cursor < cells.length) :
    ∃ before oldest after, cells = before ++ oldest :: after ∧ before.length = cursor :=
  ⟨cells.take cursor, cells[cursor], cells.drop (cursor + 1),
    by rw [← List.drop_eq_getElem_cons h, List.take_append_drop],
    List.length_take_of_le h.le⟩

/-- The oldest element is at the cursor. -/
theorem head?_contents (h : cursor < cells.length) :
    (contents cells cells.length cursor).head? = cells[cursor]? := by
  obtain ⟨before, oldest, after, rfl, rfl⟩ := exists_split h
  rw [contents_full, List.rotate_append_length_eq]
  simp

/-- A new element takes its place. -/
theorem contents_overwrite (h : cursor < cells.length) :
    contents (cells.set cursor x) cells.length ((cursor + 1) % cells.length) =
      (contents cells cells.length cursor).drop 1 ++ [x] := by
  obtain ⟨before, oldest, after, rfl, rfl⟩ := exists_split h
  have hset : (before ++ oldest :: after).set before.length x = before ++ [x] ++ after := by simp
  have hlength : (before ++ oldest :: after).length = (before ++ [x] ++ after).length := by simp
  have hnext : before.length + 1 = (before ++ [x]).length := by simp
  rw [hset, contents_full, List.rotate_append_length_eq, hlength, contents_full, List.rotate_mod,
    hnext, List.rotate_append_length_eq]
  simp

end RingBuffer
