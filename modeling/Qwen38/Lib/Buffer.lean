import Mathlib.Data.List.Basic
import Mathlib.Data.List.DropRight

/-!
# Buffers

A buffer is a list of cells of a fixed length. `Buffer.put` copies cells into it, as `memcpy` does,
and `Buffer.read` takes cells out. What has been put is read back (`Buffer.read_put`), and what
stands elsewhere is as it was (`Buffer.read_put_before`, `Buffer.read_put_after`): the two facts
from which a program's writes to disjoint places are read off.
-/

namespace Buffer

variable {α : Type*}

/-- The cells from an offset on. -/
def read (offset count : Nat) (buffer : List α) : List α := (buffer.drop offset).take count

/-- Cells copied to an offset. -/
def put (offset : Nat) (data buffer : List α) : List α :=
  buffer.take offset ++ data ++ buffer.drop (offset + data.length)

variable {buffer data : List α} {offset count start : Nat}

theorem length_read (h : offset + count ≤ buffer.length) : (read offset count buffer).length = count := by
  rw [read, List.length_take, List.length_drop]
  omega

theorem length_put (h : offset + data.length ≤ buffer.length) :
    (put offset data buffer).length = buffer.length := by
  rw [put, List.length_append, List.length_append, List.length_take, List.length_drop]
  omega

theorem read_zero (h : count = buffer.length) : read 0 count buffer = buffer := by
  rw [read, List.drop_zero, h, List.take_length]

/-- What is put over a whole buffer. -/
theorem put_zero (h : data.length = buffer.length) : put 0 data buffer = data := by
  rw [put, List.take_zero, List.nil_append, Nat.zero_add, h, List.drop_length, List.append_nil]

/-- **What has been put is read back.** -/
theorem read_put (h : offset + data.length ≤ buffer.length) :
    read offset data.length (put offset data buffer) = data := by
  have hlength : (buffer.take offset).length = offset := by
    rw [List.length_take]
    omega
  rw [read, put, List.append_assoc, List.drop_left' hlength, List.take_left]

theorem read_put_before (h : offset + data.length ≤ buffer.length) (hbefore : start + count ≤ offset) :
    read start count (put offset data buffer) = read start count buffer := by
  have hlength : (buffer.take offset).length = offset := by
    rw [List.length_take]
    omega
  rw [read, read, put, List.append_assoc, List.drop_append_of_le_length (by omega),
    List.take_append_of_le_length, List.drop_take, List.take_take, Nat.min_eq_left (by omega)]
  rw [List.length_drop]
  omega

theorem read_put_after (h : offset + data.length ≤ buffer.length)
    (hafter : offset + data.length ≤ start) :
    read start count (put offset data buffer) = read start count buffer := by
  have hlength : (buffer.take offset ++ data).length = offset + data.length := by
    rw [List.length_append, List.length_take]
    omega
  obtain ⟨gap, rfl⟩ := Nat.exists_eq_add_of_le hafter
  rw [read, read, put, ← List.drop_drop, List.drop_left' hlength, List.drop_drop]

/-- A read in two parts. -/
theorem read_add (offset count count' : Nat) (buffer : List α) :
    read offset (count + count') buffer = read offset count buffer ++ read (offset + count) count' buffer := by
  rw [read, read, read, List.take_add, List.drop_drop]

end Buffer
