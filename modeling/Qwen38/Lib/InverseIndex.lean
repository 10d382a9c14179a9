import Mathlib.Data.List.Nodup
import Mathlib.Data.List.Perm.Basic
import Mathlib.Data.List.Range

/-!
# The inverse of an order

An order of indices is put into a table by writing, at each index, the place where the order has it.
If no index is written twice the table leads back (`InverseIndex.getElem?_write`), and the table of
an order of `0`, `1`, and so on is one again (`InverseIndex.perm_write`).
-/

namespace InverseIndex

/-- The places of the indices of `order`, from `start` on, written into a table. -/
def write (order : List ℕ) (start : ℕ) (table : List ℕ) : List ℕ :=
  (order.zipIdx start).foldl (fun table entry => table.set entry.1 entry.2) table

variable {order order' table : List ℕ} {start place index first count : ℕ}

@[simp] theorem write_nil : write [] start table = table := rfl

@[simp] theorem write_cons :
    write (first :: order) start table = write order (start + 1) (table.set first start) := rfl

/-- Two orders behind one another. -/
theorem write_append (order order' : List ℕ) (start : ℕ) (table : List ℕ) :
    write (order ++ order') start table =
      write order' (start + order.length) (write order start table) := by
  rw [write, List.zipIdx_append, List.foldl_append]
  rfl

@[simp] theorem length_write : (write order start table).length = table.length := by
  induction order generalizing start table with
  | nil => rfl
  | cons first rest ih => rw [write_cons, ih, List.length_set]

theorem getElem?_write_of_notMem (h : index ∉ order) :
    (write order start table)[index]? = table[index]? := by
  induction order generalizing start table with
  | nil => rfl
  | cons first rest ih =>
    rw [List.mem_cons, not_or] at h
    rw [write_cons, ih h.2, List.getElem?_set_ne (Ne.symm h.1)]

/-- **Each index finds its place.** -/
theorem getElem?_write (hnodup : order.Nodup) (hbound : ∀ index ∈ order, index < table.length)
    (hplace : order[place]? = some index) :
    (write order start table)[index]? = some (start + place) := by
  induction order generalizing start table place with
  | nil => simp at hplace
  | cons first rest ih =>
    obtain ⟨hnot, hrest⟩ := List.nodup_cons.mp hnodup
    rw [write_cons]
    cases place with
    | zero =>
      cases hplace
      rw [getElem?_write_of_notMem hnot,
        List.getElem?_set_self (hbound _ List.mem_cons_self), Nat.add_zero]
    | succ place =>
      have hlater : ∀ other ∈ rest, other < (table.set first start).length := by
        intro other hother
        rw [List.length_set]
        exact hbound other (List.mem_cons_of_mem _ hother)
      rw [ih hrest hlater hplace, Nat.add_right_comm, Nat.add_assoc]

/-- **The inverse of a permutation** of the first numbers is one. -/
theorem perm_write (hperm : order.Perm (List.range count)) (hlength : table.length = count) :
    (write order 0 table).Perm (List.range count) := by
  have hnodup : order.Nodup := hperm.nodup_iff.mpr List.nodup_range
  have hbound : ∀ index ∈ order, index < table.length := by
    intro index hindex
    rw [hlength]
    exact List.mem_range.mp (hperm.mem_iff.mp hindex)
  have hcount : order.length = count := by rw [hperm.length_eq, List.length_range]
  have hsub : List.range count ⊆ write order 0 table := by
    intro place hplace
    have hlt : place < order.length := by
      rw [hcount]
      exact List.mem_range.mp hplace
    have hfound := @getElem?_write order table 0 place _ hnodup hbound (List.getElem?_eq_getElem hlt)
    rw [Nat.zero_add] at hfound
    exact List.mem_of_getElem? hfound
  have hsubperm := List.subperm_of_subset List.nodup_range hsub
  refine (hsubperm.perm_of_length_le ?_).symm
  rw [length_write, hlength, List.length_range]

end InverseIndex
