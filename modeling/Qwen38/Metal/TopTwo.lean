import Mathlib.Algebra.Order.Monoid.Unbundled.WithTop
import Mathlib.Data.List.GetD
import Mathlib.Data.Prod.Lex
import Mathlib.Order.Fin.Basic
import Qwen38.Lib.TopTwo

/-!
# The two reductions to the best two logits

`top2_indices_kernel` scans all values with one threadgroup, and `head_top2_reduce` runs twice:
over groups of 1024 rows, and over the two best of each group. Either folds records of a value and
an id, best and second best, with `0xffffffff` as the id of none.

A record is below another when its value is smaller, or its id larger at the same value; with
minus infinity as the value of none the sentinel is the least record, so that both reductions are
folds of `TopTwo.push` (`Qwen38.top2_reductions_agree`).
-/

namespace Qwen38

/-- `uint`. -/
abbrev Uint := Fin (2 ^ 32)

/-- The id of no value, `0xffffffffu`. -/
def no_id : Uint := Fin.last _

/-- The best two of a thread. -/
structure BestTwo (V : Type) where
  best_value : V
  second_value : V
  best_id : Uint
  second_id : Uint

section Kernels

variable {V : Type} [LinearOrder V] [OrderBot V]

/-- A thread before its first value. -/
def no_values : BestTwo V := ⟨⊥, ⊥, no_id, no_id⟩

/-- A value of the array. -/
def consider (value : V) (id : Uint) (best : BestTwo V) : BestTwo V :=
  if best.best_value < value ∨ value = best.best_value ∧ id < best.best_id then
    ⟨value, best.best_value, id, best.best_id⟩
  else if id ≠ best.best_id ∧
      (best.second_value < value ∨ value = best.second_value ∧ id < best.second_id) then
    { best with second_value := value, second_id := id }
  else best

/-- One of the two candidates of another thread. -/
def consider_candidate (value : V) (id : Uint) (best : BestTwo V) : BestTwo V :=
  if id = no_id then best else consider value id best

/-- The body of the loop over the strides. -/
def merge_best (best other : BestTwo V) : BestTwo V :=
  consider_candidate other.second_value other.second_id
    (consider_candidate other.best_value other.best_id best)

/-- The loop over the strides, from 128 down to 1. -/
def reduce_threads (threads : Nat → BestTwo V) : BestTwo V := TreeFold.fold merge_best 8 threads

/-- The ids of a thread of `top2_indices_kernel`. -/
def strided_ids (count tid : Nat) : List Nat :=
  ((List.range count).map fun round => tid + 256 * round).filter (· < count)

/-- `top2_indices_kernel`. An id of the table is below `2 ^ 24`, so that `float` is exact. -/
def top2_indices_kernel (values : List V) : BestTwo V :=
  reduce_threads fun tid => (strided_ids values.length tid).foldl
    (fun best id => consider (values.getD id ⊥) (Fin.ofNat _ id) best) no_values

/-- `MlxArray::top2_indices_all`. -/
def top2_indices_all (values : List V) : Except String (Uint × Uint) :=
  if values.length < 2 ∨ 2 ^ 31 - 1 < values.length then
    .error "top-2 reduction requires 2..INT_MAX values"
  else
    let best := top2_indices_kernel values
    .ok (best.best_id, best.second_id)

/-- `head_top2_reduce`, for one group. -/
def head_top2_reduce (logits : Nat → V) (rows : Nat) (input_ids : Nat → Uint) (mapped : Bool)
    (group : Nat) : BestTwo V :=
  reduce_threads fun tid => (List.range 4).foldl
    (fun best offset =>
      let index := group * 1024 + tid * 4 + offset
      if rows ≤ index then best
      else consider (logits index) (if mapped then input_ids index else Fin.ofNat _ index) best)
    no_values

/-- The two dispatches of `encode_head`. -/
def encode_head (logits : List V) : BestTwo V :=
  let rows := logits.length
  let head_groups := (rows + 1023) / 1024
  let group := head_top2_reduce (logits.getD · ⊥) rows (fun _ => 0) false
  head_top2_reduce
    (fun output => if output % 2 = 0 then (group (output / 2)).best_value
      else (group (output / 2)).second_value)
    (head_groups * 2)
    (fun output => if output % 2 = 0 then (group (output / 2)).best_id
      else (group (output / 2)).second_id)
    true 0

/-- The best two of an array: the largest value, and the largest of the others, each at its lowest
id. -/
structure IsTopTwo (values : List V) (first second : Uint) : Prop where
  first_lt : first.val < values.length
  second_lt : second.val < values.length
  ne : first ≠ second
  first_best : ∀ id : Uint, id.val < values.length → id ≠ first →
    values.getD id ⊥ < values.getD first ⊥ ∨
      values.getD id ⊥ = values.getD first ⊥ ∧ first < id
  second_best : ∀ id : Uint, id.val < values.length → id ≠ first → id ≠ second →
    values.getD id ⊥ < values.getD second ⊥ ∨
      values.getD id ⊥ = values.getD second ⊥ ∧ second < id

end Kernels

/-! ### Records in their order -/

section Records

variable {V : Type} [LinearOrder V] [OrderBot V] {values : List V}

/-- A row of the array as a record; what is not in the array has the least value. -/
def record (values : List V) (id : Uint) : V ×ₗ Uintᵒᵈ :=
  toLex (values.getD id ⊥, OrderDual.toDual id)

theorem record_injective : Function.Injective (record values) := fun _ _ h =>
  OrderDual.toDual.injective (congrArg (fun r => (ofLex r).2) h)

theorem record_lt_iff {id other : Uint} : record values other < record values id ↔
    values.getD other ⊥ < values.getD id ⊥ ∨
      values.getD id ⊥ = values.getD other ⊥ ∧ id < other := by
  rw [record, record, Prod.Lex.toLex_lt_toLex, eq_comm]
  rfl

/-- There is no record below the sentinel. -/
theorem record_no_id (h : values.length < 2 ^ 32) : record values no_id = ⊥ := by
  have hlength : values.length ≤ no_id.val := by
    change values.length ≤ 2 ^ 32 - 1
    omega
  rw [record, List.getD_eq_default _ _ hlength]
  rfl

/-- The records of a thread are rows of the array, and the best two of some of them. -/
structure BestOf (values : List V) (ids : Finset Uint) (best : BestTwo V) : Prop where
  best_value : best.best_value = values.getD best.best_id ⊥
  second_value : best.second_value = values.getD best.second_id ⊥
  holds : TopTwo.Holds (ids.image (record values))
    (record values best.best_id, record values best.second_id)

namespace BestOf

variable {ids ids' : Finset Uint} {best other : BestTwo V} {id : Uint}

theorem none (h : values.length < 2 ^ 32) : BestOf values ∅ no_values := by
  have hrecord := record_no_id h
  have hvalue : (⊥ : V) = values.getD no_id ⊥ :=
    (congrArg (fun r => (ofLex r).1) hrecord).symm
  refine ⟨hvalue, hvalue, ?_⟩
  change TopTwo.Holds _ (record values no_id, record values no_id)
  rw [hrecord, Finset.image_empty]
  exact TopTwo.holds_empty

/-- **The kernel's comparison is that of the records.** -/
theorem consider (h : BestOf values ids best) (id : Uint) :
    BestOf values (insert id ids) (consider (values.getD id ⊥) id best) := by
  have hpush := h.holds.push (record values id)
  simp only [TopTwo.push, record_lt_iff, record_injective.ne_iff] at hpush
  rw [Qwen38.consider, h.best_value, h.second_value]
  split
  · next hbest =>
    rw [if_pos hbest, ← Finset.image_insert] at hpush
    exact ⟨rfl, rfl, hpush⟩
  · next hbest =>
    rw [if_neg hbest, ← Finset.image_insert] at hpush
    split
    · next hsecond =>
      rw [if_pos hsecond] at hpush
      exact ⟨rfl, rfl, hpush⟩
    · next hsecond =>
      rw [if_neg hsecond] at hpush
      exact ⟨h.best_value, h.second_value, hpush⟩

/-- The sentinel is passed over, which makes no difference. -/
theorem consider_candidate (hlength : values.length < 2 ^ 32) (h : BestOf values ids best)
    (id : Uint) : BestOf values (insert id ids)
      (consider_candidate (values.getD id ⊥) id best) := by
  rw [Qwen38.consider_candidate]
  split
  · next hid =>
    refine ⟨h.best_value, h.second_value, ?_⟩
    have hpush := h.holds.push (record values id)
    have hbot : record values id = ⊥ := by rw [hid, record_no_id hlength]
    rwa [TopTwo.push, hbot, if_neg not_lt_bot, if_neg fun hc => not_lt_bot hc.2, ← hbot,
      ← Finset.image_insert] at hpush
  · exact h.consider id

/-- **Two threads together.** -/
theorem merge (hlength : values.length < 2 ^ 32) (h : BestOf values ids best)
    (hother : BestOf values ids' other) : BestOf values (ids ∪ ids') (merge_best best other) := by
  have hmerged : BestOf values (insert other.second_id (insert other.best_id ids))
      (merge_best best other) := by
    rw [merge_best, hother.best_value, hother.second_value]
    exact (h.consider_candidate hlength _).consider_candidate hlength _
  refine ⟨hmerged.best_value, hmerged.second_value, ?_⟩
  rw [Finset.image_union]
  have hholds := hmerged.holds
  rw [Finset.image_insert, Finset.image_insert] at hholds
  exact hother.holds.of_insert_insert hholds

/-- **The loop over the strides** leaves the best two of all threads. -/
theorem reduce {parts : Nat → Finset Uint} {threads : Nat → BestTwo V}
    (hlength : values.length < 2 ^ 32)
    (h : ∀ tid < 256, BestOf values (parts tid) (threads tid)) :
    BestOf values ((Finset.range (2 ^ 8)).sup parts) (reduce_threads threads) := by
  have h' : ∀ tid < 2 ^ 8, BestOf values (parts tid) (threads tid) := h
  exact TreeFold.folds (fun hbest hother => hbest.merge hlength hother) h'

/-- A thread's loop over its values. -/
theorem scan (step : BestTwo V → Nat → BestTwo V) (added : Nat → Finset Uint) {items : List Nat}
    (hstep : ∀ item ∈ items, ∀ {ids best}, BestOf values ids best →
      BestOf values (ids ∪ added item) (step best item))
    (h : BestOf values ids best) :
    BestOf values (ids ∪ items.toFinset.biUnion added) (items.foldl step best) := by
  induction items generalizing ids best with
  | nil => simpa using h
  | cons item items ih =>
    rw [List.toFinset_cons, Finset.biUnion_insert, ← Finset.union_assoc, List.foldl_cons]
    exact ih (fun other hother => hstep other (List.mem_cons_of_mem _ hother))
      (hstep item List.mem_cons_self h)

end BestOf

/-- The rows of an array with a property. -/
def rows (count : Nat) (keep : Nat → Prop) [DecidablePred keep] : Finset Uint :=
  Finset.univ.filter fun id => id.val < count ∧ keep id.val

theorem mem_rows {count : Nat} {keep : Nat → Prop} [DecidablePred keep] {id : Uint} :
    id ∈ rows count keep ↔ id.val < count ∧ keep id.val := by
  rw [rows, Finset.mem_filter]
  exact and_iff_right (Finset.mem_univ id)

theorem val_ofNat {index : Nat} (h : index < 2 ^ 32) : (Fin.ofNat (2 ^ 32) index).val = index :=
  Nat.mod_eq_of_lt h

/-- **A dispatch leaves the best two** of the rows that its threads scan. -/
theorem bestOf_reduce_threads {step : Nat → BestTwo V → Nat → BestTwo V} {items : Nat → List Nat}
    (added : Nat → Nat → Finset Uint) (hlength : values.length < 2 ^ 32)
    (hstep : ∀ tid < 256, ∀ item ∈ items tid, ∀ {ids best}, BestOf values ids best →
      BestOf values (ids ∪ added tid item) (step tid best item)) {ids : Finset Uint}
    (hids : ∀ id, id ∈ ids ↔ ∃ tid < 256, ∃ item ∈ items tid, id ∈ added tid item) :
    BestOf values ids (reduce_threads fun tid => (items tid).foldl (step tid) no_values) := by
  have hthreads : ∀ tid < 256, BestOf values ((items tid).toFinset.biUnion (added tid))
      ((items tid).foldl (step tid) no_values) := by
    intro tid htid
    have hscan := (BestOf.none hlength).scan (step tid) (added tid) (hstep tid htid)
    rwa [Finset.empty_union] at hscan
  convert BestOf.reduce hlength hthreads using 1
  ext id
  rw [hids, Finset.mem_sup]
  simp only [Finset.mem_range, Finset.mem_biUnion, List.mem_toFinset]
  exact Iff.rfl

/-! ### The single dispatch -/

theorem mem_strided_ids {count tid id : Nat} :
    id ∈ strided_ids count tid ↔ id < count ∧ tid ≤ id ∧ id % 256 = tid % 256 := by
  rw [strided_ids, List.mem_filter, List.mem_map]
  constructor
  · rintro ⟨⟨round, -, rfl⟩, hlt⟩
    exact ⟨of_decide_eq_true hlt, Nat.le_add_right _ _, Nat.add_mul_mod_self_left _ _ _⟩
  · rintro ⟨hlt, hle, hmod⟩
    refine ⟨⟨(id - tid) / 256, List.mem_range.mpr ?_, ?_⟩, decide_eq_true hlt⟩ <;> omega

theorem bestOf_top2_indices_kernel (hmax : values.length < 2 ^ 32) :
    BestOf values (rows values.length fun _ => True) (top2_indices_kernel values) := by
  refine bestOf_reduce_threads (fun _ id => {Fin.ofNat _ id}) hmax ?_ ?_
  · intro tid _ id hid ids best hbest
    have hlt : id < 2 ^ 32 := lt_of_lt_of_le (mem_strided_ids.mp hid).1 hmax.le
    have hconsider := hbest.consider (Fin.ofNat _ id)
    rwa [val_ofNat hlt, Finset.insert_eq, Finset.union_comm] at hconsider
  · intro id
    rw [mem_rows]
    constructor
    · rintro ⟨hlt, -⟩
      refine ⟨id.val % 256, Nat.mod_lt _ (by decide), id.val, ?_, ?_⟩
      · exact mem_strided_ids.mpr ⟨hlt, Nat.mod_le _ _, (Nat.mod_mod _ _).symm⟩
      · exact Finset.mem_singleton.mpr (Fin.ext (Nat.mod_eq_of_lt id.isLt).symm)
    · rintro ⟨tid, -, item, hitem, hid⟩
      have hlt := (mem_strided_ids.mp hitem).1
      rw [Finset.mem_singleton.mp hid, val_ofNat (hlt.trans hmax)]
      exact ⟨hlt, trivial⟩

/-! ### The two dispatches -/

/-- A group leaves the best two of what it is given, if the ids belong to the values. -/
theorem bestOf_head_top2_reduce {logits : Nat → V} {count : Nat} {input_ids : Nat → Uint}
    {mapped : Bool} {group : Nat} (hlength : values.length < 2 ^ 32)
    (id_at : Nat → Uint)
    (hid : ∀ index < count, id_at index = if mapped then input_ids index else Fin.ofNat _ index)
    (hvalue : ∀ index < count, logits index = values.getD (id_at index) ⊥) {ids : Finset Uint}
    (hids : ∀ id, id ∈ ids ↔ ∃ index < count, index / 1024 = group ∧ id = id_at index) :
    BestOf values ids (head_top2_reduce logits count input_ids mapped group) := by
  refine bestOf_reduce_threads (fun tid offset =>
    if count ≤ group * 1024 + tid * 4 + offset then ∅
    else {id_at (group * 1024 + tid * 4 + offset)}) hlength ?_ ?_
  · intro tid _ offset _ ids best hbest
    dsimp only
    split
    · rwa [Finset.union_empty]
    · next hlt =>
      have hindex := not_le.mp hlt
      rw [hvalue _ hindex, ← hid _ hindex, Finset.union_comm, ← Finset.insert_eq]
      exact hbest.consider _
  · intro id
    rw [hids]
    constructor
    · rintro ⟨index, hindex, hgroup, rfl⟩
      have hsplit : group * 1024 + index % 1024 / 4 * 4 + index % 4 = index := by omega
      refine ⟨index % 1024 / 4, by omega, index % 4, List.mem_range.mpr (by omega), ?_⟩
      rw [hsplit, if_neg (not_le.mpr hindex)]
      exact Finset.mem_singleton_self _
    · rintro ⟨tid, htid, offset, hoffset, hmem⟩
      have hoffset' := List.mem_range.mp hoffset
      split at hmem
      · exact absurd hmem (Finset.notMem_empty id)
      · next hlt => exact ⟨_, not_le.mp hlt, by omega, Finset.mem_singleton.mp hmem⟩

theorem bestOf_encode_head (hmax : values.length ≤ 2 ^ 19) :
    BestOf values (rows values.length fun _ => True) (encode_head values) := by
  have hlength : values.length < 2 ^ 32 := by omega
  rw [encode_head]
  generalize hgroup : head_top2_reduce (values.getD · ⊥) values.length (fun _ => 0) false = group
  generalize hcount : (values.length + 1023) / 1024 = count
  -- the first stage
  have hfirst (part : Nat) :
      BestOf values (rows values.length fun index => index / 1024 = part) (group part) := by
    rw [← hgroup]
    refine bestOf_head_top2_reduce hlength (Fin.ofNat _) (fun _ _ => rfl) ?_ ?_
    · intro index hindex
      rw [val_ofNat (hindex.trans hlength)]
    · intro id
      rw [mem_rows]
      constructor
      · rintro ⟨hlt, hpart⟩
        exact ⟨id.val, hlt, hpart, Fin.ext (Nat.mod_eq_of_lt id.isLt).symm⟩
      · rintro ⟨index, hindex, hpart, rfl⟩
        rw [val_ofNat (hindex.trans hlength)]
        exact ⟨hindex, hpart⟩
  -- the second stage, over the candidates of the first
  have hsecond : BestOf values ((Finset.range count).biUnion fun part =>
      {(group part).best_id, (group part).second_id}) (head_top2_reduce
        (fun output => if output % 2 = 0 then (group (output / 2)).best_value
          else (group (output / 2)).second_value) (count * 2)
        (fun output => if output % 2 = 0 then (group (output / 2)).best_id
          else (group (output / 2)).second_id) true 0) := by
    refine bestOf_head_top2_reduce hlength (fun output =>
      if output % 2 = 0 then (group (output / 2)).best_id else (group (output / 2)).second_id)
      (fun _ _ => rfl) ?_ ?_
    · intro output _
      split
      · exact (hfirst (output / 2)).best_value
      · exact (hfirst (output / 2)).second_value
    · intro id
      simp only [Finset.mem_biUnion, Finset.mem_range, Finset.mem_insert, Finset.mem_singleton]
      constructor
      · rintro ⟨part, hpart, rfl | rfl⟩
        · exact ⟨2 * part, by omega, by omega, by simp⟩
        · refine ⟨2 * part + 1, by omega, by omega, ?_⟩
          rw [if_neg (by omega), show (2 * part + 1) / 2 = part by omega]
      · rintro ⟨output, houtput, -, rfl⟩
        refine ⟨output / 2, by omega, ?_⟩
        split
        · exact Or.inl rfl
        · exact Or.inr rfl
  -- the candidates stand for their groups
  have hrows : (rows values.length fun _ => True) = (Finset.range count).biUnion fun part =>
      rows values.length fun index => index / 1024 = part := by
    ext id
    simp only [Finset.mem_biUnion, Finset.mem_range, mem_rows]
    constructor
    · rintro ⟨hlt, -⟩
      exact ⟨id.val / 1024, by omega, hlt, rfl⟩
    · rintro ⟨part, -, hlt, -⟩
      exact ⟨hlt, trivial⟩
  refine ⟨hsecond.best_value, hsecond.second_value, ?_⟩
  have hholds := hsecond.holds
  rw [hrows, ← Finset.empty_union (Finset.image _ _), Finset.biUnion_image]
  rw [← Finset.empty_union (Finset.image _ _), Finset.biUnion_image] at hholds
  refine TopTwo.Holds.of_candidates (fun part _ => (hfirst part).holds) ?_
  convert hholds using 3
  ext part record
  simp

/-! ### What the best two are -/

theorem record_ne_bot {id : Uint} (hmax : values.length ≤ 2 ^ 19) (h : id.val < values.length) :
    record values id ≠ ⊥ := by
  rw [← record_no_id (show values.length < 2 ^ 32 by omega)]
  refine fun heq => absurd (congrArg Fin.val (record_injective heq)) ?_
  change id.val ≠ 2 ^ 32 - 1
  omega

/-- The best two of all rows are rows, as long as there are two. -/
theorem isTopTwo_of_bestOf {best : BestTwo V} (h2 : 2 ≤ values.length)
    (hmax : values.length ≤ 2 ^ 19) (h : BestOf values (rows values.length fun _ => True) best) :
    IsTopTwo values best.best_id best.second_id := by
  have hholds := h.holds
  have hmem {id : Uint} : record values id ∈
      (rows values.length fun _ => True).image (record values) ↔ id.val < values.length := by
    rw [record_injective.mem_finset_image, mem_rows]
    exact and_iff_left trivial
  -- there is a row, and one that is not the best
  have hfirst : best.best_id.val < values.length := by
    have hzero : ((0 : Uint) : Nat) < values.length := Nat.lt_of_lt_of_le Nat.two_pos h2
    refine hmem.mp (hholds.first_mem fun hbot => record_ne_bot hmax hzero ?_)
    exact le_bot_iff.mp (hbot ▸ hholds.le_first (hmem.mpr hzero))
  have hother : ∃ id : Uint, id.val < values.length ∧ id ≠ best.best_id := by
    by_cases hzero : best.best_id = 0
    · exact ⟨1, Nat.lt_of_lt_of_le Nat.one_lt_two h2, hzero ▸ by decide⟩
    · exact ⟨0, Nat.lt_of_lt_of_le Nat.two_pos h2, fun hc => hzero hc.symm⟩
  have hsecond : record values best.second_id ≠ ⊥ := by
    obtain ⟨id, hid, hne⟩ := hother
    refine fun hbot => record_ne_bot hmax hid (le_bot_iff.mp ?_)
    exact hbot ▸ hholds.le_second (hmem.mpr hid) (record_injective.ne hne)
  obtain ⟨hsecond_mem, hsecond_ne⟩ := hholds.second_mem hsecond
  refine ⟨hfirst, hmem.mp hsecond_mem, fun hc => hsecond_ne (hc ▸ rfl), ?_, ?_⟩
  · intro id hid hne
    have hlt := lt_of_le_of_ne (hholds.le_first (hmem.mpr hid)) (record_injective.ne hne)
    exact (record_lt_iff.mp hlt).imp_right (And.imp_left Eq.symm)
  · intro id hid hne hne'
    have hlt := lt_of_le_of_ne (hholds.le_second (hmem.mpr hid) (record_injective.ne hne))
      (record_injective.ne hne')
    exact (record_lt_iff.mp hlt).imp_right (And.imp_left Eq.symm)

/-- There is one best, and one best of the others. -/
theorem IsTopTwo.unique {first second first' second' : Uint} (h : IsTopTwo values first second)
    (h' : IsTopTwo values first' second') : first = first' ∧ second = second' := by
  have hasymm {a b : Uint} : ¬(record values a < record values b ∧ record values b < record values a) :=
    fun hlt => lt_asymm hlt.1 hlt.2
  have hrecord {a b : Uint} (h : values.getD a ⊥ < values.getD b ⊥ ∨
      values.getD a ⊥ = values.getD b ⊥ ∧ b < a) : record values a < record values b :=
    record_lt_iff.mpr (h.imp_right (And.imp_left Eq.symm))
  have hfirst : first = first' := by
    by_contra hne
    exact hasymm ⟨hrecord (h'.first_best first h.first_lt hne),
      hrecord (h.first_best first' h'.first_lt (Ne.symm hne))⟩
  subst hfirst
  refine ⟨rfl, ?_⟩
  by_contra hne
  exact hasymm ⟨hrecord (h'.second_best second h.second_lt h.ne.symm hne),
    hrecord (h.second_best second' h'.second_lt h'.ne.symm (Ne.symm hne))⟩

/-- **Both reductions find the best two**, of two values or more and up to `2 ^ 19`: the loop of the
host and the tree of the kernels return the same pair. -/
theorem top2_reductions_agree (h2 : 2 ≤ values.length) (hmax : values.length ≤ 2 ^ 19) :
    ∃ first second, IsTopTwo values first second ∧
      top2_indices_all values = .ok (first, second) ∧
      (encode_head values).best_id = first ∧ (encode_head values).second_id = second := by
  have hkernel := isTopTwo_of_bestOf h2 hmax (bestOf_top2_indices_kernel (by omega))
  have hhead := isTopTwo_of_bestOf h2 hmax (bestOf_encode_head hmax)
  obtain ⟨hfirst, hsecond⟩ := hhead.unique hkernel
  refine ⟨_, _, hkernel, ?_, hfirst, hsecond⟩
  rw [top2_indices_all, if_neg (by omega)]

end Records

/-- A maximum that occurs twice, in two groups, and a last group of one row. -/
theorem top2_reductions_agree_twice :
    let values : List (WithBot Nat) := (List.range 1025).map fun id =>
      if 1023 ≤ id then ((11 : Nat) : WithBot Nat) else if id < 17 then ⊥ else ((id % 7 : Nat) : WithBot Nat)
    ∃ first second, IsTopTwo values first second ∧
      top2_indices_all values = .ok (first, second) ∧
      (encode_head values).best_id = first ∧ (encode_head values).second_id = second := by
  intro values
  have hlength : values.length = 1025 := (List.length_map _).trans List.length_range
  exact top2_reductions_agree (by omega) (by omega)

end Qwen38
