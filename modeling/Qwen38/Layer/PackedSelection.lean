import Mathlib.Data.List.Nodup
import Mathlib.Data.List.Range
import Mathlib.Data.List.Sort
import Qwen38.Layer.QsaIndex

/-!
# The tokens of a packed selection and of a dense mask

The end of `SelfAttention::update_qsa_and_build_mask`: from the top blocks of each query row it
makes either a list of token indices with a mask of the list (`QsaRows.packed_selection`), sorted
and padded to one length, or a mask over all tokens (`QsaRows.dense_mask`).

Both stand for the tokens of the chosen blocks and of the last incomplete block, up to the row's own
token (`QsaRows.Selects`). The blocks of a row that are complete end where its incomplete one
begins, so nothing is listed twice. The indices of the incomplete block are sums in
`std::int32_t`, though, and the slots behind the row may reach over its end
(`QsaRows.packed_is_dense_iff`).
-/

namespace Qwen38

/-- A sum or a product of `MLX_INT32` arrays. -/
def int32 (value : Int) : Int := value.bmod (2 ^ 32)

/-- The query rows for which blocks are selected: what is known of them once `block_count` is
found to be above `block_topk`, and `total` to be a dimension. -/
structure QsaRows where
  token_count : Nat
  rows : Nat
  ratio : Nat
  block_topk : Nat
  rows_pos : 0 < rows
  ratio_pos : 0 < ratio
  topk_lt : block_topk < (token_count + rows) / ratio
  total_le : token_count + rows ≤ int_max

namespace QsaRows

variable (q : QsaRows)

def total : Nat := q.token_count + q.rows

def block_count : Nat := q.total / q.ratio

/-- The last part of `top_indices`: distinct blocks for each row. -/
structure TopBlocks where
  top : Nat → List Nat
  length_top : ∀ row < q.rows, (top row).length = q.block_topk
  nodup : ∀ row < q.rows, (top row).Nodup
  lt : ∀ row < q.rows, ∀ block ∈ top row, block < q.block_count

variable (row : Nat) (top : List Nat)

/-- An entry of `positions`. -/
def position : Int := q.token_count + row

/-- An entry of `visible`: the block ends at the row's token or before. -/
def visible (block : Nat) : Bool := (q.ratio - 1 : Int) + block * q.ratio ≤ q.position row

def tail_start : Int := int32 (int32 (q.position row + 1) / q.ratio * q.ratio)

/-! ### The packed selection -/

/-- The tokens of the top blocks, with the mask that they come with. -/
def block_tokens : List (Int × Bool) :=
  top.flatMap fun (block : Nat) =>
    (List.range q.ratio).map fun (offset : Nat) =>
      ((block : Int) * q.ratio + offset, q.visible row block)

/-- The `tail_slots`: `tail_indices` and `tail_valid`. -/
def tail_tokens : List (Int × Bool) :=
  (List.range (q.ratio - 1)).map fun (offset : Nat) =>
    let index := int32 (q.tail_start row + offset)
    let valid := decide (index ≤ q.position row)
    (if valid then index else 0, valid)

/-- `packed_indices` and `packed_mask`: sorted behind a sentinel, which becomes 0 again. -/
def packed_selection : List (Int × Bool) :=
  let sentinel_indices : List Int := (q.block_tokens row top ++ q.tail_tokens row).map fun (token : Int × Bool) =>
    if token.2 then token.1 else ↑q.total
  sentinel_indices.mergeSort.map fun (index : Int) =>
    let valid := decide (index ≤ q.total - 1)
    (if valid then index else 0, valid)

/-- The tokens that the packed selection marks as valid. -/
def marked : List Int := ((q.packed_selection row top).filter (·.2)).map (·.1)

/-! ### The dense mask -/

/-- `selected_tokens`: the chosen blocks over the tokens, then the padding. -/
def selected_tokens : List Bool :=
  let selected := (List.range q.block_count).map fun block =>
    decide (block ∈ top) && q.visible row block
  selected.flatMap (List.replicate q.ratio) ++
    List.replicate (q.total - q.block_count * q.ratio) false

/-- A row of `dense_mask`. -/
def dense_mask : List Bool :=
  List.zipWith (fun (key : Nat) selected =>
      (selected || decide (q.tail_start row ≤ key)) && decide ((key : Int) ≤ q.position row))
    (List.range q.total) (q.selected_tokens row top)

/-! ### What is selected -/

/-- A token that a row attends to: not behind it, and in one of its blocks or in the one that it
does not complete. -/
def Selects (key : Nat) : Prop :=
  key ≤ q.token_count + row ∧
    (key / q.ratio ∈ top ∨ (q.token_count + row + 1) / q.ratio * q.ratio ≤ key)

variable {q row top}

/-! ### Numbers -/

theorem int32_of {value : Int} (hlow : -2 ^ 31 ≤ value) (hhigh : value < 2 ^ 31) :
    int32 value = value := by
  rw [int32, Int.bmod_def]
  split <;> omega

theorem total_lt : q.total < 2 ^ 31 := by
  have hle := q.total_le
  rw [int_max] at hle
  rw [total]
  omega

theorem blocks_le (tokens : Nat) : tokens / q.ratio * q.ratio ≤ tokens := Nat.div_mul_le_self _ _

theorem tail_start_eq (hrow : row < q.rows) :
    q.tail_start row = ((q.token_count + row + 1) / q.ratio * q.ratio : Nat) := by
  have htotal := @total_lt q
  have hle := @blocks_le q (q.token_count + row + 1)
  have hposition : q.position row + 1 = (q.token_count + row + 1 : Nat) := by
    rw [position]
    omega
  rw [total] at htotal
  rw [tail_start, hposition, @int32_of (q.token_count + row + 1 : Nat) (by omega) (by omega),
    ← Int.natCast_ediv, ← Nat.cast_mul, int32_of (by omega) (by omega)]

/-- A block is visible when it is one of those that the row completes. -/
theorem visible_iff {block : Nat} :
    q.visible row block = true ↔ block < (q.token_count + row + 1) / q.ratio := by
  have hmul : (block + 1) * q.ratio = q.ratio + block * q.ratio := by
    rw [Nat.succ_mul, Nat.add_comm]
  have hpos := q.ratio_pos
  rw [visible, decide_eq_true_iff, position, ← Nat.succ_le_iff, Nat.le_div_iff_mul_le hpos, hmul,
    ← Nat.cast_mul]
  omega

/-- A token of a block that the row completes is before the incomplete one. -/
theorem lt_of_done {key blocks : Nat} (h : key / q.ratio < blocks) : key < blocks * q.ratio :=
  (Nat.div_lt_iff_lt_mul q.ratio_pos).mp h

/-- A token of a block that the row does not complete is behind those that it does. -/
theorem le_of_not_done {key blocks : Nat} (h : ¬key / q.ratio < blocks) : blocks * q.ratio ≤ key :=
  (Nat.mul_le_mul_right _ (Nat.not_lt.mp h)).trans (blocks_le key)

/-! ### The dense mask -/

/-- Each entry as often as there are tokens in a block. -/
theorem getElem?_flatMap_replicate {α : Type} {entries : List α} {ratio : Nat} (hpos : 0 < ratio)
    (key : Nat) : (entries.flatMap (List.replicate ratio))[key]? = entries[key / ratio]? := by
  induction entries generalizing key with
  | nil => rfl
  | cons entry entries ih =>
    rw [List.flatMap_cons]
    rcases Nat.lt_or_ge key ratio with hfirst | hlater
    · rw [List.getElem?_append_left (by rwa [List.length_replicate]), List.getElem?_replicate,
        if_pos hfirst, Nat.div_eq_of_lt hfirst, List.getElem?_cons_zero]
    · have hdiv : key / ratio = (key - ratio) / ratio + 1 := Nat.div_eq_sub_div hpos hlater
      rw [List.getElem?_append_right (by rwa [List.length_replicate]), List.length_replicate, ih,
        hdiv, List.getElem?_cons_succ]

theorem length_blocks :
    (((List.range q.block_count).map fun block =>
      decide (block ∈ top) && q.visible row block).flatMap (List.replicate q.ratio)).length =
      q.block_count * q.ratio := by
  rw [List.length_flatMap]
  simp only [List.length_replicate, List.map_const', List.length_map, List.length_range,
    List.sum_replicate_nat]

theorem length_selected_tokens : (q.selected_tokens row top).length = q.total := by
  have hle := @blocks_le q q.total
  rw [selected_tokens, List.length_append, length_blocks, List.length_replicate, block_count]
  omega

/-- A token is marked when its block is a chosen and visible one. -/
theorem getElem?_selected_tokens {key : Nat} (hkey : key < q.total) :
    (q.selected_tokens row top)[key]? = some (decide (key / q.ratio < q.block_count) &&
      (decide (key / q.ratio ∈ top) && q.visible row (key / q.ratio))) := by
  have hpos := q.ratio_pos
  rw [selected_tokens]
  rcases Nat.lt_or_ge key (q.block_count * q.ratio) with hblock | hpad
  · have hlt := (Nat.div_lt_iff_lt_mul hpos).mpr hblock
    rw [List.getElem?_append_left (by rwa [length_blocks]), getElem?_flatMap_replicate hpos,
      List.getElem?_map, List.getElem?_range hlt, Option.map_some, decide_eq_true hlt,
      Bool.true_and]
  · have hge : ¬key / q.ratio < q.block_count :=
      fun h => absurd ((Nat.div_lt_iff_lt_mul hpos).mp h) (by omega)
    have hlength := @length_blocks q row top
    rw [List.getElem?_append_right (by rwa [hlength]), hlength, List.getElem?_replicate,
      if_pos (by omega), decide_eq_false hge, Bool.false_and]

/-- **The true cells of the dense mask** are the selected tokens: those of a selected block, and
those behind the last complete block, none of them after the row's own token. -/
theorem dense_mask_iff (hrow : row < q.rows) (hlt : ∀ block ∈ top, block < q.block_count)
    (key : Nat) : (q.dense_mask row top)[key]? = some true ↔ q.Selects row top key := by
  have hpos := q.ratio_pos
  rcases Nat.lt_or_ge key q.total with hkey | hkey
  · have hcell : (q.dense_mask row top)[key]? = some true ↔
        (key / q.ratio < q.block_count ∧ key / q.ratio ∈ top ∧
            key / q.ratio < (q.token_count + row + 1) / q.ratio ∨
          (q.token_count + row + 1) / q.ratio * q.ratio ≤ key) ∧ key ≤ q.token_count + row := by
      rw [dense_mask, List.getElem?_zipWith, List.getElem?_range hkey, getElem?_selected_tokens hkey]
      simp only [Option.some_inj, Bool.and_eq_true, Bool.or_eq_true, decide_eq_true_iff, visible_iff,
        tail_start_eq hrow, Int.ofNat_le]
      refine and_congr_right fun _ => ?_
      rw [position]
      omega
    rw [hcell, Selects]
    constructor
    · rintro ⟨⟨-, hchosen, -⟩ | htail, hcausal⟩
      · exact ⟨hcausal, Or.inl hchosen⟩
      · exact ⟨hcausal, Or.inr htail⟩
    · rintro ⟨hcausal, hchosen | htail⟩
      -- a chosen block that is not complete at this row is behind the last complete one
      · by_cases hdone : key / q.ratio < (q.token_count + row + 1) / q.ratio
        · exact ⟨Or.inl ⟨hlt _ hchosen, hchosen, hdone⟩, hcausal⟩
        · exact ⟨Or.inr (le_of_not_done hdone), hcausal⟩
      · exact ⟨Or.inr htail, hcausal⟩
  -- behind the keys there is no cell, and no token to select
  · have hlength : (q.dense_mask row top).length = q.total := by
      rw [dense_mask, List.length_zipWith, length_selected_tokens, List.length_range, Nat.min_self]
    rw [List.getElem?_eq_none (by omega)]
    refine iff_of_false (by simp) fun h => ?_
    have hcausal := h.1
    rw [total] at hkey
    omega

/-! ### The packed selection -/

/-- The valid ones of the tokens that are sorted. -/
def valid_tokens (q : QsaRows) (row : Nat) (top : List Nat) : List Int :=
  ((q.block_tokens row top ++ q.tail_tokens row).filter (·.2)).map (·.1)

theorem block_token_le {token : Int × Bool} (h : token ∈ q.block_tokens row top)
    (hvalid : token.2 = true) : token.1 ≤ q.position row := by
  obtain ⟨block, -, hmem⟩ := List.mem_flatMap.mp h
  obtain ⟨offset, hoffset, rfl⟩ := List.mem_map.mp hmem
  have hlt := List.mem_range.mp hoffset
  have hend := of_decide_eq_true hvalid
  dsimp only
  omega

theorem tail_token_le {token : Int × Bool} (h : token ∈ q.tail_tokens row)
    (hvalid : token.2 = true) : token.1 ≤ q.position row := by
  obtain ⟨offset, -, rfl⟩ := List.mem_map.mp h
  dsimp only at hvalid ⊢
  rw [if_pos hvalid]
  exact of_decide_eq_true hvalid

/-- **The packed selection** marks the valid tokens, in another order. -/
theorem marked_perm (hrow : row < q.rows) :
    (q.marked row top).Perm (q.valid_tokens row top) := by
  have hlast : q.position row ≤ q.total - 1 := by
    rw [position, total]
    omega
  -- an index that is not valid is moved behind all tokens, and none that is valid is there
  have hvalid : ∀ token ∈ q.block_tokens row top ++ q.tail_tokens row,
      decide ((if token.2 then token.1 else (q.total : Int)) ≤ q.total - 1) = token.2 := by
    intro token hmem
    cases h : token.2 with
    | false =>
      rw [if_neg Bool.false_ne_true, decide_eq_false_iff_not]
      omega
    | true =>
      rw [if_pos rfl, decide_eq_true_iff]
      rcases List.mem_append.mp hmem with hblock | htail
      · exact (block_token_le hblock h).trans hlast
      · exact (tail_token_le htail h).trans hlast
  have hmarked : q.marked row top = (((q.block_tokens row top ++ q.tail_tokens row).map
      fun (token : Int × Bool) => if token.2 then token.1 else (q.total : Int)).mergeSort).filter
        fun index => decide (index ≤ (q.total : Int) - 1) := by
    rw [marked, packed_selection]
    dsimp only
    rw [List.filter_map, List.map_map]
    refine (List.map_congr_left fun index hmem => ?_).trans (List.map_id _)
    exact if_pos (List.mem_filter.mp hmem).2
  rw [hmarked]
  refine ((List.mergeSort_perm _ _).filter _).trans (List.Perm.of_eq ?_)
  rw [List.filter_map, valid_tokens]
  refine (congrArg _ (List.filter_congr hvalid)).trans ?_
  refine List.map_congr_left fun token hmem => ?_
  rw [if_pos (List.mem_filter.mp hmem).2]

/-- The tokens of a block. -/
def tokens_of (q : QsaRows) (block : Nat) : List Int :=
  (List.range q.ratio).map fun (offset : Nat) => (block : Int) * q.ratio + offset

theorem mem_tokens_of {block : Nat} {key : Int} :
    key ∈ q.tokens_of block ↔ ∃ k : Nat, (k : Int) = key ∧ k / q.ratio = block := by
  have hpos := q.ratio_pos
  rw [tokens_of, List.mem_map]
  constructor
  · rintro ⟨offset, hoffset, rfl⟩
    refine ⟨q.ratio * block + offset, ?_, ?_⟩
    · rw [Nat.cast_add, Nat.cast_mul, Int.mul_comm]
    · rw [Nat.mul_add_div hpos, Nat.div_eq_of_lt (List.mem_range.mp hoffset), Nat.add_zero]
  · rintro ⟨k, rfl, rfl⟩
    refine ⟨k % q.ratio, List.mem_range.mpr (Nat.mod_lt k hpos), ?_⟩
    have := Nat.div_add_mod' k q.ratio
    rw [← Nat.cast_mul]
    omega

theorem nodup_tokens_of (block : Nat) : (q.tokens_of block).Nodup := by
  refine List.nodup_range.map fun i j h => ?_
  have : (block : Int) * q.ratio + i = block * q.ratio + j := h
  omega

/-- The valid tokens of the chosen blocks are those of the visible ones. -/
theorem valid_block_tokens : ((q.block_tokens row top).filter (·.2)).map (·.1) =
    (top.filter (q.visible row)).flatMap q.tokens_of := by
  induction top with
  | nil => rfl
  | cons block top ih =>
    rw [block_tokens] at ih ⊢
    rw [List.flatMap_cons, List.filter_append, List.map_append, ih, List.filter_map]
    cases h : q.visible row block with
    | true =>
      rw [List.filter_cons_of_pos h, List.flatMap_cons]
      refine congrArg (· ++ _) ?_
      rw [tokens_of, List.map_map]
      exact congrArg _ (List.filter_eq_self.mpr fun _ _ => rfl)
    | false =>
      rw [List.filter_cons_of_neg (by rw [h]; exact Bool.false_ne_true)]
      refine (congrArg (· ++ _) ?_).trans (List.nil_append _)
      rw [List.map_map, List.map_eq_nil_iff]
      exact List.filter_eq_nil_iff.mpr fun _ _ => Bool.false_ne_true

theorem nodup_valid_block_tokens (hnodup : top.Nodup) :
    (((q.block_tokens row top).filter (·.2)).map (·.1)).Nodup := by
  rw [valid_block_tokens, List.nodup_flatMap]
  refine ⟨fun block _ => nodup_tokens_of block, (hnodup.filter _).imp ?_⟩
  intro i j hne key hi hj
  obtain ⟨k, rfl, rfl⟩ := mem_tokens_of.mp hi
  obtain ⟨k', heq, rfl⟩ := mem_tokens_of.mp hj
  rw [Int.ofNat_inj] at heq
  exact hne (by rw [heq])

theorem mem_valid_block_tokens {key : Int} :
    key ∈ ((q.block_tokens row top).filter (·.2)).map (·.1) ↔
      ∃ k : Nat, (k : Int) = key ∧ k / q.ratio ∈ top ∧
        k / q.ratio < (q.token_count + row + 1) / q.ratio := by
  rw [valid_block_tokens, List.mem_flatMap]
  simp only [List.mem_filter, visible_iff, mem_tokens_of]
  constructor
  · rintro ⟨block, ⟨hmem, hdone⟩, k, rfl, rfl⟩
    exact ⟨k, rfl, hmem, hdone⟩
  · rintro ⟨k, rfl, hmem, hdone⟩
    exact ⟨_, ⟨hmem, hdone⟩, k, rfl, rfl⟩

/-! ### The slots of the tail -/

/-- The tail of a row does not leave the `std::int32_t`. -/
def TailFits (q : QsaRows) (row : Nat) : Prop :=
  (q.token_count + row + 1) / q.ratio * q.ratio + q.ratio ≤ 2 ^ 31 + 1

/-- A slot of the tail that fits. -/
theorem tail_index (hrow : row < q.rows) {offset : Nat}
    (hfits : (q.token_count + row + 1) / q.ratio * q.ratio + offset < 2 ^ 31) :
    int32 (q.tail_start row + offset) =
      ((q.token_count + row + 1) / q.ratio * q.ratio + offset : Nat) := by
  rw [tail_start_eq hrow, ← Nat.cast_add, int32_of (by omega) (by omega)]

/-- The valid tokens of a tail that fits. -/
theorem valid_tail_tokens (hrow : row < q.rows) (hfits : q.TailFits row) :
    ((q.tail_tokens row).filter (·.2)).map (·.1) =
      ((List.range (q.ratio - 1)).filter fun offset =>
        (q.token_count + row + 1) / q.ratio * q.ratio + offset ≤ q.token_count + row).map
          fun offset => (((q.token_count + row + 1) / q.ratio * q.ratio + offset : Nat) : Int) := by
  rw [TailFits] at hfits
  have hindex : ∀ offset : Nat, offset ∈ List.range (q.ratio - 1) → int32 (q.tail_start row + offset) =
      ((q.token_count + row + 1) / q.ratio * q.ratio + offset : Nat) := fun offset hmem => by
    have hlt := List.mem_range.mp hmem
    have hslot : (q.token_count + row + 1) / q.ratio * q.ratio + offset < 2 ^ 31 := by omega
    exact tail_index hrow hslot
  have hvalid : ∀ offset : Nat, offset ∈ List.range (q.ratio - 1) →
      decide (int32 (q.tail_start row + offset) ≤ q.position row) =
        decide ((q.token_count + row + 1) / q.ratio * q.ratio + offset ≤ q.token_count + row) := by
    intro offset hmem
    rw [hindex offset hmem, decide_eq_decide, position]
    omega
  simp only [tail_tokens, List.filter_map, List.map_map, Function.comp_def]
  rw [List.filter_congr hvalid]
  refine List.map_congr_left fun offset hmem => ?_
  obtain ⟨hrange, hle⟩ := List.mem_filter.mp hmem
  rw [hvalid offset hrange, if_pos hle, hindex offset hrange]

theorem nodup_valid_tail_tokens (hrow : row < q.rows) (hfits : q.TailFits row) :
    (((q.tail_tokens row).filter (·.2)).map (·.1)).Nodup := by
  rw [valid_tail_tokens hrow hfits]
  refine (List.nodup_range.filter _).map fun i j h => ?_
  have := Int.ofNat_inj.mp h
  omega

/-- The tail reaches from the first token of the incomplete block to the row's own. -/
theorem mem_valid_tail_tokens (hrow : row < q.rows) (hfits : q.TailFits row) {key : Int} :
    key ∈ ((q.tail_tokens row).filter (·.2)).map (·.1) ↔
      ∃ k : Nat, (k : Int) = key ∧ k ≤ q.token_count + row ∧
        (q.token_count + row + 1) / q.ratio * q.ratio ≤ k := by
  rw [valid_tail_tokens hrow hfits, List.mem_map]
  constructor
  · rintro ⟨offset, hmem, rfl⟩
    exact ⟨_, rfl, of_decide_eq_true (List.mem_filter.mp hmem).2, by omega⟩
  · rintro ⟨k, rfl, hcausal, htail⟩
    -- The row's incomplete block has at most `ratio - 1` tokens.
    have hmod := Nat.mod_lt (q.token_count + row + 1) q.ratio_pos
    have hdecomposed := Nat.div_add_mod' (q.token_count + row + 1) q.ratio
    refine ⟨k - (q.token_count + row + 1) / q.ratio * q.ratio, List.mem_filter.mpr
      ⟨List.mem_range.mpr (by omega), decide_eq_true (by omega)⟩, ?_⟩
    rw [Nat.add_sub_cancel' htail]

/-! ### The two selections -/

/-- **Where the tail fits** the packed selection marks every selected token once. The slots of the
blocks and those of the tail are then different tokens, and none of the numbers has wrapped
around. -/
theorem marked_of_fits (hrow : row < q.rows) (hfits : q.TailFits row) (hnodup : top.Nodup) :
    (q.marked row top).Nodup ∧
      ∀ key : Int, key ∈ q.marked row top ↔ ∃ k : Nat, (k : Int) = key ∧ q.Selects row top k := by
  have hperm := @marked_perm q row top hrow
  have hmem (key : Int) : key ∈ q.valid_tokens row top ↔
      ∃ k : Nat, (k : Int) = key ∧ q.Selects row top k := by
    rw [valid_tokens, List.filter_append, List.map_append, List.mem_append, mem_valid_block_tokens,
      mem_valid_tail_tokens hrow hfits]
    constructor
    · rintro (⟨k, rfl, hchosen, hdone⟩ | ⟨k, rfl, hcausal, htail⟩)
      · have hlt := lt_of_done hdone
        have hle := @blocks_le q (q.token_count + row + 1)
        exact ⟨k, rfl, by omega, Or.inl hchosen⟩
      · exact ⟨k, rfl, hcausal, Or.inr htail⟩
    · rintro ⟨k, rfl, hcausal, hchosen | htail⟩
      · by_cases hdone : k / q.ratio < (q.token_count + row + 1) / q.ratio
        · exact Or.inl ⟨k, rfl, hchosen, hdone⟩
        · exact Or.inr ⟨k, rfl, hcausal, le_of_not_done hdone⟩
      · exact Or.inr ⟨k, rfl, hcausal, htail⟩
  refine ⟨hperm.nodup_iff.mpr ?_, fun key => hperm.mem_iff.trans (hmem key)⟩
  rw [valid_tokens, List.filter_append, List.map_append, List.nodup_append']
  refine ⟨nodup_valid_block_tokens hnodup, nodup_valid_tail_tokens hrow hfits, ?_⟩
  intro key hblock htail
  obtain ⟨k, rfl, -, hdone⟩ := mem_valid_block_tokens.mp hblock
  obtain ⟨k', heq, -, hstart⟩ := (mem_valid_tail_tokens hrow hfits).mp htail
  have hlt := lt_of_done hdone
  omega

/-- **Where the tail does not fit** the last slot of it is a token before the first one, and
counts as valid. -/
theorem exists_negative (hrow : row < q.rows) (hfits : ¬q.TailFits row) :
    ∃ key ∈ q.marked row top, key < 0 := by
  have hperm := @marked_perm q row top hrow
  have hmax := @total_lt q
  have hle := @blocks_le q (q.token_count + row + 1)
  have hratio : q.ratio ≤ q.total := by
    have hpos := (Nat.zero_le _).trans_lt q.topk_lt
    exact Nat.le_of_not_lt fun h => hpos.ne' (Nat.div_eq_of_lt h)
  rw [total] at hmax hratio
  rw [TailFits] at hfits
  have hslot : ((q.tail_start row + (q.ratio - 2 : Nat)) : Int) =
      ((q.token_count + row + 1) / q.ratio * q.ratio + (q.ratio - 2) : Nat) := by
    rw [tail_start_eq hrow, Nat.cast_add]
  have hnegative : int32 (q.tail_start row + (q.ratio - 2 : Nat)) < 0 := by
    rw [hslot, int32, Int.bmod_def]
    split <;> omega
  have hvalid : decide (int32 (q.tail_start row + (q.ratio - 2 : Nat)) ≤ q.position row) = true := by
    rw [decide_eq_true_iff, position]
    omega
  have htail : (int32 (q.tail_start row + (q.ratio - 2 : Nat)), true) ∈ q.tail_tokens row := by
    rw [tail_tokens, List.mem_map]
    refine ⟨q.ratio - 2, List.mem_range.mpr (by omega), ?_⟩
    dsimp only
    rw [if_pos hvalid, hvalid]
  generalize int32 (q.tail_start row + (q.ratio - 2 : Nat)) = key at htail hnegative
  have hkey : key ∈ q.valid_tokens row top :=
    List.mem_map.mpr ⟨(key, true), List.mem_filter.mpr ⟨List.mem_append_right _ htail, rfl⟩, rfl⟩
  exact ⟨key, hperm.mem_iff.mpr hkey, hnegative⟩

/-- The tail of the last row reaches furthest. -/
theorem tailFits_of_last (hrow : row < q.rows)
    (h : q.total / q.ratio * q.ratio + q.ratio ≤ 2 ^ 31 + 1) : q.TailFits row := by
  have hle : (q.token_count + row + 1) / q.ratio ≤ q.total / q.ratio :=
    Nat.div_le_div_right (by rw [total]; omega)
  exact (Nat.add_le_add_right (Nat.mul_le_mul_right _ hle) _).trans h

/-- The packed selection and the dense mask of the same blocks are of the same tokens: every row
attends to each of the tokens that it selects once, and to nothing else. -/
def PackedIsDense (q : QsaRows) (blocks : q.TopBlocks) : Prop :=
  ∀ row < q.rows,
    (q.marked row (blocks.top row)).Nodup ∧
      (∀ key : Int, key ∈ q.marked row (blocks.top row) ↔
        ∃ k : Nat, (k : Int) = key ∧ (q.dense_mask row (blocks.top row))[k]? = some true) ∧
      ∀ k : Nat, (q.dense_mask row (blocks.top row))[k]? = some true ↔
        q.Selects row (blocks.top row) k

/-- **The packed selection is the dense mask**, whatever the blocks, exactly where the slots
behind the last complete block fit in `std::int32_t`. -/
theorem packed_is_dense_iff (q : QsaRows) (blocks : q.TopBlocks) :
    q.PackedIsDense blocks ↔ q.total / q.ratio * q.ratio + q.ratio ≤ 2 ^ 31 + 1 := by
  have hrows := q.rows_pos
  have hlast : q.rows - 1 < q.rows := by omega
  constructor
  · intro h
    by_contra hfits
    have htail : ¬q.TailFits (q.rows - 1) := by
      rwa [TailFits, Nat.add_assoc, Nat.sub_add_cancel hrows]
    obtain ⟨key, hmem, hnegative⟩ := @exists_negative q _ (blocks.top (q.rows - 1)) hlast htail
    obtain ⟨k, rfl, -⟩ := ((h _ hlast).2.1 key).mp hmem
    omega
  · intro h row hrow
    have hdense := dense_mask_iff hrow (blocks.lt row hrow)
    obtain ⟨hnodup, hmem⟩ := marked_of_fits hrow (tailFits_of_last hrow h) (blocks.nodup row hrow)
    refine ⟨hnodup, fun key => (hmem key).trans (exists_congr fun k => ?_), hdense⟩
    rw [hdense]

/-- The last row before the end of `std::int32_t`, with a ratio that does not divide it. -/
def at_the_end : QsaRows where
  token_count := 2 ^ 31 - 4
  rows := 1
  ratio := 5
  block_topk := 1
  rows_pos := by decide
  ratio_pos := by decide
  topk_lt := by decide
  total_le := by decide

def first_block : at_the_end.TopBlocks where
  top _ := [0]
  length_top _ _ := rfl
  nodup _ _ := List.nodup_singleton 0
  lt _ _ := by decide

/-- The packed selection of these rows marks a token with a negative index. -/
theorem packed_not_dense :
    -2 ^ 31 ∈ at_the_end.marked 0 (first_block.top 0) ∧ ¬at_the_end.PackedIsDense first_block := by
  have hmem : -2 ^ 31 ∈ at_the_end.marked 0 (first_block.top 0) :=
    (marked_perm Nat.one_pos).mem_iff.mpr (by decide +kernel)
  refine ⟨hmem, fun h => ?_⟩
  obtain ⟨k, hk, -⟩ := ((h 0 Nat.one_pos).2.1 _).mp hmem
  omega

end QsaRows

/-! ### The rows of an update -/

namespace SelfAttention

variable {X R : Type} {attention : SelfAttention X R} {state state' : AttentionState R}

theorem token_count_of_append_raw_keys {raw_keys : MlxArray R}
    (h : append_raw_keys raw_keys state = .ok state') : state'.token_count = state.token_count := by
  rw [append_raw_keys] at h
  split at h
  · cases h
    rfl
  · obtain ⟨_, -, h⟩ := Except.bind_eq_ok.mp h
    obtain ⟨history, -, h⟩ := Except.bind_eq_ok.mp h
    obtain ⟨_, -, h⟩ := Except.bind_eq_ok.mp h
    obtain ⟨raw_keys, -, h⟩ := Except.bind_eq_ok.mp h
    cases h
    rfl

theorem le_of_dimension {value result : Nat} {name : String}
    (h : dimension value name = .ok result) : value ≤ int_max := by
  by_contra hgt
  rw [dimension, if_pos (Or.inr (Nat.lt_of_not_le hgt))] at h
  cases h

/-- A selection is of a number of tokens that is a dimension. -/
theorem total_le_of_select_tokens {total block_count : Nat} {packed : Bool}
    {selection : QsaSelection}
    (h : attention.select_tokens state total block_count packed = .ok selection) :
    total ≤ int_max := by
  obtain ⟨_, -, h⟩ := Except.bind_eq_ok.mp h
  obtain ⟨_, -, h⟩ := Except.bind_eq_ok.mp h
  split at h
  · obtain ⟨_, htotal, -⟩ := Except.bind_eq_ok.mp h
    exact le_of_dimension htotal
  · obtain ⟨_, -, h⟩ := Except.bind_eq_ok.mp h
    obtain ⟨_, htotal, -⟩ := Except.bind_eq_ok.mp h
    exact le_of_dimension htotal

/-- Where an update selects tokens, it does so for rows as above. -/
theorem qsa_rows_of_update {input : List X} {packed decode_verification : Bool}
    {selection : QsaSelection}
    (h : attention.update_qsa_and_build_mask input state packed decode_verification =
      .ok (state', selection)) (hselects : selection ≠ .none) :
    ∃ q : QsaRows, q.token_count = state.token_count ∧ q.rows = input.length ∧
      q.ratio = attention.indexer_compress_ratio ∧
      q.block_topk =
        attention.qsa_selection_budget decode_verification / attention.indexer_compress_ratio := by
  obtain ⟨_, hinput, h⟩ := Except.bind_eq_ok.mp h
  obtain ⟨appended, happended, h⟩ := Except.bind_eq_ok.mp h
  have htokens := token_count_of_append_raw_keys happended
  rw [htokens] at h
  dsimp only at h
  split at h
  · cases h
    exact absurd rfl hselects
  · next htopk =>
    obtain ⟨pooled, -, h⟩ := Except.bind_eq_ok.mp h
    obtain ⟨trimmed, -, h⟩ := Except.bind_eq_ok.mp h
    obtain ⟨selected, hselect, -⟩ := Except.bind_eq_ok.mp h
    exact ⟨{
      token_count := state.token_count
      rows := input.length
      ratio := attention.indexer_compress_ratio
      block_topk :=
        attention.qsa_selection_budget decode_verification / attention.indexer_compress_ratio
      rows_pos := List.length_pos_iff.mpr (Except.throw_if_eq_ok.mp hinput)
      ratio_pos := attention.ratio_pos
      topk_lt := Nat.lt_of_not_le htopk
      total_le := total_le_of_select_tokens hselect }, rfl, rfl, rfl, rfl⟩

end SelfAttention

end Qwen38
