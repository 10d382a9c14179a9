import Qwen38.Layer.SelfAttention

/-!
# The index rows cover every token

The index rows of a full attention are those of its last tokens, from `qsa_raw_start` on,
and its pooled rows are those of its first complete blocks; a token is among the first, or
in one of the second, or both (`SelfAttention.Indexes`). An update keeps that for the tokens
it adds (`SelfAttention.update_of_indexes`), and the state of a verification can be cut back
to each of its rows (`SelfAttention.copy_qsa_checkpoint_of_indexes`), when the window holds
at least a block.
-/

namespace Qwen38

variable {X R : Type}

/-- A state with other index rows. -/
abbrev SelfAttentionState.with_index (state : AttentionState R) (raw_keys : MlxArray R)
    (raw_start : Nat) (pooled_keys : MlxArray R) (pooled_count : Nat) : AttentionState R :=
  { state with
    qsa_raw_keys := raw_keys
    qsa_raw_start := raw_start
    qsa_pooled_keys := pooled_keys
    qsa_pooled_count := pooled_count }

theorem dimension_of {value : Nat} (name : String) (hpos : 0 < value) (hle : value ≤ int_max) :
    dimension value name = .ok value :=
  if_neg fun h => h.elim (by omega) (by omega)

theorem coordinate_of {value : Nat} (name : String) (hle : value ≤ int_max) :
    coordinate value name = .ok value :=
  if_neg (by omega)

namespace MlxArray

theorem shape_some {rows : List R} {count : Nat} :
    MlxArray.Shape (some rows) count ↔ rows.length = count := by
  rw [MlxArray.Shape, Option.map_some, Option.some_inj]

end MlxArray

namespace SelfAttention

variable (attention : SelfAttention X R)

/-- The rows of the first complete blocks of tokens. -/
def pooled_rows (position_base : Nat) (tokens : List X) (count : Nat) : List R :=
  let ratio := attention.indexer_compress_ratio
  (List.range count).map fun block =>
    attention.pool (position_base + block * ratio)
      (Window.slice (block * ratio) (block * ratio + ratio) (tokens.map attention.index_key))

/-- **The index rows of a state are those of these tokens**: each token has a raw row or is
in a pooled block. -/
structure Indexes (tokens : List X) (state : AttentionState R) : Prop where
  start_le : state.qsa_raw_start ≤ state.qsa_pooled_count * attention.indexer_compress_ratio
  pooled_le : state.qsa_pooled_count * attention.indexer_compress_ratio ≤ tokens.length
  raw : tokens ≠ [] →
    state.qsa_raw_keys = some ((tokens.map attention.index_key).drop state.qsa_raw_start)
  pooled : state.qsa_pooled_count ≠ 0 → state.qsa_pooled_keys =
    some (attention.pooled_rows state.position_base tokens state.qsa_pooled_count)

/-- A window of no rows, or of at least a block. -/
def WindowCoversBlock : Prop :=
  attention.qsa_raw_window = 0 ∨ attention.indexer_compress_ratio ≤ attention.qsa_raw_window

/-- The selection of an update that ends with so many tokens. -/
def selection (total : Nat) (packed decode_verification : Bool) : QsaSelection :=
  let ratio := attention.indexer_compress_ratio
  if total / ratio ≤ attention.qsa_selection_budget decode_verification / ratio then .none
  else if packed then .packed else .dense

variable {attention} {ctx tokens input : List X} {state complete checkpoint : AttentionState R}

/-! ### Slices and blocks -/

@[simp] theorem length_pooled_rows (position_base : Nat) (tokens : List X) (count : Nat) :
    (attention.pooled_rows position_base tokens count).length = count := by
  rw [pooled_rows, List.length_map, List.length_range]

/-- The block behind some blocks ends with the tokens of one more. -/
theorem block_end_le {block count : Nat} (ratio : Nat) (h : block < count) :
    block * ratio + ratio ≤ count * ratio := by
  rw [← Nat.succ_mul]
  exact Nat.mul_le_mul_right ratio h

/-- Pooled rows are those of the tokens in their blocks. -/
theorem pooled_rows_congr {position_base count : Nat} {tokens' : List X}
    (h : tokens.take (count * attention.indexer_compress_ratio) =
      tokens'.take (count * attention.indexer_compress_ratio)) :
    attention.pooled_rows position_base tokens count =
      attention.pooled_rows position_base tokens' count := by
  refine List.map_congr_left fun block hblock => ?_
  have hend := block_end_le attention.indexer_compress_ratio (List.mem_range.mp hblock)
  rw [Window.slice, Window.slice, ← List.map_take, ← List.map_take]
  rw [← Nat.min_eq_left hend, ← List.take_take, ← List.take_take, h]

theorem pooled_rows_append {position_base count : Nat} (rest : List X)
    (h : count * attention.indexer_compress_ratio ≤ tokens.length) :
    attention.pooled_rows position_base (tokens ++ rest) count =
      attention.pooled_rows position_base tokens count :=
  pooled_rows_congr (List.take_append_of_le_length h)

theorem pooled_rows_take {position_base count stop : Nat}
    (h : count * attention.indexer_compress_ratio ≤ stop) :
    attention.pooled_rows position_base (tokens.take stop) count =
      attention.pooled_rows position_base tokens count :=
  pooled_rows_congr (by rw [List.take_take, Nat.min_eq_left h])

/-- The first blocks of the pooled rows. -/
theorem take_pooled_rows {position_base count blocks : Nat} (h : blocks ≤ count) :
    (attention.pooled_rows position_base tokens count).take blocks =
      attention.pooled_rows position_base tokens blocks := by
  rw [pooled_rows, pooled_rows, ← List.map_take, List.take_range, Nat.min_eq_left h]

/-- The pooled rows of some blocks and of those behind them. -/
theorem pooled_rows_add (position_base : Nat) (tokens : List X) (first more : Nat) :
    attention.pooled_rows position_base tokens (first + more) =
      attention.pooled_rows position_base tokens first ++ (List.range more).map fun block =>
        attention.pool (position_base + first * attention.indexer_compress_ratio +
            block * attention.indexer_compress_ratio)
          (Window.slice ((first + block) * attention.indexer_compress_ratio)
            ((first + block) * attention.indexer_compress_ratio +
              attention.indexer_compress_ratio)
            (tokens.map attention.index_key)) := by
  rw [pooled_rows, List.range_add, List.map_append, List.map_map]
  refine congrArg₂ _ rfl (List.map_congr_left fun block _ => ?_)
  rw [Function.comp_apply, Nat.add_mul, ← Nat.add_assoc]

/-- A slice of a slice. -/
theorem slice_slice {rows : List R} {first start stop last : Nat} (h : first + stop ≤ last) :
    Window.slice start stop (Window.slice first last rows) =
      Window.slice (first + start) (first + stop) rows := by
  rw [Window.slice, Window.slice, Window.slice, List.take_drop, List.drop_drop, List.take_take,
    Nat.min_eq_left h]

theorem length_slice {rows : List R} {start stop : Nat} (h : stop ≤ rows.length) :
    (Window.slice start stop rows).length = stop - start := by
  rw [Window.slice, List.length_drop, List.length_take, Nat.min_eq_left h]

/-- A slice of rows of which the first are not stored. -/
theorem slice_drop {rows : List R} {first start stop : Nat} (hstart : first ≤ start)
    (hstop : first ≤ stop) :
    Window.slice (start - first) (stop - first) (rows.drop first) =
      Window.slice start stop rows := by
  rw [Window.slice, Window.slice, List.take_drop, List.drop_drop, Nat.add_sub_cancel' hstop,
    Nat.add_sub_cancel' hstart]

/-! ### Appending, pooling and trimming -/

/-- The index rows of new tokens join those there are. -/
theorem append_raw_keys_of_indexes (h : attention.Indexes ctx state)
    (htokens : state.token_count = ctx.length) (hmax : ctx.length ≤ int_max) :
    append_raw_keys (some (input.map attention.index_key)) state =
      .ok (state.with_index (some (((ctx ++ input).map attention.index_key).drop
        state.qsa_raw_start)) state.qsa_raw_start state.qsa_pooled_keys state.qsa_pooled_count) := by
  have hstart : state.qsa_raw_start ≤ ctx.length := Nat.le_trans h.start_le h.pooled_le
  rw [append_raw_keys]
  by_cases hzero : state.token_count = 0
  · have hnil : ctx = [] := List.eq_nil_of_length_eq_zero (htokens ▸ hzero)
    have hraw : state.qsa_raw_start = 0 := by simpa [hnil] using hstart
    rw [if_pos hzero, hnil, hraw]
    rfl
  · have hne : ctx ≠ [] := fun hnil => hzero (by rw [htokens, hnil, List.length_nil])
    have hshape : state.qsa_raw_keys.Shape (state.token_count - state.qsa_raw_start) := by
      rw [h.raw hne, MlxArray.shape_some, List.length_drop, List.length_map, htokens]
    rw [if_neg hzero, Except.throw_if_of_not (by omega), Except.ok_bind,
      coordinate_of _ (by omega), Except.ok_bind, Except.throw_if_of_not (not_not.mpr hshape),
      Except.ok_bind, h.raw hne]
    rw [List.map_append, List.drop_append_of_le_length (by simpa using hstart)]
    rfl

/-- With the index rows of the tokens behind, the pooled rows are still those of the first
blocks. -/
theorem Indexes.append (h : attention.Indexes ctx state) (input : List X) :
    attention.Indexes (ctx ++ input) (state.with_index
      (some (((ctx ++ input).map attention.index_key).drop state.qsa_raw_start))
      state.qsa_raw_start state.qsa_pooled_keys state.qsa_pooled_count) where
  start_le := h.start_le
  pooled_le := Nat.le_trans h.pooled_le (by simp)
  raw := fun _ => rfl
  pooled := fun hne => by
    dsimp only
    rw [pooled_rows_append input h.pooled_le]
    exact h.pooled hne

/-- **Pooling**: the blocks that are complete are pooled, and never is a row of them gone. -/
theorem materialize_of_indexes (h : attention.Indexes tokens state) (hne : tokens ≠ [])
    (hmax : tokens.length ≤ int_max) :
    ∃ pooled_keys, attention.materialize_qsa_pools state tokens.length =
        .ok (state.with_index state.qsa_raw_keys state.qsa_raw_start pooled_keys
          (tokens.length / attention.indexer_compress_ratio)) ∧
      attention.Indexes tokens (state.with_index state.qsa_raw_keys state.qsa_raw_start
        pooled_keys (tokens.length / attention.indexer_compress_ratio)) := by
  have hratio := attention.ratio_pos
  have hle : state.qsa_pooled_count ≤ tokens.length / attention.indexer_compress_ratio :=
    (Nat.le_div_iff_mul_le hratio).mpr h.pooled_le
  have hblocks := Nat.div_mul_le_self tokens.length attention.indexer_compress_ratio
  rw [materialize_qsa_pools]
  rw [Except.throw_if_of_not (by omega), Except.ok_bind]
  by_cases hlt : state.qsa_pooled_count < tokens.length / attention.indexer_compress_ratio
  · obtain ⟨more, hmore⟩ := Nat.exists_eq_add_of_lt hlt
    generalize hcount : tokens.length / attention.indexer_compress_ratio = count at *
    have hstop : state.qsa_pooled_count * attention.indexer_compress_ratio +
        attention.indexer_compress_ratio ≤ count * attention.indexer_compress_ratio :=
      block_end_le _ hlt
    have hstart := h.start_le
    have hfirst : count - state.qsa_pooled_count = more + 1 := by omega
    have hrows : count * attention.indexer_compress_ratio -
        state.qsa_pooled_count * attention.indexer_compress_ratio =
          (more + 1) * attention.indexer_compress_ratio := by
      rw [← Nat.sub_mul, hfirst]
    -- the fresh rows are those of the tokens of the new blocks
    have hfresh : MlxArray.slice state.qsa_raw_keys
        (state.qsa_pooled_count * attention.indexer_compress_ratio - state.qsa_raw_start)
        (count * attention.indexer_compress_ratio - state.qsa_raw_start) =
          .ok (some (Window.slice (state.qsa_pooled_count * attention.indexer_compress_ratio)
            (count * attention.indexer_compress_ratio) (tokens.map attention.index_key))) := by
      rw [h.raw hne, MlxArray.slice, slice_drop hstart (by omega)]
    have hshape : MlxArray.Shape (some
        (Window.slice (state.qsa_pooled_count * attention.indexer_compress_ratio)
          (count * attention.indexer_compress_ratio) (tokens.map attention.index_key)))
        ((more + 1) * attention.indexer_compress_ratio) := by
      rw [MlxArray.shape_some, length_slice (by simpa using hblocks), hrows]
    have hmorele : more + 1 ≤ count * attention.indexer_compress_ratio :=
      Nat.le_trans (by omega) (Nat.le_mul_of_pos_right count hratio)
    have hpooled : attention.pooled_rows state.position_base tokens count =
        attention.pooled_rows state.position_base tokens state.qsa_pooled_count ++
          (List.range (more + 1)).map fun block =>
            attention.pool (state.position_base +
                state.qsa_pooled_count * attention.indexer_compress_ratio +
                block * attention.indexer_compress_ratio)
              (Window.slice (block * attention.indexer_compress_ratio)
                (block * attention.indexer_compress_ratio + attention.indexer_compress_ratio)
                (Window.slice (state.qsa_pooled_count * attention.indexer_compress_ratio)
                  (count * attention.indexer_compress_ratio)
                  (tokens.map attention.index_key))) := by
      rw [show count = state.qsa_pooled_count + (more + 1) by omega, pooled_rows_add]
      refine congrArg₂ _ rfl (List.map_congr_left fun block hblock => ?_)
      have hend := block_end_le attention.indexer_compress_ratio (List.mem_range.mp hblock)
      rw [slice_slice (by rw [Nat.add_mul]; omega), Nat.add_mul, ← Nat.add_assoc]
    refine ⟨some (attention.pooled_rows state.position_base tokens count), ?_, ?_⟩
    · rw [if_pos hlt, pool_blocks]
      dsimp only
      rw [Except.throw_if_of_not (by omega), Except.ok_bind, coordinate_of _ (by omega),
        Except.ok_bind, dimension_of _ (by omega) (by omega), Except.ok_bind, hfresh,
        Except.ok_bind, hfirst, dimension_of _ (by omega) (by omega), Except.ok_bind,
        Except.throw_if_of_not (not_not.mpr hshape), Except.ok_bind]
      by_cases hzero : state.qsa_pooled_count = 0
      · rw [if_pos hzero, Except.ok_bind, hpooled, hzero]
        rfl
      · rw [if_neg hzero, h.pooled hzero, hpooled]
        rfl
    · exact ⟨by dsimp only; omega, hblocks, h.raw, fun _ => rfl⟩
  · have heq : state.qsa_pooled_count = tokens.length / attention.indexer_compress_ratio := by
      omega
    refine ⟨state.qsa_pooled_keys, ?_, ?_⟩
    · rw [if_neg hlt, ← heq]
    · rw [← heq]
      exact h

/-- What of the index rows is trimmed is pooled, and is not needed to cut back the tokens
that were added. -/
theorem trim_of_indexes (h : attention.Indexes tokens state)
    (hwindow : attention.WindowCoversBlock) (hne : tokens ≠ []) (hmax : tokens.length ≤ int_max)
    (rows : Nat) (hpooled : state.qsa_pooled_count =
      tokens.length / attention.indexer_compress_ratio) :
    ∃ raw_keys raw_start, attention.trim_raw_keys rows tokens.length state =
        .ok (state.with_index raw_keys raw_start state.qsa_pooled_keys
          state.qsa_pooled_count) ∧
      attention.Indexes tokens
        (state.with_index raw_keys raw_start state.qsa_pooled_keys state.qsa_pooled_count) ∧
      (raw_start = state.qsa_raw_start ∨
        attention.indexer_compress_ratio ≤ attention.qsa_raw_window ∧
          raw_start = tokens.length - (attention.qsa_raw_window + rows)) := by
  have hratio := attention.ratio_pos
  have hfrontier := Nat.lt_div_mul_add (a := tokens.length) hratio
  rw [trim_raw_keys]
  dsimp only
  by_cases hzero : attention.qsa_raw_window = 0
  · refine ⟨state.qsa_raw_keys, state.qsa_raw_start, ?_, h, Or.inl rfl⟩
    rw [if_pos hzero]
    exact if_neg (by omega)
  -- the window has room for a block, so what is trimmed is pooled
  · have hcovers : attention.indexer_compress_ratio ≤ attention.qsa_raw_window :=
      hwindow.resolve_left hzero
    have hretained : tokens.length - min tokens.length (attention.qsa_raw_window + rows) =
        tokens.length - (attention.qsa_raw_window + rows) := by
      omega
    rw [if_neg hzero, hretained]
    by_cases hgt : tokens.length - (attention.qsa_raw_window + rows) > state.qsa_raw_start
    · refine ⟨some ((tokens.map attention.index_key).drop
        (tokens.length - (attention.qsa_raw_window + rows))), _, ?_, ?_, Or.inr ⟨hcovers, rfl⟩⟩
      · rw [if_pos hgt, coordinate_of _ (by omega), Except.ok_bind, h.raw hne]
        rw [MlxArray.slice, Option.map_some, Option.getD_some, Window.slice, List.take_length,
          List.drop_drop, Nat.add_sub_cancel' (Nat.le_of_lt hgt)]
        rfl
      · refine ⟨?_, h.pooled_le, fun _ => rfl, h.pooled⟩
        dsimp only
        rw [hpooled]
        omega
    · exact ⟨state.qsa_raw_keys, state.qsa_raw_start, if_neg hgt, h, Or.inl rfl⟩

/-- The selection, when the blocks are pooled. -/
theorem select_tokens_of {total block_count : Nat} {packed : Bool} (hblocks : 1 < block_count)
    (hle : block_count * attention.indexer_compress_ratio ≤ total) (hmax : total ≤ int_max)
    (hshape : state.qsa_pooled_keys.Shape block_count) :
    attention.select_tokens state total block_count packed =
      .ok (if packed then .packed else .dense) := by
  have hcount : block_count ≤ block_count * attention.indexer_compress_ratio :=
    Nat.le_mul_of_pos_right block_count attention.ratio_pos
  rw [select_tokens, dimension_of _ (by omega) (by omega), Except.ok_bind,
    Except.throw_if_of_not (not_not.mpr hshape), Except.ok_bind]
  cases packed with
  | true =>
    rw [if_pos rfl, dimension_of _ (by omega) hmax, Except.ok_bind,
      dimension_of _ (by omega) (by omega), if_pos rfl]
    rfl
  | false =>
    rw [if_neg Bool.false_ne_true, dimension_of _ (by omega) (by omega), Except.ok_bind,
      dimension_of _ (by omega) hmax, if_neg Bool.false_ne_true]
    rfl

theorem budget_ge (decode_verification : Bool) :
    attention.indexer_compress_ratio ≤ attention.qsa_selection_budget decode_verification := by
  have hconfigured : attention.indexer_compress_ratio ≤ attention.indexer_budget :=
    Nat.le_of_dvd attention.budget_pos (Nat.dvd_of_mod_eq_zero attention.budget_mod)
  rw [qsa_selection_budget]
  cases decode_verification with
  | false => exact hconfigured
  | true =>
    rw [if_pos rfl]
    cases hbudget : attention.decode_budget with
    | none => exact hconfigured
    | some parsed => exact (attention.decode_budget_admitted parsed hbudget).1

/-- **An update never throws**, its index rows are those of all tokens, and they can be cut
back to any of the tokens that were added. -/
theorem update_of_indexes (hwindow : attention.WindowCoversBlock)
    (h : attention.Indexes ctx state) (htokens : state.token_count = ctx.length)
    (hinput : input ≠ []) (hmax : (ctx ++ input).length ≤ int_max)
    (packed decode_verification : Bool) :
    ∃ raw_keys raw_start pooled_keys pooled_count,
      attention.update_qsa_and_build_mask input state packed decode_verification =
        .ok (state.with_index raw_keys raw_start pooled_keys pooled_count,
          attention.selection (ctx ++ input).length packed decode_verification) ∧
      attention.Indexes (ctx ++ input)
        (state.with_index raw_keys raw_start pooled_keys pooled_count) ∧
      ∀ tokens, ctx.length ≤ tokens →
        raw_start ≤ tokens / attention.indexer_compress_ratio *
          attention.indexer_compress_ratio := by
  have hratio := attention.ratio_pos
  have hlength : state.token_count + input.length = (ctx ++ input).length := by
    rw [List.length_append, htokens]
  have hctx : ctx.length ≤ (ctx ++ input).length := by simp
  have hne : ctx ++ input ≠ [] := List.append_ne_nil_of_right_ne_nil ctx hinput
  -- the rows that were stored start in a block that was complete before
  have hold (tokens : Nat) (hle : ctx.length ≤ tokens) :
      state.qsa_raw_start ≤ tokens / attention.indexer_compress_ratio *
        attention.indexer_compress_ratio :=
    Nat.le_trans h.start_le (Nat.mul_le_mul_right _
      ((Nat.le_div_iff_mul_le hratio).mpr (Nat.le_trans h.pooled_le hle)))
  have happend := h.append input
  rw [update_qsa_and_build_mask]
  dsimp only
  rw [Except.throw_if_of_not hinput, Except.ok_bind,
    append_raw_keys_of_indexes h htokens (by omega), Except.ok_bind]
  dsimp only
  rw [hlength, selection]
  split
  · exact ⟨_, _, state.qsa_pooled_keys, state.qsa_pooled_count, rfl, happend, hold⟩
  · rename_i hblocks
    have hbudget := Nat.div_le_div_right (c := attention.indexer_compress_ratio)
      (attention.budget_ge decode_verification)
    rw [Nat.div_self hratio] at hbudget
    obtain ⟨pooled_keys, hmaterialize, hindexes⟩ := materialize_of_indexes happend hne hmax
    obtain ⟨raw_keys, raw_start, htrim, htrimmed, hstart⟩ :=
      trim_of_indexes hindexes hwindow hne hmax input.length rfl
    have hshape : pooled_keys.Shape ((ctx ++ input).length / attention.indexer_compress_ratio) := by
      have hpooled := hindexes.pooled (by dsimp only; omega)
      dsimp only at hpooled
      rw [hpooled, MlxArray.shape_some, length_pooled_rows]
    refine ⟨raw_keys, raw_start, pooled_keys, _, ?_, htrimmed, fun tokens hle => ?_⟩
    · rw [hmaterialize, Except.ok_bind, htrim, Except.ok_bind,
        select_tokens_of (by omega) (Nat.div_mul_le_self _ _) hmax hshape]
      rfl
    · rcases hstart with hsame | ⟨hcovers, hcut⟩
      · exact hsame ▸ hold tokens hle
      · have hfrontier := Nat.lt_div_mul_add (a := tokens) hratio
        rw [hcut, List.length_append]
        omega

/-! ### Cutting a verification back -/

/-- **A plan never throws**, and keeps what is needed of both kinds of rows. -/
theorem plan_of_indexes (h : attention.Indexes tokens complete) (window : Nat) {tokens_kept : Nat}
    (hle : tokens_kept ≤ tokens.length)
    (hstart : complete.qsa_raw_start ≤ tokens_kept / attention.indexer_compress_ratio *
      attention.indexer_compress_ratio) :
    ∃ plan, plan_qsa_checkpoint tokens.length complete.qsa_pooled_count complete.qsa_raw_start
        tokens_kept attention.indexer_compress_ratio window = .ok plan ∧
      plan.pooled_blocks ≤ complete.qsa_pooled_count ∧
      plan.pooled_blocks * attention.indexer_compress_ratio ≤ tokens_kept ∧
      complete.qsa_raw_start ≤ plan.raw_start ∧
      plan.raw_start ≤ plan.pooled_blocks * attention.indexer_compress_ratio := by
  have hratio := attention.ratio_pos
  have hblocks := Nat.div_mul_le_self tokens_kept attention.indexer_compress_ratio
  have hpooled : complete.qsa_pooled_count ≤ tokens.length / attention.indexer_compress_ratio :=
    (Nat.le_div_iff_mul_le hratio).mpr h.pooled_le
  -- the raw rows reach back to the last block that is kept
  have hfrontier : complete.qsa_raw_start ≤
      min complete.qsa_pooled_count (tokens_kept / attention.indexer_compress_ratio) *
        attention.indexer_compress_ratio := by
    rcases Nat.le_total complete.qsa_pooled_count
      (tokens_kept / attention.indexer_compress_ratio) with hmin | hmin
    · rw [Nat.min_eq_left hmin]
      exact h.start_le
    · rw [Nat.min_eq_right hmin]
      exact hstart
  have hkept : min complete.qsa_pooled_count (tokens_kept / attention.indexer_compress_ratio) *
      attention.indexer_compress_ratio ≤ tokens_kept :=
    Nat.le_trans (Nat.mul_le_mul_right _ (Nat.min_le_right _ _)) hblocks
  rw [plan_qsa_checkpoint]
  dsimp only
  rw [Except.throw_if_of_not (by omega), Except.ok_bind, Except.throw_if_of_not (by omega),
    Except.ok_bind]
  exact ⟨_, rfl, Nat.min_le_left _ _, hkept, Nat.le_max_left _ _,
    Nat.max_le.mpr ⟨hfrontier, Nat.min_le_right _ _⟩⟩

variable (checkpoint) in
/-- **The index rows of a checkpoint** are those of the tokens up to its row. -/
theorem copy_qsa_checkpoint_of_indexes (h : attention.Indexes tokens complete)
    (htokens : complete.token_count = tokens.length) (hmax : tokens.length ≤ int_max)
    {tokens_kept : Nat} (hpos : 0 < tokens_kept) (hle : tokens_kept ≤ tokens.length)
    (hstart : complete.qsa_raw_start ≤ tokens_kept / attention.indexer_compress_ratio *
      attention.indexer_compress_ratio) (hlt : complete.qsa_raw_start < tokens_kept)
    (hbase : checkpoint.position_base = complete.position_base) :
    ∃ raw_keys raw_start pooled_keys pooled_count,
      attention.copy_qsa_checkpoint complete tokens_kept checkpoint =
        .ok (checkpoint.with_index raw_keys raw_start pooled_keys pooled_count) ∧
      attention.Indexes (tokens.take tokens_kept)
        (checkpoint.with_index raw_keys raw_start pooled_keys pooled_count) := by
  have hne : tokens ≠ [] := List.ne_nil_of_length_pos (by omega)
  have hratio := attention.ratio_pos
  obtain ⟨plan, hplan, hblocks, hkept, hge, hcovers⟩ :=
    plan_of_indexes h attention.qsa_raw_window hle hstart
  have hcount : plan.pooled_blocks ≤ plan.pooled_blocks * attention.indexer_compress_ratio :=
    Nat.le_mul_of_pos_right plan.pooled_blocks hratio
  have hraw : complete.qsa_raw_keys.slice (plan.raw_start - complete.qsa_raw_start)
      (tokens_kept - complete.qsa_raw_start) =
        .ok (some (((tokens.take tokens_kept).map attention.index_key).drop plan.raw_start)) := by
    rw [h.raw hne, MlxArray.slice, slice_drop hge (by omega), Window.slice, List.map_take]
  rw [copy_qsa_checkpoint, if_neg (by omega), htokens, hplan, Except.ok_bind,
    coordinate_of _ (by omega), Except.ok_bind, dimension_of _ (by omega) (by omega),
    Except.ok_bind, hraw, Except.ok_bind]
  have hlength : (tokens.take tokens_kept).length = tokens_kept := by
    rw [List.length_take, Nat.min_eq_left hle]
  -- no pooled row is left
  by_cases hzero : plan.pooled_blocks = 0
  · refine ⟨some (((tokens.take tokens_kept).map attention.index_key).drop plan.raw_start),
      plan.raw_start, none, plan.pooled_blocks, ?_, ?_⟩
    · rw [if_neg (not_not.mpr hzero)]
      rfl
    · exact ⟨hcovers, by rw [hlength]; exact hkept, fun _ => rfl, fun hpooled => absurd hzero hpooled⟩
  · refine ⟨some (((tokens.take tokens_kept).map attention.index_key).drop plan.raw_start),
      plan.raw_start, some (attention.pooled_rows complete.position_base tokens plan.pooled_blocks),
      plan.pooled_blocks, ?_, ?_⟩
    · rw [if_pos hzero, dimension_of _ (by omega) (by omega), Except.ok_bind,
        h.pooled (by omega), MlxArray.slice, Window.slice, List.drop_zero,
        take_pooled_rows hblocks]
      rfl
    · refine ⟨hcovers, by rw [hlength]; exact hkept, fun _ => rfl, fun _ => ?_⟩
      dsimp only
      rw [pooled_rows_take hkept]
      exact congrArg (fun base => some (attention.pooled_rows base tokens _)) hbase.symm

end SelfAttention

end Qwen38
