import Qwen38.Native.Selection

/-!
# A full attention as a history

What a full attention of the backend is for: a history of tokens that only grows
(`Qwen38.PersistentMetalBackend.History`). It has the key and the value of every token, the index
rows of the block that is not whole, and the pooled row of every block that is. The next token is
attended together with those of the selected blocks and those behind the last whole block.

The buffers hold such a history (`Qwen38.PersistentMetalBackend.Represents`), each row in a place of
its own, and a step of the kernels is a step of the history
(`Qwen38.PersistentMetalBackend.Device.encode_attention_eq`). One thing is asked for: that all
tokens behind the last whole block are in the slab, since the kernel does not look for them
elsewhere.
-/

namespace Qwen38

namespace PersistentMetalBackend

/-! ### Histories -/

/-- The keys and values of a token, for both heads. -/
abbrev HeadRows := Fin 2 → Bytes × Bytes

/-- The tokens a full attention has seen. The first `cold_count` of them are kept as codes. -/
structure History where
  rows : List HeadRows
  pending : List Bytes
  pooled : List Bytes
  position_base : Nat
  cold_count : Nat

namespace History

/-- A token more. -/
def append (history : History) (row : HeadRows) (index : Bytes) (pool : Bytes → Bytes) : History :=
  let pending := history.pending ++ [index]
  if pending.length = 4 then
    { history with
      rows := history.rows ++ [row]
      pending := []
      pooled := history.pooled ++ [pool pending.flatten] }
  else { history with rows := history.rows ++ [row], pending }

/-- The rows that are attended: those of the selected blocks, and those behind the last whole
block. -/
def attended (history : History) (blocks : List Nat) : List HeadRows :=
  (blocks.flatMap fun block => (history.rows.drop (block * 4)).take 4) ++
    history.rows.drop (history.rows.length / 4 * 4)

@[simp] theorem rows_append (history : History) (row : HeadRows) (index : Bytes) (pool : Bytes → Bytes) :
    (history.append row index pool).rows = history.rows ++ [row] := by
  rw [append]
  split_ifs <;> rfl

@[simp] theorem cold_count_append (history : History) (row : HeadRows) (index : Bytes)
    (pool : Bytes → Bytes) : (history.append row index pool).cold_count = history.cold_count := by
  rw [append]
  split_ifs <;> rfl

@[simp] theorem position_base_append (history : History) (row : HeadRows) (index : Bytes)
    (pool : Bytes → Bytes) : (history.append row index pool).position_base = history.position_base := by
  rw [append]
  split_ifs <;> rfl

end History

/-- The rows of a token, head by head. -/
def AttentionRows.head_rows (rows : AttentionRows) : HeadRows := fun head =>
  (Buffer.read (head.val * row_bytes) row_bytes rows.key,
    Buffer.read (head.val * row_bytes) row_bytes rows.value)

namespace Device

variable {V : Type} (device : Device V)

/-- The rows of the next token. -/
def history_rows (layer : Fin 48) (stream : Bytes) (history : History) : AttentionRows :=
  device.project layer (history.position_base + history.rows.length) stream

/-- The history with the next token. -/
def history_next (layer : Fin 48) (stream : Bytes) (history : History) : History :=
  let rows := device.history_rows layer stream history
  history.append rows.head_rows rows.index
    (device.pool layer (history.position_base + history.rows.length / 4 * 4))

variable [LinearOrder V] [OrderBot V]

/-- The blocks that are selected. -/
def blocks (history : History) (selector_query : Bytes) : List Nat :=
  match encode_qsa_selection
    (fun block => device.score selector_query (history.pooled.getD block []) block)
    history.pooled.length (fun _ => ⊥) ⟨fun _ => ⊥, fun _ => ⊥, fun _ => 0, fun _ => 0, fun _ => 0⟩ with
  | .ok (buffers, count) => (List.range (count / 4)).map buffers.selected
  | .error _ => []

/-- **A full attention**: what it makes of the stream, and its history. -/
def attention_step (layer : Fin 48) (stream : Bytes) (history : History) : Bytes × History :=
  let rows := device.history_rows layer stream history
  let next := device.history_next layer stream history
  let visited := next.attended (device.blocks next rows.selector_query)
  (device.attention_output layer stream rows.gate fun head =>
    device.attend rows.query head (visited.map fun row => row head), next)

end Device

/-! ### The buffers of a history -/

/-- **The buffers hold a history.** -/
structure Represents (unpack : Bytes → Bytes → Bytes → Bytes) (state : AttentionState)
    (history : History) : Prop where
  token_count : state.token_count = history.rows.length
  position_base : state.position_base = history.position_base
  cold_count : state.cold_count = history.cold_count
  rows : ∀ token row, history.rows[token]? = some row → ∀ head,
    read_place unpack state state.cold_count head (selected_place state.cold_count token) = row head
  pending_length : history.pending.length = history.rows.length % 4
  pending : Buffer.read 0 (history.pending.length * index_row_bytes) state.pending =
    history.pending.flatten
  pooled_length : history.pooled.length = history.rows.length / 4
  pooled : ∀ block row, history.pooled[block]? = some row → pooled_row state block = row

section Append

variable {unpack : Bytes → Bytes → Bytes → Bytes} {state : AttentionState} {history : History}
  {rows : AttentionRows} {pool : Bytes → Bytes} {head : Fin 2} {hot slot : Nat} {data slab : Bytes}

/-- A row of the slab after a token has been put. -/
theorem read_put_rows (hhot : hot < hot_capacity) (hslot : slot < hot_capacity)
    (hdata : data.length = 2 * row_bytes) (hslab : slab.length = 2 * (hot_capacity * row_bytes)) :
    Buffer.read ((head.val * hot_capacity + slot) * row_bytes) row_bytes (put_rows hot data slab) =
      if slot = hot then Buffer.read (head.val * row_bytes) row_bytes data
      else Buffer.read ((head.val * hot_capacity + slot) * row_bytes) row_bytes slab := by
  obtain ⟨hfirst, hsecond⟩ := slab_bounds hhot
  obtain ⟨hslot, -⟩ := slab_bounds hslot
  -- rows of different slots do not overlap
  have happart : slot ≠ hot → slot * row_bytes + row_bytes ≤ hot * row_bytes ∨
      hot * row_bytes + row_bytes ≤ slot * row_bytes := by
    intro hne
    rw [← Nat.succ_mul, ← Nat.succ_mul]
    rcases Nat.lt_or_gt_of_ne hne with hlt | hgt
    · exact Or.inl (Nat.mul_le_mul_right _ hlt)
    · exact Or.inr (Nat.mul_le_mul_right _ hgt)
  have hone : (Buffer.read 0 row_bytes data).length = row_bytes := Buffer.length_read (by omega)
  have htwo : (Buffer.read row_bytes row_bytes data).length = row_bytes :=
    Buffer.length_read (by omega)
  have hput : (Buffer.put (hot * row_bytes) (Buffer.read 0 row_bytes data) slab).length =
      slab.length := Buffer.length_put (by omega)
  have hbase : (hot_capacity + hot) * row_bytes = hot_capacity * row_bytes + hot * row_bytes :=
    Nat.add_mul ..
  rw [put_rows]
  obtain hhead | hhead : head.val = 0 ∨ head.val = 1 := by omega
  -- the first head; the second write is behind its half of the slab
  · rw [hhead, Nat.zero_mul, Nat.zero_add, Nat.zero_mul,
      Buffer.read_put_before (by omega) (by omega)]
    split_ifs with heq
    · have hread := @Buffer.read_put _ slab (Buffer.read 0 row_bytes data) (hot * row_bytes) (by omega)
      rw [hone] at hread
      rw [heq, hread]
    · rcases happart heq with hbefore | hafter
      · exact Buffer.read_put_before (by omega) hbefore
      · exact Buffer.read_put_after (by omega) (by omega)
  -- the second head; the first write is before it
  · have hplace : (hot_capacity + slot) * row_bytes = hot_capacity * row_bytes + slot * row_bytes :=
      Nat.add_mul ..
    rw [hhead, Nat.one_mul, Nat.one_mul]
    split_ifs with heq
    · have hread := @Buffer.read_put _ (Buffer.put (hot * row_bytes) (Buffer.read 0 row_bytes data) slab)
        (Buffer.read row_bytes row_bytes data) ((hot_capacity + hot) * row_bytes) (by omega)
      rw [htwo] at hread
      rw [heq, hread]
    · have houter : Buffer.read ((hot_capacity + slot) * row_bytes) row_bytes
          (Buffer.put ((hot_capacity + hot) * row_bytes) (Buffer.read row_bytes row_bytes data)
            (Buffer.put (hot * row_bytes) (Buffer.read 0 row_bytes data) slab)) =
          Buffer.read ((hot_capacity + slot) * row_bytes) row_bytes
            (Buffer.put (hot * row_bytes) (Buffer.read 0 row_bytes data) slab) := by
        rcases happart heq with hbefore | hafter
        · exact Buffer.read_put_before (by omega) (by omega)
        · exact Buffer.read_put_after (by omega) (by omega)
      rw [houter, Buffer.read_put_after (by omega) (by omega)]

theorem selected_place_of_le {cold_count token : Nat} (hle : cold_count ≤ token) (htoken : token < 2 ^ 32) :
    selected_place cold_count token = .hot (token - cold_count) := by
  rw [selected_place, if_neg (Nat.not_lt.mpr hle), sub32_of_le htoken hle]

/-- No code is written. -/
theorem read_cold_append (head : Fin 2) (token cold_count : Nat) :
    read_place unpack (qsa_append_decode_state state.numbers rows pool state) cold_count head
        (.cold token) = read_place unpack state cold_count head (.cold token) := by
  have hbase := @sameBase_append state.numbers rows pool state
  rw [read_place, read_place, cold_row, cold_row, hbase.key_weights, hbase.key_scales, hbase.key_biases,
    hbase.value_weights, hbase.value_scales, hbase.value_biases]

/-- A row of the slab is the new one or as it was. -/
theorem read_hot_append (hroom : state.Room) (hstate : state.Allocated) {token : Nat}
    (hcold : state.cold_count ≤ token) (hle : token ≤ state.token_count) (head : Fin 2) :
    read_place unpack (qsa_append_decode_state state.numbers rows pool state) state.cold_count head
        (.hot (token - state.cold_count)) =
      if token = state.token_count then rows.head_rows head
      else read_place unpack state state.cold_count head (.hot (token - state.cold_count)) := by
  have hhot := hroom.hot_lt
  obtain ⟨-, -, hindex, -⟩ := hroom.numbers_eq
  have hslot : token - state.cold_count < hot_capacity := by omega
  rw [qsa_append_decode_state]
  simp only [read_place, hot_row, hindex]
  rw [read_put_rows hhot hslot rows.length_key hstate.hot_keys,
    read_put_rows hhot hslot rows.length_value hstate.hot_values]
  by_cases heq : token = state.token_count
  · have hplace : token - state.cold_count = state.token_count - state.cold_count := by omega
    rw [if_pos hplace, if_pos hplace, if_pos heq, AttentionRows.head_rows]
  · have hplace : token - state.cold_count ≠ state.token_count - state.cold_count := by omega
    rw [if_neg hplace, if_neg hplace, if_neg heq]

/-- **The places of the tokens are apart**: the new token is found in its place, and the others in
theirs as they were. -/
theorem read_place_append (hroom : state.Room) (hstate : state.Allocated) {token : Nat}
    (hle : token ≤ state.token_count) (head : Fin 2) :
    read_place unpack (qsa_append_decode_state state.numbers rows pool state) state.cold_count head
        (selected_place state.cold_count token) =
      if token = state.token_count then rows.head_rows head
      else read_place unpack state state.cold_count head (selected_place state.cold_count token) := by
  have hcold := hroom.cold_le
  have htoken := hroom.token_lt
  by_cases hlt : token < state.cold_count
  · rw [if_neg (by omega), selected_place, if_pos hlt]
    exact read_cold_append head token state.cold_count
  · rw [selected_place_of_le (by omega) (by omega)]
    exact read_hot_append hroom hstate (by omega) hle head

/-- The index rows with the one of the new token. -/
theorem read_pending_append (h : Represents unpack state history) (hstate : state.Allocated) :
    Buffer.read 0 ((history.pending.length + 1) * index_row_bytes)
        (Buffer.put (state.token_count % 4 * index_row_bytes) rows.index state.pending) =
      (history.pending ++ [rows.index]).flatten := by
  have hlength := h.pending_length
  rw [← h.token_count] at hlength
  have hfits : (history.pending.length + 1) * index_row_bytes ≤ 4 * index_row_bytes :=
    Nat.mul_le_mul_right _ (by omega)
  rw [Nat.succ_mul] at hfits ⊢
  have hindex := rows.length_index
  have hpending := hstate.pending
  have hread := @Buffer.read_put _ state.pending rows.index
    (history.pending.length * index_row_bytes) (by omega)
  rw [hindex] at hread
  rw [← hlength, Buffer.read_add, Nat.zero_add, hread, Buffer.read_put_before (by omega) (by omega),
    h.pending, List.flatten_append, List.flatten_singleton]

/-- A pooled row after a block has been put. -/
theorem read_put_pooled {pooled : Bytes} {blocks block : Nat} (hpooled : pooled.length = 65536 * index_row_bytes)
    (hblocks : blocks < 65536) (hdata : data.length = index_row_bytes) (hle : block ≤ blocks) :
    Buffer.read (block * index_row_bytes) index_row_bytes
        (Buffer.put (blocks * index_row_bytes) data pooled) =
      if block = blocks then data else Buffer.read (block * index_row_bytes) index_row_bytes pooled := by
  have hfits : (blocks + 1) * index_row_bytes ≤ 65536 * index_row_bytes := Nat.mul_le_mul_right _ hblocks
  rw [Nat.succ_mul] at hfits
  split_ifs with heq
  · have hread := @Buffer.read_put _ pooled data (blocks * index_row_bytes) (by omega)
    rw [hdata] at hread
    rw [heq, hread]
  · have hbefore : (block + 1) * index_row_bytes ≤ blocks * index_row_bytes :=
      Nat.mul_le_mul_right _ (by omega)
    rw [Nat.succ_mul] at hbefore
    exact Buffer.read_put_before (by omega) hbefore

theorem read_place_count (state : AttentionState) (token_count cold_count : Nat) (head : Fin 2)
    (place : Place) : read_place unpack { state with token_count } cold_count head place =
      read_place unpack state cold_count head place := by
  cases place <;> rfl

theorem pooled_row_count (state : AttentionState) (token_count block : Nat) :
    pooled_row { state with token_count } block = pooled_row state block := rfl

theorem pending_qsa_append :
    (qsa_append_decode_state state.numbers rows pool state).pending =
      Buffer.put (state.token_count % 4 * index_row_bytes) rows.index state.pending := by
  rw [qsa_append_decode_state, AttentionState.numbers]

/-- A block is complete with the fourth of its index rows. -/
theorem complete_block_iff (h : Represents unpack state history) (hroom : state.Room) :
    state.numbers.complete_block = true ↔ history.pending.length + 1 = 4 := by
  have htoken := hroom.token_lt
  have hresulting : add32 state.token_count 1 = state.token_count + 1 := add32_of_lt (by omega)
  have hlength := h.pending_length
  rw [← h.token_count] at hlength
  simp only [AttentionState.numbers, hresulting, decide_eq_true_eq]
  omega

/-- The index rows of a block that is complete. -/
theorem pending_append (h : Represents unpack state history) (hstate : state.Allocated)
    (hfull : history.pending.length + 1 = 4) :
    Buffer.put (state.token_count % 4 * index_row_bytes) rows.index state.pending =
      (history.pending ++ [rows.index]).flatten := by
  have hlength := h.pending_length
  rw [← h.token_count] at hlength
  have hfits : state.token_count % 4 * index_row_bytes + rows.index.length ≤ state.pending.length := by
    have hle : (state.token_count % 4 + 1) * index_row_bytes ≤ 4 * index_row_bytes :=
      Nat.mul_le_mul_right _ (by omega)
    rw [Nat.succ_mul] at hle
    rw [rows.length_index, hstate.pending]
    exact hle
  have hwhole := @read_pending_append unpack state history rows h hstate
  rw [hfull, Buffer.read_zero ((Buffer.length_put hfits).trans hstate.pending).symm] at hwhole
  exact hwhole

theorem History.append_full {row : HeadRows} {index : Bytes} (hfull : history.pending.length + 1 = 4) :
    history.append row index pool =
      { history with
        rows := history.rows ++ [row]
        pending := []
        pooled := history.pooled ++ [pool (history.pending ++ [index]).flatten] } :=
  if_pos (List.length_append.trans hfull)

theorem History.append_part {row : HeadRows} {index : Bytes} (hpart : history.pending.length + 1 ≠ 4) :
    history.append row index pool =
      { history with
        rows := history.rows ++ [row]
        pending := history.pending ++ [index] } :=
  if_neg (mt List.length_append.symm.trans hpart)

/-- **The pooled rows** after a token. -/
theorem pooled_append (h : Represents unpack state history) (hstate : state.Allocated)
    (hroom : state.Room) (hpool : ∀ data, (pool data).length = index_row_bytes) {row : HeadRows}
    {block : Nat} {pooled : Bytes} (hblock : (history.append row rows.index pool).pooled[block]? = some pooled) :
    pooled_row (qsa_append_decode_state state.numbers rows pool state) block = pooled := by
  have htoken := hroom.token_lt
  have hcount := h.token_count
  have hblocks := h.pooled_length
  have hcomplete := complete_block_iff h hroom
  by_cases hfull : history.pending.length + 1 = 4
  · rw [History.append_full hfull] at hblock
    have hlt := (List.getElem?_eq_some_iff.mp hblock).1
    rw [List.length_append, List.length_singleton] at hlt
    have hput : (qsa_append_decode_state state.numbers rows pool state).pooled =
        Buffer.put (state.token_count / 4 * index_row_bytes)
          (pool (history.pending ++ [rows.index]).flatten) state.pooled := by
      rw [← pending_append h hstate hfull]
      exact if_pos (hcomplete.mpr hfull)
    rw [pooled_row, hput, read_put_pooled hstate.pooled (by omega) (hpool _) (by omega)]
    split_ifs with heq
    · rw [heq, hcount, ← hblocks, List.getElem?_concat_length] at hblock
      exact Option.some.inj hblock
    · rw [List.getElem?_append_left (by omega)] at hblock
      exact h.pooled block pooled hblock
  · rw [History.append_part hfull] at hblock
    have hput : (qsa_append_decode_state state.numbers rows pool state).pooled = state.pooled :=
      if_neg (mt hcomplete.mp hfull)
    rw [pooled_row, hput]
    exact h.pooled block pooled hblock

/-- **The kernel appends to the history.** It writes the row of the token into the slab and, where
the token completes a block, the pooled row of the block; all other rows are where they were. -/
theorem represents_append (h : Represents unpack state history) (hstate : state.Allocated)
    (hroom : state.Room) (hpool : ∀ data, (pool data).length = index_row_bytes) :
    Represents unpack { qsa_append_decode_state state.numbers rows pool state with
      token_count := state.numbers.resulting_tokens } (history.append rows.head_rows rows.index pool) := by
  obtain ⟨hresulting, -, -, -⟩ := hroom.numbers_eq
  have htoken := hroom.token_lt
  have hcount := h.token_count
  have hlength := h.pending_length
  have hblocks := h.pooled_length
  have hbase := @sameBase_append state.numbers rows pool state
  refine {
    token_count := ?_
    position_base := ?_
    cold_count := ?_
    rows := ?_
    pending_length := ?_
    pending := ?_
    pooled_length := ?_
    pooled := ?_ }
  · rw [History.rows_append, List.length_append, List.length_singleton, ← hcount]
    exact hresulting
  · rw [History.position_base_append]
    exact hbase.position_base.trans h.position_base
  · rw [History.cold_count_append]
    exact hbase.cold_count.trans h.cold_count
  · intro token row hrow head
    rw [History.rows_append] at hrow
    have hlt := (List.getElem?_eq_some_iff.mp hrow).1
    rw [List.length_append, List.length_singleton, ← hcount] at hlt
    rw [read_place_count]
    change read_place unpack (qsa_append_decode_state state.numbers rows pool state)
      (qsa_append_decode_state state.numbers rows pool state).cold_count head (selected_place
        (qsa_append_decode_state state.numbers rows pool state).cold_count token) = row head
    rw [hbase.cold_count, read_place_append hroom hstate (by omega)]
    -- the row that has just been written, or one before it
    split_ifs with heq
    · rw [heq, hcount, List.getElem?_concat_length] at hrow
      exact congrFun (Option.some.inj hrow) head
    · rw [List.getElem?_append_left (by omega)] at hrow
      exact h.rows token row hrow head
  · rw [History.rows_append, List.length_append, List.length_singleton]
    -- the fourth pending row completes a block, and none is left
    by_cases hfull : history.pending.length + 1 = 4
    · rw [History.append_full hfull]
      change 0 = _
      omega
    · rw [History.append_part hfull]
      change (history.pending ++ [rows.index]).length = _
      rw [List.length_append, List.length_singleton]
      omega
  · by_cases hfull : history.pending.length + 1 = 4
    · rw [History.append_full hfull]
      simp [Buffer.read]
    · rw [History.append_part hfull]
      change Buffer.read 0 ((history.pending ++ [rows.index]).length * index_row_bytes)
        (qsa_append_decode_state state.numbers rows pool state).pending =
          (history.pending ++ [rows.index]).flatten
      rw [List.length_append, List.length_singleton, pending_qsa_append]
      exact read_pending_append h hstate
  · rw [History.rows_append, List.length_append, List.length_singleton]
    by_cases hfull : history.pending.length + 1 = 4
    · rw [History.append_full hfull]
      change (history.pooled ++ [_]).length = _
      rw [List.length_append, List.length_singleton]
      omega
    · rw [History.append_part hfull]
      change history.pooled.length = _
      omega
  · intro block row hblock
    -- only a completed block has a new pooled row
    rw [pooled_row_count]
    exact pooled_append h hstate hroom hpool hblock

end Append

/-! ### What is attended -/

/-- The tokens of the selected blocks, in the order of the slots. -/
theorem tokens_of_blocks (selected : Nat → Nat) (blocks : Nat) :
    (List.range (blocks * 4)).map (fun slot => selected (slot / 4) * 4 + slot % 4) =
      ((List.range blocks).map selected).flatMap fun block => List.range' (block * 4) 4 := by
  induction blocks with
  | zero => rfl
  | succ blocks ih =>
    have hblock : ((List.range 4).map (blocks * 4 + ·)).map
          (fun slot => selected (slot / 4) * 4 + slot % 4) = List.range' (selected blocks * 4) 4 := by
      rw [List.range'_eq_map_range, List.map_map]
      refine List.map_congr_left fun place hplace => ?_
      have hplace := List.mem_range.mp hplace
      have hdiv : (blocks * 4 + place) / 4 = blocks := by omega
      have hmod : (blocks * 4 + place) % 4 = place := by omega
      simp only [Function.comp_apply, hdiv, hmod]
    rw [Nat.succ_mul, List.range_add, List.map_append, ih, hblock, List.range_succ, List.map_append,
      List.flatMap_append, List.map_singleton, List.flatMap_singleton]

section Attended

variable {unpack : Bytes → Bytes → Bytes → Bytes} {state : AttentionState} {history : History}
  {numbers : AttentionNumbers} {selected : Nat → Nat} {blocks : Nat}

/-- The rows of tokens that follow each other. -/
theorem Represents.read_rows (h : Represents unpack state history) (head : Fin 2) {start count : Nat}
    (hle : start + count ≤ history.rows.length) :
    (List.range' start count).map (fun token =>
        read_place unpack state state.cold_count head (selected_place state.cold_count token)) =
      ((history.rows.drop start).take count).map fun row => row head := by
  refine List.ext_getElem ?_ fun i hi hi' => ?_
  · simp only [List.length_map, List.length_range', List.length_take, List.length_drop]
    omega
  · rw [List.getElem_map, List.getElem_map, List.getElem_range', List.getElem_take, List.getElem_drop,
      Nat.one_mul]
    exact h.rows _ _ (List.getElem?_eq_getElem _) head

/-- **The kernel attends the rows of the history.** The loop over the last tokens reads the slab
only. -/
theorem Represents.read_visits (h : Represents unpack state history)
    (hcold : numbers.cold_count = state.cold_count)
    (htotal : add32 numbers.cold_count numbers.hot_count = history.rows.length)
    (hlow : history.rows.length < 2 ^ 32) (htail : state.cold_count ≤ history.rows.length / 4 * 4)
    (hselected : ∀ i < blocks, selected i < history.rows.length / 4) (head : Fin 2) :
    (visits numbers selected (blocks * 4)).map (fun visit =>
        read_place unpack state numbers.cold_count head visit.2) =
      (history.attended ((List.range blocks).map selected)).map fun row => row head := by
  have hblocks : ((List.range (blocks * 4)).map fun slot =>
        let token := selected (slot / 4) * 4 + slot % 4
        (token, selected_place numbers.cold_count token)).map
          (fun visit => read_place unpack state numbers.cold_count head visit.2) =
      (((List.range blocks).map selected).flatMap fun block => (history.rows.drop (block * 4)).take 4).map
        fun row => row head := by
    have hmap : ((List.range (blocks * 4)).map fun slot =>
          let token := selected (slot / 4) * 4 + slot % 4
          (token, selected_place numbers.cold_count token)).map
            (fun visit => read_place unpack state numbers.cold_count head visit.2) =
        ((List.range (blocks * 4)).map fun slot => selected (slot / 4) * 4 + slot % 4).map
          fun token => read_place unpack state state.cold_count head
            (selected_place state.cold_count token) := by
      rw [List.map_map, List.map_map, hcold]
      rfl
    rw [hmap, tokens_of_blocks, List.map_flatMap, List.map_flatMap]
    refine List.flatMap_congr fun block hblock => ?_
    obtain ⟨i, hi, rfl⟩ := List.mem_map.mp hblock
    have hlt := hselected i (List.mem_range.mp hi)
    exact h.read_rows head (by omega)
  have hlast : ((List.range' (history.rows.length / 4 * 4)
        (history.rows.length - history.rows.length / 4 * 4)).map fun token =>
          (token, tail_place numbers.cold_count token)).map
            (fun visit => read_place unpack state numbers.cold_count head visit.2) =
      (history.rows.drop (history.rows.length / 4 * 4)).map fun row => row head := by
    have hread := h.read_rows head (show history.rows.length / 4 * 4 +
      (history.rows.length - history.rows.length / 4 * 4) ≤ history.rows.length by omega)
    rw [List.take_of_length_le (by rw [List.length_drop])] at hread
    rw [← hread, List.map_map]
    refine List.map_congr_left fun token htoken => ?_
    obtain ⟨hfirst, hbound⟩ := List.mem_range'_1.mp htoken
    simp only [Function.comp_apply, hcold, tail_place]
    rw [selected_place_of_le (by omega) (by omega), sub32_of_le (by omega) (by omega)]
  rw [visits, List.map_append, htotal, hblocks, hlast, History.attended, List.map_append]

end Attended

/-! ### Steps and runs -/

namespace Device

variable {V : Type} [LinearOrder V] [OrderBot V] {device : Device V} {layer : Fin 48}
  {state : AttentionState} {history : History}

omit [LinearOrder V] [OrderBot V] in
/-- The rows of the next token are those of its position. -/
theorem rows_eq (h : Represents device.unpack state history) (hroom : state.Room) (stream : Bytes) :
    device.rows layer stream state = device.history_rows layer stream history := by
  have hposition := hroom.position_lt
  have hmax : uint32_max < 2 ^ 32 := by decide
  have hadd : add32 state.position_base state.token_count = state.position_base + state.token_count :=
    add32_of_lt (by omega)
  rw [rows, history_rows, ← h.position_base, ← h.token_count, ← hadd]
  rfl

omit [LinearOrder V] [OrderBot V] in
theorem represents_appended (h : Represents device.unpack state history) (hstate : state.Allocated)
    (hroom : state.Room) (stream : Bytes) :
    Represents device.unpack { device.appended layer stream state with
      token_count := state.numbers.resulting_tokens } (device.history_next layer stream history) := by
  have hposition := hroom.position_lt
  have hmax : uint32_max < 2 ^ 32 := by decide
  have hadd : add32 state.position_base (state.token_count / 4 * 4) =
      state.position_base + state.token_count / 4 * 4 := add32_of_lt (by omega)
  have hpool : device.pool layer state.numbers.pool_position =
      device.pool layer (history.position_base + history.rows.length / 4 * 4) := by
    rw [← h.position_base, ← h.token_count, ← hadd]
    rfl
  rw [appended, hpool, rows_eq h hroom, history_next]
  exact represents_append h hstate hroom (device.length_pool layer _)

/-- The blocks that are published are those of the history. -/
theorem select_eq (h : Represents device.unpack state history) {numbers : AttentionNumbers}
    (hcount : numbers.block_count = history.pooled.length) (hhigh : numbers.block_count ≤ 65536)
    (hscore : ∀ query row block, ⊥ < device.score query row block) (scratch : Scratch V)
    (rows : AttentionRows) :
    ∃ published blocks, device.select scratch numbers rows state = .ok (published, blocks * 4) ∧
      device.blocks history rows.selector_query = (List.range blocks).map published.selected ∧
      ∀ i < blocks, published.selected i < history.pooled.length := by
  have hsame : ∀ block < numbers.block_count,
      device.score rows.selector_query (pooled_row state block) block =
        device.score rows.selector_query (history.pooled.getD block []) block := by
    intro block hblock
    have hlt : block < history.pooled.length := by omega
    have hget := List.getElem?_eq_getElem hlt
    rw [h.pooled block _ hget, List.getD_eq_getElem?_getD, hget, Option.getD_some]
  obtain ⟨published, published', count, hrun, hrun', -, hfour, hselected⟩ :=
    @encode_qsa_selection_congr V _ _ _ _ numbers.block_count scratch.scores (fun _ => ⊥)
      scratch.buffers ⟨fun _ => ⊥, fun _ => ⊥, fun _ => 0, fun _ => 0, fun _ => 0⟩ hhigh hsame
  have hblocks : count / 4 * 4 = count := by omega
  refine ⟨published, count / 4, ?_, ?_, fun i hi => ?_⟩
  · rw [hblocks]
    exact hrun
  · rw [hcount] at hrun'
    rw [blocks, hrun']
    exact List.map_congr_left fun i hi => (hselected i (List.mem_range.mp hi)).symm
  · rw [← hcount]
    exact selected_lt hhigh (fun block _ => hscore _ _ block) hrun hi

/-- **A step of the kernels is a step of the history.** On buffers that represent the tokens so far
the attention of a layer reads what the tokens say, and leaves buffers that represent one token
more. The scratch buffers may hold anything. -/
theorem encode_attention_eq (h : Represents device.unpack state history) (hstate : state.Allocated)
    (hroom : state.Room) (htail : state.cold_count ≤ (state.token_count + 1) / 4 * 4)
    (hscore : ∀ query row block, ⊥ < device.score query row block) (scratch : Scratch V) (stream : Bytes) :
    ∃ next, device.encode_attention layer scratch stream state =
        .ok ((device.attention_step layer stream history).1, next) ∧
      Represents device.unpack next (device.attention_step layer stream history).2 ∧
      SameBase state next ∧ next.Allocated ∧ next.token_count = state.token_count + 1 := by
  obtain ⟨hresulting, hblocks, -, hhot⟩ := hroom.numbers_eq
  have htoken := hroom.token_lt
  have hcold := hroom.cold_le
  have hnext := @represents_appended V device layer state history h hstate hroom stream
  have hlength : (device.history_next layer stream history).rows.length = state.token_count + 1 := by
    rw [← hnext.token_count]
    exact hresulting
  have hpooled : (device.history_next layer stream history).pooled.length =
      state.numbers.block_count := by
    rw [hnext.pooled_length, hlength, hblocks]
  obtain ⟨published, blocks, hselect, hpublished, hlt⟩ := @select_eq V _ _ device _ _ hnext state.numbers
    hpooled.symm (by omega) hscore scratch (device.rows layer stream state)
  -- what the kernel visits is what is selected, and the tail in the hot slab
  have hattended (head : Fin 2) : device.qsa_attention_q8_blocks state.numbers
        (device.rows layer stream state) (device.appended layer stream state) published.selected
        (blocks * 4) head =
      device.attend (device.rows layer stream state).query head
        (((device.history_next layer stream history).attended
          (device.blocks (device.history_next layer stream history)
            (device.rows layer stream state).selector_query)).map fun row => row head) := by
    have htotal : add32 state.numbers.cold_count state.numbers.hot_count =
        (device.history_next layer stream history).rows.length := by
      rw [hhot, hlength]
      change add32 state.cold_count _ = _
      rw [add32_of_lt (by omega)]
      omega
    have hbase := @sameBase_append state.numbers (device.rows layer stream state)
      (device.pool layer state.numbers.pool_position) state
    have hcount : state.numbers.cold_count = (device.appended layer stream state).cold_count :=
      hbase.cold_count.symm
    have htail' : (device.appended layer stream state).cold_count ≤
        (device.history_next layer stream history).rows.length / 4 * 4 := by
      rw [hlength, ← hcount]
      exact htail
    have hvisits := hnext.read_visits hcount htotal (by omega) htail'
      (fun i hi => by rw [← hnext.pooled_length]; exact hlt i hi) head
    have hplaces : (visits state.numbers published.selected (blocks * 4)).map (fun visit =>
          read_place device.unpack (device.appended layer stream state) state.numbers.cold_count head
            visit.2) =
        (visits state.numbers published.selected (blocks * 4)).map fun visit =>
          read_place device.unpack { device.appended layer stream state with
            token_count := state.numbers.resulting_tokens } state.numbers.cold_count head visit.2 :=
      List.map_congr_left fun visit _ =>
        (read_place_count (device.appended layer stream state) _ _ head visit.2).symm
    rw [qsa_attention_q8_blocks, hpublished, hplaces, hvisits]
  refine ⟨{ device.appended layer stream state with token_count := state.numbers.resulting_tokens },
    ?_, hnext, sameBase_append.count _, (allocated_appended hroom hstate).count _, hresulting⟩
  -- the count of the tokens is raised behind the attention, and no pooled row depends on it
  have hselect' : device.select scratch state.numbers (device.rows layer stream state)
      (device.appended layer stream state) = .ok (published, blocks * 4) := by
    have hpooled (block : Nat) := pooled_row_count (device.appended layer stream state)
      state.numbers.resulting_tokens block
    rw [select] at hselect ⊢
    rw [← hselect]
    exact congrArg (fun row : Nat → Bytes => encode_qsa_selection
      (fun block => device.score (device.rows layer stream state).selector_query (row block) block)
      state.numbers.block_count scratch.scores scratch.buffers) (funext fun block => (hpooled block).symm)
  have hrows := @rows_eq V device layer _ _ h hroom stream
  have hstep : (device.attention_step layer stream history).1 =
      device.attention_output layer stream (device.rows layer stream state).gate
        (device.qsa_attention_q8_blocks state.numbers (device.rows layer stream state)
          (device.appended layer stream state) published.selected (blocks * 4)) := by
    rw [attention_step, ← hrows, funext hattended]
  rw [encode_attention, hstep]
  simp only [hselect', Except.ok_bind, Except.pure_eq_ok]

end Device

end PersistentMetalBackend

end Qwen38
