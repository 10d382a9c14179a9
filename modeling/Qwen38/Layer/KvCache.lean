import Qwen38.Layer.QsaIndex

/-!
# The cold and the hot part of a quantised cache

The keys and values of a full attention are those of its tokens, each once and in order: as
they are, or, in a quantised cache, quantised for the first `kv_q8_cold_tokens` tokens, the
cold part, and as they are for the others, the hot part (`SelfAttention.Caches`). Decode,
verification and prefill keep that, together with the index rows, when they return
(`SelfAttention.Holds`), and for each it is said exactly when it returns: always from a cache
that is not quantised, and from a quantised one when the tokens are more than the step's
selection budget (`SelfAttention.Selects`) and the batched verification finds a hot part.
-/

namespace Qwen38

variable {X R : Type}

/-- A state with other keys and values. -/
abbrev SelfAttentionState.with_cache (state : AttentionState R) (keys values : MlxArray R)
    (packed_key packed_value : SelfAttention.PackedQ8 R) (kv_q8 : Bool)
    (kv_q8_cold_tokens : Nat) : AttentionState R :=
  { state with
    keys := keys
    values := values
    key_weights := packed_key.weights
    key_scales := packed_key.scales
    key_biases := packed_key.biases
    value_weights := packed_value.weights
    value_scales := packed_value.scales
    value_biases := packed_value.biases
    kv_q8 := kv_q8
    kv_q8_cold_tokens := kv_q8_cold_tokens }

/-- A state with other rows that are not quantised, for so many tokens. -/
abbrev SelfAttentionState.with_rows (state : AttentionState R) (keys values : List R)
    (token_count : Nat) : AttentionState R :=
  { state with keys := some keys, values := some values, token_count := token_count }

/-- A state that has more tokens. -/
abbrev SelfAttentionState.with_tokens (state : AttentionState R) (token_count : Nat) :
    AttentionState R :=
  { state with token_count := token_count }

/-- The quantised keys of a state. -/
abbrev SelfAttentionState.packed_key (state : AttentionState R) : SelfAttention.PackedQ8 R :=
  ⟨state.key_weights, state.key_scales, state.key_biases⟩

/-- The quantised values of a state. -/
abbrev SelfAttentionState.packed_value (state : AttentionState R) : SelfAttention.PackedQ8 R :=
  ⟨state.value_weights, state.value_scales, state.value_biases⟩

namespace SelfAttention

/-! ### Rows of tokens -/

section Project

variable {row : Nat → X → R} {position : Nat}

@[simp] theorem length_project (tokens : List X) :
    (project row position tokens).length = tokens.length := by
  rw [project, List.length_mapIdx]

theorem project_append (tokens more : List X) :
    project row position (tokens ++ more) =
      project row position tokens ++ project row (position + tokens.length) more := by
  rw [project, List.mapIdx_append, project, project]
  simp only [Nat.add_assoc, Nat.add_comm tokens.length]

theorem project_take (tokens : List X) (count : Nat) :
    project row position (tokens.take count) = (project row position tokens).take count := by
  refine List.ext_getElem? fun index => ?_
  rw [project, project, List.getElem?_mapIdx, List.getElem?_take, List.getElem?_take,
    List.getElem?_mapIdx]
  split <;> rfl

end Project

variable (attention : SelfAttention X R)

/-- The keys of the tokens of a state. -/
def keys_of (position_base : Nat) (tokens : List X) : List R :=
  project attention.key position_base tokens

/-- The values of the tokens of a state. -/
def values_of (position_base : Nat) (tokens : List X) : List R :=
  project (fun _ => attention.value) position_base tokens

/-- Rows, quantised. -/
def packed (rows : List R) : PackedQ8 R :=
  ⟨some (rows.map attention.weights), some (rows.map attention.scales),
    some (rows.map attention.biases)⟩

/-- **The keys and values of a state are those of these tokens**, each once and in order. -/
structure Caches (tokens : List X) (state : AttentionState R) : Prop where
  plain : state.kv_q8 = false → tokens ≠ [] →
    state.keys = some (attention.keys_of state.position_base tokens) ∧
      state.values = some (attention.values_of state.position_base tokens)
  cold_le : state.kv_q8 = true → state.kv_q8_cold_tokens ≤ tokens.length
  cold : state.kv_q8 = true → tokens ≠ [] →
    state.packed_key = attention.packed
        ((attention.keys_of state.position_base tokens).take state.kv_q8_cold_tokens) ∧
      state.packed_value = attention.packed
        ((attention.values_of state.position_base tokens).take state.kv_q8_cold_tokens)
  hot : state.kv_q8 = true → state.kv_q8_cold_tokens < tokens.length →
    state.keys = some
        ((attention.keys_of state.position_base tokens).drop state.kv_q8_cold_tokens) ∧
      state.values = some
        ((attention.values_of state.position_base tokens).drop state.kv_q8_cold_tokens)

/-- A state of these tokens. -/
structure Holds (tokens : List X) (state : AttentionState R) : Prop where
  token_count : state.token_count = tokens.length
  indexes : attention.Indexes tokens state
  caches : attention.Caches tokens state

/-- There are more blocks than a step selects. -/
def Selects (total : Nat) (decode_verification : Bool) : Prop :=
  attention.qsa_selection_budget decode_verification / attention.indexer_compress_ratio <
    total / attention.indexer_compress_ratio

variable {attention} {ctx tokens input : List X} {state origin : AttentionState R}

theorem Selects.mono {total total' : Nat} {decode : Bool} (h : attention.Selects total decode)
    (hle : total ≤ total') : attention.Selects total' decode :=
  Nat.lt_of_lt_of_le h (Nat.div_le_div_right hle)

theorem selection_eq_packed {total : Nat} {packed decode : Bool} :
    attention.selection total packed decode = .packed ↔
      packed = true ∧ attention.Selects total decode := by
  rw [selection, Selects]
  split
  · rename_i hle
    exact ⟨fun h => absurd h (by simp), fun h => absurd h.2 (by omega)⟩
  · rename_i hlt
    cases packed with
    | false => simp
    | true => simpa using hlt

@[simp] theorem length_keys_of (base : Nat) (tokens : List X) :
    (attention.keys_of base tokens).length = tokens.length := length_project tokens

@[simp] theorem length_values_of (base : Nat) (tokens : List X) :
    (attention.values_of base tokens).length = tokens.length := length_project tokens

theorem keys_of_append (base : Nat) (tokens more : List X) :
    attention.keys_of base (tokens ++ more) =
      attention.keys_of base tokens ++ project attention.key (base + tokens.length) more :=
  project_append tokens more

theorem values_of_append (base : Nat) (tokens more : List X) :
    attention.values_of base (tokens ++ more) = attention.values_of base tokens ++
      project (fun _ => attention.value) (base + tokens.length) more :=
  project_append tokens more

/-- The cold part when tokens come behind. -/
theorem take_keys_of_append (base : Nat) {tokens : List X} (more : List X) {cold : Nat}
    (h : cold ≤ tokens.length) :
    (attention.keys_of base (tokens ++ more)).take cold =
      (attention.keys_of base tokens).take cold := by
  rw [keys_of_append, List.take_append_of_le_length (by simpa using h)]

theorem take_values_of_append (base : Nat) {tokens : List X} (more : List X) {cold : Nat}
    (h : cold ≤ tokens.length) :
    (attention.values_of base (tokens ++ more)).take cold =
      (attention.values_of base tokens).take cold := by
  rw [values_of_append, List.take_append_of_le_length (by simpa using h)]

/-- The hot part when tokens come behind. -/
theorem drop_keys_of_append (base : Nat) {tokens : List X} (more : List X) {cold : Nat}
    (h : cold ≤ tokens.length) :
    (attention.keys_of base (tokens ++ more)).drop cold =
      (attention.keys_of base tokens).drop cold ++
        project attention.key (base + tokens.length) more := by
  rw [keys_of_append, List.drop_append_of_le_length (by simpa using h)]

theorem drop_values_of_append (base : Nat) {tokens : List X} (more : List X) {cold : Nat}
    (h : cold ≤ tokens.length) :
    (attention.values_of base (tokens ++ more)).drop cold =
      (attention.values_of base tokens).drop cold ++
        project (fun _ => attention.value) (base + tokens.length) more := by
  rw [values_of_append, List.drop_append_of_le_length (by simpa using h)]

/-- Rows that are quantised in two parts. -/
theorem packed_eq_append (count : Nat) (rows : List R) :
    attention.packed rows =
      ⟨some ((rows.take count).map attention.weights ++ (rows.drop count).map attention.weights),
        some ((rows.take count).map attention.scales ++ (rows.drop count).map attention.scales),
        some ((rows.take count).map attention.biases ++ (rows.drop count).map attention.biases)⟩ := by
  rw [packed, ← List.map_append, ← List.map_append, ← List.map_append, List.take_append_drop]

/-! ### Appending to the cache -/

/-- Keys and values join a cache that is not quantised. -/
theorem store_kv_of_plain (h : attention.Caches ctx state)
    (htokens : state.token_count = ctx.length) (hplain : state.kv_q8 = false)
    {want : Bool} {qsa : QsaSelection} (hpacked : ¬(want = true ∧ qsa = .packed))
    (input : List X) :
    attention.store_kv want qsa state
      (some (project attention.key (state.position_base + state.token_count) input))
      (some (project (fun _ => attention.value) (state.position_base + state.token_count) input)) =
    .ok (state.with_cache (some (attention.keys_of state.position_base (ctx ++ input)))
      (some (attention.values_of state.position_base (ctx ++ input))) state.packed_key
      state.packed_value state.kv_q8 state.kv_q8_cold_tokens) := by
  rw [store_kv, if_neg hpacked, keys_of_append, values_of_append, ← htokens]
  by_cases hzero : state.token_count = 0
  · have hnil : ctx = [] := List.eq_nil_of_length_eq_zero (htokens ▸ hzero)
    rw [if_pos hzero, hnil]
    rfl
  · have hne : ctx ≠ [] := fun hnil => hzero (by rw [htokens, hnil, List.length_nil])
    obtain ⟨hkeys, hvalues⟩ := h.plain hplain hne
    rw [if_neg hzero, concatenate_kv, hkeys, hvalues]
    rfl

/-- A cache that is not quantised, with the keys and values of all tokens. -/
theorem caches_plain {packed_key packed_value : PackedQ8 R} {cold : Nat}
    (hplain : state.kv_q8 = false) (tokens : List X) :
    attention.Caches tokens
      (state.with_cache (some (attention.keys_of state.position_base tokens))
        (some (attention.values_of state.position_base tokens)) packed_key packed_value
        state.kv_q8 cold) where
  plain := fun _ _ => ⟨rfl, rfl⟩
  cold_le := fun h => absurd (hplain.symm.trans h) Bool.false_ne_true
  cold := fun h => absurd (hplain.symm.trans h) Bool.false_ne_true
  hot := fun h => absurd (hplain.symm.trans h) Bool.false_ne_true

/-- A quantised cache of which so many tokens are cold. -/
theorem caches_q8 {base cold : Nat} (hle : cold ≤ tokens.length)
    (hbase : base = state.position_base) :
    attention.Caches tokens
      (state.with_cache (some ((attention.keys_of base tokens).drop cold))
        (some ((attention.values_of base tokens).drop cold))
        (attention.packed ((attention.keys_of base tokens).take cold))
        (attention.packed ((attention.values_of base tokens).take cold)) true cold) where
  plain := fun h => absurd h.symm Bool.false_ne_true
  cold_le := fun _ => hle
  cold := fun _ _ => hbase ▸ ⟨rfl, rfl⟩
  hot := fun _ _ => hbase ▸ ⟨rfl, rfl⟩

/-- **Appending to a quantised cache**: whether the hot part is empty, is flushed to the cold
part or grows, and also when the cache only now becomes a quantised one. -/
theorem append_q8_kv_of_caches (h : attention.Caches ctx state)
    (htokens : state.token_count = ctx.length) (hne : ctx ≠ []) (input : List X) :
    ∃ cold, cold ≤ ctx.length ∧
      attention.append_q8_kv state
          (some (project attention.key (state.position_base + state.token_count) input))
          (some (project (fun _ => attention.value) (state.position_base + state.token_count)
            input)) =
        .ok (state.with_cache
          (some ((attention.keys_of state.position_base (ctx ++ input)).drop cold))
          (some ((attention.values_of state.position_base (ctx ++ input)).drop cold))
          (attention.packed ((attention.keys_of state.position_base (ctx ++ input)).take cold))
          (attention.packed ((attention.values_of state.position_base (ctx ++ input)).take cold))
          true cold) := by
  have hpos := List.length_pos_of_ne_nil hne
  have hkeys (cold : Nat) (hle : cold ≤ ctx.length) :
      (attention.keys_of state.position_base (ctx ++ input)).drop cold =
        (attention.keys_of state.position_base ctx).drop cold ++
          project attention.key (state.position_base + state.token_count) input := by
    rw [drop_keys_of_append _ _ hle, htokens]
  have hvalues (cold : Nat) (hle : cold ≤ ctx.length) :
      (attention.values_of state.position_base (ctx ++ input)).drop cold =
        (attention.values_of state.position_base ctx).drop cold ++
          project (fun _ => attention.value) (state.position_base + state.token_count) input := by
    rw [drop_values_of_append _ _ hle, htokens]
  have hcoldkeys {cold : Nat} (hle : cold ≤ ctx.length) :
      (attention.keys_of state.position_base (ctx ++ input)).take cold =
        (attention.keys_of state.position_base ctx).take cold := take_keys_of_append _ _ hle
  have hcoldvalues {cold : Nat} (hle : cold ≤ ctx.length) :
      (attention.values_of state.position_base (ctx ++ input)).take cold =
        (attention.values_of state.position_base ctx).take cold := take_values_of_append _ _ hle
  rw [append_q8_kv]
  cases hq8 : state.kv_q8 with
  | false =>
    obtain ⟨hkeep, hkeepvalues⟩ := h.plain hq8 hne
    refine ⟨state.token_count, (Nat.le_of_eq htokens), ?_⟩
    rw [if_pos rfl, start_q8_kv, Except.throw_if_of_not (by omega), Except.ok_bind, hkeep,
      hkeepvalues, hkeys _ (Nat.le_of_eq htokens), hvalues _ (Nat.le_of_eq htokens), hcoldkeys (Nat.le_of_eq htokens),
      hcoldvalues (Nat.le_of_eq htokens), List.drop_of_length_le (by simp [htokens]),
      List.drop_of_length_le (by simp [htokens]), List.take_of_length_le (by simp [htokens]),
      List.take_of_length_le (by simp [htokens])]
    rfl
  | true =>
    have hcold := h.cold_le hq8
    obtain ⟨hpackedkey, hpackedvalue⟩ := h.cold hq8 hne
    rw [if_neg (by simp)]
    dsimp only
    by_cases hempty : state.token_count - state.kv_q8_cold_tokens = 0
    · -- all tokens are cold
      have hall : state.kv_q8_cold_tokens = ctx.length := by omega
      refine ⟨state.kv_q8_cold_tokens, hcold, ?_⟩
      rw [if_pos hempty, hkeys _ hcold, hvalues _ hcold, hcoldkeys hcold, hcoldvalues hcold,
        ← hpackedkey, ← hpackedvalue, List.drop_of_length_le (by simp [hall]),
        List.drop_of_length_le (by simp [hall]), ← hq8]
      rfl
    · obtain ⟨hhot, hhotvalues⟩ := h.hot hq8 (by omega)
      rw [if_neg hempty]
      by_cases hflush : state.token_count - state.kv_q8_cold_tokens ≥ attention.q8_kv_flush_tokens
      · have hflushed : state.kv_q8_cold_tokens +
            (state.token_count - state.kv_q8_cold_tokens) = ctx.length := by omega
        refine ⟨state.kv_q8_cold_tokens + (state.token_count - state.kv_q8_cold_tokens),
          (Nat.le_of_eq hflushed), ?_⟩
        have hweights := congrArg PackedQ8.weights hpackedkey
        have hscales := congrArg PackedQ8.scales hpackedkey
        have hbiases := congrArg PackedQ8.biases hpackedkey
        have hvalue_weights := congrArg PackedQ8.weights hpackedvalue
        have hvalue_scales := congrArg PackedQ8.scales hpackedvalue
        have hvalue_biases := congrArg PackedQ8.biases hpackedvalue
        dsimp only at hweights hscales hbiases hvalue_weights hvalue_scales hvalue_biases
        rw [hkeys _ (Nat.le_of_eq hflushed), hvalues _ (Nat.le_of_eq hflushed), hcoldkeys (Nat.le_of_eq hflushed),
          hcoldvalues (Nat.le_of_eq hflushed), List.drop_of_length_le (by simp [hflushed]),
          List.drop_of_length_le (by simp [hflushed]), List.take_of_length_le (by simp [hflushed]),
          List.take_of_length_le (by simp [hflushed]),
          packed_eq_append state.kv_q8_cold_tokens (attention.keys_of state.position_base ctx),
          packed_eq_append state.kv_q8_cold_tokens (attention.values_of state.position_base ctx)]
        rw [if_pos hflush, flush_q8_kv, hhot, hhotvalues, hweights, hscales, hbiases,
          hvalue_weights, hvalue_scales, hvalue_biases, ← hq8]
        rfl
      · refine ⟨state.kv_q8_cold_tokens, hcold, ?_⟩
        rw [if_neg hflush, concatenate_kv, hhot, hhotvalues, hkeys _ hcold, hvalues _ hcold,
          hcoldkeys hcold, hcoldvalues hcold, ← hpackedkey, ← hpackedvalue, ← hq8]
        rfl

end SelfAttention

end Qwen38
