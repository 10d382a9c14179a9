import Qwen38.Layer.KvCache

/-!
# The steps of a full attention

What decode, verification and prefill return from a state of some tokens, and exactly when
they do. A verification returns one checkpoint for each of its rows, each of them a state of
the tokens up to its row (`SelfAttention.Checkpoints`).
-/

namespace Qwen38

variable {X R : Type}

namespace SelfAttention

variable {attention : SelfAttention X R} {ctx tokens input : List X} {x : X}
  {state origin working complete : AttentionState R}

/-! ### What the steps share -/

theorem Selects.two_le {total : Nat} {decode : Bool} (h : attention.Selects total decode) :
    2 ≤ total / attention.indexer_compress_ratio := by
  have hbudget := Nat.div_le_div_right (c := attention.indexer_compress_ratio)
    (attention.budget_ge decode)
  rw [Nat.div_self attention.ratio_pos] at hbudget
  exact Nat.lt_of_le_of_lt hbudget h

theorem Selects.one_lt {total : Nat} {decode : Bool} (h : attention.Selects total decode) :
    1 < total :=
  Nat.lt_of_lt_of_le h.two_le (Nat.div_le_self _ _)

/-- Keys and values join those of a state: a quantised cache needs a selection, and a cache
becomes quantised only when there are tokens. -/
theorem append_kv_of_caches (h : attention.Caches ctx state)
    (htokens : state.token_count = ctx.length) {want : Bool} {qsa : QsaSelection}
    (hq8 : state.kv_q8 = true → want = true ∧ qsa = .packed)
    (hstart : want = true → qsa = .packed → ctx ≠ []) (input : List X) :
    ∃ keys values packed_key packed_value kv_q8 cold,
      attention.append_kv want qsa input state =
        .ok ((state.with_cache keys values packed_key packed_value kv_q8 cold).with_tokens
          (ctx ++ input).length) ∧
      attention.Caches (ctx ++ input)
        (state.with_cache keys values packed_key packed_value kv_q8 cold) ∧
      (kv_q8 = true → qsa = .packed ∧ cold ≤ ctx.length) := by
  have hlength : state.token_count + input.length = (ctx ++ input).length := by
    rw [List.length_append, htokens]
  rw [append_kv]
  by_cases hpacked : want = true ∧ qsa = .packed
  · obtain ⟨cold, hcold, happend⟩ :=
      append_q8_kv_of_caches h htokens (hstart hpacked.1 hpacked.2) input
    have hle : cold ≤ (ctx ++ input).length := by
      rw [List.length_append]
      omega
    refine ⟨_, _, _, _, _, _, ?_, caches_q8 hle rfl, fun _ => ⟨hpacked.2, hcold⟩⟩
    rw [store_kv, if_pos hpacked, happend, Except.ok_bind, ← hlength]
  · have hplain : state.kv_q8 = false := by
      rw [Bool.eq_false_iff]
      exact fun hflag => hpacked (hq8 hflag)
    refine ⟨_, _, state.packed_key, state.packed_value, state.kv_q8, state.kv_q8_cold_tokens, ?_,
      caches_plain hplain (ctx ++ input),
      fun hflag => absurd (hplain.symm.trans hflag) Bool.false_ne_true⟩
    rw [store_kv_of_plain h htokens hplain hpacked input, Except.ok_bind, ← hlength]

/-- Without a selection, a cache is quantised after as it was before. -/
theorem kv_q8_of_append_kv {want : Bool} {qsa : QsaSelection} {state' : AttentionState R}
    (hqsa : qsa ≠ .packed) (h : attention.append_kv want qsa input state = .ok state') :
    state'.kv_q8 = state.kv_q8 := by
  obtain ⟨stored, hstore, h⟩ := Except.bind_eq_ok.mp h
  rw [← Except.ok.inj h]
  rw [store_kv, if_neg (fun hpacked => hqsa hpacked.2)] at hstore
  by_cases hzero : state.token_count = 0
  · rw [if_pos hzero] at hstore
    rw [← Except.ok.inj hstore]
  · rw [if_neg hzero] at hstore
    obtain ⟨keys, -, hstore⟩ := Except.bind_eq_ok.mp hstore
    obtain ⟨values, -, hstore⟩ := Except.bind_eq_ok.mp hstore
    rw [← Except.ok.inj hstore]

/-- The kernel takes a quantised cache whose hot part is not empty. -/
theorem packed_qsa_attention_q8_of (h : attention.Caches tokens state)
    (hq8 : state.kv_q8 = true) (htokens : state.token_count = tokens.length)
    (hmax : tokens.length ≤ int_max) (hhot : state.kv_q8_cold_tokens < tokens.length) :
    packed_qsa_attention_q8 state .packed = .ok () := by
  have hne : tokens ≠ [] := List.ne_nil_of_length_pos (by omega)
  obtain ⟨hkey, hvalue⟩ := h.cold hq8 hne
  obtain ⟨hkeys, hvalues⟩ := h.hot hq8 hhot
  have hweights := congrArg PackedQ8.weights hkey
  have hscales := congrArg PackedQ8.scales hkey
  have hbiases := congrArg PackedQ8.biases hkey
  have hvalue_weights := congrArg PackedQ8.weights hvalue
  have hvalue_scales := congrArg PackedQ8.scales hvalue
  have hvalue_biases := congrArg PackedQ8.biases hvalue
  dsimp only [packed] at hweights hscales hbiases hvalue_weights hvalue_scales hvalue_biases
  have hcold : min state.kv_q8_cold_tokens tokens.length = state.kv_q8_cold_tokens :=
    Nat.min_eq_left (Nat.le_of_lt hhot)
  rw [packed_qsa_attention_q8, hweights, hscales, hbiases, hvalue_weights, hvalue_scales,
    hvalue_biases, hkeys, hvalues, hq8, dimension_of _ (by omega) (by omega)]
  simp only [MlxArray.shape_some, Option.map_some, Option.getD_some, List.length_map,
    List.length_take, List.length_drop, length_keys_of, length_values_of, hcold]
  rw [Except.throw_if_of_not (by simp), Except.throw_if_of_not (by simp),
    Except.throw_if_of_not (by simp; omega)]
  rfl

theorem packed_of_packed_qsa_attention_q8 {qsa : QsaSelection} {u : Unit}
    (h : packed_qsa_attention_q8 state qsa = .ok u) : qsa = .packed ∧ state.key_weights ≠ none := by
  obtain ⟨_, hguard, -⟩ := Except.bind_eq_ok.mp h
  rw [Except.throw_if_eq_ok] at hguard
  exact ⟨by_contra fun hqsa => hguard (Or.inr (Or.inr (Or.inr (Or.inr hqsa)))),
    fun hnone => hguard (Or.inr (Or.inl hnone))⟩

/-- What an update and the keys and values of the new tokens make of a state. -/
theorem holds_of {raw pooled keys values : MlxArray R} {packed_key packed_value : PackedQ8 R}
    {start count cold : Nat} {kv_q8 : Bool}
    (hindexes : attention.Indexes tokens (state.with_index raw start pooled count))
    (hcaches : attention.Caches tokens ((state.with_index raw start pooled count).with_cache keys
      values packed_key packed_value kv_q8 cold)) :
    attention.Holds tokens (((state.with_index raw start pooled count).with_cache keys values
      packed_key packed_value kv_q8 cold).with_tokens tokens.length) :=
  ⟨rfl, ⟨hindexes.start_le, hindexes.pooled_le, hindexes.raw, hindexes.pooled⟩,
    ⟨hcaches.plain, hcaches.cold_le, hcaches.cold, hcaches.hot⟩⟩

theorem want_q8_of_kv_q8 (h : state.kv_q8 = true) (resulting_tokens : Nat) :
    attention.want_q8 state resulting_tokens = true := by
  rw [want_q8, h, Bool.true_or]

/-! ### Decode -/

/-- **A decode** is accepted by a cache that is not quantised, and by a quantised one when
there is a selection. -/
theorem forward_decode_of_holds (hwindow : attention.WindowCoversBlock)
    (h : attention.Holds ctx state) (hmax : (ctx ++ [x]).length ≤ int_max)
    (haccepts : state.kv_q8 = true → attention.Selects (ctx ++ [x]).length true) :
    ∃ state', attention.forward_decode x state = .ok state' ∧
      attention.Holds (ctx ++ [x]) state' ∧
      (state'.kv_q8 = true → attention.Selects (ctx ++ [x]).length true) := by
  obtain ⟨raw, start, pooled, count, hupdate, hindexes, -⟩ :=
    update_of_indexes hwindow h.indexes h.token_count (List.cons_ne_nil x []) hmax
      (attention.want_q8 state (state.token_count + 1)) true
  have hq8 (hflag : (state.with_index raw start pooled count).kv_q8 = true) :
      attention.want_q8 state (state.token_count + 1) = true ∧
        attention.selection (ctx ++ [x]).length
          (attention.want_q8 state (state.token_count + 1)) true = .packed :=
    have hwant := attention.want_q8_of_kv_q8 hflag (state.token_count + 1)
    ⟨hwant, selection_eq_packed.mpr ⟨hwant, haccepts hflag⟩⟩
  have hstate : attention.Caches ctx (state.with_index raw start pooled count) :=
    ⟨h.caches.plain, h.caches.cold_le, h.caches.cold, h.caches.hot⟩
  obtain ⟨keys, values, packed_key, packed_value, kv_q8, cold, happend, hcaches, hcold⟩ :=
    append_kv_of_caches hstate h.token_count hq8
      (fun _ hpacked hnil => by
        have hone := (selection_eq_packed.mp hpacked).2.one_lt
        rw [hnil] at hone
        exact absurd hone (by simp)) [x]
  have hholds := holds_of hindexes hcaches
  refine ⟨_, ?_, hholds, fun hflag => (selection_eq_packed.mp (hcold hflag).1).2⟩
  rw [forward_decode]
  dsimp only
  rw [hupdate, Except.ok_bind, happend, Except.ok_bind]
  cases hflag : kv_q8 with
  | false => rfl
  | true =>
    obtain ⟨hpacked, hle⟩ := hcold hflag
    subst hflag
    have hlt : cold < (ctx ++ [x]).length := by
      rw [List.length_append, List.length_singleton]
      omega
    have hkernel := packed_qsa_attention_q8_of hholds.caches rfl rfl hmax hlt
    rw [if_pos rfl, hpacked, Except.throw_if_of_not (by simp), Except.ok_bind]
    dsimp only
    rw [hkernel]
    rfl

theorem selects_of_forward_decode (hwindow : attention.WindowCoversBlock)
    (h : attention.Holds ctx state) (hmax : (ctx ++ [x]).length ≤ int_max)
    {state' : AttentionState R} (hdecode : attention.forward_decode x state = .ok state')
    (hq8 : state.kv_q8 = true) : attention.Selects (ctx ++ [x]).length true := by
  obtain ⟨raw, start, pooled, count, hupdate, -, -⟩ :=
    update_of_indexes hwindow h.indexes h.token_count (List.cons_ne_nil x []) hmax
      (attention.want_q8 state (state.token_count + 1)) true
  rw [forward_decode] at hdecode
  dsimp only at hdecode
  rw [hupdate, Except.ok_bind] at hdecode
  obtain ⟨appended, happend, hdecode⟩ := Except.bind_eq_ok.mp hdecode
  by_contra hselects
  have hqsa : attention.selection (ctx ++ [x]).length
      (attention.want_q8 state (state.token_count + 1)) true ≠ .packed :=
    fun hpacked => hselects (selection_eq_packed.mp hpacked).2
  have hflag : appended.kv_q8 = true := (kv_q8_of_append_kv hqsa happend).trans hq8
  rw [if_pos hflag, Except.throw_if_of hqsa] at hdecode
  exact absurd hdecode (by simp)

/-! ### Copies of a state -/

/-- A copy of a state, up to what is not read of a state. -/
structure Copies (copy state : AttentionState R) : Prop where
  token_count : copy.token_count = state.token_count
  position_base : copy.position_base = state.position_base
  qsa_raw_start : copy.qsa_raw_start = state.qsa_raw_start
  qsa_pooled_count : copy.qsa_pooled_count = state.qsa_pooled_count
  kv_q8 : copy.kv_q8 = state.kv_q8
  cold_le : copy.kv_q8_cold_tokens ≤ state.kv_q8_cold_tokens
  cold : state.kv_q8 = true → state.token_count ≠ 0 →
    copy.kv_q8_cold_tokens = state.kv_q8_cold_tokens
  qsa_raw_keys : state.token_count ≠ 0 → copy.qsa_raw_keys = state.qsa_raw_keys
  qsa_pooled_keys : state.token_count ≠ 0 → state.qsa_pooled_count ≠ 0 →
    copy.qsa_pooled_keys = state.qsa_pooled_keys
  packed : state.token_count ≠ 0 → state.kv_q8 = true →
    copy.packed_key = state.packed_key ∧ copy.packed_value = state.packed_value
  rows : state.token_count ≠ 0 →
    (state.kv_q8 = true → state.kv_q8_cold_tokens < state.token_count) →
      copy.keys = state.keys ∧ copy.values = state.values

theorem copies_snapshot (state : AttentionState R) : Copies state.snapshot state := by
  rw [SelfAttentionState.snapshot]
  dsimp only
  split_ifs <;> constructor <;> simp_all

/-- **A copy of a state of some tokens is one too.** A copy shares the arrays of the original as
long as there are any tokens, and only these are asked about. -/
theorem Holds.of_copies {copy : AttentionState R} (h : attention.Holds tokens state)
    (hcopy : Copies copy state) : attention.Holds tokens copy where
  token_count := hcopy.token_count.trans h.token_count
  indexes :=
    { start_le := by
        rw [hcopy.qsa_raw_start, hcopy.qsa_pooled_count]
        exact h.indexes.start_le
      pooled_le := by
        rw [hcopy.qsa_pooled_count]
        exact h.indexes.pooled_le
      raw := fun hne => by
        have hpos := List.length_pos_of_ne_nil hne
        rw [hcopy.qsa_raw_keys (by rw [h.token_count]; omega), hcopy.qsa_raw_start]
        exact h.indexes.raw hne
      pooled := fun hpooled => by
        rw [hcopy.qsa_pooled_count] at hpooled ⊢
        have hpos := Nat.mul_pos (Nat.pos_of_ne_zero hpooled) attention.ratio_pos
        have hle := h.indexes.pooled_le
        rw [hcopy.qsa_pooled_keys (by rw [h.token_count]; omega) hpooled, hcopy.position_base]
        exact h.indexes.pooled hpooled }
  caches :=
    { plain := fun hplain hne => by
        have hpos := List.length_pos_of_ne_nil hne
        rw [hcopy.kv_q8] at hplain
        obtain ⟨hkeys, hvalues⟩ := hcopy.rows (by rw [h.token_count]; omega)
          (fun hq8 => absurd (hplain.symm.trans hq8) Bool.false_ne_true)
        rw [hkeys, hvalues, hcopy.position_base]
        exact h.caches.plain hplain hne
      cold_le := fun hq8 =>
        Nat.le_trans hcopy.cold_le (h.caches.cold_le (hcopy.kv_q8.symm.trans hq8))
      cold := fun hq8 hne => by
        have hpos := List.length_pos_of_ne_nil hne
        rw [hcopy.kv_q8] at hq8
        have hsome : state.token_count ≠ 0 := by rw [h.token_count]; omega
        obtain ⟨hkey, hvalue⟩ := hcopy.packed hsome hq8
        rw [hkey, hvalue, hcopy.position_base, hcopy.cold hq8 hsome]
        exact h.caches.cold hq8 hne
      hot := fun hq8 hhot => by
        rw [hcopy.kv_q8] at hq8
        have hsome : state.token_count ≠ 0 := by rw [h.token_count]; omega
        rw [hcopy.cold hq8 hsome] at hhot ⊢
        obtain ⟨hkeys, hvalues⟩ := hcopy.rows hsome fun _ => by rw [h.token_count]; exact hhot
        rw [hkeys, hvalues, hcopy.position_base]
        exact h.caches.hot hq8 hhot }

theorem Holds.share (h : attention.Holds tokens state) :
    attention.Holds tokens (share_attention_state state) :=
  h.of_copies (copies_snapshot state)

theorem kv_q8_share : (share_attention_state state).kv_q8 = state.kv_q8 :=
  (copies_snapshot state).kv_q8

/-- The index rows of a state, in a new one. -/
theorem Holds.share_index (h : attention.Holds tokens state) :
    attention.Indexes tokens (share_index state) ∧
      (SelfAttention.share_index state).token_count = tokens.length ∧
      (SelfAttention.share_index state).kv_q8 = false ∧
      (SelfAttention.share_index state).position_base = state.position_base := by
  rw [SelfAttention.share_index]
  by_cases hzero : state.token_count = 0
  · have hnil : tokens = [] := List.eq_nil_of_length_eq_zero (h.token_count ▸ hzero)
    rw [if_neg (not_not.mpr hzero)]
    refine ⟨⟨h.indexes.start_le, h.indexes.pooled_le, fun hne => absurd hnil hne,
      fun hpooled => absurd h.indexes.pooled_le ?_⟩, h.token_count, rfl, rfl⟩
    have hpos := Nat.mul_pos (Nat.pos_of_ne_zero hpooled) attention.ratio_pos
    rw [hnil, List.length_nil]
    exact Nat.not_le.mpr hpos
  · rw [if_pos hzero]
    refine ⟨⟨h.indexes.start_le, h.indexes.pooled_le, h.indexes.raw, fun hpooled => ?_⟩,
      h.token_count, rfl, rfl⟩
    exact (if_pos hpooled).trans (h.indexes.pooled hpooled)

/-! ### Verification -/

/-- The checkpoints of a verification: one for each row, of the tokens up to it. -/
structure Checkpoints (attention : SelfAttention X R) (ctx input : List X)
    (checkpoints : List (AttentionState R)) : Prop where
  length : checkpoints.length = input.length
  holds : ∀ row checkpoint, checkpoints[row]? = some checkpoint →
    attention.Holds (ctx ++ input.take (row + 1)) checkpoint

theorem checkpoints_nil : attention.Checkpoints ctx [] [] :=
  ⟨rfl, fun row checkpoint h => absurd h (by simp)⟩

/-- The checkpoint of the first row, and those of the others. -/
theorem Checkpoints.cons {checkpoints : List (AttentionState R)}
    (hfirst : attention.Holds (ctx ++ [x]) state)
    (hrest : attention.Checkpoints (ctx ++ [x]) input checkpoints) :
    attention.Checkpoints ctx (x :: input) (state :: checkpoints) where
  length := by rw [List.length_cons, List.length_cons, hrest.length]
  holds := fun row checkpoint hget => by
    cases row with
    | zero =>
      obtain rfl := Option.some.inj hget
      rwa [List.take_succ_cons, List.take_zero]
    | succ row =>
      rw [List.take_succ_cons, List.append_cons]
      exact hrest.holds row checkpoint hget

/-- **The verification of a quantised cache row by row.** Each row is appended as a decode would
append it, and the state behind it is its checkpoint; the first row needs a selection, and then all
have one. -/
theorem verify_q8_rows_of_holds (hwindow : attention.WindowCoversBlock)
    (h : attention.Holds ctx working) (hmax : (ctx ++ input).length ≤ int_max)
    (haccepts : working.kv_q8 = true → attention.Selects (ctx.length + 1) true) :
    ∃ checkpoints, attention.verify_q8_rows input working = .ok checkpoints ∧
      attention.Checkpoints ctx input checkpoints := by
  induction input generalizing ctx working with
  | nil => exact ⟨[], rfl, checkpoints_nil⟩
  | cons x input ih =>
    rw [List.append_cons] at hmax
    have hmax' := hmax
    rw [List.length_append] at hmax'
    obtain ⟨working', hdecode, hholds, hselects⟩ :=
      forward_decode_of_holds (x := x) hwindow h (by omega) (by simpa using haccepts)
    obtain ⟨checkpoints, hrest, hcheckpoints⟩ :=
      ih hholds hmax fun hq8 => (hselects hq8).mono (Nat.le_succ _)
    refine ⟨_, ?_, hcheckpoints.cons hholds.share⟩
    rw [verify_q8_rows, hdecode, Except.ok_bind, hrest]
    rfl

/-- The first tokens of the hot part. -/
theorem slice_drop_rows {rows : List R} {cold stop : Nat} (h : cold ≤ stop) :
    MlxArray.slice (some (rows.drop cold)) 0 (stop - cold) =
      .ok (some ((rows.take stop).drop cold)) := by
  rw [MlxArray.slice, Window.slice, List.drop_zero, List.take_drop, Nat.add_sub_cancel' h]

theorem keys_of_take (base : Nat) (tokens : List X) (count : Nat) :
    attention.keys_of base (tokens.take count) = (attention.keys_of base tokens).take count :=
  project_take tokens count

theorem values_of_take (base : Nat) (tokens : List X) (count : Nat) :
    attention.values_of base (tokens.take count) = (attention.values_of base tokens).take count :=
  project_take tokens count

/-- A quantised cache cut back to tokens behind its cold part. -/
theorem Caches.take_q8 {checkpoint : AttentionState R} (h : attention.Caches tokens complete)
    (hq8 : complete.kv_q8 = true) {count : Nat} (hcount : count ≤ tokens.length) (hne : tokens ≠ [])
    (hcold : complete.kv_q8_cold_tokens ≤ count)
    (hflag : checkpoint.kv_q8 = true) (hbase : checkpoint.position_base = complete.position_base)
    (hsame : checkpoint.kv_q8_cold_tokens = complete.kv_q8_cold_tokens)
    (hkey : checkpoint.packed_key = complete.packed_key)
    (hvalue : checkpoint.packed_value = complete.packed_value)
    (hkeys : checkpoint.keys = some (((attention.keys_of complete.position_base tokens).take
      count).drop complete.kv_q8_cold_tokens))
    (hvalues : checkpoint.values = some (((attention.values_of complete.position_base tokens).take
      count).drop complete.kv_q8_cold_tokens)) :
    attention.Caches (tokens.take count) checkpoint where
  plain := fun hplain => absurd (hplain.symm.trans hflag) Bool.false_ne_true
  cold_le := fun _ => by
    rw [hsame, List.length_take, Nat.min_eq_left hcount]
    exact hcold
  cold := fun _ _ => by
    obtain ⟨hcompletekey, hcompletevalue⟩ := h.cold hq8 hne
    rw [hkey, hvalue, hsame, hbase, keys_of_take, values_of_take, List.take_take, List.take_take,
      Nat.min_eq_left hcold]
    exact ⟨hcompletekey, hcompletevalue⟩
  hot := fun _ _ => by
    rw [hkeys, hvalues, hsame, hbase, keys_of_take, values_of_take]
    exact ⟨rfl, rfl⟩

/-- A checkpoint of the batched verification of a quantised cache. -/
theorem q8_checkpoint_of_holds (h : attention.Holds tokens complete)
    (hq8 : complete.kv_q8 = true) (hmax : tokens.length ≤ int_max) {origin_tokens row : Nat}
    (hcold : complete.kv_q8_cold_tokens ≤ origin_tokens)
    (hrow : origin_tokens + row + 1 ≤ tokens.length)
    (hstart : complete.qsa_raw_start ≤ (origin_tokens + row + 1) /
      attention.indexer_compress_ratio * attention.indexer_compress_ratio)
    (hlt : complete.qsa_raw_start < origin_tokens + row + 1) :
    ∃ checkpoint, attention.q8_checkpoint complete
        (origin_tokens - complete.kv_q8_cold_tokens) origin_tokens row = .ok checkpoint ∧
      attention.Holds (tokens.take (origin_tokens + row + 1)) checkpoint := by
  have hne : tokens ≠ [] := List.ne_nil_of_length_pos (by omega)
  have hsome : complete.token_count ≠ 0 := by rw [h.token_count]; omega
  have hcopy := copies_snapshot complete
  obtain ⟨hkey, hvalue⟩ := hcopy.packed hsome hq8
  obtain ⟨hkeys, hvalues⟩ := h.caches.hot hq8 (by omega)
  have hstop : origin_tokens - complete.kv_q8_cold_tokens + (row + 1) =
      origin_tokens + row + 1 - complete.kv_q8_cold_tokens := by omega
  obtain ⟨raw, start, pooled, count, hcheckpoint, hindexes⟩ :=
    copy_qsa_checkpoint_of_indexes { share_attention_state complete with
        keys := some (((attention.keys_of complete.position_base tokens).take
          (origin_tokens + row + 1)).drop complete.kv_q8_cold_tokens)
        values := some (((attention.values_of complete.position_base tokens).take
          (origin_tokens + row + 1)).drop complete.kv_q8_cold_tokens)
        token_count := origin_tokens + row + 1 }
      h.indexes h.token_count hmax (by omega) hrow hstart hlt hcopy.position_base
  refine ⟨_, ?_, ?_, hindexes, ?_⟩
  · rw [q8_checkpoint]
    dsimp only
    rw [dimension_of _ (by omega) (by omega), Except.ok_bind, hstop, hkeys, hvalues,
      slice_drop_rows (by omega), Except.ok_bind, slice_drop_rows (by omega), Except.ok_bind]
    exact hcheckpoint
  · rw [List.length_take, Nat.min_eq_left hrow]
  · exact h.caches.take_q8 hq8 hrow hne (by omega) (hcopy.kv_q8.trans hq8) hcopy.position_base
      (hcopy.cold hq8 hsome) hkey hvalue rfl rfl

/-- The rows of the input of a verification. -/
theorem take_append_row {row : Nat} (ctx input : List X) :
    (ctx ++ input).take (ctx.length + row + 1) = ctx ++ input.take (row + 1) := by
  rw [Nat.add_assoc, List.take_append, List.take_of_length_le (Nat.le_add_right _ _),
    Nat.add_sub_cancel_left]

/-- Where the batched verification of a quantised cache returns. -/
def AcceptsQ8Batched (attention : SelfAttention X R) (input : List X) (state : AttentionState R) :
    Prop :=
  attention.Selects (state.token_count + input.length) true ∧
    state.kv_q8_cold_tokens < state.token_count

/-- **The batched verification of a quantised cache** that has a hot part. The new rows stay hot, so
that the checkpoint of a row is the origin with some of them behind its own hot rows. -/
theorem verify_q8_batched_of_holds (hwindow : attention.WindowCoversBlock)
    (h : attention.Holds ctx origin) (hinput : input ≠ []) (hmax : (ctx ++ input).length ≤ int_max)
    (hq8 : origin.kv_q8 = true) (haccepts : attention.AcceptsQ8Batched input origin) :
    ∃ checkpoints, attention.verify_q8_batched input origin = .ok checkpoints ∧
      attention.Checkpoints ctx input checkpoints := by
  obtain ⟨hselects, hhot⟩ := haccepts
  have htokens := h.token_count
  have hlength : origin.token_count + input.length = (ctx ++ input).length := by
    rw [List.length_append, htokens]
  have hshare := h.share
  have hcopy := copies_snapshot origin
  have hsome : origin.token_count ≠ 0 := by omega
  have hne : ctx ≠ [] := List.ne_nil_of_length_pos (by omega)
  have hpos := List.length_pos_of_ne_nil hinput
  obtain ⟨raw, start, pooled, count, hupdate, hindexes, hstart⟩ :=
    update_of_indexes hwindow hshare.indexes hshare.token_count hinput hmax true true
  obtain ⟨hkey, hvalue⟩ := hshare.caches.cold (hcopy.kv_q8.trans hq8) hne
  obtain ⟨hkeys, hvalues⟩ := h.caches.hot hq8 (by omega)
  have hcold : (share_attention_state origin).kv_q8_cold_tokens = origin.kv_q8_cold_tokens :=
    hcopy.cold hq8 hsome
  have hbase : (share_attention_state origin).position_base = origin.position_base :=
    hcopy.position_base
  have hjoin : join_rows (origin.token_count ≠ origin.kv_q8_cold_tokens) origin.keys
      (some (project attention.key (origin.position_base + origin.token_count) input)) =
        .ok (some ((attention.keys_of origin.position_base (ctx ++ input)).drop
          origin.kv_q8_cold_tokens)) := by
    rw [join_rows, if_pos (by simp; omega), hkeys, drop_keys_of_append _ _ (by omega), ← htokens]
    rfl
  have hjoinvalues : join_rows (origin.token_count ≠ origin.kv_q8_cold_tokens) origin.values
      (some (project (fun _ => attention.value) (origin.position_base + origin.token_count)
        input)) =
        .ok (some ((attention.values_of origin.position_base (ctx ++ input)).drop
          origin.kv_q8_cold_tokens)) := by
    rw [join_rows, if_pos (by simp; omega), hvalues, drop_values_of_append _ _ (by omega),
      ← htokens]
    rfl
  -- the state with all rows of the input
  have hcomplete : attention.Holds (ctx ++ input)
      { (share_attention_state origin).with_index raw start pooled count with
        keys := some ((attention.keys_of origin.position_base (ctx ++ input)).drop
          origin.kv_q8_cold_tokens)
        values := some ((attention.values_of origin.position_base (ctx ++ input)).drop
          origin.kv_q8_cold_tokens)
        token_count := origin.token_count + input.length } :=
    { token_count := hlength
      indexes := ⟨hindexes.start_le, hindexes.pooled_le, hindexes.raw, hindexes.pooled⟩
      caches :=
        { plain := fun hplain =>
            absurd (hplain.symm.trans (hcopy.kv_q8.trans hq8)) Bool.false_ne_true
          cold_le := fun _ => by
            dsimp only
            rw [hcold, ← hlength]
            omega
          cold := fun _ _ => by
            rw [take_keys_of_append _ _ (by dsimp only; omega),
              take_values_of_append _ _ (by dsimp only; omega)]
            exact ⟨hkey, hvalue⟩
          hot := fun _ _ => by
            dsimp only
            rw [hcold, hbase]
            exact ⟨rfl, rfl⟩ } }
  obtain ⟨checkpoints, hmapM, hcount, hall⟩ := Except.mapM_range_ok (n := input.length)
    (P := fun row checkpoint => attention.Holds (ctx ++ input.take (row + 1)) checkpoint)
    fun row hrow => by
      have hle := hstart (ctx.length + row + 1) (by omega)
      have hblocks := hstart ctx.length le_rfl
      have hdiv := Nat.div_mul_le_self ctx.length attention.indexer_compress_ratio
      rw [← take_append_row]
      exact q8_checkpoint_of_holds hcomplete (hcopy.kv_q8.trans hq8) hmax
        (by dsimp only; omega)
        (show ctx.length + row + 1 ≤ (ctx ++ input).length by rw [List.length_append]; omega) hle
        (by dsimp only; omega)
  refine ⟨checkpoints, ?_, hcount, hall⟩
  have hkernel := packed_qsa_attention_q8_of hcomplete.caches (hcopy.kv_q8.trans hq8) hlength hmax
    (by dsimp only; omega)
  have hpacked : attention.selection (ctx ++ input).length true true = .packed :=
    selection_eq_packed.mpr ⟨rfl, hlength ▸ hselects⟩
  rw [verify_q8_batched, hupdate, Except.ok_bind]
  dsimp only
  rw [hjoin, Except.ok_bind, hjoinvalues, Except.ok_bind, dimension_of _ (by omega) (by omega),
    Except.ok_bind]
  rw [hcold, ← htokens] at hmapM
  rw [hmapM, Except.ok_bind, hpacked, hkernel]
  rfl

theorem accepts_of_verify_q8_batched (hwindow : attention.WindowCoversBlock)
    (h : attention.Holds ctx origin) (hinput : input ≠ []) (hmax : (ctx ++ input).length ≤ int_max)
    {checkpoints : List (AttentionState R)}
    (hverify : attention.verify_q8_batched input origin = .ok checkpoints) :
    attention.AcceptsQ8Batched input origin := by
  have hshare := h.share
  obtain ⟨raw, start, pooled, count, hupdate, -, -⟩ :=
    update_of_indexes hwindow hshare.indexes hshare.token_count hinput hmax true true
  rw [verify_q8_batched, hupdate, Except.ok_bind] at hverify
  obtain ⟨keys, -, hverify⟩ := Except.bind_eq_ok.mp hverify
  obtain ⟨values, -, hverify⟩ := Except.bind_eq_ok.mp hverify
  obtain ⟨origin_hot, hhot, hverify⟩ := Except.bind_eq_ok.mp hverify
  obtain ⟨all, -, hverify⟩ := Except.bind_eq_ok.mp hverify
  obtain ⟨u, hkernel, -⟩ := Except.bind_eq_ok.mp hverify
  constructor
  · rw [h.token_count, ← List.length_append]
    exact (selection_eq_packed.mp (packed_of_packed_qsa_attention_q8 hkernel).1).2
  · rw [dimension] at hhot
    split at hhot
    · exact absurd hhot (by simp)
    · omega

/-! ### Verification of a cache that is not quantised -/

/-- The keys and values of all tokens, with those of new ones. -/
theorem complete_kv_of_holds (h : attention.Holds ctx origin) (hplain : origin.kv_q8 = false)
    (input : List X) :
    attention.complete_kv input origin =
      .ok (some (attention.keys_of origin.position_base (ctx ++ input)),
        some (attention.values_of origin.position_base (ctx ++ input))) := by
  have htokens := h.token_count
  rw [complete_kv]
  rw [keys_of_append, values_of_append, ← htokens, join_rows, join_rows]
  by_cases hzero : origin.token_count = 0
  · have hnil : ctx = [] := List.eq_nil_of_length_eq_zero (htokens ▸ hzero)
    rw [if_neg (by simp [hzero]), if_neg (by simp [hzero]), hnil]
    rfl
  · have hne : ctx ≠ [] := fun hnil => hzero (by rw [htokens, hnil, List.length_nil])
    obtain ⟨hkeys, hvalues⟩ := h.caches.plain hplain hne
    rw [if_pos (by simpa using hzero), if_pos (by simpa using hzero), hkeys, hvalues]
    rfl

/-- A new state with all keys and values of some tokens. -/
theorem caches_of_plain {base : Nat} (hplain : state.kv_q8 = false)
    (hbase : state.position_base = base)
    (hkeys : state.keys = some (attention.keys_of base tokens))
    (hvalues : state.values = some (attention.values_of base tokens)) :
    attention.Caches tokens state where
  plain := fun _ _ => hbase ▸ ⟨hkeys, hvalues⟩
  cold_le := fun h => absurd (hplain.symm.trans h) Bool.false_ne_true
  cold := fun h => absurd (hplain.symm.trans h) Bool.false_ne_true
  hot := fun h => absurd (hplain.symm.trans h) Bool.false_ne_true

/-- A checkpoint of the batched verification. -/
theorem sdpa_checkpoint_of (hindexes : attention.Indexes tokens complete)
    (htokens : complete.token_count = tokens.length) (hmax : tokens.length ≤ int_max)
    (hkeys : complete.keys = some (attention.keys_of complete.position_base tokens))
    (hvalues : complete.values = some (attention.values_of complete.position_base tokens))
    {origin_tokens row : Nat} (hrow : origin_tokens + row + 1 ≤ tokens.length)
    (hstart : complete.qsa_raw_start ≤ (origin_tokens + row + 1) /
      attention.indexer_compress_ratio * attention.indexer_compress_ratio)
    (hlt : complete.qsa_raw_start < origin_tokens + row + 1) :
    ∃ checkpoint, attention.sdpa_checkpoint complete origin_tokens row = .ok checkpoint ∧
      attention.Holds (tokens.take (origin_tokens + row + 1)) checkpoint := by
  obtain ⟨raw, start, pooled, count, hcheckpoint, hcopied⟩ :=
    copy_qsa_checkpoint_of_indexes { (default : AttentionState R) with
        keys := some ((attention.keys_of complete.position_base tokens).take
          (origin_tokens + row + 1))
        values := some ((attention.values_of complete.position_base tokens).take
          (origin_tokens + row + 1))
        token_count := origin_tokens + row + 1
        position_base := complete.position_base }
      hindexes htokens hmax (by omega) hrow hstart hlt rfl
  refine ⟨_, ?_, ?_, hcopied, ?_⟩
  · rw [sdpa_checkpoint, dimension_of _ (by omega) (by omega), Except.ok_bind, hkeys, hvalues,
      MlxArray.slice, MlxArray.slice, Window.slice, Window.slice]
    exact hcheckpoint
  · rw [List.length_take, Nat.min_eq_left hrow]
  · refine caches_of_plain rfl rfl ?_ ?_
    · rw [keys_of_take]
    · rw [values_of_take]

/-- **The batched verification** of a cache that is not quantised. The checkpoints are slices of the
rows that the whole batch has come to. -/
theorem verify_sdpa_batched_of_holds (hwindow : attention.WindowCoversBlock)
    (h : attention.Holds ctx origin) (hinput : input ≠ []) (hmax : (ctx ++ input).length ≤ int_max)
    (hplain : origin.kv_q8 = false) :
    ∃ checkpoints, attention.verify_sdpa_batched input origin = .ok checkpoints ∧
      attention.Checkpoints ctx input checkpoints := by
  obtain ⟨hshared, hcount, -, hbase⟩ := h.share_index
  obtain ⟨raw, start, pooled, count, hupdate, hindexes, hstart⟩ :=
    update_of_indexes hwindow hshared hcount hinput hmax false true
  have htokens := h.token_count
  have hlength : origin.token_count + input.length = (ctx ++ input).length := by
    rw [List.length_append, htokens]
  obtain ⟨checkpoints, hmapM, hcheckpoints, hall⟩ := Except.mapM_range_ok (n := input.length)
    (f := attention.sdpa_checkpoint
      (((SelfAttention.share_index origin).with_index raw start pooled count).with_rows
        (attention.keys_of origin.position_base (ctx ++ input))
        (attention.values_of origin.position_base (ctx ++ input))
        (origin.token_count + input.length)) ctx.length)
    (P := fun row checkpoint => attention.Holds (ctx ++ input.take (row + 1)) checkpoint)
    fun row hrow => by
      have hle := hstart (ctx.length + row + 1) (by omega)
      have hblocks := hstart ctx.length le_rfl
      have hdiv := Nat.div_mul_le_self ctx.length attention.indexer_compress_ratio
      rw [← take_append_row]
      have hcomplete : attention.Indexes (ctx ++ input)
          (((SelfAttention.share_index origin).with_index raw start pooled count).with_rows
            (attention.keys_of origin.position_base (ctx ++ input))
            (attention.values_of origin.position_base (ctx ++ input))
            (origin.token_count + input.length)) :=
        ⟨hindexes.start_le, hindexes.pooled_le, hindexes.raw, hindexes.pooled⟩
      refine sdpa_checkpoint_of hcomplete hlength hmax ?_ ?_
        (by rw [List.length_append]; omega) hle (by dsimp only; omega)
      · rw [← hbase]
      · rw [← hbase]
  refine ⟨checkpoints, ?_, hcheckpoints, hall⟩
  rw [verify_sdpa_batched, hupdate, Except.ok_bind]
  dsimp only
  rw [complete_kv_of_holds h hplain, Except.ok_bind]
  rw [← htokens] at hmapM
  exact hmapM

/-- What the verification row by row finds of the keys and values: those of the tokens, or
those of all its rows at once. -/
def WorkingRows (attention : SelfAttention X R) (ctx input : List X)
    (complete : Option (MlxArray R × MlxArray R)) (working : AttentionState R) : Prop :=
  match complete with
  | some complete =>
    complete = (some (attention.keys_of working.position_base (ctx ++ input)),
      some (attention.values_of working.position_base (ctx ++ input)))
  | none => attention.Caches ctx working

/-- The keys and values after a row. -/
theorem verify_row_kv_of {complete : Option (MlxArray R × MlxArray R)}
    (h : attention.WorkingRows ctx (x :: input) complete working)
    (htokens : working.token_count = ctx.length) (hplain : working.kv_q8 = false)
    (hmax : (ctx ++ [x]).length ≤ int_max) :
    attention.verify_row_kv complete x working =
      .ok (working.with_rows (attention.keys_of working.position_base (ctx ++ [x]))
        (attention.values_of working.position_base (ctx ++ [x])) (working.token_count + 1)) := by
  have hlength : working.token_count + 1 = (ctx ++ [x]).length := by
    rw [List.length_append, htokens, List.length_singleton]
  cases complete with
  | none =>
    rw [verify_row_kv, append_kv]
    rw [store_kv_of_plain h htokens hplain (by simp), Except.ok_bind]
    rfl
  | some complete =>
    obtain rfl := h
    have htake (row : Nat → X → R) (base : Nat) :
        (project row base (ctx ++ x :: input)).take (working.token_count + 1) =
          project row base (ctx ++ [x]) := by
      rw [List.append_cons, project_append, hlength, List.take_left' (length_project _)]
    rw [verify_row_kv]
    rw [dimension_of _ (by omega) (by omega), Except.ok_bind, MlxArray.slice, MlxArray.slice,
      Window.slice, Window.slice, keys_of, values_of, htake, htake]
    rfl

/-- **The rows of the verification row by row.** -/
theorem verify_working_of (hwindow : attention.WindowCoversBlock)
    {complete : Option (MlxArray R × MlxArray R)} (hindexes : attention.Indexes ctx working)
    (htokens : working.token_count = ctx.length) (hplain : working.kv_q8 = false)
    (hrows : attention.WorkingRows ctx input complete working)
    (hmax : (ctx ++ input).length ≤ int_max) :
    ∃ checkpoints, attention.verify_working complete input working = .ok checkpoints ∧
      attention.Checkpoints ctx input checkpoints := by
  induction input generalizing ctx working with
  | nil => exact ⟨[], rfl, checkpoints_nil⟩
  | cons x input ih =>
    have hmax' := hmax
    rw [List.append_cons] at hmax
    rw [List.append_cons, List.length_append] at hmax'
    obtain ⟨raw, start, pooled, count, hupdate, hnext, -⟩ :=
      update_of_indexes hwindow hindexes htokens (List.cons_ne_nil x []) (by omega)
        false true
    -- the index of the row changes none of the keys and values
    have hworking : attention.WorkingRows ctx (x :: input) complete
        (working.with_index raw start pooled count) := by
      cases complete with
      | none => exact ⟨hrows.plain, hrows.cold_le, hrows.cold, hrows.hot⟩
      | some complete => exact hrows
    have hrow := verify_row_kv_of hworking htokens hplain (by omega)
    have hlength : working.token_count + 1 = (ctx ++ [x]).length := by
      rw [List.length_append, htokens, List.length_singleton]
    have hindexed : attention.Indexes (ctx ++ [x])
        ((working.with_index raw start pooled count).with_rows
          (attention.keys_of working.position_base (ctx ++ [x]))
          (attention.values_of working.position_base (ctx ++ [x])) (working.token_count + 1)) :=
      ⟨hnext.start_le, hnext.pooled_le, hnext.raw, hnext.pooled⟩
    obtain ⟨checkpoints, hrest, hcheckpoints⟩ := ih hindexed hlength hplain
      (by
        cases complete with
        | none => exact caches_of_plain hplain rfl rfl rfl
        | some complete =>
          rw [WorkingRows, ← List.append_cons]
          exact hrows)
      hmax
    -- the state stored for the row takes over what it is to hold, and nothing of the rows behind it
    have hcheckpoint : attention.Holds (ctx ++ [x])
        (row_checkpoint ((working.with_index raw start pooled count).with_rows
          (attention.keys_of working.position_base (ctx ++ [x]))
          (attention.values_of working.position_base (ctx ++ [x])) (working.token_count + 1))) :=
      ⟨hlength, ⟨hnext.start_le, hnext.pooled_le, hnext.raw,
        fun hpooled => (if_pos hpooled).trans (hnext.pooled hpooled)⟩,
        caches_of_plain rfl rfl rfl rfl⟩
    refine ⟨_, ?_, Checkpoints.cons hcheckpoint hcheckpoints⟩
    rw [verify_working, hupdate, Except.ok_bind]
    dsimp only
    rw [hrow, Except.ok_bind]
    dsimp only
    rw [hrest]
    rfl

/-- **The verification row by row** of a cache that is not quantised, whether the rows were written
ahead or come with each row. -/
theorem verify_rows_of_holds (hwindow : attention.WindowCoversBlock)
    (h : attention.Holds ctx origin) (hmax : (ctx ++ input).length ≤ int_max)
    (hplain : origin.kv_q8 = false) :
    ∃ checkpoints, attention.verify_rows input origin = .ok checkpoints ∧
      attention.Checkpoints ctx input checkpoints := by
  obtain ⟨hindexes, hcount, hflag, hbase⟩ := h.share_index
  -- the first working state, with the keys and values of the tokens if there are any
  have hworking : ∃ keys values,
      (if origin.token_count ≠ 0 then
        { SelfAttention.share_index origin with keys := origin.keys, values := origin.values }
      else SelfAttention.share_index origin) =
        { SelfAttention.share_index origin with keys := keys, values := values } ∧
      (ctx ≠ [] → keys = some (attention.keys_of origin.position_base ctx) ∧
        values = some (attention.values_of origin.position_base ctx)) := by
    by_cases hzero : origin.token_count = 0
    · refine ⟨_, _, if_neg (not_not.mpr hzero), fun hne => absurd hne (not_not.mpr ?_)⟩
      exact List.eq_nil_of_length_eq_zero (h.token_count ▸ hzero)
    · exact ⟨_, _, if_pos hzero, h.caches.plain hplain⟩
  obtain ⟨keys, values, hworking, hrows⟩ := hworking
  rw [verify_rows]
  dsimp only
  rw [hworking]
  by_cases hbatch : input.length > 1 ∧ attention.batch_kv_verify = true
  · rw [if_pos hbatch, complete_kv_of_holds h hplain, ← hbase]
    exact verify_working_of hwindow ⟨hindexes.start_le, hindexes.pooled_le, hindexes.raw,
      hindexes.pooled⟩ hcount hflag rfl hmax
  · rw [if_neg hbatch]
    refine verify_working_of hwindow ⟨hindexes.start_le, hindexes.pooled_le, hindexes.raw,
      hindexes.pooled⟩ hcount hflag ?_ hmax
    exact
      { plain := fun _ hne => by
          dsimp only
          rw [hbase]
          exact hrows hne
        cold_le := fun hq8 => absurd (hflag.symm.trans hq8) Bool.false_ne_true
        cold := fun hq8 => absurd (hflag.symm.trans hq8) Bool.false_ne_true
        hot := fun hq8 => absurd (hflag.symm.trans hq8) Bool.false_ne_true }

/-! ### When a step is accepted -/

/-- Where a decode returns. -/
def AcceptsDecode (attention : SelfAttention X R) (state : AttentionState R) : Prop :=
  state.kv_q8 = true → attention.Selects (state.token_count + 1) true

/-- Where a verification returns: a quantised cache needs a selection, for the first row or,
when all rows are verified at once, for all of them and then also a hot part. -/
def AcceptsVerify (attention : SelfAttention X R) (input : List X) (state : AttentionState R) :
    Prop :=
  state.kv_q8 = true →
    if input.length > 1 ∧ attention.batch_q8_verify then attention.AcceptsQ8Batched input state
    else attention.Selects (state.token_count + 1) true

/-- Where a prefill returns. -/
def AcceptsPrefill (attention : SelfAttention X R) (input : List X) (state : AttentionState R) :
    Prop :=
  if attention.sdpa_prefill = false ∨ input.length < 16 then attention.AcceptsVerify input state
  else state.kv_q8 = true →
    attention.Selects (state.token_count + input.length) false ∧ state.token_count ≠ 0

/-- **Decode.** On a state of its tokens a decode returns exactly if the cache is not quantised or
there is a selection; nothing else that it checks can fail. -/
theorem forward_decode_iff (hwindow : attention.WindowCoversBlock)
    (h : attention.Holds ctx state) (hmax : (ctx ++ [x]).length ≤ int_max) :
    (∃ state', attention.forward_decode x state = .ok state') ↔ attention.AcceptsDecode state := by
  rw [AcceptsDecode, h.token_count]
  rw [List.length_append, List.length_singleton] at hmax
  constructor
  · rintro ⟨state', hdecode⟩ hq8
    simpa using selects_of_forward_decode hwindow h (by simpa using hmax) hdecode hq8
  · intro haccepts
    obtain ⟨state', hdecode, -⟩ :=
      forward_decode_of_holds (x := x) hwindow h (by simpa using hmax) (by simpa using haccepts)
    exact ⟨state', hdecode⟩

/-- The checkpoints of a verification that is accepted. -/
theorem forward_verify_of_holds (hwindow : attention.WindowCoversBlock)
    (h : attention.Holds ctx origin) (hinput : input ≠ []) (hrows : input.length ≤ 512)
    (hmax : (ctx ++ input).length ≤ int_max) (haccepts : attention.AcceptsVerify input origin) :
    ∃ checkpoints, attention.forward_verify input origin = .ok checkpoints ∧
      attention.Checkpoints ctx input checkpoints := by
  have hpos := List.length_pos_of_ne_nil hinput
  rw [forward_verify, Except.throw_if_of_not (by omega), Except.ok_bind]
  by_cases hwant : attention.want_q8 origin (origin.token_count + input.length) = true
  · rw [if_pos hwant]
    by_cases hbatch : input.length > 1 ∧ origin.kv_q8 = true ∧ attention.batch_q8_verify = true
    · rw [if_pos hbatch]
      have haccepted := haccepts hbatch.2.1
      rw [if_pos ⟨hbatch.1, hbatch.2.2⟩] at haccepted
      exact verify_q8_batched_of_holds hwindow h hinput hmax hbatch.2.1 haccepted
    · rw [if_neg hbatch]
      refine verify_q8_rows_of_holds hwindow h.share hmax fun hq8 => ?_
      rw [kv_q8_share] at hq8
      have haccepted := haccepts hq8
      rw [if_neg fun hboth => hbatch ⟨hboth.1, hq8, hboth.2⟩, h.token_count] at haccepted
      exact haccepted
  · have hplain : origin.kv_q8 = false := by
      rw [Bool.eq_false_iff]
      exact fun hq8 => hwant (want_q8_of_kv_q8 hq8 _)
    rw [if_neg hwant]
    split
    · exact verify_sdpa_batched_of_holds hwindow h hinput hmax hplain
    · exact verify_rows_of_holds hwindow h hmax hplain

theorem accepts_of_forward_verify (hwindow : attention.WindowCoversBlock)
    (h : attention.Holds ctx origin) (hinput : input ≠ [])
    (hmax : (ctx ++ input).length ≤ int_max) {checkpoints : List (AttentionState R)}
    (hverify : attention.forward_verify input origin = .ok checkpoints) :
    attention.AcceptsVerify input origin := by
  intro hq8
  obtain ⟨_, -, hverify⟩ := Except.bind_eq_ok.mp hverify
  rw [if_pos (want_q8_of_kv_q8 hq8 _)] at hverify
  split
  · rename_i hbatch
    rw [if_pos ⟨hbatch.1, hq8, hbatch.2⟩] at hverify
    exact accepts_of_verify_q8_batched hwindow h hinput hmax hverify
  · rename_i hbatch
    rw [if_neg fun hboth => hbatch ⟨hboth.1, hboth.2.2⟩] at hverify
    cases input with
    | nil => exact absurd rfl hinput
    | cons x input =>
      rw [List.append_cons, List.length_append] at hmax
      obtain ⟨working, hdecode, -⟩ := Except.bind_eq_ok.mp hverify
      have hselects := selects_of_forward_decode hwindow h.share (by omega) hdecode
        (kv_q8_share.trans hq8)
      rw [h.token_count]
      simpa using hselects

theorem rows_of_forward_verify {checkpoints : List (AttentionState R)}
    (hverify : attention.forward_verify input origin = .ok checkpoints) :
    input ≠ [] ∧ input.length ≤ 512 := by
  obtain ⟨_, hguard, -⟩ := Except.bind_eq_ok.mp hverify
  rw [Except.throw_if_eq_ok] at hguard
  exact ⟨List.ne_nil_of_length_pos (by omega), by omega⟩

/-- **Verification.** It goes over its rows in one of four ways, by the switches and by whether the
cache is quantised, and for each of them the condition is the one that the state has to meet before
the first row. -/
theorem forward_verify_iff (hwindow : attention.WindowCoversBlock)
    (h : attention.Holds ctx origin) (hinput : input ≠ []) (hrows : input.length ≤ 512)
    (hmax : (ctx ++ input).length ≤ int_max) :
    (∃ checkpoints, attention.forward_verify input origin = .ok checkpoints) ↔
      attention.AcceptsVerify input origin := by
  constructor
  · rintro ⟨checkpoints, hverify⟩
    exact accepts_of_forward_verify hwindow h hinput hmax hverify
  · intro haccepts
    obtain ⟨checkpoints, hverify, -⟩ :=
      forward_verify_of_holds hwindow h hinput hrows hmax haccepts
    exact ⟨checkpoints, hverify⟩

/-- The state after a prefill that attends to all rows at once. -/
theorem prefill_sdpa_of_holds (hwindow : attention.WindowCoversBlock)
    (h : attention.Holds ctx state) (hinput : input ≠ []) (hrows : input.length ≤ 512)
    (hmax : (ctx ++ input).length ≤ int_max)
    (haccepts : state.kv_q8 = true →
      attention.Selects (state.token_count + input.length) false ∧ state.token_count ≠ 0) :
    ∃ state', attention.prefill_sdpa input state = .ok state' ∧
      attention.Holds (ctx ++ input) state' := by
  have htokens := h.token_count
  have hlength : state.token_count + input.length = (ctx ++ input).length := by
    rw [List.length_append, htokens]
  have hpos := List.length_pos_of_ne_nil hinput
  generalize hwant : attention.want_q8 state (state.token_count + input.length) = want
  generalize hpacked : (want || (attention.packed_qsa &&
    state.token_count + input.length ≥ attention.packed_qsa_min_tokens)) = packed
  obtain ⟨raw, start, pooled, count, hupdate, hindexes, -⟩ :=
    update_of_indexes hwindow h.indexes htokens hinput hmax packed false
  have hwanted (hflag : want = true) : packed = true := by rw [← hpacked, hflag, Bool.true_or]
  have hstate : attention.Caches ctx (state.with_index raw start pooled count) :=
    ⟨h.caches.plain, h.caches.cold_le, h.caches.cold, h.caches.hot⟩
  have hq8 (hflag : (state.with_index raw start pooled count).kv_q8 = true) :
      want = true ∧ attention.selection (ctx ++ input).length packed false = .packed :=
    have hwanting : want = true := hwant.symm.trans (want_q8_of_kv_q8 hflag _)
    ⟨hwanting, selection_eq_packed.mpr ⟨hwanted hwanting, hlength ▸ (haccepts hflag).1⟩⟩
  obtain ⟨keys, values, packed_key, packed_value, kv_q8, cold, happend, hcaches, hcold⟩ :=
    append_kv_of_caches hstate htokens hq8
      (fun hflag _ hnil => by
        -- a cache of no tokens is too short to become a quantised one
        rw [hnil, List.length_nil] at htokens
        rw [want_q8, htokens] at hwant
        have hmin := attention.min_tokens_admitted
        cases hq8 : state.kv_q8 with
        | true => exact (haccepts hq8).2 htokens
        | false =>
          rw [hq8, Bool.false_or] at hwant
          rw [← hwant] at hflag
          simp at hflag
          omega) input
  have hholds := holds_of hindexes hcaches
  refine ⟨_, ?_, hholds⟩
  rw [prefill_sdpa]
  dsimp only
  rw [hwant, hpacked, hupdate, Except.ok_bind]
  dsimp only
  rw [happend, Except.ok_bind]
  cases hflag : kv_q8 with
  | false => rfl
  | true =>
    obtain ⟨hselection, hle⟩ := hcold hflag
    subst hflag
    have hkernel := packed_qsa_attention_q8_of hholds.caches rfl rfl hmax
      (show cold < (ctx ++ input).length by rw [List.length_append]; omega)
    rw [if_pos rfl, hselection, hkernel]
    rfl

theorem accepts_of_prefill_sdpa (hwindow : attention.WindowCoversBlock)
    (h : attention.Holds ctx state) (hinput : input ≠ [])
    (hmax : (ctx ++ input).length ≤ int_max)
    (hempty : state.kv_q8 = true → state.token_count = 0 → state.key_weights = none)
    {state' : AttentionState R} (hprefill : attention.prefill_sdpa input state = .ok state')
    (hq8 : state.kv_q8 = true) :
    attention.Selects (state.token_count + input.length) false ∧ state.token_count ≠ 0 := by
  have hlength : state.token_count + input.length = (ctx ++ input).length := by
    rw [List.length_append, h.token_count]
  rw [prefill_sdpa] at hprefill
  dsimp only at hprefill
  rw [want_q8_of_kv_q8 hq8, Bool.true_or] at hprefill
  obtain ⟨raw, start, pooled, count, hupdate, -, -⟩ :=
    update_of_indexes hwindow h.indexes h.token_count hinput hmax true false
  rw [hupdate, Except.ok_bind] at hprefill
  obtain ⟨appended, happend, hprefill⟩ := Except.bind_eq_ok.mp hprefill
  have hselects : attention.Selects (ctx ++ input).length false := by
    by_contra hselects
    have hqsa : attention.selection (ctx ++ input).length true false ≠ .packed :=
      fun hpacked => hselects (selection_eq_packed.mp hpacked).2
    have hflag : appended.kv_q8 = true := (kv_q8_of_append_kv hqsa happend).trans hq8
    rw [if_pos hflag] at hprefill
    obtain ⟨u, hkernel, -⟩ := Except.bind_eq_ok.mp hprefill
    exact hqsa (packed_of_packed_qsa_attention_q8 hkernel).1
  refine ⟨hlength ▸ hselects, fun hzero => ?_⟩
  -- without tokens there is nothing quantised that the kernel could take
  obtain ⟨stored, hstore, happend⟩ := Except.bind_eq_ok.mp happend
  have happended := Except.ok.inj happend
  rw [store_kv, if_pos ⟨rfl, selection_eq_packed.mpr ⟨rfl, hselects⟩⟩, append_q8_kv,
    if_neg (by simp [hq8])] at hstore
  dsimp only at hstore
  rw [if_pos (by omega)] at hstore
  have hstored := Except.ok.inj hstore
  have hflag : appended.kv_q8 = true := by rw [← happended, ← hstored]; exact hq8
  have hweights : appended.key_weights = none := by
    rw [← happended, ← hstored]
    exact hempty hq8 hzero
  rw [if_pos hflag] at hprefill
  obtain ⟨u, hkernel, -⟩ := Except.bind_eq_ok.mp hprefill
  exact (packed_of_packed_qsa_attention_q8 hkernel).2 hweights

/-- The state after a prefill that is accepted. -/
theorem forward_prefill_of_holds (hwindow : attention.WindowCoversBlock)
    (h : attention.Holds ctx state) (hinput : input ≠ []) (hrows : input.length ≤ 512)
    (hmax : (ctx ++ input).length ≤ int_max) (haccepts : attention.AcceptsPrefill input state) :
    ∃ state', attention.forward_prefill input state = .ok state' ∧
      attention.Holds (ctx ++ input) state' := by
  have hpos := List.length_pos_of_ne_nil hinput
  rw [forward_prefill, Except.throw_if_of_not (by omega), Except.ok_bind]
  rw [AcceptsPrefill] at haccepts
  by_cases hverify : attention.sdpa_prefill = false ∨ input.length < 16
  · rw [if_pos hverify] at haccepts ⊢
    obtain ⟨checkpoints, hrun, hcheckpoints⟩ :=
      forward_verify_of_holds hwindow h hinput hrows hmax haccepts
    have hcount := hcheckpoints.length
    obtain ⟨state', hlast⟩ : ∃ state', checkpoints[input.length - 1]? = some state' :=
      ⟨_, List.getElem?_eq_getElem (by omega)⟩
    have hholds := hcheckpoints.holds _ _ hlast
    rw [Nat.sub_add_cancel hpos, List.take_length] at hholds
    refine ⟨state', ?_, hholds⟩
    rw [hrun, Except.ok_bind, List.getLastD_eq_getLast?, List.getLast?_eq_getElem?, hcount, hlast]
    rfl
  · rw [if_neg hverify] at haccepts ⊢
    exact prefill_sdpa_of_holds hwindow h hinput hrows hmax haccepts

theorem rows_of_forward_prefill {state' : AttentionState R}
    (hprefill : attention.forward_prefill input state = .ok state') :
    input ≠ [] ∧ input.length ≤ 512 := by
  obtain ⟨_, hguard, -⟩ := Except.bind_eq_ok.mp hprefill
  rw [Except.throw_if_eq_ok] at hguard
  exact ⟨List.ne_nil_of_length_pos (by omega), by omega⟩

/-- **Prefill** of up to 512 rows. Where it does not attend to all rows at once it is a verification
whose last checkpoint is kept; where it does, a quantised cache needs rows already. -/
theorem forward_prefill_iff (hwindow : attention.WindowCoversBlock)
    (h : attention.Holds ctx state) (hinput : input ≠ []) (hrows : input.length ≤ 512)
    (hmax : (ctx ++ input).length ≤ int_max)
    (hempty : state.kv_q8 = true → state.token_count = 0 → state.key_weights = none) :
    (∃ state', attention.forward_prefill input state = .ok state') ↔
      attention.AcceptsPrefill input state := by
  constructor
  · rintro ⟨state', hprefill⟩
    obtain ⟨_, -, hprefill⟩ := Except.bind_eq_ok.mp hprefill
    rw [AcceptsPrefill]
    split
    · rename_i hverify
      rw [if_pos hverify] at hprefill
      obtain ⟨checkpoints, hrun, -⟩ := Except.bind_eq_ok.mp hprefill
      exact accepts_of_forward_verify hwindow h hinput hmax hrun
    · rename_i hverify
      rw [if_neg hverify] at hprefill
      exact accepts_of_prefill_sdpa hwindow h hinput hmax hempty hprefill
  · intro haccepts
    obtain ⟨state', hprefill, -⟩ :=
      forward_prefill_of_holds hwindow h hinput hrows hmax haccepts
    exact ⟨state', hprefill⟩

end SelfAttention

end Qwen38
