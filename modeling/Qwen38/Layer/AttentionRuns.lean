import Qwen38.Layer.AttentionSteps
import Qwen38.Layer.StateFile

/-!
# Runs of a full attention

What a full attention can come to, from the empty state or from any state that
`load_decoder` accepts whose rows are those of some tokens, by decode, prefill, verification
committed at any row, snapshot, and saving and loading (`SelfAttention.Runs`): its rows are
always those of its tokens, its index rows cover each of them
(`SelfAttention.index_rows_of_runs`), and it is said for each state that is reached which
next steps are accepted (`SelfAttention.kv_cache_of_runs`).

`load_decoder` accepts a state of which all tokens are cold, and so do decode and prefill;
the batched verification reads the number of hot tokens as a dimension, which may not be
zero, and throws (`SelfAttention.verify_of_cold_state`).
-/

namespace Qwen38

variable {X R : Type}

section Load

variable {A : Type} [Inhabited A] {shape2 : A → Nat} {layer : String} {file : MlxSafetensors A}

omit [Inhabited A] in
theorem token_count_of_load_q8 {state state' : SelfAttentionState A}
    (h : load_q8 shape2 layer file state = .ok state') : state'.token_count = state.token_count := by
  obtain ⟨key_weights, -, h⟩ := Except.bind_eq_ok.mp h
  obtain ⟨key_scales, -, h⟩ := Except.bind_eq_ok.mp h
  obtain ⟨key_biases, -, h⟩ := Except.bind_eq_ok.mp h
  obtain ⟨value_weights, -, h⟩ := Except.bind_eq_ok.mp h
  obtain ⟨value_scales, -, h⟩ := Except.bind_eq_ok.mp h
  obtain ⟨value_biases, -, h⟩ := Except.bind_eq_ok.mp h
  split at h
  all_goals
    obtain ⟨cold, -, h⟩ := Except.bind_eq_ok.mp h
    obtain ⟨_, -, h⟩ := Except.bind_eq_ok.mp h
    dsimp only at h
    split at h
  all_goals
    first
    | rw [← Except.ok.inj h]
    | obtain ⟨keys, -, h⟩ := Except.bind_eq_ok.mp h
      obtain ⟨values, -, h⟩ := Except.bind_eq_ok.mp h
      rw [← Except.ok.inj h]

omit [Inhabited A] in
theorem token_count_of_load_rows {state state' : SelfAttentionState A}
    (h : load_rows shape2 layer file state = .ok state') :
    state'.token_count = state.token_count := by
  have hend (state₀ : SelfAttentionState A) (hstate : state₀.token_count = state.token_count)
      (hend : (do
        let qsa_raw_keys ← file.tensor (layer ++ ".attention.qsa_raw_keys")
        let state₀ := { state₀ with qsa_raw_keys := qsa_raw_keys }
        if state₀.qsa_pooled_count ≠ 0 then do
          let qsa_pooled_keys ← file.tensor (layer ++ ".attention.qsa_pooled_keys")
          .ok { state₀ with qsa_pooled_keys := qsa_pooled_keys }
        else .ok state₀) = .ok state') : state'.token_count = state.token_count := by
    obtain ⟨raw, -, hend⟩ := Except.bind_eq_ok.mp hend
    dsimp only at hend
    split at hend
    · obtain ⟨pooled, -, hend⟩ := Except.bind_eq_ok.mp hend
      rw [← Except.ok.inj hend]
      exact hstate
    · rw [← Except.ok.inj hend]
      exact hstate
  rw [load_rows] at h
  split at h
  · obtain ⟨state₀, hq8, h⟩ := Except.bind_eq_ok.mp h
    exact hend state₀ (token_count_of_load_q8 hq8) h
  · obtain ⟨keys, -, h⟩ := Except.bind_eq_ok.mp h
    obtain ⟨values, -, h⟩ := Except.bind_eq_ok.mp h
    exact hend { state with keys := keys, values := values } rfl h

/-- What is read of a file for a layer without tokens has no quantised rows. -/
theorem key_weights_of_load_decoder {decoder : DecoderLayerState A A}
    (h : load_decoder shape2 layer file = .ok decoder)
    (hzero : decoder.full_attention.token_count = 0) :
    decoder.full_attention.key_weights = default := by
  obtain ⟨linear, -, h⟩ := Except.bind_eq_ok.mp h
  obtain ⟨full, hfull, h⟩ := Except.bind_eq_ok.mp h
  obtain ⟨ple, -, h⟩ := Except.bind_eq_ok.mp h
  obtain rfl := Except.ok.inj h
  have hend (state : SelfAttentionState A) (hstate : state.key_weights = default)
      (hend : (if state.token_count ≠ 0 then load_rows shape2 layer file state else .ok state) =
        .ok full) : full.key_weights = default := by
    split at hend
    · rename_i hne
      exact absurd ((token_count_of_load_rows hend).symm.trans hzero) hne
    · rw [← Except.ok.inj hend]
      exact hstate
  obtain ⟨token_count, -, hfull⟩ := Except.bind_eq_ok.mp hfull
  obtain ⟨position_base, -, hfull⟩ := Except.bind_eq_ok.mp hfull
  dsimp only at hfull
  split at hfull
  all_goals
    obtain ⟨raw_start, -, hfull⟩ := Except.bind_eq_ok.mp hfull
    obtain ⟨pooled_count, -, hfull⟩ := Except.bind_eq_ok.mp hfull
    split at hfull
  all_goals
    obtain ⟨kv_q8, -, hfull⟩ := Except.bind_eq_ok.mp hfull
    exact hend { (default : SelfAttentionState A) with
      token_count := token_count
      position_base := position_base
      qsa_raw_start := raw_start
      qsa_pooled_count := pooled_count
      kv_q8 := kv_q8 } rfl hfull

end Load

namespace SelfAttention

variable (attention : SelfAttention X R)

/-- What a full attention can come to, with the tokens it has then. The rows of an array are
counted by an `int`. -/
inductive Runs : List X → AttentionState R → Prop
  | start (position_base : Nat) :
      Runs [] { (default : AttentionState R) with position_base := position_base }
  | restored {ctx shape2 layer file} {decoder : DecoderLayerState (MlxArray R) (MlxArray R)} :
      load_decoder shape2 layer file = .ok decoder →
      attention.Holds ctx decoder.full_attention →
      ctx.length ≤ int_max →
      Runs ctx decoder.full_attention
  | decode {ctx state state' x} :
      Runs ctx state →
      (ctx ++ [x]).length ≤ int_max →
      attention.forward_decode x state = .ok state' →
      Runs (ctx ++ [x]) state'
  | prefill {ctx state state' input} :
      Runs ctx state →
      (ctx ++ input).length ≤ int_max →
      attention.forward_prefill input state = .ok state' →
      Runs (ctx ++ input) state'
  | verify {ctx state state' input checkpoints} (accepted : Nat) :
      Runs ctx state →
      (ctx ++ input).length ≤ int_max →
      attention.forward_verify input state = .ok checkpoints →
      checkpoints[accepted]? = some state' →
      Runs (ctx ++ input.take (accepted + 1)) state'
  | snapshot {ctx state} : Runs ctx state → Runs ctx state.snapshot
  | reload {ctx shape2 layer} {file : MlxSafetensors (MlxArray R)}
      {decoder decoder' : DecoderLayerState (MlxArray R) (MlxArray R)}
      {metadata : List (String × Bytes)} {arrays : List (String × MlxArray R)} :
      Runs ctx decoder.full_attention →
      decoder.InRange →
      Foreign (metadata_names layer) file.metadata_entries →
      Foreign (array_names layer) file.array_entries →
      load_decoder shape2 layer
        ⟨(append_decoder layer decoder file).metadata_entries ++ metadata,
          (append_decoder layer decoder file).array_entries ++ arrays⟩ = .ok decoder' →
      Runs ctx decoder'.full_attention

variable {attention} {ctx tokens input : List X} {x : X} {state : AttentionState R}

theorem copies_kept (state : AttentionState R) : Copies state.kept state := by
  have hcopy := copies_snapshot state
  rw [SelfAttentionState.kept]
  split
  · exact hcopy
  · rename_i hplain
    exact { hcopy with
      cold_le := Nat.zero_le _
      cold := fun hq8 hne => absurd ⟨hne, hq8⟩ hplain }

theorem holds_start (position_base : Nat) :
    attention.Holds [] { (default : AttentionState R) with position_base := position_base } where
  token_count := rfl
  indexes := ⟨Nat.zero_le _, by simp [show (default : AttentionState R).qsa_pooled_count = 0 from rfl],
    fun hne => absurd rfl hne, fun hne => absurd rfl hne⟩
  caches := ⟨fun _ hne => absurd rfl hne, fun _ => le_rfl, fun _ hne => absurd rfl hne,
    fun hq8 => absurd hq8 Bool.false_ne_true⟩

theorem length_le_of_runs (h : attention.Runs ctx state) : ctx.length ≤ int_max := by
  induction h with
  | start position_base => exact Nat.zero_le _
  | restored _ _ hmax => exact hmax
  | decode _ hmax _ _ => exact hmax
  | prefill _ hmax _ _ => exact hmax
  | verify accepted _ hmax _ _ _ =>
    refine Nat.le_trans ?_ hmax
    rw [List.length_append, List.length_append, List.length_take]
    omega
  | snapshot _ ih => exact ih
  | reload _ _ _ _ _ ih => exact ih

/-- **The rows of a state that is reached are those of its tokens**, and a quantised cache without
tokens has no quantised rows. By induction on the run, with one lemma for each way to take a
step. -/
theorem holds_of_runs (hwindow : attention.WindowCoversBlock) (h : attention.Runs ctx state) :
    attention.Holds ctx state ∧
      (state.kv_q8 = true → state.token_count = 0 → state.key_weights = none) := by
  -- a step leaves tokens, so that the second fact is one of the first state alone
  have hsome {tokens : List X} {state : AttentionState R} (hholds : attention.Holds tokens state)
      (hne : tokens ≠ []) (hzero : state.token_count = 0) : state.key_weights = none :=
    absurd (List.eq_nil_of_length_eq_zero (hholds.token_count ▸ hzero)) hne
  induction h with
  | start position_base => exact ⟨holds_start position_base, fun _ _ => rfl⟩
  | restored hload hholds _ =>
    exact ⟨hholds, fun _ hzero => key_weights_of_load_decoder hload hzero⟩
  | @decode ctx state state' x _ hmax hdecode ih =>
    obtain ⟨decoded, hrun, hholds, -⟩ := forward_decode_of_holds (x := x) hwindow ih.1 hmax
      fun hq8 => selects_of_forward_decode hwindow ih.1 hmax hdecode hq8
    obtain rfl := Except.ok.inj (hrun.symm.trans hdecode)
    exact ⟨hholds, fun _ => hsome hholds (by simp)⟩
  | @prefill ctx state state' input _ hmax hprefill ih =>
    obtain ⟨hinput, hrows⟩ := rows_of_forward_prefill hprefill
    have haccepts :=
      (forward_prefill_iff hwindow ih.1 hinput hrows hmax ih.2).mp ⟨state', hprefill⟩
    obtain ⟨prefilled, hrun, hholds⟩ :=
      forward_prefill_of_holds hwindow ih.1 hinput hrows hmax haccepts
    obtain rfl := Except.ok.inj (hrun.symm.trans hprefill)
    exact ⟨hholds, fun _ => hsome hholds (List.append_ne_nil_of_right_ne_nil ctx hinput)⟩
  | @verify ctx state state' input checkpoints accepted _ hmax hverify hget ih =>
    obtain ⟨hinput, hrows⟩ := rows_of_forward_verify hverify
    obtain ⟨verified, hrun, hcheckpoints⟩ := forward_verify_of_holds hwindow ih.1 hinput hrows hmax
      (accepts_of_forward_verify hwindow ih.1 hinput hmax hverify)
    obtain rfl := Except.ok.inj (hrun.symm.trans hverify)
    have hholds := hcheckpoints.holds accepted state' hget
    refine ⟨hholds, fun _ => hsome hholds (List.append_ne_nil_of_right_ne_nil ctx ?_)⟩
    simpa using hinput
  | @snapshot ctx state _ ih =>
    have hcopy := copies_snapshot state
    refine ⟨ih.1.of_copies hcopy, fun _ hzero => ?_⟩
    rw [hcopy.token_count] at hzero
    rw [SelfAttentionState.snapshot, if_neg (not_not.mpr hzero)]
    rfl
  | @reload ctx shape2 layer file decoder decoder' metadata arrays _ hrange hmetadata harrays
      hload ih =>
    have hkept := load_decoder_of_holds shape2
      (holds_append_decoder metadata arrays hmetadata harrays) hrange
      fun _ hq8 => by
        rw [ih.1.token_count]
        exact ih.1.caches.cold_le hq8
    obtain rfl := Except.ok.inj (hkept.symm.trans hload)
    exact ⟨ih.1.of_copies (copies_kept decoder.full_attention),
      fun _ hzero => key_weights_of_load_decoder hload hzero⟩

/-- **The index rows cover every token**: a token has a raw row or is in a pooled block; so
no block is pooled and no verification cut back for which a row is missing, and the state
stored for each row of a verification is as good as any other. -/
theorem index_rows_of_runs (hwindow : attention.WindowCoversBlock) (h : attention.Runs ctx state) :
    state.token_count = ctx.length ∧
      (ctx ≠ [] → state.qsa_raw_keys =
        some ((ctx.map attention.index_key).drop state.qsa_raw_start)) ∧
      state.qsa_raw_start ≤ state.qsa_pooled_count * attention.indexer_compress_ratio ∧
      state.qsa_pooled_count * attention.indexer_compress_ratio ≤ state.token_count ∧
      attention.Indexes ctx state ∧
      (∀ token < state.token_count, state.qsa_raw_start ≤ token ∨
        token < state.qsa_pooled_count * attention.indexer_compress_ratio) ∧
      (∃ state', attention.materialize_qsa_pools state state.token_count = .ok state') ∧
      (∀ input packed decode_verification copy, input ≠ [] → (ctx ++ input).length ≤ int_max →
        copy = state ∨ copy = share_attention_state state ∨ copy = share_index state →
        ∃ complete selection,
          attention.update_qsa_and_build_mask input copy packed decode_verification =
            .ok (complete, selection) ∧
          ∀ row < input.length, ∀ checkpoint : AttentionState R,
            checkpoint.position_base = complete.position_base →
            ∃ checkpoint', attention.copy_qsa_checkpoint
                (complete.with_tokens (state.token_count + input.length))
                (state.token_count + row + 1) checkpoint = .ok checkpoint' ∧
              attention.Indexes (ctx ++ input.take (row + 1)) checkpoint') ∧
      ∀ input checkpoints, (ctx ++ input).length ≤ int_max →
        attention.forward_verify input state = .ok checkpoints →
        checkpoints.length = input.length ∧ ∀ row checkpoint, checkpoints[row]? = some checkpoint →
          checkpoint.token_count = state.token_count + row + 1 ∧
            attention.Indexes (ctx ++ input.take (row + 1)) checkpoint := by
  obtain ⟨hholds, -⟩ := holds_of_runs hwindow h
  have htokens := hholds.token_count
  have hindexes := hholds.indexes
  have hstart := hindexes.start_le
  have hpooled := hindexes.pooled_le
  refine ⟨htokens, hindexes.raw, hstart, htokens ▸ hpooled, hindexes, fun token _ => ?_, ?_, ?_, ?_⟩
  · rcases Nat.lt_or_ge token
      (state.qsa_pooled_count * attention.indexer_compress_ratio) with hlt | hge
    · exact Or.inr hlt
    · exact Or.inl (Nat.le_trans hstart hge)
  · rw [htokens]
    -- no blocks in a new state; behind a token the raw rows reach back to the last pooled block
    by_cases hnil : ctx = []
    · have hzero : state.qsa_pooled_count = 0 := by
        rw [hnil, List.length_nil] at hpooled
        exact (Nat.mul_eq_zero.mp (Nat.le_zero.mp hpooled)).resolve_right
          (Nat.ne_of_gt attention.ratio_pos)
      refine ⟨state, ?_⟩
      rw [materialize_qsa_pools, hnil, hzero, List.length_nil, Nat.zero_div,
        Except.throw_if_of_not (by omega)]
      rfl
    · obtain ⟨pooled, hmaterialize, -⟩ :=
        materialize_of_indexes hindexes hnil (length_le_of_runs h)
      exact ⟨_, hmaterialize⟩
  · intro input packed decode copy hinput hmax hcopy
    -- a step works on the state itself, on a share of it, or on a share of its index
    have hcopied : attention.Indexes ctx copy ∧ copy.token_count = ctx.length := by
      rcases hcopy with rfl | rfl | rfl
      · exact ⟨hindexes, htokens⟩
      · exact ⟨hholds.share.indexes, hholds.share.token_count⟩
      · exact ⟨hholds.share_index.1, hholds.share_index.2.1⟩
    obtain ⟨raw, start, pooled, count, hupdate, hnext, hneeded⟩ :=
      update_of_indexes hwindow hcopied.1 hcopied.2 hinput hmax packed decode
    refine ⟨_, _, hupdate, fun row hrow checkpoint hbase => ?_⟩
    have hneeded' := hneeded ctx.length le_rfl
    have hdiv := Nat.div_mul_le_self ctx.length attention.indexer_compress_ratio
    have hlength : state.token_count + input.length = (ctx ++ input).length := by
      rw [List.length_append, htokens]
    -- the rows of the whole batch are there before the state of any row is cut from them
    have hcomplete : attention.Indexes (ctx ++ input)
        ((copy.with_index raw start pooled count).with_tokens (state.token_count + input.length)) :=
      ⟨hnext.start_le, hnext.pooled_le, hnext.raw, hnext.pooled⟩
    obtain ⟨raw', start', pooled', count', hcut, hindexed⟩ := copy_qsa_checkpoint_of_indexes
      checkpoint hcomplete hlength hmax (show 0 < state.token_count + row + 1 by omega) (by omega)
      (hneeded _ (by omega)) (by dsimp only; omega) hbase
    rw [htokens, take_append_row] at hindexed
    exact ⟨_, hcut, hindexed⟩
  · intro input checkpoints hmax hverify
    -- a verification that returns has met the checks, and so its states hold
    obtain ⟨hinput, hrows⟩ := rows_of_forward_verify hverify
    obtain ⟨verified, hrun, hcheckpoints⟩ :=
      forward_verify_of_holds hwindow hholds hinput hrows hmax
        (accepts_of_forward_verify hwindow hholds hinput hmax hverify)
    obtain rfl := Except.ok.inj (hrun.symm.trans hverify)
    refine ⟨hcheckpoints.length, fun row checkpoint hget => ?_⟩
    have hcheckpoint := hcheckpoints.holds row checkpoint hget
    have hlt : row < input.length := by
      rw [← hcheckpoints.length]
      exact (List.getElem?_eq_some_iff.mp hget).1
    refine ⟨?_, hcheckpoint.indexes⟩
    rw [hcheckpoint.token_count, List.length_append, List.length_take, htokens]
    omega

/-- **The cold and the hot part of a cache are its tokens**, each once and in order, and a
step is accepted exactly when the cache is not quantised or there is a selection and, for a
verification of several rows at once, a hot part. -/
theorem kv_cache_of_runs (hwindow : attention.WindowCoversBlock) (h : attention.Runs ctx state) :
    state.token_count = ctx.length ∧ attention.Caches ctx state ∧
      (∀ x, (ctx ++ [x]).length ≤ int_max →
        ((∃ state', attention.forward_decode x state = .ok state') ↔
          attention.AcceptsDecode state)) ∧
      ∀ input, 1 ≤ input.length → input.length ≤ 512 → (ctx ++ input).length ≤ int_max →
        ((∃ state', attention.forward_prefill input state = .ok state') ↔
          attention.AcceptsPrefill input state) ∧
        ((∃ checkpoints, attention.forward_verify input state = .ok checkpoints) ↔
          attention.AcceptsVerify input state) := by
  obtain ⟨hholds, hempty⟩ := holds_of_runs hwindow h
  refine ⟨hholds.token_count, hholds.caches, fun x hmax => forward_decode_iff hwindow hholds hmax,
    fun input hinput hrows hmax => ?_⟩
  have hne : input ≠ [] := List.ne_nil_of_length_pos hinput
  exact ⟨forward_prefill_iff hwindow hholds hne hrows hmax hempty,
    forward_verify_iff hwindow hholds hne hrows hmax⟩

/-- A small attention, with blocks of two tokens of which one is selected. -/
def small : SelfAttention Nat Nat where
  key position x := 10 * position + x
  value x := x
  index_key x := x
  pool _ rows := rows.sum
  weights row := row
  scales row := row + 1
  biases row := row + 2
  indexer_budget := 2
  indexer_compress_ratio := 2
  q8_kv_requested := true
  q8_kv_min_tokens := 2049
  q8_kv_flush_tokens := 512
  decode_budget := none
  qsa_raw_window := 16
  batch_q8_verify := true
  batch_sdpa_enabled := true
  batch_kv_verify := false
  sdpa_decode := some true
  sdpa_prefill := false
  packed_qsa := false
  packed_qsa_min_tokens := 65536
  ratio_pos := by decide
  budget_pos := by decide
  budget_mod := by decide
  decode_budget_admitted := by simp
  min_tokens_admitted := by decide
  flush_tokens_admitted := by decide
  raw_window_admitted := by decide

/-- Three tokens. -/
def small_prefilled : AttentionState Nat :=
  { (default : AttentionState Nat) with
    keys := some [5, 16, 27]
    values := some [5, 6, 7]
    qsa_raw_keys := some [5, 6, 7]
    token_count := 3 }

/-- Four tokens, all of them in pooled blocks. -/
def small_verified : AttentionState Nat :=
  { (default : AttentionState Nat) with
    keys := some [5, 16, 27, 38]
    values := some [5, 6, 7, 8]
    qsa_raw_keys := some [5, 6, 7, 8]
    qsa_pooled_keys := some [11, 15]
    qsa_pooled_count := 2
    token_count := 4 }

/-- A prefill, and a verification of which the first row is accepted. -/
theorem runs_small_verified : small.Runs [5, 6, 7, 8] small_verified := by
  have hprefill : small.forward_prefill [5, 6, 7]
      { (default : AttentionState Nat) with position_base := 0 } = .ok small_prefilled := rfl
  obtain ⟨next, hverify⟩ :
      ∃ next, small.forward_verify [8, 9] small_prefilled = .ok [small_verified, next] := ⟨_, rfl⟩
  exact ((Runs.start 0).prefill (by decide) hprefill).verify 0 (by decide) hverify rfl

theorem index_rows_of_runs_small :
    small.Indexes [5, 6, 7, 8] small_verified ∧ small_verified.qsa_pooled_count = 2 := by
  obtain ⟨-, -, -, -, hindexes, -⟩ := index_rows_of_runs (Or.inr (by decide)) runs_small_verified
  exact ⟨hindexes, rfl⟩

/-- Three tokens, all of them cold. -/
def cold_state : AttentionState Nat :=
  { (default : AttentionState Nat) with
    key_weights := some [5, 16, 27]
    key_scales := some [6, 17, 28]
    key_biases := some [7, 18, 29]
    value_weights := some [5, 6, 7]
    value_scales := some [6, 7, 8]
    value_biases := some [7, 8, 9]
    kv_q8 := true
    kv_q8_cold_tokens := 3
    qsa_raw_keys := some [5, 6, 7]
    token_count := 3 }

/-- A restored state of which all tokens are cold. -/
theorem runs_cold_state : small.Runs [5, 6, 7] cold_state := by
  have hholds : small.Holds [5, 6, 7] cold_state :=
    { token_count := rfl
      indexes := ⟨by decide, by decide, fun _ => rfl, fun hpooled => absurd rfl hpooled⟩
      caches := ⟨fun hplain => absurd hplain.symm Bool.false_ne_true, fun _ => by decide,
        fun _ _ => ⟨rfl, rfl⟩, fun _ hhot => absurd hhot (by decide)⟩ }
  let decoder : DecoderLayerState (MlxArray Nat) (MlxArray Nat) := ⟨default, cold_state, default⟩
  let file := append_decoder "layer" decoder ⟨[], []⟩
  have hfile : MlxSafetensors.Holds
      ⟨file.metadata_entries ++ [], file.array_entries ++ []⟩ "layer" decoder :=
    holds_append_decoder [] [] (fun _ hmem => absurd hmem (by simp))
      (fun _ hmem => absurd hmem (by simp))
  have hload := load_decoder_of_holds (fun _ => 0) hfile
    ⟨by decide, by decide, by decide, by decide, by decide, by decide⟩ (fun _ _ => by decide)
  exact Runs.restored hload hholds (by decide)

theorem kv_cache_of_runs_small : small.Caches [5, 6, 7] cold_state ∧
    (∃ state', small.forward_decode 8 cold_state = .ok state') ∧
    ¬∃ checkpoints, small.forward_verify [8, 9] cold_state = .ok checkpoints := by
  obtain ⟨-, hcaches, hdecode, hrows⟩ := kv_cache_of_runs (Or.inr (by decide)) runs_cold_state
  have hselects : small.qsa_selection_budget true / small.indexer_compress_ratio <
      (cold_state.token_count + 1) / small.indexer_compress_ratio := by decide
  refine ⟨hcaches, (hdecode 8 (by decide)).mpr fun _ => hselects, fun hverify => ?_⟩
  -- nothing is hot, and two rows are verified at once
  have haccepts := (hrows [8, 9] (by decide) (by decide) (by decide)).2.mp hverify rfl
  rw [if_pos ⟨by decide, rfl⟩] at haccepts
  exact absurd haccepts.2 (Nat.lt_irrefl 3)

/-- **A state of which all tokens are cold** is accepted by `load_decoder`, by a decode and by
the verification of a row, but not by that of two. -/
theorem verify_of_cold_state : small.indexer_budget < small.q8_kv_min_tokens ∧
    small.WindowCoversBlock ∧ small.Runs [5, 6, 7] cold_state ∧
    (∃ state', small.forward_decode 8 cold_state = .ok state') ∧
    (∃ checkpoints, small.forward_verify [8] cold_state = .ok checkpoints) ∧
    small.forward_verify [8, 9] cold_state =
      .error "invalid attention dimension: Q8 verifier hot origin" :=
  ⟨by decide, Or.inr (by decide), runs_cold_state, ⟨_, rfl⟩, ⟨_, rfl⟩, rfl⟩

end SelfAttention

end Qwen38
