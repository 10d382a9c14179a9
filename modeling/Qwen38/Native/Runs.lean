import Qwen38.Native.Checkpoint
import Qwen38.Native.Decode

/-!
# Runs of the native backend

Imports, steps, failed steps and exports come in any order. What they keep are the bounds of
`Qwen38.PersistentMetalBackend.Impl.Sound` (`Qwen38.PersistentMetalBackend.Device.sound_run`); a
step moves the counter of every full attention once, and a step that fails moves those of the layers
it has been through (`Qwen38.PersistentMetalBackend.Advanced`).

So a state that is exported after any run is accepted again and comes back as it was; and where
`can_decode` says so, a step has the capacity that it needs.
-/

namespace Qwen38

open Except (throw_if throw_if_of_not throw_if_eq_ok bind_eq_ok)

namespace PersistentMetalBackend

/-! ### One full attention -/

/-- What no step changes. -/
structure SameBase (start now : AttentionState) : Prop where
  cold_count : now.cold_count = start.cold_count
  position_base : now.position_base = start.position_base
  key_weights : now.key_weights = start.key_weights
  key_scales : now.key_scales = start.key_scales
  key_biases : now.key_biases = start.key_biases
  value_weights : now.value_weights = start.value_weights
  value_scales : now.value_scales = start.value_scales
  value_biases : now.value_biases = start.value_biases

theorem SameBase.refl (state : AttentionState) : SameBase state state :=
  ⟨rfl, rfl, rfl, rfl, rfl, rfl, rfl, rfl⟩

theorem SameBase.trans {a b c : AttentionState} (h : SameBase a b) (h' : SameBase b c) : SameBase a c :=
  ⟨h'.cold_count.trans h.cold_count, h'.position_base.trans h.position_base,
    h'.key_weights.trans h.key_weights, h'.key_scales.trans h.key_scales,
    h'.key_biases.trans h.key_biases, h'.value_weights.trans h.value_weights,
    h'.value_scales.trans h.value_scales, h'.value_biases.trans h.value_biases⟩

/-- There is room for a token. -/
structure AttentionState.Room (state : AttentionState) : Prop where
  cold_le : state.cold_count ≤ state.token_count
  hot_lt : state.token_count - state.cold_count < hot_capacity
  token_lt : state.token_count < 262144
  position_lt : state.position_base < uint32_max - state.token_count

theorem can_decode_eq_true {impl : Impl} :
    can_decode impl = true ↔
      ∀ layer, is_attention layer = true → (impl.attention_states layer).Room := by
  simp only [can_decode, layers, List.all_eq_true, List.mem_finRange, forall_const, Bool.or_eq_true,
    Bool.not_eq_true', Bool.and_eq_true, decide_eq_true_eq]
  refine forall_congr' fun layer => ?_
  cases is_attention layer with
  | false => simp
  | true =>
    simp only [Bool.true_eq_false, false_or, forall_const]
    constructor
    · rintro ⟨⟨⟨h1, h2⟩, h3⟩, h4⟩
      exact ⟨h1, h2, h3, h4⟩
    · rintro ⟨h1, h2, h3, h4⟩
      exact ⟨⟨⟨h1, h2⟩, h3⟩, h4⟩

section Attention

variable {numbers : AttentionNumbers} {rows : AttentionRows} {pool : Bytes → Bytes}
  {state now : AttentionState}

/-- Two kernel rows fit into a slab. -/
theorem slab_bounds {hot : Nat} (h : hot < hot_capacity) :
    hot * row_bytes + row_bytes ≤ hot_capacity * row_bytes ∧
      (hot_capacity + hot) * row_bytes + row_bytes ≤ 2 * (hot_capacity * row_bytes) := by
  have hle : (hot + 1) * row_bytes ≤ hot_capacity * row_bytes := Nat.mul_le_mul_right _ h
  rw [Nat.succ_mul] at hle
  refine ⟨hle, ?_⟩
  rw [Nat.add_mul]
  omega

theorem length_put_rows {hot : Nat} {data slab : Bytes} (h : hot < hot_capacity)
    (hdata : data.length = 2 * row_bytes) (hslab : slab.length = 2 * (hot_capacity * row_bytes)) :
    (put_rows hot data slab).length = slab.length := by
  obtain ⟨hfirst, hsecond⟩ := slab_bounds h
  have hone : (Buffer.read 0 row_bytes data).length = row_bytes := Buffer.length_read (by omega)
  have htwo : (Buffer.read row_bytes row_bytes data).length = row_bytes :=
    Buffer.length_read (by omega)
  have hput : (Buffer.put (hot * row_bytes) (Buffer.read 0 row_bytes data) slab).length =
      slab.length := Buffer.length_put (by omega)
  rw [put_rows, Buffer.length_put (by omega), hput]

/-- The kernel writes inside the buffers. -/
theorem allocated_append (h : state.Allocated) (hhot : numbers.hot_index < hot_capacity)
    (hpending : numbers.pending_index < 4) (hblocks : numbers.old_blocks < 65536)
    (hpool : ∀ data, (pool data).length = index_row_bytes) :
    (qsa_append_decode_state numbers rows pool state).Allocated := by
  have hfour : (numbers.pending_index + 1) * index_row_bytes ≤ 4 * index_row_bytes :=
    Nat.mul_le_mul_right _ hpending
  have hblock : (numbers.old_blocks + 1) * index_row_bytes ≤ 65536 * index_row_bytes :=
    Nat.mul_le_mul_right _ hblocks
  rw [Nat.succ_mul] at hfour hblock
  refine ⟨?_, ?_, ?_, ?_⟩
  · exact (length_put_rows hhot rows.length_key h.hot_keys).trans h.hot_keys
  · exact (length_put_rows hhot rows.length_value h.hot_values).trans h.hot_values
  · exact (Buffer.length_put (by rw [rows.length_index, h.pending]; exact hfour)).trans h.pending
  · simp only [qsa_append_decode_state]
    split_ifs with hcomplete
    · rw [Buffer.length_put (by rw [hpool, h.pooled]; exact hblock), h.pooled]
    · exact h.pooled

theorem sameBase_append : SameBase state (qsa_append_decode_state numbers rows pool state) := by
  rw [qsa_append_decode_state]
  exact ⟨rfl, rfl, rfl, rfl, rfl, rfl, rfl, rfl⟩

/-- A counter is not part of what stays. -/
theorem SameBase.count (h : SameBase state now) (token_count : Nat) :
    SameBase state { now with token_count } :=
  ⟨h.cold_count, h.position_base, h.key_weights, h.key_scales, h.key_biases, h.value_weights,
    h.value_scales, h.value_biases⟩

theorem AttentionState.Allocated.count (h : now.Allocated) (token_count : Nat) :
    AttentionState.Allocated { now with token_count } :=
  ⟨h.hot_keys, h.hot_values, h.pending, h.pooled⟩

/-- The numbers of a token for which there is room. -/
theorem AttentionState.Room.numbers_eq (h : state.Room) :
    state.numbers.resulting_tokens = state.token_count + 1 ∧
      state.numbers.block_count = (state.token_count + 1) / 4 ∧
      state.numbers.hot_index = state.token_count - state.cold_count ∧
      state.numbers.hot_count = state.token_count + 1 - state.cold_count := by
  have htoken := h.token_lt
  have hcold := h.cold_le
  have hresulting : add32 state.token_count 1 = state.token_count + 1 := add32_of_lt (by omega)
  have hindex := sub32_of_le (show state.token_count < 2 ^ 32 by omega) hcold
  have hcount := sub32_of_le (show state.token_count + 1 < 2 ^ 32 by omega)
    (show state.cold_count ≤ state.token_count + 1 by omega)
  simp only [AttentionState.numbers, hresulting, hindex, hcount, and_self]

end Attention

variable {V : Type} [LinearOrder V] [OrderBot V]

/-- The selector always finds blocks. -/
theorem encode_qsa_selection_ok {score : Nat → V} {block_count : Nat} {scores : Nat → V}
    {buffers : QsaBuffers V} (h : block_count ≤ 65536) :
    ∃ out, encode_qsa_selection score block_count scores buffers = .ok out := by
  rw [encode_qsa_selection]
  by_cases hfew : block_count ≤ 128
  · exact ⟨_, if_pos hfew⟩
  · obtain ⟨buffers', hrun, -⟩ := encode_qsa_top128_top
      (qsa_score_blocks score block_count ((block_count + 255) / 256 * 256) scores) buffers
      (show 256 ≤ (block_count + 255) / 256 * 256 by omega) (by omega) (by omega)
    refine ⟨(buffers', 512), ?_⟩
    rw [if_neg hfew]
    exact congrArg (Except.map fun buffers => (buffers, 512)) hrun

namespace Device

variable {device : Device V} {layer : Fin 48} {scratch : Scratch V} {stream : Bytes}
  {state : AttentionState}

omit [LinearOrder V] [OrderBot V] in
theorem allocated_appended (hroom : state.Room) (h : state.Allocated) :
    (device.appended layer stream state).Allocated := by
  obtain ⟨-, -, hhot, -⟩ := hroom.numbers_eq
  have htoken := hroom.token_lt
  refine allocated_append h ?_ ?_ ?_ (device.length_pool layer _)
  · rw [hhot]
    exact hroom.hot_lt
  · exact Nat.mod_lt _ (by decide)
  · simp only [AttentionState.numbers]
    omega

/-- **A full attention takes a token**, where it has room for one: none of the checks on the way,
down to the selection, can fail, and it counts the token. -/
theorem encode_attention_ok (hroom : state.Room) (h : state.Allocated) :
    ∃ out next, device.encode_attention layer scratch stream state = .ok (out, next) ∧
      SameBase state next ∧ next.Allocated ∧ next.token_count = state.token_count + 1 := by
  obtain ⟨hresulting, hblocks, -, -⟩ := hroom.numbers_eq
  have htoken := hroom.token_lt
  have hfew : state.numbers.block_count ≤ 65536 := by
    rw [hblocks]
    omega
  obtain ⟨selection, hselection⟩ : ∃ selection, device.select scratch state.numbers
      (device.rows layer stream state) (device.appended layer stream state) = .ok selection := by
    rw [select]
    exact encode_qsa_selection_ok hfew
  rw [encode_attention]
  simp only [hselection, Except.ok_bind, Except.pure_eq_ok]
  exact ⟨_, _, rfl, sameBase_append.count _, (allocated_appended hroom h).count _, hresulting⟩

end Device

/-! ### The layers -/

/-- The backend when some layers have taken their token. -/
structure Advanced (start : Impl) (done : List (Fin 48)) (now : Impl) : Prop where
  allocated : now.Allocated
  base : ∀ layer, is_attention layer = true →
    SameBase (start.attention_states layer) (now.attention_states layer)
  token_count : ∀ layer, is_attention layer = true → (now.attention_states layer).token_count =
    (start.attention_states layer).token_count + if layer ∈ done then 1 else 0

section Advanced

variable {start now committed : Impl} {done done' : List (Fin 48)} {layer : Fin 48}

theorem Advanced.refl (h : start.Allocated) : Advanced start [] start where
  allocated := h
  base _ _ := .refl _
  token_count _ _ := rfl

/-- Only the buffers of a linear attention have changed. -/
theorem Advanced.linear (h : Advanced start done now) (hlayer : is_attention layer = false)
    {state : GdnState} (hstate : state.Allocated) :
    Advanced start (done ++ [layer])
      (now.put_gdn layer state) where
  allocated :=
    { attention := h.allocated.attention
      linear := by
        intro i hi
        by_cases heq : i = layer
        · subst heq
          rwa [Impl.put_gdn_self]
        · rw [Impl.put_gdn_of_ne _ heq]
          exact h.allocated.linear i hi
      ple := h.allocated.ple }
  base := h.base
  token_count := by
    intro i hi
    have hne : i ≠ layer := by
      rintro rfl
      exact Bool.noConfusion (hlayer.symm.trans hi)
    have hold := h.token_count i hi
    simp only [List.mem_append, List.mem_singleton, hne, or_false]
    exact hold

/-- A full attention has taken its token. -/
theorem Advanced.attention (h : Advanced start done now) (hnew : layer ∉ done)
    {state : AttentionState} (hbase : SameBase (now.attention_states layer) state)
    (hstate : state.Allocated) (hcount : state.token_count = (now.attention_states layer).token_count + 1) :
    Advanced start (done ++ [layer])
      (now.put_attention layer state) where
  allocated :=
    { attention := by
        intro i hi
        by_cases heq : i = layer
        · subst heq
          rwa [Impl.put_attention_self]
        · rw [Impl.put_attention_of_ne _ heq]
          exact h.allocated.attention i hi
      linear := h.allocated.linear
      ple := h.allocated.ple }
  base := by
    intro i hi
    by_cases heq : i = layer
    · subst heq
      rw [Impl.put_attention_self]
      exact (h.base i hi).trans hbase
    · rw [Impl.put_attention_of_ne _ heq]
      exact h.base i hi
  token_count := by
    intro i hi
    by_cases heq : i = layer
    · subst heq
      have hold := h.token_count i hi
      rw [if_neg hnew] at hold
      rw [Impl.put_attention_self, hcount, hold, if_pos (List.mem_append_right done List.mem_cons_self)]
    · rw [Impl.put_attention_of_ne _ heq, h.token_count i hi]
      simp only [List.mem_append, List.mem_singleton, heq, or_false]

/-- The token embedding has taken its token. -/
theorem Advanced.ple (h : Advanced start done now) (ngram : NgramState) {convolution : Bytes}
    (hlength : convolution.length = now.ple_convolution.length) :
    Advanced start done { now with ple_ngram_state := ngram, ple_convolution := convolution } where
  allocated :=
    { attention := h.allocated.attention
      linear := h.allocated.linear
      ple := hlength.trans h.allocated.ple }
  base := h.base
  token_count := h.token_count

/-- **What is left of a step that has failed.** -/
theorem Advanced.drain (h : Advanced start done now) (h' : Advanced start done' committed) :
    Advanced start done (Device.drain now committed) where
  allocated :=
    { attention := fun i hi =>
        (h'.allocated.attention i hi).count _
      linear := h'.allocated.linear
      ple := h'.allocated.ple }
  base i hi := (h'.base i hi).count _
  token_count := h.token_count

/-- **The bounds are kept.** -/
theorem Advanced.sound (h : Advanced start done now) (hstart : start.Sound)
    (hroom : can_decode start = true) : now.Sound where
  attention := by
    intro i hi
    have hsound := hstart.attention i hi
    have hr := can_decode_eq_true.mp hroom i hi
    have hbase := h.base i hi
    have hcold := hr.cold_le
    have hhot := hr.hot_lt
    have htoken := hr.token_lt
    have hposition := hr.position_lt
    -- the layer has taken the token, or not yet
    have hcount : (now.attention_states i).token_count = (start.attention_states i).token_count ∨
        (now.attention_states i).token_count = (start.attention_states i).token_count + 1 := by
      rw [h.token_count i hi]
      split_ifs
      · exact Or.inr rfl
      · exact Or.inl rfl
    refine { h.allocated.attention i hi with
      cold_le := ?_
      hot_le := ?_
      token_le := ?_
      position_le := ?_
      packed := ?_ }
    · rw [hbase.cold_count]
      omega
    · rw [hbase.cold_count]
      omega
    · omega
    · rw [hbase.position_base]
      omega
    · rw [hbase.cold_count]
      intro hne
      have hpacked := hsound.packed hne
      refine ⟨?_, ?_, ?_, ?_, ?_, ?_⟩
      · rw [hbase.key_weights, hbase.cold_count]
        exact hpacked.key_weights
      · rw [hbase.value_weights, hbase.cold_count]
        exact hpacked.value_weights
      · rw [hbase.key_scales, hbase.cold_count]
        exact hpacked.key_scales
      · rw [hbase.key_biases, hbase.cold_count]
        exact hpacked.key_biases
      · rw [hbase.value_scales, hbase.cold_count]
        exact hpacked.value_scales
      · rw [hbase.value_biases, hbase.cold_count]
        exact hpacked.value_biases
  linear := h.allocated.linear
  ple := h.allocated.ple

/-- A layer that has not taken its token has room for it. -/
theorem Advanced.room (h : Advanced start done now) (hroom : can_decode start = true)
    (hlayer : is_attention layer = true) (hnew : layer ∉ done) : (now.attention_states layer).Room := by
  have hr := can_decode_eq_true.mp hroom layer hlayer
  have hbase := h.base layer hlayer
  have hcount := h.token_count layer hlayer
  rw [if_neg hnew, Nat.add_zero] at hcount
  refine ⟨?_, ?_, ?_, ?_⟩
  · rw [hbase.cold_count, hcount]
    exact hr.cold_le
  · rw [hbase.cold_count, hcount]
    exact hr.hot_lt
  · rw [hcount]
    exact hr.token_lt
  · rw [hbase.position_base, hcount]
    exact hr.position_lt

end Advanced

namespace Device

variable {device : Device V} {token : UInt32} {fault : Option Fault} {stale : Fin 48 → Scratch V}
  {start : Impl} {done todo : List (Fin 48)} {layer : Fin 48} {run : Run} {committed : Impl}

/-- The attention of a layer takes the token. -/
theorem encode_mixer_ok (h : Advanced start done run.impl) (hroom : can_decode start = true)
    (hnew : layer ∉ done) :
    ∃ now, device.encode_mixer stale layer run = (.ok (), now) ∧
      Advanced start (done ++ [layer]) now.impl := by
  rw [encode_mixer]
  cases hlayer : is_attention layer with
  | true =>
    have hr := h.room hroom hlayer hnew
    obtain ⟨out, next, hrun, hbase, hallocated, hcount⟩ := @encode_attention_ok V _ _ device layer
      (stale layer) run.stream _ hr (h.allocated.attention layer hlayer)
    have hhot : ¬hot_capacity ≤ sub32 (run.impl.attention_states layer).token_count
        (run.impl.attention_states layer).cold_count := by
      have hindex : sub32 (run.impl.attention_states layer).token_count
          (run.impl.attention_states layer).cold_count = _ := hr.numbers_eq.2.2.1
      rw [hindex]
      exact Nat.not_le.mpr hr.hot_lt
    simp only [if_true, if_neg hhot, hrun]
    exact ⟨_, rfl, h.attention hnew hbase hallocated hcount⟩
  | false =>
    have hstate := h.allocated.linear layer hlayer
    simp only [Bool.false_eq_true, if_false]
    refine ⟨_, rfl, h.linear hlayer ⟨?_, ?_⟩⟩
    · rw [device.length_convolution, hstate.convolution]
    · rw [device.length_recurrent, hstate.recurrent]

omit [LinearOrder V] [OrderBot V] in
/-- The token embedding takes the token. -/
theorem advanced_encode_ple (h : Advanced start done run.impl) :
    Advanced start done (device.encode_ple token run).2.impl := by
  rw [encode_ple]
  dsimp only
  split
  · exact h.ple _ rfl
  · exact h.ple _ (device.length_ple ..)

/-- **A layer that is encoded**: when it throws, it has moved its counters or not, depending on
where it was struck; the layers before it have moved theirs, and those behind have not. -/
theorem advanced_encode_layer (h : Advanced start done run.impl) (hroom : can_decode start = true)
    (hnew : layer ∉ done) {result : Except String Unit} {now : Run}
    (hrun : device.encode_layer token fault stale layer run = (result, now)) :
    (result = .ok () → Advanced start (done ++ [layer]) now.impl) ∧
      (Advanced start done now.impl ∨ Advanced start (done ++ [layer]) now.impl) := by
  rw [encode_layer] at hrun
  cases hearly : strikes fault layer false with
  | error e =>
    rw [hearly] at hrun
    obtain ⟨rfl, rfl⟩ := Prod.mk.inj hrun
    exact ⟨fun hok => absurd hok Except.error_ne_ok, Or.inl h⟩
  | ok u =>
    rw [hearly] at hrun
    simp only [Written.checked] at hrun
    -- the fault did not strike before the layer
    generalize hple : (if layer = ple_layer then device.encode_ple token run else (.ok (), run)) = ple
      at hrun
    have hafter : Advanced start done ple.2.impl := by
      rw [← hple]
      split_ifs
      · exact advanced_encode_ple h
      · exact h
    obtain ⟨outcome, run'⟩ := ple
    cases outcome with
    | error e =>
      obtain ⟨rfl, rfl⟩ := Prod.mk.inj hrun
      exact ⟨fun hok => absurd hok Except.error_ne_ok, Or.inl hafter⟩
    | ok u =>
      obtain ⟨next, hmixer, hadvanced⟩ := @encode_mixer_ok V _ _ device stale start done layer run'
        hafter hroom hnew
      simp only [Written.next, hmixer] at hrun
      -- a fault behind the layer comes too late for its counters
      have hnow : now = next := by
        cases hlate : strikes fault layer true with
        | error e =>
          rw [hlate] at hrun
          exact (Prod.mk.inj hrun).2.symm
        | ok u =>
          rw [hlate] at hrun
          exact (Prod.mk.inj hrun).2.symm
      rw [hnow]
      exact ⟨fun _ => hadvanced, Or.inr hadvanced⟩

/-- **The layers of a list**: they have all taken the token, or the step has failed and some
have. -/
theorem advanced_encode_layers {group_size : Nat} {done' : List (Fin 48)}
    (h : Advanced start done run.impl) (h' : Advanced start done' committed)
    (hroom : can_decode start = true) (hnodup : (done ++ todo).Nodup) {result : Except String Unit}
    {now : Run} (hrun : device.encode_layers token fault stale group_size todo run committed = (result, now)) :
    (result = .ok () → Advanced start (done ++ todo) now.impl) ∧
      ∃ moved, Advanced start moved now.impl := by
  induction todo generalizing done done' run committed with
  | nil =>
    rw [encode_layers] at hrun
    obtain ⟨rfl, rfl⟩ := Prod.mk.inj hrun
    rw [List.append_nil]
    exact ⟨fun _ => h, done, h⟩
  | cons layer todo ih =>
    have hnew : layer ∉ done := fun hmem =>
      (List.nodup_append.mp hnodup).2.2 layer hmem layer List.mem_cons_self rfl
    rw [List.append_cons] at hnodup ⊢
    rw [encode_layers] at hrun
    rcases hlayer : device.encode_layer token fault stale layer run with ⟨outcome, next⟩
    obtain ⟨hok, hmoved⟩ := advanced_encode_layer h hroom hnew hlayer
    rw [hlayer] at hrun
    cases outcome with
    | error e =>
      obtain ⟨rfl, rfl⟩ := Prod.mk.inj hrun
      -- what has been committed runs to its end, and what is behind it does not
      refine ⟨fun herror => absurd herror Except.error_ne_ok, ?_⟩
      rcases hmoved with hmoved | hmoved
      · exact ⟨_, hmoved.drain h'⟩
      · exact ⟨_, hmoved.drain h'⟩
    | ok u =>
      have hnext := hok rfl
      -- the last layer of a group commits it
      by_cases hgroup : (layer.val + 1) % group_size = 0
      · simp only [hgroup, if_true] at hrun
        exact ih hnext hnext hnodup hrun
      · simp only [hgroup, if_false] at hrun
        exact ih hnext h' hnodup hrun

/-- A step. -/
theorem advanced_encode_trunk {group_size : Except String Nat} {result : Except String Unit} {now : Run}
    (h : run.impl.Allocated) (hroom : can_decode run.impl = true)
    (hrun : device.encode_trunk token fault stale group_size run = (result, now)) :
    (result = .ok () → Advanced run.impl layers now.impl) ∧ ∃ moved, Advanced run.impl moved now.impl := by
  cases group_size with
  | error e =>
    rw [encode_trunk] at hrun
    obtain ⟨rfl, rfl⟩ := Prod.mk.inj hrun
    exact ⟨fun hok => absurd hok Except.error_ne_ok, [], .refl h⟩
  | ok group_size =>
    exact @advanced_encode_layers V _ _ device token fault stale run.impl [] layers run run.impl
      group_size [] (.refl h) (.refl h) hroom (List.nodup_finRange 48) result now hrun

/-! ### Steps that nothing stops -/

/-- A layer throws when the rows of the n-gram table cannot be gathered. -/
theorem encode_layer_error (h : Advanced start done run.impl) (hroom : can_decode start = true)
    (hnew : layer ∉ done) {e : String} {now : Run}
    (hrun : device.encode_layer token none stale layer run = (.error e, now)) :
    ∃ rows, device.gather rows = .error e := by
  rw [encode_layer] at hrun
  simp only [strikes, Written.checked] at hrun
  generalize hple : (if layer = ple_layer then device.encode_ple token run else (.ok (), run)) = ple
    at hrun
  have hafter : Advanced start done ple.2.impl := by
    rw [← hple]
    split_ifs
    · exact advanced_encode_ple h
    · exact h
  obtain ⟨outcome, run'⟩ := ple
  cases outcome with
  | error e' =>
    obtain ⟨he, -⟩ := Prod.mk.inj hrun
    rw [Except.error.inj he] at hple
    split_ifs at hple
    · rw [encode_ple] at hple
      dsimp only at hple
      cases hgather : device.gather (device.hash.row_ids token run.impl.ple_ngram_state).1 with
      | error e'' =>
        rw [hgather] at hple
        obtain ⟨he', -⟩ := Prod.mk.inj hple
        exact ⟨_, hgather.trans (congrArg Except.error (Except.error.inj he'))⟩
      | ok embedding =>
        rw [hgather] at hple
        exact absurd (Prod.mk.inj hple).1.symm Except.error_ne_ok
    · exact absurd (Prod.mk.inj hple).1.symm Except.error_ne_ok
  | ok u =>
    -- nothing behind the rows of the table throws
    obtain ⟨next, hmixer, -⟩ := @encode_mixer_ok V _ _ device stale start done layer run' hafter hroom hnew
    simp only [Written.next, hmixer] at hrun
    exact absurd (Prod.mk.inj hrun).1.symm Except.error_ne_ok

theorem encode_layers_error {group_size : Nat} (h : Advanced start done run.impl)
    (hroom : can_decode start = true) (hnodup : (done ++ todo).Nodup) {e : String} {now : Run}
    (hrun : device.encode_layers token none stale group_size todo run committed = (.error e, now)) :
    ∃ rows, device.gather rows = .error e := by
  induction todo generalizing done run committed with
  | nil => exact absurd (Prod.mk.inj hrun).1.symm Except.error_ne_ok
  | cons layer todo ih =>
    have hnew : layer ∉ done := fun hmem =>
      (List.nodup_append.mp hnodup).2.2 layer hmem layer List.mem_cons_self rfl
    rw [List.append_cons] at hnodup
    rw [encode_layers] at hrun
    rcases hlayer : device.encode_layer token none stale layer run with ⟨outcome, next⟩
    rw [hlayer] at hrun
    cases outcome with
    | error e' =>
      obtain ⟨he, -⟩ := Prod.mk.inj hrun
      rw [Except.error.inj he] at hlayer
      exact encode_layer_error h hroom hnew hlayer
    | ok u => exact ih ((advanced_encode_layer h hroom hnew hlayer).1 rfl) hnodup hrun

/-- **A step that has room throws** when the size of the groups is no size, or the rows of the
n-gram table cannot be gathered. -/
theorem encode_trunk_error {group_size : Except String Nat} (h : run.impl.Allocated)
    (hroom : can_decode run.impl = true) {e : String} {now : Run}
    (hrun : device.encode_trunk token none stale group_size run = (.error e, now)) :
    group_size = .error e ∨ ∃ rows, device.gather rows = .error e := by
  cases group_size with
  | error e' =>
    rw [encode_trunk] at hrun
    obtain rfl := Except.error.inj (Prod.mk.inj hrun).1
    exact Or.inl rfl
  | ok group_size =>
    exact Or.inr (@encode_layers_error V _ _ device token stale run.impl [] layers run run.impl group_size
      (.refl h) hroom (List.nodup_finRange 48) e now hrun)

end Device

/-! ### Any order of operations -/

/-- A reset leaves nothing and has room. -/
theorem sound_reset {impl : Impl} (h : impl.Allocated) :
    (reset_all_state impl).Sound ∧ can_decode (reset_all_state impl) = true := by
  have hstate (layer : Fin 48) (hlayer : is_attention layer = true) :
      (reset_all_state impl).attention_states layer = (impl.attention_states layer).reset :=
    if_pos hlayer
  refine ⟨{ attention := ?_, linear := ?_, ple := ?_ }, can_decode_eq_true.mpr fun layer hlayer => ?_⟩
  · intro layer hlayer
    have hold := h.attention layer hlayer
    rw [hstate layer hlayer]
    refine {
      hot_keys := (length_clear _).trans hold.hot_keys
      hot_values := (length_clear _).trans hold.hot_values
      pending := (length_clear _).trans hold.pending
      pooled := hold.pooled
      cold_le := le_refl 0
      hot_le := Nat.zero_le _
      token_le := Nat.zero_le _
      position_le := Nat.zero_le _
      packed := fun hne => absurd rfl hne }
  · intro layer hlayer
    have hold := h.linear layer hlayer
    have hgdn : (reset_all_state impl).gdn_states layer = (impl.gdn_states layer).reset := by
      simp [reset_all_state, hlayer]
    rw [hgdn]
    exact ⟨(length_clear _).trans hold.convolution, (length_clear _).trans hold.recurrent⟩
  · exact (length_clear _).trans h.ple
  · rw [hstate layer hlayer]
    have hcapacity : 0 < hot_capacity := by decide
    have htokens : 0 < 262144 := by decide
    have hmax : 0 < uint32_max := by decide
    exact ⟨le_refl 0, hcapacity, htokens, hmax⟩

/-- What the backend is asked to do. -/
inductive Op (V : Type)
  | import_state (source : TargetState HostArray)
  | greedy_decode (token : UInt32) (fault : Option Fault) (stale : Fin 48 → Scratch V)
      (group_size : Except String Nat) (reset : Bool)
  | decode_trunk (token : UInt32) (fault : Option Fault) (stale : Fin 48 → Scratch V)
      (group_size : Except String Nat) (initial_stream : Bytes) (reset : Bool)
  | export_state

/-- An operation that no fault strikes. -/
def Op.Quiet : Op V → Prop
  | .import_state _ => True
  | .greedy_decode _ fault _ _ _ => fault = none
  | .decode_trunk _ fault _ _ _ _ => fault = none
  | .export_state => True

/-- What it returns. -/
inductive Outcome
  | imported
  | token (result : GreedyResult)
  | stream (bytes : Bytes)
  | state (state : TargetState HostArray)

namespace Device

variable (device : Device V)

/-- One operation. -/
def apply : Op V → Impl → Except String Outcome × Impl
  | .import_state source, impl =>
    let done := import_state source impl
    (done.1.map fun _ => .imported, done.2)
  | .greedy_decode token fault stale group_size reset, impl =>
    let done := device.greedy_decode token fault stale group_size reset impl
    (done.1.map .token, done.2)
  | .decode_trunk token fault stale group_size initial_stream reset, impl =>
    let done := device.decode_trunk token fault stale group_size initial_stream reset impl
    (done.1.map .stream, done.2)
  | .export_state, impl => ((export_state impl).map .state, impl)

/-- The operations of a list. -/
def run (ops : List (Op V)) (impl : Impl) : Impl := ops.foldl (fun impl op => (device.apply op impl).2) impl

variable {device} {impl : Impl} {token : UInt32} {fault : Option Fault} {stale : Fin 48 → Scratch V}
  {group_size : Except String Nat}

theorem run_append (ops ops' : List (Op V)) :
    device.run (ops ++ ops') impl = device.run ops' (device.run ops impl) := List.foldl_append

/-- A run that begins with an import. -/
theorem run_import {source : TargetState HostArray} (h : Accepted source) (himpl : impl.Allocated)
    (ops : List (Op V)) :
    device.run (.import_state source :: ops) impl = device.run ops (imported source impl) := by
  have happly : (device.apply (.import_state source) impl).2 = imported source impl := by
    rw [apply, import_state_eq h himpl]
  rw [run, List.foldl_cons, happly]
  rfl

theorem sound_encode_trunk (h : impl.Sound) (hroom : can_decode impl = true) {stream : Bytes}
    {result : Except String Unit} {now : Run}
    (hrun : device.encode_trunk token fault stale group_size ⟨impl, stream⟩ = (result, now)) :
    now.impl.Sound := by
  obtain ⟨-, moved, hmoved⟩ := @advanced_encode_trunk V _ _ device token fault stale ⟨impl, stream⟩
    group_size result now h.allocated hroom hrun
  exact hmoved.sound h hroom

theorem sound_reset_if (h : impl.Sound) (reset : Bool) :
    (reset_if reset impl).Sound := by
  rw [reset_if]
  split_ifs
  · exact (sound_reset h.allocated).1
  · exact h

theorem sound_greedy_decode (h : impl.Sound) (reset : Bool) :
    (device.greedy_decode token fault stale group_size reset impl).2.Sound := by
  have hstart := sound_reset_if h reset
  rw [greedy_decode]
  dsimp only
  split_ifs with htoken hroom
  · exact h
  · exact hstart
  · rw [Bool.not_eq_false] at hroom
    rcases hrun : device.encode_trunk token fault stale group_size
      ⟨reset_if reset impl, device.embedding token⟩ with ⟨outcome, now⟩
    have hsound := sound_encode_trunk hstart hroom hrun
    cases outcome with
    | error e => exact hsound
    | ok u => exact hsound

theorem sound_decode_trunk (h : impl.Sound) (initial_stream : Bytes) (reset : Bool) :
    (device.decode_trunk token fault stale group_size initial_stream reset impl).2.Sound := by
  have hstart := sound_reset_if h reset
  rw [decode_trunk]
  dsimp only
  split_ifs with hwidth hroom
  · exact h
  · exact hstart
  · rw [Bool.not_eq_false] at hroom
    rcases hrun : device.encode_trunk token fault stale group_size
      ⟨reset_if reset impl, initial_stream⟩ with ⟨outcome, now⟩
    have hsound := sound_encode_trunk hstart hroom hrun
    cases outcome with
    | error e => exact hsound
    | ok u => exact hsound

theorem sound_import_state (h : impl.Sound) (source : TargetState HostArray) :
    (import_state source impl).2.Sound := by
  rcases import_state_taken_or_refused h.allocated source with ⟨e, -, hrun⟩ | ⟨haccepted, hrun⟩
  · rw [hrun]
    exact h
  · rw [hrun]
    exact sound_imported haccepted h.allocated

/-- **The bounds are kept by every operation**, also by one that fails, wherever it fails: no layer
counts more than one token in a step, and a step is only begun where all have room. -/
theorem sound_apply (h : impl.Sound) (op : Op V) : (device.apply op impl).2.Sound := by
  cases op with
  | import_state source => exact sound_import_state h source
  | greedy_decode token fault stale group_size reset => exact sound_greedy_decode h reset
  | decode_trunk token fault stale group_size initial_stream reset =>
    exact sound_decode_trunk h initial_stream reset
  | export_state => exact h

/-- **The bounds are kept by every run**, also by steps and imports that throw: the counts of a
layer stay within its buffers, whatever faults have struck on the way. -/
theorem sound_run (h : impl.Sound) (ops : List (Op V)) : (device.run ops impl).Sound := by
  induction ops generalizing impl with
  | nil => exact h
  | cons op ops ih => exact ih (sound_apply h op)

/-- **A step that has room and that no fault strikes** throws when the token is no token, the size
of the groups is no size, or the rows of the n-gram table cannot be gathered. -/
theorem greedy_decode_error (h : impl.Sound) {reset : Bool} (hroom : can_decode (reset_if reset impl) = true)
    {e : String} {now : Impl}
    (hrun : device.greedy_decode token none stale group_size reset impl = (.error e, now)) :
    device.vocabulary_size ≤ token.toNat ∨ group_size = .error e ∨ ∃ rows, device.gather rows = .error e := by
  have hstart := sound_reset_if h reset
  by_cases htoken : device.vocabulary_size ≤ token.toNat
  · exact Or.inl htoken
  · rw [greedy_decode, if_neg htoken] at hrun
    have hnot : ¬can_decode (reset_if reset impl) = false := by
      rw [hroom]
      exact Bool.noConfusion
    simp only [if_neg hnot] at hrun
    rcases htrunk : device.encode_trunk token none stale group_size
      ⟨reset_if reset impl, device.embedding token⟩ with ⟨outcome, run⟩
    rw [htrunk] at hrun
    cases outcome with
    | error e' =>
      obtain rfl := Except.error.inj (Prod.mk.inj hrun).1
      exact Or.inr (@encode_trunk_error V _ _ device token stale
        ⟨reset_if reset impl, device.embedding token⟩ group_size hstart.allocated hroom e' run htrunk)
    | ok u => exact absurd (Prod.mk.inj hrun).1.symm Except.error_ne_ok

/-- **A step that has room and that nothing stops** counts its token. -/
theorem exported_count_greedy_decode (hgather : ∀ rows, ∃ embedding, device.gather rows = .ok embedding)
    (h : impl.Sound) (hroom : can_decode impl = true) (htoken : token.toNat < device.vocabulary_size)
    (size : Nat) : exported_count (device.greedy_decode token none stale (.ok size) false impl).2 =
      exported_count impl + 1 := by
  have hkept : reset_if false impl = impl := rfl
  have hnot : ¬can_decode impl = false := by
    rw [hroom]
    exact Bool.noConfusion
  rw [greedy_decode, hkept, if_neg (Nat.not_le.mpr htoken)]
  dsimp only
  rw [if_neg hnot]
  rcases htrunk : device.encode_trunk token none stale (.ok size) ⟨impl, device.embedding token⟩
    with ⟨e | u, run⟩
  · rcases @encode_trunk_error V _ _ device token stale ⟨impl, device.embedding token⟩ (.ok size)
      h.allocated hroom e run htrunk with hsize | ⟨rows, hrows⟩
    · exact absurd hsize.symm Except.error_ne_ok
    · obtain ⟨embedding, hembedding⟩ := hgather rows
      exact absurd (hrows.symm.trans hembedding) Except.error_ne_ok
  · exact ((advanced_encode_trunk h.allocated hroom htrunk).1 rfl).token_count 3 rfl

/-! ### Steps that do not fail on the way -/

/-- Every full attention has taken the token, or none has. -/
theorem level_of_advanced {start now : Impl} (hlevel : start.Level)
    (h : Advanced start [] now ∨ Advanced start layers now) : now.Level := by
  intro layer hlayer
  rcases h with h | h
  · rw [exported_count, h.token_count layer hlayer, h.token_count 3 rfl, hlevel layer hlayer]
    rfl
  · rw [exported_count, h.token_count layer hlayer, h.token_count 3 rfl, hlevel layer hlayer,
      if_pos (show layer ∈ layers from List.mem_finRange layer),
      if_pos (show (3 : Fin 48) ∈ layers from List.mem_finRange 3)]
    rfl

/-- A step that nothing stops leaves no layer behind. -/
theorem level_encode_trunk (hgather : ∀ rows, ∃ embedding, device.gather rows = .ok embedding)
    (h : impl.Sound) (hlevel : impl.Level) (hroom : can_decode impl = true) {stream : Bytes}
    {result : Except String Unit} {now : Run}
    (hrun : device.encode_trunk token none stale group_size ⟨impl, stream⟩ = (result, now)) :
    now.impl.Level := by
  cases result with
  | ok u =>
    exact level_of_advanced hlevel (Or.inr ((@advanced_encode_trunk V _ _ device token none stale
      ⟨impl, stream⟩ group_size (.ok u) now h.allocated hroom hrun).1 rfl))
  | error e =>
    cases group_size with
    | error e' =>
      rw [encode_trunk] at hrun
      obtain ⟨-, rfl⟩ := Prod.mk.inj hrun
      exact hlevel
    | ok size =>
      rcases @encode_trunk_error V _ _ device token stale ⟨impl, stream⟩ (.ok size) h.allocated hroom e now
        hrun with hsize | ⟨rows, hrows⟩
      · exact absurd hsize.symm Except.error_ne_ok
      · obtain ⟨embedding, hembedding⟩ := hgather rows
        exact absurd (hrows.symm.trans hembedding) Except.error_ne_ok

theorem level_reset_if (hlevel : impl.Level) (reset : Bool) : (reset_if reset impl).Level := by
  cases reset with
  | false => exact hlevel
  | true =>
    intro layer hlayer
    have hstate (i : Fin 48) (hi : is_attention i = true) :
        (reset_all_state impl).attention_states i = (impl.attention_states i).reset := if_pos hi
    have hreset : reset_if true impl = reset_all_state impl := rfl
    rw [hreset, exported_count, hstate layer hlayer, hstate 3 rfl]
    rfl

theorem level_greedy_decode (hgather : ∀ rows, ∃ embedding, device.gather rows = .ok embedding)
    (h : impl.Sound) (hlevel : impl.Level) (reset : Bool) :
    (device.greedy_decode token none stale group_size reset impl).2.Level := by
  have hstart := level_reset_if hlevel reset
  rw [greedy_decode]
  dsimp only
  split_ifs with htoken hroom
  · exact hlevel
  · exact hstart
  · rw [Bool.not_eq_false] at hroom
    rcases hrun : device.encode_trunk token none stale group_size
      ⟨reset_if reset impl, device.embedding token⟩ with ⟨outcome, now⟩
    have hnow := level_encode_trunk hgather (sound_reset_if h reset) hstart hroom hrun
    cases outcome with
    | error e => exact hnow
    | ok u => exact hnow

theorem level_decode_trunk (hgather : ∀ rows, ∃ embedding, device.gather rows = .ok embedding)
    (h : impl.Sound) (hlevel : impl.Level) (initial_stream : Bytes) (reset : Bool) :
    (device.decode_trunk token none stale group_size initial_stream reset impl).2.Level := by
  have hstart := level_reset_if hlevel reset
  rw [decode_trunk]
  dsimp only
  split_ifs with hwidth hroom
  · exact hlevel
  · exact hstart
  · rw [Bool.not_eq_false] at hroom
    rcases hrun : device.encode_trunk token none stale group_size
      ⟨reset_if reset impl, initial_stream⟩ with ⟨outcome, now⟩
    have hnow := level_encode_trunk hgather (sound_reset_if h reset) hstart hroom hrun
    cases outcome with
    | error e => exact hnow
    | ok u => exact hnow

theorem level_import_state (h : impl.Sound) (hlevel : impl.Level) (source : TargetState HostArray) :
    (import_state source impl).2.Level := by
  rcases import_state_taken_or_refused h.allocated source with ⟨e, -, hrun⟩ | ⟨haccepted, hrun⟩
  · rw [hrun]
    exact hlevel
  · rw [hrun]
    exact level_imported haccepted

/-- **No layer is left behind** in a run that no fault strikes: each step is taken by all layers or,
where its checks refuse it, by none. -/
theorem level_run (hgather : ∀ rows, ∃ embedding, device.gather rows = .ok embedding) (h : impl.Sound)
    (hlevel : impl.Level) {ops : List (Op V)} (hops : ∀ op ∈ ops, op.Quiet) :
    (device.run ops impl).Level := by
  induction ops generalizing impl with
  | nil => exact hlevel
  | cons op ops ih =>
    obtain ⟨hop, hrest⟩ := List.forall_mem_cons.mp hops
    refine ih (sound_apply h op) ?_ hrest
    cases op with
    | import_state source => exact level_import_state h hlevel source
    | greedy_decode token fault stale group_size reset =>
      obtain rfl : fault = none := hop
      exact level_greedy_decode hgather h hlevel reset
    | decode_trunk token fault stale group_size initial_stream reset =>
      obtain rfl : fault = none := hop
      exact level_decode_trunk hgather h hlevel initial_stream reset
    | export_state => exact hlevel

end Device

/-- **The checkpoints of any run.** What is exported after any order of imports, steps, failed steps
and exports is accepted again, by any backend, and comes back as it is; a step that has room, if
need be behind its reset, and that no fault strikes does not run out of capacity; and when no fault
has struck, an export is not refused. -/
theorem checkpoint_of_run {device : Device V} {pooled : Fin 48 → Bytes} (hpooled : PooledLengths pooled)
    (ops : List (Op V)) :
    (∀ state, export_state (device.run ops (create pooled)) = .ok state → state.token_count ≠ 0 →
      Accepted state ∧ ∀ other : Impl, other.Allocated →
        ∃ next, import_state state other = (.ok (), next) ∧ export_state next = .ok state) ∧
    (∀ reset, can_decode (reset_if reset (device.run ops (create pooled))) = true →
      ∀ token stale group_size e now,
        device.greedy_decode token none stale group_size reset (device.run ops (create pooled)) =
            (.error e, now) →
          device.vocabulary_size ≤ token.toNat ∨ group_size = .error e ∨
            ∃ rows, device.gather rows = .error e) ∧
    ((∀ rows, ∃ embedding, device.gather rows = .ok embedding) → (∀ op ∈ ops, op.Quiet) →
      ∃ state, export_state (device.run ops (create pooled)) = .ok state) := by
  have hsound : (device.run ops (create pooled)).Sound := Device.sound_run (sound_create hpooled) ops
  refine ⟨fun state hexport hpos => ?_, fun reset hroom token stale group_size e now hrun =>
    Device.greedy_decode_error hsound hroom hrun, fun hgather hops => ?_⟩
  · have hlevel := level_of_export_state hexport
    rw [export_state_eq hsound hlevel] at hexport
    obtain rfl := Except.ok.inj hexport
    have haccepted := accepted_exported hsound hlevel hpos
    refine ⟨haccepted, fun other hother => ⟨_, import_state_eq haccepted hother, ?_⟩⟩
    rw [export_state_imported haccepted hother hpos, handed_over_exported]
  · have hlevel := Device.level_run hgather (sound_create hpooled) (level_create pooled) hops
    exact ⟨_, export_state_eq hsound hlevel⟩

/-- A model that computes nothing. -/
def still_device : Device Nat where
  vocabulary_size := 4
  hash := ⟨0, fun _ => 0, fun _ => 1, fun _ => 0⟩
  gather _ := .ok []
  embedding _ := []
  ple _ stream convolution := (stream, convolution)
  length_ple _ _ _ := rfl
  project _ _ _ :=
    { query := []
      gate := []
      selector_query := []
      key := make_buffer (2 * row_bytes)
      value := make_buffer (2 * row_bytes)
      index := make_buffer index_row_bytes
      length_key := length_make_buffer _
      length_value := length_make_buffer _
      length_index := length_make_buffer _ }
  pool _ _ _ := make_buffer index_row_bytes
  length_pool _ _ _ := length_make_buffer _
  score _ _ block := block
  unpack weights _ _ := weights
  attend _ _ _ := []
  attention_output _ stream _ _ := stream
  gdn _ stream state := (stream, state)
  length_convolution _ _ _ := rfl
  length_recurrent _ _ _ := rfl
  head _ := ⟨0, 1, 0⟩

/-- Selector buffers that have been cleared. -/
def cleared : Fin 48 → Scratch Nat := fun _ =>
  ⟨fun _ => 0, ⟨fun _ => 0, fun _ => 0, fun _ => 0, fun _ => 0, fun _ => 0⟩⟩

theorem can_decode_zero_state {impl : Impl} {token_count cold raw_start : Nat}
    (htoken : token_count < 262144) (hcold : cold ≤ token_count)
    (hhot : token_count - cold < hot_capacity) :
    can_decode (imported (zero_state token_count cold raw_start) impl) = true := by
  refine can_decode_eq_true.mpr fun layer hlayer => ?_
  obtain ⟨hcount, hbase, hcold'⟩ := @zero_state_attention token_count cold raw_start layer hlayer
  have hstate : (imported (zero_state token_count cold raw_start) impl).attention_states layer =
      imported_attention (layer_state (zero_state token_count cold raw_start) layer).full_attention
        (impl.attention_states layer) := if_pos ⟨hlayer, List.mem_finRange layer⟩
  have hmax : uint32_max = 4294967295 := rfl
  rw [hstate]
  constructor <;> simp only [imported_attention, hcount, hbase, hcold'] <;> omega

/-- A state of six tokens is taken and a token is decoded; the state of seven tokens is exported,
accepted again and the same again. -/
theorem checkpoint_of_run_still :
    ∃ state, export_state (still_device.run
        [.import_state (zero_state 6 4 4), .greedy_decode 0 none cleared (.ok 3) false]
        (create fun _ => make_buffer (65536 * index_row_bytes))) = .ok state ∧
      state.token_count = 7 ∧ Accepted state ∧ ∀ other : Impl, other.Allocated →
        ∃ next, import_state state other = (.ok (), next) ∧ export_state next = .ok state := by
  have hpooled : PooledLengths fun _ => make_buffer (65536 * index_row_bytes) :=
    fun _ => length_make_buffer _
  have haccepted : Accepted (zero_state 6 4 4) :=
    accepted_zero_state (by decide) (by decide) (by decide) (by decide)
  have hsound := sound_create hpooled
  have himport := @Device.run_import Nat _ _ still_device _ _ haccepted hsound.allocated
  obtain ⟨hcheckpoint, -, hexport⟩ := @checkpoint_of_run Nat _ _ still_device _ hpooled
    [.import_state (zero_state 6 4 4), .greedy_decode 0 none cleared (.ok 3) false]
  obtain ⟨state, hstate⟩ := hexport (fun _ => ⟨[], rfl⟩)
    (List.forall_mem_cons.mpr ⟨trivial, List.forall_mem_cons.mpr ⟨rfl, List.forall_mem_nil _⟩⟩)
  have hcount : state.token_count = 7 := by
    have hseven := @Device.exported_count_greedy_decode Nat _ _ still_device _ 0 cleared (fun _ => ⟨[], rfl⟩)
      (sound_imported haccepted hsound.allocated)
      (can_decode_zero_state (by decide) (by decide) (by decide)) (by decide) 3
    rw [exported_count_imported haccepted] at hseven
    rw [export_state_eq (Device.sound_run hsound _) (level_of_export_state hstate), himport] at hstate
    obtain rfl := Except.ok.inj hstate
    exact hseven
  obtain ⟨haccept, hback⟩ := hcheckpoint state hstate (by rw [hcount]; exact Nat.succ_ne_zero 6)
  exact ⟨state, hstate, hcount, haccept, hback⟩

end PersistentMetalBackend

end Qwen38
