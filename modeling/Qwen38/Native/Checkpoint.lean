import Qwen38.Native.HandOff

/-!
# Checkpoints of the native backend

The states that the backend can be in keep to bounds that no import and no step breaks
(`Qwen38.PersistentMetalBackend.AttentionState.Sound`). Out of such a state an export takes a state
of the model, which an import accepts again; and after an import it is the state that was handed
over (`Qwen38.PersistentMetalBackend.exported_imported`).
-/

namespace Qwen38

open Except (throw_if throw_if_of_not throw_if_eq_ok bind_eq_ok)

namespace PersistentMetalBackend

/-! ### Sound states -/

/-- A quantised buffer of a length. -/
def HasLength (buffer : Option Bytes) (length : Nat) : Prop :=
  ∃ bytes, buffer = some bytes ∧ bytes.length = length

/-- The quantised buffers of a full attention. -/
structure AttentionState.Packed (state : AttentionState) : Prop where
  key_weights : HasLength state.key_weights (byte_count [1, 2, state.cold_count, 64] .uint32)
  value_weights : HasLength state.value_weights (byte_count [1, 2, state.cold_count, 64] .uint32)
  key_scales : HasLength state.key_scales (byte_count [1, 2, state.cold_count, 4] .bfloat16)
  key_biases : HasLength state.key_biases (byte_count [1, 2, state.cold_count, 4] .bfloat16)
  value_scales : HasLength state.value_scales (byte_count [1, 2, state.cold_count, 4] .bfloat16)
  value_biases : HasLength state.value_biases (byte_count [1, 2, state.cold_count, 4] .bfloat16)

/-- The bounds that a full attention keeps to. -/
structure AttentionState.Sound (state : AttentionState) : Prop extends state.Allocated where
  cold_le : state.cold_count ≤ state.token_count
  hot_le : state.token_count - state.cold_count ≤ hot_capacity
  token_le : state.token_count ≤ 262144
  position_le : state.position_base + state.token_count ≤ uint32_max
  packed : state.cold_count ≠ 0 → state.Packed

/-- The bounds that the backend keeps to. -/
structure Impl.Sound (impl : Impl) : Prop where
  attention : ∀ layer, is_attention layer = true → (impl.attention_states layer).Sound
  linear : ∀ layer, is_attention layer = false → (impl.gdn_states layer).Allocated
  ple : impl.ple_convolution.length = byte_count [1, 9, 10240] .bfloat16

theorem Impl.Sound.allocated {impl : Impl} (h : impl.Sound) : impl.Allocated where
  attention layer hlayer := (h.attention layer hlayer).toAllocated
  linear := h.linear
  ple := h.ple

section Imported

variable {input : SelfAttentionState HostArray} {state : AttentionState} {token_count hot : Nat}
  {rows slab : Bytes}

theorem length_copy_heads (hhot : hot ≤ hot_capacity) (hrows : rows.length = 2 * (hot * row_bytes))
    (hslab : slab.length = 2 * (hot_capacity * row_bytes)) :
    (copy_heads hot rows slab).length = slab.length := by
  have hle : hot * row_bytes ≤ hot_capacity * row_bytes := Nat.mul_le_mul_right _ hhot
  have hfirst : (Buffer.read 0 (hot * row_bytes) rows).length = hot * row_bytes :=
    Buffer.length_read (by omega)
  have hsecond : (Buffer.read (hot * row_bytes) (hot * row_bytes) rows).length = hot * row_bytes :=
    Buffer.length_read (by omega)
  have hput : (Buffer.put 0 (Buffer.read 0 (hot * row_bytes) rows) slab).length = slab.length :=
    Buffer.length_put (by omega)
  rw [copy_heads, Buffer.length_put (by omega), hput]

/-- **The rows of both heads are found again.** They lie behind one another in what is imported and
half a slab apart in the backend, and neither copy reaches into the other's half. -/
theorem read_copy_heads (hhot : hot ≤ hot_capacity) (hrows : rows.length = 2 * (hot * row_bytes))
    (hslab : slab.length = 2 * (hot_capacity * row_bytes)) :
    Buffer.read 0 (hot * row_bytes) (copy_heads hot rows slab) =
        Buffer.read 0 (hot * row_bytes) rows ∧
      Buffer.read (hot_capacity * row_bytes) (hot * row_bytes) (copy_heads hot rows slab) =
        Buffer.read (hot * row_bytes) (hot * row_bytes) rows := by
  have hle : hot * row_bytes ≤ hot_capacity * row_bytes := Nat.mul_le_mul_right _ hhot
  have hfirst : (Buffer.read 0 (hot * row_bytes) rows).length = hot * row_bytes :=
    Buffer.length_read (by omega)
  have hsecond : (Buffer.read (hot * row_bytes) (hot * row_bytes) rows).length = hot * row_bytes :=
    Buffer.length_read (by omega)
  have hput : (Buffer.put 0 (Buffer.read 0 (hot * row_bytes) rows) slab).length = slab.length :=
    Buffer.length_put (by omega)
  have hone := @Buffer.read_put _ slab (Buffer.read 0 (hot * row_bytes) rows) 0 (by omega)
  have htwo := @Buffer.read_put _ (Buffer.put 0 (Buffer.read 0 (hot * row_bytes) rows) slab)
    (Buffer.read (hot * row_bytes) (hot * row_bytes) rows) (hot_capacity * row_bytes) (by omega)
  rw [hfirst] at hone
  rw [hsecond] at htwo
  constructor
  · rw [copy_heads, Buffer.read_put_before (by omega) (by omega), hone]
  · rw [copy_heads, htwo]

/-- **What has been imported keeps to the bounds.** -/
theorem sound_imported_attention (h : Fits token_count input) (hstate : state.Allocated) :
    (imported_attention input state).Sound := by
  have hpending (hne : input.token_count % 4 ≠ 0) :
      (Buffer.read (input.qsa_raw_keys.to_bytes.length - input.token_count % 4 * index_row_bytes)
        (input.token_count % 4 * index_row_bytes) input.qsa_raw_keys.to_bytes).length =
          input.token_count % 4 * index_row_bytes := by
    have hle := pending_le_raw h hne
    exact Buffer.length_read (by omega)
  have hmod : input.token_count % 4 * index_row_bytes ≤ 4 * index_row_bytes :=
    Nat.mul_le_mul_right _ (by omega)
  have hblocks : input.token_count / 4 * index_row_bytes ≤ 65536 * index_row_bytes :=
    Nat.mul_le_mul_right _ (by have := h.token_le; omega)
  refine {
    hot_keys := ?_
    hot_values := ?_
    pending := ?_
    pooled := ?_
    cold_le := h.cold_le
    hot_le := h.hot_le
    token_le := h.token_le
    position_le := ?_
    packed := ?_ }
  -- each buffer keeps its size: what is copied into it fits
  · simp only [imported_attention]
    split_ifs with hhot
    · rw [length_copy_heads h.hot_le (length_heads (h.keys hhot)) (by rw [length_clear, hstate.hot_keys]),
        length_clear, hstate.hot_keys]
    · rw [length_clear, hstate.hot_keys]
  · simp only [imported_attention]
    split_ifs with hhot
    · rw [length_copy_heads h.hot_le (length_heads (h.values hhot))
        (by rw [length_clear, hstate.hot_values]), length_clear, hstate.hot_values]
    · rw [length_clear, hstate.hot_values]
  · simp only [imported_attention]
    split_ifs with hne
    · have hlength := hpending hne
      rw [Buffer.length_put (by rw [length_clear, hstate.pending]; omega), length_clear, hstate.pending]
    · rw [length_clear, hstate.pending]
  · simp only [imported_attention]
    split_ifs with hne
    · have hlength := length_pooled h hne
      rw [Buffer.length_put (by rw [hstate.pooled]; omega), hstate.pooled]
    · exact hstate.pooled
  · have hmax : uint32_max = 4294967295 := rfl
    have htoken := h.token_le
    have hposition := h.position_le
    simp only [imported_attention]
    omega
  -- where there are cold rows, their arrays have the shapes that were checked
  · intro hcold
    have hforms := h.quantized hcold
    simp only [imported_attention] at hcold ⊢
    exact {
      key_weights := ⟨_, if_pos hcold, HostArray.length_of_form hforms.key_weights⟩
      value_weights := ⟨_, if_pos hcold, HostArray.length_of_form hforms.value_weights⟩
      key_scales := ⟨_, if_pos hcold, HostArray.length_of_form hforms.key_scales⟩
      key_biases := ⟨_, if_pos hcold, HostArray.length_of_form hforms.key_biases⟩
      value_scales := ⟨_, if_pos hcold, HostArray.length_of_form hforms.value_scales⟩
      value_biases := ⟨_, if_pos hcold, HostArray.length_of_form hforms.value_biases⟩ }

end Imported

/-- **An import leaves a state that keeps to the bounds**, since the checks of the import are these
bounds. -/
theorem sound_imported {source : TargetState HostArray} {impl : Impl} (h : Accepted source)
    (himpl : impl.Allocated) : (imported source impl).Sound where
  attention layer hlayer := by
    have hstate : (imported source impl).attention_states layer =
        imported_attention (layer_state source layer).full_attention (impl.attention_states layer) :=
      if_pos ⟨hlayer, List.mem_finRange layer⟩
    rw [hstate]
    exact sound_imported_attention (h.attention layer hlayer) (himpl.attention layer hlayer)
  linear layer hlayer := by
    have hstate : (imported source impl).gdn_states layer =
        imported_linear (layer_state source layer).linear_attention :=
      if_pos ⟨hlayer, List.mem_finRange layer⟩
    rw [hstate]
    exact ⟨HostArray.length_of_form (h.linear layer hlayer).convolution,
      HostArray.length_of_form (h.linear layer hlayer).recurrent⟩
  ple := HostArray.length_of_form h.ple.convolution

/-! ### What is exported -/

/-- The array of a quantised buffer. -/
def packed_array (buffer : Option Bytes) (shape : List Nat) (dtype : Dtype) : HostArray :=
  new_data shape dtype (buffer.getD [])

/-- What is exported of a full attention. -/
def exported_attention (input : AttentionState) : SelfAttentionState HostArray :=
  let cold := input.cold_count
  let hot := input.token_count - cold
  let pending := input.token_count % 4
  let blocks := input.token_count / 4
  { keys := if hot ≠ 0 then copy_hot hot input.hot_keys else default
    values := if hot ≠ 0 then copy_hot hot input.hot_values else default
    key_weights := if cold ≠ 0 then packed_array input.key_weights [1, 2, cold, 64] .uint32 else default
    key_scales := if cold ≠ 0 then packed_array input.key_scales [1, 2, cold, 4] .bfloat16 else default
    key_biases := if cold ≠ 0 then packed_array input.key_biases [1, 2, cold, 4] .bfloat16 else default
    value_weights :=
      if cold ≠ 0 then packed_array input.value_weights [1, 2, cold, 64] .uint32 else default
    value_scales :=
      if cold ≠ 0 then packed_array input.value_scales [1, 2, cold, 4] .bfloat16 else default
    value_biases :=
      if cold ≠ 0 then packed_array input.value_biases [1, 2, cold, 4] .bfloat16 else default
    kv_q8 := decide (cold ≠ 0)
    kv_q8_cold_tokens := cold
    qsa_raw_keys := if pending = 0 then zeros [1, 0, 128] .bfloat16
      else new_data [1, pending, 128] .bfloat16 input.pending
    qsa_raw_start := input.token_count - pending
    qsa_pooled_keys := if blocks ≠ 0 then new_data [1, blocks, 128] .bfloat16 input.pooled else default
    qsa_pooled_count := blocks
    token_count := input.token_count
    position_base := input.position_base }

/-- What is exported of a linear attention. -/
def exported_linear (token_count : Nat) (input : GdnState) :
    GatedDeltaNetState HostArray HostArray :=
  { (default : GatedDeltaNetState HostArray HostArray) with
    convolution := new_data [1, 3, 10240] .bfloat16 input.convolution
    recurrent := new_data [1, 48, 128, 128] .bfloat16 input.recurrent
    initialized := token_count ≠ 0 }

/-- What is exported of a layer. -/
def exported_layer (impl : Impl) (layer : Fin 48) : DecoderLayerState HostArray HostArray :=
  if is_attention layer then
    { (default : DecoderLayerState HostArray HostArray) with
      full_attention := exported_attention (impl.attention_states layer) }
  else
    { (default : DecoderLayerState HostArray HostArray) with
      linear_attention := exported_linear (exported_count impl) (impl.gdn_states layer) }

/-- What is exported of the token embedding. -/
def exported_ple (impl : Impl) : PleState HostArray where
  ngram := impl.ple_ngram_state
  convolution := new_data [1, 9, 10240] .bfloat16 impl.ple_convolution
  convolution_initialized := exported_count impl ≠ 0

/-- What is exported. -/
def exported (impl : Impl) : TargetState HostArray where
  layers := (layers.map (exported_layer impl)).modify ple_layer.val fun state =>
    { state with ple := exported_ple impl }
  token_count := exported_count impl

/-- Every full attention has seen as many tokens as the first. -/
def Impl.Level (impl : Impl) : Prop :=
  ∀ layer, is_attention layer = true → (impl.attention_states layer).token_count = exported_count impl

section Exports

variable {shape : List Nat} {dtype : Dtype} {bytes : Nat} {buffer : Bytes} {input : AttentionState}

theorem export_array_eq (hbytes : bytes = byte_count shape dtype) (h : bytes ≤ buffer.length) :
    export_array (some buffer) shape dtype bytes = .ok (new_data shape dtype buffer) := by
  have hlength : (new_data shape dtype buffer).to_bytes.length = bytes :=
    (new_data shape dtype buffer).length_to_bytes.trans hbytes.symm
  simp only [export_array, throw_if_of_not (Nat.not_lt.mpr h), throw_if_of_not (not_not.mpr hlength)]
  rfl

theorem export_packed_eq {source : Option Bytes} (hbytes : bytes = byte_count shape dtype)
    (h : HasLength source (byte_count shape dtype)) :
    export_array source shape dtype bytes = .ok (packed_array source shape dtype) := by
  obtain ⟨buffer, rfl, hlength⟩ := h
  exact export_array_eq hbytes (by rw [hbytes, hlength])

theorem export_quantized_eq (h : input.cold_count ≠ 0 → input.Packed)
    {out : SelfAttentionState HostArray} :
    export_quantized input out = .ok (if input.cold_count ≠ 0 then
      { out with
        kv_q8 := true
        kv_q8_cold_tokens := input.cold_count
        key_weights := packed_array input.key_weights [1, 2, input.cold_count, 64] .uint32
        value_weights := packed_array input.value_weights [1, 2, input.cold_count, 64] .uint32
        key_scales := packed_array input.key_scales [1, 2, input.cold_count, 4] .bfloat16
        key_biases := packed_array input.key_biases [1, 2, input.cold_count, 4] .bfloat16
        value_scales := packed_array input.value_scales [1, 2, input.cold_count, 4] .bfloat16
        value_biases := packed_array input.value_biases [1, 2, input.cold_count, 4] .bfloat16 }
      else out) := by
  by_cases hcold : input.cold_count = 0
  · simp [export_quantized, hcold]
  · have hpacked := h hcold
    have hweights : 2 * input.cold_count * 256 = byte_count [1, 2, input.cold_count, 64] .uint32 := by
      simp only [byte_count, List.prod_cons, List.prod_nil, Dtype.size]
      ring
    have hmetadata : 2 * input.cold_count * 4 * 2 =
        byte_count [1, 2, input.cold_count, 4] .bfloat16 := by
      simp only [byte_count, List.prod_cons, List.prod_nil, Dtype.size]
      ring
    simp only [export_quantized, ne_eq, hcold, not_false_eq_true, if_true,
      export_packed_eq hweights hpacked.key_weights, export_packed_eq hweights hpacked.value_weights,
      export_packed_eq hmetadata hpacked.key_scales, export_packed_eq hmetadata hpacked.key_biases,
      export_packed_eq hmetadata hpacked.value_scales, export_packed_eq hmetadata hpacked.value_biases]
    rfl

/-- **A full attention within the bounds is exported.** -/
theorem export_attention_eq (h : input.Sound) :
    export_attention input = .ok (exported_attention input) := by
  have htoken := h.token_le
  have hcold := h.cold_le
  have hhot : sub32 input.token_count input.cold_count = input.token_count - input.cold_count :=
    sub32_of_le (by omega) hcold
  have hpending : input.token_count % 4 * index_row_bytes =
      byte_count [1, input.token_count % 4, 128] .bfloat16 := by
    simp only [byte_count, List.prod_cons, List.prod_nil, Dtype.size, index_row_bytes]
    ring
  have hpooled : input.token_count / 4 * index_row_bytes =
      byte_count [1, input.token_count / 4, 128] .bfloat16 := by
    simp only [byte_count, List.prod_cons, List.prod_nil, Dtype.size, index_row_bytes]
    ring
  have hfirst : input.token_count % 4 * index_row_bytes ≤ input.pending.length := by
    rw [h.pending]
    exact Nat.mul_le_mul_right _ (by omega)
  have hsecond : input.token_count / 4 * index_row_bytes ≤ input.pooled.length := by
    rw [h.pooled]
    exact Nat.mul_le_mul_right _ (by omega)
  simp only [export_attention, hhot, export_quantized_eq h.packed, Except.ok_bind,
    export_array_eq hpending hfirst, export_array_eq hpooled hsecond]
  rw [exported_attention]
  by_cases hcold : input.cold_count = 0 <;> by_cases hrest : input.token_count % 4 = 0 <;>
    by_cases hblocks : input.token_count / 4 = 0 <;>
    simp only [hcold, hrest, hblocks, ne_eq, not_true_eq_false, not_false_eq_true, if_true, if_false,
      Except.pure_eq_ok, decide_true, decide_false] <;> rfl

/-- **What is exported fits.** -/
theorem fits_exported (h : input.Sound) : Fits input.token_count (exported_attention input) := by
  have hcold : cold_tokens (exported_attention input) = input.cold_count := by
    by_cases hzero : input.cold_count = 0 <;> simp [cold_tokens, exported_attention, hzero]
  have hposition := h.position_le
  refine {
    token_count := rfl
    token_le := h.token_le
    pooled_count := rfl
    cold_le := hcold.trans_le h.cold_le
    hot_le := ?_
    position_le := ?_
    keys := ?_
    values := ?_
    quantized := ?_
    pooled := ?_
    frontier := ?_ }
  · rw [hcold]
    exact h.hot_le
  · exact Nat.le_sub_of_add_le hposition
  · rw [hcold]
    intro hhot
    simp only [exported_attention] at hhot ⊢
    rw [if_pos hhot]
    exact ⟨rfl, rfl⟩
  · rw [hcold]
    intro hhot
    simp only [exported_attention] at hhot ⊢
    rw [if_pos hhot]
    exact ⟨rfl, rfl⟩
  · rw [hcold]
    intro hne
    simp only [exported_attention, ne_eq, hne, not_false_eq_true, if_true]
    exact ⟨⟨rfl, rfl⟩, ⟨rfl, rfl⟩, ⟨rfl, rfl⟩, ⟨rfl, rfl⟩, ⟨rfl, rfl⟩, ⟨rfl, rfl⟩⟩
  · intro hblocks
    simp only [exported_attention] at hblocks ⊢
    rw [if_pos hblocks]
    exact ⟨rfl, rfl⟩
  · intro hpending
    simp only [exported_attention] at hpending
    simp only [raw_frontier, exported_attention, hpending, if_false, new_data]
    simp only [decide_true, Bool.true_and, Bool.and_eq_true, decide_eq_true_eq]
    omega

end Exports

/-! ### The whole state -/

section Whole

variable {impl : Impl} {source : TargetState HostArray} {layer : Fin 48}

theorem mapM_eq_ok {α β : Type} {f : α → Except String β} {g : α → β} {l : List α}
    (h : ∀ a ∈ l, f a = .ok (g a)) : l.mapM f = .ok (l.map g) := by
  induction l with
  | nil => rfl
  | cons a l ih =>
    rw [List.mapM_cons, h a List.mem_cons_self, Except.ok_bind,
      ih fun b hb => h b (List.mem_cons_of_mem a hb)]
    rfl

theorem forall_of_mapM_eq_ok {α β : Type} {f : α → Except String β} {l : List α} {bs : List β}
    (h : l.mapM f = .ok bs) : ∀ a ∈ l, ∃ b, f a = .ok b := by
  induction l generalizing bs with
  | nil => exact List.forall_mem_nil _
  | cons a l ih =>
    rw [List.mapM_cons] at h
    obtain ⟨b, hhead, h⟩ := bind_eq_ok.mp h
    obtain ⟨rest, hrest, -⟩ := bind_eq_ok.mp h
    exact List.forall_mem_cons.mpr ⟨⟨b, hhead⟩, ih hrest⟩

theorem export_layer_eq (h : impl.Sound) (hlevel : impl.Level) :
    export_layer impl layer = .ok (exported_layer impl layer) := by
  rw [export_layer, exported_layer]
  cases hlayer : is_attention layer with
  | true =>
    simp only [if_true, throw_if_of_not (not_not.mpr (hlevel layer hlayer)), Except.ok_bind,
      export_attention_eq (h.attention layer hlayer), Except.pure_eq_ok]
  | false =>
    have hstate := h.linear layer hlayer
    have hconvolution : 3 * 10240 * 2 = byte_count [1, 3, 10240] .bfloat16 := rfl
    have hrecurrent : 48 * 128 * 128 * 2 = byte_count [1, 48, 128, 128] .bfloat16 := rfl
    simp only [Bool.false_eq_true, if_false, export_linear,
      export_array_eq hconvolution (hconvolution.trans hstate.convolution.symm).le,
      export_array_eq hrecurrent (hrecurrent.trans hstate.recurrent.symm).le, Except.ok_bind,
      Except.pure_eq_ok]
    rfl

/-- **A state within the bounds is exported**, when no layer is behind. The checks of an export
compare the layers with one another, and nothing else of it can throw. -/
theorem export_state_eq (h : impl.Sound) (hlevel : impl.Level) :
    export_state impl = .ok (exported impl) := by
  have hconvolution : 9 * 10240 * 2 = byte_count [1, 9, 10240] .bfloat16 := rfl
  have hlayers : layers.mapM (export_layer impl) = .ok (layers.map (exported_layer impl)) :=
    mapM_eq_ok fun layer _ => export_layer_eq h hlevel
  simp only [export_state, hlayers, Except.ok_bind, export_ple,
    export_array_eq hconvolution (hconvolution.trans h.ple.symm).le, Except.pure_eq_ok]
  rfl

/-- An export that returns has found no layer behind. -/
theorem level_of_export_state {state : TargetState HostArray} (h : export_state impl = .ok state) :
    impl.Level := by
  intro layer hlayer
  rw [export_state] at h
  obtain ⟨states, hstates, -⟩ := bind_eq_ok.mp h
  obtain ⟨out, hout⟩ := forall_of_mapM_eq_ok hstates layer (List.mem_finRange layer)
  rw [export_layer, if_pos hlayer] at hout
  obtain ⟨_, hcheck, -⟩ := bind_eq_ok.mp hout
  exact not_not.mp (throw_if_eq_ok.mp hcheck)

theorem layer_state_modify {g : Fin 48 → DecoderLayerState HostArray HostArray}
    {ple : PleState HostArray} {token_count : Nat} :
    layer_state ⟨(layers.map g).modify ple_layer.val fun state => { state with ple }, token_count⟩ layer =
      if layer = ple_layer then { g layer with ple } else g layer := by
  have hget : (layers.map g)[layer.val]? = some (g layer) := by
    simp [layers]
  rw [layer_state, List.getD_eq_getElem?_getD, List.getElem?_modify, hget]
  by_cases hlayer : layer = ple_layer
  · subst hlayer
    simp
  · have hne : ple_layer.val ≠ layer.val := fun heq => hlayer (Fin.ext heq.symm)
    simp [hlayer, hne]

/-- **What is exported is accepted again**, by any backend that has its buffers: each of the checks
of an import is about a count or a length that the export has just written. -/
theorem accepted_exported (h : impl.Sound) (hlevel : impl.Level) (hpos : exported_count impl ≠ 0) :
    Accepted (exported impl) := by
  have hple : is_attention ple_layer = false := rfl
  refine ⟨?_, fun layer hlayer => ?_, fun layer hlayer => ?_, ?_⟩
  · rw [exported, List.length_modify, List.length_map, layers, List.length_finRange]
  · have hne : layer ≠ ple_layer := by
      rintro rfl
      exact Bool.noConfusion (hple.symm.trans hlayer)
    rw [exported, layer_state_modify, if_neg hne, exported_layer, if_pos hlayer, ← hlevel layer hlayer]
    exact fits_exported (h.attention layer hlayer)
  · have hlinear : (layer_state (exported impl) layer).linear_attention =
        exported_linear (exported_count impl) (impl.gdn_states layer) := by
      rw [exported, layer_state_modify]
      split_ifs <;> rw [exported_layer, if_neg (by rw [hlayer]; exact Bool.false_ne_true)]
    rw [hlinear]
    exact ⟨decide_eq_true hpos, ⟨rfl, rfl⟩, ⟨rfl, rfl⟩⟩
  · rw [exported, layer_state_modify, if_pos rfl]
    exact ⟨decide_eq_true hpos, ⟨rfl, rfl⟩⟩

end Whole

/-! ### The state that is handed over -/

/-- The full attention that is handed over: the index rows are those of the block that is not whole,
and a state without cold tokens is not a quantised one. -/
def handed_over_attention (input : SelfAttentionState HostArray) : SelfAttentionState HostArray :=
  let cold := cold_tokens input
  let hot := input.token_count - cold
  let pending := input.token_count % 4
  let raw := input.qsa_raw_keys.to_bytes
  { keys := if hot ≠ 0 then input.keys else default
    values := if hot ≠ 0 then input.values else default
    key_weights := if cold ≠ 0 then input.key_weights else default
    key_scales := if cold ≠ 0 then input.key_scales else default
    key_biases := if cold ≠ 0 then input.key_biases else default
    value_weights := if cold ≠ 0 then input.value_weights else default
    value_scales := if cold ≠ 0 then input.value_scales else default
    value_biases := if cold ≠ 0 then input.value_biases else default
    kv_q8 := decide (cold ≠ 0)
    kv_q8_cold_tokens := cold
    qsa_raw_keys := if pending = 0 then zeros [1, 0, 128] .bfloat16
      else new_data [1, pending, 128] .bfloat16 (raw.drop (raw.length - pending * index_row_bytes))
    qsa_raw_start := input.token_count - pending
    qsa_pooled_keys := if input.qsa_pooled_count ≠ 0 then input.qsa_pooled_keys else default
    qsa_pooled_count := input.qsa_pooled_count
    token_count := input.token_count
    position_base := input.position_base }

/-- The linear attention that is handed over: nothing is left to roll back. -/
def handed_over_linear (input : GatedDeltaNetState HostArray HostArray) :
    GatedDeltaNetState HostArray HostArray :=
  { (default : GatedDeltaNetState HostArray HostArray) with
    convolution := input.convolution
    recurrent := input.recurrent
    initialized := input.initialized }

/-- The layer that is handed over. -/
def handed_over_layer (source : TargetState HostArray) (layer : Fin 48) :
    DecoderLayerState HostArray HostArray :=
  if is_attention layer then
    { (default : DecoderLayerState HostArray HostArray) with
      full_attention := handed_over_attention (layer_state source layer).full_attention }
  else
    { (default : DecoderLayerState HostArray HostArray) with
      linear_attention := handed_over_linear (layer_state source layer).linear_attention }

/-- The state that is handed over. -/
def handed_over (source : TargetState HostArray) : TargetState HostArray where
  layers := (layers.map (handed_over_layer source)).modify ple_layer.val fun state =>
    { state with ple := (layer_state source ple_layer).ple }
  token_count := source.token_count

section HandedOver

variable {source : TargetState HostArray} {impl : Impl} {input : SelfAttentionState HostArray}
  {state : AttentionState} {token_count hot : Nat} {array : HostArray} {slab : Bytes}

theorem new_data_put {shape : List Nat} {dtype : Dtype} {data buffer : Bytes}
    (hdata : data.length = byte_count shape dtype) (hbuffer : data.length ≤ buffer.length) :
    new_data shape dtype (Buffer.put 0 data buffer) = new_data shape dtype data := by
  have hput := @Buffer.read_put _ buffer data 0 (by omega)
  have hlength := @Buffer.length_put _ buffer data 0 (by omega)
  refine HostArray.eq_of_form rfl rfl ?_
  rw [to_bytes_new_data (by omega), to_bytes_new_data hdata.ge, ← hdata, hput, Buffer.read_zero rfl]

/-- The rows of both heads make the array again. -/
theorem copy_hot_copy_heads (hhot : hot ≤ hot_capacity)
    (harray : array.shape = [1, 2, hot, 256] ∧ array.dtype = .bfloat16)
    (hslab : slab.length = 2 * (hot_capacity * row_bytes)) :
    copy_hot hot (copy_heads hot array.to_bytes slab) = array := by
  have hlength := length_heads harray
  have hread := read_copy_heads hhot hlength hslab
  rw [copy_hot, hread.1, hread.2]
  have hwhole : Buffer.read 0 (hot * row_bytes) array.to_bytes ++
      Buffer.read (hot * row_bytes) (hot * row_bytes) array.to_bytes = array.to_bytes := by
    have hsplit := Buffer.read_add 0 (hot * row_bytes) (hot * row_bytes) array.to_bytes
    rw [Nat.zero_add] at hsplit
    rw [← hsplit, Buffer.read_zero (by omega)]
  rw [hwhole, new_data_to_bytes harray]

/-- **A full attention is handed over.** -/
theorem exported_imported_attention (h : Fits token_count input) (hstate : state.Allocated) :
    exported_attention (imported_attention input state) = handed_over_attention input := by
  have hslab (buffer : Bytes) (hbuffer : buffer.length = 2 * (hot_capacity * row_bytes)) :
      (clear buffer).length = 2 * (hot_capacity * row_bytes) := (length_clear buffer).trans hbuffer
  rw [exported_attention, handed_over_attention, SelfAttentionState.mk.injEq]
  simp only [imported_attention]
  refine ⟨?_, ?_, ?_, ?_, ?_, ?_, ?_, ?_, rfl, trivial, ?_, trivial, ?_, h.pooled_count.symm,
    trivial, trivial⟩
  -- the hot rows of the two heads, cut to those that are there
  · split_ifs with hhot
    · exact copy_hot_copy_heads h.hot_le (h.keys hhot) (hslab _ hstate.hot_keys)
    · rfl
  · split_ifs with hhot
    · exact copy_hot_copy_heads h.hot_le (h.values hhot) (hslab _ hstate.hot_values)
    · rfl
  -- the quantised rows, array by array
  · split_ifs with hcold
    · exact new_data_to_bytes (h.quantized hcold).key_weights
    · rfl
  · split_ifs with hcold
    · exact new_data_to_bytes (h.quantized hcold).key_scales
    · rfl
  · split_ifs with hcold
    · exact new_data_to_bytes (h.quantized hcold).key_biases
    · rfl
  · split_ifs with hcold
    · exact new_data_to_bytes (h.quantized hcold).value_weights
    · rfl
  · split_ifs with hcold
    · exact new_data_to_bytes (h.quantized hcold).value_scales
    · rfl
  · split_ifs with hcold
    · exact new_data_to_bytes (h.quantized hcold).value_biases
    · rfl
  -- the pending index rows: the end of the raw ones
  · by_cases hpending : input.token_count % 4 = 0
    · exact (if_pos hpending).trans (if_pos hpending).symm
    · have hraw := pending_le_raw h hpending
      have hread : Buffer.read
          (input.qsa_raw_keys.to_bytes.length - input.token_count % 4 * index_row_bytes)
          (input.token_count % 4 * index_row_bytes) input.qsa_raw_keys.to_bytes =
            input.qsa_raw_keys.to_bytes.drop
              (input.qsa_raw_keys.to_bytes.length - input.token_count % 4 * index_row_bytes) := by
        rw [Buffer.read, List.take_of_length_le (by rw [List.length_drop]; omega)]
      have hmod : input.token_count % 4 * index_row_bytes ≤ 4 * index_row_bytes :=
        Nat.mul_le_mul_right _ (by omega)
      refine (if_neg hpending).trans (Eq.trans ?_ (if_neg hpending).symm)
      rw [if_pos hpending, hread]
      refine new_data_put ?_ ?_
      · rw [List.length_drop, byte_count]
        simp only [List.prod_cons, List.prod_nil, Dtype.size, index_row_bytes] at hraw ⊢
        omega
      · rw [List.length_drop, length_clear, hstate.pending]
        omega
  -- the pooled rows of the whole blocks
  · by_cases hblocks : input.token_count / 4 = 0
    · have hcount : ¬input.qsa_pooled_count ≠ 0 := not_not.mpr (h.pooled_count.trans hblocks)
      exact (if_neg (not_not.mpr hblocks)).trans (if_neg hcount).symm
    · have hcount : input.qsa_pooled_count ≠ 0 := h.pooled_count.trans_ne hblocks
      have hform := h.pooled hcount
      have hlength := length_pooled h hcount
      have hle : input.token_count / 4 * index_row_bytes ≤ 65536 * index_row_bytes :=
        Nat.mul_le_mul_right _ (by have := h.token_le; omega)
      refine (if_pos hblocks).trans (Eq.trans ?_ (if_pos hcount).symm)
      rw [h.pooled_count] at hform
      rw [if_pos hcount]
      rw [new_data_put (HostArray.length_of_form hform) (by rw [hstate.pooled]; omega),
        new_data_to_bytes hform]

theorem exported_count_imported (h : Accepted source) :
    exported_count (imported source impl) = source.token_count :=
  (h.attention 3 rfl).token_count

theorem level_imported (h : Accepted source) : (imported source impl).Level := by
  intro layer hlayer
  rw [exported_count_imported h, ← (h.attention layer hlayer).token_count]
  exact congrArg AttentionState.token_count (if_pos ⟨hlayer, List.mem_finRange layer⟩)

/-- **A linear attention is handed over.** -/
theorem exported_imported_linear {input : GatedDeltaNetState HostArray HostArray} (h : LinearFits input)
    (hpos : token_count ≠ 0) :
    exported_linear token_count (imported_linear input) = handed_over_linear input := by
  rw [exported_linear, handed_over_linear, imported_linear, new_data_to_bytes h.convolution,
    new_data_to_bytes h.recurrent, h.initialized, decide_eq_true hpos]

/-- **A state is handed over.** What the backend exports of a state that it has just imported is
this state, layer by layer, but for the index rows of whole blocks, which it does not keep. -/
theorem exported_imported (h : Accepted source) (himpl : impl.Allocated)
    (hpos : source.token_count ≠ 0) : exported (imported source impl) = handed_over source := by
  have hcount : exported_count (imported source impl) = source.token_count := exported_count_imported h
  have hlayers : layers.map (exported_layer (imported source impl)) =
      layers.map (handed_over_layer source) := by
    refine List.map_congr_left fun layer _ => ?_
    rw [exported_layer, handed_over_layer, hcount]
    cases hlayer : is_attention layer with
    | true =>
      have hstate : (imported source impl).attention_states layer =
          imported_attention (layer_state source layer).full_attention (impl.attention_states layer) :=
        if_pos ⟨hlayer, List.mem_finRange layer⟩
      simp only [if_true, hstate,
        exported_imported_attention (h.attention layer hlayer) (himpl.attention layer hlayer)]
    | false =>
      have hstate : (imported source impl).gdn_states layer =
          imported_linear (layer_state source layer).linear_attention :=
        if_pos ⟨hlayer, List.mem_finRange layer⟩
      simp only [Bool.false_eq_true, if_false, hstate,
        exported_imported_linear (h.linear layer hlayer) hpos]
  have hple : exported_ple (imported source impl) = (layer_state source ple_layer).ple := by
    rw [exported_ple, hcount, decide_eq_true hpos, ← h.ple.initialized]
    exact congrArg (fun convolution => PleState.mk _ convolution _) (new_data_to_bytes h.ple.convolution)
  rw [exported, handed_over, hlayers, hple, hcount]

/-- **An export after an import.** -/
theorem export_state_imported (h : Accepted source) (himpl : impl.Allocated)
    (hpos : source.token_count ≠ 0) :
    export_state (imported source impl) = .ok (handed_over source) := by
  rw [export_state_eq (sound_imported h himpl) (level_imported h), exported_imported h himpl hpos]

/-- A full attention that has been exported is handed over as it is. -/
theorem handed_over_exported_attention (state : AttentionState) :
    handed_over_attention (exported_attention state) = exported_attention state := by
  have hcold : cold_tokens (exported_attention state) = state.cold_count := by
    by_cases hzero : state.cold_count = 0 <;> simp [cold_tokens, exported_attention, hzero]
  have hraw : state.token_count % 4 ≠ 0 → new_data [1, state.token_count % 4, 128] .bfloat16
      ((exported_attention state).qsa_raw_keys.to_bytes.drop
        ((exported_attention state).qsa_raw_keys.to_bytes.length -
          state.token_count % 4 * index_row_bytes)) =
      new_data [1, state.token_count % 4, 128] .bfloat16 state.pending := by
    intro hpending
    have hkeys : (exported_attention state).qsa_raw_keys =
        new_data [1, state.token_count % 4, 128] .bfloat16 state.pending := if_neg hpending
    have hform : (exported_attention state).qsa_raw_keys.shape = [1, state.token_count % 4, 128] ∧
        (exported_attention state).qsa_raw_keys.dtype = .bfloat16 := by
      rw [hkeys]
      exact ⟨rfl, rfl⟩
    have hlength : (exported_attention state).qsa_raw_keys.to_bytes.length =
        state.token_count % 4 * index_row_bytes := by
      rw [HostArray.length_of_form hform, byte_count, index_row_bytes]
      simp only [List.prod_cons, List.prod_nil, Dtype.size]
      ring
    rw [hlength, Nat.sub_self, List.drop_zero, new_data_to_bytes hform, hkeys]
  rw [handed_over_attention, hcold]
  have htwice (c : Prop) [Decidable c] (array : HostArray) :
      (if c then (if c then array else default) else default) = if c then array else default := by
    by_cases hc : c
    · rw [if_pos hc, if_pos hc]
    · rw [if_neg hc, if_neg hc]
  have hpending : (if state.token_count % 4 = 0 then zeros [1, 0, 128] .bfloat16
      else new_data [1, state.token_count % 4, 128] .bfloat16
        ((exported_attention state).qsa_raw_keys.to_bytes.drop
          ((exported_attention state).qsa_raw_keys.to_bytes.length -
            state.token_count % 4 * index_row_bytes))) = (exported_attention state).qsa_raw_keys := by
    by_cases hzero : state.token_count % 4 = 0
    · exact (if_pos hzero).trans (if_pos hzero).symm
    · exact (if_neg hzero).trans ((hraw hzero).trans (if_neg hzero).symm)
  rw [exported_attention, SelfAttentionState.mk.injEq]
  exact ⟨htwice _ _, htwice _ _, htwice _ _, htwice _ _, htwice _ _, htwice _ _, htwice _ _, htwice _ _,
    rfl, rfl, hpending, rfl, htwice _ _, rfl, rfl, rfl⟩

/-- **A checkpoint is handed over as it is.** What an import leaves out of the index rows, an export
has left out before. -/
theorem handed_over_exported (impl : Impl) : handed_over (exported impl) = exported impl := by
  have hlayers : layers.map (handed_over_layer (exported impl)) = layers.map (exported_layer impl) := by
    refine List.map_congr_left fun layer _ => ?_
    cases hlayer : is_attention layer with
    | true =>
      have hne : layer ≠ ple_layer := by
        rintro rfl
        exact Bool.noConfusion hlayer
      rw [handed_over_layer, if_pos hlayer, exported, layer_state_modify, if_neg hne, exported_layer,
        if_pos hlayer, handed_over_exported_attention]
    | false =>
      have hnot : ¬is_attention layer = true := by
        rw [hlayer]
        exact Bool.false_ne_true
      have hlinear : (layer_state (exported impl) layer).linear_attention =
          exported_linear (exported_count impl) (impl.gdn_states layer) := by
        rw [exported, layer_state_modify]
        split_ifs <;> rw [exported_layer, if_neg hnot]
      rw [handed_over_layer, if_neg hnot, hlinear, exported_layer, if_neg hnot]
      rfl
  have hple : (layer_state (exported impl) ple_layer).ple = exported_ple impl := by
    rw [exported, layer_state_modify, if_pos rfl]
  rw [handed_over, hlayers, hple]
  rfl

end HandedOver

/-! ### A backend that has been made -/

/-- The pooled rows of a backend that has been made may be anything. -/
def PooledLengths (pooled : Fin 48 → Bytes) : Prop :=
  ∀ layer, (pooled layer).length = 65536 * index_row_bytes

@[simp] theorem length_make_buffer (bytes : Nat) : (make_buffer bytes).length = bytes :=
  List.length_replicate

section Made

variable {pooled : Fin 48 → Bytes} {layer : Fin 48}

theorem attention_state_create (hlayer : is_attention layer = true) :
    (create pooled).attention_states layer = { (default : AttentionState) with
      hot_keys := make_buffer (2 * (hot_capacity * row_bytes))
      hot_values := make_buffer (2 * (hot_capacity * row_bytes))
      pending := make_buffer (4 * index_row_bytes)
      pooled := pooled layer } :=
  if_pos hlayer

theorem sound_create (h : PooledLengths pooled) : (create pooled).Sound where
  attention layer hlayer := by
    rw [attention_state_create hlayer]
    exact {
      hot_keys := length_make_buffer _
      hot_values := length_make_buffer _
      pending := length_make_buffer _
      pooled := h layer
      cold_le := le_refl 0
      hot_le := Nat.zero_le _
      token_le := Nat.zero_le _
      position_le := Nat.zero_le _
      packed := fun hne => absurd rfl hne }
  linear layer hlayer := by
    have hstate : (create pooled).gdn_states layer =
        ⟨make_buffer (3 * 10240 * 2), make_buffer (48 * 128 * 128 * 2)⟩ := by
      simp [create, hlayer]
    rw [hstate]
    exact ⟨length_make_buffer _, length_make_buffer _⟩
  ple := length_make_buffer _

theorem level_create (pooled : Fin 48 → Bytes) : (create pooled).Level := by
  intro layer hlayer
  have hfirst : is_attention 3 = true := rfl
  rw [exported_count, attention_state_create hlayer, attention_state_create hfirst]

end Made

/-- A state of zeros: so many tokens, the first of them quantised, and index rows from a token
on. -/
def zero_state (token_count cold raw_start : Nat) : TargetState HostArray where
  layers := (layers.map fun layer =>
      if is_attention layer then
        { (default : DecoderLayerState HostArray HostArray) with
          full_attention := { (default : SelfAttentionState HostArray) with
            keys := zeros [1, 2, token_count - cold, 256] .bfloat16
            values := zeros [1, 2, token_count - cold, 256] .bfloat16
            kv_q8 := true
            kv_q8_cold_tokens := cold
            key_weights := zeros [1, 2, cold, 64] .uint32
            key_scales := zeros [1, 2, cold, 4] .bfloat16
            key_biases := zeros [1, 2, cold, 4] .bfloat16
            value_weights := zeros [1, 2, cold, 64] .uint32
            value_scales := zeros [1, 2, cold, 4] .bfloat16
            value_biases := zeros [1, 2, cold, 4] .bfloat16
            qsa_raw_keys := zeros [1, token_count - raw_start, 128] .bfloat16
            qsa_raw_start := raw_start
            qsa_pooled_keys := zeros [1, token_count / 4, 128] .bfloat16
            qsa_pooled_count := token_count / 4
            token_count } }
      else
        { (default : DecoderLayerState HostArray HostArray) with
          linear_attention := { (default : GatedDeltaNetState HostArray HostArray) with
            convolution := zeros [1, 3, 10240] .bfloat16
            recurrent := zeros [1, 48, 128, 128] .bfloat16
            initialized := true } }).modify ple_layer.val fun state =>
    { state with ple := { (default : PleState HostArray) with
      convolution := zeros [1, 9, 10240] .bfloat16
      convolution_initialized := true } }
  token_count

section Zeros

variable {token_count cold raw_start : Nat} {layer : Fin 48}

/-- What a full attention of it has. -/
theorem zero_state_attention (hlayer : is_attention layer = true) :
    let input := (layer_state (zero_state token_count cold raw_start) layer).full_attention
    input.token_count = token_count ∧ input.position_base = 0 ∧ cold_tokens input = cold := by
  have hne : layer ≠ ple_layer := by
    rintro rfl
    exact Bool.noConfusion hlayer
  rw [zero_state, layer_state_modify, if_neg hne, if_pos hlayer]
  exact ⟨rfl, rfl, rfl⟩

theorem accepted_zero_state (htoken : token_count ≤ 262144) (hcold : cold ≤ token_count)
    (hhot : token_count - cold ≤ hot_capacity) (hraw : raw_start ≤ token_count - token_count % 4) :
    Accepted (zero_state token_count cold raw_start) where
  length := by
    rw [zero_state, List.length_modify, List.length_map, layers, List.length_finRange]
  attention layer hlayer := by
    have hne : layer ≠ ple_layer := by
      rintro rfl
      exact Bool.noConfusion hlayer
    rw [zero_state, layer_state_modify, if_neg hne, if_pos hlayer]
    exact {
      token_count := rfl
      token_le := htoken
      pooled_count := rfl
      cold_le := hcold
      hot_le := hhot
      position_le := Nat.zero_le _
      keys := fun _ => ⟨rfl, rfl⟩
      values := fun _ => ⟨rfl, rfl⟩
      quantized := fun _ =>
        ⟨⟨rfl, rfl⟩, ⟨rfl, rfl⟩, ⟨rfl, rfl⟩, ⟨rfl, rfl⟩, ⟨rfl, rfl⟩, ⟨rfl, rfl⟩⟩
      pooled := fun _ => ⟨rfl, rfl⟩
      frontier := fun _ => by
        have hend : raw_start + (token_count - raw_start) = token_count := by omega
        simp [raw_frontier, zeros, new_data, hraw, hend] }
  linear layer hlayer := by
    have hnot : ¬is_attention layer = true := by
      rw [hlayer]
      exact Bool.false_ne_true
    rw [zero_state, layer_state_modify, if_neg hnot]
    split_ifs
    · exact ⟨rfl, ⟨rfl, rfl⟩, ⟨rfl, rfl⟩⟩
    · exact ⟨rfl, ⟨rfl, rfl⟩, ⟨rfl, rfl⟩⟩
  ple := by
    rw [zero_state, layer_state_modify, if_pos rfl]
    exact ⟨rfl, ⟨rfl, rfl⟩⟩

end Zeros

end PersistentMetalBackend

end Qwen38
