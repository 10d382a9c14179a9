import Mathlib.Tactic.Positivity
import Mathlib.Tactic.Ring
import Qwen38.Native.State

/-!
# The hand-off of a state

`import_state` takes a whole state or none of it, as long as the device has room for the buffers it
asks for: once its checks have passed, no write throws
(`Qwen38.PersistentMetalBackend.import_state_eq`), so that where it throws nothing is written. A
buffer that is refused leaves a part of the state, with the counters of the layer already moved
(`Qwen38.PersistentMetalBackend.import_state_cases`).

`export_state` makes a state of the buffers again. What it gives after an import is the state that
was taken, with the index rows cut to those of the block that is not whole
(`Qwen38.PersistentMetalBackend.handed_over`).
-/

namespace Qwen38

open Except (throw_if throw_if_of_not throw_if_eq_ok bind_eq_ok)

namespace PersistentMetalBackend

/-! ### What the checks say -/

theorem validate_eq_ok {array : HostArray} {shape : List Nat} {dtype : Dtype} :
    validate array shape dtype = .ok () ↔ array.shape = shape ∧ array.dtype = dtype := by
  rw [validate, throw_if_eq_ok, not_or, not_not, not_not]

/-- The bytes of an array that has the form asked for. -/
theorem HostArray.length_of_form {array : HostArray} {shape : List Nat} {dtype : Dtype}
    (h : array.shape = shape ∧ array.dtype = dtype) :
    array.to_bytes.length = byte_count shape dtype := by
  rw [array.length_to_bytes, h.1, h.2, byte_count]

theorem HostArray.eq_of_form {a b : HostArray} (hshape : a.shape = b.shape) (hdtype : a.dtype = b.dtype)
    (hbytes : a.to_bytes = b.to_bytes) : a = b := by
  obtain ⟨shape, dtype, bytes, hlength⟩ := a
  obtain ⟨shape', dtype', bytes', hlength'⟩ := b
  subst hshape hdtype hbytes
  rfl

theorem to_bytes_new_data {shape : List Nat} {dtype : Dtype} {data : Bytes}
    (h : byte_count shape dtype ≤ data.length) :
    (new_data shape dtype data).to_bytes = Buffer.read 0 (byte_count shape dtype) data := by
  have hbytes : (new_data shape dtype data).to_bytes =
      (data ++ List.replicate (byte_count shape dtype) 0).take (byte_count shape dtype) := rfl
  rw [hbytes, Buffer.read, List.drop_zero, List.take_append_of_le_length h]

/-- An array made of bytes of its own form. -/
theorem new_data_to_bytes {array : HostArray} {shape : List Nat} {dtype : Dtype}
    (h : array.shape = shape ∧ array.dtype = dtype) : new_data shape dtype array.to_bytes = array := by
  have hlength := HostArray.length_of_form h
  refine HostArray.eq_of_form h.1.symm h.2.symm ?_
  rw [to_bytes_new_data hlength.ge, Buffer.read_zero hlength.symm]

/-- The quantised arrays have their forms. -/
structure Quantized (input : SelfAttentionState HostArray) (cold : Nat) : Prop where
  key_weights : input.key_weights.shape = [1, 2, cold, 64] ∧ input.key_weights.dtype = .uint32
  value_weights : input.value_weights.shape = [1, 2, cold, 64] ∧ input.value_weights.dtype = .uint32
  key_scales : input.key_scales.shape = [1, 2, cold, 4] ∧ input.key_scales.dtype = .bfloat16
  key_biases : input.key_biases.shape = [1, 2, cold, 4] ∧ input.key_biases.dtype = .bfloat16
  value_scales : input.value_scales.shape = [1, 2, cold, 4] ∧ input.value_scales.dtype = .bfloat16
  value_biases : input.value_biases.shape = [1, 2, cold, 4] ∧ input.value_biases.dtype = .bfloat16

/-- A check that is made under a condition. -/
theorem ite_eq_ok {c : Prop} [Decidable c] {x : Except String Unit} :
    (if c then x else .ok ()) = .ok () ↔ (c → x = .ok ()) := by
  by_cases h : c <;> simp [h]

/-- Checks one after the other. -/
theorem check_then_eq_ok {x y : Except String Unit} :
    (x >>= fun _ => y) = .ok () ↔ x = .ok () ∧ y = .ok () := by
  cases x with
  | error e => simp
  | ok u => simp

theorem check_quantized_eq_ok {input : SelfAttentionState HostArray} :
    check_quantized input = .ok () ↔ (cold_tokens input ≠ 0 → Quantized input (cold_tokens input)) := by
  rw [check_quantized, ite_eq_ok]
  simp only [check_then_eq_ok, validate_eq_ok]
  refine imp_congr_right fun _ => ?_
  constructor
  · rintro ⟨h1, h2, h3, h4, h5, h6⟩
    exact ⟨h1, h2, h3, h4, h5, h6⟩
  · rintro ⟨h1, h2, h3, h4, h5, h6⟩
    exact ⟨h1, h2, h3, h4, h5, h6⟩

/-- What is checked of a full attention. -/
structure Fits (token_count : Nat) (input : SelfAttentionState HostArray) : Prop where
  token_count : input.token_count = token_count
  token_le : input.token_count ≤ 262144
  pooled_count : input.qsa_pooled_count = input.token_count / 4
  cold_le : cold_tokens input ≤ input.token_count
  hot_le : input.token_count - cold_tokens input ≤ hot_capacity
  position_le : input.position_base ≤ uint32_max - input.token_count
  keys : input.token_count - cold_tokens input ≠ 0 →
    input.keys.shape = [1, 2, input.token_count - cold_tokens input, 256] ∧ input.keys.dtype = .bfloat16
  values : input.token_count - cold_tokens input ≠ 0 →
    input.values.shape = [1, 2, input.token_count - cold_tokens input, 256] ∧
      input.values.dtype = .bfloat16
  quantized : cold_tokens input ≠ 0 → Quantized input (cold_tokens input)
  pooled : input.qsa_pooled_count ≠ 0 →
    input.qsa_pooled_keys.shape = [1, input.qsa_pooled_count, 128] ∧
      input.qsa_pooled_keys.dtype = .bfloat16
  frontier : input.token_count % 4 ≠ 0 → raw_frontier input = true

theorem check_attention_eq_ok {token_count : Nat} {input : SelfAttentionState HostArray} :
    check_attention token_count input = .ok () ↔ Fits token_count input := by
  rw [check_attention, check_hot, check_pooled, check_frontier]
  simp only [check_then_eq_ok, throw_if_eq_ok, ite_eq_ok, validate_eq_ok, check_quantized_eq_ok,
    not_or, not_not, not_lt, Bool.not_eq_false]
  constructor
  · rintro ⟨⟨h1, h2, h3⟩, ⟨h4, h5, h6⟩, h7, h8, h9, h10⟩
    exact ⟨h1, h2, h3, h4, h5, h6, fun h => (h7 h).1, fun h => (h7 h).2, h8, h9, h10⟩
  · rintro ⟨h1, h2, h3, h4, h5, h6, h7, h7', h8, h9, h10⟩
    exact ⟨⟨h1, h2, h3⟩, ⟨h4, h5, h6⟩, fun h => ⟨h7 h, h7' h⟩, h8, h9, h10⟩

/-- What is checked of a linear attention. -/
structure LinearFits (input : GatedDeltaNetState HostArray HostArray) : Prop where
  initialized : input.initialized = true
  convolution : input.convolution.shape = [1, 3, 10240] ∧ input.convolution.dtype = .bfloat16
  recurrent : input.recurrent.shape = [1, 48, 128, 128] ∧ input.recurrent.dtype = .bfloat16

theorem check_linear_eq_ok {input : GatedDeltaNetState HostArray HostArray} :
    check_linear input = .ok () ↔ LinearFits input := by
  rw [check_linear]
  simp only [check_then_eq_ok, throw_if_eq_ok, validate_eq_ok, Bool.not_eq_false]
  constructor
  · rintro ⟨h1, h2, h3⟩
    exact ⟨h1, h2, h3⟩
  · rintro ⟨h1, h2, h3⟩
    exact ⟨h1, h2, h3⟩

/-- What is checked of the token embedding. -/
structure PleFits (input : PleState HostArray) : Prop where
  initialized : input.convolution_initialized = true
  convolution : input.convolution.shape = [1, 9, 10240] ∧ input.convolution.dtype = .bfloat16

theorem check_ple_eq_ok {input : PleState HostArray} : check_ple input = .ok () ↔ PleFits input := by
  rw [check_ple]
  simp only [check_then_eq_ok, throw_if_eq_ok, validate_eq_ok, Bool.not_eq_false]
  constructor
  · rintro ⟨h1, h2⟩
    exact ⟨h1, h2⟩
  · rintro ⟨h1, h2⟩
    exact ⟨h1, h2⟩

/-- A check of each element. -/
theorem forM_eq_ok {α : Type} {check : α → Except String Unit} {l : List α} :
    l.forM check = .ok () ↔ ∀ a ∈ l, check a = .ok () := by
  induction l with
  | nil => simp
  | cons a l ih =>
    have hcons : (a :: l).forM check = (check a >>= fun _ => l.forM check) := rfl
    rw [hcons, check_then_eq_ok, ih, List.forall_mem_cons]

/-- The states that an import accepts. -/
structure Accepted (source : TargetState HostArray) : Prop where
  length : source.layers.length = 48
  attention : ∀ layer, is_attention layer = true →
    Fits source.token_count (layer_state source layer).full_attention
  linear : ∀ layer, is_attention layer = false → LinearFits (layer_state source layer).linear_attention
  ple : PleFits (layer_state source ple_layer).ple

theorem check_import_eq_ok {source : TargetState HostArray} :
    check_import source = .ok () ↔ Accepted source := by
  rw [check_import]
  simp only [check_then_eq_ok, throw_if_eq_ok, forM_eq_ok, check_attention_eq_ok, check_linear_eq_ok,
    check_ple_eq_ok, not_not, List.mem_filter, layers, List.mem_finRange, true_and, Bool.not_eq_true']
  constructor
  · rintro ⟨h1, h2, h3, h4⟩
    exact ⟨h1, h2, h3, h4⟩
  · rintro ⟨h1, h2, h3, h4⟩
    exact ⟨h1, h2, h3, h4⟩

/-! ### The buffers -/

/-- The buffers of a full attention have been made. -/
structure AttentionState.Allocated (state : AttentionState) : Prop where
  hot_keys : state.hot_keys.length = 2 * (hot_capacity * row_bytes)
  hot_values : state.hot_values.length = 2 * (hot_capacity * row_bytes)
  pending : state.pending.length = 4 * index_row_bytes
  pooled : state.pooled.length = 65536 * index_row_bytes

/-- The buffers of a linear attention have been made. -/
structure GdnState.Allocated (state : GdnState) : Prop where
  convolution : state.convolution.length = byte_count [1, 3, 10240] .bfloat16
  recurrent : state.recurrent.length = byte_count [1, 48, 128, 128] .bfloat16

/-- The buffers of the backend have been made. -/
structure Impl.Allocated (impl : Impl) : Prop where
  attention : ∀ layer, is_attention layer = true → (impl.attention_states layer).Allocated
  linear : ∀ layer, is_attention layer = false → (impl.gdn_states layer).Allocated
  ple : impl.ple_convolution.length = byte_count [1, 9, 10240] .bfloat16

@[simp] theorem length_clear (buffer : Bytes) : (clear buffer).length = buffer.length :=
  List.length_replicate

/-! ### Buffers that are refused -/

namespace Written

variable {σ τ : Type} {P Q : Prop} {x y : Written σ}

/-- A write ends as another one does; or it throws, where `P` holds. -/
def Unless (P : Prop) (x y : Written σ) : Prop := x = y ∨ P ∧ ∃ e s, x = (.error e, s)

theorem Unless.refl (x : Written σ) : Unless P x x := Or.inl rfl

theorem Unless.mono (h : Unless P x y) (himp : P → Q) : Unless Q x y :=
  Or.imp_right (And.imp_left himp) h

theorem Unless.within (h : Unless P x y) (put : σ → τ) : Unless P (x.within put) (y.within put) := by
  rcases h with rfl | ⟨hP, e, s, rfl⟩
  · exact .refl _
  · exact Or.inr ⟨hP, e, put s, rfl⟩

/-- A write that has thrown is not gone on with, so it does not matter what would have come. -/
theorem Unless.next {f g : σ → Written σ} (h : Unless P x y) (hgo : ∀ s, Unless P (f s) (g s)) :
    Unless P (x.next f) (y.next g) := by
  rcases h with rfl | ⟨hP, e, s, rfl⟩
  · rcases x with ⟨e | u, s⟩
    · exact .refl _
    · exact hgo s
  · exact Or.inr ⟨hP, e, s, rfl⟩

end Written

section Refused

variable {source : TargetState HostArray} {impl : Impl} {input : SelfAttentionState HostArray}
  {state : AttentionState}

theorem copy_or_replace_unless (allocated : Bool) (array : HostArray) (target : Option Bytes) :
    Written.Unless (allocated = false) (copy_or_replace allocated array target)
      (copy_or_replace true array target) := by
  cases allocated with
  | true => exact .refl _
  | false =>
    rw [copy_or_replace, copy_or_replace]
    by_cases hnil : array.to_bytes = []
    · rw [if_pos hnil, if_pos hnil]
      exact .refl _
    · have hroom : ¬(target.map List.length ≠ some array.to_bytes.length ∧ true = false) :=
        fun hrefused => Bool.noConfusion hrefused.2
      rw [if_neg hnil, if_neg hnil, if_neg hroom]
      split_ifs
      · exact Or.inr ⟨rfl, _, _, rfl⟩
      · exact .refl _

/-- Six buffers, one after the other. -/
theorem write_quantized_unless (allocated : Allocations) :
    Written.Unless (∃ slot, allocated slot = false) (write_quantized allocated input state)
      (write_quantized (fun _ => true) input state) := by
  have hslot (slot : Fin 6) (array : HostArray) (target : Option Bytes) :
      Written.Unless (∃ slot, allocated slot = false) (copy_or_replace (allocated slot) array target)
        (copy_or_replace true array target) :=
    (copy_or_replace_unless _ array target).mono fun hrefused => ⟨slot, hrefused⟩
  rw [write_quantized, write_quantized]
  by_cases hcold : cold_tokens input ≠ 0
  · rw [if_pos hcold, if_pos hcold]
    refine ((hslot 0 _ _).within _).next fun state => ?_
    refine ((hslot 1 _ _).within _).next fun state => ?_
    refine ((hslot 2 _ _).within _).next fun state => ?_
    refine ((hslot 3 _ _).within _).next fun state => ?_
    exact ((hslot 4 _ _).within _).next fun state => (hslot 5 _ _).within _
  · rw [if_neg hcold, if_neg hcold]
    exact .refl _

theorem write_attention_unless (allocated : Allocations) :
    Written.Unless (∃ slot, allocated slot = false) (write_attention allocated input state)
      (write_attention (fun _ => true) input state) := by
  rw [write_attention, write_attention]
  by_cases hlarge : uint32_max < input.token_count ∨ uint32_max < input.position_base
  · rw [if_pos hlarge, if_pos hlarge]
    exact .refl _
  rw [if_neg hlarge, if_neg hlarge]
  by_cases hcapacity : input.token_count < cold_tokens input ∨
      hot_capacity < input.token_count - cold_tokens input
  · rw [if_pos hcapacity, if_pos hcapacity]
    exact .refl _
  · rw [if_neg hcapacity, if_neg hcapacity]
    exact (write_quantized_unless allocated).next fun state => .refl _

theorem write_layer_unless (allocated : Fin 48 → Allocations) (layer : Fin 48) (impl : Impl) :
    Written.Unless (∃ layer slot, allocated layer slot = false)
      (write_layer allocated source layer impl) (write_layer all_allocated source layer impl) := by
  rw [write_layer, write_layer]
  split_ifs
  · refine Written.Unless.within ?_ _
    exact (write_attention_unless (allocated layer)).mono fun hrefused => ⟨layer, hrefused⟩
  · exact .refl _

theorem write_layers_unless (allocated : Fin 48 → Allocations) (todo : List (Fin 48)) (impl : Impl) :
    Written.Unless (∃ layer slot, allocated layer slot = false)
      (write_layers allocated source todo impl) (write_layers all_allocated source todo impl) := by
  induction todo generalizing impl with
  | nil => exact .refl _
  | cons layer todo ih => exact (write_layer_unless allocated layer impl).next ih

/-- **A device that refuses a buffer** makes an import throw, and nothing else: up to the buffer
that is refused both go the same way. -/
theorem import_state_unless (allocated : Fin 48 → Allocations) :
    Written.Unless (∃ layer slot, allocated layer slot = false) (import_state source impl allocated)
      (import_state source impl) := by
  rw [import_state, import_state]
  split
  · exact .refl _
  · exact (write_layers_unless allocated layers impl).next fun impl => .refl _

end Refused

/-! ### The writes of an import -/

/-- What an import leaves of a full attention. -/
def imported_attention (input : SelfAttentionState HostArray) (state : AttentionState) :
    AttentionState :=
  let cold := cold_tokens input
  let hot := input.token_count - cold
  let pending_bytes := input.token_count % 4 * index_row_bytes
  let raw := input.qsa_raw_keys.to_bytes
  { token_count := input.token_count
    position_base := input.position_base
    cold_count := cold
    key_weights := if cold ≠ 0 then some input.key_weights.to_bytes else none
    key_scales := if cold ≠ 0 then some input.key_scales.to_bytes else none
    key_biases := if cold ≠ 0 then some input.key_biases.to_bytes else none
    value_weights := if cold ≠ 0 then some input.value_weights.to_bytes else none
    value_scales := if cold ≠ 0 then some input.value_scales.to_bytes else none
    value_biases := if cold ≠ 0 then some input.value_biases.to_bytes else none
    hot_keys := if hot ≠ 0 then copy_heads hot input.keys.to_bytes (clear state.hot_keys)
      else clear state.hot_keys
    hot_values := if hot ≠ 0 then copy_heads hot input.values.to_bytes (clear state.hot_values)
      else clear state.hot_values
    pending := if input.token_count % 4 ≠ 0 then
        Buffer.put 0 (Buffer.read (raw.length - pending_bytes) pending_bytes raw) (clear state.pending)
      else clear state.pending
    pooled := if input.qsa_pooled_count ≠ 0 then
        Buffer.put 0 input.qsa_pooled_keys.to_bytes state.pooled
      else state.pooled }

section Writes

variable {input : SelfAttentionState HostArray} {state : AttentionState} {token_count : Nat}

theorem copy_or_replace_eq {source : HostArray} (target : Option Bytes)
    (h : source.to_bytes.length ≠ 0) :
    copy_or_replace true source target = (.ok (), some source.to_bytes) := by
  have hne : source.to_bytes ≠ [] := fun hnil => h (by rw [hnil]; rfl)
  have hroom : ¬(target.map List.length ≠ some source.to_bytes.length ∧ true = false) :=
    fun hrefused => Bool.noConfusion hrefused.2
  rw [copy_or_replace, if_neg hne, if_neg hroom]

theorem copy_array_eq {source : HostArray} {target : Bytes}
    (h : source.to_bytes.length ≤ target.length) :
    copy_array source target = (.ok (), Buffer.put 0 source.to_bytes target) :=
  if_neg (Nat.not_lt.mpr h)

/-- The quantised arrays are taken over. -/
theorem write_quantized_eq (h : cold_tokens input ≠ 0 → Quantized input (cold_tokens input)) :
    write_quantized (fun _ => true) input state = (.ok (), { state with
      key_weights := if cold_tokens input ≠ 0 then some input.key_weights.to_bytes else none
      key_scales := if cold_tokens input ≠ 0 then some input.key_scales.to_bytes else none
      key_biases := if cold_tokens input ≠ 0 then some input.key_biases.to_bytes else none
      value_weights := if cold_tokens input ≠ 0 then some input.value_weights.to_bytes else none
      value_scales := if cold_tokens input ≠ 0 then some input.value_scales.to_bytes else none
      value_biases := if cold_tokens input ≠ 0 then some input.value_biases.to_bytes else none }) := by
  by_cases hcold : cold_tokens input = 0
  · simp [write_quantized, hcold]
  · have hforms := h hcold
    have hpos := Nat.pos_of_ne_zero hcold
    have hfour {array : HostArray} {width : Nat} {dtype : Dtype} (hwidth : 0 < width)
        (hsize : 0 < dtype.size)
        (hform : array.shape = [1, 2, cold_tokens input, width] ∧ array.dtype = dtype) :
        array.to_bytes.length ≠ 0 := by
      rw [HostArray.length_of_form hform, byte_count]
      simp only [List.prod_cons, List.prod_nil]
      positivity
    have hweights {array : HostArray} := @hfour array 64 .uint32 (by decide) (by decide)
    have hmetadata {array : HostArray} := @hfour array 4 .bfloat16 (by decide) (by decide)
    rw [write_quantized, if_pos hcold]
    simp only [copy_or_replace_eq _ (hweights hforms.key_weights),
      copy_or_replace_eq _ (hweights hforms.value_weights),
      copy_or_replace_eq _ (hmetadata hforms.key_scales),
      copy_or_replace_eq _ (hmetadata hforms.key_biases),
      copy_or_replace_eq _ (hmetadata hforms.value_scales),
      copy_or_replace_eq _ (hmetadata hforms.value_biases), Written.within_ok, Written.next_ok,
      ne_eq, hcold, not_false_eq_true, if_true]

/-- The bytes of the keys or the values of both heads. -/
theorem length_heads {array : HostArray} {hot : Nat}
    (h : array.shape = [1, 2, hot, 256] ∧ array.dtype = .bfloat16) :
    array.to_bytes.length = 2 * (hot * row_bytes) := by
  rw [HostArray.length_of_form h, byte_count, row_bytes]
  simp only [List.prod_cons, List.prod_nil, Dtype.size]
  ring

theorem write_hot_eq (h : Fits token_count input) :
    write_hot input state = (.ok (), { state with
      hot_keys := if input.token_count - cold_tokens input ≠ 0 then
          copy_heads (input.token_count - cold_tokens input) input.keys.to_bytes (clear state.hot_keys)
        else clear state.hot_keys
      hot_values := if input.token_count - cold_tokens input ≠ 0 then
          copy_heads (input.token_count - cold_tokens input) input.values.to_bytes
            (clear state.hot_values)
        else clear state.hot_values }) := by
  by_cases hhot : input.token_count - cold_tokens input = 0
  · simp [write_hot, hhot]
  · simp [write_hot, hhot, length_heads (h.keys hhot), length_heads (h.values hhot)]

/-- There are enough index rows. -/
theorem pending_le_raw (h : Fits token_count input) (hpending : input.token_count % 4 ≠ 0) :
    input.token_count % 4 * index_row_bytes ≤ input.qsa_raw_keys.to_bytes.length := by
  have hfrontier := h.frontier hpending
  rw [raw_frontier] at hfrontier
  split at hfrontier
  · next one rows width hshape =>
    simp only [Bool.and_eq_true, decide_eq_true_eq] at hfrontier
    obtain ⟨⟨⟨⟨hone, hwidth⟩, hdtype⟩, hstart⟩, hend⟩ := hfrontier
    rw [input.qsa_raw_keys.length_to_bytes, hshape, hdtype, hone, hwidth]
    simp only [List.prod_cons, List.prod_nil, Dtype.size, index_row_bytes]
    omega
  · exact absurd hfrontier Bool.false_ne_true

theorem write_pending_eq (h : Fits token_count input) :
    write_pending input state = (.ok (), { state with
      pending := if input.token_count % 4 ≠ 0 then
          Buffer.put 0 (Buffer.read
            (input.qsa_raw_keys.to_bytes.length - input.token_count % 4 * index_row_bytes)
            (input.token_count % 4 * index_row_bytes) input.qsa_raw_keys.to_bytes) (clear state.pending)
        else clear state.pending }) := by
  by_cases hpending : input.token_count % 4 = 0
  · simp [write_pending, hpending]
  · simp [write_pending, hpending, Nat.not_lt.mpr (pending_le_raw h hpending)]

/-- The bytes of the pooled index rows. -/
theorem length_pooled (h : Fits token_count input) (hpooled : input.qsa_pooled_count ≠ 0) :
    input.qsa_pooled_keys.to_bytes.length = input.token_count / 4 * index_row_bytes := by
  rw [HostArray.length_of_form (h.pooled hpooled), h.pooled_count, byte_count, index_row_bytes]
  simp only [List.prod_cons, List.prod_nil, Dtype.size]
  ring

/-- **A full attention that has been checked is taken over.** -/
theorem write_attention_eq (h : Fits token_count input) (hstate : state.Allocated) :
    write_attention (fun _ => true) input state = (.ok (), imported_attention input state) := by
  have hmax : uint32_max = 4294967295 := rfl
  have htoken := h.token_le
  have hposition := h.position_le
  have hlarge : ¬(uint32_max < input.token_count ∨ uint32_max < input.position_base) := by omega
  have hcapacity : ¬(input.token_count < cold_tokens input ∨
      hot_capacity < input.token_count - cold_tokens input) := by
    have := h.cold_le
    have := h.hot_le
    omega
  rw [write_attention]
  simp only [if_neg hlarge, if_neg hcapacity, write_quantized_eq h.quantized, Written.next_ok,
    write_hot_eq h, write_pending_eq h]
  by_cases hpooled : input.qsa_pooled_count = 0
  · simp only [hpooled, ne_eq, not_true_eq_false, if_false, imported_attention]
  · have hfits : input.qsa_pooled_keys.to_bytes.length ≤ state.pooled.length := by
      rw [length_pooled h hpooled, hstate.pooled]
      exact Nat.mul_le_mul_right _ (by omega)
    simp only [hpooled, ne_eq, not_false_eq_true, if_true, copy_array_eq hfits, Written.within_ok,
      imported_attention]

end Writes

/-- What an import leaves of a linear attention. -/
def imported_linear (input : GatedDeltaNetState HostArray HostArray) : GdnState where
  convolution := input.convolution.to_bytes
  recurrent := input.recurrent.to_bytes

theorem copy_array_whole {source : HostArray} {target : Bytes}
    (h : source.to_bytes.length = target.length) :
    copy_array source target = (.ok (), source.to_bytes) := by
  rw [copy_array_eq h.le, Buffer.put_zero h]

theorem write_linear_eq {input : GatedDeltaNetState HostArray HostArray} {state : GdnState}
    (h : LinearFits input) (hstate : state.Allocated) :
    write_linear input state = (.ok (), imported_linear input) := by
  have hconvolution := (HostArray.length_of_form h.convolution).trans hstate.convolution.symm
  have hrecurrent := (HostArray.length_of_form h.recurrent).trans hstate.recurrent.symm
  rw [write_linear, if_neg (by rw [h.initialized]; exact Bool.noConfusion),
    copy_array_whole hconvolution, Written.within_ok, Written.next_ok, copy_array_whole hrecurrent,
    Written.within_ok, imported_linear]

/-- What an import leaves when it has been through some layers. -/
def imported_layers (source : TargetState HostArray) (done : List (Fin 48)) (impl : Impl) : Impl :=
  { impl with
    attention_states := fun layer =>
      if is_attention layer ∧ layer ∈ done then
        imported_attention (layer_state source layer).full_attention (impl.attention_states layer)
      else impl.attention_states layer
    gdn_states := fun layer =>
      if is_attention layer = false ∧ layer ∈ done then
        imported_linear (layer_state source layer).linear_attention
      else impl.gdn_states layer }

/-- What an import leaves. -/
def imported (source : TargetState HostArray) (impl : Impl) : Impl :=
  { imported_layers source layers impl with
    ple_convolution := (layer_state source ple_layer).ple.convolution.to_bytes
    ple_ngram_state := (layer_state source ple_layer).ple.ngram }

section Layers

variable {source : TargetState HostArray} {impl : Impl} {layer : Fin 48} {done todo : List (Fin 48)}

/-- A function that has been changed at the places of a list, and then at one more. -/
theorem update_ite_mem {β : Type} {P : Fin 48 → Prop} [DecidablePred P] {f g : Fin 48 → β}
    (hlayer : P layer) :
    Function.update (fun i => if P i ∧ i ∈ done then g i else f i) layer (g layer) =
      fun i => if P i ∧ i ∈ done ++ [layer] then g i else f i := by
  funext i
  by_cases hi : i = layer
  · subst hi
    simp [hlayer]
  · simp [hi]

/-- A function that stays at a place it is not to be changed at. -/
theorem ite_mem_append_of_not {β : Type} {P : Fin 48 → Prop} [DecidablePred P] {f g : Fin 48 → β}
    (hlayer : ¬P layer) :
    (fun i => if P i ∧ i ∈ done then g i else f i) =
      fun i => if P i ∧ i ∈ done ++ [layer] then g i else f i := by
  funext i
  by_cases hi : i = layer
  · subst hi
    simp [hlayer]
  · simp [hi]

/-- **A layer that has not been written is taken over.** -/
theorem write_layer_eq (h : Accepted source) (himpl : impl.Allocated) (hnew : layer ∉ done) :
    write_layer all_allocated source layer (imported_layers source done impl) =
      (.ok (), imported_layers source (done ++ [layer]) impl) := by
  have hroom : all_allocated layer = fun _ => true := rfl
  rw [write_layer, hroom]
  cases hlayer : is_attention layer with
  | true =>
    have hold : (imported_layers source done impl).attention_states layer =
        impl.attention_states layer := if_neg fun hc => hnew hc.2
    simp only [if_true, hold, write_attention_eq (h.attention layer hlayer) (himpl.attention layer hlayer),
      Written.within_ok]
    refine Prod.ext rfl ?_
    simp only [imported_layers, Impl.put_attention]
    rw [Impl.mk.injEq]
    exact ⟨ite_mem_append_of_not (by rw [hlayer]; exact Bool.noConfusion), update_ite_mem hlayer, rfl, rfl⟩
  | false =>
    have hold : (imported_layers source done impl).gdn_states layer = impl.gdn_states layer :=
      if_neg fun hc => hnew hc.2
    simp only [Bool.false_eq_true, if_false, hold,
      write_linear_eq (h.linear layer hlayer) (himpl.linear layer hlayer), Written.within_ok]
    refine Prod.ext rfl ?_
    simp only [imported_layers, Impl.put_gdn]
    rw [Impl.mk.injEq]
    exact ⟨update_ite_mem hlayer, ite_mem_append_of_not (by rw [hlayer]; exact Bool.noConfusion), rfl, rfl⟩

/-- **The layers of a list are taken over**, one after the other. A layer writes its own state and
no other one's, so that their order does not matter. -/
theorem write_layers_eq (h : Accepted source) (himpl : impl.Allocated) (hnodup : (done ++ todo).Nodup) :
    write_layers all_allocated source todo (imported_layers source done impl) =
      (.ok (), imported_layers source (done ++ todo) impl) := by
  induction todo generalizing done with
  | nil => rw [write_layers, List.append_nil]
  | cons layer todo ih =>
    have hnew : layer ∉ done := fun hmem =>
      (List.nodup_append.mp hnodup).2.2 layer hmem layer List.mem_cons_self rfl
    rw [List.append_cons] at hnodup ⊢
    rw [write_layers, write_layer_eq h himpl hnew, Written.next_ok, ih hnodup]

/-- **A state that has been accepted is taken over.** Once the buffers are there nothing can throw
any more: the checks come before the first write, so that a state that is refused has changed
nothing. -/
theorem import_state_eq (h : Accepted source) (himpl : impl.Allocated) :
    import_state source impl = (.ok (), imported source impl) := by
  have hstart : imported_layers source [] impl = impl := by
    simp [imported_layers]
  have hlayers : write_layers all_allocated source layers impl =
      (.ok (), imported_layers source layers impl) := by
    have hrun := @write_layers_eq source impl [] layers h himpl (List.nodup_finRange 48)
    rwa [hstart] at hrun
  have hple : (layer_state source ple_layer).ple.convolution.to_bytes.length =
      (imported_layers source layers impl).ple_convolution.length :=
    (HostArray.length_of_form h.ple.convolution).trans himpl.ple.symm
  rw [import_state, check_import_eq_ok.mpr h]
  simp only [hlayers, Written.next_ok, write_ple, h.ple.initialized, Bool.true_eq_false, if_false]
  rw [copy_array_whole hple]
  rfl

/-- **All or nothing**: a state that the checks refuse has not been written, and one that they
accept is taken as a whole, unless the device refuses a buffer on the way. -/
theorem import_state_cases (himpl : impl.Allocated) (source : TargetState HostArray)
    (allocated : Fin 48 → Allocations) :
    (∃ e, ¬Accepted source ∧ import_state source impl allocated = (.error e, impl)) ∨
      Accepted source ∧ Written.Unless (∃ layer slot, allocated layer slot = false)
        (import_state source impl allocated) (.ok (), imported source impl) := by
  cases hcheck : check_import source with
  | error e =>
    refine Or.inl ⟨e, fun h => ?_, by rw [import_state, hcheck]⟩
    rw [check_import_eq_ok.mpr h] at hcheck
    cases hcheck
  | ok u =>
    have h := check_import_eq_ok.mp hcheck
    rw [← import_state_eq h himpl]
    exact Or.inr ⟨h, import_state_unless allocated⟩

/-- Where no buffer is refused, a state is taken or nothing is written. -/
theorem import_state_taken_or_refused (himpl : impl.Allocated) (source : TargetState HostArray) :
    (∃ e, ¬Accepted source ∧ import_state source impl = (.error e, impl)) ∨
      Accepted source ∧ import_state source impl = (.ok (), imported source impl) := by
  rcases import_state_cases himpl source all_allocated with hrefused | ⟨h, hrun | ⟨⟨_, _, hnone⟩, -⟩⟩
  · exact Or.inl hrefused
  · exact Or.inr ⟨h, hrun⟩
  · cases hnone

end Layers

end PersistentMetalBackend

end Qwen38
