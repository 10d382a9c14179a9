import Mathlib.Data.Nat.Basic
import Mathlib.Tactic.Ring

/-!
# The state of a decoder layer

What a decoder layer keeps between tokens: the convolution and recurrent state of a linear
attention, with the inputs of a rollback that is still to be replayed; the keys, values and
index rows of a full attention; and the n-gram history and convolution state of the layer's
token embedding. A tensor is a value of a type `A`, and its default is the empty `MlxArray`.
-/

namespace Qwen38

variable {A : Type}

/-- `GatedDeltaNetState`. The recurrent state is of a type of its own. -/
structure GatedDeltaNetState (A R : Type) where
  convolution : A
  recurrent : R
  rollback_key : A
  rollback_value : A
  rollback_decay : A
  rollback_beta : A
  rollback_rows : Nat
  initialized : Bool
  deriving Inhabited, DecidableEq

/-- `SelfAttentionState`. -/
structure SelfAttentionState (A : Type) where
  keys : A
  values : A
  key_weights : A
  key_scales : A
  key_biases : A
  value_weights : A
  value_scales : A
  value_biases : A
  kv_q8 : Bool
  kv_q8_cold_tokens : Nat
  qsa_raw_keys : A
  qsa_raw_start : Nat
  qsa_pooled_keys : A
  qsa_pooled_count : Nat
  token_count : Nat
  position_base : Nat
  deriving Inhabited, DecidableEq

/-- `NgramState`. -/
structure NgramState where
  previous : UInt32 × UInt32
  segment_length : Nat
  initialized : Bool
  deriving Inhabited, DecidableEq

/-- `PleState`. -/
structure PleState (A : Type) where
  ngram : NgramState
  convolution : A
  convolution_initialized : Bool
  deriving Inhabited, DecidableEq

/-- `DecoderLayerState`. -/
structure DecoderLayerState (A R : Type) where
  linear_attention : GatedDeltaNetState A R
  full_attention : SelfAttentionState A
  ple : PleState A
  deriving Inhabited, DecidableEq

/-- `ModelDecodeState`, as the layers of the model keep it. -/
structure TargetState (A : Type) where
  layers : List (DecoderLayerState A A)
  token_count : Nat

section Snapshot

variable {R : Type} [Inhabited A] [Inhabited R]

/-- What `snapshot_decoder_layer_state` copies of a linear attention. -/
def GatedDeltaNetState.snapshot (state : GatedDeltaNetState A R) : GatedDeltaNetState A R :=
  let snapshot := { (default : GatedDeltaNetState A R) with initialized := state.initialized }
  if state.initialized then
    let snapshot := { snapshot with
      convolution := state.convolution
      recurrent := state.recurrent
      rollback_rows := state.rollback_rows }
    if state.rollback_rows ≠ 0 then
      { snapshot with
        rollback_key := state.rollback_key
        rollback_value := state.rollback_value
        rollback_decay := state.rollback_decay
        rollback_beta := state.rollback_beta }
    else snapshot
  else snapshot

/-- What `snapshot_decoder_layer_state` copies of a full attention. -/
def SelfAttentionState.snapshot (state : SelfAttentionState A) : SelfAttentionState A :=
  let snapshot := { (default : SelfAttentionState A) with
    token_count := state.token_count
    position_base := state.position_base
    qsa_raw_start := state.qsa_raw_start
    qsa_pooled_count := state.qsa_pooled_count
    kv_q8 := state.kv_q8
    kv_q8_cold_tokens := state.kv_q8_cold_tokens }
  if state.token_count ≠ 0 then
    let snapshot :=
      if state.kv_q8 then
        let snapshot := { snapshot with
          key_weights := state.key_weights
          key_scales := state.key_scales
          key_biases := state.key_biases
          value_weights := state.value_weights
          value_scales := state.value_scales
          value_biases := state.value_biases }
        if state.token_count > state.kv_q8_cold_tokens then
          { snapshot with keys := state.keys, values := state.values }
        else snapshot
      else { snapshot with keys := state.keys, values := state.values }
    let snapshot := { snapshot with qsa_raw_keys := state.qsa_raw_keys }
    if state.qsa_pooled_count ≠ 0 then
      { snapshot with qsa_pooled_keys := state.qsa_pooled_keys }
    else snapshot
  else snapshot

/-- What `snapshot_decoder_layer_state` copies of a token embedding. -/
def PleState.snapshot (state : PleState A) : PleState A :=
  let snapshot := { (default : PleState A) with
    ngram := state.ngram
    convolution_initialized := state.convolution_initialized }
  if state.convolution_initialized then { snapshot with convolution := state.convolution }
  else snapshot

/-- `snapshot_decoder_layer_state`. -/
def snapshot_decoder_layer_state (state : DecoderLayerState A R) : DecoderLayerState A R where
  linear_attention := state.linear_attention.snapshot
  full_attention := state.full_attention.snapshot
  ple := state.ple.snapshot

end Snapshot

end Qwen38
