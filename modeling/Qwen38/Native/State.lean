import Qwen38.Lib.Buffer
import Qwen38.Lib.Except
import Qwen38.Layer.DecoderState
import Qwen38.Text.Bytes

/-!
# The state of the native backend

The native backend keeps the state of a model in buffers of fixed length: a slab of hot keys and
values, the quantised keys and values of the tokens before them, the index rows that wait for their
block, and the pooled rows of whole blocks, with three counters; and the buffers of the linear
attentions and of the token embedding. `import_state` fills them from a state of the model and
`export_state` makes a state of the model of them.

`import_state` goes over the state twice. The first time it only checks
(`Qwen38.PersistentMetalBackend.check_import`); the second time it writes, and its checks of its own
may throw when a part has been written. So a write is a pair: how it ends, and what it leaves
(`Qwen38.PersistentMetalBackend.Written`). A quantised array may need a new buffer, which the device
may refuse behind the counters of its layer.
-/

namespace Qwen38

open Except (throw_if)

namespace PersistentMetalBackend

/-! ### Arrays -/

/-- `mlx_dtype`. -/
inductive Dtype
  | bfloat16
  | uint32
  | other (size : Nat)
  deriving DecidableEq

/-- The bytes of an element. -/
def Dtype.size : Dtype → Nat
  | .bfloat16 => 2
  | .uint32 => 4
  | .other size => size

/-- An `MlxArray`, with what `to_bytes` gives. -/
structure HostArray where
  shape : List Nat
  dtype : Dtype
  to_bytes : Bytes
  length_to_bytes : to_bytes.length = shape.prod * dtype.size
  deriving DecidableEq

instance : Inhabited HostArray := ⟨⟨[0], .bfloat16, [], rfl⟩⟩

/-- The bytes of an array. -/
def byte_count (shape : List Nat) (dtype : Dtype) : Nat := shape.prod * dtype.size

/-- `mlx_array_new_data`: as many bytes as the shape takes. -/
def new_data (shape : List Nat) (dtype : Dtype) (data : Bytes) : HostArray where
  shape
  dtype
  to_bytes := (data ++ List.replicate (byte_count shape dtype) 0).take (byte_count shape dtype)
  length_to_bytes := by
    rw [List.length_take, List.length_append, List.length_replicate]
    exact Nat.min_eq_left (Nat.le_add_left _ _)

/-- `MlxArray::zeros`. -/
def zeros (shape : List Nat) (dtype : Dtype) : HostArray := new_data shape dtype []

/-! ### The buffers -/

/-- `hot_capacity`. -/
def hot_capacity : Nat := 8192

/-- The largest `std::uint32_t`. -/
def uint32_max : Nat := 2 ^ 32 - 1

/-- The sum of two `std::uint32_t`. -/
@[irreducible] def add32 (a b : Nat) : Nat := (a + b) % 2 ^ 32

/-- The difference of two `std::uint32_t`. -/
@[irreducible] def sub32 (a b : Nat) : Nat := (a + 2 ^ 32 - b) % 2 ^ 32

theorem add32_of_lt {a b : Nat} (h : a + b < 2 ^ 32) : add32 a b = a + b := by
  rw [add32, Nat.mod_eq_of_lt h]

theorem sub32_of_le {a b : Nat} (ha : a < 2 ^ 32) (h : b ≤ a) : sub32 a b = a - b := by
  rw [sub32]
  omega

/-- `GdnState`. -/
structure GdnState where
  convolution : Bytes
  recurrent : Bytes
  deriving Inhabited

/-- `AttentionState`. A quantised buffer may be `nil`. -/
structure AttentionState where
  hot_keys : Bytes
  hot_values : Bytes
  key_weights : Option Bytes
  key_scales : Option Bytes
  key_biases : Option Bytes
  value_weights : Option Bytes
  value_scales : Option Bytes
  value_biases : Option Bytes
  pending : Bytes
  pooled : Bytes
  token_count : Nat
  position_base : Nat
  cold_count : Nat
  deriving Inhabited

/-- What the backend keeps from token to token. The state of a linear attention is used where the
layer has one, and so is that of a full attention. -/
structure Impl where
  gdn_states : Fin 48 → GdnState
  attention_states : Fin 48 → AttentionState
  ple_convolution : Bytes
  ple_ngram_state : NgramState

namespace Impl

variable (impl : Impl) {layer i : Fin 48}

/-- A full attention with a new state. -/
def put_attention (layer : Fin 48) (state : AttentionState) : Impl :=
  { impl with attention_states := Function.update impl.attention_states layer state }

/-- A linear attention with a new state. -/
def put_gdn (layer : Fin 48) (state : GdnState) : Impl :=
  { impl with gdn_states := Function.update impl.gdn_states layer state }

variable {state : AttentionState} {gdn : GdnState}

@[simp] theorem put_attention_self : (impl.put_attention layer state).attention_states layer = state :=
  Function.update_self ..

theorem put_attention_of_ne (h : i ≠ layer) :
    (impl.put_attention layer state).attention_states i = impl.attention_states i :=
  Function.update_of_ne h ..

@[simp] theorem put_gdn_self : (impl.put_gdn layer gdn).gdn_states layer = gdn :=
  Function.update_self ..

theorem put_gdn_of_ne (h : i ≠ layer) : (impl.put_gdn layer gdn).gdn_states i = impl.gdn_states i :=
  Function.update_of_ne h ..

end Impl

/-- The layers in order. -/
def layers : List (Fin 48) := List.finRange 48

/-- Every fourth layer has a full attention. -/
def is_attention (layer : Fin 48) : Bool := layer.val % 4 = 3

/-- The layer with the token embedding. -/
def ple_layer : Fin 48 := 1

/-- The bytes of a row of keys or values of one head. -/
def row_bytes : Nat := 256 * 2

/-- The bytes of an index row. -/
def index_row_bytes : Nat := 128 * 2

/-- `make_buffer`, with a buffer that is cleared. -/
def make_buffer (bytes : Nat) : Bytes := List.replicate bytes 0

/-- The buffers that the constructor makes. Those of the pooled index rows are not cleared. -/
def create (pooled : Fin 48 → Bytes) : Impl where
  attention_states layer :=
    if is_attention layer then { (default : AttentionState) with
      hot_keys := make_buffer (2 * (hot_capacity * row_bytes))
      hot_values := make_buffer (2 * (hot_capacity * row_bytes))
      pending := make_buffer (4 * index_row_bytes)
      pooled := pooled layer }
    else default
  gdn_states layer :=
    if is_attention layer then default
    else ⟨make_buffer (3 * 10240 * 2), make_buffer (48 * 128 * 128 * 2)⟩
  ple_convolution := make_buffer (9 * 10240 * 2)
  ple_ngram_state := default

/-! ### Import: the checks -/

/-- A layer of a state. -/
def layer_state (source : TargetState HostArray) (layer : Fin 48) :
    DecoderLayerState HostArray HostArray :=
  source.layers.getD layer.val default

/-- `validate`. -/
def validate (array : HostArray) (shape : List Nat) (dtype : Dtype) : Except String Unit :=
  throw_if (array.shape ≠ shape ∨ array.dtype ≠ dtype) "persistent import state geometry/dtype mismatch"

/-- The tokens before the hot ones. -/
def cold_tokens (input : SelfAttentionState HostArray) : Nat :=
  if input.kv_q8 then input.kv_q8_cold_tokens else 0

/-- The checks of the hot keys and values. -/
def check_hot (input : SelfAttentionState HostArray) : Except String Unit :=
  let hot := input.token_count - cold_tokens input
  if hot ≠ 0 then do
    validate input.keys [1, 2, hot, 256] .bfloat16
    validate input.values [1, 2, hot, 256] .bfloat16
  else .ok ()

/-- The checks of the quantised arrays. -/
def check_quantized (input : SelfAttentionState HostArray) : Except String Unit :=
  let cold := cold_tokens input
  if cold ≠ 0 then do
    validate input.key_weights [1, 2, cold, 64] .uint32
    validate input.value_weights [1, 2, cold, 64] .uint32
    validate input.key_scales [1, 2, cold, 4] .bfloat16
    validate input.key_biases [1, 2, cold, 4] .bfloat16
    validate input.value_scales [1, 2, cold, 4] .bfloat16
    validate input.value_biases [1, 2, cold, 4] .bfloat16
  else .ok ()

/-- The index rows that an import needs are there. -/
def raw_frontier (input : SelfAttentionState HostArray) : Bool :=
  match input.qsa_raw_keys.shape with
  | [one, rows, width] =>
    one = 1 && width = 128 && input.qsa_raw_keys.dtype = .bfloat16 &&
      input.qsa_raw_start ≤ input.token_count - input.token_count % 4 &&
      input.qsa_raw_start + rows = input.token_count
  | _ => false

/-- The check of the pooled index rows. -/
def check_pooled (input : SelfAttentionState HostArray) : Except String Unit :=
  if input.qsa_pooled_count ≠ 0 then
    validate input.qsa_pooled_keys [1, input.qsa_pooled_count, 128] .bfloat16
  else .ok ()

/-- The check of the index rows that are not pooled. -/
def check_frontier (input : SelfAttentionState HostArray) : Except String Unit :=
  if input.token_count % 4 ≠ 0 then
    throw_if (raw_frontier input = false) "persistent import QSA raw frontier mismatch"
  else .ok ()

/-- The checks of a full attention. -/
def check_attention (token_count : Nat) (input : SelfAttentionState HostArray) :
    Except String Unit := do
  throw_if (input.token_count ≠ token_count ∨ 262144 < input.token_count ∨
      input.qsa_pooled_count ≠ input.token_count / 4)
    "persistent import requires complete QSA pools; prepare state first"
  let cold := cold_tokens input
  throw_if (input.token_count < cold ∨ hot_capacity < input.token_count - cold ∨
      uint32_max - input.token_count < input.position_base)
    "persistent import exceeds capacity"
  check_hot input
  check_quantized input
  check_pooled input
  check_frontier input

/-- The checks of a linear attention. -/
def check_linear (input : GatedDeltaNetState HostArray HostArray) : Except String Unit := do
  throw_if (input.initialized = false) "cannot import uninitialized GDN state"
  validate input.convolution [1, 3, 10240] .bfloat16
  validate input.recurrent [1, 48, 128, 128] .bfloat16

/-- The checks of the token embedding. -/
def check_ple (input : PleState HostArray) : Except String Unit := do
  throw_if (input.convolution_initialized = false) "cannot import uninitialized PLE state"
  validate input.convolution [1, 9, 10240] .bfloat16

/-- The first pass of `import_state`. -/
def check_import (source : TargetState HostArray) : Except String Unit := do
  throw_if (source.layers.length ≠ 48) "persistent state layer count mismatch"
  (layers.filter fun layer => is_attention layer).forM fun layer =>
    check_attention source.token_count (layer_state source layer).full_attention
  (layers.filter fun layer => !is_attention layer).forM fun layer =>
    check_linear (layer_state source layer).linear_attention
  check_ple (layer_state source ple_layer).ple

/-! ### Import: the writes -/

/-- How a write ends, and what it leaves. -/
abbrev Written (σ : Type) : Type := Except String Unit × σ

namespace Written

variable {σ τ : Type}

/-- A write, and then another. -/
def next (r : Written σ) (go_on : σ → Written σ) : Written σ :=
  match r with
  | (.ok (), s) => go_on s
  | (.error e, s) => (.error e, s)

/-- A write to a part. -/
def within (r : Written σ) (put : σ → τ) : Written τ := (r.1, put r.2)

@[simp] theorem next_ok (s : σ) (go_on : σ → Written σ) : next (.ok (), s) go_on = go_on s := rfl

@[simp] theorem within_ok (s : σ) (put : σ → τ) : within (.ok (), s) put = (.ok (), put s) := rfl

end Written

/-- `copy_array`. -/
def copy_array (source : HostArray) (target : Bytes) : Written Bytes :=
  if target.length < source.to_bytes.length then
    (.error "persistent state buffer is too small", target)
  else (.ok (), Buffer.put 0 source.to_bytes target)

/-- `copy_or_replace`: a buffer of another length is replaced, where the device has room for one. -/
def copy_or_replace (allocated : Bool) (source : HostArray) (target : Option Bytes) :
    Written (Option Bytes) :=
  if source.to_bytes = [] then (.error "cannot import an empty state array", target)
  else if target.map List.length ≠ some source.to_bytes.length ∧ allocated = false then
    (.error "std::bad_alloc", target)
  else (.ok (), some source.to_bytes)

/-- `std::memset`, to zero. -/
def clear (buffer : Bytes) : Bytes := List.replicate buffer.length 0

/-- The six new buffers that a full attention may ask for: whether the device has room for each. -/
abbrev Allocations : Type := Fin 6 → Bool

/-- The quantised arrays. -/
def write_quantized (allocated : Allocations) (input : SelfAttentionState HostArray)
    (state : AttentionState) : Written AttentionState :=
  if cold_tokens input ≠ 0 then
    ((copy_or_replace (allocated 0) input.key_weights state.key_weights).within fun buffer =>
      { state with key_weights := buffer }).next fun state =>
    ((copy_or_replace (allocated 1) input.key_scales state.key_scales).within fun buffer =>
      { state with key_scales := buffer }).next fun state =>
    ((copy_or_replace (allocated 2) input.key_biases state.key_biases).within fun buffer =>
      { state with key_biases := buffer }).next fun state =>
    ((copy_or_replace (allocated 3) input.value_weights state.value_weights).within fun buffer =>
      { state with value_weights := buffer }).next fun state =>
    ((copy_or_replace (allocated 4) input.value_scales state.value_scales).within fun buffer =>
      { state with value_scales := buffer }).next fun state =>
    (copy_or_replace (allocated 5) input.value_biases state.value_biases).within fun buffer =>
      { state with value_biases := buffer }
  else
    (.ok (), { state with
      key_weights := none
      value_weights := none
      key_scales := none
      value_scales := none
      key_biases := none
      value_biases := none })

/-- The rows of both heads, each at the start of its part of the slab. -/
def copy_heads (hot : Nat) (rows slab : Bytes) : Bytes :=
  let head_bytes := hot * row_bytes
  Buffer.put (hot_capacity * row_bytes) (Buffer.read head_bytes head_bytes rows)
    (Buffer.put 0 (Buffer.read 0 head_bytes rows) slab)

/-- The hot keys and values. -/
def write_hot (input : SelfAttentionState HostArray) (state : AttentionState) :
    Written AttentionState :=
  let state := { state with
    hot_keys := clear state.hot_keys
    hot_values := clear state.hot_values }
  let hot := input.token_count - cold_tokens input
  if hot ≠ 0 then
    if input.keys.to_bytes.length ≠ 2 * (hot * row_bytes) ∨
        input.values.to_bytes.length ≠ 2 * (hot * row_bytes) then
      (.error "persistent BF16 KV geometry mismatch", state)
    else
      (.ok (), { state with
        hot_keys := copy_heads hot input.keys.to_bytes state.hot_keys
        hot_values := copy_heads hot input.values.to_bytes state.hot_values })
  else (.ok (), state)

/-- The last index rows: those of the block that is not whole. -/
def write_pending (input : SelfAttentionState HostArray) (state : AttentionState) :
    Written AttentionState :=
  let state := { state with pending := clear state.pending }
  let pending_bytes := input.token_count % 4 * index_row_bytes
  let raw := input.qsa_raw_keys.to_bytes
  if input.token_count % 4 ≠ 0 then
    if raw.length < pending_bytes then (.error "persistent QSA raw state is truncated", state)
    else
      (.ok (), { state with
        pending := Buffer.put 0 (Buffer.read (raw.length - pending_bytes) pending_bytes raw)
          state.pending })
  else (.ok (), state)

/-- A full attention. -/
def write_attention (allocated : Allocations) (input : SelfAttentionState HostArray)
    (state : AttentionState) : Written AttentionState :=
  let cold := cold_tokens input
  if uint32_max < input.token_count ∨ uint32_max < input.position_base then
    (.error "persistent attention state is too large", state)
  else if input.token_count < cold ∨ hot_capacity < input.token_count - cold then
    (.error "persistent attention hot state is too large", state)
  else
    (write_quantized allocated input { state with
      token_count := input.token_count
      position_base := input.position_base
      cold_count := cold }).next fun state =>
    (write_hot input state).next fun state =>
    (write_pending input state).next fun state =>
    if input.qsa_pooled_count ≠ 0 then
      (copy_array input.qsa_pooled_keys state.pooled).within fun pooled => { state with pooled }
    else (.ok (), state)

/-- A linear attention. -/
def write_linear (input : GatedDeltaNetState HostArray HostArray) (state : GdnState) :
    Written GdnState :=
  if input.initialized = false then (.error "cannot import uninitialized GDN state", state)
  else
    ((copy_array input.convolution state.convolution).within fun convolution =>
      { state with convolution }).next fun state =>
    (copy_array input.recurrent state.recurrent).within fun recurrent => { state with recurrent }

/-- A layer. -/
def write_layer (allocated : Fin 48 → Allocations) (source : TargetState HostArray) (layer : Fin 48)
    (impl : Impl) : Written Impl :=
  let input := layer_state source layer
  if is_attention layer then
    (write_attention (allocated layer) input.full_attention (impl.attention_states layer)).within
      (impl.put_attention layer)
  else
    (write_linear input.linear_attention (impl.gdn_states layer)).within (impl.put_gdn layer)

/-- Layer after layer. -/
def write_layers (allocated : Fin 48 → Allocations) (source : TargetState HostArray) :
    List (Fin 48) → Impl → Written Impl
  | [], impl => (.ok (), impl)
  | layer :: layers, impl =>
    (write_layer allocated source layer impl).next (write_layers allocated source layers)

/-- The token embedding. -/
def write_ple (input : PleState HostArray) (impl : Impl) : Written Impl :=
  if input.convolution_initialized = false then
    (.error "cannot import uninitialized PLE state", impl)
  else
    ((copy_array input.convolution impl.ple_convolution).within fun ple_convolution =>
      { impl with ple_convolution }).next fun impl =>
    (.ok (), { impl with ple_ngram_state := input.ngram })

/-- The device has room for every buffer. -/
def all_allocated : Fin 48 → Allocations := fun _ _ => true

/-- `import_state`, on a device that has room for its buffers unless something else is said. -/
def import_state (source : TargetState HostArray) (impl : Impl)
    (allocated : Fin 48 → Allocations := all_allocated) : Written Impl :=
  match check_import source with
  | .error e => (.error e, impl)
  | .ok () =>
    (write_layers allocated source layers impl).next fun impl =>
    write_ple (layer_state source ple_layer).ple impl

/-! ### Export -/

/-- `export_array`. -/
def export_array (source : Option Bytes) (shape : List Nat) (dtype : Dtype) (bytes : Nat) :
    Except String HostArray :=
  match source with
  | none => .error "persistent export exceeds buffer"
  | some buffer => do
    throw_if (buffer.length < bytes) "persistent export exceeds buffer"
    let result := new_data shape dtype buffer
    throw_if (result.to_bytes.length ≠ bytes) "persistent export shape mismatch"
    return result

/-- The hot rows of both heads. -/
def copy_hot (hot : Nat) (slab : Bytes) : HostArray :=
  let head_bytes := hot * row_bytes
  new_data [1, 2, hot, 256] .bfloat16
    (Buffer.read 0 head_bytes slab ++ Buffer.read (hot_capacity * row_bytes) head_bytes slab)

/-- The quantised arrays. -/
def export_quantized (input : AttentionState) (out : SelfAttentionState HostArray) :
    Except String (SelfAttentionState HostArray) :=
  let cold := input.cold_count
  if cold ≠ 0 then do
    let key_weights ← export_array input.key_weights [1, 2, cold, 64] .uint32 (2 * cold * 256)
    let value_weights ← export_array input.value_weights [1, 2, cold, 64] .uint32 (2 * cold * 256)
    let key_scales ← export_array input.key_scales [1, 2, cold, 4] .bfloat16 (2 * cold * 4 * 2)
    let key_biases ← export_array input.key_biases [1, 2, cold, 4] .bfloat16 (2 * cold * 4 * 2)
    let value_scales ← export_array input.value_scales [1, 2, cold, 4] .bfloat16 (2 * cold * 4 * 2)
    let value_biases ← export_array input.value_biases [1, 2, cold, 4] .bfloat16 (2 * cold * 4 * 2)
    return { out with
      kv_q8 := true
      kv_q8_cold_tokens := cold
      key_weights
      value_weights
      key_scales
      key_biases
      value_scales
      value_biases }
  else .ok out

/-- A full attention. -/
def export_attention (input : AttentionState) : Except String (SelfAttentionState HostArray) := do
  let hot := sub32 input.token_count input.cold_count
  let out : SelfAttentionState HostArray := { (default : SelfAttentionState HostArray) with
    token_count := input.token_count
    position_base := input.position_base
    keys := if hot ≠ 0 then copy_hot hot input.hot_keys else default
    values := if hot ≠ 0 then copy_hot hot input.hot_values else default }
  let out ← export_quantized input out
  let pending := input.token_count % 4
  let qsa_raw_keys ←
    if pending = 0 then .ok (zeros [1, 0, 128] .bfloat16)
    else export_array (some input.pending) [1, pending, 128] .bfloat16 (pending * index_row_bytes)
  let qsa_pooled_count := input.token_count / 4
  let qsa_pooled_keys ←
    if qsa_pooled_count ≠ 0 then
      export_array (some input.pooled) [1, qsa_pooled_count, 128] .bfloat16
        (qsa_pooled_count * index_row_bytes)
    else .ok default
  return { out with
    qsa_raw_start := input.token_count - pending
    qsa_raw_keys
    qsa_pooled_count
    qsa_pooled_keys }

/-- A linear attention. -/
def export_linear (token_count : Nat) (input : GdnState) :
    Except String (GatedDeltaNetState HostArray HostArray) := do
  let convolution ← export_array (some input.convolution) [1, 3, 10240] .bfloat16 (3 * 10240 * 2)
  let recurrent ← export_array (some input.recurrent) [1, 48, 128, 128] .bfloat16
    (48 * 128 * 128 * 2)
  return { (default : GatedDeltaNetState HostArray HostArray) with
    convolution
    recurrent
    initialized := token_count ≠ 0 }

/-- The token count of an export. -/
def exported_count (impl : Impl) : Nat := (impl.attention_states 3).token_count

/-- A layer. -/
def export_layer (impl : Impl) (layer : Fin 48) :
    Except String (DecoderLayerState HostArray HostArray) :=
  if is_attention layer then do
    let input := impl.attention_states layer
    throw_if (input.token_count ≠ exported_count impl)
      "cannot export partially advanced native state"
    let full_attention ← export_attention input
    return { (default : DecoderLayerState HostArray HostArray) with full_attention }
  else do
    let linear_attention ← export_linear (exported_count impl) (impl.gdn_states layer)
    return { (default : DecoderLayerState HostArray HostArray) with linear_attention }

/-- The token embedding. -/
def export_ple (impl : Impl) : Except String (PleState HostArray) := do
  let convolution ← export_array (some impl.ple_convolution) [1, 9, 10240] .bfloat16 (9 * 10240 * 2)
  return {
    ngram := impl.ple_ngram_state
    convolution
    convolution_initialized := exported_count impl ≠ 0 }

/-- `export_state`. -/
def export_state (impl : Impl) : Except String (TargetState HostArray) := do
  let states ← layers.mapM (export_layer impl)
  let ple ← export_ple impl
  return {
    layers := states.modify ple_layer.val fun state => { state with ple }
    token_count := exported_count impl }

/-! ### Capacity and reset -/

/-- `can_decode`. -/
def can_decode (impl : Impl) : Bool :=
  layers.all fun layer => !is_attention layer ||
    let state := impl.attention_states layer
    state.cold_count ≤ state.token_count && state.token_count - state.cold_count < hot_capacity &&
      state.token_count < 262144 && state.position_base < uint32_max - state.token_count

/-- A full attention that has seen nothing. -/
def AttentionState.reset (state : AttentionState) : AttentionState :=
  { state with
    token_count := 0
    position_base := 0
    cold_count := 0
    key_weights := none
    key_scales := none
    key_biases := none
    value_weights := none
    value_scales := none
    value_biases := none
    hot_keys := clear state.hot_keys
    hot_values := clear state.hot_values
    pending := clear state.pending }

/-- A linear attention that has seen nothing. -/
def GdnState.reset (state : GdnState) : GdnState where
  convolution := clear state.convolution
  recurrent := clear state.recurrent

/-- `reset_all_state`. -/
def reset_all_state (impl : Impl) : Impl where
  attention_states layer :=
    if is_attention layer then (impl.attention_states layer).reset else impl.attention_states layer
  gdn_states layer :=
    if is_attention layer then impl.gdn_states layer else (impl.gdn_states layer).reset
  ple_convolution := clear impl.ple_convolution
  ple_ngram_state := default

/-- A reset that is asked for. -/
def reset_if (reset : Bool) (impl : Impl) : Impl := if reset then reset_all_state impl else impl

end PersistentMetalBackend

end Qwen38
