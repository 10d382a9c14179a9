import Qwen38.Layer.Ngram
import Qwen38.Metal.QsaTop128
import Qwen38.Native.State

/-!
# A step of the native backend

A token goes through the layers in order. A layer is *encoded*, which moves the counters of its
attention, and it *runs* when its group of layers has been committed. Where the encoding of a layer
throws, the groups that have been committed are waited for, and of the layers behind them only what
the encoding has changed is left (`Qwen38.PersistentMetalBackend.drain`).

The kernels compute in `bfloat16`; what they compute is left open
(`Qwen38.PersistentMetalBackend.Device`), where they read and write is not:
`qsa_append_decode_state` puts the rows of the token to their places, and `qsa_attention_q8_blocks`
goes over the tokens of the selected blocks and over those of the block that is not whole. The
buffers of the selector are scratch; what a layer finds in them may be anything.
-/

namespace Qwen38

open Except (throw_if)

namespace PersistentMetalBackend

/-! ### The kernels -/

/-- What `attention_qkv_index` and `attention_normalize_rope` make of the stream. -/
structure AttentionRows where
  query : Bytes
  gate : Bytes
  selector_query : Bytes
  key : Bytes
  value : Bytes
  index : Bytes
  length_key : key.length = 2 * row_bytes
  length_value : value.length = 2 * row_bytes
  length_index : index.length = index_row_bytes

/-- What `greedy_decode` returns. -/
structure GreedyResult where
  token : UInt32
  alternative_token : UInt32
  logit : UInt32
  deriving DecidableEq

/-- The arithmetic of the kernels, with the tables of the model. -/
structure Device (V : Type) where
  vocabulary_size : Nat
  /-- `ple_hash_`. -/
  hash : NgramHash
  /-- `ple_table_->gather`, rounded. -/
  gather : RowIds → Except String Bytes
  embedding : UInt32 → Bytes
  /-- The projections and `ple_fused_update`: the stream and the convolution state. -/
  ple : Bytes → Bytes → Bytes → Bytes × Bytes
  length_ple : ∀ embedding stream convolution : Bytes,
    (ple embedding stream convolution).2.length = convolution.length
  /-- `encode_hc_read` and the projections, at a position. -/
  project : Fin 48 → Nat → Bytes → AttentionRows
  /-- The pooled row of four index rows, at the position of the first. -/
  pool : Fin 48 → Nat → Bytes → Bytes
  length_pool : ∀ layer position rows, (pool layer position rows).length = index_row_bytes
  /-- The score of a block: the query, the pooled row, the number of the block. -/
  score : Bytes → Bytes → Nat → V
  /-- A row of 8-bit codes, with its scales and biases. -/
  unpack : Bytes → Bytes → Bytes → Bytes
  /-- The attention of the query heads over a key-value head, of the keys and values in order. -/
  attend : Bytes → Fin 2 → List (Bytes × Bytes) → Bytes
  /-- `attention_apply_gate`, the output projection, `encode_hc_write` and `encode_mlp`. -/
  attention_output : Fin 48 → Bytes → Bytes → (Fin 2 → Bytes) → Bytes
  /-- A layer with a linear attention: the stream and its state. -/
  gdn : Fin 48 → Bytes → GdnState → Bytes × GdnState
  length_convolution : ∀ layer stream state,
    (gdn layer stream state).2.convolution.length = state.convolution.length
  length_recurrent : ∀ layer stream state,
    (gdn layer stream state).2.recurrent.length = state.recurrent.length
  /-- `encode_head` and `read_head_result`. -/
  head : Bytes → GreedyResult

/-! ### Encoding -/

/-- The numbers that the kernels of a full attention are given. -/
structure AttentionNumbers where
  resulting_tokens : Nat
  position : Nat
  pool_position : Nat
  pending_index : Nat
  old_blocks : Nat
  block_count : Nat
  complete_block : Bool
  hot_index : Nat
  hot_count : Nat
  cold_count : Nat

/-- The numbers of the next token. -/
def AttentionState.numbers (state : AttentionState) : AttentionNumbers where
  resulting_tokens := add32 state.token_count 1
  position := add32 state.position_base state.token_count
  pool_position := add32 state.position_base (state.token_count / 4 * 4)
  pending_index := state.token_count % 4
  old_blocks := state.token_count / 4
  block_count := add32 state.token_count 1 / 4
  complete_block := state.token_count / 4 < add32 state.token_count 1 / 4
  hot_index := sub32 state.token_count state.cold_count
  hot_count := sub32 (add32 state.token_count 1) state.cold_count
  cold_count := state.cold_count

/-! ### Running -/

/-- A row of both heads at a place of the slab. -/
def put_rows (hot_index : Nat) (rows slab : Bytes) : Bytes :=
  Buffer.put ((hot_capacity + hot_index) * row_bytes) (Buffer.read row_bytes row_bytes rows)
    (Buffer.put (hot_index * row_bytes) (Buffer.read 0 row_bytes rows) slab)

/-- `qsa_append_decode_state`. -/
def qsa_append_decode_state (numbers : AttentionNumbers) (rows : AttentionRows) (pool : Bytes → Bytes)
    (state : AttentionState) : AttentionState :=
  let pending := Buffer.put (numbers.pending_index * index_row_bytes) rows.index state.pending
  { state with
    hot_keys := put_rows numbers.hot_index rows.key state.hot_keys
    hot_values := put_rows numbers.hot_index rows.value state.hot_values
    pending
    pooled := if numbers.complete_block then
        Buffer.put (numbers.old_blocks * index_row_bytes) (pool pending) state.pooled
      else state.pooled }

/-- The pooled row of a block. -/
def pooled_row (state : AttentionState) (block : Nat) : Bytes :=
  Buffer.read (block * index_row_bytes) index_row_bytes state.pooled

/-- A row of a quantised array. -/
def packed_row (unpack : Bytes → Bytes → Bytes → Bytes) (weights scales biases : Option Bytes)
    (vector : Nat) : Bytes :=
  unpack (Buffer.read (vector * 256) 256 (weights.getD []))
    (Buffer.read (vector * 8) 8 (scales.getD [])) (Buffer.read (vector * 8) 8 (biases.getD []))

/-- The key and the value that a quantised token has. -/
def cold_row (unpack : Bytes → Bytes → Bytes → Bytes) (state : AttentionState) (cold_count : Nat)
    (head : Fin 2) (token : Nat) : Bytes × Bytes :=
  let vector := head.val * cold_count + token
  (packed_row unpack state.key_weights state.key_scales state.key_biases vector,
    packed_row unpack state.value_weights state.value_scales state.value_biases vector)

/-- The key and the value in a row of the slab. -/
def hot_row (state : AttentionState) (head : Fin 2) (hot : Nat) : Bytes × Bytes :=
  let base := (head.val * hot_capacity + hot) * row_bytes
  (Buffer.read base row_bytes state.hot_keys, Buffer.read base row_bytes state.hot_values)

/-- Where a key and its value are read. -/
inductive Place
  | cold (token : Nat)
  | hot (slot : Nat)
  deriving DecidableEq

/-- The place that the loop over the selected blocks reads. -/
def selected_place (cold_count token : Nat) : Place :=
  if token < cold_count then .cold token else .hot (sub32 token cold_count)

/-- The place that the loop over the last tokens reads. -/
def tail_place (cold_count token : Nat) : Place := .hot (sub32 token cold_count)

/-- The tokens that `qsa_attention_q8_blocks` visits, with the places it reads. -/
def visits (numbers : AttentionNumbers) (selected : Nat → Nat) (selected_count : Nat) :
    List (Nat × Place) :=
  let blocks := (List.range selected_count).map fun slot =>
    let token := selected (slot / 4) * 4 + slot % 4
    (token, selected_place numbers.cold_count token)
  let total_count := add32 numbers.cold_count numbers.hot_count
  let tail_start := total_count / 4 * 4
  let tail := (List.range' tail_start (total_count - tail_start)).map fun token =>
    (token, tail_place numbers.cold_count token)
  blocks ++ tail

/-- What is read at a place. -/
def read_place (unpack : Bytes → Bytes → Bytes → Bytes) (state : AttentionState) (cold_count : Nat)
    (head : Fin 2) : Place → Bytes × Bytes
  | .cold token => cold_row unpack state cold_count head token
  | .hot slot => hot_row state head slot

variable {V : Type} [LinearOrder V] [OrderBot V]

/-- What the selector's buffers hold when a layer comes to them. -/
structure Scratch (V : Type) where
  scores : Nat → V
  buffers : QsaBuffers V

namespace Device

variable (device : Device V)

/-- `encode_qsa_selection` of a layer. -/
def select (scratch : Scratch V) (numbers : AttentionNumbers) (rows : AttentionRows)
    (state : AttentionState) : Except String (QsaBuffers V × Nat) :=
  encode_qsa_selection (fun block => device.score rows.selector_query (pooled_row state block) block)
    numbers.block_count scratch.scores scratch.buffers

/-- `qsa_attention_q8_blocks`, for the query heads over a key-value head. -/
def qsa_attention_q8_blocks (numbers : AttentionNumbers) (rows : AttentionRows) (state : AttentionState)
    (selected : Nat → Nat) (selected_count : Nat) (head : Fin 2) : Bytes :=
  device.attend rows.query head ((visits numbers selected selected_count).map fun visit =>
    read_place device.unpack state numbers.cold_count head visit.2)

/-- The rows of the next token. -/
def rows (layer : Fin 48) (stream : Bytes) (state : AttentionState) : AttentionRows :=
  device.project layer state.numbers.position stream

/-- The buffers with the rows of the next token. -/
def appended (layer : Fin 48) (stream : Bytes) (state : AttentionState) : AttentionState :=
  qsa_append_decode_state state.numbers (device.rows layer stream state)
    (device.pool layer state.numbers.pool_position) state

/-- `encode_attention` of a layer, and what its kernels do. -/
def encode_attention (layer : Fin 48) (scratch : Scratch V) (stream : Bytes) (state : AttentionState) :
    Except String (Bytes × AttentionState) := do
  let rows := device.rows layer stream state
  let appended := device.appended layer stream state
  let selection ← device.select scratch state.numbers rows appended
  let attended := device.qsa_attention_q8_blocks state.numbers rows appended selection.1.selected selection.2
  return (device.attention_output layer stream rows.gate attended,
    { appended with token_count := state.numbers.resulting_tokens })

end Device

/-! ### The layers -/

/-- The backend and the stream between two layers. -/
structure Run where
  impl : Impl
  stream : Bytes

/-- An exception that is thrown while a layer is encoded, before or after it has moved its
counters. -/
structure Fault where
  layer : Fin 48
  late : Bool
  error : String

/-- Where a fault strikes. -/
def strikes (fault : Option Fault) (layer : Fin 48) (late : Bool) : Except String Unit :=
  match fault with
  | none => .ok ()
  | some fault => throw_if (fault.layer = layer ∧ fault.late = late) fault.error

/-- A write that is made when a check has passed. -/
def Written.checked {σ : Type} (check : Except String Unit) (s : σ) (go_on : Written σ) : Written σ :=
  match check with
  | .ok () => go_on
  | .error e => (.error e, s)

namespace Device

variable (device : Device V) (token : UInt32) (fault : Option Fault) (stale : Fin 48 → Scratch V)

/-- `encode_ple`. The n-gram state moves before the rows are gathered. -/
def encode_ple (run : Run) : Written Run :=
  let rows := device.hash.row_ids token run.impl.ple_ngram_state
  let run := { run with impl := { run.impl with ple_ngram_state := rows.2 } }
  match device.gather rows.1 with
  | .error e => (.error e, run)
  | .ok embedding =>
    let out := device.ple embedding run.stream run.impl.ple_convolution
    (.ok (), { stream := out.1, impl := { run.impl with ple_convolution := out.2 } })

/-- The attention of a layer. -/
def encode_mixer (layer : Fin 48) (run : Run) : Written Run :=
  if is_attention layer then
    let state := run.impl.attention_states layer
    if hot_capacity ≤ sub32 state.token_count state.cold_count then
      (.error "persistent attention hot slab requires Q8 flush", run)
    else
      match device.encode_attention layer (stale layer) run.stream state with
      | .error e => (.error e, run)
      | .ok (stream, state) =>
        (.ok (), { stream, impl := run.impl.put_attention layer state })
  else
    let out := device.gdn layer run.stream (run.impl.gdn_states layer)
    (.ok (), { stream := out.1, impl := run.impl.put_gdn layer out.2 })

/-- The body of the loop of `encode_trunk`. -/
def encode_layer (layer : Fin 48) (run : Run) : Written Run :=
  .checked (strikes fault layer false) run
    ((if layer = ple_layer then device.encode_ple token run else (.ok (), run)).next fun run =>
      (device.encode_mixer stale layer run).next fun run =>
        .checked (strikes fault layer true) run (.ok (), run))

/-- What is left when the encoding of a layer has thrown: the groups that are committed have run,
and of the other layers only the counters have moved. -/
def drain (now committed : Impl) : Impl :=
  { committed with
    ple_ngram_state := now.ple_ngram_state
    attention_states := fun layer =>
      { committed.attention_states layer with
        token_count := (now.attention_states layer).token_count } }

/-- `encode_trunk`, from a layer on. -/
def encode_layers (group_size : Nat) : List (Fin 48) → Run → Impl → Written Run
  | [], run, _ => (.ok (), run)
  | layer :: layers, run, committed =>
    match device.encode_layer token fault stale layer run with
    | (.error e, now) => (.error e, { now with impl := drain now.impl committed })
    | (.ok (), now) =>
      encode_layers group_size layers now
        (if (layer.val + 1) % group_size = 0 then now.impl else committed)

/-- `encode_trunk`. The size of a group is read from the environment, or refused
(`Qwen38.PersistentMetalBackend.layer_group`). -/
def encode_trunk (group_size : Except String Nat) (run : Run) : Written Run :=
  match group_size with
  | .error e => (.error e, run)
  | .ok group_size => device.encode_layers token fault stale group_size layers run run.impl

/-- `greedy_decode`. -/
def greedy_decode (group_size : Except String Nat) (reset : Bool) (impl : Impl) :
    Except String GreedyResult × Impl :=
  if device.vocabulary_size ≤ token.toNat then (.error "token id out of range", impl)
  else
    let impl := reset_if reset impl
    if can_decode impl = false then
      (.error "persistent decode capacity exhausted; export to MLX", impl)
    else
      match device.encode_trunk token fault stale group_size ⟨impl, device.embedding token⟩ with
      | (.error e, run) => (.error e, run.impl)
      | (.ok (), run) => (.ok (device.head run.stream), run.impl)

/-- `decode_trunk`. -/
def decode_trunk (group_size : Except String Nat) (initial_stream : Bytes) (reset : Bool)
    (impl : Impl) : Except String Bytes × Impl :=
  if initial_stream.length ≠ 10240 * 2 then (.error "persistent stream width mismatch", impl)
  else
    let impl := reset_if reset impl
    if can_decode impl = false then
      (.error "persistent decode capacity exhausted; export to MLX", impl)
    else
      match device.encode_trunk token fault stale group_size ⟨impl, initial_stream⟩ with
      | (.error e, run) => (.error e, run.impl)
      | (.ok (), run) => (.ok run.stream, run.impl)

end Device

/-- The size of a group of layers: `QWEN38_PERSISTENT_LAYER_GROUP`, as it is read. -/
def layer_group (configured : Option (Option Nat)) : Except String Nat :=
  match configured with
  | none => .ok 3
  | some none => .error "persistent layer group must be 1..48"
  | some (some parsed) =>
    if parsed < 1 ∨ 48 < parsed then .error "persistent layer group must be 1..48" else .ok parsed

end PersistentMetalBackend

end Qwen38
