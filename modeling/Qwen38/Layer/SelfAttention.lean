import Qwen38.Layer.DecoderState
import Qwen38.Lib.Except
import Qwen38.Lib.Window

/-!
# The rows a full attention keeps

How decode, verification and prefill move the keys, values and index rows of a full
attention: `update_qsa_and_build_mask` appends index rows, pools complete blocks of them and
trims those pooled to a window; `append_q8_kv` quantises keys and values in blocks; and
`copy_qsa_checkpoint` cuts the index rows of a verification back to one of its rows.

What the kernels compute from these rows is left to them, and so are the rows themselves: a
token's key at a position, its value, its index row, a pooled block and the three parts of a
quantised row are parameters. A tensor is `none` as long as it is the empty `MlxArray`, and
then a list of one row a token or a block; the dimensions that do not count rows are left
out. The environment variables are given with the values that the code admits.
-/

namespace Qwen38

/-- An `MlxArray` of rows. -/
abbrev MlxArray (R : Type) : Type := Option (List R)

variable {X R : Type}

namespace MlxArray

/-- `MlxArray::concatenate`, along the rows. -/
def concatenate (first second : MlxArray R) : Except String (MlxArray R) :=
  match first, second with
  | some first, some second => .ok (some (first ++ second))
  | _, _ => .error "MLX concatenate failed"

/-- `MlxArray::slice`, of the rows. -/
def slice (array : MlxArray R) (start stop : Nat) : Except String (MlxArray R) :=
  match array with
  | some rows => .ok (some (Window.slice start stop rows))
  | none => .error "MLX slice failed"

/-- The shape of an array that should have so many rows. -/
def Shape (array : MlxArray R) (count : Nat) : Prop := array.map List.length = some count

instance (array : MlxArray R) (count : Nat) : Decidable (array.Shape count) :=
  inferInstanceAs (Decidable (_ = _))

end MlxArray

/-- `std::numeric_limits<int>::max()`. -/
def int_max : Nat := 2 ^ 31 - 1

/-- `dimension`. -/
def dimension (value : Nat) (name : String) : Except String Nat :=
  if value = 0 ∨ value > int_max then .error ("invalid attention dimension: " ++ name)
  else .ok value

/-- `coordinate`. -/
def coordinate (value : Nat) (name : String) : Except String Nat :=
  if value > int_max then .error ("invalid attention coordinate: " ++ name) else .ok value

/-- `QsaCheckpointPlan`. -/
structure QsaCheckpointPlan where
  pooled_blocks : Nat
  raw_start : Nat
  deriving DecidableEq

/-- `plan_qsa_checkpoint`. -/
def plan_qsa_checkpoint (complete_tokens complete_pooled_blocks complete_raw_start
    checkpoint_tokens ratio window : Nat) : Except String QsaCheckpointPlan := do
  Except.throw_if (ratio = 0 ∨ checkpoint_tokens > complete_tokens ∨
    complete_raw_start > checkpoint_tokens ∨ complete_pooled_blocks > complete_tokens / ratio)
    "invalid QSA checkpoint geometry"
  let blocks := min complete_pooled_blocks (checkpoint_tokens / ratio)
  let frontier := blocks * ratio
  Except.throw_if (complete_raw_start > frontier)
    "QSA checkpoint raw window misses the pooling frontier"
  let desired_start :=
    if window = 0 then complete_raw_start
    else if checkpoint_tokens > window then checkpoint_tokens - window else 0
  .ok ⟨blocks, max complete_raw_start (min desired_start frontier)⟩

/-- A full attention: what it computes for a token and a block, its configuration, and the
environment variables it reads. -/
structure SelfAttention (X R : Type) where
  key : Nat → X → R
  value : X → R
  index_key : X → R
  pool : Nat → List R → R
  weights : R → R
  scales : R → R
  biases : R → R
  indexer_budget : Nat
  indexer_compress_ratio : Nat
  /-- `QWEN38_KV_CACHE=q8`. -/
  q8_kv_requested : Bool
  q8_kv_min_tokens : Nat
  q8_kv_flush_tokens : Nat
  /-- `QWEN38_QSA_DECODE_BUDGET`. -/
  decode_budget : Option Nat
  qsa_raw_window : Nat
  /-- `QWEN38_BATCH_Q8_VERIFY` is not `0`. -/
  batch_q8_verify : Bool
  /-- `QWEN38_BATCH_SDPA_VERIFY` is not `0`. -/
  batch_sdpa_enabled : Bool
  /-- `QWEN38_BATCH_KV_VERIFY=1`. -/
  batch_kv_verify : Bool
  /-- `QWEN38_SDPA_DECODE`, and whether it is `1`. -/
  sdpa_decode : Option Bool
  /-- `QWEN38_SDPA_PREFILL=1`. -/
  sdpa_prefill : Bool
  /-- `QWEN38_QSA_PACKED_PREFILL=1`. -/
  packed_qsa : Bool
  packed_qsa_min_tokens : Nat
  ratio_pos : 0 < indexer_compress_ratio
  budget_pos : 0 < indexer_budget
  budget_mod : indexer_budget % indexer_compress_ratio = 0
  decode_budget_admitted : ∀ parsed ∈ decode_budget, indexer_compress_ratio ≤ parsed ∧
    parsed ≤ indexer_budget ∧ parsed % indexer_compress_ratio = 0
  min_tokens_admitted : 2049 ≤ q8_kv_min_tokens
  flush_tokens_admitted : 512 ≤ q8_kv_flush_tokens
  raw_window_admitted : qsa_raw_window = 0 ∨ 16 ≤ qsa_raw_window ∧ qsa_raw_window ≤ 4096

/-- Which tensors of a `QsaSelection` there are: none, the packed indices and their mask, or
the dense mask. -/
inductive QsaSelection
  | none
  | packed
  | dense
  deriving DecidableEq

/-- The state of a full attention. -/
abbrev AttentionState (R : Type) : Type := SelfAttentionState (MlxArray R)

/-- `share_attention_state`, which copies what `snapshot_decoder_layer_state` does. -/
def share_attention_state (state : AttentionState R) : AttentionState R := state.snapshot

namespace SelfAttention

variable (attention : SelfAttention X R)

/-- The rows of a projection for tokens from a position on. -/
def project (row : Nat → X → R) (position : Nat) (input : List X) : List R :=
  input.mapIdx fun index x => row (position + index) x

/-- `qsa_selection_budget`. -/
def qsa_selection_budget (decode : Bool) : Nat :=
  if decode then attention.decode_budget.getD attention.indexer_budget
  else attention.indexer_budget

/-- `use_sdpa_decode`. -/
def use_sdpa_decode (token_count : Nat) : Bool :=
  match attention.sdpa_decode with
  | some enabled => enabled
  | none => token_count ≥ 512

/-! ### Index rows -/

/-- The blocks that `materialize_qsa_pools` adds. -/
def pool_blocks (state : AttentionState R) (block_count : Nat) :
    Except String (AttentionState R) := do
  let ratio := attention.indexer_compress_ratio
  let first_block := state.qsa_pooled_count
  let new_blocks := block_count - first_block
  let first_token := first_block * ratio
  let stop_token := block_count * ratio
  Except.throw_if (first_token < state.qsa_raw_start)
    "QSA raw window does not cover the pooling frontier"
  let start ← coordinate (first_token - state.qsa_raw_start) "QSA pooled start"
  let stop ← dimension (stop_token - state.qsa_raw_start) "QSA pooled stop"
  let fresh ← state.qsa_raw_keys.slice start stop
  let new_blocks ← dimension new_blocks "QSA new blocks"
  Except.throw_if (¬fresh.Shape (new_blocks * ratio)) "MLX reshape failed"
  let pooled := some ((List.range new_blocks).map fun block =>
    attention.pool (state.position_base + first_token + block * ratio)
      (Window.slice (block * ratio) (block * ratio + ratio) (fresh.getD [])))
  let pooled_keys ←
    if first_block = 0 then .ok pooled else MlxArray.concatenate state.qsa_pooled_keys pooled
  .ok { state with qsa_pooled_keys := pooled_keys, qsa_pooled_count := block_count }

/-- `materialize_qsa_pools`. -/
def materialize_qsa_pools (state : AttentionState R) (total : Nat) :
    Except String (AttentionState R) := do
  let block_count := total / attention.indexer_compress_ratio
  Except.throw_if (state.qsa_pooled_count > block_count)
    "QSA pooled state extends beyond the KV frontier"
  if state.qsa_pooled_count < block_count then attention.pool_blocks state block_count
  else .ok state

/-- The part of `update_qsa_and_build_mask` that appends the index rows. -/
def append_raw_keys (raw_keys : MlxArray R) (state : AttentionState R) :
    Except String (AttentionState R) :=
  if state.token_count = 0 then .ok { state with qsa_raw_keys := raw_keys }
  else do
    Except.throw_if (state.qsa_raw_start > state.token_count)
      "QSA raw-key state is not aligned with attention KV"
    let history ← coordinate (state.token_count - state.qsa_raw_start) "QSA history"
    Except.throw_if (¬state.qsa_raw_keys.Shape history)
      "QSA raw-key state is not aligned with attention KV"
    let raw_keys ← state.qsa_raw_keys.concatenate raw_keys
    .ok { state with qsa_raw_keys := raw_keys }

/-- The part of `update_qsa_and_build_mask` that trims the index rows to the window. -/
def trim_raw_keys (rows total : Nat) (state : AttentionState R) :
    Except String (AttentionState R) :=
  let retained_rows :=
    if attention.qsa_raw_window = 0 then total else min total (attention.qsa_raw_window + rows)
  let retained_start := total - retained_rows
  if retained_start > state.qsa_raw_start then do
    let stored_rows := (state.qsa_raw_keys.map List.length).getD 0
    let local_start ← coordinate (retained_start - state.qsa_raw_start) "QSA retained raw start"
    let raw_keys ← state.qsa_raw_keys.slice local_start stored_rows
    .ok { state with qsa_raw_keys := raw_keys, qsa_raw_start := retained_start }
  else .ok state

/-- The part of `update_qsa_and_build_mask` that scores the blocks and selects tokens. -/
def select_tokens (state : AttentionState R) (total block_count : Nat) (packed : Bool) :
    Except String QsaSelection := do
  let blocks ← dimension block_count "QSA blocks"
  Except.throw_if (¬state.qsa_pooled_keys.Shape blocks) "MLX reshape failed"
  if packed then do
    let _ ← dimension total "QSA sentinel"
    let _ ← dimension (total - 1) "QSA last token"
    .ok .packed
  else do
    let _ ← dimension (block_count * attention.indexer_compress_ratio) "QSA selected tokens"
    let _ ← dimension total "QSA KV"
    .ok .dense

/-- `update_qsa_and_build_mask`. -/
def update_qsa_and_build_mask (input : List X) (state : AttentionState R)
    (packed decode_verification : Bool) : Except String (AttentionState R × QsaSelection) := do
  Except.throw_if (input = []) "QSA requires a single [1,S,hidden] sequence"
  let rows := input.length
  let ratio := attention.indexer_compress_ratio
  let block_topk := attention.qsa_selection_budget decode_verification / ratio
  let state ← append_raw_keys (some (input.map attention.index_key)) state
  let total := state.token_count + rows
  let block_count := total / ratio
  if block_count ≤ block_topk then .ok (state, .none)
  else do
    let state ← attention.materialize_qsa_pools state total
    let state ← attention.trim_raw_keys rows total state
    let selection ← attention.select_tokens state total block_count packed
    .ok (state, selection)

/-- `copy_qsa_checkpoint`, into a checkpoint. -/
def copy_qsa_checkpoint (complete : AttentionState R) (token_count : Nat)
    (checkpoint : AttentionState R) : Except String (AttentionState R) :=
  if token_count = 0 then .ok checkpoint
  else do
    let plan ← plan_qsa_checkpoint complete.token_count complete.qsa_pooled_count
      complete.qsa_raw_start token_count attention.indexer_compress_ratio attention.qsa_raw_window
    let start ← coordinate (plan.raw_start - complete.qsa_raw_start) "QSA checkpoint raw start"
    let stop ← dimension (token_count - complete.qsa_raw_start) "QSA checkpoint"
    let raw_keys ← complete.qsa_raw_keys.slice start stop
    let pooled_keys ←
      if plan.pooled_blocks ≠ 0 then do
        let blocks ← dimension plan.pooled_blocks "QSA checkpoint blocks"
        complete.qsa_pooled_keys.slice 0 blocks
      else .ok none
    .ok { checkpoint with
      qsa_raw_keys := raw_keys
      qsa_raw_start := plan.raw_start
      qsa_pooled_count := plan.pooled_blocks
      qsa_pooled_keys := pooled_keys }

/-! ### Keys and values -/

/-- The quantised parts of keys and values. -/
structure PackedQ8 (R : Type) where
  weights : MlxArray R
  scales : MlxArray R
  biases : MlxArray R

/-- `pack_q8`. -/
def pack_q8 (value : MlxArray R) : Except String (PackedQ8 R) :=
  match value with
  | some rows => .ok ⟨some (rows.map attention.weights), some (rows.map attention.scales),
      some (rows.map attention.biases)⟩
  | none => .error "Q8 KV quantization failed"

/-- The transition of `append_q8_kv` to a quantised cache. -/
def start_q8_kv (state : AttentionState R) (key value : MlxArray R) :
    Except String (AttentionState R) := do
  Except.throw_if (state.token_count = 0) "Q8 KV transition requires a BF16 history"
  let packed_key ← attention.pack_q8 state.keys
  let packed_value ← attention.pack_q8 state.values
  .ok { state with
    key_weights := packed_key.weights
    key_scales := packed_key.scales
    key_biases := packed_key.biases
    value_weights := packed_value.weights
    value_scales := packed_value.scales
    value_biases := packed_value.biases
    keys := key
    values := value
    kv_q8 := true
    kv_q8_cold_tokens := state.token_count }

/-- The flush of `append_q8_kv`: the rows not yet quantised are, and join the others. -/
def flush_q8_kv (state : AttentionState R) (key value : MlxArray R) :
    Except String (AttentionState R) := do
  let packed_key ← attention.pack_q8 state.keys
  let packed_value ← attention.pack_q8 state.values
  let key_weights ← state.key_weights.concatenate packed_key.weights
  let key_scales ← state.key_scales.concatenate packed_key.scales
  let key_biases ← state.key_biases.concatenate packed_key.biases
  let value_weights ← state.value_weights.concatenate packed_value.weights
  let value_scales ← state.value_scales.concatenate packed_value.scales
  let value_biases ← state.value_biases.concatenate packed_value.biases
  .ok { state with
    key_weights := key_weights
    key_scales := key_scales
    key_biases := key_biases
    value_weights := value_weights
    value_scales := value_scales
    value_biases := value_biases
    kv_q8_cold_tokens := state.kv_q8_cold_tokens + (state.token_count - state.kv_q8_cold_tokens)
    keys := key
    values := value }

/-- Keys and values behind those there are. -/
def concatenate_kv (state : AttentionState R) (key value : MlxArray R) :
    Except String (AttentionState R) := do
  let keys ← state.keys.concatenate key
  let values ← state.values.concatenate value
  .ok { state with keys := keys, values := values }

/-- `append_q8_kv`. -/
def append_q8_kv (state : AttentionState R) (key value : MlxArray R) :
    Except String (AttentionState R) :=
  if state.kv_q8 = false then attention.start_q8_kv state key value
  else
    let hot_tokens := state.token_count - state.kv_q8_cold_tokens
    if hot_tokens = 0 then .ok { state with keys := key, values := value }
    else if hot_tokens ≥ attention.q8_kv_flush_tokens then attention.flush_q8_kv state key value
    else concatenate_kv state key value

/-- Whether a step that ends with so many tokens wants a quantised cache. -/
def want_q8 (state : AttentionState R) (resulting_tokens : Nat) : Bool :=
  state.kv_q8 || (attention.q8_kv_requested && resulting_tokens ≥ attention.q8_kv_min_tokens)

/-- Where `forward_decode` and `forward_prefill` put keys and values. -/
def store_kv (want_q8 : Bool) (qsa : QsaSelection) (state : AttentionState R)
    (key value : MlxArray R) : Except String (AttentionState R) :=
  if want_q8 ∧ qsa = .packed then attention.append_q8_kv state key value
  else if state.token_count = 0 then .ok { state with keys := key, values := value }
  else concatenate_kv state key value

/-- The part of `forward_decode` and `forward_prefill` that appends keys and values. -/
def append_kv (want_q8 : Bool) (qsa : QsaSelection) (input : List X) (state : AttentionState R) :
    Except String (AttentionState R) := do
  let position := state.position_base + state.token_count
  let key := some (project attention.key position input)
  let value := some (project (fun _ => attention.value) position input)
  let state ← attention.store_kv want_q8 qsa state key value
  .ok { state with token_count := state.token_count + input.length }

/-- What `packed_qsa_attention_q8` requires of the rows. -/
def packed_qsa_attention_q8 (state : AttentionState R) (qsa : QsaSelection) :
    Except String Unit := do
  Except.throw_if (state.kv_q8 = false ∨ state.key_weights = none ∨ state.key_scales = none ∨
    state.keys = none ∨ qsa ≠ .packed) "packed Q8 QSA shape mismatch"
  let weight_rows := (state.key_weights.map List.length).getD 0
  let hot_rows := (state.keys.map List.length).getD 0
  Except.throw_if (¬state.key_scales.Shape weight_rows) "packed Q8 QSA shape mismatch"
  Except.throw_if (¬state.value_weights.Shape weight_rows ∨ ¬state.value_scales.Shape weight_rows ∨
    ¬state.key_biases.Shape weight_rows ∨ ¬state.value_biases.Shape weight_rows ∨
    ¬state.values.Shape hot_rows ∨ weight_rows ≠ state.kv_q8_cold_tokens ∨
    state.kv_q8_cold_tokens + hot_rows ≠ state.token_count)
    "packed Q8 QSA kernel contract mismatch"
  let _ ← dimension state.token_count "Q8 KV total"

/-! ### Decode, verification and prefill -/

/-- `forward_decode`. -/
def forward_decode (x : X) (state : AttentionState R) : Except String (AttentionState R) := do
  let want_q8 := attention.want_q8 state (state.token_count + 1)
  let (state, qsa) ← attention.update_qsa_and_build_mask [x] state want_q8 true
  let state ← attention.append_kv want_q8 qsa [x] state
  if state.kv_q8 then do
    Except.throw_if (qsa ≠ .packed) "Q8 KV decode requires packed QSA selection"
    packed_qsa_attention_q8 state qsa
    .ok state
  else .ok state

/-- A checkpoint of the batched verification of a quantised cache. -/
def q8_checkpoint (complete : AttentionState R) (origin_hot origin_tokens row : Nat) :
    Except String (AttentionState R) := do
  let checkpoint := share_attention_state complete
  let hot_row ← dimension (row + 1) "Q8 verifier row"
  let keys ← complete.keys.slice 0 (origin_hot + hot_row)
  let values ← complete.values.slice 0 (origin_hot + hot_row)
  let checkpoint := { checkpoint with
    keys := keys, values := values, token_count := origin_tokens + row + 1 }
  attention.copy_qsa_checkpoint complete checkpoint.token_count checkpoint

/-- New rows behind those there are, if there are any. -/
def join_rows (has_rows : Bool) (rows new_rows : MlxArray R) : Except String (MlxArray R) :=
  if has_rows then rows.concatenate new_rows else .ok new_rows

/-- The batched verification of a quantised cache. -/
def verify_q8_batched (input : List X) (origin : AttentionState R) :
    Except String (List (AttentionState R)) := do
  let (complete, qsa) ←
    attention.update_qsa_and_build_mask input (share_attention_state origin) true true
  let position := origin.position_base + origin.token_count
  let new_keys := some (project attention.key position input)
  let new_values := some (project (fun _ => attention.value) position input)
  let has_hot_origin := origin.token_count ≠ origin.kv_q8_cold_tokens
  let keys ← join_rows has_hot_origin origin.keys new_keys
  let values ← join_rows has_hot_origin origin.values new_values
  let complete := { complete with
    keys := keys, values := values, token_count := origin.token_count + input.length }
  let origin_hot ←
    dimension (origin.token_count - origin.kv_q8_cold_tokens) "Q8 verifier hot origin"
  let checkpoints ← (List.range input.length).mapM
    (attention.q8_checkpoint complete origin_hot origin.token_count)
  packed_qsa_attention_q8 complete qsa
  .ok checkpoints

/-- The verification of a quantised cache row by row. -/
def verify_q8_rows : List X → AttentionState R → Except String (List (AttentionState R))
  | [], _ => .ok []
  | x :: input, working => do
    let working ← attention.forward_decode x working
    let checkpoints ← verify_q8_rows input working
    .ok (share_attention_state working :: checkpoints)

/-- A checkpoint of the batched verification. -/
def sdpa_checkpoint (complete : AttentionState R) (origin_tokens row : Nat) :
    Except String (AttentionState R) := do
  let stop ← dimension (origin_tokens + row + 1) "attention checkpoint length"
  let keys ← complete.keys.slice 0 stop
  let values ← complete.values.slice 0 stop
  let checkpoint := { (default : AttentionState R) with
    keys := keys
    values := values
    token_count := origin_tokens + row + 1
    position_base := complete.position_base }
  attention.copy_qsa_checkpoint complete checkpoint.token_count checkpoint

/-- The index rows of a state, in a new one. -/
def share_index (origin : AttentionState R) : AttentionState R :=
  let state := { (default : AttentionState R) with
    token_count := origin.token_count
    position_base := origin.position_base
    qsa_raw_start := origin.qsa_raw_start
    qsa_pooled_count := origin.qsa_pooled_count }
  if origin.token_count ≠ 0 then
    { state with
      qsa_raw_keys := origin.qsa_raw_keys
      qsa_pooled_keys := if origin.qsa_pooled_count ≠ 0 then origin.qsa_pooled_keys else none }
  else state

/-- All keys and values, with those of new tokens. -/
def complete_kv (input : List X) (origin : AttentionState R) :
    Except String (MlxArray R × MlxArray R) := do
  let position := origin.position_base + origin.token_count
  let new_keys := some (project attention.key position input)
  let new_values := some (project (fun _ => attention.value) position input)
  let keys ← join_rows (origin.token_count ≠ 0) origin.keys new_keys
  let values ← join_rows (origin.token_count ≠ 0) origin.values new_values
  .ok (keys, values)

/-- The batched verification. -/
def verify_sdpa_batched (input : List X) (origin : AttentionState R) :
    Except String (List (AttentionState R)) := do
  let (complete, _) ← attention.update_qsa_and_build_mask input (share_index origin) false true
  let (keys, values) ← attention.complete_kv input origin
  let complete := { complete with
    keys := keys, values := values, token_count := origin.token_count + input.length }
  (List.range input.length).mapM (attention.sdpa_checkpoint complete origin.token_count)

/-- The keys and values after a row of the verification row by row. -/
def verify_row_kv (complete : Option (MlxArray R × MlxArray R)) (x : X)
    (working : AttentionState R) : Except String (AttentionState R) :=
  match complete with
  | some (complete_keys, complete_values) => do
    let stop ← dimension (working.token_count + 1) "attention checkpoint length"
    let keys ← complete_keys.slice 0 stop
    let values ← complete_values.slice 0 stop
    .ok { working with keys := keys, values := values, token_count := working.token_count + 1 }
  | none => attention.append_kv false .none [x] working

/-- The checkpoint after a row of the verification row by row. -/
def row_checkpoint (working : AttentionState R) : AttentionState R :=
  { (default : AttentionState R) with
    keys := working.keys
    values := working.values
    token_count := working.token_count
    position_base := working.position_base
    qsa_raw_start := working.qsa_raw_start
    qsa_raw_keys := working.qsa_raw_keys
    qsa_pooled_count := working.qsa_pooled_count
    qsa_pooled_keys := if working.qsa_pooled_count ≠ 0 then working.qsa_pooled_keys else none }

/-- The rows of the verification row by row. -/
def verify_working (complete : Option (MlxArray R × MlxArray R)) :
    List X → AttentionState R → Except String (List (AttentionState R))
  | [], _ => .ok []
  | x :: input, working => do
    let (working, _) ← attention.update_qsa_and_build_mask [x] working false true
    let working ← attention.verify_row_kv complete x working
    let checkpoints ← verify_working complete input working
    .ok (row_checkpoint working :: checkpoints)

/-- The verification row by row. -/
def verify_rows (input : List X) (origin : AttentionState R) :
    Except String (List (AttentionState R)) := do
  let working := share_index origin
  let working :=
    if origin.token_count ≠ 0 then { working with keys := origin.keys, values := origin.values }
    else working
  let complete ←
    if input.length > 1 ∧ attention.batch_kv_verify then
      (attention.complete_kv input origin).map some
    else .ok none
  attention.verify_working complete input working

/-- `forward_verify`: the checkpoints. -/
def forward_verify (input : List X) (origin : AttentionState R) :
    Except String (List (AttentionState R)) := do
  Except.throw_if (input.length < 1 ∨ input.length > 512)
    "attention batch requires shape [1,S,hidden], S=1..512"
  if attention.want_q8 origin (origin.token_count + input.length) then
    if input.length > 1 ∧ origin.kv_q8 ∧ attention.batch_q8_verify then
      attention.verify_q8_batched input origin
    else attention.verify_q8_rows input (share_attention_state origin)
  else if input.length > 1 ∧ attention.batch_sdpa_enabled ∧
      attention.use_sdpa_decode (origin.token_count + 1) then
    attention.verify_sdpa_batched input origin
  else attention.verify_rows input origin

/-- The part of `forward_prefill` that attends to all rows at once. -/
def prefill_sdpa (input : List X) (state : AttentionState R) :
    Except String (AttentionState R) := do
  let resulting_tokens := state.token_count + input.length
  let want_q8 := attention.want_q8 state resulting_tokens
  let packed_qsa_enabled :=
    want_q8 || (attention.packed_qsa && resulting_tokens ≥ attention.packed_qsa_min_tokens)
  let (state, qsa) ← attention.update_qsa_and_build_mask input state packed_qsa_enabled false
  let state ← attention.append_kv want_q8 qsa input state
  if state.kv_q8 then do
    packed_qsa_attention_q8 state qsa
    .ok state
  else .ok state

/-- `forward_prefill`. -/
def forward_prefill (input : List X) (state : AttentionState R) :
    Except String (AttentionState R) := do
  Except.throw_if (input.length < 1 ∨ input.length > 512)
    "attention prefill requires shape [1,S,hidden], S=1..512"
  if attention.sdpa_prefill = false ∨ input.length < 16 then do
    let checkpoints ← attention.forward_verify input state
    .ok (checkpoints.getLastD default)
  else attention.prefill_sdpa input state

end SelfAttention

end Qwen38
