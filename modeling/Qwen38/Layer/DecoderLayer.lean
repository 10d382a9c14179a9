import Qwen38.Layer.DeltaRows
import Qwen38.Layer.Ple
import Qwen38.Layer.StateFile

/-!
# A decoder layer

A decoder layer adds the token embedding to the residual stream, where it has one, attends,
by a gated delta net or by full attention, and goes through its MLP. The hyper-connections
and the MLP work row by row and are parameters, as is a full attention. A layer decodes one
row, verifies a proposal, or takes a chunk of a prompt; its state is snapshotted, handed
over, saved and loaded. `Qwen38.Layer.DecoderLayer.Runs` is what can be done with a layer.
-/

namespace Qwen38

namespace Layer

/-- The state of a layer. -/
abbrev LayerState (K : Type) := DecoderLayerState (Tensor K) (Tensor K)

/-- What a layer calls of a `SelfAttention`. -/
structure FullAttention (K : Type) where
  forward_decode : Row K → SelfAttentionState (Tensor K) →
    Except String (Row K × SelfAttentionState (Tensor K))
  forward_verify : List (Row K) → SelfAttentionState (Tensor K) →
    Except String (List (Row K) × List (SelfAttentionState (Tensor K)))
  forward_prefill : List (Row K) → SelfAttentionState (Tensor K) →
    Except String (List (Row K) × SelfAttentionState (Tensor K))
  materialize_qsa_pools : SelfAttentionState (Tensor K) →
    Except String (SelfAttentionState (Tensor K))

/-- The attention of a layer: one of the two. -/
inductive Attention (K : Type) where
  | linear (linear_attention : GatedDeltaNet K)
  | full (full_attention : FullAttention K)

/-- What a `DecoderLayer` is made of. -/
structure DecoderLayer (K : Type) where
  ple_ : Option (Ple (Row K))
  attention_ : Attention K
  /-- `attention_hyper_connection_.read`. -/
  mixed : Row K → Row K
  /-- `attention_hyper_connection_.write` of a stream and an attention output. -/
  write : Row K → Row K → Row K
  /-- The second hyper-connection, with the MLP between its read and its write. -/
  mlp : Row K → Row K

namespace DecoderLayer

variable {K : Type} [CommRing K] (layer : DecoderLayer K)

/-- `DecoderLayer::materialize_speculative_state`. -/
def materialize_speculative_state (state : LayerState K) : Except String (LayerState K) :=
  match layer.attention_ with
  | .linear gdn => do
    let linear_attention ← gdn.materialize_rollback state.linear_attention
    .ok { state with linear_attention := linear_attention }
  | .full _ => .ok state

/-- `DecoderLayer::prepare_persistent_state`. -/
def prepare_persistent_state (state : LayerState K) : Except String (LayerState K) := do
  let state ← layer.materialize_speculative_state state
  match layer.attention_ with
  | .linear _ => .ok state
  | .full attention => do
    let full_attention ← attention.materialize_qsa_pools state.full_attention
    .ok { state with full_attention := full_attention }

/-- The residual stream with the token embedding of the layer, for one row. -/
def prepare_row (stream : Row K) (token : UInt32) (state : PleState (Tensor K)) :
    Row K × PleState (Tensor K) :=
  match layer.ple_ with
  | some ple =>
    let r := ple.forward_decode stream token state
    (stream + r.1, r.2)
  | none => (stream + 0, state)

/-- `DecoderLayer::forward_decode_graph`. -/
def forward_decode_graph (input_stream : Row K) (token : UInt32) (state : LayerState K) :
    Except String (Row K × LayerState K) := do
  let r := layer.prepare_row input_stream token state.ple
  let stream := r.1
  let mixed := layer.mixed stream
  match layer.attention_ with
  | .linear gdn => do
    let (output, linear_attention) ← gdn.forward_decode mixed state.linear_attention
    .ok (layer.mlp (layer.write stream output),
      { state with linear_attention := linear_attention, ple := r.2 })
  | .full attention => do
    let (output, full_attention) ← attention.forward_decode mixed state.full_attention
    .ok (layer.mlp (layer.write stream output),
      { state with full_attention := full_attention, ple := r.2 })

/-- `DecoderLayer::forward_decode`. -/
def forward_decode (input_stream : Row K) (token : UInt32) (state : LayerState K) :
    Except String (Row K × LayerState K) := do
  let state ← layer.materialize_speculative_state state
  layer.forward_decode_graph input_stream token state

/-- The residual streams with the token embedding of the layer, for a batch: with the
checkpoints. -/
def prepare_rows (streams : List (Row K)) (tokens : List UInt32) (origin : PleState (Tensor K)) :
    Except String (List (Row K) × List (PleState (Tensor K))) :=
  match layer.ple_ with
  | some ple => do
    let (output, checkpoints) ← ple.forward_verify streams tokens origin
    .ok (List.zipWith (· + ·) streams output, checkpoints)
  | none => .ok (streams, streams.map fun _ => default)

/-- `DecoderLayer::forward_verify_dense_batched`. -/
def forward_verify_dense_batched (flags : DeltaFlags) (streams : List (Row K))
    (tokens : List UInt32) (origin : LayerState K) :
    Except String (List (Row K) × List (LayerState K)) := do
  Except.throw_if (streams = [] ∨ streams.length ≠ tokens.length ∨ streams.length > 64)
    "decoder batch must contain 1 to 64 matching rows"
  let (streams, ple_checkpoints) ← layer.prepare_rows streams tokens origin.ple
  let mixed := streams.map layer.mixed
  match layer.attention_ with
  | .linear gdn => do
    let (outputs, checkpoints) ← gdn.forward_verify flags mixed origin.linear_attention
    .ok ((List.zipWith layer.write streams outputs).map layer.mlp,
      List.zipWith (fun linear_attention ple =>
        { linear_attention := linear_attention, full_attention := default, ple := ple })
        checkpoints ple_checkpoints)
  | .full attention => do
    let (outputs, checkpoints) ← attention.forward_verify mixed origin.full_attention
    .ok ((List.zipWith layer.write streams outputs).map layer.mlp,
      List.zipWith (fun full_attention ple =>
        { linear_attention := default, full_attention := full_attention, ple := ple })
        checkpoints ple_checkpoints)

/-- The loop of `DecoderLayer::forward_prefill` over pieces of at most 512 rows. -/
def prefill_pieces (attention : FullAttention K) :
    Nat → List (Row K) → SelfAttentionState (Tensor K) →
      Except String (List (Row K) × SelfAttentionState (Tensor K))
  | 0, _, state => .ok ([], state)
  | fuel + 1, mixed, state =>
    if mixed = [] then .ok ([], state)
    else do
      let (chunk, state) ← attention.forward_prefill (mixed.take 512) state
      let (chunks, state) ← prefill_pieces attention fuel (mixed.drop 512) state
      .ok (chunk ++ chunks, state)

/-- The full attention of a chunk. -/
def prefill_attention (attention : FullAttention K) (rows : Nat) (mixed : List (Row K))
    (state : SelfAttentionState (Tensor K)) :
    Except String (List (Row K) × SelfAttentionState (Tensor K)) :=
  if rows ≤ 512 then attention.forward_prefill mixed state
  else prefill_pieces attention rows mixed state

/-- The residual streams with the token embedding of the layer, for a chunk: with the state
after its last row. -/
def prefill_streams (streams : List (Row K)) (tokens : List UInt32) (state : PleState (Tensor K)) :
    Except String (List (Row K) × PleState (Tensor K)) :=
  match layer.ple_ with
  | some _ => do
    let (streams, checkpoints) ← layer.prepare_rows streams tokens state
    .ok (streams, checkpoints.getLastD default)
  | none => .ok (streams, state)

/-- `DecoderLayer::forward_prefill` of more than one row. -/
def prefill_batch (flags : DeltaFlags) (streams : List (Row K)) (tokens : List UInt32)
    (state : LayerState K) : Except String (List (Row K) × LayerState K) := do
  let (streams, ple) ← layer.prefill_streams streams tokens state.ple
  let mixed := streams.map layer.mixed
  match layer.attention_ with
  | .linear gdn => do
    let (outputs, linear_attention) ← gdn.forward_prefill flags mixed state.linear_attention
    .ok ((List.zipWith layer.write streams outputs).map layer.mlp,
      { state with linear_attention := linear_attention, ple := ple })
  | .full attention => do
    let (outputs, full_attention) ←
      prefill_attention attention tokens.length mixed state.full_attention
    .ok ((List.zipWith layer.write streams outputs).map layer.mlp,
      { state with full_attention := full_attention, ple := ple })

/-- `DecoderLayer::forward_prefill`. -/
def forward_prefill (flags : DeltaFlags) (streams : List (Row K)) (tokens : List UInt32)
    (state : LayerState K) : Except String (List (Row K) × LayerState K) := do
  Except.throw_if (tokens = [] ∨ tokens.length > 2048 ∨ streams.length ≠ tokens.length)
    "decoder prefill requires a matching [1,S,streams] batch"
  match streams, tokens with
  | [stream], [token] => do
    let (output, state) ← layer.forward_decode stream token state
    .ok ([output], state)
  | _, _ => layer.prefill_batch flags streams tokens state

/-! ### Runs -/

/-- What can be done with a layer: the rows it has consumed, what it made of them, and its
state. A verification is committed at any of its rows; what is committed may have a rollback
to replay, and everything else can follow it. Only a save waits until the state has been
materialised or has gone through another step, which the flag says: the runner materialises
right behind its commit. The condition is on the flags of each step that goes through
`forward_verify`. -/
inductive Runs (Allowed : DeltaFlags → Prop) :
    Bool → List (Row K × UInt32) → List (Row K) → LayerState K → Prop
  | start : Runs Allowed true [] [] default
  | decode {ready rows outputs state stream token output state'} :
      Runs Allowed ready rows outputs state →
      layer.forward_decode stream token state = .ok (output, state') →
      Runs Allowed true (rows ++ [(stream, token)]) (outputs ++ [output]) state'
  | prefill {ready rows outputs state streams tokens output state'} (flags : DeltaFlags) :
      Runs Allowed ready rows outputs state →
      (1 < tokens.length → flags.metal_prefill = false → Allowed flags) →
      layer.forward_prefill flags streams tokens state = .ok (output, state') →
      Runs Allowed true (rows ++ streams.zip tokens) (outputs ++ output) state'
  | verify {ready rows outputs state streams tokens output checkpoints state'}
      (flags : DeltaFlags) (accepted : Nat) :
      Runs Allowed ready rows outputs state →
      Allowed flags →
      layer.forward_verify_dense_batched flags streams tokens state = .ok (output, checkpoints) →
      checkpoints[accepted]? = some state' →
      Runs Allowed false (rows ++ (streams.zip tokens).take (accepted + 1))
        (outputs ++ output.take (accepted + 1)) state'
  | materialize {ready rows outputs state state'} :
      Runs Allowed ready rows outputs state →
      layer.materialize_speculative_state state = .ok state' →
      Runs Allowed true rows outputs state'
  | snapshot {ready rows outputs state} :
      Runs Allowed ready rows outputs state →
      Runs Allowed ready rows outputs (snapshot_decoder_layer_state state)
  | prepare {ready rows outputs state state'} :
      Runs Allowed ready rows outputs state → layer.prepare_persistent_state state = .ok state' →
      Runs Allowed true rows outputs state'
  | reload {rows outputs state state' shape2 name} {file : MlxSafetensors (Tensor K)}
      {metadata : List (String × Bytes)} {arrays : List (String × Tensor K)} :
      Runs Allowed true rows outputs state →
      Foreign (metadata_names name) file.metadata_entries →
      Foreign (array_names name) file.array_entries →
      load_decoder shape2 name
        ⟨(append_decoder name state file).metadata_entries ++ metadata,
          (append_decoder name state file).array_entries ++ arrays⟩ = .ok state' →
      Runs Allowed true rows outputs state'

/-- With these flags no kernel leaves a part of a key out. -/
def Covered (flags : DeltaFlags) : Prop :=
  ∀ gdn, layer.attention_ = .linear gdn → gdn.Covered flags

/-- The rows decoded one at a time. -/
def decode_each : List (Row K × UInt32) → LayerState K →
    Except String (List (Row K) × LayerState K)
  | [], state => .ok ([], state)
  | row :: rows, state => do
    let (output, state) ← layer.forward_decode row.1 row.2 state
    let (outputs, state) ← decode_each rows state
    .ok (output :: outputs, state)

end DecoderLayer

end Layer

end Qwen38
