import Qwen38.Lib.Loop
import Qwen38.Lib.Pipeline

/-!
# The target model

`QwenModel` runs a token through its decoder layers, each of which has a state of its own. What a
layer computes is a parameter here (`Qwen38.Target`); how the model drives its layers is not: one
token at a time (`Qwen38.Target.forward_decode_capture`), a token of each of several requests at a
time (`Qwen38.Target.forward_decode_capture_multi`), a chunk of prompt tokens in windows of layers
(`Qwen38.Target.advance_prefill_chunk_batch`), many chunks window by window
(`Qwen38.Target.prefill_chunks_layer_major`), or the rows of a speculative proposal with the state
after each of them (`Qwen38.Target.forward_verify_layer_major_reference`).

Nothing is assumed of the layers for `Qwen38.Target.prefill_chunks_layer_major_eq`: the two ways to
prefill agree because every layer sees the chunks in their order. That a batch of rows is what its
rows are one by one is `Qwen38.Target.RowWise`, and then all of them come down to single steps
(`Qwen38.Target.prefill_rows` and `Qwen38.Target.forward_verify_eq`). That a layer does with rows of
several requests what it does with each is `Qwen38.Target.DecodesApart`.

Token ids are those of the vocabulary, as those of the tokenizer and of the sampler are. The checks
that the embedding makes of them are left out here, but for the one of the shared step.
-/

namespace Qwen38

open Pipeline

/-- A token id. -/
abbrev Token := Nat

/-- A decoder layer: what it makes of the residual stream of a row, or of several. -/
structure DecoderLayer (State Stream : Type) where
  make_state : State
  forward_decode : Stream → Token → State → Stream × State
  forward_decode_multi : List Stream → List Token → List State → List Stream × List State
  forward_prefill : List Stream → List Token → State → List Stream × State
  forward_verify_dense_batched : List Stream → List Token → State → List Stream × List State
  /-- A stream batch keeps its shape. -/
  length_forward_prefill : ∀ streams tokens state, streams.length = tokens.length →
    (forward_prefill streams tokens state).1.length = streams.length

namespace DecoderLayer

variable {State Stream : Type} (layer : DecoderLayer State Stream)

/-- One row as an item of a pipeline: the stream, with its token. -/
def decode : Stage (Stream × Token) State := fun row state =>
  let r := layer.forward_decode row.1 row.2 state
  ((r.1, row.2), r.2)

/-- Rows of several requests, with the states of this layer. -/
def decode_multi (rows : List (Stream × Token)) (states : List State) :
    List (Stream × Token) × List State :=
  let r := layer.forward_decode_multi (rows.map Prod.fst) (rows.map Prod.snd) states
  (r.1.zip (rows.map Prod.snd), r.2)

/-- One chunk as an item of a pipeline: the stream batch, with its tokens. -/
def prefill : Stage (List Stream × List Token) State := fun chunk state =>
  let r := layer.forward_prefill chunk.1 chunk.2 state
  ((r.1, chunk.2), r.2)

/-- The rows of a proposal through one layer, with the state after each. -/
def verify (rows : List (Stream × Token)) (state : State) : List (Stream × Token) × List State :=
  let r := layer.forward_verify_dense_batched (rows.map Prod.fst) (rows.map Prod.snd) state
  (r.1.zip (rows.map Prod.snd), r.2)

end DecoderLayer

/-- The target model. -/
structure Target where
  LayerState : Type
  Stream : Type
  Logits : Type
  layers : List (DecoderLayer LayerState Stream)
  layers_ne_nil : layers ≠ []
  vocabulary_size : Nat
  /-- The embedding of a token, spread over the streams. -/
  initialize_stream : Token → Stream
  /-- The final mixer and the language head. -/
  head : Stream → Logits
  argmax : Logits → Token
  prefill_barrier_stride : Nat
  prefill_barrier_stride_pos : 0 < prefill_barrier_stride

/-- The states of all layers. -/
abbrev Target.LayerStates (T : Target) := { ss : List T.LayerState // ss.length = T.layers.length }

/-- What the model has consumed. -/
@[ext] structure ModelDecodeState (T : Target) where
  layers : T.LayerStates
  token_count : Nat

/-- What one decode step gives. -/
structure TargetDecodeStep (T : Target) where
  logits : T.Logits
  pre_mixer_stream : T.Stream

/-- What one verified row gives. -/
structure TargetVerifyStep (T : Target) where
  logits : T.Logits
  pre_mixer_stream : T.Stream
  state_after : ModelDecodeState T

/-- A chunk that has gone through the first `next_layer` layers. -/
structure ModelPrefillChunk (T : Target) where
  stream_batch : List T.Stream
  next_layer : Nat
  row_count : Nat

namespace Target

variable (T : Target)

/-! ### Decoding -/

/-- `make_state`. -/
def make_state : ModelDecodeState T where
  layers := ⟨T.layers.map DecoderLayer.make_state, by simp⟩
  token_count := 0

/-- `forward_decode_capture`. -/
def forward_decode_capture (token : Token) (state : ModelDecodeState T) :
    TargetDecodeStep T × ModelDecodeState T :=
  let r := through (T.layers.map DecoderLayer.decode) (T.initialize_stream token, token) state.layers.1
  ({ logits := T.head r.1.1, pre_mixer_stream := r.1.1 },
    { layers := ⟨r.2, by simpa [r] using state.layers.2⟩, token_count := state.token_count + 1 })

/-- `forward_decode_capture_multi`: layer by layer, one row for each request. A state has as many
layers as the model, so that its check of this cannot fail. -/
def forward_decode_capture_multi (tokens : List Token) (states : List (ModelDecodeState T)) :
    Except String (List (TargetDecodeStep T × ModelDecodeState T)) :=
  if tokens = [] ∨ tokens.length ≠ states.length ∨ 64 < tokens.length then
    .error "multi-request model decode requires 1 to 64 matching rows"
  else if tokens.any fun token => T.vocabulary_size ≤ token then
    .error "multi-request token id is out of range"
  else
    let rows := List.zipWith
      (fun token state => ((T.initialize_stream token, token), state.layers.1)) tokens states
    let stepped := abreast (T.layers.map DecoderLayer.decode_multi) rows
    .ok (List.zipWith
      (fun row state =>
        ({ logits := T.head row.1.1, pre_mixer_stream := row.1.1 },
          { layers := if h : row.2.length = T.layers.length then ⟨row.2, h⟩ else state.layers
            token_count := state.token_count + 1 })) stepped states)

/-- The tokens one by one, keeping the states only. -/
def consume (tokens : List Token) (state : ModelDecodeState T) : ModelDecodeState T :=
  tokens.foldl (fun state token => (T.forward_decode_capture token state).2) state

/-- The state that has consumed these tokens. -/
def after (tokens : List Token) : ModelDecodeState T := T.consume tokens T.make_state

/-- What the model says and computes for the last of these tokens. -/
def last_step (ctx : List Token) : TargetDecodeStep T :=
  (T.forward_decode_capture (ctx.getLastD 0) (T.after ctx.dropLast)).1

/-- The greedy token after these tokens. -/
def next (ctx : List Token) : Token := T.argmax (T.last_step ctx).logits

/-- The residual stream of the last of these tokens. -/
def stream (ctx : List Token) : T.Stream := (T.last_step ctx).pre_mixer_stream

/-! ### Prefill -/

/-- `begin_prefill_chunk_batch`. -/
def begin_prefill_chunk_batch (tokens : List Token) : Except String (ModelPrefillChunk T) :=
  if tokens = [] ∨ 2048 < tokens.length then
    .error "prefill chunk must contain 1 to 2048 tokens"
  else
    .ok {
      stream_batch := tokens.map T.initialize_stream
      next_layer := 0
      row_count := tokens.length }

/-- The layers from `first` to `last`; the states of the others stay as they are. -/
def prefill_window (first last : Nat) : Stage (List T.Stream × List Token) T.LayerStates :=
  fun chunk layers =>
    let r := window (T.layers.map DecoderLayer.prefill) first last chunk layers.1
    (r.1, ⟨r.2, by simpa [r] using layers.2⟩)

/-- The layer after the last one of the window that starts there. -/
def barrier_end (barrier_begin : Nat) : Nat :=
  min T.layers.length
    ((barrier_begin / T.prefill_barrier_stride + 1) * T.prefill_barrier_stride)

/-- `advance_prefill_chunk_batch`: whether the chunk is through, with the chunk and the
state. -/
def advance_prefill_chunk_batch (chunk : ModelPrefillChunk T) (tokens : List Token)
    (state : ModelDecodeState T) :
    Except String (Bool × ModelPrefillChunk T × ModelDecodeState T) :=
  if chunk.row_count = 0 ∨ chunk.row_count ≠ tokens.length ∨
      T.layers.length ≤ chunk.next_layer then
    .error "invalid resumable prefill chunk"
  else
    let last := T.barrier_end chunk.next_layer
    let r := T.prefill_window chunk.next_layer last (chunk.stream_batch, tokens) state.layers
    let chunk := { chunk with stream_batch := r.1.1, next_layer := last }
    if last ≠ T.layers.length then .ok (false, chunk, { state with layers := r.2 })
    else
      .ok (true, chunk, { layers := r.2, token_count := state.token_count + chunk.row_count })

/-- One pass of the loop in `prefill_chunk_batch`. -/
def prefill_chunk_pass (tokens : List Token) (s : ModelPrefillChunk T × ModelDecodeState T) :
    Except String (Loop.Pass (ModelPrefillChunk T × ModelDecodeState T)) :=
  match T.advance_prefill_chunk_batch s.1 tokens s.2 with
  | .error e => .error e
  | .ok (true, s) => .ok (.leave s)
  | .ok (false, s) => .ok (.next s)

/-- `prefill_chunk_batch`. -/
def prefill_chunk_batch (tokens : List Token) (state : ModelDecodeState T) :
    Except String (List T.Stream × ModelDecodeState T) :=
  match T.begin_prefill_chunk_batch tokens with
  | .error e => .error e
  | .ok chunk =>
    match Loop.run (fun _ => true) (T.prefill_chunk_pass tokens) (T.layers.length + 1)
        (chunk, state) with
    | .error e => .error e
    | .ok s => .ok (s.1.stream_batch, s.2)

/-- The chunks of at most so many tokens, in order. -/
def split_chunks (chunk_rows : Nat) : Nat → List Token → List (List Token)
  | 0, _ => []
  | fuel + 1, tokens =>
    if tokens = [] then []
    else tokens.take chunk_rows :: split_chunks chunk_rows fuel (tokens.drop chunk_rows)

/-- Every pending chunk goes through the next window. -/
def advance_all : List (List Token × ModelPrefillChunk T) → ModelDecodeState T →
    Except String (List (List Token × ModelPrefillChunk T) × ModelDecodeState T)
  | [], state => .ok ([], state)
  | (tokens, chunk) :: pending, state =>
    match T.advance_prefill_chunk_batch chunk tokens state with
    | .error e => .error e
    | .ok (_, chunk, state) =>
      match advance_all pending state with
      | .error e => .error e
      | .ok (pending, state) => .ok ((tokens, chunk) :: pending, state)

/-- The guard of the loop in `prefill_chunks_layer_major`. -/
def front_is_pending (s : List (List Token × ModelPrefillChunk T) × ModelDecodeState T) : Bool :=
  match s.1 with
  | [] => false
  | item :: _ => item.2.next_layer < T.layers.length

/-- One pass of the loop in `prefill_chunks_layer_major`. -/
def layer_major_pass (s : List (List Token × ModelPrefillChunk T) × ModelDecodeState T) :
    Except String (Loop.Pass (List (List Token × ModelPrefillChunk T) × ModelDecodeState T)) :=
  match T.advance_all s.1 s.2 with
  | .error e => .error e
  | .ok s => .ok (.next s)

/-- `prefill_chunks_layer_major`. -/
def prefill_chunks_layer_major (tokens : List Token) (chunk_rows : Nat)
    (state : ModelDecodeState T) :
    Except String (List (List T.Stream) × ModelDecodeState T) :=
  if tokens = [] ∨ 8192 < tokens.length ∨ chunk_rows = 0 ∨ 2048 < chunk_rows then
    .error "layer-major prefill requires 1..8192 tokens and chunk_rows between 1 and 2048"
  else
    match (split_chunks chunk_rows tokens.length tokens).mapM fun tokens =>
        (T.begin_prefill_chunk_batch tokens).map fun chunk => (tokens, chunk) with
    | .error e => .error e
    | .ok pending =>
      match Loop.run T.front_is_pending T.layer_major_pass T.layers.length (pending, state) with
      | .error e => .error e
      | .ok s => .ok (s.1.map fun item => item.2.stream_batch, s.2)

/-- The chunks one after the other. -/
def prefill_chunks : List (List Token) → ModelDecodeState T →
    Except String (List (List T.Stream) × ModelDecodeState T)
  | [], state => .ok ([], state)
  | tokens :: chunks, state =>
    match T.prefill_chunk_batch tokens state with
    | .error e => .error e
    | .ok (streams, state) =>
      match prefill_chunks chunks state with
      | .error e => .error e
      | .ok (outputs, state) => .ok (streams :: outputs, state)

/-! ### Verification -/

/-- The verified rows, from their streams and the layers' states after each. -/
def verify_steps : Nat → List T.Stream → List T.LayerStates → List (TargetVerifyStep T)
  | count, stream :: streams, layers :: rest =>
    { logits := T.head stream
      pre_mixer_stream := stream
      state_after := { layers, token_count := count + 1 } } :: verify_steps (count + 1) streams rest
  | _, _, _ => []

/-- `forward_verify_layer_major_reference`. -/
def forward_verify_layer_major_reference (tokens : List Token) (origin : ModelDecodeState T) :
    Except String (List (TargetVerifyStep T)) :=
  if tokens = [] ∨ 25 < tokens.length then
    .error "target verify row count must be between 1 and 25"
  else
    let rows := tokens.map fun token => (T.initialize_stream token, token)
    let r := report (T.layers.map DecoderLayer.verify) rows origin.layers.1
    have hlength := length_of_mem_report (T.layers.map DecoderLayer.verify) rows origin.layers.1
      (by simpa using origin.layers.2)
    .ok (T.verify_steps origin.token_count (r.1.map Prod.fst)
      (r.2.attachWith _ fun row hrow => by simpa using hlength row hrow))

end Target

end Qwen38
