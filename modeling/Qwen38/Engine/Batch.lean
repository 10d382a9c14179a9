import Qwen38.Engine.Engine

/-!
# Continuous batches

The pieces of `complete_batch`: the checks that admit a group and a refill, a session from
its start to its result, the shared decode step, and the counters of the reserved tokens.
They are functions of the sessions; the order in which they run, and what a client or the
engine may do in between, is the executor's (`Qwen38.Executor.Step`).

A request comes with the promise that its two callbacks resolve. The counters of reserved
tokens are machine words.
-/

namespace Qwen38

open Except (throw_if)

/-- The number of values of a `std::size_t`. -/
def word : Nat := 2 ^ 64

/-- A request of a batch with the promise of its `on_complete` and `on_error`. -/
structure BoundRequest where
  promise : Nat
  request : BatchRequest

/-- An exception, with the request in whose own processing it was raised, if it was. -/
structure Thrown where
  raised_by : Option Nat
  message : String
  deriving DecidableEq

/-- `Session`. -/
structure Session {T : Target} (engine : NativeEngine T) where
  bound : BoundRequest
  prompt_tokens : List Token
  state : ModelDecodeState T
  tokens : List Token := []
  finish_reason : FinishReason := .length
  random : engine.sampler.Random
  current : Token
  text : TextStream := {}
  pending_prefill : Option (ModelPrefillChunk T) := none
  prefill_offset : Nat := 0
  prefill_rows : Nat
  prefill_chunk_rows : Nat
  current_prefill_rows : Nat := 0
  active : Bool := true
  ready : Bool := false
  reserved_tokens : Nat

/-- The tokens a request reserves. -/
def BatchRequest.capacity (request : BatchRequest) (prompt_tokens : List Token) : Nat :=
  (prompt_tokens.length + request.max_tokens) % word

/-- The chunks of a prompt, one after the other, for the state only. -/
def Target.prefill_prompt (T : Target) (prompt_tokens : List Token) (chunk_rows : Nat) :
    Nat → Nat → ModelDecodeState T → Except String (ModelDecodeState T)
  | 0, _, state => .ok state
  | fuel + 1, offset, state =>
    let prefill_rows := prompt_tokens.length - 1
    if offset < prefill_rows then do
      let count := min chunk_rows (prefill_rows - offset)
      let (_, state) ← T.prefill_chunk_batch ((prompt_tokens.drop offset).take count) state
      prefill_prompt T prompt_tokens chunk_rows fuel (offset + chunk_rows) state
    else .ok state

namespace NativeEngine

variable {T : Target} (engine : NativeEngine T)

/-! ### Admission -/

/-- The checks of a request, with the texts of their errors. -/
def check_batched (limit_text sampling_text context_text : String) (request : BatchRequest) :
    Except String (List Token) := do
  throw_if (request.max_tokens = 0 ∨ engine.options.max_generation_tokens < request.max_tokens)
    limit_text
  throw_if request.sampling.Invalid sampling_text
  let prompt_tokens := engine.tokenizer.encode request.prompt
  throw_if (prompt_tokens = []) "prompt produced no tokens"
  let context_limit := engine.max_context_tokens
  throw_if (context_limit < prompt_tokens.length ∨
    context_limit - prompt_tokens.length < request.max_tokens) context_text
  return prompt_tokens

/-- The checks of a request in the group that a batch starts with. -/
def check_initial : BatchRequest → Except String (List Token) :=
  engine.check_batched "batched max_tokens is outside the configured limit"
    "invalid sampling options in continuous decode batch"
    "batched prompt and max_tokens exceed model context"

/-- The checks of a request that is taken into a running batch. -/
def check_refill : BatchRequest → Except String (List Token) :=
  engine.check_batched "refill max_tokens is outside the configured limit"
    "invalid sampling options in batch refill"
    "refill prompt and max_tokens exceed model context"

/-- The requests of a group with their tokens, and `aggregate_capacity`. -/
def tokenize_group : List BoundRequest → Nat →
    Except Thrown (List (BoundRequest × List Token) × Nat)
  | [], aggregate_capacity => .ok ([], aggregate_capacity)
  | bound :: rest, aggregate_capacity =>
    match engine.check_initial bound.request with
    | .error message => .error ⟨some bound.promise, message⟩
    | .ok prompt_tokens =>
      match tokenize_group rest
          ((aggregate_capacity + bound.request.capacity prompt_tokens) % word) with
      | .error e => .error e
      | .ok (tokenized, aggregate_capacity) =>
        .ok ((bound, prompt_tokens) :: tokenized, aggregate_capacity)

/-- `aggregate_limit`, from the environment. -/
def aggregate_limit : Except Thrown Nat :=
  let limit := min engine.environment.batch_context_tokens (word - 1)
  if limit < 4096 then .error ⟨none, "QWEN38_BATCH_CONTEXT_TOKENS must be at least 4096"⟩
  else .ok limit

/-- What is done with a group: its requests run one by one, or together with their tokens. -/
inductive Admission
  | apart
  | together (tokenized : List (BoundRequest × List Token)) (aggregate_limit : Nat)

/-- What `complete_batch` does before any session starts. -/
def admit_group (group : List BoundRequest) : Except Thrown Admission := do
  throw_if (group = [] ∨ 4 < group.length)
    ⟨none, "continuous decode batch must contain 1 to 4 requests"⟩
  if group.length = 1 ∨
      (group.any fun bound => bound.request.sampling.thinking_budget_tokens ≠ 0) then
    return .apart
  else
    let (tokenized, aggregate_capacity) ← engine.tokenize_group group 0
    let limit ← engine.aggregate_limit
    return if limit < aggregate_capacity then .apart else .together tokenized limit

/-! ### The prompt of a session -/

/-- A session before its prompt. -/
def new_session (bound : BoundRequest) (prompt_tokens : List Token) : Session engine where
  bound
  prompt_tokens
  state := T.make_state
  random := engine.sampler.seeded bound.request.sampling.seed
  current := prompt_tokens.getLastD 0
  prefill_rows := prompt_tokens.length - 1
  prefill_chunk_rows := engine.request_prefill_chunk (prompt_tokens.length - 1)
  ready := prompt_tokens.length - 1 = 0
  reserved_tokens := bound.request.capacity prompt_tokens

/-- `initialize_session`: the session is ready, or its prompt waits (`incremental_prefill`). -/
def initialize_session (bound : BoundRequest) (prompt_tokens : List Token)
    (incremental_prefill : Bool) : Except String (Session engine) :=
  let session := engine.new_session bound prompt_tokens
  if session.prefill_rows = 0 ∨ incremental_prefill then .ok session
  else do
    let state ← T.prefill_prompt prompt_tokens session.prefill_chunk_rows
      session.prefill_rows 0 session.state
    return { session with state, ready := true }

/-- The chunk that `advance_pending_prefill` goes on with. -/
def begin_pending_prefill (session : Session engine) : Except String (Session engine) :=
  match session.pending_prefill with
  | some _ => .ok session
  | none => do
    let current_prefill_rows :=
      min session.prefill_chunk_rows (session.prefill_rows - session.prefill_offset)
    let chunk ← T.begin_prefill_chunk_batch
      ((session.prompt_tokens.drop session.prefill_offset).take current_prefill_rows)
    return { session with current_prefill_rows, pending_prefill := some chunk }

/-- `advance_pending_prefill`. -/
def advance_pending_prefill (session : Session engine) : Except String (Session engine) := do
  let session ← engine.begin_pending_prefill session
  match session.pending_prefill with
  | none => return session
  | some chunk =>
    let tokens :=
      (session.prompt_tokens.drop session.prefill_offset).take session.current_prefill_rows
    let (chunk_done, chunk, state) ← T.advance_prefill_chunk_batch chunk tokens session.state
    let session :=
      if chunk_done then
        { session with
          state
          prefill_offset := session.prefill_offset + session.current_prefill_rows
          current_prefill_rows := 0
          pending_prefill := none }
      else { session with state, pending_prefill := some chunk }
    return { session with ready := session.prefill_offset = session.prefill_rows }

/-! ### The shared step -/

/-- The slots of the sessions that decode. -/
def decode_rows (sessions : List (Session engine)) : List Nat :=
  (List.range sessions.length).filter fun slot => (sessions[slot]?).any fun s => s.ready

/-- The sessions with the states after a step, slot by slot. -/
def put_states : List (Nat × ModelDecodeState T) → List (Session engine) → List (Session engine)
  | [], sessions => sessions
  | (slot, state) :: rows, sessions =>
    put_states rows (sessions.modify slot fun session => { session with state })

/-- One step of all sessions that are ready: the sessions with their states after it, and the
logits for each of their slots. -/
def step_sessions (sessions : List (Session engine)) :
    Except String (List (Session engine) × List (Nat × T.Logits)) :=
  let slots := engine.decode_rows sessions
  let ready := sessions.filter fun session => session.ready
  if ready = [] then .ok (sessions, [])
  else do
    let steps ← T.forward_decode_capture_multi (ready.map Session.current) (ready.map Session.state)
    return (engine.put_states (slots.zip (steps.map Prod.snd)) sessions,
      slots.zip (steps.map fun step => step.1.logits))

/-- A generated token goes to the client: whether it is refused, with the stream. -/
def stream_token (on_delta : Option TextSink) (token : Token) (text : TextStream) :
    Bool × TextStream :=
  match on_delta with
  | none => (false, text)
  | some sink =>
    let pending := text.pending_stream_bytes ++ engine.tokenizer.decode [token]
    let complete := complete_utf8_prefix pending
    if complete ≠ 0 then
      let text := { text with pending_stream_bytes := pending }.send sink (pending.take complete)
      (!text.stream_connected, { text with pending_stream_bytes := pending.drop complete })
    else (false, { text with pending_stream_bytes := pending })

/-- What a session does with its next token. -/
def take_token (next : Token) (session : Session engine) : Session engine :=
  if engine.is_stop_token next then { session with finish_reason := .stop, active := false }
  else
    let streamed := engine.stream_token session.bound.request.on_delta next session.text
    let tokens := session.tokens ++ [next]
    if streamed.1 then
      { session with tokens, text := streamed.2, finish_reason := .cancelled, active := false }
    else
      { session with
        tokens
        text := streamed.2
        active := session.active && tokens.length ≠ session.bound.request.max_tokens }

/-- What a session does with its row of logits. -/
def take_row (logits : T.Logits) (session : Session engine) : Session engine :=
  let sampled := engine.sampler.sample_token session.bound.request.sampling logits session.tokens
    session.random
  engine.take_token sampled.1 { session with current := sampled.1, random := sampled.2 }

/-! ### The end of a session -/

/-- The bytes that still wait go out, unless the client has cancelled. -/
def flush_session (session : Session engine) : Session engine :=
  match session.bound.request.on_delta with
  | none => session
  | some sink =>
    if session.finish_reason ≠ .cancelled ∧ session.text.pending_stream_bytes ≠ [] then
      let text := session.text.send sink session.text.pending_stream_bytes
      { session with
        text
        finish_reason := if text.stream_connected then session.finish_reason else .cancelled }
    else session

/-- The result of a finished session. -/
def session_result (session : Session engine) : GenerationResult :=
  let session := engine.flush_session session
  { text := engine.tokenizer.decode session.tokens
    tokens := session.tokens
    prompt_tokens := session.prompt_tokens.length
    finish_reason := session.finish_reason
    deltas := session.text.deltas }

/-- The first session whose prompt waits. -/
def pending_slot (sessions : List (Session engine)) : Option Nat :=
  sessions.findIdx? fun session => session.active && !session.ready

end NativeEngine

end Qwen38
