import Qwen38.Engine.Request

/-!
# The engine and its prefix cache

What `NativeEngine` is made of, and the first half of a request: the check of its
arguments, the cached prefix it goes on from, and the prefill of the rest of the prompt,
which feeds the MTP companion on the way.

The cache keeps one complete state in memory. A persistent store, where there is one, is
the tier below it (`Qwen38.PrefixCacheStore`): a lookup may throw, a save may be refused, and
entries are evicted. What it loads is something that was saved, as long as no save is broken
off between its two files (`Qwen38.PrefixCacheStore.Keeps`). The native backend is the third
party that may hold a state (`Qwen38.PersistentBackend`); what it is fed it consumes
(`Qwen38.PersistentBackend.Faithful`).
-/

namespace Qwen38

open Except (throw_if)

/-- `NativeEngineOptions`, with what the constructor checks. -/
structure NativeEngineOptions where
  max_generation_tokens : Nat := 4096
  prefill_chunk_rows : Nat := 64
  adaptive_prefill_chunks : Bool := true
  prefix_cache_max_tokens : Nat := 8192
  zero_accept_fallback_rounds : Nat := 2
  max_generation_tokens_pos : 0 < max_generation_tokens := by decide
  prefill_chunk_rows_pos : 0 < prefill_chunk_rows := by decide
  prefill_chunk_rows_le : prefill_chunk_rows ≤ 2048 := by decide
  zero_accept_fallback_rounds_pos : 0 < zero_accept_fallback_rounds := by decide

theorem default_generation_tokens_pos : 0 < 4096 := by decide

theorem default_chunk_rows_pos : 0 < 64 := by decide

theorem default_chunk_rows_le : 64 ≤ 2048 := by decide

theorem default_fallback_rounds_pos : 0 < 2 := by decide

/-- The environment variables a request reads, with their values when unset. -/
structure Environment where
  extend_prefix_cache : Bool := false
  persistent_anchor_tokens : Nat := 0
  persistent_min_tokens : Nat := 0
  persistent_share_mlx_weights : Bool := true
  batch_mtp_prefill : Bool := true
  batch_mtp_commit : Bool := true
  economic_mtp_fallback : Bool := true
  mtp_cumulative_profitability_cache : Bool := false
  context_copy_max_tokens : Nat := 16
  batch_context_tokens : Nat := 131072

/-! ### The native backend -/

/-- What a native greedy step answers: the best token, and the second best. -/
structure GreedyResult where
  token : Token
  alternative_token : Token

/-- `PersistentMetalBackend`, with the step of the model that prepares a state for it. -/
structure PersistentBackend (T : Target) where
  State : Type
  prepare_persistent_state : ModelDecodeState T → ModelDecodeState T
  import_state : ModelDecodeState T → State → Except String State
  export_state : State → ModelDecodeState T
  export_stream : State → T.Stream
  can_decode : State → Bool
  /-- A step, after a reset when asked. -/
  greedy_decode : Token → Bool → State → Except String (GreedyResult × State)

/-- A backend that consumes what it is fed, on the same model. -/
structure PersistentBackend.Faithful {T : Target} (backend : PersistentBackend T) where
  /-- The backend has consumed these tokens. -/
  Holds : backend.State → List Token → Prop
  import_state : ∀ {tokens s s'},
    backend.import_state (backend.prepare_persistent_state (T.after tokens)) s = .ok s' →
      Holds s' tokens
  greedy_decode : ∀ {tokens s s' token r}, Holds s tokens →
    backend.greedy_decode token false s = .ok (r, s') →
      Holds s' (tokens ++ [token]) ∧ r.token = T.next (tokens ++ [token])
  greedy_decode_reset : ∀ {s s' token r}, backend.greedy_decode token true s = .ok (r, s') →
    Holds s' [token] ∧ r.token = T.next [token]
  export_state : ∀ {tokens s}, Holds s tokens →
    backend.export_state s = T.after tokens ∧ backend.export_stream s = T.stream tokens

/-! ### The prefix cache -/

/-- `PrefixCacheEntry`. -/
structure PrefixCacheEntry (T : Target) where
  tokens : List Token
  target_state : ModelDecodeState T
  mtp_state : MtpDecodeState T
  previous_target_stream : Option T.Stream
  pending_mtp_streams : List T.Stream := []
  pending_mtp_tokens : List Token := []
  mtp_profitable : Option Bool := none
  mtp_profitability_current_token : Option Token := none
  mtp_cumulative_profitability_keep : Bool := false
  ssd_backed : Bool := false

/-- `PrefixCacheStore`, over what there is in its directory. A lookup may throw; a save may refuse
(`false`) or throw, and may evict. -/
structure PrefixCacheStore (T : Target) where
  Disk : Type
  /-- The directory that the constructor has made. -/
  created : Disk
  load_longest : List Token → Disk → Except String (Option (PrefixCacheEntry T)) × Disk
  save : PrefixCacheEntry T → Disk → Except String Bool × Disk

/-- A store that only loads what was saved, up to the mark that an entry is in the store. A save
that is torn, which leaves a state beside the tokens of another entry, breaks this. -/
structure PrefixCacheStore.Keeps {T : Target} (store : PrefixCacheStore T) where
  /-- The entry has been saved, and may still be there. -/
  Holds : store.Disk → PrefixCacheEntry T → Prop
  created : ∀ entry, ¬Holds store.created entry
  load_longest : ∀ {tokens disk result disk'}, store.load_longest tokens disk = (result, disk') →
    (∀ entry, Holds disk' entry → Holds disk entry) ∧
      ∀ entry, result = .ok (some entry) → Holds disk entry
  save : ∀ {entry disk result disk'}, store.save entry disk = (result, disk') →
    ∀ entry', Holds disk' entry' →
      Holds disk entry' ∨ ∃ backed, entry' = { entry with ssd_backed := backed }

/-- A store that keeps everything it is given. -/
def PrefixCacheStore.keeping (T : Target) : PrefixCacheStore T where
  Disk := List (PrefixCacheEntry T)
  created := []
  load_longest tokens disk :=
    (.ok (disk.foldl (fun best entry =>
      if entry.tokens.isPrefixOf tokens ∧
          (best.elim 0 fun best => best.tokens.length) < entry.tokens.length then some entry
      else best) none), disk)
  save entry disk := (.ok true, entry :: disk)

/-- `NativeEngine`. The backend is there when `persistent_enabled`, and the store of prefixes when
`ssd_enabled`. -/
structure NativeEngine (T : Target) where
  options : NativeEngineOptions := {}
  environment : Environment := {}
  tokenizer : Tokenizer
  sampler : Sampler T
  mtp_head : Option (QwenMtpHead T) := none
  persistent_enabled : Bool := false
  persistent_backend : PersistentBackend T
  ssd_enabled : Bool := false
  ssd_prefix_cache : PrefixCacheStore T := .keeping T
  end_of_sequence_token : Token
  chat_end_token : Token
  max_context_tokens : Nat
  /-- The checkpoint has packed vector-quantized experts. -/
  packed_vq : Bool := false

/-- What lives from one request to the next: the entry in memory and the directory of the
persistent store. -/
structure EngineState {T : Target} (engine : NativeEngine T) where
  prefix_cache : Option (PrefixCacheEntry T) := none
  disk : engine.ssd_prefix_cache.Disk := engine.ssd_prefix_cache.created

/-- `select_prefill_chunk_rows`. Its own check of the rows is the constructor's. -/
def select_prefill_chunk_rows (configured_rows prompt_rows : Nat) : Nat :=
  if configured_rows ≤ 256 ∨ prompt_rows ≤ 32768 then configured_rows
  else if configured_rows ≤ 512 ∧ prompt_rows ≤ 66048 then configured_rows
  else if 512 < configured_rows then 512
  else 128

/-- What a request goes on with after its prompt. -/
structure Prefilled (T : Target) where
  state : ModelDecodeState T
  mtp_state : MtpDecodeState T := {}
  previous_target_stream : Option T.Stream := none
  prefill_offset : Nat := 0
  cached_mtp_profitability : Option Bool := none

namespace NativeEngine

variable {T : Target} (engine : NativeEngine T)

/-- `is_stop_token`. -/
def is_stop_token (token : Token) : Bool :=
  token = engine.end_of_sequence_token ∨ token = engine.chat_end_token

/-- The rows of a prefill chunk, for a prompt of so many rows. -/
def request_prefill_chunk (prefill_rows : Nat) : Nat :=
  if engine.options.adaptive_prefill_chunks then
    select_prefill_chunk_rows engine.options.prefill_chunk_rows prefill_rows
  else engine.options.prefill_chunk_rows

/-! ### The arguments -/

/-- The check of the arguments. It returns the tokens of the prompt. -/
def validate (request : BatchRequest) : Except String (List Token) := do
  let limit := engine.options.max_generation_tokens
  throw_if (request.max_tokens = 0 ∨ limit < request.max_tokens)
    ("max_tokens must be between 1 and the configured generation limit (" ++ toString limit ++ ")")
  throw_if request.sampling.Invalid
    ("sampling requires temperature >= 0, top_p in (0, 1], top_k in 1..256, " ++
      "and frequency_penalty in [0, 2]")
  let prompt_tokens := engine.tokenizer.encode request.prompt
  throw_if (prompt_tokens = []) "prompt produced no tokens"
  let context_limit := engine.max_context_tokens
  throw_if (context_limit < prompt_tokens.length ∨
      context_limit - prompt_tokens.length < request.max_tokens)
    ("prompt and max_tokens exceed the model context limit (" ++ toString context_limit ++
      " tokens)")
  return prompt_tokens

/-! ### The cached prefix -/

/-- The store is asked when the entry in memory does not fit. That entry is dropped first, so it is
gone also where the lookup throws. -/
def load_stored (prefill_tokens : List Token) (st : EngineState engine) :
    Except String Unit × EngineState engine :=
  if engine.ssd_enabled ∧
      ¬(st.prefix_cache.any fun entry => entry.tokens.isPrefixOf prefill_tokens) then
    match engine.ssd_prefix_cache.load_longest prefill_tokens st.disk with
    | (.error e, disk) => (.error e, { prefix_cache := none, disk })
    | (.ok stored, disk) =>
      (.ok (), { prefix_cache := stored.map fun entry => { entry with ssd_backed := true }, disk })
  else (.ok (), st)

/-- What the request takes over from a cached entry. -/
def resume_entry (prompt_tokens : List Token) (entry : PrefixCacheEntry T) :
    Except String (Prefilled T) := do
  let mtp_state ←
    if engine.mtp_head.isSome then
      entry.mtp_state.consume_pending_mtp_rows entry.pending_mtp_streams entry.pending_mtp_tokens
    else pure {}
  let exact := entry.tokens.length = prompt_tokens.length - 1 ∧
    entry.mtp_profitability_current_token = prompt_tokens.getLast?
  return {
    state := entry.target_state
    mtp_state
    previous_target_stream := entry.previous_target_stream
    prefill_offset := entry.tokens.length
    cached_mtp_profitability := if exact then entry.mtp_profitable else none }

/-- The cached prefix, and the cache after it: an old checkpoint that is being extended is
dropped when the store has it. -/
def resume (prompt_tokens : List Token) (st : EngineState engine) :
    Except String (Prefilled T) × EngineState engine :=
  let prefill_tokens := prompt_tokens.dropLast
  match engine.load_stored prefill_tokens st with
  | (.error e, st) => (.error e, st)
  | (.ok (), st) =>
    match st.prefix_cache with
    | none => (.ok { state := T.make_state }, st)
    | some entry =>
      if entry.tokens.isPrefixOf prefill_tokens then
        match engine.resume_entry prompt_tokens entry with
        | .error e => (.error e, st)
        | .ok prefilled =>
          if engine.ssd_enabled ∧ entry.ssd_backed ∧
              entry.tokens.length < prefill_tokens.length then
            (.ok prefilled, { st with prefix_cache := none })
          else (.ok prefilled, st)
      else (.ok { state := T.make_state }, st)

/-! ### Prefill -/

/-- `slice_sequence_rows`. -/
def slice_sequence_rows (batch : List T.Stream) (first last : Nat) :
    Except String (List T.Stream) := do
  throw_if (last ≤ first ∨ batch.length < last) "invalid prefill stream slice"
  return (batch.take last).drop first

/-- The rows of a stream batch that the companion takes, all at once. -/
def consume_target_rows (prompt_tokens : List Token) (stream_batch : List T.Stream)
    (offset count : Nat) (s : Prefilled T) : Except String (MtpDecodeState T) :=
  let take (first_token : Nat) (target_rows : List T.Stream) :=
    s.mtp_state.consume_prefill_batch target_rows
      ((prompt_tokens.drop first_token).take (offset + count - first_token)) first_token
  match s.previous_target_stream with
  | some previous =>
    if count = 1 then take offset [previous]
    else do
      let target_rows ← slice_sequence_rows stream_batch 0 (count - 1)
      take offset (previous :: target_rows)
  | none =>
    if offset + 1 < offset + count then do
      let target_rows ← slice_sequence_rows stream_batch 0 (count - 1)
      take (offset + 1) target_rows
    else .ok s.mtp_state

/-- One row of a stream batch. -/
def consume_target_row (prompt_tokens : List Token) (stream_batch : List T.Stream)
    (offset : Nat) (s : Prefilled T) (row : Nat) : Except String (Prefilled T) := do
  let mtp_state ←
    match engine.mtp_head, s.previous_target_stream with
    | some _, some previous =>
      s.mtp_state.consume_decode previous (prompt_tokens.getD (offset + row) 0) (offset + row)
    | _, _ => pure s.mtp_state
  let last ← slice_sequence_rows stream_batch row (row + 1)
  return { s with mtp_state, previous_target_stream := last.head? }

/-- `consume_target_batch`. -/
def consume_target_batch (prompt_tokens : List Token) (stream_batch : List T.Stream)
    (offset count : Nat) (s : Prefilled T) : Except String (Prefilled T) :=
  if engine.mtp_head.isSome ∧ engine.environment.batch_mtp_prefill then do
    let mtp_state ← consume_target_rows prompt_tokens stream_batch offset count s
    let last ← slice_sequence_rows stream_batch (count - 1) count
    return { s with mtp_state, previous_target_stream := last.head? }
  else
    (List.range count).foldlM (engine.consume_target_row prompt_tokens stream_batch offset) s

/-- At most 512 rows of a stream batch. -/
def consume_stream_piece (prompt_tokens : List Token) (stream_batch : List T.Stream)
    (offset count : Nat) (s : Prefilled T) (index : Nat) : Except String (Prefilled T) := do
  let batch_offset := index * 512
  let batch_count := min 512 (count - batch_offset)
  let batch ←
    if batch_offset = 0 ∧ batch_count = count then pure stream_batch
    else slice_sequence_rows stream_batch batch_offset (batch_offset + batch_count)
  engine.consume_target_batch prompt_tokens batch (offset + batch_offset) batch_count s

/-- `consume_stream_batch`. -/
def consume_stream_batch (prompt_tokens : List Token) (stream_batch : List T.Stream)
    (offset count : Nat) (s : Prefilled T) : Except String (Prefilled T) :=
  (List.range ((count + 511) / 512)).foldlM
    (engine.consume_stream_piece prompt_tokens stream_batch offset count) s

/-- The chunks of the prompt one after the other. -/
def prefill_chunk_major (prompt_tokens : List Token) (chunk_rows : Nat) :
    Nat → Nat → Prefilled T → Except String (Prefilled T)
  | 0, _, s => .ok s
  | fuel + 1, offset, s =>
    let prefill_rows := prompt_tokens.length - 1
    if offset < prefill_rows then do
      let count := min chunk_rows (prefill_rows - offset)
      let (stream_batch, state) ←
        T.prefill_chunk_batch ((prompt_tokens.drop offset).take count) s.state
      let s ← engine.consume_stream_batch prompt_tokens stream_batch offset count { s with state }
      prefill_chunk_major prompt_tokens chunk_rows fuel (offset + chunk_rows) s
    else .ok s

/-- The stream batches of a window. Each is taken for a chunk of full size, up to the end of
the prompt. -/
def consume_outputs (prompt_tokens : List Token) (chunk_rows : Nat) :
    List (List T.Stream) → Nat → Prefilled T → Except String (Prefilled T)
  | [], _, s => .ok s
  | output :: outputs, output_offset, s => do
    let output_count := min chunk_rows (prompt_tokens.length - 1 - output_offset)
    let s ← engine.consume_stream_batch prompt_tokens output output_offset output_count s
    consume_outputs prompt_tokens chunk_rows outputs (output_offset + output_count) s

/-- The prompt in windows of 8192 rows, each layer-major. -/
def prefill_layer_major (prompt_tokens : List Token) (chunk_rows : Nat) :
    Nat → Nat → Prefilled T → Except String (Prefilled T)
  | 0, _, s => .ok s
  | fuel + 1, window_offset, s =>
    let window_rows := 8192
    let prefill_rows := prompt_tokens.length - 1
    if window_offset < prefill_rows then do
      let count := min window_rows (prefill_rows - window_offset)
      let (outputs, state) ← T.prefill_chunks_layer_major
        ((prompt_tokens.drop window_offset).take count) chunk_rows s.state
      let s ← engine.consume_outputs prompt_tokens chunk_rows outputs window_offset { s with state }
      prefill_layer_major prompt_tokens chunk_rows fuel (window_offset + window_rows) s
    else .ok s

/-- The prefill of what the cache does not have. -/
def prefill (prompt_tokens : List Token) (s : Prefilled T) : Except String (Prefilled T) :=
  let prefill_rows := prompt_tokens.length - 1
  let chunk_rows := engine.request_prefill_chunk prefill_rows
  let packed_vq_layer_major := engine.mtp_head.isNone ∧
    chunk_rows < prefill_rows - s.prefill_offset ∧ engine.packed_vq
  if packed_vq_layer_major then
    engine.prefill_layer_major prompt_tokens chunk_rows prefill_rows s.prefill_offset s
  else engine.prefill_chunk_major prompt_tokens chunk_rows prefill_rows s.prefill_offset s

end NativeEngine

end Qwen38
