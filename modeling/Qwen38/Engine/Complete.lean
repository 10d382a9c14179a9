import Qwen38.Engine.Decode

/-!
# A request from start to end

`complete_impl`: the arguments are checked, the cached prefix is taken up, the prompt is
prefilled and cached, the loop runs (`Qwen38.NativeEngine.decode_loop`), and what is left
goes into the cache. What the engine keeps is passed along also where the request throws,
so that requests can follow one another (`Qwen38.NativeEngine.complete_impl`).
-/

namespace Qwen38

open Except (throw_if)

/-- The prompt's entry, on its way to the persistent store. -/
structure PromptCache {T : Target} (engine : NativeEngine T) where
  engine_state : EngineState engine
  prefix_cache_changed : Bool := false
  /-- `prompt_cache_state`: the store has not taken it yet. -/
  unsaved : Option (PrefixCacheEntry T) := none

namespace NativeEngine

variable {T : Target} (engine : NativeEngine T) (request : BatchRequest)

/-! ### The entry of the prompt -/

/-- The prompt goes into the cache, unless it is there. -/
def cache_prompt (prompt_tokens : List Token) (prefilled : Prefilled T) (st : EngineState engine) :
    PromptCache engine :=
  let prefill_rows := prompt_tokens.length - 1
  let max_tokens := engine.options.prefix_cache_max_tokens
  if max_tokens ≠ 0 ∧ prefill_rows ≠ 0 ∧ prefill_rows ≤ max_tokens ∧
      (st.prefix_cache.isNone ∨ prefilled.prefill_offset ≠ prefill_rows) then
    let entry : PrefixCacheEntry T := {
      tokens := prompt_tokens.take prefill_rows
      target_state := prefilled.state
      mtp_state := if engine.mtp_head.isSome then prefilled.mtp_state else {}
      previous_target_stream := prefilled.previous_target_stream }
    if engine.ssd_enabled then
      match engine.ssd_prefix_cache.save entry st.disk with
      | (.ok true, disk) =>
        { engine_state := { prefix_cache := none, disk }, prefix_cache_changed := true }
      | (_, disk) =>
        { engine_state := { prefix_cache := some entry, disk }
          prefix_cache_changed := true
          unsaved := some entry }
    else { engine_state := { st with prefix_cache := some entry }, prefix_cache_changed := true }
  else { engine_state := st }

/-! ### The start of the loop -/

/-- `persistent_anchor_remaining`. -/
def anchor_tokens : Except String Nat :=
  if engine.persistent_enabled then do
    throw_if (64 < engine.environment.persistent_anchor_tokens)
      "QWEN38_PERSISTENT_ANCHOR_TOKENS must be 0..64"
    return min engine.environment.persistent_anchor_tokens request.max_tokens
  else .ok 0

/-- The native backend takes over before the first token. Behind an empty prompt nothing is
imported: the first step will reset the backend. -/
def start_persistent (s : DecodeState engine) : Except String (DecodeState engine) :=
  if ¬request.sampling.serial_only ∧ engine.persistent_enabled ∧ engine.mtp_head.isNone ∧
      s.persistent_anchor_remaining = 0 then
    if ¬s.persistent_reset then engine.activate_persistent s
    else if engine.environment.persistent_share_mlx_weights then do
      let persistent ← engine.prepare_shared_weights s.persistent
      return { s with persistent, persistent_active := true }
    else .ok s
  else .ok s

/-- The checks of the configuration that come after the prompt. -/
def check_configuration : Except String Unit := do
  throw_if (engine.environment.context_copy_max_tokens < 4 ∨
      24 < engine.environment.context_copy_max_tokens)
    "QWEN38_CONTEXT_COPY_MAX_TOKENS must be an integer from 4 to 24"
  throw_if (engine.persistent_enabled ∧ 64 < engine.environment.persistent_min_tokens)
    "QWEN38_PERSISTENT_MIN_TOKENS must be 0..64"
  throw_if (request.sampling.thinking_budget_tokens ≠ 0 ∧
      (engine.thinking_close_tokens request).length ≠ 1)
    "Qwen thinking close marker must encode to one token"

/-- The variables of the loop before its first pass. -/
def start_decode (prompt_tokens : List Token) (prefilled : Prefilled T)
    (persistent : engine.persistent_backend.State) : Except String (DecodeState engine) := do
  let persistent_anchor_remaining ← engine.anchor_tokens request
  let s ← engine.start_persistent request {
    state := prefilled.state
    mtp_state := prefilled.mtp_state
    previous_target_stream := prefilled.previous_target_stream
    current := prompt_tokens.getLastD 0
    random := engine.sampler.seeded request.sampling.seed
    persistent
    persistent_reset := prompt_tokens.length - 1 = 0 ∧ persistent_anchor_remaining = 0
    persistent_anchor_remaining
    mtp_profitable := !request.sampling.serial_only && engine.mtp_head.isSome &&
      prefilled.cached_mtp_profitability.getD true }
  engine.check_configuration request
  return s

/-! ### The end -/

/-- `cache_completed_mtp_as_profitable`. -/
def cache_completed_mtp_as_profitable (s : DecodeState engine) : Bool :=
  if engine.environment.mtp_cumulative_profitability_cache then
    cache_mtp_as_profitable s.mtp_rounds s.mtp_accepted s.mtp_fallbacks
  else s.mtp_fallbacks = 0

/-- The entry of the prompt learns whether speculation paid. -/
def note_profitability (prompt_tokens : List Token) (s : DecodeState engine)
    (cache : PromptCache engine) : PromptCache engine :=
  match cache.engine_state.prefix_cache with
  | none => cache
  | some entry =>
    if entry.tokens = prompt_tokens.dropLast ∧ 2 ≤ s.mtp_rounds then
      let mtp_profitable := engine.cache_completed_mtp_as_profitable s
      { cache with
        engine_state := { cache.engine_state with
          prefix_cache := some { entry with
            mtp_profitable := some mtp_profitable
            mtp_profitability_current_token := prompt_tokens.getLast?
            mtp_cumulative_profitability_keep := s.mtp_fallbacks ≠ 0 ∧ mtp_profitable } }
        prefix_cache_changed := true }
    else cache

/-- The final export, for the cache. -/
def export_for_cache (s : DecodeState engine) : DecodeState engine :=
  if s.persistent_active ∧ engine.extend_cache_enabled ∧
      engine.options.prefix_cache_max_tokens ≠ 0 ∧
      s.state.token_count ≤ engine.options.prefix_cache_max_tokens then
    { s with
      state := engine.persistent_backend.export_state s.persistent
      previous_target_stream := some (engine.persistent_backend.export_stream s.persistent) }
  else s

/-- `target_matches_output`. -/
def target_matches_output (prompt_tokens : List Token) (s : DecodeState engine) : Bool :=
  let complete_token_count := prompt_tokens.length + s.tokens.length
  if s.stopped_on_terminator then s.state.token_count = complete_token_count
  else s.state.token_count + 1 = complete_token_count

/-- `mtp_matches_output`. -/
def mtp_matches_output (s : DecodeState engine) : Bool :=
  let pending_mtp_matches_output :=
    s.mtp_state.pending_mtp_matches_target s.pending_mtp_streams.length s.state.token_count
  engine.mtp_head.isNone || s.mtp_cache_extendable &&
    (s.mtp_state.mtp_state_matches_target s.state.token_count || pending_mtp_matches_output)

/-- The state the request leaves goes into the cache. -/
def extend_cache (prompt_tokens : List Token) (s : DecodeState engine) (cache : PromptCache engine) :
    PromptCache engine :=
  match s.previous_target_stream with
  | none => cache
  | some previous =>
    if engine.extend_cache_enabled ∧ engine.options.prefix_cache_max_tokens ≠ 0 ∧
        engine.target_matches_output prompt_tokens s ∧ engine.mtp_matches_output s ∧
        s.state.token_count ≤ engine.options.prefix_cache_max_tokens then
      let profitability :=
        if 2 ≤ s.mtp_rounds then some (engine.cache_completed_mtp_as_profitable s) else none
      { cache with
        engine_state := { cache.engine_state with
          prefix_cache := some {
            tokens := (prompt_tokens ++ s.tokens).take s.state.token_count
            target_state := s.state
            mtp_state := if engine.mtp_head.isSome then s.mtp_state else {}
            previous_target_stream := some previous
            pending_mtp_streams := s.pending_mtp_streams
            pending_mtp_tokens := s.pending_mtp_tokens
            mtp_profitable := profitability
            mtp_profitability_current_token :=
              if profitability.isSome then some s.current else none
            mtp_cumulative_profitability_keep :=
              s.mtp_fallbacks ≠ 0 ∧ profitability.getD false } }
        prefix_cache_changed := true }
    else cache

/-- The entry in memory, marked as saved or not. -/
def mark_saved (saved : Bool) (st : EngineState engine) : EngineState engine :=
  { st with prefix_cache := st.prefix_cache.map fun entry => { entry with ssd_backed := saved } }

/-- A save of an entry; `none` when it throws. -/
def save_entry (entry : PrefixCacheEntry T) (st : EngineState engine) :
    Option Bool × EngineState engine :=
  let (saved, disk) := engine.ssd_prefix_cache.save entry st.disk
  (saved.toOption, { st with disk })

/-- The entry of the prompt, once more. -/
def save_prompt (unsaved : PrefixCacheEntry T) (st : EngineState engine) :
    Option Bool × EngineState engine :=
  let same := st.prefix_cache.any fun entry => entry.tokens = unsaved.tokens
  let st := if same then engine.mark_saved false st else st
  match engine.save_entry unsaved st with
  | (none, st) => (none, st)
  | (some saved, st) => (some saved, if same then engine.mark_saved saved st else st)

/-- The entry in memory, if it is another one than the prompt's. -/
def save_current (unsaved : Option (PrefixCacheEntry T)) (st : EngineState engine) :
    EngineState engine :=
  match st.prefix_cache with
  | none => st
  | some entry =>
    if unsaved.any fun unsaved => entry.tokens = unsaved.tokens then st
    else
      let st := engine.mark_saved false st
      match engine.save_entry { entry with ssd_backed := false } st with
      | (none, st) => st
      | (some saved, st) => engine.mark_saved saved st

/-- What has changed goes to the store; an entry the store has taken leaves the memory. -/
def persist_caches (cache : PromptCache engine) : EngineState engine :=
  if engine.ssd_enabled then
    let st :=
      if cache.prefix_cache_changed then
        match cache.unsaved with
        | none => engine.save_current none cache.engine_state
        | some unsaved =>
          match engine.save_prompt unsaved cache.engine_state with
          | (none, st) => st
          | (some _, st) => engine.save_current (some unsaved) st
      else cache.engine_state
    if st.prefix_cache.any fun entry => entry.ssd_backed then { st with prefix_cache := none }
    else st
  else cache.engine_state

/-- The result, and what stays. -/
def finish (prompt_tokens : List Token) (prefilled : Prefilled T) (s : DecodeState engine)
    (cache : PromptCache engine) : GenerationResult × EngineState engine :=
  let cache := engine.note_profitability prompt_tokens s cache
  let s := engine.export_for_cache s
  let cache := engine.extend_cache prompt_tokens s cache
  let (refused, text) := s.text.flush request.on_delta
  ({ text := engine.tokenizer.decode s.tokens
     tokens := s.tokens
     prompt_tokens := prompt_tokens.length
     cached_prompt_tokens := prefilled.prefill_offset
     finish_reason := if refused then .cancelled else s.finish_reason
     mtp_rounds := s.mtp_rounds
     mtp_accepted := s.mtp_accepted
     mtp_fallbacks := s.mtp_fallbacks
     thinking_budget_forced := s.thinking_budget_forced
     deltas := text.deltas }, engine.persist_caches cache)

/-! ### The request -/

variable (proposals : Nat → Proposal)

/-- Up to the first pass of the loop: its variables, with what is in the caches by then. -/
def begin_request (persistent : engine.persistent_backend.State) (prompt_tokens : List Token)
    (st : EngineState engine) :
    Except String (Prefilled T × DecodeState engine × PromptCache engine) × EngineState engine :=
  match engine.resume prompt_tokens st with
  | (.error e, st) => (.error e, st)
  | (.ok resumed, st) =>
    match engine.prefill prompt_tokens resumed with
    | .error e => (.error e, st)
    | .ok prefilled =>
      let cache := engine.cache_prompt prompt_tokens prefilled st
      match engine.start_decode request prompt_tokens prefilled persistent with
      | .error e => (.error e, cache.engine_state)
      | .ok s => (.ok (prefilled, s, cache), cache.engine_state)

/-- `complete_impl`. The native backend comes in the state an earlier request left it in. -/
def complete_impl (persistent : engine.persistent_backend.State) (st : EngineState engine) :
    Except String GenerationResult × EngineState engine :=
  match engine.validate request with
  | .error e => (.error e, st)
  | .ok prompt_tokens =>
    match engine.begin_request request persistent prompt_tokens st with
    | (.error e, st) => (.error e, st)
    | (.ok (prefilled, s, cache), st) =>
      match engine.decode_loop request proposals s with
      | .error e => (.error e, st)
      | .ok s =>
        let (result, st) := engine.finish request prompt_tokens prefilled s cache
        (.ok result, st)

end NativeEngine

end Qwen38
