import Qwen38.Engine.Engine

/-!
# The decode loop

The loop of `complete_impl`. Every pass hands the state back from the native backend when
that is full, begins to close the thinking when its budget is used up, and then takes
either one serial step or one speculative round.

A serial step is native when the native backend is active and no anchor token is left, and
a step of the MLX model otherwise. Where ownership changes, the state left behind is an
empty one that only keeps its count (`Qwen38.NativeEngine.activate_persistent`).

Which drafts a round verifies is not decided here: a run is given a proposal for each of
its rounds.
-/

namespace Qwen38

open Except (throw_if)

/-- Where the drafts of a round come from, within the bounds of the policies that choose
them. -/
inductive Proposal
  | learned (draft_depth : Nat) (h : 2 ≤ draft_depth ∧ draft_depth ≤ 4)
  | history (drafts : List Token) (h : 2 ≤ drafts.length ∧ drafts.length ≤ 24)
  | context_copy (drafts : List Token) (h : 2 ≤ drafts.length ∧ drafts.length ≤ 24)

/-- The round drafts with the companion. -/
def Proposal.isLearned : Proposal → Bool
  | .learned _ _ => true
  | _ => false

/-- The variables of the loop. -/
structure DecodeState {T : Target} (engine : NativeEngine T) where
  state : ModelDecodeState T
  mtp_state : MtpDecodeState T
  previous_target_stream : Option T.Stream
  current : Token
  tokens : List Token := []
  finish_reason : FinishReason := .length
  stopped_on_terminator : Bool := false
  text : TextStream := {}
  random : engine.sampler.Random
  forced_tokens : List Token := []
  thinking_closed : Bool := false
  thinking_intervention_attempted : Bool := false
  thinking_budget_forced : Bool := false
  persistent : engine.persistent_backend.State
  persistent_active : Bool := false
  persistent_reset : Bool
  persistent_anchor_remaining : Nat
  mtp_profitable : Bool
  mtp_cache_extendable : Bool := true
  pending_mtp_streams : List T.Stream := []
  pending_mtp_tokens : List Token := []
  profitability_guard : MtpProfitabilityGuard := {}
  mtp_rounds : Nat := 0
  mtp_accepted : Nat := 0
  mtp_fallbacks : Nat := 0

/-- The text that closes the thinking, behind two line feeds and with two more after it. -/
def thinking_suffix : Bytes :=
  ascii ("\n\nConsidering the limited time by the user, I have to give the solution " ++
    "based on the thinking directly now.\n</think>\n\n").toList

namespace NativeEngine

variable {T : Target} (engine : NativeEngine T) (request : BatchRequest)

/-- `extend_cache_enabled`. -/
def extend_cache_enabled : Bool :=
  (!engine.persistent_enabled || engine.mtp_head.isNone) &&
    (engine.ssd_enabled || engine.environment.extend_prefix_cache)

/-- `persistent_min_tokens`. -/
def persistent_min_tokens : Nat :=
  if engine.persistent_enabled then
    min engine.environment.persistent_min_tokens request.max_tokens
  else 0

/-- `thinking_close_tokens`. -/
def thinking_close_tokens : List Token :=
  if request.sampling.thinking_budget_tokens = 0 then [] else engine.tokenizer.encode think_close

/-- `forced_thinking_suffix`. -/
def forced_thinking_suffix : List Token :=
  if request.sampling.thinking_budget_tokens = 0 then []
  else engine.tokenizer.encode thinking_suffix

/-! ### The native backend -/

/-- The first command on the queue pays for the shared weights; what it computes is thrown
away. -/
def prepare_shared_weights (persistent : engine.persistent_backend.State) :
    Except String engine.persistent_backend.State :=
  if engine.environment.persistent_share_mlx_weights then do
    let r ← engine.persistent_backend.greedy_decode 0 true persistent
    return r.2
  else .ok persistent

/-- `activate_persistent`. -/
def activate_persistent (s : DecodeState engine) : Except String (DecodeState engine) := do
  let persistent ← engine.prepare_shared_weights s.persistent
  let persistent ← engine.persistent_backend.import_state
    (engine.persistent_backend.prepare_persistent_state s.state) persistent
  return { s with
    state := { T.make_state with token_count := s.state.token_count }
    previous_target_stream := none
    persistent
    persistent_active := true
    persistent_reset := false }

/-- The state goes back to the MLX model when the backend is full. -/
def hand_back (s : DecodeState engine) : DecodeState engine :=
  if s.persistent_active ∧ ¬s.persistent_reset ∧
      ¬engine.persistent_backend.can_decode s.persistent then
    { s with
      state := engine.persistent_backend.export_state s.persistent
      previous_target_stream := some (engine.persistent_backend.export_stream s.persistent)
      persistent_active := false }
  else s

/-! ### The thinking budget -/

/-- `begin_thinking_intervention`. -/
def begin_thinking_intervention (s : DecodeState engine) : DecodeState engine :=
  let suffix := engine.forced_thinking_suffix request
  if s.thinking_intervention_attempted ∨ s.thinking_closed ∨ suffix = [] then s
  else if request.max_tokens ≤ s.tokens.length + suffix.length then
    { s with thinking_intervention_attempted := true }
  else
    { s with
      thinking_intervention_attempted := true
      forced_tokens := s.forced_tokens ++ suffix
      thinking_budget_forced := true }

/-- The intervention at the start of a pass. -/
def check_thinking_budget (s : DecodeState engine) : DecodeState engine :=
  if ¬s.thinking_closed ∧ s.forced_tokens = [] ∧ request.sampling.thinking_budget_tokens ≠ 0 ∧
      request.sampling.thinking_budget_tokens ≤ s.tokens.length then
    engine.begin_thinking_intervention request s
  else s

/-! ### A serial step -/

/-- What a serial step does with the row of the current token: the companion takes it, or it
waits with the others, or the state cannot be cached any more. -/
def account_mtp_row (s : DecodeState engine) : Except String (DecodeState engine) :=
  let matched := s.mtp_state.mtp_state_matches_target s.state.token_count
  let follows :=
    s.mtp_state.pending_mtp_matches_target s.pending_mtp_streams.length s.state.token_count
  if engine.mtp_head.isNone then .ok s
  else
    match engine.extend_cache_enabled, s.previous_target_stream with
    | true, some previous =>
      if s.mtp_profitable ∧ matched then do
        let mtp_state ← s.mtp_state.consume_decode previous s.current s.state.token_count
        return { s with mtp_state }
      else if s.pending_mtp_streams = [] ∧ matched ∨ s.pending_mtp_streams ≠ [] ∧ follows then
        .ok { s with
          pending_mtp_streams := s.pending_mtp_streams ++ [previous]
          pending_mtp_tokens := s.pending_mtp_tokens ++ [s.current] }
      else .ok { s with mtp_cache_extendable := false }
    | _, _ => .ok { s with mtp_cache_extendable := false }

/-- The native greedy step. -/
def native_step (s : DecodeState engine) : Except String (DecodeState engine) := do
  let (step, persistent) ←
    engine.persistent_backend.greedy_decode s.current s.persistent_reset s.persistent
  let current :=
    if engine.is_stop_token step.token ∧ s.tokens.length < engine.persistent_min_tokens request
    then step.alternative_token else step.token
  return { s with
    persistent
    persistent_reset := false
    current
    state := { s.state with token_count := s.state.token_count + 1 } }

/-- The choice of the next token from a row of logits: sampled, or the next forced one. -/
def choose_token (logits : T.Logits) (s : DecodeState engine) : DecodeState engine :=
  let (token, random) :=
    match s.forced_tokens with
    | [] => engine.sampler.sample_token request.sampling logits s.tokens s.random
    | forced :: _ => (forced, s.random)
  let s := { s with random }
  let s :=
    if s.forced_tokens = [] ∧ ¬s.thinking_closed ∧ engine.is_stop_token token then
      engine.begin_thinking_intervention request s
    else s
  match s.forced_tokens with
  | [] => { s with current := token }
  | forced :: rest => { s with current := forced, forced_tokens := rest }

/-- The count of the anchor tokens. The native backend takes over behind the last one. -/
def count_anchor (s : DecodeState engine) : Except String (DecodeState engine) :=
  if s.persistent_anchor_remaining = 0 then .ok s
  else
    let s := { s with persistent_anchor_remaining := s.persistent_anchor_remaining - 1 }
    if s.persistent_anchor_remaining = 0 ∧ ¬engine.is_stop_token s.current then
      engine.activate_persistent s
    else .ok s

/-- The step of the MLX model. -/
def mlx_step (s : DecodeState engine) : Except String (DecodeState engine) :=
  let (step, state) := T.forward_decode_capture s.current s.state
  engine.count_anchor (engine.choose_token request step.logits
    { s with state, previous_target_stream := some step.pre_mixer_stream })

/-- The end of a serial step: the token goes out, unless it is a stop token. -/
def emit_current (s : DecodeState engine) : Loop.Pass (DecodeState engine) :=
  if engine.is_stop_token s.current then
    .leave { s with finish_reason := .stop, stopped_on_terminator := true }
  else
    let tokens := s.tokens ++ [s.current]
    let closed := (engine.thinking_close_tokens request).head? = some s.current
    let (go_on, text) := s.text.emit_new_tokens engine.tokenizer request.on_delta tokens
    let s := { s with tokens, text, thinking_closed := s.thinking_closed || closed }
    if go_on then .next s else .leave { s with finish_reason := .cancelled }

/-- The step is native. -/
def takes_native_step (s : DecodeState engine) : Bool :=
  s.persistent_active && s.persistent_anchor_remaining = 0

/-- The step of the backend whose turn it is. -/
def decode_step (s : DecodeState engine) : Except String (DecodeState engine) :=
  if engine.takes_native_step s then engine.native_step request s else engine.mlx_step request s

/-- A serial step. -/
def serial_step (s : DecodeState engine) :
    Except String (Loop.Pass (DecodeState engine)) := do
  let s ← engine.account_mtp_row s
  let s ← engine.decode_step request s
  return engine.emit_current request s

/-! ### A speculative round -/

/-- The tokens of a round go out, up to a stop token or the limit. The answer says whether
the client has refused one. -/
def emit_round : List Token → DecodeState engine → Bool × DecodeState engine
  | [], s => (false, s)
  | token :: emitted, s =>
    if s.tokens.length = request.max_tokens then (false, s)
    else if engine.is_stop_token token then
      (false, { s with finish_reason := .stop, stopped_on_terminator := true })
    else
      let tokens := s.tokens ++ [token]
      let (go_on, text) := s.text.emit_new_tokens engine.tokenizer request.on_delta tokens
      let (refused, s) := emit_round emitted { s with tokens, text }
      (!go_on || refused, s)

/-- The drafts are verified. -/
def run_round (head : QwenMtpHead T) (previous : T.Stream) (proposal : Proposal)
    (s : DecodeState engine) :
    Except String (MtpRoundStep T × ModelDecodeState T × MtpDecodeState T) :=
  let batch_commit_enabled := engine.environment.batch_mtp_commit
  match proposal with
  | .learned draft_depth _ =>
    run_greedy_mtp_round_reference head engine.is_stop_token batch_commit_enabled s.current
      previous s.state.token_count draft_depth s.state s.mtp_state
  | .history drafts _ | .context_copy drafts _ =>
    run_greedy_external_draft_round_reference engine.is_stop_token batch_commit_enabled s.current
      previous s.state.token_count drafts s.state s.mtp_state

/-- `should_fallback`. -/
def should_fallback (proposal : Proposal) (guard : MtpProfitabilityGuard) : Bool :=
  proposal.isLearned &&
    if engine.environment.economic_mtp_fallback then
      guard.should_fallback engine.options.zero_accept_fallback_rounds
    else engine.options.zero_accept_fallback_rounds ≤ guard.zero_accept_streak

/-- The end of a round: what its tokens were, and whether speculation still pays. -/
def end_round (proposal : Proposal) (refused : Bool) (s : DecodeState engine) :
    Except String (Loop.Pass (DecodeState engine)) :=
  if s.finish_reason = .stop then .ok (.leave s)
  else if refused then .ok (.leave { s with finish_reason := .cancelled })
  else if engine.should_fallback proposal s.profitability_guard then
    let s := { s with mtp_profitable := false, mtp_fallbacks := s.mtp_fallbacks + 1 }
    if ¬request.sampling.serial_only ∧ engine.persistent_enabled ∧ ¬s.persistent_active then do
      let s ← engine.activate_persistent s
      return .next s
    else .ok (.next s)
  else .ok (.next s)

/-- A speculative round. -/
def mtp_round (head : QwenMtpHead T) (previous : T.Stream) (proposal : Proposal)
    (s : DecodeState engine) : Except String (Loop.Pass (DecodeState engine)) := do
  let (step, state, mtp_state) ← engine.run_round head previous proposal s
  let profitability_guard :=
    if proposal.isLearned then s.profitability_guard.observe step.accepted
    else s.profitability_guard
  let (refused, s) := engine.emit_round request step.emitted_tokens { s with
    state
    mtp_state
    current := step.next_current_token
    previous_target_stream := some step.next_target_stream
    profitability_guard
    mtp_rounds := s.mtp_rounds + 1
    mtp_accepted := s.mtp_accepted + step.accepted }
  engine.end_round request proposal refused s

/-! ### The loop -/

variable (proposals : Nat → Proposal)

/-- Whether there is more to generate. -/
def more (s : DecodeState engine) : Bool := s.tokens.length < request.max_tokens

/-- The condition of the serial step: nothing to speculate with, or no room for it. -/
def takes_serial_step (s : DecodeState engine) : Bool :=
  let remaining := request.max_tokens - s.tokens.length
  !s.mtp_profitable || s.previous_target_stream.isNone || remaining = 1 ||
    (engine.extend_cache_enabled && remaining = 2)

/-- What comes first in a pass. -/
def begin_pass (s : DecodeState engine) : DecodeState engine :=
  engine.check_thinking_budget request (engine.hand_back s)

/-- One pass. -/
def pass (s : DecodeState engine) : Except String (Loop.Pass (DecodeState engine)) :=
  let s := engine.begin_pass request s
  if engine.takes_serial_step request s then engine.serial_step request s
  else
    match engine.mtp_head, s.previous_target_stream with
    | some head, some previous => engine.mtp_round request head previous (proposals s.mtp_rounds) s
    | _, _ => engine.serial_step request s

/-- The loop. -/
def decode_loop (s : DecodeState engine) : Except String (DecodeState engine) :=
  Loop.run (engine.more request) (engine.pass request proposals) request.max_tokens s

end NativeEngine

end Qwen38
