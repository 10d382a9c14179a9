import Qwen38.Engine.Target
import Qwen38.Lib.Except
import Qwen38.Lib.Speculation

/-!
# Speculative rounds

The MTP companion of the target model is fed a row for every token: the token, with the
target's residual stream of the token before it. It drafts a few tokens, the target
verifies all of them in one pass, and the round keeps the drafts that agree
(`Qwen38.decide_mtp_greedy`), commits the target's state after the last of them and feeds
the companion their rows (`Qwen38.finish_greedy_mtp_round`). Drafts may also come from
elsewhere; a round does not care.

The companion's state is the list of rows it was fed, with the position of the first; rows
may come in batches, but only at the next position
(`Qwen38.MtpDecodeState.append_rows`).
-/

namespace Qwen38

open Except (throw_if)

/-- A row of the companion: the target's stream of the token before, and the token. -/
abbrev MtpRow (T : Target) := T.Stream × Token

/-- The companion: the argmax and the stream of its last row, from all its rows. -/
structure QwenMtpHead (T : Target) where
  forward_stream : List (MtpRow T) → Token × T.Stream

/-- What the companion was fed. `row_count` is the length of `rows`. -/
@[ext] structure MtpDecodeState (T : Target) where
  rows : List (MtpRow T) := []
  position_base : Option Nat := none

variable {T : Target}

/-! ### Feeding the companion -/

namespace MtpDecodeState

/-- Rows at the next position; `message` is thrown at any other one. -/
def append_rows (message : String) (rows : List (MtpRow T)) (query_position : Nat)
    (state : MtpDecodeState T) : Except String (MtpDecodeState T) := do
  let position_base := state.position_base.getD query_position
  throw_if (query_position ≠ position_base + state.rows.length) message
  return { rows := state.rows ++ rows, position_base := some position_base }

/-- `mtp_state_matches_target`. -/
def mtp_state_matches_target (state : MtpDecodeState T) (target_token_count : Nat) : Bool :=
  match state.position_base with
  | none => false
  | some base => base ≤ target_token_count ∧ state.rows.length = target_token_count - base

/-- The rows it was fed and the ones that are pending make up what the target has consumed. -/
def pending_mtp_matches_target (state : MtpDecodeState T) (pending target_token_count : Nat) :
    Bool :=
  match state.position_base with
  | none => false
  | some base => base + state.rows.length + pending = target_token_count

/-- `consume_decode`. -/
def consume_decode (stream : T.Stream) (next_token : Token) (query_position : Nat)
    (state : MtpDecodeState T) : Except String (MtpDecodeState T) :=
  state.append_rows "MTP query positions must be contiguous" [(stream, next_token)] query_position

/-- Rows at the next positions, one by one. -/
def consume_each : List (MtpRow T) → Nat → MtpDecodeState T → Except String (MtpDecodeState T)
  | [], _, state => return state
  | (stream, token) :: rows, query_position, state => do
    let state ← state.consume_decode stream token query_position
    consume_each rows (query_position + 1) state

/-- `consume_committed_batch`. -/
def consume_committed_batch (streams : List T.Stream) (tokens : List Token)
    (query_position : Nat) (state : MtpDecodeState T) : Except String (MtpDecodeState T) := do
  throw_if (tokens.length < 2 ∨ 25 < tokens.length ∨ streams.length ≠ tokens.length)
    "MTP committed batch requires 2 to 25 matching rows"
  state.append_rows "MTP committed batch positions must be contiguous" (streams.zip tokens)
    query_position

/-- The rows a round accepts, in a batch or one by one. -/
def consume_accepted (batch : Bool) (streams : List T.Stream) (tokens : List Token)
    (query_position : Nat) (state : MtpDecodeState T) : Except String (MtpDecodeState T) :=
  if batch then state.consume_committed_batch streams tokens query_position
  else state.consume_each (streams.zip tokens) query_position

/-- `consume_prefill_batch`. -/
def consume_prefill_batch (streams : List T.Stream) (tokens : List Token)
    (query_position : Nat) (state : MtpDecodeState T) : Except String (MtpDecodeState T) := do
  throw_if (tokens = [] ∨ 512 < tokens.length ∨ streams.length ≠ tokens.length)
    "MTP prefill batch requires 1 to 512 matching target rows"
  state.append_rows "MTP prefill positions must be contiguous" (streams.zip tokens) query_position

/-- One pass of the loop in `consume_pending_mtp_rows`: at most five rows. -/
def consume_pending_pass (position_base : Nat) (s : List (MtpRow T) × MtpDecodeState T) :
    Except String (Loop.Pass (List (MtpRow T) × MtpDecodeState T)) :=
  let position := position_base + s.2.rows.length
  match s.1 with
  | [] => .ok (.leave s)
  | [(stream, token)] => do
    let state ← s.2.consume_decode stream token position
    return .next ([], state)
  | _ => do
    let rows := s.1.take 5
    let state ← s.2.consume_committed_batch (rows.map Prod.fst) (rows.map Prod.snd) position
    return .next (s.1.drop 5, state)

/-- `consume_pending_mtp_rows`. -/
def consume_pending_mtp_rows (streams : List T.Stream) (tokens : List Token)
    (state : MtpDecodeState T) : Except String (MtpDecodeState T) := do
  throw_if (streams.length ≠ tokens.length) "cached MTP rows must have matching streams and tokens"
  throw_if (tokens ≠ [] ∧ state.position_base = none)
    "cached MTP rows require an initialized position base"
  let s ← Loop.run (fun s => s.1 ≠ []) (consume_pending_pass (state.position_base.getD 0))
    tokens.length (streams.zip tokens, state)
  return s.2

/-- `draft_lazy_chain`: the drafts. The rows it feeds are not kept. -/
def draft_lazy_chain (head : QwenMtpHead T) (query_position : Nat) :
    Nat → T.Stream → Token → MtpDecodeState T → Except String (List Token)
  | 0, _, _, _ => return []
  | draft_depth + 1, stream, token, state => do
    let state ← state.consume_decode stream token query_position
    let step := head.forward_stream state.rows
    let drafts ← draft_lazy_chain head (query_position + 1) draft_depth step.2 step.1 state
    return step.1 :: drafts

end MtpDecodeState

/-! ### Verification -/

/-- A verified row. -/
structure MtpTargetVerifyRow (T : Target) where
  greedy : Token
  pre_mixer_stream : T.Stream
  state_after : ModelDecodeState T

/-- The verified rows of a proposal. -/
structure MtpTargetVerification (T : Target) where
  draft_count : Nat
  rows : List (MtpTargetVerifyRow T)

/-- `verify_mtp_target_layer_major_reference`. -/
def verify_mtp_target_layer_major_reference (current_token : Token) (drafts : List Token)
    (origin : ModelDecodeState T) : Except String (MtpTargetVerification T) := do
  throw_if (drafts.length < 2 ∨ 24 < drafts.length)
    "speculative verifier requires 2 to 24 draft tokens"
  let target ← T.forward_verify_layer_major_reference (current_token :: drafts) origin
  return {
    draft_count := drafts.length
    rows := target.map fun row =>
      { greedy := T.argmax row.logits
        pre_mixer_stream := row.pre_mixer_stream
        state_after := row.state_after } }

/-- What a round keeps of its drafts. -/
structure MtpGreedyDecision where
  accepted : Nat
  correction_row : Nat
  next_token : Token

/-- `decide_mtp_greedy`. -/
def decide_mtp_greedy (drafts target_argmax_rows : List Token) (stop : Token → Bool) :
    Except String MtpGreedyDecision := do
  throw_if (drafts = []) "MTP verification requires at least one draft"
  throw_if (target_argmax_rows.length ≠ drafts.length + 1)
    "MTP target verification must include the bonus row"
  let accepted := Speculation.accepted stop drafts target_argmax_rows
  return {
    accepted
    correction_row := accepted
    next_token := target_argmax_rows.getD accepted 0 }

/-- `commit_mtp_target_verification`. -/
def commit_mtp_target_verification (verification : MtpTargetVerification T) (accepted : Nat)
    (destination : ModelDecodeState T) : Except String (ModelDecodeState T) := do
  throw_if (verification.rows.length ≠ verification.draft_count + 1)
    "MTP verification row count is invalid"
  throw_if (verification.draft_count < accepted)
    "MTP accepted count exceeds verified draft count"
  return (verification.rows[accepted]?.map MtpTargetVerifyRow.state_after).getD destination

/-! ### A round -/

/-- What a round gives. -/
structure MtpRoundStep (T : Target) where
  emitted_tokens : List Token
  draft_tokens : List Token
  accepted : Nat
  next_current_token : Token
  next_target_stream : T.Stream

/-- `finish_greedy_mtp_round`. The companion starts from `head_origin`: what it was fed while
drafting is forgotten. -/
def finish_greedy_mtp_round (stop : Token → Bool) (batch_commit_enabled : Bool)
    (current_token : Token) (previous_target_stream : T.Stream) (query_position : Nat)
    (drafts : List Token) (head_origin : MtpDecodeState T) (target_state : ModelDecodeState T) :
    Except String (MtpRoundStep T × ModelDecodeState T × MtpDecodeState T) := do
  throw_if (drafts.length < 2 ∨ 24 < drafts.length)
    "speculative proposal depth must be between 2 and 24"
  throw_if (query_position ≠ target_state.token_count)
    "MTP query position must match target committed length"
  let verification ← verify_mtp_target_layer_major_reference current_token drafts target_state
  let decision ← decide_mtp_greedy drafts (verification.rows.map MtpTargetVerifyRow.greedy) stop
  let correction := verification.rows[decision.correction_row]?
  let next_target_stream :=
    (correction.map MtpTargetVerifyRow.pre_mixer_stream).getD previous_target_stream
  let committed_streams := previous_target_stream ::
    (verification.rows.take decision.accepted).map MtpTargetVerifyRow.pre_mixer_stream
  let committed_tokens := current_token :: drafts.take decision.accepted
  let head_state ← head_origin.consume_accepted (decision.accepted ≠ 0 ∧ batch_commit_enabled)
    committed_streams committed_tokens query_position
  let target_state ← commit_mtp_target_verification verification decision.accepted target_state
  throw_if (target_state.token_count ≠ query_position + decision.accepted + 1)
    "MTP committed target length mismatch"
  return ({
      emitted_tokens := drafts.take decision.accepted ++ [decision.next_token]
      draft_tokens := drafts
      accepted := decision.accepted
      next_current_token := decision.next_token
      next_target_stream }, target_state, head_state)

/-- `run_greedy_mtp_round_reference`: the companion drafts. -/
def run_greedy_mtp_round_reference (head : QwenMtpHead T) (stop : Token → Bool)
    (batch_commit_enabled : Bool) (current_token : Token) (previous_target_stream : T.Stream)
    (query_position draft_depth : Nat) (target_state : ModelDecodeState T)
    (head_state : MtpDecodeState T) :
    Except String (MtpRoundStep T × ModelDecodeState T × MtpDecodeState T) := do
  throw_if (draft_depth < 2 ∨ 4 < draft_depth) "MTP draft depth must be between 2 and 4"
  let drafts ← MtpDecodeState.draft_lazy_chain head query_position draft_depth
    previous_target_stream current_token head_state
  finish_greedy_mtp_round stop batch_commit_enabled current_token previous_target_stream
    query_position drafts head_state target_state

/-- `run_greedy_external_draft_round_reference`: the drafts come from elsewhere. -/
def run_greedy_external_draft_round_reference (stop : Token → Bool) (batch_commit_enabled : Bool)
    (current_token : Token) (previous_target_stream : T.Stream) (query_position : Nat)
    (drafts : List Token) (target_state : ModelDecodeState T) (head_state : MtpDecodeState T) :
    Except String (MtpRoundStep T × ModelDecodeState T × MtpDecodeState T) :=
  finish_greedy_mtp_round stop batch_commit_enabled current_token previous_target_stream
    query_position drafts head_state target_state

/-! ### Profitability -/

/-- `MtpProfitabilityGuard`. `accepted_window` holds the last rounds, the oldest first. -/
structure MtpProfitabilityGuard where
  accepted_window : List Nat := []
  rounds : Nat := 0
  total_accepted : Nat := 0
  zero_accept_streak : Nat := 0

namespace MtpProfitabilityGuard

/-- `window_size`. -/
def window_size : Nat := 16

/-- `observe`. -/
def observe (accepted : Nat) (guard : MtpProfitabilityGuard) : MtpProfitabilityGuard where
  accepted_window :=
    if guard.accepted_window.length < window_size then guard.accepted_window ++ [accepted]
    else guard.accepted_window.drop 1 ++ [accepted]
  rounds := guard.rounds + 1
  total_accepted := guard.total_accepted + accepted
  zero_accept_streak := if accepted = 0 then guard.zero_accept_streak + 1 else 0

/-- `should_fallback`. -/
def should_fallback (fallback_streak : Nat) (guard : MtpProfitabilityGuard) : Bool :=
  if guard.accepted_window.length < window_size then
    fallback_streak ≤ guard.zero_accept_streak ∧ guard.total_accepted < guard.rounds
  else guard.accepted_window.sum < window_size

end MtpProfitabilityGuard

/-- `cache_mtp_as_profitable`. -/
def cache_mtp_as_profitable (rounds accepted fallbacks : Nat) : Bool :=
  fallbacks = 0 ∨ (rounds ≠ 0 ∧ rounds ≤ accepted)

end Qwen38
