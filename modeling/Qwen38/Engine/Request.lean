import Mathlib.Algebra.Order.Ring.Rat
import Qwen38.Engine.Mtp
import Qwen38.Text.ChatOutput

/-!
# Requests

What a request brings to the engine and what goes back to its client while it runs: the
sampling options with the check that admits them, the choice of the next token
(`Qwen38.Sampler.sample_token`), and the text stream (`Qwen38.TextStream`), which holds
back the bytes of an incomplete character.

The client is a `TextSink`: it sees every delta with the deltas before it and answers
whether it wants more.
-/

namespace Qwen38

/-- `SamplingOptions`. -/
structure SamplingOptions where
  temperature : ℚ := 0
  top_p : ℚ := 1
  top_k : Nat := 0
  seed : Nat := 0
  frequency_penalty : ℚ := 0
  thinking_budget_tokens : Nat := 0
  deriving DecidableEq

namespace SamplingOptions

/-- The check all three entries of the engine make. -/
def Invalid (sampling : SamplingOptions) : Prop :=
  sampling.temperature < 0 ∨ sampling.top_p ≤ 0 ∨ 1 < sampling.top_p ∨
    sampling.frequency_penalty < 0 ∨ 2 < sampling.frequency_penalty ∨
      0 < sampling.temperature ∧ (sampling.top_k = 0 ∨ 256 < sampling.top_k)

instance (sampling : SamplingOptions) : Decidable sampling.Invalid := by
  unfold Invalid
  infer_instance

/-- `sampling_enabled`. -/
def sampling_enabled (sampling : SamplingOptions) : Bool := 0 < sampling.temperature

/-- `serial_only`: no speculation and no native greedy step. -/
def serial_only (sampling : SamplingOptions) : Bool :=
  sampling.sampling_enabled || sampling.thinking_budget_tokens ≠ 0

end SamplingOptions

/-- The tokenizer. -/
structure Tokenizer where
  encode : Bytes → List Token
  decode : List Token → Bytes

/-- The random generator of a request, and the draw from a row of logits that the sampling
options ask for. -/
structure Sampler (T : Target) where
  Random : Type
  seeded : Nat → Random
  draw : SamplingOptions → T.Logits → List Token → Random → Token × Random

/-- `sample_token`. -/
def Sampler.sample_token {T : Target} (sampler : Sampler T) (sampling : SamplingOptions)
    (logits : T.Logits) (generated_tokens : List Token) (random : sampler.Random) :
    Token × sampler.Random :=
  if sampling.temperature ≤ 0 then (T.argmax logits, random)
  else sampler.draw sampling logits generated_tokens random

/-! ### The text stream -/

/-- The client: from the deltas it has seen and the next one, whether it wants more. -/
abbrev TextSink := List Bytes → Bytes → Bool

/-- A client that never asks to stop. -/
def TextSink.accepts : TextSink := fun _ _ => true

/-- How many bytes the character takes that starts with this one, as the lead byte says. -/
def utf8_width (lead : UInt8) : Nat :=
  if 0xC2 ≤ lead ∧ lead ≤ 0xDF then 2
  else if 0xE0 ≤ lead ∧ lead ≤ 0xEF then 3
  else if 0xF0 ≤ lead ∧ lead ≤ 0xF4 then 4
  else 1

/-- The loop of `complete_utf8_prefix`, from a place in the text. -/
def complete_utf8_from : Nat → Bytes → Nat
  | fuel + 1, lead :: rest =>
    let width := utf8_width lead
    if rest.length + 1 < width then 0
    else
      let continuation := (rest.take (width - 1)).all fun byte => byte &&& 0xC0 = 0x80
      let width := if continuation then width else 1
      width + complete_utf8_from fuel ((lead :: rest).drop width)
  | _, _ => 0

/-- `complete_utf8_prefix`: how much of the text is complete. -/
def complete_utf8_prefix (text : Bytes) : Nat := complete_utf8_from text.length text

/-- What has gone out, and what waits for the rest of its character. -/
structure TextStream where
  deltas : List Bytes := []
  pending_stream_bytes : Bytes := []
  stream_connected : Bool := true
  streamed_tokens : Nat := 0

namespace TextStream

variable (tokenizer : Tokenizer) (on_delta : Option TextSink)

/-- A delta goes to the client. -/
def send (sink : TextSink) (delta : Bytes) (s : TextStream) : TextStream :=
  { s with deltas := s.deltas ++ [delta], stream_connected := sink s.deltas delta }

/-- `emit_new_tokens`: whether to go on, with the stream. -/
def emit_new_tokens (tokens : List Token) (s : TextStream) : Bool × TextStream :=
  match on_delta with
  | none => (true, s)
  | some sink =>
    if s.streamed_tokens = tokens.length then (true, s)
    else if s.stream_connected then
      let pending := s.pending_stream_bytes ++ tokenizer.decode (tokens.drop s.streamed_tokens)
      let complete := complete_utf8_prefix pending
      let s := { s with streamed_tokens := tokens.length, pending_stream_bytes := pending }
      let s := if complete ≠ 0 then
          { s.send sink (pending.take complete) with pending_stream_bytes := pending.drop complete }
        else s
      (s.stream_connected, s)
    else (false, { s with streamed_tokens := tokens.length, pending_stream_bytes := [] })

/-- The end of the stream: the bytes that still wait go out as they are. The answer is
whether the client refuses them. -/
def flush (s : TextStream) : Bool × TextStream :=
  match on_delta with
  | none => (false, s)
  | some sink =>
    if s.stream_connected ∧ s.pending_stream_bytes ≠ [] then
      let s := s.send sink s.pending_stream_bytes
      (!s.stream_connected, s)
    else (false, s)

end TextStream

/-! ### Requests and results -/

/-- What a client asks for: the arguments of `complete` and `complete_stream`. -/
structure BatchRequest where
  prompt : Bytes
  max_tokens : Nat
  on_delta : Option TextSink := none
  sampling : SamplingOptions := {}

/-- What a request comes to, with the deltas its client has seen. -/
structure GenerationResult where
  text : Bytes
  tokens : List Token
  prompt_tokens : Nat
  cached_prompt_tokens : Nat := 0
  finish_reason : FinishReason
  mtp_rounds : Nat := 0
  mtp_accepted : Nat := 0
  mtp_fallbacks : Nat := 0
  thinking_budget_forced : Bool := false
  deltas : List Bytes
  deriving DecidableEq

end Qwen38
