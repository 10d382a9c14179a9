import Mathlib.Logic.Relation
import Qwen38.Text.ResponseJson
import Qwen38.Text.Stream

/-!
# What a stream sends

The text of the events, as `body_stream` hands it to the sink, and what the callbacks do to the
client: they send one event after the other, each to a client that is still connected
(`Qwen38.Sse.body_stream_sends`). No event has an empty text (`Qwen38.Sse.event_text_ne_nil`).
-/

namespace Qwen38

namespace Sse

/-! ### The text of an event -/

/-- The name of a field. -/
def Field.name : Field → Bytes
  | .role => bytes "role"
  | .reasoning_content => bytes "reasoning_content"
  | .content => bytes "content"
  | .text => bytes "text"

/-- `finish_reason`, as it is printed. -/
def finish_reason_text : FinishReason → Bytes
  | .stop => bytes "stop"
  | .length => bytes "length"
  | .cancelled => bytes "cancelled"
  | .tool_calls => bytes "tool_calls"

/-- `sse_data`. -/
def sse_data (json : Bytes) : Bytes := bytes "data: " ++ json ++ [10, 10]

/-- The body of an error event. -/
def generation_error_json (what : Bytes) : Bytes :=
  bytes "\x7b\"error\":\x7b\"code\":\"generation_error\",\"message\":\"" ++ json_escape what ++
    bytes "\",\"type\":\"server_error\"\x7d\x7d"

/-- What the handler prints besides the generated text. -/
structure Printed (numbers : NumberText) where
  model_id : Bytes
  chat : Bool
  include_stream_usage : Bool
  result : ResponseResult numbers

/-- An event, as the sink gets it. -/
def event_text {numbers : NumberText} (printed : Printed numbers) : Event → Bytes
  | .delta field fragment =>
    sse_data (stream_delta_json printed.model_id printed.chat field.name fragment)
  | .tool_call_comment => bytes ": qwen38 tool-call" ++ [10, 10]
  | .tool_calls calls => sse_data (stream_tool_calls_json printed.model_id calls)
  | .finish finish_reason =>
    sse_data (stream_finish_json
      { printed.result with finish_reason := finish_reason_text finish_reason } printed.model_id
      printed.chat printed.include_stream_usage)
  | .generation_error message => sse_data (generation_error_json message)
  | .done => bytes "data: [DONE]" ++ [10, 10]

/-- **Every event has a text.** -/
theorem event_text_ne_nil {numbers : NumberText} (printed : Printed numbers) (event : Event) :
    event_text printed event ≠ [] := by
  have happend : ∀ l : Bytes, l ++ [10, 10] ≠ [] := fun l h =>
    List.cons_ne_nil _ _ (List.append_eq_nil_iff.mp h).2
  cases event <;> exact happend _

/-! ### What the callbacks send -/

section Sends

variable (sink : Sink) {options : Options} {numbers : NumberText}

/-- One event goes out to a client that is connected. -/
def SendsOne (client client' : Bool × List Event) : Prop :=
  client.1 = true ∧ ∃ event, client' = (sink client.2 event, client.2 ++ [event])

/-- Events go out, one after the other. -/
def Sends (s s' : State) : Prop :=
  Relation.ReflTransGen (SendsOne sink) (s.connected, s.events) (s'.connected, s'.events)

variable {sink}

theorem Sends.refl (s : State) : Sends sink s s := Relation.ReflTransGen.refl

theorem Sends.trans {s s₁ s' : State} (h : Sends sink s s₁) (h' : Sends sink s₁ s') :
    Sends sink s s' := Relation.ReflTransGen.trans h h'

theorem emit_json_sends (event : Event) (s : State) : Sends sink s (emit_json sink event s) := by
  rcases hc : s.connected with _ | _
  · rw [emit_json_of_not_connected hc]
    exact .refl s
  · rw [emit_json_of_connected hc]
    exact Relation.ReflTransGen.single ⟨hc, event, rfl⟩

theorem emit_text_sends (field : Field) (text : Bytes) (s : State) :
    Sends sink s (emit_text sink field text s) := by
  rw [emit_text]
  split
  · exact .refl s
  · exact emit_json_sends _ s

theorem emit_content_sends (text : Bytes) (s : State) :
    Sends sink s (emit_content sink options text s) := by
  rw [emit_content]
  split
  · dsimp only
    split
    · split
      · exact emit_json_sends .tool_call_comment { s with
          tool_carry := s.tool_carry ++ text
          captured_tool_deltas := s.captured_tool_deltas + 1 }
      · exact .refl s
    · split
      · exact emit_text_sends .content _ s
      · split
        · exact emit_text_sends .content _ s
        · exact .refl s
  · exact emit_text_sends .content text s

theorem on_thinking_delta_sends (raw_delta : Bytes) (s : State) :
    Sends sink s (on_thinking_delta sink options raw_delta s) := by
  rw [on_thinking_delta]
  dsimp only
  split
  · exact (emit_text_sends .reasoning_content _ s).trans (emit_content_sends _ _)
  · split
    · exact (emit_text_sends .reasoning_content _ s).trans
        (emit_content_sends _ { emit_text sink _ _ s with
          thinking_carry := []
          in_reasoning := false })
    · split
      · exact .refl s
      · exact emit_text_sends .reasoning_content _ s

theorem on_delta_sends (raw_delta : Bytes) (s : State) :
    Sends sink s (on_delta sink options raw_delta s) := by
  rw [on_delta]
  split
  · split
    · split
      · exact on_thinking_delta_sends raw_delta s
      · exact emit_content_sends raw_delta s
    · exact emit_text_sends .text raw_delta s
  · exact .refl s

theorem on_deltas_sends (deltas : List Bytes) (s : State) :
    Sends sink s (on_deltas sink options deltas s) := by
  induction deltas generalizing s with
  | nil => exact .refl s
  | cons raw_delta deltas ih => exact (on_delta_sends raw_delta s).trans (ih _)

theorem flush_thinking_sends (s : State) : Sends sink s (flush_thinking sink options s) := by
  rw [flush_thinking]
  split
  · exact .refl s
  · split
    · exact emit_text_sends .reasoning_content _ s
    · exact emit_content_sends _ s

theorem flush_tools_sends (finish_reason : FinishReason) (s : State) :
    Sends sink s (flush_tools sink options numbers finish_reason s).1 := by
  rw [flush_tools]
  split
  · split
    · dsimp only
      split
      · exact emit_text_sends .content _ s
      · exact (emit_text_sends .content _ s).trans (emit_json_sends _ _)
    · exact emit_text_sends .content _ s
  · exact .refl s

theorem finish_sends (result : Except Bytes FinishReason) (s : State) :
    Sends sink s (finish sink options numbers result s) := by
  unfold finish
  cases result with
  | ok finish_reason =>
    exact (((flush_thinking_sends s).trans (flush_tools_sends finish_reason _)).trans
      (emit_json_sends _ _)).trans (emit_json_sends _ _)
  | error message => exact (emit_json_sends _ s).trans (emit_json_sends _ _)

variable (sink) (options) (numbers) in
/-- **A stream sends its events one after the other**, and none to a client that has gone. So a
stream is a sequence of calls of the sink, of which only the last may have failed. -/
theorem body_stream_sends (deltas : List Bytes) (result : Except Bytes FinishReason) :
    Relation.ReflTransGen (SendsOne sink) (true, [])
      ((body_stream sink options numbers deltas result).connected,
        (body_stream sink options numbers deltas result).events) := by
  have hstart : Sends sink (initial options) (start sink options) := by
    rw [start]
    split
    · exact emit_json_sends _ _
    · exact .refl _
  have hstream : Sends sink (initial options) (body_stream sink options numbers deltas result) := by
    rw [body_stream]
    split
    · exact (hstart.trans (on_deltas_sends deltas _)).trans (finish_sends result _)
    · exact hstart
  exact hstream

end Sends

end Sse

end Qwen38
