import Qwen38.Text.ChatOutput

/-!
# The streaming chat response

The `body_stream` of a streaming request: the engine hands the generated text to
`on_delta` piece by piece, and `on_delta` turns the pieces into server-sent events. While
the model thinks, text goes out as `reasoning_content`; the first `</think>` (or, with
tools, the first `<tool_call>`) ends that phase, and what follows is content until a
`<tool_call>` starts the part that is collected for the tool parser.

Since a marker may arrive in pieces, a suffix of the text is held back:
`thinking_carry` in the first phase, `tool_carry` in the second.

The client is a `Sink`: it sees every event with the events before it, and answers
whether it is still connected. Once it is not, no event goes out any more, which is
`Qwen38.Sse.emit_json_of_not_connected` and the lemmas after it; what has gone out stays
(`Qwen38.Sse.on_delta_events` and `Qwen38.Sse.finish_events`).
-/

namespace Qwen38

namespace Sse

/-- The fields of a delta event. -/
inductive Field
  | role
  | reasoning_content
  | content
  | text
  deriving DecidableEq

/-- The events of a stream. The JSON around a fragment is left out: it holds the model's
name and constants. -/
inductive Event
  | delta (field : Field) (fragment : Bytes)
  | tool_call_comment
  | tool_calls (calls : List ParsedToolCall)
  | finish (finish_reason : FinishReason)
  | generation_error (message : Bytes)
  | done
  deriving DecidableEq

/-- The client: from the events it has seen and the next one, whether it stays. -/
abbrev Sink := List Event → Event → Bool

/-- A client that never leaves. -/
def stays : Sink := fun _ _ => true

/-- What the handler knows of the request. -/
structure Options where
  chat : Bool
  enable_thinking : Bool
  tools_json : List Bytes

/-- `parse_tools`. -/
def Options.parse_tools (options : Options) : Bool := options.chat && options.tools_json ≠ []

/-- The variables the callbacks share, with the events that went out. -/
structure State where
  connected : Bool
  events : List Event
  thinking_carry : Bytes
  in_reasoning : Bool
  tool_carry : Bytes
  capturing_tool_calls : Bool
  captured_tool_deltas : Nat

/-! ### The callbacks -/

section Callbacks

variable (sink : Sink) (options : Options)

/-- `emit_json`, and the comment line that is sent the same way. -/
def emit_json (event : Event) (s : State) : State :=
  if s.connected then
    { s with connected := sink s.events event, events := s.events ++ [event] }
  else s

/-- `emit_text`: nothing is sent for an empty text. -/
def emit_text (field : Field) (text : Bytes) (s : State) : State :=
  if text = [] then s else emit_json sink (.delta field text) s

/-- `emit_content`. -/
def emit_content (text : Bytes) (s : State) : State :=
  if options.parse_tools then
    let tool_carry := s.tool_carry ++ text
    if s.capturing_tool_calls then
      let s := { s with tool_carry, captured_tool_deltas := s.captured_tool_deltas + 1 }
      if s.captured_tool_deltas % 16 = 0 then emit_json sink .tool_call_comment s else s
    else
      match Search.find call_open tool_carry with
      | some start =>
        { emit_text sink .content (tool_carry.take start) s with
          tool_carry := tool_carry.drop start
          capturing_tool_calls := true }
      | none =>
        if call_open.length ≤ tool_carry.length then
          let ready := tool_carry.length - (call_open.length - 1)
          { emit_text sink .content (tool_carry.take ready) s with
            tool_carry := tool_carry.drop ready }
        else { s with tool_carry }
  else emit_text sink .content text s

/-- How many bytes of thinking are held back: one less than the longest marker looked for. -/
def holdback : Nat :=
  if options.parse_tools then max think_close.length call_open.length - 1
  else think_close.length - 1

/-- `on_delta` in the thinking phase. -/
def on_thinking_delta (raw_delta : Bytes) (s : State) : State :=
  let thinking_carry := s.thinking_carry ++ raw_delta
  match Search.find think_close thinking_carry with
  | some separator =>
    let s := emit_text sink .reasoning_content (thinking_carry.take separator) s
    let content := skip_space (thinking_carry.drop (separator + think_close.length))
    { emit_content sink options content s with thinking_carry := [], in_reasoning := false }
  | none =>
    match if options.parse_tools then Search.find call_open thinking_carry else none with
    | some tool_separator =>
      let s := emit_text sink .reasoning_content (thinking_carry.take tool_separator) s
      let calls := thinking_carry.drop tool_separator
      emit_content sink options calls { s with thinking_carry := [], in_reasoning := false }
    | none =>
      if thinking_carry.length ≤ holdback options then { s with thinking_carry }
      else
        let ready := thinking_carry.length - holdback options
        { emit_text sink .reasoning_content (thinking_carry.take ready) s with
          thinking_carry := thinking_carry.drop ready }

/-- `on_delta`. What it returns to the engine is `connected` after it. -/
def on_delta (raw_delta : Bytes) (s : State) : State :=
  if s.connected then
    if options.chat then
      if s.in_reasoning then on_thinking_delta sink options raw_delta s
      else emit_content sink options raw_delta s
    else emit_text sink .text raw_delta s
  else s

/-- The variables as they are declared. -/
def initial : State where
  connected := true
  events := []
  thinking_carry := []
  in_reasoning := options.chat && options.enable_thinking
  tool_carry := []
  capturing_tool_calls := false
  captured_tool_deltas := 0

/-- `assistant`, the role a chat stream announces first. -/
def assistant : Bytes := ascii ['a', 's', 's', 'i', 's', 't', 'a', 'n', 't']

/-- The state when the engine starts. -/
def start : State :=
  if options.chat then emit_json sink (.delta .role assistant) (initial options)
  else initial options

variable (numbers : NumberText)

/-- After the engine has returned: the thinking that was held back. -/
def flush_thinking (s : State) : State :=
  if s.thinking_carry = [] then s
  else if s.in_reasoning then emit_text sink .reasoning_content s.thinking_carry s
  else emit_content sink options s.thinking_carry s

/-- After that: the content that was held back or collected, with the finish reason. -/
def flush_tools (finish_reason : FinishReason) (s : State) : State × FinishReason :=
  if options.parse_tools ∧ s.tool_carry ≠ [] then
    if s.capturing_tool_calls then
      let parsed := parse_qwen_tool_output numbers options.tools_json s.tool_carry
      let s := emit_text sink .content parsed.content s
      if parsed.calls = [] then (s, finish_reason)
      else (emit_json sink (.tool_calls parsed.calls) s, .tool_calls)
    else (emit_text sink .content s.tool_carry s, finish_reason)
  else (s, finish_reason)

/-- The end of the stream, from what the engine returned or threw. -/
def finish (result : Except Bytes FinishReason) (s : State) : State :=
  let s := match result with
    | .ok finish_reason =>
      let (s, finish_reason) :=
        flush_tools sink options numbers finish_reason (flush_thinking sink options s)
      emit_json sink (.finish finish_reason) s
    | .error message => emit_json sink (.generation_error message) s
  emit_json sink .done s

/-- The engine's deltas, one after the other. -/
def on_deltas (deltas : List Bytes) (s : State) : State :=
  deltas.foldl (fun s raw_delta => on_delta sink options raw_delta s) s

/-- `body_stream`: the engine is not started for a client that is already gone. -/
def body_stream (deltas : List Bytes) (result : Except Bytes FinishReason) : State :=
  let s := start sink options
  if s.connected then finish sink options numbers result (on_deltas sink options deltas s) else s

end Callbacks

/-! ### What has gone out stays, and nothing goes out to a client that is gone -/

section Events

variable {sink : Sink} {options : Options} {numbers : NumberText} {s : State}

theorem emit_json_of_connected {event : Event} (h : s.connected = true) :
    emit_json sink event s =
      { s with connected := sink s.events event, events := s.events ++ [event] } := if_pos h

theorem emit_json_of_not_connected {event : Event} (h : s.connected = false) :
    emit_json sink event s = s := if_neg (by simp [h])

@[simp] theorem emit_text_nil {field : Field} : emit_text sink field [] s = s := rfl

theorem emit_text_of_ne_nil {field : Field} {text : Bytes} (h : text ≠ []) :
    emit_text sink field text s = emit_json sink (.delta field text) s := if_neg h

theorem emit_text_of_not_connected {field : Field} {text : Bytes} (h : s.connected = false) :
    emit_text sink field text s = s := by
  rcases eq_or_ne text [] with rfl | hne
  · rfl
  · rw [emit_text_of_ne_nil hne, emit_json_of_not_connected h]

section Frame

variable (sink) (options) (event : Event) (field : Field) (text : Bytes) (s : State)

/-- Sending changes nothing but the connection and the events. -/
theorem emit_json_eq :
    ∃ connected events, emit_json sink event s = { s with connected, events } := by
  unfold emit_json
  split
  · exact ⟨_, _, rfl⟩
  · exact ⟨s.connected, s.events, rfl⟩

theorem emit_text_eq :
    ∃ connected events, emit_text sink field text s = { s with connected, events } := by
  unfold emit_text
  split
  · exact ⟨s.connected, s.events, rfl⟩
  · exact emit_json_eq sink _ s

@[simp] theorem emit_json_thinking_carry :
    (emit_json sink event s).thinking_carry = s.thinking_carry := by
  obtain ⟨_, _, h⟩ := emit_json_eq sink event s
  rw [h]

@[simp] theorem emit_json_in_reasoning :
    (emit_json sink event s).in_reasoning = s.in_reasoning := by
  obtain ⟨_, _, h⟩ := emit_json_eq sink event s
  rw [h]

@[simp] theorem emit_json_tool_carry : (emit_json sink event s).tool_carry = s.tool_carry := by
  obtain ⟨_, _, h⟩ := emit_json_eq sink event s
  rw [h]

@[simp] theorem emit_text_thinking_carry :
    (emit_text sink field text s).thinking_carry = s.thinking_carry := by
  obtain ⟨_, _, h⟩ := emit_text_eq sink field text s
  rw [h]

@[simp] theorem emit_text_in_reasoning :
    (emit_text sink field text s).in_reasoning = s.in_reasoning := by
  obtain ⟨_, _, h⟩ := emit_text_eq sink field text s
  rw [h]

@[simp] theorem emit_text_tool_carry :
    (emit_text sink field text s).tool_carry = s.tool_carry := by
  obtain ⟨_, _, h⟩ := emit_text_eq sink field text s
  rw [h]

/-- Content leaves the thinking phase alone. -/
theorem emit_content_eq :
    ∃ connected events tool_carry capturing_tool_calls captured_tool_deltas,
      emit_content sink options text s =
        { s with connected, events, tool_carry, capturing_tool_calls, captured_tool_deltas } := by
  unfold emit_content
  obtain ⟨c, e, h⟩ := emit_text_eq sink .content text s
  split
  · dsimp only
    split
    · split
      · obtain ⟨c, e, h⟩ := emit_json_eq sink .tool_call_comment { s with
          tool_carry := s.tool_carry ++ text
          captured_tool_deltas := s.captured_tool_deltas + 1 }
        exact ⟨c, e, _, _, _, h⟩
      · exact ⟨s.connected, s.events, _, _, _, rfl⟩
    · split
      · next start _ =>
        obtain ⟨c, e, h⟩ := emit_text_eq sink .content ((s.tool_carry ++ text).take start) s
        rw [h]
        exact ⟨c, e, _, _, s.captured_tool_deltas, rfl⟩
      · split
        · obtain ⟨c, e, h⟩ := emit_text_eq sink .content ((s.tool_carry ++ text).take
            ((s.tool_carry ++ text).length - (call_open.length - 1))) s
          rw [h]
          exact ⟨c, e, _, s.capturing_tool_calls, s.captured_tool_deltas, rfl⟩
        · exact ⟨s.connected, s.events, _, s.capturing_tool_calls, s.captured_tool_deltas, rfl⟩
  · rw [h]
    exact ⟨c, e, s.tool_carry, s.capturing_tool_calls, s.captured_tool_deltas, rfl⟩

@[simp] theorem emit_content_thinking_carry :
    (emit_content sink options text s).thinking_carry = s.thinking_carry := by
  obtain ⟨_, _, _, _, _, h⟩ := emit_content_eq sink options text s
  rw [h]

@[simp] theorem emit_content_in_reasoning :
    (emit_content sink options text s).in_reasoning = s.in_reasoning := by
  obtain ⟨_, _, _, _, _, h⟩ := emit_content_eq sink options text s
  rw [h]

end Frame

theorem emit_json_events (event : Event) (s : State) :
    s.events <+: (emit_json sink event s).events := by
  unfold emit_json
  split
  · exact List.prefix_append _ _
  · exact List.prefix_refl _

theorem emit_text_events (field : Field) (text : Bytes) (s : State) :
    s.events <+: (emit_text sink field text s).events := by
  unfold emit_text
  split
  · exact List.prefix_refl _
  · exact emit_json_events _ s

theorem emit_content_events (text : Bytes) (s : State) :
    s.events <+: (emit_content sink options text s).events := by
  unfold emit_content
  split
  · dsimp only
    split
    · split
      · exact emit_json_events _ { s with
          tool_carry := s.tool_carry ++ text
          captured_tool_deltas := s.captured_tool_deltas + 1 }
      · exact List.prefix_refl _
    · split
      · exact emit_text_events .content _ s
      · split
        · exact emit_text_events .content _ s
        · exact List.prefix_refl _
  · exact emit_text_events .content _ s

theorem on_thinking_delta_events (raw_delta : Bytes) (s : State) :
    s.events <+: (on_thinking_delta sink options raw_delta s).events := by
  unfold on_thinking_delta
  dsimp only
  split
  · exact (emit_text_events _ _ s).trans (emit_content_events _ _)
  · split
    · exact (emit_text_events _ _ s).trans
        (emit_content_events _ { emit_text sink _ _ s with
          thinking_carry := []
          in_reasoning := false })
    · split
      · exact List.prefix_refl _
      · exact emit_text_events .reasoning_content _ s

/-- **A delta takes no event back.** The events that the client has are a beginning of those it has
after any further delta, whether or not it is still connected. -/
theorem on_delta_events (raw_delta : Bytes) (s : State) :
    s.events <+: (on_delta sink options raw_delta s).events := by
  unfold on_delta
  split
  · split
    · split
      · exact on_thinking_delta_events raw_delta s
      · exact emit_content_events raw_delta s
    · exact emit_text_events .text raw_delta s
  · exact List.prefix_refl _

theorem on_deltas_events (deltas : List Bytes) (s : State) :
    s.events <+: (on_deltas sink options deltas s).events := by
  induction deltas generalizing s with
  | nil => exact List.prefix_refl _
  | cons raw_delta deltas ih => exact (on_delta_events raw_delta s).trans (ih _)

theorem flush_thinking_events (s : State) :
    s.events <+: (flush_thinking sink options s).events := by
  unfold flush_thinking
  split
  · exact List.prefix_refl _
  · split
    · exact emit_text_events _ _ s
    · exact emit_content_events _ s

theorem flush_tools_events (finish_reason : FinishReason) (s : State) :
    s.events <+: (flush_tools sink options numbers finish_reason s).1.events := by
  unfold flush_tools
  split
  · split
    · dsimp only
      split
      · exact emit_text_events _ _ s
      · exact (emit_text_events _ _ s).trans (emit_json_events _ _)
    · exact emit_text_events _ _ s
  · exact List.prefix_refl _

/-- **Nor does the end of the stream**: what has been sent stays sent, for a result as for an error,
and the last events come behind it. -/
theorem finish_events (result : Except Bytes FinishReason) (s : State) :
    s.events <+: (finish sink options numbers result s).events := by
  unfold finish
  cases result with
  | ok finish_reason =>
    exact (((flush_thinking_events s).trans (flush_tools_events finish_reason _)).trans
      (emit_json_events _ _)).trans (emit_json_events _ _)
  | error message => exact (emit_json_events _ s).trans (emit_json_events _ _)

/-- A delta for a client that is gone changes nothing. -/
theorem on_delta_of_not_connected {raw_delta : Bytes} (h : s.connected = false) :
    on_delta sink options raw_delta s = s := if_neg (by simp [h])

/-! ### Nothing is held back of the thinking once it is over -/

/-- Outside the thinking phase `thinking_carry` is empty. -/
def Idle (s : State) : Prop := s.in_reasoning = false → s.thinking_carry = []

theorem Idle.on_delta {raw_delta : Bytes} (h : Idle s) :
    Idle (on_delta sink options raw_delta s) := by
  unfold Sse.on_delta
  split
  · split
    · split
      · next hr =>
        unfold on_thinking_delta
        dsimp only
        split
        · exact fun _ => rfl
        · split
          · exact fun _ => emit_content_thinking_carry sink options _ _
          · split
            · exact fun hcon => absurd (hr.symm.trans hcon) (by decide)
            · intro hcon
              rw [emit_text_in_reasoning] at hcon
              exact absurd (hr.symm.trans hcon) (by decide)
      · exact fun hr => by
          rw [emit_content_in_reasoning] at hr
          rw [emit_content_thinking_carry, h hr]
    · exact fun hr => by
        rw [emit_text_in_reasoning] at hr
        rw [emit_text_thinking_carry, h hr]
  · exact h

theorem Idle.on_deltas {deltas : List Bytes} (h : Idle s) :
    Idle (on_deltas sink options deltas s) := by
  induction deltas generalizing s with
  | nil => exact h
  | cons raw_delta deltas ih => exact ih h.on_delta

theorem idle_start : Idle (start sink options) := by
  unfold start
  split
  · exact fun _ => emit_json_thinking_carry sink _ _
  · exact fun _ => rfl

end Events

end Sse

end Qwen38
