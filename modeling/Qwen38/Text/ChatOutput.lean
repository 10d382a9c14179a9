import Qwen38.Text.ToolCall

/-!
# The message of a chat response

`split_chat_output` builds the message of a non-streaming chat response from the whole
generated text: the reasoning is what stands before the first `</think>`, if there is
one, and the tool calls are parsed out of what remains. `completion_json` prints the
result; of its fields, the finish reason is the one that depends on it.
-/

namespace Qwen38

/-- The finish reasons of a response; the engine itself never answers `tool_calls`. -/
inductive FinishReason
  | stop
  | length
  | cancelled
  | tool_calls
  deriving DecidableEq

/-- `ChatOutput`. -/
structure ChatOutput where
  content : Bytes
  reasoning_content : Option Bytes := none
  tool_calls : List ParsedToolCall := []
  deriving DecidableEq

/-- `</think>`, the `close` of both response paths. -/
def think_close : Bytes := ascii ['<', '/', 't', 'h', 'i', 'n', 'k', '>']

section Split

variable (numbers : NumberText)

/-- The part of `split_chat_output` that separates the reasoning. -/
def split_reasoning (text : Bytes) (enable_thinking : Bool) : ChatOutput :=
  if enable_thinking then
    match Search.find think_close text with
    | some separator =>
      { content := trim (text.drop (separator + think_close.length))
        reasoning_content := some (trim (text.take separator)) }
    | none => { content := text }
  else { content := text }

/-- `split_chat_output`. -/
def split_chat_output (text : Bytes) (enable_thinking : Bool) (tool_schemas : List Bytes) :
    ChatOutput :=
  let output := split_reasoning text enable_thinking
  if tool_schemas ≠ [] then
    let parsed := parse_qwen_tool_output numbers tool_schemas output.content
    { output with content := parsed.content, tool_calls := parsed.calls }
  else output

end Split

/-- The finish reason `completion_json` prints with a message. -/
def ChatOutput.finish_reason (output : ChatOutput) (generated : FinishReason) : FinishReason :=
  if output.tool_calls ≠ [] then .tool_calls else generated

/-- What a client has of a chat response: the reasoning and the content it was sent, the
tool calls, and the finish reason once there is one. -/
structure ChatResponse where
  reasoning_content : Bytes := []
  content : Bytes := []
  tool_calls : List ParsedToolCall := []
  finish_reason : Option FinishReason := none
  deriving DecidableEq

/-- The response of the non-streaming path: a missing reasoning counts as empty. -/
def chat_completion (numbers : NumberText) (text : Bytes) (enable_thinking : Bool)
    (tool_schemas : List Bytes) (generated : FinishReason) : ChatResponse :=
  let output := split_chat_output numbers text enable_thinking tool_schemas
  { reasoning_content := output.reasoning_content.getD []
    content := output.content
    tool_calls := output.tool_calls
    finish_reason := some (output.finish_reason generated) }

/-- Two responses agree when they differ only in the white space around the texts. -/
def ChatResponse.Agree (r r' : ChatResponse) : Prop :=
  trim r.reasoning_content = trim r'.reasoning_content ∧ trim r.content = trim r'.content ∧
    r.tool_calls = r'.tool_calls ∧ r.finish_reason = r'.finish_reason

instance (r r' : ChatResponse) : Decidable (r.Agree r') :=
  inferInstanceAs (Decidable (_ ∧ _))

end Qwen38
