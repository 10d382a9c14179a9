import Qwen38.Lib.Except
import Qwen38.Text.Bytes

/-!
# The chat template

`render_chat_prompt` writes a conversation as the prompt of the model: a system block with
the instruction and the tools, a block for every turn, and the opening of the answer. A tool
call of an assistant turn is written in the XML that the model itself writes
(`Qwen38.render_tool_call`), and the names in it are the only part that can be refused after
the turns have been checked for their order.

A prompt that is rendered contains the text of every call of its assistant turns
(`Qwen38.render_tool_call_infix`).
-/

namespace Qwen38

/-! ### The conversation -/

/-- `ChatRole`. -/
inductive ChatRole
  | system
  | user
  | assistant
  | tool
  deriving DecidableEq

/-- `ChatToolArgument`. -/
structure ChatToolArgument where
  name : Bytes
  rendered_value : Bytes

/-- `ChatToolCall`. -/
structure ChatToolCall where
  name : Bytes
  arguments : List ChatToolArgument

/-- `ChatMessage`. -/
structure ChatMessage where
  role : ChatRole
  content : Bytes
  reasoning_content : Option Bytes
  tool_calls : List ChatToolCall

/-- `ReasoningEffort`. -/
inductive ReasoningEffort
  | xhigh
  | medium
  | low

/-- `ChatTemplateOptions`. -/
structure ChatTemplateOptions where
  add_generation_prompt : Bool
  enable_thinking : Bool
  preserve_thinking : Bool
  reasoning_effort : ReasoningEffort
  tools_json : List Bytes

/-- The bytes of a string literal of the source. -/
def bytes (s : String) : Bytes := ascii s.toList

theorem bytes_append (s t : String) : bytes (s ++ t) = bytes s ++ bytes t := by
  rw [bytes, String.toList_append, ascii, List.map_append]
  rfl

/-- The characters of a long literal, without a pass over its encoding. -/
theorem bytes_eq_ascii {s : String} {letters : List Char} (h : s.toByteArray = letters.utf8Encode) :
    bytes s = ascii letters := by
  rw [bytes, String.toByteArray_inj.mp (h.trans String.toByteArray_ofList.symm),
    String.toList_ofList]

/-! ### The texts of the template -/

/-- `xhigh_instruction`. -/
def xhigh_instruction : Bytes := bytes
  ("Reasoning effort is set to xhigh. Please think carefully through the task, validate key " ++
    "assumptions, consider plausible alternatives, and prioritize correctness, consistency, and " ++
    "clarity in the final answer.")

/-- `low_instruction`. -/
def low_instruction : Bytes := bytes
  ("Reasoning effort is set to low. Keep your thinking brief and focused, moving directly to " ++
    "the conclusion without unnecessary elaboration.")

/-- `tool_instructions`. -/
def tool_instructions : Bytes := bytes
  "# Tools\n\nYou have access to the following functions:\n\n<tools>"

/-- `tool_suffix`. -/
def tool_suffix : Bytes := bytes
  ("\n</tools>\n\nIf you choose to call a function ONLY reply in the following format with NO " ++
    "suffix:\n\n<tool_call>\n<function=example_function_name>\n" ++
    "<parameter=example_parameter_1>\nvalue_1\n</parameter>\n" ++
    "<parameter=example_parameter_2>\nThis is the value for the second parameter\n" ++
    "that can span\nmultiple lines\n</parameter>\n</function>\n</tool_call>\n\n" ++
    "<IMPORTANT>\nReminder:\n- Function calls MUST follow the specified format: an inner " ++
    "<function=...></function> block must be nested within <tool_call></tool_call> XML tags\n" ++
    "- Required parameters MUST be specified\n- You may provide optional reasoning for your " ++
    "function call in natural language BEFORE the function call, but NOT after\n" ++
    "- If there is no function call available, answer the question like normal with your " ++
    "current knowledge and do not tell the user about function calls\n</IMPORTANT>")

/-- The white space that `trim_ascii` drops, which is less than `isspace`. -/
def is_template_space (b : UInt8) : Bool := b == 32 || b == 9 || b == 13 || b == 10

/-- `trim_ascii`. -/
def trim_ascii (input : Bytes) : Bytes :=
  (input.dropWhile is_template_space).rdropWhile is_template_space

/-- `reasoning_instruction`. -/
def reasoning_instruction (options : ChatTemplateOptions) : Bytes :=
  if !options.enable_thinking then []
  else match options.reasoning_effort with
    | .xhigh => xhigh_instruction
    | .medium => []
    | .low => low_instruction

/-- `is_tool_response`. -/
def is_tool_response (message : ChatMessage) : Bool :=
  let content := trim_ascii message.content
  message.role = .user && decide (bytes "<tool_response>" <+: content) &&
    decide (bytes "</tool_response>" <:+ content)

/-! ### Tool calls -/

/-- The names that would break the tags they stand in. -/
def allowed_xml_name (value : Bytes) : Bool :=
  !(value.isEmpty || value.any fun b => b ∈ ascii ['<', '>', '\r', '\n'])

/-- `require_xml_name`. -/
def require_xml_name (value : Bytes) (kind : String) : Except String Unit :=
  Except.throw_if (allowed_xml_name value = false) ("invalid " ++ kind ++ " name")

/-- One parameter of a call. -/
def argument_text (argument : ChatToolArgument) : Bytes :=
  bytes "<parameter=" ++ argument.name ++ bytes ">\n" ++ argument.rendered_value ++
    bytes "\n</parameter>\n"

/-- The parameters of a call, one after the other. -/
def render_arguments : List ChatToolArgument → Except String Bytes
  | [] => .ok []
  | argument :: arguments => do
    let _ ← require_xml_name argument.name "tool parameter"
    let more ← render_arguments arguments
    .ok (argument_text argument ++ more)

/-- One call of an assistant turn. -/
def render_tool_call (call : ChatToolCall) : Except String Bytes := do
  let _ ← require_xml_name call.name "tool"
  let arguments ← render_arguments call.arguments
  .ok (bytes "<tool_call>\n<function=" ++ call.name ++ bytes ">\n" ++ arguments ++
    bytes "</function>\n</tool_call>")

/-- The calls of an assistant turn: the first one, behind `content`, or the ones after it. -/
def render_tool_calls (content : Bytes) (first : Bool) : List ChatToolCall → Except String Bytes
  | [] => .ok []
  | call :: calls => do
    let text ← render_tool_call call
    let more ← render_tool_calls content false calls
    let separator :=
      if first then if content = [] then [] else bytes "\n\n"
      else bytes "\n"
    .ok (separator ++ text ++ more)

/-! ### Turns -/

/-- One turn of the loop over the messages, which the system message passes over. `later`
is `i > last_query`, and `previous` and `next` are the roles of the neighbours. -/
def render_turn (options : ChatTemplateOptions) (later : Bool) (previous next : Option ChatRole)
    (message : ChatMessage) : Except String Bytes :=
  let content := trim_ascii message.content
  match message.role with
  | .system => .ok []
  | .user => .ok (bytes "<|im_start|>user\n" ++ content ++ bytes "<|im_end|>\n")
  | .assistant => do
    let reasoning := trim_ascii (message.reasoning_content.getD [])
    let thinking :=
      if options.preserve_thinking || later then
        bytes "<think>\n" ++ reasoning ++ bytes "\n</think>\n\n"
      else []
    let calls ← render_tool_calls content true message.tool_calls
    .ok (bytes "<|im_start|>assistant\n" ++ thinking ++ content ++ calls ++ bytes "<|im_end|>\n")
  | .tool =>
    .ok ((if previous = some .tool then [] else bytes "<|im_start|>user") ++
      bytes "\n<tool_response>\n" ++ content ++ bytes "\n</tool_response>" ++
      (if next = some .tool then [] else bytes "<|im_end|>\n"))

/-- The loop over the messages, from the message `i` on. -/
def render_turns (options : ChatTemplateOptions) (last_query : Nat) :
    Nat → Option ChatRole → List ChatMessage → Except String Bytes
  | _, _, [] => .ok []
  | i, previous, message :: messages => do
    let next := messages.head?.map ChatMessage.role
    let turn ← render_turn options (decide (last_query < i)) previous next message
    let more ← render_turns options last_query (i + 1) (some message.role) messages
    .ok (turn ++ more)

/-- The system block. -/
def system_block (messages : List ChatMessage) (options : ChatTemplateOptions) : Bytes :=
  let instruction := reasoning_instruction options
  let has_system := messages.head?.map ChatMessage.role = some .system
  let system_content :=
    if has_system then trim_ascii ((messages.head?.map ChatMessage.content).getD []) else []
  if options.tools_json ≠ [] then
    bytes "<|im_start|>system\n" ++ (if instruction = [] then [] else instruction ++ bytes "\n\n") ++
      tool_instructions ++ (options.tools_json.flatMap fun tool => bytes "\n" ++ tool) ++
      tool_suffix ++ (if system_content = [] then [] else bytes "\n\n" ++ system_content) ++
      bytes "<|im_end|>\n"
  else if has_system then
    if system_content = [] ∧ instruction = [] then []
    else
      bytes "<|im_start|>system\n" ++
        (if instruction = [] then []
          else instruction ++ if system_content = [] then [] else bytes "\n\n") ++
        system_content ++ bytes "<|im_end|>\n"
  else if instruction = [] then []
  else bytes "<|im_start|>system\n" ++ instruction ++ bytes "<|im_end|>\n"

/-- The last message of the user that is not a tool response. -/
def last_query (messages : List ChatMessage) : Option Nat :=
  ((messages.zipIdx.filter fun (message, _) =>
    message.role = .user && !is_tool_response message).getLast?).map Prod.snd

/-- `render_chat_prompt`. -/
def render_chat_prompt (messages : List ChatMessage) (options : ChatTemplateOptions) :
    Except String Bytes := do
  let _ ← Except.throw_if (messages = []) "no chat messages provided"
  let _ ← Except.throw_if (messages.tail.any (·.role = .system)) "system message must be first"
  match last_query messages with
  | none => .error "no user query found in messages"
  | some query => do
    let turns ← render_turns options query 0 none messages
    let generation :=
      if options.add_generation_prompt then
        bytes "<|im_start|>assistant\n" ++
          (if options.enable_thinking then bytes "<think>\n" else bytes "<think>\n\n</think>\n\n")
      else []
    .ok (system_block messages options ++ turns ++ generation)

/-! ### What a prompt contains -/

theorem require_xml_name_eq_ok {value : Bytes} {kind : String} {u : Unit} :
    require_xml_name value kind = .ok u ↔ allowed_xml_name value = true := by
  rw [require_xml_name, Except.throw_if_eq_ok, Bool.not_eq_false]

/-- The parameters are refused for their names only. -/
theorem render_arguments_eq_ok {arguments : List ChatToolArgument} {text : Bytes} :
    render_arguments arguments = .ok text ↔
      (∀ a ∈ arguments, allowed_xml_name a.name = true) ∧ text = arguments.flatMap argument_text := by
  induction arguments generalizing text with
  | nil =>
    constructor
    · intro h
      exact ⟨nofun, (Except.ok.inj h).symm⟩
    · rintro ⟨-, rfl⟩
      rfl
  | cons a arguments ih =>
    rw [render_arguments]
    constructor
    · intro h
      obtain ⟨_, hname, h⟩ := Except.bind_eq_ok.mp h
      obtain ⟨more, hmore, h⟩ := Except.bind_eq_ok.mp h
      obtain ⟨hnames, rfl⟩ := ih.mp hmore
      obtain rfl := Except.ok.inj h
      refine ⟨?_, List.flatMap_cons.symm⟩
      rintro b (_ | ⟨_, hb⟩)
      · exact require_xml_name_eq_ok.mp hname
      · exact hnames b hb
    · rintro ⟨hnames, rfl⟩
      refine Except.bind_eq_ok.mpr
        ⟨(), require_xml_name_eq_ok.mpr (hnames a List.mem_cons_self), ?_⟩
      refine Except.bind_eq_ok.mpr
        ⟨_, ih.mpr ⟨fun b hb => hnames b (List.mem_cons_of_mem a hb), rfl⟩, ?_⟩
      rw [List.flatMap_cons]

/-- The text of a call whose names can be written. -/
def call_text (call : ChatToolCall) : Bytes :=
  bytes "<tool_call>\n<function=" ++ call.name ++ bytes ">\n" ++
    call.arguments.flatMap argument_text ++ bytes "</function>\n</tool_call>"

/-- A call is refused for its names only. -/
theorem render_tool_call_eq_ok {call : ChatToolCall} {text : Bytes} :
    render_tool_call call = .ok text ↔
      (allowed_xml_name call.name = true ∧ ∀ a ∈ call.arguments, allowed_xml_name a.name = true) ∧
        text = call_text call := by
  rw [render_tool_call]
  constructor
  · intro h
    obtain ⟨_, hname, h⟩ := Except.bind_eq_ok.mp h
    obtain ⟨arguments, harguments, h⟩ := Except.bind_eq_ok.mp h
    obtain ⟨hnames, rfl⟩ := render_arguments_eq_ok.mp harguments
    obtain rfl := Except.ok.inj h
    exact ⟨⟨require_xml_name_eq_ok.mp hname, hnames⟩, rfl⟩
  · rintro ⟨⟨hname, hnames⟩, rfl⟩
    refine Except.bind_eq_ok.mpr ⟨(), require_xml_name_eq_ok.mpr hname, ?_⟩
    exact Except.bind_eq_ok.mpr ⟨_, render_arguments_eq_ok.mpr ⟨hnames, rfl⟩, rfl⟩

/-- Each call of a turn is written whole. -/
theorem infix_render_tool_calls {content text : Bytes} {first : Bool} {calls : List ChatToolCall}
    (h : render_tool_calls content first calls = .ok text) {call : ChatToolCall}
    (hcall : call ∈ calls) : ∃ one, render_tool_call call = .ok one ∧ one <:+: text := by
  induction calls generalizing first text with
  | nil => exact absurd hcall List.not_mem_nil
  | cons c calls ih =>
    rw [render_tool_calls] at h
    obtain ⟨one, hone, h⟩ := Except.bind_eq_ok.mp h
    obtain ⟨more, hmore, h⟩ := Except.bind_eq_ok.mp h
    obtain rfl := Except.ok.inj h
    rcases List.mem_cons.mp hcall with rfl | hcall
    · exact ⟨one, hone, ⟨_, _, rfl⟩⟩
    · obtain ⟨one', hone', hin⟩ := ih hmore hcall
      exact ⟨one', hone', hin.trans (List.suffix_append _ _).isInfix⟩

/-- The turn of each message is written whole. -/
theorem infix_render_turns {options : ChatTemplateOptions} {query i : Nat}
    {previous : Option ChatRole} {messages : List ChatMessage} {text : Bytes}
    (h : render_turns options query i previous messages = .ok text) {message : ChatMessage}
    (hmessage : message ∈ messages) :
    ∃ later before next turn, render_turn options later before next message = .ok turn ∧
      turn <:+: text := by
  induction messages generalizing i previous text with
  | nil => exact absurd hmessage List.not_mem_nil
  | cons m messages ih =>
    rw [render_turns] at h
    obtain ⟨turn, hturn, h⟩ := Except.bind_eq_ok.mp h
    obtain ⟨more, hmore, h⟩ := Except.bind_eq_ok.mp h
    obtain rfl := Except.ok.inj h
    rcases List.mem_cons.mp hmessage with rfl | hmessage
    · exact ⟨_, _, _, turn, hturn, (List.prefix_append _ _).isInfix⟩
    · obtain ⟨later, before, next, turn', hturn', hin⟩ := ih hmore hmessage
      exact ⟨later, before, next, turn', hturn', hin.trans (List.suffix_append _ _).isInfix⟩

/-- **A prompt contains each call of its assistant turns**, as it is rendered alone. Nothing is put
between its characters, whatever stands before and behind it. -/
theorem render_tool_call_infix {messages : List ChatMessage} {options : ChatTemplateOptions}
    {prompt : Bytes} (h : render_chat_prompt messages options = .ok prompt)
    {message : ChatMessage} (hmessage : message ∈ messages) (hrole : message.role = .assistant)
    {call : ChatToolCall} (hcall : call ∈ message.tool_calls) :
    ∃ text, render_tool_call call = .ok text ∧ text <:+: prompt := by
  rw [render_chat_prompt] at h
  obtain ⟨_, -, h⟩ := Except.bind_eq_ok.mp h
  obtain ⟨_, -, h⟩ := Except.bind_eq_ok.mp h
  split at h
  · exact absurd h nofun
  · next query =>
    obtain ⟨turns, hturns, h⟩ := Except.bind_eq_ok.mp h
    obtain rfl := Except.ok.inj h
    obtain ⟨later, before, next, turn, hturn, hin⟩ := infix_render_turns hturns hmessage
    rw [render_turn, hrole] at hturn
    obtain ⟨calls, hcalls, hturn⟩ := Except.bind_eq_ok.mp hturn
    obtain rfl := Except.ok.inj hturn
    obtain ⟨text, htext, hinfix⟩ := infix_render_tool_calls hcalls hcall
    -- the call in its turn, the turn among the turns, the turns in the prompt
    have hturn : text <:+: bytes "<|im_start|>assistant\n" ++
        (if (options.preserve_thinking || later) = true then
          bytes "<think>\n" ++ trim_ascii (message.reasoning_content.getD []) ++
            bytes "\n</think>\n\n"
        else []) ++ trim_ascii message.content ++ calls ++ bytes "<|im_end|>\n" :=
      hinfix.trans ⟨_, _, rfl⟩
    exact ⟨text, htext, (hturn.trans hin).trans ⟨_, _, rfl⟩⟩

end Qwen38
