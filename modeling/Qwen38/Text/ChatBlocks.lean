import Mathlib.Data.List.Chain
import Qwen38.Lib.Markers
import Qwen38.Text.ChatTemplate

/-!
# The blocks of a chat prompt

`render_chat_prompt` opens and closes blocks: a message opens one unless it is a tool message
behind another, and closes it unless a tool message follows. The markers of the blocks are read
off the prompt with `Markers.marks`, and the texts of the messages bring in no markers where they
hold none: what stands around them begins or ends with a line feed or an angle bracket.

The prompt is a sequence of closed blocks with a group of messages in each, and of an open one at
the end when a generation prompt is asked for (`render_chat_prompt_blocks`).
-/

namespace Qwen38

open Except (bind_eq_ok)
open Markers (marks Marking)

/-! ### The markers -/

def im_start : Bytes := bytes "<|im_start|>"

def im_end : Bytes := bytes "<|im_end|>"

def chat_markers : List Bytes := [im_start, im_end]

theorem marking_chat_markers : Marking 60 chat_markers where
  shape := by
    intro word hword
    rcases List.mem_cons.mp hword with rfl | hword
    · exact ⟨bytes "|im_start|>", by decide +kernel, by decide +kernel⟩
    · obtain rfl := List.mem_singleton.mp hword
      exact ⟨bytes "|im_end|>", by decide +kernel, by decide +kernel⟩
  apart := by decide +kernel
  nodup := by decide +kernel

/-- A text without markers. -/
def Clean (text : Bytes) : Prop := marks chat_markers text = []

instance (text : Bytes) : Decidable (Clean text) := inferInstanceAs (Decidable (_ = _))

theorem clean_iff {text : Bytes} : Clean text ↔ ¬im_start <:+: text ∧ ¬im_end <:+: text := by
  rw [Clean, Markers.marks_eq_nil_iff marking_chat_markers, chat_markers]
  simp only [List.forall_mem_cons, List.not_mem_nil, false_imp_iff, implies_true, and_true]

theorem Clean.of_part {part text : Bytes} (h : Clean text) (hpart : part <:+: text) :
    Clean part := by
  rw [clean_iff] at h ⊢
  exact ⟨fun hc => h.1 (hc.trans hpart), fun hc => h.2 (hc.trans hpart)⟩

/-- Trimming takes nothing but the ends. -/
theorem trim_ascii_part (text : Bytes) : trim_ascii text <:+: text :=
  (List.rdropWhile_prefix _ _).isInfix.trans (List.dropWhile_suffix _).isInfix

/-- What is around a border: a line feed before it, or a line feed or an angle bracket behind. -/
def Joins (before after : Bytes) : Prop :=
  before.getLast? = some 10 ∨ ∀ letter ∈ after.head?, letter = 10 ∨ letter = 60

/-- **No marker comes up** at such a border. -/
theorem marks_join {before after : Bytes} (h : Joins before after) :
    marks chat_markers (before ++ after) = marks chat_markers before ++ marks chat_markers after := by
  rcases h with hlast | hhead
  · obtain ⟨front, rfl⟩ := List.getLast?_eq_some_iff.mp hlast
    have hseparator (rest : Bytes) : marks chat_markers (front ++ 10 :: rest) =
        marks chat_markers front ++ marks chat_markers rest :=
      Markers.marks_append_separator marking_chat_markers (by decide +kernel) (by decide)
    rw [List.append_assoc, List.singleton_append, hseparator, hseparator, Markers.marks,
      List.append_nil]
  · cases after with
    | nil => rw [List.append_nil, Markers.marks, List.append_nil]
    | cons letter after =>
      refine Markers.marks_append marking_chat_markers ?_
      rcases hhead letter rfl with rfl | rfl <;> decide +kernel

namespace Clean

variable {before after : Bytes}

theorem append (hbefore : Clean before) (hafter : Clean after) (h : Joins before after) :
    Clean (before ++ after) := by
  rw [Clean, marks_join h, hbefore, hafter]
  rfl

/-- A tag of another kind, which holds one angle bracket. -/
theorem tag {letter : UInt8} {rest : Bytes} (hletter : letter ≠ 124) (hbracket : 60 ∉ letter :: rest) :
    Clean (60 :: letter :: rest) := by
  have hmarker (more : Bytes) : ¬60 :: 124 :: more <:+: 60 :: letter :: rest := by
    intro hin
    rcases List.infix_cons_iff.mp hin with hstarts | hlater
    · obtain ⟨-, hrest⟩ := List.cons_prefix_cons.mp hstarts
      exact hletter (List.cons_prefix_cons.mp hrest).1.symm
    · exact hbracket (hlater.subset List.mem_cons_self)
  exact clean_iff.mpr ⟨hmarker (bytes "im_start|>"), hmarker (bytes "im_end|>")⟩

end Clean

/-- A text without markers that may stand behind any other. -/
structure Piece (text : Bytes) : Prop where
  clean : Clean text
  head : ∀ letter ∈ text.head?, letter = 10 ∨ letter = 60

/-- A text without markers that may also stand before any other. -/
structure Line (text : Bytes) : Prop extends Piece text where
  last : text.getLast? = some 10

theorem piece_iff {text : Bytes} :
    Piece text ↔ Clean text ∧ ∀ letter ∈ text.head?, letter = 10 ∨ letter = 60 :=
  ⟨fun h => ⟨h.clean, h.head⟩, fun h => ⟨h.1, h.2⟩⟩

namespace Piece

variable {before after : Bytes}

theorem nil : Piece [] := ⟨rfl, nofun⟩

instance (text : Bytes) : Decidable (Piece text) :=
  decidable_of_iff (Clean text ∧ text.head?.all (fun letter => letter == 10 || letter == 60) = true)
    (by cases text <;> simp [piece_iff])

theorem append (hbefore : Piece before) (hafter : Piece after) : Piece (before ++ after) where
  clean := hbefore.clean.append hafter.clean (Or.inr hafter.head)
  head := by
    cases before with
    | nil => exact hafter.head
    | cons first before => exact hbefore.head

theorem flatMap {β : Type} {f : β → Bytes} {items : List β} (h : ∀ item ∈ items, Piece (f item)) :
    Piece (items.flatMap f) := by
  induction items with
  | nil => exact nil
  | cons item items ih =>
    rw [List.flatMap_cons]
    exact (h item List.mem_cons_self).append (ih fun other hother =>
      h other (List.mem_cons_of_mem _ hother))

end Piece

/-- What goes on behind a line feed. -/
theorem Line.append {before after : Bytes} (hbefore : Line before) (hafter : Clean after) :
    Piece (before ++ after) where
  clean := hbefore.clean.append hafter (Or.inl hbefore.last)
  head := by
    cases before with
    | nil => exact absurd hbefore.last nofun
    | cons first rest => exact hbefore.head

theorem getLast?_append_line {before line : Bytes} (h : Line line) :
    (before ++ line).getLast? = some 10 := by
  obtain ⟨front, rfl⟩ := List.getLast?_eq_some_iff.mp h.last
  rw [← List.append_assoc, List.getLast?_concat]

theorem line_iff {text : Bytes} : Line text ↔ Piece text ∧ text.getLast? = some 10 :=
  ⟨fun h => ⟨h.toPiece, h.last⟩, fun h => ⟨h.1, h.2⟩⟩

instance (text : Bytes) : Decidable (Line text) := decidable_of_iff _ line_iff.symm

/-! ### The texts of the template -/

theorem line_feed : Line (bytes "\n") := by
  rw [bytes_eq_ascii rfl]
  decide

theorem line_gap : Line (bytes "\n\n") := by
  rw [bytes_eq_ascii rfl]
  decide

theorem line_tool_call : Line (bytes "<tool_call>\n") := by
  rw [bytes_eq_ascii rfl]
  decide

theorem line_end_parameter : Line (bytes "\n</parameter>\n") := by
  rw [bytes_eq_ascii rfl]
  decide

theorem piece_end_call : Piece (bytes "</function>\n</tool_call>") := by
  rw [bytes_eq_ascii rfl]
  decide

theorem line_tool_response : Line (bytes "<tool_response>\n") := by
  rw [bytes_eq_ascii rfl]
  decide

theorem piece_end_tool_response : Piece (bytes "\n</tool_response>") := by
  rw [bytes_eq_ascii rfl]
  decide

theorem line_think : Line (bytes "<think>\n") := by
  rw [bytes_eq_ascii rfl]
  decide

theorem line_end_think : Line (bytes "\n</think>\n\n") := by
  rw [bytes_eq_ascii rfl]
  decide

theorem clean_user : Clean (bytes "user") := by
  rw [bytes_eq_ascii rfl]
  decide

theorem clean_assistant : Clean (bytes "assistant") := by
  rw [bytes_eq_ascii rfl]
  decide

theorem clean_system : Clean (bytes "system") := by
  rw [bytes_eq_ascii rfl]
  decide

/-! ### Calls -/

theorem not_mem_of_allowed {name : Bytes} (h : allowed_xml_name name = true) :
    (60 : UInt8) ∉ name := by
  rw [allowed_xml_name, Bool.not_eq_true', Bool.or_eq_false_iff] at h
  exact fun hmem => absurd (List.any_eq_false.mp h.2 60 hmem) (by decide)

/-- A tag with an allowed name, and the line feed behind it. -/
theorem line_named_tag {letter : UInt8} {tag name : Bytes} (hletter : letter ≠ 124)
    (htag : 60 ∉ letter :: tag) (hname : allowed_xml_name name = true) :
    Line (60 :: letter :: tag ++ name ++ bytes ">\n") where
  clean := by
    refine Clean.tag hletter ?_
    change 60 ∉ letter :: tag ++ name ++ bytes ">\n"
    rw [List.mem_append, List.mem_append]
    rintro ((hmem | hmem) | hmem)
    · exact htag hmem
    · exact not_mem_of_allowed hname hmem
    · rw [bytes_eq_ascii rfl] at hmem
      exact absurd hmem (by decide)
  head := by
    rintro _ ⟨rfl⟩
    exact Or.inr rfl
  last := by
    rw [bytes_eq_ascii rfl, List.getLast?_append_of_ne_nil _ (by decide)]
    rfl

/-- The tag of a parameter or of a function. -/
theorem line_parameter_tag {name : Bytes} (h : allowed_xml_name name = true) :
    Line (bytes "<parameter=" ++ name ++ bytes ">\n") := by
  rw [@bytes_eq_ascii "<parameter=" _ rfl]
  exact line_named_tag (by decide) (by decide) h

theorem line_function_tag {name : Bytes} (h : allowed_xml_name name = true) :
    Line (bytes "<function=" ++ name ++ bytes ">\n") := by
  rw [@bytes_eq_ascii "<function=" _ rfl]
  exact line_named_tag (by decide) (by decide) h

theorem piece_argument_text {argument : ChatToolArgument}
    (hname : allowed_xml_name argument.name = true) (hvalue : Clean argument.rendered_value) :
    Piece (argument_text argument) :=
  ((line_parameter_tag hname).append hvalue).append line_end_parameter.toPiece

theorem piece_call_text {call : ChatToolCall} (hname : allowed_xml_name call.name = true)
    (hnames : ∀ a ∈ call.arguments, allowed_xml_name a.name = true)
    (hvalues : ∀ a ∈ call.arguments, Clean a.rendered_value) : Piece (call_text call) := by
  have harguments : Piece (call.arguments.flatMap argument_text) :=
    Piece.flatMap fun a ha => piece_argument_text (hnames a ha) (hvalues a ha)
  have hopen := line_tool_call.toPiece.append (line_function_tag hname).toPiece
  have hsplit : bytes "<tool_call>\n<function=" = bytes "<tool_call>\n" ++ bytes "<function=" :=
    bytes_append "<tool_call>\n" "<function="
  rw [call_text, hsplit]
  simpa only [List.append_assoc] using hopen.append (harguments.append piece_end_call)

/-- The calls of a turn. -/
theorem piece_render_tool_calls {content text : Bytes} {first : Bool} {calls : List ChatToolCall}
    (h : render_tool_calls content first calls = .ok text)
    (hvalues : ∀ call ∈ calls, ∀ a ∈ call.arguments, Clean a.rendered_value) : Piece text := by
  induction calls generalizing first text with
  | nil =>
    obtain rfl := Except.ok.inj h
    exact Piece.nil
  | cons call calls ih =>
    obtain ⟨one, hone, h⟩ := bind_eq_ok.mp h
    obtain ⟨more, hmore, h⟩ := bind_eq_ok.mp h
    obtain rfl := Except.ok.inj h
    obtain ⟨⟨hname, hnames⟩, rfl⟩ := render_tool_call_eq_ok.mp hone
    have hcall := piece_call_text hname hnames (hvalues call List.mem_cons_self)
    have hcalls := ih hmore fun other hother => hvalues other (List.mem_cons_of_mem _ hother)
    refine (Piece.append ?_ hcall).append hcalls
    split
    · split
      · exact Piece.nil
      · exact line_gap.toPiece
    · exact line_feed.toPiece

/-! ### Blocks -/

/-- A closed block. -/
structure TurnBlock where
  role : Bytes
  body : Bytes

namespace TurnBlock

def text (block : TurnBlock) : Bytes :=
  im_start ++ block.role ++ bytes "\n" ++ block.body ++ im_end ++ bytes "\n"

/-- The texts of a block hold no markers. -/
structure IsClean (block : TurnBlock) : Prop where
  role : Clean block.role
  body : Clean block.body

/-- **The markers of a block** are its own. -/
theorem marks_text_append {block : TurnBlock} (h : block.IsClean) (rest : Bytes) :
    marks chat_markers (block.text ++ rest) = im_start :: im_end :: marks chat_markers rest := by
  have hline (text : Bytes) : marks chat_markers (bytes "\n" ++ text) = marks chat_markers text := by
    have hline : marks chat_markers (bytes "\n") = [] := line_feed.clean
    rw [marks_join (Or.inl line_feed.last), hline, List.nil_append]
  have hstart (text : Bytes) : marks chat_markers (im_start ++ text) =
      im_start :: marks chat_markers text :=
    Markers.marks_word marking_chat_markers List.mem_cons_self
  have hend (text : Bytes) : marks chat_markers (im_end ++ text) =
      im_end :: marks chat_markers text :=
    Markers.marks_word marking_chat_markers (List.mem_cons_of_mem _ List.mem_cons_self)
  have hrole : marks chat_markers block.role = [] := h.role
  have hbody : marks chat_markers block.body = [] := h.body
  simp only [text, List.append_assoc]
  rw [hstart, marks_join (Or.inr ?_), hrole, List.nil_append, hline, marks_join (Or.inr ?_), hbody,
    List.nil_append, hend, hline]
  · rintro _ ⟨rfl⟩
    exact Or.inr rfl
  · rintro _ ⟨rfl⟩
    exact Or.inl rfl

/-- The markers of a sequence of blocks: an opening one and a closing one for each. -/
theorem marks_flatMap_append {blocks : List TurnBlock} (h : ∀ block ∈ blocks, block.IsClean)
    (rest : Bytes) : marks chat_markers (blocks.flatMap text ++ rest) =
      (blocks.flatMap fun _ => [im_start, im_end]) ++ marks chat_markers rest := by
  induction blocks with
  | nil => rfl
  | cons block blocks ih =>
    rw [List.flatMap_cons, List.append_assoc, marks_text_append (h block List.mem_cons_self),
      ih fun other hother => h other (List.mem_cons_of_mem _ hother)]
    rfl

end TurnBlock

/-! ### Groups of messages -/

/-- The response of a tool, as the next part of a block. -/
def tool_response (message : ChatMessage) : Bytes :=
  bytes "<tool_response>\n" ++ trim_ascii message.content ++ bytes "\n</tool_response>"

/-- Tool messages only. -/
def IsToolRun (group : List ChatMessage) : Prop := ∀ message ∈ group, message.role = .tool

/-- The block of a group: a message of the user or of the assistant, or a run of tool messages. -/
inductive Renders : List ChatMessage → TurnBlock → Prop
  | user {message : ChatMessage} (h : message.role = .user) :
    Renders [message] ⟨bytes "user", trim_ascii message.content⟩
  | assistant {message : ChatMessage} {thinking calls : Bytes} (h : message.role = .assistant)
      (hthinking : thinking = [] ∨ thinking = bytes "<think>\n" ++
        trim_ascii (message.reasoning_content.getD []) ++ bytes "\n</think>\n\n")
      (hcalls : render_tool_calls (trim_ascii message.content) true message.tool_calls = .ok calls) :
    Renders [message] ⟨bytes "assistant", thinking ++ trim_ascii message.content ++ calls⟩
  | tools {message : ChatMessage} {run : List ChatMessage} (h : IsToolRun (message :: run)) :
    Renders (message :: run) ⟨bytes "user",
      tool_response message ++ run.flatMap fun other => bytes "\n" ++ tool_response other⟩

/-- The texts of a message hold no markers. -/
structure CleanMessage (message : ChatMessage) : Prop where
  content : Clean message.content
  reasoning_content : ∀ reasoning ∈ message.reasoning_content, Clean reasoning
  tool_calls : ∀ call ∈ message.tool_calls, ∀ a ∈ call.arguments, Clean a.rendered_value

theorem CleanMessage.trim {message : ChatMessage} (h : CleanMessage message) :
    Clean (trim_ascii message.content) :=
  h.content.of_part (trim_ascii_part _)

theorem CleanMessage.piece_tool_response {message : ChatMessage} (h : CleanMessage message) :
    Piece (tool_response message) :=
  (line_tool_response.append h.trim).append piece_end_tool_response

/-- The thinking of an assistant turn. -/
theorem CleanMessage.thinking {message : ChatMessage} (h : CleanMessage message) :
    Clean (bytes "<think>\n" ++ trim_ascii (message.reasoning_content.getD []) ++
      bytes "\n</think>\n\n") := by
  have hreasoning : Clean (trim_ascii (message.reasoning_content.getD [])) := by
    cases hr : message.reasoning_content with
    | none => exact Piece.nil.clean
    | some reasoning => exact (h.reasoning_content reasoning hr).of_part (trim_ascii_part _)
  exact ((line_think.append hreasoning).append line_end_think.toPiece).clean

/-- The block of a group brings in no markers. -/
theorem Renders.isClean {group : List ChatMessage} {block : TurnBlock} (h : Renders group block)
    (hclean : ∀ message ∈ group, CleanMessage message) : block.IsClean := by
  cases h with
  | user h => exact ⟨clean_user, (hclean _ List.mem_cons_self).trim⟩
  | @assistant message thinking calls h hthinking hcalls =>
    have hmessage := hclean _ List.mem_cons_self
    have hpiece := piece_render_tool_calls hcalls hmessage.tool_calls
    have hfront : Clean (thinking ++ trim_ascii message.content) := by
      rcases hthinking with rfl | rfl
      · exact hmessage.trim
      · refine hmessage.thinking.append hmessage.trim (Or.inl ?_)
        exact getLast?_append_line line_end_think
    exact ⟨clean_assistant, hfront.append hpiece.clean (Or.inr hpiece.head)⟩
  | @tools message run h =>
    refine ⟨clean_user, Piece.clean (Piece.append ?_ ?_)⟩
    · exact (hclean _ List.mem_cons_self).piece_tool_response
    · refine Piece.flatMap fun other hother => line_feed.toPiece.append ?_
      exact (hclean other (List.mem_cons_of_mem _ hother)).piece_tool_response

/-- Messages in groups, in their order, and the block of each: no run of tool messages is cut. -/
structure Grouping (messages : List ChatMessage) (groups : List (List ChatMessage))
    (blocks : List TurnBlock) : Prop where
  flatten : groups.flatten = messages
  renders : List.Forall₂ Renders groups blocks
  maximal : groups.IsChain fun group next => ¬(IsToolRun group ∧ IsToolRun next)

namespace Grouping

variable {group messages : List ChatMessage} {groups : List (List ChatMessage)} {block : TurnBlock}
  {blocks : List TurnBlock}

theorem nil : Grouping [] [] [] := ⟨rfl, .nil, .nil⟩

/-- A group starts with its first message. -/
theorem head_of_isToolRun (h : Grouping messages (group :: groups) blocks) (hrun : IsToolRun group) :
    messages.head?.map ChatMessage.role = some .tool := by
  obtain ⟨rfl, hrenders, -⟩ := h
  obtain ⟨block, blocks, hblock, -, rfl⟩ := List.forall₂_cons_left_iff.mp hrenders
  cases hblock with
  | user _ => exact congrArg some (hrun _ List.mem_cons_self)
  | assistant _ _ _ => exact congrArg some (hrun _ List.mem_cons_self)
  | tools _ => exact congrArg some (hrun _ List.mem_cons_self)

/-- One more group in front, behind which no tool message follows when it is a run of them. -/
theorem cons (h : Grouping messages groups blocks) (hblock : Renders group block)
    (hhead : IsToolRun group → messages.head?.map ChatMessage.role ≠ some .tool) :
    Grouping (group ++ messages) (group :: groups) (block :: blocks) where
  flatten := by rw [List.flatten_cons, h.flatten]
  renders := .cons hblock h.renders
  maximal := by
    refine List.isChain_cons.mpr ⟨fun next hnext hruns => ?_, h.maximal⟩
    cases groups with
    | nil => exact absurd hnext nofun
    | cons first groups =>
      obtain rfl := Option.some.inj hnext
      exact hhead hruns.1 (h.head_of_isToolRun hruns.2)

theorem isClean (h : Grouping messages groups blocks)
    (hmessages : ∀ message ∈ messages, CleanMessage message) : ∀ block ∈ blocks, block.IsClean := by
  intro block hblock
  obtain ⟨i, hi, rfl⟩ := List.getElem_of_mem hblock
  have hgroup : i < groups.length := h.renders.length_eq ▸ hi
  refine (h.renders.get hgroup hi).isClean fun message hmessage => hmessages message ?_
  rw [← h.flatten]
  exact List.mem_flatten_of_mem (List.getElem_mem hgroup) hmessage

end Grouping

/-! ### The loop -/

theorem open_block (role : String) : bytes ("<|im_start|>" ++ role) = im_start ++ bytes role :=
  bytes_append _ role

theorem open_block_line (role : String) :
    bytes ("<|im_start|>" ++ role ++ "\n") = im_start ++ bytes role ++ bytes "\n" := by
  rw [bytes_append, bytes_append, im_start]

theorem close_block : bytes "<|im_end|>\n" = im_end ++ bytes "\n" :=
  bytes_append "<|im_end|>" "\n"

section Turns

variable {options : ChatTemplateOptions} {query i : Nat} {previous : Option ChatRole}
  {message : ChatMessage} {messages : List ChatMessage} {text : Bytes}

/-- The turn of the user or of the assistant is one block. -/
theorem render_turn_block {later : Bool} {next : Option ChatRole} {turn : Bytes}
    (hsystem : message.role ≠ .system) (htool : message.role ≠ .tool)
    (h : render_turn options later previous next message = .ok turn) :
    ∃ block, Renders [message] block ∧ turn = block.text := by
  rw [render_turn] at h
  cases hrole : message.role with
  | system => exact absurd hrole hsystem
  | tool => exact absurd hrole htool
  | user =>
    simp only [hrole] at h
    obtain rfl := Except.ok.inj h
    refine ⟨_, .user hrole, ?_⟩
    have hopen : bytes "<|im_start|>user\n" = im_start ++ bytes "user" ++ bytes "\n" :=
      open_block_line "user"
    rw [hopen, close_block, TurnBlock.text]
    simp only [List.append_assoc]
  | assistant =>
    simp only [hrole] at h
    obtain ⟨calls, hcalls, h⟩ := bind_eq_ok.mp h
    obtain rfl := Except.ok.inj h
    have hthinking (written : Bool) (t : Bytes) :
        (if written = true then t else []) = [] ∨ (if written = true then t else []) = t := by
      cases written
      · exact Or.inl rfl
      · exact Or.inr rfl
    refine ⟨_, .assistant hrole (hthinking (options.preserve_thinking || later) _) hcalls, ?_⟩
    have hopen : bytes "<|im_start|>assistant\n" = im_start ++ bytes "assistant" ++ bytes "\n" :=
      open_block_line "assistant"
    rw [hopen, close_block, TurnBlock.text]
    simp only [List.append_assoc]

/-- The turn of a tool message. -/
theorem render_turn_tool {later : Bool} {next : Option ChatRole} (hmessage : message.role = .tool) :
    render_turn options later previous next message =
      .ok ((if previous = some .tool then [] else bytes "<|im_start|>user") ++
        (bytes "\n" ++ tool_response message) ++
        (if next = some .tool then [] else bytes "<|im_end|>\n")) := by
  have hsplit : bytes "\n<tool_response>\n" = bytes "\n" ++ bytes "<tool_response>\n" :=
    bytes_append "\n" "<tool_response>\n"
  rw [render_turn, hmessage]
  dsimp only
  rw [hsplit, tool_response]
  simp only [List.append_assoc]

/-- **A run of tool messages is one block**: the first opens it where none is open, and the last
closes it. -/
theorem render_tool_run (hmessage : message.role = .tool)
    (h : render_turns options query i previous (message :: messages) = .ok text) :
    ∃ run rest more, messages = run ++ rest ∧ IsToolRun run ∧
      rest.head?.map ChatMessage.role ≠ some .tool ∧
      render_turns options query (i + 1 + run.length) (some .tool) rest = .ok more ∧
      text = (if previous = some .tool then [] else bytes "<|im_start|>user") ++
        ((message :: run).flatMap fun other => bytes "\n" ++ tool_response other) ++
        bytes "<|im_end|>\n" ++ more := by
  induction messages generalizing message i previous text with
  | nil =>
    obtain ⟨turn, hturn, h⟩ := bind_eq_ok.mp h
    obtain ⟨more, hmore, h⟩ := bind_eq_ok.mp h
    obtain rfl := Except.ok.inj h
    rw [render_turn_tool hmessage] at hturn
    obtain rfl := Except.ok.inj hturn
    rw [hmessage] at hmore
    refine ⟨[], [], more, rfl, nofun, nofun, hmore, ?_⟩
    rw [List.flatMap_singleton]
    rfl
  | cons next messages ih =>
    obtain ⟨turn, hturn, h⟩ := bind_eq_ok.mp h
    obtain ⟨more, hmore, h⟩ := bind_eq_ok.mp h
    obtain rfl := Except.ok.inj h
    rw [render_turn_tool hmessage] at hturn
    obtain rfl := Except.ok.inj hturn
    rw [hmessage] at hmore
    -- the run goes on with the next message, or this one closes the block
    by_cases hnext : next.role = .tool
    · obtain ⟨run, rest, last, rfl, hrun, hrest, hlast, rfl⟩ := ih hnext hmore
      refine ⟨next :: run, rest, last, rfl, List.forall_mem_cons.mpr ⟨hnext, hrun⟩, hrest, ?_, ?_⟩
      · rw [List.length_cons, Nat.add_comm run.length, ← Nat.add_assoc]
        exact hlast
      · have hhead : (next :: (run ++ rest)).head?.map ChatMessage.role = some .tool :=
          congrArg some hnext
        rw [if_pos hhead, if_pos rfl]
        simp only [List.flatMap_cons, List.append_assoc, List.nil_append]
    · have hopen : ¬(next :: messages).head?.map ChatMessage.role = some .tool :=
        fun hc => hnext (Option.some.inj hc)
      refine ⟨[], next :: messages, more, rfl, nofun, hopen, hmore, ?_⟩
      rw [if_neg hopen, List.flatMap_singleton]

/-- **Every message is in one block**, each run of tool messages in one. -/
theorem render_turns_blocks (hsystem : ∀ m ∈ messages, m.role ≠ .system)
    (hprevious : previous = some .tool → messages.head?.map ChatMessage.role ≠ some .tool)
    (h : render_turns options query i previous messages = .ok text) :
    ∃ groups blocks, Grouping messages groups blocks ∧ text = blocks.flatMap TurnBlock.text := by
  induction hn : messages.length using Nat.strong_induction_on
    generalizing messages i previous text with
  | _ n ih =>
    cases messages with
    | nil =>
      obtain rfl := Except.ok.inj h
      exact ⟨[], [], .nil, rfl⟩
    | cons message messages =>
      -- what is left once a group has been taken from the front
      have hrest {rest : List ChatMessage} (hsuffix : rest <:+ messages) : rest.length < n :=
        hn ▸ Nat.lt_succ_of_le hsuffix.length_le
      by_cases hmessage : message.role = .tool
      · obtain ⟨run, rest, more, rfl, hrun, hhead, hmore, rfl⟩ := render_tool_run hmessage h
        have hfirst : previous ≠ some .tool := fun hc => hprevious hc (congrArg some hmessage)
        obtain ⟨groups, blocks, hgrouping, rfl⟩ := ih _ (hrest (List.suffix_append _ _))
          (fun m hm => hsystem m (List.mem_cons_of_mem _ (List.mem_append_right _ hm)))
          (fun _ => hhead) hmore rfl
        have htools : IsToolRun (message :: run) := List.forall_mem_cons.mpr ⟨hmessage, hrun⟩
        refine ⟨_, _, hgrouping.cons (.tools htools) fun _ => hhead, ?_⟩
        have hopen : bytes "<|im_start|>user" = im_start ++ bytes "user" := open_block "user"
        rw [if_neg hfirst, hopen, close_block, List.flatMap_cons, List.flatMap_cons, TurnBlock.text]
        simp only [List.append_assoc]
      · obtain ⟨turn, hturn, h⟩ := bind_eq_ok.mp h
        obtain ⟨more, hmore, h⟩ := bind_eq_ok.mp h
        obtain rfl := Except.ok.inj h
        obtain ⟨block, hblock, rfl⟩ :=
          render_turn_block (hsystem message List.mem_cons_self) hmessage hturn
        obtain ⟨groups, blocks, hgrouping, rfl⟩ := ih _ (hrest List.suffix_rfl)
          (fun m hm => hsystem m (List.mem_cons_of_mem _ hm))
          (fun hc => absurd (Option.some.inj hc) hmessage) hmore rfl
        have hnot : ¬IsToolRun [message] := fun hrun => hmessage (hrun _ List.mem_cons_self)
        exact ⟨_, _, hgrouping.cons hblock fun hrun => absurd hrun hnot, rfl⟩

/-- The loop over the messages of a prompt, whose system message can only be the first. -/
theorem render_turns_filter {u : Unit}
    (hfirst : Except.throw_if (messages.tail.any (·.role = .system))
      "system message must be first" = .ok u)
    (h : render_turns options query 0 none messages = .ok text) :
    ∃ groups blocks, Grouping (messages.filter (·.role ≠ .system)) groups blocks ∧
      text = blocks.flatMap TurnBlock.text := by
  have htail : ∀ m ∈ messages.tail, m.role ≠ .system := by
    rw [Except.throw_if_eq_ok, List.any_eq_true] at hfirst
    exact fun m hm hrole => hfirst ⟨m, hm, decide_eq_true hrole⟩
  have hkept {kept : List ChatMessage} (hkept : ∀ m ∈ kept, m.role ≠ .system) :
      kept.filter (·.role ≠ .system) = kept :=
    List.filter_eq_self.mpr fun m hm => decide_eq_true (hkept m hm)
  cases messages with
  | nil =>
    obtain rfl := Except.ok.inj h
    exact ⟨[], [], .nil, rfl⟩
  | cons message messages =>
    by_cases hmessage : message.role = .system
    · -- the first message is passed over
      rw [List.filter_cons_of_neg (by simp [hmessage]), @hkept messages htail]
      obtain ⟨turn, hturn, h⟩ := bind_eq_ok.mp h
      obtain ⟨more, hmore, h⟩ := bind_eq_ok.mp h
      obtain rfl := Except.ok.inj h
      rw [render_turn, hmessage] at hturn
      obtain rfl := Except.ok.inj hturn
      rw [hmessage] at hmore
      have hother : some ChatRole.system ≠ some .tool := by decide
      exact render_turns_blocks htail (fun hc => absurd hc hother) hmore
    · have hall : ∀ m ∈ message :: messages, m.role ≠ .system :=
        List.forall_mem_cons.mpr ⟨hmessage, htail⟩
      rw [hkept hall]
      exact render_turns_blocks hall (fun hc => absurd hc (Option.some_ne_none _).symm) h

end Turns

/-! ### The system block -/

section System

variable {options : ChatTemplateOptions} {messages : List ChatMessage} {body content text : Bytes}

theorem clean_reasoning_instruction : Clean (reasoning_instruction options) := by
  have hxhigh : Clean xhigh_instruction := by
    rw [xhigh_instruction, bytes_append, bytes_append]
    repeat rw [bytes_eq_ascii rfl]
    decide +kernel
  have hlow : Clean low_instruction := by
    rw [low_instruction, bytes_append]
    repeat rw [bytes_eq_ascii rfl]
    decide +kernel
  rw [reasoning_instruction]
  split
  · exact Piece.nil.clean
  · split
    · exact hxhigh
    · exact Piece.nil.clean
    · exact hlow

/-- What stands behind an empty line. -/
theorem piece_gap (h : Clean content) : Piece (bytes "\n\n" ++ content) :=
  line_gap.append h

theorem clean_tool_instructions : Clean tool_instructions := by
  rw [tool_instructions, bytes_eq_ascii rfl]
  decide +kernel

theorem piece_tool_suffix : Piece tool_suffix := by
  have htext : tool_suffix = 10 :: tool_suffix.tail := by
    rw [tool_suffix]
    simp only [bytes_append]
    repeat rw [bytes_eq_ascii rfl]
    rfl
  have hclean : Clean tool_suffix := by
    rw [tool_suffix]
    simp only [bytes_append]
    repeat rw [bytes_eq_ascii rfl]
    decide +kernel
  refine ⟨hclean, ?_⟩
  rw [htext]
  rintro _ ⟨rfl⟩
  exact Or.inl rfl

/-- The header of the tools, and what stands behind it. -/
theorem clean_tools_header {front : Bytes}
    (hfront : front = [] ∨ Clean front ∧ front.getLast? = some 10)
    (htools : ∀ tool ∈ options.tools_json, Clean tool) (hcontent : Clean content) :
    Clean (front ++ tool_instructions ++ (options.tools_json.flatMap fun tool => bytes "\n" ++ tool) ++
      tool_suffix ++ (if content = [] then [] else bytes "\n\n" ++ content)) := by
  have hschemas : Piece (options.tools_json.flatMap fun tool => bytes "\n" ++ tool) :=
    Piece.flatMap fun tool htool => line_feed.append (htools tool htool)
  have hbehind : Piece (if content = [] then [] else bytes "\n\n" ++ content) := by
    split
    · exact Piece.nil
    · exact piece_gap hcontent
  have hheader : Clean (front ++ tool_instructions) := by
    rcases hfront with rfl | ⟨hclean, hlast⟩
    · exact clean_tool_instructions
    · exact hclean.append clean_tool_instructions (Or.inl hlast)
  have hrest := (hschemas.append piece_tool_suffix).append hbehind
  simpa only [List.append_assoc] using hheader.append hrest.clean (Or.inr hrest.head)

/-- The instruction, and the system message behind it. -/
theorem clean_instruction {instruction : Bytes} (hinstruction : Clean instruction)
    (hcontent : Clean content) :
    Clean ((if instruction = [] then []
      else instruction ++ if content = [] then [] else bytes "\n\n") ++ content) := by
  split
  · exact hcontent
  · split
    · next hempty =>
      rw [hempty, List.append_nil, List.append_nil]
      exact hinstruction
    · rw [List.append_assoc]
      exact hinstruction.append (piece_gap hcontent).clean (Or.inr (piece_gap hcontent).head)

/-- A system block with a given body. -/
theorem system_of_body (hbody : Clean body)
    (htext : text = bytes "<|im_start|>system\n" ++ body ++ bytes "<|im_end|>\n") :
    ∃ system : Option TurnBlock, (∀ block ∈ system, block.role = bytes "system" ∧ block.IsClean) ∧
      text = system.toList.flatMap TurnBlock.text := by
  refine ⟨some ⟨bytes "system", body⟩, ?_, ?_⟩
  · rintro _ ⟨rfl⟩
    exact ⟨rfl, clean_system, hbody⟩
  · have hopen : bytes "<|im_start|>system\n" = im_start ++ bytes "system" ++ bytes "\n" :=
      open_block_line "system"
    rw [htext, Option.toList_some, List.flatMap_singleton, close_block, hopen, TurnBlock.text]
    simp only [List.append_assoc]

/-- **At most one system block**, without markers of its own texts. -/
theorem system_block_blocks (hmessages : ∀ m ∈ messages, CleanMessage m)
    (htools : ∀ tool ∈ options.tools_json, Clean tool) :
    ∃ system : Option TurnBlock, (∀ block ∈ system, block.role = bytes "system" ∧ block.IsClean) ∧
      system_block messages options = system.toList.flatMap TurnBlock.text := by
  have hinstruction : Clean (reasoning_instruction options) := clean_reasoning_instruction
  have hcontent : Clean (if messages.head?.map ChatMessage.role = some .system then
      trim_ascii ((messages.head?.map ChatMessage.content).getD []) else []) := by
    split
    · cases messages with
      | nil => exact Piece.nil.clean
      | cons message messages => exact (hmessages message List.mem_cons_self).trim
    · exact Piece.nil.clean
  rw [system_block]
  generalize reasoning_instruction options = instruction at *
  generalize (if messages.head?.map ChatMessage.role = some .system then
      trim_ascii ((messages.head?.map ChatMessage.content).getD []) else []) = content at *
  have hgap : Clean (instruction ++ bytes "\n\n") := by
    simpa only [List.append_nil] using hinstruction.append (piece_gap Piece.nil.clean).clean
      (Or.inr (piece_gap Piece.nil.clean).head)
  -- nothing to say: no block
  have hnone : ∃ system : Option TurnBlock,
      (∀ block ∈ system, block.role = bytes "system" ∧ block.IsClean) ∧
        [] = system.toList.flatMap TurnBlock.text := ⟨none, nofun, rfl⟩
  split
  · have hfront : (if instruction = [] then [] else instruction ++ bytes "\n\n") = [] ∨
        Clean (if instruction = [] then [] else instruction ++ bytes "\n\n") ∧
          (if instruction = [] then [] else instruction ++ bytes "\n\n").getLast? = some 10 := by
      split
      · exact Or.inl rfl
      · refine Or.inr ⟨hgap, ?_⟩
        exact getLast?_append_line line_gap
    refine system_of_body (clean_tools_header hfront htools hcontent) ?_
    simp only [List.append_assoc]
  · split
    · split
      · exact hnone
      · refine system_of_body (clean_instruction hinstruction hcontent) ?_
        simp only [List.append_assoc]
    · split
      · exact hnone
      · exact system_of_body hinstruction rfl

end System

/-! ### The prompt -/

/-- The block that the answer goes on with. -/
def generation (options : ChatTemplateOptions) : Bytes :=
  if options.add_generation_prompt then
    im_start ++ bytes "assistant\n" ++
      (if options.enable_thinking then bytes "<think>\n" else bytes "<think>\n\n</think>\n\n")
  else []

/-- The block of the answer is left open. -/
theorem marks_generation (options : ChatTemplateOptions) :
    marks chat_markers (generation options) =
      if options.add_generation_prompt then [im_start] else [] := by
  rw [generation]
  split
  · split <;> decide +kernel
  · rfl

/-- **The prompt is a sequence of closed blocks**, behind which only the block of the answer is
open: a system block first, if there is one, and then a block for each group of messages. The only
markers in it are those that open and close the blocks. -/
theorem render_chat_prompt_blocks {messages : List ChatMessage} {options : ChatTemplateOptions}
    {text : Bytes} (h : render_chat_prompt messages options = .ok text)
    (hmessages : ∀ m ∈ messages, CleanMessage m)
    (htools : ∀ tool ∈ options.tools_json, Clean tool) :
    ∃ (system : Option TurnBlock) (groups : List (List ChatMessage)) (blocks : List TurnBlock),
      (∀ block ∈ system, block.role = bytes "system") ∧
        Grouping (messages.filter (·.role ≠ .system)) groups blocks ∧
        text = (system.toList ++ blocks).flatMap TurnBlock.text ++ generation options ∧
        (∀ block ∈ system.toList ++ blocks, block.IsClean) ∧
        marks chat_markers text =
          ((system.toList ++ blocks).flatMap fun _ => [im_start, im_end]) ++
            if options.add_generation_prompt then [im_start] else [] := by
  obtain ⟨_, hempty, h⟩ := bind_eq_ok.mp h
  obtain ⟨_, hfirst, h⟩ := bind_eq_ok.mp h
  split at h
  · exact absurd h nofun
  · next query =>
    obtain ⟨turns, hturns, h⟩ := bind_eq_ok.mp h
    obtain rfl := Except.ok.inj h
    obtain ⟨system, hsystem, hblock⟩ := system_block_blocks hmessages htools
    obtain ⟨groups, blocks, hgrouping, rfl⟩ := render_turns_filter hfirst hturns
    have hclean : ∀ block ∈ system.toList ++ blocks, block.IsClean := by
      intro block hmem
      rcases List.mem_append.mp hmem with hmem | hmem
      · exact (hsystem block (Option.mem_toList.mp hmem)).2
      · exact hgrouping.isClean (fun m hm => hmessages m (List.mem_of_mem_filter hm)) block hmem
    have htext : system_block messages options ++ blocks.flatMap TurnBlock.text =
        (system.toList ++ blocks).flatMap TurnBlock.text := by
      rw [hblock, List.flatMap_append]
    refine ⟨system, groups, blocks, fun block hb => (hsystem block hb).1, hgrouping, ?_, hclean, ?_⟩
    · rw [htext]
      rfl
    · rw [htext]
      exact (TurnBlock.marks_flatMap_append hclean _).trans
        (congrArg (_ ++ ·) (marks_generation options))

/-- Two tool messages behind a call, and a message of the user behind them. -/
theorem render_chat_prompt_blocks_tools :
    let call : ChatToolCall := ⟨bytes "ls", [⟨bytes "path", bytes "/"⟩]⟩
    let messages : List ChatMessage := [⟨.system, bytes "Be brief.", none, []⟩,
      ⟨.user, bytes "List.", none, []⟩, ⟨.assistant, [], some (bytes "Look."), [call, call]⟩,
      ⟨.tool, bytes "a", none, []⟩, ⟨.tool, bytes "b", none, []⟩, ⟨.user, bytes "Thanks.", none, []⟩]
    let options : ChatTemplateOptions := ⟨true, false, true, .medium, []⟩
    ∃ text, render_chat_prompt messages options = .ok text ∧
      ∃ (system : Option TurnBlock) (groups : List (List ChatMessage)) (blocks : List TurnBlock),
        (∀ block ∈ system, block.role = bytes "system") ∧
          Grouping (messages.filter (·.role ≠ .system)) groups blocks ∧
          text = (system.toList ++ blocks).flatMap TurnBlock.text ++ generation options ∧
          (∀ block ∈ system.toList ++ blocks, block.IsClean) ∧
          marks chat_markers text =
            ((system.toList ++ blocks).flatMap fun _ => [im_start, im_end]) ++
              if options.add_generation_prompt then [im_start] else [] := by
  intro call messages options
  have hclean : ∀ m ∈ messages, Clean m.content ∧
      (∀ reasoning ∈ m.reasoning_content, Clean reasoning) ∧
        ∀ call ∈ m.tool_calls, ∀ a ∈ call.arguments, Clean a.rendered_value := by
    decide +kernel
  have hmessages : ∀ m ∈ messages, CleanMessage m :=
    fun m hm => ⟨(hclean m hm).1, (hclean m hm).2.1, (hclean m hm).2.2⟩
  have hok : (render_chat_prompt messages options).isOk = true := by decide +kernel
  cases h : render_chat_prompt messages options with
  | error message => exact absurd (h ▸ hok) nofun
  | ok text => exact ⟨text, rfl, render_chat_prompt_blocks h hmessages nofun⟩

end Qwen38
