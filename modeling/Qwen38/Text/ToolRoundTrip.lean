import Qwen38.Text.ChatTemplate
import Qwen38.Text.JsonText
import Qwen38.Text.ToolCall

/-!
# Tool calls that are rendered and parsed again

The template frames the value of a parameter by one line feed on each side. The parser skips
the one in front of the value, and then trims the value, so that the line feed behind it goes
with everything else that is white space on either side (`Qwen38.parse_parameter_text`). A
call comes back with its name and its parameters, and each value comes back trimmed
(`Qwen38.parse_call_text`): the values that survive are those that neither start nor end
with white space.
-/

namespace Qwen38

/-! ### The pieces of a call -/

theorem allowed_xml_name_iff {name : Bytes} :
    allowed_xml_name name = true ↔
      name ≠ [] ∧ (name.any fun b => b ∈ ascii ['<', '>', '\r', '\n']) = false := by
  rw [allowed_xml_name, Bool.not_eq_true', Bool.or_eq_false_iff, List.isEmpty_eq_false_iff]

theorem consume_append (value rest : Bytes) : consume (value ++ rest) value = some rest :=
  consume_eq_some_iff.mpr rfl

/-- A tag with a name that is allowed. -/
theorem tagged_name_append {opening name : Bytes} (hname : allowed_xml_name name = true)
    (rest : Bytes) : tagged_name (opening ++ (name ++ 62 :: rest)) opening = some (name, rest) := by
  obtain ⟨hne, hany⟩ := allowed_xml_name_iff.mp hname
  have hclose : (62 : UInt8) ∉ name := by
    intro hmem
    rw [List.any_eq_false] at hany
    exact hany 62 hmem (by decide)
  have hfind : Search.find (ascii ['>']) (name ++ 62 :: rest) = some name.length :=
    Search.find_singleton hclose rest
  rw [tagged_name, consume_append]
  dsimp only
  rw [hfind]
  dsimp only
  rw [List.take_left, if_neg, ← List.drop_drop, List.drop_left]
  · rfl
  · rw [hany]
    rintro (hzero | hfalse)
    · exact hne (List.length_eq_zero_iff.mp hzero)
    · exact absurd hfalse (by decide)

/-- **A parameter comes back with its value trimmed**: the template writes it on lines of its own,
and the parser takes the white space at both ends off, whoever has put it there. -/
theorem parse_parameter_text {a : ChatToolArgument} (hname : allowed_xml_name a.name = true)
    (hclose : Search.find parameter_close a.rendered_value = none) (rest : Bytes) :
    parse_parameter (argument_text a ++ rest) =
      some (a.name, trim a.rendered_value, 10 :: rest) := by
  have htext : argument_text a ++ rest = parameter_open ++ (a.name ++ 62 ::
      (10 :: (a.rendered_value ++ 10 :: (parameter_close ++ 10 :: rest)))) := by
    simp [argument_text, bytes, ascii, parameter_open, parameter_close]
  have hdrop : drop_newline (10 :: (a.rendered_value ++ 10 :: (parameter_close ++ 10 :: rest))) =
      a.rendered_value ++ 10 :: (parameter_close ++ 10 :: rest) := rfl
  have hfind : Search.find parameter_close
      (a.rendered_value ++ 10 :: (parameter_close ++ 10 :: rest)) =
        some (a.rendered_value.length + 1) :=
    Search.find_append_separator hclose (by decide) (List.prefix_append _ _)
  have htake : (a.rendered_value ++ 10 :: (parameter_close ++ 10 :: rest)).take
      (a.rendered_value.length + 1) = a.rendered_value ++ [10] := by
    rw [List.take_length_add_append]
    rfl
  have hbehind : (a.rendered_value ++ 10 :: (parameter_close ++ 10 :: rest)).drop
      (a.rendered_value.length + 1 + parameter_close.length) = 10 :: rest := by
    rw [← List.drop_drop, ← List.drop_drop, List.drop_left, List.drop_succ_cons, List.drop_zero,
      List.drop_left]
  rw [htext, parse_parameter, tagged_name_append hname]
  dsimp only
  rw [hdrop, hfind]
  dsimp only
  rw [htake, hbehind, trim_append_right (List.forall_mem_singleton.mpr (by decide))]

section Call

variable (numbers : NumberText) (tool_schemas : List Bytes)

/-- The arguments a parsed call has, when the schema calls all of them strings. -/
def trimmed_arguments (arguments : List ChatToolArgument) : List (Bytes × Json numbers.Double) :=
  arguments.map fun a => (a.name, .string (trim a.rendered_value))

/-- What a value must not contain, and what the schema must say about it. -/
def StringArgument (name : Bytes) (a : ChatToolArgument) : Prop :=
  allowed_xml_name a.name = true ∧ Search.find parameter_close a.rendered_value = none ∧
    schema_requires_string numbers tool_schemas name a.name = true

variable {numbers tool_schemas} {name : Bytes}

theorem parse_parameters_texts {arguments : List ChatToolArgument}
    (h : ∀ a ∈ arguments, StringArgument numbers tool_schemas name a)
    (before : List (Bytes × Json numbers.Double))
    (hkeys : (before.map Prod.fst ++ arguments.map ChatToolArgument.name).Nodup) (rest : Bytes) :
    parse_parameters numbers tool_schemas name before
      (10 :: (arguments.flatMap argument_text ++ (function_close ++ rest))) =
        some (before ++ trimmed_arguments numbers arguments, rest) := by
  induction arguments generalizing before with
  | nil =>
    have hskip : skip_space (10 :: (function_close ++ rest)) = function_close ++ rest := rfl
    rw [parse_parameters_eq, List.flatMap_nil, List.nil_append, hskip, consume_append]
    dsimp only
    rw [trimmed_arguments, List.map_nil, List.append_nil]
  | cons a arguments ih =>
    obtain ⟨hname, hclose, hstring⟩ := h a List.mem_cons_self
    have hopen : ∀ more, skip_space (10 :: (argument_text a ++ more)) = argument_text a ++ more :=
      fun _ => rfl
    have hnot : ∀ more, consume (argument_text a ++ more) function_close = none := fun _ => rfl
    have hfresh : (before.lookup a.name).isSome = false := by
      rw [Bool.eq_false_iff]
      intro hsome
      obtain ⟨entry, hentry, heq⟩ := List.lookup_isSome_iff.mp hsome
      have hkey : a.name = entry.1 := by simpa using heq
      rw [List.nodup_append] at hkeys
      exact hkeys.2.2 entry.1 (List.mem_map_of_mem hentry) a.name List.mem_cons_self hkey.symm
    have hmore : ((before ++ [(a.name, Json.string (trim a.rendered_value))]).map Prod.fst ++
        arguments.map ChatToolArgument.name).Nodup := by
      rw [List.map_append, List.append_assoc]
      exact hkeys
    rw [parse_parameters_eq, List.flatMap_cons, List.append_assoc, hopen, hnot]
    dsimp only
    rw [parse_parameter_text hname hclose]
    dsimp only
    rw [hfresh, if_neg (by decide), hstring, inferred_argument, if_pos rfl,
      ih (fun b hb => h b (List.mem_cons_of_mem a hb)) _ hmore, List.append_assoc]
    rfl

/-- **A call comes back with its values trimmed.** Its parameters are found in order, each up to its
own closing tag, and are put together as the object that the template was given, but for white
space. -/
theorem parse_call_text {call : ChatToolCall} (hname : allowed_xml_name call.name = true)
    (h : ∀ a ∈ call.arguments, StringArgument numbers tool_schemas call.name a)
    (hkeys : (call.arguments.map ChatToolArgument.name).Nodup) :
    parse_call numbers tool_schemas (call_text call) =
      some (⟨call.name, (Json.object (trimmed_arguments numbers call.arguments)).dump numbers⟩,
        []) := by
  have htext : call_text call = call_open ++ (10 :: (function_open ++ (call.name ++ 62 ::
      (10 :: (call.arguments.flatMap argument_text ++
        (function_close ++ (10 :: (call_close ++ [])))))))) := by
    simp [call_text, bytes, ascii, call_open, function_open, function_close, call_close]
  have hskip : ∀ rest, skip_space (10 :: (function_open ++ rest)) = function_open ++ rest :=
    fun _ => rfl
  have hend : skip_space (10 :: (call_close ++ [])) = call_close ++ [] := rfl
  simp only [parse_call, htext, consume_append, Option.bind_eq_bind, Option.bind_some, hskip,
    tagged_name_append hname, parse_parameters_texts h [] hkeys, hend,
    List.nil_append]

theorem parse_qwen_tool_output_call_text {call : ChatToolCall}
    (hname : allowed_xml_name call.name = true)
    (h : ∀ a ∈ call.arguments, StringArgument numbers tool_schemas call.name a)
    (hkeys : (call.arguments.map ChatToolArgument.name).Nodup) :
    parse_qwen_tool_output numbers tool_schemas (call_text call) =
      ⟨[], [⟨call.name,
        (Json.object (trimmed_arguments numbers call.arguments)).dump numbers⟩]⟩ := by
  obtain ⟨rest, hrest⟩ : ∃ rest, call_text call = call_open ++ rest := ⟨_, rfl⟩
  have hfind : Search.find call_open (call_text call) = some 0 := by
    rw [hrest]
    exact Search.find_of_prefix (List.prefix_append _ _)
  have hskip : skip_space (call_text call) = call_text call := rfl
  have hne : call_text call ≠ [] := nofun
  have hnil : parse_calls numbers tool_schemas [] = some [] := by
    rw [parse_calls_eq]
    rfl
  have hcalls : parse_calls numbers tool_schemas (call_text call) =
      some [⟨call.name, (Json.object (trimmed_arguments numbers call.arguments)).dump numbers⟩] := by
    rw [parse_calls_eq, hskip, if_neg hne, parse_call_text hname h hkeys]
    dsimp only
    rw [hnil]
    rfl
  rw [parse_qwen_tool_output, hfind]
  dsimp only
  rw [List.drop_zero, hcalls]
  rfl

/-! ### What comes back -/

variable (numbers tool_schemas) in
/-- The text of a call is read as exactly this call: the name, and an object that has
exactly the call's values under the names of the parameters. -/
def ComesBack (call : ChatToolCall) (text : Bytes) : Prop :=
  ∃ parsed object, parse_qwen_tool_output numbers tool_schemas text = ⟨[], [parsed]⟩ ∧
    parsed.name = call.name ∧ Json.parse numbers parsed.arguments_json = .ok object ∧
      ∀ key, object.find key =
        (call.arguments.map fun a => (a.name, Json.string a.rendered_value)).lookup key

theorem trimmed_arguments_keys (arguments : List ChatToolArgument) :
    (trimmed_arguments numbers arguments).map Prod.fst = arguments.map ChatToolArgument.name := by
  rw [trimmed_arguments, List.map_map]
  rfl

/-- The arguments of the parsed call. -/
theorem parse_dump_trimmed (numbers : NumberText) {arguments : List ChatToolArgument}
    (hkeys : (arguments.map ChatToolArgument.name).Nodup) :
    ∃ object, Json.parse numbers ((Json.object (trimmed_arguments numbers arguments)).dump numbers) =
        .ok object ∧
      ∀ key, object.find key = (trimmed_arguments numbers arguments).lookup key := by
  have hkeys' : ((trimmed_arguments numbers arguments).map Prod.fst).Nodup := by
    rw [trimmed_arguments_keys]
    exact hkeys
  have hstrings : ∀ e ∈ trimmed_arguments numbers arguments, ∃ value, e.2 = .string value := by
    intro e he
    obtain ⟨a, -, rfl⟩ := List.mem_map.mp he
    exact ⟨_, rfl⟩
  have hprintable : Json.Printable numbers (.object (trimmed_arguments numbers arguments)) :=
    ⟨hkeys', Json.printableEntries_iff.mpr fun e he => by
      obtain ⟨value, hvalue⟩ := hstrings e he
      rw [hvalue]
      trivial⟩
  refine ⟨_, Json.parse_of_reads (Json.reads_dump _ hprintable), fun key => ?_⟩
  rw [Json.find_reread hkeys']
  cases hlookup : (trimmed_arguments numbers arguments).lookup key with
  | none => rfl
  | some value =>
    obtain ⟨text, rfl⟩ := hstrings _ ((Json.lookup_eq_some_iff_mem hkeys').mp hlookup)
    rfl

/-- A call comes back as it was exactly when trimming changes none of its values. -/
theorem comesBack_iff {call : ChatToolCall} (hname : allowed_xml_name call.name = true)
    (h : ∀ a ∈ call.arguments, StringArgument numbers tool_schemas call.name a)
    (hkeys : (call.arguments.map ChatToolArgument.name).Nodup) :
    ComesBack numbers tool_schemas call (call_text call) ↔
      ∀ a ∈ call.arguments, trim a.rendered_value = a.rendered_value := by
  have hparse := parse_qwen_tool_output_call_text hname h hkeys
  obtain ⟨object, hobject, hfind⟩ := parse_dump_trimmed numbers hkeys
  constructor
  · rintro ⟨parsed, object', hcalls, -, hobject', hfind'⟩ a ha
    rw [hparse] at hcalls
    obtain rfl : _ = parsed := by
      simpa using congrArg (fun output => output.calls.head?) hcalls
    obtain rfl := Except.ok.inj (hobject.symm.trans hobject')
    have hkeys' : ((trimmed_arguments numbers call.arguments).map Prod.fst).Nodup := by
      rw [trimmed_arguments_keys]
      exact hkeys
    have hkeys'' : ((call.arguments.map fun a =>
        (a.name, (Json.string a.rendered_value : Json numbers.Double))).map Prod.fst).Nodup := by
      rw [List.map_map]
      exact hkeys
    have htrimmed := (Json.lookup_eq_some_iff_mem hkeys').mpr (List.mem_map_of_mem ha)
    have hvalue := (Json.lookup_eq_some_iff_mem hkeys'').mpr (List.mem_map_of_mem ha)
    have hboth := (hfind a.name).symm.trans (hfind' a.name)
    rw [htrimmed, hvalue] at hboth
    simpa using hboth
  · intro htrim
    refine ⟨_, object, hparse, rfl, hobject, fun key => ?_⟩
    rw [hfind key, trimmed_arguments]
    congr 1
    exact List.map_congr_left fun a ha => by rw [htrim a ha]

variable (numbers tool_schemas) in
/-- **Exactly the values without white space at their ends survive.** A call of an assistant
turn stands in the prompt; when its parameters are distinct, of type string in the schema,
and without the closing tag in their values, its text is read as this call if and only if no
value starts or ends with white space. -/
theorem tool_call_round_trip {messages : List ChatMessage} {options : ChatTemplateOptions}
    {prompt : Bytes} (hrender : render_chat_prompt messages options = .ok prompt)
    {message : ChatMessage} (hmessage : message ∈ messages) (hrole : message.role = .assistant)
    {call : ChatToolCall} (hcall : call ∈ message.tool_calls)
    (hkeys : (call.arguments.map ChatToolArgument.name).Nodup)
    (hclose : ∀ a ∈ call.arguments, Search.find parameter_close a.rendered_value = none)
    (hstring : ∀ a ∈ call.arguments,
      schema_requires_string numbers tool_schemas call.name a.name = true) :
    ∃ text, render_tool_call call = .ok text ∧ text <:+: prompt ∧
      (ComesBack numbers tool_schemas call text ↔
        ∀ a ∈ call.arguments, trim a.rendered_value = a.rendered_value) := by
  obtain ⟨text, htext, hin⟩ := render_tool_call_infix hrender hmessage hrole hcall
  obtain ⟨⟨hname, hnames⟩, rfl⟩ := render_tool_call_eq_ok.mp htext
  exact ⟨_, htext, hin,
    comesBack_iff hname (fun a ha => ⟨hnames a ha, hclose a ha, hstring a ha⟩) hkeys⟩

end Call

/-! ### A tool with one parameter -/

/-- The schema of the tool. -/
def read_schema : Bytes := bytes
  ("\x7b\"name\":\"read\",\"parameters\":\x7b\"properties\":\x7b" ++
    "\"path\":\x7b\"type\":\"string\"\x7d\x7d\x7d\x7d")

/-- A call of it. -/
def read_call (path : Bytes) : ChatToolCall := ⟨bytes "read", [⟨bytes "path", path⟩]⟩

/-- A conversation with this call. -/
def read_messages (path : Bytes) : List ChatMessage :=
  [⟨.user, bytes "Inspect it", none, []⟩, ⟨.assistant, [], none, [read_call path]⟩]

/-- Its options. -/
def read_options : ChatTemplateOptions := ⟨true, true, true, .medium, [read_schema]⟩

theorem parse_read_schema (numbers : NumberText) :
    Json.parse numbers read_schema = .ok (.object [(bytes "name", .string (bytes "read")),
      (bytes "parameters", .object [(bytes "properties",
        .object [(bytes "path", .object [(bytes "type", .string (bytes "string"))])])])]) := by
  have hstring : ∀ s, Json.Reads numbers (Json.quote_json_string s) (.string s) := Json.reads_string
  have hone : ∀ (key : Bytes) {text value}, Json.Reads numbers text value →
      Json.Reads numbers (ascii ['\x7b'] ++ Json.comma_separated
        ([(key, text, value)].map Json.entry_text) ++ ascii ['\x7d']) (.object [(key, value)]) :=
    fun key {_ _} h =>
      Json.reads_object [(key, _, _)] (List.forall_mem_singleton.mpr h) (List.nodup_singleton key)
  have hparameters := hone (bytes "properties") (hone (bytes "path")
    (hone (bytes "type") (hstring (bytes "string"))))
  have hkeys : [bytes "name", bytes "parameters"].Nodup := by decide
  exact Json.parse_of_reads (Json.reads_object
    [(bytes "name", _, _), (bytes "parameters", _, _)]
    (List.forall_mem_cons.mpr ⟨hstring (bytes "read"), List.forall_mem_singleton.mpr hparameters⟩)
    hkeys)

theorem read_requires_string (numbers : NumberText) :
    schema_requires_string numbers [read_schema] (bytes "read") (bytes "path") = true := by
  rw [schema_requires_string, parse_read_schema]
  rfl

theorem exists_read_prompt (path : Bytes) :
    ∃ prompt, render_chat_prompt (read_messages path) read_options = .ok prompt := ⟨_, rfl⟩

theorem tool_call_round_trip_path : ∃ prompt text,
    render_chat_prompt (read_messages (bytes "/tmp/a")) read_options = .ok prompt ∧
      render_tool_call (read_call (bytes "/tmp/a")) = .ok text ∧ text <:+: prompt ∧
        ComesBack .integers [read_schema] (read_call (bytes "/tmp/a")) text := by
  obtain ⟨prompt, hprompt⟩ := exists_read_prompt (bytes "/tmp/a")
  obtain ⟨text, htext, hin, hiff⟩ := tool_call_round_trip .integers [read_schema] hprompt
    (List.mem_cons_of_mem _ List.mem_cons_self) rfl List.mem_cons_self (by decide) (by decide)
    (List.forall_mem_singleton.mpr (read_requires_string _))
  exact ⟨prompt, text, hprompt, htext, hin, hiff.mpr (by decide)⟩

/-- The text of a file, say, ends in a line feed, and loses it. -/
theorem not_comesBack_line_feed : ∃ prompt text,
    render_chat_prompt (read_messages (bytes "/tmp/a\n")) read_options = .ok prompt ∧
      render_tool_call (read_call (bytes "/tmp/a\n")) = .ok text ∧ text <:+: prompt ∧
        ((read_call (bytes "/tmp/a\n")).arguments.map ChatToolArgument.name).Nodup ∧
        (∀ a ∈ (read_call (bytes "/tmp/a\n")).arguments,
          Search.find parameter_close a.rendered_value = none ∧
            schema_requires_string .integers [read_schema] (bytes "read") a.name = true) ∧
        ¬ComesBack .integers [read_schema] (read_call (bytes "/tmp/a\n")) text := by
  obtain ⟨prompt, hprompt⟩ := exists_read_prompt (bytes "/tmp/a\n")
  obtain ⟨text, htext, hin⟩ := render_tool_call_infix hprompt
    (List.mem_cons_of_mem _ List.mem_cons_self) rfl List.mem_cons_self
  obtain ⟨⟨hname, hnames⟩, rfl⟩ := render_tool_call_eq_ok.mp htext
  have hkeys : ((read_call (bytes "/tmp/a\n")).arguments.map ChatToolArgument.name).Nodup := by
    decide
  have hstring : ∀ a ∈ (read_call (bytes "/tmp/a\n")).arguments,
      StringArgument .integers [read_schema] (bytes "read") a :=
    List.forall_mem_singleton.mpr ⟨by decide, by decide, read_requires_string _⟩
  refine ⟨prompt, _, hprompt, htext, hin, hkeys, fun a ha => (hstring a ha).2, ?_⟩
  rw [comesBack_iff hname hstring hkeys]
  decide


end Qwen38
