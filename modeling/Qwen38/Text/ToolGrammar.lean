import Qwen38.Text.ToolRoundTrip

/-!
# The grammar of tool calls

What `parse_qwen_tool_output` accepts, apart from how it reads: a text without a `<tool_call>`,
and behind it blocks with white space between them, each one function with its parameters. A
parameter runs to the first `</parameter>`, and no name comes twice in a block.

The parser returns the calls of such a text and nothing else
(`Qwen38.tool_output_grammar`): what it reads is a block (`Qwen38.block_of_parse_call`), and a
block is read whatever stands behind it (`Qwen38.Block.parse_call`).
-/

namespace Qwen38

/-! ### The grammar -/

/-- White space. -/
def White (ws : Bytes) : Prop := ∀ c ∈ ws, isspace c = true

/-- A name in a tag. -/
def TagName (name : Bytes) : Prop := name ≠ [] ∧ ∀ b ∈ name, b ∉ ascii ['<', '>', '\r', '\n']

/-- A tag with a name. -/
def named_tag (opening name : Bytes) : Bytes := opening ++ (name ++ ascii ['>'])

/-- A parameter as it is written. -/
structure ParameterText where
  name : Bytes
  text : Bytes

/-- A parameter's text ends with the first closing tag. -/
structure ParameterText.WellFormed (p : ParameterText) : Prop where
  name : TagName p.name
  text : ¬parameter_close <:+: p.text

def ParameterText.written (p : ParameterText) : Bytes :=
  named_tag parameter_open p.name ++ (p.text ++ parameter_close)

/-- Parameters with white space around them. -/
inductive Parameters : List ParameterText → Bytes → Prop
  | nil {ws : Bytes} (hws : White ws) : Parameters [] ws
  | cons {ws : Bytes} {p : ParameterText} {ps : List ParameterText} {text : Bytes}
      (hws : White ws) (hp : p.WellFormed) (h : Parameters ps text) :
    Parameters (p :: ps) (ws ++ (p.written ++ text))

/-- A block: the function's name and its parameters. -/
structure CallText where
  name : Bytes
  parameters : List ParameterText

/-- The text of a block. -/
inductive Block (call : CallText) : Bytes → Prop
  | mk {ws parameters ws' : Bytes} (hws : White ws) (hname : TagName call.name)
      (hparameters : Parameters call.parameters parameters)
      (honce : (call.parameters.map ParameterText.name).Nodup) (hws' : White ws') :
    Block call (call_open ++ (ws ++ (named_tag function_open call.name ++
      (parameters ++ (function_close ++ (ws' ++ call_close))))))

/-- Blocks with white space around them. -/
inductive Blocks : List CallText → Bytes → Prop
  | nil {ws : Bytes} (hws : White ws) : Blocks [] ws
  | cons {ws : Bytes} {call : CallText} {calls : List CallText} {text rest : Bytes}
      (hws : White ws) (hcall : Block call text) (h : Blocks calls rest) :
    Blocks (call :: calls) (ws ++ (text ++ rest))

/-- The texts with tool calls: what stands before them, and the blocks. -/
structure ToolText (free : Bytes) (calls : List CallText) (output : Bytes) : Prop where
  unmarked : ¬call_open <:+: free
  blocks : ∃ text, Blocks calls text ∧ output = free ++ text
  called : calls ≠ []

section Calls

variable (numbers : NumberText) (tool_schemas : List Bytes)

/-- The arguments of a call: the trimmed texts, as the schemas say. -/
def CallText.arguments (call : CallText) : List (Bytes × Json numbers.Double) :=
  call.parameters.map fun p => (p.name, inferred_argument numbers (trim p.text)
    (schema_requires_string numbers tool_schemas call.name p.name))

/-- The call a block stands for. -/
def CallText.call (call : CallText) : ParsedToolCall :=
  ⟨call.name, (Json.object (call.arguments numbers tool_schemas)).dump numbers⟩

end Calls

/-! ### Tags -/

theorem tagName_iff {name : Bytes} : TagName name ↔ allowed_xml_name name = true := by
  rw [allowed_xml_name_iff, TagName, List.any_eq_false]
  simp only [decide_eq_true_eq]

/-- **A tag**: its name is what stands up to the first `>`. -/
theorem tagged_name_eq_some_iff {input opening name rest : Bytes} :
    tagged_name input opening = some (name, rest) ↔
      TagName name ∧ input = named_tag opening name ++ rest := by
  constructor
  · intro h
    rw [tagged_name.eq_def] at h
    split at h
    · cases h
    next middle hconsume =>
    split at h
    · cases h
    next close hfind =>
    dsimp only at h
    split_ifs at h with hbad
    obtain ⟨rfl, rfl⟩ := Prod.mk.inj (Option.some.inj h)
    rw [not_or] at hbad
    have hbound : close + 1 ≤ middle.length := Search.find_bound hfind
    refine ⟨tagName_iff.mpr (allowed_xml_name_iff.mpr ⟨?_, Bool.eq_false_iff.mpr hbad.2⟩), ?_⟩
    · intro hnil
      have hlength := congrArg List.length hnil
      rw [List.length_take, List.length_nil] at hlength
      omega
    · rw [consume_eq_some_iff.mp hconsume, named_tag, List.append_assoc, List.append_right_inj]
      exact Search.eq_of_find hfind
  · rintro ⟨hname, rfl⟩
    rw [named_tag, List.append_assoc, List.append_assoc]
    exact tagged_name_append (tagName_iff.mp hname) rest

/-! ### Parameters -/

theorem drop_byte_append {b c : UInt8} (hne : c ≠ b) (text rest : Bytes) :
    drop_byte b (text ++ c :: rest) = drop_byte b text ++ c :: rest := by
  cases text with
  | nil => exact if_neg hne
  | cons d text =>
    rw [List.cons_append, drop_byte, drop_byte]
    split <;> rfl

theorem drop_newline_append (text rest : Bytes) :
    drop_newline (text ++ (parameter_close ++ rest)) =
      drop_newline text ++ (parameter_close ++ rest) := by
  have hopen : parameter_close ++ rest = 60 :: (parameter_close.tail ++ rest) := rfl
  rw [drop_newline, drop_newline, hopen, drop_byte_append (by decide),
    drop_byte_append (by decide)]

theorem exists_drop_byte {b : UInt8} (hb : isspace b = true) (text : Bytes) :
    ∃ ws, White ws ∧ text = ws ++ drop_byte b text := by
  cases text with
  | nil => exact ⟨[], List.forall_mem_nil _, rfl⟩
  | cons c text =>
    rw [drop_byte]
    split
    · next h => exact ⟨[c], List.forall_mem_singleton.mpr (h ▸ hb), rfl⟩
    · exact ⟨[], List.forall_mem_nil _, rfl⟩

/-- What is dropped before a value is white space. -/
theorem exists_drop_newline (text : Bytes) : ∃ ws, White ws ∧ text = ws ++ drop_newline text := by
  obtain ⟨ws, hws, hreturn⟩ := exists_drop_byte (show isspace 13 = true by decide) text
  obtain ⟨ws', hws', hfeed⟩ := exists_drop_byte (show isspace 10 = true by decide)
    (drop_byte 13 text)
  refine ⟨ws ++ ws', fun c hc => (List.mem_append.mp hc).elim (hws c) (hws' c), ?_⟩
  rw [List.append_assoc, drop_newline, ← hfeed]
  exact hreturn

theorem find_parameter_close_append {text : Bytes} (h : ¬parameter_close <:+: text)
    (rest : Bytes) : Search.find parameter_close (text ++ (parameter_close ++ rest)) =
      some text.length := by
  have hclose : (60 : UInt8) ∉ parameter_close.tail := by decide
  exact Search.find_append_self hclose (Search.find_eq_none_iff_not_isInfix.mpr h) rest

/-- **One parameter.** -/
theorem parse_parameter_eq_some_iff {input name value rest : Bytes} :
    parse_parameter input = some (name, value, rest) ↔
      ∃ text, ParameterText.WellFormed ⟨name, text⟩ ∧ value = trim text ∧
        input = ParameterText.written ⟨name, text⟩ ++ rest := by
  constructor
  · intro h
    rw [parse_parameter.eq_def] at h
    split at h
    · cases h
    next parameter middle htag =>
    dsimp only at h
    split at h
    · cases h
    next close hfind =>
    obtain ⟨rfl, hvalue⟩ := Prod.mk.inj (Option.some.inj h)
    obtain ⟨rfl, rfl⟩ := Prod.mk.inj hvalue
    obtain ⟨hname, rfl⟩ := tagged_name_eq_some_iff.mp htag
    obtain ⟨ws, hws, hmiddle⟩ := exists_drop_newline middle
    have hbound := Search.find_bound hfind
    refine ⟨ws ++ (drop_newline middle).take close, ⟨hname, ?_⟩, ?_, ?_⟩
    · -- the first closing tag behind the white space is the first one
      have hsplit := Search.eq_of_find hfind
      rw [List.append_assoc] at hsplit
      rw [← Search.find_eq_none_iff_not_isInfix, find_space_append (by decide) hws]
      rw [hsplit] at hfind
      rw [Search.find_left hfind, List.length_take, if_neg]
      · rfl
      · have hpos : 0 < parameter_close.length := by decide
        omega
    · rw [trim_append_left hws]
    · conv_lhs => rw [hmiddle, Search.eq_of_find hfind]
      simp only [ParameterText.written, List.append_assoc]
  · rintro ⟨text, hp, rfl, rfl⟩
    obtain ⟨ws, hws, htext⟩ := exists_drop_newline text
    have hpart : drop_newline text <:+: text := ⟨ws, [], by rw [List.append_nil, ← htext]⟩
    have hclose : ¬parameter_close <:+: drop_newline text := fun h => hp.text (h.trans hpart)
    have htag : tagged_name (ParameterText.written ⟨name, text⟩ ++ rest) parameter_open =
        some (name, text ++ (parameter_close ++ rest)) := by
      refine tagged_name_eq_some_iff.mpr ⟨hp.name, ?_⟩
      simp only [ParameterText.written, List.append_assoc]
    rw [parse_parameter, htag]
    dsimp only
    rw [drop_newline_append, find_parameter_close_append hclose]
    dsimp only
    rw [List.take_left, ← List.drop_drop, List.drop_left, List.drop_left]
    have htrim : trim (drop_newline text) = trim text := by
      conv_rhs => rw [htext, trim_append_left hws]
    rw [htrim]

section Calls

variable {numbers : NumberText} {tool_schemas : List Bytes}

theorem skip_space_white {ws : Bytes} (hws : White ws) {c : UInt8} (hc : isspace c = false)
    (rest : Bytes) : skip_space (ws ++ c :: rest) = c :: rest := by
  rw [skip_space_append hws, skip_space, List.dropWhile_cons_of_neg (by rw [hc]; decide)]

theorem lookup_isSome_eq_false_iff {arguments : List (Bytes × Json numbers.Double)} {name : Bytes} :
    (arguments.lookup name).isSome = false ↔ name ∉ arguments.map Prod.fst := by
  rw [Bool.eq_false_iff, ne_eq, List.lookup_isSome_iff, not_iff_not, List.mem_map]
  refine exists_congr fun entry => and_congr_right fun _ => ?_
  rw [beq_iff_eq, eq_comm]

/-- The arguments that parameters stand for, in a call of this name. -/
abbrev arguments_of (numbers : NumberText) (tool_schemas : List Bytes) (name : Bytes)
    (ps : List ParameterText) : List (Bytes × Json numbers.Double) :=
  CallText.arguments numbers tool_schemas ⟨name, ps⟩

/-- What the loop reads are parameters, none of them twice. -/
theorem parameters_of_parse {name input rest : Bytes}
    {arguments result : List (Bytes × Json numbers.Double)}
    (honce : (arguments.map Prod.fst).Nodup)
    (h : parse_parameters numbers tool_schemas name arguments input = some (result, rest)) :
    ∃ ps text, Parameters ps text ∧ input = text ++ (function_close ++ rest) ∧
      result = arguments ++ arguments_of numbers tool_schemas name ps ∧
      (result.map Prod.fst).Nodup := by
  fun_induction parse_parameters numbers tool_schemas name arguments input with
  | case1 arguments input middle hconsume =>
    obtain ⟨rfl, rfl⟩ := Prod.mk.inj (Option.some.inj h)
    obtain ⟨ws, hws, hinput⟩ := exists_skip_space input
    refine ⟨[], ws, .nil hws, ?_, (List.append_nil _).symm, honce⟩
    rw [← consume_eq_some_iff.mp hconsume]
    exact hinput
  | case2 => cases h
  | case3 => cases h
  | case4 arguments input hconsume parameter value middle hparse force_string hfresh ih =>
    obtain ⟨text, hp, rfl, hskip⟩ := parse_parameter_eq_some_iff.mp hparse
    obtain ⟨ws, hws, hinput⟩ := exists_skip_space input
    have hnew := lookup_isSome_eq_false_iff.mp (Bool.eq_false_iff.mpr hfresh)
    have honce' : ((arguments ++ [(parameter, inferred_argument numbers (trim text)
        force_string)]).map Prod.fst).Nodup := by
      rw [List.map_append, List.nodup_append_comm]
      exact List.nodup_cons.mpr ⟨hnew, honce⟩
    obtain ⟨ps, texts, hps, rfl, hresult, hnodup⟩ := ih honce' h
    refine ⟨⟨parameter, text⟩ :: ps, _, .cons hws hp hps, ?_, ?_, hnodup⟩
    · rw [hinput, hskip, List.append_assoc, List.append_assoc]
    · rw [hresult, List.append_assoc]
      rfl

/-- **Parameters are read**, whatever stands behind them. -/
theorem Parameters.parse {name text : Bytes} {ps : List ParameterText} (h : Parameters ps text)
    (arguments : List (Bytes × Json numbers.Double))
    (honce : (arguments.map Prod.fst ++ ps.map ParameterText.name).Nodup) (rest : Bytes) :
    parse_parameters numbers tool_schemas name arguments (text ++ (function_close ++ rest)) =
      some (arguments ++ arguments_of numbers tool_schemas name ps, rest) := by
  induction h generalizing arguments with
  | @nil ws hws =>
    rw [parse_parameters_eq]
    have hskip : skip_space (ws ++ (function_close ++ rest)) = function_close ++ rest :=
      skip_space_white hws (by decide) _
    rw [hskip, consume_append]
    exact congrArg (fun l => some (l, rest)) (List.append_nil arguments).symm
  | @cons ws p ps text hws hp _ ih =>
    have hskip : skip_space (ws ++ (p.written ++ text) ++ (function_close ++ rest)) =
        p.written ++ (text ++ (function_close ++ rest)) := by
      rw [List.append_assoc, List.append_assoc]
      exact skip_space_white hws (by decide) _
    have hnot : consume (p.written ++ (text ++ (function_close ++ rest))) function_close = none :=
      rfl
    have hparse : parse_parameter (p.written ++ (text ++ (function_close ++ rest))) =
        some (p.name, trim p.text, text ++ (function_close ++ rest)) :=
      parse_parameter_eq_some_iff.mpr ⟨p.text, hp, rfl, rfl⟩
    have hfresh : (arguments.lookup p.name).isSome = false := by
      rw [lookup_isSome_eq_false_iff]
      intro hmem
      exact (List.nodup_append.mp honce).2.2 p.name hmem p.name List.mem_cons_self rfl
    rw [parse_parameters_eq, hskip, hnot]
    dsimp only
    rw [hparse]
    dsimp only
    rw [hfresh, if_neg Bool.false_ne_true, ih, List.append_assoc]
    · rfl
    · rw [List.map_append, List.append_assoc]
      exact honce

/-! ### Blocks -/

/-- A call that was parsed is the text of a block, with the name and the parameters of the block,
and the rest of the input stands behind it. -/
theorem block_of_parse_call {input rest : Bytes} {call : ParsedToolCall}
    (h : parse_call numbers tool_schemas input = some (call, rest)) :
    ∃ c text, Block c text ∧ input = text ++ rest ∧ call = c.call numbers tool_schemas := by
  simp only [parse_call, Option.bind_eq_bind, Option.bind_eq_some_iff, Prod.exists] at h
  obtain ⟨behind_open, hopen, name, behind_name, htag, arguments, behind_close, hparameters,
    behind, hclose, hcall⟩ := h
  obtain ⟨rfl, rfl⟩ := Prod.mk.inj (Option.some.inj hcall)
  obtain ⟨hname, hskip⟩ := tagged_name_eq_some_iff.mp htag
  obtain ⟨ws, hws, hwhite⟩ := exists_skip_space behind_open
  obtain ⟨ws', hws', hwhite'⟩ := exists_skip_space behind_close
  have hnone : (([] : List (Bytes × Json numbers.Double)).map Prod.fst).Nodup := List.nodup_nil
  obtain ⟨ps, text, hps, rfl, rfl, hnodup⟩ := parameters_of_parse hnone hparameters
  have honce : (ps.map ParameterText.name).Nodup := by
    rw [List.nil_append, arguments_of, CallText.arguments, List.map_map] at hnodup
    exact hnodup
  refine ⟨⟨name, ps⟩, _, .mk hws hname hps honce hws', ?_, rfl⟩
  rw [consume_eq_some_iff.mp hopen, hwhite, hskip, hwhite', consume_eq_some_iff.mp hclose]
  simp only [List.append_assoc]

/-- The text of a block is parsed as its call, whatever comes behind it: the block ends at the first
closing tag, and there is none in its parts. -/
theorem Block.parse_call {c : CallText} {text : Bytes} (h : Block c text) (rest : Bytes) :
    parse_call numbers tool_schemas (text ++ rest) =
      some (c.call numbers tool_schemas, rest) := by
  cases h with
  | @mk ws parameters ws' hws hname hparameters honce hws' =>
    have hskip : skip_space (ws ++ (named_tag function_open c.name ++ (parameters ++
        (function_close ++ (ws' ++ (call_close ++ rest)))))) =
          named_tag function_open c.name ++ (parameters ++
            (function_close ++ (ws' ++ (call_close ++ rest)))) :=
      skip_space_white hws (by decide) _
    have hskip' : skip_space (ws' ++ (call_close ++ rest)) = call_close ++ rest :=
      skip_space_white hws' (by decide) _
    have htag : tagged_name (named_tag function_open c.name ++ (parameters ++
        (function_close ++ (ws' ++ (call_close ++ rest))))) function_open =
          some (c.name, parameters ++ (function_close ++ (ws' ++ (call_close ++ rest)))) :=
      tagged_name_eq_some_iff.mpr ⟨hname, rfl⟩
    simp only [Qwen38.parse_call, Option.bind_eq_bind, List.append_assoc, consume_append,
      Option.bind_some, hskip, htag, hskip', hparameters.parse [] honce, List.nil_append]
    rfl

theorem blocks_of_parse_calls {input : Bytes} {calls : List ParsedToolCall}
    (h : parse_calls numbers tool_schemas input = some calls) :
    ∃ cs, Blocks cs input ∧ calls = cs.map (CallText.call numbers tool_schemas) := by
  induction hn : input.length using Nat.strong_induction_on generalizing input calls with
  | _ n ih =>
    obtain ⟨ws, hws, hinput⟩ := exists_skip_space input
    rw [parse_calls_eq] at h
    split at h
    next hnil =>
      rw [hnil, List.append_nil] at hinput
      exact ⟨[], .nil (hinput ▸ hws), (Option.some.inj h).symm⟩
    next hsome =>
      rcases hcall : parse_call numbers tool_schemas (skip_space input) with _ | ⟨call, rest⟩
      · rw [hcall] at h
        cases h
      · rw [hcall] at h
        obtain ⟨more, hmore, rfl⟩ := Option.map_eq_some_iff.mp h
        obtain ⟨c, text, hblock, hskip, rfl⟩ := block_of_parse_call hcall
        have hlt : rest.length < n := by
          rw [← hn]
          exact (parse_call_length hcall).trans_le (length_skip_space_le input)
        obtain ⟨cs, hblocks, rfl⟩ := ih rest.length hlt hmore rfl
        refine ⟨c :: cs, ?_, rfl⟩
        rw [hinput, hskip]
        exact .cons hws hblock hblocks

theorem Block.eq_cons {c : CallText} {text : Bytes} (h : Block c text) :
    ∃ rest, text = call_open ++ rest := by
  cases h with
  | mk => exact ⟨_, rfl⟩

/-- **Blocks are read.** -/
theorem Blocks.parse {cs : List CallText} {text : Bytes} (h : Blocks cs text) :
    parse_calls numbers tool_schemas text =
      some (cs.map (CallText.call numbers tool_schemas)) := by
  induction h with
  | @nil ws hws =>
    have hskip : skip_space ws = [] := List.dropWhile_eq_nil_iff.mpr hws
    rw [parse_calls_eq, if_pos hskip]
    rfl
  | @cons ws c cs text rest hws hblock _ ih =>
    have hskip : skip_space (ws ++ (text ++ rest)) = text ++ rest := by
      obtain ⟨behind, rfl⟩ := hblock.eq_cons
      exact skip_space_white hws (by decide) _
    have hne : text ++ rest ≠ [] := by
      obtain ⟨behind, rfl⟩ := hblock.eq_cons
      exact List.cons_ne_nil _ _
    rw [parse_calls_eq, hskip, if_neg hne, hblock.parse_call]
    dsimp only
    rw [ih]
    rfl

/-! ### The output -/

/-- **A text with tool calls is read as such.** -/
theorem ToolText.parse {free output : Bytes} {cs : List CallText} (h : ToolText free cs output) :
    parse_qwen_tool_output numbers tool_schemas output =
      ⟨trim free, cs.map (CallText.call numbers tool_schemas)⟩ := by
  obtain ⟨hfree, ⟨text, hblocks, rfl⟩, hcalled⟩ := h
  cases hblocks with
  | nil => exact absurd rfl hcalled
  | @cons ws c cs text rest hws hblock hblocks =>
    obtain ⟨behind, hbehind⟩ := hblock.eq_cons
    have hnone : Search.find call_open (free ++ ws) = none := by
      rw [Padded.find ⟨ws, hws, rfl⟩ (by decide)]
      exact Search.find_eq_none_iff_not_isInfix.mpr hfree
    have hfind : Search.find call_open (free ++ (ws ++ (text ++ rest))) =
        some (free ++ ws).length := by
      have hopen : (60 : UInt8) ∉ call_open.tail := by decide
      rw [hbehind, ← List.append_assoc, List.append_assoc call_open]
      exact Search.find_append_self hopen hnone _
    have hparse : parse_calls numbers tool_schemas (text ++ rest) =
        some ((c :: cs).map (CallText.call numbers tool_schemas)) :=
      Blocks.parse (.cons (List.forall_mem_nil _) hblock hblocks)
    rw [parse_qwen_tool_output, hfind]
    dsimp only
    rw [← List.append_assoc, List.drop_left, List.take_left, hparse]
    rw [List.map_cons]
    dsimp only
    rw [trim_append_right hws]

/-- What has calls is such a text. -/
theorem toolText_of_calls {output : Bytes}
    (h : (parse_qwen_tool_output numbers tool_schemas output).calls ≠ []) :
    ∃ free cs, ToolText free cs output := by
  rw [parse_qwen_tool_output] at h
  rcases hfind : Search.find call_open output with _ | first_call
  · rw [hfind] at h
    exact absurd rfl h
  · rw [hfind] at h
    dsimp only at h
    rcases hparse : parse_calls numbers tool_schemas (output.drop first_call) with _ | calls
    · rw [hparse] at h
      exact absurd rfl h
    · obtain ⟨cs, hblocks, rfl⟩ := blocks_of_parse_calls hparse
      refine ⟨output.take first_call, cs, ?_,
        ⟨_, hblocks, (List.take_append_drop first_call output).symm⟩, ?_⟩
      · have hbound := Search.find_bound hfind
        rw [← List.take_append_drop first_call output] at hfind
        rw [← Search.find_eq_none_iff_not_isInfix, Search.find_left hfind, if_neg]
        have hpos : 0 < call_open.length := by decide
        rw [List.length_take]
        omega
      · rintro rfl
        rw [hparse] at h
        exact absurd rfl h

/-- **The grammar of the parser**, for every output and all schemas. A text without a marker and
blocks behind it give the trimmed text and the calls of the blocks in order; there are calls only
then, and every other output is content. -/
theorem tool_output_grammar (numbers : NumberText) (tool_schemas : List Bytes) (output : Bytes) :
    (∀ free cs, ToolText free cs output → parse_qwen_tool_output numbers tool_schemas output =
      ⟨trim free, cs.map (CallText.call numbers tool_schemas)⟩) ∧
    ((parse_qwen_tool_output numbers tool_schemas output).calls ≠ [] ↔
      ∃ free cs, ToolText free cs output) ∧
    ((¬∃ free cs, ToolText free cs output) →
      parse_qwen_tool_output numbers tool_schemas output = ⟨trim output, []⟩) := by
  refine ⟨fun free cs h => h.parse, ⟨toolText_of_calls, ?_⟩, ?_⟩
  · rintro ⟨free, cs, h⟩
    rw [h.parse]
    exact fun hnil => h.called (List.map_eq_nil_iff.mp hnil)
  · intro h
    have hcalls : (parse_qwen_tool_output numbers tool_schemas output).calls = [] :=
      not_not.mp fun hne => h (toolText_of_calls hne)
    rw [parse_qwen_tool_output] at hcalls ⊢
    split
    · rfl
    next first_call hfind =>
      rw [hfind] at hcalls
      dsimp only at hcalls
      rcases hparse : parse_calls numbers tool_schemas (output.drop first_call) with
        _ | _ | ⟨call, calls⟩
      · rfl
      · rfl
      · rw [hparse] at hcalls
        cases hcalls

end Calls

end Qwen38
