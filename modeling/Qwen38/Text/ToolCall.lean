import Qwen38.Text.Json

/-!
# The parser of Qwen tool calls

`parse_qwen_tool_output` reads the tool calls a model writes after its answer. The text
before the first `<tool_call>` is the content; what follows must be nothing but
well-formed calls, and otherwise the whole output is content.

The two response paths hand the parser texts that differ at the end: the non-streaming
path trims what follows the reasoning, the streaming path passes the bytes as they came.
`Qwen38.parse_calls_padded` is why this does not matter: no delimiter of the format has
white space in it, so white space after the input changes no step of the parse.
-/

namespace Qwen38

/-! ### Delimiters -/

/-- `<tool_call>`, also the `marker` and `tool_marker` of the streaming response. -/
def call_open : Bytes := ascii ['<', 't', 'o', 'o', 'l', '_', 'c', 'a', 'l', 'l', '>']

/-- `</tool_call>`. -/
def call_close : Bytes := ascii ['<', '/', 't', 'o', 'o', 'l', '_', 'c', 'a', 'l', 'l', '>']

/-- `<function=`. -/
def function_open : Bytes := ascii ['<', 'f', 'u', 'n', 'c', 't', 'i', 'o', 'n', '=']

/-- `</function>`. -/
def function_close : Bytes := ascii ['<', '/', 'f', 'u', 'n', 'c', 't', 'i', 'o', 'n', '>']

/-- `<parameter=`. -/
def parameter_open : Bytes := ascii ['<', 'p', 'a', 'r', 'a', 'm', 'e', 't', 'e', 'r', '=']

/-- `</parameter>`. -/
def parameter_close : Bytes :=
  ascii ['<', '/', 'p', 'a', 'r', 'a', 'm', 'e', 't', 'e', 'r', '>']

/-! ### The parser -/

/-- `tagged_name`: a tag `<opening name>`. -/
def tagged_name (input opening : Bytes) : Option (Bytes × Bytes) :=
  match consume input opening with
  | none => none
  | some rest =>
    match Search.find (ascii ['>']) rest with
    | none => none
    | some close =>
      let name := rest.take close
      if close = 0 ∨ name.any (fun b => b ∈ ascii ['<', '>', '\r', '\n']) then none
      else some (name, rest.drop (close + 1))

section Schemas

variable (numbers : NumberText)

/-- Whether the `type` of a property names the type `string`. -/
def type_is_string {D : Type} (type : Json D) : Bool :=
  let is_string_name := fun (value : Json D) =>
    value.as_string == some (ascii ['s', 't', 'r', 'i', 'n', 'g'])
  match type with
  | .array items => items.any is_string_name
  | type => is_string_name type

/-- The `type` of a parameter in a function's schema, when every step to it exists. -/
def parameter_type {D : Type} (function : Json D) (parameter_name : Bytes) : Option (Json D) := do
  let parameters ← function.find (ascii ['p', 'a', 'r', 'a', 'm', 'e', 't', 'e', 'r', 's'])
  let properties ← parameters.find (ascii ['p', 'r', 'o', 'p', 'e', 'r', 't', 'i', 'e', 's'])
  let property ← properties.find parameter_name
  property.find (ascii ['t', 'y', 'p', 'e'])

/-- `schema_requires_string`: the first schema of the tool decides; schemas that do not
parse or have no name are passed over. -/
def schema_requires_string : List Bytes → Bytes → Bytes → Bool
  | [], _, _ => false
  | source :: schemas, tool_name, parameter_name =>
    match Json.parse numbers source with
    | .error _ => schema_requires_string schemas tool_name parameter_name
    | .ok schema =>
      let function := (schema.find (ascii ['f', 'u', 'n', 'c', 't', 'i', 'o', 'n'])).getD schema
      if (function.find (ascii ['n', 'a', 'm', 'e'])).bind Json.as_string = some tool_name then
        match parameter_type function parameter_name with
        | none => false
        | some type => type_is_string type
      else schema_requires_string schemas tool_name parameter_name

/-- `inferred_argument`: the value as JSON when it parses, else as a string. -/
def inferred_argument (value : Bytes) (force_string : Bool) : Json numbers.Double :=
  if force_string then .string value
  else match Json.parse numbers value with
    | .ok json => json
    | .error _ => .string value

end Schemas

/-- Drop a byte if the input starts with it. -/
def drop_byte (b : UInt8) : Bytes → Bytes
  | [] => []
  | c :: rest => if c = b then rest else c :: rest

/-- The white space after `<parameter=…>` that is not part of the value. -/
def drop_newline (input : Bytes) : Bytes := drop_byte 10 (drop_byte 13 input)

/-- One parameter: its name, the text of its value, and what follows. -/
def parse_parameter (input : Bytes) : Option (Bytes × Bytes × Bytes) :=
  match tagged_name input parameter_open with
  | none => none
  | some (parameter, rest) =>
    let rest := drop_newline rest
    match Search.find parameter_close rest with
    | none => none
    | some close =>
      some (parameter, trim (rest.take close), rest.drop (close + parameter_close.length))

/-- `ParsedToolCall`. -/
structure ParsedToolCall where
  name : Bytes
  arguments_json : Bytes
  deriving DecidableEq

/-- `ParsedToolOutput`. -/
structure ParsedToolOutput where
  content : Bytes
  calls : List ParsedToolCall
  deriving DecidableEq

/-! ### Every step consumes -/

theorem length_skip_space_le (input : Bytes) : (skip_space input).length ≤ input.length :=
  (List.dropWhile_sublist _).length_le

theorem consume_eq_some_iff {input value rest : Bytes} :
    consume input value = some rest ↔ input = value ++ rest := by
  unfold consume
  split
  · next h =>
    obtain ⟨t, rfl⟩ := h
    simp [eq_comm]
  · next h =>
    refine ⟨fun hc => by simp at hc, fun hc => absurd ⟨rest, hc.symm⟩ h⟩

theorem length_drop_byte_le (b : UInt8) (input : Bytes) :
    (drop_byte b input).length ≤ input.length := by
  cases input with
  | nil => simp [drop_byte]
  | cons c rest =>
    rw [drop_byte]
    split <;> simp

theorem length_drop_newline_le (input : Bytes) : (drop_newline input).length ≤ input.length :=
  (length_drop_byte_le _ _).trans (length_drop_byte_le _ _)

theorem tagged_name_length {input opening name rest : Bytes}
    (h : tagged_name input opening = some (name, rest)) : rest.length < input.length := by
  unfold tagged_name at h
  split at h
  · simp at h
  · next middle hc =>
    rw [consume_eq_some_iff.mp hc]
    split at h
    · simp at h
    · next close hf =>
      have hb := Search.find_bound hf
      dsimp only at h
      split at h
      · simp at h
      · obtain ⟨rfl, rfl⟩ : _ ∧ _ := by simpa using h
        simp only [List.length_append, List.length_drop, ascii, List.length_map,
          List.length_cons, List.length_nil] at hb ⊢
        omega

theorem parse_parameter_length {input parameter value rest : Bytes}
    (h : parse_parameter input = some (parameter, value, rest)) : rest.length < input.length := by
  unfold parse_parameter at h
  split at h
  · simp at h
  · next p middle hn =>
    have hlt := tagged_name_length hn
    have hle := length_drop_newline_le middle
    dsimp only at h
    split at h
    · simp at h
    · obtain ⟨-, -, rfl⟩ : _ ∧ _ ∧ _ := by simpa using h
      simp only [List.length_drop]
      omega

/-! ### The loops -/

section Loops

variable (numbers : NumberText) (tool_schemas : List Bytes)

/-- The loop of `parse_call` over the parameters of a call. -/
def parse_parameters (name : Bytes) (arguments : List (Bytes × Json numbers.Double))
    (input : Bytes) : Option (List (Bytes × Json numbers.Double) × Bytes) :=
  match consume (skip_space input) function_close with
  | some rest => some (arguments, rest)
  | none =>
    match _h : parse_parameter (skip_space input) with
    | none => none
    | some (parameter, value, rest) =>
      let force_string := schema_requires_string numbers tool_schemas name parameter
      if (arguments.lookup parameter).isSome then none
      else
        parse_parameters name
          (arguments ++ [(parameter, inferred_argument numbers value force_string)]) rest
termination_by input.length
decreasing_by exact (parse_parameter_length _h).trans_le (length_skip_space_le input)

/-- `parse_call`. -/
def parse_call (input : Bytes) : Option (ParsedToolCall × Bytes) := do
  let rest ← consume input call_open
  let (name, rest) ← tagged_name (skip_space rest) function_open
  let (arguments, rest) ← parse_parameters numbers tool_schemas name [] rest
  let rest ← consume (skip_space rest) call_close
  some (⟨name, (Json.object arguments).dump numbers⟩, rest)

variable {numbers tool_schemas}

theorem parse_parameters_length {name input rest : Bytes}
    {arguments result : List (Bytes × Json numbers.Double)}
    (h : parse_parameters numbers tool_schemas name arguments input = some (result, rest)) :
    rest.length ≤ input.length := by
  fun_induction parse_parameters numbers tool_schemas name arguments input with
  | case1 arguments input middle hc =>
    obtain ⟨-, rfl⟩ : _ ∧ _ := by simpa using h
    have hle := length_skip_space_le input
    rw [consume_eq_some_iff.mp hc, List.length_append] at hle
    omega
  | case2 => simp at h
  | case3 => simp at h
  | case4 arguments input hc parameter value middle hp force_string hdup ih =>
    exact (ih h).trans ((parse_parameter_length hp).le.trans (length_skip_space_le input))

theorem parse_call_length {input rest : Bytes} {call : ParsedToolCall}
    (h : parse_call numbers tool_schemas input = some (call, rest)) :
    rest.length < input.length := by
  simp only [parse_call, Option.bind_eq_bind, Option.bind_eq_some_iff, Prod.exists] at h
  obtain ⟨r1, h1, name, r2, h2, arguments, r3, h3, r4, h4, h5⟩ := h
  obtain ⟨-, rfl⟩ : _ ∧ _ := by simpa using h5
  have l1 := congrArg List.length (consume_eq_some_iff.mp h1)
  have l2 := tagged_name_length h2
  have l3 := parse_parameters_length h3
  have l4 := congrArg List.length (consume_eq_some_iff.mp h4)
  have s1 := length_skip_space_le r1
  have s3 := length_skip_space_le r3
  simp only [List.length_append] at l1 l4
  omega

variable (numbers tool_schemas)

/-- The loop of `parse_qwen_tool_output`: calls and white space to the end of the input,
or nothing. -/
def parse_calls (input : Bytes) : Option (List ParsedToolCall) :=
  if skip_space input = [] then some []
  else
    match _h : parse_call numbers tool_schemas (skip_space input) with
    | none => none
    | some (call, rest) => (parse_calls rest).map (call :: ·)
termination_by input.length
decreasing_by exact (parse_call_length _h).trans_le (length_skip_space_le input)

/-- `parse_qwen_tool_output`. -/
def parse_qwen_tool_output (output : Bytes) : ParsedToolOutput :=
  match Search.find call_open output with
  | none => ⟨trim output, []⟩
  | some first_call =>
    match parse_calls numbers tool_schemas (output.drop first_call) with
    | none | some [] => ⟨trim output, []⟩
    | some calls => ⟨trim (output.take first_call), calls⟩

theorem parse_parameters_eq (name : Bytes) (arguments : List (Bytes × Json numbers.Double))
    (input : Bytes) :
    parse_parameters numbers tool_schemas name arguments input =
      match consume (skip_space input) function_close with
      | some rest => some (arguments, rest)
      | none =>
        match parse_parameter (skip_space input) with
        | none => none
        | some (parameter, value, rest) =>
          if (arguments.lookup parameter).isSome then none
          else
            parse_parameters numbers tool_schemas name
              (arguments ++ [(parameter, inferred_argument numbers value
                (schema_requires_string numbers tool_schemas name parameter))]) rest := by
  rw [parse_parameters]
  rcases consume (skip_space input) function_close with _ | rest
  · rcases parse_parameter (skip_space input) with _ | ⟨parameter, value, rest⟩ <;> rfl
  · rfl

theorem parse_calls_eq (input : Bytes) :
    parse_calls numbers tool_schemas input =
      if skip_space input = [] then some []
      else
        match parse_call numbers tool_schemas (skip_space input) with
        | none => none
        | some (call, rest) => (parse_calls numbers tool_schemas rest).map (call :: ·) := by
  rw [parse_calls]
  split
  · rfl
  · rcases parse_call numbers tool_schemas (skip_space input) with _ | ⟨call, rest⟩ <;> rfl

end Loops

/-! ### White space after the input -/

/-- `r'` is `r` with white space after it. -/
def Padded (r r' : Bytes) : Prop := ∃ ws, (∀ c ∈ ws, isspace c = true) ∧ r' = r ++ ws

/-- A delimiter: not empty and without white space. -/
def SpaceFree (v : Bytes) : Prop := v ≠ [] ∧ v.all (fun c => !isspace c) = true

instance (v : Bytes) : Decidable (SpaceFree v) := inferInstanceAs (Decidable (_ ∧ _))

theorem SpaceFree.isspace_eq_false {v : Bytes} (hv : SpaceFree v) {c : UInt8} (hc : c ∈ v) :
    isspace c = false := by
  simpa using List.all_eq_true.mp hv.2 c hc

variable {r r' v : Bytes}

theorem Padded.refl (r : Bytes) : Padded r r := ⟨[], by simp, by simp⟩

theorem Padded.trim_eq (h : Padded r r') : trim r' = trim r := by
  obtain ⟨ws, hws, rfl⟩ := h
  exact trim_append_right hws r

theorem Padded.skip_space (h : Padded r r') : Padded (skip_space r) (skip_space r') := by
  obtain ⟨ws, hws, rfl⟩ := h
  by_cases hr : Qwen38.skip_space r = []
  · refine ⟨Qwen38.skip_space (r ++ ws), fun c hc => ?_, by simp [hr]⟩
    rcases List.mem_append.mp ((List.dropWhile_sublist _).subset hc) with hc | hc
    · exact List.dropWhile_eq_nil_iff.mp hr c hc
    · exact hws c hc
  · refine ⟨ws, hws, ?_⟩
    rw [Qwen38.skip_space, List.dropWhile_append, if_neg (by simpa [Qwen38.skip_space] using hr),
      Qwen38.skip_space]

/-- A delimiter cannot reach into white space. -/
theorem SpaceFree.prefix_padded_iff (hv : SpaceFree v) (h : Padded r r') :
    v <+: r' ↔ v <+: r := by
  obtain ⟨ws, hws, rfl⟩ := h
  refine ⟨fun hp => ?_, fun hp => hp.trans (List.prefix_append r ws)⟩
  rcases Nat.le_total v.length r.length with hle | hle
  · exact List.prefix_of_prefix_length_le hp (List.prefix_append r ws) hle
  · obtain ⟨t, rfl⟩ := List.prefix_of_prefix_length_le (List.prefix_append r ws) hp hle
    cases t with
    | nil => simp
    | cons c t =>
      have h1 := hws c (((List.prefix_append_right_inj r).mp hp).subset List.mem_cons_self)
      have h2 := hv.isspace_eq_false (List.mem_append_right r List.mem_cons_self)
      rw [h1] at h2
      exact absurd h2 (by decide)

/-- A delimiter does not occur in white space before a text. -/
theorem find_space_append (hv : SpaceFree v) {ws : Bytes} (hws : ∀ c ∈ ws, isspace c = true)
    (s : Bytes) : Search.find v (ws ++ s) = (Search.find v s).map (ws.length + ·) := by
  induction ws with
  | nil => simp
  | cons c ws ih =>
    have hnot : ¬v <+: c :: (ws ++ s) := by
      cases v with
      | nil => exact absurd rfl hv.1
      | cons d v =>
        rw [List.cons_prefix_cons]
        rintro ⟨rfl, -⟩
        have h1 := hws d List.mem_cons_self
        rw [hv.isspace_eq_false List.mem_cons_self] at h1
        exact absurd h1 (by decide)
    rw [List.cons_append, Search.find, if_neg hnot,
      ih fun d hd => hws d (List.mem_cons_of_mem c hd), Option.map_map]
    congr 1
    funext k
    simp only [Function.comp_apply, List.length_cons]
    omega

theorem Padded.consume (h : Padded r r') (hv : SpaceFree v) :
    Option.Rel Padded (consume r v) (consume r' v) := by
  unfold Qwen38.consume
  by_cases hp : v <+: r
  · rw [if_pos hp, if_pos ((hv.prefix_padded_iff h).mpr hp)]
    obtain ⟨ws, hws, rfl⟩ := h
    exact .some ⟨ws, hws, List.drop_append_of_le_length hp.length_le⟩
  · rw [if_neg hp, if_neg (mt (hv.prefix_padded_iff h).mp hp)]
    exact .none

theorem Padded.drop (h : Padded r r') {k : Nat} (hk : k ≤ r.length) :
    Padded (r.drop k) (r'.drop k) := by
  obtain ⟨ws, hws, rfl⟩ := h
  exact ⟨ws, hws, List.drop_append_of_le_length hk⟩

theorem Padded.take (h : Padded r r') {k : Nat} (hk : k ≤ r.length) : r'.take k = r.take k := by
  obtain ⟨ws, hws, rfl⟩ := h
  exact List.take_append_of_le_length hk

theorem Padded.drop_byte (h : Padded r r') {b : UInt8} :
    Padded (drop_byte b r) (drop_byte b r') := by
  obtain ⟨ws, hws, rfl⟩ := h
  cases r with
  | nil =>
    refine ⟨Qwen38.drop_byte b ws, fun c hc => hws c ?_, rfl⟩
    cases ws with
    | nil => exact hc
    | cons d ws =>
      rw [Qwen38.drop_byte] at hc
      split at hc
      · exact List.mem_cons_of_mem d hc
      · exact hc
  | cons c r =>
    simp only [List.cons_append, Qwen38.drop_byte]
    split
    · exact ⟨ws, hws, rfl⟩
    · exact ⟨ws, hws, rfl⟩

theorem Padded.find (h : Padded r r') (hv : SpaceFree v) : Search.find v r' = Search.find v r := by
  obtain ⟨ws, hws, rfl⟩ := id h
  rcases hf : Search.find v r with _ | i
  · refine Search.find_eq_none_iff.mpr fun k hk hp => ?_
    rcases Nat.lt_or_ge r.length k with hlt | hle
    · -- An occurrence in the white space itself.
      rw [List.drop_append, List.drop_eq_nil_of_le hlt.le, List.nil_append] at hp
      obtain ⟨c, hc⟩ := List.exists_mem_of_ne_nil v hv.1
      have h1 := hws c (List.mem_of_mem_drop (hp.subset hc))
      rw [hv.isspace_eq_false hc] at h1
      exact absurd h1 (by decide)
    · exact Search.find_eq_none_iff.mp hf k hle
        ((hv.prefix_padded_iff (h.drop hle)).mp hp)
  · exact Search.find_append_of_some hf ws

/-- Two results of a parsing step: the same value, and remainders up to padding. -/
def SameResult {α : Type} (p q : α × Bytes) : Prop := p.1 = q.1 ∧ Padded p.2 q.2

/-- Two optional results are both absent, or both there and related. -/
theorem rel_cases {α β : Type} {R : α → β → Prop} {x : Option α} {y : Option β}
    (h : Option.Rel R x y) :
    (x = none ∧ y = none) ∨ ∃ a b, x = some a ∧ y = some b ∧ R a b := by
  cases h with
  | none => exact .inl ⟨rfl, rfl⟩
  | some h => exact .inr ⟨_, _, rfl, rfl, h⟩

theorem rel_bind {α β γ δ : Type} {R : α → β → Prop} {S : γ → δ → Prop} {x : Option α}
    {y : Option β} {f : α → Option γ} {g : β → Option δ} (hxy : Option.Rel R x y)
    (hfg : ∀ a b, R a b → Option.Rel S (f a) (g b)) : Option.Rel S (x.bind f) (y.bind g) := by
  cases hxy with
  | none => exact .none
  | some h => exact hfg _ _ h

theorem Padded.tagged_name (h : Padded r r') {opening : Bytes} (ho : SpaceFree opening) :
    Option.Rel SameResult (tagged_name r opening) (tagged_name r' opening) := by
  unfold Qwen38.tagged_name
  rcases rel_cases (h.consume ho) with ⟨h1, h2⟩ | ⟨rest, rest', h1, h2, hrest⟩
  · rw [h1, h2]
    exact .none
  · have hgt : SpaceFree (ascii ['>']) := by decide
    rw [h1, h2]
    dsimp only
    rw [hrest.find hgt]
    rcases hf : Search.find (ascii ['>']) rest with _ | close
    · exact .none
    · have hb : close + 1 ≤ rest.length := Search.find_bound hf
      dsimp only
      rw [hrest.take (by omega)]
      split
      · exact .none
      · exact .some ⟨rfl, hrest.drop hb⟩

theorem Padded.parse_parameter (h : Padded r r') :
    Option.Rel (fun p q => p.1 = q.1 ∧ p.2.1 = q.2.1 ∧ Padded p.2.2 q.2.2)
      (parse_parameter r) (parse_parameter r') := by
  unfold Qwen38.parse_parameter
  rcases rel_cases (h.tagged_name (show SpaceFree parameter_open by decide)) with
    ⟨h1, h2⟩ | ⟨⟨name, rest⟩, ⟨name', rest'⟩, h1, h2, hname, hrest⟩
  · rw [h1, h2]
    exact .none
  · obtain rfl : name = name' := hname
    have hvalue : Padded (drop_newline rest) (drop_newline rest') := hrest.drop_byte.drop_byte
    rw [h1, h2]
    dsimp only
    rw [hvalue.find (show SpaceFree parameter_close by decide)]
    rcases hf : Search.find parameter_close (drop_newline rest) with _ | close
    · exact .none
    · have hb := Search.find_bound hf
      refine .some ⟨rfl, ?_, hvalue.drop hb⟩
      dsimp only
      rw [hvalue.take (by omega)]

section Padding

variable {numbers : NumberText} {tool_schemas : List Bytes}

theorem Padded.parse_parameters (h : Padded r r') (name : Bytes)
    (arguments : List (Bytes × Json numbers.Double)) :
    Option.Rel SameResult (parse_parameters numbers tool_schemas name arguments r)
      (parse_parameters numbers tool_schemas name arguments r') := by
  -- The two runs take the same branches; what they leave to read stays padded.
  induction hn : r.length using Nat.strong_induction_on generalizing r r' arguments with
  | _ n ih =>
    rw [parse_parameters_eq, parse_parameters_eq numbers tool_schemas name arguments r']
    rcases rel_cases (h.skip_space.consume (show SpaceFree function_close by decide)) with
      ⟨h1, h2⟩ | ⟨rest, rest', h1, h2, hrest⟩
    · rw [h1, h2]
      rcases rel_cases h.skip_space.parse_parameter with
        ⟨h3, h4⟩ | ⟨⟨p, v, rest⟩, ⟨p', v', rest'⟩, h3, h4, hp, hv, hrest⟩
      · rw [h3, h4]
        exact .none
      · obtain rfl : p = p' := hp
        obtain rfl : v = v' := hv
        rw [h3, h4]
        dsimp only
        split
        · exact .none
        · refine ih rest.length ?_ hrest _ rfl
          rw [← hn]
          exact (parse_parameter_length h3).trans_le (length_skip_space_le r)
    · rw [h1, h2]
      exact .some ⟨rfl, hrest⟩

theorem Padded.parse_call (h : Padded r r') :
    Option.Rel SameResult (parse_call numbers tool_schemas r)
      (parse_call numbers tool_schemas r') := by
  refine rel_bind (h.consume (show SpaceFree call_open by decide)) fun a a' ha => ?_
  refine rel_bind (ha.skip_space.tagged_name (show SpaceFree function_open by decide)) ?_
  rintro ⟨name, b⟩ ⟨name', b'⟩ ⟨hname, hb⟩
  obtain rfl : name = name' := hname
  refine rel_bind (Padded.parse_parameters hb name []) ?_
  rintro ⟨arguments, c⟩ ⟨arguments', c'⟩ ⟨harguments, hc⟩
  obtain rfl : arguments = arguments' := harguments
  refine rel_bind (hc.skip_space.consume (show SpaceFree call_close by decide)) fun d d' hd => ?_
  exact .some ⟨rfl, hd⟩

/-- **White space after the input changes no call the parser finds.** Each of its parts looks for a
tag, and a tag has no white space at its end. -/
theorem parse_calls_padded (h : Padded r r') :
    parse_calls numbers tool_schemas r' = parse_calls numbers tool_schemas r := by
  induction hn : r.length using Nat.strong_induction_on generalizing r r' with
  | _ n ih =>
    rw [parse_calls_eq, parse_calls_eq numbers tool_schemas r]
    by_cases hs : skip_space r = []
    · -- Nothing but white space on both sides.
      have hs' : skip_space r' = [] := by
        obtain ⟨ws, hws, rfl⟩ := h
        rw [skip_space, List.dropWhile_eq_nil_iff] at hs ⊢
        exact fun c hc => (List.mem_append.mp hc).elim (hs c) (hws c)
      rw [if_pos hs, if_pos hs']
    · have hs' : skip_space r' ≠ [] := by
        obtain ⟨ws, -, he⟩ := h.skip_space
        rw [he]
        exact List.append_ne_nil_of_left_ne_nil hs ws
      rw [if_neg hs, if_neg hs']
      rcases rel_cases (show Option.Rel SameResult (parse_call numbers tool_schemas _) _ from
        h.skip_space.parse_call) with ⟨h1, h2⟩ | ⟨⟨c, rest⟩, ⟨c', rest'⟩, h1, h2, hc, hrest⟩
      · rw [h1, h2]
      · obtain rfl : c = c' := hc
        rw [h1, h2]
        dsimp only
        rw [ih rest.length ?_ hrest rfl]
        rw [← hn]
        exact (parse_call_length h1).trans_le (length_skip_space_le r)

/-- The tool output of a text does not depend on the white space after it. -/
theorem parse_qwen_tool_output_padded (h : Padded r r') :
    parse_qwen_tool_output numbers tool_schemas r' =
      parse_qwen_tool_output numbers tool_schemas r := by
  unfold parse_qwen_tool_output
  rw [h.find (show SpaceFree call_open by decide), h.trim_eq]
  rcases hf : Search.find call_open r with _ | i
  · rfl
  · have hb := Search.find_bound hf
    dsimp only
    rw [parse_calls_padded (h.drop (k := i) (by omega)), h.take (by omega)]

/-- The tool output of a text does not depend on the white space before it. -/
theorem parse_qwen_tool_output_append {ws : Bytes} (hws : ∀ c ∈ ws, isspace c = true) (s : Bytes) :
    parse_qwen_tool_output numbers tool_schemas (ws ++ s) =
      parse_qwen_tool_output numbers tool_schemas s := by
  unfold parse_qwen_tool_output
  rw [find_space_append (by decide) hws, trim_append_left hws]
  rcases Search.find call_open s with _ | i
  · rfl
  · simp only [Option.map_some, List.drop_append, List.take_append, trim_append_left hws,
      List.drop_eq_nil_of_le (Nat.le_add_right ws.length i), List.nil_append,
      List.take_of_length_le (Nat.le_add_right ws.length i), Nat.add_sub_cancel_left]

/-- **Trimming a text first changes nothing in its tool output.** -/
theorem parse_qwen_tool_output_trim (s : Bytes) :
    parse_qwen_tool_output numbers tool_schemas (trim s) =
      parse_qwen_tool_output numbers tool_schemas s := by
  obtain ⟨ws, ws', hws, hws', hs⟩ := exists_trim s
  conv_rhs => rw [hs, List.append_assoc, parse_qwen_tool_output_append hws]
  exact (parse_qwen_tool_output_padded ⟨ws', hws', rfl⟩).symm

/-- The content of a tool output is trimmed. -/
@[simp] theorem trim_parse_qwen_tool_output_content (s : Bytes) :
    trim (parse_qwen_tool_output numbers tool_schemas s).content =
      (parse_qwen_tool_output numbers tool_schemas s).content := by
  unfold parse_qwen_tool_output
  split
  · simp
  · split <;> simp

end Padding

/-! ### Splitting a text at the first call -/

section Split

variable (numbers : NumberText) (tool_schemas : List Bytes) {s : Bytes} {i : Nat}

theorem parse_qwen_tool_output_of_none (h : Search.find call_open s = none) :
    parse_qwen_tool_output numbers tool_schemas s = ⟨trim s, []⟩ := by
  rw [parse_qwen_tool_output, h]

/-- The tool output of the part of a text from its first call on. -/
theorem parse_qwen_tool_output_drop (h : Search.find call_open s = some i) :
    parse_qwen_tool_output numbers tool_schemas (s.drop i) =
      match parse_calls numbers tool_schemas (s.drop i) with
      | none | some [] => ⟨trim (s.drop i), []⟩
      | some calls => ⟨[], calls⟩ := by
  rw [parse_qwen_tool_output, Search.find_of_prefix (Search.prefix_of_find h)]
  rfl

/-- **The calls of a text are those of its part from the first call on**, where the
streaming response starts to collect. -/
theorem parse_qwen_tool_output_drop_calls (h : Search.find call_open s = some i) :
    (parse_qwen_tool_output numbers tool_schemas (s.drop i)).calls =
      (parse_qwen_tool_output numbers tool_schemas s).calls := by
  rw [parse_qwen_tool_output_drop numbers tool_schemas h, parse_qwen_tool_output, h]
  dsimp only
  rcases parse_calls numbers tool_schemas (s.drop i) with _ | _ | _ <;> rfl

/-- The content of a text is what stands before the first call, with the content of the
rest after it. -/
theorem trim_take_append_content (h : Search.find call_open s = some i) :
    trim (s.take i ++ (parse_qwen_tool_output numbers tool_schemas (s.drop i)).content) =
      (parse_qwen_tool_output numbers tool_schemas s).content := by
  have hplain : trim (s.take i ++ trim (s.drop i)) = trim s := by
    obtain ⟨t, ht⟩ := Search.prefix_of_find h
    have hskip : skip_space (s.drop i) = s.drop i := by
      rw [← ht]
      rfl
    obtain ⟨ws, hws, hpad⟩ : ∃ ws, (∀ c ∈ ws, isspace c = true) ∧
        s.drop i = trim (s.drop i) ++ ws :=
      ⟨(s.drop i).rtakeWhile isspace, fun c hc => List.mem_rtakeWhile_imp hc,
        by rw [trim, hskip, List.rdropWhile_append_rtakeWhile]⟩
    rw [← trim_append_right hws, List.append_assoc, ← hpad, List.take_append_drop]
  rw [parse_qwen_tool_output_drop numbers tool_schemas h, parse_qwen_tool_output, h]
  dsimp only
  rcases parse_calls numbers tool_schemas (s.drop i) with _ | _ | _
  · exact hplain
  · exact hplain
  · dsimp only
    rw [List.append_nil]

end Split

end Qwen38
