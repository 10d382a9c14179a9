import Qwen38.Text.StreamPhases

/-!
# The stream against the whole text, and against another stream

Two things a client could hope for: that the streamed response says what the
non-streamed one would have said, and that it does not depend on how the text was split.
Both hold while the model does not think, and both fail in the thinking phase, for the
same reason: the stream decides how the phase ends from the bytes it has, and
`split_chat_output` from all of them.

* Against `split_chat_output` (`Qwen38.Sse.stream_agrees_iff`): a stream whose thinking
  ends at the first `</think>` agrees; one whose thinking never ends, or ends at a
  `<tool_call>`, agrees only if there was no `</think>` in the text and no thinking but
  white space.
* Against another splitting (`Qwen38.Sse.streams_equal_iff`): equal responses are equal
  switches, where the number of bytes of white space that arrived with `</think>` counts.
-/

namespace Qwen38

/-! ### Agreement -/

theorem ChatResponse.Agree.symm {r r' : ChatResponse} (h : r.Agree r') : r'.Agree r :=
  ⟨h.1.symm, h.2.1.symm, h.2.2.1.symm, h.2.2.2.symm⟩

theorem ChatResponse.Agree.trans {r r' r'' : ChatResponse} (h : r.Agree r') (h' : r'.Agree r'') :
    r.Agree r'' :=
  ⟨h.1.trans h'.1, h.2.1.trans h'.2.1, h.2.2.1.trans h'.2.2.1, h.2.2.2.trans h'.2.2.2⟩

namespace Sse

/-- A chat request. -/
def Options.chat_request (enable_thinking : Bool) (tools_json : List Bytes) : Options :=
  ⟨true, enable_thinking, tools_json⟩

/-- The response for a reasoning and a content when the tool parser sees all of the
content. -/
def completed (numbers : NumberText) (tools_json : List Bytes) (parts : Bytes × Bytes)
    (finish_reason : FinishReason) : ChatResponse :=
  let parsed := if tools_json ≠ [] then parse_qwen_tool_output numbers tools_json parts.2
    else ⟨parts.2, []⟩
  { reasoning_content := parts.1
    content := parsed.content
    tool_calls := parsed.calls
    finish_reason := some (if parsed.calls = [] then finish_reason else .tool_calls) }

/-- The parts `split_chat_output` works with. -/
def split_parts (text : Bytes) (enable_thinking : Bool) : Bytes × Bytes :=
  if enable_thinking then
    match Search.find think_close text with
    | some separator =>
      (trim (text.take separator), trim (text.drop (separator + think_close.length)))
    | none => ([], text)
  else ([], text)

variable {numbers : NumberText} {enable_thinking : Bool} {tools_json : List Bytes}
variable {finish_reason : FinishReason} {parts parts' : Bytes × Bytes} {text ws : Bytes}

theorem parse_tools_chat_request :
    (Options.chat_request enable_thinking tools_json).parse_tools = true ↔ tools_json ≠ [] := by
  rw [Options.parse_tools, Options.chat_request, Bool.true_and, decide_eq_true_iff]

/-- The non-streaming response, by its parts. -/
theorem chat_completion_eq :
    chat_completion numbers text enable_thinking tools_json finish_reason =
      completed numbers tools_json (split_parts text enable_thinking) finish_reason := by
  have hparts : split_parts text enable_thinking =
      ((split_reasoning text enable_thinking).reasoning_content.getD [],
        (split_reasoning text enable_thinking).content) := by
    unfold split_parts split_reasoning
    split
    · rcases Search.find think_close text with _ | separator <;> rfl
    · rfl
  have hcalls : (split_reasoning text enable_thinking).tool_calls = [] := by
    unfold split_reasoning
    split
    · split <;> rfl
    · rfl
  rw [hparts]
  unfold chat_completion split_chat_output completed ChatOutput.finish_reason
  by_cases htools : tools_json = []
  · simp [htools, hcalls]
  · simp [htools]

/-- The tool parser takes the same out of the collected part as out of the whole. -/
theorem answer_agree_completed :
    (answer (.chat_request enable_thinking tools_json) numbers parts finish_reason).Agree
      (completed numbers tools_json parts finish_reason) := by
  unfold completed
  by_cases htools : tools_json = []
  · rw [answer_of_none fun hp => absurd htools (parse_tools_chat_request.mp hp)]
    simp [htools, ChatResponse.Agree]
  · rw [if_pos htools]
    rcases hf : Search.find call_open parts.2 with _ | start
    · rw [answer_of_none fun _ => hf, parse_qwen_tool_output_of_none _ _ hf]
      exact ⟨rfl, (trim_trim _).symm, rfl, rfl⟩
    · rw [answer_of_some (parse_tools_chat_request.mpr htools) hf]
      have hcalls := parse_qwen_tool_output_drop_calls numbers tools_json hf
      have hfinish : ∀ calls calls' : List ParsedToolCall, calls = calls' →
          some (if calls = [] then finish_reason else .tool_calls) =
            some (if calls' = [] then finish_reason else .tool_calls) := by
        rintro calls _ rfl
        rfl
      refine ⟨rfl, ?_, hcalls, hfinish _ _ hcalls⟩
      dsimp only
      rw [trim_parse_qwen_tool_output_content]
      exact trim_take_append_content numbers tools_json hf

/-- White space around the parts does not matter. -/
theorem completed_agree (h1 : trim parts.1 = trim parts'.1) (h2 : trim parts.2 = trim parts'.2) :
    (completed numbers tools_json parts finish_reason).Agree
      (completed numbers tools_json parts' finish_reason) := by
  unfold completed
  by_cases htools : tools_json = []
  · simp [htools, ChatResponse.Agree, h1, h2]
  · rw [if_pos htools, if_pos htools, ← parse_qwen_tool_output_trim parts.2, h2,
      parse_qwen_tool_output_trim parts'.2]
    exact ⟨h1, rfl, rfl, rfl⟩

/-! ### The stream against the whole text -/

/-- The thinking phase ended as `split_chat_output` ends it, or there was nothing in it. -/
def Switch.EndsAtClose (text : Bytes) : Switch → Prop
  | .off => True
  | .close _ => True
  | .never => ∀ c ∈ text, isspace c = true
  | .tool => Search.find think_close text = none ∧ ∀ c ∈ (phases .tool text).1, isspace c = true

instance (text : Bytes) : DecidablePred (Switch.EndsAtClose text)
  | .off => inferInstanceAs (Decidable True)
  | .close _ => inferInstanceAs (Decidable True)
  | .never => List.decidableBAll (fun c => isspace c = true) text
  | .tool =>
    have : Decidable (∀ c ∈ (phases .tool text).1, isspace c = true) :=
      List.decidableBAll (fun c => isspace c = true) (phases .tool text).1
    inferInstanceAs (Decidable (_ ∧ _))

/-- A trim with white space dropped first. -/
theorem trim_drop_of_space {n : Nat} (h : ∀ c ∈ text.take n, isspace c = true) :
    trim (text.drop n) = trim text := by
  conv_rhs => rw [← List.take_append_drop n text]
  exact (trim_append_left h _).symm

/-- Trimming loses nothing but white space. -/
theorem filter_trim (s : Bytes) :
    (trim s).filter (fun c => !isspace c) = s.filter fun c => !isspace c := by
  obtain ⟨ws, ws', hws, hws', hs⟩ := exists_trim s
  have hnil : ∀ l : Bytes, (∀ c ∈ l, isspace c = true) → l.filter (fun c => !isspace c) = [] :=
    fun l hl => List.filter_eq_nil_iff.mpr fun c hc => by simp [hl c hc]
  conv_rhs => rw [hs, List.filter_append, List.filter_append, hnil ws hws, hnil ws' hws']
  simp

/-- A text cut before a call is not the same text cut after its first byte. -/
theorem trim_take_ne {start stop : Nat} (hcall : Search.find call_open text = some start)
    (hlt : start < stop) : trim (text.take start) ≠ trim (text.take stop) := by
  intro heq
  have hb := Search.find_bound hcall
  have hfilter := congrArg (fun l => (l.filter fun c => !isspace c).length) heq
  rw [filter_trim, filter_trim] at hfilter
  obtain ⟨k, rfl⟩ := Nat.exists_eq_add_of_lt hlt
  obtain ⟨rest, hrest⟩ := Search.prefix_of_find hcall
  have htake : text.take (start + k + 1) = text.take start ++ (text.drop start).take (k + 1) := by
    rw [Nat.add_assoc, List.take_add]
  have hhead : (text.drop start).take (k + 1) = 60 :: ((text.drop start).drop 1).take k := by
    rw [← hrest]
    rfl
  rw [htake, hhead, List.filter_append, List.length_append, List.filter_cons_of_pos (by decide),
    List.length_cons] at hfilter
  omega

/-- A text of thinking that the whole-text parser finds, too, ends where it ends there. -/
theorem SwitchAt.agree_iff {parse_tools : Bool} {switch : Switch}
    (h : SwitchAt parse_tools text switch) :
    (completed numbers tools_json (phases switch text) finish_reason).Agree
        (completed numbers tools_json (split_parts text true) finish_reason) ↔
      switch.EndsAtClose text := by
  unfold split_parts
  rw [if_pos rfl]
  cases h with
  | never hclose hcall =>
    -- All of the text is thinking here, and content there.
    rw [hclose, Switch.EndsAtClose]
    constructor
    · intro hagree
      exact trim_eq_nil_iff.mp hagree.1
    · intro hspace
      have htrim : trim text = [] := trim_eq_nil_iff.mpr hspace
      exact completed_agree htrim htrim.symm
  | close separator skipped hclose hle hspace =>
    rw [phases_close hclose, hclose]
    refine ⟨fun _ => trivial, fun _ => completed_agree (trim_trim _).symm ?_⟩
    dsimp only
    rw [trim_trim, ← List.drop_drop, trim_drop_of_space hspace]
  | tool start hp hcall hbefore =>
    rw [Switch.EndsAtClose, phases_tool hcall]
    rcases hclose : Search.find think_close text with _ | separator
    · constructor
      · intro hagree
        exact ⟨rfl, trim_eq_nil_iff.mp hagree.1⟩
      · rintro ⟨-, hspace⟩
        exact completed_agree (trim_eq_nil_iff.mpr hspace) (trim_drop_of_space hspace)
    · -- The whole-text parser goes on to the `</think>` after the call.
      have hlt : start < separator := by
        have hb := hbefore separator hclose
        have hlen : think_close.length < call_open.length := by decide
        omega
      constructor
      · intro hagree
        have htrim := hagree.1
        dsimp only [completed] at htrim
        rw [trim_trim] at htrim
        exact absurd htrim (trim_take_ne hcall hlt)
      · rintro ⟨hnone, -⟩
        simp at hnone

/-- **A stream says what the whole text says exactly when its thinking phase ends at the
first `</think>`**, or has nothing but white space in it. -/
theorem stream_agrees_iff (numbers : NumberText) (enable_thinking : Bool)
    (tools_json : List Bytes) (deltas : List Bytes) (finish_reason : FinishReason) :
    (received (body_stream stays (.chat_request enable_thinking tools_json) numbers deltas
        (.ok finish_reason)).events).Agree
      (chat_completion numbers deltas.flatten enable_thinking tools_json finish_reason) ↔
    (switch (.chat_request enable_thinking tools_json) deltas).EndsAtClose deltas.flatten := by
  rw [received_body_stream rfl, chat_completion_eq]
  have hanswer : ∀ parts, (answer (.chat_request enable_thinking tools_json) numbers parts
      finish_reason).Agree (completed numbers tools_json parts finish_reason) :=
    fun _ => answer_agree_completed
  cases enable_thinking with
  | false => exact ⟨fun _ => trivial, fun _ => hanswer ([], deltas.flatten)⟩
  | true =>
    have hswitch : SwitchAt _ deltas.flatten (switch (.chat_request true tools_json) deltas) :=
      switchAt_switch rfl deltas
    refine Iff.trans ⟨fun h => (hanswer _).symm.trans h, fun h => (hanswer _).trans h⟩ ?_
    exact hswitch.agree_iff

/-- Thinking that never ends: all of the text is reasoning for one, content for the
other. -/
theorem not_stream_agrees :
    ¬∀ (numbers : NumberText) (enable_thinking : Bool) (tools_json : List Bytes)
      (deltas : List Bytes) (finish_reason : FinishReason),
      (received (body_stream stays (.chat_request enable_thinking tools_json) numbers deltas
          (.ok finish_reason)).events).Agree
        (chat_completion numbers deltas.flatten enable_thinking tools_json finish_reason) :=
  fun h => absurd (h NumberText.integers true [] [ascii ['h', 'i']] .length) (by decide)

/-! ### One stream against another -/

/-- White space before the content goes out as it is. -/
theorem answer_space_append {options : Options} {r C : Bytes}
    (hws : ∀ c ∈ ws, isspace c = true) :
    (answer options numbers (r, ws ++ C) finish_reason).content =
      ws ++ (answer options numbers (r, C) finish_reason).content := by
  by_cases hp : options.parse_tools = true
  · have hfind := find_space_append (show SpaceFree call_open by decide) hws C
    rcases hf : Search.find call_open C with _ | start
    · rw [hf] at hfind
      rw [answer_of_none fun _ => hfind, answer_of_none fun _ => hf]
    · rw [hf, Option.map_some] at hfind
      rw [answer_of_some hp hfind, answer_of_some hp hf]
      dsimp only
      rw [List.drop_length_add_append, List.take_length_add_append, List.append_assoc]
  · rw [answer_of_none fun h => absurd h hp, answer_of_none fun h => absurd h hp]

theorem answer_reasoning_content {options : Options} :
    (answer options numbers parts finish_reason).reasoning_content = parts.1 := by
  rw [answer]
  split <;> rfl

/-- Dropping white space from the content shortens what goes out by as much. -/
theorem length_answer_drop (options : Options) (numbers : NumberText)
    (finish_reason : FinishReason) {r : Bytes} {n : Nat} (hle : n ≤ text.length)
    (hspace : ∀ c ∈ text.take n, isspace c = true) :
    (answer options numbers (r, text.drop n) finish_reason).content.length + n =
      (answer options numbers (r, text) finish_reason).content.length := by
  conv_rhs => rw [← List.take_append_drop n text]
  rw [answer_space_append hspace, List.length_append, List.length_take]
  omega

theorem take_eq_take_iff_of_le {m n : Nat} (hm : m ≤ text.length) (hn : n ≤ text.length)
    (h : text.take m = text.take n) : m = n := by
  have hlen := congrArg List.length h
  rw [List.length_take, List.length_take] at hlen
  omega

/-- **Different switches of one text give different responses.** -/
theorem SwitchAt.switch_eq {options : Options} {switch switch' : Switch}
    (h : SwitchAt options.parse_tools text switch) (h' : SwitchAt options.parse_tools text switch')
    (heq : answer options numbers (phases switch text) finish_reason =
      answer options numbers (phases switch' text) finish_reason) : switch = switch' := by
  have hreason : (phases switch text).1 = (phases switch' text).1 := by
    have hfirst := congrArg ChatResponse.reasoning_content heq
    rwa [answer_reasoning_content, answer_reasoning_content] at hfirst
  have hthink : 0 < think_close.length ∧ think_close.length < call_open.length := by decide
  cases h with
  | never hclose hcall =>
    cases h' with
    | never => rfl
    | close separator skipped hclose' =>
      rw [hclose] at hclose'
      simp at hclose'
    | tool start hp hcall' =>
      rw [hcall hp] at hcall'
      simp at hcall'
  | close separator skipped hclose hle hspace =>
    have hb := Search.find_bound hclose
    cases h' with
    | never hclose' =>
      rw [hclose] at hclose'
      simp at hclose'
    | close separator' skipped' hclose' hle' hspace' =>
      -- the reasoning is the same, so only what has been skipped can differ, and the lengths say it
      -- does not
      obtain rfl : separator = separator' := by simpa [hclose] using hclose'
      rw [phases_close hclose, phases_close hclose] at heq
      have hcontent := congrArg (fun r => r.content.length) heq
      have h1 := length_answer_drop options numbers finish_reason (r := text.take separator)
        (by rw [List.length_drop]; omega) hspace
      have h2 := length_answer_drop options numbers finish_reason (r := text.take separator)
        (by rw [List.length_drop]; omega) hspace'
      rw [List.drop_drop] at h1 h2
      have hskip : skipped = skipped' := by omega
      rw [hskip]
    | tool start hp hcall hbefore =>
      -- a call before the closing tag leaves a shorter reasoning
      have hlt := hbefore separator hclose
      have hb' := Search.find_bound hcall
      rw [phases_close hclose, phases_tool hcall] at hreason
      have := take_eq_take_iff_of_le (by omega) (by omega) hreason
      omega
  | tool start hp hcall hbefore =>
    have hb := Search.find_bound hcall
    cases h' with
    | never hclose' hcall' =>
      rw [hcall' hp] at hcall
      simp at hcall
    | close separator skipped hclose' =>
      have hlt := hbefore separator hclose'
      have hb' := Search.find_bound hclose'
      rw [phases_close hclose', phases_tool hcall] at hreason
      have := take_eq_take_iff_of_le (by omega) (by omega) hreason
      omega
    | tool => rfl

/-- **Two splittings of a text give the same stream exactly when they end the thinking
phase alike.** -/
theorem streams_equal_iff (numbers : NumberText) (enable_thinking : Bool)
    (tools_json : List Bytes) (deltas deltas' : List Bytes) (finish_reason : FinishReason)
    (htext : deltas.flatten = deltas'.flatten) :
    received (body_stream stays (.chat_request enable_thinking tools_json) numbers deltas
        (.ok finish_reason)).events =
      received (body_stream stays (.chat_request enable_thinking tools_json) numbers deltas'
        (.ok finish_reason)).events ↔
    switch (.chat_request enable_thinking tools_json) deltas =
      switch (.chat_request enable_thinking tools_json) deltas' := by
  rw [received_body_stream rfl, received_body_stream rfl, ← htext]
  constructor
  · intro heq
    cases enable_thinking with
    | false => rfl
    | true =>
      have h : SwitchAt _ _ (switch (.chat_request true tools_json) deltas) :=
        switchAt_switch rfl deltas
      have h' : SwitchAt _ _ (switch (.chat_request true tools_json) deltas') :=
        switchAt_switch rfl deltas'
      rw [← htext] at h'
      exact h.switch_eq h' heq
  · intro hswitch
    rw [hswitch]

/-- A blank after `</think>`, in the same piece or in the next. -/
theorem streams_equal_blank :
    [think_close ++ ascii [' ', 'x']].flatten = [think_close, ascii [' ', 'x']].flatten ∧
      (received (body_stream stays (.chat_request true []) NumberText.integers
          [think_close ++ ascii [' ', 'x']] (.ok .stop)).events =
        received (body_stream stays (.chat_request true []) NumberText.integers
          [think_close, ascii [' ', 'x']] (.ok .stop)).events ↔
      switch (.chat_request true []) [think_close ++ ascii [' ', 'x']] =
        switch (.chat_request true []) [think_close, ascii [' ', 'x']]) :=
  ⟨by decide, streams_equal_iff NumberText.integers true [] _ _ .stop (by decide)⟩

/-- The blank is skipped in the one stream and is content in the other. -/
theorem not_streams_equal :
    ¬∀ (numbers : NumberText) (enable_thinking : Bool) (tools_json : List Bytes)
      (deltas deltas' : List Bytes) (finish_reason : FinishReason),
      deltas.flatten = deltas'.flatten →
        received (body_stream stays (.chat_request enable_thinking tools_json) numbers deltas
            (.ok finish_reason)).events =
          received (body_stream stays (.chat_request enable_thinking tools_json) numbers deltas'
            (.ok finish_reason)).events :=
  fun h => absurd (h NumberText.integers true [] [think_close ++ ascii [' ', 'x']]
    [think_close, ascii [' ', 'x']] .stop (by decide)) (by decide)

end Sse

end Qwen38
