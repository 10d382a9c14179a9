import Qwen38.Text.Stream

/-!
# What a stream amounts to

A stream for a client that stays is determined by the whole text and by one thing about
its splitting: how the thinking phase ended (`Qwen38.Sse.Switch`). Given that, the
response is a function of the text alone, `Qwen38.Sse.answer` of the two parts
`Qwen38.Sse.phases` cuts the text into. The hold-backs, the carries and the flags of the
callbacks leave no other trace: `Qwen38.Sse.received_body_stream`.

The proof relates the state to the text handed over so far: `Thinking` in the first
phase, `Answering` in the second. Each says which part of the text has gone out and which
is held back, and that what is held back is long enough for a marker that is still to be
completed (`Search.find_append_of_none`).
-/

namespace Qwen38

/-- What one event adds to the response. -/
def ChatResponse.receive (response : ChatResponse) : Sse.Event → ChatResponse
  | .delta .reasoning_content fragment =>
    { response with reasoning_content := response.reasoning_content ++ fragment }
  | .delta .content fragment => { response with content := response.content ++ fragment }
  | .tool_calls calls => { response with tool_calls := response.tool_calls ++ calls }
  | .finish finish_reason => { response with finish_reason := some finish_reason }
  | _ => response

namespace Sse

/-- The response the events amount to. -/
def received (events : List Event) : ChatResponse := events.foldl ChatResponse.receive {}

/-! ### The end of the thinking phase -/

/-- How the thinking phase went: it was off, it never ended, a `</think>` ended it with
so many bytes of white space arriving along with it, or a `<tool_call>` ended it. -/
inductive Switch
  | off
  | never
  | close (skipped : Nat)
  | tool
  deriving DecidableEq

/-- Whether the text seen so far ends the phase: a `</think>` goes first. -/
def switch_at (parse_tools : Bool) (seen : Bytes) : Switch :=
  match Search.find think_close seen with
  | some separator =>
    .close ((seen.drop (separator + think_close.length)).takeWhile isspace).length
  | none => if parse_tools && (Search.find call_open seen).isSome then .tool else .never

/-- The first delta that completes a marker decides. -/
def thinking_switch (parse_tools : Bool) (seen : Bytes) : List Bytes → Switch
  | [] => .never
  | raw_delta :: deltas =>
    let seen := seen ++ raw_delta
    if switch_at parse_tools seen = .never then thinking_switch parse_tools seen deltas
    else switch_at parse_tools seen

/-- The switch of a whole stream. -/
def switch (options : Options) (deltas : List Bytes) : Switch :=
  if options.enable_thinking then thinking_switch options.parse_tools [] deltas else .off

/-- The reasoning and the content, before the tool calls are taken out of it. -/
def phases : Switch → Bytes → Bytes × Bytes
  | .off, text => ([], text)
  | .never, text => (text, [])
  | .close skipped, text =>
    match Search.find think_close text with
    | some separator =>
      (text.take separator, text.drop (separator + think_close.length + skipped))
    | none => (text, [])
  | .tool, text =>
    match Search.find call_open text with
    | some separator => (text.take separator, text.drop separator)
    | none => (text, [])

theorem phases_close {text : Bytes} {separator skipped : Nat}
    (h : Search.find think_close text = some separator) :
    phases (.close skipped) text =
      (text.take separator, text.drop (separator + think_close.length + skipped)) := by
  simp only [phases, h]

theorem phases_tool {text : Bytes} {separator : Nat}
    (h : Search.find call_open text = some separator) :
    phases .tool text = (text.take separator, text.drop separator) := by
  simp only [phases, h]

/-- The response for a reasoning and a content. -/
def answer (options : Options) (numbers : NumberText) (parts : Bytes × Bytes)
    (finish_reason : FinishReason) : ChatResponse :=
  match if options.parse_tools then Search.find call_open parts.2 else none with
  | some start =>
    let parsed := parse_qwen_tool_output numbers options.tools_json (parts.2.drop start)
    { reasoning_content := parts.1
      content := parts.2.take start ++ parsed.content
      tool_calls := parsed.calls
      finish_reason := some (if parsed.calls = [] then finish_reason else .tool_calls) }
  | none =>
    { reasoning_content := parts.1, content := parts.2, finish_reason := some finish_reason }

/-! ### Receiving -/

section Receiving

variable {events : List Event} {s : State}

@[simp] theorem received_append (event : Event) :
    received (events ++ [event]) = (received events).receive event := by
  simp [received]

theorem emit_json_stays (event : Event) (h : s.connected = true) :
    emit_json stays event s = { s with events := s.events ++ [event] } := by
  rw [emit_json_of_connected h]
  simp [stays, h]

/-- Sending a text of reasoning or content. -/
theorem emit_text_stays (field : Field) (text : Bytes) (h : s.connected = true) :
    ∃ events, emit_text stays field text s = { s with events } ∧
      (field = .reasoning_content → received events =
        { received s.events with
          reasoning_content := (received s.events).reasoning_content ++ text }) ∧
      (field = .content → received events =
        { received s.events with content := (received s.events).content ++ text }) := by
  rcases eq_or_ne text [] with rfl | hne
  · exact ⟨s.events, rfl, fun _ => by simp, fun _ => by simp⟩
  · refine ⟨s.events ++ [.delta field text], ?_, ?_, ?_⟩
    · rw [emit_text_of_ne_nil hne, emit_json_stays _ h]
    · rintro rfl
      exact received_append _
    · rintro rfl
      exact received_append _

end Receiving

/-! ### The content -/

/-- The state while the content `C` has been handed over after the reasoning `r`. -/
inductive Answering (options : Options) (r C : Bytes) (s : State) : Prop
  | plain (hp : options.parse_tools = false) (hcarry : s.tool_carry = [])
      (hrec : received s.events = { reasoning_content := r, content := C })
  | looking (hp : options.parse_tools = true) (hcap : s.capturing_tool_calls = false) (e : Bytes)
      (hC : C = e ++ s.tool_carry)
      (hrec : received s.events = { reasoning_content := r, content := e })
      (hnone : Search.find call_open C = none)
      (hlong : e = [] ∨ call_open.length ≤ s.tool_carry.length + 1)
  | collecting (hp : options.parse_tools = true) (hcap : s.capturing_tool_calls = true)
      (start : Nat) (hfind : Search.find call_open C = some start)
      (hcarry : s.tool_carry = C.drop start)
      (hrec : received s.events = { reasoning_content := r, content := C.take start })

variable {options : Options} {numbers : NumberText} {r C text : Bytes} {s : State}

/-- Nothing of the content yet. -/
theorem answering_nil (hcarry : s.tool_carry = []) (hcap : s.capturing_tool_calls = false)
    (hrec : received s.events = { reasoning_content := r }) : Answering options r [] s := by
  by_cases hp : options.parse_tools = true
  · exact .looking hp hcap [] (by simp [hcarry]) hrec (by decide) (.inl rfl)
  · exact .plain (by simpa using hp) hcarry hrec

/-- The thinking side of the state does not matter to the content. -/
theorem Answering.of_eq {s' : State} (h : Answering options r C s)
    (hcarry : s'.tool_carry = s.tool_carry)
    (hcap : s'.capturing_tool_calls = s.capturing_tool_calls) (hevents : s'.events = s.events) :
    Answering options r C s' := by
  cases h with
  | plain hp h1 h2 => exact .plain hp (hcarry.trans h1) (hevents ▸ h2)
  | looking hp h1 e hC h2 hnone hlong =>
    exact .looking hp (hcap.trans h1) e (hcarry ▸ hC) (hevents ▸ h2) hnone (hcarry ▸ hlong)
  | collecting hp h1 start hfind h2 h3 =>
    exact .collecting hp (hcap.trans h1) start hfind (hcarry.trans h2) (hevents ▸ h3)

/-- **A piece of content is accounted for**, whatever part of it goes out. -/
theorem Answering.emit_content (h : Answering options r C s) (hc : s.connected = true)
    (text : Bytes) :
    Answering options r (C ++ text) (emit_content stays options text s) ∧
      (Sse.emit_content stays options text s).connected = true := by
  unfold Sse.emit_content
  cases h with
  | plain hp hcarry hrec =>
    obtain ⟨events, he, -, hcontent⟩ := emit_text_stays .content text hc
    rw [if_neg (by simp [hp]), he]
    refine ⟨.plain hp hcarry ?_, hc⟩
    rw [hcontent rfl, hrec]
  | looking hp hcap e hC hrec hnone hlong =>
    have hfind := Search.find_append_of_none (r := text) (hC ▸ hnone)
      (hlong.imp_right fun h => h)
    rw [if_pos hp]
    dsimp only
    rw [if_neg (by simp [hcap])]
    have hCt : C ++ text = e ++ (s.tool_carry ++ text) := by rw [hC, List.append_assoc]
    rcases hf : Search.find call_open (s.tool_carry ++ text) with _ | start
    · have hnone' : Search.find call_open (C ++ text) = none := by rw [hCt, hfind, hf]; rfl
      dsimp only
      split
      · -- The hold-back: what goes out moves to `e`.
        obtain ⟨events, he, -, hcontent⟩ := emit_text_stays .content
          ((s.tool_carry ++ text).take
            ((s.tool_carry ++ text).length - (call_open.length - 1))) hc
        rw [he]
        refine ⟨.looking hp hcap _ ?_ (by rw [hcontent rfl, hrec]) hnone' (.inr ?_), hc⟩
        · rw [hCt, List.append_assoc, List.take_append_drop]
        · rw [List.length_drop]
          omega
      · refine ⟨.looking hp hcap e hCt hrec hnone' (hlong.imp_right fun h => ?_), hc⟩
        rw [List.length_append]
        omega
    · have hfind' : Search.find call_open (C ++ text) = some (e.length + start) := by
        rw [hCt, hfind, hf]
        rfl
      obtain ⟨events, he, -, hcontent⟩ :=
        emit_text_stays .content ((s.tool_carry ++ text).take start) hc
      dsimp only
      rw [he]
      refine ⟨.collecting hp rfl _ hfind' ?_ ?_, hc⟩
      · rw [hCt, List.drop_length_add_append]
      · rw [hcontent rfl, hrec, hCt, List.take_length_add_append]
  | collecting hp hcap start hfind hcarry hrec =>
    have hb := Search.find_bound hfind
    have hanswer : ∀ events captured, received events = received s.events →
        Answering options r (C ++ text) { s with
          events, tool_carry := s.tool_carry ++ text, captured_tool_deltas := captured } := by
      intro events captured hev
      refine .collecting hp hcap start (Search.find_append_of_some hfind text) ?_ ?_
      · rw [List.drop_append_of_le_length (by omega), ← hcarry]
      · rw [List.take_append_of_le_length (by omega), hev, hrec]
    rw [if_pos hp]
    dsimp only
    rw [if_pos hcap]
    split
    · have he := emit_json_stays .tool_call_comment (s := { s with
        tool_carry := s.tool_carry ++ text
        captured_tool_deltas := s.captured_tool_deltas + 1 }) hc
      rw [he]
      exact ⟨hanswer _ _ (received_append _), hc⟩
    · exact ⟨hanswer _ _ rfl, hc⟩

/-! ### The thinking phase -/

/-- The state while the model thinks, after the text `t`. -/
structure Thinking (options : Options) (t : Bytes) (s : State) : Prop where
  connected : s.connected = true
  in_reasoning : s.in_reasoning = true
  capturing : s.capturing_tool_calls = false
  tool_carry : s.tool_carry = []
  no_close : Search.find think_close t = none
  no_call : options.parse_tools = true → Search.find call_open t = none
  split : ∃ e, t = e ++ s.thinking_carry ∧
    received s.events = { reasoning_content := e } ∧
    (e = [] ∨ s.thinking_carry.length = holdback options)

/-- The state after the thinking phase. -/
structure Answered (options : Options) (parts : Bytes × Bytes) (s : State) : Prop where
  connected : s.connected = true
  in_reasoning : s.in_reasoning = false
  thinking_carry : s.thinking_carry = []
  content : Answering options parts.1 parts.2 s

/-- The state after the text `t`, in the phase it is in. -/
inductive Phase (options : Options) (t : Bytes) (s : State) : Switch → Prop
  | thinking (h : Thinking options t s) : Phase options t s .never
  | answered {switch : Switch} (hne : switch ≠ .never)
      (h : Answered options (phases switch t) s) : Phase options t s switch

theorem Answered.on_delta {parts : Bytes × Bytes} (hchat : options.chat = true)
    (h : Answered options parts s) (raw_delta : Bytes) :
    Answered options (parts.1, parts.2 ++ raw_delta) (on_delta stays options raw_delta s) := by
  rw [Sse.on_delta, if_pos h.connected, if_pos hchat, if_neg (by simp [h.in_reasoning])]
  obtain ⟨hcontent, hconnected⟩ := h.content.emit_content h.connected raw_delta
  refine ⟨hconnected, ?_, ?_, hcontent⟩
  · rw [emit_content_in_reasoning, h.in_reasoning]
  · rw [emit_content_thinking_carry, h.thinking_carry]

theorem Answered.on_deltas {parts : Bytes × Bytes} (hchat : options.chat = true)
    (h : Answered options parts s) (deltas : List Bytes) :
    Answered options (parts.1, parts.2 ++ deltas.flatten) (on_deltas stays options deltas s) := by
  induction deltas generalizing s parts with
  | nil => simpa [Sse.on_deltas] using h
  | cons raw_delta deltas ih =>
    rw [List.flatten_cons, ← List.append_assoc]
    exact ih (h.on_delta hchat raw_delta)

theorem think_close_le_holdback : think_close.length ≤ holdback options + 1 := by
  unfold holdback
  split <;> decide

theorem call_open_le_holdback (hp : options.parse_tools = true) :
    call_open.length ≤ holdback options + 1 := by
  unfold holdback
  rw [if_pos hp]
  decide

/-- White space is skipped by dropping it. -/
theorem skip_space_eq_drop (input : Bytes) :
    skip_space input = input.drop (input.takeWhile isspace).length := by
  have h : (input.takeWhile isspace ++ input.dropWhile isspace).drop _ = _ := List.drop_left
  rw [List.takeWhile_append_dropWhile] at h
  exact h.symm

/-- **One delta of the thinking phase.** The markers are found where they are in the
whole text. -/
theorem Thinking.on_delta {t : Bytes} (hchat : options.chat = true) (h : Thinking options t s)
    (raw_delta : Bytes) :
    Phase options (t ++ raw_delta) (on_delta stays options raw_delta s)
      (switch_at options.parse_tools (t ++ raw_delta)) := by
  obtain ⟨e, ht, hrec, hlong⟩ := h.split
  have htd : t ++ raw_delta = e ++ (s.thinking_carry ++ raw_delta) := by
    rw [ht, List.append_assoc]
  have hclose := Search.find_append_of_none (ht ▸ h.no_close)
    (hlong.imp_right fun hl => hl ▸ think_close_le_holdback) raw_delta
  rw [← htd] at hclose
  have hcall : options.parse_tools = true → Search.find call_open (t ++ raw_delta) =
      (Search.find call_open (s.thinking_carry ++ raw_delta)).map (e.length + ·) := fun hp => by
    have hfind := Search.find_append_of_none (ht ▸ h.no_call hp)
      (hlong.imp_right fun hl => hl ▸ call_open_le_holdback hp) raw_delta
    rw [← htd] at hfind
    exact hfind
  rw [Sse.on_delta, if_pos h.connected, if_pos hchat, if_pos h.in_reasoning, on_thinking_delta,
    switch_at]
  dsimp only
  rcases hf : Search.find think_close (s.thinking_carry ++ raw_delta) with _ | separator
  · rw [hf] at hclose
    rw [hclose]
    dsimp only [Option.map_none]
    rcases hm : (if options.parse_tools then Search.find call_open (s.thinking_carry ++ raw_delta)
      else none) with _ | start
    · -- No marker yet: the phase goes on.
      have hno : options.parse_tools = true → Search.find call_open (t ++ raw_delta) = none := by
        intro hp
        rw [if_pos hp] at hm
        rw [hcall hp, hm]
        rfl
      have hswitch : (if (options.parse_tools &&
          (Search.find call_open (t ++ raw_delta)).isSome) = true then Switch.tool
          else .never) = .never := by
        refine if_neg fun hand => ?_
        obtain ⟨hp, hsome⟩ := Bool.and_eq_true_iff.mp hand
        rw [hno hp] at hsome
        exact absurd hsome (by decide)
      rw [hswitch]
      dsimp only
      split
      · next hle =>
        refine .thinking ⟨h.connected, h.in_reasoning, h.capturing, h.tool_carry, hclose, hno,
          e, htd, hrec, hlong.imp_right fun hl => ?_⟩
        rw [List.length_append] at hle ⊢
        omega
      · next hgt =>
        obtain ⟨events, he, hreasoning, -⟩ := emit_text_stays .reasoning_content
          ((s.thinking_carry ++ raw_delta).take
            ((s.thinking_carry ++ raw_delta).length - holdback options)) h.connected
        rw [he]
        refine .thinking ⟨h.connected, h.in_reasoning, h.capturing, h.tool_carry, hclose, hno,
          _, ?_, by rw [hreasoning rfl, hrec], .inr ?_⟩
        · rw [htd, List.append_assoc, List.take_append_drop]
        · rw [List.length_drop]
          omega
    · -- A call ends the phase.
      have hp : options.parse_tools = true := by
        by_contra hp
        rw [if_neg hp] at hm
        simp at hm
      rw [if_pos hp] at hm
      have hfind : Search.find call_open (t ++ raw_delta) = some (e.length + start) := by
        rw [hcall hp, hm]
        rfl
      have hswitch : (if (options.parse_tools &&
          (Search.find call_open (t ++ raw_delta)).isSome) = true then Switch.tool
          else .never) = .tool := by
        rw [hp, hfind]
        rfl
      rw [hswitch]
      dsimp only
      obtain ⟨events, he, hreasoning, -⟩ := emit_text_stays .reasoning_content
        ((s.thinking_carry ++ raw_delta).take start) h.connected
      rw [he]
      have hnil : Answering options ((t ++ raw_delta).take (e.length + start)) []
          { s with events, thinking_carry := [], in_reasoning := false } := by
        refine answering_nil h.tool_carry h.capturing ?_
        rw [hreasoning rfl, hrec, htd, List.take_length_add_append]
      obtain ⟨hcontent, hconnected⟩ := hnil.emit_content h.connected
        ((s.thinking_carry ++ raw_delta).drop start)
      refine .answered (by simp)
        ⟨hconnected, emit_content_in_reasoning .., emit_content_thinking_carry .., ?_⟩
      rw [phases_tool hfind, htd, List.drop_length_add_append, ← htd]
      exact hcontent
  · -- A `</think>` ends the phase.
    rw [hf, Option.map_some] at hclose
    rw [hclose]
    dsimp only
    obtain ⟨events, he, hreasoning, -⟩ := emit_text_stays .reasoning_content
      ((s.thinking_carry ++ raw_delta).take separator) h.connected
    rw [he]
    have hnil : Answering options ((t ++ raw_delta).take (e.length + separator)) []
        { s with events } := by
      refine answering_nil h.tool_carry h.capturing ?_
      rw [hreasoning rfl, hrec, htd, List.take_length_add_append]
    obtain ⟨hcontent, hconnected⟩ := hnil.emit_content h.connected
      (skip_space ((s.thinking_carry ++ raw_delta).drop (separator + think_close.length)))
    have hdrop : (s.thinking_carry ++ raw_delta).drop (separator + think_close.length) =
        (t ++ raw_delta).drop (e.length + separator + think_close.length) := by
      rw [htd, Nat.add_assoc, List.drop_length_add_append]
    refine .answered (by simp) ⟨hconnected, rfl, rfl, ?_⟩
    rw [phases_close hclose, ← List.drop_drop, ← skip_space_eq_drop, ← hdrop]
    exact hcontent.of_eq rfl rfl rfl

/-! ### Runs -/

/-- What a switch says of the text it happened in. -/
inductive SwitchAt (parse_tools : Bool) (text : Bytes) : Switch → Prop
  | never (hclose : Search.find think_close text = none)
      (hcall : parse_tools = true → Search.find call_open text = none) :
      SwitchAt parse_tools text .never
  | close (separator skipped : Nat) (hclose : Search.find think_close text = some separator)
      (hle : separator + think_close.length + skipped ≤ text.length)
      (hspace : ∀ c ∈ (text.drop (separator + think_close.length)).take skipped,
        isspace c = true) :
      SwitchAt parse_tools text (.close skipped)
  | tool (start : Nat) (hp : parse_tools = true)
      (hcall : Search.find call_open text = some start)
      (hbefore : ∀ separator, Search.find think_close text = some separator →
        start + call_open.length < separator + think_close.length) :
      SwitchAt parse_tools text .tool

theorem switchAt_switch_at (parse_tools : Bool) (seen : Bytes) :
    SwitchAt parse_tools seen (switch_at parse_tools seen) := by
  unfold switch_at
  rcases hclose : Search.find think_close seen with _ | separator
  · dsimp only
    split
    · next h =>
      obtain ⟨hp, hsome⟩ := Bool.and_eq_true_iff.mp h
      obtain ⟨start, hcall⟩ := Option.isSome_iff_exists.mp hsome
      refine .tool start hp hcall fun separator hsep => ?_
      rw [hclose] at hsep
      simp at hsep
    · next h =>
      refine .never hclose fun hp => ?_
      by_contra hne
      exact h (Bool.and_eq_true_iff.mpr ⟨hp, Option.isSome_iff_ne_none.mpr hne⟩)
  · have hb := Search.find_bound hclose
    have hlen : ((seen.drop (separator + think_close.length)).takeWhile isspace).length ≤
        (seen.drop (separator + think_close.length)).length :=
      (List.takeWhile_sublist _).length_le
    rw [List.length_drop] at hlen
    refine .close separator _ hclose (by omega) fun c hc => ?_
    have htake := List.prefix_iff_eq_take.mp
      (List.takeWhile_prefix isspace (l := seen.drop (separator + think_close.length)))
    rw [← htake] at hc
    exact List.mem_takeWhile_imp hc

/-- A switch stays what it is when more text arrives, and the text is content. -/
theorem SwitchAt.append {parse_tools : Bool} {t : Bytes} {switch : Switch}
    (h : SwitchAt parse_tools t switch) (hne : switch ≠ .never) (rest : Bytes) :
    SwitchAt parse_tools (t ++ rest) switch ∧
      phases switch (t ++ rest) = ((phases switch t).1, (phases switch t).2 ++ rest) := by
  cases h with
  | never => exact absurd rfl hne
  | close separator skipped hclose hle hspace =>
    have hclose' := Search.find_append_of_some hclose rest
    have hb := Search.find_bound hclose
    refine ⟨.close separator skipped hclose' ?_ ?_, ?_⟩
    · rw [List.length_append]
      omega
    · rw [List.drop_append_of_le_length (by omega),
        List.take_append_of_le_length (by rw [List.length_drop]; omega)]
      exact hspace
    · rw [phases_close hclose', phases_close hclose, List.take_append_of_le_length (by omega),
        List.drop_append_of_le_length hle]
  | tool start hp hcall hbefore =>
    have hcall' := Search.find_append_of_some hcall rest
    have hb := Search.find_bound hcall
    refine ⟨.tool start hp hcall' fun separator hsep => ?_, ?_⟩
    · rcases hclose : Search.find think_close t with _ | separator'
      · have := Search.length_lt_of_find_append hclose hsep
        omega
      · have := hbefore separator' hclose
        rw [Search.find_append_of_some hclose rest] at hsep
        obtain rfl := Option.some.inj hsep
        exact this
    · rw [phases_tool hcall', phases_tool hcall, List.take_append_of_le_length (by omega),
        List.drop_append_of_le_length (by omega)]

theorem switchAt_thinking_switch (parse_tools : Bool) {seen : Bytes} (deltas : List Bytes)
    (h : SwitchAt parse_tools seen .never) :
    SwitchAt parse_tools (seen ++ deltas.flatten) (thinking_switch parse_tools seen deltas) := by
  induction deltas generalizing seen with
  | nil => simpa [thinking_switch] using h
  | cons raw_delta deltas ih =>
    have hat := switchAt_switch_at parse_tools (seen ++ raw_delta)
    rw [List.flatten_cons, ← List.append_assoc, thinking_switch]
    split
    · next hnever => exact ih (hnever ▸ hat)
    · next hne => exact (hat.append hne _).1

/-- **The run of the thinking phase and what follows it.** -/
theorem Thinking.on_deltas {t : Bytes} (hchat : options.chat = true) (h : Thinking options t s)
    (deltas : List Bytes) :
    Phase options (t ++ deltas.flatten) (on_deltas stays options deltas s)
      (thinking_switch options.parse_tools t deltas) := by
  induction deltas generalizing t s with
  | nil => simpa [thinking_switch, Sse.on_deltas] using Phase.thinking h
  | cons raw_delta deltas ih =>
    have hstep := h.on_delta hchat raw_delta
    have hat := switchAt_switch_at options.parse_tools (t ++ raw_delta)
    rw [List.flatten_cons, ← List.append_assoc, thinking_switch]
    generalize switch_at options.parse_tools (t ++ raw_delta) = switch at hstep hat ⊢
    cases hstep with
    | thinking hthinking => exact ih hthinking
    | answered hne hanswered =>
      rw [if_neg hne]
      refine .answered hne ?_
      rw [(hat.append hne deltas.flatten).2]
      exact hanswered.on_deltas hchat deltas

/-! ### The end of the stream -/

theorem answer_of_none {parts : Bytes × Bytes} {finish_reason : FinishReason}
    (h : options.parse_tools = true → Search.find call_open parts.2 = none) :
    answer options numbers parts finish_reason =
      { reasoning_content := parts.1, content := parts.2, finish_reason := some finish_reason } := by
  have hnone : (if options.parse_tools then Search.find call_open parts.2 else none) = none := by
    split
    · next hp => exact h hp
    · rfl
  rw [answer, hnone]

theorem answer_of_some {parts : Bytes × Bytes} {finish_reason : FinishReason} {start : Nat}
    (hp : options.parse_tools = true) (h : Search.find call_open parts.2 = some start) :
    answer options numbers parts finish_reason =
      { reasoning_content := parts.1
        content := parts.2.take start ++
          (parse_qwen_tool_output numbers options.tools_json (parts.2.drop start)).content
        tool_calls := (parse_qwen_tool_output numbers options.tools_json (parts.2.drop start)).calls
        finish_reason := some (if (parse_qwen_tool_output numbers options.tools_json
          (parts.2.drop start)).calls = [] then finish_reason else .tool_calls) } := by
  rw [answer, if_pos hp, h]

/-- The last events of a stream for a client that is there. -/
theorem received_finish {finish_reason : FinishReason} {s' : State × FinishReason}
    (hflush : flush_tools stays options numbers finish_reason (flush_thinking stays options s) = s')
    (hc : s'.1.connected = true) :
    received (finish stays options numbers (.ok finish_reason) s).events =
      { received s'.1.events with finish_reason := some s'.2 } := by
  rw [finish]
  dsimp only
  rw [hflush, emit_json_stays _ hc]
  have hdone := emit_json_stays .done
    (s := { s'.1 with events := s'.1.events ++ [.finish s'.2] }) hc
  rw [hdone, received_append, received_append]
  rfl

theorem Thinking.received_finish {t : Bytes} (h : Thinking options t s)
    (finish_reason : FinishReason) :
    received (finish stays options numbers (.ok finish_reason) s).events =
      answer options numbers (t, []) finish_reason := by
  obtain ⟨e, ht, hrec, -⟩ := h.split
  have hnocarry : ∀ s' : State, s'.tool_carry = [] →
      flush_tools stays options numbers finish_reason s' = (s', finish_reason) := fun s' hs' =>
    if_neg fun hcond => hcond.2 hs'
  rw [answer_of_none fun _ => rfl]
  by_cases hcarry : s.thinking_carry = []
  · have hflush : flush_thinking stays options s = s := if_pos hcarry
    rw [Sse.received_finish (by rw [hflush, hnocarry s h.tool_carry]) h.connected, hrec, ht, hcarry,
      List.append_nil]
  · obtain ⟨events, he, hreasoning, -⟩ :=
      emit_text_stays .reasoning_content s.thinking_carry h.connected
    have hflush : flush_thinking stays options s = { s with events } := by
      rw [flush_thinking, if_neg hcarry, if_pos h.in_reasoning, he]
    have htools := hnocarry { s with events } h.tool_carry
    rw [Sse.received_finish (by rw [hflush, htools]) h.connected]
    dsimp only
    rw [hreasoning rfl, hrec, ht]

theorem Answered.received_finish {parts : Bytes × Bytes} (h : Answered options parts s)
    (finish_reason : FinishReason) :
    received (finish stays options numbers (.ok finish_reason) s).events =
      answer options numbers parts finish_reason := by
  have hflush : flush_thinking stays options s = s := if_pos h.thinking_carry
  cases h.content with
  | plain hp hcarry hrec =>
    have htools : flush_tools stays options numbers finish_reason s = (s, finish_reason) :=
      if_neg fun hcond => hcond.2 hcarry
    rw [Sse.received_finish (by rw [hflush, htools]) h.connected, hrec,
      answer_of_none fun htrue => absurd (hp.symm.trans htrue) (by decide)]
  | looking hp hcap e hC hrec hnone hlong =>
    rw [answer_of_none fun _ => hnone]
    -- a carry that did not become a marker goes out as text
    by_cases hcarry : s.tool_carry = []
    · have htools : flush_tools stays options numbers finish_reason s = (s, finish_reason) :=
        if_neg fun hcond => hcond.2 hcarry
      rw [Sse.received_finish (by rw [hflush, htools]) h.connected, hrec, hC, hcarry,
        List.append_nil]
    · obtain ⟨events, he, -, hcontent⟩ := emit_text_stays .content s.tool_carry h.connected
      have htools : flush_tools stays options numbers finish_reason s =
          ({ s with events }, finish_reason) := by
        rw [flush_tools, if_pos ⟨hp, hcarry⟩, if_neg (by simp [hcap]), he]
      rw [Sse.received_finish (by rw [hflush, htools]) h.connected]
      dsimp only
      rw [hcontent rfl, hrec, hC]
  | collecting hp hcap start hfind hcarry hrec =>
    -- the carry begins with the marker
    have hne : s.tool_carry ≠ [] := by
      have hb := Search.find_bound hfind
      have hpos : 0 < call_open.length := by decide
      rw [hcarry, Ne, List.drop_eq_nil_iff]
      omega
    obtain ⟨events, he, -, hcontent⟩ := emit_text_stays .content
      (parse_qwen_tool_output numbers options.tools_json s.tool_carry).content h.connected
    rw [answer_of_some hp hfind, ← hcarry]
    -- a call that cannot be read is text
    by_cases hcalls : (parse_qwen_tool_output numbers options.tools_json s.tool_carry).calls = []
    · have htools : flush_tools stays options numbers finish_reason s =
          ({ s with events }, finish_reason) := by
        rw [flush_tools, if_pos ⟨hp, hne⟩, if_pos hcap]
        dsimp only
        rw [if_pos hcalls, he]
      rw [Sse.received_finish (by rw [hflush, htools]) h.connected, if_pos hcalls]
      dsimp only
      rw [hcontent rfl, hrec, hcalls]
    · have hsend := emit_json_stays (.tool_calls
        (parse_qwen_tool_output numbers options.tools_json s.tool_carry).calls)
        (s := { s with events }) h.connected
      have htools : flush_tools stays options numbers finish_reason s =
          ({ s with events := events ++ [.tool_calls
            (parse_qwen_tool_output numbers options.tools_json s.tool_carry).calls] },
            .tool_calls) := by
        rw [flush_tools, if_pos ⟨hp, hne⟩, if_pos hcap]
        dsimp only
        rw [if_neg hcalls, he, hsend]
      rw [Sse.received_finish (by rw [hflush, htools]) h.connected, if_neg hcalls]
      dsimp only
      rw [received_append, hcontent rfl, hrec]
      rfl

/-- The stream starts in the phase the request asks for. -/
theorem start_stays (hchat : options.chat = true) :
    (start stays options).connected = true ∧
      if options.enable_thinking then Thinking options [] (start stays options)
      else Answered options ([], []) (start stays options) := by
  have he : start stays options = { initial options with events := [.delta .role assistant] } := by
    rw [start, if_pos hchat, emit_json_stays _ rfl]
    rfl
  have hrole : received [.delta .role assistant] = {} := rfl
  rw [he]
  refine ⟨rfl, ?_⟩
  split
  · next hthink =>
    refine ⟨rfl, ?_, rfl, rfl, by decide, fun _ => by decide, [], rfl, hrole, .inl rfl⟩
    simp [initial, hchat, hthink]
  · next hthink =>
    exact ⟨rfl, by simp [initial, hthink], rfl, answering_nil rfl rfl hrole⟩

/-- **What a stream amounts to.** For every text and every splitting, a client that stays
receives the answer for the phases of the text. -/
theorem received_body_stream (hchat : options.chat = true) (deltas : List Bytes)
    (finish_reason : FinishReason) :
    received (body_stream stays options numbers deltas (.ok finish_reason)).events =
      answer options numbers (phases (switch options deltas) deltas.flatten) finish_reason := by
  obtain ⟨hconnected, hphase⟩ := start_stays hchat
  rw [body_stream, if_pos hconnected]
  by_cases hthink : options.enable_thinking = true
  · rw [if_pos hthink] at hphase
    have hrun := hphase.on_deltas hchat deltas
    rw [List.nil_append] at hrun
    rw [switch, if_pos hthink]
    generalize thinking_switch options.parse_tools [] deltas = switch at hrun ⊢
    cases hrun with
    | thinking h => exact h.received_finish finish_reason
    | answered hne h => exact h.received_finish finish_reason
  · rw [if_neg hthink] at hphase
    rw [switch, if_neg hthink]
    exact (hphase.on_deltas hchat deltas).received_finish finish_reason

/-- What the switch of a stream says of its text. -/
theorem switchAt_switch (hthink : options.enable_thinking = true) (deltas : List Bytes) :
    SwitchAt options.parse_tools deltas.flatten (switch options deltas) := by
  rw [switch, if_pos hthink]
  have hnil : SwitchAt options.parse_tools [] .never := .never (by decide) fun _ => by decide
  exact switchAt_thinking_switch options.parse_tools deltas hnil

end Sse

end Qwen38
