import Qwen38.Text.Stream

/-!
# Are the fragments of a stream valid UTF-8?

The engine hands over valid pieces: its own hold-back (`complete_utf8_prefix`) never cuts
a character. The hold-back of the API counts bytes. A fragment is valid exactly when the
place where the hold-back cuts the buffer is the start of a character, or its end;
`Qwen38.Sse.hold_back_cuts` lists these places over a run, and
`Qwen38.Sse.stream_fragments_valid_iff` says that nothing else can go wrong: the cuts at
the markers and the trims fall on ASCII.
-/

namespace Qwen38

namespace Sse

/-! ### Where the hold-back cuts -/

section Cuts

variable (sink : Sink) (options : Options)

/-- The cut `emit_content` makes: the buffer and the position. -/
def content_cut (text : Bytes) (s : State) : Option (Bytes × Nat) :=
  let tool_carry := s.tool_carry ++ text
  if s.connected ∧ options.parse_tools ∧ ¬s.capturing_tool_calls ∧
      Search.find call_open tool_carry = none ∧ call_open.length ≤ tool_carry.length then
    some (tool_carry, tool_carry.length - (call_open.length - 1))
  else none

/-- The cut `on_delta` makes in the thinking phase: none at a `<tool_call>`, and the one
of the content at a `</think>`. -/
def thinking_cut (raw_delta : Bytes) (s : State) : Option (Bytes × Nat) :=
  let thinking_carry := s.thinking_carry ++ raw_delta
  match Search.find think_close thinking_carry with
  | some separator =>
    content_cut options (skip_space (thinking_carry.drop (separator + think_close.length)))
      (emit_text sink .reasoning_content (thinking_carry.take separator) s)
  | none =>
    if options.parse_tools ∧ (Search.find call_open thinking_carry).isSome ∨
        thinking_carry.length ≤ holdback options then none
    else some (thinking_carry, thinking_carry.length - holdback options)

/-- The cut of one delta. -/
def hold_back_cut (raw_delta : Bytes) (s : State) : Option (Bytes × Nat) :=
  if s.connected ∧ options.chat then
    if s.in_reasoning then thinking_cut sink options raw_delta s
    else content_cut options raw_delta s
  else none

/-- The cuts of a run. -/
def hold_back_cuts : List Bytes → State → List (Bytes × Nat)
  | [], _ => []
  | raw_delta :: deltas, s =>
    (hold_back_cut sink options raw_delta s).toList ++
      hold_back_cuts deltas (on_delta sink options raw_delta s)

end Cuts

/-- A legal cut: between two characters, or at an end. -/
def CutOk (cut : Bytes × Nat) : Prop := Utf8.Boundary cut.1 cut.2

instance (cut : Bytes × Nat) : Decidable (CutOk cut) :=
  inferInstanceAs (Decidable (Utf8.Boundary _ _))

/-! ### What a client must not see -/

/-- The text of a fragment of reasoning or content. -/
def Event.fragment? : Event → Option Bytes
  | .delta .reasoning_content fragment => some fragment
  | .delta .content fragment => some fragment
  | _ => none

/-- The fragments of reasoning and content among the events. -/
def fragments (events : List Event) : List Bytes := events.filterMap Event.fragment?

/-- All of them are valid. -/
def FragmentsValid (events : List Event) : Prop :=
  ∀ fragment ∈ fragments events, Utf8.Valid fragment

instance (events : List Event) : Decidable (FragmentsValid events) :=
  inferInstanceAs (Decidable (∀ fragment ∈ _, _))

variable {sink : Sink} {options : Options} {numbers : NumberText} {s : State}
variable {events events' : List Event} {text : Bytes}

theorem FragmentsValid.of_prefix (h : FragmentsValid events') (he : events <+: events') :
    FragmentsValid events :=
  fun fragment hf => h fragment ((he.filterMap _).subset hf)

theorem FragmentsValid.append {event : Event} (h : FragmentsValid events)
    (he : ∀ fragment ∈ event.fragment?, Utf8.Valid fragment) :
    FragmentsValid (events ++ [event]) := by
  intro fragment hf
  rw [fragments, List.filterMap_append, List.mem_append] at hf
  rcases hf with hf | hf
  · exact h fragment hf
  · obtain ⟨e, hmem, hfrag⟩ := List.mem_filterMap.mp hf
    obtain rfl := List.mem_singleton.mp hmem
    exact he fragment hfrag

/-- **The invariant of a run without a bad cut**: what went out is valid, and while there
is a client, so is what is held back. -/
structure Clean (s : State) : Prop where
  events : FragmentsValid s.events
  thinking_carry : s.connected → Utf8.Valid s.thinking_carry
  tool_carry : s.connected → Utf8.Valid s.tool_carry

/-! ### Sending -/

/-- The client is gone after an event only if it was not there before or left at it. -/
theorem connected_of_emit_text {field : Field} (h : (emit_text sink field text s).connected) :
    s.connected := by
  by_contra hc
  rw [emit_text_of_not_connected (by simpa using hc)] at h
  exact hc h

theorem connected_of_emit_json {event : Event} (h : (emit_json sink event s).connected) :
    s.connected := by
  by_contra hc
  rw [emit_json_of_not_connected (by simpa using hc)] at h
  exact hc h

theorem emit_json_fragments {event : Event} (h : FragmentsValid s.events)
    (he : s.connected → ∀ fragment ∈ event.fragment?, Utf8.Valid fragment) :
    FragmentsValid (emit_json sink event s).events := by
  unfold emit_json
  split
  · next hc => exact h.append (he hc)
  · exact h

theorem fragment?_delta {field : Field} (ht : Utf8.Valid text) :
    ∀ fragment ∈ (Event.delta field text).fragment?, Utf8.Valid fragment := by
  intro fragment hf
  cases field <;> simp_all [Event.fragment?]

theorem emit_text_fragments {field : Field} (h : FragmentsValid s.events)
    (ht : s.connected → Utf8.Valid text) : FragmentsValid (emit_text sink field text s).events := by
  rcases eq_or_ne text [] with rfl | hne
  · exact h
  · rw [emit_text_of_ne_nil hne]
    exact emit_json_fragments h fun hc => fragment?_delta (ht hc)

/-- A connected client sees a text that is sent. -/
theorem mem_emit_text_fragments {field : Field} (hc : s.connected = true) (hne : text ≠ [])
    (hfield : (Event.delta field text).fragment? = some text) :
    text ∈ fragments (emit_text sink field text s).events := by
  rw [emit_text_of_ne_nil hne, emit_json_of_connected hc]
  exact List.mem_filterMap.mpr ⟨_, List.mem_append_right _ (List.mem_singleton_self _), hfield⟩

/-! ### Content -/

/-- **A marker is a place to cut.** -/
theorem valid_split_of_find {pat l : Bytes} {i : Nat} (hpat : pat.all (fun b => b < 0x80) = true)
    (hne : pat ≠ []) (h : Utf8.Valid l) (hf : Search.find pat l = some i) :
    Utf8.Valid (l.take i) ∧ Utf8.Valid (l.drop i) ∧ Utf8.Valid (l.drop (i + pat.length)) := by
  have hl := Search.eq_of_find hf
  have hascii : ∀ b ∈ pat, b < 0x80 := fun b hb => by simpa using List.all_eq_true.mp hpat b hb
  obtain ⟨h1, h2⟩ := Utf8.Valid.append_ascii_iff hascii hne (hl ▸ h)
  refine ⟨h1, ?_, h2⟩
  rw [← List.take_append_drop i l, h1.append_iff] at h
  exact h

/-- A state after sending a valid text, with valid texts held back. -/
theorem Clean.of_emit_text {field : Field} {s' : State} (h : Clean s)
    (ht : s.connected → Utf8.Valid text)
    (hc : s'.connected = (emit_text sink field text s).connected)
    (he : s'.events = (emit_text sink field text s).events)
    (h1 : s.connected → Utf8.Valid s'.thinking_carry)
    (h2 : s.connected → Utf8.Valid s'.tool_carry) : Clean s' :=
  ⟨he ▸ emit_text_fragments h.events ht, fun hs => h1 (connected_of_emit_text (hc ▸ hs)),
    fun hs => h2 (connected_of_emit_text (hc ▸ hs))⟩

theorem Clean.emit_json {event : Event} (h : Clean s)
    (he : ∀ fragment ∈ event.fragment?, Utf8.Valid fragment) : Clean (emit_json sink event s) := by
  refine ⟨emit_json_fragments h.events fun _ => he, fun hc => ?_, fun hc => ?_⟩
  · rw [emit_json_thinking_carry]
    exact h.thinking_carry (connected_of_emit_json hc)
  · rw [emit_json_tool_carry]
    exact h.tool_carry (connected_of_emit_json hc)

theorem Clean.emit_text {field : Field} (h : Clean s) (ht : s.connected → Utf8.Valid text) :
    Clean (emit_text sink field text s) := by
  refine h.of_emit_text ht rfl rfl (fun hc => ?_) fun hc => ?_
  · rw [emit_text_thinking_carry]
    exact h.thinking_carry hc
  · rw [emit_text_tool_carry]
    exact h.tool_carry hc

theorem Clean.emit_content (h : Clean s) (ht : s.connected → Utf8.Valid text)
    (hcut : ∀ cut ∈ content_cut options text s, CutOk cut) :
    Clean (emit_content sink options text s) := by
  have hbuf : s.connected → Utf8.Valid (s.tool_carry ++ text) :=
    fun hc => (h.tool_carry hc).append (ht hc)
  have hthink : s.connected →
      ∀ t, Utf8.Valid (Sse.emit_text sink .content t s).thinking_carry := fun hc t => by
    rw [emit_text_thinking_carry]
    exact h.thinking_carry hc
  unfold Sse.emit_content
  by_cases hp : options.parse_tools = true
  · rw [if_pos hp]
    dsimp only
    by_cases hcap : s.capturing_tool_calls = true
    · -- Collecting: nothing but a comment may go out.
      rw [if_pos hcap]
      have hclean : Clean { s with
          tool_carry := s.tool_carry ++ text
          captured_tool_deltas := s.captured_tool_deltas + 1 } :=
        ⟨h.events, h.thinking_carry, hbuf⟩
      split
      · exact hclean.emit_json (by simp [Event.fragment?])
      · exact hclean
    · rw [if_neg hcap]
      rcases hf : Search.find call_open (s.tool_carry ++ text) with _ | start
      · dsimp only
        split
        · next hle =>
          -- The hold-back cuts here.
          have hok : s.connected → Utf8.Boundary (s.tool_carry ++ text)
              ((s.tool_carry ++ text).length - (call_open.length - 1)) := fun hc =>
            hcut (_, _) (Option.mem_def.mpr (if_pos ⟨hc, hp, hcap, hf, hle⟩))
          exact h.of_emit_text (fun hc => (hbuf hc).take_of_boundary (hok hc)) rfl rfl
            (fun hc => hthink hc _) fun hc => (hbuf hc).drop_of_boundary (hok hc)
        · exact ⟨h.events, h.thinking_carry, hbuf⟩
      · have hsplit : s.connected → _ := fun hc =>
          valid_split_of_find (by decide) (by decide) (hbuf hc) hf
        exact h.of_emit_text (fun hc => (hsplit hc).1) rfl rfl (fun hc => hthink hc _)
          fun hc => (hsplit hc).2.1
  · rw [if_neg hp]
    exact h.emit_text ht

/-- A bad cut of the content goes out. -/
theorem not_fragmentsValid_emit_content {cut : Bytes × Nat}
    (ht : Utf8.Valid s.tool_carry) (ht' : Utf8.Valid text)
    (hcut : content_cut options text s = some cut) (hbad : ¬CutOk cut) :
    ¬FragmentsValid (emit_content sink options text s).events := by
  unfold content_cut at hcut
  dsimp only at hcut
  split at hcut
  · next hcond =>
    obtain ⟨hc, hp, hcap, hf, hle⟩ := hcond
    obtain rfl := Option.some.inj hcut
    intro hvalid
    unfold Sse.emit_content at hvalid
    rw [if_pos hp, if_neg hcap, hf] at hvalid
    dsimp only at hvalid
    rw [if_pos hle] at hvalid
    have hne : (s.tool_carry ++ text).take
        ((s.tool_carry ++ text).length - (call_open.length - 1)) ≠ [] := by
      have hpos : 0 < call_open.length := by decide
      rw [Ne, List.take_eq_nil_iff]
      rintro (h | h)
      · omega
      · rw [h] at hle
        exact absurd hle (by decide)
    have hfrag := hvalid _ (mem_emit_text_fragments hc hne rfl)
    exact hbad ((Utf8.valid_take_iff (ht.append ht')).mp hfrag)
  · simp at hcut

/-! ### Thinking -/

/-- The calls that end the thinking phase start with the marker, so they are collected at
once. -/
theorem content_cut_of_marker {start : Nat} (hf : Search.find call_open text = some start) :
    content_cut options (text.drop start) s = none := by
  refine if_neg fun h => ?_
  refine Search.find_eq_none_iff.mp h.2.2.2.1 s.tool_carry.length (by simp) ?_
  rw [List.drop_left]
  exact Search.prefix_of_find hf

theorem Clean.on_thinking_delta {raw_delta : Bytes} (h : Clean s) (ht : Utf8.Valid raw_delta)
    (hcut : ∀ cut ∈ thinking_cut sink options raw_delta s, CutOk cut) (hc : s.connected = true) :
    Clean (on_thinking_delta sink options raw_delta s) := by
  have hbuf : Utf8.Valid (s.thinking_carry ++ raw_delta) := (h.thinking_carry hc).append ht
  unfold Sse.on_thinking_delta
  unfold thinking_cut at hcut
  dsimp only at hcut ⊢
  rcases hf : Search.find think_close (s.thinking_carry ++ raw_delta) with _ | separator
  · rw [hf] at hcut
    dsimp only at hcut ⊢
    rcases hm : (if options.parse_tools then Search.find call_open (s.thinking_carry ++ raw_delta)
      else none) with _ | tool_separator
    · dsimp only
      split
      · exact ⟨h.events, fun _ => hbuf, h.tool_carry⟩
      · next hle =>
        -- no marker: what is held back is cut where the condition allows it
        have hnone : ¬(options.parse_tools = true ∧
            (Search.find call_open (s.thinking_carry ++ raw_delta)).isSome = true) := by
          rintro ⟨hp, hsome⟩
          rw [if_pos hp] at hm
          rw [hm] at hsome
          exact absurd hsome (by decide)
        rw [if_neg (by tauto)] at hcut
        have hok := hcut _ rfl
        exact h.of_emit_text (fun _ => hbuf.take_of_boundary hok) rfl rfl
          (fun _ => hbuf.drop_of_boundary hok) fun hs => by
            rw [emit_text_tool_carry]
            exact h.tool_carry hs
    · dsimp only
      have hfind : Search.find call_open (s.thinking_carry ++ raw_delta) = some tool_separator := by
        split at hm
        · exact hm
        · simp at hm
      -- the marker of a call is ASCII, so the text is valid on both sides of it
      obtain ⟨h1, h2, -⟩ := valid_split_of_find (by decide) (by decide) hbuf hfind
      refine Clean.emit_content ?_ (fun _ => h2) ?_
      · exact h.of_emit_text (fun _ => h1) rfl rfl (fun _ => Utf8.valid_nil) fun hs => by
          rw [emit_text_tool_carry]
          exact h.tool_carry hs
      · rw [content_cut_of_marker hfind]
        simp
  · rw [hf] at hcut
    dsimp only at hcut ⊢
    -- and so is the closing tag
    obtain ⟨h1, -, h2⟩ := valid_split_of_find (by decide) (by decide) hbuf hf
    have hcontent : Clean (Sse.emit_content sink options _ _) :=
      (h.emit_text fun _ => h1).emit_content (fun _ => valid_skip_space h2) hcut
    exact ⟨hcontent.events, fun _ => Utf8.valid_nil, hcontent.tool_carry⟩

/-- **A step without a bad cut keeps the stream clean.** -/
theorem Clean.on_delta {raw_delta : Bytes} (h : Clean s) (ht : Utf8.Valid raw_delta)
    (hcut : ∀ cut ∈ hold_back_cut sink options raw_delta s, CutOk cut) :
    Clean (on_delta sink options raw_delta s) := by
  unfold Sse.on_delta
  unfold hold_back_cut at hcut
  by_cases hc : s.connected = true
  · rw [if_pos hc]
    by_cases hchat : options.chat = true
    · rw [if_pos ⟨hc, hchat⟩] at hcut
      rw [if_pos hchat]
      split
      · next hr =>
        rw [if_pos hr] at hcut
        exact h.on_thinking_delta ht hcut hc
      · next hr =>
        rw [if_neg hr] at hcut
        exact h.emit_content (fun _ => ht) hcut
    · rw [if_neg hchat]
      exact h.emit_text fun _ => ht
  · rw [if_neg hc]
    exact h

theorem not_fragmentsValid_on_thinking_delta {raw_delta : Bytes} {cut : Bytes × Nat}
    (h : Clean s) (ht : Utf8.Valid raw_delta) (hc : s.connected = true)
    (hcut : thinking_cut sink options raw_delta s = some cut) (hbad : ¬CutOk cut) :
    ¬FragmentsValid (on_thinking_delta sink options raw_delta s).events := by
  have hbuf : Utf8.Valid (s.thinking_carry ++ raw_delta) := (h.thinking_carry hc).append ht
  unfold Sse.on_thinking_delta
  unfold thinking_cut at hcut
  dsimp only at hcut ⊢
  rcases hf : Search.find think_close (s.thinking_carry ++ raw_delta) with _ | separator
  · rw [hf] at hcut
    dsimp only at hcut ⊢
    split at hcut
    · simp at hcut
    · next hcond =>
      obtain rfl := Option.some.inj hcut
      have hnone : (if options.parse_tools then
          Search.find call_open (s.thinking_carry ++ raw_delta) else none) = none := by
        split
        · next hp =>
          by_contra hne
          exact hcond (.inl ⟨hp, Option.isSome_iff_ne_none.mpr hne⟩)
        · rfl
      rw [hnone]
      dsimp only
      have hlong : ¬(s.thinking_carry ++ raw_delta).length ≤ holdback options :=
        fun hle => hcond (.inr hle)
      rw [if_neg hlong]
      intro hvalid
      have hne : (s.thinking_carry ++ raw_delta).take
          ((s.thinking_carry ++ raw_delta).length - holdback options) ≠ [] := by
        rw [Ne, List.take_eq_nil_iff]
        rintro (h0 | h0)
        · omega
        · rw [h0] at hlong
          exact hlong (Nat.zero_le _)
      have hfrag := hvalid _ (mem_emit_text_fragments hc hne rfl)
      exact hbad ((Utf8.valid_take_iff hbuf).mp hfrag)
  · rw [hf] at hcut
    dsimp only at hcut ⊢
    obtain ⟨-, -, h2⟩ := valid_split_of_find (by decide) (by decide) hbuf hf
    refine not_fragmentsValid_emit_content ?_ (valid_skip_space h2) hcut hbad
    rw [emit_text_tool_carry]
    exact h.tool_carry hc

/-- **A bad cut goes out at once.** -/
theorem not_fragmentsValid_on_delta {raw_delta : Bytes} {cut : Bytes × Nat} (h : Clean s)
    (ht : Utf8.Valid raw_delta) (hcut : hold_back_cut sink options raw_delta s = some cut)
    (hbad : ¬CutOk cut) : ¬FragmentsValid (on_delta sink options raw_delta s).events := by
  unfold hold_back_cut at hcut
  unfold Sse.on_delta
  split at hcut
  · next hcond =>
    obtain ⟨hc, hchat⟩ := hcond
    rw [if_pos hc, if_pos hchat]
    split at hcut
    · next hr =>
      rw [if_pos hr]
      exact not_fragmentsValid_on_thinking_delta h ht hc hcut hbad
    · next hr =>
      rw [if_neg hr]
      exact not_fragmentsValid_emit_content (h.tool_carry hc) ht hcut hbad
  · simp at hcut

/-! ### Runs -/

theorem clean_initial : Clean (initial options) :=
  ⟨by simp [FragmentsValid, fragments, initial], fun _ => Utf8.valid_nil, fun _ => Utf8.valid_nil⟩

theorem clean_start : Clean (start sink options) := by
  unfold start
  split
  · exact clean_initial.emit_json (by simp [Event.fragment?])
  · exact clean_initial

/-- Without a bad cut the run stays clean. -/
theorem Clean.on_deltas {deltas : List Bytes} (h : Clean s)
    (ht : ∀ raw_delta ∈ deltas, Utf8.Valid raw_delta)
    (hcut : ∀ cut ∈ hold_back_cuts sink options deltas s, CutOk cut) :
    Clean (on_deltas sink options deltas s) := by
  induction deltas generalizing s with
  | nil => exact h
  | cons raw_delta deltas ih =>
    simp only [hold_back_cuts, List.mem_append, Option.mem_toList] at hcut
    refine ih ?_ (fun d hd => ht d (List.mem_cons_of_mem _ hd)) fun cut hmem => hcut cut (.inr hmem)
    exact h.on_delta (ht raw_delta List.mem_cons_self) fun cut hmem => hcut cut (.inl hmem)

/-- If every fragment of the run is valid, it has no bad cut: the first one would have
gone out, and stayed. -/
theorem cutOk_of_fragmentsValid {deltas : List Bytes} (h : Clean s)
    (ht : ∀ raw_delta ∈ deltas, Utf8.Valid raw_delta)
    (hvalid : FragmentsValid (on_deltas sink options deltas s).events) :
    ∀ cut ∈ hold_back_cuts sink options deltas s, CutOk cut := by
  induction deltas generalizing s with
  | nil => simp [hold_back_cuts]
  | cons raw_delta deltas ih =>
    have hd := ht raw_delta List.mem_cons_self
    have hfirst : ∀ cut ∈ hold_back_cut sink options raw_delta s, CutOk cut := by
      intro cut hmem
      by_contra hbad
      exact not_fragmentsValid_on_delta h hd hmem hbad
        (hvalid.of_prefix (on_deltas_events deltas _))
    intro cut hmem
    rw [hold_back_cuts, List.mem_append, Option.mem_toList] at hmem
    rcases hmem with hmem | hmem
    · exact hfirst cut hmem
    · exact ih (h.on_delta hd hfirst) (fun d hd => ht d (List.mem_cons_of_mem _ hd)) hvalid cut hmem

/-! ### The end of the stream -/

theorem valid_parsed_content {schemas : List Bytes} (h : Utf8.Valid text) :
    Utf8.Valid (parse_qwen_tool_output numbers schemas text).content := by
  unfold parse_qwen_tool_output
  split
  · exact valid_trim h
  · next hf =>
    split
    · exact valid_trim h
    · exact valid_trim h
    · exact valid_trim (valid_split_of_find (by decide) (by decide) h hf).1

theorem Clean.flush_thinking (h : Clean s) (hidle : Idle s) :
    Clean (flush_thinking sink options s) := by
  unfold Sse.flush_thinking
  split
  · exact h
  · next hne =>
    split
    · exact h.emit_text h.thinking_carry
    · next hr => exact absurd (hidle (by simpa using hr)) hne

theorem Clean.flush_tools {finish_reason : FinishReason} (h : Clean s) :
    Clean (flush_tools sink options numbers finish_reason s).1 := by
  unfold Sse.flush_tools
  have hparsed : s.connected → Utf8.Valid
      (parse_qwen_tool_output numbers options.tools_json s.tool_carry).content :=
    fun hc => valid_parsed_content (h.tool_carry hc)
  have hcontent : Clean (Sse.emit_text sink .content _ s) := h.emit_text hparsed
  split
  · split
    · dsimp only
      split
      · exact hcontent
      · exact hcontent.emit_json (by simp [Event.fragment?])
    · exact h.emit_text h.tool_carry
  · exact h

theorem Clean.finish {result : Except Bytes FinishReason} (h : Clean s) (hidle : Idle s) :
    Clean (finish sink options numbers result s) := by
  unfold Sse.finish
  cases result with
  | ok finish_reason =>
    exact ((h.flush_thinking hidle).flush_tools.emit_json (by simp [Event.fragment?])).emit_json
      (by simp [Event.fragment?])
  | error message =>
    exact (h.emit_json (by simp [Event.fragment?])).emit_json (by simp [Event.fragment?])

theorem hold_back_cuts_of_not_connected {deltas : List Bytes} (h : s.connected = false) :
    hold_back_cuts sink options deltas s = [] := by
  induction deltas with
  | nil => rfl
  | cons raw_delta deltas ih =>
    rw [hold_back_cuts, on_delta_of_not_connected h, ih, hold_back_cut, if_neg (by simp [h])]
    rfl

/-- **The fragments of a stream are valid exactly when no hold-back cuts a character.**
For every client, every setting and every sequence of valid deltas. -/
theorem stream_fragments_valid_iff (sink : Sink) (options : Options) (numbers : NumberText)
    (deltas : List Bytes) (result : Except Bytes FinishReason)
    (hdeltas : ∀ raw_delta ∈ deltas, Utf8.Valid raw_delta) :
    FragmentsValid (body_stream sink options numbers deltas result).events ↔
      ∀ cut ∈ hold_back_cuts sink options deltas (start sink options), CutOk cut := by
  have hstart : Clean (start sink options) := clean_start
  unfold body_stream
  dsimp only
  by_cases hc : (start sink options).connected = true
  · rw [if_pos hc]
    constructor
    · intro hvalid
      exact cutOk_of_fragmentsValid hstart hdeltas (hvalid.of_prefix (finish_events result _))
    · intro hcut
      exact ((hstart.on_deltas hdeltas hcut).finish idle_start.on_deltas).events
  · rw [if_neg hc, hold_back_cuts_of_not_connected (by simpa using hc)]
    exact ⟨fun _ => by simp, fun _ => hstart.events⟩

/-- An `é` and six letters, handed over at once while the model thinks: the hold-back
leaves seven bytes, and cuts the `é`. -/
def accented : List Bytes := [[0xC3, 0xA9] ++ ascii ['c', 'l', 'a', 'i', 'r', 's']]

theorem stream_fragments_valid_accented :
    (∀ raw_delta ∈ accented, Utf8.Valid raw_delta) ∧
      (FragmentsValid
          (body_stream stays ⟨true, true, []⟩ NumberText.integers accented (.ok .stop)).events ↔
        ∀ cut ∈ hold_back_cuts stays ⟨true, true, []⟩ accented (start stays ⟨true, true, []⟩),
          CutOk cut) :=
  ⟨by decide, stream_fragments_valid_iff stays ⟨true, true, []⟩ NumberText.integers accented
    (.ok .stop) (by decide)⟩

/-- **Valid deltas can make an invalid fragment.** -/
theorem not_stream_fragments_valid :
    ¬∀ (sink : Sink) (options : Options) (numbers : NumberText) (deltas : List Bytes)
      (result : Except Bytes FinishReason), (∀ raw_delta ∈ deltas, Utf8.Valid raw_delta) →
        FragmentsValid (body_stream sink options numbers deltas result).events := fun h =>
  absurd (h stays ⟨true, true, []⟩ NumberText.integers accented (.ok .stop) (by decide)) (by decide)

end Sse

end Qwen38
