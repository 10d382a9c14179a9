import Qwen38.Engine.Admission
import Qwen38.Engine.Emission
import Qwen38.Lib.HoldBack
import Qwen38.Text.JsonParse
import Qwen38.Token.Tokenizer

/-!
# The deltas of a request

The text of a request goes to its client in deltas while the tokens come, token by token or
several at a time. A token stands for any bytes, so that a character may come in parts; what
may be the beginning of one waits (`Qwen38.complete_utf8_prefix`). The rule goes by the lead
byte (`Qwen38.Waits`): it cuts no character, whatever comes next
(`Qwen38.utf8_rule`), and at most three bytes wait.

What the streams of the two loops keep is one invariant (`Qwen38.TextStream.Carries`), over a
run of `complete_impl` (`Qwen38.TextStream.emits_carried`) and over the sessions of a batch
(`Qwen38.Executor.streams_of_reaches`). In the end the deltas are the text of the result, unless
the client has refused one (`Qwen38.deltas_reassemble`).

What waits need not be the beginning of a character: a lead byte waits for as many bytes as it
announces, whatever they are (`Qwen38.retained_not_of_character`).
-/

namespace Qwen38

open Except (bind_eq_ok)

/-! ### Characters -/

/-- The encodings of the characters. -/
def utf8_characters : Set Bytes := Set.range String.utf8EncodeChar

/-- The byte continues a character. -/
def IsContinuation (byte : UInt8) : Prop := byte &&& 0xC0 = 0x80

/-- The lead byte announces more bytes than there are. -/
def Waits (pending : Bytes) : Prop :=
  ∀ lead rest, pending = lead :: rest → rest.length + 1 < utf8_width lead

theorem isContinuation_of_lt {n : Nat} (h : n < 0x40) : IsContinuation (0x80 + n).toUInt8 := by
  have hall : ∀ n : Fin 0x40, IsContinuation (0x80 + n.val).toUInt8 := by
    unfold IsContinuation
    decide
  exact hall ⟨n, h⟩

theorem utf8_width_le (lead : UInt8) : utf8_width lead ≤ 4 := by
  rw [utf8_width]
  split_ifs <;> omega

theorem utf8_width_pos (lead : UInt8) : 0 < utf8_width lead := by
  rw [utf8_width]
  split_ifs <;> omega

/-- **No more than three bytes wait**, since a lead byte announces at most three that follow it. -/
theorem Waits.length_le {pending : Bytes} (h : Waits pending) : pending.length ≤ 3 := by
  cases pending with
  | nil => exact Nat.zero_le 3
  | cons lead rest =>
    have hlt := h lead rest rfl
    have hle := utf8_width_le lead
    rw [List.length_cons]
    omega

/-- A lead byte with as many continuation bytes as it announces. -/
structure IsCharacter (lead : UInt8) (tail : Bytes) : Prop where
  width : utf8_width lead = tail.length + 1
  continuation : ∀ byte ∈ tail, IsContinuation byte
  lead : ¬IsContinuation lead

/-- **What an encoded character looks like.** -/
theorem isCharacter_utf8EncodeChar (c : Char) :
    ∃ lead tail, String.utf8EncodeChar c = lead :: tail ∧ IsCharacter lead tail := by
  have hvalid := Json.toNat_le c
  rw [← Json.utf8_of_codepoint_toNat, Json.utf8_of_codepoint]
  generalize c.toNat = n at hvalid
  have hone : ∀ n : Fin 0x80, utf8_width n.val.toUInt8 = 1 ∧ ¬IsContinuation n.val.toUInt8 := by
    unfold IsContinuation
    decide
  have htwo : ∀ n : Fin 0x20, 2 ≤ n.val → utf8_width (0xC0 + n.val).toUInt8 = 2 ∧
      ¬IsContinuation (0xC0 + n.val).toUInt8 := by
    unfold IsContinuation
    decide
  have hthree : ∀ n : Fin 0x10, utf8_width (0xE0 + n.val).toUInt8 = 3 ∧
      ¬IsContinuation (0xE0 + n.val).toUInt8 := by
    unfold IsContinuation
    decide
  have hfour : ∀ n : Fin 5, utf8_width (0xF0 + n.val).toUInt8 = 4 ∧
      ¬IsContinuation (0xF0 + n.val).toUInt8 := by
    unfold IsContinuation
    decide
  split_ifs with h1 h2 h3
  · obtain ⟨hwidth, hlead⟩ := hone ⟨n, by omega⟩
    exact ⟨_, _, rfl, hwidth, List.forall_mem_nil _, hlead⟩
  · obtain ⟨hwidth, hlead⟩ := htwo ⟨n / 0x40, by omega⟩ (by change 2 ≤ n / 0x40; omega)
    refine ⟨_, _, rfl, hwidth, fun byte hbyte => ?_, hlead⟩
    rw [List.mem_singleton.mp hbyte]
    exact isContinuation_of_lt (Nat.mod_lt _ (by decide))
  · obtain ⟨hwidth, hlead⟩ := hthree ⟨n / 0x1000, by omega⟩
    refine ⟨_, _, rfl, hwidth, fun byte hbyte => ?_, hlead⟩
    simp only [List.mem_cons, List.not_mem_nil, or_false] at hbyte
    rcases hbyte with rfl | rfl <;> exact isContinuation_of_lt (Nat.mod_lt _ (by decide))
  · obtain ⟨hwidth, hlead⟩ := hfour ⟨n / 0x40000, by omega⟩
    refine ⟨_, _, rfl, hwidth, fun byte hbyte => ?_, hlead⟩
    simp only [List.mem_cons, List.not_mem_nil, or_false] at hbyte
    rcases hbyte with rfl | rfl | rfl <;>
      exact isContinuation_of_lt (Nat.mod_lt _ (by decide))

/-! ### The rule -/

/-- How far one pass of the loop of `complete_utf8_prefix` goes. -/
def utf8_step (lead : UInt8) (rest : Bytes) : Nat :=
  if (rest.take (utf8_width lead - 1)).all fun byte => byte &&& 0xC0 = 0x80 then utf8_width lead
  else 1

theorem utf8_step_pos (lead : UInt8) (rest : Bytes) : 0 < utf8_step lead rest := by
  rw [utf8_step]
  split
  · exact utf8_width_pos lead
  · exact Nat.one_pos

theorem utf8_step_le {lead : UInt8} {rest : Bytes} (h : utf8_width lead ≤ rest.length + 1) :
    utf8_step lead rest ≤ (lead :: rest).length := by
  rw [utf8_step, List.length_cons]
  split
  · exact h
  · omega

theorem complete_utf8_from_cons {fuel : Nat} {lead : UInt8} {rest : Bytes}
    (h : utf8_width lead ≤ rest.length + 1) :
    complete_utf8_from (fuel + 1) (lead :: rest) = utf8_step lead rest +
      complete_utf8_from fuel ((lead :: rest).drop (utf8_step lead rest)) := by
  rw [complete_utf8_from, if_neg (Nat.not_lt.mpr h)]
  rfl

theorem complete_utf8_from_waits {fuel : Nat} {lead : UInt8} {rest : Bytes}
    (h : rest.length + 1 < utf8_width lead) : complete_utf8_from (fuel + 1) (lead :: rest) = 0 := by
  rw [complete_utf8_from, if_pos h]

theorem complete_utf8_from_le (fuel : Nat) (text : Bytes) :
    complete_utf8_from fuel text ≤ text.length := by
  induction fuel generalizing text with
  | zero => exact Nat.zero_le _
  | succ fuel ih =>
    cases text with
    | nil => exact Nat.zero_le _
    | cons lead rest =>
      rcases Nat.lt_or_ge (rest.length + 1) (utf8_width lead) with hwaits | hfits
      · rw [complete_utf8_from_waits hwaits]
        exact Nat.zero_le _
      · have hle := ih ((lead :: rest).drop (utf8_step lead rest))
        have hstep := utf8_step_le hfits
        rw [complete_utf8_from_cons hfits]
        rw [List.length_drop] at hle
        omega

/-- **What the rule leaves waits for its lead byte.** -/
theorem waits_drop_complete {fuel : Nat} {text : Bytes} (h : text.length ≤ fuel) :
    Waits (text.drop (complete_utf8_from fuel text)) := by
  induction fuel generalizing text with
  | zero =>
    obtain rfl := List.eq_nil_of_length_eq_zero (Nat.le_zero.mp h)
    exact nofun
  | succ fuel ih =>
    cases text with
    | nil => exact nofun
    | cons lead rest =>
      rcases Nat.lt_or_ge (rest.length + 1) (utf8_width lead) with hwaits | hfits
      · rw [complete_utf8_from_waits hwaits]
        rintro lead' rest' heq
        obtain ⟨rfl, rfl⟩ := List.cons.inj heq
        exact hwaits
      · have hpos := utf8_step_pos lead rest
        rw [complete_utf8_from_cons hfits, ← List.drop_drop]
        refine ih ?_
        rw [List.length_drop]
        rw [List.length_cons] at h ⊢
        omega

/-- A step does not end inside a character, nor is there one that begins inside of it. -/
theorem not_inside_of_step {lead : UInt8} {rest more : Bytes} {k : Nat}
    (hfits : utf8_width lead ≤ rest.length + 1) (hstep : utf8_step lead rest ≤ k)
    (h : ¬HoldBack.Inside utf8_characters ((lead :: rest).drop (utf8_step lead rest) ++ more)
      (k - utf8_step lead rest)) :
    ¬HoldBack.Inside utf8_characters (lead :: rest ++ more) k := by
  rintro ⟨_, ⟨c, rfl⟩, i, hi, hk, hword⟩
  obtain ⟨first, tail, hchar, hcharacter⟩ := isCharacter_utf8EncodeChar c
  rw [hchar] at hk hword
  rcases Nat.lt_or_ge i (utf8_step lead rest) with hinside | hbehind
  · cases i with
    | zero =>
      -- The character is the step.
      obtain ⟨after, heq⟩ := hword
      rw [List.drop_zero, List.cons_append, List.cons_append] at heq
      obtain ⟨rfl, hrest⟩ := List.cons.inj heq
      have hwidth := hcharacter.width
      have htail : rest.take (utf8_width first - 1) = tail := by
        have htake := congrArg (List.take tail.length) hrest
        rw [List.take_left', List.take_append_of_le_length (by omega)] at htake
        · rw [htake, hwidth, Nat.add_sub_cancel]
        · rfl
      have hfull : utf8_step first rest = utf8_width first := by
        rw [utf8_step, htail, if_pos]
        exact List.all_eq_true.mpr fun byte hbyte =>
          decide_eq_true (hcharacter.continuation byte hbyte)
      rw [List.length_cons] at hk
      omega
    | succ i =>
      -- The lead byte of the character would continue the step.
      have hfull : utf8_step lead rest = utf8_width lead ∧
          (rest.take (utf8_width lead - 1)).all (fun byte => byte &&& 0xC0 = 0x80) = true := by
        rw [utf8_step] at hinside ⊢
        split at hinside
        · next hall => exact ⟨if_pos hall, hall⟩
        · omega
      rw [hfull.1] at hinside
      refine hcharacter.lead ?_
      have hmem : first ∈ rest.take (utf8_width lead - 1) := by
        obtain ⟨after, heq⟩ := hword
        simp only [List.cons_append, List.drop_succ_cons] at heq
        refine List.mem_iff_getElem?.mpr ⟨i, ?_⟩
        have hget := congrArg (fun l => l[0]?) heq
        simp only [List.getElem?_cons_zero, List.getElem?_drop, Nat.add_zero] at hget
        rw [List.getElem?_append_left (by omega)] at hget
        rw [List.getElem?_take_of_lt (by omega), hget]
      change first &&& 0xC0 = 0x80
      exact of_decide_eq_true (List.all_eq_true.mp hfull.2 first hmem)
  · refine h ⟨_, ⟨c, rfl⟩, i - utf8_step lead rest, by omega, ?_, ?_⟩
    · rw [hchar]
      omega
    · have hle := utf8_step_le hfits
      rw [hchar]
      rw [← Nat.add_sub_cancel' hbehind, ← List.drop_drop,
        List.drop_append_of_le_length hle] at hword
      exact hword

/-- **The rule cuts no character.** What goes out ends at the boundary of a character, whatever
comes next. -/
theorem not_inside_complete {fuel : Nat} {text : Bytes} (h : text.length ≤ fuel) (more : Bytes) :
    ¬HoldBack.Inside utf8_characters (text ++ more) (complete_utf8_from fuel text) := by
  have hzero : ∀ text : Bytes, ¬HoldBack.Inside utf8_characters text 0 := by
    rintro text ⟨_, _, i, hi, _⟩
    exact absurd hi (Nat.not_lt_zero i)
  induction fuel generalizing text with
  | zero => exact hzero _
  | succ fuel ih =>
    cases text with
    | nil => exact hzero _
    | cons lead rest =>
      rcases Nat.lt_or_ge (rest.length + 1) (utf8_width lead) with hwaits | hfits
      · rw [complete_utf8_from_waits hwaits]
        exact hzero _
      · have hpos := utf8_step_pos lead rest
        rw [complete_utf8_from_cons hfits]
        refine not_inside_of_step hfits (Nat.le_add_right _ _) ?_
        rw [Nat.add_sub_cancel_left]
        refine ih ?_
        rw [List.length_drop]
        rw [List.length_cons] at h ⊢
        omega

/-- `complete_utf8_prefix` as a rule for what may go. -/
def utf8_rule : HoldBack.Rule utf8_characters where
  ready := complete_utf8_prefix
  le := fun text => complete_utf8_from_le text.length text
  not_inside := fun _ more => not_inside_complete (Nat.le_refl _) more

theorem waits_drop (pending : Bytes) : Waits (pending.drop <| complete_utf8_prefix pending) :=
  waits_drop_complete (Nat.le_refl _)

/-! ### The text of the tokens -/

/-- What the loaded tokenizer decodes tokens to. -/
def text_of (unicode : Token.Utf8proc) (loaded : Token.Tokenizer) (tokens : List Token) :
    Except String Bytes :=
  loaded.decode unicode (tokens.map UInt32.ofNat)

/-- The tokenizer decodes like the loaded one, where that does not throw. -/
def Tokenizer.Reads (tokenizer : Tokenizer) (unicode : Token.Utf8proc) (loaded : Token.Tokenizer) :
    Prop :=
  ∀ tokens text, text_of unicode loaded tokens = .ok text → tokenizer.decode tokens = text

section Text

variable {unicode : Token.Utf8proc} {loaded : Token.Tokenizer}

/-- The loaded tokenizer as one of an engine. Where its `decode` throws there is no text. -/
def Tokenizer.of_loaded (unicode : Token.Utf8proc) (loaded : Token.Tokenizer)
    (encode : Bytes → List Token) : Tokenizer where
  encode := encode
  decode := fun tokens => (text_of unicode loaded tokens).toOption.getD []

theorem Tokenizer.reads_of_loaded {encode : Bytes → List Token} :
    (Tokenizer.of_loaded unicode loaded encode).Reads unicode loaded :=
  fun _ _ htext => congrArg (fun text => text.toOption.getD []) htext

/-- **Tokens are decoded one by one.** -/
theorem text_of_append (tokens more : List Token) :
    text_of unicode loaded (tokens ++ more) =
      (text_of unicode loaded tokens >>= fun text =>
        (text_of unicode loaded more).map fun rest => text ++ rest) := by
  rw [text_of, Token.Tokenizer.decode, List.map_append, List.foldlM_append]
  refine congrArg _ (funext fun text => ?_)
  have hmap := Except.foldlM_map_state (f := fun output id => do
      .ok (output ++ (← Token.Tokenizer.decode_token unicode loaded id))) (fun output => text ++ output)
    (fun output id => by
      cases Token.Tokenizer.decode_token unicode loaded id with
      | error e => rfl
      | ok part => exact congrArg Except.ok (List.append_assoc text output part))
    (more.map UInt32.ofNat) []
  rw [List.append_nil] at hmap
  exact hmap

theorem text_of_append_eq_ok {tokens more : List Token} {text : Bytes}
    (h : text_of unicode loaded (tokens ++ more) = .ok text) :
    ∃ before after, text_of unicode loaded tokens = .ok before ∧
      text_of unicode loaded more = .ok after ∧ before ++ after = text := by
  rw [text_of_append] at h
  obtain ⟨before, hbefore, h⟩ := bind_eq_ok.mp h
  cases hafter : text_of unicode loaded more with
  | error e => rw [hafter] at h; cases h
  | ok after =>
    rw [hafter] at h
    exact ⟨before, after, hbefore, rfl, Except.ok.inj h⟩

end Text

/-! ### The stream -/

/-- The client wanted more after each of the deltas. -/
def Accepts (sink : TextSink) (deltas : List Bytes) : Prop :=
  ∀ before delta, before ++ [delta] <+: deltas → sink before delta = true

theorem accepts_concat {sink : TextSink} {deltas : List Bytes} {delta : Bytes} :
    Accepts sink (deltas ++ [delta]) ↔ Accepts sink deltas ∧ sink deltas delta = true := by
  constructor
  · intro h
    exact ⟨fun before d hd => h before d (hd.trans (List.prefix_append deltas [delta])),
      h deltas delta (List.prefix_refl _)⟩
  · rintro ⟨h, hlast⟩ before d hd
    rcases List.prefix_concat_iff.mp hd with hall | hd
    · obtain ⟨rfl, hdelta⟩ := List.append_inj' hall rfl
      obtain rfl := List.singleton_inj.mp hdelta
      exact hlast
    · exact h before d hd

namespace TextStream

/-- A part of the text arrives, and what is complete goes to the client. -/
def push (sink : TextSink) (part : Bytes) (s : TextStream) : TextStream :=
  let pending := s.pending_stream_bytes ++ part
  let complete := complete_utf8_prefix pending
  if complete ≠ 0 then
    { s.send sink (pending.take complete) with pending_stream_bytes := pending.drop complete }
  else { s with pending_stream_bytes := pending }

section Carries

variable (unicode : Token.Utf8proc) (loaded : Token.Tokenizer) (sink : TextSink)

/-- What a stream has to do with the tokens: what went out is cut between characters, and as long
as the client accepts, it is the text of the tokens but for what waits. -/
structure Carries (tokens : List Token) (s : TextStream) : Prop where
  waits : Waits s.pending_stream_bytes
  connected : s.stream_connected = true ↔ Accepts sink s.deltas
  cut : ∀ text, text_of unicode loaded tokens = .ok text →
    HoldBack.Cut utf8_characters text s.deltas
  sent : s.stream_connected = true → ∀ text, text_of unicode loaded tokens = .ok text →
    HoldBack.Sent utf8_characters text s.deltas s.pending_stream_bytes

variable {unicode loaded sink} {tokens more : List Token} {s : TextStream} {part : Bytes}

theorem carries_nil : Carries unicode loaded sink [] {} := by
  have hsent : ∀ text, text_of unicode loaded [] = .ok text →
      HoldBack.Sent utf8_characters text [] [] := by
    intro text htext
    obtain rfl := Except.ok.inj htext
    exact HoldBack.sent_nil
  refine ⟨nofun, ⟨fun _ before delta hdelta => ?_, fun _ => rfl⟩,
    fun text htext => (hsent text htext).toCut, fun _ => hsent⟩
  have hle := hdelta.length_le
  simp at hle

/-- **The tokens of an emission.** -/
theorem Carries.push (h : Carries unicode loaded sink tokens s)
    (hconnected : s.stream_connected = true) (more : List Token)
    (hpart : ∀ text, text_of unicode loaded more = .ok text → part = text) :
    Carries unicode loaded sink (tokens ++ more) (s.push sink part) := by
  have hsent : ∀ text, text_of unicode loaded (tokens ++ more) = .ok text →
      HoldBack.Sent utf8_characters text s.deltas (s.pending_stream_bytes ++ part) := by
    intro text htext
    obtain ⟨before, after, hbefore, hafter, rfl⟩ := text_of_append_eq_ok htext
    rw [hpart after hafter]
    exact (h.sent hconnected before hbefore).append after
  have hwaits := waits_drop (s.pending_stream_bytes ++ part)
  rw [TextStream.push]
  split
  · next hcomplete =>
    refine ⟨hwaits, ?_, fun text htext => ((hsent text htext).send utf8_rule).toCut,
      fun _ text htext => (hsent text htext).send utf8_rule⟩
    rw [send, accepts_concat, ← h.connected]
    exact ⟨fun hsink => ⟨hconnected, hsink⟩, And.right⟩
  · next hcomplete =>
    rw [Classical.not_not.mp hcomplete, List.drop_zero] at hwaits
    exact ⟨hwaits, h.connected, fun text htext => (hsent text htext).toCut, fun _ => hsent⟩

/-- A client that has refused sees no more of it. -/
theorem Carries.skip (h : Carries unicode loaded sink tokens s)
    (hrefused : s.stream_connected = false) {streamed_tokens : Nat} :
    Carries unicode loaded sink (tokens ++ more)
      { s with streamed_tokens, pending_stream_bytes := [] } := by
  refine ⟨nofun, h.connected, fun text htext => ?_, fun hconnected => ?_⟩
  · obtain ⟨before, after, hbefore, -, rfl⟩ := text_of_append_eq_ok htext
    exact (h.cut before hbefore).append after
  · exact absurd (hrefused.symm.trans hconnected) Bool.false_ne_true

theorem Carries.streamed (h : Carries unicode loaded sink tokens s) (streamed_tokens : Nat) :
    Carries unicode loaded sink tokens { s with streamed_tokens } :=
  ⟨h.waits, h.connected, h.cut, h.sent⟩

/-- The end of a stream, with the text of its tokens. -/
theorem Carries.flush (h : Carries unicode loaded sink tokens s) {text : Bytes}
    (htext : text_of unicode loaded tokens = .ok text) :
    (Accepts sink (s.flush (some sink)).2.deltas → (s.flush (some sink)).2.deltas.flatten = text) ∧
      ∀ sent, sent <+: (s.flush (some sink)).2.deltas →
        ¬HoldBack.Inside utf8_characters text sent.flatten.length := by
  rw [TextStream.flush]
  dsimp only
  split
  · next hrest =>
    have hwhole := (h.sent hrest.1 text htext).flush
    exact ⟨fun _ => hwhole.flatten, hwhole.uncut⟩
  · next hrest =>
    cases hconnected : s.stream_connected with
    | false =>
      refine ⟨fun haccepts => ?_, fun sent hsent => ?_⟩
      · exact absurd (hconnected.symm.trans (h.connected.mpr haccepts)) Bool.false_ne_true
      · have huncut := (h.cut text htext).uncut sent hsent []
        rwa [List.append_nil] at huncut
    | true =>
      have hsent := h.sent hconnected text htext
      rw [Classical.not_not.mp fun hne => hrest ⟨hconnected, hne⟩] at hsent
      exact ⟨fun _ => hsent.whole.flatten, hsent.whole.uncut⟩

end Carries

/-- **`emit_new_tokens`** carries the new tokens. -/
theorem Carries.emit_new_tokens {tokenizer : Tokenizer} {unicode : Token.Utf8proc}
    {loaded : Token.Tokenizer} (hreads : tokenizer.Reads unicode loaded) {sink : TextSink}
    {tokens : List Token} {s : TextStream} (h : Carries unicode loaded sink tokens s)
    (hstreamed : s.streamed_tokens = tokens.length) (more : List Token) :
    Carries unicode loaded sink (tokens ++ more)
        (s.emit_new_tokens tokenizer (some sink) (tokens ++ more)).2 ∧
      (s.emit_new_tokens tokenizer (some sink) (tokens ++ more)).2.streamed_tokens =
        (tokens ++ more).length := by
  rw [TextStream.emit_new_tokens]
  dsimp only
  split
  · next hnone =>
    -- all tokens have been seen
    have hmore : more = [] := by
      rw [hstreamed, List.length_append] at hnone
      exact List.eq_nil_of_length_eq_zero (by omega)
    subst hmore
    rw [List.append_nil]
    exact ⟨h, hstreamed⟩
  · split
    · next hconnected =>
      rw [hstreamed, List.drop_left]
      have hpush := (h.streamed (tokens ++ more).length).push hconnected more
        fun text htext => hreads more text htext
      rw [TextStream.push] at hpush
      dsimp only at hpush
      split at hpush
      · next hcomplete =>
        rw [if_pos hcomplete]
        exact ⟨hpush, rfl⟩
      · next hcomplete =>
        rw [if_neg hcomplete]
        exact ⟨hpush, rfl⟩
    · next hrefused => exact ⟨h.skip (Bool.eq_false_iff.mpr hrefused), rfl⟩

/-- The stream of a request has seen its tokens. -/
structure Carried (unicode : Token.Utf8proc) (loaded : Token.Tokenizer) (sink : TextSink)
    (tokens : List Token) (text : TextStream) : Prop where
  carries : text.Carries unicode loaded sink tokens
  streamed_tokens : text.streamed_tokens = tokens.length

/-- **One more token**, of a step or of a round. -/
theorem emits_carried {tokenizer : Tokenizer} {unicode : Token.Utf8proc} {loaded : Token.Tokenizer}
    (hreads : tokenizer.Reads unicode loaded) {on_delta : Option TextSink} {sink : TextSink}
    (hsink : on_delta = some sink) : Emits tokenizer on_delta (Carried unicode loaded sink) where
  start := ⟨carries_nil, rfl⟩
  emit := by
    intro tokens text token h
    obtain ⟨hcarries, hstreamed⟩ := h.carries.emit_new_tokens hreads h.streamed_tokens [token]
    rw [hsink]
    exact ⟨hcarries, hstreamed⟩

end TextStream

/-! ### A request alone -/

namespace NativeEngine

variable {T : Target} {engine : NativeEngine T} {request : BatchRequest}
  {unicode : Token.Utf8proc} {loaded : Token.Tokenizer} {sink : TextSink}

/-- What a client has seen of a result: all of its text, unless it has refused, and no delta that
ends inside a character. -/
def Delivered (unicode : Token.Utf8proc) (loaded : Token.Tokenizer) (sink : TextSink)
    (result : GenerationResult) : Prop :=
  ∀ text, text_of unicode loaded result.tokens = .ok text → result.text = text ∧
    (Accepts sink result.deltas → result.deltas.flatten = text) ∧
    ∀ sent, sent <+: result.deltas → ¬HoldBack.Inside utf8_characters text sent.flatten.length

/-- **The deltas of a request alone** make up its text. The tokens may have come one at a time or in
rounds; the stream is what it would be for the tokens one by one. -/
theorem delivered_of_complete_impl (hreads : engine.tokenizer.Reads unicode loaded)
    (hsink : request.on_delta = some sink) {persistent : engine.persistent_backend.State}
    {st st' : EngineState engine} {proposals : Nat → Proposal} {result : GenerationResult}
    (hrun : engine.complete_impl request proposals persistent st = (.ok result, st')) :
    Delivered unicode loaded sink result := by
  obtain ⟨stream, hcarried, htext, hdeltas⟩ :=
    complete_impl_emits (TextStream.emits_carried hreads hsink) hrun
  intro text hdecodes
  rw [htext, hdeltas, hsink]
  exact ⟨hreads _ _ hdecodes, hcarried.carries.flush hdecodes⟩

end NativeEngine

/-! ### The sessions of a batch -/

section Sessions

variable {T : Target} {engine : NativeEngine T} {unicode : Token.Utf8proc} {loaded : Token.Tokenizer}
  {sink : TextSink} {session session' : Session engine}

/-- What the stream of a session depends on. -/
def Session.streaming (session : Session engine) :
    BoundRequest × List Token × TextStream × FinishReason × Bool :=
  (session.bound, session.tokens, session.text, session.finish_reason, session.active)

variable (unicode loaded) in
/-- The stream of a session has seen its tokens, and the session knows whether it was refused. -/
structure Session.Streams (session : Session engine) : Prop where
  carries : ∀ sink, session.bound.request.on_delta = some sink →
    session.text.Carries unicode loaded sink session.tokens
  cancelled : session.finish_reason = .cancelled ↔ session.text.stream_connected = false
  active : session.active = true → session.text.stream_connected = true

theorem Session.Streams.congr (h : session.Streams unicode loaded)
    (hsame : session'.streaming = session.streaming) : session'.Streams unicode loaded := by
  simp only [Session.streaming, Prod.mk.injEq] at hsame
  obtain ⟨hbound, htokens, htext, hfinish, hactive⟩ := hsame
  constructor
  · rw [hbound, htokens, htext]
    exact h.carries
  · rw [hfinish, htext]
    exact h.cancelled
  · rw [hactive, htext]
    exact h.active

namespace NativeEngine

theorem streams_of_initialize_session {bound : BoundRequest} {prompt_tokens : List Token}
    {incremental_prefill : Bool}
    (h : engine.initialize_session bound prompt_tokens incremental_prefill = .ok session) :
    session.Streams unicode loaded := by
  have hnew : (engine.new_session bound prompt_tokens).Streams unicode loaded :=
    ⟨fun _ _ => TextStream.carries_nil, ⟨nofun, nofun⟩, fun _ => rfl⟩
  rw [initialize_session] at h
  split at h
  · obtain rfl := Except.ok.inj h
    exact hnew
  · obtain ⟨state, -, h⟩ := bind_eq_ok.mp h
    obtain rfl := Except.ok.inj h
    exact hnew.congr rfl

theorem streaming_of_advance_pending_prefill
    (h : engine.advance_pending_prefill session = .ok session') :
    session'.streaming = session.streaming := by
  obtain ⟨begun, hbegin, h⟩ := bind_eq_ok.mp h
  have hbegun : begun.streaming = session.streaming := by
    rw [begin_pending_prefill] at hbegin
    split at hbegin
    · obtain rfl := Except.ok.inj hbegin
      rfl
    · obtain ⟨chunk, -, hbegin⟩ := bind_eq_ok.mp hbegin
      obtain rfl := Except.ok.inj hbegin
      rfl
  split at h
  · obtain rfl := Except.ok.inj h
    exact hbegun
  · obtain ⟨r, -, h⟩ := bind_eq_ok.mp h
    obtain rfl := Except.ok.inj h
    rw [Session.streaming]
    split <;> exact hbegun

/-- The delta of one token. -/
theorem stream_token_eq {token : Token} {text : TextStream}
    (hconnected : text.stream_connected = true) :
    engine.stream_token (some sink) token text =
      (!(text.push sink (engine.tokenizer.decode [token])).stream_connected,
        text.push sink (engine.tokenizer.decode [token])) := by
  rw [stream_token, TextStream.push]
  dsimp only
  split
  · rfl
  · rw [hconnected]
    rfl

/-- **A session that goes on takes its token.** -/
theorem streams_take_row (hreads : engine.tokenizer.Reads unicode loaded)
    (h : session.Streams unicode loaded) (hactive : session.active = true) (logits : T.Logits) :
    (engine.take_row logits session).Streams unicode loaded := by
  have hconnected := h.active hactive
  rw [take_row, take_token]
  generalize engine.sampler.sample_token session.bound.request.sampling logits session.tokens
    session.random = sampled
  split
  · exact ⟨h.carries, ⟨FinishReason.noConfusion, fun hrefused =>
      absurd (hconnected.symm.trans hrefused) Bool.noConfusion⟩, Bool.noConfusion⟩
  · dsimp only
    cases hdelta : session.bound.request.on_delta with
    | none =>
      refine ⟨fun sink hsink => ?_, h.cancelled, fun _ => hconnected⟩
      exact absurd (hdelta.symm.trans hsink).symm (Option.some_ne_none sink)
    | some sink =>
      have hcarries := (h.carries sink hdelta).push hconnected [sampled.1]
        fun text htext => hreads [sampled.1] text htext
      -- the session is connected, so it has not been cancelled
      have hnot : session.finish_reason ≠ .cancelled := fun hfinish =>
        absurd (hconnected.symm.trans (h.cancelled.mp hfinish)) Bool.noConfusion
      rw [stream_token_eq hconnected]
      dsimp only
      split
      · next hrefused =>
        rw [Bool.not_eq_true'] at hrefused
        refine ⟨fun sink' hsink => ?_, ⟨fun _ => hrefused, fun _ => rfl⟩, Bool.noConfusion⟩
        obtain rfl := Option.some.inj (hdelta.symm.trans hsink)
        exact hcarries
      · next hgoes =>
        rw [Bool.not_eq_true, Bool.not_eq_false'] at hgoes
        refine ⟨fun sink' hsink => ?_, ⟨fun hfinish => absurd hfinish hnot, fun hrefused => ?_⟩,
          fun _ => hgoes⟩
        · obtain rfl := Option.some.inj (hdelta.symm.trans hsink)
          exact hcarries
        · exact absurd (hgoes.symm.trans hrefused) Bool.noConfusion

/-- **The deltas of a session.** -/
theorem delivered_session_result (hreads : engine.tokenizer.Reads unicode loaded)
    (h : session.Streams unicode loaded) (hsink : session.bound.request.on_delta = some sink) :
    Delivered unicode loaded sink (engine.session_result session) := by
  have hflush : (engine.flush_session session).tokens = session.tokens ∧
      (engine.flush_session session).text.deltas = (session.text.flush (some sink)).2.deltas := by
    have hconnected : session.finish_reason ≠ .cancelled ↔ session.text.stream_connected = true := by
      rw [Ne, h.cancelled, Bool.not_eq_false]
    rw [flush_session, TextStream.flush, hsink]
    simp only [hconnected]
    split <;> exact ⟨rfl, rfl⟩
  intro text hdecodes
  simp only [session_result, hflush] at hdecodes ⊢
  exact ⟨hreads _ _ hdecodes, (h.carries sink hsink).flush hdecodes⟩

end NativeEngine

/-- The rows of a pass: one for a session at most, and it is still active. -/
def Batch.Takes (loop : Batch engine) : Phase T → Prop
  | .rows pending => (pending.map Prod.fst).Nodup ∧ ∀ slot ∈ pending.map Prod.fst,
      ∀ session, loop.sessions[slot]? = some session → session.active = true
  | _ => True

variable (unicode loaded) in
/-- The sessions the worker is at have streams that fit. -/
def Worker.Streams : Worker engine → Prop
  | .initializing _ loop _ => ∀ session ∈ loop.sessions, session.Streams unicode loaded
  | .running _ loop phase =>
    (∀ session ∈ loop.sessions, session.Streams unicode loaded) ∧ loop.Takes phase
  | _ => True

namespace Executor

open NativeEngine

variable {x y : Executor engine} {loop : Batch engine}

theorem streams_of_map {sessions sessions' : List (Session engine)}
    (h : ∀ session ∈ sessions, session.Streams unicode loaded)
    (hmap : sessions'.map Session.streaming = sessions.map Session.streaming) :
    ∀ session ∈ sessions', session.Streams unicode loaded := by
  intro session hsession
  have hmem : session.streaming ∈ sessions.map Session.streaming :=
    hmap ▸ List.mem_map_of_mem hsession
  obtain ⟨old, hold, heq⟩ := List.mem_map.mp hmem
  exact (h old hold).congr heq.symm

/-- **A row.** -/
theorem streams_take (hreads : engine.tokenizer.Reads unicode loaded) {slot : Nat} {logits : T.Logits}
    {pending : List (Nat × T.Logits)}
    (h : ∀ session ∈ loop.sessions, session.Streams unicode loaded)
    (htakes : loop.Takes (.rows ((slot, logits) :: pending))) :
    (∀ session ∈ loop.sessions.modify slot (engine.take_row logits), session.Streams unicode loaded) ∧
      Batch.Takes { loop with sessions := loop.sessions.modify slot (engine.take_row logits) }
        (.rows pending) := by
  obtain ⟨hnodup, hactive⟩ := htakes
  rw [List.map_cons, List.nodup_cons] at hnodup
  refine ⟨?_, hnodup.2, ?_⟩
  · intro session hsession
    obtain ⟨i, hi⟩ := List.mem_iff_getElem?.mp hsession
    rw [List.getElem?_modify] at hi
    obtain ⟨old, hold, heq⟩ := Option.map_eq_some_iff.mp hi
    have hstreams := h old (List.mem_of_getElem? hold)
    split at heq
    next hslot =>
      subst hslot heq
      exact streams_take_row hreads hstreams (hactive slot List.mem_cons_self old hold) logits
    next => exact heq ▸ hstreams
  · intro slot' hslot' session hsession
    have hne : slot ≠ slot' := fun heq => hnodup.1 (heq ▸ hslot')
    rw [List.getElem?_modify_ne _ _ hne] at hsession
    exact hactive slot' (List.mem_cons_of_mem _ hslot') session hsession

theorem streams_append {sessions : List (Session engine)}
    (h : ∀ session ∈ sessions, session.Streams unicode loaded)
    (hsession : session.Streams unicode loaded) :
    ∀ other ∈ sessions ++ [session], other.Streams unicode loaded := by
  intro other hother
  rcases List.mem_append.mp hother with hother | hother
  · exact h other hother
  · rw [List.mem_singleton.mp hother]
    exact hsession

/-- **A step** of the executor keeps the streams of its sessions. Only the rows of a shared step
touch them. -/
theorem streams_step (hreads : engine.tokenizer.Reads unicode loaded) {leak : Option Leak}
    (h : x.worker.Streams unicode loaded) (hsettled : x.worker.Settled x.history)
    (hstep : Step engine leak x y) : y.worker.Streams unicode loaded := by
  cases hstep with
  | enqueue | stop => exact h
  | enter_group => exact fun _ hmem => absurd hmem List.not_mem_nil
  | begin_session hsession => exact streams_append h (streams_of_initialize_session hsession)
  | begin_session_fails => exact h
  | sessions_begun => exact ⟨h, trivial⟩
  | decode hsome hsessions =>
    obtain ⟨hnodup, hactive⟩ := counted_rows hsessions hsettled
    exact ⟨streams_of_map h.1 (step_sessions_map (fun _ _ => rfl) hsessions), hnodup, hactive⟩
  | take_row => exact streams_take hreads h.1 h.2
  | rows_done => exact ⟨h.1, trivial⟩
  | collect_active => exact ⟨h.1, trivial⟩
  | collect_finished => exact ⟨h.1, trivial⟩
  | collect_done => exact ⟨fun session hmem => h.1 session (List.mem_filter.mp hmem).1, trivial⟩
  | refill_stop | refill_refused | refill_deferred | refill_fails => exact ⟨h.1, trivial⟩
  | refill_admitted _ _ _ _ hsession =>
    exact ⟨streams_append h.1 (streams_of_initialize_session hsession), trivial⟩
  | prefill_none => exact ⟨h.1, trivial⟩
  | prefill_some _ hsession hadvance =>
    exact ⟨streams_of_map h.1 (map_set_of_eq _ hsession
      (streaming_of_advance_pending_prefill hadvance)), trivial⟩
  | prefill_fails =>
    exact ⟨fun session hmem => h.1 session (List.mem_of_mem_eraseIdx hmem), trivial⟩
  | _ => trivial

/-- **In every run** of the executor the streams of its sessions are those of their tokens, one by
one, with what is held back at their ends. Admission, refills and clears leave the streams alone. -/
theorem streams_of_reaches (hreads : engine.tokenizer.Reads unicode loaded)
    {Allowed : Executor engine → Option Leak → Prop} (h : Reaches engine Allowed x) :
    x.worker.Streams unicode loaded := by
  induction h with
  | start => trivial
  | step hreaches _ hstep ih =>
    exact streams_step hreads ih (owned_of_reaches hreaches).2 hstep

theorem streams_of_batch_of (h : x.worker.Streams unicode loaded)
    (hloop : batch_of x.worker = some loop) : ∀ session ∈ loop.sessions,
      session.Streams unicode loaded := by
  cases hworker : x.worker with
  | initializing batch loop' pending =>
    rw [hworker] at h hloop
    obtain rfl := Option.some.inj hloop
    exact h
  | running batch loop' phase =>
    rw [hworker] at h hloop
    obtain rfl := Option.some.inj hloop
    exact h.1
  | _ =>
    rw [hworker] at hloop
    cases hloop

end Executor

end Sessions

/-! ### Two tokens -/

/-- Code points of one or two bytes. -/
def short_unicode : Token.Utf8proc where
  iterate
    | [] => none
    | [lead] => some (lead.toNat, 1)
    | lead :: next :: _ =>
      if lead < 0x80 then some (lead.toNat, 1)
      else some ((lead.toNat - 0xC0) * 0x40 + (next.toNat - 0x80), 2)
  category := fun _ => .cn
  compose := .ok
  size_pos := by
    intro input value size h
    split at h
    · cases h
    · obtain ⟨-, rfl⟩ := Prod.mk.inj (Option.some.inj h)
      decide
    · split_ifs at h
      all_goals
        obtain ⟨-, rfl⟩ := Prod.mk.inj (Option.some.inj h)
        decide
  size_le := by
    intro input value size h
    split at h
    · cases h
    · obtain ⟨-, rfl⟩ := Prod.mk.inj (Option.some.inj h)
      exact Nat.le_refl 1
    · split_ifs at h
      all_goals
        obtain ⟨-, rfl⟩ := Prod.mk.inj (Option.some.inj h)
        simp

/-- Two tokens, in byte symbols: `F0`, which begins a character of four bytes, and the letter A. -/
def short_vocabulary : Token.Tokenizer where
  token_to_id := ∅
  id_to_token := [[], [0xC3, 0xB0], [0x41]]
  merge_rank := ∅
  special_to_id := ∅
  special_ids := []

/-- The two tokens as texts. -/
theorem text_of_short_vocabulary :
    text_of short_unicode short_vocabulary [1] = .ok [0xF0] ∧
      text_of short_unicode short_vocabulary [2] = .ok [0x41] := by
  have hsymbols : Token.symbol_to_byte 0xF0 = some 0xF0 ∧
      Token.symbol_to_byte 0x41 = some 0x41 := by decide +kernel
  have hfirst : Token.codepoints short_unicode [0xC3, 0xB0] =
      .ok [⟨0xF0, [0xC3, 0xB0], .cn⟩] := by
    rw [Token.codepoints, if_neg (by decide)]
    simp [short_unicode, Token.codepoints]
  have hsecond : Token.codepoints short_unicode [0x41] = .ok [⟨0x41, [0x41], .cn⟩] := by
    rw [Token.codepoints, if_neg (by decide)]
    simp [short_unicode, Token.codepoints]
  constructor
  · simp [text_of, Token.Tokenizer.decode, Token.Tokenizer.decode_token, short_vocabulary, hfirst,
      Token.Tokenizer.symbol_bytes, hsymbols]
  · simp [text_of, Token.Tokenizer.decode, Token.Tokenizer.decode_token, short_vocabulary, hsecond,
      Token.Tokenizer.symbol_bytes, hsymbols]

namespace NativeEngine

/-- A model that counts: behind a prompt of one token it says the two tokens, and then one that ends
the answer. -/
def counting_engine : NativeEngine (consumed List.length) where
  options := {
    max_generation_tokens_pos := default_generation_tokens_pos
    prefill_chunk_rows_pos := default_chunk_rows_pos
    prefill_chunk_rows_le := default_chunk_rows_le
    zero_accept_fallback_rounds_pos := default_fallback_rounds_pos }
  tokenizer := Tokenizer.of_loaded short_unicode short_vocabulary fun _ => [0]
  sampler := { Random := Unit, seeded := fun _ => (), draw := fun _ _ _ _ => (0, ()) }
  persistent_backend :=
    { State := Unit
      prepare_persistent_state := id
      import_state := fun _ s => .ok s
      export_state := fun _ => (consumed List.length).make_state
      export_stream := fun _ => []
      can_decode := fun _ => false
      greedy_decode := fun _ _ s => .ok (⟨0, 0⟩, s) }
  end_of_sequence_token := 3
  chat_end_token := 3
  max_context_tokens := 2 ^ 63 - 1

def counting_request : BatchRequest where
  prompt := []
  max_tokens := 4
  on_delta := some TextSink.accepts

def counting_proposals (_ : Nat) : Proposal := .learned 2 (by decide)

/-- Its first state. -/
def counting_start : DecodeState counting_engine where
  state := (consumed List.length).make_state
  mtp_state := {}
  previous_target_stream := none
  current := 0
  random := ()
  persistent := ()
  persistent_reset := true
  persistent_anchor_remaining := 0
  mtp_profitable := false

/-- A later state: the model has seen so many tokens, and says how many. -/
def counting_state (context tokens : List Token) (pending_stream_bytes : Bytes) :
    DecodeState counting_engine :=
  { counting_start with
    state := { layers := ⟨[context], rfl⟩, token_count := context.length }
    previous_target_stream := some context
    current := context.length
    tokens
    text := { pending_stream_bytes, streamed_tokens := tokens.length } }

theorem emit_current_next {T : Target} {engine : NativeEngine T} {request : BatchRequest}
    {s : DecodeState engine} {text : TextStream} (hstop : engine.is_stop_token s.current = false)
    (h : s.text.emit_new_tokens engine.tokenizer request.on_delta (s.tokens ++ [s.current]) =
      (true, text)) :
    engine.emit_current request s = .next { s with
      tokens := s.tokens ++ [s.current]
      text
      thinking_closed := s.thinking_closed ||
        decide ((engine.thinking_close_tokens request).head? = some s.current) } := by
  rw [emit_current, if_neg (by rw [hstop]; exact Bool.false_ne_true)]
  dsimp only
  rw [h]
  rfl

/-- What its client is shown: nothing, twice. -/
theorem emit_counting :
    TextStream.emit_new_tokens counting_engine.tokenizer (some TextSink.accepts) [1] {} =
        (true, { pending_stream_bytes := [0xF0], streamed_tokens := 1 }) ∧
      TextStream.emit_new_tokens counting_engine.tokenizer (some TextSink.accepts) [1, 2]
          { pending_stream_bytes := [0xF0], streamed_tokens := 1 } =
        (true, { pending_stream_bytes := [0xF0, 0x41], streamed_tokens := 2 }) := by
  have hfirst : counting_engine.tokenizer.decode [1] = [0xF0] :=
    Tokenizer.reads_of_loaded _ _ text_of_short_vocabulary.1
  have hsecond : counting_engine.tokenizer.decode [2] = [0x41] :=
    Tokenizer.reads_of_loaded _ _ text_of_short_vocabulary.2
  have hwaits : complete_utf8_prefix [0xF0] = 0 ∧ complete_utf8_prefix [0xF0, 0x41] = 0 := by
    decide
  constructor
  · simp [TextStream.emit_new_tokens, hfirst, hwaits]
  · simp [TextStream.emit_new_tokens, hsecond, hwaits]

/-- The three passes. -/
theorem pass_counting :
    counting_engine.pass counting_request counting_proposals counting_start =
        .ok (.next (counting_state [0] [1] [0xF0])) ∧
      counting_engine.pass counting_request counting_proposals (counting_state [0] [1] [0xF0]) =
        .ok (.next (counting_state [0, 1] [1, 2] [0xF0, 0x41])) ∧
      counting_engine.pass counting_request counting_proposals
          (counting_state [0, 1] [1, 2] [0xF0, 0x41]) =
        .ok (.leave { counting_state [0, 1, 2] [1, 2] [0xF0, 0x41] with
          finish_reason := .stop
          stopped_on_terminator := true }) := by
  obtain ⟨hfirst, hsecond⟩ := emit_counting
  refine ⟨?_, ?_, rfl⟩
  · calc counting_engine.pass counting_request counting_proposals counting_start
        = .ok (counting_engine.emit_current counting_request (counting_state [0] [] [])) := rfl
      _ = .ok (.next (counting_state [0] [1] [0xF0])) :=
        congrArg Except.ok (emit_current_next rfl hfirst)
  · calc counting_engine.pass counting_request counting_proposals (counting_state [0] [1] [0xF0])
        = .ok (counting_engine.emit_current counting_request (counting_state [0, 1] [1] [0xF0])) := rfl
      _ = .ok (.next (counting_state [0, 1] [1, 2] [0xF0, 0x41])) :=
        congrArg Except.ok (emit_current_next rfl hsecond)

theorem begin_counting : ∃ r st, counting_engine.begin_request counting_request () [0] {} =
    (.ok r, st) ∧ r.2.1 = counting_start := ⟨_, _, rfl, rfl⟩

/-- The state in which both bytes wait. -/
theorem reaches_counting : Loop.Reaches (counting_engine.more counting_request)
    (counting_engine.pass counting_request counting_proposals) counting_start
    (counting_state [0, 1] [1, 2] [0xF0, 0x41]) :=
  .pass (.pass .start rfl pass_counting.1) rfl pass_counting.2.1

theorem complete_counting : ∃ result st', counting_engine.complete_impl counting_request
    counting_proposals () {} = (.ok result, st') ∧ result.tokens = [1, 2] := by
  obtain ⟨hfirst, hsecond, hthird⟩ := pass_counting
  have hloop : counting_engine.decode_loop counting_request counting_proposals counting_start = _ :=
    (Loop.run_next rfl hfirst 3).trans
      ((Loop.run_next rfl hsecond 2).trans (Loop.run_leave rfl hthird 1))
  obtain ⟨⟨prefilled, s, cache⟩, st, hbegin, hstart⟩ := begin_counting
  dsimp only at hstart
  have hvalid : counting_engine.validate counting_request = .ok [0] := rfl
  have hrun : counting_engine.decode_loop counting_request counting_proposals s = _ := hstart ▸ hloop
  simp only [complete_impl, hvalid, hbegin, hrun]
  exact ⟨_, _, rfl, rfl⟩

end NativeEngine

/-! ### The result -/

/-- No more than three bytes are held back, and fewer than the first of them announces. -/
def TextStream.Retains (s : TextStream) : Prop :=
  s.pending_stream_bytes.length ≤ 3 ∧ Waits s.pending_stream_bytes

theorem TextStream.Carries.retains {unicode : Token.Utf8proc} {loaded : Token.Tokenizer}
    {sink : TextSink} {tokens : List Token} {s : TextStream}
    (h : s.Carries unicode loaded sink tokens) : s.Retains := ⟨h.waits.length_le, h.waits⟩

/-- **The deltas of a request make up its text**, of a request alone and of one in a batch, with any
tokens in any groups: unless the client refuses one, they are the text of the result, and none ends
inside a character. In between, what is held back is a lead byte with fewer bytes than it
announces. -/
theorem deltas_reassemble {T : Target} {engine : NativeEngine T} {unicode : Token.Utf8proc}
    {loaded : Token.Tokenizer} (hreads : engine.tokenizer.Reads unicode loaded) (sink : TextSink) :
    (∀ request : BatchRequest, request.on_delta = some sink → ∀ proposals persistent st,
      (∀ result st', engine.complete_impl request proposals persistent st = (.ok result, st') →
        NativeEngine.Delivered unicode loaded sink result) ∧
      ∀ prompt_tokens r st', engine.begin_request request persistent prompt_tokens st = (.ok r, st') →
        ∀ s, Loop.Reaches (engine.more request) (engine.pass request proposals) r.2.1 s →
          ∀ emitted, (engine.emit_round request emitted s).2.text.Retains) ∧
    ∀ (Allowed : Executor engine → Option Leak → Prop) (x : Executor engine) (loop : Batch engine),
      Executor.Reaches engine Allowed x → Executor.batch_of x.worker = some loop →
        ∀ session ∈ loop.sessions, session.bound.request.on_delta = some sink →
          session.text.Retains ∧
            NativeEngine.Delivered unicode loaded sink (engine.session_result session) := by
  refine ⟨fun request hsink proposals persistent st => ⟨fun result st' hrun => ?_, ?_⟩, ?_⟩
  · exact NativeEngine.delivered_of_complete_impl hreads hsink hrun
  · intro prompt_tokens r st' hbegin s hreaches emitted
    have hemits := TextStream.emits_carried hreads hsink
    have hcarried := (NativeEngine.sent_of_begin_request hemits hbegin).reaches hemits hreaches
    exact (hcarried.emit_round hemits emitted).carries.retains
  · intro Allowed x loop hreaches hloop session hsession hsink
    have hstreams := Executor.streams_of_batch_of
      (Executor.streams_of_reaches hreads hreaches) hloop session hsession
    exact ⟨(hstreams.carries sink hsink).retains,
      NativeEngine.delivered_session_result hreads hstreams hsink⟩

/-- Its client gets the two bytes at the end, as the text of the result. -/
theorem deltas_reassemble_counting : ∃ result st', NativeEngine.counting_engine.complete_impl
    NativeEngine.counting_request NativeEngine.counting_proposals () {} = (.ok result, st') ∧
      result.text = [0xF0, 0x41] ∧ result.deltas.flatten = [0xF0, 0x41] := by
  obtain ⟨result, st', hrun, htokens⟩ := NativeEngine.complete_counting
  have hdecodes : text_of short_unicode short_vocabulary result.tokens = .ok [0xF0, 0x41] := by
    obtain ⟨hfirst, hsecond⟩ := text_of_short_vocabulary
    rw [htokens, show [1, 2] = [1] ++ [2] from rfl, text_of_append, hfirst, hsecond]
    rfl
  have hreads : NativeEngine.counting_engine.tokenizer.Reads short_unicode short_vocabulary :=
    Tokenizer.reads_of_loaded
  obtain ⟨htext, hdeltas, -⟩ := ((deltas_reassemble hreads TextSink.accepts).1
    NativeEngine.counting_request rfl NativeEngine.counting_proposals () {}).1 result st' hrun _
    hdecodes
  exact ⟨result, st', hrun, htext, hdeltas fun _ _ _ => rfl⟩

/-- What is held back need not begin a character: with `F0` the letter A waits. -/
theorem retained_not_of_character : ¬∀ (T : Target) (engine : NativeEngine T)
    (unicode : Token.Utf8proc) (loaded : Token.Tokenizer), engine.tokenizer.Reads unicode loaded →
    ∀ request proposals persistent prompt_tokens st r st',
      engine.begin_request request persistent prompt_tokens st = (.ok r, st') →
        ∀ s, Loop.Reaches (engine.more request) (engine.pass request proposals) r.2.1 s →
          s.text.pending_stream_bytes.length ≤ 3 ∧
            ∃ c : Char, s.text.pending_stream_bytes <+: String.utf8EncodeChar c := by
  intro h
  obtain ⟨r, st, hbegin, hstart⟩ := NativeEngine.begin_counting
  have hreaches := NativeEngine.reaches_counting
  rw [← hstart] at hreaches
  obtain ⟨-, c, hbegins⟩ := h _ NativeEngine.counting_engine _ _ Tokenizer.reads_of_loaded _ _ _ _ _
    r st hbegin _ hreaches
  obtain ⟨lead, tail, hchar, hcharacter⟩ := isCharacter_utf8EncodeChar c
  obtain ⟨after, hafter⟩ := hbegins
  rw [hchar] at hafter
  obtain ⟨-, htail⟩ := List.cons.inj hafter
  have hmem : (0x41 : UInt8) ∈ tail := htail ▸ List.mem_cons_self
  exact absurd (hcharacter.continuation _ hmem) (by unfold IsContinuation; decide)

end Qwen38
