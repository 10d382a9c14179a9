import Qwen38.Engine.Live

/-!
# What goes out to the client

The tokens and the text stream of a request change in one place only, where a token is emitted: the
steps and the rounds, the native backend and the companion leave both as they are. So what holds
before the first token, and is kept by `emit_new_tokens` for one more of them
(`Qwen38.TextStream.Emits`), holds of the result, however the tokens were found
(`Qwen38.NativeEngine.complete_impl_emits`).

The first such fact is that the stream is the replay of its tokens, one after the other
(`Qwen38.TextStream.streamed`). What a client sees depends on the tokens alone.
-/

namespace Qwen38

open Except (bind_eq_ok)

namespace TextStream

variable (tokenizer : Tokenizer) (on_delta : Option TextSink)

/-- It holds before the first token, and one more token keeps it. -/
structure Emits (P : List Token → TextStream → Prop) : Prop where
  start : P [] {}
  emit : ∀ {tokens text} (token : Token), P tokens text →
    P (tokens ++ [token]) (text.emit_new_tokens tokenizer on_delta (tokens ++ [token])).2

/-- One token goes out behind others. -/
def emit_one (s : List Token × TextStream) (token : Token) : List Token × TextStream :=
  (s.1 ++ [token], (s.2.emit_new_tokens tokenizer on_delta (s.1 ++ [token])).2)

/-- The stream behind these tokens, that go out one by one. -/
def streamed (tokens : List Token) : TextStream :=
  (tokens.foldl (emit_one tokenizer on_delta) ([], {})).2

theorem foldl_emit_one_fst (tokens : List Token) (s : List Token × TextStream) :
    (tokens.foldl (emit_one tokenizer on_delta) s).1 = s.1 ++ tokens := by
  induction tokens generalizing s with
  | nil => rw [List.foldl_nil, List.append_nil]
  | cons token tokens ih =>
    rw [List.foldl_cons, ih, emit_one, List.append_assoc, List.singleton_append]

/-- **One more token.** -/
theorem streamed_concat (tokens : List Token) (token : Token) :
    streamed tokenizer on_delta (tokens ++ [token]) =
      ((streamed tokenizer on_delta tokens).emit_new_tokens tokenizer on_delta (tokens ++ [token])).2 := by
  rw [streamed, List.foldl_append, List.foldl_cons, List.foldl_nil, emit_one, foldl_emit_one_fst,
    List.nil_append]
  rfl

/-- The stream is the replay of its tokens. -/
theorem emits_streamed :
    Emits tokenizer on_delta fun tokens text => text = streamed tokenizer on_delta tokens where
  start := rfl
  emit := by
    rintro tokens text token rfl
    exact (streamed_concat tokenizer on_delta tokens token).symm

end TextStream

namespace NativeEngine

variable {T : Target} {engine : NativeEngine T} {request : BatchRequest} {s s' : DecodeState engine}

theorem activate_persistent_same (hrun : engine.activate_persistent s = .ok s') :
    SameOutput s s' := by
  obtain ⟨_, -, hrun⟩ := bind_eq_ok.mp hrun
  obtain ⟨_, -, hrun⟩ := bind_eq_ok.mp hrun
  obtain rfl := Except.ok.inj hrun
  exact ⟨rfl, rfl, rfl, rfl⟩

/-- A step says nothing yet. -/
theorem decode_step_same (hrun : engine.decode_step request s = .ok s') : SameOutput s s' := by
  rw [decode_step] at hrun
  split at hrun
  · obtain ⟨_, -, hrun⟩ := bind_eq_ok.mp hrun
    obtain rfl := Except.ok.inj hrun
    exact ⟨rfl, rfl, rfl, rfl⟩
  · rw [mlx_step] at hrun
    obtain ⟨hsame, -⟩ := choose_token_same request
      (T.forward_decode_capture s.current s.state).1.logits
      { s with
        state := (T.forward_decode_capture s.current s.state).2
        previous_target_stream := some (T.forward_decode_capture s.current s.state).1.pre_mixer_stream }
    have hbefore : SameOutput s { s with
        state := (T.forward_decode_capture s.current s.state).2
        previous_target_stream :=
          some (T.forward_decode_capture s.current s.state).1.pre_mixer_stream } :=
      ⟨rfl, rfl, rfl, rfl⟩
    refine (hbefore.trans hsame).trans ?_
    cases count_anchor_ok hrun with
    | none => exact ⟨rfl, rfl, rfl, rfl⟩
    | one => exact ⟨rfl, rfl, rfl, rfl⟩
    | last _ hactivate => exact (counted_down_same _).1.trans (activate_persistent_same hactivate)

section Emits

variable {P : List Token → TextStream → Prop}

/-- Of what has gone out so far. -/
def Sent (P : List Token → TextStream → Prop) (s : DecodeState engine) : Prop := P s.tokens s.text

theorem Sent.of_text (h : Sent P s) (htokens : s'.tokens = s.tokens) (htext : s'.text = s.text) :
    Sent P s' := by
  rw [Sent, htokens, htext]
  exact h

theorem Sent.of_same (h : Sent P s) (hsame : SameOutput s s') : Sent P s' :=
  h.of_text hsame.tokens hsame.text

/-- The end of a round says nothing. -/
theorem Sent.end_round (h : Sent P s) {proposal : Proposal} {refused : Bool}
    {r : Loop.Pass (DecodeState engine)}
    (hrun : engine.end_round request proposal refused s = .ok r) : Sent P r.state := by
  cases end_round_ok hrun with
  | stopped => exact h
  | cancelled => exact h.of_text rfl rfl
  | fell_back => exact h.of_text rfl rfl
  | activated _ _ _ _ hactivate =>
    exact (h.of_text rfl rfl : Sent P (fallen_back s)).of_same (activate_persistent_same hactivate)
  | goes_on => exact h

variable (hP : TextStream.Emits engine.tokenizer request.on_delta P)
include hP

/-- **The token of a serial step.** -/
theorem Sent.emit_current (h : Sent P s) : Sent P (engine.emit_current request s).state := by
  have hnext := hP.emit s.current h
  rw [NativeEngine.emit_current]
  split
  · exact h.of_text rfl rfl
  · dsimp only
    split <;> exact hnext

/-- **The tokens of a round.** -/
theorem Sent.emit_round (h : Sent P s) (emitted : List Token) :
    Sent P (engine.emit_round request emitted s).2 := by
  induction emitted generalizing s with
  | nil => exact h
  | cons token emitted ih =>
    rw [NativeEngine.emit_round]
    split
    · exact h
    · split
      · exact h.of_text rfl rfl
      · have hnext := hP.emit token h
        exact ih hnext

/-- **A pass.** -/
theorem Sent.pass (h : Sent P s) {proposals : Nat → Proposal} {r : Loop.Pass (DecodeState engine)}
    (hrun : engine.pass request proposals s = .ok r) : Sent P r.state := by
  have hbegin := h.of_same (begin_pass_same request s).1.toSameOutput
  cases pass_ok hrun with
  | serial _ hserial =>
    obtain ⟨s₁, haccount, hserial⟩ := bind_eq_ok.mp hserial
    obtain ⟨s₂, hstep, hserial⟩ := bind_eq_ok.mp hserial
    obtain rfl := Except.ok.inj hserial
    have hsame := (account_mtp_row_ok haccount).same.toSameOutput.trans (decode_step_same hstep)
    exact (hbegin.of_same hsame).emit_current hP
  | round _ _ _ hround =>
    obtain ⟨⟨step, state, mtp_state⟩, -, hround⟩ := bind_eq_ok.mp hround
    refine Sent.end_round (Sent.emit_round hP ?_ step.emitted_tokens) hround
    exact hbegin.of_text rfl rfl

/-- **At every point of the loop.** -/
theorem Sent.reaches (h : Sent P s) {proposals : Nat → Proposal}
    (hreaches : Loop.Reaches (engine.more request) (engine.pass request proposals) s s') : Sent P s' :=
  hreaches.invariant h fun _ _ h _ hrun => h.pass hP hrun

/-- **Where the loop ends.** -/
theorem Sent.decode_loop (h : Sent P s) {proposals : Nat → Proposal}
    (hrun : engine.decode_loop request proposals s = .ok s') : Sent P s' :=
  Loop.run_invariant (fun _ _ h _ hrun => h.pass hP hrun) h hrun

end Emits

/-- The loop starts before any token. -/
theorem start_decode_text {prompt_tokens : List Token} {prefilled : Prefilled T}
    {persistent : engine.persistent_backend.State}
    (hrun : engine.start_decode request prompt_tokens prefilled persistent = .ok s) :
    s.tokens = [] ∧ s.text = {} := by
  obtain ⟨anchor, -, hrun⟩ := bind_eq_ok.mp hrun
  obtain ⟨s₁, hstart, hrun⟩ := bind_eq_ok.mp hrun
  obtain ⟨-, -, hrun⟩ := bind_eq_ok.mp hrun
  obtain rfl := Except.ok.inj hrun
  rw [start_persistent] at hstart
  split at hstart
  · split at hstart
    · have hsame := activate_persistent_same hstart
      exact ⟨hsame.tokens, hsame.text⟩
    · split at hstart
      · obtain ⟨_, -, hstart⟩ := bind_eq_ok.mp hstart
        obtain rfl := Except.ok.inj hstart
        exact ⟨rfl, rfl⟩
      · obtain rfl := Except.ok.inj hstart
        exact ⟨rfl, rfl⟩
  · obtain rfl := Except.ok.inj hstart
    exact ⟨rfl, rfl⟩

variable {persistent : engine.persistent_backend.State} {prompt_tokens : List Token}
  {st st' : EngineState engine} {P : List Token → TextStream → Prop}

theorem sent_of_begin_request (hP : TextStream.Emits engine.tokenizer request.on_delta P)
    {r : Prefilled T × DecodeState engine × PromptCache engine}
    (hrun : engine.begin_request request persistent prompt_tokens st = (.ok r, st')) : Sent P r.2.1 := by
  rw [begin_request] at hrun
  split at hrun
  · cases hrun
  · split at hrun
    · cases hrun
    · dsimp only at hrun
      split at hrun
      · cases hrun
      · next s hstart =>
        obtain ⟨htokens, htext⟩ := start_decode_text hstart
        obtain rfl := Except.ok.inj (Prod.mk.inj hrun).1
        rw [Sent, htokens, htext]
        exact hP.start

/-- **What a result says**: its tokens with a stream of which all holds that every token keeps. The
text is that of the tokens, and the deltas are those of the stream, with what was left at its
end. -/
theorem complete_impl_emits (hP : TextStream.Emits engine.tokenizer request.on_delta P)
    {proposals : Nat → Proposal} {result : GenerationResult}
    (hrun : engine.complete_impl request proposals persistent st = (.ok result, st')) :
    ∃ text, P result.tokens text ∧ result.text = engine.tokenizer.decode result.tokens ∧
      result.deltas = (text.flush request.on_delta).2.deltas := by
  rw [complete_impl] at hrun
  split at hrun
  · cases hrun
  · split at hrun
    · cases hrun
    · next hbegin =>
      split at hrun
      · cases hrun
      · next s hloop =>
        have hsent := (sent_of_begin_request hP hbegin).decode_loop hP hloop
        obtain rfl := Except.ok.inj (Prod.mk.inj hrun).1
        have hexport : SameOutput s (engine.export_for_cache s) := by
          rw [export_for_cache]
          split <;> exact ⟨rfl, rfl, rfl, rfl⟩
        exact ⟨_, hsent.of_same hexport, rfl, rfl⟩

end NativeEngine

end Qwen38
