import Qwen38.Engine.Serving
import Qwen38.Engine.Sessions

/-!
# Batched decoding is solo decoding

A session that runs by itself goes through the passes of the plain loop: `complete_impl` without a
companion, without the native backend and with empty caches (`Qwen38.NativeEngine.solo`). Together
with `Qwen38.Executor.apart_of_reaches` this says that a request which a batch has finished is
answered with what it would have got alone (`Qwen38.Executor.batched_eq_solo`): the same tokens and
text, the same end and the same deltas, whatever the other requests were and whenever they came.
Alone it is answered because the batch has made the same checks of its arguments; two things that a
batch never looks at have to be in range as well, the longest draft and the windows of the prefill.
-/

namespace Qwen38

open Except (bind_eq_ok)

variable {T : Target}

namespace NativeEngine

variable {engine : NativeEngine T}

/-- The engine without companion, native backend and persistent store. -/
def solo (engine : NativeEngine T) : NativeEngine T :=
  { engine with mtp_head := none, persistent_enabled := false, ssd_enabled := false }

variable {request : BatchRequest} {proposals : Nat → Proposal} {session : Session engine}
  {s s₀ : DecodeState engine.solo}

/-! ### A pass of the plain loop -/

/-- The plain loop takes serial steps of the MLX model. -/
structure Solo (s : DecodeState engine.solo) : Prop where
  persistent_active : s.persistent_active = false
  persistent_anchor_remaining : s.persistent_anchor_remaining = 0
  mtp_profitable : s.mtp_profitable = false
  forced_tokens : s.forced_tokens = []
  mtp_rounds : s.mtp_rounds = 0
  mtp_accepted : s.mtp_accepted = 0
  mtp_fallbacks : s.mtp_fallbacks = 0
  thinking_budget_forced : s.thinking_budget_forced = false

/-- The next token, before it goes out. -/
def drawn (request : BatchRequest) (s : DecodeState engine.solo) : DecodeState engine.solo :=
  let r := T.forward_decode_capture s.current s.state
  let next := engine.sampler.sample_token request.sampling r.1.logits s.tokens s.random
  { s with
    state := r.2
    previous_target_stream := some r.1.pre_mixer_stream
    current := next.1
    random := next.2 }

/-- The text with the next token. -/
def emitted (request : BatchRequest) (s : DecodeState engine.solo) : Bool × TextStream :=
  s.text.emit_new_tokens engine.tokenizer request.on_delta (s.tokens ++ [s.current])

/-- The next token has gone out. -/
def sent (request : BatchRequest) (s : DecodeState engine.solo) : DecodeState engine.solo :=
  { s with
    tokens := s.tokens ++ [s.current]
    text := (emitted request s).2
    thinking_closed := s.thinking_closed ||
      (engine.solo.thinking_close_tokens request).head? = some s.current }

theorem emit_current_solo (request : BatchRequest) (s : DecodeState engine.solo) :
    engine.solo.emit_current request s =
      if engine.is_stop_token s.current then
        .leave { s with finish_reason := .stop, stopped_on_terminator := true }
      else if (emitted request s).1 then .next (sent request s)
      else .leave { sent request s with finish_reason := .cancelled } := rfl

theorem Solo.drawn (h : Solo s) : Solo (drawn request s) := { h with }

theorem Solo.sent (h : Solo s) : Solo (sent request s) := { h with }

theorem begin_thinking_intervention_solo (hbudget : request.sampling.thinking_budget_tokens = 0)
    (s : DecodeState engine.solo) : engine.solo.begin_thinking_intervention request s = s := by
  simp only [begin_thinking_intervention, forced_thinking_suffix, hbudget, if_true, or_true]

/-- **A pass of the plain loop.** Without a companion, backend, cache or thinking budget a pass
draws the next token from the model and emits it; nothing else in the loop is reached. -/
theorem pass_solo (hbudget : request.sampling.thinking_budget_tokens = 0) (h : Solo s) :
    engine.solo.pass request proposals s =
      .ok (engine.solo.emit_current request (drawn request s)) := by
  have hback : engine.solo.hand_back s = s := by
    rw [hand_back, if_neg fun hfull => Bool.false_ne_true (h.persistent_active.symm.trans hfull.1)]
  have hbegin : engine.solo.begin_pass request s = s := by
    rw [begin_pass, hback, check_thinking_budget, begin_thinking_intervention_solo hbudget, ite_self]
  have hchoose : ∀ (logits : T.Logits) (s : DecodeState engine.solo), s.forced_tokens = [] →
      engine.solo.choose_token request logits s =
        { s with
          current := (engine.sampler.sample_token request.sampling logits s.tokens s.random).1
          random := (engine.sampler.sample_token request.sampling logits s.tokens s.random).2 } := by
    intro logits s hforced
    simp only [choose_token, hforced, begin_thinking_intervention_solo hbudget, ite_self]
    rfl
  -- without a companion speculation does not pay
  have hserial : engine.solo.takes_serial_step request s = true := by
    rw [takes_serial_step, h.mtp_profitable]
    rfl
  have haccount : engine.solo.account_mtp_row s = .ok s := rfl
  have hstep : engine.solo.decode_step request s = .ok (drawn request s) := by
    have hchosen := hchoose (T.forward_decode_capture s.current s.state).1.logits { s with
      state := (T.forward_decode_capture s.current s.state).2
      previous_target_stream :=
        some (T.forward_decode_capture s.current s.state).1.pre_mixer_stream } h.forced_tokens
    rw [decode_step, takes_native_step, h.persistent_active, Bool.false_and,
      if_neg Bool.false_ne_true, mlx_step]
    dsimp only
    rw [hchosen, count_anchor, if_pos h.persistent_anchor_remaining]
    rfl
  rw [pass, hbegin, if_pos hserial, serial_step, haccount, Except.ok_bind, hstep]
  rfl

/-! ### What the client sees -/

/-- The same stream, but for the count of streamed tokens. -/
structure SameText (text stream : TextStream) : Prop where
  deltas : text.deltas = stream.deltas
  pending_stream_bytes : text.pending_stream_bytes = stream.pending_stream_bytes
  stream_connected : text.stream_connected = stream.stream_connected

/-- **One token in either stream.** A session that goes on is connected, so that what the batch
sends for its token is what the plain loop sends, and the client's answer means the same. -/
theorem stream_token_same {text : TextStream} (h : SameText text s.text)
    (hconnected : text.stream_connected = true)
    (hstreamed : request.on_delta.isSome = true → s.text.streamed_tokens = s.tokens.length) :
    let streamed := engine.stream_token request.on_delta s.current text
    let shown := emitted request s
    SameText streamed.2 shown.2 ∧ streamed.1 = !shown.2.stream_connected ∧
      shown.1 = shown.2.stream_connected ∧
        (request.on_delta.isSome = true → shown.2.streamed_tokens = (sent request s).tokens.length) := by
  obtain ⟨hdeltas, hpending, hsame⟩ := h
  rw [hsame] at hconnected
  dsimp only [emitted, sent]
  cases hdelta : request.on_delta with
  | none =>
    refine ⟨⟨hdeltas, hpending, hsame⟩, ?_, hconnected.symm, fun hsome =>
      absurd hsome Bool.false_ne_true⟩
    dsimp only [TextStream.emit_new_tokens, stream_token]
    rw [hconnected]
    rfl
  | some sink =>
    rw [hdelta] at hstreamed
    have hcount := hstreamed rfl
    -- the loop has sent all tokens but this one, so this one is all that is new
    have hmore : ¬s.tokens.length = (s.tokens ++ [s.current]).length := by
      rw [List.length_append, List.length_singleton]
      omega
    simp only [stream_token, TextStream.emit_new_tokens, hcount, if_neg hmore, hconnected, if_true,
      hpending, List.drop_left]
    split
    · simp only [TextStream.send, hdeltas, and_self, and_true, implies_true]
      exact ⟨rfl, rfl, rfl⟩
    · exact ⟨⟨hdeltas, rfl, hsame.trans hconnected⟩, rfl, trivial, fun _ => rfl⟩

/-! ### A session and the plain loop -/

/-- A session is where the plain loop is. -/
structure Mirrors (session : Session engine) (s : DecodeState engine.solo) : Prop
    extends Solo s where
  state : session.state = s.state
  tokens : session.tokens = s.tokens
  random : session.random = s.random
  current : session.current = s.current
  finish_reason : session.finish_reason = s.finish_reason
  text : SameText session.text s.text
  connected : session.text.stream_connected = decide (session.finish_reason ≠ .cancelled)

/-- The loop goes on where the session does, and has come to its end where the session has. -/
structure Tracks (request : BatchRequest) (proposals : Nat → Proposal) (s₀ : DecodeState engine.solo)
    (session : Session engine) (s : DecodeState engine.solo) : Prop extends Mirrors session s where
  running : session.active = true → session.finish_reason = .length ∧
    s.tokens.length < request.max_tokens ∧
      (request.on_delta.isSome = true → s.text.streamed_tokens = s.tokens.length) ∧
        ∀ fuel, Loop.run (engine.solo.more request) (engine.solo.pass request proposals)
          (s.tokens.length + fuel) s₀ =
            Loop.run (engine.solo.more request) (engine.solo.pass request proposals) fuel s
  finished : session.active = false → engine.solo.decode_loop request proposals s₀ = .ok s

/-- A pass that ends the loop. -/
theorem Tracks.leave {s' : DecodeState engine.solo} (h : Tracks request proposals s₀ session s)
    (hactive : session.active = true)
    (hpass : engine.solo.pass request proposals s = .ok (.leave s')) :
    engine.solo.decode_loop request proposals s₀ = .ok s' := by
  obtain ⟨-, hroom, -, hrun⟩ := h.running hactive
  have hmore : engine.solo.more request s = true := decide_eq_true hroom
  obtain ⟨k, hk⟩ : ∃ k, request.max_tokens = s.tokens.length + (k + 1) :=
    ⟨request.max_tokens - s.tokens.length - 1, by omega⟩
  rw [decode_loop, hk, hrun]
  exact Loop.run_leave hmore hpass k

/-- A pass that does not. -/
theorem Tracks.next {s' : DecodeState engine.solo} (h : Tracks request proposals s₀ session s)
    (hactive : session.active = true)
    (hpass : engine.solo.pass request proposals s = .ok (.next s'))
    (htokens : s'.tokens.length = s.tokens.length + 1) (fuel : Nat) :
    Loop.run (engine.solo.more request) (engine.solo.pass request proposals)
        (s'.tokens.length + fuel) s₀ =
      Loop.run (engine.solo.more request) (engine.solo.pass request proposals) fuel s' := by
  obtain ⟨-, hroom, -, hrun⟩ := h.running hactive
  have hmore : engine.solo.more request s = true := decide_eq_true hroom
  rw [htokens, Nat.add_assoc, hrun, Nat.add_comm 1 fuel]
  exact Loop.run_next hmore hpass fuel

/-- The row of a session is the drawn token of the loop. -/
theorem Mirrors.drawn (h : Mirrors session s) : ∃ session' : Session engine,
    session'.bound = session.bound ∧ session'.active = session.active ∧
      Mirrors session' (drawn session.bound.request s) ∧
        engine.decode_alone session = engine.take_token session'.current session' := by
  refine ⟨{ session with
    state := (NativeEngine.drawn session.bound.request s).state
    current := (NativeEngine.drawn session.bound.request s).current
    random := (NativeEngine.drawn session.bound.request s).random }, rfl, rfl, ?_, ?_⟩
  · exact ⟨h.toSolo.drawn, rfl, h.tokens, rfl, rfl, h.finish_reason, h.text, h.connected⟩
  · rw [decode_alone, take_row, h.current, h.state]
    dsimp only
    rw [h.tokens, h.random]
    rfl

/-- **The steps of a session are passes of the loop.** A step that ends the session is the pass that
leaves the loop, for a stop token as for a client that refuses; the last token by `max_tokens` ends
the session and, one comparison later, the loop. -/
theorem Tracks.step (h : Tracks session.bound.request proposals s₀ session s)
    (hbudget : session.bound.request.sampling.thinking_budget_tokens = 0)
    (hactive : session.active = true) :
    ∃ s', Tracks session.bound.request proposals s₀ (engine.decode_alone session) s' := by
  obtain ⟨hlength, hroom, hstreamed, -⟩ := h.running hactive
  have hpass := @pass_solo _ _ _ proposals _ hbudget h.toSolo
  obtain ⟨session', hbound, hactive', hmirrors, hdecode⟩ := h.toMirrors.drawn
  have htokens : (drawn session.bound.request s).tokens.length = s.tokens.length := rfl
  have hfinish : (drawn session.bound.request s).finish_reason = .length :=
    h.finish_reason.symm.trans hlength
  have hcount : session.bound.request.on_delta.isSome = true →
      (drawn session.bound.request s).text.streamed_tokens =
        (drawn session.bound.request s).tokens.length := hstreamed
  -- from here on only the drawn token counts, and what it is drawn into is alike on both sides
  generalize drawn session.bound.request s = next at hpass hmirrors htokens hfinish hcount
  have hconnected : session'.text.stream_connected = true := by
    rw [hmirrors.connected, hmirrors.finish_reason, hfinish]
    rfl
  rw [emit_current_solo] at hpass
  rw [hdecode, take_token, hmirrors.current, hmirrors.tokens, hbound, hactive', hactive]
  -- a stop token ends both
  by_cases hstop : engine.is_stop_token next.current = true
  · rw [if_pos hstop] at hpass ⊢
    exact ⟨{ next with finish_reason := .stop, stopped_on_terminator := true },
      ⟨{ hmirrors.toSolo with }, hmirrors.state, rfl, hmirrors.random, rfl, rfl, hmirrors.text,
        hconnected⟩, fun hmore => absurd hmore Bool.false_ne_true, fun _ => h.leave hactive hpass⟩
  rw [if_neg hstop] at hpass ⊢
  obtain ⟨hsame, hrefused, hgo, hsent⟩ := stream_token_same hmirrors.text hconnected hcount
  have hsolo : Solo (sent session.bound.request next) := hmirrors.toSolo.sent
  rw [hgo] at hpass
  dsimp only
  rw [hrefused]
  cases hopen : (emitted session.bound.request next).2.stream_connected with
  | false =>
    -- the client has refused the delta
    rw [hopen, if_neg Bool.false_ne_true] at hpass
    exact ⟨{ sent session.bound.request next with finish_reason := .cancelled },
      ⟨{ hsolo with }, hmirrors.state, rfl, hmirrors.random, rfl, rfl, hsame,
        hsame.stream_connected.trans hopen⟩, fun hmore => absurd hmore Bool.false_ne_true,
        fun _ => h.leave hactive hpass⟩
  | true =>
    rw [hopen, if_pos rfl] at hpass
    have hlonger : (sent session.bound.request next).tokens.length = s.tokens.length + 1 := by
      rw [← htokens]
      exact List.length_append
    have hnext := h.next hactive hpass hlonger
    refine ⟨sent session.bound.request next, ⟨hsolo, hmirrors.state, rfl, hmirrors.random,
      rfl, hmirrors.finish_reason, hsame, ?_⟩, ?_, ?_⟩
    · exact (hsame.stream_connected.trans hopen).trans
        (hconnected.symm.trans hmirrors.connected)
    · intro hmore
      refine ⟨hmirrors.finish_reason.trans hfinish, ?_, hsent, hnext⟩
      have hne : (sent session.bound.request next).tokens.length ≠ session.bound.request.max_tokens :=
        of_decide_eq_true hmore
      omega
    -- the limit: the loop is at its end where the session has been marked
    · intro hdone
      have heq : (sent session.bound.request next).tokens.length = session.bound.request.max_tokens :=
        not_not.mp (of_decide_eq_false hdone)
      rw [decode_loop, ← heq]
      exact hnext 0

/-! ### The start -/

/-- The variables of the plain loop behind a prompt. -/
structure Starts (request : BatchRequest) (prompt_tokens : List Token) (s : DecodeState engine.solo) :
    Prop extends Solo s where
  state : s.state = engine.prompt_state prompt_tokens
  tokens : s.tokens = []
  finish_reason : s.finish_reason = .length
  random : s.random = engine.sampler.seeded request.sampling.seed
  current : s.current = prompt_tokens.getLastD 0
  text : s.text = {}

variable {prompt_tokens : List Token} {prefilled : Prefilled T}
  {cache : PromptCache engine.solo}

/-- Without a backend nothing is imported. -/
theorem starts_of_start_decode {persistent : engine.solo.persistent_backend.State}
    (hstate : prefilled.state = engine.prompt_state prompt_tokens)
    (h : engine.solo.start_decode request prompt_tokens prefilled persistent = .ok s) :
    Starts request prompt_tokens s := by
  obtain ⟨anchor, hanchor, h⟩ := bind_eq_ok.mp h
  obtain rfl : anchor = 0 := (Except.ok.inj hanchor).symm
  obtain ⟨s', hpersistent, h⟩ := bind_eq_ok.mp h
  obtain ⟨-, -, h⟩ := bind_eq_ok.mp h
  rw [start_persistent, if_neg fun hall => Bool.false_ne_true hall.2.1] at hpersistent
  cases hpersistent
  cases h
  refine ⟨⟨rfl, rfl, ?_, rfl, rfl, rfl, rfl, rfl⟩, hstate, rfl, rfl, rfl, rfl, rfl⟩
  have hhead : engine.solo.mtp_head.isSome = false := rfl
  dsimp only
  rw [hhead, Bool.and_false, Bool.false_and]

/-- The longest draft from the context is in range. -/
def CopiesInRange (engine : NativeEngine T) : Prop :=
  4 ≤ engine.environment.context_copy_max_tokens ∧ engine.environment.context_copy_max_tokens ≤ 24

/-- Without a backend, and without a thinking budget, nothing else of the configuration is
checked. -/
theorem exists_start_decode_solo (hcopy : engine.CopiesInRange)
    (hbudget : request.sampling.thinking_budget_tokens = 0) (prefilled : Prefilled T)
    (persistent : engine.solo.persistent_backend.State) :
    ∃ s, engine.solo.start_decode request prompt_tokens prefilled persistent = .ok s := by
  have hcheck : engine.solo.check_configuration request = .ok () := by
    rw [check_configuration, Except.throw_if_of_not, Except.throw_if_of_not, Except.throw_if_of_not]
    · rfl
    · exact fun hall => hall.1 hbudget
    · exact fun hall => Bool.false_ne_true hall.1
    · obtain ⟨hlow, hhigh⟩ := hcopy
      rintro (hsmall | hlarge)
      · exact absurd hlow (Nat.not_le.mpr hsmall)
      · exact absurd hhigh (Nat.not_le.mpr hlarge)
  have hanchor : engine.solo.anchor_tokens request = .ok 0 := rfl
  have hstart (s : DecodeState engine.solo) : engine.solo.start_persistent request s = .ok s := by
    rw [start_persistent, if_neg fun hall => Bool.false_ne_true hall.2.1]
  rw [start_decode, hanchor, Except.ok_bind, hstart, Except.ok_bind, hcheck]
  exact ⟨_, rfl⟩

/-- **The plain loop starts behind the prompt.** Nothing is cached, so the prompt is prefilled from
its first token; and what may throw on the way is in range. -/
theorem exists_begin_request_solo (hcopy : engine.CopiesInRange)
    (hfill : engine.solo.FillsWindows (prompt_tokens.length - 1) 0)
    (hbudget : request.sampling.thinking_budget_tokens = 0)
    (persistent : engine.solo.persistent_backend.State) :
    ∃ prefilled s cache st,
      engine.solo.begin_request request persistent prompt_tokens {} = (.ok (prefilled, s, cache), st) ∧
        Starts request prompt_tokens s ∧ prefilled.prefill_offset = 0 := by
  have hresume : engine.solo.resume prompt_tokens {} = (.ok { state := T.make_state }, {}) := rfl
  have hprefill := @prefill_of_mtp_head_eq_none _ engine.solo { state := T.make_state } prompt_tokens rfl
    hfill
  obtain ⟨s, hstart⟩ := @exists_start_decode_solo _ engine request prompt_tokens hcopy hbudget
    (prefilled (engine.solo.request_prefill_chunk (prompt_tokens.length - 1))
      (prompt_tokens.dropLast.drop 0) { state := T.make_state }) persistent
  rw [begin_request, hresume]
  dsimp only
  rw [hprefill]
  dsimp only
  rw [hstart]
  exact ⟨_, s, _, _, rfl, starts_of_start_decode rfl hstart, rfl⟩

/-- A session behind its prompt is at the start of the loop. -/
theorem Starts.tracks (hstart : Starts session.bound.request session.prompt_tokens s)
    (h : Prompted session) : Tracks session.bound.request proposals s session s := by
  refine ⟨⟨hstart.toSolo, ?_, ?_, ?_, ?_, ?_, ?_, ?_⟩, ?_, ?_⟩
  · rw [h.state, hstart.state]
  · rw [h.tokens, hstart.tokens]
  · rw [h.random, hstart.random]
  · rw [h.current, hstart.current]
  · rw [h.finish_reason, hstart.finish_reason]
  · rw [h.text, hstart.text]
    exact ⟨rfl, rfl, rfl⟩
  · rw [h.text, h.finish_reason]
    rfl
  · intro _
    rw [hstart.tokens, hstart.text]
    refine ⟨h.finish_reason, Nat.pos_of_ne_zero (validate_ok h.takes.validate).2, fun _ => rfl,
      fun fuel => ?_⟩
    rw [List.length_nil, Nat.zero_add]
  · intro hfinished
    cases h.active.symm.trans hfinished

/-! ### The whole run -/

theorem decode_alone_takes (session : Session engine) :
    (engine.decode_alone session).bound = session.bound ∧
      (engine.decode_alone session).prompt_tokens = session.prompt_tokens := by
  rw [decode_alone, take_row, take_token]
  split
  · exact ⟨rfl, rfl⟩
  · dsimp only
    split <;> exact ⟨rfl, rfl⟩

/-- **A session that has run by itself is where the plain loop is**, from the end of its prompt on.
By induction on the shared steps that it has been part of. -/
theorem Alone.tracks (h : Alone engine session) :
    engine.Takes session.bound session.prompt_tokens ∧
      ∀ s₀, Starts session.bound.request session.prompt_tokens s₀ →
        ∃ s, Tracks session.bound.request proposals s₀ session s := by
  induction h with
  | prompted h => exact ⟨h.takes, fun s₀ hstart => ⟨s₀, hstart.tracks h⟩⟩
  | step h hactive ih =>
    obtain ⟨htakes, htracks⟩ := ih
    obtain ⟨hbound, hprompt⟩ := decode_alone_takes _
    rw [hbound, hprompt]
    refine ⟨htakes, fun s₀ hstart => ?_⟩
    obtain ⟨s, htrack⟩ := htracks s₀ hstart
    exact htrack.step htakes.thinking_budget_tokens hactive

/-- The last bytes go out in either stream. -/
theorem Mirrors.flush_session (h : Mirrors session s) :
    let flushed := engine.flush_session session
    let stream := s.text.flush session.bound.request.on_delta
    flushed.tokens = s.tokens ∧ flushed.prompt_tokens = session.prompt_tokens ∧
      flushed.finish_reason = (if stream.1 then .cancelled else s.finish_reason) ∧
        flushed.text.deltas = stream.2.deltas := by
  have hconnected := h.connected
  rw [h.text.stream_connected, h.finish_reason] at hconnected
  rw [NativeEngine.flush_session]
  cases session.bound.request.on_delta with
  | none => exact ⟨h.tokens, rfl, h.finish_reason, h.text.deltas⟩
  | some sink =>
    dsimp only [TextStream.flush, TextStream.send]
    rw [h.finish_reason, h.text.pending_stream_bytes]
    have hopen : (s.text.stream_connected = true ∧ s.text.pending_stream_bytes ≠ []) ↔
        s.finish_reason ≠ .cancelled ∧ s.text.pending_stream_bytes ≠ [] := by
      rw [hconnected, decide_eq_true_iff]
    by_cases hflush : s.finish_reason ≠ .cancelled ∧ s.text.pending_stream_bytes ≠ []
    · rw [if_pos hflush, if_pos (hopen.mpr hflush)]
      refine ⟨h.tokens, rfl, ?_, ?_⟩
      · dsimp only
        rw [h.text.deltas]
        cases sink s.text.deltas s.text.pending_stream_bytes <;> rfl
      · exact congrArg (· ++ [s.text.pending_stream_bytes]) h.text.deltas
    · rw [if_neg hflush, if_neg (mt hopen.mp hflush)]
      exact ⟨h.tokens, rfl, h.finish_reason, h.text.deltas⟩

/-- **What the client is told.** The last bytes go out in the same way, and a client that refuses
them turns the end of either into a cancellation. -/
theorem Mirrors.session_result_eq (h : Mirrors session s) (hoffset : prefilled.prefill_offset = 0) :
    engine.session_result session =
      (engine.solo.finish session.bound.request session.prompt_tokens prefilled s cache).1 := by
  have hexport : engine.solo.export_for_cache s = s := by
    rw [export_for_cache, if_neg fun hall => Bool.false_ne_true (h.persistent_active.symm.trans hall.1)]
  obtain ⟨htokens, hprompt, hfinish, hdeltas⟩ := h.flush_session
  rw [session_result, finish, hexport]
  dsimp only
  rw [hoffset, h.mtp_rounds, h.mtp_accepted, h.mtp_fallbacks, h.thinking_budget_forced, htokens,
    hprompt, hfinish, hdeltas]
  rfl

/-- **A request that a batch has finished is answered as it would be alone.** -/
theorem Alone.complete_impl_solo (h : Alone engine session) (hfinished : session.active = false)
    (hcopy : engine.CopiesInRange)
    (hfill : engine.solo.FillsWindows (session.prompt_tokens.length - 1) 0) (proposals : Nat → Proposal)
    (persistent : engine.solo.persistent_backend.State) :
    (engine.solo.complete_impl session.bound.request proposals persistent {}).1 =
      .ok (engine.session_result session) := by
  obtain ⟨htakes, htracks⟩ := @Alone.tracks _ _ proposals _ h
  obtain ⟨prefilled, s₀, cache, st, hbegin, hstart, hoffset⟩ :=
    exists_begin_request_solo hcopy hfill htakes.thinking_budget_tokens persistent
  obtain ⟨s, htrack⟩ := htracks s₀ hstart
  have hvalid : engine.solo.validate session.bound.request = .ok session.prompt_tokens := htakes.validate
  rw [complete_impl, hvalid]
  dsimp only
  rw [hbegin]
  dsimp only
  rw [htrack.finished hfinished]
  exact congrArg Except.ok (htrack.toMirrors.session_result_eq hoffset).symm

end NativeEngine

namespace Executor

variable {engine : NativeEngine T} {x : Executor engine}

/-- **Batched decoding is solo decoding.** Whatever the clients asked for, and whenever: a request
that a batch has finished is told what the plain engine tells it alone. The plain engine does answer
it, as long as the longest draft is in range and its prefill fills its windows. -/
theorem batched_eq_solo (hT : T.DecodesApart) {Allowed : Executor engine → Option Leak → Prop}
    (h : Reaches engine Allowed x) {batch : List BoundRequest} {loop : Batch engine} {slot : Nat}
    {session : Session engine} (hworker : x.worker = .running batch loop (.collect slot))
    (hsession : loop.sessions[slot]? = some session) (hfinished : session.active = false)
    (hcopy : engine.CopiesInRange)
    (hfill : engine.solo.FillsWindows (session.prompt_tokens.length - 1) 0) (proposals : Nat → Proposal)
    (persistent : engine.solo.persistent_backend.State) :
    (engine.solo.complete_impl session.bound.request proposals persistent {}).1 =
      .ok (engine.session_result session) := by
  have hapart := apart_of_reaches hT h
  rw [hworker] at hapart
  cases hapart session (List.mem_of_getElem? hsession) with
  | prefilling hprefilling => cases hprefilling.active.symm.trans hfinished
  | alone halone => exact halone.complete_impl_solo hfinished hcopy hfill proposals persistent

open NativeEngine (speculating_engine counting_prompt three_drafts)

/-- The first of two requests behind the first shared step, and what it is told. -/
theorem batched_eq_solo_first : ∃ session : Session speculating_engine,
    session.bound = ⟨1, counting_prompt [1, 2, 3] 1⟩ ∧
      speculating_engine.session_result session = {
        text := [4]
        tokens := [4]
        prompt_tokens := 3
        finish_reason := .length
        deltas := [] } ∧
      (speculating_engine.solo.complete_impl session.bound.request three_drafts [] {}).1 =
        .ok (speculating_engine.session_result session) := by
  have hrun : Reaches speculating_engine (fun _ _ => True) _ :=
    .step (.step (.step (.step (.step .start trivial
      (.enqueue (.generate ⟨1, counting_prompt [1, 2, 3] 1⟩) rfl fun _ hold => absurd hold List.not_mem_nil)) trivial
      (.enqueue (.generate ⟨2, counting_prompt [7] 2⟩) rfl (by simp [Task.promise]))) trivial
      (.take_group rfl)) trivial (.extend_group (by decide) rfl)) trivial
      (.close_group (by decide) (Or.inr rfl))
  have hbegun := (((hrun.step trivial (.enter_group rfl)).step trivial (.begin_session rfl)).step
    trivial (.begin_session rfl)).step trivial .sessions_begun
  have hdecoded := ((((hbegun.step trivial (.decode (by decide) rfl)).step trivial .take_row).step
    trivial .take_row)).step trivial .rows_done
  exact ⟨_, rfl, rfl, @batched_eq_solo _ _ _ (consumed_decodesApart _) _ hdecoded _ _ 0 _ rfl rfl rfl
    ⟨by decide, by decide⟩ (fun hpacked => absurd hpacked Bool.false_ne_true) three_drafts []⟩

end Executor

end Qwen38
