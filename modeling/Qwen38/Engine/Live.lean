import Qwen38.Engine.CacheEntry

/-!
# The live state

The state of a request is in the MLX model, or in the native backend when that is active.
`Qwen38.NativeEngine.Live` says what the one that has it has consumed. Every part of a pass
is described once: what it does to the live state and to what was said
(`Qwen38.NativeEngine.native_step_live`, `Qwen38.NativeEngine.mlx_step_live`,
`Qwen38.NativeEngine.run_round_ok`), and what the client is shown of it
(`Qwen38.NativeEngine.Shows`). A pass says a few tokens; the live state has consumed all of
them but the last (`Qwen38.NativeEngine.pass_live`).

The one thing a pass asks for is that the native backend is not active while anchor tokens
are left.
-/

namespace Qwen38

open Except (bind_eq_ok)

variable {T : Target}

namespace NativeEngine

variable {engine : NativeEngine T} (backend : engine.persistent_backend.Faithful)

/-- The one that has the state has consumed these tokens. -/
structure Live (s : DecodeState engine) (ctx : List Token) : Prop where
  token_count : s.state.token_count = ctx.length
  mlx : s.persistent_active = false →
    s.state = T.after ctx ∧ s.previous_target_stream = T.stream? ctx
  native : s.persistent_active = true → s.previous_target_stream = none ∧
    if s.persistent_reset then ctx = [] else ctx ≠ [] ∧ backend.Holds s.persistent ctx

variable {backend} {s s' : DecodeState engine} {ctx : List Token}

/-- Where there is a stream, the MLX model has the state. -/
theorem Live.of_previous {previous : T.Stream} (h : Live backend s ctx)
    (hprevious : s.previous_target_stream = some previous) :
    s.persistent_active = false ∧ s.state = T.after ctx ∧ previous = T.stream ctx ∧ ctx ≠ [] := by
  have hmlx : s.persistent_active = false := by
    by_contra hactive
    rw [Bool.not_eq_false] at hactive
    cases hprevious.symm.trans (h.native hactive).1
  obtain ⟨hstate, hstream⟩ := h.mlx hmlx
  rw [hprevious, Target.stream?] at hstream
  split at hstream
  · cases hstream
  · next hctx => exact ⟨hmlx, hstate, Option.some.inj hstream, hctx⟩

/-! ### Where ownership changes -/

/-- What activation leaves. -/
structure Activated (s s' : DecodeState engine) (persistent : engine.persistent_backend.State) :
    Prop where
  eq : s' = { s with
    state := { T.make_state with token_count := s.state.token_count }
    previous_target_stream := none
    persistent
    persistent_active := true
    persistent_reset := false }

theorem activate_persistent_ok (backend : engine.persistent_backend.Faithful)
    (hstate : s.state = T.after ctx) (hrun : engine.activate_persistent s = .ok s') :
    ∃ persistent, backend.Holds persistent ctx ∧ Activated s s' persistent := by
  obtain ⟨prepared, -, hrun⟩ := bind_eq_ok.mp hrun
  obtain ⟨persistent, himport, hrun⟩ := bind_eq_ok.mp hrun
  rw [hstate] at himport
  exact ⟨persistent, backend.import_state himport, ⟨(Except.ok.inj hrun).symm⟩⟩

/-- **The native backend takes over.** What is imported is the state of the context, so that the
backend holds the context; the state of the MLX model stays behind and is not looked at again until
the way back. -/
theorem Live.activate (h : Live backend s ctx) (hctx : ctx ≠ []) {persistent : engine.persistent_backend.State}
    (hholds : backend.Holds persistent ctx) (hactivated : Activated s s' persistent) :
    Live backend s' ctx := by
  obtain ⟨rfl⟩ := hactivated
  exact ⟨h.token_count, nofun, fun _ => ⟨rfl, hctx, hholds⟩⟩

/-- **The MLX model takes over.** What is exported is the state of the tokens that the backend
holds, and these are the context. -/
theorem Live.hand_back (h : Live backend s ctx) : Live backend (engine.hand_back s) ctx := by
  rw [NativeEngine.hand_back]
  split
  · next hfull =>
    obtain ⟨hactive, hreset, -⟩ := hfull
    obtain ⟨-, hholds⟩ := h.native hactive
    rw [if_neg hreset] at hholds
    obtain ⟨hstate, hstream⟩ := backend.export_state hholds.2
    refine ⟨?_, fun _ => ⟨hstate, ?_⟩, nofun⟩
    · rw [hstate, Target.token_count_after]
    · rw [hstream, Target.stream?, if_neg hholds.1]
  · exact h

/-! ### What comes before a step -/

/-- The same tokens, with the same end. -/
structure SameOutput (s s' : DecodeState engine) : Prop where
  tokens : s'.tokens = s.tokens
  finish_reason : s'.finish_reason = s.finish_reason
  stopped_on_terminator : s'.stopped_on_terminator = s.stopped_on_terminator
  text : s'.text = s.text

/-- No step yet. -/
structure SameRequest (s s' : DecodeState engine) : Prop extends SameOutput s s' where
  current : s'.current = s.current
  persistent_anchor_remaining : s'.persistent_anchor_remaining = s.persistent_anchor_remaining

/-- The same companion, with the same rows pending. -/
structure SameMtp (s s' : DecodeState engine) : Prop where
  mtp_state : s'.mtp_state = s.mtp_state
  mtp_profitable : s'.mtp_profitable = s.mtp_profitable
  mtp_cache_extendable : s'.mtp_cache_extendable = s.mtp_cache_extendable
  pending_mtp_streams : s'.pending_mtp_streams = s.pending_mtp_streams
  pending_mtp_tokens : s'.pending_mtp_tokens = s.pending_mtp_tokens

theorem SameOutput.trans {s₁ s₂ s₃ : DecodeState engine} (h : SameOutput s₁ s₂)
    (h' : SameOutput s₂ s₃) : SameOutput s₁ s₃ :=
  ⟨h'.tokens.trans h.tokens, h'.finish_reason.trans h.finish_reason,
    h'.stopped_on_terminator.trans h.stopped_on_terminator, h'.text.trans h.text⟩

theorem SameRequest.trans {s₁ s₂ s₃ : DecodeState engine} (h : SameRequest s₁ s₂)
    (h' : SameRequest s₂ s₃) : SameRequest s₁ s₃ :=
  ⟨h.toSameOutput.trans h'.toSameOutput, h'.current.trans h.current,
    h'.persistent_anchor_remaining.trans h.persistent_anchor_remaining⟩

theorem SameMtp.trans {s₁ s₂ s₃ : DecodeState engine} (h : SameMtp s₁ s₂) (h' : SameMtp s₂ s₃) :
    SameMtp s₁ s₃ :=
  ⟨h'.mtp_state.trans h.mtp_state, h'.mtp_profitable.trans h.mtp_profitable,
    h'.mtp_cache_extendable.trans h.mtp_cache_extendable,
    h'.pending_mtp_streams.trans h.pending_mtp_streams,
    h'.pending_mtp_tokens.trans h.pending_mtp_tokens⟩

variable {request : BatchRequest}

theorem hand_back_same (s : DecodeState engine) :
    SameRequest s (engine.hand_back s) ∧ SameMtp s (engine.hand_back s) := by
  rw [NativeEngine.hand_back]
  split <;> exact ⟨⟨⟨rfl, rfl, rfl, rfl⟩, rfl, rfl⟩, ⟨rfl, rfl, rfl, rfl, rfl⟩⟩

theorem Live.begin_thinking_intervention (h : Live backend s ctx) :
    Live backend (engine.begin_thinking_intervention request s) ctx := by
  simp only [NativeEngine.begin_thinking_intervention]
  repeat' split
  all_goals exact ⟨h.token_count, h.mlx, h.native⟩

theorem begin_thinking_intervention_same (s : DecodeState engine) :
    SameRequest s (engine.begin_thinking_intervention request s) ∧
      SameMtp s (engine.begin_thinking_intervention request s) := by
  simp only [NativeEngine.begin_thinking_intervention]
  repeat' split
  all_goals exact ⟨⟨⟨rfl, rfl, rfl, rfl⟩, rfl, rfl⟩, ⟨rfl, rfl, rfl, rfl, rfl⟩⟩

variable (request) in
theorem check_thinking_budget_same (s : DecodeState engine) :
    SameRequest s (engine.check_thinking_budget request s) ∧
      SameMtp s (engine.check_thinking_budget request s) := by
  rw [check_thinking_budget]
  split
  · exact begin_thinking_intervention_same s
  · exact ⟨⟨⟨rfl, rfl, rfl, rfl⟩, rfl, rfl⟩, ⟨rfl, rfl, rfl, rfl, rfl⟩⟩

variable (request) in
theorem begin_pass_same (s : DecodeState engine) :
    SameRequest s (engine.begin_pass request s) ∧ SameMtp s (engine.begin_pass request s) := by
  obtain ⟨hrequest, hmtp⟩ := hand_back_same s
  obtain ⟨hrequest', hmtp'⟩ := check_thinking_budget_same request (engine.hand_back s)
  exact ⟨hrequest.trans hrequest', hmtp.trans hmtp'⟩

variable (request) in
theorem Live.begin_pass (h : Live backend s ctx) :
    Live backend (engine.begin_pass request s) ctx := by
  rw [NativeEngine.begin_pass, check_thinking_budget]
  split
  · exact h.hand_back.begin_thinking_intervention
  · exact h.hand_back

/-- The native backend stays active or hands the state back. -/
theorem persistent_active_of_begin_pass
    (h : (engine.begin_pass request s).persistent_active = true) : s.persistent_active = true := by
  have hsame : ∀ s : DecodeState engine,
      (engine.begin_thinking_intervention request s).persistent_active = s.persistent_active := by
    intro s
    simp only [NativeEngine.begin_thinking_intervention]
    repeat' split
    all_goals rfl
  rw [NativeEngine.begin_pass, check_thinking_budget] at h
  have hback : (engine.hand_back s).persistent_active = true := by
    split at h
    · rwa [hsame] at h
    · exact h
  rw [NativeEngine.hand_back] at hback
  split at hback
  · cases hback
  · exact hback

/-! ### The companion's row -/

/-- What becomes of the row of the current token. -/
inductive Accounted (engine : NativeEngine T) (s : DecodeState engine) : DecodeState engine → Prop
  | none (h : engine.mtp_head = none) : Accounted engine s s
  | consumed {previous : T.Stream} {mtp_state : MtpDecodeState T}
      (hprevious : s.previous_target_stream = some previous)
      (hprofitable : s.mtp_profitable = true)
      (hmatched : s.mtp_state.mtp_state_matches_target s.state.token_count = true)
      (h : s.mtp_state.consume_decode previous s.current s.state.token_count = .ok mtp_state) :
      Accounted engine s { s with mtp_state }
  | pending {previous : T.Stream} (hprevious : s.previous_target_stream = some previous)
      (hskip : ¬(s.mtp_profitable = true ∧
        s.mtp_state.mtp_state_matches_target s.state.token_count = true))
      (h : s.pending_mtp_streams = [] ∧
          s.mtp_state.mtp_state_matches_target s.state.token_count = true ∨
        s.pending_mtp_streams ≠ []) :
      Accounted engine s { s with
        pending_mtp_streams := s.pending_mtp_streams ++ [previous]
        pending_mtp_tokens := s.pending_mtp_tokens ++ [s.current] }
  | dropped : Accounted engine s { s with mtp_cache_extendable := false }

theorem account_mtp_row_ok (hrun : engine.account_mtp_row s = .ok s') :
    Accounted engine s s' := by
  rw [account_mtp_row] at hrun
  split at hrun
  · next hhead =>
    obtain rfl := Except.ok.inj hrun
    exact .none (Option.isNone_iff_eq_none.mp hhead)
  · split at hrun
    · next previous hextend hprevious =>
      split at hrun
      · next hmatched =>
        obtain ⟨mtp_state, hconsume, hrun⟩ := bind_eq_ok.mp hrun
        obtain rfl := Except.ok.inj hrun
        exact .consumed hprevious hmatched.1 hmatched.2 hconsume
      · next hskip =>
        split at hrun
        · next hpending =>
          obtain rfl := Except.ok.inj hrun
          exact .pending hprevious hskip (hpending.imp_right And.left)
        · obtain rfl := Except.ok.inj hrun
          exact .dropped
    · obtain rfl := Except.ok.inj hrun
      exact .dropped

theorem Accounted.same (h : Accounted engine s s') : SameRequest s s' := by
  cases h <;> exact ⟨⟨rfl, rfl, rfl, rfl⟩, rfl, rfl⟩

theorem Accounted.forced_tokens (h : Accounted engine s s') :
    s'.forced_tokens = s.forced_tokens := by
  cases h <;> rfl

theorem Accounted.live (h : Accounted engine s s') (hlive : Live backend s ctx) :
    Live backend s' ctx := by
  cases h <;> exact ⟨hlive.token_count, hlive.mlx, hlive.native⟩

theorem Accounted.persistent_active (h : Accounted engine s s') :
    s'.persistent_active = s.persistent_active := by
  cases h <;> rfl

/-! ### Greedy requests -/

/-- A request that takes the argmax of every step: neither sampling nor a thinking budget, and
no minimum of tokens or anchors for the native backend. -/
structure Greedy (engine : NativeEngine T) (request : BatchRequest) : Prop where
  serial_only : request.sampling.serial_only = false
  persistent_min_tokens : engine.persistent_min_tokens request = 0
  anchor_tokens : engine.anchor_tokens request = .ok 0

/-- The next token is the argmax. -/
structure Chooses (engine : NativeEngine T) (request : BatchRequest) (s : DecodeState engine) :
    Prop where
  greedy : engine.Greedy request
  forced_tokens : s.forced_tokens = []
  persistent_anchor_remaining : s.persistent_anchor_remaining = 0

theorem Accounted.chooses (h : Accounted engine s s') (hchooses : Chooses engine request s) :
    Chooses engine request s' :=
  ⟨hchooses.greedy, h.forced_tokens.trans hchooses.forced_tokens,
    h.same.persistent_anchor_remaining.trans hchooses.persistent_anchor_remaining⟩

theorem Greedy.sampling (h : engine.Greedy request) :
    request.sampling.temperature ≤ 0 ∧ request.sampling.thinking_budget_tokens = 0 := by
  have hserial := h.serial_only
  rw [SamplingOptions.serial_only, Bool.or_eq_false_iff, SamplingOptions.sampling_enabled,
    decide_eq_false_iff_not, decide_eq_false_iff_not, not_not] at hserial
  exact ⟨not_lt.mp hserial.1, hserial.2⟩

theorem Greedy.begin_thinking_intervention (h : engine.Greedy request) (s : DecodeState engine) :
    engine.begin_thinking_intervention request s = s := by
  simp only [NativeEngine.begin_thinking_intervention, forced_thinking_suffix, h.sampling.2,
    if_true, or_true]

theorem Greedy.begin_pass (h : engine.Greedy request) (s : DecodeState engine) :
    engine.begin_pass request s = engine.hand_back s := by
  rw [NativeEngine.begin_pass, check_thinking_budget, h.begin_thinking_intervention, ite_self]

theorem Greedy.choose_token (h : engine.Greedy request) (hforced : s.forced_tokens = [])
    (logits : T.Logits) :
    engine.choose_token request logits s = { s with current := T.argmax logits } := by
  simp only [NativeEngine.choose_token, hforced, h.begin_thinking_intervention,
    Sampler.sample_token, if_pos h.sampling.1, ite_self]

/-! ### A serial step -/

/-- What a step says, and what it leaves alone. -/
structure Stepped (backend : engine.persistent_backend.Faithful) (ctx : List Token)
    (s s' : DecodeState engine) : Prop extends SameOutput s s', SameMtp s s' where
  live : Live backend s' (ctx ++ [s.current])

/-- **The native step.** The backend consumes the current token, which it holds behind the context,
and what it says is the greedy token of the model; with no minimum of tokens to say, that is the
next one. -/
theorem native_step_live (h : Live backend s ctx) (hactive : s.persistent_active = true)
    (hrun : engine.native_step request s = .ok s') :
    Stepped backend ctx s s' ∧ s'.persistent_active = true ∧
      s'.persistent_anchor_remaining = s.persistent_anchor_remaining ∧
      (engine.persistent_min_tokens request = 0 → s'.current = T.next (ctx ++ [s.current])) := by
  obtain ⟨⟨step, persistent⟩, hstep, hrun⟩ := bind_eq_ok.mp hrun
  obtain ⟨hprevious, hreset⟩ := h.native hactive
  -- a backend that is about to be reset holds nothing, and the context is empty
  have hholds : backend.Holds persistent (ctx ++ [s.current]) ∧
      step.token = T.next (ctx ++ [s.current]) := by
    split at hreset
    · next heq =>
      subst hreset
      rw [heq] at hstep
      exact backend.greedy_decode_reset hstep
    · next heq =>
      rw [Bool.not_eq_true] at heq
      rw [heq] at hstep
      exact backend.greedy_decode hreset.2 hstep
  obtain rfl := Except.ok.inj hrun
  refine ⟨⟨⟨rfl, rfl, rfl, rfl⟩, ⟨rfl, rfl, rfl, rfl, rfl⟩, ?_, ?_, fun _ => ⟨hprevious, ?_⟩⟩,
    hactive, rfl, fun hmin => ?_⟩
  · rw [List.length_append, List.length_singleton]
    exact congrArg (· + 1) h.token_count
  · rw [hactive]
    exact nofun
  · rw [if_neg Bool.false_ne_true]
    exact ⟨by simp, hholds.1⟩
  · rw [hmin]
    simp only [Nat.not_lt_zero, and_false, if_false]
    exact hholds.2

variable (request) in
theorem choose_token_same (logits : T.Logits) (s : DecodeState engine) :
    SameOutput s (engine.choose_token request logits s) ∧
      SameMtp s (engine.choose_token request logits s) ∧
      (engine.choose_token request logits s).persistent_anchor_remaining =
        s.persistent_anchor_remaining ∧
      (engine.choose_token request logits s).persistent_active = s.persistent_active := by
  simp only [NativeEngine.choose_token, NativeEngine.begin_thinking_intervention]
  repeat' split
  all_goals exact ⟨⟨rfl, rfl, rfl, rfl⟩, ⟨rfl, rfl, rfl, rfl, rfl⟩, rfl, rfl⟩

variable (request) in
theorem Live.choose_token (h : Live backend s ctx) (logits : T.Logits) :
    Live backend (engine.choose_token request logits s) ctx := by
  simp only [NativeEngine.choose_token, NativeEngine.begin_thinking_intervention]
  repeat' split
  all_goals exact ⟨h.token_count, h.mlx, h.native⟩

/-- One anchor less. -/
def counted_down (s : DecodeState engine) : DecodeState engine :=
  { s with persistent_anchor_remaining := s.persistent_anchor_remaining - 1 }

theorem counted_down_same (s : DecodeState engine) :
    SameOutput s (counted_down s) ∧ SameMtp s (counted_down s) :=
  ⟨⟨rfl, rfl, rfl, rfl⟩, ⟨rfl, rfl, rfl, rfl, rfl⟩⟩

theorem Live.counted_down (h : Live backend s ctx) : Live backend (counted_down s) ctx :=
  ⟨h.token_count, h.mlx, h.native⟩

/-- What becomes of the anchors. -/
inductive Counted (engine : NativeEngine T) (s : DecodeState engine) : DecodeState engine → Prop
  | none (h : s.persistent_anchor_remaining = 0) : Counted engine s s
  | one (h : s.persistent_anchor_remaining ≠ 0) : Counted engine s (counted_down s)
  | last {s' : DecodeState engine} (h : s.persistent_anchor_remaining = 1)
      (hrun : engine.activate_persistent (counted_down s) = .ok s') : Counted engine s s'

theorem count_anchor_ok (hrun : engine.count_anchor s = .ok s') : Counted engine s s' := by
  rw [count_anchor] at hrun
  split at hrun
  · next hzero =>
    obtain rfl := Except.ok.inj hrun
    exact .none hzero
  · next hpos =>
    simp only at hrun
    split at hrun
    · next hexpired => exact .last (by have := hexpired.1; omega) hrun
    · obtain rfl := Except.ok.inj hrun
      exact .one hpos

/-- The state after the step of the MLX model, before anything is chosen. -/
def mlx_stepped (ctx : List Token) (s : DecodeState engine) : DecodeState engine :=
  { s with
    state := T.after (ctx ++ [s.current])
    previous_target_stream := some (T.stream (ctx ++ [s.current])) }

theorem mlx_step_eq (hstate : s.state = T.after ctx) :
    engine.mlx_step request s = engine.count_anchor (engine.choose_token request
      (T.last_step (ctx ++ [s.current])).logits (mlx_stepped ctx s)) := by
  simp only [mlx_step, hstate, T.forward_decode_capture_after]
  rfl

theorem mlx_step_greedy (hchooses : Chooses engine request s) (hstate : s.state = T.after ctx) :
    engine.mlx_step request s = .ok { mlx_stepped ctx s with
      current := T.next (ctx ++ [s.current]) } := by
  have hforced : (mlx_stepped ctx s).forced_tokens = [] := hchooses.forced_tokens
  rw [mlx_step_eq hstate, hchooses.greedy.choose_token hforced, count_anchor]
  exact if_pos hchooses.persistent_anchor_remaining

theorem mlx_stepped_same (ctx : List Token) (s : DecodeState engine) :
    SameOutput s (mlx_stepped ctx s) ∧ SameMtp s (mlx_stepped ctx s) :=
  ⟨⟨rfl, rfl, rfl, rfl⟩, ⟨rfl, rfl, rfl, rfl, rfl⟩⟩

variable (backend ctx) in
theorem live_mlx_stepped (hmlx : s.persistent_active = false) :
    Live backend (mlx_stepped ctx s) (ctx ++ [s.current]) := by
  refine ⟨Target.token_count_after, fun _ => ⟨rfl, ?_⟩, fun hactive => ?_⟩
  · exact (Target.stream?_append_singleton ctx s.current).symm
  · exact absurd (hmlx.symm.trans hactive) Bool.false_ne_true

theorem Activated.same {persistent : engine.persistent_backend.State}
    (h : Activated s s' persistent) :
    SameOutput s s' ∧ SameMtp s s' ∧ s'.current = s.current ∧
      s'.persistent_anchor_remaining = s.persistent_anchor_remaining := by
  obtain ⟨rfl⟩ := h
  exact ⟨⟨rfl, rfl, rfl, rfl⟩, ⟨rfl, rfl, rfl, rfl, rfl⟩, rfl, rfl⟩

/-- **The step of the MLX model** consumes the current token. It may hand over to the native
backend, which then has the same context, and no anchors are left to it. -/
theorem mlx_step_live (backend : engine.persistent_backend.Faithful)
    (hstate : s.state = T.after ctx) (hmlx : s.persistent_active = false)
    (hrun : engine.mlx_step request s = .ok s') :
    Stepped backend ctx s s' ∧
      (s'.persistent_active = true → s'.persistent_anchor_remaining = 0) := by
  rw [mlx_step_eq hstate] at hrun
  have hchosen := (live_mlx_stepped backend ctx hmlx).choose_token request
    (T.last_step (ctx ++ [s.current])).logits
  obtain ⟨houtput, hmtp⟩ := mlx_stepped_same ctx s
  obtain ⟨houtput', hmtp', hanchor, hactive⟩ := choose_token_same request
    (T.last_step (ctx ++ [s.current])).logits (mlx_stepped ctx s)
  replace houtput := houtput.trans houtput'
  replace hmtp := hmtp.trans hmtp'
  replace hactive := hactive.trans hmlx
  -- what has been chosen plays no role in the hand-over
  generalize engine.choose_token request (T.last_step (ctx ++ [s.current])).logits
    (mlx_stepped ctx s) = s₁ at hrun hchosen houtput hmtp hactive
  cases count_anchor_ok hrun with
  | none hzero => exact ⟨⟨houtput, hmtp, hchosen⟩, fun _ => hzero⟩
  | one hpos =>
    obtain ⟨houtput', hmtp'⟩ := counted_down_same s₁
    exact ⟨⟨houtput.trans houtput', hmtp.trans hmtp', hchosen.counted_down⟩,
      fun hactive' => absurd (hactive.symm.trans hactive') Bool.false_ne_true⟩
  | last hone hactivate =>
    obtain ⟨houtput', hmtp'⟩ := counted_down_same s₁
    obtain ⟨persistent, hholds, hactivated⟩ :=
      activate_persistent_ok backend (hchosen.counted_down.mlx hactive).1 hactivate
    obtain ⟨houtput'', hmtp'', -, hanchor'⟩ := hactivated.same
    refine ⟨⟨(houtput.trans houtput').trans houtput'', (hmtp.trans hmtp').trans hmtp'',
      hchosen.counted_down.activate (by simp) hholds hactivated⟩, fun _ => hanchor'.trans ?_⟩
    rw [counted_down, hone]

/-- **A serial step**, before its token goes out, with whichever of the two has the live state. It
consumes the current token and chooses the next; the companion is given a row, or falls behind for
good. -/
theorem serial_step_ok (h : Live backend s ctx)
    (hanchor : s.persistent_active = true → s.persistent_anchor_remaining = 0)
    {r : Loop.Pass (DecodeState engine)} (hrun : engine.serial_step request s = .ok r) :
    ∃ s₁ s₂, Accounted engine s s₁ ∧ Stepped backend ctx s₁ s₂ ∧
      (s₂.persistent_active = true → s₂.persistent_anchor_remaining = 0) ∧
      (Chooses engine request s → s₂.current = T.next (ctx ++ [s.current])) ∧
        r = engine.emit_current request s₂ := by
  obtain ⟨s₁, haccount, hrun⟩ := bind_eq_ok.mp hrun
  have haccounted := account_mtp_row_ok haccount
  have hlive := haccounted.live h
  have hactive := haccounted.persistent_active
  have hremaining := haccounted.same.persistent_anchor_remaining
  obtain ⟨s₂, hstep, hrun⟩ := bind_eq_ok.mp hrun
  refine ⟨s₁, s₂, haccounted, ?_⟩
  obtain rfl := Except.ok.inj hrun
  rw [decode_step] at hstep
  split at hstep
  · next hnative =>
    rw [takes_native_step, Bool.and_eq_true, decide_eq_true_eq] at hnative
    obtain ⟨hstepped, -, hsame, hnext⟩ := native_step_live hlive hnative.1 hstep
    refine ⟨hstepped, fun _ => hsame.trans hnative.2, fun hchooses => ?_, rfl⟩
    rw [hnext hchooses.greedy.persistent_min_tokens, haccounted.same.current]
  · next hnative =>
    rw [takes_native_step, Bool.and_eq_true, decide_eq_true_eq, not_and] at hnative
    -- without anchors left a live backend would have taken the step
    have hmlx : s₁.persistent_active = false := by
      by_contra htrue
      rw [Bool.not_eq_false] at htrue
      exact hnative htrue (hremaining.trans (hanchor (hactive.symm.trans htrue)))
    obtain ⟨hstepped, hspent⟩ := mlx_step_live backend (hlive.mlx hmlx).1 hmlx hstep
    refine ⟨hstepped, hspent, fun hchooses => ?_, rfl⟩
    rw [mlx_step_greedy (haccounted.chooses hchooses) (hlive.mlx hmlx).1] at hstep
    obtain rfl := Except.ok.inj hstep
    exact congrArg (fun current => T.next (ctx ++ [current])) haccounted.same.current

/-! ### What the client is shown -/

/-- What is shown of the tokens of a pass, and what is cut off. -/
structure Shows (engine : NativeEngine T) (request : BatchRequest)
    (tokens emitted shown cut : List Token) (s : DecodeState engine) : Prop where
  eq : emitted = shown ++ cut
  tokens : s.tokens = tokens ++ shown
  is_stop_token : ∀ token ∈ shown, engine.is_stop_token token = false
  length_le : s.tokens.length ≤ request.max_tokens
  cut : s.finish_reason ≠ .stop ∧ s.stopped_on_terminator = false ∧
      (cut = [] ∨ s.tokens.length = request.max_tokens) ∨
    s.finish_reason = .stop ∧ s.stopped_on_terminator = true ∧
      s.tokens.length < request.max_tokens ∧
        ∃ token rest, cut = token :: rest ∧ engine.is_stop_token token = true

/-- The request has not come to its end. -/
structure Running (request : BatchRequest) (s : DecodeState engine) : Prop where
  room : s.tokens.length < request.max_tokens
  finish_reason : s.finish_reason = .length
  stopped_on_terminator : s.stopped_on_terminator = false

theorem Running.of_same (h : Running request s) (hsame : SameOutput s s') : Running request s' :=
  ⟨hsame.tokens ▸ h.room, hsame.finish_reason.trans h.finish_reason,
    hsame.stopped_on_terminator.trans h.stopped_on_terminator⟩

/-- **The token of a serial step.** -/
theorem emit_current_shows (h : Running request s) :
    ∃ shown cut, Shows engine request s.tokens [s.current] shown cut
      (engine.emit_current request s).state := by
  rw [emit_current]
  split
  · next hstop =>
    exact ⟨[], [s.current], rfl, (List.append_nil _).symm, nofun, Nat.le_of_lt h.room,
      Or.inr ⟨rfl, rfl, h.room, s.current, [], rfl, hstop⟩⟩
  · next hstop =>
    have hlength : (s.tokens ++ [s.current]).length ≤ request.max_tokens := by
      rw [List.length_append, List.length_singleton]
      exact h.room
    refine ⟨[s.current], [], rfl, ?_, ?_, ?_, Or.inl ?_⟩
    · dsimp only
      split <;> rfl
    · intro token htoken
      obtain rfl := List.mem_singleton.mp htoken
      exact Bool.eq_false_iff.mpr hstop
    · dsimp only
      split <;> exact hlength
    · dsimp only
      split
      · exact ⟨fun hend => (by cases h.finish_reason.symm.trans hend), h.stopped_on_terminator,
          Or.inl rfl⟩
      · exact ⟨nofun, h.stopped_on_terminator, Or.inl rfl⟩

variable (request) in
/-- **The tokens of a round** go out one by one until one of them ends the request: a stop token,
the last one that was asked for, or one that the client refuses. What comes behind it was said and
is cut. -/
theorem emit_round_shows (emitted : List Token) (s : DecodeState engine)
    (hroom : s.tokens.length ≤ request.max_tokens) (hfinish : s.finish_reason = .length)
    (hterminator : s.stopped_on_terminator = false) :
    ∃ shown cut, Shows engine request s.tokens emitted shown cut
      (engine.emit_round request emitted s).2 := by
  induction emitted generalizing s with
  | nil =>
    exact ⟨[], [], rfl, (List.append_nil _).symm, nofun, hroom,
      Or.inl ⟨fun hend => (by cases hfinish.symm.trans hend), hterminator, Or.inl rfl⟩⟩
  | cons token emitted ih =>
    rw [emit_round]
    split
    -- the limit is reached: the rest is cut
    · next hfull =>
      exact ⟨[], token :: emitted, rfl, (List.append_nil _).symm, nofun, hroom,
        Or.inl ⟨fun hend => (by cases hfinish.symm.trans hend), hterminator, Or.inr hfull⟩⟩
    · next hmore =>
      split
      -- a stop token ends the answer, and is cut itself
      · next hstop =>
        exact ⟨[], token :: emitted, rfl, (List.append_nil _).symm, nofun, hroom,
          Or.inr ⟨rfl, rfl, Nat.lt_of_le_of_ne hroom hmore, token, emitted, rfl, hstop⟩⟩
      · next hstop =>
        obtain ⟨shown, cut, heq, htokens, hstops, hlength, hcut⟩ := ih { s with
            tokens := s.tokens ++ [token]
            text := (s.text.emit_new_tokens engine.tokenizer request.on_delta
              (s.tokens ++ [token])).2 }
          (by simp only [List.length_append, List.length_singleton]; omega) hfinish hterminator
        refine ⟨token :: shown, cut, congrArg (token :: ·) heq, ?_, ?_, hlength, hcut⟩
        · exact htokens.trans (by simp)
        · intro token' htoken
          rcases List.mem_cons.mp htoken with rfl | htoken
          · exact Bool.eq_false_iff.mpr hstop
          · exact hstops token' htoken

variable (request) in
/-- The output of a round does not touch the state. -/
theorem emit_round_live (emitted : List Token) (h : Live backend s ctx) :
    Live backend (engine.emit_round request emitted s).2 ctx ∧
      SameMtp s (engine.emit_round request emitted s).2 ∧
      (engine.emit_round request emitted s).2.current = s.current ∧
      (engine.emit_round request emitted s).2.persistent_active = s.persistent_active := by
  induction emitted generalizing s with
  | nil => exact ⟨h, ⟨rfl, rfl, rfl, rfl, rfl⟩, rfl, rfl⟩
  | cons token emitted ih =>
    rw [emit_round]
    split
    · exact ⟨h, ⟨rfl, rfl, rfl, rfl, rfl⟩, rfl, rfl⟩
    · split
      · exact ⟨⟨h.token_count, h.mlx, h.native⟩, ⟨rfl, rfl, rfl, rfl, rfl⟩, rfl, rfl⟩
      · obtain ⟨hlive, hmtp, hcurrent, hactive⟩ := ih (s := { s with
            tokens := s.tokens ++ [token]
            text := (s.text.emit_new_tokens engine.tokenizer request.on_delta
              (s.tokens ++ [token])).2 }) ⟨h.token_count, h.mlx, h.native⟩
        exact ⟨hlive, ⟨hmtp.mtp_state, hmtp.mtp_profitable, hmtp.mtp_cache_extendable,
          hmtp.pending_mtp_streams, hmtp.pending_mtp_tokens⟩, hcurrent, hactive⟩

/-! ### A round -/

theorem length_of_draft_lazy_chain {head : QwenMtpHead T} {query_position draft_depth : Nat}
    {stream : T.Stream} {token : Token} {state : MtpDecodeState T} {drafts : List Token}
    (hrun : MtpDecodeState.draft_lazy_chain head query_position draft_depth stream token state =
      .ok drafts) : drafts.length = draft_depth := by
  induction draft_depth generalizing query_position stream token state drafts with
  | zero =>
    obtain rfl := Except.ok.inj hrun
    rfl
  | succ draft_depth ih =>
    obtain ⟨state', -, hrun⟩ := bind_eq_ok.mp hrun
    obtain ⟨rest, hrest, hrun⟩ := bind_eq_ok.mp hrun
    obtain rfl := Except.ok.inj hrun
    exact congrArg (· + 1) (ih hrest)

variable (engine) in
/-- A proposal is a number of drafts to finish a round with. -/
theorem exists_drafts (proposal : Proposal) (head : QwenMtpHead T) (previous : T.Stream)
    (s : DecodeState engine) :
    (∃ e, engine.run_round head previous proposal s = .error e) ∨
      ∃ drafts : List Token, (2 ≤ drafts.length ∧ drafts.length ≤ 24) ∧
        engine.run_round head previous proposal s =
          finish_greedy_mtp_round engine.is_stop_token engine.environment.batch_mtp_commit
            s.current previous s.state.token_count drafts s.mtp_state s.state := by
  cases proposal with
  | learned draft_depth h =>
    rw [run_round]
    simp only [run_greedy_mtp_round_reference]
    rw [Except.throw_if_of_not (by omega), Except.ok_bind]
    rcases hdrafts : MtpDecodeState.draft_lazy_chain head s.state.token_count draft_depth previous
      s.current s.mtp_state with e | drafts
    · exact Or.inl ⟨e, rfl⟩
    · have hlength := length_of_draft_lazy_chain hdrafts
      exact Or.inr ⟨drafts, by omega, rfl⟩
  | history drafts h => exact Or.inr ⟨drafts, h, rfl⟩
  | context_copy drafts h => exact Or.inr ⟨drafts, h, rfl⟩

/-- **What a round that returns has done.** Whichever proposal it started from, there are drafts
such that the round says what verifying them says, the state has consumed the kept ones, and the
companion has been committed for them. -/
theorem run_round_ok (hT : T.RowWise) (hstate : s.state = T.after ctx) {proposal : Proposal}
    {head : QwenMtpHead T} {r : MtpRoundStep T × ModelDecodeState T × MtpDecodeState T}
    (hrun : engine.run_round head (T.stream ctx) proposal s = .ok r) :
    ∃ drafts mtp_state,
      commit_companion engine.is_stop_token engine.environment.batch_mtp_commit ctx s.current
        drafts s.mtp_state = .ok mtp_state ∧ drafts.length ≤ 24 ∧
      r = (round_step T engine.is_stop_token ctx s.current drafts,
        T.after (ctx ++ s.current :: kept T engine.is_stop_token ctx s.current drafts),
        mtp_state) := by
  rcases exists_drafts engine proposal head (T.stream ctx) s with
    ⟨e, herror⟩ | ⟨drafts, ⟨htwo, hlength⟩, hfinish⟩
  · rw [herror] at hrun
    cases hrun
  · rw [hfinish, hstate, Target.token_count_after,
      finish_greedy_mtp_round_eq _ _ _ _ hT htwo hlength] at hrun
    rcases hcommit : commit_companion engine.is_stop_token engine.environment.batch_mtp_commit ctx
      s.current drafts s.mtp_state with e | mtp_state
    · rw [hcommit] at hrun
      cases hrun
    · rw [hcommit] at hrun
      exact ⟨drafts, mtp_state, hcommit, hlength, (Except.ok.inj hrun).symm⟩

/-- The state a round leaves before its tokens go out. -/
def round_committed (ctx : List Token) (proposal : Proposal) (drafts : List Token)
    (mtp_state : MtpDecodeState T) (s : DecodeState engine) : DecodeState engine :=
  { s with
    state := T.after (ctx ++ s.current :: kept T engine.is_stop_token ctx s.current drafts)
    mtp_state
    current := T.next (ctx ++ s.current :: kept T engine.is_stop_token ctx s.current drafts)
    previous_target_stream :=
      some (T.stream (ctx ++ s.current :: kept T engine.is_stop_token ctx s.current drafts))
    profitability_guard :=
      if proposal.isLearned then
        s.profitability_guard.observe (kept T engine.is_stop_token ctx s.current drafts).length
      else s.profitability_guard
    mtp_rounds := s.mtp_rounds + 1
    mtp_accepted := s.mtp_accepted + (kept T engine.is_stop_token ctx s.current drafts).length }

/-- What is left to do of a round. -/
def end_committed (engine : NativeEngine T) (request : BatchRequest) (ctx : List Token)
    (proposal : Proposal) (drafts : List Token) (mtp_state : MtpDecodeState T)
    (s : DecodeState engine) : Except String (Loop.Pass (DecodeState engine)) :=
  let r := engine.emit_round request (said T engine.is_stop_token ctx s.current drafts)
    (round_committed ctx proposal drafts mtp_state s)
  engine.end_round request proposal r.1 r.2

theorem mtp_round_ok (hT : T.RowWise) (hstate : s.state = T.after ctx) {proposal : Proposal}
    {head : QwenMtpHead T} {r : Loop.Pass (DecodeState engine)}
    (hrun : engine.mtp_round request head (T.stream ctx) proposal s = .ok r) :
    ∃ drafts mtp_state,
      commit_companion engine.is_stop_token engine.environment.batch_mtp_commit ctx s.current
        drafts s.mtp_state = .ok mtp_state ∧ drafts.length ≤ 24 ∧
      engine.end_committed request ctx proposal drafts mtp_state s = .ok r := by
  obtain ⟨r', hround, hrun⟩ := bind_eq_ok.mp hrun
  obtain ⟨drafts, mtp_state, hcommit, hlength, rfl⟩ := run_round_ok hT hstate hround
  exact ⟨drafts, mtp_state, hcommit, hlength, hrun⟩

variable (backend ctx) in
theorem live_round_committed (hmlx : s.persistent_active = false) (proposal : Proposal)
    (drafts : List Token) (mtp_state : MtpDecodeState T) :
    Live backend (round_committed ctx proposal drafts mtp_state s)
      (ctx ++ s.current :: kept T engine.is_stop_token ctx s.current drafts) := by
  refine ⟨Target.token_count_after, fun _ => ⟨rfl, ?_⟩, fun hactive => ?_⟩
  · rw [Target.stream?, if_neg (by simp)]
    rfl
  · exact absurd (hmlx.symm.trans hactive) Bool.false_ne_true

/-- Speculation does not pay. -/
def fallen_back (s : DecodeState engine) : DecodeState engine :=
  { s with mtp_profitable := false, mtp_fallbacks := s.mtp_fallbacks + 1 }

/-- How a round ends. -/
inductive Ended (engine : NativeEngine T) (request : BatchRequest) (refused : Bool)
    (s : DecodeState engine) : Loop.Pass (DecodeState engine) → Prop
  | stopped (h : s.finish_reason = .stop) : Ended engine request refused s (.leave s)
  | cancelled (h : s.finish_reason ≠ .stop) (hrefused : refused = true) :
      Ended engine request refused s (.leave { s with finish_reason := .cancelled })
  | fell_back (h : s.finish_reason ≠ .stop) (hrefused : refused = false) :
      Ended engine request refused s (.next (fallen_back s))
  | activated (h : s.finish_reason ≠ .stop) (hrefused : refused = false)
      (henabled : engine.persistent_enabled = true) (hmlx : s.persistent_active = false)
      {s' : DecodeState engine} (hrun : engine.activate_persistent (fallen_back s) = .ok s') :
      Ended engine request refused s (.next s')
  | goes_on (h : s.finish_reason ≠ .stop) (hrefused : refused = false) :
      Ended engine request refused s (.next s)

theorem end_round_ok {proposal : Proposal} {refused : Bool} {r : Loop.Pass (DecodeState engine)}
    (hrun : engine.end_round request proposal refused s = .ok r) :
    Ended engine request refused s r := by
  rw [end_round] at hrun
  split at hrun
  · next hstop =>
    obtain rfl := Except.ok.inj hrun
    exact .stopped hstop
  · next hgo =>
    split at hrun
    · next hrefused =>
      obtain rfl := Except.ok.inj hrun
      exact .cancelled hgo hrefused
    · next hrefused =>
      rw [Bool.not_eq_true] at hrefused
      split at hrun
      · simp only at hrun
        split at hrun
        · next hactivate =>
          obtain ⟨s', hactivated, hrun⟩ := bind_eq_ok.mp hrun
          obtain rfl := Except.ok.inj hrun
          exact .activated hgo hrefused hactivate.2.1 (Bool.not_eq_true _ ▸ hactivate.2.2)
            hactivated
        · obtain rfl := Except.ok.inj hrun
          exact .fell_back hgo hrefused
      · obtain rfl := Except.ok.inj hrun
        exact .goes_on hgo hrefused

/-- **The end of a round does not change what was consumed and said.** The drafts may be given up or
go on, and the native backend may take over; only who has the live state changes. -/
theorem Ended.spec {refused : Bool} {r : Loop.Pass (DecodeState engine)}
    (hended : Ended engine request refused s r) (h : Live backend s ctx) (hctx : ctx ≠ [])
    {tokens emitted shown cut : List Token}
    (hshows : Shows engine request tokens emitted shown cut s) :
    Live backend r.state ctx ∧ r.state.current = s.current ∧
      Shows engine request tokens emitted shown cut r.state := by
  obtain ⟨heq, htokens, hstops, hlength, hcut⟩ := hshows
  cases hended with
  | stopped hstop => exact ⟨h, rfl, heq, htokens, hstops, hlength, hcut⟩
  | cancelled hgo hrefused =>
    refine ⟨⟨h.token_count, h.mlx, h.native⟩, rfl, heq, htokens, hstops, hlength, Or.inl ?_⟩
    rcases hcut with ⟨-, hterminator, hlimit⟩ | ⟨hstop, -⟩
    · exact ⟨nofun, hterminator, hlimit⟩
    · exact absurd hstop hgo
  | fell_back hgo hrefused =>
    exact ⟨⟨h.token_count, h.mlx, h.native⟩, rfl, heq, htokens, hstops, hlength, hcut⟩
  | activated hgo hrefused henabled hmlx hrun =>
    have hfallen : Live backend (fallen_back s) ctx := ⟨h.token_count, h.mlx, h.native⟩
    obtain ⟨persistent, hholds, hactivated⟩ :=
      activate_persistent_ok backend (hfallen.mlx hmlx).1 hrun
    have hlive := hfallen.activate hctx hholds hactivated
    obtain ⟨rfl⟩ := hactivated
    exact ⟨hlive, rfl, heq, htokens, hstops, hlength, hcut⟩
  | goes_on hgo hrefused => exact ⟨h, rfl, heq, htokens, hstops, hlength, hcut⟩

/-! ### A pass -/

variable {proposals : Nat → Proposal}

/-- The parts of a pass. -/
inductive Passed (engine : NativeEngine T) (request : BatchRequest) (proposals : Nat → Proposal)
    (s : DecodeState engine) (r : Loop.Pass (DecodeState engine)) : Prop
  | serial (h : engine.takes_serial_step request s = true ∨ engine.mtp_head = none)
      (hrun : engine.serial_step request s = .ok r) : Passed engine request proposals s r
  | round {head : QwenMtpHead T} {previous : T.Stream}
      (h : engine.takes_serial_step request s = false) (hhead : engine.mtp_head = some head)
      (hprevious : s.previous_target_stream = some previous)
      (hrun : engine.mtp_round request head previous (proposals s.mtp_rounds) s = .ok r) :
      Passed engine request proposals s r

theorem pass_ok {r : Loop.Pass (DecodeState engine)}
    (hrun : engine.pass request proposals s = .ok r) :
    Passed engine request proposals (engine.begin_pass request s) r := by
  rw [pass] at hrun
  split at hrun
  · next hserial => exact .serial (Or.inl hserial) hrun
  · next hround =>
    rw [Bool.not_eq_true] at hround
    split at hrun
    · next head previous hhead hprevious => exact .round hround hhead hprevious hrun
    · next hnone =>
      rcases hhead : engine.mtp_head with _ | head
      · exact .serial (Or.inr hhead) hrun
      · rcases hprevious : (engine.begin_pass request s).previous_target_stream with _ | previous
        · simp [takes_serial_step, hprevious] at hround
        · exact absurd hprevious (hnone head previous hhead)

/-- What a pass consumes and says. -/
structure Advanced (backend : engine.persistent_backend.Faithful) (request : BatchRequest)
    (chooses speculates : Prop) (ctx : List Token) (current : Token) (tokens emitted shown cut : List Token)
    (s : DecodeState engine) : Prop where
  emitted_ne_nil : emitted ≠ []
  speculates : emitted.length ≠ 1 → speculates
  live : Live backend s (ctx ++ current :: emitted.dropLast)
  follows : chooses → Speculation.Follows T.next (ctx ++ [current]) emitted
  next_current : s.current = emitted.getLastD 0
  shows_tokens : Shows engine request tokens emitted shown cut s
  dropLast : ∀ token ∈ emitted.dropLast, engine.is_stop_token token = false

variable (request) in
theorem emit_current_same (s : DecodeState engine) :
    (engine.emit_current request s).state.current = s.current ∧
      SameMtp s (engine.emit_current request s).state ∧
      (engine.emit_current request s).state.persistent_anchor_remaining =
        s.persistent_anchor_remaining ∧
      (engine.emit_current request s).state.persistent_active = s.persistent_active := by
  simp only [emit_current]
  repeat' split
  all_goals exact ⟨rfl, ⟨rfl, rfl, rfl, rfl, rfl⟩, rfl, rfl⟩

theorem Live.emit_current (h : Live backend s ctx) :
    Live backend (engine.emit_current request s).state ctx := by
  simp only [NativeEngine.emit_current]
  repeat' split
  all_goals exact ⟨h.token_count, h.mlx, h.native⟩

theorem serial_step_advanced (h : Live backend s ctx) (hrunning : Running request s)
    (hanchor : s.persistent_active = true → s.persistent_anchor_remaining = 0)
    {r : Loop.Pass (DecodeState engine)} (hrun : engine.serial_step request s = .ok r) :
    ∃ emitted shown cut, Advanced backend request (Chooses engine request s) False ctx s.current
      s.tokens emitted shown cut r.state := by
  obtain ⟨s₁, s₂, haccounted, hstepped, -, hnext, rfl⟩ := serial_step_ok h hanchor hrun
  have hsame := haccounted.same
  obtain ⟨shown, cut, hshows⟩ := emit_current_shows
    ((hrunning.of_same hsame.toSameOutput).of_same hstepped.toSameOutput)
  rw [hstepped.tokens, hsame.tokens] at hshows
  refine ⟨[s₂.current], shown, cut, List.cons_ne_nil _ _, fun hlength => hlength rfl, ?_, fun hchooses => ?_,
    (emit_current_same request s₂).1, hshows, nofun⟩
  · rw [← hsame.current]
    exact hstepped.live.emit_current
  · exact Speculation.follows_singleton.mpr (hnext hchooses)

variable (backend) in
/-- **The tokens of a round**, when it is over. -/
theorem end_committed_advanced (hrunning : Running request s) (hmlx : s.persistent_active = false)
    {proposal : Proposal} {drafts : List Token} {mtp_state : MtpDecodeState T}
    {r : Loop.Pass (DecodeState engine)}
    (hend : engine.end_committed request ctx proposal drafts mtp_state s = .ok r) :
    ∃ shown cut, Advanced backend request (Chooses engine request s) True ctx s.current s.tokens
      (said T engine.is_stop_token ctx s.current drafts) shown cut r.state := by
  have hcommitted := live_round_committed backend ctx hmlx proposal drafts
    mtp_state
  obtain ⟨hlive, -, hcurrent, -⟩ := emit_round_live request
    (said T engine.is_stop_token ctx s.current drafts) hcommitted
  obtain ⟨shown, cut, hshows⟩ := emit_round_shows request
    (said T engine.is_stop_token ctx s.current drafts)
    (round_committed ctx proposal drafts mtp_state s) (Nat.le_of_lt hrunning.room)
    hrunning.finish_reason hrunning.stopped_on_terminator
  obtain ⟨hlive', hcurrent', hshows'⟩ :=
    (end_round_ok hend).spec hlive (by simp) hshows
  obtain ⟨hfollows, hstops⟩ := follows_emitted (T := T) engine.is_stop_token ctx s.current drafts
  refine ⟨shown, cut, by simp [said], fun _ => trivial, ?_, fun _ => hfollows, ?_, hshows', ?_⟩
  · rw [said, List.dropLast_concat]
    exact hlive'
  · rw [said, List.getLastD_concat, hcurrent', hcurrent]
    rfl
  · rwa [said, List.dropLast_concat]

theorem mtp_round_advanced (hT : T.RowWise) (h : Live backend s ctx)
    (hrunning : Running request s) {head : QwenMtpHead T} {previous : T.Stream}
    {proposal : Proposal} (hprevious : s.previous_target_stream = some previous)
    {r : Loop.Pass (DecodeState engine)}
    (hrun : engine.mtp_round request head previous proposal s = .ok r) :
    ∃ emitted shown cut, Advanced backend request (Chooses engine request s) True ctx s.current
      s.tokens emitted shown cut r.state := by
  obtain ⟨hmlx, hstate, rfl, -⟩ := h.of_previous hprevious
  obtain ⟨drafts, mtp_state, -, -, hend⟩ := mtp_round_ok hT hstate hrun
  exact ⟨_, end_committed_advanced backend hrunning hmlx hend⟩

/-- **A pass consumes what it says but for the last token**, which is the current one of the next
pass. This is the step from which every fact about a whole loop follows: a native step, a step of
the MLX model and a speculative round all advance the context by what they emit. -/
theorem pass_live (hT : T.RowWise) (h : Live backend s ctx) (hrunning : Running request s)
    (hanchor : s.persistent_active = true → s.persistent_anchor_remaining = 0)
    {r : Loop.Pass (DecodeState engine)} (hrun : engine.pass request proposals s = .ok r) :
    ∃ emitted shown cut, Advanced backend request
      (Chooses engine request (engine.begin_pass request s))
      (engine.takes_serial_step request (engine.begin_pass request s) = false)
      ctx s.current s.tokens emitted shown cut r.state := by
  have hlive := h.begin_pass request
  obtain ⟨hsame, -⟩ := begin_pass_same request s
  have hrunning' := hrunning.of_same hsame.toSameOutput
  rw [← hsame.current, ← hsame.tokens]
  cases pass_ok hrun with
  | serial _ hserial =>
    obtain ⟨emitted, shown, cut, hadvanced⟩ := serial_step_advanced hlive hrunning'
      (fun hactive => hsame.persistent_anchor_remaining.trans
        (hanchor (persistent_active_of_begin_pass hactive))) hserial
    exact ⟨emitted, shown, cut, { hadvanced with
      speculates := fun hlength => (hadvanced.speculates hlength).elim }⟩
  | round hround hhead hprevious hrun =>
    obtain ⟨emitted, shown, cut, hadvanced⟩ :=
      mtp_round_advanced hT hlive hrunning' hprevious hrun
    exact ⟨emitted, shown, cut, { hadvanced with speculates := fun _ => hround }⟩

/-! ### On the way -/

/-- The live state has consumed the prompt and what was said but for the last token. `cut` is
what was said and not shown: the limit has cut it off. -/
structure OnTrack (backend : engine.persistent_backend.Faithful) (request : BatchRequest)
    (prompt_tokens : List Token) (s : DecodeState engine) (cut : List Token) : Prop where
  live : Live backend s (prompt_tokens ++ s.tokens ++ cut).dropLast
  current : s.current = (prompt_tokens ++ s.tokens ++ cut).getLastD 0
  length_le : s.tokens.length ≤ request.max_tokens
  limit : cut = [] ∨ s.tokens.length = request.max_tokens
  finish_reason : s.finish_reason = .length
  stopped_on_terminator : s.stopped_on_terminator = false

variable {prompt_tokens cut : List Token}

theorem OnTrack.cut_eq_nil (h : OnTrack backend request prompt_tokens s cut)
    (hmore : engine.more request s = true) : cut = [] ∧ Running request s := by
  rw [more, decide_eq_true_eq] at hmore
  exact ⟨h.limit.resolve_right (Nat.ne_of_lt hmore), hmore, h.finish_reason,
    h.stopped_on_terminator⟩

/-- The prompt, what was said, and the tokens of a pass. -/
theorem append_emitted (hprompt : prompt_tokens ≠ []) {tokens emitted : List Token} {current : Token}
    (hcurrent : current = (prompt_tokens ++ tokens).getLastD 0) :
    (prompt_tokens ++ tokens).dropLast ++ current :: emitted =
      prompt_tokens ++ tokens ++ emitted := by
  have hne : prompt_tokens ++ tokens ≠ [] := fun hnil => hprompt (List.append_eq_nil_iff.mp hnil).1
  obtain ⟨ctx, token, hlast⟩ := (List.eq_nil_or_concat' _).resolve_left hne
  rw [hlast] at hcurrent ⊢
  rw [List.getLastD_concat] at hcurrent
  rw [List.dropLast_concat, hcurrent, List.append_assoc, List.singleton_append]

/-- **The live state after a pass** has consumed all but the last of the tokens, whichever of the
two has it. A full backend hands its state back at the start of the next pass. -/
theorem OnTrack.advance (hprompt : prompt_tokens ≠ [])
    (h : OnTrack backend request prompt_tokens s []) {chooses speculates : Prop}
    {emitted shown : List Token}
    (hadvanced : Advanced backend request chooses speculates (prompt_tokens ++ s.tokens).dropLast
      s.current s.tokens emitted shown cut s') :
    Live backend s' (prompt_tokens ++ s'.tokens ++ cut).dropLast ∧
      s'.current = (prompt_tokens ++ s'.tokens ++ cut).getLastD 0 := by
  have hcurrent := h.current
  rw [List.append_nil] at hcurrent
  have hall : prompt_tokens ++ s'.tokens ++ cut = prompt_tokens ++ s.tokens ++ emitted := by
    rw [hadvanced.shows_tokens.tokens, hadvanced.shows_tokens.eq]
    simp only [List.append_assoc]
  obtain ⟨front, token, rfl⟩ :=
    (List.eq_nil_or_concat' emitted).resolve_left hadvanced.emitted_ne_nil
  have hlive := hadvanced.live
  rw [List.dropLast_concat, append_emitted hprompt hcurrent] at hlive
  rw [hall, ← List.append_assoc, List.dropLast_concat, List.getLastD_concat]
  refine ⟨hlive, hadvanced.next_current.trans ?_⟩
  rw [List.getLastD_concat]

theorem finish_reason_of_emit_current (h : engine.emit_current request s = .next s') :
    s'.finish_reason = s.finish_reason := by
  simp only [emit_current] at h
  split at h
  · cases h
  · split at h
    · obtain rfl := Loop.Pass.next.inj h
      rfl
    · cases h

variable (request) in
theorem finish_reason_of_emit_round (emitted : List Token) (s : DecodeState engine) :
    (engine.emit_round request emitted s).2.finish_reason = s.finish_reason ∨
      (engine.emit_round request emitted s).2.finish_reason = .stop := by
  induction emitted generalizing s with
  | nil => exact Or.inl rfl
  | cons token emitted ih =>
    rw [emit_round]
    split
    · exact Or.inl rfl
    · split
      · exact Or.inr rfl
      · exact ih _

/-- **A request that goes on has not come to its end.** -/
theorem finish_reason_of_next (hT : T.RowWise) (h : Live backend s ctx)
    (hfinish : s.finish_reason = .length)
    (hanchor : s.persistent_active = true → s.persistent_anchor_remaining = 0)
    (hrun : engine.pass request proposals s = .ok (.next s')) : s'.finish_reason = .length := by
  have hlive := h.begin_pass request
  obtain ⟨hsame, -⟩ := begin_pass_same request s
  have hbegin := hsame.finish_reason.trans hfinish
  cases pass_ok hrun with
  | serial _ hserial =>
    obtain ⟨s₁, s₂, haccounted, hstepped, -, -, hemit⟩ := serial_step_ok hlive
      (fun hactive => hsame.persistent_anchor_remaining.trans
        (hanchor (persistent_active_of_begin_pass hactive))) hserial
    rw [finish_reason_of_emit_current hemit.symm, hstepped.finish_reason,
      haccounted.same.finish_reason, hbegin]
  | round hround hhead hprevious hrun =>
    obtain ⟨-, hstate, rfl, -⟩ := hlive.of_previous hprevious
    obtain ⟨drafts, mtp_state, -, -, hend⟩ := mtp_round_ok hT hstate hrun
    have hemit := finish_reason_of_emit_round request
      (said T engine.is_stop_token ctx (engine.begin_pass request s).current drafts)
      (round_committed ctx (proposals (engine.begin_pass request s).mtp_rounds) drafts mtp_state
        (engine.begin_pass request s))
    cases end_round_ok hend with
    | fell_back hgo => exact (hemit.resolve_right hgo).trans hbegin
    | activated hgo _ _ _ hrun =>
      obtain ⟨_, -, hrun⟩ := bind_eq_ok.mp hrun
      obtain ⟨_, -, hrun⟩ := bind_eq_ok.mp hrun
      obtain rfl := Except.ok.inj hrun
      exact (hemit.resolve_right hgo).trans hbegin
    | goes_on hgo => exact (hemit.resolve_right hgo).trans hbegin

/-- **The way goes on.** -/
theorem OnTrack.next (hT : T.RowWise) (hprompt : prompt_tokens ≠ [])
    (h : OnTrack backend request prompt_tokens s cut) (hmore : engine.more request s = true)
    (hanchor : s.persistent_active = true → s.persistent_anchor_remaining = 0)
    (hrun : engine.pass request proposals s = .ok (.next s')) :
    ∃ emitted shown cut', Advanced backend request
        (Chooses engine request (engine.begin_pass request s))
        (engine.takes_serial_step request (engine.begin_pass request s) = false)
        (prompt_tokens ++ s.tokens).dropLast s.current s.tokens emitted shown cut' s' ∧
      OnTrack backend request prompt_tokens s' cut' := by
  obtain ⟨rfl, hrunning⟩ := h.cut_eq_nil hmore
  have hlive := h.live
  rw [List.append_nil] at hlive
  obtain ⟨emitted, shown, cut', hadvanced⟩ := pass_live hT hlive hrunning hanchor hrun
  have hfinish := finish_reason_of_next hT hlive h.finish_reason hanchor hrun
  obtain ⟨hlive', hcurrent⟩ := h.advance hprompt hadvanced
  refine ⟨emitted, shown, cut', hadvanced, hlive', hcurrent, hadvanced.shows_tokens.length_le, ?_,
    hfinish, ?_⟩
  · rcases hadvanced.shows_tokens.cut with ⟨-, -, hcut⟩ | ⟨hstop, -⟩
    · exact hcut
    · cases hfinish.symm.trans hstop
  · rcases hadvanced.shows_tokens.cut with ⟨-, hterminator, -⟩ | ⟨hstop, -⟩
    · exact hterminator
    · cases hfinish.symm.trans hstop

/-! ### The start -/

/-- The variables of the loop before its first pass. -/
structure Started (backend : engine.persistent_backend.Faithful) (request : BatchRequest)
    (prompt_tokens : List Token) (prefilled : Prefilled T) (s : DecodeState engine) : Prop where
  live : Live backend s prompt_tokens.dropLast
  current : s.current = prompt_tokens.getLastD 0
  tokens : s.tokens = []
  finish_reason : s.finish_reason = .length
  stopped_on_terminator : s.stopped_on_terminator = false
  text : s.text = {}
  forced_tokens : s.forced_tokens = []
  persistent_anchor_remaining : engine.anchor_tokens request = .ok s.persistent_anchor_remaining
  persistent_active : s.persistent_active = true → s.persistent_anchor_remaining = 0 ∧
    engine.persistent_enabled = true ∧ engine.mtp_head = none ∧ request.sampling.serial_only = false
  mtp_state : s.mtp_state = prefilled.mtp_state
  mtp_profitable : s.mtp_profitable = true →
    request.sampling.serial_only = false ∧ engine.mtp_head.isSome = true
  mtp_cache_extendable : s.mtp_cache_extendable = true
  pending_mtp_streams : s.pending_mtp_streams = []
  pending_mtp_tokens : s.pending_mtp_tokens = []

theorem start_persistent_ok {ctx : List Token} (h : Live backend s ctx)
    (hmlx : s.persistent_active = false)
    (hreset : s.persistent_reset = true ↔ ctx = [] ∧ s.persistent_anchor_remaining = 0)
    (hrun : engine.start_persistent request s = .ok s') :
    Live backend s' ctx ∧ SameRequest s s' ∧ SameMtp s s' ∧ s'.forced_tokens = s.forced_tokens ∧
      (s'.persistent_active = true → s'.persistent_anchor_remaining = 0 ∧
        engine.persistent_enabled = true ∧ engine.mtp_head = none ∧
          request.sampling.serial_only = false) := by
  -- the backend is left aside
  have hstay : Live backend s ctx ∧ SameRequest s s ∧ SameMtp s s ∧
      s.forced_tokens = s.forced_tokens ∧ (s.persistent_active = true →
        s.persistent_anchor_remaining = 0 ∧ engine.persistent_enabled = true ∧
          engine.mtp_head = none ∧ request.sampling.serial_only = false) :=
    ⟨h, ⟨⟨rfl, rfl, rfl, rfl⟩, rfl, rfl⟩, ⟨rfl, rfl, rfl, rfl, rfl⟩, rfl,
      fun hactive => absurd (hmlx.symm.trans hactive) Bool.false_ne_true⟩
  rw [start_persistent] at hrun
  split at hrun
  · next henabled =>
    obtain ⟨hserial, henabled, hhead, hanchor⟩ := henabled
    rw [Option.isNone_iff_eq_none] at hhead
    rw [Bool.not_eq_true] at hserial
    split at hrun
    · next hnot =>
      -- there is a state to hand over
      have hctx : ctx ≠ [] := fun hnil => hnot (hreset.mpr ⟨hnil, hanchor⟩)
      obtain ⟨persistent, hholds, hactivated⟩ :=
        activate_persistent_ok backend (h.mlx hmlx).1 hrun
      have hlive := h.activate hctx hholds hactivated
      obtain ⟨rfl⟩ := hactivated
      exact ⟨hlive, ⟨⟨rfl, rfl, rfl, rfl⟩, rfl, rfl⟩, ⟨rfl, rfl, rfl, rfl, rfl⟩, rfl,
        fun _ => ⟨hanchor, henabled, hhead, hserial⟩⟩
    · next hresets =>
      rw [Classical.not_not] at hresets
      split at hrun
      · obtain ⟨persistent, -, hrun⟩ := bind_eq_ok.mp hrun
        obtain rfl := Except.ok.inj hrun
        -- nothing has been consumed: the backend resets itself instead
        obtain ⟨hctx, -⟩ := hreset.mp hresets
        have hprevious := (h.mlx hmlx).2
        subst hctx
        refine ⟨⟨h.token_count, nofun, fun _ => ⟨hprevious, ?_⟩⟩, ⟨⟨rfl, rfl, rfl, rfl⟩, rfl, rfl⟩,
          ⟨rfl, rfl, rfl, rfl, rfl⟩, rfl, fun _ => ⟨hanchor, henabled, hhead, hserial⟩⟩
        rw [if_pos hresets]
      · obtain rfl := Except.ok.inj hrun
        exact hstay
  · obtain rfl := Except.ok.inj hrun
    exact hstay

/-- **The start of the loop.** The prompt has been consumed but for its last token, which is the
current one; the native backend has either taken the state over or is left aside. -/
theorem start_decode_ok {prefilled : Prefilled T} {persistent : engine.persistent_backend.State}
    (h : engine.Consumed prefilled prompt_tokens.dropLast)
    (hrun : engine.start_decode request prompt_tokens prefilled persistent = .ok s) :
    Started backend request prompt_tokens prefilled s := by
  obtain ⟨anchor, hanchor, hrun⟩ := bind_eq_ok.mp hrun
  obtain ⟨s₁, hstart, hrun⟩ := bind_eq_ok.mp hrun
  obtain ⟨-, -, hrun⟩ := bind_eq_ok.mp hrun
  obtain rfl := Except.ok.inj hrun
  have hlive : Live backend ({
      state := prefilled.state
      mtp_state := prefilled.mtp_state
      previous_target_stream := prefilled.previous_target_stream
      current := prompt_tokens.getLastD 0
      random := engine.sampler.seeded request.sampling.seed
      persistent
      persistent_reset := prompt_tokens.length - 1 = 0 ∧ anchor = 0
      persistent_anchor_remaining := anchor
      mtp_profitable := !request.sampling.serial_only && engine.mtp_head.isSome &&
        prefilled.cached_mtp_profitability.getD true } : DecodeState engine)
      prompt_tokens.dropLast := by
    refine ⟨?_, fun _ => ⟨h.state, h.previous_target_stream⟩, nofun⟩
    rw [h.state, Target.token_count_after]
  have hreset : (prompt_tokens.length - 1 = 0 ∧ anchor = 0 : Prop) ↔
      prompt_tokens.dropLast = [] ∧ anchor = 0 := by
    rw [← List.length_eq_zero_iff, List.length_dropLast]
  obtain ⟨hlive', hsame, hmtp, hforced, hactive⟩ := start_persistent_ok hlive rfl
    (by rw [decide_eq_true_eq]; exact hreset) hstart
  refine ⟨hlive', hsame.current, hsame.tokens, hsame.finish_reason, hsame.stopped_on_terminator,
    hsame.text, hforced, ?_, hactive, hmtp.mtp_state, fun hprofitable => ?_,
    hmtp.mtp_cache_extendable, hmtp.pending_mtp_streams, hmtp.pending_mtp_tokens⟩
  · rw [hanchor, hsame.persistent_anchor_remaining]
  · rw [hmtp.mtp_profitable, Bool.and_eq_true, Bool.and_eq_true, Bool.not_eq_true'] at hprofitable
    exact hprofitable.1

theorem Started.on_track {prefilled : Prefilled T}
    (h : Started backend request prompt_tokens prefilled s) :
    OnTrack backend request prompt_tokens s [] := by
  refine ⟨?_, ?_, ?_, Or.inl rfl, h.finish_reason, h.stopped_on_terminator⟩
  · rw [h.tokens, List.append_nil, List.append_nil]
    exact h.live
  · rw [h.tokens, List.append_nil, List.append_nil]
    exact h.current
  · rw [h.tokens]
    exact Nat.zero_le _

end NativeEngine

end Qwen38
