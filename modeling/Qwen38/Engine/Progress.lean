import Qwen38.Engine.Serving

/-!
# What is never thrown

With a native backend that does not fail, a request whose arguments are in range returns
(`Qwen38.NativeEngine.complete_impl_ok_iff`): no pass of the loop throws, since as long as
speculation pays the companion takes the next row where a round or a step feeds it one
(`Qwen38.NativeEngine.Ready`), and a backend that is full hands its state back before the step. What
is left are the checks of the arguments and of the configuration, and the windows of a layer-major
prefill that its chunks do not fill.
-/

namespace Qwen38

open Except (bind_eq_ok throw_if_of_not)

variable {T : Target}

namespace MtpDecodeState

variable {state state' : MtpDecodeState T} {ctx tokens : List Token}

/-- Behind so many tokens the companion takes a row: its first one, or the next. -/
def Takes (state : MtpDecodeState T) (n : Nat) : Prop :=
  state = {} ∨ n ≠ 0 ∧ state.position_base ≠ none ∧ state.Next n

variable {n : Nat}

theorem Takes.next (h : state.Takes n) : state.Next n := by
  rcases h with rfl | ⟨-, -, hnext⟩
  · exact rfl
  · exact hnext

theorem takes_after (ctx : List Token) : (after T ctx).Takes ctx.length := by
  by_cases hshort : ctx.length ≤ 1
  · rw [after, if_pos hshort]
    exact Or.inl rfl
  · refine Or.inr ⟨by omega, ?_, next_after (List.ne_nil_of_length_pos (by omega))⟩
    rw [after, if_neg hshort]
    exact Option.some_ne_none 1

theorem Takes.feed (h : state.Takes ctx.length) (htokens : tokens ≠ []) :
    (state.feed ctx tokens).Takes (ctx ++ tokens).length := by
  refine Or.inr ⟨?_, Option.some_ne_none _, next_feed h.next tokens⟩
  exact Nat.ne_of_gt (List.length_pos_of_ne_nil (List.append_ne_nil_of_right_ne_nil _ htokens))

/-- A companion that is behind has not begun. -/
theorem Takes.eq_empty (h : state.Takes n)
    (hbehind : n = 0 ∨ ¬state.mtp_state_matches_target n = true) : state = {} := by
  refine h.resolve_right ?_
  rintro ⟨hn, hbase, hnext⟩
  refine hbehind.resolve_left hn ?_
  obtain ⟨base, hsome⟩ := Option.ne_none_iff_exists'.mp hbase
  rw [Next, hsome, Option.getD_some] at hnext
  rw [mtp_state_matches_target, hsome, decide_eq_true_eq]
  omega

theorem next_of_matches (h : state.mtp_state_matches_target n = true) : state.Next n := by
  rw [mtp_state_matches_target] at h
  split at h
  · cases h
  · next base hbase =>
    rw [decide_eq_true_eq] at h
    rw [Next, hbase, Option.getD_some]
    omega

end MtpDecodeState

namespace NativeEngine

variable {engine : NativeEngine T} {backend : engine.persistent_backend.Faithful}
  {request : BatchRequest} {proposals : Nat → Proposal} {s s' : DecodeState engine}
  {ctx prompt_tokens : List Token} {keeps : engine.ssd_prefix_cache.Keeps} {st : EngineState engine}

/-! ### The native backend -/

/-- **The row of a serial step is never refused.** -/
theorem exists_account_mtp_row (s : DecodeState engine) : ∃ s', engine.account_mtp_row s = .ok s' := by
  rw [account_mtp_row]
  split
  · exact ⟨s, rfl⟩
  · split
    · split
      · next hmatched =>
        rw [MtpDecodeState.consume_decode,
          MtpDecodeState.append_rows_eq (MtpDecodeState.next_of_matches hmatched.2)]
        exact ⟨_, rfl⟩
      · split <;> exact ⟨_, rfl⟩
    · exact ⟨_, rfl⟩

/-- A step behind which the companion can go on: it has taken the row, or has not begun. -/
theorem account_mtp_row_takes (haccount : engine.account_mtp_row s = .ok s')
    (hhead : engine.mtp_head.isSome = true) (hprofitable : s.mtp_profitable = true)
    (hpending : s.pending_mtp_streams = []) (htakes : s.mtp_state.Takes s.state.token_count)
    (hrow : s.state.token_count = 0 ∨
      engine.extend_cache_enabled = true ∧ s.previous_target_stream ≠ none) :
    s'.pending_mtp_streams = [] ∧ s'.mtp_state.Takes (s.state.token_count + 1) := by
  have hsome : ¬engine.mtp_head.isNone = true := by
    rw [Option.isNone_iff_eq_none]
    exact Option.isSome_iff_ne_none.mp hhead
  rw [account_mtp_row, if_neg hsome] at haccount
  split at haccount
  · split at haccount
    · next hmatched =>
      rw [MtpDecodeState.consume_decode, MtpDecodeState.append_rows_eq htakes.next] at haccount
      obtain rfl := Except.ok.inj haccount
      exact ⟨hpending, Or.inr ⟨Nat.succ_ne_zero _, Option.some_ne_none _,
        MtpDecodeState.next_append htakes.next _⟩⟩
    · next hskip =>
      have hbehind : ¬s.mtp_state.mtp_state_matches_target s.state.token_count = true :=
        fun hmatched => hskip ⟨hprofitable, hmatched⟩
      rw [if_neg (by simp [hpending, hbehind])] at haccount
      obtain rfl := Except.ok.inj haccount
      exact ⟨hpending, Or.inl (htakes.eq_empty (Or.inr hbehind))⟩
  · next hnone =>
    obtain rfl := Except.ok.inj haccount
    refine ⟨hpending, Or.inl (htakes.eq_empty (Or.inl (hrow.resolve_right ?_)))⟩
    rintro ⟨hextend, hprevious⟩
    obtain ⟨previous, hsome⟩ := Option.ne_none_iff_exists'.mp hprevious
    exact hnone previous hextend hsome

/-- The MLX model has the state, for good. -/
structure Serial (s : DecodeState engine) : Prop where
  persistent_active : s.persistent_active = false
  persistent_anchor_remaining : s.persistent_anchor_remaining = 0

variable (request) in
theorem Serial.begin_pass (h : Serial s) : Serial (engine.begin_pass request s) := by
  refine ⟨?_, (begin_pass_same request s).1.persistent_anchor_remaining.trans
    h.persistent_anchor_remaining⟩
  by_contra hactive
  rw [Bool.not_eq_false] at hactive
  cases h.persistent_active.symm.trans (persistent_active_of_begin_pass hactive)

theorem Accounted.serial (h : Accounted engine s s') (hserial : Serial s) : Serial s' :=
  ⟨h.persistent_active.trans hserial.persistent_active,
    h.same.persistent_anchor_remaining.trans hserial.persistent_anchor_remaining⟩

/-- The state a step leaves before its token goes out. -/
def chosen (engine : NativeEngine T) (request : BatchRequest) (ctx : List Token)
    (s : DecodeState engine) : DecodeState engine :=
  engine.choose_token request (T.last_step (ctx ++ [s.current])).logits (mlx_stepped ctx s)

variable (request) in
theorem chosen_same (ctx : List Token) (s : DecodeState engine) :
    SameOutput s (engine.chosen request ctx s) ∧ SameMtp s (engine.chosen request ctx s) ∧
      (Serial s → Serial (engine.chosen request ctx s)) := by
  obtain ⟨houtput, hmtp⟩ := mlx_stepped_same ctx s
  obtain ⟨houtput', hmtp', hremaining, hactive⟩ := choose_token_same request
    (T.last_step (ctx ++ [s.current])).logits (mlx_stepped ctx s)
  exact ⟨houtput.trans houtput', hmtp.trans hmtp', fun h =>
    ⟨hactive.trans h.persistent_active, hremaining.trans h.persistent_anchor_remaining⟩⟩

/-- **A serial step returns.** -/
theorem serial_step_eq (h : Live backend s ctx) (hserial : Serial s) :
    ∃ s₁, engine.account_mtp_row s = .ok s₁ ∧
      engine.serial_step request s = .ok (engine.emit_current request (engine.chosen request ctx s₁)) := by
  obtain ⟨s₁, haccount⟩ := exists_account_mtp_row s
  have haccounted := account_mtp_row_ok haccount
  have hserial₁ := haccounted.serial hserial
  have hstate := ((haccounted.live h).mlx hserial₁.persistent_active).1
  have hremaining : (engine.chosen request ctx s₁).persistent_anchor_remaining = 0 :=
    ((chosen_same request ctx s₁).2.2 hserial₁).persistent_anchor_remaining
  refine ⟨s₁, haccount, ?_⟩
  have hnative : engine.takes_native_step s₁ = false := by
    rw [takes_native_step, hserial₁.persistent_active, Bool.false_and]
  have hstep : engine.decode_step request s₁ = .ok (engine.chosen request ctx s₁) := by
    rw [decode_step, hnative, if_neg Bool.false_ne_true, mlx_step_eq hstate, count_anchor]
    exact if_pos hremaining
  rw [serial_step, haccount, Except.ok_bind, hstep]
  rfl

/-- As long as speculation pays and there is more to generate, the MLX model has the state and the
companion takes the next row. -/
structure Ready (engine : NativeEngine T) (request : BatchRequest) (s : DecodeState engine) :
    Prop where
  serial : engine.mtp_head.isSome = true → s.mtp_profitable = true → Serial s
  companion : engine.mtp_head.isSome = true → s.mtp_profitable = true →
    engine.more request s = true → s.pending_mtp_streams = [] ∧ s.mtp_state.Takes s.state.token_count

theorem Ready.begin_pass (hready : Ready engine request s) (h : Live backend s ctx) :
    Ready engine request (engine.begin_pass request s) := by
  have hcount : (engine.begin_pass request s).state.token_count = s.state.token_count :=
    (h.begin_pass request).token_count.trans h.token_count.symm
  obtain ⟨hsame, hmtp⟩ := begin_pass_same request s
  refine ⟨fun hhead hprofitable => ?_, fun hhead hprofitable hmore => ?_⟩
  · exact (hready.serial hhead (hmtp.mtp_profitable.symm.trans hprofitable)).begin_pass request
  · rw [more, hsame.tokens] at hmore
    rw [hmtp.pending_mtp_streams, hmtp.mtp_state, hcount]
    exact hready.companion hhead (hmtp.mtp_profitable.symm.trans hprofitable) hmore

theorem profitable_of_round (hround : engine.takes_serial_step request s = false) :
    s.mtp_profitable = true := by
  by_contra hnot
  rw [Bool.not_eq_true] at hnot
  rw [takes_serial_step, hnot] at hround
  cases hround

theorem tokens_of_emit_current (h : engine.emit_current request s = .next s') :
    s'.tokens = s.tokens ++ [s.current] := by
  simp only [emit_current] at h
  split at h
  · cases h
  · split at h
    · obtain rfl := Loop.Pass.next.inj h
      rfl
    · cases h

theorem Accounted.mtp_profitable (h : Accounted engine s s') : s'.mtp_profitable = s.mtp_profitable := by
  cases h <;> rfl

/-- With room for two tokens and speculation that pays, a step is serial where there is no stream,
or where the rows of the next one are kept. -/
theorem row_of_takes_serial_step (h : Live backend s ctx) (hmlx : s.persistent_active = false)
    (hserial : engine.takes_serial_step request s = true) (hprofitable : s.mtp_profitable = true)
    (hroom : s.tokens.length + 1 < request.max_tokens) :
    s.state.token_count = 0 ∨ engine.extend_cache_enabled = true ∧ s.previous_target_stream ≠ none := by
  rcases hprevious : s.previous_target_stream with _ | previous
  · have hstream := (h.mlx hmlx).2
    rw [hprevious, Target.stream?] at hstream
    split at hstream
    · next hctx =>
      rw [h.token_count, hctx]
      exact Or.inl rfl
    · cases hstream
  · have hone : request.max_tokens - s.tokens.length ≠ 1 := by omega
    rw [takes_serial_step, hprofitable, hprevious] at hserial
    simp only [Bool.not_true, Option.isNone_some, Bool.false_or, hone, decide_false,
      Bool.and_eq_true] at hserial
    exact Or.inr ⟨hserial.1, Option.some_ne_none _⟩

/-- **What a serial step leaves ready.** -/
theorem Ready.serial_step (h : Live backend s ctx) (hready : Ready engine request s)
    (hmore : engine.more request s = true)
    (hsteps : engine.takes_serial_step request s = true ∨ engine.mtp_head = none)
    (hanchor : s.persistent_active = true → s.persistent_anchor_remaining = 0)
    (hrun : engine.serial_step request s = .ok (.next s')) : Ready engine request s' := by
  by_cases hpays : engine.mtp_head.isSome = true ∧ s'.mtp_profitable = true
  -- whether speculation pays does not change in a serial step
  · have hprofits : s.mtp_profitable = true := by
      obtain ⟨s₁, s₂, haccounted, hstepped, -, -, hemit⟩ := serial_step_ok h hanchor hrun
      obtain ⟨-, hmtp, -⟩ := emit_current_same request s₂
      rw [← hemit, Loop.Pass.state] at hmtp
      rw [← haccounted.mtp_profitable, ← hstepped.mtp_profitable, ← hmtp.mtp_profitable]
      exact hpays.2
    have hserial := hready.serial hpays.1 hprofits
    obtain ⟨s₁, haccount, hstep⟩ := serial_step_eq h hserial
    have haccounted := account_mtp_row_ok haccount
    have hserial₁ := haccounted.serial hserial
    obtain ⟨houtput, hmtp, hchosen⟩ := chosen_same request ctx s₁
    have hlive : Live backend (engine.chosen request ctx s₁) (ctx ++ [s₁.current]) :=
      (live_mlx_stepped backend ctx hserial₁.persistent_active).choose_token request _
    obtain ⟨-, hmtp', hremaining, hactive⟩ := emit_current_same request (engine.chosen request ctx s₁)
    have hlive' : Live backend (engine.emit_current request (engine.chosen request ctx s₁)).state
        (ctx ++ [s₁.current]) := hlive.emit_current
    have hnext : engine.emit_current request (engine.chosen request ctx s₁) = .next s' :=
      Except.ok.inj (hstep.symm.trans hrun)
    rw [hnext, Loop.Pass.state] at hmtp' hremaining hactive hlive'
    refine ⟨fun _ _ => ⟨hactive.trans (hchosen hserial₁).persistent_active,
      hremaining.trans (hchosen hserial₁).persistent_anchor_remaining⟩, fun _ _ hmore' => ?_⟩
    have htokens : s'.tokens.length = s.tokens.length + 1 := by
      rw [tokens_of_emit_current hnext, houtput.tokens, haccounted.same.tokens, List.length_append,
        List.length_singleton]
    -- the loop goes on, so one more row was of use
    have hroom : s.tokens.length + 1 < request.max_tokens := by
      rw [more, decide_eq_true_eq, htokens] at hmore'
      exact hmore'
    obtain ⟨hpending, htakes⟩ := hready.companion hpays.1 hprofits hmore
    have hstepped := hsteps.resolve_right (Option.isSome_iff_ne_none.mp hpays.1)
    obtain ⟨hpending', htakes'⟩ := account_mtp_row_takes haccount hpays.1 hprofits hpending htakes
      (row_of_takes_serial_step h hserial.persistent_active hstepped hprofits hroom)
    rw [hmtp'.pending_mtp_streams, hmtp.pending_mtp_streams, hmtp'.mtp_state, hmtp.mtp_state]
    refine ⟨hpending', ?_⟩
    rw [h.token_count] at htakes'
    have hcount := hlive'.token_count
    rw [List.length_append, List.length_singleton] at hcount
    exact hcount ▸ htakes'
  · rw [not_and] at hpays
    exact ⟨fun hhead hprofit => absurd hprofit (hpays hhead),
      fun hhead hprofit => absurd hprofit (hpays hhead)⟩

/-- **What a round leaves ready.** -/
theorem Ready.mtp_round (hT : T.RowWise) (h : Live backend s ctx) (hready : Ready engine request s)
    (hmore : engine.more request s = true) {head : QwenMtpHead T}
    (hhead : engine.mtp_head = some head) {previous : T.Stream} {proposal : Proposal}
    (hround : engine.takes_serial_step request s = false)
    (hprevious : s.previous_target_stream = some previous)
    (hrun : engine.mtp_round request head previous proposal s = .ok (.next s')) :
    Ready engine request s' := by
  obtain ⟨hmlx, hstate, rfl, hctx⟩ := h.of_previous hprevious
  obtain ⟨drafts, mtp_state, hcommit, hlength, hend⟩ := mtp_round_ok hT hstate hrun
  have hcommitted := live_round_committed backend ctx hmlx proposal drafts mtp_state
  obtain ⟨hlive, hmtp, -, hactive⟩ := emit_round_live request
    (said T engine.is_stop_token ctx s.current drafts) hcommitted
  have hpays := profitable_of_round hround
  have hserial := hready.serial (hhead ▸ rfl) hpays
  obtain ⟨hpending, htakes⟩ := hready.companion (hhead ▸ rfl) hpays hmore
  rw [h.token_count] at htakes
  -- the companion is in step, so its commit returns
  rw [commit_companion_eq _ _ _ _ hlength htakes.next] at hcommit
  obtain rfl := Except.ok.inj hcommit
  cases end_round_ok hend with
  | fell_back =>
    -- speculation is given up, and nothing is asked of the companion any more
    exact ⟨fun _ hprofit => absurd hprofit Bool.false_ne_true,
      fun _ hprofit => absurd hprofit Bool.false_ne_true⟩
  | activated _ _ _ _ hactivate =>
    obtain ⟨_, -, hactivate⟩ := bind_eq_ok.mp hactivate
    obtain ⟨_, -, hactivate⟩ := bind_eq_ok.mp hactivate
    obtain rfl := Except.ok.inj hactivate
    exact ⟨fun _ hprofit => absurd hprofit Bool.false_ne_true,
      fun _ hprofit => absurd hprofit Bool.false_ne_true⟩
  | goes_on =>
    have hsettles := @emit_round_settles _ _ request
      (said T engine.is_stop_token ctx s.current drafts) (round_committed ctx proposal drafts
        (s.mtp_state.feed ctx (s.current :: kept T engine.is_stop_token ctx s.current drafts)) s)
    refine ⟨fun _ _ => ⟨hactive.trans hmlx, Nat.le_zero.mp (hserial.persistent_anchor_remaining ▸
      hsettles.persistent_anchor_remaining)⟩, fun _ _ _ =>
        ⟨hmtp.pending_mtp_streams.trans hpending, ?_⟩⟩
    rw [hmtp.mtp_state, hlive.token_count]
    exact htakes.feed (List.cons_ne_nil _ _)

/-- **What a pass leaves ready** for the next one. This is the step of the induction over the
loop. -/
theorem Ready.pass (hT : T.RowWise) (h : Live backend s ctx) (hready : Ready engine request s)
    (hmore : engine.more request s = true)
    (hanchor : s.persistent_active = true → s.persistent_anchor_remaining = 0)
    (hrun : engine.pass request proposals s = .ok (.next s')) : Ready engine request s' := by
  have hlive := h.begin_pass request
  have hready' := hready.begin_pass h
  obtain ⟨hsame, -⟩ := begin_pass_same request s
  have hmore' : engine.more request (engine.begin_pass request s) = true := by
    rwa [more, hsame.tokens]
  cases pass_ok hrun with
  | serial hsteps hstep =>
    exact hready'.serial_step hlive hmore' hsteps (fun hactive =>
      hsame.persistent_anchor_remaining.trans (hanchor (persistent_active_of_begin_pass hactive))) hstep
  | round hround hhead hprevious hrun => exact hready'.mtp_round hT hlive hmore' hhead hround hprevious hrun

/-! ### The request -/

theorem Started.ready {prefilled : Prefilled T} (hunanchored : engine.Unanchored request)
    (hconsumed : engine.Consumed prefilled prompt_tokens.dropLast)
    (h : Started backend request prompt_tokens prefilled s) : Ready engine request s := by
  have hway := h.way hunanchored hconsumed
  refine ⟨fun hhead _ => ⟨?_, ?_⟩, fun hhead _ _ => ⟨h.pending_mtp_streams, ?_⟩⟩
  · by_contra hactive
    rw [Bool.not_eq_false] at hactive
    exact Option.isSome_iff_ne_none.mp hhead (h.persistent_active hactive).2.2.1
  · exact hway.companion (Option.isSome_iff_ne_none.mp hhead)
  · rw [h.live.token_count, h.mtp_state, hconsumed.mtp_state hhead]
    exact MtpDecodeState.takes_after _

end NativeEngine

end Qwen38
