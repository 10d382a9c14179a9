import Qwen38.Engine.Live

/-!
# Whole runs

What every pass of the loop keeps, carried to its end (`Qwen38.NativeEngine.decode_loop_ok`). The
live state has consumed the prompt and what was said but for the last token; as long as its entry
can be cached the companion was fed a beginning of that and the other rows are pending
(`Qwen38.NativeEngine.InStep`); and a greedy request says what plain generation says
(`Qwen38.NativeEngine.Plain`).

Anchor tokens do not go together with a companion: a round may hand the state to the native backend
while some are left, and the next step is then one of the MLX model on the state left behind.
-/

namespace Qwen38

open Except (bind_eq_ok)
open MtpDecodeState (rows_after after_feed next_after)

variable {T : Target}

namespace MtpDecodeState

variable {state state' : MtpDecodeState T} {n : Nat}

/-! ### Where the companion takes rows -/

theorem next_of_append_rows {message : String} {rows : List (MtpRow T)}
    (h : state.append_rows message rows n = .ok state') : state.Next n := by
  obtain ⟨_, hcheck, -⟩ := bind_eq_ok.mp h
  rw [Next]
  exact not_not.mp (Except.throw_if_eq_ok.mp hcheck)

theorem next_of_consume_decode {stream : T.Stream} {token : Token}
    (h : state.consume_decode stream token n = .ok state') : state.Next n :=
  next_of_append_rows h

theorem next_of_consume_accepted {batch : Bool} {stream : T.Stream} {streams : List T.Stream}
    {token : Token} {tokens : List Token}
    (h : state.consume_accepted batch (stream :: streams) (token :: tokens) n = .ok state') :
    state.Next n := by
  rw [consume_accepted] at h
  split at h
  · obtain ⟨-, -, h⟩ := bind_eq_ok.mp h
    exact next_of_append_rows h
  · obtain ⟨_, h, -⟩ := bind_eq_ok.mp h
    exact next_of_consume_decode h

end MtpDecodeState

/-! ### Pending rows -/

section Pending

variable {state : MtpDecodeState T} {streams : List T.Stream} {tokens ctx : List Token}

/-- Where the companion takes the next row, nothing is pending. -/
theorem PendingAfter.of_next (h : PendingAfter state streams tokens ctx) (hnext : state.Next ctx.length) :
    state = MtpDecodeState.after T ctx ∧ streams = [] ∧ tokens = [] := by
  obtain ⟨fed, rfl, rfl, rfl, htwo⟩ := h
  have hnil : tokens = [] := by
    by_contra hne
    have hlong := htwo hne
    have hpos := List.length_pos_of_ne_nil hne
    rw [MtpDecodeState.Next, MtpDecodeState.after, if_neg (by omega), Option.getD_some,
      MtpDecodeState.length_rows_after, List.length_drop, List.length_append] at hnext
    omega
  subst hnil
  exact ⟨by rw [List.append_nil], rfl, rfl⟩

/-- The companion takes rows. -/
theorem PendingAfter.feed (h : PendingAfter state streams tokens ctx) (hnext : state.Next ctx.length)
    (hctx : ctx ≠ []) {fed : List Token} (hfed : fed ≠ []) :
    PendingAfter (state.feed ctx fed) streams tokens (ctx ++ fed) := by
  obtain ⟨rfl, rfl, rfl⟩ := h.of_next hnext
  rw [after_feed hctx hfed]
  exact pendingAfter_nil _

/-- A row waits. -/
theorem PendingAfter.wait (h : PendingAfter state streams tokens ctx) (token : Token)
    (htwo : streams = [] → 2 ≤ ctx.length) :
    PendingAfter state (streams ++ [T.stream ctx]) (tokens ++ [token]) (ctx ++ [token]) := by
  obtain ⟨fed, rfl, rfl, rfl, hlong⟩ := h
  refine ⟨fed, (List.append_assoc ..).symm ▸ rfl, rfl, ?_, fun _ => ?_⟩
  · rw [MtpDecodeState.rows_after_append, List.map_append]
    rfl
  · by_cases htokens : tokens = []
    · subst htokens
      rw [List.append_nil] at htwo
      exact htwo rfl
    · exact hlong htokens

theorem length_of_matches (h : PendingAfter state streams tokens ctx)
    (hmatches : state.mtp_state_matches_target ctx.length = true) : 2 ≤ ctx.length := by
  obtain ⟨fed, rfl, rfl, -, -⟩ := h
  rw [MtpDecodeState.mtp_state_matches_target, MtpDecodeState.after] at hmatches
  rw [List.length_append]
  by_contra hshort
  rw [if_pos (by omega)] at hmatches
  cases hmatches

end Pending

namespace NativeEngine

variable {engine : NativeEngine T} {backend : engine.persistent_backend.Faithful}
  {request : BatchRequest} {proposals : Nat → Proposal} {s s' : DecodeState engine}
  {ctx prompt_tokens cut : List Token}

/-! ### Anchor and forced tokens -/

/-- No anchor token is added, and none is forced in a greedy request. -/
structure Settles (engine : NativeEngine T) (request : BatchRequest) (s s' : DecodeState engine) :
    Prop where
  persistent_anchor_remaining : s'.persistent_anchor_remaining ≤ s.persistent_anchor_remaining
  forced_tokens : engine.Greedy request → s.forced_tokens = [] → s'.forced_tokens = []

theorem Settles.trans {s₁ s₂ s₃ : DecodeState engine} (h : Settles engine request s₁ s₂)
    (h' : Settles engine request s₂ s₃) : Settles engine request s₁ s₃ :=
  ⟨h'.persistent_anchor_remaining.trans h.persistent_anchor_remaining,
    fun hgreedy hforced => h'.forced_tokens hgreedy (h.forced_tokens hgreedy hforced)⟩

theorem settles_of_eq (hremaining : s'.persistent_anchor_remaining = s.persistent_anchor_remaining)
    (hforced : s'.forced_tokens = s.forced_tokens) : Settles engine request s s' :=
  ⟨hremaining.le, fun _ h => hforced.trans h⟩

variable (request) in
theorem begin_pass_settles (s : DecodeState engine) :
    Settles engine request s (engine.begin_pass request s) := by
  have hback : Settles engine request s (engine.hand_back s) := by
    rw [NativeEngine.hand_back]
    split <;> exact settles_of_eq rfl rfl
  refine ⟨(begin_pass_same request s).1.persistent_anchor_remaining.le, fun hgreedy hforced => ?_⟩
  rw [hgreedy.begin_pass]
  exact hback.forced_tokens hgreedy hforced

theorem activate_persistent_settles (hrun : engine.activate_persistent s = .ok s') :
    Settles engine request s s' := by
  obtain ⟨_, -, hrun⟩ := bind_eq_ok.mp hrun
  obtain ⟨_, -, hrun⟩ := bind_eq_ok.mp hrun
  obtain rfl := Except.ok.inj hrun
  exact settles_of_eq rfl rfl

variable (request) in
theorem choose_token_settles (logits : T.Logits) (s : DecodeState engine) :
    Settles engine request s (engine.choose_token request logits s) := by
  obtain ⟨-, -, hremaining, -⟩ := choose_token_same request logits s
  refine ⟨hremaining.le, fun hgreedy hforced => ?_⟩
  rw [hgreedy.choose_token hforced]
  exact hforced

theorem count_anchor_settles (hrun : engine.count_anchor s = .ok s') : Settles engine request s s' := by
  have hdown : Settles engine request s (counted_down s) := ⟨Nat.sub_le _ _, fun _ h => h⟩
  cases count_anchor_ok hrun with
  | none => exact settles_of_eq rfl rfl
  | one => exact hdown
  | last _ hactivate => exact hdown.trans (activate_persistent_settles hactivate)

theorem decode_step_settles (hrun : engine.decode_step request s = .ok s') :
    Settles engine request s s' := by
  rw [decode_step] at hrun
  split at hrun
  · obtain ⟨_, -, hrun⟩ := bind_eq_ok.mp hrun
    obtain rfl := Except.ok.inj hrun
    exact settles_of_eq rfl rfl
  · have hstepped : ∀ (step : TargetDecodeStep T) (state : ModelDecodeState T),
        Settles engine request s { s with state, previous_target_stream := some step.pre_mixer_stream } :=
      fun _ _ => settles_of_eq rfl rfl
    exact (hstepped _ _).trans ((choose_token_settles request _ _).trans (count_anchor_settles hrun))

theorem emit_current_settles (s : DecodeState engine) :
    Settles engine request s (engine.emit_current request s).state := by
  simp only [emit_current]
  repeat' split
  all_goals exact settles_of_eq rfl rfl

theorem emit_round_settles (emitted : List Token) (s : DecodeState engine) :
    Settles engine request s (engine.emit_round request emitted s).2 := by
  induction emitted generalizing s with
  | nil => exact settles_of_eq rfl rfl
  | cons token emitted ih =>
    rw [emit_round]
    split
    · exact settles_of_eq rfl rfl
    · split
      · exact settles_of_eq rfl rfl
      · have hsaid : Settles engine request s { s with
            tokens := s.tokens ++ [token]
            text := (s.text.emit_new_tokens engine.tokenizer request.on_delta
              (s.tokens ++ [token])).2 } := settles_of_eq rfl rfl
        exact hsaid.trans (ih _)

theorem end_round_settles {proposal : Proposal} {refused : Bool} {r : Loop.Pass (DecodeState engine)}
    (hrun : engine.end_round request proposal refused s = .ok r) :
    Settles engine request s r.state := by
  have hfallen : Settles engine request s (fallen_back s) := settles_of_eq rfl rfl
  cases end_round_ok hrun with
  | stopped => exact settles_of_eq rfl rfl
  | cancelled => exact settles_of_eq rfl rfl
  | fell_back => exact hfallen
  | activated _ _ _ _ hactivate => exact hfallen.trans (activate_persistent_settles hactivate)
  | goes_on => exact settles_of_eq rfl rfl

theorem pass_settles {r : Loop.Pass (DecodeState engine)}
    (hrun : engine.pass request proposals s = .ok r) : Settles engine request s r.state := by
  refine (begin_pass_settles request s).trans ?_
  cases pass_ok hrun with
  | serial _ hserial =>
    obtain ⟨s₁, haccount, hrun⟩ := bind_eq_ok.mp hserial
    obtain ⟨s₂, hstep, hrun⟩ := bind_eq_ok.mp hrun
    obtain rfl := Except.ok.inj hrun
    have haccounted := account_mtp_row_ok haccount
    exact (settles_of_eq haccounted.same.persistent_anchor_remaining haccounted.forced_tokens).trans
      ((decode_step_settles hstep).trans (emit_current_settles s₂))
  | round _ _ _ hround =>
    obtain ⟨⟨step, state, mtp_state⟩, -, hend⟩ := bind_eq_ok.mp hround
    have hcommitted : ∀ (guard : MtpProfitabilityGuard) (rounds accepted : Nat),
        Settles engine request (engine.begin_pass request s) { engine.begin_pass request s with
          state
          mtp_state
          current := step.next_current_token
          previous_target_stream := some step.next_target_stream
          profitability_guard := guard
          mtp_rounds := rounds
          mtp_accepted := accepted } := fun _ _ _ => settles_of_eq rfl rfl
    exact (hcommitted _ _ _).trans ((emit_round_settles step.emitted_tokens _).trans
      (end_round_settles hend))

/-! ### The companion -/

/-- The companion is in step as long as the entry of the request can be cached. -/
def InStep (s : DecodeState engine) (ctx : List Token) : Prop :=
  engine.mtp_head.isSome = true → s.mtp_cache_extendable = true →
    PendingAfter s.mtp_state s.pending_mtp_streams s.pending_mtp_tokens ctx

theorem InStep.same (h : InStep s ctx) (hsame : SameMtp s s') : InStep s' ctx := by
  intro hhead hextendable
  rw [hsame.mtp_state, hsame.pending_mtp_streams, hsame.pending_mtp_tokens]
  exact h hhead (hsame.mtp_cache_extendable.symm.trans hextendable)

/-- **The row of a serial step.** -/
theorem InStep.accounted (h : InStep s ctx) (hlive : Live backend s ctx)
    (haccounted : Accounted engine s s') : InStep s' (ctx ++ [s.current]) := by
  intro hhead hextendable
  cases haccounted with
  | none hnone =>
    rw [hnone] at hhead
    cases hhead
  | consumed hprevious _ hmatched hconsume =>
    obtain ⟨-, -, rfl, hctx⟩ := hlive.of_previous hprevious
    rw [hlive.token_count] at hconsume
    have hnext := MtpDecodeState.next_of_consume_decode hconsume
    rw [MtpDecodeState.consume_decode_eq hnext] at hconsume
    obtain rfl := Except.ok.inj hconsume
    exact (h hhead hextendable).feed hnext hctx (List.cons_ne_nil _ _)
  | pending hprevious _ hpending =>
    obtain ⟨-, -, rfl, -⟩ := hlive.of_previous hprevious
    have hbefore := h hhead hextendable
    refine hbefore.wait s.current fun hnil => ?_
    obtain ⟨-, hmatched⟩ := hpending.resolve_right fun hne => hne hnil
    rw [hlive.token_count] at hmatched
    exact length_of_matches hbefore hmatched
  | dropped => cases hextendable

/-- The end of a round leaves the companion as it is. -/
theorem InStep.end_round {proposal : Proposal} {refused : Bool} {r : Loop.Pass (DecodeState engine)}
    (h : InStep s ctx) (hrun : engine.end_round request proposal refused s = .ok r) :
    InStep r.state ctx := by
  cases end_round_ok hrun with
  | stopped => exact h
  | cancelled => exact h
  | fell_back => exact h
  | activated _ _ _ _ hactivate =>
    obtain ⟨_, -, hactivate⟩ := bind_eq_ok.mp hactivate
    obtain ⟨_, -, hactivate⟩ := bind_eq_ok.mp hactivate
    obtain rfl := Except.ok.inj hactivate
    exact h
  | goes_on => exact h

/-- **The rows of a round.** -/
theorem InStep.round (h : InStep s ctx) (hctx : ctx ≠ []) (proposal : Proposal) {drafts : List Token}
    {mtp_state : MtpDecodeState T} (hlength : drafts.length ≤ 24)
    (hcommit : commit_companion engine.is_stop_token engine.environment.batch_mtp_commit ctx s.current
      drafts s.mtp_state = .ok mtp_state) :
    InStep (round_committed ctx proposal drafts mtp_state s)
      (ctx ++ s.current :: kept T engine.is_stop_token ctx s.current drafts) := by
  intro hhead hextendable
  have hnext := MtpDecodeState.next_of_consume_accepted hcommit
  rw [commit_companion_eq _ _ _ _ hlength hnext] at hcommit
  obtain rfl := Except.ok.inj hcommit
  exact (h hhead hextendable).feed hnext hctx (List.cons_ne_nil _ _)

/-! ### A pass -/

/-- What a pass leaves, next to what it says. -/
structure Kept (backend : engine.persistent_backend.Faithful) (request : BatchRequest)
    (chooses speculates : Prop) (ctx : List Token) (current : Token)
    (tokens emitted shown cut : List Token) (s : DecodeState engine) : Prop
    extends Advanced backend request chooses speculates ctx current tokens emitted shown cut s where
  in_step : InStep s (ctx ++ current :: emitted.dropLast)
  anchors : s.persistent_active = true → s.persistent_anchor_remaining = 0

theorem pass_kept (hT : T.RowWise) (h : Live backend s ctx) (hrunning : Running request s)
    (hanchor : s.persistent_active = true → s.persistent_anchor_remaining = 0)
    (hcompanion : engine.mtp_head ≠ none → s.persistent_anchor_remaining = 0) (hstep : InStep s ctx)
    {r : Loop.Pass (DecodeState engine)} (hrun : engine.pass request proposals s = .ok r) :
    ∃ emitted shown cut, Kept backend request (Chooses engine request (engine.begin_pass request s))
      (engine.takes_serial_step request (engine.begin_pass request s) = false)
      ctx s.current s.tokens emitted shown cut r.state := by
  have hlive := h.begin_pass request
  obtain ⟨hsame, hmtp⟩ := begin_pass_same request s
  have hrunning' := hrunning.of_same hsame.toSameOutput
  have hstep' := hstep.same hmtp
  have hsettles := pass_settles hrun
  rw [← hsame.current, ← hsame.tokens]
  cases pass_ok hrun with
  | serial _ hserial =>
    have hanchor' : (engine.begin_pass request s).persistent_active = true →
        (engine.begin_pass request s).persistent_anchor_remaining = 0 := fun hactive =>
      hsame.persistent_anchor_remaining.trans (hanchor (persistent_active_of_begin_pass hactive))
    obtain ⟨emitted, shown, cut, hadvanced⟩ := serial_step_advanced hlive hrunning' hanchor' hserial
    obtain ⟨s₁, s₂, haccounted, hstepped, hactive, -, rfl⟩ := serial_step_ok hlive hanchor' hserial
    obtain ⟨-, hmtp', hremaining, hactive'⟩ := emit_current_same request s₂
    -- one token is said, and it is not consumed yet
    have hone : emitted.dropLast = [] := by
      have hlength : emitted.length = 1 := by
        by_contra hmore
        exact hadvanced.speculates hmore
      rw [List.dropLast_eq_take, hlength, List.take_zero]
    refine ⟨emitted, shown, cut, { hadvanced with
      speculates := fun hlength => (hadvanced.speculates hlength).elim
      in_step := ?_
      anchors := fun htrue => hremaining.trans (hactive (hactive'.symm.trans htrue)) }⟩
    rw [hone]
    exact (hstep'.accounted hlive haccounted).same (hstepped.toSameMtp.trans hmtp')
  | @round head previous hround hhead hprevious hmtp_round =>
    -- a round is only made with a stream, so the backend is not in charge
    obtain ⟨hmlx, hstate, rfl, hctx⟩ := hlive.of_previous hprevious
    obtain ⟨drafts, mtp_state, hcommit, hlength, hend⟩ := mtp_round_ok hT hstate hmtp_round
    obtain ⟨shown, cut, hadvanced⟩ := end_committed_advanced backend hrunning' hmlx hend
    refine ⟨_, shown, cut, { hadvanced with
      speculates := fun _ => hround
      in_step := ?_
      anchors := fun _ => ?_ }⟩
    · rw [said, List.dropLast_concat]
      have hcommitted := hstep'.round hctx (proposals (engine.begin_pass request s).mtp_rounds) hlength
        hcommit
      obtain ⟨-, hemitted, -⟩ := emit_round_live request
        (said T engine.is_stop_token ctx (engine.begin_pass request s).current drafts)
        (live_round_committed backend ctx hmlx (proposals (engine.begin_pass request s).mtp_rounds)
          drafts mtp_state)
      exact (hcommitted.same hemitted).end_round hend
    -- where there is a companion there are no anchors
    · have hzero := hcompanion (hhead ▸ Option.some_ne_none head)
      have hle := hsettles.persistent_anchor_remaining
      omega

/-! ### The way of a request -/

/-- A greedy request has said what plain generation says. -/
structure Plain (engine : NativeEngine T) (prompt_tokens : List Token) (s : DecodeState engine)
    (cut : List Token) : Prop where
  follows : Speculation.Follows T.next prompt_tokens (s.tokens ++ cut)
  is_stop_token : ∀ token ∈ s.tokens, engine.is_stop_token token = false
  forced_tokens : s.forced_tokens = []
  persistent_anchor_remaining : s.persistent_anchor_remaining = 0

/-- What holds where the loop asks for more. -/
structure Way (backend : engine.persistent_backend.Faithful) (request : BatchRequest)
    (prompt_tokens : List Token) (s : DecodeState engine) (cut : List Token) : Prop
    extends OnTrack backend request prompt_tokens s cut where
  anchors : s.persistent_active = true → s.persistent_anchor_remaining = 0
  companion : engine.mtp_head ≠ none → s.persistent_anchor_remaining = 0
  in_step : InStep s (prompt_tokens ++ s.tokens ++ cut).dropLast
  plain : engine.Greedy request → Plain engine prompt_tokens s cut

/-- What holds behind a pass. -/
structure Spoken (backend : engine.persistent_backend.Faithful) (request : BatchRequest)
    (prompt_tokens : List Token) (s : DecodeState engine) (cut : List Token) : Prop where
  live : Live backend s (prompt_tokens ++ s.tokens ++ cut).dropLast
  current : s.current = (prompt_tokens ++ s.tokens ++ cut).getLastD 0
  in_step : InStep s (prompt_tokens ++ s.tokens ++ cut).dropLast
  ne_nil : s.tokens ++ cut ≠ []
  length_le : s.tokens.length ≤ request.max_tokens
  plain : engine.Greedy request → Plain engine prompt_tokens s cut
  /-- A stop token is the last token that was said, and is not shown. -/
  stop : s.stopped_on_terminator = true ∧ s.finish_reason = .stop ∧
      s.tokens.length < request.max_tokens ∧
        (∃ token, cut = [token] ∧ engine.is_stop_token token = true) ∨
    s.stopped_on_terminator = false ∧ s.finish_reason ≠ .stop ∧
      (cut = [] ∨ s.tokens.length = request.max_tokens)

/-- **A pass on the way.** It says tokens that the model would say, consumes all but the last of
them, and keeps the companion in step, or marks it as fallen behind. -/
theorem Way.pass (hT : T.RowWise) (hprompt : prompt_tokens ≠ [])
    (h : Way backend request prompt_tokens s cut) (hmore : engine.more request s = true)
    {r : Loop.Pass (DecodeState engine)} (hrun : engine.pass request proposals s = .ok r) :
    ∃ cut', Spoken backend request prompt_tokens r.state cut' ∧
      (r.state.persistent_active = true → r.state.persistent_anchor_remaining = 0) ∧
      (engine.mtp_head ≠ none → r.state.persistent_anchor_remaining = 0) ∧
      (r.state.finish_reason = .stop ∨ s.tokens.length < r.state.tokens.length) := by
  obtain ⟨rfl, hrunning⟩ := h.toOnTrack.cut_eq_nil hmore
  have hlive := h.live
  have hstep := h.in_step
  have hcurrent := h.current
  rw [List.append_nil] at hlive hstep hcurrent
  obtain ⟨emitted, shown, cut', hkept⟩ :=
    pass_kept hT hlive hrunning h.anchors h.companion hstep hrun
  have hsettles : Settles engine request s r.state := pass_settles hrun
  obtain ⟨hlive', hcurrent'⟩ := h.toOnTrack.advance hprompt hkept.toAdvanced
  have hshows := hkept.shows_tokens
  have hall : prompt_tokens ++ r.state.tokens ++ cut' = prompt_tokens ++ s.tokens ++ emitted := by
    rw [hshows.tokens, hshows.eq]
    simp only [List.append_assoc]
  have hsaid : r.state.tokens ++ cut' = s.tokens ++ emitted := by
    rw [hshows.tokens, hshows.eq, List.append_assoc]
  obtain ⟨front, token, rfl⟩ :=
    (List.eq_nil_or_concat' emitted).resolve_left hkept.emitted_ne_nil
  have hstep' := hkept.in_step
  rw [List.dropLast_concat, append_emitted hprompt hcurrent] at hstep'
  refine ⟨cut', ⟨hlive', hcurrent', ?_, ?_, hshows.length_le, fun hgreedy => ?_, ?_⟩, hkept.anchors,
    fun hhead => ?_, ?_⟩
  · rwa [hall, ← List.append_assoc, List.dropLast_concat]
  · rw [hsaid, ← List.append_assoc]
    exact List.append_ne_nil_of_right_ne_nil _ (List.cons_ne_nil token [])
  · obtain ⟨hfollows, hstops, hforced, hremaining⟩ := h.plain hgreedy
    rw [List.append_nil] at hfollows
    have hbegin := begin_pass_settles request s
    have hchooses : Chooses engine request (engine.begin_pass request s) :=
      ⟨hgreedy, hbegin.forced_tokens hgreedy hforced,
        Nat.le_zero.mp (hremaining ▸ hbegin.persistent_anchor_remaining)⟩
    have hnext := hkept.follows hchooses
    rw [append_emitted hprompt hcurrent, List.append_nil] at hnext
    refine ⟨?_, fun token htoken => ?_, hsettles.forced_tokens hgreedy hforced,
      Nat.le_zero.mp (hremaining ▸ hsettles.persistent_anchor_remaining)⟩
    · rw [hsaid]
      exact Speculation.follows_append.mpr ⟨hfollows, hnext⟩
    · rw [hshows.tokens] at htoken
      rcases List.mem_append.mp htoken with hold | hnew
      · exact hstops token hold
      · exact hshows.is_stop_token token hnew
  · rcases hshows.cut with ⟨hgo, hterminator, hlimit⟩ | ⟨hstop, hterminator, hroom, t, rest, hcut, ht⟩
    · exact Or.inr ⟨hterminator, hgo, hlimit⟩
    · refine Or.inl ⟨hterminator, hstop, hroom, t, ?_, ht⟩
      have hlast := hshows.eq
      rw [hcut] at hlast
      rcases List.eq_nil_or_concat' rest with rfl | ⟨middle, last, rfl⟩
      · exact hcut
      · -- what comes before the last token is no stop token
        have hbefore := hkept.dropLast t
        rw [hlast, ← List.cons_append, ← List.append_assoc, List.dropLast_concat] at hbefore
        rw [hbefore (List.mem_append_right _ List.mem_cons_self)] at ht
        cases ht
  · have hzero := h.companion hhead
    have hle := hsettles.persistent_anchor_remaining
    omega
  · rcases hshows.cut with ⟨-, -, hlimit⟩ | ⟨hstop, -⟩
    · refine Or.inr ?_
      have hroom := hrunning.room
      have htokens := congrArg List.length hshows.tokens
      have hemitted := congrArg List.length hshows.eq
      rw [List.length_append] at htokens hemitted
      rw [List.length_append, List.length_singleton] at hemitted
      rcases hlimit with hnil | hfull
      · rw [hnil, List.length_nil] at hemitted
        omega
      · omega
    · exact Or.inl hstop

/-- **The way goes on.** -/
theorem Way.next (hT : T.RowWise) (hprompt : prompt_tokens ≠ [])
    (h : Way backend request prompt_tokens s cut) (hmore : engine.more request s = true)
    (hrun : engine.pass request proposals s = .ok (.next s')) :
    (∃ cut', Way backend request prompt_tokens s' cut') ∧ s.tokens.length < s'.tokens.length := by
  obtain ⟨cut', hspoken, hanchors, hcompanion, hlonger⟩ := h.pass hT hprompt hmore hrun
  have hlive := h.live
  obtain ⟨rfl, -⟩ := h.toOnTrack.cut_eq_nil hmore
  rw [List.append_nil] at hlive
  have hfinish := finish_reason_of_next hT hlive h.finish_reason h.anchors hrun
  have hgo : s'.finish_reason ≠ .stop := fun hstop => by cases hfinish.symm.trans hstop
  refine ⟨⟨cut', ⟨hspoken.live, hspoken.current, hspoken.length_le, ?_, hfinish, ?_⟩, hanchors,
    hcompanion, hspoken.in_step, hspoken.plain⟩, hlonger.resolve_left hgo⟩
  · rcases hspoken.stop with ⟨-, hstop, -⟩ | ⟨-, -, hlimit⟩
    · exact absurd hstop hgo
    · exact hlimit
  · rcases hspoken.stop with ⟨-, hstop, -⟩ | ⟨hterminator, -⟩
    · exact absurd hstop hgo
    · exact hterminator

/-- The loop is left at a stop token, or where the client refuses. -/
theorem finish_reason_of_leave (hrun : engine.pass request proposals s = .ok (.leave s')) :
    s'.finish_reason = .stop ∨ s'.finish_reason = .cancelled := by
  cases pass_ok hrun with
  | serial _ hserial =>
    obtain ⟨s₁, -, hserial⟩ := bind_eq_ok.mp hserial
    obtain ⟨s₂, -, hserial⟩ := bind_eq_ok.mp hserial
    have hemit := Except.ok.inj hserial
    simp only [emit_current] at hemit
    split at hemit
    · obtain rfl := Loop.Pass.leave.inj hemit
      exact Or.inl rfl
    · split at hemit
      · cases hemit
      · obtain rfl := Loop.Pass.leave.inj hemit
        exact Or.inr rfl
  | round _ _ _ hround =>
    obtain ⟨⟨step, state, mtp_state⟩, -, hend⟩ := bind_eq_ok.mp hround
    cases end_round_ok hend with
    | stopped hstop => exact Or.inl hstop
    | cancelled => exact Or.inr rfl

/-- **The end of the loop.** A loop that returns has said what the model says, up to a cut that is
not shown, and has ended for one of three reasons: all tokens are there, a stop token has come, or
the client has gone. -/
theorem decode_loop_ok (hT : T.RowWise) (hprompt : prompt_tokens ≠ []) (hmax : request.max_tokens ≠ 0)
    (h : Way backend request prompt_tokens s [])
    (hrun : engine.decode_loop request proposals s = .ok s') :
    ∃ cut', Spoken backend request prompt_tokens s' cut' ∧
      (s'.finish_reason = .length ∧ s'.tokens.length = request.max_tokens ∨
        s'.finish_reason = .stop ∨ s'.finish_reason = .cancelled) := by
  have hroom : ∀ s : DecodeState engine, engine.more request s = true →
      0 < request.max_tokens - s.tokens.length := by
    intro s hmore
    rw [more, decide_eq_true_eq] at hmore
    omega
  have hnext : ∀ s s₁ : DecodeState engine, (∃ cut, Way backend request prompt_tokens s cut) →
      engine.more request s = true → engine.pass request proposals s = .ok (.next s₁) →
      (∃ cut, Way backend request prompt_tokens s₁ cut) ∧
        request.max_tokens - s₁.tokens.length < request.max_tokens - s.tokens.length := by
    rintro s s₁ ⟨cut, hway⟩ hmore hpass
    obtain ⟨hnext, hlonger⟩ := hway.next hT hprompt hmore hpass
    rw [more, decide_eq_true_eq] at hmore
    exact ⟨hnext, by omega⟩
  obtain ⟨s₁, -, ⟨cut, hway⟩, hleaves⟩ :=
    Loop.run_ok_of_invariant hroom hnext (Nat.sub_le _ _) ⟨[], h⟩ hrun
  cases hleaves with
  | guard hguard =>
    rw [more, decide_eq_false_iff_not, Nat.not_lt] at hguard
    have hfull := Nat.le_antisymm hway.length_le hguard
    refine ⟨cut, ⟨hway.live, hway.current, hway.in_step, ?_, hway.length_le, hway.plain,
      Or.inr ⟨hway.stopped_on_terminator, ?_, hway.limit⟩⟩,
      Or.inl ⟨hway.finish_reason, hfull⟩⟩
    · refine List.append_ne_nil_of_left_ne_nil (fun hnil => ?_) _
      rw [hnil, List.length_nil] at hfull
      exact hmax hfull.symm
    · intro hstop
      cases hway.finish_reason.symm.trans hstop
  | leave hguard hleave =>
    obtain ⟨cut', hspoken, -⟩ := hway.pass hT hprompt hguard hleave
    exact ⟨cut', hspoken, Or.inr (finish_reason_of_leave hleave)⟩

end NativeEngine

end Qwen38
