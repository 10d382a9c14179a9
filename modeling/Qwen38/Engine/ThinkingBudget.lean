import Qwen38.Engine.Executor
import Qwen38.Engine.Live
import Qwen38.Lib.Insertion
import Qwen38.Text.ChatTemplate

/-!
# The thinking budget

A request with a thinking budget takes the steps of the MLX model one at a time
(`NativeEngine.Steps`), and its tokens are a stream in which the closing suffix may come in once:
what a pass does to the variables that matter is a step of `Insertion.Rules`
(`NativeEngine.mlx_pass_thinking`), so every run of such passes is a run of these rules
(`NativeEngine.Steps.runs`).

The budget that the API derives leaves room for a suffix of 128 tokens
(`automatic_thinking_budget_lt`). Nothing keeps a stop token out of the suffix, and one ends the
answer there (`NativeEngine.suffix_ends_answer`).
-/

namespace Qwen38

open Except (bind_eq_ok)

/-- `automatic_thinking_budget`. The product is a `std::size_t`. -/
def automatic_thinking_budget (max_tokens : Nat) (effort : ReasoningEffort) : Nat :=
  if max_tokens < 512 then 0
  else
    match effort with
    | .low => max_tokens / 4
    | .medium => max_tokens / 2
    | .xhigh => max_tokens * 2 % 2 ^ 64 / 3

/-- A derived budget leaves room for the suffix and an answer. -/
theorem automatic_thinking_budget_lt {max_tokens : Nat} {effort : ReasoningEffort}
    (h : automatic_thinking_budget max_tokens effort ≠ 0) :
    automatic_thinking_budget max_tokens effort + 128 < max_tokens := by
  unfold automatic_thinking_budget at h ⊢
  split
  · next hsmall =>
    rw [if_pos hsmall] at h
    exact absurd rfl h
  · next hlarge =>
    cases effort with
    | low =>
      dsimp only
      omega
    | medium =>
      dsimp only
      omega
    | xhigh =>
      have := Nat.mod_le (max_tokens * 2) (2 ^ 64)
      dsimp only
      omega

variable {T : Target}

/-- The variables of the thinking budget. -/
def DecodeState.thinking {engine : NativeEngine T} (s : DecodeState engine) :
    Insertion.State Token where
  shown := s.tokens
  forced := s.forced_tokens
  closed := s.thinking_closed
  attempted := s.thinking_intervention_attempted
  inserted := s.thinking_budget_forced

namespace NativeEngine

section Definitions

variable (engine : NativeEngine T) (request : BatchRequest)

/-- What the suffix comes in by. -/
def thinking_rules : Insertion.Rules Token where
  limit := request.max_tokens
  budget := request.sampling.thinking_budget_tokens
  word := engine.forced_thinking_suffix request
  close := (engine.thinking_close_tokens request).head?
  stop := engine.is_stop_token

/-- A pass with a step of the MLX model. -/
def mlx_pass (s : DecodeState engine) : Except String (Loop.Pass (DecodeState engine)) := do
  let s ← engine.account_mtp_row (engine.begin_pass request s)
  let s ← engine.mlx_step request s
  return engine.emit_current request s

/-- What `choose_token` does before it takes a token. -/
def intervene (logits : T.Logits) (s : DecodeState engine) : DecodeState engine :=
  let (token, random) :=
    match s.forced_tokens with
    | [] => engine.sampler.sample_token request.sampling logits s.tokens s.random
    | forced :: _ => (forced, s.random)
  let s := { s with random }
  if s.forced_tokens = [] ∧ ¬s.thinking_closed ∧ engine.is_stop_token token then
    engine.begin_thinking_intervention request s
  else s

/-- The logits of the pass. -/
def pass_logits (s : DecodeState engine) : T.Logits :=
  let s := engine.begin_pass request s
  (T.forward_decode_capture s.current s.state).1.logits

/-- What the model says in the pass, if it is asked. -/
def sampled (s : DecodeState engine) : Token :=
  let logits := engine.pass_logits request s
  let s := engine.begin_pass request s
  (engine.sampler.sample_token request.sampling logits s.tokens s.random).1

/-- The token of the pass is one of the suffix. -/
def forces (s : DecodeState engine) : Bool :=
  !(engine.intervene request (engine.pass_logits request s)
    (engine.begin_pass request s)).forced_tokens.isEmpty

/-- The passes from a state on, each with its token and whether that is one of the suffix. -/
inductive Steps (s : DecodeState engine) :
    List (Token × Bool) → Loop.Pass (DecodeState engine) → Prop
  | start : Steps s [] (.next s)
  | step {trace : List (Token × Bool)} {s₁ : DecodeState engine}
      {r : Loop.Pass (DecodeState engine)} (h : Steps s trace (.next s₁))
      (hmore : engine.more request s₁ = true) (hpass : engine.mlx_pass request s₁ = .ok r) :
    Steps s (trace ++ [(r.state.current, engine.forces request s₁)]) r

end Definitions

variable {engine : NativeEngine T} {request : BatchRequest} {s s' : DecodeState engine}

theorem choose_token_eq (logits : T.Logits) (s : DecodeState engine) :
    engine.choose_token request logits s =
      match (engine.intervene request logits s).forced_tokens with
      | [] => { engine.intervene request logits s with current :=
          (match s.forced_tokens with
            | [] => engine.sampler.sample_token request.sampling logits s.tokens s.random
            | forced :: _ => (forced, s.random)).1 }
      | forced :: rest =>
        { engine.intervene request logits s with current := forced, forced_tokens := rest } :=
  rfl

/-! ### A pass is a step -/

theorem thinking_begin_thinking_intervention (s : DecodeState engine) :
    (engine.begin_thinking_intervention request s).thinking =
      (engine.thinking_rules request).insert s.thinking := by
  rw [begin_thinking_intervention, Insertion.Rules.insert]
  by_cases hdone : s.thinking_intervention_attempted ∨ s.thinking_closed ∨
      engine.forced_thinking_suffix request = []
  · exact (congrArg DecodeState.thinking (if_pos hdone)).trans (if_pos hdone).symm
  · refine (congrArg DecodeState.thinking (if_neg hdone)).trans
      (Eq.trans ?_ (if_neg hdone).symm)
    by_cases hfull : request.max_tokens ≤
        s.tokens.length + (engine.forced_thinking_suffix request).length
    · exact (congrArg DecodeState.thinking (if_pos hfull)).trans (if_pos hfull).symm
    · exact (congrArg DecodeState.thinking (if_neg hfull)).trans (if_neg hfull).symm

theorem thinking_begin_pass (hbudget : request.sampling.thinking_budget_tokens ≠ 0)
    (s : DecodeState engine) : (engine.begin_pass request s).thinking =
      (engine.thinking_rules request).check s.thinking := by
  have hhand_back : (engine.hand_back s).thinking = s.thinking := by
    rw [NativeEngine.hand_back]
    split <;> rfl
  rw [begin_pass, check_thinking_budget, Insertion.Rules.check, ← hhand_back]
  by_cases h : ¬(engine.hand_back s).thinking_closed ∧ (engine.hand_back s).forced_tokens = [] ∧
      request.sampling.thinking_budget_tokens ≤ (engine.hand_back s).tokens.length
  · rw [if_pos ⟨h.1, h.2.1, hbudget, h.2.2⟩]
    exact (thinking_begin_thinking_intervention _).trans (if_pos h).symm
  · rw [if_neg fun hc => h ⟨hc.1, hc.2.1, hc.2.2.2⟩]
    exact (if_neg h).symm

/-- A suffix under way is not interfered with. -/
theorem intervene_of_forced {forced : Token} {rest : List Token}
    (h : s.forced_tokens = forced :: rest) (logits : T.Logits) :
    engine.intervene request logits s = s := by
  simp only [intervene, h, List.cons_ne_nil, false_and, if_false]
  rw [← h]

theorem thinking_intervene (logits : T.Logits) (s : DecodeState engine) :
    (engine.intervene request logits s).thinking = (engine.thinking_rules request).answer
      (engine.sampler.sample_token request.sampling logits s.tokens s.random).1 s.thinking := by
  cases hforced : s.forced_tokens with
  | nil =>
    have hsame : ({ s.thinking with forced := [] } : Insertion.State Token) = s.thinking :=
      Insertion.State.ext rfl hforced.symm rfl rfl rfl
    simp only [intervene, hforced, true_and]
    by_cases h : ¬s.thinking_closed ∧ engine.is_stop_token
        (engine.sampler.sample_token request.sampling logits s.tokens s.random).1
    · have hanswer : (engine.thinking_rules request).answer
          (engine.sampler.sample_token request.sampling logits s.tokens s.random).1 s.thinking =
            (engine.thinking_rules request).insert s.thinking := if_pos ⟨hforced, h⟩
      rw [if_pos h, thinking_begin_thinking_intervention, hanswer]
      exact congrArg (engine.thinking_rules request).insert hsame
    · have hanswer : (engine.thinking_rules request).answer
          (engine.sampler.sample_token request.sampling logits s.tokens s.random).1 s.thinking =
            s.thinking := if_neg fun hc => h hc.2
      rw [if_neg h, hanswer]
      exact hsame
  | cons forced rest =>
    rw [intervene_of_forced hforced]
    exact (if_neg fun hc => List.cons_ne_nil _ _ (hforced.symm.trans hc.1)).symm

/-- What is chosen. -/
theorem choose_token_thinking (logits : T.Logits) (s : DecodeState engine) {symbol : Token}
    (hsymbol : (engine.sampler.sample_token request.sampling logits s.tokens s.random).1 = symbol) :
    (((engine.choose_token request logits s).current,
        !(engine.intervene request logits s).forced_tokens.isEmpty),
      (engine.choose_token request logits s).thinking) =
      ((engine.thinking_rules request).answer symbol s.thinking).choose symbol := by
  subst hsymbol
  rw [← thinking_intervene, choose_token_eq, Insertion.State.choose]
  have hforced : (engine.intervene request logits s).thinking.forced =
      (engine.intervene request logits s).forced_tokens := rfl
  rw [hforced]
  cases h : (engine.intervene request logits s).forced_tokens with
  | nil =>
    have hnil : s.forced_tokens = [] := by
      cases hs : s.forced_tokens with
      | nil => rfl
      | cons forced rest =>
        rw [intervene_of_forced hs, hs] at h
        cases h
    rw [hnil]
    rfl
  | cons forced rest => rfl

/-- A pass leaves alone what a step does not look at. -/
structure SameThinking (s s' : DecodeState engine) : Prop where
  thinking : s'.thinking = s.thinking
  current : s'.current = s.current
  finish_reason : s'.finish_reason = s.finish_reason

theorem Counted.thinking (h : Counted engine s s') : SameThinking s s' := by
  cases h with
  | none => exact ⟨rfl, rfl, rfl⟩
  | one => exact ⟨rfl, rfl, rfl⟩
  | last _ hrun =>
    obtain ⟨_, -, hrun⟩ := bind_eq_ok.mp hrun
    obtain ⟨_, -, hrun⟩ := bind_eq_ok.mp hrun
    cases hrun
    exact ⟨rfl, rfl, rfl⟩

theorem Accounted.thinking (h : Accounted engine s s') :
    SameThinking s s' ∧ s'.state = s.state ∧ s'.random = s.random := by
  cases h <;> exact ⟨⟨rfl, rfl, rfl⟩, rfl, rfl⟩

/-- What goes out. -/
theorem emit_current_thinking (s : DecodeState engine) :
    (engine.emit_current request s).state.current = s.current ∧
      (engine.emit_current request s).state.thinking =
        (engine.thinking_rules request).emit s.current s.thinking ∧
      (engine.is_stop_token s.current = true →
        (engine.emit_current request s).state.finish_reason = .stop) ∧
      (∀ s', engine.emit_current request s = .next s' → engine.is_stop_token s.current = false) ∧
      (∀ s', engine.emit_current request s = .leave s' →
        engine.is_stop_token s.current = true ∨ s'.finish_reason = .cancelled) := by
  cases hstop : engine.is_stop_token s.current with
  | true =>
    have hemit : engine.emit_current request s =
        .leave { s with finish_reason := .stop, stopped_on_terminator := true } := if_pos hstop
    rw [hemit, Insertion.Rules.emit_of_stop hstop]
    refine ⟨rfl, rfl, fun _ => rfl, fun s' h => ?_, fun _ _ => Or.inl rfl⟩
    cases h
  | false =>
    have hgo : ¬engine.is_stop_token s.current = true := Bool.eq_false_iff.mp hstop
    rw [Insertion.Rules.emit_of_go hstop, emit_current, if_neg hgo]
    dsimp only
    generalize s.text.emit_new_tokens engine.tokenizer request.on_delta (s.tokens ++ [s.current]) =
      out
    obtain ⟨go_on, text⟩ := out
    cases go_on with
    | true =>
      refine ⟨rfl, rfl, fun h => absurd h Bool.false_ne_true, fun _ _ => rfl, fun s' h => ?_⟩
      cases h
    | false =>
      refine ⟨rfl, rfl, fun h => absurd h Bool.false_ne_true, fun _ _ => rfl,
        fun s' h => Or.inr ?_⟩
      cases h
      rfl

theorem mlx_step_run (s : DecodeState engine) : engine.mlx_step request s =
    engine.count_anchor (engine.choose_token request
      (T.forward_decode_capture s.current s.state).1.logits
      { s with
        state := (T.forward_decode_capture s.current s.state).2
        previous_target_stream :=
          some (T.forward_decode_capture s.current s.state).1.pre_mixer_stream }) :=
  rfl

/-- **A pass is a step** of the rules. -/
theorem mlx_pass_thinking {r : Loop.Pass (DecodeState engine)}
    (hbudget : request.sampling.thinking_budget_tokens ≠ 0)
    (h : engine.mlx_pass request s = .ok r) :
    ((r.state.current, engine.forces request s), r.state.thinking) =
        (engine.thinking_rules request).step (engine.sampled request s) s.thinking ∧
      (engine.is_stop_token r.state.current = true → r.state.finish_reason = .stop) ∧
      (∀ s', r = .next s' → engine.is_stop_token r.state.current = false) ∧
      (∀ s', r = .leave s' →
        engine.is_stop_token r.state.current = true ∨ s'.finish_reason = .cancelled) := by
  obtain ⟨s₁, haccount, h⟩ := bind_eq_ok.mp h
  obtain ⟨s₂, hmlx, h⟩ := bind_eq_ok.mp h
  obtain rfl := Except.ok.inj h
  obtain ⟨hsame, hstate, hrandom⟩ := (account_mtp_row_ok haccount).thinking
  rw [mlx_step_run] at hmlx
  -- the row before the step changes nothing that the model sees
  have hlogits : (T.forward_decode_capture s₁.current s₁.state).1.logits =
      engine.pass_logits request s := by
    rw [hsame.current, hstate]
    rfl
  rw [hlogits] at hmlx
  generalize hready : ({ s₁ with
    state := (T.forward_decode_capture s₁.current s₁.state).2
    previous_target_stream :=
      some (T.forward_decode_capture s₁.current s₁.state).1.pre_mixer_stream } :
      DecodeState engine) = ready at hmlx
  have hthinking : ready.thinking = (engine.thinking_rules request).check s.thinking := by
    rw [← thinking_begin_pass hbudget, ← hsame.thinking, ← hready]
    rfl
  -- what is sampled is drawn with the tokens and the numbers of before the pass
  have hsampled : (engine.sampler.sample_token request.sampling (engine.pass_logits request s)
      ready.tokens ready.random).1 = engine.sampled request s := by
    have htokens : ready.tokens = (engine.begin_pass request s).tokens := by
      rw [← hready]
      exact congrArg Insertion.State.shown hsame.thinking
    have hrandom' : ready.random = (engine.begin_pass request s).random := by
      rw [← hready]
      exact hrandom
    rw [htokens, hrandom']
    rfl
  have hcounted := (count_anchor_ok hmlx).thinking
  have hchosen := choose_token_thinking (engine.pass_logits request s) ready hsampled
  obtain ⟨hcurrent, hemitted, hstop, hnext, hleave⟩ := @emit_current_thinking _ engine request s₂
  -- whether the pass forces a token is seen before it, in the state of the budget alone
  have hforces : (!(engine.intervene request (engine.pass_logits request s)
      ready).forced_tokens.isEmpty) = engine.forces request s := by
    have hinterventions : (engine.intervene request (engine.pass_logits request s) ready).thinking =
        (engine.intervene request (engine.pass_logits request s)
          (engine.begin_pass request s)).thinking := by
      rw [thinking_intervene, thinking_intervene, hsampled, hthinking,
        ← thinking_begin_pass hbudget]
      rfl
    have hforced := congrArg Insertion.State.forced hinterventions
    exact congrArg (fun forced => !forced.isEmpty) hforced
  rw [hforces] at hchosen
  rw [hcurrent, hemitted, hcounted.current, hcounted.thinking]
  refine ⟨?_, fun h => hstop ?_, fun s' h => ?_, fun s' h => ?_⟩
  · rw [Insertion.Rules.step, ← hthinking, ← hchosen]
  · rwa [hcounted.current]
  · rw [← hcounted.current]
    exact hnext s' h
  · rw [← hcounted.current]
    exact hleave s' h

/-- Without a client to refuse it, a token goes out. -/
theorem next_of_mlx_pass {r : Loop.Pass (DecodeState engine)} (hsink : request.on_delta = none)
    (h : engine.mlx_pass request s = .ok r) (hgo : engine.is_stop_token r.state.current = false) :
    r = .next r.state := by
  obtain ⟨s₁, -, h⟩ := bind_eq_ok.mp h
  obtain ⟨s₂, -, h⟩ := bind_eq_ok.mp h
  obtain rfl := Except.ok.inj h
  rw [(@emit_current_thinking _ engine request s₂).1] at hgo
  have hgo' : ¬engine.is_stop_token s₂.current = true := Bool.eq_false_iff.mp hgo
  rw [emit_current, if_neg hgo', hsink]
  rfl

/-- The reason to finish is still the one from before. -/
theorem finish_reason_mlx_pass {r : Loop.Pass (DecodeState engine)}
    (hsink : request.on_delta = none) (h : engine.mlx_pass request s = .ok r)
    (hgo : engine.is_stop_token r.state.current = false) :
    r.state.finish_reason = s.finish_reason := by
  obtain ⟨s₁, haccount, h⟩ := bind_eq_ok.mp h
  obtain ⟨s₂, hmlx, h⟩ := bind_eq_ok.mp h
  obtain rfl := Except.ok.inj h
  rw [(@emit_current_thinking _ engine request s₂).1] at hgo
  have hgo' : ¬engine.is_stop_token s₂.current = true := Bool.eq_false_iff.mp hgo
  have hemitted : (engine.emit_current request s₂).state.finish_reason = s₂.finish_reason := by
    rw [emit_current, if_neg hgo', hsink]
    rfl
  rw [mlx_step_run] at hmlx
  have hchosen := (choose_token_same request (T.forward_decode_capture s₁.current s₁.state).1.logits
    { s₁ with
      state := (T.forward_decode_capture s₁.current s₁.state).2
      previous_target_stream :=
        some (T.forward_decode_capture s₁.current s₁.state).1.pre_mixer_stream }).1
  calc (engine.emit_current request s₂).state.finish_reason = s₂.finish_reason := hemitted
    _ = s₁.finish_reason :=
      (count_anchor_ok hmlx).thinking.finish_reason.trans hchosen.finish_reason
    _ = (engine.begin_pass request s).finish_reason :=
      (account_mtp_row_ok haccount).thinking.1.finish_reason
    _ = s.finish_reason := (begin_pass_same request s).1.finish_reason

/-! ### A run of passes is a run -/

/-- The variables of the budget are new. -/
theorem thinking_of_start_decode {prompt_tokens : List Token} {prefilled : Prefilled T}
    {persistent : engine.persistent_backend.State}
    (hbudget : request.sampling.thinking_budget_tokens ≠ 0)
    (h : engine.start_decode request prompt_tokens prefilled persistent = .ok s) :
    s.thinking = {} ∧ s.persistent_active = false ∧ s.mtp_profitable = false ∧
      engine.anchor_tokens request = .ok s.persistent_anchor_remaining := by
  obtain ⟨anchor, hanchor, h⟩ := bind_eq_ok.mp h
  obtain ⟨s₁, hstart, h⟩ := bind_eq_ok.mp h
  obtain ⟨-, -, h⟩ := bind_eq_ok.mp h
  obtain rfl := Except.ok.inj h
  have hserial : request.sampling.serial_only = true := by
    rw [SamplingOptions.serial_only, decide_eq_true hbudget, Bool.or_true]
  rw [start_persistent, if_neg fun hc => hc.1 hserial] at hstart
  obtain rfl := Except.ok.inj hstart
  refine ⟨rfl, rfl, ?_, hanchor⟩
  rw [hserial]
  rfl

/-- **A run of passes is a run of the rules**, which has ended when the answer stops. -/
theorem Steps.runs {trace : List (Token × Bool)} {r : Loop.Pass (DecodeState engine)}
    (hbudget : request.sampling.thinking_budget_tokens ≠ 0) (hs : s.thinking = {})
    (h : Steps engine request s trace r) : ∃ ended,
      (engine.thinking_rules request).Runs trace r.state.thinking ended ∧
        (ended = true → r.state.finish_reason = .stop) ∧ (∀ s', r = .next s' → ended = false) ∧
        ∀ s', r = .leave s' → ended = true ∨ s'.finish_reason = .cancelled := by
  induction h with
  | start =>
    refine ⟨false, ?_, fun h => absurd h Bool.false_ne_true, fun _ _ => rfl, fun s' h => ?_⟩
    · rw [Loop.Pass.state, hs]
      exact .start
    · cases h
  | @step trace s₁ r h hmore hpass ih =>
    obtain ⟨ended, hruns, -, hnext, -⟩ := ih
    obtain rfl := hnext s₁ rfl
    obtain ⟨hstep, hstop, hgoes, hleaves⟩ := mlx_pass_thinking hbudget hpass
    have hroom : s₁.thinking.shown.length < (engine.thinking_rules request).limit :=
      of_decide_eq_true hmore
    have hrun := Insertion.Rules.Runs.step (engine.sampled request s₁) hruns hroom
    rw [Loop.Pass.state, ← hstep] at hrun
    exact ⟨_, hrun, hstop, hgoes, hleaves⟩

/-- A request whose steps are all of the MLX model. -/
structure MlxOnly (s : DecodeState engine) : Prop where
  persistent_active : s.persistent_active = false
  mtp_profitable : s.mtp_profitable = false
  persistent_anchor_remaining : s.persistent_anchor_remaining = 0

theorem MlxOnly.begin_pass (h : MlxOnly s) : MlxOnly (engine.begin_pass request s) := by
  obtain ⟨hsame, hmtp⟩ := begin_pass_same request s
  refine ⟨?_, hmtp.mtp_profitable.trans h.mtp_profitable,
    hsame.persistent_anchor_remaining.trans h.persistent_anchor_remaining⟩
  by_contra hactive
  rw [Bool.not_eq_false] at hactive
  exact Bool.false_ne_true (h.persistent_active.symm.trans (persistent_active_of_begin_pass hactive))

theorem Accounted.mlxOnly (h : Accounted engine s s') (hmlx : MlxOnly s) : MlxOnly s' := by
  obtain ⟨hactive, hprofitable, hanchor⟩ := hmlx
  cases h <;> exact ⟨hactive, hprofitable, hanchor⟩

theorem MlxOnly.emit_current (h : MlxOnly s) : MlxOnly (engine.emit_current request s).state := by
  obtain ⟨hactive, hprofitable, hanchor⟩ := h
  rw [NativeEngine.emit_current]
  split
  · exact ⟨hactive, hprofitable, hanchor⟩
  · dsimp only
    generalize s.text.emit_new_tokens engine.tokenizer request.on_delta (s.tokens ++ [s.current]) =
      out
    obtain ⟨go_on, text⟩ := out
    cases go_on <;> exact ⟨hactive, hprofitable, hanchor⟩

/-- Its pass is one of the MLX model. -/
theorem MlxOnly.pass_eq (h : MlxOnly s) (proposals : Nat → Proposal) :
    engine.pass request proposals s = engine.mlx_pass request s := by
  have hbegin := @MlxOnly.begin_pass _ _ request _ h
  have hserial : engine.takes_serial_step request (engine.begin_pass request s) = true := by
    simp only [takes_serial_step, hbegin.mtp_profitable, Bool.not_false, Bool.true_or]
  rw [pass, if_pos hserial, serial_step, NativeEngine.mlx_pass]
  rcases haccount : engine.account_mtp_row (engine.begin_pass request s) with e | s₁
  · rfl
  · have hactive := ((account_mtp_row_ok haccount).mlxOnly hbegin).persistent_active
    have hstep : engine.decode_step request s₁ = engine.mlx_step request s₁ := by
      rw [decode_step, takes_native_step, hactive]
      rfl
    rw [Except.ok_bind, Except.ok_bind, hstep]

theorem MlxOnly.mlx_pass {r : Loop.Pass (DecodeState engine)} (h : MlxOnly s)
    (hpass : engine.mlx_pass request s = .ok r) : MlxOnly r.state := by
  obtain ⟨s₁, haccount, hpass⟩ := bind_eq_ok.mp hpass
  obtain ⟨s₂, hmlx, hpass⟩ := bind_eq_ok.mp hpass
  obtain rfl := Except.ok.inj hpass
  have haccounted := (account_mtp_row_ok haccount).mlxOnly (@MlxOnly.begin_pass _ _ request _ h)
  rw [mlx_step_run] at hmlx
  obtain ⟨-, hmtp, hanchor, hactive⟩ := choose_token_same request
    (T.forward_decode_capture s₁.current s₁.state).1.logits ({ s₁ with
      state := (T.forward_decode_capture s₁.current s₁.state).2
      previous_target_stream :=
        some (T.forward_decode_capture s₁.current s₁.state).1.pre_mixer_stream } :
          DecodeState engine)
  have hzero := hanchor.trans haccounted.persistent_anchor_remaining
  cases count_anchor_ok hmlx with
  | none =>
    exact MlxOnly.emit_current ⟨hactive.trans haccounted.persistent_active,
      hmtp.mtp_profitable.trans haccounted.mtp_profitable, hzero⟩
  | one hne => exact absurd hzero hne
  | last hone => exact absurd (hzero.symm.trans hone) Nat.zero_ne_one

/-- The passes of the loop are such passes. -/
theorem steps_of_reaches {proposals : Nat → Proposal} (hmlx : MlxOnly s)
    (h : Loop.Reaches (engine.more request) (engine.pass request proposals) s s') :
    MlxOnly s' ∧ ∃ trace, Steps engine request s trace (.next s') := by
  induction h with
  | start => exact ⟨hmlx, [], .start⟩
  | pass _ hguard hbody ih =>
    obtain ⟨hmlx₁, trace, hsteps⟩ := ih
    rw [hmlx₁.pass_eq] at hbody
    exact ⟨hmlx₁.mlx_pass hbody, _, hsteps.step hguard hbody⟩

/-- **The answer of a request** without native steps is that of a run of passes, to their
end. -/
theorem steps_of_decode_loop {proposals : Nat → Proposal}
    (hbudget : request.sampling.thinking_budget_tokens ≠ 0) (hmlx : MlxOnly s)
    (hrun : engine.decode_loop request proposals s = .ok s') :
    ∃ trace r, Steps engine request s trace r ∧ r.state = s' ∧
      (r = .leave s' ∨ engine.more request s' = false) := by
  have hstep : ∀ s₁ s₂ : DecodeState engine, MlxOnly s₁ → engine.more request s₁ = true →
      engine.pass request proposals s₁ = .ok (.next s₂) → MlxOnly s₂ ∧
        request.max_tokens - s₂.tokens.length < request.max_tokens - s₁.tokens.length := by
    intro s₁ s₂ hmlx₁ hmore hpass
    rw [hmlx₁.pass_eq] at hpass
    have hroom := of_decide_eq_true hmore
    obtain ⟨hview, -, hgoes, -⟩ := mlx_pass_thinking hbudget hpass
    have hshown := @Insertion.Rules.shown_step _ _ (engine.thinking_rules request)
      (engine.sampled request s₁) s₁.thinking
    rw [← hview, if_neg (by exact Bool.eq_false_iff.mp (hgoes s₂ rfl))] at hshown
    have hlength : s₂.tokens.length = s₁.tokens.length + 1 := by
      have := congrArg List.length hshown
      rwa [List.length_append, List.length_singleton] at this
    exact ⟨hmlx₁.mlx_pass hpass, by omega⟩
  obtain ⟨s₁, hreaches, -, hleaves⟩ := Loop.run_ok_of_invariant
    (fun s₁ hmore => Nat.sub_pos_of_lt (of_decide_eq_true hmore)) hstep
    (Nat.sub_le request.max_tokens s.tokens.length) hmlx hrun
  obtain ⟨hmlx₁, trace, hsteps⟩ := steps_of_reaches hmlx hreaches
  cases hleaves with
  | guard hmore => exact ⟨trace, _, hsteps, rfl, Or.inr hmore⟩
  | leave hmore hbody =>
    rw [hmlx₁.pass_eq] at hbody
    exact ⟨_, _, hsteps.step hmore hbody, rfl, Or.inl rfl⟩

/-- Such a pass does not throw where there is no companion. -/
theorem MlxOnly.exists_mlx_pass (h : MlxOnly s) (hhead : engine.mtp_head = none) :
    ∃ r, engine.mlx_pass request s = .ok r := by
  have hbegin := @MlxOnly.begin_pass _ _ request _ h
  have haccount : engine.account_mtp_row (engine.begin_pass request s) =
      .ok (engine.begin_pass request s) := by
    rw [account_mtp_row]
    exact if_pos (by rw [hhead]; rfl)
  have hcount (t : DecodeState engine) (ht : t.persistent_anchor_remaining = 0) :
      engine.count_anchor t = .ok t := if_pos ht
  rw [NativeEngine.mlx_pass, haccount, Except.ok_bind, mlx_step_run, hcount]
  · exact ⟨_, rfl⟩
  · exact (choose_token_same request _ _).2.2.1.trans hbegin.persistent_anchor_remaining

/-! ### The claims of the budget -/

/-- **The thinking budget.** In a run of passes with steps of the MLX model, the suffix comes in at
most once, in one piece and not behind a closing token of the model; a stop token that the model
says before it is replaced by the suffix while that fits; there are at most `max_tokens`
tokens; a suffix without stop tokens that comes in is followed by a step of the model, unless
the client refuses; and with a derived budget the reasoning is closed, by the model or by
the suffix, when the budget and the suffix are used up. -/
theorem thinking_budget_kept {prompt_tokens : List Token} {prefilled : Prefilled T}
    {persistent : engine.persistent_backend.State}
    (hbudget : request.sampling.thinking_budget_tokens ≠ 0)
    (hstart : engine.start_decode request prompt_tokens prefilled persistent = .ok s)
    {trace : List (Token × Bool)} {r : Loop.Pass (DecodeState engine)}
    (h : Steps engine request s trace r) :
    let suffix := engine.forced_thinking_suffix request
    let close := (engine.thinking_close_tokens request).head?
    (∃ cut, trace.map (·.1) = r.state.tokens ++ cut ∧ (cut = [] ∨ r.state.finish_reason = .stop ∧
      ∃ token, cut = [token] ∧ engine.is_stop_token token = true)) ∧
    (∃ before word after : List Token, trace = before.map (·, false) ++ word.map (·, true) ++
        after.map (·, false) ∧ word <+: suffix ∧ (after ≠ [] → word ≠ [] → word = suffix) ∧
      (word ≠ [] → ∀ token ∈ close, token ∉ before)) ∧
    (∀ s₁, r = .next s₁ → engine.more request s₁ = true → (∀ entry ∈ trace, entry.2 = false) →
      (∀ token ∈ close, token ∉ s₁.tokens) → ∀ token rest, suffix = token :: rest →
      s₁.tokens.length + suffix.length < request.max_tokens →
      engine.is_stop_token (engine.sampled request s₁) = true →
      ∀ r', engine.mlx_pass request s₁ = .ok r' →
        engine.forces request s₁ = true ∧ r'.state.current = token ∧
          (engine.is_stop_token token = false → r'.state.tokens = s₁.tokens ++ [token])) ∧
    r.state.tokens.length ≤ request.max_tokens ∧
    ((∀ token ∈ suffix, engine.is_stop_token token = false) →
      ((∃ s', r = .leave s') ∨ engine.more request r.state = false) →
      r.state.finish_reason ≠ .cancelled → (∃ entry ∈ trace, entry.2 = true) →
      ∃ before after : List Token, trace = before.map (·, false) ++ suffix.map (·, true) ++
        after.map (·, false) ∧ after ≠ []) ∧
    (suffix ≠ [] → suffix.length ≤ 128 → ∀ effort,
      request.sampling.thinking_budget_tokens =
        automatic_thinking_budget request.max_tokens effort →
      request.sampling.thinking_budget_tokens + suffix.length ≤ trace.length →
      (∃ token ∈ close, token ∈
        (trace.map (·.1)).take request.sampling.thinking_budget_tokens) ∨
      ∃ before after : List Token, trace = before.map (·, false) ++ suffix.map (·, true) ++
        after.map (·, false) ∧ before.length ≤ request.sampling.thinking_budget_tokens) := by
  intro suffix close
  obtain ⟨ended, hruns, hstop, hnext, hleave⟩ :=
    h.runs hbudget (thinking_of_start_decode hbudget hstart).1
  refine ⟨?_, hruns.inserted_once, ?_, hruns.length_shown_le, ?_, ?_⟩
  -- what is shown is the trace, up to a stop token at its end
  · obtain ⟨cut, htrace, hgoing, hended⟩ := hruns.shown
    refine ⟨cut, htrace, ?_⟩
    cases hends : ended with
    | true => exact Or.inr ⟨hstop hends, hended hends⟩
    | false => exact Or.inl (hgoing hends)
  -- a stop token before the suffix: the pass is a step of the rules, which put the suffix in its
  -- place
  · rintro s₁ rfl hmore hsaid hopen token rest hsuffix hroom hsampled r' hpass
    obtain rfl := hnext s₁ rfl
    obtain ⟨hstep, -⟩ := mlx_pass_thinking hbudget hpass
    have hreplaced := hruns.replaces hsaid hopen hsuffix hroom hsampled
    have hentry := (congrArg Prod.fst hstep).trans hreplaced
    have hshown := @Insertion.Rules.shown_step _ _ (engine.thinking_rules request)
      (engine.sampled request s₁) s₁.thinking
    obtain ⟨hcurrent, hforces⟩ := Prod.mk.inj hentry
    refine ⟨hforces, hcurrent, fun hgo => ?_⟩
    have hstate : (Loop.Pass.next s₁).state.thinking = s₁.thinking := rfl
    rw [hstate] at hreplaced
    rw [hreplaced, if_neg (by exact Bool.eq_false_iff.mp hgo),
      ← congrArg Prod.snd hstep] at hshown
    exact hshown
  -- a run that is over was left at a stop token or is full; behind the suffix neither comes at once
  · intro hsuffix hcomplete hreason hput
    refine hruns.followed ?_ hsuffix hput
    rcases hcomplete with ⟨s', rfl⟩ | hfull
    · exact Or.inl ((hleave s' rfl).resolve_right hreason)
    · exact Or.inr (Nat.le_of_not_lt (of_decide_eq_false hfull))
  -- a derived budget leaves room for 128 tokens and more
  · intro hne hlength effort hderived hlong
    have hlt := @automatic_thinking_budget_lt request.max_tokens effort (hderived ▸ hbudget)
    rw [← hderived] at hlt
    have hroom : (engine.thinking_rules request).budget +
        (engine.thinking_rules request).word.length < (engine.thinking_rules request).limit :=
      (Nat.add_le_add_left hlength _).trans_lt hlt
    exact hruns.closes_within hne hroom hlong

/-! ### A suffix with a stop token -/

/-- A small engine with such a suffix. The closing token is 3 and the stop token is 2; the model
says nothing but 0. -/
def suffix_engine (suffix : List Token) : NativeEngine (consumed fun _ => 0) :=
  { Executor.small_engine with
    tokenizer :=
      { encode := fun text => if text.head? = some 60 then [3] else suffix, decode := fun _ => [] }
    end_of_sequence_token := 2
    chat_end_token := 2 }

/-- A request with a thinking budget of one token. -/
def thinking_request : BatchRequest :=
  { prompt := [], max_tokens := 4, sampling := { thinking_budget_tokens := 1 } }

/-- Its first state. -/
def thinking_start (suffix : List Token) : DecodeState (suffix_engine suffix) where
  state := (consumed fun _ => 0).make_state
  mtp_state := {}
  previous_target_stream := none
  current := 0
  random := ()
  persistent := ()
  persistent_reset := true
  persistent_anchor_remaining := 0
  mtp_profitable := false

theorem start_decode_thinking_start (suffix : List Token) :
    (suffix_engine suffix).start_decode thinking_request [0]
      { state := (consumed fun _ => 0).make_state } () = .ok (thinking_start suffix) := by
  rfl

/-- The rules of that request. -/
abbrev suffix_rules (suffix : List Token) : Insertion.Rules Token :=
  ⟨4, 1, suffix, some 3, (suffix_engine suffix).is_stop_token⟩

theorem thinking_rules_suffix_engine {suffix : List Token}
    (hsuffix : (suffix_engine suffix).forced_thinking_suffix thinking_request = suffix)
    (hclose : (suffix_engine suffix).thinking_close_tokens thinking_request = [3]) :
    (suffix_engine suffix).thinking_rules thinking_request = suffix_rules suffix := by
  rw [thinking_rules, hclose, hsuffix]
  rfl

theorem sampled_suffix_engine (suffix : List Token) (s : DecodeState (suffix_engine suffix)) :
    (suffix_engine suffix).sampled thinking_request s = 0 := by
  rw [sampled, Sampler.sample_token, if_pos (by decide)]
  rfl

/-- One more pass of that engine: what comes next by the rules, where the model says 0. -/
theorem suffix_engine_pass {suffix : List Token} {s : DecodeState (suffix_engine suffix)}
    {trace : List (Token × Bool)} {entry : Token × Bool} {thinking : Insertion.State Token}
    (hrules : (suffix_engine suffix).thinking_rules thinking_request = suffix_rules suffix)
    (hmlx : MlxOnly s)
    (h : Steps (suffix_engine suffix) thinking_request (thinking_start suffix) trace (.next s))
    (hroom : s.thinking.shown.length < 4)
    (hentry : (suffix_rules suffix).step 0 s.thinking = (entry, thinking)) :
    ∃ r, Steps (suffix_engine suffix) thinking_request (thinking_start suffix) (trace ++ [entry]) r ∧
      ((suffix_engine suffix).is_stop_token entry.1 = true → r.state.finish_reason = .stop ∧
        ∃ s', r = .leave s') ∧
      ((suffix_engine suffix).is_stop_token entry.1 = false →
        ∃ s', r = .next s' ∧ MlxOnly s' ∧ s'.thinking = thinking ∧
          s'.finish_reason = s.finish_reason) := by
  have hbudget : thinking_request.sampling.thinking_budget_tokens ≠ 0 := by decide
  obtain ⟨r, hpass⟩ := @MlxOnly.exists_mlx_pass _ _ thinking_request _ hmlx rfl
  obtain ⟨hstep, hstop, hgoes, -⟩ := mlx_pass_thinking hbudget hpass
  rw [hrules, sampled_suffix_engine, hentry] at hstep
  obtain ⟨hlast, hthinking⟩ := Prod.mk.inj hstep
  have hmore : (suffix_engine suffix).more thinking_request s = true := decide_eq_true hroom
  have htrace := h.step hmore hpass
  rw [hlast] at htrace
  have hcurrent : r.state.current = entry.1 := congrArg Prod.fst hlast
  rw [hcurrent] at hstop hgoes
  refine ⟨r, htrace, fun hends => ⟨hstop hends, ?_⟩, fun hgo => ?_⟩
  · cases r with
    | next s' => exact absurd ((hgoes s' rfl).symm.trans hends) Bool.false_ne_true
    | leave s' => exact ⟨s', rfl⟩
  · rw [← hcurrent] at hgo
    exact ⟨r.state, next_of_mlx_pass rfl hpass hgo, hmlx.mlx_pass hpass, hthinking,
      finish_reason_mlx_pass rfl hpass hgo⟩

theorem mlxOnly_thinking_start (suffix : List Token) : MlxOnly (thinking_start suffix) :=
  ⟨rfl, rfl, rfl⟩

/-- The budget is used up behind one token, the suffix `[1, 3]` comes in whole, and a step of
the model follows it, which is the last. -/
theorem thinking_budget_kept_suffix : ∃ r,
    Steps (suffix_engine [1, 3]) thinking_request (thinking_start [1, 3])
        [(0, false), (1, true), (3, true), (0, false)] r ∧
      (∃ cut, [0, 1, 3, 0] = r.state.tokens ++ cut) ∧ r.state.tokens.length ≤ 4 ∧
      ∃ before after : List Token, [(0, false), (1, true), (3, true), (0, false)] =
        before.map (·, false) ++ [1, 3].map (·, true) ++ after.map (·, false) ∧ after ≠ [] := by
  have hsuffix : (suffix_engine [1, 3]).forced_thinking_suffix thinking_request = [1, 3] := by
    decide +kernel
  have hclose : (suffix_engine [1, 3]).thinking_close_tokens thinking_request = [3] := by
    decide +kernel
  have hrules := thinking_rules_suffix_engine hsuffix hclose
  obtain ⟨r₁, h₁, -, hnext₁⟩ := suffix_engine_pass hrules (mlxOnly_thinking_start [1, 3]) .start
    (by decide) rfl
  obtain ⟨s₁, rfl, hmlx₁, hthinking₁, hreason₁⟩ := hnext₁ rfl
  obtain ⟨r₂, h₂, -, hnext₂⟩ := suffix_engine_pass hrules hmlx₁ h₁
    (by rw [hthinking₁]; decide) (by rw [hthinking₁])
  obtain ⟨s₂, rfl, hmlx₂, hthinking₂, hreason₂⟩ := hnext₂ rfl
  obtain ⟨r₃, h₃, -, hnext₃⟩ := suffix_engine_pass hrules hmlx₂ h₂
    (by rw [hthinking₂]; decide) (by rw [hthinking₂])
  obtain ⟨s₃, rfl, hmlx₃, hthinking₃, hreason₃⟩ := hnext₃ rfl
  obtain ⟨r₄, h₄, -, hnext₄⟩ := suffix_engine_pass hrules hmlx₃ h₃
    (by rw [hthinking₃]; decide) (by rw [hthinking₃])
  obtain ⟨s₄, rfl, -, hthinking₄, hreason₄⟩ := hnext₄ rfl
  have htokens : s₄.tokens = [0, 1, 3, 0] := congrArg Insertion.State.shown hthinking₄
  have hfull : (suffix_engine [1, 3]).more thinking_request s₄ = false := by
    rw [more, htokens]
    rfl
  have hreason : s₄.finish_reason = .length := by
    rw [hreason₄, hreason₃, hreason₂, hreason₁]
    rfl
  obtain ⟨⟨cut, hshown, -⟩, -, -, hlength, hfollowed, -⟩ := thinking_budget_kept (by decide)
    (start_decode_thinking_start [1, 3]) h₄
  refine ⟨_, h₄, ⟨cut, hshown⟩, hlength, ?_⟩
  have hcame := hfollowed (by rw [hsuffix]; decide) (Or.inr hfull)
    (fun hcancelled => FinishReason.noConfusion (hreason.symm.trans hcancelled))
    ⟨(1, true), by decide, rfl⟩
  rwa [hsuffix] at hcame

/-- **A stop token in the suffix ends the answer there**: the client has not refused anything, and
no step of the model follows the suffix. -/
theorem suffix_ends_answer : ∃ s',
    (suffix_engine [2]).start_decode thinking_request [0]
      { state := (consumed fun _ => 0).make_state } () = .ok (thinking_start [2]) ∧
    Steps (suffix_engine [2]) thinking_request (thinking_start [2]) [(0, false), (2, true)]
      (.leave s') ∧ s'.finish_reason = .stop := by
  have hrules := thinking_rules_suffix_engine (show _ = [2] by decide +kernel) (by decide +kernel)
  -- the model says 0, which uses up the budget
  obtain ⟨r₁, h₁, -, hnext⟩ := suffix_engine_pass hrules (mlxOnly_thinking_start [2]) .start
    (by decide) rfl
  obtain ⟨s₁, rfl, hmlx, hthinking, -⟩ := hnext rfl
  -- the suffix comes in, and its token ends the answer
  obtain ⟨r₂, h₂, hleave, -⟩ := suffix_engine_pass hrules hmlx h₁ (by rw [hthinking]; decide)
    (by rw [hthinking])
  obtain ⟨hreason, s', rfl⟩ := hleave rfl
  exact ⟨s', start_decode_thinking_start [2], h₂, hreason⟩

end NativeEngine

end Qwen38
