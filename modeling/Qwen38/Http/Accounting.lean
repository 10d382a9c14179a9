import Mathlib.Algebra.BigOperators.Group.List.Basic
import Mathlib.Logic.Relation
import Qwen38.Lib.Except
import Qwen38.Text.Stream

/-!
# The accounts of the requests

`request_started` and `request_finished` around the two ways a completion is answered. The
counters of `RuntimeState` are atomic and each is touched once by a call, so that what the
requests do to them is a list of updates for each request; any number of requests makes its
updates in any order among them (`Qwen38.Accounting.Step`).

The engine is a strategy: it hands over a delta, is told whether the client is still there, and
goes on, returns or throws. A client that leaves is noticed by the sink, and is counted as
cancelled when the engine says so (`Qwen38.Accounting.accounts_balance`).
-/

namespace Qwen38

namespace Accounting

open Sse (Sink Options)

/-! ### The counters -/

/-- `RuntimeState`: its counters. -/
structure RuntimeState where
  requests_total : UInt64 := 0
  requests_active : UInt64 := 0
  requests_cancelled : UInt64 := 0
  prompt_tokens_total : UInt64 := 0
  generated_tokens_total : UInt64 := 0

/-- One `fetch_add` or `fetch_sub`. -/
inductive Update
  | total
  | activate
  | deactivate
  | cancelled
  | prompt_tokens (count : UInt64)
  | generated_tokens (count : UInt64)
deriving DecidableEq

def Update.apply (runtime : RuntimeState) : Update → RuntimeState
  | .total => { runtime with requests_total := runtime.requests_total + 1 }
  | .activate => { runtime with requests_active := runtime.requests_active + 1 }
  | .deactivate => { runtime with requests_active := runtime.requests_active - 1 }
  | .cancelled => { runtime with requests_cancelled := runtime.requests_cancelled + 1 }
  | .prompt_tokens count =>
    { runtime with prompt_tokens_total := runtime.prompt_tokens_total + count }
  | .generated_tokens count =>
    { runtime with generated_tokens_total := runtime.generated_tokens_total + count }

/-- `RuntimeState::request_started`. -/
def request_started : List Update := [.total, .activate]

/-- `RuntimeState::request_finished`. -/
def request_finished (prompt_tokens generated_tokens : UInt64) (cancelled : Bool) : List Update :=
  .deactivate :: ((if cancelled then [.cancelled] else []) ++
    [.prompt_tokens prompt_tokens, .generated_tokens generated_tokens])

/-! ### The requests -/

/-- What the handler counts of a `GenerationResult`. -/
structure GenerationResult where
  prompt_tokens : UInt64
  /-- `tokens.size()`. -/
  tokens_size : UInt64
  finish_reason : FinishReason

/-- A run of `complete_stream`, from here on. -/
inductive Generation
  | returned (result : GenerationResult)
  | threw (what : Bytes)
  /-- A call of `on_delta`, and the run behind what it answers. -/
  | delta (text : Bytes) (next : Bool → Generation)

section Serve

variable (sink : Sink) (options : Options) (numbers : NumberText)

/-- The generation, with the variables of the callbacks behind it. -/
def Generation.run : Generation → Sse.State → Sse.State × Except Bytes GenerationResult
  | .returned result, s => (s, .ok result)
  | .threw what, s => (s, .error what)
  | .delta text next, s =>
    let s := Sse.on_delta sink options text s
    (next s.connected).run s

/-- The `body_stream` of a request, with its updates. -/
def serve_stream (generation : Generation) : Sse.State × List Update :=
  let s := Sse.start sink options
  if s.connected then
    match generation.run sink options s with
    | (s, .ok result) =>
      let (s, finish_reason) := Sse.flush_tools sink options numbers result.finish_reason
        (Sse.flush_thinking sink options s)
      (Sse.emit_json sink .done (Sse.emit_json sink (.finish finish_reason) s),
        request_started ++ request_finished result.prompt_tokens result.tokens_size
          (finish_reason = .cancelled))
    | (s, .error what) =>
      (Sse.emit_json sink .done (Sse.emit_json sink (.generation_error what) s),
        request_started ++ request_finished 0 0 false)
  else (s, request_started ++ request_finished 0 0 true)

end Serve

/-- A request, by how it is answered. -/
inductive Request
  /-- Before the engine is called: another target, an engine that is not ready, a body that is
  not accepted, a stream whose headers cannot be sent. -/
  | refused
  /-- By `complete`, which returns or throws. -/
  | completion (result : Option GenerationResult)
  /-- By a stream. -/
  | stream (sink : Sink) (options : Options) (generation : Generation)

variable {numbers : NumberText}

variable (numbers) in
/-- The updates of a request, in order. -/
def Request.updates : Request → List Update
  | .refused => []
  | .completion (some result) =>
    request_started ++ request_finished result.prompt_tokens result.tokens_size false
  | .completion none => request_started ++ request_finished 0 0 false
  | .stream sink options generation => (serve_stream sink options numbers generation).2

/-- The server: the counters, the requests so far, and the updates they still have to make. -/
structure Server where
  runtime : RuntimeState := {}
  arrived : List Request := []
  pending : List (List Update) := []

variable (numbers) in
/-- A request arrives, or one of them makes its next update. -/
inductive Step (s : Server) : Server → Prop
  | arrive (request : Request) :
    Step s { s with
      arrived := request :: s.arrived
      pending := request.updates numbers :: s.pending }
  | update {before after : List (List Update)} {update : Update} {rest : List Update}
      (h : s.pending = before ++ (update :: rest) :: after) :
    Step s { s with
      runtime := update.apply s.runtime
      pending := before ++ rest :: after }

variable (numbers) in
/-- The states the server comes to. -/
def Reaches (s : Server) : Prop := Relation.ReflTransGen (Step numbers) {} s

/-- Is the request between its two calls? -/
def in_progress (rest : List Update) : Nat := rest.count .deactivate - rest.count .activate

/-- How many requests are. -/
def Server.active (s : Server) : Nat := (s.pending.map in_progress).sum

/-! ### One request -/

/-- A run of the engine is a sequence of deltas and what it ends with. -/
theorem Generation.run_eq (sink : Sink) (options : Options) (generation : Generation)
    (s : Sse.State) :
    ∃ deltas, (generation.run sink options s).1 = Sse.on_deltas sink options deltas s := by
  induction generation generalizing s with
  | returned result => exact ⟨[], rfl⟩
  | threw what => exact ⟨[], rfl⟩
  | delta text next ih =>
    obtain ⟨deltas, hdeltas⟩ := ih _ (Sse.on_delta sink options text s)
    exact ⟨text :: deltas, hdeltas⟩

/-- **The stream that is accounted for** is the one of `Qwen38.Sse.body_stream`. -/
theorem serve_stream_eq (sink : Sink) (options : Options) (generation : Generation) :
    ∃ deltas result, (serve_stream sink options numbers generation).1 =
      Sse.body_stream sink options numbers deltas result := by
  obtain ⟨deltas, hdeltas⟩ := generation.run_eq sink options (Sse.start sink options)
  rw [serve_stream]
  dsimp only
  rcases hrun : generation.run sink options (Sse.start sink options) with ⟨s, what | result⟩
  · refine ⟨deltas, .error what, ?_⟩
    rw [Sse.body_stream, ← hdeltas, hrun]
    split <;> rfl
  · refine ⟨deltas, .ok result.finish_reason, ?_⟩
    rw [Sse.body_stream, ← hdeltas, hrun]
    split <;> rfl

/-- The account of a request: none, or one of each call. -/
inductive Account : List Update → Prop
  | none : Account []
  | once (prompt_tokens generated_tokens : UInt64) (cancelled : Bool) :
    Account (request_started ++ request_finished prompt_tokens generated_tokens cancelled)

variable (numbers) in
theorem Request.account (request : Request) : Account (request.updates numbers) := by
  cases request with
  | refused => exact .none
  | completion result =>
    cases result with
    | none => exact .once _ _ _
    | some result => exact .once _ _ _
  | stream sink options generation =>
    rw [Request.updates, serve_stream]
    dsimp only
    split
    · rcases generation.run sink options (Sse.start sink options) with ⟨s, what | result⟩
      · exact .once _ _ _
      · exact .once _ _ _
    · exact .once _ _ _

theorem Account.count_cancelled {updates : List Update} (h : Account updates) :
    updates.count .cancelled ≤ 1 := by
  cases h with
  | none => exact Nat.zero_le _
  | once p g c => cases c <;> simp [request_started, request_finished]

theorem Account.count_activate {updates : List Update} (h : Account updates) :
    updates.count .activate = updates.count .deactivate := by
  cases h with
  | none => rfl
  | once p g c => cases c <;> rfl

/-- The updates behind each other have the two calls in their order. -/
theorem Account.le_of_suffix {updates rest : List Update} (h : Account updates)
    (hrest : rest <:+ updates) : rest.count .activate ≤ rest.count .deactivate := by
  cases h with
  | none => rw [List.suffix_nil.mp hrest]; exact le_refl _
  | once p g c =>
    rw [request_started, List.cons_append, List.cons_append, List.nil_append] at hrest
    have hfinished : (request_finished p g c).count .activate = 0 := by
      cases c <;> simp [request_finished]
    have hone : (request_finished p g c).count .deactivate = 1 := by
      cases c <;> simp [request_finished]
    rcases List.suffix_cons_iff.mp hrest with rfl | hrest
    · simp [hfinished, hone]
    rcases List.suffix_cons_iff.mp hrest with rfl | hrest
    · simp [hfinished, hone]
    · have hle := hrest.sublist.count_le Update.activate
      omega

/-! ### Any number of requests -/

theorem sum_pending {s : Server} {before after : List (List Update)} {update : Update}
    {rest : List Update} (h : s.pending = before ++ (update :: rest) :: after)
    (f : List Update → Nat) :
    (s.pending.map f).sum + f rest =
      ((before ++ rest :: after).map f).sum + f (update :: rest) := by
  rw [h]
  simp only [List.map_append, List.map_cons, List.sum_append, List.sum_cons]
  omega

theorem requests_total_apply (update : Update) (runtime : RuntimeState) (h : update ≠ .total) :
    (update.apply runtime).requests_total = runtime.requests_total := by
  cases update with
  | total => exact absurd rfl h
  | _ => rfl

theorem requests_cancelled_apply (update : Update) (runtime : RuntimeState)
    (h : update ≠ .cancelled) :
    (update.apply runtime).requests_cancelled = runtime.requests_cancelled := by
  cases update with
  | cancelled => exact absurd rfl h
  | _ => rfl

section Counter

variable (counter : RuntimeState → UInt64) (counted : Update)

/-- **A counter that one update counts**: with the updates that are still to come, it has the
number of these updates of all requests. -/
theorem counter_of_reaches
    (hcounted : ∀ runtime, counter (counted.apply runtime) = counter runtime + 1)
    (hother : ∀ update runtime, update ≠ counted →
      counter (update.apply runtime) = counter runtime)
    (hzero : counter {} = 0) {s : Server} (h : Reaches numbers s) :
    counter s.runtime + .ofNat (s.pending.map fun rest => rest.count counted).sum =
      .ofNat (s.arrived.map fun request => (request.updates numbers).count counted).sum := by
  induction h with
  | refl => rw [hzero]; rfl
  | @tail s s' _ hstep ih =>
    cases hstep with
    | arrive request =>
      dsimp only
      rw [List.map_cons, List.sum_cons, List.map_cons, List.sum_cons, UInt64.ofNat_add,
        UInt64.ofNat_add, ← ih]
      ac_rfl
    | @update before after update rest hpending =>
      dsimp only
      rw [← ih]
      have hsum := sum_pending hpending fun rest => rest.count counted
      by_cases hu : update = counted
      · rw [hu, List.count_cons_self] at hsum
        have hsucc : (s.pending.map fun rest => rest.count counted).sum =
            ((before ++ rest :: after).map fun rest => rest.count counted).sum + 1 := by omega
        rw [hu, hcounted, hsucc, UInt64.ofNat_add, UInt64.ofNat_one]
        ac_rfl
      · rw [List.count_cons_of_ne hu] at hsum
        rw [hother _ _ hu, Nat.add_right_cancel hsum]

end Counter

/-- The requests that are between their two calls. -/
theorem active_of_reaches {s : Server} (h : Reaches numbers s) :
    s.runtime.requests_active + .ofNat (s.pending.map fun rest => rest.count .activate).sum =
      .ofNat (s.pending.map fun rest => rest.count .deactivate).sum := by
  induction h with
  | refl => rfl
  | @tail s s' _ hstep ih =>
    cases hstep with
    | arrive request =>
      -- a new request adds one call of each kind
      have hsame := (request.account numbers).count_activate
      dsimp only
      rw [List.map_cons, List.sum_cons, List.map_cons, List.sum_cons, UInt64.ofNat_add,
        UInt64.ofNat_add, ← ih, hsame]
      ac_rfl
    | @update before after update rest hpending =>
      -- an update moves its own call from what is pending to the counter
      have hup := sum_pending hpending fun rest => rest.count .activate
      have hdown := sum_pending hpending fun rest => rest.count .deactivate
      dsimp only at hup hdown ⊢
      generalize ((before ++ rest :: after).map fun rest => rest.count Update.activate).sum = up
        at hup ⊢
      generalize ((before ++ rest :: after).map fun rest => rest.count Update.deactivate).sum =
        down at hdown ⊢
      generalize (s.pending.map fun rest => rest.count Update.activate).sum = up' at hup ih
      generalize (s.pending.map fun rest => rest.count Update.deactivate).sum = down' at hdown ih
      rw [List.count_cons] at hup hdown
      have hup' : up' = up + if update == .activate then 1 else 0 := by omega
      have hdown' : down' = down + if update == .deactivate then 1 else 0 := by omega
      rw [hup', hdown', UInt64.ofNat_add, UInt64.ofNat_add] at ih
      cases update with
      | activate => grind [Update.apply]
      | deactivate => grind [Update.apply]
      | _ => grind [Update.apply]

/-- What a request still has to do is a part of its account. -/
theorem suffix_of_reaches {s : Server} (h : Reaches numbers s) :
    ∀ rest ∈ s.pending, ∃ request ∈ s.arrived, rest <:+ request.updates numbers := by
  induction h with
  | refl => exact List.forall_mem_nil _
  | @tail s s' _ hstep ih =>
    cases hstep with
    | arrive request =>
      refine List.forall_mem_cons.mpr ⟨⟨request, List.mem_cons_self, List.suffix_refl _⟩, ?_⟩
      intro rest hrest
      obtain ⟨request', hmem, hsuffix⟩ := ih rest hrest
      exact ⟨request', List.mem_cons_of_mem _ hmem, hsuffix⟩
    | @update before after update rest hpending =>
      intro rest' hrest'
      rw [hpending] at ih
      rcases List.mem_append.mp hrest' with hmem | hmem
      · exact ih rest' (List.mem_append_left _ hmem)
      rcases List.mem_cons.mp hmem with rfl | hmem
      · obtain ⟨request, hrequest, hsuffix⟩ :=
          ih (update :: rest') (List.mem_append_right _ List.mem_cons_self)
        exact ⟨request, hrequest, (List.suffix_cons update rest').trans hsuffix⟩
      · exact ih rest' (List.mem_append_right _ (List.mem_cons_of_mem _ hmem))

theorem le_of_reaches {s : Server} (h : Reaches numbers s) {rest : List Update}
    (hrest : rest ∈ s.pending) : rest.count .activate ≤ rest.count .deactivate := by
  obtain ⟨request, -, hsuffix⟩ := suffix_of_reaches h rest hrest
  exact (request.account numbers).le_of_suffix hsuffix

theorem sum_in_progress {pending : List (List Update)}
    (h : ∀ rest ∈ pending, rest.count .activate ≤ rest.count .deactivate) :
    (pending.map fun rest => rest.count .deactivate).sum =
      (pending.map in_progress).sum + (pending.map fun rest => rest.count .activate).sum := by
  induction pending with
  | nil => rfl
  | cons rest pending ih =>
    rw [List.forall_mem_cons] at h
    rw [List.map_cons, List.sum_cons, ih h.2, List.map_cons, List.sum_cons, List.map_cons,
      List.sum_cons, in_progress]
    omega

theorem sum_count_of_done {pending : List (List Update)} (h : ∀ rest ∈ pending, rest = [])
    (update : Update) : (pending.map fun rest => rest.count update).sum = 0 := by
  induction pending with
  | nil => rfl
  | cons rest pending ih =>
    rw [List.forall_mem_cons] at h
    rw [List.map_cons, List.sum_cons, ih h.2, h.1]
    rfl

/-- **How the counters stand.** -/
structure Balanced (numbers : NumberText) (s : Server) : Prop where
  /-- The active count is the number of requests between their two calls. -/
  active : s.runtime.requests_active = .ofNat s.active
  /-- It is decremented only when there is such a request. -/
  no_underflow : ∀ before rest after, s.pending = before ++ (.deactivate :: rest) :: after →
    0 < s.active
  /-- When every request is done, all have been counted, and so have those that were
  cancelled. -/
  total : (∀ rest ∈ s.pending, rest = []) → s.runtime.requests_total =
    .ofNat (s.arrived.map fun request => (request.updates numbers).count .total).sum
  cancelled : (∀ rest ∈ s.pending, rest = []) → s.runtime.requests_cancelled =
    .ofNat (s.arrived.map fun request => (request.updates numbers).count .cancelled).sum

theorem balanced_of_reaches {s : Server} (h : Reaches numbers s) : Balanced numbers s := by
  constructor
  case active =>
    have hactive := active_of_reaches h
    rw [sum_in_progress fun rest hrest => le_of_reaches h hrest, UInt64.ofNat_add] at hactive
    exact (UInt64.add_left_inj _).mp hactive
  case no_underflow =>
    intro before rest after hpending
    -- a request that is about to be counted down has been counted up
    have hone : 1 ≤ in_progress (.deactivate :: rest) := by
      obtain ⟨request, -, hsuffix⟩ := suffix_of_reaches h (.deactivate :: rest)
        (hpending ▸ List.mem_append_right _ List.mem_cons_self)
      have hle := (request.account numbers).le_of_suffix
        ((List.suffix_cons Update.deactivate rest).trans hsuffix)
      rw [in_progress, List.count_cons_self, List.count_cons_of_ne (by decide)]
      omega
    rw [Server.active, hpending, List.map_append, List.map_cons, List.sum_append, List.sum_cons]
    omega
  case total =>
    intro hdone
    have hcount := counter_of_reaches RuntimeState.requests_total .total (fun _ => rfl)
      requests_total_apply rfl h
    rw [sum_count_of_done hdone] at hcount
    rw [← hcount]
    exact (UInt64.add_zero _).symm
  case cancelled =>
    intro hdone
    have hcount := counter_of_reaches RuntimeState.requests_cancelled .cancelled (fun _ => rfl)
      requests_cancelled_apply rfl h
    rw [sum_count_of_done hdone] at hcount
    rw [← hcount]
    exact (UInt64.add_zero _).symm

/-! ### The requests that are cancelled -/

/-- The engine's side of `on_delta`: once it has been told that the client is gone, and only then,
it returns with `cancelled`. -/
def Generation.Honest (left : Bool) : Generation → Prop
  | .returned result => result.finish_reason = .cancelled ↔ left = true
  | .threw _ => True
  | .delta _ next => ∀ connected, (next connected).Honest (left || !connected)

theorem flush_tools_reason {sink : Sink} {options : Options} {s : Sse.State}
    {finish_reason : FinishReason} :
    (Sse.flush_tools sink options numbers finish_reason s).2 = finish_reason ∨
      (Sse.flush_tools sink options numbers finish_reason s).2 = .tool_calls := by
  rw [Sse.flush_tools]
  split
  · split
    · dsimp only
      split
      · exact Or.inl rfl
      · exact Or.inr rfl
    · exact Or.inl rfl
  · exact Or.inl rfl

/-- What an honest engine returns tells whether the client was gone. -/
theorem Generation.Honest.run {sink : Sink} {options : Options} {generation : Generation}
    {s s' : Sse.State} {result : GenerationResult} (h : generation.Honest (!s.connected))
    (hrun : generation.run sink options s = (s', .ok result)) :
    result.finish_reason = .cancelled ↔ s'.connected = false := by
  induction generation generalizing s with
  | returned returned =>
    rw [Generation.run, Prod.mk.injEq, Except.ok.injEq] at hrun
    obtain ⟨rfl, rfl⟩ := hrun
    rw [← Bool.not_eq_true']
    exact h
  | threw what =>
    rw [Generation.run, Prod.mk.injEq] at hrun
    exact absurd hrun.2 Except.error_ne_ok
  | delta text next ih =>
    rw [Generation.run] at hrun
    refine ih _ ?_ hrun
    have hnext := h (Sse.on_delta sink options text s).connected
    rcases hc : s.connected with _ | _
    · rw [Sse.on_delta_of_not_connected hc] at hnext ⊢
      rw [hc] at hnext ⊢
      exact hnext
    · rwa [hc, Bool.not_true, Bool.false_or] at hnext

/-- **When a request is counted as cancelled.** Of a stream whose collected text was parsed into
tool calls this says nothing. -/
structure Counted (numbers : NumberText) (request : Request) : Prop where
  account : Account (request.updates numbers)
  at_most_once : (request.updates numbers).count .cancelled ≤ 1
  completion : ∀ result, request = .completion result →
    (request.updates numbers).count .cancelled = 0
  /-- The client leaves before the engine is called. -/
  early : ∀ sink options generation, request = .stream sink options generation →
    (Sse.start sink options).connected = false → (request.updates numbers).count .cancelled = 1
  /-- The engine throws. -/
  threw : ∀ sink options generation s what, request = .stream sink options generation →
    (Sse.start sink options).connected = true →
    generation.run sink options (Sse.start sink options) = (s, .error what) →
    (request.updates numbers).count .cancelled = 0
  /-- The engine returns. -/
  returned : ∀ sink options generation s result, request = .stream sink options generation →
    (Sse.start sink options).connected = true →
    generation.run sink options (Sse.start sink options) = (s, .ok result) →
    (Sse.flush_tools sink options numbers result.finish_reason
      (Sse.flush_thinking sink options s)).2 ≠ .tool_calls →
    ((request.updates numbers).count .cancelled = 1 ↔ result.finish_reason = .cancelled) ∧
    (generation.Honest false →
      ((request.updates numbers).count .cancelled = 1 ↔ s.connected = false))

theorem count_finished (p g : UInt64) (c : Bool) :
    (request_started ++ request_finished p g c).count .cancelled = if c then 1 else 0 := by
  cases c <;> rfl

theorem Request.counted (request : Request) : Counted numbers request := by
  have hstream : ∀ {sink options generation}, request = .stream sink options generation →
      request.updates numbers = (serve_stream sink options numbers generation).2 := by
    rintro sink options generation rfl
    rfl
  constructor
  case account => exact request.account numbers
  case at_most_once => exact (request.account numbers).count_cancelled
  case completion =>
    rintro result rfl
    cases result <;> exact count_finished _ _ false
  case early =>
    intro sink options generation hrequest hstart
    -- the client has left before the engine is asked
    rw [hstream hrequest, serve_stream]
    dsimp only
    rw [hstart, if_neg Bool.false_ne_true]
    exact count_finished 0 0 true
  case threw =>
    intro sink options generation s what hrequest hstart hrun
    rw [hstream hrequest, serve_stream]
    dsimp only
    -- an exception of the engine is no cancellation
    rw [hstart, if_pos rfl, hrun]
    exact count_finished 0 0 false
  case returned =>
    intro sink options generation s result hrequest hstart hrun htools
    -- without a call at its end the reason is the one of the result
    have hreason := flush_tools_reason.resolve_right htools
    have hcount : (request.updates numbers).count .cancelled =
        if result.finish_reason = .cancelled then 1 else 0 := by
      rw [hstream hrequest, serve_stream]
      dsimp only
      rw [hstart, if_pos rfl, hrun]
      dsimp only
      rw [count_finished, hreason]
      exact if_congr decide_eq_true_iff rfl rfl
    have hiff : (request.updates numbers).count .cancelled = 1 ↔
        result.finish_reason = .cancelled := by
      rw [hcount]
      split
      next h => exact iff_of_true rfl h
      next h => exact iff_of_false (by decide) h
    refine ⟨hiff, fun hhonest => hiff.trans ?_⟩
    refine Generation.Honest.run ?_ hrun
    rwa [hstart]

/-- **The accounts of the requests**, in every state the server comes to: the counters balance,
and every request has been counted as its stream went. -/
theorem accounts_balance {s : Server} (h : Reaches numbers s) :
    Balanced numbers s ∧ ∀ request ∈ s.arrived, Counted numbers request :=
  ⟨balanced_of_reaches h, fun request _ => request.counted⟩

/-- A stream whose client leaves at the finish event. -/
def late_leaver : Request :=
  .stream (fun _ _ => false) ⟨false, false, []⟩ (.returned ⟨1, 1, .stop⟩)

/-- The request of the late leaver, between its two calls. -/
theorem accounts_balance_late : ∃ s : Server, s.runtime.requests_total = 1 ∧
    s.runtime.requests_active = 1 ∧ Balanced .integers s ∧
      ∀ request ∈ s.arrived, Counted .integers request := by
  have harrived : Reaches .integers _ := .single (.arrive late_leaver)
  have htotal := harrived.tail (@Step.update .integers _ [] [] _ _ rfl)
  have hactive := htotal.tail (@Step.update .integers _ [] [] _ _ rfl)
  exact ⟨_, rfl, rfl, accounts_balance hactive⟩

/-- The client has gone and nothing was cancelled. -/
theorem not_cancelled_exactly_once :
    ¬∀ (sink : Sink) (options : Options) (generation : Generation),
      (serve_stream sink options .integers generation).1.connected = false →
      (serve_stream sink options .integers generation).2.count .cancelled = 1 := by
  intro h
  have hcount := h (fun _ _ => false) ⟨false, false, []⟩ (.returned ⟨1, 1, .stop⟩) rfl
  revert hcount
  decide

end Accounting

end Qwen38
