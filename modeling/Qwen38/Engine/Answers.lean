import Qwen38.Engine.Ownership

/-!
# Every request is answered once

An answer is a request's own (`Qwen38.Answer.IsOwn`) when it is the result computed for it,
an error that it raised itself, or an error of the code that the requests of a batch share,
told to a request that the engine had begun with. What is given to a request is its own, and
every request that was accepted is answered or still in its place, as long as an exception
that leaves its place finds no unanswered request with the worker that it does not concern
(`Qwen38.Executor.Isolated`).

Without that condition it fails: the checks of a group throw before any session exists, and
the error of one request goes to all of them. And when the shared loop throws, its error goes
also to the requests that were put off and that it has not begun with.
-/

namespace Qwen38

variable {T : Target} {engine : NativeEngine T}

/-- What is told to this promise, after this history, is about its own request. -/
def Answer.IsOwn (history : List Happening) (promise : Nat) : Answer → Prop
  | .result computed_for _ => computed_for = promise
  | .error thrown => thrown.raised_by = some promise ∨
      thrown.raised_by = none ∧ promise ∈ Executor.started history

/-- An exception that leaves its place is one of this request: it raised it, or it takes part
in the loop that did. -/
def Leak.Concerns (history : List Happening) (promise : Nat) : Leak → Prop
  | .raised_by raised => raised = promise
  | .shared => promise ∈ Executor.started history
  | .after_loop => False

namespace Executor

variable {x y : Executor engine} {history : List Happening} {promise : Nat} {answer : Answer}

/-! ### Answers that are one's own -/

/-- Every answer was its request's own when it was given. -/
def AllOwn (history : List Happening) : Prop :=
  ∀ before promise answer, before ++ [.answered promise answer] <+: history →
    answer.IsOwn before promise

@[simp] theorem started_resolve (history : List Happening) (promise : Nat) (answer : Answer) :
    started (resolve history promise answer) = started history :=
  filterMap_resolve (fun _ _ => rfl) history promise answer

theorem allOwn_nil : AllOwn [] := by
  intro before promise answer hprefix
  have hnil := List.prefix_nil.mp hprefix
  exact absurd hnil (List.append_ne_nil_of_right_ne_nil _ (List.cons_ne_nil _ _))

/-- What happens next is not an answer, or one that is its request's own. -/
theorem AllOwn.concat (h : AllOwn history) {next : Happening}
    (hnext : ∀ promise answer, next = .answered promise answer → answer.IsOwn history promise) :
    AllOwn (history ++ [next]) := by
  intro before promise answer hprefix
  rcases List.prefix_concat_iff.mp hprefix with heq | hprefix
  · obtain ⟨rfl, hlast⟩ := List.append_inj' heq rfl
    exact hnext promise answer (List.cons.inj hlast).1.symm
  · exact h before promise answer hprefix

theorem AllOwn.started (h : AllOwn history) : AllOwn (history ++ [.started promise]) :=
  h.concat fun _ _ heq => Happening.noConfusion heq

theorem AllOwn.answered (h : AllOwn history) (hanswer : answer.IsOwn history promise) :
    AllOwn (history ++ [.answered promise answer]) := by
  refine h.concat fun p a heq => ?_
  obtain ⟨rfl, rfl⟩ := Happening.answered.inj heq
  exact hanswer

theorem AllOwn.abandoned (h : AllOwn history) (requests : List BoundRequest) :
    AllOwn (history ++ requests.map fun bound => .abandoned bound.promise) := by
  induction requests generalizing history with
  | nil => rwa [List.map_nil, List.append_nil]
  | cons bound requests ih =>
    rw [List.map_cons, List.append_cons]
    exact ih (h.concat fun _ _ heq => Happening.noConfusion heq)

theorem AllOwn.resolve (h : AllOwn history)
    (hanswer : Resolved history promise ∨ answer.IsOwn history promise) :
    AllOwn (resolve history promise answer) := by
  rw [Executor.resolve]
  split
  next => exact h
  next hnot => exact h.answered (hanswer.resolve_left hnot)

/-- An error for several requests: of each it is its own, or each has been answered. -/
theorem AllOwn.resolve_all (h : AllOwn history) {thrown : Thrown} {requests : List BoundRequest}
    (hrequests : ∀ b ∈ requests,
      Resolved history b.promise ∨ (Answer.error thrown).IsOwn history b.promise) :
    AllOwn (resolve_all thrown requests history) := by
  induction requests generalizing history with
  | nil => exact h
  | cons bound requests ih =>
    refine ih (h.resolve (hrequests bound List.mem_cons_self)) fun b hb => ?_
    rcases hrequests b (List.mem_cons_of_mem _ hb) with hresolved | hown | ⟨hnone, hstarted⟩
    · exact Or.inl (((later_resolve history bound.promise _).resolved _).mpr (Or.inl hresolved))
    · exact Or.inr (Or.inl hown)
    · exact Or.inr (Or.inr ⟨hnone, (started_resolve history bound.promise _).symm ▸ hstarted⟩)

theorem isOwn_outcome_of (bound : BoundRequest) (outcome : Except String GenerationResult) :
    (outcome_of bound outcome).IsOwn history bound.promise := by
  cases outcome with
  | ok value => rfl
  | error message => exact Or.inl rfl

/-- An exception is the own error of those whom it concerns. -/
theorem isOwn_of_concerns {thrown : Thrown} (h : thrown.leak.Concerns history promise) :
    (Answer.error thrown).IsOwn history promise := by
  obtain ⟨raised_by, message⟩ := thrown
  cases raised_by with
  | none => exact Or.inr ⟨rfl, h⟩
  | some raised => exact Or.inl (congrArg some h)

/-! ### Exceptions that reach others -/

/-- The exception that leaves its place in a step finds no request with the worker but those
that it concerns, and answered ones. -/
def Isolated (x : Executor engine) (leak : Option Leak) : Prop :=
  ∀ cause, leak = some cause → ∀ b ∈ x.worker.held,
    cause.Concerns x.history b.promise ∨ Resolved x.history b.promise

theorem isolated_none : Isolated x none := fun _ hcause => absurd hcause (Option.some_ne_none _).symm

/-- The shared loop has begun with every request that the worker holds. -/
theorem isolated_shared (h : ∀ b ∈ x.worker.held, b.promise ∈ started x.history) :
    Isolated x (some .shared) := by
  intro cause hcause b hb
  obtain rfl := Option.some.inj hcause
  exact Or.inl (h b hb)

theorem Isolated.isOwn {thrown : Thrown} {cause : Leak} (h : Isolated x (some cause))
    (hcause : thrown.leak = cause) : ∀ b ∈ x.worker.held, Resolved x.history b.promise ∨
      (Answer.error thrown).IsOwn x.history b.promise := by
  intro b hb
  subst hcause
  exact (h _ rfl b hb).symm.imp_right isOwn_of_concerns

/-- Behind the loop no request was put off. -/
theorem Isolated.deferred_eq_nil {batch tasks stopping} {loop : Batch engine} {phase : Phase T}
    (hx : Owned ⟨tasks, stopping, .running batch loop phase, history⟩)
    (h : Isolated ⟨tasks, stopping, .running batch loop phase, history⟩ (some .after_loop)) :
    loop.deferred = [] := by
  refine List.eq_nil_iff_forall_not_mem.mpr fun b hb => ?_
  have hresolved := (h _ rfl b (List.mem_append_right _ hb)).resolve_left id
  exact hx.unresolved b (List.mem_append_left _ hb) hresolved

/-- A request of the group that a batch was started with is with the worker or answered. -/
theorem Owned.group_held (hx : x.Owned) (habandoned : abandoned x.history = []) :
    ∀ b ∈ x.worker.group, b ∈ x.worker.held ∨ Resolved x.history b.promise := by
  intro b hb
  rcases hx.covered b (hx.group_known b hb) with (hresolved | habandons) | howned
  · exact Or.inr hresolved
  · exact absurd (habandoned ▸ habandons) List.not_mem_nil
  · refine Or.inl ((List.mem_append.mp howned).resolve_right fun hqueued => ?_)
    exact hx.group_queued b hb b hqueued rfl

theorem allOwn_step {leak : Option Leak} (hx : x.Owned) (habandoned : abandoned x.history = [])
    (h : AllOwn x.history) (hisolated : Isolated x leak) (hstep : Step engine leak x y) :
    AllOwn y.history := by
  cases hstep with
  | enqueue task hopen hfresh => exact h.concat fun _ _ heq => Happening.noConfusion heq
  | alone_done outcome =>
    cases outcome with
    | ok value => exact h.answered rfl
    | error message => exact h.resolve (Or.inr (Or.inl rfl))
  | refuse_group hcheck => exact h.resolve_all (hisolated.isOwn rfl)
  | setup_throws message =>
    refine h.resolve_all fun b hb => ?_
    rcases hx.group_held habandoned b hb with hheld | hresolved
    · exact hisolated.isOwn rfl b hheld
    · exact Or.inl hresolved
  | begin_session_fails message => exact h.started.resolve (Or.inr (Or.inl rfl))
  | loop_throws message hsome => exact h.resolve_all (hisolated.isOwn rfl)
  | row_throws message hsession => exact h.resolve_all (hisolated.isOwn rfl)
  | collect_finished hsession hactive => exact h.resolve (Or.inr rfl)
  | collect_throws message hsession hactive => exact h.resolve_all (hisolated.isOwn rfl)
  | refill_refused hroom hgroup hcheck => exact h.resolve (Or.inr (Or.inl rfl))
  | refill_fails message hroom hgroup hcheck hfits =>
    exact h.started.resolve (Or.inr (Or.inl rfl))
  | prefill_fails message hslot hsession => exact h.resolve (Or.inr (Or.inl rfl))
  | @cleanup_throws batch loop _ _ _ message hempty =>
    -- what the loop held is gone, so every request of the group has its answer
    refine (h.resolve_all fun b hb => Or.inl ?_).abandoned _
    refine (hx.group_held habandoned b hb).resolve_left fun hheld => ?_
    rw [Worker.held, hempty, Isolated.deferred_eq_nil hx hisolated] at hheld
    exact List.not_mem_nil hheld
  | one_done outcome =>
    exact h.started.resolve (Or.inr (isOwn_outcome_of _ outcome))
  | take_alone | close_single | begin_session | refill_admitted => exact h.started
  | clear_done => exact h.concat fun _ _ heq => Happening.noConfusion heq
  | _ => exact h

/-! ### Requests that are given up -/

theorem abandoned_append (before after : List Happening) :
    abandoned (before ++ after) = abandoned before ++ abandoned after := List.filterMap_append

@[simp] theorem abandoned_resolve (history : List Happening) (promise : Nat) (answer : Answer) :
    abandoned (resolve history promise answer) = abandoned history :=
  filterMap_resolve (fun _ _ => rfl) history promise answer

@[simp] theorem abandoned_resolve_all (thrown : Thrown) (requests : List BoundRequest)
    (history : List Happening) :
    abandoned (resolve_all thrown requests history) = abandoned history :=
  filterMap_resolve_all (fun _ _ => rfl) thrown requests history

/-- Only an exception behind the loop gives requests up: those that were put off. -/
theorem abandoned_step {leak : Option Leak} (hx : x.Owned) (hisolated : Isolated x leak)
    (hstep : Step engine leak x y) (h : abandoned x.history = []) :
    abandoned y.history = [] := by
  cases hstep with
  | @cleanup_throws batch loop _ _ history message hempty =>
    have hdeferred : loop.deferred = [] := Isolated.deferred_eq_nil hx hisolated
    simpa [hdeferred] using h
  | alone_done outcome =>
    cases outcome with
    | ok value => simpa [abandoned] using h
    | error message => simpa using h
  | loop_throws | row_throws | collect_throws => simpa [fail_batch] using h
  | refuse_group | setup_throws | collect_finished | refill_refused | prefill_fails =>
    simpa using h
  | begin_session_fails | refill_fails | one_done =>
    rw [abandoned_resolve, abandoned_append, h]
    rfl
  | enqueue | take_alone | close_single | begin_session | refill_admitted | clear_done =>
    rw [abandoned_append, h]
    rfl
  | _ => exact h

/-! ### The stop -/

/-- The worker leaves when nothing is left to do, and nothing comes in any more. -/
theorem stopped_step {leak : Option Leak}
    (h : x.worker = .stopped → x.tasks = [] ∧ x.stopping = true)
    (hstep : Step engine leak x y) : y.worker = .stopped → y.tasks = [] ∧ y.stopping = true := by
  cases hstep with
  | enqueue task hopen hfresh =>
    intro hworker
    exact absurd (h hworker).2 (by simp [hopen])
  | stop => exact fun hworker => ⟨(h hworker).1, rfl⟩
  | leave hempty => exact fun _ => ⟨hempty, rfl⟩
  | _ => exact nofun

/-! ### The result -/

/-- **Every request that was accepted is answered once, with what is its own.** -/
structure Answered (x : Executor engine) : Prop where
  once : ((answers x.history).map Prod.fst).Nodup
  own : AllOwn x.history
  accepted : ∀ p, Resolved x.history p → ∃ b, .generate b ∈ accepted x.history ∧ b.promise = p
  begun_once : (started x.history).Nodup
  /-- None is dropped. -/
  kept : ∀ b, .generate b ∈ Executor.accepted x.history →
    Resolved x.history b.promise ∨ b ∈ x.worker.held ++ queued x.tasks
  one_place : ((x.worker.held ++ queued x.tasks).map BoundRequest.promise).Nodup
  at_stop : x.worker = .stopped →
    ∀ b, .generate b ∈ Executor.accepted x.history → Resolved x.history b.promise

theorem answered_of_reaches (h : Reaches engine Isolated x) : x.Answered := by
  have hinv : AllOwn x.history ∧ abandoned x.history = [] ∧
      (x.worker = .stopped → x.tasks = [] ∧ x.stopping = true) := by
    induction h with
    | start => exact ⟨allOwn_nil, rfl, nofun⟩
    | step hreaches hisolated hstep ih =>
      obtain ⟨hown, habandoned, hstopped⟩ := ih
      have hx := (owned_of_reaches hreaches).1
      refine ⟨allOwn_step hx habandoned hown hisolated hstep, ?_, stopped_step hstopped hstep⟩
      exact abandoned_step hx hisolated hstep habandoned
  obtain ⟨hown, habandoned, hstopped⟩ := hinv
  have howned := (owned_of_reaches h).1
  have hkept : ∀ b, .generate b ∈ accepted x.history →
      Resolved x.history b.promise ∨ b ∈ x.worker.held ++ queued x.tasks := by
    intro b hb
    refine (howned.covered b hb).imp_left fun hfinished => hfinished.resolve_right ?_
    rw [habandoned]
    exact List.not_mem_nil
  constructor
  case once => exact howned.answers_nodup
  case own => exact hown
  case accepted => exact howned.resolved_known
  case begun_once => exact howned.started_nodup
  case kept => exact hkept
  case one_place => exact howned.nodup
  case at_stop =>
    intro hworker b hb
    refine (hkept b hb).resolve_right ?_
    rw [hworker, (hstopped hworker).1]
    exact List.not_mem_nil

/-! ### A shared error -/

/-- Two requests of a batch are told that the shared step failed, and the worker stops. -/
theorem answered_of_reaches_two : ∃ x : Executor small_engine,
    x.history = [.enqueued (.generate (request_for 1 3)), .enqueued (.generate (request_for 2 3)),
      .started 1, .started 2, .answered 1 (.error ⟨none, "decode failed"⟩),
      .answered 2 (.error ⟨none, "decode failed"⟩)] ∧ x.worker = .stopped ∧ Answered x := by
  have hgroup : Reaches small_engine Isolated _ :=
    .step (.step (.step (.step (.step .start isolated_none
      (.enqueue (.generate (request_for 1 3)) rfl (by simp))) isolated_none
      (.enqueue (.generate (request_for 2 3)) rfl (by simp [request_for, Task.promise])))
      isolated_none (.take_group rfl)) isolated_none (.extend_group (by decide) rfl))
      isolated_none (.close_group (by decide) (Or.inr rfl))
  have hbegun := (((hgroup.step isolated_none (.enter_group rfl)).step isolated_none
    (.begin_session rfl)).step isolated_none (.begin_session rfl)).step isolated_none
    .sessions_begun
  have hthrown := hbegun.step
    (isolated_shared (by simp [Worker.held, started, NativeEngine.new_session]))
    (.loop_throws "decode failed" (by simp))
  have hstopped := (hthrown.step isolated_none .stop).step isolated_none (.leave rfl)
  exact ⟨_, rfl, rfl, answered_of_reaches hstopped⟩

/-- The error of the first request is what the second one is told. -/
theorem not_all_own : ¬∀ x : Executor small_engine,
    Reaches small_engine (fun _ _ => True) x → AllOwn x.history := by
  intro h
  have hrun : Reaches small_engine (fun _ _ => True) _ :=
    .step (.step (.step (.step (.step (.step .start trivial
      (.enqueue (.generate (request_for 1 0)) rfl nofun)) trivial
      (.enqueue (.generate (request_for 2 1)) rfl (by simp [request_for, Task.promise]))) trivial
      (.take_group rfl)) trivial (.extend_group (by decide) rfl)) trivial
      (.close_group (by decide) (Or.inr rfl))) trivial (.refuse_group rfl)
  have hown := h _ hrun
    [.enqueued (.generate (request_for 1 0)), .enqueued (.generate (request_for 2 1)),
      .answered 1 (.error ⟨some 1, "batched max_tokens is outside the configured limit"⟩)]
    2 (.error ⟨some 1, "batched max_tokens is outside the configured limit"⟩) ⟨[], rfl⟩
  simp [Answer.IsOwn] at hown

end Executor

end Qwen38
