import Mathlib.Data.List.Basic
import Qwen38.Engine.Ownership

/-!
# A clear is a barrier

What the worker has taken from the queue is what arrived first, and of it only the last
task can be a clear that has not run (`Qwen38.Executor.InOrder`). Together with the one
place of every request this orders the requests around a clear
(`Qwen38.Executor.barrier_of_reaches`): when it runs, all that came before it are over, and
none that came after it starts before it has run. A request that is put off is no
exception, since the batch it waits for ends before the worker looks at the queue again.
-/

namespace Qwen38

namespace Executor

variable {T : Target} {engine : NativeEngine T} {x y : Executor engine} {popped : List Task}

/-! ### Events -/

@[simp] theorem accepted_append (before after : List Happening) :
    accepted (before ++ after) = accepted before ++ accepted after := List.filterMap_append

@[simp] theorem accepted_enqueued (task : Task) : accepted [.enqueued task] = [task] := rfl

@[simp] theorem accepted_started (promise : Nat) : accepted [.started promise] = [] := rfl

@[simp] theorem accepted_answered (promise : Nat) (answer : Answer) :
    accepted [.answered promise answer] = [] := rfl

@[simp] theorem accepted_cleared (promise : Nat) : accepted [.cleared promise] = [] := rfl

@[simp] theorem accepted_resolve (history : List Happening) (promise : Nat) (answer : Answer) :
    accepted (resolve history promise answer) = accepted history :=
  filterMap_resolve (fun _ _ => rfl) history promise answer

@[simp] theorem accepted_resolve_all (thrown : Thrown) (requests : List BoundRequest)
    (history : List Happening) :
    accepted (resolve_all thrown requests history) = accepted history :=
  filterMap_resolve_all (fun _ _ => rfl) thrown requests history

@[simp] theorem cleared_append (before after : List Happening) :
    cleared (before ++ after) = cleared before ++ cleared after := List.filterMap_append

@[simp] theorem cleared_started (promise : Nat) : cleared [.started promise] = [] := rfl

@[simp] theorem cleared_answered (promise : Nat) (answer : Answer) :
    cleared [.answered promise answer] = [] := rfl

@[simp] theorem cleared_resolve (history : List Happening) (promise : Nat) (answer : Answer) :
    cleared (resolve history promise answer) = cleared history :=
  filterMap_resolve (fun _ _ => rfl) history promise answer

@[simp] theorem cleared_resolve_all (thrown : Thrown) (requests : List BoundRequest)
    (history : List Happening) :
    cleared (resolve_all thrown requests history) = cleared history :=
  filterMap_resolve_all (fun _ _ => rfl) thrown requests history

@[simp] theorem accepted_abandon (requests : List BoundRequest) :
    accepted (requests.map fun bound => .abandoned bound.promise) = [] := by
  induction requests with
  | nil => rfl
  | cons bound requests ih => exact ih

@[simp] theorem cleared_abandon (requests : List BoundRequest) :
    cleared (requests.map fun bound => .abandoned bound.promise) = [] := by
  induction requests with
  | nil => rfl
  | cons bound requests ih => exact ih

/-! ### The order of the queue -/

/-- What was taken from the queue came first, and its clears have run but for the last. -/
structure InOrder (x : Executor engine) (popped : List Task) : Prop where
  accepted : accepted x.history = popped ++ x.tasks
  clears : ∀ c, .clear c ∈ popped → c ∈ cleared x.history ∨ x.worker = .clearing c
  last : ∀ c, x.worker = .clearing c → ∃ before, popped = before ++ [.clear c]

/-- A request is taken from the queue; no clear is under way. -/
theorem InOrder.pop {bound : BoundRequest} (h : InOrder x popped)
    (htasks : x.tasks = .generate bound :: y.tasks)
    (haccepted : Executor.accepted y.history = Executor.accepted x.history)
    (hcleared : cleared y.history = cleared x.history)
    (hx : ∀ c, x.worker ≠ .clearing c) (hy : ∀ c, y.worker ≠ .clearing c) :
    InOrder y (popped ++ [.generate bound]) where
  accepted := by rw [haccepted, h.accepted, htasks, List.append_assoc, List.singleton_append]
  clears := by
    intro c hc
    rcases List.mem_append.mp hc with hc | hc
    · rw [hcleared]
      exact Or.inl ((h.clears c hc).resolve_right (hx c))
    · exact absurd (List.mem_singleton.mp hc) nofun
  last := fun c hc => absurd hc (hy c)

/-- Nothing is taken from the queue, and no clear is under way. -/
theorem InOrder.stay (h : InOrder x popped) (htasks : y.tasks = x.tasks)
    (haccepted : Executor.accepted y.history = Executor.accepted x.history)
    (hcleared : cleared y.history = cleared x.history)
    (hx : ∀ c, x.worker ≠ .clearing c) (hy : ∀ c, y.worker ≠ .clearing c) :
    InOrder y popped where
  accepted := by rw [haccepted, h.accepted, htasks]
  clears := by
    intro c hc
    rw [hcleared]
    exact Or.inl ((h.clears c hc).resolve_right (hx c))
  last := fun c hc => absurd hc (hy c)

theorem inOrder_step {leak : Option Leak} (h : InOrder x popped) (hstep : Step engine leak x y) :
    ∃ popped', InOrder y popped' := by
  cases hstep with
  | enqueue task hopen hfresh =>
    refine ⟨popped, ?_, fun c hc => ?_, h.last⟩
    · simp only [accepted_append, h.accepted, List.append_assoc]
      rfl
    · exact (h.clears c hc).imp_left fun hmem => by simpa using Or.inl hmem
  | stop => exact ⟨popped, h.accepted, h.clears, h.last⟩
  | @take_clear promise =>
    refine ⟨popped ++ [.clear promise], ?_, fun c hc => ?_, fun c hc => ?_⟩
    · rw [List.append_assoc]
      exact h.accepted
    -- a clear that is taken out of the queue is the one that is worked on
    · rcases List.mem_append.mp hc with hc | hc
      · exact Or.inl ((h.clears c hc).resolve_right nofun)
      · obtain rfl := Task.clear.inj (List.mem_singleton.mp hc)
        exact Or.inr rfl
    · obtain rfl := Worker.clearing.inj hc
      exact ⟨popped, rfl⟩
  | @clear_done promise =>
    refine ⟨popped, ?_, fun c hc => Or.inl ?_, nofun⟩
    · rw [accepted_append, h.accepted]
      exact List.append_nil _
    · rw [cleared_append]
      -- the one that was worked on is done now
      rcases h.clears c hc with hmem | hworker
      · exact List.mem_append_left _ hmem
      · obtain rfl := Worker.clearing.inj hworker
        exact List.mem_append_right _ (List.mem_singleton_self _)
  | take_alone hnot =>
    exact ⟨_, h.pop rfl (by simp) (by simp) nofun nofun⟩
  | take_group hgroup | extend_group hroom hgroup => exact ⟨_, h.pop rfl rfl rfl nofun nofun⟩
  | refill_refused | refill_deferred =>
    exact ⟨_, h.pop rfl (by simp) (by simp) nofun nofun⟩
  | refill_admitted | refill_fails =>
    exact ⟨_, h.pop rfl (by simp) (by simp) nofun nofun⟩
  | alone_done outcome =>
    cases outcome with
    | ok value => exact ⟨_, h.stay rfl (by simp) (by simp) nofun nofun⟩
    | error message => exact ⟨_, h.stay rfl (by simp) (by simp) nofun nofun⟩
  | cleanup_throws message hempty =>
    exact ⟨_, h.stay rfl (by simp) (by simp) nofun nofun⟩
  | loop_throws | row_throws | collect_throws =>
    exact ⟨_, h.stay rfl (by simp [fail_batch]) (by simp [fail_batch]) nofun nofun⟩
  | close_single | begin_session | begin_session_fails | one_done =>
    exact ⟨_, h.stay rfl (by simp) (by simp) nofun nofun⟩
  | _ => exact ⟨_, h.stay rfl (by simp) (by simp) nofun nofun⟩

/-- No two accepted tasks have the same promise. -/
theorem distinct_step {leak : Option Leak} (h : ((accepted x.history).map Task.promise).Nodup)
    (hstep : Step engine leak x y) : ((accepted y.history).map Task.promise).Nodup := by
  cases hstep with
  | enqueue task hopen hfresh =>
    rw [accepted_append, accepted_enqueued, List.map_append, List.nodup_append]
    refine ⟨h, List.nodup_singleton _, ?_⟩
    rintro p hp q hq rfl
    obtain ⟨other, hother, heq⟩ := List.mem_map.mp hp
    refine hfresh other ?_ (heq.trans (List.mem_singleton.mp hq))
    obtain ⟨event, hevent, hother⟩ := List.mem_filterMap.mp hother
    split at hother
    · obtain rfl := Option.some.inj hother
      exact hevent
    · cases hother
  | alone_done outcome => cases outcome <;> simpa using h
  | loop_throws | row_throws | collect_throws => simpa [fail_batch] using h
  | _ => simpa using h

theorem inOrder_of_reaches {Allowed : Executor engine → Option Leak → Prop}
    (h : Reaches engine Allowed x) :
    (∃ popped, InOrder x popped) ∧ ((accepted x.history).map Task.promise).Nodup := by
  induction h with
  | start => exact ⟨⟨[], rfl, nofun, nofun⟩, List.nodup_nil⟩
  | step hreaches hallowed hstep ih =>
    obtain ⟨⟨popped, hpopped⟩, hdistinct⟩ := ih
    exact ⟨inOrder_step hpopped hstep, distinct_step hdistinct hstep⟩

/-! ### Requests around a clear -/

/-- What was taken from the queue does not wait in it. -/
theorem InOrder.notMem_tasks (h : InOrder x popped)
    (hdistinct : ((Executor.accepted x.history).map Task.promise).Nodup) {task other : Task}
    (htask : task ∈ popped) (hother : other ∈ x.tasks) : task.promise ≠ other.promise := by
  rw [h.accepted, List.map_append, List.nodup_append] at hdistinct
  exact hdistinct.2.2 _ (List.mem_map_of_mem htask) _ (List.mem_map_of_mem hother)

theorem generate_mem_of_mem_queued {tasks : List Task} {b : BoundRequest} (h : b ∈ queued tasks) :
    .generate b ∈ tasks := by
  obtain ⟨task, htask, heq⟩ := List.mem_filterMap.mp h
  split at heq
  · obtain rfl := Option.some.inj heq
    exact htask
  · cases heq

theorem mem_queued_of_generate_mem {tasks : List Task} {b : BoundRequest}
    (h : .generate b ∈ tasks) : b ∈ queued tasks := List.mem_filterMap.mpr ⟨_, h, rfl⟩

/-- What was taken from the queue is over, or with the worker. -/
theorem InOrder.finished (h : InOrder x popped) (hx : x.Owned)
    (hdistinct : ((Executor.accepted x.history).map Task.promise).Nodup) {b : BoundRequest}
    (hb : .generate b ∈ popped) : Finished x.history b.promise ∨ b ∈ x.worker.held := by
  have hmem : .generate b ∈ Executor.accepted x.history := by
    rw [h.accepted]
    exact List.mem_append_left _ hb
  refine (hx.covered b hmem).imp_right fun howned => ?_
  refine (List.mem_append.mp howned).resolve_right fun hqueued => ?_
  exact h.notMem_tasks hdistinct hb (generate_mem_of_mem_queued hqueued) rfl

/-- A request that was started has been taken from the queue. -/
theorem InOrder.mem_of_started (h : InOrder x popped) (hx : x.Owned) {b : BoundRequest}
    (hb : .generate b ∈ Executor.accepted x.history) (hstarted : b.promise ∈ started x.history) :
    .generate b ∈ popped := by
  rw [h.accepted] at hb
  refine (List.mem_append.mp hb).resolve_right fun htasks => ?_
  exact hx.fresh b (List.mem_append_right _ (mem_queued_of_generate_mem htasks)) hstarted

/-- **A clear is a barrier in the order of arrival.** While it runs, the requests before it
are over; until it has run, those after it do not start. -/
theorem barrier_of_reaches {Allowed : Executor engine → Option Leak → Prop}
    (h : Reaches engine Allowed x) {c : Nat} {before after : List Task}
    (hc : Executor.accepted x.history = before ++ .clear c :: after) :
    (x.worker = .clearing c → ∀ b, .generate b ∈ before →
      Finished x.history b.promise ∧ b ∉ x.worker.held ++ queued x.tasks) ∧
    (c ∉ cleared x.history → ∀ b, .generate b ∈ after → b.promise ∉ started x.history) := by
  obtain ⟨hx, -⟩ := owned_of_reaches h
  obtain ⟨⟨popped, hpopped⟩, hdistinct⟩ := inOrder_of_reaches h
  have hnodup := List.Nodup.of_map _ hdistinct
  rw [hc, List.nodup_append, List.nodup_cons] at hnodup
  obtain ⟨-, ⟨hc_after, -⟩, hdisjoint⟩ := hnodup
  have hc_before : Task.clear c ∉ before := fun hmem =>
    hdisjoint _ hmem _ List.mem_cons_self rfl
  constructor
  · intro hworker b hb
    obtain ⟨earlier, rfl⟩ := hpopped.last c hworker
    have hsplit := hc.symm.trans hpopped.accepted
    rw [List.append_assoc, List.singleton_append] at hsplit
    obtain ⟨rfl, -, -⟩ := (List.append_cons_inj_of_notMem hc_before hc_after).mp hsplit
    have hmem : Task.generate b ∈ before ++ [.clear c] := List.mem_append_left _ hb
    have hheld : x.worker.held = [] := by
      rw [hworker]
      rfl
    rw [hheld, List.nil_append]
    refine ⟨(hpopped.finished hx hdistinct hmem).resolve_right ?_, fun hqueued => ?_⟩
    · rw [hheld]
      exact List.not_mem_nil
    · exact hpopped.notMem_tasks hdistinct hmem (generate_mem_of_mem_queued hqueued) rfl
  · intro hnot b hb hstarted
    have hb_before : Task.generate b ∉ before := fun hmem =>
      hdisjoint _ hmem _ (List.mem_cons_of_mem _ hb) rfl
    have hb_popped : Task.generate b ∈ popped := by
      refine hpopped.mem_of_started hx ?_ hstarted
      rw [hc]
      exact List.mem_append_right _ (List.mem_cons_of_mem _ hb)
    -- the clear was taken before the request, and no other task after it
    rcases List.append_eq_append_iff.mp (hpopped.accepted.symm.trans hc) with
      ⟨between, rfl, -⟩ | ⟨taken, rfl, htaken⟩
    · exact hb_before (List.mem_append_left _ hb_popped)
    · cases taken with
      | nil => exact hb_before (by simpa using hb_popped)
      | cons task taken =>
        obtain ⟨rfl, rfl⟩ := List.cons.inj htaken
        have hworker := (hpopped.clears c
          (List.mem_append_right _ List.mem_cons_self)).resolve_left hnot
        obtain ⟨earlier, hlast⟩ := hpopped.last c hworker
        obtain ⟨-, -, rfl⟩ := (List.append_cons_inj_of_notMem hc_before
          fun hmem => hc_after (List.mem_append_left _ hmem)).mp hlast
        rcases List.mem_append.mp hb_popped with hmem | hmem
        · exact hb_before hmem
        · exact absurd (List.mem_singleton.mp hmem) nofun

/-- A request before a clear and one after it, while the clear runs. -/
theorem barrier_of_reaches_clearing :
    let history : List Happening := [.enqueued (.generate (request_for 1 1)), .enqueued (.clear 2),
      .enqueued (.generate (request_for 3 1)), .started 1, .answered 1 (.error ⟨some 1, "cancelled"⟩)]
    Finished history 1 ∧ 3 ∉ started history := by
  intro history
  have hrun : Reaches small_engine (fun _ _ => True)
      ⟨[.generate (request_for 3 1)], false, .clearing 2, history⟩ :=
    .step (.step (.step (.step (.step (.step (.step .start trivial
      (.enqueue (.generate (request_for 1 1)) rfl nofun)) trivial
      (.enqueue (.clear 2) rfl (by simp [request_for, Task.promise]))) trivial
      (.enqueue (.generate (request_for 3 1)) rfl (by simp [request_for, Task.promise]))) trivial
      (.take_group rfl)) trivial (.close_single rfl)) trivial
      (.alone_done (.error "cancelled"))) trivial .take_clear
  have horder : accepted history =
      [.generate (request_for 1 1)] ++ .clear 2 :: [.generate (request_for 3 1)] := rfl
  have hbarrier := barrier_of_reaches hrun horder
  exact ⟨(hbarrier.1 rfl _ List.mem_cons_self).1, hbarrier.2 (by decide) _ List.mem_cons_self⟩

end Executor

end Qwen38
