import Mathlib.Data.List.Perm.Basic
import Qwen38.Engine.Executor

/-!
# Who owns a request

Between its arrival and its answer a request is in one place: the queue, or what the worker
holds (`Qwen38.Worker.held`). `Qwen38.Executor.Owned` says so for a state of the executor,
together with what keeps an answer from being given twice, and every step keeps it
(`Qwen38.Executor.owned_of_reaches`). The only way out without an answer is an exception
behind the loop of a batch, which abandons the requests that were put off.
-/

namespace Qwen38

variable {T : Target} {engine : NativeEngine T}

/-! ### What the worker holds -/

namespace Worker

/-- The requests the worker has taken from the queue and is not done with. -/
def held : Worker engine → List BoundRequest
  | .grouping batch => batch
  | .alone bound => [bound]
  | .entering batch => batch
  | .initializing _ loop pending =>
    loop.sessions.map Session.bound ++ (loop.deferred ++ pending.map Prod.fst)
  | .running _ loop _ => loop.sessions.map Session.bound ++ loop.deferred
  | .one_by_one requests => requests
  | _ => []

/-- Those that the engine has not begun with. -/
def fresh : Worker engine → List BoundRequest
  | .grouping batch => batch
  | .entering batch => batch
  | .initializing _ loop pending => loop.deferred ++ pending.map Prod.fst
  | .running _ loop _ => loop.deferred
  | .one_by_one requests => requests
  | _ => []

/-- Those whose promise nobody has resolved: all but the sessions. -/
def unresolved : Worker engine → List BoundRequest
  | .alone bound => [bound]
  | worker => worker.fresh

/-- The requests of the group that a batch was started with. -/
def group : Worker engine → List BoundRequest
  | .initializing batch _ _ => batch
  | .running batch _ _ => batch
  | _ => []

end Worker

namespace Executor

/-- The requests in the queue. -/
def queued (tasks : List Task) : List BoundRequest :=
  tasks.filterMap fun
    | .generate bound => some bound
    | .clear _ => none

@[simp] theorem queued_nil : queued [] = [] := rfl

@[simp] theorem queued_generate (bound : BoundRequest) (tasks : List Task) :
    queued (.generate bound :: tasks) = bound :: queued tasks := rfl

@[simp] theorem queued_clear (promise : Nat) (tasks : List Task) :
    queued (.clear promise :: tasks) = queued tasks := rfl

@[simp] theorem queued_append (tasks more : List Task) :
    queued (tasks ++ more) = queued tasks ++ queued more := List.filterMap_append

/-! ### Histories -/

/-- The tasks that were accepted, in order. -/
def accepted (history : List Happening) : List Task :=
  history.filterMap fun
    | .enqueued task => some task
    | _ => none

/-- The requests that the engine has begun with. -/
def started (history : List Happening) : List Nat :=
  history.filterMap fun
    | .started promise => some promise
    | _ => none

/-- The requests that were given up. -/
def abandoned (history : List Happening) : List Nat :=
  history.filterMap fun
    | .abandoned promise => some promise
    | _ => none

/-- The clears that have run. -/
def cleared (history : List Happening) : List Nat :=
  history.filterMap fun
    | .cleared promise => some promise
    | _ => none

/-- A request is over: answered or given up. -/
def Finished (history : List Happening) (promise : Nat) : Prop :=
  Resolved history promise ∨ promise ∈ abandoned history

theorem resolved_enqueued (history : List Happening) (task : Task) (p : Nat) :
    Resolved (history ++ [.enqueued task]) p ↔ Resolved history p := by
  simp [Resolved, answers]

/-- Answers leave alone what is read from the other events. -/
theorem filterMap_resolve {β : Type*} {f : Happening → Option β}
    (hf : ∀ promise answer, f (.answered promise answer) = none) (history : List Happening)
    (promise : Nat) (answer : Answer) :
    (resolve history promise answer).filterMap f = history.filterMap f := by
  rw [resolve]
  split
  · rfl
  · simp [hf]

theorem filterMap_resolve_all {β : Type*} {f : Happening → Option β}
    (hf : ∀ promise answer, f (.answered promise answer) = none) (thrown : Thrown)
    (requests : List BoundRequest) (history : List Happening) :
    (resolve_all thrown requests history).filterMap f = history.filterMap f := by
  induction requests generalizing history with
  | nil => rfl
  | cons bound requests ih => exact (ih _).trans (filterMap_resolve hf _ _ _)

/-- A later history, with answers for some promises and with these starts. -/
structure Later (starts resolved : List Nat) (before after : List Happening) : Prop where
  accepted : accepted after = accepted before
  started : started after = started before ++ starts
  nodup : ((answers before).map Prod.fst).Nodup → ((answers after).map Prod.fst).Nodup
  resolved : ∀ p, Resolved after p ↔ Resolved before p ∨ p ∈ resolved
  abandoned : ∀ p ∈ abandoned before, p ∈ abandoned after

variable {before middle after : List Happening} {starts starts' resolved resolved' : List Nat}

theorem Later.refl (history : List Happening) : Later [] [] history history :=
  ⟨rfl, (List.append_nil _).symm, id, fun _ => by simp, fun _ h => h⟩

theorem Later.trans (h : Later starts resolved before middle)
    (h' : Later starts' resolved' middle after) :
    Later (starts ++ starts') (resolved ++ resolved') before after where
  accepted := h'.accepted.trans h.accepted
  started := by rw [h'.started, h.started, List.append_assoc]
  nodup := h'.nodup ∘ h.nodup
  resolved := by
    intro p
    rw [h'.resolved, h.resolved, List.mem_append, or_assoc]
  abandoned := fun p hp => h'.abandoned p (h.abandoned p hp)

theorem later_start (history : List Happening) (promise : Nat) :
    Later [promise] [] history (history ++ [.started promise]) := by
  constructor
  case accepted => simp [Executor.accepted]
  case started => simp [Executor.started]
  case nodup => simp [answers]
  case resolved => simp [Resolved, answers]
  case abandoned => simp [Executor.abandoned]

theorem later_clear (history : List Happening) (promise : Nat) :
    Later [] [] history (history ++ [.cleared promise]) := by
  constructor
  case accepted => simp [Executor.accepted]
  case started => simp [Executor.started]
  case nodup => simp [answers]
  case resolved => simp [Resolved, answers]
  case abandoned => simp [Executor.abandoned]

/-- An answer to a promise that has none. -/
theorem later_answer {history : List Happening} {promise : Nat}
    (h : ¬Resolved history promise) (answer : Answer) :
    Later [] [promise] history (history ++ [.answered promise answer]) := by
  have hanswers : answers (history ++ [.answered promise answer]) =
      answers history ++ [(promise, answer)] := by simp [answers]
  constructor
  case accepted => simp [Executor.accepted]
  case started => simp [Executor.started]
  case nodup =>
    intro hnodup
    rw [hanswers, List.map_append, List.nodup_append]
    refine ⟨hnodup, by simp, ?_⟩
    rintro p hp q hq rfl
    obtain rfl : p = promise := by simpa using hq
    exact h hp
  case resolved =>
    intro p
    rw [Resolved, Resolved, hanswers, List.map_append, List.mem_append]
    simp
  case abandoned => simp [Executor.abandoned]

/-- The first answer counts. -/
theorem later_resolve (history : List Happening) (promise : Nat) (answer : Answer) :
    Later [] [promise] history (resolve history promise answer) := by
  rw [resolve]
  split
  next h =>
    obtain ⟨haccepted, hstarted, hnodup, hresolved, habandoned⟩ := Later.refl history
    refine ⟨haccepted, hstarted, hnodup, fun p => ?_, habandoned⟩
    constructor
    · exact Or.inl
    · rintro (hp | hp)
      · exact hp
      · obtain rfl : p = promise := by simpa using hp
        exact h
  next h => exact later_answer h answer

theorem later_resolve_all (thrown : Thrown) (requests : List BoundRequest)
    (history : List Happening) :
    Later [] (requests.map BoundRequest.promise) history (resolve_all thrown requests history) := by
  induction requests generalizing history with
  | nil => exact .refl history
  | cons bound requests ih =>
    exact (later_resolve history bound.promise (.error thrown)).trans (ih _)

/-- The requests put off in a batch that ends with an exception. -/
theorem later_abandon (history : List Happening) (requests : List BoundRequest) :
    Later [] [] history (history ++ requests.map fun bound => .abandoned bound.promise) ∧
      ∀ bound ∈ requests, bound.promise ∈
        abandoned (history ++ requests.map fun bound => .abandoned bound.promise) := by
  induction requests generalizing history with
  | nil => simpa using Later.refl history
  | cons bound requests ih =>
    have hone : Later [] [] history (history ++ [.abandoned bound.promise]) := by
      constructor
      case accepted => simp [Executor.accepted]
      case started => simp [Executor.started]
      case nodup => simp [answers]
      case resolved => simp [Resolved, answers]
      case abandoned =>
        intro p hp
        rw [Executor.abandoned, List.filterMap_append]
        exact List.mem_append_left _ hp
    obtain ⟨hlater, hmem⟩ := ih (history ++ [.abandoned bound.promise])
    rw [List.append_assoc] at hlater hmem
    refine ⟨hone.trans hlater, ?_⟩
    rintro b (_ | ⟨_, hb⟩)
    · exact hlater.abandoned _ (by simp [Executor.abandoned])
    · exact hmem b hb

end Executor

/-! ### Sessions keep their requests -/

theorem mem_append_cons {α : Type*} {a b : α} {l l' : List α} (h : b ∈ l ++ l') :
    b ∈ l ++ a :: l' :=
  ((List.sublist_cons_self a l').append_left l).subset h

theorem map_modify_of_eq {α β : Type*} (f : α → β) {g : α → α} (h : ∀ a, f (g a) = f a) (i : Nat)
    (l : List α) : (l.modify i g).map f = l.map f := by
  induction l generalizing i with
  | nil => simp
  | cons a l ih =>
    cases i with
    | zero => simp [h]
    | succ i => simp [ih]

theorem map_set_of_eq {α β : Type*} (f : α → β) {l : List α} {i : Nat} {a a' : α}
    (ha : l[i]? = some a) (h : f a' = f a) : (l.set i a').map f = l.map f := by
  obtain ⟨hlt, rfl⟩ := List.getElem?_eq_some_iff.mp ha
  have hmap : i < (l.map f).length := by rwa [List.length_map]
  rw [List.map_set, h, ← List.getElem_map f (h := hmap), List.set_getElem_self]

namespace NativeEngine

/-- The shared step changes the states only. -/
theorem step_sessions_map {β : Type*} {f : Session engine → β}
    (hf : ∀ session state, f { session with state } = f session)
    {sessions sessions' : List (Session engine)} {pending : List (Nat × T.Logits)}
    (h : engine.step_sessions sessions = .ok (sessions', pending)) :
    sessions'.map f = sessions.map f := by
  have hput : ∀ (rows : List (Nat × ModelDecodeState T)) (sessions : List (Session engine)),
      (engine.put_states rows sessions).map f = sessions.map f := by
    intro rows
    induction rows with
    | nil => exact fun _ => rfl
    | cons row rows ih =>
      intro sessions
      rw [put_states, ih]
      exact map_modify_of_eq f (g := fun s => { s with state := row.2 }) (fun s => hf s row.2) _ _
  rw [step_sessions] at h
  split at h
  · obtain ⟨rfl, -⟩ := Prod.mk.inj (Except.ok.inj h)
    rfl
  · obtain ⟨steps, -, h⟩ := Except.bind_eq_ok.mp h
    obtain ⟨rfl, -⟩ := Prod.mk.inj (Except.ok.inj h)
    exact hput _ _

theorem take_row_bound (logits : T.Logits) (session : Session engine) :
    (engine.take_row logits session).bound = session.bound := by
  rw [take_row, take_token]
  split
  · rfl
  · dsimp only
    split <;> rfl

theorem initialize_session_eq_ok {bound : BoundRequest} {prompt_tokens : List Token}
    {incremental_prefill : Bool} {session : Session engine}
    (h : engine.initialize_session bound prompt_tokens incremental_prefill = .ok session) :
    session.bound = bound ∧ session.active = true := by
  rw [initialize_session] at h
  split at h
  · obtain rfl := Except.ok.inj h
    exact ⟨rfl, rfl⟩
  · obtain ⟨state, -, h⟩ := Except.bind_eq_ok.mp h
    obtain rfl := Except.ok.inj h
    exact ⟨rfl, rfl⟩

/-- The prompt of a session, chunk by chunk, leaves the rest of it alone. -/
theorem advance_pending_prefill_eq_ok {session session' : Session engine}
    (h : engine.advance_pending_prefill session = .ok session') :
    session'.bound = session.bound ∧ session'.prompt_tokens = session.prompt_tokens ∧
      session'.tokens = session.tokens ∧ session'.active = session.active ∧
        session'.reserved_tokens = session.reserved_tokens := by
  obtain ⟨begun, hbegin, h⟩ := Except.bind_eq_ok.mp h
  have hbegun : begun.bound = session.bound ∧ begun.prompt_tokens = session.prompt_tokens ∧
      begun.tokens = session.tokens ∧ begun.active = session.active ∧
        begun.reserved_tokens = session.reserved_tokens := by
    rw [begin_pending_prefill] at hbegin
    split at hbegin
    · obtain rfl := Except.ok.inj hbegin
      exact ⟨rfl, rfl, rfl, rfl, rfl⟩
    · obtain ⟨chunk, -, hbegin⟩ := Except.bind_eq_ok.mp hbegin
      obtain rfl := Except.ok.inj hbegin
      exact ⟨rfl, rfl, rfl, rfl, rfl⟩
  split at h
  · obtain rfl := Except.ok.inj h
    exact hbegun
  · obtain ⟨r, -, h⟩ := Except.bind_eq_ok.mp h
    obtain rfl := Except.ok.inj h
    dsimp only
    split <;> exact hbegun

theorem tokenize_group_map_fst {group : List BoundRequest} {aggregate_capacity : Nat}
    {r : List (BoundRequest × List Token) × Nat}
    (h : engine.tokenize_group group aggregate_capacity = .ok r) : r.1.map Prod.fst = group := by
  induction group generalizing aggregate_capacity r with
  | nil =>
    obtain rfl := Except.ok.inj h
    rfl
  | cons bound group ih =>
    rw [tokenize_group] at h
    split at h
    · cases h
    · split at h
      · cases h
      next htokenized =>
        obtain rfl := Except.ok.inj h
        rw [List.map_cons, ih htokenized]

theorem aggregate_limit_lt {limit : Nat} (h : engine.aggregate_limit = .ok limit) :
    limit < word := by
  rw [aggregate_limit] at h
  split at h
  · cases h
  · obtain rfl := Except.ok.inj h
    have hpos : 0 < word := by decide
    omega

theorem admit_group_together {group : List BoundRequest}
    {tokenized : List (BoundRequest × List Token)} {limit : Nat}
    (h : engine.admit_group group = .ok (.together tokenized limit)) :
    ∃ aggregate_capacity, engine.tokenize_group group 0 = .ok (tokenized, aggregate_capacity) ∧
      aggregate_capacity ≤ limit ∧ group.length ≤ 4 ∧ engine.aggregate_limit = .ok limit := by
  obtain ⟨_, hsize, h⟩ := Except.bind_eq_ok.mp h
  split at h
  · cases h
  obtain ⟨r, htokenized, h⟩ := Except.bind_eq_ok.mp h
  obtain ⟨limit', hlimit, h⟩ := Except.bind_eq_ok.mp h
  have h := Except.ok.inj h
  split at h
  · cases h
  next hle =>
    obtain ⟨rfl, rfl⟩ := Admission.together.inj h
    refine ⟨r.2, htokenized, Nat.le_of_not_lt hle, ?_, hlimit⟩
    rw [Except.throw_if_eq_ok] at hsize
    omega

end NativeEngine

/-! ### Sessions that leave are answered -/

/-- Outside of the rows of a pass, a session that is not active has its answer. -/
def Worker.Settled (history : List Happening) : Worker engine → Prop
  | .initializing batch loop pending =>
    loop.deferred = [] ∧ (∀ session ∈ loop.sessions, session.active = true) ∧
      ∀ bound ∈ loop.sessions.map Session.bound ++ pending.map Prod.fst, bound ∈ batch
  | .running _ _ (.rows _) => True
  | .running _ loop (.collect slot) =>
    ∀ i session, i < slot → loop.sessions[i]? = some session →
      session.active = true ∨ Executor.Resolved history session.bound.promise
  | .running _ loop _ => ∀ session ∈ loop.sessions, session.active = true
  | _ => True

namespace Executor

open NativeEngine

theorem settled_mono {worker : Worker engine} {before after : List Happening}
    (h : ∀ p, Resolved before p → Resolved after p)
    (hsettled : worker.Settled before) : worker.Settled after := by
  cases worker with
  | running batch loop phase =>
    cases phase with
    | collect slot =>
      intro i session hi hsession
      exact (hsettled i session hi hsession).imp_right (h _)
    | _ => exact hsettled
  | _ => exact hsettled

theorem settled_step {x y : Executor engine} {leak : Option Leak}
    (h : x.worker.Settled x.history) (hstep : Step engine leak x y) :
    y.worker.Settled y.history := by
  cases hstep with
  | enqueue task hopen hfresh => exact settled_mono (fun p hp => by rwa [resolved_enqueued]) h
  | stop => exact h
  | enter_group hcheck =>
    obtain ⟨_, htokenized, -⟩ := admit_group_together hcheck
    refine ⟨rfl, fun _ hmem => absurd hmem List.not_mem_nil, fun bound hbound => ?_⟩
    rw [NativeEngine.tokenize_group_map_fst htokenized] at hbound
    exact hbound
  | begin_session hsession =>
    obtain ⟨hdeferred, hactive, hbatch⟩ := h
    -- a new session is active, and its request leaves the waiting ones
    obtain ⟨hbound, hsession⟩ := initialize_session_eq_ok hsession
    refine ⟨hdeferred, ?_, ?_⟩
    · intro session hmem
      rcases List.mem_append.mp hmem with hmem | hmem
      · exact hactive session hmem
      · rwa [List.mem_singleton.mp hmem]
    · intro bound hmem
      refine hbatch bound ?_
      rw [List.map_append, List.map_singleton, hbound] at hmem
      simpa using hmem
  | begin_session_fails message =>
    obtain ⟨hdeferred, hactive, hbatch⟩ := h
    refine ⟨hdeferred, hactive, fun bound hmem => hbatch bound ?_⟩
    rw [List.map_cons]
    rcases List.mem_append.mp hmem with hmem | hmem
    · exact List.mem_append_left _ hmem
    · exact List.mem_append_right _ (List.mem_cons_of_mem _ hmem)
  | sessions_begun => exact h.2.1
  | decode hsome hstep => trivial
  | take_row => trivial
  | rows_done => exact fun i _ hi => absurd hi (Nat.not_lt_zero i)
  | collect_active hsession hactive =>
    intro i session hi hget
    -- a slot that has been passed, or the one that is passed now
    rcases Nat.lt_succ_iff_lt_or_eq.mp hi with hlt | rfl
    · exact h i session hlt hget
    · obtain rfl := Option.some.inj (hsession.symm.trans hget)
      exact Or.inl hactive
  | collect_finished hsession hactive =>
    intro i session hi hget
    -- a slot that has been passed, or the one that is answered now
    rcases Nat.lt_succ_iff_lt_or_eq.mp hi with hlt | rfl
    · exact (h i session hlt hget).imp_right fun hp =>
        ((later_resolve _ _ _).resolved _).mpr (Or.inl hp)
    · obtain rfl := Option.some.inj (hsession.symm.trans hget)
      exact Or.inr (((later_resolve _ _ _).resolved _).mpr (Or.inr (List.mem_singleton_self _)))
  | collect_done hend => exact fun session hmem => (List.mem_filter.mp hmem).2
  | refill_stop hend => exact h
  | refill_refused hroom hgroup hcheck => exact h
  | refill_deferred hroom hgroup hcheck hdefers => exact h
  | refill_admitted hroom hgroup hcheck hfits hsession =>
    intro session hmem
    rcases List.mem_append.mp hmem with hmem | hmem
    · exact h session hmem
    · rw [List.mem_singleton.mp hmem]
      exact (initialize_session_eq_ok hsession).2
  | refill_fails message hroom hgroup hcheck hfits => exact h
  | prefill_none hnone => exact h
  | prefill_some hslot hsession hadvance =>
    intro session hmem
    rcases List.mem_or_eq_of_mem_set hmem with hmem | rfl
    · exact h session hmem
    · rw [(advance_pending_prefill_eq_ok hadvance).2.2.2.1]
      exact h _ (List.mem_of_getElem? hsession)
  | prefill_fails message hslot hsession =>
    exact fun session hmem => h session (List.mem_of_mem_eraseIdx hmem)
  | _ => trivial

/-! ### Every request in one place -/

/-- The requests that are somewhere in the executor. -/
def owned (x : Executor engine) : List BoundRequest := x.worker.held ++ queued x.tasks

/-- **One place for every request**, and no second answer. -/
structure Owned (x : Executor engine) : Prop where
  nodup : (x.owned.map BoundRequest.promise).Nodup
  known : ∀ b ∈ x.owned, .generate b ∈ accepted x.history
  group_known : ∀ b ∈ x.worker.group, .generate b ∈ accepted x.history
  group_queued : ∀ b ∈ x.worker.group, ∀ b' ∈ queued x.tasks, b'.promise ≠ b.promise
  resolved_known : ∀ p, Resolved x.history p → ∃ b, .generate b ∈ accepted x.history ∧ b.promise = p
  started_known : ∀ p ∈ started x.history, ∃ b, .generate b ∈ accepted x.history ∧ b.promise = p
  answers_nodup : ((answers x.history).map Prod.fst).Nodup
  started_nodup : (started x.history).Nodup
  unresolved : ∀ b ∈ x.worker.unresolved ++ queued x.tasks, ¬Resolved x.history b.promise
  fresh : ∀ b ∈ x.worker.fresh ++ queued x.tasks, b.promise ∉ started x.history
  covered : ∀ b, .generate b ∈ accepted x.history → Finished x.history b.promise ∨ b ∈ x.owned

variable {x y : Executor engine}

/-- A step of the worker, by what it starts and resolves and by what it still holds. -/
theorem Owned.next {starts resolved : List Nat} (hx : x.Owned)
    (hlater : Later starts resolved x.history y.history)
    (howned : y.owned.Subperm x.owned)
    (hcovered : ∀ b ∈ x.owned, Finished y.history b.promise ∨ b ∈ y.owned)
    (hgroup : ∀ b ∈ y.worker.group, b ∈ x.worker.group ∨ b ∈ x.worker.held)
    (hqueued : ∀ b ∈ queued y.tasks, b ∈ queued x.tasks)
    (hresolved : ∀ p ∈ resolved, ∃ b ∈ x.owned ++ x.worker.group, b.promise = p)
    (hunresolved : ∀ b ∈ y.worker.unresolved ++ queued y.tasks,
      b ∈ x.worker.unresolved ++ queued x.tasks ∧ b.promise ∉ resolved)
    (hstarts : starts = [] ∨ ∃ b ∈ x.worker.fresh ++ queued x.tasks, starts = [b.promise])
    (hfresh : ∀ b ∈ y.worker.fresh ++ queued y.tasks,
      b ∈ x.worker.fresh ++ queued x.tasks ∧ b.promise ∉ starts) : y.Owned := by
  have hfresh_owned : ∀ b ∈ x.worker.fresh, b ∈ x.worker.held := by
    intro b hb
    cases hworker : x.worker <;> rw [hworker] at hb <;>
      simp_all [Worker.fresh, Worker.held]
  have hstarts_known : ∀ p ∈ starts, ∃ b, Task.generate b ∈ accepted x.history ∧ b.promise = p := by
    intro p hp
    rcases hstarts with rfl | ⟨b, hb, rfl⟩
    · exact absurd hp List.not_mem_nil
    · refine ⟨b, hx.known b ?_, (List.mem_singleton.mp hp).symm⟩
      rcases List.mem_append.mp hb with hb | hb
      · exact List.mem_append_left _ (hfresh_owned b hb)
      · exact List.mem_append_right _ hb
  constructor
  case nodup =>
    obtain ⟨l, hperm, hsub⟩ := howned
    exact (hperm.map _).nodup_iff.mp ((hsub.map _).nodup hx.nodup)
  case known =>
    intro b hb
    rw [hlater.accepted]
    exact hx.known b (howned.subset hb)
  case group_known =>
    intro b hb
    rw [hlater.accepted]
    rcases hgroup b hb with hb | hb
    · exact hx.group_known b hb
    · exact hx.known b (List.mem_append_left _ hb)
  case group_queued =>
    intro b hb b' hb'
    rcases hgroup b hb with hb | hb
    · exact hx.group_queued b hb b' (hqueued b' hb')
    -- a request of the worker and one of the queue are two places of one list
    · have hnodup := hx.nodup
      rw [owned, List.map_append, List.nodup_append] at hnodup
      exact fun heq => hnodup.2.2 _ (List.mem_map_of_mem hb) _
        (List.mem_map_of_mem (hqueued b' hb')) heq.symm
  case resolved_known =>
    intro p hp
    rw [hlater.accepted]
    rcases (hlater.resolved p).mp hp with hp | hp
    · exact hx.resolved_known p hp
    · obtain ⟨b, hb, hpromise⟩ := hresolved p hp
      rcases List.mem_append.mp hb with hb | hb
      · exact ⟨b, hx.known b hb, hpromise⟩
      · exact ⟨b, hx.group_known b hb, hpromise⟩
  case started_known =>
    intro p hp
    rw [hlater.accepted]
    rw [hlater.started] at hp
    rcases List.mem_append.mp hp with hp | hp
    · exact hx.started_known p hp
    · exact hstarts_known p hp
  case answers_nodup => exact hlater.nodup hx.answers_nodup
  case started_nodup =>
    rw [hlater.started]
    rcases hstarts with rfl | ⟨b, hb, rfl⟩
    · rw [List.append_nil]
      exact hx.started_nodup
    -- what is started now has been fresh until now
    · rw [List.nodup_append]
      refine ⟨hx.started_nodup, List.nodup_singleton _, ?_⟩
      rintro p hp q hq rfl
      exact hx.fresh b hb (List.mem_singleton.mp hq ▸ hp)
  case unresolved =>
    intro b hb hp
    obtain ⟨hb, hnot⟩ := hunresolved b hb
    rcases (hlater.resolved _).mp hp with hp | hp
    · exact hx.unresolved b hb hp
    · exact hnot hp
  case fresh =>
    intro b hb hp
    obtain ⟨hb, hnot⟩ := hfresh b hb
    rw [hlater.started] at hp
    rcases List.mem_append.mp hp with hp | hp
    · exact hx.fresh b hb hp
    · exact hnot hp
  case covered =>
    intro b hb
    rw [hlater.accepted] at hb
    -- a request was finished, given up, or had a place
    rcases hx.covered b hb with (hp | hp) | hp
    · exact Or.inl (Or.inl ((hlater.resolved _).mpr (Or.inl hp)))
    · exact Or.inl (Or.inr (hlater.abandoned _ hp))
    · exact hcovered b hp

/-- Another request has another promise. -/
theorem Owned.promise_notMem (hx : x.Owned) {bound : BoundRequest} {others : List BoundRequest}
    (h : (bound :: others).Subperm x.owned) : ∀ b ∈ others, b.promise ∉ [bound.promise] := by
  obtain ⟨l, hperm, hsub⟩ := h
  have hnodup := (hperm.map BoundRequest.promise).nodup_iff.mp ((hsub.map _).nodup hx.nodup)
  rw [List.map_cons, List.nodup_cons] at hnodup
  intro b hb hmem
  exact hnodup.1 (List.mem_map.mpr ⟨b, hb, List.mem_singleton.mp hmem⟩)

/-- A step that only moves requests. -/
theorem Owned.move (hx : x.Owned) (hlater : Later [] [] x.history y.history)
    (howned : y.owned.Perm x.owned)
    (hgroup : ∀ b ∈ y.worker.group, b ∈ x.worker.group ∨ b ∈ x.worker.held)
    (hqueued : ∀ b ∈ queued y.tasks, b ∈ queued x.tasks)
    (hunresolved : ∀ b ∈ y.worker.unresolved ++ queued y.tasks,
      b ∈ x.worker.unresolved ++ queued x.tasks)
    (hfresh : ∀ b ∈ y.worker.fresh ++ queued y.tasks, b ∈ x.worker.fresh ++ queued x.tasks) :
    y.Owned :=
  hx.next hlater howned.subperm (fun _ hb => Or.inr (howned.mem_iff.mpr hb)) hgroup hqueued nofun
    (fun b hb => ⟨hunresolved b hb, List.not_mem_nil⟩) (Or.inl rfl)
    (fun b hb => ⟨hfresh b hb, List.not_mem_nil⟩)

/-- A step that moves nothing. -/
theorem Owned.same (hx : x.Owned) (hlater : Later [] [] x.history y.history)
    (hheld : y.worker.held = x.worker.held) (hfresh : y.worker.fresh = x.worker.fresh)
    (hunresolved : y.worker.unresolved = x.worker.unresolved)
    (hqueued : queued y.tasks = queued x.tasks)
    (hgroup : ∀ b ∈ y.worker.group, b ∈ x.worker.group ∨ b ∈ x.worker.held) : y.Owned := by
  refine hx.move hlater ?_ hgroup ?_ ?_ ?_
  · rw [owned, owned, hheld, hqueued]
  · rw [hqueued]
    exact fun b hb => hb
  · rw [hunresolved, hqueued]
    exact fun b hb => hb
  · rw [hfresh, hqueued]
    exact fun b hb => hb

/-- The engine begins with a request. -/
theorem Owned.begin (hx : x.Owned) {bound : BoundRequest}
    (hlater : Later [bound.promise] [] x.history y.history) (howned : y.owned.Perm x.owned)
    (hbound : bound ∈ x.worker.fresh ++ queued x.tasks)
    (hgroup : ∀ b ∈ y.worker.group, b ∈ x.worker.group ∨ b ∈ x.worker.held)
    (hqueued : ∀ b ∈ queued y.tasks, b ∈ queued x.tasks)
    (hunresolved : ∀ b ∈ y.worker.unresolved ++ queued y.tasks,
      b ∈ x.worker.unresolved ++ queued x.tasks)
    (hothers : (bound :: (y.worker.fresh ++ queued y.tasks)).Subperm x.owned)
    (hfresh : ∀ b ∈ y.worker.fresh ++ queued y.tasks, b ∈ x.worker.fresh ++ queued x.tasks) :
    y.Owned :=
  hx.next hlater howned.subperm (fun _ hb => Or.inr (howned.mem_iff.mpr hb)) hgroup hqueued nofun
    (fun b hb => ⟨hunresolved b hb, List.not_mem_nil⟩) (Or.inr ⟨bound, hbound, rfl⟩)
    (fun b hb => ⟨hfresh b hb, hx.promise_notMem hothers b hb⟩)

/-- A request is answered and let go. -/
theorem Owned.answer {starts : List Nat} (hx : x.Owned) {bound : BoundRequest}
    (hlater : Later starts [bound.promise] x.history y.history)
    (howned : (bound :: y.owned).Perm x.owned)
    (hgroup : ∀ b ∈ y.worker.group, b ∈ x.worker.group ∨ b ∈ x.worker.held)
    (hqueued : ∀ b ∈ queued y.tasks, b ∈ queued x.tasks)
    (hunresolved : ∀ b ∈ y.worker.unresolved ++ queued y.tasks,
      b ∈ x.worker.unresolved ++ queued x.tasks)
    (hsub : (y.worker.unresolved ++ queued y.tasks).Subperm y.owned)
    (hsub' : (y.worker.fresh ++ queued y.tasks).Subperm y.owned)
    (hstarts : starts = [] ∨ starts = [bound.promise] ∧ bound ∈ x.worker.fresh ++ queued x.tasks)
    (hfresh : ∀ b ∈ y.worker.fresh ++ queued y.tasks, b ∈ x.worker.fresh ++ queued x.tasks) :
    y.Owned := by
  have hothers : ∀ b ∈ y.owned, b.promise ∉ [bound.promise] := hx.promise_notMem howned.subperm
  refine hx.next hlater ?_ ?_ hgroup hqueued ?_ ?_ ?_ ?_
  · exact ((List.sublist_cons_self bound y.owned).subperm).trans howned.subperm
  · intro b hb
    rcases List.mem_cons.mp (howned.mem_iff.mpr hb) with rfl | hb
    · exact Or.inl (Or.inl ((hlater.resolved _).mpr (Or.inr (List.mem_singleton_self _))))
    · exact Or.inr hb
  · intro p hp
    obtain rfl := List.mem_singleton.mp hp
    exact ⟨bound, List.mem_append_left _ (howned.mem_iff.mp List.mem_cons_self), rfl⟩
  · exact fun b hb => ⟨hunresolved b hb, hothers b (hsub.subset hb)⟩
  · rcases hstarts with rfl | ⟨rfl, hbound⟩
    · exact Or.inl rfl
    · exact Or.inr ⟨bound, hbound, rfl⟩
  · intro b hb
    refine ⟨hfresh b hb, ?_⟩
    rcases hstarts with rfl | ⟨rfl, -⟩
    · exact List.not_mem_nil
    · exact hothers b (hsub'.subset hb)

/-- Everything the worker holds is answered, and it lets go of it. -/
theorem Owned.answer_all (hx : x.Owned) {requests : List BoundRequest}
    (hlater : Later [] (requests.map BoundRequest.promise) x.history y.history)
    (hworker : y.worker = .waiting) (htasks : y.tasks = x.tasks)
    (hheld : ∀ b ∈ x.worker.held, b ∈ requests ∨ Finished y.history b.promise)
    (hrequests : ∀ b ∈ requests, b ∈ x.worker.held ∨ b ∈ x.worker.group) : y.Owned := by
  have howned : y.owned = queued x.tasks := by
    rw [owned, hworker, htasks]
    rfl
  have hothers : ∀ b ∈ queued x.tasks, b.promise ∉ requests.map BoundRequest.promise := by
    intro b hb hmem
    obtain ⟨b', hb', heq⟩ := List.mem_map.mp hmem
    rcases hrequests b' hb' with hheld | hgroup
    · have hnodup := hx.nodup
      rw [owned, List.map_append, List.nodup_append] at hnodup
      exact hnodup.2.2 _ (List.mem_map_of_mem hheld) _ (List.mem_map_of_mem hb) heq
    · exact hx.group_queued b' hgroup b hb heq.symm
  have hnothing : y.worker.unresolved = [] ∧ y.worker.fresh = [] ∧ y.worker.group = [] := by
    rw [hworker]
    exact ⟨rfl, rfl, rfl⟩
  refine hx.next hlater ?_ ?_ ?_ ?_ ?_ ?_ (Or.inl rfl) ?_
  · rw [howned]
    exact (List.sublist_append_right _ _).subperm
  · intro b hb
    rcases List.mem_append.mp hb with hb | hb
    · refine Or.inl ((hheld b hb).elim (fun hmem => ?_) id)
      exact Or.inl ((hlater.resolved _).mpr (Or.inr (List.mem_map_of_mem hmem)))
    · exact Or.inr (by rwa [howned])
  · rw [hnothing.2.2]
    nofun
  · rw [htasks]
    exact fun b hb => hb
  · intro p hp
    obtain ⟨b, hb, rfl⟩ := List.mem_map.mp hp
    refine ⟨b, List.mem_append.mpr ?_, rfl⟩
    exact (hrequests b hb).imp_left fun h => List.mem_append_left _ h
  · rw [hnothing.1, htasks, List.nil_append]
    exact fun b hb => ⟨List.mem_append_right _ hb, hothers b hb⟩
  · rw [hnothing.2.1, htasks, List.nil_append]
    exact fun b hb => ⟨List.mem_append_right _ hb, List.not_mem_nil⟩

/-- A new request waits in the queue. -/
theorem owned_enqueue (hx : x.Owned) (task : Task)
    (hfresh : ∀ other, .enqueued other ∈ x.history → other.promise ≠ task.promise) :
    Owned { x with tasks := x.tasks ++ [task], history := x.history ++ [.enqueued task] } := by
  set y : Executor engine :=
    { x with tasks := x.tasks ++ [task], history := x.history ++ [.enqueued task] } with hy
  have haccepted : accepted y.history = accepted x.history ++ [task] := by simp [hy, accepted]
  have hanswers : answers y.history = answers x.history := by simp [hy, answers]
  have hstarted : started y.history = started x.history := by simp [hy, started]
  have habandoned : abandoned y.history = abandoned x.history := by simp [hy, abandoned]
  have hresolved : ∀ p, Resolved y.history p ↔ Resolved x.history p := by
    simp [Resolved, hanswers]
  have howned : y.owned = x.owned ++ queued [task] := by simp [hy, owned]
  have hqueued : queued y.tasks = queued x.tasks ++ queued [task] := by simp [hy]
  have hnew : ∀ b ∈ queued [task], Task.generate b = task := by
    intro b hb
    cases task with
    | clear promise => exact absurd hb List.not_mem_nil
    | generate bound => rw [List.mem_singleton.mp hb]
  have hmono : ∀ b, Task.generate b ∈ accepted x.history → Task.generate b ∈ accepted y.history :=
    fun b hb => haccepted ▸ List.mem_append_left _ hb
  -- no request that is known has the promise of the new one
  have hother : ∀ b, Task.generate b ∈ accepted x.history → b.promise ≠ task.promise := by
    intro b hb
    refine hfresh (.generate b) ?_
    obtain ⟨h, hmem, heq⟩ := List.mem_filterMap.mp hb
    split at heq
    · obtain rfl := Option.some.inj heq
      exact hmem
    · cases heq
  constructor
  case nodup =>
    rw [howned, List.map_append, List.nodup_append]
    refine ⟨hx.nodup, ?_, ?_⟩
    · cases task <;> simp [queued]
    · rintro p hp q hq rfl
      obtain ⟨b, hb, rfl⟩ := List.mem_map.mp hp
      obtain ⟨b', hb', heq⟩ := List.mem_map.mp hq
      refine hother b (hx.known b hb) ?_
      rw [← heq, ← hnew b' hb']
      rfl
  case known =>
    intro b hb
    rw [howned] at hb
    rcases List.mem_append.mp hb with hb | hb
    · exact hmono b (hx.known b hb)
    · rw [haccepted, hnew b hb]
      exact List.mem_append_right _ (List.mem_singleton_self _)
  case group_known => exact fun b hb => hmono b (hx.group_known b hb)
  case group_queued =>
    intro b hb b' hb'
    rw [hqueued] at hb'
    rcases List.mem_append.mp hb' with hb' | hb'
    · exact hx.group_queued b hb b' hb'
    · have := hother b (hx.group_known b hb)
      rw [← hnew b' hb'] at this
      exact this.symm
  case resolved_known =>
    intro p hp
    obtain ⟨b, hb, hpromise⟩ := hx.resolved_known p ((hresolved p).mp hp)
    exact ⟨b, hmono b hb, hpromise⟩
  case started_known =>
    intro p hp
    rw [hstarted] at hp
    obtain ⟨b, hb, hpromise⟩ := hx.started_known p hp
    exact ⟨b, hmono b hb, hpromise⟩
  case answers_nodup =>
    rw [hanswers]
    exact hx.answers_nodup
  case started_nodup =>
    rw [hstarted]
    exact hx.started_nodup
  case unresolved =>
    intro b hb hp
    rw [hresolved] at hp
    rw [hqueued, ← List.append_assoc] at hb
    rcases List.mem_append.mp hb with hb | hb
    · exact hx.unresolved b hb hp
    -- an answer to the new promise would be one to a request that is known
    · obtain ⟨b', hb', heq⟩ := hx.resolved_known _ hp
      refine hother b' hb' ?_
      rw [heq, ← hnew b hb]
      rfl
  case fresh =>
    intro b hb hp
    rw [hstarted] at hp
    rw [hqueued, ← List.append_assoc] at hb
    rcases List.mem_append.mp hb with hb | hb
    · exact hx.fresh b hb hp
    -- and so would be its start
    · obtain ⟨b', hb', heq⟩ := hx.started_known _ hp
      refine hother b' hb' ?_
      rw [heq, ← hnew b hb]
      rfl
  case covered =>
    intro b hb
    rw [haccepted] at hb
    rw [Finished, hresolved, habandoned, howned]
    rcases List.mem_append.mp hb with hb | hb
    · exact (hx.covered b hb).imp_right (List.mem_append_left _)
    · obtain rfl := List.mem_singleton.mp hb
      exact Or.inr (List.mem_append_right _ (List.mem_singleton_self b))

theorem owned_step {leak : Option Leak} (hx : x.Owned) (hsettled : x.worker.Settled x.history)
    (hstep : Step engine leak x y) : y.Owned := by
  cases hstep with
  | enqueue task hopen hfresh => exact owned_enqueue hx task hfresh
  | stop => exact hx.same (.refl _) rfl rfl rfl rfl fun b hb => Or.inl hb
  | leave hempty => exact hx.same (.refl _) rfl rfl rfl rfl (List.forall_mem_nil _)
  | take_clear => exact hx.same (.refl _) rfl rfl rfl rfl (List.forall_mem_nil _)
  | take_alone hnot =>
    refine hx.begin (later_start _ _) (.refl _) List.mem_cons_self (List.forall_mem_nil _) ?_ ?_ ?_ ?_
    · exact fun b hb => List.mem_cons_of_mem _ hb
    · exact fun b hb => hb
    · exact List.Subperm.refl _
    · exact fun b hb => List.mem_cons_of_mem _ hb
  | take_group hgroup =>
    refine hx.move (.refl _) (.refl _) (List.forall_mem_nil _) ?_ ?_ ?_
    · exact fun b hb => List.mem_cons_of_mem _ hb
    · exact fun b hb => hb
    · exact fun b hb => hb
  | @extend_group batch bound tasks _ _ hroom hgroup =>
    have hlists : batch ++ [bound] ++ queued tasks = batch ++ queued (.generate bound :: tasks) := by
      rw [queued_generate, List.append_assoc, List.singleton_append]
    refine hx.move (.refl _) (.of_eq hlists) (List.forall_mem_nil _) ?_ ?_ ?_
    · exact fun b hb => List.mem_cons_of_mem _ hb
    · exact fun b hb => hlists ▸ hb
    · exact fun b hb => hlists ▸ hb
  | close_single hend =>
    refine hx.begin (later_start _ _) (.refl _) List.mem_cons_self (List.forall_mem_nil _) ?_ ?_ ?_ ?_
    · exact fun b hb => hb
    · exact fun b hb => hb
    · exact List.Subperm.refl _
    · exact fun b hb => List.mem_cons_of_mem _ hb
  | close_group hmany hend => exact hx.same (.refl _) rfl rfl rfl rfl (List.forall_mem_nil _)
  | clear_done => exact hx.same (later_clear _ _) rfl rfl rfl rfl (List.forall_mem_nil _)
  | @alone_done bound tasks _ history outcome =>
    have hnot : ¬Resolved history bound.promise := hx.unresolved bound List.mem_cons_self
    refine hx.answer (?_ : Later [] [bound.promise] history _) (.refl _) (List.forall_mem_nil _)
      ?_ ?_ (List.Subperm.refl _) (List.Subperm.refl _) (Or.inl rfl) ?_
    · cases outcome with
      | ok value => exact later_answer hnot _
      | error message => exact later_resolve _ _ _
    · exact fun b hb => hb
    · exact fun b hb => List.mem_cons_of_mem _ hb
    · exact fun b hb => hb
  | refuse_group hcheck =>
    exact hx.answer_all (later_resolve_all _ _ _) rfl rfl (fun b hb => Or.inl hb)
      fun b hb => Or.inl hb
  | split_group hcheck => exact hx.same (.refl _) rfl rfl rfl rfl (List.forall_mem_nil _)
  | @enter_group batch _ _ _ tokenized _ hcheck =>
    obtain ⟨_, htokenized, -⟩ := admit_group_together hcheck
    have hlists : tokenized.map Prod.fst = batch := tokenize_group_map_fst htokenized
    exact hx.same (.refl _) hlists hlists hlists rfl fun b hb => Or.inr hb
  | setup_throws message =>
    refine hx.answer_all (later_resolve_all _ _ _) rfl rfl (fun b hb => Or.inl ?_)
      fun b hb => Or.inr hb
    obtain ⟨hdeferred, -, hbatch⟩ := hsettled
    rw [Worker.held, hdeferred, List.nil_append] at hb
    exact hbatch b hb
  | @begin_session batch loop bound _ pending tasks _ _ session hsession =>
    obtain ⟨hdeferred, -⟩ := hsettled
    obtain ⟨hbound, -⟩ := initialize_session_eq_ok hsession
    refine hx.begin (later_start _ _) (.of_eq ?_) ?_ (fun b hb => Or.inl hb) ?_ ?_ ?_ ?_
    · simp [owned, Worker.held, hdeferred, hbound]
    · simp [Worker.fresh]
    · exact fun b hb => hb
    · simp only [Worker.unresolved, Worker.fresh, hdeferred]
      exact fun b hb => List.mem_cons_of_mem _ hb
    · simp only [owned, Worker.held, Worker.fresh, hdeferred, List.append_assoc]
      exact (List.sublist_append_right _ _).subperm
    · simp only [Worker.fresh, hdeferred]
      exact fun b hb => List.mem_cons_of_mem _ hb
  | @begin_session_fails batch loop bound _ pending tasks _ _ message =>
    obtain ⟨hdeferred, -⟩ := hsettled
    refine hx.answer ((later_start _ _).trans (later_resolve _ _ _)) ?_ (fun b hb => Or.inl hb)
      ?_ ?_ ?_ ?_ (Or.inr ⟨rfl, ?_⟩) ?_
    · simp only [owned, Worker.held, hdeferred, List.append_assoc]
      exact List.perm_middle.symm
    · exact fun b hb => hb
    · simp only [Worker.unresolved, Worker.fresh, hdeferred]
      exact fun b hb => List.mem_cons_of_mem _ hb
    · simp only [owned, Worker.held, Worker.unresolved, Worker.fresh, List.append_assoc]
      exact (List.sublist_append_right _ _).subperm
    · simp only [owned, Worker.held, Worker.fresh, List.append_assoc]
      exact (List.sublist_append_right _ _).subperm
    · simp [Worker.fresh]
    · simp only [Worker.fresh, hdeferred]
      exact fun b hb => List.mem_cons_of_mem _ hb
  | @sessions_begun _ loop =>
    have hheld : loop.deferred ++ ([] : List (BoundRequest × List Token)).map Prod.fst =
        loop.deferred := List.append_nil _
    refine hx.same (.refl _) ?_ hheld.symm hheld.symm rfl fun b hb => Or.inl hb
    rw [Worker.held, Worker.held, hheld]
  | decode hsome hsessions =>
    refine hx.same (.refl _) ?_ rfl rfl rfl fun b hb => Or.inl hb
    rw [Worker.held, Worker.held, step_sessions_map (fun _ _ => rfl) hsessions]
  | loop_throws message hsome =>
    exact hx.answer_all (later_resolve_all _ _ _) rfl rfl (fun b hb => Or.inl hb)
      fun b hb => Or.inl hb
  | @take_row _ _ _ logits =>
    refine hx.same (.refl _) ?_ rfl rfl rfl fun b hb => Or.inl hb
    rw [Worker.held, Worker.held, map_modify_of_eq _ (take_row_bound logits)]
  | row_throws message hsession =>
    exact hx.answer_all (later_resolve_all _ _ _) rfl rfl (fun b hb => Or.inl hb)
      fun b hb => Or.inl hb
  | rows_done => exact hx.same (.refl _) rfl rfl rfl rfl fun b hb => Or.inl hb
  | collect_active hsession hactive =>
    exact hx.same (.refl _) rfl rfl rfl rfl fun b hb => Or.inl hb
  | @collect_finished _ loop slot tasks _ _ session hsession hactive =>
    have hmem : session.bound ∈ loop.sessions.map Session.bound :=
      List.mem_map_of_mem (List.mem_of_getElem? hsession)
    have hothers : ∀ b ∈ loop.deferred ++ queued tasks, b.promise ∉ [session.bound.promise] := by
      have hnodup := hx.nodup
      rw [owned, Worker.held, List.append_assoc, List.map_append, List.nodup_append] at hnodup
      intro b hb heq
      exact hnodup.2.2 _ (List.mem_map_of_mem hmem) _ (List.mem_map_of_mem hb)
        (List.mem_singleton.mp heq).symm
    refine hx.next (later_resolve _ _ _) (List.Subperm.refl _) (fun b hb => Or.inr hb)
      (fun b hb => Or.inl hb) (fun b hb => hb) ?_ (fun b hb => ⟨hb, hothers b hb⟩) (Or.inl rfl)
      (fun b hb => ⟨hb, List.not_mem_nil⟩)
    intro p hp
    refine ⟨session.bound, ?_, (List.mem_singleton.mp hp).symm⟩
    exact List.mem_append_left _ (List.mem_append_left _ (List.mem_append_left _ hmem))
  | collect_throws message hsession hactive =>
    exact hx.answer_all (later_resolve_all _ _ _) rfl rfl (fun b hb => Or.inl hb)
      fun b hb => Or.inl hb
  | @collect_done _ loop slot tasks _ history hend =>
    have hsub : (loop.sessions.filter fun session => session.active).map Session.bound ⊆
        loop.sessions.map Session.bound := (List.filter_sublist.map _).subset
    refine hx.next (.refl _) ?_ ?_ (fun b hb => Or.inl hb) (fun b hb => hb) (List.forall_mem_nil _)
      (fun b hb => ⟨hb, List.not_mem_nil⟩) (Or.inl rfl) (fun b hb => ⟨hb, List.not_mem_nil⟩)
    · exact (((List.filter_sublist.map _).append_right _).append_right _).subperm
    · -- a session that leaves has been answered when its slot was collected
      intro b hb
      simp only [owned, Worker.held, List.mem_append] at hb ⊢
      rcases hb with (hb | hb) | hb
      · obtain ⟨session, hsession, rfl⟩ := List.mem_map.mp hb
        obtain ⟨i, hi, hget⟩ := List.getElem_of_mem hsession
        rcases hsettled i session (hend ▸ hi) (hget ▸ List.getElem?_eq_getElem hi) with h | h
        · exact Or.inr (Or.inl (Or.inl (List.mem_map_of_mem (List.mem_filter.mpr ⟨hsession, h⟩))))
        · exact Or.inl (Or.inl h)
      · exact Or.inr (Or.inl (Or.inr hb))
      · exact Or.inr (Or.inr hb)
  | refill_stop hend => exact hx.same (.refl _) rfl rfl rfl rfl fun b hb => Or.inl hb
  | refill_refused hroom hgroup hcheck =>
    refine hx.answer (later_resolve _ _ _) List.perm_middle.symm (fun b hb => Or.inl hb)
      ?_ ?_ ?_ ?_ (Or.inl rfl) ?_
    · exact fun b hb => List.mem_cons_of_mem _ hb
    · exact fun b hb => mem_append_cons hb
    · exact ((List.sublist_append_right _ _).append_right _).subperm
    · exact ((List.sublist_append_right _ _).append_right _).subperm
    · exact fun b hb => mem_append_cons hb
  | @refill_deferred _ loop bound tasks _ _ _ hroom hgroup hcheck hdefers =>
    have hlists : loop.deferred ++ [bound] ++ queued tasks =
        loop.deferred ++ queued (.generate bound :: tasks) := by
      rw [queued_generate, List.append_assoc, List.singleton_append]
    refine hx.move (.refl _) (.of_eq ?_) (fun b hb => Or.inl hb) ?_ ?_ ?_
    · simp [owned, Worker.held]
    · exact fun b hb => List.mem_cons_of_mem _ hb
    · exact fun b hb => hlists ▸ hb
    · exact fun b hb => hlists ▸ hb
  | @refill_admitted _ loop bound tasks _ _ _ session hroom hgroup hcheck hfits hsession =>
    obtain ⟨hbound, -⟩ := initialize_session_eq_ok hsession
    refine hx.begin (later_start _ _) ?_ ?_ (fun b hb => Or.inl hb) ?_ ?_ ?_ ?_
    · simp only [owned, Worker.held, List.map_append, List.map_singleton, hbound, queued_generate,
        List.append_assoc, List.singleton_append]
      exact List.Perm.append_left _ List.perm_middle.symm
    · exact List.mem_append_right _ List.mem_cons_self
    · exact fun b hb => List.mem_cons_of_mem _ hb
    · exact fun b hb => mem_append_cons hb
    · refine List.perm_middle.symm.subperm.trans ?_
      simp only [owned, Worker.held, List.append_assoc]
      exact (List.sublist_append_right _ _).subperm
    · exact fun b hb => mem_append_cons hb
  | refill_fails message hroom hgroup hcheck hfits =>
    refine hx.answer ((later_start _ _).trans (later_resolve _ _ _)) List.perm_middle.symm
      (fun b hb => Or.inl hb) ?_ ?_ ?_ ?_ (Or.inr ⟨rfl, ?_⟩) ?_
    · exact fun b hb => List.mem_cons_of_mem _ hb
    · exact fun b hb => mem_append_cons hb
    · exact ((List.sublist_append_right _ _).append_right _).subperm
    · exact ((List.sublist_append_right _ _).append_right _).subperm
    · exact List.mem_append_right _ List.mem_cons_self
    · exact fun b hb => mem_append_cons hb
  | prefill_none hnone => exact hx.same (.refl _) rfl rfl rfl rfl fun b hb => Or.inl hb
  | @prefill_some _ loop slot _ _ _ session session' hslot hsession hadvance =>
    refine hx.same (.refl _) ?_ rfl rfl rfl fun b hb => Or.inl hb
    obtain ⟨hbound, -⟩ := advance_pending_prefill_eq_ok hadvance
    rw [Worker.held, Worker.held, map_set_of_eq _ hsession hbound]
  | @prefill_fails _ loop slot _ _ _ session message hslot hsession =>
    refine hx.answer (later_resolve _ _ _) ?_ (fun b hb => Or.inl hb) (fun b hb => hb)
      (fun b hb => hb) ?_ ?_ (Or.inl rfl) (fun b hb => hb)
    · have hperm : (session.bound :: (loop.sessions.eraseIdx slot).map Session.bound).Perm
          (loop.sessions.map Session.bound) := by
        obtain ⟨hlt, rfl⟩ := List.getElem?_eq_some_iff.mp hsession
        exact (List.getElem_cons_eraseIdx_perm hlt).map Session.bound
      exact (hperm.append_right _).append_right _
    · exact ((List.sublist_append_right _ _).append_right _).subperm
    · exact ((List.sublist_append_right _ _).append_right _).subperm
  | loop_done hempty =>
    refine hx.same (.refl _) ?_ rfl rfl rfl (List.forall_mem_nil _)
    rw [Worker.held, Worker.held, hempty]
    rfl
  | @cleanup_throws batch loop _ _ history message hempty =>
    obtain ⟨hlater, habandoned⟩ :=
      later_abandon (resolve_all ⟨none, message⟩ batch history) loop.deferred
    have hall := (later_resolve_all ⟨none, message⟩ batch history).trans hlater
    rw [List.append_nil, List.append_nil] at hall
    refine hx.answer_all hall rfl rfl ?_ fun b hb => Or.inr hb
    intro b hb
    rw [Worker.held, hempty] at hb
    exact Or.inr (Or.inr (habandoned b hb))
  | one_done outcome =>
    refine hx.answer ((later_start _ _).trans (later_resolve _ _ _)) (.refl _) (List.forall_mem_nil _)
      (fun b hb => hb) ?_ (List.Subperm.refl _) (List.Subperm.refl _)
      (Or.inr ⟨rfl, List.mem_cons_self⟩) ?_
    · exact fun b hb => List.mem_cons_of_mem _ hb
    · exact fun b hb => List.mem_cons_of_mem _ hb
  | all_done => exact hx.same (.refl _) rfl rfl rfl rfl (List.forall_mem_nil _)

variable (engine) in
theorem owned_start : Owned ({} : Executor engine) where
  nodup := List.nodup_nil
  known := nofun
  group_known := nofun
  group_queued := nofun
  resolved_known := nofun
  started_known := nofun
  answers_nodup := List.nodup_nil
  started_nodup := List.nodup_nil
  unresolved := nofun
  fresh := nofun
  covered := nofun

/-- Every state that a run reaches keeps its requests: each is in one place, in the queue, with the
worker or answered, and the worker's part fits what has been answered so far. This holds whatever
the leaks that are allowed. -/
theorem owned_of_reaches {Allowed : Executor engine → Option Leak → Prop}
    (h : Reaches engine Allowed x) : x.Owned ∧ x.worker.Settled x.history := by
  induction h with
  | start => exact ⟨owned_start engine, trivial⟩
  | step hreaches hallowed hstep ih =>
    exact ⟨owned_step ih.1 ih.2 hstep, settled_step ih.2 hstep⟩

end Executor

end Qwen38
