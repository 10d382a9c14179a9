import Qwen38.Engine.Batch
import Qwen38.Engine.Schedules

/-!
# The executor

One worker thread owns the engine; clients put their requests into its queue and wait for a
promise. The worker takes what is in front: a clear, a single request, or a group of up to
four, which `complete_batch` runs together and refills from the queue.

`Executor.Step` is one step of this system: a client that enqueues, the stop, or what the
worker does next up to where a client could come in between again. What a request alone
comes to, and where the engine throws, is left open: every outcome is a step. A step says
which exception leaves the place where it was raised (`Executor.Leak`), since what becomes
of the other requests depends on that.

The history is what has happened, in order. A promise has been resolved when the history
has its answer; the callbacks of a batch look at that (`Executor.resolve`), the plain path
of a single request does not.
-/

namespace Qwen38

/-- A task in the queue. A clear has a promise of its own. -/
inductive Task
  | generate (bound : BoundRequest)
  | clear (promise : Nat)

def Task.promise : Task → Nat
  | .generate bound => bound.promise
  | .clear promise => promise

/-- What a promise of a request is resolved with. A result names the request that it was
computed for. -/
inductive Answer
  | result (computed_for : Nat) (value : GenerationResult)
  | error (thrown : Thrown)

/-- What happens, as far as clients can tell. -/
inductive Happening
  | enqueued (task : Task)
  | started (promise : Nat)
  | answered (promise : Nat) (answer : Answer)
  | cleared (promise : Nat)
  | abandoned (promise : Nat)

/-- Where the loop of `complete_batch` is. -/
inductive Phase (T : Target)
  | decode
  | rows (pending : List (Nat × T.Logits))
  | collect (slot : Nat)
  | refill
  | prefill

/-- The variables of that loop. -/
structure Batch {T : Target} (engine : NativeEngine T) where
  aggregate_limit : Nat
  sessions : List (Session engine) := []
  deferred : List BoundRequest := []
  live_capacity : Nat := 0

/-- A refill waits until the batch is over: it does not fit, or has a thinking budget. -/
def Batch.Defers {T : Target} {engine : NativeEngine T} (loop : Batch engine)
    (request : BatchRequest) (prompt_tokens : List Token) : Prop :=
  request.sampling.thinking_budget_tokens ≠ 0 ∨
    loop.aggregate_limit < (loop.live_capacity + request.capacity prompt_tokens) % word

/-- What the worker is at. The requests of a group stay with it for its `catch`. -/
inductive Worker {T : Target} (engine : NativeEngine T)
  | waiting
  | grouping (batch : List BoundRequest)
  | clearing (promise : Nat)
  | alone (bound : BoundRequest)
  | entering (batch : List BoundRequest)
  | initializing (batch : List BoundRequest) (loop : Batch engine)
      (pending : List (BoundRequest × List Token))
  | running (batch : List BoundRequest) (loop : Batch engine) (phase : Phase T)
  | one_by_one (requests : List BoundRequest)
  | stopped

structure Executor {T : Target} (engine : NativeEngine T) where
  tasks : List Task := []
  stopping : Bool := false
  worker : Worker engine := .waiting
  history : List Happening := []

/-- An exception that leaves the place where it was raised. One of the checks or of the
loop, raised by a request; one of the code that the requests of a batch share, where no
request in particular raised it; or one after the loop. -/
inductive Leak
  | raised_by (promise : Nat)
  | shared
  | after_loop

/-- The leak when an exception leaves `complete_batch`, or reaches the `catch` of its loop. -/
def Thrown.leak (thrown : Thrown) : Leak :=
  match thrown.raised_by with
  | some promise => .raised_by promise
  | none => .shared

namespace Executor

variable {T : Target} {engine : NativeEngine T}

/-! ### Promises -/

/-- The answers in a history. -/
def answers (history : List Happening) : List (Nat × Answer) :=
  history.filterMap fun
    | .answered promise answer => some (promise, answer)
    | _ => none

/-- The promise has been resolved. -/
def Resolved (history : List Happening) (promise : Nat) : Prop :=
  promise ∈ (answers history).map Prod.fst

instance (history : List Happening) (promise : Nat) : Decidable (Resolved history promise) := by
  unfold Resolved
  infer_instance

/-- `on_complete` and `on_error`: the first answer counts. -/
def resolve (history : List Happening) (promise : Nat) (answer : Answer) : List Happening :=
  if Resolved history promise then history else history ++ [.answered promise answer]

/-- The `catch` around several requests: the error goes to all of them. -/
def resolve_all (thrown : Thrown) (requests : List BoundRequest) (history : List Happening) :
    List Happening :=
  requests.foldl (fun history bound => resolve history bound.promise (.error thrown)) history

/-- The outcome of a request that runs alone. -/
def outcome_of (bound : BoundRequest) (outcome : Except String GenerationResult) : Answer :=
  match outcome with
  | .ok value => .result bound.promise value
  | .error message => .error ⟨some bound.promise, message⟩

/-! ### Selection -/

/-- A task that may be grouped: a request without a thinking budget. -/
def groupable : Task → Option BoundRequest
  | .generate bound =>
    if bound.request.sampling.thinking_budget_tokens = 0 then some bound else none
  | .clear _ => none

/-- The request in front that may be grouped. -/
def next_groupable (tasks : List Task) : Option BoundRequest := tasks.head?.bind groupable

/-! ### Steps -/

/-- The engine and its `catch` when the shared loop throws. -/
def fail_batch (thrown : Thrown) (loop : Batch engine) (history : List Happening) :
    List Happening :=
  resolve_all thrown (loop.sessions.map Session.bound ++ loop.deferred) history

variable (engine)

/-- One step. The leak, if any, is the exception that leaves its place in the step. -/
inductive Step : Option Leak → Executor engine → Executor engine → Prop
  -- clients
  | enqueue {x : Executor engine} (task : Task) (hopen : x.stopping = false)
      (hfresh : ∀ other, .enqueued other ∈ x.history → other.promise ≠ task.promise) :
      Step none x
        { x with tasks := x.tasks ++ [task], history := x.history ++ [.enqueued task] }
  | stop {x : Executor engine} : Step none x { x with stopping := true }
  -- selection
  | leave {tasks history} (hempty : tasks = []) :
      Step none ⟨tasks, true, .waiting, history⟩ ⟨tasks, true, .stopped, history⟩
  | take_clear {promise tasks stopping history} :
      Step none ⟨.clear promise :: tasks, stopping, .waiting, history⟩
        ⟨tasks, stopping, .clearing promise, history⟩
  | take_alone {bound tasks stopping history} (hnot : groupable (.generate bound) = none) :
      Step none ⟨.generate bound :: tasks, stopping, .waiting, history⟩
        ⟨tasks, stopping, .alone bound, history ++ [.started bound.promise]⟩
  | take_group {bound tasks stopping history} (hgroup : groupable (.generate bound) = some bound) :
      Step none ⟨.generate bound :: tasks, stopping, .waiting, history⟩
        ⟨tasks, stopping, .grouping [bound], history⟩
  | extend_group {batch bound tasks stopping history} (hroom : batch.length < 4)
      (hgroup : groupable (.generate bound) = some bound) :
      Step none ⟨.generate bound :: tasks, stopping, .grouping batch, history⟩
        ⟨tasks, stopping, .grouping (batch ++ [bound]), history⟩
  | close_single {bound tasks stopping history} (hend : next_groupable tasks = none) :
      Step none ⟨tasks, stopping, .grouping [bound], history⟩
        ⟨tasks, stopping, .alone bound, history ++ [.started bound.promise]⟩
  | close_group {batch tasks stopping history} (hmany : 2 ≤ batch.length)
      (hend : batch.length = 4 ∨ next_groupable tasks = none) :
      Step none ⟨tasks, stopping, .grouping batch, history⟩
        ⟨tasks, stopping, .entering batch, history⟩
  -- one task alone
  | clear_done {promise tasks stopping history} :
      Step none ⟨tasks, stopping, .clearing promise, history⟩
        ⟨tasks, stopping, .waiting, history ++ [.cleared promise]⟩
  | alone_done {bound tasks stopping history} (outcome : Except String GenerationResult) :
      Step none ⟨tasks, stopping, .alone bound, history⟩
        ⟨tasks, stopping, .waiting, match outcome with
          | .ok _ => history ++ [.answered bound.promise (outcome_of bound outcome)]
          | .error _ => resolve history bound.promise (outcome_of bound outcome)⟩
  -- a group, up to its loop
  | refuse_group {batch tasks stopping history thrown} (hcheck : engine.admit_group batch = .error thrown) :
      Step (some thrown.leak) ⟨tasks, stopping, .entering batch, history⟩
        ⟨tasks, stopping, .waiting, resolve_all thrown batch history⟩
  | split_group {batch tasks stopping history} (hcheck : engine.admit_group batch = .ok .apart) :
      Step none ⟨tasks, stopping, .entering batch, history⟩
        ⟨tasks, stopping, .one_by_one batch, history⟩
  | enter_group {batch tasks stopping history tokenized limit}
      (hcheck : engine.admit_group batch = .ok (.together tokenized limit)) :
      Step none ⟨tasks, stopping, .entering batch, history⟩
        ⟨tasks, stopping, .initializing batch { aggregate_limit := limit } tokenized, history⟩
  | setup_throws {batch loop pending tasks stopping history} (message : String) :
      Step (some .shared) ⟨tasks, stopping, .initializing batch loop pending, history⟩
        ⟨tasks, stopping, .waiting, resolve_all ⟨none, message⟩ batch history⟩
  | begin_session {batch loop bound prompt_tokens pending tasks stopping history session}
      (hsession : engine.initialize_session bound prompt_tokens false = .ok session) :
      Step none ⟨tasks, stopping, .initializing batch loop ((bound, prompt_tokens) :: pending), history⟩
        ⟨tasks, stopping,
          .initializing batch { loop with sessions := loop.sessions ++ [session] } pending,
          history ++ [.started bound.promise]⟩
  | begin_session_fails {batch loop bound prompt_tokens pending tasks stopping history}
      (message : String) :
      Step none ⟨tasks, stopping, .initializing batch loop ((bound, prompt_tokens) :: pending), history⟩
        ⟨tasks, stopping, .initializing batch loop pending,
          resolve (history ++ [.started bound.promise]) bound.promise
            (.error ⟨some bound.promise, message⟩)⟩
  | sessions_begun {batch loop tasks stopping history} :
      Step none ⟨tasks, stopping, .initializing batch loop [], history⟩
        ⟨tasks, stopping, .running batch loop .decode, history⟩
  -- a pass of the loop
  | decode {batch loop tasks stopping history sessions pending} (hsome : loop.sessions ≠ [])
      (hstep : engine.step_sessions loop.sessions = .ok (sessions, pending)) :
      Step none ⟨tasks, stopping, .running batch loop .decode, history⟩
        ⟨tasks, stopping, .running batch { loop with sessions } (.rows pending), history⟩
  | loop_throws {batch loop phase tasks stopping history} (message : String)
      (hsome : loop.sessions ≠ []) :
      Step (some .shared) ⟨tasks, stopping, .running batch loop phase, history⟩
        ⟨tasks, stopping, .waiting, fail_batch ⟨none, message⟩ loop history⟩
  | take_row {batch loop slot logits pending tasks stopping history} :
      Step none ⟨tasks, stopping, .running batch loop (.rows ((slot, logits) :: pending)), history⟩
        ⟨tasks, stopping, .running batch
          { loop with sessions := loop.sessions.modify slot (engine.take_row logits) }
          (.rows pending), history⟩
  | row_throws {batch loop slot logits pending tasks stopping history session} (message : String)
      (hsession : loop.sessions[slot]? = some session) :
      Step (some (.raised_by session.bound.promise))
        ⟨tasks, stopping, .running batch loop (.rows ((slot, logits) :: pending)), history⟩
        ⟨tasks, stopping, .waiting,
          fail_batch ⟨some session.bound.promise, message⟩ loop history⟩
  | rows_done {batch loop tasks stopping history} :
      Step none ⟨tasks, stopping, .running batch loop (.rows []), history⟩
        ⟨tasks, stopping, .running batch { loop with live_capacity := 0 } (.collect 0), history⟩
  | collect_active {batch loop slot tasks stopping history session}
      (hsession : loop.sessions[slot]? = some session) (hactive : session.active = true) :
      Step none ⟨tasks, stopping, .running batch loop (.collect slot), history⟩
        ⟨tasks, stopping, .running batch
          { loop with live_capacity := (loop.live_capacity + session.reserved_tokens) % word }
          (.collect (slot + 1)), history⟩
  | collect_finished {batch loop slot tasks stopping history session}
      (hsession : loop.sessions[slot]? = some session) (hactive : session.active = false) :
      Step none ⟨tasks, stopping, .running batch loop (.collect slot), history⟩
        ⟨tasks, stopping, .running batch loop (.collect (slot + 1)),
          resolve history session.bound.promise
            (.result session.bound.promise (engine.session_result session))⟩
  | collect_throws {batch loop slot tasks stopping history session} (message : String)
      (hsession : loop.sessions[slot]? = some session) (hactive : session.active = false) :
      Step (some (.raised_by session.bound.promise))
        ⟨tasks, stopping, .running batch loop (.collect slot), history⟩
        ⟨tasks, stopping, .waiting,
          fail_batch ⟨some session.bound.promise, message⟩ loop history⟩
  | collect_done {batch loop slot tasks stopping history} (hend : slot = loop.sessions.length) :
      Step none ⟨tasks, stopping, .running batch loop (.collect slot), history⟩
        ⟨tasks, stopping, .running batch
          { loop with sessions := loop.sessions.filter fun session => session.active } .refill,
          history⟩
  -- the refill
  | refill_stop {batch loop tasks stopping history}
      (hend : loop.sessions = [] ∨ 4 ≤ loop.sessions.length ∨ next_groupable tasks = none) :
      Step none ⟨tasks, stopping, .running batch loop .refill, history⟩
        ⟨tasks, stopping, .running batch loop .prefill, history⟩
  | refill_refused {batch loop bound tasks stopping history message}
      (hroom : loop.sessions ≠ [] ∧ loop.sessions.length < 4)
      (hgroup : groupable (.generate bound) = some bound)
      (hcheck : engine.check_refill bound.request = .error message) :
      Step none ⟨.generate bound :: tasks, stopping, .running batch loop .refill, history⟩
        ⟨tasks, stopping, .running batch loop .refill,
          resolve history bound.promise (.error ⟨some bound.promise, message⟩)⟩
  | refill_deferred {batch loop bound tasks stopping history prompt_tokens}
      (hroom : loop.sessions ≠ [] ∧ loop.sessions.length < 4)
      (hgroup : groupable (.generate bound) = some bound)
      (hcheck : engine.check_refill bound.request = .ok prompt_tokens)
      (hdefers : loop.Defers bound.request prompt_tokens) :
      Step none ⟨.generate bound :: tasks, stopping, .running batch loop .refill, history⟩
        ⟨tasks, stopping, .running batch { loop with deferred := loop.deferred ++ [bound] }
          .prefill, history⟩
  | refill_admitted {batch loop bound tasks stopping history prompt_tokens session}
      (hroom : loop.sessions ≠ [] ∧ loop.sessions.length < 4)
      (hgroup : groupable (.generate bound) = some bound)
      (hcheck : engine.check_refill bound.request = .ok prompt_tokens)
      (hfits : ¬loop.Defers bound.request prompt_tokens)
      (hsession : engine.initialize_session bound prompt_tokens true = .ok session) :
      Step none ⟨.generate bound :: tasks, stopping, .running batch loop .refill, history⟩
        ⟨tasks, stopping, .running batch
          { loop with
            sessions := loop.sessions ++ [session]
            live_capacity :=
              (loop.live_capacity + bound.request.capacity prompt_tokens) % word } .refill,
          history ++ [.started bound.promise]⟩
  | refill_fails {batch loop bound tasks stopping history prompt_tokens} (message : String)
      (hroom : loop.sessions ≠ [] ∧ loop.sessions.length < 4)
      (hgroup : groupable (.generate bound) = some bound)
      (hcheck : engine.check_refill bound.request = .ok prompt_tokens)
      (hfits : ¬loop.Defers bound.request prompt_tokens) :
      Step none ⟨.generate bound :: tasks, stopping, .running batch loop .refill, history⟩
        ⟨tasks, stopping, .running batch loop .refill,
          resolve (history ++ [.started bound.promise]) bound.promise
            (.error ⟨some bound.promise, message⟩)⟩
  -- the prompt that waits
  | prefill_none {batch loop tasks stopping history}
      (hnone : engine.pending_slot loop.sessions = none) :
      Step none ⟨tasks, stopping, .running batch loop .prefill, history⟩
        ⟨tasks, stopping, .running batch loop .decode, history⟩
  | prefill_some {batch loop slot tasks stopping history session session'}
      (hslot : engine.pending_slot loop.sessions = some slot)
      (hsession : loop.sessions[slot]? = some session)
      (hadvance : engine.advance_pending_prefill session = .ok session') :
      Step none ⟨tasks, stopping, .running batch loop .prefill, history⟩
        ⟨tasks, stopping, .running batch
          { loop with sessions := loop.sessions.set slot session' } .decode, history⟩
  | prefill_fails {batch loop slot tasks stopping history session} (message : String)
      (hslot : engine.pending_slot loop.sessions = some slot)
      (hsession : loop.sessions[slot]? = some session) :
      Step none ⟨tasks, stopping, .running batch loop .prefill, history⟩
        ⟨tasks, stopping, .running batch
          { loop with sessions := loop.sessions.eraseIdx slot } .decode,
          resolve history session.bound.promise (.error ⟨some session.bound.promise, message⟩)⟩
  -- after the loop
  | loop_done {batch loop tasks stopping history} (hempty : loop.sessions = []) :
      Step none ⟨tasks, stopping, .running batch loop .decode, history⟩
        ⟨tasks, stopping, .one_by_one loop.deferred, history⟩
  | cleanup_throws {batch loop tasks stopping history} (message : String)
      (hempty : loop.sessions = []) :
      Step (some .after_loop) ⟨tasks, stopping, .running batch loop .decode, history⟩
        ⟨tasks, stopping, .waiting, resolve_all ⟨none, message⟩ batch history ++
          loop.deferred.map fun bound => .abandoned bound.promise⟩
  | one_done {bound requests tasks stopping history} (outcome : Except String GenerationResult) :
      Step none ⟨tasks, stopping, .one_by_one (bound :: requests), history⟩
        ⟨tasks, stopping, .one_by_one requests,
          resolve (history ++ [.started bound.promise]) bound.promise (outcome_of bound outcome)⟩
  | all_done {tasks stopping history} :
      Step none ⟨tasks, stopping, .one_by_one [], history⟩
        ⟨tasks, stopping, .waiting, history⟩

/-- What a run reaches, with every step as the condition asks. -/
inductive Reaches (Allowed : Executor engine → Option Leak → Prop) :
    Executor engine → Prop
  | start : Reaches Allowed {}
  | step {leak : Option Leak} {x y : Executor engine} (h : Reaches Allowed x)
      (hallowed : Allowed x leak) (hstep : Step engine leak x y) : Reaches Allowed y

/-! ### A small engine -/

/-- A small engine: every prompt is one token, and so is every answer. -/
def small_engine : NativeEngine (consumed fun _ => 0) where
  options := { zero_accept_fallback_rounds_pos := default_fallback_rounds_pos }
  tokenizer := { encode := fun _ => [0], decode := fun _ => [] }
  sampler := { Random := Unit, seeded := fun _ => (), draw := fun _ _ _ _ => (0, ()) }
  persistent_backend :=
    { State := Unit
      prepare_persistent_state := id
      import_state := fun _ s => .ok s
      export_state := fun _ => (consumed fun _ => 0).make_state
      export_stream := fun _ => []
      can_decode := fun _ => false
      greedy_decode := fun _ _ s => .ok (⟨0, 0⟩, s) }
  end_of_sequence_token := 0
  chat_end_token := 0
  max_context_tokens := 2 ^ 63 - 1

/-- A request for so many tokens. -/
def request_for (promise max_tokens : Nat) : BoundRequest :=
  ⟨promise, { prompt := [], max_tokens }⟩

end Executor

end Qwen38
