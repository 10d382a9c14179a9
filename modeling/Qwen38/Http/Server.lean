import Mathlib.Data.List.Basic

/-!
# The HTTP server's threads

The accept loop of `run()`, the workers and any number of calls of `stop()`, as one step
relation. A step is one atomic operation, one section under `queue_mutex_` or one system
call; what a thread does between two of them with its own variables belongs to the step
before. Which thread steps next, what `accept` returns, whether the socket can be set up
and whether a thread can be started is the scheduler's choice and the environment's.

A descriptor here is the open file, not its number: two descriptors are never the same, so
that closing one twice shows, where the number might belong to another client by then.
What has been accepted, closed, handed to a worker and shut down from the queue is kept
beside the state.

A worker that waits is woken when it can go on, whoever notifies it.
-/

namespace Qwen38

/-- The limits of the configuration. -/
structure ServerConfig where
  max_header_bytes : Nat := 64 * 1024
  max_body_bytes : Nat := 4 * 1024 * 1024
  worker_threads : Nat := 4
  max_pending_connections : Nat := 128

namespace HttpServer

/-- An open socket. -/
abbrev Descriptor := Nat

/-- Why `accept` failed. -/
inductive Errno
  | eintr
  | ebadf
  | einval
  | other (code : Nat)
deriving DecidableEq

/-- Where a call of `stop()` stands. -/
inductive Stop
  /-- Before `stopping_.store(true)`. -/
  | storing
  /-- Before `listen_fd_.exchange(-1)`. -/
  | exchanging
  /-- Before `shutdown` of what the exchange returned. -/
  | shutting (fd : Descriptor)
  /-- Before `close` of it. -/
  | closing (fd : Descriptor)
  | returned
deriving DecidableEq

/-- Where a thread of `worker_loop` stands. -/
inductive Worker
  /-- Before the section that takes a client from the queue. -/
  | waiting
  /-- In `handle_client`, with the client in a `FileDescriptor`. -/
  | serving (client : Descriptor)
  | returned
deriving DecidableEq

/-- Where `run()` stands. From `configuring` on, `socket_fd` holds the listening socket, up to
the steps that release or reset it. -/
inductive Run
  /-- Not called. -/
  | idle
  /-- Before `setsockopt`, `bind` and `listen`. -/
  | configuring (fd : Descriptor)
  /-- Before `stopping_.store(false)`. -/
  | resetting (fd : Descriptor)
  /-- Before `listen_fd_.store` of the socket. -/
  | publishing (fd : Descriptor)
  /-- In `start_workers`, before `reserve`. -/
  | reserving (fd : Descriptor)
  /-- In `start_workers`, before starting a thread. -/
  | starting (fd : Descriptor) (index : Nat)
  /-- In the handler of `start_workers`, before it calls `stop()`. -/
  | unwinding (fd : Descriptor)
  /-- In the handler of `start_workers`, in the call of `stop()` with this number. -/
  | unwinding_stop (fd : Descriptor) (call : Nat)
  /-- In the handler of `start_workers`, before `stop_workers()`. -/
  | unwinding_workers (fd : Descriptor)
  /-- In the handler of `start_workers`, before `join_workers()`. -/
  | unwinding_join (fd : Descriptor)
  /-- In the handler of `run()`, before `listen_fd_.store(-1)` and the release. -/
  | unwinding_store (fd : Descriptor)
  /-- Before the condition of the loop. -/
  | checking (fd : Descriptor)
  | accepting (fd : Descriptor)
  /-- `accept` failed. -/
  | failed (fd : Descriptor) (error : Errno)
  /-- Before the section that puts a client into the queue. -/
  | queueing (fd : Descriptor) (client : Descriptor)
  /-- The queue is full: writing the response, with the client in a `FileDescriptor`. -/
  | refusing (fd : Descriptor) (client : Descriptor)
  /-- `accept` failed for good, before `stopping_.store(true)`. -/
  | failing_flag (fd : Descriptor)
  /-- `accept` failed for good, before `listen_fd_.store(-1)`. -/
  | failing_store (fd : Descriptor)
  /-- `accept` failed for good, before `socket_fd.reset()`. -/
  | failing_reset (fd : Descriptor)
  /-- The loop is left, before `listen_fd_.store(-1)` and the release. -/
  | leaving_store (fd : Descriptor)
  /-- Before `stop_workers()`. -/
  | draining
  /-- Before `join_workers()`. -/
  | joining
  | returned
deriving DecidableEq

/-- The server and its threads. -/
structure Server where
  stopping : Bool
  listen_fd : Option Descriptor
  pending_clients : List Descriptor
  workers : List Worker
  run : Run
  /-- The calls of `stop()` so far. -/
  stops : List Stop
  /-- How many descriptors have been opened. -/
  opened : Nat
  /-- The listening socket, once there is one. -/
  listening : Option Descriptor
  accepted : List Descriptor
  /-- The calls of `close`, the last one first. -/
  closed : List Descriptor
  /-- The clients that workers took. -/
  served : List Descriptor
  /-- The clients that `stop_workers` shut down. -/
  dropped : List Descriptor

/-- The server before anything is called. -/
def Server.start : Server where
  stopping := false
  listen_fd := none
  pending_clients := []
  workers := []
  run := .idle
  stops := []
  opened := 0
  listening := none
  accepted := []
  closed := []
  served := []
  dropped := []

/-- `close`. -/
def Server.close (s : Server) (fd : Descriptor) : Server := { s with closed := fd :: s.closed }

/-- `stop_workers()`: every client of the queue is shut down and closed. -/
def Server.stop_workers (s : Server) : Server :=
  { s with
    pending_clients := []
    closed := s.pending_clients.reverse ++ s.closed
    dropped := s.pending_clients.reverse ++ s.dropped }

/-- Have all threads returned? -/
def Server.joinable (s : Server) : Bool := s.workers.all (· = .returned)

/-- One step of `stop()`. -/
def stop (s : Server) : Stop → Option (Stop × Server)
  | .storing => some (.exchanging, { s with stopping := true })
  | .exchanging =>
    match s.listen_fd with
    | some fd => some (.shutting fd, { s with listen_fd := none })
    | none => some (.returned, s)
  | .shutting fd => some (.closing fd, s)
  | .closing fd => some (.returned, s.close fd)
  | .returned => none

/-- One step of `worker_loop()`; `none` while there is nothing to do. -/
def worker_loop (s : Server) : Worker → Option (Worker × Server)
  | .waiting =>
    match s.pending_clients with
    | client :: pending =>
      some (.serving client, { s with pending_clients := pending, served := client :: s.served })
    | [] => if s.stopping then some (.returned, s) else none
  | .serving client => some (.waiting, s.close client)
  | .returned => none

/-- What the environment decides about a step of `run()`. -/
inductive Event
  /-- What is called succeeds. -/
  | next
  /-- What is called throws. -/
  | fail
  /-- `accept` returns a client. -/
  | client
  /-- `accept` fails. -/
  | error (error : Errno)

/-- One step of `run()`. -/
def run (config : ServerConfig) (s : Server) : Run → Event → Option (Run × Server)
  | .idle, .next =>
    some (.configuring s.opened,
      { s with opened := s.opened + 1, listening := some s.opened })
  | .idle, .fail => some (.returned, s)
  | .configuring fd, .next => some (.resetting fd, s)
  -- the destructor of `socket_fd`
  | .configuring fd, .fail => some (.returned, s.close fd)
  | .resetting fd, .next => some (.publishing fd, { s with stopping := false })
  | .publishing fd, .next => some (.reserving fd, { s with listen_fd := some fd })
  | .reserving fd, .next => some (.starting fd 0, s)
  -- outside the `try` of `start_workers`
  | .reserving fd, .fail => some (.unwinding_store fd, s)
  | .starting fd index, .next =>
    if index < config.worker_threads then
      some (.starting fd (index + 1), { s with workers := s.workers ++ [.waiting] })
    else some (.checking fd, s)
  | .starting fd index, .fail =>
    if index < config.worker_threads then some (.unwinding fd, s) else none
  | .unwinding fd, .next =>
    some (.unwinding_stop fd s.stops.length, { s with stops := s.stops ++ [.storing] })
  | .unwinding_stop fd call, .next =>
    if s.stops[call]? = some .returned then some (.unwinding_workers fd, s) else none
  | .unwinding_workers fd, .next => some (.unwinding_join fd, s.stop_workers)
  | .unwinding_join fd, .next =>
    if s.joinable then some (.unwinding_store fd, { s with workers := [] }) else none
  | .unwinding_store _, .next => some (.returned, { s with listen_fd := none })
  | .checking fd, .next =>
    if s.stopping then some (.leaving_store fd, s) else some (.accepting fd, s)
  | .accepting fd, .client =>
    some (.queueing fd s.opened,
      { s with opened := s.opened + 1, accepted := s.opened :: s.accepted })
  | .accepting fd, .error error =>
    if error = .eintr then some (.checking fd, s) else some (.failed fd error, s)
  | .failed fd error, .next =>
    if s.stopping ∧ (error = .ebadf ∨ error = .einval) then some (.leaving_store fd, s)
    else some (.failing_flag fd, s)
  | .queueing fd client, .next =>
    if s.pending_clients.length < config.max_pending_connections then
      some (.checking fd, { s with pending_clients := s.pending_clients ++ [client] })
    else some (.refusing fd client, s)
  | .refusing fd client, .next => some (.checking fd, s.close client)
  | .failing_flag fd, .next => some (.failing_store fd, { s with stopping := true })
  | .failing_store fd, .next => some (.failing_reset fd, { s with listen_fd := none })
  | .failing_reset fd, .next => some (.draining, s.close fd)
  | .leaving_store _, .next => some (.draining, { s with listen_fd := none })
  | .draining, .next => some (.joining, s.stop_workers)
  | .joining, .next => if s.joinable then some (.returned, { s with workers := [] }) else none
  | _, _ => none

/-- Who steps. -/
inductive Action
  | run (event : Event)
  /-- Another party calls `stop()`. -/
  | call_stop
  | stop (call : Nat)
  | worker (index : Nat)

/-- **One step of the server.** -/
def step (config : ServerConfig) (s : Server) : Action → Option Server
  | .run event => (run config s s.run event).map fun (next, s) => { s with run := next }
  | .call_stop => some { s with stops := s.stops ++ [.storing] }
  | .stop call => do
    let before ← s.stops[call]?
    let (after, s) ← stop s before
    some { s with stops := s.stops.set call after }
  | .worker index => do
    let before ← s.workers[index]?
    let (after, s) ← worker_loop s before
    some { s with workers := s.workers.set index after }

/-- **An execution**, in any order of steps: the steps taken, the last one first, each with the
state before it, and the state reached. -/
inductive Execution (config : ServerConfig) : List (Server × Action) → Server → Prop
  | start : Execution config [] .start
  | step {trace : List (Server × Action)} {s s' : Server} {action : Action} :
      Execution config trace s → step config s action = some s' →
      Execution config ((s, action) :: trace) s'

end HttpServer

end Qwen38
