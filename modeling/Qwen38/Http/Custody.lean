import Qwen38.Http.Server

/-!
# Who closes a socket

Every client that is accepted is in the queue, with one worker or with the accept loop until
it is closed, once; none is both given to a worker and shut down from the queue. This holds in
every execution (`Qwen38.HttpServer.Sound`).

The listening socket is closed once when `run()` finds `listen_fd_` as its way out needs it.
Leaving the loop, or after `start_workers` threw, it gives the socket up, which is right if a
call of `stop()` has taken it from `listen_fd_`, and else nobody closes it. After `accept`
failed it closes the socket, which is right if no call of `stop()` has taken it, and else both
close it (`Qwen38.HttpServer.Meets`).
-/

namespace Qwen38

namespace HttpServer

/-! ### What a step of `run()` does -/

/-- The part of `run()` a step belongs to, by what it has done with the listening socket. -/
inductive Phase
  /-- There is no socket. -/
  | before
  /-- The socket belongs to `socket_fd` alone. -/
  | owned (fd : Descriptor)
  /-- The socket has been stored into `listen_fd_`. -/
  | shared (fd : Descriptor)
  /-- `listen_fd_` is withdrawn, and `socket_fd` is about to close the socket. -/
  | cut (fd : Descriptor)
  /-- `socket_fd` is empty. -/
  | after

def Run.phase : Run → Phase
  | .idle => .before
  | .configuring fd | .resetting fd | .publishing fd => .owned fd
  | .reserving fd | .starting fd _ | .unwinding fd | .unwinding_stop fd _
  | .unwinding_workers fd | .unwinding_join fd | .unwinding_store fd | .checking fd
  | .accepting fd | .failed fd _ | .queueing fd _ | .refusing fd _ | .failing_flag fd
  | .failing_store fd | .leaving_store fd => .shared fd
  | .failing_reset fd => .cut fd
  | .draining | .joining | .returned => .after

/-- The socket in `socket_fd`. -/
def Phase.socket : Phase → Option Descriptor
  | .owned fd | .shared fd | .cut fd => some fd
  | .before | .after => none

/-- The client `run()` holds. -/
def Run.client : Run → List Descriptor
  | .queueing _ client | .refusing _ client => [client]
  | _ => []

/-- **What `run()` relies on** when it stores `-1` into `listen_fd_`: before it gives the socket
up, that it is stored already; before it closes the socket itself, that it is not. -/
def Meets (s : Server) : Run → Prop
  | .leaving_store _ | .unwinding_store _ => s.listen_fd = none
  | .failing_store fd => s.listen_fd = some fd
  | _ => True

/-- Nothing that is held or closed changes. -/
structure Quiet (s s' : Server) : Prop where
  pending_clients : s'.pending_clients = s.pending_clients
  workers : ∀ c, s'.workers.count (.serving c) = s.workers.count (.serving c)
  stops : ∀ call, call ≠ .storing → s'.stops.count call = s.stops.count call
  opened : s'.opened = s.opened
  listening : s'.listening = s.listening
  accepted : s'.accepted = s.accepted
  closed : s'.closed = s.closed
  served : s'.served = s.served
  dropped : s'.dropped = s.dropped

/-- What a step of `run()` does. -/
inductive Move (s : Server) : Run → Run → Server → Prop
  | quiet {r r' s'} : r'.phase = r.phase → r'.client = r.client → Meets s r →
      s'.listen_fd = s.listen_fd → Quiet s s' → Move s r r' s'
  | opens : Move s .idle (.configuring s.opened)
      { s with opened := s.opened + 1, listening := some s.opened }
  | no_socket : Move s .idle .returned s
  | closes_owned {fd} : Move s (.configuring fd) .returned (s.close fd)
  | publishes {fd} : Move s (.publishing fd) (.reserving fd) { s with listen_fd := some fd }
  | cuts {fd} : Move s (.failing_store fd) (.failing_reset fd) { s with listen_fd := none }
  | resets {fd} : Move s (.failing_reset fd) .draining (s.close fd)
  | leaves {r r' fd} : r = .leaving_store fd ∨ r = .unwinding_store fd → r'.phase = .after →
      r'.client = [] → Move s r r' { s with listen_fd := none }
  | accepts {fd} : Move s (.accepting fd) (.queueing fd s.opened)
      { s with opened := s.opened + 1, accepted := s.opened :: s.accepted }
  | queues {fd client} : Move s (.queueing fd client) (.checking fd)
      { s with pending_clients := s.pending_clients ++ [client] }
  | refuses {fd client} : Move s (.refusing fd client) (.checking fd) (s.close client)
  | drains {r r'} : r'.phase = r.phase → r.client = [] → r'.client = [] → Meets s r →
      Move s r r' s.stop_workers

section Steps

variable {config : ServerConfig} {s s' : Server}

theorem Quiet.refl (s : Server) : Quiet s s :=
  ⟨rfl, fun _ => rfl, fun _ _ => rfl, rfl, rfl, rfl, rfl, rfl, rfl⟩

/-- A thread that has returned holds no client. -/
theorem quiet_join (h : s.joinable = true) : Quiet s { s with workers := [] } := by
  refine { Quiet.refl s with workers := fun c => ?_ }
  refine (List.count_eq_zero.mpr fun hmem => ?_).symm
  have hreturned := List.all_eq_true.mp h _ hmem
  exact absurd hreturned (by simp)

theorem quiet_start_worker (s : Server) :
    Quiet s { s with workers := s.workers ++ [.waiting] } := by
  refine { Quiet.refl s with workers := fun c => ?_ }
  simp

theorem quiet_call_stop (s : Server) : Quiet s { s with stops := s.stops ++ [.storing] } := by
  refine { Quiet.refl s with stops := fun call hcall => ?_ }
  simp [Ne.symm hcall]

theorem some_pair_inj {r r' : Run} (h : some (r, s) = some (r', s')) : r = r' ∧ s = s' :=
  Prod.mk.inj (Option.some.inj h)

/-- A step that moves on and changes nothing else. -/
theorem Move.stay {r r' : Run} (hphase : r'.phase = r.phase) (hclient : r'.client = r.client)
    (hmeets : Meets s r) : Move s r r' s :=
  .quiet hphase hclient hmeets rfl (.refl s)

/-- **What a step of `run()` can do.** -/
theorem run_move {r r' : Run} {event : Event} (h : run config s r event = some (r', s')) :
    Move s r r' s' := by
  rw [run.eq_def] at h
  split at h
  -- the socket
  · obtain ⟨rfl, rfl⟩ := some_pair_inj h
    exact .opens
  · obtain ⟨rfl, rfl⟩ := some_pair_inj h
    exact .no_socket
  · obtain ⟨rfl, rfl⟩ := some_pair_inj h
    exact .stay rfl rfl trivial
  · obtain ⟨rfl, rfl⟩ := some_pair_inj h
    exact .closes_owned
  · obtain ⟨rfl, rfl⟩ := some_pair_inj h
    exact .quiet rfl rfl trivial rfl { Quiet.refl s with }
  · obtain ⟨rfl, rfl⟩ := some_pair_inj h
    exact .publishes
  · obtain ⟨rfl, rfl⟩ := some_pair_inj h
    exact .stay rfl rfl trivial
  · obtain ⟨rfl, rfl⟩ := some_pair_inj h
    exact .stay rfl rfl trivial
  -- starting a thread
  · split at h
    · obtain ⟨rfl, rfl⟩ := some_pair_inj h
      exact .quiet rfl rfl trivial rfl (quiet_start_worker s)
    · obtain ⟨rfl, rfl⟩ := some_pair_inj h
      exact .stay rfl rfl trivial
  · obtain ⟨-, hsome⟩ := Option.ite_none_right_eq_some.mp h
    obtain ⟨rfl, rfl⟩ := some_pair_inj hsome
    exact .stay rfl rfl trivial
  -- the handler of `start_workers`
  · obtain ⟨rfl, rfl⟩ := some_pair_inj h
    exact .quiet rfl rfl trivial rfl (quiet_call_stop s)
  · obtain ⟨-, hsome⟩ := Option.ite_none_right_eq_some.mp h
    obtain ⟨rfl, rfl⟩ := some_pair_inj hsome
    exact .stay rfl rfl trivial
  · obtain ⟨rfl, rfl⟩ := some_pair_inj h
    exact .drains rfl rfl rfl trivial
  · obtain ⟨hjoin, hsome⟩ := Option.ite_none_right_eq_some.mp h
    obtain ⟨rfl, rfl⟩ := some_pair_inj hsome
    exact .quiet rfl rfl trivial rfl (quiet_join hjoin)
  · obtain ⟨rfl, rfl⟩ := some_pair_inj h
    exact .leaves (Or.inr rfl) rfl rfl
  -- the loop
  · split at h
    · obtain ⟨rfl, rfl⟩ := some_pair_inj h
      exact .stay rfl rfl trivial
    · obtain ⟨rfl, rfl⟩ := some_pair_inj h
      exact .stay rfl rfl trivial
  · obtain ⟨rfl, rfl⟩ := some_pair_inj h
    exact .accepts
  · split at h
    · obtain ⟨rfl, rfl⟩ := some_pair_inj h
      exact .stay rfl rfl trivial
    · obtain ⟨rfl, rfl⟩ := some_pair_inj h
      exact .stay rfl rfl trivial
  · split at h
    · obtain ⟨rfl, rfl⟩ := some_pair_inj h
      exact .stay rfl rfl trivial
    · obtain ⟨rfl, rfl⟩ := some_pair_inj h
      exact .stay rfl rfl trivial
  · split at h
    · obtain ⟨rfl, rfl⟩ := some_pair_inj h
      exact .queues
    · obtain ⟨rfl, rfl⟩ := some_pair_inj h
      exact .stay rfl rfl trivial
  · obtain ⟨rfl, rfl⟩ := some_pair_inj h
    exact .refuses
  -- `accept` failed for good
  · obtain ⟨rfl, rfl⟩ := some_pair_inj h
    exact .quiet rfl rfl trivial rfl { Quiet.refl s with }
  · obtain ⟨rfl, rfl⟩ := some_pair_inj h
    exact .cuts
  · obtain ⟨rfl, rfl⟩ := some_pair_inj h
    exact .resets
  -- the loop is left
  · obtain ⟨rfl, rfl⟩ := some_pair_inj h
    exact .leaves (Or.inl rfl) rfl rfl
  · obtain ⟨rfl, rfl⟩ := some_pair_inj h
    exact .drains rfl rfl rfl trivial
  · obtain ⟨hjoin, hsome⟩ := Option.ite_none_right_eq_some.mp h
    obtain ⟨rfl, rfl⟩ := some_pair_inj hsome
    exact .quiet rfl rfl trivial rfl (quiet_join hjoin)
  · exact absurd h nofun

end Steps

/-! ### The clients -/

/-- How many hold a client that is not closed. -/
def Server.held (s : Server) (c : Descriptor) : Nat :=
  s.pending_clients.count c + s.workers.count (.serving c) + s.run.client.count c

/-- What has become of a client: it is with the accept loop, in the queue, or was given to a
worker, or shut down from the queue. -/
def Server.route (s : Server) (c : Descriptor) : Nat :=
  s.run.client.count c + s.pending_clients.count c + s.served.count c + s.dropped.count c

/-- **The invariant of the clients.** -/
structure Sound (s : Server) : Prop where
  account : ∀ c, some c ≠ s.listening → s.held c + s.closed.count c = s.accepted.count c
  held_le : ∀ c, s.held c ≤ s.accepted.count c
  route_le : ∀ c, s.route c ≤ s.accepted.count c
  opened : ∀ c ∈ s.accepted, c < s.opened
  nodup : s.accepted.Nodup
  listening : ∀ fd, s.listening = some fd → fd < s.opened ∧ fd ∉ s.accepted
  idle : s.run = .idle → s.listening = none
  socket : ∀ fd, s.run.phase.socket = some fd → s.listening = some fd
  published : ∀ fd, s.listen_fd = some fd → s.listening = some fd
  stopping : ∀ fd, .shutting fd ∈ s.stops ∨ .closing fd ∈ s.stops → s.listening = some fd

theorem sound_start : Sound .start where
  account := fun _ _ => rfl
  held_le := fun _ => Nat.le_refl 0
  route_le := fun _ => Nat.le_refl 0
  opened := nofun
  nodup := List.nodup_nil
  listening := nofun
  idle := fun _ => rfl
  socket := nofun
  published := nofun
  stopping := fun _ h => h.elim nofun nofun

theorem idle_of_phase {r : Run} (h : r.phase = .before) : r = .idle := by
  cases r <;> first | rfl | exact absurd h nofun

/-- One element of a list is replaced. -/
theorem count_set_add {α : Type} [DecidableEq α] {l : List α} {i : Nat} {a : α}
    (h : l[i]? = some a) (b c : α) :
    (l.set i b).count c + [a].count c = l.count c + [b].count c := by
  induction l generalizing i with
  | nil => exact absurd h (by simp)
  | cons x l ih =>
    cases i with
    | zero =>
      obtain rfl := Option.some.inj h
      simp only [List.set_cons_zero, List.count_cons, List.count_nil]
      omega
    | succ i =>
      have hset := ih h
      simp only [List.set_cons_succ, List.count_cons, List.count_nil] at hset ⊢
      omega

theorem count_serving (client c : Descriptor) :
    [Worker.serving client].count (.serving c) = [client].count c := by
  simp [List.count_cons]

theorem count_not_serving {w : Worker} (h : ∀ client, w ≠ .serving client) (c : Descriptor) :
    [w].count (.serving c) = 0 :=
  List.count_eq_zero.mpr fun hmem => h c (List.mem_singleton.mp hmem).symm

theorem count_cons_add (c fd : Descriptor) (l : List Descriptor) :
    (fd :: l).count c = [fd].count c + l.count c := by
  rw [← List.singleton_append, List.count_append]

namespace Sound

variable {s s' : Server}

/-- The listening socket is no client. -/
theorem count_listening (h : Sound s) {fd : Descriptor} (hfd : s.listening = some fd) :
    s.accepted.count fd = 0 := List.count_eq_zero.mpr (h.listening fd hfd).2

/-- A client that is held has been accepted, once. -/
theorem count_held (h : Sound s) {c : Descriptor} (hc : 0 < s.held c) :
    s.accepted.count c = 1 ∧ some c ≠ s.listening := by
  have hpos := Nat.lt_of_lt_of_le hc (h.held_le c)
  refine ⟨Nat.le_antisymm (List.nodup_iff_count.mp h.nodup c) hpos, fun hlistening => ?_⟩
  rw [h.count_listening hlistening.symm] at hpos
  exact absurd hpos (Nat.lt_irrefl 0)

/-- A descriptor that is yet to be opened is nowhere. -/
theorem count_opened (h : Sound s) : s.accepted.count s.opened = 0 :=
  List.count_eq_zero.mpr fun hmem => Nat.lt_irrefl _ (h.opened _ hmem)

/-- **No step but `accept` and the call of `run()` adds to the accounts.** -/
theorem of_ledger (h : Sound s)
    (haccount : ∀ c, some c ≠ s.listening →
      s'.held c + s'.closed.count c = s.held c + s.closed.count c)
    (hheld : ∀ c, s'.held c ≤ s.held c) (hroute : ∀ c, s'.route c ≤ s.route c)
    (haccepted : s'.accepted = s.accepted) (hopened : s'.opened = s.opened)
    (hlistening : s'.listening = s.listening) (hidle : s'.run = .idle → s.run = .idle)
    (hsocket : ∀ fd, s'.run.phase.socket = some fd → s.listening = some fd)
    (hpublished : ∀ fd, s'.listen_fd = some fd → s.listening = some fd)
    (hstops : ∀ fd, .shutting fd ∈ s'.stops ∨ .closing fd ∈ s'.stops → s.listening = some fd) :
    Sound s' where
  account := by
    intro c hc
    rw [hlistening] at hc
    rw [haccount c hc, haccepted]
    exact h.account c hc
  held_le := by
    intro c
    rw [haccepted]
    exact Nat.le_trans (hheld c) (h.held_le c)
  route_le := by
    intro c
    rw [haccepted]
    exact Nat.le_trans (hroute c) (h.route_le c)
  opened := by
    rw [haccepted, hopened]
    exact h.opened
  nodup := by
    rw [haccepted]
    exact h.nodup
  listening := by
    rw [hlistening, haccepted, hopened]
    exact h.listening
  idle := by
    rw [hlistening]
    exact fun hrun => h.idle (hidle hrun)
  socket := by
    rw [hlistening]
    exact hsocket
  published := by
    rw [hlistening]
    exact hpublished
  stopping := by
    rw [hlistening]
    exact hstops

/-- A step that moves no client. -/
theorem of_same (h : Sound s) (hpending : s'.pending_clients = s.pending_clients)
    (hworkers : ∀ c, s'.workers.count (.serving c) = s.workers.count (.serving c))
    (hclient : s'.run.client = s.run.client) (hserved : s'.served = s.served)
    (hdropped : s'.dropped = s.dropped)
    (hclosed : ∀ c, some c ≠ s.listening → s'.closed.count c = s.closed.count c)
    (haccepted : s'.accepted = s.accepted) (hopened : s'.opened = s.opened)
    (hlistening : s'.listening = s.listening) (hidle : s'.run = .idle → s.run = .idle)
    (hsocket : ∀ fd, s'.run.phase.socket = some fd → s.listening = some fd)
    (hpublished : ∀ fd, s'.listen_fd = some fd → s.listening = some fd)
    (hstops : ∀ fd, .shutting fd ∈ s'.stops ∨ .closing fd ∈ s'.stops → s.listening = some fd) :
    Sound s' := by
  have hheld : ∀ c, s'.held c = s.held c := by
    intro c
    rw [Server.held, Server.held, hpending, hworkers, hclient]
  have hroute : ∀ c, s'.route c = s.route c := by
    intro c
    rw [Server.route, Server.route, hpending, hclient, hserved, hdropped]
  refine h.of_ledger (fun c hc => ?_) (fun c => Nat.le_of_eq (hheld c))
    (fun c => Nat.le_of_eq (hroute c)) haccepted hopened hlistening hidle hsocket hpublished hstops
  rw [hheld, hclosed c hc]

theorem mem_of_count {stops stops' : List Stop}
    (h : ∀ call, call ≠ .storing → stops'.count call = stops.count call) {call : Stop}
    (hcall : call ≠ .storing) (hmem : call ∈ stops') : call ∈ stops := by
  rw [← List.count_pos_iff] at hmem ⊢
  rwa [← h call hcall]

/-- A step of `run()` keeps the invariant. -/
theorem move (h : Sound s) {r r' : Run} (hmove : Move s r r' s') (hr : s.run = r) :
    Sound { s' with run := r' } := by
  have hsocket := h.socket
  rw [hr] at hsocket
  -- the socket that `run()` closes is not a client
  have hclose : ∀ fd, r.phase.socket = some fd → ∀ c, some c ≠ s.listening →
      (fd :: s.closed).count c = s.closed.count c := by
    intro fd hfd c hc
    exact List.count_cons_of_ne fun heq => hc (by rw [hsocket fd hfd, heq])
  cases hmove with
  | @quiet _ _ s' hphase hclient _ hlisten hquiet =>
    refine h.of_same hquiet.pending_clients hquiet.workers (hclient.trans (by rw [hr]))
      hquiet.served hquiet.dropped (fun c _ => by rw [← hquiet.closed]) hquiet.accepted
      hquiet.opened hquiet.listening (fun hidle => ?_) (fun fd hfd => hsocket fd ?_)
      (fun fd hfd => h.published fd ?_) (fun fd hfd => h.stopping fd ?_)
    · have hbefore : r'.phase = .before := by rw [show r' = .idle from hidle]; rfl
      rw [hr]
      exact idle_of_phase (hphase ▸ hbefore)
    · rw [← hphase]
      exact hfd
    · rw [← hlisten]
      exact hfd
    · exact hfd.imp (mem_of_count hquiet.stops nofun) (mem_of_count hquiet.stops nofun)
  | opens =>
    have hnone := h.idle hr
    have hheld : ∀ c, Server.held { s with
        opened := s.opened + 1, listening := some s.opened, run := .configuring s.opened } c =
        s.held c := by
      intro c
      rw [Server.held, Server.held, hr]
      rfl
    have hroute : ∀ c, Server.route { s with
        opened := s.opened + 1, listening := some s.opened, run := .configuring s.opened } c =
        s.route c := by
      intro c
      rw [Server.route, Server.route, hr]
      rfl
    exact {
      account := fun c _ => (congrArg (· + _) (hheld c)).trans (h.account c (by simp [hnone]))
      held_le := fun c => (hheld c).symm ▸ h.held_le c
      route_le := fun c => (hroute c).symm ▸ h.route_le c
      opened := fun c hc => Nat.lt_succ_of_lt (h.opened c hc)
      nodup := h.nodup
      listening := fun fd hfd => by
        obtain rfl := Option.some.inj hfd
        exact ⟨Nat.lt_succ_self _, fun hmem => Nat.lt_irrefl _ (h.opened _ hmem)⟩
      idle := nofun
      socket := fun fd hfd => hfd
      published := fun fd hfd => absurd (h.published fd hfd) (by simp [hnone])
      stopping := fun fd hfd => absurd (h.stopping fd hfd) (by simp [hnone]) }
  | no_socket =>
    exact h.of_same rfl (fun _ => rfl) (by rw [hr]; rfl) rfl rfl (fun _ _ => rfl) rfl rfl rfl nofun
      nofun h.published h.stopping
  | @closes_owned fd =>
    exact h.of_same rfl (fun _ => rfl) (by rw [hr]; rfl) rfl rfl (hclose fd rfl) rfl rfl rfl nofun
      nofun h.published h.stopping
  | @publishes fd =>
    refine h.of_same rfl (fun _ => rfl) (by rw [hr]; rfl) rfl rfl (fun _ _ => rfl) rfl rfl rfl nofun
      hsocket (fun fd' hfd' => ?_) h.stopping
    obtain rfl := Option.some.inj hfd'
    exact hsocket fd rfl
  | @cuts fd =>
    exact h.of_same rfl (fun _ => rfl) (by rw [hr]; rfl) rfl rfl (fun _ _ => rfl) rfl rfl rfl nofun
      hsocket nofun h.stopping
  | @resets fd =>
    exact h.of_same rfl (fun _ => rfl) (by rw [hr]; rfl) rfl rfl (hclose fd rfl) rfl rfl rfl nofun
      nofun h.published h.stopping
  | leaves hstore hafter hclient' =>
    have hclient : s.run.client = [] := by
      rw [hr]
      rcases hstore with rfl | rfl
      · rfl
      · rfl
    refine h.of_same rfl (fun _ => rfl) (hclient'.trans hclient.symm) rfl rfl (fun _ _ => rfl) rfl
      rfl rfl (fun hidle => ?_) (fun fd hfd => ?_) nofun h.stopping
    · rw [show r' = .idle from hidle] at hafter
      exact absurd hafter nofun
    · have hnone : r'.phase.socket = none := by rw [hafter]; rfl
      exact absurd (hnone.symm.trans hfd) nofun
  | @accepts fd =>
    have hheld : ∀ c, Server.held { s with
        opened := s.opened + 1, accepted := s.opened :: s.accepted, run := .queueing fd s.opened } c =
        s.held c + [s.opened].count c := by
      intro c
      simp [Server.held, hr, Run.client]
    have hroute : ∀ c, Server.route { s with
        opened := s.opened + 1, accepted := s.opened :: s.accepted, run := .queueing fd s.opened } c =
        s.route c + [s.opened].count c := by
      intro c
      simp only [Server.route, hr, Run.client, List.count_nil]
      omega
    have hcount : ∀ c, (s.opened :: s.accepted).count c =
        s.accepted.count c + [s.opened].count c := by
      intro c
      rw [← List.singleton_append, List.count_append, Nat.add_comm]
    exact {
      account := fun c hc => by
        have haccount := h.account c hc
        rw [hheld, hcount]
        dsimp only
        omega
      held_le := fun c => by
        rw [hheld, hcount]
        exact Nat.add_le_add_right (h.held_le c) _
      route_le := fun c => by
        rw [hroute, hcount]
        exact Nat.add_le_add_right (h.route_le c) _
      opened := fun c hc => by
        rcases List.mem_cons.mp hc with rfl | hc
        · exact Nat.lt_succ_self _
        · exact Nat.lt_succ_of_lt (h.opened c hc)
      nodup := List.nodup_cons.mpr ⟨fun hmem => Nat.lt_irrefl _ (h.opened _ hmem), h.nodup⟩
      listening := fun fd' hfd' => by
        obtain ⟨hlt, hmem⟩ := h.listening fd' hfd'
        refine ⟨Nat.lt_succ_of_lt hlt, fun hcons => ?_⟩
        rcases List.mem_cons.mp hcons with rfl | hcons
        · exact Nat.lt_irrefl _ hlt
        · exact hmem hcons
      idle := nofun
      socket := hsocket
      published := h.published
      stopping := h.stopping }
  | @queues fd client =>
    have hheld : ∀ c, Server.held { s with
        pending_clients := s.pending_clients ++ [client], run := .checking fd } c = s.held c := by
      intro c
      simp only [Server.held, hr, Run.client, List.count_append, List.count_nil]
      omega
    have hroute : ∀ c, Server.route { s with
        pending_clients := s.pending_clients ++ [client], run := .checking fd } c = s.route c := by
      intro c
      simp only [Server.route, hr, Run.client, List.count_append, List.count_nil]
      omega
    exact h.of_ledger (fun c _ => congrArg (· + _) (hheld c)) (fun c => Nat.le_of_eq (hheld c))
      (fun c => Nat.le_of_eq (hroute c)) rfl rfl rfl nofun hsocket h.published h.stopping
  | @refuses fd client =>
    have hheld : ∀ c, Server.held { s.close client with run := .checking fd } c +
        [client].count c = s.held c := by
      intro c
      simp [Server.held, hr, Run.client, Server.close]
    refine h.of_ledger (fun c _ => ?_) (fun c => ?_) (fun c => ?_) rfl rfl rfl nofun hsocket
      h.published h.stopping
    · have hcount : (client :: s.closed).count c = [client].count c + s.closed.count c := by
        rw [← List.singleton_append, List.count_append]
      rw [← hheld c, Nat.add_assoc, ← hcount]
      rfl
    · rw [← hheld c]
      exact Nat.le_add_right _ _
    · simp [Server.route, hr, Run.client, Server.close]
  | drains hphase hclient hclient' =>
    rw [← hr] at hclient
    have hheld : ∀ c, Server.held { s.stop_workers with run := r' } c +
        s.pending_clients.count c = s.held c := by
      intro c
      simp only [Server.held, hclient, hclient', Server.stop_workers, List.count_nil]
      omega
    refine h.of_ledger (fun c _ => ?_) (fun c => ?_) (fun c => ?_) rfl rfl rfl (fun hidle => ?_)
      (fun fd hfd => hsocket fd (hphase ▸ hfd)) h.published h.stopping
    · rw [← hheld c]
      simp only [Server.stop_workers, List.count_append, List.count_reverse]
      omega
    · rw [← hheld c]
      exact Nat.le_add_right _ _
    · simp only [Server.route, hclient, hclient', Server.stop_workers, List.count_append,
        List.count_reverse, List.count_nil]
      omega
    · have hbefore : r'.phase = .before := by rw [show r' = .idle from hidle]; rfl
      rw [hr]
      exact idle_of_phase (hphase ▸ hbefore)

theorem call_stop (h : Sound s) : Sound { s with stops := s.stops ++ [.storing] } := by
  have hmem : ∀ call : Stop, call ≠ .storing → call ∈ s.stops ++ [.storing] → call ∈ s.stops :=
    fun call hne hmem => (List.mem_append.mp hmem).elim id fun hlast =>
      absurd (List.mem_singleton.mp hlast) hne
  exact h.of_same rfl (fun _ => rfl) rfl rfl rfl (fun _ _ => rfl) rfl rfl rfl id h.socket h.published
    fun fd hfd => h.stopping fd (hfd.imp (hmem _ nofun) (hmem _ nofun))

/-- A step of `stop()` keeps the invariant. -/
theorem stop (h : Sound s) {call : Nat} {before after : Stop} (hcall : s.stops[call]? = some before)
    (hstep : HttpServer.stop s before = some (after, s')) :
    Sound { s' with stops := s'.stops.set call after } := by
  have hbefore : before ∈ s.stops := List.mem_of_getElem? hcall
  -- the other calls stand where they stood
  have hstops : ∀ next : Stop, (∀ fd, next = .shutting fd ∨ next = .closing fd →
      s.listening = some fd) → ∀ fd, .shutting fd ∈ s.stops.set call next ∨
        .closing fd ∈ s.stops.set call next → s.listening = some fd := by
    intro next hnext fd hfd
    rcases hfd with hfd | hfd
    · rcases List.mem_or_eq_of_mem_set hfd with hmem | heq
      · exact h.stopping fd (Or.inl hmem)
      · exact hnext fd (Or.inl heq.symm)
    · rcases List.mem_or_eq_of_mem_set hfd with hmem | heq
      · exact h.stopping fd (Or.inr hmem)
      · exact hnext fd (Or.inr heq.symm)
  cases before with
  | storing =>
    obtain ⟨rfl, rfl⟩ := Prod.mk.inj (Option.some.inj hstep)
    exact h.of_same rfl (fun _ => rfl) rfl rfl rfl (fun _ _ => rfl) rfl rfl rfl id h.socket
      h.published (hstops _ fun _ hfd => hfd.elim nofun nofun)
  | exchanging =>
    rw [HttpServer.stop] at hstep
    split at hstep
    · rename_i fd hlisten
      obtain ⟨rfl, rfl⟩ := Prod.mk.inj (Option.some.inj hstep)
      refine h.of_same rfl (fun _ => rfl) rfl rfl rfl (fun _ _ => rfl) rfl rfl rfl id h.socket nofun
        (hstops _ fun fd' hfd' => ?_)
      rcases hfd' with hfd' | hfd'
      · obtain rfl := Stop.shutting.inj hfd'
        exact h.published fd hlisten
      · exact absurd hfd' nofun
    · obtain ⟨rfl, rfl⟩ := Prod.mk.inj (Option.some.inj hstep)
      exact h.of_same rfl (fun _ => rfl) rfl rfl rfl (fun _ _ => rfl) rfl rfl rfl id h.socket
        h.published (hstops _ fun _ hfd => hfd.elim nofun nofun)
  | shutting fd =>
    obtain ⟨rfl, rfl⟩ := Prod.mk.inj (Option.some.inj hstep)
    refine h.of_same rfl (fun _ => rfl) rfl rfl rfl (fun _ _ => rfl) rfl rfl rfl id h.socket
      h.published (hstops _ fun fd' hfd' => ?_)
    rcases hfd' with hfd' | hfd'
    · exact absurd hfd' nofun
    · obtain rfl := Stop.closing.inj hfd'
      exact h.stopping fd (Or.inl hbefore)
  | closing fd =>
    obtain ⟨rfl, rfl⟩ := Prod.mk.inj (Option.some.inj hstep)
    have hfd := h.stopping fd (Or.inr hbefore)
    exact h.of_same rfl (fun _ => rfl) rfl rfl rfl
      (fun c hc => List.count_cons_of_ne fun heq => hc (by rw [hfd, heq])) rfl rfl rfl id h.socket
      h.published (hstops _ fun _ hfd => hfd.elim nofun nofun)
  | returned => exact absurd hstep nofun

/-- A step of `worker_loop()` keeps the invariant. -/
theorem worker (h : Sound s) {index : Nat} {before after : Worker}
    (hindex : s.workers[index]? = some before)
    (hstep : worker_loop s before = some (after, s')) :
    Sound { s' with workers := s'.workers.set index after } := by
  cases before with
  | waiting =>
    rw [worker_loop] at hstep
    have hwaiting := fun c => count_not_serving (w := .waiting) nofun c
    split at hstep
    · rename_i client pending hpending
      obtain ⟨rfl, rfl⟩ := Prod.mk.inj (Option.some.inj hstep)
      -- the client goes from the queue to the worker
      have hheld : ∀ c, Server.held { s with
          pending_clients := pending, served := client :: s.served,
          workers := s.workers.set index (.serving client) } c = s.held c := by
        intro c
        have hcount := count_set_add hindex (.serving client) (.serving c)
        rw [hwaiting, count_serving] at hcount
        rw [Server.held, Server.held, hpending, count_cons_add]
        dsimp only
        omega
      have hroute : ∀ c, Server.route { s with
          pending_clients := pending, served := client :: s.served,
          workers := s.workers.set index (.serving client) } c = s.route c := by
        intro c
        rw [Server.route, Server.route, hpending, count_cons_add, count_cons_add c client pending]
        dsimp only
        omega
      exact h.of_ledger (fun c _ => congrArg (· + _) (hheld c)) (fun c => Nat.le_of_eq (hheld c))
        (fun c => Nat.le_of_eq (hroute c)) rfl rfl rfl id h.socket h.published h.stopping
    -- nothing waits and the server stops: the worker returns with no client
    · obtain ⟨-, hsome⟩ := Option.ite_none_right_eq_some.mp hstep
      obtain ⟨rfl, rfl⟩ := Prod.mk.inj (Option.some.inj hsome)
      refine h.of_same rfl (fun c => ?_) rfl rfl rfl (fun _ _ => rfl) rfl rfl rfl id h.socket
        h.published h.stopping
      have hcount := count_set_add hindex .returned (.serving c)
      rw [hwaiting, count_not_serving (w := .returned) nofun] at hcount
      exact hcount
  | serving client =>
    obtain ⟨rfl, rfl⟩ := Prod.mk.inj (Option.some.inj hstep)
    -- the worker has one client less, and that one is closed
    have hheld : ∀ c, Server.held { s.close client with
        workers := s.workers.set index .waiting } c + [client].count c = s.held c := by
      intro c
      have hcount := count_set_add hindex .waiting (.serving c)
      rw [count_serving, count_not_serving (w := .waiting) nofun] at hcount
      rw [Server.held, Server.held]
      dsimp only [Server.close]
      omega
    refine h.of_ledger (fun c _ => ?_) (fun c => ?_) (fun c => Nat.le_refl _) rfl rfl rfl id
      h.socket h.published h.stopping
    · rw [← hheld c, Nat.add_assoc, ← count_cons_add]
      rfl
    · rw [← hheld c]
      exact Nat.le_add_right _ _
  | returned => exact absurd hstep nofun

/-- **Every step keeps the invariant of the clients.** -/
theorem step (h : Sound s) {config : ServerConfig} {action : Action}
    (hstep : HttpServer.step config s action = some s') : Sound s' := by
  cases action with
  | run event =>
    obtain ⟨⟨r', s'⟩, hrun, rfl⟩ := Option.map_eq_some_iff.mp hstep
    exact h.move (run_move hrun) rfl
  | call_stop =>
    obtain rfl := Option.some.inj hstep
    exact h.call_stop
  | stop call =>
    obtain ⟨before, hcall, hbind⟩ := Option.bind_eq_some_iff.mp hstep
    obtain ⟨⟨after, s'⟩, hstop, hsome⟩ := Option.bind_eq_some_iff.mp hbind
    obtain rfl := Option.some.inj hsome
    exact h.stop hcall hstop
  | worker index =>
    obtain ⟨before, hindex, hbind⟩ := Option.bind_eq_some_iff.mp hstep
    obtain ⟨⟨after, s'⟩, hworker, hsome⟩ := Option.bind_eq_some_iff.mp hbind
    obtain rfl := Option.some.inj hsome
    exact h.worker hindex hworker

theorem of_execution {config : ServerConfig} {trace : List (Server × Action)}
    (h : Execution config trace s) : Sound s := by
  induction h with
  | start => exact sound_start
  | step _ hstep ih => exact ih.step hstep

end Sound

end HttpServer

end Qwen38
