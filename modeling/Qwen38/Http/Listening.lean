import Qwen38.Http.Custody

/-!
# The listening socket

Between `listen_fd_.store` of the socket and the way out of `run()`, one is to close the
socket: a call of `stop()` that has taken it, or the next that takes it from `listen_fd_`. The
way out settles who, and is right exactly when `Qwen38.HttpServer.Meets` holds before it.
-/

namespace Qwen38

namespace HttpServer

/-- How often a socket is closed, counting the calls of `stop()` that are about to. -/
def Server.taken (s : Server) (fd : Descriptor) : Nat :=
  s.closed.count fd + s.stops.count (.shutting fd) + s.stops.count (.closing fd)

/-- How often a socket is closed once `listen_fd_` has been taken. -/
def Server.claims (s : Server) (fd : Descriptor) : Nat :=
  s.taken fd + if s.listen_fd = some fd then 1 else 0

/-- **The account of the listening socket**, where `good` says whether `run()` has found what it
relies on so far. -/
def Accounted (good : Prop) (s : Server) : Phase → Prop
  | .before => good
  | .owned fd => s.taken fd = 0 ∧ s.listen_fd = none ∧ good
  | .shared fd => s.claims fd = 1 ∧ good
  | .cut fd => s.taken fd ≤ 1 ∧ s.listen_fd = none ∧ (s.taken fd = 0 ↔ good)
  | .after => s.listen_fd = none ∧ (s.listening = none → good) ∧
      ∀ fd, s.listening = some fd → (s.taken fd = 1 ↔ good)

section Account

variable {good : Prop} {s s' : Server} {phase : Phase}

theorem claims_of_none (h : s.listen_fd = none) (fd : Descriptor) : s.claims fd = s.taken fd := by
  rw [Server.claims, h, if_neg nofun, Nat.add_zero]

/-- The account is kept when the claims are. -/
theorem Accounted.of_claims (h : Accounted good s phase)
    (hsocket : ∀ fd, phase.socket = some fd → s.listening = some fd)
    (hclaims : ∀ fd, s.listening = some fd → s'.claims fd = s.claims fd)
    (hlisten : s.listen_fd = none → s'.listen_fd = none) (hlistening : s'.listening = s.listening) :
    Accounted good s' phase := by
  have htaken : s.listen_fd = none → ∀ fd, s.listening = some fd → s'.taken fd = s.taken fd := by
    intro hnone fd hfd
    rw [← claims_of_none hnone, ← claims_of_none (hlisten hnone), hclaims fd hfd]
  cases phase with
  | before => exact h
  | owned fd =>
    obtain ⟨hzero, hnone, hgood⟩ := h
    exact ⟨by rw [htaken hnone fd (hsocket fd rfl), hzero], hlisten hnone, hgood⟩
  | shared fd =>
    obtain ⟨hone, hgood⟩ := h
    exact ⟨by rw [hclaims fd (hsocket fd rfl), hone], hgood⟩
  | cut fd =>
    obtain ⟨hle, hnone, hgood⟩ := h
    rw [← htaken hnone fd (hsocket fd rfl)] at hle hgood
    exact ⟨hle, hlisten hnone, hgood⟩
  | after =>
    obtain ⟨hnone, hno, hgood⟩ := h
    refine ⟨hlisten hnone, by rwa [hlistening], fun fd hfd => ?_⟩
    rw [hlistening] at hfd
    rw [htaken hnone fd hfd]
    exact hgood fd hfd

/-- Closing what is not the listening socket changes no claim on it. -/
theorem claims_of_closed (hclosed : ∀ fd, s.listening = some fd →
      s'.closed.count fd = s.closed.count fd)
    (hstops : ∀ call, call ≠ .storing → s'.stops.count call = s.stops.count call)
    (hlisten : s'.listen_fd = s.listen_fd) {fd : Descriptor} (hfd : s.listening = some fd) :
    s'.claims fd = s.claims fd := by
  rw [Server.claims, Server.claims, Server.taken, Server.taken, hclosed fd hfd, hlisten,
    hstops (.shutting fd) nofun, hstops (.closing fd) nofun]

/-- The listening socket is not in the hands of `run()` or of a worker as a client. -/
theorem Sound.held_listening (h : Sound s) {fd : Descriptor} (hfd : s.listening = some fd) :
    s.held fd = 0 :=
  Nat.eq_zero_of_le_zero (h.count_listening hfd ▸ h.held_le fd)

/-- **A step of `run()` keeps the account.** -/
theorem Accounted.move {r r' : Run} (h : Accounted good s r.phase) (hs : Sound s)
    (hr : s.run = r) (hmove : Move s r r' s') :
    Accounted (Meets s r ∧ good) { s' with run := r' } r'.phase := by
  have hsocket := hs.socket
  rw [hr] at hsocket
  cases hmove with
  | @quiet _ _ s' hphase hclient hmeets hlisten hquiet =>
    rw [hphase]
    have hgood : (Meets s r ∧ good) = good := propext (and_iff_right hmeets)
    rw [hgood]
    refine h.of_claims hsocket (fun fd hfd => ?_) (fun hnone => ?_) hquiet.listening
    · exact claims_of_closed (fun _ _ => by rw [← hquiet.closed]) hquiet.stops hlisten hfd
    · rw [← hlisten] at hnone
      exact hnone
  | opens =>
    -- a socket that has just been opened is fresh: nobody has closed it or holds it
    have hnone := hs.idle hr
    have hstops : ∀ fd, .shutting fd ∉ s.stops ∧ .closing fd ∉ s.stops := by
      intro fd
      constructor
      · exact fun hmem => by simpa [hnone] using hs.stopping fd (Or.inl hmem)
      · exact fun hmem => by simpa [hnone] using hs.stopping fd (Or.inr hmem)
    have hclosed : s.closed.count s.opened = 0 := by
      have haccount := hs.account s.opened (by simp [hnone])
      rw [hs.count_opened] at haccount
      omega
    refine ⟨?_, ?_, trivial, h⟩
    · change s.taken s.opened = 0
      rw [Server.taken, hclosed, List.count_eq_zero.mpr (hstops _).1,
        List.count_eq_zero.mpr (hstops _).2]
    · cases hlisten : s.listen_fd with
      | none => rfl
      | some fd => simpa [hnone] using hs.published fd hlisten
  | no_socket =>
    have hnone := hs.idle hr
    refine ⟨?_, fun _ => ⟨trivial, h⟩, fun fd hfd => ?_⟩
    · change s.listen_fd = none
      cases hlisten : s.listen_fd with
      | none => rfl
      | some fd => simpa [hnone] using hs.published fd hlisten
    · exact absurd (hnone.symm.trans hfd) nofun
  | @closes_owned fd =>
    obtain ⟨hzero, hnone, hgood⟩ := h
    have hfd := hsocket fd rfl
    refine ⟨hnone, fun hno => absurd (hno.symm.trans hfd) nofun, fun fd' hfd' => ?_⟩
    obtain rfl := Option.some.inj (hfd.symm.trans hfd')
    refine iff_of_true ?_ ⟨trivial, hgood⟩
    -- the one claim is given up, before the socket was published
    rw [Server.taken] at hzero ⊢
    dsimp only [Server.close]
    rw [List.count_cons_self]
    omega
  | @publishes fd =>
    obtain ⟨hzero, hnone, hgood⟩ := h
    refine ⟨?_, trivial, hgood⟩
    rw [Server.claims, if_pos rfl]
    exact congrArg (· + 1) hzero
  | @cuts fd =>
    obtain ⟨hone, hgood⟩ := h
    have hfd := hsocket fd rfl
    rw [Server.claims] at hone
    refine ⟨?_, rfl, ?_⟩
    · change s.taken fd ≤ 1
      omega
    · change s.taken fd = 0 ↔ s.listen_fd = some fd ∧ good
      rw [and_iff_left hgood]
      -- what the exchange leaves behind says who owns the socket now
      constructor
      · intro hzero
        by_contra hne
        rw [if_neg hne] at hone
        omega
      · intro heq
        rw [if_pos heq] at hone
        omega
  | @resets fd =>
    obtain ⟨hle, hnone, hgood⟩ := h
    have hfd := hsocket fd rfl
    refine ⟨hnone, fun hno => absurd (hno.symm.trans hfd) nofun, fun fd' hfd' => ?_⟩
    obtain rfl := Option.some.inj (hfd.symm.trans hfd')
    -- it still had the claim, so the close is the only one
    have htaken : Server.taken { s.close fd with run := .draining } fd = s.taken fd + 1 := by
      rw [Server.taken, Server.taken]
      dsimp only [Server.close]
      rw [List.count_cons_self]
      omega
    rw [htaken, Nat.succ_inj, hgood]
    exact (and_iff_right trivial).symm
  | @leaves _ _ fd hstore hafter hclient' =>
    rw [hafter]
    have hphase : r.phase = .shared fd := by rcases hstore with rfl | rfl <;> rfl
    have hmeets : Meets s r ↔ s.listen_fd = none := by rcases hstore with rfl | rfl <;> exact Iff.rfl
    rw [hphase] at h hsocket
    obtain ⟨hone, hgood⟩ := h
    have hfd := hsocket fd rfl
    rw [Server.claims] at hone
    refine ⟨rfl, fun hno => absurd (hno.symm.trans hfd) nofun, fun fd' hfd' => ?_⟩
    obtain rfl := Option.some.inj (hfd.symm.trans hfd')
    change s.taken fd = 1 ↔ Meets s r ∧ good
    rw [and_iff_left hgood, hmeets]
    -- `run()` leaves by itself exactly if `stop()` has taken the descriptor
    constructor
    · intro htaken
      cases hlisten : s.listen_fd with
      | none => rfl
      | some fd' =>
        obtain rfl := Option.some.inj (hfd.symm.trans (hs.published fd' hlisten))
        rw [if_pos hlisten] at hone
        omega
    · intro hnone
      rw [hnone, if_neg nofun] at hone
      omega
  | @accepts fd =>
    have haccount : Accounted (Meets s (.accepting fd) ∧ good) s (.shared fd) := ⟨h.1, trivial, h.2⟩
    exact haccount.of_claims hsocket (fun _ _ => rfl) id rfl
  | @queues fd client =>
    have haccount : Accounted (Meets s (.queueing fd client) ∧ good) s (.shared fd) :=
      ⟨h.1, trivial, h.2⟩
    exact haccount.of_claims hsocket (fun _ _ => rfl) id rfl
  | @refuses fd client =>
    have haccount : Accounted (Meets s (.refusing fd client) ∧ good) s (.shared fd) :=
      ⟨h.1, trivial, h.2⟩
    refine haccount.of_claims hsocket (fun fd' hfd' => ?_) id rfl
    refine claims_of_closed (fun fd'' hfd'' => ?_) ?_ ?_ hfd'
    rotate_left
    · exact fun _ _ => rfl
    · rfl
    refine List.count_cons_of_ne fun heq => ?_
    -- the refused client is not the listening socket, which no one holds as a client
    have hheld : s.held client = 0 := hs.held_listening (heq ▸ hfd'')
    rw [Server.held, hr] at hheld
    simp [Run.client] at hheld
  | drains hphase hclient hclient' hmeets =>
    rw [hphase]
    have hgood : (Meets s r ∧ good) = good := propext (and_iff_right hmeets)
    rw [hgood]
    refine h.of_claims hsocket (fun fd hfd => ?_) id rfl
    refine claims_of_closed (fun fd' hfd' => ?_) ?_ ?_ hfd
    rotate_left
    · exact fun _ _ => rfl
    · rfl
    have hheld := hs.held_listening hfd'
    rw [Server.held] at hheld
    dsimp only [Server.stop_workers]
    rw [List.count_append, List.count_reverse]
    omega

theorem claims_of_taken {fd : Descriptor} (htaken : s'.taken fd = s.taken fd)
    (hlisten : s'.listen_fd = s.listen_fd) : s'.claims fd = s.claims fd := by
  rw [Server.claims, Server.claims, htaken, hlisten]

/-- **A step of `stop()` keeps the claims.** -/
theorem claims_stop {call : Nat} {before after : Stop} (hcall : s.stops[call]? = some before)
    (hstep : stop s before = some (after, s')) (fd : Descriptor) :
    Server.claims { s' with stops := s'.stops.set call after } fd = s.claims fd ∧
      (s.listen_fd = none → s'.listen_fd = none) ∧ s'.listening = s.listening ∧
      s'.run = s.run := by
  have hshutting := count_set_add hcall after (.shutting fd)
  have hclosing := count_set_add hcall after (.closing fd)
  simp only [List.count_cons, List.count_nil, beq_iff_eq, Nat.zero_add] at hshutting hclosing
  cases before with
  | storing =>
    obtain ⟨rfl, rfl⟩ := Prod.mk.inj (Option.some.inj hstep)
    simp only [reduceCtorEq, if_false, Nat.add_zero] at hshutting hclosing
    refine ⟨claims_of_taken ?_ rfl, id, rfl, rfl⟩
    rw [Server.taken, Server.taken, hshutting, hclosing]
  | exchanging =>
    rw [stop] at hstep
    split at hstep
    -- the claim moves from the field to the call
    · rename_i taken hlisten
      obtain ⟨rfl, rfl⟩ := Prod.mk.inj (Option.some.inj hstep)
      simp only [reduceCtorEq, if_false, Nat.add_zero, Stop.shutting.injEq] at hshutting hclosing
      refine ⟨?_, fun _ => rfl, rfl, rfl⟩
      rw [claims_of_none rfl, Server.claims, Server.taken, Server.taken, hlisten, hshutting,
        hclosing]
      simp only [Option.some.injEq]
      omega
    · obtain ⟨rfl, rfl⟩ := Prod.mk.inj (Option.some.inj hstep)
      simp only [reduceCtorEq, if_false, Nat.add_zero] at hshutting hclosing
      refine ⟨claims_of_taken ?_ rfl, id, rfl, rfl⟩
      rw [Server.taken, Server.taken, hshutting, hclosing]
  | shutting taken =>
    obtain ⟨rfl, rfl⟩ := Prod.mk.inj (Option.some.inj hstep)
    simp only [reduceCtorEq, if_false, Nat.add_zero, Stop.shutting.injEq, Stop.closing.injEq]
      at hshutting hclosing
    refine ⟨claims_of_taken ?_ rfl, id, rfl, rfl⟩
    rw [Server.taken, Server.taken]
    dsimp only
    omega
  | closing taken =>
    obtain ⟨rfl, rfl⟩ := Prod.mk.inj (Option.some.inj hstep)
    simp only [reduceCtorEq, if_false, Nat.add_zero, Stop.closing.injEq] at hshutting hclosing
    refine ⟨claims_of_taken ?_ rfl, id, rfl, rfl⟩
    rw [Server.taken, Server.taken]
    dsimp only [Server.close]
    simp only [List.count_cons, beq_iff_eq]
    omega
  | returned => exact absurd hstep (Option.some_ne_none _).symm

/-- A step of `worker_loop()` keeps the claims on the listening socket. -/
theorem claims_worker (hs : Sound s) {index : Nat} {before after : Worker}
    (hindex : s.workers[index]? = some before) (hstep : worker_loop s before = some (after, s')) :
    (∀ fd, s.listening = some fd → s'.claims fd = s.claims fd) ∧ s'.listen_fd = s.listen_fd ∧
      s'.listening = s.listening ∧ s'.run = s.run := by
  cases before with
  | waiting =>
    rw [worker_loop] at hstep
    split at hstep
    · obtain ⟨rfl, rfl⟩ := Prod.mk.inj (Option.some.inj hstep)
      exact ⟨fun _ _ => rfl, rfl, rfl, rfl⟩
    · obtain ⟨-, hsome⟩ := Option.ite_none_right_eq_some.mp hstep
      obtain ⟨rfl, rfl⟩ := Prod.mk.inj (Option.some.inj hsome)
      exact ⟨fun _ _ => rfl, rfl, rfl, rfl⟩
  | serving client =>
    obtain ⟨rfl, rfl⟩ := Prod.mk.inj (Option.some.inj hstep)
    refine ⟨fun fd hfd => ?_, rfl, rfl, rfl⟩
    have hne : client ≠ fd := by
      rintro rfl
      have hheld := hs.held_listening hfd
      have hserving : 0 < s.workers.count (.serving client) :=
        List.count_pos_iff.mpr (List.mem_of_getElem? hindex)
      rw [Server.held] at hheld
      omega
    refine claims_of_taken ?_ rfl
    rw [Server.taken, Server.taken]
    dsimp only [Server.close]
    rw [List.count_cons_of_ne hne]
  | returned => exact absurd hstep (Option.some_ne_none _).symm

/-- In all its steps `run()` has found what it relies on. -/
def Met (trace : List (Server × Action)) : Prop :=
  ∀ p ∈ trace, ∀ event, p.2 = .run event → Meets p.1 p.1.run

theorem met_cons_run {trace : List (Server × Action)} (s : Server) (event : Event) :
    Met ((s, .run event) :: trace) ↔ Meets s s.run ∧ Met trace := by
  rw [Met, List.forall_mem_cons]
  exact and_congr_left fun _ => ⟨fun h => h event rfl, fun h _ _ => h⟩

theorem met_cons_other {trace : List (Server × Action)} (s : Server) (action : Action)
    (h : ∀ event, action ≠ .run event) : Met ((s, action) :: trace) ↔ Met trace := by
  rw [Met, List.forall_mem_cons]
  exact and_iff_right fun event heq => absurd heq (h event)

/-- **The account of the listening socket holds in every execution.** -/
theorem accounted_of_execution {config : ServerConfig} {trace : List (Server × Action)}
    (h : Execution config trace s) : Accounted (Met trace) s s.run.phase := by
  induction h with
  | start => exact fun _ hp => absurd hp List.not_mem_nil
  | @step trace s s' action hexecution hstep ih =>
    have hs := Sound.of_execution hexecution
    cases action with
    | run event =>
      obtain ⟨⟨r', s'⟩, hrun, rfl⟩ := Option.map_eq_some_iff.mp hstep
      rw [met_cons_run]
      exact ih.move hs rfl (run_move hrun)
    | call_stop =>
      obtain rfl := Option.some.inj hstep
      rw [met_cons_other s .call_stop nofun]
      refine ih.of_claims hs.socket (fun fd hfd => ?_) id rfl
      refine claims_of_closed (fun _ _ => ?_) (quiet_call_stop s).stops ?_ hfd
      · rfl
      · rfl
    | stop call =>
      obtain ⟨before, hcall, hbind⟩ := Option.bind_eq_some_iff.mp hstep
      obtain ⟨⟨after, s'⟩, hstop, hsome⟩ := Option.bind_eq_some_iff.mp hbind
      obtain rfl := Option.some.inj hsome
      have hclaims := claims_stop hcall hstop
      obtain ⟨-, hlisten, hlistening, hrun⟩ := hclaims 0
      rw [met_cons_other s (.stop call) nofun]
      have haccount := ih.of_claims hs.socket (fun fd _ => (hclaims fd).1) hlisten hlistening
      rw [← hrun] at haccount
      exact haccount
    | worker index =>
      obtain ⟨before, hindex, hbind⟩ := Option.bind_eq_some_iff.mp hstep
      obtain ⟨⟨after, s'⟩, hworker, hsome⟩ := Option.bind_eq_some_iff.mp hbind
      obtain rfl := Option.some.inj hsome
      obtain ⟨hclaims, hlisten, hlistening, hrun⟩ := claims_worker hs hindex hworker
      rw [met_cons_other s (.worker index) nofun]
      have haccount := ih.of_claims hs.socket hclaims (fun hnone => hlisten.trans hnone) hlistening
      rw [← hrun] at haccount
      exact haccount

end Account

/-! ### The end of an execution -/

/-- May the queue hold clients? -/
def Run.accepts : Run → Bool
  | .checking _ | .accepting _ | .failed _ _ | .queueing _ _ | .refusing _ _ | .failing_flag _
  | .failing_store _ | .failing_reset _ | .leaving_store _ | .draining => true
  | _ => false

/-- May there be workers? -/
def Run.works : Run → Bool
  | .idle | .configuring _ | .resetting _ | .publishing _ | .reserving _ | .unwinding_store _
  | .returned => false
  | _ => true

/-- The queue is emptied and the workers are joined on every way out. -/
structure Settled (s : Server) : Prop where
  pending_clients : s.run.accepts = false → s.pending_clients = []
  workers : s.run.works = false → s.workers = []

section Settle

variable {s s' : Server}

theorem settled_start : Settled .start := ⟨fun _ => rfl, fun _ => rfl⟩

/-- A step of `run()` leaves the queue and the workers as they are, or empty, or for a part of
`run()` in which there may be some. -/
theorem run_settled {config : ServerConfig} {r r' : Run} {event : Event}
    (h : run config s r event = some (r', s')) :
    (r'.accepts = true ∨ s'.pending_clients = [] ∨
      r.accepts = false ∧ s'.pending_clients = s.pending_clients) ∧
    (r'.works = true ∨ s'.workers = [] ∨ r.works = false ∧ s'.workers = s.workers) := by
  rw [run.eq_def] at h
  split at h
  all_goals try split at h
  all_goals try obtain ⟨rfl, rfl⟩ := some_pair_inj h
  all_goals first
    | cases h; done
    | exact ⟨Or.inl rfl, Or.inl rfl⟩
    | exact ⟨Or.inr (Or.inl rfl), Or.inl rfl⟩
    | exact ⟨Or.inr (Or.inr ⟨rfl, rfl⟩), Or.inl rfl⟩
    | exact ⟨Or.inr (Or.inr ⟨rfl, rfl⟩), Or.inr (Or.inl rfl)⟩
    | exact ⟨Or.inr (Or.inr ⟨rfl, rfl⟩), Or.inr (Or.inr ⟨rfl, rfl⟩)⟩

theorem stop_same {before after : Stop} (h : stop s before = some (after, s')) :
    s'.run = s.run ∧ s'.pending_clients = s.pending_clients ∧ s'.workers = s.workers := by
  cases before with
  | exchanging =>
    rw [stop] at h
    split at h
    all_goals
      obtain ⟨-, rfl⟩ := Prod.mk.inj (Option.some.inj h)
      exact ⟨rfl, rfl, rfl⟩
  | returned => exact absurd h (Option.some_ne_none _).symm
  | _ =>
    obtain ⟨-, rfl⟩ := Prod.mk.inj (Option.some.inj h)
    exact ⟨rfl, rfl, rfl⟩

theorem worker_same {before after : Worker} (h : worker_loop s before = some (after, s')) :
    s'.run = s.run ∧ (s.pending_clients = [] → s'.pending_clients = []) := by
  cases before with
  | waiting =>
    rw [worker_loop] at h
    split at h
    · rename_i hpending
      obtain ⟨-, rfl⟩ := Prod.mk.inj (Option.some.inj h)
      exact ⟨rfl, fun hnil => absurd (hpending.symm.trans hnil) (List.cons_ne_nil _ _)⟩
    · obtain ⟨-, hsome⟩ := Option.ite_none_right_eq_some.mp h
      obtain ⟨-, rfl⟩ := Prod.mk.inj (Option.some.inj hsome)
      exact ⟨rfl, id⟩
  | serving client =>
    obtain ⟨-, rfl⟩ := Prod.mk.inj (Option.some.inj h)
    exact ⟨rfl, id⟩
  | returned => exact absurd h (Option.some_ne_none _).symm

theorem Settled.step (h : Settled s) {config : ServerConfig} {action : Action}
    (hstep : HttpServer.step config s action = some s') : Settled s' := by
  cases action with
  | run event =>
    obtain ⟨⟨r', s'⟩, hrun, rfl⟩ := Option.map_eq_some_iff.mp hstep
    obtain ⟨hpending, hworkers⟩ := run_settled hrun
    refine ⟨fun hr => ?_, fun hr => ?_⟩
    · rcases hpending with haccepts | hnil | ⟨hbefore, hsame⟩
      · rw [show r'.accepts = false from hr] at haccepts
        exact absurd haccepts nofun
      · exact hnil
      · exact hsame.trans (h.pending_clients hbefore)
    · rcases hworkers with hworks | hnil | ⟨hbefore, hsame⟩
      · rw [show r'.works = false from hr] at hworks
        exact absurd hworks nofun
      · exact hnil
      · exact hsame.trans (h.workers hbefore)
  | call_stop =>
    obtain rfl := Option.some.inj hstep
    exact ⟨h.pending_clients, h.workers⟩
  | stop call =>
    obtain ⟨before, hcall, hbind⟩ := Option.bind_eq_some_iff.mp hstep
    obtain ⟨⟨after, s'⟩, hstop, hsome⟩ := Option.bind_eq_some_iff.mp hbind
    obtain rfl := Option.some.inj hsome
    obtain ⟨hrun, hpending, hworkers⟩ := stop_same hstop
    exact ⟨fun hr => hpending.trans (h.pending_clients (hrun ▸ hr)),
      fun hr => hworkers.trans (h.workers (hrun ▸ hr))⟩
  | worker index =>
    obtain ⟨before, hindex, hbind⟩ := Option.bind_eq_some_iff.mp hstep
    obtain ⟨⟨after, s'⟩, hworker, hsome⟩ := Option.bind_eq_some_iff.mp hbind
    obtain rfl := Option.some.inj hsome
    obtain ⟨hrun, hpending⟩ := worker_same hworker
    refine ⟨fun hr => hpending (h.pending_clients (hrun ▸ hr)), fun hr => ?_⟩
    -- there is a worker that steps
    have hnil := h.workers (hrun ▸ hr)
    rw [hnil] at hindex
    exact absurd hindex (by simp)

theorem settled_of_execution {config : ServerConfig} {trace : List (Server × Action)}
    (h : Execution config trace s) : Settled s := by
  induction h with
  | start => exact settled_start
  | step _ hstep ih => exact ih.step hstep

end Settle

/-- Every client and the listening socket are closed once. -/
def ClosedOnce (s : Server) : Prop :=
  (∀ c ∈ s.accepted, s.closed.count c = 1) ∧ ∀ fd, s.listening = some fd → s.closed.count fd = 1

/-- `run()` and every call of `stop()` have returned. -/
def Returned (s : Server) : Prop := s.run = .returned ∧ ∀ call ∈ s.stops, call = .returned

/-- No client is left when `run()` has returned. -/
theorem held_of_returned {s : Server} (h : Settled s) (hrun : s.run = .returned) (c : Descriptor) :
    s.held c = 0 := by
  have hpending := h.pending_clients (by rw [hrun]; rfl)
  have hworkers := h.workers (by rw [hrun]; rfl)
  rw [Server.held, hpending, hworkers, hrun]
  rfl

theorem taken_of_returned {s : Server} (h : ∀ call ∈ s.stops, call = .returned) (fd : Descriptor) :
    s.taken fd = s.closed.count fd := by
  have hshutting : s.stops.count (.shutting fd) = 0 :=
    List.count_eq_zero.mpr fun hmem => absurd (h _ hmem) nofun
  have hclosing : s.stops.count (.closing fd) = 0 :=
    List.count_eq_zero.mpr fun hmem => absurd (h _ hmem) nofun
  rw [Server.taken, hshutting, hclosing, Nat.add_zero]

/-- **Who closes a socket**, in every execution. A client is in the queue, with one worker or
with the accept loop, until it is closed, once, and none is both given to a worker and shut down
from the queue. When `run()` and every call of `stop()` have returned, every socket is closed
once exactly if `run()` has found in `listen_fd_` what it relies on. -/
theorem closed_once_iff {config : ServerConfig} {trace : List (Server × Action)} {s : Server}
    (h : Execution config trace s) :
    (∀ c ∈ s.accepted, s.held c + s.closed.count c = 1) ∧
    (∀ c ∈ s.served, c ∉ s.dropped) ∧
    (Returned s → (ClosedOnce s ↔ Met trace)) := by
  have hs := Sound.of_execution h
  have hcount : ∀ c ∈ s.accepted, s.held c + s.closed.count c = 1 := by
    intro c hc
    have hlistening : some c ≠ s.listening := fun heq => (hs.listening c heq.symm).2 hc
    rw [hs.account c hlistening]
    exact Nat.le_antisymm (List.nodup_iff_count.mp hs.nodup c) (List.count_pos_iff.mpr hc)
  refine ⟨hcount, fun c hserved hdropped => ?_, fun hreturned => ?_⟩
  -- a client has one way through the server
  · have hroute := hs.route_le c
    have hone := List.nodup_iff_count.mp hs.nodup c
    have h1 := List.count_pos_iff.mpr hserved
    have h2 := List.count_pos_iff.mpr hdropped
    rw [Server.route] at hroute
    omega
  · obtain ⟨hrun, hstops⟩ := hreturned
    have hsettled := settled_of_execution h
    have hclients : ∀ c ∈ s.accepted, s.closed.count c = 1 := by
      intro c hc
      have hc := hcount c hc
      -- nobody holds a client any more, so each has been closed
      rw [held_of_returned hsettled hrun, Nat.zero_add] at hc
      exact hc
    have haccounted := accounted_of_execution h
    rw [hrun] at haccounted
    obtain ⟨-, hno, hgood⟩ := haccounted
    rw [ClosedOnce, and_iff_right hclients]
    cases hlistening : s.listening with
    | none => exact iff_of_true (fun _ hfd => absurd hfd (Option.some_ne_none _).symm) (hno hlistening)
    | some fd =>
      rw [← hgood fd hlistening, taken_of_returned hstops]
      exact ⟨fun hall => hall fd rfl, fun hone fd' hfd' => Option.some.inj hfd' ▸ hone⟩

/-! ### Two executions -/

/-- The execution of given actions. -/
def perform (config : ServerConfig) :
    List Action → List (Server × Action) → Server → Option (List (Server × Action) × Server)
  | [], trace, s => some (trace, s)
  | action :: actions, trace, s =>
    (step config s action).bind (perform config actions ((s, action) :: trace))

theorem execution_of_perform {config : ServerConfig} {actions : List Action}
    {trace trace' : List (Server × Action)} {s s' : Server} (h : Execution config trace s)
    (hperform : perform config actions trace s = some (trace', s')) :
    Execution config trace' s' := by
  induction actions generalizing trace s with
  | nil =>
    obtain ⟨rfl, rfl⟩ := Prod.mk.inj (Option.some.inj hperform)
    exact h
  | cons action actions ih =>
    obtain ⟨next, hstep, hrest⟩ := Option.bind_eq_some_iff.mp hperform
    exact ih (h.step hstep) hrest

/-- The server is started with one worker, up to `accept`. -/
def started : List Action := List.replicate 8 (.run .next)

/-- A call of `stop()` from beginning to end. -/
def stop_call : List Action := [.call_stop, .stop 0, .stop 0, .stop 0, .stop 0]

/-- A client is served, and then the server is stopped. -/
def serve_and_stop : List Action :=
  started ++ ([.run .client, .run .next, .worker 0, .worker 0, .run .next] : List Action) ++
    stop_call ++ ([.run (.error .einval)] : List Action) ++
    (List.replicate 3 (.run .next) : List Action) ++ ([.worker 0, .run .next] : List Action)

/-- `accept` runs out of descriptors, and the server is stopped before `run()` withdraws
`listen_fd_`. -/
def fail_and_stop : List Action :=
  started ++ ([.run (.error (.other 24)), .run .next] : List Action) ++ stop_call ++
    (List.replicate 4 (.run .next) : List Action) ++ ([.worker 0, .run .next] : List Action)

/-- What the end of an execution shows. -/
def Server.outcome (s : Server) : Run × List Stop × List Descriptor × List Descriptor ×
    Option Descriptor := (s.run, s.stops, s.accepted, s.closed, s.listening)

theorem closed_once_of_serve : ∃ trace s, Execution { worker_threads := 1 } trace s ∧
    s.accepted = [1] ∧ s.held 1 + s.closed.count 1 = 1 ∧ Returned s ∧ ClosedOnce s ∧ Met trace := by
  have hrun : (perform { worker_threads := 1 } serve_and_stop [] .start).map
      (fun p => p.2.outcome) = some (.returned, [.returned], [1], [0, 1], some 0) := rfl
  obtain ⟨⟨trace, s⟩, hperform, houtcome⟩ := Option.map_eq_some_iff.mp hrun
  simp only [Server.outcome, Prod.mk.injEq] at houtcome
  obtain ⟨hrun, hstops, haccepted, hclosed, hlistening⟩ := houtcome
  have hexecution := execution_of_perform .start hperform
  obtain ⟨hheld, -, hiff⟩ := closed_once_iff hexecution
  have hreturned : Returned s := ⟨hrun, by rw [hstops]; decide⟩
  have hclosedOnce : ClosedOnce s := by
    rw [ClosedOnce, haccepted, hclosed, hlistening]
    refine ⟨by decide, fun fd hfd => ?_⟩
    obtain rfl := Option.some.inj hfd
    rfl
  exact ⟨trace, s, hexecution, haccepted, hheld 1 (by rw [haccepted]; decide), hreturned,
    hclosedOnce, (hiff hreturned).mp hclosedOnce⟩

/-- `stop()` closes the listening socket, and then `run()` closes it again. -/
theorem closed_twice : ¬∀ (config : ServerConfig) (trace : List (Server × Action)) (s : Server),
    Execution config trace s → Returned s → ClosedOnce s := by
  intro h
  have hrun : (perform { worker_threads := 1 } fail_and_stop [] .start).map
      (fun p => p.2.outcome) = some (.returned, [.returned], [], [0, 0], some 0) := rfl
  obtain ⟨⟨trace, s⟩, hperform, houtcome⟩ := Option.map_eq_some_iff.mp hrun
  simp only [Server.outcome, Prod.mk.injEq] at houtcome
  obtain ⟨hrun, hstops, -, hclosed, hlistening⟩ := houtcome
  have hclosedOnce := h _ trace s (execution_of_perform .start hperform)
    ⟨hrun, by rw [hstops]; decide⟩
  have htwice := hclosedOnce.2 0 hlistening
  rw [hclosed] at htwice
  exact absurd htwice (by decide)

end HttpServer

end Qwen38
