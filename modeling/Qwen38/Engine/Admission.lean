import Mathlib.Algebra.Order.BigOperators.Group.List
import Qwen38.Engine.Ownership

/-!
# The bound of a batch

A batch reserves for every session its prompt and the tokens it may generate, and admits
what fits under one limit. The account of a session (`Qwen38.Account`) is what this depends
on, and `Qwen38.Batch.Bounded` is what holds of the accounts at every step: no more than
four, within the limit together, and each within its own `max_tokens`. The counter
`live_capacity` is rebuilt in every pass; where a refill is decided it is the sum of the
accounts (`Qwen38.Batch.Counted`).

The sums are machine words. They are compared with the limit after they have been formed,
so all this asks that they do not wrap (`Qwen38.Executor.Unwrapped`).
-/

namespace Qwen38

/-- What the bookkeeping of a batch sees of a session. -/
structure Account where
  bound : BoundRequest
  prompt_tokens : List Token
  tokens : List Token
  active : Bool
  reserved_tokens : Nat

namespace Account

/-- The prompt and the tokens to generate. -/
def claim (account : Account) : Nat :=
  account.prompt_tokens.length + account.bound.request.max_tokens

/-- The session has reserved what it may take, and takes no more. -/
structure Within (account : Account) : Prop where
  reserved : account.reserved_tokens = account.claim
  tokens_le : account.tokens.length ≤ account.bound.request.max_tokens
  tokens_lt : account.active = true → account.tokens.length < account.bound.request.max_tokens

end Account

variable {T : Target} {engine : NativeEngine T}

def Session.account (session : Session engine) : Account where
  bound := session.bound
  prompt_tokens := session.prompt_tokens
  tokens := session.tokens
  active := session.active
  reserved_tokens := session.reserved_tokens

/-- The reserved tokens of several sessions. -/
def reserved_of (sessions : List (Session engine)) : Nat :=
  (sessions.map fun session => session.account.claim).sum

theorem reserved_of_append (sessions more : List (Session engine)) :
    reserved_of (sessions ++ more) = reserved_of sessions + reserved_of more := by
  simp [reserved_of]

theorem reserved_of_sublist {sessions sessions' : List (Session engine)}
    (h : sessions'.Sublist sessions) : reserved_of sessions' ≤ reserved_of sessions :=
  (h.map _).sum_le_sum fun _ _ => Nat.zero_le _

/-! ### Accounts through the steps -/

namespace NativeEngine

variable (engine) in
/-- What a request will reserve. -/
def needs (request : BatchRequest) : Nat :=
  (engine.tokenizer.encode request.prompt).length + request.max_tokens

theorem check_batched_eq_ok {limit_text sampling_text context_text : String}
    {request : BatchRequest} {prompt_tokens : List Token}
    (h : engine.check_batched limit_text sampling_text context_text request = .ok prompt_tokens) :
    prompt_tokens = engine.tokenizer.encode request.prompt ∧ 0 < request.max_tokens := by
  obtain ⟨_, hlimit, h⟩ := Except.bind_eq_ok.mp h
  obtain ⟨_, -, h⟩ := Except.bind_eq_ok.mp h
  obtain ⟨_, -, h⟩ := Except.bind_eq_ok.mp h
  obtain ⟨_, -, h⟩ := Except.bind_eq_ok.mp h
  obtain rfl := Except.ok.inj h
  rw [Except.throw_if_eq_ok] at hlimit
  exact ⟨rfl, Nat.pos_of_ne_zero fun hzero => hlimit (Or.inl hzero)⟩

/-- The tokens of a group, and its capacity as a machine word. -/
theorem tokenize_group_spec {group : List BoundRequest} {aggregate_capacity : Nat}
    {r : List (BoundRequest × List Token) × Nat} (hword : aggregate_capacity < word)
    (h : engine.tokenize_group group aggregate_capacity = .ok r) :
    r.1 = (group.map fun b => (b, engine.tokenizer.encode b.request.prompt)) ∧
      r.2 = (aggregate_capacity + (group.map fun b => engine.needs b.request).sum) % word ∧
      ∀ b ∈ group, ∃ prompt_tokens, engine.check_initial b.request = .ok prompt_tokens := by
  induction group generalizing aggregate_capacity r with
  | nil =>
    obtain rfl := Except.ok.inj h
    exact ⟨rfl, (Nat.mod_eq_of_lt hword).symm, nofun⟩
  | cons bound group ih =>
    rw [tokenize_group] at h
    split at h
    · cases h
    next prompt_tokens hcheck =>
      obtain ⟨rfl, -⟩ := check_batched_eq_ok hcheck
      split at h
      · cases h
      next tokenized total htokenized =>
        obtain rfl := Except.ok.inj h
        obtain ⟨hfst, hsnd, hchecks⟩ := ih (Nat.mod_lt _ (by decide)) htokenized
        refine ⟨?_, ?_, ?_⟩
        · exact congrArg _ hfst
        · refine hsnd.trans ?_
          simp only [BatchRequest.capacity, List.map_cons, List.sum_cons, needs, word]
          omega
        · rintro b (_ | ⟨_, hb⟩)
          · exact ⟨_, hcheck⟩
          · exact hchecks b hb

theorem account_of_initialize_session {bound : BoundRequest} {prompt_tokens : List Token}
    {incremental_prefill : Bool} {session : Session engine}
    (h : engine.initialize_session bound prompt_tokens incremental_prefill = .ok session) :
    session.account = ⟨bound, prompt_tokens, [], true, bound.request.capacity prompt_tokens⟩ := by
  rw [initialize_session] at h
  split at h
  · obtain rfl := Except.ok.inj h
    rfl
  · obtain ⟨state, -, h⟩ := Except.bind_eq_ok.mp h
    obtain rfl := Except.ok.inj h
    rfl

theorem account_of_advance_pending_prefill {session session' : Session engine}
    (h : engine.advance_pending_prefill session = .ok session') :
    session'.account = session.account := by
  obtain ⟨hbound, hprompt, htokens, hactive, hreserved⟩ := advance_pending_prefill_eq_ok h
  rw [Session.account, Session.account, hbound, hprompt, htokens, hactive, hreserved]

theorem claim_take_row (logits : T.Logits) (session : Session engine) :
    (engine.take_row logits session).account.claim = session.account.claim := by
  rw [take_row, take_token]
  split
  · rfl
  · dsimp only
    split <;> rfl

/-- A session takes a token while it may, and stops where it may not go on. -/
theorem within_take_row {session : Session engine} (h : session.account.Within)
    (hactive : session.active = true) (logits : T.Logits) :
    (engine.take_row logits session).account.Within := by
  have hlt := h.tokens_lt hactive
  rw [take_row, take_token]
  split
  · exact ⟨h.reserved, h.tokens_le, fun hgoes => absurd hgoes Bool.false_ne_true⟩
  · have hle : ∀ next, (session.tokens ++ [next]).length ≤ session.bound.request.max_tokens := by
      intro next
      rw [List.length_append, List.length_singleton]
      exact hlt
    dsimp only
    split
    · exact ⟨h.reserved, hle _, fun hgoes => absurd hgoes Bool.false_ne_true⟩
    · refine ⟨h.reserved, hle _, fun hgoes => ?_⟩
      simp only [Session.account, Bool.and_eq_true, decide_eq_true_eq] at hgoes
      exact Nat.lt_of_le_of_ne (hle _) hgoes.2

end NativeEngine

/-! ### The bound -/

namespace Batch

/-- The tokens of the requests that are still to begin. -/
def waiting_of (pending : List (BoundRequest × List Token)) : Nat :=
  (pending.map fun w => w.2.length + w.1.request.max_tokens).sum

/-- No more than four, and within the limit together. -/
structure Bounded (loop : Batch engine) (pending : List (BoundRequest × List Token)) : Prop where
  configured : engine.aggregate_limit = .ok loop.aggregate_limit
  size : loop.sessions.length + pending.length ≤ 4
  fits : reserved_of loop.sessions + waiting_of pending ≤ loop.aggregate_limit
  within : ∀ session ∈ loop.sessions, session.account.Within
  pending_pos : ∀ w ∈ pending, 0 < w.1.request.max_tokens

/-- The counter, and the rows of a pass: one for a session at most, and it is still active. -/
def Counted (loop : Batch engine) : Phase T → Prop
  | .rows pending => (pending.map Prod.fst).Nodup ∧ ∀ slot ∈ pending.map Prod.fst,
      ∀ session, loop.sessions[slot]? = some session → session.active = true
  | .collect slot => loop.live_capacity =
      reserved_of ((loop.sessions.take slot).filter fun session => session.active)
  | .refill => loop.live_capacity = reserved_of loop.sessions
  | _ => True

variable {loop loop' : Batch engine} {pending : List (BoundRequest × List Token)}

theorem Bounded.of_claims (h : loop.Bounded pending)
    (hlimit : loop'.aggregate_limit = loop.aggregate_limit)
    (hclaims : loop'.sessions.map (fun s => s.account.claim) =
      loop.sessions.map fun s => s.account.claim)
    (hwithin : ∀ session ∈ loop'.sessions, session.account.Within) : loop'.Bounded pending where
  configured := by rw [hlimit, h.configured]
  size := by
    have hlength := congrArg List.length hclaims
    rw [List.length_map, List.length_map] at hlength
    rw [hlength]
    exact h.size
  fits := by
    have hsum : reserved_of loop'.sessions = reserved_of loop.sessions := congrArg List.sum hclaims
    rw [hlimit, hsum]
    exact h.fits
  within := hwithin
  pending_pos := h.pending_pos

theorem Bounded.congr (h : loop.Bounded pending)
    (hlimit : loop'.aggregate_limit = loop.aggregate_limit)
    (hsessions : loop'.sessions.map Session.account = loop.sessions.map Session.account) :
    loop'.Bounded pending := by
  have hclaims := congrArg (List.map Account.claim) hsessions
  rw [List.map_map, List.map_map] at hclaims
  refine h.of_claims hlimit hclaims fun session hsession => ?_
  have hmem : session.account ∈ loop.sessions.map Session.account :=
    hsessions ▸ List.mem_map_of_mem hsession
  obtain ⟨old, hold, heq⟩ := List.mem_map.mp hmem
  exact heq ▸ h.within old hold

theorem Bounded.sublist (h : loop.Bounded pending)
    (hlimit : loop'.aggregate_limit = loop.aggregate_limit)
    (hsessions : loop'.sessions.Sublist loop.sessions) : loop'.Bounded pending where
  configured := by rw [hlimit, h.configured]
  size := (Nat.add_le_add_right hsessions.length_le _).trans h.size
  fits := by
    rw [hlimit]
    exact (Nat.add_le_add_right (reserved_of_sublist hsessions) _).trans h.fits
  within := fun session hsession => h.within session (hsessions.subset hsession)
  pending_pos := h.pending_pos

/-- A request that waited becomes a session. -/
theorem Bounded.begin {bound : BoundRequest} {prompt_tokens : List Token}
    (h : loop.Bounded ((bound, prompt_tokens) :: pending))
    (hlimit : loop'.aggregate_limit = loop.aggregate_limit) {session : Session engine}
    (hsessions : loop'.sessions = loop.sessions ++ [session])
    (hsession : session.account =
      ⟨bound, prompt_tokens, [], true, bound.request.capacity prompt_tokens⟩) :
    loop'.Bounded pending := by
  have hsize := h.size
  have hfits := h.fits
  -- what waited for the request is reserved for the session
  have hclaim : session.account.claim = prompt_tokens.length + bound.request.max_tokens := by
    rw [hsession]
    rfl
  have hpos : 0 < bound.request.max_tokens := h.pending_pos _ List.mem_cons_self
  rw [waiting_of, List.map_cons, List.sum_cons, ← waiting_of] at hfits
  dsimp only at hfits
  constructor
  case configured => rw [hlimit, h.configured]
  case size =>
    rw [hsessions, List.length_append]
    simp only [List.length_cons, List.length_nil] at hsize ⊢
    omega
  case fits =>
    have hone : reserved_of [session] = session.account.claim := List.sum_singleton
    rw [hlimit, hsessions, reserved_of_append, hone, hclaim]
    omega
  case within =>
    intro s hs
    rw [hsessions] at hs
    rcases List.mem_append.mp hs with hs | hs
    · exact h.within s hs
    · obtain rfl := List.mem_singleton.mp hs
      -- the limit is below the word, so the capacity has not wrapped
      have hword := NativeEngine.aggregate_limit_lt h.configured
      refine ⟨?_, ?_, fun _ => ?_⟩
      · rw [hclaim, hsession]
        exact Nat.mod_eq_of_lt (by omega)
      · rw [hsession]
        exact Nat.zero_le _
      · rw [hsession]
        exact hpos
  case pending_pos => exact fun w hw => h.pending_pos w (List.mem_cons_of_mem _ hw)

theorem Bounded.skip {w : BoundRequest × List Token} (h : loop.Bounded (w :: pending)) :
    loop.Bounded pending := by
  have hsize := h.size
  have hfits := h.fits
  rw [waiting_of, List.map_cons, List.sum_cons, ← waiting_of] at hfits
  refine ⟨h.configured, ?_, ?_, h.within, fun w hw => h.pending_pos w (List.mem_cons_of_mem _ hw)⟩
  · rw [List.length_cons] at hsize
    omega
  · omega

end Batch

/-- The bound, for what the worker is at. -/
def Worker.Bounded : Worker engine → Prop
  | .initializing _ loop pending => loop.Bounded pending
  | .running _ loop phase => loop.Bounded [] ∧ loop.Counted phase
  | _ => True

namespace Executor

open NativeEngine

variable {x y : Executor engine}

/-- The sums that decide an admission are those of the numbers: the one of a group whose
requests pass their checks, unless it is refused anyway, and the one of a refill. -/
def Unwrapped (x : Executor engine) (_ : Option Leak) : Prop :=
  match x.worker with
  | .entering batch =>
    (∀ b ∈ batch, ∃ prompt_tokens, engine.check_initial b.request = .ok prompt_tokens) →
      ∀ limit, engine.aggregate_limit = .ok limit →
        (batch.map fun b => engine.needs b.request).sum % word ≤ limit →
          (batch.map fun b => engine.needs b.request).sum < word
  | .running _ loop .refill => ∀ bound, next_groupable x.tasks = some bound →
      ∀ prompt_tokens, engine.check_refill bound.request = .ok prompt_tokens →
        loop.live_capacity + engine.needs bound.request < word
  | _ => True

theorem map_fst_zip_sublist {α β : Type*} (l : List α) (l' : List β) :
    ((l.zip l').map Prod.fst).Sublist l := by
  induction l generalizing l' with
  | nil => exact List.Sublist.refl _
  | cons a l ih =>
    cases l' with
    | nil => exact List.nil_sublist _
    | cons b l' => exact (ih l').cons_cons a

/-- A row is taken by the session of its slot; the other rows still have theirs. -/
theorem bounded_take_row {loop : Batch engine} {slot : Nat} {logits : T.Logits}
    {pending : List (Nat × T.Logits)} (h : loop.Bounded [])
    (hcounted : loop.Counted (.rows ((slot, logits) :: pending))) :
    Batch.Bounded { loop with sessions := loop.sessions.modify slot (engine.take_row logits) } [] ∧
      Batch.Counted { loop with sessions := loop.sessions.modify slot (engine.take_row logits) }
        (.rows pending) := by
  obtain ⟨hnodup, hactive⟩ := hcounted
  rw [List.map_cons, List.nodup_cons] at hnodup
  refine ⟨h.of_claims rfl ?_ ?_, hnodup.2, ?_⟩
  · exact map_modify_of_eq _ (claim_take_row logits) _ _
  · intro session hsession
    obtain ⟨i, hi⟩ := List.mem_iff_getElem?.mp hsession
    rw [List.getElem?_modify] at hi
    obtain ⟨old, hold, heq⟩ := Option.map_eq_some_iff.mp hi
    have hwithin := h.within old (List.mem_of_getElem? hold)
    split at heq
    next hslot =>
      subst hslot heq
      exact within_take_row hwithin (hactive slot List.mem_cons_self old hold) logits
    next => exact heq ▸ hwithin
  · intro slot' hslot' session hsession
    have hne : slot ≠ slot' := fun heq => hnodup.1 (heq ▸ hslot')
    rw [List.getElem?_modify_ne _ _ hne] at hsession
    exact hactive slot' (List.mem_cons_of_mem _ hslot') session hsession

/-- A session that goes on is counted, without a wrap. -/
theorem counted_collect_active {loop : Batch engine} {slot : Nat} {session : Session engine}
    (h : loop.Bounded []) (hcounted : loop.Counted (.collect slot))
    (hsession : loop.sessions[slot]? = some session) (hactive : session.active = true) :
    loop.live_capacity + session.reserved_tokens < word ∧
      Batch.Counted { loop with
        live_capacity := (loop.live_capacity + session.reserved_tokens) % word }
        (.collect (slot + 1)) := by
  have hnext : reserved_of ((loop.sessions.take (slot + 1)).filter fun s => s.active) =
      loop.live_capacity + session.reserved_tokens := by
    have hone : reserved_of [session] = session.account.claim := List.sum_singleton
    rw [List.take_add_one, hsession, Option.toList_some, List.filter_append, reserved_of_append,
      List.filter_cons_of_pos hactive, List.filter_nil, hone, ← hcounted,
      ← (h.within session (List.mem_of_getElem? hsession)).reserved]
    rfl
  have hle := reserved_of_sublist
    ((List.filter_sublist (p := fun s : Session engine => s.active)).trans
      (List.take_sublist (slot + 1) loop.sessions))
  have hword := aggregate_limit_lt h.configured
  have hfits := h.fits
  have hlt : loop.live_capacity + session.reserved_tokens < word := by omega
  refine ⟨hlt, ?_⟩
  rw [Batch.Counted, Nat.mod_eq_of_lt hlt]
  exact hnext.symm

/-- The rows of a step: one for each session that is ready. -/
theorem counted_rows {loop : Batch engine} {sessions : List (Session engine)}
    {pending : List (Nat × T.Logits)}
    (hstep : engine.step_sessions loop.sessions = .ok (sessions, pending))
    (hactive : ∀ session ∈ loop.sessions, session.active = true) :
    Batch.Counted { loop with sessions } (.rows pending) := by
  have hmap := step_sessions_map (f := Session.active) (fun _ _ => rfl) hstep
  constructor
  · rw [step_sessions] at hstep
    split at hstep
    · obtain ⟨-, rfl⟩ := Prod.mk.inj (Except.ok.inj hstep)
      exact List.nodup_nil
    · obtain ⟨steps, -, hstep⟩ := Except.bind_eq_ok.mp hstep
      obtain ⟨-, rfl⟩ := Prod.mk.inj (Except.ok.inj hstep)
      have hslots : (engine.decode_rows loop.sessions).Nodup :=
        (List.nodup_range).filter _
      exact hslots.sublist (map_fst_zip_sublist _ _)
  · intro slot _ session hsession
    have hmem : session.active ∈ loop.sessions.map Session.active :=
      hmap ▸ List.mem_map_of_mem (List.mem_of_getElem? hsession)
    obtain ⟨old, hold, heq⟩ := List.mem_map.mp hmem
    rw [← heq]
    exact hactive old hold

theorem bounded_step {leak : Option Leak} (h : x.worker.Bounded)
    (hsettled : x.worker.Settled x.history) (hallowed : Unwrapped x leak)
    (hstep : Step engine leak x y) : y.worker.Bounded := by
  cases hstep with
  | enqueue | stop => exact h
  | @enter_group batch _ _ _ tokenized limit hcheck =>
    obtain ⟨total, htokenized, hle, hsize, hlimit⟩ := admit_group_together hcheck
    obtain ⟨hfst, hsnd, hchecks⟩ := tokenize_group_spec (by decide) htokenized
    rw [Nat.zero_add] at hsnd
    have hword := hallowed hchecks limit hlimit (hsnd ▸ hle)
    obtain rfl : tokenized = _ := hfst
    refine ⟨hlimit, ?_, ?_, fun _ hmem => absurd hmem List.not_mem_nil, ?_⟩
    · simpa using hsize
    -- what the group needs is added up modulo the word, and fits it by assumption
    · have hneeds : Batch.waiting_of (batch.map fun b =>
          (b, engine.tokenizer.encode b.request.prompt)) =
            (batch.map fun b => engine.needs b.request).sum := by
        rw [Batch.waiting_of, List.map_map]
        rfl
      rw [hneeds, reserved_of, List.map_nil, List.sum_nil, Nat.zero_add, ← Nat.mod_eq_of_lt hword,
        ← hsnd]
      exact hle
    · intro w hw
      obtain ⟨b, hb, rfl⟩ := List.mem_map.mp hw
      obtain ⟨_, hcheck⟩ := hchecks b hb
      exact (check_batched_eq_ok hcheck).2
  | begin_session hsession => exact h.begin rfl rfl (account_of_initialize_session hsession)
  | begin_session_fails message => exact h.skip
  | sessions_begun => exact ⟨h, trivial⟩
  | decode hsome hsessions =>
    exact ⟨h.1.congr rfl (step_sessions_map (fun _ _ => rfl) hsessions),
      counted_rows hsessions hsettled⟩
  | take_row => exact bounded_take_row h.1 h.2
  | rows_done => exact ⟨h.1.congr rfl rfl, rfl⟩
  | collect_active hsession hactive =>
    exact ⟨h.1.congr rfl rfl, (counted_collect_active h.1 h.2 hsession hactive).2⟩
  | collect_finished hsession hactive =>
    -- a finished session does not count any more
    refine ⟨h.1, ?_⟩
    rw [Batch.Counted, List.take_add_one, hsession, Option.toList_some, List.filter_append,
      List.filter_cons_of_neg (by simp [hactive]), List.filter_nil, List.append_nil]
    exact h.2
  | collect_done hend =>
    refine ⟨h.1.sublist rfl List.filter_sublist, ?_⟩
    have hcounted := h.2
    rw [Batch.Counted, List.take_of_length_le hend.ge] at hcounted
    exact hcounted
  | refill_stop hend => exact ⟨h.1, trivial⟩
  | refill_refused hroom hgroup hcheck => exact h
  | refill_deferred hroom hgroup hcheck hdefers => exact ⟨h.1.congr rfl rfl, trivial⟩
  | @refill_admitted _ loop bound _ _ _ prompt_tokens session hroom hgroup hcheck hfits hsession =>
    obtain ⟨rfl, hpos⟩ := check_batched_eq_ok hcheck
    -- the request is taken where it fits behind the live ones
    have hlt : loop.live_capacity + engine.needs bound.request < word :=
      hallowed bound hgroup _ hcheck
    have hsum : reserved_of loop.sessions + engine.needs bound.request < word := h.2 ▸ hlt
    have hcapacity : bound.request.capacity (engine.tokenizer.encode bound.request.prompt) =
        engine.needs bound.request := Nat.mod_eq_of_lt (by rw [needs] at hlt; omega)
    have hle : loop.live_capacity + engine.needs bound.request ≤ loop.aggregate_limit := by
      refine Nat.le_of_not_lt fun hover => hfits (Or.inr ?_)
      rwa [hcapacity, Nat.mod_eq_of_lt hlt]
    have hcounted : loop.live_capacity = reserved_of loop.sessions := h.2
    have hwaits : loop.Bounded [(bound, engine.tokenizer.encode bound.request.prompt)] := by
      refine ⟨h.1.configured, ?_, ?_, h.1.within, ?_⟩
      · exact hroom.2
      · rw [← hcounted]
        exact hle
      · intro w hw
        rw [List.mem_singleton.mp hw]
        exact hpos
    have haccount := account_of_initialize_session hsession
    refine ⟨hwaits.begin rfl rfl haccount, ?_⟩
    have hone : reserved_of [session] = session.account.claim := List.sum_singleton
    rw [Batch.Counted, reserved_of_append, hone, haccount, hcapacity, Nat.mod_eq_of_lt hlt,
      hcounted]
    rfl
  | refill_fails message hroom hgroup hcheck hfits => exact h
  | prefill_none hnone => exact ⟨h.1, trivial⟩
  | prefill_some hslot hsession hadvance =>
    refine ⟨h.1.congr rfl ?_, trivial⟩
    exact map_set_of_eq _ hsession (account_of_advance_pending_prefill hadvance)
  | prefill_fails message hslot hsession => exact ⟨h.1.sublist rfl (List.eraseIdx_sublist _ _), trivial⟩
  | _ => trivial

theorem bounded_of_reaches (h : Reaches engine Unwrapped x) : x.worker.Bounded := by
  induction h with
  | start => trivial
  | step hreaches hallowed hstep ih =>
    exact bounded_step ih (owned_of_reaches hreaches).2 hallowed hstep

/-! ### The result -/

/-- The batch that the worker is at. -/
def batch_of : Worker engine → Option (Batch engine)
  | .initializing _ loop _ => some loop
  | .running _ loop _ => some loop
  | _ => none

/-- **What a batch admits.** The counter is the sum where a refill is decided, and forming
it does not wrap. -/
structure Admitted (x : Executor engine) (loop : Batch engine) : Prop where
  configured : engine.aggregate_limit = .ok loop.aggregate_limit
  size : loop.sessions.length ≤ 4
  fits : reserved_of loop.sessions ≤ loop.aggregate_limit
  reserved : ∀ session ∈ loop.sessions, session.reserved_tokens =
    session.prompt_tokens.length + session.bound.request.max_tokens
  generated : ∀ session ∈ loop.sessions, session.tokens.length ≤ session.bound.request.max_tokens
  refill : ∀ batch, x.worker = .running batch loop .refill →
    loop.live_capacity = reserved_of loop.sessions ∧ loop.live_capacity < word
  collect : ∀ batch slot session, x.worker = .running batch loop (.collect slot) →
    loop.sessions[slot]? = some session → session.active = true →
      loop.live_capacity + session.reserved_tokens < word

theorem admitted_of_reaches (h : Reaches engine Unwrapped x) {loop : Batch engine}
    (hloop : batch_of x.worker = some loop) : Admitted x loop := by
  have hbounded := bounded_of_reaches h
  -- a batch that is set up still has requests waiting, and a running one has none
  obtain ⟨pending, hpending, hcounted⟩ : ∃ pending, loop.Bounded pending ∧
      ∀ batch phase, x.worker = .running batch loop phase →
        loop.Bounded [] ∧ loop.Counted phase := by
    cases hworker : x.worker with
    | initializing batch loop' pending =>
      rw [hworker] at hbounded hloop
      obtain rfl := Option.some.inj hloop
      exact ⟨pending, hbounded, nofun⟩
    | running batch loop' phase =>
      rw [hworker] at hbounded hloop
      obtain rfl := Option.some.inj hloop
      refine ⟨[], hbounded.1, fun batch' phase' heq => ?_⟩
      obtain ⟨-, -, rfl⟩ := Worker.running.inj heq
      exact hbounded
    | _ =>
      rw [hworker] at hloop
      cases hloop
  have hfits : reserved_of loop.sessions ≤ loop.aggregate_limit :=
    (Nat.le_add_right _ _).trans hpending.fits
  constructor
  case configured => exact hpending.configured
  case size => exact (Nat.le_add_right _ _).trans hpending.size
  case fits => exact hfits
  case reserved => exact fun session hsession => (hpending.within session hsession).reserved
  case generated => exact fun session hsession => (hpending.within session hsession).tokens_le
  case refill =>
    intro batch hworker
    have hsum := (hcounted batch .refill hworker).2
    refine ⟨hsum, ?_⟩
    rw [hsum]
    exact hfits.trans_lt (aggregate_limit_lt hpending.configured)
  case collect =>
    intro batch slot session hworker hsession hactive
    obtain ⟨hbound, hcount⟩ := hcounted batch _ hworker
    exact (counted_collect_active hbound hcount hsession hactive).1

/-- Two requests in their batch. -/
theorem admitted_of_reaches_two : ∃ (x : Executor small_engine) (loop : Batch small_engine),
    loop.sessions.length = 2 ∧ Admitted x loop := by
  have hunwrapped : ∀ x : Executor small_engine, (∀ batch, x.worker ≠ .entering batch) →
      (∀ batch loop, x.worker ≠ .running batch loop .refill) → Unwrapped x none := by
    intro x hentering hrefill
    rw [Unwrapped]
    split
    next heq => exact absurd heq (hentering _)
    next heq => exact absurd heq (hrefill _ _)
    next => trivial
  have hrun : Reaches small_engine Unwrapped _ :=
    .step (.step (.step (.step (.step .start (hunwrapped _ nofun nofun)
      (.enqueue (.generate (request_for 1 5)) rfl nofun)) (hunwrapped _ nofun nofun)
      (.enqueue (.generate (request_for 2 6)) rfl (by simp [request_for, Task.promise])))
      (hunwrapped _ nofun nofun) (.take_group rfl)) (hunwrapped _ nofun nofun)
      (.extend_group (by decide) rfl)) (hunwrapped _ nofun nofun)
      (.close_group (by decide) (Or.inr rfl))
  have hentered := hrun.step (fun _ _ _ _ => by decide) (.enter_group rfl)
  have hfirst := hentered.step (hunwrapped _ nofun nofun) (.begin_session rfl)
  have hsecond := hfirst.step (hunwrapped _ nofun nofun) (.begin_session rfl)
  exact ⟨_, _, rfl, admitted_of_reaches hsecond rfl⟩

/-- Three requests whose sum wraps to zero are admitted together. -/
theorem not_admitted : ¬∀ (engine : NativeEngine (consumed fun _ => 0)) (x : Executor engine)
    (loop : Batch engine), Reaches engine (fun _ _ => True) x → batch_of x.worker = some loop →
      reserved_of loop.sessions ≤ loop.aggregate_limit := by
  intro h
  have hrun : Reaches { small_engine with options := { max_generation_tokens := 2 ^ 63 - 1 } }
      (fun _ _ => True) _ :=
    .step (.step (.step (.step (.step (.step (.step .start trivial
      (.enqueue (.generate (request_for 1 (2 ^ 63 - 2))) rfl nofun)) trivial
      (.enqueue (.generate (request_for 2 (2 ^ 63 - 2))) rfl
        (by simp [request_for, Task.promise]))) trivial
      (.enqueue (.generate (request_for 3 1)) rfl (by simp [request_for, Task.promise]))) trivial
      (.take_group rfl)) trivial (.extend_group (by decide) rfl)) trivial
      (.extend_group (by decide) rfl)) trivial (.close_group (by decide) (Or.inr rfl))
  have hentered := hrun.step trivial (.enter_group rfl)
  have hfirst := hentered.step trivial (.begin_session rfl)
  exact absurd (h _ _ _ hfirst rfl) (by decide)

end Executor

end Qwen38
