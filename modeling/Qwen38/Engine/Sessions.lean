import Qwen38.Engine.Admission
import Qwen38.Engine.LayerMajor

/-!
# Sessions by themselves

A session of a batch reads and writes nothing of the others. Its prompt is consumed chunk by chunk,
at once or window by window between the shared steps (`Qwen38.NativeEngine.Prefilling`), and ends in
the same state (`Qwen38.NativeEngine.prompt_state`); from there each shared step does to it what a
step of its own would do (`Qwen38.NativeEngine.decode_alone`), as long as no layer mixes the rows of
different requests (`Qwen38.Target.DecodesApart`). So wherever the executor has come to, every
session of the batch is what a run of it alone would be (`Qwen38.Executor.apart_of_reaches`).
-/

namespace Qwen38

open Except (bind_eq_ok)
open Target (split_chunks FitsChunk Resumable)

variable {T : Target}

namespace NativeEngine

variable {engine : NativeEngine T} {session session' : Session engine}

/-! ### The prompt -/

variable (T) in
/-- The state behind these tokens, in chunks. -/
def consume_in_chunks (chunk_rows : Nat) (tokens : List Token) (state : ModelDecodeState T) :
    ModelDecodeState T :=
  (T.prefill (split_chunks chunk_rows tokens.length tokens) state).2

theorem consume_in_chunks_nil (chunk_rows : Nat) (state : ModelDecodeState T) :
    consume_in_chunks T chunk_rows [] state = state := by
  rw [consume_in_chunks, Target.split_chunks_nil, Target.prefill]
  rfl

/-- The first chunk, and the others. -/
theorem consume_in_chunks_step {chunk_rows : Nat} (hpos : 0 < chunk_rows) {tokens : List Token}
    (hne : tokens ≠ []) (state : ModelDecodeState T) :
    consume_in_chunks T chunk_rows tokens state =
      consume_in_chunks T chunk_rows (tokens.drop chunk_rows)
        (T.prefill [tokens.take chunk_rows] state).2 := by
  rw [consume_in_chunks, Target.split_chunks_cons hpos hne, Target.prefill_cons]
  rfl

/-- The state behind a prompt, but for its last token. -/
def prompt_state (engine : NativeEngine T) (prompt_tokens : List Token) : ModelDecodeState T :=
  consume_in_chunks T (engine.request_prefill_chunk (prompt_tokens.length - 1)) prompt_tokens.dropLast
    T.make_state

/-- The next chunk of a prompt. -/
theorem take_drop_prompt (prompt_tokens : List Token) (chunk_rows offset : Nat) :
    (prompt_tokens.drop offset).take (min chunk_rows (prompt_tokens.length - 1 - offset)) =
      (prompt_tokens.dropLast.drop offset).take chunk_rows := by
  rw [List.dropLast_eq_take, List.drop_take, List.take_take]

variable {prompt_tokens : List Token} {chunk_rows offset : Nat}

theorem drop_prompt_eq_nil (h : prompt_tokens.length - 1 ≤ offset) :
    prompt_tokens.dropLast.drop offset = [] :=
  List.drop_of_length_le (by rw [List.length_dropLast]; exact h)

theorem drop_prompt_ne_nil (h : offset < prompt_tokens.length - 1) :
    prompt_tokens.dropLast.drop offset ≠ [] := by
  refine List.ne_nil_of_length_pos ?_
  rw [List.length_drop, List.length_dropLast]
  omega

theorem fitsChunk_take {tokens : List Token} (hpos : 0 < chunk_rows) (hmax : chunk_rows ≤ 2048)
    (hne : tokens ≠ []) : FitsChunk (tokens.take chunk_rows) := by
  have hlength := List.length_pos_of_ne_nil hne
  refine ⟨List.ne_nil_of_length_pos ?_, ?_⟩ <;> rw [List.length_take] <;> omega

/-- **The prompt at once.** -/
theorem prefill_prompt_eq (hpos : 0 < chunk_rows) (hmax : chunk_rows ≤ 2048) {fuel : Nat}
    (hfuel : prompt_tokens.length - 1 ≤ offset + fuel) (state : ModelDecodeState T) :
    T.prefill_prompt prompt_tokens chunk_rows fuel offset state =
      .ok (consume_in_chunks T chunk_rows (prompt_tokens.dropLast.drop offset) state) := by
  induction fuel generalizing offset state with
  | zero => rw [Target.prefill_prompt, drop_prompt_eq_nil (by omega), consume_in_chunks_nil]
  | succ fuel ih =>
    rw [Target.prefill_prompt]
    dsimp only
    split
    · next hmore =>
      have hne := drop_prompt_ne_nil hmore
      rw [take_drop_prompt, Target.prefill_chunk_batch_eq state (fitsChunk_take hpos hmax hne),
        Except.ok_bind, consume_in_chunks_step hpos hne, List.drop_drop]
      exact ih (by omega) _
    · rw [drop_prompt_eq_nil (by omega), consume_in_chunks_nil]

/-! ### A session before its first step -/

/-- A request that a batch takes: its arguments are in range, and it has no thinking budget. -/
structure Takes (engine : NativeEngine T) (bound : BoundRequest) (prompt_tokens : List Token) :
    Prop where
  validate : engine.validate bound.request = .ok prompt_tokens
  thinking_budget_tokens : bound.request.sampling.thinking_budget_tokens = 0

/-- The checks of a batch are those of a request alone, but for the texts of the errors. -/
theorem validate_of_check_batched {limit_text sampling_text context_text : String}
    {request : BatchRequest}
    (h : engine.check_batched limit_text sampling_text context_text request = .ok prompt_tokens) :
    engine.validate request = .ok prompt_tokens := by
  obtain ⟨_, hlimit, h⟩ := bind_eq_ok.mp h
  obtain ⟨_, hsampling, h⟩ := bind_eq_ok.mp h
  obtain ⟨_, hprompt, h⟩ := bind_eq_ok.mp h
  obtain ⟨_, hcontext, h⟩ := bind_eq_ok.mp h
  rw [Except.throw_if_eq_ok] at hlimit hsampling hprompt hcontext
  rw [validate, Except.throw_if_of_not hlimit, Except.throw_if_of_not hsampling]
  simp only [Except.ok_bind, Except.throw_if_of_not hprompt, Except.throw_if_of_not hcontext]
  exact h

/-- A session that has generated nothing yet. -/
structure Fresh (session : Session engine) : Prop where
  takes : engine.Takes session.bound session.prompt_tokens
  tokens : session.tokens = []
  finish_reason : session.finish_reason = .length
  random : session.random = engine.sampler.seeded session.bound.request.sampling.seed
  current : session.current = session.prompt_tokens.getLastD 0
  text : session.text = {}
  active : session.active = true
  prefill_rows : session.prefill_rows = session.prompt_tokens.length - 1
  prefill_chunk_rows : session.prefill_chunk_rows =
    engine.request_prefill_chunk (session.prompt_tokens.length - 1)

/-- **A prompt on its way**: what is left of it leads to its state. -/
structure Prefilling (session : Session engine) : Prop extends Fresh session where
  ready : session.ready = false
  prefill_offset : session.prefill_offset < session.prompt_tokens.length - 1
  state : match session.pending_prefill with
    | none => consume_in_chunks T session.prefill_chunk_rows
        (session.prompt_tokens.dropLast.drop session.prefill_offset) session.state =
          engine.prompt_state session.prompt_tokens
    | some chunk =>
      let tokens := (session.prompt_tokens.dropLast.drop session.prefill_offset).take
        session.prefill_chunk_rows
      session.current_prefill_rows =
          min session.prefill_chunk_rows (session.prefill_rows - session.prefill_offset) ∧
        Resumable chunk tokens ∧
          consume_in_chunks T session.prefill_chunk_rows
            (session.prompt_tokens.dropLast.drop (session.prefill_offset + session.prefill_chunk_rows))
            (T.finish chunk tokens session.state).2 = engine.prompt_state session.prompt_tokens

/-- The prompt has been consumed. -/
structure Prompted (session : Session engine) : Prop extends Fresh session where
  ready : session.ready = true
  state : session.state = engine.prompt_state session.prompt_tokens

/-- The step that a session takes. -/
def decode_alone (engine : NativeEngine T) (session : Session engine) : Session engine :=
  let r := T.forward_decode_capture session.current session.state
  engine.take_row r.1.logits { session with state := r.2 }

/-- A session that has run by itself behind its prompt. -/
inductive Alone (engine : NativeEngine T) : Session engine → Prop
  | prompted {session : Session engine} (h : Prompted session) : Alone engine session
  | step {session : Session engine} (h : Alone engine session) (hactive : session.active = true) :
      Alone engine (engine.decode_alone session)

/-- A session of a batch, between two steps. -/
inductive Apart (engine : NativeEngine T) (session : Session engine) : Prop
  | prefilling (h : Prefilling session)
  | alone (h : Alone engine session)

theorem fresh_new_session {bound : BoundRequest} (h : engine.Takes bound prompt_tokens) :
    Fresh (engine.new_session bound prompt_tokens) :=
  ⟨h, rfl, rfl, rfl, rfl, rfl, rfl, rfl, rfl⟩

/-- **A session starts by itself.** -/
theorem apart_of_initialize {bound : BoundRequest} (h : engine.Takes bound prompt_tokens)
    {incremental_prefill : Bool}
    (hrun : engine.initialize_session bound prompt_tokens incremental_prefill = .ok session) :
    Apart engine session ∧ session.active = true := by
  have hfresh := fresh_new_session h
  have hpos := request_prefill_chunk_pos engine (prompt_tokens.length - 1)
  have hmax := request_prefill_chunk_le engine (prompt_tokens.length - 1)
  rw [initialize_session] at hrun
  split at hrun
  · obtain rfl := Except.ok.inj hrun
    refine ⟨?_, rfl⟩
    by_cases hrows : prompt_tokens.length - 1 = 0
    · refine .alone (.prompted ⟨hfresh, decide_eq_true hrows, ?_⟩)
      have hnil : prompt_tokens.dropLast = [] :=
        List.eq_nil_of_length_eq_zero (by rw [List.length_dropLast]; exact hrows)
      refine (Eq.trans ?_ (consume_in_chunks_nil _ _).symm).trans (congrArg (consume_in_chunks T _ · _) hnil.symm)
      rfl
    · refine .prefilling ⟨hfresh, decide_eq_false hrows, Nat.pos_of_ne_zero hrows, ?_⟩
      rfl
  · obtain ⟨state, hprefill, hrun⟩ := bind_eq_ok.mp hrun
    obtain rfl := Except.ok.inj hrun
    refine ⟨.alone (.prompted ⟨⟨h, rfl, rfl, rfl, rfl, rfl, rfl, rfl, rfl⟩, rfl, ?_⟩), rfl⟩
    have hwhole := prefill_prompt_eq hpos hmax
      (show prompt_tokens.length - 1 ≤ 0 + (prompt_tokens.length - 1) by omega) T.make_state
    exact Except.ok.inj (hprefill.symm.trans hwhole)

theorem finish_begun (tokens : List Token) (state : ModelDecodeState T) :
    (T.finish (T.begun tokens) tokens state).2 = (T.prefill [tokens] state).2 := by
  simp [Target.finish, Target.prefill, Target.begun]

/-- A chunk is begun where none waits. -/
theorem Prefilling.begin_pending (h : Prefilling session)
    (hrun : engine.begin_pending_prefill session = .ok session') :
    Prefilling session' ∧ session'.pending_prefill.isSome = true := by
  have hstate := h.state
  rw [begin_pending_prefill] at hrun
  split at hrun
  · next chunk hpending =>
    obtain rfl := Except.ok.inj hrun
    exact ⟨h, Option.isSome_of_eq_some hpending⟩
  · next hpending =>
    rw [hpending] at hstate
    obtain ⟨chunk, hbegin, hrun⟩ := bind_eq_ok.mp hrun
    obtain rfl := Except.ok.inj hrun
    have hpos := request_prefill_chunk_pos engine (session.prompt_tokens.length - 1)
    have hmax := request_prefill_chunk_le engine (session.prompt_tokens.length - 1)
    rw [← h.prefill_chunk_rows] at hpos hmax
    have hne := drop_prompt_ne_nil h.prefill_offset
    have hfits := fitsChunk_take hpos hmax hne
    rw [h.prefill_rows, take_drop_prompt, Target.begin_prefill_chunk_batch_eq hfits] at hbegin
    obtain rfl := Except.ok.inj hbegin
    refine ⟨⟨⟨h.takes, h.tokens, h.finish_reason, h.random, h.current, h.text, h.active,
      h.prefill_rows, h.prefill_chunk_rows⟩, h.ready, h.prefill_offset, ?_⟩, rfl⟩
    refine ⟨rfl, Target.resumable_begun hfits.1, ?_⟩
    rw [finish_begun, ← List.drop_drop, ← consume_in_chunks_step hpos hne]
    exact hstate

/-- **A piece of the prompt**, between two shared steps. It takes the next tokens and no others, so
that the pieces come to the prompt in the end, wherever they were cut. -/
theorem Prefilling.advance (h : Prefilling session)
    (hrun : engine.advance_pending_prefill session = .ok session') :
    Apart engine session' ∧ session'.active = true := by
  obtain ⟨begun, hbegin, hrun⟩ := bind_eq_ok.mp hrun
  obtain ⟨h, hsome⟩ := h.begin_pending hbegin
  clear hbegin
  obtain ⟨chunk, hpending⟩ := Option.isSome_iff_exists.mp hsome
  have hstate := h.state
  rw [hpending] at hstate hrun
  obtain ⟨hcurrent, hresume, hrest⟩ := hstate
  have hrows := h.prefill_rows
  have hoffset := h.prefill_offset
  dsimp only at hrun
  rw [hcurrent, hrows, take_drop_prompt] at hrun
  obtain ⟨⟨chunk_done, chunk', state'⟩, hadvance, hrun⟩ := bind_eq_ok.mp hrun
  obtain rfl := Except.ok.inj hrun
  obtain ⟨chunk₁, state₁, ⟨hadvance', hfinish⟩ | ⟨hadvance', hresume', -, hfinish⟩⟩ :=
    Target.advance_prefill_chunk_batch_spec hresume begun.state
  -- the chunk is finished: it was the last one, or the next one begins
  · cases hadvance.symm.trans hadvance'
    rw [← congrArg Prod.snd hfinish] at hrest
    simp only [↓reduceIte]
    refine ⟨?_, h.active⟩
    by_cases hlast : begun.prompt_tokens.length - 1 - begun.prefill_offset ≤ begun.prefill_chunk_rows
    · rw [drop_prompt_eq_nil (by omega), consume_in_chunks_nil] at hrest
      refine .alone (.prompted ⟨⟨h.takes, h.tokens, h.finish_reason, h.random, h.current, h.text,
        h.active, rfl, h.prefill_chunk_rows⟩, ?_, hrest⟩)
      refine decide_eq_true ?_
      omega
    · refine .prefilling ⟨⟨h.takes, h.tokens, h.finish_reason, h.random, h.current, h.text, h.active,
        rfl, h.prefill_chunk_rows⟩, ?_, ?_, ?_⟩
      · refine decide_eq_false ?_
        omega
      · dsimp only
        omega
      · dsimp only
        rw [Nat.min_eq_left (by omega)]
        exact hrest
  -- the chunk goes on at a later layer
  · cases hadvance.symm.trans hadvance'
    simp only [Bool.false_eq_true, ↓reduceIte]
    refine ⟨.prefilling ⟨⟨h.takes, h.tokens, h.finish_reason, h.random, h.current, h.text, h.active,
      rfl, h.prefill_chunk_rows⟩, ?_, hoffset, ?_⟩, h.active⟩
    · refine decide_eq_false ?_
      omega
    · refine ⟨rfl, hresume', ?_⟩
      rw [congrArg Prod.snd hfinish]
      exact hrest

/-! ### The shared step -/

/-- A session behind the shared step, with its logits. -/
def Halfway (engine : NativeEngine T) (logits : T.Logits) (session : Session engine) : Prop :=
  ∃ before : Session engine, Alone engine before ∧ before.active = true ∧
    logits = (T.forward_decode_capture before.current before.state).1.logits ∧
      session = { before with state := (T.forward_decode_capture before.current before.state).2 }

theorem Halfway.take_row {logits : T.Logits} (h : Halfway engine logits session) :
    Alone engine (engine.take_row logits session) := by
  obtain ⟨before, halone, hactive, rfl, rfl⟩ := h
  exact .step halone hactive

/-- The shared step of a session that is ready. -/
def stepped (session : Session engine) : Session engine :=
  if session.ready then
    { session with state := (T.forward_decode_capture session.current session.state).2 }
  else session

/-- The logits of a session that is ready. -/
def logits_of (session : Session engine) : T.Logits :=
  (T.forward_decode_capture session.current session.state).1.logits

/-- The sessions that are ready, with their slots. -/
def ready_slots (first : Nat) (sessions : List (Session engine)) : List (Session engine × Nat) :=
  (sessions.zipIdx first).filter fun item => item.1.ready

theorem ready_slots_cons (first : Nat) (session : Session engine) (sessions : List (Session engine)) :
    ready_slots first (session :: sessions) =
      (if session.ready then [(session, first)] else []) ++ ready_slots (first + 1) sessions := by
  rw [ready_slots, List.zipIdx_cons, List.filter_cons]
  split <;> rfl

theorem ready_slots_sessions (first : Nat) (sessions : List (Session engine)) :
    (ready_slots first sessions).map Prod.fst = sessions.filter fun session => session.ready := by
  induction sessions generalizing first with
  | nil => rfl
  | cons session sessions ih =>
    rw [ready_slots_cons, List.map_append, ih, List.filter_cons]
    split <;> rfl

theorem decode_rows_eq (sessions : List (Session engine)) :
    engine.decode_rows sessions = (ready_slots 0 sessions).map Prod.snd := by
  have hall : ∀ item ∈ sessions.zipIdx, (sessions[item.2]?).any (fun s => s.ready) = item.1.ready := by
    rintro ⟨session, slot⟩ hitem
    rw [List.mem_zipIdx_iff_getElem?.mp hitem]
    rfl
  rw [decode_rows, ready_slots, ← List.filter_congr hall, List.range_eq_range', ← List.zipIdx_map_snd,
    List.filter_map]
  rfl

theorem modify_length_append {α : Type*} (front : List α) (a : α) (back : List α) (f : α → α) :
    (front ++ a :: back).modify front.length f = front ++ f a :: back := by
  induction front with
  | nil => rfl
  | cons b front ih => exact congrArg (b :: ·) ih

/-- The states of the ready sessions, put back at their slots. -/
theorem put_states_eq (front sessions : List (Session engine)) :
    engine.put_states ((ready_slots front.length sessions).map fun item =>
        (item.2, (T.forward_decode_capture item.1.current item.1.state).2)) (front ++ sessions) =
      front ++ sessions.map stepped := by
  induction sessions generalizing front with
  | nil => rfl
  | cons session sessions ih =>
    have hnext : ∀ session' : Session engine, engine.put_states
        ((ready_slots (front.length + 1) sessions).map fun item =>
          (item.2, (T.forward_decode_capture item.1.current item.1.state).2))
        (front ++ session' :: sessions) = front ++ session' :: sessions.map stepped := by
      intro session'
      have hfront := ih (front ++ [session'])
      rwa [List.length_append, List.length_singleton, List.append_assoc, List.append_assoc,
        List.singleton_append, List.singleton_append] at hfront
    rw [ready_slots_cons, List.map_cons, stepped]
    split
    · rw [List.singleton_append, List.map_cons, put_states, modify_length_append]
      exact hnext _
    · exact hnext _

/-- **The shared step is a step of each session that is ready.** The sessions that have ended, or
are still at their prompts, are left as they are. -/
theorem step_sessions_eq (hT : T.DecodesApart) {sessions sessions' : List (Session engine)}
    {pending : List (Nat × T.Logits)} (h : engine.step_sessions sessions = .ok (sessions', pending)) :
    sessions' = sessions.map stepped ∧
      pending = (ready_slots 0 sessions).map fun item => (item.2, logits_of item.1) := by
  have hput := put_states_eq [] sessions
  rw [List.nil_append, List.nil_append, List.length_nil] at hput
  rw [step_sessions, decode_rows_eq, ← ready_slots_sessions 0 sessions] at h
  split at h
  · next hnone =>
    obtain ⟨rfl, rfl⟩ := Prod.mk.inj (Except.ok.inj h)
    rw [List.map_eq_nil_iff] at hnone
    rw [hnone] at hput ⊢
    exact ⟨hput, rfl⟩
  · obtain ⟨steps, hsteps, h⟩ := bind_eq_ok.mp h
    obtain ⟨rfl, rfl⟩ := Prod.mk.inj (Except.ok.inj h)
    obtain rfl := Target.forward_decode_capture_multi_eq hT hsteps
    rw [List.map_map, List.map_map, List.zipWith_map, List.zipWith_self, List.map_map, List.map_map,
      List.zip_map', List.zip_map']
    exact ⟨hput, rfl⟩

theorem take_row_ready (logits : T.Logits) (session : Session engine) :
    (engine.take_row logits session).ready = session.ready := by
  rw [take_row, take_token]
  split
  · rfl
  · dsimp only
    split <;> rfl

theorem Alone.ready (h : Alone engine session) : session.ready = true := by
  induction h with
  | prompted h => exact h.ready
  | step _ _ ih => exact (take_row_ready _ _).trans ih

theorem Apart.of_not_ready (h : Apart engine session) (hready : session.ready = false) :
    Prefilling session := by
  cases h with
  | prefilling h => exact h
  | alone h => cases hready.symm.trans h.ready

theorem Apart.of_ready (h : Apart engine session) (hready : session.ready = true) :
    Alone engine session := by
  cases h with
  | prefilling h => cases hready.symm.trans h.ready
  | alone h => exact h

theorem mem_ready_slots {sessions : List (Session engine)} {slot : Nat} :
    (session, slot) ∈ ready_slots 0 sessions ↔ sessions[slot]? = some session ∧ session.ready = true := by
  rw [ready_slots, List.mem_filter, List.mem_zipIdx_iff_getElem?]

theorem nodup_ready_slots (sessions : List (Session engine)) :
    ((ready_slots 0 sessions).map Prod.snd).Nodup := by
  have hsub : ((ready_slots 0 sessions).map Prod.snd).Sublist (sessions.zipIdx.map Prod.snd) :=
    List.filter_sublist.map _
  rw [List.zipIdx_map_snd] at hsub
  exact hsub.nodup (List.nodup_range' ..)

/-- The requests of a group that is run together. -/
theorem takes_of_admit_group {group : List BoundRequest} {tokenized : List (BoundRequest × List Token)}
    {limit : Nat} (h : engine.admit_group group = .ok (.together tokenized limit)) :
    ∀ item ∈ tokenized, engine.Takes item.1 item.2 := by
  have hbudget : ∀ bound ∈ group, bound.request.sampling.thinking_budget_tokens = 0 := by
    obtain ⟨_, -, h⟩ := bind_eq_ok.mp h
    split at h
    · cases h
    next hnone =>
      intro bound hbound
      by_contra hbudget
      exact hnone (Or.inr (List.any_eq_true.mpr ⟨bound, hbound, decide_eq_true hbudget⟩))
  obtain ⟨total, htokenized, -⟩ := admit_group_together h
  obtain ⟨hfst, -, hchecks⟩ := tokenize_group_spec (by decide) htokenized
  obtain rfl : tokenized = _ := hfst
  intro item hitem
  obtain ⟨bound, hbound, rfl⟩ := List.mem_map.mp hitem
  obtain ⟨_, hcheck⟩ := hchecks bound hbound
  obtain ⟨rfl, -⟩ := check_batched_eq_ok hcheck
  exact ⟨validate_of_check_batched hcheck, hbudget bound hbound⟩

end NativeEngine

/-! ### The executor -/

namespace Executor

open NativeEngine (Apart Halfway)

variable {engine : NativeEngine T} {x y : Executor engine}

/-- The sessions behind the shared step; those with a row of logits are halfway. -/
structure RowsApart (sessions : List (Session engine)) (pending : List (Nat × T.Logits)) : Prop where
  nodup : (pending.map Prod.fst).Nodup
  halfway : ∀ {slot logits session}, (slot, logits) ∈ pending → sessions[slot]? = some session →
    Halfway engine logits session
  apart : ∀ {slot session}, slot ∉ pending.map Prod.fst → sessions[slot]? = some session →
    Apart engine session

/-- All sessions go on. -/
def GoOn (sessions : List (Session engine)) : Prop :=
  ∀ session ∈ sessions, Apart engine session ∧ session.active = true

theorem GoOn.append {sessions : List (Session engine)} {session : Session engine}
    (h : GoOn sessions) (hsession : Apart engine session ∧ session.active = true) :
    GoOn (sessions ++ [session]) := by
  intro other hother
  rcases List.mem_append.mp hother with hold | hnew
  · exact h other hold
  · rw [List.mem_singleton.mp hnew]
    exact hsession

/-- **The shared step.** -/
theorem GoOn.rows (hT : T.DecodesApart) {sessions sessions' : List (Session engine)}
    {pending : List (Nat × T.Logits)} (h : GoOn sessions) (hstep : engine.step_sessions sessions = .ok (sessions', pending)) :
    RowsApart sessions' pending := by
  obtain ⟨rfl, rfl⟩ := NativeEngine.step_sessions_eq hT hstep
  constructor
  · rw [List.map_map]
    exact NativeEngine.nodup_ready_slots sessions
  · intro slot logits session hpending hsession
    obtain ⟨⟨before, slot'⟩, hitem, heq⟩ := List.mem_map.mp hpending
    obtain ⟨rfl, rfl⟩ := Prod.mk.inj heq
    obtain ⟨hbefore, hready⟩ := NativeEngine.mem_ready_slots.mp hitem
    obtain ⟨hapart, hactive⟩ := h before (List.mem_of_getElem? hbefore)
    rw [List.getElem?_map, hbefore, Option.map_some, NativeEngine.stepped, if_pos hready] at hsession
    exact ⟨before, hapart.of_ready hready, hactive, rfl, (Option.some.inj hsession).symm⟩
  · intro slot session hslot hsession
    rw [List.getElem?_map] at hsession
    obtain ⟨before, hbefore, rfl⟩ := Option.map_eq_some_iff.mp hsession
    have hready : ¬before.ready = true := fun hready => hslot (List.mem_map.mpr
      ⟨_, List.mem_map.mpr ⟨_, NativeEngine.mem_ready_slots.mpr ⟨hbefore, hready⟩, rfl⟩, rfl⟩)
    rw [NativeEngine.stepped, if_neg hready]
    exact (h before (List.mem_of_getElem? hbefore)).1

/-- **One row.** -/
theorem RowsApart.take_row {sessions : List (Session engine)} {slot : Nat} {logits : T.Logits}
    {pending : List (Nat × T.Logits)} (h : RowsApart sessions ((slot, logits) :: pending)) :
    RowsApart (sessions.modify slot (engine.take_row logits)) pending := by
  have hnodup := h.nodup
  rw [List.map_cons, List.nodup_cons] at hnodup
  refine ⟨hnodup.2, ?_, ?_⟩
  · intro slot' logits' session hpending hsession
    have hne : slot ≠ slot' := by
      rintro rfl
      exact hnodup.1 (List.mem_map.mpr ⟨_, hpending, rfl⟩)
    rw [List.getElem?_modify_ne _ _ hne] at hsession
    exact h.halfway (List.mem_cons_of_mem _ hpending) hsession
  · intro slot' session hslot hsession
    by_cases heq : slot = slot'
    · subst heq
      rw [List.getElem?_modify_eq] at hsession
      obtain ⟨before, hbefore, rfl⟩ := Option.map_eq_some_iff.mp hsession
      exact .alone (h.halfway List.mem_cons_self hbefore).take_row
    · rw [List.getElem?_modify_ne _ _ heq] at hsession
      refine h.apart ?_ hsession
      rw [List.map_cons, List.mem_cons, not_or]
      exact ⟨fun h => heq h.symm, hslot⟩

/-- **Every session of the batch is what it would be alone.** -/
def WorkerApart : Worker engine → Prop
  | .initializing _ loop pending =>
    GoOn loop.sessions ∧ ∀ item ∈ pending, engine.Takes item.1 item.2
  | .running _ loop (.rows pending) => RowsApart loop.sessions pending
  | .running _ loop (.collect _) => ∀ session ∈ loop.sessions, Apart engine session
  | .running _ loop .decode => GoOn loop.sessions
  | .running _ loop .refill => GoOn loop.sessions
  | .running _ loop .prefill => GoOn loop.sessions
  | _ => True

theorem apart_step (hT : T.DecodesApart) {leak : Option Leak} (h : WorkerApart x.worker) (hstep : Step engine leak x y) :
    WorkerApart y.worker := by
  cases hstep with
  | enqueue | stop => exact h
  | enter_group hcheck =>
    exact ⟨fun _ hnone => absurd hnone List.not_mem_nil, NativeEngine.takes_of_admit_group hcheck⟩
  | begin_session hsession =>
    obtain ⟨hsessions, hpending⟩ := h
    have htakes := hpending _ List.mem_cons_self
    exact ⟨hsessions.append (NativeEngine.apart_of_initialize htakes hsession),
      fun item hitem => hpending item (List.mem_cons_of_mem _ hitem)⟩
  | begin_session_fails => exact ⟨h.1, fun item hitem => h.2 item (List.mem_cons_of_mem _ hitem)⟩
  | sessions_begun => exact h.1
  | decode hsome hsessions => exact GoOn.rows hT h hsessions
  | take_row => exact RowsApart.take_row h
  | rows_done =>
    intro session hsession
    obtain ⟨slot, hslot⟩ := List.getElem?_of_mem hsession
    exact RowsApart.apart h List.not_mem_nil hslot
  | collect_active | collect_finished => exact h
  | collect_done =>
    intro session hsession
    obtain ⟨hmem, hactive⟩ := List.mem_filter.mp hsession
    exact ⟨h session hmem, hactive⟩
  | refill_stop | refill_refused | refill_deferred | refill_fails => exact h
  | refill_admitted hroom hgroup hcheck hfits hsession =>
    have hbudget := fun hbudget => hfits (Or.inl hbudget)
    exact GoOn.append h (NativeEngine.apart_of_initialize
      ⟨NativeEngine.validate_of_check_batched hcheck, not_not.mp hbudget⟩ hsession)
  | prefill_none => exact h
  | @prefill_some _ loop slot _ _ _ session session' hslot hsession hadvance =>
    -- a session that is still at its prompt is the one that the slot was searched for
    have hready : session.ready = false := by
      obtain ⟨hlt, hwaits, -⟩ := List.findIdx?_eq_some_iff_getElem.mp hslot
      obtain ⟨-, rfl⟩ := List.getElem?_eq_some_iff.mp hsession
      rw [Bool.and_eq_true, Bool.not_eq_true'] at hwaits
      exact hwaits.2
    have hapart := (h session (List.mem_of_getElem? hsession)).1
    have hnext := (hapart.of_not_ready hready).advance hadvance
    intro other hother
    rcases List.mem_or_eq_of_mem_set hother with hold | rfl
    · exact h other hold
    · exact hnext
  | prefill_fails => exact fun other hother => h other ((List.eraseIdx_sublist _ _).subset hother)
  | _ => trivial

/-- **Wherever the executor has come to**, every session of its batch is what it would be alone. The
steps that they share are steps of each of them, and no step of one changes another. -/
theorem apart_of_reaches (hT : T.DecodesApart) {Allowed : Executor engine → Option Leak → Prop}
    (h : Reaches engine Allowed x) : WorkerApart x.worker := by
  induction h with
  | start => trivial
  | step _ _ hstep ih => exact apart_step hT ih hstep

end Executor

end Qwen38
