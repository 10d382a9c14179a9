import Qwen38.Engine.Emission
import Qwen38.Engine.WholeRuns

/-!
# Requests one after the other

An engine starts with nothing cached and takes requests in turn; each of them finds what the ones
before it have left (`Qwen38.NativeEngine.Served`). As long as the store keeps its entries apart,
the cache then holds only what it says (`Qwen38.NativeEngine.consistent_of_served`), and a greedy
request is answered with plain generation from its prompt (`Qwen38.NativeEngine.served_greedy`),
whatever was resumed, drafted, handed to the native backend or evicted on the way.
-/

namespace Qwen38

open Except (bind_eq_ok)

variable {T : Target}

namespace NativeEngine

variable {engine : NativeEngine T} {backend : engine.persistent_backend.Faithful}
  {request : BatchRequest} {proposals : Nat → Proposal} {s s' : DecodeState engine}
  {prompt_tokens cut : List Token} {keeps : engine.ssd_prefix_cache.Keeps} {st : EngineState engine}

/-! ### The start of the way -/

/-- Anchor tokens do not go together with a companion. -/
def Unanchored (engine : NativeEngine T) (request : BatchRequest) : Prop :=
  engine.mtp_head = none ∨ engine.anchor_tokens request = .ok 0

theorem Greedy.unanchored (h : engine.Greedy request) : engine.Unanchored request :=
  Or.inr h.anchor_tokens

/-- **The way begins** with the prompt: nothing has been said, nothing is pending, and the companion
has seen every row there is. -/
theorem Started.way {prefilled : Prefilled T} (hunanchored : engine.Unanchored request)
    (hconsumed : engine.Consumed prefilled prompt_tokens.dropLast)
    (h : Started backend request prompt_tokens prefilled s) :
    Way backend request prompt_tokens s [] := by
  have hnothing : prompt_tokens ++ s.tokens ++ [] = prompt_tokens := by
    rw [h.tokens, List.append_nil, List.append_nil]
  refine ⟨h.on_track, fun hactive => (h.persistent_active hactive).1, fun hhead => ?_,
    fun hhead _ => ?_, fun hgreedy => ⟨?_, ?_, h.forced_tokens, ?_⟩⟩
  · have hzero := hunanchored.resolve_left hhead
    exact Except.ok.inj (h.persistent_anchor_remaining.symm.trans hzero)
  · rw [hnothing, h.mtp_state, hconsumed.mtp_state hhead, h.pending_mtp_streams, h.pending_mtp_tokens]
    exact pendingAfter_nil _
  · rw [h.tokens]
    exact trivial
  · rw [h.tokens]
    exact fun token htoken => absurd htoken List.not_mem_nil
  · exact Except.ok.inj (h.persistent_anchor_remaining.symm.trans hgreedy.anchor_tokens)

/-! ### What goes into the cache -/

theorem consistent_note_profitability {cache : PromptCache engine} (h : cache.Consistent keeps) :
    (engine.note_profitability prompt_tokens s cache).Consistent keeps := by
  rw [note_profitability]
  split
  · exact h
  · next entry hentry =>
    split
    · obtain ⟨hne, hstate, hprevious, hmtp⟩ := h.engine_state.prefix_cache entry hentry
      refine ⟨⟨fun entry' hsome => ?_, h.engine_state.disk⟩, h.unsaved⟩
      obtain rfl := Option.some.inj hsome
      exact ⟨hne, hstate, hprevious, hmtp⟩
    · exact h

theorem Spoken.consumed_ne_nil (hprompt : prompt_tokens ≠ [])
    (h : Spoken backend request prompt_tokens s cut) :
    (prompt_tokens ++ s.tokens ++ cut).dropLast ≠ [] := by
  have hpos := List.length_pos_of_ne_nil hprompt
  have hsaid := List.length_pos_of_ne_nil h.ne_nil
  rw [List.length_append] at hsaid
  refine List.ne_nil_of_length_pos ?_
  rw [List.length_dropLast, List.length_append, List.length_append]
  omega

/-- **The final export** gives the state of the tokens, or leaves no stream. -/
theorem Spoken.export_for_cache (hprompt : prompt_tokens ≠ [])
    (h : Spoken backend request prompt_tokens s cut) {previous : T.Stream}
    (hprevious : (engine.export_for_cache s).previous_target_stream = some previous) :
    (engine.export_for_cache s).state = T.after (prompt_tokens ++ s.tokens ++ cut).dropLast ∧
      previous = T.stream (prompt_tokens ++ s.tokens ++ cut).dropLast := by
  rw [NativeEngine.export_for_cache] at hprevious ⊢
  split
  · next hexport =>
    rw [if_pos hexport] at hprevious
    obtain ⟨-, hholds⟩ := h.live.native hexport.1
    split at hholds
    · exact absurd hholds (h.consumed_ne_nil hprompt)
    · obtain ⟨hstate, hstream⟩ := backend.export_state hholds.2
      exact ⟨hstate, (Option.some.inj hprevious).symm.trans hstream⟩
  · next hstay =>
    rw [if_neg hstay] at hprevious
    obtain ⟨-, hstate, hstream, -⟩ := h.live.of_previous hprevious
    exact ⟨hstate, hstream⟩

theorem export_for_cache_same (s : DecodeState engine) :
    SameRequest s (engine.export_for_cache s) ∧ SameMtp s (engine.export_for_cache s) := by
  rw [NativeEngine.export_for_cache]
  split <;> exact ⟨⟨⟨rfl, rfl, rfl, rfl⟩, rfl, rfl⟩, ⟨rfl, rfl, rfl, rfl, rfl⟩⟩

/-- Where the target matches the output, what it consumed is the beginning of the output. -/
theorem Spoken.take_token_count (h : Spoken backend request prompt_tokens s cut) {n : Nat}
    (hn : n = (prompt_tokens ++ s.tokens ++ cut).dropLast.length)
    (hmatches : s.stopped_on_terminator = false → n + 1 = prompt_tokens.length + s.tokens.length) :
    (prompt_tokens ++ s.tokens).take n = (prompt_tokens ++ s.tokens ++ cut).dropLast := by
  rcases h.stop with ⟨-, -, -, token, rfl, -⟩ | ⟨hterminator, -, -⟩
  · rw [List.dropLast_concat] at hn ⊢
    rw [hn, List.take_length]
  · have hcount := hmatches hterminator
    have hnil : cut = [] := by
      refine List.eq_nil_of_length_eq_zero ?_
      rw [List.length_dropLast, List.length_append, List.length_append] at hn
      omega
    subst hnil
    rw [List.append_nil] at hn ⊢
    rw [hn, List.length_dropLast, List.dropLast_eq_take]

/-- **What a request leaves in the cache it has consumed.** The entry has the prompt and what was
said, but for a last token that was said and not consumed, with the state that belongs to these. -/
theorem consistent_extend_cache (hprompt : prompt_tokens ≠ [])
    (h : Spoken backend request prompt_tokens s cut) {cache : PromptCache engine}
    (hcache : cache.Consistent keeps) :
    (engine.extend_cache prompt_tokens (engine.export_for_cache s) cache).Consistent keeps := by
  obtain ⟨hsame, hmtp⟩ := export_for_cache_same s
  rw [extend_cache]
  split
  · exact hcache
  · next previous hprevious =>
    obtain ⟨hstate, rfl⟩ := h.export_for_cache hprompt hprevious
    have hcount : (engine.export_for_cache s).state.token_count =
        (prompt_tokens ++ s.tokens ++ cut).dropLast.length := by
      rw [hstate, Target.token_count_after]
    simp only
    split
    -- the entry is only extended where the state belongs to what was said
    · next hextend =>
      obtain ⟨-, -, htarget, hcompanion, -⟩ := hextend
      have htokens : (prompt_tokens ++ (engine.export_for_cache s).tokens).take
          (engine.export_for_cache s).state.token_count =
            (prompt_tokens ++ s.tokens ++ cut).dropLast := by
        rw [hsame.tokens]
        refine h.take_token_count hcount fun hterminator => ?_
        rw [target_matches_output, hsame.stopped_on_terminator, hterminator, hsame.tokens] at htarget
        exact of_decide_eq_true htarget
      refine ⟨⟨fun entry hsome => ?_, hcache.engine_state.disk⟩, hcache.unsaved⟩
      obtain rfl := Option.some.inj hsome
      -- the companion has consumed the same rows, but for the pending ones
      refine ⟨?_, ?_, ?_, fun hhead => ?_⟩ <;> dsimp only <;> rw [htokens]
      · exact h.consumed_ne_nil hprompt
      · exact hstate
      · rw [if_pos hhead, hmtp.mtp_state, hmtp.pending_mtp_streams, hmtp.pending_mtp_tokens]
        refine h.in_step hhead ?_
        have hsome : engine.mtp_head.isNone = false := by
          rw [Option.isSome_iff_ne_none] at hhead
          exact Option.isNone_eq_false_iff.mpr (Option.isSome_iff_ne_none.mpr hhead)
        rw [mtp_matches_output, hmtp.mtp_cache_extendable, hsome, Bool.false_or,
          Bool.and_eq_true] at hcompanion
        exact hcompanion.1
    · exact hcache

/-! ### A request -/

/-- What a request leaves, and what it says. -/
structure Answers (backend : engine.persistent_backend.Faithful) (request : BatchRequest)
    (prompt_tokens : List Token) (result : GenerationResult) (s : DecodeState engine)
    (cut : List Token) : Prop where
  spoken : Spoken backend request prompt_tokens s cut
  ended : s.finish_reason = .length ∧ s.tokens.length = request.max_tokens ∨
    s.finish_reason = .stop ∨ s.finish_reason = .cancelled
  tokens : result.tokens = s.tokens
  finish_reason : result.finish_reason = s.finish_reason ∨ result.finish_reason = .cancelled

theorem validate_ok (h : engine.validate request = .ok prompt_tokens) :
    prompt_tokens ≠ [] ∧ request.max_tokens ≠ 0 := by
  obtain ⟨_, hmax, h⟩ := bind_eq_ok.mp h
  obtain ⟨-, -, h⟩ := bind_eq_ok.mp h
  obtain ⟨_, hprompt, h⟩ := bind_eq_ok.mp h
  obtain ⟨-, -, h⟩ := bind_eq_ok.mp h
  obtain rfl := Except.ok.inj h
  exact ⟨Except.throw_if_eq_ok.mp hprompt, fun hzero => Except.throw_if_eq_ok.mp hmax (Or.inl hzero)⟩

/-- The end of a request. -/
theorem finish_ok {prefilled : Prefilled T} {cache : PromptCache engine} (hprompt : prompt_tokens ≠ [])
    (h : Spoken backend request prompt_tokens s cut)
    (hended : s.finish_reason = .length ∧ s.tokens.length = request.max_tokens ∨
      s.finish_reason = .stop ∨ s.finish_reason = .cancelled)
    (hcache : cache.Consistent keeps) :
    (engine.finish request prompt_tokens prefilled s cache).2.Consistent keeps ∧
      Answers backend request prompt_tokens (engine.finish request prompt_tokens prefilled s cache).1 s
        cut := by
  obtain ⟨hsame, -⟩ := export_for_cache_same s
  refine ⟨?_, h, hended, hsame.tokens, ?_⟩
  · exact consistent_persist_caches
      (consistent_extend_cache hprompt h (consistent_note_profitability hcache))
  · rw [finish]
    dsimp only
    split
    · exact Or.inr rfl
    · exact Or.inl hsame.finish_reason

variable (proposals) in
/-- **A request with a consistent cache** leaves a consistent cache, also where it throws; and where
it returns, its result is what a loop behind the prompt has said. -/
theorem complete_impl_ok (hT : T.RowWise) (backend : engine.persistent_backend.Faithful)
    (hst : st.Consistent keeps) (hunanchored : engine.Unanchored request)
    (persistent : engine.persistent_backend.State) :
    (engine.complete_impl request proposals persistent st).2.Consistent keeps ∧
      ∀ result, (engine.complete_impl request proposals persistent st).1 = .ok result →
        ∃ prompt_tokens s cut, engine.validate request = .ok prompt_tokens ∧
          Answers backend request prompt_tokens result s cut := by
  rw [complete_impl]
  split
  · refine ⟨hst, fun result hresult => ?_⟩
    cases hresult
  · next prompt_tokens hvalid =>
    obtain ⟨hprompt, hmax⟩ := validate_ok hvalid
    have hbegin := @begin_request_spec _ _ _ _ prompt_tokens request hT hst persistent
    rcases hfirst : engine.begin_request request persistent prompt_tokens st with
      ⟨e | ⟨prefilled, s, cache⟩, st'⟩
    · rw [hfirst] at hbegin
      refine ⟨hbegin.1, fun result hresult => ?_⟩
      cases hresult
    · rw [hfirst] at hbegin
      obtain ⟨⟨hconsumed, hstart, hcache⟩, -⟩ := hbegin.2 _ rfl
      have hway := (@start_decode_ok _ _ backend _ _ _ _ _ hconsumed hstart).way hunanchored hconsumed
      dsimp only
      split
      · refine ⟨hbegin.1, fun result hresult => ?_⟩
        cases hresult
      · next s' hloop =>
        -- the loop has returned, so the request is finished and its entry extended
        obtain ⟨cut, hspoken, hended⟩ := decode_loop_ok hT hprompt hmax hway hloop
        obtain ⟨hconsistent, hanswers⟩ := finish_ok hprompt hspoken hended hcache
        refine ⟨hconsistent, fun result hresult => ?_⟩
        obtain rfl := Except.ok.inj hresult
        exact ⟨prompt_tokens, s', cut, hvalid, hanswers⟩

/-! ### Requests in turn -/

/-- What an engine may have in its caches: nothing at first, and then what a request leaves. -/
inductive Served (engine : NativeEngine T) : EngineState engine → Prop
  | start : Served engine {}
  | complete {st : EngineState engine} (h : Served engine st) (request : BatchRequest)
      (hunanchored : engine.Unanchored request) (proposals : Nat → Proposal)
      (persistent : engine.persistent_backend.State) :
      Served engine (engine.complete_impl request proposals persistent st).2

variable (keeps) in
/-- **The caches hold only what they say.** By induction on the requests: a request starts with a
consistent cache, and what it stores, in memory or on disk, is its own tokens with the state of a
context that has consumed them. -/
theorem consistent_of_served (hT : T.RowWise) (backend : engine.persistent_backend.Faithful)
    (h : Served engine st) : st.Consistent keeps := by
  induction h with
  | start => exact consistent_empty
  | complete _ request hunanchored proposals persistent ih =>
    exact (complete_impl_ok proposals hT backend ih hunanchored persistent).1

/-- **A cached prefix is as good as its tokens.** What a request takes over, from memory or from a
store that keeps, is what it would have computed, and the prefill ends with the whole prompt
consumed. It fails to take over only where the lookup in the store throws. -/
theorem resume_of_served (keeps : engine.ssd_prefix_cache.Keeps) (hT : T.RowWise)
    (backend : engine.persistent_backend.Faithful) (h : Served engine st) (prompt_tokens : List Token) :
    (∀ resumed, (engine.resume prompt_tokens st).1 = .ok resumed →
      engine.Consumed resumed (prompt_tokens.dropLast.take resumed.prefill_offset) ∧
        ∀ prefilled, engine.prefill prompt_tokens resumed = .ok prefilled →
          engine.Consumed prefilled prompt_tokens.dropLast) ∧
    ∀ e, (engine.resume prompt_tokens st).1 = .error e → engine.ssd_enabled = true ∧
      (engine.ssd_prefix_cache.load_longest prompt_tokens.dropLast st.disk).1 = .error e := by
  obtain ⟨-, hresume⟩ := consumed_of_resume prompt_tokens (consistent_of_served keeps hT backend h)
  constructor
  · intro resumed hrun
    rw [hrun] at hresume
    split at hresume
    · cases hresume
    · obtain ⟨s, hs, hconsumed⟩ := hresume
      obtain rfl := Except.ok.inj hs
      exact ⟨hconsumed, fun _ hprefill => (consumed_of_prefill hT hconsumed hprefill).1⟩
  · intro e hrun
    rw [hrun] at hresume
    split at hresume
    · next e' hload =>
      obtain rfl := Except.error.inj hresume
      exact load_stored_error hload
    · obtain ⟨s, hs, -⟩ := hresume
      cases hs

/-- The answer is plain generation from the prompt: its tokens and its end, their text, and the
deltas of a stream to which they go one by one. A client that has refused a delta has a beginning of
it. -/
structure IsPlain (engine : NativeEngine T) (request : BatchRequest) (prompt_tokens : List Token)
    (result : GenerationResult) : Prop where
  tokens :
    let plain := Speculation.greedy T.next engine.is_stop_token prompt_tokens request.max_tokens
    (result.finish_reason = .stop ∧ plain = (result.tokens, true) ∨
        result.finish_reason = .length ∧ plain = (result.tokens, false)) ∨
      result.finish_reason = .cancelled ∧ result.tokens <+: plain.1
  text : result.text = engine.tokenizer.decode result.tokens
  deltas : result.deltas =
    ((TextStream.streamed engine.tokenizer request.on_delta result.tokens).flush
      request.on_delta).2.deltas

/-- **What a greedy request has said** is plain generation up to its own end. A client that refuses
a delta has been told a beginning of it. -/
theorem Answers.plain {result : GenerationResult} (hgreedy : engine.Greedy request)
    (h : Answers backend request prompt_tokens result s cut) :
    let plain := Speculation.greedy T.next engine.is_stop_token prompt_tokens request.max_tokens
    (result.finish_reason = .stop ∧ plain = (result.tokens, true) ∨
        result.finish_reason = .length ∧ plain = (result.tokens, false)) ∨
      result.finish_reason = .cancelled ∧ result.tokens <+: plain.1 := by
  obtain ⟨hspoken, hended, htokens, hreason⟩ := h
  obtain ⟨hfollows, hstops, -, -⟩ := hspoken.plain hgreedy
  obtain ⟨hshown, -⟩ := Speculation.follows_append.mp hfollows
  have hthrough := Speculation.greedy_follows hshown hstops hspoken.length_le
  have hbeginning : s.tokens <+: (Speculation.greedy T.next engine.is_stop_token prompt_tokens
      request.max_tokens).1 := by
    rw [hthrough]
    exact List.prefix_append _ _
  dsimp only
  rw [htokens]
  rcases hreason with heq | hcancelled
  · rw [heq]
    rcases hended with ⟨hlength, hfull⟩ | hstop | hcancelled
    · refine Or.inl (Or.inr ⟨hlength, ?_⟩)
      rw [hthrough, hfull, Nat.sub_self]
      exact Prod.ext (List.append_nil _) rfl
    · rcases hspoken.stop with ⟨-, -, hroom, token, rfl, htoken⟩ | ⟨-, hgo, -⟩
      · exact Or.inl (Or.inl ⟨hstop, Speculation.greedy_stop hfollows hstops htoken hroom⟩)
      · exact absurd hstop hgo
    · exact Or.inr ⟨hcancelled, hbeginning⟩
  · exact Or.inr ⟨hcancelled, hbeginning⟩

variable (proposals) in
/-- **Every greedy request is answered with plain generation**, whatever the requests before it have
left in memory and in a store that keeps, and whatever was drafted or handed to the native
backend. -/
theorem served_greedy (keeps : engine.ssd_prefix_cache.Keeps) (hT : T.RowWise)
    (backend : engine.persistent_backend.Faithful) (hserved : Served engine st)
    (hgreedy : engine.Greedy request) (persistent : engine.persistent_backend.State) {result : GenerationResult}
    (hrun : (engine.complete_impl request proposals persistent st).1 = .ok result) :
    ∃ prompt_tokens, engine.validate request = .ok prompt_tokens ∧
      engine.IsPlain request prompt_tokens result := by
  have hconsistent := consistent_of_served keeps hT backend hserved
  obtain ⟨-, hanswers⟩ :=
    complete_impl_ok proposals hT backend hconsistent hgreedy.unanchored persistent
  obtain ⟨prompt_tokens, s, cut, hvalid, hanswer⟩ := hanswers result hrun
  obtain ⟨stream, rfl, htext, hdeltas⟩ :=
    complete_impl_emits (TextStream.emits_streamed engine.tokenizer request.on_delta)
      (Prod.ext hrun rfl)
  exact ⟨prompt_tokens, hvalid, hanswer.plain hgreedy, htext, hdeltas⟩

/-! ### Two requests -/

/-- A model that counts on from its last token. -/
def counting_on : Target := consumed fun ctx => ctx.getLastD 0 + 1

/-- A native backend that remembers what it was fed. -/
def remembering_backend (next : List Token → Token) : PersistentBackend (consumed next) where
  State := List Token
  prepare_persistent_state := id
  import_state := fun state _ => .ok (state.layers.1.headD [])
  export_state := (consumed next).after
  export_stream := (consumed next).stream
  can_decode := fun _ => true
  greedy_decode := fun token reset tokens =>
    let tokens := (if reset then [] else tokens) ++ [token]
    .ok (⟨next tokens, next tokens⟩, tokens)

def faithful_remembering (next : List Token → Token) : (remembering_backend next).Faithful where
  Holds state tokens := state = tokens
  import_state := by
    intro tokens s s' h
    obtain rfl := Except.ok.inj h
    exact congrArg (fun layers : List (List Token) => layers.headD []) (layers_after_consumed next tokens)
  greedy_decode := by
    intro tokens s s' token r hs h
    have hne : tokens ++ [token] ≠ [] := List.append_ne_nil_of_right_ne_nil _ (List.cons_ne_nil _ _)
    obtain ⟨rfl, rfl⟩ := Prod.mk.inj (Except.ok.inj h)
    subst hs
    exact ⟨rfl, (next_consumed next hne).symm⟩
  greedy_decode_reset := by
    rintro s s' token r h
    obtain ⟨rfl, rfl⟩ := Prod.mk.inj (Except.ok.inj h)
    exact ⟨rfl, (next_consumed next (List.cons_ne_nil _ _)).symm⟩
  export_state := by
    rintro tokens s rfl
    exact ⟨rfl, rfl⟩

/-- What has been saved is what there is. -/
def keeps_keeping (T : Target) : (PrefixCacheStore.keeping T).Keeps where
  Holds := fun (disk : List (PrefixCacheEntry T)) entry => entry ∈ disk
  created _ := List.not_mem_nil
  load_longest := by
    rintro tokens (disk : List (PrefixCacheEntry T)) result disk' h
    obtain ⟨rfl, rfl⟩ := Prod.mk.inj h
    refine ⟨fun _ hmem => hmem, fun entry hfound => ?_⟩
    have hbest (rest : List (PrefixCacheEntry T)) (best : Option (PrefixCacheEntry T))
        (hrest : ∀ entry ∈ rest, entry ∈ disk) (hbest : ∀ entry, best = some entry → entry ∈ disk) :
        ∀ entry, rest.foldl (fun best entry =>
          if entry.tokens.isPrefixOf tokens ∧
              (best.elim 0 fun best => best.tokens.length) < entry.tokens.length then some entry
          else best) best = some entry → entry ∈ disk := by
      induction rest generalizing best with
      | nil => exact hbest
      | cons entry rest ih =>
        rw [List.foldl_cons]
        refine ih _ (fun other hother => hrest other (List.mem_cons_of_mem _ hother)) ?_
        intro other hother
        split at hother
        · obtain rfl := Option.some.inj hother
          exact hrest entry List.mem_cons_self
        · exact hbest other hother
    exact hbest disk none (fun _ hmem => hmem) (fun _ hsome => absurd hsome (Option.some_ne_none _).symm)
      entry (Except.ok.inj hfound)
  save := by
    rintro entry disk result disk' h entry' hmem
    obtain ⟨rfl, rfl⟩ := Prod.mk.inj h
    rcases List.mem_cons.mp hmem with rfl | hold
    · exact Or.inr ⟨_, rfl⟩
    · exact Or.inl hold

/-- It drafts with a companion, and caches what it generates, in a store. -/
def speculating_engine : NativeEngine counting_on where
  options := {
    max_generation_tokens_pos := default_generation_tokens_pos
    prefill_chunk_rows_pos := default_chunk_rows_pos
    prefill_chunk_rows_le := default_chunk_rows_le
    zero_accept_fallback_rounds_pos := default_fallback_rounds_pos }
  environment := { extend_prefix_cache := true }
  tokenizer := { encode := List.map UInt8.toNat, decode := List.map Nat.toUInt8 }
  sampler := { Random := Unit, seeded := fun _ => (), draw := fun _ _ _ _ => (0, ()) }
  mtp_head := some { forward_stream := fun rows => ((rows.getLastD ([], 0)).2 + 1, []) }
  persistent_backend := remembering_backend _
  ssd_enabled := true
  end_of_sequence_token := 12
  chat_end_token := 12
  max_context_tokens := 2 ^ 63 - 1

/-- A greedy request for a prompt of these tokens. -/
def counting_prompt (prompt : Bytes) (max_tokens : Nat) : BatchRequest where
  prompt
  max_tokens

def three_drafts (_ : Nat) : Proposal := .learned 3 (by decide)

/-- What the first request leaves: six tokens of the prompt of the second. -/
def after_first : EngineState speculating_engine :=
  (speculating_engine.complete_impl (counting_prompt [1, 2, 3] 4) three_drafts [] {}).2

theorem served_after_first : Served speculating_engine after_first :=
  .complete .start _ (Or.inr rfl) _ _

theorem served_greedy_resumed : ∃ prompt_tokens,
    speculating_engine.validate (counting_prompt [1, 2, 3, 4, 5, 6, 7, 8] 8) = .ok prompt_tokens ∧
      speculating_engine.IsPlain (counting_prompt [1, 2, 3, 4, 5, 6, 7, 8] 8) prompt_tokens {
        text := [9, 10, 11]
        tokens := [9, 10, 11]
        prompt_tokens := 8
        cached_prompt_tokens := 6
        finish_reason := .stop
        mtp_rounds := 1
        mtp_accepted := 3
        deltas := [] } :=
  served_greedy three_drafts (keeps_keeping _) (consumed_rowWise _) (faithful_remembering _)
    served_after_first ⟨rfl, rfl, rfl⟩ [] rfl

/-- What the first request has left in the store. -/
theorem resume_after_first :
    (speculating_engine.resume [1, 2, 3, 4, 5, 6, 7, 8] after_first).1.toOption.isSome = true ∧
      ∀ resumed, (speculating_engine.resume [1, 2, 3, 4, 5, 6, 7, 8] after_first).1 = .ok resumed →
        speculating_engine.Consumed resumed ([1, 2, 3, 4, 5, 6, 7].take resumed.prefill_offset) ∧
          ∀ prefilled, speculating_engine.prefill [1, 2, 3, 4, 5, 6, 7, 8] resumed = .ok prefilled →
            speculating_engine.Consumed prefilled [1, 2, 3, 4, 5, 6, 7] :=
  ⟨rfl, (resume_of_served (keeps_keeping _) (consumed_rowWise _) (faithful_remembering _)
    served_after_first [1, 2, 3, 4, 5, 6, 7, 8]).1⟩

end NativeEngine

end Qwen38
