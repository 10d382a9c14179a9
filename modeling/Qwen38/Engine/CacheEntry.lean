import Qwen38.Engine.LayerMajor

/-!
# What the cache holds

A cached entry is consistent when its target state has consumed its tokens, the stream at
hand is the one of the last of them, and the companion has been fed a beginning of them
whose remaining rows are pending, in order (`Qwen38.PrefixCacheEntry.Consistent`). To
resume from such an entry is to have consumed its tokens
(`Qwen38.NativeEngine.consumed_of_resume`), so a request that starts from a consistent
cache starts with the prompt consumed (`Qwen38.NativeEngine.begin_request_spec`), whatever
the cache had, and the cache is consistent after it. Of the persistent store only this
matters, that what it loads was saved (`Qwen38.PrefixCacheStore.Keeps`); it may refuse, evict
and throw as it likes.
-/

namespace Qwen38

open Except (throw_if_of_not)
open MtpDecodeState (rows_after)

variable {T : Target}

/-! ### Consistent entries -/

/-- The companion has been fed a beginning of these tokens; the rows of the others wait. -/
def PendingAfter (mtp_state : MtpDecodeState T) (pending_mtp_streams : List T.Stream)
    (pending_mtp_tokens tokens : List Token) : Prop :=
  ∃ fed, tokens = fed ++ pending_mtp_tokens ∧ mtp_state = MtpDecodeState.after T fed ∧
    pending_mtp_streams = (rows_after T fed pending_mtp_tokens).map Prod.fst ∧
      (pending_mtp_tokens ≠ [] → 2 ≤ fed.length)

/-- Nothing is pending. -/
theorem pendingAfter_nil (tokens : List Token) :
    PendingAfter (MtpDecodeState.after T tokens) [] [] tokens :=
  ⟨tokens, (List.append_nil _).symm, rfl, rfl, fun hne => absurd rfl hne⟩

/-- An entry that is what it says, for an engine with or without a companion. -/
structure PrefixCacheEntry.Consistent (companion : Bool) (entry : PrefixCacheEntry T) : Prop where
  tokens_ne_nil : entry.tokens ≠ []
  target_state : entry.target_state = T.after entry.tokens
  previous_target_stream : entry.previous_target_stream = some (T.stream entry.tokens)
  mtp_state : companion = true → PendingAfter entry.mtp_state entry.pending_mtp_streams
    entry.pending_mtp_tokens entry.tokens

/-- Whether the store has it makes no difference. -/
theorem PrefixCacheEntry.Consistent.ssd_backed {companion : Bool} {entry : PrefixCacheEntry T}
    (h : entry.Consistent companion) (saved : Bool) :
    PrefixCacheEntry.Consistent companion { entry with ssd_backed := saved } :=
  ⟨h.tokens_ne_nil, h.target_state, h.previous_target_stream, h.mtp_state⟩

/-- All entries are consistent. -/
structure EngineState.Consistent {engine : NativeEngine T} (keeps : engine.ssd_prefix_cache.Keeps)
    (st : EngineState engine) : Prop where
  prefix_cache : ∀ entry, st.prefix_cache = some entry → entry.Consistent engine.mtp_head.isSome
  disk : ∀ entry, keeps.Holds st.disk entry → entry.Consistent engine.mtp_head.isSome

/-- The caches on the way. -/
structure PromptCache.Consistent {engine : NativeEngine T} (keeps : engine.ssd_prefix_cache.Keeps)
    (cache : PromptCache engine) : Prop where
  engine_state : cache.engine_state.Consistent keeps
  unsaved : ∀ entry, cache.unsaved = some entry → entry.Consistent engine.mtp_head.isSome

namespace NativeEngine

variable {engine : NativeEngine T} {keeps : engine.ssd_prefix_cache.Keeps} {st st' : EngineState engine}

theorem consistent_empty : EngineState.Consistent keeps {} :=
  ⟨fun _ hsome => absurd hsome (Option.some_ne_none _).symm,
    fun entry hholds => absurd hholds (keeps.created entry)⟩

/-! ### The store -/

/-- **A lookup** keeps the cache consistent, also where it throws: the entry in memory is dropped
before the store is asked, and what the store has is only ever what was saved. -/
theorem consistent_load_stored (h : st.Consistent keeps) (prefill_tokens : List Token) :
    (engine.load_stored prefill_tokens st).2.Consistent keeps := by
  rw [load_stored]
  split
  · rcases hload : engine.ssd_prefix_cache.load_longest prefill_tokens st.disk with ⟨e | stored, disk⟩
    · exact ⟨fun _ hsome => absurd hsome (Option.some_ne_none _).symm,
        fun entry hholds => h.disk entry ((keeps.load_longest hload).1 entry hholds)⟩
    · refine ⟨fun entry hentry => ?_,
        fun entry hholds => h.disk entry ((keeps.load_longest hload).1 entry hholds)⟩
      obtain ⟨found, rfl, rfl⟩ := Option.map_eq_some_iff.mp hentry
      exact (h.disk found ((keeps.load_longest hload).2 found rfl)).ssd_backed true
  · exact h

/-- A lookup throws where that of the store does. -/
theorem load_stored_error {prefill_tokens : List Token} {e : String}
    (h : (engine.load_stored prefill_tokens st).1 = .error e) : engine.ssd_enabled = true ∧
      (engine.ssd_prefix_cache.load_longest prefill_tokens st.disk).1 = .error e := by
  rw [load_stored] at h
  split at h
  · next hasked =>
    refine ⟨hasked.1, ?_⟩
    rcases hload : engine.ssd_prefix_cache.load_longest prefill_tokens st.disk with ⟨e' | stored, disk⟩
    · rw [hload] at h
      exact congrArg Except.error (Except.error.inj h)
    · simp only [hload] at h
      cases h
  · cases h

variable {entry : PrefixCacheEntry T}

theorem consistent_mark_saved (h : st.Consistent keeps) (saved : Bool) :
    (engine.mark_saved saved st).Consistent keeps := by
  refine ⟨fun entry hentry => ?_, h.disk⟩
  obtain ⟨marked, hmarked, rfl⟩ := Option.map_eq_some_iff.mp hentry
  exact (h.prefix_cache marked hmarked).ssd_backed saved

/-- **A save**, whatever becomes of it. It may be refused or throw, and others may be evicted for
it; what can be loaded behind it could be loaded before, or is this entry. -/
theorem consistent_save (h : st.Consistent keeps) (hentry : entry.Consistent engine.mtp_head.isSome)
    {result : Except String Bool} {disk : engine.ssd_prefix_cache.Disk}
    (hsave : engine.ssd_prefix_cache.save entry st.disk = (result, disk)) :
    ∀ entry', keeps.Holds disk entry' → entry'.Consistent engine.mtp_head.isSome := by
  intro entry' hholds
  rcases keeps.save hsave entry' hholds with hold | ⟨backed, rfl⟩
  · exact h.disk entry' hold
  · exact hentry.ssd_backed backed

theorem consistent_save_entry (h : st.Consistent keeps)
    (hentry : entry.Consistent engine.mtp_head.isSome) :
    (engine.save_entry entry st).2.Consistent keeps := by
  rcases hsave : engine.ssd_prefix_cache.save entry st.disk with ⟨result, disk⟩
  rw [save_entry, hsave]
  exact ⟨h.prefix_cache, consistent_save h hentry hsave⟩

theorem consistent_save_prompt (h : st.Consistent keeps)
    (hentry : entry.Consistent engine.mtp_head.isSome) :
    (engine.save_prompt entry st).2.Consistent keeps := by
  have hmarked : ∀ same : Bool,
      (if same then engine.mark_saved false st else st).Consistent keeps := by
    intro same
    split
    · exact consistent_mark_saved h false
    · exact h
  have hsaved := consistent_save_entry (hmarked
    (st.prefix_cache.any fun entry' => entry'.tokens = entry.tokens)) hentry
  rw [save_prompt]
  split
  · next heq => rwa [heq] at hsaved
  · next heq =>
    rw [heq] at hsaved
    simp only
    split
    · exact consistent_mark_saved hsaved _
    · exact hsaved

theorem consistent_save_current (h : st.Consistent keeps) (unsaved : Option (PrefixCacheEntry T)) :
    (engine.save_current unsaved st).Consistent keeps := by
  rw [save_current]
  split
  · exact h
  · next entry hentry =>
    split
    · exact h
    · have hsaved := consistent_save_entry (consistent_mark_saved h false)
        ((h.prefix_cache entry hentry).ssd_backed false)
      simp only
      split
      · next heq => rwa [heq] at hsaved
      · next heq =>
        rw [heq] at hsaved
        exact consistent_mark_saved hsaved _

/-- **What goes to the store, and what stays in memory.** At the end of a request both the entry of
the prompt and that of the whole text are saved, if they are not there yet, and the one in memory is
given up when the store has it. -/
theorem consistent_persist_caches {cache : PromptCache engine} (h : cache.Consistent keeps) :
    (engine.persist_caches cache).Consistent keeps := by
  have hdrop : ∀ st' : EngineState engine, st'.Consistent keeps →
      EngineState.Consistent keeps (if (st'.prefix_cache.any fun entry => entry.ssd_backed) = true then
        { st' with prefix_cache := none } else st') := by
    intro st' h'
    split
    · exact ⟨fun _ hsome => absurd hsome (Option.some_ne_none _).symm, h'.disk⟩
    · exact h'
  rw [persist_caches]
  split
  · refine hdrop _ ?_
    split
    · cases hunsaved : cache.unsaved with
      | none => exact consistent_save_current h.engine_state none
      | some unsaved =>
        have hsaved := consistent_save_prompt h.engine_state (h.unsaved unsaved hunsaved)
        simp only
        split
        · next heq => rwa [heq] at hsaved
        · next heq =>
          rw [heq] at hsaved
          exact consistent_save_current hsaved _
    · exact h.engine_state
  · exact h.engine_state

/-! ### Resuming -/

/-- **The pending rows bring the companion in step.** The entry keeps the rows that the companion
has not seen yet, and a request that takes the entry over feeds them first. -/
theorem consume_pending_of_pendingAfter {mtp_state : MtpDecodeState T} {streams : List T.Stream}
    {rest tokens : List Token} (h : PendingAfter mtp_state streams rest tokens)
    (htokens : tokens ≠ []) :
    mtp_state.consume_pending_mtp_rows streams rest = .ok (MtpDecodeState.after T tokens) := by
  obtain ⟨fed, rfl, rfl, rfl, htwo⟩ := h
  have hfed : fed ≠ [] := by
    rintro rfl
    rw [List.nil_append] at htokens
    exact Nat.not_succ_le_zero 1 (htwo htokens)
  have hbase : rest ≠ [] → (MtpDecodeState.after T fed).position_base ≠ none := by
    intro hrest
    rw [MtpDecodeState.after, if_neg (Nat.not_le.mpr (htwo hrest))]
    exact Option.some_ne_none 1
  rw [MtpDecodeState.consume_pending_mtp_rows_eq (MtpDecodeState.next_after hfed) hbase]
  split
  · next hrest => rw [hrest, List.append_nil]
  · next hrest => rw [MtpDecodeState.after_feed hfed hrest]

variable {prompt_tokens : List Token}

variable (prompt_tokens) in
/-- **A cached entry stands for its tokens.** What a request takes over from it is a state, a stream
and a companion that have consumed exactly these. -/
theorem consumed_of_resume_entry (h : entry.Consistent engine.mtp_head.isSome) :
    ∃ s, engine.resume_entry prompt_tokens entry = .ok s ∧ engine.Consumed s entry.tokens ∧
      s.prefill_offset = entry.tokens.length := by
  have hprevious : entry.previous_target_stream = T.stream? entry.tokens := by
    rw [h.previous_target_stream, Target.stream?, if_neg h.tokens_ne_nil]
  rw [resume_entry]
  by_cases hhead : engine.mtp_head.isSome
  · rw [if_pos hhead, consume_pending_of_pendingAfter (h.mtp_state hhead) h.tokens_ne_nil]
    exact ⟨_, rfl, ⟨⟨hprevious, fun _ => rfl⟩, h.target_state⟩, rfl⟩
  · rw [if_neg hhead]
    exact ⟨_, rfl, ⟨⟨hprevious, fun hsome => absurd hsome hhead⟩, h.target_state⟩, rfl⟩

/-- The empty prompt. -/
theorem consumed_make_state : engine.Consumed { state := T.make_state } [] :=
  ⟨⟨rfl, fun _ => rfl⟩, rfl⟩

variable (prompt_tokens) in
/-- **What a request takes over it would have computed.** It takes over nothing, and throws, only
where the lookup in the store has thrown. -/
theorem consumed_of_resume (h : st.Consistent keeps) :
    (engine.resume prompt_tokens st).2.Consistent keeps ∧
      match (engine.load_stored prompt_tokens.dropLast st).1 with
      | .error e => (engine.resume prompt_tokens st).1 = .error e
      | .ok () => ∃ s, (engine.resume prompt_tokens st).1 = .ok s ∧
          engine.Consumed s (prompt_tokens.dropLast.take s.prefill_offset) := by
  have hloaded := consistent_load_stored h prompt_tokens.dropLast
  -- a new state has consumed nothing
  have hnothing : ∃ s, (Except.ok ({ state := T.make_state } : Prefilled T) :
      Except String (Prefilled T)) = .ok s ∧
        engine.Consumed s (prompt_tokens.dropLast.take s.prefill_offset) :=
    ⟨_, rfl, by rw [List.take_zero]; exact consumed_make_state⟩
  rw [resume]
  rcases hstored : engine.load_stored prompt_tokens.dropLast st with ⟨e | u, st'⟩
  · rw [hstored] at hloaded
    exact ⟨hloaded, rfl⟩
  rw [hstored] at hloaded
  dsimp only at hloaded ⊢
  split
  · exact ⟨hloaded, hnothing⟩
  · next entry hentry =>
    split
    -- the entry is a prefix of the prompt: what is resumed is a copy of it
    · next hprefix =>
      obtain ⟨s, hresume, hconsumed, hoffset⟩ :=
        consumed_of_resume_entry prompt_tokens
          (hloaded.prefix_cache entry hentry)
      have htake : entry.tokens = prompt_tokens.dropLast.take s.prefill_offset := by
        rw [hoffset]
        exact List.prefix_iff_eq_take.mp (List.isPrefixOf_iff_prefix.mp hprefix)
      rw [hresume]
      simp only
      split
      · exact ⟨⟨fun _ hsome => absurd hsome (Option.some_ne_none _).symm, hloaded.disk⟩, s, rfl,
          htake ▸ hconsumed⟩
      · exact ⟨hloaded, s, rfl, htake ▸ hconsumed⟩
    · exact ⟨hloaded, hnothing⟩

/-! ### The entry of the prompt -/

/-- **The prompt's own entry** is consistent, where there is one: it has the tokens of the prompt
but the last, and is taken at the moment when these and no others have been consumed. -/
theorem consistent_cache_prompt (h : st.Consistent keeps) {s : Prefilled T}
    (hs : engine.Consumed s prompt_tokens.dropLast) :
    (engine.cache_prompt prompt_tokens s st).Consistent keeps := by
  rw [cache_prompt]
  simp only
  split
  · next hcache =>
    have htokens : prompt_tokens.take (prompt_tokens.length - 1) = prompt_tokens.dropLast :=
      List.dropLast_eq_take.symm
    have hne : prompt_tokens.dropLast ≠ [] :=
      List.ne_nil_of_length_pos (by rw [List.length_dropLast]; omega)
    -- the entry says that the prompt but its last token has been consumed, as it has
    have hentry : PrefixCacheEntry.Consistent engine.mtp_head.isSome {
        tokens := prompt_tokens.take (prompt_tokens.length - 1)
        target_state := s.state
        mtp_state := if engine.mtp_head.isSome then s.mtp_state else {}
        previous_target_stream := s.previous_target_stream } := by
      refine ⟨?_, ?_, ?_, fun hhead => ?_⟩ <;> simp only [htokens]
      · exact hne
      · exact hs.state
      · rw [hs.previous_target_stream, Target.stream?, if_neg hne]
      · rw [if_pos hhead, hs.mtp_state hhead]
        exact pendingAfter_nil _
    split
    · split
      -- what could be saved is not kept in memory
      · next hsave =>
        exact ⟨⟨fun _ hsome => absurd hsome (Option.some_ne_none _).symm, consistent_save h hentry hsave⟩,
          fun _ hsome => absurd hsome (Option.some_ne_none _).symm⟩
      -- what could not be saved is kept
      · next hsave =>
        refine ⟨⟨fun entry hsome => ?_, consistent_save h hentry hsave⟩, fun entry hsome => ?_⟩ <;>
          obtain rfl := Option.some.inj hsome <;> exact hentry
    · refine ⟨⟨fun entry hsome => ?_, h.disk⟩,
        fun _ hsome => absurd hsome (Option.some_ne_none _).symm⟩
      obtain rfl := Option.some.inj hsome
      exact hentry
  · exact ⟨h, fun _ hsome => absurd hsome (Option.some_ne_none _).symm⟩

/-! ### Up to the first pass -/

variable {request : BatchRequest}

/-- What a request has when its loop starts. -/
structure Begun (keeps : engine.ssd_prefix_cache.Keeps) (request : BatchRequest)
    (prompt_tokens : List Token) (persistent : engine.persistent_backend.State)
    (r : Prefilled T × DecodeState engine × PromptCache engine) : Prop where
  consumed : engine.Consumed r.1 prompt_tokens.dropLast
  start : engine.start_decode request prompt_tokens r.1 persistent = .ok r.2.1
  cache : r.2.2.Consistent keeps

/-- **The loop starts with the prompt consumed, and the cache stays consistent**, whatever was taken
over from it. Where the request is thrown out on the way, the caches still hold only what they say;
where it is not, the state behind the prompt is that of its tokens. -/
theorem begin_request_spec (hT : T.RowWise) (h : st.Consistent keeps)
    (persistent : engine.persistent_backend.State) :
    (engine.begin_request request persistent prompt_tokens st).2.Consistent keeps ∧
      ∀ r, (engine.begin_request request persistent prompt_tokens st).1 = .ok r →
        Begun keeps request prompt_tokens persistent r ∧
          r.2.2.engine_state = (engine.begin_request request persistent prompt_tokens st).2 := by
  obtain ⟨hst, hresume⟩ := consumed_of_resume prompt_tokens h
  rcases hfirst : engine.resume prompt_tokens st with ⟨e | resumed, st'⟩
  · rw [hfirst] at hst
    have hbegin : engine.begin_request request persistent prompt_tokens st = (.error e, st') := by
      simp only [begin_request, hfirst]
    rw [hbegin]
    exact ⟨hst, fun r hok => by cases hok⟩
  have hconsumed : engine.Consumed resumed (prompt_tokens.dropLast.take resumed.prefill_offset) := by
    rw [hfirst] at hresume
    split at hresume
    · cases hresume
    · obtain ⟨s, hs, hconsumed⟩ := hresume
      obtain rfl := Except.ok.inj hs
      exact hconsumed
  rw [hfirst] at hst
  simp only at hst
  rcases hprefill : engine.prefill prompt_tokens resumed with e | prefilled
  · have hbegin : engine.begin_request request persistent prompt_tokens st = (.error e, st') := by
      simp only [begin_request, hfirst, hprefill]
    rw [hbegin]
    exact ⟨hst, fun r hok => by cases hok⟩
  · have hprompt := (consumed_of_prefill hT hconsumed hprefill).1
    have hcache := consistent_cache_prompt hst hprompt
    rcases hstart : engine.start_decode request prompt_tokens prefilled persistent with e | s
    · have hbegin : engine.begin_request request persistent prompt_tokens st =
          (.error e, (engine.cache_prompt prompt_tokens prefilled st').engine_state) := by
        simp only [begin_request, hfirst, hprefill, hstart]
      rw [hbegin]
      exact ⟨hcache.engine_state, fun r hok => by cases hok⟩
    · have hbegin : engine.begin_request request persistent prompt_tokens st =
          (.ok (prefilled, s, engine.cache_prompt prompt_tokens prefilled st'),
            (engine.cache_prompt prompt_tokens prefilled st').engine_state) := by
        simp only [begin_request, hfirst, hprefill, hstart]
      rw [hbegin]
      refine ⟨hcache.engine_state, fun r hok => ?_⟩
      obtain rfl := Except.ok.inj hok
      exact ⟨⟨hprompt, hstart, hcache⟩, rfl⟩

end NativeEngine

end Qwen38
