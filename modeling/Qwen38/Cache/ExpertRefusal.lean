import Qwen38.Cache.ExpertInvariant

/-!
# Refused admissions

An acquire makes room before it loads, one eviction after the other, and it gives up when no
entry is left that could go. What it has evicted by then is gone
(`Qwen38.ExpertCache.refused_admission`): the entries with a lease are still there, and so is
every entry when the request could not be met by any eviction, because it is larger than the
budget or because every entry is in use.
-/

namespace Qwen38

namespace ExpertCache

variable {Handle : Type} [DecidableEq Handle] {s s' s₁ : ExpertCache Handle}

/-! ### What evictions leave -/

/-- What a loop of evictions leaves of the entries, of their account and of the history. -/
structure Evicted (s s' : ExpertCache Handle) : Prop where
  entries : ∀ key e, s'.entries.lookup key = some e → s.entries.lookup key = some e
  used : ∀ key e, s.entries.lookup key = some e → s.use_count e.value ≠ 1 →
    s'.entries.lookup key = some e ∧ s'.use_count e.value = s.use_count e.value
  size : s'.entries.size ≤ s.entries.size
  evictions : s'.stats.evictions = s.stats.evictions + .ofNat (s.entries.size - s'.entries.size)
  history : ∀ key, key ∈ s'.history → key ∈ s.history ∨ key ∈ s.entries ∧ key ∉ s'.entries

theorem Evicted.refl (s : ExpertCache Handle) : Evicted s s where
  entries := fun _ _ h => h
  used := fun _ _ h _ => ⟨h, rfl⟩
  size := le_refl _
  evictions := by
    rw [Nat.sub_self]
    exact (UInt64.add_zero _).symm
  history := fun _ h => Or.inl h

theorem Evicted.mem (h : Evicted s s') {key : String} (hkey : key ∈ s'.entries) :
    key ∈ s.entries := by
  obtain ⟨e, he⟩ := Option.isSome_iff_exists.mp (AList.lookup_isSome.mpr hkey)
  exact AList.lookup_isSome.mp (by rw [h.entries key e he]; rfl)

theorem Evicted.trans (h : Evicted s s₁) (h' : Evicted s₁ s') : Evicted s s' where
  entries := fun key e he => h.entries key e (h'.entries key e he)
  used := by
    intro key e he hused
    obtain ⟨he₁, hcount₁⟩ := h.used key e he hused
    obtain ⟨he', hcount'⟩ := h'.used key e he₁ (by rwa [hcount₁])
    exact ⟨he', hcount'.trans hcount₁⟩
  size := h'.size.trans h.size
  evictions := by
    have hsizes : s.entries.size - s'.entries.size =
        (s.entries.size - s₁.entries.size) + (s₁.entries.size - s'.entries.size) := by
      have := h.size
      have := h'.size
      omega
    rw [h'.evictions, h.evictions, hsizes, UInt64.ofNat_add, UInt64.add_assoc]
  history := by
    intro key hkey
    rcases h'.history key hkey with hkey | ⟨hkey, hgone⟩
    · rcases h.history key hkey with hkey | ⟨hkey, hgone⟩
      · exact Or.inl hkey
      · exact Or.inr ⟨hkey, fun hmem => hgone (h'.mem hmem)⟩
    · exact Or.inr ⟨h.mem hkey, hgone⟩

variable (buckets : UnorderedMap.BucketOrder String)

omit [DecidableEq Handle] in
theorem mem_remember {key : String} {e : ExpertEntry Handle} {k : String}
    (hk : k ∈ s.remember buckets key e) : k = key ∨ k ∈ s.history := by
  rw [remember] at hk
  split at hk
  · rcases UnorderedMap.mem_put.mp hk with rfl | hk
    · exact Or.inl rfl
    · split at hk
      · split at hk
        · exact Or.inr (AList.mem_erase.mp hk).2
        · exact Or.inr hk
      · exact Or.inr hk
  · exact Or.inr hk

/-- The references to a handle, when an entry goes that holds another one. -/
theorem use_count_erase {key : String} {e : ExpertEntry Handle}
    (he : s.entries.lookup key = some e) {value : Handle} (hne : e.value ≠ value)
    (hentries : s'.entries = s.entries.erase key) (hleases : s'.leases = s.leases) :
    s'.use_count value = s.use_count value := by
  have hperm := UnorderedMap.perm_cons_erase he
  rw [use_count, use_count, hentries, hleases, hperm.countP_eq, List.countP_cons_of_neg]
  simpa using hne

theorem evict_one_evicted (h : s.evict_one buckets = some s') :
    Evicted s s' ∧ s'.entries.size < s.entries.size := by
  rw [evict_one] at h
  split at h
  · cases h
  next key e hcandidate =>
  obtain ⟨hmem, hcount⟩ := eviction_candidate_spec hcandidate
  have he : s.entries.lookup key = some e := UnorderedMap.lookup_of_mem hmem
  have hsize := UnorderedMap.size_erase he
  obtain rfl := Option.some.inj h
  refine ⟨?_, ?_⟩
  · constructor
    case entries =>
      intro k e' he'
      have hne : k ≠ key := by
        rintro rfl
        cases (AList.lookup_erase k s.entries).symm.trans he'
      exact (AList.lookup_erase_ne hne).symm.trans he'
    case used =>
      intro k e' he' hused
      have hvalue : e.value ≠ e'.value := fun heq => hused (heq ▸ hcount)
      have hne : k ≠ key := by
        rintro rfl
        rw [he] at he'
        cases he'
        exact hvalue rfl
      exact ⟨(AList.lookup_erase_ne hne).trans he', use_count_erase he hvalue rfl rfl⟩
    case size =>
      change UnorderedMap.size (s.entries.erase key) ≤ s.entries.size
      omega
    case evictions =>
      change s.stats.evictions + 1 =
        s.stats.evictions + .ofNat (s.entries.size - UnorderedMap.size (s.entries.erase key))
      rw [show s.entries.size - UnorderedMap.size (s.entries.erase key) = 1 by omega]
      rfl
    case history =>
      intro k hk
      rcases mem_remember buckets hk with rfl | hk
      · refine Or.inr ⟨UnorderedMap.mem_of_mem_entries hmem, fun hk => ?_⟩
        exact (AList.mem_erase.mp hk).1 rfl
      · exact Or.inl hk
  · change UnorderedMap.size (s.entries.erase key) < s.entries.size
    omega

theorem evict_while_evicted (more : ExpertCache Handle → Bool) (fuel : Nat)
    (s : ExpertCache Handle) : Evicted s (evict_while buckets more fuel s).1 := by
  induction fuel generalizing s with
  | zero => exact .refl s
  | succ fuel ih =>
    rw [evict_while]
    split
    · split
      · exact .refl s
      next s₁ hevict => exact (evict_one_evicted buckets hevict).1.trans (ih s₁)
    · exact .refl s

/-! ### Which entries can go -/

/-- Every entry has a reference besides the cache's own. -/
def AllLeased (s : ExpertCache Handle) : Prop := ∀ p ∈ s.entries.entries, s.use_count p.2.value ≠ 1

theorem foldl_next_candidate_eq_none {candidate : Option (Sigma fun _ : String => ExpertEntry Handle)}
    {entries : List (Sigma fun _ : String => ExpertEntry Handle)} :
    entries.foldl s.next_candidate candidate = none ↔
      candidate = none ∧ ∀ p ∈ entries, s.use_count p.2.value ≠ 1 := by
  induction entries generalizing candidate with
  | nil => simp
  | cons p entries ih =>
    rw [List.foldl_cons, ih, List.forall_mem_cons, ← and_assoc]
    refine and_congr_left fun _ => ?_
    rw [next_candidate.eq_def]
    by_cases hcount : s.use_count p.2.value ≠ 1
    · rw [if_pos hcount]
      exact (and_iff_left hcount).symm
    · rw [if_neg hcount]
      refine iff_of_false ?_ fun h => hcount h.2
      cases candidate with
      | none => exact Option.some_ne_none _
      | some c =>
        dsimp only
        split <;> exact Option.some_ne_none _

/-- No eviction is possible exactly when every entry is in use. -/
theorem evict_one_eq_none : s.evict_one buckets = none ↔ s.AllLeased := by
  have hcandidate : s.eviction_candidate = none ↔ s.AllLeased :=
    foldl_next_candidate_eq_none.trans (and_iff_right rfl)
  rw [← hcandidate, evict_one]
  cases s.eviction_candidate with
  | none => exact iff_of_true rfl rfl
  | some p => exact iff_of_false (Option.some_ne_none _) (Option.some_ne_none _)

theorem Bookkept.use_count (h : Bookkept s s') (value : Handle) :
    s'.use_count value = s.use_count value := by
  have hcount : ∀ m : UnorderedMap String (ExpertEntry Handle),
      (m.entries.countP fun p => p.2.value = value) =
        (m.mapValues core).entries.countP fun p => p.2.1 = value := by
    intro m
    exact (List.countP_map (p := fun p : Sigma fun _ : String => Handle × UInt64 => p.2.1 = value)
      (f := fun p : Sigma fun _ : String => ExpertEntry Handle => ⟨p.1, core p.2⟩)).symm
  rw [ExpertCache.use_count, ExpertCache.use_count, hcount, hcount, h.entries, h.leases]

theorem Bookkept.allLeased (h : Bookkept s s') : s'.AllLeased ↔ s.AllLeased := by
  have hmap : ∀ (t : ExpertCache Handle), t.AllLeased ↔
      ∀ p ∈ (t.entries.mapValues core).entries, t.use_count p.2.1 ≠ 1 := by
    intro t
    change _ ↔ ∀ p ∈ t.entries.entries.map _, _
    rw [List.forall_mem_map]
    rfl
  rw [hmap, hmap, h.entries]
  refine forall₂_congr fun p _ => ?_
  rw [h.use_count]

/-! ### Making room in vain -/

theorem evict_while_of_none {more : ExpertCache Handle → Bool} (h : s.evict_one buckets = none)
    (fuel : Nat) : (evict_while buckets more fuel s).1 = s := by
  cases fuel with
  | zero => rfl
  | succ fuel =>
    rw [evict_while, h]
    split <;> rfl

/-- A loop that gives up wanted more. -/
theorem evict_while_more {more : ExpertCache Handle → Bool} {fuel : Nat}
    (h : (evict_while buckets more fuel s).2 = false) :
    more (evict_while buckets more fuel s).1 = true := by
  induction fuel generalizing s with
  | zero => simpa [evict_while] using h
  | succ fuel ih =>
    rw [evict_while] at h ⊢
    split at h
    next hmore =>
      rw [if_pos hmore]
      split at h
      · exact hmore
      · exact ih h
    · cases h

variable {buckets} {bytes : UInt64}

variable (buckets) in
theorem make_room_evicted (s : ExpertCache Handle) (bytes : UInt64) :
    Evicted s (s.make_room buckets bytes).1 := by
  rw [make_room]
  split
  · exact .refl s
  · exact evict_while_evicted buckets _ _ s

/-- No entry goes for a request that no eviction could help. -/
theorem make_room_same (h : s.budget_bytes < bytes ∨ s.AllLeased) :
    (s.make_room buckets bytes).1 = s := by
  rw [make_room]
  split
  · rfl
  next hroom =>
    rcases h with hlarge | hleased
    · exact absurd (by simp [hlarge]) hroom
    · exact evict_while_of_none buckets ((evict_one_eq_none buckets).mpr hleased) _

/-- When room is not made for a request within the budget, everything has gone that could. -/
theorem make_room_false (hpending : s.pending_bytes = 0)
    (h : (s.make_room buckets bytes).2 = false) (hbytes : bytes ≤ s.budget_bytes) :
    (s.make_room buckets bytes).1.AllLeased ∧
      s.budget_bytes - bytes < (s.make_room buckets bytes).1.resident_bytes := by
  have hroom : ¬(bytes > s.budget_bytes || s.pending_bytes > s.budget_bytes - bytes) = true := by
    rw [hpending]
    simp only [gt_iff_lt, Bool.or_eq_true, decide_eq_true_eq, not_or, UInt64.not_lt]
    exact ⟨hbytes, UInt64.zero_le⟩
  rw [make_room, if_neg hroom] at h ⊢
  dsimp only at h ⊢
  refine ⟨(evict_one_eq_none buckets).mp (evict_while_false buckets (le_refl _) h), ?_⟩
  have hmore := of_decide_eq_true (evict_while_more buckets h)
  rw [hpending, UInt64.zero_add] at hmore ⊢
  exact hmore

/-! ### The refusal -/

/-- What is the same when no entry goes. The history only ages, as it does in every
operation. -/
structure Unchanged (s s' : ExpertCache Handle) : Prop where
  entries : s'.entries.mapValues core = s.entries.mapValues core
  resident : s'.resident_bytes = s.resident_bytes
  evictions : s'.stats.evictions = s.stats.evictions
  history : s'.history = s.begin_operation.history

/-- What a refused admission of so many bytes does. -/
structure Refused (s : ExpertCache Handle) (bytes : UInt64) (s' : ExpertCache Handle) : Prop where
  /-- What remains is as it was. -/
  entries : ∀ key e', s'.entries.lookup key = some e' →
    ∃ e, s.entries.lookup key = some e ∧ core e = core e'
  /-- Only entries go to which the cache has the only reference. -/
  used : ∀ key e, s.entries.lookup key = some e → s.use_count e.value ≠ 1 →
    ∃ e', s'.entries.lookup key = some e' ∧ core e' = core e
  resident : s'.resident_bytes.toNat = s'.stored_bytes
  evictions : s'.stats.evictions = s.stats.evictions + .ofNat (s.entries.size - s'.entries.size)
  history : ∀ key, key ∈ s'.history → key ∈ s.history ∨ key ∈ s.entries ∧ key ∉ s'.entries
  unchanged : s.budget_bytes < bytes ∨ s.AllLeased → Unchanged s s'
  exhausted : bytes ≤ s.budget_bytes →
    s'.AllLeased ∧ s.budget_bytes - bytes < s'.resident_bytes

omit [DecidableEq Handle] in
theorem roll_back_ne {reason : ExpertError} (h : reason ≠ .admission_refused) :
    (s.roll_back bytes reason).2 ≠ .error .admission_refused :=
  fun heq => h (Except.error.inj heq)

omit [DecidableEq Handle] in
theorem commit_ne (key : String) (loaded : Handle) :
    (s.commit buckets key bytes loaded).2 ≠ .error .admission_refused := by
  rw [commit]
  split
  · exact roll_back_ne (by decide)
  · dsimp only
    split
    · exact roll_back_ne (by decide)
    · intro h
      cases h

omit [DecidableEq Handle] in
theorem try_load_ne (key : String) (loader : ExpertLoader Handle) :
    (s.try_load buckets key bytes loader).2 ≠ .error .admission_refused := by
  rw [try_load]
  split
  · refine roll_back_ne fun h => ?_
    cases h
  · exact roll_back_ne (by decide)
  · exact commit_ne key _

/-- Where an acquire is refused admission: at a miss, when room has not been made. -/
theorem acquire_refused {key : String} {loader : Option (ExpertLoader Handle)}
    (h : (s.acquire buckets key bytes loader).2 = .error .admission_refused) :
    ((s.begin_operation.count_miss bytes).make_room buckets bytes).2 = false ∧
      (s.acquire buckets key bytes loader).1 =
        (refuse (α := Handle) ((s.begin_operation.count_miss bytes).make_room buckets bytes).1
          .admission_refused).1 := by
  have hrefuse : ∀ (t : ExpertCache Handle) {reason : ExpertError}, reason ≠ .admission_refused →
      (t.refuse (α := Handle) reason).2 ≠ .error .admission_refused :=
    fun _ _ hne heq => hne (Except.error.inj heq)
  rw [acquire] at h ⊢
  split_ifs at h ⊢ with hloading hkey hbytes
  · exact absurd h (hrefuse _ (by decide))
  · exact absurd h (hrefuse _ (by decide))
  · exact absurd h (hrefuse _ (by decide))
  · dsimp only at h ⊢
    split at h
    · split at h
      · exact absurd h (hrefuse _ (by decide))
      · cases h
    · rw [miss.eq_def] at h ⊢
      cases loader with
      | none => exact absurd h (hrefuse _ (by decide))
      | some loader =>
        dsimp only at h ⊢
        rcases hroom : (s.begin_operation.count_miss bytes).make_room buckets bytes with ⟨t, _ | _⟩
        · exact ⟨rfl, rfl⟩
        · rw [hroom] at h
          exact absurd h (try_load_ne key loader)

/-- **An acquire that is refused admission**, in a sound cache. The bytes that are leased leave no
room for the new entry, so that evicting the rest was of no use. -/
theorem refused_of_acquire (hs : s.Sound) {key : String} {loader : Option (ExpertLoader Handle)}
    (h : (s.acquire buckets key bytes loader).2 = .error .admission_refused) :
    Refused s bytes (s.acquire buckets key bytes loader).1 := by
  obtain ⟨hroom, hstate⟩ := acquire_refused h
  rw [hstate]
  have hbegin := (bookkept_begin_operation s).trans (bookkept_count_miss s.begin_operation bytes)
  generalize hmiss : s.begin_operation.count_miss bytes = t at hroom hbegin ⊢
  have hhistory : t.history = s.begin_operation.history := by rw [← hmiss]; rfl
  have hevictions : t.stats.evictions = s.stats.evictions := by
    rw [← hmiss, count_miss, begin_operation]
    split <;> rfl
  -- what the refusal leaves behind is what the attempt to make room has
  have hevicted := make_room_evicted buckets t bytes
  have hsound := (make_room_shrunk buckets t bytes).sound (hbegin.sound hs)
  have hsize : t.entries.size = s.entries.size := by
    rw [← UnorderedMap.size_mapValues core, hbegin.entries, UnorderedMap.size_mapValues]
  constructor
  case entries =>
    intro k e' he'
    have hmap := hbegin.lookup k
    rw [hevicted.entries k e' he', Option.map_some] at hmap
    exact Option.map_eq_some_iff.mp hmap.symm
  case used =>
    intro k e he hused
    obtain ⟨e', he', hcore⟩ := hbegin.exists_lookup he
    have hvalue : e'.value = e.value := congrArg Prod.fst hcore
    rw [← hvalue, ← hbegin.use_count] at hused
    exact ⟨e', (hevicted.used k e' he' hused).1, hcore⟩
  case resident => exact hsound.resident
  case evictions =>
    change (t.make_room buckets bytes).1.stats.evictions = _
    rw [hevicted.evictions, hevictions, hsize]
    rfl
  case history =>
    intro k hk
    have hkeys : k ∈ t.history → k ∈ s.history := by
      intro hk
      have hmem : k ∈ t.history.keys := hk
      rwa [hbegin.history] at hmem
    -- a key of the history was there, or has been evicted for this
    rcases hevicted.history k hk with hk | ⟨hk, hgone⟩
    · exact Or.inl (hkeys hk)
    · exact Or.inr ⟨(hbegin.mem k).mp hk, hgone⟩
  case unchanged =>
    intro hsame
    have hsame' : t.budget_bytes < bytes ∨ t.AllLeased := by
      rwa [hbegin.budget, hbegin.allLeased]
    rw [make_room_same hsame']
    exact ⟨hbegin.entries, hbegin.resident, hevictions, hhistory⟩
  case exhausted =>
    intro hbytes
    rw [← hbegin.budget] at hbytes ⊢
    exact make_room_false (hbegin.pending.trans hs.pending) hroom hbytes

/-- **A refused admission**, in every reachable state: what it can evict for nothing, and when
nothing changes. -/
theorem refused_admission {budget_bytes decay_period history_limit : UInt64}
    {cache : ExpertCache Handle}
    (h : create budget_bytes decay_period history_limit = .ok cache)
    (calls : List (ExpertCall Handle)) (key : String) (bytes : UInt64)
    (loader : ExpertCallback Handle)
    (hrefused : ((ExpertCall.acquire key bytes loader).run buckets
      (ExpertCall.runs buckets cache calls)).2 = .error .admission_refused) :
    Refused (ExpertCall.runs buckets cache calls) bytes
      ((ExpertCall.acquire key bytes loader).run buckets
        (ExpertCall.runs buckets cache calls)).1 := by
  have hs := runs_sound buckets (create_sound h) calls
  rw [ExpertCall.run] at hrefused ⊢
  refine refused_of_acquire hs ?_
  rw [Prod.map_snd] at hrefused
  cases hresult : ((ExpertCall.runs buckets cache calls).acquire buckets key bytes
      (loader.run buckets)).2 with
  | error reason =>
    rw [hresult] at hrefused
    exact congrArg _ (Except.error.inj hrefused)
  | ok value =>
    rw [hresult] at hrefused
    cases hrefused

/-- Two entries of one byte, the first of them in use. -/
def one_leased : List (ExpertCall Nat) :=
  [.acquire "a" 1 (.function [] (.ok (some 7))), .acquire "b" 1 (.function [] (.ok (some 8))),
    .drop 8]

theorem refused_admission_two :
    Refused (ExpertCall.runs (.newestFirst _)
        ({ budget_bytes := 2, decay_period := 64, history_limit := 4 } : ExpertCache Nat) one_leased)
      2 ((ExpertCall.acquire "c" 2 (.function [] (.ok (some 9)))).run (.newestFirst _)
        (ExpertCall.runs (.newestFirst _)
          { budget_bytes := 2, decay_period := 64, history_limit := 4 } one_leased)).1 :=
  refused_admission (show create 2 64 4 = Except.ok _ from rfl) one_leased "c" 2
    (.function [] (.ok (some 9))) (by decide)

/-- The entry that is not in use is evicted, and then the admission is refused. -/
theorem not_unchanged_by_refusal :
    ¬∀ (calls : List (ExpertCall Nat)) key bytes loader,
      ((ExpertCall.acquire key bytes loader).run (.newestFirst _) (ExpertCall.runs (.newestFirst _)
        { budget_bytes := 2, decay_period := 64, history_limit := 4 } calls)).2 =
          .error .admission_refused →
      (((ExpertCall.acquire key bytes loader).run (.newestFirst _) (ExpertCall.runs (.newestFirst _)
        { budget_bytes := 2, decay_period := 64, history_limit := 4 } calls)).1.entries.keys =
          (ExpertCall.runs (.newestFirst _)
            ({ budget_bytes := 2, decay_period := 64, history_limit := 4 } : ExpertCache Nat)
            calls).entries.keys) := by
  intro h
  have hkeys := h one_leased "c" 2 (.function [] (.ok (some 9))) (by decide)
  revert hkeys
  decide

end ExpertCache

end Qwen38
