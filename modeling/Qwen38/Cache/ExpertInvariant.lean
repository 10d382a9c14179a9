import Qwen38.Cache.ExpertCache

/-!
# The accounts of the expert cache

What the cache keeps true between two calls (`ExpertCache.Sound`), and what a call can do to
the entries. The bookkeeping of an operation (decay, ticks, touches) does not change which
handle of how many bytes is stored under which key (`ExpertCache.Bookkept`), an eviction
removes one entry without a lease (`ExpertCache.Shrunk`), and a loader that calls the cache
again gets nothing but refusals (`ExpertCache.Reentered`). An acquire is put together from
these three.
-/

namespace Qwen38

namespace ExpertCache

variable {Handle : Type}

/-- What of an entry the accounts are about. -/
def core (e : ExpertEntry Handle) : Handle × UInt64 := (e.value, e.bytes)

/-- The bytes of the stored entries. -/
def stored_bytes (s : ExpertCache Handle) : Nat := s.entries.weight fun e => e.bytes.toNat

/-- The accounts, which also hold while a loader runs. -/
structure Accounted (s : ExpertCache Handle) : Prop where
  resident : s.resident_bytes.toNat = s.stored_bytes
  peak : s.resident_bytes ≤ s.stats.peak_bytes
  shown : s.stats.resident_bytes = s.resident_bytes
  history_disjoint : ∀ key, key ∈ s.history → key ∉ s.entries
  history_size : s.history.size ≤ s.history_limit.toNat
  proper : ∀ key e, s.entries.lookup key = some e → key.isEmpty = false ∧ e.bytes ≠ 0

/-- **The representation invariant** outside of a running acquire. -/
structure Sound (s : ExpertCache Handle) : Prop extends Accounted s where
  pending : s.pending_bytes = 0
  idle : s.loading = false

/-- Every entry with a lease is still there. -/
def Kept (s s' : ExpertCache Handle) : Prop :=
  ∀ key e, s.entries.lookup key = some e → e.value ∈ s.leases →
    ∃ e', s'.entries.lookup key = some e' ∧ core e' = core e

variable {s s' s₁ : ExpertCache Handle}

/-! ### Bookkeeping -/

/-- Only frequencies, touches and counters of calls differ. -/
structure Bookkept (s s' : ExpertCache Handle) : Prop where
  entries : s'.entries.mapValues core = s.entries.mapValues core
  history : s'.history.keys = s.history.keys
  budget : s'.budget_bytes = s.budget_bytes
  limit : s'.history_limit = s.history_limit
  resident : s'.resident_bytes = s.resident_bytes
  pending : s'.pending_bytes = s.pending_bytes
  loading : s'.loading = s.loading
  peak : s'.stats.peak_bytes = s.stats.peak_bytes
  shown : s'.stats.resident_bytes = s.stats.resident_bytes
  leases : s'.leases = s.leases

theorem Bookkept.refl (s : ExpertCache Handle) : Bookkept s s :=
  ⟨rfl, rfl, rfl, rfl, rfl, rfl, rfl, rfl, rfl, rfl⟩

theorem Bookkept.trans (h : Bookkept s s₁) (h' : Bookkept s₁ s') : Bookkept s s' where
  entries := h'.entries.trans h.entries
  history := h'.history.trans h.history
  budget := h'.budget.trans h.budget
  limit := h'.limit.trans h.limit
  resident := h'.resident.trans h.resident
  pending := h'.pending.trans h.pending
  loading := h'.loading.trans h.loading
  peak := h'.peak.trans h.peak
  shown := h'.shown.trans h.shown
  leases := h'.leases.trans h.leases

/-- The same handle and bytes under every key. -/
theorem Bookkept.lookup (h : Bookkept s s') (key : String) :
    (s'.entries.lookup key).map core = (s.entries.lookup key).map core := by
  rw [← UnorderedMap.lookup_mapValues, h.entries, UnorderedMap.lookup_mapValues]

theorem Bookkept.exists_lookup (h : Bookkept s s') {key : String} {e : ExpertEntry Handle}
    (he : s.entries.lookup key = some e) :
    ∃ e', s'.entries.lookup key = some e' ∧ core e' = core e := by
  have hmap := h.lookup key
  rw [he] at hmap
  simpa using hmap

theorem Bookkept.mem (h : Bookkept s s') (key : String) : key ∈ s'.entries ↔ key ∈ s.entries := by
  rw [← UnorderedMap.mem_mapValues core, h.entries, UnorderedMap.mem_mapValues]

theorem Bookkept.stored_bytes (h : Bookkept s s') : s'.stored_bytes = s.stored_bytes := by
  have hweight : ∀ m : UnorderedMap String (ExpertEntry Handle),
      m.weight (fun e => e.bytes.toNat) = (m.mapValues core).weight fun c => c.2.toNat :=
    fun m => (UnorderedMap.weight_mapValues core fun c => c.2.toNat).symm
  rw [ExpertCache.stored_bytes, hweight, h.entries, ← hweight, ExpertCache.stored_bytes]

theorem Bookkept.kept (h : Bookkept s s') : Kept s s' := fun _ _ he _ => h.exists_lookup he

theorem Bookkept.accounted (h : Bookkept s s') (hs : s.Accounted) : s'.Accounted where
  resident := by rw [h.resident, hs.resident, h.stored_bytes]
  peak := by
    rw [h.resident, h.peak]
    exact hs.peak
  shown := by rw [h.shown, hs.shown, h.resident]
  history_disjoint := by
    intro key hkey
    rw [h.mem]
    rw [AList.mem_keys, h.history, ← AList.mem_keys] at hkey
    exact hs.history_disjoint key hkey
  history_size := by
    have hsize : s'.history.size = s.history.size := by
      simpa [AList.keys, List.keys, UnorderedMap.size] using congrArg List.length h.history
    rw [hsize, h.limit]
    exact hs.history_size
  proper := by
    intro key e' he'
    have hmap := h.lookup key
    rw [he'] at hmap
    obtain ⟨e, he, hcore⟩ : ∃ e, s.entries.lookup key = some e ∧ core e = core e' := by
      simpa using hmap.symm
    have hbytes : e.bytes = e'.bytes := congrArg Prod.snd hcore
    rw [← hbytes]
    exact hs.proper key e he

theorem Bookkept.sound (h : Bookkept s s') (hs : s.Sound) : s'.Sound where
  toAccounted := h.accounted hs.toAccounted
  pending := h.pending.trans hs.pending
  idle := h.loading.trans hs.idle

theorem keys_mapValues {α β : Type} (f : α → β) (m : UnorderedMap String α) :
    (m.mapValues f).keys = m.keys := by
  simp [AList.keys, List.keys, UnorderedMap.mapValues]

theorem bookkept_begin_operation (s : ExpertCache Handle) : Bookkept s s.begin_operation := by
  rw [begin_operation]
  split
  · constructor
    case entries => exact UnorderedMap.mapValues_mapValues _ _
    case history => exact keys_mapValues _ _
    all_goals rfl
  · exact ⟨rfl, rfl, rfl, rfl, rfl, rfl, rfl, rfl, rfl, rfl⟩

theorem bookkept_next_tick (s : ExpertCache Handle) : Bookkept s s.next_tick := by
  rw [next_tick]
  split
  · constructor
    case entries => exact UnorderedMap.mapValues_mapValues _ _
    case history => exact keys_mapValues _ _
    all_goals rfl
  · exact ⟨rfl, rfl, rfl, rfl, rfl, rfl, rfl, rfl, rfl, rfl⟩

theorem bookkept_touch (s : ExpertCache Handle) (key : String) : Bookkept s (s.touch key) := by
  refine (bookkept_next_tick s).trans ?_
  constructor
  case entries => exact UnorderedMap.mapValues_adjust fun _ => rfl
  all_goals rfl

theorem bookkept_refuse {α : Type} (s : ExpertCache Handle) (reason : ExpertError) :
    Bookkept s (s.refuse reason : _ × Except ExpertError α).1 :=
  ⟨rfl, rfl, rfl, rfl, rfl, rfl, rfl, rfl, rfl, rfl⟩

theorem bookkept_count_hit (s : ExpertCache Handle) (bytes : UInt64) :
    Bookkept s (s.count_hit bytes) :=
  ⟨rfl, rfl, rfl, rfl, rfl, rfl, rfl, rfl, rfl, rfl⟩

theorem bookkept_count_miss (s : ExpertCache Handle) (bytes : UInt64) :
    Bookkept s (s.count_miss bytes) :=
  ⟨rfl, rfl, rfl, rfl, rfl, rfl, rfl, rfl, rfl, rfl⟩

/-- References of the callers come and go without the accounts. -/
theorem Sound.leases (hs : s.Sound) (leases : List Handle) : Sound { s with leases := leases } :=
  ⟨⟨hs.resident, hs.peak, hs.shown, hs.history_disjoint, hs.history_size, hs.proper⟩,
    hs.pending, hs.idle⟩

/-! ### Evictions -/

/-- What a loop of evictions can do. -/
structure Shrunk (s s' : ExpertCache Handle) : Prop where
  accounted : s.Accounted → s'.Accounted
  kept : ∀ key e, s.entries.lookup key = some e → e.value ∈ s.leases →
    s'.entries.lookup key = some e
  mem : ∀ key, key ∈ s'.entries → key ∈ s.entries
  budget : s'.budget_bytes = s.budget_bytes
  limit : s'.history_limit = s.history_limit
  pending : s'.pending_bytes = s.pending_bytes
  loading : s'.loading = s.loading
  leases : s'.leases = s.leases

theorem Shrunk.refl (s : ExpertCache Handle) : Shrunk s s :=
  ⟨id, fun _ _ h _ => h, fun _ h => h, rfl, rfl, rfl, rfl, rfl⟩

theorem Shrunk.trans (h : Shrunk s s₁) (h' : Shrunk s₁ s') : Shrunk s s' where
  accounted := h'.accounted ∘ h.accounted
  kept := fun key e he hlease => h'.kept key e (h.kept key e he hlease) (h.leases ▸ hlease)
  mem := fun key hkey => h.mem key (h'.mem key hkey)
  budget := h'.budget.trans h.budget
  limit := h'.limit.trans h.limit
  pending := h'.pending.trans h.pending
  loading := h'.loading.trans h.loading
  leases := h'.leases.trans h.leases

variable [DecidableEq Handle]

/-- The candidate is stored, and the cache has the only reference to it. -/
theorem eviction_candidate_spec {p : Sigma fun _ : String => ExpertEntry Handle}
    (h : s.eviction_candidate = some p) : p ∈ s.entries.entries ∧ s.use_count p.2.value = 1 := by
  have hchoose : ∀ c q r, s.next_candidate c q = some r →
      c = some r ∨ r = q ∧ s.use_count q.2.value = 1 := by
    intro c q r hr
    rw [next_candidate.eq_def] at hr
    by_cases hcount : s.use_count q.2.value = 1
    · rw [if_neg (not_not.mpr hcount)] at hr
      cases c with
      | none => exact Or.inr ⟨(Option.some.inj hr).symm, hcount⟩
      | some c =>
        dsimp only at hr
        split at hr
        · exact Or.inr ⟨(Option.some.inj hr).symm, hcount⟩
        · exact Or.inl hr
    · rw [if_pos hcount] at hr
      exact Or.inl hr
  exact (UnorderedMap.mem_of_foldl_eq_some hchoose h).resolve_left (by simp)

/-- A stored handle with one reference has no lease. -/
theorem notMem_leases_of_use_count {p : Sigma fun _ : String => ExpertEntry Handle}
    (hp : p ∈ s.entries.entries) (h : s.use_count p.2.value = 1) : p.2.value ∉ s.leases := by
  have hstored : 0 < s.entries.entries.countP fun q => q.2.value = p.2.value :=
    List.countP_pos_iff.mpr ⟨p, hp, by simp⟩
  rw [use_count] at h
  exact List.count_eq_zero.mp (by omega)

omit [DecidableEq Handle] in
theorem oldest_history_spec (history : UnorderedMap String ExpertHistory) (h : 0 < history.size) :
    ∃ key, oldest_history history = some key ∧ key ∈ history := by
  have hsome : ∀ c p, (older c p).isSome := by
    intro c p
    cases c with
    | none => rfl
    | some c =>
      rw [older]
      split <;> rfl
  have hmem : ∀ c p r, older c p = some r → c = some r ∨ r = p ∧ True := by
    intro c p r hr
    cases c with
    | none => exact Or.inr ⟨(Option.some.inj hr).symm, trivial⟩
    | some c =>
      rw [older] at hr
      split at hr
      · exact Or.inr ⟨(Option.some.inj hr).symm, trivial⟩
      · exact Or.inl hr
  obtain ⟨p, hp⟩ := Option.isSome_iff_exists.mp
    (UnorderedMap.isSome_foldl (c := none) hsome (List.ne_nil_of_length_pos h))
  have hstored := (UnorderedMap.mem_of_foldl_eq_some hmem hp).resolve_left (by simp)
  exact ⟨p.1, by rw [oldest_history, hp]; rfl, UnorderedMap.mem_of_mem_entries hstored.1⟩

variable (buckets : UnorderedMap.BucketOrder String)

omit [DecidableEq Handle] in
/-- The history has room for one more key, and the other keys were there before. -/
theorem remember_spec {key : String} {e : ExpertEntry Handle} (hkey : key ∉ s.history)
    (hsize : s.history.size ≤ s.history_limit.toNat) :
    (∀ k, k ∈ s.remember buckets key e → k = key ∨ k ∈ s.history) ∧
      (s.remember buckets key e).size ≤ s.history_limit.toNat := by
  rw [remember]
  by_cases hlimit : s.history_limit ≠ 0
  · have hpos : 0 < s.history_limit.toNat := by
      have hne : s.history_limit.toNat ≠ 0 := fun h0 => hlimit (UInt64.toNat.inj h0)
      omega
    rw [if_pos hlimit]
    by_cases hfull : s.history.size ≥ s.history_limit.toNat
    · obtain ⟨oldest, holdest, hmem⟩ := oldest_history_spec s.history (by omega)
      obtain ⟨h, hh⟩ := Option.isSome_iff_exists.mp (AList.lookup_isSome.mpr hmem)
      have hless := UnorderedMap.size_erase hh
      have hkey' : key ∉ s.history.erase oldest := fun hk => hkey (AList.mem_erase.mp hk).2
      simp only [if_pos hfull, holdest]
      constructor
      · intro k hk
        exact (UnorderedMap.mem_put.mp hk).imp_right fun hk => (AList.mem_erase.mp hk).2
      · rw [UnorderedMap.size_put_of_notMem hkey']
        omega
    · simp only [if_neg hfull]
      constructor
      · exact fun k hk => UnorderedMap.mem_put.mp hk
      · rw [UnorderedMap.size_put_of_notMem hkey]
        omega
  · rw [if_neg hlimit]
    exact ⟨fun k hk => Or.inr hk, hsize⟩

/-- **An eviction**: one entry without a lease goes, and with it what it counted for in the
accounts; or there is none, and nothing has changed. -/
theorem evict_one_cases (h : s.evict_one buckets = some s') :
    ∃ key e, s.entries.lookup key = some e ∧ e.value ∉ s.leases ∧
      s'.entries = s.entries.erase key ∧ Shrunk s s' := by
  rw [evict_one] at h
  split at h
  · cases h
  next key e hcandidate =>
  obtain ⟨hmem, hcount⟩ := eviction_candidate_spec hcandidate
  have he : s.entries.lookup key = some e := UnorderedMap.lookup_of_mem hmem
  have hlease : e.value ∉ s.leases := notMem_leases_of_use_count hmem hcount
  have hkey : key ∈ s.entries := UnorderedMap.mem_of_mem_entries hmem
  obtain rfl := Option.some.inj h
  refine ⟨key, e, he, hlease, rfl, ?_⟩
  constructor
  case accounted =>
    intro hs
    have hbytes := UnorderedMap.weight_erase (fun e => e.bytes.toNat) he
    -- the entry is one of those that are summed up, so the difference does not wrap
    have hle : e.bytes ≤ s.resident_bytes := by
      rw [UInt64.le_iff_toNat_le, hs.resident, stored_bytes, hbytes]
      omega
    obtain ⟨hmem, hsize⟩ := remember_spec buckets (e := e)
      (fun hk => hs.history_disjoint key hk hkey) hs.history_size
    constructor
    case resident =>
      change (s.resident_bytes - e.bytes).toNat = _
      rw [UInt64.toNat_sub_of_le _ _ hle, hs.resident, stored_bytes, hbytes]
      simp [stored_bytes, sync_stats]
    case peak =>
      have hpeak := UInt64.le_iff_toNat_le.mp hs.peak
      rw [UInt64.le_iff_toNat_le]
      change (s.resident_bytes - e.bytes).toNat ≤ s.stats.peak_bytes.toNat
      rw [UInt64.toNat_sub_of_le _ _ hle]
      omega
    case shown => rfl
    case history_disjoint =>
      intro k hk hk'
      obtain ⟨hne, hk'⟩ := AList.mem_erase.mp hk'
      rcases hmem k hk with rfl | hk
      · exact hne rfl
      · exact hs.history_disjoint k hk hk'
    case history_size => exact hsize
    case proper =>
      intro k e' he'
      have hne : k ≠ key := by
        rintro rfl
        cases (AList.lookup_erase k s.entries).symm.trans he'
      exact hs.proper k e' ((AList.lookup_erase_ne hne).symm.trans he')
  case kept =>
    intro k e' he' hlease'
    have hne : k ≠ key := by
      rintro rfl
      -- a leased entry is no candidate
      rw [he] at he'
      cases he'
      exact hlease hlease'
    exact (AList.lookup_erase_ne hne).trans he'
  case mem => exact fun k hk => (AList.mem_erase.mp hk).2
  all_goals rfl

theorem evict_while_shrunk (more : ExpertCache Handle → Bool) (fuel : Nat) (s : ExpertCache Handle) :
    Shrunk s (evict_while buckets more fuel s).1 := by
  induction fuel generalizing s with
  | zero => exact .refl s
  | succ fuel ih =>
    rw [evict_while]
    split
    · split
      · exact .refl s
      next s₁ hevict =>
        obtain ⟨_, _, _, _, _, hshrunk⟩ := evict_one_cases buckets hevict
        exact hshrunk.trans (ih s₁)
    · exact .refl s

/-- A loop that succeeds has evicted enough. -/
theorem evict_while_true {more : ExpertCache Handle → Bool} {fuel : Nat}
    (h : (evict_while buckets more fuel s).2 = true) :
    more (evict_while buckets more fuel s).1 = false := by
  induction fuel generalizing s with
  | zero => simpa [evict_while] using h
  | succ fuel ih =>
    rw [evict_while] at h ⊢
    split at h
    next hmore =>
      split at h
      · cases h
      next s₁ hevict => simpa only [if_pos hmore, hevict] using ih h
    next hmore => simpa [if_neg hmore] using hmore

/-- The number of entries is enough fuel: a loop that gives up has nothing left to evict. -/
theorem evict_while_false {more : ExpertCache Handle → Bool} {fuel : Nat}
    (hfuel : s.entries.size ≤ fuel) (h : (evict_while buckets more fuel s).2 = false) :
    (evict_while buckets more fuel s).1.evict_one buckets = none := by
  have hnone : ∀ {s : ExpertCache Handle}, s.entries.size = 0 → s.evict_one buckets = none := by
    intro s hsize
    rcases hevict : s.evict_one buckets with _ | s₁
    · rfl
    · obtain ⟨key, e, he, _⟩ := evict_one_cases buckets hevict
      have hless := UnorderedMap.size_erase he
      omega
  induction fuel generalizing s with
  | zero => exact hnone (Nat.le_zero.mp hfuel)
  | succ fuel ih =>
    rw [evict_while] at h ⊢
    split at h
    next hmore =>
      rw [if_pos hmore]
      split at h
      next hevict => simp only [hevict]
      next s₁ hevict =>
        obtain ⟨key, e, he, _, hentries, _⟩ := evict_one_cases buckets hevict
        have hless := UnorderedMap.size_erase he
        rw [← hentries] at hless
        simpa only [hevict] using ih (by omega) h
    · cases h

theorem make_room_shrunk (s : ExpertCache Handle) (bytes : UInt64) :
    Shrunk s (s.make_room buckets bytes).1 := by
  rw [make_room]
  split
  · exact .refl s
  · exact evict_while_shrunk buckets _ _ s

/-- Room for the bytes within the budget. -/
theorem make_room_true (bytes : UInt64) (hpending : s.pending_bytes = 0)
    (h : (s.make_room buckets bytes).2 = true) :
    (s.make_room buckets bytes).1.resident_bytes.toNat + bytes.toNat ≤ s.budget_bytes.toNat := by
  rw [make_room] at h ⊢
  by_cases hrefused : (bytes > s.budget_bytes || s.pending_bytes > s.budget_bytes - bytes) = true
  · rw [if_pos hrefused] at h
    cases h
  · rw [if_neg hrefused] at h ⊢
    dsimp only at h ⊢
    rw [hpending, UInt64.zero_add] at h ⊢
    have hroom := evict_while_true buckets h
    have hbytes : bytes ≤ s.budget_bytes := by
      rw [UInt64.le_iff_toNat_le]
      simp only [Bool.or_eq_true, decide_eq_true_eq, gt_iff_lt, UInt64.lt_iff_toNat_lt] at hrefused
      omega
    rw [decide_eq_false_iff_not, gt_iff_lt, UInt64.not_lt, UInt64.le_iff_toNat_le,
      UInt64.toNat_sub_of_le _ _ hbytes] at hroom
    have hle := UInt64.le_iff_toNat_le.mp hbytes
    omega

/-! ### Loaders that call the cache -/

omit [DecidableEq Handle] in
/-- What calls during a load can do: they are refused, and references come and go. -/
structure Reentered (s s' : ExpertCache Handle) : Prop where
  entries : s'.entries = s.entries
  history : s'.history = s.history
  budget : s'.budget_bytes = s.budget_bytes
  limit : s'.history_limit = s.history_limit
  resident : s'.resident_bytes = s.resident_bytes
  pending : s'.pending_bytes = s.pending_bytes
  loading : s'.loading = s.loading
  peak : s'.stats.peak_bytes = s.stats.peak_bytes
  shown : s'.stats.resident_bytes = s.stats.resident_bytes

omit [DecidableEq Handle] in
theorem Reentered.refl (s : ExpertCache Handle) : Reentered s s :=
  ⟨rfl, rfl, rfl, rfl, rfl, rfl, rfl, rfl, rfl⟩

omit [DecidableEq Handle] in
theorem Reentered.trans (h : Reentered s s₁) (h' : Reentered s₁ s') : Reentered s s' where
  entries := h'.entries.trans h.entries
  history := h'.history.trans h.history
  budget := h'.budget.trans h.budget
  limit := h'.limit.trans h.limit
  resident := h'.resident.trans h.resident
  pending := h'.pending.trans h.pending
  loading := h'.loading.trans h.loading
  peak := h'.peak.trans h.peak
  shown := h'.shown.trans h.shown

omit [DecidableEq Handle] in
theorem Reentered.accounted (h : Reentered s s') (hs : s.Accounted) : s'.Accounted where
  resident := by
    rw [h.resident, hs.resident, ExpertCache.stored_bytes, ExpertCache.stored_bytes, h.entries]
  peak := by
    rw [h.resident, h.peak]
    exact hs.peak
  shown := by rw [h.shown, hs.shown, h.resident]
  history_disjoint := by
    rw [h.history, h.entries]
    exact hs.history_disjoint
  history_size := by
    rw [h.history, h.limit]
    exact hs.history_size
  proper := by
    rw [h.entries]
    exact hs.proper

/-- A loader that does nothing to the cache but what its calls can do. -/
def Reentrant (loader : ExpertLoader Handle) : Prop :=
  ∀ s : ExpertCache Handle, s.loading = true → Reentered s (loader s).1

/-- While something is loading, a call is refused. -/
theorem run_reentered (call : ExpertCall Handle) (h : s.loading = true) :
    Reentered s (call.run buckets s).1 := by
  cases call with
  | acquire key bytes loader =>
    rw [ExpertCall.run, acquire, if_pos h]
    exact ⟨rfl, rfl, rfl, rfl, rfl, rfl, rfl, rfl, rfl⟩
  | set_budget bytes =>
    rw [ExpertCall.run, set_budget, if_pos h]
    exact .refl s
  | trim =>
    rw [ExpertCall.run, trim, if_pos h]
    exact .refl s
  | clear =>
    rw [ExpertCall.run, clear, if_pos h]
    exact .refl s
  | hold value => exact ⟨rfl, rfl, rfl, rfl, rfl, rfl, rfl, rfl, rfl⟩
  | drop value => exact ⟨rfl, rfl, rfl, rfl, rfl, rfl, rfl, rfl, rfl⟩

theorem runs_reentered (calls : List (ExpertCall Handle)) (h : s.loading = true) :
    Reentered s (ExpertCall.runs buckets s calls) := by
  induction calls generalizing s with
  | nil =>
    rw [ExpertCall.runs]
    exact .refl s
  | cons call calls ih =>
    rw [ExpertCall.runs]
    have hcall := run_reentered buckets call h
    exact hcall.trans (ih (hcall.loading.trans h))

theorem callback_reentrant (callback : ExpertCallback Handle) :
    ∀ loader ∈ callback.run buckets, Reentrant loader := by
  intro loader hloader
  cases callback with
  | empty =>
    rw [ExpertCallback.run] at hloader
    cases hloader
  | function body result =>
    rw [ExpertCallback.run] at hloader
    obtain rfl := Option.some.inj hloader
    exact fun s hs => runs_reentered buckets body hs

/-! ### Acquiring -/

omit [DecidableEq Handle] in
theorem Shrunk.keeps (h : Shrunk s s') : Kept s s' := fun key e he hlease =>
  ⟨e, h.kept key e he hlease, rfl⟩

omit [DecidableEq Handle] in
theorem Shrunk.sound (h : Shrunk s s') (hs : s.Sound) : s'.Sound where
  toAccounted := h.accounted hs.toAccounted
  pending := h.pending.trans hs.pending
  idle := h.loading.trans hs.idle

omit [DecidableEq Handle] in
/-- The rollback releases the reservation. -/
theorem roll_back_sound {bytes : UInt64} (hs : s.Accounted) (hpending : s.pending_bytes = bytes)
    (reason : ExpertError) : (s.roll_back bytes reason).1.Sound where
  toAccounted := ⟨hs.resident, hs.peak, rfl, hs.history_disjoint, hs.history_size, hs.proper⟩
  pending := by
    change s.pending_bytes - bytes = 0
    rw [hpending, UInt64.sub_self]
  idle := rfl

/-- What a commit does when there is room for the bytes and the key is new. -/
structure Committed (s : ExpertCache Handle) (key : String) (bytes : UInt64) (loaded : Handle)
    (r : ExpertCache Handle × Except ExpertError Handle) : Prop where
  sound : r.1.Sound
  answer : r.2 = .ok loaded
  budget : r.1.budget_bytes = s.budget_bytes
  resident : r.1.resident_bytes.toNat = s.resident_bytes.toNat + bytes.toNat
  others : ∀ k e, k ≠ key → s.entries.lookup k = some e →
    ∃ e', r.1.entries.lookup k = some e' ∧ core e' = core e

theorem le_peak (peak bytes : UInt64) : bytes ≤ max peak bytes := by
  change bytes ≤ if peak ≤ bytes then bytes else peak
  split
  · exact UInt64.le_refl bytes
  next h => exact UInt64.le_of_lt (UInt64.not_le.mp h)

omit [DecidableEq Handle] in
theorem commit_committed {key : String} {bytes : UInt64} (loaded : Handle) (hs : s.Accounted)
    (hpending : s.pending_bytes = bytes) (hkey : key.isEmpty = false) (hbytes : bytes ≠ 0)
    (hroom : s.resident_bytes.toNat + bytes.toNat ≤ s.budget_bytes.toNat)
    (hnew : key ∉ s.entries) : Committed s key bytes loaded (s.commit buckets key bytes loaded) := by
  have htick := bookkept_next_tick s
  have hs' := htick.accounted hs
  have hnew' : key ∉ s.next_tick.entries := by rwa [htick.mem]
  have hmax : s.budget_bytes.toNat < 2 ^ 64 := s.budget_bytes.toNat_lt
  -- the sum fits the budget, and so the word: the check on overflow lets it pass
  have hfits : ¬s.resident_bytes > SIZE_MAX - bytes := by
    rw [gt_iff_lt, UInt64.lt_iff_toNat_lt, UInt64.toNat_sub_of_le _ _ (by
      rw [UInt64.le_iff_toNat_le]
      change bytes.toNat ≤ 2 ^ 64 - 1
      omega)]
    change ¬(2 ^ 64 - 1 - bytes.toNat < _)
    omega
  have hadd : (s.resident_bytes + bytes).toNat = s.resident_bytes.toNat + bytes.toNat := by
    rw [UInt64.toNat_add, Nat.mod_eq_of_lt (by omega)]
  rw [commit, if_neg hfits]
  dsimp only
  rw [if_neg (by rwa [AList.lookup_isSome])]
  constructor
  case answer => rfl
  case budget => exact htick.budget
  case resident =>
    -- the new entry weighs what the sum has grown by
    change (s.next_tick.resident_bytes + bytes).toNat = _
    rw [htick.resident, hadd]
  case others =>
    intro k e hne he
    obtain ⟨e', he', hcore⟩ := htick.exists_lookup he
    exact ⟨e', (UnorderedMap.lookup_put_of_ne hne).trans he', hcore⟩
  case sound =>
    constructor
    case pending =>
      change s.next_tick.pending_bytes - bytes = 0
      rw [htick.pending, hpending, UInt64.sub_self]
    case idle => rfl
    constructor
    case resident =>
      change (s.next_tick.resident_bytes + bytes).toNat =
        UnorderedMap.weight _ (UnorderedMap.put buckets s.next_tick.entries key _)
      rw [UnorderedMap.weight_put_of_notMem _ hnew', htick.resident, hadd, hs.resident,
        ← htick.stored_bytes, stored_bytes, Nat.add_comm]
    case peak => exact le_peak _ _
    case shown => rfl
    case history_disjoint =>
      intro k hk hk'
      obtain ⟨hne, hk⟩ := AList.mem_erase.mp hk
      rcases UnorderedMap.mem_put.mp hk' with rfl | hk'
      · exact hne rfl
      · exact hs'.history_disjoint k hk hk'
    case history_size =>
      refine le_trans ?_ hs'.history_size
      exact (List.kerase_sublist key s.next_tick.history.entries).length_le
    case proper =>
      intro k e he
      by_cases hk : k = key
      · subst hk
        obtain rfl := Option.some.inj (UnorderedMap.lookup_put.symm.trans he)
        exact ⟨hkey, hbytes⟩
      · exact hs'.proper k e ((UnorderedMap.lookup_put_of_ne hk).symm.trans he)

/-- What an acquire does to a cache in order. -/
structure Acquired (s : ExpertCache Handle) (key : String)
    (r : ExpertCache Handle × Except ExpertError Handle) : Prop where
  sound : r.1.Sound
  kept : Kept s r.1
  within : key ∉ s.entries → ∀ value, r.2 = .ok value → r.1.resident_bytes ≤ r.1.budget_bytes
  no_overflow : r.2 ≠ .error .byte_counter_overflow

omit [DecidableEq Handle] in
theorem Sound.refuse (hs : s.Sound) {key : String} {reason : ExpertError}
    (hreason : reason ≠ .byte_counter_overflow) : Acquired s key (s.refuse reason) where
  sound := (bookkept_refuse (α := Handle) s reason).sound hs
  kept := (bookkept_refuse (α := Handle) s reason).kept
  within := nofun
  no_overflow := fun h => hreason (Except.error.inj h)

omit [DecidableEq Handle] in
theorem Acquired.of_kept {key : String} {r : ExpertCache Handle × Except ExpertError Handle}
    (hkept : Kept s s₁) (hleases : s₁.leases = s.leases) (hmem : ∀ k, k ∈ s₁.entries → k ∈ s.entries)
    (h : Acquired s₁ key r) : Acquired s key r where
  sound := h.sound
  kept := by
    intro k e he hlease
    obtain ⟨e₁, he₁, hcore⟩ := hkept k e he hlease
    have hvalue : e₁.value = e.value := congrArg Prod.fst hcore
    obtain ⟨e₂, he₂, hcore'⟩ := h.kept k e₁ he₁ (by rwa [hleases, hvalue])
    exact ⟨e₂, he₂, hcore'.trans hcore⟩
  within := fun hkey => h.within fun hk => hkey (hmem key hk)
  no_overflow := h.no_overflow

omit [DecidableEq Handle] in
/-- A hit adds a lease. -/
theorem hit_acquired (hs : s.Sound) {key : String} (e : ExpertEntry Handle) (bytes : UInt64)
    (hkey : key ∈ s.entries) : Acquired s key (s.hit key e bytes) := by
  have htouch := (bookkept_count_hit s bytes).trans (bookkept_touch (s.count_hit bytes) key)
  constructor
  case sound => exact (htouch.sound hs).leases _
  case kept => exact htouch.kept
  case within => exact fun hnew => absurd hkey hnew
  case no_overflow => nofun

omit [DecidableEq Handle] in
/-- What happens once there is room. -/
theorem try_load_acquired {loader : ExpertLoader Handle} (hloader : Reentrant loader)
    (hs : s.Sound) {key : String} {bytes : UInt64} (hkey : key.isEmpty = false)
    (hbytes : bytes ≠ 0) (hnew : key ∉ s.entries)
    (hroom : s.resident_bytes.toNat + bytes.toNat ≤ s.budget_bytes.toNat) :
    Acquired s key (s.try_load buckets key bytes loader) := by
  have hs₁ : (s.reserve bytes).Accounted :=
    ⟨hs.resident, hs.peak, hs.shown, hs.history_disjoint, hs.history_size, hs.proper⟩
  have hpending : (s.reserve bytes).pending_bytes = bytes := by
    rw [reserve, hs.pending, UInt64.zero_add]
  have hreentered : Reentered (s.reserve bytes) (loader (s.reserve bytes)).1 := hloader _ rfl
  rw [try_load]
  rcases hresult : loader (s.reserve bytes) with ⟨s₂, message | _ | loaded⟩
  -- whatever the loader does in between, it leaves what it finds, and the reserve
  all_goals
    rw [hresult] at hreentered
    have hs₂ : s₂.Accounted := hreentered.accounted hs₁
    have hpending₂ : s₂.pending_bytes = bytes := hreentered.pending.trans hpending
    have hentries : s₂.entries = s.entries := hreentered.entries
    have hkept : ∀ reason, Kept s (s₂.roll_back bytes reason).1 := fun _ k e he _ =>
      ⟨e, (congrArg (AList.lookup k) hentries).trans he, rfl⟩
  · exact ⟨roll_back_sound hs₂ hpending₂ _, hkept _, fun _ _ => nofun, nofun⟩
  · exact ⟨roll_back_sound hs₂ hpending₂ _, hkept _, fun _ _ => nofun, nofun⟩
  · have hroom₂ : s₂.resident_bytes.toNat + bytes.toNat ≤ s₂.budget_bytes.toNat := by
      rw [hreentered.resident, hreentered.budget]
      exact hroom
    have hcommit := commit_committed buckets loaded hs₂ hpending₂ hkey hbytes hroom₂
      (by rwa [hentries])
    constructor
    case sound => exact hcommit.sound
    case kept =>
      intro k e he _
      have hne : k ≠ key := by
        rintro rfl
        exact hnew (AList.lookup_isSome.mp (by rw [he]; rfl))
      exact hcommit.others k e hne ((congrArg (AList.lookup k) hentries).trans he)
    case within =>
      intro _ _ _
      rw [UInt64.le_iff_toNat_le, hcommit.resident, hcommit.budget]
      exact hroom₂
    case no_overflow =>
      intro h
      cases hcommit.answer.symm.trans h

theorem miss_acquired {loader : Option (ExpertLoader Handle)}
    (hloader : ∀ l ∈ loader, Reentrant l) (hs : s.Sound) {key : String} {bytes : UInt64}
    (hkey : key.isEmpty = false) (hbytes : bytes ≠ 0) (hnew : key ∉ s.entries) :
    Acquired s key (s.miss buckets key bytes loader) := by
  cases loader with
  | none => exact hs.refuse nofun
  | some loader =>
    have hshrunk := make_room_shrunk buckets s bytes
    have hroom := make_room_true buckets bytes hs.pending
    rw [miss]
    rcases hmake : s.make_room buckets bytes with ⟨s₁, _ | _⟩
    all_goals
      rw [hmake] at hshrunk hroom
      have hs₁ : s₁.Sound := hshrunk.sound hs
      refine Acquired.of_kept hshrunk.keeps hshrunk.leases hshrunk.mem ?_
    · exact hs₁.refuse nofun
    · refine try_load_acquired buckets (hloader loader rfl) hs₁ hkey hbytes
        (fun h => hnew (hshrunk.mem key h)) ?_
      rw [hshrunk.budget]
      exact hroom rfl

/-- **An acquire keeps the accounts**, whatever the loader does: it may return, throw, or call the
cache itself before it is done. -/
theorem acquire_acquired {loader : Option (ExpertLoader Handle)}
    (hloader : ∀ l ∈ loader, Reentrant l) (hs : s.Sound) (key : String) (bytes : UInt64) :
    Acquired s key (s.acquire buckets key bytes loader) := by
  have hbegin := bookkept_begin_operation s
  have hmiss := hbegin.trans (bookkept_count_miss s.begin_operation bytes)
  rw [acquire, if_neg (by simp [hs.idle])]
  by_cases hkey : key.isEmpty = true
  · rw [if_pos hkey]
    exact hs.refuse nofun
  rw [if_neg hkey]
  by_cases hbytes : bytes = 0
  · rw [if_pos hbytes]
    exact hs.refuse nofun
  rw [if_neg hbytes]
  rcases hfound : s.begin_operation.entries.lookup key with _ | e
  · have hnew : key ∉ (s.begin_operation.count_miss bytes).entries := AList.lookup_eq_none.mp hfound
    simp only [hfound]
    exact .of_kept hmiss.kept hmiss.leases (fun k hk => (hmiss.mem k).mp hk)
      (miss_acquired buckets hloader (hmiss.sound hs) (by simpa using hkey) hbytes hnew)
  · have hmem : key ∈ s.begin_operation.entries := AList.lookup_isSome.mp (by rw [hfound]; rfl)
    simp only [hfound]
    refine .of_kept hbegin.kept hbegin.leases (fun k hk => (hbegin.mem k).mp hk) ?_
    split
    · exact (hbegin.sound hs).refuse nofun
    · exact hit_acquired (hbegin.sound hs) e bytes hmem

/-- A resident key: the loader is not called. -/
theorem acquire_resident (hs : s.Sound) {key : String} {e : ExpertEntry Handle}
    (he : s.entries.lookup key = some e) (bytes : UInt64) (loader : Option (ExpertLoader Handle)) :
    s.acquire buckets key bytes loader = s.acquire buckets key bytes none ∧
      (bytes = e.bytes → (s.acquire buckets key bytes loader).2 = .ok e.value) ∧
      (bytes ≠ e.bytes → ∃ reason, (s.acquire buckets key bytes loader).2 = .error reason) := by
  obtain ⟨hkey, hproper⟩ := hs.proper key e he
  obtain ⟨e', he', hcore⟩ := (bookkept_begin_operation s).exists_lookup he
  have hvalue : e'.value = e.value := congrArg Prod.fst hcore
  have hbytes : e'.bytes = e.bytes := congrArg Prod.snd hcore
  have hloading : ¬s.loading = true := by simp [hs.idle]
  have hkey' : ¬key.isEmpty = true := by simp [hkey]
  have hacquire : ∀ loader, s.acquire buckets key bytes loader =
      if bytes = 0 then s.refuse .size_is_zero
      else if e.bytes ≠ bytes then s.begin_operation.refuse .different_size
      else s.begin_operation.hit key e' bytes := by
    intro loader
    simp only [acquire, if_neg hloading, if_neg hkey', he', hbytes]
  rw [hacquire, hacquire]
  refine ⟨rfl, ?_, ?_⟩
  · rintro rfl
    rw [if_neg hproper, if_neg (not_not.mpr rfl), hit, hvalue]
  · intro hne
    by_cases h0 : bytes = 0
    · exact ⟨.size_is_zero, by rw [if_pos h0]; rfl⟩
    · exact ⟨.different_size, by rw [if_neg h0, if_pos hne.symm]; rfl⟩

/-! ### The other operations -/

omit [DecidableEq Handle] in
theorem Sound.sync_stats (hs : s.Sound) : s.sync_stats.Sound :=
  ⟨⟨hs.resident, hs.peak, rfl, hs.history_disjoint, hs.history_size, hs.proper⟩, hs.pending, hs.idle⟩

theorem trim_sound (hs : s.Sound) : (s.trim buckets).1.Sound ∧ Kept s (s.trim buckets).1 := by
  have hshrunk := evict_while_shrunk buckets
    (fun s => s.resident_bytes > s.budget_bytes) s.entries.size s
  rw [trim, if_neg (by simp [hs.idle])]
  exact ⟨(hshrunk.sound hs).sync_stats, hshrunk.keeps⟩

theorem set_budget_sound (hs : s.Sound) (bytes : UInt64) :
    (s.set_budget buckets bytes).1.Sound ∧ Kept s (s.set_budget buckets bytes).1 := by
  have hs₁ : Sound { s with budget_bytes := bytes } :=
    ⟨⟨hs.resident, hs.peak, hs.shown, hs.history_disjoint, hs.history_size, hs.proper⟩,
      hs.pending, hs.idle⟩
  rw [set_budget, if_neg (by simp [hs.idle])]
  exact trim_sound buckets hs₁

theorem clear_sound (hs : s.Sound) : (s.clear buckets).1.Sound ∧ Kept s (s.clear buckets).1 := by
  have hshrunk := evict_while_shrunk buckets (fun _ => true) s.entries.size s
  have hs₁ := hshrunk.sound hs
  rw [clear, if_neg (by simp [hs.idle])]
  refine ⟨?_, hshrunk.keeps⟩
  exact ⟨⟨hs₁.resident, hs₁.peak, rfl, fun _ h => absurd h (AList.notMem_empty _),
    Nat.zero_le _, hs₁.proper⟩, hs₁.pending, hs₁.idle⟩

/-! ### Runs -/

/-- What a call does to a cache in order. -/
structure Called (s : ExpertCache Handle) (call : ExpertCall Handle)
    (r : ExpertCache Handle × Except ExpertError (ExpertAnswer Handle)) : Prop where
  sound : r.1.Sound
  kept : Kept s r.1
  /-- A miss that succeeds ends within the budget. -/
  within : ∀ key bytes loader value, call = .acquire key bytes loader → key ∉ s.entries →
    r.2 = .ok (.lease value) → r.1.resident_bytes ≤ r.1.budget_bytes
  no_overflow : r.2 ≠ .error .byte_counter_overflow

theorem run_called (hs : s.Sound) (call : ExpertCall Handle) :
    Called s call (call.run buckets s) := by
  cases call with
  | acquire key bytes loader =>
    have h := acquire_acquired buckets (callback_reentrant buckets loader) hs key bytes
    rw [ExpertCall.run]
    rcases hresult : s.acquire buckets key bytes (loader.run buckets) with ⟨s', reason | value⟩
    all_goals rw [hresult] at h
    · exact ⟨h.sound, h.kept, nofun, fun hreason =>
        h.no_overflow (congrArg _ (Except.error.inj hreason))⟩
    · refine ⟨h.sound, h.kept, ?_, nofun⟩
      rintro _ _ _ _ ⟨⟩ hnew _
      exact h.within hnew value rfl
  | set_budget bytes =>
    have h := set_budget_sound buckets hs bytes
    refine ⟨h.1, h.2, nofun, ?_⟩
    rw [ExpertCall.run, set_budget, if_neg (by simp [hs.idle]), trim, if_neg (by simp [hs.idle])]
    nofun
  | trim =>
    have h := trim_sound buckets hs
    refine ⟨h.1, h.2, nofun, ?_⟩
    rw [ExpertCall.run, trim, if_neg (by simp [hs.idle])]
    nofun
  | clear =>
    have h := clear_sound buckets hs
    refine ⟨h.1, h.2, nofun, ?_⟩
    rw [ExpertCall.run, clear, if_neg (by simp [hs.idle])]
    nofun
  | hold value => exact ⟨hs.leases _, fun _ e he _ => ⟨e, he, rfl⟩, nofun, nofun⟩
  | drop value => exact ⟨hs.leases _, fun _ e he _ => ⟨e, he, rfl⟩, nofun, nofun⟩

omit [DecidableEq Handle] in
theorem create_sound {budget_bytes decay_period history_limit : UInt64} {s : ExpertCache Handle}
    (h : create budget_bytes decay_period history_limit = .ok s) : s.Sound := by
  rw [create] at h
  split at h
  · cases h
  · obtain rfl := Except.ok.inj h
    exact ⟨⟨rfl, UInt64.le_refl 0, rfl, fun _ hk => absurd hk (AList.notMem_empty _),
      Nat.zero_le _, nofun⟩, rfl, rfl⟩

/-- **Every run keeps the accounts.** By induction on the calls, and within a call on those that its
loader makes: each of them starts and ends in a sound cache. -/
theorem runs_sound (hs : s.Sound) (calls : List (ExpertCall Handle)) :
    (ExpertCall.runs buckets s calls).Sound := by
  induction calls generalizing s with
  | nil =>
    rw [ExpertCall.runs]
    exact hs
  | cons call calls ih =>
    rw [ExpertCall.runs]
    exact ih (run_called buckets hs call).sound

/-- **The expert cache over every run**: the accounts between two calls, what the next call
can do, what an acquire of a resident key gives, and that a loader's own acquire is refused. -/
theorem runs_expert_cache {budget_bytes decay_period history_limit : UInt64}
    {cache : ExpertCache Handle}
    (h : create budget_bytes decay_period history_limit = .ok cache)
    (calls : List (ExpertCall Handle)) :
    (ExpertCall.runs buckets cache calls).Sound ∧
      (∀ call, Called (ExpertCall.runs buckets cache calls) call
        (call.run buckets (ExpertCall.runs buckets cache calls))) ∧
      (∀ key e bytes loader, (ExpertCall.runs buckets cache calls).entries.lookup key = some e →
        (ExpertCall.acquire key bytes loader).run buckets (ExpertCall.runs buckets cache calls) =
          (ExpertCall.acquire key bytes .empty).run buckets (ExpertCall.runs buckets cache calls) ∧
        (bytes = e.bytes → ((ExpertCall.acquire key bytes loader).run buckets
          (ExpertCall.runs buckets cache calls)).2 = .ok (.lease e.value)) ∧
        (bytes ≠ e.bytes → ∃ reason, ((ExpertCall.acquire key bytes loader).run buckets
          (ExpertCall.runs buckets cache calls)).2 = .error reason)) ∧
      (∀ (s : ExpertCache Handle) key bytes loader, s.loading = true →
        ((ExpertCall.acquire key bytes loader).run buckets s).2 = .error .reentrant_acquire) := by
  have hs := runs_sound buckets (create_sound h) calls
  refine ⟨hs, run_called buckets hs, ?_, ?_⟩
  · intro key e bytes loader he
    obtain ⟨hloader, hequal, hdiffer⟩ :=
      acquire_resident buckets hs he bytes (loader.run buckets)
    rw [ExpertCall.run, ExpertCall.run, ExpertCallback.run, hloader]
    rw [hloader] at hequal hdiffer
    refine ⟨rfl, fun hbytes => ?_, fun hbytes => ?_⟩
    · rw [Prod.map_snd, hequal hbytes]
      rfl
    · obtain ⟨reason, hreason⟩ := hdiffer hbytes
      exact ⟨reason, by rw [Prod.map_snd, hreason]; rfl⟩
  · intro s key bytes loader hs
    rw [ExpertCall.run, acquire, if_pos hs]
    rfl

/-- Two entries and the eviction of one of them, by a loader that calls the cache again. -/
theorem runs_expert_cache_evicting :
    (ExpertCall.runs (.newestFirst _)
      ({ budget_bytes := 4, decay_period := 64, history_limit := 2 } : ExpertCache Nat)
      [.acquire "a" 4 (.function [.trim, .acquire "c" 1 .empty] (.ok (some 7))), .drop 7,
        .acquire "b" 3 (.function [] (.ok (some 8)))]).Sound :=
  (runs_expert_cache (.newestFirst _) (show create 4 64 2 = Except.ok _ from rfl) _).1

/-- A resident key with another byte size is refused: its handle is not returned. -/
theorem not_resident_key_returned :
    ¬∀ (calls : List (ExpertCall Nat)) key e bytes loader,
      (ExpertCall.runs (.newestFirst _)
        { budget_bytes := 10, decay_period := 64, history_limit := 0 } calls).entries.lookup key =
          some e →
      ((ExpertCall.acquire key bytes loader).run (.newestFirst _) (ExpertCall.runs (.newestFirst _)
        { budget_bytes := 10, decay_period := 64, history_limit := 0 } calls)).2 =
          .ok (.lease e.value) := by
  intro h
  have hrefused := h [.acquire "a" 4 (.function [] (.ok (some 7)))] "a" ⟨7, 4, 1, 1⟩ 3
    (.function [] (.ok (some 8))) (by decide)
  revert hrefused
  decide

end ExpertCache

end Qwen38
