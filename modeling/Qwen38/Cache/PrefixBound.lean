import Mathlib.Algebra.Order.BigOperators.Group.List
import Mathlib.Data.List.Nodup
import Qwen38.Cache.PrefixPairs

/-!
# The size of the store

What `save` leaves on the disk when it returns. Its eviction looks at the complete pairs that
can be queried, the oldest first, and removes pairs until what it counts is within the limit
(`Qwen38.PrefixStore.evict_to_limit_cases`). A file that stands alone is not counted, and a
removal that fails is not noticed, so the limit holds of the pairs that were counted and could
be removed (`Qwen38.PrefixStore.save_fits`).
-/

namespace Qwen38

namespace PrefixStore

/-! ### Removing the oldest -/

section Eviction

variable {State : Type} {store : Store State} {kept : Bytes → Bool} {files files' : Files}

/-- The files without those of some entries, except where the removal fails. -/
def remove_entries (kept : Bytes → Bool) (removed : List Entry) (files : Files) : Files :=
  removed.foldl (fun files entry =>
    (files.remove entry.token_path (kept entry.token_path)).remove entry.state_path
      (kept entry.state_path)) files

variable (store kept) in
/-- The loop removes the first entries, up to where the rest is within the limit. -/
theorem evict_entries_cases (entries : List Entry) (files : Files) :
    ∃ removed rest, removed ++ rest = entries ∧
      evict_entries store kept (entries.map Entry.bytes).sum entries files =
        remove_entries kept removed files ∧
      (rest.map Entry.bytes).sum ≤ store.max_bytes ∧
      ((entries.map Entry.bytes).sum ≤ store.max_bytes → removed = []) := by
  induction entries generalizing files with
  | nil => exact ⟨[], [], rfl, rfl, Nat.zero_le _, fun _ => rfl⟩
  | cons entry entries ih =>
    by_cases hle : ((entry :: entries).map Entry.bytes).sum ≤ store.max_bytes
    · refine ⟨[], entry :: entries, rfl, ?_, hle, fun _ => rfl⟩
      rw [evict_entries, if_pos hle]
      rfl
    · obtain ⟨removed, rest, rfl, hevict, hrest, -⟩ :=
        ih ((files.remove entry.token_path (kept entry.token_path)).remove entry.state_path
          (kept entry.state_path))
      refine ⟨entry :: removed, rest, rfl, ?_, hrest, fun h => absurd h hle⟩
      rw [evict_entries, if_neg hle, List.map_cons, List.sum_cons, Nat.add_sub_cancel_left]
      exact hevict

theorem remove_eq (name : Bytes) (fails : Bool) (other : Bytes) :
    (files.remove name fails) other =
      if other = name ∧ fails = false then none else files other := by
  cases fails with
  | true => simp [Files.remove]
  | false =>
    by_cases heq : other = name
    · rw [if_pos ⟨heq, rfl⟩, heq]
      exact put_same files name none
    · rw [if_neg fun h => heq h.1]
      exact put_of_ne heq files none

theorem ite_none_or {α : Type} {p q : Prop} [Decidable p] [Decidable q] (x : Option α) :
    (if p then none else if q then none else x) = if p ∨ q then none else x := by
  by_cases hp : p <;> simp [hp]

/-- What is left of a file: nothing, when it was one of an entry's and its removal did not
fail. -/
theorem remove_entries_eq (removed : List Entry) (files : Files) (name : Bytes) :
    remove_entries kept removed files name =
      if (∃ entry ∈ removed, name = entry.token_path ∨ name = entry.state_path) ∧
        kept name = false then none else files name := by
  induction removed generalizing files with
  | nil => simp [remove_entries]
  | cons entry removed ih =>
    rw [remove_entries, List.foldl_cons, ← remove_entries, ih, remove_eq, remove_eq, ite_none_or,
      ite_none_or]
    refine if_congr ⟨?_, ?_⟩ rfl rfl
    · rintro ((⟨⟨other, hmem, hname⟩, hkept⟩ | ⟨rfl, hkept⟩) | ⟨rfl, hkept⟩)
      · exact ⟨⟨other, List.mem_cons_of_mem _ hmem, hname⟩, hkept⟩
      · exact ⟨⟨entry, List.mem_cons_self, Or.inr rfl⟩, hkept⟩
      · exact ⟨⟨entry, List.mem_cons_self, Or.inl rfl⟩, hkept⟩
    · rintro ⟨⟨other, hmem, hname⟩, hkept⟩
      rcases List.mem_cons.mp hmem with rfl | hmem
      · rcases hname with rfl | rfl
        · exact Or.inr ⟨rfl, hkept⟩
        · exact Or.inl (Or.inr ⟨rfl, hkept⟩)
      · exact Or.inl (Or.inl ⟨⟨other, hmem, hname⟩, hkept⟩)

/-- The entries that the eviction sees. -/
def entries_of (files : Files) (unqueried : Bytes → Bool) (names : List Bytes) : List Entry :=
  names.filterMap (entry_of files unqueried)

theorem entry_of_eq_some {unqueried : Bytes → Bool} {name : Bytes} {entry : Entry}
    (h : entry_of files unqueried name = some entry) :
    entry.token_path = name ∧ entry.state_path = state_path_of name ∧
      ∃ token_part state_part, files name = some token_part ∧
        files (state_path_of name) = some state_part := by
  rw [entry_of.eq_def] at h
  split at h
  · cases h
  split at h
  · next token_part state_part htoken hstate =>
    split at h
    · cases h
    · obtain rfl := Option.some.inj h
      exact ⟨rfl, rfl, token_part, state_part, htoken, hstate⟩
  · cases h

/-- A pair that is left was there before. -/
theorem entry_of_left {unqueried : Bytes → Bool} {name : Bytes} {entry : Entry}
    (hleft : ∀ other, files' other = files other ∨ files' other = none)
    (h : entry_of files' unqueried name = some entry) : entry_of files unqueried name = some entry := by
  obtain ⟨-, -, token_part, state_part, htoken, hstate⟩ := entry_of_eq_some h
  have hsame : ∀ {other file}, files' other = some file → files other = files' other := by
    intro other file hfile
    rcases hleft other with heq | hnone
    · exact heq.symm
    · cases hfile.symm.trans hnone
  rw [entry_of.eq_def] at h ⊢
  rw [hsame htoken, hsame hstate]
  exact h

/-- The order in which the eviction goes through the entries. -/
theorem pairwise_oldest_first (entries : List Entry) :
    (entries.mergeSort fun a b => decide (a.modified ≤ b.modified)).Pairwise fun a b =>
      decide (a.modified ≤ b.modified) = true := by
  refine List.pairwise_mergeSort ?_ ?_ entries
  · intro a b c hab hbc
    exact decide_eq_true ((of_decide_eq_true hab).trans (of_decide_eq_true hbc))
  · intro a b
    simpa using Nat.le_total a.modified b.modified

/-- **An eviction**: the entries, oldest first, are those whose removal is tried and a rest
within the limit. -/
theorem evict_to_limit_cases {faults : EvictionFaults} {listing : List Bytes}
    (h : evict_to_limit store faults listing files = some files') :
    ∃ removed rest, (removed ++ rest).Perm (entries_of files faults.unqueried listing) ∧
      (∀ entry ∈ removed, ∀ entry' ∈ rest, entry.modified ≤ entry'.modified) ∧
      files' = remove_entries faults.kept removed files ∧
      (rest.map Entry.bytes).sum ≤ store.max_bytes ∧
      (((entries_of files faults.unqueried listing).map Entry.bytes).sum ≤ store.max_bytes →
        removed = []) := by
  rw [evict_to_limit] at h
  split at h
  · cases h
  have hperm := List.mergeSort_perm (entries_of files faults.unqueried listing)
    fun a b => decide (a.modified ≤ b.modified)
  have hsorted := pairwise_oldest_first (entries_of files faults.unqueried listing)
  obtain ⟨removed, rest, hsplit, hevict, hrest, hnone⟩ :=
    evict_entries_cases store faults.kept
      ((entries_of files faults.unqueried listing).mergeSort fun a b =>
        decide (a.modified ≤ b.modified)) files
  rw [(hperm.map Entry.bytes).sum_eq] at hevict hnone
  rw [← hsplit] at hperm hsorted
  refine ⟨removed, rest, hperm, ?_, ?_, hrest, hnone⟩
  · intro entry hentry entry' hentry'
    exact of_decide_eq_true ((List.pairwise_append.mp hsorted).2.2 entry hentry entry' hentry')
  · rw [← hevict]
    exact (Option.some.inj h).symm

end Eviction

/-! ### What a save leaves -/

section Save

variable {State : Type} (store : Store State)

/-- An entry neither of whose files could be removed. -/
def EvictionFaults.keeps (faults : EvictionFaults) (entry : Entry) : Bool :=
  faults.kept entry.token_path && faults.kept entry.state_path

/-- **What an eviction makes of a directory.** -/
structure Fitted (faults : EvictionFaults) (listing : List Bytes) (before after : Files) : Prop where
  /-- Files are removed, and nothing else happens to them. -/
  left : ∀ name, after name = before name ∨ after name = none
  /-- The complete pairs are within the limit, without those that could not be queried and
  those that could not be removed. -/
  bound : ∀ names : List Bytes, names.Nodup →
    (((entries_of after faults.unqueried names).filter fun entry => !faults.keeps entry).map
      Entry.bytes).sum ≤ store.max_bytes
  /-- What is removed belongs to a pair that is no younger than the pairs that stay. -/
  oldest : ∀ name, (before name).isSome → after name = none →
    ∃ entry ∈ entries_of before faults.unqueried listing,
      (name = entry.token_path ∨ name = entry.state_path) ∧
      ∀ name' entry', entry_of after faults.unqueried name' = some entry' →
        faults.keeps entry' = false → entry.modified ≤ entry'.modified
  /-- Nothing is removed from pairs within the limit. -/
  enough : ((entries_of before faults.unqueried listing).map Entry.bytes).sum ≤ store.max_bytes →
    after = before

section

variable {store} {before after : Files}

/-- **An eviction of a directory that is listed in full.** -/
theorem fitted_of_evict {faults : EvictionFaults} {listing : List Bytes}
    (hlisting : ∀ name, (before name).isSome → name ∈ listing)
    (h : evict_to_limit store faults listing before = some after) :
    Fitted store faults listing before after := by
  obtain ⟨removed, rest, hperm, hsorted, rfl, hrest, hnone⟩ := evict_to_limit_cases h
  have hleft : ∀ name, remove_entries faults.kept removed before name = before name ∨
      remove_entries faults.kept removed before name = none := by
    intro name
    rw [remove_entries_eq]
    split
    · exact Or.inr rfl
    · exact Or.inl rfl
  -- a pair that is still there, and could have been removed, is of the rest
  have hstays : ∀ name entry,
      entry_of (remove_entries faults.kept removed before) faults.unqueried name = some entry →
      faults.keeps entry = false → entry ∈ rest := by
    intro name entry hentry hkeeps
    obtain ⟨htoken, hstate, token_part, state_part, htoken_file, hstate_file⟩ :=
      entry_of_eq_some hentry
    have hbefore := entry_of_left hleft hentry
    obtain ⟨-, -, file, -, hfile, -⟩ := entry_of_eq_some hbefore
    have hmem : entry ∈ entries_of before faults.unqueried listing :=
      List.mem_filterMap.mpr ⟨name, hlisting name (by rw [hfile]; rfl), hbefore⟩
    rcases List.mem_append.mp (hperm.mem_iff.mpr hmem) with hremoved | hrest
    · exfalso
      rw [← htoken] at htoken_file
      rw [← hstate] at hstate_file
      have hkept : ∀ {path file}, remove_entries faults.kept removed before path = some file →
          path = entry.token_path ∨ path = entry.state_path → faults.kept path = true := by
        intro path file hsome hpath
        by_contra hgone
        rw [remove_entries_eq, if_pos ⟨⟨entry, hremoved, hpath⟩, Bool.eq_false_iff.mpr hgone⟩] at hsome
        cases hsome
      rw [EvictionFaults.keeps, hkept htoken_file (Or.inl rfl), hkept hstate_file (Or.inr rfl)]
        at hkeeps
      cases hkeeps
    · exact hrest
  constructor
  case left => exact hleft
  case bound =>
    intro names hnames
    have hnodup : (entries_of (remove_entries faults.kept removed before) faults.unqueried
        names).Nodup := by
      refine List.Nodup.filterMap (fun name name' entry hentry hentry' => ?_) hnames
      rw [← (entry_of_eq_some hentry).1, ← (entry_of_eq_some hentry').1]
    have hsubset : (entries_of (remove_entries faults.kept removed before) faults.unqueried
        names).filter (fun entry => !faults.keeps entry) ⊆ rest := by
      intro entry hentry
      obtain ⟨hmem, hkeeps⟩ := List.mem_filter.mp hentry
      obtain ⟨name, -, hname⟩ := List.mem_filterMap.mp hmem
      exact hstays name entry hname (by simpa using hkeeps)
    obtain ⟨picked, hpicked, hsub⟩ := List.subperm_of_subset (hnodup.filter _) hsubset
    rw [← (hpicked.map Entry.bytes).sum_eq]
    exact ((hsub.map Entry.bytes).sum_le_sum fun _ _ => Nat.zero_le _).trans hrest
  case oldest =>
    intro name hsome hgone
    rw [remove_entries_eq] at hgone
    split at hgone
    · next hremoved =>
      obtain ⟨⟨entry, hentry, hname⟩, -⟩ := hremoved
      refine ⟨entry, hperm.mem_iff.mp (List.mem_append_left _ hentry), hname, ?_⟩
      exact fun name' entry' hentry' hkeeps =>
        hsorted entry hentry entry' (hstays name' entry' hentry' hkeeps)
    · rw [hgone] at hsome
      cases hsome
  case enough =>
    intro hle
    rw [hnone hle]
    rfl

/-- The two files of a save, when both are in place. -/
theorem save_pair_files {faults : SaveFaults} {now : Nat} {tokens : List UInt32} {state : State}
    {disk : Disk} (h : (save_pair store faults now tokens state disk).2 = true) :
    (save_pair store faults now tokens state disk).1.files (cache_key tokens ++ tokens_extension) =
        some ⟨token_file tokens, now⟩ ∧
      (save_pair store faults now tokens state disk).1.files (cache_key tokens ++ state_extension) =
        some ⟨store.save_prefix_state state, now⟩ := by
  let token_path := cache_key tokens ++ tokens_extension
  let state_path := cache_key tokens ++ state_extension
  let temporary_tokens := temporary_path token_path tokens_extension disk.temporary_counter
  let temporary_state := temporary_path state_path state_extension (disk.temporary_counter + 1)
  have hpath : ∀ {name}, Temporary name → token_path ≠ name ∧ state_path ≠ name := by
    intro name hname
    constructor
    · rintro rfl
      exact (not_temporary_key tokens).1 hname
    · rintro rfl
      exact (not_temporary_key tokens).2 hname
  have htokens : Temporary temporary_tokens := (temporary_temporary_path _ _).1
  have hstate : Temporary temporary_state := (temporary_temporary_path _ _).2
  have hne : temporary_tokens ≠ temporary_state := by
    intro heq
    have hext := congrArg extension heq
    rw [show extension temporary_tokens = tokens_extension from
      (extension_tokens (temporary_stem_ne_nil _ _)).1, show extension temporary_state =
      state_extension from (extension_state (temporary_stem_ne_nil _ _)).1] at hext
    exact absurd hext (by decide)
  rw [save_pair] at h ⊢
  rcases hwrite : faults.state_written with _ | left
  case failed =>
    rw [hwrite] at h
    cases h
  rcases hwrite' : faults.tokens_written with _ | left
  case failed =>
    rw [hwrite, hwrite'] at h
    cases h
  rw [hwrite, hwrite'] at h
  dsimp only [Write.put] at h ⊢
  split_ifs at h ⊢
  -- both writes and both renames
  dsimp only [Files.rename]
  constructor
  · rw [put_of_ne (hpath htokens).1, put_same, put_of_ne hne,
      put_of_ne (hpath htokens).2.symm, put_same]
  · rw [put_of_ne (hpath htokens).2, put_of_ne (tokens_name_ne_state_name tokens tokens).symm,
      put_of_ne (hpath hstate).2, put_same, put_of_ne hne.symm, put_same]

/-- A save that returns has placed its pair and then evicted. -/
theorem save_cases {faults : SaveFaults} {eviction : EvictionFaults} {listing : List Bytes}
    {now : Nat} {tokens : List UInt32} {state : State} {disk : Disk} (htokens : tokens ≠ [])
    (h : (save store faults eviction listing now tokens state disk).2 ≠ .thrown) :
    ∃ files, (save_pair store faults now tokens state disk).2 = true ∧
      evict_to_limit store eviction listing (save_pair store faults now tokens state disk).1.files =
        some files ∧
      (save store faults eviction listing now tokens state disk).1.files = files ∧
      ((save store faults eviction listing now tokens state disk).2 = .stored ↔
        ((files (cache_key tokens ++ tokens_extension)).isSome ∧
            eviction.unqueried (cache_key tokens ++ tokens_extension) = false) ∧
          (files (cache_key tokens ++ state_extension)).isSome ∧
            eviction.unqueried (cache_key tokens ++ state_extension) = false) := by
  rw [save, if_neg htokens] at h ⊢
  split at h
  · exact absurd rfl h
  next hstate =>
  rw [if_neg hstate]
  generalize save_pair store faults now tokens state disk = placed at h ⊢
  obtain ⟨disk', done⟩ := placed
  cases done with
  | false => exact absurd rfl h
  | true =>
    dsimp only at h ⊢
    rw [if_neg (by decide)] at h ⊢
    rcases hevict : evict_to_limit store eviction listing disk'.files with _ | files
    · rw [hevict] at h
      exact absurd rfl h
    · refine ⟨files, rfl, rfl, rfl, ?_⟩
      dsimp only
      rw [← Bool.not_eq_true', ← Bool.not_eq_true', ← Bool.and_eq_true, ← Bool.and_eq_true,
        ← Bool.and_eq_true]
      split
      next hpresent => exact iff_of_true rfl hpresent
      next hpresent => exact iff_of_false Saved.noConfusion hpresent

end

/-- **What a save leaves when it returns**, after every history. Saving no tokens does nothing.
Otherwise the complete pairs are within the limit, except for what could not be queried or
removed; what was removed are the oldest; and the answer is whether both files of the pair that
was written are there, when they can be queried. -/
theorem save_fits (operations : List (Operation State)) (faults : SaveFaults)
    (eviction : EvictionFaults) (listing : List Bytes) (now : Nat) (tokens : List UInt32)
    (state : State)
    (hlisting : ∀ name, ((save_pair store faults now tokens state
      (run store operations)).1.files name).isSome → name ∈ listing)
    (hreturns : (save store faults eviction listing now tokens state (run store operations)).2 ≠
      .thrown) :
    (tokens = [] → save store faults eviction listing now tokens state (run store operations) =
      (run store operations, .refused)) ∧
    (tokens ≠ [] →
      Fitted store eviction listing
        (save_pair store faults now tokens state (run store operations)).1.files
        (save store faults eviction listing now tokens state (run store operations)).1.files ∧
      ((save store faults eviction listing now tokens state (run store operations)).2 = .stored ↔
        ((save store faults eviction listing now tokens state (run store operations)).1.files
            (cache_key tokens ++ tokens_extension) = some ⟨token_file tokens, now⟩ ∧
          eviction.unqueried (cache_key tokens ++ tokens_extension) = false) ∧
        (save store faults eviction listing now tokens state (run store operations)).1.files
            (cache_key tokens ++ state_extension) = some ⟨store.save_prefix_state state, now⟩ ∧
          eviction.unqueried (cache_key tokens ++ state_extension) = false)) := by
  constructor
  · rintro rfl
    rw [save, if_pos rfl]
  · intro htokens
    obtain ⟨files, hdone, hevict, hfiles, hstored⟩ := save_cases htokens hreturns
    obtain ⟨htoken_file, hstate_file⟩ := save_pair_files hdone
    have hfitted := fitted_of_evict hlisting hevict
    -- a file of the pair is there exactly when what was written is there
    have hhere : ∀ {path file}, (save_pair store faults now tokens state
        (run store operations)).1.files path = some file →
        ((files path).isSome ↔ files path = some file) := by
      intro path file hbefore
      rcases hfitted.left path with hsame | hgone
      · rw [hsame, hbefore]
        exact iff_of_true rfl rfl
      · rw [hgone]
        exact iff_of_false Bool.false_ne_true (Option.some_ne_none _).symm
    rw [hfiles]
    refine ⟨hfitted, hstored.trans ?_⟩
    rw [hhere htoken_file, hhere hstate_file]

end Save

/-! ### Two saves -/

/-- The store of numbered states, with room for one pair. -/
def narrow : Store (Nat × Nat) := { numbered with max_bytes := 26 }

/-- A save whose tokens cannot be renamed: its state stays behind. -/
def orphan_run : List (Operation (Nat × Nat)) :=
  [.save [7] (1, 1) { no_faults with tokens_rename_fails := true } no_eviction_faults [] 0]

/-- The bytes of the files of the store among some names. -/
def stored_bytes (files : Files) (names : List Bytes) : Nat :=
  ((names.filter fun name => extension name = tokens_extension ∨ extension name = state_extension).map
    fun name => ((files name).map fun file => file.content.length).getD 0).sum

/-- The names the directory has after the second save. -/
def orphan_listing : List Bytes :=
  (cache_key [7] ++ state_extension) :: pair_names [7, 8]

/-- Where a file is after a change under one name. -/
theorem isSome_put {files : Files} {changed name : Bytes} {file : Option File}
    (h : ((files.put changed file) name).isSome) :
    name = changed ∧ file.isSome ∨ name ≠ changed ∧ (files name).isSome := by
  by_cases heq : name = changed
  · rw [heq, put_same] at h
    exact Or.inl ⟨heq, h⟩
  · rw [put_of_ne heq] at h
    exact Or.inr ⟨heq, h⟩

/-- The names after a save without faults. -/
theorem listed_of_save_pair {tokens : List UInt32} {state : Nat × Nat} {now : Nat} {disk : Disk}
    {name : Bytes}
    (h : ((save_pair narrow no_faults now tokens state disk).1.files name).isSome) :
    name ∈ pair_names tokens ∨ (disk.files name).isSome := by
  rcases isSome_put h with ⟨-, h⟩ | ⟨htokens, h⟩
  · cases h
  rcases isSome_put h with ⟨rfl, -⟩ | ⟨-, h⟩
  · exact Or.inl List.mem_cons_self
  rcases isSome_put h with ⟨-, h⟩ | ⟨hstate, h⟩
  · cases h
  rcases isSome_put h with ⟨rfl, -⟩ | ⟨-, h⟩
  · exact Or.inl (List.mem_cons_of_mem _ List.mem_cons_self)
  rcases isSome_put h with ⟨heq, -⟩ | ⟨-, h⟩
  · exact absurd heq htokens
  rcases isSome_put h with ⟨heq, -⟩ | ⟨-, h⟩
  · exact absurd heq hstate
  · exact Or.inr h

theorem orphan_listed (name : Bytes)
    (h : ((save_pair narrow no_faults 1 [7, 8] (2, 2) (run narrow orphan_run)).1.files
      name).isSome) : name ∈ orphan_listing := by
  rcases listed_of_save_pair h with hmem | h
  · exact List.mem_cons_of_mem _ hmem
  rcases isSome_put h with ⟨-, h⟩ | ⟨hstate, h⟩
  · cases h
  rcases isSome_put h with ⟨-, h⟩ | ⟨htokens, h⟩
  · cases h
  rcases isSome_put h with ⟨-, h⟩ | ⟨-, h⟩
  · cases h
  rcases isSome_put h with ⟨rfl, -⟩ | ⟨-, h⟩
  · exact List.mem_cons_self
  rcases isSome_put h with ⟨heq, -⟩ | ⟨-, h⟩
  · exact absurd heq htokens
  rcases isSome_put h with ⟨heq, -⟩ | ⟨-, h⟩
  · exact absurd heq hstate
  · cases h

theorem orphan_save : save narrow no_faults no_eviction_faults orphan_listing 1 [7, 8] (2, 2)
    (run narrow orphan_run) =
      ((save_pair narrow no_faults 1 [7, 8] (2, 2) (run narrow orphan_run)).1, .stored) := by
  have hevict : evict_to_limit narrow no_eviction_faults orphan_listing
      (save_pair narrow no_faults 1 [7, 8] (2, 2) (run narrow orphan_run)).1.files =
        some (save_pair narrow no_faults 1 [7, 8] (2, 2) (run narrow orphan_run)).1.files :=
    evict_to_limit_of_le rfl (by decide +kernel)
  have hdone : (save_pair narrow no_faults 1 [7, 8] (2, 2) (run narrow orphan_run)).2 = true := rfl
  obtain ⟨htoken_file, hstate_file⟩ := save_pair_files hdone
  rw [save, if_neg (by decide), if_neg (by decide)]
  generalize save_pair narrow no_faults 1 [7, 8] (2, 2) (run narrow orphan_run) = placed at *
  obtain ⟨disk, done⟩ := placed
  dsimp only at hdone hevict htoken_file hstate_file ⊢
  rw [hdone, if_neg (by decide), hevict]
  dsimp only
  simp only [htoken_file, hstate_file]
  rfl

theorem save_fits_orphan :
    Fitted narrow no_eviction_faults orphan_listing
      (save_pair narrow no_faults 1 [7, 8] (2, 2) (run narrow orphan_run)).1.files
      (save narrow no_faults no_eviction_faults orphan_listing 1 [7, 8] (2, 2)
        (run narrow orphan_run)).1.files :=
  ((save_fits narrow orphan_run no_faults no_eviction_faults orphan_listing 1 [7, 8]
    (2, 2) orphan_listed (by rw [orphan_save]; decide)).2 (by decide)).1

/-- The state that stayed behind is not counted, and never removed. -/
theorem not_within_max_bytes :
    ¬∀ (operations : List (Operation (Nat × Nat))) faults eviction listing now tokens state names,
      (save narrow faults eviction listing now tokens state (run narrow operations)).2 ≠ .thrown →
      names.Nodup → stored_bytes
        (save narrow faults eviction listing now tokens state (run narrow operations)).1.files names ≤
          narrow.max_bytes := by
  intro h
  have hle := h orphan_run no_faults no_eviction_faults orphan_listing 1 [7, 8] (2, 2)
    orphan_listing (by rw [orphan_save]; decide) (by decide)
  rw [orphan_save] at hle
  revert hle
  decide +kernel

end PrefixStore

end Qwen38
