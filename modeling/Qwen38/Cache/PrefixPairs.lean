import Qwen38.Cache.PrefixStore

/-!
# Which states a stored prefix comes back with

A stored pair is a file of tokens and a state under one hashed name, and the state is put in
place first. So a save that breaks off between its two renames leaves its state beside the
tokens that were there, which are those of another save when two lists of tokens have one
key; this is a *torn* save. The pair stays torn until a later save puts a state there that
belongs to its tokens, or one of the two files goes (`Qwen38.PrefixStore.torn_keys`).

Nothing else mixes two saves up (`Qwen38.PrefixStore.Sound`): temporary files never form a
pair, because no file has the name of the state that a temporary file of tokens would need.
So a load whose longest pair is not torn returns tokens with a state that was saved with them.
-/

namespace Qwen38

namespace PrefixStore

/-! ### Names -/

section Names

variable {base suffix name : Bytes}

theorem extension_append (hbase : base ≠ []) (hsuffix : (46 : UInt8) ∉ suffix) :
    extension (base ++ 46 :: suffix) = 46 :: suffix := by
  have htail : (46 : UInt8) ∈ (base ++ 46 :: suffix).tail := by
    rw [List.tail_append_of_ne_nil hbase]
    exact List.mem_append_right _ List.mem_cons_self
  have hsuffix' : (base ++ 46 :: suffix).rtakeWhile (· ≠ 46) = suffix := by
    rw [List.rtakeWhile, List.reverse_append, List.reverse_cons, List.append_assoc,
      List.takeWhile_append_of_pos]
    · simp
    · intro b hb
      simp only [List.mem_reverse] at hb
      exact decide_eq_true fun h => hsuffix (h ▸ hb)
  rw [extension, if_pos htail, hsuffix']

theorem stem_append (hbase : base ≠ []) (hsuffix : (46 : UInt8) ∉ suffix) :
    stem (base ++ 46 :: suffix) = base := by
  rw [stem, extension_append hbase hsuffix, List.length_append, Nat.add_sub_cancel,
    List.take_left]

/-- Hexadecimal digits are no periods. -/
theorem period_not_mem_toDigits {b : Nat} (hb : 1 < b) (hle : b ≤ 16) (n : Nat) :
    (46 : UInt8) ∉ ascii (Nat.toDigits b n) := by
  have hdigit : ∀ m < 16, (46 : UInt8) ∉ ascii [Nat.digitChar m] := by decide
  induction n using Nat.strong_induction_on with
  | _ n ih =>
    rw [Nat.toDigits_eq_if hb]
    split
    next hlt => exact hdigit n (by omega)
    next hge =>
      have hmod : n % b < b := Nat.mod_lt n (by omega)
      rw [ascii, List.map_append, List.mem_append, not_or]
      exact ⟨ih (n / b) (Nat.div_lt_self (by omega) hb), hdigit (n % b) (by omega)⟩

theorem period_not_mem_cache_key (tokens : List UInt32) : (46 : UInt8) ∉ cache_key tokens := by
  have hhash := period_not_mem_toDigits (b := 16) (by decide) (by decide)
    (fnv1a_tokens tokens).toNat
  have hlength := period_not_mem_toDigits (b := 10) (by decide) (by decide) tokens.length
  rw [cache_key, List.mem_append, List.mem_append, not_or, not_or]
  refine ⟨⟨?_, by decide⟩, hlength⟩
  rw [List.leftpad, ascii, List.map_append, List.mem_append, not_or]
  refine ⟨?_, hhash⟩
  rw [List.map_replicate]
  intro hmem
  exact absurd (List.eq_of_mem_replicate hmem) (by decide)

theorem cache_key_ne_nil (tokens : List UInt32) : cache_key tokens ≠ [] := by
  rw [cache_key]
  simp [ascii]

theorem tokens_extension_eq : ∃ suffix, tokens_extension = 46 :: suffix ∧ (46 : UInt8) ∉ suffix :=
  ⟨_, rfl, by decide⟩

theorem state_extension_eq : ∃ suffix, state_extension = 46 :: suffix ∧ (46 : UInt8) ∉ suffix :=
  ⟨_, rfl, by decide⟩

theorem extension_tokens (hbase : base ≠ []) :
    extension (base ++ tokens_extension) = tokens_extension ∧
      stem (base ++ tokens_extension) = base := by
  obtain ⟨suffix, hsuffix, hperiod⟩ := tokens_extension_eq
  rw [hsuffix]
  exact ⟨extension_append hbase hperiod, stem_append hbase hperiod⟩

theorem extension_state (hbase : base ≠ []) :
    extension (base ++ state_extension) = state_extension ∧
      stem (base ++ state_extension) = base := by
  obtain ⟨suffix, hsuffix, hperiod⟩ := state_extension_eq
  rw [hsuffix]
  exact ⟨extension_append hbase hperiod, stem_append hbase hperiod⟩

/-- The stem of a temporary name. -/
def temporary_stem (destination : Bytes) (counter : Nat) : Bytes :=
  destination ++ temporary_mark ++ ascii (Nat.toDigits 10 counter)

theorem period_mem_temporary_stem (destination : Bytes) (counter : Nat) :
    (46 : UInt8) ∈ temporary_stem destination counter :=
  List.mem_append_left _ (List.mem_append_right _ List.mem_cons_self)

theorem temporary_stem_ne_nil (destination : Bytes) (counter : Nat) :
    temporary_stem destination counter ≠ [] :=
  List.ne_nil_of_mem (period_mem_temporary_stem destination counter)

/-- The names of the store: the two files of a pair, and the two temporary files. -/
inductive Known : Bytes → Prop
  | tokens (tokens : List UInt32) : Known (cache_key tokens ++ tokens_extension)
  | state (tokens : List UInt32) : Known (cache_key tokens ++ state_extension)
  | temporary_tokens (tokens : List UInt32) (counter : Nat) :
    Known (temporary_stem (cache_key tokens ++ tokens_extension) counter ++ tokens_extension)
  | temporary_state (tokens : List UInt32) (counter : Nat) :
    Known (temporary_stem (cache_key tokens ++ state_extension) counter ++ state_extension)

/-- A name whose stem has a period in it. -/
def Temporary (name : Bytes) : Prop := (46 : UInt8) ∈ stem name

theorem temporary_temporary_path (destination : Bytes) (counter : Nat) :
    Temporary (temporary_path destination tokens_extension counter) ∧
      Temporary (temporary_path destination state_extension counter) := by
  have hne := temporary_stem_ne_nil destination counter
  constructor
  · change (46 : UInt8) ∈ stem (temporary_stem destination counter ++ tokens_extension)
    rw [(extension_tokens hne).2]
    exact period_mem_temporary_stem destination counter
  · change (46 : UInt8) ∈ stem (temporary_stem destination counter ++ state_extension)
    rw [(extension_state hne).2]
    exact period_mem_temporary_stem destination counter

theorem not_temporary_key (tokens : List UInt32) :
    ¬Temporary (cache_key tokens ++ tokens_extension) ∧
      ¬Temporary (cache_key tokens ++ state_extension) := by
  have hne := cache_key_ne_nil tokens
  constructor
  · rw [Temporary, (extension_tokens hne).2]
    exact period_not_mem_cache_key tokens
  · rw [Temporary, (extension_state hne).2]
    exact period_not_mem_cache_key tokens

/-- What stands before the first period. -/
theorem eq_of_append_period {a b s t : Bytes} (ha : (46 : UInt8) ∉ a) (hb : (46 : UInt8) ∉ b)
    (h : a ++ 46 :: s = b ++ 46 :: t) : a = b ∧ s = t := by
  have hpos : ∀ {c : Bytes}, (46 : UInt8) ∉ c → ∀ x ∈ c, (x != 46) = true := by
    intro c hc x hx
    exact bne_iff_ne.mpr fun h => hc (h ▸ hx)
  have htake := congrArg (List.takeWhile (· != 46)) h
  rw [List.takeWhile_append_of_pos (hpos ha), List.takeWhile_append_of_pos (hpos hb)] at htake
  obtain rfl : a = b := by simpa using htake
  exact ⟨rfl, (List.cons.inj (List.append_cancel_left h)).2⟩

/-- **A temporary file of tokens has no state beside it.** Its stem has a period, and the name that
a state would have to have is none that the store ever writes. -/
theorem not_known_state_path_of_temporary (tokens : List UInt32) (counter : Nat) :
    ¬Known (state_path_of
      (temporary_stem (cache_key tokens ++ tokens_extension) counter ++ tokens_extension)) := by
  have hne := temporary_stem_ne_nil (cache_key tokens ++ tokens_extension) counter
  rw [state_path_of, (extension_tokens hne).2]
  have hext := (extension_state hne).1
  have hstem := (extension_state hne).2
  intro hknown
  generalize hname : temporary_stem (cache_key tokens ++ tokens_extension) counter ++
    state_extension = name at hknown
  rw [hname] at hext hstem
  cases hknown with
  | tokens other =>
    rw [(extension_tokens (cache_key_ne_nil other)).1] at hext
    exact absurd hext (by decide)
  | state other =>
    rw [(extension_state (cache_key_ne_nil other)).2] at hstem
    refine period_not_mem_cache_key other ?_
    rw [hstem]
    exact period_mem_temporary_stem _ counter
  | temporary_tokens other counter' =>
    rw [(extension_tokens (temporary_stem_ne_nil _ counter')).1] at hext
    exact absurd hext (by decide)
  | temporary_state other counter' =>
    -- the two names part behind the first period
    rw [(extension_state (temporary_stem_ne_nil _ counter')).2] at hstem
    obtain ⟨s, hs⟩ : ∃ s, temporary_stem (cache_key other ++ state_extension) counter' =
        cache_key other ++ 46 :: 115 :: s :=
      ⟨_, by rw [temporary_stem, List.append_assoc, List.append_assoc]; rfl⟩
    obtain ⟨t, ht⟩ : ∃ t, temporary_stem (cache_key tokens ++ tokens_extension) counter =
        cache_key tokens ++ 46 :: 116 :: t :=
      ⟨_, by rw [temporary_stem, List.append_assoc, List.append_assoc]; rfl⟩
    rw [hs, ht] at hstem
    obtain ⟨-, htail⟩ := eq_of_append_period (period_not_mem_cache_key other)
      (period_not_mem_cache_key tokens) hstem
    exact absurd (List.cons.inj htail).1 (by decide)

end Names

/-! ### Files of tokens -/

theorem length_token_file (tokens : List UInt32) :
    (token_file tokens).length = token_header_bytes + tokens.length * 4 := by
  rw [token_file, List.length_append, List.length_append, LittleEndian.length_bytes,
    LittleEndian.length_flatMap, List.length_map, token_header_bytes]

theorem token_file_value (tokens : List UInt32) :
    LittleEndian.value (((token_file tokens).drop token_magic.length).take 8) =
      tokens.length % 256 ^ 8 := by
  rw [token_file, List.append_assoc, List.drop_left,
    List.take_left' (LittleEndian.length_bytes 8 tokens.length), LittleEndian.value_bytes]

theorem token_file_values (tokens : List UInt32) :
    (LittleEndian.values 4 tokens.length ((token_file tokens).drop token_header_bytes)).map
      UInt32.ofNat = tokens := by
  have hheader : (token_magic ++ LittleEndian.bytes 8 tokens.length).length = token_header_bytes := by
    rw [List.length_append, LittleEndian.length_bytes, token_header_bytes]
  have hlt : ∀ n ∈ tokens.map UInt32.toNat, n < 256 ^ 4 := by
    intro n hn
    obtain ⟨token, -, rfl⟩ := List.mem_map.mp hn
    exact token.toNat_lt
  have hvalues := LittleEndian.values_flatMap hlt []
  rw [List.append_nil, List.length_map] at hvalues
  rw [token_file, List.drop_left' hheader, hvalues, List.map_map]
  exact (List.map_congr_left fun token _ => UInt32.ofNat_toNat).trans (List.map_id tokens)

/-- **What is read from a file of tokens is what was written**, for every number of tokens that the
header can name. A file that was broken off has another length than its header says. -/
theorem read_token_file {tokens read : List UInt32} {maximum_count : Nat}
    (h : read_tokens (token_file tokens) maximum_count = some read) : read = tokens := by
  rw [read_tokens, token_file_value] at h
  split at h
  · exact absurd h nofun
  · split at h
    · exact absurd h nofun
    next hlength =>
      have hcount : tokens.length % 256 ^ 8 = tokens.length := by
        rw [length_token_file] at hlength
        omega
      rw [hcount, token_file_values] at h
      exact (Option.some.inj h).symm

/-- The count of a file of tokens is the length of what is read. -/
theorem read_tokens_of_le {content : Bytes} {tokens : List UInt32} {m n : Nat}
    (h : read_tokens content m = some tokens) (hle : tokens.length ≤ n) :
    read_tokens content n = some tokens := by
  have hvalues : ∀ width count rest, (LittleEndian.values width count rest).length = count := by
    intro width count
    induction count with
    | zero => exact fun _ => rfl
    | succ count ih => exact fun rest => congrArg Nat.succ (ih _)
  rw [read_tokens] at h ⊢
  split at h
  · exact absurd h nofun
  next hheader =>
    split at h
    · exact absurd h nofun
    next hlength =>
      have hcount := congrArg List.length (Option.some.inj h)
      rw [List.length_map, hvalues] at hcount
      rw [not_or, not_or] at hheader
      rw [if_neg, if_neg hlength, h]
      rw [not_or, not_or]
      exact ⟨hheader.1, hheader.2.1, by omega⟩

/-! ### What the files hold -/

section Files

variable {State : Type} (store : Store State)

/-- Every file of one directory is one of another, with the same content. -/
def Within (files files' : Files) : Prop :=
  ∀ name file, files name = some file → ∃ file', files' name = some file' ∧
    file'.content = file.content

theorem Within.refl (files : Files) : Within files files := fun _ file h => ⟨file, h, rfl⟩

theorem Within.trans {a b c : Files} (hab : Within a b) (hbc : Within b c) : Within a c := by
  intro name file h
  obtain ⟨file', h', hcontent'⟩ := hab name file h
  obtain ⟨file'', h'', hcontent''⟩ := hbc name file' h'
  exact ⟨file'', h'', hcontent''.trans hcontent'⟩

theorem within_put_none (files : Files) (name : Bytes) : Within (files.put name none) files := by
  intro other file h
  rw [Files.put, Function.update_apply] at h
  split at h
  · exact absurd h nofun
  · exact ⟨file, h, rfl⟩

theorem within_remove (files : Files) (name : Bytes) (fails : Bool) :
    Within (files.remove name fails) files := by
  rw [Files.remove]
  split
  · exact Within.refl files
  · exact within_put_none files name

theorem within_touch (files : Files) (name : Bytes) (now : Nat) (fails : Bool) :
    Within (touch files name now fails) files := by
  rw [touch]
  split
  · exact Within.refl files
  · intro other file h
    rw [Files.put, Function.update_apply] at h
    split at h
    · next heq =>
      obtain ⟨file', h', rfl⟩ := Option.map_eq_some_iff.mp h
      exact ⟨file', heq ▸ h', rfl⟩
    · exact ⟨file, h, rfl⟩

theorem within_evict_entries (kept : Bytes → Bool) (total : Nat) (entries : List Entry)
    (files : Files) : Within (evict_entries store kept total entries files) files := by
  induction entries generalizing total files with
  | nil => exact Within.refl files
  | cons entry entries ih =>
    rw [evict_entries]
    split
    · exact Within.refl files
    · exact (ih _ _).trans ((within_remove _ _ _).trans (within_remove _ _ _))

theorem within_evict_to_limit {faults : EvictionFaults} {listing : List Bytes}
    {files files' : Files} (h : evict_to_limit store faults listing files = some files') :
    Within files' files := by
  rw [evict_to_limit] at h
  split at h
  · exact absurd h nofun
  · obtain rfl := Option.some.inj h
    exact within_evict_entries store _ _ _ _

theorem within_clear (kept : Bytes → Bool) (listing : List Bytes) (disk : Disk) :
    Within (clear store kept listing disk).files disk.files := by
  rw [clear]
  dsimp only
  generalize disk.files = files
  induction listing generalizing files with
  | nil => exact Within.refl files
  | cons name listing ih =>
    rw [List.foldl_cons]
    refine (ih _).trans ?_
    split
    · exact within_remove _ _ _
    · exact Within.refl files

/-- The best candidate of a load. -/
def longest (files : Files) (prompt : List UInt32) (unreadable : Bytes → Bool)
    (listing : List Bytes) : List UInt32 × Bytes :=
  listing.foldl (consider files prompt unreadable) ([], [])

/-- What a load comes to: nothing, or the best candidate with the state beside it. -/
theorem load_longest_cases (faults : LoadFaults) (listing : List Bytes) (now : Nat)
    (prompt : List UInt32) (disk : Disk) :
    load_longest store faults listing now prompt disk = (disk, none) ∨
      ∃ best file state, longest disk.files prompt faults.unreadable listing = best ∧
        best.1 ≠ [] ∧ disk.files (state_path_of best.2) = some file ∧
        store.load_prefix_state file.content store.model_layer_count = some state ∧
        store.token_count state = best.1.length ∧
        load_longest store faults listing now prompt disk =
          ({ disk with
              files := touch (touch disk.files best.2 now (faults.untouched best.2))
                (state_path_of best.2) now (faults.untouched (state_path_of best.2)) },
            some (best.1, state)) := by
  generalize hbest : longest disk.files prompt faults.unreadable listing = best
  rw [longest] at hbest
  rw [load_longest, hbest]
  dsimp only
  by_cases hthrows : faults.throws = true
  · exact Or.inl (if_pos hthrows)
  by_cases hnil : best.1 = []
  · refine Or.inl ?_
    rw [if_neg hthrows, if_pos hnil]
  rw [if_neg hthrows, if_neg hnil]
  cases hfile : disk.files (state_path_of best.2) with
  | none => exact Or.inl rfl
  | some file =>
    by_cases hunreadable : faults.state_unreadable = true
    · refine Or.inl ?_
      dsimp only
      rw [if_pos hunreadable]
    dsimp only
    rw [if_neg hunreadable]
    cases hstate : store.load_prefix_state file.content store.model_layer_count with
    | none => exact Or.inl rfl
    | some state =>
      dsimp only
      -- the last check, on what the state says of itself
      by_cases hcount : store.token_count state = best.1.length
      · refine Or.inr ⟨best, file, state, rfl, hnil, hfile, hstate, hcount, ?_⟩
        rw [if_neg (not_not.mpr hcount)]
      · refine Or.inl ?_
        rw [if_pos hcount]

theorem within_load_longest (faults : LoadFaults) (listing : List Bytes) (now : Nat)
    (prompt : List UInt32) (disk : Disk) :
    Within (load_longest store faults listing now prompt disk).1.files disk.files := by
  rcases load_longest_cases store faults listing now prompt disk with h | ⟨best, _, _, -, -, -, -, -, h⟩
  · rw [h]
    exact Within.refl _
  · rw [h]
    exact (within_touch _ _ _ _).trans (within_touch _ _ _ _)

/-- **What the files hold**, when these tokens and states have been saved together: only
files of the store, and every pair whose key is not torn is one that was saved. -/
structure Sound (saved : List UInt32 → State → Prop) (torn : Bytes → Bool) (files : Files) :
    Prop where
  known : ∀ name, (files name).isSome = true → Known name
  pairs : ∀ tokens token_part state_part, torn (cache_key tokens) = false →
    files (cache_key tokens ++ tokens_extension) = some token_part →
    files (cache_key tokens ++ state_extension) = some state_part →
      ∃ own state, saved own state ∧ token_part.content = token_file own ∧
        state_part.content = store.save_prefix_state state

variable {store} {saved saved' : List UInt32 → State → Prop} {torn torn' : Bytes → Bool}
  {files files' : Files}

theorem Sound.within (h : Sound store saved torn files) (hwithin : Within files' files) :
    Sound store saved torn files' where
  known := by
    intro name hsome
    obtain ⟨file, hfile⟩ := Option.isSome_iff_exists.mp hsome
    obtain ⟨file', hfile', -⟩ := hwithin name file hfile
    exact h.known name (Option.isSome_iff_exists.mpr ⟨file', hfile'⟩)
  pairs := by
    intro tokens token_part state_part hwhole htokens hstate
    obtain ⟨token_part', htokens', hcontent⟩ := hwithin _ _ htokens
    obtain ⟨state_part', hstate', hcontent'⟩ := hwithin _ _ hstate
    obtain ⟨own, state, hsaved, hown, hstate⟩ := h.pairs tokens _ _ hwhole htokens' hstate'
    exact ⟨own, state, hsaved, hcontent ▸ hown, hcontent' ▸ hstate⟩

/-- More has been saved, and no key has become whole whose two files are there. -/
theorem Sound.mono (h : Sound store saved torn files) (hsaved : ∀ t s, saved t s → saved' t s)
    (htorn : ∀ key, torn' key = false → (files (key ++ tokens_extension)).isSome = true →
      (files (key ++ state_extension)).isSome = true → torn key = false) :
    Sound store saved' torn' files where
  known := h.known
  pairs := by
    intro tokens token_part state_part hwhole htokens hstate
    have hwhole' := htorn _ hwhole (Option.isSome_iff_exists.mpr ⟨_, htokens⟩)
      (Option.isSome_iff_exists.mpr ⟨_, hstate⟩)
    obtain ⟨own, state, hown, hcontents⟩ := h.pairs tokens _ _ hwhole' htokens hstate
    exact ⟨own, state, hsaved _ _ hown, hcontents⟩

/-- A temporary file belongs to no pair. -/
theorem Sound.put_temporary (h : Sound store saved torn files) {name : Bytes}
    (hname : Temporary name) (hknown : Known name) (file : Option File) :
    Sound store saved torn (files.put name file) where
  known := by
    intro other hsome
    rw [Files.put, Function.update_apply] at hsome
    split at hsome
    next heq => exact heq ▸ hknown
    next => exact h.known other hsome
  pairs := by
    intro tokens token_part state_part hwhole htokens hstate
    obtain ⟨hnot, hnot'⟩ := not_temporary_key tokens
    have hne : cache_key tokens ++ tokens_extension ≠ name := by
      rintro rfl
      exact hnot hname
    have hne' : cache_key tokens ++ state_extension ≠ name := by
      rintro rfl
      exact hnot' hname
    rw [Files.put, Function.update_of_ne hne] at htokens
    rw [Files.put, Function.update_of_ne hne'] at hstate
    exact h.pairs tokens _ _ hwhole htokens hstate

theorem tokens_name_ne_state_name (tokens tokens' : List UInt32) :
    cache_key tokens ++ tokens_extension ≠ cache_key tokens' ++ state_extension := by
  intro h
  have hext := congrArg extension h
  rw [(extension_tokens (cache_key_ne_nil tokens)).1,
    (extension_state (cache_key_ne_nil tokens')).1] at hext
  exact absurd hext (by decide)

theorem put_comm {a b : Bytes} (h : a ≠ b) (files : Files) (x y : Option File) :
    (files.put a x).put b y = (files.put b y).put a x :=
  Function.update_comm (β := fun _ => Option File) h x y files

theorem put_same (files : Files) (a : Bytes) (x : Option File) : files.put a x a = x :=
  Function.update_self (β := fun _ => Option File) a x files

theorem put_of_ne {a b : Bytes} (h : a ≠ b) (files : Files) (x : Option File) :
    files.put b x a = files a :=
  Function.update_of_ne (β := fun _ => Option File) h x files

/-- A state that is put beside its own tokens or beside none, unless its key becomes torn. -/
theorem Sound.put_state (h : Sound store saved torn files) {tokens : List UInt32} {state : State}
    (hsaved : saved tokens state)
    (htorn : ∀ key, key ≠ cache_key tokens → torn' key = false → torn key = false)
    (hown : torn' (cache_key tokens) = false →
      ∀ file, files (cache_key tokens ++ tokens_extension) = some file →
        file.content = token_file tokens) (now : Nat) :
    Sound store saved torn' (files.put (cache_key tokens ++ state_extension)
      (some ⟨store.save_prefix_state state, now⟩)) where
  known := by
    intro other hsome
    by_cases heq : other = cache_key tokens ++ state_extension
    · rw [heq]
      exact Known.state tokens
    · rw [put_of_ne heq] at hsome
      exact h.known other hsome
  pairs := by
    intro tokens' token_part state_part hwhole htokens hstate
    rw [put_of_ne (tokens_name_ne_state_name tokens' tokens)] at htokens
    by_cases hkey : cache_key tokens' = cache_key tokens
    · rw [hkey] at hwhole htokens hstate
      rw [put_same] at hstate
      obtain rfl := Option.some.inj hstate
      exact ⟨tokens, state, hsaved, hown hwhole token_part htokens, rfl⟩
    · rw [put_of_ne fun heq => hkey (List.append_cancel_right heq)] at hstate
      exact h.pairs tokens' _ _ (htorn _ hkey hwhole) htokens hstate

/-- Both files of a pair. -/
theorem Sound.put_pair (h : Sound store saved torn files) {tokens : List UInt32} {state : State}
    (hsaved : saved tokens state)
    (htorn : ∀ key, key ≠ cache_key tokens → torn' key = false → torn key = false) (now : Nat) :
    Sound store saved torn' ((files.put (cache_key tokens ++ state_extension)
      (some ⟨store.save_prefix_state state, now⟩)).put (cache_key tokens ++ tokens_extension)
        (some ⟨token_file tokens, now⟩)) where
  known := by
    intro other hsome
    by_cases htokens : other = cache_key tokens ++ tokens_extension
    · rw [htokens]
      exact Known.tokens tokens
    rw [put_of_ne htokens] at hsome
    by_cases hstate : other = cache_key tokens ++ state_extension
    · rw [hstate]
      exact Known.state tokens
    · rw [put_of_ne hstate] at hsome
      exact h.known other hsome
  pairs := by
    intro tokens' token_part state_part hwhole htokens hstate
    rw [put_of_ne (tokens_name_ne_state_name tokens tokens').symm] at hstate
    -- the pair that was placed is right; another key has other names
    by_cases hkey : cache_key tokens' = cache_key tokens
    · rw [hkey] at htokens hstate
      rw [put_same] at htokens hstate
      obtain rfl := Option.some.inj htokens
      obtain rfl := Option.some.inj hstate
      exact ⟨tokens, state, hsaved, rfl, rfl⟩
    · rw [put_of_ne fun heq => hkey (List.append_cancel_right heq),
        put_of_ne (tokens_name_ne_state_name tokens' tokens)] at htokens
      rw [put_of_ne fun heq => hkey (List.append_cancel_right heq)] at hstate
      exact h.pairs tokens' _ _ (htorn _ hkey hwhole) htokens hstate

/-! ### Torn pairs -/

variable (store)

/-- The save has written both of its files and renamed the state. -/
def SaveFaults.places_state (faults : SaveFaults) : Bool :=
  match faults.state_written, faults.tokens_written with
  | .done, .done => !faults.state_rename_fails
  | _, _ => false

/-- The operation puts a state in place under this key. -/
def places_state (key : Bytes) : Operation State → Bool
  | .save tokens state faults _ _ _ =>
    cache_key tokens = key && tokens ≠ [] && store.token_count state = tokens.length &&
      store.layer_count state = store.model_layer_count && faults.places_state
  | _ => false

/-- There are other tokens under the name of these. -/
def other_tokens (files : Files) (tokens : List UInt32) : Bool :=
  match files (cache_key tokens ++ tokens_extension) with
  | some file => file.content ≠ token_file tokens
  | none => false

/-- **A torn save**: its tokens are not renamed, and other tokens are under their name. -/
def tears (disk : Disk) : Operation State → Bool
  | .save tokens _ faults _ _ _ => faults.tokens_rename_fails && other_tokens disk.files tokens
  | _ => false

/-- Whether the pair under a key is torn behind an operation: the last state that was put
there is one of a torn save, and both files are still there. -/
def torn_step (disk : Disk) (operation : Operation State) (torn : Bytes → Bool) (key : Bytes) :
    Bool :=
  (if places_state store key operation then tears disk operation else torn key) &&
    ((step store disk operation).files (key ++ tokens_extension)).isSome &&
    ((step store disk operation).files (key ++ state_extension)).isSome

/-- The keys of the pairs that are torn behind a run. -/
def torn_keys (operations : List (Operation State)) : Bytes → Bool :=
  (operations.foldl (fun (was : Disk × (Bytes → Bool)) operation =>
    (step store was.1 operation, torn_step store was.1 operation was.2))
    (⟨Files.empty, 0⟩, fun _ => false)).2

theorem torn_keys_concat (before : List (Operation State)) (operation : Operation State) :
    torn_keys store (before ++ [operation]) =
      torn_step store (run store before) operation (torn_keys store before) := by
  have hdisk : ∀ (operations : List (Operation State)) (was : Disk × (Bytes → Bool)),
      (operations.foldl (fun (was : Disk × (Bytes → Bool)) operation =>
        (step store was.1 operation, torn_step store was.1 operation was.2)) was).1 =
      operations.foldl (step store) was.1 := by
    intro operations
    induction operations with
    | nil => exact fun _ => rfl
    | cons operation operations ih => exact fun was => ih _
  rw [torn_keys, List.foldl_append, List.foldl_cons, List.foldl_nil]
  exact congrArg (torn_step store · operation (torn_keys store before)) (hdisk before _)

variable {store}

/-- **A save** keeps the pairs right, wherever it breaks off, but for the one it tears. The state is
renamed first, so that between the two renames it stands beside whatever tokens had the name
before. -/
theorem sound_save_pair {disk : Disk} (h : Sound store saved torn disk.files)
    {faults : SaveFaults} {now : Nat} {tokens : List UInt32} {state : State}
    (hsaved : saved tokens state)
    (hkept : faults.places_state = false → ∀ key, torn' key = false → torn key = false)
    (hothers : faults.places_state = true →
      ∀ key, key ≠ cache_key tokens → torn' key = false → torn key = false)
    (htears : faults.places_state = true → faults.tokens_rename_fails = true →
      torn' (cache_key tokens) = false → other_tokens disk.files tokens = false) :
    Sound store saved torn' (save_pair store faults now tokens state disk).1.files := by
  let token_path := cache_key tokens ++ tokens_extension
  let state_path := cache_key tokens ++ state_extension
  let temporary_tokens := temporary_path token_path tokens_extension disk.temporary_counter
  let temporary_state := temporary_path state_path state_extension (disk.temporary_counter + 1)
  have htemporary : Temporary temporary_tokens ∧ Temporary temporary_state :=
    ⟨(temporary_temporary_path _ _).1, (temporary_temporary_path _ _).2⟩
  have hknown : Known temporary_tokens ∧ Known temporary_state :=
    ⟨.temporary_tokens tokens _, .temporary_state tokens _⟩
  have hne : temporary_tokens ≠ temporary_state := by
    intro heq
    have hext := congrArg extension heq
    have h1 : extension temporary_tokens = tokens_extension :=
      (extension_tokens (temporary_stem_ne_nil _ _)).1
    have h2 : extension temporary_state = state_extension :=
      (extension_state (temporary_stem_ne_nil _ _)).1
    rw [h1, h2] at hext
    exact absurd hext (by decide)
  have hpath : ∀ {name}, Temporary name → name ≠ token_path ∧ name ≠ state_path := by
    intro name hname
    constructor
    · rintro rfl
      exact (not_temporary_key tokens).1 hname
    · rintro rfl
      exact (not_temporary_key tokens).2 hname
  -- the files after one write and after both, and what a cleanup leaves of them
  have hstate : ∀ file, Sound store saved torn (disk.files.put temporary_state file) := fun file =>
    h.put_temporary htemporary.2 hknown.2 file
  have hboth : ∀ file file', Sound store saved torn
      ((disk.files.put temporary_state file).put temporary_tokens file') := fun file file' =>
    (hstate file).put_temporary htemporary.1 hknown.1 file'
  have hcleanup : ∀ {files : Files} {torn : Bytes → Bool}, Sound store saved torn files →
      Sound store saved torn ((files.remove temporary_tokens faults.tokens_kept).remove
        temporary_state faults.state_kept) := fun hfiles =>
    hfiles.within ((within_remove _ _ _).trans (within_remove _ _ _))
  have hunplaced : ∀ {files : Files}, faults.places_state = false →
      Sound store saved torn files → Sound store saved torn' files := fun hplaces hfiles =>
    hfiles.mono (fun _ _ hown => hown) fun key hwhole _ _ => hkept hplaces key hwhole
  rw [save_pair]
  rcases hwrite : faults.state_written with _ | left
  case failed => exact hunplaced (by rw [SaveFaults.places_state, hwrite]) (hcleanup (hstate left))
  rcases hwrite' : faults.tokens_written with _ | left
  case failed =>
    exact hunplaced (by rw [SaveFaults.places_state, hwrite, hwrite']) (hcleanup (hboth _ left))
  have hplaces : faults.places_state = !faults.state_rename_fails := by
    rw [SaveFaults.places_state, hwrite, hwrite']
  dsimp only [Write.put]
  by_cases hrename : faults.state_rename_fails = true
  · rw [if_pos hrename]
    exact hunplaced (by rw [hplaces, hrename, Bool.not_true]) (hcleanup (hboth _ _))
  rw [if_neg hrename]
  rw [Bool.not_eq_true] at hrename
  replace hplaces : faults.places_state = true := by rw [hplaces, hrename, Bool.not_false]
  have hstate_file : ∀ x y, ((disk.files.put temporary_state x).put temporary_tokens y)
      temporary_state = x := fun x y => by rw [put_of_ne hne.symm, put_same]
  by_cases hrename' : faults.tokens_rename_fails = true
  · rw [if_pos hrename']
    refine hcleanup ?_
    have hown : ∀ x y, torn' (cache_key tokens) = false → ∀ file,
        ((disk.files.put temporary_state x).put temporary_tokens y) token_path = some file →
          file.content = token_file tokens := by
      intro x y hwhole file hfile
      rw [put_of_ne (hpath htemporary.1).1.symm, put_of_ne (hpath htemporary.2).1.symm] at hfile
      have hother := htears hplaces hrename' hwhole
      rw [other_tokens, hfile] at hother
      simpa using hother
    have hput := (hboth (some ⟨store.save_prefix_state state, now⟩)
      (some ⟨token_file tokens, now⟩)).put_state hsaved (hothers hplaces) (hown _ _) now
    have hrenamed := hput.put_temporary htemporary.2 hknown.2 none
    rw [Files.rename, hstate_file]
    exact hrenamed
  · rw [if_neg hrename']
    have hput := (hboth (some ⟨store.save_prefix_state state, now⟩)
      (some ⟨token_file tokens, now⟩)).put_pair hsaved (hothers hplaces) now
    have hrenamed := (hput.put_temporary htemporary.2 hknown.2 none).put_temporary
      htemporary.1 hknown.1 none
    have htokens_file : ∀ (files : Files) x y, (((files.put temporary_tokens x).put state_path y).put
        temporary_state none) temporary_tokens = x := fun files x y => by
      rw [put_of_ne hne, put_of_ne (hpath htemporary.1).2, put_same]
    rw [Files.rename, Files.rename, hstate_file, htokens_file,
      put_comm (hpath htemporary.2).1]
    exact hrenamed

/-! ### Runs -/

/-- What the operations have saved. -/
def SavedBy (operations : List (Operation State)) (tokens : List UInt32) (state : State) : Prop :=
  ∃ faults eviction listing now,
    Operation.save tokens state faults eviction listing now ∈ operations

theorem sound_save {disk : Disk} (h : Sound store saved torn disk.files) {faults : SaveFaults}
    {eviction : EvictionFaults} {listing : List Bytes} {now : Nat} {tokens : List UInt32}
    {state : State} (hsaved : saved tokens state)
    (htorn : ∀ key, torn' key = false →
      (if places_state store key (.save tokens state faults eviction listing now) then
        tears disk (.save tokens state faults eviction listing now) else torn key) = false) :
    Sound store saved torn' (save store faults eviction listing now tokens state disk).1.files := by
  -- a save that is refused touches nothing and tears nothing
  have hrefused : tokens = [] ∨ (store.token_count state ≠ tokens.length ∨
      store.layer_count state ≠ store.model_layer_count) → Sound store saved torn' disk.files := by
    intro hguards
    refine h.mono (fun _ _ hown => hown) fun key hwhole _ _ => ?_
    have hkey := htorn key hwhole
    rwa [if_neg] at hkey
    simp only [places_state, Bool.and_eq_true, decide_eq_true_eq]
    tauto
  rw [save]
  split
  next hnil => exact hrefused (Or.inl hnil)
  next hnil =>
    split
    next hcounts => exact hrefused (Or.inr hcounts)
    next hcounts =>
      rw [not_or, not_not, not_not] at hcounts
      have hplaces : ∀ key, places_state store key (.save tokens state faults eviction listing now) =
          (decide (cache_key tokens = key) && faults.places_state) := by
        intro key
        simp [places_state, hnil, hcounts]
      simp only [hplaces] at htorn
      have hpair : Sound store saved torn' (save_pair store faults now tokens state disk).1.files := by
        refine sound_save_pair h hsaved ?_ ?_ ?_
        · intro hnot key hwhole
          simpa [hnot] using htorn key hwhole
        · intro _ key hne hwhole
          simpa [hne.symm] using htorn key hwhole
        · intro hplaced hrename hwhole
          simpa [hplaced, hrename, tears] using htorn _ hwhole
      generalize save_pair store faults now tokens state disk = placed at hpair ⊢
      obtain ⟨disk', done⟩ := placed
      dsimp only
      split
      · exact hpair
      split
      · exact hpair
      -- an eviction removes files, and what is left is as it was
      next hevict => exact hpair.within (within_evict_to_limit store hevict)

/-- **One step**: an operation keeps every pair right but the one it tears. A load changes nothing
but times, and a clear or an eviction only takes files away. -/
theorem sound_step {disk : Disk} (h : Sound store saved torn disk.files)
    {operation : Operation State}
    (hsaved : ∀ tokens state faults eviction listing now,
      operation = .save tokens state faults eviction listing now → saved tokens state) :
    Sound store saved (torn_step store disk operation torn) (step store disk operation).files := by
  -- first without the pairs that have gone
  have hstep : Sound store saved
      (fun key => if places_state store key operation then tears disk operation else torn key)
      (step store disk operation).files := by
    cases operation with
    | save tokens state faults eviction listing now =>
      exact sound_save h (hsaved _ _ _ _ _ _ rfl) fun key hwhole => hwhole
    | load_longest prompt faults listing now =>
      exact h.within (within_load_longest store faults listing now prompt disk)
    | clear kept listing => exact h.within (within_clear store kept listing disk)
  refine hstep.mono (fun _ _ hown => hown) fun key hwhole htokens hstate => ?_
  rwa [torn_step, htokens, hstate, Bool.and_true, Bool.and_true] at hwhole

variable (store) in
/-- **A run**: every pair that is not torn is one that was saved. A torn pair is right again once a
save with its key is whole, or one of its files is gone. -/
theorem sound_run (operations : List (Operation State)) :
    Sound store (SavedBy operations) (torn_keys store operations) (run store operations).files := by
  induction operations using List.reverseRecOn with
  | nil => exact ⟨nofun, nofun⟩
  | append_singleton before operation ih =>
    have hmono : Sound store (SavedBy (before ++ [operation])) (torn_keys store before)
        (run store before).files := by
      refine ih.mono (fun tokens state hsaved => ?_) fun _ hwhole _ _ => hwhole
      obtain ⟨faults, eviction, listing, now, hmem⟩ := hsaved
      exact ⟨faults, eviction, listing, now, List.mem_append_left _ hmem⟩
    have hrun : run store (before ++ [operation]) = step store (run store before) operation := by
      rw [run, List.foldl_append]
      rfl
    rw [torn_keys_concat, hrun]
    refine sound_step hmono ?_
    rintro tokens state faults eviction listing now rfl
    exact ⟨faults, eviction, listing, now, List.mem_append_right _ List.mem_cons_self⟩

/-! ### The longest candidate -/

/-- A file of tokens that a load looks at: it has a state beside it, can be read, and fits
the prompt. -/
structure Candidate (files : Files) (prompt : List UInt32) (unreadable : Bytes → Bool)
    (name : Bytes) (tokens : List UInt32) : Prop where
  extension_eq : extension name = tokens_extension
  pair : ∃ file state_file, files name = some file ∧
    files (state_path_of name) = some state_file ∧
      read_tokens file.content prompt.length = some tokens
  readable : unreadable name = false
  fits : tokens <+: prompt

/-- One file of the loop. -/
theorem consider_cases (files : Files) (prompt : List UInt32) (unreadable : Bytes → Bool)
    (best : List UInt32 × Bytes) (name : Bytes) :
    (∃ tokens, Candidate files prompt unreadable name tokens ∧ best.1.length < tokens.length ∧
      consider files prompt unreadable best name = (tokens, name)) ∨
    ((∀ tokens, Candidate files prompt unreadable name tokens → tokens.length ≤ best.1.length) ∧
      consider files prompt unreadable best name = best) := by
  rw [consider]
  by_cases hext : extension name = tokens_extension
  case neg =>
    rw [if_pos hext]
    exact Or.inr ⟨fun tokens h => absurd h.extension_eq hext, rfl⟩
  rw [if_neg (not_not.mpr hext)]
  -- each check that fails leaves the best one as it is, and no candidate could have passed it
  rcases hfile : files name with _ | file
  · refine Or.inr ⟨?_, rfl⟩
    rintro tokens ⟨-, ⟨file, _, hfile', -⟩, -, -⟩
    rw [hfile] at hfile'
    exact absurd hfile' nofun
  rcases hstate : files (state_path_of name) with _ | state_file
  · refine Or.inr ⟨?_, rfl⟩
    rintro tokens ⟨-, ⟨_, state_file, -, hstate', -⟩, -, -⟩
    rw [hstate] at hstate'
    exact absurd hstate' nofun
  dsimp only
  by_cases hread : unreadable name = true
  · rw [if_pos hread]
    refine Or.inr ⟨?_, rfl⟩
    intro tokens h
    rw [h.readable] at hread
    exact absurd hread nofun
  rw [if_neg hread]
  have hown : ∀ tokens, Candidate files prompt unreadable name tokens →
      read_tokens file.content prompt.length = some tokens := by
    rintro tokens ⟨-, ⟨file', _, hfile', -, htokens⟩, -, -⟩
    obtain rfl := Option.some.inj (hfile.symm.trans hfile')
    exact htokens
  rcases htokens : read_tokens file.content prompt.length with _ | candidate
  · refine Or.inr ⟨?_, rfl⟩
    intro tokens h
    exact absurd ((hown tokens h).symm.trans htokens) nofun
  dsimp only
  -- a candidate counts if it is longer and a prefix of the prompt
  by_cases hskip : candidate.length ≤ best.1.length ∨ ¬candidate <+: prompt
  · rw [if_pos hskip]
    refine Or.inr ⟨?_, rfl⟩
    intro tokens h
    obtain rfl := Option.some.inj ((hown tokens h).symm.trans htokens)
    exact hskip.resolve_right (not_not.mpr h.fits)
  · rw [if_neg hskip]
    rw [not_or, not_not, not_le] at hskip
    exact Or.inl ⟨candidate, ⟨hext, ⟨file, state_file, hfile, hstate, htokens⟩,
      Bool.eq_false_iff.mpr hread, hskip.2⟩, hskip.1, rfl⟩

/-- The loop: the best candidate is one, and none of the names has a longer one. -/
theorem longest_spec (files : Files) (prompt : List UInt32) (unreadable : Bytes → Bool)
    (listing : List Bytes) :
    ((longest files prompt unreadable listing).1 = [] ∨
      Candidate files prompt unreadable (longest files prompt unreadable listing).2
        (longest files prompt unreadable listing).1) ∧
    ∀ name ∈ listing, ∀ tokens, Candidate files prompt unreadable name tokens →
      tokens.length ≤ (longest files prompt unreadable listing).1.length := by
  induction listing using List.reverseRecOn with
  | nil => exact ⟨Or.inl rfl, nofun⟩
  | append_singleton listing name ih =>
    obtain ⟨hbest, hall⟩ := ih
    have hlast : longest files prompt unreadable (listing ++ [name]) =
        consider files prompt unreadable (longest files prompt unreadable listing) name := by
      rw [longest, List.foldl_append]
      rfl
    rw [hlast]
    rcases consider_cases files prompt unreadable (longest files prompt unreadable listing) name
      with ⟨tokens, hcandidate, hlonger, heq⟩ | ⟨hshorter, heq⟩
    · rw [heq]
      refine ⟨Or.inr hcandidate, ?_⟩
      intro other hother tokens' h
      rcases List.mem_append.mp hother with hother | hother
      · exact (hall other hother tokens' h).trans hlonger.le
      · obtain rfl := List.mem_singleton.mp hother
        -- one name has one list of tokens
        obtain ⟨file, _, hfile, -, hread⟩ := hcandidate.pair
        obtain ⟨file', _, hfile', -, hread'⟩ := h.pair
        obtain rfl := Option.some.inj (hfile.symm.trans hfile')
        obtain rfl := Option.some.inj (hread.symm.trans hread')
        exact le_refl _
    · rw [heq]
      refine ⟨hbest, ?_⟩
      intro other hother tokens' h
      rcases List.mem_append.mp hother with hother | hother
      · exact hall other hother tokens' h
      · obtain rfl := List.mem_singleton.mp hother
        exact hshorter tokens' h

/-- A complete stored pair: a file of tokens with these tokens, and a state beside it. -/
structure StoredPair (files : Files) (name : Bytes) (tokens : List UInt32) : Prop where
  extension_eq : extension name = tokens_extension
  pair : ∃ file state_file, files name = some file ∧
    files (state_path_of name) = some state_file ∧
      read_tokens file.content tokens.length = some tokens

theorem Candidate.stored {prompt tokens : List UInt32} {unreadable : Bytes → Bool} {name : Bytes}
    (h : Candidate files prompt unreadable name tokens) : StoredPair files name tokens := by
  obtain ⟨file, state_file, hfile, hstate, hread⟩ := h.pair
  exact ⟨h.extension_eq, file, state_file, hfile, hstate, read_tokens_of_le hread le_rfl⟩

theorem StoredPair.candidate {prompt tokens : List UInt32} {unreadable : Bytes → Bool}
    {name : Bytes} (h : StoredPair files name tokens) (hreadable : unreadable name = false)
    (hfits : tokens <+: prompt) : Candidate files prompt unreadable name tokens := by
  obtain ⟨hext, file, state_file, hfile, hstate, hread⟩ := h
  exact ⟨hext, ⟨file, state_file, hfile, hstate, read_tokens_of_le hread hfits.length_le⟩,
    hreadable, hfits⟩

/-- The longest complete pair whose tokens the prompt starts with. -/
structure LongestPair (files : Files) (prompt : List UInt32) (name : Bytes)
    (tokens : List UInt32) : Prop where
  stored : StoredPair files name tokens
  fits : tokens <+: prompt
  longest : ∀ other longer, StoredPair files other longer → longer <+: prompt →
    longer.length ≤ tokens.length

/-- When there is a complete pair that fits, there is a longest one. -/
theorem StoredPair.exists_longest {prompt tokens : List UInt32} {name : Bytes}
    (h : StoredPair files name tokens) (hfits : tokens <+: prompt) :
    ∃ name tokens, LongestPair files prompt name tokens := by
  induction hrest : prompt.length - tokens.length using Nat.strong_induction_on
    generalizing name tokens with
  | _ rest ih =>
    by_cases hlongest : ∀ other longer, StoredPair files other longer → longer <+: prompt →
        longer.length ≤ tokens.length
    · exact ⟨name, tokens, h, hfits, hlongest⟩
    · push Not at hlongest
      obtain ⟨other, longer, hother, hfits', hlt⟩ := hlongest
      have hle := hfits'.length_le
      exact ih _ (by omega) hother hfits' rfl

theorem StoredPair.exists_saved (h : Sound store saved torn files) {tokens : List UInt32}
    {name : Bytes} (hstored : StoredPair files name tokens) (hwhole : torn (stem name) = false) :
    ∃ state_file state, files (state_path_of name) = some state_file ∧ saved tokens state ∧
      state_file.content = store.save_prefix_state state := by
  obtain ⟨hext, file, state_file, hfile, hstate, hread⟩ := hstored
  have hknown := h.known name (Option.isSome_iff_exists.mpr ⟨file, hfile⟩)
  have hpartner := h.known _ (Option.isSome_iff_exists.mpr ⟨state_file, hstate⟩)
  cases hknown with
  | tokens own =>
    have hstem := (extension_tokens (cache_key_ne_nil own)).2
    have hpath : state_path_of (cache_key own ++ tokens_extension) =
        cache_key own ++ state_extension := by
      rw [state_path_of, hstem]
    rw [hstem] at hwhole
    rw [hpath] at hstate ⊢
    obtain ⟨own', state, hsaved, hcontent, hcontent'⟩ :=
      h.pairs own file state_file hwhole hfile hstate
    rw [hcontent] at hread
    obtain rfl := read_token_file hread
    exact ⟨state_file, state, hstate, hsaved, hcontent'⟩
  | state own =>
    rw [(extension_state (cache_key_ne_nil own)).1] at hext
    exact absurd hext (by decide)
  | temporary_tokens own counter =>
    exact absurd hpartner (not_known_state_path_of_temporary own counter)
  | temporary_state own counter =>
    rw [(extension_state (temporary_stem_ne_nil _ counter)).1] at hext
    exact absurd hext (by decide)

variable (store) in
/-- **A prefix that is loaded is not mismatched.** Whatever the operations before it and
wherever they broke off: when the longest complete pair that fits the prompt can be read and
is not torn, what a load returns is a prefix of the prompt with a state that was saved
together with exactly these tokens, and no longer complete pair is a prefix of the prompt. -/
theorem loaded_prefix_matches {operations : List (Operation State)} {faults : LoadFaults}
    {listing : List Bytes}
    (hlisting : ∀ name, ((run store operations).files name).isSome = true → name ∈ listing)
    {now : Nat} {prompt tokens : List UInt32} {state : State}
    (hlongest : ∀ name longest, LongestPair (run store operations).files prompt name longest →
      faults.unreadable name = false ∧ torn_keys store operations (stem name) = false)
    (hload : (load_longest store faults listing now prompt (run store operations)).2 =
      some (tokens, state)) :
    (∃ original, SavedBy operations tokens original ∧
      store.load_prefix_state (store.save_prefix_state original) store.model_layer_count =
        some state) ∧
    tokens <+: prompt ∧
    ∀ name longer, StoredPair (run store operations).files name longer → longer <+: prompt →
      longer.length ≤ tokens.length := by
  have hsound := sound_run store operations
  generalize run store operations = disk at hlisting hlongest hload hsound ⊢
  obtain ⟨hbest, hall⟩ := longest_spec disk.files prompt faults.unreadable listing
  rcases load_longest_cases store faults listing now prompt disk with h | ⟨best, file, state', hbest_eq,
    hne, hfile, hstate, -, h⟩
  · rw [h] at hload
    exact absurd hload nofun
  rw [h] at hload
  obtain ⟨rfl, rfl⟩ := Prod.mk.inj (Option.some.inj hload)
  rw [hbest_eq] at hbest hall
  have hcandidate := hbest.resolve_left hne
  -- the longest pair is read, so the candidate is no shorter
  have hno_longer : ∀ name longer, StoredPair disk.files name longer → longer <+: prompt →
      longer.length ≤ best.1.length := by
    intro name longer hlonger hfits
    obtain ⟨name', longest, hpair⟩ := hlonger.exists_longest hfits
    obtain ⟨file', _, hfile', -⟩ := hpair.stored.pair
    have hlisted := hlisting name' (Option.isSome_iff_exists.mpr ⟨file', hfile'⟩)
    have hread := hpair.stored.candidate (hlongest _ _ hpair).1 hpair.fits
    exact (hpair.longest name longer hlonger hfits).trans (hall name' hlisted longest hread)
  have hwhole := (hlongest _ _ ⟨hcandidate.stored, hcandidate.fits, hno_longer⟩).2
  obtain ⟨state_file, original, hstate_file, hsaved, hcontent⟩ :=
    hcandidate.stored.exists_saved hsound hwhole
  obtain rfl := Option.some.inj (hfile.symm.trans hstate_file)
  exact ⟨⟨original, hsaved, hcontent ▸ hstate⟩, hcandidate.fits, hno_longer⟩

/-- Within the limit nothing is evicted. -/
theorem evict_to_limit_of_le {faults : EvictionFaults} (hthrows : faults.throws = false)
    {listing : List Bytes}
    (hle : ((listing.filterMap (entry_of files faults.unqueried)).map Entry.bytes).sum ≤
      store.max_bytes) : evict_to_limit store faults listing files = some files := by
  have hstop : ∀ kept total entries, total ≤ store.max_bytes →
      evict_entries store kept total entries files = files := by
    intro kept total entries htotal
    cases entries with
    | nil => rfl
    | cons entry entries => rw [evict_entries, if_pos htotal]
  rw [evict_to_limit, hthrows, if_neg (by decide)]
  exact congrArg some (hstop _ _ _ hle)

/-- A save that is stored within the limit. -/
theorem step_save_of_le {disk : Disk} {tokens : List UInt32} {state : State}
    {faults : SaveFaults} {eviction : EvictionFaults} {listing : List Bytes} {now : Nat}
    (htokens : tokens ≠ []) (hstate : store.token_count state = tokens.length ∧
      store.layer_count state = store.model_layer_count)
    (hdone : (save_pair store faults now tokens state disk).2 = true)
    (hthrows : eviction.throws = false)
    (hle : ((listing.filterMap (entry_of (save_pair store faults now tokens state disk).1.files
      eviction.unqueried)).map Entry.bytes).sum ≤ store.max_bytes) :
    step store disk (.save tokens state faults eviction listing now) =
      (save_pair store faults now tokens state disk).1 := by
  rw [step, save, if_neg htokens, if_neg (by rw [not_or, not_not, not_not]; exact hstate)]
  generalize save_pair store faults now tokens state disk = placed at hdone hle ⊢
  obtain ⟨disk', done⟩ := placed
  dsimp only at hdone hle ⊢
  rw [hdone, if_neg (by decide), evict_to_limit_of_le hthrows hle]

end Files

/-! ### Runs of two lists with one key -/

/-- A store of states that are a count and a number. -/
def numbered : Store (Nat × Nat) where
  token_count := Prod.fst
  layer_count := fun _ => 1
  save_prefix_state := fun state => [state.1.toUInt8, state.2.toUInt8]
  load_prefix_state := fun content _ =>
    match content with
    | [count, number] => some (count.toNat, number.toNat)
    | _ => none
  directory := ascii ['c']
  max_bytes := 1000
  model_layer_count := 1

/-- Two lists of tokens with one key. -/
def twins : List UInt32 × List UInt32 :=
  ([8482, 51572, 53019, 44453], [49283, 1450, 48544, 61728])

def no_faults : SaveFaults := ⟨.done, .done, false, false, false, false⟩

def no_eviction_faults : EvictionFaults := ⟨false, fun _ => false, fun _ => false⟩

def no_load_faults : LoadFaults := ⟨false, fun _ => false, false, fun _ => false⟩

/-- The names of a pair. -/
def pair_names (tokens : List UInt32) : List Bytes :=
  [cache_key tokens ++ tokens_extension, cache_key tokens ++ state_extension]

/-- Every file has one of these names. -/
def Named (names : List Bytes) (files : Files) : Prop :=
  ∀ name, (files name).isSome = true → name ∈ names

theorem named_empty (names : List Bytes) : Named names Files.empty :=
  fun _ hsome => absurd hsome Bool.false_ne_true

theorem Named.mono {names more : List Bytes} {files : Files} (h : Named names files)
    (hsub : names ⊆ more) : Named more files := fun name hsome => hsub (h name hsome)

theorem Named.put {names : List Bytes} {files : Files} (h : Named names files) {name : Bytes}
    (hname : name ∈ names) (file : Option File) : Named names (files.put name file) := by
  intro other hsome
  by_cases heq : other = name
  · rwa [heq]
  · rw [put_of_ne heq] at hsome
    exact h other hsome

theorem Named.put_none {names : List Bytes} {files : Files} {name : Bytes}
    (h : Named (name :: names) files) : Named names (files.put name none) := by
  intro other hsome
  by_cases heq : other = name
  · rw [heq, put_same] at hsome
    exact absurd hsome Bool.false_ne_true
  · rw [put_of_ne heq] at hsome
    exact (List.mem_cons.mp (h other hsome)).resolve_left heq

/-- A save that can clean up leaves no temporary file. -/
theorem Named.save_pair {State : Type} {store : Store State} {names : List Bytes} {disk : Disk}
    (h : Named names disk.files) {tokens : List UInt32} (hnames : pair_names tokens ⊆ names)
    {faults : SaveFaults} (hkept : faults.tokens_kept = false ∧ faults.state_kept = false)
    (now : Nat) (state : State) :
    Named names (save_pair store faults now tokens state disk).1.files := by
  let temporary_tokens := temporary_path (cache_key tokens ++ tokens_extension) tokens_extension
    disk.temporary_counter
  let temporary_state := temporary_path (cache_key tokens ++ state_extension) state_extension
    (disk.temporary_counter + 1)
  simp only [pair_names, List.cons_subset, List.nil_subset, and_true] at hnames
  obtain ⟨htokens, hstate⟩ := hnames
  have hstart : Named (temporary_state :: temporary_tokens :: names) disk.files :=
    h.mono fun _ hmem => List.mem_cons_of_mem _ (List.mem_cons_of_mem _ hmem)
  have hcleanup : ∀ {files : Files}, Named (temporary_state :: temporary_tokens :: names) files →
      Named names ((files.remove temporary_tokens faults.tokens_kept).remove temporary_state
        faults.state_kept) := by
    intro files hfiles
    rw [hkept.1, hkept.2]
    refine Named.put_none (Named.put_none (hfiles.mono ?_))
    exact (List.Perm.swap _ _ _).subset
  have hfirst : ∀ file, Named (temporary_state :: temporary_tokens :: names)
      (disk.files.put temporary_state file) := fun file => hstart.put List.mem_cons_self file
  have hboth : ∀ file file', Named (temporary_state :: temporary_tokens :: names)
      ((disk.files.put temporary_state file).put temporary_tokens file') := fun file file' =>
    (hfirst file).put (List.mem_cons_of_mem _ List.mem_cons_self) file'
  rw [PrefixStore.save_pair]
  rcases faults.state_written with _ | left
  case failed => exact hcleanup (hfirst left)
  rcases faults.tokens_written with _ | left
  case failed => exact hcleanup (hboth _ left)
  dsimp only [Write.put]
  by_cases hrename : faults.state_rename_fails = true
  · rw [if_pos hrename]
    exact hcleanup (hboth _ _)
  rw [if_neg hrename]
  have hplaced := fun file file' file'' => (hboth file file').put
    (List.mem_cons_of_mem _ (List.mem_cons_of_mem _ hstate)) file''
  by_cases hrename' : faults.tokens_rename_fails = true
  · rw [if_pos hrename']
    exact hcleanup ((hplaced _ _ _).put List.mem_cons_self none)
  · rw [if_neg hrename']
    exact ((hplaced _ _ _).put_none.put (List.mem_cons_of_mem _ htokens) _).put_none

/-- A save of the other twin is torn. -/
def torn_run : List (Operation (Nat × Nat)) :=
  [.save twins.1 (4, 1) no_faults no_eviction_faults (pair_names twins.1) 0,
    .save twins.2 (4, 2) { no_faults with tokens_rename_fails := true } no_eviction_faults
      (pair_names twins.2) 1]

/-- The disk after it. -/
theorem run_torn : run numbered torn_run =
    (save_pair numbered { no_faults with tokens_rename_fails := true } 1 twins.2 (4, 2)
      (save_pair numbered no_faults 0 twins.1 (4, 1) ⟨Files.empty, 0⟩).1).1 := by
  have hfirst : step numbered ⟨Files.empty, 0⟩
      (.save twins.1 (4, 1) no_faults no_eviction_faults (pair_names twins.1) 0) =
        (save_pair numbered no_faults 0 twins.1 (4, 1) ⟨Files.empty, 0⟩).1 :=
    step_save_of_le (by decide) (by decide) (by decide) rfl (by decide +kernel)
  rw [run, torn_run, List.foldl_cons, List.foldl_cons, List.foldl_nil, hfirst]
  rfl

/-- After it the first twin is saved once more. -/
def mended_run : List (Operation (Nat × Nat)) :=
  torn_run ++ [.save twins.1 (4, 3) no_faults no_eviction_faults (pair_names twins.1) 2]

/-- The disk after that. -/
theorem run_mended : run numbered mended_run =
    (save_pair numbered no_faults 2 twins.1 (4, 3) (run numbered torn_run)).1 := by
  have hrun : run numbered mended_run = step numbered (run numbered torn_run)
      (.save twins.1 (4, 3) no_faults no_eviction_faults (pair_names twins.1) 2) := by
    rw [run, mended_run, List.foldl_append]
    rfl
  rw [hrun]
  refine step_save_of_le (by decide) (by decide) rfl rfl ?_
  rw [run_torn]
  decide +kernel

theorem twins_key : cache_key twins.2 = cache_key twins.1 := by decide +kernel

/-- The last save mends the pair. -/
theorem torn_keys_mended (key : Bytes) : torn_keys numbered mended_run key = false := by
  rw [mended_run, torn_keys_concat, torn_step]
  by_cases hkey : cache_key twins.1 = key
  · have hplaces : places_state numbered (cache_key twins.1) (.save twins.1 (4, 3) no_faults
        no_eviction_faults (pair_names twins.1) 2) = true := by decide +kernel
    rw [← hkey, if_pos hplaces]
    rfl
  · have hfirst : torn_keys numbered
        [.save twins.1 (4, 1) no_faults no_eviction_faults (pair_names twins.1) 0] key = false := by
      rw [← List.nil_append [_], torn_keys_concat, torn_step]
      simp [torn_keys, tears, no_faults]
    have hsecond : torn_keys numbered torn_run key = false := by
      rw [torn_run, ← List.singleton_append, torn_keys_concat, torn_step]
      simp [places_state, twins_key, hkey, hfirst]
    simp [places_state, hkey, hsecond]

theorem named_mended : Named (pair_names twins.1) (run numbered mended_run).files := by
  have hnames : pair_names twins.2 ⊆ pair_names twins.1 := by
    rw [pair_names, pair_names, twins_key]
    exact List.Subset.refl _
  have hfirst : Named (pair_names twins.1)
      (save_pair numbered no_faults 0 twins.1 (4, 1) ⟨Files.empty, 0⟩).1.files :=
    (named_empty _).save_pair (List.Subset.refl _) ⟨rfl, rfl⟩ 0 (4, 1)
  have hsecond : Named (pair_names twins.1) (run numbered torn_run).files := by
    rw [run_torn]
    exact hfirst.save_pair hnames ⟨rfl, rfl⟩ 1 (4, 2)
  rw [run_mended]
  exact hsecond.save_pair (List.Subset.refl _) ⟨rfl, rfl⟩ 2 (4, 3)

/-- A load behind a torn save that has been mended. -/
theorem loaded_prefix_matches_mended :
    (∃ original, SavedBy mended_run twins.1 original ∧
      numbered.load_prefix_state (numbered.save_prefix_state original) 1 = some (4, 3)) ∧
    twins.1 <+: twins.1 ++ [7] ∧
    ∀ name longer, StoredPair (run numbered mended_run).files name longer →
      longer <+: twins.1 ++ [7] → longer.length ≤ 4 := by
  have hload : (load_longest numbered no_load_faults (pair_names twins.1) 3 (twins.1 ++ [7])
      (run numbered mended_run)).2 = some (twins.1, (4, 3)) := by
    rw [run_mended, run_torn]
    decide +kernel
  exact loaded_prefix_matches numbered named_mended
    (fun name _ _ => ⟨rfl, torn_keys_mended (stem name)⟩) hload

/-- A prefix and a longer one. -/
def nested_run : List (Operation (Nat × Nat)) :=
  [.save [7] (1, 1) no_faults no_eviction_faults (pair_names [7]) 0,
    .save [7, 8] (2, 2) no_faults no_eviction_faults (pair_names [7] ++ pair_names [7, 8]) 1]

/-- The disk after it. -/
theorem run_nested : run numbered nested_run =
    (save_pair numbered no_faults 1 [7, 8] (2, 2)
      (save_pair numbered no_faults 0 [7] (1, 1) ⟨Files.empty, 0⟩).1).1 := by
  have hfirst : step numbered ⟨Files.empty, 0⟩
      (.save [7] (1, 1) no_faults no_eviction_faults (pair_names [7]) 0) =
        (save_pair numbered no_faults 0 [7] (1, 1) ⟨Files.empty, 0⟩).1 :=
    step_save_of_le (by decide) (by decide) (by decide) rfl (by decide)
  rw [run, nested_run, List.foldl_cons, List.foldl_cons, List.foldl_nil, hfirst,
    step_save_of_le (by decide) (by decide) (by decide) rfl (by decide)]

/-- The longer one cannot be read. -/
def unreadable_faults : LoadFaults :=
  { no_load_faults with unreadable := fun name => name = cache_key [7, 8] ++ tokens_extension }

/-- After a torn save a load returns tokens with a state that was never saved with them; and
a load that cannot read a file of tokens returns a shorter prefix. -/
theorem loaded_prefix_mismatch :
    (load_longest numbered no_load_faults (pair_names twins.1) 2 twins.1
        (run numbered torn_run)).2 = some (twins.1, (4, 2)) ∧
      (∀ original, SavedBy torn_run twins.1 original →
        numbered.load_prefix_state (numbered.save_prefix_state original) 1 ≠ some (4, 2)) ∧
    (load_longest numbered unreadable_faults (pair_names [7] ++ pair_names [7, 8]) 2 [7, 8, 9]
        (run numbered nested_run)).2 = some ([7], (1, 1)) ∧
      StoredPair (run numbered nested_run).files (cache_key [7, 8] ++ tokens_extension) [7, 8] := by
  rw [run_nested]
  refine ⟨by decide +kernel, ?_, by decide, ⟨by decide, ?_⟩⟩
  · rintro original ⟨faults, eviction, listing, now, hmem⟩
    have htwins : twins.1 ≠ twins.2 := by decide
    rcases List.mem_cons.mp hmem with heq | hmem
    · obtain ⟨-, rfl, -⟩ := Operation.save.inj heq
      decide
    · obtain ⟨heq, -⟩ := Operation.save.inj (List.mem_singleton.mp hmem)
      exact absurd heq htwins
  · exact ⟨⟨token_file [7, 8], 1⟩, ⟨[2, 2], 1⟩, by decide, by decide, by decide⟩

end PrefixStore

end Qwen38
