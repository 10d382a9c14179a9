import Qwen38.Token.Tokenizer

/-!
# The tokens behind the IDs

The files of a tokenizer give IDs to tokens: the entries of the vocabulary, and the added tokens
(`Qwen38.Token.TokenizerFiles.ids`). When no two tokens have one ID, an ID that `load` has put into
one of its maps leads back to its token (`Qwen38.Token.Tokenizer.Traced`); a later token at the same
place would be the same one.
-/

namespace Qwen38

namespace Token

/-! ### What the files say -/

section Files

variable {D : Type}

/-- The entries of a vocabulary. -/
def vocabulary_ids : Json D → List (Bytes × UInt32)
  | .object entries => entries.filterMap fun (token, value) =>
    match value with
    | .integer id => some (token, .ofNat id.toNat)
    | _ => none
  | _ => []

/-- An added token with its ID. -/
def added_id (description : Json D) (id : UInt32) : Option (Bytes × UInt32) :=
  match description.find (bytes "content") with
  | some (.string token) => some (token, id)
  | _ => none

/-- The added tokens. -/
def added_ids (tokenizer_config : Json D) (tokenizer_json : Option (Json D)) : List (Bytes × UInt32) :=
  match tokenizer_config.find (bytes "added_tokens_decoder") with
  | some (.object entries) => entries.filterMap fun (id_text, description) =>
    added_id description (.ofNat (Json.digits_value id_text))
  | _ =>
    match tokenizer_json.bind fun tokenizer_json => tokenizer_json.find (bytes "added_tokens") with
    | some (.array descriptions) => descriptions.filterMap fun description =>
      match description.find (bytes "id") with
      | some (.integer id) => added_id description (.ofNat id.toNat)
      | _ => none
    | _ => []

/-- A file as JSON, where it is that. -/
def json_of (numbers : NumberText) (file : Option Bytes) : Json numbers.Double :=
  (Tokenizer.read_json numbers file "").toOption.getD .null

/-- **The tokens of the files**, with their IDs. -/
def TokenizerFiles.ids (numbers : NumberText) (files : TokenizerFiles) : List (Bytes × UInt32) :=
  match files.vocab, files.merges with
  | some vocab, some _ => vocabulary_ids (json_of numbers (some vocab)) ++
    added_ids (json_of numbers files.tokenizer_config) none
  | _, _ =>
    let tokenizer_json := json_of numbers files.tokenizer
    let vocabulary := ((tokenizer_json.find (bytes "model")).bind fun model => model.find (bytes "vocab"))
    vocabulary_ids (vocabulary.getD .null) ++
      added_ids (json_of numbers files.tokenizer_config) (some tokenizer_json)

/-- No two tokens have one ID. -/
def Injective (ids : List (Bytes × UInt32)) : Prop :=
  ∀ a ∈ ids, ∀ b ∈ ids, a.2 = b.2 → a.1 = b.1

end Files

/-! ### The table of tokens -/

section SetToken

variable {id_to_token : List Bytes} {id : UInt32} {token : Bytes}

theorem getElem?_set_token_self :
    (Tokenizer.set_token id_to_token id token)[id.toNat]? = some token := by
  rw [Tokenizer.set_token, List.getElem?_set_self]
  rw [List.length_append, List.length_replicate]
  omega

/-- A token stays at its place, when it is another one. -/
theorem getElem?_set_token_of_ne {other : UInt32} {found : Bytes} (hne : other ≠ id)
    (h : id_to_token[other.toNat]? = some found) :
    (Tokenizer.set_token id_to_token id token)[other.toNat]? = some found := by
  have hplace : id.toNat ≠ other.toNat := fun heq => hne (UInt32.toNat_inj.mp heq.symm)
  have hlt := (List.getElem?_eq_some_iff.mp h).1
  rw [Tokenizer.set_token, List.getElem?_set_ne hplace, List.getElem?_append_left hlt]
  exact h

end SetToken

namespace Tokenizer

variable {buckets : UnorderedMap.BucketOrder Bytes} {ids : List (Bytes × UInt32)}

/-- **Every ID leads back to its token.** -/
structure Traced (ids : List (Bytes × UInt32)) (tokenizer : Tokenizer) : Prop where
  token_to_id : ∀ {token id}, tokenizer.token_to_id.lookup token = some id →
    (token, id) ∈ ids ∧ tokenizer.id_to_token[id.toNat]? = some token
  special_to_id : ∀ {token id}, tokenizer.special_to_id.lookup token = some id →
    (token, id) ∈ ids ∧ tokenizer.id_to_token[id.toNat]? = some token

/-- The table keeps what it has, or has it again. -/
theorem getElem?_set_token_of_mem (hids : Injective ids) {id_to_token : List Bytes} {id other : UInt32}
    {token found : Bytes} (htoken : (token, id) ∈ ids) (hfound : (found, other) ∈ ids)
    (h : id_to_token[other.toNat]? = some found) :
    (set_token id_to_token id token)[other.toNat]? = some found := by
  by_cases heq : other = id
  · subst heq
    have hsame : token = found := hids _ htoken _ hfound rfl
    rw [getElem?_set_token_self, hsame]
  · exact getElem?_set_token_of_ne heq h

/-- **One added token more.** -/
theorem Traced.add_token {D : Type} {tokenizer tokenizer' : Tokenizer} {description : Json D}
    {id : UInt32} (h : Traced ids tokenizer) (hids : Injective ids)
    (hmem : ∀ pair ∈ added_id description id, pair ∈ ids)
    (hadd : Tokenizer.add_token buckets tokenizer id description = .ok tokenizer') :
    Traced ids tokenizer' := by
  obtain ⟨content, hcontent, hadd⟩ := Except.bind_eq_ok.mp hadd
  obtain ⟨token, htoken, hadd⟩ := Except.bind_eq_ok.mp hadd
  obtain ⟨flag, -, hadd⟩ := Except.bind_eq_ok.mp hadd
  obtain ⟨special, -, hadd⟩ := Except.bind_eq_ok.mp hadd
  cases hadd
  obtain rfl := Json.get_string_eq_ok.mp htoken
  have hpair : (token, id) ∈ ids := by
    refine hmem _ ?_
    rw [added_id, Json.at_key_eq_ok.mp hcontent]
    exact rfl
  constructor
  · intro other other_id hother
    by_cases heq : other = token
    · subst heq
      rw [UnorderedMap.lookup_put] at hother
      cases hother
      exact ⟨hpair, getElem?_set_token_self⟩
    · rw [UnorderedMap.lookup_put_of_ne heq] at hother
      obtain ⟨hfound, hplace⟩ := h.token_to_id hother
      exact ⟨hfound, getElem?_set_token_of_mem hids hpair hfound hplace⟩
  · intro other other_id hother
    rcases UnorderedMap.lookup_of_lookup_emplace hother with hold | ⟨rfl, rfl⟩
    · obtain ⟨hfound, hplace⟩ := h.special_to_id hold
      exact ⟨hfound, getElem?_set_token_of_mem hids hpair hfound hplace⟩
    · exact ⟨hpair, getElem?_set_token_self⟩

/-! ### Loading -/

theorem token_id_eq_ok {id : Int} {message : String} {value : UInt32} (h : token_id id message = .ok value) :
    value = .ofNat id.toNat := by
  rw [token_id] at h
  split at h
  · cases h
  · exact (Except.ok.inj h).symm

theorem parse_id_eq_ok {text : Bytes} {value : UInt32} (h : parse_id text = .ok value) :
    value = .ofNat (Json.digits_value text) := by
  rw [parse_id] at h
  split at h
  · exact (Except.ok.inj h).symm
  · cases h

/-- **The tokens of a vocabulary** are its entries. -/
theorem mem_of_load_vocabulary {D : Type} {vocabulary : Json D} {token_to_id : UnorderedMap Bytes UInt32}
    (h : load_vocabulary buckets vocabulary = .ok token_to_id) {token : Bytes} {id : UInt32}
    (hlookup : token_to_id.lookup token = some id) : (token, id) ∈ vocabulary_ids vocabulary := by
  obtain ⟨entries, hentries, hrun⟩ := Except.bind_eq_ok.mp h
  obtain rfl := Json.get_object_eq_ok.mp hentries
  have hmem : (token, id) ∈ vocabulary_ids (Json.object (iterate buckets entries)) := by
    refine Except.foldlM_inv (I := fun done token_to_id => ∀ token id,
      token_to_id.lookup token = some id → (token, id) ∈ vocabulary_ids (Json.object done)) ?_ ?_ hrun
        token id hlookup
    · intro token id hlookup
      rw [AList.lookup_empty] at hlookup
      cases hlookup
    · rintro done start ⟨entry, value⟩ next hstart hnext token id hlookup
      obtain ⟨integer, hinteger, hnext⟩ := Except.bind_eq_ok.mp hnext
      obtain ⟨entry_id, hid, hnext⟩ := Except.bind_eq_ok.mp hnext
      cases hnext
      obtain rfl := Json.get_integer_eq_ok.mp hinteger
      rw [vocabulary_ids, List.filterMap_append]
      rcases UnorderedMap.lookup_of_lookup_emplace hlookup with hold | ⟨rfl, rfl⟩
      · exact List.mem_append_left _ (hstart token id hold)
      · rw [token_id_eq_ok hid]
        exact List.mem_append_right _ (List.mem_singleton_self _)
  exact ((perm_iterate buckets entries).filterMap _).mem_iff.mp hmem

/-- **The table of a vocabulary.** -/
theorem getElem?_tokens_by_id (hids : Injective ids) {token_to_id : UnorderedMap Bytes UInt32}
    (hmem : ∀ token id, token_to_id.lookup token = some id → (token, id) ∈ ids) {token : Bytes}
    {id : UInt32} (hlookup : token_to_id.lookup token = some id) :
    (tokens_by_id token_to_id)[id.toNat]? = some token := by
  have hfold : ∀ entries : List (Sigma fun _ : Bytes => UInt32),
      (∀ entry ∈ entries, (entry.1, entry.2) ∈ ids) → ∀ entry ∈ entries,
        (entries.foldl (fun id_to_token entry => set_token id_to_token entry.2 entry.1)
          [[]])[entry.2.toNat]? = some entry.1 := by
    intro entries
    induction entries using List.reverseRecOn with
    | nil => exact fun _ entry hentry => absurd hentry List.not_mem_nil
    | append_singleton entries last ih =>
      intro hin entry hentry
      rw [List.foldl_append, List.foldl_cons, List.foldl_nil]
      rcases List.mem_append.mp hentry with hold | hnew
      · have hplace := ih (fun entry h => hin entry (List.mem_append_left _ h)) entry hold
        exact getElem?_set_token_of_mem hids (hin last List.mem_concat_self) (hin entry hentry) hplace
      · rw [List.mem_singleton.mp hnew]
        exact getElem?_set_token_self
  refine hfold token_to_id.entries (fun entry hentry => ?_) ⟨token, id⟩ (AList.mem_lookup_iff.mp hlookup)
  exact hmem entry.1 entry.2 (UnorderedMap.lookup_of_mem hentry)

/-- A vocabulary without added tokens. -/
theorem traced_of_load_vocabulary {D : Type} {vocabulary : Json D}
    {token_to_id : UnorderedMap Bytes UInt32} (merge_rank : UnorderedMap Bytes UInt32)
    (hids : Injective ids) (hmem : ∀ pair ∈ vocabulary_ids vocabulary, pair ∈ ids)
    (h : load_vocabulary buckets vocabulary = .ok token_to_id) :
    Traced ids ⟨token_to_id, tokens_by_id token_to_id, merge_rank, ∅, []⟩ where
  token_to_id := by
    intro token id hlookup
    have hall : ∀ token id, token_to_id.lookup token = some id → (token, id) ∈ ids :=
      fun token id hlookup => hmem _ (mem_of_load_vocabulary h hlookup)
    exact ⟨hall token id hlookup, getElem?_tokens_by_id hids hall hlookup⟩
  special_to_id := by
    intro token id hlookup
    rw [AList.lookup_empty] at hlookup
    cases hlookup

/-- **The added tokens.** -/
theorem Traced.load_added_tokens {D : Type} {tokenizer tokenizer' : Tokenizer}
    {tokenizer_config : Json D} {tokenizer_json : Option (Json D)} (h : Traced ids tokenizer)
    (hids : Injective ids) (hmem : ∀ pair ∈ added_ids tokenizer_config tokenizer_json, pair ∈ ids)
    (hload : Tokenizer.load_added_tokens buckets tokenizer tokenizer_config tokenizer_json =
      .ok tokenizer') : Traced ids tokenizer' := by
  unfold Tokenizer.load_added_tokens at hload
  rw [added_ids] at hmem
  split at hload
  · next entries hentries =>
    rw [hentries] at hmem
    -- the object of the configuration, in the order in which the map is iterated
    refine (Except.foldlM_inv (I := fun done tokenizer => (∀ pair ∈ done, pair ∈ entries) →
      Traced ids tokenizer) (fun _ => h) ?_ hload)
      fun _ hpair => (perm_iterate buckets entries).mem_iff.mp hpair
    rintro done tokenizer ⟨id_text, description⟩ next hdone hnext hin
    obtain ⟨id, hid, hadd⟩ := Except.bind_eq_ok.mp hnext
    have htraced := hdone fun pair hpair => hin pair (List.mem_append_left _ hpair)
    refine htraced.add_token hids (fun pair hpair => hmem pair ?_) hadd
    refine List.mem_filterMap.mpr ⟨_, hin _ List.mem_concat_self, ?_⟩
    change added_id description (.ofNat (Json.digits_value id_text)) = some pair
    rw [← parse_id_eq_ok hid]
    exact hpair
  · next hnone =>
    split at hmem
    · next entries hentries => exact absurd hentries (hnone entries)
    split at hload
    · next tokenizer_json =>
      -- the array of `tokenizer.json`, in its own order
      obtain ⟨added, hadded, hload⟩ := Except.bind_eq_ok.mp hload
      obtain ⟨descriptions, hdescriptions, hload⟩ := Except.bind_eq_ok.mp hload
      obtain rfl := Json.get_array_eq_ok.mp hdescriptions
      rw [Option.bind_some, Json.at_key_eq_ok.mp hadded] at hmem
      refine (Except.foldlM_inv (I := fun done tokenizer => (∀ item ∈ done, item ∈ descriptions) →
        Traced ids tokenizer) (fun _ => h) ?_ hload) fun _ hitem => hitem
      intro done tokenizer description next hdone hnext hin
      obtain ⟨raw, hraw, hnext⟩ := Except.bind_eq_ok.mp hnext
      obtain ⟨raw_id, hinteger, hnext⟩ := Except.bind_eq_ok.mp hnext
      obtain ⟨id, hid, hadd⟩ := Except.bind_eq_ok.mp hnext
      obtain rfl := Json.get_integer_eq_ok.mp hinteger
      have htraced := hdone fun item hitem => hin item (List.mem_append_left _ hitem)
      refine htraced.add_token hids (fun pair hpair => hmem pair ?_) hadd
      refine List.mem_filterMap.mpr ⟨description, hin _ List.mem_concat_self, ?_⟩
      rw [Json.at_key_eq_ok.mp hraw]
      change added_id description (.ofNat raw_id.toNat) = some pair
      rw [← token_id_eq_ok hid]
      exact hpair
    · cases hload

/-- A file that was read. -/
theorem json_of_eq {numbers : NumberText} {file : Option Bytes} {path : String}
    {value : Json numbers.Double} (h : read_json numbers file path = .ok value) :
    json_of numbers file = value := by
  obtain ⟨text, htext, hparse⟩ := Except.bind_eq_ok.mp h
  cases file with
  | none => cases htext
  | some text' =>
    cases htext
    rw [json_of, read_json, read_text, Except.ok_bind, hparse]
    rfl

/-- **After loading, every ID leads back to its token**, where no two tokens have one ID. -/
theorem traced_of_load {numbers : NumberText} {files : TokenizerFiles} {tokenizer : Tokenizer}
    (hids : Injective (files.ids numbers)) (hload : load buckets numbers files = .ok tokenizer) :
    Traced (files.ids numbers) tokenizer := by
  obtain ⟨⟨model, tokenizer_json⟩, hmodel, hload⟩ := Except.bind_eq_ok.mp hload
  obtain ⟨tokenizer_config, hconfig, hload⟩ := Except.bind_eq_ok.mp hload
  change load_added_tokens buckets model tokenizer_config tokenizer_json = .ok tokenizer at hload
  have hconfig := json_of_eq hconfig
  rw [load_model] at hmodel
  split at hmodel
  · next vocab merges hvocab hmerges =>
    -- `vocab.json` and `merges.txt`
    rw [TokenizerFiles.ids, hvocab, hmerges] at hids ⊢
    dsimp only at hids ⊢
    obtain ⟨vocabulary, hvocabulary, hmodel⟩ := Except.bind_eq_ok.mp hmodel
    obtain ⟨token_to_id, htokens, hmodel⟩ := Except.bind_eq_ok.mp hmodel
    obtain ⟨merge_rank, -, hmodel⟩ := Except.bind_eq_ok.mp hmodel
    cases hmodel
    rw [json_of_eq hvocabulary, hconfig] at hids ⊢
    have hstart := traced_of_load_vocabulary merge_rank hids
      (fun pair hpair => List.mem_append_left _ hpair) htokens
    exact hstart.load_added_tokens hids (fun pair hpair => List.mem_append_right _ hpair) hload
  · next hfiles =>
    -- `tokenizer.json`
    obtain ⟨json, hjson, hmodel⟩ := Except.bind_eq_ok.mp hmodel
    obtain ⟨model_json, hmodel_json, hmodel⟩ := Except.bind_eq_ok.mp hmodel
    obtain ⟨type, -, hmodel⟩ := Except.bind_eq_ok.mp hmodel
    obtain ⟨type_name, -, hmodel⟩ := Except.bind_eq_ok.mp hmodel
    obtain ⟨-, -, hmodel⟩ := Except.bind_eq_ok.mp hmodel
    obtain ⟨vocabulary, hvocabulary, hmodel⟩ := Except.bind_eq_ok.mp hmodel
    obtain ⟨token_to_id, htokens, hmodel⟩ := Except.bind_eq_ok.mp hmodel
    obtain ⟨merges, -, hmodel⟩ := Except.bind_eq_ok.mp hmodel
    obtain ⟨rules, -, hmodel⟩ := Except.bind_eq_ok.mp hmodel
    obtain ⟨merge_rank, -, hmodel⟩ := Except.bind_eq_ok.mp hmodel
    cases hmodel
    have hcase : files.ids numbers = vocabulary_ids vocabulary ++ added_ids tokenizer_config (some json) := by
      rw [TokenizerFiles.ids]
      split
      · next vocab merges hvocab hmerges => exact absurd hmerges (hfiles vocab merges hvocab)
      · rw [json_of_eq hjson, hconfig]
        dsimp only
        rw [Json.at_key_eq_ok.mp hmodel_json, Option.bind_some, Json.at_key_eq_ok.mp hvocabulary,
          Option.getD_some]
    rw [hcase] at hids ⊢
    have hstart := traced_of_load_vocabulary merge_rank hids
      (fun pair hpair => List.mem_append_left _ hpair) htokens
    exact hstart.load_added_tokens hids (fun pair hpair => List.mem_append_right _ hpair) hload

end Tokenizer

end Token

end Qwen38
