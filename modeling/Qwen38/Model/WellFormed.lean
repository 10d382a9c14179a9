import Mathlib.Data.List.GetD
import Mathlib.Data.List.Nodup
import Mathlib.Data.List.Sort
import Qwen38.Model.Manifest

/-!
# What an accepted manifest is like

The lists of layers and experts, the types of the layers, and the map from tensors to shards, for
every directory that `ModelManifest::load` accepts (`Qwen38.accepted_well_formed_iff`). The experts
that a layer retains are those of all keys that denote it (`Qwen38.Retained`); they are in strictly
increasing order when the keys share none.
-/

namespace Qwen38

open Checked

/-! ### Accessors that return -/

/-- What an accessor returns. -/
theorem returns_json {α : Type} (x : Except String α) : Returns (json x) fun a => x = .ok a :=
  (ends_lift bytes x).returns

theorem returns_refuse_if (c : Prop) [Decidable c] (message : Bytes) :
    Returns (refuse_if c message) fun _ => ¬c :=
  (ends_refuse_if c message).returns

/-! ### Lists of indices -/

section Indices

variable {D : Type} {limit : Nat} {name refusal : String}

/-- The numbers of an array. -/
def listed (items : List (Json D)) : List Nat :=
  items.filterMap fun item => match item with
    | .integer value => some value.toNat
    | _ => none

theorem listed_concat (items : List (Json D)) (value : Int) :
    listed (items ++ [.integer value]) = listed items ++ [value.toNat] := by
  rw [listed, List.filterMap_append]
  rfl

/-- What `size_value` returns. -/
theorem returns_size_value (value : Json D) (name : String) :
    Returns (size_value value name) fun size => ∃ integer : Int, value = .integer integer ∧
      size = integer.toNat := by
  refine (returns_json _).bind fun integer hinteger => ?_
  exact Returns.skip fun _ => Returns.ok ⟨integer, Json.get_integer_eq_ok.mp hinteger, rfl⟩

/-- **A list of indices** is the numbers of the array, none twice and all below the limit. -/
theorem returns_distinct_indices (items : List (Json D)) :
    Returns (distinct_indices limit name refusal items) fun indices =>
      indices = listed items ∧ indices.Nodup ∧ ∀ index ∈ indices, index < limit := by
  refine Returns.foldlM (I := fun done seen => seen = listed done ∧ seen.Nodup ∧
      ∀ index ∈ seen, index < limit) ?_ ?_ items
  · exact ⟨rfl, List.nodup_nil, fun _ h => absurd h List.not_mem_nil⟩
  rintro done seen item ⟨hlisted, hnodup, hlimit⟩
  refine (returns_size_value item name).bind ?_
  rintro index ⟨integer, rfl, hindex⟩
  refine (returns_refuse_if _ _).bind fun _ hfresh => Returns.ok ?_
  rw [not_or, Nat.not_le] at hfresh
  refine ⟨?_, ?_, ?_⟩
  · rw [listed_concat, hlisted, hindex]
  · exact List.nodup_append.mpr ⟨hnodup, List.nodup_singleton index, fun a ha b hb => by
      rw [List.mem_singleton.mp hb]
      rintro rfl
      exact hfresh.2 ha⟩
  · intro other hother
    rcases List.mem_append.mp hother with hold | hnew
    · exact hlimit other hold
    · rw [List.mem_singleton.mp hnew]
      exact hfresh.1

theorem perm_sorted (l : List Nat) : (sorted l).Perm l := List.perm_insertionSort _ l

theorem pairwise_sorted (l : List Nat) : (sorted l).Pairwise (· ≤ ·) :=
  List.pairwise_insertionSort _ l

/-- A sorted list without repetitions. -/
theorem pairwise_lt_sorted {l : List Nat} : (sorted l).Pairwise (· < ·) ↔ l.Nodup := by
  constructor
  · intro h
    exact (perm_sorted l).nodup_iff.mp (h.imp fun hlt => hlt.ne)
  · intro h
    have hnodup : (sorted l).Pairwise (· ≠ ·) := (perm_sorted l).nodup_iff.mpr h
    exact (pairwise_sorted l).imp₂ (fun _ _ hle hne => Nat.lt_of_le_of_ne hle hne) hnodup

end Indices

/-! ### Retained experts -/

section Retain

variable {D : Type} {geometry : TextGeometry D} {masks : List (Bytes × Json D)}

/-- The experts of a key. -/
def listed_experts : Json D → List Nat
  | .array items => listed items
  | _ => []

/-- The experts of all keys that denote a layer. -/
def experts_of (layer : Nat) (masks : List (Bytes × Json D)) : List Nat :=
  (masks.filter fun mask => layer_of_text mask.1 = some layer).flatMap fun mask => listed_experts mask.2

/-- Two keys that denote one layer share no expert. -/
def Apart (masks : List (Bytes × Json D)) : Prop :=
  masks.Pairwise fun a b => ∀ layer, layer_of_text a.1 = some layer → layer_of_text b.1 = some layer →
    List.Disjoint (listed_experts a.2) (listed_experts b.2)

/-- **The experts of the layers** after some of the keys. -/
structure Retained (geometry : TextGeometry D) (masks : List (Bytes × Json D))
    (lists : List (List Nat)) : Prop where
  length : lists.length = geometry.layer_count
  layer_lt : ∀ mask ∈ masks, ∀ layer, layer_of_text mask.1 = some layer → layer < geometry.layer_count
  nodup : ∀ mask ∈ masks, (listed_experts mask.2).Nodup
  experts : ∀ layer (h : layer < lists.length), lists[layer].Perm (experts_of layer masks)
  ascending : ∀ l ∈ lists, l.Pairwise (· ≤ ·)
  bounded : ∀ l ∈ lists, ∀ expert ∈ l, expert < geometry.expert_count
  size : ∀ l ∈ lists, l = [] ∨ geometry.experts_per_token ≤ l.length ∧ l.length ≠ geometry.expert_count

theorem retained_nil (geometry : TextGeometry D) :
    Retained geometry [] (List.replicate geometry.layer_count []) where
  length := List.length_replicate
  layer_lt := fun _ h => absurd h List.not_mem_nil
  nodup := fun _ h => absurd h List.not_mem_nil
  experts := by
    intro layer h
    rw [List.getElem_replicate]
    exact List.Perm.refl []
  ascending := by
    intro l hl
    rw [List.eq_of_mem_replicate hl]
    exact List.Pairwise.nil
  bounded := by
    intro l hl expert hexpert
    rw [List.eq_of_mem_replicate hl] at hexpert
    exact absurd hexpert List.not_mem_nil
  size := fun l hl => Or.inl (List.eq_of_mem_replicate hl)

/-- The experts with one key more. -/
theorem experts_of_concat (layer : Nat) (masks : List (Bytes × Json D)) (mask : Bytes × Json D) :
    experts_of layer (masks ++ [mask]) = experts_of layer masks ++
      if layer_of_text mask.1 = some layer then listed_experts mask.2 else [] := by
  rw [experts_of, List.filter_append, List.flatMap_append, experts_of]
  congr 1
  by_cases h : layer_of_text mask.1 = some layer
  · simp [h]
  · simp [h]

/-- **One key more.** -/
theorem Retained.step {lists : List (List Nat)} (h : Retained geometry masks lists)
    (mask : Bytes × Json D) :
    Returns (retain_experts geometry lists mask) (Retained geometry (masks ++ [mask])) := by
  rw [retain_experts]
  split
  · exact Returns.error _
  · next layer hlayer =>
    refine (returns_refuse_if _ _).bind fun _ hlt => ?_
    rw [Nat.not_le] at hlt
    obtain ⟨key, value⟩ := mask
    refine (returns_json _).bind fun items hitems => ?_
    obtain rfl : value = .array items := Json.get_array_eq_ok.mp hitems
    refine (returns_distinct_indices items).bind ?_
    rintro experts ⟨hlisted, hnodup, hbounded⟩
    refine (returns_refuse_if _ _).bind fun _ hsize => Returns.ok ?_
    rw [not_or, Nat.not_lt] at hsize
    have hplace : layer < lists.length := by
      rw [h.length]
      exact hlt
    rw [List.getD_eq_getElem _ _ hplace] at hsize ⊢
    have hmem : lists[layer] ∈ lists := List.getElem_mem hplace
    -- the list of this layer has been set, and sorted; every other one is as it was
    refine ⟨?_, ?_, ?_, ?_, ?_, ?_, ?_⟩
    · rw [List.length_set]
      exact h.length
    · intro mask hmask other hother
      rcases List.mem_append.mp hmask with hold | hnew
      · exact h.layer_lt mask hold other hother
      · rw [List.mem_singleton.mp hnew] at hother
        cases hlayer.symm.trans hother
        exact hlt
    · intro mask hmask
      rcases List.mem_append.mp hmask with hold | hnew
      · exact h.nodup mask hold
      · rw [List.mem_singleton.mp hnew]
        change (listed items).Nodup
        rw [← hlisted]
        exact hnodup
    · intro other hother
      rw [List.length_set] at hother
      rw [experts_of_concat, List.getElem_set]
      -- the key adds its experts to its own layer, and none to another
      by_cases heq : layer = other
      · subst heq
        rw [if_pos rfl, if_pos hlayer]
        refine (perm_sorted _).trans ?_
        have hlist : listed_experts (Json.array items) = experts := hlisted.symm
        rw [hlist]
        exact (h.experts layer hplace).append_right experts
      · have hne : ¬layer_of_text key = some other := by
          intro hother
          exact heq (Option.some.inj (hlayer.symm.trans hother))
        rw [if_neg heq, if_neg hne, List.append_nil]
        exact h.experts other hother
    · intro l hl
      rcases List.mem_or_eq_of_mem_set hl with hold | rfl
      · exact h.ascending l hold
      · exact pairwise_sorted _
    · intro l hl expert hexpert
      rcases List.mem_or_eq_of_mem_set hl with hold | rfl
      · exact h.bounded l hold expert hexpert
      · rcases List.mem_append.mp ((perm_sorted _).mem_iff.mp hexpert) with hold | hnew
        · exact h.bounded _ hmem expert hold
        · exact hbounded expert hnew
    · intro l hl
      rcases List.mem_or_eq_of_mem_set hl with hold | rfl
      · exact h.size l hold
      · rw [(perm_sorted _).length_eq]
        exact Or.inr hsize

/-- **The loop over the keys.** -/
theorem returns_read_expert_keep (buckets : UnorderedMap.BucketOrder Bytes) (root : Json D) :
    Returns (read_expert_keep buckets root geometry) fun lists =>
      (root.find (bytes "qwen38_expert_keep") = none ∧ lists = []) ∨
      ∃ masks, root.find (bytes "qwen38_expert_keep") = some (.object masks) ∧
        Retained geometry (iterate buckets masks) lists := by
  rw [read_expert_keep]
  split
  · next hnone => exact Returns.ok (Or.inl ⟨hnone, rfl⟩)
  · next value hvalue =>
    refine (returns_json _).bind fun masks hmasks => ?_
    obtain rfl : value = .object masks := Json.get_object_eq_ok.mp hmasks
    have hrun := Returns.foldlM (f := retain_experts geometry) (I := Retained geometry)
      (retained_nil geometry) (fun done lists mask h => h.step mask) (iterate buckets masks)
    exact hrun.mono fun lists hlists => Or.inr ⟨masks, hvalue, hlists⟩

/-- **When the lists have no repetition**: when no two keys of a layer share an expert. -/
theorem Retained.nodup_iff {lists : List (List Nat)} (h : Retained geometry masks lists) :
    (∀ l ∈ lists, l.Nodup) ↔ Apart masks := by
  have hlayer : ∀ layer, (experts_of layer masks).Nodup ↔ masks.Pairwise fun a b =>
      layer_of_text a.1 = some layer → layer_of_text b.1 = some layer →
        List.Disjoint (listed_experts a.2) (listed_experts b.2) := by
    intro layer
    rw [experts_of, List.nodup_flatMap, List.pairwise_filter]
    simp only [decide_eq_true_eq]
    refine ⟨fun hboth => hboth.2, fun hdisjoint => ⟨fun mask hmask => ?_, hdisjoint⟩⟩
    exact h.nodup mask (List.mem_filter.mp hmask).1
  constructor
  · intro hnodup
    refine List.pairwise_iff_getElem.mpr fun i j hi hj hij layer ha hb => ?_
    have hplace : layer < lists.length := by
      rw [h.length]
      exact h.layer_lt _ (List.getElem_mem hi) layer ha
    have hlist := (h.experts layer hplace).nodup_iff.mp (hnodup _ (List.getElem_mem hplace))
    exact List.pairwise_iff_getElem.mp ((hlayer layer).mp hlist) i j hi hj hij ha hb
  · intro hapart l hl
    obtain ⟨layer, hplace, rfl⟩ := List.getElem_of_mem hl
    refine (h.experts layer hplace).nodup_iff.mpr ((hlayer layer).mpr ?_)
    exact hapart.imp fun hdisjoint => hdisjoint layer

/-- The order of the keys does not matter. -/
theorem apart_iterate (buckets : UnorderedMap.BucketOrder Bytes) :
    Apart (iterate buckets masks) ↔ Apart masks := by
  refine (perm_iterate buckets masks).pairwise_iff fun hdisjoint layer ha hb => ?_
  exact fun expert hb' ha' => hdisjoint layer hb ha ha' hb'

end Retain

/-! ### The weight map -/

section WeightMap

variable {numbers : NumberText} {buckets : UnorderedMap.BucketOrder Bytes}
  {directory : ModelDirectory numbers.Double}

/-- The map extends that of the index, and every shard in it is there. -/
structure Mapped (directory : ModelDirectory numbers.Double) (index_map : UnorderedMap Bytes Bytes)
    (weight_map : UnorderedMap Bytes Bytes) : Prop where
  present : ∀ name shard, weight_map.lookup name = some shard → directory.is_regular_file shard = true
  kept : ∀ name shard, index_map.lookup name = some shard → weight_map.lookup name = some shard

/-- **The tensors of a sidecar** extend the map. -/
theorem Mapped.add_tensors {index_map weight_map : UnorderedMap Bytes Bytes}
    (h : Mapped directory index_map weight_map) {sidecar : Bytes}
    (hsidecar : directory.is_regular_file sidecar = true) (may_be_empty : Bool) (refusal : String)
    (names : List Bytes) :
    Returns (add_tensors buckets sidecar may_be_empty refusal names weight_map)
      (Mapped directory index_map) := by
  refine Returns.foldlM (I := fun _ => Mapped directory index_map) h ?_ names
  intro _ weight_map name h
  refine (returns_refuse_if _ _).bind fun _ hfresh => Returns.ok ⟨fun other shard hshard => ?_,
    fun other shard hshard => ?_⟩
  · by_cases heq : other = name
    · subst heq
      rw [UnorderedMap.lookup_put] at hshard
      cases hshard
      exact hsidecar
    · rw [UnorderedMap.lookup_put_of_ne heq] at hshard
      exact h.present other shard hshard
  · have hold := h.kept other shard hshard
    have hmem : other ∈ weight_map := AList.lookup_isSome.mp (by rw [hold]; rfl)
    have hne : other ≠ name := by
      rintro rfl
      exact hfresh (Or.inr hmem)
    rw [UnorderedMap.lookup_put_of_ne hne, hold]

theorem Mapped.add_qmeta {index_map : UnorderedMap Bytes Bytes} {tensors : Tensors}
    (h : Mapped directory index_map tensors.weight_map) (sidecar : Bytes) :
    Returns (add_qmeta numbers buckets directory tensors sidecar) fun tensors =>
      Mapped directory index_map tensors.weight_map := by
  rw [Qwen38.add_qmeta]
  split
  · exact Returns.ok h
  · next file hfile =>
    have hsidecar : directory.is_regular_file sidecar = true := by
      rw [ModelDirectory.is_regular_file, hfile]
      rfl
    refine Returns.skip fun qmeta => (h.add_tensors hsidecar _ _ _).bind fun weight_map hmap => ?_
    exact Returns.ok hmap

theorem Mapped.add_mtp {index_map : UnorderedMap Bytes Bytes} {tensors : Tensors}
    (h : Mapped directory index_map tensors.weight_map) :
    Returns (add_mtp numbers buckets directory tensors) fun tensors =>
      Mapped directory index_map tensors.weight_map := by
  rw [Qwen38.add_mtp]
  split
  · exact Returns.ok h
  · next file hfile =>
    have hsidecar : directory.is_regular_file mtp_sidecar = true := by
      rw [ModelDirectory.is_regular_file, hfile]
      rfl
    refine Returns.skip fun mtp => Returns.skip fun _ => ?_
    refine (h.add_tensors hsidecar _ _ _).bind fun weight_map hmap => ?_
    exact Returns.skip fun _ => Returns.ok hmap

theorem Mapped.add_mtp_lm_head {index_map : UnorderedMap Bytes Bytes} {tensors : Tensors}
    (h : Mapped directory index_map tensors.weight_map) (config : ModelConfig numbers.Double) :
    Returns (add_mtp_lm_head numbers buckets directory config tensors) fun tensors =>
      Mapped directory index_map tensors.weight_map := by
  rw [Qwen38.add_mtp_lm_head]
  split
  · exact Returns.ok h
  · next file hfile =>
    have hsidecar : directory.is_regular_file mtp_lm_head_sidecar = true := by
      rw [ModelDirectory.is_regular_file, hfile]
      rfl
    refine Returns.skip fun _ => Returns.skip fun _ => Returns.skip fun sidecar => ?_
    refine Returns.skip fun _ => Returns.skip fun _ => Returns.skip fun _ => ?_
    refine (h.add_tensors hsidecar _ _ _).bind fun weight_map hmap => ?_
    exact Returns.skip fun _ => Returns.ok hmap

/-- The map of the index after some of its entries. -/
structure Indexed (entries : List (Bytes × Json numbers.Double))
    (result : UnorderedMap Bytes Bytes × List Bytes) : Prop where
  shards : ∀ name shard, result.1.lookup name = some shard → shard ∈ result.2
  names : ∀ name ∈ result.1, name ∈ entries.map Prod.fst
  entries : (entries.map Prod.fst).Nodup → ∀ name shard, (name, Json.string shard) ∈ entries →
    result.1.lookup name = some shard

/-- **The weight map of the index.** -/
theorem returns_read_weight_map (external_shards : Bool) (entries : List (Bytes × Json numbers.Double)) :
    Returns (read_weight_map buckets external_shards entries) (Indexed (iterate buckets entries)) := by
  refine Returns.foldlM (I := Indexed) ?_ ?_ (iterate buckets entries)
  · refine ⟨fun name shard h => ?_, fun name h => ?_, fun _ name shard h => absurd h List.not_mem_nil⟩
    · rw [AList.lookup_empty] at h
      cases h
    · exact absurd h (AList.notMem_empty name)
  · rintro done ⟨weight_map, shards⟩ ⟨tensor_name, value⟩ h
    refine (returns_json _).bind fun shard hshard => ?_
    obtain rfl : value = .string shard := Json.get_string_eq_ok.mp hshard
    refine (returns_refuse_if _ _).bind fun _ _ => Returns.ok ⟨fun name other hother => ?_,
      fun name hname => ?_, fun hnodup name other hmem => ?_⟩
    · rcases UnorderedMap.lookup_of_lookup_emplace hother with hold | ⟨-, rfl⟩
      · exact List.mem_append_left _ (h.shards name other hold)
      · exact List.mem_append_right _ (List.mem_singleton_self _)
    · rw [List.map_append]
      rcases UnorderedMap.mem_emplace.mp hname with rfl | hold
      · exact List.mem_append_right _ (List.mem_singleton_self _)
      · exact List.mem_append_left _ (h.names name hold)
    · rw [List.map_append, List.nodup_append] at hnodup
      obtain ⟨hdone, -, hfresh⟩ := hnodup
      rcases List.mem_append.mp hmem with hold | hnew
      · have hne : name ≠ tensor_name := hfresh name (List.mem_map_of_mem hold) tensor_name
          (List.mem_singleton_self _)
        rw [UnorderedMap.lookup_emplace_of_ne hne]
        exact h.entries hdone name other hold
      · obtain ⟨rfl, hvalue⟩ := Prod.mk.inj (List.mem_singleton.mp hnew)
        cases hvalue
        have hout : name ∉ weight_map := fun hin =>
          hfresh name (h.names name hin) name (List.mem_singleton_self _) rfl
        exact UnorderedMap.lookup_emplace_of_notMem hout

/-- **The index**: its shards are there, and its entries are in the map. -/
theorem returns_read_index (external_shards : Bool)
    (overrides : UnorderedMap Bytes QuantizationSpec) :
    Returns (read_index numbers buckets directory external_shards overrides) fun tensors =>
      Mapped directory tensors.weight_map tensors.weight_map ∧
      ∀ index entries, directory.index = .ok index →
        index.find (bytes "weight_map") = some (.object entries) → (entries.map Prod.fst).Nodup →
        ∀ name shard, (name, .string shard) ∈ entries → tensors.weight_map.lookup name = some shard := by
  refine (ends_lift id directory.index).returns.bind fun index hindex => ?_
  refine Returns.skip fun _ => Returns.skip fun _ => Returns.skip fun _ => Returns.skip fun _ => ?_
  refine (returns_json _).bind fun map hmap => (returns_json _).bind fun entries hentries => ?_
  obtain rfl : map = .object entries := Json.get_object_eq_ok.mp hentries
  refine (returns_read_weight_map external_shards entries).bind ?_
  rintro ⟨weight_map, shards⟩ hindexed
  refine Returns.skip fun _ => (Returns.forM shards fun shard => returns_refuse_if _ _).bind ?_
  intro _ hshards
  refine Returns.ok ⟨⟨fun name shard hshard => ?_, fun _ _ h => h⟩, ?_⟩
  · exact not_not.mp (hshards shard (hindexed.shards name shard hshard))
  · intro other entries' hother hfound hnodup name shard hmem
    cases hindex.symm.trans hother
    cases (Json.at_key_eq_ok.mp hmap).symm.trans hfound
    have hperm := perm_iterate buckets entries
    refine hindexed.entries ?_ name shard (hperm.mem_iff.mpr hmem)
    exact (hperm.map Prod.fst).nodup_iff.mpr hnodup

/-- **The shards and the sidecars.** -/
theorem returns_read_tensors (external_shards : Bool) (manifest : ModelManifest numbers.Double) :
    Returns (read_tensors numbers buckets directory external_shards manifest) fun result =>
      result.config = manifest.config ∧
      (∀ name shard, result.weight_map.lookup name = some shard →
        directory.is_regular_file shard = true) ∧
      ∀ index entries, directory.index = .ok index →
        index.find (bytes "weight_map") = some (.object entries) → (entries.map Prod.fst).Nodup →
        ∀ name shard, (name, .string shard) ∈ entries → result.weight_map.lookup name = some shard := by
  refine (returns_read_index external_shards _).bind ?_
  rintro tensors ⟨hmapped, hindex⟩
  have hqmeta : Returns (qmeta_sidecars.foldlM (add_qmeta numbers buckets directory) tensors)
      fun result => Mapped directory tensors.weight_map result.weight_map :=
    Returns.foldlM (I := fun _ (result : Tensors) => Mapped directory tensors.weight_map
      result.weight_map) hmapped (fun _ _ sidecar h => h.add_qmeta sidecar) qmeta_sidecars
  refine hqmeta.bind fun tensors h => h.add_mtp.bind fun tensors h => ?_
  refine (h.add_mtp_lm_head manifest.config).bind fun tensors h => Returns.ok ⟨rfl, h.present, ?_⟩
  intro index entries hfile hfound hnodup name shard hmem
  exact h.kept name shard (hindex index entries hfile hfound hnodup name shard hmem)

end WeightMap

/-! ### Accepted manifests -/

section Accepted

variable {numbers : NumberText}

/-- **A well-formed manifest**. -/
structure ModelManifest.WellFormed (directory : ModelDirectory numbers.Double)
    (manifest : ModelManifest numbers.Double) : Prop where
  retained : ∀ experts ∈ manifest.config.retained_experts_by_layer, experts = [] ∨
    experts.Pairwise (· < ·) ∧ (∀ expert ∈ experts, expert < manifest.config.expert_count) ∧
      manifest.config.experts_per_token ≤ experts.length ∧
      experts.length ≤ manifest.config.expert_count - 1
  streamed : manifest.config.streamed_expert_layers.Pairwise (· < ·) ∧
    ∀ layer ∈ manifest.config.streamed_expert_layers, layer < manifest.config.layer_count
  shared_only : manifest.config.shared_only_layers.Nodup ∧
    ∀ layer ∈ manifest.config.shared_only_layers, layer < manifest.config.layer_count
  layer_types : manifest.config.layer_types.length = manifest.config.layer_count ∧
    ∀ type ∈ manifest.config.layer_types,
      type = bytes "linear_attention" ∨ type = bytes "full_attention"
  ple_layer_ids : ∀ id ∈ manifest.config.ple_layer_ids, 1 ≤ id ∧ id ≤ manifest.config.layer_count
  shards : ∀ name shard, manifest.weight_map.lookup name = some shard →
    directory.is_regular_file shard = true
  index : ∀ index entries, directory.index = .ok index →
    index.find (bytes "weight_map") = some (.object entries) → (entries.map Prod.fst).Nodup →
    ∀ name shard, (name, .string shard) ∈ entries → manifest.weight_map.lookup name = some shard

/-- What the configuration is like in any case. -/
structure ConfigRead (buckets : UnorderedMap.BucketOrder Bytes) (root : Json numbers.Double)
    (config : ModelConfig numbers.Double) : Prop where
  streamed : config.streamed_expert_layers.Pairwise (· < ·) ∧
    ∀ layer ∈ config.streamed_expert_layers, layer < config.layer_count
  shared_only : config.shared_only_layers.Nodup ∧
    ∀ layer ∈ config.shared_only_layers, layer < config.layer_count
  layer_types : config.layer_types.length = config.layer_count ∧
    ∀ type ∈ config.layer_types, type = bytes "linear_attention" ∨ type = bytes "full_attention"
  ple_layer_ids : ∀ id ∈ config.ple_layer_ids, 1 ≤ id ∧ id ≤ config.layer_count
  retained : (root.find (bytes "qwen38_expert_keep") = none ∧ config.retained_experts_by_layer = []) ∨
    ∃ masks, root.find (bytes "qwen38_expert_keep") = some (.object masks) ∧
      Retained config.toTextGeometry (iterate buckets masks) config.retained_experts_by_layer

theorem returns_read_layer_types (text : Json numbers.Double) (layer_count : Nat) :
    Returns (read_layer_types text layer_count) fun layer_types => layer_types.length = layer_count ∧
      ∀ type ∈ layer_types, type = bytes "linear_attention" ∨ type = bytes "full_attention" := by
  refine Returns.skip fun items => ?_
  refine (Returns.mapM (P := fun type => type = bytes "linear_attention" ∨
    type = bytes "full_attention") items fun item => ?_).bind fun layer_types htypes => ?_
  · refine Returns.skip fun type => (returns_refuse_if _ _).bind fun _ hknown => Returns.ok ?_
    rcases not_and_or.mp hknown with hlinear | hfull
    · exact Or.inl (not_not.mp hlinear)
    · exact Or.inr (not_not.mp hfull)
  · exact (returns_refuse_if _ _).bind fun _ hlength => Returns.ok ⟨not_not.mp hlength, htypes⟩

theorem returns_read_ple_layer_ids (text : Json numbers.Double) (layer_count : Nat) :
    Returns (read_ple_layer_ids text layer_count) fun ids =>
      ∀ id ∈ ids, 1 ≤ id ∧ id ≤ layer_count := by
  refine Returns.skip fun items => Returns.mapM items fun item => Returns.skip fun id => ?_
  refine (returns_refuse_if _ _).bind fun _ hrange => Returns.ok ?_
  omega

theorem returns_read_niwaki (root : Json numbers.Double) (layer_count : Nat) :
    Returns (read_niwaki root layer_count) fun niwaki => niwaki.2.Nodup ∧
      ∀ layer ∈ niwaki.2, layer < layer_count := by
  rw [read_niwaki]
  split
  · exact Returns.ok ⟨List.nodup_nil, fun _ h => absurd h List.not_mem_nil⟩
  · refine Returns.skip fun maps_unfolded => ?_
    split
    · exact Returns.ok ⟨List.nodup_nil, fun _ h => absurd h List.not_mem_nil⟩
    · refine Returns.skip fun items => (returns_distinct_indices items).bind ?_
      rintro layers ⟨-, hlayers⟩
      exact Returns.ok hlayers

theorem returns_read_streaming (root : Json numbers.Double) (layer_count : Nat) :
    Returns (read_streaming root layer_count) fun streaming => streaming.2.Pairwise (· < ·) ∧
      ∀ layer ∈ streaming.2, layer < layer_count := by
  rw [read_streaming]
  split
  · exact Returns.ok ⟨List.Pairwise.nil, fun _ h => absurd h List.not_mem_nil⟩
  · refine Returns.skip fun cache_bytes => Returns.skip fun items => ?_
    refine (returns_distinct_indices items).bind ?_
    rintro layers ⟨-, hnodup, hbounded⟩
    refine Returns.skip fun _ => Returns.ok ⟨pairwise_lt_sorted.mpr hnodup, fun layer hlayer => ?_⟩
    exact hbounded layer ((perm_sorted layers).mem_iff.mp hlayer)

/-- **The configuration.** -/
theorem returns_read_config (tests : FloatTests numbers.Double)
    (buckets : UnorderedMap.BucketOrder Bytes) (root text : Json numbers.Double)
    (architecture : Bytes × Bytes) (geometry : TextGeometry numbers.Double) (niwaki_ple : NiwakiPle) :
    Returns (read_config numbers tests buckets root text architecture geometry niwaki_ple)
      fun manifest => ConfigRead buckets root manifest.config := by
  refine Returns.skip fun seed => Returns.skip fun eos => Returns.skip fun _ => ?_
  refine Returns.skip fun epsilon => Returns.skip fun _ => ?_
  refine (returns_read_layer_types text _).bind fun layer_types htypes => ?_
  refine (returns_read_ple_layer_ids text _).bind fun ids hids => ?_
  refine Returns.skip fun quantization => Returns.skip fun modules => Returns.skip fun ple => ?_
  refine (returns_read_niwaki root _).bind fun niwaki hniwaki => ?_
  refine (returns_read_expert_keep buckets root).bind fun lists hlists => ?_
  refine (returns_read_streaming root _).bind fun streaming hstreaming => ?_
  exact Returns.ok ⟨hstreaming, hniwaki, htypes, hids, hlists⟩

/-- **An accepted manifest is well formed exactly when** no two keys of `qwen38_expert_keep` that
denote one layer share an expert. -/
theorem accepted_well_formed_iff (numbers : NumberText) (tests : FloatTests numbers.Double)
    (buckets : UnorderedMap.BucketOrder Bytes) (directory : ModelDirectory numbers.Double) :
    Returns (ModelManifest.load numbers tests buckets directory) fun manifest =>
      manifest.WellFormed directory ↔ ∀ root masks, directory.config = .ok root →
        root.find (bytes "qwen38_expert_keep") = some (.object masks) → Apart masks := by
  refine Returns.skip fun _ => (ends_lift id directory.config).returns.bind fun root hroot => ?_
  refine Returns.skip fun external_shards => Returns.skip fun architecture => ?_
  refine Returns.skip fun text => Returns.skip fun geometry => Returns.skip fun niwaki_ple => ?_
  refine (returns_read_config tests buckets root text architecture geometry niwaki_ple).bind ?_
  intro manifest hread
  refine (returns_read_tensors external_shards manifest).mono ?_
  rintro result ⟨hconfig, hshards, hindex⟩
  rw [← hconfig] at hread
  have hroot : directory.config = .ok root := hroot
  constructor
  · intro h other masks hother hmasks
    cases hroot.symm.trans hother
    rcases hread.retained with ⟨hnone, -⟩ | ⟨masks', hmasks', hretained⟩
    · rw [hnone] at hmasks
      cases hmasks
    · cases hmasks'.symm.trans hmasks
      refine (apart_iterate buckets).mp (hretained.nodup_iff.mp fun l hl => ?_)
      rcases h.retained l hl with rfl | ⟨hascending, -⟩
      · exact List.nodup_nil
      · exact hascending.imp fun hlt => hlt.ne
  · intro hapart
    refine ⟨fun experts hexperts => ?_, hread.streamed, hread.shared_only, hread.layer_types,
      hread.ple_layer_ids, hshards, hindex⟩
    rcases hread.retained with ⟨-, hnone⟩ | ⟨masks, hmasks, hretained⟩
    · rw [hnone] at hexperts
      exact absurd hexperts List.not_mem_nil
    · have hnodup := hretained.nodup_iff.mpr ((apart_iterate buckets).mpr (hapart root masks hroot hmasks))
        experts hexperts
      have hbounded := hretained.bounded experts hexperts
      -- distinct experts below the count are at most so many
      have hcount : experts.length ≤ result.config.expert_count := by
        have hsubset : experts ⊆ List.range result.config.expert_count :=
          fun expert h => List.mem_range.mpr (hbounded expert h)
        have hle := (List.subperm_of_subset hnodup hsubset).length_le
        rwa [List.length_range] at hle
      rcases hretained.size experts hexperts with hnil | ⟨hleast, hne⟩
      · exact Or.inl hnil
      · refine Or.inr ⟨?_, hbounded, hleast, ?_⟩
        · exact (hretained.ascending experts hexperts).imp₂
            (fun _ _ hle hne => Nat.lt_of_le_of_ne hle hne) hnodup
        · exact Nat.le_sub_one_of_lt (Nat.lt_of_le_of_ne hcount hne)

end Accepted

/-! ### Two keys of one layer -/

namespace ModelDirectory

/-- The tests on numbers without fractions. -/
def integer_tests : FloatTests NumberText.integers.Double where
  of_integer := fun value => value
  positive := fun (value : Int) => decide (0 < value)
  at_most_one := fun (value : Int) => decide (value ≤ 1)

/-- An object. -/
def fields (entries : List (String × Json NumberText.integers.Double)) : Json NumberText.integers.Double :=
  .object (entries.map fun entry => (bytes entry.1, entry.2))

/-- A text model with one layer of eight experts. Its n-gram rows are padded to a multiple of
zero. -/
def small_text : Json NumberText.integers.Double :=
  let ones := ["hidden_size", "num_hidden_layers", "num_experts_per_tok", "vocab_size",
    "max_position_embeddings", "mtp_num_hidden_layers", "num_attention_heads", "num_key_value_heads",
    "head_dim", "indexer_n_heads", "indexer_kv_heads", "indexer_head_dim", "indexer_budget",
    "indexer_compress_ratio", "hc_count", "hc_lowrank", "moe_intermediate_size",
    "shared_expert_intermediate_size", "linear_conv_kernel_dim", "linear_key_head_dim",
    "linear_value_head_dim", "linear_num_key_heads", "linear_num_value_heads", "partial_rotary_factor",
    "ngram_vocab_size_base", "ple_embed_dim", "ple_conv_kernel_size", "eos_token_id", "rms_norm_eps"]
  fields <| ones.map (fun key => (key, .integer 1)) ++
    [("model_type", .string (bytes "qwen4_exp_text")), ("num_experts", .integer 8),
      ("output_gate_type", .string (bytes "silu")),
      ("rope_parameters", fields [("rope_theta", .integer 1)]), ("ngram_size", .integer 3),
      ("heads_per_ngram", .integer 8), ("make_ngram_vocab_size_divisible_by", .integer 0),
      ("layer_types", .array [.string (bytes "full_attention")]), ("ple_layer_ids", .array [])]

/-- The keys `0` and `00`, for the same layer. -/
def small_masks : List (Bytes × Json NumberText.integers.Double) :=
  [(bytes "0", .array [.integer 1, .integer 2]), (bytes "00", .array [.integer 2, .integer 3])]

def small_root : Json NumberText.integers.Double :=
  .object [(bytes "architectures", .array [.string (bytes "Qwen4ExpForConditionalGeneration")]),
    (bytes "model_type", .string (bytes "qwen4_exp")), (bytes "text_config", small_text),
    (bytes "quantization", fields [("bits", .integer 4), ("group_size", .integer 64)]),
    (bytes "qwen38_expert_keep", .object small_masks)]

/-- A directory with one shard. -/
@[irreducible] def small : ModelDirectory NumberText.integers.Double where
  path := []
  is_directory := true
  config := .ok small_root
  index := .ok <| fields [("metadata", fields [("total_size", .integer 0)]),
    ("weight_map", fields [("w", .string (bytes "model.safetensors"))])]
  files name := if name = bytes "model.safetensors" then some ⟨[], Nat.two_pow_pos 63⟩ else none

/-- It is accepted. -/
theorem small_accepted : ∃ manifest, ModelManifest.load NumberText.integers integer_tests
      (.newestFirst Bytes) small = .ok manifest ∧
    manifest.config.retained_experts_by_layer = [[1, 2, 2, 3]] ∧
    manifest.config.ngram_vocabulary_divisor = 0 := by
  have hrun : ((ModelManifest.load NumberText.integers integer_tests (.newestFirst Bytes)
      small).toOption.map fun manifest => (manifest.config.retained_experts_by_layer,
        manifest.config.ngram_vocabulary_divisor)) = some ([[1, 2, 2, 3]], 0) := by decide +kernel
  obtain ⟨manifest, hmanifest, hconfig⟩ := Option.map_eq_some_iff.mp hrun
  obtain ⟨hretained, hdivisor⟩ := Prod.mk.inj hconfig
  exact ⟨manifest, Except.toOption_eq_some.mp hmanifest, hretained, hdivisor⟩

/-- **An accepted manifest that is not well formed**: its layer retains an expert twice. -/
theorem small_not_well_formed : ∃ manifest, ModelManifest.load NumberText.integers integer_tests
    (.newestFirst Bytes) small = .ok manifest ∧ ¬manifest.WellFormed small := by
  obtain ⟨manifest, haccepted, hretained, -⟩ := small_accepted
  refine ⟨manifest, haccepted, fun h => ?_⟩
  have hlist := h.retained [1, 2, 2, 3] (by rw [hretained]; exact List.mem_singleton_self _)
  rcases hlist with hnil | ⟨hascending, -⟩
  · cases hnil
  · exact absurd hascending (by decide)

end ModelDirectory

end Qwen38
