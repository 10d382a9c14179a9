import Qwen38.Cache.PrefixPairs
import Qwen38.Engine.Engine

/-!
# The store behind the engine

What the engine assumes of its store is that it only loads what has been saved
(`Qwen38.PrefixCacheStore.Keeps`). The store on disk does so as long as no save is broken off
between its two renames (`Qwen38.PrefixCacheStore.keeps_on_disk`), whatever else fails, in whatever
order the names are listed, and whatever is evicted. The directory is what the operations on it have
left (`Qwen38.PrefixStore.run`), and for each of them the environment chooses what fails.

A save that is broken off there leaves a new state beside old tokens
(`Qwen38.PrefixStore.torn_keys`), and if these are the tokens of another entry of the same key, a
load returns what nobody has saved. Of an engine that comes upon such a pair nothing is said.
-/

namespace Qwen38

namespace PrefixCacheStore

open PrefixStore (Store Operation SaveFaults EvictionFaults LoadFaults SavedBy run)

variable {T : Target}

/-- `snapshot_prefix_cache`: what is written of an entry beside its tokens. -/
def snapshot_prefix_cache (entry : PrefixCacheEntry T) : PrefixCacheEntry T :=
  { entry with tokens := [], ssd_backed := false }

/-- What happens around the operations: what fails in each of them, and with which message; the
order of the names; the time. Where a save comes to its second rename, this succeeds. -/
structure Surroundings where
  load : Nat → LoadFaults
  save : Nat → SaveFaults
  eviction : Nat → EvictionFaults
  listing : Nat → List Bytes
  now : Nat → Nat
  message : Nat → String
  tokens_renamed : ∀ n, (save n).tokens_rename_fails = false

/-- The operation is no save that is broken off between its renames. -/
def Whole : Operation (PrefixCacheEntry T) → Prop
  | .save _ _ faults _ _ _ => faults.tokens_rename_fails = false
  | _ => True

variable {operations : List (Operation (PrefixCacheEntry T))}

theorem whole_nil : ∀ operation ∈ ([] : List (Operation (PrefixCacheEntry T))), Whole operation :=
  List.forall_mem_nil _

theorem whole_concat (h : ∀ operation ∈ operations, Whole operation)
    {operation : Operation (PrefixCacheEntry T)} (hlast : Whole operation) :
    ∀ other ∈ operations ++ [operation], Whole other := by
  intro other hmem
  rcases List.mem_append.mp hmem with hbefore | hmem
  · exact h other hbefore
  · obtain rfl := List.mem_singleton.mp hmem
    exact hlast

theorem whole_load (h : ∀ operation ∈ operations, Whole operation) (prompt : List UInt32)
    (faults : LoadFaults) (listing : List Bytes) (now : Nat) :
    ∀ other ∈ operations ++ [.load_longest prompt faults listing now], Whole other := by
  refine whole_concat h ?_
  exact trivial

theorem whole_save (h : ∀ operation ∈ operations, Whole operation) (around : Surroundings)
    (n : Nat) (tokens : List UInt32) (state : PrefixCacheEntry T) (eviction : EvictionFaults)
    (listing : List Bytes) (now : Nat) :
    ∀ other ∈ operations ++ [.save tokens state (around.save n) eviction listing now],
      Whole other := by
  refine whole_concat h ?_
  exact around.tokens_renamed n

/-- `PrefixCacheStore`, over the files of its directory. A token of the source has 32 bits; nothing
is saved of other ones. -/
def on_disk (store : Store (PrefixCacheEntry T)) (around : Surroundings) : PrefixCacheStore T where
  Disk := { operations : List (Operation (PrefixCacheEntry T)) //
    ∀ operation ∈ operations, Whole operation }
  created := ⟨[], whole_nil⟩
  load_longest tokens disk :=
    let n := disk.1.length
    let prompt := tokens.map UInt32.ofNat
    let r := PrefixStore.load_longest store (around.load n) (around.listing n) (around.now n) prompt
      (run store disk.1)
    (if (around.load n).throws then .error (around.message n)
      else .ok (r.2.map fun found => { found.2 with tokens := found.1.map UInt32.toNat }),
      ⟨disk.1 ++ [.load_longest prompt (around.load n) (around.listing n) (around.now n)],
        whole_load disk.2 _ _ _ _⟩)
  save entry disk :=
    if ∀ token ∈ entry.tokens, token < 2 ^ 32 then
      let n := disk.1.length
      let tokens := entry.tokens.map UInt32.ofNat
      let state := snapshot_prefix_cache entry
      let r := PrefixStore.save store (around.save n) (around.eviction n) (around.listing n)
        (around.now n) tokens state (run store disk.1)
      (match r.2 with
        | .stored => .ok true
        | .refused => .ok false
        | .thrown => .error (around.message n),
        ⟨disk.1 ++ [.save tokens state (around.save n) (around.eviction n) (around.listing n)
          (around.now n)], whole_save disk.2 around n _ _ _ _ _⟩)
    else (.ok false, disk)

variable {store : Store (PrefixCacheEntry T)} {around : Surroundings}

/-- Nothing is torn. -/
theorem torn_keys_of_whole (h : ∀ operation ∈ operations, Whole operation) (key : Bytes) :
    PrefixStore.torn_keys store operations key = false := by
  induction operations using List.reverseRecOn with
  | nil => rfl
  | append_singleton before operation ih =>
    have hbefore := ih fun other hmem => h other (List.mem_append_left _ hmem)
    have htears : PrefixStore.tears (run store before) operation = false := by
      have hlast := h operation (List.mem_append_right _ List.mem_cons_self)
      cases operation with
      | save tokens state faults eviction listing now =>
        rw [PrefixStore.tears, show faults.tokens_rename_fails = false from hlast, Bool.false_and]
      | load_longest => rfl
      | clear => rfl
    rw [PrefixStore.torn_keys_concat, PrefixStore.torn_step, htears, hbefore, ite_self, Bool.false_and,
      Bool.false_and]

/-- **What a load returns** has been saved, with these tokens, as long as a state that is written is
read back. -/
theorem saved_of_load_longest (hwhole : ∀ operation ∈ operations, Whole operation)
    (hreads : ∀ state, store.load_prefix_state (store.save_prefix_state state)
      store.model_layer_count = some state)
    {faults : LoadFaults} {listing : List Bytes} {now : Nat} {prompt tokens : List UInt32}
    {state : PrefixCacheEntry T}
    (hload : (PrefixStore.load_longest store faults listing now prompt (run store operations)).2 =
      some (tokens, state)) : SavedBy operations tokens state := by
  have hsound := PrefixStore.sound_run store operations
  obtain ⟨hbest, -⟩ :=
    PrefixStore.longest_spec (run store operations).files prompt faults.unreadable listing
  rcases PrefixStore.load_longest_cases store faults listing now prompt (run store operations) with
    h | ⟨best, file, found, hbest_eq, hne, hfile, hstate, -, h⟩
  · rw [h] at hload
    cases hload
  rw [h] at hload
  obtain ⟨rfl, rfl⟩ := Prod.mk.inj (Option.some.inj hload)
  rw [hbest_eq] at hbest
  obtain ⟨state_file, original, hstate_file, hsaved, hcontent⟩ :=
    (hbest.resolve_left hne).stored.exists_saved hsound (torn_keys_of_whole hwhole _)
  obtain rfl := Option.some.inj (hfile.symm.trans hstate_file)
  rw [hcontent, hreads] at hstate
  obtain rfl := Option.some.inj hstate
  exact hsaved

/-- **The store on disk keeps.** Every entry that it loads has been saved whole, whatever has failed
since and whatever has been evicted. -/
def keeps_on_disk (hreads : ∀ state, store.load_prefix_state (store.save_prefix_state state)
    store.model_layer_count = some state) : (on_disk store around).Keeps where
  Holds disk entry := ∃ tokens state, SavedBy disk.1 tokens state ∧
    entry = { state with tokens := tokens.map UInt32.toNat }
  created := by
    rintro entry ⟨tokens, state, ⟨faults, eviction, listing, now, hmem⟩, -⟩
    exact absurd hmem List.not_mem_nil
  load_longest := by
    rintro tokens disk result disk' h
    obtain ⟨rfl, rfl⟩ := Prod.mk.inj h
    constructor
    · rintro entry ⟨tokens', state, ⟨faults, eviction, listing, now, hmem⟩, rfl⟩
      rcases List.mem_append.mp hmem with hbefore | hlast
      · exact ⟨tokens', state, ⟨faults, eviction, listing, now, hbefore⟩, rfl⟩
      · cases List.mem_singleton.mp hlast
    · intro entry hresult
      split at hresult
      · cases hresult
      · obtain ⟨⟨tokens', state⟩, hload, rfl⟩ := Option.map_eq_some_iff.mp (Except.ok.inj hresult)
        exact ⟨tokens', state, saved_of_load_longest disk.2 hreads hload, rfl⟩
  save := by
    rintro saved disk result disk' h entry hholds
    dsimp only [on_disk] at h
    split at h
    · next hsmall =>
      obtain ⟨-, rfl⟩ := Prod.mk.inj h
      obtain ⟨tokens, state, ⟨faults, eviction, listing, now, hmem⟩, rfl⟩ := hholds
      rcases List.mem_append.mp hmem with hbefore | hlast
      · exact Or.inl ⟨tokens, state, ⟨faults, eviction, listing, now, hbefore⟩, rfl⟩
      · cases List.mem_singleton.mp hlast
        refine Or.inr ⟨false, ?_⟩
        have hsame : (saved.tokens.map UInt32.ofNat).map UInt32.toNat = saved.tokens := by
          rw [List.map_map]
          calc
            saved.tokens.map (UInt32.toNat ∘ UInt32.ofNat) = saved.tokens.map id :=
              List.map_congr_left fun token htoken => UInt32.toNat_ofNat_of_lt' (hsmall token htoken)
            _ = saved.tokens := List.map_id _
        rw [hsame]
        rfl
    · obtain ⟨-, rfl⟩ := Prod.mk.inj h
      exact Or.inl hholds

end PrefixCacheStore

end Qwen38
