import Qwen38.Lib.Occurrence
import Qwen38.Lib.UnorderedMap
import Mathlib.Data.UInt

/-!
# Drafts that copy

`HistoryDraftCache` proposes what followed the last tokens of a request the last time they
occurred in it: for every order it maps the hash of the tokens before the newest one to where
they start. `ContextCopyCache` looks the last tokens up in the prompt alone, and of the places
it finds takes the one that agrees furthest backwards.

The tokens found are compared before anything is proposed, so that what is proposed is real
whatever the hash does. Which occurrence the history cache finds depends on it: every entry is
the last one written, so it is the latest occurrence as long as no two of the words of the
history collide (`HistoryDraftCache.indexed_append_all`).
-/

namespace Qwen38

open UnorderedMap (BucketOrder)
open Occurrence (starts)

/-- The `order` tokens from `start` on. -/
def gram (history : List UInt32) (start order : Nat) : List UInt32 :=
  (history.drop start).take order

/-- The last `order` tokens. -/
def suffix_of (history : List UInt32) (order : Nat) : List UInt32 :=
  gram history (history.length - order) order

def fnv_offset : UInt64 := 1469598103934665603

def fnv_prime : UInt64 := 1099511628211

/-- `key`. -/
def fnv_key (tokens : List UInt32) : UInt64 :=
  tokens.foldl (fun hash token => (hash ^^^ token.toUInt64) * fnv_prime)
    (fnv_offset ^^^ UInt64.ofNat tokens.length)

theorem suffix_of_eq_drop (history : List UInt32) (order : Nat) :
    suffix_of history order = history.drop (history.length - order) := by
  rw [suffix_of, gram, List.take_of_length_le]
  rw [List.length_drop]
  omega

theorem suffix_of_suffix (history : List UInt32) (order : Nat) : suffix_of history order <:+ history := by
  rw [suffix_of_eq_drop]
  exact List.drop_suffix _ _

@[simp] theorem length_suffix_of {history : List UInt32} {order : Nat} (h : order ≤ history.length) :
    (suffix_of history order).length = order := by
  rw [suffix_of_eq_drop, List.length_drop]
  omega

theorem suffix_of_eq_iff {history gram : List UInt32} {order : Nat} (h : order ≤ history.length) :
    suffix_of history order = gram ↔ gram.length = order ∧ gram <:+ history := by
  constructor
  · rintro rfl
    exact ⟨length_suffix_of h, suffix_of_suffix _ _⟩
  · rintro ⟨rfl, hs⟩
    exact List.IsSuffix.eq_of_length
      (List.suffix_of_suffix_length_le (suffix_of_suffix _ _) hs (length_suffix_of h).le) (length_suffix_of h)

/-- `HistoryDraftCache`. -/
structure HistoryDraftCache where
  minimum_order : Nat
  maximum_order : Nat
  orders : 0 < minimum_order ∧ minimum_order ≤ maximum_order
  history : List UInt32 := []
  latest : UnorderedMap UInt64 Nat := ∅

/-- The orders of a range that the constructors accept. -/
theorem orders_of_range {minimum_order maximum_order : Nat}
    (h : ¬(minimum_order = 0 ∨ maximum_order < minimum_order)) :
    0 < minimum_order ∧ minimum_order ≤ maximum_order := by
  omega

namespace HistoryDraftCache

/-- `HistoryDraftCache`, the constructor. -/
def make (minimum_order maximum_order : Nat) : Except String HistoryDraftCache :=
  if h : minimum_order = 0 ∨ maximum_order < minimum_order then
    .error "invalid history draft order range"
  else .ok { minimum_order, maximum_order, orders := orders_of_range h }

variable (b : BucketOrder UInt64) (key : List UInt32 → UInt64)

/-- The orders, from the lowest up. -/
def all_orders (cache : HistoryDraftCache) : List Nat :=
  List.range' cache.minimum_order (cache.maximum_order + 1 - cache.minimum_order)

/-- The suffix before the newest token. -/
def publish (order : Nat) (cache : HistoryDraftCache) : HistoryDraftCache :=
  let start := cache.history.length - order - 1
  { cache with latest := cache.latest.put b (key (gram cache.history start order)) start }

/-- The suffixes before the newest token, as long as there are any. -/
def publish_orders : List Nat → HistoryDraftCache → HistoryDraftCache
  | [], cache => cache
  | order :: orders, cache =>
    if cache.history.length < order + 1 then cache
    else publish_orders orders (publish b key order cache)

/-- `append`, of a token. -/
def append (cache : HistoryDraftCache) (token : UInt32) : HistoryDraftCache :=
  publish_orders b key cache.all_orders { cache with history := cache.history ++ [token] }

/-- `append`, of a span. -/
def append_all (cache : HistoryDraftCache) (tokens : List UInt32) : HistoryDraftCache :=
  tokens.foldl (append b key) cache

/-- `suffix_matches`. -/
def suffix_matches (start order : Nat) (cache : HistoryDraftCache) : Bool :=
  if cache.history.length ≤ start + order ∨ cache.history.length < order then false
  else gram cache.history start order == suffix_of cache.history order

/-- `propose`, for one order. -/
def propose_order (maximum_tokens order : Nat) (cache : HistoryDraftCache) : Option (List UInt32) :=
  if order ≤ cache.history.length then
    match cache.latest.lookup (key (suffix_of cache.history order)) with
    | some start =>
      if cache.suffix_matches start order then
        let continuation := start + order
        let count := min maximum_tokens (cache.history.length - continuation)
        some ((cache.history.drop continuation).take count)
      else none
    | none => none
  else none

/-- `propose`. -/
def propose (maximum_tokens : Nat) (cache : HistoryDraftCache) : List UInt32 :=
  if maximum_tokens = 0 then []
  else
    (cache.all_orders.reverse.findSome? fun order => cache.propose_order key maximum_tokens order).getD []

variable {b key} {cache : HistoryDraftCache} {order start maximum_tokens : Nat}

@[simp] theorem publish_history : (publish b key order cache).history = cache.history := rfl

@[simp] theorem publish_orders_history (orders : List Nat) :
    (publish_orders b key orders cache).history = cache.history := by
  induction orders generalizing cache with
  | nil => rfl
  | cons order orders ih =>
    rw [publish_orders]
    split_ifs
    · rfl
    · rw [ih, publish_history]

@[simp] theorem publish_orders_all_orders (orders : List Nat) :
    (publish_orders b key orders cache).all_orders = cache.all_orders := by
  induction orders generalizing cache with
  | nil => rfl
  | cons order orders ih =>
    rw [publish_orders]
    split_ifs
    · rfl
    · exact ih

@[simp] theorem append_history (token : UInt32) :
    (append b key cache token).history = cache.history ++ [token] := by
  rw [append, publish_orders_history]

@[simp] theorem append_all_orders (token : UInt32) :
    (append b key cache token).all_orders = cache.all_orders := by
  rw [append, publish_orders_all_orders]
  rfl

@[simp] theorem append_all_history (tokens : List UInt32) :
    (append_all b key cache tokens).history = cache.history ++ tokens := by
  induction tokens generalizing cache with
  | nil => exact (List.append_nil _).symm
  | cons token tokens ih =>
    rw [append_all, List.foldl_cons, ← append_all, ih, append_history, List.append_assoc]
    rfl

@[simp] theorem append_all_all_orders (tokens : List UInt32) :
    (append_all b key cache tokens).all_orders = cache.all_orders := by
  induction tokens generalizing cache with
  | nil => rfl
  | cons token tokens ih => rw [append_all, List.foldl_cons, ← append_all, ih, append_all_orders]

/-! ### What is proposed is real -/

/-- The comparison finds an occurrence with a continuation. -/
theorem suffix_matches_iff :
    cache.suffix_matches start order = true ↔
      order ≤ cache.history.length ∧ start ∈ starts (suffix_of cache.history order) cache.history := by
  rw [suffix_matches]
  split_ifs with h
  · refine iff_of_false (by simp) ?_
    rintro ⟨hle, hlt, -⟩
    rw [length_suffix_of hle] at hlt
    omega
  · have hle : order ≤ cache.history.length := by omega
    rw [beq_iff_eq, and_iff_right hle, starts, Set.mem_ofPred_eq, length_suffix_of hle,
      and_iff_right (by omega), List.prefix_iff_eq_take, length_suffix_of hle]
    exact eq_comm

/-- The tokens behind an occurrence, up to the maximum. -/
def continuation (cache : HistoryDraftCache) (start order maximum_tokens : Nat) : List UInt32 :=
  (cache.history.drop (start + order)).take maximum_tokens

/-- What an order proposes: the entry of the suffix, if it is an occurrence. -/
theorem propose_order_eq_some {proposal : List UInt32} :
    cache.propose_order key maximum_tokens order = some proposal ↔
      order ≤ cache.history.length ∧
        ∃ start ∈ starts (suffix_of cache.history order) cache.history,
          cache.latest.lookup (key (suffix_of cache.history order)) = some start ∧
            proposal = cache.continuation start order maximum_tokens := by
  have htake (n : Nat) :
      (cache.history.drop n).take (min maximum_tokens (cache.history.length - n)) =
        (cache.history.drop n).take maximum_tokens := by
    rw [← List.take_take, ← List.length_drop, List.take_length]
  rw [propose_order]
  split_ifs with hle
  · rw [and_iff_right hle]
    cases hfound : cache.latest.lookup (key (suffix_of cache.history order)) with
    | none => simp
    | some start =>
      have hmatches : cache.suffix_matches start order = true ↔ _ := suffix_matches_iff
      rw [and_iff_right hle] at hmatches
      simp only [Option.some.injEq, continuation, htake]
      constructor
      · intro h
        split_ifs at h with hs
        exact ⟨start, hmatches.mp hs, rfl, (Option.some.inj h).symm⟩
      · rintro ⟨_, hs, rfl, rfl⟩
        rw [if_pos (hmatches.mpr hs)]
  · exact iff_of_false (by simp) fun h => hle h.1

theorem mem_all_orders :
    order ∈ cache.all_orders ↔ cache.minimum_order ≤ order ∧ order ≤ cache.maximum_order := by
  have := cache.orders
  rw [all_orders, List.mem_range'_1]
  omega

/-- The orders are tried from the highest down. -/
theorem propose_eq (h : maximum_tokens ≠ 0) :
    (∃ order ∈ cache.all_orders, ∃ proposal,
      cache.propose_order key maximum_tokens order = some proposal ∧
      cache.propose key maximum_tokens = proposal ∧
      ∀ higher ∈ cache.all_orders, order < higher →
        cache.propose_order key maximum_tokens higher = none) ∨
    cache.propose key maximum_tokens = [] ∧
      ∀ order ∈ cache.all_orders, cache.propose_order key maximum_tokens order = none := by
  rw [propose, if_neg h]
  cases hfind : cache.all_orders.reverse.findSome? (cache.propose_order key maximum_tokens ·) with
  | none =>
    refine Or.inr ⟨rfl, fun order horder => ?_⟩
    exact List.findSome?_eq_none_iff.mp hfind order (List.mem_reverse.mpr horder)
  | some proposal =>
    obtain ⟨above, order, below, horders, hproposal, hnone⟩ := List.findSome?_eq_some_iff.mp hfind
    have hmem : order ∈ cache.all_orders := by
      rw [← List.mem_reverse, horders]
      exact List.mem_append_right _ List.mem_cons_self
    refine Or.inl ⟨order, hmem, proposal, hproposal, rfl, fun higher hhigher hlt => hnone higher ?_⟩
    -- the orders run downwards, so that a higher one is in front
    have hsorted : cache.all_orders.reverse.Pairwise (· > ·) := by
      rw [List.pairwise_reverse]
      exact List.pairwise_lt_range'
    rw [horders, List.pairwise_append, List.pairwise_cons] at hsorted
    rw [← List.mem_reverse, horders, List.mem_append, List.mem_cons] at hhigher
    rcases hhigher with h | rfl | h
    · exact h
    · exact absurd hlt (lt_irrefl _)
    · exact absurd (hsorted.2.1.1 higher h) hlt.not_gt

/-! ### Which occurrence is found -/

/-- The words that are looked up in a text. -/
def Word (cache : HistoryDraftCache) (text gram : List UInt32) : Prop :=
  gram <:+: text ∧ gram.length ∈ cache.all_orders

/-- No two words of a text collide. -/
def NoCollision (key : List UInt32 → UInt64) (cache : HistoryDraftCache) (text : List UInt32) : Prop :=
  ∀ gram gram', cache.Word text gram → cache.Word text gram' → key gram = key gram' → gram = gram'

/-- The entry of every word of a text is its latest occurrence in the history. -/
def Indexed (key : List UInt32 → UInt64) (text : List UInt32) (cache : HistoryDraftCache) : Prop :=
  ∀ gram, cache.Word text gram → ∀ start,
    cache.latest.lookup (key gram) = some start ↔ IsGreatest (starts gram cache.history) start

variable {text word history : List UInt32} {token : UInt32}

/-- What is published: the suffix before the newest token. -/
theorem gram_publish (hle : order ≤ history.length) :
    gram (history ++ [token]) ((history ++ [token]).length - order - 1) order =
      suffix_of history order := by
  rw [List.length_append, List.length_singleton, show history.length + 1 - order - 1 =
    history.length - order by omega, suffix_of, gram, gram,
    List.drop_append_of_le_length (by omega), List.take_append_of_le_length]
  rw [List.length_drop]
  omega

/-- One entry written: the word's own, or another's. -/
theorem lookup_publish (hcoll : NoCollision key cache text) (hhistory : cache.history = history ++ [token])
    (htext : history <:+: text) (horder : order ∈ cache.all_orders) (hle : order ≤ history.length)
    (hword : cache.Word text word) :
    (publish b key order cache).latest.lookup (key word) =
      if word <:+ history ∧ word.length = order then some (history.length - word.length)
      else cache.latest.lookup (key word) := by
  have hpublished : cache.Word text (suffix_of history order) :=
    ⟨(suffix_of_suffix _ _).isInfix.trans htext, by rwa [length_suffix_of hle]⟩
  rw [publish, hhistory, gram_publish hle]
  split_ifs with h
  · obtain ⟨hs, hlen⟩ := h
    rw [(suffix_of_eq_iff hle).mpr ⟨hlen, hs⟩, UnorderedMap.lookup_put, List.length_append,
      List.length_singleton, hlen]
    congr 1
    omega
  · refine UnorderedMap.lookup_put_of_ne fun heq => h ?_
    have := (suffix_of_eq_iff hle).mp (hcoll _ _ hword hpublished heq).symm
    exact ⟨this.2, this.1⟩

/-- The entries written by a token: those of the suffixes before it. -/
theorem lookup_publish_orders (hcoll : NoCollision key cache text)
    (hhistory : cache.history = history ++ [token]) (htext : history <:+: text) {lo n : Nat}
    (horders : ∀ order ∈ List.range' lo n, order ∈ cache.all_orders) (hword : cache.Word text word) :
    (publish_orders b key (List.range' lo n) cache).latest.lookup (key word) =
      if word <:+ history ∧ word.length ∈ List.range' lo n then some (history.length - word.length)
      else cache.latest.lookup (key word) := by
  induction n generalizing lo cache with
  | zero => rw [List.range'_zero, publish_orders, if_neg (fun h => List.not_mem_nil h.2)]
  | succ n ih =>
    rw [List.range'_succ] at horders ⊢
    rw [List.forall_mem_cons] at horders
    have hrest := @ih (publish b key lo cache) hcoll hhistory (lo + 1) horders.2 hword
    rw [publish_orders, hhistory, List.length_append, List.length_singleton]
    split_ifs with hshort hnew hnew
    · -- no suffix is as long as this order
      have := hnew.1.length_le
      have := hnew.2
      rw [List.mem_cons, List.mem_range'_1] at this
      omega
    · rfl
    · rw [hrest, lookup_publish hcoll hhistory htext horders.1 (by omega) hword]
      rcases List.mem_cons.mp hnew.2 with hlen | hmem
      · rw [if_neg (by rw [List.mem_range'_1]; omega), if_pos ⟨hnew.1, hlen⟩]
      · rw [if_pos ⟨hnew.1, hmem⟩]
    · rw [hrest, lookup_publish hcoll hhistory htext horders.1 (by omega) hword, if_neg, if_neg]
      · exact fun h => hnew ⟨h.1, List.mem_cons.mpr (Or.inl h.2)⟩
      · exact fun h => hnew ⟨h.1, List.mem_cons_of_mem _ h.2⟩

/-- **A token**: the entries stay the latest occurrences. Each order has a new word that ends with
this token, and its entry now says that the word was here; no other word has this entry. -/
theorem indexed_append (hcoll : NoCollision key cache text) (h : Indexed key text cache)
    (htext : cache.history ++ [token] <:+: text) : Indexed key text (append b key cache token) := by
  intro word hword start
  have hword' : cache.Word text word := ⟨hword.1, by simpa using hword.2⟩
  have hbefore : cache.history <:+: text := (List.prefix_append _ _).isInfix.trans htext
  have hcoll' : NoCollision key { cache with history := cache.history ++ [token] } text := hcoll
  rw [append_history, append, all_orders,
    lookup_publish_orders hcoll' rfl hbefore (fun _ => id) hword']
  split_ifs with hnew
  · have hgreatest := Occurrence.isGreatest_starts_append (x := token) hnew.1
    rw [Option.some.injEq]
    exact ⟨fun heq => heq ▸ hgreatest, fun hstart => hgreatest.unique hstart⟩
  · have hnot : ¬word <:+ cache.history := fun hs => hnew ⟨hs, hword'.2⟩
    rw [Occurrence.starts_append_of_not_suffix hnot]
    exact h word hword' start

/-- **Every run of tokens**: the entries are the latest occurrences, as long as no two words of the
history have one hash. -/
theorem indexed_append_all {tokens : List UInt32} (hcoll : NoCollision key cache text)
    (h : Indexed key text cache) (htext : cache.history ++ tokens <:+: text) :
    Indexed key text (append_all b key cache tokens) := by
  induction tokens generalizing cache with
  | nil => exact h
  | cons token tokens ih =>
    rw [append_all, List.foldl_cons, ← append_all]
    refine ih ?_ (indexed_append hcoll h ?_) ?_
    · intro g g' hg hg'
      exact hcoll g g' ⟨hg.1, by simpa using hg.2⟩ ⟨hg'.1, by simpa using hg'.2⟩
    · refine List.IsInfix.trans (List.IsPrefix.isInfix ?_) htext
      exact ⟨tokens, by rw [List.append_assoc]; rfl⟩
    · rwa [append_history, List.append_assoc]

/-! ### The proposals of a request -/

theorem make_eq_ok {minimum_order maximum_order : Nat}
    (h : make minimum_order maximum_order = .ok cache) :
    cache.minimum_order = minimum_order ∧ cache.maximum_order = maximum_order ∧
      cache.history = [] ∧ cache.latest = ∅ := by
  rw [make] at h
  split_ifs at h
  simp only [Except.ok.injEq] at h
  rw [← h]
  exact ⟨rfl, rfl, rfl, rfl⟩

/-- A new cache has no entries, as there are no occurrences. -/
theorem indexed_nil (hhistory : cache.history = []) (hlatest : cache.latest = ∅) :
    Indexed key text cache := by
  intro word _ start
  rw [hhistory, hlatest, Occurrence.starts_nil]
  refine iff_of_false (by simp) ?_
  rintro ⟨h, -⟩
  exact h

/-- The orders whose suffix occurs earlier, with a continuation. -/
def repeated_orders (cache : HistoryDraftCache) : Set Nat :=
  {order | order ∈ cache.all_orders ∧ order ≤ cache.history.length ∧
    (starts (suffix_of cache.history order) cache.history).Nonempty}

/-- A proposal is not empty, as the occurrence has a continuation. -/
theorem continuation_ne_nil (hmax : maximum_tokens ≠ 0) (hle : order ≤ cache.history.length)
    (h : start ∈ starts (suffix_of cache.history order) cache.history) :
    cache.continuation start order maximum_tokens ≠ [] := by
  have hlt := h.1
  rw [length_suffix_of hle] at hlt
  rw [continuation, ← List.length_pos_iff, List.length_take, List.length_drop]
  omega

/-- The entry of the suffix is the latest occurrence. -/
theorem propose_order_of_indexed (h : Indexed key cache.history cache)
    (horder : order ∈ cache.all_orders) {proposal : List UInt32} :
    cache.propose_order key maximum_tokens order = some proposal ↔
      order ≤ cache.history.length ∧
        ∃ start, IsGreatest (starts (suffix_of cache.history order) cache.history) start ∧
          proposal = cache.continuation start order maximum_tokens := by
  rw [propose_order_eq_some]
  refine and_congr_right fun hle => ?_
  have hword : cache.Word cache.history (suffix_of cache.history order) :=
    ⟨(suffix_of_suffix _ _).isInfix, by rwa [length_suffix_of hle]⟩
  constructor
  · rintro ⟨start, -, hfound, rfl⟩
    exact ⟨start, (h _ hword start).mp hfound, rfl⟩
  · rintro ⟨start, hstart, rfl⟩
    exact ⟨start, hstart.1, (h _ hword start).mpr hstart, rfl⟩

/-- **A proposal is real**, whatever the hash does. Before anything is proposed the tokens at the
entry are compared with the suffix, so that a collision costs a proposal but never makes a wrong
one. -/
theorem propose_real (h : cache.propose key maximum_tokens ≠ []) :
    (cache.propose key maximum_tokens).length ≤ maximum_tokens ∧
      ∃ order ∈ cache.all_orders, order ≤ cache.history.length ∧
        ∃ start ∈ starts (suffix_of cache.history order) cache.history,
          cache.propose key maximum_tokens = cache.continuation start order maximum_tokens := by
  have hmax : maximum_tokens ≠ 0 := by
    rintro rfl
    exact h (if_pos rfl)
  rcases propose_eq hmax with ⟨order, horder, proposal, hproposal, heq, -⟩ | ⟨hnil, -⟩
  · obtain ⟨hle, start, hstart, -, rfl⟩ := propose_order_eq_some.mp hproposal
    rw [heq]
    exact ⟨List.length_take_le _ _, order, horder, hle, start, hstart, rfl⟩
  · exact absurd hnil h

/-- When nothing is proposed. -/
theorem propose_eq_nil_iff :
    cache.propose key maximum_tokens = [] ↔
      maximum_tokens = 0 ∨ ∀ order ∈ cache.all_orders, order ≤ cache.history.length →
        ∀ start ∈ starts (suffix_of cache.history order) cache.history,
          cache.latest.lookup (key (suffix_of cache.history order)) ≠ some start := by
  by_cases hmax : maximum_tokens = 0
  · exact iff_of_true (if_pos hmax) (Or.inl hmax)
  rw [or_iff_right hmax]
  rcases propose_eq hmax with ⟨order, horder, proposal, hproposal, heq, -⟩ | ⟨hnil, hnone⟩
  · obtain ⟨hle, start, hstart, hfound, rfl⟩ := propose_order_eq_some.mp hproposal
    rw [heq]
    exact iff_of_false (continuation_ne_nil hmax hle hstart)
      fun hall => hall order horder hle start hstart hfound
  · refine iff_of_true hnil fun order horder hle start hstart hfound => ?_
    have : cache.propose_order key maximum_tokens order = some _ :=
      propose_order_eq_some.mpr ⟨hle, start, hstart, hfound, rfl⟩
    rw [hnone order horder] at this
    exact Option.some_ne_none _ this.symm

/-- **Without collisions** it is the latest occurrence for the highest order. -/
theorem propose_of_indexed (h : Indexed key cache.history cache) (hmax : maximum_tokens ≠ 0)
    (horder : IsGreatest cache.repeated_orders order) :
    ∃ start, IsGreatest (starts (suffix_of cache.history order) cache.history) start ∧
      cache.propose key maximum_tokens = cache.continuation start order maximum_tokens := by
  obtain ⟨⟨hmem, hle, hrepeated⟩, hhighest⟩ := horder
  obtain ⟨start, hstart⟩ := Occurrence.exists_isGreatest_starts hrepeated
  have hproposal : cache.propose_order key maximum_tokens order = some _ :=
    (propose_order_of_indexed h hmem).mpr ⟨hle, start, hstart, rfl⟩
  refine ⟨start, hstart, ?_⟩
  rcases propose_eq hmax with ⟨order', hmem', proposal, hproposal', heq, hhigher⟩ | ⟨-, hnone⟩
  · obtain ⟨hle', start', hstart', rfl⟩ := (propose_order_of_indexed h hmem').mp hproposal'
    rcases (hhighest ⟨hmem', hle', start', hstart'.1⟩).lt_or_eq with hlt | rfl
    · rw [hhigher order hmem hlt] at hproposal
      exact absurd hproposal (Option.some_ne_none _).symm
    · rw [heq, hstart'.unique hstart]
  · rw [hnone order hmem] at hproposal
    exact absurd hproposal (Option.some_ne_none _).symm

theorem propose_eq_nil_of_indexed (h : Indexed key cache.history cache) :
    cache.propose key maximum_tokens = [] ↔ maximum_tokens = 0 ∨ cache.repeated_orders = ∅ := by
  by_cases hmax : maximum_tokens = 0
  · exact iff_of_true (if_pos hmax) (Or.inl hmax)
  rw [or_iff_right hmax]
  rcases propose_eq hmax with ⟨order, horder, proposal, hproposal, heq, -⟩ | ⟨hnil, hnone⟩
  · obtain ⟨hle, start, hstart, rfl⟩ := (propose_order_of_indexed h horder).mp hproposal
    rw [heq]
    refine iff_of_false (continuation_ne_nil hmax hle hstart.1) fun hempty => ?_
    exact Set.notMem_empty order (hempty ▸ ⟨horder, hle, start, hstart.1⟩)
  · refine iff_of_true hnil (Set.eq_empty_iff_forall_notMem.mpr ?_)
    rintro order ⟨hmem, hle, hrepeated⟩
    obtain ⟨start, hstart⟩ := Occurrence.exists_isGreatest_starts hrepeated
    have : cache.propose_order key maximum_tokens order = some _ :=
      (propose_order_of_indexed h hmem).mpr ⟨hle, start, hstart, rfl⟩
    rw [hnone order hmem] at this
    exact Option.some_ne_none _ this.symm

/-- **History drafts are real history.** After any tokens a proposal continues an earlier
occurrence of the suffix; and where no two words of the history collide, the latest one for the
highest order that has any. -/
theorem history_proposals {minimum_order maximum_order : Nat}
    (hmake : make minimum_order maximum_order = .ok cache) (tokens : List UInt32)
    (maximum_tokens : Nat) :
    let requested := append_all b key cache tokens
    let proposal := requested.propose key maximum_tokens
    requested.history = tokens ∧
    (proposal ≠ [] →
      proposal.length ≤ maximum_tokens ∧
      ∃ order, minimum_order ≤ order ∧ order ≤ maximum_order ∧ order ≤ tokens.length ∧
        ∃ start ∈ starts (suffix_of tokens order) tokens,
          proposal = (tokens.drop (start + order)).take maximum_tokens) ∧
    (proposal = [] ↔
      maximum_tokens = 0 ∨ ∀ order, minimum_order ≤ order → order ≤ maximum_order →
        order ≤ tokens.length → ∀ start ∈ starts (suffix_of tokens order) tokens,
          requested.latest.lookup (key (suffix_of tokens order)) ≠ some start) ∧
    (NoCollision key requested tokens →
      (∀ order, maximum_tokens ≠ 0 → IsGreatest requested.repeated_orders order →
        ∃ start, IsGreatest (starts (suffix_of tokens order) tokens) start ∧
          proposal = (tokens.drop (start + order)).take maximum_tokens) ∧
      (proposal = [] ↔ maximum_tokens = 0 ∨ requested.repeated_orders = ∅)) := by
  intro requested proposal
  obtain ⟨hmin, hmax, hhistory, hlatest⟩ := make_eq_ok hmake
  have htokens : requested.history = tokens := by
    rw [append_all_history, hhistory, List.nil_append]
  have horders (order : Nat) :
      order ∈ requested.all_orders ↔ minimum_order ≤ order ∧ order ≤ maximum_order := by
    rw [append_all_all_orders, mem_all_orders, hmin, hmax]
  refine ⟨htokens, fun hne => ?_, ?_, fun hcoll => ?_⟩
  -- a proposal is checked against the history before it is made
  · obtain ⟨hlen, order, horder, hle, start, hstart, heq⟩ := propose_real hne
    rw [htokens] at hle hstart
    rw [continuation, htokens] at heq
    exact ⟨hlen, order, ((horders order).mp horder).1, ((horders order).mp horder).2, hle, start,
      hstart, heq⟩
  · rw [propose_eq_nil_iff, htokens]
    simp only [horders, and_imp]
  -- without collisions the index has the latest occurrence of each word
  · have hindexed : Indexed key requested.history requested := by
      rw [htokens]
      refine indexed_append_all ?_ (indexed_nil hhistory hlatest) (by rw [hhistory]; exact List.infix_rfl)
      intro g g' hg hg'
      exact hcoll g g' ⟨hg.1, by simpa [requested] using hg.2⟩ ⟨hg'.1, by simpa [requested] using hg'.2⟩
    refine ⟨fun order hne horder => ?_, propose_eq_nil_of_indexed hindexed⟩
    obtain ⟨start, hstart, heq⟩ := propose_of_indexed hindexed hne horder
    rw [htokens] at hstart
    rw [continuation, htokens] at heq
    exact ⟨start, hstart, heq⟩

/-- The words of one or two tokens in three. -/
theorem noCollision_three (h : cache.all_orders = [1, 2]) : NoCollision fnv_key cache [7, 8, 7] := by
  have hwords : ∀ text ∈ ([7, 8, 7] : List UInt32).tails, ∀ word ∈ text.inits,
      word.length ∈ [1, 2] → word ∈ ([[7], [8], [7, 8], [8, 7]] : List (List UInt32)) := by
    decide +kernel
  have hdistinct : ∀ word ∈ ([[7], [8], [7, 8], [8, 7]] : List (List UInt32)),
      ∀ word' ∈ ([[7], [8], [7, 8], [8, 7]] : List (List UInt32)),
        fnv_key word = fnv_key word' → word = word' := by
    decide +kernel
  have hmem (word : List UInt32) (hword : cache.Word [7, 8, 7] word) :
      word ∈ ([[7], [8], [7, 8], [8, 7]] : List (List UInt32)) := by
    obtain ⟨text, hpre, hsuf⟩ := List.infix_iff_prefix_suffix.mp hword.1
    exact hwords text ((List.mem_tails _ _).mpr hsuf) word ((List.mem_inits _ _).mpr hpre) (h ▸ hword.2)
  exact fun word word' hword hword' => hdistinct word (hmem word hword) word' (hmem word' hword')

/-- Of three tokens the first and the last are alike: the one between is drafted, and the last. -/
theorem history_proposals_three :
    ∃ cache, make 1 2 = .ok cache ∧
      (append_all (.newestFirst _) fnv_key cache [7, 8, 7]).propose fnv_key 4 = [8, 7] := by
  refine ⟨_, rfl, ?_⟩
  let b : BucketOrder UInt64 := .newestFirst _
  obtain ⟨hhistory, -, -, hlatest⟩ := @history_proposals b fnv_key _ 1 2 rfl [7, 8, 7] 4
  have horders : (append_all b fnv_key ⟨1, 2, by decide, [], ∅⟩ [7, 8, 7]).all_orders = [1, 2] := by
    rw [append_all_all_orders]
    rfl
  have hone : ∀ start, start ∈ starts [7] ([7, 8, 7] : List UInt32) ↔ start = 0 := by
    intro start
    refine ⟨?_, fun h => h ▸ ⟨by decide, by decide⟩⟩
    rintro ⟨hlt, hpre⟩
    match start, hlt, hpre with
    | 0, _, _ => rfl
    | 1, _, hpre => exact absurd hpre (by decide)
    | n + 2, hlt, _ => exact absurd hlt (by simp)
  have hgreatest : IsGreatest
      (append_all b fnv_key ⟨1, 2, by decide, [], ∅⟩ [7, 8, 7]).repeated_orders 1 := by
    rw [repeated_orders, horders, hhistory]
    refine ⟨⟨by decide, by decide, 0, (hone 0).mpr rfl⟩, ?_⟩
    rintro order ⟨hmem, -, start, hlt, hpre⟩
    rcases List.mem_cons.mp hmem with rfl | hmem
    · exact le_rfl
    · obtain rfl := List.mem_singleton.mp hmem
      obtain rfl : start = 0 := by
        have : start + 2 < 3 := hlt
        omega
      exact absurd hpre (by decide)
  obtain ⟨start, hstart, heq⟩ := (hlatest (noCollision_three horders)).1 1 (by decide) hgreatest
  obtain rfl := (hone start).mp hstart.1
  exact heq

/-- A request that does not repeat itself gets no draft. -/
theorem not_propose_ne_nil :
    ¬∀ (b : BucketOrder UInt64) (key : List UInt32 → UInt64) (tokens : List UInt32) (maximum_tokens : Nat)
      (cache : HistoryDraftCache), make 2 5 = .ok cache →
        (append_all b key cache tokens).propose key maximum_tokens ≠ [] := by
  intro h
  exact h (.newestFirst _) fnv_key [10, 11, 12, 13, 14] 4 _ rfl (by decide +kernel)

end HistoryDraftCache

end Qwen38
