import Qwen38.Engine.HistoryDraft

/-!
# Copying from the prompt

`ContextCopyCache` indexes the positions of the prompt by the hash of the tokens before them.
A request's last tokens are looked up there, and of the last 32 positions with that hash the one
is taken that agrees furthest backwards, up to the maximum order.

There are two entry points: with the whole history, and with the completion alone, the prompt
being the cache's own. They find the same (`ContextCopyCache.propose_completion_eq`).
-/

namespace Qwen38

open UnorderedMap (BucketOrder)
open Occurrence (CommonSuffix IsBest best)

/-- `ContextCopyProposal`. -/
structure ContextCopyProposal where
  tokens : List UInt32 := []
  match_extension : Nat := 0
  deriving DecidableEq

/-- `ContextCopyCache`. -/
structure ContextCopyCache where
  minimum_order : Nat
  maximum_order : Nat
  orders : 0 < minimum_order ∧ minimum_order ≤ maximum_order
  prompt : List UInt32
  continuations : UnorderedMap UInt64 (List Nat) := ∅

namespace ContextCopyCache

variable (b : BucketOrder UInt64)

/-- The key of the tokens before a position. -/
def key_at (cache : ContextCopyCache) (position : Nat) : UInt64 :=
  fnv_key (gram cache.prompt (position - cache.minimum_order) cache.minimum_order)

/-- A position, behind those with the same key. -/
def index_position (cache : ContextCopyCache) (position : Nat) : ContextCopyCache :=
  let key := cache.key_at position
  { cache with
    continuations :=
      cache.continuations.put b key ((cache.continuations.lookup key).getD [] ++ [position]) }

/-- The positions behind `minimum_order` tokens. -/
def positions (cache : ContextCopyCache) : List Nat :=
  List.range' cache.minimum_order (cache.prompt.length - cache.minimum_order)

/-- `ContextCopyCache`, the constructor. -/
def make (prompt : List UInt32) (minimum_order maximum_order : Nat) :
    Except String ContextCopyCache :=
  if h : minimum_order = 0 ∨ maximum_order < minimum_order then
    .error "invalid context-copy order range"
  else
    let cache : ContextCopyCache := { minimum_order, maximum_order, orders := orders_of_range h, prompt }
    .ok (cache.positions.foldl (index_position b) cache)

/-- `extension_cap`. -/
def extension_cap (cache : ContextCopyCache) : Nat := cache.maximum_order - cache.minimum_order

/-- The `while` loop of the extension: `fuel` is what is left up to the cap. -/
def extend (agrees : Nat → Bool) : Nat → Nat → Nat
  | 0, extension => extension
  | fuel + 1, extension =>
    if agrees extension then extend agrees fuel (extension + 1) else extension

/-- The candidates, from the newest: the last 32 positions. -/
def candidates (found : List Nat) : List Nat := (found.drop (found.length - 32)).reverse

/-- What is copied from the best position, if there is one. -/
def copy (maximum_tokens : Nat) (cache : ContextCopyCache) : Option (Nat × Nat) → ContextCopyProposal
  | none => {}
  | some (best_position, best_extension) =>
    let count := min maximum_tokens (cache.prompt.length - best_position)
    { tokens := (cache.prompt.drop best_position).take count, match_extension := best_extension }

/-- The comparison one token further back, with the history. -/
def agrees (history : List UInt32) (cache : ContextCopyCache) (position extension : Nat) : Bool :=
  cache.minimum_order + extension < position && cache.minimum_order + extension < history.length &&
    cache.prompt[position - cache.minimum_order - extension - 1]? ==
      history[history.length - cache.minimum_order - extension - 1]?

/-- The extension of a candidate that agrees with the history. -/
def score (history : List UInt32) (cache : ContextCopyCache) (position : Nat) : Option Nat :=
  if cache.prompt.length ≤ position then none
  else if gram cache.prompt (position - cache.minimum_order) cache.minimum_order ==
      suffix_of history cache.minimum_order then
    some (extend (cache.agrees history position) cache.extension_cap 0)
  else none

/-- `propose`. -/
def propose (history : List UInt32) (maximum_tokens : Nat) (cache : ContextCopyCache) :
    ContextCopyProposal :=
  if maximum_tokens = 0 ∨ history.length < cache.minimum_order then {}
  else
    match cache.continuations.lookup (fnv_key (suffix_of history cache.minimum_order)) with
    | none => {}
    | some found =>
      cache.copy maximum_tokens (best (cache.score history) cache.extension_cap (candidates found) none)

/-- A token of the prompt or behind it. -/
def history_token (completion : List UInt32) (cache : ContextCopyCache) (index : Nat) : Option UInt32 :=
  if index < cache.prompt.length then cache.prompt[index]?
  else completion[index - cache.prompt.length]?

/-- The comparison one token further back, with the prompt and the completion. -/
def completion_agrees (completion : List UInt32) (cache : ContextCopyCache)
    (position extension : Nat) : Bool :=
  let history_size := cache.prompt.length + completion.length
  cache.minimum_order + extension < position && cache.minimum_order + extension < history_size &&
    cache.prompt[position - cache.minimum_order - extension - 1]? ==
      cache.history_token completion (history_size - cache.minimum_order - extension - 1)

/-- The extension of a candidate that agrees with the prompt and the completion. -/
def completion_score (completion : List UInt32) (cache : ContextCopyCache) (position : Nat) : Option Nat :=
  let history_size := cache.prompt.length + completion.length
  if cache.prompt.length ≤ position then none
  else if (List.range cache.minimum_order).all fun offset =>
      cache.prompt[position - cache.minimum_order + offset]? ==
        cache.history_token completion (history_size - cache.minimum_order + offset) then
    some (extend (cache.completion_agrees completion position) cache.extension_cap 0)
  else none

/-- The key of the suffix, token by token. -/
def suffix_key (completion : List UInt32) (cache : ContextCopyCache) : UInt64 :=
  let history_size := cache.prompt.length + completion.length
  (List.range' (history_size - cache.minimum_order) cache.minimum_order).foldl
    (fun hash index => (cache.history_token completion index).elim hash fun token =>
      (hash ^^^ token.toUInt64) * fnv_prime)
    (fnv_offset ^^^ UInt64.ofNat cache.minimum_order)

/-- `propose_completion`. -/
def propose_completion (completion : List UInt32) (maximum_tokens : Nat) (cache : ContextCopyCache) :
    ContextCopyProposal :=
  let history_size := cache.prompt.length + completion.length
  if maximum_tokens = 0 ∨ history_size < cache.minimum_order then {}
  else
    match cache.continuations.lookup (cache.suffix_key completion) with
    | none => {}
    | some found =>
      cache.copy maximum_tokens
        (best (cache.completion_score completion) cache.extension_cap (candidates found) none)

variable {b} {cache : ContextCopyCache} {history completion : List UInt32}

/-! ### The two entry points -/

theorem history_token_eq (index : Nat) :
    cache.history_token completion index = (cache.prompt ++ completion)[index]? :=
  List.getElem?_append.symm

/-- A comparison of tokens, one at a time. -/
theorem take_eq_iff {α : Type*} {l s : List α} {n : Nat} (h : s.length = n) :
    l.take n = s ↔ ∀ offset < n, l[offset]? = s[offset]? := by
  constructor
  · rintro rfl offset hlt
    rw [List.getElem?_take_of_lt hlt]
  · intro hall
    refine List.ext_getElem? fun i => ?_
    rcases Nat.lt_or_ge i n with hlt | hge
    · rw [List.getElem?_take_of_lt hlt, hall i hlt]
    · rw [List.getElem?_eq_none ((List.length_take_le _ _).trans hge),
        List.getElem?_eq_none (h.trans_le hge)]

theorem completion_agrees_eq :
    cache.completion_agrees completion = cache.agrees (cache.prompt ++ completion) := by
  ext position extension
  rw [completion_agrees, agrees, history_token_eq, List.length_append]

theorem completion_score_eq (h : cache.minimum_order ≤ (cache.prompt ++ completion).length) :
    cache.completion_score completion = cache.score (cache.prompt ++ completion) := by
  funext position
  have hexact : ((List.range cache.minimum_order).all fun offset =>
      cache.prompt[position - cache.minimum_order + offset]? ==
        cache.history_token completion
          (cache.prompt.length + completion.length - cache.minimum_order + offset)) =
      (gram cache.prompt (position - cache.minimum_order) cache.minimum_order ==
        suffix_of (cache.prompt ++ completion) cache.minimum_order) := by
    rw [Bool.eq_iff_iff, List.all_eq_true, beq_iff_eq, gram, take_eq_iff (length_suffix_of h),
      suffix_of_eq_drop]
    simp only [List.mem_range, beq_iff_eq, history_token_eq, List.getElem?_drop, List.length_append]
  rw [completion_score, score, hexact, completion_agrees_eq]

theorem suffix_key_eq (h : cache.minimum_order ≤ (cache.prompt ++ completion).length) :
    cache.suffix_key completion =
      fnv_key (suffix_of (cache.prompt ++ completion) cache.minimum_order) := by
  have hrun (history : List UInt32) (start n : Nat) (hle : start + n = history.length) (hash : UInt64) :
      (List.range' start n).foldl
          (fun hash index => (history[index]?).elim hash fun token =>
            (hash ^^^ token.toUInt64) * fnv_prime) hash =
        (history.drop start).foldl (fun hash token => (hash ^^^ token.toUInt64) * fnv_prime) hash := by
    induction n generalizing start hash with
    | zero => rw [List.range'_zero, List.drop_of_length_le (by omega)]; rfl
    | succ n ih =>
      rw [List.range'_succ, List.foldl_cons, List.drop_eq_getElem_cons (by omega), List.foldl_cons,
        ih _ (by omega), List.getElem?_eq_getElem (by omega)]
      rfl
  rw [suffix_key, fnv_key, length_suffix_of h, suffix_of_eq_drop]
  simp only [history_token_eq]
  rw [← List.length_append, hrun _ _ _ (by omega)]

/-- **The entry points agree.** -/
theorem propose_completion_eq (maximum_tokens : Nat) :
    cache.propose_completion completion maximum_tokens =
      cache.propose (cache.prompt ++ completion) maximum_tokens := by
  rw [propose_completion, propose, ← List.length_append]
  split_ifs with h
  · rfl
  · have hle : cache.minimum_order ≤ (cache.prompt ++ completion).length := by omega
    rw [suffix_key_eq hle, completion_score_eq hle]

/-! ### How far a position agrees -/

/-- The loop stops at the cap, or where the first comparison fails. -/
theorem isGreatest_extend {agrees : Nat → Bool} {P : Nat → Prop}
    (hstep : ∀ e, P (e + 1) ↔ P e ∧ agrees e = true) (fuel : Nat) {extension : Nat} (h : P extension) :
    IsGreatest {e | e ≤ extension + fuel ∧ P e} (extend agrees fuel extension) := by
  induction fuel generalizing extension with
  | zero => exact ⟨⟨le_rfl, h⟩, fun e he => he.1⟩
  | succ fuel ih =>
    rw [extend]
    split_ifs with hagrees
    · rw [show extension + (fuel + 1) = extension + 1 + fuel by omega]
      exact ih ((hstep extension).mpr ⟨h, hagrees⟩)
    · refine ⟨⟨Nat.le_add_right _ _, h⟩, fun e he => ?_⟩
      -- agreeing further on means agreeing here
      have hdown (d : Nat) (hd : P (extension + 1 + d)) : P (extension + 1) := by
        induction d with
        | zero => exact hd
        | succ d ihd => exact ihd ((hstep _).mp hd).1
      by_contra hlt
      have hfar : P (extension + 1 + (e - (extension + 1))) := by
        rw [Nat.add_sub_cancel' (by omega)]
        exact he.2
      exact hagrees ((hstep _).mp (hdown _ hfar)).2

theorem extend_le (agrees : Nat → Bool) (fuel extension : Nat) :
    extend agrees fuel extension ≤ extension + fuel := by
  induction fuel generalizing extension with
  | zero => exact le_rfl
  | succ fuel ih =>
    rw [extend]
    split_ifs
    · have := ih (extension + 1)
      omega
    · exact Nat.le_add_right _ _

theorem score_le_cap {position extension : Nat} (h : cache.score history position = some extension) :
    extension ≤ cache.extension_cap := by
  rw [score] at h
  split_ifs at h
  rw [Option.some.injEq] at h
  exact h ▸ (extend_le _ _ _).trans_eq (Nat.zero_add _)

/-- The extensions with which the tokens before a position are the last ones of the history. -/
def extensions (cache : ContextCopyCache) (history : List UInt32) (position : Nat) : Set Nat :=
  {e | e ≤ cache.extension_cap ∧
    CommonSuffix (cache.minimum_order + e) (cache.prompt.take position) history}

variable {position extension maximum_tokens : Nat}

theorem agrees_iff (hposition : position ≤ cache.prompt.length) (e : Nat) :
    CommonSuffix (cache.minimum_order + (e + 1)) (cache.prompt.take position) history ↔
      CommonSuffix (cache.minimum_order + e) (cache.prompt.take position) history ∧
        cache.agrees history position e = true := by
  rw [← Nat.add_assoc, Occurrence.commonSuffix_succ, List.length_take, Nat.min_eq_left hposition]
  simp only [agrees, Bool.and_eq_true, decide_eq_true_eq, beq_iff_eq, and_assoc, Nat.sub_sub]
  refine and_congr_right fun _ => and_congr_right fun hlt => ?_
  rw [List.getElem?_take_of_lt (by omega)]

theorem exact_iff (hposition : position ≤ cache.prompt.length) (hmin : cache.minimum_order ≤ position)
    (hhistory : cache.minimum_order ≤ history.length) :
    gram cache.prompt (position - cache.minimum_order) cache.minimum_order =
        suffix_of history cache.minimum_order ↔
      CommonSuffix cache.minimum_order (cache.prompt.take position) history := by
  rw [Occurrence.commonSuffix_iff, List.length_take, Nat.min_eq_left hposition, and_iff_right hmin,
    and_iff_right hhistory, suffix_of_eq_drop, gram, List.drop_take, Nat.sub_sub_self hmin]

/-- **The score of a candidate**: the longest extension, up to the cap. -/
theorem score_eq_some_iff (hposition : position < cache.prompt.length)
    (hmin : cache.minimum_order ≤ position) (hhistory : cache.minimum_order ≤ history.length) :
    cache.score history position = some extension ↔
      IsGreatest (cache.extensions history position) extension := by
  have hexact := exact_iff hposition.le hmin hhistory
  rw [score, if_neg (by omega)]
  split_ifs with h
  · have hgreatest := @isGreatest_extend (cache.agrees history position)
      (fun e => CommonSuffix (cache.minimum_order + e) (cache.prompt.take position) history)
      (agrees_iff hposition.le) cache.extension_cap 0 (hexact.mp (beq_iff_eq.mp h))
    rw [Nat.zero_add] at hgreatest
    rw [Option.some.injEq]
    exact ⟨fun heq => heq ▸ hgreatest, fun hs => hgreatest.unique hs⟩
  · refine iff_of_false (by simp) ?_
    rintro ⟨⟨-, hs⟩, -⟩
    exact h (beq_iff_eq.mpr (hexact.mpr (hs.mono (Nat.le_add_right _ _))))

theorem score_eq_none_iff (hposition : position < cache.prompt.length)
    (hmin : cache.minimum_order ≤ position) (hhistory : cache.minimum_order ≤ history.length) :
    cache.score history position = none ↔
      ¬CommonSuffix cache.minimum_order (cache.prompt.take position) history := by
  rw [score, if_neg (by omega), ← exact_iff hposition.le hmin hhistory]
  simp

/-! ### The index -/

@[simp] theorem index_position_prompt : (cache.index_position b position).prompt = cache.prompt := rfl

@[simp] theorem index_position_minimum_order :
    (cache.index_position b position).minimum_order = cache.minimum_order := rfl

@[simp] theorem index_position_key_at :
    (cache.index_position b position).key_at = cache.key_at := rfl

/-- The positions found under a key. -/
def found (cache : ContextCopyCache) (key : UInt64) : List Nat :=
  (cache.continuations.lookup key).getD []

theorem found_index_position (key : UInt64) :
    (cache.index_position b position).found key =
      cache.found key ++ [position].filter fun position => cache.key_at position = key := by
  by_cases h : cache.key_at position = key
  · rw [List.filter_cons_of_pos (by simpa using h), found, index_position, h,
      UnorderedMap.lookup_put]
    rfl
  · rw [List.filter_cons_of_neg (by simpa using h), List.filter_nil, List.append_nil, found, found,
      index_position, UnorderedMap.lookup_put_of_ne (Ne.symm h)]

/-- What the index holds: the positions whose suffix has the key, upwards. -/
theorem index_positions (l : List Nat) :
    let indexed := l.foldl (index_position b) cache
    indexed.minimum_order = cache.minimum_order ∧ indexed.maximum_order = cache.maximum_order ∧
      indexed.prompt = cache.prompt ∧
      ∀ key, indexed.found key =
        cache.found key ++ l.filter fun position => cache.key_at position = key := by
  induction l generalizing cache with
  | nil => exact ⟨rfl, rfl, rfl, fun key => (List.append_nil _).symm⟩
  | cons position l ih =>
    obtain ⟨hmin, hmax, hprompt, hfound⟩ := @ih (cache.index_position b position)
    refine ⟨hmin, hmax, hprompt, fun key => ?_⟩
    rw [List.foldl_cons, hfound key, found_index_position, index_position_key_at, List.append_assoc,
      ← List.filter_append]
    rfl

/-! ### The proposals -/

/-- The positions of a prompt that are considered: the last 32 of those behind tokens with the hash
of the history's last ones. -/
def considered (prompt : List UInt32) (minimum_order : Nat) (history : List UInt32) : List Nat :=
  let found := (List.range' minimum_order (prompt.length - minimum_order)).filter fun position =>
    fnv_key (gram prompt (position - minimum_order) minimum_order) =
      fnv_key (suffix_of history minimum_order)
  found.drop (found.length - 32)

theorem make_eq_ok {prompt : List UInt32} {minimum_order maximum_order : Nat}
    (h : make b prompt minimum_order maximum_order = .ok cache) :
    cache.prompt = prompt ∧ cache.minimum_order = minimum_order ∧
      cache.maximum_order = maximum_order ∧
      ∀ history, candidates (cache.found (fnv_key (suffix_of history cache.minimum_order))) =
        (considered prompt minimum_order history).reverse := by
  rw [make] at h
  split_ifs at h with horders
  simp only [Except.ok.injEq] at h
  obtain ⟨hmin, hmax, hprompt, hfound⟩ := @index_positions b
    { minimum_order, maximum_order, orders := orders_of_range horders, prompt }
    (positions { minimum_order, maximum_order, orders := orders_of_range horders, prompt })
  subst h
  refine ⟨hprompt, hmin, hmax, fun history => ?_⟩
  rw [hmin, hfound]
  rfl

/-- A proposal is copied from the best candidate. -/
theorem propose_eq (hmax : maximum_tokens ≠ 0) (h : cache.minimum_order ≤ history.length) :
    cache.propose history maximum_tokens =
      cache.copy maximum_tokens (best (cache.score history) cache.extension_cap
        (candidates (cache.found (fnv_key (suffix_of history cache.minimum_order)))) none) := by
  rw [propose, if_neg (by omega), found]
  cases cache.continuations.lookup (fnv_key (suffix_of history cache.minimum_order)) with
  | none => rfl
  | some found => rfl

theorem mem_considered {prompt : List UInt32} {minimum_order : Nat}
    (h : position ∈ considered prompt minimum_order history) :
    minimum_order ≤ position ∧ position < prompt.length := by
  have := List.mem_range'_1.mp (List.mem_of_mem_filter (List.mem_of_mem_drop h))
  omega

/-- The candidates run downwards. -/
theorem pairwise_considered (prompt : List UInt32) (minimum_order : Nat) (history : List UInt32) :
    (considered prompt minimum_order history).reverse.Pairwise (· > ·) := by
  rw [List.pairwise_reverse]
  exact (List.Pairwise.filter _ List.pairwise_lt_range').sublist (List.drop_sublist _ _)

/-- **Copies of the prompt.** Both entry points propose the same; and what is proposed is what
follows, in the prompt, the considered position that agrees with the history furthest backwards, the
last one of these. -/
theorem context_copies {prompt : List UInt32} {minimum_order maximum_order : Nat}
    (hmake : make b prompt minimum_order maximum_order = .ok cache) :
    (∀ completion maximum_tokens,
      cache.propose_completion completion maximum_tokens =
        cache.propose (prompt ++ completion) maximum_tokens) ∧
    ∀ history maximum_tokens,
      let proposal := cache.propose history maximum_tokens
      proposal = {} ∧
        (maximum_tokens = 0 ∨ ∀ position ∈ considered prompt minimum_order history,
          ¬CommonSuffix minimum_order (prompt.take position) history) ∨
      ∃ position ∈ considered prompt minimum_order history,
        proposal.tokens = (prompt.drop position).take maximum_tokens ∧ proposal.tokens ≠ [] ∧
        CommonSuffix minimum_order (prompt.take position) history ∧
        IsGreatest
          {e | e ≤ maximum_order - minimum_order ∧
            CommonSuffix (minimum_order + e) (prompt.take position) history}
          proposal.match_extension ∧
        ∀ other ∈ considered prompt minimum_order history, ∀ e ≤ maximum_order - minimum_order,
          CommonSuffix (minimum_order + e) (prompt.take other) history →
            e ≤ proposal.match_extension ∧ (e = proposal.match_extension → other ≤ position) := by
  obtain ⟨rfl, rfl, rfl, hcandidates⟩ := make_eq_ok hmake
  refine ⟨fun completion maximum_tokens => propose_completion_eq maximum_tokens, ?_⟩
  intro history maximum_tokens proposal
  have hsuffix {e position : Nat}
      (hs : CommonSuffix (cache.minimum_order + e) (cache.prompt.take position) history) :
      CommonSuffix cache.minimum_order (cache.prompt.take position) history :=
    hs.mono (Nat.le_add_right _ _)
  by_cases hmax : maximum_tokens = 0
  · exact Or.inl ⟨if_pos (Or.inl hmax), Or.inl hmax⟩
  by_cases hhistory : cache.minimum_order ≤ history.length
  swap
  · refine Or.inl ⟨if_pos (Or.inr (by omega)), Or.inr fun position _ hs => hhistory ?_⟩
    exact (Occurrence.commonSuffix_iff.mp hs).2.1
  have hproposal : proposal = _ := propose_eq hmax hhistory
  rw [hcandidates history] at hproposal
  cases hbest : best (cache.score history) cache.extension_cap
      (considered cache.prompt cache.minimum_order history).reverse none with
  | none =>
    refine Or.inl ⟨by rw [hproposal, hbest]; rfl, Or.inr fun position hposition => ?_⟩
    obtain ⟨hle, hlt⟩ := mem_considered hposition
    exact (score_eq_none_iff hlt hle hhistory).mp
      ((Occurrence.best_eq_none.mp hbest).2 position (List.mem_reverse.mpr hposition))
  | some chosen =>
    obtain ⟨position, extension⟩ := chosen
    have hchosen := Occurrence.best_eq_some (fun _ _ => score_le_cap) hbest
    have hposition := List.mem_reverse.mp hchosen.mem
    obtain ⟨hle, hlt⟩ := mem_considered hposition
    have hgreatest := (score_eq_some_iff hlt hle hhistory).mp hchosen.score_eq
    rw [hbest, copy, ← List.length_drop, ← List.take_take, List.take_length] at hproposal
    refine Or.inr ⟨position, hposition, ?_⟩
    rw [hproposal]
    refine ⟨rfl, ?_, hsuffix hgreatest.1.2, hgreatest, fun other hother e he hs => ?_⟩
    · rw [← List.length_pos_iff, List.length_take, List.length_drop]
      omega
    · -- the other position has a score too, and not a higher one
      obtain ⟨hle', hlt'⟩ := mem_considered hother
      cases hscore : cache.score history other with
      | none => exact absurd (hsuffix hs) ((score_eq_none_iff hlt' hle' hhistory).mp hscore)
      | some extension' =>
        have hother' := (score_eq_some_iff hlt' hle' hhistory).mp hscore
        obtain ⟨hbound, htie⟩ := hchosen.le_of_pairwise (pairwise_considered _ _ _)
          (List.mem_reverse.mpr hother) hscore
        have hext : e ≤ extension' := hother'.2 ⟨he, hs⟩
        exact ⟨hext.trans hbound, fun heq => htie (le_antisymm hbound (heq.ge.trans hext))⟩

/-- The last two tokens occur twice in the prompt; after the token before them, once. -/
theorem context_copies_six :
    ∃ cache, make (.newestFirst _) [1, 2, 7, 9, 1, 2, 8, 1, 2] 2 3 = .ok cache ∧
      cache.propose_completion [9, 1, 2] 4 = { tokens := [8, 1, 2], match_extension := 1 } := by
  refine ⟨_, rfl, ?_⟩
  rw [(@context_copies _ _ [1, 2, 7, 9, 1, 2, 8, 1, 2] 2 3 rfl).1 [9, 1, 2] 4]
  decide +kernel

end ContextCopyCache

end Qwen38
