import Mathlib.Algebra.BigOperators.Field
import Mathlib.Algebra.Order.Field.Basic
import Mathlib.Analysis.SpecialFunctions.Exp
import Mathlib.Data.Rat.Cast.Order
import Mathlib.Tactic.FieldSimp
import Mathlib.Tactic.Linarith
import Qwen38.Engine.Request
import Qwen38.Lib.Nucleus
import Qwen38.Lib.Selection

/-!
# The candidates of a sample

`sample_token` looks at a frontier of the vocabulary: `top_k` tokens, or 256 when a frequency
penalty can move some of them down. It subtracts the penalty of each recent token, corrects the
probabilities for it, and draws from the nucleus of what it has.

Numbers are those of an ordered field and `exp` is a parameter. The vocabulary outside the frontier
is where the choice can differ from one over all tokens: its penalties do not enter the corrected
probabilities, and its tokens cannot move up (`Qwen38.sample_token_candidates`).
-/

namespace Qwen38

/-! ### The sampler -/

section Sampler

variable {K : Type} [Field K] [LinearOrder K] (exp : K → K)

/-- A row of logits. -/
structure LogitRow (K : Type) where
  vocabulary : Nat
  value : Token → K

/-- `argmax_token`: the first token of the highest logit. -/
def argmax_token (logits : LogitRow K) : Token :=
  (List.range logits.vocabulary).foldl
    (fun best token => if logits.value best < logits.value token then token else best) 0

/-- `softmax_axis`, for a token. -/
def softmax (logits : LogitRow K) (token : Token) : K :=
  exp (logits.value token) / ∑ other ∈ Finset.range logits.vocabulary, exp (logits.value other)

/-- `count`, the size of the frontier. -/
def frontier_count (options : SamplingOptions) (vocabulary : Nat) : Nat :=
  min (if options.frequency_penalty = 0 then options.top_k else max options.top_k 256) vocabulary

/-- What the code holds of a token of the frontier. -/
structure Candidate (K : Type) where
  index : Token
  value : K
  probability : K

/-- `argpartition_axis` with the position up to which the lower logits go. -/
abbrev Argpartition (K : Type) := LogitRow K → Nat → List Token

/-- `indices`. -/
def frontier_indices (argpartition_axis : Argpartition K) (options : SamplingOptions)
    (logits : LogitRow K) : List Token :=
  let rest := logits.vocabulary - frontier_count options logits.vocabulary
  (argpartition_axis logits rest).drop rest

/-- `candidate_indices`, `candidate_values` and `candidate_probabilities`. -/
def candidates_of (indices : List Token) (logits : LogitRow K) : List (Candidate K) :=
  indices.map fun index => ⟨index, logits.value index, softmax exp logits index⟩

/-- The tokens that the penalty counts. -/
def penalty_window (generated_tokens : List Token) : List Token :=
  generated_tokens.drop (if 64 < generated_tokens.length then generated_tokens.length - 64 else 0)

/-- The loop over the candidates, with `normalization`. -/
def penalize (frequency_penalty : K) (window : List Token) :
    K → List (Candidate K) → K × List (Candidate K)
  | normalization, [] => (normalization, [])
  | normalization, candidate :: rest =>
    let occurrences := window.count candidate.index
    if occurrences = 0 then
      let (normalization, rest) := penalize frequency_penalty window normalization rest
      (normalization, candidate :: rest)
    else
      let penalty := frequency_penalty * occurrences
      let multiplier := exp (-penalty)
      let (normalization, rest) := penalize frequency_penalty window
        (normalization + candidate.probability * (multiplier - 1)) rest
      (normalization, { candidate with
        value := candidate.value - penalty
        probability := candidate.probability * multiplier } :: rest)

/-- The candidates after the penalty. -/
def penalized_candidates (options : SamplingOptions) (generated_tokens : List Token)
    (candidates : List (Candidate K)) : List (Candidate K) :=
  if options.frequency_penalty ≠ 0 ∧ generated_tokens ≠ [] then
    let (normalization, candidates) := penalize exp (options.frequency_penalty : K)
      (penalty_window generated_tokens) 1 candidates
    if 0 < normalization then candidates.map fun candidate =>
      { candidate with probability := candidate.probability / normalization }
    else candidates
  else candidates

/-- The last loop: the first rank at which the cumulative weight reaches the target. -/
def draw_rank (target : K) : K → List (Token × K) → Option Token
  | _, [] => none
  | cumulative, (token, weight) :: rest =>
    if target ≤ cumulative + weight then some token else draw_rank target (cumulative + weight) rest

/-- The tokens up to `retained_count`, in order, with their weights. -/
def retained_weights (options : SamplingOptions) (order : List (Candidate K)) : List (Token × K) :=
  let maximum := (order.head?.map Candidate.value).getD 0
  let retained := Nucleus.leading Candidate.probability (options.top_p : K)
    (min options.top_k order.length) 0 order
  retained.map fun candidate =>
    (candidate.index, exp ((candidate.value - maximum) / options.temperature))

/-- The draw. Past the loop the source reads the last retained token, and outside the vector when
there is none. -/
def draw_token (weights : List (Token × K)) (draw : K) : Except String Token :=
  match (draw_rank (draw * (weights.map Prod.snd).sum) 0 weights).or
      (weights.getLast?.map Prod.fst) with
  | some token => .ok token
  | none => .error "order[retained_count - 1]"

/-- `order`: the candidates after the penalty, sorted. -/
def sampling_order (argpartition_axis : Argpartition K) (logits : LogitRow K)
    (options : SamplingOptions) (generated_tokens : List Token) : List (Candidate K) :=
  (penalized_candidates exp options generated_tokens
    (candidates_of exp (frontier_indices argpartition_axis options logits) logits)).mergeSort
      fun a b => -a.value ≤ -b.value

/-- `sample_token`. `draw` is what the generator gives, of `[0, 1)`. -/
def sample_token (argpartition_axis : Argpartition K) (logits : LogitRow K)
    (options : SamplingOptions) (generated_tokens : List Token) (draw : K) : Except String Token :=
  if options.temperature ≤ 0 then .ok (argmax_token logits)
  else if logits.vocabulary = 0 then .error "sampling requires a vocabulary axis"
  else if frontier_count options logits.vocabulary = 0 then
    .error "sampling requires top_k to be positive"
  else
    draw_token (retained_weights exp options
      (sampling_order exp argpartition_axis logits options generated_tokens)) draw

end Sampler

/-! ### The draw -/

section Draw

variable {K : Type} [Field K] [LinearOrder K]
  {target cumulative : K} {weights before after : List (Token × K)} {token : Token} {weight : K}

theorem mem_of_draw_rank (h : draw_rank target cumulative weights = some token) :
    token ∈ weights.map Prod.fst := by
  induction weights generalizing cumulative with
  | nil => exact absurd h (by simp [draw_rank])
  | cons entry rest ih =>
    rw [draw_rank] at h
    split at h
    · cases h
      exact List.mem_cons_self
    · exact List.mem_cons_of_mem _ (ih h)

variable [IsStrictOrderedRing K]

/-- A target within the weight of a rank. -/
theorem draw_rank_append (hnonneg : ∀ entry ∈ before, 0 ≤ entry.2)
    (hlow : cumulative + (before.map Prod.snd).sum < target)
    (hhigh : target ≤ cumulative + (before.map Prod.snd).sum + weight) :
    draw_rank target cumulative (before ++ (token, weight) :: after) = some token := by
  induction before generalizing cumulative with
  | nil =>
    rw [List.map_nil, List.sum_nil, add_zero] at hhigh
    exact if_pos hhigh
  | cons entry rest ih =>
    rw [List.map_cons, List.sum_cons, ← add_assoc] at hlow hhigh
    have hrest : 0 ≤ (rest.map Prod.snd).sum :=
      List.sum_nonneg fun value hvalue => by
        obtain ⟨other, hother, rfl⟩ := List.mem_map.mp hvalue
        exact hnonneg other (List.mem_cons_of_mem _ hother)
    rw [List.cons_append, draw_rank, if_neg (by linarith)]
    exact ih (fun other hother => hnonneg other (List.mem_cons_of_mem _ hother)) hlow hhigh

/-- **Every rank is drawn.** -/
theorem exists_draw (hpos : ∀ entry ∈ weights, 0 < entry.2) (h : token ∈ weights.map Prod.fst) :
    ∃ draw : K, 0 ≤ draw ∧ draw < 1 ∧
      draw_rank (draw * (weights.map Prod.snd).sum) 0 weights = some token := by
  obtain ⟨⟨chosen, weight⟩, hmem, rfl⟩ := List.mem_map.mp h
  obtain ⟨before, after, rfl⟩ := List.append_of_mem hmem
  have hsum {part : List (Token × K)} (hpart : part ⊆ before ++ (chosen, weight) :: after) :
      0 ≤ (part.map Prod.snd).sum :=
    List.sum_nonneg fun value hvalue => by
      obtain ⟨other, hother, rfl⟩ := List.mem_map.mp hvalue
      exact (hpos other (hpart hother)).le
  have hbefore := hsum (List.subset_append_left before ((chosen, weight) :: after))
  have hafter := hsum (show after ⊆ before ++ (chosen, weight) :: after from fun entry hentry =>
    List.mem_append_right _ (List.mem_cons_of_mem _ hentry))
  have hweight := hpos _ hmem
  have htotal : ((before ++ (chosen, weight) :: after).map Prod.snd).sum =
      (before.map Prod.snd).sum + (weight + (after.map Prod.snd).sum) := by
    rw [List.map_append, List.sum_append, List.map_cons, List.sum_cons]
  simp only [] at hweight
  have hall : 0 < ((before ++ (chosen, weight) :: after).map Prod.snd).sum := by
    rw [htotal]
    linarith
  -- half way into the rank
  refine ⟨((before.map Prod.snd).sum + weight / 2) /
    ((before ++ (chosen, weight) :: after).map Prod.snd).sum, ?_, ?_, ?_⟩
  · exact div_nonneg (by linarith) hall.le
  · rw [div_lt_one hall, htotal]
    linarith
  · rw [div_mul_cancel₀ _ hall.ne']
    refine draw_rank_append (fun entry hentry => (hpos entry (List.mem_append_left _ hentry)).le)
      ?_ ?_
    · linarith
    · linarith

/-- The tokens that a draw may give. -/
theorem exists_draw_token_iff (hpos : ∀ entry ∈ weights, 0 < entry.2) :
    (∃ draw : K, 0 ≤ draw ∧ draw < 1 ∧ draw_token weights draw = .ok token) ↔
      token ∈ weights.map Prod.fst := by
  constructor
  · rintro ⟨draw, -, -, hdraw⟩
    rw [draw_token] at hdraw
    cases hrank : draw_rank (draw * (weights.map Prod.snd).sum) 0 weights with
    | some chosen =>
      rw [hrank] at hdraw
      cases hdraw
      exact mem_of_draw_rank hrank
    | none =>
      rw [hrank, Option.none_or] at hdraw
      cases hlast : weights.getLast? with
      | none =>
        rw [hlast] at hdraw
        cases hdraw
      | some entry =>
        rw [hlast] at hdraw
        cases hdraw
        exact List.mem_map_of_mem (List.mem_of_getLast? hlast)
  · intro hmem
    obtain ⟨draw, hlow, hhigh, hrank⟩ := exists_draw hpos hmem
    refine ⟨draw, hlow, hhigh, ?_⟩
    rw [draw_token, hrank]
    rfl

end Draw

/-! ### The penalty -/

section Penalty

variable {K : Type} [Field K] (exp : K → K) (options : SamplingOptions)
  (generated_tokens : List Token) (logits : LogitRow K) (indices : List Token)

/-- A logit after the penalty. -/
def penalized_logit (token : Token) : K :=
  logits.value token - options.frequency_penalty * (penalty_window generated_tokens).count token

/-- The total that the probabilities of the candidates refer to: tokens outside the frontier have
their weight without the penalty. -/
def frontier_total : K :=
  ∑ token ∈ Finset.range logits.vocabulary,
    exp (if token ∈ indices then penalized_logit options generated_tokens logits token
      else logits.value token)

/-- A candidate after the penalty. -/
def penalized_candidate (token : Token) : Candidate K where
  index := token
  value := penalized_logit options generated_tokens logits token
  probability := exp (penalized_logit options generated_tokens logits token) /
    frontier_total exp options generated_tokens logits indices

variable {exp options generated_tokens logits indices}

theorem length_penalty_window_le : (penalty_window generated_tokens).length ≤ 64 := by
  rw [penalty_window, List.length_drop]
  split <;> omega

/-- No penalty without a factor or without tokens. -/
theorem penalized_logit_eq (h : ¬(options.frequency_penalty ≠ 0 ∧ generated_tokens ≠ []))
    (token : Token) :
    penalized_logit options generated_tokens logits token = logits.value token := by
  rw [penalized_logit]
  rcases not_and_or.mp h with hzero | hnil
  · rw [not_not.mp hzero]
    simp
  · rw [not_not.mp hnil]
    simp [penalty_window]

theorem penalized_logit_of_notMem {token : Token} (h : token ∉ penalty_window generated_tokens) :
    penalized_logit options generated_tokens logits token = logits.value token := by
  rw [penalized_logit, List.count_eq_zero_of_not_mem h]
  simp

variable [LinearOrder K] [IsStrictOrderedRing K]

theorem penalized_logit_le (h : 0 ≤ options.frequency_penalty) (token : Token) :
    penalized_logit options generated_tokens logits token ≤ logits.value token := by
  have hcast : (0 : K) ≤ options.frequency_penalty := by exact_mod_cast h
  exact sub_le_self _ (mul_nonneg hcast (Nat.cast_nonneg _))

section Exponential

variable (hpos : ∀ x, 0 < exp x) (hadd : ∀ a b, exp (a + b) = exp a * exp b)

include hpos hadd

omit [IsStrictOrderedRing K] in
theorem exp_zero_of_add : exp 0 = 1 := by
  have h := hadd 0 0
  rw [add_zero] at h
  exact (mul_eq_left₀ (hpos 0).ne').mp h.symm

/-- **The loop of the penalty.** -/
theorem penalize_eq (normalization : K) (candidates : List (Candidate K)) {factor : K}
    {window : List Token} :
    penalize exp factor window normalization candidates =
      (normalization + (candidates.map fun candidate =>
          candidate.probability * (exp (-(factor * window.count candidate.index)) - 1)).sum,
        candidates.map fun candidate => { candidate with
          value := candidate.value - factor * window.count candidate.index
          probability := candidate.probability *
            exp (-(factor * window.count candidate.index)) }) := by
  induction candidates generalizing normalization with
  | nil => simp [penalize]
  | cons candidate rest ih =>
    rw [penalize]
    by_cases hzero : window.count candidate.index = 0
    · simp [hzero, ih, exp_zero_of_add hpos hadd]
    · simp [hzero, ih, add_assoc]

omit [LinearOrder K] [IsStrictOrderedRing K] hpos in
theorem exp_penalized_logit (token : Token) :
    exp (penalized_logit options generated_tokens logits token) = exp (logits.value token) *
      exp (-(options.frequency_penalty * (penalty_window generated_tokens).count token)) := by
  rw [← hadd, ← sub_eq_add_neg, penalized_logit]

omit [LinearOrder K] [IsStrictOrderedRing K] hpos hadd in
theorem frontier_total_eq (hsub : indices.toFinset ⊆ Finset.range logits.vocabulary) :
    frontier_total exp options generated_tokens logits indices =
      ∑ token ∈ Finset.range logits.vocabulary, exp (logits.value token) +
        ∑ token ∈ indices.toFinset, (exp (penalized_logit options generated_tokens logits token) -
          exp (logits.value token)) := by
  calc frontier_total exp options generated_tokens logits indices
      = ∑ token ∈ Finset.range logits.vocabulary, (exp (logits.value token) +
          if token ∈ indices.toFinset then exp (penalized_logit options generated_tokens logits token) -
            exp (logits.value token) else 0) := by
        refine Finset.sum_congr rfl fun token _ => ?_
        simp only [List.mem_toFinset]
        split
        · rw [add_sub_cancel]
        · rw [add_zero]
    _ = _ := by
        rw [Finset.sum_add_distrib, Finset.sum_ite_mem, Finset.inter_eq_right.mpr hsub]

omit hadd in
theorem frontier_total_pos (hvocabulary : 0 < logits.vocabulary) :
    0 < frontier_total exp options generated_tokens logits indices :=
  Finset.sum_pos (fun _ _ => hpos _) ⟨0, Finset.mem_range.mpr hvocabulary⟩

/-- **The candidates after the penalty**: their probabilities refer to `frontier_total`, the weight
of the whole frontier, and not to that of the candidates that are left. -/
theorem penalized_candidates_eq (hvocabulary : 0 < logits.vocabulary) (hnodup : indices.Nodup)
    (hsub : indices.toFinset ⊆ Finset.range logits.vocabulary) :
    penalized_candidates exp options generated_tokens (candidates_of exp indices logits) =
      indices.map (penalized_candidate exp options generated_tokens logits indices) := by
  have htotal : 0 < ∑ token ∈ Finset.range logits.vocabulary, exp (logits.value token) :=
    Finset.sum_pos (fun _ _ => hpos _) ⟨0, Finset.mem_range.mpr hvocabulary⟩
  rw [penalized_candidates]
  split
  · have hnormalization : 1 + ((candidates_of exp indices logits).map fun candidate =>
        candidate.probability * (exp (-((options.frequency_penalty : K) *
          (penalty_window generated_tokens).count candidate.index)) - 1)).sum =
        frontier_total exp options generated_tokens logits indices /
          ∑ token ∈ Finset.range logits.vocabulary, exp (logits.value token) := by
      rw [candidates_of, List.map_map, ← List.sum_toFinset _ hnodup, frontier_total_eq hsub,
        add_div, div_self htotal.ne', Finset.sum_div]
      refine congrArg _ (Finset.sum_congr rfl fun token _ => ?_)
      rw [exp_penalized_logit hadd]
      simp only [Function.comp_apply, softmax]
      ring
    simp only [penalize_eq hpos hadd, hnormalization]
    rw [if_pos (div_pos (frontier_total_pos hpos hvocabulary) htotal), candidates_of, List.map_map,
      List.map_map]
    refine List.map_congr_left fun token _ => ?_
    have hfrontier : frontier_total exp options generated_tokens logits indices ≠ 0 :=
      (frontier_total_pos hpos hvocabulary).ne'
    simp only [Function.comp_apply, penalized_candidate, penalized_logit, softmax]
    congr 1
    rw [sub_eq_add_neg, hadd]
    field_simp
  · next hoff =>
    rw [candidates_of]
    refine List.map_congr_left fun token _ => ?_
    have hsame : frontier_total exp options generated_tokens logits indices =
        ∑ other ∈ Finset.range logits.vocabulary, exp (logits.value other) := by
      refine Finset.sum_congr rfl fun other _ => ?_
      rw [penalized_logit_eq hoff, ite_self]
    rw [penalized_candidate, penalized_logit_eq hoff, hsame, softmax]

end Exponential

end Penalty

/-! ### The frontier -/

section Frontier

variable {K : Type} [LinearOrder K]

/-- What `argpartition_axis` promises: a permutation with the lower logits before the position. -/
structure Partitions (argpartition_axis : Argpartition K) : Prop where
  perm : ∀ logits kth, (argpartition_axis logits kth).Perm (List.range logits.vocabulary)
  le : ∀ logits kth, ∀ low ∈ (argpartition_axis logits kth).take kth,
    ∀ high ∈ (argpartition_axis logits kth).drop kth, logits.value low ≤ logits.value high

variable {argpartition_axis : Argpartition K} {options : SamplingOptions} {logits : LogitRow K}

theorem frontier_count_le (options : SamplingOptions) (vocabulary : Nat) :
    frontier_count options vocabulary ≤ vocabulary := min_le_right _ _

theorem Partitions.nodup (h : Partitions argpartition_axis) :
    (frontier_indices argpartition_axis options logits).Nodup :=
  ((h.perm _ _).nodup_iff.mpr List.nodup_range).sublist (List.drop_sublist _ _)

/-- **The frontier** has the highest logits before the penalty. It is taken of the row as the model
gives it, and only what is in it is penalized afterwards. -/
theorem Partitions.isTop (h : Partitions argpartition_axis) :
    Selection.IsTop logits.value (frontier_count options logits.vocabulary)
      (Finset.range logits.vocabulary)
      (frontier_indices argpartition_axis options logits).toFinset where
  subset := by
    intro token htoken
    have hmem := (h.perm _ _).mem_iff.mp (List.mem_of_mem_drop (List.mem_toFinset.mp htoken))
    exact Finset.mem_range.mpr (List.mem_range.mp hmem)
  card := by
    have hcount := frontier_count_le options logits.vocabulary
    rw [List.toFinset_card_of_nodup h.nodup, frontier_indices, List.length_drop,
      (h.perm _ _).length_eq, List.length_range]
    omega
  best := by
    intro token htoken hout high hhigh
    have hmem := (h.perm logits (logits.vocabulary -
      frontier_count options logits.vocabulary)).mem_iff.mpr
        (List.mem_range.mpr (Finset.mem_range.mp htoken))
    rw [← List.take_append_drop (logits.vocabulary - frontier_count options logits.vocabulary)
      (argpartition_axis _ _)] at hmem
    rcases List.mem_append.mp hmem with hlow | hin
    · exact h.le _ _ token hlow high (List.mem_toFinset.mp hhigh)
    · exact absurd (List.mem_toFinset.mpr hin) hout

end Frontier

/-! ### What is returned -/

section Returned

variable {K : Type} [Field K] [LinearOrder K] [IsStrictOrderedRing K] (exp : K → K)
  (argpartition_axis : Argpartition K) (logits : LogitRow K) (options : SamplingOptions)
  (generated_tokens : List Token)

/-- The tokens that `sample_token` may return. -/
def returned : Set Token := { token | ∃ draw : K, 0 ≤ draw ∧ draw < 1 ∧
  sample_token exp argpartition_axis logits options generated_tokens draw = .ok token }

/-- The nucleus of the frontier, by the weights of its tokens after the penalty. -/
def frontier_nucleus : Finset Token :=
  Nucleus.keep (frontier_indices argpartition_axis options logits).toFinset
    (penalized_logit options generated_tokens logits)
    (fun token => exp (penalized_logit options generated_tokens logits token)) options.top_k
    (options.top_p * frontier_total exp options generated_tokens logits
      (frontier_indices argpartition_axis options logits))

variable {exp argpartition_axis logits options generated_tokens} {indices : List Token}

/-- The candidates in the order of the walk. -/
theorem retained_tokens_eq (hpos : ∀ x, 0 < exp x) (hvocabulary : 0 < logits.vocabulary)
    (hnodup : indices.Nodup) (hsub : indices.toFinset ⊆ Finset.range logits.vocabulary)
    (hties : Set.InjOn (penalized_logit options generated_tokens logits)
      (Finset.range logits.vocabulary)) {order : List (Candidate K)}
    (horder : order = (indices.map
      (penalized_candidate exp options generated_tokens logits indices)).mergeSort
        fun a b => -a.value ≤ -b.value) :
    ((retained_weights exp options order).map Prod.fst).toFinset =
      Nucleus.keep indices.toFinset (penalized_logit options generated_tokens logits)
        (fun token => exp (penalized_logit options generated_tokens logits token)) options.top_k
        (options.top_p * frontier_total exp options generated_tokens logits indices) := by
  have htotal : 0 < frontier_total exp options generated_tokens logits indices :=
    frontier_total_pos hpos hvocabulary
  have hperm : order.Perm (indices.map
      (penalized_candidate exp options generated_tokens logits indices)) := by
    rw [horder]
    exact List.mergeSort_perm _ _
  have hentry : ∀ candidate ∈ order, candidate =
      penalized_candidate exp options generated_tokens logits indices candidate.index ∧
        candidate.index ∈ indices := by
    intro candidate hcandidate
    obtain ⟨token, htoken, rfl⟩ := List.mem_map.mp (hperm.mem_iff.mp hcandidate)
    exact ⟨rfl, htoken⟩
  have hindices : (order.map Candidate.index).Perm indices := by
    have hmap := hperm.map Candidate.index
    rw [List.map_map, show Candidate.index ∘
      penalized_candidate exp options generated_tokens logits indices = id from rfl,
      List.map_id] at hmap
    exact hmap
  -- without ties the order of the walk is strict
  have hsorted : order.Pairwise fun a b =>
      penalized_logit options generated_tokens logits b.index <
        penalized_logit options generated_tokens logits a.index := by
    have hle : order.Pairwise fun a b => -a.value ≤ -b.value := by
      rw [horder]
      exact Selection.pairwise_mergeSort (fun candidate : Candidate K => -candidate.value) _
    have hne : order.Pairwise fun a b => a.index ≠ b.index :=
      List.pairwise_map.mp (hindices.nodup_iff.mpr hnodup)
    refine (hle.and hne).imp_of_mem fun {a b} ha hb hab => ?_
    obtain ⟨hvalue, hindex⟩ := hab
    obtain ⟨haeq, hain⟩ := hentry a ha
    obtain ⟨hbeq, hbin⟩ := hentry b hb
    rw [haeq, hbeq] at hvalue
    refine lt_of_le_of_ne (neg_le_neg_iff.mp hvalue) fun heq => hindex ?_
    exact (hties (hsub (List.mem_toFinset.mpr hbin)) (hsub (List.mem_toFinset.mpr hain)) heq).symm
  have hwalk : ((Nucleus.leading Candidate.probability (options.top_p : K)
      (min options.top_k order.length) 0 order).map Candidate.index).toFinset =
      Nucleus.keep (order.map Candidate.index).toFinset
        (penalized_logit options generated_tokens logits)
        (fun token => exp (penalized_logit options generated_tokens logits token) /
          frontier_total exp options generated_tokens logits indices)
        (min options.top_k order.length) (options.top_p - 0) :=
    Nucleus.toFinset_leading _ (fun token => div_pos (hpos _) htotal) hsorted
      fun candidate hcandidate => congrArg Candidate.probability (hentry candidate hcandidate).1
  -- `top_k` beyond the number of candidates changes nothing, nor does dividing by the total
  have hcard : order.length = (indices.toFinset).card := by
    rw [List.toFinset_card_of_nodup hnodup, ← hindices.length_eq, List.length_map]
  rw [retained_weights, List.map_map]
  refine hwalk.trans ?_
  rw [List.toFinset_eq_of_perm _ _ hindices, hcard, Nucleus.keep_min, sub_zero,
    Nucleus.keep_div htotal]

/-- **What `sample_token` may return** at a positive temperature: the nucleus of the frontier, each
token of which is drawn by some number. -/
theorem returned_eq (hpos : ∀ x, 0 < exp x) (hadd : ∀ a b, exp (a + b) = exp a * exp b)
    (hpartitions : Partitions argpartition_axis) (htemperature : 0 < options.temperature)
    (htop_k : options.top_k ≠ 0) (hvocabulary : 0 < logits.vocabulary)
    (hties : Set.InjOn (penalized_logit options generated_tokens logits)
      (Finset.range logits.vocabulary)) :
    returned exp argpartition_axis logits options generated_tokens =
      frontier_nucleus exp argpartition_axis logits options generated_tokens := by
  have hsub := (@Partitions.isTop K _ _ options logits hpartitions).subset
  have hnodup := @Partitions.nodup K _ _ options logits hpartitions
  have hcount : frontier_count options logits.vocabulary ≠ 0 := by
    rw [frontier_count]
    split <;> omega
  have hretained := retained_tokens_eq hpos hvocabulary hnodup hsub hties
    (congrArg (List.mergeSort · fun a b => -a.value ≤ -b.value)
      (@penalized_candidates_eq K _ exp options generated_tokens _ _ _ _ hpos hadd hvocabulary
        hnodup hsub))
  ext token
  have hpositive : ∀ entry ∈ retained_weights exp options
      (sampling_order exp argpartition_axis logits options generated_tokens), 0 < entry.2 := by
    intro entry hentry
    obtain ⟨candidate, -, rfl⟩ := List.mem_map.mp hentry
    exact hpos _
  have hdraw := @exists_draw_token_iff K _ _ _ token _ hpositive
  rw [frontier_nucleus, ← hretained, Finset.mem_coe, List.mem_toFinset, returned, Set.mem_ofPred_eq]
  refine Iff.trans (exists_congr fun draw => ?_) hdraw
  rw [sample_token, if_neg (not_le_of_gt htemperature), if_neg hvocabulary.ne', if_neg hcount]

/-! ### The whole vocabulary -/

variable (exp logits options generated_tokens) in
/-- The nucleus of the penalised softmax over all tokens: those of the first `top_k` whose preceding
mass is below `top_p`. -/
def whole_nucleus : Finset Token :=
  Nucleus.keep (Finset.range logits.vocabulary) (penalized_logit options generated_tokens logits)
    (fun token => exp (penalized_logit options generated_tokens logits token) /
      ∑ other ∈ Finset.range logits.vocabulary,
        exp (penalized_logit options generated_tokens logits other)) options.top_k options.top_p

theorem frontier_count_ge (options : SamplingOptions) (vocabulary : Nat) :
    min options.top_k vocabulary ≤ frontier_count options vocabulary := by
  rw [frontier_count]
  split <;> omega

/-- The probabilities of the frontier are never too high. -/
theorem whole_total_le (hmono : StrictMono exp) (hpenalty : 0 ≤ options.frequency_penalty) :
    ∑ token ∈ Finset.range logits.vocabulary,
        exp (penalized_logit options generated_tokens logits token) ≤
      frontier_total exp options generated_tokens logits indices := by
  refine Finset.sum_le_sum fun token _ => hmono.monotone ?_
  split
  · exact le_rfl
  · exact penalized_logit_le hpenalty token

/-- **When the frontier is enough**: the nucleus of the frontier is that of the whole vocabulary
exactly if the frontier has all of it and the weight still ends it in the same place. -/
theorem frontier_nucleus_eq_iff (hpos : ∀ x, 0 < exp x) (hmono : StrictMono exp)
    (hpartitions : Partitions argpartition_axis) (hvocabulary : 0 < logits.vocabulary)
    (hvalid : ¬options.Invalid) (hties : Set.InjOn (penalized_logit options generated_tokens logits)
      (Finset.range logits.vocabulary)) :
    frontier_nucleus exp argpartition_axis logits options generated_tokens =
        whole_nucleus exp logits options generated_tokens ↔
      whole_nucleus exp logits options generated_tokens ⊆
          (frontier_indices argpartition_axis options logits).toFinset ∧
        ((whole_nucleus exp logits options generated_tokens).card =
            min options.top_k logits.vocabulary ∨
          options.top_p * frontier_total exp options generated_tokens logits
              (frontier_indices argpartition_axis options logits) ≤
            ∑ token ∈ whole_nucleus exp logits options generated_tokens,
              exp (penalized_logit options generated_tokens logits token)) := by
  have htop := @Partitions.isTop K _ _ options logits hpartitions
  have htotal : 0 < ∑ token ∈ Finset.range logits.vocabulary,
      exp (penalized_logit options generated_tokens logits token) :=
    Finset.sum_pos (fun _ _ => hpos _) ⟨0, Finset.mem_range.mpr hvocabulary⟩
  have hpenalty : 0 ≤ options.frequency_penalty := le_of_not_gt fun h => hvalid (by simp [SamplingOptions.Invalid, h])
  have htop_p : (0 : K) < options.top_p := by
    exact_mod_cast lt_of_not_ge fun h => hvalid (by simp [SamplingOptions.Invalid, h])
  have hsize : min options.top_k (Finset.range logits.vocabulary).card ≤
      (frontier_indices argpartition_axis options logits).toFinset.card := by
    rw [Finset.card_range, htop.card]
    exact frontier_count_ge options logits.vocabulary
  rw [whole_nucleus, Nucleus.keep_div htotal, frontier_nucleus,
    Nucleus.keep_eq_keep_iff (fun _ => hpos _) hties htop.subset hsize
      (mul_le_mul_of_nonneg_left (whole_total_le hmono hpenalty) htop_p.le), Finset.card_range]

/-- The penalty moves tokens of the frontier down, and not too many. -/
theorem whole_nucleus_subset (hpartitions : Partitions argpartition_axis)
    (hpenalty : 0 ≤ options.frequency_penalty)
    (hties : Set.InjOn (penalized_logit options generated_tokens logits)
      (Finset.range logits.vocabulary))
    (hwide : frontier_count options logits.vocabulary = logits.vocabulary ∨
      options.top_k + ((frontier_indices argpartition_axis options logits).toFinset.filter fun token =>
        penalized_logit options generated_tokens logits token ≠ logits.value token).card ≤
          frontier_count options logits.vocabulary) :
    whole_nucleus exp logits options generated_tokens ⊆
      (frontier_indices argpartition_axis options logits).toFinset := by
  have htop := @Partitions.isTop K _ _ options logits hpartitions
  intro token htoken
  obtain ⟨hrange, hrank, -⟩ := Nucleus.mem_keep.mp htoken
  rcases hwide with hall | hwide
  · rw [Finset.eq_of_subset_of_card_le htop.subset (by rw [htop.card, hall, Finset.card_range])]
    exact hrange
  · by_contra hout
    -- the tokens of the frontier without a penalty are above it
    have habove : (frontier_indices argpartition_axis options logits).toFinset.filter (fun other =>
        ¬penalized_logit options generated_tokens logits other ≠ logits.value other) ⊆
          Nucleus.above (Finset.range logits.vocabulary)
            (penalized_logit options generated_tokens logits) token := by
      intro other hother
      obtain ⟨hin, hsame⟩ := Finset.mem_filter.mp hother
      refine Nucleus.mem_above.mpr ⟨htop.subset hin, lt_of_le_of_ne ?_ fun heq => ?_⟩
      · calc penalized_logit options generated_tokens logits token
            ≤ logits.value token := penalized_logit_le hpenalty token
          _ ≤ logits.value other := htop.best token hrange hout other hin
          _ = penalized_logit options generated_tokens logits other := (not_not.mp hsame).symm
      · rw [hties hrange (htop.subset hin) heq] at hout
        exact hout hin
    have hcard := Finset.card_le_card habove
    have hsplit := Finset.card_filter_add_card_filter_not
      (s := (frontier_indices argpartition_axis options logits).toFinset)
      (fun other => penalized_logit options generated_tokens logits other ≠ logits.value other)
    rw [htop.card] at hsplit
    omega

/-- When no penalty is lost the totals agree, and the frontier only has to have the tokens. -/
theorem frontier_nucleus_eq (hpos : ∀ x, 0 < exp x) (hpartitions : Partitions argpartition_axis)
    (hvocabulary : 0 < logits.vocabulary)
    (hties : Set.InjOn (penalized_logit options generated_tokens logits)
      (Finset.range logits.vocabulary))
    (hlost : ∀ token < logits.vocabulary,
      token ∉ frontier_indices argpartition_axis options logits →
        penalized_logit options generated_tokens logits token = logits.value token)
    (hsub : whole_nucleus exp logits options generated_tokens ⊆
      (frontier_indices argpartition_axis options logits).toFinset) :
    frontier_nucleus exp argpartition_axis logits options generated_tokens =
      whole_nucleus exp logits options generated_tokens := by
  have htop := @Partitions.isTop K _ _ options logits hpartitions
  have htotal : 0 < ∑ token ∈ Finset.range logits.vocabulary,
      exp (penalized_logit options generated_tokens logits token) :=
    Finset.sum_pos (fun _ _ => hpos _) ⟨0, Finset.mem_range.mpr hvocabulary⟩
  have hsame : frontier_total exp options generated_tokens logits
      (frontier_indices argpartition_axis options logits) =
        ∑ token ∈ Finset.range logits.vocabulary,
          exp (penalized_logit options generated_tokens logits token) := by
    refine Finset.sum_congr rfl fun token htoken => congrArg exp ?_
    split
    · rfl
    · next hout => exact (hlost token (Finset.mem_range.mp htoken) hout).symm
  have hsize : min options.top_k (Finset.range logits.vocabulary).card ≤
      (frontier_indices argpartition_axis options logits).toFinset.card := by
    rw [Finset.card_range, htop.card]
    exact frontier_count_ge options logits.vocabulary
  rw [whole_nucleus, Nucleus.keep_div htotal] at hsub ⊢
  rw [frontier_nucleus, hsame]
  exact Nucleus.keep_eq_keep (fun _ => hpos _) hties htop.subset hsize hsub

/-- The cases in which no penalty is lost: without one, a vocabulary that fits, and a `top_k` that
leaves room for the window when its tokens are in the frontier. -/
theorem frontier_nucleus_eq_of_room (hpos : ∀ x, 0 < exp x)
    (hpartitions : Partitions argpartition_axis) (hvocabulary : 0 < logits.vocabulary)
    (hpenalty : 0 ≤ options.frequency_penalty)
    (hties : Set.InjOn (penalized_logit options generated_tokens logits)
      (Finset.range logits.vocabulary))
    (hroom : options.frequency_penalty = 0 ∨ logits.vocabulary ≤ 256 ∨ options.top_k ≤ 192 ∧
      ∀ token ∈ penalty_window generated_tokens, token < logits.vocabulary →
        token ∈ frontier_indices argpartition_axis options logits) :
    frontier_nucleus exp argpartition_axis logits options generated_tokens =
      whole_nucleus exp logits options generated_tokens := by
  have htop := @Partitions.isTop K _ _ options logits hpartitions
  have hfull (hcount : frontier_count options logits.vocabulary = logits.vocabulary) :
      (frontier_indices argpartition_axis options logits).toFinset =
        Finset.range logits.vocabulary :=
    Finset.eq_of_subset_of_card_le htop.subset (by rw [htop.card, hcount, Finset.card_range])
  by_cases hzero : options.frequency_penalty = 0
  -- no penalty: no logit moves
  · have hsame := @penalized_logit_eq K _ options generated_tokens logits fun h => h.1 hzero
    refine frontier_nucleus_eq hpos hpartitions hvocabulary hties (fun token _ _ => hsame token)
      (whole_nucleus_subset hpartitions hpenalty hties ?_)
    rw [Finset.filter_false_of_mem fun token _ hne => hne (hsame token), Finset.card_empty,
      frontier_count, if_pos hzero]
    omega
  · have hcount : frontier_count options logits.vocabulary =
        min (max options.top_k 256) logits.vocabulary := by
      rw [frontier_count, if_neg hzero]
    by_cases hsmall : logits.vocabulary ≤ 256
    -- the frontier is the whole vocabulary
    · have hall : frontier_count options logits.vocabulary = logits.vocabulary := by omega
      refine frontier_nucleus_eq hpos hpartitions hvocabulary hties (fun token htoken hout => ?_)
        (whole_nucleus_subset hpartitions hpenalty hties (Or.inl hall))
      refine absurd ?_ hout
      rw [← List.mem_toFinset, hfull hall]
      exact Finset.mem_range.mpr htoken
    · obtain ⟨htop_k, hwindow⟩ := (hroom.resolve_left hzero).resolve_left hsmall
      -- only tokens of the window move, at most 64, and the frontier has room for them
      have hmoved : (frontier_indices argpartition_axis options logits).toFinset.filter (fun token =>
          penalized_logit options generated_tokens logits token ≠ logits.value token) ⊆
            (penalty_window generated_tokens).toFinset := by
        intro token htoken
        rw [List.mem_toFinset]
        by_contra hout
        exact (Finset.mem_filter.mp htoken).2 (penalized_logit_of_notMem hout)
      have hcard := (Finset.card_le_card hmoved).trans ((List.toFinset_card_le _).trans
        length_penalty_window_le)
      refine frontier_nucleus_eq hpos hpartitions hvocabulary hties (fun token htoken hout => ?_)
        (whole_nucleus_subset hpartitions hpenalty hties (Or.inr (by omega)))
      exact penalized_logit_of_notMem fun hin => hout (hwindow token hin htoken)

omit [Field K] [IsStrictOrderedRing K] in
/-- `argmax_token` is a token of the highest logit. -/
theorem argmax_token_spec (hvocabulary : 0 < logits.vocabulary) :
    argmax_token logits < logits.vocabulary ∧
      ∀ token < logits.vocabulary, logits.value token ≤ logits.value (argmax_token logits) := by
  have hwalk (count : Nat) (hcount : 0 < count) :
      (List.range count).foldl (fun best token =>
          if logits.value best < logits.value token then token else best) 0 < count ∧
        ∀ token < count, logits.value token ≤ logits.value ((List.range count).foldl
          (fun best token => if logits.value best < logits.value token then token else best) 0) := by
    induction count with
    | zero => exact absurd hcount (lt_irrefl 0)
    | succ count ih =>
      rw [List.range_succ, List.foldl_append, List.foldl_cons, List.foldl_nil]
      generalize hbest : (List.range count).foldl _ 0 = best at ih
      rcases Nat.eq_zero_or_pos count with hzero | hpos
      · subst hzero
        have hbest : best = 0 := hbest.symm
        subst hbest
        rw [if_neg (lt_irrefl _)]
        refine ⟨Nat.zero_lt_succ 0, fun token htoken => ?_⟩
        rw [Nat.lt_one_iff.mp htoken]
      · obtain ⟨hlt, hle⟩ := ih hpos
        split
        · next hless =>
          refine ⟨Nat.lt_succ_self count, fun token htoken => ?_⟩
          rcases Nat.lt_succ_iff_lt_or_eq.mp htoken with h | rfl
          · exact (hle token h).trans hless.le
          · exact le_rfl
        · next hless =>
          refine ⟨Nat.lt_succ_of_lt hlt, fun token htoken => ?_⟩
          rcases Nat.lt_succ_iff_lt_or_eq.mp htoken with h | rfl
          · exact hle token h
          · exact le_of_not_gt hless
  exact hwalk logits.vocabulary hvocabulary

/-- **The candidates of a sample.** At temperature zero the choice is greedy. Otherwise the tokens
that may be returned are the nucleus of the whole vocabulary exactly when the frontier has all of it
and the weight that ended it still does when the penalties outside the frontier are left out. -/
theorem sample_token_candidates (hpos : ∀ x, 0 < exp x) (hmono : StrictMono exp)
    (hadd : ∀ a b, exp (a + b) = exp a * exp b) (hpartitions : Partitions argpartition_axis)
    (hvocabulary : 0 < logits.vocabulary) (hvalid : ¬options.Invalid)
    (hties : Set.InjOn (penalized_logit options generated_tokens logits)
      (Finset.range logits.vocabulary)) :
    (options.temperature = 0 → ∀ draw, ∃ token < logits.vocabulary,
      sample_token exp argpartition_axis logits options generated_tokens draw = .ok token ∧
        ∀ other < logits.vocabulary, logits.value other ≤ logits.value token) ∧
    (0 < options.temperature →
      (returned exp argpartition_axis logits options generated_tokens =
          whole_nucleus exp logits options generated_tokens ↔
        whole_nucleus exp logits options generated_tokens ⊆
            (frontier_indices argpartition_axis options logits).toFinset ∧
          ((whole_nucleus exp logits options generated_tokens).card =
              min options.top_k logits.vocabulary ∨
            options.top_p * frontier_total exp options generated_tokens logits
                (frontier_indices argpartition_axis options logits) ≤
              ∑ token ∈ whole_nucleus exp logits options generated_tokens,
                exp (penalized_logit options generated_tokens logits token))) ∧
      (options.frequency_penalty = 0 ∨ logits.vocabulary ≤ 256 ∨ options.top_k ≤ 192 ∧
          (∀ token ∈ penalty_window generated_tokens, token < logits.vocabulary →
            token ∈ frontier_indices argpartition_axis options logits) →
        returned exp argpartition_axis logits options generated_tokens =
          whole_nucleus exp logits options generated_tokens)) := by
  refine ⟨fun hzero draw => ?_, fun htemperature => ?_⟩
  · obtain ⟨hlt, hle⟩ := argmax_token_spec hvocabulary
    exact ⟨_, hlt, if_pos hzero.le, hle⟩
  · have htop_k : options.top_k ≠ 0 := fun h =>
      hvalid (by simp [SamplingOptions.Invalid, htemperature, h])
    have hpenalty : 0 ≤ options.frequency_penalty :=
      le_of_not_gt fun h => hvalid (by simp [SamplingOptions.Invalid, h])
    rw [returned_eq hpos hadd hpartitions htemperature htop_k hvocabulary hties, Finset.coe_inj]
    exact ⟨frontier_nucleus_eq_iff hpos hmono hpartitions hvocabulary hvalid hties,
      frontier_nucleus_eq_of_room hpos hpartitions hvocabulary hpenalty hties⟩

end Returned

/-! ### A frontier that is too small -/

section Crowded

/-- A partition of the tokens by sorting them. -/
def sorted_partition {K : Type} [LinearOrder K] : Argpartition K := fun logits _ =>
  (List.range logits.vocabulary).mergeSort fun a b => logits.value a ≤ logits.value b

theorem partitions_sorted_partition {K : Type} [LinearOrder K] :
    Partitions (sorted_partition : Argpartition K) where
  perm logits _ := List.mergeSort_perm _ _
  le := by
    intro logits kth low hlow high hhigh
    have hsort := Selection.pairwise_mergeSort logits.value (List.range logits.vocabulary)
    rw [← List.take_append_drop kth (List.mergeSort _ _)] at hsort
    exact (List.pairwise_append.mp hsort).2.2 low hlow high hhigh

/-- Two tokens, of which the second one has been said and is penalized below the first. -/
theorem sample_token_candidates_two :
    returned Real.exp sorted_partition ⟨2, fun token => token⟩
        { temperature := 1, top_k := 1, frequency_penalty := 2 } [1] =
      whole_nucleus Real.exp ⟨2, fun token => token⟩
        { temperature := 1, top_k := 1, frequency_penalty := 2 } [1] := by
  refine ((sample_token_candidates Real.exp_pos Real.exp_strictMono Real.exp_add
    partitions_sorted_partition Nat.two_pos (by decide) ?_).2 one_pos).2 (Or.inr (Or.inl (by decide)))
  have hwindow : penalty_window [1] = [1] := rfl
  intro a ha b hb hab
  have ha' : a < 2 := Finset.mem_range.mp (Finset.mem_coe.mp ha)
  have hb' : b < 2 := Finset.mem_range.mp (Finset.mem_coe.mp hb)
  interval_cases a <;> interval_cases b
  · rfl
  · norm_num [penalized_logit, hwindow] at hab
  · norm_num [penalized_logit, hwindow] at hab
  · rfl

/-- Logits that fall slowly. -/
noncomputable def falling : LogitRow ℝ := ⟨257, fun token => -(token / 1000)⟩

/-- The widest `top_k`, and a penalty. -/
def widest : SamplingOptions := { temperature := 1, top_k := 256, frequency_penalty := 2 }

theorem penalized_falling (token : Token) : penalized_logit widest [0] falling token =
    if token = 0 then -2 else -(token / 1000 : ℝ) := by
  have hwindow : penalty_window [0] = [0] := rfl
  rw [penalized_logit, hwindow]
  by_cases hzero : token = 0
  · subst hzero
    simp [widest, falling]
  · rw [if_neg hzero, List.count_eq_zero_of_not_mem (by simpa using hzero)]
    simp [falling]

theorem penalized_falling_injOn :
    Set.InjOn (penalized_logit widest [0] falling) (Finset.range falling.vocabulary) := by
  intro a ha b hb hab
  have ha' : (a : ℝ) < 257 := by exact_mod_cast Finset.mem_range.mp ha
  have hb' : (b : ℝ) < 257 := by exact_mod_cast Finset.mem_range.mp hb
  rw [penalized_falling, penalized_falling] at hab
  split at hab <;> split at hab
  · next hzero hzero' => exact hzero.trans hzero'.symm
  · linarith
  · linarith
  · have : (a : ℝ) = b := by linarith
    exact_mod_cast this

/-- The last token is not in the frontier. -/
theorem last_notMem_frontier :
    256 ∉ (frontier_indices sorted_partition widest falling).toFinset := by
  have htop := @Partitions.isTop ℝ _ _ widest falling partitions_sorted_partition
  intro hlast
  have hcount : frontier_count widest falling.vocabulary = 256 := by decide
  obtain ⟨token, htoken, hout⟩ := Finset.exists_mem_notMem_of_card_lt_card
    (show (frontier_indices sorted_partition widest falling).toFinset.card <
      (Finset.range falling.vocabulary).card by
        rw [htop.card, hcount, Finset.card_range, falling]
        decide)
  have hle : -((token : ℝ) / 1000) ≤ -(((256 : ℕ) : ℝ) / 1000) :=
    htop.best token htoken hout 256 hlast
  have hge : (256 : ℝ) ≤ token := by
    push_cast at hle
    linarith
  have hge' : 256 ≤ token := by exact_mod_cast hge
  have hlt : token < 257 := Finset.mem_range.mp htoken
  have heq : token = 256 := Nat.le_antisymm (Nat.lt_succ_iff.mp hlt) hge'
  exact hout (heq ▸ hlast)

/-- The penalty makes room for it. -/
theorem last_mem_whole_nucleus : 256 ∈ whole_nucleus Real.exp falling widest [0] := by
  -- the penalty has moved token 0 below the last one
  have hmem : (0 : Token) ∉ Nucleus.above (Finset.range falling.vocabulary)
      (penalized_logit widest [0] falling) 256 := by
    rw [Nucleus.mem_above, penalized_falling, penalized_falling, if_pos rfl, if_neg (by decide)]
    push_cast
    rintro ⟨-, hlt⟩
    linarith
  have hself : (256 : Token) ∉ Nucleus.above (Finset.range falling.vocabulary)
      (penalized_logit widest [0] falling) 256 := by simp
  have hsub : Nucleus.above (Finset.range falling.vocabulary) (penalized_logit widest [0] falling)
      256 ⊆ ((Finset.range falling.vocabulary).erase 0).erase 256 := by
    intro token htoken
    refine Finset.mem_erase.mpr ⟨?_, Finset.mem_erase.mpr ⟨?_, (Nucleus.mem_above.mp htoken).1⟩⟩
    · rintro rfl
      exact hself htoken
    · rintro rfl
      exact hmem htoken
  have hall : 256 ∈ Finset.range falling.vocabulary := by
    rw [falling]
    decide
  refine Nucleus.mem_keep.mpr ⟨hall, ?_, ?_⟩
  · have hcard := Finset.card_le_card hsub
    -- so 255 tokens are above it, and `top_k` is 256
    have herase : (((Finset.range falling.vocabulary).erase 0).erase 256).card = 255 := by
      rw [Finset.card_erase_of_mem, Finset.card_erase_of_mem, Finset.card_range]
      · rfl
      · rw [falling]
        decide
      · rw [falling]
        decide
    exact (hcard.trans herase.le).trans_lt (by decide)
  · rw [← Finset.sum_div, div_lt_iff₀
      (Finset.sum_pos (fun _ _ => Real.exp_pos _) ⟨256, hall⟩)]
    have hlt : ∑ token ∈ Nucleus.above (Finset.range falling.vocabulary)
        (penalized_logit widest [0] falling) 256, Real.exp (penalized_logit widest [0] falling token) <
          ∑ token ∈ Finset.range falling.vocabulary,
            Real.exp (penalized_logit widest [0] falling token) :=
      Finset.sum_lt_sum_of_subset (Finset.filter_subset _ _) hall hself (Real.exp_pos _)
        fun _ _ _ => (Real.exp_pos _).le
    simpa [widest] using hlt

/-- With `top_k` at its limit a token that the penalty moves down is still returned, and the one
that takes its place never is. -/
theorem returned_ne_whole_nucleus :
    ¬widest.Invalid ∧
      Set.InjOn (penalized_logit widest [0] falling) (Finset.range falling.vocabulary) ∧
        returned Real.exp sorted_partition falling widest [0] ≠
          whole_nucleus Real.exp falling widest [0] := by
  refine ⟨by decide, penalized_falling_injOn, fun heq => ?_⟩
  rw [returned_eq Real.exp_pos Real.exp_add partitions_sorted_partition one_pos (by decide)
    (show 0 < falling.vocabulary by rw [falling]; decide) penalized_falling_injOn,
    Finset.coe_inj] at heq
  have hmem := last_mem_whole_nucleus
  rw [← heq] at hmem
  exact last_notMem_frontier (Nucleus.keep_subset hmem)

end Crowded

end Qwen38
