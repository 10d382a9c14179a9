import Mathlib.Data.UInt
import Qwen38.Lib.PairMerge
import Qwen38.Token.Tokenizer

/-!
# Byte pair encoding

`Tokenizer::bpe`: the symbols of a piece, merged by the ranks of the merge rules, with a cache of
the pieces that were merged before. The loop merges all occurrences of the best pair in one pass;
the reference merges one leftmost occurrence of the lowest-ranked pair at a time
(`PairMerge.Reference`).

The rules are kept under the key `left ++ 0 :: right`. A part with a NUL in it would share its key
with another rule; the symbols of a piece have none, because no byte stands for one
(`zero_notMem_byte_piece`).

A tokenizer is shared by the threads that encode: a call looks the piece up and stores its symbols
in two critical sections, between which other calls run (`BpeRun.Step`).
-/

namespace Qwen38

namespace Token

open PairMerge (Reference mergeAll Ordered AtLeast Unranked)

/-! ### The rules -/

/-- The rules of a table by their ranks. -/
structure MergeTable where
  /-- `merge_rank_`. -/
  ranks : UnorderedMap Bytes UInt32
  rank_inj : ∀ {key key' rank}, ranks.lookup key = some rank → ranks.lookup key' = some rank →
    key = key'
  rank_lt : ∀ {key rank}, ranks.lookup key = some rank → rank < 2 ^ 32 - 1

/-- The rank of a rule: its parts are what its key is made of. -/
def rule_rank (ranks : UnorderedMap Bytes UInt32) (left right : Bytes) : Option Nat :=
  if 0 ∈ left ∨ 0 ∈ right then none else (ranks.lookup (pair_key left right)).map UInt32.toNat

section Rules

variable {buckets : UnorderedMap.BucketOrder Bytes}

/-- The ranks given so far: distinct, and below the next one. -/
structure Numbered (ranks : UnorderedMap Bytes UInt32 × UInt32) : Prop where
  rank_inj : ∀ {key key' rank}, ranks.1.lookup key = some rank → ranks.1.lookup key' = some rank →
    key = key'
  rank_lt : ∀ {key rank}, ranks.1.lookup key = some rank → rank < ranks.2

theorem Numbered.lookup_add {ranks : UnorderedMap Bytes UInt32 × UInt32} {left right key : Bytes}
    {rank : UInt32} (h : (Tokenizer.add_merge buckets ranks left right).1.lookup key = some rank) :
    ranks.1.lookup key = some rank ∨ key = pair_key left right ∧ rank = ranks.2 := by
  rw [Tokenizer.add_merge] at h
  exact UnorderedMap.lookup_of_lookup_emplace h

/-- The next rule gets a rank that no rule has. -/
theorem Numbered.add {ranks : UnorderedMap Bytes UInt32 × UInt32} (h : Numbered ranks)
    (hlt : ranks.2.toNat + 1 < 2 ^ 32) (left right : Bytes) :
    Numbered (Tokenizer.add_merge buckets ranks left right) := by
  have hnext : ranks.2 < ranks.2 + 1 := by
    rw [UInt32.lt_iff_toNat_lt, UInt32.toNat_add, UInt32.toNat_one, Nat.mod_eq_of_lt hlt]
    exact Nat.lt_succ_self _
  constructor
  · intro key key' rank hkey hkey'
    rcases Numbered.lookup_add hkey with hold | ⟨rfl, rfl⟩ <;>
      rcases Numbered.lookup_add hkey' with hold' | ⟨rfl, hrank⟩
    · exact h.rank_inj hold hold'
    · exact absurd (h.rank_lt hold) (hrank ▸ UInt32.lt_irrefl _)
    · exact absurd (h.rank_lt hold') (UInt32.lt_irrefl _)
    · rfl
  · intro key rank hkey
    rcases Numbered.lookup_add hkey with hold | ⟨-, rfl⟩
    · exact UInt32.lt_trans (h.rank_lt hold) hnext
    · exact hnext

/-- The rules, one after the other. -/
theorem Numbered.load {α : Type} {rule : α → Except String (Option (Bytes × Bytes))}
    {rules : List α} {ranks final : UnorderedMap Bytes UInt32 × UInt32} (hranks : Numbered ranks)
    (hlt : ranks.2.toNat + rules.length < 2 ^ 32)
    (h : rules.foldlM (fun ranks item => do
      match ← rule item with
      | none => .ok ranks
      | some (left, right) => .ok (Tokenizer.add_merge buckets ranks left right)) ranks = .ok final) :
    Numbered final := by
  induction rules generalizing ranks with
  | nil =>
    cases h
    exact hranks
  | cons item rules ih =>
    rw [List.foldlM_cons] at h
    obtain ⟨next, hnext, h⟩ := Except.bind_eq_ok.mp h
    obtain ⟨pair, -, hnext⟩ := Except.bind_eq_ok.mp hnext
    rw [List.length_cons] at hlt
    cases pair with
    | none =>
      cases hnext
      exact ih hranks (by omega) h
    | some pair =>
      cases hnext
      refine ih (hranks.add (by omega) pair.1 pair.2) ?_ h
      rw [Tokenizer.add_merge, UInt32.toNat_add, UInt32.toNat_one, Nat.mod_eq_of_lt (by omega)]
      omega

/-- **The tables that `load` builds** of fewer than `2 ^ 32` rules. -/
theorem MergeTable.of_load {α : Type} {rule : α → Except String (Option (Bytes × Bytes))}
    {rules : List α} {result : UnorderedMap Bytes UInt32}
    (h : Tokenizer.load_merges buckets rule rules = .ok result) (hlt : rules.length < 2 ^ 32) :
    ∃ table : MergeTable, table.ranks = result := by
  obtain ⟨final, hfinal, h⟩ := Except.bind_eq_ok.mp h
  cases h
  have hnumbered : Numbered final :=
    Numbered.load ⟨fun h => by simp at h, fun h => by simp at h⟩ (by simpa using hlt) hfinal
  refine ⟨⟨final.1, hnumbered.rank_inj, fun h => ?_⟩, rfl⟩
  have hrank := UInt32.lt_iff_toNat_lt.mp (hnumbered.rank_lt h)
  have hbound := final.2.toNat_lt
  rw [UInt32.lt_iff_toNat_lt]
  exact lt_of_lt_of_le hrank (Nat.le_of_lt_succ hbound)

end Rules

/-! ### The loop -/

/-- `split_symbols`. -/
def split_symbols (unicode : Utf8proc) (input : Bytes) : Except String (List Bytes) := do
  .ok ((← codepoints unicode input).map Codepoint.text)

section Loop

variable (ranks : UnorderedMap Bytes UInt32)

/-- The best pair so far, after the next neighbours. -/
def better (best : UInt32 × Bytes × Bytes) (left right : Bytes) : UInt32 × Bytes × Bytes :=
  match ranks.lookup (pair_key left right) with
  | some rank => if rank < best.1 then (rank, left, right) else best
  | none => best

/-- The first neighbours with the smallest rank below that of `best`, or else `best`. -/
def best_pair : UInt32 × Bytes × Bytes → List Bytes → UInt32 × Bytes × Bytes
  | best, left :: right :: symbols => best_pair (better ranks best left right) (right :: symbols)
  | best, _ => best

/-- `best_rank`, `best_left` and `best_right` after the loop over the symbols. -/
def best (symbols : List Bytes) : UInt32 × Bytes × Bytes :=
  best_pair ranks (2 ^ 32 - 1, [], []) symbols

/-- `merged`: every occurrence of the best pair in one pass. -/
def merged (best_left best_right : Bytes) (symbols : List Bytes) : List Bytes :=
  mergeAll (· ++ ·) best_left best_right symbols

variable {ranks} {start : UInt32 × Bytes × Bytes} {left right : Bytes} {rank : UInt32}

variable (ranks) in
/-- The neighbours take the place of the best pair, or it stays. -/
theorem better_cases (start : UInt32 × Bytes × Bytes) (left right : Bytes) :
    better ranks start left right = start ∨
      ∃ rank, ranks.lookup (pair_key left right) = some rank ∧
        better ranks start left right = (rank, left, right) := by
  rw [better]
  split
  next rank hrank =>
    split
    · exact .inr ⟨rank, hrank, rfl⟩
    · exact .inl rfl
  next => exact .inl rfl

theorem better_le (start : UInt32 × Bytes × Bytes) (left right : Bytes) :
    (better ranks start left right).1 ≤ start.1 := by
  rw [better]
  split
  · split
    · exact UInt32.le_of_lt ‹_›
    · exact UInt32.le_refl _
  · exact UInt32.le_refl _

theorem better_le_rank (hrank : ranks.lookup (pair_key left right) = some rank) :
    (better ranks start left right).1 ≤ rank := by
  simp only [better, hrank]
  split
  · exact UInt32.le_refl _
  · exact UInt32.not_lt.mp ‹_›

theorem best_pair_le (start : UInt32 × Bytes × Bytes) (symbols : List Bytes) :
    (best_pair ranks start symbols).1 ≤ start.1 := by
  fun_induction best_pair ranks start symbols with
  | case1 start left right symbols ih => exact UInt32.le_trans ih (better_le start left right)
  | case2 symbols start => exact UInt32.le_refl _

variable (ranks) in
/-- No neighbours rank below what a scan finds. -/
theorem isChain_best_pair (start : UInt32 × Bytes × Bytes) (symbols : List Bytes) :
    symbols.IsChain fun left right => ∀ {rank}, ranks.lookup (pair_key left right) = some rank →
      (best_pair ranks start symbols).1 ≤ rank := by
  fun_induction best_pair ranks start symbols with
  | case1 start left right symbols ih =>
    refine List.isChain_cons_cons.mpr ⟨fun hrank => ?_, ih⟩
    exact UInt32.le_trans (best_pair_le _ _) (better_le_rank hrank)
  | case2 symbols start hshort =>
    match symbols, hshort with
    | [], _ => exact .nil
    | [a], _ => exact .singleton a
    | a :: b :: symbols, hshort => exact (hshort a b symbols rfl).elim

variable (ranks) in
/-- What a scan finds is where it started or stands among the symbols. -/
theorem best_pair_cases (start : UInt32 × Bytes × Bytes) (symbols : List Bytes) :
    best_pair ranks start symbols = start ∨
      ∃ before after left right rank, symbols = before ++ left :: right :: after ∧
        ranks.lookup (pair_key left right) = some rank ∧
        best_pair ranks start symbols = (rank, left, right) := by
  fun_induction best_pair ranks start symbols with
  | case1 start left right symbols ih =>
    rcases ih with hsame | ⟨before, after, l, r, rank, hsplit, hrank, hfound⟩
    · rw [hsame]
      rcases better_cases ranks start left right with hbetter | ⟨rank, hrank, hbetter⟩
      · exact .inl hbetter
      · exact .inr ⟨[], symbols, left, right, rank, rfl, hrank, hbetter⟩
    · exact .inr ⟨left :: before, after, l, r, rank, by rw [hsplit]; rfl, hrank, hfound⟩
  | case2 symbols start => exact .inl rfl

/-- A pair that the scan found is next to each other somewhere. -/
theorem best_found {symbols : List Bytes} (h : (best ranks symbols).1 ≠ 2 ^ 32 - 1) :
    ∃ before after, symbols = before ++ (best ranks symbols).2.1 :: (best ranks symbols).2.2 :: after ∧
      ranks.lookup (pair_key (best ranks symbols).2.1 (best ranks symbols).2.2) =
        some (best ranks symbols).1 := by
  rcases best_pair_cases ranks (2 ^ 32 - 1, [], []) symbols with
    hnone | ⟨before, after, left, right, rank, hsplit, hrank, hfound⟩
  · exact absurd (congrArg Prod.fst hnone) h
  · rw [best, hfound]
    exact ⟨before, after, hsplit, hrank⟩

theorem mem_of_split {symbols before after : List Bytes}
    (h : symbols = before ++ left :: right :: after) : left ∈ symbols ∧ right ∈ symbols := by
  subst h
  exact ⟨by simp, by simp⟩

theorem length_merged_lt {symbols before after : List Bytes}
    (h : symbols = before ++ left :: right :: after) :
    (merged left right symbols).length < symbols.length := by
  subst h
  exact PairMerge.length_mergeAll_lt before after

variable (ranks) in
/-- The loop of `bpe`. -/
def merge_symbols (symbols : List Bytes) : List Bytes :=
  if symbols.length ≤ 1 then symbols
  else if _ : (best ranks symbols).1 = 2 ^ 32 - 1 then symbols
  else merge_symbols (merged (best ranks symbols).2.1 (best ranks symbols).2.2 symbols)
termination_by symbols.length
decreasing_by
  obtain ⟨before, after, hsplit, -⟩ := best_found ‹_›
  exact length_merged_lt hsplit

theorem merged_flatten (left right : Bytes) (symbols : List Bytes) :
    (merged left right symbols).flatten = symbols.flatten := by
  rw [merged]
  fun_induction mergeAll (· ++ ·) left right symbols with
  | case1 a b symbols hpair ih => simp [ih]
  | case2 a b symbols hpair ih => simpa using ih
  | case3 a => rfl
  | case4 => rfl

/-- **Merging keeps the bytes.** -/
theorem merge_symbols_flatten (symbols : List Bytes) :
    (merge_symbols ranks symbols).flatten = symbols.flatten := by
  fun_induction merge_symbols ranks symbols with
  | case1 symbols hshort => rfl
  | case2 symbols hlong hnone => rfl
  | case3 symbols hlong hsome ih => rw [ih, merged_flatten]

/-- **What holds of the symbols** and of what the rules join holds of the result. -/
theorem forall_merge_symbols {P : Bytes → Prop}
    (hjoin : ∀ left right rank, P left → P right → ranks.lookup (pair_key left right) = some rank →
      P (left ++ right))
    {symbols : List Bytes} (h : ∀ symbol ∈ symbols, P symbol) :
    ∀ symbol ∈ merge_symbols ranks symbols, P symbol := by
  fun_induction merge_symbols ranks symbols with
  | case1 symbols hshort => exact h
  | case2 symbols hlong hnone => exact h
  | case3 symbols hlong hsome ih =>
    obtain ⟨before, after, hsplit, hrank⟩ := best_found hsome
    obtain ⟨hleft, hright⟩ := mem_of_split hsplit
    refine ih fun symbol hsymbol => ?_
    rcases PairMerge.mem_mergeAll hsymbol with hold | rfl
    · exact h symbol hold
    · exact hjoin _ _ _ (h _ hleft) (h _ hright) hrank

end Loop

/-! ### The loop and the reference -/

section Reference

variable {ranks : UnorderedMap Bytes UInt32} {left right : Bytes} {symbols : List Bytes}

theorem lookup_of_rule_rank {k : Nat} (h : rule_rank ranks left right = some k) :
    ∃ rank, ranks.lookup (pair_key left right) = some rank ∧ rank.toNat = k := by
  rw [rule_rank] at h
  split at h
  · cases h
  · exact Option.map_eq_some_iff.mp h

theorem rule_rank_of_lookup {rank : UInt32} (hleft : 0 ∉ left) (hright : 0 ∉ right)
    (h : ranks.lookup (pair_key left right) = some rank) :
    rule_rank ranks left right = some rank.toNat := by
  rw [rule_rank, if_neg (not_or.mpr ⟨hleft, hright⟩), h, Option.map_some]

/-- A key without a NUL in its parts is the key of one pair. -/
theorem pair_key_inj {left' right' : Bytes} (hleft : 0 ∉ left) (hleft' : 0 ∉ left')
    (h : pair_key left right = pair_key left' right') : left = left' ∧ right = right' := by
  rcases List.append_eq_append_iff.mp h with ⟨m, rfl, hm⟩ | ⟨m, rfl, hm⟩
  · cases m with
    | nil => simpa using hm
    | cons a m =>
      obtain ⟨rfl, -⟩ := List.cons_eq_cons.mp hm
      exact absurd (List.mem_append_right left List.mem_cons_self) hleft'
  · cases m with
    | nil => simpa [eq_comm] using hm
    | cons a m =>
      obtain ⟨rfl, -⟩ := List.cons_eq_cons.mp hm
      exact absurd (List.mem_append_right left' List.mem_cons_self) hleft

theorem MergeTable.distinct (table : MergeTable) : PairMerge.Distinct (rule_rank table.ranks) := by
  intro a b l r k hab hlr
  obtain ⟨rank, hrank, rfl⟩ := lookup_of_rule_rank hab
  obtain ⟨rank', hrank', heq⟩ := lookup_of_rule_rank hlr
  obtain rfl := UInt32.toNat_inj.mp heq
  have hkey := table.rank_inj hrank hrank'
  refine pair_key_inj ?_ ?_ hkey
  · intro h
    rw [rule_rank, if_pos (.inl h)] at hab
    cases hab
  · intro h
    rw [rule_rank, if_pos (.inl h)] at hlr
    cases hlr

variable (ranks) in
theorem atLeast_best (symbols : List Bytes) :
    AtLeast (rule_rank ranks) (best ranks symbols).1.toNat symbols := by
  refine (isChain_best_pair ranks (2 ^ 32 - 1, [], []) symbols).imp ?_
  intro left right hle k hk
  obtain ⟨rank, hrank, rfl⟩ := lookup_of_rule_rank hk
  exact UInt32.le_iff_toNat_le.mp (hle hrank)

/-- The scan finds nothing: no rule applies. -/
theorem MergeTable.unranked (table : MergeTable)
    (h : (best table.ranks symbols).1 = 2 ^ 32 - 1) : Unranked (rule_rank table.ranks) symbols := by
  refine (atLeast_best table.ranks symbols).imp ?_
  intro left right hle
  rw [Option.eq_none_iff_forall_ne_some]
  intro k hk
  obtain ⟨rank, hrank, rfl⟩ := lookup_of_rule_rank hk
  have hlt := UInt32.lt_iff_toNat_lt.mp (table.rank_lt hrank)
  have hge := hle hk
  rw [h] at hge
  omega

/-- **The loop computes the reference.** -/
theorem merge_symbols_reference (table : MergeTable)
    (hordered : Ordered (rule_rank table.ranks) (· ++ ·)) (hnul : 0 ∉ symbols.flatten) :
    Reference (rule_rank table.ranks) (· ++ ·) symbols (merge_symbols table.ranks symbols) := by
  fun_induction merge_symbols table.ranks symbols with
  | case1 symbols hshort =>
    refine Unranked.reference ?_
    match symbols, hshort with
    | [], _ => exact .nil
    | [a], _ => exact .singleton a
  | case2 symbols hlong hnone => exact (table.unranked hnone).reference
  | case3 symbols hlong hsome ih =>
    obtain ⟨before, after, hsplit, hrank⟩ := best_found hsome
    have hmem : ∀ symbol ∈ symbols, 0 ∉ symbol := fun symbol hsymbol h0 =>
      hnul (List.mem_flatten.mpr ⟨symbol, hsymbol, h0⟩)
    obtain ⟨hleft, hright⟩ := mem_of_split hsplit
    have hrule := rule_rank_of_lookup (hmem _ hleft) (hmem _ hright) hrank
    refine .head (PairMerge.reaches_mergeAll hordered hrule (atLeast_best _ symbols)) (ih ?_)
    exact (merged_flatten _ _ symbols).symm ▸ hnul

end Reference

/-! ### The pieces -/

section Pieces

variable {unicode : Utf8proc}

theorem split_symbols_flatten {input : Bytes} {symbols : List Bytes}
    (h : split_symbols unicode input = .ok symbols) : symbols.flatten = input := by
  obtain ⟨cps, hcps, h⟩ := Except.bind_eq_ok.mp h
  cases h
  exact codepoints_flatten hcps

/-- `byte_piece` of a piece of text. -/
def byte_piece (piece : Bytes) : Bytes := piece.flatMap byte_to_symbol

theorem toUInt8_ne_zero {value : Nat} (hpos : 0 < value) (hlt : value < 256) :
    (0 : UInt8) ≠ value.toUInt8 := by
  intro h
  have hvalue := congrArg UInt8.toNat h
  rw [Nat.toUInt8_eq, UInt8.toNat_ofNat_of_lt' hlt] at hvalue
  exact hpos.ne hvalue

theorem zero_notMem_utf8 {value : Nat} (hpos : 0 < value) (hlt : value < 0x800) :
    0 ∉ utf8 value := by
  rw [utf8, Json.utf8_of_codepoint]
  split
  · exact mt List.mem_singleton.mp (toUInt8_ne_zero hpos (by omega))
  · rw [if_pos (by omega)]
    refine List.not_mem_cons_of_ne_of_not_mem (toUInt8_ne_zero (by omega) (by omega)) ?_
    exact mt List.mem_singleton.mp (toUInt8_ne_zero (by omega) (by omega))

theorem symbol_pos (byte : UInt8) : 0 < symbol byte := by
  rw [symbol]
  split
  next hdirect =>
    simp only [direct, Bool.or_eq_true, Bool.and_eq_true, decide_eq_true_eq] at hdirect
    omega
  next => omega

theorem symbol_lt (byte : UInt8) : symbol byte < 512 := by
  have hbyte := byte.toNat_lt
  rw [symbol]
  split
  · omega
  · have hcount := List.countP_le_length (p := fun value => !direct value)
      (l := List.range byte.toNat)
    rw [List.length_range] at hcount
    omega

/-- **No byte stands for a NUL.** -/
theorem zero_notMem_byte_piece (piece : Bytes) : 0 ∉ byte_piece piece := by
  intro h
  obtain ⟨byte, -, hmem⟩ := List.mem_flatMap.mp h
  have hlt := symbol_lt byte
  exact zero_notMem_utf8 (symbol_pos byte) (by omega) hmem

end Pieces

/-! ### The cache -/

section Cache

variable (buckets : UnorderedMap.BucketOrder Bytes) (unicode : Utf8proc)
  (ranks : UnorderedMap Bytes UInt32)

/-- What `bpe` computes of a piece that is not in the cache. -/
def bpe_symbols (piece : Bytes) : Except String (List Bytes) := do
  .ok (merge_symbols ranks (← split_symbols unicode piece))

/-- `bpe_cache_` with the symbols of a piece, when there is room. -/
def store (cache : UnorderedMap Bytes (List Bytes)) (piece : Bytes) (symbols : List Bytes) :
    UnorderedMap Bytes (List Bytes) :=
  if UnorderedMap.size cache < 65536 then UnorderedMap.emplace buckets cache piece symbols
  else cache

/-- `Tokenizer::bpe`. -/
def bpe (cache : UnorderedMap Bytes (List Bytes)) (piece : Bytes) :
    Except String (List Bytes) × UnorderedMap Bytes (List Bytes) :=
  match cache.lookup piece with
  | some symbols => (.ok symbols, cache)
  | none =>
    match bpe_symbols unicode ranks piece with
    | .ok symbols => (.ok symbols, store buckets cache piece symbols)
    | .error message => (.error message, cache)

/-- The calls of all threads: the cache, the pieces being merged outside of the critical
sections, and what has been returned for which piece. -/
structure BpeRun where
  cache : UnorderedMap Bytes (List Bytes)
  merging : List Bytes
  returned : List (Bytes × Except String (List Bytes))

namespace BpeRun

/-- A critical section of a call, or its end. -/
inductive Step : BpeRun → BpeRun → Prop
  /-- The piece is in the cache. -/
  | cached {run piece symbols} (h : run.cache.lookup piece = some symbols) :
    Step run { run with returned := (piece, .ok symbols) :: run.returned }
  /-- The piece is not in the cache. -/
  | missed {run piece} (h : run.cache.lookup piece = none) :
    Step run { run with merging := piece :: run.merging }
  /-- The symbols are stored and returned. -/
  | stored {run piece symbols} (hmerging : piece ∈ run.merging)
      (h : bpe_symbols unicode ranks piece = .ok symbols) :
    Step run
      { cache := store buckets run.cache piece symbols
        merging := run.merging.erase piece
        returned := (piece, .ok symbols) :: run.returned }
  /-- The piece is not UTF-8. -/
  | thrown {run piece message} (hmerging : piece ∈ run.merging)
      (h : bpe_symbols unicode ranks piece = .error message) :
    Step run
      { run with
        merging := run.merging.erase piece
        returned := (piece, .error message) :: run.returned }

/-- A run of a tokenizer, whose cache is empty after `load`. -/
def Reachable (run : BpeRun) : Prop :=
  Relation.ReflTransGen (Step buckets unicode ranks) ⟨∅, [], []⟩ run

variable {buckets unicode ranks} {run run' : BpeRun}

/-- A call that nothing interrupts. -/
theorem reaches_bpe (run : BpeRun) (piece : Bytes) :
    Relation.ReflTransGen (Step buckets unicode ranks) run
      { run with
        cache := (bpe buckets unicode ranks run.cache piece).2
        returned := (piece, (bpe buckets unicode ranks run.cache piece).1) :: run.returned } := by
  rw [bpe]
  split
  next symbols hcached => exact .single (.cached hcached)
  next hmissed =>
    refine .head (.missed hmissed) ?_
    split
    next symbols hsymbols =>
      have hstored := @Step.stored buckets unicode ranks
        { run with merging := piece :: run.merging } piece symbols List.mem_cons_self hsymbols
      rw [List.erase_cons_head] at hstored
      exact .single hstored
    next message hmessage =>
      have hthrown := @Step.thrown buckets unicode ranks
        { run with merging := piece :: run.merging } piece message List.mem_cons_self hmessage
      rw [List.erase_cons_head] at hthrown
      exact .single hthrown

/-- The cache and what was returned are what merging computes. -/
structure Faithful (unicode : Utf8proc) (ranks : UnorderedMap Bytes UInt32) (run : BpeRun) : Prop where
  cached : ∀ {piece symbols}, run.cache.lookup piece = some symbols →
    bpe_symbols unicode ranks piece = .ok symbols
  returned : ∀ call ∈ run.returned, call.2 = bpe_symbols unicode ranks call.1

theorem lookup_store {cache : UnorderedMap Bytes (List Bytes)} {piece piece' : Bytes}
    {symbols symbols' : List Bytes}
    (h : (store buckets cache piece symbols).lookup piece' = some symbols') :
    cache.lookup piece' = some symbols' ∨ piece' = piece ∧ symbols' = symbols := by
  rw [store] at h
  split at h
  · exact UnorderedMap.lookup_of_lookup_emplace h
  · exact .inl h

theorem Faithful.step (hrun : Faithful unicode ranks run)
    (h : Step buckets unicode ranks run run') : Faithful unicode ranks run' := by
  cases h with
  | cached h =>
    refine ⟨hrun.cached, List.forall_mem_cons.mpr ⟨?_, hrun.returned⟩⟩
    exact (hrun.cached h).symm
  | missed h => exact ⟨hrun.cached, hrun.returned⟩
  | stored hmerging h =>
    refine ⟨fun hlookup => ?_, List.forall_mem_cons.mpr ⟨h.symm, hrun.returned⟩⟩
    rcases lookup_store hlookup with hold | ⟨rfl, rfl⟩
    · exact hrun.cached hold
    · exact h
  | thrown hmerging h =>
    exact ⟨hrun.cached, List.forall_mem_cons.mpr ⟨h.symm, hrun.returned⟩⟩

theorem Reachable.faithful (h : Reachable buckets unicode ranks run) :
    Faithful unicode ranks run := by
  induction h with
  | refl => exact ⟨fun h => by simp at h, List.forall_mem_nil _⟩
  | tail _ hstep ih => exact ih.step hstep

/-- What a call returns that finds this cache. -/
theorem Reachable.bpe_eq (h : Reachable buckets unicode ranks run) (piece : Bytes) :
    (bpe buckets unicode ranks run.cache piece).1 = bpe_symbols unicode ranks piece := by
  rw [bpe]
  split
  · next symbols hcached => exact (h.faithful.cached hcached).symm
  · next =>
    split
    · next symbols hsymbols => exact hsymbols.symm
    · next message hmessage => exact hmessage.symm

end BpeRun

/-- **Whatever calls ran before and run beside it, a call of `bpe` returns the symbols of the
reference, whose bytes are the piece; it fails for a piece that is not UTF-8 only.** -/
theorem bpe_returns_reference (table : MergeTable)
    (hordered : Ordered (rule_rank table.ranks) (· ++ ·)) {run : BpeRun}
    (hrun : BpeRun.Reachable buckets unicode table.ranks run) {piece : Bytes}
    {result : Except String (List Bytes)} (hcall : (piece, result) ∈ run.returned)
    (hnul : 0 ∉ piece) :
    match split_symbols unicode piece with
    | .error message => result = .error message
    | .ok symbols => ∃ output, result = .ok output ∧ output.flatten = piece ∧
      ∀ reference, Reference (rule_rank table.ranks) (· ++ ·) symbols reference ↔
        reference = output := by
  have hresult : result = bpe_symbols unicode table.ranks piece := hrun.faithful.returned _ hcall
  subst hresult
  split
  next message hsplit => rw [bpe_symbols, hsplit, Except.error_bind]
  next symbols hsplit =>
    have hflatten := split_symbols_flatten hsplit
    have hreference := merge_symbols_reference table hordered (hflatten.symm ▸ hnul)
    refine ⟨merge_symbols table.ranks symbols, ?_, ?_, fun reference => ⟨fun h => ?_, ?_⟩⟩
    · rw [bpe_symbols, hsplit, Except.ok_bind]
    · rw [merge_symbols_flatten, hflatten]
    · exact h.unique table.distinct hreference
    · rintro rfl
      exact hreference

/-- `utf8proc` on ASCII texts. -/
def Utf8proc.ascii : Utf8proc where
  iterate
    | byte :: _ => if byte < 0x80 then some (byte.toNat, 1) else none
    | [] => none
  category value :=
    if 65 ≤ value ∧ value ≤ 90 then .lu
    else if 97 ≤ value ∧ value ≤ 122 then .ll
    else if 48 ≤ value ∧ value ≤ 57 then .nd
    else if value = 32 then .zs
    else if value < 32 ∨ value = 127 then .cc
    else .po
  compose := .ok
  size_pos {input value size} h := by
    match input, h with
    | byte :: _, h =>
      obtain ⟨-, h⟩ := Option.ite_none_right_eq_some.mp h
      exact (Prod.mk.inj (Option.some.inj h)).2 ▸ Nat.one_pos
  size_le {input value size} h := by
    match input, h with
    | byte :: _, h =>
      obtain ⟨-, h⟩ := Option.ite_none_right_eq_some.mp h
      exact (Prod.mk.inj (Option.some.inj h)).2 ▸ Nat.le_add_left 1 _

end Cache

/-- One rule, that merges two letters `a`. -/
def double_a : MergeTable :=
  have h : Numbered (Tokenizer.add_merge (.newestFirst _) (∅, 0) [97] [97]) :=
    Numbered.add ⟨fun h => by simp at h, fun h => by simp at h⟩ (by decide) [97] [97]
  ⟨(Tokenizer.add_merge (.newestFirst _) (∅, 0) [97] [97]).1, h.rank_inj,
    fun hrank => UInt32.lt_trans (h.rank_lt hrank) (by decide)⟩

theorem eq_of_rule_rank_double_a {left right : Bytes} {k : Nat}
    (h : rule_rank double_a.ranks left right = some k) : left = [97] ∧ right = [97] := by
  have hleft : 0 ∉ left := by
    intro h0
    rw [rule_rank, if_pos (.inl h0)] at h
    cases h
  obtain ⟨rank, hrank, -⟩ := lookup_of_rule_rank h
  rcases Numbered.lookup_add hrank with hold | ⟨hkey, -⟩
  · simp at hold
  · exact pair_key_inj hleft (by decide) hkey

theorem ordered_double_a : Ordered (rule_rank double_a.ranks) (· ++ ·) := by
  intro a b l r k k' hab hlr hjoin
  obtain ⟨rfl, rfl⟩ := eq_of_rule_rank_double_a hab
  obtain ⟨rfl, rfl⟩ := eq_of_rule_rank_double_a hlr
  rcases hjoin with hjoin | hjoin <;> exact absurd hjoin (by decide)

theorem bpe_returns_reference_aaa :
    match split_symbols .ascii [97, 97, 97] with
    | .error message =>
      (bpe (.newestFirst _) .ascii double_a.ranks ∅ [97, 97, 97]).1 = .error message
    | .ok symbols => ∃ output,
      (bpe (.newestFirst _) .ascii double_a.ranks ∅ [97, 97, 97]).1 = .ok output ∧
        output.flatten = [97, 97, 97] ∧
        ∀ reference, Reference (rule_rank double_a.ranks) (· ++ ·) symbols reference ↔
          reference = output :=
  bpe_returns_reference _ _ double_a ordered_double_a (BpeRun.reaches_bpe ⟨∅, [], []⟩ [97, 97, 97])
    List.mem_cons_self (by decide)

end Token

end Qwen38
