import Qwen38.Lib.Loop
import Qwen38.Token.Tokenizer

/-!
# Splitting a text at the added tokens

The loop of `Tokenizer::encode`. It looks through the map of added tokens for the leftmost
occurrence in the rest of the text, the longest one there, encodes what stands before it, and
goes on behind it. Whatever the order of the map, it takes the same token
(`Qwen38.AddedTokens.find_special_eq`).

Behind an empty token the loop goes on where it was. `load` accepts one, and then the loop comes
to an end only on a text of nothing but added tokens
(`Qwen38.AddedTokens.encode_canonical_iff`).
-/

namespace Qwen38

namespace Token

namespace AddedTokens

/-- The map of the added tokens, `special_to_id_`. -/
abbrev Specials := UnorderedMap Bytes UInt32

/-! ### The loop -/

/-- `found < special_at`, for positions with `npos` behind all others. -/
def before (found special_at : Option Nat) : Bool :=
  match found, special_at with
  | some i, some j => i < j
  | some _, none => true
  | none, _ => false

/-- One turn of the search: `special_at` and `special` after a candidate. -/
def next_special (rest : Bytes) (best : Option Nat × Option Bytes) (candidate : Bytes) :
    Option Nat × Option Bytes :=
  let found := Search.find candidate rest
  if before found best.1 ∨ (found = best.1 ∧ ∃ special ∈ best.2, special.length < candidate.length) then
    (found, some candidate)
  else best

/-- The search through the map. -/
def find_special (specials : Specials) (rest : Bytes) : Option Nat × Option Bytes :=
  specials.keys.foldl (next_special rest) (none, none)

/-- The variables of `encode`: the text from `cursor` on, and `output`. -/
structure EncodeState where
  rest : Bytes
  output : List UInt32

section Encode

variable (encode_ordinary : Bytes → Except String (List UInt32)) (specials : Specials)

/-- `cursor < text.size()`. -/
def encode_guard (s : EncodeState) : Bool := decide (s.rest ≠ [])

/-- The body of the loop. -/
def encode_body (s : EncodeState) : Except String (Loop.Pass EncodeState) :=
  match find_special specials s.rest with
  | (some special_at, some special) => do
    let ordinary ← if 0 < special_at then encode_ordinary (s.rest.take special_at) else .ok []
    .ok (.next ⟨s.rest.drop (special_at + special.length),
      s.output ++ ordinary ++ [(specials.lookup special).getD 0]⟩)
  | _ => do
    let ordinary ← encode_ordinary s.rest
    .ok (.leave ⟨s.rest, s.output ++ ordinary⟩)

/-- `Tokenizer::encode` returns `r`, or throws it. -/
def Encodes (recognize_special_tokens : Bool) (text : Bytes) (r : Except String (List UInt32)) :
    Prop :=
  if recognize_special_tokens = false ∨ specials.keys = [] then r = encode_ordinary text
  else ∃ s, Loop.Returns encode_guard (encode_body encode_ordinary specials) ⟨text, []⟩ s ∧
    r = s.map EncodeState.output

end Encode

/-! ### What the loop should do -/

/-- A part of the text. -/
inductive Segment
  | ordinary (text : Bytes)
  | added (token : Bytes)

def Segment.text : Segment → Bytes
  | .ordinary text => text
  | .added token => token

/-- The text before a token, when there is some. -/
def ordinary_before (text : Bytes) : List Segment := if text = [] then [] else [.ordinary text]

/-- The token that is taken: it comes first, and no longer one stands there. -/
structure Taken (specials : Specials) (rest before token behind : Bytes) : Prop where
  eq : rest = before ++ (token ++ behind)
  mem : token ∈ specials
  first : ∀ other ∈ specials, ∀ j < before.length, ¬other <+: rest.drop j
  longest : ∀ other ∈ specials, other <+: token ++ behind → other.length ≤ token.length

/-- The segments of a text, token by token. -/
inductive Splits (specials : Specials) : Bytes → List Segment → Prop
  | nil : Splits specials [] []
  | ordinary {rest : Bytes} (hne : rest ≠ [])
      (h : ∀ other ∈ specials, ¬other <:+: rest) : Splits specials rest [.ordinary rest]
  | added {rest before token behind : Bytes} {segments : List Segment} (hne : rest ≠ [])
      (h : Taken specials rest before token behind) (hbehind : Splits specials behind segments) :
    Splits specials rest (ordinary_before before ++ .added token :: segments)

/-- The IDs of the segments, each once and in order. -/
def emit (encode_ordinary : Bytes → Except String (List UInt32)) (specials : Specials) :
    List Segment → List UInt32 → Except String (List UInt32)
  | [], output => .ok output
  | .ordinary text :: segments, output => do
    let ordinary ← encode_ordinary text
    emit encode_ordinary specials segments (output ++ ordinary)
  | .added token :: segments, output =>
    emit encode_ordinary specials segments (output ++ [(specials.lookup token).getD 0])

/-- Nothing but added tokens, none of them empty: the longest, again and again. -/
inductive Covered (specials : Specials) : Bytes → Prop
  | nil : Covered specials []
  | cons {token behind : Bytes} (hne : token ≠ []) (hmem : token ∈ specials)
      (hlongest : ∀ other ∈ specials, other <+: token ++ behind → other.length ≤ token.length)
      (h : Covered specials behind) : Covered specials (token ++ behind)

/-- **What is claimed of the loop**: it comes to an end, with the IDs of the segments of the text,
whichever way the map is ordered. -/
def Canonical (encode_ordinary : Bytes → Except String (List UInt32)) (specials : Specials)
    (text : Bytes) : Prop :=
  ∃ segments, Splits specials text segments ∧ (segments.map Segment.text).flatten = text ∧
    ∀ specials' : Specials, specials'.entries.Perm specials.entries →
      Encodes encode_ordinary specials' true text (emit encode_ordinary specials segments [])

/-! ### The search -/

/-- What is found: nothing, when no token occurs, or the token that is taken. -/
inductive Best (rest : Bytes) (candidates : List Bytes) : Option Nat × Option Bytes → Prop
  | none (h : ∀ other ∈ candidates, Search.find other rest = none) :
    Best rest candidates (none, none)
  | some {i : Nat} {token : Bytes} (hmem : token ∈ candidates)
      (hfind : Search.find token rest = some i)
      (hbest : ∀ other ∈ candidates, ∀ j, Search.find other rest = some j →
        i < j ∨ i = j ∧ other.length ≤ token.length) : Best rest candidates (some i, some token)

theorem Best.next {rest : Bytes} {candidates : List Bytes} {best : Option Nat × Option Bytes}
    (h : Best rest candidates best) (candidate : Bytes) :
    Best rest (candidates ++ [candidate]) (next_special rest best candidate) := by
  rw [next_special]
  rcases hfound : Search.find candidate rest with _ | i
  · -- it does not occur
    cases h with
    | none h =>
      rw [if_neg (by simp [before])]
      exact .none (List.forall_mem_append.mpr ⟨h, List.forall_mem_singleton.mpr hfound⟩)
    | @some k token hmem hfind hbest =>
      rw [if_neg (by simp [before])]
      refine .some (List.mem_append_left _ hmem) hfind (List.forall_mem_append.mpr ⟨hbest, ?_⟩)
      rw [List.forall_mem_singleton, hfound]
      intro j hj
      cases hj
  · cases h with
    | none h =>
      have hbefore : before (Option.some i) Option.none = true := rfl
      rw [if_pos (Or.inl hbefore)]
      refine .some List.mem_concat_self hfound (List.forall_mem_append.mpr ⟨?_, ?_⟩)
      · intro other hother j hj
        rw [h other hother] at hj
        cases hj
      · rw [List.forall_mem_singleton, hfound]
        rintro j ⟨⟩
        exact Or.inr ⟨rfl, le_refl _⟩
    | @some k token hmem hfind hbest =>
      by_cases hbetter : i < k ∨ i = k ∧ token.length < candidate.length
      · rw [if_pos (by simpa [before] using hbetter)]
        refine .some List.mem_concat_self hfound (List.forall_mem_append.mpr ⟨?_, ?_⟩)
        · intro other hother j hj
          have hother := hbest other hother j hj
          omega
        · rw [List.forall_mem_singleton, hfound]
          rintro j ⟨⟩
          exact Or.inr ⟨rfl, le_refl _⟩
      · rw [if_neg (by simpa [before] using hbetter)]
        refine .some (List.mem_append_left _ hmem) hfind (List.forall_mem_append.mpr ⟨hbest, ?_⟩)
        rw [List.forall_mem_singleton, hfound]
        rintro j ⟨⟩
        omega

theorem best_find_special (specials : Specials) (rest : Bytes) :
    Best rest specials.keys (find_special specials rest) := by
  have hfold : ∀ candidates best seen, Best rest seen best →
      Best rest (seen ++ candidates) (candidates.foldl (next_special rest) best) := by
    intro candidates
    induction candidates with
    | nil =>
      intro best seen h
      rwa [List.append_nil]
    | cons candidate candidates ih =>
      intro best seen h
      rw [← List.singleton_append, ← List.append_assoc, List.singleton_append, List.foldl_cons]
      exact ih _ _ (h.next candidate)
  exact hfold specials.keys (none, none) [] (.none (List.forall_mem_nil _))

section Search

variable {specials : Specials} {rest : Bytes}

theorem mem_keys {token : Bytes} : token ∈ specials.keys ↔ token ∈ specials := Iff.rfl

/-- Nothing is found when no token occurs. -/
theorem find_special_of_none (h : ∀ other ∈ specials, ¬other <:+: rest) :
    find_special specials rest = (none, none) := by
  have hbest := best_find_special specials rest
  generalize find_special specials rest = best at hbest
  cases hbest with
  | none => rfl
  | some hmem hfind =>
    rw [Search.find_eq_none_iff_not_isInfix.mpr (h _ (mem_keys.mp hmem))] at hfind
    cases hfind

/-- **The token that is taken is the one that is found**, in whatever order the map is gone through:
the leftmost one, and among those that start there the longest. -/
theorem find_special_eq {front token behind : Bytes} (h : Taken specials rest front token behind) :
    find_special specials rest = (some front.length, some token) := by
  have hlength : front.length ≤ rest.length := by
    rw [h.eq, List.length_append]
    exact Nat.le_add_right _ _
  have hdrop : rest.drop front.length = token ++ behind := by
    rw [h.eq, List.drop_left]
  have htoken : token <+: rest.drop front.length := hdrop ▸ List.prefix_append _ _
  obtain ⟨j, hj, hjle⟩ := Search.exists_find hlength htoken
  have hbest := best_find_special specials rest
  generalize find_special specials rest = best at hbest
  cases hbest with
  | none hnone =>
    rw [hnone token (mem_keys.mpr h.mem)] at hj
    cases hj
  | @some i found hmem hfind hbest =>
    have hfound := Search.prefix_of_find hfind
    have hge : front.length ≤ i := by
      by_contra hlt
      exact h.first found (mem_keys.mp hmem) i (Nat.lt_of_not_le hlt) hfound
    have hle := hbest token (mem_keys.mpr h.mem) j hj
    obtain rfl : i = front.length := by omega
    rw [hdrop] at hfound htoken
    have hlong := h.longest found (mem_keys.mp hmem) hfound
    have hsame : found.length = token.length := by omega
    rw [List.IsPrefix.eq_of_length (List.prefix_of_prefix_length_le hfound htoken hsame.le) hsame]

/-- A token is found and taken, or none occurs. -/
theorem taken_or_none (specials : Specials) (rest : Bytes) :
    (∃ front token behind, Taken specials rest front token behind) ∨
      ∀ other ∈ specials, ¬other <:+: rest := by
  have hbest := best_find_special specials rest
  generalize find_special specials rest = best at hbest
  cases hbest with
  | none h =>
    exact Or.inr fun other hother => Search.find_eq_none_iff_not_isInfix.mp (h other hother)
  | @some i token hmem hfind hbest =>
    have heq := Search.eq_of_find hfind
    have hdrop : rest.drop i = token ++ rest.drop (i + token.length) := by
      have hbound := Search.find_bound hfind
      conv_lhs => rw [heq]
      rw [List.append_assoc, List.drop_left' (by rw [List.length_take]; omega)]
    refine Or.inl ⟨rest.take i, token, rest.drop (i + token.length), ?_, hmem, ?_, ?_⟩
    · rw [← List.append_assoc]
      exact heq
    · intro other hother j hj hocc
      rw [List.length_take] at hj
      obtain ⟨k, hk, hle⟩ := Search.exists_find (by omega) hocc
      have hother := hbest other hother k hk
      omega
    · intro other hother hocc
      rw [← hdrop] at hocc
      have hbound := Search.find_bound hfind
      obtain ⟨k, hk, hle⟩ := Search.exists_find (by omega) hocc
      have hother := hbest other hother k hk
      omega

end Search

/-! ### The run -/

section Run

variable {encode_ordinary : Bytes → Except String (List UInt32)} {specials specials' : Specials}
variable {text rest : Bytes} {segments : List Segment}

theorem Taken.congr (hmem : ∀ token, token ∈ specials' ↔ token ∈ specials) {front token behind : Bytes}
    (h : Taken specials rest front token behind) : Taken specials' rest front token behind where
  eq := h.eq
  mem := (hmem token).mpr h.mem
  first := fun other hother => h.first other ((hmem other).mp hother)
  longest := fun other hother => h.longest other ((hmem other).mp hother)

variable (encode_ordinary) in
theorem encode_body_of_taken {front token behind : Bytes}
    (h : Taken specials rest front token behind) (output : List UInt32) :
    encode_body encode_ordinary specials ⟨rest, output⟩ = (do
      let ordinary ← if 0 < front.length then encode_ordinary front else .ok []
      .ok (.next ⟨behind, output ++ ordinary ++ [(specials.lookup token).getD 0]⟩)) := by
  have htake : rest.take front.length = front := by rw [h.eq, List.take_left]
  have hdrop : rest.drop (front.length + token.length) = behind := by
    rw [h.eq, ← List.drop_drop, List.drop_left, List.drop_left]
  rw [encode_body, find_special_eq h]
  dsimp only
  rw [htake, hdrop]

variable (encode_ordinary) in
theorem encode_body_of_none (h : ∀ other ∈ specials, ¬other <:+: rest) (output : List UInt32) :
    encode_body encode_ordinary specials ⟨rest, output⟩ = (do
      let ordinary ← encode_ordinary rest
      .ok (.leave ⟨rest, output ++ ordinary⟩)) := by
  rw [encode_body, find_special_of_none h]

variable (encode_ordinary) in
/-- **The segments are what the loop emits.** -/
theorem Splits.returns (h : Splits specials text segments)
    (hperm : specials'.entries.Perm specials.entries) (output : List UInt32) :
    ∃ s, Loop.Returns encode_guard (encode_body encode_ordinary specials') ⟨text, output⟩ s ∧
      emit encode_ordinary specials segments output = s.map EncodeState.output := by
  have hmem : ∀ token, token ∈ specials' ↔ token ∈ specials := fun _ => AList.mem_of_perm hperm
  induction h generalizing output with
  | nil => exact ⟨_, .guard rfl, rfl⟩
  | @ordinary rest hne hnone =>
    have hguard : encode_guard ⟨rest, output⟩ = true := decide_eq_true hne
    have hbody := encode_body_of_none encode_ordinary
      (fun other hother => hnone other ((hmem other).mp hother)) output
    rcases hordinary : encode_ordinary rest with e | ordinary
    · rw [hordinary] at hbody
      refine ⟨_, .throw hguard hbody, ?_⟩
      rw [emit, hordinary]
      rfl
    · rw [hordinary] at hbody
      refine ⟨_, .leave hguard hbody, ?_⟩
      rw [emit, hordinary]
      rfl
  | @added rest front token behind segments hne htaken _ ih =>
    have hguard : encode_guard ⟨rest, output⟩ = true := decide_eq_true hne
    have hbody := encode_body_of_taken encode_ordinary (htaken.congr hmem) output
    rw [AList.perm_lookup hperm] at hbody
    rcases eq_or_ne front [] with rfl | hfront
    · rw [List.length_nil, if_neg (Nat.lt_irrefl 0), Except.ok_bind] at hbody
      dsimp only at hbody
      rw [List.append_nil] at hbody
      obtain ⟨s, hreturns, hemit⟩ := ih (output ++ [(specials.lookup token).getD 0])
      exact ⟨s, .next hguard hbody hreturns, hemit⟩
    · rw [if_pos (List.length_pos_iff.mpr hfront)] at hbody
      rw [ordinary_before, if_neg hfront, List.singleton_append, emit]
      rcases hordinary : encode_ordinary front with e | ordinary
      · rw [hordinary] at hbody
        exact ⟨_, .throw hguard hbody, rfl⟩
      · rw [hordinary] at hbody
        obtain ⟨s, hreturns, hemit⟩ :=
          ih (output ++ ordinary ++ [(specials.lookup token).getD 0])
        exact ⟨s, .next hguard hbody hreturns, hemit⟩

theorem flatten_ordinary_before (front : Bytes) :
    ((ordinary_before front).map Segment.text).flatten = front := by
  rw [ordinary_before]
  split
  next h => exact h.symm
  next => exact List.append_nil front

/-- **The segments are the text.** -/
theorem Splits.flatten (h : Splits specials text segments) :
    (segments.map Segment.text).flatten = text := by
  induction h with
  | nil => rfl
  | ordinary => exact List.append_nil _
  | added hne htaken _ ih =>
    rw [List.map_append, List.flatten_append, flatten_ordinary_before, List.map_cons,
      List.flatten_cons, ih, htaken.eq]
    rfl

/-- A text that is split in two ways is split in one. -/
theorem Splits.unique {segments' : List Segment} (h : Splits specials text segments)
    (h' : Splits specials text segments') : segments = segments' := by
  induction h generalizing segments' with
  | nil =>
    cases h' with
    | nil => rfl
    | ordinary hne => exact absurd rfl hne
    | added hne => exact absurd rfl hne
  | @ordinary rest hne hnone =>
    cases h' with
    | nil => exact absurd rfl hne
    | ordinary => rfl
    | added _ htaken =>
      refine absurd ?_ (hnone _ htaken.mem)
      exact ⟨_, _, by rw [List.append_assoc, ← htaken.eq]⟩
  | @added rest front token behind segments hne htaken _ ih =>
    cases h' with
    | nil => exact absurd rfl hne
    | ordinary _ hnone =>
      refine absurd ?_ (hnone _ htaken.mem)
      exact ⟨_, _, by rw [List.append_assoc, ← htaken.eq]⟩
    | @added _ front' token' behind' segments' _ htaken' hbehind' =>
      have hsame := (find_special_eq htaken).symm.trans (find_special_eq htaken')
      obtain ⟨hlength, htoken⟩ := Prod.mk.inj hsame
      obtain rfl := Option.some.inj htoken
      have heq := htaken.eq.symm.trans htaken'.eq
      obtain ⟨rfl, hrest⟩ := List.append_inj heq (Option.some.inj hlength)
      obtain rfl := List.append_cancel_left hrest
      rw [ih hbehind']

/-! ### When the loop comes to an end -/

/-- Without an empty token every text is split. -/
theorem exists_splits (h : [] ∉ specials) (text : Bytes) :
    ∃ segments, Splits specials text segments := by
  induction hn : text.length using Nat.strong_induction_on generalizing text with
  | _ n ih =>
    rcases eq_or_ne text [] with rfl | hne
    · exact ⟨[], .nil⟩
    rcases taken_or_none specials text with ⟨front, token, behind, htaken⟩ | hnone
    · have htoken : token ≠ [] := fun hnil => h (hnil ▸ htaken.mem)
      have hlength := congrArg List.length htaken.eq
      rw [List.length_append, List.length_append] at hlength
      have hpos := List.length_pos_iff.mpr htoken
      obtain ⟨segments, hsegments⟩ := ih behind.length (by omega) behind rfl
      exact ⟨_, .added hne htaken hsegments⟩
    · exact ⟨_, .ordinary hne hnone⟩

theorem Covered.exists_splits (h : Covered specials text) :
    ∃ segments, Splits specials text segments := by
  induction h with
  | nil => exact ⟨[], .nil⟩
  | @cons token behind hne hmem hlongest _ ih =>
    obtain ⟨segments, hsegments⟩ := ih
    have htaken : Taken specials (token ++ behind) [] token behind :=
      ⟨rfl, hmem, fun _ _ j hj => absurd hj (Nat.not_lt_zero j), hlongest⟩
    exact ⟨_, .added (List.append_ne_nil_of_left_ne_nil hne behind) htaken hsegments⟩

/-- With an empty token, a token stands at the cursor. -/
theorem taken_of_nil_mem (h : [] ∈ specials) (rest : Bytes) :
    ∃ token behind, Taken specials rest [] token behind := by
  rcases taken_or_none specials rest with ⟨front, token, behind, htaken⟩ | hnone
  · obtain rfl : front = [] := by
      by_contra hfront
      exact htaken.first [] h 0 (List.length_pos_iff.mpr hfront) List.nil_prefix
    exact ⟨token, behind, htaken⟩
  · exact absurd List.nil_infix (hnone [] h)

/-- With an empty token, the loop comes to an end on nothing but tokens. -/
theorem covered_of_returns (h : [] ∈ specials) {s : EncodeState} {r : Except String EncodeState}
    (hreturns : Loop.Returns encode_guard (encode_body encode_ordinary specials) s r) :
    Covered specials s.rest := by
  have hbody : ∀ s : EncodeState, ∃ token behind output, Taken specials s.rest [] token behind ∧
      encode_body encode_ordinary specials s = .ok (.next ⟨behind, output⟩) := by
    intro s
    obtain ⟨token, behind, htaken⟩ := taken_of_nil_mem h s.rest
    exact ⟨token, behind, _, htaken, encode_body_of_taken encode_ordinary htaken s.output⟩
  induction hreturns with
  | @guard s hguard =>
    have hnil : s.rest = [] := not_not.mp (of_decide_eq_false hguard)
    rw [hnil]
    exact .nil
  | @leave s s' _ hleave =>
    obtain ⟨token, behind, output, -, hnext⟩ := hbody s
    cases hnext.symm.trans hleave
  | @throw s e _ hthrow =>
    obtain ⟨token, behind, output, -, hnext⟩ := hbody s
    cases hnext.symm.trans hthrow
  | @next s s₁ r _ hstep _ ih =>
    obtain ⟨token, behind, output, htaken, hnext⟩ := hbody s
    cases hnext.symm.trans hstep
    rw [htaken.eq, List.nil_append]
    rcases eq_or_ne token [] with rfl | hne
    · exact ih
    · exact .cons hne htaken.mem htaken.longest ih

end Run

/-- **When the splitting at added tokens is canonical**: exactly when no added token is empty, or
the text is nothing but added tokens. On every other text the loop goes on forever. -/
theorem encode_canonical_iff (encode_ordinary : Bytes → Except String (List UInt32))
    (tokenizer : Tokenizer) (hsome : tokenizer.special_to_id.keys ≠ []) (text : Bytes) :
    (Canonical encode_ordinary tokenizer.special_to_id text ↔
      [] ∉ tokenizer.special_to_id ∨ Covered tokenizer.special_to_id text) ∧
    (¬([] ∉ tokenizer.special_to_id ∨ Covered tokenizer.special_to_id text) →
      ∀ r, ¬Encodes encode_ordinary tokenizer.special_to_id true text r) := by
  have hcanonical : ∀ {segments}, Splits tokenizer.special_to_id text segments →
      Canonical encode_ordinary tokenizer.special_to_id text := by
    intro segments hsegments
    refine ⟨segments, hsegments, hsegments.flatten, fun specials' hperm => ?_⟩
    have hkeys : specials'.keys ≠ [] := by
      intro hnil
      have hlength := (hperm.map Sigma.fst).length_eq
      rw [show specials'.entries.map Sigma.fst = [] from hnil, List.length_nil] at hlength
      exact hsome (List.length_eq_zero_iff.mp hlength.symm)
    rw [Encodes, if_neg (not_or.mpr ⟨by decide, hkeys⟩)]
    exact hsegments.returns encode_ordinary hperm []
  have hends : ∀ {r}, Encodes encode_ordinary tokenizer.special_to_id true text r →
      [] ∉ tokenizer.special_to_id ∨ Covered tokenizer.special_to_id text := by
    intro r h
    rw [Encodes, if_neg (not_or.mpr ⟨by decide, hsome⟩)] at h
    obtain ⟨s, hreturns, -⟩ := h
    by_cases hnil : [] ∈ tokenizer.special_to_id
    · exact Or.inr (covered_of_returns hnil hreturns)
    · exact Or.inl hnil
  refine ⟨⟨?_, ?_⟩, fun h r hr => h (hends hr)⟩
  · rintro ⟨segments, -, -, hencodes⟩
    exact hends (hencodes tokenizer.special_to_id (List.Perm.refl _))
  · rintro (hnil | hcovered)
    · obtain ⟨segments, hsegments⟩ := exists_splits hnil text
      exact hcanonical hsegments
    · obtain ⟨segments, hsegments⟩ := hcovered.exists_splits
      exact hcanonical hsegments

/-- A tokenizer whose only added token is empty. -/
def empty_token : Tokenizer := ⟨∅, [[]], ∅, UnorderedMap.put (.newestFirst _) ∅ [] 0, [0]⟩

/-- A tokenizer whose only added token is a letter. -/
def letter_token : Tokenizer := ⟨∅, [[97]], ∅, UnorderedMap.put (.newestFirst _) ∅ [97] 0, [0]⟩

/-- A text that is split at a letter, and one on which the empty token is found again and again. -/
theorem encode_canonical_iff_letter :
    Canonical (fun _ => .ok []) letter_token.special_to_id [98, 97, 99] ∧
      ∀ r, ¬Encodes (fun _ => .ok []) empty_token.special_to_id true [97] r := by
  obtain ⟨hletter, -⟩ := encode_canonical_iff (fun _ => .ok []) letter_token
    (List.cons_ne_nil _ _) [98, 97, 99]
  obtain ⟨-, hempty⟩ := encode_canonical_iff (fun _ => .ok []) empty_token
    (List.cons_ne_nil _ _) [97]
  refine ⟨hletter.mpr (Or.inl ?_), hempty ?_⟩
  · rw [letter_token, UnorderedMap.mem_put]
    rintro (hsame | hnone)
    · cases hsame
    · exact AList.notMem_empty _ hnone
  · have hmem : ∀ token, token ∈ empty_token.special_to_id → token = [] := by
      intro token htoken
      rw [empty_token, UnorderedMap.mem_put] at htoken
      exact htoken.resolve_right (AList.notMem_empty token)
    rintro (hnone | hcovered)
    · exact hnone (UnorderedMap.mem_put.mpr (Or.inl rfl))
    · generalize htext : ([97] : Bytes) = text at hcovered
      cases hcovered with
      | nil => cases htext
      | cons hne htoken => exact hne (hmem _ htoken)

/-- Files with an empty added token. -/
def empty_token_files : TokenizerFiles where
  vocab := some (bytes "\x7b\x7d")
  merges := some []
  tokenizer := none
  tokenizer_config := some (bytes
    "\x7b\"added_tokens_decoder\":\x7b\"0\":\x7b\"content\":\"\",\"special\":true\x7d\x7d\x7d")

/-- The added tokens that `load` accepts. -/
def accepted (files : TokenizerFiles) : Option (List Bytes) :=
  match Tokenizer.load (.newestFirst _) .integers files with
  | .ok tokenizer => some tokenizer.special_to_id.keys
  | .error _ => none

theorem accepted_empty_token : accepted empty_token_files = some [[]] := by decide +kernel

/-- The loop does not come to an end. -/
theorem not_encode_canonical :
    ¬∀ (files : TokenizerFiles) (tokenizer : Tokenizer) (text : Bytes)
      (encode_ordinary : Bytes → Except String (List UInt32)),
      Tokenizer.load (.newestFirst _) .integers files = .ok tokenizer →
      tokenizer.special_to_id.keys ≠ [] →
      Canonical encode_ordinary tokenizer.special_to_id text := by
  intro h
  have haccepted := accepted_empty_token
  rw [accepted] at haccepted
  rcases hload : Tokenizer.load (.newestFirst _) .integers empty_token_files with e | tokenizer
  · rw [hload] at haccepted
    cases haccepted
  · rw [hload] at haccepted
    have hkeys : tokenizer.special_to_id.keys = [[]] := Option.some.inj haccepted
    have hsome : tokenizer.special_to_id.keys ≠ [] := by
      rw [hkeys]
      exact List.cons_ne_nil _ _
    have hmem : ∀ token, token ∈ tokenizer.special_to_id ↔ token = [] := by
      intro token
      rw [← mem_keys, hkeys, List.mem_singleton]
    obtain ⟨segments, hsplits, -, -⟩ :=
      h empty_token_files tokenizer [97] (fun _ => .ok []) hload hsome
    have hnone : ∀ {text}, Covered tokenizer.special_to_id text → text = [] := by
      intro text hcovered
      cases hcovered with
      | nil => rfl
      | cons hne htoken => exact absurd ((hmem _).mp htoken) hne
    obtain ⟨s, hreturns, -⟩ := hsplits.returns (fun _ => .ok [])
      (List.Perm.refl tokenizer.special_to_id.entries) []
    exact List.cons_ne_nil _ _ (hnone (covered_of_returns ((hmem []).mpr rfl) hreturns))

end AddedTokens

end Token

end Qwen38
