import Qwen38.Lib.Regex
import Qwen38.Token.Tokenizer

/-!
# Cutting a text into pieces

`pretokenize`: the pieces of a text that `bpe` works on, by a scanner over its code points. The
scanner stands for the regular expression `pattern`, whose classes are the ones of the scanner;
the categories of the code points are whatever they are given, also where `utf8proc` would not
give them (a line feed that is a letter, a space that is a symbol).

What `(?i:…)` compares is a parameter of the expression. The scanner lowers the letters `A` to `Z`
(`ascii_lower`), and no other.
-/

namespace Qwen38

namespace Token

/-! ### The classes -/

/-- `is_letter`. -/
def is_letter (cp : Codepoint) : Bool :=
  match cp.category with
  | .lu | .ll | .lt | .lm | .lo => true
  | _ => false

/-- `is_mark`. -/
def is_mark (cp : Codepoint) : Bool :=
  match cp.category with
  | .mn | .mc | .me => true
  | _ => false

/-- `is_number`. -/
def is_number (cp : Codepoint) : Bool :=
  match cp.category with
  | .nd | .nl | .no => true
  | _ => false

/-- `is_newline`. -/
def is_newline (cp : Codepoint) : Bool := cp.value == 0x0D || cp.value == 0x0A

/-- `is_space`. -/
def is_space (cp : Codepoint) : Bool :=
  match cp.category with
  | .zs | .zl | .zp => true
  | _ => (0x09 ≤ cp.value && cp.value ≤ 0x0D) || cp.value == 0x85

/-- A letter or a mark. -/
def is_word (cp : Codepoint) : Bool := is_letter cp || is_mark cp

/-- No space, letter, mark or number. -/
def is_other (cp : Codepoint) : Bool :=
  !is_space cp && !is_letter cp && !is_mark cp && !is_number cp

/-- The letters `A` to `Z` lowered. -/
def ascii_lower (value : Nat) : Nat := if 65 ≤ value ∧ value ≤ 90 then value + 32 else value

/-! ### The scanner -/

/-- `suffixes`. -/
def suffixes : List (List Char) := [['s'], ['t'], ['r', 'e'], ['v', 'e'], ['m'], ['l', 'l'], ['d']]

/-- `equal`, for a suffix of a contraction. -/
def match_suffix : List Char → List Codepoint → Bool
  | [], _ => true
  | _ :: _, [] => false
  | c :: suffix, cp :: cps => ascii_lower cp.value == c.toNat && match_suffix suffix cps

/-- `match_contraction`: the number of code points, 0 for none. -/
def match_contraction (cp : Codepoint) (cps : List Codepoint) : Nat :=
  if cp.value ≠ 39 ∨ cps = [] then 0
  else
    match suffixes.find? fun suffix => match_suffix suffix cps with
    | some suffix => 1 + suffix.length
    | none => 0

/-- A loop that passes over the code points of a class. -/
def run (p : Codepoint → Bool) (cps : List Codepoint) : Nat := (cps.takeWhile p).length

/-- Where the letters of a word start. -/
def word_start (cp : Codepoint) (cps : List Codepoint) : Nat :=
  if !is_newline cp && !is_letter cp && !is_number cp && cps.head?.any is_word then 1 else 0

/-- `punctuation_start`. -/
def punctuation_start (cp : Codepoint) (cps : List Codepoint) : Nat :=
  if cp.value == 32 && cps.head?.any is_other then 1 else 0

/-- The loop over white space: the cursor, and the last newline that was seen. -/
def scan_space : Nat → Option Nat → List Codepoint → Nat × Option Nat
  | cursor, last_newline, cp :: cps =>
    if is_space cp then
      scan_space (cursor + 1) (if is_newline cp then some cursor else last_newline) cps
    else (cursor, last_newline)
  | cursor, last_newline, [] => (cursor, last_newline)

/-- The number of code points in a piece of white space. -/
def space_piece (cps : List Codepoint) : Nat :=
  match scan_space 0 none cps with
  | (_, some last_newline) => last_newline + 1
  | (cursor, none) =>
    if cursor = cps.length then cursor
    else if 1 < cursor then cursor - 1
    else cursor

/-- The number of code points in the next piece. -/
def next_piece (cp : Codepoint) (cps : List Codepoint) : Except String Nat :=
  if match_contraction cp cps ≠ 0 then .ok (match_contraction cp cps)
  else
    let cursor := word_start cp cps
    if ((cp :: cps).drop cursor).head?.any is_word then
      .ok (cursor + run is_word ((cp :: cps).drop cursor))
    else if is_number cp then .ok 1
    else
      let cursor := punctuation_start cp cps
      let others := run is_other ((cp :: cps).drop cursor)
      if 0 < others then
        .ok (cursor + others + run is_newline ((cp :: cps).drop (cursor + others)))
      else if is_space cp then .ok (space_piece (cp :: cps))
      else .error "tokenizer pre-split made no progress"

/-! ### The expression -/

section Pattern

variable (fold : Nat → Nat)

/-- A letter in either case. -/
def letter (c : Char) : Regex Codepoint := .set fun cp => fold cp.value == fold c.toNat

/-- A text in any case. -/
def literal : Char → List Char → Regex Codepoint
  | c, [] => letter fold c
  | c, c' :: text => .seq (letter fold c) (literal c' text)

/-- `(?i:'s|'t|'re|'ve|'m|'ll|'d)`. -/
def contraction : Regex Codepoint :=
  .anyOf ([['s'], ['t'], ['r', 'e'], ['v', 'e'], ['m'], ['l', 'l'], ['d']].map
    (literal fold '\''))

/-- `[^\r\n\p{L}\p{N}]?[\p{L}\p{M}]+`. -/
def word : Regex Codepoint :=
  .seq (.opt (.set fun cp => !is_newline cp && !is_letter cp && !is_number cp))
    (.plus (.set is_word))

/-- `\p{N}`. -/
def number : Regex Codepoint := .set is_number

/-- `' '?[^\s\p{L}\p{M}\p{N}]+[\r\n]*`. -/
def punctuation : Regex Codepoint :=
  .seq (.opt (.set fun cp => cp.value == 32))
    (.seq (.plus (.set is_other)) (.star (.set is_newline)))

/-- `\s*[\r\n]+`. -/
def newlines : Regex Codepoint := .seq (.star (.set is_space)) (.plus (.set is_newline))

/-- `\s+(?!\S)`. -/
def trailing : Regex Codepoint :=
  .seq (.plus (.set is_space)) (.notAhead (.set fun cp => !is_space cp))

/-- `\s+`. -/
def spaces : Regex Codepoint := .plus (.set is_space)

/-- The alternatives of the pieces. -/
def pattern : Regex Codepoint :=
  .anyOf [contraction fold, word, number, punctuation, newlines, trailing, spaces]

end Pattern

/-! ### Each alternative and its branch -/

section Branches

variable {cp : Codepoint} {cps : List Codepoint}

theorem drop_run (p : Codepoint → Bool) (cps : List Codepoint) :
    cps.drop (run p cps) = cps.dropWhile p := by
  have h := List.takeWhile_append_dropWhile (p := p) (l := cps)
  calc cps.drop (run p cps)
      = (cps.takeWhile p ++ cps.dropWhile p).drop (run p cps) := by rw [h]
    _ = cps.dropWhile p := List.drop_left' rfl

theorem run_pos {p : Codepoint → Bool} : 0 < run p cps ↔ cps.head?.any p = true := by
  cases cps with
  | nil => simp [run]
  | cons cp cps =>
    rw [run, List.takeWhile_cons, List.head?_cons, Option.any_some]
    split <;> simp [*]

theorem drop_add_run (p : Codepoint → Bool) (n : Nat) (cps : List Codepoint) :
    cps.drop (n + run p (cps.drop n)) = (cps.drop n).dropWhile p := by
  rw [← List.drop_drop, drop_run]

theorem newline_is_space (cp : Codepoint) (h : is_newline cp = true) : is_space cp = true := by
  rw [is_newline, Bool.or_eq_true, beq_iff_eq, beq_iff_eq] at h
  rw [is_space]
  split
  · rfl
  · rfl
  · rfl
  · rcases h with h | h <;> simp [h]

/-! ### Words -/

theorem first_word :
    word.first (cp :: cps) =
      if ((cp :: cps).drop (word_start cp cps)).head?.any is_word then
        some ((cp :: cps).drop (word_start cp cps + run is_word ((cp :: cps).drop (word_start cp cps))))
      else none := by
  rw [drop_add_run, word, Regex.first_seq_opt_set, Regex.first_plus_set, Regex.first_plus_set,
    word_start]
  generalize (!is_newline cp && !is_letter cp && !is_number cp) = other
  cases other <;> cases hcps : cps.head?.any is_word <;> simp [hcps] <;> rfl

/-! ### Punctuation -/

theorem first_others :
    (Regex.seq (.plus (.set is_other)) (.star (.set is_newline))).first cps =
      if cps.head?.any is_other then some ((cps.dropWhile is_other).dropWhile is_newline)
      else none := by
  rw [Regex.first_seq_of_isSome (fun s => by rw [Regex.first_star_set]; rfl), Regex.first_plus_set]
  split
  · rw [Option.bind_some, Regex.first_star_set]
  · rfl

theorem first_punctuation (others : Nat)
    (h : run is_other ((cp :: cps).drop (punctuation_start cp cps)) = others) :
    punctuation.first (cp :: cps) =
      if 0 < others then
        some ((cp :: cps).drop (punctuation_start cp cps + others +
          run is_newline ((cp :: cps).drop (punctuation_start cp cps + others))))
      else none := by
  subst h
  rw [drop_add_run, drop_add_run, punctuation, Regex.first_seq_opt_set, first_others, first_others]
  simp only [run_pos, punctuation_start]
  generalize (cp.value == 32) = space
  cases space <;> cases hcps : cps.head?.any is_other <;> simp [hcps] <;> rfl

/-! ### Contractions -/

/-- A text at the beginning, in either case. -/
theorem first_literal (c : Char) (text : List Char)
    (hlower : ∀ c' ∈ c :: text, ascii_lower c'.toNat = c'.toNat) :
    (literal ascii_lower c text).first cps =
      if match_suffix (c :: text) cps then some (cps.drop (text.length + 1)) else none := by
  induction text generalizing c cps with
  | nil =>
    cases cps with
    | nil => rfl
    | cons cp cps =>
      rw [literal, letter, Regex.first_set_cons, hlower c List.mem_cons_self]
      simp [match_suffix]
  | cons c' text ih =>
    cases cps with
    | nil => rfl
    | cons cp cps =>
      rw [literal, letter, Regex.first_seq_set, hlower c List.mem_cons_self,
        ih c' fun d hd => hlower d (List.mem_cons_of_mem c hd), match_suffix]
      cases (ascii_lower cp.value == c.toNat) <;> simp

theorem ascii_lower_eq_apostrophe {value : Nat} : ascii_lower value = 39 ↔ value = 39 := by
  rw [ascii_lower]
  split <;> omega

/-- A contraction is an apostrophe with a suffix. -/
theorem first_apostrophe {suffix : List Char} (h : suffix ∈ suffixes) :
    (literal ascii_lower '\'' suffix).first (cp :: cps) =
      if cp.value = 39 ∧ match_suffix suffix cps = true then
        some ((cp :: cps).drop (1 + suffix.length))
      else none := by
  have hall : suffixes.all (fun suffix => !suffix.isEmpty &&
      suffix.all fun c => ascii_lower c.toNat == c.toNat) = true := by decide
  have hlower (suffix : List Char) (h : suffix ∈ suffixes) :
      suffix ≠ [] ∧ ∀ c ∈ suffix, ascii_lower c.toNat = c.toNat := by
    obtain ⟨hempty, hsame⟩ := Bool.and_eq_true_iff.mp (List.all_eq_true.mp hall suffix h)
    exact ⟨fun hnil => by rw [hnil] at hempty; exact absurd hempty nofun,
      fun c hc => eq_of_beq (List.all_eq_true.mp hsame c hc)⟩
  have hapostrophe : (ascii_lower cp.value == ascii_lower '\''.toNat) = decide (cp.value = 39) := by
    have h : ascii_lower '\''.toNat = 39 := rfl
    rw [h, Bool.eq_iff_iff, beq_iff_eq, decide_eq_true_eq, ascii_lower_eq_apostrophe]
  obtain ⟨hne, hsuffix⟩ := hlower suffix h
  cases suffix with
  | nil => exact absurd rfl hne
  | cons c text =>
    rw [literal, letter, Regex.first_seq_set, hapostrophe, first_literal c text hsuffix]
    by_cases h : cp.value = 39 <;> simp [h, Nat.add_comm 1]

theorem find_suffix_nil : (suffixes.find? fun suffix => match_suffix suffix []) = none := by decide

theorem first_contraction :
    (contraction ascii_lower).first (cp :: cps) =
      if match_contraction cp cps ≠ 0 then some ((cp :: cps).drop (match_contraction cp cps))
      else none := by
  have hfirst : (contraction ascii_lower).first (cp :: cps) =
      (suffixes.find? fun suffix => cp.value == 39 && match_suffix suffix cps).map fun suffix =>
        (cp :: cps).drop (1 + suffix.length) :=
    Regex.first_anyOf_map fun suffix h => by
      rw [first_apostrophe h]
      simp only [Bool.and_eq_true, beq_iff_eq]
  rw [hfirst, match_contraction]
  by_cases hvalue : cp.value = 39
  · simp only [hvalue, beq_self_eq_true, Bool.true_and, ne_eq, not_true_eq_false, false_or]
    by_cases hcps : cps = []
    · rw [if_pos hcps, hcps, find_suffix_nil]
      rfl
    · rw [if_neg hcps]
      cases suffixes.find? fun suffix => match_suffix suffix cps with
      | none => rfl
      | some suffix => simp
  · simp [hvalue]

/-! ### White space -/

theorem scan_space_fst (cursor : Nat) (last_newline : Option Nat) (cps : List Codepoint) :
    (scan_space cursor last_newline cps).1 = cursor + run is_space cps := by
  fun_induction scan_space cursor last_newline cps with
  | case1 cursor last_newline cp cps hspace ih =>
    rw [ih, run, run, List.takeWhile_cons_of_pos hspace, List.length_cons, Nat.add_right_comm,
      Nat.add_assoc]
  | case2 cursor last_newline cp cps hspace =>
    rw [run, List.takeWhile_cons_of_neg hspace, List.length_nil, Nat.add_zero]
  | case3 cursor last_newline => rfl

/-- The last newline of the run, if there is one. -/
theorem scan_space_snd (cursor : Nat) (last_newline : Option Nat) (cps : List Codepoint) :
    (scan_space cursor last_newline cps).2 = last_newline ∧
        (∀ cp ∈ cps.takeWhile is_space, is_newline cp = false) ∨
      ∃ before cp after, cps = before ++ cp :: after ∧ (∀ cp ∈ before, is_space cp = true) ∧
        is_newline cp = true ∧ (∀ cp ∈ after.takeWhile is_space, is_newline cp = false) ∧
        (scan_space cursor last_newline cps).2 = some (cursor + before.length) := by
  fun_induction scan_space cursor last_newline cps with
  | case1 cursor last_newline cp cps hspace ih =>
    rcases ih with ⟨hlast, hnone⟩ | ⟨before, c, after, rfl, hbefore, hc, hafter, hlast⟩
    · cases hnewline : is_newline cp with
      | true =>
        rw [hnewline, if_pos rfl] at hlast
        refine .inr ⟨[], cp, cps, rfl, List.forall_mem_nil _, hnewline, hnone, hlast⟩
      | false =>
        rw [hnewline, if_neg Bool.false_ne_true] at hlast
        refine .inl ⟨hlast, ?_⟩
        rw [List.takeWhile_cons_of_pos hspace]
        exact List.forall_mem_cons.mpr ⟨hnewline, hnone⟩
    · refine .inr ⟨cp :: before, c, after, rfl, List.forall_mem_cons.mpr ⟨hspace, hbefore⟩, hc,
        hafter, ?_⟩
      rw [hlast, List.length_cons, Nat.add_right_comm, Nat.add_assoc]
  | case2 cursor last_newline cp cps hspace =>
    refine .inl ⟨rfl, ?_⟩
    rw [List.takeWhile_cons_of_neg hspace]
    exact List.forall_mem_nil _
  | case3 cursor last_newline => exact .inl ⟨rfl, List.forall_mem_nil _⟩

/-- White space without a newline. -/
theorem first_trailing (hspace : is_space cp = true) :
    (trailing.first (cp :: cps)).or (spaces.first (cp :: cps)) =
      some ((cp :: cps).drop
        (if run is_space (cp :: cps) = (cp :: cps).length then run is_space (cp :: cps)
          else if 1 < run is_space (cp :: cps) then run is_space (cp :: cps) - 1
          else run is_space (cp :: cps))) := by
  have hspaces : ∀ c ∈ cps.takeWhile is_space, is_space c = true := fun c hc =>
    List.mem_takeWhile_imp hc
  have hrun : run is_space (cp :: cps) = (cps.takeWhile is_space).length + 1 := by
    rw [run, List.takeWhile_cons_of_pos hspace, List.length_cons]
  have hsplit := List.takeWhile_append_dropWhile (p := is_space) (l := cps)
  rw [trailing, spaces, Regex.first_seq_plus_set, if_pos hspace, hrun]
  generalize cps.takeWhile is_space = t at hspaces hsplit
  cases hrest : cps.dropWhile is_space with
  | nil =>
    obtain rfl : t = cps := by rw [hrest, List.append_nil] at hsplit; exact hsplit
    rw [Regex.first_star_notAhead_end hspaces, Option.some_or, List.length_cons, if_pos rfl,
      ← List.length_cons (a := cp), List.drop_length]
  | cons d rest =>
    have hd : is_space d = false := by
      have hhead := List.head?_dropWhile_not is_space cps
      rw [hrest] at hhead
      simpa using hhead
    rw [hrest] at hsplit
    subst hsplit
    rcases List.eq_nil_or_concat' t with rfl | ⟨before, c, rfl⟩
    · -- one space: the last alternative
      rw [List.nil_append, Regex.first_star_notAhead_eq_none hd (by simp [hd]), Option.none_or,
        Regex.first_plus_set, List.head?_cons, Option.any_some, if_pos hspace,
        List.dropWhile_cons_of_pos hspace, List.dropWhile_cons_of_neg (by simp [hd])]
      rfl
    · -- a longer run leaves its last space
      obtain ⟨hbefore, hc⟩ := List.forall_mem_append.mp hspaces
      have hc := hc c (List.mem_singleton_self c)
      rw [List.append_assoc, List.singleton_append,
        Regex.first_star_notAhead_eq hbefore hc (by simp [hc]) hd (by simp [hd]), Option.some_or]
      have hlength : ¬(before ++ [c]).length + 1 = (cp :: (before ++ c :: d :: rest)).length := by
        simp
      rw [if_neg hlength, if_pos (by simp)]
      simp

/-- The alternatives of white space. -/
theorem first_space (hspace : is_space cp = true) :
    0 < space_piece (cp :: cps) ∧
      ((newlines.first (cp :: cps)).or
        ((trailing.first (cp :: cps)).or (spaces.first (cp :: cps)))) =
      some ((cp :: cps).drop (space_piece (cp :: cps))) := by
  have hrun : 0 < run is_space (cp :: cps) := run_pos.mpr hspace
  have hfst := scan_space_fst 0 none (cp :: cps)
  rw [space_piece]
  rcases scan_space_snd 0 none (cp :: cps) with
    ⟨hlast, hnone⟩ | ⟨before, c, after, hsplit, hbefore, hc, hafter, hlast⟩
  · generalize scan_space 0 none (cp :: cps) = scanned at hfst hlast
    obtain ⟨cursor, last_newline⟩ := scanned
    obtain rfl : last_newline = none := hlast
    obtain rfl : cursor = run is_space (cp :: cps) := by simpa using hfst
    rw [newlines, Regex.first_star_plus_eq_none newline_is_space hnone, Option.none_or,
      first_trailing hspace]
    refine ⟨?_, rfl⟩
    simp only
    split
    · exact hrun
    · split <;> omega
  · generalize scan_space 0 none (cp :: cps) = scanned at hfst hlast
    obtain ⟨cursor, last_newline⟩ := scanned
    obtain rfl : last_newline = some before.length := by simpa using hlast
    refine ⟨Nat.succ_pos _, ?_⟩
    rw [hsplit, newlines, Regex.first_star_plus_eq newline_is_space hbefore hc hafter, Option.some_or]
    simp

/-! ### The pieces -/

theorem first_pattern :
    (pattern ascii_lower).first (cp :: cps) =
      ((contraction ascii_lower).first (cp :: cps)).or
        ((word.first (cp :: cps)).or
          ((number.first (cp :: cps)).or
            ((punctuation.first (cp :: cps)).or
              ((newlines.first (cp :: cps)).or
                ((trailing.first (cp :: cps)).or (spaces.first (cp :: cps))))))) := by
  simp only [pattern, Regex.anyOf, Regex.first_alt, Regex.first_set_cons, Bool.false_eq_true,
    if_false, Option.or_none]

/-- Where no word starts, the code point is no letter or mark. -/
theorem not_is_word (h : ¬((cp :: cps).drop (word_start cp cps)).head?.any is_word) :
    is_word cp = false := by
  rw [word_start] at h
  split at h
  next hstart =>
    simp only [Bool.and_eq_true] at hstart
    exact absurd hstart.2 h
  next => simpa using h

/-- Where no punctuation starts, the code point is a space, letter, mark or number. -/
theorem not_is_other (h : ¬0 < run is_other ((cp :: cps).drop (punctuation_start cp cps))) :
    is_other cp = false := by
  rw [run_pos, punctuation_start] at h
  split at h
  next hstart =>
    simp only [Bool.and_eq_true] at hstart
    exact absurd hstart.2 h
  next => simpa using h

/-- **The next piece is the match of the expression**, and it is not empty. -/
theorem next_piece_eq (cp : Codepoint) (cps : List Codepoint) :
    ∃ n, next_piece cp cps = .ok n ∧ 0 < n ∧
      (pattern ascii_lower).first (cp :: cps) = some ((cp :: cps).drop n) := by
  rw [first_pattern, next_piece, first_contraction]
  by_cases hcontraction : match_contraction cp cps ≠ 0
  · rw [if_pos hcontraction, if_pos hcontraction]
    exact ⟨_, rfl, Nat.pos_of_ne_zero hcontraction, Option.some_or⟩
  rw [if_neg hcontraction, if_neg hcontraction, Option.none_or, first_word]
  by_cases hword : ((cp :: cps).drop (word_start cp cps)).head?.any is_word
  · rw [if_pos hword, if_pos hword]
    exact ⟨_, rfl, Nat.add_pos_right _ (run_pos.mpr hword), Option.some_or⟩
  rw [if_neg hword, if_neg hword, Option.none_or, number, Regex.first_set_cons]
  by_cases hnumber : is_number cp
  · rw [if_pos hnumber, if_pos hnumber]
    exact ⟨1, rfl, Nat.one_pos, Option.some_or⟩
  rw [if_neg hnumber, if_neg hnumber, Option.none_or, first_punctuation _ rfl]
  by_cases hothers : 0 < run is_other ((cp :: cps).drop (punctuation_start cp cps))
  · rw [if_pos hothers, if_pos hothers]
    exact ⟨_, rfl, by omega, Option.some_or⟩
  rw [if_neg hothers, if_neg hothers, Option.none_or]
  -- what is no letter, mark, number or punctuation is white space
  have hspace : is_space cp = true := by
    have hnone := not_is_other hothers
    have hletter := not_is_word hword
    rw [is_word, Bool.or_eq_false_iff] at hletter
    simpa [is_other, hletter.1, hletter.2, hnumber] using hnone
  rw [if_pos hspace]
  obtain ⟨hpos, hfirst⟩ := @first_space cp cps hspace
  exact ⟨_, rfl, hpos, hfirst⟩

end Branches

/-! ### The loop -/

/-- The loop of `pretokenize`, over the code points from `at` on. -/
def pieces : List Codepoint → Except String (List (List Codepoint))
  | [] => .ok []
  | cp :: cps =>
    match _ : next_piece cp cps with
    | .error message => .error message
    | .ok n => do
      let rest ← pieces ((cp :: cps).drop n)
      .ok ((cp :: cps).take n :: rest)
termination_by cps => cps.length
decreasing_by
  obtain ⟨n', hn', hpos, -⟩ := next_piece_eq cp cps
  obtain rfl : n = n' := Except.ok.inj (Eq.trans (Eq.symm ‹_›) hn')
  rw [List.length_drop, List.length_cons]
  omega

/-- `pretokenize`. -/
def pretokenize (unicode : Utf8proc) (input : Bytes) : Except String (List Bytes) := do
  let cps ← codepoints unicode input
  let pieces ← pieces cps
  .ok (pieces.map fun piece => (piece.map Codepoint.text).flatten)

theorem findIter_nil : (pattern ascii_lower).findIter [] = [] := by
  rw [Regex.findIter]
  rfl

/-- The scanner takes the successive matches of the expression, which leave nothing out. -/
theorem pieces_eq (cps : List Codepoint) :
    pieces cps = .ok ((pattern ascii_lower).findIter cps) ∧
      ((pattern ascii_lower).findIter cps).flatten = cps ∧
      ∀ piece ∈ (pattern ascii_lower).findIter cps, piece ≠ [] := by
  fun_induction pieces cps with
  | case1 =>
    rw [findIter_nil]
    exact ⟨rfl, rfl, List.forall_mem_nil _⟩
  | case2 cp cps message h =>
    obtain ⟨n, hn, -⟩ := next_piece_eq cp cps
    rw [hn] at h
    cases h
  | case3 cp cps n h ih =>
    obtain ⟨n', hn', hpos, hfirst⟩ := next_piece_eq cp cps
    obtain rfl : n = n' := Except.ok.inj (h.symm.trans hn')
    obtain ⟨hpieces, hflatten, hne⟩ := ih
    rw [Regex.findIter_of_first hpos hfirst]
    refine ⟨?_, ?_, List.forall_mem_cons.mpr ⟨?_, hne⟩⟩
    · rw [hpieces, Except.ok_bind]
    · rw [List.flatten_cons, hflatten, List.take_append_drop]
    · exact fun htake => List.cons_ne_nil cp cps
        ((List.take_eq_nil_iff.mp htake).resolve_left hpos.ne')

/-- **A text is cut into its bytes.** -/
theorem pretokenize_eq {unicode : Utf8proc} {input : Bytes} {cps : List Codepoint}
    (h : codepoints unicode input = .ok cps) : ∃ texts, pretokenize unicode input = .ok texts ∧
      texts = ((pattern ascii_lower).findIter cps).map (fun piece =>
        (piece.map Codepoint.text).flatten) ∧
      texts.flatten = input ∧ ∀ text ∈ texts, text ≠ [] := by
  obtain ⟨hpieces, hflatten, hne⟩ := pieces_eq cps
  refine ⟨_, by rw [pretokenize, h, Except.ok_bind, hpieces, Except.ok_bind], rfl, ?_, ?_⟩
  · have htexts := codepoints_flatten h
    rw [← hflatten, List.map_flatten, List.flatten_flatten, List.map_map] at htexts
    exact htexts
  · intro text htext
    obtain ⟨piece, hpiece, rfl⟩ := List.mem_map.mp htext
    obtain ⟨cp, hcp⟩ := List.exists_mem_of_ne_nil _ (hne piece hpiece)
    have hin : cp ∈ cps := hflatten ▸ List.mem_flatten.mpr ⟨piece, hpiece, hcp⟩
    intro hnil
    exact text_ne_nil h cp hin (List.flatten_eq_nil_iff.mp hnil _ (List.mem_map_of_mem hcp))

/-- Unicode case folding, of the letters that fold to ASCII ones: with `A` to `Z` these are the
long s and the Kelvin sign. -/
def case_fold (value : Nat) : Nat :=
  if value = 0x17F then 0x73 else if value = 0x212A then 0x6B else ascii_lower value

/-- **The pieces are the successive matches of the expression that lowers `A` to `Z`**, whatever
the categories; a text fails to be cut only where it is not UTF-8. -/
theorem pretokenize_matches :
    (∀ cps : List Codepoint,
      pieces cps = .ok ((pattern ascii_lower).findIter cps) ∧
        ((pattern ascii_lower).findIter cps).flatten = cps ∧
        ∀ piece ∈ (pattern ascii_lower).findIter cps, piece ≠ []) ∧
    ∀ (unicode : Utf8proc) (input : Bytes),
      match codepoints unicode input with
      | .error message => pretokenize unicode input = .error message
      | .ok cps => ∃ texts, pretokenize unicode input = .ok texts ∧
        texts = ((pattern ascii_lower).findIter cps).map (fun piece =>
          (piece.map Codepoint.text).flatten) ∧
        texts.flatten = input ∧ ∀ text ∈ texts, text ≠ [] := by
  refine ⟨pieces_eq, fun unicode input => ?_⟩
  split
  next message h => rw [pretokenize, h, Except.error_bind]
  next cps h => exact pretokenize_eq h

/-- An apostrophe, a long s and a letter. -/
def long_s : List Codepoint :=
  [⟨0x27, [0x27], .po⟩, ⟨0x17F, [0xC5, 0xBF], .ll⟩, ⟨0x61, [0x61], .ll⟩]

/-- In any case the long s is an s: the expression takes a contraction, the scanner a word. -/
theorem not_pretokenize_matches :
    ¬∀ cps : List Codepoint, pieces cps = .ok ((pattern case_fold).findIter cps) := by
  intro h
  have hscanner : (pattern ascii_lower).findIter long_s =
      long_s :: (pattern ascii_lower).findIter [] := Regex.findIter_of_first (n := 3) (by decide) rfl
  have hexpression : (pattern case_fold).findIter long_s =
      long_s.take 2 :: (pattern case_fold).findIter (long_s.drop 2) :=
    Regex.findIter_of_first (by decide) rfl
  have heq := Except.ok.inj ((pieces_eq long_s).1.symm.trans (h long_s))
  rw [hscanner, hexpression] at heq
  exact absurd (List.cons_eq_cons.mp heq).1 (by decide)

end Token

end Qwen38
