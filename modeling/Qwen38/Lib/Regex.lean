import Mathlib.Data.List.Basic
import Mathlib.Tactic.Common

/-!
# Regular expressions that backtrack

A regular expression over any alphabet, with ordered alternatives, greedy repetitions and a
negative lookahead. `Regex.ends` lists what is left of a text after each match at its beginning,
in the order in which a backtracking matcher tries them; the match is the first one
(`Regex.first`), and `Regex.findIter` takes the leftmost match again and again.

A repetition tries another round before it stops; a round that takes nothing is not tried.

The matches of a class of letters repeated, which is what a hand-written scanner has loops for,
are the ends of the run of such letters, the longest first (`Regex.ends_star_set`). What follows
the repetition then asks for the longest run after which it matches, and three cases of that are
at the end of this file: something that always matches, a letter of a subclass, and the lookahead.
-/

/-- A regular expression over the letters `σ`. -/
inductive Regex (σ : Type*)
  /-- A letter of a class. -/
  | set (p : σ → Bool)
  | seq (r r' : Regex σ)
  /-- The first alternative comes first. -/
  | alt (r r' : Regex σ)
  | opt (r : Regex σ)
  | star (r : Regex σ)
  | plus (r : Regex σ)
  /-- The text does not go on like that. -/
  | notAhead (r : Regex σ)

namespace Regex

variable {σ : Type*}

/-- The ends of a greedy repetition, for at most so many rounds. -/
def starEnds (ends : List σ → List (List σ)) : Nat → List σ → List (List σ)
  | 0, s => [s]
  | fuel + 1, s =>
    ((ends s).filter fun s' => s'.length < s.length).flatMap (starEnds ends fuel) ++ [s]

/-- What is left after each match at the beginning, in the order of backtracking. -/
def ends : Regex σ → List σ → List (List σ)
  | set _, [] => []
  | set p, c :: s => if p c then [s] else []
  | seq r r', s => (r.ends s).flatMap r'.ends
  | alt r r', s => r.ends s ++ r'.ends s
  | opt r, s => r.ends s ++ [s]
  | star r, s => starEnds r.ends s.length s
  | plus r, s => (r.ends s).flatMap fun s' => starEnds r.ends s'.length s'
  | notAhead r, s => if (r.ends s).isEmpty then [s] else []

section Ends

variable {r r' : Regex σ} {p : σ → Bool} {c : σ} {s : List σ}

theorem ends_set_cons : (set p).ends (c :: s) = if p c then [s] else [] := rfl

theorem ends_seq : (seq r r').ends s = (r.ends s).flatMap r'.ends := rfl

theorem ends_alt : (alt r r').ends s = r.ends s ++ r'.ends s := rfl

theorem ends_opt : (opt r).ends s = r.ends s ++ [s] := rfl

theorem ends_star : (star r).ends s = starEnds r.ends s.length s := rfl

theorem ends_plus : (plus r).ends s =
    (r.ends s).flatMap fun s' => starEnds r.ends s'.length s' := rfl

theorem ends_notAhead : (notAhead r).ends s = if (r.ends s).isEmpty then [s] else [] := rfl

theorem starEnds_succ {f : List σ → List (List σ)} {fuel : Nat} : starEnds f (fuel + 1) s =
    ((f s).filter fun s' => s'.length < s.length).flatMap (starEnds f fuel) ++ [s] := rfl

end Ends

/-- The alternatives of a list. -/
def anyOf : List (Regex σ) → Regex σ
  | [] => set fun _ => false
  | r :: l => alt r (anyOf l)

/-- What is left after the match at the beginning. -/
def first (r : Regex σ) (s : List σ) : Option (List σ) := (r.ends s).head?

/-- The successive leftmost matches. -/
def findIter (r : Regex σ) : List σ → List (List σ)
  | [] => if (r.first []).isSome then [[]] else []
  | c :: s =>
    match r.first (c :: s) with
    | none => findIter r s
    | some rest =>
      if rest.length ≤ s.length then
        (c :: s).take (s.length + 1 - rest.length) :: findIter r rest
      else [] :: findIter r s
termination_by s => s.length

/-! ### The first match -/

section First

variable {r r' : Regex σ} {p : σ → Bool} {c : σ} {s : List σ}

@[simp] theorem first_set_nil : (set p).first [] = none := rfl

@[simp] theorem first_set_cons : (set p).first (c :: s) = if p c then some s else none := by
  rw [first, ends_set_cons]
  split <;> rfl

theorem first_alt : (alt r r').first s = (r.first s).or (r'.first s) := by
  rw [first, ends_alt, List.head?_append, first, first]

theorem first_anyOf (l : List (Regex σ)) : (anyOf l).first s = l.findSome? fun r => r.first s := by
  induction l with
  | nil => cases s <;> rfl
  | cons r l ih =>
    rw [anyOf, first_alt, ih, List.findSome?_cons]
    cases r.first s <;> rfl

/-- The first of the alternatives that matches. -/
theorem first_anyOf_map {ι : Type*} {l : List ι} {f : ι → Regex σ} {q : ι → Bool}
    {g : ι → List σ} (h : ∀ i ∈ l, (f i).first s = if q i then some (g i) else none) :
    (anyOf (l.map f)).first s = (l.find? q).map g := by
  rw [first_anyOf, List.findSome?_map]
  induction l with
  | nil => rfl
  | cons i l ih =>
    obtain ⟨hi, hl⟩ := List.forall_mem_cons.mp h
    rw [List.findSome?_cons, Function.comp_apply, hi, List.find?_cons]
    cases q i with
    | true => rfl
    | false => exact ih hl

theorem first_seq : (seq r r').first s = (r.ends s).findSome? r'.first := by
  rw [first, ends_seq, List.head?_flatMap]
  rfl

/-- What always matches does not make its predecessor backtrack. -/
theorem first_seq_of_isSome (h : ∀ s, (r'.first s).isSome) :
    (seq r r').first s = (r.first s).bind r'.first := by
  rw [first_seq, first]
  cases hends : r.ends s with
  | nil => rfl
  | cons s' l =>
    obtain ⟨rest, hrest⟩ := Option.isSome_iff_exists.mp (h s')
    rw [List.findSome?_cons, hrest, List.head?_cons, Option.bind_some, hrest]

theorem first_seq_set :
    (seq (set p) r).first (c :: s) = if p c then r.first s else none := by
  rw [first_seq, ends_set_cons]
  split
  · rw [List.findSome?_singleton]
  · rfl

/-- A letter before the rest, or else the rest alone. -/
theorem first_seq_opt_set :
    (seq (opt (set p)) r).first (c :: s) =
      if p c then (r.first s).or (r.first (c :: s)) else r.first (c :: s) := by
  rw [first_seq, ends_opt, ends_set_cons]
  split
  · cases h : r.first s <;> cases h' : r.first (c :: s) <;> simp [h, h']
  · cases h' : r.first (c :: s) <;> simp [h']

theorem first_notAhead_set_cons :
    (notAhead (set p)).first (c :: s) = if p c then none else some (c :: s) := by
  rw [first, ends_notAhead, ends_set_cons]
  cases hc : p c <;> rfl

end First

/-- A match that takes something is the next one. -/
theorem findIter_of_first {r : Regex σ} {c : σ} {s : List σ} {n : Nat} (hn : 0 < n)
    (h : r.first (c :: s) = some ((c :: s).drop n)) :
    r.findIter (c :: s) = (c :: s).take n :: r.findIter ((c :: s).drop n) := by
  have hlength : ((c :: s).drop n).length ≤ s.length := by
    rw [List.length_drop, List.length_cons]
    omega
  have htake : (c :: s).take (s.length + 1 - ((c :: s).drop n).length) = (c :: s).take n := by
    rw [List.take_eq_take_iff, List.length_drop, List.length_cons]
    omega
  rw [findIter, h]
  simp only
  rw [if_pos hlength, htake]

/-! ### Runs of a class -/

section Runs

variable {r : Regex σ} {p q : σ → Bool} {c : σ} {s : List σ}

@[simp] theorem ends_star_set_nil : (star (set p)).ends [] = [[]] := rfl

/-- **The ends of a run, the longest first.** -/
theorem ends_star_set :
    (star (set p)).ends (c :: s) =
      (if p c then (star (set p)).ends s else []) ++ [c :: s] := by
  rw [ends_star, List.length_cons, starEnds_succ, ends_set_cons]
  split
  · simp [ends_star]
  · rfl

theorem ends_plus_set :
    (plus (set p)).ends (c :: s) = if p c then (star (set p)).ends s else [] := by
  by_cases hc : p c <;> simp [ends_plus, ends_star, ends_set_cons, hc]

theorem first_star_set : (star (set p)).first s = some (s.dropWhile p) := by
  induction s with
  | nil => rfl
  | cons c s ih =>
    rw [first, ends_star_set, List.dropWhile_cons]
    split
    · rw [List.head?_append, ← first, ih, Option.some_or]
    · rfl

/-- A run of at least one letter. -/
theorem first_plus_set :
    (plus (set p)).first s = if s.head?.any p then some (s.dropWhile p) else none := by
  cases s with
  | nil => rfl
  | cons c s =>
    rw [first, ends_plus_set, List.head?_cons, Option.any_some, List.dropWhile_cons]
    split
    · exact first_star_set
    · rfl

theorem first_seq_star_set :
    (seq (star (set p)) r).first (c :: s) =
      if p c then ((seq (star (set p)) r).first s).or (r.first (c :: s)) else r.first (c :: s) := by
  rw [first_seq, ends_star_set]
  split
  · rw [List.findSome?_append, ← first_seq]
    cases h : r.first (c :: s) <;> simp [h]
  · cases h : r.first (c :: s) <;> simp [h]

theorem first_seq_plus_set :
    (seq (plus (set p)) r).first (c :: s) =
      if p c then (seq (star (set p)) r).first s else none := by
  rw [first_seq, ends_plus_set]
  split
  · rw [first_seq]
  · rfl

/-! ### The longest run after which something matches -/

/-- No letter of the subclass in the run. -/
theorem first_star_plus_eq_none (hq : ∀ c, q c → p c) (h : ∀ c ∈ s.takeWhile p, q c = false) :
    (seq (star (set p)) (plus (set q))).first s = none := by
  induction s with
  | nil => rfl
  | cons c s ih =>
    have hlast : (plus (set q)).first (c :: s) = none := by
      rw [first_plus_set, List.head?_cons, Option.any_some, if_neg]
      intro hc
      have hin : c ∈ (c :: s).takeWhile p := by simp [hq c hc]
      rw [h c hin] at hc
      exact Bool.false_ne_true hc
    rw [first_seq_star_set, hlast]
    split
    next hp =>
      rw [ih, Option.or_none]
      intro d hd
      exact h d (by rw [List.takeWhile_cons_of_pos hp]; exact List.mem_cons_of_mem c hd)
    next => rfl

/-- The match ends after the last letter of the subclass in the run. -/
theorem first_star_plus_eq {before rest : List σ} (hq : ∀ c, q c → p c)
    (hbefore : ∀ c ∈ before, p c) (hc : q c) (hrest : ∀ c ∈ rest.takeWhile p, q c = false) :
    (seq (star (set p)) (plus (set q))).first (before ++ c :: rest) = some rest := by
  induction before with
  | nil =>
    have hstop : rest.dropWhile q = rest := by
      cases rest with
      | nil => rfl
      | cons d rest =>
        refine List.dropWhile_cons_of_neg fun hd => ?_
        rw [hrest d (by simp [hq d hd])] at hd
        exact Bool.false_ne_true hd
    rw [List.nil_append, first_seq_star_set, if_pos (hq c hc), first_star_plus_eq_none hq hrest,
      Option.none_or, first_plus_set, List.head?_cons, Option.any_some, if_pos hc,
      List.dropWhile_cons_of_pos hc, hstop]
  | cons b before ih =>
    obtain ⟨hb, hbefore⟩ := List.forall_mem_cons.mp hbefore
    rw [List.cons_append, first_seq_star_set, if_pos hb, ih hbefore, Option.some_or]

/-- Nothing is ahead of a run at the end of the text. -/
theorem first_star_notAhead_end (h : ∀ c ∈ s, p c) :
    (seq (star (set p)) (notAhead (set q))).first s = some [] := by
  induction s with
  | nil => rfl
  | cons c s ih =>
    obtain ⟨hc, hs⟩ := List.forall_mem_cons.mp h
    rw [first_seq_star_set, if_pos hc, ih hs, Option.some_or]

/-- No letter of the run can be taken. -/
theorem first_star_notAhead_eq_none (hp : p c = false) (hq : q c) :
    (seq (star (set p)) (notAhead (set q))).first (c :: s) = none := by
  rw [first_seq_star_set, if_neg (by simp [hp]), first_notAhead_set_cons, if_pos hq]

/-- The last letter of the run is left. -/
theorem first_star_notAhead_eq {before : List σ} {d : σ} (hbefore : ∀ c ∈ before, p c) (hc : p c)
    (hc' : q c = false) (hd : p d = false) (hd' : q d) :
    (seq (star (set p)) (notAhead (set q))).first (before ++ c :: d :: s) = some (c :: d :: s) := by
  induction before with
  | nil =>
    rw [List.nil_append, first_seq_star_set, if_pos hc, first_star_notAhead_eq_none hd hd',
      Option.none_or, first_notAhead_set_cons, if_neg (by simp [hc'])]
  | cons b before ih =>
    obtain ⟨hb, hbefore⟩ := List.forall_mem_cons.mp hbefore
    rw [List.cons_append, first_seq_star_set, if_pos hb, ih hbefore, Option.some_or]

end Runs

end Regex
