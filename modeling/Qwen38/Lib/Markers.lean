import Mathlib.Data.List.Infix
import Mathlib.Data.List.Nodup
import Mathlib.Tactic.Common

/-!
# Marker words in a text

Some words are markers: they begin with a letter that they hold nowhere else, and none is the
beginning of another. `Markers.marks` reads the markers of a text from left to right, wherever
they stand.

Two texts are put together without a new marker where the second begins with a letter that no
marker goes on with (`Markers.marks_append`): the leading letter is one, and so is any letter
outside the markers.
-/

namespace Markers

variable {α : Type*} [DecidableEq α]

/-- The markers of a text, in order. -/
def marks (words : List (List α)) : List α → List (List α)
  | [] => []
  | letter :: text => (words.filter (· <+: letter :: text)) ++ marks words text

/-- Words that can be told apart wherever they stand. -/
structure Marking (lead : α) (words : List (List α)) : Prop where
  shape : ∀ word ∈ words, ∃ rest, word = lead :: rest ∧ lead ∉ rest
  apart : ∀ word ∈ words, ∀ other ∈ words, word <+: other → word = other
  nodup : words.Nodup

omit [DecidableEq α] in
/-- A word without a letter does not reach over it. -/
theorem prefix_append_cons_iff {word before after : List α} {letter : α} (h : letter ∉ word) :
    word <+: before ++ letter :: after ↔ word <+: before := by
  constructor
  · intro hword
    rcases List.prefix_or_prefix_of_prefix hword (List.prefix_append _ _) with hshort | hlong
    · exact hshort
    · obtain ⟨rest, rfl⟩ := hlong
      rw [List.prefix_append_right_inj] at hword
      cases rest with
      | nil => rw [List.append_nil]
      | cons first rest =>
        obtain ⟨rfl, -⟩ := List.cons_prefix_cons.mp hword
        exact absurd (List.mem_append_right _ List.mem_cons_self) h
  · exact fun hword => hword.trans (List.prefix_append _ _)

variable {lead : α} {words : List (List α)} (h : Marking lead words)

section Append

variable {before after : List α} {letter : α}

include h

/-- **No marker comes up at the border**, where no marker goes on with the letter there. -/
theorem marks_append (hletter : ∀ word ∈ words, letter ∉ word.tail) :
    marks words (before ++ letter :: after) =
      marks words before ++ marks words (letter :: after) := by
  induction before with
  | nil => rfl
  | cons first before ih =>
    rw [List.cons_append, marks, marks, ih, ← List.append_assoc]
    refine congrArg (· ++ _ ++ _) (List.filter_congr fun word hword => ?_)
    obtain ⟨rest, rfl, -⟩ := h.shape word hword
    have hrest : letter ∉ rest := hletter _ hword
    rw [decide_eq_decide, List.cons_prefix_cons, List.cons_prefix_cons,
      prefix_append_cons_iff hrest]

/-- A letter that is not the leading one begins no marker. -/
theorem marks_cons (hne : letter ≠ lead) : marks words (letter :: after) = marks words after := by
  rw [marks]
  refine (congrArg (· ++ _) (List.filter_eq_nil_iff.mpr fun word hword hstarts => ?_)).trans
    (List.nil_append _)
  obtain ⟨rest, rfl, -⟩ := h.shape word hword
  exact hne (List.cons_prefix_cons.mp (of_decide_eq_true hstarts)).1.symm

/-- A letter outside the markers separates. -/
theorem marks_append_separator (hletter : ∀ word ∈ words, letter ∉ word) (hne : letter ≠ lead) :
    marks words (before ++ letter :: after) = marks words before ++ marks words after := by
  rw [marks_append h fun word hword hmem => hletter word hword (List.mem_of_mem_tail hmem),
    marks_cons h hne]

/-- A text without the leading letter has no marker. -/
theorem marks_of_not_mem (hmem : lead ∉ before) : marks words (before ++ after) = marks words after := by
  induction before with
  | nil => rfl
  | cons first before ih =>
    rw [List.cons_append, marks_cons h fun heq => hmem (heq ▸ List.mem_cons_self),
      ih fun hlater => hmem (List.mem_cons_of_mem _ hlater)]

/-- **A marker is read**, and the text goes on behind it. -/
theorem marks_word {word : List α} (hword : word ∈ words) :
    marks words (word ++ after) = word :: marks words after := by
  obtain ⟨rest, rfl, hrest⟩ := h.shape word hword
  have honly : words.filter (· <+: lead :: (rest ++ after)) = [lead :: rest] := by
    have hsame : ∀ other ∈ words, decide (other <+: lead :: (rest ++ after)) =
        (other == lead :: rest) := by
      intro other hother
      rw [Bool.eq_iff_iff, decide_eq_true_iff, beq_iff_eq]
      constructor
      · intro hstarts
        rcases List.prefix_or_prefix_of_prefix hstarts
            (show lead :: rest <+: lead :: (rest ++ after) from List.prefix_append _ _) with hle | hle
        · exact h.apart _ hother _ hword hle
        · exact (h.apart _ hword _ hother hle).symm
      · rintro rfl
        exact List.prefix_append (lead :: rest) after
    rw [List.filter_congr hsame, List.filter_beq, List.count_eq_one_of_mem h.nodup hword]
    rfl
  rw [List.cons_append, marks, honly, marks_of_not_mem h hrest]
  rfl

end Append

/-! ### Texts without markers -/

include h in
/-- A text has no markers when no marker stands in it. -/
theorem marks_eq_nil_iff {text : List α} :
    marks words text = [] ↔ ∀ word ∈ words, ¬word <:+: text := by
  induction text with
  | nil =>
    refine ⟨fun _ word hword hin => ?_, fun _ => rfl⟩
    obtain ⟨rest, rfl, -⟩ := h.shape word hword
    exact List.cons_ne_nil _ _ (List.infix_nil.mp hin)
  | cons letter text ih =>
    rw [marks, List.append_eq_nil_iff, ih, List.filter_eq_nil_iff]
    simp only [List.infix_cons_iff, decide_eq_true_eq, not_or]
    exact ⟨fun hnone word hword => ⟨hnone.1 word hword, hnone.2 word hword⟩,
      fun hnone => ⟨fun word hword => (hnone word hword).1, fun word hword => (hnone word hword).2⟩⟩

end Markers
