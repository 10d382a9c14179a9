import Mathlib.Data.List.Basic
import Mathlib.Data.Set.Basic

/-!
# Sending a text in pieces

A text arrives in parts of any size and goes out in pieces that are not to be cut inside a
word. A rule says how much of what waits may go (`HoldBack.Rule`): it looks at what has
arrived only, so it has to be right whatever comes next.

What has been sent is then cut between words, whatever comes next (`HoldBack.Cut`), and
with what waits it is the whole text (`HoldBack.Sent`). Both are kept by every part that
arrives (`HoldBack.Sent.push`), and sending the rest at the end cuts no word either
(`HoldBack.Sent.flush`).
-/

namespace HoldBack

variable {α : Type*} (words : Set (List α))

/-- The position is inside a word of the text. -/
def Inside (text : List α) (k : ℕ) : Prop :=
  ∃ w ∈ words, ∃ i < k, k < i + w.length ∧ w <+: text.drop i

/-- How much of what waits may go: not up to the inside of a word, whatever comes next. -/
structure Rule where
  ready : List α → ℕ
  le : ∀ text, ready text ≤ text.length
  not_inside : ∀ text more, ¬Inside words (text ++ more) (ready text)

variable {words} {text more front : List α} {k : ℕ}

/-- The end of a text is not inside a word. -/
theorem not_inside_of_le (h : text.length ≤ k) : ¬Inside words text k := by
  rintro ⟨w, -, i, hi, hk, hw⟩
  have hle := hw.length_le
  rw [List.length_drop] at hle
  omega

/-- A word that begins behind the front is one of the rest. -/
theorem Inside.of_append (h : Inside words (front ++ text) (front.length + k)) :
    (∃ i < front.length, ∃ w ∈ words, front.length + k < i + w.length ∧
      w <+: (front ++ text).drop i) ∨ Inside words text k := by
  obtain ⟨w, hmem, i, hi, hk, hw⟩ := h
  rcases Nat.lt_or_ge i front.length with hlt | hge
  · exact Or.inl ⟨i, hlt, w, hmem, hk, hw⟩
  · obtain ⟨j, rfl⟩ := Nat.exists_eq_add_of_le hge
    rw [List.drop_length_add_append] at hw
    exact Or.inr ⟨w, hmem, j, by omega, by omega, hw⟩

/-- Where the front is not cut inside a word, what follows is cut like a text of its own. -/
theorem not_inside_append (hfront : ¬Inside words (front ++ text) front.length)
    (h : ¬Inside words text k) : ¬Inside words (front ++ text) (front.length + k) := by
  intro hinside
  rcases hinside.of_append with ⟨i, hi, w, hmem, hk, hw⟩ | hinside
  · exact hfront ⟨w, hmem, i, hi, by omega, hw⟩
  · exact h hinside

/-! ### What has been sent -/

/-- The pieces are the beginning of the text, and none ends inside a word, whatever comes
next. -/
structure Cut (words : Set (List α)) (text : List α) (pieces : List (List α)) : Prop where
  begins : pieces.flatten <+: text
  uncut : ∀ sent, sent <+: pieces → ∀ more, ¬Inside words (text ++ more) sent.flatten.length

/-- The pieces and what waits are the text. -/
structure Sent (words : Set (List α)) (text : List α) (pieces : List (List α))
    (held : List α) : Prop extends Cut words text pieces where
  flatten_append : pieces.flatten ++ held = text

variable {pieces : List (List α)} {held : List α}

/-- Before anything arrives. -/
theorem sent_nil : Sent words [] [] [] := by
  refine ⟨⟨List.nil_prefix, fun sent hsent more hinside => ?_⟩, rfl⟩
  obtain rfl := List.prefix_nil.mp hsent
  obtain ⟨_, _, i, hi, _⟩ := hinside
  exact absurd hi (Nat.not_lt_zero i)

/-- More may arrive. -/
theorem Cut.append (h : Cut words text pieces) (more : List α) : Cut words (text ++ more) pieces := by
  refine ⟨h.begins.trans (List.prefix_append text more), fun sent hsent rest => ?_⟩
  rw [List.append_assoc]
  exact h.uncut sent hsent (more ++ rest)

theorem Sent.append (h : Sent words text pieces held) (more : List α) :
    Sent words (text ++ more) pieces (held ++ more) :=
  ⟨h.toCut.append more, by rw [← List.append_assoc, h.flatten_append]⟩

/-- **What the rule lets go.** -/
theorem Sent.send (rule : Rule words) (h : Sent words text pieces held) :
    Sent words text (pieces ++ [held.take (rule.ready held)]) (held.drop (rule.ready held)) := by
  have hflatten : (pieces ++ [held.take (rule.ready held)]).flatten =
      pieces.flatten ++ held.take (rule.ready held) := by
    rw [List.flatten_append, List.flatten_singleton]
  have hall : pieces.flatten ++ held.take (rule.ready held) ++ held.drop (rule.ready held) =
      text := by
    rw [List.append_assoc, List.take_append_drop, h.flatten_append]
  refine ⟨⟨?_, fun sent hsent more => ?_⟩, ?_⟩
  · rw [hflatten]
    exact ⟨_, hall⟩
  · rcases List.prefix_concat_iff.mp hsent with rfl | hsent
    · -- The new cut: what was sent before it is not cut inside a word, and the rule cuts the rest.
      have hfront := h.uncut pieces (List.prefix_refl pieces) more
      rw [← h.flatten_append, List.append_assoc] at hfront ⊢
      rw [hflatten, List.length_append, List.length_take, Nat.min_eq_left (rule.le held)]
      exact not_inside_append hfront (rule.not_inside held more)
    · exact h.uncut sent hsent more
  · rw [hflatten, hall]

/-- **A part arrives.** -/
theorem Sent.push (rule : Rule words) (h : Sent words text pieces held) (part : List α) :
    Sent words (text ++ part) (pieces ++ [(held ++ part).take (rule.ready (held ++ part))])
      ((held ++ part).drop (rule.ready (held ++ part))) :=
  (h.append part).send rule

/-! ### The end -/

/-- The pieces are the text, and none ends inside a word of it. -/
structure Whole (words : Set (List α)) (text : List α) (pieces : List (List α)) : Prop where
  flatten : pieces.flatten = text
  uncut : ∀ sent, sent <+: pieces → ¬Inside words text sent.flatten.length

/-- Nothing waits. -/
theorem Sent.whole (h : Sent words text pieces []) : Whole words text pieces := by
  have hflatten := h.flatten_append
  rw [List.append_nil] at hflatten
  refine ⟨hflatten, fun sent hsent => ?_⟩
  have huncut := h.uncut sent hsent []
  rwa [List.append_nil] at huncut

/-- **The rest goes out at the end.** -/
theorem Sent.flush (h : Sent words text pieces held) : Whole words text (pieces ++ [held]) := by
  have hflatten : (pieces ++ [held]).flatten = text := by
    rw [List.flatten_append, List.flatten_singleton, h.flatten_append]
  refine ⟨hflatten, fun sent hsent => ?_⟩
  rcases List.prefix_concat_iff.mp hsent with rfl | hsent
  · exact not_inside_of_le (by rw [hflatten])
  · have huncut := h.uncut sent hsent []
    rwa [List.append_nil] at huncut

end HoldBack
