import Mathlib.Algebra.Group.Nat.Defs
import Qwen38.Lib.Except

/-!
# Checked operations

Programs that may throw, over operations that may not be defined: sums, differences and shifts that
do not fit in a machine word, positions outside a buffer, divisions by zero. A program stops at the
first of these, so that the absence of all of them is a property of its run.

`Checked.Ends x P` says that a program ends as it should: it throws, or it returns a value with `P`;
`Checked.Safe x` leaves the value out, and `Checked.Returns x P` is about nothing else. The rules
take a program apart at its sequences and loops, and each operation has its condition.
-/

namespace Checked

/-- How a program stops without a value. -/
inductive Stop (M : Type)
  | thrown (message : M)
  | wrapped
  | out_of_bounds
  | divided_by_zero

/-- A program. -/
abbrev Run (M : Type) (α : Type) := Except (Stop M) α

section Operations

variable {M : Type} {α β : Type}

/-- The check of a program that throws. -/
def refuse_if (c : Prop) [Decidable c] (message : M) : Run M Unit := Except.throw_if c (.thrown message)

/-- A program that may only throw. -/
def lift {N : Type} (f : N → M) (x : Except N α) : Run M α :=
  x.mapError fun message => .thrown (f message)

/-- A sum in a word of `bits` bits. -/
def add (bits a b : Nat) : Run M Nat := if a + b < 2 ^ bits then .ok (a + b) else .error .wrapped

/-- A difference of unsigned numbers. -/
def sub (a b : Nat) : Run M Nat := if b ≤ a then .ok (a - b) else .error .wrapped

/-- A shift to the left. -/
def shift_left (bits a count : Nat) : Run M Nat :=
  if a <<< count < 2 ^ bits then .ok (a <<< count) else .error .wrapped

/-- A position of a buffer. -/
def get (buffer : List α) (place : Nat) : Run M α :=
  match buffer[place]? with
  | some a => .ok a
  | none => .error .out_of_bounds

/-- A part of a buffer. -/
def slice (buffer : List α) (offset count : Nat) : Run M (List α) :=
  if offset + count ≤ buffer.length then .ok ((buffer.drop offset).take count)
  else .error .out_of_bounds

/-- A quotient. -/
def div [Div α] [OfNat α 0] [DecidableEq α] (a b : α) : Run M α :=
  if b = 0 then .error .divided_by_zero else .ok (a / b)

/-- A remainder. -/
def mod [Mod α] [OfNat α 0] [DecidableEq α] (a b : α) : Run M α :=
  if b = 0 then .error .divided_by_zero else .ok (a % b)

end Operations

/-! ### Programs that end as they should -/

/-- The program throws, or it returns a value with `P`. -/
def Ends {M α : Type} (x : Run M α) (P : α → Prop) : Prop :=
  match x with
  | .ok a => P a
  | .error (.thrown _) => True
  | .error _ => False

namespace Ends

variable {M : Type} {α β : Type} {x : Run M α} {P Q : α → Prop}

theorem ok {a : α} (h : P a) : Ends (.ok a : Run M α) P := h

theorem thrown (message : M) : Ends (.error (.thrown message) : Run M α) P := trivial

theorem of_eq_ok (h : Ends x P) {a : α} (hx : x = .ok a) : P a := by
  rw [hx] at h
  exact h

/-- **A sequence.** -/
theorem bind {f : α → Run M β} {R : β → Prop} (h : Ends x P) (hf : ∀ a, P a → Ends (f a) R) :
    Ends (x >>= f) R := by
  cases x with
  | ok a => exact hf a h
  | error stop => cases stop <;> exact h

theorem mono (h : Ends x P) (hPQ : ∀ a, P a → Q a) : Ends x Q := by
  cases x with
  | ok a => exact hPQ a h
  | error stop => cases stop <;> exact h

/-- **A loop over a list**, with an invariant. -/
theorem foldlM {σ γ : Type} {f : σ → γ → Run M σ} {I : σ → Prop} {l : List γ} {s : σ} (hs : I s)
    (hstep : ∀ s, I s → ∀ c ∈ l, Ends (f s c) I) : Ends (l.foldlM f s) I := by
  induction l generalizing s with
  | nil => exact hs
  | cons c l ih =>
    rw [List.foldlM_cons]
    refine (hstep s hs c List.mem_cons_self).bind fun s hs => ?_
    exact ih hs fun s hs c hc => hstep s hs c (List.mem_cons_of_mem _ hc)

/-- A loop that collects its results. -/
theorem mapM {γ : Type} {f : γ → Run M α} {l : List γ} (hstep : ∀ c ∈ l, Ends (f c) P) :
    Ends (l.mapM f) fun results => ∀ a ∈ results, P a := by
  induction l with
  | nil =>
    rw [List.mapM_nil]
    exact fun a ha => absurd ha List.not_mem_nil
  | cons c l ih =>
    rw [List.mapM_cons]
    refine (hstep c List.mem_cons_self).bind fun a ha => ?_
    refine (ih fun c hc => hstep c (List.mem_cons_of_mem _ hc)).bind fun results hresults => ?_
    exact List.forall_mem_cons.mpr ⟨ha, hresults⟩

end Ends

/-! ### Programs without undefined operations -/

/-- The program throws or returns. -/
def Safe {M α : Type} (x : Run M α) : Prop := Ends x fun _ => True

namespace Safe

variable {M : Type} {α β : Type} {x : Run M α} {f : α → Run M β}

theorem ok (a : α) : Safe (.ok a : Run M α) := trivial

theorem thrown (message : M) : Safe (.error (.thrown message) : Run M α) := trivial

/-- **A sequence.** -/
theorem bind (h : Safe x) (hf : ∀ a, Safe (f a)) : Safe (x >>= f) := Ends.bind h fun a _ => hf a

/-- A sequence, when its first part is safe. -/
theorem bind_iff (h : Safe x) : Safe (x >>= f) ↔ ∀ a, x = .ok a → Safe (f a) := by
  cases x with
  | ok a =>
    constructor
    · rintro hf _ ⟨⟩
      exact hf
    · exact fun hf => hf a rfl
  | error stop =>
    refine ⟨fun _ a ha => absurd ha Except.error_ne_ok, fun _ => ?_⟩
    cases stop <;> exact h

/-- The first part of a safe sequence. -/
theorem of_bind (h : Safe (x >>= f)) : Safe x := by
  cases x with
  | ok a => exact trivial
  | error stop => cases stop <;> exact h

/-- Loops over a list. -/
theorem foldlM {σ γ : Type} {f : σ → γ → Run M σ} (hstep : ∀ s c, Safe (f s c)) (l : List γ) (s : σ) :
    Safe (l.foldlM f s) :=
  Ends.foldlM (I := fun _ => True) trivial fun s _ c _ => hstep s c

theorem mapM {γ : Type} {f : γ → Run M α} (hstep : ∀ c, Safe (f c)) (l : List γ) : Safe (l.mapM f) :=
  (Ends.mapM fun c _ => hstep c).mono fun _ _ => trivial

theorem forM {γ : Type} {f : γ → Run M PUnit} (hstep : ∀ c, Safe (f c)) (l : List γ) :
    Safe (l.forM f) := by
  induction l with
  | nil => exact trivial
  | cons c l ih => exact (hstep c).bind fun _ => ih

end Safe

theorem Ends.safe {M α : Type} {x : Run M α} {P : α → Prop} (h : Ends x P) : Safe x :=
  h.mono fun _ _ => trivial

/-! ### What a program returns -/

/-- If the program returns, its value has `P`. -/
def Returns {M α : Type} (x : Run M α) (P : α → Prop) : Prop := ∀ a, x = .ok a → P a

namespace Returns

variable {M : Type} {α β : Type} {x : Run M α} {P Q : α → Prop}

theorem ok {a : α} (h : P a) : Returns (.ok a : Run M α) P := by
  rintro _ ⟨⟩
  exact h

theorem error (stop : Stop M) : Returns (.error stop : Run M α) P := by
  rintro _ ⟨⟩

theorem self (x : Run M α) : Returns x fun a => x = .ok a := fun _ h => h

theorem mono (h : Returns x P) (hPQ : ∀ a, P a → Q a) : Returns x Q := fun a ha => hPQ a (h a ha)

/-- **A sequence.** -/
theorem bind {f : α → Run M β} {R : β → Prop} (h : Returns x P) (hf : ∀ a, P a → Returns (f a) R) :
    Returns (x >>= f) R := by
  intro b hb
  obtain ⟨a, ha, hfa⟩ := Except.bind_eq_ok.mp hb
  exact hf a (h a ha) b hfa

/-- A sequence of which the first part does not matter. -/
theorem skip {f : α → Run M β} {R : β → Prop} (hf : ∀ a, Returns (f a) R) : Returns (x >>= f) R :=
  (self x).bind fun a _ => hf a

/-- **A loop over a list**; the invariant knows the elements so far. -/
theorem foldlM {σ γ : Type} {f : σ → γ → Run M σ} {I : List γ → σ → Prop} {s : σ} (hs : I [] s)
    (hstep : ∀ done s c, I done s → Returns (f s c) (I (done ++ [c]))) (l : List γ) :
    Returns (l.foldlM f s) (I l) :=
  fun _ hrun => Except.foldlM_inv hs (fun done s c s' hs hnext => hstep done s c hs s' hnext) hrun

/-- A loop that collects its results. -/
theorem mapM {γ : Type} {f : γ → Run M α} (l : List γ) (hstep : ∀ c, Returns (f c) P) :
    Returns (l.mapM f) fun results => ∀ a ∈ results, P a := by
  induction l with
  | nil =>
    rw [List.mapM_nil]
    exact ok fun a ha => absurd ha List.not_mem_nil
  | cons c l ih =>
    rw [List.mapM_cons]
    refine (hstep c).bind fun a ha => ih.bind fun results hresults => ok ?_
    exact List.forall_mem_cons.mpr ⟨ha, hresults⟩

/-- A loop of checks. -/
theorem forM {γ : Type} {f : γ → Run M PUnit} {R : γ → Prop} (l : List γ)
    (hstep : ∀ c, Returns (f c) fun _ => R c) : Returns (l.forM f) fun _ => ∀ c ∈ l, R c := by
  induction l with
  | nil => exact fun _ _ c hc => absurd hc List.not_mem_nil
  | cons c l ih =>
    change Returns (f c >>= fun _ => l.forM f) _
    exact (hstep c).bind fun _ hc => ih.mono fun _ hl => List.forall_mem_cons.mpr ⟨hc, hl⟩

end Returns

theorem Ends.returns {M α : Type} {x : Run M α} {P : α → Prop} (h : Ends x P) : Returns x P :=
  fun _ hx => h.of_eq_ok hx

/-! ### The operations -/

section Rules

variable {M : Type} {α : Type} {a b bits count offset place : Nat} {buffer : List α}

theorem ends_refuse_if (c : Prop) [Decidable c] (message : M) :
    Ends (refuse_if c message) fun _ => ¬c := by
  rw [refuse_if, Except.throw_if]
  split
  · exact trivial
  · next h => exact h

theorem refuse_if_of_not {c : Prop} [Decidable c] (h : ¬c) (message : M) :
    refuse_if c message = .ok () := Except.throw_if_of_not h

theorem safe_refuse_if (c : Prop) [Decidable c] (message : M) : Safe (refuse_if c message) :=
  (ends_refuse_if c message).safe

theorem safe_lift {N : Type} (f : N → M) (x : Except N α) : Safe (lift f x) := by
  cases x <;> exact trivial

theorem ends_lift {N : Type} (f : N → M) (x : Except N α) : Ends (lift f x) fun a => x = .ok a := by
  cases x with
  | ok a => exact rfl
  | error message => exact trivial

theorem ends_add (h : a + b < 2 ^ bits) : Ends (add bits a b : Run M Nat) (· = a + b) := by
  rw [add, if_pos h]
  exact rfl

theorem ends_sub (h : b ≤ a) : Ends (sub a b : Run M Nat) (· = a - b) := by
  rw [sub, if_pos h]
  exact rfl

theorem shift_left_eq (h : a <<< count < 2 ^ bits) :
    (shift_left bits a count : Run M Nat) = .ok (a <<< count) := if_pos h

theorem get_eq (h : place < buffer.length) : (get buffer place : Run M α) = .ok buffer[place] := by
  rw [get, List.getElem?_eq_getElem h]

theorem slice_eq (h : offset + count ≤ buffer.length) :
    (slice buffer offset count : Run M (List α)) = .ok ((buffer.drop offset).take count) := if_pos h

theorem ends_slice (h : offset + count ≤ buffer.length) :
    Ends (slice buffer offset count : Run M (List α)) (· = (buffer.drop offset).take count) := by
  rw [slice, if_pos h]
  exact rfl

theorem div_eq [Div α] [OfNat α 0] [DecidableEq α] {a b : α} (h : b ≠ 0) :
    (div a b : Run M α) = .ok (a / b) := if_neg h

theorem mod_eq [Mod α] [OfNat α 0] [DecidableEq α] {a b : α} (h : b ≠ 0) :
    (mod a b : Run M α) = .ok (a % b) := if_neg h

theorem length_take_drop (h : offset + count ≤ buffer.length) :
    ((buffer.drop offset).take count).length = count := by
  rw [List.length_take, List.length_drop]
  omega

end Rules

end Checked
