import Mathlib.Order.Basic
import Mathlib.Tactic.Ring

/-!
# Loops that may fail or break

A `while` loop whose body may throw, leave the loop, or go on. `Loop.run` executes it
with a fuel; `Loop.Reaches` is the relation between the state before the loop and the
states in which the guard is evaluated, and `Loop.Leaves` is how the loop is left from
such a state.

An invariant of the reached states is an invariant of the run: `Loop.Reaches.invariant`
is the induction, and `Loop.run_ok` and `Loop.run_error` say that a run that has enough
fuel for the variant ends in a reached state. The fuel is then no part of any statement
(`Loop.run_eq_of_le`).
-/

namespace Loop

/-- What one pass through the body does: start over, or leave the loop. -/
inductive Pass (σ : Type*)
  | next (s : σ)
  | leave (s : σ)

/-- The state after a pass. -/
def Pass.state {σ : Type*} : Pass σ → σ
  | .next s => s
  | .leave s => s

variable {ε σ : Type*} (guard : σ → Bool) (body : σ → Except ε (Pass σ))

/-- The loop, for at most so many passes. -/
def run : Nat → σ → Except ε σ
  | 0, s => .ok s
  | fuel + 1, s =>
    if guard s then
      match body s with
      | .error e => .error e
      | .ok (.leave s) => .ok s
      | .ok (.next s) => run fuel s
    else .ok s

variable {guard body} in
/-- A loop that does not start. -/
theorem run_of_not_guard {s : σ} (h : guard s = false) (fuel : Nat) :
    run guard body fuel s = .ok s := by
  cases fuel with
  | zero => rfl
  | succ fuel => rw [run, if_neg (by simp [h])]

section Passes

variable {guard body} {s s₁ : σ}

theorem run_next (hguard : guard s = true) (hbody : body s = .ok (.next s₁)) (fuel : Nat) :
    run guard body (fuel + 1) s = run guard body fuel s₁ := by
  rw [run, if_pos hguard, hbody]

theorem run_leave (hguard : guard s = true) (hbody : body s = .ok (.leave s₁)) (fuel : Nat) :
    run guard body (fuel + 1) s = .ok s₁ := by
  rw [run, if_pos hguard, hbody]

end Passes

/-- The states in which the guard is evaluated. -/
inductive Reaches (s : σ) : σ → Prop
  | start : Reaches s s
  | pass {s₁ s₂ : σ} (h : Reaches s s₁) (hguard : guard s₁ = true)
      (hbody : body s₁ = .ok (.next s₂)) : Reaches s s₂

/-- How the loop is left from a state in which the guard is evaluated. -/
inductive Leaves (s : σ) : σ → Prop
  | guard (h : guard s = false) : Leaves s s
  | leave {s' : σ} (hguard : guard s = true) (hbody : body s = .ok (.leave s')) : Leaves s s'

variable {guard body} {s s₁ s₂ s' : σ}

/-- **An invariant of the body is an invariant of the loop.** -/
theorem Reaches.invariant {Inv : σ → Prop} (h : Reaches guard body s s₁) (h0 : Inv s)
    (hstep : ∀ s s', Inv s → guard s = true → body s = .ok (.next s') → Inv s') : Inv s₁ := by
  induction h with
  | start => exact h0
  | pass _ hguard hbody ih => exact hstep _ _ ih hguard hbody

theorem Reaches.trans (h : Reaches guard body s s₁) (h' : Reaches guard body s₁ s₂) :
    Reaches guard body s s₂ := by
  induction h' with
  | start => exact h
  | pass _ hguard hbody ih => exact .pass ih hguard hbody

/-- One pass in front. -/
theorem Reaches.head (hguard : guard s = true) (hbody : body s = .ok (.next s₁))
    (h : Reaches guard body s₁ s₂) : Reaches guard body s s₂ :=
  (Reaches.start.pass hguard hbody).trans h

/-- **An invariant of the body holds where the loop ends**, however it ends. -/
theorem run_invariant {Inv : σ → Prop}
    (hstep : ∀ s r, Inv s → guard s = true → body s = .ok r → Inv r.state) {fuel : Nat} (h0 : Inv s)
    (h : run guard body fuel s = .ok s') : Inv s' := by
  induction fuel generalizing s with
  | zero =>
    obtain rfl : s = s' := by simpa [run] using h
    exact h0
  | succ fuel ih =>
    rw [run] at h
    split at h
    · next hguard =>
      split at h
      · cases h
      · next s₁ hbody =>
        obtain rfl := Except.ok.inj h
        exact hstep s (.leave s₁) h0 hguard hbody
      · next s₁ hbody => exact ih (hstep s (.next s₁) h0 hguard hbody) h
    · obtain rfl := Except.ok.inj h
      exact h0

/-! ### Variants -/

/-- A variant: every pass makes it smaller, and the guard needs it positive. -/
structure Variant (guard : σ → Bool) (body : σ → Except ε (Pass σ)) (μ : σ → Nat) : Prop where
  pos : ∀ s, guard s = true → 0 < μ s
  lt : ∀ s s', guard s = true → body s = .ok (.next s') → μ s' < μ s

variable {μ : σ → Nat}

/-- **A run that returns ends where the loop is left.** -/
theorem run_ok (hμ : Variant guard body μ) {fuel : Nat} (hfuel : μ s ≤ fuel)
    (h : run guard body fuel s = .ok s') :
    ∃ s₁, Reaches guard body s s₁ ∧ Leaves guard body s₁ s' := by
  induction fuel generalizing s with
  | zero =>
    obtain rfl : s = s' := by simpa [run] using h
    refine ⟨s, .start, .guard ?_⟩
    by_contra hguard
    have hpos := hμ.pos s (by simpa using hguard)
    omega
  | succ fuel ih =>
    rw [run] at h
    by_cases hguard : guard s = true
    · rw [if_pos hguard] at h
      rcases hbody : body s with e | ⟨s₁⟩ | ⟨s₁⟩
      · simp [hbody] at h
      · rw [hbody] at h
        have hlt := hμ.lt s s₁ hguard hbody
        obtain ⟨s₂, hreach, hleave⟩ := ih (by omega) h
        exact ⟨s₂, .head hguard hbody hreach, hleave⟩
      · rw [hbody] at h
        obtain rfl : s₁ = s' := by simpa using h
        exact ⟨s, .start, .leave hguard hbody⟩
    · rw [if_neg hguard] at h
      obtain rfl : s = s' := by simpa using h
      exact ⟨s, .start, .guard (by simpa using hguard)⟩

/-- **A run that returns**, where the passes get nearer to the end as long as an invariant holds. -/
theorem run_ok_of_invariant {Inv : σ → Prop} (hpos : ∀ s, guard s = true → 0 < μ s)
    (hstep : ∀ s s', Inv s → guard s = true → body s = .ok (.next s') → Inv s' ∧ μ s' < μ s)
    {fuel : Nat} (hfuel : μ s ≤ fuel) (hinv : Inv s) (h : run guard body fuel s = .ok s') :
    ∃ s₁, Reaches guard body s s₁ ∧ Inv s₁ ∧ Leaves guard body s₁ s' := by
  induction fuel generalizing s with
  | zero =>
    obtain rfl : s = s' := by simpa [run] using h
    refine ⟨s, .start, hinv, .guard ?_⟩
    by_contra hguard
    have hlt := hpos s (by simpa using hguard)
    omega
  | succ fuel ih =>
    rw [run] at h
    by_cases hguard : guard s = true
    · rw [if_pos hguard] at h
      rcases hbody : body s with e | ⟨s₁⟩ | ⟨s₁⟩
      · simp [hbody] at h
      · rw [hbody] at h
        obtain ⟨hinv₁, hlt⟩ := hstep s s₁ hinv hguard hbody
        obtain ⟨s₂, hreach, hinv₂, hleave⟩ := ih (by omega) hinv₁ h
        exact ⟨s₂, .head hguard hbody hreach, hinv₂, hleave⟩
      · rw [hbody] at h
        obtain rfl : s₁ = s' := by simpa using h
        exact ⟨s, .start, hinv, .leave hguard hbody⟩
    · rw [if_neg hguard] at h
      obtain rfl : s = s' := by simpa using h
      exact ⟨s, .start, hinv, .guard (by simpa using hguard)⟩

/-- A run that throws threw in a reached state. -/
theorem run_error {fuel : Nat} {e : ε} (h : run guard body fuel s = .error e) :
    ∃ s₁, Reaches guard body s s₁ ∧ guard s₁ = true ∧ body s₁ = .error e := by
  induction fuel generalizing s with
  | zero => simp [run] at h
  | succ fuel ih =>
    rw [run] at h
    by_cases hguard : guard s = true
    · rw [if_pos hguard] at h
      rcases hbody : body s with e' | ⟨s₁⟩ | ⟨s₁⟩
      · rw [hbody] at h
        obtain rfl : e' = e := by simpa using h
        exact ⟨s, .start, hguard, hbody⟩
      · rw [hbody] at h
        obtain ⟨s₂, hreach, hthrow⟩ := ih h
        exact ⟨s₂, .head hguard hbody hreach, hthrow⟩
      · simp [hbody] at h
    · simp [if_neg hguard] at h

/-- **Enough fuel is enough.** -/
theorem run_eq_of_le (hμ : Variant guard body μ) {fuel fuel' : Nat} (h : μ s ≤ fuel)
    (h' : μ s ≤ fuel') : run guard body fuel s = run guard body fuel' s := by
  induction fuel generalizing s fuel' with
  | zero =>
    have hguard : ¬guard s = true := fun hguard => by
      have hpos := hμ.pos s hguard
      omega
    cases fuel' with
    | zero => rfl
    | succ fuel' => rw [run, run, if_neg hguard]
  | succ fuel ih =>
    by_cases hguard : guard s = true
    · have hpos := hμ.pos s hguard
      obtain ⟨fuel', rfl⟩ : ∃ k, fuel' = k + 1 := ⟨fuel' - 1, by omega⟩
      rw [run, run, if_pos hguard, if_pos hguard]
      rcases hbody : body s with e | ⟨s₁⟩ | ⟨s₁⟩
      · rfl
      · have hlt := hμ.lt s s₁ hguard hbody
        exact ih (by omega) (by omega)
      · rfl
    · cases fuel' with
      | zero => rw [run, run, if_neg hguard]
      | succ fuel' => rw [run, run, if_neg hguard, if_neg hguard]

/-! ### Loops that may go on forever -/

/-- The loop comes to an end, by returning or by a throw. -/
inductive Returns (guard : σ → Bool) (body : σ → Except ε (Pass σ)) : σ → Except ε σ → Prop
  | guard {s : σ} (h : guard s = false) : Returns guard body s (.ok s)
  | leave {s s' : σ} (hguard : guard s = true) (hbody : body s = .ok (.leave s')) :
    Returns guard body s (.ok s')
  | throw {s : σ} {e : ε} (hguard : guard s = true) (hbody : body s = .error e) :
    Returns guard body s (.error e)
  | next {s s₁ : σ} {r : Except ε σ} (hguard : guard s = true) (hbody : body s = .ok (.next s₁))
      (h : Returns guard body s₁ r) : Returns guard body s r

/-- A loop that comes to an end does so with every fuel that is enough. -/
theorem Returns.run {r : Except ε σ} (h : Returns guard body s r) :
    ∃ passes, ∀ fuel, passes ≤ fuel → run guard body fuel s = r := by
  induction h with
  | guard h => exact ⟨0, fun fuel _ => run_of_not_guard h fuel⟩
  | leave hguard hbody =>
    refine ⟨1, fun fuel hfuel => ?_⟩
    obtain ⟨fuel, rfl⟩ := Nat.exists_eq_add_of_le' hfuel
    rw [Loop.run, if_pos hguard, hbody]
  | throw hguard hbody =>
    refine ⟨1, fun fuel hfuel => ?_⟩
    obtain ⟨fuel, rfl⟩ := Nat.exists_eq_add_of_le' hfuel
    rw [Loop.run, if_pos hguard, hbody]
  | next hguard hbody _ ih =>
    obtain ⟨passes, hpasses⟩ := ih
    refine ⟨passes + 1, fun fuel hfuel => ?_⟩
    obtain ⟨fuel, rfl⟩ := Nat.exists_eq_add_of_le' ((Nat.le_add_left 1 passes).trans hfuel)
    rw [Loop.run, if_pos hguard, hbody]
    exact hpasses fuel (by omega)

/-- It comes to one end. -/
theorem Returns.unique {r r' : Except ε σ} (h : Returns guard body s r)
    (h' : Returns guard body s r') : r = r' := by
  obtain ⟨passes, hpasses⟩ := h.run
  obtain ⟨passes', hpasses'⟩ := h'.run
  rw [← hpasses _ (Nat.le_max_left passes passes'), hpasses' _ (Nat.le_max_right passes passes')]

end Loop
