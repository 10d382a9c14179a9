import Mathlib.Data.List.Basic

/-!
# Programs that may throw

The rules for taking a program in `Except` apart: what a sequence returns
(`Except.bind_eq_ok`), where it throws (`Except.bind_eq_error`), and the check that throws
when a condition holds (`Except.throw_if`).
-/

namespace Except

universe u v

variable {ε : Type v} {α β : Type u}

@[simp] theorem ok_bind (a : α) (f : α → Except ε β) : (Except.ok a >>= f) = f a := rfl

@[simp] theorem error_bind (e : ε) (f : α → Except ε β) :
    ((Except.error e : Except ε α) >>= f) = .error e := rfl

@[simp] theorem pure_eq_ok (a : α) : (pure a : Except ε α) = .ok a := rfl

theorem error_ne_ok {e : ε} {a : α} : (Except.error e : Except ε α) ≠ .ok a := by
  intro h
  cases h

theorem toOption_eq_some {x : Except ε α} {a : α} : x.toOption = some a ↔ x = .ok a := by
  cases x <;> simp [Except.toOption]

/-- What a sequence returns. -/
theorem bind_eq_ok {x : Except ε α} {f : α → Except ε β} {b : β} :
    (x >>= f) = .ok b ↔ ∃ a, x = .ok a ∧ f a = .ok b := by
  cases x with
  | error e => simp
  | ok a => simp

/-- Where a sequence throws. -/
theorem bind_eq_error {x : Except ε α} {f : α → Except ε β} {e : ε} :
    (x >>= f) = .error e ↔ x = .error e ∨ ∃ a, x = .ok a ∧ f a = .error e := by
  cases x with
  | error e' => simp
  | ok a => simp

/-- The check that throws when a condition holds. -/
def throw_if (c : Prop) [Decidable c] (e : ε) : Except ε Unit := if c then .error e else .ok ()

section ThrowIf

variable {c : Prop} [Decidable c] {e : ε}

theorem throw_if_of_not (h : ¬c) : throw_if c e = .ok () := if_neg h

theorem throw_if_of (h : c) : throw_if c e = .error e := if_pos h

@[simp] theorem throw_if_eq_ok {u : Unit} : throw_if c e = .ok u ↔ ¬c := by
  by_cases h : c <;> simp [throw_if, h]

@[simp] theorem throw_if_eq_error {e' : ε} : throw_if c e = .error e' ↔ c ∧ e = e' := by
  by_cases h : c <;> simp [throw_if, h]

end ThrowIf

/-- A change of the state that the body of a loop commutes with. -/
theorem foldlM_map_state {σ γ : Type u} {f : σ → γ → Except ε σ} (φ : σ → σ)
    (h : ∀ s a, f (φ s) a = (f s a).map φ) (l : List γ) (s : σ) :
    l.foldlM f (φ s) = (l.foldlM f s).map φ := by
  induction l generalizing s with
  | nil => rfl
  | cons a l ih =>
    rw [List.foldlM_cons, List.foldlM_cons, h]
    cases f s a with
    | error e => rfl
    | ok s' => exact ih s'

/-- **An invariant of a loop** that returns; it knows the elements so far. -/
theorem foldlM_inv {σ γ : Type u} {f : σ → γ → Except ε σ} {I : List γ → σ → Prop} {s s' : σ}
    (hs : I [] s) (hstep : ∀ done s c s', I done s → f s c = .ok s' → I (done ++ [c]) s') {l : List γ}
    (h : l.foldlM f s = .ok s') : I l s' := by
  have hrun : ∀ (l done : List γ) (s : σ), I done s → l.foldlM f s = .ok s' → I (done ++ l) s' := by
    intro l
    induction l with
    | nil =>
      intro done s hs h
      cases h
      rwa [List.append_nil]
    | cons c l ih =>
      intro done s hs h
      rw [List.foldlM_cons] at h
      obtain ⟨next, hnext, h⟩ := bind_eq_ok.mp h
      rw [List.append_cons]
      exact ih (done ++ [c]) next (hstep done s c next hs hnext) h
  exact hrun l [] s hs h

/-! ### Loops over a range -/

section Range

variable {σ : Type u} {f : σ → Nat → Except ε σ} {P : Nat → σ → Prop} {n : Nat} {s : σ}

theorem foldlM_range_succ :
    (List.range (n + 1)).foldlM f s = ((List.range n).foldlM f s >>= fun s => f s n) := by
  rw [List.range_succ, List.foldlM_append]
  congr 1
  funext s
  rw [List.foldlM_cons]
  cases f s n <;> rfl

/-- **A loop whose passes do not throw.** -/
theorem foldlM_range_ok (hstep : ∀ k s, k < n → P k s → ∃ s', f s k = .ok s' ∧ P (k + 1) s')
    (h0 : P 0 s) : ∃ s', (List.range n).foldlM f s = .ok s' ∧ P n s' := by
  induction n with
  | zero => exact ⟨s, rfl, h0⟩
  | succ n ih =>
    obtain ⟨s₁, hrun, h1⟩ := ih fun k s hk => hstep k s (Nat.lt_succ_of_lt hk)
    obtain ⟨s₂, hlast, h2⟩ := hstep n s₁ (Nat.lt_succ_self n) h1
    exact ⟨s₂, by rw [foldlM_range_succ, hrun, ok_bind, hlast], h2⟩

/-- A loop whose states are known. -/
theorem foldlM_range_eq {g : Nat → σ} (hstep : ∀ k < n, f (g k) k = .ok (g (k + 1))) :
    (List.range n).foldlM f (g 0) = .ok (g n) := by
  induction n with
  | zero => rfl
  | succ n ih =>
    rw [foldlM_range_succ, ih fun k hk => hstep k (Nat.lt_succ_of_lt hk), ok_bind,
      hstep n (Nat.lt_succ_self n)]

/-- A loop that throws in one of its passes. -/
theorem foldlM_range_error {g : Nat → σ} {m : Nat} {e : ε} (hm : m < n)
    (hstep : ∀ k < m, f (g k) k = .ok (g (k + 1))) (herror : f (g m) m = .error e) :
    (List.range n).foldlM f (g 0) = .error e := by
  induction n with
  | zero => exact absurd hm (Nat.not_lt_zero m)
  | succ n ih =>
    rw [foldlM_range_succ]
    rcases Nat.lt_succ_iff_lt_or_eq.mp hm with hlt | rfl
    · rw [ih hlt, error_bind]
    · rw [foldlM_range_eq hstep, ok_bind, herror]

end Range

/-- A list computed from the numbers below a bound, none of which makes it throw. -/
theorem mapM_range_ok {f : Nat → Except ε α} {P : Nat → α → Prop} {n : Nat}
    (h : ∀ k < n, ∃ a, f k = .ok a ∧ P k a) :
    ∃ l, (List.range n).mapM f = .ok l ∧ l.length = n ∧ ∀ k a, l[k]? = some a → P k a := by
  induction n with
  | zero => exact ⟨[], rfl, rfl, by simp⟩
  | succ n ih =>
    obtain ⟨l, hrun, hlength, hall⟩ := ih fun k hk => h k (Nat.lt_succ_of_lt hk)
    obtain ⟨a, hlast, ha⟩ := h n (Nat.lt_succ_self n)
    refine ⟨l ++ [a], ?_, by simp [hlength], fun k b hget => ?_⟩
    · rw [List.range_succ, List.mapM_append, hrun, ok_bind, List.mapM_cons, hlast]
      rfl
    · rcases Nat.lt_or_ge k l.length with hlt | hge
      · rw [List.getElem?_append_left hlt] at hget
        exact hall k b hget
      · rw [List.getElem?_append_right hge, List.getElem?_singleton] at hget
        split at hget
        · rw [show k = n by omega, ← Option.some.inj hget]
          exact ha
        · exact absurd hget (by simp)

end Except
