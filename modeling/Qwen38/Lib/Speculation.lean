import Mathlib.Data.List.Basic

/-!
# Greedy generation and speculation

A deterministic model is a function `next` from what has been consumed to the token that
follows. `Speculation.greedy` is plain generation: one token at a time, until a stop
token comes or enough tokens are there. A speculative round guesses several tokens, looks
at what the model would have said after each of them (`Speculation.rows`), and keeps the
longest beginning of the guess that agrees (`Speculation.accepted`).

The tokens a round keeps are the ones plain generation would have produced
(`Speculation.follows_accepted`), so plain generation goes on where a round ends
(`Speculation.greedy_follows`), wherever the guess came from.
-/

namespace Speculation

variable {α : Type*} (next : List α → α) (stop : α → Bool)

/-- Plain generation of at most `n` tokens after a context, and whether it met a stop
token (which it does not emit). -/
def greedy : List α → Nat → List α × Bool
  | _, 0 => ([], false)
  | ctx, n + 1 =>
    if stop (next ctx) then ([], true)
    else
      let rest := greedy (ctx ++ [next ctx]) n
      (next ctx :: rest.1, rest.2)

/-- Each token of a list is what the model says after the ones before it. -/
def Follows : List α → List α → Prop
  | _, [] => True
  | ctx, t :: ts => t = next ctx ∧ Follows (ctx ++ [t]) ts

/-- What the model says after a context and after each token of a guess. -/
def rows : List α → List α → List α
  | ctx, [] => [next ctx]
  | ctx, d :: ds => next ctx :: rows (ctx ++ [d]) ds

/-- How many tokens of a guess agree with the rows, up to a stop token. -/
def accepted [DecidableEq α] : List α → List α → Nat
  | d :: ds, t :: ts => if d = t then if stop d then 0 else accepted ds ts + 1 else 0
  | _, _ => 0

variable {next stop} {ctx ts us : List α} {t : α} {n : Nat}

/-! ### What follows -/

theorem follows_append :
    Follows next ctx (ts ++ us) ↔ Follows next ctx ts ∧ Follows next (ctx ++ ts) us := by
  induction ts generalizing ctx with
  | nil => simp [Follows]
  | cons t ts ih => simp [Follows, ih, and_assoc]

theorem follows_singleton : Follows next ctx [t] ↔ t = next ctx := by simp [Follows]

theorem Follows.take (h : Follows next ctx ts) (k : Nat) : Follows next ctx (ts.take k) := by
  rw [← List.take_append_drop k ts, follows_append] at h
  exact h.1

/-- **Plain generation goes through tokens that follow.** -/
theorem greedy_follows (h : Follows next ctx ts) (hstop : ∀ t ∈ ts, stop t = false)
    (hn : ts.length ≤ n) :
    greedy next stop ctx n =
      (ts ++ (greedy next stop (ctx ++ ts) (n - ts.length)).1,
        (greedy next stop (ctx ++ ts) (n - ts.length)).2) := by
  induction ts generalizing ctx n with
  | nil => simp
  | cons t ts ih =>
    obtain ⟨rfl, hts⟩ := h
    obtain ⟨n, rfl⟩ : ∃ k, n = k + 1 := ⟨n - 1, by simp at hn; omega⟩
    have hrest := ih hts (fun t ht => hstop t (List.mem_cons_of_mem _ ht))
      (by simpa using hn)
    rw [greedy, if_neg (by simp [hstop _ List.mem_cons_self]), hrest]
    simp [List.append_assoc]

/-- **Plain generation ends at a stop token that follows.** -/
theorem greedy_stop (h : Follows next ctx (ts ++ [t])) (hts : ∀ t ∈ ts, stop t = false)
    (ht : stop t = true) (hn : ts.length < n) : greedy next stop ctx n = (ts, true) := by
  obtain ⟨hfollows, hlast⟩ := follows_append.mp h
  obtain ⟨m, hm⟩ : ∃ m, n - ts.length = m + 1 := ⟨n - ts.length - 1, by omega⟩
  rw [greedy_follows hfollows hts (by omega), hm, greedy, if_pos]
  · simp
  · rwa [← follows_singleton.mp hlast]

/-- Plain generation that is asked for nothing. -/
@[simp] theorem greedy_zero : greedy next stop ctx 0 = ([], false) := rfl

/-! ### What a round keeps -/

variable {ds : List α}

theorem length_rows : (rows next ctx ds).length = ds.length + 1 := by
  induction ds generalizing ctx with
  | nil => rfl
  | cons d ds ih => simp [rows, ih]

theorem getElem?_rows (next : List α → α) (ctx : List α) {i : Nat} (h : i ≤ ds.length) :
    (rows next ctx ds)[i]? = some (next (ctx ++ ds.take i)) := by
  induction ds generalizing ctx i with
  | nil =>
    obtain rfl : i = 0 := by simpa using h
    simp [rows]
  | cons d ds ih =>
    cases i with
    | zero => simp [rows]
    | succ i => simpa [rows, List.append_assoc] using ih (ctx ++ [d]) (by simpa using h)

section Accepted

variable [DecidableEq α]

theorem accepted_le (ts : List α) : accepted stop ds ts ≤ ds.length := by
  induction ds generalizing ts with
  | nil => simp [accepted]
  | cons d ds ih =>
    cases ts with
    | nil => simp [accepted]
    | cons t ts =>
      rw [accepted]
      split
      · split
        · simp
        · simpa using ih ts
      · simp

/-- **The accepted beginning of a guess follows, and has no stop token in it.** -/
theorem follows_accepted (next : List α → α) (stop : α → Bool) (ctx ds : List α) :
    Follows next ctx (ds.take (accepted stop ds (rows next ctx ds))) ∧
      ∀ t ∈ ds.take (accepted stop ds (rows next ctx ds)), stop t = false := by
  induction ds generalizing ctx with
  | nil => simp [Follows]
  | cons d ds ih =>
    rw [rows, accepted]
    split
    · next hd =>
      split
      · simp [Follows]
      · next hstop =>
        obtain ⟨hfollows, hnone⟩ := ih (ctx ++ [d])
        refine ⟨⟨hd, hfollows⟩, ?_⟩
        rw [List.take_succ_cons]
        intro t ht
        rcases List.mem_cons.mp ht with rfl | ht
        · simpa using hstop
        · exact hnone t ht
    · simp [Follows]

end Accepted

end Speculation
