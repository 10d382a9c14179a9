import Mathlib.Data.List.Basic
import Mathlib.Tactic.Common

/-!
# A stream with one insertion

A source is asked for symbols one after the other, until it says a stop symbol or there are
enough of them. Once, in place of what the source says, a fixed word is put into the stream: when
the symbols shown use up a budget, or when the source would stop, as long as it has not said the
closing symbol itself and the word leaves room for one symbol more (`Insertion.Rules.step`).

The steps of a run are kept with their origin. They are symbols of the source, then a piece of the
word, then symbols of the source again (`Insertion.Phase`), where nothing follows but a whole word.
-/

namespace Insertion

/-- What an insertion goes by. -/
structure Rules (α : Type*) where
  limit : Nat
  budget : Nat
  word : List α
  close : Option α
  stop : α → Bool

/-- The symbols shown, those of the word that are still to come, and what has happened. -/
@[ext] structure State (α : Type*) where
  shown : List α := []
  forced : List α := []
  closed : Bool := false
  attempted : Bool := false
  inserted : Bool := false

variable {α : Type*} [DecidableEq α]

/-- The next symbol, and whether it is one of the word. -/
def State.choose (symbol : α) (s : State α) : (α × Bool) × State α :=
  match s.forced with
  | [] => ((symbol, false), s)
  | next :: rest => ((next, true), { s with forced := rest })

namespace Rules

variable (rules : Rules α)

/-- The only attempt, which succeeds when there is room. -/
def insert (s : State α) : State α :=
  if s.attempted ∨ s.closed ∨ rules.word = [] then s
  else if rules.limit ≤ s.shown.length + rules.word.length then { s with attempted := true }
  else { s with attempted := true, forced := s.forced ++ rules.word, inserted := true }

/-- The budget is looked at before the source is asked. -/
def check (s : State α) : State α :=
  if ¬s.closed ∧ s.forced = [] ∧ rules.budget ≤ s.shown.length then rules.insert s else s

/-- The source would stop. -/
def answer (symbol : α) (s : State α) : State α :=
  if s.forced = [] ∧ ¬s.closed ∧ rules.stop symbol then rules.insert s else s

/-- A symbol is shown, unless it is a stop symbol. -/
def emit (symbol : α) (s : State α) : State α :=
  if rules.stop symbol then s
  else
    { s with
      shown := s.shown ++ [symbol]
      closed := s.closed || rules.close = some symbol }

/-- A step, given what the source says. -/
def step (symbol : α) (s : State α) : (α × Bool) × State α :=
  let r := (rules.answer symbol (rules.check s)).choose symbol
  (r.1, rules.emit r.1.1 r.2)

/-- The steps of a run, where it is, and whether it has stopped. -/
inductive Runs : List (α × Bool) → State α → Bool → Prop
  | start : Runs [] {} false
  | step {trace : List (α × Bool)} {s : State α} (symbol : α) (h : Runs trace s false)
      (hroom : s.shown.length < rules.limit) :
    Runs (trace ++ [(rules.step symbol s).1]) (rules.step symbol s).2
      (rules.stop (rules.step symbol s).1.1)

/-! ### A step -/

variable {rules} {s : State α} {symbol : α}

/-- A symbol of the word is taken as it is. -/
theorem step_of_forced {next : α} {rest : List α} (h : s.forced = next :: rest) :
    rules.step symbol s = ((next, true), rules.emit next { s with forced := rest }) := by
  have hne : s.forced ≠ [] := by
    rw [h]
    exact List.cons_ne_nil _ _
  have hcheck : rules.check s = s := if_neg fun hc => hne hc.2.1
  have hanswer : rules.answer symbol s = s := if_neg fun hc => hne hc.1
  simp only [step, hcheck, hanswer, State.choose, h]

/-- What a step does where nothing of the word is to come. -/
inductive Free (rules : Rules α) (symbol : α) (s : State α) : (α × Bool) × State α → Prop
  /-- The word comes in. -/
  | inserts {next : α} {rest : List α} (hword : rules.word = next :: rest)
      (hattempted : s.attempted = false) (hclosed : s.closed = false)
      (hroom : s.shown.length + rules.word.length < rules.limit) :
    Free rules symbol s ((next, true), rules.emit next
      { s with attempted := true, forced := rest, inserted := true })
  /-- There is no room for it. -/
  | misses (hword : rules.word ≠ []) (hattempted : s.attempted = false)
      (hclosed : s.closed = false) (hroom : rules.limit ≤ s.shown.length + rules.word.length) :
    Free rules symbol s ((symbol, false), rules.emit symbol { s with attempted := true })
  /-- The source goes on. -/
  | goes_on (h : s.attempted = true ∨ s.closed = true ∨ rules.word = [] ∨
      s.shown.length < rules.budget ∧ rules.stop symbol = false) :
    Free rules symbol s ((symbol, false), rules.emit symbol s)

omit [DecidableEq α] in
/-- What an attempt does. -/
theorem insert_cases (s : State α) :
    (s.attempted = true ∨ s.closed = true ∨ rules.word = []) ∧ rules.insert s = s ∨
      s.attempted = false ∧ s.closed = false ∧ rules.word ≠ [] ∧
        (rules.limit ≤ s.shown.length + rules.word.length ∧
            rules.insert s = { s with attempted := true } ∨
          s.shown.length + rules.word.length < rules.limit ∧ rules.insert s =
            { s with attempted := true, forced := s.forced ++ rules.word, inserted := true }) := by
  rw [insert]
  by_cases hdone : s.attempted = true ∨ s.closed = true ∨ rules.word = []
  · rw [if_pos hdone]
    exact Or.inl ⟨hdone, rfl⟩
  · rw [if_neg hdone]
    obtain ⟨hattempted, hclosed, hword⟩ := not_or.mp hdone |>.imp_right not_or.mp
    refine Or.inr ⟨Bool.eq_false_iff.mpr hattempted, Bool.eq_false_iff.mpr hclosed, hword, ?_⟩
    by_cases hroom : rules.limit ≤ s.shown.length + rules.word.length
    · rw [if_pos hroom]
      exact Or.inl ⟨hroom, rfl⟩
    · rw [if_neg hroom]
      exact Or.inr ⟨by omega, rfl⟩

omit [DecidableEq α] in
/-- A second attempt does nothing. -/
theorem insert_insert (s : State α) : rules.insert (rules.insert s) = rules.insert s := by
  rcases @insert_cases _ rules s with ⟨-, heq⟩ | ⟨-, -, -, ⟨-, heq⟩ | ⟨-, heq⟩⟩
  · rw [heq]
    exact heq
  · rw [heq]
    exact if_pos (Or.inl rfl)
  · rw [heq]
    exact if_pos (Or.inl rfl)

omit [DecidableEq α] in
/-- Before a symbol is chosen there has been an attempt, or no reason for one. -/
theorem answer_check (h : s.forced = []) :
    rules.answer symbol (rules.check s) = rules.insert s ∨
      rules.answer symbol (rules.check s) = s ∧
        (s.closed = true ∨ s.shown.length < rules.budget ∧ rules.stop symbol = false) := by
  rw [check]
  split
  · left
    rw [answer]
    split
    · exact insert_insert s
    · rfl
  · next hcheck =>
    rw [answer]
    split
    · exact Or.inl rfl
    · next hanswer =>
      refine Or.inr ⟨rfl, ?_⟩
      cases hclosed : s.closed with
      | true => exact Or.inl rfl
      | false =>
        refine Or.inr ⟨?_, ?_⟩
        · by_contra hge
          exact hcheck ⟨by simp [hclosed], h, by omega⟩
        · by_contra hstop
          exact hanswer ⟨h, by simp [hclosed], by simpa using hstop⟩

/-- **A step of the source**, or the first one of the word. -/
theorem step_of_free (h : s.forced = []) : Free rules symbol s (rules.step symbol s) := by
  have hchoose {t : State α} (ht : t.forced = []) : t.choose symbol = ((symbol, false), t) := by
    rw [State.choose, ht]
  rcases @answer_check _ rules s symbol h with hinsert | ⟨hsame, hreason⟩
  · rcases @insert_cases _ rules s with ⟨hdone, heq⟩ | ⟨hattempted, hclosed, hword, hroom⟩
    · rw [step, hinsert, heq, hchoose h]
      exact .goes_on (hdone.imp_right fun h => h.imp_right Or.inl)
    · rcases hroom with ⟨hroom, heq⟩ | ⟨hroom, heq⟩
      · rw [step, hinsert, heq, hchoose (by exact h)]
        exact .misses hword hattempted hclosed hroom
      · obtain ⟨next, rest, hnext⟩ := List.exists_cons_of_ne_nil hword
        have hforced : s.forced ++ rules.word = next :: rest := by rw [h, hnext, List.nil_append]
        rw [step, hinsert, heq, hforced]
        exact .inserts hnext hattempted hclosed hroom
  · rw [step, hsame, hchoose h]
    exact .goes_on (Or.inr (hreason.imp_right Or.inr))

/-! ### Where a run is -/

/-- The symbols of the source among the steps, and those of the word. -/
def said (symbols : List α) : List (α × Bool) := symbols.map fun symbol => (symbol, false)

def put (symbols : List α) : List (α × Bool) := symbols.map fun symbol => (symbol, true)

/-- What the steps of a run are. -/
inductive Phase (rules : Rules α) (trace : List (α × Bool)) (s : State α) : Prop
  /-- The source only. An attempt has failed within the budget; without an attempt, the source has
  closed within the budget or the budget is not used up. -/
  | before (symbols : List α) (htrace : trace = said symbols) (hforced : s.forced = [])
      (hinserted : s.inserted = false)
      (hfailed : s.attempted = true → ∃ count ≤ symbols.length, count ≤ rules.budget ∧
        rules.limit ≤ count + rules.word.length)
      (hopen : s.attempted = false → rules.word ≠ [] → s.closed = false →
        symbols.length ≤ rules.budget)
      (hclosed : s.attempted = false → rules.word ≠ [] → s.closed = true →
        ∃ close ∈ rules.close, close ∈ symbols.take rules.budget)
  /-- A piece of the word, behind some symbols of the source, and before some where it is whole. -/
  | after (symbols more : List α) (count : Nat)
      (htrace : trace = said symbols ++ put (rules.word.take count) ++ said more)
      (hforced : s.forced = rules.word.drop count) (hinserted : s.inserted = true)
      (hattempted : s.attempted = true) (hpos : 0 < count) (hcount : count ≤ rules.word.length)
      (hmore : more ≠ [] → count = rules.word.length)
      (hclosed : ∀ close ∈ rules.close, close ∉ symbols)
      (hroom : symbols.length + rules.word.length < rules.limit)
      (hbudget : symbols.length ≤ rules.budget)

/-- What is kept while a run goes on. -/
structure Going (rules : Rules α) (trace : List (α × Bool)) (s : State α) : Prop where
  shown : s.shown = trace.map (·.1)
  closed : s.closed = true ↔ ∃ close ∈ rules.close, close ∈ s.shown
  phase : Phase rules trace s

omit [DecidableEq α] in
theorem going_start : Going rules [] {} where
  shown := rfl
  closed := by simp
  phase := .before [] rfl rfl rfl nofun (fun _ _ _ => Nat.zero_le _) nofun

omit [DecidableEq α] in
theorem map_said (symbols : List α) : (said symbols).map (·.1) = symbols := by
  rw [said, List.map_map]
  exact List.map_id symbols

omit [DecidableEq α] in
theorem map_put (symbols : List α) : (put symbols).map (·.1) = symbols := by
  rw [put, List.map_map]
  exact List.map_id symbols

omit [DecidableEq α] in
theorem said_concat (symbols : List α) (symbol : α) :
    said symbols ++ [(symbol, false)] = said (symbols ++ [symbol]) := by
  rw [said, said, List.map_append]
  rfl

theorem emit_of_stop (h : rules.stop symbol = true) : rules.emit symbol s = s := if_pos h

theorem emit_of_go (h : rules.stop symbol = false) :
    rules.emit symbol s =
      { s with
        shown := s.shown ++ [symbol]
        closed := s.closed || rules.close = some symbol } :=
  if_neg (by rw [h]; exact Bool.false_ne_true)

section Emit

variable (rules) (symbol) (s)

@[simp] theorem forced_emit : (rules.emit symbol s).forced = s.forced := by
  rw [emit]
  split <;> rfl

@[simp] theorem attempted_emit : (rules.emit symbol s).attempted = s.attempted := by
  rw [emit]
  split <;> rfl

@[simp] theorem inserted_emit : (rules.emit symbol s).inserted = s.inserted := by
  rw [emit]
  split <;> rfl

end Emit

/-- What closes the stream. -/
theorem closed_emit : (rules.emit symbol s).closed = true ↔
    s.closed = true ∨ rules.stop symbol = false ∧ rules.close = some symbol := by
  rw [emit]
  cases hstop : rules.stop symbol with
  | true =>
    rw [if_pos rfl]
    exact ⟨Or.inl, fun h => h.resolve_right fun hnot => Bool.false_ne_true hnot.1.symm⟩
  | false =>
    rw [if_neg Bool.false_ne_true]
    simp

omit [DecidableEq α] in
/-- Without a reason for an attempt the budget is not used up. -/
theorem within_budget (h : s.attempted = true ∨ s.closed = true ∨ rules.word = [] ∨
      s.shown.length < rules.budget ∧ rules.stop symbol = false)
    (hattempted : s.attempted = false) (hclosed : s.closed = false) (hword : rules.word ≠ []) :
    s.shown.length < rules.budget ∧ rules.stop symbol = false := by
  rcases h with h | h | h | h
  · exact absurd (hattempted.symm.trans h) Bool.false_ne_true
  · exact absurd (hclosed.symm.trans h) Bool.false_ne_true
  · exact absurd h hword
  · exact h

omit [DecidableEq α] in
/-- An attempt shows nothing. -/
theorem insert_same (s : State α) :
    (rules.insert s).shown = s.shown ∧ (rules.insert s).closed = s.closed := by
  rcases @insert_cases _ rules s with ⟨-, heq⟩ | ⟨-, -, -, ⟨-, heq⟩ | ⟨-, heq⟩⟩
  all_goals
    rw [heq]
    exact ⟨rfl, rfl⟩

omit [DecidableEq α] in
theorem answer_check_same (symbol : α) (s : State α) :
    (rules.answer symbol (rules.check s)).shown = s.shown ∧
      (rules.answer symbol (rules.check s)).closed = s.closed := by
  have hcheck : (rules.check s).shown = s.shown ∧ (rules.check s).closed = s.closed := by
    rw [check]
    split
    · exact insert_same s
    · exact ⟨rfl, rfl⟩
  rw [answer]
  split
  · obtain ⟨hshown, hclosed⟩ := @insert_same _ rules (rules.check s)
    exact ⟨hshown.trans hcheck.1, hclosed.trans hcheck.2⟩
  · exact hcheck

omit [DecidableEq α] in
theorem choose_same (symbol : α) (s : State α) :
    (s.choose symbol).2.shown = s.shown ∧ (s.choose symbol).2.closed = s.closed := by
  rw [State.choose]
  split <;> exact ⟨rfl, rfl⟩

/-- A step shows its symbol, unless that is a stop symbol. -/
theorem shown_step (symbol : α) (s : State α) : (rules.step symbol s).2.shown =
    if rules.stop (rules.step symbol s).1.1 then s.shown
    else s.shown ++ [(rules.step symbol s).1.1] := by
  have hshown := (choose_same symbol (rules.answer symbol (rules.check s))).1.trans
    (@answer_check_same _ rules symbol s).1
  rw [step]
  dsimp only
  rw [emit]
  split
  · exact hshown
  · rw [hshown]

theorem closed_step (symbol : α) (s : State α) : (rules.step symbol s).2.closed = true ↔
    s.closed = true ∨ rules.stop (rules.step symbol s).1.1 = false ∧
      rules.close = some (rules.step symbol s).1.1 := by
  have hclosed := (choose_same symbol (rules.answer symbol (rules.check s))).2.trans
    (@answer_check_same _ rules symbol s).2
  rw [step]
  dsimp only
  rw [closed_emit, hclosed]

/-- **A step goes on with the phase**, or comes to the next one. -/
theorem Going.phase_step {trace : List (α × Bool)} (h : Going rules trace s) :
    Phase rules (trace ++ [(rules.step symbol s).1]) (rules.step symbol s).2 := by
  obtain ⟨hshown, hclosed, hphase⟩ := h
  cases hphase with
  | before symbols htrace hforced hinserted hfailed hopen hclosed_within =>
    rw [htrace, map_said] at hshown
    have hfree := @step_of_free _ _ rules s symbol hforced
    generalize rules.step symbol s = r at hfree ⊢
    rw [htrace]
    cases hfree with
    | @inserts next rest hword hattempted hnot_closed hroom =>
      refine .after symbols [] 1 ?_ ?_ ?_ ?_ Nat.one_pos ?_ (fun h => absurd rfl h) ?_ ?_ ?_
      · rw [hword]
        exact (List.append_nil _).symm
      · rw [forced_emit, hword]
        rfl
      · exact inserted_emit rules _ next
      · exact attempted_emit rules _ next
      · rw [hword]
        exact Nat.le_add_left 1 _
      · intro close hclose hmem
        rw [← hshown] at hmem
        exact Bool.false_ne_true (hnot_closed.symm.trans (hclosed.mpr ⟨close, hclose, hmem⟩))
      · rwa [hshown] at hroom
      · exact hopen hattempted (by rw [hword]; exact List.cons_ne_nil _ _) hnot_closed
    | misses hword hattempted hnot_closed hroom =>
      refine .before (symbols ++ [symbol]) (said_concat _ _) ?_ ?_ (fun _ => ⟨symbols.length, ?_,
        hopen hattempted hword hnot_closed, hshown ▸ hroom⟩) ?_ ?_
      · rw [forced_emit]
        exact hforced
      · rw [inserted_emit]
        exact hinserted
      · rw [List.length_append]
        exact Nat.le_add_right _ _
      · rw [attempted_emit]
        nofun
      · rw [attempted_emit]
        nofun
    | goes_on hreason =>
      refine .before (symbols ++ [symbol]) (said_concat _ _) ?_ ?_ ?_ ?_ ?_
      · rw [forced_emit, hforced]
      · rw [inserted_emit, hinserted]
      · rw [attempted_emit]
        intro hattempted
        obtain ⟨count, hcount, hbound⟩ := hfailed hattempted
        refine ⟨count, Nat.le_trans hcount ?_, hbound⟩
        rw [List.length_append]
        exact Nat.le_add_right _ _
      · rw [attempted_emit]
        intro hattempted hword hnot_closed
        have hstill : s.closed = false := by
          by_contra hc
          rw [Bool.not_eq_false] at hc
          exact Bool.false_ne_true (hnot_closed.symm.trans (closed_emit.mpr (Or.inl hc)))
        rw [List.length_append, List.length_singleton, ← hshown]
        exact (within_budget hreason hattempted hstill hword).1
      · rw [attempted_emit]
        intro hattempted hword hnow
        cases hc : s.closed with
        | true =>
          obtain ⟨close, hclose, hmem⟩ := hclosed_within hattempted hword hc
          refine ⟨close, hclose, ?_⟩
          rw [List.take_append]
          exact List.mem_append_left _ hmem
        | false =>
          -- The symbol closes the stream, within the budget.
          have hclose := ((closed_emit.mp hnow).resolve_left
            (fun h => Bool.false_ne_true (hc.symm.trans h))).2
          refine ⟨symbol, hclose, ?_⟩
          have hlt := (within_budget hreason hattempted hc hword).1
          rw [hshown] at hlt
          rw [List.take_of_length_le (by rw [List.length_append]; exact hlt)]
          exact List.mem_append_right _ (List.mem_singleton_self symbol)
  | after symbols more count htrace hforced hinserted hattempted hpos hcount hmore hclosed_before
      hroom hbudget =>
    rcases Nat.lt_or_ge count rules.word.length with hlt | hge
    · -- The word goes on.
      obtain rfl : more = [] := by
        by_contra hne
        exact Nat.ne_of_lt hlt (hmore hne)
      rw [List.drop_eq_getElem_cons hlt] at hforced
      rw [step_of_forced hforced, htrace]
      refine .after symbols [] (count + 1) ?_ ?_ ?_ ?_ (Nat.succ_pos _) hlt (fun h => absurd rfl h)
        hclosed_before hroom hbudget
      · rw [List.take_succ_eq_append_getElem hlt, put, put, List.map_append]
        simp [said]
      · rw [forced_emit]
      · rw [inserted_emit]
        exact hinserted
      · rw [attempted_emit]
        exact hattempted
    · -- The word is whole.
      obtain rfl : count = rules.word.length := Nat.le_antisymm hcount hge
      rw [List.drop_length] at hforced
      have hfree := @step_of_free _ _ rules s symbol hforced
      generalize rules.step symbol s = r at hfree ⊢
      rw [htrace]
      cases hfree with
      | inserts _ hnot => exact absurd (hnot.symm.trans hattempted) Bool.false_ne_true
      | misses _ hnot => exact absurd (hnot.symm.trans hattempted) Bool.false_ne_true
      | goes_on =>
        refine .after symbols (more ++ [symbol]) rules.word.length ?_ ?_ ?_ ?_ hpos hcount
          (fun _ => rfl) hclosed_before hroom hbudget
        · rw [List.append_assoc, said_concat]
        · rw [forced_emit, hforced, List.drop_length]
        · rw [inserted_emit, hinserted]
        · rw [attempted_emit, hattempted]

theorem Going.step {trace : List (α × Bool)} (h : Going rules trace s)
    (hgo : rules.stop (rules.step symbol s).1.1 = false) :
    Going rules (trace ++ [(rules.step symbol s).1]) (rules.step symbol s).2 where
  shown := by
    rw [shown_step, hgo, if_neg Bool.false_ne_true, h.shown, List.map_append]
    rfl
  closed := by
    rw [closed_step, shown_step, hgo, if_neg Bool.false_ne_true, h.closed]
    constructor
    · rintro (⟨close, hclose, hmem⟩ | ⟨-, hclose⟩)
      · exact ⟨close, hclose, List.mem_append_left _ hmem⟩
      · exact ⟨_, hclose, List.mem_append_right _ (List.mem_singleton_self _)⟩
    · rintro ⟨close, hclose, hmem⟩
      rcases List.mem_append.mp hmem with hmem | hmem
      · exact Or.inl ⟨close, hclose, hmem⟩
      · obtain rfl := List.mem_singleton.mp hmem
        exact Or.inr ⟨rfl, hclose⟩
  phase := h.phase_step

/-! ### Runs -/

namespace Runs

variable {trace : List (α × Bool)} {ended : Bool}

theorem going (h : rules.Runs trace s ended) (hended : ended = false) : Going rules trace s := by
  induction h with
  | start => exact going_start
  | step symbol h hroom ih => exact (ih rfl).step hended

theorem phase (h : rules.Runs trace s ended) : Phase rules trace s := by
  cases h with
  | start => exact going_start.phase
  | step symbol h hroom => exact (h.going rfl).phase_step

/-- What is shown are the symbols of the steps, without a stop symbol at the end. -/
theorem shown (h : rules.Runs trace s ended) : ∃ cut, trace.map (·.1) = s.shown ++ cut ∧
    (ended = false → cut = []) ∧
      (ended = true → ∃ symbol, cut = [symbol] ∧ rules.stop symbol = true) := by
  cases h with
  | start => exact ⟨[], rfl, fun _ => rfl, nofun⟩
  | @step trace s symbol h hroom =>
    rw [List.map_append, ← (h.going rfl).shown, shown_step]
    cases hstop : rules.stop (rules.step symbol s).1.1 with
    | true =>
      rw [if_pos rfl]
      exact ⟨_, rfl, nofun, fun _ => ⟨_, rfl, hstop⟩⟩
    | false =>
      rw [if_neg Bool.false_ne_true]
      exact ⟨[], (List.append_nil _).symm, fun _ => rfl, nofun⟩

/-- **There are never more symbols than the limit.** -/
theorem length_shown_le (h : rules.Runs trace s ended) : s.shown.length ≤ rules.limit := by
  cases h with
  | start => exact Nat.zero_le _
  | step symbol h hroom =>
    rw [shown_step]
    split
    · exact Nat.le_of_lt hroom
    · rw [List.length_append]
      exact hroom

/-- **The word comes in once, in one piece**, and not behind a closing symbol of the source. -/
theorem inserted_once (h : rules.Runs trace s ended) :
    ∃ symbols word more, trace = said symbols ++ put word ++ said more ∧ word <+: rules.word ∧
      (more ≠ [] → word ≠ [] → word = rules.word) ∧
        (word ≠ [] → ∀ close ∈ rules.close, close ∉ symbols) := by
  cases h.phase with
  | before symbols htrace =>
    refine ⟨symbols, [], [], ?_, List.nil_prefix, fun h => absurd rfl h, fun h => absurd rfl h⟩
    rw [htrace]
    simp [said, put]
  | after symbols more count htrace _ _ _ _ _ hmore hclosed =>
    refine ⟨symbols, _, more, htrace, List.take_prefix _ _, fun hne _ => ?_, fun _ => hclosed⟩
    rw [hmore hne, List.take_length]

/-- **A stop symbol is replaced** by the word, while there has been none and there is room. -/
theorem replaces (h : rules.Runs trace s false) (hsaid : ∀ entry ∈ trace, entry.2 = false)
    (hclosed : ∀ close ∈ rules.close, close ∉ s.shown) {next : α} {rest : List α}
    (hword : rules.word = next :: rest)
    (hroom : s.shown.length + rules.word.length < rules.limit) (hstop : rules.stop symbol = true) :
    (rules.step symbol s).1 = (next, true) := by
  have hgoing := h.going rfl
  cases hgoing.phase with
  | before symbols htrace hforced _ hfailed =>
    have hshown : s.shown = symbols := by rw [hgoing.shown, htrace, map_said]
    have hfree := @step_of_free _ _ rules s symbol hforced
    generalize rules.step symbol s = r at hfree ⊢
    cases hfree with
    | inserts hnext =>
      obtain ⟨rfl, -⟩ := List.cons_eq_cons.mp (hword.symm.trans hnext)
      rfl
    | misses _ _ _ hfull => omega
    | goes_on hreason =>
      rcases hreason with hattempted | hc | hnil | ⟨-, hgo⟩
      -- an attempt that failed has found no room, and there is room
      · obtain ⟨count, hcount, -, hfull⟩ := hfailed hattempted
        rw [hshown] at hroom
        omega
      · obtain ⟨close, hclose, hmem⟩ := hgoing.closed.mp hc
        exact absurd hmem (hclosed close hclose)
      · rw [hword] at hnil
        cases hnil
      · exact absurd (hgo.symm.trans hstop) Bool.false_ne_true
  | after symbols more count htrace _ _ _ hpos =>
    -- the word would be in the trace
    have hmem : (next, true) ∈ trace := by
      obtain ⟨count, rfl⟩ := Nat.exists_eq_succ_of_ne_zero (Nat.pos_iff_ne_zero.mp hpos)
      rw [htrace, hword]
      exact List.mem_append_left _ (List.mem_append_right _ List.mem_cons_self)
    exact absurd (hsaid _ hmem) Bool.false_ne_true.symm

/-- **A word that comes in is followed by a symbol of the source**, in a run that goes to its
end. -/
theorem followed (h : rules.Runs trace s ended)
    (hcomplete : ended = true ∨ rules.limit ≤ s.shown.length)
    (hstop : ∀ symbol ∈ rules.word, rules.stop symbol = false)
    (hput : ∃ entry ∈ trace, entry.2 = true) :
    ∃ symbols more, trace = said symbols ++ put rules.word ++ said more ∧ more ≠ [] := by
  cases h.phase with
  | before symbols htrace =>
    obtain ⟨entry, hmem, htrue⟩ := hput
    rw [htrace] at hmem
    obtain ⟨symbol, -, rfl⟩ := List.mem_map.mp hmem
    cases htrue
  | after symbols more count htrace _ _ _ hpos hcount hmore _ hroom =>
    by_cases hnil : more = []
    · -- Behind a piece of the word there is room, and no stop symbol in it.
      subst hnil
      have htokens : trace.map (·.1) = symbols ++ rules.word.take count := by
        rw [htrace, List.map_append, List.map_append, map_said, map_put]
        exact List.append_nil _
      obtain ⟨cut, hshown, hgoing, hended⟩ := h.shown
      rw [htokens] at hshown
      have hlength := congrArg List.length hshown
      rw [List.length_append, List.length_append, List.length_take] at hlength
      rcases hcomplete with hend | hfull
      · obtain ⟨symbol, rfl, hsymbol⟩ := hended hend
        have hlast : symbol ∈ rules.word.take count := by
          have hne : rules.word.take count ≠ [] := fun h => by
            have := congrArg List.length h
            rw [List.length_take, List.length_nil] at this
            omega
          have hgetLast := congrArg List.getLast? hshown
          rw [List.getLast?_concat, List.getLast?_append_of_ne_nil _ hne] at hgetLast
          exact List.mem_of_getLast? hgetLast
        exact absurd ((hstop symbol (List.mem_of_mem_take hlast)).symm.trans hsymbol)
          Bool.false_ne_true
      · omega
    · refine ⟨symbols, more, ?_, hnil⟩
      rw [htrace, hmore hnil, List.take_length]

/-- **The source closes within the budget, or the word comes in within it.** -/
theorem closes_within (h : rules.Runs trace s ended) (hword : rules.word ≠ [])
    (hroom : rules.budget + rules.word.length < rules.limit)
    (hlong : rules.budget + rules.word.length ≤ trace.length) :
    (∃ close ∈ rules.close, close ∈ (trace.map (·.1)).take rules.budget) ∨
      ∃ symbols more, trace = said symbols ++ put rules.word ++ said more ∧
        symbols.length ≤ rules.budget := by
  cases h.phase with
  | before symbols htrace _ _ hfailed hopen hclosed =>
    have hlength : trace.length = symbols.length := by rw [htrace, said, List.length_map]
    have hpos := List.length_pos_iff.mpr hword
    cases hattempted : s.attempted with
    | true =>
      -- an attempt that failed was made when the budget was used up, without room
      obtain ⟨count, -, hbudget, hfull⟩ := hfailed hattempted
      omega
    | false =>
      cases hc : s.closed with
      | true =>
        left
        rw [htrace, map_said]
        exact hclosed hattempted hword hc
      | false =>
        -- without an attempt the budget is not used up
        have := hopen hattempted hword hc
        omega
  | after symbols more count htrace _ _ _ _ hcount hmore _ _ hbudget =>
    -- the run is long enough for the whole word
    have hwhole : count = rules.word.length := by
      by_contra hne
      obtain rfl : more = [] := by
        by_contra hnil
        exact hne (hmore hnil)
      rw [htrace] at hlong
      simp only [said, put, List.length_append, List.length_map, List.length_take,
        List.length_nil] at hlong
      omega
    refine Or.inr ⟨symbols, more, ?_, hbudget⟩
    rw [htrace, hwhole, List.take_length]

end Runs

end Rules

end Insertion
