import Mathlib.Algebra.Order.BigOperators.Group.List
import Mathlib.Algebra.Order.Ring.Nat
import Mathlib.Data.Nat.Cast.Basic
import Qwen38.Lib.Blocks
import Qwen38.Lib.Except

/-!
# When history drafts are tried

`HistoryDraftPolicy`: the learned head drafts until eight of its rounds in a row, taken in blocks,
have had less than half of their proposals accepted. From then on history drafts are tried, until
two of theirs in a row, in blocks again, have done no better; after that they are given up.

The counters of the policy are those of the pending block (`HistoryDraftPolicy.learning`,
`HistoryDraftPolicy.trying`), and its phase is that of the rounds so far
(`HistoryDraftPolicy.Follows`).
-/

namespace Qwen38

open Blocks
open Except (throw_if throw_if_of_not)

/-- `HistoryDraftMode`. -/
inductive HistoryDraftMode where
  | disabled
  | adaptive
  | forced
  deriving DecidableEq

/-- Who drafts a round. -/
inductive Drafter where
  | learned
  | history
  deriving DecidableEq

/-- A round of a drafter, with how many tokens it proposed and how many of them were accepted. -/
structure DraftedRound where
  drafter : Drafter
  proposed : Nat
  accepted : Nat

/-- `HistoryDraftPolicy`. -/
structure HistoryDraftPolicy where
  mode : HistoryDraftMode
  active : Bool
  rejected : Bool := false
  learned_rounds : Nat := 0
  learned_proposed : Nat := 0
  learned_accepted : Nat := 0
  history_rounds : Nat := 0
  history_proposed : Nat := 0
  history_accepted : Nat := 0
  activations : Nat := 0
  deactivations : Nat := 0

namespace HistoryDraftPolicy

/-- `HistoryDraftPolicy`, the constructor. -/
def make (mode : HistoryDraftMode) : HistoryDraftPolicy := { mode, active := mode = .forced }

/-- `learned_probe_rounds`. -/
def learned_probe_rounds : Nat := 8

/-- `history_probe_rounds`. -/
def history_probe_rounds : Nat := 2

/-- `should_try`. -/
def should_try (policy : HistoryDraftPolicy) : Bool := policy.active

/-- `exhausted`. -/
def exhausted (policy : HistoryDraftPolicy) : Bool := policy.rejected

/-- `validate_observation`. -/
def validate_observation (proposed accepted : Nat) : Except String Unit :=
  throw_if (proposed < accepted) "draft acceptance exceeds proposed tokens"

/-- The end of a block of learned rounds. -/
def close_learned (policy : HistoryDraftPolicy) : HistoryDraftPolicy :=
  let policy :=
    if policy.learned_accepted * 2 % 2 ^ 64 < policy.learned_proposed then
      { policy with active := true, activations := policy.activations + 1 }
    else policy
  { policy with learned_rounds := 0, learned_proposed := 0, learned_accepted := 0 }

/-- `observe_learned`. -/
def observe_learned (proposed accepted : Nat) (policy : HistoryDraftPolicy) :
    Except String HistoryDraftPolicy := do
  validate_observation proposed accepted
  if policy.mode ≠ .adaptive ∨ policy.active ∨ policy.rejected ∨ proposed = 0 then return policy
  else
    let policy := { policy with
      learned_rounds := policy.learned_rounds + 1
      learned_proposed := (policy.learned_proposed + proposed) % 2 ^ 64
      learned_accepted := (policy.learned_accepted + accepted) % 2 ^ 64 }
    if policy.learned_rounds < learned_probe_rounds then return policy
    else return policy.close_learned

/-- The end of a block of history rounds. -/
def close_history (policy : HistoryDraftPolicy) : HistoryDraftPolicy :=
  let policy :=
    if policy.history_accepted * 2 % 2 ^ 64 < policy.history_proposed then
      { policy with active := false, rejected := true, deactivations := policy.deactivations + 1 }
    else policy
  { policy with history_rounds := 0, history_proposed := 0, history_accepted := 0 }

/-- `observe_history`. -/
def observe_history (proposed accepted : Nat) (policy : HistoryDraftPolicy) :
    Except String HistoryDraftPolicy := do
  validate_observation proposed accepted
  if policy.mode ≠ .adaptive ∨ !policy.active ∨ proposed = 0 then return policy
  else
    let policy := { policy with
      history_rounds := policy.history_rounds + 1
      history_proposed := (policy.history_proposed + proposed) % 2 ^ 64
      history_accepted := (policy.history_accepted + accepted) % 2 ^ 64 }
    if policy.history_rounds < history_probe_rounds then return policy
    else return policy.close_history

/-- A round of either drafter. -/
def observe (policy : HistoryDraftPolicy) (round : DraftedRound) : Except String HistoryDraftPolicy :=
  match round.drafter with
  | .learned => policy.observe_learned round.proposed round.accepted
  | .history => policy.observe_history round.proposed round.accepted

/-- Rounds of both drafters, in any order. -/
def observe_all (policy : HistoryDraftPolicy) (rounds : List DraftedRound) :
    Except String HistoryDraftPolicy :=
  rounds.foldlM observe policy

/-! ### The phases, from all rounds -/

/-- The rounds of a drafter that proposed something. -/
def proposal_of (drafter : Drafter) (round : DraftedRound) : Option DraftedRound :=
  if round.drafter = drafter ∧ round.proposed ≠ 0 then some round else none

/-- Less than half of the proposals were accepted. -/
def Weak (block : List DraftedRound) : Prop :=
  2 * (block.map DraftedRound.accepted).sum < (block.map DraftedRound.proposed).sum

/-- The same in words, where a sum may wrap. -/
def WeakWord (block : List DraftedRound) : Prop :=
  (block.map DraftedRound.accepted).sum % 2 ^ 64 * 2 % 2 ^ 64 <
    (block.map DraftedRound.proposed).sum % 2 ^ 64

instance (block : List DraftedRound) : Decidable (WeakWord block) := inferInstanceAs (Decidable (_ < _))

section Phases

variable (weak : List DraftedRound → Prop)

/-- The rounds end with the first weak block of eight learned ones. -/
def Activates (rounds : List DraftedRound) : Prop := EndsFirst 8 weak (proposal_of .learned) rounds

/-- Among the rounds there is a weak block of two history ones. -/
def Deactivates (rounds : List DraftedRound) : Prop :=
  HasBlock 2 weak (rounds.filterMap (proposal_of .history))

/-- Between the end of the first weak block of learned rounds and the end of the first weak block
of history rounds behind it. -/
def Active (rounds : List DraftedRound) : Prop :=
  ∃ before after, rounds = before ++ after ∧ Activates weak before ∧ ¬Deactivates weak after

/-- Behind the end of that block of history rounds. -/
def Rejected (rounds : List DraftedRound) : Prop :=
  ∃ before after, rounds = before ++ after ∧ Activates weak before ∧ Deactivates weak after

/-- A round that is seen in the wrong phase, or has no proposal. -/
def Idle (before : List DraftedRound) (round : DraftedRound) : Prop :=
  round.proposed = 0 ∨
    match round.drafter with
    | .learned => Active weak before ∨ Rejected weak before
    | .history => ¬Active weak before

end Phases

variable {weak weak' : List DraftedRound → Prop} {policy policy' : HistoryDraftPolicy}
  {rounds before after block : List DraftedRound} {round : DraftedRound} {drafter : Drafter}

/-! ### One round -/

/-- While the learned head drafts. -/
def learning (block : List DraftedRound) : HistoryDraftPolicy :=
  { make .adaptive with
    learned_rounds := block.length
    learned_proposed := (block.map DraftedRound.proposed).sum % 2 ^ 64
    learned_accepted := (block.map DraftedRound.accepted).sum % 2 ^ 64 }

/-- While history drafts are tried. -/
def trying (block : List DraftedRound) : HistoryDraftPolicy :=
  { make .adaptive with
    active := true
    activations := 1
    history_rounds := block.length
    history_proposed := (block.map DraftedRound.proposed).sum % 2 ^ 64
    history_accepted := (block.map DraftedRound.accepted).sum % 2 ^ 64 }

/-- After history drafts have been given up. -/
def given_up : HistoryDraftPolicy :=
  { make .adaptive with rejected := true, activations := 1, deactivations := 1 }

theorem proposal_of_eq_none :
    proposal_of drafter round = none ↔ round.drafter ≠ drafter ∨ round.proposed = 0 := by
  rw [proposal_of, ite_eq_right_iff]
  constructor
  · intro h
    by_contra hc
    rw [not_or, not_not] at hc
    exact Option.some_ne_none _ (h hc)
  · rintro (hdrafter | hproposed) ⟨h, hne⟩
    · exact absurd h hdrafter
    · exact absurd hproposed hne

theorem proposal_of_eq_some {round' : DraftedRound} :
    proposal_of drafter round = some round' ↔
      round' = round ∧ round.drafter = drafter ∧ round.proposed ≠ 0 := by
  rw [proposal_of]
  split_ifs with h
  · rw [Option.some_inj, and_iff_left h, eq_comm]
  · exact ⟨fun hc => absurd hc (by simp), fun hc => absurd hc.2 h⟩

/-- The sum of a block that goes on. -/
theorem sum_append_singleton (f : DraftedRound → Nat) (block : List DraftedRound)
    (round : DraftedRound) :
    ((block ++ [round]).map f).sum % 2 ^ 64 = ((block.map f).sum % 2 ^ 64 + f round) % 2 ^ 64 := by
  rw [List.map_append, List.sum_append, List.map_singleton, List.sum_singleton, Nat.mod_add_mod]

theorem validate_observation_of_le (h : round.accepted ≤ round.proposed) :
    validate_observation round.proposed round.accepted = .ok () :=
  throw_if_of_not (Nat.not_lt.mpr h)

theorem close_learned_learning (block : List DraftedRound) :
    (learning block).close_learned = if WeakWord block then trying [] else learning [] := by
  have hiff : (learning block).learned_accepted * 2 % 2 ^ 64 < (learning block).learned_proposed ↔
      WeakWord block := Iff.rfl
  rw [close_learned]
  simp only [hiff]
  split_ifs <;> rfl

theorem close_history_trying (block : List DraftedRound) :
    (trying block).close_history = if WeakWord block then given_up else trying [] := by
  have hiff : (trying block).history_accepted * 2 % 2 ^ 64 < (trying block).history_proposed ↔
      WeakWord block := Iff.rfl
  rw [close_history]
  simp only [hiff]
  split_ifs <;> rfl

/-- A learned round that is not counted. -/
theorem observe_learned_skip (hdrafter : round.drafter = .learned)
    (hvalid : round.accepted ≤ round.proposed)
    (h : policy.mode ≠ .adaptive ∨ policy.active ∨ policy.rejected ∨ round.proposed = 0) :
    policy.observe round = .ok policy := by
  rw [observe, hdrafter]
  dsimp only
  rw [observe_learned, validate_observation_of_le hvalid, Except.ok_bind, if_pos h]
  rfl

/-- A history round that is not counted. -/
theorem observe_history_skip (hdrafter : round.drafter = .history)
    (hvalid : round.accepted ≤ round.proposed)
    (h : policy.mode ≠ .adaptive ∨ !policy.active ∨ round.proposed = 0) :
    policy.observe round = .ok policy := by
  rw [observe, hdrafter]
  dsimp only
  rw [observe_history, validate_observation_of_le hvalid, Except.ok_bind, if_pos h]
  rfl

/-- A learned round that is counted joins the block. -/
theorem observe_learning_count (hdrafter : round.drafter = .learned)
    (hvalid : round.accepted ≤ round.proposed) (hproposed : round.proposed ≠ 0) :
    (learning block).observe round = .ok
      (if block.length + 1 < 8 then learning (block ++ [round])
        else (learning (block ++ [round])).close_learned) := by
  have hcounted : ¬((learning block).mode ≠ .adaptive ∨ (learning block).active ∨
      (learning block).rejected ∨ round.proposed = 0) := by simp [learning, make, hproposed]
  have hlearning : learning (block ++ [round]) = { learning block with
      learned_rounds := block.length + 1
      learned_proposed := ((learning block).learned_proposed + round.proposed) % 2 ^ 64
      learned_accepted := ((learning block).learned_accepted + round.accepted) % 2 ^ 64 } := by
    rw [learning, learning, sum_append_singleton, sum_append_singleton, List.length_append,
      List.length_singleton]
  rw [observe, hdrafter]
  dsimp only
  rw [observe_learned, validate_observation_of_le hvalid, Except.ok_bind, if_neg hcounted, hlearning]
  dsimp only [learned_probe_rounds]
  by_cases hpending : block.length + 1 < 8
  · rw [if_pos hpending]
    exact if_pos hpending
  · rw [if_neg hpending]
    exact if_neg hpending

/-- A history round that is counted joins the block. -/
theorem observe_trying_count (hdrafter : round.drafter = .history)
    (hvalid : round.accepted ≤ round.proposed) (hproposed : round.proposed ≠ 0) :
    (trying block).observe round = .ok
      (if block.length + 1 < 2 then trying (block ++ [round])
        else (trying (block ++ [round])).close_history) := by
  have hcounted : ¬((trying block).mode ≠ .adaptive ∨ !(trying block).active ∨
      round.proposed = 0) := by simp [trying, make, hproposed]
  have htrying : trying (block ++ [round]) = { trying block with
      history_rounds := block.length + 1
      history_proposed := ((trying block).history_proposed + round.proposed) % 2 ^ 64
      history_accepted := ((trying block).history_accepted + round.accepted) % 2 ^ 64 } := by
    rw [trying, trying, sum_append_singleton, sum_append_singleton, List.length_append,
      List.length_singleton]
  rw [observe, hdrafter]
  dsimp only
  rw [observe_history, validate_observation_of_le hvalid, Except.ok_bind, if_neg hcounted, htrying]
  dsimp only [history_probe_rounds]
  by_cases hpending : block.length + 1 < 2
  · rw [if_pos hpending]
    exact if_pos hpending
  · rw [if_neg hpending]
    exact if_neg hpending

/-- **A round while the learned head drafts.** -/
theorem observe_learning (hvalid : round.accepted ≤ round.proposed) (hblock : block.length < 8) :
    (learning block).observe round = .ok (match proposal_of .learned round with
      | none => learning block
      | some round =>
        if block.length + 1 = 8 then
          if WeakWord (block ++ [round]) then trying [] else learning []
        else learning (block ++ [round])) := by
  cases hdrafter : round.drafter with
  | learned =>
    rcases eq_or_ne round.proposed 0 with hproposed | hproposed
    · rw [proposal_of_eq_none.mpr (Or.inr hproposed)]
      exact observe_learned_skip hdrafter hvalid (Or.inr (Or.inr (Or.inr hproposed)))
    · rw [proposal_of_eq_some.mpr ⟨rfl, hdrafter, hproposed⟩,
        observe_learning_count hdrafter hvalid hproposed, close_learned_learning]
      dsimp only
      split_ifs <;> first | rfl | omega
  | history =>
    rw [proposal_of_eq_none.mpr (Or.inl (by simp [hdrafter]))]
    exact observe_history_skip hdrafter hvalid (Or.inr (Or.inl rfl))

/-- **A round while history drafts are tried.** -/
theorem observe_trying (hvalid : round.accepted ≤ round.proposed) (hblock : block.length < 2) :
    (trying block).observe round = .ok (match proposal_of .history round with
      | none => trying block
      | some round =>
        if block.length + 1 = 2 then
          if WeakWord (block ++ [round]) then given_up else trying []
        else trying (block ++ [round])) := by
  cases hdrafter : round.drafter with
  | learned =>
    rw [proposal_of_eq_none.mpr (Or.inl (by simp [hdrafter]))]
    exact observe_learned_skip hdrafter hvalid (Or.inr (Or.inl rfl))
  | history =>
    rcases eq_or_ne round.proposed 0 with hproposed | hproposed
    · rw [proposal_of_eq_none.mpr (Or.inr hproposed)]
      exact observe_history_skip hdrafter hvalid (Or.inr (Or.inr hproposed))
    · rw [proposal_of_eq_some.mpr ⟨rfl, hdrafter, hproposed⟩,
        observe_trying_count hdrafter hvalid hproposed, close_history_trying]
      dsimp only
      split_ifs <;> first | rfl | omega

/-- **A round after history drafts have been given up.** -/
theorem observe_given_up (hvalid : round.accepted ≤ round.proposed) :
    given_up.observe round = .ok given_up := by
  cases hdrafter : round.drafter with
  | learned => exact observe_learned_skip hdrafter hvalid (Or.inr (Or.inr (Or.inl rfl)))
  | history => exact observe_history_skip hdrafter hvalid (Or.inr (Or.inl rfl))

/-! ### All rounds -/

/-- The policy is in the phase of its rounds, with the counters of the pending block. -/
inductive Follows (rounds : List DraftedRound) : HistoryDraftPolicy → Prop
  | learning (h : ¬HasBlock 8 WeakWord (rounds.filterMap (proposal_of .learned))) :
      Follows rounds (learning (pending 8 (rounds.filterMap (proposal_of .learned))))
  | trying {before after : List DraftedRound} (heq : rounds = before ++ after)
      (hbefore : Activates WeakWord before) (hafter : ¬Deactivates WeakWord after) :
      Follows rounds (trying (pending 2 (after.filterMap (proposal_of .history))))
  | given_up {before after : List DraftedRound} (heq : rounds = before ++ after)
      (hbefore : Activates WeakWord before) (hafter : Deactivates WeakWord after) :
      Follows rounds given_up

theorem follows_nil : Follows [] (make .adaptive) := Follows.learning (not_hasBlock_nil (by decide))

/-- A round without a proposal of the drafter. -/
theorem filterMap_append_none (h : proposal_of drafter round = none) (rounds : List DraftedRound) :
    (rounds ++ [round]).filterMap (proposal_of drafter) = rounds.filterMap (proposal_of drafter) := by
  rw [List.filterMap_append, List.filterMap_cons_none h, List.filterMap_nil, List.append_nil]

theorem filterMap_append_some {round' : DraftedRound} (h : proposal_of drafter round = some round')
    (rounds : List DraftedRound) :
    (rounds ++ [round]).filterMap (proposal_of drafter) =
      rounds.filterMap (proposal_of drafter) ++ [round'] := by
  rw [List.filterMap_append, List.filterMap_cons_some h, List.filterMap_nil]

/-- **One more round.** What the policy keeps are counts of the block that is not over yet, and the
phase, and both follow from the rounds so far. -/
theorem Follows.observe (h : Follows rounds policy) (hvalid : round.accepted ≤ round.proposed) :
    ∃ policy', policy.observe round = .ok policy' ∧ Follows (rounds ++ [round]) policy' := by
  cases h with
  | learning h =>
    refine ⟨_, observe_learning hvalid (length_pending_lt (by decide) _), ?_⟩
    cases hproposal : proposal_of .learned round with
    | none =>
      -- a round that is not counted leaves the block as it is
      have hsame := filterMap_append_none hproposal rounds
      rw [← hsame] at h ⊢
      exact Follows.learning h
    | some round' =>
      have hnext := filterMap_append_some hproposal rounds
      have hblock := hasBlock_append (p := WeakWord) (show 0 < 8 by decide)
        (rounds.filterMap (proposal_of .learned)) round'
      have hpending := pending_append (show 0 < 8 by decide)
        (rounds.filterMap (proposal_of .learned)) round'
      rw [← hnext] at hblock hpending
      dsimp only
      -- the block is closed, and weak or not; or it goes on
      split_ifs with hclosed hweak
      · have hfirst : Activates WeakWord (rounds ++ [round]) :=
          EndsFirst.of_append h (hblock.mpr (Or.inr ⟨hclosed, hweak⟩))
        exact Follows.trying (List.append_nil _).symm hfirst (not_hasBlock_nil (by decide))
      · have hnone := Follows.learning fun hc => (hblock.mp hc).elim h fun hc => hweak hc.2
        rwa [hpending, if_pos hclosed] at hnone
      · have hnone := Follows.learning fun hc => (hblock.mp hc).elim h fun hc => hclosed hc.1
        rwa [hpending, if_neg hclosed] at hnone
  | @trying before after heq hbefore hafter =>
    refine ⟨_, observe_trying hvalid (length_pending_lt (by decide) _), ?_⟩
    -- the rounds before the trial stay what they are
    have heq' : rounds ++ [round] = before ++ (after ++ [round]) := by
      rw [heq, List.append_assoc]
    cases hproposal : proposal_of .history round with
    | none =>
      have hsame := filterMap_append_none hproposal after
      rw [Deactivates, ← hsame] at hafter
      rw [← hsame]
      exact Follows.trying heq' hbefore hafter
    | some round' =>
      have hnext := filterMap_append_some hproposal after
      have hblock := hasBlock_append (p := WeakWord) (show 0 < 2 by decide)
        (after.filterMap (proposal_of .history)) round'
      have hpending := pending_append (show 0 < 2 by decide)
        (after.filterMap (proposal_of .history)) round'
      rw [← hnext] at hblock hpending
      dsimp only
      split_ifs with hclosed hweak
      · exact Follows.given_up heq' hbefore (hblock.mpr (Or.inr ⟨hclosed, hweak⟩))
      · have hnone := Follows.trying heq' hbefore fun hc =>
          (hblock.mp hc).elim hafter fun hc => hweak hc.2
        rwa [hpending, if_pos hclosed] at hnone
      · have hnone := Follows.trying heq' hbefore fun hc =>
          (hblock.mp hc).elim hafter fun hc => hclosed hc.1
        rwa [hpending, if_neg hclosed] at hnone
  | @given_up before after heq hbefore hafter =>
    have heq' : rounds ++ [round] = before ++ (after ++ [round]) := by
      rw [heq, List.append_assoc]
    refine ⟨_, observe_given_up hvalid, Follows.given_up heq' hbefore ?_⟩
    exact hasBlock_filterMap_append hafter [round]

theorem observe_all_nil (policy : HistoryDraftPolicy) : policy.observe_all [] = .ok policy := rfl

theorem observe_all_append (policy : HistoryDraftPolicy) (before after : List DraftedRound) :
    policy.observe_all (before ++ after) =
      (policy.observe_all before >>= fun policy => policy.observe_all after) :=
  List.foldlM_append

theorem observe_all_cons (policy : HistoryDraftPolicy) (round : DraftedRound)
    (rounds : List DraftedRound) :
    policy.observe_all (round :: rounds) =
      (policy.observe round >>= fun policy => policy.observe_all rounds) :=
  List.foldlM_cons

/-- **The phase after any rounds** is the one that the rounds say. By induction on them, with the
counts of the current block as the invariant. -/
theorem follows_observe_all (rounds : List DraftedRound)
    (hvalid : ∀ round ∈ rounds, round.accepted ≤ round.proposed) :
    ∃ policy, (make .adaptive).observe_all rounds = .ok policy ∧ Follows rounds policy := by
  induction rounds using List.reverseRecOn with
  | nil => exact ⟨_, rfl, follows_nil⟩
  | append_singleton rounds round ih =>
    obtain ⟨policy, hpolicy, h⟩ := ih fun r hr => hvalid r (List.mem_append_left _ hr)
    obtain ⟨policy', hpolicy', h'⟩ := h.observe (hvalid round (by simp))
    refine ⟨policy', ?_, h'⟩
    rw [observe_all_append, hpolicy, Except.ok_bind, observe_all_cons, hpolicy', Except.ok_bind,
      observe_all_nil]

/-! ### The phases exclude each other -/

theorem hasBlock_of_split (heq : rounds = before ++ after) (hbefore : Activates weak before) :
    HasBlock 8 weak (rounds.filterMap (proposal_of .learned)) :=
  heq ▸ hasBlock_filterMap_append hbefore.1 after

/-- The phase behind a first weak block is told by the rounds behind it. -/
theorem active_iff_of_split (heq : rounds = before ++ after) (hbefore : Activates weak before) :
    Active weak rounds ↔ ¬Deactivates weak after := by
  constructor
  · rintro ⟨before', after', heq', hbefore', hafter'⟩
    obtain ⟨rfl, rfl⟩ := hbefore.unique hbefore' (heq.symm.trans heq')
    exact hafter'
  · exact fun hafter => ⟨before, after, heq, hbefore, hafter⟩

theorem rejected_iff_of_split (heq : rounds = before ++ after) (hbefore : Activates weak before) :
    Rejected weak rounds ↔ Deactivates weak after := by
  constructor
  · rintro ⟨before', after', heq', hbefore', hafter'⟩
    obtain ⟨rfl, rfl⟩ := hbefore.unique hbefore' (heq.symm.trans heq')
    exact hafter'
  · exact fun hafter => ⟨before, after, heq, hbefore, hafter⟩

/-- What the phases are for the policy: its flags and its counters. -/
theorem Follows.phase (h : Follows rounds policy) :
    ¬Active WeakWord rounds ∧ ¬Rejected WeakWord rounds ∧
        (∃ block : List DraftedRound, policy = HistoryDraftPolicy.learning block) ∨
      Active WeakWord rounds ∧ ¬Rejected WeakWord rounds ∧
        (∃ block : List DraftedRound, policy = HistoryDraftPolicy.trying block) ∨
      ¬Active WeakWord rounds ∧ Rejected WeakWord rounds ∧ policy = HistoryDraftPolicy.given_up := by
  cases h with
  | learning h =>
    refine Or.inl ⟨?_, ?_, _, rfl⟩
    · rintro ⟨before, after, heq, hbefore, -⟩
      exact h (hasBlock_of_split heq hbefore)
    · rintro ⟨before, after, heq, hbefore, -⟩
      exact h (hasBlock_of_split heq hbefore)
  | trying heq hbefore hafter =>
    refine Or.inr (Or.inl ⟨(active_iff_of_split heq hbefore).mpr hafter, fun hc => ?_, _, rfl⟩)
    exact hafter ((rejected_iff_of_split heq hbefore).mp hc)
  | given_up heq hbefore hafter =>
    refine Or.inr (Or.inr ⟨fun hc => ?_, (rejected_iff_of_split heq hbefore).mpr hafter, rfl⟩)
    exact (active_iff_of_split heq hbefore).mp hc hafter

theorem Follows.should_try_iff (h : Follows rounds policy) :
    policy.should_try ↔ Active WeakWord rounds := by
  rcases h.phase with ⟨hactive, -, block, rfl⟩ | ⟨hactive, -, block, rfl⟩ | ⟨hactive, -, rfl⟩
  · exact iff_of_false Bool.false_ne_true hactive
  · exact iff_of_true rfl hactive
  · exact iff_of_false Bool.false_ne_true hactive

theorem Follows.exhausted_iff (h : Follows rounds policy) :
    policy.exhausted ↔ Rejected WeakWord rounds := by
  rcases h.phase with ⟨-, hrejected, block, rfl⟩ | ⟨-, hrejected, block, rfl⟩ | ⟨-, hrejected, rfl⟩
  · exact iff_of_false Bool.false_ne_true hrejected
  · exact iff_of_false Bool.false_ne_true hrejected
  · exact iff_of_true rfl hrejected

/-- **An idle round changes nothing.** -/
theorem Follows.observe_idle (h : Follows before policy) (hvalid : round.accepted ≤ round.proposed)
    (hidle : Idle WeakWord before round) : policy.observe round = .ok policy := by
  rw [Idle, ← h.should_try_iff, ← h.exhausted_iff] at hidle
  cases hdrafter : round.drafter with
  | learned =>
    refine observe_learned_skip hdrafter hvalid (Or.inr ?_)
    rw [hdrafter] at hidle
    rcases hidle with hproposed | hactive | hrejected
    · exact Or.inr (Or.inr hproposed)
    · exact Or.inl hactive
    · exact Or.inr (Or.inl hrejected)
  | history =>
    refine observe_history_skip hdrafter hvalid (Or.inr ?_)
    rw [hdrafter] at hidle
    rcases hidle with hproposed | hactive
    · exact Or.inr hproposed
    · exact Or.inl (by simpa [should_try] using hactive)

/-- The phases come one after the other. -/
theorem rejected_append (h : Rejected weak before) (after : List DraftedRound) :
    Rejected weak (before ++ after) := by
  obtain ⟨first, rest, rfl, hfirst, hrest⟩ := h
  exact ⟨first, rest ++ after, List.append_assoc first rest after, hfirst,
    hasBlock_filterMap_append hrest after⟩

theorem not_active_of_rejected (h : Rejected weak rounds) : ¬Active weak rounds := by
  obtain ⟨before, after, heq, hbefore, hafter⟩ := h
  exact fun hc => (active_iff_of_split heq hbefore).mp hc hafter

theorem active_append (h : Active weak before) (after : List DraftedRound) :
    Active weak (before ++ after) ∨ Rejected weak (before ++ after) := by
  obtain ⟨first, rest, rfl, hfirst, -⟩ := h
  have heq := List.append_assoc first rest after
  rw [active_iff_of_split heq hfirst, rejected_iff_of_split heq hfirst]
  exact (Classical.em _).symm

/-! ### Sums that do not wrap -/

theorem sum_lt_of_lt {f : DraftedRound → Nat} (h : ∀ round ∈ block, f round < 2 ^ 60)
    (hlength : block.length ≤ 8) : (block.map f).sum < 2 ^ 63 := by
  have hle : (block.map f).sum ≤ (block.map f).length • (2 ^ 60 - 1) := by
    refine List.sum_le_card_nsmul _ _ fun count hcount => ?_
    obtain ⟨round, hround, rfl⟩ := List.mem_map.mp hcount
    have hlt := h round hround
    omega
  rw [List.length_map, nsmul_eq_mul, Nat.cast_id] at hle
  have hmul : block.length * (2 ^ 60 - 1) ≤ 8 * (2 ^ 60 - 1) := Nat.mul_le_mul_right _ hlength
  omega

/-- A block of counts that fit in a word together. -/
theorem weakWord_iff (hvalid : ∀ round ∈ block, round.accepted ≤ round.proposed)
    (hbound : ∀ round ∈ block, round.proposed < 2 ^ 60) (hlength : block.length ≤ 8) :
    WeakWord block ↔ Weak block := by
  have hproposed := sum_lt_of_lt hbound hlength
  have haccepted := sum_lt_of_lt (fun round hround =>
    (hvalid round hround).trans_lt (hbound round hround)) hlength
  rw [WeakWord, Weak]
  omega

theorem mem_of_mem_filterMap {rounds : List DraftedRound}
    (h : round ∈ rounds.filterMap (proposal_of drafter)) : round ∈ rounds := by
  obtain ⟨round', hmem, hproposal⟩ := List.mem_filterMap.mp h
  rwa [(proposal_of_eq_some.mp hproposal).1]

section Bounded

variable (hvalid : ∀ round ∈ rounds, round.accepted ≤ round.proposed)
  (hbound : ∀ round ∈ rounds, round.proposed < 2 ^ 60)

include hvalid hbound

theorem activates_weakWord (hbefore : before <+: rounds) :
    Activates WeakWord before ↔ Activates Weak before := by
  refine endsFirst_congr fun block hblock hlength => ?_
  have hmem (r : DraftedRound) (hr : r ∈ block) : r ∈ rounds :=
    hbefore.subset (mem_of_mem_filterMap (hblock.subset hr))
  exact weakWord_iff (fun r hr => hvalid r (hmem r hr)) (fun r hr => hbound r (hmem r hr)) hlength.le

theorem deactivates_weakWord (hafter : after <:+ rounds) :
    Deactivates WeakWord after ↔ Deactivates Weak after := by
  refine hasBlock_congr fun block hblock hlength => ?_
  have hmem (r : DraftedRound) (hr : r ∈ block) : r ∈ rounds :=
    hafter.subset (mem_of_mem_filterMap (hblock.subset hr))
  exact weakWord_iff (fun r hr => hvalid r (hmem r hr)) (fun r hr => hbound r (hmem r hr)) (by omega)

theorem active_weakWord : Active WeakWord rounds ↔ Active Weak rounds := by
  refine exists₂_congr fun before after => and_congr_right fun heq => and_congr ?_ (not_congr ?_)
  · exact activates_weakWord hvalid hbound ⟨after, heq.symm⟩
  · exact deactivates_weakWord hvalid hbound ⟨before, heq.symm⟩

theorem rejected_weakWord : Rejected WeakWord rounds ↔ Rejected Weak rounds := by
  refine exists₂_congr fun before after => and_congr_right fun heq => and_congr ?_ ?_
  · exact activates_weakWord hvalid hbound ⟨after, heq.symm⟩
  · exact deactivates_weakWord hvalid hbound ⟨before, heq.symm⟩

theorem idle_weakWord {before after : List DraftedRound} (heq : rounds = before ++ after) :
    Idle WeakWord before round ↔ Idle Weak before round := by
  have hmem (r : DraftedRound) (hr : r ∈ before) : r ∈ rounds := heq ▸ List.mem_append_left after hr
  rw [Idle, Idle, active_weakWord (fun r hr => hvalid r (hmem r hr)) fun r hr => hbound r (hmem r hr),
    rejected_weakWord (fun r hr => hvalid r (hmem r hr)) fun r hr => hbound r (hmem r hr)]

end Bounded

/-! ### The policy, from all rounds -/

/-- A policy that is what the rounds say: tried in the one phase and given up in the other, and the
same without any round that was seen in the wrong phase or had no proposal. -/
structure Decides (weak : List DraftedRound → Prop) (rounds : List DraftedRound)
    (policy : HistoryDraftPolicy) : Prop where
  should_try : policy.should_try ↔ Active weak rounds
  exhausted : policy.exhausted ↔ Rejected weak rounds
  activated : 0 < policy.activations ↔ Active weak rounds ∨ Rejected weak rounds
  deactivated : 0 < policy.deactivations ↔ Rejected weak rounds
  idle : ∀ before round after, rounds = before ++ round :: after → Idle weak before round →
    (make .adaptive).observe_all (before ++ after) = .ok policy

theorem Follows.activations (h : Follows rounds policy) :
    policy.activations ≤ 1 ∧
      (0 < policy.activations ↔ Active WeakWord rounds ∨ Rejected WeakWord rounds) := by
  rcases h.phase with ⟨hactive, hrejected, block, rfl⟩ | ⟨hactive, -, block, rfl⟩ | ⟨-, hrejected, rfl⟩
  · exact ⟨Nat.zero_le 1, iff_of_false (Nat.lt_irrefl 0) (not_or.mpr ⟨hactive, hrejected⟩)⟩
  · exact ⟨Nat.le_refl 1, iff_of_true Nat.zero_lt_one (Or.inl hactive)⟩
  · exact ⟨Nat.le_refl 1, iff_of_true Nat.zero_lt_one (Or.inr hrejected)⟩

theorem Follows.deactivations (h : Follows rounds policy) :
    policy.deactivations ≤ 1 ∧ (0 < policy.deactivations ↔ Rejected WeakWord rounds) := by
  rcases h.phase with ⟨-, hrejected, block, rfl⟩ | ⟨-, hrejected, block, rfl⟩ | ⟨-, hrejected, rfl⟩
  · exact ⟨Nat.zero_le 1, iff_of_false (Nat.lt_irrefl 0) hrejected⟩
  · exact ⟨Nat.zero_le 1, iff_of_false (Nat.lt_irrefl 0) hrejected⟩
  · exact ⟨Nat.le_refl 1, iff_of_true Nat.zero_lt_one hrejected⟩

/-- **An idle round may be left out.** -/
theorem observe_all_idle (hvalid : ∀ r ∈ before ++ round :: after, r.accepted ≤ r.proposed)
    (hidle : Idle WeakWord before round) :
    (make .adaptive).observe_all (before ++ round :: after) =
      (make .adaptive).observe_all (before ++ after) := by
  obtain ⟨policy, hpolicy, h⟩ := follows_observe_all before fun r hr =>
    hvalid r (List.mem_append_left _ hr)
  rw [observe_all_append, observe_all_append, hpolicy, Except.ok_bind, Except.ok_bind,
    observe_all_cons, h.observe_idle (hvalid round (by simp)) hidle, Except.ok_bind]

theorem Follows.decides (h : Follows rounds policy)
    (hpolicy : (make .adaptive).observe_all rounds = .ok policy)
    (hvalid : ∀ round ∈ rounds, round.accepted ≤ round.proposed) :
    Decides WeakWord rounds policy where
  should_try := h.should_try_iff
  exhausted := h.exhausted_iff
  activated := h.activations.2
  deactivated := h.deactivations.2
  idle := by
    rintro before round after rfl hidle
    rw [← observe_all_idle hvalid hidle, hpolicy]

/-- Where no sum wraps, less than half is less than half. -/
theorem Decides.of_bounded (h : Decides WeakWord rounds policy)
    (hvalid : ∀ round ∈ rounds, round.accepted ≤ round.proposed)
    (hbound : ∀ round ∈ rounds, round.proposed < 2 ^ 60) : Decides Weak rounds policy where
  should_try := h.should_try.trans (active_weakWord hvalid hbound)
  exhausted := h.exhausted.trans (rejected_weakWord hvalid hbound)
  activated := h.activated.trans
    (or_congr (active_weakWord hvalid hbound) (rejected_weakWord hvalid hbound))
  deactivated := h.deactivated.trans (rejected_weakWord hvalid hbound)
  idle before round after heq hidle :=
    h.idle before round after heq ((idle_weakWord hvalid hbound heq).mpr hidle)

/-- The other modes do not look at the rounds. -/
theorem observe_all_of_not_adaptive (hmode : policy.mode ≠ .adaptive)
    (hvalid : ∀ round ∈ rounds, round.accepted ≤ round.proposed) :
    policy.observe_all rounds = .ok policy := by
  induction rounds with
  | nil => rfl
  | cons round rounds ih =>
    have hround : round.accepted ≤ round.proposed := hvalid round List.mem_cons_self
    have hskip : policy.observe round = .ok policy := by
      cases hdrafter : round.drafter with
      | learned => exact observe_learned_skip hdrafter hround (Or.inl hmode)
      | history => exact observe_history_skip hdrafter hround (Or.inl hmode)
    rw [observe_all_cons, hskip, Except.ok_bind, ih fun r hr => hvalid r (List.mem_cons_of_mem _ hr)]

/-- A round with more accepted than proposed is refused. -/
theorem observe_eq_error (h : round.proposed < round.accepted) :
    policy.observe round = .error "draft acceptance exceeds proposed tokens" := by
  have hrefused : validate_observation round.proposed round.accepted =
    .error "draft acceptance exceeds proposed tokens" := Except.throw_if_of h
  rw [observe]
  cases round.drafter with
  | learned =>
    dsimp only
    rw [observe_learned, hrefused, Except.error_bind]
  | history =>
    dsimp only
    rw [observe_history, hrefused, Except.error_bind]

/-- **The adaptive policy is what its rounds say**, whatever their order: history drafts are tried
from the end of the first weak block of eight learned rounds to the end of the first weak block of
two history rounds behind it, and never again. -/
theorem history_policy_of_rounds (rounds : List DraftedRound)
    (hvalid : ∀ round ∈ rounds, round.accepted ≤ round.proposed) :
    ∃ policy, (make .adaptive).observe_all rounds = .ok policy ∧
      Decides WeakWord rounds policy ∧
      ((∀ round ∈ rounds, round.proposed < 2 ^ 60) → Decides Weak rounds policy) ∧
      policy.activations ≤ 1 ∧ policy.deactivations ≤ 1 ∧
      ∀ later, (∀ round ∈ later, round.accepted ≤ round.proposed) →
        ∃ policy', policy.observe_all later = .ok policy' ∧
          (policy.should_try → policy'.should_try ∨ policy'.exhausted) ∧
          (policy.exhausted → policy'.exhausted ∧ ¬policy'.should_try) := by
  obtain ⟨policy, hpolicy, h⟩ := follows_observe_all rounds hvalid
  have hdecides := h.decides hpolicy hvalid
  refine ⟨policy, hpolicy, hdecides, hdecides.of_bounded hvalid, h.activations.1, h.deactivations.1,
    fun later hlater => ?_⟩
  obtain ⟨policy', hpolicy', h'⟩ := follows_observe_all (rounds ++ later) fun round hround =>
    (List.mem_append.mp hround).elim (hvalid round) (hlater round)
  rw [observe_all_append, hpolicy, Except.ok_bind] at hpolicy'
  refine ⟨policy', hpolicy', ?_, ?_⟩
  · rw [h.should_try_iff, h'.should_try_iff, h'.exhausted_iff]
    exact fun hactive => active_append hactive later
  · rw [h.exhausted_iff, h'.should_try_iff, h'.exhausted_iff]
    intro hrejected
    have hlast := rejected_append hrejected later
    exact ⟨hlast, not_active_of_rejected hlast⟩

/-- A weak block of learned rounds and one of history rounds, with rounds that do not count before
and between them. -/
def probe : List DraftedRound :=
  ⟨.history, 3, 0⟩ :: ⟨.learned, 0, 0⟩ :: List.replicate 8 ⟨.learned, 2, 0⟩ ++
    [⟨.history, 3, 1⟩, ⟨.learned, 2, 2⟩, ⟨.history, 3, 1⟩]

theorem history_policy_of_rounds_probe :
    (make .adaptive).observe_all probe = .ok given_up ∧ Decides Weak probe given_up := by
  obtain ⟨policy, hpolicy, -, hdecides, -⟩ := history_policy_of_rounds probe (by decide)
  have hgiven_up : (make .adaptive).observe_all probe = .ok given_up := rfl
  obtain rfl : policy = given_up := Except.ok.inj (hpolicy.symm.trans hgiven_up)
  exact ⟨hgiven_up, hdecides (by decide)⟩

end HistoryDraftPolicy

end Qwen38
