import Qwen38.Engine.Mtp

/-!
# The depth of the drafts

`MtpDepthPolicy`: how many tokens the next learned round drafts. A short prompt starts with a
probe at depth 2, or at depth 4 with a watch on the fourth draft; a depth that does not pay goes
down. What the environment enables is read again at every round.

The policy goes through its phases in one direction: every demotion lowers the depth, and the one
promotion ends the probe. So the depth and the demotions together stay at 4
(`MtpDepthPolicy.Sound`).
-/

namespace Qwen38

open Except (throw_if)

/-- `MtpDepthPolicy`. -/
structure MtpDepthPolicy where
  maximum_depth : Nat
  depth : Nat
  probing : Bool := false
  monitoring : Bool := false
  adaptive_four : Bool := false
  depth_four_probation_complete : Bool := false
  promotion_probation_complete : Bool := false
  probe_rounds : Nat := 0
  probe_accepted : Nat := 0
  monitor_rounds : Nat := 0
  monitor_proposed : Nat := 0
  monitor_accepted : Nat := 0
  monitor_fourth_accepted : Nat := 0
  monitor_losing_windows : Nat := 0
  promotions : Nat := 0
  demotions : Nat := 0

/-- An observed round, with what the environment enables by then. -/
structure DepthRound where
  proposed : Nat
  accepted : Nat
  demotion_enabled : Bool := true
  early_demotion_enabled : Bool := false

namespace MtpDepthPolicy

/-- `MtpDepthPolicy`, the constructor. -/
def make (adaptive_depth_four_enabled : Bool) (maximum_depth prompt_tokens : Nat)
    (adaptive_depth_four : Bool) : Except String MtpDepthPolicy := do
  throw_if (maximum_depth ≠ 0 ∧ (maximum_depth < 2 ∨ 4 < maximum_depth))
    "MTP policy depth must be 0 or between 2 and 4"
  let policy : MtpDepthPolicy := { maximum_depth, depth := maximum_depth }
  if maximum_depth = 4 ∧ adaptive_depth_four ∧ prompt_tokens ≤ 2048 then
    return { policy with adaptive_four := true, monitoring := true }
  else if maximum_depth = 3 then
    let adaptive_four := adaptive_depth_four || adaptive_depth_four_enabled
    if adaptive_four ∧ prompt_tokens ≤ 2048 then
      return { policy with adaptive_four, depth := 4, monitoring := true }
    else return { policy with adaptive_four, depth := 2, probing := prompt_tokens ≤ 2048 }
  else return policy

/-- A round of the probe. -/
def observe_probe (round : DepthRound) (policy : MtpDepthPolicy) : MtpDepthPolicy :=
  let policy := { policy with
    probe_rounds := policy.probe_rounds + 1
    probe_accepted := (policy.probe_accepted + round.accepted) % 2 ^ 64 }
  if policy.probe_rounds = 8 then
    if 10 ≤ policy.probe_accepted then
      { policy with
        probing := false
        depth := policy.maximum_depth
        monitoring := true
        promotions := policy.promotions + 1 }
    else { policy with probing := false }
  else policy

/-- A round in the window. -/
def count_round (round : DepthRound) (policy : MtpDepthPolicy) : MtpDepthPolicy :=
  { policy with
    monitor_rounds := policy.monitor_rounds + 1
    monitor_proposed := (policy.monitor_proposed + round.proposed) % 2 ^ 64
    monitor_accepted := (policy.monitor_accepted + round.accepted) % 2 ^ 64 }

/-- `monitor_fourth_accepted`. -/
def count_fourth (round : DepthRound) (policy : MtpDepthPolicy) : MtpDepthPolicy :=
  if 4 ≤ round.accepted then
    { policy with monitor_fourth_accepted := policy.monitor_fourth_accepted + 1 }
  else policy

/-- The window starts again. -/
def clear_window (policy : MtpDepthPolicy) : MtpDepthPolicy :=
  { policy with monitor_rounds := 0, monitor_proposed := 0, monitor_accepted := 0 }

/-- The window of depth 4 starts again. -/
def clear_four (policy : MtpDepthPolicy) : MtpDepthPolicy :=
  { policy.clear_window with monitor_fourth_accepted := 0 }

/-- The depth goes down. -/
def demote (depth : Nat) (policy : MtpDepthPolicy) : MtpDepthPolicy :=
  { policy with depth, demotions := policy.demotions + 1 }

/-- The depth goes down for good. -/
def settle (policy : MtpDepthPolicy) : MtpDepthPolicy :=
  { policy.demote 2 with monitoring := false }

/-- `depth_four_probation_complete`. -/
def pass_four (policy : MtpDepthPolicy) : MtpDepthPolicy :=
  if policy.monitor_rounds = 4 then { policy with depth_four_probation_complete := true }
  else policy

/-- The end of the window of depth 4. -/
def end_four (policy : MtpDepthPolicy) : MtpDepthPolicy :=
  if policy.monitor_rounds = 8 then
    clear_four (if policy.monitor_fourth_accepted * 2 < 8 then policy.demote 3 else policy)
  else policy

/-- A round at depth 4. -/
def observe_four (round : DepthRound) (policy : MtpDepthPolicy) : MtpDepthPolicy :=
  let policy := (policy.count_round round).count_fourth round
  if !policy.depth_four_probation_complete ∧ policy.monitor_rounds = 4 ∧
      policy.monitor_fourth_accepted * 2 < 4 then
    (policy.demote 3).clear_four
  else policy.pass_four.end_four

/-- `promotion_probation_complete`. -/
def pass_three (policy : MtpDepthPolicy) : MtpDepthPolicy :=
  if policy.monitor_rounds = 4 then { policy with promotion_probation_complete := true }
  else policy

/-- A window that lost. -/
def lose_window (policy : MtpDepthPolicy) : MtpDepthPolicy :=
  let policy := { policy with monitor_losing_windows := policy.monitor_losing_windows + 1 }
  if policy.monitor_losing_windows = 2 then policy.settle else policy

/-- The end of the window of depth 3. -/
def end_three (policy : MtpDepthPolicy) : MtpDepthPolicy :=
  if policy.monitor_rounds = 12 then
    clear_window
      (if policy.monitor_accepted * 2 % 2 ^ 64 < policy.monitor_proposed then policy.lose_window
        else { policy with monitor_losing_windows := 0 })
  else policy

/-- A round at depth 3. -/
def observe_three (round : DepthRound) (policy : MtpDepthPolicy) : MtpDepthPolicy :=
  let policy := policy.count_round round
  if !policy.promotion_probation_complete ∧ round.early_demotion_enabled ∧
      policy.monitor_rounds = 4 ∧ policy.monitor_accepted * 2 % 2 ^ 64 < policy.monitor_proposed then
    policy.settle
  else policy.pass_three.end_three

/-- `observe`. -/
def observe (policy : MtpDepthPolicy) (round : DepthRound) : Except String MtpDepthPolicy := do
  throw_if (round.proposed < round.accepted) "MTP accepted count exceeds proposals"
  if policy.depth = 0 ∨ round.proposed = 0 then return policy
  else if policy.probing then return policy.observe_probe round
  else if !policy.monitoring ∨ !round.demotion_enabled then return policy
  else if policy.adaptive_four ∧ policy.depth = 4 then return policy.observe_four round
  else if policy.depth ≠ 3 then return policy
  else return policy.observe_three round

/-! ### What a round can do -/

/-- What the invariants speak of is the same. -/
structure Alike (policy policy' : MtpDepthPolicy) : Prop where
  maximum_depth : policy'.maximum_depth = policy.maximum_depth
  depth : policy'.depth = policy.depth
  probing : policy'.probing = policy.probing
  promotions : policy'.promotions = policy.promotions
  demotions : policy'.demotions = policy.demotions

/-- The depth goes down by one. -/
structure Demoted (policy policy' : MtpDepthPolicy) : Prop where
  maximum_depth : policy'.maximum_depth = policy.maximum_depth
  depth : policy'.depth + 1 = policy.depth
  least : 2 ≤ policy'.depth
  probing : policy'.probing = policy.probing
  promotions : policy'.promotions = policy.promotions
  demotions : policy'.demotions = policy.demotions + 1

variable {policy policy₁ policy' : MtpDepthPolicy} {round : DepthRound}

theorem Alike.refl (policy : MtpDepthPolicy) : Alike policy policy := ⟨rfl, rfl, rfl, rfl, rfl⟩

theorem Alike.trans (h : Alike policy policy₁) (h' : Alike policy₁ policy') :
    Alike policy policy' :=
  ⟨h'.1.trans h.1, h'.2.trans h.2, h'.3.trans h.3, h'.4.trans h.4, h'.5.trans h.5⟩

theorem Alike.demoted (h : Alike policy policy₁) (h' : Demoted policy₁ policy') :
    Demoted policy policy' where
  maximum_depth := h'.maximum_depth.trans h.maximum_depth
  depth := h'.depth.trans h.depth
  least := h'.least
  probing := h'.probing.trans h.probing
  promotions := h'.promotions.trans h.promotions
  demotions := by rw [h'.demotions, h.demotions]

theorem Demoted.alike (h : Demoted policy policy₁) (h' : Alike policy₁ policy') :
    Demoted policy policy' where
  maximum_depth := h'.maximum_depth.trans h.maximum_depth
  depth := by rw [h'.depth, h.depth]
  least := h'.depth ▸ h.least
  probing := h'.probing.trans h.probing
  promotions := h'.promotions.trans h.promotions
  demotions := h'.demotions.trans h.demotions

theorem alike_count_round : Alike policy (policy.count_round round) := ⟨rfl, rfl, rfl, rfl, rfl⟩

theorem alike_count_fourth : Alike policy (policy.count_fourth round) := by
  rw [count_fourth]
  split
  · exact ⟨rfl, rfl, rfl, rfl, rfl⟩
  · exact .refl policy

theorem alike_clear_window : Alike policy policy.clear_window := ⟨rfl, rfl, rfl, rfl, rfl⟩

theorem alike_clear_four : Alike policy policy.clear_four := ⟨rfl, rfl, rfl, rfl, rfl⟩

theorem alike_pass_four : Alike policy policy.pass_four := by
  rw [pass_four]
  split
  · exact ⟨rfl, rfl, rfl, rfl, rfl⟩
  · exact .refl policy

theorem alike_pass_three : Alike policy policy.pass_three := by
  rw [pass_three]
  split
  · exact ⟨rfl, rfl, rfl, rfl, rfl⟩
  · exact .refl policy

theorem demoted_demote {depth : Nat} (hleast : 2 ≤ depth) (hdepth : depth + 1 = policy.depth) :
    Demoted policy (policy.demote depth) :=
  ⟨rfl, hdepth, hleast, rfl, rfl, rfl⟩

theorem demoted_settle (hdepth : policy.depth = 3) : Demoted policy policy.settle :=
  ⟨rfl, hdepth.symm, le_refl 2, rfl, rfl, rfl⟩

theorem end_four_cases (hdepth : policy.depth = 4) :
    Alike policy policy.end_four ∨ Demoted policy policy.end_four := by
  rw [end_four]
  split
  · split
    · exact .inr ((demoted_demote (by decide) hdepth.symm).alike alike_clear_four)
    · exact .inl alike_clear_four
  · exact .inl (.refl policy)

theorem observe_four_cases (round : DepthRound) (hdepth : policy.depth = 4) :
    Alike policy (policy.observe_four round) ∨ Demoted policy (policy.observe_four round) := by
  have hcounted : Alike policy ((policy.count_round round).count_fourth round) :=
    alike_count_round.trans alike_count_fourth
  rw [observe_four]
  split
  · refine .inr (hcounted.demoted ((demoted_demote (by decide) ?_).alike alike_clear_four))
    exact (hcounted.depth.trans hdepth).symm
  · have hpassed := hcounted.trans alike_pass_four
    rcases end_four_cases (hpassed.depth.trans hdepth) with hend | hend
    · exact .inl (hpassed.trans hend)
    · exact .inr (hpassed.demoted hend)

theorem lose_window_cases (hdepth : policy.depth = 3) :
    Alike policy policy.lose_window ∨ Demoted policy policy.lose_window := by
  rw [lose_window]
  split
  · exact .inr ⟨rfl, hdepth.symm, le_refl 2, rfl, rfl, rfl⟩
  · exact .inl ⟨rfl, rfl, rfl, rfl, rfl⟩

theorem end_three_cases (hdepth : policy.depth = 3) :
    Alike policy policy.end_three ∨ Demoted policy policy.end_three := by
  rw [end_three]
  split
  · split
    · rcases lose_window_cases hdepth with hlost | hlost
      · exact .inl (hlost.trans alike_clear_window)
      · exact .inr (hlost.alike alike_clear_window)
    · exact .inl ⟨rfl, rfl, rfl, rfl, rfl⟩
  · exact .inl (.refl policy)

theorem observe_three_cases (round : DepthRound) (hdepth : policy.depth = 3) :
    Alike policy (policy.observe_three round) ∨ Demoted policy (policy.observe_three round) := by
  have hcounted : Alike policy (policy.count_round round) := alike_count_round
  rw [observe_three]
  split
  · exact .inr (hcounted.demoted (demoted_settle (hcounted.depth.trans hdepth)))
  · have hpassed := hcounted.trans alike_pass_three
    rcases end_three_cases (hpassed.depth.trans hdepth) with hend | hend
    · exact .inl (hpassed.trans hend)
    · exact .inr (hpassed.demoted hend)

/-- A round of the probe ends it or not, and promotes or not. -/
inductive Probed (policy policy' : MtpDepthPolicy) : Prop
  | on (alike : Alike policy policy')
  | judged (maximum_depth : policy'.maximum_depth = policy.maximum_depth)
      (depth : policy'.depth = policy.depth) (probing : policy'.probing = false)
      (promotions : policy'.promotions = policy.promotions)
      (demotions : policy'.demotions = policy.demotions)
  | promoted (maximum_depth : policy'.maximum_depth = policy.maximum_depth)
      (depth : policy'.depth = policy.maximum_depth) (probing : policy'.probing = false)
      (promotions : policy'.promotions = policy.promotions + 1)
      (demotions : policy'.demotions = policy.demotions)

theorem observe_probe_cases : Probed policy (policy.observe_probe round) := by
  rw [observe_probe]
  split
  · split
    · exact .promoted rfl rfl rfl rfl rfl
    · exact .judged rfl rfl rfl rfl rfl
  · exact .on ⟨rfl, rfl, rfl, rfl, rfl⟩

/-- **What a round can do.** -/
theorem observe_cases (h : policy.observe round = .ok policy') :
    Alike policy policy' ∨ policy.probing = true ∧ policy.depth ≠ 0 ∧ Probed policy policy' ∨
      policy.probing = false ∧ Demoted policy policy' := by
  obtain ⟨-, -, h⟩ := Except.bind_eq_ok.mp h
  split at h
  · cases h
    exact .inl (.refl policy)
  next hproposed =>
    split at h
    -- a probe goes on, is promoted, or is judged
    next hprobing =>
      cases h
      exact .inr (.inl ⟨hprobing, fun hzero => hproposed (.inl hzero), observe_probe_cases⟩)
    next hprobing =>
      have hprobing : policy.probing = false := Bool.eq_false_iff.mpr hprobing
      split at h
      · cases h
        exact .inl (.refl policy)
      · split at h
        -- depth four is judged on its own
        next hfour =>
          cases h
          rcases observe_four_cases round hfour.2 with hcase | hcase
          · exact .inl hcase
          · exact .inr (.inr ⟨hprobing, hcase⟩)
        next =>
          split at h
          · cases h
            exact .inl (.refl policy)
          next hthree =>
            cases h
            rcases observe_three_cases round (not_not.mp hthree) with hcase | hcase
            · exact .inl hcase
            · exact .inr (.inr ⟨hprobing, hcase⟩)

/-! ### Over the rounds -/

/-- The depths and changes that are possible, below a ceiling. -/
structure Sound (ceiling : Nat) (policy : MtpDepthPolicy) : Prop where
  maximum_le : policy.maximum_depth ≤ ceiling
  maximum_ge : policy.maximum_depth ≠ 0 → 2 ≤ policy.maximum_depth
  zero : policy.depth = 0 ↔ policy.maximum_depth = 0
  depth_le : policy.depth ≤ ceiling
  depth_ge : policy.depth ≠ 0 → 2 ≤ policy.depth
  promotions_le : policy.promotions ≤ 1
  demotions_le : policy.demotions ≤ 2
  changes : policy.depth + policy.demotions ≤ 4
  probe : policy.probing = true → policy.promotions = 0 ∧ policy.demotions = 0

variable {ceiling : Nat}

theorem Sound.alike (h : Sound ceiling policy) (hsame : Alike policy policy') :
    Sound ceiling policy' where
  maximum_le := hsame.maximum_depth ▸ h.maximum_le
  maximum_ge := hsame.maximum_depth ▸ h.maximum_ge
  zero := by rw [hsame.depth, hsame.maximum_depth, h.zero]
  depth_le := hsame.depth ▸ h.depth_le
  depth_ge := hsame.depth ▸ h.depth_ge
  promotions_le := hsame.promotions ▸ h.promotions_le
  demotions_le := hsame.demotions ▸ h.demotions_le
  changes := by rw [hsame.depth, hsame.demotions]; exact h.changes
  probe := by rw [hsame.probing, hsame.promotions, hsame.demotions]; exact h.probe

theorem Sound.demoted (h : Sound ceiling policy) (hdemoted : Demoted policy policy')
    (hprobing : policy.probing = false) : Sound ceiling policy' := by
  have hdepth := hdemoted.depth
  have hleast := hdemoted.least
  have hdemotions := hdemoted.demotions
  have hmaximum : policy.maximum_depth ≠ 0 := fun hzero => by
    have := h.zero.mpr hzero
    omega
  refine ⟨?_, ?_, ?_, ?_, fun _ => hleast, ?_, ?_, ?_, ?_⟩
  · exact hdemoted.maximum_depth ▸ h.maximum_le
  · exact hdemoted.maximum_depth ▸ h.maximum_ge
  · rw [hdemoted.maximum_depth]
    exact ⟨fun hzero => by omega, fun hzero => absurd hzero hmaximum⟩
  · have := h.depth_le
    omega
  · exact hdemoted.promotions ▸ h.promotions_le
  · have := h.changes
    omega
  · have := h.changes
    omega
  · intro hprobing'
    rw [hdemoted.probing, hprobing] at hprobing'
    cases hprobing'

theorem Sound.probed (h : Sound ceiling policy) (hceiling : ceiling ≤ 4)
    (hprobing : policy.probing = true) (hdepth : policy.depth ≠ 0)
    (hprobed : Probed policy policy') : Sound ceiling policy' := by
  obtain ⟨hpromotions, hdemotions⟩ := h.probe hprobing
  have hmaximum : policy.maximum_depth ≠ 0 := fun hzero => hdepth (h.zero.mpr hzero)
  cases hprobed with
  | on alike => exact h.alike alike
  | judged maximum_depth depth probing promotions demotions =>
    refine ⟨maximum_depth ▸ h.maximum_le, maximum_depth ▸ h.maximum_ge, ?_, depth ▸ h.depth_le,
      depth ▸ h.depth_ge, promotions ▸ h.promotions_le, demotions ▸ h.demotions_le, ?_, ?_⟩
    · rw [depth, maximum_depth, h.zero]
    · rw [depth, demotions]
      exact h.changes
    · intro hon
      rw [probing] at hon
      cases hon
  | promoted maximum_depth depth probing promotions demotions =>
    refine ⟨maximum_depth ▸ h.maximum_le, maximum_depth ▸ h.maximum_ge, ?_,
      depth ▸ h.maximum_le, depth ▸ h.maximum_ge, ?_, demotions ▸ h.demotions_le, ?_, ?_⟩
    · rw [depth, maximum_depth]
    · rw [promotions, hpromotions]
    · rw [depth, demotions, hdemotions]
      exact h.maximum_le.trans hceiling
    · intro hon
      rw [probing] at hon
      cases hon

/-- A round keeps the bounds. -/
theorem Sound.observe (h : Sound ceiling policy) (hceiling : ceiling ≤ 4)
    (hrun : policy.observe round = .ok policy') : Sound ceiling policy' := by
  rcases observe_cases hrun with hsame | ⟨hprobing, hdepth, hprobed⟩ | ⟨hprobing, hdemoted⟩
  · exact h.alike hsame
  · exact h.probed hceiling hprobing hdepth hprobed
  · exact h.demoted hdemoted hprobing

/-- A round after the probe does not raise the depth. -/
theorem depth_le_of_observe (hprobing : policy.probing = false)
    (hrun : policy.observe round = .ok policy') :
    policy'.probing = false ∧ policy'.depth ≤ policy.depth := by
  rcases observe_cases hrun with hsame | ⟨hon, -, -⟩ | ⟨-, hdemoted⟩
  · exact ⟨hsame.probing.trans hprobing, hsame.depth.le⟩
  · rw [hprobing] at hon
    cases hon
  · exact ⟨hdemoted.probing.trans hprobing, by have := hdemoted.depth; omega⟩

/-- The policy does not throw. -/
theorem exists_observe (policy : MtpDepthPolicy) (hround : round.accepted ≤ round.proposed) :
    ∃ policy', policy.observe round = .ok policy' := by
  rw [observe, Except.throw_if_of_not (Nat.not_lt.mpr hround), Except.ok_bind]
  repeat' split
  all_goals exact ⟨_, rfl⟩

/-- The rounds, one after the other. -/
def observe_all (policy : MtpDepthPolicy) (rounds : List DepthRound) : Except String MtpDepthPolicy :=
  rounds.foldlM observe policy

theorem observe_all_append (before after : List DepthRound) :
    policy.observe_all (before ++ after) =
      (policy.observe_all before >>= fun policy => policy.observe_all after) := by
  rw [observe_all, List.foldlM_append]
  rfl

theorem exists_observe_all (policy : MtpDepthPolicy) {rounds : List DepthRound}
    (hrounds : ∀ round ∈ rounds, round.accepted ≤ round.proposed) :
    ∃ policy', policy.observe_all rounds = .ok policy' := by
  induction rounds generalizing policy with
  | nil => exact ⟨policy, rfl⟩
  | cons round rounds ih =>
    obtain ⟨hround, hrounds⟩ := List.forall_mem_cons.mp hrounds
    obtain ⟨policy', hrun⟩ := exists_observe policy hround
    obtain ⟨final, hfinal⟩ := ih policy' hrounds
    exact ⟨final, by rw [observe_all, List.foldlM_cons, hrun, Except.ok_bind]; exact hfinal⟩

theorem Sound.observe_all {rounds : List DepthRound} (h : Sound ceiling policy)
    (hceiling : ceiling ≤ 4) (hrun : policy.observe_all rounds = .ok policy') :
    Sound ceiling policy' := by
  induction rounds generalizing policy with
  | nil =>
    cases hrun
    exact h
  | cons round rounds ih =>
    rw [MtpDepthPolicy.observe_all, List.foldlM_cons] at hrun
    obtain ⟨next, hnext, hrun⟩ := Except.bind_eq_ok.mp hrun
    exact ih (h.observe hceiling hnext) hrun

theorem maximum_depth_of_observe (hrun : policy.observe round = .ok policy') :
    policy'.maximum_depth = policy.maximum_depth := by
  rcases observe_cases hrun with hsame | ⟨-, -, hprobed⟩ | ⟨-, hdemoted⟩
  · exact hsame.maximum_depth
  · cases hprobed with
    | on alike => exact alike.maximum_depth
    | judged maximum_depth => exact maximum_depth
    | promoted maximum_depth => exact maximum_depth
  · exact hdemoted.maximum_depth

theorem maximum_depth_of_observe_all {rounds : List DepthRound}
    (hrun : policy.observe_all rounds = .ok policy') :
    policy'.maximum_depth = policy.maximum_depth := by
  induction rounds generalizing policy with
  | nil =>
    cases hrun
    rfl
  | cons round rounds ih =>
    rw [MtpDepthPolicy.observe_all, List.foldlM_cons] at hrun
    obtain ⟨next, hnext, hrun⟩ := Except.bind_eq_ok.mp hrun
    exact (ih hrun).trans (maximum_depth_of_observe hnext)

theorem depth_le_of_observe_all {rounds : List DepthRound} (hprobing : policy.probing = false)
    (hrun : policy.observe_all rounds = .ok policy') : policy'.depth ≤ policy.depth := by
  induction rounds generalizing policy with
  | nil =>
    cases hrun
    exact le_refl _
  | cons round rounds ih =>
    rw [MtpDepthPolicy.observe_all, List.foldlM_cons] at hrun
    obtain ⟨next, hnext, hrun⟩ := Except.bind_eq_ok.mp hrun
    obtain ⟨hover, hle⟩ := depth_le_of_observe hprobing hnext
    exact (ih hover hrun).trans hle

/-! ### From the start -/

/-- The greatest depth: the maximum, or 4 where depth 3 is asked for and depth 4 is tried on a
short prompt. -/
def ceiling_of (adaptive : Bool) (maximum_depth prompt_tokens : Nat) : Nat :=
  if maximum_depth = 3 ∧ adaptive ∧ prompt_tokens ≤ 2048 then 4 else maximum_depth

variable {adaptive_depth_four_enabled adaptive_depth_four : Bool} {maximum_depth prompt_tokens : Nat}

theorem sound_make
    (h : make adaptive_depth_four_enabled maximum_depth prompt_tokens adaptive_depth_four =
      .ok policy) :
    Sound (ceiling_of (adaptive_depth_four || adaptive_depth_four_enabled) maximum_depth
        prompt_tokens) policy ∧
      policy.maximum_depth = maximum_depth ∧ maximum_depth ≤ 4 := by
  obtain ⟨_, hthrow, h⟩ := Except.bind_eq_ok.mp h
  have hmaximum := Except.throw_if_eq_ok.mp hthrow
  have hle : maximum_depth ≤ 4 := by omega
  have hge : maximum_depth ≠ 0 → 2 ≤ maximum_depth := by omega
  split at h
  next hfour =>
    cases h
    rw [ceiling_of, if_neg (by omega)]
    exact ⟨⟨le_refl _, hge, Iff.rfl, le_refl _, hge, Nat.zero_le 1, Nat.zero_le 2, hle,
      fun hprobing => by cases hprobing⟩, rfl, hle⟩
  next =>
    split at h
    next hthree =>
      subst hthree
      simp only at h
      split at h
      next hadaptive =>
        cases h
        rw [ceiling_of, if_pos ⟨rfl, hadaptive⟩]
        exact ⟨⟨Nat.le_succ 3, fun _ => Nat.le_succ 2, ⟨fun h => (by cases h), fun h => (by cases h)⟩,
          le_refl 4, fun _ => Nat.le_add_left 2 2, Nat.zero_le 1, Nat.zero_le 2, le_refl 4, fun hprobing => by cases hprobing⟩, rfl, hle⟩
      next hadaptive =>
        cases h
        rw [ceiling_of, if_neg (by tauto)]
        exact ⟨⟨le_refl 3, fun _ => Nat.le_succ 2, ⟨fun h => (by cases h), fun h => (by cases h)⟩,
          Nat.le_succ 2, fun _ => le_refl 2, Nat.zero_le 1, Nat.zero_le 2, Nat.le_add_left 2 2,
          fun _ => ⟨rfl, rfl⟩⟩, rfl, hle⟩
    next hthree =>
      cases h
      rw [ceiling_of, if_neg (by tauto)]
      exact ⟨⟨le_refl _, hge, Iff.rfl, le_refl _, hge, Nat.zero_le 1, Nat.zero_le 2, hle,
        fun hprobing => by cases hprobing⟩, rfl, hle⟩

/-- **The policy over any rounds**: it does not throw, its depth is one of 0, 2, 3 and 4 and
below the ceiling, it is 0 where the maximum is, it is promoted once and demoted twice at most, it
does not rise after the probe, and it passes the check of a round. -/
theorem depth_policy_of_rounds
    (hmake : make adaptive_depth_four_enabled maximum_depth prompt_tokens adaptive_depth_four =
      .ok policy) {rounds : List DepthRound}
    (hrounds : ∀ round ∈ rounds, round.accepted ≤ round.proposed) :
    ∃ policy', policy.observe_all rounds = .ok policy' ∧
      policy'.depth ∈ [0, 2, 3, 4] ∧
      policy'.depth ≤ ceiling_of (adaptive_depth_four || adaptive_depth_four_enabled) maximum_depth
        prompt_tokens ∧
      (policy'.depth = 0 ↔ maximum_depth = 0) ∧
      policy'.promotions ≤ 1 ∧ policy'.demotions ≤ 2 ∧
      (∀ before after between, rounds = before ++ after → policy.observe_all before = .ok between →
        between.probing = false → policy'.depth ≤ between.depth) ∧
      (maximum_depth ≠ 0 → throw_if (policy'.depth < 2 ∨ 4 < policy'.depth)
        "MTP draft depth must be between 2 and 4" = .ok ()) := by
  obtain ⟨hstart, hmaximum, hle⟩ := sound_make hmake
  obtain ⟨policy', hrun⟩ := exists_observe_all policy hrounds
  have hceiling : ceiling_of (adaptive_depth_four || adaptive_depth_four_enabled) maximum_depth
      prompt_tokens ≤ 4 := by
    rw [ceiling_of]
    split <;> omega
  have hsound := hstart.observe_all hceiling hrun
  have hfixed : policy'.maximum_depth = maximum_depth :=
    (maximum_depth_of_observe_all hrun).trans hmaximum
  have hzero : policy'.depth = 0 ↔ maximum_depth = 0 := hfixed ▸ hsound.zero
  have hdepth : policy'.depth = 0 ∨ 2 ≤ policy'.depth ∧ policy'.depth ≤ 4 := by
    rcases Nat.eq_zero_or_pos policy'.depth with h | h
    · exact .inl h
    · exact .inr ⟨hsound.depth_ge h.ne', hsound.depth_le.trans hceiling⟩
  refine ⟨policy', hrun, ?_, hsound.depth_le, hzero, hsound.promotions_le, hsound.demotions_le,
    ?_, fun hne => ?_⟩
  · simp only [List.mem_cons, List.not_mem_nil, or_false]
    omega
  · rintro before after between rfl hbefore hprobing
    -- the rounds behind the probe can only lower the depth
    rw [observe_all_append, hbefore, Except.ok_bind] at hrun
    exact depth_le_of_observe_all hprobing hrun
  · refine Except.throw_if_of_not ?_
    have hne' : policy'.depth ≠ 0 := fun h => hne (hzero.mp h)
    omega

/-- Eight rounds of a probe, with both drafts of each accepted. -/
theorem depth_policy_of_rounds_probe :
    ∃ policy', observe_all { maximum_depth := 3, depth := 2, probing := true }
        (List.replicate 8 ⟨2, 2, true, false⟩) = .ok policy' ∧
      policy'.depth ∈ [0, 2, 3, 4] ∧ policy'.depth ≤ ceiling_of (false || false) 3 100 ∧
      (policy'.depth = 0 ↔ 3 = 0) ∧ policy'.promotions ≤ 1 ∧ policy'.demotions ≤ 2 ∧
      (∀ before after between, List.replicate 8 (⟨2, 2, true, false⟩ : DepthRound) = before ++ after →
        observe_all { maximum_depth := 3, depth := 2, probing := true } before = .ok between →
        between.probing = false → policy'.depth ≤ between.depth) ∧
      (3 ≠ 0 → throw_if (policy'.depth < 2 ∨ 4 < policy'.depth)
        "MTP draft depth must be between 2 and 4" = .ok ()) :=
  depth_policy_of_rounds (show make false 3 100 false = .ok _ from rfl) (by decide)

/-- Where depth 3 is asked for, depth 4 may be tried. -/
theorem not_depth_le_maximum :
    ¬∀ (adaptive_depth_four_enabled adaptive_depth_four : Bool) (maximum_depth prompt_tokens : Nat)
      (policy : MtpDepthPolicy),
      make adaptive_depth_four_enabled maximum_depth prompt_tokens adaptive_depth_four = .ok policy →
      policy.depth ≤ maximum_depth := by
  intro h
  exact absurd (h true false 3 32 _ rfl) (by decide)

end MtpDepthPolicy

end Qwen38
