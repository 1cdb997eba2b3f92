import DikeProtocol.Deployment
import DikeProtocol.Tokens
import DikeProtocol.Lib.Run

/-!
# Supply of the conditional tokens

Every token of an outcome is held by somebody or was burned, and a market's
backing counts both. Minting and merging move the two outcomes and the backing
together, transfers move nothing but owners, and burning moves a token from
its holder to the record of burned tokens.
-/

namespace DikeProtocol.Tokens

open Lib

/-- The tally of all balances of one outcome of a market. -/
def supplyTally (m : MarketId) (o : Outcome) : Tally (MarketId × Address × Outcome) ℤ ℤ :=
  Tally.over (fun k => k.1 = m ∧ k.2.2 = o)

/-- Tokens of an outcome of a market that somebody holds. -/
def supply (t : TokensState) (m : MarketId) (o : Outcome) : ℤ := t.balance.total (supplyTally m o)

/-- Tokens burned so far, by market and outcome. -/
abbrev Burned := Store (MarketId × Outcome) ℤ

/-- The record of burned tokens after an invocation that succeeded. -/
def TokensOp.note (burned : Burned) : TokensOp → Burned
  | burnForRedeem _ marketId outcome amount =>
    burned.set (marketId, outcome) (burned (marketId, outcome) + amount)
  | burnLosing _ marketId outcome amount =>
    burned.set (marketId, outcome) (burned (marketId, outcome) + amount)
  | _ => burned

/-- One step of a run of the tokens. -/
inductive TokensStep where
  /-- An invocation of the tokens. -/
  | call (ctx : Ctx) (op : TokensOp)
  /-- Everything but the tokens changes. -/
  | outside (w : World)

/-- The record of burned tokens after a step that succeeded. -/
def TokensStep.note (burned : Burned) : TokensStep → Burned
  | call _ op => op.note burned
  | outside _ => burned

/-- Runs of the tokens from their deployment, with any wiring, invoked by anyone. -/
def tokensSystem : System World TokensStep Fault where
  Init := fun w => ∃ admin roles, w.tokens = { freshTokens admin with roles := roles }
  step := fun w step =>
    match step with
    | .call ctx op => op.exec ctx w
    | .outside around => .ok { around with tokens := w.tokens }

/-- Runs of the tokens, with the record of what was burned. -/
def burningSystem : System (World × Burned) TokensStep Fault :=
  tokensSystem.observed .empty TokensStep.note

/-- The law of supply: both outcomes are worth the backing, held or burned. -/
structure Supplied (t : TokensState) (burned : Burned) : Prop where
  yes : ∀ m, supply t m .yes + burned (m, .yes) = t.backing m
  no : ∀ m, supply t m .no + burned (m, .no) = t.backing m
  nonneg : ∀ k, 0 ≤ t.balance k
  burned_nonneg : ∀ k, 0 ≤ burned k

/-- Fresh tokens obey the law. -/
theorem freshTokens_supplied (admin : Address) (roles : Store Role (Option Address)) :
    Supplied { freshTokens admin with roles := roles } .empty where
  yes := fun _ => rfl
  no := fun _ => rfl
  nonneg := fun _ => le_rfl
  burned_nonneg := fun _ => le_rfl

/-- A write at one balance moves the supply of its own outcome only. -/
theorem supply_set (t : TokensState) (m m' : MarketId) (a : Address) (o o' : Outcome) (x : ℤ) :
    supply { t with balance := t.balance.set (m, a, o) x } m' o' =
      supply t m' o' + if m = m' ∧ o = o' then x - t.balance (m, a, o) else 0 := by
  unfold supply supplyTally
  dsimp only
  rw [Store.total_set, Tally.over_weight, Tally.over_weight]
  dsimp only
  split <;> omega

/-- Crediting tokens raises the supply of their outcome. -/
theorem addBalance_supply {t t' : TokensState} {m : MarketId} {a : Address} {o : Outcome} {x : ℤ}
    (h : addBalance t m a o x = .ok t') (m' : MarketId) (o' : Outcome) :
    supply t' m' o' = supply t m' o' + if m = m' ∧ o = o' then x else 0 := by
  rw [addBalance_ok h, supply_set]
  split <;> omega

/-- Debiting tokens lowers the supply of their outcome. -/
theorem subBalance_supply {t t' : TokensState} {m : MarketId} {a : Address} {o : Outcome} {x : ℤ}
    (h : subBalance t m a o x = .ok t') (m' : MarketId) (o' : Outcome) :
    supply t' m' o' = supply t m' o' - if m = m' ∧ o = o' then x else 0 := by
  rw [(subBalance_ok h).2, supply_set]
  split <;> omega

/-- A complete set raises both supplies and the backing of its market. -/
theorem creditCompleteSet_supply {t t' : TokensState} {m : MarketId} {a : Address} {x : ℤ}
    (h : creditCompleteSet t m a x = .ok t') (m' : MarketId) {o : Outcome} (ho : o ≠ .invalid) :
    supply t' m' o = supply t m' o + (if m = m' then x else 0) ∧
      t'.backing m' = t.backing m' + (if m = m' then x else 0) := by
  unfold creditCompleteSet at h
  obtain ⟨t1, h1, h⟩ := bind_ok.mp h
  obtain ⟨t2, h2, h⟩ := bind_ok.mp h
  unfold addBacking at h
  obtain ⟨n, hn, h⟩ := bind_ok.mp h
  have hbacking : t2.backing = t.backing := by rw [addBalance_ok h2, addBalance_ok h1]
  have hsum := addBalance_supply h2 m' o
  rw [addBalance_supply h1 m' o] at hsum
  rw [← pure_ok.mp h, (checkedAdd_ok.mp hn).1]
  constructor
  · change supply t2 m' o = _
    rw [hsum]
    cases o with
    | yes => simp
    | no => simp
    | invalid => exact absurd rfl ho
  · dsimp only
    rw [Store.set_get, hbacking]
    by_cases hm : m' = m
    · subst hm
      simp only [if_true]
    · rw [if_neg hm, if_neg (fun hk => hm hk.symm), add_zero]

/-- Merging lowers both supplies and the backing of its market. -/
theorem mergePositions_supply {ctx : Ctx} {t t' : TokensState} {m : MarketId} {a : Address} {x : ℤ}
    (h : mergePositions ctx t a m x = .ok t') (m' : MarketId) {o : Outcome} (ho : o ≠ .invalid) :
    supply t' m' o = supply t m' o - (if m = m' then x else 0) ∧
      t'.backing m' = t.backing m' - (if m = m' then x else 0) := by
  unfold mergePositions at h
  obtain ⟨_, _, h⟩ := bind_ok.mp h
  obtain ⟨_, _, h⟩ := bind_ok.mp h
  obtain ⟨t1, h1, h⟩ := bind_ok.mp h
  obtain ⟨t2, h2, h⟩ := bind_ok.mp h
  unfold subBacking at h
  obtain ⟨_, _, h⟩ := bind_ok.mp h
  obtain ⟨n, hn, h⟩ := bind_ok.mp h
  have hbacking : t2.backing = t.backing := by rw [(subBalance_ok h2).2, (subBalance_ok h1).2]
  have hsum := subBalance_supply h2 m' o
  rw [subBalance_supply h1 m' o] at hsum
  rw [← pure_ok.mp h, (checkedSub_ok.mp hn).1]
  constructor
  · change supply t2 m' o = _
    rw [hsum]
    cases o with
    | yes => simp
    | no => simp
    | invalid => exact absurd rfl ho
  · dsimp only
    rw [Store.set_get, hbacking]
    by_cases hm : m' = m
    · subst hm
      simp only [if_true]
    · rw [if_neg hm, if_neg (fun hk => hm hk.symm), sub_zero]

/-- A move between owners, or to the same owner, keeps every supply. -/
theorem moveBalance_supply {t t' : TokensState} {a b : Address} {m : MarketId} {o : Outcome} {x : ℤ}
    (h : moveBalance t a b m o x = .ok t') (m' : MarketId) (o' : Outcome) :
    supply t' m' o' = supply t m' o' := by
  unfold moveBalance at h
  obtain ⟨t1, h1, h⟩ := bind_ok.mp h
  rw [addBalance_supply h, subBalance_supply h1, sub_add_cancel]

namespace Supplied

variable {t t' : TokensState} {burned : Burned} {m : MarketId} {a b : Address} {o : Outcome} {x : ℤ}

/-- Tokens that hold and back the same obey the same law. -/
theorem same (ht : Supplied t burned) (hbalance : t'.balance = t.balance)
    (hbacking : t'.backing = t.backing) : Supplied t' burned := by
  refine ⟨?_, ?_, ?_, ht.burned_nonneg⟩
  · intro m
    unfold supply
    rw [hbalance, hbacking]
    exact ht.yes m
  · intro m
    unfold supply
    rw [hbalance, hbacking]
    exact ht.no m
  · rw [hbalance]
    exact ht.nonneg

/-- Minted complete sets obey the law. -/
theorem credit (ht : Supplied t burned) (hx : 0 < x) (h : creditCompleteSet t m a x = .ok t') :
    Supplied t' burned := by
  refine ⟨?_, ?_, ?_, ht.burned_nonneg⟩
  · intro m'
    have hlaw := ht.yes m'
    obtain ⟨hsupply, hbacking⟩ := creditCompleteSet_supply h m' (o := .yes) (by decide)
    rw [hsupply, hbacking]
    omega
  · intro m'
    have hlaw := ht.no m'
    obtain ⟨hsupply, hbacking⟩ := creditCompleteSet_supply h m' (o := .no) (by decide)
    rw [hsupply, hbacking]
    omega
  · intro k
    have hk := ht.nonneg k
    rw [(creditCompleteSet_ok h).2.2 k]
    split <;> omega

/-- Merged complete sets obey the law. -/
theorem merge (ht : Supplied t burned) {ctx : Ctx} (h : mergePositions ctx t a m x = .ok t') :
    Supplied t' burned := by
  refine ⟨?_, ?_, ?_, ht.burned_nonneg⟩
  · intro m'
    have hlaw := ht.yes m'
    obtain ⟨hsupply, hbacking⟩ := mergePositions_supply h m' (o := .yes) (by decide)
    rw [hsupply, hbacking]
    omega
  · intro m'
    have hlaw := ht.no m'
    obtain ⟨hsupply, hbacking⟩ := mergePositions_supply h m' (o := .no) (by decide)
    rw [hsupply, hbacking]
    omega
  · intro k
    obtain ⟨_, hyes, hno, _, _, hbalance⟩ := mergePositions_ok h
    have hk := ht.nonneg k
    rw [hbalance]
    split
    · next heq =>
      rcases heq with rfl | rfl <;> omega
    · omega

/-- Moved tokens obey the law. -/
theorem move (ht : Supplied t burned) (hx : 0 < x) (h : moveBalance t a b m o x = .ok t') :
    Supplied t' burned := by
  obtain ⟨hheld, hbacking, _, hbalance⟩ := moveBalance_ok h
  refine ⟨?_, ?_, ?_, ht.burned_nonneg⟩
  · intro m'
    rw [moveBalance_supply h, hbacking]
    exact ht.yes m'
  · intro m'
    rw [moveBalance_supply h, hbacking]
    exact ht.no m'
  · intro k
    have hk := ht.nonneg k
    rw [hbalance]
    split
    · next heq =>
      rw [← heq] at hheld
      split <;> omega
    · split <;> omega

/-- Burned tokens leave their holder for the record. -/
theorem burn (ht : Supplied t burned) (hx : 0 < x) (h : subBalance t m a o x = .ok t') :
    Supplied t' (burned.set (m, o) (burned (m, o) + x)) := by
  have hbacking : t'.backing = t.backing := by rw [(subBalance_ok h).2]
  have hone : ∀ m' o', supply t' m' o' + (burned.set (m, o) (burned (m, o) + x)) (m', o') =
      supply t m' o' + burned (m', o') := by
    intro m' o'
    rw [subBalance_supply h, Store.set_get]
    by_cases hk : m = m' ∧ o = o'
    · obtain ⟨rfl, rfl⟩ := hk
      simp only [and_self, if_true]
      omega
    · rw [if_neg hk, if_neg (fun heq => hk ⟨(Prod.mk.inj heq).1.symm, (Prod.mk.inj heq).2.symm⟩)]
      omega
  refine ⟨?_, ?_, ?_, ?_⟩
  · intro m'
    rw [hone, hbacking]
    exact ht.yes m'
  · intro m'
    rw [hone, hbacking]
    exact ht.no m'
  · intro k
    obtain ⟨hheld, hbalance⟩ := subBalance_ok h
    have hk := ht.nonneg k
    rw [hbalance]
    dsimp only
    rw [Store.set_get]
    split
    · omega
    · exact hk
  · intro k
    have hk := ht.burned_nonneg k
    have hmo := ht.burned_nonneg (m, o)
    rw [Store.set_get]
    split <;> omega

/-- No supply is negative. -/
theorem supply_nonneg (ht : Supplied t burned) (m : MarketId) (o : Outcome) : 0 ≤ supply t m o := by
  apply Store.total_nonneg
  intro k
  have hk := ht.nonneg k
  unfold supplyTally
  rw [Tally.over_weight]
  split <;> omega

/-- No holder has more than the backing of the market. -/
theorem held_le_backing (ht : Supplied t burned) (m : MarketId) (a : Address) :
    t.balance (m, a, .yes) ≤ t.backing m := by
  have hlaw := ht.yes m
  have hburned := ht.burned_nonneg (m, .yes)
  have hall : ∀ k, 0 ≤ (supplyTally m .yes).weight k (t.balance k) := by
    intro k
    have hk := ht.nonneg k
    unfold supplyTally
    rw [Tally.over_weight]
    split <;> omega
  have hone := Store.weight_le_total t.balance (supplyTally m .yes) hall (m, a, .yes)
  unfold supplyTally at hone
  rw [Tally.over_weight, if_pos ⟨rfl, rfl⟩] at hone
  unfold supply supplyTally at hlaw
  omega

end Supplied

/-- Every invocation keeps the law of supply, with its own entry in the record. -/
theorem TokensOp.exec_supplied {ctx : Ctx} {w w' : World} {burned : Burned}
    (hw : Supplied w.tokens burned) {op : TokensOp} (h : op.exec ctx w = .ok w') :
    Supplied w'.tokens (op.note burned) := by
  cases op with
  | setAdmin admin =>
    obtain ⟨t, ht, rfl⟩ := store_ok.mp h
    obtain ⟨_, _, ht⟩ := bind_ok.mp ht
    rw [← pure_ok.mp ht]
    exact hw.same rfl rfl
  | upgrade wasmHash =>
    obtain ⟨_, _, h⟩ := bind_ok.mp h
    obtain rfl := pure_ok.mp h
    exact hw
  | setRole role module =>
    obtain ⟨t, ht, rfl⟩ := store_ok.mp h
    obtain ⟨_, _, ht⟩ := bind_ok.mp ht
    rw [← pure_ok.mp ht]
    exact hw.same rfl rfl
  | pause paused =>
    obtain ⟨t, ht, rfl⟩ := store_ok.mp h
    obtain ⟨_, _, ht⟩ := bind_ok.mp ht
    rw [← pure_ok.mp ht]
    exact hw.same rfl rfl
  | mintCompleteSet recipient m x =>
    obtain ⟨t, ht, rfl⟩ := store_ok.mp h
    obtain ⟨hx, hcredit⟩ := mintCompleteSet_ok ht
    exact hw.credit hx hcredit
  | splitPosition user m x =>
    obtain ⟨t, ht, rfl⟩ := store_ok.mp h
    obtain ⟨_, _, ht⟩ := bind_ok.mp ht
    obtain ⟨_, hx, ht⟩ := bind_ok.mp ht
    obtain ⟨_, _, ht⟩ := bind_ok.mp ht
    have hpos := refuse_ok.mp hx
    exact hw.credit (by omega) ht
  | mergePositions user m x =>
    obtain ⟨t, ht, rfl⟩ := store_ok.mp h
    exact hw.merge ht
  | transferPosition sender recipient m o x =>
    obtain ⟨_, hx, _, _, t, ht, rfl⟩ := transferPosition_ok h
    exact hw.move hx ht
  | transferPositionForced sender recipient m o x =>
    obtain ⟨t, ht, rfl⟩ := store_ok.mp h
    obtain ⟨hx, hmove⟩ := transferPositionForced_ok ht
    exact hw.move hx hmove
  | burnForRedeem owner m o x =>
    obtain ⟨t, ht, rfl⟩ := store_ok.mp h
    obtain ⟨hx, hburn⟩ := burnForRedeem_ok ht
    exact hw.burn hx hburn
  | burnLosing owner m o x =>
    obtain ⟨t, ht, rfl⟩ := store_ok.mp h
    obtain ⟨_, hx, hburn⟩ := burnLosing_ok ht
    exact hw.burn hx hburn

/-- Every run keeps the law of supply. -/
theorem supplied_of_run {s : World × Burned} (h : burningSystem.Reachable s) :
    Supplied s.1.tokens s.2 := by
  refine h.invariant (I := fun s => Supplied s.1.tokens s.2) ?_ ?_
  · rintro s ⟨⟨admin, roles, ht⟩, hburned⟩
    rw [ht, hburned]
    exact freshTokens_supplied admin roles
  · intro s step s' hs _ hstep
    obtain ⟨hexec, hnote⟩ := System.observed_step.mp hstep
    rw [hnote]
    cases step with
    | call ctx op => exact op.exec_supplied hs hexec
    | outside around =>
      rw [← ok_ok.mp hexec]
      exact hs

/-- Debiting tokens never complains about the backing. -/
theorem subBalance_error {t : TokensState} {m : MarketId} {a : Address} {o : Outcome} {x : ℤ} :
    subBalance t m a o x ≠ .error (.error .insufficientCollateral) := by
  intro h
  rcases bind_error.mp h with h | ⟨_, _, h⟩
  · cases (refuse_error.mp h).2
  · rcases bind_error.mp h with h | ⟨_, _, h⟩
    · cases checked_error h
    · cases h

/-- A role check never complains about the backing. -/
theorem requireRole_error {ctx : Ctx} {roles : Store Role (Option Address)} {role : Role} :
    requireRole ctx roles role ≠ .error (.error .insufficientCollateral) := by
  intro h
  rcases bind_error.mp h with h | ⟨a, _, h⟩
  · cases (orFault_error.mp h).2
  · cases (refuse_error.mp h).2

/-- While the law holds, merging never fails for want of backing: whoever holds
both outcomes is backed. -/
theorem Supplied.mergePositions_error {t : TokensState} {burned : Burned} (ht : Supplied t burned)
    {ctx : Ctx} {a : Address} {m : MarketId} {x : ℤ} :
    mergePositions ctx t a m x ≠ .error (.error .insufficientCollateral) := by
  intro h
  rcases bind_error.mp h with h | ⟨_, _, h⟩
  · exact requireRole_error h
  · rcases bind_error.mp h with h | ⟨_, _, h⟩
    · cases (refuse_error.mp h).2
    · rcases bind_error.mp h with h | ⟨t1, h1, h⟩
      · exact subBalance_error h
      · rcases bind_error.mp h with h | ⟨t2, h2, h⟩
        · exact subBalance_error h
        · obtain ⟨hheld, rfl⟩ := subBalance_ok h1
          obtain ⟨_, rfl⟩ := subBalance_ok h2
          have hbacked := ht.held_le_backing m a
          rcases bind_error.mp h with h | ⟨_, _, h⟩
          · have hshort := (refuse_error.mp h).1
            dsimp only at hshort
            omega
          · rcases bind_error.mp h with h | ⟨_, _, h⟩
            · cases checked_error h
            · cases h

/-- In every reachable state, both outcomes of every market are worth its
backing, held or burned; no balance is negative; and no merge is refused for
want of backing. -/
theorem supply_law {s : World × Burned} (h : burningSystem.Reachable s) :
    (∀ m, supply s.1.tokens m .yes + s.2 (m, .yes) = s.1.tokens.backing m ∧
      supply s.1.tokens m .no + s.2 (m, .no) = s.1.tokens.backing m) ∧
    (∀ k, 0 ≤ s.1.tokens.balance k) ∧
    ∀ ctx a m x,
      mergePositions ctx s.1.tokens a m x ≠ .error (.error .insufficientCollateral) := by
  have hs := supplied_of_run h
  exact ⟨fun m => ⟨hs.yes m, hs.no m⟩, hs.nonneg, fun _ _ _ _ => hs.mergePositions_error⟩

/-- The market maker mints 100 sets for alice, who burns 40 of one outcome. -/
def mintThenBurn : List TokensStep :=
  [.call ⟨0, [], [.contract .amm]⟩ (.mintCompleteSet alice 1 100),
    .call (bySigner alice) (.burnLosing alice 1 .yes 40)]

/-- The sample deployment is where runs of the tokens start. -/
theorem sample_init : burningSystem.Init (deploy sampleLaunch, .empty) := ⟨⟨_, _, rfl⟩, rfl⟩

/-- After alice burned 40 of her 100, the 60 she holds and the 40 make up the backing. -/
theorem supply_law_after_burn : ∃ s, burningSystem.runs (deploy sampleLaunch, .empty) mintThenBurn =
    .ok s ∧ s.2 (1, .yes) = 40 ∧
    supply s.1.tokens 1 .yes + s.2 (1, .yes) = s.1.tokens.backing 1 := by
  obtain ⟨s, hs, hburned⟩ := System.runs_of_decide (S := burningSystem)
    (deploy sampleLaunch, .empty) mintThenBurn (fun s => s.2 (1, .yes) = 40) (by decide +kernel)
  have hlaw := supply_law (System.Reachable.runs (.init sample_init) mintThenBurn hs)
  exact ⟨s, hs, of_decide_eq_true hburned, (hlaw.1 1).1⟩

end DikeProtocol.Tokens
