import DikeProtocol.Deployment

/-!
# Fee manager

Governance keeps here the fee parameters, the size of resolution bonds and how
a lost bond is divided between the winner, the council and the treasury.
-/

namespace DikeProtocol.FeeManager

open Lib

/-- The administrator hands over to another address. -/
def setAdmin (ctx : Ctx) (f : FeeManagerState) (admin : Address) : Res FeeManagerState := do
  requireAuth ctx f.admin
  return { f with admin := admin }

/-- The administrator replaces the governance pointer. -/
def setGovernance (ctx : Ctx) (f : FeeManagerState) (governance : Address) :
    Res FeeManagerState := do
  requireAuth ctx f.admin
  return { f with governance := governance }

/-- Governance stores valid fee parameters. -/
def setConfig (ctx : Ctx) (f : FeeManagerState) (config : FeeConfig) : Res FeeManagerState := do
  requireAuth ctx f.governance
  validateFeeConfig config
  return { f with config := config }

/-- Governance sets the minimum bond and the bond rate. -/
def setBondConfig (ctx : Ctx) (f : FeeManagerState) (minimumBond : ℤ) (bondBps : ℕ) :
    Res FeeManagerState := do
  requireAuth ctx f.governance
  refuse (minimumBond ≤ 0 ∨ bondBps > 10000) (.error .invalidInput)
  return { f with minBond := minimumBond, bondBps := bondBps }

/-- Governance divides lost bonds; the three shares must add up to the whole. -/
def setBondSplit (ctx : Ctx) (f : FeeManagerState) (winnerBps councilBps treasuryBps : ℕ) :
    Res FeeManagerState := do
  requireAuth ctx f.governance
  refuse (winnerBps + councilBps + treasuryBps ≠ 10000) (.error .invalidInput)
  return { f with
    winnerBondShareBps := winnerBps
    councilBondShareBps := councilBps
    treasuryBondShareBps := treasuryBps }

/-- Bond a market of this liquidity asks for. -/
def requiredBond (f : FeeManagerState) (marketLiquidity : ℤ) : Res ℤ :=
  DikeProtocol.requiredBond f.minBond marketLiquidity f.bondBps

/-- The trading fee of an amount and its shares: total, to the pool, to the
treasury, and the rest to the council. -/
def tradingFeeSplit (f : FeeManagerState) (amount : ℤ) : Res (ℤ × ℤ × ℤ × ℤ) := do
  refuse (amount ≤ 0) (.error .invalidAmount)
  let totalFee ← bps amount f.config.tradingFeeBps
  let lpFee ← bps totalFee f.config.lpFeeShareBps
  let treasuryFee ← bps totalFee f.config.treasuryFeeShareBps
  let rest ← checkedSub totalFee lpFee
  let codFee ← checkedSub rest treasuryFee
  return (totalFee, lpFee, treasuryFee, codFee)

/-- The trading fee of an amount, what is left of the amount, the share of the
pool, and the shares of treasury and council in one. -/
def tradingFee (f : FeeManagerState) (amount : ℤ) : Res (ℤ × ℤ × ℤ × ℤ) := do
  refuse (amount ≤ 0) (.error .invalidAmount)
  let totalFee ← bps amount f.config.tradingFeeBps
  let net ← checkedSub amount totalFee
  let lpFee ← bps totalFee f.config.lpFeeShareBps
  let treasuryFee ← bps totalFee f.config.treasuryFeeShareBps
  let rest ← checkedSub totalFee lpFee
  let codFee ← checkedSub rest treasuryFee
  refuse (¬InRange (treasuryFee + codFee)) .trap
  return (totalFee, net, lpFee, treasuryFee + codFee)

/-- Division of a lost bond: winner and council get their share rounded down,
the treasury what is left. -/
def losingBondSplit (f : FeeManagerState) (losingBond : ℤ) : Res (ℤ × ℤ × ℤ) := do
  refuse (losingBond ≤ 0) (.error .invalidAmount)
  let winner ← bps losingBond f.winnerBondShareBps
  let council ← bps losingBond f.councilBondShareBps
  let rest ← checkedSub losingBond winner
  let treasury ← checkedSub rest council
  return (winner, council, treasury)

/-- The shares that governance may set add up to the whole. -/
def SplitWhole (f : FeeManagerState) : Prop :=
  f.winnerBondShareBps + f.councilBondShareBps + f.treasuryBondShareBps = 10000

instance (f : FeeManagerState) : Decidable (SplitWhole f) := inferInstanceAs (Decidable (_ = _))

/-- A whole split divides a bond without loss into three nonnegative parts. -/
theorem losingBondSplit_ok {f : FeeManagerState} {bond winner council treasury : ℤ}
    (hf : SplitWhole f) (h : losingBondSplit f bond = .ok (winner, council, treasury)) :
    winner = bpsOf bond f.winnerBondShareBps ∧ council = bpsOf bond f.councilBondShareBps ∧
      winner + council + treasury = bond ∧ 0 < bond ∧
      0 ≤ winner ∧ 0 ≤ council ∧ 0 ≤ treasury := by
  unfold losingBondSplit at h
  obtain ⟨_, hpos, h⟩ := bind_ok.mp h
  obtain ⟨winner', hwinner, h⟩ := bind_ok.mp h
  obtain ⟨council', hcouncil, h⟩ := bind_ok.mp h
  obtain ⟨rest, hrest, h⟩ := bind_ok.mp h
  obtain ⟨treasury', htreasury, h⟩ := bind_ok.mp h
  obtain ⟨rfl, hpair⟩ := Prod.mk.inj (pure_ok.mp h)
  obtain ⟨rfl, rfl⟩ := Prod.mk.inj hpair
  have hbond := refuse_ok.mp hpos
  have hwinner' := (bps_ok.mp hwinner).1
  have hcouncil' := (bps_ok.mp hcouncil).1
  have hrest' := (checkedSub_ok.mp hrest).1
  have htreasury' := (checkedSub_ok.mp htreasury).1
  have hparts := bpsOf_add_le (by omega : 0 ≤ bond)
    (by unfold SplitWhole at hf; omega : f.winnerBondShareBps + f.councilBondShareBps ≤ 10000)
  have hw := bpsOf_nonneg (by omega : 0 ≤ bond) f.winnerBondShareBps
  have hc := bpsOf_nonneg (by omega : 0 ≤ bond) f.councilBondShareBps
  exact ⟨hwinner', hcouncil', by omega, by omega, by omega, by omega, by omega⟩

/-- A whole split can be computed when both products fit. -/
theorem losingBondSplit_of_fits {f : FeeManagerState} {bond : ℤ} (hf : SplitWhole f)
    (hbond : 0 < bond) (hmax : bond ≤ i128Max)
    (hw : bond * f.winnerBondShareBps ≤ i128Max) (hc : bond * f.councilBondShareBps ≤ i128Max) :
    ∃ winner council treasury, losingBondSplit f bond = .ok (winner, council, treasury) := by
  have hparts := bpsOf_add_le hbond.le
    (by unfold SplitWhole at hf; omega : f.winnerBondShareBps + f.councilBondShareBps ≤ 10000)
  have hw0 := bpsOf_nonneg hbond.le f.winnerBondShareBps
  have hc0 := bpsOf_nonneg hbond.le f.councilBondShareBps
  have hrange : ∀ x : ℤ, 0 ≤ x → x ≤ i128Max → InRange x := by
    intro x h0 hle
    exact ⟨le_trans (by decide) h0, hle⟩
  have hwr := hrange (bond * f.winnerBondShareBps) (by positivity) hw
  have hcr := hrange (bond * f.councilBondShareBps) (by positivity) hc
  refine ⟨bpsOf bond f.winnerBondShareBps, bpsOf bond f.councilBondShareBps,
    bond - bpsOf bond f.winnerBondShareBps - bpsOf bond f.councilBondShareBps, ?_⟩
  unfold losingBondSplit
  rw [bind_of_ok (refuse_ok (u := ()).mpr (by omega)), bind_of_ok (bps_ok.mpr ⟨rfl, hwr⟩),
    bind_of_ok (bps_ok.mpr ⟨rfl, hcr⟩),
    bind_of_ok (checkedSub_ok.mpr ⟨rfl, hrange _ (by omega) (by omega)⟩),
    bind_of_ok (checkedSub_ok.mpr ⟨rfl, hrange _ (by omega) (by omega)⟩)]
  rfl

/-- An invocation of the fee manager. -/
inductive FeeManagerOp where
  | setAdmin (admin : Address)
  | upgrade (wasmHash : Hash)
  | setGovernance (governance : Address)
  | setConfig (config : FeeConfig)
  | setBondConfig (minimumBond : ℤ) (bondBps : ℕ)
  | setBondSplit (winnerBps councilBps treasuryBps : ℕ)

/-- Execute an invocation. Replacing the code is only its authorization here. -/
def FeeManagerOp.exec (ctx : Ctx) (f : FeeManagerState) : FeeManagerOp → Res FeeManagerState
  | setAdmin admin => FeeManager.setAdmin ctx f admin
  | upgrade _ => do
    requireAuth ctx f.admin
    return f
  | setGovernance governance => FeeManager.setGovernance ctx f governance
  | setConfig config => FeeManager.setConfig ctx f config
  | setBondConfig minimumBond bondBps => FeeManager.setBondConfig ctx f minimumBond bondBps
  | setBondSplit winnerBps councilBps treasuryBps =>
    FeeManager.setBondSplit ctx f winnerBps councilBps treasuryBps

end DikeProtocol.FeeManager
