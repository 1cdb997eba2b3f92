import DikeProtocol.Vault.Solvency
import Mathlib.Algebra.BigOperators.Ring.Finset

/-!
# Conservation of loans

Credit a market issued is repaid, defaulted or still owed. Every entry point
keeps that sum except a liquidation that writes off another amount than the
parent debt it takes away.
-/

namespace DikeProtocol.Vault

open Lib

/-- The tally of what is still owed to one parent market. -/
def debtTally (p : MarketId) : Tally (MarketId × Address × Outcome) ℤ ℤ :=
  Tally.over (fun k => k.1 = p)

/-- Everything users still owe to one parent market. -/
def owedTo (v : VaultState) (p : MarketId) : ℤ := v.parentDebt.total (debtTally p)

/-- All credit a market issued is repaid, defaulted or still owed. -/
def LoansConserved (v : VaultState) (p : MarketId) : Prop :=
  (v.accounting p).childCollateralIssued =
    (v.accounting p).childCollateralRepaid + (v.accounting p).childCollateralDefaulted + owedTo v p

/-- One at a single market, nothing elsewhere. -/
def atMarket (p m : MarketId) : ℤ := if m = p then 1 else 0

/-- The gauge that reads what was issued, less what was repaid, defaulted or is owed. -/
def loanGauge (p : MarketId) : Gauge where
  backing := fun _ => 0
  issued := atMarket p
  repaid := fun m => -atMarket p m
  defaulted := fun m => -atMarket p m
  shortfall := fun _ => 0
  redeemed := fun _ => 0
  protocolFees := fun _ => 0
  lpFees := fun _ => 0
  codFees := fun _ => 0
  proposalBonds := fun _ => 0
  disputeBonds := fun _ => 0
  debt := fun m => -atMarket p m
  reserve := 0

/-- A gauge that looks at one market reads that market's books only. -/
theorem Gauge.read_at (g : Gauge) (p : MarketId) (v : VaultState)
    (hw : ∀ m, m ≠ p → g.weigh m (v.accounting m) = 0)
    (hd : ∀ m, g.debt m = if m = p then g.debt p else 0) :
    g.read v = g.weigh p (v.accounting p) + g.debt p * owedTo v p +
      g.reserve * v.insuranceReserve := by
  have hbooks : v.accounting.total g.books = g.weigh p (v.accounting p) := by
    rw [v.accounting.total_eq_sum g.books (Finset.subset_insert p v.accounting.written)]
    rw [Finset.sum_eq_single p]
    · rfl
    · intro m _ hm
      exact hw m hm
    · intro hk
      exact absurd (Finset.mem_insert_self p _) hk
  have hdebts : v.parentDebt.total g.debts = g.debt p * owedTo v p := by
    unfold owedTo Store.total
    rw [Finset.mul_sum]
    apply Finset.sum_congr rfl
    intro k _
    change g.debt k.1 * v.parentDebt k = g.debt p * (if k.1 = p then v.parentDebt k else 0)
    rw [hd k.1]
    split <;> ring
  rw [Gauge.read, hbooks, hdebts]

/-- The gauge reads the gap in one market's loans. -/
theorem loanGauge_read (p : MarketId) (v : VaultState) :
    (loanGauge p).read v = (v.accounting p).childCollateralIssued -
      (v.accounting p).childCollateralRepaid - (v.accounting p).childCollateralDefaulted -
      owedTo v p := by
  rw [(loanGauge p).read_at p v]
  · simp only [Gauge.weigh, loanGauge, atMarket, if_pos]
    ring
  · intro m hm
    simp only [Gauge.weigh, loanGauge, atMarket, if_neg hm]
    ring
  · intro m
    simp only [loanGauge, atMarket]
    split <;> rfl

/-- Loans are conserved when the gauge reads nothing. -/
theorem loansConserved_iff (p : MarketId) (v : VaultState) :
    LoansConserved v p ↔ (loanGauge p).read v = 0 := by
  rw [loanGauge_read]
  unfold LoansConserved
  constructor <;> intro h <;> omega

/-- A repayment closes as much of the loan as it counts repaid. -/
theorem loanGauge_even (p : MarketId) : (loanGauge p).Even 0 := by
  intro m
  simp only [loanGauge]
  ring

/-- A default that takes away what it was passed leaves no gap. -/
theorem loanGauge_loss (p q : MarketId) {lost draw owed : ℤ} (h : lost = owed) :
    (loanGauge p).loss q lost draw owed = 0 := by
  rw [h]
  simp only [Gauge.loss, loanGauge]
  ring

/-- Liquidations that write off exactly the parent debt they take away. -/
def WriteOffExact (w : World) : VaultOp → Prop
  | .liquidateRelease _ user _ p o _ _ =>
    w.vault.childUsedByOutcome (p, user, o) = w.vault.parentDebt (p, user, o)
  | .liquidateChildRelease _ user _ c _ _ proceeds => ChildDefaultExact w.vault c user proceeds
  | _ => True

/-- The same for a step of a run. -/
def VaultStep.WriteOffExact (w : World) : VaultStep → Prop
  | .call _ op => Vault.WriteOffExact w op
  | .outside _ => True

/-- Every invocation whose write-offs are exact keeps a vault sane and every loan conserved. -/
theorem VaultOp.exec_loans (p : MarketId) {ctx : Ctx} (hctx : Outside .vault ctx) {w w' : World}
    (hw : Sane w.vault) {op : VaultOp} (hop : WriteOffExact w op) (h : op.exec ctx w = .ok w') :
    Sane w'.vault ∧ (loanGauge p).read w'.vault = (loanGauge p).read w.vault := by
  have hgauge := loanGauge_even p
  cases op with
  | setAdmin admin =>
    obtain rfl := admin_ok h
    exact ⟨{ hw with }, Gauge.read_congr _ rfl rfl rfl⟩
  | upgrade wasmHash =>
    obtain ⟨_, _, h⟩ := bind_ok.mp h
    obtain rfl := pure_ok.mp h
    exact ⟨hw, rfl⟩
  | setRole role module =>
    obtain rfl := admin_ok h
    exact ⟨{ hw with }, Gauge.read_congr _ rfl rfl rfl⟩
  | setTreasury treasury =>
    obtain rfl := admin_ok h
    exact ⟨{ hw with }, Gauge.read_congr _ rfl rfl rfl⟩
  | pause paused =>
    obtain rfl := admin_ok h
    exact ⟨{ hw with }, Gauge.read_congr _ rfl rfl rfl⟩
  | depositForMarket t user m x =>
    obtain ⟨v, b, rfl, hv, _, _, _, hread, _⟩ :=
      depositForMarket_flow (g := loanGauge p) hctx hw h
    refine ⟨hv, hread.trans ?_⟩
    simp only [loanGauge, zero_mul, add_zero]
  | recordCashStake user m o x y =>
    obtain ⟨rootStake, rfl⟩ := recordCashStake_flow h
    exact ⟨{ hw with }, Gauge.read_congr _ rfl rfl rfl⟩
  | fundChildPrediction user m c x => cases h
  | openChildCreditForTrade user m c mo co x =>
    obtain ⟨v, rfl, hv, _, _, hread⟩ := openChildCreditForTrade_flow (g := loanGauge p) hw h
    refine ⟨hv, hread.trans ?_⟩
    simp only [loanGauge]
    ring
  | repayChildCollateral t user m x =>
    obtain ⟨y, h⟩ := world_ok.mp h
    obtain ⟨v, b, credited, rfl, hv, _, _, _, _, hread, _⟩ :=
      repayChildCollateral_flow hctx (hgauge.at _ _ _) hw h
    refine ⟨hv, hread.trans ?_⟩
    ring
  | releaseTradePayout t user m o sold x =>
    obtain ⟨v, b, rfl, hv, _, _, _, _, hread, _⟩ :=
      releaseTradePayout_flow (g := loanGauge p) hw h
    refine ⟨hv, hread.trans ?_⟩
    simp only [loanGauge, zero_mul, sub_zero]
  | liquidateRelease t user keeper m o sold x =>
    obtain ⟨y, h⟩ := world_ok.mp h
    obtain ⟨v, b, credited, lost, draw, owed, rfl, hv, _, _, _, _, hexact, _, hread, _⟩ :=
      liquidateRelease_flow (fun _ _ => hgauge.at _ _ _) hw h
    refine ⟨hv, hread.trans ?_⟩
    rw [loanGauge_loss p m (hexact hop)]
    simp only [loanGauge, zero_mul, sub_zero, add_zero]
  | liquidateChildRelease t user keeper c o sold x =>
    obtain ⟨y, h⟩ := world_ok.mp h
    obtain ⟨v, b, credited, lost, draw, owed, rfl, hv, _, _, _, _, hexact, _, hread, _⟩ :=
      liquidateChildRelease_flow (hgauge.at _ _ _) hw h
    refine ⟨hv, hread.trans ?_⟩
    rw [loanGauge_loss p _ (hexact hop)]
    simp only [loanGauge, zero_mul, sub_zero, add_zero]
  | redeem t user m final o x =>
    obtain ⟨_, h⟩ := world_ok.mp h
    cases h
  | redeemResolved t user m o amount =>
    obtain ⟨y, h⟩ := world_ok.mp h
    obtain ⟨market, v, b, tokens, paid, credited, withheld, lost, draw, rfl, hv, _, _, _, _, _, _,
      _, hread, _⟩ := redeemResolved_flow (hgauge.at _ _ _) (hgauge _) hw h
    refine ⟨hv, hread.trans ?_⟩
    rw [loanGauge_loss p m rfl]
    simp only [loanGauge, zero_mul, sub_zero, add_zero]
  | redeemCancelled t user m o amount =>
    obtain ⟨y, h⟩ := world_ok.mp h
    obtain ⟨market, v, b, tokens, withheld, lost, draw, rfl, hv, _, _, _, _, _, hread, _⟩ :=
      redeemCancelled_flow (hgauge _) hw h
    refine ⟨hv, hread.trans ?_⟩
    rw [loanGauge_loss p m rfl]
    simp only [loanGauge, zero_mul, add_zero]
  | assertPositionTransferAllowed sender m o x =>
    obtain ⟨_, _, h⟩ := bind_ok.mp h
    obtain rfl := pure_ok.mp h
    exact ⟨hw, rfl⟩
  | lockBond t user r m x d =>
    obtain ⟨v, b, rfl, hv, _, _, _, _, hread, _⟩ := lockBond_flow (g := loanGauge p) hctx hw h
    refine ⟨hv, hread.trans ?_⟩
    simp only [Gauge.bonds, loanGauge, ite_self, zero_mul, add_zero]
  | releaseBond t user r x d =>
    obtain ⟨v, b, m, rfl, hv, _, _, _, _, hread, _⟩ := payBond_flow (g := loanGauge p) hw h
    refine ⟨hv, hread.trans ?_⟩
    simp only [Gauge.bonds, loanGauge, ite_self, zero_mul, sub_zero]
  | slashBond t user r x d recipient =>
    obtain ⟨v, b, m, rfl, hv, _, _, _, _, hread, _⟩ := payBond_flow (g := loanGauge p) hw h
    refine ⟨hv, hread.trans ?_⟩
    simp only [Gauge.bonds, loanGauge, ite_self, zero_mul, sub_zero]
  | collectFee m lp protocol cod =>
    obtain ⟨v, rfl, hv, _, _, hread⟩ := collectFee_flow (g := loanGauge p) hw h
    refine ⟨hv, hread.trans ?_⟩
    simp only [loanGauge, zero_mul, sub_zero, add_zero]
  | claimLpFees t m lp x =>
    obtain ⟨v, b, rfl, hv, _, _, _, hread, _⟩ := claimLpFees_flow (g := loanGauge p) hw h
    refine ⟨hv, hread.trans ?_⟩
    simp only [loanGauge, zero_mul, sub_zero]
  | sweepProtocolFees t m =>
    obtain ⟨y, h⟩ := world_ok.mp h
    obtain ⟨v, b, cut, rfl, hv, _, _, _, _, hread, _⟩ :=
      sweepProtocolFees_flow (g := loanGauge p) hw h
    refine ⟨hv, hread.trans ?_⟩
    simp only [loanGauge, zero_mul, sub_zero, add_zero]

/-- In a run whose liquidations write off what they take away, every loan is conserved. -/
theorem loansConserved_of_writeOffExact (kept : List Asset) {w : World}
    (h : (vaultSystem kept).Guarded (fun w step => step.WriteOffExact w) w) (p : MarketId) :
    LoansConserved w.vault p := by
  rw [loansConserved_iff]
  have hinv : Sane w.vault ∧ (loanGauge p).read w.vault = 0 := by
    refine h.invariant (I := fun w => Sane w.vault ∧ (loanGauge p).read w.vault = 0) ?_ ?_
    · rintro w ⟨⟨admin, treasury, roles, hv⟩, _⟩
      rw [hv]
      exact ⟨freshVault_sane admin treasury roles, rfl⟩
    · rintro w step w' ⟨hsane, hzero⟩ hok hstep
      cases step with
      | call ctx op =>
        obtain ⟨hout, hexec⟩ := vaultSystem_call hstep
        obtain ⟨hsane', hread⟩ := op.exec_loans p hout hsane hok hexec
        exact ⟨hsane', hread.trans hzero⟩
      | outside s =>
        obtain ⟨_, rfl⟩ := vaultSystem_outside hstep
        exact ⟨hsane, hzero⟩
  exact hinv.2

/-- Alice's loan alone writes nothing off, so her loan is conserved after it. -/
theorem loansConserved_after_loan :
    ∃ w, (vaultSystem []).runs (deploy sampleLaunch) loanSteps = .ok w ∧
      (w.vault.accounting 1).childCollateralIssued = 60 ∧ LoansConserved w.vault 1 := by
  have hloan : ∀ step ∈ loanSteps, ∀ w, step.WriteOffExact w := by
    intro step hs w
    simp only [loanSteps, List.mem_cons, List.not_mem_nil, or_false] at hs
    rcases hs with rfl | rfl | rfl | rfl <;> trivial
  obtain ⟨w, hw, hissued⟩ := System.runs_of_decide (S := vaultSystem [])
    (deploy sampleLaunch) loanSteps
    (fun w => (w.vault.accounting 1).childCollateralIssued = 60) (by decide +kernel)
  refine ⟨w, hw, of_decide_eq_true hissued, loansConserved_of_writeOffExact [] ?_ 1⟩
  have hinit : (vaultSystem []).Init (deploy sampleLaunch) := ⟨⟨_, _, _, rfl⟩, rfl⟩
  exact (System.Guarded.runs (.init hinit) loanSteps hloan hw).mono (fun w step h => h w)

/-- Alice borrows 30 into market 2 and 30 into market 3, and her position in
market 2 is liquidated for 10. -/
def liquidateOneOfTwo : List VaultStep :=
  [.outside (sampleSurroundings [sampleMarket 1 .live none, sampleMarket 2 .live none,
      sampleMarket 3 .live none] sampleLaunch.bank),
    .call aliceTrades (.depositForMarket sampleToken alice 1 100),
    .call aliceTrades (.recordCashStake alice 1 .yes 100 100),
    .call aliceTrades (.openChildCreditForTrade alice 1 .yes 2 .yes 30),
    .call aliceTrades (.openChildCreditForTrade alice 1 .yes 3 .yes 30),
    .call ⟨0, [bob], [.contract .amm]⟩ (.liquidateChildRelease sampleToken alice bob 2 .yes 40 10)]

/-- Liquidating one of two children takes the whole parent debt of 50 away and
writes off 20: of the 60 issued, 30 are neither repaid, defaulted nor owed. -/
theorem not_always_loansConserved : ¬∀ (kept : List Asset) (w : World),
    (vaultSystem kept).Reachable w → ∀ p, LoansConserved w.vault p := by
  intro hall
  have hinit : (vaultSystem []).Init (deploy sampleLaunch) := ⟨⟨_, _, _, rfl⟩, rfl⟩
  obtain ⟨w, hw, hbooks⟩ := System.runs_of_decide (S := vaultSystem [])
    (deploy sampleLaunch) liquidateOneOfTwo
    (fun w => (w.vault.accounting 1).childCollateralIssued = 60 ∧
      (w.vault.accounting 1).childCollateralRepaid = 10 ∧
      (w.vault.accounting 1).childCollateralDefaulted = 20 ∧ owedTo w.vault 1 = 0)
    (by decide +kernel)
  have hconserved := hall [] w (System.Reachable.runs (.init hinit) liquidateOneOfTwo hw) 1
  have hnumbers := of_decide_eq_true hbooks
  unfold LoansConserved at hconserved
  omega

end DikeProtocol.Vault
