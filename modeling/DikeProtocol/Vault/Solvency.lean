import DikeProtocol.Vault.System

/-!
# Solvency of the vault

The claims on the vault are what its books owe over all markets, and the
insurance reserve. The vault is solvent while it holds at least its claims.
Every entry point keeps the difference between the two, or raises it, except
a redemption that withholds a claim against a debt on the redeemed stake.
-/

namespace DikeProtocol.Vault

open Lib

/-- What one market's books owe. -/
def claimOf (a : VaultAccounting) : ℤ :=
  a.collateralBacking - a.redeemed + a.lpFees + a.protocolFees + a.codFees + a.proposalBonds +
    a.disputeBonds

/-- The tally of what all markets' books owe. -/
def claimTally : Tally MarketId VaultAccounting ℤ where
  weight := fun _ a => claimOf a
  weight_default := by
    intro _
    rfl

/-- Everything the vault owes. -/
def claims (v : VaultState) : ℤ := v.accounting.total claimTally + v.insuranceReserve

/-- The vault holds at least what it owes. -/
def Solvent (token : Asset) (w : World) : Prop := claims w.vault ≤ cash w.bank token

/-- The gauge that reads the claims. -/
def claimGauge : Gauge where
  backing := fun _ => 1
  issued := fun _ => 0
  repaid := fun _ => 0
  defaulted := fun _ => 0
  shortfall := fun _ => 0
  redeemed := fun _ => -1
  protocolFees := fun _ => 1
  lpFees := fun _ => 1
  codFees := fun _ => 1
  proposalBonds := fun _ => 1
  disputeBonds := fun _ => 1
  debt := fun _ => 0
  reserve := 1

/-- The gauge reads exactly the claims. -/
theorem claimGauge_read (v : VaultState) : claimGauge.read v = claims v := by
  have hbooks : v.accounting.total claimGauge.books = v.accounting.total claimTally := by
    apply Finset.sum_congr rfl
    intro m _
    change claimGauge.weigh m _ = claimOf _
    simp only [Gauge.weigh, claimGauge, claimOf]
    ring
  have hdebts : v.parentDebt.total claimGauge.debts = 0 := by
    apply Finset.sum_eq_zero
    intro k _
    exact zero_mul _
  rw [Gauge.read, hbooks, hdebts, claims]
  simp only [claimGauge]
  ring

/-- Repaid credit is owed again by the market that lent it. -/
theorem claimGauge_even : claimGauge.Even 1 := by
  intro m
  rfl

/-- A default moves claims between the reserve and the market. -/
theorem claimGauge_loss (p : MarketId) (lost draw owed : ℤ) :
    claimGauge.loss p lost draw owed = 0 := by
  simp only [Gauge.loss, claimGauge]
  ring

/-- Every registered market has this collateral. -/
def OneCollateral (token : Asset) (r : RegistryState) : Prop :=
  ∀ m market, r.market m = some market → market.collateral = token

/-- A step that leaves every market with this collateral. -/
def VaultStep.KeepsCollateral (token : Asset) : VaultStep → Prop
  | .call _ _ => True
  | .outside s => OneCollateral token s.registry

/-- A redemption that withholds nothing: its stake owes nothing, or the debt
the position owes upstream takes the whole claim. -/
def WithholdsNothing (w : World) : VaultOp → Prop
  | .redeemResolved _ user m o amount =>
    w.vault.parentDebt (m, user, o) = 0 ∨
      ∀ market, w.registry.market m = some market →
        redemptionValue w.vault m market.finalOutcome o amount ≤ effectiveDebt w.vault m user
  | .redeemCancelled _ user m o amount =>
    w.vault.parentDebt (m, user, o) = 0 ∨ redemptionValue w.vault m .invalid o amount = 0
  | _ => True

/-- The same for a step of a run. -/
def VaultStep.WithholdsNothing (w : World) : VaultStep → Prop
  | .call _ op => Vault.WithholdsNothing w op
  | .outside _ => True

/-- What carries solvency through a run. -/
structure SolvencyInvariant (token : Asset) (w : World) : Prop where
  sane : Sane w.vault
  collateral : OneCollateral token w.registry
  bonds : ∀ k t, w.vault.bondToken k = some t → t = token
  solvent : Solvent token w

/-- An invocation that keeps the books, the bonds and the cash together keeps the invariant. -/
theorem SolvencyInvariant.step {token : Asset} {w : World} {v : VaultState} {b : Bank}
    {t : TokensState} (hw : SolvencyInvariant token w) (hv : Sane v)
    (hbonds : v.bondToken = w.vault.bondToken)
    (hsolvent : claimGauge.read v - claimGauge.read w.vault ≤ cash b token - cash w.bank token) :
    SolvencyInvariant token { w with vault := v, bank := b, tokens := t } := by
  refine ⟨hv, hw.collateral, ?_, ?_⟩
  · dsimp only
    rw [hbonds]
    exact hw.bonds
  · have hs := hw.solvent
    unfold Solvent at hs ⊢
    rw [claimGauge_read, claimGauge_read] at hsolvent
    dsimp only
    omega

/-- An invocation that only changes wiring keeps the invariant. -/
theorem SolvencyInvariant.rewire {token : Asset} {w : World} {v : VaultState}
    (hw : SolvencyInvariant token w) (hv : Sane v) (hbonds : v.bondToken = w.vault.bondToken)
    (ha : v.accounting = w.vault.accounting) (hd : v.parentDebt = w.vault.parentDebt)
    (hr : v.insuranceReserve = w.vault.insuranceReserve) :
    SolvencyInvariant token { w with vault := v } := by
  refine hw.step (b := w.bank) (t := w.tokens) hv hbonds ?_
  rw [claimGauge.read_congr ha hd hr]
  omega

/-- The collateral of a registered market is the one token. -/
theorem SolvencyInvariant.token_eq {token t : Asset} {w : World} (hw : SolvencyInvariant token w)
    {m : MarketId} (h : ∃ market, w.registry.market m = some market ∧ t = market.collateral) :
    t = token := by
  obtain ⟨market, hm, ht⟩ := h
  rw [ht, hw.collateral m market hm]

namespace SolvencyInvariant

section Operations

variable {token t : Asset} {ctx : Ctx} {w w' : World} {user keeper recipient lp : Address}
  {m p c : MarketId} {o po co : Outcome} {x y sold : ℤ} {r : ℕ} {d : Bool}

/-- An invocation is paid what its claims rise by, or more. -/
theorem paidIn {v : VaultState} {b : Bank} (hw : SolvencyInvariant token w) (hv : Sane v)
    (hbonds : v.bondToken = w.vault.bondToken) (ht : t = token)
    (hcash : ∀ a, cash w.bank a + (if a = t then x else 0) ≤ cash b a)
    (hread : claimGauge.read v ≤ claimGauge.read w.vault + x) :
    SolvencyInvariant token { w with vault := v, bank := b } := by
  have hpaid := hcash token
  rw [if_pos ht.symm] at hpaid
  refine hw.step hv hbonds ?_
  omega

/-- An invocation pays out what its claims fall by, or less. -/
theorem paidOut {v : VaultState} {b : Bank} {tokens : TokensState}
    (hw : SolvencyInvariant token w) (hv : Sane v) (hbonds : v.bondToken = w.vault.bondToken)
    (ht : t = token) (hcash : ∀ a, cash w.bank a - (if a = t then x else 0) ≤ cash b a)
    (hread : claimGauge.read v ≤ claimGauge.read w.vault - x) :
    SolvencyInvariant token { w with vault := v, bank := b, tokens := tokens } := by
  have hpaid := hcash token
  rw [if_pos ht.symm] at hpaid
  refine hw.step hv hbonds ?_
  omega

/-- A deposit is owed to the market it is for. -/
theorem depositForMarket (hctx : Outside .vault ctx) (hw : SolvencyInvariant token w)
    (h : Vault.depositForMarket ctx w t user m x = .ok w') : SolvencyInvariant token w' := by
  obtain ⟨v, b, rfl, hv, hframe, _, hcoll, hread, hcash⟩ :=
    depositForMarket_flow (g := claimGauge) hctx hw.sane h
  refine hw.paidIn hv hframe.bondToken (hw.token_eq hcoll) (fun a => (hcash a).ge) ?_
  rw [hread]
  simp only [claimGauge]
  omega

/-- Credit moves what one market owes to another. -/
theorem openChildCreditForTrade (hw : SolvencyInvariant token w)
    (h : Vault.openChildCreditForTrade ctx w user p po c co x = .ok w') :
    SolvencyInvariant token w' := by
  obtain ⟨v, rfl, hv, hframe, _, hread⟩ :=
    openChildCreditForTrade_flow (g := claimGauge) hw.sane h
  refine hw.step hv hframe.bondToken ?_
  rw [hread]
  simp only [claimGauge]
  omega

/-- A repayment is owed again by the market that lent it. -/
theorem repayChildCollateral (hctx : Outside .vault ctx) (hw : SolvencyInvariant token w)
    (h : Vault.repayChildCollateral ctx w t user m x = .ok (y, w')) :
    SolvencyInvariant token w' := by
  obtain ⟨v, b, credited, rfl, hv, hframe, hcoll, _, hle, hread, hcash⟩ :=
    repayChildCollateral_flow hctx (claimGauge_even.at _ _ _) hw.sane h
  refine hw.paidIn hv hframe.bondToken (hw.token_eq hcoll) hcash ?_
  omega

/-- The payout of a sale is backing of its market. -/
theorem releaseTradePayout (hw : SolvencyInvariant token w)
    (h : Vault.releaseTradePayout ctx w t user m o sold x = .ok w') :
    SolvencyInvariant token w' := by
  obtain ⟨v, b, rfl, hv, hframe, hcoll, _, _, hread, hcash⟩ :=
    releaseTradePayout_flow (g := claimGauge) hw.sane h
  refine hw.paidOut hv hframe.bondToken (hw.token_eq hcoll) hcash ?_
  rw [hread]
  simp only [claimGauge]
  omega

/-- A liquidation of a stake pays out no more than its proceeds less the repayments. -/
theorem liquidateRelease (hw : SolvencyInvariant token w)
    (h : Vault.liquidateRelease ctx w t user keeper p o sold x = .ok (y, w')) :
    SolvencyInvariant token w' := by
  obtain ⟨v, b, credited, lost, draw, owed, rfl, hv, hframe, hcoll, _, hle, _, _, hread, hcash⟩ :=
    liquidateRelease_flow (fun _ _ => claimGauge_even.at _ _ _) hw.sane h
  refine hw.paidOut hv hframe.bondToken (hw.token_eq hcoll) hcash ?_
  rw [hread, claimGauge_loss]
  simp only [claimGauge]
  omega

/-- So does one of a child position. -/
theorem liquidateChildRelease (hw : SolvencyInvariant token w)
    (h : Vault.liquidateChildRelease ctx w t user keeper c o sold x = .ok (y, w')) :
    SolvencyInvariant token w' := by
  obtain ⟨v, b, credited, lost, draw, owed, rfl, hv, hframe, hcoll, _, hle, _, _, hread, hcash⟩ :=
    liquidateChildRelease_flow (claimGauge_even.at _ _ _) hw.sane h
  refine hw.paidOut hv hframe.bondToken (hw.token_eq hcoll) hcash ?_
  rw [hread, claimGauge_loss]
  simp only [claimGauge]
  omega

/-- A redemption that withholds nothing pays out what it books as redeemed. -/
theorem redeemResolved (hw : SolvencyInvariant token w)
    (hop : WithholdsNothing w (.redeemResolved t user m o x))
    (h : Vault.redeemResolved ctx w t user m o x = .ok (y, w')) : SolvencyInvariant token w' := by
  obtain ⟨market, v, b, tokens, paid, credited, withheld, lost, draw, rfl, hv, hframe, hm, htoken,
    _, hle, hnone, _, hread, hcash⟩ :=
      redeemResolved_flow (claimGauge_even.at _ _ _) (claimGauge_even _) hw.sane h
  have hzero : withheld = 0 := hnone (hop.imp id (fun hk => hk market hm))
  refine hw.paidOut hv hframe.bondToken (hw.token_eq ⟨market, hm, htoken⟩) hcash ?_
  rw [hread, claimGauge_loss, hzero]
  simp only [claimGauge]
  omega

/-- So does a refund. -/
theorem redeemCancelled (hw : SolvencyInvariant token w)
    (hop : WithholdsNothing w (.redeemCancelled t user m o x))
    (h : Vault.redeemCancelled ctx w t user m o x = .ok (y, w')) :
    SolvencyInvariant token w' := by
  obtain ⟨market, v, b, tokens, withheld, lost, draw, rfl, hv, hframe, hm, htoken, hnone, _,
    hread, hcash⟩ := redeemCancelled_flow (claimGauge_even _) hw.sane h
  have hzero : withheld = 0 := hnone hop
  refine hw.paidOut hv hframe.bondToken (hw.token_eq ⟨market, hm, htoken⟩) hcash ?_
  rw [hread, claimGauge_loss, hzero]
  simp only [claimGauge]
  omega

/-- A bond is owed while it is locked, in the one token. -/
theorem lockBond (hctx : Outside .vault ctx) (hw : SolvencyInvariant token w)
    (h : Vault.lockBond ctx w t user r m x d = .ok w') : SolvencyInvariant token w' := by
  obtain ⟨v, b, rfl, hv, _, ⟨hbond, _⟩, hcoll, _, hread, hcash⟩ :=
    lockBond_flow (g := claimGauge) hctx hw.sane h
  obtain rfl := hw.token_eq hcoll
  have hpaid := hcash t
  rw [if_pos rfl] at hpaid
  have hweight : claimGauge.bonds m d = 1 := ite_self 1
  rw [hweight] at hread
  refine ⟨hv, hw.collateral, ?_, ?_⟩
  · intro k t' hk
    dsimp only at hk
    rw [hbond, Store.set_get] at hk
    split at hk
    · exact (Option.some.inj hk).symm
    · exact hw.bonds k t' hk
  · have hs := hw.solvent
    unfold Solvent at hs ⊢
    rw [claimGauge_read, claimGauge_read] at hread
    dsimp only
    omega

/-- A bond that is paid, back or to somebody else, is no longer owed. -/
theorem payBond (hw : SolvencyInvariant token w)
    (h : Vault.payBond ctx w t user r x d recipient = .ok w') : SolvencyInvariant token w' := by
  obtain ⟨v, b, m, rfl, hv, _, ⟨hbond, _⟩, ⟨hlocked, _⟩, _, hread, hcash⟩ :=
    payBond_flow (g := claimGauge) hw.sane h
  have hweight : claimGauge.bonds m d = 1 := ite_self 1
  refine hw.paidOut hv hbond (hw.bonds _ _ hlocked) hcash ?_
  rw [hread, hweight]
  omega

/-- A fee is owed to others than the backing it comes from. -/
theorem collectFee {lpFee protocol cod : ℤ} (hw : SolvencyInvariant token w)
    (h : Vault.collectFee ctx w m lpFee protocol cod = .ok w') : SolvencyInvariant token w' := by
  obtain ⟨v, rfl, hv, hframe, _, hread⟩ := collectFee_flow (g := claimGauge) hw.sane h
  refine hw.step hv hframe.bondToken ?_
  rw [hread]
  simp only [claimGauge]
  omega

/-- Claimed fees of providers are no longer owed. -/
theorem claimLpFees (hw : SolvencyInvariant token w)
    (h : Vault.claimLpFees ctx w t m lp x = .ok w') : SolvencyInvariant token w' := by
  obtain ⟨v, b, rfl, hv, hframe, hcoll, _, hread, hcash⟩ :=
    claimLpFees_flow (g := claimGauge) hw.sane h
  refine hw.paidOut hv hframe.bondToken (hw.token_eq hcoll) hcash ?_
  rw [hread]
  simp only [claimGauge]
  omega

/-- Swept fees are paid out, but for the part that goes to the reserve. -/
theorem sweepProtocolFees (hw : SolvencyInvariant token w)
    (h : Vault.sweepProtocolFees ctx w t m = .ok (y, w')) : SolvencyInvariant token w' := by
  obtain ⟨v, b, cut, rfl, hv, hframe, hcoll, _, hy, hread, hcash⟩ :=
    sweepProtocolFees_flow (g := claimGauge) hw.sane h
  refine hw.paidOut hv hframe.bondToken (hw.token_eq hcoll) hcash ?_
  rw [hread]
  simp only [claimGauge]
  omega

end Operations

end SolvencyInvariant

/-- Every invocation that withholds nothing keeps the vault solvent. -/
theorem VaultOp.exec_solvent {token : Asset} {ctx : Ctx} (hctx : Outside .vault ctx) {w w' : World}
    (hw : SolvencyInvariant token w) {op : VaultOp} (hop : WithholdsNothing w op)
    (h : op.exec ctx w = .ok w') : SolvencyInvariant token w' := by
  cases op with
  | setAdmin | setRole | setTreasury | pause =>
    obtain rfl := admin_ok h
    exact hw.rewire { hw.sane with } rfl rfl rfl rfl
  | upgrade | assertPositionTransferAllowed =>
    obtain ⟨_, _, h⟩ := bind_ok.mp h
    obtain rfl := pure_ok.mp h
    exact hw
  | recordCashStake user m o x y =>
    obtain ⟨rootStake, rfl⟩ := recordCashStake_flow h
    exact hw.rewire { hw.sane with } rfl rfl rfl rfl
  | fundChildPrediction => cases h
  | redeem =>
    obtain ⟨_, h⟩ := world_ok.mp h
    cases h
  | depositForMarket => exact hw.depositForMarket hctx h
  | openChildCreditForTrade => exact hw.openChildCreditForTrade h
  | repayChildCollateral =>
    obtain ⟨y, h⟩ := world_ok.mp h
    exact hw.repayChildCollateral hctx h
  | releaseTradePayout => exact hw.releaseTradePayout h
  | liquidateRelease =>
    obtain ⟨y, h⟩ := world_ok.mp h
    exact hw.liquidateRelease h
  | liquidateChildRelease =>
    obtain ⟨y, h⟩ := world_ok.mp h
    exact hw.liquidateChildRelease h
  | redeemResolved =>
    obtain ⟨y, h⟩ := world_ok.mp h
    exact hw.redeemResolved hop h
  | redeemCancelled =>
    obtain ⟨y, h⟩ := world_ok.mp h
    exact hw.redeemCancelled hop h
  | lockBond => exact hw.lockBond hctx h
  | releaseBond | slashBond => exact hw.payBond h
  | collectFee => exact hw.collectFee h
  | claimLpFees => exact hw.claimLpFees h
  | sweepProtocolFees =>
    obtain ⟨y, h⟩ := world_ok.mp h
    exact hw.sweepProtocolFees h

/-- A fresh vault owes nothing. -/
theorem freshVault_claims (admin treasury : Address) (roles : Store Role (Option Address)) :
    claims { freshVault admin treasury with roles := roles } = 0 := rfl

/-- In a run whose redemptions withhold nothing, the vault stays solvent. -/
theorem solvent_of_withholdsNothing (token : Asset) {w : World}
    (h : (vaultSystem [token]).Guarded
      (fun w step => step.KeepsCollateral token ∧ step.WithholdsNothing w) w) :
    Solvent token w := by
  have hinv : SolvencyInvariant token w := by
    refine h.invariant (I := SolvencyInvariant token) ?_ ?_
    · rintro w ⟨⟨admin, treasury, roles, hv⟩, hr⟩
      refine ⟨?_, ?_, ?_, ?_⟩
      · rw [hv]
        exact freshVault_sane admin treasury roles
      · intro m market hm
        rw [hr] at hm
        cases hm
      · intro k t hk
        rw [hv] at hk
        cases hk
      · unfold Solvent
        rw [hv, freshVault_claims]
        exact w.bank.nonneg _
    · intro w step w' hw hok hstep
      cases step with
      | call ctx op =>
        obtain ⟨hout, hexec⟩ := vaultSystem_call hstep
        exact op.exec_solvent hout hw hok.2 hexec
      | outside s =>
        obtain ⟨hcash, rfl⟩ := vaultSystem_outside hstep
        refine ⟨hw.sane, hok.1, hw.bonds, ?_⟩
        have hsame : cash s.bank token = cash w.bank token :=
          hcash token (List.mem_singleton_self token)
        have hs := hw.solvent
        unfold Solvent at hs ⊢
        dsimp only
        omega
  exact hinv.solvent

/-- The sample world around the vault, with alice holding 100 tokens of market 1. -/
def sampleSurroundings (markets : List MarketData) (bank : Bank) : Surroundings where
  registry := sampleRegistry markets
  tokens := { (deploy sampleLaunch).tokens with
    balance := Store.empty.set (1, alice, .yes) 100 }
  bank := bank

/-- Alice's call through the market maker. -/
def aliceTrades : Ctx := ⟨0, [alice], [.contract .amm]⟩

/-- Alice deposits 100 into market 1 and borrows 60 of it into market 2. -/
def loanSteps : List VaultStep :=
  [.outside (sampleSurroundings [sampleMarket 1 .live none, sampleMarket 2 .live none]
      sampleLaunch.bank),
    .call aliceTrades (.depositForMarket sampleToken alice 1 100),
    .call aliceTrades (.recordCashStake alice 1 .yes 100 100),
    .call aliceTrades (.openChildCreditForTrade alice 1 .yes 2 .yes 60)]

/-- Market 1 resolves in alice's favour and she redeems while she owes 60. -/
def redeemWhileOwing : List VaultStep :=
  [.outside (sampleSurroundings [sampleMarket 1 .resolved (some .yes), sampleMarket 2 .live none]
      (Bank.empty.issue sampleToken (.contract .vault) 100)),
    .call ⟨0, [alice], []⟩ (.redeemResolved sampleToken alice 1 .yes 100)]

/-- The sample markets all have the sample collateral. -/
theorem sampleSurroundings_collateral (s1 s2 : MarketStatus) (f1 f2 : Option Outcome) :
    OneCollateral sampleToken (sampleRegistry [sampleMarket 1 s1 f1, sampleMarket 2 s2 f2]) := by
  intro m market hm
  change (if m = 2 then some (sampleMarket 2 s2 f2)
    else if m = 1 then some (sampleMarket 1 s1 f1) else none) = some market at hm
  split at hm
  · obtain rfl := Option.some.inj hm
    rfl
  · split at hm
    · obtain rfl := Option.some.inj hm
      rfl
    · cases hm

/-- The sample deployment is where runs of the vault start. -/
theorem sample_init : (vaultSystem [sampleToken]).Init (deploy sampleLaunch) :=
  ⟨⟨_, _, _, rfl⟩, rfl⟩

/-- Alice's loan alone withholds nothing, so the vault is solvent after it. -/
theorem solvent_after_loan : ∃ w, (vaultSystem [sampleToken]).runs (deploy sampleLaunch) loanSteps =
    .ok w ∧ Solvent sampleToken w := by
  have hloan : ∀ step ∈ loanSteps, step.KeepsCollateral sampleToken ∧
      ∀ w, step.WithholdsNothing w := by
    intro step hs
    simp only [loanSteps, List.mem_cons, List.not_mem_nil, or_false] at hs
    rcases hs with rfl | rfl | rfl | rfl
    · exact ⟨sampleSurroundings_collateral _ _ _ _, fun _ => trivial⟩
    · exact ⟨trivial, fun _ => trivial⟩
    · exact ⟨trivial, fun _ => trivial⟩
    · exact ⟨trivial, fun _ => trivial⟩
  obtain ⟨w, hw, _⟩ := System.runs_of_decide (S := vaultSystem [sampleToken])
    (deploy sampleLaunch) loanSteps (fun _ => true) (by decide +kernel)
  refine ⟨w, hw, solvent_of_withholdsNothing sampleToken ?_⟩
  exact (System.Guarded.runs (.init sample_init) loanSteps hloan hw).mono
    (fun w step h => ⟨h.1, h.2 w⟩)

/-- Redeeming a winning stake while owing on it leaves the vault owing 120 and
holding 60, although every market has the one collateral. -/
theorem not_always_solvent : ¬∀ (token : Asset) (w : World),
    (vaultSystem [token]).Guarded (fun _ step => step.KeepsCollateral token) w →
      Solvent token w := by
  intro hall
  have hsteps : ∀ step ∈ loanSteps ++ redeemWhileOwing, step.KeepsCollateral sampleToken := by
    intro step hs
    simp only [loanSteps, redeemWhileOwing, List.cons_append, List.nil_append, List.mem_cons,
      List.not_mem_nil, or_false] at hs
    rcases hs with rfl | rfl | rfl | rfl | rfl | rfl
    · exact sampleSurroundings_collateral _ _ _ _
    · trivial
    · trivial
    · trivial
    · exact sampleSurroundings_collateral _ _ _ _
    · trivial
  obtain ⟨w, hw, hclaims⟩ := System.runs_of_decide (S := vaultSystem [sampleToken])
    (deploy sampleLaunch) (loanSteps ++ redeemWhileOwing)
    (fun w => claims w.vault = 120 ∧ cash w.bank sampleToken = 60) (by decide +kernel)
  have hsolvent := hall sampleToken w
    (System.Guarded.runs (.init sample_init) (loanSteps ++ redeemWhileOwing) hsteps hw)
  have hboth := of_decide_eq_true hclaims
  unfold Solvent at hsolvent
  omega

end DikeProtocol.Vault
