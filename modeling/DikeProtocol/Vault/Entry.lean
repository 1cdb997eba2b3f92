import DikeProtocol.Tokens

/-!
# Entry points of the collateral vault

Deposits, child credit, sales, liquidations, redemptions, bonds and fees. An
entry point reads the registry, burns tokens or moves collateral through the
other contracts and updates the vault's own books in the order of the source.
-/

namespace DikeProtocol.Vault

open Lib

/-- Data of a market, as the registry reports it. -/
def marketData (ctx : Ctx) (w : World) (marketId : MarketId) : Res MarketData := do
  let registry ← readRole w.vault.roles .registry
  let _ ← ctx.call .vault registry .registry
  Registry.getMarket w.registry marketId

/-- The token must be the collateral of the market. -/
def requireMarketCollateral (ctx : Ctx) (w : World) (token : Asset) (marketId : MarketId) :
    Res Unit := do
  let market ← marketData ctx w marketId
  refuse (token ≠ market.collateral) (.error .unsupportedCollateral)

/-- The administrator hands over to another address. -/
def setAdmin (ctx : Ctx) (w : World) (admin : Address) : Res World := do
  requireAuth ctx w.vault.admin
  return { w with vault := { w.vault with admin := admin } }

/-- The administrator stores the module of a role. -/
def setRole (ctx : Ctx) (w : World) (role : Role) (module : Address) : Res World := do
  requireAuth ctx w.vault.admin
  return { w with vault := { w.vault with roles := w.vault.roles.set role (some module) } }

/-- Governance stores where swept fees go. -/
def setTreasury (ctx : Ctx) (w : World) (treasury : Address) : Res World := do
  requireRole ctx w.vault.roles .gov
  return { w with vault := { w.vault with treasury := treasury } }

/-- Governance stops or resumes deposits. -/
def pause (ctx : Ctx) (w : World) (paused : Bool) : Res World := do
  requireRole ctx w.vault.roles .gov
  return { w with vault := { w.vault with paused := paused } }

/-- Book a deposit into a market. -/
def recordDeposit (v : VaultState) (marketId : MarketId) (amount : ℤ) : Res VaultState := do
  let a := v.accounting marketId
  let deposited ← checkedAdd a.totalDeposited amount
  let a ← creditBacking { a with totalDeposited := deposited } amount
  return { v with accounting := v.accounting.set marketId a }

/-- The market maker deposits collateral of a user. -/
def depositForMarket (ctx : Ctx) (w : World) (token : Asset) (user : Address)
    (marketId : MarketId) (amount : ℤ) : Res World := do
  requireRole ctx w.vault.roles .amm
  requireAuth ctx user
  refuse (amount ≤ 0) (.error .invalidAmount)
  refuse (w.vault.paused = true) (.error .invalidStatus)
  requireMarketCollateral ctx w token marketId
  let w ← transferToken ctx .vault w token user (.contract .vault) amount
  let v ← recordDeposit w.vault marketId amount
  let userDeposit ← addTo v.userDeposit (marketId, user) amount
  return { w with vault := { v with userDeposit := userDeposit } }

/-- The market maker records the cash a user staked on an outcome. -/
def recordCashStake (ctx : Ctx) (w : World) (user : Address) (marketId : MarketId)
    (outcome : Outcome) (collateralIn tokensOut : ℤ) : Res World := do
  requireRole ctx w.vault.roles .amm
  refuse (collateralIn ≤ 0 ∨ tokensOut ≤ 0) (.error .invalidAmount)
  let rootStake ← addTo w.vault.rootStake (marketId, user, outcome) collateralIn
  return { w with vault := { w.vault with rootStake := rootStake } }

/-- The old way to fund a child position is closed. -/
def fundChildPrediction : Res World := .error (.error .unauthorized)

/-- Write a new loan into every ledger that tracks it. -/
def recordLoan (v : VaultState) (user : Address) (parentMarketId : MarketId)
    (parentOutcome : Outcome) (childMarketId : MarketId) (childOutcome : Outcome) (amount : ℤ) :
    Res VaultState := do
  let byOutcome ← addTo v.childUsedByOutcome (parentMarketId, user, parentOutcome) amount
  let used ← addTo v.childUsed (parentMarketId, user) amount
  let loanByOutcome ← addTo v.childLoanByOutcome
    (parentMarketId, parentOutcome, childMarketId, childOutcome, user) amount
  let loan ← addTo v.childLoan (parentMarketId, childMarketId, user) amount
  let debt ← addTo v.childDebt (childMarketId, user) amount
  let parentDebt ← addTo v.parentDebt (parentMarketId, user, parentOutcome) amount
  let v := { v with
    childUsedByOutcome := byOutcome
    childUsed := used
    childLoanByOutcome := loanByOutcome
    childLoan := loan
    childDebt := debt
    parentDebt := parentDebt }
  let v :=
    if v.childParent (childMarketId, user) = 0 then
      { v with
        childParent := v.childParent.set (childMarketId, user) parentMarketId
        childParentOutcome := v.childParentOutcome.set (childMarketId, user) parentOutcome }
    else v
  return recordChildMarket v parentMarketId user parentOutcome childMarketId

/-- Move backing from the parent market to the child market. -/
def reallocateBacking (v : VaultState) (parentMarketId childMarketId : MarketId) (amount : ℤ) :
    Res VaultState := do
  let parent := v.accounting parentMarketId
  refuse (parent.collateralBacking < amount ∨ parent.refundable < amount)
    (.error .insufficientCollateral)
  let parent ← debitBacking parent amount
  let issued ← checkedAdd parent.childCollateralIssued amount
  let parent := { parent with childCollateralIssued := issued }
  let v := { v with accounting := v.accounting.set parentMarketId parent }
  recordDeposit v childMarketId amount

/-- The market maker draws child credit from a user's parent stake. -/
def openChildCreditForTrade (ctx : Ctx) (w : World) (user : Address) (parentMarketId : MarketId)
    (parentOutcome : Outcome) (childMarketId : MarketId) (childOutcome : Outcome) (amount : ℤ) :
    Res World := do
  requireRole ctx w.vault.roles .amm
  refuse (amount ≤ 0) (.error .invalidAmount)
  refuse (parentMarketId = childMarketId) (.error .invalidInput)
  let parentMarket ← marketData ctx w parentMarketId
  refuse (parentMarket.status ≠ .live) (.error .invalidStatus)
  refuse (w.vault.childParent (parentMarketId, user) ≠ 0) (.error .chainDepthExceeded)
  let existingParent := w.vault.childParent (childMarketId, user)
  refuse (existingParent ≠ 0 ∧ existingParent ≠ parentMarketId) (.error .invalidInput)
  let stake := w.vault.rootStake (parentMarketId, user, parentOutcome)
  let limit ← collateralLimit stake defaultChildCollateralBps
  let used := w.vault.childUsedByOutcome (parentMarketId, user, parentOutcome)
  let nextUsed ← checkedAdd used amount
  refuse (nextUsed > limit) (.error .childCollateralLimitExceeded)
  let v ← recordLoan w.vault user parentMarketId parentOutcome childMarketId childOutcome amount
  let v ← reallocateBacking v parentMarketId childMarketId amount
  return { w with vault := v }

/-- Pay collateral out of the vault when the amount is positive. -/
def payPositive (ctx : Ctx) (w : World) (token : Asset) (receiver : Address) (amount : ℤ) :
    Res World :=
  if amount > 0 then transferToken ctx .vault w token (.contract .vault) receiver amount
  else .ok w

/-- A user repays child credit before the child market resolves. -/
def repayChildCollateral (ctx : Ctx) (w : World) (token : Asset) (user : Address)
    (childMarketId : MarketId) (amount : ℤ) : Res (ℤ × World) := do
  requireAuth ctx user
  refuse (amount ≤ 0) (.error .invalidAmount)
  requireMarketCollateral ctx w token childMarketId
  let w ← transferToken ctx .vault w token user (.contract .vault) amount
  let (applied, v) ← settleChildDebt w.vault childMarketId user amount
  let unused ← checkedSub amount applied
  let w ← payPositive ctx { w with vault := v } token user unused
  return (applied, w)

/-- Take the proceeds of sold tokens out of a market's books. -/
def extractProceeds (v : VaultState) (marketId : MarketId) (user : Address) (outcome : Outcome)
    (tokensSold proceeds : ℤ) : Res VaultState := do
  let a := v.accounting marketId
  refuse (a.collateralBacking < proceeds ∨ a.refundable < proceeds) (.error .insufficientCollateral)
  let rootStake ← saturatingSub v.rootStake (marketId, user, outcome) tokensSold
  let userDeposit ← saturatingSub v.userDeposit (marketId, user) proceeds
  let a ← debitBacking a proceeds
  return { v with
    rootStake := rootStake
    userDeposit := userDeposit
    accounting := v.accounting.set marketId a }

/-- The market maker pays a seller whose position is not encumbered. -/
def releaseTradePayout (ctx : Ctx) (w : World) (token : Asset) (user : Address)
    (marketId : MarketId) (outcome : Outcome) (tokensSold payout : ℤ) : Res World := do
  requireRole ctx w.vault.roles .amm
  refuse (tokensSold ≤ 0 ∨ payout ≤ 0) (.error .invalidAmount)
  requireMarketCollateral ctx w token marketId
  refuse (w.vault.childDebt (marketId, user) > 0 ∨ w.vault.parentDebt (marketId, user, outcome) > 0)
    (.error .encumberedPosition)
  let v ← extractProceeds w.vault marketId user outcome tokensSold payout
  transferToken ctx .vault { w with vault := v } token (.contract .vault) user payout

/-- The market maker settles a liquidated parent position: bonus first, then
the child debts, then the remainder to the user; what stays owed defaults. -/
def liquidateRelease (ctx : Ctx) (w : World) (token : Asset) (user liquidator : Address)
    (parentMarketId : MarketId) (parentOutcome : Outcome) (tokensSold proceeds : ℤ) :
    Res (ℤ × World) := do
  requireRole ctx w.vault.roles .amm
  refuse (tokensSold ≤ 0 ∨ proceeds ≤ 0) (.error .invalidAmount)
  requireMarketCollateral ctx w token parentMarketId
  refuse (w.vault.childUsedByOutcome (parentMarketId, user, parentOutcome) = 0)
    (.error .invalidInput)
  let v ← extractProceeds w.vault parentMarketId user parentOutcome tokensSold proceeds
  let bonus ← bps proceeds liquidationBonusBps
  let pool ← checkedSub proceeds bonus
  let (remainder, debtRepaid, v) ←
    settleChildren v user pool 0 (v.childMarketsOf (parentMarketId, user, parentOutcome))
  let unrecovered := v.childUsedByOutcome (parentMarketId, user, parentOutcome)
  let v ← (if unrecovered > 0 then
      resolveParentDefault v parentMarketId user parentOutcome unrecovered
    else .ok v)
  let w ← payPositive ctx { w with vault := v } token liquidator bonus
  let w ← payPositive ctx w token user remainder
  return (debtRepaid, w)

/-- The market maker settles a liquidated child position; debt the proceeds
did not cover defaults on the parent market. -/
def liquidateChildRelease (ctx : Ctx) (w : World) (token : Asset) (user liquidator : Address)
    (childMarketId : MarketId) (childOutcome : Outcome) (tokensSold proceeds : ℤ) :
    Res (ℤ × World) := do
  requireRole ctx w.vault.roles .amm
  refuse (tokensSold ≤ 0 ∨ proceeds ≤ 0) (.error .invalidAmount)
  requireMarketCollateral ctx w token childMarketId
  refuse (w.vault.childDebt (childMarketId, user) = 0) (.error .invalidInput)
  let v ← extractProceeds w.vault childMarketId user childOutcome tokensSold proceeds
  let bonus ← bps proceeds liquidationBonusBps
  let pool ← checkedSub proceeds bonus
  let (applied, v) ← settleChildDebt v childMarketId user pool
  let remainder ← checkedSub pool applied
  let stillOwed := v.childDebt (childMarketId, user)
  let parentMarketId := v.childParent (childMarketId, user)
  let parentOutcome := v.childParentOutcome (childMarketId, user)
  let v ← (if stillOwed > 0 ∧ parentMarketId ≠ 0 then
      resolveParentDefault v parentMarketId user parentOutcome stillOwed
    else .ok v)
  let w ← payPositive ctx { w with vault := v } token liquidator bonus
  let w ← payPositive ctx w token user remainder
  return (applied, w)

/-- The old way to redeem is closed. -/
def redeem : Res (ℤ × World) := .error (.error .unauthorized)

/-- Half of the amount with the market's dust folded in; the odd unit is
carried to the next refund. -/
def refundWithCarry (v : VaultState) (marketId : MarketId) (amount : ℤ) : Res (ℤ × VaultState) := do
  let effective ← checkedAdd (v.invalidDustCarry marketId) amount
  let refund ← invalidRefund effective
  let doubled ← checkedAdd refund refund
  let newCarry ← checkedSub effective doubled
  return (refund, { v with invalidDustCarry := v.invalidDustCarry.set marketId newCarry })

/-- What the redeemed tokens are worth before debts and haircuts. -/
def grossPayout (v : VaultState) (marketId : MarketId) (finalOutcome redeemedOutcome : Outcome)
    (amount : ℤ) : Res (ℤ × VaultState) :=
  match finalOutcome with
  | .invalid => refundWithCarry v marketId amount
  | .yes => .ok (if redeemedOutcome = .yes then amount else 0, v)
  | .no => .ok (if redeemedOutcome = .no then amount else 0, v)

/-- Settle the market's own debt upstream out of a claim, and debit the market
by what was credited to its parent. -/
def repayUpstream (v : VaultState) (marketId : MarketId) (user : Address) (claim : ℤ) :
    Res (ℤ × VaultState) := do
  let (childRepayment, v) ← settleChildDebt v marketId user claim
  if childRepayment > 0 then
    let a ← debitBacking (v.accounting marketId) childRepayment
    return (childRepayment, { v with accounting := v.accounting.set marketId a })
  else
    return (childRepayment, v)

/-- Book a withheld claim as a repayment of the market's own child credit. -/
def restoreWithheld (v : VaultState) (marketId : MarketId) (user : Address) (outcome : Outcome)
    (withheld : ℤ) : Res VaultState :=
  if withheld > 0 then do
    let v ← releaseChildUsed v marketId user outcome withheld
    creditRepayment v marketId withheld
  else .ok v

/-- Withhold a claim against what the user owes on this parent stake, credited
to the market's own backing. A redemption worth nothing defaults the debt. -/
def withholdParentDebt (v : VaultState) (marketId : MarketId) (user : Address) (outcome : Outcome)
    (grossPayout claim : ℤ) : Res (ℤ × VaultState) :=
  let parentDebt := v.parentDebt (marketId, user, outcome)
  let withheld := if parentDebt > claim then claim else parentDebt
  if parentDebt > 0 then do
    let unpaid ← checkedSub parentDebt withheld
    let v := { v with parentDebt := v.parentDebt.set (marketId, user, outcome) unpaid }
    let v ← restoreWithheld v marketId user outcome withheld
    let v ← (if grossPayout = 0 ∧ unpaid > 0 then
        resolveParentDefault v marketId user outcome unpaid
      else .ok v)
    return (withheld, v)
  else .ok (withheld, v)

/-- Retire the user's deposit and stake by the claim their tokens were worth. -/
def retireClaim (v : VaultState) (marketId : MarketId) (user : Address) (outcome : Outcome)
    (grossPayout : ℤ) : Res VaultState :=
  if grossPayout > 0 then do
    let userDeposit ← saturatingSub v.userDeposit (marketId, user) grossPayout
    let rootStake ← saturatingSub v.rootStake (marketId, user, outcome) grossPayout
    return { v with userDeposit := userDeposit, rootStake := rootStake }
  else .ok v

/-- Book a payout and pay it. -/
def payRedemption (ctx : Ctx) (w : World) (token : Asset) (user : Address) (marketId : MarketId)
    (payout : ℤ) : Res World :=
  if payout > 0 then do
    let a := w.vault.accounting marketId
    let redeemed ← checkedAdd a.redeemed payout
    let refundable ← checkedSub a.refundable payout
    let a := { a with redeemed := redeemed, refundable := refundable }
    let w := { w with vault := { w.vault with accounting := w.vault.accounting.set marketId a } }
    transferToken ctx .vault w token (.contract .vault) user payout
  else .ok w

/-- Debts and haircut of a redemption in a resolved market: what the tokens
were worth, and what is paid for them. -/
def settleResolved (v : VaultState) (marketId : MarketId) (user : Address)
    (finalOutcome redeemedOutcome : Outcome) (amount : ℤ) : Res (ℤ × ℤ × VaultState) := do
  let (gross, v) ← grossPayout v marketId finalOutcome redeemedOutcome amount
  let v ← addRedeemed v marketId user redeemedOutcome amount
  let (childRepayment, v) ← repayUpstream v marketId user gross
  let claim ← checkedSub gross childRepayment
  let (parentRepayment, v) ← withholdParentDebt v marketId user redeemedOutcome gross claim
  let remaining ← checkedSub claim parentRepayment
  let payout ← cappedPayout v marketId remaining
  return (gross, payout, v)

/-- Debts and haircut of a redemption in a cancelled market. -/
def settleCancelled (v : VaultState) (marketId : MarketId) (user : Address)
    (redeemedOutcome : Outcome) (amount : ℤ) : Res (ℤ × VaultState) := do
  let (gross, v) ← refundWithCarry v marketId amount
  let (withheld, v) ← withholdParentDebt v marketId user redeemedOutcome gross gross
  let remaining ← checkedSub gross withheld
  let payout ← cappedPayout v marketId remaining
  return (payout, v)

/-- Redeem tokens of a resolved market. -/
def redeemResolved (ctx : Ctx) (w : World) (token : Asset) (user : Address) (marketId : MarketId)
    (redeemedOutcome : Outcome) (amount : ℤ) : Res (ℤ × World) := do
  requireAuth ctx user
  refuse (amount ≤ 0) (.error .invalidAmount)
  let registry ← readRole w.vault.roles .registry
  let tokens ← readRole w.vault.roles .tokens
  let _ ← ctx.call .vault registry .registry
  let market ← Registry.getMarket w.registry marketId
  refuse (token ≠ market.collateral) (.error .unsupportedCollateral)
  let finalOutcome ← Registry.getFinalOutcome w.registry marketId
  let (gross, payout, v) ←
    settleResolved w.vault marketId user finalOutcome redeemedOutcome amount
  let called ← ctx.call .vault tokens .tokens
  let t ← Tokens.burnForRedeem called w.tokens user marketId redeemedOutcome amount
  let v ← retireClaim v marketId user redeemedOutcome gross
  let w ← payRedemption ctx { w with vault := v, tokens := t } token user marketId payout
  return (payout, w)

/-- Redeem tokens of a cancelled market. -/
def redeemCancelled (ctx : Ctx) (w : World) (token : Asset) (user : Address) (marketId : MarketId)
    (redeemedOutcome : Outcome) (amount : ℤ) : Res (ℤ × World) := do
  requireAuth ctx user
  refuse (amount ≤ 0) (.error .invalidAmount)
  let market ← marketData ctx w marketId
  refuse (market.status ≠ .cancelled ∨ token ≠ market.collateral) (.error .invalidStatus)
  let tokens ← readRole w.vault.roles .tokens
  let called ← ctx.call .vault tokens .tokens
  let t ← Tokens.burnForRedeem called w.tokens user marketId redeemedOutcome amount
  let (payout, v) ← settleCancelled w.vault marketId user redeemedOutcome amount
  let w ← payRedemption ctx { w with vault := v, tokens := t } token user marketId payout
  return (payout, w)

/-- The books after a bond of one kind grew or shrank. -/
def moveBond (a : VaultAccounting) (isDispute : Bool) (delta : ℤ) : Res VaultAccounting :=
  if isDispute = true then do
    let bonds ← checkedAdd a.disputeBonds delta
    return { a with disputeBonds := bonds }
  else do
    let bonds ← checkedAdd a.proposalBonds delta
    return { a with proposalBonds := bonds }

/-- A user locks a bond for a resolution request, once. -/
def lockBond (ctx : Ctx) (w : World) (token : Asset) (user : Address) (requestId : ℕ)
    (marketId : MarketId) (amount : ℤ) (isDispute : Bool) : Res World := do
  requireAuth ctx user
  refuse (amount ≤ 0) (.error .invalidAmount)
  requireMarketCollateral ctx w token marketId
  refuse (w.vault.bond (requestId, user, isDispute) ≠ none) (.error .invalidInput)
  let w ← transferToken ctx .vault w token user (.contract .vault) amount
  let a ← moveBond (w.vault.accounting marketId) isDispute amount
  let key := (requestId, user, isDispute)
  return { w with vault := { w.vault with
    bond := w.vault.bond.set key (some amount)
    bondToken := w.vault.bondToken.set key (some token)
    bondMarket := w.vault.bondMarket.set key (some marketId)
    accounting := w.vault.accounting.set marketId a } }

/-- Take an amount out of a locked bond and the books of its market. -/
def takeBond (v : VaultState) (token : Asset) (user : Address) (requestId : ℕ) (amount : ℤ)
    (isDispute : Bool) : Res VaultState := do
  let key := (requestId, user, isDispute)
  let lockedToken ← orFault (v.bondToken key) (.error .insufficientBalance)
  refuse (lockedToken ≠ token) (.error .unsupportedCollateral)
  let locked ← orFault (v.bond key) (.error .insufficientBalance)
  refuse (locked < amount) (.error .insufficientBalance)
  let marketId ← orFault (v.bondMarket key) (.error .marketNotFound)
  let left ← checkedSub locked amount
  let a ← moveBond (v.accounting marketId) isDispute (-amount)
  return { v with
    bond := v.bond.set key (some left)
    accounting := v.accounting.set marketId a }

/-- The oracle takes an amount out of a bond for a recipient. -/
def payBond (ctx : Ctx) (w : World) (token : Asset) (user : Address) (requestId : ℕ) (amount : ℤ)
    (isDispute : Bool) (recipient : Address) : Res World := do
  requireRole ctx w.vault.roles .oracle
  refuse (amount ≤ 0) (.error .invalidAmount)
  let v ← takeBond w.vault token user requestId amount isDispute
  transferToken ctx .vault { w with vault := v } token (.contract .vault) recipient amount

/-- The oracle gives a bond back to the user who locked it. -/
def releaseBond (ctx : Ctx) (w : World) (token : Asset) (user : Address) (requestId : ℕ)
    (amount : ℤ) (isDispute : Bool) : Res World :=
  payBond ctx w token user requestId amount isDispute user

/-- The oracle pays a part of a lost bond to a recipient. -/
def slashBond (ctx : Ctx) (w : World) (token : Asset) (user : Address) (requestId : ℕ)
    (amount : ℤ) (isDispute : Bool) (recipient : Address) : Res World :=
  payBond ctx w token user requestId amount isDispute recipient

/-- The market maker books trading fees out of a market's backing. -/
def collectFee (ctx : Ctx) (w : World) (marketId : MarketId) (lpFee protocolFee codFee : ℤ) :
    Res World := do
  requireRole ctx w.vault.roles .amm
  refuse (lpFee < 0 ∨ protocolFee < 0 ∨ codFee < 0) (.error .invalidAmount)
  let partFee ← checkedAdd lpFee protocolFee
  let totalFee ← checkedAdd partFee codFee
  let a := w.vault.accounting marketId
  refuse (a.collateralBacking < totalFee ∨ a.refundable < totalFee) (.error .insufficientCollateral)
  let a ← debitBacking a totalFee
  let lpFees ← checkedAdd a.lpFees lpFee
  let protocolFees ← checkedAdd a.protocolFees protocolFee
  let codFees ← checkedAdd a.codFees codFee
  let a := { a with lpFees := lpFees, protocolFees := protocolFees, codFees := codFees }
  return { w with vault := { w.vault with accounting := w.vault.accounting.set marketId a } }

/-- The market maker pays liquidity fees to a provider. -/
def claimLpFees (ctx : Ctx) (w : World) (token : Asset) (marketId : MarketId) (lp : Address)
    (amount : ℤ) : Res World := do
  requireRole ctx w.vault.roles .amm
  refuse (amount ≤ 0) (.error .invalidAmount)
  requireMarketCollateral ctx w token marketId
  let a := w.vault.accounting marketId
  refuse (a.lpFees < amount) (.error .insufficientBalance)
  let lpFees ← checkedSub a.lpFees amount
  let a := { a with lpFees := lpFees }
  let w := { w with vault := { w.vault with accounting := w.vault.accounting.set marketId a } }
  transferToken ctx .vault w token (.contract .vault) lp amount

/-- Governance sweeps the protocol's fees: a slice stays in the insurance
reserve, the rest goes to the treasury. -/
def sweepProtocolFees (ctx : Ctx) (w : World) (token : Asset) (marketId : MarketId) :
    Res (ℤ × World) := do
  requireRole ctx w.vault.roles .gov
  requireMarketCollateral ctx w token marketId
  let a := w.vault.accounting marketId
  let amount ← checkedAdd a.protocolFees a.codFees
  let a := { a with protocolFees := 0, codFees := 0 }
  let w := { w with vault := { w.vault with accounting := w.vault.accounting.set marketId a } }
  if amount > 0 then
    let reserveCut ← bps amount insuranceReserveBps
    let treasuryAmount ← checkedSub amount reserveCut
    let reserve ← (if reserveCut > 0 then checkedAdd w.vault.insuranceReserve reserveCut
      else .ok w.vault.insuranceReserve)
    let w := { w with vault := { w.vault with insuranceReserve := reserve } }
    let w ← payPositive ctx w token w.vault.treasury treasuryAmount
    return (amount, w)
  else
    return (amount, w)

/-- The credit a user may still draw on a stake. -/
def childAvailForOutcome (w : World) (parentMarketId : MarketId) (user : Address)
    (outcome : Outcome) : Res ℤ := do
  let stake := w.vault.rootStake (parentMarketId, user, outcome)
  let limit ← collateralLimit stake defaultChildCollateralBps
  let used := w.vault.childUsedByOutcome (parentMarketId, user, outcome)
  checkedSub limit used

end DikeProtocol.Vault
