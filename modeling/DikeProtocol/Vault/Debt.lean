import DikeProtocol.Registry

/-!
# Debt ledgers of the collateral vault

Repayment of a child debt, the default of a parent debt, and the cap on a
payout. These are the internal functions of the vault; they touch nothing but
its own storage.
-/

namespace DikeProtocol.Vault

open Lib

/-- Share of swept protocol fees held back into the insurance reserve. -/
def insuranceReserveBps : ℕ := 2000

/-- Cut of liquidation proceeds paid to the keeper. -/
def liquidationBonusBps : ℕ := 300

/-- Part of a root stake that may back child credit. -/
def defaultChildCollateralBps : ℕ := 6000

/-- Book money into a market's backing and its refundable amount. -/
def creditBacking (a : VaultAccounting) (amount : ℤ) : Res VaultAccounting := do
  let backing ← checkedAdd a.collateralBacking amount
  let refundable ← checkedAdd a.refundable amount
  return { a with collateralBacking := backing, refundable := refundable }

/-- Book money out of a market's backing and its refundable amount. -/
def debitBacking (a : VaultAccounting) (amount : ℤ) : Res VaultAccounting := do
  let backing ← checkedSub a.collateralBacking amount
  let refundable ← checkedSub a.refundable amount
  return { a with collateralBacking := backing, refundable := refundable }

/-- Add an amount to a stored value. -/
def addTo {K : Type} [DecidableEq K] (s : Store K ℤ) (k : K) (amount : ℤ) : Res (Store K ℤ) := do
  let next ← checkedAdd (s k) amount
  return s.set k next

/-- Subtract an amount from a stored value, at most down to nothing. -/
def saturatingSub {K : Type} [DecidableEq K] (s : Store K ℤ) (k : K) (amount : ℤ) :
    Res (Store K ℤ) := do
  let current := s k
  let spent := if current > amount then amount else current
  let left ← checkedSub current spent
  return s.set k left

/-- Lower both records of the child collateral drawn from a parent stake. -/
def releaseChildUsed (v : VaultState) (parentMarketId : MarketId) (user : Address)
    (outcome : Outcome) (amount : ℤ) : Res VaultState := do
  let byOutcome ← saturatingSub v.childUsedByOutcome (parentMarketId, user, outcome) amount
  let used ← saturatingSub v.childUsed (parentMarketId, user) amount
  return { v with childUsedByOutcome := byOutcome, childUsed := used }

/-- Remember a child market once per parent stake. -/
def recordChildMarket (v : VaultState) (parentMarketId : MarketId) (user : Address)
    (outcome : Outcome) (childMarketId : MarketId) : VaultState :=
  let children := v.childMarketsOf (parentMarketId, user, outcome)
  let children := if childMarketId ∈ children then children else children ++ [childMarketId]
  { v with childMarketsOf := v.childMarketsOf.set (parentMarketId, user, outcome) children }

/-- Restore the backing of a market by a repaid amount of its child credit. -/
def creditRepayment (v : VaultState) (marketId : MarketId) (amount : ℤ) : Res VaultState := do
  let restored ← creditBacking (v.accounting marketId) amount
  let repaid ← checkedAdd restored.childCollateralRepaid amount
  let restored := { restored with childCollateralRepaid := repaid }
  return { v with accounting := v.accounting.set marketId restored }

/-- What a child position can still repay: its own debt, or the debt recorded
upstream when that is smaller. -/
def effectiveDebt (v : VaultState) (childMarketId : MarketId) (user : Address) : ℤ :=
  let rawChildDebt := v.childDebt (childMarketId, user)
  let parentMarketId := v.childParent (childMarketId, user)
  let parentOutcome := v.childParentOutcome (childMarketId, user)
  let upstreamDebt := v.parentDebt (parentMarketId, user, parentOutcome)
  if parentMarketId ≠ 0 ∧ upstreamDebt < rawChildDebt then upstreamDebt else rawChildDebt

/-- Pay down up to `repayment` of a child debt, capped by what is owed here and
upstream, and restore the parent's backing by the amount applied. A child
debt whose upstream debt is already cleared is stale and only zeroed. -/
def settleChildDebt (v : VaultState) (childMarketId : MarketId) (user : Address)
    (repayment : ℤ) : Res (ℤ × VaultState) :=
  let rawChildDebt := v.childDebt (childMarketId, user)
  let parentMarketId := v.childParent (childMarketId, user)
  let parentOutcome := v.childParentOutcome (childMarketId, user)
  let upstreamDebt := v.parentDebt (parentMarketId, user, parentOutcome)
  if repayment ≤ 0 then .ok (0, v)
  else if rawChildDebt = 0 then .ok (0, v)
  else if parentMarketId ≠ 0 ∧ upstreamDebt = 0 then
    .ok (0, { v with childDebt := v.childDebt.set (childMarketId, user) 0 })
  else
    let effective := effectiveDebt v childMarketId user
    let applied := if repayment > effective then effective else repayment
    if applied = 0 then .ok (0, v)
    else do
      let childLeft ← checkedSub rawChildDebt applied
      let v := { v with childDebt := v.childDebt.set (childMarketId, user) childLeft }
      if parentMarketId = 0 then
        return (applied, v)
      else
        let upstreamLeft ← checkedSub upstreamDebt applied
        let v := { v with
          parentDebt := v.parentDebt.set (parentMarketId, user, parentOutcome) upstreamLeft }
        let v ← releaseChildUsed v parentMarketId user parentOutcome applied
        let v ← creditRepayment v parentMarketId applied
        return (applied, v)

/-- A claim scaled by backing over backing plus shortfall, once there is a shortfall. -/
def haircut (a : VaultAccounting) (grossPayout : ℤ) : Res ℤ :=
  if a.shortfall = 0 then .ok grossPayout
  else do
    let totalClaims ← checkedAdd a.collateralBacking a.shortfall
    let scaled ← checkedMul grossPayout a.collateralBacking
    checkedDiv scaled totalClaims

/-- Cap a claim against what the market can still pay, after its haircut. -/
def cappedPayout (v : VaultState) (marketId : MarketId) (grossPayout : ℤ) : Res ℤ :=
  let a := v.accounting marketId
  if grossPayout ≤ 0 then .ok 0
  else if a.collateralBacking ≤ 0 then .ok 0
  else do
    let remaining ← checkedSub a.collateralBacking a.redeemed
    if remaining ≤ 0 then
      return 0
    else
      let claim ← haircut a grossPayout
      return if claim > remaining then remaining else claim

/-- Clear defaulted debt from the child debts of a parent stake, in list order. -/
def clearChildDebts (v : VaultState) (parentMarketId : MarketId) (user : Address)
    (parentOutcome : Outcome) (remaining : ℤ) : List MarketId → Res VaultState
  | [] => .ok v
  | childMarketId :: children =>
    let owed := v.childDebt (childMarketId, user)
    if remaining = 0 then .ok v
    else if owed = 0 then clearChildDebts v parentMarketId user parentOutcome remaining children
    else do
      let cleared := if owed > remaining then remaining else owed
      let left ← checkedSub owed cleared
      let v := { v with childDebt := v.childDebt.set (childMarketId, user) left }
      let v ← releaseChildUsed v parentMarketId user parentOutcome cleared
      let remaining ← checkedSub remaining cleared
      clearChildDebts v parentMarketId user parentOutcome remaining children

/-- Restore a market's backing out of the insurance reserve. -/
def drawReserve (reserve : ℤ) (parent : VaultAccounting) (reserveDraw : ℤ) :
    Res (ℤ × VaultAccounting) :=
  if reserveDraw > 0 then do
    let reserve ← checkedSub reserve reserveDraw
    let parent ← creditBacking parent reserveDraw
    return (reserve, parent)
  else .ok (reserve, parent)

/-- Book what the reserve could not restore as shortfall. -/
def bookShortfall (parent : VaultAccounting) (unrecoverable : ℤ) : Res VaultAccounting :=
  if unrecoverable > 0 then do
    let shortfall ← checkedAdd parent.shortfall unrecoverable
    return { parent with shortfall := shortfall }
  else .ok parent

/-- Write off a parent debt: the reserve restores what it can of the parent's
backing, the rest becomes its shortfall, the parent debt is zeroed and the
child debts are cleared up to the defaulted amount. -/
def resolveParentDefault (v : VaultState) (parentMarketId : MarketId) (user : Address)
    (parentOutcome : Outcome) (totalDefaulted : ℤ) : Res VaultState :=
  if totalDefaulted ≤ 0 then .ok v
  else do
    let parent := v.accounting parentMarketId
    let defaulted ← checkedAdd parent.childCollateralDefaulted totalDefaulted
    let parent := { parent with childCollateralDefaulted := defaulted }
    let reserve := v.insuranceReserve
    let reserveDraw := if totalDefaulted > reserve then reserve else totalDefaulted
    let unrecoverable ← checkedSub totalDefaulted reserveDraw
    let (reserve, parent) ← drawReserve reserve parent reserveDraw
    let parent ← bookShortfall parent unrecoverable
    let v := { v with
      accounting := v.accounting.set parentMarketId parent
      insuranceReserve := reserve
      parentDebt := v.parentDebt.set (parentMarketId, user, parentOutcome) 0 }
    clearChildDebts v parentMarketId user parentOutcome totalDefaulted
      (v.childMarketsOf (parentMarketId, user, parentOutcome))

/-- Pay down every child debt of a parent stake from a pool of proceeds, in
list order. Returns what is left of the pool and what was repaid. -/
def settleChildren (v : VaultState) (user : Address) (pool debtRepaid : ℤ) :
    List MarketId → Res (ℤ × ℤ × VaultState)
  | [] => .ok (pool, debtRepaid, v)
  | childMarketId :: children =>
    if pool = 0 then .ok (pool, debtRepaid, v)
    else do
      let (applied, v) ← settleChildDebt v childMarketId user pool
      let pool ← checkedSub pool applied
      let debtRepaid ← checkedAdd debtRepaid applied
      settleChildren v user pool debtRepaid children

/-- Count the tokens a user redeemed. -/
def addRedeemed (v : VaultState) (marketId : MarketId) (user : Address) (outcome : Outcome)
    (amount : ℤ) : Res VaultState := do
  let redeemed ← addTo v.redeemed (marketId, user, outcome) amount
  return { v with redeemed := redeemed }

/-- A position may move only while its owner owes nothing on it. -/
def assertPositionTransferAllowed (ctx : Ctx) (v : VaultState) (owner : Address)
    (marketId : MarketId) (outcome : Outcome) (amount : ℤ) : Res Unit := do
  requireRole ctx v.roles .tokens
  refuse (amount ≤ 0) (.error .invalidAmount)
  refuse (v.childDebt (marketId, owner) > 0 ∨ v.parentDebt (marketId, owner, outcome) > 0)
    (.error .encumberedPosition)

end DikeProtocol.Vault
