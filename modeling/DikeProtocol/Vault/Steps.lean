import DikeProtocol.Vault.Flow

/-!
# What the vault's entry points do, step by step

For each entry point, the internal functions a successful invocation called,
in order, with the vaults in between and the checks it passed. Later results
follow these steps and do not unfold the entry points again.
-/

namespace DikeProtocol.Vault

open Lib

variable {ctx : Ctx} {w w' : World} {token : Asset} {user keeper : Address} {m p c : MarketId}
  {o po co : Outcome} {x y sold amount : ℤ}

/-- A limit that was computed is the plain share of a stake. -/
theorem collateralLimit_ok {stake limit : ℤ} {rate : ℕ}
    (h : collateralLimit stake rate = .ok limit) : 0 ≤ stake ∧ limit = bpsOf stake rate := by
  unfold collateralLimit at h
  obtain ⟨_, hneg, h⟩ := bind_ok.mp h
  have hneg' := refuse_ok.mp hneg
  exact ⟨by omega, (bps_ok.mp h).1⟩

/-- A payment touches nothing but balances. -/
theorem payPositive_ok {receiver : Address}
    (h : payPositive ctx w token receiver x = .ok w') : ∃ b, w' = { w with bank := b } := by
  unfold payPositive at h
  split at h
  · obtain ⟨_, b, _, rfl⟩ := transferToken_ok.mp h
    exact ⟨b, rfl⟩
  · rw [← ok_ok.mp h]
    exact ⟨w.bank, rfl⟩

/-- A deposit: collateral comes in and is booked. -/
theorem depositForMarket_steps (h : depositForMarket ctx w token user m x = .ok w') :
    0 < x ∧ (∃ market, w.registry.market m = some market ∧ token = market.collateral) ∧
      ∃ b v userDeposit, recordDeposit w.vault m x = .ok v ∧
        w' = { w with vault := { v with userDeposit := userDeposit }, bank := b } := by
  unfold depositForMarket at h
  obtain ⟨_, _, h⟩ := bind_ok.mp h
  obtain ⟨_, _, h⟩ := bind_ok.mp h
  obtain ⟨_, hpos, h⟩ := bind_ok.mp h
  obtain ⟨_, _, h⟩ := bind_ok.mp h
  obtain ⟨_, hcoll, h⟩ := bind_ok.mp h
  obtain ⟨w1, hpay, h⟩ := bind_ok.mp h
  obtain ⟨v, hv, h⟩ := bind_ok.mp h
  obtain ⟨userDeposit, _, h⟩ := bind_ok.mp h
  obtain ⟨_, b, _, rfl⟩ := transferToken_ok.mp hpay
  have hpos' := refuse_ok.mp hpos
  exact ⟨by omega, requireMarketCollateral_ok hcoll, b, v, userDeposit, hv, (pure_ok.mp h).symm⟩

/-- A recorded cash stake grows by the collateral paid in. -/
theorem recordCashStake_steps (h : recordCashStake ctx w user m o x y = .ok w') :
    0 < x ∧ w' = { w with vault := { w.vault with
      rootStake := w.vault.rootStake.set (m, user, o) (w.vault.rootStake (m, user, o) + x) } } := by
  unfold recordCashStake at h
  obtain ⟨_, _, h⟩ := bind_ok.mp h
  obtain ⟨_, hpos, h⟩ := bind_ok.mp h
  obtain ⟨stake, hstake, h⟩ := bind_ok.mp h
  have hpos' := refuse_ok.mp hpos
  rw [← pure_ok.mp h, addTo_ok hstake]
  exact ⟨by omega, rfl⟩

/-- Child credit: the checks on parent, child and limit, the loan, the reallocation. -/
theorem openChildCreditForTrade_steps
    (h : openChildCreditForTrade ctx w user p po c co x = .ok w') :
    0 < x ∧ p ≠ c ∧ (∃ market, w.registry.market p = some market ∧ market.status = .live) ∧
      w.vault.childParent (p, user) = 0 ∧
      (w.vault.childParent (c, user) = 0 ∨ w.vault.childParent (c, user) = p) ∧
      w.vault.childUsedByOutcome (p, user, po) + x ≤
        bpsOf (w.vault.rootStake (p, user, po)) defaultChildCollateralBps ∧
      ∃ v1 v2, recordLoan w.vault user p po c co x = .ok v1 ∧
        reallocateBacking v1 p c x = .ok v2 ∧ w' = { w with vault := v2 } := by
  unfold openChildCreditForTrade at h
  obtain ⟨_, _, h⟩ := bind_ok.mp h
  obtain ⟨_, hpos, h⟩ := bind_ok.mp h
  obtain ⟨_, hne, h⟩ := bind_ok.mp h
  obtain ⟨market, hmarket, h⟩ := bind_ok.mp h
  obtain ⟨_, hlive, h⟩ := bind_ok.mp h
  obtain ⟨_, hroot, h⟩ := bind_ok.mp h
  obtain ⟨_, hparent, h⟩ := bind_ok.mp h
  obtain ⟨limit, hlimit, h⟩ := bind_ok.mp h
  obtain ⟨next, hnext, h⟩ := bind_ok.mp h
  obtain ⟨_, hfits, h⟩ := bind_ok.mp h
  obtain ⟨v1, hloan, h⟩ := bind_ok.mp h
  obtain ⟨v2, hmove, h⟩ := bind_ok.mp h
  have hpos' := refuse_ok.mp hpos
  have hfits' := refuse_ok.mp hfits
  have hnext' := (checkedAdd_ok.mp hnext).1
  have hlimit' := (collateralLimit_ok hlimit).2
  have hparent' : w.vault.childParent (c, user) = 0 ∨ w.vault.childParent (c, user) = p := by
    by_contra hk
    exact refuse_ok.mp hparent (not_or.mp hk)
  exact ⟨by omega, refuse_ok.mp hne,
    ⟨market, marketData_ok hmarket, not_not.mp (refuse_ok.mp hlive)⟩,
    not_not.mp (refuse_ok.mp hroot), hparent', by omega, v1, v2, hloan, hmove, (pure_ok.mp h).symm⟩

/-- A new loan, in every ledger that tracks it; a child keeps the parent it already has. -/
theorem recordLoan_links {v v' : VaultState} (h : recordLoan v user p po c co x = .ok v') :
    v'.childUsed = v.childUsed.set (p, user) (v.childUsed (p, user) + x) ∧
      v'.childParent = (if v.childParent (c, user) = 0 then v.childParent.set (c, user) p
        else v.childParent) ∧
      v'.childParentOutcome = (if v.childParent (c, user) = 0 then
        v.childParentOutcome.set (c, user) po else v.childParentOutcome) ∧
      v'.childMarketsOf = v.childMarketsOf.set (p, user, po)
        (if c ∈ v.childMarketsOf (p, user, po) then v.childMarketsOf (p, user, po)
          else v.childMarketsOf (p, user, po) ++ [c]) ∧
      v'.rootStake = v.rootStake ∧ v'.accounting = v.accounting := by
  unfold recordLoan at h
  obtain ⟨_, _, h⟩ := bind_ok.mp h
  obtain ⟨used, hused, h⟩ := bind_ok.mp h
  obtain ⟨_, _, h⟩ := bind_ok.mp h
  obtain ⟨_, _, h⟩ := bind_ok.mp h
  obtain ⟨_, _, h⟩ := bind_ok.mp h
  obtain ⟨_, _, h⟩ := bind_ok.mp h
  rw [← pure_ok.mp h, addTo_ok hused]
  unfold recordChildMarket
  dsimp only
  split <;> exact ⟨rfl, rfl, rfl, rfl, rfl, rfl⟩

/-- The books of all markets after a parent lent to a child. -/
def reallocated (s : Store MarketId VaultAccounting) (p c : MarketId) (x : ℤ) :
    Store MarketId VaultAccounting :=
  let lent := s.set p (lentBy (s p) x)
  lent.set c (depositedBy (lent c) x)

/-- A reallocation: the parent's books cover the amount, and lend it to the child's. -/
theorem reallocateBacking_steps {v v' : VaultState} (h : reallocateBacking v p c x = .ok v') :
    x ≤ (v.accounting p).collateralBacking ∧ x ≤ (v.accounting p).refundable ∧
      v' = { v with accounting := reallocated v.accounting p c x } := by
  have hmove := recordDeposit_ok (reallocateBacking_ok h)
  unfold reallocateBacking at h
  obtain ⟨_, hcovered, _⟩ := bind_ok.mp h
  have hcovered' := refuse_ok.mp hcovered
  exact ⟨by omega, by omega, hmove⟩

/-- A voluntary repayment: collateral comes in, the debt is settled, the rest goes back. -/
theorem repayChildCollateral_steps
    (h : repayChildCollateral ctx w token user c x = .ok (y, w')) :
    0 < x ∧ (∃ market, w.registry.market c = some market ∧ token = market.collateral) ∧
      ∃ v b, settleChildDebt w.vault c user x = .ok (y, v) ∧
        w' = { w with vault := v, bank := b } := by
  unfold repayChildCollateral at h
  obtain ⟨_, _, h⟩ := bind_ok.mp h
  obtain ⟨_, hpos, h⟩ := bind_ok.mp h
  obtain ⟨_, hcoll, h⟩ := bind_ok.mp h
  obtain ⟨w1, hpay, h⟩ := bind_ok.mp h
  obtain ⟨⟨applied, v⟩, hsettle, h⟩ := bind_ok.mp h
  obtain ⟨_, _, h⟩ := bind_ok.mp h
  obtain ⟨w2, hback, h⟩ := bind_ok.mp h
  obtain ⟨rfl, rfl⟩ := Prod.mk.inj (pure_ok.mp h)
  obtain ⟨_, b1, _, rfl⟩ := transferToken_ok.mp hpay
  obtain ⟨b, rfl⟩ := payPositive_ok hback
  have hpos' := refuse_ok.mp hpos
  exact ⟨by omega, requireMarketCollateral_ok hcoll, v, b, hsettle, rfl⟩

/-- Extracted proceeds are covered by the books, and retire the stake by the tokens sold. -/
theorem extractProceeds_steps {v v' : VaultState} (h : extractProceeds v m user o sold x = .ok v') :
    x ≤ (v.accounting m).collateralBacking ∧ x ≤ (v.accounting m).refundable ∧
      ∃ userDeposit, v' = { v with
        rootStake := v.rootStake.set (m, user, o) (max (v.rootStake (m, user, o) - sold) 0)
        userDeposit := userDeposit
        accounting := v.accounting.set m (debitedBy (v.accounting m) x) } := by
  unfold extractProceeds at h
  obtain ⟨_, hcovered, h⟩ := bind_ok.mp h
  obtain ⟨stake, hstake, h⟩ := bind_ok.mp h
  obtain ⟨userDeposit, _, h⟩ := bind_ok.mp h
  obtain ⟨a, ha, h⟩ := bind_ok.mp h
  have hcovered' := refuse_ok.mp hcovered
  rw [debitBacking_ok ha, saturatingSub_ok hstake] at h
  exact ⟨by omega, by omega, userDeposit, (pure_ok.mp h).symm⟩

/-- A sale: an unencumbered seller is paid out of the market's books. -/
theorem releaseTradePayout_steps (h : releaseTradePayout ctx w token user m o sold x = .ok w') :
    0 < sold ∧ 0 < x ∧
      (∃ market, w.registry.market m = some market ∧ token = market.collateral) ∧
      w.vault.childDebt (m, user) ≤ 0 ∧ w.vault.parentDebt (m, user, o) ≤ 0 ∧
      ∃ v b, extractProceeds w.vault m user o sold x = .ok v ∧
        w' = { w with vault := v, bank := b } := by
  unfold releaseTradePayout at h
  obtain ⟨_, _, h⟩ := bind_ok.mp h
  obtain ⟨_, hpos, h⟩ := bind_ok.mp h
  obtain ⟨_, hcoll, h⟩ := bind_ok.mp h
  obtain ⟨_, hfree, h⟩ := bind_ok.mp h
  obtain ⟨v, hv, h⟩ := bind_ok.mp h
  obtain ⟨_, b, _, rfl⟩ := transferToken_ok.mp h
  have hpos' := refuse_ok.mp hpos
  have hfree' := not_or.mp (refuse_ok.mp hfree)
  exact ⟨by omega, by omega, requireMarketCollateral_ok hcoll, by omega, by omega, v, b, hv, rfl⟩

/-- A liquidated parent position: extract, pay down the children, write off the rest. -/
theorem liquidateRelease_steps
    (h : liquidateRelease ctx w token user keeper p o sold x = .ok (y, w')) :
    0 < sold ∧ 0 < x ∧
      (∃ market, w.registry.market p = some market ∧ token = market.collateral) ∧
      w.vault.childUsedByOutcome (p, user, o) ≠ 0 ∧
      ∃ v1 remainder v2 v3 b, extractProceeds w.vault p user o sold x = .ok v1 ∧
        settleChildren v1 user (x - bpsOf x liquidationBonusBps) 0
          (v1.childMarketsOf (p, user, o)) = .ok (remainder, y, v2) ∧
        resolveParentDefault v2 p user o (v2.childUsedByOutcome (p, user, o)) = .ok v3 ∧
        w' = { w with vault := v3, bank := b } := by
  unfold liquidateRelease at h
  obtain ⟨_, _, h⟩ := bind_ok.mp h
  obtain ⟨_, hpos, h⟩ := bind_ok.mp h
  obtain ⟨_, hcoll, h⟩ := bind_ok.mp h
  obtain ⟨_, hused, h⟩ := bind_ok.mp h
  obtain ⟨v1, h1, h⟩ := bind_ok.mp h
  obtain ⟨bonus, hbonus, h⟩ := bind_ok.mp h
  obtain ⟨pool, hpool, h⟩ := bind_ok.mp h
  obtain ⟨⟨remainder, repaid, v2⟩, h2, h⟩ := bind_ok.mp h
  obtain ⟨v3, h3, h⟩ := bind_ok.mp h
  obtain ⟨w1, hb1, h⟩ := bind_ok.mp h
  obtain ⟨w2, hb2, h⟩ := bind_ok.mp h
  obtain ⟨rfl, rfl⟩ := Prod.mk.inj (pure_ok.mp h)
  obtain ⟨b1, rfl⟩ := payPositive_ok hb1
  obtain ⟨b, rfl⟩ := payPositive_ok hb2
  have hpos' := refuse_ok.mp hpos
  rw [(checkedSub_ok.mp hpool).1, (bps_ok.mp hbonus).1] at h2
  refine ⟨by omega, by omega, requireMarketCollateral_ok hcoll, refuse_ok.mp hused, v1, remainder,
    v2, v3, b, h1, h2, ?_, rfl⟩
  split at h3
  · exact h3
  · next hnone =>
    unfold resolveParentDefault
    rw [if_pos (not_lt.mp hnone)]
    exact h3

/-- A liquidated child position: extract, settle upstream, write off the rest. -/
theorem liquidateChildRelease_steps
    (h : liquidateChildRelease ctx w token user keeper c o sold x = .ok (y, w')) :
    0 < sold ∧ 0 < x ∧
      (∃ market, w.registry.market c = some market ∧ token = market.collateral) ∧
      w.vault.childDebt (c, user) ≠ 0 ∧
      ∃ v1 v2 v3 b, extractProceeds w.vault c user o sold x = .ok v1 ∧
        settleChildDebt v1 c user (x - bpsOf x liquidationBonusBps) = .ok (y, v2) ∧
        (if v2.childDebt (c, user) > 0 ∧ v2.childParent (c, user) ≠ 0 then
          resolveParentDefault v2 (v2.childParent (c, user)) user
            (v2.childParentOutcome (c, user)) (v2.childDebt (c, user))
          else .ok v2) = .ok v3 ∧
        w' = { w with vault := v3, bank := b } := by
  unfold liquidateChildRelease at h
  obtain ⟨_, _, h⟩ := bind_ok.mp h
  obtain ⟨_, hpos, h⟩ := bind_ok.mp h
  obtain ⟨_, hcoll, h⟩ := bind_ok.mp h
  obtain ⟨_, hdebt, h⟩ := bind_ok.mp h
  obtain ⟨v1, h1, h⟩ := bind_ok.mp h
  obtain ⟨bonus, hbonus, h⟩ := bind_ok.mp h
  obtain ⟨pool, hpool, h⟩ := bind_ok.mp h
  obtain ⟨⟨applied, v2⟩, h2, h⟩ := bind_ok.mp h
  obtain ⟨_, _, h⟩ := bind_ok.mp h
  obtain ⟨v3, h3, h⟩ := bind_ok.mp h
  obtain ⟨w1, hb1, h⟩ := bind_ok.mp h
  obtain ⟨w2, hb2, h⟩ := bind_ok.mp h
  obtain ⟨rfl, rfl⟩ := Prod.mk.inj (pure_ok.mp h)
  obtain ⟨b1, rfl⟩ := payPositive_ok hb1
  obtain ⟨b, rfl⟩ := payPositive_ok hb2
  have hpos' := refuse_ok.mp hpos
  rw [(checkedSub_ok.mp hpool).1, (bps_ok.mp hbonus).1] at h2
  exact ⟨by omega, by omega, requireMarketCollateral_ok hcoll, refuse_ok.mp hdebt, v1, v2, v3, b,
    h1, h2, h3, rfl⟩

/-- The vault with another dust carry of one market. -/
def withCarry (v : VaultState) (m : MarketId) (carry : ℤ) : VaultState :=
  { v with invalidDustCarry := v.invalidDustCarry.set m carry }

/-- The worth of redeemed tokens moves nothing but the dust carry. -/
theorem grossPayout_carry {v v' : VaultState} {final : Outcome}
    (h : grossPayout v m final o amount = .ok (x, v')) :
    v' = v ∨ ∃ carry, v' = withCarry v m carry := by
  unfold grossPayout at h
  cases final with
  | yes => exact Or.inl (Prod.mk.inj (ok_ok.mp h)).2.symm
  | no => exact Or.inl (Prod.mk.inj (ok_ok.mp h)).2.symm
  | invalid =>
    unfold refundWithCarry at h
    obtain ⟨_, _, h⟩ := bind_ok.mp h
    obtain ⟨_, _, h⟩ := bind_ok.mp h
    obtain ⟨_, _, h⟩ := bind_ok.mp h
    obtain ⟨carry, _, h⟩ := bind_ok.mp h
    exact Or.inr ⟨carry, (Prod.mk.inj (pure_ok.mp h)).2.symm⟩

/-- Counting redeemed tokens writes one counter. -/
theorem addRedeemed_ok {v v' : VaultState} (h : addRedeemed v m user o amount = .ok v') :
    v' = { v with
      redeemed := v.redeemed.set (m, user, o) (v.redeemed (m, user, o) + amount) } := by
  unfold addRedeemed at h
  obtain ⟨redeemed, hredeemed, h⟩ := bind_ok.mp h
  rw [← pure_ok.mp h, addTo_ok hredeemed]

/-- The settlement of a redemption in a resolved market, in the order of the source. -/
theorem settleResolved_steps {v v' : VaultState} {final : Outcome} {gross payout : ℤ}
    (h : settleResolved v m user final o amount = .ok (gross, payout, v')) :
    ∃ v1 v2 paid v3 withheld, grossPayout v m final o amount = .ok (gross, v1) ∧
      addRedeemed v1 m user o amount = .ok v2 ∧
      repayUpstream v2 m user gross = .ok (paid, v3) ∧
      withholdParentDebt v3 m user o gross (gross - paid) = .ok (withheld, v') ∧
      cappedPayout v' m (gross - paid - withheld) = .ok payout := by
  unfold settleResolved at h
  obtain ⟨⟨gross', v1⟩, h1, h⟩ := bind_ok.mp h
  obtain ⟨v2, h2, h⟩ := bind_ok.mp h
  obtain ⟨⟨paid, v3⟩, h3, h⟩ := bind_ok.mp h
  obtain ⟨claim, hclaim, h⟩ := bind_ok.mp h
  obtain ⟨⟨withheld, v4⟩, h4, h⟩ := bind_ok.mp h
  obtain ⟨remaining, hremaining, h⟩ := bind_ok.mp h
  obtain ⟨payout', h5, h⟩ := bind_ok.mp h
  obtain ⟨rfl, hrest⟩ := Prod.mk.inj (pure_ok.mp h)
  obtain ⟨rfl, rfl⟩ := Prod.mk.inj hrest
  rw [(checkedSub_ok.mp hremaining).1, (checkedSub_ok.mp hclaim).1] at h5
  rw [(checkedSub_ok.mp hclaim).1] at h4
  exact ⟨v1, v2, paid, v3, withheld, h1, h2, h3, h4, h5⟩

/-- The settlement of a redemption in a cancelled market. -/
theorem settleCancelled_steps {v v' : VaultState} {payout : ℤ}
    (h : settleCancelled v m user o amount = .ok (payout, v')) :
    ∃ gross v1 withheld, refundWithCarry v m amount = .ok (gross, v1) ∧
      withholdParentDebt v1 m user o gross gross = .ok (withheld, v') ∧
      cappedPayout v' m (gross - withheld) = .ok payout := by
  unfold settleCancelled at h
  obtain ⟨⟨gross, v1⟩, h1, h⟩ := bind_ok.mp h
  obtain ⟨⟨withheld, v2⟩, h2, h⟩ := bind_ok.mp h
  obtain ⟨remaining, hremaining, h⟩ := bind_ok.mp h
  obtain ⟨payout', h3, h⟩ := bind_ok.mp h
  obtain ⟨rfl, rfl⟩ := Prod.mk.inj (pure_ok.mp h)
  rw [(checkedSub_ok.mp hremaining).1] at h3
  exact ⟨gross, v1, withheld, h1, h2, h3⟩

/-- A payout never exceeds what the market still holds, and nothing negative is paid. -/
theorem cappedPayout_bounds {v : VaultState} {payout : ℤ} (h : cappedPayout v m x = .ok payout) :
    payout = 0 ∨ payout ≤ (v.accounting m).collateralBacking - (v.accounting m).redeemed := by
  unfold cappedPayout at h
  dsimp only at h
  split at h
  · exact Or.inl (ok_ok.mp h).symm
  · split at h
    · exact Or.inl (ok_ok.mp h).symm
    · obtain ⟨remaining, hremaining, h⟩ := bind_ok.mp h
      have hremaining' := (checkedSub_ok.mp hremaining).1
      split at h
      · exact Or.inl (pure_ok.mp h).symm
      · obtain ⟨claim, _, h⟩ := bind_ok.mp h
        have hpayout := pure_ok.mp h
        right
        split at hpayout <;> omega

/-- Retiring a claim lowers the user's deposit and stake, and nothing else. -/
theorem retireClaim_ok {v v' : VaultState} (h : retireClaim v m user o x = .ok v') :
    ∃ rootStake userDeposit,
      v' = { v with rootStake := rootStake, userDeposit := userDeposit } := by
  unfold retireClaim at h
  split at h
  · obtain ⟨userDeposit, _, h⟩ := bind_ok.mp h
    obtain ⟨rootStake, _, h⟩ := bind_ok.mp h
    exact ⟨rootStake, userDeposit, (pure_ok.mp h).symm⟩
  · exact ⟨v.rootStake, v.userDeposit, (ok_ok.mp h).symm⟩

/-- The books of a market after a payout. -/
def paidBy (a : VaultAccounting) (x : ℤ) : VaultAccounting :=
  { a with redeemed := a.redeemed + x, refundable := a.refundable - x }

/-- A payout books and moves exactly its amount, when that is positive. -/
theorem payRedemption_ok (h : payRedemption ctx w token user m x = .ok w') :
    ∃ b, w' = { w with
      vault := { w.vault with
        accounting :=
          if x > 0 then w.vault.accounting.set m (paidBy (w.vault.accounting m) x)
          else w.vault.accounting }
      bank := b } := by
  unfold payRedemption at h
  split at h
  · next hpos =>
    obtain ⟨redeemed, hredeemed, h⟩ := bind_ok.mp h
    obtain ⟨refundable, hrefundable, h⟩ := bind_ok.mp h
    obtain ⟨_, b, _, rfl⟩ := transferToken_ok.mp h
    rw [(checkedAdd_ok.mp hredeemed).1, (checkedSub_ok.mp hrefundable).1, if_pos hpos]
    exact ⟨b, rfl⟩
  · next hnone =>
    rw [← ok_ok.mp h, if_neg hnone]
    exact ⟨w.bank, rfl⟩

/-- A redemption in a resolved market: settle, burn, retire the claim, pay. -/
theorem redeemResolved_steps (h : redeemResolved ctx w token user m o amount = .ok (y, w')) :
    0 < amount ∧ ∃ market gross v1 t v2 called,
      w.registry.market m = some market ∧ token = market.collateral ∧
      market.hasFinalOutcome = true ∧
      settleResolved w.vault m user market.finalOutcome o amount = .ok (gross, y, v1) ∧
      Tokens.burnForRedeem called w.tokens user m o amount = .ok t ∧
      retireClaim v1 m user o gross = .ok v2 ∧
      payRedemption ctx { w with vault := v2, tokens := t } token user m y = .ok w' := by
  unfold redeemResolved at h
  obtain ⟨_, _, h⟩ := bind_ok.mp h
  obtain ⟨_, hpos, h⟩ := bind_ok.mp h
  obtain ⟨_, _, h⟩ := bind_ok.mp h
  obtain ⟨_, _, h⟩ := bind_ok.mp h
  obtain ⟨_, _, h⟩ := bind_ok.mp h
  obtain ⟨market, hmarket, h⟩ := bind_ok.mp h
  obtain ⟨_, hcoll, h⟩ := bind_ok.mp h
  obtain ⟨final, hfinal, h⟩ := bind_ok.mp h
  obtain ⟨⟨gross, payout, v1⟩, hsettle, h⟩ := bind_ok.mp h
  obtain ⟨called, _, h⟩ := bind_ok.mp h
  obtain ⟨t, hburn, h⟩ := bind_ok.mp h
  obtain ⟨v2, hretire, h⟩ := bind_ok.mp h
  obtain ⟨w1, hpay, h⟩ := bind_ok.mp h
  obtain ⟨rfl, rfl⟩ := Prod.mk.inj (pure_ok.mp h)
  have hpos' := refuse_ok.mp hpos
  have hm := Registry.getMarket_ok.mp hmarket
  obtain ⟨market', hm', hdone, hout⟩ := Registry.getFinalOutcome_ok.mp hfinal
  rw [hm] at hm'
  obtain rfl := Option.some.inj hm'
  rw [← hout] at hsettle
  exact ⟨by omega, market, gross, v1, t, v2, called, hm, not_not.mp (refuse_ok.mp hcoll), hdone,
    hsettle, hburn, hretire, hpay⟩

/-- A redemption in a cancelled market: burn, settle, pay. -/
theorem redeemCancelled_steps (h : redeemCancelled ctx w token user m o amount = .ok (y, w')) :
    0 < amount ∧ ∃ market t v1 called,
      w.registry.market m = some market ∧ market.status = .cancelled ∧ token = market.collateral ∧
      Tokens.burnForRedeem called w.tokens user m o amount = .ok t ∧
      settleCancelled w.vault m user o amount = .ok (y, v1) ∧
      payRedemption ctx { w with vault := v1, tokens := t } token user m y = .ok w' := by
  unfold redeemCancelled at h
  obtain ⟨_, _, h⟩ := bind_ok.mp h
  obtain ⟨_, hpos, h⟩ := bind_ok.mp h
  obtain ⟨market, hmarket, h⟩ := bind_ok.mp h
  obtain ⟨_, hstatus, h⟩ := bind_ok.mp h
  obtain ⟨_, _, h⟩ := bind_ok.mp h
  obtain ⟨called, _, h⟩ := bind_ok.mp h
  obtain ⟨t, hburn, h⟩ := bind_ok.mp h
  obtain ⟨⟨payout, v1⟩, hsettle, h⟩ := bind_ok.mp h
  obtain ⟨w1, hpay, h⟩ := bind_ok.mp h
  obtain ⟨rfl, rfl⟩ := Prod.mk.inj (pure_ok.mp h)
  have hpos' := refuse_ok.mp hpos
  have hstatus' := not_or.mp (refuse_ok.mp hstatus)
  exact ⟨by omega, market, t, v1, called, marketData_ok hmarket, not_not.mp hstatus'.1,
    not_not.mp hstatus'.2, hburn, hsettle, hpay⟩

/-- The books of a market after a trading fee was booked out of its backing. -/
def chargedBy (a : VaultAccounting) (lp protocol cod : ℤ) : VaultAccounting :=
  { debitedBy a (lp + protocol + cod) with
    lpFees := a.lpFees + lp
    protocolFees := a.protocolFees + protocol
    codFees := a.codFees + cod }

/-- Booked fees are covered by the market's books and leave its backing. -/
theorem collectFee_steps {lp protocol cod : ℤ} (h : collectFee ctx w m lp protocol cod = .ok w') :
    0 ≤ lp ∧ 0 ≤ protocol ∧ 0 ≤ cod ∧
      lp + protocol + cod ≤ (w.vault.accounting m).collateralBacking ∧
      lp + protocol + cod ≤ (w.vault.accounting m).refundable ∧
      w' = { w with vault := { w.vault with
        accounting :=
          w.vault.accounting.set m (chargedBy (w.vault.accounting m) lp protocol cod) } } := by
  unfold collectFee at h
  obtain ⟨_, _, h⟩ := bind_ok.mp h
  obtain ⟨_, hneg, h⟩ := bind_ok.mp h
  obtain ⟨part, hpart, h⟩ := bind_ok.mp h
  obtain ⟨total, htotal, h⟩ := bind_ok.mp h
  obtain ⟨_, hcovered, h⟩ := bind_ok.mp h
  obtain ⟨a, ha, h⟩ := bind_ok.mp h
  obtain ⟨lpFees, h1, h⟩ := bind_ok.mp h
  obtain ⟨protocolFees, h2, h⟩ := bind_ok.mp h
  obtain ⟨codFees, h3, h⟩ := bind_ok.mp h
  have hneg' := refuse_ok.mp hneg
  have hcovered' := refuse_ok.mp hcovered
  have htotal' : total = lp + protocol + cod := by
    rw [(checkedAdd_ok.mp htotal).1, (checkedAdd_ok.mp hpart).1]
  rw [htotal'] at hcovered' ha
  rw [← pure_ok.mp h, (checkedAdd_ok.mp h1).1, (checkedAdd_ok.mp h2).1, (checkedAdd_ok.mp h3).1,
    debitBacking_ok ha]
  exact ⟨by omega, by omega, by omega, by omega, by omega, rfl⟩

/-- The books of a market after liquidity fees were paid out. -/
def lpPaidBy (a : VaultAccounting) (x : ℤ) : VaultAccounting := { a with lpFees := a.lpFees - x }

/-- Claimed liquidity fees leave the market's books and the vault. -/
theorem claimLpFees_steps (h : claimLpFees ctx w token m user x = .ok w') :
    0 < x ∧ (∃ market, w.registry.market m = some market ∧ token = market.collateral) ∧
      x ≤ (w.vault.accounting m).lpFees ∧
      ∃ b, w' = { w with
        vault := { w.vault with
          accounting := w.vault.accounting.set m (lpPaidBy (w.vault.accounting m) x) }
        bank := b } := by
  unfold claimLpFees at h
  obtain ⟨_, _, h⟩ := bind_ok.mp h
  obtain ⟨_, hpos, h⟩ := bind_ok.mp h
  obtain ⟨_, hcoll, h⟩ := bind_ok.mp h
  obtain ⟨_, hcovered, h⟩ := bind_ok.mp h
  obtain ⟨lpFees, hfees, h⟩ := bind_ok.mp h
  obtain ⟨_, b, _, rfl⟩ := transferToken_ok.mp h
  have hpos' := refuse_ok.mp hpos
  have hcovered' := refuse_ok.mp hcovered
  rw [(checkedSub_ok.mp hfees).1]
  exact ⟨by omega, requireMarketCollateral_ok hcoll, by omega, b, rfl⟩

/-- The books of a market after its protocol fees were swept. -/
def sweptBy (a : VaultAccounting) : VaultAccounting := { a with protocolFees := 0, codFees := 0 }

/-- Swept fees leave the market's books; the reserve keeps its cut of them. -/
theorem sweepProtocolFees_steps (h : sweepProtocolFees ctx w token m = .ok (y, w')) :
    (∃ market, w.registry.market m = some market ∧ token = market.collateral) ∧
      y = (w.vault.accounting m).protocolFees + (w.vault.accounting m).codFees ∧
      ∃ b reserve, (reserve = w.vault.insuranceReserve ∨
          reserve = w.vault.insuranceReserve + bpsOf y insuranceReserveBps) ∧
        w' = { w with
          vault := { w.vault with
            accounting := w.vault.accounting.set m (sweptBy (w.vault.accounting m))
            insuranceReserve := reserve }
          bank := b } := by
  unfold sweepProtocolFees at h
  obtain ⟨_, _, h⟩ := bind_ok.mp h
  obtain ⟨_, hcoll, h⟩ := bind_ok.mp h
  obtain ⟨total, htotal, h⟩ := bind_ok.mp h
  have htotal' := (checkedAdd_ok.mp htotal).1
  split at h
  · obtain ⟨cut, hcut, h⟩ := bind_ok.mp h
    obtain ⟨rest, _, h⟩ := bind_ok.mp h
    obtain ⟨reserve, hreserve, h⟩ := bind_ok.mp h
    obtain ⟨w1, hpay, h⟩ := bind_ok.mp h
    obtain ⟨rfl, rfl⟩ := Prod.mk.inj (pure_ok.mp h)
    obtain ⟨b, rfl⟩ := payPositive_ok hpay
    refine ⟨requireMarketCollateral_ok hcoll, htotal', b, reserve, ?_, rfl⟩
    split at hreserve
    · right
      rw [(checkedAdd_ok.mp hreserve).1, (bps_ok.mp hcut).1]
    · exact Or.inl (ok_ok.mp hreserve).symm
  · obtain ⟨rfl, rfl⟩ := Prod.mk.inj (pure_ok.mp h)
    exact ⟨requireMarketCollateral_ok hcoll, htotal', w.bank, _, Or.inl rfl, rfl⟩

end DikeProtocol.Vault
