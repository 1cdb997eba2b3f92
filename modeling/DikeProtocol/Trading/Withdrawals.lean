import DikeProtocol.Trading.Backing
import DikeProtocol.Trading.Exits

/-!
# Withdrawals of liquidity

A provider who may withdraw gets out exactly when both rounded shares of the
reserves are positive and the vault holds the fees it owes: the conditional
tokens refuse to move nothing, so one share that rounds down to zero keeps the
other share and the fees in as well.
-/

namespace DikeProtocol.Trading

open Lib
open Amm (reserveOf)

/-- What lies between zero and a number that fits, fits. -/
theorem inRange_of_le {x y : ℤ} (h0 : 0 ≤ x) (hle : x ≤ y) (hy : y ≤ i128Max) : InRange x := by
  have hmin : i128Min ≤ 0 := by decide
  exact ⟨hmin.trans h0, hle.trans hy⟩

/-- A share of an amount is computed when the product fits. -/
theorem proportional_of_fits {amount shares total : ℤ} (ha : 0 ≤ amount) (hs : 0 < shares)
    (hle : shares ≤ total) (hfits : InRange (amount * shares)) :
    proportional amount shares total = .ok (proportionOf amount shares total) := by
  obtain ⟨h0, hamount⟩ := proportionOf_bounds ha hs hle
  have hproduct : amount ≤ amount * shares := le_mul_of_one_le_right ha (by omega)
  unfold proportional
  refine bind_ok.mpr ⟨_, checkedMul_ok.mpr ⟨rfl, hfits⟩, checkedDiv_ok.mpr ⟨by omega, rfl, ?_⟩⟩
  exact inRange_of_le h0 (hamount.trans hproduct) hfits.2

/-- Fees owed to a provider with shares are computed when the product fits. -/
theorem computeLpFeesOwed_of_fits {a : AmmState} (hs : Shared a) {i : ℕ} {lp : Address}
    {pool : PoolData} (hpool : a.pool i = some pool) (hpos : 0 < a.lpBalance (i, lp))
    (hfits : InRange (a.lpBalance (i, lp) *
      (pool.feePerShareScaled - a.lpFeeCheckpoint (i, lp)))) :
    Amm.computeLpFeesOwed a i lp pool (a.lpBalance (i, lp)) =
      .ok (owedOf pool (a.lpFeeCheckpoint (i, lp)) (a.lpBalance (i, lp))) := by
  have hcheck := hs.checkpoint_le (i, lp) pool hpool
  have hdelta : 0 ≤ pool.feePerShareScaled - a.lpFeeCheckpoint (i, lp) := by omega
  have hproduct : pool.feePerShareScaled - a.lpFeeCheckpoint (i, lp) ≤
      a.lpBalance (i, lp) * (pool.feePerShareScaled - a.lpFeeCheckpoint (i, lp)) :=
    le_mul_of_one_le_left hdelta (by omega)
  unfold Amm.computeLpFeesOwed
  refine bind_ok.mpr ⟨_, checkedSub_ok.mpr ⟨rfl, inRange_of_le hdelta hproduct hfits.2⟩, ?_⟩
  unfold owedOf
  split
  · rfl
  · have hearned := mul_nonneg hpos.le hdelta
    refine bind_ok.mpr ⟨_, checkedMul_ok.mpr ⟨rfl, hfits⟩, checkedDiv_ok.mpr ⟨by decide, rfl, ?_⟩⟩
    rw [Int.tdiv_eq_ediv_of_nonneg hearned]
    exact inRange_of_le (Int.ediv_nonneg hearned (by decide)) (Int.ediv_le_self _ hearned) hfits.2

/-- Two owners of an outcome hold no more than the backing of its market. -/
theorem balances_le_backing {t : TokensState} {burned : Tokens.Burned}
    (ht : Tokens.Supplied t burned)
    {m : MarketId} {o : Outcome} (ho : o ≠ .invalid) {a b : Address} (hne : a ≠ b) :
    t.balance (m, a, o) + t.balance (m, b, o) ≤ t.backing m := by
  have hnonneg : ∀ k, 0 ≤ (Tokens.supplyTally m o).weight k (t.balance k) := by
    intro k
    unfold Tokens.supplyTally
    rw [Tally.over_weight]
    split
    · exact ht.nonneg k
    · exact le_rfl
  have hkeys : (m, a, o) ≠ (m, b, o) := fun h => hne (Prod.mk.inj (Prod.mk.inj h).2).1
  have hpair := t.balance.sum_le_total (Tokens.supplyTally m o) hnonneg {(m, a, o), (m, b, o)}
  rw [Finset.sum_pair hkeys] at hpair
  unfold Tokens.supplyTally at hpair
  rw [Tally.over_weight, Tally.over_weight, if_pos ⟨rfl, rfl⟩, if_pos ⟨rfl, rfl⟩] at hpair
  have hsupply : Tokens.supply t m o ≤ t.backing m := by
    cases o with
    | yes =>
      have hlaw := ht.yes m
      have hburned := ht.burned_nonneg (m, .yes)
      omega
    | no =>
      have hlaw := ht.no m
      have hburned := ht.burned_nonneg (m, .no)
      omega
    | invalid => exact absurd rfl ho
  exact hpair.trans hsupply

/-- What the market maker holds it can move to anyone else. -/
theorem moveBalance_of_held {t : TokensState} {burned : Tokens.Burned}
    (ht : Tokens.Supplied t burned) (hfits : ∀ m, t.backing m ≤ i128Max) {m : MarketId}
    {o : Outcome}
    (ho : o ≠ .invalid) {a b : Address} (hne : a ≠ b) {x : ℤ} (hx : 0 ≤ x)
    (hheld : x ≤ t.balance (m, a, o)) : ∃ t', Tokens.moveBalance t a b m o x = .ok t' := by
  have hpair := balances_le_backing ht ho (m := m) hne
  have hmax := hfits m
  have hleft := ht.nonneg (m, b, o)
  have hsub : InRange (t.balance (m, a, o) - x) :=
    inRange_of_le (y := t.balance (m, a, o)) (by omega) (by omega) (by omega)
  have hkey : (m, b, o) ≠ (m, a, o) := fun h => hne (Prod.mk.inj (Prod.mk.inj h).2).1.symm
  have hadd : InRange (t.balance (m, b, o) + x) :=
    inRange_of_le (y := t.backing m) (by omega) (by omega) hmax
  refine ⟨_, bind_ok.mpr ⟨_, bind_ok.mpr ⟨(), refuse_ok.mpr (by omega), bind_ok.mpr
    ⟨_, checkedSub_ok.mpr ⟨rfl, hsub⟩, rfl⟩⟩, bind_ok.mpr ⟨_, checkedAdd_ok.mpr ⟨rfl, ?_⟩, rfl⟩⟩⟩
  rw [Store.set_get_of_ne _ _ hkey]
  exact hadd

/-- The market maker moves a positive amount it holds. -/
theorem transferPosition_of_held {ctx : Ctx} {w : World} (hctx : FromOutside ctx)
    (ht : TradeInvariant w) (hrole : w.vault.roles .tokens = some (.contract .tokens))
    {burned : Tokens.Burned} (hsupplied : Tokens.Supplied w.tokens burned)
    (hfits : ∀ m, w.tokens.backing m ≤ i128Max) {lp : Address} (hne : lp ≠ .contract .amm)
    (token : Asset) {m : MarketId} {o : Outcome} (ho : o ≠ .invalid) {x : ℤ} (hx : 0 < x)
    (hheld : x ≤ w.tokens.balance (m, .contract .amm, o)) :
    ∃ t, Amm.transferPosition ctx w (wired token) (.contract .amm) lp m o x =
        .ok { w with tokens := t } ∧
      Tokens.moveBalance w.tokens (.contract .amm) lp m o x = .ok t := by
  obtain ⟨t, hmove⟩ := moveBalance_of_held hsupplied hfits (m := m) ho hne.symm hx.le hheld
  have htokens : Address.contract .tokens ∉ Address.contract .amm :: ctx.callers := by
    simp [hctx.2.2.2]
  have hvault : Address.contract .vault ∉
      Address.contract .tokens :: .contract .amm :: ctx.callers := by
    simp [hctx.2.1.2]
  have hchild := ht.ammChildFree m
  have hparent := ht.ammParentFree m o
  refine ⟨t, bind_ok.mpr ⟨_, Ctx.call_ok.mpr ⟨rfl, htokens, rfl⟩, ?_⟩, hmove⟩
  refine bind_ok.mpr ⟨(), requireAuth_ok.mpr (Or.inr rfl), ?_⟩
  refine bind_ok.mpr ⟨(), refuse_ok.mpr (by omega), ?_⟩
  refine bind_ok.mpr ⟨_, readRole_ok.mpr ht.tokensVault, ?_⟩
  refine bind_ok.mpr ⟨_, Ctx.call_ok.mpr ⟨rfl, hvault, rfl⟩, ?_⟩
  refine bind_ok.mpr ⟨(), ?_, bind_ok.mpr ⟨t, hmove, rfl⟩⟩
  refine bind_ok.mpr ⟨(), requireRole_ok.mpr ⟨_, hrole, Or.inr rfl⟩, ?_⟩
  refine bind_ok.mpr ⟨(), refuse_ok.mpr (by omega), refuse_ok.mpr ?_⟩
  omega

/-- The market maker moves positive amounts of both outcomes it holds. -/
theorem transferBoth_of_held {ctx : Ctx} {w : World} (hctx : FromOutside ctx)
    (ht : TradeInvariant w) (hrole : w.vault.roles .tokens = some (.contract .tokens))
    {burned : Tokens.Burned} (hsupplied : Tokens.Supplied w.tokens burned)
    (hfits : ∀ m, w.tokens.backing m ≤ i128Max) {lp : Address} (hne : lp ≠ .contract .amm)
    (token : Asset) {m : MarketId} {x : Bool → ℤ} (hx : ∀ o, 0 < x o)
    (hheld : ∀ o, x o ≤ w.tokens.balance (m, .contract .amm, Amm.outcomeOf o)) :
    ∃ w1 t, Amm.transferPosition ctx w (wired token) (.contract .amm) lp m .yes (x true) = .ok w1 ∧
      Amm.transferPosition ctx w1 (wired token) (.contract .amm) lp m .no (x false) =
        .ok { w with tokens := t } ∧
      ∀ o, t.balance (m, lp, Amm.outcomeOf o) =
        w.tokens.balance (m, lp, Amm.outcomeOf o) + x o := by
  obtain ⟨t1, h1, hmove1⟩ := transferPosition_of_held hctx ht hrole hsupplied hfits hne token
    (o := .yes) (by decide) (hx true) (hheld true)
  have ht1 := ht.transferPosition (Amm.transferPosition_ok h1)
  obtain ⟨_, hbacking1, _, hbalance1⟩ := Tokens.moveBalance_ok hmove1
  have hfits1 : ∀ m, t1.backing m ≤ i128Max := by
    rw [hbacking1]
    exact hfits
  have hheld1 : x false ≤ t1.balance (m, .contract .amm, .no) := by
    have hno := hheld false
    rw [hbalance1, if_neg (by simp), if_neg (by simp), sub_zero, add_zero]
    exact hno
  obtain ⟨t2, h2, hmove2⟩ := transferPosition_of_held hctx ht1 hrole
    (hsupplied.move (hx true) hmove1)
    hfits1 hne token (o := .no) (by decide) (hx false) hheld1
  obtain ⟨_, _, _, hbalance2⟩ := Tokens.moveBalance_ok hmove2
  refine ⟨_, t2, h1, h2, ?_⟩
  intro o
  dsimp only at hbalance2
  rw [hbalance2, hbalance1]
  cases o <;> simp [Amm.outcomeOf, hne]

/-- The vault pays fees that were booked and that it holds. -/
theorem payLpFees_of_booked {ctx : Ctx} {w : World} (hctx : FromOutside ctx) (ht : TradeInvariant w)
    (hw : Furnished w) (hcallers : Address.contract .registry ∉ ctx.callers) {token : Asset}
    {m : MarketId} (hmarket : ∃ market, w.registry.market m = some market ∧
      market.collateral = token) {lp : Address} (hne : lp ≠ .contract .vault) {x : ℤ} (hx : 0 ≤ x)
    (hbooked : x ≤ booked w m) (hfunds : x ≤ w.bank.bal token (.contract .vault)) :
    ∃ w', Amm.payLpFees ctx w (wired token) m lp x = .ok w' ∧ w'.tokens = w.tokens ∧
      w'.vault.roles = w.vault.roles ∧ w'.bank.bal token lp = w.bank.bal token lp + x := by
  obtain ⟨market, hstored, hcollateral⟩ := hmarket
  by_cases hpos : 0 < x
  · obtain ⟨b, hb⟩ : ∃ b, w.bank.transfer token (.contract .vault) lp x = .ok b :=
      Bank.transfer_of_held hx hfunds
    have hfits := hw.feesFit m
    have hrange : InRange ((w.vault.accounting m).lpFees - x) := by
      unfold booked at hbooked hfits
      exact inRange_of_le (by omega) (by omega) hfits
    have hvault : Address.contract .vault ∉ Address.contract .amm :: ctx.callers := by
      simp [hctx.2.1.2]
    have hregistry : Address.contract .registry ∉
        Address.contract .vault :: .contract .amm :: ctx.callers := by
      simp [hcallers]
    refine ⟨{ w with
      vault := { w.vault with accounting :=
        w.vault.accounting.set m (Vault.lpPaidBy (w.vault.accounting m) x) }
      bank := b }, ?_, rfl, rfl, ?_⟩
    · unfold Amm.payLpFees
      rw [if_pos hpos]
      refine bind_ok.mpr ⟨_, Ctx.call_ok.mpr ⟨rfl, hvault, rfl⟩, ?_⟩
      refine bind_ok.mpr ⟨(), requireRole_ok.mpr ⟨_, ht.ammRole, Or.inr rfl⟩, ?_⟩
      refine bind_ok.mpr ⟨(), refuse_ok.mpr (by omega), ?_⟩
      refine bind_ok.mpr ⟨(), bind_ok.mpr ⟨market, ?_, refuse_ok.mpr ?_⟩, ?_⟩
      · refine bind_ok.mpr ⟨_, readRole_ok.mpr hw.registryRole, ?_⟩
        exact bind_ok.mpr ⟨_, Ctx.call_ok.mpr ⟨rfl, hregistry, rfl⟩,
          Registry.getMarket_ok.mpr hstored⟩
      · rw [hcollateral]
        exact not_not.mpr rfl
      · refine bind_ok.mpr ⟨(), refuse_ok.mpr (not_lt.mpr hbooked), ?_⟩
        refine bind_ok.mpr ⟨_, checkedSub_ok.mpr ⟨rfl, hrange⟩, ?_⟩
        exact transferToken_ok.mpr ⟨Or.inr rfl, b, hb, rfl⟩
    · dsimp only
      rw [Bank.transfer_bal hb, if_neg (fun h => hne h.2), if_pos ⟨rfl, rfl⟩, sub_zero]
  · obtain rfl : x = 0 := by omega
    refine ⟨w, ?_, rfl, rfl, (add_zero _).symm⟩
    unfold Amm.payLpFees
    rw [if_neg hpos]

/-- What a provider is owed before it withdraws. -/
def pendingOf (w : World) (i : ℕ) (lp : Address) (pool : PoolData) : ℤ :=
  owedOf pool (w.amm.lpFeeCheckpoint (i, lp)) (w.amm.lpBalance (i, lp))

/-- What a provider gets for shares of a pool: its part of one reserve. -/
def shareOf (pool : PoolData) (o : Bool) (shares : ℤ) : ℤ :=
  proportionOf (reserveOf pool o) shares pool.totalLpShares

/-- The withdrawal succeeds and gives the provider its part of both reserves and
its pending fees. -/
def Exits (ctx : Ctx) (w : World) (lp : Address) (i : ℕ) (pool : PoolData) (shares : ℤ) : Prop :=
  ∃ w', Amm.removeLiquidity ctx w lp i shares =
      .ok (shareOf pool true shares, shareOf pool false shares, w') ∧
    (∀ o, w'.tokens.balance (pool.marketId, lp, Amm.outcomeOf o) =
      w.tokens.balance (pool.marketId, lp, Amm.outcomeOf o) + shareOf pool o shares) ∧
    ∀ token, w.amm.collateral = some token →
      w'.bank.bal token lp = w.bank.bal token lp + pendingOf w i lp pool

/-- What a provider brings to a withdrawal: the market lets liquidity go, the
shares are the provider's, and no product overflows. -/
structure MayExit (ctx : Ctx) (w : World) (lp : Address) (i : ℕ) (pool : PoolData) (shares : ℤ) :
    Prop where
  outside : FromOutside ctx
  auth : requireAuth ctx lp = .ok ()
  stored : w.amm.pool i = some pool
  removable : Amm.requireMarketLiquidityRemovable ctx w pool.marketId = .ok ()
  pos : 0 < shares
  owned : shares ≤ w.amm.lpBalance (i, lp)
  fits : ∀ o, InRange (reserveOf pool o * shares)
  feesFit : InRange (w.amm.lpBalance (i, lp) *
    (pool.feePerShareScaled - w.amm.lpFeeCheckpoint (i, lp)))

/-- The market maker asks the registry, so the registry is not on the stack. -/
theorem removable_callers {ctx : Ctx} {w : World} {m : MarketId} {u : Unit}
    (h : Amm.requireMarketLiquidityRemovable ctx w m = .ok u) :
    Address.contract .registry ∉ ctx.callers := by
  obtain ⟨market, h, _⟩ := bind_ok.mp h
  obtain ⟨registry, _, h⟩ := bind_ok.mp h
  obtain ⟨called, hcall, _⟩ := bind_ok.mp h
  obtain ⟨rfl, hfree, _⟩ := Ctx.call_ok.mp hcall
  intro hk
  exact hfree (List.mem_cons_of_mem _ hk)

/-- Stored modules are the ones that are read. -/
theorem modules_ok {a : AmmState} {m : Amm.Modules} (h : Amm.modules a = .ok m) :
    a.registry = some m.registry ∧ a.collateral = some m.collateral := by
  obtain ⟨vault, _, h⟩ := bind_ok.mp h
  obtain ⟨tokens, _, h⟩ := bind_ok.mp h
  obtain ⟨collateral, hcollateral, h⟩ := bind_ok.mp h
  obtain ⟨registry, hregistry, h⟩ := bind_ok.mp h
  obtain rfl := pure_ok.mp h
  exact ⟨orFault_ok.mp hregistry, orFault_ok.mp hcollateral⟩

/-- Fees that were paid came out of the vault, in the collateral of the market. -/
theorem payLpFees_funds {ctx : Ctx} {w w' : World} {m : Amm.Modules} {p : MarketId} {lp : Address}
    {x : ℤ} (hx : 0 < x) (h : Amm.payLpFees ctx w m p lp x = .ok w') :
    (∃ market, w.registry.market p = some market ∧ m.collateral = market.collateral) ∧
      x ≤ w.bank.bal m.collateral (.contract .vault) := by
  unfold Amm.payLpFees at h
  rw [if_pos hx] at h
  obtain ⟨called, _, h⟩ := bind_ok.mp h
  obtain ⟨_, _, h⟩ := bind_ok.mp h
  obtain ⟨_, _, h⟩ := bind_ok.mp h
  obtain ⟨_, hmarket, h⟩ := bind_ok.mp h
  obtain ⟨_, _, h⟩ := bind_ok.mp h
  obtain ⟨_, _, h⟩ := bind_ok.mp h
  obtain ⟨_, b, hb, _⟩ := transferToken_ok.mp h
  exact ⟨Vault.requireMarketCollateral_ok hmarket, (Bank.transfer_ok.mp hb).2.1⟩

/-- A successful withdrawal moved two positive amounts, and its fees were paid
out of what the vault holds. -/
theorem exits_needs {ctx : Ctx} {w : World} {lp : Address} {i : ℕ} {pool : PoolData} {shares : ℤ}
    (hw : tradingSystem.Reachable w) (hmay : MayExit ctx w lp i pool shares) {token : Asset}
    (htoken : w.amm.collateral = some token) (h : Exits ctx w lp i pool shares) :
    (∀ o, 0 < shareOf pool o shares) ∧
      pendingOf w i lp pool ≤ w.bank.bal token (.contract .vault) := by
  obtain ⟨w', h, _⟩ := h
  obtain ⟨pool', m, pending, w1, w2, _, _, hpool', _, _, hpending, _, _, h1, h2, h3⟩ :=
    Amm.removeLiquidity_writes h
  rw [hmay.stored] at hpool'
  obtain rfl := Option.some.inj hpool'
  have hyes := (Tokens.transferPosition_ok (Amm.transferPosition_ok h2)).2.1
  have hno := (Tokens.transferPosition_ok (Amm.transferPosition_ok h3)).2.1
  refine ⟨fun o => by cases o <;> assumption, ?_⟩
  have howed : pendingOf w i lp pool = pending := (computeLpFeesOwed_ok hpending).symm
  rw [howed]
  by_cases hpos : 0 < pending
  · obtain ⟨⟨market, hmarket, hcollateral⟩, hfunds⟩ := payLpFees_funds hpos h1
    obtain ⟨collateral, hmods, hhoused⟩ := (reachable_open hw).housed
    obtain ⟨market', hmarket', hcollateral'⟩ := (hhoused i pool hmay.stored (by omega)).market
    have hsame : some market = some market' := hmarket.symm.trans hmarket'
    have htoken' : some token = some collateral := htoken.symm.trans (modules_ok hmods).2
    rw [hcollateral, Option.some.inj hsame, hcollateral', ← Option.some.inj htoken'] at hfunds
    exact hfunds
  · have hbank := w.bank.nonneg (token, .contract .vault)
    unfold Bank.bal
    omega

/-- A withdrawal with two positive amounts and funded fees succeeds. -/
theorem exits_of_positive {ctx : Ctx} {w : World} {lp : Address} {i : ℕ} {pool : PoolData}
    {shares : ℤ} (hw : tradingSystem.Reachable w) (hmay : MayExit ctx w lp i pool shares)
    {token : Asset} (htoken : w.amm.collateral = some token)
    (hpos : ∀ o, 0 < shareOf pool o shares)
    (hfunds : pendingOf w i lp pool ≤ w.bank.bal token (.contract .vault)) :
    Exits ctx w lp i pool shares := by
  have ht := reachable_invariant hw
  have hst := reachable_stocked hw
  obtain ⟨hs, hcovered⟩ := reachable_feesCovered hw
  obtain ⟨hfurnished, collateral, hmods, hhoused⟩ := reachable_open hw
  obtain rfl : collateral = token := Option.some.inj ((modules_ok hmods).2.symm.trans htoken)
  have hcallers := removable_callers hmay.removable
  have hlp : lp ≠ .contract .amm := hmay.outside.1.ne_of_auth hmay.auth
  have hlpVault : lp ≠ .contract .vault := hmay.outside.2.1.ne_of_auth hmay.auth
  have hheld := hmay.owned
  have hshares := hmay.pos
  have htotal := hs.shares_le hmay.stored lp
  have hhouse := hhoused i pool hmay.stored (by omega)
  have hwidth := hhouse.sharesFit
  -- the fees owed were booked
  have howed := computeLpFeesOwed_of_fits hs hmay.stored (by omega) hmay.feesFit
  obtain ⟨howed0, _⟩ := hs.owed_bounds hmay.stored howed
  have hbooked : pendingOf w i lp pool ≤ booked w pool.marketId := by
    have hsum : ∑ _a ∈ ({lp} : Finset Address), pendingOf w i lp pool ≤ booked w pool.marketId := by
      refine hcovered.sum_owed_le hs hmay.stored ?_
      intro a ha
      rw [Finset.mem_singleton.mp ha]
      exact howed
    rw [Finset.sum_singleton] at hsum
    exact hsum
  -- both reserves can spare their parts
  have hbounds : ∀ o, shareOf pool o shares ≤ reserveOf pool o ∧
      InRange (reserveOf pool o - shareOf pool o shares) := by
    intro o
    have hreserve := hst.nonneg i pool hmay.stored o
    have hproduct := le_mul_of_one_le_right hreserve (show (1 : ℤ) ≤ shares by omega)
    have hmax := (hmay.fits o).2
    have hle : shareOf pool o shares ≤ reserveOf pool o :=
      (proportionOf_bounds hreserve hshares (by omega)).2
    have hout := hpos o
    exact ⟨hle, inRange_of_le (by omega) (show _ ≤ reserveOf pool o by omega) (by omega)⟩
  -- the fees are paid, and then the two parts are moved
  have ht0 := ht.withAmm (Amm.writeLp (Amm.writePool w.amm { pool with
    yesReserve := pool.yesReserve - shareOf pool true shares
    noReserve := pool.noReserve - shareOf pool false shares
    totalLpShares := pool.totalLpShares - shares }) i lp (w.amm.lpBalance (i, lp) - shares)
    pool.feePerShareScaled)
  obtain ⟨w1, h1, htokens, hroles, hbank⟩ := payLpFees_of_booked hmay.outside ht0
    { hfurnished with } hcallers hhouse.market hlpVault howed0 hbooked hfunds
  have ht1 := ht0.payLpFees h1
  have hrole1 : w1.vault.roles .tokens = some (.contract .tokens) := by
    rw [hroles]
    exact hfurnished.tokensRole
  obtain ⟨burned, hsupplied⟩ := hfurnished.supplied
  rw [← htokens] at hsupplied
  have hbacking : ∀ m, w1.tokens.backing m ≤ i128Max := by
    rw [htokens]
    exact hfurnished.backingFits
  have hheld1 : ∀ o, shareOf pool o shares ≤
      w1.tokens.balance (pool.marketId, .contract .amm, Amm.outcomeOf o) := by
    intro o
    rw [htokens]
    exact (hbounds o).1.trans (hst.reserve_le hmay.stored o)
  obtain ⟨w2, t, h2, h3, hbalance⟩ :=
    transferBoth_of_held hmay.outside ht1 hrole1 hsupplied hbacking
    hlp collateral hpos hheld1
  refine ⟨{ w1 with tokens := t }, ?_, ?_, ?_⟩
  · refine bind_ok.mpr ⟨(), hmay.auth, ?_⟩
    refine bind_ok.mpr ⟨(), refuse_ok.mpr (by omega), ?_⟩
    refine bind_ok.mpr ⟨_, hmods, ?_⟩
    refine bind_ok.mpr ⟨_, orFault_ok.mpr hmay.stored, ?_⟩
    refine bind_ok.mpr ⟨(), hmay.removable, ?_⟩
    refine bind_ok.mpr ⟨(), refuse_ok.mpr (by omega), ?_⟩
    refine bind_ok.mpr ⟨_, howed, ?_⟩
    refine bind_ok.mpr ⟨_, proportional_of_fits (hst.nonneg i pool hmay.stored true) hshares
      (by omega) (hmay.fits true), ?_⟩
    refine bind_ok.mpr ⟨_, proportional_of_fits (hst.nonneg i pool hmay.stored false) hshares
      (by omega) (hmay.fits false), ?_⟩
    refine bind_ok.mpr ⟨_, checkedSub_ok.mpr ⟨rfl, (hbounds true).2⟩, ?_⟩
    refine bind_ok.mpr ⟨_, checkedSub_ok.mpr ⟨rfl, (hbounds false).2⟩, ?_⟩
    refine bind_ok.mpr ⟨_, checkedSub_ok.mpr ⟨rfl, inRange_of_le (by omega)
      (show _ ≤ pool.totalLpShares by omega) hwidth⟩, ?_⟩
    refine bind_ok.mpr ⟨_, checkedSub_ok.mpr ⟨rfl, inRange_of_le (by omega)
      (show _ ≤ pool.totalLpShares by omega) hwidth⟩, ?_⟩
    refine bind_ok.mpr ⟨_, h1, ?_⟩
    refine bind_ok.mpr ⟨_, h2, ?_⟩
    exact bind_ok.mpr ⟨_, h3, rfl⟩
  · rw [htokens] at hbalance
    exact hbalance
  · intro token htaken
    obtain rfl : collateral = token := Option.some.inj (htoken.symm.trans htaken)
    exact hbank

/-- The way out: a provider who may withdraw gets its part of both reserves and
its fees exactly when both parts are positive and the vault holds the fees. -/
theorem exits_iff {ctx : Ctx} {w : World} {lp : Address} {i : ℕ} {pool : PoolData} {shares : ℤ}
    (hw : tradingSystem.Reachable w) (hmay : MayExit ctx w lp i pool shares) {token : Asset}
    (htoken : w.amm.collateral = some token) :
    Exits ctx w lp i pool shares ↔ (∀ o, 0 < shareOf pool o shares) ∧
      pendingOf w i lp pool ≤ w.bank.bal token (.contract .vault) := by
  constructor
  · intro h
    exact exits_needs hw hmay htoken h
  · rintro ⟨hpos, hfunds⟩
    exact exits_of_positive hw hmay htoken hpos hfunds

/-- What a run shows of bob's withdrawal of 100 shares from pool 1. -/
def BobMayExit (w : World) (p : PoolData) : Prop :=
  okWith (Amm.requireMarketLiquidityRemovable (bySigner bob) w p.marketId) (fun _ => true) = true ∧
    100 ≤ w.amm.lpBalance (1, bob) ∧ (∀ o, InRange (reserveOf p o * 100)) ∧
    InRange (w.amm.lpBalance (1, bob) * (p.feePerShareScaled - w.amm.lpFeeCheckpoint (1, bob)))

instance (w : World) (p : PoolData) : Decidable (BobMayExit w p) :=
  inferInstanceAs (Decidable (_ ∧ _ ∧ _ ∧ _))

/-- What the run shows is what a withdrawal asks for. -/
theorem BobMayExit.mayExit {w : World} {p : PoolData} (h : BobMayExit w p)
    (hpool : w.amm.pool 1 = some p) : MayExit (bySigner bob) w bob 1 p 100 := by
  obtain ⟨hremovable, howned, hfits, hfees⟩ := h
  obtain ⟨_, hremovable, _⟩ := okWith_iff.mp hremovable
  exact ⟨by decide, rfl, hpool, hremovable, by decide, howned, hfits, hfees⟩

/-- Bob adds a little liquidity to market 1, and alice buys for this amount. -/
def buyAfterBob (amount : ℤ) : List TradeStep :=
  openMarket 1 5000 ++
    [.call (bySigner bob) (.amm (.addLiquidity bob 1 100)),
      .call (bySigner alice) (.amm (.buyYes alice 1 amount 0 1))]

/-- After a small purchase bob gets out with both tokens and fees. -/
theorem exits_after_smallPurchase : ∃ w p,
    tradingSystem.runs (deploy sampleLaunch) (buyAfterBob 3000) = .ok w ∧
      w.amm.pool 1 = some p ∧ Exits (bySigner bob) w bob 1 p 100 := by
  obtain ⟨w, hw, hlast⟩ := System.runs_of_decide (S := tradingSystem) (deploy sampleLaunch)
    (buyAfterBob 3000) (fun w => w.amm.collateral = some sampleToken ∧ ∃ p ∈ w.amm.pool 1,
      BobMayExit w p ∧ (∀ o, 0 < shareOf p o 100) ∧
        pendingOf w 1 bob p ≤ w.bank.bal sampleToken (.contract .vault)) (by decide +kernel)
  obtain ⟨htoken, p, hpool, hmay, hneeds⟩ := of_decide_eq_true hlast
  have hreach := System.Reachable.runs (.init sample_init) (buyAfterBob 3000) hw
  exact ⟨w, p, hw, hpool, (exits_iff hreach (hmay.mayExit hpool) htoken).mpr hneeds⟩

/-- A purchase that leaves few tokens of one outcome locks bob's shares in. -/
theorem not_always_exits : ¬∀ (ctx : Ctx) (w : World) (lp : Address) (i : ℕ) (pool : PoolData)
    (shares : ℤ), tradingSystem.Reachable w → MayExit ctx w lp i pool shares →
      Exits ctx w lp i pool shares := by
  intro h
  obtain ⟨w, hw, hlast⟩ := System.runs_of_decide (S := tradingSystem) (deploy sampleLaunch)
    (buyAfterBob 990000) (fun w => w.amm.collateral = some sampleToken ∧ ∃ p ∈ w.amm.pool 1,
      BobMayExit w p ∧ ¬0 < shareOf p true 100 ∧ 0 < shareOf p false 100 ∧ 0 < pendingOf w 1 bob p)
    (by decide +kernel)
  obtain ⟨htoken, p, hpool, hmay, hzero, _⟩ := of_decide_eq_true hlast
  have hreach := System.Reachable.runs (.init sample_init) (buyAfterBob 990000) hw
  have hexits := h _ w bob 1 p 100 hreach (hmay.mayExit hpool)
  exact hzero ((exits_needs hreach (hmay.mayExit hpool) htoken hexits).1 true)

end DikeProtocol.Trading
