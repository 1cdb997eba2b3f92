import DikeProtocol.Vault.Bonds
import DikeProtocol.Vault.Steps

/-!
# Debts that only fall

Opening child credit is the only way into debt: settlements, defaults,
withheld claims, sales, liquidations and redemptions raise no debt of anyone.
-/

namespace DikeProtocol.Vault

open Lib

/-- No debt of the first vault is larger in the second. -/
structure NoNewDebt (v v' : VaultState) : Prop where
  childDebt : ∀ k, v'.childDebt k ≤ v.childDebt k
  parentDebt : ∀ k, v'.parentDebt k ≤ v.parentDebt k

namespace NoNewDebt

variable {v v' v'' : VaultState}

/-- Doing nothing raises no debt. -/
theorem refl (v : VaultState) : NoNewDebt v v := ⟨fun _ => le_rfl, fun _ => le_rfl⟩

/-- One step after another raises no debt when neither does. -/
theorem trans (h : NoNewDebt v v') (h' : NoNewDebt v' v'') : NoNewDebt v v'' :=
  ⟨fun k => (h'.childDebt k).trans (h.childDebt k),
    fun k => (h'.parentDebt k).trans (h.parentDebt k)⟩

/-- Keeping both records raises no debt. -/
theorem of_eq (hc : v'.childDebt = v.childDebt) (hp : v'.parentDebt = v.parentDebt) :
    NoNewDebt v v' := by
  refine ⟨fun k => ?_, fun k => ?_⟩
  · rw [hc]
  · rw [hp]

/-- A settlement raises no debt. -/
theorem settleChildDebt (hv : Sane v) {c : MarketId} {u : Address} {r x : ℤ}
    (h : settleChildDebt v c u r = .ok (x, v')) : NoNewDebt v v' := by
  refine ⟨?_, hv.settleChildDebt_parentDebt_le h⟩
  have hx := hv.settled_bounds h
  have hdebt := hv.childDebt_nonneg (c, u)
  obtain ⟨_, rfl, _⟩ | ⟨_, rfl, _, _⟩ | ⟨_, _, _, rfl⟩ | ⟨_, _, _, _, rfl⟩ :=
    settleChildDebt_cases h
  · exact fun _ => le_rfl
  · exact set_le hdebt
  · exact set_le (by omega)
  · exact set_le (by omega)

/-- Paying down the children of a stake raises no debt. -/
theorem settleChildren (children : List MarketId) (hv : Sane v) {u : Address}
    {pool pool' paid paid' : ℤ}
    (h : settleChildren v u pool paid children = .ok (pool', paid', v')) : NoNewDebt v v' := by
  refine (settleChildren_keeps (I := fun s => Sane s ∧ NoNewDebt v s) ?_ children h
    ⟨hv, refl v⟩).2
  rintro _ _ _ _ _ h1 ⟨hs, hfall⟩
  exact ⟨hs.settleChildDebt h1, hfall.trans (settleChildDebt hs h1)⟩

/-- Clearing defaulted debt raises no child debt. -/
theorem clearChildDebts (children : List MarketId) (hv : ∀ k, 0 ≤ v.childDebt k) {p : MarketId}
    {u : Address} {o : Outcome} {remaining : ℤ} (hr : 0 ≤ remaining)
    (h : clearChildDebts v p u o remaining children = .ok v') : NoNewDebt v v' := by
  induction children generalizing v remaining with
  | nil =>
    rw [← ok_ok.mp h]
    exact refl _
  | cons child children ih =>
    unfold Vault.clearChildDebts at h
    dsimp only at h
    split at h
    · rw [← ok_ok.mp h]
      exact refl _
    · split at h
      · exact ih hv hr h
      · obtain ⟨left, hleft, h⟩ := bind_ok.mp h
        obtain ⟨v1, h1, h⟩ := bind_ok.mp h
        obtain ⟨rest, hrest, h⟩ := bind_ok.mp h
        have hleft' := (checkedSub_ok.mp hleft).1
        have hrest' := (checkedSub_ok.mp hrest).1
        have howed := hv (child, u)
        have hbounds : 0 ≤ left ∧ left ≤ v.childDebt (child, u) ∧ 0 ≤ rest := by
          split at hleft' <;> split at hrest' <;> omega
        have hfirst : NoNewDebt v v1 := by
          rw [releaseChildUsed_ok h1]
          exact ⟨set_le hbounds.2.1, fun _ => le_rfl⟩
        have hnonneg : ∀ k, 0 ≤ v1.childDebt k := by
          rw [releaseChildUsed_ok h1]
          exact nonneg_set hv hbounds.1
        exact hfirst.trans (ih hnonneg hbounds.2.2 h)

/-- A default raises no debt. -/
theorem resolveParentDefault (hv : Sane v) {p : MarketId} {u : Address} {o : Outcome} {x : ℤ}
    (h : resolveParentDefault v p u o x = .ok v') : NoNewDebt v v' := by
  unfold Vault.resolveParentDefault at h
  split at h
  · rw [← ok_ok.mp h]
    exact refl _
  · obtain ⟨_, _, h⟩ := bind_ok.mp h
    obtain ⟨_, _, h⟩ := bind_ok.mp h
    obtain ⟨⟨reserve, parent⟩, _, h⟩ := bind_ok.mp h
    obtain ⟨_, _, h⟩ := bind_ok.mp h
    dsimp only at h
    have hx : 0 ≤ x := by omega
    have hclear := clearChildDebts _ (by exact hv.childDebt_nonneg) hx h
    exact ⟨hclear.childDebt, fun k =>
      (hclear.parentDebt k).trans (set_le (hv.parentDebt_nonneg _) k)⟩

/-- Settling upstream raises no debt. -/
theorem repayUpstream (hv : Sane v) {m : MarketId} {u : Address} {claim x : ℤ}
    (h : repayUpstream v m u claim = .ok (x, v')) : NoNewDebt v v' := by
  unfold Vault.repayUpstream at h
  obtain ⟨⟨x1, v1⟩, h1, h⟩ := bind_ok.mp h
  have hsettle := settleChildDebt hv h1
  dsimp only at h
  split at h
  · obtain ⟨a, _, h⟩ := bind_ok.mp h
    obtain ⟨_, rfl⟩ := Prod.mk.inj (pure_ok.mp h)
    exact hsettle.trans (of_eq rfl rfl)
  · obtain ⟨_, rfl⟩ := Prod.mk.inj (pure_ok.mp h)
    exact hsettle

/-- Withholding a claim raises no debt. -/
theorem withholdParentDebt (hv : Sane v) {m : MarketId} {u : Address} {o : Outcome}
    {c claim x : ℤ} (hclaim : 0 ≤ claim) (hc : c = 0 → claim = 0)
    (h : withholdParentDebt v m u o c claim = .ok (x, v')) : NoNewDebt v v' := by
  obtain ⟨_, _, rfl⟩ | ⟨_, hx, _, _, rfl⟩ | ⟨_, _, _, _, rfl⟩ | ⟨_, _, _, hd⟩ :=
    withholdParentDebt_cases h hclaim hc
  · exact refl _
  · exact ⟨fun _ => le_rfl, set_le (by omega)⟩
  · exact ⟨fun _ => le_rfl, set_le le_rfl⟩
  · have hself : NoNewDebt v { v with
        parentDebt := v.parentDebt.set (m, u, o) (v.parentDebt (m, u, o)) } :=
      ⟨fun _ => le_rfl, set_le le_rfl⟩
    exact hself.trans (resolveParentDefault (hv.withParentDebt_self _) hd)

/-- The debts of a redemption in a resolved market only fall. -/
theorem settleResolved (hv : Sane v) {m : MarketId} {u : Address} {final o : Outcome}
    {amount gross payout : ℤ} (hpos : 0 < amount)
    (h : settleResolved v m u final o amount = .ok (gross, payout, v')) : NoNewDebt v v' := by
  unfold Vault.settleResolved at h
  obtain ⟨⟨x, v1⟩, hgross, h⟩ := bind_ok.mp h
  obtain ⟨v2, hadd, h⟩ := bind_ok.mp h
  obtain ⟨⟨paid, v3⟩, hup, h⟩ := bind_ok.mp h
  obtain ⟨claim, hclaim, h⟩ := bind_ok.mp h
  obtain ⟨⟨withheld, v4⟩, hwith, h⟩ := bind_ok.mp h
  obtain ⟨_, _, h⟩ := bind_ok.mp h
  obtain ⟨_, _, h⟩ := bind_ok.mp h
  obtain ⟨_, hrest⟩ := Prod.mk.inj (pure_ok.mp h)
  obtain ⟨_, rfl⟩ := Prod.mk.inj hrest
  have hclaim' := (checkedSub_ok.mp hclaim).1
  obtain ⟨_, hx0, hv1, carry, rfl⟩ := hv.grossPayout hpos hgross
  unfold addRedeemed at hadd
  obtain ⟨r, _, hadd⟩ := bind_ok.mp hadd
  obtain rfl := pure_ok.mp hadd
  have hv2 : Sane { v with invalidDustCarry := carry, redeemed := r } := { hv1 with }
  obtain ⟨hpaid, hpaid0, hv3, _⟩ := hv2.repayUpstream hx0 hup
  have hupstream := repayUpstream hv2 hup
  have hwithheld := withholdParentDebt hv3 (by omega) (by omega) hwith
  have hboth := hupstream.trans hwithheld
  exact ⟨hboth.childDebt, hboth.parentDebt⟩

/-- Retiring a claim raises no debt. -/
theorem retireClaim {m : MarketId} {u : Address} {o : Outcome} {x : ℤ}
    (h : retireClaim v m u o x = .ok v') : NoNewDebt v v' := by
  unfold Vault.retireClaim at h
  split at h
  · obtain ⟨d, _, h⟩ := bind_ok.mp h
    obtain ⟨s, _, h⟩ := bind_ok.mp h
    rw [← pure_ok.mp h]
    exact of_eq rfl rfl
  · rw [← ok_ok.mp h]
    exact refl _

end NoNewDebt

/-- Booking and paying a redemption touches no debt. -/
theorem payRedemption_debts {ctx : Ctx} {w w' : World} {token : Asset} {user : Address}
    {m : MarketId} {x : ℤ} (h : payRedemption ctx w token user m x = .ok w') :
    NoNewDebt w.vault w'.vault ∧ w'.tokens = w.tokens := by
  unfold payRedemption at h
  split at h
  · obtain ⟨redeemed, _, h⟩ := bind_ok.mp h
    obtain ⟨refundable, _, h⟩ := bind_ok.mp h
    obtain ⟨_, b, _, rfl⟩ := transferToken_ok.mp h
    exact ⟨.of_eq rfl rfl, rfl⟩
  · rw [← ok_ok.mp h]
    exact ⟨.refl _, rfl⟩

/-- A redemption in a resolved market raises no debt; it burns the tokens of the
redeemer in a market with a final outcome. -/
theorem redeemResolved_debts {ctx : Ctx} {w w' : World} {token : Asset} {user : Address}
    {m : MarketId} {o : Outcome} {amount y : ℤ} (hv : Sane w.vault)
    (h : redeemResolved ctx w token user m o amount = .ok (y, w')) :
    NoNewDebt w.vault w'.vault ∧
      (∃ market, w.registry.market m = some market ∧ market.hasFinalOutcome = true) ∧
      ∃ called, Tokens.burnForRedeem called w.tokens user m o amount = .ok w'.tokens := by
  obtain ⟨hpos, market, gross, v1, t, v2, called, hm, _, hhas, hsettle, hburn, hretire, hpay⟩ :=
    redeemResolved_steps h
  have hsettled := NoNewDebt.settleResolved hv (by omega) hsettle
  have hretired := NoNewDebt.retireClaim hretire
  obtain ⟨hpaid, htokens⟩ := payRedemption_debts hpay
  refine ⟨(hsettled.trans hretired).trans hpaid, ⟨market, hm, hhas⟩, called, ?_⟩
  rw [htokens]
  exact hburn

/-- A redemption in a cancelled market raises no debt; it burns the tokens of
the redeemer there. -/
theorem redeemCancelled_debts {ctx : Ctx} {w w' : World} {token : Asset} {user : Address}
    {m : MarketId} {o : Outcome} {amount y : ℤ} (hv : Sane w.vault)
    (h : redeemCancelled ctx w token user m o amount = .ok (y, w')) :
    NoNewDebt w.vault w'.vault ∧
      (∃ market, w.registry.market m = some market ∧ market.status = .cancelled) ∧
      ∃ called, Tokens.burnForRedeem called w.tokens user m o amount = .ok w'.tokens := by
  obtain ⟨hpos, market, t, v1, called, hm, hstatus, _, hburn, hsettle, hpay⟩ :=
    redeemCancelled_steps h
  obtain ⟨gross, v2, withheld, hrefund, hwith, _⟩ := settleCancelled_steps hsettle
  have hcarry := hv.carry m
  obtain ⟨hgross, rfl, hv2⟩ := hv.refundWithCarry (by omega) hrefund
  have hwithheld := NoNewDebt.withholdParentDebt hv2 (by omega) (fun hk => hk) hwith
  obtain ⟨hpaid, htokens⟩ := payRedemption_debts hpay
  have hdebts : NoNewDebt w.vault v1 := ⟨hwithheld.childDebt, hwithheld.parentDebt⟩
  refine ⟨hdebts.trans hpaid, ⟨market, hm, hstatus⟩, called, ?_⟩
  rw [htokens]
  exact hburn

/-- A voluntary repayment raises no debt. -/
theorem repayChildCollateral_debts {ctx : Ctx} {w w' : World} {token : Asset} {user : Address}
    {m : MarketId} {x y : ℤ} (hv : Sane w.vault)
    (h : repayChildCollateral ctx w token user m x = .ok (y, w')) : NoNewDebt w.vault w'.vault := by
  obtain ⟨_, _, v, b, hsettle, rfl⟩ := repayChildCollateral_steps h
  exact NoNewDebt.settleChildDebt hv hsettle

/-- What a liquidation of a parent position leaves: no new debt, and none at
all on the liquidated stake. -/
theorem liquidateRelease_debts {ctx : Ctx} {w w' : World} {token : Asset} {user keeper : Address}
    {p : MarketId} {o : Outcome} {sold x y : ℤ} (hv : Sane w.vault)
    (h : liquidateRelease ctx w token user keeper p o sold x = .ok (y, w')) :
    NoNewDebt w.vault w'.vault ∧ w'.vault.parentDebt (p, user, o) ≤ 0 := by
  obtain ⟨_, hx, _, _, v1, remainder, v2, v3, b, hout, hsettle, hdef, rfl⟩ :=
    liquidateRelease_steps h
  have hv1 := hv.extractProceeds hout
  have hsame := extractProceeds_debts hout
  obtain ⟨hv2, _, _, _⟩ := Sane.settleChildren _ hv1 (pool_pos hx).le hsettle
  have hsettled : NoNewDebt w.vault v2 :=
    (NoNewDebt.of_eq hsame.childDebt hsame.parentDebt).trans (.settleChildren _ hv1 hsettle)
  refine ⟨hsettled.trans (.resolveParentDefault hv2 hdef), ?_⟩
  dsimp only
  by_cases hlost : 0 < v2.childUsedByOutcome (p, user, o)
  · obtain ⟨_, _, _, rfl, _⟩ := resolveParentDefault_ok hlost hv2.reserve_nonneg hdef
    rw [Store.set_get_self]
  · unfold resolveParentDefault at hdef
    rw [if_pos (not_lt.mp hlost)] at hdef
    obtain rfl := ok_ok.mp hdef
    exact (hv2.parentDebt_le_used (p, user, o)).trans (not_lt.mp hlost)

/-- A liquidation of a child position raises no debt. -/
theorem liquidateChildRelease_debts {ctx : Ctx} {w w' : World} {token : Asset}
    {user keeper : Address} {c : MarketId} {o : Outcome} {sold x y : ℤ} (hv : Sane w.vault)
    (h : liquidateChildRelease ctx w token user keeper c o sold x = .ok (y, w')) :
    NoNewDebt w.vault w'.vault := by
  obtain ⟨_, _, _, _, v1, v2, v3, b, hout, hsettle, hdef, rfl⟩ := liquidateChildRelease_steps h
  have hv1 := hv.extractProceeds hout
  have hsame := extractProceeds_debts hout
  have hsettled : NoNewDebt w.vault v2 :=
    (NoNewDebt.of_eq hsame.childDebt hsame.parentDebt).trans (.settleChildDebt hv1 hsettle)
  split at hdef
  · exact hsettled.trans (.resolveParentDefault (hv1.settleChildDebt hsettle) hdef)
  · obtain rfl := ok_ok.mp hdef
    exact hsettled

/-- An invocation that touches the vault and balances only, keeps the vault sane
and wired as it was, and raises no debt. -/
structure Calm (w w' : World) : Prop where
  shape : ∃ v b, w' = { w with vault := v, bank := b }
  sane : Sane w'.vault
  roles : w'.vault.roles = w.vault.roles
  debts : NoNewDebt w.vault w'.vault

/-- The gauge that reads nothing. -/
def nullGauge : Gauge where
  backing := fun _ => 0
  issued := fun _ => 0
  repaid := fun _ => 0
  defaulted := fun _ => 0
  shortfall := fun _ => 0
  redeemed := fun _ => 0
  protocolFees := fun _ => 0
  lpFees := fun _ => 0
  codFees := fun _ => 0
  proposalBonds := fun _ => 0
  disputeBonds := fun _ => 0
  debt := fun _ => 0
  reserve := 0

/-- Reading nothing is even. -/
theorem nullGauge_even : nullGauge.Even 0 := by
  intro m
  rfl

section Calm

variable {ctx : Ctx} {w w' : World} {token : Asset} {user : Address} {m : MarketId} {x y : ℤ}

/-- A deposit is calm. -/
theorem depositForMarket_calm (hctx : Outside .vault ctx) (hv : Sane w.vault)
    (h : depositForMarket ctx w token user m x = .ok w') : Calm w w' := by
  obtain ⟨v, b, hw, hsane, hframe, _⟩ := depositForMarket_flow (g := nullGauge) hctx hv h
  obtain ⟨_, _, _, v1, _, hdep, hbooks⟩ := depositForMarket_steps h
  have hdebts : NoNewDebt w.vault w'.vault := by
    rw [hbooks, recordDeposit_ok hdep]
    exact .of_eq rfl rfl
  rw [hw] at hdebts ⊢
  exact ⟨⟨v, b, rfl⟩, hsane, hframe.roles, hdebts⟩

/-- Recording a stake is calm. -/
theorem recordCashStake_calm {o : Outcome} (hv : Sane w.vault)
    (h : recordCashStake ctx w user m o x y = .ok w') : Calm w w' := by
  obtain ⟨rootStake, rfl⟩ := recordCashStake_flow h
  exact ⟨⟨_, w.bank, rfl⟩, { hv with }, rfl, .of_eq rfl rfl⟩

/-- A sale is calm. -/
theorem releaseTradePayout_calm {o : Outcome} (hv : Sane w.vault)
    (h : releaseTradePayout ctx w token user m o y x = .ok w') : Calm w w' := by
  obtain ⟨_, _, _, _, _, v, b, hout, rfl⟩ := releaseTradePayout_steps h
  have hsame := extractProceeds_debts hout
  have hdebts : NoNewDebt w.vault v := .of_eq hsame.childDebt hsame.parentDebt
  exact ⟨⟨v, b, rfl⟩, hv.extractProceeds hout, (Frame.extractProceeds hout).roles, hdebts⟩

/-- A liquidation of a parent position is calm. -/
theorem liquidateRelease_calm {keeper : Address} {o : Outcome} {sold : ℤ} (hv : Sane w.vault)
    (h : liquidateRelease ctx w token user keeper m o sold x = .ok (y, w')) : Calm w w' := by
  have hdebts := (liquidateRelease_debts hv h).1
  obtain ⟨v, b, _, _, _, _, rfl, hsane, hframe, _⟩ :=
    liquidateRelease_flow (fun _ _ => nullGauge_even.at _ _ _) hv h
  exact ⟨⟨v, b, rfl⟩, hsane, hframe.roles, hdebts⟩

/-- A liquidation of a child position is calm. -/
theorem liquidateChildRelease_calm {keeper : Address} {o : Outcome} {sold : ℤ} (hv : Sane w.vault)
    (h : liquidateChildRelease ctx w token user keeper m o sold x = .ok (y, w')) : Calm w w' := by
  have hdebts := liquidateChildRelease_debts hv h
  obtain ⟨v, b, _, _, _, _, rfl, hsane, hframe, _⟩ :=
    liquidateChildRelease_flow (nullGauge_even.at _ _ _) hv h
  exact ⟨⟨v, b, rfl⟩, hsane, hframe.roles, hdebts⟩

/-- Booking fees is calm. -/
theorem collectFee_calm {lp protocol cod : ℤ} (hv : Sane w.vault)
    (h : collectFee ctx w m lp protocol cod = .ok w') : Calm w w' := by
  obtain ⟨v, hw, hsane, hframe, _⟩ := collectFee_flow (g := nullGauge) hv h
  obtain ⟨a, hbooks⟩ := collectFee_ok h
  have hdebts : NoNewDebt w.vault w'.vault := by
    rw [hbooks]
    exact .of_eq rfl rfl
  rw [hw] at hdebts ⊢
  exact ⟨⟨v, w.bank, rfl⟩, hsane, hframe.roles, hdebts⟩

/-- Paying liquidity fees is calm. -/
theorem claimLpFees_calm (hv : Sane w.vault)
    (h : claimLpFees ctx w token m user x = .ok w') : Calm w w' := by
  obtain ⟨v, b, hw, hsane, hframe, _⟩ := claimLpFees_flow (g := nullGauge) hv h
  obtain ⟨_, _, _, _, hpaid⟩ := claimLpFees_steps h
  have hdebts : NoNewDebt w.vault w'.vault := by
    rw [hpaid]
    exact .of_eq rfl rfl
  rw [hw] at hdebts ⊢
  exact ⟨⟨v, b, rfl⟩, hsane, hframe.roles, hdebts⟩

/-- A voluntary repayment is calm. -/
theorem repayChildCollateral_calm (hctx : Outside .vault ctx) (hv : Sane w.vault)
    (h : repayChildCollateral ctx w token user m x = .ok (y, w')) : Calm w w' := by
  have hdebts := repayChildCollateral_debts hv h
  obtain ⟨v, b, _, rfl, hsane, hframe, _⟩ :=
    repayChildCollateral_flow hctx (nullGauge_even.at _ _ _) hv h
  exact ⟨⟨v, b, rfl⟩, hsane, hframe.roles, hdebts⟩

/-- Locking a bond is calm. -/
theorem lockBond_calm {r : ℕ} {d : Bool} (hctx : Outside .vault ctx) (hv : Sane w.vault)
    (h : lockBond ctx w token user r m x d = .ok w') : Calm w w' := by
  obtain ⟨v, b, hw, hsane, hroles, _⟩ := lockBond_flow (g := nullGauge) hctx hv h
  obtain ⟨_, _, _, _, _, hlocked⟩ := lockBond_ok h
  have hdebts : NoNewDebt w.vault w'.vault := by
    rw [hlocked]
    exact .of_eq rfl rfl
  rw [hw] at hdebts ⊢
  exact ⟨⟨v, b, rfl⟩, hsane, hroles, hdebts⟩

/-- Paying out of a bond is calm. -/
theorem payBond_calm {r : ℕ} {d : Bool} {recipient : Address} (hv : Sane w.vault)
    (h : payBond ctx w token user r x d recipient = .ok w') : Calm w w' := by
  obtain ⟨v, b, _, hw, hsane, hroles, _⟩ := payBond_flow (g := nullGauge) hv h
  obtain ⟨_, _, _, _, _, _, _, _, _, _, hpaid⟩ := payBond_ok.mp h
  have hdebts : NoNewDebt w.vault w'.vault := by
    rw [hpaid]
    exact .of_eq rfl rfl
  rw [hw] at hdebts ⊢
  exact ⟨⟨v, b, rfl⟩, hsane, hroles, hdebts⟩

/-- A sweep is calm. -/
theorem sweepProtocolFees_calm (hv : Sane w.vault)
    (h : sweepProtocolFees ctx w token m = .ok (y, w')) : Calm w w' := by
  obtain ⟨v, b, _, hw, hsane, hframe, _⟩ := sweepProtocolFees_flow (g := nullGauge) hv h
  obtain ⟨_, _, _, _, _, hswept⟩ := sweepProtocolFees_steps h
  have hdebts : NoNewDebt w.vault w'.vault := by
    rw [hswept]
    exact .of_eq rfl rfl
  rw [hw] at hdebts ⊢
  exact ⟨⟨v, b, rfl⟩, hsane, hframe.roles, hdebts⟩

end Calm

/-- Opening child credit keeps the vault sane and wired, and raises exactly the
user's debt on the parent stake and in the child market. -/
theorem openChildCreditForTrade_debts {ctx : Ctx} {w w' : World} {user : Address}
    {p c : MarketId} {po co : Outcome} {x : ℤ} (hv : Sane w.vault)
    (h : openChildCreditForTrade ctx w user p po c co x = .ok w') :
    ∃ v, w' = { w with vault := v } ∧ Sane v ∧ v.roles = w.vault.roles ∧ 0 < x ∧ p ≠ c ∧
      (∃ market, w.registry.market p = some market ∧ market.status = .live) ∧
      v.childDebt = w.vault.childDebt.set (c, user) (w.vault.childDebt (c, user) + x) ∧
      v.parentDebt = w.vault.parentDebt.set (p, user, po)
      (w.vault.parentDebt (p, user, po) + x) := by
  obtain ⟨v, hw, hsane, hframe, hx, _⟩ := openChildCreditForTrade_flow (g := nullGauge) hv h
  refine ⟨v, hw, hsane, hframe.roles, hx, ?_⟩
  obtain ⟨_, hne, hlive, _, _, _, v1, v2, hloan, hmove, hopened⟩ := openChildCreditForTrade_steps h
  have hv2 : v = v2 := congrArg World.vault (hw.symm.trans hopened)
  rw [hv2, recordDeposit_ok (reallocateBacking_ok hmove)]
  obtain ⟨_, _, _, _, _, _, rfl⟩ := recordLoan_ok hloan
  exact ⟨hne, hlive, rfl, rfl⟩

end DikeProtocol.Vault
