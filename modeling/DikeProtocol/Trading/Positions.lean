import DikeProtocol.Trading.Backing

/-!
# No debt without a position

While a market is undecided, a user who owes credit on an outcome should hold
tokens of it. Sales and transfers ask for that and liquidations of the stake
clear the debt; but credit is opened on the recorded stake without looking
at the tokens, an owner may burn an encumbered position, and a child position
may be liquidated although it is a parent itself.
-/

namespace DikeProtocol.Trading

open Lib
open Vault (Sane Outside NoNewDebt Calm)

/-- Whoever owes on an outcome of a live market holds tokens of it. -/
def DebtHasPosition (w : World) : Prop :=
  ∀ m market u o, w.registry.market m = some market → market.status = .live →
    0 < w.vault.parentDebt (m, u, o) → 0 < w.tokens.balance (m, u, o)

/-- Statuses from which a market is live or may become live. -/
def MayTrade (s : MarketStatus) : Prop := s = .created ∨ s = .live ∨ s = .paused

instance (s : MarketStatus) : Decidable (MayTrade s) := inferInstanceAs (Decidable (_ ∨ _ ∨ _))

/-- Markets that are registered and may trade. -/
def Undecided (r : RegistryState) (m : MarketId) : Prop :=
  ∃ market, r.market m = some market ∧ MayTrade market.status

/-- Whoever owes on an outcome of an undecided market holds tokens of it. -/
def Covered (w : World) : Prop :=
  ∀ k, Undecided w.registry k.1 → 0 < w.vault.parentDebt k → 0 < w.tokens.balance k

/-- A covered system has no debt without a position. -/
theorem Covered.debtHasPosition {w : World} (h : Covered w) : DebtHasPosition w := by
  intro m market u o hm hlive hdebt
  exact h (m, u, o) ⟨market, hm, Or.inr (Or.inl hlive)⟩ hdebt

/-- Between two states no debt of an undecided market arises, and what is held
against the remaining ones does not shrink, except at the exempt positions. -/
structure Secure (exempt : MarketId × Address × Outcome → Prop) (w w' : World) : Prop where
  registry : w'.registry = w.registry
  held : ∀ k, ¬exempt k → Undecided w.registry k.1 → 0 < w'.vault.parentDebt k →
    0 < w.vault.parentDebt k ∧ w.tokens.balance k ≤ w'.tokens.balance k

/-- No position is exempt. -/
def nowhere : MarketId × Address × Outcome → Prop := fun _ => False

/-- Covered states lead to covered states when no position is exempt. -/
theorem Secure.covered {w w' : World} (h : Secure nowhere w w') (hw : Covered w) : Covered w' := by
  intro k hopen hdebt
  rw [h.registry] at hopen
  have hheld := h.held k (fun hk => hk) hopen hdebt
  have hbefore := hw k hopen hheld.1
  omega

namespace Secure

variable {exempt : MarketId × Address × Outcome → Prop} {w w' w'' : World}

/-- One step after another is secure when both are. -/
theorem trans (h : Secure exempt w w') (h' : Secure exempt w' w'') : Secure exempt w w'' := by
  refine ⟨h'.registry.trans h.registry, ?_⟩
  intro k hk hopen hdebt
  have hlast := h'.held k hk (by rw [h.registry]; exact hopen) hdebt
  have hfirst := h.held k hk hopen hlast.1
  exact ⟨hfirst.1, hfirst.2.trans hlast.2⟩

/-- Exemptions are not needed where nothing is owed in the end. -/
theorem settled (h : Secure exempt w w')
    (hfree : ∀ k, exempt k → w'.vault.parentDebt k ≤ 0) : Secure nowhere w w' := by
  refine ⟨h.registry, ?_⟩
  intro k _ hopen hdebt
  refine h.held k ?_ hopen hdebt
  intro hk
  have hnone := hfree k hk
  omega

/-- A calm invocation of the vault is secure. -/
theorem calm (h : Calm w w') : Secure exempt w w' := by
  obtain ⟨v, b, rfl⟩ := h.shape
  refine ⟨rfl, ?_⟩
  intro k _ _ hdebt
  have hle := h.debts.parentDebt k
  exact ⟨lt_of_lt_of_le hdebt hle, le_rfl⟩

/-- Changing the market maker's own storage is secure. -/
theorem withAmm (w : World) (a : AmmState) : Secure exempt w { w with amm := a } :=
  ⟨rfl, fun _ _ _ hdebt => ⟨hdebt, le_rfl⟩⟩

/-- Tokens whose balances only shrink where nothing is owed are secure. -/
theorem withTokens {t : TokensState}
    (h : ∀ k, ¬exempt k → Undecided w.registry k.1 → 0 < w.vault.parentDebt k →
      w.tokens.balance k ≤ t.balance k) :
    Secure exempt w { w with tokens := t } :=
  ⟨rfl, fun k hk hopen hdebt => ⟨hdebt, h k hk hopen hdebt⟩⟩

/-- Minting is secure. -/
theorem mint {ctx : Ctx} {m : Amm.Modules} {p : MarketId} {x : ℤ}
    (h : Amm.mintCompleteSet ctx w m p x = .ok w') : Secure exempt w w' := by
  obtain ⟨t, hx, ht, rfl⟩ := Amm.mintCompleteSet_ok h
  apply withTokens
  intro k _ _ _
  rw [(Tokens.creditCompleteSet_ok ht).2.2]
  split <;> omega

/-- Merging is secure: the market maker owes nothing. -/
theorem merge (hw : TradeInvariant w) {ctx : Ctx} {m : Amm.Modules} {p : MarketId} {x : ℤ}
    (h : Amm.mergePositions ctx w m p x = .ok w') : Secure exempt w w' := by
  obtain ⟨t, ht, rfl⟩ := Amm.mergePositions_ok h
  apply withTokens
  intro k _ _ hdebt
  rw [(Tokens.mergePositions_ok ht).2.2.2.2.2, if_neg, sub_zero]
  rintro (rfl | rfl)
  · exact absurd hdebt (not_lt.mpr (hw.ammParentFree p .yes))
  · exact absurd hdebt (not_lt.mpr (hw.ammParentFree p .no))

/-- Moving tokens is secure except for the sender. -/
theorem move {t : TokensState} {a b : Address} {p : MarketId} {o : Outcome} {x : ℤ} (hx : 0 < x)
    (h : Tokens.moveBalance w.tokens a b p o x = .ok t) :
    Secure (fun k => k = (p, a, o)) w { w with tokens := t } := by
  apply withTokens
  intro k hk _ _
  rw [(Tokens.moveBalance_ok h).2.2.2, if_neg hk]
  split <;> omega

/-- A transfer is secure: the sender owes nothing on what moves. -/
theorem transferPosition {ctx : Ctx} {a b : Address} {p : MarketId} {o : Outcome} {x : ℤ}
    (h : Tokens.transferPosition ctx w a b p o x = .ok w') : Secure nowhere w w' := by
  obtain ⟨_, hx, _, hfree, t, ht, rfl⟩ := Tokens.transferPosition_ok h
  refine (move hx ht).settled ?_
  rintro k rfl
  exact hfree

/-- Paying fees is secure. -/
theorem payLpFees (hw : TradeInvariant w) {ctx : Ctx} {m : Amm.Modules} {p : MarketId}
    {lp : Address} {x : ℤ} (h : Amm.payLpFees ctx w m p lp x = .ok w') : Secure exempt w w' := by
  rcases Amm.payLpFees_ok h with h | rfl
  · exact calm (Vault.claimLpFees_calm hw.sane h)
  · exact ⟨rfl, fun _ _ _ hdebt => ⟨hdebt, le_rfl⟩⟩

/-- A deposit is secure. -/
theorem depositForMarket {ctx : Ctx} (hctx : FromOutside ctx) (hw : TradeInvariant w)
    {m : Amm.Modules} {user : Address} {p : MarketId} {x : ℤ}
    (h : Amm.depositForMarket ctx w m user p x = .ok w') : Secure exempt w w' :=
  calm (Vault.depositForMarket_calm hctx.within hw.sane (Amm.depositForMarket_ok h))

/-- A sale is secure. -/
theorem sell (hw : TradeInvariant w) {ctx : Ctx} {trader : Address} {poolId : ℕ}
    {amountIn minOut netOut : ℤ} {deadline : ℕ} {yes : Bool}
    (h : Amm.sell ctx w trader poolId amountIn minOut deadline yes = .ok (netOut, w')) :
    Secure nowhere w w' := by
  obtain ⟨pool, m, fee, grossOut, fees, w1, w2, w3, w4, a, _, _, _, _, h1, h2, h3, h4, rfl⟩ :=
    Amm.sell_steps h
  have hw1 := hw.transferPosition (Amm.transferPosition_ok h1)
  have hw2 := hw1.mergePositions h2
  have hpay := Vault.releaseTradePayout_calm hw2.sane h3
  have hfee := Vault.collectFee_calm (hw2.calm hpay).sane (Amm.collectFee_ok h4)
  have hmoved := transferPosition (Amm.transferPosition_ok h1)
  exact (((hmoved.trans (merge hw1 h2)).trans (calm hpay)).trans (calm hfee)).trans (withAmm w4 a)

/-- What follows the funding of a purchase is secure. -/
theorem delivered (hw : TradeInvariant w) {ctx : Ctx} {m : Amm.Modules} {p : MarketId} {netIn : ℤ}
    {fees : Amm.FeeParts} {trader : Address} {o : Outcome} {out : ℤ} {w2 w3 : World}
    (h1 : Amm.mintCompleteSet ctx w m p netIn = .ok w2)
    (h2 : Amm.collectFee ctx w2 m p fees = .ok w3)
    (h3 : Amm.transferPosition ctx w3 m (.contract .amm) trader p o out = .ok w') :
    Secure nowhere w w' := by
  have hfee := Vault.collectFee_calm (hw.mintCompleteSet h1).sane (Amm.collectFee_ok h2)
  have hmoved := transferPosition (Amm.transferPosition_ok h3)
  exact ((mint h1).trans (calm hfee)).trans hmoved

/-- A cash purchase is secure. -/
theorem buyCash {ctx : Ctx} (hctx : FromOutside ctx) (hw : TradeInvariant w) {trader : Address}
    {poolId : ℕ} {amountIn minOut out : ℤ} {deadline : ℕ} {yes : Bool}
    (h : Amm.buy ctx w trader poolId amountIn minOut deadline yes none = .ok (out, w')) :
    Secure nowhere w w' := by
  obtain ⟨pool, m, fee, netIn, fees, w1, w2, w3, w4, a, hauth, _, _, _, h1, h2, _, h3, h4, rfl⟩ :=
    Amm.buy_steps h
  have hw1 := hw.fundPurchase hctx (hctx.1.ne_of_auth hauth) h1
  have hrest := (delivered hw1 h2 h3 h4).trans (withAmm w4 a)
  obtain ⟨w0, hdeposit, hstake⟩ := bind_ok.mp h1
  obtain ⟨called, _, hstake⟩ := bind_ok.mp hstake
  have hw0 := hw.depositForMarket hctx hdeposit
  have hfirst : Secure nowhere w w0 := depositForMarket hctx hw hdeposit
  exact (hfirst.trans (calm (Vault.recordCashStake_calm hw0.sane hstake))).trans hrest

/-- A forced sale is secure except for the position it sells. -/
theorem forceSell (hw : TradeInvariant w) {ctx : Ctx} {poolId : ℕ} {user : Address} {yes : Bool}
    {sold netOut : ℤ} (h : Amm.forceSell ctx w poolId user yes = .ok (sold, netOut, w')) :
    ∃ pool, w.amm.pool poolId = some pool ∧
      Secure (fun k => k = (pool.marketId, user, Amm.outcomeOf yes)) w w' := by
  obtain ⟨pool, m, fee, grossOut, fees, t, w2, w3, a, hpool, _, _, hpos, _, _, _, ht, h2,
    h3, rfl⟩ := Amm.forceSell_steps h
  have hw1 := hw.move hpos ht
  have hfee := Vault.collectFee_calm (hw1.mergePositions h2).sane (Amm.collectFee_ok h3)
  exact ⟨pool, hpool, (((move hpos ht).trans (merge hw1 h2)).trans (calm hfee)).trans
    (withAmm w3 a)⟩

end Secure

/-- Credit is opened only against a position the user holds. -/
def HoldsParent (w : World) (trader : Address) (parentMarketId : MarketId)
    (parentOutcome : Outcome) : Prop :=
  0 < w.tokens.balance (parentMarketId, trader, parentOutcome)

/-- Invocations of the market maker that leave no debt bare: credit is opened
only against held tokens, and a liquidated child position backs no credit itself. -/
def LeavesNoDebtBare (w : World) : Amm.AmmOp → Prop
  | .buyChildYes trader p po _ _ _ _ => HoldsParent w trader p po
  | .buyChildNo trader p po _ _ _ _ => HoldsParent w trader p po
  | .liquidateChildPosition _ user poolId o => ∀ pool, w.amm.pool poolId = some pool →
    w.vault.parentDebt (pool.marketId, user, o) ≤ 0
  | _ => True

/-- Burns that leave something of an encumbered position in an undecided market. -/
def BurnLeavesRest (w : World) : Tokens.TokensOp → Prop
  | .burnLosing owner m o amount => Undecided w.registry m →
    0 < w.vault.parentDebt (m, owner, o) → amount < w.tokens.balance (m, owner, o)
  | _ => True

/-- Steps that leave no debt bare. -/
def TradeStep.LeavesNoDebtBare (w : World) : TradeStep → Prop
  | .call _ (.amm op) => Trading.LeavesNoDebtBare w op
  | .call _ (.tokens op) => BurnLeavesRest w op
  | _ => True

section Steps

variable {ctx : Ctx} {w w' : World}

/-- A purchase on credit of a held position keeps the system covered. -/
theorem buyChild_covered (hctx : FromOutside ctx) (hw : TradeInvariant w) (hcovered : Covered w)
    {trader : Address} {poolId : ℕ} {amountIn minOut out : ℤ} {deadline : ℕ} {yes : Bool}
    {p : MarketId} {po : Outcome} (hheld : HoldsParent w trader p po)
    (h : Amm.buy ctx w trader poolId amountIn minOut deadline yes (some (p, po)) = .ok (out, w')) :
    Covered w' := by
  obtain ⟨pool, m, fee, netIn, fees, w1, w2, w3, w4, a, hauth, _, _, _, h1, h2, _, h3, h4, rfl⟩ :=
    Amm.buy_steps h
  have hw1 := hw.fundPurchase hctx (hctx.1.ne_of_auth hauth) h1
  have hrest := (Secure.delivered hw1 h2 h3 h4).trans (Secure.withAmm w4 a)
  apply hrest.covered
  obtain ⟨called, _, h1⟩ := bind_ok.mp h1
  obtain ⟨v, rfl, _, _, _, _, _, _, hparent⟩ := Vault.openChildCreditForTrade_debts hw.sane h1
  intro k hopen hdebt
  dsimp only at hopen hdebt ⊢
  rw [hparent, Store.set_get] at hdebt
  split at hdebt
  · next hk =>
    rw [hk]
    exact hheld
  · exact hcovered k hopen hdebt

/-- A liquidation of a stake clears its debt. -/
theorem liquidatePosition_secure (hw : TradeInvariant w) {keeper user : Address} {poolId : ℕ}
    {o : Outcome} {y : ℤ}
    (h : Amm.liquidatePosition ctx w keeper user poolId o = .ok (y, w')) : Secure nowhere w w' := by
  obtain ⟨pool, mods, _, _, _, sold, proceeds, w1, _, hpool, _, hheld, _, _, _, hsell, hrelease⟩ :=
    Amm.liquidate_steps h
  obtain ⟨pool', hpool', hsecure⟩ := Secure.forceSell hw hsell
  obtain rfl : pool = pool' := Option.some.inj (hpool.symm.trans hpool')
  rw [outcome_of_balance hw hheld] at hsecure
  have hw1 := hw.forceSell hsell
  have hcalm := Vault.liquidateRelease_calm hw1.sane hrelease
  refine (hsecure.trans (.calm hcalm)).settled ?_
  rintro k rfl
  exact (Vault.liquidateRelease_debts hw1.sane hrelease).2

/-- A liquidation of a child position that backs no credit is secure. -/
theorem liquidateChildPosition_secure (hw : TradeInvariant w) {keeper user : Address} {poolId : ℕ}
    {o : Outcome} {y : ℤ}
    (hop : LeavesNoDebtBare w (.liquidateChildPosition keeper user poolId o))
    (h : Amm.liquidateChildPosition ctx w keeper user poolId o = .ok (y, w')) :
    Secure nowhere w w' := by
  obtain ⟨pool, mods, _, _, _, sold, proceeds, w1, _, hpool, _, hheld, _, _, _, hsell, hrelease⟩ :=
    Amm.liquidate_steps h
  obtain ⟨pool', hpool', hsecure⟩ := Secure.forceSell hw hsell
  obtain rfl : pool = pool' := Option.some.inj (hpool.symm.trans hpool')
  rw [outcome_of_balance hw hheld] at hsecure
  have hw1 := hw.forceSell hsell
  obtain ⟨_, _, _, _, _, hsame⟩ := forceSell_gap (m := 0) hw hsell
  have hcalm := Vault.liquidateChildRelease_calm hw1.sane hrelease
  refine (hsecure.trans (.calm hcalm)).settled ?_
  rintro k rfl
  have hfall := hcalm.debts.parentDebt (pool.marketId, user, o)
  rw [hsame.parentDebt] at hfall
  exact hfall.trans (hop pool hpool)

/-- Every entry point of the market maker that leaves no debt bare keeps the system covered. -/
theorem amm_covered (hctx : FromOutside ctx) (hw : TradeInvariant w) (hcovered : Covered w)
    {op : Amm.AmmOp} (hop : LeavesNoDebtBare w op) (h : op.exec ctx w = .ok w') : Covered w' := by
  cases op with
  | setAdmin admin =>
    obtain ⟨_, _, h⟩ := bind_ok.mp h
    obtain rfl := pure_ok.mp h
    exact hcovered
  | upgrade wasmHash =>
    obtain ⟨_, _, h⟩ := bind_ok.mp h
    obtain rfl := pure_ok.mp h
    exact hcovered
  | setRole role module =>
    obtain ⟨_, _, h⟩ := bind_ok.mp h
    obtain rfl := pure_ok.mp h
    exact hcovered
  | setModules vault tokens collateral registry =>
    obtain ⟨_, _, h⟩ := bind_ok.mp h
    obtain rfl := pure_ok.mp h
    exact hcovered
  | pause paused =>
    obtain ⟨_, _, h⟩ := bind_ok.mp h
    obtain rfl := pure_ok.mp h
    exact hcovered
  | createPool marketId feeConfig =>
    obtain ⟨poolId, h⟩ := world_ok.mp h
    obtain ⟨_, _, h⟩ := bind_ok.mp h
    obtain ⟨_, _, h⟩ := bind_ok.mp h
    obtain ⟨_, _, h⟩ := bind_ok.mp h
    obtain ⟨_, rfl⟩ := Prod.mk.inj (pure_ok.mp h)
    exact hcovered
  | seedLiquidity lp poolId amount =>
    obtain ⟨y, h⟩ := world_ok.mp h
    obtain ⟨pool, m, w1, w2, a, _, h1, h2, rfl⟩ := Amm.seedLiquidity_steps h
    have hdeposit : Secure nowhere w w1 := Secure.depositForMarket hctx hw h1
    exact ((hdeposit.trans (.mint h2)).trans (.withAmm w2 a)).covered hcovered
  | addLiquidity lp poolId amount =>
    obtain ⟨y, h⟩ := world_ok.mp h
    obtain ⟨pool, m, pending, w1, w2, a, _, h1, h2, h3⟩ := Amm.addLiquidity_steps h
    have hw2 := (hw.depositForMarket hctx h1).mintCompleteSet h2
    have hdeposit : Secure nowhere w w1 := Secure.depositForMarket hctx hw h1
    have hminted := (hdeposit.trans (.mint h2)).trans (.withAmm w2 a)
    exact (hminted.trans (.payLpFees (hw2.withAmm a) h3)).covered hcovered
  | removeLiquidity lp poolId shares =>
    obtain ⟨⟨yesOut, noOut, w3⟩, hremove, h⟩ := bind_ok.mp h
    obtain rfl := pure_ok.mp h
    obtain ⟨pool, m, pending, w1, w2, a, _, h1, h2, h3⟩ := Amm.removeLiquidity_steps hremove
    have hpaid : Secure nowhere { w with amm := a } w1 := Secure.payLpFees (hw.withAmm a) h1
    have hyes := Secure.transferPosition (Amm.transferPosition_ok h2)
    have hno := Secure.transferPosition (Amm.transferPosition_ok h3)
    exact ((((Secure.withAmm w a).trans hpaid).trans hyes).trans hno).covered hcovered
  | claimLpFees lp poolId =>
    obtain ⟨y, h⟩ := world_ok.mp h
    obtain ⟨pool, m, a, _, rfl | h1⟩ := Amm.claimLpFees_steps h
    · exact hcovered
    · have hpaid : Secure nowhere { w with amm := a } w' := Secure.payLpFees (hw.withAmm a) h1
      exact ((Secure.withAmm w a).trans hpaid).covered hcovered
  | buyYes trader poolId amountIn minOut deadline =>
    obtain ⟨y, h⟩ := world_ok.mp h
    exact (Secure.buyCash hctx hw h).covered hcovered
  | buyNo trader poolId amountIn minOut deadline =>
    obtain ⟨y, h⟩ := world_ok.mp h
    exact (Secure.buyCash hctx hw h).covered hcovered
  | buyChildYes trader p po poolId amountIn minOut deadline =>
    obtain ⟨y, h⟩ := world_ok.mp h
    exact buyChild_covered hctx hw hcovered hop h
  | buyChildNo trader p po poolId amountIn minOut deadline =>
    obtain ⟨y, h⟩ := world_ok.mp h
    exact buyChild_covered hctx hw hcovered hop h
  | sellYes trader poolId amountIn minOut deadline =>
    obtain ⟨y, h⟩ := world_ok.mp h
    exact (Secure.sell hw h).covered hcovered
  | sellNo trader poolId amountIn minOut deadline =>
    obtain ⟨y, h⟩ := world_ok.mp h
    exact (Secure.sell hw h).covered hcovered
  | liquidatePosition liquidator user poolId o =>
    obtain ⟨y, h⟩ := world_ok.mp h
    exact (liquidatePosition_secure hw h).covered hcovered
  | liquidateChildPosition liquidator user poolId o =>
    obtain ⟨y, h⟩ := world_ok.mp h
    exact (liquidateChildPosition_secure hw hop h).covered hcovered

/-- A redemption burns in a decided market and raises no debt. -/
theorem redeem_covered (hcovered : Covered w) {v : VaultState} {b : Bank} {t : TokensState}
    {user : Address} {m : MarketId} {o : Outcome} {x : ℤ} (hdebts : NoNewDebt w.vault v)
    (hdecided : ¬Undecided w.registry m)
    (hburn : Tokens.burnForRedeem ctx w.tokens user m o x = .ok t) :
    Covered { w with vault := v, bank := b, tokens := t } := by
  obtain ⟨_, hsub⟩ := Tokens.burnForRedeem_ok hburn
  obtain ⟨_, rfl⟩ := Tokens.subBalance_ok hsub
  intro k hopen hdebt
  have hle := hdebts.parentDebt k
  have hheld := hcovered k hopen (lt_of_lt_of_le hdebt hle)
  dsimp only
  rw [Store.set_get, if_neg]
  · exact hheld
  · rintro rfl
    exact hdecided hopen

/-- Every entry point of the vault that may be invoked from outside keeps the system covered. -/
theorem vault_covered (hctx : FromOutside ctx) (hw : TradeInvariant w) (hcovered : Covered w)
    {op : Vault.VaultOp} (hop : (TradeOp.vault op).rewires = false)
    (h : op.exec ctx w = .ok w') : Covered w' := by
  have hsane := hw.sane
  have hopen := not_shut hctx.1 hw.ammRole h
  have hcalm : ∀ {w'}, Calm w w' → Covered w' := by
    intro w' hc
    have hsecure : Secure nowhere w w' := .calm hc
    exact hsecure.covered hcovered
  cases op with
  | depositForMarket | recordCashStake | fundChildPrediction | openChildCreditForTrade
    | releaseTradePayout | liquidateRelease | liquidateChildRelease | redeem | collectFee
    | claimLpFees => cases hopen
  | setAdmin admin =>
    obtain rfl := Vault.admin_ok h
    exact hcovered
  | upgrade wasmHash => cases hop
  | setRole role module => cases hop
  | setTreasury treasury =>
    obtain rfl := Vault.admin_ok h
    exact hcovered
  | pause paused =>
    obtain rfl := Vault.admin_ok h
    exact hcovered
  | repayChildCollateral token user p x =>
    obtain ⟨y, h⟩ := world_ok.mp h
    exact hcalm (Vault.repayChildCollateral_calm hctx.2.1 hsane h)
  | redeemResolved token user m o x =>
    obtain ⟨y, h⟩ := world_ok.mp h
    obtain ⟨hdebts, ⟨market, hm, hfinal⟩, called, hburn⟩ := Vault.redeemResolved_debts hsane h
    obtain ⟨_, v, b, t, _, _, _, _, _, rfl, _⟩ :=
      Vault.redeemResolved_flow (Vault.nullGauge_even.at _ _ _) (Vault.nullGauge_even _) hsane h
    refine redeem_covered hcovered hdebts ?_ hburn
    rintro ⟨market', hm', hopen⟩
    obtain rfl : market = market' := Option.some.inj (hm.symm.trans hm')
    rw [hw.finalResolved m market hm hfinal] at hopen
    exact absurd hopen (by decide)
  | redeemCancelled token user m o x =>
    obtain ⟨y, h⟩ := world_ok.mp h
    obtain ⟨hdebts, ⟨market, hm, hcancelled⟩, called, hburn⟩ := Vault.redeemCancelled_debts hsane h
    obtain ⟨_, v, b, t, _, _, _, rfl, _⟩ :=
      Vault.redeemCancelled_flow (Vault.nullGauge_even _) hsane h
    refine redeem_covered hcovered hdebts ?_ hburn
    rintro ⟨market', hm', hopen⟩
    obtain rfl : market = market' := Option.some.inj (hm.symm.trans hm')
    rw [hcancelled] at hopen
    exact absurd hopen (by decide)
  | assertPositionTransferAllowed sender p o x =>
    obtain ⟨_, _, h⟩ := bind_ok.mp h
    obtain rfl := pure_ok.mp h
    exact hcovered
  | lockBond token user r p x d => exact hcalm (Vault.lockBond_calm hctx.2.1 hsane h)
  | releaseBond token user r x d => exact hcalm (Vault.payBond_calm hsane h)
  | slashBond token user r x d recipient => exact hcalm (Vault.payBond_calm hsane h)
  | sweepProtocolFees token p =>
    obtain ⟨y, h⟩ := world_ok.mp h
    exact hcalm (Vault.sweepProtocolFees_calm hsane h)

/-- A status from which a market may trade is only reached from such a status. -/
theorem mayTrade_of_validTransition {s s' : MarketStatus}
    (hv : Registry.validTransition s s' = true) (hs : MayTrade s') : MayTrade s := by
  cases s <;> cases s' <;> first | decide | (revert hs; decide) | cases hv

/-- Markets that move along their life keep the system covered. -/
theorem registry_covered (hw : TradeInvariant w) (hcovered : Covered w) {r : RegistryState}
    (h : Registry.MarketsFollow w.registry r) : Covered { w with registry := r } := by
  rintro k ⟨stored, hk, hopen⟩ hdebt
  dsimp only at hk hdebt ⊢
  rcases h with ⟨hm, _⟩ | ⟨_, market, _, _, _, hm⟩ |
    ⟨_, m, market, market', hold, hid, hfollow, _, hm⟩
  · rw [hm] at hk
    exact hcovered k ⟨stored, hk, hopen⟩ hdebt
  · rw [hm, Store.set_get] at hk
    split at hk
    · next heq =>
      obtain ⟨market', hm'⟩ := hw.debtRegistered k.1 k.2.1 k.2.2 hdebt
      have hlt := (hw.registered k.1 market' hm').2
      rw [heq] at hlt
      exact absurd hlt (lt_irrefl _)
    · exact hcovered k ⟨stored, hk, hopen⟩ hdebt
  · have hmid := (hw.registered m market hold).1
    rw [hm, Store.set_get] at hk
    split at hk
    · next heq =>
      obtain rfl := Option.some.inj hk
      have hbefore : MayTrade market.status := by
        rcases hfollow with ⟨hs, _⟩ | ⟨hv, _⟩ | ⟨_, _, hs, _⟩
        · rw [← hs]
          exact hopen
        · exact mayTrade_of_validTransition hv hopen
        · rw [hs] at hopen
          exact absurd hopen (by decide)
      refine hcovered k ⟨market, ?_, hbefore⟩ hdebt
      rw [heq, hmid]
      exact hold
    · exact hcovered k ⟨stored, hk, hopen⟩ hdebt

/-- Every step that leaves no debt bare keeps the system covered. -/
theorem step_covered (hw : TradeInvariant w) (hcovered : Covered w) {i : TradeStep}
    (hi : i.LeavesNoDebtBare w) (h : tradingSystem.step w i = .ok w') : Covered w' := by
  cases i with
  | call ctx op =>
    obtain ⟨hctx, hop, h⟩ := tradingSystem_call h
    cases op with
    | amm op => exact amm_covered hctx hw hcovered hi h
    | vault op => exact vault_covered hctx hw hcovered hop h
    | tokens op =>
      rcases hw.tokens_ok hctx hop h with ⟨t, rfl, hbal, _, _⟩ | ⟨_, _, _, _, _, _, hmove⟩ |
        ⟨a, m, o, x, t, rfl, hburn, rfl⟩
      · intro k hopen hdebt
        dsimp only
        rw [hbal]
        exact hcovered k hopen hdebt
      · exact (Secure.transferPosition hmove).covered hcovered
      · obtain ⟨_, _, hsub⟩ := Tokens.burnLosing_ok hburn
        obtain ⟨_, rfl⟩ := Tokens.subBalance_ok hsub
        intro k hopen hdebt
        dsimp only
        rw [Store.set_get]
        split
        · next hk =>
          rw [hk] at hopen hdebt
          have hrest := hi hopen hdebt
          omega
        · exact hcovered k hopen hdebt
    | registry op =>
      obtain ⟨r, hr, h⟩ := bind_ok.mp h
      obtain rfl := pure_ok.mp h
      exact registry_covered hw hcovered (Registry.RegistryOp.exec_follow hr)
  | outside bank =>
    obtain rfl := ok_ok.mp h
    exact hcovered

end Steps

/-- In a run whose steps leave no debt bare, nobody owes on a live market
without holding a position in it. -/
theorem debtHasPosition_of_leavesNoDebtBare {w : World}
    (h : tradingSystem.Guarded (fun w step => step.LeavesNoDebtBare w) w) : DebtHasPosition w := by
  apply Covered.debtHasPosition
  refine h.invariant_with (J := TradeInvariant) (I := Covered) ?_ ?_ ?_
  · intro s hs
    exact reachable_invariant hs.reachable
  · rintro w ⟨l, rfl⟩ k _ hdebt
    exact absurd hdebt (lt_irrefl 0)
  · intro w i w' hw hcovered hi hs
    exact step_covered hw hcovered hi hs

/-- Alice stakes 1000 on market 1. -/
def aliceStakes : List TradeStep :=
  openMarket 1 10000 ++ openMarket 2 10000 ++
    [.call (bySigner alice) (.amm (.buyYes alice 1 1000 0 1))]

/-- Alice buys into market 2 for 300 of the credit of her stake. -/
def aliceBorrows : TradeStep :=
  .call (bySigner alice) (.amm (.buyChildYes alice 1 .yes 2 300 0 1))

/-- Alice borrows while she holds what she bought, and keeps it. -/
theorem debtHasPosition_after_loan : ∃ w0 w,
    tradingSystem.runs (deploy sampleLaunch) aliceStakes = .ok w0 ∧
      tradingSystem.step w0 aliceBorrows = .ok w ∧ w.vault.parentDebt (1, alice, .yes) = 300 ∧
      DebtHasPosition w := by
  have hplain : ∀ step ∈ aliceStakes, ∀ w, step.LeavesNoDebtBare w := by
    simp [aliceStakes, openMarket, TradeStep.LeavesNoDebtBare, LeavesNoDebtBare]
  obtain ⟨w0, hw0, hlast⟩ := System.runs_of_decide (S := tradingSystem) (deploy sampleLaunch)
    aliceStakes
    (fun w0 => decide (0 < w0.tokens.balance (1, alice, .yes)) &&
      okWith (tradingSystem.step w0 aliceBorrows)
        (fun w => decide (w.vault.parentDebt (1, alice, .yes) = 300))) (by decide +kernel)
  rw [Bool.and_eq_true, okWith_iff] at hlast
  obtain ⟨hheld, w, hw, howed⟩ := hlast
  have hrun := System.Guarded.runs (.init sample_init) aliceStakes hplain hw0
  have hguard := hrun.mono (fun w step h => h w)
  have hborrow : 0 < w0.tokens.balance (1, alice, .yes) := of_decide_eq_true hheld
  exact ⟨w0, w, hw0, hw, of_decide_eq_true howed,
    debtHasPosition_of_leavesNoDebtBare (.next (i := aliceBorrows) hguard hborrow hw)⟩

/-- Alice stakes, borrows, and burns all her tokens of the live market she owes on. -/
def burnWhileOwing : List TradeStep :=
  aliceStakes ++ [aliceBorrows,
    .call (bySigner alice) (.tokens (.burnLosing alice 1 .yes 1873))]

/-- After the burn alice owes 300 on a live market without a token of it. -/
theorem not_always_debtHasPosition : ¬∀ w, tradingSystem.Reachable w → DebtHasPosition w := by
  intro hall
  obtain ⟨w, hw, hbare⟩ := System.runs_of_decide (S := tradingSystem) (deploy sampleLaunch)
    burnWhileOwing
    (fun w => w.vault.parentDebt (1, alice, .yes) = 300 ∧ w.tokens.balance (1, alice, .yes) = 0 ∧
      (w.registry.market 1).map MarketData.status = some .live) (by decide +kernel)
  have hcovered := hall w (System.Reachable.runs (.init sample_init) burnWhileOwing hw)
  obtain ⟨hdebt, hnone, hlive⟩ := of_decide_eq_true hbare
  obtain ⟨market, hm, hstatus⟩ := Option.map_eq_some_iff.mp hlive
  have hheld := hcovered 1 market alice .yes hm hstatus (by omega)
  omega

end DikeProtocol.Trading
