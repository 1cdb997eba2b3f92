import DikeProtocol.Trading.System

/-!
# The trading invariant holds in every run

Each call the market maker makes keeps the invariant, so every entry point
does, and so does everything else that can be invoked from outside.
-/

namespace DikeProtocol.Trading

open Lib
open Vault (Sane Outside NoNewDebt Calm)

namespace TradeInvariant

variable {ctx : Ctx} {w w' : World} {m : Amm.Modules}

/-- A purchase funded by anyone but the market maker keeps the invariant. -/
theorem fundPurchase (hctx : FromOutside ctx) (hw : TradeInvariant w) {trader : Address}
    (hu : trader ≠ .contract .amm) {marketId : MarketId} {o : Outcome} {x out : ℤ}
    {parent : Option (MarketId × Outcome)}
    (h : Amm.fundPurchase ctx w m trader marketId o x out parent = .ok w') : TradeInvariant w' := by
  cases parent with
  | none =>
    obtain ⟨w1, h1, h⟩ := bind_ok.mp h
    obtain ⟨called, _, h⟩ := bind_ok.mp h
    have hw1 := hw.calm (Vault.depositForMarket_calm hctx.within hw.sane
      (Amm.depositForMarket_ok h1))
    exact hw1.calm (Vault.recordCashStake_calm hw1.sane h)
  | some parent =>
    obtain ⟨called, _, h⟩ := bind_ok.mp h
    exact hw.openCredit hu h

/-- A deposit keeps the invariant. -/
theorem depositForMarket (hctx : FromOutside ctx) (hw : TradeInvariant w) {user : Address}
    {marketId : MarketId} {x : ℤ} (h : Amm.depositForMarket ctx w m user marketId x = .ok w') :
    TradeInvariant w' :=
  hw.calm (Vault.depositForMarket_calm hctx.within hw.sane (Amm.depositForMarket_ok h))

/-- Minting keeps the invariant. -/
theorem mintCompleteSet (hw : TradeInvariant w) {marketId : MarketId} {x : ℤ}
    (h : Amm.mintCompleteSet ctx w m marketId x = .ok w') : TradeInvariant w' := by
  obtain ⟨t, hx, ht, rfl⟩ := Amm.mintCompleteSet_ok h
  exact hw.mint hx ht

/-- Merging keeps the invariant. -/
theorem mergePositions (hw : TradeInvariant w) {marketId : MarketId} {x : ℤ}
    (h : Amm.mergePositions ctx w m marketId x = .ok w') : TradeInvariant w' := by
  obtain ⟨t, ht, rfl⟩ := Amm.mergePositions_ok h
  exact hw.merge ht

/-- A transfer keeps the invariant. -/
theorem transferPosition (hw : TradeInvariant w) {a b : Address} {marketId : MarketId} {o : Outcome}
    {x : ℤ} (h : Tokens.transferPosition ctx w a b marketId o x = .ok w') : TradeInvariant w' := by
  obtain ⟨_, hx, _, _, t, ht, rfl⟩ := Tokens.transferPosition_ok h
  exact hw.move hx ht

/-- Booking a fee keeps the invariant. -/
theorem collectFee (hw : TradeInvariant w) {marketId : MarketId} {fees : Amm.FeeParts}
    (h : Amm.collectFee ctx w m marketId fees = .ok w') : TradeInvariant w' :=
  hw.calm (Vault.collectFee_calm hw.sane (Amm.collectFee_ok h))

/-- Paying fees keeps the invariant. -/
theorem payLpFees (hw : TradeInvariant w) {marketId : MarketId} {lp : Address} {x : ℤ}
    (h : Amm.payLpFees ctx w m marketId lp x = .ok w') : TradeInvariant w' := by
  rcases Amm.payLpFees_ok h with h | rfl
  · exact hw.calm (Vault.claimLpFees_calm hw.sane h)
  · exact hw

/-- A purchase keeps the invariant. -/
theorem buy (hctx : FromOutside ctx) (hw : TradeInvariant w) {trader : Address} {poolId : ℕ}
    {amountIn minOut out : ℤ} {deadline : ℕ} {yes : Bool} {parent : Option (MarketId × Outcome)}
    (h : Amm.buy ctx w trader poolId amountIn minOut deadline yes parent = .ok (out, w')) :
    TradeInvariant w' := by
  obtain ⟨pool, m, fee, netIn, fees, w1, w2, w3, w4, a, hauth, _, _, _, h1, h2, _, h3, h4, rfl⟩ :=
    Amm.buy_steps h
  have hw1 := hw.fundPurchase hctx (hctx.1.ne_of_auth hauth) h1
  have hw2 := hw1.mintCompleteSet h2
  have hw3 := hw2.collectFee h3
  have hw4 := hw3.transferPosition (Amm.transferPosition_ok h4)
  exact hw4.withAmm a

/-- A sale keeps the invariant. -/
theorem sell (hw : TradeInvariant w) {trader : Address} {poolId : ℕ} {amountIn minOut netOut : ℤ}
    {deadline : ℕ} {yes : Bool}
    (h : Amm.sell ctx w trader poolId amountIn minOut deadline yes = .ok (netOut, w')) :
    TradeInvariant w' := by
  obtain ⟨pool, m, fee, grossOut, fees, w1, w2, w3, w4, a, _, _, _, _, h1, h2, h3, h4, rfl⟩ :=
    Amm.sell_steps h
  have hw1 := hw.transferPosition (Amm.transferPosition_ok h1)
  have hw2 := hw1.mergePositions h2
  have hw3 := hw2.calm (Vault.releaseTradePayout_calm hw2.sane h3)
  have hw4 := hw3.collectFee h4
  exact hw4.withAmm a

/-- A forced sale keeps the invariant. -/
theorem forceSell (hw : TradeInvariant w) {poolId : ℕ} {user : Address} {yes : Bool}
    {sold netOut : ℤ} (h : Amm.forceSell ctx w poolId user yes = .ok (sold, netOut, w')) :
    TradeInvariant w' := by
  obtain ⟨pool, m, fee, grossOut, fees, t, w2, w3, a, _, _, _, hpos, _, _, _, ht, h2, h3, rfl⟩ :=
    Amm.forceSell_steps h
  have hw1 := hw.move hpos ht
  have hw2 := hw1.mergePositions h2
  have hw3 := hw2.collectFee h3
  exact hw3.withAmm a

/-- Every entry point of the market maker keeps the invariant. -/
theorem amm (hctx : FromOutside ctx) (hw : TradeInvariant w) {op : Amm.AmmOp}
    (h : op.exec ctx w = .ok w') : TradeInvariant w' := by
  cases op with
  | setAdmin admin =>
    obtain ⟨_, _, h⟩ := bind_ok.mp h
    obtain rfl := pure_ok.mp h
    exact hw.withAmm _
  | upgrade wasmHash =>
    obtain ⟨_, _, h⟩ := bind_ok.mp h
    obtain rfl := pure_ok.mp h
    exact hw
  | setRole role module =>
    obtain ⟨_, _, h⟩ := bind_ok.mp h
    obtain rfl := pure_ok.mp h
    exact hw.withAmm _
  | setModules vault tokens collateral registry =>
    obtain ⟨_, _, h⟩ := bind_ok.mp h
    obtain rfl := pure_ok.mp h
    exact hw.withAmm _
  | pause paused =>
    obtain ⟨_, _, h⟩ := bind_ok.mp h
    obtain rfl := pure_ok.mp h
    exact hw.withAmm _
  | createPool marketId feeConfig =>
    obtain ⟨poolId, h⟩ := world_ok.mp h
    obtain ⟨_, _, h⟩ := bind_ok.mp h
    obtain ⟨_, _, h⟩ := bind_ok.mp h
    obtain ⟨_, _, h⟩ := bind_ok.mp h
    obtain ⟨_, rfl⟩ := Prod.mk.inj (pure_ok.mp h)
    exact hw.withAmm _
  | seedLiquidity lp poolId amount =>
    obtain ⟨y, h⟩ := world_ok.mp h
    obtain ⟨pool, m, w1, w2, a, _, h1, h2, rfl⟩ := Amm.seedLiquidity_steps h
    have hw1 := hw.depositForMarket hctx h1
    have hw2 := hw1.mintCompleteSet h2
    exact hw2.withAmm a
  | addLiquidity lp poolId amount =>
    obtain ⟨y, h⟩ := world_ok.mp h
    obtain ⟨pool, m, pending, w1, w2, a, _, h1, h2, h3⟩ := Amm.addLiquidity_steps h
    have hw1 := hw.depositForMarket hctx h1
    have hw2 := hw1.mintCompleteSet h2
    exact (hw2.withAmm a).payLpFees h3
  | removeLiquidity lp poolId shares =>
    obtain ⟨⟨yesOut, noOut, w3⟩, hremove, h⟩ := bind_ok.mp h
    obtain rfl := pure_ok.mp h
    obtain ⟨pool, m, pending, w1, w2, a, _, h1, h2, h3⟩ := Amm.removeLiquidity_steps hremove
    have hw1 := (hw.withAmm a).payLpFees h1
    have hw2 := hw1.transferPosition (Amm.transferPosition_ok h2)
    exact hw2.transferPosition (Amm.transferPosition_ok h3)
  | claimLpFees lp poolId =>
    obtain ⟨y, h⟩ := world_ok.mp h
    obtain ⟨pool, m, a, _, rfl | h1⟩ := Amm.claimLpFees_steps h
    · exact hw
    · exact (hw.withAmm a).payLpFees h1
  | buyYes trader poolId amountIn minOut deadline =>
    obtain ⟨y, h⟩ := world_ok.mp h
    exact hw.buy hctx h
  | buyNo trader poolId amountIn minOut deadline =>
    obtain ⟨y, h⟩ := world_ok.mp h
    exact hw.buy hctx h
  | buyChildYes trader parentMarketId parentOutcome poolId amountIn minOut deadline =>
    obtain ⟨y, h⟩ := world_ok.mp h
    exact hw.buy hctx h
  | buyChildNo trader parentMarketId parentOutcome poolId amountIn minOut deadline =>
    obtain ⟨y, h⟩ := world_ok.mp h
    exact hw.buy hctx h
  | sellYes trader poolId amountIn minOut deadline =>
    obtain ⟨y, h⟩ := world_ok.mp h
    exact hw.sell h
  | sellNo trader poolId amountIn minOut deadline =>
    obtain ⟨y, h⟩ := world_ok.mp h
    exact hw.sell h
  | liquidatePosition liquidator user parentPoolId parentOutcome =>
    obtain ⟨y, h⟩ := world_ok.mp h
    obtain ⟨pool, m, _, _, _, sold, proceeds, w1, _, _, _, _, _, _, _, h1, h2⟩ :=
      Amm.liquidate_steps h
    have hw1 := hw.forceSell h1
    exact hw1.calm (Vault.liquidateRelease_calm hw1.sane h2)
  | liquidateChildPosition liquidator user childPoolId childOutcome =>
    obtain ⟨y, h⟩ := world_ok.mp h
    obtain ⟨pool, m, _, _, _, sold, proceeds, w1, _, _, _, _, _, _, _, h1, h2⟩ :=
      Amm.liquidate_steps h
    have hw1 := hw.forceSell h1
    exact hw1.calm (Vault.liquidateChildRelease_calm hw1.sane h2)

/-- New wiring of the vault that keeps its books and the two roles keeps the invariant. -/
theorem administer (hw : TradeInvariant w) {v : VaultState} (hsane : Sane v)
    (hroles : v.roles = w.vault.roles) (hc : v.childDebt = w.vault.childDebt)
    (hp : v.parentDebt = w.vault.parentDebt) : TradeInvariant { w with vault := v } :=
  hw.calm ⟨⟨v, w.bank, rfl⟩, hsane, hroles, .of_eq hc hp⟩

/-- A burn for a redemption keeps the invariant. -/
theorem redeem (hw : TradeInvariant w) {v : VaultState} {b : Bank} {t : TokensState} {ctx : Ctx}
    {user : Address} {marketId : MarketId} {o : Outcome} {x : ℤ} (hsane : Sane v)
    (hroles : v.roles = w.vault.roles) (hdebts : NoNewDebt w.vault v)
    (hburn : Tokens.burnForRedeem ctx w.tokens user marketId o x = .ok t) :
    TradeInvariant { w with vault := v, bank := b, tokens := t } := by
  obtain ⟨hx, hsub⟩ := Tokens.burnForRedeem_ok hburn
  have hcalm : Calm { w with tokens := t } { w with vault := v, bank := b, tokens := t } :=
    ⟨⟨v, b, rfl⟩, hsane, hroles, hdebts⟩
  exact (hw.burn hx hsub).calm hcalm

/-- Every entry point of the vault that may be invoked from outside keeps the invariant. -/
theorem vault (hctx : FromOutside ctx) (hw : TradeInvariant w) {op : Vault.VaultOp}
    (hop : (TradeOp.vault op).rewires = false) (h : op.exec ctx w = .ok w') :
    TradeInvariant w' := by
  have hsane := hw.sane
  have hopen := not_shut hctx.1 hw.ammRole h
  cases op with
  | depositForMarket | recordCashStake | fundChildPrediction | openChildCreditForTrade
    | releaseTradePayout | liquidateRelease | liquidateChildRelease | redeem | collectFee
    | claimLpFees => cases hopen
  | setAdmin admin =>
    obtain rfl := Vault.admin_ok h
    exact hw.administer { hsane with } rfl rfl rfl
  | upgrade wasmHash => cases hop
  | setRole role module => cases hop
  | setTreasury treasury =>
    obtain rfl := Vault.admin_ok h
    exact hw.administer { hsane with } rfl rfl rfl
  | pause paused =>
    obtain rfl := Vault.admin_ok h
    exact hw.administer { hsane with } rfl rfl rfl
  | repayChildCollateral token user marketId x =>
    obtain ⟨y, h⟩ := world_ok.mp h
    exact hw.calm (Vault.repayChildCollateral_calm hctx.2.1 hsane h)
  | redeemResolved token user marketId o x =>
    obtain ⟨y, h⟩ := world_ok.mp h
    obtain ⟨hdebts, _, called, hburn⟩ := Vault.redeemResolved_debts hsane h
    obtain ⟨_, v, b, t, _, _, _, _, _, rfl, hv, hframe, _⟩ :=
      Vault.redeemResolved_flow (Vault.nullGauge_even.at _ _ _) (Vault.nullGauge_even _) hsane h
    exact hw.redeem hv hframe.roles hdebts hburn
  | redeemCancelled token user marketId o x =>
    obtain ⟨y, h⟩ := world_ok.mp h
    obtain ⟨hdebts, _, called, hburn⟩ := Vault.redeemCancelled_debts hsane h
    obtain ⟨_, v, b, t, _, _, _, rfl, hv, hframe, _⟩ :=
      Vault.redeemCancelled_flow (Vault.nullGauge_even _) hsane h
    exact hw.redeem hv hframe.roles hdebts hburn
  | assertPositionTransferAllowed sender marketId o x =>
    obtain ⟨_, _, h⟩ := bind_ok.mp h
    obtain rfl := pure_ok.mp h
    exact hw
  | lockBond token user r marketId x d =>
    exact hw.calm (Vault.lockBond_calm hctx.2.1 hsane h)
  | releaseBond token user r x d => exact hw.calm (Vault.payBond_calm hsane h)
  | slashBond token user r x d recipient => exact hw.calm (Vault.payBond_calm hsane h)
  | sweepProtocolFees token marketId =>
    obtain ⟨y, h⟩ := world_ok.mp h
    exact hw.calm (Vault.sweepProtocolFees_calm hsane h)

/-- What may be invoked of the tokens from outside: administration, a transfer
or a burn by the owner. -/
theorem tokens_ok (hctx : FromOutside ctx) (hw : TradeInvariant w) {op : Tokens.TokensOp}
    (hop : (TradeOp.tokens op).rewires = false) (h : op.exec ctx w = .ok w') :
    (∃ t, w' = { w with tokens := t } ∧ t.balance = w.tokens.balance ∧
      t.backing = w.tokens.backing ∧ t.roles = w.tokens.roles) ∨
    (∃ a b m o x, op = .transferPosition a b m o x ∧
      Tokens.transferPosition ctx w a b m o x = .ok w') ∨
    (∃ a m o x t, op = .burnLosing a m o x ∧ Tokens.burnLosing ctx w.tokens a m o x = .ok t ∧
      w' = { w with tokens := t }) := by
  have hamm : ∀ {u : Unit}, requireRole ctx w.tokens.roles .amm ≠ .ok u :=
    requireRole_outside hctx.1 hw.tokensAmm
  have hvault : ∀ {u : Unit}, requireRole ctx w.tokens.roles .vault ≠ .ok u :=
    requireRole_outside hctx.2.1 hw.tokensVault
  cases op with
  | setAdmin admin =>
    obtain ⟨t, ht, rfl⟩ := Tokens.store_ok.mp h
    obtain ⟨_, _, ht⟩ := bind_ok.mp ht
    obtain rfl := pure_ok.mp ht
    exact Or.inl ⟨_, rfl, rfl, rfl, rfl⟩
  | upgrade wasmHash => cases hop
  | setRole role module => cases hop
  | pause paused =>
    obtain ⟨t, ht, rfl⟩ := Tokens.store_ok.mp h
    obtain ⟨_, _, ht⟩ := bind_ok.mp ht
    obtain rfl := pure_ok.mp ht
    exact Or.inl ⟨_, rfl, rfl, rfl, rfl⟩
  | mintCompleteSet recipient m x =>
    obtain ⟨t, ht, rfl⟩ := Tokens.store_ok.mp h
    obtain ⟨_, hrole, _⟩ := bind_ok.mp ht
    exact absurd hrole hamm
  | splitPosition user m x =>
    obtain ⟨t, ht, rfl⟩ := Tokens.store_ok.mp h
    obtain ⟨_, hrole, _⟩ := bind_ok.mp ht
    exact absurd hrole hvault
  | mergePositions user m x =>
    obtain ⟨t, ht, rfl⟩ := Tokens.store_ok.mp h
    obtain ⟨_, hrole, _⟩ := bind_ok.mp ht
    exact absurd hrole hamm
  | transferPosition a b m o x => exact Or.inr (Or.inl ⟨a, b, m, o, x, rfl, h⟩)
  | transferPositionForced a b m o x =>
    obtain ⟨t, ht, rfl⟩ := Tokens.store_ok.mp h
    obtain ⟨_, hrole, _⟩ := bind_ok.mp ht
    exact absurd hrole hamm
  | burnForRedeem a m o x =>
    obtain ⟨t, ht, rfl⟩ := Tokens.store_ok.mp h
    obtain ⟨_, hrole, _⟩ := bind_ok.mp ht
    exact absurd hrole hvault
  | burnLosing a m o x =>
    obtain ⟨t, ht, rfl⟩ := Tokens.store_ok.mp h
    exact Or.inr (Or.inr ⟨a, m, o, x, t, rfl, ht, rfl⟩)

/-- Every entry point of the tokens that may be invoked from outside keeps the invariant. -/
theorem tokens (hctx : FromOutside ctx) (hw : TradeInvariant w) {op : Tokens.TokensOp}
    (hop : (TradeOp.tokens op).rewires = false) (h : op.exec ctx w = .ok w') :
    TradeInvariant w' := by
  rcases hw.tokens_ok hctx hop h with ⟨t, rfl, hbal, _, hroles⟩ | ⟨a, b, m, o, x, _, hmove⟩ |
    ⟨a, m, o, x, t, _, hburn, rfl⟩
  · refine hw.withTokens hroles ?_ ?_
    · rw [hbal]
      exact hw.balance_nonneg
    · rw [hbal]
      exact hw.noInvalid
  · exact hw.transferPosition hmove
  · obtain ⟨_, hx, hsub⟩ := Tokens.burnLosing_ok hburn
    exact hw.burn hx hsub

/-- The invariant holds at deployment. -/
theorem deployed (l : Launch) : TradeInvariant (deploy l) where
  sane := Vault.freshVault_sane _ _ _
  ammRole := rfl
  tokensAmm := rfl
  tokensVault := rfl
  ammChildFree := fun _ => le_rfl
  ammParentFree := fun _ _ => le_rfl
  balance_nonneg := fun _ => le_rfl
  noInvalid := fun _ _ => le_rfl
  registered := by
    intro m market h
    cases h
  finalResolved := by
    intro m market h
    cases h
  debtRegistered := fun _ _ _ h => absurd h (lt_irrefl 0)

/-- Every step keeps the invariant. -/
theorem step (hw : TradeInvariant w) {i : TradeStep} (h : tradingSystem.step w i = .ok w') :
    TradeInvariant w' := by
  cases i with
  | call ctx op =>
    obtain ⟨hctx, hop, h⟩ := tradingSystem_call h
    cases op with
    | amm op => exact hw.amm hctx h
    | vault op => exact hw.vault hctx hop h
    | tokens op => exact hw.tokens hctx hop h
    | registry op =>
      obtain ⟨r, hr, h⟩ := bind_ok.mp h
      obtain rfl := pure_ok.mp h
      exact hw.withRegistry (Registry.RegistryOp.exec_follow hr)
  | outside bank =>
    obtain rfl := ok_ok.mp h
    exact { hw with }

end TradeInvariant

/-- The invariant holds in every reachable state. -/
theorem reachable_invariant {w : World} (h : tradingSystem.Reachable w) : TradeInvariant w := by
  refine h.invariant ?_ ?_
  · rintro w ⟨l, rfl⟩
    exact .deployed l
  · intro w i w' hw _ hs
    exact hw.step hs

end DikeProtocol.Trading
