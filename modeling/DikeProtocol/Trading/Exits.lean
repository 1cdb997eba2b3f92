import DikeProtocol.Trading.LpFees
import DikeProtocol.Trading.Payout

/-!
# What stands between a provider and its exit

A withdrawal hands out two rounded shares of the reserves, and the conditional
tokens move no zero amount. Everything else a withdrawal asks for holds in every
reachable state: the wiring stays, the stored numbers stay within their width,
and a pool with shares keeps a market in the market maker's collateral.
-/

namespace DikeProtocol.Trading

open Lib
open Vault (VaultOp Sane Outside)
open Amm (Traded)

/-- An invocation of the vault that is no wiring keeps all roles. -/
theorem vaultExec_roles {ctx : Ctx} (hctx : Outside .vault ctx) {w w' : World} (hw : Sane w.vault)
    {op : VaultOp} (hop : (TradeOp.vault op).rewires = false) (h : op.exec ctx w = .ok w') :
    w'.vault.roles = w.vault.roles := by
  cases op with
  | setAdmin admin =>
    obtain rfl := Vault.admin_ok h
    rfl
  | upgrade wasmHash => cases hop
  | setRole role module => cases hop
  | setTreasury treasury =>
    obtain rfl := Vault.admin_ok h
    rfl
  | pause paused =>
    obtain rfl := Vault.admin_ok h
    rfl
  | depositForMarket token user m x => exact (Vault.depositForMarket_calm hctx hw h).roles
  | recordCashStake user m o x y => exact (Vault.recordCashStake_calm hw h).roles
  | fundChildPrediction user p c x => cases h
  | openChildCreditForTrade user p po c co x =>
    obtain ⟨v, rfl, _, hroles, _⟩ := Vault.openChildCreditForTrade_debts hw h
    exact hroles
  | repayChildCollateral token user m x =>
    obtain ⟨y, h⟩ := world_ok.mp h
    exact (Vault.repayChildCollateral_calm hctx hw h).roles
  | releaseTradePayout token user m o sold x =>
    exact (Vault.releaseTradePayout_calm hw h).roles
  | liquidateRelease token user keeper p o sold x =>
    obtain ⟨y, h⟩ := world_ok.mp h
    exact (Vault.liquidateRelease_calm hw h).roles
  | liquidateChildRelease token user keeper c o sold x =>
    obtain ⟨y, h⟩ := world_ok.mp h
    exact (Vault.liquidateChildRelease_calm hw h).roles
  | redeem token user m final o x =>
    obtain ⟨_, h⟩ := world_ok.mp h
    cases h
  | redeemResolved token user m o x =>
    obtain ⟨y, h⟩ := world_ok.mp h
    obtain ⟨_, v, b, t, _, _, _, _, _, rfl, _, hframe, _⟩ :=
      Vault.redeemResolved_flow (Vault.nullGauge_even.at _ _ _) (Vault.nullGauge_even _) hw h
    exact hframe.roles
  | redeemCancelled token user m o x =>
    obtain ⟨y, h⟩ := world_ok.mp h
    obtain ⟨_, v, b, t, _, _, _, rfl, _, hframe, _⟩ :=
      Vault.redeemCancelled_flow (Vault.nullGauge_even _) hw h
    exact hframe.roles
  | assertPositionTransferAllowed sender m o x =>
    obtain ⟨_, _, h⟩ := bind_ok.mp h
    obtain rfl := pure_ok.mp h
    rfl
  | lockBond token user r m x d => exact (Vault.lockBond_calm hctx hw h).roles
  | releaseBond token user r x d => exact (Vault.payBond_calm hw h).roles
  | slashBond token user r x d recipient => exact (Vault.payBond_calm hw h).roles
  | collectFee m lp protocol cod => exact (Vault.collectFee_calm hw h).roles
  | claimLpFees token m lp x => exact (Vault.claimLpFees_calm hw h).roles
  | sweepProtocolFees token m =>
    obtain ⟨y, h⟩ := world_ok.mp h
    exact (Vault.sweepProtocolFees_calm hw h).roles

/-- A booked fee fits the bucket it goes to. -/
theorem collectFee_fits {ctx : Ctx} {w w' : World} {m : MarketId} {lp protocol cod : ℤ}
    (h : Vault.collectFee ctx w m lp protocol cod = .ok w') :
    booked w m + lp ≤ i128Max := by
  unfold Vault.collectFee at h
  obtain ⟨_, _, h⟩ := bind_ok.mp h
  obtain ⟨_, _, h⟩ := bind_ok.mp h
  obtain ⟨part, _, h⟩ := bind_ok.mp h
  obtain ⟨total, _, h⟩ := bind_ok.mp h
  obtain ⟨_, _, h⟩ := bind_ok.mp h
  obtain ⟨a, ha, h⟩ := bind_ok.mp h
  obtain ⟨lpFees, h1, h⟩ := bind_ok.mp h
  have hfits := (checkedAdd_ok.mp h1).2.2
  rw [Vault.debitBacking_ok ha] at hfits
  exact hfits

/-- Every invocation of the vault keeps the buckets of liquidity fees within their width. -/
theorem vaultExec_fits {ctx : Ctx} (hctx : Outside .vault ctx) {w w' : World} (hw : Sane w.vault)
    {op : VaultOp} (h : op.exec ctx w = .ok w') (hfits : ∀ m, booked w m ≤ i128Max) (m : MarketId) :
    booked w' m ≤ i128Max := by
  have hm := hfits m
  have hflow : booked w' m = booked w m + op.lpFlow m := op.exec_lpFees m hctx hw h
  rw [hflow]
  cases op with
  | collectFee p lp protocol cod =>
    have hnew := collectFee_fits h
    unfold VaultOp.lpFlow
    dsimp only
    split
    · next hp =>
      subst hp
      exact hnew
    · omega
  | claimLpFees token p lp x =>
    have hx := (Vault.claimLpFees_steps h).1
    unfold VaultOp.lpFlow
    dsimp only
    split <;> omega
  | _ =>
    unfold VaultOp.lpFlow
    dsimp only
    omega

/-- Tokens that move keep the recorded backing within its width. -/
theorem TokensMove.fits {t t' : TokensState} (h : TokensMove t t')
    (hfits : ∀ m, t.backing m ≤ i128Max) (m : MarketId) : t'.backing m ≤ i128Max := by
  have hm := hfits m
  cases h with
  | same _ hbacking =>
    rw [hbacking]
    exact hm
  | mint hx h =>
    unfold Tokens.creditCompleteSet Tokens.addBacking at h
    obtain ⟨t1, h1, h⟩ := bind_ok.mp h
    obtain ⟨t2, h2, h⟩ := bind_ok.mp h
    obtain ⟨n, hn, h⟩ := bind_ok.mp h
    have hnew := (checkedAdd_ok.mp hn).2.2
    rw [← (checkedAdd_ok.mp hn).1] at hnew
    rw [← pure_ok.mp h, Tokens.addBalance_ok h2, Tokens.addBalance_ok h1]
    dsimp only
    rw [Store.set_get]
    split
    · exact hnew
    · exact hm
  | merge h =>
    obtain ⟨hx, _, _, _, _, _⟩ := Tokens.mergePositions_ok h
    rw [(Tokens.mergePositions_supply h m (o := .yes) (by decide)).2]
    split <;> omega
  | move hx h =>
    rw [(Tokens.moveBalance_ok h).2.1]
    exact hm
  | burn hx h =>
    rw [(Tokens.subBalance_ok h).2]
    exact hm

/-- What is credited to an account that owes nothing fits its width. -/
theorem creditCompleteSet_fits {t t' : TokensState} {m : MarketId} {a : Address} {x : ℤ}
    (hbalance : ∀ k, 0 ≤ t.balance k) (h : Tokens.creditCompleteSet t m a x = .ok t') :
    x ≤ i128Max := by
  obtain ⟨t1, h1, _⟩ := bind_ok.mp h
  obtain ⟨n, hn, _⟩ := bind_ok.mp h1
  have hfits := (checkedAdd_ok.mp hn).2.2
  have hheld := hbalance (m, a, .yes)
  omega

/-- What the books and the tokens bring to a withdrawal. -/
structure Furnished (w : World) : Prop where
  tokensRole : w.vault.roles .tokens = some (.contract .tokens)
  registryRole : w.vault.roles .registry = some (.contract .registry)
  supplied : ∃ burned, Tokens.Supplied w.tokens burned
  backingFits : ∀ m, w.tokens.backing m ≤ i128Max
  feesFit : ∀ m, booked w m ≤ i128Max

/-- Every step keeps it, and moves markets along their life only. -/
theorem Furnished.step {w w' : World} {i : TradeStep} (hw : Furnished w) (ht : TradeInvariant w)
    (h : tradingSystem.step w i = .ok w') :
    Furnished w' ∧ Registry.MarketsFollow w.registry w'.registry := by
  rcases step_acts ht h with ⟨ops, hacts, hmakes⟩ | ⟨r, rfl, hfollow⟩ | ⟨bank, rfl, rfl⟩
  · have hwires : ∀ op ∈ ops, (TradeOp.vault op).rewires = false := by
      intro op hop
      cases hfor : ForMarkets op with
      | true =>
        cases op with
        | setRole => cases hfor
        | upgrade => cases hfor
        | _ => rfl
      | false =>
        obtain ⟨ctx, rfl⟩ := TradeStep.of_notForMarkets hmakes hop hfor
        exact (tradingSystem_call h).2.1
    have hkept : Sane w'.vault ∧ Furnished w' ∧ w'.registry = w.registry := by
      apply hacts.keeps (I := fun s => Sane s.vault ∧ Furnished s ∧ s.registry = w.registry)
      · rintro s s' hvault hregistry hbank htokens ⟨hsane, hs, hsame⟩
        obtain ⟨burned, hsupplied⟩ := hs.supplied
        obtain ⟨burned', hsupplied', _⟩ := htokens.supplied hsupplied
        refine ⟨by rw [hvault]; exact hsane, ⟨by rw [hvault]; exact hs.tokensRole,
          by rw [hvault]; exact hs.registryRole, ⟨burned', hsupplied'⟩,
          htokens.fits hs.backingFits, ?_⟩, hregistry.trans hsame⟩
        unfold booked
        rw [hvault]
        exact hs.feesFit
      · rintro ctx op s s' hop hctx ⟨hsane, hs, hsame⟩ hexec
        have hroles := vaultExec_roles hctx hsane (hwires op hop) hexec
        obtain ⟨burned, hsupplied⟩ := hs.supplied
        obtain ⟨v, b, t, hshape, hburn⟩ := op.exec_shape hexec
        have htokens : TokensMove s.tokens s'.tokens := by
          rw [hshape]
          rcases hburn with rfl | ⟨m, u, o, x, _, hx, hburn⟩
          · exact .same rfl rfl
          · exact .burn hx hburn
        obtain ⟨burned', hsupplied', _⟩ := htokens.supplied hsupplied
        exact ⟨op.exec_sane hctx hsane hexec, ⟨by rw [hroles]; exact hs.tokensRole,
          by rw [hroles]; exact hs.registryRole, ⟨burned', hsupplied'⟩,
          htokens.fits hs.backingFits, vaultExec_fits hctx hsane hexec hs.feesFit⟩,
          (vaultExec_registry hexec).trans hsame⟩
      · exact ⟨ht.sane, hw, rfl⟩
    refine ⟨hkept.2.1, ?_⟩
    rw [hkept.2.2]
    exact Or.inl ⟨rfl, rfl⟩
  · exact ⟨{ hw with }, hfollow⟩
  · exact ⟨{ hw with }, Or.inl ⟨rfl, rfl⟩⟩

/-- A pool whose shares fit their width and whose market takes this collateral. -/
structure Housed (w : World) (collateral : Asset) (pool : PoolData) : Prop where
  sharesFit : pool.totalLpShares ≤ i128Max
  market : ∃ market, w.registry.market pool.marketId = some market ∧ market.collateral = collateral

/-- A step that keeps the modules of the market maker, and every pool with
shares: it had at least as many before, or liquidity was just deposited. -/
structure PoolsKept (w w' : World) : Prop where
  modules : Amm.modules w'.amm = Amm.modules w.amm
  pools : ∀ i pool', w'.amm.pool i = some pool' → 0 < pool'.totalLpShares →
    (∃ pool, w.amm.pool i = some pool ∧ pool'.marketId = pool.marketId ∧
      pool'.totalLpShares ≤ pool.totalLpShares) ∨
    ∃ m, Amm.modules w.amm = .ok m ∧ Housed w m.collateral pool'

namespace PoolsKept

variable {ctx : Ctx} {w w' : World}

/-- The same market maker keeps its pools. -/
theorem of_pool (hmods : Amm.modules w'.amm = Amm.modules w.amm)
    (hpool : w'.amm.pool = w.amm.pool) : PoolsKept w w' := by
  refine ⟨hmods, ?_⟩
  intro i pool' hpool' _
  rw [hpool] at hpool'
  exact Or.inl ⟨pool', hpool', rfl, le_rfl⟩

/-- One rewritten pool, and whatever may be said of it. -/
theorem rewritten {i : ℕ} {q : PoolData} (hmods : Amm.modules w'.amm = Amm.modules w.amm)
    (hpools : ∀ j, w'.amm.pool j = if j = i then some q else w.amm.pool j)
    (hwritten : (∃ pool, w.amm.pool i = some pool ∧ q.marketId = pool.marketId ∧
      q.totalLpShares ≤ pool.totalLpShares) ∨
      ∃ m, Amm.modules w.amm = .ok m ∧ Housed w m.collateral q) : PoolsKept w w' := by
  refine ⟨hmods, ?_⟩
  intro j stored hstored _
  rw [hpools] at hstored
  split at hstored
  · next hj =>
    obtain rfl := Option.some.inj hstored
    rw [hj]
    exact hwritten
  · exact Or.inl ⟨stored, hstored, rfl, le_rfl⟩

/-- One pool rewritten along with the shares of a provider. -/
theorem settled {s : World} {i : ℕ} {pool q : PoolData} {lp : Address} {shares : ℤ}
    (hs : Shared w.amm) (hold : w.amm.pool i = some pool) (hid : q.id = pool.id)
    (hamm : s.amm = w.amm) (hfinal : w'.amm = (Amm.withShares s i q lp shares).amm)
    (hwritten : (∃ pool, w.amm.pool i = some pool ∧ q.marketId = pool.marketId ∧
      q.totalLpShares ≤ pool.totalLpShares) ∨
      ∃ m, Amm.modules w.amm = .ok m ∧ Housed w m.collateral q) : PoolsKept w w' := by
  refine rewritten ?_ ?_ hwritten
  · rw [hfinal]
    dsimp only [Amm.withShares]
    rw [hamm]
    rfl
  · intro j
    rw [hfinal]
    dsimp only [Amm.withShares, Amm.writeLp, Amm.writePool]
    rw [hamm]
    exact FeeMove.written (hid.trans (hs.numbered i pool hold).1) j

/-- A trade keeps the shares of its pool. -/
theorem traded {i : ℕ} {pool pool' : PoolData} {fee : ℤ} {a : AmmState} (hs : Shared w.amm)
    (hold : w.amm.pool i = some pool) (htraded : Traded pool pool' fee) (ha : a = w.amm)
    (hamm : w'.amm = Amm.writePool a pool') : PoolsKept w w' := by
  rw [ha] at hamm
  refine rewritten (i := i) ?_ ?_ (Or.inl ⟨pool, hold, htraded.marketId, htraded.totalLpShares.le⟩)
  · rw [hamm]
    rfl
  · intro j
    rw [hamm]
    exact FeeMove.written (htraded.id.trans (hs.numbered i pool hold).1) j

/-- A purchase keeps the pools. -/
theorem buy (hctx : FromOutside ctx) (ht : TradeInvariant w) (hs : Shared w.amm) {trader : Address}
    {poolId : ℕ} {amountIn minOut out : ℤ} {deadline : ℕ} {yes : Bool}
    {parent : Option (MarketId × Outcome)}
    (h : Amm.buy ctx w trader poolId amountIn minOut deadline yes parent = .ok (out, w')) :
    PoolsKept w w' := by
  obtain ⟨pool, m, fee, netIn, fees, pool1, pool2, w1, w2, w3, w4, hauth, hpool, _, _, h1, h2,
    hfees, h3, hreserves, h4, rfl⟩ := Amm.buy_writes h
  have htrader := hctx.1.ne_of_auth hauth
  have ht2 := (ht.fundPurchase hctx htrader h1).mintCompleteSet h2
  have hb1 := Beside.fundPurchase hctx ht htrader h1
  have hb3 := Beside.collectFee hctx ht2 h3
  obtain ⟨t1, _, _, rfl⟩ := Amm.mintCompleteSet_ok h2
  obtain ⟨_, _, _, _, t2, _, rfl⟩ := Tokens.transferPosition_ok (Amm.transferPosition_ok h4)
  exact traded hs hpool (Amm.bought_traded hfees hreserves).1 (hb3.amm.trans hb1.amm) rfl

/-- A sale keeps the pools. -/
theorem sell (hctx : FromOutside ctx) (ht : TradeInvariant w) (hs : Shared w.amm) {trader : Address}
    {poolId : ℕ} {amountIn minOut netOut : ℤ} {deadline : ℕ} {yes : Bool}
    (h : Amm.sell ctx w trader poolId amountIn minOut deadline yes = .ok (netOut, w')) :
    PoolsKept w w' := by
  obtain ⟨pool, m, fee, gross, fees, pool1, pool2, w1, w2, w3, w4, _, hpool, _, _, hfees, h1,
    h2, h3, h4, hreserves, rfl⟩ := Amm.sell_writes h
  have ht2 := (ht.transferPosition (Amm.transferPosition_ok h1)).mergePositions h2
  have ht3 := ht2.calm (Vault.releaseTradePayout_calm ht2.sane h3)
  have hb3 := Beside.releaseTradePayout hctx ht2 h3
  have hb4 := Beside.collectFee hctx ht3 h4
  obtain ⟨_, _, _, _, t1, _, rfl⟩ := Tokens.transferPosition_ok (Amm.transferPosition_ok h1)
  obtain ⟨t2, _, rfl⟩ := Amm.mergePositions_ok h2
  exact traded hs hpool (Amm.sold_traded hfees hreserves).1 (hb4.amm.trans hb3.amm) rfl

/-- A forced sale keeps the pools. -/
theorem forceSell (hctx : FromOutside ctx) (ht : TradeInvariant w) (hs : Shared w.amm) {poolId : ℕ}
    {user : Address} {yes : Bool} {sold netOut : ℤ}
    (h : Amm.forceSell ctx w poolId user yes = .ok (sold, netOut, w')) : PoolsKept w w' := by
  obtain ⟨pool, m, fee, gross, fees, pool1, pool2, t, w2, w3, hpool, _, hpos, _, _, hfees, hmove,
    h2, h3, hreserves, rfl⟩ := Amm.forceSell_writes h
  have ht2 := (ht.move hpos hmove).mergePositions h2
  have hb3 := Beside.collectFee hctx ht2 h3
  obtain ⟨t2, _, rfl⟩ := Amm.mergePositions_ok h2
  exact traded hs hpool (Amm.sold_traded hfees hreserves).1 hb3.amm rfl

/-- What follows beside the market maker does not matter. -/
theorem andThen {s : World} {flow : MarketId → ℤ} (h : PoolsKept w s) (hb : Beside flow s w') :
    PoolsKept w w' := by
  refine ⟨by rw [hb.amm]; exact h.modules, ?_⟩
  rw [hb.amm]
  exact h.pools

/-- A first deposit is made in the collateral of the market. -/
theorem seedLiquidity (hctx : FromOutside ctx) (ht : TradeInvariant w) (hs : Shared w.amm)
    {lp : Address} {poolId : ℕ} {x y : ℤ}
    (h : Amm.seedLiquidity ctx w lp poolId x = .ok (y, w')) : PoolsKept w w' := by
  unfold Amm.seedLiquidity at h
  obtain ⟨_, _, h⟩ := bind_ok.mp h
  obtain ⟨_, _, h⟩ := bind_ok.mp h
  obtain ⟨m, hm, h⟩ := bind_ok.mp h
  obtain ⟨pool, hpool, h⟩ := bind_ok.mp h
  obtain ⟨_, _, h⟩ := bind_ok.mp h
  obtain ⟨_, _, h⟩ := bind_ok.mp h
  obtain ⟨w1, h1, h⟩ := bind_ok.mp h
  obtain ⟨w2, h2, h⟩ := bind_ok.mp h
  obtain ⟨_, rfl⟩ := Prod.mk.inj (pure_ok.mp h)
  have hb1 := Beside.depositForMarket hctx ht h1
  obtain ⟨_, ⟨market, hmarket, hcollateral⟩, _⟩ :=
    Vault.depositForMarket_steps (Amm.depositForMarket_ok h1)
  have ht1 := ht.depositForMarket hctx h1
  obtain ⟨t1, _, hcredit, rfl⟩ := Amm.mintCompleteSet_ok h2
  have hfits := creditCompleteSet_fits ht1.balance_nonneg hcredit
  exact settled (q := Amm.seededPool pool x) hs (orFault_ok.mp hpool) rfl hb1.amm rfl
    (Or.inr ⟨m, hm, hfits, market, hmarket, hcollateral.symm⟩)

/-- A further deposit is made in the collateral of the market. -/
theorem addLiquidity (hctx : FromOutside ctx) (ht : TradeInvariant w) (hs : Shared w.amm)
    {lp : Address} {poolId : ℕ} {x y : ℤ}
    (h : Amm.addLiquidity ctx w lp poolId x = .ok (y, w')) : PoolsKept w w' := by
  unfold Amm.addLiquidity at h
  obtain ⟨_, _, h⟩ := bind_ok.mp h
  obtain ⟨_, _, h⟩ := bind_ok.mp h
  obtain ⟨m, hm, h⟩ := bind_ok.mp h
  obtain ⟨pool, hpool, h⟩ := bind_ok.mp h
  obtain ⟨_, _, h⟩ := bind_ok.mp h
  obtain ⟨_, _, h⟩ := bind_ok.mp h
  obtain ⟨w1, h1, h⟩ := bind_ok.mp h
  obtain ⟨w2, h2, h⟩ := bind_ok.mp h
  obtain ⟨_, _, h⟩ := bind_ok.mp h
  obtain ⟨_, _, h⟩ := bind_ok.mp h
  obtain ⟨_, _, h⟩ := bind_ok.mp h
  obtain ⟨pending, _, h⟩ := bind_ok.mp h
  obtain ⟨yes', _, h⟩ := bind_ok.mp h
  obtain ⟨no', _, h⟩ := bind_ok.mp h
  obtain ⟨total, htotal, h⟩ := bind_ok.mp h
  obtain ⟨held, _, h⟩ := bind_ok.mp h
  obtain ⟨w3, h3, h⟩ := bind_ok.mp h
  obtain ⟨_, rfl⟩ := Prod.mk.inj (pure_ok.mp h)
  have hb1 := Beside.depositForMarket hctx ht h1
  have ht2 := (ht.depositForMarket hctx h1).mintCompleteSet h2
  obtain ⟨_, ⟨market, hmarket, hcollateral⟩, _⟩ :=
    Vault.depositForMarket_steps (Amm.depositForMarket_ok h1)
  have hb3 := Beside.payLpFees hctx (by exact ht2.withAmm _) h3
  obtain ⟨t1, _, _, rfl⟩ := Amm.mintCompleteSet_ok h2
  have hfits := (checkedAdd_ok.mp htotal).2.2
  rw [← (checkedAdd_ok.mp htotal).1] at hfits
  have hamm : w3.amm = (Amm.withShares w1 poolId { pool with
      yesReserve := yes'
      noReserve := no'
      totalLpShares := total } lp held).amm := hb3.amm
  refine settled hs (orFault_ok.mp hpool) ?_ hb1.amm hamm
    (Or.inr ⟨m, hm, hfits, market, hmarket, hcollateral.symm⟩)
  rfl

/-- A withdrawal lowers the shares of its pool. -/
theorem removeLiquidity (hctx : FromOutside ctx) (ht : TradeInvariant w) (hs : Shared w.amm)
    {lp : Address} {poolId : ℕ} {shares yesOut noOut : ℤ}
    (h : Amm.removeLiquidity ctx w lp poolId shares = .ok (yesOut, noOut, w')) :
    PoolsKept w w' := by
  obtain ⟨pool, m, pending, w1, w2, _, hshares, hpool, _, _, _, _, _, h1, h2, h3⟩ :=
    Amm.removeLiquidity_writes h
  have hb1 := Beside.payLpFees hctx (by exact ht.withAmm _) h1
  obtain ⟨_, _, _, _, t1, _, rfl⟩ := Tokens.transferPosition_ok (Amm.transferPosition_ok h2)
  obtain ⟨_, _, _, _, t2, _, rfl⟩ := Tokens.transferPosition_ok (Amm.transferPosition_ok h3)
  have hless : pool.totalLpShares + -shares ≤ pool.totalLpShares := by omega
  exact settled (q := Amm.resizedPool pool (-yesOut) (-noOut) (-shares)) hs hpool rfl rfl hb1.amm
    (Or.inl ⟨pool, hpool, rfl, hless⟩)

/-- A claim keeps the pools. -/
theorem claimLpFees (hctx : FromOutside ctx) (ht : TradeInvariant w) {lp : Address} {poolId : ℕ}
    {y : ℤ} (h : Amm.claimLpFees ctx w lp poolId = .ok (y, w')) : PoolsKept w w' := by
  obtain ⟨pool, hpool, rfl | ⟨m, hy, howed, h1⟩⟩ := Amm.claimLpFees_writes h
  · exact of_pool rfl rfl
  · have hb1 := Beside.payLpFees hctx (by exact ht.withAmm _) h1
    refine of_pool ?_ ?_
    · rw [hb1.amm]
      rfl
    · rw [hb1.amm]
      rfl

/-- A new pool has no shares. -/
theorem createPool {marketId : MarketId} {config : FeeConfig} {poolId : ℕ}
    (h : Amm.createPool ctx w marketId config = .ok (poolId, w')) : PoolsKept w w' := by
  obtain ⟨_, _, h⟩ := bind_ok.mp h
  obtain ⟨_, _, h⟩ := bind_ok.mp h
  obtain ⟨next, _, h⟩ := bind_ok.mp h
  obtain ⟨_, rfl⟩ := Prod.mk.inj (pure_ok.mp h)
  refine ⟨rfl, ?_⟩
  intro i pool' hpool' hpos
  dsimp only [Amm.writePool] at hpool'
  rw [Store.set_get] at hpool'
  split at hpool'
  · obtain rfl := Option.some.inj hpool'
    exact absurd hpos (lt_irrefl 0)
  · exact Or.inl ⟨pool', hpool', rfl, le_rfl⟩

/-- Every entry point of the market maker that is no wiring keeps modules and pools. -/
theorem amm (hctx : FromOutside ctx) (ht : TradeInvariant w) (hst : Stocked w) (hs : Shared w.amm)
    {op : Amm.AmmOp} (hop : (TradeOp.amm op).rewires = false) (h : op.exec ctx w = .ok w') :
    PoolsKept w w' := by
  cases op with
  | setAdmin admin =>
    obtain ⟨_, _, h⟩ := bind_ok.mp h
    obtain rfl := pure_ok.mp h
    exact of_pool rfl rfl
  | upgrade wasmHash => cases hop
  | setRole role module => cases hop
  | setModules vault tokens collateral registry => cases hop
  | pause paused =>
    obtain ⟨_, _, h⟩ := bind_ok.mp h
    obtain rfl := pure_ok.mp h
    exact of_pool rfl rfl
  | createPool marketId feeConfig =>
    obtain ⟨poolId, h⟩ := world_ok.mp h
    exact .createPool h
  | seedLiquidity lp poolId amount =>
    obtain ⟨y, h⟩ := world_ok.mp h
    exact .seedLiquidity hctx ht hs h
  | addLiquidity lp poolId amount =>
    obtain ⟨y, h⟩ := world_ok.mp h
    exact .addLiquidity hctx ht hs h
  | removeLiquidity lp poolId shares =>
    obtain ⟨⟨yesOut, noOut, w3⟩, hremove, h⟩ := bind_ok.mp h
    obtain rfl := pure_ok.mp h
    exact .removeLiquidity hctx ht hs hremove
  | claimLpFees lp poolId =>
    obtain ⟨y, h⟩ := world_ok.mp h
    exact .claimLpFees hctx ht h
  | buyYes trader poolId amountIn minOut deadline =>
    obtain ⟨y, h⟩ := world_ok.mp h
    exact .buy hctx ht hs h
  | buyNo trader poolId amountIn minOut deadline =>
    obtain ⟨y, h⟩ := world_ok.mp h
    exact .buy hctx ht hs h
  | buyChildYes trader parentMarketId parentOutcome poolId amountIn minOut deadline =>
    obtain ⟨y, h⟩ := world_ok.mp h
    exact .buy hctx ht hs h
  | buyChildNo trader parentMarketId parentOutcome poolId amountIn minOut deadline =>
    obtain ⟨y, h⟩ := world_ok.mp h
    exact .buy hctx ht hs h
  | sellYes trader poolId amountIn minOut deadline =>
    obtain ⟨y, h⟩ := world_ok.mp h
    exact .sell hctx ht hs h
  | sellNo trader poolId amountIn minOut deadline =>
    obtain ⟨y, h⟩ := world_ok.mp h
    exact .sell hctx ht hs h
  | liquidatePosition liquidator user parentPoolId parentOutcome =>
    obtain ⟨y, h⟩ := world_ok.mp h
    obtain ⟨hu, pool, m, sold, proceeds, w1, h1, h2⟩ := hst.liquidatePosition h
    exact (forceSell hctx ht hs h1).andThen (.liquidateRelease hctx (ht.forceSell h1) hu h2)
  | liquidateChildPosition liquidator user childPoolId childOutcome =>
    obtain ⟨y, h⟩ := world_ok.mp h
    obtain ⟨hu, pool, m, sold, proceeds, w1, h1, h2⟩ := ht.liquidateChildPosition h
    exact (forceSell hctx ht hs h1).andThen (.liquidateChildRelease hctx (ht.forceSell h1) hu h2)

/-- So does every step of a run. -/
theorem of_step {i : TradeStep} (ht : TradeInvariant w) (hst : Stocked w) (hs : Shared w.amm)
    (h : tradingSystem.step w i = .ok w') : PoolsKept w w' := by
  cases i with
  | call ctx op =>
    obtain ⟨hctx, hop, h⟩ := tradingSystem_call h
    cases op with
    | amm op => exact .amm hctx ht hst hs hop h
    | vault op =>
      obtain ⟨hamm, _⟩ := ht.vault_beside hctx h
      exact of_pool (by rw [hamm]) (by rw [hamm])
    | tokens op =>
      rcases ht.tokens_ok hctx hop h with ⟨t, rfl, _⟩ | ⟨a, b, m, o, x, _, hmove⟩ |
        ⟨a, m, o, x, t, _, _, rfl⟩
      · exact of_pool rfl rfl
      · obtain ⟨_, _, _, _, t, _, rfl⟩ := Tokens.transferPosition_ok hmove
        exact of_pool rfl rfl
      · exact of_pool rfl rfl
    | registry op =>
      obtain ⟨r, _, h⟩ := bind_ok.mp h
      obtain rfl := pure_ok.mp h
      exact of_pool rfl rfl
  | outside bank =>
    obtain rfl := ok_ok.mp h
    exact of_pool rfl rfl

end PoolsKept

/-- The modules of a market maker wired as it was deployed. -/
def wired (collateral : Asset) : Amm.Modules where
  vault := .contract .vault
  tokens := .contract .tokens
  collateral := collateral
  registry := .contract .registry

/-- The wiring of the market maker, and every pool with shares housed in its collateral. -/
structure Open (w : World) : Prop where
  furnished : Furnished w
  housed : ∃ collateral, Amm.modules w.amm = .ok (wired collateral) ∧
    ∀ i pool, w.amm.pool i = some pool → 0 < pool.totalLpShares → Housed w collateral pool

/-- In every reachable state the way out is open. -/
theorem reachable_open {w : World} (h : tradingSystem.Reachable w) : Open w := by
  have hknown : ∀ w, tradingSystem.Reachable w → TradeInvariant w ∧ Stocked w ∧ Shared w.amm :=
    fun _ hw => ⟨reachable_invariant hw, reachable_stocked hw, (reachable_feesCovered hw).1⟩
  refine h.invariant_with hknown (I := Open) ?_ ?_
  · rintro w ⟨l, rfl⟩
    have hnone : ∀ i, (deploy l).amm.pool i = none := fun _ => rfl
    have hwidth : (0 : ℤ) ≤ i128Max := by decide
    refine ⟨⟨rfl, rfl, ⟨.empty, Tokens.freshTokens_supplied _ _⟩, fun _ => hwidth,
      fun _ => hwidth⟩, l.collateral, rfl, ?_⟩
    intro i pool hpool
    rw [hnone] at hpool
    cases hpool
  · rintro w i w' ⟨ht, hst, hs⟩ hw _ hstep
    obtain ⟨hfurnished, hfollow⟩ := hw.furnished.step ht hstep
    obtain ⟨collateral, hmods, hhoused⟩ := hw.housed
    have hkept := PoolsKept.of_step ht hst hs hstep
    have hordered : Registry.Ordered w.registry := ⟨ht.registered, ht.finalResolved⟩
    have hmarket : ∀ {m : MarketId},
        (∃ market, w.registry.market m = some market ∧ market.collateral = collateral) →
        ∃ market, w'.registry.market m = some market ∧ market.collateral = collateral := by
      intro m hm
      exact hfollow.kept hordered (P := fun market => market.collateral = collateral)
        (fun _ _ _ hsame hold => hsame.trans hold) hm
    refine ⟨hfurnished, collateral, hkept.modules.trans hmods, ?_⟩
    intro j pool' hpool' hpos
    rcases hkept.pools j pool' hpool' hpos with ⟨pool, hpool, hid, hle⟩ | ⟨m, hm, hnew⟩
    · have hold := hhoused j pool hpool (hpos.trans_le hle)
      refine ⟨hle.trans hold.sharesFit, ?_⟩
      rw [hid]
      exact hmarket hold.market
    · rw [hmods] at hm
      obtain rfl := ok_ok.mp hm
      exact ⟨hnew.sharesFit, hmarket hnew.market⟩

end DikeProtocol.Trading
