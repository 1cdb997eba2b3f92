import DikeProtocol.Factory.Entry

/-!
# What identifies a market and a pool

The entry points of the registry and of the market maker that only the factory
may invoke assign identifiers. All others keep the counters and whatever
identifies a stored market or pool.
-/

namespace DikeProtocol.Factory

open Lib

/-- What identifies a market: its own identifier, its pool, its tokens and its creator. -/
def marketMarks (market : MarketData) : MarketId × ℕ × ℕ × ℕ × Address :=
  (market.id, market.poolId, market.yesTokenId, market.noTokenId, market.creator)

/-- What identifies a pool. -/
def poolMarks (pool : PoolData) : ℕ × MarketId := (pool.id, pool.marketId)

/-- A registry with the same counter, the same factory and the same markets, whatever their
status. -/
structure RegistryKept (r r' : RegistryState) : Prop where
  counter : r'.nextMarketId = r.nextMarketId
  factory : r'.roles .factory = r.roles .factory
  markets : ∀ i, (r'.market i).map marketMarks = (r.market i).map marketMarks

/-- A market maker with the same counter, the same factory and the same pools, whatever they
hold. -/
structure AmmKept (a a' : AmmState) : Prop where
  counter : a'.nextPoolId = a.nextPoolId
  factory : a'.roles .factory = a.roles .factory
  pools : ∀ i, (a'.pool i).map poolMarks = (a.pool i).map poolMarks

/-- Another state of a stored market keeps what identifies the markets. -/
theorem writeMarket_kept {r : RegistryState} {i : MarketId} {market market' : MarketData}
    (hm : r.market i = some market) (hid : market.id = i)
    (hmarks : marketMarks market' = marketMarks market) :
    RegistryKept r (Registry.writeMarket r market') := by
  refine ⟨rfl, rfl, ?_⟩
  intro j
  have hid' : market'.id = i := (Prod.mk.inj hmarks).1.trans hid
  unfold Registry.writeMarket
  dsimp only
  rw [Store.set_get, hid']
  split
  · next heq =>
    rw [heq, hm, Option.map_some, Option.map_some, hmarks]
  · rfl

/-- Another state of a stored pool keeps what identifies the pools. -/
theorem writePool_kept {a : AmmState} {i : ℕ} {pool pool' : PoolData} (hp : a.pool i = some pool)
    (hid : pool.id = i) (hmarks : poolMarks pool' = poolMarks pool) :
    AmmKept a (Amm.writePool a pool') := by
  refine ⟨rfl, rfl, ?_⟩
  intro j
  have hid' : pool'.id = i := (Prod.mk.inj hmarks).1.trans hid
  unfold Amm.writePool
  dsimp only
  rw [Store.set_get, hid']
  split
  · next heq =>
    rw [heq, hp, Option.map_some, Option.map_some, hmarks]
  · rfl

section Registry

variable {ctx : Ctx} {r r' : RegistryState}

/-- Another state of a market that was read keeps what identifies the markets. -/
theorem writeRead_kept (hid : ∀ i market, r.market i = some market → market.id = i) {i : MarketId}
    {market market' : MarketData} {fault : Fault} (hm : orFault (r.market i) fault = .ok market)
    (hmarks : marketMarks market' = marketMarks market) :
    RegistryKept r (Registry.writeMarket r market') :=
  writeMarket_kept (orFault_ok.mp hm) (hid i market (orFault_ok.mp hm)) hmarks

/-- A transition keeps what identifies the markets. -/
theorem transitionInternal_kept (hid : ∀ i market, r.market i = some market → market.id = i)
    {i : MarketId} {next : MarketStatus} (h : Registry.transitionInternal r i next = .ok r') :
    RegistryKept r r' := by
  obtain ⟨market, hm, h⟩ := bind_ok.mp h
  obtain ⟨_, _, h⟩ := bind_ok.mp h
  obtain rfl := pure_ok.mp h
  exact writeRead_kept hid hm rfl

/-- An invocation of the registry that assigns no identifier and no factory. -/
def assigns : Registry.RegistryOp → Bool
  | .registerMarket _ _ _ _ => true
  | .setRole role _ => role = .factory
  | _ => false

/-- Every other invocation of the registry keeps what identifies the markets. -/
theorem registryExec_kept (hid : ∀ i market, r.market i = some market → market.id = i)
    {op : Registry.RegistryOp} (hop : assigns op = false) (h : op.exec ctx r = .ok r') :
    RegistryKept r r' := by
  cases op with
  | registerMarket => cases hop
  | setRole role module =>
    obtain ⟨_, _, h⟩ := bind_ok.mp h
    obtain rfl := pure_ok.mp h
    have hne : Role.factory ≠ role := fun heq => of_decide_eq_false hop heq.symm
    exact ⟨rfl, Store.set_get_of_ne _ _ hne, fun _ => rfl⟩
  | setAdmin | setSupportedCollateral | pauseSystem | upgrade =>
    obtain ⟨_, _, h⟩ := bind_ok.mp h
    obtain rfl := pure_ok.mp h
    exact ⟨rfl, rfl, fun _ => rfl⟩
  | setFeeConfig i feeConfig =>
    obtain ⟨_, _, h⟩ := bind_ok.mp h
    obtain ⟨_, _, h⟩ := bind_ok.mp h
    obtain ⟨market, hm, h⟩ := bind_ok.mp h
    obtain ⟨_, _, h⟩ := bind_ok.mp h
    obtain rfl := pure_ok.mp h
    exact writeRead_kept hid hm rfl
  | markResolutionRequested i requestId =>
    obtain ⟨_, _, h⟩ := bind_ok.mp h
    obtain ⟨market, hm, h⟩ := bind_ok.mp h
    obtain ⟨_, _, h⟩ := bind_ok.mp h
    obtain rfl := pure_ok.mp h
    exact writeRead_kept hid hm rfl
  | setFinalOutcome i outcome =>
    obtain ⟨_, _, h⟩ := bind_ok.mp h
    obtain ⟨market, hm, h⟩ := bind_ok.mp h
    obtain ⟨_, _, h⟩ := bind_ok.mp h
    obtain ⟨_, _, h⟩ := bind_ok.mp h
    obtain rfl := pure_ok.mp h
    exact writeRead_kept hid hm rfl
  | closeTrading i =>
    obtain ⟨_, _, h⟩ := bind_ok.mp h
    obtain ⟨_, _, h⟩ := bind_ok.mp h
    exact transitionInternal_kept hid h
  | setStatus | activateMarket | markProposed | markDisputed | markCouncilVoting | cancelMarket =>
    obtain ⟨_, _, h⟩ := bind_ok.mp h
    exact transitionInternal_kept hid h

end Registry

/-- A world in which only the vault, the tokens and balances of foreign tokens differ. -/
def Aside (w w' : World) : Prop :=
  ∃ v b t, w' = { w with vault := v, bank := b, tokens := t }

namespace Aside

variable {ctx : Ctx} {w w' w'' : World} {m : Amm.Modules} {marketId : MarketId}

/-- One after the other. -/
theorem trans (h : Aside w w') (h' : Aside w' w'') : Aside w w'' := by
  obtain ⟨_, _, _, rfl⟩ := h
  obtain ⟨v, b, t, rfl⟩ := h'
  exact ⟨v, b, t, rfl⟩

/-- The market maker is the same. -/
theorem amm (h : Aside w w') : w'.amm = w.amm := by
  obtain ⟨_, _, _, rfl⟩ := h
  rfl

/-- The registry is the same. -/
theorem registry (h : Aside w w') : w'.registry = w.registry := by
  obtain ⟨_, _, _, rfl⟩ := h
  rfl

/-- The factory is the same. -/
theorem factory (h : Aside w w') : w'.factory = w.factory := by
  obtain ⟨_, _, _, rfl⟩ := h
  rfl

/-- An invocation of the vault. -/
theorem of_vault {op : Vault.VaultOp} (h : op.exec ctx w = .ok w') : Aside w w' := by
  obtain ⟨v, b, t, hshape, _⟩ := op.exec_shape h
  exact ⟨v, b, t, hshape⟩

/-- A deposit. -/
theorem depositForMarket {user : Address} {x : ℤ}
    (h : Amm.depositForMarket ctx w m user marketId x = .ok w') : Aside w w' :=
  @of_vault _ _ _ (.depositForMarket m.collateral user marketId x) (Amm.depositForMarket_ok h)

/-- Minting. -/
theorem mintCompleteSet {x : ℤ} (h : Amm.mintCompleteSet ctx w m marketId x = .ok w') :
    Aside w w' := by
  obtain ⟨t, _, _, rfl⟩ := Amm.mintCompleteSet_ok h
  exact ⟨_, _, t, rfl⟩

/-- Merging. -/
theorem mergePositions {x : ℤ} (h : Amm.mergePositions ctx w m marketId x = .ok w') :
    Aside w w' := by
  obtain ⟨t, _, rfl⟩ := Amm.mergePositions_ok h
  exact ⟨_, _, t, rfl⟩

/-- A transfer. -/
theorem transferPosition {a b : Address} {o : Outcome} {x : ℤ}
    (h : Amm.transferPosition ctx w m a b marketId o x = .ok w') : Aside w w' := by
  obtain ⟨_, _, _, _, t, _, rfl⟩ := Tokens.transferPosition_ok (Amm.transferPosition_ok h)
  exact ⟨_, _, t, rfl⟩

/-- Booking a fee. -/
theorem collectFee {fees : Amm.FeeParts} (h : Amm.collectFee ctx w m marketId fees = .ok w') :
    Aside w w' :=
  @of_vault _ _ _ (.collectFee marketId fees.lp fees.treasury fees.cod) (Amm.collectFee_ok h)

/-- Paying fees. -/
theorem payLpFees {lp : Address} {x : ℤ} (h : Amm.payLpFees ctx w m marketId lp x = .ok w') :
    Aside w w' := by
  rcases Amm.payLpFees_ok h with h | rfl
  · exact @of_vault _ _ _ (.claimLpFees m.collateral marketId lp x) h
  · exact ⟨_, _, _, rfl⟩

/-- Paying for a purchase. -/
theorem fundPurchase {trader : Address} {o : Outcome} {x y : ℤ}
    {parent : Option (MarketId × Outcome)}
    (h : Amm.fundPurchase ctx w m trader marketId o x y parent = .ok w') : Aside w w' := by
  cases parent with
  | some p =>
    obtain ⟨_, _, h⟩ := bind_ok.mp h
    exact @of_vault _ _ _ (.openChildCreditForTrade trader p.1 p.2 marketId o x) h
  | none =>
    obtain ⟨w1, h1, h⟩ := bind_ok.mp h
    obtain ⟨_, _, h⟩ := bind_ok.mp h
    exact (depositForMarket h1).trans (@of_vault _ _ _ (.recordCashStake trader marketId o x y) h)

end Aside

namespace AmmKept

variable {ctx : Ctx} {w w' : World}

/-- The same counter, factory and pools. -/
theorem of_pool {a a' : AmmState} (hcounter : a'.nextPoolId = a.nextPoolId)
    (hroles : a'.roles = a.roles) (hpool : a'.pool = a.pool) : AmmKept a a' := by
  refine ⟨hcounter, by rw [hroles], fun i => by rw [hpool]⟩

/-- One pool rewritten after calls that left the market maker alone. -/
theorem written {w1 : World} (hid : ∀ i pool, w.amm.pool i = some pool → pool.id = i) {i : ℕ}
    {pool pool' : PoolData} (hp : w.amm.pool i = some pool)
    (hmarks : poolMarks pool' = poolMarks pool) (haside : Aside w w1) :
    AmmKept w.amm (Amm.writePool w1.amm pool') := by
  rw [haside.amm]
  exact writePool_kept hp (hid i pool hp) hmarks

/-- A trade keeps what identifies its pool. -/
theorem traded {w1 : World} (hid : ∀ i pool, w.amm.pool i = some pool → pool.id = i) {i : ℕ}
    {pool pool' : PoolData} {fee : ℤ} (hp : w.amm.pool i = some pool)
    (htraded : Amm.Traded pool pool' fee) (haside : Aside w w1) :
    AmmKept w.amm (Amm.writePool w1.amm pool') :=
  written hid hp (Prod.ext htraded.id htraded.marketId) haside

/-- A purchase keeps what identifies the pools. -/
theorem buy (hid : ∀ i pool, w.amm.pool i = some pool → pool.id = i) {trader : Address} {poolId : ℕ}
    {amountIn minOut out : ℤ} {deadline : ℕ} {yes : Bool} {parent : Option (MarketId × Outcome)}
    (h : Amm.buy ctx w trader poolId amountIn minOut deadline yes parent = .ok (out, w')) :
    AmmKept w.amm w'.amm ∧ w'.registry = w.registry ∧ w'.factory = w.factory := by
  obtain ⟨pool, m, fee, netIn, fees, pool1, pool2, w1, w2, w3, w4, _, hpool, _, _, h1, h2, hfees,
    h3, hreserves, h4, rfl⟩ := Amm.buy_writes h
  have haside := (((Aside.fundPurchase h1).trans (.mintCompleteSet h2)).trans
    (.collectFee h3)).trans (.transferPosition h4)
  exact ⟨traded hid hpool (Amm.bought_traded hfees hreserves).1 haside, haside.registry,
    haside.factory⟩

/-- A sale keeps what identifies the pools. -/
theorem sell (hid : ∀ i pool, w.amm.pool i = some pool → pool.id = i) {trader : Address}
    {poolId : ℕ} {amountIn minOut netOut : ℤ} {deadline : ℕ} {yes : Bool}
    (h : Amm.sell ctx w trader poolId amountIn minOut deadline yes = .ok (netOut, w')) :
    AmmKept w.amm w'.amm ∧ w'.registry = w.registry ∧ w'.factory = w.factory := by
  obtain ⟨pool, m, fee, gross, fees, pool1, pool2, w1, w2, w3, w4, _, hpool, _, _, hfees, h1, h2,
    h3, h4, hreserves, rfl⟩ := Amm.sell_writes h
  have hpaid : Aside w2 w3 := @Aside.of_vault _ _ _ (.releaseTradePayout m.collateral trader
    pool.marketId (Amm.outcomeOf yes) amountIn netOut) h3
  have haside := (((Aside.transferPosition h1).trans (.mergePositions h2)).trans hpaid).trans
    (.collectFee h4)
  exact ⟨traded hid hpool (Amm.sold_traded hfees hreserves).1 haside, haside.registry,
    haside.factory⟩

/-- A forced sale keeps what identifies the pools. -/
theorem forceSell (hid : ∀ i pool, w.amm.pool i = some pool → pool.id = i) {poolId : ℕ}
    {user : Address} {yes : Bool} {sold netOut : ℤ}
    (h : Amm.forceSell ctx w poolId user yes = .ok (sold, netOut, w')) :
    AmmKept w.amm w'.amm ∧ w'.registry = w.registry ∧ w'.factory = w.factory := by
  obtain ⟨pool, m, fee, gross, fees, pool1, pool2, t, w2, w3, hpool, _, _, _, _, hfees, _, h2, h3,
    hreserves, rfl⟩ := Amm.forceSell_writes h
  have hmoved : Aside w { w with tokens := t } := ⟨_, _, t, rfl⟩
  have haside := (hmoved.trans (.mergePositions h2)).trans (.collectFee h3)
  exact ⟨traded hid hpool (Amm.sold_traded hfees hreserves).1 haside, haside.registry,
    haside.factory⟩

/-- What follows beside the market maker does not matter. -/
theorem andThen {w1 : World} (h : AmmKept w.amm w1.amm ∧ w1.registry = w.registry ∧
    w1.factory = w.factory) (haside : Aside w1 w') :
    AmmKept w.amm w'.amm ∧ w'.registry = w.registry ∧ w'.factory = w.factory := by
  rw [haside.amm, haside.registry, haside.factory]
  exact h

/-- A pool and a provider's shares written keep what identifies the pools. -/
theorem withShares {w1 : World} (hid : ∀ i pool, w.amm.pool i = some pool → pool.id = i) {i : ℕ}
    {pool : PoolData} (hp : w.amm.pool i = some pool) (pool' : PoolData)
    (hmarks : poolMarks pool' = poolMarks pool) (haside : Aside w w1) (lp : Address) (shares : ℤ) :
    AmmKept w.amm (Amm.withShares w1 i pool' lp shares).amm ∧
      (Amm.withShares w1 i pool' lp shares).registry = w.registry ∧
      (Amm.withShares w1 i pool' lp shares).factory = w.factory := by
  have hwritten := written hid hp hmarks haside
  exact ⟨⟨hwritten.counter, hwritten.factory, hwritten.pools⟩, haside.registry, haside.factory⟩

/-- An invocation of the market maker that assigns an identifier or a factory. -/
def assigns : Amm.AmmOp → Bool
  | .createPool _ _ => true
  | .setRole role _ => role = .factory
  | _ => false

/-- Every other invocation of the market maker keeps what identifies the pools, the registry and
the factory. -/
theorem exec (hid : ∀ i pool, w.amm.pool i = some pool → pool.id = i) {op : Amm.AmmOp}
    (hop : assigns op = false) (h : op.exec ctx w = .ok w') :
    AmmKept w.amm w'.amm ∧ w'.registry = w.registry ∧ w'.factory = w.factory := by
  cases op with
  | createPool => cases hop
  | setRole role module =>
    obtain ⟨_, _, h⟩ := bind_ok.mp h
    obtain rfl := pure_ok.mp h
    have hne : Role.factory ≠ role := fun heq => of_decide_eq_false hop heq.symm
    exact ⟨⟨rfl, Store.set_get_of_ne _ _ hne, fun _ => rfl⟩, rfl, rfl⟩
  | setAdmin | upgrade | setModules | pause =>
    obtain ⟨_, _, h⟩ := bind_ok.mp h
    obtain rfl := pure_ok.mp h
    exact ⟨of_pool rfl rfl rfl, rfl, rfl⟩
  | seedLiquidity lp poolId amount =>
    obtain ⟨y, h⟩ := world_ok.mp h
    obtain ⟨pool, m, w1, w2, _, hpool, _, h1, h2, rfl⟩ := Amm.seedLiquidity_writes h
    have haside := (Aside.depositForMarket h1).trans (.mintCompleteSet h2)
    exact withShares hid hpool (Amm.seededPool pool amount) rfl haside lp amount
  | addLiquidity lp poolId amount =>
    obtain ⟨y, h⟩ := world_ok.mp h
    obtain ⟨pool, m, _, w1, w2, _, _, hpool, h1, h2, _, h3⟩ := Amm.addLiquidity_writes h
    have haside := (Aside.depositForMarket h1).trans (.mintCompleteSet h2)
    exact andThen (withShares hid hpool (Amm.resizedPool pool amount amount y) rfl haside lp _)
      (.payLpFees h3)
  | removeLiquidity lp poolId shares =>
    obtain ⟨⟨yesOut, noOut, w3⟩, hremove, h⟩ := bind_ok.mp h
    obtain rfl := pure_ok.mp h
    obtain ⟨pool, m, _, w1, w2, _, _, hpool, _, _, _, _, _, h1, h2, h3⟩ :=
      Amm.removeLiquidity_writes hremove
    have haside : Aside w w := ⟨_, _, _, rfl⟩
    exact andThen (withShares hid hpool (Amm.resizedPool pool (-yesOut) (-noOut) (-shares)) rfl
      haside lp _)
      (((Aside.payLpFees h1).trans (.transferPosition h2)).trans (.transferPosition h3))
  | claimLpFees lp poolId =>
    obtain ⟨y, h⟩ := world_ok.mp h
    obtain ⟨pool, _, rfl | ⟨m, _, _, h1⟩⟩ := Amm.claimLpFees_writes h
    · exact ⟨of_pool rfl rfl rfl, rfl, rfl⟩
    · have hpaid := Aside.payLpFees h1
      rw [hpaid.amm, hpaid.registry, hpaid.factory]
      exact ⟨of_pool rfl rfl rfl, rfl, rfl⟩
  | buyYes | buyNo | buyChildYes | buyChildNo =>
    obtain ⟨y, h⟩ := world_ok.mp h
    exact buy hid h
  | sellYes | sellNo =>
    obtain ⟨y, h⟩ := world_ok.mp h
    exact sell hid h
  | liquidatePosition liquidator user parentPoolId parentOutcome =>
    obtain ⟨y, h⟩ := world_ok.mp h
    obtain ⟨pool, m, _, _, _, sold, proceeds, w1, _, _, _, _, _, _, _, h1, h2⟩ :=
      Amm.liquidate_steps h
    exact andThen (forceSell hid h1) (@Aside.of_vault _ _ _ (.liquidateRelease m.collateral user
      liquidator pool.marketId parentOutcome sold proceeds) (world_ok.mpr ⟨y, h2⟩))
  | liquidateChildPosition liquidator user childPoolId childOutcome =>
    obtain ⟨y, h⟩ := world_ok.mp h
    obtain ⟨pool, m, _, _, _, sold, proceeds, w1, _, _, _, _, _, _, _, h1, h2⟩ :=
      Amm.liquidate_steps h
    exact andThen (forceSell hid h1) (@Aside.of_vault _ _ _ (.liquidateChildRelease m.collateral
      user liquidator pool.marketId childOutcome sold proceeds) (world_ok.mpr ⟨y, h2⟩))

end AmmKept

end DikeProtocol.Factory
