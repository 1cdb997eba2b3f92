import DikeProtocol.Factory.Frame
import DikeProtocol.Trading.Inventory

/-!
# What an invocation publishes

The events that the market maker and the conditional tokens publish about
balances and pools. They are complete: an invocation changes no balance and no
pool that none of its events names.
-/

namespace DikeProtocol.Trading

open Lib

/-- An event about balances of outcome tokens or about a pool, with its fields. -/
inductive ChainEvent where
  | split (marketId : MarketId) (user : Address) (amount : ℤ)
  | merge (marketId : MarketId) (user : Address) (amount : ℤ)
  | posXfer (marketId : MarketId) (sender recipient : Address) (outcome : Outcome) (amount : ℤ)
  | posFxfer (marketId : MarketId) (sender recipient : Address) (outcome : Outcome) (amount : ℤ)
  | burn (marketId : MarketId) (owner : Address) (outcome : Outcome) (amount : ℤ)
  | losebrn (marketId : MarketId) (owner : Address) (outcome : Outcome) (amount : ℤ)
  | pool (marketId : MarketId) (poolId : ℕ)
  | seed (poolId : ℕ) (lp : Address) (amount : ℤ)
  | lpAdd (poolId : ℕ) (lp : Address) (amount shares : ℤ)
  | lpRm (poolId : ℕ) (lp : Address) (shares yesOut noOut : ℤ)
  | buy (poolId : ℕ) (trader : Address) (yes : Bool) (amountIn amountOut : ℤ)
  | sell (poolId : ℕ) (trader : Address) (yes : Bool) (amountIn amountOut : ℤ)
  | liquidate (poolId : ℕ) (user liquidator : Address) (yes : Bool) (tokensSold proceeds : ℤ)
  deriving DecidableEq

/-- The balances an event of the tokens says changed. -/
def ChainEvent.positions : ChainEvent → List (MarketId × Address × Outcome)
  | split m user _ => [(m, user, .yes), (m, user, .no)]
  | merge m user _ => [(m, user, .yes), (m, user, .no)]
  | posXfer m sender recipient o _ => [(m, sender, o), (m, recipient, o)]
  | posFxfer m sender recipient o _ => [(m, sender, o), (m, recipient, o)]
  | burn m owner o _ => [(m, owner, o)]
  | losebrn m owner o _ => [(m, owner, o)]
  | _ => []

/-- The pool an event of the market maker says changed. -/
def ChainEvent.changedPool : ChainEvent → Option ℕ
  | pool _ poolId => some poolId
  | seed poolId _ _ => some poolId
  | lpAdd poolId _ _ _ => some poolId
  | lpRm poolId _ _ _ _ => some poolId
  | buy poolId _ _ _ _ => some poolId
  | sell poolId _ _ _ _ => some poolId
  | liquidate poolId _ _ _ _ _ => some poolId
  | _ => none

/-- The events of a purchase. -/
def buyEvents (ctx : Ctx) (w : World) (trader : Address) (poolId : ℕ) (amountIn minOut : ℤ)
    (deadline : ℕ) (yes : Bool) (parent : Option (MarketId × Outcome)) : Res (List ChainEvent) := do
  let pool ← Amm.readPool w.amm poolId
  let (_, netIn) ← splitFee amountIn (w.amm.poolFee poolId).tradingFeeBps
  let (out, _) ← Amm.buy ctx w trader poolId amountIn minOut deadline yes parent
  return [.split pool.marketId (.contract .amm) netIn,
    .posXfer pool.marketId (.contract .amm) trader (Amm.outcomeOf yes) out,
    .buy poolId trader yes amountIn out]

/-- The events of a sale. -/
def sellEvents (ctx : Ctx) (w : World) (trader : Address) (poolId : ℕ) (amountIn minOut : ℤ)
    (deadline : ℕ) (yes : Bool) : Res (List ChainEvent) := do
  let pool ← Amm.readPool w.amm poolId
  let grossOut ← Amm.quoteSellOf pool yes amountIn
  let (netOut, _) ← Amm.sell ctx w trader poolId amountIn minOut deadline yes
  return [.posXfer pool.marketId trader (.contract .amm) (Amm.outcomeOf yes) amountIn,
    .merge pool.marketId (.contract .amm) grossOut, .sell poolId trader yes amountIn netOut]

/-- The events of a liquidation, whose sale is forced. -/
def liquidateEvents (ctx : Ctx) (w : World) (liquidator user : Address) (poolId : ℕ)
    (outcome : Outcome) : Res (List ChainEvent) := do
  let pool ← Amm.readPool w.amm poolId
  let yes := decide (outcome = .yes)
  let (tokensSold, proceeds, _) ← Amm.forceSell ctx w poolId user yes
  let grossOut ← Amm.quoteSellOf pool yes tokensSold
  return [.posFxfer pool.marketId user (.contract .amm) (Amm.outcomeOf yes) tokensSold,
    .merge pool.marketId (.contract .amm) grossOut,
    .liquidate poolId user liquidator yes tokensSold proceeds]

/-- The events of an invocation of the market maker. -/
def ammEvents (ctx : Ctx) (w : World) : Amm.AmmOp → Res (List ChainEvent)
  | .createPool marketId _ => return [.pool marketId w.amm.nextPoolId]
  | .seedLiquidity lp poolId amount => do
    let pool ← Amm.readPool w.amm poolId
    return [.split pool.marketId (.contract .amm) amount, .seed poolId lp amount]
  | .addLiquidity lp poolId amount => do
    let pool ← Amm.readPool w.amm poolId
    let (shares, _) ← Amm.addLiquidity ctx w lp poolId amount
    return [.split pool.marketId (.contract .amm) amount, .lpAdd poolId lp amount shares]
  | .removeLiquidity lp poolId shares => do
    let pool ← Amm.readPool w.amm poolId
    let (yesOut, noOut, _) ← Amm.removeLiquidity ctx w lp poolId shares
    return [.posXfer pool.marketId (.contract .amm) lp .yes yesOut,
      .posXfer pool.marketId (.contract .amm) lp .no noOut, .lpRm poolId lp shares yesOut noOut]
  | .buyYes trader poolId amountIn minOut deadline =>
    buyEvents ctx w trader poolId amountIn minOut deadline true none
  | .buyNo trader poolId amountIn minOut deadline =>
    buyEvents ctx w trader poolId amountIn minOut deadline false none
  | .buyChildYes trader parentMarketId parentOutcome poolId amountIn minOut deadline =>
    buyEvents ctx w trader poolId amountIn minOut deadline true
      (some (parentMarketId, parentOutcome))
  | .buyChildNo trader parentMarketId parentOutcome poolId amountIn minOut deadline =>
    buyEvents ctx w trader poolId amountIn minOut deadline false
      (some (parentMarketId, parentOutcome))
  | .sellYes trader poolId amountIn minOut deadline =>
    sellEvents ctx w trader poolId amountIn minOut deadline true
  | .sellNo trader poolId amountIn minOut deadline =>
    sellEvents ctx w trader poolId amountIn minOut deadline false
  | .liquidatePosition liquidator user parentPoolId parentOutcome =>
    liquidateEvents ctx w liquidator user parentPoolId parentOutcome
  | .liquidateChildPosition liquidator user childPoolId childOutcome =>
    liquidateEvents ctx w liquidator user childPoolId childOutcome
  | _ => return []

/-- The events that redemptions have the tokens publish. -/
def vaultEvents : Vault.VaultOp → List ChainEvent
  | .redeemResolved _ user marketId outcome amount => [.burn marketId user outcome amount]
  | .redeemCancelled _ user marketId outcome amount => [.burn marketId user outcome amount]
  | _ => []

/-- The events of an invocation of the tokens. -/
def tokensEvents : Tokens.TokensOp → List ChainEvent
  | .mintCompleteSet recipient marketId amount => [.split marketId recipient amount]
  | .splitPosition user marketId amount => [.split marketId user amount]
  | .mergePositions user marketId amount => [.merge marketId user amount]
  | .transferPosition sender recipient marketId outcome amount =>
    [.posXfer marketId sender recipient outcome amount]
  | .transferPositionForced sender recipient marketId outcome amount =>
    [.posFxfer marketId sender recipient outcome amount]
  | .burnForRedeem owner marketId outcome amount => [.burn marketId owner outcome amount]
  | .burnLosing owner marketId outcome amount => [.losebrn marketId owner outcome amount]
  | _ => []

/-- The events of an invocation that succeeds. -/
def TradeOp.events (ctx : Ctx) (w : World) : TradeOp → Res (List ChainEvent)
  | amm op => ammEvents ctx w op
  | vault op => return vaultEvents op
  | tokens op => return tokensEvents op
  | registry _ => return []

/-- Every changed balance and every changed pool is named by one of the events. -/
structure Explains (w w' : World) (events : List ChainEvent) : Prop where
  balances : ∀ k, w'.tokens.balance k ≠ w.tokens.balance k → ∃ event ∈ events, k ∈ event.positions
  pools : ∀ p, w'.amm.pool p ≠ w.amm.pool p → ∃ event ∈ events, event.changedPool = some p

namespace Explains

variable {ctx : Ctx} {w w' w'' : World} {events events' : List ChainEvent} {m : Amm.Modules}
  {marketId : MarketId}

/-- No event is needed where neither balances nor pools change. -/
theorem same (hbalance : w'.tokens.balance = w.tokens.balance) (hpool : w'.amm.pool = w.amm.pool) :
    Explains w w' [] := by
  refine ⟨?_, ?_⟩
  · intro k hk
    exact absurd (by rw [hbalance]) hk
  · intro p hp
    exact absurd (by rw [hpool]) hp

/-- One after the other. -/
theorem trans (h : Explains w w' events) (h' : Explains w' w'' events') :
    Explains w w'' (events ++ events') := by
  refine ⟨?_, ?_⟩
  · intro k hk
    by_cases hfirst : w'.tokens.balance k = w.tokens.balance k
    · obtain ⟨event, hmem, hnamed⟩ := h'.balances k (by rw [hfirst]; exact hk)
      exact ⟨event, List.mem_append_right _ hmem, hnamed⟩
    · obtain ⟨event, hmem, hnamed⟩ := h.balances k hfirst
      exact ⟨event, List.mem_append_left _ hmem, hnamed⟩
  · intro p hp
    by_cases hfirst : w'.amm.pool p = w.amm.pool p
    · obtain ⟨event, hmem, hnamed⟩ := h'.pools p (by rw [hfirst]; exact hp)
      exact ⟨event, List.mem_append_right _ hmem, hnamed⟩
    · obtain ⟨event, hmem, hnamed⟩ := h.pools p hfirst
      exact ⟨event, List.mem_append_left _ hmem, hnamed⟩

/-- The order of the events does not matter. -/
theorem perm (h : Explains w w' events) (hperm : events.Perm events') : Explains w w' events' := by
  refine ⟨?_, ?_⟩
  · intro k hk
    obtain ⟨event, hmem, hnamed⟩ := h.balances k hk
    exact ⟨event, hperm.mem_iff.mp hmem, hnamed⟩
  · intro p hp
    obtain ⟨event, hmem, hnamed⟩ := h.pools p hp
    exact ⟨event, hperm.mem_iff.mp hmem, hnamed⟩

/-- An event of the tokens that names each balance they changed. -/
theorem ofTokens {t : TokensState} {event : ChainEvent}
    (h : ∀ k, k ∉ event.positions → t.balance k = w.tokens.balance k) :
    Explains w { w with tokens := t } [event] := by
  refine ⟨?_, fun p hp => absurd rfl hp⟩
  intro k hk
  exact ⟨event, List.mem_singleton_self _, by_contra fun hnot => hk (h k hnot)⟩

/-- An event that names the pool that was written. -/
theorem ofPool {p : ℕ} (pool : PoolData) (event : ChainEvent) (hnamed : event.changedPool = some p)
    (htokens : w'.tokens = w.tokens) (hpool : w'.amm.pool = w.amm.pool.set p (some pool)) :
    Explains w w' [event] := by
  refine ⟨?_, ?_⟩
  · intro k hk
    exact absurd (by rw [htokens]) hk
  · intro q hq
    rw [hpool] at hq
    by_cases heq : q = p
    · rw [heq]
      exact ⟨event, List.mem_singleton_self _, hnamed⟩
    · exact absurd (Store.set_get_of_ne _ _ heq) hq

/-- Minted sets. -/
theorem split {t : TokensState} {user : Address} {x : ℤ}
    (h : Tokens.creditCompleteSet w.tokens marketId user x = .ok t) :
    Explains w { w with tokens := t } [.split marketId user x] := by
  obtain ⟨_, _, hbalance⟩ := Tokens.creditCompleteSet_ok h
  refine ofTokens ?_
  intro k hk
  rw [hbalance, if_neg, add_zero]
  rintro (rfl | rfl) <;> exact hk (by simp [ChainEvent.positions])

/-- Merged sets. -/
theorem merge {t : TokensState} {user : Address} {x : ℤ}
    (h : Tokens.mergePositions ctx w.tokens user marketId x = .ok t) :
    Explains w { w with tokens := t } [.merge marketId user x] := by
  obtain ⟨_, _, _, _, _, hbalance⟩ := Tokens.mergePositions_ok h
  refine ofTokens ?_
  intro k hk
  rw [hbalance, if_neg, sub_zero]
  rintro (rfl | rfl) <;> exact hk (by simp [ChainEvent.positions])

/-- A balance that is not one of the two a move is about stays. -/
theorem move {t : TokensState} {a b : Address} {o : Outcome} {x : ℤ} (event : ChainEvent)
    (hnamed : event.positions = [(marketId, a, o), (marketId, b, o)])
    (h : Tokens.moveBalance w.tokens a b marketId o x = .ok t) :
    Explains w { w with tokens := t } [event] := by
  obtain ⟨_, _, _, hbalance⟩ := Tokens.moveBalance_ok h
  refine ofTokens ?_
  intro k hk
  rw [hnamed] at hk
  rw [hbalance, if_neg, if_neg, sub_zero, add_zero]
  all_goals
    rintro rfl
    exact hk (by simp)

/-- A balance that is not the one burned stays. -/
theorem burn {t : TokensState} {a : Address} {o : Outcome} {x : ℤ} (event : ChainEvent)
    (hnamed : event.positions = [(marketId, a, o)])
    (h : Tokens.subBalance w.tokens marketId a o x = .ok t) :
    Explains w { w with tokens := t } [event] := by
  obtain ⟨_, rfl⟩ := Tokens.subBalance_ok h
  refine ofTokens ?_
  intro k hk
  rw [hnamed] at hk
  exact Store.set_get_of_ne _ _ (fun heq => hk (by rw [heq]; exact List.mem_singleton_self _))

/-- An invocation of the vault changes a balance only where a redemption burns. -/
theorem vault {op : Vault.VaultOp} (h : op.exec ctx w = .ok w') :
    Explains w w' (vaultEvents op) := by
  have hredeem : ∀ {t : TokensState} {u : Address} {o : Outcome} {x : ℤ} {called : Ctx}
      {i : MarketId} {v : VaultState} {b : Bank},
      Tokens.burnForRedeem called w.tokens u i o x = .ok t →
      Explains w { w with vault := v, bank := b, tokens := t } [.burn i u o x] := by
    intro t u o x called i v b hburn
    have hburned := burn (.burn i u o x) rfl (Tokens.burnForRedeem_ok hburn).2
    exact ⟨hburned.balances, hburned.pools⟩
  cases op with
  | openChildCreditForTrade user p po c co x =>
    obtain ⟨_, _, _, _, _, _, v1, v2, _, _, rfl⟩ := Vault.openChildCreditForTrade_steps h
    exact same rfl rfl
  | repayChildCollateral t user c x =>
    obtain ⟨y, h⟩ := world_ok.mp h
    obtain ⟨_, _, v, b, _, rfl⟩ := Vault.repayChildCollateral_steps h
    exact same rfl rfl
  | liquidateRelease t user keeper p o sold x =>
    obtain ⟨y, h⟩ := world_ok.mp h
    obtain ⟨_, _, _, _, v1, remainder, v2, v3, b, _, _, _, rfl⟩ := Vault.liquidateRelease_steps h
    exact same rfl rfl
  | liquidateChildRelease t user keeper c o sold x =>
    obtain ⟨y, h⟩ := world_ok.mp h
    obtain ⟨_, _, _, _, v1, v2, v3, b, _, _, _, rfl⟩ := Vault.liquidateChildRelease_steps h
    exact same rfl rfl
  | redeemResolved t user i o amount =>
    obtain ⟨y, h⟩ := world_ok.mp h
    obtain ⟨_, market, gross, v1, t1, v2, called, _, _, _, _, hburn, _, hpay⟩ :=
      Vault.redeemResolved_steps h
    obtain ⟨_, rfl⟩ := Vault.payRedemption_ok hpay
    exact hredeem hburn
  | redeemCancelled t user i o amount =>
    obtain ⟨y, h⟩ := world_ok.mp h
    obtain ⟨_, market, t1, v1, called, _, _, _, hburn, _, hpay⟩ := Vault.redeemCancelled_steps h
    obtain ⟨_, rfl⟩ := Vault.payRedemption_ok hpay
    exact hredeem hburn
  | _ =>
    obtain ⟨v, b, t, rfl, rfl | ⟨i, u, o, x, hu, _⟩⟩ := Vault.VaultOp.exec_shape h
    · exact same rfl rfl
    · cases hu

/-- A deposit. -/
theorem depositForMarket {user : Address} {x : ℤ}
    (h : Amm.depositForMarket ctx w m user marketId x = .ok w') : Explains w w' [] :=
  @vault _ _ _ (.depositForMarket m.collateral user marketId x) (Amm.depositForMarket_ok h)

/-- Minting for the market maker. -/
theorem mintCompleteSet {x : ℤ} (h : Amm.mintCompleteSet ctx w m marketId x = .ok w') :
    Explains w w' [.split marketId (.contract .amm) x] := by
  obtain ⟨t, _, ht, rfl⟩ := Amm.mintCompleteSet_ok h
  exact split ht

/-- Merging by the market maker. -/
theorem mergePositions {x : ℤ} (h : Amm.mergePositions ctx w m marketId x = .ok w') :
    Explains w w' [.merge marketId (.contract .amm) x] := by
  obtain ⟨t, ht, rfl⟩ := Amm.mergePositions_ok h
  exact merge ht

/-- A transfer. -/
theorem transferPosition {a b : Address} {o : Outcome} {x : ℤ}
    (h : Tokens.transferPosition ctx w a b marketId o x = .ok w') :
    Explains w w' [.posXfer marketId a b o x] := by
  obtain ⟨_, _, _, _, t, ht, rfl⟩ := Tokens.transferPosition_ok h
  exact move (.posXfer marketId a b o x) rfl ht

/-- Booking a fee. -/
theorem collectFee {fees : Amm.FeeParts} (h : Amm.collectFee ctx w m marketId fees = .ok w') :
    Explains w w' [] :=
  @vault _ _ _ (.collectFee marketId fees.lp fees.treasury fees.cod) (Amm.collectFee_ok h)

/-- Paying fees. -/
theorem payLpFees {lp : Address} {x : ℤ} (h : Amm.payLpFees ctx w m marketId lp x = .ok w') :
    Explains w w' [] := by
  rcases Amm.payLpFees_ok h with h | rfl
  · exact @vault _ _ _ (.claimLpFees m.collateral marketId lp x) h
  · exact same rfl rfl

/-- Paying for a purchase. -/
theorem fundPurchase {trader : Address} {o : Outcome} {x y : ℤ}
    {parent : Option (MarketId × Outcome)}
    (h : Amm.fundPurchase ctx w m trader marketId o x y parent = .ok w') : Explains w w' [] := by
  cases parent with
  | some p =>
    obtain ⟨_, _, h⟩ := bind_ok.mp h
    exact @vault _ _ _ (.openChildCreditForTrade trader p.1 p.2 marketId o x) h
  | none =>
    obtain ⟨w1, h1, h⟩ := bind_ok.mp h
    obtain ⟨_, _, h⟩ := bind_ok.mp h
    exact (depositForMarket h1).trans (@vault _ _ _ (.recordCashStake trader marketId o x y) h)

/-- A trade writes its pool last. -/
theorem written {p : ℕ} {pool pool' : PoolData} {fee : ℤ} (event : ChainEvent)
    (hnamed : event.changedPool = some p) (htraded : Amm.Traded pool pool' fee)
    (hid : pool.id = p) (h : Explains w w' events) :
    Explains w { w' with amm := Amm.writePool w'.amm pool' } (events ++ [event]) := by
  refine h.trans (ofPool pool' event hnamed rfl ?_)
  dsimp only [Amm.writePool]
  rw [htraded.id, hid]

section Pools

variable (hid : ∀ i pool, w.amm.pool i = some pool → pool.id = i)

include hid

/-- A purchase. -/
theorem buy {trader : Address} {poolId : ℕ} {amountIn minOut out : ℤ} {deadline : ℕ} {yes : Bool}
    {parent : Option (MarketId × Outcome)}
    (h : Amm.buy ctx w trader poolId amountIn minOut deadline yes parent = .ok (out, w')) :
    ∃ events, buyEvents ctx w trader poolId amountIn minOut deadline yes parent = .ok events ∧
      Explains w w' events := by
  obtain ⟨pool, m, fee, netIn, fees, pool1, pool2, w1, w2, w3, w4, _, hpool, hsplit, _, h1, h2,
    hfees, h3, hreserves, h4, hw'⟩ := Amm.buy_writes h
  have htransfer := transferPosition (Amm.transferPosition_ok h4)
  have hcalls :=
    (((fundPurchase h1).trans (mintCompleteSet h2)).trans (collectFee h3)).trans htransfer
  have hread : Amm.readPool w.amm poolId = .ok pool := orFault_ok.mpr hpool
  refine ⟨_, bind_ok.mpr ⟨_, hread, bind_ok.mpr ⟨_, hsplit, bind_ok.mpr ⟨_, h, rfl⟩⟩⟩, ?_⟩
  rw [hw']
  exact written (.buy poolId trader yes amountIn out) rfl
    (Amm.bought_traded hfees hreserves).1 (hid poolId pool hpool) hcalls

/-- A sale. -/
theorem sell {trader : Address} {poolId : ℕ} {amountIn minOut netOut : ℤ} {deadline : ℕ}
    {yes : Bool}
    (h : Amm.sell ctx w trader poolId amountIn minOut deadline yes = .ok (netOut, w')) :
    ∃ events, sellEvents ctx w trader poolId amountIn minOut deadline yes = .ok events ∧
      Explains w w' events := by
  obtain ⟨pool, m, fee, gross, fees, pool1, pool2, w1, w2, w3, w4, _, hpool, hgross, _, hfees, h1,
    h2, h3, h4, hreserves, hw'⟩ := Amm.sell_writes h
  have htransfer := transferPosition (Amm.transferPosition_ok h1)
  have hpaid : Explains w2 w3 [] := @vault _ _ _ (.releaseTradePayout m.collateral trader
    pool.marketId (Amm.outcomeOf yes) amountIn netOut) h3
  have hcalls := ((htransfer.trans (mergePositions h2)).trans hpaid).trans (collectFee h4)
  have hread : Amm.readPool w.amm poolId = .ok pool := orFault_ok.mpr hpool
  refine ⟨_, bind_ok.mpr ⟨_, hread, bind_ok.mpr ⟨_, hgross, bind_ok.mpr ⟨_, h, rfl⟩⟩⟩, ?_⟩
  rw [hw']
  exact written (.sell poolId trader yes amountIn netOut) rfl
    (Amm.sold_traded hfees hreserves).1 (hid poolId pool hpool) hcalls

/-- A liquidation, however the vault settles it. -/
theorem liquidate {liquidator user : Address} {poolId : ℕ} {o : Outcome} {debtIn : MarketId → ℤ}
    {release : Amm.Release} {y : ℤ}
    (hrelease : ∀ called w1 token i sold proceeds y w2,
      release called w1 token i sold proceeds = .ok (y, w2) → Explains w1 w2 [])
    (h : Amm.liquidate ctx w liquidator user poolId o debtIn release = .ok (y, w')) :
    ∃ events, liquidateEvents ctx w liquidator user poolId o = .ok events ∧
      Explains w w' events := by
  obtain ⟨_, m, _, _, _, sold, proceeds, w1, _, _, _, _, _, _, _, hsell, hsettle⟩ :=
    Amm.liquidate_steps h
  obtain ⟨pool, m', fee, gross, fees, pool1, pool2, t, w2, w3, hpool, _, _, hgross, _, hfees, hmove,
    h2, h3, hreserves, hw1⟩ := Amm.forceSell_writes hsell
  have hforced : Explains w { w with tokens := t } [.posFxfer pool.marketId user (.contract .amm)
    (Amm.outcomeOf (decide (o = .yes))) sold] := move _ rfl hmove
  have hcalls := (hforced.trans (mergePositions h2)).trans (collectFee h3)
  have hwritten := written (.liquidate poolId user liquidator (decide (o = .yes)) sold proceeds) rfl
    (Amm.sold_traded hfees hreserves).1 (hid poolId pool hpool) hcalls
  have hread : Amm.readPool w.amm poolId = .ok pool := orFault_ok.mpr hpool
  refine ⟨_, bind_ok.mpr ⟨_, hread, bind_ok.mpr ⟨_, hsell, bind_ok.mpr ⟨_, hgross, rfl⟩⟩⟩, ?_⟩
  rw [hw1] at hsettle
  exact hwritten.trans (hrelease _ _ _ _ _ _ _ _ hsettle)

/-- A provider's shares are written with their pool. -/
theorem withShares {w1 : World} {p : ℕ} {pool : PoolData} (pool' : PoolData) (lp : Address)
    (shares : ℤ) (event : ChainEvent) (hnamed : event.changedPool = some p)
    (hpool : w.amm.pool p = some pool)
    (hpool' : pool'.id = pool.id) (h : Explains w w1 events) :
    Explains w (Amm.withShares w1 p pool' lp shares) (events ++ [event]) := by
  refine h.trans (ofPool pool' event hnamed rfl ?_)
  dsimp only [Amm.withShares, Amm.writeLp, Amm.writePool]
  rw [hpool', hid p pool hpool]

/-- Every invocation of the market maker. -/
theorem amm {op : Amm.AmmOp} (h : op.exec ctx w = .ok w') :
    ∃ events, ammEvents ctx w op = .ok events ∧ Explains w w' events := by
  cases op with
  | setAdmin | upgrade | setRole | setModules | pause =>
    obtain ⟨_, _, h⟩ := bind_ok.mp h
    obtain rfl := pure_ok.mp h
    exact ⟨_, rfl, same rfl rfl⟩
  | createPool marketId feeConfig =>
    obtain ⟨y, h⟩ := world_ok.mp h
    obtain ⟨_, _, h⟩ := bind_ok.mp h
    obtain ⟨_, _, h⟩ := bind_ok.mp h
    obtain ⟨_, _, h⟩ := bind_ok.mp h
    obtain ⟨rfl, rfl⟩ := Prod.mk.inj (pure_ok.mp h)
    exact ⟨_, rfl, ofPool _ (.pool marketId w.amm.nextPoolId) rfl rfl rfl⟩
  | seedLiquidity lp poolId amount =>
    obtain ⟨y, h⟩ := world_ok.mp h
    obtain ⟨pool, m, w1, w2, _, hpool, _, h1, h2, rfl⟩ := Amm.seedLiquidity_writes h
    have hread : Amm.readPool w.amm poolId = .ok pool := orFault_ok.mpr hpool
    have hcalls := (depositForMarket h1).trans (mintCompleteSet h2)
    have hwritten := withShares hid (Amm.seededPool pool amount) lp amount (.seed poolId lp amount)
      rfl hpool rfl hcalls
    exact ⟨_, bind_ok.mpr ⟨_, hread, rfl⟩, hwritten⟩
  | addLiquidity lp poolId amount =>
    obtain ⟨y, h⟩ := world_ok.mp h
    obtain ⟨pool, m, _, w1, w2, _, _, hpool, h1, h2, _, h3⟩ := Amm.addLiquidity_writes h
    have hread : Amm.readPool w.amm poolId = .ok pool := orFault_ok.mpr hpool
    have hcalls := (depositForMarket h1).trans (mintCompleteSet h2)
    have hwritten := withShares hid (Amm.resizedPool pool amount amount y) lp
      (w2.amm.lpBalance (poolId, lp) + y) (.lpAdd poolId lp amount y) rfl hpool rfl hcalls
    exact ⟨_, bind_ok.mpr ⟨_, hread, bind_ok.mpr ⟨_, h, rfl⟩⟩, hwritten.trans (payLpFees h3)⟩
  | removeLiquidity lp poolId shares =>
    obtain ⟨⟨yesOut, noOut, w3⟩, hremove, h⟩ := bind_ok.mp h
    obtain rfl := pure_ok.mp h
    obtain ⟨pool, m, _, w1, w2, _, _, hpool, _, _, _, _, _, h1, h2, h3⟩ :=
      Amm.removeLiquidity_writes hremove
    have hread : Amm.readPool w.amm poolId = .ok pool := orFault_ok.mpr hpool
    have hwritten := withShares hid (Amm.resizedPool pool (-yesOut) (-noOut) (-shares)) lp
      (w.amm.lpBalance (poolId, lp) - shares) (.lpRm poolId lp shares yesOut noOut) rfl hpool rfl
      (same rfl rfl)
    have hyes := transferPosition (Amm.transferPosition_ok h2)
    have hno := transferPosition (Amm.transferPosition_ok h3)
    -- the pool is written before the tokens move, and its event comes last
    have hall := ((hwritten.trans (payLpFees h1)).trans hyes).trans hno
    exact ⟨_, bind_ok.mpr ⟨_, hread, bind_ok.mpr ⟨_, hremove, rfl⟩⟩,
      hall.perm (@List.perm_append_comm _ [_] [_, _])⟩
  | claimLpFees lp poolId =>
    obtain ⟨y, h⟩ := world_ok.mp h
    obtain ⟨pool, _, rfl | ⟨m, _, _, h1⟩⟩ := Amm.claimLpFees_writes h
    · exact ⟨_, rfl, same rfl rfl⟩
    · have hcheckpoint : Explains w (Amm.withCheckpoint w poolId pool lp) [] := same rfl rfl
      exact ⟨_, rfl, hcheckpoint.trans (payLpFees h1)⟩
  | buyYes | buyNo | buyChildYes | buyChildNo =>
    obtain ⟨y, h⟩ := world_ok.mp h
    exact buy hid h
  | sellYes | sellNo =>
    obtain ⟨y, h⟩ := world_ok.mp h
    exact sell hid h
  | liquidatePosition liquidator user poolId o =>
    obtain ⟨y, h⟩ := world_ok.mp h
    refine liquidate hid ?_ h
    intro called w1 token i sold proceeds y w2 hsettle
    exact @vault _ _ _ (.liquidateRelease token user liquidator i o sold proceeds)
      (world_ok.mpr ⟨y, hsettle⟩)
  | liquidateChildPosition liquidator user poolId o =>
    obtain ⟨y, h⟩ := world_ok.mp h
    refine liquidate hid ?_ h
    intro called w1 token i sold proceeds y w2 hsettle
    exact @vault _ _ _ (.liquidateChildRelease token user liquidator i o sold proceeds)
      (world_ok.mpr ⟨y, hsettle⟩)

end Pools

/-- Every invocation of the tokens. -/
theorem tokens {op : Tokens.TokensOp} (h : op.exec ctx w = .ok w') :
    Explains w w' (tokensEvents op) := by
  cases op with
  | upgrade =>
    obtain ⟨_, _, h⟩ := bind_ok.mp h
    obtain rfl := pure_ok.mp h
    exact same rfl rfl
  | setAdmin | setRole | pause =>
    obtain ⟨t, ht, rfl⟩ := Tokens.store_ok.mp h
    obtain ⟨_, _, ht⟩ := bind_ok.mp ht
    obtain rfl := pure_ok.mp ht
    exact same rfl rfl
  | mintCompleteSet =>
    obtain ⟨t, ht, rfl⟩ := Tokens.store_ok.mp h
    exact split (Tokens.mintCompleteSet_ok ht).2
  | splitPosition =>
    obtain ⟨t, ht, rfl⟩ := Tokens.store_ok.mp h
    obtain ⟨_, _, ht⟩ := bind_ok.mp ht
    obtain ⟨_, _, ht⟩ := bind_ok.mp ht
    obtain ⟨_, _, ht⟩ := bind_ok.mp ht
    exact split ht
  | mergePositions =>
    obtain ⟨t, ht, rfl⟩ := Tokens.store_ok.mp h
    exact merge ht
  | transferPosition => exact transferPosition h
  | transferPositionForced =>
    obtain ⟨t, ht, rfl⟩ := Tokens.store_ok.mp h
    exact move _ rfl (Tokens.transferPositionForced_ok ht).2
  | burnForRedeem =>
    obtain ⟨t, ht, rfl⟩ := Tokens.store_ok.mp h
    exact burn _ rfl (Tokens.burnForRedeem_ok ht).2
  | burnLosing =>
    obtain ⟨t, ht, rfl⟩ := Tokens.store_ok.mp h
    exact burn _ rfl (Tokens.burnLosing_ok ht).2.2

end Explains

/-- Every invocation publishes events that name each balance and each pool it changes. -/
theorem TradeOp.explained {ctx : Ctx} {w w' : World} {op : TradeOp}
    (hid : ∀ i pool, w.amm.pool i = some pool → pool.id = i) (h : op.exec ctx w = .ok w') :
    ∃ events, op.events ctx w = .ok events ∧ Explains w w' events := by
  cases op with
  | amm op => exact Explains.amm hid h
  | vault op => exact ⟨_, rfl, .vault h⟩
  | tokens op => exact ⟨_, rfl, .tokens h⟩
  | registry op =>
    obtain ⟨r, _, h⟩ := bind_ok.mp h
    obtain rfl := pure_ok.mp h
    exact ⟨_, rfl, .same rfl rfl⟩

end DikeProtocol.Trading
