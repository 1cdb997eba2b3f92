import DikeProtocol.Lib.Within
import DikeProtocol.Trading.Inventory
import DikeProtocol.Trading.Product

/-!
# What a coalition can take from a pool

Any set of traders against one pool. What they hold in collateral, in tokens of
one outcome and what the pool holds of it never grows together, whatever they
buy and sell. So they never take more than the pool's reserve and their own
tokens; and where no trade's rounding costs the pool, they take nothing.
-/

namespace DikeProtocol.Trading

open Lib
open Amm (reserveOf outcomeOf)

section Holdings

variable (U : Address → Prop) [DecidablePred U]

/-- The collateral of a coalition. -/
def cashOf (bank : Bank) (token : Asset) : ℤ :=
  bank.balance.total (Tally.over fun k => k.1 = token ∧ U k.2)

/-- The tokens of an outcome that a coalition holds. -/
def tokensOf (t : TokensState) (m : MarketId) (o : Outcome) : ℤ :=
  t.balance.total (Tally.over fun k => k.1 = m ∧ U k.2.1 ∧ k.2.2 = o)

/-- A coalition's collateral, its tokens of one outcome and what the pool holds of it. -/
def valueOf (w : World) (token : Asset) (pool : PoolData) (yes : Bool) : ℤ :=
  cashOf U w.bank token + tokensOf U w.tokens pool.marketId (outcomeOf yes) + reserveOf pool yes

variable {U}

/-- A transfer moves a coalition's collateral at its ends only. -/
theorem transfer_cashOf {b b' : Bank} {token : Asset} {a c : Address} {x : ℤ}
    (h : b.transfer token a c x = .ok b') :
    cashOf U b' token = cashOf U b token - (if U a then x else 0) + if U c then x else 0 := by
  unfold cashOf
  rw [(Bank.transfer_ok.mp h).2.2]
  unfold Bank.moved
  rw [Store.total_set, Store.total_set]
  simp only [Tally.over_weight, true_and]
  split <;> split <;> ring

variable {t t' : TokensState} {m m' : MarketId} {a c : Address} {o o' : Outcome} {x : ℤ}

/-- A debit lowers the tokens of a coalition where one of its members is debited. -/
theorem subBalance_tokensOf (h : Tokens.subBalance t m a o x = .ok t') : tokensOf U t' m' o' =
    tokensOf U t m' o' - if m = m' ∧ U a ∧ o = o' then x else 0 := by
  unfold tokensOf
  rw [(Tokens.subBalance_ok h).2, Store.total_set]
  simp only [Tally.over_weight]
  split <;> ring

/-- A credit raises them where one of its members is credited. -/
theorem addBalance_tokensOf (h : Tokens.addBalance t m a o x = .ok t') : tokensOf U t' m' o' =
    tokensOf U t m' o' + if m = m' ∧ U a ∧ o = o' then x else 0 := by
  unfold tokensOf
  rw [Tokens.addBalance_ok h, Store.total_set]
  simp only [Tally.over_weight]
  split <;> ring

/-- A move does both. -/
theorem moveBalance_tokensOf (h : Tokens.moveBalance t a c m o x = .ok t') : tokensOf U t' m' o' =
    tokensOf U t m' o' - (if m = m' ∧ U a ∧ o = o' then x else 0) +
      if m = m' ∧ U c ∧ o = o' then x else 0 := by
  obtain ⟨t1, h1, h2⟩ := bind_ok.mp h
  rw [addBalance_tokensOf h2, subBalance_tokensOf h1]

/-- Sets that an outsider mints are not the coalition's. -/
theorem credit_tokensOf (ha : ¬U a) (h : Tokens.creditCompleteSet t m a x = .ok t') :
    tokensOf U t' m' o' = tokensOf U t m' o' := by
  obtain ⟨t1, h1, h⟩ := bind_ok.mp h
  obtain ⟨t2, h2, h⟩ := bind_ok.mp h
  obtain ⟨next, _, h⟩ := bind_ok.mp h
  rw [← pure_ok.mp h]
  change tokensOf U t2 m' o' = _
  rw [addBalance_tokensOf h2, addBalance_tokensOf h1]
  simp only [ha, false_and, and_false, if_false, add_zero]

/-- Nor are sets that an outsider merges. -/
theorem merge_tokensOf {ctx : Ctx} (ha : ¬U a) (h : Tokens.mergePositions ctx t a m x = .ok t') :
    tokensOf U t' m' o' = tokensOf U t m' o' := by
  obtain ⟨_, _, h⟩ := bind_ok.mp h
  obtain ⟨_, _, h⟩ := bind_ok.mp h
  obtain ⟨t1, h1, h⟩ := bind_ok.mp h
  obtain ⟨t2, h2, h⟩ := bind_ok.mp h
  obtain ⟨_, _, h⟩ := bind_ok.mp h
  obtain ⟨next, _, h⟩ := bind_ok.mp h
  rw [← pure_ok.mp h]
  change tokensOf U t2 m' o' = _
  rw [subBalance_tokensOf h2, subBalance_tokensOf h1]
  simp only [ha, false_and, and_false, if_false, sub_zero]

end Holdings

section Steps

variable {ctx : Ctx} {w w' : World} {trader : Address} {p : ℕ} {amountIn minOut out : ℤ}
  {deadline : ℕ} {yes : Bool}

/-- A deposit is paid by its user. -/
theorem depositForMarket_paid {token : Asset} {user : Address} {m : MarketId} {x : ℤ}
    (h : Vault.depositForMarket ctx w token user m x = .ok w') :
    ∃ bank v, w.bank.transfer token user (.contract .vault) x = .ok bank ∧
      w' = { w with vault := v, bank := bank } := by
  unfold Vault.depositForMarket at h
  obtain ⟨_, _, h⟩ := bind_ok.mp h
  obtain ⟨_, _, h⟩ := bind_ok.mp h
  obtain ⟨_, _, h⟩ := bind_ok.mp h
  obtain ⟨_, _, h⟩ := bind_ok.mp h
  obtain ⟨_, _, h⟩ := bind_ok.mp h
  obtain ⟨_, htransfer, h⟩ := bind_ok.mp h
  obtain ⟨_, _, h⟩ := bind_ok.mp h
  obtain ⟨_, _, h⟩ := bind_ok.mp h
  obtain ⟨_, bank, hbank, rfl⟩ := transferToken_ok.mp htransfer
  exact ⟨bank, _, hbank, (pure_ok.mp h).symm⟩

/-- So is a purchase in cash. -/
theorem fundPurchase_paid {mods : Amm.Modules} {m : MarketId} {o : Outcome} {x : ℤ}
    (h : Amm.fundPurchase ctx w mods trader m o x out none = .ok w') :
    0 < x ∧ (∃ market, w.registry.market m = some market ∧ mods.collateral = market.collateral) ∧
      ∃ bank v, w.bank.transfer mods.collateral trader (.contract .vault) x = .ok bank ∧
        w' = { w with vault := v, bank := bank } := by
  obtain ⟨wd, hdeposit, h⟩ := bind_ok.mp h
  obtain ⟨_, _, hstake⟩ := bind_ok.mp h
  have hpaid := Amm.depositForMarket_ok hdeposit
  obtain ⟨hx, hcollateral, _⟩ := Vault.depositForMarket_steps hpaid
  obtain ⟨bank, v, hbank, rfl⟩ := depositForMarket_paid hpaid
  obtain ⟨_, rfl⟩ := Vault.recordCashStake_steps hstake
  exact ⟨hx, hcollateral, bank, _, hbank, rfl⟩

/-- A sale is paid to its user. -/
theorem releaseTradePayout_paid {token : Asset} {user : Address} {m : MarketId} {o : Outcome}
    {sold x : ℤ} (h : Vault.releaseTradePayout ctx w token user m o sold x = .ok w') :
    ∃ bank v, w.bank.transfer token (.contract .vault) user x = .ok bank ∧
      w' = { w with vault := v, bank := bank } := by
  unfold Vault.releaseTradePayout at h
  obtain ⟨_, _, h⟩ := bind_ok.mp h
  obtain ⟨_, _, h⟩ := bind_ok.mp h
  obtain ⟨_, _, h⟩ := bind_ok.mp h
  obtain ⟨_, _, h⟩ := bind_ok.mp h
  obtain ⟨v, _, h⟩ := bind_ok.mp h
  obtain ⟨_, bank, hbank, rfl⟩ := transferToken_ok.mp h
  exact ⟨bank, v, hbank, rfl⟩

/-- What a trade with a pool stores, and the token it is settled in. -/
structure Moves (w w' : World) (p : ℕ) (trade : PoolTrade) (pool pool' : PoolData)
    (token : Asset) : Prop where
  found : w.amm.pool p = some pool
  id : pool'.id = pool.id
  market : pool'.marketId = pool.marketId
  collateral : ∃ market, w.registry.market pool.marketId = some market ∧ token = market.collateral
  stores : Stores pool (w.amm.poolFee p).tradingFeeBps pool' trade
  written : w'.amm = Amm.writePool w.amm pool'
  registry : w'.registry = w.registry

/-- A purchase in cash: the collateral paid, the pool stored and the tokens delivered. -/
theorem buy_moves (h : Amm.buy ctx w trader p amountIn minOut deadline yes none = .ok (out, w')) :
    ∃ pool pool' token, Moves w w' p (.buy yes amountIn) pool pool' token ∧ 0 < amountIn ∧
      w.bank.transfer token trader (.contract .vault) amountIn = .ok w'.bank ∧
      ∃ t, Tokens.creditCompleteSet w.tokens pool.marketId (.contract .amm)
          (amountIn - bpsOf amountIn (w.amm.poolFee p).tradingFeeBps) = .ok t ∧
        Tokens.moveBalance t (.contract .amm) trader pool.marketId (outcomeOf yes) out =
          .ok w'.tokens ∧
        ∀ o, reserveOf pool' o = reserveOf pool o +
          (amountIn - bpsOf amountIn (w.amm.poolFee p).tradingFeeBps) -
            if o = yes then out else 0 := by
  obtain ⟨pool, mods, fee, netIn, fees, pool1, pool2, w1, w2, w3, w4, _, hpool, hsplit, hquote,
    hfund, hmint, hfees, hcollect, hbought, hmove, rfl⟩ := Amm.buy_writes h
  obtain ⟨hx, hcollateral, bank, v, hbank, rfl⟩ := fundPurchase_paid hfund
  obtain ⟨t, _, ht, rfl⟩ := Amm.mintCompleteSet_ok hmint
  obtain ⟨_, _, _, _, _, rfl⟩ := Vault.collectFee_steps (Amm.collectFee_ok hcollect)
  obtain ⟨_, _, _, _, t1, ht1, rfl⟩ := Tokens.transferPosition_ok (Amm.transferPosition_ok hmove)
  obtain ⟨htraded, hreserves⟩ := Amm.bought_traded hfees hbought
  obtain ⟨hfee, hwhole⟩ := splitFee_ok hsplit
  obtain rfl : netIn = amountIn - bpsOf amountIn (w.amm.poolFee p).tradingFeeBps := by
    rw [← hfee]
    exact eq_sub_of_add_eq' hwhole
  exact ⟨pool, pool2, mods.collateral,
    { found := hpool, id := htraded.id, market := htraded.marketId, collateral := hcollateral
      stores := .buy hquote hreserves, written := rfl, registry := rfl },
    hx, hbank, t, ht, ht1, hreserves⟩

/-- A sale never brings in less than nothing. -/
theorem quoteSellOf_nonneg {pool : PoolData} {gross : ℤ}
    (h : Amm.quoteSellOf pool yes amountIn = .ok gross) : 0 ≤ gross := by
  obtain ⟨hpos, hopposite, hin, _, rfl⟩ := quoteSell_ok.mp (Amm.quoteSellOf_ok.mp h)
  exact saleRoot_nonneg hpos hopposite hin

/-- A sale: the tokens taken, the pool stored and the collateral paid. -/
theorem sell_moves {netOut : ℤ}
    (h : Amm.sell ctx w trader p amountIn minOut deadline yes = .ok (netOut, w')) :
    ∃ pool pool' token gross, Moves w w' p (.sell yes amountIn) pool pool' token ∧
      netOut = gross - bpsOf gross (w.amm.poolFee p).tradingFeeBps ∧ 0 ≤ gross ∧
      w.bank.transfer token (.contract .vault) trader netOut = .ok w'.bank ∧
      (∃ t, Tokens.moveBalance w.tokens trader (.contract .amm) pool.marketId (outcomeOf yes)
          amountIn = .ok t ∧
        Tokens.mergePositions (Amm.within ctx) t (.contract .amm) pool.marketId gross =
          .ok w'.tokens) ∧
      ∀ o, reserveOf pool' o = reserveOf pool o - gross + if o = yes then amountIn else 0 := by
  obtain ⟨pool, mods, fee, gross, fees, pool1, pool2, w1, w2, w3, w4, _, hpool, hquote, hsplit,
    hfees, hmove, hmerge, hrelease, hcollect, hsold, rfl⟩ := Amm.sell_writes h
  obtain ⟨_, _, _, _, t, ht, rfl⟩ := Tokens.transferPosition_ok (Amm.transferPosition_ok hmove)
  obtain ⟨t1, ht1, rfl⟩ := Amm.mergePositions_ok hmerge
  obtain ⟨_, _, hcollateral, _⟩ := Vault.releaseTradePayout_steps hrelease
  obtain ⟨bank, v, hbank, rfl⟩ := releaseTradePayout_paid hrelease
  obtain ⟨_, _, _, _, _, rfl⟩ := Vault.collectFee_steps (Amm.collectFee_ok hcollect)
  obtain ⟨htraded, hreserves⟩ := Amm.sold_traded hfees hsold
  obtain ⟨hfee, hwhole⟩ := splitFee_ok hsplit
  exact ⟨pool, pool2, mods.collateral, gross,
    { found := hpool, id := htraded.id, market := htraded.marketId, collateral := hcollateral
      stores := .sell hquote hreserves, written := rfl, registry := rfl },
    by rw [← hfee]; exact eq_sub_of_add_eq' hwhole, quoteSellOf_nonneg hquote, hbank, ⟨t, ht, ht1⟩,
    hreserves⟩

end Steps

section Values

variable {U : Address → Prop} [DecidablePred U] {w w' : World} {p : ℕ} {pool pool' : PoolData}
  {token : Asset}

/-- A pool as it is stored, with the token its market settles in. -/
structure Settles (w : World) (p : ℕ) (pool : PoolData) (token : Asset) : Prop where
  found : w.amm.pool p = some pool
  id : pool.id = p
  collateral : ∀ market, w.registry.market pool.marketId = some market → market.collateral = token

/-- What a coalition can do to a pool: the pool's value and its own do not grow
together, and where the rounding never costs the pool, its product never falls. -/
def Bounded (U : Address → Prop) [DecidablePred U] (rounds : Prop) (p : ℕ) (token : Asset)
    (w w' : World) : Prop :=
  ∀ pool, Settles w p pool token → ∃ pool', Settles w' p pool' token ∧
    pool'.marketId = pool.marketId ∧
    (∀ yes, valueOf U w' token pool' yes ≤ valueOf U w token pool yes) ∧
    (rounds → (∀ yes, 0 < reserveOf pool yes) →
      (∀ yes, 0 < reserveOf pool' yes) ∧ reserveProduct pool ≤ reserveProduct pool')

instance (rounds : Prop) (token : Asset) : IsTrans World (Bounded U rounds p token) := by
  constructor
  intro w w1 w' h h' pool hpool
  obtain ⟨pool1, hpool1, hmarket1, hvalue1, hrounds1⟩ := h pool hpool
  obtain ⟨pool', hpool', hmarket', hvalue', hrounds'⟩ := h' pool1 hpool1
  refine ⟨pool', hpool', hmarket'.trans hmarket1, fun yes => (hvalue' yes).trans (hvalue1 yes), ?_⟩
  intro hrounds hpos
  obtain ⟨hpos1, hproduct1⟩ := hrounds1 hrounds hpos
  obtain ⟨hpos', hproduct'⟩ := hrounds' hrounds hpos1
  exact ⟨hpos', hproduct1.trans hproduct'⟩

/-- Nothing grows when nothing is done. -/
theorem Bounded.refl (rounds : Prop) (token : Asset) (w : World) : Bounded U rounds p token w w :=
  fun pool hpool => ⟨pool, hpool, rfl, fun _ => le_rfl, fun _ hpos => ⟨hpos, le_rfl⟩⟩

/-- A trade is settled in the token of its market. -/
theorem Moves.settled {trade : PoolTrade} {stored : PoolData} {settled : Asset}
    (h : Moves w w' p trade pool pool' settled) (hstored : Settles w p stored token) :
    settled = token := by
  obtain ⟨market, hmarket, hsettled⟩ := h.collateral
  have hfound := hstored.found
  rw [h.found] at hfound
  obtain rfl := Option.some.inj hfound
  rw [hsettled]
  exact hstored.collateral market hmarket

/-- A trade that lets neither side grow is bounded. -/
theorem Moves.bounded {trade : PoolTrade} {rounds : Prop} {settled : Asset}
    (h : Moves w w' p trade pool pool' settled)
    (hvalue : ∀ yes, valueOf U w' settled pool' yes ≤ valueOf U w settled pool yes)
    (hrounds : rounds → ∀ pool, w.amm.pool p = some pool →
      RoundsForPool pool (w.amm.poolFee p).tradingFeeBps trade) :
    Bounded U rounds p token w w' := by
  intro stored hstored
  obtain rfl := h.settled hstored
  have hfound := hstored.found
  rw [h.found] at hfound
  obtain rfl := Option.some.inj hfound
  refine ⟨pool', ⟨?_, h.id.trans hstored.id, ?_⟩, h.market, hvalue, ?_⟩
  · rw [h.written, ← hstored.id, ← h.id]
    exact Store.set_get_self _ _ _
  · rw [h.registry, h.market]
    exact hstored.collateral
  · intro hr hpos
    have hkeeps := (h.stores.keepsProduct_iff (hpos true) (hpos false)).mpr
      (hrounds hr pool h.found)
    exact ⟨hkeeps.reserves, hkeeps.product⟩

variable {ctx : Ctx} {trader : Address} {amountIn minOut out : ℤ} {deadline : ℕ} {yes : Bool}
  {rounds : Prop}

/-- A purchase by a member is bounded. -/
theorem buy_bounded (hamm : ¬U (.contract .amm)) (hvault : ¬U (.contract .vault)) (hu : U trader)
    (h : Amm.buy ctx w trader p amountIn minOut deadline yes none = .ok (out, w'))
    (hrounds : rounds → ∀ pool, w.amm.pool p = some pool →
      RoundsForPool pool (w.amm.poolFee p).tradingFeeBps (.buy yes amountIn)) :
    Bounded U rounds p token w w' := by
  obtain ⟨pool, pool', settled, hmoves, hx, hbank, t, ht, hmove, hreserves⟩ := buy_moves h
  refine hmoves.bounded (fun o => ?_) hrounds
  have hfee := bpsOf_nonneg hx.le (w.amm.poolFee p).tradingFeeBps
  unfold valueOf
  rw [transfer_cashOf hbank, hmoves.market, moveBalance_tokensOf hmove, credit_tokensOf hamm ht,
    hreserves, if_pos hu, if_neg hvault]
  simp only [hamm, hu, false_and, true_and, and_false, if_false, outcomeOf_inj, eq_comm (a := yes)]
  split <;> omega

/-- A sale by a member is bounded. -/
theorem sell_bounded (hamm : ¬U (.contract .amm)) (hvault : ¬U (.contract .vault)) (hu : U trader)
    (h : Amm.sell ctx w trader p amountIn minOut deadline yes = .ok (out, w'))
    (hrounds : rounds → ∀ pool, w.amm.pool p = some pool →
      RoundsForPool pool (w.amm.poolFee p).tradingFeeBps (.sell yes amountIn)) :
    Bounded U rounds p token w w' := by
  obtain ⟨pool, pool', settled, gross, hmoves, hnet, hgross, hbank, ⟨t, hmove, hmerge⟩,
    hreserves⟩ := sell_moves h
  refine hmoves.bounded (fun o => ?_) hrounds
  have hfee := bpsOf_nonneg hgross (w.amm.poolFee p).tradingFeeBps
  unfold valueOf
  rw [transfer_cashOf hbank, hmoves.market, merge_tokensOf hamm hmerge, moveBalance_tokensOf hmove,
    hreserves, if_pos hu, if_neg hvault]
  simp only [hamm, hu, false_and, true_and, and_false, if_false, outcomeOf_inj, eq_comm (a := yes)]
  split <;> omega

/-- Tokens a member sends away are bounded. -/
theorem transferPosition_bounded {sender recipient : Address} {m : MarketId} {o : Outcome} {x : ℤ}
    (hu : U sender) (h : Tokens.transferPosition ctx w sender recipient m o x = .ok w') :
    Bounded U rounds p token w w' := by
  obtain ⟨_, hx, _, _, t, ht, rfl⟩ := Tokens.transferPosition_ok h
  intro pool hpool
  refine ⟨pool, ⟨hpool.found, hpool.id, hpool.collateral⟩, rfl, fun yes => ?_,
    fun _ hpos => ⟨hpos, le_rfl⟩⟩
  unfold valueOf
  dsimp only
  rw [moveBalance_tokensOf ht]
  simp only [hu, true_and]
  by_cases hsame : m = pool.marketId ∧ o = outcomeOf yes
  · rw [if_pos hsame]
    split <;> omega
  · rw [if_neg hsame, if_neg fun hk => hsame ⟨hk.1, hk.2.2⟩]
    omega

end Values

section Coalitions

variable (U : Address → Prop) (p : ℕ)

/-- The trades with a pool, by whom and with which one. -/
def TradeStep.asTrade : TradeStep → Option (Address × ℕ × PoolTrade)
  | .call _ (.amm (.buyYes trader poolId amountIn _ _)) => some (trader, poolId, .buy true amountIn)
  | .call _ (.amm (.buyNo trader poolId amountIn _ _)) => some (trader, poolId, .buy false amountIn)
  | .call _ (.amm (.sellYes trader poolId amountIn _ _)) =>
    some (trader, poolId, .sell true amountIn)
  | .call _ (.amm (.sellNo trader poolId amountIn _ _)) =>
    some (trader, poolId, .sell false amountIn)
  | _ => none

/-- Who sends tokens in a step. -/
def TradeStep.sender : TradeStep → Option Address
  | .call _ (.tokens (.transferPosition sender _ _ _ _)) => some sender
  | _ => none

/-- A member trades with the pool, or sends tokens to anyone. -/
def TradeStep.ByCoalition (step : TradeStep) : Prop :=
  (∃ sender ∈ step.sender, U sender) ∨ ∃ entry ∈ step.asTrade, U entry.1 ∧ entry.2.1 = p

/-- The rounding of a trade with the pool does not cost it anything. -/
def TradeStep.Rounds (w : World) (step : TradeStep) : Prop :=
  ∀ entry ∈ step.asTrade, entry.2.1 = p → ∀ pool ∈ w.amm.pool p,
    RoundsForPool pool (w.amm.poolFee p).tradingFeeBps entry.2.2

variable {U p} [DecidablePred U]

instance (step : TradeStep) : Decidable (step.ByCoalition U p) :=
  inferInstanceAs (Decidable (_ ∨ _))

instance (pool : PoolData) (feeBps : ℕ) : (trade : PoolTrade) →
    Decidable (RoundsForPool pool feeBps trade)
  | .buy _ _ => inferInstanceAs (Decidable (_ ∣ _))
  | .sell _ _ => inferInstanceAs (Decidable (_ ∨ _))

instance (w : World) (step : TradeStep) : Decidable (step.Rounds p w) :=
  inferInstanceAs (Decidable (∀ entry ∈ step.asTrade, _))

variable {w w' : World} {step : TradeStep} {token : Asset} {rounds : Prop}

/-- Every step of a coalition is bounded. -/
theorem TradeStep.ByCoalition.bounded (hamm : ¬U (.contract .amm)) (hvault : ¬U (.contract .vault))
    (hstep : step.ByCoalition U p) (hrounds : rounds → step.Rounds p w) :
    Within (Bounded U rounds p token) w id (tradingSystem.step w step) := by
  intro w' h
  rcases hstep with ⟨sender, hsender, hu⟩ | ⟨⟨trader, poolId, trade⟩, htrade, hu, rfl⟩
  · cases step with
    | outside bank => cases hsender
    | call ctx op =>
      obtain ⟨_, _, hexec⟩ := tradingSystem_call h
      cases op with
      | tokens op =>
        cases op with
        | transferPosition a b m o x =>
          cases hsender
          exact transferPosition_bounded hu hexec
        | _ => cases hsender
      | _ => cases hsender
  · cases step with
    | outside bank => cases htrade
    | call ctx op =>
      obtain ⟨_, _, hexec⟩ := tradingSystem_call h
      cases op with
      | amm op =>
        cases op with
        | buyYes | buyNo =>
          cases htrade
          obtain ⟨out, hbuy⟩ := world_ok.mp hexec
          exact buy_bounded hamm hvault hu hbuy fun hr => hrounds hr _ rfl rfl
        | sellYes | sellNo =>
          cases htrade
          obtain ⟨out, hsell⟩ := world_ok.mp hexec
          exact sell_bounded hamm hvault hu hsell fun hr => hrounds hr _ rfl rfl
        | _ => cases htrade
      | _ => cases htrade

/-- The pool of a reachable state settles in the collateral of its market. -/
theorem settles_of_reachable {pool : PoolData} {market : MarketData}
    (h : tradingSystem.Reachable w) (hpool : w.amm.pool p = some pool)
    (hmarket : w.registry.market pool.marketId = some market) :
    Settles w p pool market.collateral := by
  refine ⟨hpool, (reachable_stocked h).filed p pool hpool, fun stored hstored => ?_⟩
  rw [hmarket] at hstored
  rw [Option.some.inj hstored]

/-- Tokens of a coalition are never negative. -/
theorem tokensOf_nonneg (h : tradingSystem.Reachable w) (m : MarketId) (o : Outcome) :
    0 ≤ tokensOf U w.tokens m o := by
  refine Store.total_nonneg _ _ fun k => ?_
  have hk := (reachable_invariant h).balance_nonneg k
  simp only [Tally.over_weight]
  split
  · exact hk
  · exact le_rfl

/-- However a coalition trades with a pool, it takes no more collateral out than
the pool held of either outcome and the coalition had of it, less what both
have left. -/
theorem pool_pays_within_reserves {pool : PoolData} {market : MarketData}
    (hreach : tradingSystem.Reachable w) (hamm : ¬U (.contract .amm))
    (hvault : ¬U (.contract .vault)) (hpool : w.amm.pool p = some pool)
    (hmarket : w.registry.market pool.marketId = some market)
    (h : tradingSystem.Path (fun _ step => step.ByCoalition U p) w w') (yes : Bool) :
    ∃ pool', w'.amm.pool p = some pool' ∧ 0 ≤ reserveOf pool' yes ∧
      cashOf U w'.bank market.collateral - cashOf U w.bank market.collateral ≤
        (reserveOf pool yes + tokensOf U w.tokens pool.marketId (outcomeOf yes)) -
          (reserveOf pool' yes + tokensOf U w'.tokens pool.marketId (outcomeOf yes)) ∧
      cashOf U w'.bank market.collateral - cashOf U w.bank market.collateral ≤
        reserveOf pool yes + tokensOf U w.tokens pool.marketId (outcomeOf yes) := by
  have hbounded : Bounded U False p market.collateral w w' :=
    h.within (Bounded.refl False market.collateral) fun w step hstep =>
      hstep.bounded hamm hvault False.elim
  obtain ⟨pool', hpool', hsame, hvalue, _⟩ := hbounded pool
    (settles_of_reachable hreach hpool hmarket)
  have hreach' := h.reachable hreach
  have hreserve := (reachable_stocked hreach').nonneg p pool' hpool'.found yes
  have htokens := tokensOf_nonneg (U := U) hreach' pool.marketId (outcomeOf yes)
  have hyes := hvalue yes
  unfold valueOf at hyes
  rw [hsame] at hyes
  exact ⟨pool', hpool'.found, hreserve, by omega, by omega⟩

/-- Alice buys and sells back what she bought. -/
def backAndForth : List TradeStep :=
  [.call (bySigner alice) (.amm (.buyYes alice 1 2551 0 1)),
    .call (bySigner alice) (.amm (.sellYes alice 1 4500 0 1))]

/-- A new pool, and what alice has before she trades with it. -/
def readyFor (steps : List TradeStep) (w : World) : Bool :=
  decide (∃ pool ∈ w.amm.pool 1, (∀ yes, 0 < reserveOf pool yes) ∧
      (∃ market ∈ w.registry.market pool.marketId, market.collateral = sampleToken) ∧
      ∀ yes, tokensOf (· = alice) w.tokens pool.marketId (outcomeOf yes) = 0) &&
    tradingSystem.checkRun (fun w step => step.ByCoalition (· = alice) 1 ∧ step.Rounds 1 w)
      (fun w => w.bank.bal sampleToken alice = 999899) w steps

/-- She takes no more than either reserve. -/
theorem pool_pays_within_reserves_sample : ∃ (w w' : World) (pool : PoolData),
    tradingSystem.runs (deploy sampleLaunch) (openMarket 1 10000) = .ok w ∧
      w.amm.pool 1 = some pool ∧ w'.bank.bal sampleToken alice = 999899 ∧
      ∀ yes, cashOf (· = alice) w'.bank sampleToken - cashOf (· = alice) w.bank sampleToken ≤
        reserveOf pool yes + tokensOf (· = alice) w.tokens pool.marketId (outcomeOf yes) := by
  obtain ⟨w, hw, hp⟩ := System.runs_of_decide (S := tradingSystem) (deploy sampleLaunch)
    (openMarket 1 10000) (readyFor backAndForth) (by decide +kernel)
  obtain ⟨hready, hcheck⟩ := (Bool.and_eq_true _ _).mp hp
  obtain ⟨pool, hpool, hpos, ⟨market, hmarket, hsettled⟩, _⟩ := of_decide_eq_true hready
  obtain ⟨w', hpath, hleft⟩ := System.Path.of_check backAndForth hcheck
  have hreach := System.Reachable.runs (.init sample_init) (openMarket 1 10000) hw
  refine ⟨w, w', pool, hw, hpool, of_decide_eq_true hleft, fun yes => ?_⟩
  obtain ⟨_, _, _, _, hbound⟩ := pool_pays_within_reserves hreach (by decide) (by decide) hpool
    hmarket (hpath.mono fun _ _ hok => hok.1) yes
  rw [hsettled] at hbound
  exact hbound

/-- Where no trade's rounding costs the pool, a coalition that ends with at least
the tokens it began with has gained no collateral: nobody profits from trading
back and forth, alone or together. -/
theorem coalition_never_profits {pool : PoolData} {market : MarketData}
    (hreach : tradingSystem.Reachable w) (hamm : ¬U (.contract .amm))
    (hvault : ¬U (.contract .vault)) (hpool : w.amm.pool p = some pool)
    (hmarket : w.registry.market pool.marketId = some market)
    (hpos : ∀ yes, 0 < reserveOf pool yes)
    (h : tradingSystem.Path (fun w step => step.ByCoalition U p ∧ step.Rounds p w) w w')
    (htokens : ∀ yes, tokensOf U w.tokens pool.marketId (outcomeOf yes) ≤
      tokensOf U w'.tokens pool.marketId (outcomeOf yes)) :
    cashOf U w'.bank market.collateral ≤ cashOf U w.bank market.collateral := by
  have hbounded : Bounded U True p market.collateral w w' :=
    h.within (Bounded.refl True market.collateral) fun w step hstep =>
      hstep.1.bounded hamm hvault fun _ => hstep.2
  obtain ⟨pool', hpool', hsame, hvalue, hkeeps⟩ := hbounded pool
    (settles_of_reachable hreach hpool hmarket)
  obtain ⟨hpos', hproduct⟩ := hkeeps trivial hpos
  by_contra hgain
  -- A gain would come out of both reserves, and then out of their product.
  have hless : ∀ yes, reserveOf pool' yes < reserveOf pool yes := by
    intro yes
    have hyes := hvalue yes
    have hkept := htokens yes
    unfold valueOf at hyes
    rw [hsame] at hyes
    omega
  have hfallen : reserveProduct pool' < reserveProduct pool :=
    mul_lt_mul'' (hless true) (hless false) (hpos' true).le (hpos' false).le
  exact absurd hproduct (not_le.mpr hfallen)

/-- Alice pays 101 for it. -/
theorem coalition_never_profits_sample : ∃ w w' : World,
    tradingSystem.runs (deploy sampleLaunch) (openMarket 1 10000) = .ok w ∧
      w'.bank.bal sampleToken alice = 999899 ∧
      cashOf (· = alice) w'.bank sampleToken ≤ cashOf (· = alice) w.bank sampleToken := by
  obtain ⟨w, hw, hp⟩ := System.runs_of_decide (S := tradingSystem) (deploy sampleLaunch)
    (openMarket 1 10000) (readyFor backAndForth) (by decide +kernel)
  obtain ⟨hready, hcheck⟩ := (Bool.and_eq_true _ _).mp hp
  obtain ⟨pool, hpool, hpos, ⟨market, hmarket, hsettled⟩, htokens⟩ := of_decide_eq_true hready
  obtain ⟨w', hpath, hleft⟩ := System.Path.of_check backAndForth hcheck
  have hreach := System.Reachable.runs (.init sample_init) (openMarket 1 10000) hw
  have hkept : ∀ yes, tokensOf (· = alice) w.tokens pool.marketId (outcomeOf yes) ≤
      tokensOf (· = alice) w'.tokens pool.marketId (outcomeOf yes) := by
    intro yes
    rw [htokens yes]
    exact tokensOf_nonneg (hpath.reachable hreach) _ _
  have hcash := coalition_never_profits hreach (by decide) (by decide) hpool hmarket hpos hpath
    hkept
  rw [hsettled] at hcash
  exact ⟨w, w', hw, of_decide_eq_true hleft, hcash⟩

end Coalitions

end DikeProtocol.Trading
