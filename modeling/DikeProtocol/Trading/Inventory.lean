import DikeProtocol.Amm.Writes
import DikeProtocol.Trading.Invariant
import DikeProtocol.Vault.Holdings

/-!
# The market maker's inventory

The reserves of all pools on a market are tokens the market maker holds, so a
quoted trade or withdrawal never runs out of them. Third parties may send it
more; a forced sale of its own position would count tokens twice, but it owes
nothing and is never liquidated.
-/

namespace DikeProtocol.Trading

open Lib
open Amm (reserveOf outcomeOf)
open Vault (Sane Outside SameUse)

/-- The reserves of one outcome of a market's pools. -/
def reserveTally (m : MarketId) (o : Bool) : Tally ℕ (Option PoolData) ℤ where
  weight := fun _ p =>
    match p with
    | some pool => if pool.marketId = m then reserveOf pool o else 0
    | none => 0
  weight_default := by
    intro k
    rfl

/-- The reserves of one outcome of a market, over all its pools. -/
def reserved (a : AmmState) (m : MarketId) (o : Bool) : ℤ := a.pool.total (reserveTally m o)

/-- The tokens of one outcome the market maker holds. -/
def held (t : TokensState) (m : MarketId) (o : Bool) : ℤ :=
  t.balance (m, .contract .amm, outcomeOf o)

/-- Only the outcome a trade is about names it. -/
theorem outcomeOf_inj {o yes : Bool} : outcomeOf o = outcomeOf yes ↔ o = yes := by
  cases o <;> cases yes <;> decide

section Held

variable {t t' : TokensState} {a b : Address} {m : MarketId} {yes : Bool} {x : ℤ}

/-- Minted sets are held in both outcomes. -/
theorem credit_held (h : Tokens.creditCompleteSet t m (.contract .amm) x = .ok t') (m' : MarketId)
    (o : Bool) : held t' m' o = held t m' o + if m' = m then x else 0 := by
  unfold held
  rw [(Tokens.creditCompleteSet_ok h).2.2]
  by_cases hm : m' = m
  · subst hm
    cases o <;> simp [outcomeOf]
  · simp [hm]

/-- Merged sets leave both outcomes. -/
theorem merge_held {ctx : Ctx} (h : Tokens.mergePositions ctx t (.contract .amm) m x = .ok t')
    (m' : MarketId) (o : Bool) : held t' m' o = held t m' o - if m' = m then x else 0 := by
  unfold held
  rw [(Tokens.mergePositions_ok h).2.2.2.2.2]
  by_cases hm : m' = m
  · subst hm
    cases o <;> simp [outcomeOf]
  · simp [hm]

/-- Delivered tokens leave one outcome. -/
theorem deliver_held (hb : b ≠ .contract .amm)
    (h : Tokens.moveBalance t (.contract .amm) b m (outcomeOf yes) x = .ok t') (m' : MarketId)
    (o : Bool) : held t' m' o = held t m' o - if m' = m ∧ o = yes then x else 0 := by
  unfold held
  rw [(Tokens.moveBalance_ok h).2.2.2]
  simp only [Prod.mk.injEq, true_and, outcomeOf_inj, hb.symm, false_and, and_false, if_false,
    add_zero]

/-- Received tokens join one outcome. -/
theorem receive_held (ha : a ≠ .contract .amm)
    (h : Tokens.moveBalance t a (.contract .amm) m (outcomeOf yes) x = .ok t') (m' : MarketId)
    (o : Bool) : held t' m' o = held t m' o + if m' = m ∧ o = yes then x else 0 := by
  unfold held
  rw [(Tokens.moveBalance_ok h).2.2.2]
  simp only [Prod.mk.injEq, true_and, outcomeOf_inj, ha.symm, false_and, and_false, if_false,
    sub_zero]

/-- Tokens that somebody else moves never leave the market maker. -/
theorem move_held_le {o' : Outcome} (ha : a ≠ .contract .amm) (hx : 0 ≤ x)
    (h : Tokens.moveBalance t a b m o' x = .ok t') (m' : MarketId) (o : Bool) :
    held t m' o ≤ held t' m' o := by
  unfold held
  rw [(Tokens.moveBalance_ok h).2.2.2]
  simp only [Prod.mk.injEq, ha.symm, false_and, and_false, if_false, sub_zero]
  split <;> omega

/-- Tokens that somebody else burns were not the market maker's. -/
theorem burn_held {o' : Outcome} (ha : a ≠ .contract .amm)
    (h : Tokens.subBalance t m a o' x = .ok t') (m' : MarketId) (o : Bool) :
    held t' m' o = held t m' o := by
  obtain ⟨_, rfl⟩ := Tokens.subBalance_ok h
  exact Store.set_get_of_ne _ _ (fun hk => ha (Prod.mk.inj (Prod.mk.inj hk).2).1.symm)

end Held

/-- An invocation that leaves the pools and the tokens alone, records no credit
of the market maker, and moves the buckets of liquidity fees by a flow. -/
structure Beside (flow : MarketId → ℤ) (w w' : World) : Prop where
  amm : w'.amm = w.amm
  tokens : w'.tokens = w.tokens
  use : SameUse (.contract .amm) w.vault w'.vault
  lpFees : ∀ p, (w'.vault.accounting p).lpFees = (w.vault.accounting p).lpFees + flow p

namespace Beside

variable {ctx : Ctx} {w w' w'' : World} {m : Amm.Modules} {marketId : MarketId} {user : Address}
  {o : Outcome} {x y out : ℤ}

/-- An invocation of the vault about anyone but the market maker. -/
theorem of_exec {op : Vault.VaultOp} {v : VaultState} {b : Bank} (h : op.exec ctx w = .ok w')
    (hctx : Outside .vault ctx) (hw : Sane w.vault) (hop : op.holder ≠ some (.contract .amm))
    (hshape : w' = { w with vault := v, bank := b }) : Beside (fun p => op.lpFlow p) w w' := by
  refine ⟨?_, ?_, op.exec_use hw h hop, fun p => op.exec_lpFees p hctx hw h⟩
  · rw [hshape]
  · rw [hshape]

/-- One invocation after another adds the flows. -/
theorem trans {flow flow' : MarketId → ℤ} (h : Beside flow w w') (h' : Beside flow' w' w'') :
    Beside (fun p => flow p + flow' p) w w'' := by
  refine ⟨h'.amm.trans h.amm, h'.tokens.trans h.tokens, h.use.trans h'.use, ?_⟩
  intro p
  rw [h'.lpFees, h.lpFees, add_assoc]

/-- The same flow under another name. -/
theorem congr {flow flow' : MarketId → ℤ} (h : Beside flow w w') (hflow : ∀ p, flow p = flow' p) :
    Beside flow' w w' :=
  { h with lpFees := fun p => (h.lpFees p).trans (by rw [hflow]) }

/-- A deposit. -/
theorem depositForMarket (hctx : FromOutside ctx) (hw : TradeInvariant w)
    (h : Amm.depositForMarket ctx w m user marketId x = .ok w') : Beside (fun _ => 0) w w' := by
  have hdeposit := Amm.depositForMarket_ok h
  obtain ⟨_, _, b, v, d, _, hshape⟩ := Vault.depositForMarket_steps hdeposit
  have hexec : (Vault.VaultOp.depositForMarket m.collateral user marketId x).exec
      (Amm.within ctx) w = .ok w' := hdeposit
  exact of_exec hexec hctx.within hw.sane (Option.some_ne_none _).symm hshape

/-- The funding of a purchase by anyone but the market maker. -/
theorem fundPurchase (hctx : FromOutside ctx) (hw : TradeInvariant w) (hu : user ≠ .contract .amm)
    {parent : Option (MarketId × Outcome)}
    (h : Amm.fundPurchase ctx w m user marketId o x out parent = .ok w') :
    Beside (fun _ => 0) w w' := by
  cases parent with
  | none =>
    obtain ⟨w1, h1, h⟩ := bind_ok.mp h
    obtain ⟨called, hcall, h⟩ := bind_ok.mp h
    obtain rfl := (Ctx.call_ok.mp hcall).2.2
    have hw1 := hw.depositForMarket hctx h1
    obtain ⟨_, hshape⟩ := Vault.recordCashStake_steps h
    have hexec : (Vault.VaultOp.recordCashStake user marketId o x out).exec (Amm.within ctx) w1 =
        .ok w' := h
    have hstake := of_exec hexec hctx.within hw1.sane (Option.some_ne_none _).symm hshape
    exact (depositForMarket hctx hw h1).trans hstake
  | some parent =>
    obtain ⟨called, hcall, h⟩ := bind_ok.mp h
    obtain rfl := (Ctx.call_ok.mp hcall).2.2
    obtain ⟨_, _, _, _, _, _, v1, v2, _, _, hshape⟩ := Vault.openChildCreditForTrade_steps h
    have hexec : (Vault.VaultOp.openChildCreditForTrade user parent.1 parent.2 marketId o x).exec
        (Amm.within ctx) w = .ok w' := h
    exact of_exec hexec hctx.within hw.sane (fun hk => hu (Option.some.inj hk)) hshape

/-- Booking a fee. -/
theorem collectFee (hctx : FromOutside ctx) (hw : TradeInvariant w) {fees : Amm.FeeParts}
    (h : Amm.collectFee ctx w m marketId fees = .ok w') :
    Beside (fun p => if p = marketId then fees.lp else 0) w w' := by
  have hcollect := Amm.collectFee_ok h
  obtain ⟨_, _, _, _, _, hshape⟩ := Vault.collectFee_steps hcollect
  have hexec : (Vault.VaultOp.collectFee marketId fees.lp fees.treasury fees.cod).exec
      (Amm.within ctx) w = .ok w' := hcollect
  exact of_exec hexec hctx.within hw.sane (Option.some_ne_none _).symm hshape

/-- Paying a provider. -/
theorem payLpFees (hctx : FromOutside ctx) (hw : TradeInvariant w)
    (h : Amm.payLpFees ctx w m marketId user x = .ok w') :
    Beside (fun p => if p = marketId then -max x 0 else 0) w w' := by
  unfold Amm.payLpFees at h
  split at h
  · next hpos =>
    obtain ⟨called, hcall, h⟩ := bind_ok.mp h
    obtain rfl := (Ctx.call_ok.mp hcall).2.2
    obtain ⟨_, _, _, b, hshape⟩ := Vault.claimLpFees_steps h
    rw [max_eq_left hpos.le]
    have hexec : (Vault.VaultOp.claimLpFees m.collateral marketId user x).exec (Amm.within ctx) w =
        .ok w' := h
    exact of_exec hexec hctx.within hw.sane (Option.some_ne_none _).symm hshape
  · next hnone =>
    obtain rfl := ok_ok.mp h
    refine ⟨rfl, rfl, .refl _ _, ?_⟩
    intro p
    rw [max_eq_right (not_lt.mp hnone), neg_zero, ite_self, add_zero]

/-- Paying a seller. -/
theorem releaseTradePayout (hctx : FromOutside ctx) (hw : TradeInvariant w)
    (h : Vault.releaseTradePayout (Amm.within ctx) w m.collateral user marketId o x y = .ok w') :
    Beside (fun _ => 0) w w' := by
  obtain ⟨_, _, _, _, _, v, b, _, hshape⟩ := Vault.releaseTradePayout_steps h
  have hexec : (Vault.VaultOp.releaseTradePayout m.collateral user marketId o x y).exec
      (Amm.within ctx) w = .ok w' := h
  exact of_exec hexec hctx.within hw.sane (Option.some_ne_none _).symm hshape

/-- Settling a liquidated parent position of anyone but the market maker. -/
theorem liquidateRelease (hctx : FromOutside ctx) (hw : TradeInvariant w)
    (hu : user ≠ .contract .amm) {keeper : Address} {sold : ℤ}
    (h : Vault.liquidateRelease (Amm.within ctx) w m.collateral user keeper marketId o sold x =
      .ok (y, w')) : Beside (fun _ => 0) w w' := by
  obtain ⟨_, _, _, _, v1, _, v2, v3, b, _, _, _, hshape⟩ := Vault.liquidateRelease_steps h
  have hexec : (Vault.VaultOp.liquidateRelease m.collateral user keeper marketId o sold x).exec
      (Amm.within ctx) w = .ok w' := world_ok.mpr ⟨y, h⟩
  exact of_exec hexec hctx.within hw.sane (fun hk => hu (Option.some.inj hk)) hshape

/-- Settling a liquidated child position of anyone but the market maker. -/
theorem liquidateChildRelease (hctx : FromOutside ctx) (hw : TradeInvariant w)
    (hu : user ≠ .contract .amm) {keeper : Address} {sold : ℤ}
    (h : Vault.liquidateChildRelease (Amm.within ctx) w m.collateral user keeper marketId o sold x =
      .ok (y, w')) : Beside (fun _ => 0) w w' := by
  obtain ⟨_, _, _, _, v1, v2, v3, b, _, _, _, hshape⟩ := Vault.liquidateChildRelease_steps h
  have hexec : (Vault.VaultOp.liquidateChildRelease m.collateral user keeper marketId o sold x).exec
      (Amm.within ctx) w = .ok w' := world_ok.mpr ⟨y, h⟩
  exact of_exec hexec hctx.within hw.sane (fun hk => hu (Option.some.inj hk)) hshape

end Beside

/-- The market maker owes for no child position, so another account is
liquidated: its position is sold and the vault settles the proceeds. -/
theorem TradeInvariant.liquidateChildPosition {ctx : Ctx} {w w' : World} (ht : TradeInvariant w)
    {liquidator user : Address} {poolId : ℕ} {o : Outcome} {y : ℤ}
    (h : Amm.liquidateChildPosition ctx w liquidator user poolId o = .ok (y, w')) :
    user ≠ .contract .amm ∧ ∃ pool : PoolData, ∃ m : Amm.Modules, ∃ sold proceeds w1,
      Amm.forceSell ctx w poolId user (decide (o = .yes)) = .ok (sold, proceeds, w1) ∧
      Vault.liquidateChildRelease (Amm.within ctx) w1 m.collateral user liquidator pool.marketId o
        sold proceeds = .ok (y, w') := by
  obtain ⟨pool, m, _, _, _, sold, proceeds, w1, _, _, hdebt, _, _, _, _, h1, h2⟩ :=
    Amm.liquidate_steps h
  refine ⟨?_, pool, m, sold, proceeds, w1, h1, h2⟩
  rintro rfl
  exact hdebt (le_antisymm (ht.ammChildFree _) (ht.sane.childDebt_nonneg _))

/-- What covers the market maker's reserves: pools stored under their own
identifiers, reserves that are never negative and are held in tokens, and no
credit against stakes of the market maker. -/
structure Stocked (w : World) : Prop where
  filed : ∀ i pool, w.amm.pool i = some pool → pool.id = i
  nonneg : ∀ i pool, w.amm.pool i = some pool → ∀ o, 0 ≤ reserveOf pool o
  undrawn : ∀ m o, w.vault.childUsedByOutcome (m, .contract .amm, o) = 0
  covered : ∀ m o, reserved w.amm m o ≤ held w.tokens m o

namespace Stocked

variable {ctx : Ctx} {w w' : World} {i : ℕ} {pool pool' : PoolData}

/-- Every pool weighs something nonnegative. -/
theorem weight_nonneg (hw : Stocked w) (m : MarketId) (o : Bool) (i : ℕ) :
    0 ≤ (reserveTally m o).weight i (w.amm.pool i) := by
  unfold reserveTally
  dsimp only
  cases hpool : w.amm.pool i with
  | none => exact le_rfl
  | some pool =>
    dsimp only
    split
    · exact hw.nonneg i pool hpool o
    · exact le_rfl

/-- The market maker holds at least the reserve of each pool. -/
theorem reserve_le (hw : Stocked w) (hpool : w.amm.pool i = some pool) (o : Bool) :
    reserveOf pool o ≤ held w.tokens pool.marketId o := by
  have hone := w.amm.pool.weight_le_total (reserveTally pool.marketId o)
    (hw.weight_nonneg pool.marketId o) i
  have hcovered := hw.covered pool.marketId o
  rw [hpool] at hone
  unfold reserveTally reserved at *
  simp only [if_true] at hone
  exact hone.trans hcovered

/-- Unchanged pools stay covered while the market maker loses no tokens. -/
theorem keep (hw : Stocked w) (hpools : w'.amm.pool = w.amm.pool)
    (huse : SameUse (.contract .amm) w.vault w'.vault)
    (hheld : ∀ m o, held w.tokens m o ≤ held w'.tokens m o) : Stocked w' := by
  refine ⟨?_, ?_, ?_, ?_⟩
  · rw [hpools]
    exact hw.filed
  · rw [hpools]
    exact hw.nonneg
  · intro m o
    rw [huse, hw.undrawn]
  · intro m o
    have hcovered := hw.covered m o
    unfold reserved at *
    rw [hpools]
    exact hcovered.trans (hheld m o)

/-- A rewritten pool stays covered while the tokens move with its reserves. -/
theorem write (hw : Stocked w) (pool' : PoolData) (hpool : w.amm.pool i = some pool)
    (hid : pool'.id = pool.id)
    (hmarket : pool'.marketId = pool.marketId) (hnonneg : ∀ o, 0 ≤ reserveOf pool' o)
    (hpools : w'.amm.pool = w.amm.pool.set pool'.id (some pool'))
    (huse : SameUse (.contract .amm) w.vault w'.vault)
    (hheld : ∀ m o, held w.tokens m o +
      (if m = pool.marketId then reserveOf pool' o - reserveOf pool o else 0) ≤
        held w'.tokens m o) :
    Stocked w' := by
  have hi : pool'.id = i := hid.trans (hw.filed i pool hpool)
  rw [hi] at hpools
  refine ⟨?_, ?_, ?_, ?_⟩
  · intro j q hq
    rw [hpools, Store.set_get] at hq
    split at hq
    · next hj =>
      rw [← Option.some.inj hq, hj, hi]
    · exact hw.filed j q hq
  · intro j q hq
    rw [hpools, Store.set_get] at hq
    split at hq
    · rw [← Option.some.inj hq]
      exact hnonneg
    · exact hw.nonneg j q hq
  · intro m o
    rw [huse, hw.undrawn]
  · intro m o
    have hcovered := hw.covered m o
    have hmoved := hheld m o
    unfold reserved at *
    rw [hpools, Store.total_set, hpool]
    unfold reserveTally at *
    dsimp only at *
    rw [hmarket]
    simp only [eq_comm (a := m)] at hmoved
    split at hmoved <;> simp_all only [if_true, if_false] <;> omega

/-- What goes on beside the pools keeps the inventory. -/
theorem beside (hw : Stocked w) {flow : MarketId → ℤ} (h : Beside flow w w') : Stocked w' := by
  refine hw.keep (by rw [h.amm]) h.use ?_
  intro m o
  rw [h.tokens]

/-- Tokens that move without the market maker losing any keep the inventory. -/
theorem withTokens (hw : Stocked w) {t : TokensState}
    (hheld : ∀ m o, held w.tokens m o ≤ held t m o) : Stocked { w with tokens := t } :=
  hw.keep rfl (.refl _ _) hheld

/-- A purchase by anyone but the market maker keeps the inventory. -/
theorem buy (hctx : FromOutside ctx) (ht : TradeInvariant w) (hw : Stocked w) {trader : Address}
    {poolId : ℕ} {amountIn minOut out : ℤ} {deadline : ℕ} {yes : Bool}
    {parent : Option (MarketId × Outcome)}
    (h : Amm.buy ctx w trader poolId amountIn minOut deadline yes parent = .ok (out, w')) :
    Stocked w' := by
  obtain ⟨pool, m, fee, netIn, fees, pool1, pool2, w1, w2, w3, w4, hauth, hpool, _, hquote, h1, h2,
    hfees, h3, hreserves, h4, rfl⟩ := Amm.buy_writes h
  have htrader := hctx.1.ne_of_auth hauth
  have ht1 := ht.fundPurchase hctx htrader h1
  have ht2 := ht1.mintCompleteSet h2
  have hb1 := Beside.fundPurchase hctx ht htrader h1
  have hb3 := Beside.collectFee hctx ht2 h3
  obtain ⟨t1, _, hmint, rfl⟩ := Amm.mintCompleteSet_ok h2
  obtain ⟨_, _, _, _, t2, hmove, rfl⟩ := Tokens.transferPosition_ok (Amm.transferPosition_ok h4)
  obtain ⟨htraded, hreserve⟩ := Amm.bought_traded hfees hreserves
  have hout := Amm.quoteBuyOf_le hquote
  refine hw.write pool2 hpool htraded.id htraded.marketId ?_ ?_ (hb1.use.trans hb3.use) ?_
  · intro o
    have ho := hw.nonneg poolId pool hpool o
    rw [hreserve]
    split
    · next heq =>
      rw [heq] at ho ⊢
      omega
    · omega
  · dsimp only [Amm.writePool]
    rw [hb3.amm, ← hb1.amm]
  · intro p o
    dsimp only
    rw [deliver_held htrader hmove, hb3.tokens]
    dsimp only
    rw [credit_held hmint, hb1.tokens, hreserve]
    by_cases hp : p = pool.marketId
    · rw [if_pos hp, if_pos hp]
      by_cases ho : o = yes
      · rw [if_pos ho, if_pos ⟨hp, ho⟩]
        omega
      · rw [if_neg ho, if_neg (fun hk => ho hk.2)]
        omega
    · rw [if_neg hp, if_neg hp, if_neg (fun hk => hp hk.1)]
      omega

/-- Sold tokens come in and merged sets leave, in the pool and in the balances. -/
theorem sold (hw : Stocked w) {t1 t2 : TokensState} {poolId : ℕ} {pool1 : PoolData}
    {config : FeeConfig} {fee : ℤ} {fees : Amm.FeeParts} {user : Address} {yes : Bool}
    {amountIn gross : ℤ} (hu : user ≠ .contract .amm) (hpool : w.amm.pool poolId = some pool)
    (hquote : Amm.quoteSellOf pool yes amountIn = .ok gross)
    (hfees : Amm.accrueFees pool config fee = .ok (fees, pool1))
    (hreserves : Amm.soldReserves pool1 yes amountIn gross = .ok pool')
    (hmove : Tokens.moveBalance w.tokens user (.contract .amm) pool.marketId (outcomeOf yes)
      amountIn = .ok t1)
    (hmerge : Tokens.mergePositions (Amm.within ctx) t1 (.contract .amm) pool.marketId gross =
      .ok t2)
    (hpools : w'.amm.pool = w.amm.pool.set pool'.id (some pool'))
    (huse : SameUse (.contract .amm) w.vault w'.vault) (htokens : w'.tokens = t2) : Stocked w' := by
  obtain ⟨htraded, hreserve⟩ := Amm.sold_traded hfees hreserves
  have hgross := Amm.quoteSellOf_le hquote
  refine hw.write pool' hpool htraded.id htraded.marketId ?_ hpools huse ?_
  · intro o
    have ho := hw.nonneg poolId pool hpool o
    have hopposite := hgross.2
    rw [hreserve]
    split
    · omega
    · next hne =>
      have heq : o = !yes := by cases o <;> cases yes <;> simp_all
      rw [← heq] at hopposite
      omega
  · intro p o
    rw [htokens, merge_held hmerge, receive_held hu hmove, hreserve]
    by_cases hp : p = pool.marketId
    · rw [if_pos hp, if_pos hp]
      by_cases ho : o = yes
      · rw [if_pos ho, if_pos ⟨hp, ho⟩]
        omega
      · rw [if_neg ho, if_neg (fun hk => ho hk.2)]
        omega
    · rw [if_neg hp, if_neg hp, if_neg (fun hk => hp hk.1)]
      omega

/-- A sale keeps the inventory. -/
theorem sell (hctx : FromOutside ctx) (ht : TradeInvariant w) (hw : Stocked w) {trader : Address}
    {poolId : ℕ} {amountIn minOut netOut : ℤ} {deadline : ℕ} {yes : Bool}
    (h : Amm.sell ctx w trader poolId amountIn minOut deadline yes = .ok (netOut, w')) :
    Stocked w' := by
  obtain ⟨pool, m, fee, gross, fees, pool1, pool2, w1, w2, w3, w4, hauth, hpool, hquote, _, hfees,
    h1, h2, h3, h4, hreserves, rfl⟩ := Amm.sell_writes h
  have htrader := hctx.1.ne_of_auth hauth
  have ht1 := ht.transferPosition (Amm.transferPosition_ok h1)
  have ht2 := ht1.mergePositions h2
  have ht3 := ht2.calm (Vault.releaseTradePayout_calm ht2.sane h3)
  have hb3 := Beside.releaseTradePayout hctx ht2 h3
  have hb4 := Beside.collectFee hctx ht3 h4
  obtain ⟨_, hpos, _, _, t1, hmove, rfl⟩ := Tokens.transferPosition_ok (Amm.transferPosition_ok h1)
  obtain ⟨t2, hmerge, rfl⟩ := Amm.mergePositions_ok h2
  refine hw.sold htrader hpool hquote hfees hreserves hmove hmerge ?_ (hb3.use.trans hb4.use) ?_
  · dsimp only [Amm.writePool]
    rw [hb4.amm, hb3.amm]
  · dsimp only
    rw [hb4.tokens, hb3.tokens]

/-- A forced sale of anyone's position but the market maker's keeps the inventory. -/
theorem forceSell (hctx : FromOutside ctx) (ht : TradeInvariant w) (hw : Stocked w) {poolId : ℕ}
    {user : Address} (hu : user ≠ .contract .amm) {yes : Bool} {sold netOut : ℤ}
    (h : Amm.forceSell ctx w poolId user yes = .ok (sold, netOut, w')) : Stocked w' := by
  obtain ⟨pool, m, fee, gross, fees, pool1, pool2, t, w2, w3, hpool, _, hpos, hquote, _, hfees,
    hmove, h2, h3, hreserves, rfl⟩ := Amm.forceSell_writes h
  have ht1 := ht.move hpos hmove
  have ht2 := ht1.mergePositions h2
  have hb3 := Beside.collectFee hctx ht2 h3
  obtain ⟨t2, hmerge, rfl⟩ := Amm.mergePositions_ok h2
  refine hw.sold hu hpool hquote hfees hreserves hmove hmerge ?_ hb3.use ?_
  · dsimp only [Amm.writePool]
    rw [hb3.amm]
  · dsimp only
    rw [hb3.tokens]

/-- A first deposit keeps the inventory: leftover tokens only help. -/
theorem seedLiquidity (hctx : FromOutside ctx) (ht : TradeInvariant w) (hw : Stocked w)
    {lp : Address} {poolId : ℕ} {x y : ℤ}
    (h : Amm.seedLiquidity ctx w lp poolId x = .ok (y, w')) : Stocked w' := by
  obtain ⟨pool, m, w1, w2, hx, hpool, _, h1, h2, rfl⟩ := Amm.seedLiquidity_writes h
  have hb1 := Beside.depositForMarket hctx ht h1
  obtain ⟨t1, _, hmint, rfl⟩ := Amm.mintCompleteSet_ok h2
  have hseeded : ∀ o, reserveOf (Amm.seededPool pool x) o = x := fun o => by cases o <;> rfl
  refine hw.write (Amm.seededPool pool x) hpool rfl rfl ?_ ?_ hb1.use ?_
  · intro o
    rw [hseeded]
    exact hx.le
  · dsimp only [Amm.withShares, Amm.writeLp, Amm.writePool]
    rw [hb1.amm]
  · intro p o
    dsimp only [Amm.withShares]
    have ho := hw.nonneg poolId pool hpool o
    rw [credit_held hmint, hb1.tokens, hseeded]
    split <;> omega

/-- A pool that was resized holds that much more or less. -/
theorem resizedPool_reserve (pool : PoolData) (a b s : ℤ) (o : Bool) :
    reserveOf (Amm.resizedPool pool a b s) o = reserveOf pool o + if o = true then a else b := by
  cases o <;> rfl

/-- A further deposit keeps the inventory. -/
theorem addLiquidity (hctx : FromOutside ctx) (ht : TradeInvariant w) (hw : Stocked w)
    {lp : Address} {poolId : ℕ} {x y : ℤ}
    (h : Amm.addLiquidity ctx w lp poolId x = .ok (y, w')) : Stocked w' := by
  obtain ⟨pool, m, pending, w1, w2, hx, _, hpool, h1, h2, _, h3⟩ := Amm.addLiquidity_writes h
  have ht1 := ht.depositForMarket hctx h1
  have ht2 := ht1.mintCompleteSet h2
  have hb1 := Beside.depositForMarket hctx ht h1
  have hb3 := Beside.payLpFees hctx (by exact ht2.withAmm _) h3
  obtain ⟨t1, _, hmint, rfl⟩ := Amm.mintCompleteSet_ok h2
  refine Stocked.beside ?_ hb3
  refine hw.write (Amm.resizedPool pool x x y) hpool rfl rfl ?_ ?_ hb1.use ?_
  · intro o
    have ho := hw.nonneg poolId pool hpool o
    rw [resizedPool_reserve]
    split <;> omega
  · dsimp only [Amm.withShares, Amm.writeLp, Amm.writePool]
    rw [hb1.amm]
  · intro p o
    dsimp only [Amm.withShares]
    rw [credit_held hmint, hb1.tokens, resizedPool_reserve, ite_self]
    split <;> omega

/-- A withdrawal by anyone but the market maker keeps the inventory. -/
theorem removeLiquidity (hctx : FromOutside ctx) (ht : TradeInvariant w) (hw : Stocked w)
    {lp : Address} {poolId : ℕ} {shares yesOut noOut : ℤ}
    (h : Amm.removeLiquidity ctx w lp poolId shares = .ok (yesOut, noOut, w')) : Stocked w' := by
  obtain ⟨pool, m, pending, w1, w2, hauth, hshares, hpool, _, htotal, _, hyes, hno, h1, h2, h3⟩ :=
    Amm.removeLiquidity_writes h
  have hlp := hctx.1.ne_of_auth hauth
  have hb1 := Beside.payLpFees hctx (by exact ht.withAmm _) h1
  obtain ⟨_, _, _, _, t1, hmove1, rfl⟩ := Tokens.transferPosition_ok (Amm.transferPosition_ok h2)
  obtain ⟨_, _, _, _, t2, hmove2, rfl⟩ := Tokens.transferPosition_ok (Amm.transferPosition_ok h3)
  have hyesBound := proportionOf_bounds (hw.nonneg poolId pool hpool true) hshares htotal
  have hnoBound := proportionOf_bounds (hw.nonneg poolId pool hpool false) hshares htotal
  refine hw.write (Amm.resizedPool pool (-yesOut) (-noOut) (-shares)) hpool rfl rfl ?_ ?_
    hb1.use ?_
  · intro o
    rw [resizedPool_reserve]
    cases o with
    | true =>
      rw [if_pos rfl, hyes]
      have hle := hyesBound.2
      unfold reserveOf at hle ⊢
      simp only [if_true] at hle ⊢
      omega
    | false =>
      rw [if_neg Bool.false_ne_true, hno]
      have hle := hnoBound.2
      unfold reserveOf at hle ⊢
      simp only [Bool.false_eq_true, if_false] at hle ⊢
      omega
  · dsimp only
    rw [hb1.amm]
    rfl
  · intro p o
    dsimp only
    have hmoved1 : Tokens.moveBalance w1.tokens (.contract .amm) lp pool.marketId (outcomeOf true)
        yesOut = .ok t1 := hmove1
    have hmoved2 : Tokens.moveBalance t1 (.contract .amm) lp pool.marketId (outcomeOf false)
        noOut = .ok t2 := hmove2
    have hfirst := deliver_held hlp hmoved1 p o
    have hfinal := deliver_held hlp hmoved2 p o
    rw [hb1.tokens] at hfirst
    dsimp only [Amm.withShares] at hfirst hfinal
    rw [hfinal, hfirst, resizedPool_reserve]
    cases o <;> by_cases hp : p = pool.marketId <;> simp [hp]

/-- A claim of fees keeps the inventory. -/
theorem claimLpFees (hctx : FromOutside ctx) (ht : TradeInvariant w) (hw : Stocked w)
    {lp : Address} {poolId : ℕ} {y : ℤ}
    (h : Amm.claimLpFees ctx w lp poolId = .ok (y, w')) : Stocked w' := by
  obtain ⟨pool, _, rfl | ⟨m, _, _, h1⟩⟩ := Amm.claimLpFees_writes h
  · exact hw
  · have hb1 := Beside.payLpFees hctx (by exact ht.withAmm _) h1
    have hmoved : Stocked (Amm.withCheckpoint w poolId pool lp) :=
      hw.keep rfl (.refl _ _) (fun _ _ => le_rfl)
    exact hmoved.beside hb1

/-- A new pool holds nothing yet. -/
theorem createPool (hw : Stocked w) {marketId : MarketId} {config : FeeConfig} {poolId : ℕ}
    (h : Amm.createPool ctx w marketId config = .ok (poolId, w')) : Stocked w' := by
  obtain ⟨_, _, h⟩ := bind_ok.mp h
  obtain ⟨_, _, h⟩ := bind_ok.mp h
  obtain ⟨next, _, h⟩ := bind_ok.mp h
  obtain ⟨_, rfl⟩ := Prod.mk.inj (pure_ok.mp h)
  have hfresh : ∀ o, reserveOf (Amm.freshPool w.amm.nextPoolId marketId) o = 0 := by
    intro o
    cases o <;> rfl
  refine ⟨?_, ?_, hw.undrawn, ?_⟩
  · intro j q hq
    dsimp only [Amm.writePool] at hq
    rw [Store.set_get] at hq
    split at hq
    · next hj =>
      rw [← Option.some.inj hq, hj]
    · exact hw.filed j q hq
  · intro j q hq
    dsimp only [Amm.writePool] at hq
    rw [Store.set_get] at hq
    split at hq
    · rw [← Option.some.inj hq]
      exact fun o => (hfresh o).symm.le
    · exact hw.nonneg j q hq
  · intro m o
    have hcovered := hw.covered m o
    have hold := hw.weight_nonneg m o w.amm.nextPoolId
    have hnew : (reserveTally m o).weight w.amm.nextPoolId
        (some (Amm.freshPool w.amm.nextPoolId marketId)) = 0 := by
      unfold reserveTally
      dsimp only
      rw [hfresh, ite_self]
    unfold reserved at *
    dsimp only [Amm.writePool]
    rw [Store.total_set]
    change _ - _ + (reserveTally m o).weight w.amm.nextPoolId
      (some (Amm.freshPool w.amm.nextPoolId marketId)) ≤ _
    rw [hnew]
    change _ - (reserveTally m o).weight w.amm.nextPoolId (w.amm.pool w.amm.nextPoolId) + 0 ≤ _
    omega

/-- The market maker's stakes carry no credit, so another account is liquidated:
its position is sold and the vault settles the proceeds. -/
theorem liquidatePosition (hw : Stocked w) {liquidator user : Address} {poolId : ℕ} {o : Outcome}
    {y : ℤ} (h : Amm.liquidatePosition ctx w liquidator user poolId o = .ok (y, w')) :
    user ≠ .contract .amm ∧ ∃ pool : PoolData, ∃ m : Amm.Modules, ∃ sold proceeds w1,
      Amm.forceSell ctx w poolId user (decide (o = .yes)) = .ok (sold, proceeds, w1) ∧
      Vault.liquidateRelease (Amm.within ctx) w1 m.collateral user liquidator pool.marketId o sold
        proceeds = .ok (y, w') := by
  obtain ⟨pool, m, _, _, _, sold, proceeds, w1, _, _, hdebt, _, _, _, _, h1, h2⟩ :=
    Amm.liquidate_steps h
  refine ⟨?_, pool, m, sold, proceeds, w1, h1, h2⟩
  rintro rfl
  exact hdebt (hw.undrawn _ _)

/-- Every entry point of the market maker keeps the inventory. -/
theorem amm (hctx : FromOutside ctx) (ht : TradeInvariant w) (hw : Stocked w) {op : Amm.AmmOp}
    (h : op.exec ctx w = .ok w') : Stocked w' := by
  cases op with
  | setAdmin admin =>
    obtain ⟨_, _, h⟩ := bind_ok.mp h
    obtain rfl := pure_ok.mp h
    exact { hw with }
  | upgrade wasmHash =>
    obtain ⟨_, _, h⟩ := bind_ok.mp h
    obtain rfl := pure_ok.mp h
    exact hw
  | setRole role module =>
    obtain ⟨_, _, h⟩ := bind_ok.mp h
    obtain rfl := pure_ok.mp h
    exact { hw with }
  | setModules vault tokens collateral registry =>
    obtain ⟨_, _, h⟩ := bind_ok.mp h
    obtain rfl := pure_ok.mp h
    exact { hw with }
  | pause paused =>
    obtain ⟨_, _, h⟩ := bind_ok.mp h
    obtain rfl := pure_ok.mp h
    exact { hw with }
  | createPool marketId feeConfig =>
    obtain ⟨poolId, h⟩ := world_ok.mp h
    exact hw.createPool h
  | seedLiquidity lp poolId amount =>
    obtain ⟨y, h⟩ := world_ok.mp h
    exact hw.seedLiquidity hctx ht h
  | addLiquidity lp poolId amount =>
    obtain ⟨y, h⟩ := world_ok.mp h
    exact hw.addLiquidity hctx ht h
  | removeLiquidity lp poolId shares =>
    obtain ⟨⟨yesOut, noOut, w3⟩, hremove, h⟩ := bind_ok.mp h
    obtain rfl := pure_ok.mp h
    exact hw.removeLiquidity hctx ht hremove
  | claimLpFees lp poolId =>
    obtain ⟨y, h⟩ := world_ok.mp h
    exact hw.claimLpFees hctx ht h
  | buyYes trader poolId amountIn minOut deadline =>
    obtain ⟨y, h⟩ := world_ok.mp h
    exact hw.buy hctx ht h
  | buyNo trader poolId amountIn minOut deadline =>
    obtain ⟨y, h⟩ := world_ok.mp h
    exact hw.buy hctx ht h
  | buyChildYes trader parentMarketId parentOutcome poolId amountIn minOut deadline =>
    obtain ⟨y, h⟩ := world_ok.mp h
    exact hw.buy hctx ht h
  | buyChildNo trader parentMarketId parentOutcome poolId amountIn minOut deadline =>
    obtain ⟨y, h⟩ := world_ok.mp h
    exact hw.buy hctx ht h
  | sellYes trader poolId amountIn minOut deadline =>
    obtain ⟨y, h⟩ := world_ok.mp h
    exact hw.sell hctx ht h
  | sellNo trader poolId amountIn minOut deadline =>
    obtain ⟨y, h⟩ := world_ok.mp h
    exact hw.sell hctx ht h
  | liquidatePosition liquidator user parentPoolId parentOutcome =>
    obtain ⟨y, h⟩ := world_ok.mp h
    obtain ⟨hu, pool, m, sold, proceeds, w1, h1, h2⟩ := hw.liquidatePosition h
    have ht1 := ht.forceSell h1
    have hw1 := hw.forceSell hctx ht hu h1
    exact hw1.beside (.liquidateRelease hctx ht1 hu h2)
  | liquidateChildPosition liquidator user childPoolId childOutcome =>
    obtain ⟨y, h⟩ := world_ok.mp h
    obtain ⟨hu, pool, m, sold, proceeds, w1, h1, h2⟩ := ht.liquidateChildPosition h
    have ht1 := ht.forceSell h1
    have hw1 := hw.forceSell hctx ht hu h1
    exact hw1.beside (.liquidateChildRelease hctx ht1 hu h2)

end Stocked

/-- Invoked from outside, the vault leaves the pools, the market maker's tokens,
its stakes and every bucket of liquidity fees alone. -/
theorem TradeInvariant.vault_beside {ctx : Ctx} {w w' : World} (hctx : FromOutside ctx)
    (ht : TradeInvariant w) {op : Vault.VaultOp} (h : op.exec ctx w = .ok w') :
    w'.amm = w.amm ∧ (∀ m o, held w'.tokens m o = held w.tokens m o) ∧
      SameUse (.contract .amm) w.vault w'.vault ∧
      ∀ p, (w'.vault.accounting p).lpFees = (w.vault.accounting p).lpFees := by
  have hopen := not_shut hctx.1 ht.ammRole h
  have hfees : ∀ p, op.lpFlow p = 0 := by
    intro p
    cases op with
    | collectFee | claimLpFees => cases hopen
    | _ => rfl
  have hholder : op.holder ≠ some (.contract .amm) := by
    intro hk
    cases op with
    | openChildCreditForTrade | liquidateRelease | liquidateChildRelease => cases hopen
    | repayChildCollateral | redeemResolved | redeemCancelled =>
      obtain ⟨y, h⟩ := world_ok.mp h
      obtain ⟨_, hauth, _⟩ := bind_ok.mp h
      exact hctx.1.ne_of_auth hauth (Option.some.inj hk)
    | _ => cases hk
  have hshape : w'.amm = w.amm ∧ ∀ m o, held w'.tokens m o = held w.tokens m o := by
    obtain ⟨v, b, t, rfl, rfl | ⟨m, u, o, x, hu, _, hburn⟩⟩ := op.exec_shape h
    · exact ⟨rfl, fun _ _ => rfl⟩
    · have hne : u ≠ .contract .amm := fun hk => hholder (by rw [hu, hk])
      exact ⟨rfl, burn_held hne hburn⟩
  refine ⟨hshape.1, hshape.2, op.exec_use ht.sane h hholder, ?_⟩
  intro p
  rw [op.exec_lpFees p hctx.2.1 ht.sane h, hfees, add_zero]

/-- Every step of a run keeps the inventory. -/
theorem Stocked.step {w w' : World} {step : TradeStep} (ht : TradeInvariant w) (hw : Stocked w)
    (h : tradingSystem.step w step = .ok w') : Stocked w' := by
  cases step with
  | call ctx op =>
    obtain ⟨hctx, hop, h⟩ := tradingSystem_call h
    cases op with
    | amm op => exact hw.amm hctx ht h
    | vault op =>
      obtain ⟨hamm, hheld, huse, _⟩ := ht.vault_beside hctx h
      exact hw.keep (by rw [hamm]) huse (fun m o => (hheld m o).ge)
    | tokens op =>
      rcases ht.tokens_ok hctx hop h with ⟨t, rfl, hbalance, _, _⟩ | ⟨a, b, m, o, x, _, hmove⟩ |
        ⟨a, m, o, x, t, _, hburn, rfl⟩
      · refine hw.withTokens ?_
        intro m o
        unfold held
        rw [hbalance]
      · obtain ⟨hauth, hx, _, _, t, hmoved, rfl⟩ := Tokens.transferPosition_ok hmove
        exact hw.withTokens (move_held_le (hctx.1.ne_of_auth hauth) hx.le hmoved)
      · obtain ⟨hauth, _, hsub⟩ := Tokens.burnLosing_ok hburn
        exact hw.withTokens (fun m' o' => (burn_held (hctx.1.ne_of_auth hauth) hsub m' o').ge)
    | registry op =>
      obtain ⟨r, _, h⟩ := bind_ok.mp h
      obtain rfl := pure_ok.mp h
      exact { hw with }
  | outside bank =>
    obtain rfl := ok_ok.mp h
    exact { hw with }

/-- In every reachable state the market maker's reserves are held in tokens. -/
theorem reachable_stocked {w : World} (h : tradingSystem.Reachable w) : Stocked w := by
  refine h.invariant_with (fun _ => reachable_invariant) ?_ ?_
  · rintro w ⟨l, rfl⟩
    refine ⟨?_, ?_, fun _ _ => rfl, ?_⟩
    · intro i pool hpool
      have hnone : (deploy l).amm.pool i = none := rfl
      rw [hnone] at hpool
      cases hpool
    · intro i pool hpool
      have hnone : (deploy l).amm.pool i = none := rfl
      rw [hnone] at hpool
      cases hpool
    · intro m o
      exact le_rfl
  · intro w step w' ht hw _ hstep
    exact hw.step ht hstep

end DikeProtocol.Trading
