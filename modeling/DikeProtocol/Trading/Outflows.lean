import DikeProtocol.Trading.Calls
import DikeProtocol.Trading.Positions

/-!
# Value that leaves a market

Trades and liquidations lower the backing of the market of their pool, which
trades, and a purchase on credit lowers the backing of its parent market. The
vault only asks that the parent is live, not that it still trades.
-/

namespace DikeProtocol.Trading

open Lib
open Vault (VaultOp Sane Outside)

/-- What the vault books as the backing of a market. -/
def backingOf (v : VaultState) (m : MarketId) : ℤ := (v.accounting m).collateralBacking

/-- The registry says that a market trades at the time of an invocation. -/
def TradesAt (ctx : Ctx) (w : World) (m : MarketId) : Prop :=
  Registry.isTradeable ctx w.registry m = .ok true

instance (ctx : Ctx) (w : World) (m : MarketId) : Decidable (TradesAt ctx w m) :=
  inferInstanceAs (Decidable (_ = _))

/-- The entry points that buy, sell or liquidate. -/
def trades : Amm.AmmOp → Bool
  | .buyYes _ _ _ _ _ | .buyNo _ _ _ _ _ => true
  | .buyChildYes _ _ _ _ _ _ _ | .buyChildNo _ _ _ _ _ _ _ => true
  | .sellYes _ _ _ _ _ | .sellNo _ _ _ _ _ => true
  | .liquidatePosition _ _ _ _ | .liquidateChildPosition _ _ _ _ => true
  | _ => false

/-- The parent stake a purchase draws its credit from. -/
def creditParent : Amm.AmmOp → Option (MarketId × Outcome)
  | .buyChildYes _ p po _ _ _ _ | .buyChildNo _ p po _ _ _ _ => some (p, po)
  | _ => none

/-- Every market whose backing a step lowered trades. -/
def OutflowsTrade (ctx : Ctx) (w w' : World) : Prop :=
  ∀ m, backingOf w'.vault m < backingOf w.vault m → TradesAt ctx w m

section Backing

variable {ctx : Ctx} {v v' : VaultState} {w w' : World} {m : MarketId}

/-- A rewritten market aside, books keep their backing. -/
theorem backingOf_set {p : MarketId} {a : VaultAccounting} (h : m ≠ p) :
    backingOf { v with accounting := v.accounting.set p a } m = backingOf v m := by
  unfold backingOf
  dsimp only
  rw [Store.set_get_of_ne _ _ h]

/-- Books rewritten with no less backing lower no market. -/
theorem backingOf_le_set {p : MarketId} {a : VaultAccounting}
    (h : backingOf v p ≤ a.collateralBacking) :
    backingOf v m ≤ (v.accounting.set p a m).collateralBacking := by
  by_cases hm : m = p
  · rw [hm, Store.set_get_self]
    exact h
  · rw [Store.set_get_of_ne _ _ hm]
    exact le_rfl

/-- A settlement lowers no backing. -/
theorem settleChildDebt_backing (hv : Sane v) {c : MarketId} {u : Address} {r x : ℤ}
    (h : Vault.settleChildDebt v c u r = .ok (x, v')) : backingOf v m ≤ backingOf v' m := by
  have hx := hv.settled_bounds h
  obtain ⟨_, rfl, _⟩ | ⟨_, rfl, _, _⟩ | ⟨_, _, _, rfl⟩ | ⟨_, _, _, _, rfl⟩ :=
    Vault.settleChildDebt_cases h
  · exact le_rfl
  · exact le_rfl
  · exact le_rfl
  · apply backingOf_le_set
    unfold backingOf Vault.repaidBy
    dsimp only
    omega

/-- Paying down the children of a stake lowers no backing. -/
theorem settleChildren_backing (children : List MarketId) (hv : Sane v) {u : Address}
    {pool pool' paid paid' : ℤ}
    (h : Vault.settleChildren v u pool paid children = .ok (pool', paid', v')) :
    backingOf v m ≤ backingOf v' m := by
  refine (Vault.settleChildren_keeps (I := fun s => Sane s ∧ backingOf v m ≤ backingOf s m) ?_
    children h ⟨hv, le_rfl⟩).2
  rintro _ _ _ _ _ h1 ⟨hsane, hle⟩
  exact ⟨hsane.settleChildDebt h1, hle.trans (settleChildDebt_backing hsane h1)⟩

/-- A default lowers no backing: the reserve restores what it can. -/
theorem resolveParentDefault_backing (hr : 0 ≤ v.insuranceReserve) {p : MarketId} {u : Address}
    {o : Outcome} {x : ℤ} (h : Vault.resolveParentDefault v p u o x = .ok v') :
    backingOf v m ≤ backingOf v' m := by
  by_cases hx : 0 < x
  · obtain ⟨_, _, _, rfl, _⟩ := Vault.resolveParentDefault_ok hx hr h
    apply backingOf_le_set
    unfold backingOf Vault.defaultedBy
    dsimp only
    omega
  · unfold Vault.resolveParentDefault at h
    rw [if_pos (by omega)] at h
    rw [ok_ok.mp h]

/-- Extracted proceeds leave one market. -/
theorem extractProceeds_backing {p : MarketId} {u : Address} {o : Outcome} {sold x : ℤ}
    (h : Vault.extractProceeds v p u o sold x = .ok v') (hm : m ≠ p) :
    backingOf v' m = backingOf v m := by
  obtain ⟨_, _, userDeposit, rfl⟩ := Vault.extractProceeds_steps h
  exact backingOf_set hm

/-- Every call a trade makes lowers the backing of the markets it names only. -/
def Lowers : VaultOp → MarketId → Prop
  | .openChildCreditForTrade _ p _ _ _ _, m => m = p
  | .releaseTradePayout _ _ p _ _ _, m => m = p
  | .liquidateRelease _ _ _ p _ _ _, m => m = p
  | .liquidateChildRelease _ _ _ c _ _ _, m => m = c
  | .collectFee p _ _ _, m => m = p
  | .depositForMarket _ _ _ _, _ | .recordCashStake _ _ _ _ _, _ => False
  | _, _ => True

/-- A market none of whose backing a call takes out keeps its backing. -/
theorem exec_backing {op : VaultOp} (hw : Sane w.vault) (hop : ¬Lowers op m)
    (h : op.exec ctx w = .ok w') : backingOf w.vault m ≤ backingOf w'.vault m := by
  cases op with
  | depositForMarket token user p x =>
    obtain ⟨hx, _, b, v, userDeposit, hv, rfl⟩ := Vault.depositForMarket_steps h
    rw [Vault.recordDeposit_ok hv]
    apply backingOf_le_set
    unfold backingOf Vault.depositedBy
    dsimp only
    omega
  | recordCashStake user p o x y =>
    obtain ⟨_, rfl⟩ := Vault.recordCashStake_steps h
    exact le_rfl
  | openChildCreditForTrade user p po c co x =>
    obtain ⟨hx, _, _, _, _, _, v1, v2, h1, h2, rfl⟩ := Vault.openChildCreditForTrade_steps h
    obtain ⟨_, _, _, _, _, hbooks⟩ := Vault.recordLoan_links h1
    obtain ⟨_, _, rfl⟩ := Vault.reallocateBacking_steps h2
    unfold backingOf Vault.reallocated
    rw [hbooks, Store.set_get]
    split
    · next hm =>
      rw [← hm, Store.set_get_of_ne _ _ hop]
      unfold Vault.depositedBy
      dsimp only
      omega
    · rw [Store.set_get_of_ne _ _ hop]
  | releaseTradePayout token user p o sold x =>
    obtain ⟨_, _, _, _, _, v, b, hv, rfl⟩ := Vault.releaseTradePayout_steps h
    exact (extractProceeds_backing hv hop).ge
  | liquidateRelease token user keeper p o sold x =>
    obtain ⟨y, h⟩ := world_ok.mp h
    obtain ⟨_, hx, _, _, v1, remainder, v2, v3, b, h1, h2, h3, rfl⟩ :=
      Vault.liquidateRelease_steps h
    have hpool := Vault.pool_pos hx
    have hv1 := hw.extractProceeds h1
    have hv2 := (Sane.settleChildren _ hv1 (by omega) h2).1
    calc
      backingOf w.vault m = backingOf v1 m := (extractProceeds_backing h1 hop).symm
      _ ≤ backingOf v2 m := settleChildren_backing _ hv1 h2
      _ ≤ backingOf v3 m := resolveParentDefault_backing hv2.reserve_nonneg h3
  | liquidateChildRelease token user keeper c o sold x =>
    obtain ⟨y, h⟩ := world_ok.mp h
    obtain ⟨_, _, _, _, v1, v2, v3, b, h1, h2, h3, rfl⟩ := Vault.liquidateChildRelease_steps h
    have hv1 := hw.extractProceeds h1
    have hv2 := hv1.settleChildDebt h2
    have hlast : backingOf v2 m ≤ backingOf v3 m := by
      split at h3
      · exact resolveParentDefault_backing hv2.reserve_nonneg h3
      · rw [ok_ok.mp h3]
    calc
      backingOf w.vault m = backingOf v1 m := (extractProceeds_backing h1 hop).symm
      _ ≤ backingOf v2 m := settleChildDebt_backing hv1 h2
      _ ≤ backingOf v3 m := hlast
  | collectFee p lp protocol cod =>
    obtain ⟨_, _, _, _, _, rfl⟩ := Vault.collectFee_steps h
    exact (backingOf_set hop).ge
  | _ => exact absurd trivial hop

/-- A market none of whose backing any call takes out keeps its backing. -/
theorem calls_backing {ops : List VaultOp} (hw : Sane w.vault) (hops : ∀ op ∈ ops, ¬Lowers op m)
    (h : Calls w ops w') : backingOf w.vault m ≤ backingOf w'.vault m := by
  refine (h.keeps (I := fun v _ => Sane v ∧ backingOf w.vault m ≤ backingOf v m) ?_
    ⟨hw, le_rfl⟩).2
  rintro ctx op s s' hop hctx ⟨hs, hle⟩ hexec
  exact ⟨op.exec_sane hctx hs hexec, hle.trans (exec_backing hs (hops op hop) hexec)⟩

/-- Credit drawn from a parent lowers its backing, whatever fee the child then pays. -/
theorem drawn_backing {user : Address} {p c : MarketId} {po co : Outcome} {x : ℤ}
    {fees : Amm.FeeParts}
    (h : Calls w [.openChildCreditForTrade user p po c co x, feeCall c fees] w') :
    backingOf w'.vault p < backingOf w.vault p := by
  obtain _ | ⟨hv, _, _, hopen, hrest⟩ := h
  obtain _ | ⟨hv', _, _, hfee, hrest⟩ := hrest
  obtain ⟨hdone, _⟩ := hrest
  obtain ⟨hx, hne, _, _, _, _, v1, v2, h1, h2, rfl⟩ := Vault.openChildCreditForTrade_steps hopen
  obtain ⟨_, _, _, _, _, hbooks⟩ := Vault.recordLoan_links h1
  obtain ⟨_, _, rfl⟩ := Vault.reallocateBacking_steps h2
  obtain ⟨_, _, _, _, _, rfl⟩ := Vault.collectFee_steps hfee
  rw [hdone, backingOf_set hne, hv', ← hv]
  unfold backingOf Vault.reallocated
  rw [hbooks, Store.set_get_of_ne _ _ hne, Store.set_get_self]
  unfold Vault.lentBy Vault.debitedBy
  dsimp only
  omega

end Backing

section Operations

variable {ctx : Ctx} {w w' : World}

/-- When every call names the market of the pool only, nothing else loses backing. -/
theorem outflowsTrade_of_pool (hw : Sane w.vault) {ops : List VaultOp} (hcalls : Calls w ops w')
    {c : MarketId} (hlive : TradesAt ctx w c) (hops : ∀ op ∈ ops, ∀ m, Lowers op m → m = c) :
    OutflowsTrade ctx w w' := by
  intro m hfall
  by_cases hm : m = c
  · rw [hm]
    exact hlive
  · have hkept := calls_backing hw (fun op hop hk => hm (hops op hop m hk)) hcalls
    omega

/-- A purchase in cash takes backing out of the market it trades in only. -/
theorem buyCash_outflows (hctx : FromOutside ctx) (hw : Sane w.vault) {trader : Address}
    {poolId : ℕ} {amountIn minOut out : ℤ} {deadline : ℕ} {yes : Bool}
    (h : Amm.buy ctx w trader poolId amountIn minOut deadline yes none = .ok (out, w')) :
    OutflowsTrade ctx w w' := by
  obtain ⟨pool, hpool, hlive⟩ := Amm.buy_tradeable h
  obtain ⟨ops, hcalls, pool', token, _, fees, hpool', rfl⟩ := buy_calls hctx h
  obtain rfl : pool = pool' := Option.some.inj (hpool.symm.trans hpool')
  refine outflowsTrade_of_pool hw hcalls hlive ?_
  simp only [fundingCalls, feeCall, List.cons_append, List.nil_append, List.forall_mem_cons]
  exact ⟨fun m hm => hm.elim, fun m hm => hm.elim, fun m hm => hm, fun op hop => by cases hop⟩

/-- A purchase on credit takes backing out of the parent market too, always. -/
theorem buyCredit_outflows (hctx : FromOutside ctx) (hw : Sane w.vault) {trader : Address}
    {poolId : ℕ} {amountIn minOut out : ℤ} {deadline : ℕ} {yes : Bool} {p : MarketId} {po : Outcome}
    (h : Amm.buy ctx w trader poolId amountIn minOut deadline yes (some (p, po)) = .ok (out, w')) :
    OutflowsTrade ctx w w' ↔ TradesAt ctx w p := by
  obtain ⟨pool, hpool, hlive⟩ := Amm.buy_tradeable h
  obtain ⟨ops, hcalls, pool', token, paid, fees, hpool', rfl⟩ := buy_calls hctx h
  obtain rfl : pool = pool' := Option.some.inj (hpool.symm.trans hpool')
  constructor
  · intro hall
    exact hall p (drawn_backing hcalls)
  · intro hparent m hfall
    by_cases hm : m = pool.marketId
    · rw [hm]
      exact hlive
    · by_cases hp : m = p
      · rw [hp]
        exact hparent
      · have hnone : ∀ op ∈ fundingCalls token trader pool.marketId (Amm.outcomeOf yes) amountIn
            paid (some (p, po)) ++ [feeCall pool.marketId fees], ¬Lowers op m := by
          simp only [fundingCalls, feeCall, List.cons_append, List.nil_append, List.forall_mem_cons]
          exact ⟨hp, hm, fun op hop => by cases hop⟩
        have hkept := calls_backing hw hnone hcalls
        omega

/-- A sale takes backing out of the market it trades in only. -/
theorem sell_outflows (hctx : FromOutside ctx) (hw : Sane w.vault) {trader : Address}
    {poolId : ℕ} {amountIn minOut netOut : ℤ} {deadline : ℕ} {yes : Bool}
    (h : Amm.sell ctx w trader poolId amountIn minOut deadline yes = .ok (netOut, w')) :
    OutflowsTrade ctx w w' := by
  obtain ⟨pool, hpool, hlive⟩ := Amm.sell_tradeable h
  obtain ⟨ops, hcalls, pool', token, _, fees, hpool', rfl⟩ := sell_calls hctx h
  obtain rfl : pool = pool' := Option.some.inj (hpool.symm.trans hpool')
  refine outflowsTrade_of_pool hw hcalls hlive ?_
  simp only [feeCall, List.forall_mem_cons]
  exact ⟨fun m hm => hm, fun m hm => hm, fun op hop => by cases hop⟩

end Operations

/-- A trade takes backing out of trading markets only exactly when the parent
market it draws credit from, if any, still trades. -/
theorem outflowsTrade_iff {w w' : World} (hreach : tradingSystem.Reachable w) {ctx : Ctx}
    {op : Amm.AmmOp} (htrade : trades op = true)
    (h : tradingSystem.step w (.call ctx (.amm op)) = .ok w') :
    OutflowsTrade ctx w w' ↔ ∀ p po, creditParent op = some (p, po) → TradesAt ctx w p := by
  have hw := reachable_invariant hreach
  obtain ⟨hctx, _, h⟩ := tradingSystem_call h
  have halways : creditParent op = none → OutflowsTrade ctx w w' →
      (OutflowsTrade ctx w w' ↔ ∀ p po, creditParent op = some (p, po) → TradesAt ctx w p) := by
    intro hnone hall
    refine ⟨fun _ p po hk => ?_, fun _ => hall⟩
    rw [hnone] at hk
    cases hk
  have hcredit : ∀ {p po}, creditParent op = some (p, po) →
      (OutflowsTrade ctx w w' ↔ TradesAt ctx w p) →
      (OutflowsTrade ctx w w' ↔ ∀ p po, creditParent op = some (p, po) → TradesAt ctx w p) := by
    intro p po hsome hiff
    rw [hiff]
    constructor
    · intro hp p' po' hk
      rw [hsome] at hk
      rw [← (Prod.mk.inj (Option.some.inj hk)).1]
      exact hp
    · intro hall
      exact hall p po hsome
  cases op with
  | buyYes trader poolId amountIn minOut deadline =>
    obtain ⟨y, h⟩ := world_ok.mp h
    exact halways rfl (buyCash_outflows hctx hw.sane h)
  | buyNo trader poolId amountIn minOut deadline =>
    obtain ⟨y, h⟩ := world_ok.mp h
    exact halways rfl (buyCash_outflows hctx hw.sane h)
  | buyChildYes trader p po poolId amountIn minOut deadline =>
    obtain ⟨y, h⟩ := world_ok.mp h
    exact hcredit rfl (buyCredit_outflows hctx hw.sane h)
  | buyChildNo trader p po poolId amountIn minOut deadline =>
    obtain ⟨y, h⟩ := world_ok.mp h
    exact hcredit rfl (buyCredit_outflows hctx hw.sane h)
  | sellYes trader poolId amountIn minOut deadline =>
    obtain ⟨y, h⟩ := world_ok.mp h
    exact halways rfl (sell_outflows hctx hw.sane h)
  | sellNo trader poolId amountIn minOut deadline =>
    obtain ⟨y, h⟩ := world_ok.mp h
    exact halways rfl (sell_outflows hctx hw.sane h)
  | liquidatePosition keeper user poolId o =>
    obtain ⟨y, hl⟩ := world_ok.mp h
    obtain ⟨pool, hpool, hlive⟩ := Amm.liquidate_tradeable hl
    have hexec : (Amm.AmmOp.liquidatePosition keeper user poolId o).exec ctx w = .ok w' := h
    obtain ⟨ops, hcalls, pool', token, fees, _, hpool', _, rfl⟩ := amm_calls hctx hw rfl hexec
    obtain rfl : pool = pool' := Option.some.inj (hpool.symm.trans hpool')
    refine halways rfl (outflowsTrade_of_pool hw.sane hcalls hlive ?_)
    simp only [feeCall, List.forall_mem_cons]
    exact ⟨fun m hm => hm, fun m hm => hm, fun op hop => by cases hop⟩
  | liquidateChildPosition keeper user poolId o =>
    obtain ⟨y, hl⟩ := world_ok.mp h
    obtain ⟨pool, hpool, hlive⟩ := Amm.liquidate_tradeable hl
    have hexec : (Amm.AmmOp.liquidateChildPosition keeper user poolId o).exec ctx w = .ok w' := h
    obtain ⟨ops, hcalls, pool', token, fees, _, hpool', _, rfl⟩ := amm_calls hctx hw rfl hexec
    obtain rfl : pool = pool' := Option.some.inj (hpool.symm.trans hpool')
    refine halways rfl (outflowsTrade_of_pool hw.sane hcalls hlive ?_)
    simp only [feeCall, List.forall_mem_cons]
    exact ⟨fun m hm => hm, fun m hm => hm, fun op hop => by cases hop⟩
  | _ => cases htrade

/-- Alice borrows while her parent market trades: whatever loses backing, trades. -/
theorem outflowsTrade_of_loan : ∃ w0 w,
    tradingSystem.runs (deploy sampleLaunch) aliceStakes = .ok w0 ∧
      tradingSystem.step w0 aliceBorrows = .ok w ∧ OutflowsTrade (bySigner alice) w0 w := by
  obtain ⟨w0, hw0, hlast⟩ := System.runs_of_decide (S := tradingSystem) (deploy sampleLaunch)
    aliceStakes
    (fun w0 => decide (TradesAt (bySigner alice) w0 1) &&
      okWith (tradingSystem.step w0 aliceBorrows) (fun _ => true)) (by decide +kernel)
  rw [Bool.and_eq_true, okWith_iff] at hlast
  obtain ⟨hlive, w, hw, _⟩ := hlast
  have hreach := System.Reachable.runs (.init sample_init) aliceStakes hw0
  refine ⟨w0, w, hw0, hw, (outflowsTrade_iff hreach rfl hw).mpr ?_⟩
  rintro p po hk
  obtain ⟨rfl, _⟩ := Prod.mk.inj (Option.some.inj hk)
  exact of_decide_eq_true hlive

/-- Market 1 expires at 1000 and market 2 at 2000; alice stakes on market 1. -/
def aliceStakesEarly : List TradeStep :=
  openMarket 1 10000 ++
    [.call byFactory (.registry (.registerMarket { sampleConfig with expiry := 2000 } 0 0 2)),
      .call byFactory (.amm (.createPool 2 FeeConfig.default)),
      .call byFactory (.registry (.activateMarket 2)),
      .call (bySigner (.account 1)) (.amm (.seedLiquidity (.account 1) 2 10000)),
      .call (bySigner alice) (.amm (.buyYes alice 1 1000 0 1))]

/-- At 1500 nobody has closed market 1 yet: alice still draws 300 out of it. -/
theorem not_always_outflowsTrade : ¬∀ (w w' : World) (ctx : Ctx) (op : Amm.AmmOp),
    tradingSystem.Reachable w → trades op = true →
      tradingSystem.step w (.call ctx (.amm op)) = .ok w' → OutflowsTrade ctx w w' := by
  intro hall
  obtain ⟨w, hw, hlast⟩ := System.runs_of_decide (S := tradingSystem) (deploy sampleLaunch)
    aliceStakesEarly
    (fun w => decide (¬TradesAt ⟨1500, [alice], []⟩ w 1) &&
      okWith (tradingSystem.step w
        (.call ⟨1500, [alice], []⟩ (.amm (.buyChildYes alice 1 .yes 2 300 0 1500))))
        (fun w' => decide (backingOf w'.vault 1 = backingOf w.vault 1 - 300))) (by decide +kernel)
  rw [Bool.and_eq_true, okWith_iff] at hlast
  obtain ⟨hexpired, w', hw', hfall⟩ := hlast
  have hreach := System.Reachable.runs (.init sample_init) aliceStakesEarly hw
  have hless : backingOf w'.vault 1 < backingOf w.vault 1 := by
    rw [of_decide_eq_true hfall]
    omega
  exact of_decide_eq_true hexpired (hall w w' _ _ hreach rfl hw' 1 hless)

end DikeProtocol.Trading
