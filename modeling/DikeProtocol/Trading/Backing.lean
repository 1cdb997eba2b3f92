import DikeProtocol.Trading.Invariant
import DikeProtocol.Vault.Loans

/-!
# Position backing

What the vault books for a market, with what is owed to it and what it lost,
is what the tokens record as backing. Trades move both sides alike. The two
sides part only where a liquidation writes off another amount than the debt
it takes away, or where tokens of the market are redeemed.
-/

namespace DikeProtocol.Trading

open Lib
open Vault (Sane Outside Gauge atMarket owedTo ChildDefaultExact)

/-- The vault's books for a market agree with the backing its tokens record. -/
def BackingMatched (w : World) (m : MarketId) : Prop :=
  (w.vault.accounting m).collateralBacking + owedTo w.vault m + (w.vault.accounting m).shortfall =
    w.tokens.backing m

/-- The gauge that reads backing, debts owed and shortfall of one market. -/
def positionGauge (m : MarketId) : Gauge where
  backing := atMarket m
  issued := fun _ => 0
  repaid := fun _ => 0
  defaulted := fun _ => 0
  shortfall := atMarket m
  redeemed := fun _ => 0
  protocolFees := fun _ => 0
  lpFees := fun _ => 0
  codFees := fun _ => 0
  proposalBonds := fun _ => 0
  disputeBonds := fun _ => 0
  debt := atMarket m
  reserve := 0

/-- How far the two sides are apart. -/
def gap (m : MarketId) (w : World) : ℤ := (positionGauge m).read w.vault - w.tokens.backing m

/-- The gauge reads the vault's side. -/
theorem positionGauge_read (m : MarketId) (v : VaultState) :
    (positionGauge m).read v =
      (v.accounting m).collateralBacking + owedTo v m + (v.accounting m).shortfall := by
  rw [(positionGauge m).read_at m v]
  · simp only [Gauge.weigh, positionGauge, atMarket, if_pos]
    ring
  · intro k hk
    simp only [Gauge.weigh, positionGauge, atMarket, if_neg hk]
    ring
  · intro k
    simp only [positionGauge, atMarket]
    split <;> rfl

/-- The two sides agree when they are nothing apart. -/
theorem backingMatched_iff (w : World) (m : MarketId) : BackingMatched w m ↔ gap m w = 0 := by
  unfold BackingMatched gap
  rw [positionGauge_read]
  constructor <;> intro h <;> omega

/-- Repaid credit is backing again. -/
theorem positionGauge_even (m : MarketId) : (positionGauge m).Even 0 := by
  intro k
  simp only [positionGauge]
  ring

/-- A default counts exactly by what it writes off beyond the debt it takes away. -/
theorem positionGauge_loss (m p : MarketId) (lost draw owed : ℤ) :
    (positionGauge m).loss p lost draw owed = atMarket m p * (lost - owed) := by
  simp only [Gauge.loss, positionGauge]
  ring

/-- A market counts only for itself. -/
theorem atMarket_mul {m p : MarketId} {x : ℤ} (h : p = m → x = 0) : atMarket m p * x = 0 := by
  unfold atMarket
  split
  · next hp => rw [h hp, mul_zero]
  · exact zero_mul x

/-- Recording backing moves the gap of that market the other way. -/
theorem gap_withBacking {w : World} {t : TokensState} {m p : MarketId} {x : ℤ}
    (h : t.backing = w.tokens.backing.set p (w.tokens.backing p + x)) :
    gap m { w with tokens := t } = gap m w - atMarket m p * x := by
  unfold gap atMarket
  dsimp only
  rw [h, Store.set_get]
  by_cases hp : p = m
  · rw [if_pos hp.symm, if_pos hp, hp]
    ring
  · rw [if_neg (fun hk => hp hk.symm), if_neg hp]
    ring

/-- Tokens that keep their backing keep the gap. -/
theorem gap_withTokens {w : World} {t : TokensState} {m : MarketId}
    (h : t.backing = w.tokens.backing) : gap m { w with tokens := t } = gap m w := by
  unfold gap
  dsimp only
  rw [h]

section Calls

variable {ctx : Ctx} {w w' : World} {mods : Amm.Modules} {m p : MarketId} {x : ℤ}

/-- A deposit opens the gap. -/
theorem depositForMarket_gap (hctx : FromOutside ctx) (hw : TradeInvariant w) {user : Address}
    (h : Amm.depositForMarket ctx w mods user p x = .ok w') :
    gap m w' = gap m w + atMarket m p * x := by
  obtain ⟨v, b, rfl, _, _, _, _, hread, _⟩ := Vault.depositForMarket_flow (g := positionGauge m)
    hctx.within hw.sane (Amm.depositForMarket_ok h)
  unfold gap
  dsimp only
  rw [hread]
  simp only [positionGauge]
  ring

/-- A purchase opens the gap, in cash and on credit alike. -/
theorem fundPurchase_gap (hctx : FromOutside ctx) (hw : TradeInvariant w) {trader : Address}
    {o : Outcome} {out : ℤ} {parent : Option (MarketId × Outcome)}
    (h : Amm.fundPurchase ctx w mods trader p o x out parent = .ok w') :
    gap m w' = gap m w + atMarket m p * x := by
  cases parent with
  | none =>
    obtain ⟨w1, h1, h⟩ := bind_ok.mp h
    obtain ⟨called, _, h⟩ := bind_ok.mp h
    obtain ⟨rootStake, rfl⟩ := Vault.recordCashStake_flow h
    rw [← depositForMarket_gap hctx hw h1]
    have hsame : (positionGauge m).read { w1.vault with rootStake := rootStake } =
        (positionGauge m).read w1.vault := Gauge.read_congr _ rfl rfl rfl
    unfold gap
    dsimp only
    rw [hsame]
  | some parent =>
    obtain ⟨called, _, h⟩ := bind_ok.mp h
    obtain ⟨v, rfl, _, _, _, hread⟩ :=
      Vault.openChildCreditForTrade_flow (g := positionGauge m) hw.sane h
    unfold gap
    dsimp only
    rw [hread]
    simp only [positionGauge]
    ring

/-- Minting closes it. -/
theorem mintCompleteSet_gap (h : Amm.mintCompleteSet ctx w mods p x = .ok w') :
    gap m w' = gap m w - atMarket m p * x := by
  obtain ⟨t, _, ht, rfl⟩ := Amm.mintCompleteSet_ok h
  exact gap_withBacking (Tokens.creditCompleteSet_ok ht).1

/-- Merging opens it. -/
theorem mergePositions_gap (h : Amm.mergePositions ctx w mods p x = .ok w') :
    gap m w' = gap m w + atMarket m p * x := by
  obtain ⟨t, ht, rfl⟩ := Amm.mergePositions_ok h
  have hbacking := (Tokens.mergePositions_ok ht).2.2.2.1
  rw [sub_eq_add_neg] at hbacking
  rw [gap_withBacking hbacking]
  ring

/-- A transfer keeps the gap. -/
theorem transferPosition_gap {a b : Address} {o : Outcome}
    (h : Tokens.transferPosition ctx w a b p o x = .ok w') : gap m w' = gap m w := by
  obtain ⟨_, _, _, _, t, ht, rfl⟩ := Tokens.transferPosition_ok h
  exact gap_withTokens (Tokens.moveBalance_ok ht).2.1

/-- A fee closes it. -/
theorem collectFee_gap (hw : TradeInvariant w) {fees : Amm.FeeParts}
    (h : Amm.collectFee ctx w mods p fees = .ok w') :
    gap m w' = gap m w - atMarket m p * (fees.lp + fees.treasury + fees.cod) := by
  obtain ⟨v, rfl, _, _, _, hread⟩ :=
    Vault.collectFee_flow (g := positionGauge m) hw.sane (Amm.collectFee_ok h)
  unfold gap
  dsimp only
  rw [hread]
  simp only [positionGauge]
  ring

/-- Claimed fees keep the gap. -/
theorem payLpFees_gap (hw : TradeInvariant w) {lp : Address}
    (h : Amm.payLpFees ctx w mods p lp x = .ok w') : gap m w' = gap m w := by
  rcases Amm.payLpFees_ok h with h | rfl
  · obtain ⟨v, b, rfl, _, _, _, _, hread, _⟩ :=
      Vault.claimLpFees_flow (g := positionGauge m) hw.sane h
    unfold gap
    dsimp only
    rw [hread]
    simp only [positionGauge]
    ring
  · rfl

/-- A sale's payout closes the gap. -/
theorem releaseTradePayout_gap (hw : TradeInvariant w) {token : Asset} {user : Address}
    {o : Outcome} {sold : ℤ} (h : Vault.releaseTradePayout ctx w token user p o sold x = .ok w') :
    gap m w' = gap m w - atMarket m p * x := by
  obtain ⟨v, b, rfl, _, _, _, _, _, hread, _⟩ :=
    Vault.releaseTradePayout_flow (g := positionGauge m) hw.sane h
  unfold gap
  dsimp only
  rw [hread]
  simp only [positionGauge]
  ring

/-- A purchase keeps the gap. -/
theorem buy_gap (hctx : FromOutside ctx) (hw : TradeInvariant w) {trader : Address} {poolId : ℕ}
    {amountIn minOut out : ℤ} {deadline : ℕ} {yes : Bool} {parent : Option (MarketId × Outcome)}
    (h : Amm.buy ctx w trader poolId amountIn minOut deadline yes parent = .ok (out, w')) :
    gap m w' = gap m w := by
  obtain ⟨pool, mods, fee, netIn, fees, w1, w2, w3, w4, a, hauth, _, _, hsplit, h1, h2, hfees, h3,
    h4, rfl⟩ := Amm.buy_steps h
  have hw1 := hw.fundPurchase hctx (hctx.1.ne_of_auth hauth) h1
  have hw2 := hw1.mintCompleteSet h2
  calc
    gap m { w4 with amm := a } = gap m w4 := rfl
    _ = gap m w3 := transferPosition_gap (Amm.transferPosition_ok h4)
    _ = gap m w2 - atMarket m pool.marketId * fee := by rw [collectFee_gap hw2 h3, hfees]
    _ = gap m w1 - atMarket m pool.marketId * netIn - atMarket m pool.marketId * fee := by
      rw [mintCompleteSet_gap h2]
    _ = gap m w + atMarket m pool.marketId * (amountIn - netIn - fee) := by
      rw [fundPurchase_gap hctx hw h1]
      ring
    _ = gap m w := by
      rw [show amountIn - netIn - fee = 0 by omega, mul_zero, add_zero]

/-- A sale keeps the gap. -/
theorem sell_gap (hw : TradeInvariant w) {trader : Address} {poolId : ℕ}
    {amountIn minOut netOut : ℤ} {deadline : ℕ} {yes : Bool}
    (h : Amm.sell ctx w trader poolId amountIn minOut deadline yes = .ok (netOut, w')) :
    gap m w' = gap m w := by
  obtain ⟨pool, mods, fee, grossOut, fees, w1, w2, w3, w4, a, _, _, hsplit, hfees, h1, h2, h3, h4,
    rfl⟩ := Amm.sell_steps h
  have hw1 := hw.transferPosition (Amm.transferPosition_ok h1)
  have hw2 := hw1.mergePositions h2
  have hw3 := hw2.calm (Vault.releaseTradePayout_calm hw2.sane h3)
  calc
    gap m { w4 with amm := a } = gap m w4 := rfl
    _ = gap m w3 - atMarket m pool.marketId * fee := by rw [collectFee_gap hw3 h4, hfees]
    _ = gap m w2 - atMarket m pool.marketId * netOut - atMarket m pool.marketId * fee := by
      rw [releaseTradePayout_gap hw2 h3]
    _ = gap m w + atMarket m pool.marketId * (grossOut - netOut - fee) := by
      rw [mergePositions_gap h2, transferPosition_gap (Amm.transferPosition_ok h1)]
      ring
    _ = gap m w := by
      rw [show grossOut - netOut - fee = 0 by omega, mul_zero, add_zero]

/-- A forced sale opens the gap by its proceeds, which the vault has yet to
settle, and touches no debt. -/
theorem forceSell_gap (hw : TradeInvariant w) {poolId : ℕ} {user : Address} {yes : Bool}
    {sold netOut : ℤ} (h : Amm.forceSell ctx w poolId user yes = .ok (sold, netOut, w')) :
    ∃ pool, w.amm.pool poolId = some pool ∧
      gap m w' = gap m w + atMarket m pool.marketId * netOut ∧
      sold = w.tokens.balance (pool.marketId, user, Amm.outcomeOf yes) ∧
      Amm.saleProceeds w.amm pool poolId yes sold = .ok netOut ∧
      Vault.SameDebts w.vault w'.vault := by
  obtain ⟨pool, mods, fee, grossOut, fees, t, w2, w3, a, hpool, _, hsold, hpos, hgross, hsplit,
    hfees, ht, h2, h3, rfl⟩ := Amm.forceSell_steps h
  have hw1 := hw.move hpos ht
  have hw2 := hw1.mergePositions h2
  have hsum := (splitFee_ok hsplit).2
  refine ⟨pool, hpool, ?_, hsold, Amm.saleProceeds_ok hgross hsplit, ?_⟩
  · calc
      gap m { w3 with amm := a } = gap m w3 := rfl
      _ = gap m w2 - atMarket m pool.marketId * fee := by rw [collectFee_gap hw2 h3, hfees]
      _ = gap m { w with tokens := t } + atMarket m pool.marketId * (grossOut - fee) := by
        rw [mergePositions_gap h2]
        ring
      _ = gap m w + atMarket m pool.marketId * netOut := by
        rw [gap_withTokens (Tokens.moveBalance_ok ht).2.1, show grossOut - fee = netOut by omega]
  · obtain ⟨t2, _, rfl⟩ := Amm.mergePositions_ok h2
    obtain ⟨books, rfl⟩ := Vault.collectFee_ok (Amm.collectFee_ok h3)
    exact ⟨rfl, rfl, rfl, rfl, rfl, rfl⟩

end Calls

/-- Liquidations that write off, against this market, exactly the parent debt
they take away: the recorded use of a liquidated stake is its debt, and the
sale of a liquidated child position leaves as much child debt as parent debt. -/
def LiquidationExact (m : MarketId) (w : World) : Amm.AmmOp → Prop
  | .liquidatePosition _ user poolId o => ∀ pool, w.amm.pool poolId = some pool →
    pool.marketId = m →
      w.vault.childUsedByOutcome (m, user, o) = w.vault.parentDebt (m, user, o)
  | .liquidateChildPosition _ user poolId o => ∀ pool, w.amm.pool poolId = some pool →
    w.vault.childParent (pool.marketId, user) = m →
      ∀ proceeds, Amm.saleProceeds w.amm pool poolId (decide (o = .yes))
          (w.tokens.balance (pool.marketId, user, o)) = .ok proceeds →
        ChildDefaultExact w.vault pool.marketId user proceeds
  | _ => True

/-- Steps that redeem nothing of a market. -/
def TradeStep.RedeemsNothing (m : MarketId) : TradeStep → Prop
  | .call _ (.vault (.redeemResolved _ _ p _ _)) => p ≠ m
  | .call _ (.vault (.redeemCancelled _ _ p _ _)) => p ≠ m
  | _ => True

/-- Steps that write off against a market exactly what they take away. -/
def TradeStep.WritesOffExactly (m : MarketId) (w : World) : TradeStep → Prop
  | .call _ (.amm op) => LiquidationExact m w op
  | _ => True

/-- The position a liquidation sells is the one it was asked about. -/
theorem outcome_of_balance {w : World} (hw : TradeInvariant w) {m : MarketId} {u : Address}
    {o : Outcome} (h : 0 < w.tokens.balance (m, u, o)) : Amm.outcomeOf (decide (o = .yes)) = o := by
  apply Amm.outcomeOf_decide
  intro ho
  rw [ho] at h
  have hnone := hw.noInvalid m u
  omega

section Operations

variable {ctx : Ctx} {w w' : World} {m : MarketId}

/-- A liquidation of a parent position keeps the gap when it is exact. -/
theorem liquidatePosition_gap (hw : TradeInvariant w) {keeper user : Address} {poolId : ℕ}
    {o : Outcome} {y : ℤ} (hexact : LiquidationExact m w (.liquidatePosition keeper user poolId o))
    (h : Amm.liquidatePosition ctx w keeper user poolId o = .ok (y, w')) : gap m w' = gap m w := by
  obtain ⟨pool, mods, _, _, _, sold, proceeds, w1, _, hpool, _, _, _, _, _, hsell, hrelease⟩ :=
    Amm.liquidate_steps h
  obtain ⟨pool', hpool', hgap, _, _, hsame⟩ := forceSell_gap (m := m) hw hsell
  obtain rfl : pool = pool' := Option.some.inj (hpool.symm.trans hpool')
  obtain ⟨v, b, credited, lost, draw, owed, rfl, _, _, _, _, _, hlost, _, hread, _⟩ :=
    Vault.liquidateRelease_flow (fun _ _ => (positionGauge_even m).at _ _ _)
      (hw.forceSell hsell).sane hrelease
  have hloss : atMarket m pool.marketId * (lost - owed) = 0 := by
    apply atMarket_mul
    intro hp
    have huse := hexact pool hpool hp
    rw [hsame.childUsedByOutcome, hsame.parentDebt, hp] at hlost
    rw [hlost huse, sub_self]
  rw [positionGauge_loss, hloss] at hread
  rw [← add_sub_cancel_right (gap m w) (atMarket m pool.marketId * proceeds), ← hgap]
  unfold gap
  dsimp only
  rw [hread]
  simp only [positionGauge]
  ring

/-- A liquidation of a child position keeps the gap when it is exact. -/
theorem liquidateChildPosition_gap (hw : TradeInvariant w) {keeper user : Address} {poolId : ℕ}
    {o : Outcome} {y : ℤ}
    (hexact : LiquidationExact m w (.liquidateChildPosition keeper user poolId o))
    (h : Amm.liquidateChildPosition ctx w keeper user poolId o = .ok (y, w')) :
    gap m w' = gap m w := by
  obtain ⟨pool, mods, _, _, _, sold, proceeds, w1, _, hpool, _, hheld, _, _, _, hsell, hrelease⟩ :=
    Amm.liquidate_steps h
  obtain ⟨pool', hpool', hgap, hsold, hproceeds, hsame⟩ := forceSell_gap (m := m) hw hsell
  obtain rfl : pool = pool' := Option.some.inj (hpool.symm.trans hpool')
  rw [outcome_of_balance hw hheld] at hsold
  obtain ⟨v, b, credited, lost, draw, owed, rfl, _, _, _, _, _, hlost, _, hread, _⟩ :=
    Vault.liquidateChildRelease_flow ((positionGauge_even m).at _ _ _)
      (hw.forceSell hsell).sane hrelease
  have hloss : atMarket m (w1.vault.childParent (pool.marketId, user)) * (lost - owed) = 0 := by
    apply atMarket_mul
    intro hp
    rw [hsame.childParent] at hp
    rw [hsold] at hproceeds
    have hdefault := hexact pool hpool hp proceeds hproceeds
    unfold ChildDefaultExact at hlost hdefault
    rw [hsame.childParent, hsame.childDebt, hsame.parentDebt, hsame.childParentOutcome] at hlost
    rw [hlost hdefault, sub_self]
  rw [positionGauge_loss, hloss] at hread
  rw [← add_sub_cancel_right (gap m w) (atMarket m pool.marketId * proceeds), ← hgap]
  unfold gap
  dsimp only
  rw [hread]
  simp only [positionGauge]
  ring

/-- Every entry point of the market maker whose liquidations are exact keeps the gap. -/
theorem amm_gap (hctx : FromOutside ctx) (hw : TradeInvariant w) {op : Amm.AmmOp}
    (hop : LiquidationExact m w op) (h : op.exec ctx w = .ok w') : gap m w' = gap m w := by
  cases op with
  | setAdmin admin =>
    obtain ⟨_, _, h⟩ := bind_ok.mp h
    obtain rfl := pure_ok.mp h
    rfl
  | upgrade wasmHash =>
    obtain ⟨_, _, h⟩ := bind_ok.mp h
    obtain rfl := pure_ok.mp h
    rfl
  | setRole role module =>
    obtain ⟨_, _, h⟩ := bind_ok.mp h
    obtain rfl := pure_ok.mp h
    rfl
  | setModules vault tokens collateral registry =>
    obtain ⟨_, _, h⟩ := bind_ok.mp h
    obtain rfl := pure_ok.mp h
    rfl
  | pause paused =>
    obtain ⟨_, _, h⟩ := bind_ok.mp h
    obtain rfl := pure_ok.mp h
    rfl
  | createPool marketId feeConfig =>
    obtain ⟨poolId, h⟩ := world_ok.mp h
    obtain ⟨_, _, h⟩ := bind_ok.mp h
    obtain ⟨_, _, h⟩ := bind_ok.mp h
    obtain ⟨_, _, h⟩ := bind_ok.mp h
    obtain ⟨_, rfl⟩ := Prod.mk.inj (pure_ok.mp h)
    rfl
  | seedLiquidity lp poolId amount =>
    obtain ⟨y, h⟩ := world_ok.mp h
    obtain ⟨pool, mods, w1, w2, a, _, h1, h2, rfl⟩ := Amm.seedLiquidity_steps h
    change gap m w2 = gap m w
    rw [mintCompleteSet_gap h2, depositForMarket_gap hctx hw h1]
    ring
  | addLiquidity lp poolId amount =>
    obtain ⟨y, h⟩ := world_ok.mp h
    obtain ⟨pool, mods, pending, w1, w2, a, _, h1, h2, h3⟩ := Amm.addLiquidity_steps h
    have hw2 := (hw.depositForMarket hctx h1).mintCompleteSet h2
    rw [payLpFees_gap (hw2.withAmm a) h3]
    change gap m w2 = gap m w
    rw [mintCompleteSet_gap h2, depositForMarket_gap hctx hw h1]
    ring
  | removeLiquidity lp poolId shares =>
    obtain ⟨⟨yesOut, noOut, w3⟩, hremove, h⟩ := bind_ok.mp h
    obtain rfl := pure_ok.mp h
    obtain ⟨pool, mods, pending, w1, w2, a, _, h1, h2, h3⟩ := Amm.removeLiquidity_steps hremove
    rw [transferPosition_gap (Amm.transferPosition_ok h3),
      transferPosition_gap (Amm.transferPosition_ok h2), payLpFees_gap (hw.withAmm a) h1]
    rfl
  | claimLpFees lp poolId =>
    obtain ⟨y, h⟩ := world_ok.mp h
    obtain ⟨pool, mods, a, _, rfl | h1⟩ := Amm.claimLpFees_steps h
    · rfl
    · rw [payLpFees_gap (hw.withAmm a) h1]
      rfl
  | buyYes trader poolId amountIn minOut deadline =>
    obtain ⟨y, h⟩ := world_ok.mp h
    exact buy_gap hctx hw h
  | buyNo trader poolId amountIn minOut deadline =>
    obtain ⟨y, h⟩ := world_ok.mp h
    exact buy_gap hctx hw h
  | buyChildYes trader parentMarketId parentOutcome poolId amountIn minOut deadline =>
    obtain ⟨y, h⟩ := world_ok.mp h
    exact buy_gap hctx hw h
  | buyChildNo trader parentMarketId parentOutcome poolId amountIn minOut deadline =>
    obtain ⟨y, h⟩ := world_ok.mp h
    exact buy_gap hctx hw h
  | sellYes trader poolId amountIn minOut deadline =>
    obtain ⟨y, h⟩ := world_ok.mp h
    exact sell_gap hw h
  | sellNo trader poolId amountIn minOut deadline =>
    obtain ⟨y, h⟩ := world_ok.mp h
    exact sell_gap hw h
  | liquidatePosition liquidator user parentPoolId parentOutcome =>
    obtain ⟨y, h⟩ := world_ok.mp h
    exact liquidatePosition_gap hw hop h
  | liquidateChildPosition liquidator user childPoolId childOutcome =>
    obtain ⟨y, h⟩ := world_ok.mp h
    exact liquidateChildPosition_gap hw hop h

/-- An invocation that keeps the gauge's reading and the tokens' backing keeps the gap. -/
theorem gap_of_read {v : VaultState} {b : Bank} {t : TokensState}
    (hread : (positionGauge m).read v = (positionGauge m).read w.vault)
    (ht : t.backing = w.tokens.backing) :
    gap m { w with vault := v, bank := b, tokens := t } = gap m w := by
  unfold gap
  dsimp only
  rw [hread, ht]

/-- A burn for a redemption keeps the recorded backing. -/
theorem burnForRedeem_backing {t t' : TokensState} {a : Address} {p : MarketId} {o : Outcome}
    {x : ℤ} (h : Tokens.burnForRedeem ctx t a p o x = .ok t') : t'.backing = t.backing := by
  obtain ⟨_, hsub⟩ := Tokens.burnForRedeem_ok h
  obtain ⟨_, rfl⟩ := Tokens.subBalance_ok hsub
  rfl

/-- Every entry point of the vault that may be invoked from outside, except a
redemption of the market itself, keeps the gap. -/
theorem vault_gap (hctx : FromOutside ctx) (hw : TradeInvariant w) {op : Vault.VaultOp}
    (hrewires : (TradeOp.vault op).rewires = false)
    (hop : TradeStep.RedeemsNothing m (.call ctx (.vault op))) (h : op.exec ctx w = .ok w') :
    gap m w' = gap m w := by
  have hsane := hw.sane
  have hopen := not_shut hctx.1 hw.ammRole h
  cases op with
  | depositForMarket | recordCashStake | fundChildPrediction | openChildCreditForTrade
    | releaseTradePayout | liquidateRelease | liquidateChildRelease | redeem | collectFee
    | claimLpFees => cases hopen
  | setAdmin admin =>
    obtain rfl := Vault.admin_ok h
    exact gap_of_read (Gauge.read_congr _ rfl rfl rfl) rfl
  | upgrade wasmHash => cases hrewires
  | setRole role module => cases hrewires
  | setTreasury treasury =>
    obtain rfl := Vault.admin_ok h
    exact gap_of_read (Gauge.read_congr _ rfl rfl rfl) rfl
  | pause paused =>
    obtain rfl := Vault.admin_ok h
    exact gap_of_read (Gauge.read_congr _ rfl rfl rfl) rfl
  | repayChildCollateral token user p x =>
    obtain ⟨y, h⟩ := world_ok.mp h
    obtain ⟨v, b, credited, rfl, _, _, _, _, _, hread, _⟩ :=
      Vault.repayChildCollateral_flow hctx.2.1 ((positionGauge_even m).at _ _ _) hsane h
    rw [zero_mul, add_zero] at hread
    exact gap_of_read hread rfl
  | redeemResolved token user p o x =>
    obtain ⟨y, h⟩ := world_ok.mp h
    obtain ⟨_, _, called, hburn⟩ := Vault.redeemResolved_debts hsane h
    obtain ⟨market, v, b, t, paid, credited, withheld, lost, draw, rfl, _, _, _, _, _, _, _, _,
      hread, _⟩ :=
      Vault.redeemResolved_flow ((positionGauge_even m).at _ _ _) ((positionGauge_even m) _) hsane h
    have hp : atMarket m p = 0 := if_neg hop
    rw [positionGauge_loss] at hread
    simp only [positionGauge, hp, zero_mul, sub_zero, add_zero] at hread
    exact gap_of_read hread (burnForRedeem_backing hburn)
  | redeemCancelled token user p o x =>
    obtain ⟨y, h⟩ := world_ok.mp h
    obtain ⟨_, _, called, hburn⟩ := Vault.redeemCancelled_debts hsane h
    obtain ⟨market, v, b, t, withheld, lost, draw, rfl, _, _, _, _, _, _, hread, _⟩ :=
      Vault.redeemCancelled_flow ((positionGauge_even m) _) hsane h
    have hp : atMarket m p = 0 := if_neg hop
    rw [positionGauge_loss] at hread
    simp only [positionGauge, hp, zero_mul, add_zero] at hread
    exact gap_of_read hread (burnForRedeem_backing hburn)
  | assertPositionTransferAllowed sender p o x =>
    obtain ⟨_, _, h⟩ := bind_ok.mp h
    obtain rfl := pure_ok.mp h
    rfl
  | lockBond token user r p x d =>
    obtain ⟨v, b, rfl, _, _, _, _, _, hread, _⟩ :=
      Vault.lockBond_flow (g := positionGauge m) hctx.2.1 hsane h
    simp only [Gauge.bonds, positionGauge, ite_self, zero_mul, add_zero] at hread
    exact gap_of_read hread rfl
  | releaseBond token user r x d =>
    obtain ⟨v, b, p, rfl, _, _, _, _, _, hread, _⟩ :=
      Vault.payBond_flow (g := positionGauge m) hsane h
    simp only [Gauge.bonds, positionGauge, ite_self, zero_mul, sub_zero] at hread
    exact gap_of_read hread rfl
  | slashBond token user r x d recipient =>
    obtain ⟨v, b, p, rfl, _, _, _, _, _, hread, _⟩ :=
      Vault.payBond_flow (g := positionGauge m) hsane h
    simp only [Gauge.bonds, positionGauge, ite_self, zero_mul, sub_zero] at hread
    exact gap_of_read hread rfl
  | sweepProtocolFees token p =>
    obtain ⟨y, h⟩ := world_ok.mp h
    obtain ⟨v, b, cut, rfl, _, _, _, _, _, hread, _⟩ :=
      Vault.sweepProtocolFees_flow (g := positionGauge m) hsane h
    simp only [positionGauge, zero_mul, sub_zero, add_zero] at hread
    exact gap_of_read hread rfl

/-- Every step that redeems nothing of a market and writes off exactly keeps the gap. -/
theorem step_gap (hw : TradeInvariant w) {i : TradeStep} (hredeem : i.RedeemsNothing m)
    (hexact : i.WritesOffExactly m w) (h : tradingSystem.step w i = .ok w') :
    gap m w' = gap m w := by
  cases i with
  | call ctx op =>
    obtain ⟨hctx, hop, h⟩ := tradingSystem_call h
    cases op with
    | amm op => exact amm_gap hctx hw hexact h
    | vault op => exact vault_gap hctx hw hop hredeem h
    | tokens op =>
      rcases hw.tokens_ok hctx hop h with ⟨t, rfl, _, hbacking, _⟩ | ⟨_, _, _, _, _, _, hmove⟩ |
        ⟨_, _, _, _, t, _, hburn, rfl⟩
      · exact gap_withTokens hbacking
      · exact transferPosition_gap hmove
      · obtain ⟨_, _, hsub⟩ := Tokens.burnLosing_ok hburn
        obtain ⟨_, rfl⟩ := Tokens.subBalance_ok hsub
        exact gap_withTokens rfl
    | registry op =>
      obtain ⟨r, _, h⟩ := bind_ok.mp h
      obtain rfl := pure_ok.mp h
      rfl
  | outside bank =>
    obtain rfl := ok_ok.mp h
    rfl

end Operations

/-- In a run that redeems nothing of a market and whose liquidations write off
against it what they take away, its position backing is matched. -/
theorem backingMatched_of_writesOffExactly (m : MarketId) {w : World}
    (h : tradingSystem.Guarded
      (fun w step => step.RedeemsNothing m ∧ step.WritesOffExactly m w) w) :
    BackingMatched w m := by
  rw [backingMatched_iff]
  refine h.invariant_with (J := TradeInvariant) (I := fun w => gap m w = 0) ?_ ?_ ?_
  · intro s hs
    exact reachable_invariant hs.reachable
  · rintro w ⟨l, rfl⟩
    rfl
  · rintro w i w' hw hzero ⟨hredeem, hexact⟩ hs
    exact (step_gap hw hredeem hexact hs).trans hzero

/-- Register the market with this number, create its pool and seed it. -/
def openMarket (m : MarketId) (liquidity : ℤ) : List TradeStep :=
  [.call byFactory (.registry (.registerMarket sampleConfig 0 0 m)),
    .call byFactory (.amm (.createPool m FeeConfig.default)),
    .call byFactory (.registry (.activateMarket m)),
    .call (bySigner (.account 1)) (.amm (.seedLiquidity (.account 1) m liquidity))]

/-- Alice stakes 1000 on market 1 and buys for 300 of its credit in each of two other markets. -/
def borrowTwice : List TradeStep :=
  openMarket 1 10000 ++ openMarket 2 10000 ++ openMarket 3 10000 ++
    [.call (bySigner alice) (.amm (.buyYes alice 1 1000 0 1)),
      .call (bySigner alice) (.amm (.buyChildYes alice 1 .yes 2 300 0 1)),
      .call (bySigner alice) (.amm (.buyChildYes alice 1 .yes 3 300 0 1))]

/-- Every sample run starts from a deployment. -/
theorem sample_init : tradingSystem.Init (deploy sampleLaunch) := ⟨sampleLaunch, rfl⟩

/-- Alice's purchases alone keep the backing of her market matched, loans included. -/
theorem backingMatched_after_loans : ∃ w,
    tradingSystem.runs (deploy sampleLaunch) borrowTwice = .ok w ∧ owedTo w.vault 1 = 600 ∧
      BackingMatched w 1 := by
  have hkeeps : ∀ step ∈ borrowTwice, step.RedeemsNothing 1 ∧ ∀ w, step.WritesOffExactly 1 w := by
    simp only [borrowTwice, openMarket, List.cons_append, List.nil_append, List.forall_mem_cons,
      TradeStep.RedeemsNothing, TradeStep.WritesOffExactly, LiquidationExact]
    simp
  obtain ⟨w, hw, howed⟩ := System.runs_of_decide (S := tradingSystem) (deploy sampleLaunch)
    borrowTwice (fun w => owedTo w.vault 1 = 600) (by decide +kernel)
  have hrun := System.Guarded.runs (.init sample_init) borrowTwice hkeeps hw
  have hguard := hrun.mono (fun w step h => (⟨h.1, h.2 w⟩ :
    step.RedeemsNothing 1 ∧ step.WritesOffExactly 1 w))
  exact ⟨w, hw, of_decide_eq_true howed, backingMatched_of_writesOffExactly 1 hguard⟩

/-- The purchases, and the liquidation of one of alice's two child positions. -/
def liquidateOneOfTwo : List TradeStep :=
  borrowTwice ++ [.call (bySigner bob) (.amm (.liquidateChildPosition bob alice 2 .yes))]

/-- Nothing was redeemed, yet after the liquidation market 1 has 10661 of backing
and 19 of shortfall, with nothing owed, against 10980 recorded by its tokens. -/
theorem not_always_backingMatched : ¬∀ (m : MarketId) (w : World),
    tradingSystem.Guarded (fun _ step => step.RedeemsNothing m) w → BackingMatched w m := by
  intro hall
  have hkeeps : ∀ step ∈ liquidateOneOfTwo, step.RedeemsNothing 1 := by
    simp only [liquidateOneOfTwo, borrowTwice, openMarket, List.cons_append, List.nil_append,
      List.forall_mem_cons, TradeStep.RedeemsNothing]
    simp
  obtain ⟨w, hw, hbooks⟩ := System.runs_of_decide (S := tradingSystem) (deploy sampleLaunch)
    liquidateOneOfTwo
    (fun w => (w.vault.accounting 1).collateralBacking = 10661 ∧ owedTo w.vault 1 = 0 ∧
      (w.vault.accounting 1).shortfall = 19 ∧ w.tokens.backing 1 = 10980) (by decide +kernel)
  have hmatched := hall 1 w (System.Guarded.runs (.init sample_init) liquidateOneOfTwo hkeeps hw)
  have hnumbers := of_decide_eq_true hbooks
  unfold BackingMatched at hmatched
  omega

end DikeProtocol.Trading
