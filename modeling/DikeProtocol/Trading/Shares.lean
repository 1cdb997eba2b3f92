import DikeProtocol.Trading.Inventory

/-!
# Liquidity shares and the fees they earn

What a step can do to the shares of a pool and to the fees owed on them: a
trade books a fee that every share earns a part of, a provider's shares are
settled and rewritten, a pool is opened, or nothing happens.
-/

namespace DikeProtocol.Trading

open Lib
open Amm (Traded earnedPerShare)
open Vault (Sane Outside)

/-- The shares of one pool. -/
def shareTally (i : ℕ) : Tally (ℕ × Address) ℤ ℤ := Tally.over (fun k => k.1 = i)

/-- All shares of a pool, over all providers. -/
def sharesOf (a : AmmState) (i : ℕ) : ℤ := a.lpBalance.total (shareTally i)

/-- What a provider's shares earned since the last checkpoint, on the scale of the fees. -/
def dueOf (a : AmmState) (k : ℕ × Address) : ℤ :=
  match a.pool k.1 with
  | some pool => a.lpBalance k * (pool.feePerShareScaled - a.lpFeeCheckpoint k)
  | none => 0

/-- The liquidity fees booked for a market. -/
def booked (w : World) (m : MarketId) : ℤ := (w.vault.accounting m).lpFees

/-- Pools are numbered in the order they are opened, their shares are their
providers' shares, and no provider's checkpoint is ahead of its pool. -/
structure Shared (a : AmmState) : Prop where
  numbered : ∀ i pool, a.pool i = some pool → pool.id = i ∧ i < a.nextPoolId
  unopened : ∀ k, a.pool k.1 = none → a.lpBalance k = 0
  shares_nonneg : ∀ k, 0 ≤ a.lpBalance k
  shares_sum : ∀ i pool, a.pool i = some pool → sharesOf a i = pool.totalLpShares
  checkpoint_le : ∀ k pool, a.pool k.1 = some pool → a.lpFeeCheckpoint k ≤ pool.feePerShareScaled
  earned_nonneg : ∀ i pool, a.pool i = some pool → 0 ≤ pool.feePerShareScaled
  unmarked : ∀ k, a.pool k.1 = none → a.lpFeeCheckpoint k = 0

namespace Shared

variable {a : AmmState} {i : ℕ} {pool : PoolData}

/-- No provider holds more than the whole pool. -/
theorem shares_le (h : Shared a) (hpool : a.pool i = some pool) (lp : Address) :
    a.lpBalance (i, lp) ≤ pool.totalLpShares := by
  have hone := a.lpBalance.weight_le_total (shareTally i) ?_ (i, lp)
  · rw [← h.shares_sum i pool hpool]
    unfold shareTally at hone
    rw [Tally.over_weight, if_pos rfl] at hone
    exact hone
  · intro k
    unfold shareTally
    rw [Tally.over_weight]
    split
    · exact h.shares_nonneg k
    · exact le_rfl

/-- No pool has the next number. -/
theorem next_unused (h : Shared a) : a.pool a.nextPoolId = none := by
  cases hpool : a.pool a.nextPoolId with
  | none => rfl
  | some pool => exact absurd (h.numbered _ pool hpool).2 (lt_irrefl _)

/-- The shares of a pool are not negative in total. -/
theorem total_nonneg (h : Shared a) (hpool : a.pool i = some pool) : 0 ≤ pool.totalLpShares :=
  (h.shares_nonneg (i, .account 0)).trans (h.shares_le hpool (.account 0))

/-- What is owed is never negative. -/
theorem dueOf_nonneg (h : Shared a) (k : ℕ × Address) : 0 ≤ dueOf a k := by
  unfold dueOf
  cases hpool : a.pool k.1 with
  | none => exact le_rfl
  | some pool =>
    have hle := h.checkpoint_le k pool hpool
    exact mul_nonneg (h.shares_nonneg k) (by omega)

end Shared

/-- What a step may do to the shares and to the fees owed on them. The provider
whom the step is about, if any, is the one whose shares it settles. -/
inductive FeeMove (who : Option (ℕ × Address)) (w w' : World) : Prop where
  /-- Neither shares nor fees move. -/
  | still (hpool : w'.amm.pool = w.amm.pool) (hlp : w'.amm.lpBalance = w.amm.lpBalance)
      (hmark : w'.amm.lpFeeCheckpoint = w.amm.lpFeeCheckpoint)
      (hnext : w'.amm.nextPoolId = w.amm.nextPoolId) (hfees : ∀ p, booked w' p = booked w p)
  /-- A pool is opened. -/
  | opened {marketId : MarketId} (hwho : who = none)
      (hpool : w'.amm.pool = w.amm.pool.set w.amm.nextPoolId
        (some (Amm.freshPool w.amm.nextPoolId marketId)))
      (hlp : w'.amm.lpBalance = w.amm.lpBalance)
      (hmark : w'.amm.lpFeeCheckpoint = w.amm.lpFeeCheckpoint)
      (hnext : w'.amm.nextPoolId = w.amm.nextPoolId + 1) (hfees : ∀ p, booked w' p = booked w p)
  /-- A trade books a fee that all shares of the pool earn. -/
  | traded {i : ℕ} {pool pool' : PoolData} {fee : ℤ} (hwho : who = none) (hfee : 0 ≤ fee)
      (hold : w.amm.pool i = some pool) (htraded : Traded pool pool' fee)
      (hpool : ∀ j, w'.amm.pool j = if j = i then some pool' else w.amm.pool j)
      (hlp : w'.amm.lpBalance = w.amm.lpBalance)
      (hmark : w'.amm.lpFeeCheckpoint = w.amm.lpFeeCheckpoint)
      (hnext : w'.amm.nextPoolId = w.amm.nextPoolId)
      (hfees : ∀ p, booked w' p = booked w p + if p = pool.marketId then fee else 0)
  /-- A provider is paid out of what is owed, and the shares are rewritten. -/
  | settled {i : ℕ} {lp : Address} {pool pool' : PoolData} {shares paid : ℤ}
      (hwho : who = some (i, lp) ∨ (who = none ∧ paid = 0)) (hold : w.amm.pool i = some pool)
      (hid : pool'.id = pool.id) (hmarket : pool'.marketId = pool.marketId)
      (hearned : pool'.feePerShareScaled = pool.feePerShareScaled)
      (hcounted : pool'.accumulatedLpFees = pool.accumulatedLpFees)
      (hshares : 0 ≤ shares)
      (htotal : pool'.totalLpShares = pool.totalLpShares + (shares - w.amm.lpBalance (i, lp)))
      (hpaid : 0 ≤ paid) (hdue : paid * Amm.feeScale ≤ dueOf w.amm (i, lp))
      (hpool : ∀ j, w'.amm.pool j = if j = i then some pool' else w.amm.pool j)
      (hlp : ∀ k, w'.amm.lpBalance k = if k = (i, lp) then shares else w.amm.lpBalance k)
      (hmark : ∀ k, w'.amm.lpFeeCheckpoint k =
        if k = (i, lp) then pool.feePerShareScaled else w.amm.lpFeeCheckpoint k)
      (hnext : w'.amm.nextPoolId = w.amm.nextPoolId)
      (hfees : ∀ p, booked w' p = booked w p - if p = pool.marketId then paid else 0)

/-- What a pool says it owes a provider, as a plain number. -/
def owedOf (pool : PoolData) (checkpoint shares : ℤ) : ℤ :=
  if pool.feePerShareScaled - checkpoint ≤ 0 ∨ shares ≤ 0 then 0
  else (shares * (pool.feePerShareScaled - checkpoint)).tdiv Amm.feeScale

/-- The computed fees are that number. -/
theorem computeLpFeesOwed_ok {a : AmmState} {i : ℕ} {lp : Address} {pool : PoolData}
    {shares owed : ℤ}
    (h : Amm.computeLpFeesOwed a i lp pool shares = .ok owed) :
    owed = owedOf pool (a.lpFeeCheckpoint (i, lp)) shares := by
  unfold Amm.computeLpFeesOwed at h
  obtain ⟨delta, hdelta, h⟩ := bind_ok.mp h
  rw [(checkedSub_ok.mp hdelta).1] at h
  unfold owedOf
  split at h
  · next hnone =>
    rw [if_pos hnone, ← pure_ok.mp h]
  · next hsome =>
    obtain ⟨earned, hearned, h⟩ := bind_ok.mp h
    rw [if_neg hsome, (checkedDiv_ok.mp h).2.1, (checkedMul_ok.mp hearned).1]

/-- Rounded down, what is owed stays within what was earned. -/
theorem owedOf_bounds {pool : PoolData} {checkpoint shares : ℤ} (hs : 0 ≤ shares)
    (hc : checkpoint ≤ pool.feePerShareScaled) : 0 ≤ owedOf pool checkpoint shares ∧
      owedOf pool checkpoint shares * Amm.feeScale ≤
        shares * (pool.feePerShareScaled - checkpoint) := by
  have hproduct : 0 ≤ shares * (pool.feePerShareScaled - checkpoint) := mul_nonneg hs (by omega)
  unfold owedOf
  split
  · rw [zero_mul]
    exact ⟨le_rfl, hproduct⟩
  · rw [Int.tdiv_eq_ediv_of_nonneg hproduct]
    exact ⟨Int.ediv_nonneg hproduct (by decide), Int.ediv_mul_le _ (by decide)⟩

/-- What a provider is owed is within what its shares earned. -/
theorem Shared.owed_bounds {a : AmmState} (h : Shared a) {i : ℕ} {lp : Address} {pool : PoolData}
    {owed : ℤ} (hpool : a.pool i = some pool)
    (howed : Amm.computeLpFeesOwed a i lp pool (a.lpBalance (i, lp)) = .ok owed) :
    0 ≤ owed ∧ owed * Amm.feeScale ≤ dueOf a (i, lp) := by
  rw [computeLpFeesOwed_ok howed]
  unfold dueOf
  dsimp only
  rw [hpool]
  exact owedOf_bounds (h.shares_nonneg (i, lp)) (h.checkpoint_le (i, lp) pool hpool)

namespace FeeMove

variable {ctx : Ctx} {w w' : World}

/-- What goes on beside the pools without a flow moves nothing. -/
theorem beside {who : Option (ℕ × Address)} (h : Beside (fun _ => 0) w w') : FeeMove who w w' := by
  refine .still (by rw [h.amm]) (by rw [h.amm]) (by rw [h.amm]) (by rw [h.amm]) ?_
  intro p
  unfold booked
  rw [h.lpFees, add_zero]

/-- A stored pool, read at any number. -/
theorem written {s : Store ℕ (Option PoolData)} {i : ℕ} {pool' : PoolData} (hid : pool'.id = i)
    (j : ℕ) : (s.set pool'.id (some pool')) j = if j = i then some pool' else s j := by
  rw [hid, Store.set_get]

/-- A trade that stores its pool last books the fee of that pool. -/
theorem stored {i : ℕ} {pool pool' : PoolData} {fee : ℤ} {a : AmmState} (hw : Shared w.amm)
    (hfee : 0 ≤ fee) (hpool : w.amm.pool i = some pool) (htraded : Traded pool pool' fee)
    (ha : a = w.amm) (hamm : w'.amm = Amm.writePool a pool')
    (hfees : ∀ p, booked w' p = booked w p + if p = pool.marketId then fee else 0) :
    FeeMove none w w' := by
  rw [ha] at hamm
  refine .traded rfl hfee hpool htraded ?_ ?_ ?_ ?_ hfees
  · intro j
    rw [hamm]
    exact written (htraded.id.trans (hw.numbered i pool hpool).1) j
  · rw [hamm]
    rfl
  · rw [hamm]
    rfl
  · rw [hamm]
    rfl

/-- A purchase books its fee. -/
theorem buy (hctx : FromOutside ctx) (ht : TradeInvariant w) (hw : Shared w.amm) {trader : Address}
    {poolId : ℕ} {amountIn minOut out : ℤ} {deadline : ℕ} {yes : Bool}
    {parent : Option (MarketId × Outcome)}
    (h : Amm.buy ctx w trader poolId amountIn minOut deadline yes parent = .ok (out, w')) :
    FeeMove none w w' := by
  obtain ⟨pool, m, fee, netIn, fees, pool1, pool2, w1, w2, w3, w4, hauth, hpool, _, hquote, h1, h2,
    hfees, h3, hreserves, h4, rfl⟩ := Amm.buy_writes h
  have htrader := hctx.1.ne_of_auth hauth
  have ht2 := (ht.fundPurchase hctx htrader h1).mintCompleteSet h2
  have hb1 := Beside.fundPurchase hctx ht htrader h1
  have hb3 := Beside.collectFee hctx ht2 h3
  obtain ⟨hfee, _⟩ := Vault.collectFee_steps (Amm.collectFee_ok h3)
  obtain ⟨t1, _, _, rfl⟩ := Amm.mintCompleteSet_ok h2
  obtain ⟨_, _, _, _, t2, _, rfl⟩ := Tokens.transferPosition_ok (Amm.transferPosition_ok h4)
  have htraded := (Amm.bought_traded hfees hreserves).1
  have hamm : w3.amm = w.amm := hb3.amm.trans hb1.amm
  refine stored hw hfee hpool htraded hamm rfl ?_
  intro p
  unfold booked
  dsimp only
  rw [hb3.lpFees]
  dsimp only
  rw [hb1.lpFees, add_zero]

/-- A sale books its fee. -/
theorem sell (hctx : FromOutside ctx) (ht : TradeInvariant w) (hw : Shared w.amm) {trader : Address}
    {poolId : ℕ} {amountIn minOut netOut : ℤ} {deadline : ℕ} {yes : Bool}
    (h : Amm.sell ctx w trader poolId amountIn minOut deadline yes = .ok (netOut, w')) :
    FeeMove none w w' := by
  obtain ⟨pool, m, fee, gross, fees, pool1, pool2, w1, w2, w3, w4, hauth, hpool, hquote, _, hfees,
    h1, h2, h3, h4, hreserves, rfl⟩ := Amm.sell_writes h
  have ht2 := (ht.transferPosition (Amm.transferPosition_ok h1)).mergePositions h2
  have ht3 := ht2.calm (Vault.releaseTradePayout_calm ht2.sane h3)
  have hb3 := Beside.releaseTradePayout hctx ht2 h3
  have hb4 := Beside.collectFee hctx ht3 h4
  obtain ⟨hfee, _⟩ := Vault.collectFee_steps (Amm.collectFee_ok h4)
  obtain ⟨_, _, _, _, t1, _, rfl⟩ := Tokens.transferPosition_ok (Amm.transferPosition_ok h1)
  obtain ⟨t2, _, rfl⟩ := Amm.mergePositions_ok h2
  have htraded := (Amm.sold_traded hfees hreserves).1
  have hamm : w4.amm = w.amm := hb4.amm.trans hb3.amm
  refine stored hw hfee hpool htraded hamm rfl ?_
  intro p
  unfold booked
  dsimp only
  rw [hb4.lpFees, hb3.lpFees, add_zero]

/-- A forced sale books its fee. -/
theorem forceSell (hctx : FromOutside ctx) (ht : TradeInvariant w) (hw : Shared w.amm) {poolId : ℕ}
    {user : Address} {yes : Bool} {sold netOut : ℤ}
    (h : Amm.forceSell ctx w poolId user yes = .ok (sold, netOut, w')) : FeeMove none w w' := by
  obtain ⟨pool, m, fee, gross, fees, pool1, pool2, t, w2, w3, hpool, _, hpos, hquote, _, hfees,
    hmove, h2, h3, hreserves, rfl⟩ := Amm.forceSell_writes h
  have ht2 := (ht.move hpos hmove).mergePositions h2
  have hb3 := Beside.collectFee hctx ht2 h3
  obtain ⟨hfee, _⟩ := Vault.collectFee_steps (Amm.collectFee_ok h3)
  obtain ⟨t2, _, rfl⟩ := Amm.mergePositions_ok h2
  have htraded := (Amm.sold_traded hfees hreserves).1
  have hamm : w3.amm = w.amm := hb3.amm
  refine stored hw hfee hpool htraded hamm rfl ?_
  intro p
  unfold booked
  dsimp only
  rw [hb3.lpFees]

/-- What follows a step without moving shares or fees does not matter. -/
theorem andThen {who : Option (ℕ × Address)} {s : World} (h : FeeMove who w s)
    (hb : Beside (fun _ => 0) s w') : FeeMove who w w' := by
  have hbooked : ∀ p, booked w' p = booked s p := by
    intro p
    unfold booked
    rw [hb.lpFees, add_zero]
  cases h with
  | still hpool hlp hmark hnext hfees =>
    exact .still (by rw [hb.amm, hpool]) (by rw [hb.amm, hlp]) (by rw [hb.amm, hmark])
      (by rw [hb.amm, hnext]) (fun p => (hbooked p).trans (hfees p))
  | opened hwho hpool hlp hmark hnext hfees =>
    exact .opened hwho (by rw [hb.amm, hpool]) (by rw [hb.amm, hlp]) (by rw [hb.amm, hmark])
      (by rw [hb.amm, hnext]) (fun p => (hbooked p).trans (hfees p))
  | traded hwho hfee hold htraded hpool hlp hmark hnext hfees =>
    exact .traded hwho hfee hold htraded (by rw [hb.amm]; exact hpool) (by rw [hb.amm, hlp])
      (by rw [hb.amm, hmark]) (by rw [hb.amm, hnext]) (fun p => (hbooked p).trans (hfees p))
  | settled hwho hold hid hmarket hearned hcounted hshares htotal hpaid hdue hpool hlp hmark hnext
      hfees =>
    exact .settled hwho hold hid hmarket hearned hcounted hshares htotal hpaid hdue
      (by rw [hb.amm]; exact hpool) (by rw [hb.amm]; exact hlp) (by rw [hb.amm]; exact hmark)
      (by rw [hb.amm, hnext]) (fun p => (hbooked p).trans (hfees p))

/-- Storing a provider's shares settles them, whatever else the world is. -/
theorem withShares {who : Option (ℕ × Address)} {s : World} {i : ℕ} {lp : Address}
    {pool : PoolData} (pool' : PoolData) (shares : ℤ) {paid : ℤ} (hw : Shared w.amm)
    (hwho : who = some (i, lp) ∨ (who = none ∧ paid = 0)) (hold : w.amm.pool i = some pool)
    (hid : pool'.id = pool.id) (hmarket : pool'.marketId = pool.marketId)
    (hearned : pool'.feePerShareScaled = pool.feePerShareScaled)
    (hcounted : pool'.accumulatedLpFees = pool.accumulatedLpFees) (hshares : 0 ≤ shares)
    (htotal : pool'.totalLpShares = pool.totalLpShares + (shares - w.amm.lpBalance (i, lp)))
    (hpaid : 0 ≤ paid) (hdue : paid * Amm.feeScale ≤ dueOf w.amm (i, lp)) (hamm : s.amm = w.amm)
    (hfinal : w'.amm = (Amm.withShares s i pool' lp shares).amm)
    (hfees : ∀ p, booked w' p = booked w p - if p = pool.marketId then paid else 0) :
    FeeMove who w w' := by
  refine .settled hwho hold hid hmarket hearned hcounted hshares htotal hpaid hdue ?_ ?_ ?_ ?_ hfees
  · intro j
    rw [hfinal]
    dsimp only [Amm.withShares, Amm.writeLp, Amm.writePool]
    rw [hamm]
    exact written (hid.trans (hw.numbered i pool hold).1) j
  · intro k
    rw [hfinal]
    dsimp only [Amm.withShares, Amm.writeLp, Amm.writePool]
    rw [hamm, Store.set_get]
  · intro k
    rw [hfinal]
    dsimp only [Amm.withShares, Amm.writeLp, Amm.writePool]
    rw [hamm, Store.set_get, hearned]
  · rw [hfinal]
    dsimp only [Amm.withShares, Amm.writeLp, Amm.writePool]
    rw [hamm]

/-- A first deposit pays nobody. -/
theorem seedLiquidity (hctx : FromOutside ctx) (ht : TradeInvariant w) (hw : Shared w.amm)
    {lp : Address} {poolId : ℕ} {x y : ℤ}
    (h : Amm.seedLiquidity ctx w lp poolId x = .ok (y, w')) : FeeMove none w w' := by
  obtain ⟨pool, m, w1, w2, hx, hpool, hempty, h1, h2, rfl⟩ := Amm.seedLiquidity_writes h
  have hb1 := Beside.depositForMarket hctx ht h1
  obtain ⟨t1, _, _, rfl⟩ := Amm.mintCompleteSet_ok h2
  have hnone : w.amm.lpBalance (poolId, lp) = 0 :=
    le_antisymm ((hw.shares_le hpool lp).trans hempty.le) (hw.shares_nonneg _)
  refine withShares (Amm.seededPool pool x) x hw (Or.inr ⟨rfl, rfl⟩) hpool rfl rfl rfl rfl hx.le ?_
    le_rfl ?_ hb1.amm rfl ?_
  · rw [hnone, hempty, sub_zero, zero_add]
    rfl
  · rw [zero_mul]
    exact hw.dueOf_nonneg _
  · intro p
    change booked w1 p = _
    unfold booked
    rw [hb1.lpFees, ite_self, add_zero, sub_zero]

/-- A further deposit pays what is owed to its provider. -/
theorem addLiquidity (hctx : FromOutside ctx) (ht : TradeInvariant w) (hw : Shared w.amm)
    {lp : Address} {poolId : ℕ} {x y : ℤ}
    (h : Amm.addLiquidity ctx w lp poolId x = .ok (y, w')) : FeeMove (some (poolId, lp)) w w' := by
  obtain ⟨pool, m, pending, w1, w2, _, hy, hpool, h1, h2, howed, h3⟩ := Amm.addLiquidity_writes h
  have ht2 := (ht.depositForMarket hctx h1).mintCompleteSet h2
  have hb1 := Beside.depositForMarket hctx ht h1
  have hb3 := Beside.payLpFees hctx (by exact ht2.withAmm _) h3
  obtain ⟨t1, _, _, rfl⟩ := Amm.mintCompleteSet_ok h2
  dsimp only at howed hb3
  rw [hb1.amm] at howed
  obtain ⟨hpending, hdue⟩ := hw.owed_bounds hpool howed
  have hheld := hw.shares_nonneg (poolId, lp)
  refine withShares (Amm.resizedPool pool x x y) (w1.amm.lpBalance (poolId, lp) + y) hw (Or.inl rfl)
    hpool rfl rfl rfl rfl ?_ ?_ hpending hdue hb1.amm (by rw [hb3.amm]; rfl) ?_
  · rw [hb1.amm]
    omega
  · rw [hb1.amm, add_sub_cancel_left]
    rfl
  · intro p
    have hfees := hb3.lpFees p
    have hdeposit := hb1.lpFees p
    rw [max_eq_left hpending] at hfees
    dsimp only [Amm.withShares] at hfees
    unfold booked
    rw [hfees, hdeposit, add_zero]
    split <;> omega

/-- A withdrawal pays what is owed to its provider. -/
theorem removeLiquidity (hctx : FromOutside ctx) (ht : TradeInvariant w) (hw : Shared w.amm)
    {lp : Address} {poolId : ℕ} {shares yesOut noOut : ℤ}
    (h : Amm.removeLiquidity ctx w lp poolId shares = .ok (yesOut, noOut, w')) :
    FeeMove (some (poolId, lp)) w w' := by
  obtain ⟨pool, m, pending, w1, w2, _, hshares, hpool, henough, _, howed, _, _, h1, h2, h3⟩ :=
    Amm.removeLiquidity_writes h
  have hb1 := Beside.payLpFees hctx (by exact ht.withAmm _) h1
  obtain ⟨_, _, _, _, t1, _, rfl⟩ := Tokens.transferPosition_ok (Amm.transferPosition_ok h2)
  obtain ⟨_, _, _, _, t2, _, rfl⟩ := Tokens.transferPosition_ok (Amm.transferPosition_ok h3)
  obtain ⟨hpending, hdue⟩ := hw.owed_bounds hpool howed
  refine withShares (Amm.resizedPool pool (-yesOut) (-noOut) (-shares))
    (w.amm.lpBalance (poolId, lp) - shares) hw (Or.inl rfl) hpool rfl rfl rfl rfl ?_ ?_ hpending
    hdue rfl (by dsimp only; rw [hb1.amm]) ?_
  · omega
  · dsimp only [Amm.resizedPool]
    omega
  · intro p
    have hfees := hb1.lpFees p
    rw [max_eq_left hpending] at hfees
    dsimp only [Amm.withShares] at hfees
    unfold booked
    dsimp only
    rw [hfees]
    split <;> omega

/-- A claim pays what is owed to its provider, or nothing happens. -/
theorem claimLpFees (hctx : FromOutside ctx) (ht : TradeInvariant w) (hw : Shared w.amm)
    {lp : Address} {poolId : ℕ} {y : ℤ}
    (h : Amm.claimLpFees ctx w lp poolId = .ok (y, w')) : FeeMove (some (poolId, lp)) w w' := by
  obtain ⟨pool, hpool, rfl | ⟨m, hy, howed, h1⟩⟩ := Amm.claimLpFees_writes h
  · exact .still rfl rfl rfl rfl (fun _ => rfl)
  · have hb1 := Beside.payLpFees hctx (by exact ht.withAmm _) h1
    obtain ⟨hpending, hdue⟩ := hw.owed_bounds hpool howed
    refine .settled (Or.inl rfl) hpool rfl rfl rfl rfl
      (hw.shares_nonneg (poolId, lp)) ?_ hpending hdue
      ?_ ?_ ?_ ?_ ?_
    · rw [sub_self, add_zero]
    · intro j
      rw [hb1.amm]
      dsimp only [Amm.withCheckpoint]
      split
      · next hj => rw [hj, hpool]
      · rfl
    · intro k
      rw [hb1.amm]
      dsimp only [Amm.withCheckpoint]
      split
      · next hk => rw [hk]
      · rfl
    · intro k
      rw [hb1.amm]
      dsimp only [Amm.withCheckpoint]
      rw [Store.set_get]
    · rw [hb1.amm]
      rfl
    · intro p
      have hfees := hb1.lpFees p
      rw [max_eq_left hpending] at hfees
      dsimp only [Amm.withCheckpoint] at hfees
      unfold booked
      rw [hfees]
      split <;> omega

/-- Opening a pool. -/
theorem createPool {marketId : MarketId} {config : FeeConfig} {poolId : ℕ}
    (h : Amm.createPool ctx w marketId config = .ok (poolId, w')) : FeeMove none w w' := by
  obtain ⟨_, _, h⟩ := bind_ok.mp h
  obtain ⟨_, _, h⟩ := bind_ok.mp h
  obtain ⟨next, hnext, h⟩ := bind_ok.mp h
  obtain ⟨_, rfl⟩ := Prod.mk.inj (pure_ok.mp h)
  have hnext' := (checkedAddU64_ok.mp hnext).1
  exact .opened rfl rfl rfl rfl hnext' (fun _ => rfl)

end FeeMove

/-- The provider whose shares an invocation settles. -/
def TradeOp.provider : TradeOp → Option (ℕ × Address)
  | amm (.addLiquidity lp poolId _) => some (poolId, lp)
  | amm (.removeLiquidity lp poolId _) => some (poolId, lp)
  | amm (.claimLpFees lp poolId) => some (poolId, lp)
  | _ => none

/-- The same for a step of a run. -/
def TradeStep.provider : TradeStep → Option (ℕ × Address)
  | .call _ op => op.provider
  | .outside _ => none

/-- Every entry point of the market maker settles shares, books a fee, opens a
pool or does neither. -/
theorem FeeMove.amm {ctx : Ctx} {w w' : World} (hctx : FromOutside ctx) (ht : TradeInvariant w)
    (hs : Stocked w) (hw : Shared w.amm) {op : Amm.AmmOp} (h : op.exec ctx w = .ok w') :
    FeeMove (TradeOp.amm op).provider w w' := by
  cases op with
  | setAdmin admin =>
    obtain ⟨_, _, h⟩ := bind_ok.mp h
    obtain rfl := pure_ok.mp h
    exact .still rfl rfl rfl rfl (fun _ => rfl)
  | upgrade wasmHash =>
    obtain ⟨_, _, h⟩ := bind_ok.mp h
    obtain rfl := pure_ok.mp h
    exact .still rfl rfl rfl rfl (fun _ => rfl)
  | setRole role module =>
    obtain ⟨_, _, h⟩ := bind_ok.mp h
    obtain rfl := pure_ok.mp h
    exact .still rfl rfl rfl rfl (fun _ => rfl)
  | setModules vault tokens collateral registry =>
    obtain ⟨_, _, h⟩ := bind_ok.mp h
    obtain rfl := pure_ok.mp h
    exact .still rfl rfl rfl rfl (fun _ => rfl)
  | pause paused =>
    obtain ⟨_, _, h⟩ := bind_ok.mp h
    obtain rfl := pure_ok.mp h
    exact .still rfl rfl rfl rfl (fun _ => rfl)
  | createPool marketId feeConfig =>
    obtain ⟨poolId, h⟩ := world_ok.mp h
    exact .createPool h
  | seedLiquidity lp poolId amount =>
    obtain ⟨y, h⟩ := world_ok.mp h
    exact .seedLiquidity hctx ht hw h
  | addLiquidity lp poolId amount =>
    obtain ⟨y, h⟩ := world_ok.mp h
    exact .addLiquidity hctx ht hw h
  | removeLiquidity lp poolId shares =>
    obtain ⟨⟨yesOut, noOut, w3⟩, hremove, h⟩ := bind_ok.mp h
    obtain rfl := pure_ok.mp h
    exact .removeLiquidity hctx ht hw hremove
  | claimLpFees lp poolId =>
    obtain ⟨y, h⟩ := world_ok.mp h
    exact .claimLpFees hctx ht hw h
  | buyYes trader poolId amountIn minOut deadline =>
    obtain ⟨y, h⟩ := world_ok.mp h
    exact .buy hctx ht hw h
  | buyNo trader poolId amountIn minOut deadline =>
    obtain ⟨y, h⟩ := world_ok.mp h
    exact .buy hctx ht hw h
  | buyChildYes trader parentMarketId parentOutcome poolId amountIn minOut deadline =>
    obtain ⟨y, h⟩ := world_ok.mp h
    exact .buy hctx ht hw h
  | buyChildNo trader parentMarketId parentOutcome poolId amountIn minOut deadline =>
    obtain ⟨y, h⟩ := world_ok.mp h
    exact .buy hctx ht hw h
  | sellYes trader poolId amountIn minOut deadline =>
    obtain ⟨y, h⟩ := world_ok.mp h
    exact .sell hctx ht hw h
  | sellNo trader poolId amountIn minOut deadline =>
    obtain ⟨y, h⟩ := world_ok.mp h
    exact .sell hctx ht hw h
  | liquidatePosition liquidator user parentPoolId parentOutcome =>
    obtain ⟨y, h⟩ := world_ok.mp h
    obtain ⟨hu, pool, m, sold, proceeds, w1, h1, h2⟩ := hs.liquidatePosition h
    have hsold := FeeMove.forceSell hctx ht hw h1
    exact hsold.andThen (.liquidateRelease hctx (ht.forceSell h1) hu h2)
  | liquidateChildPosition liquidator user childPoolId childOutcome =>
    obtain ⟨y, h⟩ := world_ok.mp h
    obtain ⟨hu, pool, m, sold, proceeds, w1, h1, h2⟩ := ht.liquidateChildPosition h
    have hsold := FeeMove.forceSell hctx ht hw h1
    exact hsold.andThen (.liquidateChildRelease hctx (ht.forceSell h1) hu h2)

/-- So does every step of a run. -/
theorem FeeMove.of_step {w w' : World} {step : TradeStep} (ht : TradeInvariant w) (hs : Stocked w)
    (hw : Shared w.amm) (h : tradingSystem.step w step = .ok w') : FeeMove step.provider w w' := by
  cases step with
  | call ctx op =>
    obtain ⟨hctx, hop, h⟩ := tradingSystem_call h
    cases op with
    | amm op => exact .amm hctx ht hs hw h
    | vault op =>
      obtain ⟨hamm, _, _, hfees⟩ := ht.vault_beside hctx h
      exact .still (by rw [hamm]) (by rw [hamm]) (by rw [hamm]) (by rw [hamm]) hfees
    | tokens op =>
      rcases ht.tokens_ok hctx hop h with ⟨t, rfl, _⟩ | ⟨a, b, m, o, x, _, hmove⟩ |
        ⟨a, m, o, x, t, _, _, rfl⟩
      · exact .still rfl rfl rfl rfl (fun _ => rfl)
      · obtain ⟨_, _, _, _, t, _, rfl⟩ := Tokens.transferPosition_ok hmove
        exact .still rfl rfl rfl rfl (fun _ => rfl)
      · exact .still rfl rfl rfl rfl (fun _ => rfl)
    | registry op =>
      obtain ⟨r, _, h⟩ := bind_ok.mp h
      obtain rfl := pure_ok.mp h
      exact .still rfl rfl rfl rfl (fun _ => rfl)
  | outside bank =>
    obtain rfl := ok_ok.mp h
    exact .still rfl rfl rfl rfl (fun _ => rfl)

end DikeProtocol.Trading
