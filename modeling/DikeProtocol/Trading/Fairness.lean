import DikeProtocol.Trading.LpFees
import DikeProtocol.Trading.Positions
import Mathlib.Algebra.Order.Field.Basic
import Mathlib.Data.Rat.Cast.Order

/-!
# Liquidity operations and the other providers

What a share of a pool is worth: adding and removing liquidity round against
whoever does it, so the claim of a share that stays never falls, and a deposit
that is withdrawn at once returns no more than it paid.
-/

namespace DikeProtocol.Trading

open Lib
open Amm (reserveOf resizedPool)

/-- The part of a reserve that belongs to one share. -/
def claimPerShare (pool : PoolData) (yes : Bool) : ℚ :=
  (reserveOf pool yes : ℚ) / (pool.totalLpShares : ℚ)

/-- A provider's operation on a pool that is fair to the others: it leaves their shares, and no
claim of a share that is held before and after falls. -/
structure FairToProviders (poolId : ℕ) (lp : Address) (w w' : World) : Prop where
  kept : ∀ other, other ≠ lp → w'.amm.lpBalance (poolId, other) = w.amm.lpBalance (poolId, other)
  claims : ∃ pool pool', w.amm.pool poolId = some pool ∧ w'.amm.pool poolId = some pool' ∧
    ∀ holder, 0 < w.amm.lpBalance (poolId, holder) → 0 < w'.amm.lpBalance (poolId, holder) →
      ∀ yes, claimPerShare pool yes ≤ claimPerShare pool' yes

section Claims

variable {pool : PoolData} {yes : Bool} {amount shares : ℤ}

/-- A part of an amount, times the whole, is at most the product. -/
theorem proportionOf_mul_le {part total : ℤ} (ht : 0 < total) (hp : 0 ≤ amount * part) :
    proportionOf amount part total * total ≤ amount * part := by
  unfold proportionOf
  rw [Int.tdiv_eq_ediv_of_nonneg hp]
  exact Int.ediv_mul_le _ ht.ne'

/-- Claims compare by cross-multiplication. -/
theorem claimPerShare_le {pool' : PoolData} (h : 0 < pool.totalLpShares)
    (h' : 0 < pool'.totalLpShares) : claimPerShare pool yes ≤ claimPerShare pool' yes ↔
      reserveOf pool yes * pool'.totalLpShares ≤ reserveOf pool' yes * pool.totalLpShares := by
  unfold claimPerShare
  rw [div_le_div_iff₀ (by exact_mod_cast h) (by exact_mod_cast h')]
  exact_mod_cast Iff.rfl

/-- Shares minted at no more than the ratio of a reserve lower no claim on it. -/
theorem claimPerShare_minted (ht : 0 < pool.totalLpShares) (hs : 0 < shares)
    (hratio : shares * reserveOf pool yes ≤ pool.totalLpShares * amount) :
    claimPerShare pool yes ≤ claimPerShare (resizedPool pool amount amount shares) yes := by
  have htotal : (resizedPool pool amount amount shares).totalLpShares =
      pool.totalLpShares + shares := rfl
  rw [claimPerShare_le ht (by omega), Stocked.resizedPool_reserve, ite_self, htotal]
  linarith

/-- Shares burned for the floored part of a reserve lower no claim of the rest. -/
theorem claimPerShare_burned {yesOut noOut : ℤ} (hs : shares < pool.totalLpShares)
    (ht : 0 < pool.totalLpShares)
    (hratio : (if yes = true then yesOut else noOut) * pool.totalLpShares ≤
      reserveOf pool yes * shares) :
    claimPerShare pool yes ≤
      claimPerShare (resizedPool pool (-yesOut) (-noOut) (-shares)) yes := by
  have htotal : (resizedPool pool (-yesOut) (-noOut) (-shares)).totalLpShares =
      pool.totalLpShares - shares := rfl
  rw [claimPerShare_le ht (by omega), Stocked.resizedPool_reserve, htotal]
  cases yes with
  | true =>
    rw [if_pos rfl] at hratio ⊢
    linarith
  | false =>
    rw [if_neg Bool.false_ne_true] at hratio ⊢
    linarith

/-- Withdrawn at once, minted shares return no more than was paid for them. -/
theorem proportionOf_minted_le (ht : 0 < pool.totalLpShares) (hs : 0 < shares)
    (hx : 0 ≤ amount) (hr : 0 ≤ reserveOf pool yes)
    (hratio : shares * reserveOf pool yes ≤ pool.totalLpShares * amount) :
    proportionOf (reserveOf pool yes + amount) shares (pool.totalLpShares + shares) ≤ amount := by
  have hpart := proportionOf_mul_le (show 0 < pool.totalLpShares + shares by omega)
    (mul_nonneg (show 0 ≤ reserveOf pool yes + amount by omega) hs.le)
  by_contra hmore
  have hnext := mul_le_mul_of_nonneg_right (Int.add_one_le_of_lt (not_le.mp hmore))
    (show 0 ≤ pool.totalLpShares + shares by omega)
  nlinarith

end Claims

section Operations

variable {ctx : Ctx} {w w' : World} {lp : Address} {poolId : ℕ}

/-- The shares of a deposit: the smaller of the parts that its amount is of the two reserves. -/
theorem addLiquidity_shares {pool : PoolData} {amount shares : ℤ}
    (hpool : w.amm.pool poolId = some pool)
    (h : Amm.addLiquidity ctx w lp poolId amount = .ok (shares, w')) :
    0 < pool.totalLpShares ∧ (∀ yes, 0 < reserveOf pool yes) ∧
      ∀ yes, shares ≤ proportionOf pool.totalLpShares amount (reserveOf pool yes) := by
  unfold Amm.addLiquidity at h
  obtain ⟨_, _, h⟩ := bind_ok.mp h
  obtain ⟨_, _, h⟩ := bind_ok.mp h
  obtain ⟨m, _, h⟩ := bind_ok.mp h
  obtain ⟨pool', hread, h⟩ := bind_ok.mp h
  obtain ⟨_, _, h⟩ := bind_ok.mp h
  obtain ⟨_, hguard, h⟩ := bind_ok.mp h
  obtain ⟨w1, _, h⟩ := bind_ok.mp h
  obtain ⟨w2, _, h⟩ := bind_ok.mp h
  obtain ⟨yesShares, hyes, h⟩ := bind_ok.mp h
  obtain ⟨noShares, hno, h⟩ := bind_ok.mp h
  obtain ⟨_, _, h⟩ := bind_ok.mp h
  obtain ⟨_, _, h⟩ := bind_ok.mp h
  obtain ⟨_, _, h⟩ := bind_ok.mp h
  obtain ⟨_, _, h⟩ := bind_ok.mp h
  obtain ⟨_, _, h⟩ := bind_ok.mp h
  obtain ⟨_, _, h⟩ := bind_ok.mp h
  obtain ⟨w3, _, h⟩ := bind_ok.mp h
  obtain ⟨rfl, _⟩ := Prod.mk.inj (pure_ok.mp h)
  have hread' := orFault_ok.mp hread
  rw [hpool] at hread'
  obtain rfl := Option.some.inj hread'
  have hopen := refuse_ok.mp hguard
  simp only [not_or, not_le] at hopen
  obtain ⟨_, htotal, hyesPos, hnoPos⟩ := hopen
  refine ⟨htotal, ?_, ?_⟩
  · intro yes
    cases yes with
    | true => exact hyesPos
    | false => exact hnoPos
  · intro yes
    cases yes with
    | true => exact (min_le_left _ _).trans (proportional_ok hyes).le
    | false => exact (min_le_right _ _).trans (proportional_ok hno).le

/-- What a deposit leaves of the pools and the shares. -/
theorem addLiquidity_stores (hctx : FromOutside ctx) (ht : TradeInvariant w) (hw : Shared w.amm)
    {amount shares : ℤ} (h : Amm.addLiquidity ctx w lp poolId amount = .ok (shares, w')) :
    ∃ pool, 0 < amount ∧ 0 < shares ∧ w.amm.pool poolId = some pool ∧
      w'.amm.pool poolId = some (resizedPool pool amount amount shares) ∧
      ∀ k, w'.amm.lpBalance k =
        if k = (poolId, lp) then w.amm.lpBalance (poolId, lp) + shares else w.amm.lpBalance k := by
  obtain ⟨pool, m, pending, w1, w2, hx, hs, hpool, h1, h2, _, h3⟩ := Amm.addLiquidity_writes h
  have hb1 := Beside.depositForMarket hctx ht h1
  have ht2 := (ht.depositForMarket hctx h1).mintCompleteSet h2
  have hb3 := Beside.payLpFees hctx (by exact ht2.withAmm _) h3
  obtain ⟨t1, _, _, rfl⟩ := Amm.mintCompleteSet_ok h2
  have hid : (resizedPool pool amount amount shares).id = poolId :=
    (hw.numbered poolId pool hpool).1
  refine ⟨pool, hx, hs, hpool, ?_, ?_⟩
  · rw [hb3.amm]
    exact (FeeMove.written hid poolId).trans (if_pos rfl)
  · intro k
    rw [hb3.amm]
    dsimp only [Amm.withShares, Amm.writeLp, Amm.writePool]
    rw [hb1.amm, Store.set_get]

/-- What a withdrawal leaves of the pools and the shares. -/
theorem removeLiquidity_stores (hctx : FromOutside ctx) (ht : TradeInvariant w) (hw : Shared w.amm)
    {shares yesOut noOut : ℤ}
    (h : Amm.removeLiquidity ctx w lp poolId shares = .ok (yesOut, noOut, w')) :
    ∃ pool, w.amm.pool poolId = some pool ∧
      w'.amm.pool poolId = some (resizedPool pool (-yesOut) (-noOut) (-shares)) ∧
      ∀ k, w'.amm.lpBalance k =
        if k = (poolId, lp) then w.amm.lpBalance (poolId, lp) - shares else w.amm.lpBalance k := by
  obtain ⟨pool, m, pending, w1, w2, _, _, hpool, _, _, _, _, _, h1, h2, h3⟩ :=
    Amm.removeLiquidity_writes h
  have hb1 := Beside.payLpFees hctx (by exact ht.withAmm _) h1
  obtain ⟨_, _, _, _, t1, _, rfl⟩ := Tokens.transferPosition_ok (Amm.transferPosition_ok h2)
  obtain ⟨_, _, _, _, t2, _, rfl⟩ := Tokens.transferPosition_ok (Amm.transferPosition_ok h3)
  have hid : (resizedPool pool (-yesOut) (-noOut) (-shares)).id = poolId :=
    (hw.numbered poolId pool hpool).1
  refine ⟨pool, hpool, ?_, ?_⟩
  · dsimp only
    rw [hb1.amm]
    exact (FeeMove.written hid poolId).trans (if_pos rfl)
  · intro k
    dsimp only
    rw [hb1.amm]
    dsimp only [Amm.withShares, Amm.writeLp, Amm.writePool]
    rw [Store.set_get]

/-- A deposit mints at no more than the ratio of either reserve. -/
theorem addLiquidity_ratio {pool : PoolData} {amount shares : ℤ} (hx : 0 < amount)
    (hpool : w.amm.pool poolId = some pool)
    (h : Amm.addLiquidity ctx w lp poolId amount = .ok (shares, w')) (yes : Bool) :
    shares * reserveOf pool yes ≤ pool.totalLpShares * amount := by
  obtain ⟨htotal, hreserves, hshares⟩ := addLiquidity_shares hpool h
  have hpart := proportionOf_mul_le (hreserves yes) (mul_nonneg htotal.le hx.le)
  exact (mul_le_mul_of_nonneg_right (hshares yes) (hreserves yes).le).trans hpart

/-- A deposit is fair to all earlier providers. -/
theorem addLiquidity_fair (hctx : FromOutside ctx) (ht : TradeInvariant w) (hw : Shared w.amm)
    {amount shares : ℤ} (h : Amm.addLiquidity ctx w lp poolId amount = .ok (shares, w')) :
    FairToProviders poolId lp w w' := by
  obtain ⟨pool, hx, hs, hpool, hpool', hlp⟩ := addLiquidity_stores hctx ht hw h
  obtain ⟨htotal, _, _⟩ := addLiquidity_shares hpool h
  refine ⟨?_, pool, _, hpool, hpool', fun holder _ _ yes => ?_⟩
  · intro other hne
    rw [hlp, if_neg (fun heq => hne (Prod.mk.inj heq).2)]
  · exact claimPerShare_minted htotal hs (addLiquidity_ratio hx hpool h yes)

/-- A withdrawal is fair to all providers that remain. -/
theorem removeLiquidity_fair (hctx : FromOutside ctx) (ht : TradeInvariant w) (hs : Stocked w)
    (hw : Shared w.amm) {shares yesOut noOut : ℤ}
    (h : Amm.removeLiquidity ctx w lp poolId shares = .ok (yesOut, noOut, w')) :
    FairToProviders poolId lp w w' := by
  obtain ⟨pool, hpool, hpool', hlp⟩ := removeLiquidity_stores hctx ht hw h
  have hw' := hw.move (FeeMove.removeLiquidity hctx ht hw h)
  refine ⟨?_, pool, _, hpool, hpool', fun holder _ hholds yes => ?_⟩
  · intro other hne
    rw [hlp, if_neg (fun heq => hne (Prod.mk.inj heq).2)]
  · obtain ⟨pool1, _, _, _, _, _, hpos, hpool1, _, htotal, _, hyes, hno, _⟩ :=
      Amm.removeLiquidity_writes h
    rw [hpool] at hpool1
    obtain rfl := Option.some.inj hpool1
    -- somebody holds shares of what is left
    have hleft : 0 < pool.totalLpShares - shares :=
      hholds.trans_le (hw'.shares_le hpool' holder)
    refine claimPerShare_burned (by omega) (by omega) ?_
    have hreserve := hs.nonneg poolId pool hpool yes
    have hpart := proportionOf_mul_le (show 0 < pool.totalLpShares by omega)
      (mul_nonneg hreserve hpos.le)
    rw [hyes, hno]
    cases yes with
    | true => exact hpart
    | false => exact hpart

/-- What a deposit mints returns no more of either side than the deposit. -/
theorem removeLiquidity_minted_le (hctx : FromOutside ctx) (ht : TradeInvariant w)
    (hw : Shared w.amm) {amount shares yesOut noOut : ℤ} {ctx' : Ctx} {remover : Address}
    {w'' : World} (h : Amm.addLiquidity ctx w lp poolId amount = .ok (shares, w'))
    (h' : Amm.removeLiquidity ctx' w' remover poolId shares = .ok (yesOut, noOut, w'')) :
    yesOut ≤ amount ∧ noOut ≤ amount := by
  obtain ⟨pool, hx, hs, hpool, hpool', _⟩ := addLiquidity_stores hctx ht hw h
  obtain ⟨htotal, hreserves, _⟩ := addLiquidity_shares hpool h
  obtain ⟨pool1, _, _, _, _, _, _, hpool1, _, _, _, hyes, hno, _⟩ := Amm.removeLiquidity_writes h'
  rw [hpool'] at hpool1
  obtain rfl := Option.some.inj hpool1
  have hback : ∀ yes, proportionOf (reserveOf pool yes + amount) shares
      (pool.totalLpShares + shares) ≤ amount := fun yes =>
    proportionOf_minted_le htotal hs hx.le (hreserves yes).le (addLiquidity_ratio hx hpool h yes)
  exact ⟨hyes.trans_le (hback true), hno.trans_le (hback false)⟩

/-- In every reachable state, adding and removing liquidity are fair to the other providers, and
a deposit that is withdrawn at once returns no more than was paid. -/
theorem liquidity_fair (hw : tradingSystem.Reachable w) (hctx : FromOutside ctx) :
    (∀ amount shares w', Amm.addLiquidity ctx w lp poolId amount = .ok (shares, w') →
      FairToProviders poolId lp w w' ∧
        ∀ ctx' yesOut noOut w'',
          Amm.removeLiquidity ctx' w' lp poolId shares = .ok (yesOut, noOut, w'') →
            yesOut ≤ amount ∧ noOut ≤ amount) ∧
    ∀ shares yesOut noOut w',
      Amm.removeLiquidity ctx w lp poolId shares = .ok (yesOut, noOut, w') →
        FairToProviders poolId lp w w' := by
  have ht := reachable_invariant hw
  have hs := reachable_stocked hw
  have hshared := (reachable_feesCovered hw).1
  refine ⟨fun amount shares w' h => ⟨addLiquidity_fair hctx ht hshared h, ?_⟩, ?_⟩
  · intro ctx' yesOut noOut w'' h'
    exact removeLiquidity_minted_le hctx ht hshared h h'
  · intro shares yesOut noOut w' h
    exact removeLiquidity_fair hctx ht hs hshared h

end Operations

/-- Bob's deposit of 500. -/
def bobProvides : TradeStep := .call (bySigner bob) (.amm (.addLiquidity bob 1 500))

/-- After alice's purchase bob adds 500 to the skewed pool and takes his shares out again. -/
theorem liquidity_fair_sample : ∃ w shares w' yesOut noOut w'', tradingSystem.Reachable w ∧
    tradingSystem.Reachable w' ∧ FromOutside (bySigner bob) ∧
    Amm.addLiquidity (bySigner bob) w bob 1 500 = .ok (shares, w') ∧
    Amm.removeLiquidity (bySigner bob) w' bob 1 shares = .ok (yesOut, noOut, w'') ∧
    FairToProviders 1 bob w w' ∧ FairToProviders 1 bob w' w'' ∧ yesOut ≤ 500 ∧ noOut ≤ 500 := by
  obtain ⟨w, hw, hlast⟩ := System.runs_of_decide (S := tradingSystem) (deploy sampleLaunch)
    aliceStakes (fun w => okWith (Amm.addLiquidity (bySigner bob) w bob 1 500) fun added =>
      okWith (Amm.removeLiquidity (bySigner bob) added.2 bob 1 added.1) fun _ => true)
    (by decide +kernel)
  rw [okWith_iff] at hlast
  obtain ⟨⟨shares, w'⟩, hadd, hremoves⟩ := hlast
  rw [okWith_iff] at hremoves
  obtain ⟨⟨yesOut, noOut, w''⟩, hremove, _⟩ := hremoves
  have hctx : FromOutside (bySigner bob) := by decide
  have hreach := System.Reachable.runs (.init sample_init) aliceStakes hw
  have hstep : tradingSystem.step w bobProvides = .ok w' :=
    bind_ok.mpr ⟨(), refuse_ok.mpr (not_not.mpr hctx),
      bind_ok.mpr ⟨(), refuse_ok.mpr Bool.false_ne_true, world_ok.mpr ⟨shares, hadd⟩⟩⟩
  have hreach' : tradingSystem.Reachable w' := hreach.next trivial hstep
  have hadded := (liquidity_fair hreach hctx).1 500 shares w' hadd
  have hremoved := (liquidity_fair hreach' hctx).2 shares yesOut noOut w'' hremove
  have hback := hadded.2 (bySigner bob) yesOut noOut w'' hremove
  exact ⟨w, shares, w', yesOut, noOut, w'', hreach, hreach', hctx, hadd, hremove, hadded.1,
    hremoved, hback⟩

end DikeProtocol.Trading
