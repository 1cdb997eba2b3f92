import DikeProtocol.Trading.Fills
import DikeProtocol.Trading.Shares
import Mathlib.Algebra.Order.Field.Rat
import Mathlib.Tactic.FieldSimp

/-!
# Liquidity fees are always covered

Every share of a pool earns the same rounded part of a fee, so all providers
together never earn more than was booked, and none earns more than its part of
the fees booked while it held its shares. Settling a provider moves the
checkpoint to what a share has earned and pays no more than was due.
-/

namespace DikeProtocol.Trading

open Lib
open Amm (Traded earnedPerShare)

/-- A share earns nothing negative, and all shares together at most the fee. -/
theorem earnedPerShare_bounds (pool : PoolData) {fee : ℤ} (hfee : 0 ≤ fee) :
    0 ≤ earnedPerShare pool fee ∧
      earnedPerShare pool fee * pool.totalLpShares ≤ fee * Amm.feeScale := by
  have hscaled : 0 ≤ fee * Amm.feeScale := mul_nonneg hfee (by decide)
  unfold earnedPerShare
  split
  · next hpos =>
    rw [Int.tdiv_eq_ediv_of_nonneg hscaled]
    exact ⟨Int.ediv_nonneg hscaled hpos.1.le, Int.ediv_mul_le _ (by omega)⟩
  · rw [zero_mul]
    exact ⟨le_rfl, hscaled⟩

namespace Shared

variable {w w' : World} {who : Option (ℕ × Address)}

/-- Shares of a pool that nobody holds. -/
theorem sharesOf_eq_zero {a : AmmState} {i : ℕ} (h : ∀ lp, a.lpBalance (i, lp) = 0) :
    sharesOf a i = 0 := by
  apply Finset.sum_eq_zero
  intro k _
  unfold shareTally
  rw [Tally.over_weight]
  split
  · next hk =>
    have hnone := h k.2
    rw [← hk] at hnone
    exact hnone
  · rfl

/-- The shares of a pool after one provider's were rewritten. -/
theorem sharesOf_rewritten {a a' : AmmState} {i : ℕ} {lp : Address} {shares : ℤ}
    (hlp : ∀ k, a'.lpBalance k = if k = (i, lp) then shares else a.lpBalance k) (j : ℕ) :
    sharesOf a' j = sharesOf a j + if j = i then shares - a.lpBalance (i, lp) else 0 := by
  unfold sharesOf
  have hchange : a'.lpBalance.total (shareTally j) = a.lpBalance.total (shareTally j) -
      (shareTally j).weight (i, lp) (a.lpBalance (i, lp)) +
      (shareTally j).weight (i, lp) (a'.lpBalance (i, lp)) := by
    refine Store.total_change (i, lp) ?_
    intro k hk
    rw [hlp, if_neg hk]
  rw [hchange, hlp, if_pos rfl]
  unfold shareTally
  simp only [Tally.over_weight, eq_comm (a := j)]
  split <;> omega

section Moves

variable {a a' : AmmState} {i : ℕ} {pool pool' : PoolData}

/-- Where neither shares nor fees move, the shares stay in order. -/
theorem still (h : Shared a) (hpool : a'.pool = a.pool) (hlp : a'.lpBalance = a.lpBalance)
    (hmark : a'.lpFeeCheckpoint = a.lpFeeCheckpoint) (hnext : a'.nextPoolId = a.nextPoolId) :
    Shared a' := by
  refine ⟨?_, ?_, ?_, ?_, ?_, ?_, ?_⟩
  · rw [hpool, hnext]
    exact h.numbered
  · rw [hpool, hlp]
    exact h.unopened
  · rw [hlp]
    exact h.shares_nonneg
  · unfold sharesOf
    rw [hpool, hlp]
    exact h.shares_sum
  · rw [hpool, hmark]
    exact h.checkpoint_le
  · rw [hpool]
    exact h.earned_nonneg
  · rw [hpool, hmark]
    exact h.unmarked

/-- A pool that is opened has no shares yet. -/
theorem opened {marketId : MarketId} (h : Shared a)
    (hpool : a'.pool = a.pool.set a.nextPoolId (some (Amm.freshPool a.nextPoolId marketId)))
    (hlp : a'.lpBalance = a.lpBalance) (hmark : a'.lpFeeCheckpoint = a.lpFeeCheckpoint)
    (hnext : a'.nextPoolId = a.nextPoolId + 1) : Shared a' := by
  have hnone := h.next_unused
  have hread : ∀ j, a'.pool j = if j = a.nextPoolId then
      some (Amm.freshPool a.nextPoolId marketId) else a.pool j := by
    intro j
    rw [hpool, Store.set_get]
  refine ⟨?_, ?_, ?_, ?_, ?_, ?_, ?_⟩
  · intro i pool hp
    rw [hread] at hp
    rw [hnext]
    split at hp
    · next hi =>
      rw [← Option.some.inj hp, hi]
      exact ⟨rfl, Nat.lt_succ_self _⟩
    · have hold := h.numbered i pool hp
      exact ⟨hold.1, hold.2.trans (Nat.lt_succ_self _)⟩
  · intro k hp
    rw [hread] at hp
    rw [hlp]
    split at hp
    · cases hp
    · exact h.unopened k hp
  · rw [hlp]
    exact h.shares_nonneg
  · intro i pool hp
    rw [hread] at hp
    split at hp
    · next hi =>
      rw [← Option.some.inj hp]
      refine sharesOf_eq_zero ?_
      intro lp
      rw [hlp, hi]
      exact h.unopened (a.nextPoolId, lp) hnone
    · unfold sharesOf
      rw [hlp]
      exact h.shares_sum i pool hp
  · intro k pool hp
    rw [hread] at hp
    rw [hmark]
    split at hp
    · next hi =>
      rw [h.unmarked k (by rw [hi]; exact hnone), ← Option.some.inj hp]
      exact le_rfl
    · exact h.checkpoint_le k pool hp
  · intro i pool hp
    rw [hread] at hp
    split at hp
    · rw [← Option.some.inj hp]
      exact le_rfl
    · exact h.earned_nonneg i pool hp
  · intro k hp
    rw [hread] at hp
    rw [hmark]
    split at hp
    · cases hp
    · exact h.unmarked k hp

/-- A trade raises what each share of its pool has earned. -/
theorem traded {fee : ℤ} (h : Shared a) (hfee : 0 ≤ fee) (hold : a.pool i = some pool)
    (htraded : Traded pool pool' fee)
    (hpool : ∀ j, a'.pool j = if j = i then some pool' else a.pool j)
    (hlp : a'.lpBalance = a.lpBalance) (hmark : a'.lpFeeCheckpoint = a.lpFeeCheckpoint)
    (hnext : a'.nextPoolId = a.nextPoolId) : Shared a' := by
  have hearned := (earnedPerShare_bounds pool hfee).1
  have hgrown := htraded.feePerShareScaled
  refine ⟨?_, ?_, ?_, ?_, ?_, ?_, ?_⟩
  · intro j q hq
    rw [hpool] at hq
    rw [hnext]
    split at hq
    · next hj =>
      have hnumber := h.numbered i pool hold
      rw [← Option.some.inj hq, htraded.id, hj]
      exact hnumber
    · exact h.numbered j q hq
  · intro k hp
    rw [hpool] at hp
    rw [hlp]
    split at hp
    · cases hp
    · exact h.unopened k hp
  · rw [hlp]
    exact h.shares_nonneg
  · intro j q hq
    rw [hpool] at hq
    unfold sharesOf
    rw [hlp]
    split at hq
    · next hj =>
      rw [← Option.some.inj hq, htraded.totalLpShares, hj]
      exact h.shares_sum i pool hold
    · exact h.shares_sum j q hq
  · intro k q hq
    rw [hpool] at hq
    rw [hmark]
    split at hq
    · next hk =>
      have hle := h.checkpoint_le k pool (by rw [hk]; exact hold)
      rw [← Option.some.inj hq]
      omega
    · exact h.checkpoint_le k q hq
  · intro j q hq
    rw [hpool] at hq
    split at hq
    · have hle := h.earned_nonneg i pool hold
      rw [← Option.some.inj hq]
      omega
    · exact h.earned_nonneg j q hq
  · intro k hp
    rw [hpool] at hp
    rw [hmark]
    split at hp
    · cases hp
    · exact h.unmarked k hp

/-- Settling a provider moves its checkpoint to what a share has earned, and its shares with the
pool's total. -/
theorem settled {lp : Address} {shares : ℤ} (h : Shared a) (hold : a.pool i = some pool)
    (hid : pool'.id = pool.id) (hearned : pool'.feePerShareScaled = pool.feePerShareScaled)
    (hshares : 0 ≤ shares)
    (htotal : pool'.totalLpShares = pool.totalLpShares + (shares - a.lpBalance (i, lp)))
    (hpool : ∀ j, a'.pool j = if j = i then some pool' else a.pool j)
    (hlp : ∀ k, a'.lpBalance k = if k = (i, lp) then shares else a.lpBalance k)
    (hmark : ∀ k, a'.lpFeeCheckpoint k =
      if k = (i, lp) then pool.feePerShareScaled else a.lpFeeCheckpoint k)
    (hnext : a'.nextPoolId = a.nextPoolId) : Shared a' := by
  refine ⟨?_, ?_, ?_, ?_, ?_, ?_, ?_⟩
  · intro j q hq
    rw [hpool] at hq
    rw [hnext]
    split at hq
    · next hj =>
      have hnumber := h.numbered i pool hold
      rw [← Option.some.inj hq, hid, hj]
      exact hnumber
    · exact h.numbered j q hq
  · intro k hp
    rw [hpool] at hp
    rw [hlp]
    split at hp
    · cases hp
    · next hk =>
      rw [if_neg (fun heq => hk (by rw [heq]))]
      exact h.unopened k hp
  · intro k
    rw [hlp]
    split
    · exact hshares
    · exact h.shares_nonneg k
  · intro j q hq
    rw [hpool] at hq
    rw [sharesOf_rewritten hlp]
    split at hq
    · next hj =>
      rw [← Option.some.inj hq, htotal, if_pos hj, hj, h.shares_sum i pool hold]
    · next hj =>
      rw [if_neg hj, add_zero]
      exact h.shares_sum j q hq
  · intro k q hq
    rw [hpool] at hq
    rw [hmark]
    split at hq
    · next hk =>
      rw [← Option.some.inj hq, hearned]
      split
      · exact le_rfl
      · exact h.checkpoint_le k pool (by rw [hk]; exact hold)
    · next hk =>
      rw [if_neg (fun heq => hk (by rw [heq]))]
      exact h.checkpoint_le k q hq
  · intro j q hq
    rw [hpool] at hq
    split at hq
    · rw [← Option.some.inj hq, hearned]
      exact h.earned_nonneg i pool hold
    · exact h.earned_nonneg j q hq
  · intro k hp
    rw [hpool] at hp
    rw [hmark]
    split at hp
    · cases hp
    · next hk =>
      rw [if_neg (fun heq => hk (by rw [heq]))]
      exact h.unmarked k hp

end Moves

/-- What a step does to shares and fees keeps the shares in order. -/
theorem move (h : Shared w.amm) (hmove : FeeMove who w w') : Shared w'.amm := by
  cases hmove with
  | still hpool hlp hmark hnext _ => exact h.still hpool hlp hmark hnext
  | opened _ hpool hlp hmark hnext _ => exact h.opened hpool hlp hmark hnext
  | traded _ hfee hold htraded hpool hlp hmark hnext _ =>
    exact h.traded hfee hold htraded hpool hlp hmark hnext
  | settled _ hold hid _ hearned _ hshares htotal _ _ hpool hlp hmark hnext _ =>
    exact h.settled hold hid hearned hshares htotal hpool hlp hmark hnext

end Shared

/-- What the shares of all pools on a market earned since their checkpoints. -/
def dueTally (a : AmmState) (m : MarketId) : Tally (ℕ × Address) ℤ ℤ where
  weight := fun k shares =>
    match a.pool k.1 with
    | some pool =>
      if pool.marketId = m then shares * (pool.feePerShareScaled - a.lpFeeCheckpoint k) else 0
    | none => 0
  weight_default := by
    intro k
    have hzero : (default : ℤ) = 0 := rfl
    cases a.pool k.1 with
    | none => rfl
    | some pool => simp only [hzero, zero_mul, ite_self]

/-- Everything due to the providers of a market's pools, on the scale of the fees. -/
def due (a : AmmState) (m : MarketId) : ℤ := a.lpBalance.total (dueTally a m)

/-- The booked fees of every market cover everything due to its providers. -/
def FeesCovered (w : World) : Prop := ∀ m, due w.amm m ≤ booked w m * Amm.feeScale

/-- A provider weighs what is due to it in its own market, and nothing elsewhere. -/
theorem dueTally_weight {a : AmmState} {k : ℕ × Address} {pool : PoolData}
    (hpool : a.pool k.1 = some pool) (m : MarketId) :
    (dueTally a m).weight k (a.lpBalance k) = if pool.marketId = m then dueOf a k else 0 := by
  unfold dueTally dueOf
  dsimp only
  rw [hpool]

/-- A provider of a pool that was never opened weighs nothing. -/
theorem dueTally_unopened {a : AmmState} {k : ℕ × Address} (hpool : a.pool k.1 = none)
    (m : MarketId) (x : ℤ) : (dueTally a m).weight k x = 0 := by
  unfold dueTally
  dsimp only
  rw [hpool]

/-- No weight is negative. -/
theorem Shared.dueTally_nonneg {a : AmmState} (h : Shared a) (m : MarketId) (k : ℕ × Address) :
    0 ≤ (dueTally a m).weight k (a.lpBalance k) := by
  cases hpool : a.pool k.1 with
  | none => exact (dueTally_unopened hpool m _).ge
  | some pool =>
    rw [dueTally_weight hpool]
    split
    · exact h.dueOf_nonneg k
    · exact le_rfl

/-- What a step does to shares and fees keeps the fees covered. -/
theorem FeesCovered.move {w w' : World} {who : Option (ℕ × Address)} (h : FeesCovered w)
    (hs : Shared w.amm) (hmove : FeeMove who w w') : FeesCovered w' := by
  intro m
  have hm := h m
  cases hmove with
  | still hpool hlp hmark hnext hfees =>
    have hsame : due w'.amm m = due w.amm m := by
      refine Store.total_eq_of_weight ?_
      intro k
      unfold dueTally
      dsimp only
      rw [hpool, hlp, hmark]
    rw [hfees, hsame]
    exact hm
  | @opened marketId _ hpool hlp hmark hnext hfees =>
    have hnone := hs.next_unused
    have hsame : due w'.amm m = due w.amm m := by
      refine Store.total_eq_of_weight ?_
      intro k
      unfold dueTally
      dsimp only
      rw [hpool, hlp, hmark, Store.set_get]
      by_cases hk : k.1 = w.amm.nextPoolId
      · rw [if_pos hk, hk, hnone]
        dsimp only
        rw [hs.unopened k (by rw [hk]; exact hnone), zero_mul, ite_self]
      · rw [if_neg hk]
    rw [hfees, hsame]
    exact hm
  | @traded i pool pool' fee _ hfee hold htraded hpool hlp hmark hnext hfees =>
    have hgrown : due w'.amm m = due w.amm m +
        (if pool.marketId = m then earnedPerShare pool fee else 0) * sharesOf w.amm i := by
      unfold due sharesOf
      rw [hlp]
      refine w.amm.lpBalance.total_add_mul _ ?_
      intro k
      unfold dueTally shareTally
      dsimp only
      rw [hpool, hmark, Tally.over_weight]
      by_cases hk : k.1 = i
      · rw [if_pos hk, if_pos hk, hk, hold]
        dsimp only
        rw [htraded.marketId, htraded.feePerShareScaled]
        split <;> ring
      · rw [if_neg hk, if_neg hk, mul_zero, add_zero]
    have hbound := (earnedPerShare_bounds pool hfee).2
    rw [hfees, hgrown, hs.shares_sum i pool hold]
    by_cases hmarket : pool.marketId = m
    · rw [if_pos hmarket, if_pos hmarket.symm, add_mul]
      omega
    · rw [if_neg hmarket, if_neg (fun heq => hmarket heq.symm), zero_mul, add_zero, add_zero]
      exact hm
  | @settled i lp pool pool' shares paid _ hold hid hmarket hearned _ hshares htotal hpaid hdue
      hpool hlp hmark hnext hfees =>
    have hchange : due w'.amm m = due w.amm m -
        (dueTally w.amm m).weight (i, lp) (w.amm.lpBalance (i, lp)) +
        (dueTally w'.amm m).weight (i, lp) (w'.amm.lpBalance (i, lp)) := by
      refine Store.total_change (i, lp) ?_
      intro k hk
      unfold dueTally
      dsimp only
      rw [hpool, hlp, hmark, if_neg hk, if_neg hk]
      by_cases hi : k.1 = i
      · rw [if_pos hi, hi, hold]
        dsimp only
        rw [hmarket, hearned]
      · rw [if_neg hi]
    have hafter : (dueTally w'.amm m).weight (i, lp) (w'.amm.lpBalance (i, lp)) = 0 := by
      unfold dueTally
      dsimp only
      rw [hpool, if_pos rfl, hmark, if_pos rfl]
      dsimp only
      rw [hearned, sub_self, mul_zero, ite_self]
    rw [hfees, hchange, hafter, dueTally_weight hold, add_zero]
    by_cases hin : pool.marketId = m
    · rw [if_pos hin, if_pos hin.symm, sub_mul]
      omega
    · rw [if_neg hin, if_neg (fun heq => hin heq.symm), sub_zero, sub_zero]
      exact hm

/-- In every reachable state the shares are in order and the booked fees cover
everything due. -/
theorem reachable_feesCovered {w : World} (h : tradingSystem.Reachable w) :
    Shared w.amm ∧ FeesCovered w := by
  have hknown : ∀ w, tradingSystem.Reachable w → TradeInvariant w ∧ Stocked w :=
    fun _ hw => ⟨reachable_invariant hw, reachable_stocked hw⟩
  refine h.invariant_with hknown (I := fun w => Shared w.amm ∧ FeesCovered w) ?_ ?_
  · rintro w ⟨l, rfl⟩
    have hnone : ∀ i, (deploy l).amm.pool i = none := fun _ => rfl
    refine ⟨⟨?_, fun _ _ => rfl, fun _ => le_rfl, ?_, ?_, ?_, fun _ _ => rfl⟩, ?_⟩
    · intro i pool hpool
      rw [hnone] at hpool
      cases hpool
    · intro i pool hpool
      rw [hnone] at hpool
      cases hpool
    · intro k pool hpool
      rw [hnone] at hpool
      cases hpool
    · intro i pool hpool
      rw [hnone] at hpool
      cases hpool
    · intro m
      exact le_rfl
  · rintro w step w' ⟨ht, hs⟩ ⟨hw, hcovered⟩ _ hstep
    have hmove := FeeMove.of_step ht hs hw hstep
    exact ⟨hw.move hmove, hcovered.move hw hmove⟩

/-- What all providers of a pool are owed together was booked for its market. -/
theorem FeesCovered.sum_owed_le {w : World} (h : FeesCovered w) (hs : Shared w.amm) {i : ℕ}
    {pool : PoolData} (hpool : w.amm.pool i = some pool) {lps : Finset Address}
    {owed : Address → ℤ} (howed : ∀ lp ∈ lps,
      Amm.computeLpFeesOwed w.amm i lp pool (w.amm.lpBalance (i, lp)) = .ok (owed lp)) :
    ∑ lp ∈ lps, owed lp ≤ booked w pool.marketId := by
  have heach : ∀ lp ∈ lps, owed lp * Amm.feeScale ≤
      (dueTally w.amm pool.marketId).weight (i, lp) (w.amm.lpBalance (i, lp)) := by
    intro lp hlp
    rw [dueTally_weight hpool, if_pos rfl]
    exact (hs.owed_bounds hpool (howed lp hlp)).2
  have hsum : (∑ lp ∈ lps, owed lp) * Amm.feeScale ≤ due w.amm pool.marketId := by
    rw [Finset.sum_mul]
    refine (Finset.sum_le_sum heach).trans ?_
    have hkeys := w.amm.lpBalance.sum_le_total (dueTally w.amm pool.marketId)
      (hs.dueTally_nonneg pool.marketId)
      (lps.map ⟨fun lp => (i, lp), fun a b hab => (Prod.mk.inj hab).2⟩)
    rw [Finset.sum_map] at hkeys
    exact hkeys
  have hbooked := hsum.trans (h pool.marketId)
  exact le_of_mul_le_mul_right hbooked (by decide)

/-- A transfer of a foreign token fails in its own way only. -/
@[simp] theorem transfer_fills {bank : Bank} {token : Asset} {a b : Address} {x : ℤ} :
    Avoids short (bank.transfer token a b x) := by
  unfold Bank.transfer
  split <;> simp

/-- Paying what was booked does not fail for lack of fees. -/
theorem payLpFees_fills {ctx : Ctx} {w : World} {mods : Amm.Modules} {m : MarketId} {lp : Address}
    {x : ℤ} (h : x ≤ booked w m) : Avoids short (Amm.payLpFees ctx w mods m lp x) := by
  have henough : ¬(w.vault.accounting m).lpFees < x := not_lt.mpr h
  simp [Amm.payLpFees, Vault.claimLpFees, Vault.requireMarketCollateral, Vault.marketData, readRole,
    Registry.getMarket, Registry.readMarket, henough, checkedSub, transferToken, requireAuth]

/-- The payments of fees in this state never fail because too little was
booked: a claim, and what a withdrawal or a further deposit pays on the way. -/
structure FeesPaid (w : World) : Prop where
  settle : ∀ {ctx m lp poolId pool owed a}, w.amm.pool poolId = some pool →
    Amm.computeLpFeesOwed w.amm poolId lp pool (w.amm.lpBalance (poolId, lp)) = .ok owed →
    Avoids short (Amm.payLpFees ctx { w with amm := a } m pool.marketId lp owed)
  add : ∀ {ctx m lp poolId pool x pending w1 w2 a}, FromOutside ctx →
    w.amm.pool poolId = some pool → Amm.depositForMarket ctx w m lp pool.marketId x = .ok w1 →
    Amm.mintCompleteSet ctx w1 m pool.marketId x = .ok w2 →
    Amm.computeLpFeesOwed w2.amm poolId lp pool (w2.amm.lpBalance (poolId, lp)) = .ok pending →
    Avoids short (Amm.payLpFees ctx { w2 with amm := a } m pool.marketId lp pending)

/-- While the fees cover everything due, every payment of fees finds them. -/
theorem FeesCovered.paid {w : World} (h : FeesCovered w) (ht : TradeInvariant w)
    (hs : Shared w.amm) : FeesPaid w := by
  have hone : ∀ {lp poolId pool owed}, w.amm.pool poolId = some pool →
      Amm.computeLpFeesOwed w.amm poolId lp pool (w.amm.lpBalance (poolId, lp)) = .ok owed →
      owed ≤ booked w pool.marketId := by
    intro lp poolId pool owed hpool howed
    have hsum : ∑ _lp ∈ {lp}, owed ≤ booked w pool.marketId := by
      refine h.sum_owed_le hs hpool ?_
      intro a ha
      rw [Finset.mem_singleton.mp ha]
      exact howed
    rw [Finset.sum_singleton] at hsum
    exact hsum
  refine ⟨?_, ?_⟩
  · intro ctx m lp poolId pool owed a hpool howed
    exact payLpFees_fills (hone hpool howed)
  · intro ctx m lp poolId pool x pending w1 w2 a hctx hpool h1 h2 howed
    have hb1 := Beside.depositForMarket hctx ht h1
    obtain ⟨t1, _, _, rfl⟩ := Amm.mintCompleteSet_ok h2
    dsimp only at howed
    rw [hb1.amm] at howed
    refine payLpFees_fills ((hone hpool howed).trans ?_)
    change booked w pool.marketId ≤ booked w1 pool.marketId
    unfold booked
    rw [hb1.lpFees, add_zero]

/-- What each provider was paid out of the fees of a pool, and its part of
every fee booked while it held shares of the pool. -/
structure LpLedger where
  paid : ℕ × Address → ℤ
  part : ℕ × Address → ℚ

/-- Nothing paid and nothing booked yet. -/
def LpLedger.empty : LpLedger := ⟨fun _ => 0, fun _ => 0⟩

/-- What a step paid a provider: the fees that left the bucket of the pool's
market when the step settled that provider. -/
def paidIn (who : Option (ℕ × Address)) (w w' : World) (k : ℕ × Address) : ℤ :=
  if who = some k then
    match w.amm.pool k.1 with
    | some pool => booked w pool.marketId - booked w' pool.marketId
    | none => 0
  else 0

/-- A provider's part, by shares held, of the fee that a step booked in the pool. -/
def partIn (w w' : World) (k : ℕ × Address) : ℚ :=
  match w.amm.pool k.1, w'.amm.pool k.1 with
  | some pool, some pool' => ((pool'.accumulatedLpFees - pool.accumulatedLpFees : ℤ) : ℚ) *
      w.amm.lpBalance k / pool.totalLpShares
  | _, _ => 0

/-- The ledger after a step. -/
def LpLedger.note (r : LpLedger) (w : World) (step : TradeStep) (w' : World) : LpLedger where
  paid := fun k => r.paid k + paidIn step.provider w w' k
  part := fun k => r.part k + partIn w w' k

/-- Runs that keep the ledger of fees. -/
def providingSystem : System (World × LpLedger) TradeStep Fault :=
  tradingSystem.traced .empty LpLedger.note

/-- A share earns no more than its part of the fee. -/
theorem earned_le_part {w : World} (hs : Shared w.amm) {k : ℕ × Address} {pool : PoolData} {fee : ℤ}
    (hfee : 0 ≤ fee) (hold : w.amm.pool k.1 = some pool) :
    ((w.amm.lpBalance k * earnedPerShare pool fee : ℤ) : ℚ) ≤
      (fee : ℚ) * w.amm.lpBalance k / pool.totalLpShares * Amm.feeScale := by
  have hheld := hs.shares_nonneg k
  have hbound := (earnedPerShare_bounds pool hfee).2
  rcases (hs.total_nonneg hold).eq_or_lt with hzero | hpos
  · have hnone : w.amm.lpBalance k = 0 := by
      have hle : w.amm.lpBalance k ≤ pool.totalLpShares := hs.shares_le hold k.2
      omega
    rw [hnone]
    simp
  · have hpos' : (0 : ℚ) < pool.totalLpShares := by exact_mod_cast hpos
    rw [div_mul_eq_mul_div, le_div_iff₀ hpos']
    have hscaled : w.amm.lpBalance k * (earnedPerShare pool fee * pool.totalLpShares) ≤
        w.amm.lpBalance k * (fee * Amm.feeScale) := mul_le_mul_of_nonneg_left hbound hheld
    have hint : w.amm.lpBalance k * earnedPerShare pool fee * pool.totalLpShares ≤
        fee * w.amm.lpBalance k * Amm.feeScale := by
      calc w.amm.lpBalance k * earnedPerShare pool fee * pool.totalLpShares
          = w.amm.lpBalance k * (earnedPerShare pool fee * pool.totalLpShares) := mul_assoc _ _ _
        _ ≤ w.amm.lpBalance k * (fee * Amm.feeScale) := hscaled
        _ = fee * w.amm.lpBalance k * Amm.feeScale := by ring
    exact_mod_cast hint

/-- A step that leaves a pool's counter alone gives nobody a part. -/
theorem partIn_eq_zero {w w' : World} {k : ℕ × Address}
    (h : ∀ pool pool', w.amm.pool k.1 = some pool → w'.amm.pool k.1 = some pool' →
      pool'.accumulatedLpFees = pool.accumulatedLpFees) : partIn w w' k = 0 := by
  unfold partIn
  cases hold : w.amm.pool k.1 with
  | none => rfl
  | some pool =>
    cases hnew : w'.amm.pool k.1 with
    | none => rfl
    | some pool' =>
      dsimp only
      rw [h pool pool' hold hnew, sub_self, Int.cast_zero, zero_mul, zero_div]

/-- A step that leaves a pool alone gives nobody a part in it. -/
theorem partIn_kept {w w' : World} {k : ℕ × Address} (h : w'.amm.pool k.1 = w.amm.pool k.1) :
    partIn w w' k = 0 := by
  refine partIn_eq_zero ?_
  intro pool pool' hold hnew
  rw [h, hold] at hnew
  rw [Option.some.inj hnew]

/-- A step pays nobody but the provider it settles. -/
theorem paidIn_of_ne {who : Option (ℕ × Address)} {w w' : World} {k : ℕ × Address}
    (h : who ≠ some k) : paidIn who w w' k = 0 := by
  unfold paidIn
  rw [if_neg h]

/-- A step that leaves the booked fees alone pays nobody. -/
theorem paidIn_kept {who : Option (ℕ × Address)} {w w' : World} {k : ℕ × Address}
    (h : ∀ m, booked w' m = booked w m) : paidIn who w w' k = 0 := by
  unfold paidIn
  split
  · cases w.amm.pool k.1 with
    | none => rfl
    | some pool =>
      dsimp only
      rw [h, sub_self]
  · rfl

/-- A provider is due the same while its pool, its shares and its checkpoint stay. -/
theorem dueOf_kept {a a' : AmmState} {k : ℕ × Address} (hpool : a'.pool k.1 = a.pool k.1)
    (hlp : a'.lpBalance k = a.lpBalance k) (hmark : a'.lpFeeCheckpoint k = a.lpFeeCheckpoint k) :
    dueOf a' k = dueOf a k := by
  unfold dueOf
  rw [hpool, hlp, hmark]

/-- What a step pays a provider and leaves due is covered by what was due before
and the part of the fee it booked. -/
theorem FeeMove.earned {w w' : World} {who : Option (ℕ × Address)} (hs : Shared w.amm)
    (h : FeeMove who w w') (k : ℕ × Address) :
    (paidIn who w w' k : ℚ) * Amm.feeScale + dueOf w'.amm k ≤
      dueOf w.amm k + partIn w w' k * Amm.feeScale := by
  cases h with
  | still hpool hlp hmark hnext hfees =>
    have hdue : dueOf w'.amm k = dueOf w.amm k :=
      dueOf_kept (by rw [hpool]) (by rw [hlp]) (by rw [hmark])
    have hpart : partIn w w' k = 0 := partIn_kept (by rw [hpool])
    rw [paidIn_kept hfees, hdue, hpart]
    simp
  | @opened marketId hwho hpool hlp hmark hnext hfees =>
    have hnone := hs.next_unused
    have hpaid : paidIn who w w' k = 0 := by
      rw [hwho]
      exact paidIn_of_ne (Option.some_ne_none k).symm
    by_cases hk : k.1 = w.amm.nextPoolId
    · -- nobody holds shares of a pool that is not there yet
      rw [← hk] at hnone
      have hdue : dueOf w'.amm k = dueOf w.amm k := by
        unfold dueOf
        rw [hpool, hlp, hmark, Store.set_get, if_pos hk, hnone]
        dsimp only
        rw [hs.unopened k hnone, zero_mul]
      have hpart : partIn w w' k = 0 := by
        refine partIn_eq_zero ?_
        intro pool pool' hold _
        rw [hnone] at hold
        cases hold
      rw [hpaid, hdue, hpart]
      simp
    · have hkept : w'.amm.pool k.1 = w.amm.pool k.1 := by
        rw [hpool, Store.set_get, if_neg hk]
      rw [hpaid, partIn_kept hkept, dueOf_kept hkept (by rw [hlp]) (by rw [hmark])]
      simp
  | @traded i pool pool' fee hwho hfee hold htraded hpool hlp hmark hnext hfees =>
    have hpaid : paidIn who w w' k = 0 := by
      rw [hwho]
      exact paidIn_of_ne (Option.some_ne_none k).symm
    rw [hpaid, Int.cast_zero, zero_mul, zero_add]
    by_cases hk : k.1 = i
    · have hold' : w.amm.pool k.1 = some pool := by rw [hk]; exact hold
      have hnew : w'.amm.pool k.1 = some pool' := by rw [hpool, if_pos hk]
      have hdue : dueOf w'.amm k =
          dueOf w.amm k + w.amm.lpBalance k * earnedPerShare pool fee := by
        unfold dueOf
        rw [hold', hnew, hlp, hmark]
        dsimp only
        rw [htraded.feePerShareScaled]
        ring
      have hpart : partIn w w' k = (fee : ℚ) * w.amm.lpBalance k / pool.totalLpShares := by
        unfold partIn
        rw [hold', hnew]
        dsimp only
        rw [htraded.accumulatedLpFees, add_sub_cancel_left]
      have hle := earned_le_part hs hfee hold'
      rw [hdue, hpart, Int.cast_add]
      linarith
    · have hkept : w'.amm.pool k.1 = w.amm.pool k.1 := by rw [hpool, if_neg hk]
      rw [partIn_kept hkept, dueOf_kept hkept (by rw [hlp]) (by rw [hmark])]
      simp
  | @settled i lp pool pool' shares paid hwho hold hid hmarket hearned hcounted hshares htotal hpaid
      hdue hpool hlp hmark hnext hfees =>
    have hpart : partIn w w' k = 0 := by
      refine partIn_eq_zero ?_
      intro p p' hp hp'
      rw [hpool] at hp'
      split at hp'
      · next hk =>
        rw [hk, hold] at hp
        rw [← Option.some.inj hp', ← Option.some.inj hp, hcounted]
      · rw [hp] at hp'
        rw [Option.some.inj hp']
    rw [hpart, zero_mul, add_zero]
    by_cases hk : k = (i, lp)
    · have hpaidIn : paidIn who w w' k = paid := by
        unfold paidIn
        rcases hwho with hwho | ⟨hwho, hzero⟩
        · rw [if_pos (by rw [hwho, hk]), hk]
          dsimp only
          rw [hold]
          dsimp only
          rw [hfees, if_pos rfl]
          omega
        · rw [hwho, if_neg (Option.some_ne_none k).symm, hzero]
      have hafter : dueOf w'.amm k = 0 := by
        unfold dueOf
        rw [hpool, hmark, hk, if_pos rfl, if_pos rfl]
        dsimp only
        rw [hearned, sub_self, mul_zero]
      rw [hpaidIn, hafter, hk, Int.cast_zero, add_zero]
      exact_mod_cast hdue
    · have hpaidIn : paidIn who w w' k = 0 := by
        refine paidIn_of_ne ?_
        rcases hwho with hwho | ⟨hwho, _⟩
        · rw [hwho]
          exact fun heq => hk (Option.some.inj heq).symm
        · rw [hwho]
          exact (Option.some_ne_none k).symm
      have hsame : dueOf w'.amm k = dueOf w.amm k := by
        unfold dueOf
        rw [hpool, hlp, hmark, if_neg hk, if_neg hk]
        by_cases hi : k.1 = i
        · rw [if_pos hi, hi, hold]
          dsimp only
          rw [hearned]
        · rw [if_neg hi]
      rw [hpaidIn, hsame]
      simp

/-- What a provider was paid and is due stays within its parts of the fees. -/
def PaidByPart (s : World × LpLedger) : Prop :=
  ∀ k, (s.2.paid k : ℚ) * Amm.feeScale + dueOf s.1.amm k ≤ s.2.part k * Amm.feeScale

/-- So it does in every run. -/
theorem reachable_paidByPart {s : World × LpLedger} (h : providingSystem.Reachable s) :
    PaidByPart s := by
  have hknown : ∀ s, providingSystem.Reachable s →
      TradeInvariant s.1 ∧ Stocked s.1 ∧ Shared s.1.amm := by
    intro s hs
    have hrun := System.Reachable.traced hs
    exact ⟨reachable_invariant hrun, reachable_stocked hrun, (reachable_feesCovered hrun).1⟩
  refine h.invariant_with hknown (I := PaidByPart) ?_ ?_
  · rintro ⟨w, r⟩ ⟨⟨l, rfl⟩, hr⟩ k
    dsimp only at hr ⊢
    rw [hr]
    have hzero : dueOf (deploy l).amm k = 0 := rfl
    rw [hzero]
    simp [LpLedger.empty]
  · rintro ⟨w, r⟩ step ⟨w', r'⟩ ⟨ht, hs, hw⟩ hpaid _ hstep k
    obtain ⟨hexec, hnote⟩ := System.traced_step.mp hstep
    have hmove := FeeMove.of_step ht hs hw hexec
    have hearned := hmove.earned hw k
    have hbefore := hpaid k
    dsimp only at hnote hbefore hearned ⊢
    rw [hnote]
    unfold LpLedger.note
    dsimp only
    push_cast
    linarith

/-- In every run the booked fees of a market cover what its pools owe all
providers together, no payment of fees fails for lack of them, and no provider
is ever paid more than its part of each fee booked while it held its shares. -/
theorem lp_fees_covered {s : World × LpLedger} (h : providingSystem.Reachable s) :
    (∀ i pool, s.1.amm.pool i = some pool → ∀ (lps : Finset Address) (owed : Address → ℤ),
      (∀ lp ∈ lps, Amm.computeLpFeesOwed s.1.amm i lp pool (s.1.amm.lpBalance (i, lp)) =
        .ok (owed lp)) →
      ∑ lp ∈ lps, owed lp ≤ (s.1.vault.accounting pool.marketId).lpFees) ∧
    FeesPaid s.1 ∧ ∀ k, (s.2.paid k : ℚ) ≤ s.2.part k := by
  have hrun := System.Reachable.traced h
  obtain ⟨hs, hcovered⟩ := reachable_feesCovered hrun
  refine ⟨fun i pool hpool lps owed howed => hcovered.sum_owed_le hs hpool howed,
    hcovered.paid (reachable_invariant hrun) hs, ?_⟩
  intro k
  have hpaid := reachable_paidByPart h k
  have hdue : (0 : ℚ) ≤ dueOf s.1.amm k := by exact_mod_cast hs.dueOf_nonneg k
  have hscale : (0 : ℚ) < Amm.feeScale := by exact_mod_cast (by decide : 0 < Amm.feeScale)
  exact le_of_mul_le_mul_right (by linarith) hscale

/-- Bob joins a pool between two trades, and then both providers claim. -/
def twoProviders : List TradeStep :=
  openMarket 1 10000 ++
    [.call (bySigner alice) (.amm (.buyYes alice 1 3000 0 1)),
      .call (bySigner bob) (.amm (.addLiquidity bob 1 5000)),
      .call (bySigner alice) (.amm (.buyNo alice 1 2000 0 1)),
      .call (bySigner bob) (.amm (.claimLpFees bob 1))]

/-- Bob was paid for the second trade only, and the fees left cover the first provider. -/
theorem lp_fees_covered_of_twoProviders : ∃ s,
    providingSystem.runs (deploy sampleLaunch, .empty) twoProviders = .ok s ∧
      0 < s.2.paid (1, bob) ∧ s.2.part (1, .account 1) ≠ s.2.part (1, bob) ∧
      (s.2.paid (1, bob) : ℚ) ≤ s.2.part (1, bob) := by
  obtain ⟨s, hs, hlast⟩ := System.runs_of_decide (S := providingSystem)
    (deploy sampleLaunch, .empty) twoProviders
    (fun s => 0 < s.2.paid (1, bob) ∧ s.2.part (1, .account 1) ≠ s.2.part (1, bob))
    (by decide +kernel)
  obtain ⟨hpos, hparts⟩ := of_decide_eq_true hlast
  have hstart : providingSystem.Init (deploy sampleLaunch, .empty) := ⟨sample_init, rfl⟩
  have hlaw := lp_fees_covered (System.Reachable.runs (.init hstart) twoProviders hs)
  exact ⟨s, hs, hpos, hparts, hlaw.2.2 (1, bob)⟩

end DikeProtocol.Trading
