import DikeProtocol.Trading.Backing
import DikeProtocol.Trading.Inventory

/-!
# Quotes that are always filled

Once a pool has quoted a trade or a withdrawal, the minting, merging and
delivery of tokens that follow never fail because the market maker is short
of them.
-/

namespace DikeProtocol.Trading

open Lib
open Amm (reserveOf outcomeOf)
open Vault (Outside)

/-- What the tokens say when an owner holds too few. -/
abbrev short : Fault := .error .insufficientBalance

section Avoids

variable {ctx : Ctx} {w : World} {t : TokensState} {a b : Address} {m : MarketId} {o : Outcome}
  {x : ℤ} {mods : Amm.Modules}

/-- Checked arithmetic never says that tokens are missing. -/
@[simp] theorem checked_fills : Avoids short (checked x) := fun h => by cases checked_error h

/-- Neither does a role check. -/
@[simp] theorem requireRole_fills {roles : Store Role (Option Address)} {role : Role} :
    Avoids short (requireRole ctx roles role) := by
  simp [requireRole, requireAuth]

/-- Neither does a call of another contract. -/
@[simp] theorem call_fills {self : Contract} {who : Address} {target : Contract} :
    Avoids short (ctx.call self who target) := by
  simp [Ctx.call]

/-- A debit that is held does not fail for lack of tokens. -/
theorem subBalance_fills (h : x ≤ t.balance (m, a, o)) :
    Avoids short (Tokens.subBalance t m a o x) := by
  simp [Tokens.subBalance, checkedSub, not_lt.mpr h]

/-- Minting never fails for lack of tokens. -/
theorem mintCompleteSet_fills : Avoids short (Amm.mintCompleteSet ctx w mods m x) := by
  simp [Amm.mintCompleteSet, Tokens.mintCompleteSet, Tokens.creditCompleteSet, Tokens.addBalance,
    Tokens.addBacking, checkedAdd]

/-- Merging sets that the market maker holds does not fail for lack of tokens. -/
theorem mergePositions_fills (h : ∀ yes, x ≤ held w.tokens m yes) :
    Avoids short (Amm.mergePositions ctx w mods m x) := by
  have hyes : x ≤ w.tokens.balance (m, .contract .amm, .yes) := h true
  have hno : x ≤ w.tokens.balance (m, .contract .amm, .no) := h false
  have hmerge : ∀ called, Avoids short
      (Tokens.mergePositions called w.tokens (.contract .amm) m x) := by
    intro called
    unfold Tokens.mergePositions
    rw [avoids_bind]
    refine ⟨requireRole_fills, fun _ _ => ?_⟩
    rw [avoids_bind]
    refine ⟨by simp, fun _ _ => ?_⟩
    rw [avoids_bind]
    refine ⟨subBalance_fills hyes, fun t1 h1 => ?_⟩
    obtain ⟨_, rfl⟩ := Tokens.subBalance_ok h1
    rw [avoids_bind]
    refine ⟨subBalance_fills ?_, fun t2 _ => ?_⟩
    · rw [Store.set_get_of_ne _ _ (by simp)]
      exact hno
    · simp [Tokens.subBacking, checkedSub]
  simp [Amm.mergePositions, hmerge]

/-- Delivering tokens that the sender holds does not fail for lack of tokens. -/
theorem transferPosition_fills (h : x ≤ w.tokens.balance (m, a, o)) :
    Avoids short (Amm.transferPosition ctx w mods a b m o x) := by
  have hmove : Avoids short (Tokens.moveBalance w.tokens a b m o x) := by
    simp [Tokens.moveBalance, subBalance_fills h, Tokens.addBalance, checkedAdd]
  simp [Amm.transferPosition, Tokens.transferPosition, requireAuth, readRole,
    Vault.assertPositionTransferAllowed, hmove]

end Avoids

/-- The token steps that follow a quote in this state never fail because the
market maker is short of tokens: the mint and the delivery of a purchase, the
merge of a sale and of a forced sale, and both deliveries of a withdrawal. -/
structure QuotesFilled (w : World) : Prop where
  buy : ∀ {ctx m trader poolId pool yes amountIn netIn out parent fees w1 w2 w3},
    FromOutside ctx → requireAuth ctx trader = .ok () → w.amm.pool poolId = some pool →
    Amm.quoteBuyOf pool yes netIn = .ok out →
    Amm.fundPurchase ctx w m trader pool.marketId (outcomeOf yes) amountIn out parent = .ok w1 →
    Avoids short (Amm.mintCompleteSet ctx w1 m pool.marketId netIn) ∧
      (Amm.mintCompleteSet ctx w1 m pool.marketId netIn = .ok w2 →
        Amm.collectFee ctx w2 m pool.marketId fees = .ok w3 →
        Avoids short (Amm.transferPosition ctx w3 m (.contract .amm) trader pool.marketId
          (outcomeOf yes) out))
  sell : ∀ {ctx m trader poolId pool yes amountIn gross w1},
    FromOutside ctx → requireAuth ctx trader = .ok () → w.amm.pool poolId = some pool →
    Amm.quoteSellOf pool yes amountIn = .ok gross →
    Amm.transferPosition ctx w m trader (.contract .amm) pool.marketId (outcomeOf yes) amountIn =
      .ok w1 →
    Avoids short (Amm.mergePositions ctx w1 m pool.marketId gross)
  forceSell : ∀ {ctx called m user poolId pool yes amountIn gross t},
    w.amm.pool poolId = some pool →
    amountIn = w.tokens.balance (pool.marketId, user, outcomeOf yes) →
    Amm.quoteSellOf pool yes amountIn = .ok gross →
    Tokens.transferPositionForced called w.tokens user (.contract .amm) pool.marketId
      (outcomeOf yes) amountIn = .ok t →
    Avoids short (Amm.mergePositions ctx { w with tokens := t } m pool.marketId gross)
  remove : ∀ {ctx m lp poolId pool shares pending yesOut noOut a w1 w2},
    FromOutside ctx → requireAuth ctx lp = .ok () → w.amm.pool poolId = some pool →
    0 < shares → shares ≤ pool.totalLpShares →
    proportional pool.yesReserve shares pool.totalLpShares = .ok yesOut →
    proportional pool.noReserve shares pool.totalLpShares = .ok noOut →
    Amm.payLpFees ctx { w with amm := a } m pool.marketId lp pending = .ok w1 →
    Avoids short (Amm.transferPosition ctx w1 m (.contract .amm) lp pool.marketId .yes yesOut) ∧
      (Amm.transferPosition ctx w1 m (.contract .amm) lp pool.marketId .yes yesOut = .ok w2 →
        Avoids short (Amm.transferPosition ctx w2 m (.contract .amm) lp pool.marketId .no noOut))

namespace Stocked

variable {w : World}

/-- What a sold position brings in covers what is merged, whoever sells it. -/
theorem merge_covered (hw : Stocked w) {poolId : ℕ} {pool : PoolData} {yes : Bool}
    {amountIn gross : ℤ} {user : Address} {t : TokensState} (hpool : w.amm.pool poolId = some pool)
    (hquote : Amm.quoteSellOf pool yes amountIn = .ok gross)
    (hmove : Tokens.moveBalance w.tokens user (.contract .amm) pool.marketId (outcomeOf yes)
      amountIn = .ok t) (hself : user = .contract .amm →
      amountIn ≤ held w.tokens pool.marketId yes) :
    ∀ o, gross ≤ held t pool.marketId o := by
  intro o
  obtain ⟨hin, hopposite⟩ := Amm.quoteSellOf_le hquote
  have hreserve := hw.reserve_le hpool o
  have hnonneg := hw.nonneg poolId pool hpool o
  have hother : o ≠ yes → gross ≤ reserveOf pool o := by
    intro hne
    have heq : o = !yes := by cases o <;> cases yes <;> simp_all
    rw [heq]
    exact hopposite
  by_cases hu : user = .contract .amm
  · -- a forced sale of its own position leaves the balances as they were
    have hsame : held t pool.marketId o = held w.tokens pool.marketId o := by
      subst hu
      unfold held
      rw [(Tokens.moveBalance_ok hmove).2.2.2]
      omega
    rw [hsame]
    by_cases ho : o = yes
    · rw [ho]
      exact hin.trans (hself hu)
    · exact (hother ho).trans hreserve
  · rw [receive_held hu hmove]
    by_cases ho : o = yes
    · rw [if_pos ⟨rfl, ho⟩]
      omega
    · rw [if_neg (fun hk => ho hk.2), add_zero]
      exact (hother ho).trans hreserve

/-- While the reserves are held, every quote is filled. -/
theorem filled (ht : TradeInvariant w) (hw : Stocked w) : QuotesFilled w := by
  refine ⟨?_, ?_, ?_, ?_⟩
  · intro ctx m trader poolId pool yes amountIn netIn out parent fees w1 w2 w3 hctx hauth hpool
      hquote h1
    refine ⟨mintCompleteSet_fills, fun h2 h3 => transferPosition_fills ?_⟩
    have htrader := hctx.1.ne_of_auth hauth
    have ht1 := ht.fundPurchase hctx htrader h1
    have ht2 := ht1.mintCompleteSet h2
    have hb1 := Beside.fundPurchase hctx ht htrader h1
    have hb3 := Beside.collectFee hctx ht2 h3
    obtain ⟨t1, _, hmint, rfl⟩ := Amm.mintCompleteSet_ok h2
    have hminted := credit_held hmint pool.marketId yes
    have hreserve := hw.reserve_le hpool yes
    have hout := (Amm.quoteBuyOf_le hquote).2
    rw [if_pos rfl, hb1.tokens] at hminted
    rw [hb3.tokens]
    change out ≤ held t1 pool.marketId yes
    omega
  · intro ctx m trader poolId pool yes amountIn gross w1 hctx hauth hpool hquote h1
    have htrader := hctx.1.ne_of_auth hauth
    obtain ⟨_, _, _, _, t1, hmove, rfl⟩ := Tokens.transferPosition_ok (Amm.transferPosition_ok h1)
    exact mergePositions_fills (hw.merge_covered hpool hquote hmove (fun hk => absurd hk htrader))
  · intro ctx called m user poolId pool yes amountIn gross t hpool hamount hquote hmove
    have hmoved := (Tokens.transferPositionForced_ok hmove).2
    refine mergePositions_fills (hw.merge_covered hpool hquote hmoved ?_)
    rintro rfl
    exact hamount.le
  · intro ctx m lp poolId pool shares pending yesOut noOut a w1 w2 hctx hauth hpool hshares htotal
      hyes hno h1
    have hlp := hctx.1.ne_of_auth hauth
    have hb1 := Beside.payLpFees hctx (ht.withAmm a) h1
    have hyesOut : yesOut ≤ held w.tokens pool.marketId true := by
      rw [proportional_ok hyes]
      exact (proportionOf_bounds (hw.nonneg poolId pool hpool true) hshares htotal).2.trans
        (hw.reserve_le hpool true)
    have hnoOut : noOut ≤ held w.tokens pool.marketId false := by
      rw [proportional_ok hno]
      exact (proportionOf_bounds (hw.nonneg poolId pool hpool false) hshares htotal).2.trans
        (hw.reserve_le hpool false)
    refine ⟨transferPosition_fills (by rw [hb1.tokens]; exact hyesOut), fun h2 =>
      transferPosition_fills ?_⟩
    obtain ⟨_, _, _, _, t1, hmove, rfl⟩ := Tokens.transferPosition_ok (Amm.transferPosition_ok h2)
    have hmoved : Tokens.moveBalance w1.tokens (.contract .amm) lp pool.marketId (outcomeOf true)
        yesOut = .ok t1 := hmove
    have hleft := deliver_held hlp hmoved pool.marketId false
    rw [if_neg (fun hk => Bool.false_ne_true hk.2), sub_zero, hb1.tokens] at hleft
    exact hnoOut.trans hleft.ge

end Stocked

/-- In every reachable state the market maker holds at least the reserves of all
pools on each market, in both outcomes, and every accepted quote is filled. -/
theorem inventory_covered {w : World} (h : tradingSystem.Reachable w) :
    (∀ m, reserved w.amm m true ≤ w.tokens.balance (m, .contract .amm, .yes) ∧
      reserved w.amm m false ≤ w.tokens.balance (m, .contract .amm, .no)) ∧ QuotesFilled w := by
  have hw := reachable_stocked h
  exact ⟨fun m => ⟨hw.covered m true, hw.covered m false⟩, hw.filled (reachable_invariant h)⟩

/-- Two pools are open on market 1, one of them traded in, and bob sends the
market maker some of his tokens. -/
def twoPools : List TradeStep :=
  openMarket 1 10000 ++
    [.call byFactory (.amm (.createPool 1 FeeConfig.default)),
      .call (bySigner (.account 1)) (.amm (.seedLiquidity (.account 1) 2 500)),
      .call (bySigner alice) (.amm (.buyYes alice 1 1000 0 1)),
      .call (bySigner bob) (.amm (.buyNo bob 2 100 0 1)),
      .call (bySigner bob) (.tokens (.transferPosition bob (.contract .amm) 1 .no 5))]

/-- After the trades the reserves of both pools together are held, with five tokens to spare. -/
theorem inventory_covered_of_twoPools : ∃ w,
    tradingSystem.runs (deploy sampleLaunch) twoPools = .ok w ∧ 0 < reserved w.amm 1 false ∧
      reserved w.amm 1 false + 5 = w.tokens.balance (1, .contract .amm, .no) ∧
      reserved w.amm 1 false ≤ w.tokens.balance (1, .contract .amm, .no) := by
  obtain ⟨w, hw, hlast⟩ := System.runs_of_decide (S := tradingSystem) (deploy sampleLaunch) twoPools
    (fun w => 0 < reserved w.amm 1 false ∧
      reserved w.amm 1 false + 5 = w.tokens.balance (1, .contract .amm, .no)) (by decide +kernel)
  obtain ⟨hpos, hspare⟩ := of_decide_eq_true hlast
  have hcovered := inventory_covered (System.Reachable.runs (.init sample_init) twoPools hw)
  exact ⟨w, hw, hpos, hspare, (hcovered.1 1).2⟩

end DikeProtocol.Trading
