import DikeProtocol.Faults
import DikeProtocol.Trading.Records

/-!
# Who is refused as encumbered

Sales and transfers are refused as encumbered for the debts of the position
only: what its owner owes in the market, or owes on the very tokens that would
move. In a run that keeps the records of all loans in agreement, a child whose
parent stake owes nothing owes nothing itself, so that it can be sold and
transferred and not be liquidated.
-/

namespace DikeProtocol.Trading

open Lib
open Vault (VaultOp Linked LoansAgree SameStake ChildDefaultExact KeepsAgreement DrawsSameStake
  WithholdsNothing)

/-- The refusal of a position that backs a debt. -/
abbrev encumbered : Fault := .error .encumberedPosition

section Parts

variable {ctx : Ctx} {w : World} {x : ℤ}

@[simp] theorem call_avoids {self target : Contract} {who : Address} :
    Avoids encumbered (ctx.call self who target) := by
  simp [Ctx.call]

@[simp] theorem requireLive_avoids {pool : PoolData} {deadline : ℕ} :
    Avoids encumbered (Amm.requireLive ctx w pool deadline) := by
  simp [Amm.requireLive, Amm.requireMarketTradeable]

@[simp] theorem mergePositions_avoids {mods : Amm.Modules} {m : MarketId} :
    Avoids encumbered (Amm.mergePositions ctx w mods m x) := by
  simp [Amm.mergePositions]

@[simp] theorem collectFee_avoids {mods : Amm.Modules} {m : MarketId} {fees : Amm.FeeParts} :
    Avoids encumbered (Amm.collectFee ctx w mods m fees) := by
  simp [Amm.collectFee]

@[simp] theorem requireMarketCollateral_avoids {token : Asset} {m : MarketId} :
    Avoids encumbered (Vault.requireMarketCollateral ctx w token m) := by
  simp [Vault.requireMarketCollateral, Vault.marketData]

end Parts

section Refusals

variable {ctx : Ctx} {w : World} {u : Address} {m : MarketId} {o : Outcome} {x y : ℤ}

/-- The tokens move a position that backs no debt. -/
theorem transferPosition_avoids {r : Address} (hchild : w.vault.childDebt (m, u) ≤ 0)
    (hparent : w.vault.parentDebt (m, u, o) ≤ 0) :
    Avoids encumbered (Tokens.transferPosition ctx w u r m o x) := by
  have hfree : ¬(w.vault.childDebt (m, u) > 0 ∨ w.vault.parentDebt (m, u, o) > 0) := by omega
  simp [Tokens.transferPosition, Vault.assertPositionTransferAllowed, hfree]

/-- The vault pays for a position that backs no debt. -/
theorem releaseTradePayout_avoids {token : Asset} (hchild : w.vault.childDebt (m, u) ≤ 0)
    (hparent : w.vault.parentDebt (m, u, o) ≤ 0) :
    Avoids encumbered (Vault.releaseTradePayout ctx w token u m o x y) := by
  have hfree : ¬(w.vault.childDebt (m, u) > 0 ∨ w.vault.parentDebt (m, u, o) > 0) := by omega
  simp [Vault.releaseTradePayout, hfree]

/-- A sale of a position that backs no debt is not refused as encumbered. -/
theorem sell_avoids {poolId : ℕ} {minOut : ℤ} {deadline : ℕ} {yes : Bool} {pool : PoolData}
    (hpool : w.amm.pool poolId = some pool) (hchild : w.vault.childDebt (pool.marketId, u) ≤ 0)
    (hparent : w.vault.parentDebt (pool.marketId, u, Amm.outcomeOf yes) ≤ 0) :
    Avoids encumbered (Amm.sell ctx w u poolId x minOut deadline yes) := by
  have hreleased : ∀ {pool' : PoolData} {mods : Amm.Modules} {w1 w2 : World} {ctx' : Ctx}
      {gross net : ℤ}, pool'.marketId = pool.marketId →
      Amm.transferPosition ctx w mods u (.contract .amm) pool'.marketId (Amm.outcomeOf yes) x =
        .ok w1 →
      Amm.mergePositions ctx w1 mods pool'.marketId gross = .ok w2 →
      Avoids encumbered (Vault.releaseTradePayout ctx' w2 mods.collateral u pool'.marketId
        (Amm.outcomeOf yes) x net) := by
    intro pool' mods w1 w2 ctx' gross net hmarket h1 h2
    obtain ⟨_, _, _, _, t, _, rfl⟩ := Tokens.transferPosition_ok (Amm.transferPosition_ok h1)
    obtain ⟨t', _, rfl⟩ := Amm.mergePositions_ok h2
    rw [hmarket]
    exact releaseTradePayout_avoids hchild hparent
  have hmoved : ∀ {pool' : PoolData} {mods : Amm.Modules}, pool'.marketId = pool.marketId →
      Avoids encumbered (Amm.transferPosition ctx w mods u (.contract .amm) pool'.marketId
        (Amm.outcomeOf yes) x) := by
    intro pool' mods hmarket
    rw [hmarket]
    simp [Amm.transferPosition, transferPosition_avoids hchild hparent]
  simp only [Amm.sell, Amm.readPool, hpool, orFault, avoids_bind, ok_ok, requireAuth_rare,
    avoids_refuse, avoids_ok, requireLive_avoids, modules_rare, quoteSellOf_rare,
    splitFee_rare, accrueFees_rare, mergePositions_avoids, call_avoids, collectFee_avoids,
    soldReserves_rare, avoids_pure, true_and, forall_eq', ne_eq, Fault.error.injEq, reduceCtorEq,
    not_false_eq_true, implies_true, and_true]
  rintro _ _ _ _ _ _ mods _ grossOut _ ⟨fee, netOut⟩ _ _ _ ⟨fees, pool'⟩ hfees
  have hmarket := (Amm.accrueFees_ok hfees).2
  exact ⟨hmoved hmarket, fun w1 h1 w2 h2 ctx' _ => hreleased hmarket h1 h2⟩

end Refusals

/-- A position that no child debt encumbers: sales and transfers are refused as
encumbered only for what is owed on the tokens themselves, and no keeper can
liquidate it as a child. -/
structure Unencumbered (w : World) (c : MarketId) (u : Address) : Prop where
  sells : ∀ ctx poolId pool x minOut deadline yes, w.amm.pool poolId = some pool →
    pool.marketId = c → Amm.sell ctx w u poolId x minOut deadline yes = .error encumbered →
    0 < w.vault.parentDebt (c, u, Amm.outcomeOf yes)
  transfers : ∀ ctx recipient o x,
    Tokens.transferPosition ctx w u recipient c o x = .error encumbered →
    0 < w.vault.parentDebt (c, u, o)
  liquidations : ∀ ctx keeper poolId pool o r, w.amm.pool poolId = some pool →
    pool.marketId = c → Amm.liquidateChildPosition ctx w keeper u poolId o ≠ .ok r

/-- Whoever owes nothing in a market holds an unencumbered position. -/
theorem unencumbered_of_debtFree {w : World} {c : MarketId} {u : Address}
    (h : w.vault.childDebt (c, u) = 0) : Unencumbered w c u where
  sells := by
    rintro ctx poolId pool x minOut deadline yes hpool rfl hfails
    by_contra hnone
    exact sell_avoids hpool h.le (not_lt.mp hnone) hfails
  transfers := by
    intro ctx recipient o x hfails
    by_contra hnone
    exact transferPosition_avoids h.le (not_lt.mp hnone) hfails
  liquidations := by
    rintro ctx keeper poolId pool o ⟨y, w'⟩ hpool rfl hdone
    obtain ⟨pool', _, _, _, _, _, _, _, _, hpool', hdebt, _⟩ := Amm.liquidate_steps hdone
    obtain rfl := Option.some.inj (hpool.symm.trans hpool')
    exact hdebt h

/-- Calls that keep the records of all loans in agreement: draws go to the stake
the child records, a liquidated child writes off what it takes away, and
redemptions withhold nothing. -/
def KeepsLoans (w : World) : VaultOp → Prop
  | .openChildCreditForTrade user _ po c _ _ => SameStake w.vault c user po
  | .liquidateChildRelease _ user _ c _ _ proceeds => ChildDefaultExact w.vault c user proceeds
  | .redeemResolved token user m o x => WithholdsNothing w (.redeemResolved token user m o x)
  | .redeemCancelled token user m o x => WithholdsNothing w (.redeemCancelled token user m o x)
  | _ => True

/-- Such calls draw from the stake the child records. -/
theorem KeepsLoans.draws {w : World} {op : VaultOp} (h : KeepsLoans w op) :
    DrawsSameStake w op := by
  cases op with
  | openChildCreditForTrade => exact h
  | _ => trivial

/-- Such calls keep the records of every market. -/
theorem KeepsLoans.agreement {w : World} {op : VaultOp} (h : KeepsLoans w op) (p : MarketId) :
    KeepsAgreement w p op := by
  cases op with
  | openChildCreditForTrade => exact h
  | liquidateChildRelease | redeemResolved | redeemCancelled => exact fun _ => h
  | _ => trivial

/-- In every run of such calls the records of all loans agree. -/
theorem records_of_keepsLoans {w : World}
    (h : tradingSystem.Guarded (fun w i => i.AllCalls KeepsLoans w) w) (p : MarketId) :
    Records p True w.vault w.registry := by
  apply h.invariant_with (fun w hw => reachable_invariant hw.reachable)
  · rintro w ⟨l, rfl⟩
    exact records_deployed l p True
  · intro w i w' hw hr hkeeps hstep
    refine records_step hw ?_ ?_ hstep hr
    · exact fun ops hmakes op hop => (hkeeps ops hmakes op hop).draws
    · exact fun _ ops hmakes op hop => (hkeeps ops hmakes op hop).agreement p

/-- In every run of such calls, a position whose parent stake owes nothing is unencumbered. -/
theorem unencumbered_of_settled {w : World}
    (h : tradingSystem.Guarded (fun w i => i.AllCalls KeepsLoans w) w) (c : MarketId) (u : Address)
    (hsettled : w.vault.parentDebt
      (w.vault.childParent (c, u), u, w.vault.childParentOutcome (c, u)) = 0) :
    Unencumbered w c u := by
  have hrecords := records_of_keepsLoans h (w.vault.childParent (c, u))
  have howed := (hrecords.agrees trivial u).owed (w.vault.childParentOutcome (c, u))
  have hle := Vault.debt_le_owedBy hrecords.sane.childDebt_nonneg c u
  have hnonneg := hrecords.sane.childDebt_nonneg (c, u)
  exact unencumbered_of_debtFree (by omega)

/-- Alice repays all that her position in market 2 owes. -/
def aliceRepays : TradeStep :=
  .call (bySigner alice) (.vault (.repayChildCollateral sampleToken alice 2 300))

/-- After alice repaid her loan her child position is unencumbered. -/
theorem unencumbered_of_repaid : ∃ w0 w1 w,
    tradingSystem.runs (deploy sampleLaunch) aliceStakes = .ok w0 ∧
      tradingSystem.step w0 aliceBorrows = .ok w1 ∧ tradingSystem.step w1 aliceRepays = .ok w ∧
      w1.vault.childDebt (2, alice) = 300 ∧ Unencumbered w 2 alice := by
  obtain ⟨w0, hw0, hlast⟩ := System.runs_of_decide (S := tradingSystem) (deploy sampleLaunch)
    aliceStakes
    (fun w0 => (w0.amm.pool 2).all
        (fun pool => decide (w0.vault.childParent (pool.marketId, alice) = 0)) &&
      okWith (tradingSystem.step w0 aliceBorrows) (fun w1 =>
        decide (w1.vault.childDebt (2, alice) = 300) &&
          okWith (tradingSystem.step w1 aliceRepays) (fun w => decide (w.vault.parentDebt
            (w.vault.childParent (2, alice), alice, w.vault.childParentOutcome (2, alice)) = 0))))
    (by decide +kernel)
  rw [Bool.and_eq_true, okWith_iff] at hlast
  obtain ⟨hfresh, w1, hw1, hlast⟩ := hlast
  rw [Bool.and_eq_true, okWith_iff] at hlast
  obtain ⟨hdebt, w, hw, hsettled⟩ := hlast
  have hplain : ∀ step ∈ aliceStakes, step.plain = true := by
    simp [aliceStakes, openMarket, TradeStep.plain]
  have hquiet : ∀ {w op}, Quiet op = true → KeepsLoans w op := by
    intro w op hop
    cases op with
    | openChildCreditForTrade | liquidateChildRelease | redeemResolved | redeemCancelled =>
        cases hop
    | _ => trivial
  have hrun : tradingSystem.Guarded (fun w i => i.AllCalls KeepsLoans w) w0 :=
    (System.Guarded.runs (.init sample_init) aliceStakes hplain hw0).mono
      (fun w i hi ops hmakes op hop => hquiet (makes_quiet hi hmakes op hop))
  have hborrow : aliceBorrows.AllCalls KeepsLoans w0 := by
    rintro ops ⟨pool, token, out, fees, hpool, rfl⟩
    rw [hpool] at hfresh
    simp only [fundingCalls, feeCall, List.cons_append, List.nil_append, List.forall_mem_cons]
    exact ⟨Or.inl (of_decide_eq_true hfresh), trivial, fun op hop => by cases hop⟩
  have hrepay : aliceRepays.AllCalls KeepsLoans w1 := by
    rintro ops rfl op hop
    rw [List.mem_singleton.mp hop]
    trivial
  exact ⟨w0, w1, w, hw0, hw1, hw, of_decide_eq_true hdebt, unencumbered_of_settled
    (.next (.next hrun hborrow hw1) hrepay hw) 2 alice (of_decide_eq_true hsettled)⟩

/-- Alice borrows, market 1 is cancelled, and her redemption there withholds the loan in full. -/
def redeemWhileLent : List TradeStep :=
  aliceStakes ++ [aliceBorrows, .call (bySigner (.account 2)) (.registry (.cancelMarket 1)),
    .call (bySigner alice) (.vault (.redeemCancelled sampleToken alice 1 .yes 1873))]

/-- Nothing is owed to the parent stake any more, yet bob liquidates alice's position. -/
theorem not_always_unencumbered : ¬∀ (w : World), tradingSystem.Reachable w →
    ∀ (c : MarketId) (u : Address), w.vault.parentDebt
      (w.vault.childParent (c, u), u, w.vault.childParentOutcome (c, u)) = 0 →
    Unencumbered w c u := by
  intro hall
  obtain ⟨w, hw, hlast⟩ := System.runs_of_decide (S := tradingSystem) (deploy sampleLaunch)
    redeemWhileLent
    (fun w => decide (w.vault.parentDebt (w.vault.childParent (2, alice), alice,
        w.vault.childParentOutcome (2, alice)) = 0 ∧
        (w.amm.pool 2).map PoolData.marketId = some 2) &&
      okWith (Amm.liquidateChildPosition (bySigner bob) w bob alice 2 .yes) (fun _ => true))
    (by decide +kernel)
  rw [Bool.and_eq_true, okWith_iff] at hlast
  obtain ⟨hsettled, r, hr, _⟩ := hlast
  obtain ⟨hsettled, hpools⟩ := of_decide_eq_true hsettled
  obtain ⟨pool, hpool, hmarket⟩ := Option.map_eq_some_iff.mp hpools
  have hreach := System.Reachable.runs (.init sample_init) redeemWhileLent hw
  have hfree := hall w hreach 2 alice hsettled
  exact hfree.liquidations (bySigner bob) bob 2 pool .yes r hpool hmarket hr

end DikeProtocol.Trading
