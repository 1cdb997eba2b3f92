import DikeProtocol.Trading.Calls
import DikeProtocol.Trading.Positions
import DikeProtocol.Vault.Agreement

/-!
# Loans over whole runs

The records of a user's loans from a market agree until a redemption settles
the market, in every run in which draws go to the stake their child records
and liquidations of children write off what they take away. While they agree,
the debt of a live stake stays within its limit and a settled loan frees its
child.
-/

namespace DikeProtocol.Trading

open Lib
open Vault (VaultOp Sane Outside Linked LoansAgree LedgersAgree SameStake ChildDefaultExact
  KeepsAgreement DrawsSameStake WithholdsNothing)

/-- What carries the records of the loans from one market through a run; they
need not agree any more once the market is given up. -/
structure Records (p : MarketId) (alive : Prop) (v : VaultState) (r : RegistryState) : Prop where
  sane : Sane v
  ordered : Registry.Ordered r
  numbered : 0 < r.nextMarketId ∧ r.market 0 = none
  linked : Linked v
  agrees : alive → ∀ u, LoansAgree v p u

/-- A market once given up stays so. -/
theorem Records.mono {p : MarketId} {alive alive' : Prop} {v : VaultState} {r : RegistryState}
    (h : Records p alive v r) (hle : alive' → alive) : Records p alive' v r :=
  { h with agrees := fun ha => h.agrees (hle ha) }

/-- A deployment has no loans. -/
theorem records_deployed (l : Launch) (p : MarketId) (alive : Prop) :
    Records p alive (deploy l).vault (deploy l).registry where
  sane := (TradeInvariant.deployed l).sane
  ordered := ⟨(TradeInvariant.deployed l).registered, (TradeInvariant.deployed l).finalResolved⟩
  numbered := ⟨Nat.one_pos, rfl⟩
  linked := (Vault.freshVault_agrees _ _ _).1
  agrees := fun _ => (Vault.freshVault_agrees _ _ _).2 p

/-- Where draws go is a condition on loans. -/
theorem drawsSameStake_aboutLoans : AboutLoans DrawsSameStake where
  quiet := by
    intro s op hquiet
    cases op with
    | openChildCreditForTrade => cases hquiet
    | _ => trivial
  fee := by
    intro s a op hop
    cases op <;> exact hop
  place := by
    intro s s' op hv _ hop
    cases op with
    | openChildCreditForTrade =>
      unfold DrawsSameStake at *
      rw [hv]
      exact hop
    | _ => trivial

/-- Keeping the records of a market in agreement is a condition on loans. -/
theorem keepsAgreement_aboutLoans (p : MarketId) : AboutLoans (fun w => KeepsAgreement w p) where
  quiet := by
    intro s op hquiet
    cases op with
    | openChildCreditForTrade | liquidateChildRelease | redeemResolved | redeemCancelled =>
      cases hquiet
    | _ => trivial
  fee := by
    intro s a op hop
    cases op <;> exact hop
  place := by
    intro s s' op hv hr hop
    cases op with
    | openChildCreditForTrade | liquidateChildRelease | redeemResolved | redeemCancelled =>
      unfold KeepsAgreement WithholdsNothing at *
      rw [hv]
      try rw [hr]
      exact hop
    | _ => trivial

namespace Records

variable {p : MarketId} {alive : Prop}

/-- An invocation of the vault that keeps the records of a market's loans keeps
what carries them. -/
theorem exec {ctx : Ctx} {w w' : World} {op : VaultOp} (hctx : Outside .vault ctx)
    (hdraws : DrawsSameStake w op) (hkeeps : alive → KeepsAgreement w p op)
    (h : op.exec ctx w = .ok w') (hr : Records p alive w.vault w.registry) :
    Records p alive w'.vault w'.registry := by
  have hregistry := vaultExec_registry h
  refine ⟨op.exec_sane hctx hr.sane h, ?_, ?_, ?_, ?_⟩
  · rw [hregistry]
    exact hr.ordered
  · rw [hregistry]
    exact hr.numbered
  · exact op.exec_linked hctx hr.sane hr.numbered.2 hdraws h hr.linked
  · intro ha u
    exact op.exec_agrees hr.sane hr.linked (hkeeps ha) h (hr.agrees ha u)

/-- Moving markets along keeps it. -/
theorem follow {v : VaultState} {r r' : RegistryState} (h : Registry.MarketsFollow r r')
    (hr : Records p alive v r) : Records p alive v r' :=
  { hr with
    ordered := h.ordered hr.ordered
    numbered := h.numbered hr.ordered hr.numbered }

end Records

/-- A step whose calls keep the records of a market's loans in agreement keeps them. -/
theorem records_step {p : MarketId} {alive : Prop} {w w' : World} (hw : TradeInvariant w)
    {i : TradeStep} (hdraws : i.AllCalls DrawsSameStake w)
    (hkeeps : alive → i.AllCalls (fun w => KeepsAgreement w p) w)
    (h : tradingSystem.step w i = .ok w') (hr : Records p alive w.vault w.registry) :
    Records p alive w'.vault w'.registry := by
  have hg := drawsSameStake_aboutLoans.and ((keepsAgreement_aboutLoans p).under alive)
  refine step_keeps (I := Records p alive) ?_ hg ?_ hw ?_ h hr
  · rintro ctx op s s' hctx ⟨hdraw, hkeep⟩ hs hexec
    exact hs.exec hctx hdraw hkeep hexec
  · intro v r r' hfollow hrec
    exact hrec.follow hfollow
  · intro ops hmakes op hop
    exact ⟨hdraws ops hmakes op hop, fun ha => hkeeps ha ops hmakes op hop⟩

/-- The markets on which a redemption has happened, after one more step. -/
def settles (done : List MarketId) : TradeStep → List MarketId
  | .call _ (.vault (.redeemResolved _ _ m _ _)) => m :: done
  | .call _ (.vault (.redeemCancelled _ _ m _ _)) => m :: done
  | _ => done

/-- Runs that remember the markets on which a redemption has happened. -/
def settlingSystem : System (World × List MarketId) TradeStep Fault :=
  tradingSystem.observed [] settles

/-- Calls that keep track of the loans from markets not yet redeemed: draws go
to the stake the child records, and a liquidated child writes off exactly what
it takes away from its parent. -/
def TracksLoans (done : List MarketId) (w : World) : VaultOp → Prop
  | .openChildCreditForTrade user _ po c _ _ => SameStake w.vault c user po
  | .liquidateChildRelease _ user _ c _ _ proceeds =>
    w.vault.childParent (c, user) ∉ done → ChildDefaultExact w.vault c user proceeds
  | _ => True

/-- Remembered redemptions are not forgotten. -/
theorem mem_settles {done : List MarketId} {i : TradeStep} {p : MarketId} (h : p ∉ settles done i) :
    p ∉ done := by
  intro hp
  apply h
  unfold settles
  split
  · exact List.mem_cons_of_mem _ hp
  · exact List.mem_cons_of_mem _ hp
  · exact hp

/-- A step redeems no market but those it settles. -/
theorem redeems_settled {w : World} {done : List MarketId} {i : TradeStep} {ops : List VaultOp}
    (h : i.Makes w ops) {op : VaultOp} (hop : op ∈ ops) {p : MarketId} (hp : p ∉ settles done i) :
    op.redeems ≠ some p := by
  cases op with
  | redeemResolved token user m o amount =>
    obtain ⟨ctx, rfl⟩ := TradeStep.of_notForMarkets h hop rfl
    intro hm
    obtain rfl := Option.some.inj hm
    exact hp List.mem_cons_self
  | redeemCancelled token user m o amount =>
    obtain ⟨ctx, rfl⟩ := TradeStep.of_notForMarkets h hop rfl
    intro hm
    obtain rfl := Option.some.inj hm
    exact hp List.mem_cons_self
  | _ => exact nofun

/-- A step that keeps track of loans keeps the records of every market that it does not settle. -/
theorem keepsAgreement_of_tracksLoans {w : World} {done : List MarketId} {i : TradeStep}
    (h : i.AllCalls (TracksLoans done) w) {p : MarketId} (hp : p ∉ settles done i) :
    i.AllCalls (fun w => KeepsAgreement w p) w := by
  intro ops hmakes op hop
  have htracks := h ops hmakes op hop
  have hredeems := redeems_settled hmakes hop hp
  cases op with
  | openChildCreditForTrade user q po c co x => exact htracks
  | liquidateChildRelease token user keeper c o sold x =>
    intro hparent
    refine htracks ?_
    rw [hparent]
    exact mem_settles hp
  | redeemResolved token user m o amount => exact fun hm => absurd (congrArg some hm) hredeems
  | redeemCancelled token user m o amount => exact fun hm => absurd (congrArg some hm) hredeems
  | _ => trivial

/-- A call that keeps track of loans draws from the stake its child records. -/
theorem TracksLoans.draws {done : List MarketId} {w : World} {op : VaultOp}
    (h : TracksLoans done w op) : DrawsSameStake w op := by
  cases op with
  | openChildCreditForTrade user q po c co x => exact h
  | _ => trivial

/-- In every run that keeps track of loans the records of a market's loans
agree, as long as nothing was redeemed there. -/
theorem records_of_tracksLoans {s : World × List MarketId}
    (h : settlingSystem.Guarded (fun s i => i.AllCalls (TracksLoans s.2) s.1) s) (p : MarketId) :
    Records p (p ∉ s.2) s.1.vault s.1.registry := by
  have hinvariant : ∀ s, settlingSystem.Guarded (fun s i => i.AllCalls (TracksLoans s.2) s.1) s →
      TradeInvariant s.1 := by
    intro s hs
    exact reachable_invariant (System.Reachable.observed hs.reachable)
  apply h.invariant_with hinvariant
  · rintro ⟨w, done⟩ ⟨⟨l, rfl⟩, _⟩
    exact records_deployed l p _
  · intro s i s' hw hr htracks hstep
    obtain ⟨hstep, hnote⟩ := System.observed_step.mp hstep
    have hdraws : i.AllCalls DrawsSameStake s.1 :=
      fun ops hmakes op hop => (htracks ops hmakes op hop).draws
    rw [hnote]
    refine records_step hw hdraws ?_ hstep (hr.mono mem_settles)
    exact fun hp => keepsAgreement_of_tracksLoans htracks hp

/-- In every run that keeps track of loans, the ledgers of every user's loans
from a market agree until the first redemption there. -/
theorem ledgersAgree_of_tracksLoans {w : World} {done : List MarketId}
    (h : settlingSystem.Guarded (fun s i => i.AllCalls (TracksLoans s.2) s.1) (w, done))
    {p : MarketId} (hp : p ∉ done) (u : Address) : LedgersAgree w.vault p u :=
  ((records_of_tracksLoans h p).agrees hp u).ledgers

/-- Plain steps keep track of loans, whatever they ask of the vault. -/
theorem tracksLoans_of_plain {i : TradeStep} (hi : i.plain = true) (done : List MarketId)
    (w : World) :
    i.AllCalls (TracksLoans done) w := by
  intro ops hmakes op hop
  have hquiet := makes_quiet hi hmakes op hop
  cases op with
  | openChildCreditForTrade | liquidateChildRelease => cases hquiet
  | _ => trivial

/-- A loan to a position of a market without a recorded parent keeps track of itself. -/
theorem tracksLoans_buyChild {w : World} {done : List MarketId} {ctx : Ctx} {u : Address}
    {p : MarketId} {po : Outcome} {poolId : ℕ} {x minOut : ℤ} {deadline : ℕ}
    (h : ∀ pool, w.amm.pool poolId = some pool → SameStake w.vault pool.marketId u po) :
    TradeStep.AllCalls (TracksLoans done) w
      (.call ctx (.amm (.buyChildYes u p po poolId x minOut deadline))) := by
  rintro ops ⟨pool, token, out, fees, hpool, rfl⟩
  simp only [fundingCalls, feeCall, List.cons_append, List.nil_append, List.forall_mem_cons]
  exact ⟨h pool hpool, trivial, fun op hop => by cases hop⟩

/-- Alice borrows 300 on market 1 for a position that had no parent before. -/
theorem aliceBorrows_runs : ∃ w0 w,
    settlingSystem.runs (deploy sampleLaunch, []) aliceStakes = .ok (w0, []) ∧
      settlingSystem.step (w0, []) aliceBorrows = .ok (w, []) ∧
      (∀ done, aliceBorrows.AllCalls (TracksLoans done) w0) ∧
      w.vault.parentDebt (1, alice, .yes) = 300 ∧
      (w.registry.market 1).map MarketData.status = some .live := by
  obtain ⟨⟨w0, done⟩, hw0, hlast⟩ := System.runs_of_decide (S := settlingSystem)
    (deploy sampleLaunch, []) aliceStakes
    (fun s => decide (s.2 = []) &&
      (s.1.amm.pool 2).all (fun pool =>
        decide (s.1.vault.childParent (pool.marketId, alice) = 0)) &&
      okWith (settlingSystem.step s aliceBorrows) (fun s' => decide (s'.2 = [] ∧
        s'.1.vault.parentDebt (1, alice, .yes) = 300 ∧
        (s'.1.registry.market 1).map MarketData.status = some .live)))
    (by decide +kernel)
  rw [Bool.and_eq_true, Bool.and_eq_true, okWith_iff] at hlast
  obtain ⟨⟨hdone, hfresh⟩, ⟨w, done'⟩, hw, hloan⟩ := hlast
  obtain rfl : done = [] := of_decide_eq_true hdone
  obtain ⟨rfl, hdebt⟩ := of_decide_eq_true hloan
  refine ⟨w0, w, hw0, hw, fun done => ?_, hdebt⟩
  apply tracksLoans_buyChild
  intro pool hpool
  rw [hpool] at hfresh
  exact Or.inl (of_decide_eq_true hfresh)

/-- What alice does before she borrows is plain. -/
theorem aliceStakes_plain {w0 : World}
    (h : settlingSystem.runs (deploy sampleLaunch, []) aliceStakes = .ok (w0, [])) :
    settlingSystem.Guarded (fun _ i => i.plain = true) (w0, []) := by
  have hplain : ∀ step ∈ aliceStakes, step.plain = true := by
    simp [aliceStakes, openMarket, TradeStep.plain]
  have hstart : settlingSystem.Guarded (fun _ i => i.plain = true) (deploy sampleLaunch, []) :=
    .init ⟨sample_init, rfl⟩
  exact hstart.runs aliceStakes hplain h

/-- Alice borrows 300, and all ledgers of her loan agree. -/
theorem ledgersAgree_of_loan : ∃ w0 w,
    settlingSystem.runs (deploy sampleLaunch, []) aliceStakes = .ok (w0, []) ∧
      settlingSystem.step (w0, []) aliceBorrows = .ok (w, []) ∧
      w.vault.parentDebt (1, alice, .yes) = 300 ∧ LedgersAgree w.vault 1 alice := by
  obtain ⟨w0, w, hw0, hw, hborrow, hdebt, _⟩ := aliceBorrows_runs
  have hrun : settlingSystem.Guarded (fun s i => i.AllCalls (TracksLoans s.2) s.1) (w0, []) :=
    (aliceStakes_plain hw0).mono (fun s i hi => tracksLoans_of_plain hi s.2 s.1)
  exact ⟨w0, w, hw0, hw, hdebt,
    ledgersAgree_of_tracksLoans (.next hrun (hborrow []) hw) List.not_mem_nil alice⟩

/-- After the partial write-off alice's stake is still used for 19 that nobody owes. -/
theorem not_always_ledgersAgree : ¬∀ (w : World) (done : List MarketId),
    settlingSystem.Reachable (w, done) → ∀ p, p ∉ done → ∀ u, LedgersAgree w.vault p u := by
  intro hall
  obtain ⟨⟨w, done⟩, hw, hlast⟩ := System.runs_of_decide (S := settlingSystem)
    (deploy sampleLaunch, []) liquidateOneOfTwo
    (fun s => s.2 = [] ∧
      s.1.vault.childUsedByOutcome (1, alice, .yes) ≠ s.1.vault.parentDebt (1, alice, .yes))
    (by decide +kernel)
  obtain ⟨rfl, hdiffer⟩ := of_decide_eq_true hlast
  have hstart : settlingSystem.Reachable (deploy sampleLaunch, []) := .init ⟨sample_init, rfl⟩
  have hreach := System.Reachable.runs hstart liquidateOneOfTwo hw
  exact hdiffer ((hall w [] hreach 1 List.not_mem_nil alice).1 .yes)

end DikeProtocol.Trading
