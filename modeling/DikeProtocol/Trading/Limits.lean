import DikeProtocol.Trading.Records
import DikeProtocol.Vault.Limits

/-!
# The credit limit over whole runs

On a live market nothing was redeemed yet. In a run that keeps track of loans,
and leaves liquidated child positions the stake their own credit needs, no
credit drawn on a live stake exceeds the limit of the stake.
-/

namespace DikeProtocol.Trading

open Lib
open Vault (VaultOp Sane Outside Linked LoansAgree SameStake KeepsAgreement KeepsLimit WithinLimit
  DrawsSameStake WithholdsNothing childAvailForOutcome defaultChildCollateralBps)
open Registry (MarketEnded MarketsFollow Ordered)

/-- A step moves the markets along, or leaves them alone. -/
theorem step_follow {w w' : World} (hw : TradeInvariant w) {i : TradeStep}
    (h : tradingSystem.step w i = .ok w') : MarketsFollow w.registry w'.registry := by
  rcases step_calls hw h with ⟨ops, hcalls, _⟩ | ⟨_, hfollow⟩
  · have hkept : w'.registry = w.registry := by
      refine hcalls.keeps (I := fun _ r => r = w.registry) ?_ rfl
      intro ctx op s s' _ _ hs hexec
      exact (vaultExec_registry hexec).trans hs
    exact Or.inl ⟨by rw [hkept], by rw [hkept]⟩
  · exact hfollow

/-- Only markets that ended are redeemed. -/
theorem ended_of_redeems {ctx : Ctx} {w w' : World} (hr : Ordered w.registry) {op : VaultOp}
    {m : MarketId} (hm : op.redeems = some m) (h : op.exec ctx w = .ok w') :
    MarketEnded w.registry m := by
  cases op with
  | redeemResolved token user m' o amount =>
    obtain rfl := Option.some.inj hm
    obtain ⟨y, h⟩ := world_ok.mp h
    obtain ⟨_, market, _, _, _, _, _, hmarket, _, hfinal, _⟩ := Vault.redeemResolved_steps h
    exact ⟨market, hmarket, Or.inl (hr.finalResolved m' market hmarket hfinal)⟩
  | redeemCancelled token user m' o amount =>
    obtain rfl := Option.some.inj hm
    obtain ⟨y, h⟩ := world_ok.mp h
    obtain ⟨_, market, _, _, _, hmarket, hstatus, _⟩ := Vault.redeemCancelled_steps h
    exact ⟨market, hmarket, Or.inr hstatus⟩
  | _ => cases hm

/-- The markets redeemed so far have ended. -/
theorem settles_ended {w w' : World} (hw : TradeInvariant w) {i : TradeStep} {done : List MarketId}
    (h : tradingSystem.step w i = .ok w') (hdone : ∀ m ∈ done, MarketEnded w.registry m) :
    ∀ m ∈ settles done i, MarketEnded w'.registry m := by
  have hr : Ordered w.registry := ⟨hw.registered, hw.finalResolved⟩
  have hfollow := step_follow hw h
  intro m hm
  refine MarketEnded.follow ?_ hr hfollow
  have hredeemed : ∀ {ctx : Ctx} {op : VaultOp} {m' : MarketId}, i = .call ctx (.vault op) →
      op.redeems = some m' → m ∈ m' :: done → MarketEnded w.registry m := by
    rintro ctx op m' rfl hredeems hm
    rcases List.mem_cons.mp hm with rfl | hm
    · obtain ⟨_, _, h⟩ := bind_ok.mp h
      obtain ⟨_, _, h⟩ := bind_ok.mp h
      exact ended_of_redeems hr hredeems h
    · exact hdone m hm
  unfold settles at hm
  split at hm
  · exact hredeemed rfl rfl hm
  · exact hredeemed rfl rfl hm
  · exact hdone m hm

/-- What a redeemed market is, and what a liquidated child leaves of its stake,
are conditions on loans. -/
theorem keepsLimit_aboutLoans (p : MarketId) :
    AboutLoans (fun w op => KeepsLimit w op ∧ op.redeems ≠ some p) where
  quiet := by
    intro s op hquiet
    cases op with
    | liquidateChildRelease | redeemResolved | redeemCancelled => cases hquiet
    | _ => exact ⟨trivial, nofun⟩
  fee := by
    intro s a op hop
    cases op <;> exact hop
  place := by
    intro s s' op hv _ hop
    refine ⟨?_, hop.2⟩
    cases op with
    | liquidateChildRelease =>
      unfold KeepsLimit at *
      rw [hv]
      exact hop.1
    | _ => trivial

/-- The records of a market's loans, and the limits its credit keeps. -/
structure Limited (p : MarketId) (alive : Prop) (v : VaultState) (r : RegistryState) : Prop where
  records : Records p alive v r
  within : alive → ∀ u o, WithinLimit v (p, u, o)

/-- A step whose calls keep records and limits of a market keeps them. -/
theorem limited_step {p : MarketId} {alive : Prop} {w w' : World} (hw : TradeInvariant w)
    {i : TradeStep} (hdraws : i.AllCalls DrawsSameStake w)
    (hkeeps : alive → i.AllCalls (fun w => KeepsAgreement w p) w)
    (hlimits : alive → i.AllCalls (fun w op => KeepsLimit w op ∧ op.redeems ≠ some p) w)
    (h : tradingSystem.step w i = .ok w') (hr : Limited p alive w.vault w.registry) :
    Limited p alive w'.vault w'.registry := by
  have hg := drawsSameStake_aboutLoans.and
    (((keepsAgreement_aboutLoans p).and (keepsLimit_aboutLoans p)).under alive)
  refine step_keeps (I := Limited p alive) ?_ hg ?_ hw ?_ h hr
  · rintro ctx op s s' hctx ⟨hdraw, hkeep⟩ hs hexec
    refine ⟨hs.records.exec hctx hdraw (fun ha => (hkeep ha).1) hexec, ?_⟩
    intro ha u o
    obtain ⟨hagrees, hlimit, hredeems⟩ := hkeep ha
    exact op.exec_withinLimit hctx hs.records.sane hs.records.linked hagrees hlimit hredeems hexec
      (hs.records.agrees ha u) (hs.within ha u o)
  · intro v r r' hfollow hs
    exact ⟨hs.records.follow hfollow, hs.within⟩
  · intro ops hmakes op hop
    exact ⟨hdraws ops hmakes op hop,
      fun ha => ⟨hkeeps ha ops hmakes op hop, hlimits ha ops hmakes op hop⟩⟩

/-- Calls that keep track of loans, and leave liquidated child positions the
stake their own credit needs. -/
def KeepsCredit (done : List MarketId) (w : World) (op : VaultOp) : Prop :=
  TracksLoans done w op ∧ KeepsLimit w op

/-- In every run of such calls, redeemed markets have ended, and the credit of
all others is within its limits. -/
theorem limited_of_keepsCredit {s : World × List MarketId}
    (h : settlingSystem.Guarded (fun s i => i.AllCalls (KeepsCredit s.2) s.1) s) (p : MarketId) :
    (∀ m ∈ s.2, MarketEnded s.1.registry m) ∧ Limited p (p ∉ s.2) s.1.vault s.1.registry := by
  have hinvariant : ∀ s, settlingSystem.Guarded (fun s i => i.AllCalls (KeepsCredit s.2) s.1) s →
      TradeInvariant s.1 := by
    intro s hs
    exact reachable_invariant (System.Reachable.observed hs.reachable)
  apply h.invariant_with hinvariant
  · rintro ⟨w, done⟩ ⟨⟨l, rfl⟩, rfl⟩
    refine ⟨fun m hm => (List.not_mem_nil hm).elim, records_deployed l p _, ?_⟩
    intro _ u o
    exact ⟨le_rfl, le_rfl⟩
  · rintro s i s' hw ⟨hended, hr⟩ hguard hstep
    obtain ⟨hstep, hnote⟩ := System.observed_step.mp hstep
    have htracks : i.AllCalls (TracksLoans s.2) s.1 :=
      fun ops hmakes op hop => (hguard ops hmakes op hop).1
    have hdraws : i.AllCalls DrawsSameStake s.1 :=
      fun ops hmakes op hop => (htracks ops hmakes op hop).draws
    rw [hnote]
    refine ⟨settles_ended hw hstep hended, limited_step hw hdraws ?_ ?_ hstep ⟨?_, ?_⟩⟩
    · exact fun hp => keepsAgreement_of_tracksLoans htracks hp
    · exact fun hp ops hmakes op hop =>
        ⟨(hguard ops hmakes op hop).2, redeems_settled hmakes hop hp⟩
    · exact hr.records.mono mem_settles
    · exact fun hp => hr.within (mem_settles hp)

/-- On every live market, debt is within use, use is within the limit, and the
credit still available is not negative. -/
theorem withinLimit_of_keepsCredit {w : World} {done : List MarketId}
    (h : settlingSystem.Guarded (fun s i => i.AllCalls (KeepsCredit s.2) s.1) (w, done))
    {p : MarketId} {market : MarketData} (hm : w.registry.market p = some market)
    (hlive : market.status = .live) (u : Address) (o : Outcome) :
    w.vault.parentDebt (p, u, o) ≤ w.vault.childUsedByOutcome (p, u, o) ∧
      w.vault.childUsedByOutcome (p, u, o) ≤
        bpsOf (w.vault.rootStake (p, u, o)) defaultChildCollateralBps ∧
      ∀ x, childAvailForOutcome w p u o = .ok x → 0 ≤ x := by
  obtain ⟨hended, hlimited⟩ := limited_of_keepsCredit h p
  have hopen : p ∉ done := by
    intro hp
    obtain ⟨market', hm', hstatus⟩ := hended p hp
    obtain rfl := Option.some.inj (hm.symm.trans hm')
    rw [hlive] at hstatus
    rcases hstatus with hk | hk <;> cases hk
  have hwithin := hlimited.within hopen u o
  exact ⟨hlimited.records.sane.parentDebt_le_used _, hwithin.2, fun x hx => hwithin.available hx⟩

/-- All calls of a plain step keep track of loans and limits. -/
theorem keepsCredit_of_plain {i : TradeStep} (hi : i.plain = true) (done : List MarketId)
    (w : World) : i.AllCalls (KeepsCredit done) w := by
  intro ops hmakes op hop
  have hlimit := (keepsLimit_aboutLoans 0).quiet w op (makes_quiet hi hmakes op hop)
  exact ⟨tracksLoans_of_plain hi done w ops hmakes op hop, hlimit.1⟩

/-- Alice borrows 300 within the limit of her stake. -/
theorem withinLimit_of_loan : ∃ w0 w,
    settlingSystem.runs (deploy sampleLaunch, []) aliceStakes = .ok (w0, []) ∧
      settlingSystem.step (w0, []) aliceBorrows = .ok (w, []) ∧
      w.vault.parentDebt (1, alice, .yes) = 300 ∧
      w.vault.childUsedByOutcome (1, alice, .yes) ≤
        bpsOf (w.vault.rootStake (1, alice, .yes)) defaultChildCollateralBps := by
  obtain ⟨w0, w, hw0, hw, hborrow, hdebt, hlive⟩ := aliceBorrows_runs
  obtain ⟨market, hm, hstatus⟩ := Option.map_eq_some_iff.mp hlive
  have hrun : settlingSystem.Guarded (fun s i => i.AllCalls (KeepsCredit s.2) s.1) (w0, []) :=
    (aliceStakes_plain hw0).mono (fun s i hi => keepsCredit_of_plain hi s.2 s.1)
  have hlimit : aliceBorrows.AllCalls KeepsLimit w0 := by
    rintro ops ⟨pool, token, out, fees, _, rfl⟩
    simp [fundingCalls, feeCall, KeepsLimit]
  have hguard : aliceBorrows.AllCalls (KeepsCredit []) w0 := fun ops hmakes op hop =>
    ⟨hborrow [] ops hmakes op hop, hlimit ops hmakes op hop⟩
  have hrun' : settlingSystem.Guarded (fun s i => i.AllCalls (KeepsCredit s.2) s.1) (w, []) :=
    .next hrun hguard hw
  exact ⟨w0, w, hw0, hw, hdebt, (withinLimit_of_keepsCredit hrun' hm hstatus alice .yes).2.1⟩

/-- Alice sells all she staked after the partial write-off. -/
def sellUsedStake : List TradeStep :=
  liquidateOneOfTwo ++ [.call (bySigner alice) (.amm (.sellYes alice 1 1873 0 1))]

/-- After the sale 300 are still drawn on a stake of nothing. -/
theorem not_always_withinLimit : ¬∀ (w : World) (done : List MarketId),
    settlingSystem.Reachable (w, done) → ∀ p market, w.registry.market p = some market →
      market.status = .live → ∀ u o,
      w.vault.parentDebt (p, u, o) ≤ w.vault.childUsedByOutcome (p, u, o) ∧
        w.vault.childUsedByOutcome (p, u, o) ≤
          bpsOf (w.vault.rootStake (p, u, o)) defaultChildCollateralBps ∧
        ∀ x, childAvailForOutcome w p u o = .ok x → 0 ≤ x := by
  intro hall
  obtain ⟨⟨w, done⟩, hw, hlast⟩ := System.runs_of_decide (S := settlingSystem)
    (deploy sampleLaunch, []) sellUsedStake
    (fun s => (s.1.registry.market 1).map MarketData.status = some .live ∧
      s.1.vault.childUsedByOutcome (1, alice, .yes) = 300 ∧
      s.1.vault.rootStake (1, alice, .yes) = 0)
    (by decide +kernel)
  obtain ⟨hlive, hused, hstake⟩ := of_decide_eq_true hlast
  obtain ⟨market, hm, hstatus⟩ := Option.map_eq_some_iff.mp hlive
  have hstart : settlingSystem.Reachable (deploy sampleLaunch, []) := .init ⟨sample_init, rfl⟩
  have hreach := System.Reachable.runs hstart sellUsedStake hw
  have hlimit := (hall w done hreach 1 market hm hstatus alice .yes).2.1
  rw [hused, hstake] at hlimit
  exact absurd hlimit (by decide)

end DikeProtocol.Trading
