import DikeProtocol.Tokens.Supply
import DikeProtocol.Trading.Calls
import DikeProtocol.Vault.Unlent

/-!
# Payouts in runs without credit

Where no step opens child credit, the backing a market's tokens record is the
backing in its books, and every redeemed token was burned. So what was paid is
what the redeemed tokens are worth, no matter who redeemed them, in which
order and in which parts, and there is always enough left for the rest.
-/

namespace DikeProtocol.Trading

open Lib
open Vault (VaultOp Outside Unlent InOrder Redeems PaidOut redemptionValue cash)

/-- Tokens redeemed so far, and what was paid for those of each market. -/
structure Redemptions where
  tokens : Store (MarketId × Outcome) ℤ
  paid : Store MarketId ℤ

namespace Redemptions

/-- Nothing was redeemed yet. -/
def none : Redemptions := ⟨.empty, .empty⟩

/-- One more redemption. -/
def add (r : Redemptions) (m : MarketId) (o : Outcome) (amount payout : ℤ) : Redemptions where
  tokens := r.tokens.set (m, o) (r.tokens (m, o) + amount)
  paid := r.paid.set m (r.paid m + payout)

/-- A redemption is recorded with what it pays, if it succeeds. -/
def note (r : Redemptions) (m : MarketId) (o : Outcome) (amount : ℤ) :
    Res (ℤ × World) → Redemptions
  | .ok (payout, _) => r.add m o amount payout
  | .error _ => r

/-- All tokens of a market that were redeemed. -/
def total (r : Redemptions) (m : MarketId) : ℤ :=
  r.tokens (m, .yes) + r.tokens (m, .no) + r.tokens (m, .invalid)

/-- What the redeemed tokens of a market are worth once it ended. -/
def worth (r : Redemptions) (m : MarketId) : Option Outcome → ℤ
  | some .yes => r.tokens (m, .yes)
  | some .no => r.tokens (m, .no)
  | some .invalid => r.total m / 2
  | .none => 0

/-- The half unit that redeemed tokens of an invalid market may leave. -/
def dust (r : Redemptions) (m : MarketId) : Option Outcome → ℤ
  | some .invalid => r.total m % 2
  | _ => 0

end Redemptions

/-- What a step adds to the record of redemptions. -/
def TradeStep.note (r : Redemptions) (w : World) : TradeStep → Redemptions
  | .call ctx (.vault (.redeemResolved token user m o amount)) =>
    r.note m o amount (Vault.redeemResolved ctx w token user m o amount)
  | .call ctx (.vault (.redeemCancelled token user m o amount)) =>
    r.note m o amount (Vault.redeemCancelled ctx w token user m o amount)
  | _ => r

/-- Runs of the four contracts, with the record of redemptions. -/
def redeemingSystem : System (World × Redemptions) TradeStep Fault :=
  tradingSystem.recorded .none TradeStep.note

/-- How a market ended, if it did. A cancelled market pays like an invalid one. -/
def verdict (r : RegistryState) (m : MarketId) : Option Outcome :=
  (r.market m).bind fun market =>
    if market.hasFinalOutcome = true then some market.finalOutcome
    else if market.status = .cancelled then some .invalid else none

/-- A verdict is the final outcome of a market, or that it was cancelled without one. -/
theorem verdict_eq {r : RegistryState} {m : MarketId} {o : Outcome} :
    verdict r m = some o ↔ ∃ market, r.market m = some market ∧
      ((market.hasFinalOutcome = true ∧ market.finalOutcome = o) ∨
        (market.hasFinalOutcome = false ∧ market.status = .cancelled ∧ o = .invalid)) := by
  unfold verdict
  rw [Option.bind_eq_some_iff]
  refine exists_congr fun market => and_congr_right fun _ => ?_
  cases market.hasFinalOutcome with
  | true => simp
  | false =>
    simp only [Bool.false_eq_true, if_false, false_and, true_and, false_or]
    split
    · next hs => simp [hs, eq_comm]
    · next hs => simp [hs]

/-- A verdict stays. -/
theorem verdict_follow {r r' : RegistryState} {m : MarketId} {o : Outcome}
    (hr : Registry.Ordered r) (hf : Registry.MarketsFollow r r') (h : verdict r m = some o) :
    verdict r' m = some o := by
  rw [verdict_eq] at h ⊢
  obtain ⟨market, hm, hended⟩ := h
  have hclosed : ∀ next, Registry.validTransition market.status next = false := by
    intro next
    rcases hended with ⟨hhas, _⟩ | ⟨_, hcancelled, _⟩
    · rw [hr.finalResolved m market hm hhas]
      rfl
    · rw [hcancelled]
      rfl
  have hkept : ∀ before after, Registry.Follows before after →
      after.collateral = before.collateral →
      (before.status = market.status ∧ before.hasFinalOutcome = market.hasFinalOutcome ∧
        before.finalOutcome = market.finalOutcome) →
      after.status = market.status ∧ after.hasFinalOutcome = market.hasFinalOutcome ∧
        after.finalOutcome = market.finalOutcome := by
    rintro before after hfollow _ ⟨hstatus, hhas, hfinal⟩
    rcases hfollow with ⟨hs, hh, hf⟩ | ⟨hv, _, _⟩ | ⟨hopen, hwaiting, _⟩
    · exact ⟨hs.trans hstatus, hh.trans hhas, hf.trans hfinal⟩
    · rw [hstatus, hclosed] at hv
      cases hv
    · rw [hhas] at hopen
      rw [hstatus] at hwaiting
      rcases hended with ⟨hdone, _⟩ | ⟨_, hcancelled, _⟩
      · rw [hdone] at hopen
        cases hopen
      · rw [hcancelled] at hwaiting
        simp at hwaiting
  obtain ⟨moved, hmoved, hs, hh, hout⟩ := hf.kept hr hkept ⟨market, hm, rfl, rfl, rfl⟩
  rw [← hs, ← hh, ← hout] at hended
  exact ⟨moved, hmoved, hended⟩

namespace Redemptions

variable {r : Redemptions} {m k : MarketId} {o final : Outcome} {x y : ℤ}

/-- Tokens redeemed after one more redemption. -/
theorem add_tokens (p : MarketId × Outcome) :
    (r.add m o x y).tokens p = r.tokens p + if p = (m, o) then x else 0 := by
  unfold add
  rw [Store.set_get]
  split
  · next hp => rw [hp]
  · rw [add_zero]

/-- What was paid after one more redemption. -/
theorem add_paid (k : MarketId) :
    (r.add m o x y).paid k = r.paid k + if k = m then y else 0 := by
  unfold add
  rw [Store.set_get]
  split
  · next hk => rw [hk]
  · rw [add_zero]

/-- A redemption adds its tokens to all those of its market. -/
theorem add_total : (r.add m o x y).total m = r.total m + x := by
  unfold total
  simp only [add_tokens, Prod.mk.injEq, true_and]
  cases o with
  | yes => simp only [reduceCtorEq, if_true, if_false]; ring
  | no => simp only [reduceCtorEq, if_true, if_false]; ring
  | invalid => simp only [reduceCtorEq, if_true, if_false]; ring

/-- Another market has what it had. -/
theorem add_other (hk : k ≠ m) (v : Option Outcome) :
    (r.add m o x y).worth k v = r.worth k v ∧ (r.add m o x y).dust k v = r.dust k v := by
  have hsame : ∀ o', (r.add m o x y).tokens (k, o') = r.tokens (k, o') := by
    intro o'
    rw [add_tokens, if_neg (fun heq => hk (Prod.mk.inj heq).1), add_zero]
  have htotal : (r.add m o x y).total k = r.total k := by
    unfold total
    rw [hsame, hsame, hsame]
  unfold worth dust
  rw [htotal, hsame, hsame]
  exact ⟨rfl, rfl⟩

/-- Redeemed tokens are worth what they add to all those redeemed before: the
half unit that those left is paid with the next odd one. -/
theorem add_worth {v : VaultState} (hdust : v.invalidDustCarry m = r.dust m (some final)) :
    (r.add m o x y).worth m (some final) =
      r.worth m (some final) + redemptionValue v m final o x := by
  cases final with
  | yes =>
    unfold worth redemptionValue
    dsimp only
    rw [add_tokens]
    simp only [Prod.mk.injEq, true_and, eq_comm]
  | no =>
    unfold worth redemptionValue
    dsimp only
    rw [add_tokens]
    simp only [Prod.mk.injEq, true_and, eq_comm]
  | invalid =>
    unfold worth redemptionValue
    unfold dust at hdust
    dsimp only at hdust ⊢
    rw [add_total, hdust]
    omega

/-- The half unit that is left after one more redemption. -/
theorem add_dust {v : VaultState} (hdust : v.invalidDustCarry m = r.dust m (some final)) :
    Vault.carryAfter v m final x m = (r.add m o x y).dust m (some final) := by
  cases final with
  | yes => exact hdust
  | no => exact hdust
  | invalid =>
    unfold Vault.carryAfter dust
    unfold dust at hdust
    dsimp only at hdust ⊢
    rw [Store.set_get_self, add_total, hdust]
    omega

end Redemptions

/-- The books agree with the record: of every market exactly the worth of its
redeemed tokens was paid, and these were burned. -/
structure Accounted (r : Redemptions) (w : World) : Prop where
  paid : ∀ m, r.paid m = r.worth m (verdict w.registry m)
  booked : ∀ m, (w.vault.accounting m).redeemed = r.paid m
  dust : ∀ m, w.vault.invalidDustCarry m = r.dust m (verdict w.registry m)
  untouched : ∀ m o, verdict w.registry m = .none → r.tokens (m, o) = 0
  noInvalid : ∀ m, r.tokens (m, .invalid) = 0
  burned : ∃ burned, Tokens.Supplied w.tokens burned ∧ ∀ k, r.tokens k ≤ burned k

/-- What a run without credit keeps, with the record of its redemptions. -/
structure PayoutInvariant (r : Redemptions) (w : World) : Prop where
  trade : TradeInvariant w
  order : InOrder w
  registryRole : w.vault.roles .registry = some (.contract .registry)
  tokensRole : w.vault.roles .tokens = some (.contract .tokens)
  matched : ∀ m, gap m w = 0
  accounted : Accounted r w

/-- Redeemed tokens are never worth more than the backing of their market. -/
theorem worth_le_backing {t : TokensState} {burned : Tokens.Burned} (ht : Tokens.Supplied t burned)
    {r : Redemptions} (hr : ∀ k, r.tokens k ≤ burned k) {m : MarketId}
    (hnone : r.tokens (m, .invalid) = 0) (final : Outcome) :
    r.worth m (some final) ≤ t.backing m := by
  have hyes := ht.yes m
  have hno := ht.no m
  have hyes0 := ht.supply_nonneg m .yes
  have hno0 := ht.supply_nonneg m .no
  have hy := hr (m, .yes)
  have hn := hr (m, .no)
  unfold Redemptions.worth
  cases final with
  | yes =>
    dsimp only
    omega
  | no =>
    dsimp only
    omega
  | invalid =>
    unfold Redemptions.total
    dsimp only
    omega

/-- Where nothing is owed, the backing in the books of a market is the one its
tokens record. -/
theorem PayoutInvariant.backing_eq {r : Redemptions} {w : World} (hs : PayoutInvariant r w)
    (m : MarketId) : (w.vault.accounting m).collateralBacking = w.tokens.backing m := by
  have hmatched := (backingMatched_iff w m).mpr (hs.matched m)
  have howed : Vault.owedTo w.vault m = 0 := by
    apply Finset.sum_eq_zero
    intro k _
    change (if k.1 = m then w.vault.parentDebt k else 0) = 0
    rw [hs.order.unlent.parentDebt, ite_self]
  unfold BackingMatched at hmatched
  rw [howed, hs.order.unlent.shortfall] at hmatched
  omega

section Redemption

variable {r : Redemptions} {w w' : World} {token : Asset} {user : Address} {m : MarketId}
  {final o : Outcome} {x y : ℤ}

/-- A redemption moves no backing, in the books or the tokens. -/
theorem redeems_gap (h : Redeems w w' token user m final o x y) (k : MarketId) :
    gap k w' = gap k w := by
  obtain ⟨called, hburn⟩ := h.burned
  have howed : Vault.owedTo w'.vault k = Vault.owedTo w.vault k := by
    unfold Vault.owedTo
    rw [h.parentDebt]
  unfold gap
  rw [positionGauge_read, positionGauge_read, burnForRedeem_backing hburn, howed,
    h.books_kept (f := VaultAccounting.collateralBacking) (fun _ _ => rfl),
    h.books_kept (f := VaultAccounting.shortfall) (fun _ _ => rfl)]

/-- A redemption pays what its tokens are worth, and the record accounts for it. -/
theorem PayoutInvariant.redeem (hs : PayoutInvariant r w)
    (hverdict : verdict w.registry m = some final) (h : Redeems w w' token user m final o x y) :
    y = redemptionValue w.vault m final o x ∧ Accounted (r.add m o x y) w' := by
  obtain ⟨called, hburn⟩ := h.burned
  obtain ⟨hx, hsub⟩ := Tokens.burnForRedeem_ok hburn
  obtain ⟨burned, hsupplied, hle⟩ := hs.accounted.burned
  have hburned := hsupplied.burn hx hsub
  have hadded : ∀ k, (r.add m o x y).tokens k ≤
      (burned.set (m, o) (burned (m, o) + x)) k := by
    intro k
    have hk := hle k
    rw [Redemptions.add_tokens, Store.set_get]
    split
    · next heq =>
      rw [heq] at hk ⊢
      omega
    · omega
  have hvalid : o ≠ .invalid := by
    rintro rfl
    have hheld := (Tokens.subBalance_ok hsub).1
    have hnone := hs.trade.noInvalid m user
    omega
  have hnone : ∀ k, (r.add m o x y).tokens (k, .invalid) = 0 := by
    intro k
    rw [Redemptions.add_tokens, if_neg (fun heq => hvalid (Prod.mk.inj heq).2.symm), add_zero]
    exact hs.accounted.noInvalid k
  have hdust := hs.accounted.dust m
  have hpaid := hs.accounted.paid m
  rw [hverdict] at hdust hpaid
  have hworth := Redemptions.add_worth (o := o) (x := x) (y := y) hdust
  have hvalue := Vault.redemptionValue_nonneg (hs.order.sane.carry m).1 hx final o
  have hfull : y = redemptionValue w.vault m final o x := by
    have hcap := worth_le_backing hburned hadded (hnone m) final
    have hbacking := hs.backing_eq m
    have hbooked := hs.accounted.booked m
    rw [burnForRedeem_backing hburn] at hcap
    refine Vault.cappedPayout_full (hs.order.bucketed m) (hs.order.unlent.shortfall m) hvalue ?_
      h.capped
    omega
  refine ⟨hfull, ?_⟩
  have hregistry := h.registry
  constructor
  · intro k
    rw [hregistry, Redemptions.add_paid]
    by_cases hk : k = m
    · rw [hk, if_pos rfl, hverdict, hworth, hpaid, hfull]
    · rw [if_neg hk, add_zero, (Redemptions.add_other hk _).1]
      exact hs.accounted.paid k
  · intro k
    have hbooked := hs.accounted.booked k
    rw [Redemptions.add_paid, ← hbooked]
    rcases h.paid with ⟨_, hbooks, _⟩ | ⟨hy, hbooks, _⟩
    · rw [hbooks, Store.set_get]
      split
      · next hk => rw [hk]; rfl
      · rw [add_zero]
    · have hzero : y = 0 := by
        rw [hfull] at hy ⊢
        exact le_antisymm hy hvalue
      rw [hbooks, hzero, ite_self, add_zero]
  · intro k
    rw [hregistry, h.carry]
    by_cases hk : k = m
    · rw [hk, hverdict, Redemptions.add_dust (o := o) (y := y) hdust]
    · rw [(Redemptions.add_other hk _).2, Vault.carryAfter_other hk]
      exact hs.accounted.dust k
  · intro k o' hopen
    rw [hregistry] at hopen
    have hk : k ≠ m := by
      rintro rfl
      rw [hverdict] at hopen
      cases hopen
    rw [Redemptions.add_tokens, if_neg (fun heq => hk (Prod.mk.inj heq).1), add_zero]
    exact hs.accounted.untouched k o' hopen
  · exact hnone
  · exact ⟨_, hburned, hadded⟩

end Redemption

/-- Steps that redeem tokens. -/
def TradeStep.redeems : TradeStep → Bool
  | .call _ (.vault (.redeemResolved _ _ _ _ _)) => true
  | .call _ (.vault (.redeemCancelled _ _ _ _ _)) => true
  | _ => false

/-- Steps that open no child credit. -/
def TradeStep.LendsNothing (w : World) (i : TradeStep) : Prop :=
  i.AllCalls (fun _ op => op.opensCredit = false) w

/-- Of its collateral, the vault holds what its own transfers leave it. -/
def TradeStep.KeepsCash (w : World) : TradeStep → Prop
  | .outside bank => ∀ token, cash w.bank token ≤ cash bank token
  | _ => True

/-- Only redemptions are recorded. -/
theorem note_same {i : TradeStep} (hi : i.redeems = false) (r : Redemptions) (w : World) :
    i.note r w = r := by
  cases i with
  | outside bank => rfl
  | call ctx op =>
    cases op with
    | vault op =>
      cases op with
      | redeemResolved | redeemCancelled => cases hi
      | _ => rfl
    | _ => rfl

/-- The calls of a step that neither lends nor redeems spare an unlent vault. -/
theorem makes_sparing {w w' : World} {i : TradeStep} (h : tradingSystem.step w i = .ok w')
    (hi : i.redeems = false) (hlends : i.LendsNothing w) {ops : List VaultOp}
    (hmakes : i.Makes w ops) :
    ∀ op ∈ ops, op.sparing = true := by
  intro op hop
  have hcredit := hlends ops hmakes op hop
  cases hfor : ForMarkets op with
  | true =>
    cases op with
    | openChildCreditForTrade => cases hcredit
    | setRole | redeemResolved | redeemCancelled => cases hfor
    | _ => rfl
  | false =>
    obtain ⟨ctx, rfl⟩ := TradeStep.of_notForMarkets hmakes hop hfor
    have hwires := (tradingSystem_call h).2.1
    cases op with
    | openChildCreditForTrade => cases hcredit
    | redeemResolved | redeemCancelled => cases hi
    | setRole => cases hwires
    | _ => rfl

/-- Tokens that move obey the law of supply, and what was burned stays burned. -/
theorem TokensMove.supplied {t t' : TokensState} {burned : Tokens.Burned} (h : TokensMove t t')
    (ht : Tokens.Supplied t burned) :
    ∃ burned', Tokens.Supplied t' burned' ∧ ∀ k, burned k ≤ burned' k := by
  cases h with
  | same hbalance hbacking => exact ⟨burned, ht.same hbalance hbacking, fun _ => le_rfl⟩
  | mint hx h => exact ⟨burned, ht.credit hx h, fun _ => le_rfl⟩
  | merge h => exact ⟨burned, ht.merge h, fun _ => le_rfl⟩
  | move hx h => exact ⟨burned, ht.move hx h, fun _ => le_rfl⟩
  | burn hx h =>
    refine ⟨_, ht.burn hx h, ?_⟩
    intro k
    rw [Store.set_get]
    split
    · next hk =>
      rw [hk]
      omega
    · exact le_rfl

namespace Accounted

variable {r : Redemptions} {w w' : World}

/-- Whatever keeps payouts, dust, markets and what was burned keeps the record right. -/
theorem kept (h : Accounted r w)
    (hredeemed : ∀ m, (w'.vault.accounting m).redeemed = (w.vault.accounting m).redeemed)
    (hcarry : w'.vault.invalidDustCarry = w.vault.invalidDustCarry)
    (hregistry : w'.registry = w.registry)
    (hburned : ∀ burned, Tokens.Supplied w.tokens burned →
      ∃ burned', Tokens.Supplied w'.tokens burned' ∧ ∀ k, burned k ≤ burned' k) :
    Accounted r w' := by
  constructor
  · rw [hregistry]
    exact h.paid
  · intro m
    rw [hredeemed]
    exact h.booked m
  · rw [hregistry, hcarry]
    exact h.dust
  · rw [hregistry]
    exact h.untouched
  · exact h.noInvalid
  · obtain ⟨burned, hsupplied, hle⟩ := h.burned
    obtain ⟨burned', hsupplied', hmore⟩ := hburned burned hsupplied
    exact ⟨burned', hsupplied', fun k => (hle k).trans (hmore k)⟩

/-- A market that ends had nothing redeemed yet. -/
theorem follow (h : Accounted r w) (hordered : Registry.Ordered w.registry) {s : RegistryState}
    (hf : Registry.MarketsFollow w.registry s) : Accounted r { w with registry := s } := by
  have hends : ∀ m, verdict s m = verdict w.registry m ∨
      (verdict w.registry m = .none ∧ ∀ v, r.worth m v = 0 ∧ r.dust m v = 0) := by
    intro m
    cases hm : verdict w.registry m with
    | some o => exact Or.inl (verdict_follow hordered hf hm)
    | none =>
      have htokens := fun o => h.untouched m o hm
      refine Or.inr ⟨rfl, ?_⟩
      intro v
      unfold Redemptions.worth Redemptions.dust Redemptions.total
      rw [htokens, htokens, htokens]
      cases v with
      | none => exact ⟨rfl, rfl⟩
      | some o => cases o <;> exact ⟨rfl, rfl⟩
  refine { h with paid := ?_, dust := ?_, untouched := ?_ }
  · intro m
    have hm := h.paid m
    rcases hends m with hsame | ⟨_, hnothing⟩
    · dsimp only
      rw [hsame]
      exact hm
    · rw [(hnothing _).1] at hm ⊢
      exact hm
  · intro m
    have hm := h.dust m
    rcases hends m with hsame | ⟨_, hnothing⟩
    · dsimp only
      rw [hsame]
      exact hm
    · rw [(hnothing _).2] at hm ⊢
      exact hm
  · intro m o hopen
    rcases hends m with hsame | ⟨hnone, _⟩
    · rw [hsame] at hopen
      exact h.untouched m o hopen
    · exact h.untouched m o hnone

end Accounted

/-- A step that redeems nothing redeems nothing of any market. -/
theorem redeemsNothing_of_not_redeems {i : TradeStep} (hi : i.redeems = false) (m : MarketId) :
    i.RedeemsNothing m := by
  cases i with
  | outside bank => trivial
  | call ctx op =>
    cases op with
    | vault op =>
      cases op with
      | redeemResolved | redeemCancelled => cases hi
      | _ => trivial
    | _ => trivial

/-- Where nothing is lent, a liquidation has nothing to write off. -/
theorem writesOffExactly_of_unlent {w : World} (hw : Unlent w.vault) (m : MarketId)
    (i : TradeStep) : i.WritesOffExactly m w := by
  cases i with
  | outside bank => trivial
  | call ctx op =>
    cases op with
    | amm op =>
      cases op with
      | liquidatePosition keeper user poolId o =>
        intro pool _ _
        rw [hw.childUsed, hw.parentDebt]
      | liquidateChildPosition keeper user poolId o =>
        intro pool _ _ proceeds _
        exact Or.inl (hw.childParent _)
      | _ => trivial
    | _ => trivial

section Steps

variable {r : Redemptions} {w w' : World} {i : TradeStep}

/-- A step that neither lends nor redeems keeps the invariant. -/
theorem PayoutInvariant.step_sparing (hs : PayoutInvariant r w) (hi : i.redeems = false)
    (hlends : i.LendsNothing w) (hcash : i.KeepsCash w) (h : tradingSystem.step w i = .ok w') :
    PayoutInvariant r w' := by
  have htrade := hs.trade.step h
  have hmatched : ∀ m, gap m w' = 0 := fun m =>
    (step_gap hs.trade (redeemsNothing_of_not_redeems hi m)
      (writesOffExactly_of_unlent hs.order.unlent m i) h).trans (hs.matched m)
  have hrest : InOrder w' ∧ w'.vault.roles = w.vault.roles ∧ Accounted r w' := by
    rcases step_acts hs.trade h with ⟨ops, hacts, hmakes⟩ | ⟨s, rfl, hfollow⟩ | ⟨bank, rfl, rfl⟩
    · have hsparing := makes_sparing h hi hlends hmakes
      apply hacts.keeps (I := fun s => InOrder s ∧ s.vault.roles = w.vault.roles ∧ Accounted r s)
      · rintro s s' hvault hregistry hbank htokens ⟨horder, hroles, haccounted⟩
        refine ⟨horder.same hvault hregistry (fun t => by rw [hbank]), ?_, ?_⟩
        · rw [hvault]
          exact hroles
        · refine haccounted.kept ?_ ?_ hregistry (fun burned hb => htokens.supplied hb)
          · intro m
            rw [hvault]
          · rw [hvault]
      · rintro ctx op s s' hop hctx ⟨horder, hroles, haccounted⟩ hexec
        have hspares := hsparing op hop
        have hregistry := vaultExec_registry hexec
        obtain ⟨hspared, htokens⟩ := op.exec_spared horder.unlent hspares hexec
        have hcredit := hlends ops hmakes op hop
        refine ⟨horder.exec hctx hcredit hregistry hexec, hspared.roles.trans hroles, ?_⟩
        refine haccounted.kept hspared.redeemed hspared.carry hregistry ?_
        intro burned hsupplied
        rw [htokens]
        exact ⟨burned, hsupplied, fun _ => le_rfl⟩
      · exact ⟨hs.order, rfl, hs.accounted⟩
    · have hordered : Registry.Ordered w.registry := ⟨hs.trade.registered, hs.trade.finalResolved⟩
      exact ⟨hs.order.withRegistry hordered hfollow, rfl, hs.accounted.follow hordered hfollow⟩
    · exact ⟨hs.order.same rfl rfl hcash, rfl, { hs.accounted with }⟩
  obtain ⟨horder, hroles, haccounted⟩ := hrest
  refine ⟨htrade, horder, ?_, ?_, hmatched, haccounted⟩
  · rw [hroles]
    exact hs.registryRole
  · rw [hroles]
    exact hs.tokensRole

/-- What a redemption can do to the state: redeem at the verdict of its market. -/
theorem PayoutInvariant.redeems (hs : PayoutInvariant r w) {ctx : Ctx} {token : Asset}
    {user : Address} {m : MarketId} {o : Outcome} {x y : ℤ}
    (h : Vault.redeemResolved ctx w token user m o x = .ok (y, w') ∨
      Vault.redeemCancelled ctx w token user m o x = .ok (y, w')) :
    ∃ final, verdict w.registry m = some final ∧ Redeems w w' token user m final o x y := by
  rcases h with h | h
  · obtain ⟨market, hm, hhas, _, hredeems⟩ :=
      Vault.redeemResolved_unlent hs.order.sane hs.order.unlent h
    exact ⟨_, verdict_eq.mpr ⟨market, hm, Or.inl ⟨hhas, rfl⟩⟩, hredeems⟩
  · obtain ⟨market, hm, hstatus, _, hredeems⟩ :=
      Vault.redeemCancelled_unlent hs.order.sane hs.order.unlent h
    have hhas : market.hasFinalOutcome = false := by
      rw [← Bool.not_eq_true]
      intro hhas
      have hresolved := hs.trade.finalResolved m market hm hhas
      rw [hstatus] at hresolved
      cases hresolved
    exact ⟨_, verdict_eq.mpr ⟨market, hm, Or.inr ⟨hhas, hstatus, rfl⟩⟩, hredeems⟩

/-- A redemption keeps the invariant, with its own entry in the record. -/
theorem PayoutInvariant.step_redeem (hs : PayoutInvariant r w) {ctx : Ctx} {op : VaultOp}
    {token : Asset} {user : Address} {m : MarketId} {o : Outcome} {x y : ℤ}
    (h : tradingSystem.step w (.call ctx (.vault op)) = .ok w') (hcredit : op.opensCredit = false)
    (hredeem : Vault.redeemResolved ctx w token user m o x = .ok (y, w') ∨
      Vault.redeemCancelled ctx w token user m o x = .ok (y, w')) :
    PayoutInvariant (r.add m o x y) w' := by
  have htrade := hs.trade.step h
  obtain ⟨hctx, _, h⟩ := tradingSystem_call h
  obtain ⟨final, hverdict, hredeems⟩ := hs.redeems hredeem
  refine ⟨htrade, hs.order.exec hctx.2.1 hcredit (vaultExec_registry h) h, ?_, ?_, ?_,
    (hs.redeem hverdict hredeems).2⟩
  · rw [hredeems.roles]
    exact hs.registryRole
  · rw [hredeems.roles]
    exact hs.tokensRole
  · intro k
    exact (redeems_gap hredeems k).trans (hs.matched k)

/-- Every step that opens no credit keeps the invariant. -/
theorem PayoutInvariant.step (hs : PayoutInvariant r w) (hlends : i.LendsNothing w)
    (hcash : i.KeepsCash w) (h : tradingSystem.step w i = .ok w') :
    PayoutInvariant (i.note r w) w' := by
  cases hi : i.redeems with
  | false =>
    rw [note_same hi]
    exact hs.step_sparing hi hlends hcash h
  | true =>
    cases i with
    | outside bank => cases hi
    | call ctx op =>
      cases op with
      | vault op =>
        cases op with
        | redeemResolved token user m o x =>
          obtain ⟨y, hredeem⟩ := world_ok.mp (tradingSystem_call h).2.2
          have hstep := hs.step_redeem h rfl (Or.inl hredeem)
          unfold TradeStep.note
          dsimp only
          rw [hredeem]
          exact hstep
        | redeemCancelled token user m o x =>
          obtain ⟨y, hredeem⟩ := world_ok.mp (tradingSystem_call h).2.2
          have hstep := hs.step_redeem h rfl (Or.inr hredeem)
          unfold TradeStep.note
          dsimp only
          rw [hredeem]
          exact hstep
        | _ => cases hi
      | _ => cases hi

end Steps

/-- A deployment has nothing redeemed, nothing lent and nothing to cover. -/
theorem payoutInvariant_deployed (l : Launch) : PayoutInvariant .none (deploy l) where
  trade := .deployed l
  order := {
    sane := Vault.freshVault_sane _ _ _
    unlent := ⟨fun _ => rfl, fun _ => rfl, fun _ => rfl, fun _ => rfl, fun _ => rfl, fun _ => rfl,
      fun _ => rfl⟩
    bucketed := fun _ => Vault.bucket_zero
    bonds := {
      left_nonneg := by
        intro k left hk
        cases hk
      booked := by
        intro m d
        cases d with
        | true => rfl
        | false => rfl }
    cashHeld := by
      intro col hcol
      refine ⟨⟨Vault.freshVault_sane _ _ _, hcol, ?_, ?_, ?_⟩, ?_⟩
      · intro c u hdebt
        exact absurd hdebt (lt_irrefl 0)
      · intro p u o c hc
        cases hc
      · intro k t hk
        cases hk
      · intro token
        exact (deploy l).bank.nonneg _ }
  registryRole := rfl
  tokensRole := rfl
  matched := fun _ => rfl
  accounted := {
    paid := fun _ => rfl
    booked := fun _ => rfl
    dust := fun _ => rfl
    untouched := fun _ _ _ => rfl
    noInvalid := fun _ => rfl
    burned := ⟨.empty, Tokens.freshTokens_supplied _ _, fun _ => le_rfl⟩ }

/-- Every run without credit keeps the invariant. -/
theorem payoutInvariant_of_run {s : World × Redemptions}
    (h : redeemingSystem.Guarded (fun s i => i.LendsNothing s.1 ∧ i.KeepsCash s.1) s) :
    PayoutInvariant s.2 s.1 := by
  refine h.invariant (I := fun s => PayoutInvariant s.2 s.1) ?_ ?_
  · rintro ⟨w, r⟩ ⟨⟨l, rfl⟩, rfl⟩
    exact payoutInvariant_deployed l
  · rintro s i s' hs ⟨hlends, hcash⟩ hstep
    obtain ⟨hstep, hnote⟩ := System.recorded_step.mp hstep
    rw [hnote]
    exact hs.step hlends hcash hstep

/-- How an invocation ends for lack of funds: a token refuses the transfer, or
the books do not cover an amount. -/
def LacksFunds (f : Fault) : Prop := f = .trap ∨ f = .error .insufficientCollateral

instance (f : Fault) : Decidable (LacksFunds f) := inferInstanceAs (Decidable (_ ∨ _))

/-- The fault of arithmetic that leaves its range. -/
abbrev overflow : Fault := .error .arithmeticError

section Faults

variable {f : Fault} {ctx : Ctx} {x y : ℤ}

theorem checked_onlyOverflow (hf : overflow ≠ f) : Avoids f (checked x) := by
  simp [checked, hf]

theorem grossPayout_onlyOverflow (hf : overflow ≠ f) {v : VaultState} {m : MarketId}
    {final o : Outcome} : Avoids f (Vault.grossPayout v m final o x) := by
  cases final with
  | yes => exact avoids_ok _
  | no => exact avoids_ok _
  | invalid =>
    simp [Vault.grossPayout, Vault.refundWithCarry, invalidRefund, checkedAdd, checkedSub,
      checkedDiv, checked, hf]

theorem addRedeemed_onlyOverflow (hf : overflow ≠ f) {v : VaultState} {m : MarketId}
    {user : Address} {o : Outcome} : Avoids f (Vault.addRedeemed v m user o x) := by
  simp [Vault.addRedeemed, Vault.addTo, checkedAdd, checked, hf]

theorem retireClaim_onlyOverflow (hf : overflow ≠ f) {v : VaultState} {m : MarketId}
    {user : Address} {o : Outcome} : Avoids f (Vault.retireClaim v m user o x) := by
  simp [Vault.retireClaim, Vault.saturatingSub, checkedSub, checked, hf]

/-- The cap lowers a claim, and refuses none. -/
theorem cappedPayout_onlyOverflow (hf : overflow ≠ f) {v : VaultState} (hv : Unlent v)
    {m : MarketId} : Avoids f (Vault.cappedPayout v m x) := by
  simp [Vault.cappedPayout, Vault.haircut, hv.shortfall, checkedSub, checked, hf]

theorem withholdParentDebt_avoids {v : VaultState} (hv : Unlent v) {m : MarketId} {user : Address}
    {o : Outcome} : Avoids f (Vault.withholdParentDebt v m user o x y) := by
  simp [Vault.withholdParentDebt, hv.parentDebt]

/-- Nor does it change anything to withhold what nobody owes. -/
theorem withholdParentDebt_same {v v' : VaultState} (hv : Unlent v) {m : MarketId} {user : Address}
    {o : Outcome} {withheld : ℤ}
    (h : Vault.withholdParentDebt v m user o x y = .ok (withheld, v')) :
    v' = v := by
  unfold Vault.withholdParentDebt at h
  dsimp only at h
  rw [hv.parentDebt, if_neg (lt_irrefl _)] at h
  exact (Prod.mk.inj (ok_ok.mp h)).2.symm

/-- The settlement of a redemption refuses none. -/
theorem settleResolved_onlyOverflow (hf : overflow ≠ f) {v : VaultState} (hw : Vault.Sane v)
    (hv : Unlent v) (hpos : 0 < x) {m : MarketId} {user : Address} {final o : Outcome} :
    Avoids f (Vault.settleResolved v m user final o x) := by
  refine avoids_bind.mpr ⟨grossPayout_onlyOverflow hf, ?_⟩
  rintro ⟨gross, v1⟩ h1
  obtain ⟨_, _, rfl⟩ := Vault.grossPayout_eq hw hpos h1
  refine avoids_bind.mpr ⟨addRedeemed_onlyOverflow hf, ?_⟩
  intro v2 h2
  have hcounted : Unlent v2 := by
    rw [Vault.addRedeemed_ok h2]
    exact { hv with }
  rw [hcounted.repayUpstream_eq]
  refine avoids_bind.mpr ⟨avoids_ok _, ?_⟩
  rintro ⟨paid, v3⟩ h3
  obtain ⟨rfl, rfl⟩ := Prod.mk.inj (ok_ok.mp h3)
  refine avoids_bind.mpr ⟨checked_onlyOverflow hf, ?_⟩
  intro claim hclaim
  refine avoids_bind.mpr ⟨withholdParentDebt_avoids hcounted, ?_⟩
  rintro ⟨withheld, v4⟩ h4
  obtain rfl := withholdParentDebt_same hcounted h4
  refine avoids_bind.mpr ⟨checked_onlyOverflow hf, ?_⟩
  intro remaining _
  refine avoids_bind.mpr ⟨cappedPayout_onlyOverflow hf hcounted, ?_⟩
  intro payout _
  exact avoids_pure _

/-- Nor does the settlement in a cancelled market. -/
theorem settleCancelled_onlyOverflow (hf : overflow ≠ f) {v : VaultState} (hw : Vault.Sane v)
    (hv : Unlent v) (hpos : 0 < x) {m : MarketId} {user : Address} {o : Outcome} :
    Avoids f (Vault.settleCancelled v m user o x) := by
  have hrefunded : Avoids f (Vault.grossPayout v m .invalid o x) := grossPayout_onlyOverflow hf
  refine avoids_bind.mpr ⟨hrefunded, ?_⟩
  rintro ⟨gross, v1⟩ h1
  have hrefund : Vault.grossPayout v m .invalid o x = .ok (gross, v1) := h1
  have hcarried : Unlent v1 := by
    obtain ⟨_, _, rfl⟩ := Vault.grossPayout_eq hw hpos hrefund
    exact { hv with }
  refine avoids_bind.mpr ⟨withholdParentDebt_avoids hcarried, ?_⟩
  rintro ⟨withheld, v2⟩ h2
  obtain rfl := withholdParentDebt_same hcarried h2
  refine avoids_bind.mpr ⟨checked_onlyOverflow hf, ?_⟩
  intro remaining _
  refine avoids_bind.mpr ⟨cappedPayout_onlyOverflow hf hcarried, ?_⟩
  intro payout _
  exact avoids_pure _

/-- The vault pays what it has. -/
theorem payRedemption_onlyOverflow (hf : overflow ≠ f) {w : World} {token : Asset} {user : Address}
    {m : MarketId} (hcash : y ≤ cash w.bank token) :
    Avoids f (Vault.payRedemption ctx w token user m y) := by
  unfold Vault.payRedemption
  rw [avoids_ite]
  refine ⟨?_, fun _ => avoids_ok _⟩
  intro hpos
  refine avoids_bind.mpr ⟨checked_onlyOverflow hf, ?_⟩
  intro redeemed _
  refine avoids_bind.mpr ⟨checked_onlyOverflow hf, ?_⟩
  intro refundable _
  refine avoids_bind.mpr ⟨by simp [requireAuth], ?_⟩
  intro _ _
  refine avoids_bind.mpr ⟨?_, fun _ _ => avoids_pure _⟩
  unfold Bank.transfer
  rw [dif_pos ⟨by omega, hcash⟩]
  exact avoids_ok _

end Faults

/-- The checks of a redemption that do not raise a fault: who asks for it, how
much, in which token, and whether the tokens are there to be burned. -/
structure ChecksAvoid (f : Fault) (ctx : Ctx) (w : World) (token : Asset) (user : Address)
    (m : MarketId) (o : Outcome) (x : ℤ) : Prop where
  auth : Avoids f (requireAuth ctx user)
  amount : Avoids f (refuse (x ≤ 0) (.error .invalidAmount))
  calls : ∀ target, target = .registry ∨ target = .tokens →
    Avoids f (ctx.call .vault (.contract target) target)
  market : Avoids f (Registry.getMarket w.registry m)
  collateral : ∀ market, w.registry.market m = some market →
    Avoids f (refuse (token ≠ market.collateral) (.error .unsupportedCollateral))
  burn : ∀ called, ctx.call .vault (.contract .tokens) .tokens = .ok called →
    Avoids f (Tokens.burnForRedeem called w.tokens user m o x)

section Payouts

variable {r : Redemptions} {w : World} {ctx : Ctx} {token : Asset} {user : Address} {m : MarketId}
  {o : Outcome} {x : ℤ} {f : Fault}

/-- What the cap leaves of a claim is in the vault. -/
theorem PayoutInvariant.capped_le_cash (hs : PayoutInvariant r w) {market : MarketData}
    (hm : w.registry.market m = some market) {y : ℤ} (h : Vault.cappedPayout w.vault m x = .ok y) :
    y ≤ cash w.bank market.collateral := by
  have hcash := hs.order.remaining_le_cash hm
  rcases Vault.cappedPayout_bounds h with hzero | hle
  · rw [hzero]
    exact w.bank.nonneg _
  · exact hle.trans hcash

/-- Beyond its checks, a redemption in a resolved market fails by overflow only. -/
theorem PayoutInvariant.redeemResolved_avoids (hs : PayoutInvariant r w) (hf : overflow ≠ f)
    (hchecks : ChecksAvoid f ctx w token user m o x)
    (hfinal : Avoids f (Registry.getFinalOutcome w.registry m)) :
    Avoids f (Vault.redeemResolved ctx w token user m o x) := by
  refine avoids_bind.mpr ⟨hchecks.auth, ?_⟩
  intro _ _
  refine avoids_bind.mpr ⟨hchecks.amount, ?_⟩
  intro _ hamount
  have hpos : 0 < x := not_le.mp (refuse_ok.mp hamount)
  rw [readRole_ok.mpr hs.registryRole]
  refine avoids_bind.mpr ⟨avoids_ok _, ?_⟩
  rintro _ hregistry
  obtain rfl := ok_ok.mp hregistry
  rw [readRole_ok.mpr hs.tokensRole]
  refine avoids_bind.mpr ⟨avoids_ok _, ?_⟩
  rintro _ htokens
  obtain rfl := ok_ok.mp htokens
  refine avoids_bind.mpr ⟨hchecks.calls .registry (Or.inl rfl), ?_⟩
  intro _ _
  refine avoids_bind.mpr ⟨hchecks.market, ?_⟩
  intro market hmarket
  have hm := Registry.getMarket_ok.mp hmarket
  refine avoids_bind.mpr ⟨hchecks.collateral market hm, ?_⟩
  intro _ hcollateral
  obtain rfl := not_not.mp (refuse_ok.mp hcollateral)
  refine avoids_bind.mpr ⟨hfinal, ?_⟩
  intro final _
  refine avoids_bind.mpr ⟨settleResolved_onlyOverflow hf hs.order.sane hs.order.unlent hpos, ?_⟩
  rintro ⟨gross, payout, v⟩ hsettle
  have hcapped := (Vault.settleResolved_unlent hs.order.sane hs.order.unlent hpos hsettle).1
  refine avoids_bind.mpr ⟨hchecks.calls .tokens (Or.inr rfl), ?_⟩
  intro called hcalled
  refine avoids_bind.mpr ⟨hchecks.burn called hcalled, ?_⟩
  intro t _
  refine avoids_bind.mpr ⟨retireClaim_onlyOverflow hf, ?_⟩
  intro v' _
  refine avoids_bind.mpr ⟨payRedemption_onlyOverflow hf (hs.capped_le_cash hm hcapped), ?_⟩
  intro _ _
  exact avoids_pure _

/-- So does one in a cancelled market. -/
theorem PayoutInvariant.redeemCancelled_avoids (hs : PayoutInvariant r w) (hf : overflow ≠ f)
    (hchecks : ChecksAvoid f ctx w token user m o x)
    (hcancelled : ∀ market, w.registry.market m = some market →
      Avoids f (refuse (market.status ≠ .cancelled ∨ token ≠ market.collateral)
        (.error .invalidStatus))) :
    Avoids f (Vault.redeemCancelled ctx w token user m o x) := by
  refine avoids_bind.mpr ⟨hchecks.auth, ?_⟩
  intro _ _
  refine avoids_bind.mpr ⟨hchecks.amount, ?_⟩
  intro _ hamount
  have hpos : 0 < x := not_le.mp (refuse_ok.mp hamount)
  refine avoids_bind.mpr ⟨?_, ?_⟩
  · unfold Vault.marketData
    rw [readRole_ok.mpr hs.registryRole]
    refine avoids_bind.mpr ⟨avoids_ok _, ?_⟩
    rintro _ hregistry
    obtain rfl := ok_ok.mp hregistry
    exact avoids_bind.mpr ⟨hchecks.calls .registry (Or.inl rfl), fun _ _ => hchecks.market⟩
  intro market hmarket
  have hm := Vault.marketData_ok hmarket
  refine avoids_bind.mpr ⟨hcancelled market hm, ?_⟩
  intro _ hstatus
  obtain rfl := not_not.mp (not_or.mp (refuse_ok.mp hstatus)).2
  rw [readRole_ok.mpr hs.tokensRole]
  refine avoids_bind.mpr ⟨avoids_ok _, ?_⟩
  rintro _ htokens
  obtain rfl := ok_ok.mp htokens
  refine avoids_bind.mpr ⟨hchecks.calls .tokens (Or.inr rfl), ?_⟩
  intro called hcalled
  refine avoids_bind.mpr ⟨hchecks.burn called hcalled, ?_⟩
  intro t _
  refine avoids_bind.mpr ⟨settleCancelled_onlyOverflow hf hs.order.sane hs.order.unlent hpos, ?_⟩
  rintro ⟨payout, v⟩ hsettle
  have hcapped := (Vault.settleCancelled_unlent hs.order.sane hs.order.unlent hpos hsettle).1
  refine avoids_bind.mpr ⟨payRedemption_onlyOverflow hf (hs.capped_le_cash hm hcapped), ?_⟩
  intro _ _
  exact avoids_pure _

/-- No check of a redemption is about funds. -/
theorem checksAvoid_of_lacksFunds (hf : LacksFunds f) : ChecksAvoid f ctx w token user m o x := by
  constructor
  · rcases hf with rfl | rfl <;> simp [requireAuth]
  · rcases hf with rfl | rfl <;> simp
  · intro target _
    rcases hf with rfl | rfl <;> simp [Ctx.call]
  · rcases hf with rfl | rfl <;> simp [Registry.getMarket, Registry.readMarket]
  · intro market _
    rcases hf with rfl | rfl <;> simp
  · intro called _
    rcases hf with rfl | rfl <;>
      simp [Tokens.burnForRedeem, requireRole, requireAuth, Tokens.subBalance, checkedSub, checked]

/-- No redemption in a resolved market fails for lack of funds. -/
theorem PayoutInvariant.redeemResolved_funded (hs : PayoutInvariant r w) (hf : LacksFunds f) :
    Avoids f (Vault.redeemResolved ctx w token user m o x) := by
  apply hs.redeemResolved_avoids ?_ (checksAvoid_of_lacksFunds hf)
  · rcases hf with rfl | rfl <;> simp [Registry.getFinalOutcome, Registry.readMarket]
  · rcases hf with rfl | rfl <;> decide

/-- Nor does one in a cancelled market. -/
theorem PayoutInvariant.redeemCancelled_funded (hs : PayoutInvariant r w) (hf : LacksFunds f) :
    Avoids f (Vault.redeemCancelled ctx w token user m o x) := by
  apply hs.redeemCancelled_avoids ?_ (checksAvoid_of_lacksFunds hf)
  · intro market _
    rcases hf with rfl | rfl <;> simp
  · rcases hf with rfl | rfl <;> decide

/-- A holder who authorizes it asks to redeem tokens of theirs, for the collateral
of the market, and not from inside the contracts that redeem them. -/
structure HolderAsks (ctx : Ctx) (w : World) (token : Asset) (user : Address) (m : MarketId)
    (o : Outcome) (x : ℤ) : Prop where
  auth : user ∈ ctx.signers ∨ ctx.callers.head? = some user
  outside : Address.contract .registry ∉ ctx.callers ∧ Address.contract .tokens ∉ ctx.callers
  positive : 0 < x
  held : x ≤ w.tokens.balance (m, user, o)
  market : ∃ market, w.registry.market m = some market ∧ token = market.collateral

/-- Whoever asks so passes the checks. -/
theorem PayoutInvariant.checksAvoid (hs : PayoutInvariant r w) (hf : overflow ≠ f)
    (h : HolderAsks ctx w token user m o x) : ChecksAvoid f ctx w token user m o x := by
  obtain ⟨market, hm, rfl⟩ := h.market
  constructor
  · simp [requireAuth, h.auth]
  · simp [h.positive]
  · rintro target (rfl | rfl)
    · simp [Ctx.call, h.outside.1]
    · simp [Ctx.call, h.outside.2]
  · simp [Registry.getMarket, Registry.readMarket, hm]
  · intro stored hstored
    obtain rfl := Option.some.inj (hm.symm.trans hstored)
    simp
  · intro called hcalled
    obtain ⟨_, _, rfl⟩ := Ctx.call_ok.mp hcalled
    have hheld := not_lt.mpr h.held
    simp [Tokens.burnForRedeem, requireRole, requireAuth, hs.trade.tokensVault, orFault_ok,
      h.positive, Tokens.subBalance, hheld, checkedSub, checked, hf]

/-- A holder who asks for it redeems tokens of a resolved market, short of an overflow. -/
theorem PayoutInvariant.redeemResolved_holder (hs : PayoutInvariant r w)
    (h : HolderAsks ctx w token user m o x) {final : Outcome}
    (hfinal : Registry.MarketFinal w.registry m final) :
    (∃ y w', Vault.redeemResolved ctx w token user m o x = .ok (y, w')) ∨
      Vault.redeemResolved ctx w token user m o x = .error overflow := by
  obtain ⟨market, hm, _, hhas, hout⟩ := hfinal
  rcases ok_or_of_avoids (fun f hf => hs.redeemResolved_avoids hf (hs.checksAvoid hf h)
    (by rw [Registry.getFinalOutcome_ok.mpr ⟨market, hm, hhas, hout⟩]; exact avoids_ok _))
    with ⟨⟨y, w'⟩, hdone⟩ | hfails
  · exact Or.inl ⟨y, w', hdone⟩
  · exact Or.inr hfails

/-- And of a cancelled one. -/
theorem PayoutInvariant.redeemCancelled_holder (hs : PayoutInvariant r w)
    (h : HolderAsks ctx w token user m o x)
    (hcancelled : ∃ market, w.registry.market m = some market ∧ market.status = .cancelled) :
    (∃ y w', Vault.redeemCancelled ctx w token user m o x = .ok (y, w')) ∨
      Vault.redeemCancelled ctx w token user m o x = .error overflow := by
  obtain ⟨market, hm, hstatus⟩ := hcancelled
  obtain ⟨market', hm', rfl⟩ := h.market
  obtain rfl := Option.some.inj (hm.symm.trans hm')
  have hpasses : ∀ f : Fault, ∀ stored, w.registry.market m = some stored → Avoids f
      (refuse (stored.status ≠ .cancelled ∨ market.collateral ≠ stored.collateral)
        (.error .invalidStatus)) := by
    intro f stored hstored
    obtain rfl := Option.some.inj (hm.symm.trans hstored)
    simp [hstatus]
  rcases ok_or_of_avoids (fun f hf => hs.redeemCancelled_avoids hf (hs.checksAvoid hf h)
    (hpasses f)) with ⟨⟨y, w'⟩, hdone⟩ | hfails
  · exact Or.inl ⟨y, w', hdone⟩
  · exact Or.inr hfails

end Payouts

/-- A market pays in full: its redemptions pay what the tokens are worth, what
they paid together is the worth of all redeemed tokens, and funds never lack. -/
structure PaysInFull (r : Redemptions) (w : World) (m : MarketId) : Prop where
  /-- Where yes or no won, a winning token pays one unit and a losing one nothing. -/
  wins : ∀ final, final ≠ .invalid → Registry.MarketFinal w.registry m final →
    ∀ ctx token user o x y w', Vault.redeemResolved ctx w token user m o x = .ok (y, w') →
      y = (if o = final then x else 0) ∧ PaidOut w w' token user m y
  /-- So all winning tokens redeemed so far were paid, and nothing else was. -/
  winnings : ∀ final, final ≠ .invalid → Registry.MarketFinal w.registry m final →
    r.paid m = r.tokens (m, final)
  /-- An invalid or cancelled market paid half of all tokens redeemed so far, rounded down. -/
  halves : (Registry.MarketFinal w.registry m .invalid ∨
      ∃ market, w.registry.market m = some market ∧ market.status = .cancelled) →
    r.paid m = r.total m / 2 ∧
      (w.vault.invalidDustCarry m = 0 ∨ w.vault.invalidDustCarry m = 1)
  /-- No redemption fails for lack of funds. -/
  funded : ∀ ctx token user o x f, LacksFunds f →
    Avoids f (Vault.redeemResolved ctx w token user m o x) ∧
      Avoids f (Vault.redeemCancelled ctx w token user m o x)
  /-- A holder who asks for it is paid, unless a number leaves its range. -/
  pays : ∀ ctx token user o x, HolderAsks ctx w token user m o x →
    (∀ final, Registry.MarketFinal w.registry m final →
      (∃ y w', Vault.redeemResolved ctx w token user m o x = .ok (y, w')) ∨
        Vault.redeemResolved ctx w token user m o x = .error overflow) ∧
    ((∃ market, w.registry.market m = some market ∧ market.status = .cancelled) →
      (∃ y w', Vault.redeemCancelled ctx w token user m o x = .ok (y, w')) ∨
        Vault.redeemCancelled ctx w token user m o x = .error overflow)
  /-- No redemption is capped. -/
  uncapped : ∀ final, verdict w.registry m = some final → ∀ ctx token user o x y w',
    (Vault.redeemResolved ctx w token user m o x = .ok (y, w') ∨
      Vault.redeemCancelled ctx w token user m o x = .ok (y, w')) →
    y = redemptionValue w.vault m final o x ∧ PaidOut w w' token user m y

/-- The final outcome of a market is its verdict. -/
theorem verdict_of_final {r : RegistryState} {m : MarketId} {final : Outcome}
    (h : Registry.MarketFinal r m final) : verdict r m = some final := by
  obtain ⟨market, hm, _, hhas, hfinal⟩ := h
  exact verdict_eq.mpr ⟨market, hm, Or.inl ⟨hhas, hfinal⟩⟩

/-- What the invariant says about one market. -/
theorem PayoutInvariant.paysInFull {r : Redemptions} {w : World} (hs : PayoutInvariant r w)
    (m : MarketId) : PaysInFull r w m := by
  have huncapped : ∀ final, verdict w.registry m = some final → ∀ ctx token user o x y w',
      (Vault.redeemResolved ctx w token user m o x = .ok (y, w') ∨
        Vault.redeemCancelled ctx w token user m o x = .ok (y, w')) →
      y = redemptionValue w.vault m final o x ∧ PaidOut w w' token user m y := by
    intro final hverdict ctx token user o x y w' hredeem
    obtain ⟨final', hverdict', hredeems⟩ := hs.redeems hredeem
    obtain rfl := Option.some.inj (hverdict.symm.trans hverdict')
    exact ⟨(hs.redeem hverdict hredeems).1, hredeems.paid⟩
  refine ⟨?_, ?_, ?_, ?_, ?_, huncapped⟩
  · intro final hvalid hfinal ctx token user o x y w' hredeem
    obtain ⟨hvalue, hpaid⟩ :=
      huncapped final (verdict_of_final hfinal) ctx token user o x y w' (Or.inl hredeem)
    refine ⟨?_, hpaid⟩
    rw [hvalue]
    cases final with
    | yes => rfl
    | no => rfl
    | invalid => exact absurd rfl hvalid
  · intro final hvalid hfinal
    rw [hs.accounted.paid m, verdict_of_final hfinal]
    cases final with
    | yes => rfl
    | no => rfl
    | invalid => exact absurd rfl hvalid
  · intro hended
    have hverdict : verdict w.registry m = some .invalid := by
      rcases hended with hfinal | ⟨market, hm, hstatus⟩
      · exact verdict_of_final hfinal
      · refine verdict_eq.mpr ⟨market, hm, Or.inr ⟨?_, hstatus, rfl⟩⟩
        rw [← Bool.not_eq_true]
        intro hhas
        have hresolved := hs.trade.finalResolved m market hm hhas
        rw [hstatus] at hresolved
        cases hresolved
    have hpaid := hs.accounted.paid m
    have hcarry := hs.order.sane.carry m
    rw [hverdict] at hpaid
    exact ⟨hpaid, by omega⟩
  · intro ctx token user o x f hf
    exact ⟨hs.redeemResolved_funded hf, hs.redeemCancelled_funded hf⟩
  · intro ctx token user o x hasks
    exact ⟨fun final hfinal => hs.redeemResolved_holder hasks hfinal,
      fun hcancelled => hs.redeemCancelled_holder hasks hcancelled⟩

/-- In every run without credit every market pays in full, whoever redeems, in
whatever order and parts. -/
theorem full_payout {s : World × Redemptions}
    (h : redeemingSystem.Guarded (fun s i => i.LendsNothing s.1 ∧ i.KeepsCash s.1) s)
    (m : MarketId) : PaysInFull s.2 s.1 m :=
  (payoutInvariant_of_run h).paysInFull m

/-- Plain steps lend nothing. -/
theorem lendsNothing_of_plain {i : TradeStep} (hi : i.plain = true) (w : World) :
    i.LendsNothing w := by
  intro ops hmakes op hop
  have hquiet := makes_quiet hi hmakes op hop
  cases op with
  | openChildCreditForTrade => cases hquiet
  | _ => rfl

/-- An invocation of the vault lends nothing unless it opens credit. -/
theorem lendsNothing_of_vault {ctx : Ctx} {op : VaultOp} (hop : op.opensCredit = false)
    (w : World) :
    (TradeStep.call ctx (.vault op)).LendsNothing w := by
  intro ops hmakes op' hop'
  obtain rfl : ops = [op] := hmakes
  rw [List.mem_singleton.mp hop']
  exact hop

/-- Alice buys, market 1 is cancelled, and she redeems her tokens in odd parts. -/
def cancelThenRedeem : List TradeStep :=
  openMarket 1 10000 ++
    [.call (bySigner alice) (.amm (.buyYes alice 1 1000 0 1)),
      .call (bySigner (.account 2)) (.registry (.cancelMarket 1)),
      .call (bySigner alice) (.vault (.redeemCancelled sampleToken alice 1 .yes 3)),
      .call (bySigner alice) (.vault (.redeemCancelled sampleToken alice 1 .yes 5)),
      .call (bySigner alice) (.vault (.redeemCancelled sampleToken alice 1 .yes 7))]

/-- For 15 tokens in odd parts alice is paid 7, and half a unit is left. -/
theorem full_payout_in_parts : ∃ s,
    redeemingSystem.runs (deploy sampleLaunch, .none) cancelThenRedeem = .ok s ∧
      s.2.total 1 = 15 ∧ s.2.paid 1 = 7 := by
  have hopens : ∀ step ∈ openMarket 1 10000, step.plain = true ∧ ∀ w, step.KeepsCash w := by
    simp [openMarket, TradeStep.plain, TradeStep.KeepsCash]
  have hkeeps : ∀ step ∈ cancelThenRedeem, ∀ w, step.LendsNothing w ∧ step.KeepsCash w := by
    intro step hstep w
    rcases List.mem_append.mp hstep with hopen | hrest
    · exact ⟨lendsNothing_of_plain (hopens step hopen).1 w, (hopens step hopen).2 w⟩
    · simp only [List.mem_cons, List.not_mem_nil, or_false] at hrest
      rcases hrest with rfl | rfl | rfl | rfl | rfl
      · exact ⟨lendsNothing_of_plain rfl w, trivial⟩
      · exact ⟨lendsNothing_of_plain rfl w, trivial⟩
      all_goals exact ⟨lendsNothing_of_vault rfl w, trivial⟩
  obtain ⟨s, hs, hlast⟩ := System.runs_of_decide (S := redeemingSystem)
    (deploy sampleLaunch, .none) cancelThenRedeem
    (fun s => decide (s.2.total 1 = 15 ∧
      (s.1.registry.market 1).map MarketData.status = some .cancelled)) (by decide +kernel)
  obtain ⟨htotal, hstatus⟩ := of_decide_eq_true hlast
  obtain ⟨market, hm, hcancelled⟩ := Option.map_eq_some_iff.mp hstatus
  have hinit : redeemingSystem.Init (deploy sampleLaunch, .none) := ⟨sample_init, rfl⟩
  have hrun := System.Guarded.runs (.init hinit) cancelThenRedeem hkeeps hs
  have hguard := hrun.mono (fun s i hi => (hi s.1 : i.LendsNothing s.1 ∧ i.KeepsCash s.1))
  have hpaid := ((full_payout hguard 1).halves (Or.inr ⟨market, hm, hcancelled⟩)).1
  rw [htotal] at hpaid
  exact ⟨s, hs, htotal, hpaid⟩

end DikeProtocol.Trading
