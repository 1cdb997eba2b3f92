import DikeProtocol.Vault.Buckets
import DikeProtocol.Vault.Isolation

/-!
# The vault while nothing is lent

Where no child credit was ever opened nothing is owed, nothing was written off
and nobody can be liquidated. A redemption then settles no debts: it is worth
its tokens, and the market's own bucket is all that could cap it.
-/

namespace DikeProtocol.Vault

open Lib

/-- Nothing was ever lent: nobody owes, and nothing was written off. -/
structure Unlent (v : VaultState) : Prop where
  childDebt : ∀ k, v.childDebt k = 0
  parentDebt : ∀ k, v.parentDebt k = 0
  childUsed : ∀ k, v.childUsedByOutcome k = 0
  childParent : ∀ k, v.childParent k = 0
  children : ∀ k, v.childMarketsOf k = []
  shortfall : ∀ m, (v.accounting m).shortfall = 0
  defaulted : ∀ m, (v.accounting m).childCollateralDefaulted = 0

/-- Bonds booked for a market, as what is left of each locked bond. -/
def bondTally (market : Store (ℕ × Address × Bool) (Option MarketId)) (m : MarketId) (d : Bool) :
    Tally (ℕ × Address × Bool) (Option ℤ) ℤ where
  weight := fun k left => if market k = some m ∧ k.2.2 = d then left.getD 0 else 0
  weight_default := fun _ => ite_self 0

/-- Every market books exactly what is left of its locked bonds, and nothing
negative is left of a bond. -/
structure BondsBooked (v : VaultState) : Prop where
  left_nonneg : ∀ k left, v.bond k = some left → 0 ≤ left
  booked : ∀ m d, bondTotal (v.accounting m) d = v.bond.total (bondTally v.bondMarket m d)

/-- So no market books a negative sum of bonds. -/
theorem BondsBooked.nonneg {v : VaultState} (h : BondsBooked v) (m : MarketId) (d : Bool) :
    0 ≤ bondTotal (v.accounting m) d := by
  rw [h.booked m d]
  apply Store.total_nonneg
  intro k
  change 0 ≤ if v.bondMarket k = some m ∧ k.2.2 = d then (v.bond k).getD 0 else 0
  split
  · cases hk : v.bond k with
    | none => exact le_rfl
    | some left => exact h.left_nonneg k left hk
  · exact le_rfl

/-- Vaults with the same bonds and the same sums keep the bonds booked. -/
theorem BondsBooked.same {v v' : VaultState} (h : BondsBooked v) (hbond : v'.bond = v.bond)
    (hmarket : v'.bondMarket = v.bondMarket)
    (hbooks : ∀ m d, bondTotal (v'.accounting m) d = bondTotal (v.accounting m) d) :
    BondsBooked v' := by
  refine ⟨?_, ?_⟩
  · rw [hbond]
    exact h.left_nonneg
  · intro m d
    rw [hbooks, hbond, hmarket]
    exact h.booked m d

/-- Two books of a market that agree on write-offs, payouts and bonds. -/
structure SameRecord (a a' : VaultAccounting) : Prop where
  shortfall : a'.shortfall = a.shortfall
  defaulted : a'.childCollateralDefaulted = a.childCollateralDefaulted
  redeemed : a'.redeemed = a.redeemed
  bonds : ∀ d, bondTotal a' d = bondTotal a d

/-- Rewriting the books of one market in agreement keeps all of them in agreement. -/
theorem SameRecord.set {s : Store MarketId VaultAccounting} {m : MarketId} {a : VaultAccounting}
    (h : SameRecord (s m) a) (m' : MarketId) : SameRecord (s m') (s.set m a m') := by
  rw [Store.set_get]
  split
  · next hm =>
    rw [hm]
    exact h
  · exact ⟨rfl, rfl, rfl, fun _ => rfl⟩

/-- A moved bond keeps write-offs and payouts. -/
theorem movedBond_record (a : VaultAccounting) (d : Bool) (x : ℤ) :
    (movedBond a d x).shortfall = a.shortfall ∧
      (movedBond a d x).childCollateralDefaulted = a.childCollateralDefaulted ∧
      (movedBond a d x).redeemed = a.redeemed := by
  unfold movedBond
  split
  · exact ⟨rfl, rfl, rfl⟩
  · exact ⟨rfl, rfl, rfl⟩

/-- What an invocation that neither lends nor redeems leaves of the vault. -/
structure Spared (v v' : VaultState) : Prop where
  childUsed : v'.childUsedByOutcome = v.childUsedByOutcome
  carry : v'.invalidDustCarry = v.invalidDustCarry
  roles : v'.roles = v.roles
  shortfall : ∀ m, (v'.accounting m).shortfall = (v.accounting m).shortfall
  defaulted : ∀ m,
    (v'.accounting m).childCollateralDefaulted = (v.accounting m).childCollateralDefaulted
  redeemed : ∀ m, (v'.accounting m).redeemed = (v.accounting m).redeemed
  bonds : BondsBooked v → BondsBooked v'

namespace Spared

variable {v v' : VaultState}

/-- Books that agree on the record spare the vault. -/
theorem of_books (hused : v'.childUsedByOutcome = v.childUsedByOutcome)
    (hcarry : v'.invalidDustCarry = v.invalidDustCarry) (hroles : v'.roles = v.roles)
    (hbond : v'.bond = v.bond) (hmarket : v'.bondMarket = v.bondMarket)
    (hbooks : ∀ m, SameRecord (v.accounting m) (v'.accounting m)) : Spared v v' where
  childUsed := hused
  carry := hcarry
  roles := hroles
  shortfall := fun m => (hbooks m).shortfall
  defaulted := fun m => (hbooks m).defaulted
  redeemed := fun m => (hbooks m).redeemed
  bonds := fun h => h.same hbond hmarket (fun m => (hbooks m).bonds)

/-- Nothing that counts changed. -/
theorem of_still (hused : v'.childUsedByOutcome = v.childUsedByOutcome)
    (hcarry : v'.invalidDustCarry = v.invalidDustCarry) (hroles : v'.roles = v.roles)
    (hbond : v'.bond = v.bond) (hmarket : v'.bondMarket = v.bondMarket)
    (hbooks : v'.accounting = v.accounting) : Spared v v' :=
  of_books hused hcarry hroles hbond hmarket
    (fun m => by rw [hbooks]; exact ⟨rfl, rfl, rfl, fun _ => rfl⟩)

/-- A bond that moved in the books of its market. -/
theorem of_bond (hbonds : BondsBooked v → BondsBooked v')
    (hused : v'.childUsedByOutcome = v.childUsedByOutcome)
    (hcarry : v'.invalidDustCarry = v.invalidDustCarry) (hroles : v'.roles = v.roles)
    (m : MarketId) (d : Bool) (x : ℤ)
    (hbooks : v'.accounting = v.accounting.set m (movedBond (v.accounting m) d x)) :
    Spared v v' := by
  have hrecord : ∀ k, (v'.accounting k).shortfall = (v.accounting k).shortfall ∧
      (v'.accounting k).childCollateralDefaulted = (v.accounting k).childCollateralDefaulted ∧
      (v'.accounting k).redeemed = (v.accounting k).redeemed := by
    intro k
    rw [hbooks, Store.set_get]
    split
    · next hk =>
      rw [hk]
      exact movedBond_record _ d x
    · exact ⟨rfl, rfl, rfl⟩
  exact ⟨hused, hcarry, hroles, fun k => (hrecord k).1, fun k => (hrecord k).2.1,
    fun k => (hrecord k).2.2, hbonds⟩

end Spared

/-- Where nothing is owed, a settlement does nothing. -/
theorem Unlent.settleChildDebt_eq {v : VaultState} (hv : Unlent v) (c : MarketId) (u : Address)
    (r : ℤ) : settleChildDebt v c u r = .ok (0, v) := by
  unfold Vault.settleChildDebt
  dsimp only
  rw [if_pos (hv.childDebt (c, u)), ite_self]

/-- So it settles nothing. -/
theorem Unlent.settleChildDebt {v v' : VaultState} (hv : Unlent v) {c : MarketId} {u : Address}
    {r x : ℤ} (h : settleChildDebt v c u r = .ok (x, v')) : x = 0 ∧ v' = v := by
  rw [hv.settleChildDebt_eq] at h
  obtain ⟨rfl, rfl⟩ := Prod.mk.inj (ok_ok.mp h)
  exact ⟨rfl, rfl⟩

/-- Nor is anything taken out of a claim to repay it. -/
theorem Unlent.repayUpstream_eq {v : VaultState} (hv : Unlent v) (c : MarketId) (u : Address)
    (r : ℤ) : repayUpstream v c u r = .ok (0, v) := by
  unfold repayUpstream
  rw [hv.settleChildDebt_eq]
  rfl

/-- Remembering the market of a key without a bond changes no sum of bonds. -/
theorem bondTally_fresh {bond : Store (ℕ × Address × Bool) (Option ℤ)}
    {market : Store (ℕ × Address × Bool) (Option MarketId)} {k : ℕ × Address × Bool}
    (hfresh : bond k = none) (x : Option MarketId) (m : MarketId) (d : Bool) :
    bond.total (bondTally (market.set k x) m d) = bond.total (bondTally market m d) := by
  apply Finset.sum_congr rfl
  intro k' _
  change (if market.set k x k' = some m ∧ k'.2.2 = d then (bond k').getD 0 else 0) =
    if market k' = some m ∧ k'.2.2 = d then (bond k').getD 0 else 0
  by_cases hk : k' = k
  · rw [hk, hfresh, Option.getD_none, ite_self, ite_self]
  · rw [Store.set_get_of_ne _ _ hk]

/-- A locked bond is booked. -/
theorem BondsBooked.lock {v : VaultState} (h : BondsBooked v) {r : ℕ} {u : Address} {d : Bool}
    {m : MarketId} {x : ℤ} (hx : 0 < x) (hfresh : v.bond (r, u, d) = none)
    {token : Store (ℕ × Address × Bool) (Option Asset)} :
    BondsBooked { v with
      bond := v.bond.set (r, u, d) (some x)
      bondToken := token
      bondMarket := v.bondMarket.set (r, u, d) (some m)
      accounting := v.accounting.set m (movedBond (v.accounting m) d x) } := by
  refine ⟨?_, ?_⟩
  · intro k left hk
    dsimp only at hk
    rw [Store.set_get] at hk
    split at hk
    · rw [← Option.some.inj hk]
      exact hx.le
    · exact h.left_nonneg k left hk
  · intro m' d'
    have hsum := h.booked m' d'
    dsimp only
    rw [Store.total_set, bondTally_fresh hfresh, hfresh, ← hsum]
    change _ = bondTotal (v.accounting m') d' -
      (if v.bondMarket.set (r, u, d) (some m) (r, u, d) = some m' ∧ d = d' then 0 else 0) +
      if v.bondMarket.set (r, u, d) (some m) (r, u, d) = some m' ∧ d = d' then x else 0
    rw [Store.set_get_self, ite_self, sub_zero, Store.set_get]
    by_cases hm : m' = m
    · rw [if_pos hm, bondTotal_movedBond, hm]
      simp only [true_and, eq_comm]
    · rw [if_neg hm, if_neg (fun hk => hm (Option.some.inj hk.1).symm), add_zero]

/-- A bond that was partly taken out is still booked. -/
theorem BondsBooked.take {v : VaultState} (h : BondsBooked v) {r : ℕ} {u : Address} {d : Bool}
    {token : Asset} {m : MarketId} {left x : ℤ} (hheld : Held v (r, u, d) token m left)
    (hx : x ≤ left) : BondsBooked (withoutBond v (r, u, d) m left x) := by
  refine ⟨?_, ?_⟩
  · intro k left' hk
    unfold withoutBond at hk
    dsimp only at hk
    rw [Store.set_get] at hk
    split at hk
    · rw [← Option.some.inj hk]
      omega
    · exact h.left_nonneg k left' hk
  · intro m' d'
    have hsum := h.booked m' d'
    unfold withoutBond
    dsimp only
    rw [Store.total_set, ← hsum, hheld.left]
    change _ = bondTotal (v.accounting m') d' -
      (if v.bondMarket (r, u, d) = some m' ∧ d = d' then left else 0) +
      if v.bondMarket (r, u, d) = some m' ∧ d = d' then left - x else 0
    rw [hheld.market, Store.set_get]
    by_cases hm : m' = m
    · rw [if_pos hm, bondTotal_movedBond, hm]
      by_cases hd : d' = d
      · rw [if_pos hd, if_pos ⟨rfl, hd.symm⟩, if_pos ⟨rfl, hd.symm⟩]
        ring
      · rw [if_neg hd, if_neg (fun hk => hd hk.2.symm), if_neg (fun hk => hd hk.2.symm)]
        ring
    · have hne : ¬(some m = some m' ∧ d = d') := fun hk => hm (Option.some.inj hk.1).symm
      rw [if_neg hm, if_neg hne, if_neg hne]
      ring

/-- Invocations that neither lend, nor redeem, nor rewire the vault. -/
def VaultOp.sparing : VaultOp → Bool
  | openChildCreditForTrade _ _ _ _ _ _ | setRole _ _ => false
  | redeemResolved _ _ _ _ _ | redeemCancelled _ _ _ _ _ => false
  | _ => true

/-- Any other invocation spares an unlent vault, and moves no tokens of markets. -/
theorem VaultOp.exec_spared {ctx : Ctx} {w w' : World} (hv : Unlent w.vault) {op : VaultOp}
    (hop : op.sparing = true) (h : op.exec ctx w = .ok w') :
    Spared w.vault w'.vault ∧ w'.tokens = w.tokens := by
  cases op with
  | setAdmin admin =>
    obtain rfl := admin_ok h
    exact ⟨.of_still rfl rfl rfl rfl rfl rfl, rfl⟩
  | upgrade wasmHash =>
    obtain ⟨_, _, h⟩ := bind_ok.mp h
    obtain rfl := pure_ok.mp h
    exact ⟨.of_still rfl rfl rfl rfl rfl rfl, rfl⟩
  | setRole role module => cases hop
  | setTreasury treasury =>
    obtain rfl := admin_ok h
    exact ⟨.of_still rfl rfl rfl rfl rfl rfl, rfl⟩
  | pause paused =>
    obtain rfl := admin_ok h
    exact ⟨.of_still rfl rfl rfl rfl rfl rfl, rfl⟩
  | depositForMarket t user m x =>
    obtain ⟨_, _, _, v, _, hdeposit, rfl⟩ := depositForMarket_steps h
    rw [recordDeposit_ok hdeposit]
    exact ⟨.of_books rfl rfl rfl rfl rfl (SameRecord.set ⟨rfl, rfl, rfl, fun _ => rfl⟩), rfl⟩
  | recordCashStake user m o x y =>
    obtain ⟨_, rfl⟩ := recordCashStake_steps h
    exact ⟨.of_still rfl rfl rfl rfl rfl rfl, rfl⟩
  | fundChildPrediction user p c x => cases h
  | openChildCreditForTrade user p po c co x => cases hop
  | repayChildCollateral t user c x =>
    obtain ⟨y, h⟩ := world_ok.mp h
    obtain ⟨_, _, v, _, hsettle, rfl⟩ := repayChildCollateral_steps h
    obtain ⟨_, rfl⟩ := hv.settleChildDebt hsettle
    exact ⟨.of_still rfl rfl rfl rfl rfl rfl, rfl⟩
  | releaseTradePayout t user m o sold x =>
    obtain ⟨_, _, _, _, _, v, _, hextract, rfl⟩ := releaseTradePayout_steps h
    obtain ⟨_, _, _, rfl⟩ := extractProceeds_steps hextract
    exact ⟨.of_books rfl rfl rfl rfl rfl (SameRecord.set ⟨rfl, rfl, rfl, fun _ => rfl⟩), rfl⟩
  | liquidateRelease t user keeper p o sold x =>
    obtain ⟨y, h⟩ := world_ok.mp h
    obtain ⟨_, _, _, hused, _⟩ := liquidateRelease_steps h
    exact absurd (hv.childUsed _) hused
  | liquidateChildRelease t user keeper c o sold x =>
    obtain ⟨y, h⟩ := world_ok.mp h
    obtain ⟨_, _, _, hdebt, _⟩ := liquidateChildRelease_steps h
    exact absurd (hv.childDebt _) hdebt
  | redeem t user m final o x =>
    obtain ⟨_, h⟩ := world_ok.mp h
    cases h
  | redeemResolved t user m o amount => cases hop
  | redeemCancelled t user m o amount => cases hop
  | assertPositionTransferAllowed sender m o x =>
    obtain ⟨_, _, h⟩ := bind_ok.mp h
    obtain rfl := pure_ok.mp h
    exact ⟨.of_still rfl rfl rfl rfl rfl rfl, rfl⟩
  | lockBond t user r m x d =>
    obtain ⟨hx, hfresh, _, _, _, rfl⟩ := lockBond_ok h
    exact ⟨.of_bond (fun hb => hb.lock hx hfresh) rfl rfl rfl m d x rfl, rfl⟩
  | releaseBond t user r x d =>
    obtain ⟨_, _, m, left, _, hheld, hle, _, _, _, rfl⟩ := payBond_ok.mp h
    exact ⟨.of_bond (fun hb => hb.take hheld hle) rfl rfl rfl m d (-x) rfl, rfl⟩
  | slashBond t user r x d recipient =>
    obtain ⟨_, _, m, left, _, hheld, hle, _, _, _, rfl⟩ := payBond_ok.mp h
    exact ⟨.of_bond (fun hb => hb.take hheld hle) rfl rfl rfl m d (-x) rfl, rfl⟩
  | collectFee m lp protocol cod =>
    obtain ⟨_, _, _, _, _, rfl⟩ := collectFee_steps h
    exact ⟨.of_books rfl rfl rfl rfl rfl (SameRecord.set ⟨rfl, rfl, rfl, fun _ => rfl⟩), rfl⟩
  | claimLpFees t m lp x =>
    obtain ⟨_, _, _, _, rfl⟩ := claimLpFees_steps h
    exact ⟨.of_books rfl rfl rfl rfl rfl (SameRecord.set ⟨rfl, rfl, rfl, fun _ => rfl⟩), rfl⟩
  | sweepProtocolFees t m =>
    obtain ⟨y, h⟩ := world_ok.mp h
    obtain ⟨_, _, _, _, _, rfl⟩ := sweepProtocolFees_steps h
    exact ⟨.of_books rfl rfl rfl rfl rfl (SameRecord.set ⟨rfl, rfl, rfl, fun _ => rfl⟩), rfl⟩

/-- An unlent vault stays so. -/
theorem Unlent.exec {ctx : Ctx} (hctx : Outside .vault ctx) {w w' : World} (hw : Sane w.vault)
    (hv : Unlent w.vault) {op : VaultOp} (hop : op.sparing = true) (h : op.exec ctx w = .ok w') :
    Unlent w'.vault := by
  have hopens : op.opensCredit = false := by
    cases op with
    | openChildCreditForTrade => cases hop
    | _ => rfl
  have hspared := (op.exec_spared hv hop h).1
  have hdebts := op.exec_debts hctx hw hopens h
  have hlinks := op.exec_links hw hopens h
  have hsane := op.exec_sane hctx hw h
  refine ⟨?_, ?_, ?_, ?_, ?_, ?_, ?_⟩
  · intro k
    have hle := hdebts.childDebt k
    rw [hv.childDebt k] at hle
    exact le_antisymm hle (hsane.childDebt_nonneg k)
  · intro k
    have hle := hdebts.parentDebt k
    rw [hv.parentDebt k] at hle
    exact le_antisymm hle (hsane.parentDebt_nonneg k)
  · rw [hspared.childUsed]
    exact hv.childUsed
  · rw [hlinks.childParent]
    exact hv.childParent
  · rw [hlinks.childMarketsOf]
    exact hv.children
  · intro m
    rw [hspared.shortfall]
    exact hv.shortfall m
  · intro m
    rw [hspared.defaulted]
    exact hv.defaulted m

/-- The dust carries after tokens were redeemed at a final outcome. -/
def carryAfter (v : VaultState) (m : MarketId) (final : Outcome) (amount : ℤ) :
    Store MarketId ℤ :=
  match final with
  | .invalid => v.invalidDustCarry.set m ((v.invalidDustCarry m + amount) % 2)
  | .yes | .no => v.invalidDustCarry

/-- Other markets carry what they did. -/
theorem carryAfter_other {v : VaultState} {m k : MarketId} {final : Outcome} {amount : ℤ}
    (hk : k ≠ m) : carryAfter v m final amount k = v.invalidDustCarry k := by
  cases final with
  | yes => rfl
  | no => rfl
  | invalid => exact Store.set_get_of_ne _ _ hk

/-- A payout is booked and paid, when it is positive. -/
def PaidOut (w w' : World) (token : Asset) (user : Address) (m : MarketId) (y : ℤ) : Prop :=
  (0 < y ∧ w'.vault.accounting = w.vault.accounting.set m (paidBy (w.vault.accounting m) y) ∧
      w.bank.transfer token (.contract .vault) user y = .ok w'.bank) ∨
    (y ≤ 0 ∧ w'.vault.accounting = w.vault.accounting ∧ w'.bank = w.bank)

/-- What a redemption that settles no debts changes. -/
structure Redeems (w w' : World) (token : Asset) (user : Address) (m : MarketId)
    (final o : Outcome) (amount y : ℤ) : Prop where
  positive : 0 < amount
  burned : ∃ called, Tokens.burnForRedeem called w.tokens user m o amount = .ok w'.tokens
  capped : cappedPayout w.vault m (redemptionValue w.vault m final o amount) = .ok y
  carry : w'.vault.invalidDustCarry = carryAfter w.vault m final amount
  paid : PaidOut w w' token user m y
  registry : w'.registry = w.registry
  childDebt : w'.vault.childDebt = w.vault.childDebt
  parentDebt : w'.vault.parentDebt = w.vault.parentDebt
  childUsed : w'.vault.childUsedByOutcome = w.vault.childUsedByOutcome
  childParent : w'.vault.childParent = w.vault.childParent
  children : w'.vault.childMarketsOf = w.vault.childMarketsOf
  roles : w'.vault.roles = w.vault.roles
  bonds : w'.vault.bond = w.vault.bond ∧ w'.vault.bondMarket = w.vault.bondMarket

/-- A claim that the bucket covers is not capped. -/
theorem cappedPayout_full {v : VaultState} {m : MarketId} {x y : ℤ} (hb : Bucket (v.accounting m))
    (hshort : (v.accounting m).shortfall = 0) (h0 : 0 ≤ x)
    (hx : x ≤ (v.accounting m).collateralBacking - (v.accounting m).redeemed)
    (h : cappedPayout v m x = .ok y) : y = x := by
  have hredeemed := hb.redeemed_nonneg
  unfold cappedPayout haircut at h
  dsimp only at h
  split at h
  · have hy := ok_ok.mp h
    omega
  · split at h
    · have hy := ok_ok.mp h
      omega
    · obtain ⟨remaining, hremaining, h⟩ := bind_ok.mp h
      have hremaining' := (checkedSub_ok.mp hremaining).1
      split at h
      · have hy := pure_ok.mp h
        omega
      · obtain ⟨claim, hclaim, h⟩ := bind_ok.mp h
        have hclaim' := ok_ok.mp hclaim
        have hy := pure_ok.mp h
        rw [if_neg (by omega)] at hy
        omega

/-- The worth of redeemed tokens, and the carry it leaves. -/
theorem grossPayout_eq {v v' : VaultState} (hv : Sane v) {m : MarketId} {final o : Outcome}
    {amount x : ℤ} (hpos : 0 < amount) (h : grossPayout v m final o amount = .ok (x, v')) :
    x = redemptionValue v m final o amount ∧ 0 ≤ x ∧
      v' = { v with invalidDustCarry := carryAfter v m final amount } := by
  obtain ⟨hx, h0, _⟩ := hv.grossPayout hpos h
  refine ⟨hx, h0, ?_⟩
  cases final with
  | yes => exact (Prod.mk.inj (ok_ok.mp h)).2.symm
  | no => exact (Prod.mk.inj (ok_ok.mp h)).2.symm
  | invalid => exact (hv.refundWithCarry hpos h).2.1

/-- Redeemed tokens are never worth less than nothing. -/
theorem redemptionValue_nonneg {v : VaultState} {m : MarketId} {amount : ℤ}
    (hcarry : 0 ≤ v.invalidDustCarry m) (hpos : 0 < amount) (final o : Outcome) :
    0 ≤ redemptionValue v m final o amount := by
  unfold redemptionValue
  cases final with
  | yes =>
    dsimp only
    split <;> omega
  | no =>
    dsimp only
    split <;> omega
  | invalid =>
    dsimp only
    omega

/-- Where nothing is owed, there is nothing to repay. -/
theorem Unlent.effectiveDebt {v : VaultState} (hv : Unlent v) (c : MarketId) (u : Address) :
    effectiveDebt v c u = 0 := by
  unfold Vault.effectiveDebt
  dsimp only
  rw [hv.childDebt, hv.parentDebt, ite_self]

/-- Where nothing is owed, nothing is withheld. -/
theorem Unlent.withhold {v v' : VaultState} (hv : Unlent v) {m : MarketId} {u : Address}
    {o : Outcome}
    {g claim x : ℤ} (hclaim : 0 ≤ claim) (hg : g = 0 → claim = 0)
    (h : withholdParentDebt v m u o g claim = .ok (x, v')) : x = 0 ∧ v' = v := by
  have hdebt := hv.parentDebt (m, u, o)
  obtain ⟨_, hx, rfl⟩ | ⟨hpos, _⟩ | ⟨hpos, _⟩ | ⟨hpos, _⟩ := withholdParentDebt_cases h hclaim hg
  · exact ⟨by omega, rfl⟩
  all_goals omega

/-- A payout is booked and paid exactly. -/
theorem payRedemption_paid {ctx : Ctx} {w w' : World} {token : Asset} {user : Address}
    {m : MarketId}
    {y : ℤ} (h : payRedemption ctx w token user m y = .ok w') : PaidOut w w' token user m y := by
  unfold payRedemption at h
  split at h
  · next hpos =>
    obtain ⟨redeemed, hredeemed, h⟩ := bind_ok.mp h
    obtain ⟨refundable, hrefundable, h⟩ := bind_ok.mp h
    obtain ⟨_, b, hb, rfl⟩ := transferToken_ok.mp h
    refine Or.inl ⟨hpos, ?_, hb⟩
    rw [(checkedAdd_ok.mp hredeemed).1, (checkedSub_ok.mp hrefundable).1]
    rfl
  · next hnone =>
    obtain rfl := ok_ok.mp h
    exact Or.inr ⟨not_lt.mp hnone, rfl, rfl⟩

/-- Where nothing is owed, the settlement of a redemption counts its tokens, and
pays their worth as far as the bucket goes. -/
theorem settleResolved_unlent {v v' : VaultState} (hw : Sane v) (hv : Unlent v) {m : MarketId}
    {user : Address} {final o : Outcome} {amount gross y : ℤ} (hpos : 0 < amount)
    (h : settleResolved v m user final o amount = .ok (gross, y, v')) :
    cappedPayout v m (redemptionValue v m final o amount) = .ok y ∧
      ∃ redeemed, v' = { v with
        invalidDustCarry := carryAfter v m final amount
        redeemed := redeemed } := by
  obtain ⟨u1, u2, paid, u3, withheld, h1, h2, h3, h4, h5⟩ := settleResolved_steps h
  obtain ⟨hgross, hgross0, rfl⟩ := grossPayout_eq hw hpos h1
  have hcounted : Unlent u2 := by
    rw [addRedeemed_ok h2]
    exact { hv with }
  rw [hcounted.repayUpstream_eq] at h3
  obtain ⟨rfl, rfl⟩ := Prod.mk.inj (ok_ok.mp h3)
  rw [sub_zero] at h4 h5
  obtain ⟨rfl, rfl⟩ := hcounted.withhold hgross0 (fun hk => hk) h4
  obtain rfl := addRedeemed_ok h2
  rw [sub_zero, hgross] at h5
  exact ⟨h5, _, rfl⟩

/-- The same in a cancelled market, where the tokens are not counted. -/
theorem settleCancelled_unlent {v v' : VaultState} (hw : Sane v) (hv : Unlent v) {m : MarketId}
    {user : Address} {o : Outcome} {amount y : ℤ} (hpos : 0 < amount)
    (h : settleCancelled v m user o amount = .ok (y, v')) :
    cappedPayout v m (redemptionValue v m .invalid o amount) = .ok y ∧
      v' = { v with invalidDustCarry := carryAfter v m .invalid amount } := by
  obtain ⟨gross, u1, withheld, h1, h2, h3⟩ := settleCancelled_steps h
  have hrefund : grossPayout v m .invalid o amount = .ok (gross, u1) := h1
  obtain ⟨hgross, hgross0, hrest⟩ := grossPayout_eq hw hpos hrefund
  have hcarried : Unlent u1 := by
    rw [hrest]
    exact { hv with }
  obtain ⟨rfl, rfl⟩ := hcarried.withhold hgross0 (fun hk => hk) h2
  subst hrest
  rw [sub_zero, hgross] at h3
  exact ⟨h3, rfl⟩

section Redemption

variable {ctx : Ctx} {w w' : World} {token : Asset} {user : Address} {m : MarketId} {o : Outcome}
  {amount y : ℤ}

/-- A redemption in a resolved market, where nothing is owed. -/
theorem redeemResolved_unlent (hw : Sane w.vault) (hv : Unlent w.vault)
    (h : redeemResolved ctx w token user m o amount = .ok (y, w')) :
    ∃ market, w.registry.market m = some market ∧ market.hasFinalOutcome = true ∧
      token = market.collateral ∧ Redeems w w' token user m market.finalOutcome o amount y := by
  obtain ⟨hpos, market, gross, v1, t, v2, called, hm, htoken, hhas, hsettle, hburn,
    hretire, hpay⟩ := redeemResolved_steps h
  obtain ⟨hcapped, redeemed, rfl⟩ := settleResolved_unlent hw hv hpos hsettle
  obtain ⟨rootStake, userDeposit, rfl⟩ := retireClaim_ok hretire
  obtain ⟨b, hworld⟩ := payRedemption_ok hpay
  have hpaid := payRedemption_paid hpay
  refine ⟨market, hm, hhas, htoken, ?_⟩
  rw [hworld] at hpaid ⊢
  exact {
    positive := hpos
    burned := ⟨called, hburn⟩
    capped := hcapped
    carry := rfl
    paid := hpaid
    registry := rfl
    childDebt := rfl
    parentDebt := rfl
    childUsed := rfl
    childParent := rfl
    children := rfl
    roles := rfl
    bonds := ⟨rfl, rfl⟩ }

/-- A redemption in a cancelled market, where nothing is owed: worth half, as
in a market that resolved invalid. -/
theorem redeemCancelled_unlent (hw : Sane w.vault) (hv : Unlent w.vault)
    (h : redeemCancelled ctx w token user m o amount = .ok (y, w')) :
    ∃ market, w.registry.market m = some market ∧ market.status = .cancelled ∧
      token = market.collateral ∧ Redeems w w' token user m .invalid o amount y := by
  obtain ⟨hpos, market, t, v1, called, hm, hstatus, htoken, hburn, hsettle, hpay⟩ :=
    redeemCancelled_steps h
  obtain ⟨hcapped, rfl⟩ := settleCancelled_unlent hw hv hpos hsettle
  obtain ⟨b, hworld⟩ := payRedemption_ok hpay
  have hpaid := payRedemption_paid hpay
  refine ⟨market, hm, hstatus, htoken, ?_⟩
  rw [hworld] at hpaid ⊢
  exact {
    positive := hpos
    burned := ⟨called, hburn⟩
    capped := hcapped
    carry := rfl
    paid := hpaid
    registry := rfl
    childDebt := rfl
    parentDebt := rfl
    childUsed := rfl
    childParent := rfl
    children := rfl
    roles := rfl
    bonds := ⟨rfl, rfl⟩ }

end Redemption

namespace Redeems

variable {w w' : World} {token : Asset} {user : Address} {m : MarketId} {final o : Outcome}
  {amount y : ℤ}

/-- A payout changes of the books of its market only what was redeemed, and what is left. -/
theorem books (h : Redeems w w' token user m final o amount y) :
    w'.vault.accounting = w.vault.accounting ∨
      w'.vault.accounting = w.vault.accounting.set m (paidBy (w.vault.accounting m) y) := by
  rcases h.paid with ⟨_, hbooks, _⟩ | ⟨_, hbooks, _⟩
  · exact Or.inr hbooks
  · exact Or.inl hbooks

/-- What every payout keeps of the books of a market, a redemption keeps of all books. -/
theorem books_kept (h : Redeems w w' token user m final o amount y) {α : Type}
    {f : VaultAccounting → α} (hf : ∀ a x, f (paidBy a x) = f a) (k : MarketId) :
    f (w'.vault.accounting k) = f (w.vault.accounting k) := by
  rcases h.books with hbooks | hbooks
  · rw [hbooks]
  · rw [hbooks, Store.set_get]
    split
    · next hk =>
      rw [hf, hk]
    · rfl

/-- A vault that lent nothing did not lend by a redemption. -/
theorem unlent (h : Redeems w w' token user m final o amount y) (hv : Unlent w.vault) :
    Unlent w'.vault where
  childDebt := by
    rw [h.childDebt]
    exact hv.childDebt
  parentDebt := by
    rw [h.parentDebt]
    exact hv.parentDebt
  childUsed := by
    rw [h.childUsed]
    exact hv.childUsed
  childParent := by
    rw [h.childParent]
    exact hv.childParent
  children := by
    rw [h.children]
    exact hv.children
  shortfall := by
    intro k
    rw [h.books_kept (f := VaultAccounting.shortfall) (fun _ _ => rfl)]
    exact hv.shortfall k
  defaulted := by
    intro k
    rw [h.books_kept (f := VaultAccounting.childCollateralDefaulted) (fun _ _ => rfl)]
    exact hv.defaulted k

/-- Nor does it touch a bond. -/
theorem bondsBooked (h : Redeems w w' token user m final o amount y) (hb : BondsBooked w.vault) :
    BondsBooked w'.vault :=
  hb.same h.bonds.1 h.bonds.2 (fun k d => h.books_kept (f := (bondTotal · d)) (fun _ _ => rfl) k)

end Redeems

/-- The claims of the markets of each token are covered by the vault's cash in
it, whatever the collateral of markets still to be registered. -/
def CashHeld (w : World) : Prop :=
  ∀ col, Assigned col w.registry →
    Apart col w ∧ ∀ token, (tokenGauge col token 1 0).read w.vault ≤ cash w.bank token

/-- A vault that lent nothing, in order: bonds are booked, no bucket paid out
more than it holds, and there is cash for every claim. -/
structure InOrder (w : World) : Prop where
  sane : Sane w.vault
  unlent : Unlent w.vault
  bucketed : Bucketed w.vault
  bonds : BondsBooked w.vault
  cashHeld : CashHeld w

namespace InOrder

variable {ctx : Ctx} {w w' : World}

/-- Whatever is invoked keeps the cash for every claim. -/
theorem cashHeld_exec (hctx : Outside .vault ctx) (hw : InOrder w) {op : VaultOp}
    (hop : op.opensCredit = false) (hregistry : w'.registry = w.registry)
    (h : op.exec ctx w = .ok w') : CashHeld w' := by
  have hlends : ∀ col, op.LendsInside col := by
    intro col
    cases op with
    | openChildCreditForTrade => cases hop
    | _ => trivial
  have hkeeps : WithholdsNothing w op := by
    cases op with
    | redeemResolved | redeemCancelled => exact Or.inl (hw.unlent.parentDebt _)
    | _ => trivial
  intro col hcol
  rw [hregistry] at hcol
  obtain ⟨hapart, hread⟩ := hw.cashHeld col hcol
  have hsettled : ∀ token, Apart col w' ∧ Settled col token 1 0 w op w' := fun _ =>
    op.exec_settled (by decide) hctx hapart (hlends col) (Or.inr hkeeps) h
  refine ⟨(hsettled (col 0)).1, ?_⟩
  intro token
  obtain ⟨draw, _, hle⟩ := (hsettled token).2
  have hcut := op.cut_nonneg hw.sane token
  have hcovered := hread token
  omega

/-- Every invocation that opens no credit keeps the vault in order. -/
theorem exec (hctx : Outside .vault ctx) (hw : InOrder w) {op : VaultOp}
    (hop : op.opensCredit = false) (hregistry : w'.registry = w.registry)
    (h : op.exec ctx w = .ok w') : InOrder w' := by
  have hself : NoSelfParent w.vault := by
    intro c u hparent
    rw [hw.unlent.childParent] at hparent
    exact hparent.symm
  have hwithin : WithinBucket w op := by
    cases op with
    | redeemResolved t user m o amount =>
      intro market _
      have hbucket := hw.bucketed m
      have hrefundable := hbucket.refundable_eq
      have hredeemed := hbucket.redeemed_le
      unfold Covered
      rw [hw.unlent.effectiveDebt]
      dsimp only
      omega
    | _ => trivial
  have hkept : Unlent w'.vault ∧ BondsBooked w'.vault := by
    cases op with
    | openChildCreditForTrade => cases hop
    | setRole role module =>
      obtain rfl := admin_ok h
      exact ⟨{ hw.unlent with }, { hw.bonds with }⟩
    | redeemResolved t user m o amount =>
      obtain ⟨y, h⟩ := world_ok.mp h
      obtain ⟨market, _, _, _, hredeems⟩ := redeemResolved_unlent hw.sane hw.unlent h
      exact ⟨hredeems.unlent hw.unlent, hredeems.bondsBooked hw.bonds⟩
    | redeemCancelled t user m o amount =>
      obtain ⟨y, h⟩ := world_ok.mp h
      obtain ⟨market, _, _, _, hredeems⟩ := redeemCancelled_unlent hw.sane hw.unlent h
      exact ⟨hredeems.unlent hw.unlent, hredeems.bondsBooked hw.bonds⟩
    | _ => exact ⟨hw.unlent.exec hctx hw.sane rfl h,
        (VaultOp.exec_spared hw.unlent rfl h).1.bonds hw.bonds⟩
  exact ⟨op.exec_sane hctx hw.sane h, hkept.1, op.exec_bucketed hw.sane hself hw.bucketed hwithin h,
    hkept.2, hw.cashHeld_exec hctx hop hregistry h⟩

/-- Only the vault, the registry and the vault's cash matter, and more cash does not hurt. -/
theorem same (hw : InOrder w) (hvault : w'.vault = w.vault) (hregistry : w'.registry = w.registry)
    (hcash : ∀ t, cash w.bank t ≤ cash w'.bank t) : InOrder w' := by
  have hheld : CashHeld w' := by
    intro col hcol
    rw [hregistry] at hcol
    obtain ⟨hapart, hread⟩ := hw.cashHeld col hcol
    refine ⟨⟨?_, ?_, ?_, ?_, ?_⟩, ?_⟩
    · rw [hvault]
      exact hapart.sane
    · rw [hregistry]
      exact hapart.assigned
    · rw [hvault]
      exact hapart.loans
    · rw [hvault]
      exact hapart.children
    · rw [hvault]
      exact hapart.bonds
    · intro token
      rw [hvault]
      exact (hread token).trans (hcash token)
  constructor
  · rw [hvault]
    exact hw.sane
  · rw [hvault]
    exact hw.unlent
  · rw [hvault]
    exact hw.bucketed
  · rw [hvault]
    exact hw.bonds
  · exact hheld

/-- Markets that move along keep the vault in order. -/
theorem withRegistry (hw : InOrder w) (hordered : Registry.Ordered w.registry) {r : RegistryState}
    (h : Registry.MarketsFollow w.registry r) : InOrder { w with registry := r } := by
  refine { hw with cashHeld := ?_ }
  intro col hcol
  have hbefore : Assigned col w.registry := by
    intro m market hm
    obtain ⟨moved, hmoved, hcollateral⟩ := h.kept (P := fun k => k.collateral = market.collateral)
      hordered (fun _ _ _ hsame hk => hsame.trans hk) ⟨market, hm, rfl⟩
    rw [← hcollateral]
    exact hcol m moved hmoved
  obtain ⟨hapart, hread⟩ := hw.cashHeld col hbefore
  exact ⟨{ hapart with assigned := hcol }, hread⟩

/-- There is cash for all that is left in the bucket of a market. -/
theorem remaining_le_cash (hw : InOrder w) {m : MarketId} {market : MarketData}
    (hm : w.registry.market m = some market) :
    (w.vault.accounting m).collateralBacking - (w.vault.accounting m).redeemed ≤
      cash w.bank market.collateral := by
  let col : MarketId → Asset :=
    fun k => ((w.registry.market k).map MarketData.collateral).getD market.collateral
  have hcol : Assigned col w.registry := by
    intro k stored hk
    simp only [col, hk, Option.map_some, Option.getD_some]
  have hclaim : ∀ k, 0 ≤ claimOf (w.vault.accounting k) ∧
      (w.vault.accounting k).collateralBacking - (w.vault.accounting k).redeemed ≤
        claimOf (w.vault.accounting k) := by
    intro k
    have hsane := hw.sane.accounting k
    have hlp := hsane.lpFees_nonneg
    have hprotocol := hsane.protocolFees_nonneg
    have hcod := hsane.codFees_nonneg
    have hredeemed := (hw.bucketed k).redeemed_le
    have hproposal : 0 ≤ (w.vault.accounting k).proposalBonds := hw.bonds.nonneg k false
    have hdispute : 0 ≤ (w.vault.accounting k).disputeBonds := hw.bonds.nonneg k true
    unfold claimOf
    omega
  have hdrawn : drawnIn col market.collateral w.vault = 0 := by
    apply Finset.sum_eq_zero
    intro k _
    change inToken col market.collateral k * ((w.vault.accounting k).childCollateralDefaulted -
      (w.vault.accounting k).shortfall) = 0
    rw [hw.unlent.defaulted, hw.unlent.shortfall, sub_self, mul_zero]
  have hread := (hw.cashHeld col hcol).2 market.collateral
  rw [tokenGauge_read, hdrawn] at hread
  have hone := Store.weight_le_total w.vault.accounting (claimsInTally col market.collateral)
    (fun k => mul_nonneg (inToken_nonneg _ _ _) (hclaim k).1) m
  have hweight : (claimsInTally col market.collateral).weight m (w.vault.accounting m) =
      claimOf (w.vault.accounting m) := by
    change inToken col market.collateral m * claimOf (w.vault.accounting m) = _
    unfold inToken
    rw [if_pos (hcol m market hm).symm, one_mul]
  rw [hweight] at hone
  have hbucket := (hclaim m).2
  change claimOf (w.vault.accounting m) ≤ claimsIn col market.collateral w.vault at hone
  omega

end InOrder

end DikeProtocol.Vault
