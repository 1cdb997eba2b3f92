import DikeProtocol.Vault.Ledgers
import DikeProtocol.Vault.Solvency

/-!
# Agreement of the loan ledgers, call by call

Which invocations keep the records of the loans from one market in agreement:
all but a draw on a second outcome of the parent, a liquidation of a child that
writes off another amount than the debt it takes away, and a redemption that
withholds from a debt.
-/

namespace DikeProtocol.Vault

open Lib

/-- A loan is drawn under the parent outcome its child records. -/
def SameStake (v : VaultState) (c : MarketId) (u : Address) (po : Outcome) : Prop :=
  v.childParent (c, u) = 0 ∨ v.childParentOutcome (c, u) = po

instance (v : VaultState) (c : MarketId) (u : Address) (po : Outcome) :
    Decidable (SameStake v c u po) :=
  inferInstanceAs (Decidable (_ ∨ _))

section Open

variable {v v' : VaultState} {p c : MarketId} {u : Address} {po co : Outcome} {x : ℤ}

/-- A new loan raises what its own stake is owed, and nothing else. -/
theorem owedBy_drawn {q : MarketId} {u' : Address} {o : Outcome}
    (hdebt : v'.childDebt = v.childDebt.set (c, u) (v.childDebt (c, u) + x))
    (hother : ∀ k, k ≠ (c, u) → v'.childParent k = v.childParent k ∧
      v'.childParentOutcome k = v.childParentOutcome k)
    (hnew : v'.childParent (c, u) = p ∧ v'.childParentOutcome (c, u) = po)
    (hold : v.childDebt (c, u) = 0 ∨
      (v.childParent (c, u) = p ∧ v.childParentOutcome (c, u) = po)) :
    owedBy v' q u' o = owedBy v q u' o + if u = u' ∧ p = q ∧ po = o then x else 0 := by
  have htally : v.childDebt.total (borrowedTally v' q u' o) = owedBy v q u' o := by
    unfold owedBy Store.total
    apply Finset.sum_congr rfl
    intro k _
    simp only [borrowedTally, Tally.over_weight]
    by_cases hk : k = (c, u)
    · subst hk
      rcases hold with hzero | ⟨hp, ho⟩
      · rw [hzero, ite_self, ite_self]
      · rw [hnew.1, hnew.2, hp, ho]
    · rw [(hother k hk).1, (hother k hk).2]
  have hset : owedBy v' q u' o = v.childDebt.total (borrowedTally v' q u' o) -
      (borrowedTally v' q u' o).weight (c, u) (v.childDebt (c, u)) +
        (borrowedTally v' q u' o).weight (c, u) (v.childDebt (c, u) + x) := by
    rw [← Store.total_set, ← hdebt]
    rfl
  rw [hset, htally]
  simp only [borrowedTally, Tally.over_weight, hnew.1, hnew.2]
  split <;> omega

/-- Every record of a new loan, when the child owes the same stake already or nothing. -/
theorem recordLoan_same (hl : Linked v)
    (hparent : v.childParent (c, u) = 0 ∨ v.childParent (c, u) = p) (hsame : SameStake v c u po)
    (h : recordLoan v u p po c co x = .ok v') :
    v'.childDebt = v.childDebt.set (c, u) (v.childDebt (c, u) + x) ∧
      v'.parentDebt = v.parentDebt.set (p, u, po) (v.parentDebt (p, u, po) + x) ∧
      v'.childUsedByOutcome =
        v.childUsedByOutcome.set (p, u, po) (v.childUsedByOutcome (p, u, po) + x) ∧
      (∀ k, k ≠ (c, u) → v'.childParent k = v.childParent k ∧
        v'.childParentOutcome k = v.childParentOutcome k) ∧
      (v'.childParent (c, u) = p ∧ v'.childParentOutcome (c, u) = po) ∧
      (v.childDebt (c, u) = 0 ∨ (v.childParent (c, u) = p ∧ v.childParentOutcome (c, u) = po)) := by
  obtain ⟨_, hlinkp, hlinko, _⟩ := recordLoan_links h
  obtain ⟨_, _, _, _, _, _, rfl⟩ := recordLoan_ok h
  refine ⟨rfl, rfl, rfl, ?_, ?_, ?_⟩
  · intro k hk
    rw [hlinkp, hlinko]
    split
    · rw [Store.set_get_of_ne _ _ hk, Store.set_get_of_ne _ _ hk]
      exact ⟨rfl, rfl⟩
    · exact ⟨rfl, rfl⟩
  · rw [hlinkp, hlinko]
    split
    · rw [Store.set_get_self, Store.set_get_self]
      exact ⟨rfl, rfl⟩
    · next hfunded =>
      exact ⟨hparent.resolve_left hfunded, hsame.resolve_left hfunded⟩
  · by_cases hroot : v.childParent (c, u) = 0
    · left
      by_contra hdebt
      exact (hl.parented c u hdebt).1 hroot
    · exact Or.inr ⟨hparent.resolve_left hroot, hsame.resolve_left hroot⟩

/-- A loan from the stake the child records keeps the records of every loan in agreement. -/
theorem LoansAgree.recordLoan {q : MarketId} {u' : Address} (h : LoansAgree v q u') (hl : Linked v)
    (hparent : v.childParent (c, u) = 0 ∨ v.childParent (c, u) = p)
    (hsame : SameStake v c u po) (hs : recordLoan v u p po c co x = .ok v') :
    LoansAgree v' q u' := by
  obtain ⟨hdebt, hup, hused, hother, hnew, hold⟩ := recordLoan_same hl hparent hsame hs
  obtain ⟨hsum, _⟩ := recordLoan_links hs
  have howed : ∀ o, owedBy v' q u' o =
      owedBy v q u' o + if u = u' ∧ p = q ∧ po = o then x else 0 :=
    fun o => owedBy_drawn hdebt hother hnew hold
  by_cases hk : p = q ∧ u = u'
  · obtain ⟨rfl, rfl⟩ := hk
    have hraised : ∀ o, v'.childUsedByOutcome (p, u, o) =
        v.childUsedByOutcome (p, u, o) + if po = o then x else 0 := by
      intro o
      rw [hused, Store.set_get]
      by_cases ho : po = o
      · rw [ho, if_pos rfl, if_pos rfl]
      · have hkey : (p, u, o) ≠ (p, u, po) := by simp [Ne.symm ho]
        rw [if_neg hkey, if_neg ho, add_zero]
    have howing : ∀ o, v'.parentDebt (p, u, o) =
        v.parentDebt (p, u, o) + if po = o then x else 0 := by
      intro o
      rw [hup, Store.set_get]
      by_cases ho : po = o
      · rw [ho, if_pos rfl, if_pos rfl]
      · have hkey : (p, u, o) ≠ (p, u, po) := by simp [Ne.symm ho]
        rw [if_neg hkey, if_neg ho, add_zero]
    constructor
    · intro o
      rw [hraised, howing, h.used]
    · rw [hsum, Store.set_get_self, overOutcomes_congr hraised, overOutcomes_add, h.usedSum]
    · intro o
      rw [howed, howing, h.owed]
      simp only [true_and]
  · have hkey : ∀ o o' : Outcome, (q, u', o) ≠ (p, u, o') := by
      intro o o' heq
      obtain ⟨hq, heq⟩ := Prod.mk.inj heq
      exact hk ⟨hq.symm, (Prod.mk.inj heq).1.symm⟩
    have hmarket : (q, u') ≠ (p, u) := by
      intro heq
      obtain ⟨hq, hu⟩ := Prod.mk.inj heq
      exact hk ⟨hq.symm, hu.symm⟩
    refine h.congr ?_ ?_ ?_ ?_
    · intro o
      rw [hup, Store.set_get_of_ne _ _ (hkey o po)]
    · intro o
      rw [hused, Store.set_get_of_ne _ _ (hkey o po)]
    · rw [hsum, Store.set_get_of_ne _ _ hmarket]
    · intro o
      rw [howed, if_neg (fun hall => hk ⟨hall.2.1, hall.1⟩), add_zero]

/-- A loan from the stake the child records keeps the links sound. -/
theorem Linked.recordLoan (hl : Linked v) (hp : p ≠ 0)
    (hparent : v.childParent (c, u) = 0 ∨ v.childParent (c, u) = p) (hsame : SameStake v c u po)
    (hs : recordLoan v u p po c co x = .ok v') : Linked v' := by
  obtain ⟨hdebt, _, _, hother, hnew, _⟩ := recordLoan_same hl hparent hsame hs
  obtain ⟨_, _, _, hlists, _⟩ := recordLoan_links hs
  have hkept : ∀ k d, d ∈ v.childMarketsOf k → d ∈ v'.childMarketsOf k := by
    intro k d hd
    rw [hlists, Store.set_get]
    split
    · next hk =>
      rw [hk] at hd
      split
      · exact hd
      · exact List.mem_append_left _ hd
    · exact hd
  constructor
  · intro d w hne
    by_cases hk : (d, w) = (c, u)
    · obtain ⟨rfl, rfl⟩ := Prod.mk.inj hk
      rw [hnew.1, hnew.2, hlists, Store.set_get_self]
      refine ⟨hp, ?_⟩
      split
      · next hmem => exact hmem
      · exact List.mem_append_right _ List.mem_cons_self
    · rw [hdebt, Store.set_get_of_ne _ _ hk] at hne
      obtain ⟨hroot, hmem⟩ := hl.parented d w hne
      rw [(hother _ hk).1, (hother _ hk).2]
      exact ⟨hroot, hkept _ _ hmem⟩
  · intro q w o d hd
    have hcases : d ∈ v.childMarketsOf (q, w, o) ∨ ((q, w, o) = (p, u, po) ∧ d = c) := by
      rw [hlists, Store.set_get] at hd
      split at hd
      · next hk =>
        rw [hk]
        split at hd
        · exact Or.inl hd
        · rcases List.mem_append.mp hd with hd | hd
          · exact Or.inl hd
          · exact Or.inr ⟨rfl, List.mem_singleton.mp hd⟩
      · exact Or.inl hd
    rcases hcases with hd | ⟨hk, rfl⟩
    · obtain ⟨hq, ho⟩ := hl.listed q w o d hd
      by_cases hk : (d, w) = (c, u)
      · obtain ⟨rfl, rfl⟩ := Prod.mk.inj hk
        have hqzero : q ≠ 0 := by
          rintro rfl
          rw [hl.rooted] at hd
          cases hd
        rw [hq] at hparent
        unfold SameStake at hsame
        rw [hq, ho] at hsame
        rw [hnew.1, hnew.2]
        exact ⟨(hparent.resolve_left hqzero).symm, (hsame.resolve_left hqzero).symm⟩
      · rw [(hother _ hk).1, (hother _ hk).2]
        exact ⟨hq, ho⟩
    · rw [Prod.mk.injEq, Prod.mk.injEq] at hk
      obtain ⟨rfl, rfl, rfl⟩ := hk
      exact hnew
  · intro w o
    have hk : (0, w, o) ≠ (p, u, po) := fun heq => hp (Prod.mk.inj heq).1.symm
    rw [hlists, Store.set_get_of_ne _ _ hk]
    exact hl.rooted w o

end Open

/-- Links are sound wherever they are kept. -/
theorem Linked.same {v v' : VaultState} (h : Linked v) (hs : SameDebts v v') : Linked v' := by
  constructor
  · rw [hs.childDebt, hs.childParent, hs.childParentOutcome, hs.childMarketsOf]
    exact h.parented
  · rw [hs.childParent, hs.childParentOutcome, hs.childMarketsOf]
    exact h.listed
  · rw [hs.childMarketsOf]
    exact h.rooted

namespace LoansAgree

variable {v v' : VaultState} {p : MarketId} {u : Address}

/-- The records of loans agree with each other wherever they are kept. -/
theorem same (h : LoansAgree v p u) (hs : SameDebts v v') (hsum : v'.childUsed = v.childUsed) :
    LoansAgree v' p u := by
  refine h.congr ?_ ?_ ?_ ?_
  · intro o
    rw [hs.parentDebt]
  · intro o
    rw [hs.childUsedByOutcome]
  · rw [hsum]
  · intro o
    exact owedBy_congr hs.childParent hs.childParentOutcome (fun c _ => by rw [hs.childDebt])

/-- Withholding from other stakes, or nothing, keeps the records in agreement;
the default of a worthless stake takes its whole debt away. -/
theorem withholdParentDebt (h : LoansAgree v p u) (hv : Sane v) (hl : Linked v) {m : MarketId}
    {u' : Address} {o : Outcome} {g claim x : ℤ} (hclaim : 0 ≤ claim) (hg : g = 0 → claim = 0)
    (hidle : m = p → u' = u → v.parentDebt (m, u', o) = 0 ∨ claim = 0)
    (hs : withholdParentDebt v m u' o g claim = .ok (x, v')) : LoansAgree v' p u := by
  have hself : LoansAgree
      { v with parentDebt := v.parentDebt.set (m, u', o) (v.parentDebt (m, u', o)) } p u := by
    refine h.congr ?_ (fun _ => rfl) rfl (fun _ => owedBy_congr rfl rfl (fun _ _ => rfl))
    intro o'
    dsimp only
    rw [Store.set_get]
    split
    · next hk => rw [hk]
    · rfl
  obtain ⟨_, _, rfl⟩ | ⟨hdebt, hpos, rfl, _, rfl⟩ | ⟨_, _, _, _, rfl⟩ | ⟨_, _, _, hd⟩ :=
    withholdParentDebt_cases hs hclaim hg
  · exact h
  · have hother : ∀ o' : Outcome, (p, u, o') ≠ (m, u', o) := by
      intro o' heq
      rw [Prod.mk.injEq, Prod.mk.injEq] at heq
      have hnone := hidle heq.1.symm heq.2.1.symm
      omega
    have hmarket : (p, u) ≠ (m, u') := by
      intro heq
      obtain ⟨rfl, rfl⟩ := Prod.mk.inj heq
      exact hother o rfl
    exact h.congr (fun o' => Store.set_get_of_ne _ _ (hother o'))
      (fun o' => Store.set_get_of_ne _ _ (hother o')) (Store.set_get_of_ne _ _ hmarket)
      (fun o' => owedBy_congr rfl rfl (fun _ _ => rfl))
  · exact hself
  · refine hself.resolveParentDefault (hv.withParentDebt_self _) ⟨hl.parented, hl.listed, hl.rooted⟩
      ?_ hd
    intro _ _
    dsimp only
    rw [Store.set_get_self]

/-- The upstream share of a claim keeps the records in agreement. -/
theorem repayUpstream (h : LoansAgree v p u) (hv : Sane v) (hl : Linked v) {m : MarketId}
    {u' : Address} {claim x : ℤ} (hs : repayUpstream v m u' claim = .ok (x, v')) :
    LoansAgree v' p u := by
  obtain ⟨v1, h1, rfl⟩ := repayUpstream_steps hs
  have hsettled := h.settleChildDebt hv hl h1
  split
  · exact hsettled.same ⟨rfl, rfl, rfl, rfl, rfl, rfl⟩ rfl
  · exact hsettled

/-- The settlement of a resolved redemption keeps the records of every market
in agreement that it withholds nothing from. -/
theorem settleResolved (h : LoansAgree v p u) (hv : Sane v) (hl : Linked v) {m : MarketId}
    {u' : Address} {final o : Outcome} {amount gross payout : ℤ} (hpos : 0 < amount)
    (hidle : m = p → u' = u → v.parentDebt (m, u', o) = 0 ∨
      redemptionValue v m final o amount ≤ effectiveDebt v m u')
    (hs : settleResolved v m u' final o amount = .ok (gross, payout, v')) : LoansAgree v' p u := by
  obtain ⟨v1, v2, paid, v3, withheld, h1, h2, h3, h4, _⟩ := settleResolved_steps hs
  obtain ⟨hvalue, hgross, hv1, carry, rfl⟩ := hv.grossPayout hpos h1
  obtain rfl := addRedeemed_ok h2
  let v2 : VaultState := { v with
    invalidDustCarry := carry
    redeemed := v.redeemed.set (m, u', o) (v.redeemed (m, u', o) + amount) }
  have hv2 : Sane v2 := { hv1 with }
  have hl2 : Linked v2 := ⟨hl.parented, hl.listed, hl.rooted⟩
  have hagree2 : LoansAgree v2 p u := h.same ⟨rfl, rfl, rfl, rfl, rfl, rfl⟩ rfl
  obtain ⟨hpaid, hpaid0, hv3, hfall⟩ := hv2.repayUpstream hgross h3
  have hl3 := hl2.fall (.repayUpstream h3) (NoNewDebt.repayUpstream hv2 h3).childDebt
    hv3.childDebt_nonneg
  have heffective : effectiveDebt v2 m u' = effectiveDebt v m u' := rfl
  rw [heffective] at hpaid
  refine (hagree2.repayUpstream hv2 hl2 h3).withholdParentDebt hv3 hl3 (by omega) (by omega) ?_ h4
  intro hm hu
  have hle : v3.parentDebt (m, u', o) ≤ v.parentDebt (m, u', o) := hfall (m, u', o)
  have hnonneg := hv3.parentDebt_nonneg (m, u', o)
  rcases hidle hm hu with hnone | hcovered <;> omega

/-- The settlement of a cancelled redemption does too. -/
theorem settleCancelled (h : LoansAgree v p u) (hv : Sane v) (hl : Linked v) {m : MarketId}
    {u' : Address} {o : Outcome} {amount payout : ℤ} (hpos : 0 < amount)
    (hidle : m = p → u' = u → v.parentDebt (m, u', o) = 0 ∨
      redemptionValue v m .invalid o amount = 0)
    (hs : settleCancelled v m u' o amount = .ok (payout, v')) : LoansAgree v' p u := by
  obtain ⟨gross, v1, withheld, h1, h2, _⟩ := settleCancelled_steps hs
  obtain ⟨hvalue, rfl, hv1⟩ := hv.refundWithCarry hpos h1
  have hcarry := hv.carry m
  have hagree1 : LoansAgree { v with
      invalidDustCarry := v.invalidDustCarry.set m ((v.invalidDustCarry m + amount) % 2) } p u :=
    h.same ⟨rfl, rfl, rfl, rfl, rfl, rfl⟩ rfl
  refine hagree1.withholdParentDebt hv1 ⟨hl.parented, hl.listed, hl.rooted⟩ (by omega)
    (fun hk => hk) ?_ h2
  intro hm hu
  rcases hidle hm hu with hnone | hworthless
  · exact Or.inl hnone
  · unfold redemptionValue at hworthless
    exact Or.inr (hvalue.trans hworthless)

/-- Taking proceeds out touches no loan. -/
theorem extractProceeds (h : LoansAgree v p u) {m : MarketId} {u' : Address} {o : Outcome}
    {sold x : ℤ} (hs : extractProceeds v m u' o sold x = .ok v') : LoansAgree v' p u := by
  have hsame := extractProceeds_debts hs
  obtain ⟨_, _, _, rfl⟩ := extractProceeds_steps hs
  exact h.same hsame rfl

/-- A liquidated parent position takes away exactly what it writes off. -/
theorem liquidateRelease (h : LoansAgree v p u) (hv : Sane v) (hl : Linked v) {q : MarketId}
    {u' : Address} {o : Outcome} {sold x pool remainder repaid : ℤ} (hpool : 0 ≤ pool)
    {v1 v2 : VaultState} (h1 : Vault.extractProceeds v q u' o sold x = .ok v1)
    (h2 : Vault.settleChildren v1 u' pool 0 (v1.childMarketsOf (q, u', o)) =
      .ok (remainder, repaid, v2))
    (h3 : Vault.resolveParentDefault v2 q u' o (v2.childUsedByOutcome (q, u', o)) = .ok v') :
    LoansAgree v' p u := by
  have hv1 := hv.extractProceeds h1
  have hv2 := (hv1.settleChildren _ hpool h2).1
  have hl1 := hl.same (extractProceeds_debts h1)
  have hl2 := hl1.fall (.settleChildren _ h2) (NoNewDebt.settleChildren _ hv1 h2).childDebt
    hv2.childDebt_nonneg
  have hagree2 := (h.extractProceeds h1).settleChildren _ hv1 hl1 h2
  refine hagree2.resolveParentDefault hv2 hl2 ?_ h3
  rintro rfl rfl
  exact hagree2.used o

/-- A liquidated child position takes away what it writes off when its debt is
all of the parent's, or the proceeds cover it. -/
theorem liquidateChildRelease (h : LoansAgree v p u) (hv : Sane v) (hl : Linked v) {c : MarketId}
    {u' : Address} {o : Outcome} {sold x repaid : ℤ} (hr : 0 < x - bpsOf x liquidationBonusBps)
    (hexact : v.childParent (c, u') = p → ChildDefaultExact v c u' x)
    {v1 v2 : VaultState} (h1 : Vault.extractProceeds v c u' o sold x = .ok v1)
    (h2 : Vault.settleChildDebt v1 c u' (x - bpsOf x liquidationBonusBps) = .ok (repaid, v2))
    (h3 : (if v2.childDebt (c, u') > 0 ∧ v2.childParent (c, u') ≠ 0 then
      Vault.resolveParentDefault v2 (v2.childParent (c, u')) u' (v2.childParentOutcome (c, u'))
        (v2.childDebt (c, u')) else .ok v2) = .ok v') : LoansAgree v' p u := by
  have hv1 := hv.extractProceeds h1
  have hv2 := hv1.settleChildDebt h2
  have hsame := extractProceeds_debts h1
  have hl1 := hl.same hsame
  have hl2 := hl1.fall (.settleChildDebt h2) (NoNewDebt.settleChildDebt hv1 h2).childDebt
    hv2.childDebt_nonneg
  have hagree1 := h.extractProceeds h1
  have hagree2 := hagree1.settleChildDebt hv1 hl1 h2
  split at h3
  · next hleft =>
    refine hagree2.resolveParentDefault hv2 hl2 ?_ h3
    rintro hp rfl
    have hlinks := SameLinks.settleChildDebt h2
    have hexact1 : ChildDefaultExact v1 c u' x := by
      have hcovers := hexact (by rw [← hp, hlinks.childParent, hsame.childParent])
      unfold ChildDefaultExact at hcovers ⊢
      rw [hsame.childParent, hsame.childParentOutcome, hsame.childDebt, hsame.parentDebt]
      exact hcovers
    have hparent := hleft.2
    rw [hlinks.childParent] at hparent ⊢
    rw [hlinks.childParentOutcome]
    exact hexact1.settled hv1 hr hparent h2 hleft.1
  · rw [← ok_ok.mp h3]
    exact hagree2

end LoansAgree

/-- The market whose tokens an invocation redeems. -/
def VaultOp.redeems : VaultOp → Option MarketId
  | redeemResolved _ _ m _ _ => some m
  | redeemCancelled _ _ m _ _ => some m
  | _ => none

/-- Draws that go to the stake the child records already, if it records one. -/
def DrawsSameStake (w : World) : VaultOp → Prop
  | .openChildCreditForTrade user _ po c _ _ => SameStake w.vault c user po
  | _ => True

/-- Invocations that keep the records of the loans from one market in agreement:
draws go to the stake the child records, a liquidated child of the market writes
off what it takes away, and redemptions of the market withhold nothing. -/
def KeepsAgreement (w : World) (p : MarketId) : VaultOp → Prop
  | .openChildCreditForTrade user _ po c _ _ => SameStake w.vault c user po
  | .liquidateChildRelease _ user _ c _ _ proceeds =>
    w.vault.childParent (c, user) = p → ChildDefaultExact w.vault c user proceeds
  | .redeemResolved token user m o amount =>
    m = p → WithholdsNothing w (.redeemResolved token user m o amount)
  | .redeemCancelled token user m o amount =>
    m = p → WithholdsNothing w (.redeemCancelled token user m o amount)
  | _ => True

/-- Every such invocation keeps the records of the market's loans in agreement. -/
theorem VaultOp.exec_agrees {ctx : Ctx} {w w' : World} (hw : Sane w.vault)
    (hl : Linked w.vault) {p : MarketId} {u : Address} {op : VaultOp} (hop : KeepsAgreement w p op)
    (h : op.exec ctx w = .ok w') (hagree : LoansAgree w.vault p u) : LoansAgree w'.vault p u := by
  cases op with
  | setAdmin admin =>
    obtain rfl := admin_ok h
    exact hagree.same ⟨rfl, rfl, rfl, rfl, rfl, rfl⟩ rfl
  | upgrade wasmHash =>
    obtain ⟨_, _, h⟩ := bind_ok.mp h
    obtain rfl := pure_ok.mp h
    exact hagree
  | setRole role module =>
    obtain rfl := admin_ok h
    exact hagree.same ⟨rfl, rfl, rfl, rfl, rfl, rfl⟩ rfl
  | setTreasury treasury =>
    obtain rfl := admin_ok h
    exact hagree.same ⟨rfl, rfl, rfl, rfl, rfl, rfl⟩ rfl
  | pause paused =>
    obtain rfl := admin_ok h
    exact hagree.same ⟨rfl, rfl, rfl, rfl, rfl, rfl⟩ rfl
  | depositForMarket token user m x =>
    obtain ⟨_, _, _, v, _, hv, rfl⟩ := depositForMarket_steps h
    rw [recordDeposit_ok hv]
    exact hagree.same ⟨rfl, rfl, rfl, rfl, rfl, rfl⟩ rfl
  | recordCashStake user m o x y =>
    obtain ⟨_, rfl⟩ := recordCashStake_steps h
    exact hagree.same ⟨rfl, rfl, rfl, rfl, rfl, rfl⟩ rfl
  | fundChildPrediction user q c x => cases h
  | openChildCreditForTrade user q po c co x =>
    obtain ⟨_, _, _, _, hparent, _, v1, v2, h1, h2, rfl⟩ := openChildCreditForTrade_steps h
    obtain ⟨_, _, rfl⟩ := reallocateBacking_steps h2
    have hdrawn := hagree.recordLoan hl hparent hop h1
    exact hdrawn.same ⟨rfl, rfl, rfl, rfl, rfl, rfl⟩ rfl
  | repayChildCollateral token user c x =>
    obtain ⟨y, h⟩ := world_ok.mp h
    obtain ⟨_, _, v, _, hsettle, rfl⟩ := repayChildCollateral_steps h
    exact hagree.settleChildDebt hw hl hsettle
  | releaseTradePayout token user m o sold x =>
    obtain ⟨_, _, _, _, _, v, _, hv, rfl⟩ := releaseTradePayout_steps h
    exact hagree.extractProceeds hv
  | liquidateRelease token user keeper q o sold x =>
    obtain ⟨y, h⟩ := world_ok.mp h
    obtain ⟨_, hx, _, _, v1, remainder, v2, v3, b, h1, h2, h3, rfl⟩ := liquidateRelease_steps h
    exact hagree.liquidateRelease hw hl (pool_pos hx).le h1 h2 h3
  | liquidateChildRelease token user keeper c o sold x =>
    obtain ⟨y, h⟩ := world_ok.mp h
    obtain ⟨_, hx, _, _, v1, v2, v3, b, h1, h2, h3, rfl⟩ := liquidateChildRelease_steps h
    exact hagree.liquidateChildRelease hw hl (pool_pos hx) hop h1 h2 h3
  | redeem token user m final o x =>
    obtain ⟨_, h⟩ := world_ok.mp h
    cases h
  | redeemResolved token user m o amount =>
    obtain ⟨y, h⟩ := world_ok.mp h
    obtain ⟨hpos, market, gross, v1, _, v2, _, hmarket, _, _, hsettle, _, hretire, hpay⟩ :=
      redeemResolved_steps h
    obtain ⟨_, rfl⟩ := payRedemption_ok hpay
    obtain ⟨_, _, rfl⟩ := retireClaim_ok hretire
    have hsettled := hagree.settleResolved hw hl hpos
      (fun hm _ => (hop hm).imp_right (fun hcovers => hcovers market hmarket)) hsettle
    exact hsettled.same ⟨rfl, rfl, rfl, rfl, rfl, rfl⟩ rfl
  | redeemCancelled token user m o amount =>
    obtain ⟨y, h⟩ := world_ok.mp h
    obtain ⟨hpos, market, _, v1, _, _, _, _, _, hsettle, hpay⟩ := redeemCancelled_steps h
    obtain ⟨_, rfl⟩ := payRedemption_ok hpay
    have hsettled := hagree.settleCancelled hw hl hpos (fun hm _ => hop hm) hsettle
    exact hsettled.same ⟨rfl, rfl, rfl, rfl, rfl, rfl⟩ rfl
  | assertPositionTransferAllowed sender m o x =>
    obtain ⟨_, _, h⟩ := bind_ok.mp h
    obtain rfl := pure_ok.mp h
    exact hagree
  | lockBond token user r m x d =>
    obtain ⟨_, _, _, _, _, rfl⟩ := lockBond_ok h
    exact hagree.same ⟨rfl, rfl, rfl, rfl, rfl, rfl⟩ rfl
  | releaseBond token user r x d =>
    obtain ⟨_, _, _, _, _, _, _, _, _, _, rfl⟩ := payBond_ok.mp h
    exact hagree.same ⟨rfl, rfl, rfl, rfl, rfl, rfl⟩ rfl
  | slashBond token user r x d recipient =>
    obtain ⟨_, _, _, _, _, _, _, _, _, _, rfl⟩ := payBond_ok.mp h
    exact hagree.same ⟨rfl, rfl, rfl, rfl, rfl, rfl⟩ rfl
  | collectFee m lp protocol cod =>
    obtain ⟨_, _, _, _, _, rfl⟩ := collectFee_steps h
    exact hagree.same ⟨rfl, rfl, rfl, rfl, rfl, rfl⟩ rfl
  | claimLpFees token m lp x =>
    obtain ⟨_, _, _, _, rfl⟩ := claimLpFees_steps h
    exact hagree.same ⟨rfl, rfl, rfl, rfl, rfl, rfl⟩ rfl
  | sweepProtocolFees token m =>
    obtain ⟨y, h⟩ := world_ok.mp h
    obtain ⟨_, _, _, _, _, rfl⟩ := sweepProtocolFees_steps h
    exact hagree.same ⟨rfl, rfl, rfl, rfl, rfl, rfl⟩ rfl

/-- Draws from the same stake keep the links sound while market 0 is not registered. -/
theorem VaultOp.exec_linked {ctx : Ctx} (hctx : Outside .vault ctx) {w w' : World}
    (hw : Sane w.vault) (hzero : w.registry.market 0 = none) {op : VaultOp}
    (hop : DrawsSameStake w op) (h : op.exec ctx w = .ok w') (hl : Linked w.vault) :
    Linked w'.vault := by
  by_cases hopens : op.opensCredit = true
  · cases op with
    | openChildCreditForTrade user q po c co x =>
      obtain ⟨_, _, ⟨market, hmarket, _⟩, _, hparent, _, v1, v2, h1, h2, rfl⟩ :=
        openChildCreditForTrade_steps h
      obtain ⟨_, _, rfl⟩ := reallocateBacking_steps h2
      have hq : q ≠ 0 := by
        rintro rfl
        rw [hzero] at hmarket
        cases hmarket
      exact (hl.recordLoan hq hparent hop h1).same ⟨rfl, rfl, rfl, rfl, rfl, rfl⟩
    | _ => cases hopens
  · rw [Bool.not_eq_true] at hopens
    exact hl.fall (op.exec_links hw hopens h) (op.exec_debts hctx hw hopens h).childDebt
      (op.exec_sane hctx hw h).childDebt_nonneg

/-- A vault without loans agrees with itself. -/
theorem freshVault_agrees (admin treasury : Address) (roles : Store Role (Option Address)) :
    Linked { freshVault admin treasury with roles := roles } ∧
      ∀ p u, LoansAgree { freshVault admin treasury with roles := roles } p u :=
  ⟨⟨fun _ _ h => absurd rfl h, fun _ _ _ _ h => absurd h List.not_mem_nil, fun _ _ => rfl⟩,
    fun _ _ => ⟨fun _ => rfl, rfl, fun _ => rfl⟩⟩

end DikeProtocol.Vault
