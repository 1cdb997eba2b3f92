import DikeProtocol.Vault.Agreement
import DikeProtocol.Vault.Loans

/-!
# Liquidating one child of a parent stake

What the proceeds of a liquidated child do not repay is handed to the default
routine of the whole parent stake, which forgets the parent debt altogether.
So the other children keep their debts and their backing record exactly when
nothing is left to default, or when they owe nothing.
-/

namespace DikeProtocol.Vault

open Lib

/-- The debt ledgers of a vault agree: no debt is negative, whoever owes is
listed under its parent stake, and every stake is owed what its children owe. -/
structure DebtsAgree (v : VaultState) : Prop where
  childDebt_nonneg : ∀ k, 0 ≤ v.childDebt k
  parentDebt_nonneg : ∀ k, 0 ≤ v.parentDebt k
  linked : Linked v
  loans : ∀ p u, LoansAgree v p u

/-- One child's debt is gone from all ledgers, and no other debt changed. -/
structure ChildCleared (v v' : VaultState) (c : MarketId) (u : Address) : Prop where
  cleared : v'.childDebt (c, u) = 0
  siblings : ∀ c', c' ≠ c → v'.childDebt (c', u) = v.childDebt (c', u)
  otherChildren : ∀ c' u', u' ≠ u → v'.childDebt (c', u') = v.childDebt (c', u')
  otherParents : ∀ p' u' o', u' ≠ u → v'.parentDebt (p', u', o') = v.parentDebt (p', u', o')
  parentDebt : v'.parentDebt (v.childParent (c, u), u, v.childParentOutcome (c, u)) =
    v.parentDebt (v.childParent (c, u), u, v.childParentOutcome (c, u)) - v.childDebt (c, u)
  usedByOutcome : v'.childUsedByOutcome (v.childParent (c, u), u, v.childParentOutcome (c, u)) =
    v.childUsedByOutcome (v.childParent (c, u), u, v.childParentOutcome (c, u)) -
      v.childDebt (c, u)
  used : v'.childUsed (v.childParent (c, u), u) =
    v.childUsed (v.childParent (c, u), u) - v.childDebt (c, u)

/-- No other child of the stake that funds this one owes anything. -/
def OnlyDebtor (v : VaultState) (c : MarketId) (u : Address) : Prop :=
  ∀ c', c' ≠ c → v.childParent (c', u) = v.childParent (c, u) →
    v.childParentOutcome (c', u) = v.childParentOutcome (c, u) → v.childDebt (c', u) = 0

section Ledgers

variable {v v' : VaultState} {c : MarketId} {u : Address}

/-- A child whose debt is all its stake is owed is the only debtor, and conversely. -/
theorem onlyDebtor_iff (hv : ∀ k, 0 ≤ v.childDebt k) : OnlyDebtor v c u ↔
    v.childDebt (c, u) = owedBy v (v.childParent (c, u)) u (v.childParentOutcome (c, u)) := by
  have hrest : owedBy (withChildDebt v c u 0) (v.childParent (c, u)) u
      (v.childParentOutcome (c, u)) =
      owedBy v (v.childParent (c, u)) u (v.childParentOutcome (c, u)) - v.childDebt (c, u) := by
    have hset : owedBy (withChildDebt v c u 0) (v.childParent (c, u)) u
        (v.childParentOutcome (c, u)) =
        owedBy v (v.childParent (c, u)) u (v.childParentOutcome (c, u)) + _ :=
      owedBy_set rfl rfl rfl
    rw [hset, if_pos ⟨rfl, rfl, rfl⟩]
    ring
  constructor
  · intro honly
    have hnone : owedBy (withChildDebt v c u 0) (v.childParent (c, u)) u
        (v.childParentOutcome (c, u)) = 0 := by
      apply owedBy_eq_zero
      intro c' hp ho
      unfold withChildDebt
      dsimp only
      rw [Store.set_get]
      split
      · rfl
      · next hne => exact honly c' (fun hk => hne (by rw [hk])) hp ho
    omega
  · intro hall c' hne hp ho
    have hnonneg := hv (c', u)
    have hkept : (withChildDebt v c u 0).childDebt (c', u) = v.childDebt (c', u) :=
      Store.set_get_of_ne _ _ (fun hk => hne (Prod.mk.inj hk).1)
    have hle := debt_le_owedBy (v := withChildDebt v c u 0) (nonneg_set hv le_rfl) c' u
    have hsame : owedBy (withChildDebt v c u 0) ((withChildDebt v c u 0).childParent (c', u)) u
        ((withChildDebt v c u 0).childParentOutcome (c', u)) =
        owedBy (withChildDebt v c u 0) (v.childParent (c, u)) u
          (v.childParentOutcome (c, u)) := by
      rw [← hp, ← ho]
      rfl
    rw [hkept, hsame, hrest] at hle
    omega

/-- Clearing a default that only one listed child owes clears that child. -/
theorem clearChildDebts_only (children : List MarketId) {p : MarketId} {o : Outcome} {x : ℤ}
    (hx : x ≠ 0) (hc : c ∈ children) (howes : v.childDebt (c, u) = x)
    (hothers : ∀ c' ∈ children, c' ≠ c → v.childDebt (c', u) = 0)
    (h : clearChildDebts v p u o x children = .ok v') : v' = clearedChild v p u o c x := by
  induction children with
  | nil => cases hc
  | cons child children ih =>
    obtain ⟨hzero, _⟩ | ⟨_, hnone, hrest⟩ | ⟨_, hdebt, hrest⟩ := clearChildDebts_cons h
    · exact absurd hzero hx
    · have hne : child ≠ c := by
        rintro rfl
        exact hx (howes.symm.trans hnone)
      have hmem := (List.mem_cons.mp hc).resolve_left (fun hk => hne hk.symm)
      exact ih hmem (fun c' hc' => hothers c' (List.mem_cons_of_mem child hc')) hrest
    · have hself : child = c := by
        by_contra hne
        exact hdebt (hothers child List.mem_cons_self hne)
      subst hself
      rw [howes, min_self, sub_self] at hrest
      cases children with
      | nil => exact (ok_ok.mp hrest).symm
      | cons next rest =>
        unfold clearChildDebts at hrest
        rw [if_pos rfl] at hrest
        exact (ok_ok.mp hrest).symm

/-- Where the ledgers agree, a child owes no more than its stake is owed. -/
theorem DebtsAgree.debt_le_parent (h : DebtsAgree v) : v.childDebt (c, u) ≤
    v.parentDebt (v.childParent (c, u), u, v.childParentOutcome (c, u)) := by
  have hle := debt_le_owedBy h.childDebt_nonneg c u
  rw [(h.loans _ u).owed] at hle
  exact hle

/-- Nor more than the recorded uses of its stake and of its parent market. -/
theorem DebtsAgree.debt_le_used (h : DebtsAgree v) :
    v.childDebt (c, u) ≤
        v.childUsedByOutcome (v.childParent (c, u), u, v.childParentOutcome (c, u)) ∧
      v.childDebt (c, u) ≤ v.childUsed (v.childParent (c, u), u) := by
  have hloans := h.loans (v.childParent (c, u)) u
  have hle := h.debt_le_parent (c := c) (u := u)
  have hused := hloans.used (v.childParentOutcome (c, u))
  have hsum := le_overOutcomes
    (f := fun o => v.childUsedByOutcome (v.childParent (c, u), u, o))
    (fun o => (hloans.used o).ge.trans' (h.parentDebt_nonneg _)) (v.childParentOutcome (c, u))
  rw [← hloans.usedSum] at hsum
  constructor <;> omega

/-- A repayment lowers every record of the loan by what was repaid. -/
theorem DebtsAgree.repaid (h : DebtsAgree v) {x : ℤ} (hx : x ≤ v.childDebt (c, u)) :
    (repaidUpstream v c u x).childUsedByOutcome
        (v.childParent (c, u), u, v.childParentOutcome (c, u)) =
      v.childUsedByOutcome (v.childParent (c, u), u, v.childParentOutcome (c, u)) - x ∧
    (repaidUpstream v c u x).childUsed (v.childParent (c, u), u) =
      v.childUsed (v.childParent (c, u), u) - x := by
  obtain ⟨hused, hsum⟩ := h.debt_le_used (c := c) (u := u)
  unfold repaidUpstream
  dsimp only
  rw [Store.set_get_self, Store.set_get_self]
  constructor <;> omega

/-- A repayment of the whole debt clears the child. -/
theorem DebtsAgree.repaid_clears (h : DebtsAgree v) :
    ChildCleared v (repaidUpstream v c u (v.childDebt (c, u))) c u := by
  obtain ⟨hused, hsum⟩ := h.repaid (c := c) (u := u) le_rfl
  refine ⟨?_, ?_, ?_, ?_, ?_, hused, hsum⟩
  · unfold repaidUpstream
    dsimp only
    rw [Store.set_get_self, sub_self]
  · intro c' hne
    exact Store.set_get_of_ne _ _ (fun hk => hne (Prod.mk.inj hk).1)
  · intro c' u' hne
    exact Store.set_get_of_ne _ _ (fun hk => hne (Prod.mk.inj hk).2)
  · intro p' u' o' hne
    exact Store.set_get_of_ne _ _ (fun hk => hne (Prod.mk.inj (Prod.mk.inj hk).2).1)
  · exact Store.set_get_self _ _ _

/-- A default after a repayment of `x` clears the child when it is the only debtor. -/
theorem DebtsAgree.default_clears (h : DebtsAgree v) (honly : OnlyDebtor v c u) {x : ℤ}
    (hpos : 0 ≤ x) (hx : x < v.childDebt (c, u))
    (hd : resolveParentDefault (repaidUpstream v c u x) (v.childParent (c, u)) u
      (v.childParentOutcome (c, u)) (v.childDebt (c, u) - x) = .ok v') :
    ChildCleared v v' c u := by
  have hwhole := (onlyDebtor_iff h.childDebt_nonneg).mp honly
  rw [(h.loans _ u).owed] at hwhole
  obtain ⟨hused, hsum⟩ := h.repaid (c := c) (u := u) hx.le
  obtain ⟨hused_le, hsum_le⟩ := h.debt_le_used (c := c) (u := u)
  obtain ⟨v1, hlinks, hchild, _, hused1, hsum1, hparent, hclear⟩ :=
    resolveParentDefault_clears (by omega) hd
  have howes : v1.childDebt (c, u) = v.childDebt (c, u) - x := by
    rw [hchild]
    exact Store.set_get_self _ _ _
  have hkept : ∀ k, k ≠ (c, u) → v1.childDebt k = v.childDebt k := by
    intro k hk
    rw [hchild]
    exact Store.set_get_of_ne _ _ hk
  have hkeptParent : ∀ k, k ≠ (v.childParent (c, u), u, v.childParentOutcome (c, u)) →
      v1.parentDebt k = v.parentDebt k := by
    intro k hk
    rw [hparent, Store.set_get_of_ne _ _ hk]
    exact Store.set_get_of_ne _ _ hk
  have hlisted : c ∈ v.childMarketsOf (v.childParent (c, u), u, v.childParentOutcome (c, u)) :=
    (h.linked.parented c u (by omega)).2
  have hothers : ∀ c' ∈ v.childMarketsOf (v.childParent (c, u), u, v.childParentOutcome (c, u)),
      c' ≠ c → v1.childDebt (c', u) = 0 := by
    intro c' hmem hne
    obtain ⟨hp, ho⟩ := h.linked.listed _ u _ c' hmem
    rw [hkept _ (fun hk => hne (Prod.mk.inj hk).1)]
    exact honly c' hne hp ho
  obtain rfl := clearChildDebts_only _ (by omega) hlisted howes hothers hclear
  unfold clearedChild
  constructor
  · dsimp only
    rw [Store.set_get_self, howes, sub_self]
  · intro c' hne
    have hk : (c', u) ≠ (c, u) := fun hk => hne (Prod.mk.inj hk).1
    dsimp only
    rw [Store.set_get_of_ne _ _ hk, hkept _ hk]
  · intro c' u' hne
    have hk : (c', u') ≠ (c, u) := fun hk => hne (Prod.mk.inj hk).2
    dsimp only
    rw [Store.set_get_of_ne _ _ hk, hkept _ hk]
  · intro p' u' o' hne
    exact hkeptParent _ (fun hk => hne (Prod.mk.inj (Prod.mk.inj hk).2).1)
  · dsimp only
    rw [hparent, Store.set_get_self, ← hwhole, sub_self]
  · dsimp only
    rw [Store.set_get_self, hused1, hused]
    omega
  · dsimp only
    rw [Store.set_get_self, hsum1, hsum]
    omega

/-- A default writes off all that the stake is owed. -/
theorem resolveParentDefault_parentDebt {p : MarketId} {o : Outcome} {x : ℤ} (hx : 0 < x)
    (hd : resolveParentDefault v p u o x = .ok v') : v'.parentDebt (p, u, o) = 0 := by
  obtain ⟨v1, _, _, _, _, _, hparent, hclear⟩ := resolveParentDefault_clears hx hd
  obtain ⟨_, _, _, rfl, _⟩ := clearChildDebts_ok _ hclear
  dsimp only
  rw [hparent, Store.set_get_self]

/-- A default after a repayment of `x` clears the child exactly when it is the only debtor. -/
theorem DebtsAgree.default_clears_iff (h : DebtsAgree v) {x : ℤ} (hpos : 0 ≤ x)
    (hx : x < v.childDebt (c, u))
    (hd : resolveParentDefault (repaidUpstream v c u x) (v.childParent (c, u)) u
      (v.childParentOutcome (c, u)) (v.childDebt (c, u) - x) = .ok v') :
    ChildCleared v v' c u ↔ OnlyDebtor v c u := by
  refine ⟨fun hcleared => ?_, fun honly => h.default_clears honly hpos hx hd⟩
  have hnone := resolveParentDefault_parentDebt (by omega) hd
  rw [onlyDebtor_iff h.childDebt_nonneg, (h.loans _ u).owed]
  have hleft := hcleared.parentDebt
  omega

end Ledgers

section Liquidation

variable {v v' : VaultState} {c : MarketId} {u : Address} {o : Outcome} {x : ℤ}

/-- Ledgers agree wherever they are kept. -/
theorem DebtsAgree.extractProceeds (h : DebtsAgree v) {sold : ℤ}
    (hs : Vault.extractProceeds v c u o sold x = .ok v') : DebtsAgree v' := by
  have hsame := extractProceeds_debts hs
  constructor
  · rw [hsame.childDebt]
    exact h.childDebt_nonneg
  · rw [hsame.parentDebt]
    exact h.parentDebt_nonneg
  · exact h.linked.same hsame
  · exact fun p u => (h.loans p u).extractProceeds hs

/-- What is owed decides what clears a child, and which debts those are. -/
theorem ChildCleared.same {v1 : VaultState} (hs : SameDebts v v1)
    (hsum : v1.childUsed = v.childUsed) :
    ChildCleared v1 v' c u ↔ ChildCleared v v' c u := by
  have hiff : ∀ w1 w2 : VaultState, w1.childDebt = w2.childDebt →
      w1.parentDebt = w2.parentDebt → w1.childUsedByOutcome = w2.childUsedByOutcome →
      w1.childUsed = w2.childUsed → w1.childParent = w2.childParent →
      w1.childParentOutcome = w2.childParentOutcome →
      ChildCleared w1 v' c u → ChildCleared w2 v' c u := by
    intro w1 w2 h1 h2 h3 h4 h5 h6 h
    exact ⟨h.cleared, h1 ▸ h.siblings, h1 ▸ h.otherChildren, h2 ▸ h.otherParents,
      h1 ▸ h2 ▸ h5 ▸ h6 ▸ h.parentDebt, h1 ▸ h3 ▸ h5 ▸ h6 ▸ h.usedByOutcome,
      h1 ▸ h4 ▸ h5 ▸ h.used⟩
  constructor
  · exact hiff v1 v hs.childDebt hs.parentDebt hs.childUsedByOutcome hsum hs.childParent
      hs.childParentOutcome
  · exact hiff v v1 hs.childDebt.symm hs.parentDebt.symm hs.childUsedByOutcome.symm hsum.symm
      hs.childParent.symm hs.childParentOutcome.symm

/-- Where the ledgers agree, proceeds repay as much of a debt as they cover. -/
theorem DebtsAgree.settleChildDebt (h : DebtsAgree v) (howes : v.childDebt (c, u) ≠ 0)
    (hx : 0 < x) {y : ℤ} (hs : Vault.settleChildDebt v c u x = .ok (y, v')) :
    v' = repaidUpstream v c u (min x (v.childDebt (c, u))) := by
  have hparent := (h.linked.parented c u howes).1
  have hnonneg := h.childDebt_nonneg (c, u)
  have hle := h.debt_le_parent (c := c) (u := u)
  have heffective : effectiveDebt v c u = v.childDebt (c, u) := by
    unfold effectiveDebt
    rw [if_neg]
    rintro ⟨_, hnone⟩
    omega
  obtain ⟨_, _, hr | hzero | ⟨hnone, _⟩⟩ | ⟨_, _, _, hnone⟩ | ⟨_, _, hroot, _⟩ |
    ⟨hy, _, _, _, rfl⟩ := settleChildDebt_cases hs
  · omega
  · exact absurd hzero howes
  · rw [heffective] at hnone
    omega
  · omega
  · exact absurd hroot hparent
  · rw [hy, heffective]

/-- Liquidating a child clears its debt and leaves every other debt alone exactly when the
proceeds less the keeper's bonus cover the debt, or no other child of the stake owes anything. -/
theorem liquidateChildRelease_clears_iff {ctx : Ctx} {w w' : World} {token : Asset}
    {keeper : Address} {sold y : ℤ} (hagree : DebtsAgree w.vault)
    (h : liquidateChildRelease ctx w token u keeper c o sold x = .ok (y, w')) :
    ChildCleared w.vault w'.vault c u ↔
      w.vault.childDebt (c, u) ≤ x - bpsOf x liquidationBonusBps ∨ OnlyDebtor w.vault c u := by
  obtain ⟨_, hx, _, howes, v1, v2, v3, b, h1, h2, h3, rfl⟩ := liquidateChildRelease_steps h
  have hsame := extractProceeds_debts h1
  have hagree1 := hagree.extractProceeds h1
  have hsum : v1.childUsed = w.vault.childUsed := by
    obtain ⟨_, _, _, rfl⟩ := extractProceeds_steps h1
    rfl
  have honly : OnlyDebtor v1 c u ↔ OnlyDebtor w.vault c u := by
    unfold OnlyDebtor
    rw [hsame.childDebt, hsame.childParent, hsame.childParentOutcome]
  dsimp only
  rw [← ChildCleared.same hsame hsum, ← honly, ← hsame.childDebt]
  rw [← hsame.childDebt] at howes
  have hpool := pool_pos hx
  have hnonneg := hagree1.childDebt_nonneg (c, u)
  obtain rfl := hagree1.settleChildDebt howes hpool h2
  by_cases hcovered : v1.childDebt (c, u) ≤ x - bpsOf x liquidationBonusBps
  · -- the whole debt is repaid and nothing defaults
    rw [min_eq_right hcovered] at h3
    have hclears := hagree1.repaid_clears (c := c) (u := u)
    rw [if_neg (fun hleft => by rw [hclears.cleared] at hleft; omega)] at h3
    obtain rfl := ok_ok.mp h3
    exact ⟨fun _ => Or.inl hcovered, fun _ => hclears⟩
  · -- what is left of the debt is handed to the default of the whole stake
    rw [min_eq_left (by omega)] at h3
    have hleft : (repaidUpstream v1 c u (x - bpsOf x liquidationBonusBps)).childDebt (c, u) =
        v1.childDebt (c, u) - (x - bpsOf x liquidationBonusBps) := Store.set_get_self _ _ _
    have hparent := (hagree1.linked.parented c u howes).1
    rw [hleft, if_pos ⟨by omega, hparent⟩] at h3
    rw [hagree1.default_clears_iff hpool.le (by omega) h3, or_iff_right hcovered]

end Liquidation

/-- Steps that keep all debt ledgers in agreement: draws from registered markets go to the stake
the child records, a liquidated child writes off what it takes away, and redemptions withhold
nothing. -/
def VaultStep.KeepsDebts (w : World) : VaultStep → Prop
  | .call _ op => w.registry.market 0 = none ∧ DrawsSameStake w op ∧ ∀ p, KeepsAgreement w p op
  | .outside _ => True

/-- Steps that keep the loans from one market in agreement: draws from registered markets go to
the stake the child records, a liquidated child of the market writes off what it takes away, and
redemptions of the market withhold nothing. -/
def VaultStep.KeepsLoansOf (p : MarketId) (w : World) : VaultStep → Prop
  | .call _ op => w.registry.market 0 = none ∧ DrawsSameStake w op ∧ KeepsAgreement w p op
  | .outside _ => True

/-- Steps that keep all ledgers in agreement keep each market's loans so. -/
theorem VaultStep.KeepsDebts.loansOf {w : World} {step : VaultStep} (h : step.KeepsDebts w)
    (p : MarketId) : step.KeepsLoansOf p w := by
  cases step with
  | call ctx op => exact ⟨h.1, h.2.1, h.2.2 p⟩
  | outside s => trivial

/-- Runs of such steps keep the loans from the market in agreement. -/
theorem loansAgree_of_keepsLoans (kept : List Asset) {p : MarketId} {w : World}
    (h : (vaultSystem kept).Guarded (fun w step => step.KeepsLoansOf p w) w) :
    Sane w.vault ∧ Linked w.vault ∧ ∀ u, LoansAgree w.vault p u := by
  refine h.invariant (I := fun w => Sane w.vault ∧ Linked w.vault ∧ ∀ u, LoansAgree w.vault p u)
    ?_ ?_
  · rintro w ⟨⟨admin, treasury, roles, hv⟩, _⟩
    rw [hv]
    obtain ⟨hlinked, hloans⟩ := freshVault_agrees admin treasury roles
    exact ⟨freshVault_sane admin treasury roles, hlinked, hloans p⟩
  · rintro w step w' ⟨hsane, hlinked, hloans⟩ hok hstep
    cases step with
    | call ctx op =>
      obtain ⟨hout, hexec⟩ := vaultSystem_call hstep
      obtain ⟨hzero, hdraws, hkeeps⟩ := hok
      exact ⟨op.exec_sane hout hsane hexec,
        op.exec_linked hout hsane hzero hdraws hexec hlinked,
        fun u => op.exec_agrees hsane hlinked hkeeps hexec (hloans u)⟩
    | outside s =>
      obtain ⟨_, rfl⟩ := vaultSystem_outside hstep
      exact ⟨hsane, hlinked, hloans⟩

/-- Runs of such steps keep all debt ledgers in agreement. -/
theorem debtsAgree_of_keepsDebts (kept : List Asset) {w : World}
    (h : (vaultSystem kept).Guarded (fun w step => step.KeepsDebts w) w) : DebtsAgree w.vault := by
  have hall : ∀ p, Sane w.vault ∧ Linked w.vault ∧ ∀ u, LoansAgree w.vault p u :=
    fun p => loansAgree_of_keepsLoans kept (h.mono fun _ _ hok => hok.loansOf p)
  obtain ⟨hsane, hlinked, _⟩ := hall 0
  exact ⟨hsane.childDebt_nonneg, hsane.parentDebt_nonneg, hlinked, fun p => (hall p).2.2⟩

/-- Deposits and cash stakes, and draws that go to the stake the child records. -/
def VaultStep.Lends (w : World) : VaultStep → Prop
  | .call _ (.depositForMarket _ _ _ _) => w.registry.market 0 = none
  | .call _ (.recordCashStake _ _ _ _ _) => w.registry.market 0 = none
  | .call _ (.openChildCreditForTrade user _ po c _ _) =>
    w.registry.market 0 = none ∧ SameStake w.vault c user po
  | .call _ _ => False
  | .outside _ => True

instance (w : World) : (step : VaultStep) → Decidable (step.Lends w)
  | .call _ (.depositForMarket _ _ _ _) => inferInstanceAs (Decidable (_ = none))
  | .call _ (.recordCashStake _ _ _ _ _) => inferInstanceAs (Decidable (_ = none))
  | .call _ (.openChildCreditForTrade user _ po c _ _) =>
    inferInstanceAs (Decidable (_ = none ∧ SameStake w.vault c user po))
  | .call _ (.setAdmin _) | .call _ (.upgrade _) | .call _ (.setRole _ _)
  | .call _ (.setTreasury _) | .call _ (.pause _) | .call _ (.fundChildPrediction _ _ _ _)
  | .call _ (.repayChildCollateral _ _ _ _) | .call _ (.releaseTradePayout _ _ _ _ _ _)
  | .call _ (.liquidateRelease _ _ _ _ _ _ _) | .call _ (.liquidateChildRelease _ _ _ _ _ _ _)
  | .call _ (.redeem _ _ _ _ _ _) | .call _ (.redeemResolved _ _ _ _ _)
  | .call _ (.redeemCancelled _ _ _ _ _) | .call _ (.assertPositionTransferAllowed _ _ _ _)
  | .call _ (.lockBond _ _ _ _ _ _) | .call _ (.releaseBond _ _ _ _ _)
  | .call _ (.slashBond _ _ _ _ _ _) | .call _ (.collectFee _ _ _ _)
  | .call _ (.claimLpFees _ _ _ _) | .call _ (.sweepProtocolFees _ _) => instDecidableFalse
  | .outside _ => instDecidableTrue

/-- Such steps keep the debt ledgers in agreement. -/
theorem VaultStep.Lends.keepsDebts {w : World} {step : VaultStep} (h : step.Lends w) :
    step.KeepsDebts w := by
  cases step with
  | outside s => trivial
  | call ctx op =>
    cases op with
    | depositForMarket => exact ⟨h, trivial, fun _ => trivial⟩
    | recordCashStake => exact ⟨h, trivial, fun _ => trivial⟩
    | openChildCreditForTrade => exact ⟨h.1, h.2, fun _ => h.2⟩
    | _ => cases h

/-- A checked list of such steps leads from a deployment to a state whose ledgers agree. -/
theorem lends_of_check (steps : List VaultStep) (p : World → Bool)
    (hc : (vaultSystem []).checkRun (fun w step => step.Lends w) p (deploy sampleLaunch) steps =
      true) : ∃ w, DebtsAgree w.vault ∧ p w = true := by
  have hinit : (vaultSystem []).Init (deploy sampleLaunch) := ⟨⟨_, _, _, rfl⟩, rfl⟩
  obtain ⟨w, _, hguarded, hp⟩ := System.Guarded.of_check (.init hinit) steps hc
  exact ⟨w, debtsAgree_of_keepsDebts [] (hguarded.mono (fun _ _ h => h.keepsDebts)), hp⟩

/-- Alice borrowed from one market only: her child is liquidated for 40 of the 60 it owes, and the
20 that default are hers. -/
theorem liquidateChildRelease_clears_sample : ∃ w w' y, DebtsAgree w.vault ∧
    liquidateChildRelease ⟨0, [bob], [.contract .amm]⟩ w sampleToken alice bob 2 .yes 60 40 =
      .ok (y, w') ∧
    (ChildCleared w.vault w'.vault 2 alice ↔
      w.vault.childDebt (2, alice) ≤ 40 - bpsOf 40 liquidationBonusBps ∨
        OnlyDebtor w.vault 2 alice) := by
  obtain ⟨w, hagree, hp⟩ := lends_of_check loanSteps (fun w => okWith
    (liquidateChildRelease ⟨0, [bob], [.contract .amm]⟩ w sampleToken alice bob 2 .yes 60 40)
    (fun _ => true)) (by decide +kernel)
  obtain ⟨⟨y, w'⟩, h, _⟩ := okWith_iff.mp hp
  exact ⟨w, w', y, hagree, h, liquidateChildRelease_clears_iff hagree h⟩

/-- Alice owes 30 in market 2 and 30 in market 3, both to her stake in market 1. Liquidating the
first for 10 takes the whole parent debt of 60 away. -/
theorem not_always_childCleared : ¬∀ (ctx : Ctx) (w w' : World) (token : Asset)
    (user keeper : Address) (c : MarketId) (o : Outcome) (sold x y : ℤ), DebtsAgree w.vault →
    liquidateChildRelease ctx w token user keeper c o sold x = .ok (y, w') →
    ChildCleared w.vault w'.vault c user := by
  intro hall
  obtain ⟨w, hagree, hp⟩ := lends_of_check (liquidateOneOfTwo.take 5) (fun w =>
    w.vault.childParent (2, alice) = 1 ∧ w.vault.childParentOutcome (2, alice) = .yes ∧
    w.vault.parentDebt (1, alice, .yes) = 60 ∧ w.vault.childDebt (2, alice) = 30 ∧ okWith
    (liquidateChildRelease ⟨0, [bob], [.contract .amm]⟩ w sampleToken alice bob 2 .yes 40 10)
    (fun r => r.2.vault.parentDebt (1, alice, .yes) = 0)) (by decide +kernel)
  obtain ⟨hparent, hout, howed, howes, hok⟩ := of_decide_eq_true hp
  obtain ⟨⟨y, w'⟩, h, hnone⟩ := okWith_iff.mp hok
  have hleft := (hall _ w w' _ _ _ _ _ _ _ y hagree h).parentDebt
  rw [hparent, hout, howed, howes, of_decide_eq_true hnone] at hleft
  omega

end DikeProtocol.Vault
