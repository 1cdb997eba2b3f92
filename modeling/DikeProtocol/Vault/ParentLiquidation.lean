import DikeProtocol.Vault.ChildLiquidation

/-!
# Liquidating a parent stake

The proceeds pay the keeper, then the children listed under the stake, then the
user, and what is still recorded as used defaults. A settlement lowers the
stake its child remembers, so this adds up while every child owes the stake it
is listed under, and a stake owes what its children owe.
-/

namespace DikeProtocol.Vault

open Lib

/-- A liquidated stake settled completely: the proceeds are the keeper's bonus, the repaid debt
and the remainder, which are paid out; a remainder leaves nothing to default; and no debt of the
stake is left, while the other outcomes of the market keep theirs. -/
structure ParentSettled (ctx : Ctx) (w w' : World) (token : Asset) (user keeper : Address)
    (p : MarketId) (o : Outcome) (proceeds repaid remainder : ℤ) : Prop where
  split : proceeds = bpsOf proceeds liquidationBonusBps + repaid + remainder
  bonus_nonneg : 0 ≤ bpsOf proceeds liquidationBonusBps
  repaid_nonneg : 0 ≤ repaid
  remainder_nonneg : 0 ≤ remainder
  paid : ∃ w1, payPositive ctx { w with vault := w'.vault } token keeper
      (bpsOf proceeds liquidationBonusBps) = .ok w1 ∧
    payPositive ctx w1 token user remainder = .ok w'
  covered : 0 < remainder → (w'.vault.accounting p).childCollateralDefaulted =
    (w.vault.accounting p).childCollateralDefaulted
  parentDebt : w'.vault.parentDebt (p, user, o) = 0
  used : w'.vault.childUsedByOutcome (p, user, o) = 0
  others : ∀ o', o' ≠ o → w'.vault.parentDebt (p, user, o') = w.vault.parentDebt (p, user, o')
  children : ∀ c, w.vault.childParent (c, user) = p → w.vault.childParentOutcome (c, user) = o →
    w'.vault.childDebt (c, user) = 0

section Settlement

variable {v v' : VaultState} {p c : MarketId} {u : Address} {o : Outcome} {x y : ℤ}

/-- A child owes no more than its stake is owed where the stake's loans agree. -/
theorem LoansAgree.debt_le_parent (h : LoansAgree v p u) (hv : ∀ k, 0 ≤ v.childDebt k)
    (hp : v.childParent (c, u) = p) (ho : v.childParentOutcome (c, u) = o) :
    v.childDebt (c, u) ≤ v.parentDebt (p, u, o) := by
  have hle := debt_le_owedBy hv c u
  rw [hp, ho, h.owed] at hle
  exact hle

/-- Where nothing is owed to a stake, none of its children owes anything. -/
theorem LoansAgree.childDebt_zero (h : LoansAgree v p u) (hv : ∀ k, 0 ≤ v.childDebt k)
    (hnone : v.parentDebt (p, u, o) = 0) (hp : v.childParent (c, u) = p)
    (ho : v.childParentOutcome (c, u) = o) : v.childDebt (c, u) = 0 := by
  have hle := h.debt_le_parent hv hp ho
  have hnonneg := hv (c, u)
  omega

/-- A settlement that leaves something of the pool clears the child's debt. -/
theorem LoansAgree.settleChildDebt_clears (h : LoansAgree v p u) (hv : Sane v)
    (hp : v.childParent (c, u) = p) (hs : Vault.settleChildDebt v c u x = .ok (y, v'))
    (hx : 0 < x) (hleft : y < x) : v'.childDebt (c, u) = 0 := by
  have hle := h.debt_le_parent hv.childDebt_nonneg hp rfl
  have howed : effectiveDebt v c u = v.childDebt (c, u) := by
    unfold effectiveDebt
    rw [hp]
    exact if_neg fun hk => absurd hk.2 (not_lt.mpr hle)
  obtain ⟨_, rfl, hr | hzero | ⟨hmin, _⟩⟩ | ⟨_, rfl, _, _⟩ | ⟨hy, _, _, rfl⟩ |
    ⟨hy, _, _, _, rfl⟩ := settleChildDebt_cases hs
  · omega
  · exact hzero
  · rw [howed] at hmin
    omega
  · exact Store.set_get_self _ _ _
  · rw [howed] at hy
    unfold Vault.withChildDebt
    dsimp only
    rw [Store.set_get_self]
    omega
  · rw [howed] at hy
    unfold Vault.repaidUpstream
    dsimp only
    rw [Store.set_get_self]
    omega

/-- What a settlement of children of one stake leaves alone. -/
structure OutsideStake (v v' : VaultState) (p : MarketId) (u : Address) (o : Outcome) : Prop where
  parentDebt : ∀ k, k ≠ (p, u, o) → v'.parentDebt k = v.parentDebt k
  defaulted : ∀ m, (v'.accounting m).childCollateralDefaulted =
    (v.accounting m).childCollateralDefaulted

/-- Doing nothing leaves everything alone. -/
theorem OutsideStake.refl (v : VaultState) (p : MarketId) (u : Address) (o : Outcome) :
    OutsideStake v v p u o :=
  ⟨fun _ _ => rfl, fun _ => rfl⟩

/-- One settlement after another leaves alone what both do. -/
theorem OutsideStake.trans {v1 : VaultState} (h : OutsideStake v v1 p u o)
    (h' : OutsideStake v1 v' p u o) : OutsideStake v v' p u o :=
  ⟨fun k hk => (h'.parentDebt k hk).trans (h.parentDebt k hk),
    fun m => (h'.defaulted m).trans (h.defaulted m)⟩

/-- The settlement of one child of the stake. -/
theorem OutsideStake.settleChildDebt (hp : v.childParent (c, u) = p)
    (ho : v.childParentOutcome (c, u) = o) (hs : Vault.settleChildDebt v c u x = .ok (y, v')) :
    OutsideStake v v' p u o := by
  refine ⟨fun k hk => ?_, settleChildDebt_defaulted hs⟩
  obtain ⟨_, rfl, _⟩ | ⟨_, rfl, _, _⟩ | ⟨_, _, _, rfl⟩ | ⟨_, _, _, _, rfl⟩ :=
    settleChildDebt_cases hs
  · rfl
  · rfl
  · rfl
  · unfold Vault.repaidUpstream
    dsimp only
    rw [hp, ho, Store.set_get_of_ne _ _ hk]

/-- The settlement of children of the stake, in list order. -/
theorem OutsideStake.settleChildren (children : List MarketId) {pool pool' paid paid' : ℤ}
    (hlisted : ∀ c ∈ children, v.childParent (c, u) = p ∧ v.childParentOutcome (c, u) = o)
    (hs : Vault.settleChildren v u pool paid children = .ok (pool', paid', v')) :
    OutsideStake v v' p u o := by
  induction children generalizing v pool paid with
  | nil =>
    obtain ⟨_, h2⟩ := Prod.mk.inj (ok_ok.mp hs)
    obtain ⟨_, rfl⟩ := Prod.mk.inj h2
    exact refl _ _ _ _
  | cons child children ih =>
    unfold Vault.settleChildren at hs
    split at hs
    · obtain ⟨_, h2⟩ := Prod.mk.inj (ok_ok.mp hs)
      obtain ⟨_, rfl⟩ := Prod.mk.inj h2
      exact refl _ _ _ _
    · obtain ⟨⟨applied, v1⟩, h1, hs⟩ := bind_ok.mp hs
      obtain ⟨_, _, hs⟩ := bind_ok.mp hs
      obtain ⟨_, _, hs⟩ := bind_ok.mp hs
      obtain ⟨hp, ho⟩ := hlisted child List.mem_cons_self
      have hlinks := SameLinks.settleChildDebt h1
      have hrest : ∀ c ∈ children, v1.childParent (c, u) = p ∧
          v1.childParentOutcome (c, u) = o := by
        intro c hc
        rw [hlinks.childParent, hlinks.childParentOutcome]
        exact hlisted c (List.mem_cons_of_mem child hc)
      exact (settleChildDebt hp ho h1).trans (ih hrest hs)

/-- An empty pool stays empty. -/
theorem settleChildren_empty (children : List MarketId) {pool pool' paid paid' : ℤ}
    (hpool : pool = 0)
    (hs : Vault.settleChildren v u pool paid children = .ok (pool', paid', v')) : pool' = 0 := by
  cases children with
  | nil => exact (Prod.mk.inj (ok_ok.mp hs)).1.symm.trans hpool
  | cons child children =>
    unfold Vault.settleChildren at hs
    rw [if_pos hpool] at hs
    exact (Prod.mk.inj (ok_ok.mp hs)).1.symm.trans hpool

/-- A pool that outlasts the children of a stake cleared every one of them. -/
theorem LoansAgree.settleChildren_clears (children : List MarketId) {pool pool' paid paid' : ℤ}
    (h : LoansAgree v p u) (hv : Sane v) (hl : Linked v)
    (hlisted : ∀ c ∈ children, v.childParent (c, u) = p) (hpool : 0 ≤ pool)
    (hs : Vault.settleChildren v u pool paid children = .ok (pool', paid', v'))
    (hleft : 0 < pool') : ∀ c ∈ children, v'.childDebt (c, u) = 0 := by
  induction children generalizing v pool paid with
  | nil =>
    intro c hc
    cases hc
  | cons child children ih =>
    unfold Vault.settleChildren at hs
    split at hs
    · next hzero =>
      obtain ⟨rfl, _⟩ := Prod.mk.inj (ok_ok.mp hs)
      omega
    · next hpos =>
      obtain ⟨⟨applied, v1⟩, h1, hs⟩ := bind_ok.mp hs
      obtain ⟨pool1, hp1, hs⟩ := bind_ok.mp hs
      obtain ⟨paid1, _, hs⟩ := bind_ok.mp hs
      have hpool1 := (checkedSub_ok.mp hp1).1
      have hbounds := hv.settled_bounds h1
      have hv1 := hv.settleChildDebt h1
      have hl1 := hl.fall (.settleChildDebt h1) (NoNewDebt.settleChildDebt hv h1).childDebt
        hv1.childDebt_nonneg
      have hlinks := SameLinks.settleChildDebt h1
      have hrest : ∀ c ∈ children, v1.childParent (c, u) = p := by
        intro c hc
        rw [hlinks.childParent]
        exact hlisted c (List.mem_cons_of_mem child hc)
      obtain ⟨hv', _, _, hsum⟩ := hv1.settleChildren children (by omega) hs
      intro c hc
      rcases List.mem_cons.mp hc with hself | hmem
      · -- the pool was not used up here, and no later child raises the debt again
        have hleft1 : applied < pool := by
          by_contra hall
          have hnone := settleChildren_empty children (show pool1 = 0 by omega) hs
          omega
        have hcleared := h.settleChildDebt_clears hv (hlisted child List.mem_cons_self) h1
          (by omega) hleft1
        have hle := (NoNewDebt.settleChildren children hv1 hs).childDebt (child, u)
        have hnonneg := hv'.childDebt_nonneg (child, u)
        rw [hself]
        omega
      · exact ih (h.settleChildDebt hv hl h1) hv1 hl1 hrest (by omega) hs c hmem

/-- A stake whose listed children owe nothing is owed nothing. -/
theorem LoansAgree.parentDebt_zero (h : LoansAgree v p u) (hl : Linked v)
    (hclear : ∀ c ∈ v.childMarketsOf (p, u, o), v.childDebt (c, u) = 0) :
    v.parentDebt (p, u, o) = 0 := by
  rw [← h.owed]
  refine owedBy_eq_zero fun c hp ho => ?_
  by_contra hdebt
  have hlisted := (hl.parented c u hdebt).2
  rw [hp, ho] at hlisted
  exact hdebt (hclear c hlisted)

/-- A default writes off the debt of its stake and no other. -/
theorem OutsideStake.resolveParentDefault (hx : 0 < x)
    (hd : Vault.resolveParentDefault v p u o x = .ok v') :
    ∀ k, k ≠ (p, u, o) → v'.parentDebt k = v.parentDebt k := by
  obtain ⟨v1, _, _, _, _, _, hparent, hclear⟩ := resolveParentDefault_clears hx hd
  obtain ⟨_, _, _, rfl, _⟩ := clearChildDebts_ok _ hclear
  intro k hk
  dsimp only
  rw [hparent, Store.set_get_of_ne _ _ hk]

end Settlement

section Liquidation

variable {ctx : Ctx} {w w' : World} {token : Asset} {user keeper : Address} {p : MarketId}
  {o : Outcome} {sold x y : ℤ}

/-- The order of a parent liquidation with its payments. -/
theorem liquidateRelease_payments
    (h : liquidateRelease ctx w token user keeper p o sold x = .ok (y, w')) :
    0 < x ∧ ∃ v1 remainder v2, extractProceeds w.vault p user o sold x = .ok v1 ∧
      settleChildren v1 user (x - bpsOf x liquidationBonusBps) 0
        (v1.childMarketsOf (p, user, o)) = .ok (remainder, y, v2) ∧
      resolveParentDefault v2 p user o (v2.childUsedByOutcome (p, user, o)) = .ok w'.vault ∧
      ∃ w1, payPositive ctx { w with vault := w'.vault } token keeper
          (bpsOf x liquidationBonusBps) = .ok w1 ∧
        payPositive ctx w1 token user remainder = .ok w' := by
  unfold liquidateRelease at h
  obtain ⟨_, _, h⟩ := bind_ok.mp h
  obtain ⟨_, hpos, h⟩ := bind_ok.mp h
  obtain ⟨_, _, h⟩ := bind_ok.mp h
  obtain ⟨_, _, h⟩ := bind_ok.mp h
  obtain ⟨v1, h1, h⟩ := bind_ok.mp h
  obtain ⟨bonus, hbonus, h⟩ := bind_ok.mp h
  obtain ⟨pool, hpool, h⟩ := bind_ok.mp h
  obtain ⟨⟨remainder, repaid, v2⟩, h2, h⟩ := bind_ok.mp h
  obtain ⟨v3, h3, h⟩ := bind_ok.mp h
  obtain ⟨w1, hb1, h⟩ := bind_ok.mp h
  obtain ⟨w2, hb2, h⟩ := bind_ok.mp h
  obtain ⟨rfl, rfl⟩ := Prod.mk.inj (pure_ok.mp h)
  have hpos' := refuse_ok.mp hpos
  rw [(checkedSub_ok.mp hpool).1, (bps_ok.mp hbonus).1] at h2
  rw [(bps_ok.mp hbonus).1] at hb1
  have hvault : w2.vault = v3 := by
    obtain ⟨b1, rfl⟩ := payPositive_ok hb1
    obtain ⟨b2, rfl⟩ := payPositive_ok hb2
    rfl
  rw [hvault]
  refine ⟨by omega, v1, remainder, v2, h1, h2, ?_, w1, hb1, hb2⟩
  split at h3
  · exact h3
  · next hnone =>
    unfold resolveParentDefault
    rw [if_pos (not_lt.mp hnone)]
    exact h3

/-- Where links and loans agree, a liquidated stake settles completely. -/
theorem liquidateRelease_settled (hv : Sane w.vault) (hl : Linked w.vault)
    (hagree : LoansAgree w.vault p user)
    (h : liquidateRelease ctx w token user keeper p o sold x = .ok (y, w')) :
    ∃ remainder, ParentSettled ctx w w' token user keeper p o x y remainder := by
  obtain ⟨hx, v1, remainder, v2, h1, h2, h3, hpaid⟩ := liquidateRelease_payments h
  have hpool := pool_pos hx
  have hsame := extractProceeds_debts h1
  have hv1 := hv.extractProceeds h1
  have hl1 := hl.same hsame
  have hagree1 := hagree.extractProceeds h1
  obtain ⟨hv2, hleft, hrepaid, hsum⟩ := hv1.settleChildren _ hpool.le h2
  have hl2 := hl1.fall (.settleChildren _ h2) (NoNewDebt.settleChildren _ hv1 h2).childDebt
    hv2.childDebt_nonneg
  have hagree2 := hagree1.settleChildren _ hv1 hl1 h2
  have hagree' := hagree.liquidateRelease hv hl hpool.le h1 h2 h3
  have houtside : OutsideStake v1 v2 p user o :=
    .settleChildren _ (fun c hc => hl1.listed p user o c hc) h2
  have hchildren := SameLinks.settleChildren _ h2
  -- a remainder means that every listed child was cleared
  have hcovered : 0 < remainder → v2.childUsedByOutcome (p, user, o) = 0 := by
    intro hpos
    rw [hagree2.used]
    refine hagree2.parentDebt_zero hl2 ?_
    rw [hchildren.childMarketsOf]
    exact hagree1.settleChildren_clears _ hv1 hl1 (fun c hc => (hl1.listed p user o c hc).1)
      hpool.le h2 hpos
  have hv' := hv2.resolveParentDefault h3
  have hlinks := hchildren.trans (.resolveParentDefault hv2.reserve_nonneg h3)
  obtain ⟨hnone, hothers, hbooked⟩ : w'.vault.parentDebt (p, user, o) = 0 ∧
      (∀ k, k ≠ (p, user, o) → w'.vault.parentDebt k = v2.parentDebt k) ∧
      (v2.childUsedByOutcome (p, user, o) = 0 → w'.vault = v2) := by
    by_cases hdefault : 0 < v2.childUsedByOutcome (p, user, o)
    · exact ⟨resolveParentDefault_parentDebt hdefault h3,
        OutsideStake.resolveParentDefault hdefault h3, fun hk => absurd hk hdefault.ne'⟩
    · unfold Vault.resolveParentDefault at h3
      rw [if_pos (not_lt.mp hdefault)] at h3
      have hvault := (ok_ok.mp h3).symm
      have hnonneg := hv2.parentDebt_nonneg (p, user, o)
      rw [hagree2.used] at hdefault
      rw [hvault]
      exact ⟨by omega, fun _ _ => rfl, fun _ => rfl⟩
  refine ⟨remainder, ⟨by omega, bpsOf_nonneg hx.le liquidationBonusBps, hrepaid, hleft, hpaid, ?_,
    hnone, (hagree'.used o).trans hnone, ?_, ?_⟩⟩
  · intro hpos
    rw [hbooked (hcovered hpos), houtside.defaulted, extractProceeds_defaulted h1]
  · intro o' ho
    have hk : (p, user, o') ≠ (p, user, o) := fun hk => ho (Prod.mk.inj (Prod.mk.inj hk).2).2
    rw [hothers _ hk, houtside.parentDebt _ hk, hsame.parentDebt]
  · intro c hp ho
    rw [← hsame.childParent, ← hlinks.childParent] at hp
    rw [← hsame.childParentOutcome, ← hlinks.childParentOutcome] at ho
    exact hagree'.childDebt_zero hv'.childDebt_nonneg hnone hp ho

end Liquidation

/-- In every run whose draws go to the stake the child records, where children of a market are
liquidated for what they owe and redemptions of it withhold nothing, every liquidated stake of
the market settles completely. -/
theorem parentSettled_of_keepsLoans (kept : List Asset) {p : MarketId} {w : World}
    (h : (vaultSystem kept).Guarded (fun w step => step.KeepsLoansOf p w) w) {ctx : Ctx}
    {w' : World} {token : Asset} {user keeper : Address} {o : Outcome} {sold x y : ℤ}
    (hrelease : liquidateRelease ctx w token user keeper p o sold x = .ok (y, w')) :
    ∃ remainder, ParentSettled ctx w w' token user keeper p o x y remainder := by
  obtain ⟨hsane, hlinked, hloans⟩ := loansAgree_of_keepsLoans kept h
  exact liquidateRelease_settled hsane hlinked (hloans user) hrelease

/-- Alice owes 30 in each of two markets: her stake is liquidated for 40, of which 39 repay debt
and nothing remains. -/
theorem parentSettled_sample : ∃ w w' y, (vaultSystem []).Reachable w ∧
    liquidateRelease ⟨0, [bob], [.contract .amm]⟩ w sampleToken alice bob 1 .yes 100 40 =
      .ok (y, w') ∧
    ∃ remainder, ParentSettled ⟨0, [bob], [.contract .amm]⟩ w w' sampleToken alice bob 1 .yes 40 y
      remainder := by
  have hinit : (vaultSystem []).Init (deploy sampleLaunch) := ⟨⟨_, _, _, rfl⟩, rfl⟩
  have hcheck : (vaultSystem []).checkRun (fun w step => step.Lends w) (fun w => okWith
      (liquidateRelease ⟨0, [bob], [.contract .amm]⟩ w sampleToken alice bob 1 .yes 100 40)
      (fun _ => true)) (deploy sampleLaunch) (liquidateOneOfTwo.take 5) = true := by decide +kernel
  obtain ⟨w, _, hguarded, hp⟩ := System.Guarded.of_check (.init hinit) _ hcheck
  obtain ⟨⟨y, w'⟩, h, _⟩ := okWith_iff.mp hp
  exact ⟨w, w', y, hguarded.reachable, h, parentSettled_of_keepsLoans []
    (hguarded.mono fun _ _ hok => hok.keepsDebts.loansOf 1) h⟩

/-- Alice draws 30 into market 2 against her Yes stake in market 1, and 20 against her No stake. -/
def drawFromBothStakes : List VaultStep :=
  [.outside (sampleSurroundings [sampleMarket 1 .live none, sampleMarket 2 .live none]
      sampleLaunch.bank),
    .call aliceTrades (.depositForMarket sampleToken alice 1 100),
    .call aliceTrades (.recordCashStake alice 1 .yes 100 100),
    .call aliceTrades (.recordCashStake alice 1 .no 100 100),
    .call aliceTrades (.openChildCreditForTrade alice 1 .yes 2 .yes 30),
    .call aliceTrades (.openChildCreditForTrade alice 1 .no 2 .yes 20)]

/-- The child remembers the Yes stake. Liquidating the No stake for 40 repays 30 of the Yes debt,
pays 9 to Alice, and books the 20 of the No stake as a default. -/
theorem not_always_parentSettled : ¬∀ (kept : List Asset) (w : World),
    (vaultSystem kept).Reachable w → ∀ (ctx : Ctx) (w' : World) (token : Asset)
    (user keeper : Address) (p : MarketId) (o : Outcome) (sold x y : ℤ),
    liquidateRelease ctx w token user keeper p o sold x = .ok (y, w') →
    ∃ remainder, ParentSettled ctx w w' token user keeper p o x y remainder := by
  intro hall
  have hinit : (vaultSystem []).Init (deploy sampleLaunch) := ⟨⟨_, _, _, rfl⟩, rfl⟩
  obtain ⟨w, hw, hp⟩ := System.runs_of_decide (S := vaultSystem []) (deploy sampleLaunch)
    drawFromBothStakes (fun w => w.vault.parentDebt (1, alice, .yes) = 30 ∧
      okWith (liquidateRelease ⟨0, [bob], [.contract .amm]⟩ w sampleToken alice bob 1 .no 100 40)
        (fun r => r.2.vault.parentDebt (1, alice, .yes) = 0)) (by decide +kernel)
  obtain ⟨howed, hok⟩ := of_decide_eq_true hp
  obtain ⟨⟨y, w'⟩, h, hnone⟩ := okWith_iff.mp hok
  obtain ⟨_, hsettled⟩ := hall [] w (System.Reachable.runs (.init hinit) _ hw) _ w' _ _ _ _ _ _ _
    y h
  have hkept := hsettled.others .yes (by decide)
  rw [howed, of_decide_eq_true hnone] at hkept
  omega

end DikeProtocol.Vault
