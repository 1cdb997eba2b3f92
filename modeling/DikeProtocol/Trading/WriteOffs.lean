import DikeProtocol.Trading.Positions

/-!
# What a liquidation writes off

The debt of a child market is one amount, but a liquidation values, sells and
settles the tokens of one outcome only. What its proceeds leave unpaid is
written off even when the user holds tokens of the other outcome.
-/

namespace DikeProtocol.Vault

open Lib

/-- A liquidation with these proceeds hands part of the child debt to its parent
market: something is owed upstream, and either the proceeds after the keeper's
cut or the debt upstream falls short of the child debt. -/
def DefaultDue (v : VaultState) (c : MarketId) (u : Address) (proceeds : ℤ) : Prop :=
  let p := v.childParent (c, u)
  let raw := v.childDebt (c, u)
  let upstream := v.parentDebt (p, u, v.childParentOutcome (c, u))
  p ≠ 0 ∧ 0 < upstream ∧ (proceeds - bpsOf proceeds liquidationBonusBps < raw ∨ upstream < raw)

/-- Booking a fee defaults nothing. -/
theorem collectFee_defaulted {ctx : Ctx} {w w' : World} {c : MarketId} {lp protocol cod : ℤ}
    (h : collectFee ctx w c lp protocol cod = .ok w') (m : MarketId) :
    (w'.vault.accounting m).childCollateralDefaulted =
      (w.vault.accounting m).childCollateralDefaulted := by
  unfold collectFee at h
  obtain ⟨_, _, h⟩ := bind_ok.mp h
  obtain ⟨_, _, h⟩ := bind_ok.mp h
  obtain ⟨_, _, h⟩ := bind_ok.mp h
  obtain ⟨_, _, h⟩ := bind_ok.mp h
  obtain ⟨_, _, h⟩ := bind_ok.mp h
  obtain ⟨a, ha, h⟩ := bind_ok.mp h
  obtain ⟨_, _, h⟩ := bind_ok.mp h
  obtain ⟨_, _, h⟩ := bind_ok.mp h
  obtain ⟨_, _, h⟩ := bind_ok.mp h
  rw [← pure_ok.mp h, debitBacking_ok ha]
  dsimp only
  rw [Store.set_get]
  split
  · next hm => rw [hm]
  · rfl

/-- The liquidation of a child position defaults debt on the parent market
exactly when the default is due; it touches no tokens. -/
theorem liquidateChildRelease_defaulted {ctx : Ctx} {w w' : World} {token : Asset}
    {user keeper : Address} {c : MarketId} {o : Outcome} {sold x y : ℤ} (hv : Sane w.vault)
    (h : liquidateChildRelease ctx w token user keeper c o sold x = .ok (y, w')) :
    w'.tokens = w.tokens ∧
      ((w.vault.accounting (w.vault.childParent (c, user))).childCollateralDefaulted <
          (w'.vault.accounting (w.vault.childParent (c, user))).childCollateralDefaulted ↔
        DefaultDue w.vault c user x) := by
  obtain ⟨_, hx, _, _, v1, v2, v3, b, hout, hsettle, hdef, rfl⟩ := liquidateChildRelease_steps h
  refine ⟨rfl, ?_⟩
  have hpool := pool_pos hx
  have hv1 := hv.extractProceeds hout
  have hv2 := hv1.settleChildDebt hsettle
  have hsame := extractProceeds_debts hout
  have hparent := Sane.settleChildDebt_parent hsettle
  rw [hsame.childParent, hsame.childParentOutcome] at hparent
  rw [hparent.1, hparent.2] at hdef
  have hbefore : (v2.accounting (w.vault.childParent (c, user))).childCollateralDefaulted =
      (w.vault.accounting (w.vault.childParent (c, user))).childCollateralDefaulted := by
    rw [settleChildDebt_defaulted hsettle, extractProceeds_defaulted hout]
  have hup := hv.parentDebt_nonneg
    (w.vault.childParent (c, user), user, w.vault.childParentOutcome (c, user))
  -- what the settlement leaves of the child debt decides whether a default follows
  have hleft : (v2.childDebt (c, user) > 0 ∧ w.vault.childParent (c, user) ≠ 0) ↔
      DefaultDue w.vault c user x := by
    unfold DefaultDue
    dsimp only
    by_cases hroot : w.vault.childParent (c, user) = 0
    · exact ⟨fun hk => absurd hroot hk.2, fun hk => absurd hroot hk.1⟩
    · have hroot1 : v1.childParent (c, user) ≠ 0 := by
        rw [hsame.childParent]
        exact hroot
      have happlied := hv1.settled hsettle
      rw [if_neg (by omega), Sane.effectiveDebt_eq_min v1 hroot1] at happlied
      have hchild := (Sane.settleChildDebt_left (by omega) hroot1 hsettle).1
      rw [hsame.childParent, hsame.childParentOutcome, hsame.childDebt, hsame.parentDebt] at *
      rw [and_iff_left hroot, and_iff_right hroot]
      by_cases hzero : w.vault.parentDebt (w.vault.childParent (c, user), user,
          w.vault.childParentOutcome (c, user)) = 0
      · rw [hchild, if_pos hzero]
        omega
      · rw [hchild, if_neg hzero]
        omega
  dsimp only
  split at hdef
  · next hlost =>
    obtain ⟨_, _, _, rfl, _⟩ := resolveParentDefault_ok hlost.1 hv2.reserve_nonneg hdef
    dsimp only
    rw [Store.set_get_self, ← hbefore]
    refine ⟨fun _ => hleft.mp hlost, fun _ => ?_⟩
    dsimp only [defaultedBy]
    omega
  · next hkept =>
    obtain rfl := ok_ok.mp hdef
    rw [hbefore]
    exact ⟨fun hk => absurd hk (lt_irrefl _), fun hk => absurd (hleft.mpr hk) hkept⟩

end DikeProtocol.Vault

namespace DikeProtocol.Trading

open Lib
open Vault (Sane DefaultDue)

/-- What a pool pays for a holding at its present reserves, nothing when it has no quote. -/
def holdingValue (a : AmmState) (pool : PoolData) (poolId : ℕ) (yes : Bool) (amount : ℤ) : ℤ :=
  if amount ≤ 0 then 0
  else
    match Amm.saleProceeds a pool poolId yes amount with
    | .ok netOut => netOut
    | .error _ => 0

/-- What a pool pays for both holdings of a user. -/
def positionValue (w : World) (pool : PoolData) (poolId : ℕ) (user : Address) : ℤ :=
  holdingValue w.amm pool poolId true (w.tokens.balance (pool.marketId, user, .yes)) +
    holdingValue w.amm pool poolId false (w.tokens.balance (pool.marketId, user, .no))

/-- The user holds no tokens of either outcome. -/
def HoldsNothing (t : TokensState) (m : MarketId) (user : Address) : Prop :=
  t.balance (m, user, .yes) = 0 ∧ t.balance (m, user, .no) = 0

/-- The outcome a liquidation does not look at. -/
def otherOutcome : Outcome → Outcome
  | .yes => .no
  | .no => .yes
  | .invalid => .invalid

/-- A liquidation wrote off nothing the user could still have paid: debt that
defaulted on the parent leaves a user without tokens, and the whole position
was worth at most the threshold. -/
def UncoveredOnly (w w' : World) (pool : PoolData) (poolId : ℕ) (user : Address) : Prop :=
  ((w.vault.accounting (w.vault.childParent (pool.marketId, user))).childCollateralDefaulted <
      (w'.vault.accounting (w.vault.childParent (pool.marketId, user))).childCollateralDefaulted →
    HoldsNothing w'.tokens pool.marketId user) ∧
  positionValue w pool poolId user ≤
    bpsOf (w.vault.childDebt (pool.marketId, user)) Amm.liquidationThresholdBps

/-- The user holds nothing of the other outcome, or so little that the whole
position stays below the threshold, while what is sold pays the debt. -/
def OtherSideSpent (w : World) (pool : PoolData) (poolId : ℕ) (user : Address) (o : Outcome) :
    Prop :=
  w.tokens.balance (pool.marketId, user, otherOutcome o) = 0 ∨
    (¬DefaultDue w.vault pool.marketId user
        (holdingValue w.amm pool poolId (decide (o = .yes))
          (w.tokens.balance (pool.marketId, user, o))) ∧
      positionValue w pool poolId user ≤
        bpsOf (w.vault.childDebt (pool.marketId, user)) Amm.liquidationThresholdBps)

/-- The value of the whole position is that of the two sides, named from either. -/
theorem positionValue_eq (w : World) (pool : PoolData) (poolId : ℕ) (user : Address) {o : Outcome}
    (ho : o ≠ .invalid) : positionValue w pool poolId user =
      holdingValue w.amm pool poolId (decide (o = .yes))
          (w.tokens.balance (pool.marketId, user, o)) +
        holdingValue w.amm pool poolId (decide (otherOutcome o = .yes))
          (w.tokens.balance (pool.marketId, user, otherOutcome o)) := by
  unfold positionValue
  cases o with
  | yes => rfl
  | no => exact add_comm _ _
  | invalid => exact absurd rfl ho

/-- Holding nothing, named from either side. -/
theorem holdsNothing_iff {t : TokensState} {m : MarketId} {user : Address} {o : Outcome}
    (ho : o ≠ .invalid) : HoldsNothing t m user ↔
      t.balance (m, user, o) = 0 ∧ t.balance (m, user, otherOutcome o) = 0 := by
  unfold HoldsNothing
  cases o with
  | yes => exact Iff.rfl
  | no => exact And.comm
  | invalid => exact absurd rfl ho

/-- Balances of a user after a forced sale: the sold outcome is gone, the other
one untouched. -/
theorem forceSell_balances {ctx : Ctx} {w w' : World} {poolId : ℕ} {user : Address} {yes : Bool}
    {sold netOut : ℤ} (hu : user ≠ .contract .amm)
    (h : Amm.forceSell ctx w poolId user yes = .ok (sold, netOut, w')) {pool : PoolData}
    (hpool : w.amm.pool poolId = some pool) :
    w'.tokens.balance (pool.marketId, user, Amm.outcomeOf yes) = 0 ∧
      ∀ o, o ≠ Amm.outcomeOf yes →
        w'.tokens.balance (pool.marketId, user, o) = w.tokens.balance (pool.marketId, user, o) := by
  obtain ⟨pool', mods, fee, grossOut, fees, t, w2, w3, a, hpool', _, hsold, _, _, _, _, ht, h2, h3,
    rfl⟩ := Amm.forceSell_steps h
  obtain rfl : pool = pool' := Option.some.inj (hpool.symm.trans hpool')
  obtain ⟨t2, ht2, rfl⟩ := Amm.mergePositions_ok h2
  obtain ⟨books, rfl⟩ := Vault.collectFee_ok (Amm.collectFee_ok h3)
  have hmoved := (Tokens.moveBalance_ok ht).2.2.2
  have hmerged := (Tokens.mergePositions_ok ht2).2.2.2.2.2
  have hmine : ∀ o, t2.balance (pool.marketId, user, o) = t.balance (pool.marketId, user, o) := by
    intro o
    rw [hmerged, if_neg, sub_zero]
    rintro (hk | hk)
    · exact hu (Prod.mk.inj (Prod.mk.inj hk).2).1
    · exact hu (Prod.mk.inj (Prod.mk.inj hk).2).1
  have hnot : ∀ o, (pool.marketId, user, o) ≠
      (pool.marketId, .contract .amm, Amm.outcomeOf yes) := by
    intro o hk
    exact hu (Prod.mk.inj (Prod.mk.inj hk).2).1
  refine ⟨?_, ?_⟩
  · dsimp only
    rw [hmine, hmoved, if_pos rfl, if_neg (hnot _), hsold]
    omega
  · intro o ho
    dsimp only
    rw [hmine, hmoved, if_neg (fun hk => ho (Prod.mk.inj (Prod.mk.inj hk).2).2), if_neg (hnot o)]
    omega

/-- A forced sale defaults nothing. -/
theorem forceSell_defaulted {ctx : Ctx} {w w' : World} {poolId : ℕ} {user : Address} {yes : Bool}
    {sold netOut : ℤ} (h : Amm.forceSell ctx w poolId user yes = .ok (sold, netOut, w'))
    (m : MarketId) : (w'.vault.accounting m).childCollateralDefaulted =
      (w.vault.accounting m).childCollateralDefaulted := by
  obtain ⟨pool, mods, fee, grossOut, fees, t, w2, w3, a, _, _, _, _, _, _, _, _, h2, h3, rfl⟩ :=
    Amm.forceSell_steps h
  obtain ⟨t2, _, rfl⟩ := Amm.mergePositions_ok h2
  exact Vault.collectFee_defaulted (Amm.collectFee_ok h3) m

/-- A liquidation of a child position writes off uncovered debt only, exactly
when the other side of the position is spent. -/
theorem uncoveredOnly_iff_otherSideSpent {w w' : World} (hreach : tradingSystem.Reachable w)
    {ctx : Ctx} {keeper user : Address} {poolId : ℕ} {o : Outcome} {y : ℤ}
    (h : Amm.liquidateChildPosition ctx w keeper user poolId o = .ok (y, w')) {pool : PoolData}
    (hpool : w.amm.pool poolId = some pool) :
    UncoveredOnly w w' pool poolId user ↔ OtherSideSpent w pool poolId user o := by
  have hw := reachable_invariant hreach
  obtain ⟨pool', mods, fee, grossOut, netOut, sold, proceeds, w1, _, hpool', hdebt, hheld, hgross,
    hsplit, hdue, hsell, hrelease⟩ := Amm.liquidate_steps h
  obtain rfl : pool = pool' := Option.some.inj (hpool.symm.trans hpool')
  have hside := outcome_of_balance hw hheld
  have ho : o ≠ .invalid := by
    intro hk
    rw [hk] at hheld
    have hnone := hw.noInvalid pool.marketId user
    omega
  have hu : user ≠ .contract .amm := by
    intro hk
    have hfree := hw.ammChildFree pool.marketId
    have hsign := hw.sane.childDebt_nonneg (pool.marketId, .contract .amm)
    rw [hk] at hdebt
    omega
  have hvalue : holdingValue w.amm pool poolId (decide (o = .yes))
      (w.tokens.balance (pool.marketId, user, o)) = netOut := by
    unfold holdingValue
    rw [if_neg (by omega), Amm.saleProceeds_ok hgross hsplit]
  obtain ⟨pool', hpool', _, hsold, hproceeds, hsame⟩ := forceSell_gap (m := 0) hw hsell
  obtain rfl : pool = pool' := Option.some.inj (hpool.symm.trans hpool')
  have hsame' : proceeds = netOut := by
    rw [hsold, hside, Amm.saleProceeds_ok hgross hsplit] at hproceeds
    exact (ok_ok.mp hproceeds).symm
  obtain ⟨hgone, hkept⟩ := forceSell_balances hu hsell hpool
  rw [hside] at hgone hkept
  have hother : otherOutcome o ≠ o := by
    cases o with
    | yes => decide
    | no => decide
    | invalid => exact absurd rfl ho
  obtain ⟨htokens, hdefault⟩ :=
    Vault.liquidateChildRelease_defaulted (hw.forceSell hsell).sane hrelease
  have hbooks :
      (w1.vault.accounting (w.vault.childParent (pool.marketId, user))).childCollateralDefaulted =
      (w.vault.accounting (w.vault.childParent (pool.marketId, user))).childCollateralDefaulted :=
    forceSell_defaulted hsell _
  unfold DefaultDue at hdefault
  rw [hsame.childParent, hsame.childDebt, hsame.parentDebt, hsame.childParentOutcome, hbooks,
    hsame', ← hvalue] at hdefault
  unfold UncoveredOnly OtherSideSpent
  rw [hdefault, htokens, holdsNothing_iff ho, hgone, hkept _ hother]
  have hnone : w.tokens.balance (pool.marketId, user, otherOutcome o) = 0 →
      positionValue w pool poolId user = netOut := by
    intro hk
    have hzero : holdingValue w.amm pool poolId (decide (otherOutcome o = .yes)) 0 = 0 := by
      unfold holdingValue
      rw [if_pos le_rfl]
    rw [positionValue_eq w pool poolId user ho, hvalue, hk, hzero, add_zero]
  constructor
  · rintro ⟨hempty, hworth⟩
    by_cases hrest : w.tokens.balance (pool.marketId, user, otherOutcome o) = 0
    · exact Or.inl hrest
    · exact Or.inr ⟨fun hk => hrest (hempty hk).2, hworth⟩
  · rintro (hrest | ⟨hpaid, hworth⟩)
    · refine ⟨fun _ => ⟨rfl, hrest⟩, ?_⟩
      rw [hnone hrest]
      exact hdue
    · exact ⟨fun hk => absurd hk hpaid, hworth⟩

/-- Alice stakes 1000 on market 1 and buys Yes in market 2 for 300 of its credit. -/
def aliceHoldsYes : List TradeStep :=
  aliceStakes ++ [aliceBorrows]

/-- The bought Yes is all alice holds in market 2: its liquidation writes off
only what no token of hers covers. -/
theorem uncoveredOnly_after_loan : ∃ w0 y w pool,
    tradingSystem.runs (deploy sampleLaunch) aliceHoldsYes = .ok w0 ∧
      w0.amm.pool 2 = some pool ∧
      Amm.liquidateChildPosition (bySigner bob) w0 bob alice 2 .yes = .ok (y, w) ∧
      UncoveredOnly w0 w pool 2 alice := by
  obtain ⟨w0, hw0, hlast⟩ := System.runs_of_decide (S := tradingSystem) (deploy sampleLaunch)
    aliceHoldsYes
    (fun w0 => match w0.amm.pool 2 with
      | none => false
      | some pool => decide (w0.tokens.balance (pool.marketId, alice, .no) = 0) &&
          (Amm.liquidateChildPosition (bySigner bob) w0 bob alice 2 .yes).toBool)
    (by decide +kernel)
  have hreach := System.Reachable.runs (.init sample_init) aliceHoldsYes hw0
  split at hlast
  · cases hlast
  · next pool hpool =>
    rw [Bool.and_eq_true] at hlast
    obtain ⟨hnone, hcall⟩ := hlast
    cases hresult : Amm.liquidateChildPosition (bySigner bob) w0 bob alice 2 .yes with
    | error fault =>
      rw [hresult] at hcall
      cases hcall
    | ok result =>
      obtain ⟨y, w⟩ := result
      have hspent : OtherSideSpent w0 pool 2 alice .yes := Or.inl (of_decide_eq_true hnone)
      exact ⟨w0, y, w, pool, hw0, hpool, hresult,
        (uncoveredOnly_iff_otherSideSpent hreach hresult hpool).mpr hspent⟩

/-- Alice buys No in the same market for 500 of her own cash. -/
def aliceHoldsBoth : List TradeStep :=
  aliceHoldsYes ++ [.call (bySigner alice) (.amm (.buyNo alice 2 500 0 1))]

/-- Alice's tokens of market 2 are worth 756 against a debt of 300, yet her Yes
is liquidated, 33 of the debt defaults on market 1 and she keeps 985 of No. -/
theorem not_always_uncoveredOnly : ¬∀ (w w' : World) (ctx : Ctx) (keeper user : Address)
    (poolId : ℕ) (o : Outcome) (y : ℤ) (pool : PoolData), tradingSystem.Reachable w →
      Amm.liquidateChildPosition ctx w keeper user poolId o = .ok (y, w') →
      w.amm.pool poolId = some pool → UncoveredOnly w w' pool poolId user := by
  intro hall
  obtain ⟨w, hw, hlast⟩ := System.runs_of_decide (S := tradingSystem) (deploy sampleLaunch)
    aliceHoldsBoth
    (fun w => match w.amm.pool 2 with
      | none => false
      | some pool => decide (pool.marketId = 2 ∧ positionValue w pool 2 alice = 756 ∧
            w.vault.childDebt (2, alice) = 300) &&
          (Amm.liquidateChildPosition (bySigner bob) w bob alice 2 .yes).toBool)
    (by decide +kernel)
  have hreach := System.Reachable.runs (.init sample_init) aliceHoldsBoth hw
  split at hlast
  · cases hlast
  · next pool hpool =>
    rw [Bool.and_eq_true] at hlast
    obtain ⟨hnumbers, hcall⟩ := hlast
    obtain ⟨hid, hvalue, hdebt⟩ := of_decide_eq_true hnumbers
    cases hresult : Amm.liquidateChildPosition (bySigner bob) w bob alice 2 .yes with
    | error fault =>
      rw [hresult] at hcall
      cases hcall
    | ok result =>
      obtain ⟨y, w'⟩ := result
      have hlaw := (hall w w' _ bob alice 2 .yes y pool hreach hresult hpool).2
      rw [hvalue, hid, hdebt] at hlaw
      exact absurd hlaw (by decide)

end DikeProtocol.Trading
