import DikeProtocol.Vault.Sane
import DikeProtocol.Vault.Frame

/-!
# What each vault entry point moves

For every entry point that touches the books: the reading of any gauge after
it, and what the vault holds of the token it moved. A gauge is even when lent
money counts the same before and after it is repaid.
-/

namespace DikeProtocol.Vault

open Lib

/-- What the vault holds of a token. -/
def cash (b : Bank) (token : Asset) : ℤ := b.bal token (.contract .vault)

/-- Overwriting a value by a smaller one raises nothing. -/
theorem set_le {K : Type} [DecidableEq K] {s : Store K ℤ} {k : K} {x : ℤ} (hx : x ≤ s k) :
    ∀ k', s.set k x k' ≤ s k' := by
  intro k'
  by_cases h : k' = k
  · subst h
    rw [Store.set_get_self]
    exact hx
  · rw [Store.set_get_of_ne _ _ h]

/-- A repayment of child credit moves every reading by the same multiple. -/
def Gauge.Even (g : Gauge) (κ : ℤ) : Prop := ∀ m, g.backing m + g.repaid m - g.debt m = κ

/-- Invocations that come from outside a contract: it neither signs nor is on
the call stack already. -/
def Outside (c : Contract) (ctx : Ctx) : Prop :=
  .contract c ∉ ctx.signers ∧ .contract c ∉ ctx.callers

instance (c : Contract) (ctx : Ctx) : Decidable (Outside c ctx) :=
  inferInstanceAs (Decidable (_ ∧ _))

/-- A contract does not authorize an invocation that comes from outside it. -/
theorem Outside.ne_of_auth {c : Contract} {ctx : Ctx} (hctx : Outside c ctx) {a : Address}
    {u : Unit}
    (h : requireAuth ctx a = .ok u) : a ≠ .contract c := by
  intro ha
  rw [ha] at h
  rcases requireAuth_ok.mp h with hs | hc
  · exact hctx.1 hs
  · exact hctx.2 (List.mem_of_mem_head? hc)

/-- Market data comes from the registry. -/
theorem marketData_ok {ctx : Ctx} {w : World} {m : MarketId} {market : MarketData}
    (h : marketData ctx w m = .ok market) : w.registry.market m = some market := by
  unfold marketData at h
  obtain ⟨_, _, h⟩ := bind_ok.mp h
  obtain ⟨_, _, h⟩ := bind_ok.mp h
  exact Registry.getMarket_ok.mp h

/-- A token that passes is the collateral of a registered market. -/
theorem requireMarketCollateral_ok {ctx : Ctx} {w : World} {token : Asset} {m : MarketId} {u : Unit}
    (h : requireMarketCollateral ctx w token m = .ok u) :
    ∃ market, w.registry.market m = some market ∧ token = market.collateral := by
  unfold requireMarketCollateral at h
  obtain ⟨market, hm, h⟩ := bind_ok.mp h
  exact ⟨market, marketData_ok hm, not_not.mp (refuse_ok.mp h)⟩

/-- Collateral a user pays in is held by the vault afterwards. -/
theorem payIn_cash {ctx : Ctx} {w w' : World} {token : Asset} {user : Address} {x : ℤ}
    (hu : user ≠ .contract .vault)
    (h : transferToken ctx .vault w token user (.contract .vault) x = .ok w') :
    ∃ b, w' = { w with bank := b } ∧
      ∀ t, cash b t = cash w.bank t + (if t = token then x else 0) := by
  obtain ⟨_, b, hb, rfl⟩ := transferToken_ok.mp h
  refine ⟨b, rfl, ?_⟩
  intro t
  have ht := Bank.transfer_bal hb t (.contract .vault)
  rw [if_neg (fun hk => hu hk.2.symm)] at ht
  simp only [and_true, sub_zero] at ht
  exact ht

/-- Collateral the vault pays out costs it at most the amount. -/
theorem payOut_cash {ctx : Ctx} {w w' : World} {token : Asset} {receiver : Address} {x : ℤ}
    (h : transferToken ctx .vault w token (.contract .vault) receiver x = .ok w') :
    ∃ b, w' = { w with bank := b } ∧
      ∀ t, cash w.bank t - (if t = token then x else 0) ≤ cash b t := by
  obtain ⟨_, b, hb, rfl⟩ := transferToken_ok.mp h
  refine ⟨b, rfl, ?_⟩
  intro t
  have hx := (Bank.transfer_ok.mp hb).1
  have ht := Bank.transfer_bal hb t (.contract .vault)
  unfold cash
  rw [ht]
  simp only [and_true]
  split
  · split <;> omega
  · split <;> omega

/-- A payment that is only made when positive. -/
theorem payPositive_cash {ctx : Ctx} {w w' : World} {token : Asset} {receiver : Address} {x : ℤ}
    (h : payPositive ctx w token receiver x = .ok w') :
    ∃ b, w' = { w with bank := b } ∧
      ∀ t, cash w.bank t - (if t = token then max x 0 else 0) ≤ cash b t := by
  unfold payPositive at h
  split at h
  · obtain ⟨b, rfl, hc⟩ := payOut_cash h
    refine ⟨b, rfl, fun t => ?_⟩
    have ht := hc t
    split
    · next heq =>
      rw [if_pos heq] at ht
      omega
    · next hne =>
      rw [if_neg hne] at ht
      exact ht
  · rw [← ok_ok.mp h]
    refine ⟨w.bank, rfl, fun t => ?_⟩
    split <;> omega

/-- Two payments of one token, each made when positive, that come to `z` together. -/
theorem payPositive_both_cash {ctx : Ctx} {w w1 w2 : World} {token : Asset} {r s : Address}
    {x y z : ℤ} (hx : 0 ≤ x) (hy : 0 ≤ y) (hsum : x + y = z)
    (h1 : payPositive ctx w token r x = .ok w1) (h2 : payPositive ctx w1 token s y = .ok w2) :
    ∃ b, w2 = { w with bank := b } ∧
      ∀ t, cash w.bank t - (if t = token then z else 0) ≤ cash b t := by
  obtain ⟨b1, rfl, hcash1⟩ := payPositive_cash h1
  obtain ⟨b2, rfl, hcash2⟩ := payPositive_cash h2
  refine ⟨b2, rfl, fun t => ?_⟩
  have ht1 := hcash1 t
  have ht2 := hcash2 t
  dsimp only at ht2
  split
  · next ht =>
    rw [if_pos ht] at ht1 ht2
    omega
  · next ht =>
    rw [if_neg ht] at ht1 ht2
    omega

variable {g : Gauge} {κ : ℤ}

/-- A settlement raises no child debt. -/
theorem settleChildDebt_childDebt_le {v v' : VaultState} (hv : Sane v) {c : MarketId} {u : Address}
    {r x : ℤ} (h : settleChildDebt v c u r = .ok (x, v')) (k : MarketId × Address) :
    v'.childDebt k ≤ v.childDebt k := by
  have hdebt := hv.childDebt_nonneg (c, u)
  have hx := (hv.settled_bounds h).1
  obtain ⟨_, rfl, _⟩ | ⟨_, rfl, _, _⟩ | ⟨_, _, _, rfl⟩ | ⟨_, _, _, _, rfl⟩ :=
    settleChildDebt_cases h
  · exact le_rfl
  · exact set_le hdebt k
  · exact set_le (by omega) k
  · exact set_le (by omega) k

namespace Gauge

/-- Credit repaid on one position weighs `κ` where it goes. -/
def EvenAt (g : Gauge) (κ : ℤ) (v : VaultState) (c : MarketId) (u : Address) : Prop :=
  0 < v.childDebt (c, u) →
    g.backing (v.childParent (c, u)) + g.repaid (v.childParent (c, u)) -
      g.debt (v.childParent (c, u)) = κ

/-- A gauge that is even everywhere is even for every position. -/
theorem Even.at (hg : g.Even κ) (v : VaultState) (c : MarketId) (u : Address) : g.EvenAt κ v c u :=
  fun _ => hg _

namespace EvenAt

variable {v v' : VaultState} {c : MarketId} {u : Address}

/-- A position that owes no more to the same parent stays even. -/
theorem fall (hg : g.EvenAt κ v c u) (hparent : v'.childParent = v.childParent)
    (hdebt : v'.childDebt (c, u) ≤ v.childDebt (c, u)) : g.EvenAt κ v' c u := by
  intro hpos
  rw [hparent]
  exact hg (hpos.trans_le hdebt)

/-- Other settlements keep a position even. -/
theorem settled (hg : g.EvenAt κ v c u) (hv : Sane v) {c' : MarketId} {u' : Address} {r x : ℤ}
    (h : Vault.settleChildDebt v c' u' r = .ok (x, v')) : g.EvenAt κ v' c u := by
  refine hg.fall ?_ (settleChildDebt_childDebt_le hv h (c, u))
  obtain ⟨_, rfl, _⟩ | ⟨_, rfl, _, _⟩ | ⟨_, _, _, rfl⟩ | ⟨_, _, _, _, rfl⟩ :=
    settleChildDebt_cases h
  all_goals rfl

/-- Settling a child debt under a gauge that is even for it. -/
theorem settleChildDebt (hg : g.EvenAt κ v c u) (hv : Sane v) {r x : ℤ}
    (h : Vault.settleChildDebt v c u r = .ok (x, v')) :
    ∃ credited, 0 ≤ credited ∧ credited ≤ x ∧ g.read v' = g.read v + κ * credited := by
  have hx := hv.settled_bounds h
  have hread := settleChildDebt_read g h
  by_cases hdebt : 0 < v.childDebt (c, u)
  · rw [hg hdebt] at hread
    refine ⟨creditedUpstream v c u x, ?_, ?_, hread⟩
    · unfold creditedUpstream
      split <;> omega
    · unfold creditedUpstream
      split <;> omega
  · have hfree : v.childDebt (c, u) = 0 := by
      have hnonneg := hv.childDebt_nonneg (c, u)
      omega
    have hnone : x = 0 := by
      unfold Vault.settleChildDebt at h
      dsimp only at h
      rw [if_pos hfree, ite_self] at h
      exact (Prod.mk.inj (ok_ok.mp h)).1.symm
    refine ⟨0, le_rfl, hx.1, ?_⟩
    rw [hread, hnone]
    unfold creditedUpstream
    rw [ite_self, mul_zero, mul_zero]

end EvenAt

/-- Paying down the children of a stake under a gauge that is even for them. -/
theorem EvenAt.settleChildren (children : List MarketId) {v v' : VaultState} {u : Address}
    (hg : ∀ c ∈ children, g.EvenAt κ v c u) (hv : Sane v) {pool pool' paid paid' : ℤ}
    (h : settleChildren v u pool paid children = .ok (pool', paid', v')) :
    ∃ credited, 0 ≤ credited ∧ credited ≤ paid' - paid ∧ g.read v' = g.read v + κ * credited := by
  induction children generalizing v pool paid with
  | nil =>
    obtain ⟨_, h2⟩ := Prod.mk.inj (ok_ok.mp h)
    obtain ⟨rfl, rfl⟩ := Prod.mk.inj h2
    exact ⟨0, le_rfl, by omega, by ring⟩
  | cons child children ih =>
    unfold Vault.settleChildren at h
    split at h
    · obtain ⟨_, h2⟩ := Prod.mk.inj (ok_ok.mp h)
      obtain ⟨rfl, rfl⟩ := Prod.mk.inj h2
      exact ⟨0, le_rfl, by omega, by ring⟩
    · obtain ⟨⟨x, v1⟩, h1, h⟩ := bind_ok.mp h
      obtain ⟨pool1, hp1, h⟩ := bind_ok.mp h
      obtain ⟨paid1, hd1, h⟩ := bind_ok.mp h
      have hd1' := (checkedAdd_ok.mp hd1).1
      obtain ⟨c1, hc1, hx1, hr1⟩ := (hg child List.mem_cons_self).settleChildDebt hv h1
      have hrest : ∀ c ∈ children, g.EvenAt κ v1 c u :=
        fun c hc => (hg c (List.mem_cons_of_mem _ hc)).settled hv h1
      obtain ⟨c2, hc2, hx2, hr2⟩ := ih hrest (hv.settleChildDebt h1) h
      refine ⟨c1 + c2, by omega, by omega, ?_⟩
      rw [hr2, hr1]
      ring

end Gauge

/-- A deposit: the vault receives what it books. -/
theorem depositForMarket_flow {ctx : Ctx} (hctx : Outside .vault ctx) {w w' : World} {token : Asset}
    {user : Address} {m : MarketId} {x : ℤ} (hv : Sane w.vault)
    (h : depositForMarket ctx w token user m x = .ok w') :
    ∃ v b, w' = { w with vault := v, bank := b } ∧ Sane v ∧ Frame w.vault v ∧ 0 < x ∧
      (∃ market, w.registry.market m = some market ∧ token = market.collateral) ∧
      g.read v = g.read w.vault + g.backing m * x ∧
      ∀ t, cash b t = cash w.bank t + (if t = token then x else 0) := by
  unfold depositForMarket at h
  obtain ⟨_, _, h⟩ := bind_ok.mp h
  obtain ⟨_, hauth, h⟩ := bind_ok.mp h
  obtain ⟨_, hpos, h⟩ := bind_ok.mp h
  obtain ⟨_, _, h⟩ := bind_ok.mp h
  obtain ⟨_, hcoll, h⟩ := bind_ok.mp h
  obtain ⟨w1, hpay, h⟩ := bind_ok.mp h
  obtain ⟨v1, hdep, h⟩ := bind_ok.mp h
  obtain ⟨d, _, h⟩ := bind_ok.mp h
  have hpos' := refuse_ok.mp hpos
  obtain ⟨b, rfl, hcash⟩ := payIn_cash (hctx.ne_of_auth hauth) hpay
  rw [← pure_ok.mp h]
  have hsane : Sane v1 := hv.recordDeposit hdep
  refine ⟨_, b, rfl, { hsane with },
    (Frame.recordDeposit hdep).trans ⟨rfl, rfl, rfl, rfl, rfl, rfl, rfl⟩,
    by omega, requireMarketCollateral_ok hcoll, ?_, hcash⟩
  rw [← g.recordDeposit_read hdep]
  exact g.read_congr rfl rfl rfl

/-- Recording a cash stake moves nothing. -/
theorem recordCashStake_flow {ctx : Ctx} {w w' : World} {user : Address} {m : MarketId}
    {o : Outcome} {x y : ℤ} (h : recordCashStake ctx w user m o x y = .ok w') :
    ∃ rootStake, w' = { w with vault := { w.vault with rootStake := rootStake } } := by
  unfold recordCashStake at h
  obtain ⟨_, _, h⟩ := bind_ok.mp h
  obtain ⟨_, _, h⟩ := bind_ok.mp h
  obtain ⟨s, _, h⟩ := bind_ok.mp h
  exact ⟨s, (pure_ok.mp h).symm⟩

/-- Child credit: backing moves from the parent to the child, and a debt arises. -/
theorem openChildCreditForTrade_flow {ctx : Ctx} {w w' : World} {user : Address}
    {p c : MarketId} {po co : Outcome} {x : ℤ} (hv : Sane w.vault)
    (h : openChildCreditForTrade ctx w user p po c co x = .ok w') :
    ∃ v, w' = { w with vault := v } ∧ Sane v ∧ Frame w.vault v ∧ 0 < x ∧
      g.read v = g.read w.vault +
        (g.debt p + (g.issued p - g.backing p + g.backing c)) * x := by
  unfold openChildCreditForTrade at h
  obtain ⟨_, _, h⟩ := bind_ok.mp h
  obtain ⟨_, hpos, h⟩ := bind_ok.mp h
  obtain ⟨_, _, h⟩ := bind_ok.mp h
  obtain ⟨_, _, h⟩ := bind_ok.mp h
  obtain ⟨_, _, h⟩ := bind_ok.mp h
  obtain ⟨_, _, h⟩ := bind_ok.mp h
  obtain ⟨_, _, h⟩ := bind_ok.mp h
  obtain ⟨_, _, h⟩ := bind_ok.mp h
  obtain ⟨_, _, h⟩ := bind_ok.mp h
  obtain ⟨_, _, h⟩ := bind_ok.mp h
  obtain ⟨v1, hloan, h⟩ := bind_ok.mp h
  obtain ⟨v2, hmove, h⟩ := bind_ok.mp h
  have hpos' := refuse_ok.mp hpos
  have hsane := (hv.recordLoan (by omega) hloan).reallocateBacking hmove
  refine ⟨v2, (pure_ok.mp h).symm, hsane,
    (Frame.recordLoan hloan).trans (Frame.reallocateBacking hmove), by omega, ?_⟩
  rw [g.reallocateBacking_read hmove, g.recordLoan_read hloan]
  ring

/-- A voluntary repayment: the vault keeps what it applied. -/
theorem repayChildCollateral_flow {ctx : Ctx} (hctx : Outside .vault ctx) {w w' : World}
    {token : Asset} {user : Address} {m : MarketId} {x y : ℤ} (hg : g.EvenAt κ w.vault m user)
    (hv : Sane w.vault)
    (h : repayChildCollateral ctx w token user m x = .ok (y, w')) :
    ∃ v b credited, w' = { w with vault := v, bank := b } ∧ Sane v ∧ Frame w.vault v ∧
      (∃ market, w.registry.market m = some market ∧ token = market.collateral) ∧
      0 ≤ credited ∧ credited ≤ y ∧ g.read v = g.read w.vault + κ * credited ∧
      ∀ t, cash w.bank t + (if t = token then y else 0) ≤ cash b t := by
  unfold repayChildCollateral at h
  obtain ⟨_, hauth, h⟩ := bind_ok.mp h
  obtain ⟨_, hpos, h⟩ := bind_ok.mp h
  obtain ⟨_, hcoll, h⟩ := bind_ok.mp h
  obtain ⟨w1, hpay, h⟩ := bind_ok.mp h
  obtain ⟨⟨applied, v⟩, hsettle, h⟩ := bind_ok.mp h
  obtain ⟨unused, hunused, h⟩ := bind_ok.mp h
  obtain ⟨w2, hback, h⟩ := bind_ok.mp h
  obtain ⟨rfl, rfl⟩ := Prod.mk.inj (pure_ok.mp h)
  obtain ⟨b1, rfl, hin⟩ := payIn_cash (hctx.ne_of_auth hauth) hpay
  obtain ⟨b2, rfl, hout⟩ := payPositive_cash hback
  have hpos' := refuse_ok.mp hpos
  have hunused' := (checkedSub_ok.mp hunused).1
  have hbounds := hv.settled_bounds hsettle
  obtain ⟨credited, hc0, hcx, hread⟩ := hg.settleChildDebt hv hsettle
  refine ⟨v, b2, credited, rfl, hv.settleChildDebt hsettle, Frame.settleChildDebt hsettle,
    requireMarketCollateral_ok hcoll, hc0, hcx, hread, ?_⟩
  intro t
  have h1 := hin t
  have h2 := hout t
  dsimp only at h2
  split
  · next ht =>
    rw [if_pos ht] at h1 h2
    omega
  · next ht =>
    rw [if_neg ht] at h1 h2
    omega

/-- A sale: the vault pays out what leaves the market's backing. -/
theorem releaseTradePayout_flow {ctx : Ctx} {w w' : World} {token : Asset}
    {user : Address} {m : MarketId} {o : Outcome} {sold x : ℤ} (hv : Sane w.vault)
    (h : releaseTradePayout ctx w token user m o sold x = .ok w') :
    ∃ v b, w' = { w with vault := v, bank := b } ∧ Sane v ∧ Frame w.vault v ∧
      (∃ market, w.registry.market m = some market ∧ token = market.collateral) ∧
      w.vault.parentDebt (m, user, o) ≤ 0 ∧ v.parentDebt = w.vault.parentDebt ∧
      g.read v = g.read w.vault - g.backing m * x ∧
      ∀ t, cash w.bank t - (if t = token then x else 0) ≤ cash b t := by
  unfold releaseTradePayout at h
  obtain ⟨_, _, h⟩ := bind_ok.mp h
  obtain ⟨_, _, h⟩ := bind_ok.mp h
  obtain ⟨_, hcoll, h⟩ := bind_ok.mp h
  obtain ⟨_, hfree, h⟩ := bind_ok.mp h
  obtain ⟨v, hv', h⟩ := bind_ok.mp h
  obtain ⟨b, rfl, hcash⟩ := payOut_cash h
  have hdebt := not_or.mp (refuse_ok.mp hfree)
  refine ⟨v, b, rfl, hv.extractProceeds hv', Frame.extractProceeds hv',
    requireMarketCollateral_ok hcoll, by omega, ?_, g.extractProceeds_read hv', hcash⟩
  exact (extractProceeds_debts hv').parentDebt

/-- What a default passed `lost` does to a reading, `owed` being the parent
debt it takes away and `draw` what the reserve restores. -/
def Gauge.loss (g : Gauge) (p : MarketId) (lost draw owed : ℤ) : ℤ :=
  g.defaulted p * lost + (g.backing p - g.reserve) * draw + g.shortfall p * (lost - draw) -
    g.debt p * owed

/-- After the keeper's cut something is left of positive proceeds. -/
theorem pool_pos {x : ℤ} (hx : 0 < x) : 0 < x - bpsOf x liquidationBonusBps := by
  unfold bpsOf liquidationBonusBps bpsDenominator
  rw [Int.tdiv_eq_ediv_of_nonneg (by positivity)]
  omega

/-- Nothing written off changes no reading. -/
theorem Gauge.loss_zero (g : Gauge) (p : MarketId) : g.loss p 0 0 0 = 0 := by
  unfold Gauge.loss
  ring

/-- Extracting proceeds leaves the insurance reserve alone. -/
theorem extractProceeds_reserve {v v' : VaultState} {m : MarketId} {user : Address} {o : Outcome}
    {sold x : ℤ} (h : extractProceeds v m user o sold x = .ok v') :
    v'.insuranceReserve = v.insuranceReserve := by
  obtain ⟨_, _, rfl⟩ := extractProceeds_ok h
  rfl

/-- The keeper's cut of positive proceeds is not negative and less than all of them. -/
theorem bonus_bounds {x bonus : ℤ} (hx : 0 < x) (h : bps x liquidationBonusBps = .ok bonus) :
    0 ≤ bonus ∧ bonus < x := by
  obtain ⟨rfl, _⟩ := bps_ok.mp h
  have hpool := pool_pos hx
  exact ⟨bpsOf_nonneg hx.le liquidationBonusBps, by omega⟩

/-- The recorded use that is left once the proceeds of a sale have paid down the children. -/
def useLeft (v : VaultState) (user : Address) (p : MarketId) (o : Outcome) (sold x : ℤ) : ℤ :=
  let settled := do
    let v1 ← extractProceeds v p user o sold x
    settleChildren v1 user (x - bpsOf x liquidationBonusBps) 0 (v1.childMarketsOf (p, user, o))
  match settled with
  | .ok (_, _, v2) => v2.childUsedByOutcome (p, user, o)
  | .error _ => 0

/-- A liquidated parent position: proceeds leave the backing, repay children,
and what the recorded use still shows is written off. -/
theorem liquidateRelease_flow {ctx : Ctx} {w w' : World} {token : Asset}
    {user keeper : Address} {p : MarketId} {o : Outcome} {sold x y : ℤ}
    (hg : ∀ c ∈ w.vault.childMarketsOf (p, user, o), g.EvenAt κ w.vault c user) (hv : Sane w.vault)
    (h : liquidateRelease ctx w token user keeper p o sold x = .ok (y, w')) :
    ∃ v b credited lost draw owed, w' = { w with vault := v, bank := b } ∧ Sane v ∧
    Frame w.vault v ∧
      (∃ market, w.registry.market p = some market ∧ token = market.collateral) ∧
      0 ≤ credited ∧ credited ≤ y ∧
      (w.vault.childUsedByOutcome (p, user, o) = w.vault.parentDebt (p, user, o) →
        lost = owed) ∧
      (0 ≤ draw ∧ draw ≤ min (useLeft w.vault user p o sold x) w.vault.insuranceReserve) ∧
      g.read v = g.read w.vault - g.backing p * x + κ * credited + g.loss p lost draw owed ∧
      ∀ t, cash w.bank t - (if t = token then x - y else 0) ≤ cash b t := by
  unfold liquidateRelease at h
  obtain ⟨_, _, h⟩ := bind_ok.mp h
  obtain ⟨_, hpos, h⟩ := bind_ok.mp h
  obtain ⟨_, hcoll, h⟩ := bind_ok.mp h
  obtain ⟨_, _, h⟩ := bind_ok.mp h
  obtain ⟨v1, hout, h⟩ := bind_ok.mp h
  obtain ⟨bonus, hbonus, h⟩ := bind_ok.mp h
  obtain ⟨pool, hpool, h⟩ := bind_ok.mp h
  obtain ⟨⟨remainder, paid, v2⟩, hsettle, h⟩ := bind_ok.mp h
  obtain ⟨v3, hdef, h⟩ := bind_ok.mp h
  obtain ⟨w1, hkeeper, h⟩ := bind_ok.mp h
  obtain ⟨w2, huser, h⟩ := bind_ok.mp h
  obtain ⟨rfl, rfl⟩ := Prod.mk.inj (pure_ok.mp h)
  have hpos' := not_or.mp (refuse_ok.mp hpos)
  have hbounds := bonus_bounds (by omega) hbonus
  have hpool' := (checkedSub_ok.mp hpool).1
  have hv1 := hv.extractProceeds hout
  obtain ⟨hv2, hrem, _, hsum⟩ := Sane.settleChildren _ hv1 (by omega) hsettle
  have hframe := (Frame.extractProceeds hout).trans (Frame.settleChildren _ hsettle)
  have hsame := extractProceeds_debts hout
  have hg1 : ∀ c ∈ v1.childMarketsOf (p, user, o), g.EvenAt κ v1 c user := by
    rw [hsame.childMarketsOf]
    exact fun c hc => (hg c hc).fall hsame.childParent (by rw [hsame.childDebt])
  obtain ⟨credited, hc0, hcy, hread2⟩ := Gauge.EvenAt.settleChildren _ hg1 hv1 hsettle
  rw [g.extractProceeds_read hout] at hread2
  have hparts : bonus + remainder = x - paid := by omega
  obtain ⟨b, rfl, hcash⟩ := payPositive_both_cash hbounds.1 hrem hparts hkeeper huser
  have huse : w.vault.childUsedByOutcome (p, user, o) = w.vault.parentDebt (p, user, o) →
      v2.childUsedByOutcome (p, user, o) = v2.parentDebt (p, user, o) := by
    intro heq
    apply Sane.settleChildren_use _ hv1 ?_ hsettle
    rw [hsame.childUsedByOutcome, hsame.parentDebt]
    exact heq
  have hleft : useLeft w.vault user p o sold x = v2.childUsedByOutcome (p, user, o) := by
    unfold useLeft
    rw [hpool', (bps_ok.mp hbonus).1] at hsettle
    rw [hout]
    change (match settleChildren v1 user (x - bpsOf x liquidationBonusBps) 0
      (v1.childMarketsOf (p, user, o)) with
      | .ok (_, _, v2) => v2.childUsedByOutcome (p, user, o)
      | .error _ => 0) = _
    rw [hsettle]
  have hused0 : 0 ≤ v2.childUsedByOutcome (p, user, o) :=
    (hv2.parentDebt_nonneg _).trans (hv2.parentDebt_le_used _)
  have hreserve0 := hv.reserve_nonneg
  split at hdef
  · next hlost =>
    have hread3 := g.resolveParentDefault_read hlost hv2.reserve_nonneg hdef
    have hreserve := Sane.settleChildren_reserve _ hsettle
    have hsame1 := extractProceeds_reserve hout
    refine ⟨v3, b, credited, v2.childUsedByOutcome (p, user, o),
      min (v2.childUsedByOutcome (p, user, o)) v2.insuranceReserve,
      v2.parentDebt (p, user, o), rfl, hv2.resolveParentDefault hdef,
      hframe.trans (Frame.resolveParentDefault hdef), requireMarketCollateral_ok hcoll, hc0,
      by omega, huse, by omega, ?_, hcash⟩
    rw [hread3, hread2]
    unfold Gauge.loss
    ring
  · obtain rfl := ok_ok.mp hdef
    refine ⟨v2, b, credited, 0, 0, 0, rfl, hv2, hframe, requireMarketCollateral_ok hcoll, hc0,
      by omega, fun _ => rfl, by omega, ?_, hcash⟩
    rw [hread2, g.loss_zero, add_zero]

/-- The liquidations of a child position that write off exactly the parent
debt they take away: no parent or no upstream debt, equal records of the debt,
or proceeds that cover the whole child debt within the upstream debt. -/
def ChildDefaultExact (v : VaultState) (c : MarketId) (u : Address) (proceeds : ℤ) : Prop :=
  let p := v.childParent (c, u)
  let raw := v.childDebt (c, u)
  let upstream := v.parentDebt (p, u, v.childParentOutcome (c, u))
  p = 0 ∨ upstream = 0 ∨ raw = upstream ∨
    (raw ≤ upstream ∧ raw ≤ proceeds - bpsOf proceeds liquidationBonusBps)

/-- After an exact settlement, what is left of the child debt is what is left upstream. -/
theorem ChildDefaultExact.settled {v v' : VaultState} (hv : Sane v) {c : MarketId} {u : Address}
    {proceeds y : ℤ} (hexact : ChildDefaultExact v c u proceeds)
    (hr : 0 < proceeds - bpsOf proceeds liquidationBonusBps) (hp : v.childParent (c, u) ≠ 0)
    (h : settleChildDebt v c u (proceeds - bpsOf proceeds liquidationBonusBps) = .ok (y, v'))
    (hleft : 0 < v'.childDebt (c, u)) :
    v'.childDebt (c, u) =
      v'.parentDebt (v.childParent (c, u), u, v.childParentOutcome (c, u)) := by
  have happlied := hv.settled h
  obtain ⟨hchild, hupstream⟩ := Sane.settleChildDebt_left hr hp h
  have heffective := Sane.effectiveDebt_eq_min v hp
  have hexact' := hexact.resolve_left hp
  rw [if_neg (by omega)] at happlied
  rw [hchild] at hleft ⊢
  rw [hupstream]
  split at hleft
  · omega
  · next hfresh =>
    rw [if_neg hfresh]
    omega

/-- The child debt that is left to write off at the parent once the proceeds
of a sale have been applied to it. -/
def childDebtLeft (v : VaultState) (user : Address) (c : MarketId) (x : ℤ) : ℤ :=
  let p := v.childParent (c, user)
  if p = 0 ∨ v.parentDebt (p, user, v.childParentOutcome (c, user)) = 0 then 0
  else v.childDebt (c, user) - min (x - bpsOf x liquidationBonusBps) (effectiveDebt v c user)

/-- What is left of a child debt is not negative. -/
theorem childDebtLeft_nonneg (v : VaultState) (user : Address) (c : MarketId) (x : ℤ) :
    0 ≤ childDebtLeft v user c x := by
  have hle := Sane.effectiveDebt_le v c user
  unfold childDebtLeft
  dsimp only
  split <;> omega

/-- It is the child debt a settlement by the proceeds leaves, when there is a parent. -/
theorem childDebtLeft_eq {v v' : VaultState} (hv : Sane v) {user : Address} {c : MarketId} {x y : ℤ}
    (hr : 0 < x - bpsOf x liquidationBonusBps) (hp : v.childParent (c, user) ≠ 0)
    (h : settleChildDebt v c user (x - bpsOf x liquidationBonusBps) = .ok (y, v')) :
    childDebtLeft v user c x = v'.childDebt (c, user) := by
  have hy := hv.settled h
  rw [if_neg (by omega)] at hy
  rw [(Sane.settleChildDebt_left hr hp h).1, hy]
  unfold childDebtLeft
  dsimp only
  simp only [hp, false_or]

/-- A liquidated child position: proceeds leave its backing, repay its debt,
and the child debt that remains is written off at its parent. -/
theorem liquidateChildRelease_flow {ctx : Ctx} {w w' : World} {token : Asset}
    {user keeper : Address} {c : MarketId} {o : Outcome} {sold x y : ℤ}
    (hg : g.EvenAt κ w.vault c user) (hv : Sane w.vault)
    (h : liquidateChildRelease ctx w token user keeper c o sold x = .ok (y, w')) :
    ∃ v b credited lost draw owed, w' = { w with vault := v, bank := b } ∧ Sane v ∧
    Frame w.vault v ∧
      (∃ market, w.registry.market c = some market ∧ token = market.collateral) ∧
      0 ≤ credited ∧ credited ≤ y ∧
      (ChildDefaultExact w.vault c user x → lost = owed) ∧
      (0 ≤ draw ∧ draw ≤ min (childDebtLeft w.vault user c x) w.vault.insuranceReserve) ∧
      g.read v = g.read w.vault - g.backing c * x + κ * credited +
        g.loss (w.vault.childParent (c, user)) lost draw owed ∧
      ∀ t, cash w.bank t - (if t = token then x - y else 0) ≤ cash b t := by
  unfold liquidateChildRelease at h
  obtain ⟨_, _, h⟩ := bind_ok.mp h
  obtain ⟨_, hpos, h⟩ := bind_ok.mp h
  obtain ⟨_, hcoll, h⟩ := bind_ok.mp h
  obtain ⟨_, _, h⟩ := bind_ok.mp h
  obtain ⟨v1, hout, h⟩ := bind_ok.mp h
  obtain ⟨bonus, hbonus, h⟩ := bind_ok.mp h
  obtain ⟨pool, hpool, h⟩ := bind_ok.mp h
  obtain ⟨⟨applied, v2⟩, hsettle, h⟩ := bind_ok.mp h
  obtain ⟨remainder, hrem, h⟩ := bind_ok.mp h
  obtain ⟨v3, hdef, h⟩ := bind_ok.mp h
  obtain ⟨w1, hkeeper, h⟩ := bind_ok.mp h
  obtain ⟨w2, huser, h⟩ := bind_ok.mp h
  obtain ⟨rfl, rfl⟩ := Prod.mk.inj (pure_ok.mp h)
  have hpos' := not_or.mp (refuse_ok.mp hpos)
  have hbounds := bonus_bounds (by omega) hbonus
  have hbonus' := (bps_ok.mp hbonus).1
  have hpool' := (checkedSub_ok.mp hpool).1
  have hrem' := (checkedSub_ok.mp hrem).1
  have hv1 := hv.extractProceeds hout
  have hv2 := hv1.settleChildDebt hsettle
  have happ := hv1.settled_bounds hsettle
  have hframe := (Frame.extractProceeds hout).trans (Frame.settleChildDebt hsettle)
  have hsame := extractProceeds_debts hout
  have hg1 : g.EvenAt κ v1 c user := hg.fall hsame.childParent (by rw [hsame.childDebt])
  obtain ⟨credited, hc0, hcy, hread2⟩ := hg1.settleChildDebt hv1 hsettle
  rw [g.extractProceeds_read hout] at hread2
  have hparts : bonus + remainder = x - applied := by omega
  obtain ⟨b, rfl, hcash⟩ := payPositive_both_cash hbounds.1 (by omega) hparts hkeeper huser
  have hparent := Sane.settleChildDebt_parent hsettle
  rw [hsame.childParent, hsame.childParentOutcome] at hparent
  rw [hparent.1, hparent.2] at hdef
  have hdebt0 := childDebtLeft_nonneg w.vault user c x
  have hreserve0 := hv.reserve_nonneg
  split at hdef
  · next hlost =>
    have hread3 := g.resolveParentDefault_read hlost.1 hv2.reserve_nonneg hdef
    refine ⟨v3, b, credited, v2.childDebt (c, user),
      min (v2.childDebt (c, user)) v2.insuranceReserve,
      v2.parentDebt (w.vault.childParent (c, user), user, w.vault.childParentOutcome (c, user)),
      rfl, hv2.resolveParentDefault hdef, hframe.trans (Frame.resolveParentDefault hdef),
      requireMarketCollateral_ok hcoll, hc0, by omega, ?_, ?_, ?_, hcash⟩
    · -- the child debt that is left is the parent debt that is left
      intro hexact
      have hexact1 : ChildDefaultExact v1 c user x := by
        unfold ChildDefaultExact at hexact ⊢
        rw [hsame.childParent, hsame.childParentOutcome, hsame.childDebt, hsame.parentDebt]
        exact hexact
      have hleft := hlost.2
      rw [← hsame.childParent] at hleft ⊢
      rw [← hsame.childParentOutcome]
      rw [hpool', hbonus'] at hsettle
      exact hexact1.settled hv1 (by omega) hleft hsettle hlost.1
    · have hreserve := Sane.settleChildDebt_reserve hsettle
      have hparent' := hlost.2
      rw [← hsame.childParent] at hparent'
      rw [hpool', hbonus'] at hsettle
      have hleft := childDebtLeft_eq hv1 (by omega) hparent' hsettle
      have hbefore : childDebtLeft v1 user c x = childDebtLeft w.vault user c x := by
        unfold childDebtLeft effectiveDebt
        rw [hsame.childParent, hsame.childParentOutcome, hsame.childDebt, hsame.parentDebt]
      have hsame1 := extractProceeds_reserve hout
      omega
    · rw [hread3, hread2]
      unfold Gauge.loss
      ring
  · obtain rfl := ok_ok.mp hdef
    refine ⟨v2, b, credited, 0, 0, 0, rfl, hv2, hframe, requireMarketCollateral_ok hcoll, hc0,
      by omega, fun _ => rfl, by omega, ?_, hcash⟩
    rw [hread2, g.loss_zero, add_zero]

/-- The upstream share of a claim: settled there, and debited here when positive. -/
theorem repayUpstream_steps {v v' : VaultState} {m : MarketId} {user : Address} {claim x : ℤ}
    (h : repayUpstream v m user claim = .ok (x, v')) :
    ∃ v1, settleChildDebt v m user claim = .ok (x, v1) ∧
      v' = if x > 0 then
        { v1 with accounting := v1.accounting.set m (debitedBy (v1.accounting m) x) } else v1 := by
  unfold repayUpstream at h
  obtain ⟨⟨x1, v1⟩, h1, h⟩ := bind_ok.mp h
  dsimp only at h
  split at h
  · next hpos =>
    obtain ⟨a, ha, h⟩ := bind_ok.mp h
    obtain ⟨rfl, rfl⟩ := Prod.mk.inj (pure_ok.mp h)
    rw [debitBacking_ok ha]
    exact ⟨v1, h1, (if_pos hpos).symm⟩
  · next hnone =>
    obtain ⟨rfl, rfl⟩ := Prod.mk.inj (pure_ok.mp h)
    exact ⟨v1, h1, (if_neg hnone).symm⟩

/-- Settling upstream under a gauge that is even for the position: the market's backing pays. -/
theorem Gauge.EvenAt.repayUpstream {v v' : VaultState} {m : MarketId} {u : Address}
    (hg : g.EvenAt κ v m u) (hv : Sane v) {claim x : ℤ}
    (h : repayUpstream v m u claim = .ok (x, v')) :
    ∃ credited, 0 ≤ credited ∧ credited ≤ x ∧
      g.read v' = g.read v + κ * credited - g.backing m * x := by
  unfold Vault.repayUpstream at h
  obtain ⟨⟨x1, v1⟩, h1, h⟩ := bind_ok.mp h
  have hx := hv.settled_bounds h1
  obtain ⟨credited, hc0, hcx, hread⟩ := hg.settleChildDebt hv h1
  dsimp only at h
  split at h
  · obtain ⟨a, ha, h⟩ := bind_ok.mp h
    obtain ⟨rfl, rfl⟩ := Prod.mk.inj (pure_ok.mp h)
    refine ⟨credited, hc0, hcx, ?_⟩
    rw [← hread, debitBacking_ok ha]
    simp only [read, total_books_set, weigh]
    ring
  · obtain ⟨rfl, rfl⟩ := Prod.mk.inj (pure_ok.mp h)
    have hzero : x1 = 0 := by omega
    refine ⟨credited, hc0, hcx, ?_⟩
    rw [hread, hzero]
    ring

/-- Withholding a claim under a gauge in which repaid credit weighs `κ` at the market. -/
theorem Gauge.withholdParentDebt_flow {v v' : VaultState} (hv : Sane v) {m : MarketId}
    (hg : g.backing m + g.repaid m - g.debt m = κ) {u : Address} {o : Outcome} {c claim x : ℤ}
    (hclaim : 0 ≤ claim) (hc : c = 0 → claim = 0)
    (h : withholdParentDebt v m u o c claim = .ok (x, v')) :
    x = min (v.parentDebt (m, u, o)) claim ∧ ∃ lost draw,
      (0 ≤ draw ∧ draw ≤ min (v.parentDebt (m, u, o)) v.insuranceReserve ∧ (0 < draw → c = 0)) ∧
      g.read v' = g.read v + κ * x + g.loss m lost draw lost := by
  obtain ⟨lost, draw, hlost, hdraw0, hdraw, hread⟩ :=
    g.withholdParentDebt_read h hclaim hc hv.reserve_nonneg
  have hdebt := hv.parentDebt_nonneg (m, u, o)
  have hx : x = min (v.parentDebt (m, u, o)) claim := by
    obtain ⟨_, hx, _⟩ | ⟨_, _, hx, _⟩ | ⟨_, hz, hx, _, _⟩ | ⟨_, hz, hx, _⟩ :=
      withholdParentDebt_cases h hclaim hc
    · exact hx
    · exact hx
    · omega
    · have := hc hz
      omega
  have hreserve := hv.reserve_nonneg
  have hdraws : 0 ≤ draw ∧ draw ≤ min (v.parentDebt (m, u, o)) v.insuranceReserve ∧
      (0 < draw → c = 0) := by
    by_cases hpos : 0 < lost
    · obtain ⟨hc0, hall⟩ := hlost hpos
      exact ⟨hdraw0, by omega, fun _ => hc0⟩
    · exact ⟨hdraw0, by omega, by omega⟩
  refine ⟨hx, lost, draw, hdraws, ?_⟩
  rw [hg, max_eq_left (by omega)] at hread
  rw [hread]
  unfold loss
  ring

/-- A payout lowers the vault's cash by what it books as redeemed. -/
theorem payRedemption_flow {ctx : Ctx} {w w' : World} {token : Asset} {user : Address}
    {m : MarketId} {x : ℤ} (hv : Sane w.vault)
    (h : payRedemption ctx w token user m x = .ok w') :
    ∃ v b, w' = { w with vault := v, bank := b } ∧ Sane v ∧ Frame w.vault v ∧
      g.read v = g.read w.vault + g.redeemed m * max x 0 ∧
      ∀ t, cash w.bank t - (if t = token then max x 0 else 0) ≤ cash b t := by
  unfold payRedemption at h
  split at h
  · obtain ⟨redeemed, hred, h⟩ := bind_ok.mp h
    obtain ⟨refundable, href, h⟩ := bind_ok.mp h
    obtain ⟨b, rfl, hcash⟩ := payOut_cash h
    have hmax : max x 0 = x := by omega
    refine ⟨_, b, rfl, hv.withAccounting ((hv.accounting m).keep rfl rfl rfl rfl),
      ⟨rfl, rfl, rfl, rfl, rfl, rfl, rfl⟩, ?_, ?_⟩
    · rw [(checkedAdd_ok.mp hred).1, hmax]
      simp only [Gauge.read, Gauge.total_books_set, Gauge.weigh]
      ring
    · rw [hmax]
      exact hcash
  · rw [← ok_ok.mp h]
    have hmax : max x 0 = 0 := by omega
    refine ⟨w.vault, w.bank, rfl, hv, Frame.refl _, ?_, ?_⟩
    · rw [hmax]
      ring
    · intro t
      rw [hmax, ite_self, sub_zero]

/-- The debts of a redemption in a resolved market: what is paid upstream leaves
the market's backing, and the withheld part is what the stake still owes or
what is left of the claim. -/
theorem settleResolved_flow {v v' : VaultState} (hv : Sane v) {m : MarketId} {u : Address}
    (hg : g.EvenAt κ v m u) (hm : g.backing m + g.repaid m - g.debt m = κ) {final o : Outcome}
    {amount gross payout : ℤ} (hpos : 0 < amount)
    (h : settleResolved v m u final o amount = .ok (gross, payout, v')) :
    ∃ paid credited withheld lost draw, Sane v' ∧ 0 ≤ credited ∧ credited ≤ paid ∧
      (v.parentDebt (m, u, o) = 0 ∨
        redemptionValue v m final o amount ≤ effectiveDebt v m u → withheld = 0) ∧
      (0 ≤ draw ∧ draw ≤ min (v.parentDebt (m, u, o)) v.insuranceReserve ∧
        (0 < draw → redemptionValue v m final o amount = 0)) ∧
      g.read v' = g.read v + κ * (credited + withheld) - g.backing m * paid +
        g.loss m lost draw lost := by
  unfold settleResolved at h
  obtain ⟨⟨x, v1⟩, hgross, h⟩ := bind_ok.mp h
  obtain ⟨v2, hadd, h⟩ := bind_ok.mp h
  obtain ⟨⟨paid, v3⟩, hup, h⟩ := bind_ok.mp h
  obtain ⟨claim, hclaim, h⟩ := bind_ok.mp h
  obtain ⟨⟨withheld, v4⟩, hwith, h⟩ := bind_ok.mp h
  obtain ⟨_, _, h⟩ := bind_ok.mp h
  obtain ⟨_, _, h⟩ := bind_ok.mp h
  obtain ⟨rfl, hrest⟩ := Prod.mk.inj (pure_ok.mp h)
  obtain ⟨rfl, rfl⟩ := Prod.mk.inj hrest
  have hclaim' := (checkedSub_ok.mp hclaim).1
  obtain ⟨hx, hx0, hv1, carry, rfl⟩ := hv.grossPayout hpos hgross
  unfold addRedeemed at hadd
  obtain ⟨r, _, hadd⟩ := bind_ok.mp hadd
  obtain rfl := pure_ok.mp hadd
  have hv2 : Sane { v with invalidDustCarry := carry, redeemed := r } := { hv1 with }
  obtain ⟨hpaid, hpaid0, hv3, hle⟩ := hv2.repayUpstream hx0 hup
  have hdebt := hv3.parentDebt_nonneg (m, u, o)
  have hdebt' := hle (m, u, o)
  have hzero : x = 0 → claim = 0 := by omega
  have hg2 : g.EvenAt κ { v with invalidDustCarry := carry, redeemed := r } m u :=
    hg.fall rfl le_rfl
  obtain ⟨credited, hc0, hcp, hread3⟩ := hg2.repayUpstream hv2 hup
  obtain ⟨hw, lost, draw, ⟨hdraw0, hdraw, hworthless⟩, hread4⟩ :=
    Gauge.withholdParentDebt_flow hv3 hm (by omega) hzero hwith
  have hreserve : v3.insuranceReserve = v.insuranceReserve := by
    obtain ⟨v3', hsettle, rfl⟩ := repayUpstream_steps hup
    have hkept := Sane.settleChildDebt_reserve hsettle
    split <;> exact hkept
  refine ⟨paid, credited, withheld, lost, draw,
    hv3.withholdParentDebt (by omega) hzero hwith, hc0, hcp, ?_, ?_, ?_⟩
  · rintro (hfree | hcovered)
    · rw [← hfree] at hdebt ⊢
      dsimp only at hdebt'
      omega
    · have heff : effectiveDebt v m u =
        effectiveDebt { v with invalidDustCarry := carry, redeemed := r } m u := rfl
      omega
  · dsimp only at hdebt'
    exact ⟨hdraw0, by omega, fun hpos => hx.symm.trans (hworthless hpos)⟩
  · have hsame : g.read { v with invalidDustCarry := carry, redeemed := r } = g.read v :=
      g.read_congr rfl rfl rfl
    rw [hread4, hread3, hsame]
    ring

/-- A redemption in a resolved market. -/
theorem redeemResolved_flow {ctx : Ctx} {w w' : World} {token : Asset} {user : Address}
    {m : MarketId} (hg : g.EvenAt κ w.vault m user) (hm : g.backing m + g.repaid m - g.debt m = κ)
    {o : Outcome} {amount y : ℤ} (hv : Sane w.vault)
    (h : redeemResolved ctx w token user m o amount = .ok (y, w')) :
    ∃ market v b t paid credited withheld lost draw,
      w' = { w with vault := v, bank := b, tokens := t } ∧ Sane v ∧ Frame w.vault v ∧
      w.registry.market m = some market ∧ token = market.collateral ∧
      0 ≤ credited ∧ credited ≤ paid ∧
      (w.vault.parentDebt (m, user, o) = 0 ∨
        redemptionValue w.vault m market.finalOutcome o amount ≤ effectiveDebt w.vault m user →
        withheld = 0) ∧
      (0 ≤ draw ∧ draw ≤ min (w.vault.parentDebt (m, user, o)) w.vault.insuranceReserve ∧
        (0 < draw → redemptionValue w.vault m market.finalOutcome o amount = 0)) ∧
      g.read v = g.read w.vault + κ * (credited + withheld) - g.backing m * paid +
        g.redeemed m * max y 0 + g.loss m lost draw lost ∧
      ∀ t, cash w.bank t - (if t = token then max y 0 else 0) ≤ cash b t := by
  unfold redeemResolved at h
  obtain ⟨_, _, h⟩ := bind_ok.mp h
  obtain ⟨_, hpos, h⟩ := bind_ok.mp h
  obtain ⟨_, _, h⟩ := bind_ok.mp h
  obtain ⟨_, _, h⟩ := bind_ok.mp h
  obtain ⟨_, _, h⟩ := bind_ok.mp h
  obtain ⟨market, hmarket, h⟩ := bind_ok.mp h
  obtain ⟨_, htoken, h⟩ := bind_ok.mp h
  obtain ⟨final, hfinal, h⟩ := bind_ok.mp h
  obtain ⟨⟨gross, payout, v1⟩, hsettle, h⟩ := bind_ok.mp h
  obtain ⟨_, _, h⟩ := bind_ok.mp h
  obtain ⟨tokens, _, h⟩ := bind_ok.mp h
  obtain ⟨v2, hretire, h⟩ := bind_ok.mp h
  obtain ⟨w1, hpay, h⟩ := bind_ok.mp h
  obtain ⟨rfl, rfl⟩ := Prod.mk.inj (pure_ok.mp h)
  have hpos' := refuse_ok.mp hpos
  have hmarket' := Registry.getMarket_ok.mp hmarket
  obtain ⟨market', hm', _, rfl⟩ := Registry.getFinalOutcome_ok.mp hfinal
  obtain rfl : market = market' := Option.some.inj (hmarket'.symm.trans hm')
  obtain ⟨paid, credited, withheld, lost, draw, hv1, hc0, hcp, hnone, hdraws, hread1⟩ :=
    settleResolved_flow hv hg hm (by omega) hsettle
  have hread2 := g.retireClaim_read hretire
  obtain ⟨v3, b, rfl, hv3, hframe3, hread3, hcash⟩ :=
    payRedemption_flow (g := g) (hv1.retireClaim hretire) hpay
  have hframe2 := (Frame.settleResolved hsettle).trans (Frame.retireClaim hretire)
  refine ⟨market, v3, b, tokens, paid, credited, withheld, lost, draw, rfl, hv3,
    hframe2.trans hframe3, hm', not_not.mp (refuse_ok.mp htoken), hc0, hcp, hnone, hdraws, ?_,
    hcash⟩
  rw [hread3, hread2, hread1]
  ring

/-- A redemption in a cancelled market. -/
theorem redeemCancelled_flow {ctx : Ctx} {w w' : World} {token : Asset} {user : Address}
    {m : MarketId} (hm : g.backing m + g.repaid m - g.debt m = κ) {o : Outcome} {amount y : ℤ}
    (hv : Sane w.vault)
    (h : redeemCancelled ctx w token user m o amount = .ok (y, w')) :
    ∃ market v b t withheld lost draw,
      w' = { w with vault := v, bank := b, tokens := t } ∧ Sane v ∧ Frame w.vault v ∧
      w.registry.market m = some market ∧ token = market.collateral ∧
      (w.vault.parentDebt (m, user, o) = 0 ∨
        redemptionValue w.vault m .invalid o amount = 0 → withheld = 0) ∧
      (0 ≤ draw ∧ draw ≤ min (w.vault.parentDebt (m, user, o)) w.vault.insuranceReserve ∧
        (0 < draw → redemptionValue w.vault m .invalid o amount = 0)) ∧
      g.read v = g.read w.vault + κ * withheld + g.redeemed m * max y 0 +
        g.loss m lost draw lost ∧
      ∀ t, cash w.bank t - (if t = token then max y 0 else 0) ≤ cash b t := by
  unfold redeemCancelled at h
  obtain ⟨_, _, h⟩ := bind_ok.mp h
  obtain ⟨_, hpos, h⟩ := bind_ok.mp h
  obtain ⟨market, hmarket, h⟩ := bind_ok.mp h
  obtain ⟨_, htoken, h⟩ := bind_ok.mp h
  obtain ⟨_, _, h⟩ := bind_ok.mp h
  obtain ⟨_, _, h⟩ := bind_ok.mp h
  obtain ⟨tokens, _, h⟩ := bind_ok.mp h
  obtain ⟨⟨payout, v1⟩, hsettle, h⟩ := bind_ok.mp h
  obtain ⟨w1, hpay, h⟩ := bind_ok.mp h
  obtain ⟨rfl, rfl⟩ := Prod.mk.inj (pure_ok.mp h)
  have hpos' := refuse_ok.mp hpos
  have htoken' := not_or.mp (refuse_ok.mp htoken)
  have hframe3 := Frame.settleCancelled hsettle
  unfold settleCancelled at hsettle
  obtain ⟨⟨gross, v2⟩, hrefund, hsettle⟩ := bind_ok.mp hsettle
  obtain ⟨⟨withheld, v3⟩, hwith, hsettle⟩ := bind_ok.mp hsettle
  obtain ⟨_, _, hsettle⟩ := bind_ok.mp hsettle
  obtain ⟨_, _, hsettle⟩ := bind_ok.mp hsettle
  obtain ⟨rfl, rfl⟩ := Prod.mk.inj (pure_ok.mp hsettle)
  have hcarry := hv.carry m
  obtain ⟨hgross, rfl, hv2⟩ := hv.refundWithCarry (by omega) hrefund
  have hdebt := hv.parentDebt_nonneg (m, user, o)
  obtain ⟨hw, lost, draw, hdraws, hread1⟩ :=
    Gauge.withholdParentDebt_flow hv2 hm (by omega) (fun hk => hk) hwith
  have hv3 := hv2.withholdParentDebt (by omega) (fun hk => hk) hwith
  obtain ⟨v4, b, rfl, hv4, hframe4, hread2, hcash⟩ := payRedemption_flow (g := g) hv3 hpay
  refine ⟨market, v4, b, tokens, withheld, lost, draw, rfl, hv4, hframe3.trans hframe4,
    marketData_ok hmarket,
    not_not.mp htoken'.2, ?_, ?_, ?_, hcash⟩
  · unfold redemptionValue
    dsimp only at hw
    rintro (hfree | hzero)
    · omega
    · dsimp only at hzero
      omega
  · refine ⟨hdraws.1, hdraws.2.1, fun hpos => ?_⟩
    unfold redemptionValue
    exact hgross.symm.trans (hdraws.2.2 hpos)
  · have hsame : ∀ carry, g.read { w.vault with invalidDustCarry := carry } = g.read w.vault :=
      fun _ => g.read_congr rfl rfl rfl
    rw [hread2, hread1, hsame]
    ring

/-- Reading of the bonds of one kind in one market. -/
def Gauge.bonds (g : Gauge) (m : MarketId) (isDispute : Bool) : ℤ :=
  if isDispute = true then g.disputeBonds m else g.proposalBonds m

/-- A bond that moves changes the bonds of its kind and nothing else. -/
theorem moveBond_weigh {a a' : VaultAccounting} {d : Bool} {x : ℤ} (m : MarketId)
    (h : moveBond a d x = .ok a') (ha : SaneAccounting a) :
    SaneAccounting a' ∧ g.weigh m a' = g.weigh m a + g.bonds m d * x := by
  unfold moveBond at h
  unfold Gauge.bonds
  split at h
  · next hd =>
    obtain ⟨bonds, hbonds, h⟩ := bind_ok.mp h
    obtain rfl := pure_ok.mp h
    refine ⟨ha.keep rfl rfl rfl rfl, ?_⟩
    rw [if_pos hd, (checkedAdd_ok.mp hbonds).1]
    simp only [Gauge.weigh]
    ring
  · next hd =>
    obtain ⟨bonds, hbonds, h⟩ := bind_ok.mp h
    obtain rfl := pure_ok.mp h
    refine ⟨ha.keep rfl rfl rfl rfl, ?_⟩
    rw [if_neg hd, (checkedAdd_ok.mp hbonds).1]
    simp only [Gauge.weigh]
    ring

/-- A locked bond: the vault receives what it books, and remembers the token. -/
theorem lockBond_flow {ctx : Ctx} (hctx : Outside .vault ctx) {w w' : World} {token : Asset}
    {user : Address} {r : ℕ} {m : MarketId} {x : ℤ} {d : Bool} (hv : Sane w.vault)
    (h : lockBond ctx w token user r m x d = .ok w') :
    ∃ v b, w' = { w with vault := v, bank := b } ∧ Sane v ∧ v.roles = w.vault.roles ∧
      (v.bondToken = w.vault.bondToken.set (r, user, d) (some token) ∧
        v.bondMarket = w.vault.bondMarket.set (r, user, d) (some m)) ∧
      (∃ market, w.registry.market m = some market ∧ token = market.collateral) ∧
      v.parentDebt = w.vault.parentDebt ∧
      g.read v = g.read w.vault + g.bonds m d * x ∧
      ∀ t, cash b t = cash w.bank t + (if t = token then x else 0) := by
  unfold lockBond at h
  obtain ⟨_, hauth, h⟩ := bind_ok.mp h
  obtain ⟨_, _, h⟩ := bind_ok.mp h
  obtain ⟨_, hcoll, h⟩ := bind_ok.mp h
  obtain ⟨_, _, h⟩ := bind_ok.mp h
  obtain ⟨w1, hpay, h⟩ := bind_ok.mp h
  obtain ⟨a, ha, h⟩ := bind_ok.mp h
  obtain ⟨b, rfl, hcash⟩ := payIn_cash (hctx.ne_of_auth hauth) hpay
  obtain ⟨hsane, hweigh⟩ := moveBond_weigh (g := g) m ha (hv.accounting m)
  rw [← pure_ok.mp h]
  refine ⟨_, b, rfl, { hv.withAccounting hsane with }, rfl, ⟨rfl, rfl⟩,
    requireMarketCollateral_ok hcoll, rfl, ?_, hcash⟩
  simp only [Gauge.read, Gauge.total_books_set, hweigh]
  ring

/-- A bond taken out: the vault pays what it unbooks, in the token it remembers. -/
theorem payBond_flow {ctx : Ctx} {w w' : World} {token : Asset} {user recipient : Address} {r : ℕ}
    {x : ℤ} {d : Bool} (hv : Sane w.vault)
    (h : payBond ctx w token user r x d recipient = .ok w') :
    ∃ v b m, w' = { w with vault := v, bank := b } ∧ Sane v ∧ v.roles = w.vault.roles ∧
      (v.bondToken = w.vault.bondToken ∧ v.bondMarket = w.vault.bondMarket) ∧
      (w.vault.bondToken (r, user, d) = some token ∧ w.vault.bondMarket (r, user, d) = some m) ∧
      v.parentDebt = w.vault.parentDebt ∧
      g.read v = g.read w.vault - g.bonds m d * x ∧
      ∀ t, cash w.bank t - (if t = token then x else 0) ≤ cash b t := by
  unfold payBond at h
  obtain ⟨_, _, h⟩ := bind_ok.mp h
  obtain ⟨_, _, h⟩ := bind_ok.mp h
  obtain ⟨v, htake, h⟩ := bind_ok.mp h
  obtain ⟨b, rfl, hcash⟩ := payOut_cash h
  unfold takeBond at htake
  obtain ⟨locked, hlocked, htake⟩ := bind_ok.mp htake
  obtain ⟨_, htoken, htake⟩ := bind_ok.mp htake
  obtain ⟨_, _, htake⟩ := bind_ok.mp htake
  obtain ⟨_, _, htake⟩ := bind_ok.mp htake
  obtain ⟨m, hmarket, htake⟩ := bind_ok.mp htake
  obtain ⟨_, _, htake⟩ := bind_ok.mp htake
  obtain ⟨a, ha, htake⟩ := bind_ok.mp htake
  have hmarket' := orFault_ok.mp hmarket
  have htoken' := orFault_ok.mp hlocked
  rw [not_not.mp (refuse_ok.mp htoken)] at htoken'
  obtain ⟨hsane, hweigh⟩ := moveBond_weigh (g := g) m ha (hv.accounting m)
  obtain rfl := pure_ok.mp htake
  refine ⟨_, b, m, rfl, { hv.withAccounting hsane with }, rfl, ⟨rfl, rfl⟩, ⟨htoken', hmarket'⟩,
    rfl, ?_, hcash⟩
  simp only [Gauge.read, Gauge.total_books_set, hweigh]
  ring

/-- Fees leave a market's backing for its fee buckets. -/
theorem collectFee_flow {ctx : Ctx} {w w' : World} {m : MarketId} {lp protocol cod : ℤ}
    (hv : Sane w.vault) (h : collectFee ctx w m lp protocol cod = .ok w') :
    ∃ v, w' = { w with vault := v } ∧ Sane v ∧ Frame w.vault v ∧
      v.parentDebt = w.vault.parentDebt ∧
      g.read v = g.read w.vault - g.backing m * (lp + protocol + cod) + g.lpFees m * lp +
        g.protocolFees m * protocol + g.codFees m * cod := by
  unfold collectFee at h
  obtain ⟨_, _, h⟩ := bind_ok.mp h
  obtain ⟨_, hpos, h⟩ := bind_ok.mp h
  obtain ⟨part, hpart, h⟩ := bind_ok.mp h
  obtain ⟨total, htotal, h⟩ := bind_ok.mp h
  obtain ⟨_, _, h⟩ := bind_ok.mp h
  obtain ⟨a, ha, h⟩ := bind_ok.mp h
  obtain ⟨lpFees, hlp, h⟩ := bind_ok.mp h
  obtain ⟨protocolFees, hprotocol, h⟩ := bind_ok.mp h
  obtain ⟨codFees, hcod, h⟩ := bind_ok.mp h
  have hpos' := refuse_ok.mp hpos
  have htotal' : total = lp + protocol + cod := by
    rw [(checkedAdd_ok.mp htotal).1, (checkedAdd_ok.mp hpart).1]
  rw [debitBacking_ok ha] at hlp hprotocol hcod h
  have hlp' := (checkedAdd_ok.mp hlp).1
  have hprotocol' := (checkedAdd_ok.mp hprotocol).1
  have hcod' := (checkedAdd_ok.mp hcod).1
  have hm := hv.accounting m
  rw [← pure_ok.mp h, htotal', hlp', hprotocol', hcod']
  refine ⟨_, rfl, hv.withAccounting ⟨hm.shortfall_nonneg, ?_, ?_, ?_⟩,
    ⟨rfl, rfl, rfl, rfl, rfl, rfl, rfl⟩, rfl, ?_⟩
  · have hp := hm.protocolFees_nonneg
    dsimp only
    omega
  · have hl := hm.lpFees_nonneg
    dsimp only
    omega
  · have hc := hm.codFees_nonneg
    dsimp only
    omega
  · simp only [Gauge.read, Gauge.total_books_set, Gauge.weigh]
    ring

/-- Liquidity fees are paid out of their bucket. -/
theorem claimLpFees_flow {ctx : Ctx} {w w' : World} {token : Asset} {m : MarketId} {lp : Address}
    {x : ℤ} (hv : Sane w.vault) (h : claimLpFees ctx w token m lp x = .ok w') :
    ∃ v b, w' = { w with vault := v, bank := b } ∧ Sane v ∧ Frame w.vault v ∧
      (∃ market, w.registry.market m = some market ∧ token = market.collateral) ∧
      v.parentDebt = w.vault.parentDebt ∧
      g.read v = g.read w.vault - g.lpFees m * x ∧
      ∀ t, cash w.bank t - (if t = token then x else 0) ≤ cash b t := by
  unfold claimLpFees at h
  obtain ⟨_, _, h⟩ := bind_ok.mp h
  obtain ⟨_, _, h⟩ := bind_ok.mp h
  obtain ⟨_, hcoll, h⟩ := bind_ok.mp h
  obtain ⟨_, hcover, h⟩ := bind_ok.mp h
  obtain ⟨lpFees, hlp, h⟩ := bind_ok.mp h
  obtain ⟨b, rfl, hcash⟩ := payOut_cash h
  have hcover' := refuse_ok.mp hcover
  have hm := hv.accounting m
  refine ⟨_, b, rfl, hv.withAccounting ⟨hm.shortfall_nonneg, hm.protocolFees_nonneg, ?_,
    hm.codFees_nonneg⟩, ⟨rfl, rfl, rfl, rfl, rfl, rfl, rfl⟩, requireMarketCollateral_ok hcoll, rfl,
    ?_, hcash⟩
  · rw [(checkedSub_ok.mp hlp).1]
    dsimp only
    omega
  · rw [(checkedSub_ok.mp hlp).1]
    simp only [Gauge.read, Gauge.total_books_set, Gauge.weigh]
    ring

/-- A sweep: a slice of the fees joins the reserve, the rest is paid out. -/
theorem sweepProtocolFees_flow {ctx : Ctx} {w w' : World} {token : Asset} {m : MarketId} {y : ℤ}
    (hv : Sane w.vault) (h : sweepProtocolFees ctx w token m = .ok (y, w')) :
    ∃ v b cut, w' = { w with vault := v, bank := b } ∧ Sane v ∧ Frame w.vault v ∧
      (∃ market, w.registry.market m = some market ∧ token = market.collateral) ∧
      v.parentDebt = w.vault.parentDebt ∧
      (y = (w.vault.accounting m).protocolFees + (w.vault.accounting m).codFees ∧
        cut = bpsOf y insuranceReserveBps) ∧
      g.read v = g.read w.vault - g.protocolFees m * (w.vault.accounting m).protocolFees -
        g.codFees m * (w.vault.accounting m).codFees + g.reserve * cut ∧
      ∀ t, cash w.bank t - (if t = token then y - cut else 0) ≤ cash b t := by
  unfold sweepProtocolFees at h
  obtain ⟨_, _, h⟩ := bind_ok.mp h
  obtain ⟨_, hcoll, h⟩ := bind_ok.mp h
  obtain ⟨amount, hamount, h⟩ := bind_ok.mp h
  have hamount' := (checkedAdd_ok.mp hamount).1
  have hm := hv.accounting m
  have hprotocol := hm.protocolFees_nonneg
  have hcod := hm.codFees_nonneg
  have hswept : SaneAccounting { w.vault.accounting m with protocolFees := 0, codFees := 0 } :=
    ⟨hm.shortfall_nonneg, le_rfl, hm.lpFees_nonneg, le_rfl⟩
  dsimp only at h
  split at h
  · next hpos =>
    obtain ⟨cut, hcut, h⟩ := bind_ok.mp h
    obtain ⟨rest, hrest, h⟩ := bind_ok.mp h
    obtain ⟨reserve, hreserve, h⟩ := bind_ok.mp h
    obtain ⟨w1, hpay, h⟩ := bind_ok.mp h
    obtain ⟨rfl, rfl⟩ := Prod.mk.inj (pure_ok.mp h)
    have hcut' := (bps_ok.mp hcut).1
    have hcut0 := bpsOf_nonneg (show 0 ≤ amount by omega) insuranceReserveBps
    have hcutle := bpsOf_le (show 0 ≤ amount by omega) (show insuranceReserveBps ≤ 10000 by decide)
    have hrest' := (checkedSub_ok.mp hrest).1
    have hreserve' : reserve = w.vault.insuranceReserve + cut := by
      split at hreserve
      · exact (checkedAdd_ok.mp hreserve).1
      · have hzero : cut = 0 := by omega
        rw [← ok_ok.mp hreserve, hzero, add_zero]
    obtain ⟨b, rfl, hcash⟩ := payPositive_cash hpay
    have hr := hv.reserve_nonneg
    refine ⟨_, b, cut, rfl, { hv.withAccounting hswept with reserve_nonneg := ?_ },
      ⟨rfl, rfl, rfl, rfl, rfl, rfl, rfl⟩, requireMarketCollateral_ok hcoll, rfl,
      ⟨hamount', hcut'⟩, ?_, ?_⟩
    · dsimp only
      omega
    · rw [hreserve']
      simp only [Gauge.read, Gauge.total_books_set, Gauge.weigh]
      ring
    · intro t
      have ht := hcash t
      rw [max_eq_left (by omega), hrest'] at ht
      exact ht
  · obtain ⟨rfl, rfl⟩ := Prod.mk.inj (pure_ok.mp h)
    have hzero : amount = 0 := by omega
    refine ⟨_, w.bank, 0, rfl, hv.withAccounting hswept, ⟨rfl, rfl, rfl, rfl, rfl, rfl, rfl⟩,
      requireMarketCollateral_ok hcoll, rfl, ⟨hamount', by rw [hzero]; rfl⟩, ?_, ?_⟩
    · simp only [Gauge.read, Gauge.total_books_set, Gauge.weigh]
      ring
    · intro t
      split <;> omega

end DikeProtocol.Vault
