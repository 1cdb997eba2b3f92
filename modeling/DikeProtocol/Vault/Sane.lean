import DikeProtocol.Vault.Gauge

/-!
# Signs and bounds the vault's books keep

No debt, shortfall, fee or reserve ever goes negative, the dust carry is one
unit at most, and the recorded use of a stake covers its debt. Every internal
function keeps these facts, whatever it is asked to do.
-/

namespace DikeProtocol.Vault

open Lib

/-- Signs of one market's books. -/
structure SaneAccounting (a : VaultAccounting) : Prop where
  shortfall_nonneg : 0 ≤ a.shortfall
  protocolFees_nonneg : 0 ≤ a.protocolFees
  lpFees_nonneg : 0 ≤ a.lpFees
  codFees_nonneg : 0 ≤ a.codFees

/-- Signs and bounds of a vault. -/
structure Sane (v : VaultState) : Prop where
  childDebt_nonneg : ∀ k, 0 ≤ v.childDebt k
  parentDebt_nonneg : ∀ k, 0 ≤ v.parentDebt k
  parentDebt_le_used : ∀ k, v.parentDebt k ≤ v.childUsedByOutcome k
  reserve_nonneg : 0 ≤ v.insuranceReserve
  accounting : ∀ m, SaneAccounting (v.accounting m)
  carry : ∀ m, 0 ≤ v.invalidDustCarry m ∧ v.invalidDustCarry m ≤ 1

/-- The books of an untouched market are sane. -/
theorem saneAccounting_zero : SaneAccounting zeroAccounting := by
  constructor <;> exact le_rfl

/-- Rewriting one market's books with sane ones keeps all markets sane. -/
theorem saneAccounting_set {s : Store MarketId VaultAccounting} {m : MarketId} {a : VaultAccounting}
    (hs : ∀ m, SaneAccounting (s m)) (ha : SaneAccounting a) :
    ∀ m', SaneAccounting (s.set m a m') := by
  intro m'
  by_cases h : m' = m
  · subst h
    rw [Store.set_get_self]
    exact ha
  · rw [Store.set_get_of_ne _ _ h]
    exact hs m'

/-- Writing a nonnegative value keeps a store nonnegative. -/
theorem nonneg_set {K : Type} [DecidableEq K] {s : Store K ℤ} {k : K} {x : ℤ}
    (hs : ∀ k, 0 ≤ s k) (hx : 0 ≤ x) : ∀ k', 0 ≤ s.set k x k' := by
  intro k'
  by_cases h : k' = k
  · subst h
    rw [Store.set_get_self]
    exact hx
  · rw [Store.set_get_of_ne _ _ h]
    exact hs k'

/-- Lowering both records at one key, the upper one no further than to nothing,
keeps the lower record below the upper one. -/
theorem le_set_sub {K : Type} [DecidableEq K] {s t : Store K ℤ} {k : K} {x : ℤ}
    (hst : ∀ k, s k ≤ t k) :
    ∀ k', (s.set k (s k - x)) k' ≤ (t.set k (max (t k - x) 0)) k' := by
  intro k'
  have hk := hst k'
  by_cases h : k' = k
  · subst h
    rw [Store.set_get_self, Store.set_get_self]
    omega
  · rw [Store.set_get_of_ne _ _ h, Store.set_get_of_ne _ _ h]
    exact hk

/-- Books that keep shortfall and fees stay sane. -/
theorem SaneAccounting.keep {a a' : VaultAccounting} (h : SaneAccounting a)
    (hs : a'.shortfall = a.shortfall) (hp : a'.protocolFees = a.protocolFees)
    (hl : a'.lpFees = a.lpFees) (hc : a'.codFees = a.codFees) : SaneAccounting a' :=
  ⟨hs ▸ h.shortfall_nonneg, hp ▸ h.protocolFees_nonneg, hl ▸ h.lpFees_nonneg, hc ▸ h.codFees_nonneg⟩

namespace Sane

variable {v v' : VaultState}

/-- What a child position can still repay is not negative. -/
theorem effectiveDebt_nonneg (hv : Sane v) (c : MarketId) (u : Address) :
    0 ≤ effectiveDebt v c u := by
  unfold effectiveDebt
  dsimp only
  split
  · exact hv.parentDebt_nonneg _
  · exact hv.childDebt_nonneg _

/-- What a child position can still repay is at most its own debt. -/
theorem effectiveDebt_le (v : VaultState) (c : MarketId) (u : Address) :
    effectiveDebt v c u ≤ v.childDebt (c, u) := by
  unfold effectiveDebt
  dsimp only
  split
  · next h => exact h.2.le
  · exact le_rfl

/-- With a parent, it is the smaller of its own debt and the debt recorded upstream. -/
theorem effectiveDebt_eq_min (v : VaultState) {c : MarketId} {u : Address}
    (hp : v.childParent (c, u) ≠ 0) :
    effectiveDebt v c u = min (v.childDebt (c, u))
      (v.parentDebt (v.childParent (c, u), u, v.childParentOutcome (c, u))) := by
  unfold effectiveDebt
  dsimp only
  split
  · next h => exact (min_eq_right h.2.le).symm
  · next h => exact (min_eq_left (not_lt.mp fun hk => h ⟨hp, hk⟩)).symm

/-- With a parent, it is at most the debt recorded upstream. -/
theorem effectiveDebt_le_upstream (v : VaultState) {c : MarketId} {u : Address}
    (hp : v.childParent (c, u) ≠ 0) :
    effectiveDebt v c u ≤ v.parentDebt (v.childParent (c, u), u, v.childParentOutcome (c, u)) := by
  rw [effectiveDebt_eq_min v hp]
  exact min_le_right _ _

/-- A settlement applies the smaller of what is offered and what is owed. -/
theorem settled (hv : Sane v) {c : MarketId} {u : Address} {r x : ℤ}
    (h : settleChildDebt v c u r = .ok (x, v')) :
    x = if r ≤ 0 then 0 else min r (effectiveDebt v c u) := by
  have he := hv.effectiveDebt_nonneg c u
  have hle := effectiveDebt_le v c u
  obtain ⟨rfl, _, hr | hraw | hmin⟩ | ⟨rfl, _, hp, hup⟩ | ⟨hx, hr, _, _⟩ | ⟨hx, hr, _, _, _⟩ :=
    settleChildDebt_cases h
  · rw [if_pos hr]
  · split <;> omega
  · split <;> omega
  · have hup' := effectiveDebt_le_upstream v hp
    split <;> omega
  · rw [if_neg (by omega), hx]
  · rw [if_neg (by omega), hx]

/-- A settlement applies nothing negative, and no more than it is offered. -/
theorem settled_bounds (hv : Sane v) {c : MarketId} {u : Address} {r x : ℤ}
    (h : settleChildDebt v c u r = .ok (x, v')) : 0 ≤ x ∧ (0 ≤ r → x ≤ r) := by
  have he := hv.effectiveDebt_nonneg c u
  have hx := hv.settled h
  split at hx
  · omega
  · omega

/-- Writing a nonnegative child debt keeps a vault sane. -/
theorem withChildDebt (hv : Sane v) (c : MarketId) (u : Address) {x : ℤ} (hx : 0 ≤ x) :
    Sane (withChildDebt v c u x) :=
  { hv with childDebt_nonneg := nonneg_set hv.childDebt_nonneg hx }

/-- A settlement of child debt keeps a vault sane. -/
theorem settleChildDebt (hv : Sane v) {c : MarketId} {u : Address} {r x : ℤ}
    (h : Vault.settleChildDebt v c u r = .ok (x, v')) : Sane v' := by
  have he := hv.effectiveDebt_nonneg c u
  have hle := effectiveDebt_le v c u
  obtain ⟨_, rfl, _⟩ | ⟨_, rfl, _, _⟩ | ⟨hx, _, _, rfl⟩ | ⟨hx, _, hp, _, rfl⟩ :=
    settleChildDebt_cases h
  · exact hv
  · exact hv.withChildDebt c u le_rfl
  · exact hv.withChildDebt c u (by omega)
  · have hup := effectiveDebt_le_upstream v hp
    exact {
      childDebt_nonneg := nonneg_set hv.childDebt_nonneg (by omega)
      parentDebt_nonneg := nonneg_set hv.parentDebt_nonneg (by omega)
      parentDebt_le_used := le_set_sub hv.parentDebt_le_used
      reserve_nonneg := hv.reserve_nonneg
      accounting := saneAccounting_set hv.accounting ((hv.accounting _).keep rfl rfl rfl rfl)
      carry := hv.carry }

/-- A settlement never changes whose child a position is. -/
theorem settleChildDebt_parent {c : MarketId} {u : Address} {r x : ℤ}
    (h : Vault.settleChildDebt v c u r = .ok (x, v')) :
    v'.childParent = v.childParent ∧ v'.childParentOutcome = v.childParentOutcome := by
  obtain ⟨_, rfl, _⟩ | ⟨_, rfl, _, _⟩ | ⟨_, _, _, rfl⟩ | ⟨_, _, _, _, rfl⟩ :=
    settleChildDebt_cases h
  · exact ⟨rfl, rfl⟩
  · exact ⟨rfl, rfl⟩
  · exact ⟨rfl, rfl⟩
  · exact ⟨rfl, rfl⟩

/-- What a positive settlement leaves of a child debt that has a parent: nothing
when nothing is owed upstream, and both debts less the amount applied otherwise. -/
theorem settleChildDebt_left {c : MarketId} {u : Address} {r x : ℤ} (hr : 0 < r)
    (hp : v.childParent (c, u) ≠ 0) (h : Vault.settleChildDebt v c u r = .ok (x, v')) :
    v'.childDebt (c, u) =
        (if v.parentDebt (v.childParent (c, u), u, v.childParentOutcome (c, u)) = 0 then 0
          else v.childDebt (c, u) - x) ∧
      v'.parentDebt (v.childParent (c, u), u, v.childParentOutcome (c, u)) =
        v.parentDebt (v.childParent (c, u), u, v.childParentOutcome (c, u)) - x := by
  obtain ⟨rfl, rfl, hr' | hraw | hmin⟩ | ⟨rfl, rfl, _, hzero⟩ | ⟨_, _, hroot, _⟩ |
    ⟨hx, _, _, hfresh, rfl⟩ := settleChildDebt_cases h
  · omega
  · rw [hraw, sub_zero, sub_zero, ite_self]
    exact ⟨rfl, rfl⟩
  · rw [if_neg (fun hk => hmin.2 ⟨hp, hk⟩), sub_zero, sub_zero]
    exact ⟨rfl, rfl⟩
  · rw [if_pos hzero, sub_zero]
    unfold Vault.withChildDebt
    dsimp only
    rw [Store.set_get_self]
    exact ⟨rfl, rfl⟩
  · exact absurd hroot hp
  · unfold repaidUpstream
    dsimp only
    rw [Store.set_get_self, Store.set_get_self, if_neg hfresh]
    exact ⟨rfl, rfl⟩

/-- A stake whose recorded use is exactly its debt stays so under settlements. -/
theorem settleChildDebt_use (hv : Sane v) {c : MarketId} {u : Address} {r x : ℤ}
    {k : MarketId × Address × Outcome} (hk : v.childUsedByOutcome k = v.parentDebt k)
    (h : Vault.settleChildDebt v c u r = .ok (x, v')) :
    v'.childUsedByOutcome k = v'.parentDebt k := by
  obtain ⟨_, rfl, _⟩ | ⟨_, rfl, _, _⟩ | ⟨_, _, _, rfl⟩ | ⟨hx, _, hp, _, rfl⟩ :=
    settleChildDebt_cases h
  · exact hk
  · exact hk
  · exact hk
  · have hup := effectiveDebt_le_upstream v hp
    unfold repaidUpstream
    dsimp only
    rw [Store.set_get, Store.set_get]
    split
    · next hkey =>
      rw [hkey] at hk
      omega
    · exact hk

/-- A default keeps a vault sane. -/
theorem resolveParentDefault (hv : Sane v) {p : MarketId} {u : Address} {o : Outcome} {x : ℤ}
    (h : resolveParentDefault v p u o x = .ok v') : Sane v' := by
  by_cases hx : 0 < x
  · have hr := hv.reserve_nonneg
    obtain ⟨debt, byOutcome, used, rfl, hdebt, hother, hused⟩ := resolveParentDefault_ok hx hr h
    have hp := hv.accounting p
    have hshort := hp.shortfall_nonneg
    refine {
      childDebt_nonneg := hdebt hv.childDebt_nonneg
      parentDebt_nonneg := nonneg_set hv.parentDebt_nonneg le_rfl
      parentDebt_le_used := ?_
      reserve_nonneg := by
        dsimp only
        omega
      accounting := saneAccounting_set hv.accounting
        ⟨by
          simp only [defaultedBy]
          omega, hp.protocolFees_nonneg, hp.lpFees_nonneg, hp.codFees_nonneg⟩
      carry := hv.carry }
    intro k
    by_cases hk : k = (p, u, o)
    · subst hk
      rw [Store.set_get_self]
      have hd := hv.parentDebt_nonneg (p, u, o)
      have hle := hv.parentDebt_le_used (p, u, o)
      exact hused (by omega)
    · rw [Store.set_get_of_ne _ _ hk]
      dsimp only
      rw [hother k hk]
      exact hv.parentDebt_le_used k
  · unfold Vault.resolveParentDefault at h
    rw [if_pos (by omega)] at h
    rw [← ok_ok.mp h]
    exact hv

/-- Rewriting one market's books with sane ones keeps a vault sane. -/
theorem withAccounting (hv : Sane v) {m : MarketId} {a : VaultAccounting} (ha : SaneAccounting a) :
    Sane { v with accounting := v.accounting.set m a } :=
  { hv with accounting := saneAccounting_set hv.accounting ha }

/-- Rewriting a parent debt with itself keeps a vault sane. -/
theorem withParentDebt_self (hv : Sane v) (k : MarketId × Address × Outcome) :
    Sane { v with parentDebt := v.parentDebt.set k (v.parentDebt k) } := by
  have hself : ∀ k', (v.parentDebt.set k (v.parentDebt k)) k' = v.parentDebt k' := by
    intro k'
    rw [Store.set_get]
    split
    · next h => rw [h]
    · rfl
  refine { hv with parentDebt_nonneg := ?_, parentDebt_le_used := ?_ }
  · intro k'
    rw [hself]
    exact hv.parentDebt_nonneg k'
  · intro k'
    rw [hself]
    exact hv.parentDebt_le_used k'

/-- Withholding a claim keeps a vault sane. -/
theorem withholdParentDebt (hv : Sane v) {m : MarketId} {u : Address} {o : Outcome}
    {g claim x : ℤ} (hclaim : 0 ≤ claim) (hg : g = 0 → claim = 0)
    (h : withholdParentDebt v m u o g claim = .ok (x, v')) : Sane v' := by
  obtain ⟨_, _, rfl⟩ | ⟨_, _, hx, _, rfl⟩ | ⟨_, _, _, _, rfl⟩ | ⟨_, _, _, hd⟩ :=
    withholdParentDebt_cases h hclaim hg
  · exact hv
  · exact {
      childDebt_nonneg := hv.childDebt_nonneg
      parentDebt_nonneg := nonneg_set hv.parentDebt_nonneg (by omega)
      parentDebt_le_used := le_set_sub hv.parentDebt_le_used
      reserve_nonneg := hv.reserve_nonneg
      accounting := saneAccounting_set hv.accounting ((hv.accounting _).keep rfl rfl rfl rfl)
      carry := hv.carry }
  · exact hv.withParentDebt_self _
  · exact (hv.withParentDebt_self _).resolveParentDefault hd

/-- Paying down the children of a stake keeps a vault sane, repays nothing
negative and leaves what was not repaid. -/
theorem settleChildren (children : List MarketId) {u : Address} {pool pool' paid paid' : ℤ}
    (hv : Sane v) (hpool : 0 ≤ pool)
    (h : settleChildren v u pool paid children = .ok (pool', paid', v')) :
    Sane v' ∧ 0 ≤ pool' ∧ paid ≤ paid' ∧ pool' + paid' = pool + paid := by
  induction children generalizing v pool paid with
  | nil =>
    obtain ⟨rfl, h2⟩ := Prod.mk.inj (ok_ok.mp h)
    obtain ⟨rfl, rfl⟩ := Prod.mk.inj h2
    exact ⟨hv, hpool, le_rfl, rfl⟩
  | cons child children ih =>
    unfold Vault.settleChildren at h
    split at h
    · obtain ⟨rfl, h2⟩ := Prod.mk.inj (ok_ok.mp h)
      obtain ⟨rfl, rfl⟩ := Prod.mk.inj h2
      exact ⟨hv, hpool, le_rfl, rfl⟩
    · obtain ⟨⟨x, v1⟩, h1, h⟩ := bind_ok.mp h
      obtain ⟨pool1, hp1, h⟩ := bind_ok.mp h
      obtain ⟨paid1, hd1, h⟩ := bind_ok.mp h
      have hp1' := (checkedSub_ok.mp hp1).1
      have hd1' := (checkedAdd_ok.mp hd1).1
      have hx := hv.settled_bounds h1
      obtain ⟨hv', hpool', hpaid', hsum⟩ := ih (hv.settleChildDebt h1) (by omega) h
      exact ⟨hv', hpool', by omega, by omega⟩

/-- A settlement leaves the reserve alone. -/
theorem settleChildDebt_reserve {c : MarketId} {u : Address} {r x : ℤ}
    (h : Vault.settleChildDebt v c u r = .ok (x, v')) :
    v'.insuranceReserve = v.insuranceReserve := by
  obtain ⟨_, rfl, _⟩ | ⟨_, rfl, _, _⟩ | ⟨_, _, _, rfl⟩ | ⟨_, _, _, _, rfl⟩ :=
    settleChildDebt_cases h
  all_goals rfl

/-- Paying down the children of a stake leaves the reserve alone. -/
theorem settleChildren_reserve (children : List MarketId) {u : Address}
    {pool pool' paid paid' : ℤ}
    (h : Vault.settleChildren v u pool paid children = .ok (pool', paid', v')) :
    v'.insuranceReserve = v.insuranceReserve := by
  refine settleChildren_keeps (I := fun s => s.insuranceReserve = v.insuranceReserve) ?_ children
    h rfl
  intro _ _ _ _ _ h1 hs
  exact (settleChildDebt_reserve h1).trans hs

/-- The recorded use stays the parent debt while all children of a stake are paid down. -/
theorem settleChildren_use (children : List MarketId) (hv : Sane v) {u : Address}
    {pool pool' paid paid' : ℤ} {k : MarketId × Address × Outcome}
    (hk : v.childUsedByOutcome k = v.parentDebt k)
    (h : Vault.settleChildren v u pool paid children = .ok (pool', paid', v')) :
    v'.childUsedByOutcome k = v'.parentDebt k := by
  refine (settleChildren_keeps
    (I := fun s => Sane s ∧ s.childUsedByOutcome k = s.parentDebt k) ?_ children h ⟨hv, hk⟩).2
  rintro _ _ _ _ _ h1 ⟨hs, hks⟩
  exact ⟨hs.settleChildDebt h1, hs.settleChildDebt_use hks h1⟩

/-- A deposit keeps a vault sane. -/
theorem recordDeposit (hv : Sane v) {m : MarketId} {x : ℤ}
    (h : recordDeposit v m x = .ok v') : Sane v' := by
  rw [recordDeposit_ok h]
  exact hv.withAccounting ((hv.accounting m).keep rfl rfl rfl rfl)

/-- Taking proceeds out keeps a vault sane. -/
theorem extractProceeds (hv : Sane v) {m : MarketId} {u : Address} {o : Outcome} {sold x : ℤ}
    (h : extractProceeds v m u o sold x = .ok v') : Sane v' := by
  obtain ⟨_, _, rfl⟩ := extractProceeds_ok h
  have hm : SaneAccounting (debitedBy (v.accounting m) x) :=
    (hv.accounting m).keep rfl rfl rfl rfl
  exact { hv with accounting := saneAccounting_set hv.accounting hm }

/-- A new loan keeps a vault sane: use and debt grow together. -/
theorem recordLoan (hv : Sane v) {u : Address} {p c : MarketId} {po co : Outcome} {x : ℤ}
    (hx : 0 ≤ x) (h : recordLoan v u p po c co x = .ok v') : Sane v' := by
  obtain ⟨_, _, _, _, _, _, rfl⟩ := recordLoan_ok h
  have hdebt := hv.childDebt_nonneg (c, u)
  have hup := hv.parentDebt_nonneg (p, u, po)
  refine { hv with
    childDebt_nonneg := nonneg_set hv.childDebt_nonneg (by omega)
    parentDebt_nonneg := nonneg_set hv.parentDebt_nonneg (by omega)
    parentDebt_le_used := ?_ }
  intro k
  have hk := hv.parentDebt_le_used k
  dsimp only
  rw [Store.set_get, Store.set_get]
  split
  · next hkey =>
    rw [hkey] at hk
    omega
  · exact hk

/-- Moving backing between markets keeps a vault sane. -/
theorem reallocateBacking (hv : Sane v) {p c : MarketId} {x : ℤ}
    (h : reallocateBacking v p c x = .ok v') : Sane v' := by
  have hp : SaneAccounting (lentBy (v.accounting p) x) :=
    (hv.accounting p).keep rfl rfl rfl rfl
  exact (hv.withAccounting hp).recordDeposit (reallocateBacking_ok h)

/-- Half of a positive amount and the carry: the refund is not negative, the
carry stays one unit at most, and both are the two halves of one division. -/
theorem refundWithCarry (hv : Sane v) {m : MarketId} {amount x : ℤ} (hpos : 0 < amount)
    (h : refundWithCarry v m amount = .ok (x, v')) :
    x = (v.invalidDustCarry m + amount) / 2 ∧
      v' = { v with
        invalidDustCarry := v.invalidDustCarry.set m ((v.invalidDustCarry m + amount) % 2) } ∧
      Sane v' := by
  unfold Vault.refundWithCarry invalidRefund at h
  obtain ⟨eff, heff, h⟩ := bind_ok.mp h
  obtain ⟨refund, href, h⟩ := bind_ok.mp h
  obtain ⟨twice, htwice, h⟩ := bind_ok.mp h
  obtain ⟨carry, hcarry, h⟩ := bind_ok.mp h
  obtain ⟨rfl, rfl⟩ := Prod.mk.inj (pure_ok.mp h)
  have hm := hv.carry m
  have heff' := (checkedAdd_ok.mp heff).1
  have href' := (checkedDiv_ok.mp href).2.1
  have htwice' := (checkedAdd_ok.mp htwice).1
  have hcarry' := (checkedSub_ok.mp hcarry).1
  rw [Int.tdiv_eq_ediv_of_nonneg (by omega), heff'] at href'
  have hrest : carry = (v.invalidDustCarry m + amount) % 2 := by omega
  refine ⟨href', by rw [hrest], { hv with carry := ?_ }⟩
  intro m'
  have hm' := hv.carry m'
  rw [Store.set_get]
  split
  · omega
  · exact hm'

/-- The worth of redeemed tokens and the vault after the dust carry moved. -/
theorem grossPayout (hv : Sane v) {m : MarketId} {final o : Outcome} {amount x : ℤ}
    (hpos : 0 < amount) (h : grossPayout v m final o amount = .ok (x, v')) :
    x = redemptionValue v m final o amount ∧ 0 ≤ x ∧ Sane v' ∧
      ∃ carry, v' = { v with invalidDustCarry := carry } := by
  unfold Vault.grossPayout at h
  unfold redemptionValue
  cases final with
  | invalid =>
    obtain ⟨hx, hv', hsane⟩ := hv.refundWithCarry hpos h
    have hm := hv.carry m
    exact ⟨hx, by omega, hsane, _, hv'⟩
  | yes =>
    obtain ⟨rfl, rfl⟩ := Prod.mk.inj (ok_ok.mp h)
    refine ⟨rfl, ?_, hv, _, rfl⟩
    split <;> omega
  | no =>
    obtain ⟨rfl, rfl⟩ := Prod.mk.inj (ok_ok.mp h)
    refine ⟨rfl, ?_, hv, _, rfl⟩
    split <;> omega

/-- A settlement raises no parent debt. -/
theorem settleChildDebt_parentDebt_le (hv : Sane v) {c : MarketId} {u : Address} {r x : ℤ}
    (h : Vault.settleChildDebt v c u r = .ok (x, v')) (k : MarketId × Address × Outcome) :
    v'.parentDebt k ≤ v.parentDebt k := by
  have hx := hv.settled_bounds h
  obtain ⟨_, rfl, _⟩ | ⟨_, rfl, _, _⟩ | ⟨_, _, _, rfl⟩ | ⟨_, _, _, _, rfl⟩ :=
    settleChildDebt_cases h
  · exact le_rfl
  · exact le_rfl
  · exact le_rfl
  · unfold repaidUpstream
    dsimp only
    rw [Store.set_get]
    split
    · next hk =>
      rw [hk]
      omega
    · exact le_rfl

/-- Settling upstream out of a claim takes the smaller of the claim and what is owed. -/
theorem repayUpstream (hv : Sane v) {m : MarketId} {u : Address} {claim x : ℤ} (hclaim : 0 ≤ claim)
    (h : repayUpstream v m u claim = .ok (x, v')) :
    x = min claim (effectiveDebt v m u) ∧ 0 ≤ x ∧ Sane v' ∧
      ∀ k, v'.parentDebt k ≤ v.parentDebt k := by
  unfold Vault.repayUpstream at h
  obtain ⟨⟨x1, v1⟩, h1, h⟩ := bind_ok.mp h
  have hx := hv.settled_bounds h1
  have heff := hv.effectiveDebt_nonneg m u
  have happlied := hv.settled h1
  have hv1 := hv.settleChildDebt h1
  have hle := hv.settleChildDebt_parentDebt_le h1
  have hmin : x1 = min claim (effectiveDebt v m u) := by
    rw [happlied]
    split <;> omega
  dsimp only at h
  split at h
  · obtain ⟨a, ha, h⟩ := bind_ok.mp h
    obtain ⟨rfl, rfl⟩ := Prod.mk.inj (pure_ok.mp h)
    have hm := hv1.accounting m
    rw [debitBacking_ok ha]
    exact ⟨hmin, hx.1, hv1.withAccounting (hm.keep rfl rfl rfl rfl), hle⟩
  · obtain ⟨rfl, rfl⟩ := Prod.mk.inj (pure_ok.mp h)
    exact ⟨hmin, hx.1, hv1, hle⟩

/-- Retiring a claim keeps a vault sane. -/
theorem retireClaim (hv : Sane v) {m : MarketId} {u : Address} {o : Outcome} {x : ℤ}
    (h : retireClaim v m u o x = .ok v') : Sane v' := by
  unfold Vault.retireClaim at h
  split at h
  · obtain ⟨d, _, h⟩ := bind_ok.mp h
    obtain ⟨s, _, h⟩ := bind_ok.mp h
    rw [← pure_ok.mp h]
    exact { hv with }
  · rw [← ok_ok.mp h]
    exact hv

end Sane

end DikeProtocol.Vault
