import DikeProtocol.Vault.Books

/-!
# Linear readings of the vault's books

A gauge adds up the amounts in the books with one coefficient per field and
market. Every operation of the vault moves money between fields, so each
changes every gauge by a plain linear amount. Solvency, loan conservation and
position backing are three choices of coefficients.
-/

namespace DikeProtocol.Vault

open Lib

/-- Coefficients of a linear reading. -/
structure Gauge where
  backing : MarketId → ℤ
  issued : MarketId → ℤ
  repaid : MarketId → ℤ
  defaulted : MarketId → ℤ
  shortfall : MarketId → ℤ
  redeemed : MarketId → ℤ
  protocolFees : MarketId → ℤ
  lpFees : MarketId → ℤ
  codFees : MarketId → ℤ
  proposalBonds : MarketId → ℤ
  disputeBonds : MarketId → ℤ
  debt : MarketId → ℤ
  reserve : ℤ

namespace Gauge

/-- Reading of one market's books. -/
def weigh (g : Gauge) (m : MarketId) (a : VaultAccounting) : ℤ :=
  g.backing m * a.collateralBacking + g.issued m * a.childCollateralIssued +
    g.repaid m * a.childCollateralRepaid + g.defaulted m * a.childCollateralDefaulted +
    g.shortfall m * a.shortfall + g.redeemed m * a.redeemed + g.protocolFees m * a.protocolFees +
    g.lpFees m * a.lpFees + g.codFees m * a.codFees + g.proposalBonds m * a.proposalBonds +
    g.disputeBonds m * a.disputeBonds

/-- Reading of all markets' books. -/
def books (g : Gauge) : Tally MarketId VaultAccounting ℤ where
  weight := g.weigh
  weight_default := by
    intro m
    change g.weigh m zeroAccounting = 0
    simp only [weigh, zeroAccounting, mul_zero, add_zero]

/-- Reading of all parent debts. -/
def debts (g : Gauge) : Tally (MarketId × Address × Outcome) ℤ ℤ where
  weight := fun k x => g.debt k.1 * x
  weight_default := by
    intro k
    exact mul_zero _

/-- Reading of a vault. -/
def read (g : Gauge) (v : VaultState) : ℤ :=
  v.accounting.total g.books + v.parentDebt.total g.debts + g.reserve * v.insuranceReserve

variable (g : Gauge)

/-- Vaults with the same books read the same. -/
theorem read_congr {v v' : VaultState} (ha : v'.accounting = v.accounting)
    (hd : v'.parentDebt = v.parentDebt) (hr : v'.insuranceReserve = v.insuranceReserve) :
    g.read v' = g.read v := by
  rw [read, read, ha, hd, hr]

/-- Rewriting one market's books moves a reading by the difference there. -/
theorem total_books_set (s : Store MarketId VaultAccounting) (m : MarketId) (a : VaultAccounting) :
    (s.set m a).total g.books = s.total g.books + (g.weigh m a - g.weigh m (s m)) := by
  rw [Store.total_set]
  change _ - g.weigh m (s m) + g.weigh m a = _
  omega

/-- Rewriting one parent debt moves a reading by the difference there. -/
theorem total_debts_set (s : Store (MarketId × Address × Outcome) ℤ) (m : MarketId) (u : Address)
    (o : Outcome) (x : ℤ) :
    (s.set (m, u, o) x).total g.debts = s.total g.debts + g.debt m * (x - s (m, u, o)) := by
  rw [Store.total_set]
  change _ - g.debt m * s (m, u, o) + g.debt m * x = _
  ring

/-- A credited repayment adds to backing and to the repaid amount. -/
theorem weigh_repaidBy (m : MarketId) (a : VaultAccounting) (x : ℤ) :
    g.weigh m (repaidBy a x) = g.weigh m a + (g.backing m + g.repaid m) * x := by
  simp only [weigh, repaidBy]
  ring

/-- A default adds to the defaulted amount and splits over backing and shortfall. -/
theorem weigh_defaultedBy (m : MarketId) (a : VaultAccounting) (x draw : ℤ) :
    g.weigh m (defaultedBy a x draw) =
      g.weigh m a + (g.defaulted m * x + g.backing m * draw + g.shortfall m * (x - draw)) := by
  simp only [weigh, defaultedBy]
  ring

/-- Booking a deposit adds to backing only. -/
theorem recordDeposit_read {v v' : VaultState} {m : MarketId} {x : ℤ}
    (h : recordDeposit v m x = .ok v') : g.read v' = g.read v + g.backing m * x := by
  rw [recordDeposit_ok h]
  simp only [read, total_books_set, weigh, depositedBy]
  ring

/-- Taking proceeds out lowers backing only. -/
theorem extractProceeds_read {v v' : VaultState} {m : MarketId} {u : Address} {o : Outcome}
    {sold x : ℤ} (h : extractProceeds v m u o sold x = .ok v') :
    g.read v' = g.read v - g.backing m * x := by
  obtain ⟨_, _, rfl⟩ := extractProceeds_ok h
  simp only [read, total_books_set, weigh, debitedBy]
  ring

/-- A reallocation moves backing from the parent to the child and counts as issued. -/
theorem reallocateBacking_read {v v' : VaultState} {p c : MarketId} {x : ℤ}
    (h : reallocateBacking v p c x = .ok v') :
    g.read v' = g.read v + (g.issued p - g.backing p + g.backing c) * x := by
  rw [recordDeposit_read g (reallocateBacking_ok h)]
  simp only [read, total_books_set, weigh, lentBy, debitedBy]
  ring

/-- A new loan adds to the parent debt. -/
theorem recordLoan_read {v v' : VaultState} {u : Address} {p c : MarketId} {po co : Outcome}
    {x : ℤ} (h : recordLoan v u p po c co x = .ok v') :
    g.read v' = g.read v + g.debt p * x := by
  obtain ⟨_, _, _, _, _, _, rfl⟩ := recordLoan_ok h
  simp only [read, total_debts_set]
  ring

/-- A repayment upstream moves debt into backing. -/
theorem read_repaidUpstream (v : VaultState) (c : MarketId) (u : Address) (x : ℤ) :
    g.read (repaidUpstream v c u x) = g.read v +
      (g.backing (v.childParent (c, u)) + g.repaid (v.childParent (c, u)) -
        g.debt (v.childParent (c, u))) * x := by
  unfold repaidUpstream
  simp only [read, total_books_set, total_debts_set, weigh_repaidBy]
  ring

/-- The amount a settlement of `x` credits upstream: all of it, when there is a parent. -/
def creditedUpstream (v : VaultState) (c : MarketId) (u : Address) (x : ℤ) : ℤ :=
  if v.childParent (c, u) = 0 then 0 else x

/-- A settlement of child debt moves what it applies from debt into backing. -/
theorem settleChildDebt_read {v v' : VaultState} {c : MarketId} {u : Address} {r x : ℤ}
    (h : settleChildDebt v c u r = .ok (x, v')) :
    g.read v' = g.read v +
      (g.backing (v.childParent (c, u)) + g.repaid (v.childParent (c, u)) -
        g.debt (v.childParent (c, u))) * creditedUpstream v c u x := by
  unfold creditedUpstream
  obtain ⟨rfl, rfl, _⟩ | ⟨rfl, rfl, _, _⟩ | ⟨_, _, hroot, rfl⟩ | ⟨_, _, hparent, _, rfl⟩ :=
    settleChildDebt_cases h
  · rw [ite_self, mul_zero, add_zero]
  · rw [ite_self, mul_zero, add_zero]
    exact read_congr g rfl rfl rfl
  · rw [if_pos hroot, mul_zero, add_zero]
    exact read_congr g rfl rfl rfl
  · rw [if_neg hparent]
    exact read_repaidUpstream g v c u x

/-- A default moves the amount it was passed into backing and shortfall, and
takes the whole parent debt away. -/
theorem resolveParentDefault_read {v v' : VaultState} {p : MarketId} {u : Address} {o : Outcome}
    {x : ℤ} (hx : 0 < x) (hr : 0 ≤ v.insuranceReserve)
    (h : resolveParentDefault v p u o x = .ok v') :
    g.read v' = g.read v + g.defaulted p * x +
      (g.backing p - g.reserve) * min x v.insuranceReserve +
      g.shortfall p * (x - min x v.insuranceReserve) - g.debt p * v.parentDebt (p, u, o) := by
  obtain ⟨debt, byOutcome, used, rfl, _⟩ := resolveParentDefault_ok hx hr h
  simp only [read, total_books_set, total_debts_set, weigh_defaultedBy]
  ring

/-- Withholding a claim moves debt into backing; a worthless redemption moves
the debt into backing and shortfall. -/
theorem withholdParentDebt_read {v v' : VaultState} {m : MarketId} {u : Address} {o : Outcome}
    {c claim x : ℤ} (h : withholdParentDebt v m u o c claim = .ok (x, v')) (hclaim : 0 ≤ claim)
    (hc : c = 0 → claim = 0) (hr : 0 ≤ v.insuranceReserve) :
    ∃ lost draw, (0 < lost → c = 0 ∧ lost = v.parentDebt (m, u, o)) ∧ 0 ≤ draw ∧
      draw ≤ min lost v.insuranceReserve ∧
      g.read v' = g.read v + (g.backing m + g.repaid m - g.debt m) * max x 0 +
        g.defaulted m * lost + (g.backing m - g.reserve) * draw +
        g.shortfall m * (lost - draw) - g.debt m * lost := by
  obtain ⟨hnone, hx, rfl⟩ | ⟨_, hpos, _, _, rfl⟩ | ⟨_, _, rfl, _, rfl⟩ | ⟨hpos, hc0, rfl, hd⟩ :=
    withholdParentDebt_cases h hclaim hc
  · refine ⟨0, 0, fun hk => absurd hk (lt_irrefl 0), le_rfl, le_min le_rfl hr, ?_⟩
    rw [show max x 0 = 0 by omega]
    ring
  · refine ⟨0, 0, fun hk => absurd hk (lt_irrefl 0), le_rfl, le_min le_rfl hr, ?_⟩
    rw [show max x 0 = x by omega]
    simp only [withheldBy, read, total_books_set, total_debts_set, weigh_repaidBy]
    ring
  · refine ⟨0, 0, fun hk => absurd hk (lt_irrefl 0), le_rfl, le_min le_rfl hr, ?_⟩
    simp only [read, total_debts_set, max_self]
    ring
  · refine ⟨v.parentDebt (m, u, o), min (v.parentDebt (m, u, o)) v.insuranceReserve,
      fun _ => ⟨hc0, rfl⟩, le_min hpos.le hr, le_rfl, ?_⟩
    have hdef := resolveParentDefault_read g hpos (by exact hr) hd
    simp only [read, total_debts_set, Store.set_get_self, max_self] at hdef ⊢
    rw [hdef]
    ring

/-- Retiring a claim moves nothing in the books. -/
theorem retireClaim_read {v v' : VaultState} {m : MarketId} {u : Address} {o : Outcome} {x : ℤ}
    (h : retireClaim v m u o x = .ok v') : g.read v' = g.read v := by
  unfold retireClaim at h
  split at h
  · obtain ⟨d, _, h⟩ := bind_ok.mp h
    obtain ⟨s, _, h⟩ := bind_ok.mp h
    rw [← pure_ok.mp h]
    exact g.read_congr rfl rfl rfl
  · rw [← ok_ok.mp h]

end Gauge

end DikeProtocol.Vault
