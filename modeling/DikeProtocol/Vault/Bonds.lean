import DikeProtocol.Vault.Entry

/-!
# Locked bonds

What a locked bond is, when a part of it can be paid out, and exactly what a
payment writes. Bonds of the proposal and of the dispute are booked apart.
-/

namespace DikeProtocol.Vault

open Lib

/-- Bonds of one kind in the books of a market. -/
def bondTotal (a : VaultAccounting) (isDispute : Bool) : ℤ :=
  if isDispute = true then a.disputeBonds else a.proposalBonds

/-- The books after the bonds of one kind moved. -/
def movedBond (a : VaultAccounting) (isDispute : Bool) (delta : ℤ) : VaultAccounting :=
  if isDispute = true then { a with disputeBonds := a.disputeBonds + delta }
  else { a with proposalBonds := a.proposalBonds + delta }

/-- Moving bonds succeeds exactly when the sum fits. -/
theorem moveBond_ok {a a' : VaultAccounting} {d : Bool} {x : ℤ} :
    moveBond a d x = .ok a' ↔ a' = movedBond a d x ∧ InRange (bondTotal a d + x) := by
  unfold moveBond movedBond bondTotal
  cases d with
  | false =>
    simp only [Bool.false_eq_true, if_false, bind_ok, checkedAdd_ok, pure_ok]
    constructor
    · rintro ⟨y, ⟨rfl, hr⟩, rfl⟩
      exact ⟨rfl, hr⟩
    · rintro ⟨rfl, hr⟩
      exact ⟨_, ⟨rfl, hr⟩, rfl⟩
  | true =>
    simp only [if_true, bind_ok, checkedAdd_ok, pure_ok]
    constructor
    · rintro ⟨y, ⟨rfl, hr⟩, rfl⟩
      exact ⟨rfl, hr⟩
    · rintro ⟨rfl, hr⟩
      exact ⟨_, ⟨rfl, hr⟩, rfl⟩

/-- Moving bonds of one kind moves their total. -/
theorem bondTotal_movedBond (a : VaultAccounting) (d d' : Bool) (x : ℤ) :
    bondTotal (movedBond a d x) d' = bondTotal a d' + if d' = d then x else 0 := by
  unfold bondTotal movedBond
  cases d with
  | false =>
    cases d' with
    | false => simp only [Bool.false_eq_true, if_false, if_true]
    | true => simp only [Bool.false_eq_true, if_false, if_true, Bool.true_eq_false, add_zero]
  | true =>
    cases d' with
    | false => simp only [Bool.false_eq_true, if_false, if_true, add_zero]
    | true => simp only [if_true]

/-- What the vault keeps of one bond: token, market and what is left of it. -/
structure Held (v : VaultState) (key : ℕ × Address × Bool) (token : Asset) (m : MarketId)
    (left : ℤ) : Prop where
  token : v.bondToken key = some token
  market : v.bondMarket key = some m
  left : v.bond key = some left

instance (v : VaultState) (key : ℕ × Address × Bool) (token : Asset) (m : MarketId) (left : ℤ) :
    Decidable (Held v key token m left) :=
  decidable_of_iff
    (v.bondToken key = some token ∧ v.bondMarket key = some m ∧ v.bond key = some left)
    ⟨fun h => ⟨h.1, h.2.1, h.2.2⟩, fun h => ⟨h.token, h.market, h.left⟩⟩

/-- The vault after an amount was taken out of a bond. -/
def withoutBond (v : VaultState) (key : ℕ × Address × Bool) (m : MarketId) (left amount : ℤ) :
    VaultState :=
  { v with
    bond := v.bond.set key (some (left - amount))
    accounting := v.accounting.set m (movedBond (v.accounting m) key.2.2 (-amount)) }

/-- An amount can be taken exactly out of a bond that holds it. -/
theorem takeBond_ok {v v' : VaultState} {token : Asset} {user : Address} {r : ℕ} {x : ℤ}
    {d : Bool} : takeBond v token user r x d = .ok v' ↔
      ∃ m left, Held v (r, user, d) token m left ∧ x ≤ left ∧ InRange (left - x) ∧
        InRange (bondTotal (v.accounting m) d - x) ∧ v' = withoutBond v (r, user, d) m left x := by
  unfold takeBond
  simp only [bind_ok, orFault_ok, refuse_ok, checkedSub_ok, moveBond_ok, pure_ok, exists_const,
    not_not, not_lt, ← sub_eq_add_neg]
  constructor
  · rintro ⟨token', htoken, rfl, left, hleft, hle, m, hm, _, ⟨rfl, hrange⟩, _, ⟨rfl, hbooks⟩, rfl⟩
    exact ⟨m, left, ⟨htoken, hm, hleft⟩, hle, hrange, hbooks, rfl⟩
  · rintro ⟨m, left, ⟨htoken, hm, hleft⟩, hle, hrange, hbooks, rfl⟩
    exact ⟨token, htoken, rfl, left, hleft, hle, m, hm, _, ⟨rfl, hrange⟩, _, ⟨rfl, hbooks⟩, rfl⟩

/-- A payment out of a bond: by the oracle, of a positive amount the bond holds. -/
theorem payBond_ok {ctx : Ctx} {w w' : World} {token : Asset} {user recipient : Address} {r : ℕ}
    {x : ℤ} {d : Bool} : payBond ctx w token user r x d recipient = .ok w' ↔
      (∃ u, requireRole ctx w.vault.roles .oracle = .ok u) ∧ 0 < x ∧ ∃ m left b,
        Held w.vault (r, user, d) token m left ∧ x ≤ left ∧ InRange (left - x) ∧
        InRange (bondTotal (w.vault.accounting m) d - x) ∧
        w.bank.transfer token (.contract .vault) recipient x = .ok b ∧
        w' = { w with vault := withoutBond w.vault (r, user, d) m left x, bank := b } := by
  unfold payBond
  simp only [bind_ok, refuse_ok, exists_const, not_le, takeBond_ok, transferToken_ok]
  constructor
  · rintro ⟨u, hrole, hx, v, ⟨m, left, hheld, hle, hrange, hbooks, rfl⟩, _, b, hb, rfl⟩
    exact ⟨⟨u, hrole⟩, hx, m, left, b, hheld, hle, hrange, hbooks, hb, rfl⟩
  · rintro ⟨⟨u, hrole⟩, hx, m, left, b, hheld, hle, hrange, hbooks, hb, rfl⟩
    exact ⟨u, hrole, hx, _, ⟨m, left, hheld, hle, hrange, hbooks, rfl⟩, Or.inr trivial, b, hb, rfl⟩

/-- Locking a bond changes the vault's books and the bank only. -/
theorem lockBond_ok {ctx : Ctx} {w w' : World} {token : Asset} {user : Address} {r : ℕ}
    {m : MarketId} {x : ℤ} {d : Bool} (h : lockBond ctx w token user r m x d = .ok w') :
    0 < x ∧ w.vault.bond (r, user, d) = none ∧ ∃ b,
      w.bank.transfer token user (.contract .vault) x = .ok b ∧
      InRange (bondTotal (w.vault.accounting m) d + x) ∧
      w' = { w with
        bank := b
        vault := { w.vault with
          bond := w.vault.bond.set (r, user, d) (some x)
          bondToken := w.vault.bondToken.set (r, user, d) (some token)
          bondMarket := w.vault.bondMarket.set (r, user, d) (some m)
          accounting := w.vault.accounting.set m (movedBond (w.vault.accounting m) d x) } } := by
  unfold lockBond at h
  obtain ⟨_, _, h⟩ := bind_ok.mp h
  obtain ⟨_, hx, h⟩ := bind_ok.mp h
  obtain ⟨_, _, h⟩ := bind_ok.mp h
  obtain ⟨_, hfresh, h⟩ := bind_ok.mp h
  obtain ⟨w1, h1, h⟩ := bind_ok.mp h
  obtain ⟨a, ha, h⟩ := bind_ok.mp h
  obtain ⟨_, b, hb, rfl⟩ := transferToken_ok.mp h1
  obtain ⟨rfl, hrange⟩ := moveBond_ok.mp ha
  have hpos := refuse_ok.mp hx
  have hnone := not_not.mp (refuse_ok.mp hfresh)
  exact ⟨by omega, hnone, b, hb, hrange, (pure_ok.mp h).symm⟩

end DikeProtocol.Vault
