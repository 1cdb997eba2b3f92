import DikeProtocol.State

/-!
# The mock collateral token

The token that test deployments use as collateral. Its administrator mints,
holders burn and transfer, and a spender moves what a holder approved. The two
balances of a transfer are read before either is written.
-/

namespace DikeProtocol.MockUsdc

open Lib

/-- Storage of the token. -/
structure UsdcState where
  admin : Address
  balance : Store Address ℤ
  /-- What a holder lets a spender move. -/
  allowance : Store (Address × Address) ℤ
  totalSupply : ℤ

/-- What the constructor stores. -/
def freshUsdc (admin : Address) : UsdcState where
  admin := admin
  balance := .empty
  allowance := .empty
  totalSupply := 0

/-- The administrator hands over to another address. -/
def setAdmin (ctx : Ctx) (u : UsdcState) (admin : Address) : Res UsdcState := do
  requireAuth ctx u.admin
  return { u with admin := admin }

/-- The administrator mints to an address. -/
def mint (ctx : Ctx) (u : UsdcState) (recipient : Address) (amount : ℤ) : Res UsdcState := do
  requireAuth ctx u.admin
  refuse (amount ≤ 0) (.error .invalidAmount)
  let next ← checkedAdd (u.balance recipient) amount
  let u := { u with balance := u.balance.set recipient next }
  let supply ← checkedAdd u.totalSupply amount
  return { u with totalSupply := supply }

/-- A holder burns. -/
def burn (ctx : Ctx) (u : UsdcState) (holder : Address) (amount : ℤ) : Res UsdcState := do
  requireAuth ctx holder
  refuse (amount ≤ 0) (.error .invalidAmount)
  let current := u.balance holder
  refuse (current < amount) (.error .insufficientBalance)
  let next ← checkedSub current amount
  let u := { u with balance := u.balance.set holder next }
  let supply ← checkedSub u.totalSupply amount
  return { u with totalSupply := supply }

/-- A holder transfers. -/
def transfer (ctx : Ctx) (u : UsdcState) (holder recipient : Address) (amount : ℤ) :
    Res UsdcState := do
  requireAuth ctx holder
  refuse (amount ≤ 0) (.error .invalidAmount)
  let holderBalance := u.balance holder
  refuse (holderBalance < amount) (.error .insufficientBalance)
  let toBalance := u.balance recipient
  let debited ← checkedSub holderBalance amount
  let u := { u with balance := u.balance.set holder debited }
  let credited ← checkedAdd toBalance amount
  return { u with balance := u.balance.set recipient credited }

/-- A holder stores what a spender may move; the expiration is ignored. -/
def approve (ctx : Ctx) (u : UsdcState) (holder spender : Address) (amount : ℤ)
    (_expirationLedger : ℕ) : Res UsdcState := do
  requireAuth ctx holder
  refuse (amount < 0) (.error .invalidAmount)
  return { u with allowance := u.allowance.set (holder, spender) amount }

/-- A spender moves what a holder approved. -/
def transferFrom (ctx : Ctx) (u : UsdcState) (spender holder recipient : Address) (amount : ℤ) :
    Res UsdcState := do
  requireAuth ctx spender
  refuse (amount ≤ 0) (.error .invalidAmount)
  let allowance := u.allowance (holder, spender)
  refuse (allowance < amount) (.error .insufficientBalance)
  let holderBalance := u.balance holder
  refuse (holderBalance < amount) (.error .insufficientBalance)
  let toBalance := u.balance recipient
  let left ← checkedSub allowance amount
  let u := { u with allowance := u.allowance.set (holder, spender) left }
  let debited ← checkedSub holderBalance amount
  let u := { u with balance := u.balance.set holder debited }
  let credited ← checkedAdd toBalance amount
  return { u with balance := u.balance.set recipient credited }

/-- Invocations of the token. -/
inductive UsdcOp where
  | setAdmin (admin : Address)
  | upgrade (newWasmHash : Hash)
  | mint (recipient : Address) (amount : ℤ)
  | burn (holder : Address) (amount : ℤ)
  | transfer (holder recipient : Address) (amount : ℤ)
  | approve (holder spender : Address) (amount : ℤ) (expirationLedger : ℕ)
  | transferFrom (spender holder recipient : Address) (amount : ℤ)

/-- Execute an invocation; new code keeps the storage. -/
def UsdcOp.exec (ctx : Ctx) (u : UsdcState) : UsdcOp → Res UsdcState
  | setAdmin admin => MockUsdc.setAdmin ctx u admin
  | upgrade _ => do
    requireAuth ctx u.admin
    return u
  | mint recipient amount => MockUsdc.mint ctx u recipient amount
  | burn holder amount => MockUsdc.burn ctx u holder amount
  | transfer holder recipient amount => MockUsdc.transfer ctx u holder recipient amount
  | approve holder spender amount expiration =>
    MockUsdc.approve ctx u holder spender amount expiration
  | transferFrom spender holder recipient amount =>
    MockUsdc.transferFrom ctx u spender holder recipient amount

/-- The balances after a move: both were read before either was written, so a
move from an address to itself credits it. -/
def movedTo (balance : Store Address ℤ) (holder recipient : Address) (amount : ℤ) :
    Store Address ℤ :=
  (balance.set holder (balance holder - amount)).set recipient (balance recipient + amount)

/-- Whether an address authorizes an invocation. -/
def Authorized (ctx : Ctx) (a : Address) : Prop := a ∈ ctx.signers ∨ ctx.callers.head? = some a

/-- What a successful invocation writes, and who authorized it. -/
inductive Writes (ctx : Ctx) (u : UsdcState) : UsdcOp → UsdcState → Prop
  | setAdmin {admin : Address} : Writes ctx u (.setAdmin admin) { u with admin := admin }
  | upgrade {newWasmHash : Hash} : Writes ctx u (.upgrade newWasmHash) u
  | mint {recipient : Address} {x : ℤ} (hx : 0 < x) (hfits : u.totalSupply + x ≤ i128Max) :
      Writes ctx u (.mint recipient x) { u with
        balance := u.balance.set recipient (u.balance recipient + x)
        totalSupply := u.totalSupply + x }
  | burn {holder : Address} {x : ℤ} (hauth : Authorized ctx holder) (hx : 0 < x)
      (hheld : x ≤ u.balance holder) : Writes ctx u (.burn holder x) { u with
        balance := u.balance.set holder (u.balance holder - x)
        totalSupply := u.totalSupply - x }
  | move {holder recipient : Address} {x : ℤ} (hauth : Authorized ctx holder) (hx : 0 < x)
      (hheld : x ≤ u.balance holder) : Writes ctx u (.transfer holder recipient x)
        { u with balance := movedTo u.balance holder recipient x }
  | approve {holder spender : Address} {x : ℤ} {expiration : ℕ} (hauth : Authorized ctx holder)
      (hx : 0 ≤ x) : Writes ctx u (.approve holder spender x expiration)
        { u with allowance := u.allowance.set (holder, spender) x }
  | spend {spender holder recipient : Address} {x : ℤ} (hauth : Authorized ctx spender) (hx : 0 < x)
      (hallowed : x ≤ u.allowance (holder, spender)) (hheld : x ≤ u.balance holder) :
      Writes ctx u (.transferFrom spender holder recipient x) { u with
        balance := movedTo u.balance holder recipient x
        allowance := u.allowance.set (holder, spender) (u.allowance (holder, spender) - x) }

section Steps

variable {ctx : Ctx} {u u' : UsdcState} {holder recipient spender : Address} {x : ℤ}

/-- A mint credits balance and supply. -/
theorem mint_ok (h : mint ctx u recipient x = .ok u') : 0 < x ∧ u.totalSupply + x ≤ i128Max ∧
    u' = { u with
      balance := u.balance.set recipient (u.balance recipient + x)
      totalSupply := u.totalSupply + x } := by
  obtain ⟨_, _, h⟩ := bind_ok.mp h
  obtain ⟨_, hx, h⟩ := bind_ok.mp h
  obtain ⟨_, hnext, h⟩ := bind_ok.mp h
  obtain ⟨_, hsupply, h⟩ := bind_ok.mp h
  obtain ⟨rfl, _⟩ := checkedAdd_ok.mp hnext
  obtain ⟨rfl, hrange⟩ := checkedAdd_ok.mp hsupply
  exact ⟨not_le.mp (refuse_ok.mp hx), hrange.2, (pure_ok.mp h).symm⟩

/-- A burn debits both. -/
theorem burn_ok (h : burn ctx u holder x = .ok u') :
    Authorized ctx holder ∧ 0 < x ∧ x ≤ u.balance holder ∧ u' = { u with
      balance := u.balance.set holder (u.balance holder - x)
      totalSupply := u.totalSupply - x } := by
  obtain ⟨_, hauth, h⟩ := bind_ok.mp h
  obtain ⟨_, hx, h⟩ := bind_ok.mp h
  obtain ⟨_, hheld, h⟩ := bind_ok.mp h
  obtain ⟨_, hnext, h⟩ := bind_ok.mp h
  obtain ⟨_, hsupply, h⟩ := bind_ok.mp h
  obtain ⟨rfl, _⟩ := checkedSub_ok.mp hnext
  obtain ⟨rfl, _⟩ := checkedSub_ok.mp hsupply
  exact ⟨requireAuth_ok.mp hauth, not_le.mp (refuse_ok.mp hx), not_lt.mp (refuse_ok.mp hheld),
    (pure_ok.mp h).symm⟩

/-- A transfer succeeds exactly when the holder authorizes it and holds the
amount, and both new balances fit. -/
theorem transfer_ok : transfer ctx u holder recipient x = .ok u' ↔
    Authorized ctx holder ∧ 0 < x ∧ x ≤ u.balance holder ∧
      InRange (u.balance holder - x) ∧ InRange (u.balance recipient + x) ∧
      u' = { u with balance := movedTo u.balance holder recipient x } := by
  unfold transfer
  simp only [bind_ok, requireAuth_ok, refuse_ok, checkedSub_ok, checkedAdd_ok, pure_ok,
    exists_const, not_le, not_lt]
  constructor
  · rintro ⟨hauth, hx, hheld, _, ⟨rfl, hdebited⟩, _, ⟨rfl, hcredited⟩, rfl⟩
    exact ⟨hauth, hx, hheld, hdebited, hcredited, rfl⟩
  · rintro ⟨hauth, hx, hheld, hdebited, hcredited, rfl⟩
    exact ⟨hauth, hx, hheld, _, ⟨rfl, hdebited⟩, _, ⟨rfl, hcredited⟩, rfl⟩

/-- A spender moves balances and uses up the allowance. -/
theorem transferFrom_ok (h : transferFrom ctx u spender holder recipient x = .ok u') :
    Authorized ctx spender ∧ 0 < x ∧ x ≤ u.allowance (holder, spender) ∧ x ≤ u.balance holder ∧
      u' = { u with
        balance := movedTo u.balance holder recipient x
        allowance := u.allowance.set (holder, spender) (u.allowance (holder, spender) - x) } := by
  obtain ⟨_, hauth, h⟩ := bind_ok.mp h
  obtain ⟨_, hx, h⟩ := bind_ok.mp h
  obtain ⟨_, hallowed, h⟩ := bind_ok.mp h
  obtain ⟨_, hheld, h⟩ := bind_ok.mp h
  obtain ⟨_, hleft, h⟩ := bind_ok.mp h
  obtain ⟨_, hdebited, h⟩ := bind_ok.mp h
  obtain ⟨_, hcredited, h⟩ := bind_ok.mp h
  obtain ⟨rfl, _⟩ := checkedSub_ok.mp hleft
  obtain ⟨rfl, _⟩ := checkedSub_ok.mp hdebited
  obtain ⟨rfl, _⟩ := checkedAdd_ok.mp hcredited
  exact ⟨requireAuth_ok.mp hauth, not_le.mp (refuse_ok.mp hx), not_lt.mp (refuse_ok.mp hallowed),
    not_lt.mp (refuse_ok.mp hheld), (pure_ok.mp h).symm⟩

/-- Every successful invocation writes one of these. -/
theorem UsdcOp.exec_writes {op : UsdcOp} (h : op.exec ctx u = .ok u') : Writes ctx u op u' := by
  cases op with
  | setAdmin admin =>
    obtain ⟨_, _, h⟩ := bind_ok.mp h
    rw [← pure_ok.mp h]
    exact .setAdmin
  | upgrade newWasmHash =>
    obtain ⟨_, _, h⟩ := bind_ok.mp h
    rw [← pure_ok.mp h]
    exact .upgrade
  | mint recipient x =>
    obtain ⟨hx, hfits, rfl⟩ := mint_ok h
    exact .mint hx hfits
  | burn holder x =>
    obtain ⟨hauth, hx, hheld, rfl⟩ := burn_ok h
    exact .burn hauth hx hheld
  | transfer holder recipient x =>
    obtain ⟨hauth, hx, hheld, _, _, rfl⟩ := transfer_ok.mp h
    exact .move hauth hx hheld
  | approve holder spender x expiration =>
    obtain ⟨_, hauth, h⟩ := bind_ok.mp h
    obtain ⟨_, hx, h⟩ := bind_ok.mp h
    rw [← pure_ok.mp h]
    exact .approve (requireAuth_ok.mp hauth) (not_lt.mp (refuse_ok.mp hx))
  | transferFrom spender holder recipient x =>
    obtain ⟨hauth, hx, hallowed, hheld, rfl⟩ := transferFrom_ok h
    exact .spend hauth hx hallowed hheld

end Steps

/-- Every balance after a move. -/
theorem movedTo_get (balance : Store Address ℤ) {holder recipient : Address} {x : ℤ} (a : Address) :
    movedTo balance holder recipient x a =
      if a = recipient then balance a + x else if a = holder then balance a - x else balance a := by
  unfold movedTo
  rw [Store.set_get, Store.set_get]
  split
  · next heq => rw [heq]
  · split
    · next heq => rw [heq]
    · rfl

end DikeProtocol.MockUsdc
