import DikeProtocol.Vault.Debt

/-!
# Conditional tokens

Balances of outcome tokens and the backing recorded for each market. Complete
sets are minted and merged by the automated market maker and the vault; an
owner may transfer a position the vault does not hold encumbered, and may
burn any position at any time.
-/

namespace DikeProtocol.Tokens

open Lib

/-- Credit outcome tokens to an owner. -/
def addBalance (t : TokensState) (marketId : MarketId) (owner : Address) (outcome : Outcome)
    (amount : ℤ) : Res TokensState := do
  let next ← checkedAdd (t.balance (marketId, owner, outcome)) amount
  return { t with balance := t.balance.set (marketId, owner, outcome) next }

/-- Debit outcome tokens of an owner who holds them. -/
def subBalance (t : TokensState) (marketId : MarketId) (owner : Address) (outcome : Outcome)
    (amount : ℤ) : Res TokensState := do
  let current := t.balance (marketId, owner, outcome)
  refuse (current < amount) (.error .insufficientBalance)
  let next ← checkedSub current amount
  return { t with balance := t.balance.set (marketId, owner, outcome) next }

/-- Raise the recorded backing of a market. -/
def addBacking (t : TokensState) (marketId : MarketId) (delta : ℤ) : Res TokensState := do
  let next ← checkedAdd (t.backing marketId) delta
  return { t with backing := t.backing.set marketId next }

/-- Lower the recorded backing of a market, which must cover the amount. -/
def subBacking (t : TokensState) (marketId : MarketId) (delta : ℤ) : Res TokensState := do
  let current := t.backing marketId
  refuse (current < delta) (.error .insufficientCollateral)
  let next ← checkedSub current delta
  return { t with backing := t.backing.set marketId next }

/-- The administrator hands over to another address. -/
def setAdmin (ctx : Ctx) (t : TokensState) (admin : Address) : Res TokensState := do
  requireAuth ctx t.admin
  return { t with admin := admin }

/-- The administrator stores the module of a role. -/
def setRole (ctx : Ctx) (t : TokensState) (role : Role) (module : Address) : Res TokensState := do
  requireAuth ctx t.admin
  return { t with roles := t.roles.set role (some module) }

/-- The administrator stops or resumes splitting. -/
def pause (ctx : Ctx) (t : TokensState) (paused : Bool) : Res TokensState := do
  requireAuth ctx t.admin
  return { t with paused := paused }

/-- Credit one token of each outcome and the backing behind them. -/
def creditCompleteSet (t : TokensState) (marketId : MarketId) (owner : Address) (amount : ℤ) :
    Res TokensState := do
  let t ← addBalance t marketId owner .yes amount
  let t ← addBalance t marketId owner .no amount
  addBacking t marketId amount

/-- The market maker mints complete sets. -/
def mintCompleteSet (ctx : Ctx) (t : TokensState) (recipient : Address) (marketId : MarketId)
    (amount : ℤ) : Res TokensState := do
  requireRole ctx t.roles .amm
  refuse (amount ≤ 0) (.error .invalidAmount)
  creditCompleteSet t marketId recipient amount

/-- The vault splits collateral into complete sets while the contract runs. -/
def splitPosition (ctx : Ctx) (t : TokensState) (user : Address) (marketId : MarketId)
    (amount : ℤ) : Res TokensState := do
  requireRole ctx t.roles .vault
  refuse (amount ≤ 0) (.error .invalidAmount)
  refuse (t.paused = true) (.error .invalidStatus)
  creditCompleteSet t marketId user amount

/-- The market maker merges complete sets back. -/
def mergePositions (ctx : Ctx) (t : TokensState) (user : Address) (marketId : MarketId)
    (amount : ℤ) : Res TokensState := do
  requireRole ctx t.roles .amm
  refuse (amount ≤ 0) (.error .invalidAmount)
  let t ← subBalance t marketId user .yes amount
  let t ← subBalance t marketId user .no amount
  subBacking t marketId amount

/-- Move outcome tokens from one owner to another. -/
def moveBalance (t : TokensState) (sender recipient : Address) (marketId : MarketId)
    (outcome : Outcome) (amount : ℤ) : Res TokensState := do
  let t ← subBalance t marketId sender outcome amount
  addBalance t marketId recipient outcome amount

/-- The owner transfers a position that the vault allows to move. -/
def transferPosition (ctx : Ctx) (w : World) (sender recipient : Address) (marketId : MarketId)
    (outcome : Outcome) (amount : ℤ) : Res World := do
  requireAuth ctx sender
  refuse (amount ≤ 0) (.error .invalidAmount)
  let vault ← readRole w.tokens.roles .vault
  let called ← ctx.call .tokens vault .vault
  Vault.assertPositionTransferAllowed called w.vault sender marketId outcome amount
  let tokens ← moveBalance w.tokens sender recipient marketId outcome amount
  return { w with tokens := tokens }

/-- The market maker moves a liquidated position without asking its owner. -/
def transferPositionForced (ctx : Ctx) (t : TokensState) (sender recipient : Address)
    (marketId : MarketId) (outcome : Outcome) (amount : ℤ) : Res TokensState := do
  requireRole ctx t.roles .amm
  refuse (amount ≤ 0) (.error .invalidAmount)
  moveBalance t sender recipient marketId outcome amount

/-- The vault burns what its owner redeems. -/
def burnForRedeem (ctx : Ctx) (t : TokensState) (owner : Address) (marketId : MarketId)
    (outcome : Outcome) (amount : ℤ) : Res TokensState := do
  requireRole ctx t.roles .vault
  refuse (amount ≤ 0) (.error .invalidAmount)
  subBalance t marketId owner outcome amount

/-- The owner burns a position, whatever the state of its market. -/
def burnLosing (ctx : Ctx) (t : TokensState) (owner : Address) (marketId : MarketId)
    (outcome : Outcome) (amount : ℤ) : Res TokensState := do
  requireAuth ctx owner
  refuse (amount ≤ 0) (.error .invalidAmount)
  subBalance t marketId owner outcome amount

/-- Crediting tokens writes the sum at one owner's outcome. -/
theorem addBalance_ok {t t' : TokensState} {m : MarketId} {a : Address} {o : Outcome} {x : ℤ}
    (h : addBalance t m a o x = .ok t') :
    t' = { t with balance := t.balance.set (m, a, o) (t.balance (m, a, o) + x) } := by
  unfold addBalance at h
  obtain ⟨n, hn, h⟩ := bind_ok.mp h
  rw [← pure_ok.mp h, (checkedAdd_ok.mp hn).1]

/-- Debiting tokens writes the difference, and the owner held the amount. -/
theorem subBalance_ok {t t' : TokensState} {m : MarketId} {a : Address} {o : Outcome} {x : ℤ}
    (h : subBalance t m a o x = .ok t') :
    x ≤ t.balance (m, a, o) ∧
      t' = { t with balance := t.balance.set (m, a, o) (t.balance (m, a, o) - x) } := by
  unfold subBalance at h
  obtain ⟨_, hc, h⟩ := bind_ok.mp h
  obtain ⟨n, hn, h⟩ := bind_ok.mp h
  have hc' := refuse_ok.mp hc
  rw [← pure_ok.mp h, (checkedSub_ok.mp hn).1]
  exact ⟨by omega, rfl⟩

/-- A complete set credits both outcomes of one owner and the market's backing. -/
theorem creditCompleteSet_ok {t t' : TokensState} {m : MarketId} {a : Address} {x : ℤ}
    (h : creditCompleteSet t m a x = .ok t') :
    t'.backing = t.backing.set m (t.backing m + x) ∧ t'.roles = t.roles ∧
      ∀ k, t'.balance k =
        t.balance k + if k = (m, a, .yes) ∨ k = (m, a, .no) then x else 0 := by
  unfold creditCompleteSet at h
  obtain ⟨t1, h1, h⟩ := bind_ok.mp h
  obtain ⟨t2, h2, h⟩ := bind_ok.mp h
  unfold addBacking at h
  obtain ⟨n, hn, h⟩ := bind_ok.mp h
  rw [addBalance_ok h2, addBalance_ok h1] at h hn
  rw [← pure_ok.mp h, (checkedAdd_ok.mp hn).1]
  refine ⟨rfl, rfl, ?_⟩
  intro k
  simp only [Store.set_get]
  by_cases hno : k = (m, a, .no)
  · subst hno
    simp
  · by_cases hyes : k = (m, a, .yes)
    · subst hyes
      simp
    · simp [hno, hyes]

/-- Minting is for the market maker and credits a positive complete set. -/
theorem mintCompleteSet_ok {ctx : Ctx} {t t' : TokensState} {a : Address} {m : MarketId} {x : ℤ}
    (h : mintCompleteSet ctx t a m x = .ok t') :
    0 < x ∧ creditCompleteSet t m a x = .ok t' := by
  unfold mintCompleteSet at h
  obtain ⟨_, _, h⟩ := bind_ok.mp h
  obtain ⟨_, hpos, h⟩ := bind_ok.mp h
  have hpos' := refuse_ok.mp hpos
  exact ⟨by omega, h⟩

/-- Merging debits both outcomes of one owner and the market's backing. -/
theorem mergePositions_ok {ctx : Ctx} {t t' : TokensState} {a : Address} {m : MarketId} {x : ℤ}
    (h : mergePositions ctx t a m x = .ok t') :
    0 < x ∧ x ≤ t.balance (m, a, .yes) ∧ x ≤ t.balance (m, a, .no) ∧
      t'.backing = t.backing.set m (t.backing m - x) ∧ t'.roles = t.roles ∧
      ∀ k, t'.balance k =
        t.balance k - if k = (m, a, .yes) ∨ k = (m, a, .no) then x else 0 := by
  unfold mergePositions at h
  obtain ⟨_, _, h⟩ := bind_ok.mp h
  obtain ⟨_, hpos, h⟩ := bind_ok.mp h
  obtain ⟨t1, h1, h⟩ := bind_ok.mp h
  obtain ⟨t2, h2, h⟩ := bind_ok.mp h
  obtain ⟨hyes, rfl⟩ := subBalance_ok h1
  obtain ⟨hno, rfl⟩ := subBalance_ok h2
  unfold subBacking at h
  obtain ⟨_, _, h⟩ := bind_ok.mp h
  obtain ⟨n, hn, h⟩ := bind_ok.mp h
  have hpos' := refuse_ok.mp hpos
  rw [Store.set_get_of_ne _ _ (by simp)] at hno
  rw [← pure_ok.mp h, (checkedSub_ok.mp hn).1]
  refine ⟨by omega, hyes, hno, rfl, rfl, ?_⟩
  intro k
  simp only [Store.set_get]
  by_cases hk : k = (m, a, .no)
  · subst hk
    simp
  · by_cases hk' : k = (m, a, .yes)
    · subst hk'
      simp
    · simp [hk, hk']

/-- A move debits the sender, who held the amount, and credits the recipient. -/
theorem moveBalance_ok {t t' : TokensState} {a b : Address} {m : MarketId} {o : Outcome} {x : ℤ}
    (h : moveBalance t a b m o x = .ok t') :
    x ≤ t.balance (m, a, o) ∧ t'.backing = t.backing ∧ t'.roles = t.roles ∧
      ∀ k, t'.balance k = t.balance k - (if k = (m, a, o) then x else 0) +
        (if k = (m, b, o) then x else 0) := by
  unfold moveBalance at h
  obtain ⟨t1, h1, h⟩ := bind_ok.mp h
  obtain ⟨hx, rfl⟩ := subBalance_ok h1
  rw [addBalance_ok h]
  refine ⟨hx, rfl, rfl, ?_⟩
  intro k
  simp only [Store.set_get]
  by_cases hb : k = (m, b, o)
  · subst hb
    by_cases hab : (m, b, o) = (m, a, o)
    · simp only [hab, if_true]
    · simp only [hab, if_true, if_false, sub_zero]
  · simp only [hb, if_false, add_zero]
    split
    · next hk => rw [hk]
    · rw [sub_zero]

/-- A transfer is asked for by the sender, who owes nothing on the position. -/
theorem transferPosition_ok {ctx : Ctx} {w w' : World} {a b : Address} {m : MarketId} {o : Outcome}
    {x : ℤ} (h : transferPosition ctx w a b m o x = .ok w') :
    requireAuth ctx a = .ok () ∧ 0 < x ∧
      w.vault.childDebt (m, a) ≤ 0 ∧ w.vault.parentDebt (m, a, o) ≤ 0 ∧
      ∃ t, moveBalance w.tokens a b m o x = .ok t ∧ w' = { w with tokens := t } := by
  unfold transferPosition at h
  obtain ⟨_, hauth, h⟩ := bind_ok.mp h
  obtain ⟨_, hpos, h⟩ := bind_ok.mp h
  obtain ⟨_, _, h⟩ := bind_ok.mp h
  obtain ⟨_, _, h⟩ := bind_ok.mp h
  obtain ⟨_, hfree, h⟩ := bind_ok.mp h
  obtain ⟨t, ht, h⟩ := bind_ok.mp h
  have hpos' := refuse_ok.mp hpos
  unfold Vault.assertPositionTransferAllowed at hfree
  obtain ⟨_, _, hfree⟩ := bind_ok.mp hfree
  obtain ⟨_, _, hfree⟩ := bind_ok.mp hfree
  have hfree' := not_or.mp (refuse_ok.mp hfree)
  exact ⟨hauth, by omega, by omega, by omega, t, ht, (pure_ok.mp h).symm⟩

/-- A forced transfer moves a positive amount. -/
theorem transferPositionForced_ok {ctx : Ctx} {t t' : TokensState} {a b : Address} {m : MarketId}
    {o : Outcome} {x : ℤ} (h : transferPositionForced ctx t a b m o x = .ok t') :
    0 < x ∧ moveBalance t a b m o x = .ok t' := by
  unfold transferPositionForced at h
  obtain ⟨_, _, h⟩ := bind_ok.mp h
  obtain ⟨_, hpos, h⟩ := bind_ok.mp h
  have hpos' := refuse_ok.mp hpos
  exact ⟨by omega, h⟩

/-- What the vault burns was held. -/
theorem burnForRedeem_ok {ctx : Ctx} {t t' : TokensState} {a : Address} {m : MarketId} {o : Outcome}
    {x : ℤ} (h : burnForRedeem ctx t a m o x = .ok t') :
    0 < x ∧ subBalance t m a o x = .ok t' := by
  unfold burnForRedeem at h
  obtain ⟨_, _, h⟩ := bind_ok.mp h
  obtain ⟨_, hpos, h⟩ := bind_ok.mp h
  have hpos' := refuse_ok.mp hpos
  exact ⟨by omega, h⟩

/-- What an owner burns was held. -/
theorem burnLosing_ok {ctx : Ctx} {t t' : TokensState} {a : Address} {m : MarketId} {o : Outcome}
    {x : ℤ} (h : burnLosing ctx t a m o x = .ok t') :
    requireAuth ctx a = .ok () ∧ 0 < x ∧ subBalance t m a o x = .ok t' := by
  unfold burnLosing at h
  obtain ⟨_, hauth, h⟩ := bind_ok.mp h
  obtain ⟨_, hpos, h⟩ := bind_ok.mp h
  have hpos' := refuse_ok.mp hpos
  exact ⟨hauth, by omega, h⟩

/-- An invocation of the tokens. -/
inductive TokensOp where
  | setAdmin (admin : Address)
  | upgrade (wasmHash : Hash)
  | setRole (role : Role) (module : Address)
  | pause (paused : Bool)
  | mintCompleteSet (recipient : Address) (marketId : MarketId) (amount : ℤ)
  | splitPosition (user : Address) (marketId : MarketId) (amount : ℤ)
  | mergePositions (user : Address) (marketId : MarketId) (amount : ℤ)
  | transferPosition (sender recipient : Address) (marketId : MarketId) (outcome : Outcome)
      (amount : ℤ)
  | transferPositionForced (sender recipient : Address) (marketId : MarketId) (outcome : Outcome)
      (amount : ℤ)
  | burnForRedeem (owner : Address) (marketId : MarketId) (outcome : Outcome) (amount : ℤ)
  | burnLosing (owner : Address) (marketId : MarketId) (outcome : Outcome) (amount : ℤ)

/-- The world after an invocation that touched only the tokens. -/
def store (w : World) (x : Res TokensState) : Res World := do
  let t ← x
  return { w with tokens := t }

/-- Execute an invocation. Replacing the code is only its authorization here. -/
def TokensOp.exec (ctx : Ctx) (w : World) : TokensOp → Res World
  | setAdmin admin => store w (Tokens.setAdmin ctx w.tokens admin)
  | upgrade _ => do
    requireAuth ctx w.tokens.admin
    return w
  | setRole role module => store w (Tokens.setRole ctx w.tokens role module)
  | pause paused => store w (Tokens.pause ctx w.tokens paused)
  | mintCompleteSet recipient marketId amount =>
    store w (Tokens.mintCompleteSet ctx w.tokens recipient marketId amount)
  | splitPosition user marketId amount =>
    store w (Tokens.splitPosition ctx w.tokens user marketId amount)
  | mergePositions user marketId amount =>
    store w (Tokens.mergePositions ctx w.tokens user marketId amount)
  | transferPosition sender recipient marketId outcome amount =>
    Tokens.transferPosition ctx w sender recipient marketId outcome amount
  | transferPositionForced sender recipient marketId outcome amount =>
    store w (Tokens.transferPositionForced ctx w.tokens sender recipient marketId outcome amount)
  | burnForRedeem owner marketId outcome amount =>
    store w (Tokens.burnForRedeem ctx w.tokens owner marketId outcome amount)
  | burnLosing owner marketId outcome amount =>
    store w (Tokens.burnLosing ctx w.tokens owner marketId outcome amount)

/-- The world after an invocation that touched only the tokens succeeded. -/
theorem store_ok {w w' : World} {x : Res TokensState} :
    store w x = .ok w' ↔ ∃ t, x = .ok t ∧ w' = { w with tokens := t } := by
  unfold store
  rw [bind_ok]
  constructor
  · rintro ⟨t, ht, h⟩
    exact ⟨t, ht, (pure_ok.mp h).symm⟩
  · rintro ⟨t, ht, rfl⟩
    exact ⟨t, ht, rfl⟩

end DikeProtocol.Tokens
