import DikeProtocol.Math

/-!
# Storage of the deployed contracts and the host

One record per contract holds what the contract keeps in storage. The world is
the storage of all contracts, the token balances and the host's hash
functions. A context says when and by whom an entry point is invoked.
-/

namespace DikeProtocol

open Lib

/-- Storage of the market registry. -/
structure RegistryState where
  admin : Address
  roles : Store Role (Option Address)
  supportedCollateral : Store Asset Bool
  market : Store MarketId (Option MarketData)
  nextMarketId : ℕ
  paused : Bool

/-- Storage of the conditional tokens. -/
structure TokensState where
  admin : Address
  roles : Store Role (Option Address)
  balance : Store (MarketId × Address × Outcome) ℤ
  backing : Store MarketId ℤ
  paused : Bool

/-- Storage of the collateral vault. -/
structure VaultState where
  admin : Address
  roles : Store Role (Option Address)
  treasury : Address
  accounting : Store MarketId VaultAccounting
  userDeposit : Store (MarketId × Address) ℤ
  rootStake : Store (MarketId × Address × Outcome) ℤ
  childUsedByOutcome : Store (MarketId × Address × Outcome) ℤ
  childUsed : Store (MarketId × Address) ℤ
  /-- Parent market of a user's child position, 0 when there is none. -/
  childParent : Store (MarketId × Address) MarketId
  childParentOutcome : Store (MarketId × Address) Outcome
  childLoan : Store (MarketId × MarketId × Address) ℤ
  childLoanByOutcome : Store (MarketId × Outcome × MarketId × Outcome × Address) ℤ
  childDebt : Store (MarketId × Address) ℤ
  parentDebt : Store (MarketId × Address × Outcome) ℤ
  childMarketsOf : Store (MarketId × Address × Outcome) (List MarketId)
  insuranceReserve : ℤ
  bond : Store (ℕ × Address × Bool) (Option ℤ)
  bondToken : Store (ℕ × Address × Bool) (Option Asset)
  bondMarket : Store (ℕ × Address × Bool) (Option MarketId)
  redeemed : Store (MarketId × Address × Outcome) ℤ
  invalidDustCarry : Store MarketId ℤ
  paused : Bool

/-- Storage of the automated market maker. -/
structure AmmState where
  admin : Address
  roles : Store Role (Option Address)
  vault : Option Address
  tokens : Option Address
  collateral : Option Asset
  registry : Option Address
  pool : Store ℕ (Option PoolData)
  poolFee : Store ℕ FeeConfig
  lpBalance : Store (ℕ × Address) ℤ
  lpFeeCheckpoint : Store (ℕ × Address) ℤ
  nextPoolId : ℕ
  paused : Bool

/-- Storage of the fee manager. -/
structure FeeManagerState where
  admin : Address
  governance : Address
  config : FeeConfig
  minBond : ℤ
  bondBps : ℕ
  winnerBondShareBps : ℕ
  councilBondShareBps : ℕ
  treasuryBondShareBps : ℕ

/-- Storage of the council. -/
structure CouncilState where
  admin : Address
  roles : Store Role (Option Address)
  member : Store Address Bool
  caseData : Store ℕ (Option CouncilCase)
  requestCase : Store ℕ (Option ℕ)
  nextCaseId : ℕ
  commit : Store (ℕ × Address) (Option Hash)
  reveal : Store (ℕ × Address) (Option Outcome)
  claimed : Store (ℕ × Address) (Option Bool)
  caseToken : Store ℕ (Option Asset)
  caseRewardPool : Store ℕ ℤ
  paused : Bool

/-- Storage of the oracle. -/
structure OracleState where
  admin : Address
  roles : Store Role (Option Address)
  request : Store ℕ (Option ResolutionRequest)
  marketRequest : Store MarketId (Option ℕ)
  nextRequestId : ℕ
  paused : Bool

/-- Storage of the governance contract. -/
structure GovernanceState where
  admin : Address
  treasury : Address
  timelock : Option Address
  creator : Store Address Bool
  councilMember : Store Address Bool
  supportedCollateral : Store Asset Bool
  module : Store Role (Option Address)
  pauseAuthority : Option Address
  feeConfig : FeeConfig
  upgradeHash : Store Role (Option Hash)

/-- Storage of the timelock. -/
structure TimelockState where
  admin : Address
  proposer : Address
  executor : Address
  minDelay : ℕ
  gracePeriod : ℕ
  nextActionId : ℕ
  action : Store ℕ (Option TimelockAction)

/-- Storage of the market factory. -/
structure FactoryState where
  admin : Address
  governance : Address
  registry : Option Address
  tokens : Option Address
  vault : Option Address
  amm : Option Address
  feeManager : Option Address
  creator : Store Address Bool
  collateral : Store Asset Bool
  minLiquidity : ℤ
  minExpiryDuration : ℕ
  nextMarketId : ℕ
  paused : Bool

/-- The tally of all balances of one token. -/
def supplyOf (token : Asset) : Tally (Asset × Address) ℤ ℤ := Tally.over (fun k => k.1 = token)

/-- Balances of every token, as the token contracts keep them: never negative,
and each token's supply fits 128 bits. -/
structure Bank where
  balance : Store (Asset × Address) ℤ
  nonneg : ∀ k, 0 ≤ balance k
  supply_le : ∀ token, balance.total (supplyOf token) ≤ i128Max

/-- The two hash functions the contracts ask the host for. -/
structure Host where
  payloadHash : TimelockPayload → Hash
  voteCommitmentHash : ℕ → Address → Outcome → Hash → Hash

/-- Everything the ledger stores. -/
structure World where
  registry : RegistryState
  tokens : TokensState
  vault : VaultState
  amm : AmmState
  feeManager : FeeManagerState
  council : CouncilState
  oracle : OracleState
  governance : GovernanceState
  timelock : TimelockState
  factory : FactoryState
  bank : Bank
  host : Host

/-- How an entry point is invoked. -/
structure Ctx where
  /-- Ledger timestamp of the transaction. -/
  now : ℕ
  /-- Accounts whose signature covers the whole invocation. -/
  signers : List Address
  /-- Call stack below the invoked contract, direct invoker first. -/
  callers : List Address

/-- An address authorizes an invocation by its signature or by invoking it directly. -/
def requireAuth (ctx : Ctx) (a : Address) : Res Unit :=
  refuse (¬(a ∈ ctx.signers ∨ ctx.callers.head? = some a)) (.auth a)

/-- A passed authorization was given by signature or by the direct invoker. -/
theorem requireAuth_ok {ctx : Ctx} {a : Address} {u : Unit} :
    requireAuth ctx a = .ok u ↔ a ∈ ctx.signers ∨ ctx.callers.head? = some a := by
  unfold requireAuth
  rw [refuse_ok, not_not]

/-- A contract address invokes another contract: the host refuses any contract
that is already on the stack, and a call to an address where the wanted
contract does not live finds no such function. -/
def Ctx.call (ctx : Ctx) (self : Contract) (address : Address) (target : Contract) : Res Ctx := do
  refuse (address ∈ .contract self :: ctx.callers) (.reentry address)
  refuse (address ≠ .contract target) .trap
  return { ctx with callers := .contract self :: ctx.callers }

/-- A successful call names the target, which is not on the stack, and pushes the caller. -/
theorem Ctx.call_ok {ctx c : Ctx} {self target : Contract} {address : Address} :
    ctx.call self address target = .ok c ↔
      address = .contract target ∧ Address.contract target ∉ .contract self :: ctx.callers ∧
        c = { ctx with callers := .contract self :: ctx.callers } := by
  unfold Ctx.call
  simp only [bind_ok, refuse_ok, pure_ok, exists_const, ne_eq, not_not]
  constructor
  · rintro ⟨h1, rfl, rfl⟩
    exact ⟨rfl, h1, rfl⟩
  · rintro ⟨rfl, h1, rfl⟩
    exact ⟨h1, rfl, rfl⟩

/-- The stored module of a role must authorize the invocation. -/
def requireRole (ctx : Ctx) (roles : Store Role (Option Address)) (role : Role) : Res Unit := do
  let module ← orFault (roles role) (.error .unauthorized)
  requireAuth ctx module

/-- A passed role check names the stored module and its authorization. -/
theorem requireRole_ok {ctx : Ctx} {roles : Store Role (Option Address)} {role : Role} {u : Unit} :
    requireRole ctx roles role = .ok u ↔
      ∃ a, roles role = some a ∧ (a ∈ ctx.signers ∨ ctx.callers.head? = some a) := by
  unfold requireRole
  simp only [bind_ok, orFault_ok, requireAuth_ok]

/-- The address stored for a role. -/
def readRole (roles : Store Role (Option Address)) (role : Role) : Res Address :=
  orFault (roles role) (.error .unauthorized)

/-- A role that is read was stored. -/
theorem readRole_ok {roles : Store Role (Option Address)} {role : Role} {a : Address} :
    readRole roles role = .ok a ↔ roles role = some a := orFault_ok

namespace Bank

/-- Balance of one owner in one token. -/
def bal (b : Bank) (token : Asset) (owner : Address) : ℤ := b.balance (token, owner)

/-- The balances after a transfer, the sender debited before the receiver is credited. -/
def moved (b : Bank) (token : Asset) (sender receiver : Address) (amount : ℤ) :
    Store (Asset × Address) ℤ :=
  let debited := b.balance.set (token, sender) (b.balance (token, sender) - amount)
  debited.set (token, receiver) (debited (token, receiver) + amount)

/-- A transfer changes exactly the sender's and the receiver's balance. -/
theorem moved_get (b : Bank) (token : Asset) (sender receiver : Address) (amount : ℤ)
    (k : Asset × Address) :
    b.moved token sender receiver amount k = b.balance k -
      (if k = (token, sender) then amount else 0) +
      (if k = (token, receiver) then amount else 0) := by
  unfold moved
  simp only [Store.set_get]
  by_cases hr : k = (token, receiver)
  · subst hr
    by_cases hs : (token, receiver) = (token, sender)
    · simp only [hs, if_true]
    · simp only [hs, if_true, if_false]
      omega
  · by_cases hs : k = (token, sender)
    · subst hs
      simp only [hr, if_true, if_false]
      omega
    · simp only [hr, hs, if_false]
      omega

/-- A transfer keeps the supply of every token. -/
theorem moved_supply (b : Bank) (token : Asset) (sender receiver : Address) (amount : ℤ)
    (t : Asset) :
    (b.moved token sender receiver amount).total (supplyOf t) = b.balance.total (supplyOf t) := by
  unfold moved
  simp only [Store.total_set, supplyOf, Tally.over_weight]
  split <;> omega

/-- No balances at all. -/
def empty : Bank where
  balance := .empty
  nonneg := fun _ => le_rfl
  supply_le := by
    intro token
    rw [Store.total_empty]
    decide

/-- Issue an amount of a token to an owner; nothing is issued when the supply
would not fit. -/
def issue (b : Bank) (token : Asset) (owner : Address) (amount : ℤ) : Bank :=
  if h : 0 ≤ amount ∧ b.balance.total (supplyOf token) + amount ≤ i128Max then
    { balance := b.balance.set (token, owner) (b.balance (token, owner) + amount)
      nonneg := by
        intro k
        have hk := b.nonneg k
        have ho := b.nonneg (token, owner)
        rw [Store.set_get]
        split <;> omega
      supply_le := by
        intro t
        have ht := b.supply_le t
        have hs := h.2
        rw [Store.total_set]
        simp only [supplyOf, Tally.over_weight] at ht hs ⊢
        split
        · next heq =>
          subst heq
          omega
        · omega }
  else b

/-- Transfer of a token: the sender must hold the amount. -/
def transfer (b : Bank) (token : Asset) (sender receiver : Address) (amount : ℤ) : Res Bank :=
  if h : 0 ≤ amount ∧ amount ≤ b.balance (token, sender) then
    .ok {
      balance := b.moved token sender receiver amount
      nonneg := by
        intro k
        rw [moved_get]
        have hk := b.nonneg k
        by_cases hs : k = (token, sender)
        · rw [if_pos hs, hs]
          split <;> omega
        · rw [if_neg hs]
          split <;> omega
      supply_le := by
        intro t
        rw [moved_supply]
        exact b.supply_le t }
  else .error .trap

/-- A transfer succeeds exactly when the amount is nonnegative and held. -/
theorem transfer_ok {b b' : Bank} {token : Asset} {sender receiver : Address} {amount : ℤ} :
    b.transfer token sender receiver amount = .ok b' ↔
      0 ≤ amount ∧ amount ≤ b.bal token sender ∧
        b'.balance = b.moved token sender receiver amount := by
  unfold transfer
  split
  · next h =>
    rw [ok_ok]
    constructor
    · rintro rfl
      exact ⟨h.1, h.2, rfl⟩
    · rintro ⟨_, _, h3⟩
      cases b'
      cases h3
      rfl
  · next h =>
    rw [error_ok]
    constructor
    · exact False.elim
    · rintro ⟨h1, h2, _⟩
      exact h ⟨h1, h2⟩

/-- A held amount can be transferred. -/
theorem transfer_of_held {b : Bank} {token : Asset} {sender receiver : Address} {amount : ℤ}
    (h0 : 0 ≤ amount) (hle : amount ≤ b.bal token sender) :
    ∃ b', b.transfer token sender receiver amount = .ok b' := by
  unfold transfer
  rw [dif_pos ⟨h0, hle⟩]
  exact ⟨_, rfl⟩

/-- Every balance after a successful transfer. -/
theorem transfer_bal {b b' : Bank} {token : Asset} {sender receiver : Address} {amount : ℤ}
    (h : b.transfer token sender receiver amount = .ok b') (t : Asset) (a : Address) :
    b'.bal t a = b.bal t a - (if t = token ∧ a = sender then amount else 0) +
      (if t = token ∧ a = receiver then amount else 0) := by
  unfold bal
  rw [(transfer_ok.mp h).2.2, moved_get]
  simp only [Prod.mk.injEq]

end Bank

/-- A contract asks a token to move an amount; the sender must authorize the
call of the token, which the contract does for itself. -/
def transferToken (ctx : Ctx) (self : Contract) (w : World) (token : Asset)
    (sender receiver : Address) (amount : ℤ) : Res World := do
  requireAuth { ctx with callers := .contract self :: ctx.callers } sender
  let bank ← w.bank.transfer token sender receiver amount
  return { w with bank := bank }

/-- A token transfer changes nothing but the bank. -/
theorem transferToken_ok {ctx : Ctx} {self : Contract} {w w' : World} {token : Asset}
    {sender receiver : Address} {amount : ℤ} :
    transferToken ctx self w token sender receiver amount = .ok w' ↔
      (sender ∈ ctx.signers ∨ sender = .contract self) ∧
        ∃ b, w.bank.transfer token sender receiver amount = .ok b ∧ w' = { w with bank := b } := by
  unfold transferToken
  simp only [bind_ok, requireAuth_ok, pure_ok, List.head?_cons, Option.some.injEq, exists_const]
  constructor
  · rintro ⟨h1, b, hb, rfl⟩
    exact ⟨h1.imp id Eq.symm, b, hb, rfl⟩
  · rintro ⟨h1, b, hb, rfl⟩
    exact ⟨h1.imp id Eq.symm, b, hb, rfl⟩

/-- An invocation without its return value. -/
def world {α : Type} (x : Res (α × World)) : Res World := do
  let (_, w) ← x
  return w

/-- The world after an invocation that returned a value. -/
theorem world_ok {α : Type} {x : Res (α × World)} {w : World} :
    world x = .ok w ↔ ∃ a, x = .ok (a, w) := by
  unfold world
  rw [bind_ok]
  constructor
  · rintro ⟨⟨a, w'⟩, hx, h⟩
    obtain rfl := pure_ok.mp h
    exact ⟨a, hx⟩
  · rintro ⟨a, hx⟩
    exact ⟨(a, w), hx, rfl⟩

end DikeProtocol
