import DikeProtocol.State

/-!
# Market registry

Registers markets and owns their status. Every status change goes through
the transition table except the final outcome, which the oracle sets together
with the resolved status.
-/

namespace DikeProtocol.Registry

open Lib

/-- Read a market that must exist. -/
def readMarket (r : RegistryState) (marketId : MarketId) : Res MarketData :=
  orFault (r.market marketId) (.error .marketNotFound)

/-- Store a market under its own identifier. -/
def writeMarket (r : RegistryState) (market : MarketData) : RegistryState :=
  { r with market := r.market.set market.id (some market) }

/-- The status changes governance and the factory may make. -/
def validTransition : MarketStatus → MarketStatus → Bool
  | .created, .live => true
  | .live, .paused => true
  | .paused, .live => true
  | .live, .tradingClosed => true
  | .paused, .tradingClosed => true
  | .tradingClosed, .resolutionRequested => true
  | .resolutionRequested, .proposed => true
  | .proposed, .disputed => true
  | .disputed, .councilVoting => true
  | .councilVoting, .resolved => true
  | .created, .cancelled => true
  | .live, .cancelled => true
  | .paused, .cancelled => true
  | _, _ => false

/-- Check a market configuration against the rules and the supported collateral. -/
def validateConfig (ctx : Ctx) (r : RegistryState) (config : MarketConfig) : Res Unit := do
  refuse (config.question = "" ∨ config.rulesUri = "" ∨ config.category = "") (.error .invalidInput)
  refuse (config.expiry ≤ ctx.now) (.error .invalidInput)
  refuse (config.bondAmount ≤ 0 ∨ config.disputeWindow = 0) (.error .invalidAmount)
  validateFeeConfig config.feeConfig
  refuse (r.supportedCollateral config.collateral = false) (.error .unsupportedCollateral)

/-- Move a market along the transition table. -/
def transitionInternal (r : RegistryState) (marketId : MarketId) (next : MarketStatus) :
    Res RegistryState := do
  let market ← readMarket r marketId
  refuse (validTransition market.status next = false) (.error .invalidTransition)
  return writeMarket r { market with status := next }

/-- The administrator hands over to another address. -/
def setAdmin (ctx : Ctx) (r : RegistryState) (admin : Address) : Res RegistryState := do
  requireAuth ctx r.admin
  return { r with admin := admin }

/-- The administrator stores the module of a role. -/
def setRole (ctx : Ctx) (r : RegistryState) (role : Role) (module : Address) :
    Res RegistryState := do
  requireAuth ctx r.admin
  return { r with roles := r.roles.set role (some module) }

/-- The administrator supports or drops a collateral token. -/
def setSupportedCollateral (ctx : Ctx) (r : RegistryState) (collateral : Asset) (supported : Bool) :
    Res RegistryState := do
  requireAuth ctx r.admin
  return { r with supportedCollateral := r.supportedCollateral.set collateral supported }

/-- The administrator stops or resumes all trading. -/
def pauseSystem (ctx : Ctx) (r : RegistryState) (paused : Bool) : Res RegistryState := do
  requireAuth ctx r.admin
  return { r with paused := paused }

/-- The factory registers a market under the next identifier. -/
def registerMarket (ctx : Ctx) (r : RegistryState) (config : MarketConfig)
    (yesTokenId noTokenId poolId : ℕ) : Res (MarketId × RegistryState) := do
  requireRole ctx r.roles .factory
  validateConfig ctx r config
  let marketId := r.nextMarketId
  let market : MarketData := {
    id := marketId
    question := config.question
    questionHash := config.questionHash
    rulesUri := config.rulesUri
    rulesHash := config.rulesHash
    creator := config.creator
    collateral := config.collateral
    yesTokenId := yesTokenId
    noTokenId := noTokenId
    expiry := config.expiry
    status := .created
    hasFinalOutcome := false
    finalOutcome := Outcome.unset
    poolId := poolId
    bondAmount := config.bondAmount
    disputeWindow := config.disputeWindow
    hasRequest := false
    requestId := 0
    createdAt := ctx.now
    feeConfig := config.feeConfig }
  let nextMarketId ← checkedAddU64 marketId 1
  return (marketId, { writeMarket r market with nextMarketId := nextMarketId })

/-- Governance changes the fees of a market that is not final. -/
def setFeeConfig (ctx : Ctx) (r : RegistryState) (marketId : MarketId) (feeConfig : FeeConfig) :
    Res RegistryState := do
  requireRole ctx r.roles .gov
  validateFeeConfig feeConfig
  let market ← readMarket r marketId
  refuse (market.status = .resolved ∨ market.status = .cancelled) (.error .invalidStatus)
  return writeMarket r { market with feeConfig := feeConfig }

/-- Governance moves a market along the transition table. -/
def setStatus (ctx : Ctx) (r : RegistryState) (marketId : MarketId) (next : MarketStatus) :
    Res RegistryState := do
  requireRole ctx r.roles .gov
  let market ← readMarket r marketId
  refuse (validTransition market.status next = false) (.error .invalidTransition)
  return writeMarket r { market with status := next }

/-- The factory opens a created market for trading. -/
def activateMarket (ctx : Ctx) (r : RegistryState) (marketId : MarketId) : Res RegistryState := do
  requireRole ctx r.roles .factory
  transitionInternal r marketId .live

/-- Anyone closes trading once the market has expired. -/
def closeTrading (ctx : Ctx) (r : RegistryState) (marketId : MarketId) : Res RegistryState := do
  let market ← readMarket r marketId
  refuse (ctx.now < market.expiry) (.error .notExpired)
  transitionInternal r marketId .tradingClosed

/-- The oracle records the resolution request of a closed market. -/
def markResolutionRequested (ctx : Ctx) (r : RegistryState) (marketId : MarketId) (requestId : ℕ) :
    Res RegistryState := do
  requireRole ctx r.roles .oracle
  let market ← readMarket r marketId
  refuse (validTransition market.status .resolutionRequested = false) (.error .invalidTransition)
  return writeMarket r
    { market with status := .resolutionRequested, hasRequest := true, requestId := requestId }

/-- The oracle reports a status of the resolution. -/
def oracleMark (next : MarketStatus) (ctx : Ctx) (r : RegistryState) (marketId : MarketId) :
    Res RegistryState := do
  requireRole ctx r.roles .oracle
  transitionInternal r marketId next

/-- The oracle reports a proposal. -/
def markProposed := oracleMark .proposed

/-- The oracle reports a dispute. -/
def markDisputed := oracleMark .disputed

/-- The oracle reports the escalation to the council. -/
def markCouncilVoting := oracleMark .councilVoting

/-- The oracle sets the final outcome, once, and with it the resolved status. -/
def setFinalOutcome (ctx : Ctx) (r : RegistryState) (marketId : MarketId) (outcome : Outcome) :
    Res RegistryState := do
  requireRole ctx r.roles .oracle
  let market ← readMarket r marketId
  refuse (market.hasFinalOutcome = true ∨ market.status = .resolved) (.error .alreadyResolved)
  refuse (market.status ≠ .proposed ∧ market.status ≠ .councilVoting) (.error .invalidStatus)
  return writeMarket r
    { market with hasFinalOutcome := true, finalOutcome := outcome, status := .resolved }

/-- Governance cancels a market that is not closed yet. -/
def cancelMarket (ctx : Ctx) (r : RegistryState) (marketId : MarketId) : Res RegistryState := do
  requireRole ctx r.roles .gov
  transitionInternal r marketId .cancelled

/-- A market trades while it is live, not expired, and the system runs. -/
def isTradeable (ctx : Ctx) (r : RegistryState) (marketId : MarketId) : Res Bool := do
  let market ← readMarket r marketId
  return !r.paused && decide (market.status = .live) && decide (ctx.now < market.expiry)

/-- Read a market. -/
def getMarket (r : RegistryState) (marketId : MarketId) : Res MarketData := readMarket r marketId

/-- Read the status of a market. -/
def getStatus (r : RegistryState) (marketId : MarketId) : Res MarketStatus := do
  let market ← readMarket r marketId
  return market.status

/-- Read the final outcome of a market that has one. -/
def getFinalOutcome (r : RegistryState) (marketId : MarketId) : Res Outcome := do
  let market ← readMarket r marketId
  refuse (market.hasFinalOutcome = false) (.error .invalidStatus)
  return market.finalOutcome

/-- A market is read exactly when it is stored. -/
theorem getMarket_ok {r : RegistryState} {marketId : MarketId} {market : MarketData} :
    getMarket r marketId = .ok market ↔ r.market marketId = some market := orFault_ok

/-- A final outcome is read exactly when the stored market has one. -/
theorem getFinalOutcome_ok {r : RegistryState} {marketId : MarketId} {outcome : Outcome} :
    getFinalOutcome r marketId = .ok outcome ↔ ∃ market, r.market marketId = some market ∧
      market.hasFinalOutcome = true ∧ market.finalOutcome = outcome := by
  unfold getFinalOutcome readMarket
  simp only [bind_ok, orFault_ok, refuse_ok, pure_ok, exists_const, Bool.not_eq_false]

/-- A market that trades is stored, live and not expired. -/
theorem isTradeable_ok {ctx : Ctx} {r : RegistryState} {marketId : MarketId} :
    isTradeable ctx r marketId = .ok true ↔ ∃ market, r.market marketId = some market ∧
      r.paused = false ∧ market.status = .live ∧ ctx.now < market.expiry := by
  unfold isTradeable readMarket
  simp only [bind_ok, orFault_ok, pure_ok, Bool.and_eq_true, Bool.not_eq_true', decide_eq_true_eq,
    and_assoc]

/-- An invocation of the registry. -/
inductive RegistryOp where
  | setAdmin (admin : Address)
  | upgrade (wasmHash : Hash)
  | setRole (role : Role) (module : Address)
  | setSupportedCollateral (collateral : Asset) (supported : Bool)
  | pauseSystem (paused : Bool)
  | registerMarket (config : MarketConfig) (yesTokenId noTokenId poolId : ℕ)
  | setFeeConfig (marketId : MarketId) (feeConfig : FeeConfig)
  | setStatus (marketId : MarketId) (next : MarketStatus)
  | activateMarket (marketId : MarketId)
  | closeTrading (marketId : MarketId)
  | markResolutionRequested (marketId : MarketId) (requestId : ℕ)
  | markProposed (marketId : MarketId)
  | markDisputed (marketId : MarketId)
  | markCouncilVoting (marketId : MarketId)
  | setFinalOutcome (marketId : MarketId) (outcome : Outcome)
  | cancelMarket (marketId : MarketId)

/-- Execute an invocation. Replacing the code is only its authorization here. -/
def RegistryOp.exec (ctx : Ctx) (r : RegistryState) : RegistryOp → Res RegistryState
  | setAdmin admin => Registry.setAdmin ctx r admin
  | upgrade _ => do
    requireAuth ctx r.admin
    return r
  | setRole role module => Registry.setRole ctx r role module
  | setSupportedCollateral collateral supported =>
    Registry.setSupportedCollateral ctx r collateral supported
  | pauseSystem paused => Registry.pauseSystem ctx r paused
  | registerMarket config yesTokenId noTokenId poolId => do
    let (_, r) ← Registry.registerMarket ctx r config yesTokenId noTokenId poolId
    return r
  | setFeeConfig marketId feeConfig => Registry.setFeeConfig ctx r marketId feeConfig
  | setStatus marketId next => Registry.setStatus ctx r marketId next
  | activateMarket marketId => Registry.activateMarket ctx r marketId
  | closeTrading marketId => Registry.closeTrading ctx r marketId
  | markResolutionRequested marketId requestId =>
    Registry.markResolutionRequested ctx r marketId requestId
  | markProposed marketId => Registry.markProposed ctx r marketId
  | markDisputed marketId => Registry.markDisputed ctx r marketId
  | markCouncilVoting marketId => Registry.markCouncilVoting ctx r marketId
  | setFinalOutcome marketId outcome => Registry.setFinalOutcome ctx r marketId outcome
  | cancelMarket marketId => Registry.cancelMarket ctx r marketId

/-- Which status a market may have next in one invocation: none, one of the
transition table, or the resolved status the final outcome brings. -/
def Follows (market market' : MarketData) : Prop :=
  (market'.status = market.status ∧ market'.hasFinalOutcome = market.hasFinalOutcome ∧
      market'.finalOutcome = market.finalOutcome) ∨
    (validTransition market.status market'.status = true ∧
      market'.hasFinalOutcome = market.hasFinalOutcome ∧
      market'.finalOutcome = market.finalOutcome) ∨
    (market.hasFinalOutcome = false ∧ (market.status = .proposed ∨ market.status = .councilVoting) ∧
      market'.status = .resolved ∧ market'.hasFinalOutcome = true)

/-- What an invocation can do to the stored markets: nothing, register the next
one, or move one of them along its life. -/
def MarketsFollow (r r' : RegistryState) : Prop :=
  (r'.market = r.market ∧ r'.nextMarketId = r.nextMarketId) ∨
    (r'.nextMarketId = r.nextMarketId + 1 ∧ ∃ market : MarketData,
      market.id = r.nextMarketId ∧ market.status = .created ∧ market.hasFinalOutcome = false ∧
      r'.market = r.market.set r.nextMarketId (some market)) ∨
    (r'.nextMarketId = r.nextMarketId ∧ ∃ m, ∃ market market' : MarketData,
      r.market m = some market ∧ market'.id = market.id ∧ Follows market market' ∧
      market'.collateral = market.collateral ∧
      r'.market = r.market.set market.id (some market'))

/-- Storing a market that follows the stored one moves the markets along. -/
theorem writeMarket_follow {r : RegistryState} {m : MarketId} {market market' : MarketData}
    (hm : r.market m = some market) (hid : market'.id = market.id) (hf : Follows market market')
    (hc : market'.collateral = market.collateral) : MarketsFollow r (writeMarket r market') := by
  refine Or.inr (Or.inr ⟨rfl, m, market, market', hm, hid, hf, hc, ?_⟩)
  rw [← hid]
  rfl

/-- A transition moves one market along the table. -/
theorem transitionInternal_follow {r r' : RegistryState} {m : MarketId} {next : MarketStatus}
    (h : transitionInternal r m next = .ok r') : MarketsFollow r r' := by
  unfold transitionInternal at h
  obtain ⟨market, hm, h⟩ := bind_ok.mp h
  obtain ⟨_, hv, h⟩ := bind_ok.mp h
  have hvalid := refuse_ok.mp hv
  rw [Bool.not_eq_false] at hvalid
  rw [← pure_ok.mp h]
  exact writeMarket_follow (orFault_ok.mp hm) rfl (Or.inr (Or.inl ⟨hvalid, rfl, rfl⟩)) rfl

/-- Every invocation moves the markets along their life. -/
theorem RegistryOp.exec_follow {ctx : Ctx} {r r' : RegistryState} {op : RegistryOp}
    (h : op.exec ctx r = .ok r') : MarketsFollow r r' := by
  cases op with
  | setAdmin admin =>
    obtain ⟨_, _, h⟩ := bind_ok.mp h
    rw [← pure_ok.mp h]
    exact Or.inl ⟨rfl, rfl⟩
  | upgrade wasmHash =>
    obtain ⟨_, _, h⟩ := bind_ok.mp h
    rw [← pure_ok.mp h]
    exact Or.inl ⟨rfl, rfl⟩
  | setRole role module =>
    obtain ⟨_, _, h⟩ := bind_ok.mp h
    rw [← pure_ok.mp h]
    exact Or.inl ⟨rfl, rfl⟩
  | setSupportedCollateral collateral supported =>
    obtain ⟨_, _, h⟩ := bind_ok.mp h
    rw [← pure_ok.mp h]
    exact Or.inl ⟨rfl, rfl⟩
  | pauseSystem paused =>
    obtain ⟨_, _, h⟩ := bind_ok.mp h
    rw [← pure_ok.mp h]
    exact Or.inl ⟨rfl, rfl⟩
  | registerMarket config yesTokenId noTokenId poolId =>
    obtain ⟨⟨id, r1⟩, h1, h⟩ := bind_ok.mp h
    obtain rfl := pure_ok.mp h
    unfold Registry.registerMarket at h1
    obtain ⟨_, _, h1⟩ := bind_ok.mp h1
    obtain ⟨_, _, h1⟩ := bind_ok.mp h1
    obtain ⟨next, hnext, h1⟩ := bind_ok.mp h1
    obtain ⟨_, rfl⟩ := Prod.mk.inj (pure_ok.mp h1)
    exact Or.inr (Or.inl ⟨(checkedAddU64_ok.mp hnext).1, _, rfl, rfl, rfl, rfl⟩)
  | setFeeConfig m feeConfig =>
    obtain ⟨_, _, h⟩ := bind_ok.mp h
    obtain ⟨_, _, h⟩ := bind_ok.mp h
    obtain ⟨market, hm, h⟩ := bind_ok.mp h
    obtain ⟨_, _, h⟩ := bind_ok.mp h
    rw [← pure_ok.mp h]
    exact writeMarket_follow (orFault_ok.mp hm) rfl (Or.inl ⟨rfl, rfl, rfl⟩) rfl
  | setStatus m next =>
    obtain ⟨_, _, h⟩ := bind_ok.mp h
    exact transitionInternal_follow h
  | activateMarket m =>
    obtain ⟨_, _, h⟩ := bind_ok.mp h
    exact transitionInternal_follow h
  | closeTrading m =>
    obtain ⟨_, _, h⟩ := bind_ok.mp h
    obtain ⟨_, _, h⟩ := bind_ok.mp h
    exact transitionInternal_follow h
  | markResolutionRequested m requestId =>
    obtain ⟨_, _, h⟩ := bind_ok.mp h
    obtain ⟨market, hm, h⟩ := bind_ok.mp h
    obtain ⟨_, hv, h⟩ := bind_ok.mp h
    have hvalid := refuse_ok.mp hv
    rw [Bool.not_eq_false] at hvalid
    rw [← pure_ok.mp h]
    exact writeMarket_follow (orFault_ok.mp hm) rfl (Or.inr (Or.inl ⟨hvalid, rfl, rfl⟩)) rfl
  | markProposed m =>
    obtain ⟨_, _, h⟩ := bind_ok.mp h
    exact transitionInternal_follow h
  | markDisputed m =>
    obtain ⟨_, _, h⟩ := bind_ok.mp h
    exact transitionInternal_follow h
  | markCouncilVoting m =>
    obtain ⟨_, _, h⟩ := bind_ok.mp h
    exact transitionInternal_follow h
  | setFinalOutcome m outcome =>
    obtain ⟨_, _, h⟩ := bind_ok.mp h
    obtain ⟨market, hm, h⟩ := bind_ok.mp h
    obtain ⟨_, hopen, h⟩ := bind_ok.mp h
    obtain ⟨_, hstatus, h⟩ := bind_ok.mp h
    have hopen' := not_or.mp (refuse_ok.mp hopen)
    have hstatus' := refuse_ok.mp hstatus
    have hstatus'' : market.status = .proposed ∨ market.status = .councilVoting := by
      by_contra hneither
      exact hstatus' (not_or.mp hneither)
    rw [← pure_ok.mp h]
    refine writeMarket_follow (orFault_ok.mp hm) rfl (Or.inr (Or.inr ⟨?_, hstatus'', rfl, rfl⟩)) rfl
    exact Bool.eq_false_iff.mpr hopen'.1
  | cancelMarket m =>
    obtain ⟨_, _, h⟩ := bind_ok.mp h
    exact transitionInternal_follow h

/-- Markets are stored under their own identifiers, all of them assigned, and
those with a final outcome are resolved. -/
structure Ordered (r : RegistryState) : Prop where
  registered : ∀ m market, r.market m = some market → market.id = m ∧ m < r.nextMarketId
  finalResolved : ∀ m market, r.market m = some market → market.hasFinalOutcome = true →
    market.status = .resolved

namespace MarketsFollow

variable {r r' : RegistryState}

/-- Moving markets along keeps them ordered. -/
theorem ordered (h : MarketsFollow r r') (hr : Ordered r) : Ordered r' := by
  rcases h with ⟨hm, hn⟩ | ⟨hn, market, hid, hstatus, hfinal, hm⟩ |
    ⟨hn, m, market, market', hold, hid, hfollow, _, hm⟩
  · constructor
    · rw [hm, hn]
      exact hr.registered
    · rw [hm]
      exact hr.finalResolved
  · constructor
    · intro k stored hk
      rw [hm, Store.set_get] at hk
      split at hk
      · next heq =>
        obtain rfl := Option.some.inj hk
        rw [hn, heq]
        exact ⟨hid, Nat.lt_succ_self _⟩
      · have hreg := hr.registered k stored hk
        rw [hn]
        exact ⟨hreg.1, Nat.lt_succ_of_lt hreg.2⟩
    · intro k stored hk hhas
      rw [hm, Store.set_get] at hk
      split at hk
      · obtain rfl := Option.some.inj hk
        rw [hfinal] at hhas
        cases hhas
      · exact hr.finalResolved k stored hk hhas
  · have hmid := (hr.registered m market hold).1
    constructor
    · intro k stored hk
      rw [hm, Store.set_get] at hk
      split at hk
      · next heq =>
        obtain rfl := Option.some.inj hk
        rw [heq, hn, hmid]
        exact ⟨hid.trans hmid, (hr.registered m market hold).2⟩
      · rw [hn]
        exact hr.registered k stored hk
    · intro k stored hk hhas
      rw [hm, Store.set_get] at hk
      split at hk
      · obtain rfl := Option.some.inj hk
        rcases hfollow with ⟨hs, hf, _⟩ | ⟨hv, hf, _⟩ | ⟨_, _, hs, _⟩
        · rw [hs]
          rw [hf] at hhas
          exact hr.finalResolved m market hold hhas
        · rw [hf] at hhas
          rw [hr.finalResolved m market hold hhas] at hv
          cases hv
        · exact hs
      · exact hr.finalResolved k stored hk hhas

/-- Registered markets stay registered. -/
theorem stored (h : MarketsFollow r r') {m : MarketId} {market : MarketData}
    (hm : r.market m = some market) : ∃ market', r'.market m = some market' := by
  rcases h with ⟨heq, _⟩ | ⟨_, added, _, _, _, heq⟩ | ⟨_, _, _, moved, _, _, _, _, heq⟩
  · rw [heq]
    exact ⟨market, hm⟩
  · rw [heq, Store.set_get]
    split
    · exact ⟨added, rfl⟩
    · exact ⟨market, hm⟩
  · rw [heq, Store.set_get]
    split
    · exact ⟨moved, rfl⟩
    · exact ⟨market, hm⟩

/-- Market numbers stay above 0, and no market is ever stored under 0. -/
theorem numbered (h : MarketsFollow r r') (hr : Ordered r)
    (hn : 0 < r.nextMarketId ∧ r.market 0 = none) : 0 < r'.nextMarketId ∧ r'.market 0 = none := by
  rcases h with ⟨hm, hnext⟩ | ⟨hnext, _, _, _, _, hm⟩ | ⟨hnext, m, market, _, hold, _, _, _, hm⟩
  · rw [hm, hnext]
    exact hn
  · rw [hm, hnext, Store.set_get_of_ne _ _ (Nat.ne_of_lt hn.1)]
    exact ⟨Nat.succ_pos _, hn.2⟩
  · have hid := (hr.registered m market hold).1
    have hzero : (0 : MarketId) ≠ market.id := by
      intro hk
      rw [← hid, ← hk, hn.2] at hold
      cases hold
    rw [hm, hnext, Store.set_get_of_ne _ _ hzero]
    exact hn

end MarketsFollow

/-- What every move of a market keeps of it, moving markets along keeps of every market. -/
theorem MarketsFollow.kept {r r' : RegistryState} (h : MarketsFollow r r') (hr : Ordered r)
    {P : MarketData → Prop} (hkept : ∀ market market', Follows market market' →
      market'.collateral = market.collateral → P market → P market') {m : MarketId}
    (hm : ∃ market, r.market m = some market ∧ P market) :
    ∃ market, r'.market m = some market ∧ P market := by
  obtain ⟨market, hm, hP⟩ := hm
  rcases h with ⟨heq, _⟩ | ⟨_, added, _, _, _, heq⟩ |
    ⟨_, m', market', moved, hold, hid, hfollow, hcollateral, heq⟩
  · rw [heq]
    exact ⟨market, hm, hP⟩
  · have hlt := (hr.registered m market hm).2
    rw [heq, Store.set_get_of_ne _ _ (Nat.ne_of_lt hlt)]
    exact ⟨market, hm, hP⟩
  · rw [heq, Store.set_get]
    by_cases hsame : m = market'.id
    · have hmid := (hr.registered m' market' hold).1
      rw [if_pos hsame]
      rw [← hmid, ← hsame, hm] at hold
      obtain rfl := Option.some.inj hold
      exact ⟨moved, rfl, hkept market moved hfollow hcollateral hP⟩
    · rw [if_neg hsame]
      exact ⟨market, hm, hP⟩

/-- A market is resolved with this final outcome. -/
def MarketFinal (r : RegistryState) (m : MarketId) (outcome : Outcome) : Prop :=
  ∃ market, r.market m = some market ∧ market.status = .resolved ∧
    market.hasFinalOutcome = true ∧ market.finalOutcome = outcome

/-- A final outcome stays. -/
theorem MarketFinal.follow {r r' : RegistryState} {m : MarketId} {outcome : Outcome}
    (h : MarketFinal r m outcome) (hr : Ordered r) (hf : MarketsFollow r r') :
    MarketFinal r' m outcome := by
  refine hf.kept hr ?_ h
  rintro market moved hfollow _ ⟨hstatus, hhas, hout⟩
  rcases hfollow with ⟨hs, hh, ho⟩ | ⟨hv, _, _⟩ | ⟨hopen, _⟩
  · exact ⟨hs.trans hstatus, hh.trans hhas, ho.trans hout⟩
  · rw [hstatus] at hv
    cases hv
  · rw [hhas] at hopen
    cases hopen

/-- A market is resolved or cancelled. -/
def MarketEnded (r : RegistryState) (m : MarketId) : Prop :=
  ∃ market, r.market m = some market ∧ (market.status = .resolved ∨ market.status = .cancelled)

/-- A market that ended does not come back. -/
theorem MarketEnded.follow {r r' : RegistryState} {m : MarketId} (h : MarketEnded r m)
    (hr : Ordered r) (hf : MarketsFollow r r') : MarketEnded r' m := by
  refine hf.kept hr ?_ h
  rintro market moved hfollow _ hended
  rcases hfollow with ⟨hs, _, _⟩ | ⟨hv, _, _⟩ | ⟨_, hstatus, _⟩
  · rw [hs]
    exact hended
  · rcases hended with hs | hs <;> (rw [hs] at hv; cases hv)
  · rcases hended with hs | hs <;> rw [hs] at hstatus <;> rcases hstatus with hk | hk <;> cases hk

/-- The final outcome can be set exactly by the oracle, on a proposed or
voted market that has none. -/
theorem setFinalOutcome_ok {ctx : Ctx} {r r' : RegistryState} {m : MarketId} {outcome : Outcome} :
    setFinalOutcome ctx r m outcome = .ok r' ↔
      (∃ u, requireRole ctx r.roles .oracle = .ok u) ∧ ∃ market, r.market m = some market ∧
        market.hasFinalOutcome = false ∧
        (market.status = .proposed ∨ market.status = .councilVoting) ∧
        r' = writeMarket r { market with
          hasFinalOutcome := true, finalOutcome := outcome, status := .resolved } := by
  unfold setFinalOutcome readMarket
  simp only [bind_ok, orFault_ok, refuse_ok, pure_ok, exists_const, not_or, Bool.not_eq_true,
    not_and_or, ne_eq, not_not]
  constructor
  · rintro ⟨u, hrole, market, hm, ⟨hhas, _⟩, hstatus, rfl⟩
    exact ⟨⟨u, hrole⟩, market, hm, hhas, hstatus, rfl⟩
  · rintro ⟨⟨u, hrole⟩, market, hm, hhas, hstatus, rfl⟩
    refine ⟨u, hrole, market, hm, ⟨hhas, ?_⟩, hstatus, rfl⟩
    intro hk
    rw [hk] at hstatus
    rcases hstatus with hs | hs
    · cases hs
    · cases hs

/-- A final outcome that was set is the market's. -/
theorem setFinalOutcome_final {ctx : Ctx} {r r' : RegistryState} {m : MarketId} {outcome : Outcome}
    (hr : Ordered r) (h : setFinalOutcome ctx r m outcome = .ok r') : MarketFinal r' m outcome := by
  obtain ⟨_, market, hm, _, _, rfl⟩ := setFinalOutcome_ok.mp h
  have hid := (hr.registered m market hm).1
  unfold MarketFinal writeMarket
  dsimp only
  rw [hid, Store.set_get_self]
  exact ⟨_, rfl, rfl, rfl, rfl⟩

end DikeProtocol.Registry
