import DikeProtocol.Network.Effects

/-!
# Who may take, and who decides

Every invocation of the ten contracts, along every run: an account loses
nothing that it did not consent to, and no setting changes unless one of the
keys that the contracts keep authorizes the change.
-/

namespace DikeProtocol.Network

open Lib

/-- An address authorizes an invocation by its signature or by making it. -/
def Authorizes (ctx : Ctx) (a : Address) : Prop := a ∈ ctx.signers ∨ ctx.callers.head? = some a

instance (ctx : Ctx) (a : Address) : Decidable (Authorizes ctx a) :=
  inferInstanceAs (Decidable (_ ∨ _))

/-- The addresses that decide: administrators, governance in each of its roles,
the timelock, and who executes its actions. -/
def keys (w : World) : List (Option Address) :=
  [some w.registry.admin, some w.tokens.admin, some w.vault.admin, some w.amm.admin,
    some w.feeManager.admin, some w.council.admin, some w.oracle.admin, some w.governance.admin,
    some w.timelock.admin, some w.factory.admin, some w.feeManager.governance,
    some w.factory.governance, w.governance.timelock, some w.timelock.executor,
    w.vault.roles .gov, w.amm.roles .gov, w.council.roles .gov, w.oracle.roles .gov]

/-- One of the keys authorizes the invocation. -/
def Keyed (w : World) (ctx : Ctx) : Prop := ∃ a, some a ∈ keys w ∧ Authorizes ctx a

instance (w : World) (ctx : Ctx) : Decidable (Keyed w ctx) :=
  decidable_of_iff ((keys w).any fun k => k.any fun a => decide (Authorizes ctx a)) (by
    simp only [List.any_eq_true, Option.any_eq_true, decide_eq_true_eq]
    constructor
    · rintro ⟨_, hk, a, rfl, ha⟩
      exact ⟨a, hk, ha⟩
    · rintro ⟨a, hk, ha⟩
      exact ⟨_, hk, a, rfl, ha⟩)

/-- Settings name the keys. -/
theorem keys_of_settings {w w' : World} (h : settings w' = settings w) : keys w' = keys w := by
  have hk : keys (settings w') = keys (settings w) := congrArg keys h
  exact hk

section Decisions

variable {u : Address} {consent sold keyed : Prop} {ctx : Ctx} {w w' : World} {a : Address}
  {roles : Store Role (Option Address)} {x : Unit}

/-- A setting that a key decides. -/
theorem Leaves.decided (hk : keyed) (hbank : w'.bank = w.bank)
    (hshares : w'.amm.lpBalance = w.amm.lpBalance)
    (hbalance : w'.tokens.balance = w.tokens.balance) : Leaves u consent sold keyed w w' :=
  .same (fun hn => absurd hk hn) hbank hshares hbalance

/-- An administrator is a key. -/
theorem Keyed.auth (hk : some a ∈ keys w) (hauth : requireAuth ctx a = .ok x) : Keyed w ctx :=
  ⟨a, hk, requireAuth_ok.mp hauth⟩

/-- So is governance. -/
theorem Keyed.role {role : Role} (hk : roles role ∈ keys w)
    (hauth : requireRole ctx roles role = .ok x) : Keyed w ctx := by
  obtain ⟨a, hrole, hauth⟩ := requireRole_ok.mp hauth
  rw [hrole] at hk
  exact ⟨a, hk, hauth⟩

end Decisions

section Books

variable {u : Address} {consent sold : Prop} {ctx : Ctx} {w : World}

/-- The two that may burn and merge the tokens of others do not make the invocation. -/
def Guarded (w : World) (ctx : Ctx) : Prop :=
  ∀ role, role = .amm ∨ role = .vault → ∀ a, w.tokens.roles role = some a → ¬Authorizes ctx a

/-- A module that does not make the invocation is refused. -/
theorem Guarded.refuses (h : Guarded w ctx) {role : Role} (hrole : role = .amm ∨ role = .vault)
    {x : Unit} (hauth : requireRole ctx w.tokens.roles role = .ok x) : False := by
  obtain ⟨a, hstored, hauth⟩ := requireRole_ok.mp hauth
  exact h role hrole a hstored hauth

/-- An invocation of the tokens. -/
theorem tokensExec_leaves (hc : Consents u consent ctx) (hg : ¬consent → Guarded w ctx)
    (op : Tokens.TokensOp) :
    Within (Leaves u consent sold (Keyed w ctx)) w id (op.exec ctx w) := by
  cases op with
  | setAdmin | setRole | pause =>
    refine within_bind.mpr fun t ht => within_pure.mpr ?_
    obtain ⟨_, hauth, ht⟩ := bind_ok.mp ht
    obtain rfl := pure_ok.mp ht
    exact .decided (.auth (by simp [keys]) hauth) rfl rfl rfl
  | upgrade => exact .skip fun _ => within_pure.mpr (.refl w)
  | mintCompleteSet =>
    refine within_bind.mpr fun t ht => within_pure.mpr ?_
    obtain ⟨hx, hcredit⟩ := Tokens.mintCompleteSet_ok ht
    exact creditCompleteSet_leaves hx hcredit
  | splitPosition =>
    refine within_bind.mpr fun t ht => within_pure.mpr ?_
    obtain ⟨_, _, ht⟩ := bind_ok.mp ht
    obtain ⟨_, hx, ht⟩ := bind_ok.mp ht
    obtain ⟨_, _, hcredit⟩ := bind_ok.mp ht
    exact creditCompleteSet_leaves (not_le.mp (refuse_ok.mp hx)) hcredit
  | mergePositions =>
    refine within_bind.mpr fun t ht => within_pure.mpr ?_
    obtain ⟨_, hauth, _⟩ := bind_ok.mp ht
    exact mergePositions_leaves (fun hn _ => ((hg hn).refuses (Or.inl rfl) hauth).elim) ht
  | transferPositionForced =>
    refine within_bind.mpr fun t ht => within_pure.mpr ?_
    obtain ⟨_, hauth, _⟩ := bind_ok.mp ht
    obtain ⟨hx, hmove⟩ := Tokens.transferPositionForced_ok ht
    exact moveBalance_leaves hx (fun hn _ => ((hg hn).refuses (Or.inl rfl) hauth).elim) hmove
  | burnForRedeem =>
    refine within_bind.mpr fun t ht => within_pure.mpr ?_
    obtain ⟨_, hauth, _⟩ := bind_ok.mp ht
    have hburn := (Tokens.burnForRedeem_ok ht).2
    exact subBalance_leaves (fun hn _ => ((hg hn).refuses (Or.inr rfl) hauth).elim) hburn
  | transferPosition => exact transferPosition_leaves hc
  | burnLosing =>
    refine within_bind.mpr fun t ht => within_pure.mpr ?_
    obtain ⟨hauth, _, hsub⟩ := Tokens.burnLosing_ok ht
    exact subBalance_leaves (fun hn _ => hc.auth hauth hn) hsub

/-- Dropping the returned value drops no state. -/
theorem within_world {R : World → World → Prop} {α : Type} {x : Res (α × World)}
    (h : Within R w Prod.snd x) : Within R w id (world x) := by
  intro w' hw
  obtain ⟨value, hx⟩ := world_ok.mp hw
  exact h _ hx

/-- An invocation of the vault. -/
theorem vaultExec_leaves (hc : Consents u consent ctx) (op : Vault.VaultOp) :
    Within (Leaves u consent sold (Keyed w ctx)) w id (op.exec ctx w) := by
  cases op with
  | setAdmin | setRole =>
    exact within_bind.mpr fun _ hauth => within_pure.mpr
      (.decided (.auth (by simp [keys]) hauth) rfl rfl rfl)
  | setTreasury | pause =>
    exact within_bind.mpr fun _ hauth => within_pure.mpr
      (.decided (.role (by simp [keys]) hauth) rfl rfl rfl)
  | upgrade => exact .skip fun _ => within_pure.mpr (.refl w)
  | fundChildPrediction => exact within_error _
  | redeem => exact within_world (within_error _)
  | depositForMarket => exact depositForMarket_leaves hc
  | recordCashStake => exact recordCashStake_leaves
  | openChildCreditForTrade => exact openChildCreditForTrade_leaves
  | repayChildCollateral => exact within_world (repayChildCollateral_leaves hc)
  | releaseTradePayout => exact releaseTradePayout_leaves hc
  | liquidateRelease => exact within_world (liquidateRelease_leaves hc)
  | liquidateChildRelease => exact within_world (liquidateChildRelease_leaves hc)
  | redeemResolved => exact within_world (redeemResolved_leaves hc)
  | redeemCancelled => exact within_world (redeemCancelled_leaves hc)
  | assertPositionTransferAllowed => exact .skip fun _ => within_pure.mpr (.refl w)
  | lockBond => exact lockBond_leaves hc
  | releaseBond | slashBond => exact payBond_leaves hc.outsider
  | collectFee => exact collectFee_leaves
  | claimLpFees => exact claimLpFees_leaves hc
  | sweepProtocolFees => exact within_world (sweepProtocolFees_leaves hc)

/-- The invocation liquidates a position of this account. -/
def Liquidates (u : Address) : Amm.AmmOp → Prop
  | .liquidatePosition _ user _ _ => user = u
  | .liquidateChildPosition _ user _ _ => user = u
  | _ => False

/-- An invocation of the market maker. -/
theorem ammExec_leaves (hc : Consents u consent ctx) (op : Amm.AmmOp) :
    Within (Leaves u consent (Liquidates u op) (Keyed w ctx)) w id (op.exec ctx w) := by
  cases op with
  | setAdmin | setRole | setModules =>
    exact within_bind.mpr fun _ hauth => within_pure.mpr
      (.decided (.auth (by simp [keys]) hauth) rfl rfl rfl)
  | pause =>
    exact within_bind.mpr fun _ hauth => within_pure.mpr
      (.decided (.role (by simp [keys]) hauth) rfl rfl rfl)
  | upgrade => exact .skip fun _ => within_pure.mpr (.refl w)
  | createPool => exact within_world createPool_leaves
  | seedLiquidity => exact within_world (seedLiquidity_leaves hc)
  | addLiquidity => exact within_world (addLiquidity_leaves hc)
  | removeLiquidity =>
    refine .step (removeLiquidity_leaves hc) fun taken => ?_
    exact within_pure.mpr (.refl _)
  | claimLpFees => exact within_world (ammClaim_leaves hc)
  | buyYes | buyNo | buyChildYes | buyChildNo => exact within_world (buy_leaves hc)
  | sellYes | sellNo => exact within_world (sell_leaves hc)
  | liquidatePosition =>
    exact within_world (liquidate_leaves hc id fun _ _ _ _ _ _ => liquidateRelease_leaves)
  | liquidateChildPosition =>
    exact within_world (liquidate_leaves hc id fun _ _ _ _ _ _ => liquidateChildRelease_leaves)

end Books

section Courts

variable {u : Address} {consent sold keyed : Prop} {ctx : Ctx} {w : World} {r r' : RegistryState}

/-- The registry writes markets only. -/
def Marks (r r' : RegistryState) : Prop :=
  r' = { r with market := r'.market, nextMarketId := r'.nextMarketId }

/-- A transition is a mark. -/
theorem transition_marks {m : MarketId} {next : MarketStatus}
    (h : Registry.transitionInternal r m next = .ok r') : Marks r r' := by
  obtain ⟨_, _, h⟩ := bind_ok.mp h
  obtain ⟨_, _, h⟩ := bind_ok.mp h
  obtain rfl := pure_ok.mp h
  rfl

/-- What the oracle reports is a mark. -/
theorem oracleMark_marks {m : MarketId} {next : MarketStatus}
    (h : Registry.oracleMark next ctx r m = .ok r') : Marks r r' := by
  obtain ⟨_, _, h⟩ := bind_ok.mp h
  exact transition_marks h

/-- So is a closed market. -/
theorem closeTrading_marks {m : MarketId} (h : Registry.closeTrading ctx r m = .ok r') :
    Marks r r' := by
  obtain ⟨_, _, h⟩ := bind_ok.mp h
  obtain ⟨_, _, h⟩ := bind_ok.mp h
  exact transition_marks h

/-- So is a request. -/
theorem requestMark_marks {m : MarketId} {k : ℕ}
    (h : Registry.markResolutionRequested ctx r m k = .ok r') : Marks r r' := by
  obtain ⟨_, _, h⟩ := bind_ok.mp h
  obtain ⟨_, _, h⟩ := bind_ok.mp h
  obtain ⟨_, _, h⟩ := bind_ok.mp h
  obtain rfl := pure_ok.mp h
  rfl

/-- So is a final outcome. -/
theorem setFinalOutcome_marks {m : MarketId} {o : Outcome}
    (h : Registry.setFinalOutcome ctx r m o = .ok r') : Marks r r' := by
  obtain ⟨_, _, _, _, _, rfl⟩ := Registry.setFinalOutcome_ok.mp h
  rfl

/-- So is a new market. -/
theorem registerMarket_marks {config : MarketConfig} {yes no i : ℕ} {m : MarketId}
    (h : Registry.registerMarket ctx r config yes no i = .ok (m, r')) : Marks r r' := by
  obtain ⟨_, _, h⟩ := bind_ok.mp h
  obtain ⟨_, _, h⟩ := bind_ok.mp h
  obtain ⟨_, _, h⟩ := bind_ok.mp h
  obtain ⟨_, rfl⟩ := Prod.mk.inj (pure_ok.mp h)
  rfl

/-- Marks are no settings. -/
theorem Leaves.marks (h : Marks w.registry r) :
    Leaves u consent sold keyed w { w with registry := r } := by
  refine .same (fun _ => ?_) rfl rfl rfl
  rw [h]
  rfl

/-- An invocation of the registry: only the administrator changes more than markets. -/
theorem registryExec_leaves (op : Registry.RegistryOp)
    (h : op.exec ctx w.registry = .ok r) :
    Leaves u consent sold (Keyed w ctx) w { w with registry := r } := by
  cases op with
  | setAdmin | setRole | setSupportedCollateral | pauseSystem | upgrade =>
    obtain ⟨_, hauth, _⟩ := bind_ok.mp h
    exact .decided (.auth (by simp [keys]) hauth) rfl rfl rfl
  | registerMarket =>
    obtain ⟨⟨m, r1⟩, hregister, h⟩ := bind_ok.mp h
    obtain rfl := pure_ok.mp h
    exact .marks (registerMarket_marks hregister)
  | setFeeConfig =>
    obtain ⟨_, _, h⟩ := bind_ok.mp h
    obtain ⟨_, _, h⟩ := bind_ok.mp h
    obtain ⟨_, _, h⟩ := bind_ok.mp h
    obtain ⟨_, _, h⟩ := bind_ok.mp h
    obtain rfl := pure_ok.mp h
    exact .marks rfl
  | setStatus =>
    obtain ⟨_, _, h⟩ := bind_ok.mp h
    obtain ⟨_, _, h⟩ := bind_ok.mp h
    obtain ⟨_, _, h⟩ := bind_ok.mp h
    obtain rfl := pure_ok.mp h
    exact .marks rfl
  | activateMarket | cancelMarket =>
    obtain ⟨_, _, h⟩ := bind_ok.mp h
    exact .marks (transition_marks h)
  | closeTrading => exact .marks (closeTrading_marks h)
  | markResolutionRequested => exact .marks (requestMark_marks h)
  | markProposed | markDisputed | markCouncilVoting => exact .marks (oracleMark_marks h)
  | setFinalOutcome => exact .marks (setFinalOutcome_marks h)

/-- The oracle has the registry mark a market. -/
theorem callRegistry_leaves {op : Ctx → RegistryState → Res RegistryState}
    (hop : ∀ {called r r'}, op called r = .ok r' → Marks r r') :
    Within (Leaves u consent sold keyed) w id (Oracle.callRegistry ctx w op) :=
  .skip fun _ => .skip fun _ => within_bind.mpr fun _ hr => within_pure.mpr (.marks (hop hr))

/-- The oracle has the vault do something. -/
theorem callVault_leaves (hc : Consents u consent ctx) {op : Ctx → World → Res World}
    (hop : ∀ called, Consents u consent called →
      Within (Leaves u consent sold keyed) w id (op called w)) :
    Within (Leaves u consent sold keyed) w id (Oracle.callVault ctx w op) :=
  .skip fun _ => hc.invoke hop

/-- Requests are no settings. -/
theorem Leaves.requests {request : Store ℕ (Option ResolutionRequest)}
    {marketRequest : Store MarketId (Option ℕ)} {k : ℕ} :
    Leaves u consent sold keyed w { w with oracle := { w.oracle with
      request := request
      marketRequest := marketRequest
      nextRequestId := k } } := .same (fun _ => rfl) rfl rfl rfl

/-- A request for resolution. -/
theorem requestResolution_leaves {m : MarketId} {hash : Hash} {uri : String} {expiry window : ℕ}
    {x : ℤ} :
    Within (Leaves u consent sold keyed) w Prod.snd
      (Oracle.requestResolution ctx w m hash uri expiry x window) := by
  rintro ⟨k, w'⟩ h
  obtain ⟨r1, r2, called, h1, h2, _, _, _, _, rfl⟩ := Oracle.requestResolution_steps h
  have hclosed : Marks w.registry r1 := by
    rcases h1 with rfl | h1
    · rfl
    · exact closeTrading_marks h1
  have hmarks : Leaves u consent sold keyed w { w with registry := r1 } := .marks hclosed
  exact (hmarks.trans (.marks (w := { w with registry := r1 }) (requestMark_marks h2))).trans
    .requests

/-- A proposal locks the proposer's bond. -/
theorem proposeOutcome_leaves (hc : Consents u consent ctx) {a : Address} {k : ℕ} {o : Outcome}
    {uri : String} :
    Within (Leaves u consent sold keyed) w id (Oracle.proposeOutcome ctx w a k o uri) := by
  iterate 6 refine .skip fun _ => ?_
  refine .step (callVault_leaves hc fun _ hcalled => lockBond_leaves hcalled) fun w1 => ?_
  exact .after .requests (callRegistry_leaves oracleMark_marks)

/-- A dispute locks the disputer's bond. -/
theorem disputeOutcome_leaves (hc : Consents u consent ctx) {a : Address} {k : ℕ} {o : Outcome}
    {uri : String} :
    Within (Leaves u consent sold keyed) w id (Oracle.disputeOutcome ctx w a k o uri) := by
  iterate 9 refine .skip fun _ => ?_
  refine .step (callVault_leaves hc fun _ hcalled => lockBond_leaves hcalled) fun w1 => ?_
  exact .after .requests (callRegistry_leaves oracleMark_marks)

/-- A proposal nobody disputed. -/
theorem finalizeUndisputed_leaves (hc : Consents u consent ctx) {k : ℕ} :
    Within (Leaves u consent sold keyed) w Prod.snd (Oracle.finalizeUndisputed ctx w k) := by
  iterate 5 refine .skip fun _ => ?_
  dsimp only
  refine .skip fun _ => .step (callRegistry_leaves setFinalOutcome_marks) fun w1 => ?_
  refine .step (callVault_leaves hc fun _ _ => payBond_leaves hc.outsider) fun w2 => ?_
  exact within_pure.mpr .requests

/-- Cases are no settings. -/
theorem Leaves.cases {c : CouncilState} (hadmin : c.admin = w.council.admin)
    (hroles : c.roles = w.council.roles) (hmember : c.member = w.council.member)
    (hpaused : c.paused = w.council.paused) :
    Leaves u consent sold keyed w { w with council := c } := by
  refine .same (fun _ => ?_) rfl rfl rfl
  unfold settings
  dsimp only
  rw [hadmin, hroles, hmember, hpaused]

/-- A new case. -/
theorem openCase_leaves {i : ℕ} {m : MarketId} {a b : Address} {o o' : Outcome} {uri uri' : String}
    {config : OpenCaseConfig} {k : ℕ} {c : CouncilState}
    (h : Council.openCase ctx w.council i m a o uri b o' uri' config = .ok (k, c)) :
    Leaves u consent sold keyed w { w with council := c } := by
  obtain ⟨_, _, h⟩ := bind_ok.mp h
  obtain ⟨_, _, h⟩ := bind_ok.mp h
  obtain ⟨_, _, h⟩ := bind_ok.mp h
  obtain ⟨_, _, h⟩ := bind_ok.mp h
  obtain ⟨_, _, h⟩ := bind_ok.mp h
  obtain ⟨_, _, h⟩ := bind_ok.mp h
  obtain ⟨_, _, h⟩ := bind_ok.mp h
  obtain ⟨_, rfl⟩ := Prod.mk.inj (pure_ok.mp h)
  exact .cases rfl rfl rfl rfl

/-- An escalation. -/
theorem escalateToCouncil_leaves {k : ℕ} :
    Within (Leaves u consent sold keyed) w id (Oracle.escalateToCouncil ctx w k) := by
  iterate 5 refine .skip fun _ => ?_
  refine within_bind.mpr ?_
  rintro ⟨i, c⟩ hopen
  refine .after (openCase_leaves hopen) (.step (callRegistry_leaves oracleMark_marks) fun w1 => ?_)
  exact within_pure.mpr .requests

/-- The bonds are paid by the vault. -/
theorem divideBonds_leaves (hu : Outsider u) {token : Asset} {request : ResolutionRequest} {k : ℕ}
    {o : Outcome} :
    Within (Leaves u consent sold keyed) w id (Oracle.divideBonds ctx w token request k o) := by
  intro w' h
  exact Oracle.divideBonds_keeps (I := fun s => Leaves u consent sold keyed w s)
    (fun hpay hs => hs.trans (payBond_leaves hu _ hpay))
    (fun _ _ pool hs => hs.trans (.cases rfl rfl rfl rfl)) h (.refl w)

/-- The council's outcome. -/
theorem reportCouncilOutcome_leaves (hu : Outsider u) {k : ℕ} {o : Outcome} :
    Within (Leaves u consent sold keyed) w id (Oracle.reportCouncilOutcome ctx w k o) := by
  iterate 5 refine .skip fun _ => ?_
  refine .step (divideBonds_leaves hu) fun w1 => ?_
  exact .step (callRegistry_leaves setFinalOutcome_marks) fun w2 => within_pure.mpr .requests

/-- An invocation of the oracle. -/
theorem oracleExec_leaves (hc : Consents u consent ctx) (op : Oracle.OracleOp) :
    Within (Leaves u consent sold (Keyed w ctx)) w id (op.exec ctx w) := by
  cases op with
  | setAdmin | setRole =>
    refine within_bind.mpr fun o ho => within_pure.mpr ?_
    obtain ⟨_, hauth, _⟩ := bind_ok.mp ho
    exact .decided (.auth (by simp [keys]) hauth) rfl rfl rfl
  | pause =>
    refine within_bind.mpr fun o ho => within_pure.mpr ?_
    obtain ⟨_, hauth, _⟩ := bind_ok.mp ho
    exact .decided (.role (by simp [keys]) hauth) rfl rfl rfl
  | upgrade => exact .skip fun _ => within_pure.mpr (.refl w)
  | requestResolution => exact within_world requestResolution_leaves
  | proposeOutcome => exact proposeOutcome_leaves hc
  | disputeOutcome => exact disputeOutcome_leaves hc
  | finalizeUndisputed => exact within_world (finalizeUndisputed_leaves hc)
  | escalateToCouncil => exact escalateToCouncil_leaves
  | reportCouncilOutcome => exact reportCouncilOutcome_leaves hc.outsider

/-- A reward is paid by the council. -/
theorem payReward_leaves (hc : Consents u consent ctx) {a : Address} {k : ℕ} {x : ℤ} :
    Within (Leaves u consent sold keyed) w id (Council.payReward ctx w a k x) := by
  unfold Council.payReward
  split
  · exact .skip fun _ => transferToken_leaves hc
  · exact within_ok.mpr (.refl w)

/-- A claimed reward. -/
theorem claimReward_leaves (hc : Consents u consent ctx) {a : Address} {k : ℕ} :
    Within (Leaves u consent sold keyed) w Prod.snd (Council.claimReward ctx w a k) := by
  iterate 5 refine .skip fun _ => ?_
  refine .after ?_ (.step (payReward_leaves hc) fun w1 => within_pure.mpr (.refl w1))
  exact .cases rfl rfl rfl rfl

/-- A swept reward. -/
theorem sweepCaseReward_leaves (hc : Consents u consent ctx) {a : Address} {k : ℕ} :
    Within (Leaves u consent sold keyed) w Prod.snd (Council.sweepCaseReward ctx w k a) := by
  iterate 4 refine .skip fun _ => ?_
  dsimp only
  refine .skip fun _ => .skip fun _ => .step (transferToken_leaves hc) fun w1 => ?_
  exact within_pure.mpr (.cases rfl rfl rfl rfl)

/-- A tally. -/
theorem finalizeCase_leaves {k : ℕ} {o : Outcome} {c : CouncilState}
    (h : Council.finalizeCase ctx w.council k = .ok (o, c)) :
    Leaves u consent sold keyed w { w with council := c } := by
  obtain ⟨_, _, h⟩ := bind_ok.mp h
  obtain ⟨_, _, h⟩ := bind_ok.mp h
  obtain ⟨_, _, h⟩ := bind_ok.mp h
  obtain ⟨_, rfl⟩ := Prod.mk.inj (pure_ok.mp h)
  exact .cases rfl rfl rfl rfl

/-- A tally that is reported. -/
theorem finalizeAndReportCase_leaves (hu : Outsider u) {k : ℕ} :
    Within (Leaves u consent sold keyed) w Prod.snd (Council.finalizeAndReportCase ctx w k) := by
  refine within_bind.mpr ?_
  rintro ⟨o, c⟩ hfinal
  refine .after (finalizeCase_leaves hfinal) ?_
  iterate 3 refine .skip fun _ => ?_
  exact .step (reportCouncilOutcome_leaves hu) fun w1 => within_pure.mpr (.refl w1)

/-- An invocation of the council. -/
theorem councilExec_leaves (hc : Consents u consent ctx) (op : Council.CouncilOp) :
    Within (Leaves u consent sold (Keyed w ctx)) w id (op.exec ctx w) := by
  cases op with
  | setAdmin | setRole =>
    refine within_bind.mpr fun o ho => within_pure.mpr ?_
    obtain ⟨_, hauth, _⟩ := bind_ok.mp ho
    exact .decided (.auth (by simp [keys]) hauth) rfl rfl rfl
  | setMember | pause =>
    refine within_bind.mpr fun o ho => within_pure.mpr ?_
    obtain ⟨_, hauth, _⟩ := bind_ok.mp ho
    exact .decided (.role (by simp [keys]) hauth) rfl rfl rfl
  | upgrade => exact .skip fun _ => within_pure.mpr (.refl w)
  | recordCaseReward =>
    refine within_bind.mpr fun c hreward => within_pure.mpr ?_
    obtain ⟨_, _, hreward⟩ := bind_ok.mp hreward
    obtain ⟨_, _, hreward⟩ := bind_ok.mp hreward
    obtain ⟨_, _, hreward⟩ := bind_ok.mp hreward
    obtain rfl := pure_ok.mp hreward
    exact .cases rfl rfl rfl rfl
  | openCase =>
    refine within_bind.mpr fun c hopen => within_pure.mpr ?_
    obtain ⟨⟨k, c1⟩, hopened, hc1⟩ := bind_ok.mp hopen
    obtain rfl := pure_ok.mp hc1
    exact openCase_leaves hopened
  | commitVote =>
    refine within_bind.mpr fun c hcommit => within_pure.mpr ?_
    iterate 5 obtain ⟨_, _, hcommit⟩ := bind_ok.mp hcommit
    obtain rfl := pure_ok.mp hcommit
    exact .cases rfl rfl rfl rfl
  | revealVote =>
    refine within_bind.mpr fun c hreveal => within_pure.mpr ?_
    iterate 8 obtain ⟨_, _, hreveal⟩ := bind_ok.mp hreveal
    obtain rfl := pure_ok.mp hreveal
    exact .cases rfl rfl rfl rfl
  | finalizeCase =>
    refine within_bind.mpr fun c hfinal => within_pure.mpr ?_
    obtain ⟨⟨o, c1⟩, htallied, hc1⟩ := bind_ok.mp hfinal
    obtain rfl := pure_ok.mp hc1
    exact finalizeCase_leaves htallied
  | finalizeAndReportCase => exact within_world (finalizeAndReportCase_leaves hc.outsider)
  | claimReward => exact within_world (claimReward_leaves hc)
  | sweepCaseReward => exact within_world (sweepCaseReward_leaves hc)

end Courts

section Factory

variable {u : Address} {consent sold keyed : Prop} {ctx : Ctx} {w w' : World}

/-- The creation fee is taken from the creator. -/
theorem payCreationFee_leaves (hc : Consents u consent ctx) {a : Address} {token : Asset} :
    Within (Leaves u consent sold keyed) w id (Factory.payCreationFee ctx w a token) := by
  refine .skip fun _ => .skip fun _ => ?_
  split
  · exact .skip fun _ => transferToken_leaves hc
  · exact within_pure.mpr (.refl w)

/-- A new market takes the creation fee and the first liquidity from its creator. -/
theorem createMarket_leaves (hc : Consents u consent ctx) {config : MarketConfig} {x : ℤ} {i : ℕ} :
    Within (Leaves u consent sold keyed) w Prod.snd (Factory.createMarket ctx w config x i) := by
  unfold Factory.createMarket Factory.createMarketOr
  iterate 3 refine .skip fun _ => ?_
  refine .step (payCreationFee_leaves hc) fun w1 => ?_
  dsimp only
  iterate 5 refine .skip fun _ => ?_
  refine within_bind.mpr ?_
  rintro ⟨m, r⟩ hregister
  refine .after (.marks (registerMarket_marks hregister)) (.skip fun _ => ?_)
  refine .skip fun _ => .step createPool_leaves fun created => .skip fun _ => ?_
  refine hc.invoke fun called hcalled => .step (seedLiquidity_leaves hcalled) fun seeded => ?_
  refine .skip fun _ => within_bind.mpr fun r1 hactivate => ?_
  obtain ⟨_, _, hactivate⟩ := bind_ok.mp hactivate
  refine .after (.marks (transition_marks hactivate)) ?_
  iterate 3 refine .skip fun _ => ?_
  exact within_pure.mpr (.same (fun _ => rfl) rfl rfl rfl)

/-- An invocation of the factory. -/
theorem factoryExec_leaves (hc : Consents u consent ctx) (op : Factory.FactoryOp) :
    Within (Leaves u consent sold (Keyed w ctx)) w id (op.exec ctx w) := by
  cases op with
  | setAdmin | setGovernance | setModules | setCreator | setCollateral | pause =>
    refine within_bind.mpr fun f hf => within_pure.mpr ?_
    obtain ⟨_, hauth, _⟩ := bind_ok.mp hf
    exact .decided (.auth (by simp [keys]) hauth) rfl rfl rfl
  | upgrade => exact .skip fun _ => within_pure.mpr (.refl w)
  | setCreatorByTimelock =>
    refine .skip fun _ => within_bind.mpr fun timelock htimelock => ?_
    refine within_bind.mpr fun _ hauth => within_pure.mpr ?_
    have hstored := orFault_ok.mp htimelock
    exact .decided (.auth (by simp [keys, hstored]) hauth) rfl rfl rfl
  | createMarket => exact within_world (createMarket_leaves hc)

/-- A call of the timelock to one of the contracts moves no property. -/
theorem dispatch_leaves {foreign : Timelock.Foreign} {c : Contract} {payload : TimelockPayload}
    (hkeyed : keyed) :
    Within (Leaves u consent sold keyed) w id
      (Timelock.dispatch ctx w foreign (.contract c) payload) := by
  intro w' h
  unfold Timelock.dispatch at h
  split at h
  case h_1 heq => cases heq
  case h_6 =>
    obtain ⟨_, _, h⟩ := bind_ok.mp h
    obtain ⟨_, _, h⟩ := bind_ok.mp h
    obtain ⟨_, _, h⟩ := bind_ok.mp h
    obtain rfl := pure_ok.mp h
    exact .decided hkeyed rfl rfl rfl
  case h_11 =>
    obtain ⟨_, hrole, h⟩ := bind_ok.mp h
    obtain ⟨_, _, hrole⟩ := bind_ok.mp hrole
    obtain rfl := pure_ok.mp hrole
    obtain rfl := pure_ok.mp h
    exact .decided hkeyed rfl rfl rfl
  case h_16 => exact (error_ok.mp h).elim
  all_goals
    obtain ⟨_, _, h⟩ := bind_ok.mp h
    obtain rfl := pure_ok.mp h
    exact .decided hkeyed rfl rfl rfl

/-- The invocation has the timelock call a contract that is none of the ten. -/
def CallsForeign (w : World) : Timelock.TimelockOp → Prop
  | .execute i _ => (w.timelock.action i).any (fun action => decide (Outsider action.target)) = true
  | _ => False

/-- An invocation of the timelock that calls none but the ten contracts, if it calls one. -/
theorem timelockExec_leaves (op : Timelock.TimelockOp) (hlocal : ¬CallsForeign w op) :
    Within (Leaves u consent sold (Keyed w ctx)) w id (op.exec ctx w) := by
  cases op with
  | setAdmin | setRoles =>
    refine within_bind.mpr fun t ht => within_pure.mpr ?_
    obtain ⟨_, hauth, _⟩ := bind_ok.mp ht
    exact .decided (.auth (by simp [keys]) hauth) rfl rfl rfl
  | queue =>
    refine within_bind.mpr ?_
    rintro ⟨i, t⟩ ht
    iterate 6 obtain ⟨_, _, ht⟩ := bind_ok.mp ht
    obtain ⟨_, rfl⟩ := Prod.mk.inj (pure_ok.mp ht)
    exact within_pure.mpr (.same (fun _ => rfl) rfl rfl rfl)
  | cancel =>
    refine within_bind.mpr fun t ht => within_pure.mpr ?_
    iterate 3 obtain ⟨_, _, ht⟩ := bind_ok.mp ht
    obtain rfl := pure_ok.mp ht
    exact .same (fun _ => rfl) rfl rfl rfl
  | execute i foreign =>
    refine within_world (within_bind.mpr fun _ hauth => ?_)
    have hkeyed : Keyed w ctx := .auth (by simp [keys]) hauth
    refine within_bind.mpr fun action haction => ?_
    iterate 5 refine .skip fun _ => ?_
    dsimp only
    cases htarget : action.target with
    | account n =>
      refine absurd ?_ hlocal
      simp only [CallsForeign, orFault_ok.mp haction, Option.any_some, htarget, decide_eq_true_eq]
      exact trivial
    | contract c =>
      refine .step (dispatch_leaves hkeyed) fun w1 => within_pure.mpr ?_
      exact .decided hkeyed rfl rfl rfl

end Factory

section Network

variable {u : Address} {consent : Prop} {ctx : Ctx} {w w' : World}

/-- The invocation liquidates a position of this account. -/
def NetworkOp.Liquidates (u : Address) : NetworkOp → Prop
  | .amm op => Network.Liquidates u op
  | _ => False

/-- The invocation has the timelock call a contract that is none of the ten. -/
def NetworkOp.CallsForeign (w : World) : NetworkOp → Prop
  | .timelock op => Network.CallsForeign w op
  | _ => False

/-- An invocation of governance is authorized by the administrator or the timelock. -/
theorem governanceExec_keyed {g : GovernanceState} (op : Governance.GovernanceOp)
    (h : op.exec ctx w.governance = .ok g) : Keyed w ctx := by
  cases op with
  | setAdmin | setTimelock =>
    obtain ⟨_, hauth, _⟩ := bind_ok.mp h
    exact .auth (by simp [keys]) hauth
  | _ =>
    obtain ⟨_, hrequire, _⟩ := bind_ok.mp h
    obtain ⟨timelock, htimelock, hauth⟩ := bind_ok.mp hrequire
    exact .auth (by simp [keys, orFault_ok.mp htimelock]) hauth

/-- An invocation of the ten contracts. -/
theorem networkExec_leaves (hc : Consents u consent ctx) (hg : ¬consent → Guarded w ctx)
    (op : NetworkOp) (hlocal : ¬op.CallsForeign w) :
    Within (Leaves u consent (op.Liquidates u) (Keyed w ctx)) w id (op.exec ctx w) := by
  cases op with
  | registry op =>
    exact within_bind.mpr fun r hr => within_pure.mpr (registryExec_leaves op hr)
  | tokens op => exact tokensExec_leaves hc hg op
  | vault op => exact vaultExec_leaves hc op
  | amm op => exact ammExec_leaves hc op
  | feeManager op =>
    refine within_bind.mpr fun f hf => within_pure.mpr ?_
    have hkeyed : Keyed w ctx := by
      cases op <;> obtain ⟨_, hauth, _⟩ := bind_ok.mp hf <;> exact .auth (by simp [keys]) hauth
    exact .decided hkeyed rfl rfl rfl
  | council op => exact councilExec_leaves hc op
  | oracle op => exact oracleExec_leaves hc op
  | governance op =>
    refine within_bind.mpr fun g hexec => within_pure.mpr ?_
    exact .decided (governanceExec_keyed op hexec) rfl rfl rfl
  | timelock op => exact timelockExec_leaves op hlocal
  | factory op => exact factoryExec_leaves hc op

/-- Whatever is invoked, settings change only where a key authorizes it. -/
theorem networkExec_settings (op : NetworkOp) (hn : ¬Keyed w ctx) :
    Within (fun w w' => settings w' = settings w) w id (op.exec ctx w) := by
  intro w' h
  have hc : Consents alice True ctx := ⟨trivial, fun _ => trivial⟩
  refine (networkExec_leaves hc (absurd trivial) op ?_ w' h).kept hn
  intro hforeign
  cases op with
  | timelock op =>
    cases op with
    | execute i foreign =>
      obtain ⟨_, h⟩ := world_ok.mp h
      obtain ⟨_, hauth, _⟩ := bind_ok.mp h
      exact hn (.auth (by simp [keys]) hauth)
    | _ => exact hforeign
  | _ => exact hforeign

/-- One of these keys authorizes the step. -/
def NetworkStep.KeyedIn (w : World) : NetworkStep → Prop
  | .call ctx _ => Keyed w ctx
  | .outside _ => False

instance (w : World) (step : NetworkStep) : Decidable (step.KeyedIn w) := by
  cases step with
  | call ctx op => exact inferInstanceAs (Decidable (Keyed w ctx))
  | outside bank => exact instDecidableFalse

/-- A step that no key authorizes changes no setting. -/
theorem step_settings {step : NetworkStep} (hn : ¬step.KeyedIn w) :
    Within (fun w w' => settings w' = settings w) w id (network.step w step) := by
  cases step with
  | call ctx op => exact .skip fun _ => networkExec_settings op hn
  | outside bank => exact within_ok.mpr rfl

/-- Steps keep the keys with the settings. -/
theorem NetworkStep.keyedIn_congr (h : settings w' = settings w) (step : NetworkStep) :
    step.KeyedIn w' ↔ step.KeyedIn w := by
  cases step with
  | call ctx op =>
    unfold NetworkStep.KeyedIn Keyed
    rw [keys_of_settings h]
  | outside bank => exact Iff.rfl

/-- However long a run: as long as none of the keys of the state it starts in
authorizes a step, every setting is as it was there, the keys among them. -/
theorem settings_of_no_key {w w' : World} {steps : List NetworkStep}
    (hn : ∀ step ∈ steps, ¬step.KeyedIn w) (h : network.runs w steps = .ok w') :
    settings w' = settings w := by
  induction steps generalizing w with
  | nil => exact congrArg settings (ok_ok.mp h).symm
  | cons step steps ih =>
    unfold System.runs at h
    split at h
    · next w1 h1 =>
      have hsame : settings w1 = settings w := step_settings (hn step List.mem_cons_self) w1 h1
      refine (ih (fun next hnext => ?_) h).trans hsame
      rw [NetworkStep.keyedIn_congr hsame]
      exact hn next (List.mem_cons_of_mem _ hnext)
    · cases h

/-- From its proposal to the votes on it, no key authorizes a step of the majority for alice. -/
theorem settings_of_no_key_sample : ∃ w w', (majority.drop 2).length = 6 ∧
    network.runs w (majority.drop 2) = .ok w' ∧ settings w' = settings w := by
  obtain ⟨w, hguarded, hp⟩ := network_of_check (majority.take 2) (fun w =>
    decide (∀ step ∈ majority.drop 2, ¬step.KeyedIn w) &&
      network.checkRun (fun w step => step.KeepsWires w) (fun _ => true) w (majority.drop 2))
    (by decide +kernel)
  obtain ⟨hn, hcheck⟩ := (Bool.and_eq_true _ _).mp hp
  obtain ⟨w', hrun, _⟩ := hguarded.of_check (majority.drop 2) hcheck
  exact ⟨w, w', rfl, hrun, settings_of_no_key (of_decide_eq_true hn) hrun⟩

/-- Only contracts may burn, merge and move the tokens of others. -/
def TokensHeld (w : World) : Prop :=
  (w.tokens.roles .amm).any (fun a => decide (Outsider a)) = false ∧
    (w.tokens.roles .vault).any (fun a => decide (Outsider a)) = false

instance (w : World) : Decidable (TokensHeld w) := inferInstanceAs (Decidable (_ ∧ _))

/-- An invocation without the account: it neither signs nor invokes, contracts
sign nothing, only contracts may move the tokens of others, and the timelock
calls no contract but the ten. -/
structure Without (u : Address) (w : World) (ctx : Ctx) (op : NetworkOp) : Prop where
  unsigned : u ∉ ctx.signers
  uninvoked : ctx.callers.head? ≠ some u
  signers : ∀ a ∈ ctx.signers, Outsider a
  held : TokensHeld w
  localCall : ¬op.CallsForeign w

instance (w : World) (op : NetworkOp) : Decidable (op.CallsForeign w) := by
  unfold NetworkOp.CallsForeign Network.CallsForeign
  split
  · split <;> infer_instance
  · exact instDecidableFalse

instance (u : Address) (w : World) (ctx : Ctx) (op : NetworkOp) :
    Decidable (Without u w ctx op) :=
  decidable_of_iff
    (u ∉ ctx.signers ∧ ctx.callers.head? ≠ some u ∧ (∀ a ∈ ctx.signers, Outsider a) ∧
      TokensHeld w ∧ ¬op.CallsForeign w)
    ⟨fun ⟨h1, h2, h3, h4, h5⟩ => ⟨h1, h2, h3, h4, h5⟩,
      fun ⟨h1, h2, h3, h4, h5⟩ => ⟨h1, h2, h3, h4, h5⟩⟩

/-- A step without the account. Other tokens leave it what it has. -/
def NetworkStep.Without (u : Address) (w : World) : NetworkStep → Prop
  | .call ctx op => Network.Without u w ctx op
  | .outside bank => ∀ t, w.bank.bal t u ≤ bank.bal t u

/-- The step liquidates a position of this account. -/
def NetworkStep.Liquidates (u : Address) : NetworkStep → Prop
  | .call _ op => op.Liquidates u
  | .outside _ => False

/-- From the top, those who may move the tokens of others do not make such an invocation. -/
theorem Without.guarded {op : NetworkOp} (h : Without u w ctx op) (htop : AtTop ctx) :
    Guarded w ctx := by
  intro role hrole a hstored hauth
  have houtsider : Outsider a := by
    rcases hauth with hs | hi
    · exact h.signers a hs
    · exact htop a (List.mem_of_mem_head? hi)
  have hany : (w.tokens.roles role).any (fun a => decide (Outsider a)) = false := by
    rcases hrole with rfl | rfl
    · exact h.held.1
    · exact h.held.2
  rw [hstored, Option.any_some, decide_eq_false_iff_not] at hany
  exact hany houtsider

/-- A step without the account leaves it its property, except what is liquidated. -/
theorem step_leaves {step : NetworkStep} (hu : Outsider u) (h : step.Without u w) :
    Within (Leaves u False (step.Liquidates u) True) w id (network.step w step) := by
  cases step with
  | call ctx op =>
    refine within_bind.mpr fun _ htop => ?_
    have htop := not_not.mp (refuse_ok.mp htop)
    have hc : Consents u False ctx := ⟨hu, fun hk => hk.elim h.unsigned h.uninvoked⟩
    intro w' hexec
    have hleaves := networkExec_leaves hc (fun _ => h.guarded htop) op h.localCall w' hexec
    exact { hleaves with kept := absurd trivial }
  | outside bank =>
    exact within_ok.mpr ⟨absurd trivial, fun _ => h, fun _ _ => le_rfl, fun _ _ _ _ => le_rfl⟩

/-- More may happen to an account of which more is said to be sold. -/
theorem Leaves.mono {sold sold' keyed : Prop} (hsold : sold → sold')
    (h : Leaves u consent sold keyed w w') : Leaves u consent sold' keyed w w' :=
  { h with positions := fun hn hs => h.positions hn fun hk => hs (hsold hk) }

/-- Whatever others do, in any order and however long: an account that is no
contract keeps its collateral and its liquidity shares, and as long as nobody
liquidates it its outcome tokens as well. -/
theorem kept_without {w w' : World} (hu : Outsider u) :
    (network.Path (fun w step => step.Without u w) w w' →
      (∀ t, w.bank.bal t u ≤ w'.bank.bal t u) ∧
        ∀ p, w.amm.lpBalance (p, u) ≤ w'.amm.lpBalance (p, u)) ∧
      (network.Path (fun w step => step.Without u w ∧ ¬step.Liquidates u) w w' →
        ∀ m o, w.tokens.balance (m, u, o) ≤ w'.tokens.balance (m, u, o)) := by
  constructor
  · intro h
    have hleaves : Leaves u False True True w w' :=
      h.within (fun w => .refl w) fun w step hstep w' hexec =>
        (step_leaves hu hstep w' hexec).mono fun _ => trivial
    exact ⟨hleaves.collateral not_false, hleaves.shares not_false⟩
  · intro h
    have hleaves : Leaves u False False True w w' :=
      h.within (fun w => .refl w) fun w step hstep w' hexec =>
        (step_leaves hu hstep.1 w' hexec).mono hstep.2
    exact hleaves.positions not_false not_false

/-- Bob buys before alice does. -/
def bobFirst : List NetworkStep :=
  [.call ⟨1, [.account 1], []⟩ (.factory (.createMarket sampleConfig 100 5000)),
    .call ⟨1, [bob], []⟩ (.amm (.buyYes bob 1 50 1 100))]

/-- Alice buys the other outcome. -/
def aliceNext : NetworkStep := .call ⟨1, [alice], []⟩ (.amm (.buyNo alice 1 50 1 100))

/-- Alice's purchase leaves bob what he bought. -/
theorem kept_without_sample : ∃ w w', network.step w aliceNext = .ok w' ∧
    0 < w.tokens.balance (1, bob, .yes) ∧
      w.tokens.balance (1, bob, .yes) ≤ w'.tokens.balance (1, bob, .yes) ∧
      w.bank.bal sampleToken bob ≤ w'.bank.bal sampleToken bob := by
  obtain ⟨w, _, hp⟩ := System.runs_of_decide (S := network) (deploy sampleLaunch) bobFirst
    (fun w => decide (0 < w.tokens.balance (1, bob, .yes) ∧
        Without bob w ⟨1, [alice], []⟩ (.amm (.buyNo alice 1 50 1 100))) &&
      (network.step w aliceNext).isOk)
    (by decide +kernel)
  obtain ⟨hp, hok⟩ := (Bool.and_eq_true _ _).mp hp
  obtain ⟨hheld, hwithout⟩ := of_decide_eq_true hp
  cases hs : network.step w aliceNext with
  | error e =>
    rw [hs] at hok
    cases hok
  | ok w' =>
    have hbob : Outsider bob := trivial
    have hstep : aliceNext.Without bob w := hwithout
    obtain ⟨hmoney, htokens⟩ := @kept_without bob w w' hbob
    have hcash := (hmoney (.next .refl hstep hs)).1 sampleToken
    have hpositions := htokens (.next .refl ⟨hstep, id⟩ hs) 1 .yes
    exact ⟨w, w', hs, hheld, hpositions, hcash⟩

end Network

end DikeProtocol.Network
