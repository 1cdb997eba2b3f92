import DikeProtocol.Resolution.Standing

/-!
# What the next call of a market rests on

Markets keep the valid terms they were registered with, requests are filed
under their market and made after its expiry, and a proposal leaves time for
its window. As long as nobody rewires the contracts, that is all a call of the
resolution asks of the past.
-/

namespace DikeProtocol.Resolution

open Lib
open Council (CouncilOp)
open Oracle (OracleOp)
open Registry (RegistryOp MarketsFollow Ordered)
open Vault (VaultOp Outside Sane)

/-- Terms a market may be registered with. -/
structure ValidTerms (market : MarketData) : Prop where
  rules : market.rulesUri ≠ ""
  bond : 0 < market.bondAmount
  window : 0 < market.disputeWindow
  expiry : 0 < market.expiry

/-- The same terms. -/
structure SameTerms (market market' : MarketData) : Prop where
  rules : market'.rulesUri = market.rulesUri
  bond : market'.bondAmount = market.bondAmount
  window : market'.disputeWindow = market.disputeWindow
  expiry : market'.expiry = market.expiry

/-- Every market was there with the same terms, and asked exactly if it was, or it is new with
valid terms. -/
def TermsKept (r r' : RegistryState) : Prop :=
  ∀ m market', r'.market m = some market' →
    (∃ market, r.market m = some market ∧ SameTerms market market' ∧
      market'.hasRequest = market.hasRequest) ∨
    (r.market m = none ∧ ValidTerms market' ∧ market'.hasRequest = false)

section Registry

variable {ctx : Ctx} {r r' : RegistryState} {m : MarketId}

/-- The same markets. -/
theorem TermsKept.of_eq (h : r'.market = r.market) : TermsKept r r' := by
  intro m market' hm
  rw [h] at hm
  exact Or.inl ⟨market', hm, ⟨rfl, rfl, rfl, rfl⟩, rfl⟩

/-- One market rewritten with the same terms. -/
theorem TermsKept.write (hr : Ordered r) {market market' : MarketData}
    (hm : r.market m = some market) (hid : market'.id = market.id)
    (hterms : SameTerms market market') (hasked : market'.hasRequest = market.hasRequest) :
    TermsKept r (Registry.writeMarket r market') := by
  intro k stored hk
  unfold Registry.writeMarket at hk
  dsimp only at hk
  rw [hid, (hr.registered m market hm).1, Store.set_get] at hk
  split at hk
  · next heq =>
    obtain rfl := Option.some.inj hk
    rw [heq]
    exact Or.inl ⟨market, hm, hterms, hasked⟩
  · exact Or.inl ⟨stored, hk, ⟨rfl, rfl, rfl, rfl⟩, rfl⟩

/-- A transition keeps the terms. -/
theorem TermsKept.transition (hr : Ordered r) {next : MarketStatus}
    (h : Registry.transitionInternal r m next = .ok r') : TermsKept r r' := by
  obtain ⟨market, hm, _, rfl⟩ := transitionInternal_ok.mp h
  exact .write hr hm rfl ⟨rfl, rfl, rfl, rfl⟩ rfl

/-- Every invocation keeps the terms, and only the oracle's mark of a request asks. -/
theorem RegistryOp.exec_terms (hr : Ordered r) {op : RegistryOp}
    (hop : ∀ m requestId, op ≠ .markResolutionRequested m requestId)
    (h : op.exec ctx r = .ok r') : TermsKept r r' := by
  cases op with
  | setAdmin admin =>
    obtain ⟨_, _, h⟩ := bind_ok.mp h
    rw [← pure_ok.mp h]
    exact .of_eq rfl
  | upgrade wasmHash =>
    obtain ⟨_, _, h⟩ := bind_ok.mp h
    rw [← pure_ok.mp h]
    exact .of_eq rfl
  | setRole role module =>
    obtain ⟨_, _, h⟩ := bind_ok.mp h
    rw [← pure_ok.mp h]
    exact .of_eq rfl
  | setSupportedCollateral collateral supported =>
    obtain ⟨_, _, h⟩ := bind_ok.mp h
    rw [← pure_ok.mp h]
    exact .of_eq rfl
  | pauseSystem paused =>
    obtain ⟨_, _, h⟩ := bind_ok.mp h
    rw [← pure_ok.mp h]
    exact .of_eq rfl
  | registerMarket config yesTokenId noTokenId poolId =>
    obtain ⟨⟨id, r1⟩, h1, h⟩ := bind_ok.mp h
    obtain rfl := pure_ok.mp h
    unfold Registry.registerMarket at h1
    obtain ⟨_, _, h1⟩ := bind_ok.mp h1
    obtain ⟨_, hconfig, h1⟩ := bind_ok.mp h1
    obtain ⟨next, hnext, h1⟩ := bind_ok.mp h1
    obtain ⟨_, rfl⟩ := Prod.mk.inj (pure_ok.mp h1)
    obtain ⟨_, htexts, hconfig⟩ := bind_ok.mp hconfig
    obtain ⟨_, hexpiry, hconfig⟩ := bind_ok.mp hconfig
    obtain ⟨_, hamounts, _⟩ := bind_ok.mp hconfig
    have htexts' := refuse_ok.mp htexts
    have hexpiry' := refuse_ok.mp hexpiry
    have hamounts' := refuse_ok.mp hamounts
    intro k stored hk
    unfold Registry.writeMarket at hk
    dsimp only at hk
    rw [Store.set_get] at hk
    split at hk
    · next heq =>
      obtain rfl := Option.some.inj hk
      have hnew : r.market k = none := by
        cases hold : r.market k with
        | none => rfl
        | some old => exact absurd (hr.registered k old hold).2 (by rw [heq]; exact lt_irrefl _)
      refine Or.inr ⟨hnew, ⟨fun hrules => htexts' (Or.inr (Or.inl hrules)), ?_, ?_, ?_⟩, rfl⟩
      · exact lt_of_not_ge fun hk => hamounts' (Or.inl hk)
      · exact Nat.pos_of_ne_zero fun hk => hamounts' (Or.inr hk)
      · exact Nat.pos_of_ne_zero fun hk => hexpiry' (hk.trans_le (Nat.zero_le _))
    · exact Or.inl ⟨stored, hk, ⟨rfl, rfl, rfl, rfl⟩, rfl⟩
  | setFeeConfig m feeConfig =>
    obtain ⟨_, _, h⟩ := bind_ok.mp h
    obtain ⟨_, _, h⟩ := bind_ok.mp h
    obtain ⟨market, hm, h⟩ := bind_ok.mp h
    obtain ⟨_, _, h⟩ := bind_ok.mp h
    rw [← pure_ok.mp h]
    exact .write hr (orFault_ok.mp hm) rfl ⟨rfl, rfl, rfl, rfl⟩ rfl
  | setStatus m next =>
    obtain ⟨_, _, h⟩ := bind_ok.mp h
    exact .transition hr h
  | activateMarket m =>
    obtain ⟨_, _, h⟩ := bind_ok.mp h
    exact .transition hr h
  | closeTrading m =>
    obtain ⟨_, _, h⟩ := bind_ok.mp h
    obtain ⟨_, _, h⟩ := bind_ok.mp h
    exact .transition hr h
  | markResolutionRequested m requestId => exact absurd rfl (hop m requestId)
  | markProposed m =>
    obtain ⟨_, _, h⟩ := bind_ok.mp h
    exact .transition hr h
  | markDisputed m =>
    obtain ⟨_, _, h⟩ := bind_ok.mp h
    exact .transition hr h
  | markCouncilVoting m =>
    obtain ⟨_, _, h⟩ := bind_ok.mp h
    exact .transition hr h
  | setFinalOutcome m outcome =>
    obtain ⟨_, _, h⟩ := bind_ok.mp h
    obtain ⟨market, hm, h⟩ := bind_ok.mp h
    obtain ⟨_, _, h⟩ := bind_ok.mp h
    obtain ⟨_, _, h⟩ := bind_ok.mp h
    rw [← pure_ok.mp h]
    exact .write hr (orFault_ok.mp hm) rfl ⟨rfl, rfl, rfl, rfl⟩ rfl
  | cancelMarket m =>
    obtain ⟨_, _, h⟩ := bind_ok.mp h
    exact .transition hr h

end Registry

/-- The requests stay filed, each under its market, and proposals that are new leave time for
their window. -/
structure RequestsKept (o o' : OracleState) : Prop where
  filed : o'.marketRequest = o.marketRequest
  kept : ∀ r request, o.request r = some request →
    ∃ request', o'.request r = some request' ∧ request'.marketId = request.marketId
  timely : ∀ r request', o'.request r = some request' → request'.status = .proposed →
    o.request r = some request' ∨ request'.proposedAt + request'.disputeWindow ≤ u64Max

/-- The same requests. -/
theorem RequestsKept.of_eq {o o' : OracleState} (hrequest : o'.request = o.request)
    (hfiled : o'.marketRequest = o.marketRequest) : RequestsKept o o' where
  filed := hfiled
  kept := by
    intro r request hr
    rw [hrequest]
    exact ⟨request, hr, rfl⟩
  timely := by
    intro r request' hr _
    rw [hrequest] at hr
    exact Or.inl hr

/-- One request rewritten. -/
theorem RequestsKept.write {o : OracleState} (ho : RequestsOrdered o) {k : ℕ}
    {before after : ResolutionRequest} (hk : o.request k = some before)
    (hid : after.id = before.id) (hm : after.marketId = before.marketId)
    (htime : after.status = .proposed → after.proposedAt + after.disputeWindow ≤ u64Max) :
    RequestsKept o (Oracle.writeRequest o after) := by
  have hread : ∀ r, (Oracle.writeRequest o after).request r =
      if r = k then some after else o.request r := by
    intro r
    unfold Oracle.writeRequest
    dsimp only
    rw [hid, (ho k before hk).1, Store.set_get]
  refine ⟨rfl, ?_, ?_⟩
  · intro r request hr
    rw [hread]
    split
    · next heq =>
      rw [heq, hk] at hr
      obtain rfl := Option.some.inj hr
      exact ⟨after, rfl, hm⟩
    · exact ⟨request, hr, rfl⟩
  · intro r request' hr hstatus
    rw [hread] at hr
    split at hr
    · obtain rfl := Option.some.inj hr
      exact Or.inr (htime hstatus)
    · exact Or.inl hr

/-- What the past leaves to the next call at a time. -/
structure Agenda (w : World) (now : ℕ) : Prop where
  terms : ∀ m market, w.registry.market m = some market → ValidTerms market
  due : ∀ m market, w.registry.market m = some market → market.hasRequest = true →
    market.expiry ≤ now
  filed : ∀ m r, w.oracle.marketRequest m = some r →
    ∃ request, w.oracle.request r = some request ∧ request.marketId = m
  timely : ∀ r request, w.oracle.request r = some request → request.status = .proposed →
    request.proposedAt + request.disputeWindow ≤ u64Max
  vaultRegistry : w.vault.roles .registry = some (.contract .registry)
  vaultTokens : w.vault.roles .tokens = some (.contract .tokens)

section Steps

variable {ctx : Ctx} {w w' : World} {now now' : ℕ}

/-- Terms and requests that are kept keep it, as time goes on. -/
theorem Agenda.keep (h : Agenda w now) (hnow : now ≤ now')
    (hterms : TermsKept w.registry w'.registry) (hrequests : RequestsKept w.oracle w'.oracle)
    (hregistry : w'.vault.roles .registry = some (.contract .registry))
    (htokens : w'.vault.roles .tokens = some (.contract .tokens)) : Agenda w' now' where
  terms := by
    intro m market' hm
    rcases hterms m market' hm with ⟨market, hold, hsame, _⟩ | ⟨_, hvalid, _⟩
    · obtain ⟨hrules, hbond, hwindow, hexpiry⟩ := h.terms m market hold
      exact ⟨by rwa [hsame.rules], by rwa [hsame.bond], by rwa [hsame.window],
        by rwa [hsame.expiry]⟩
    · exact hvalid
  due := by
    intro m market' hm hasked
    rcases hterms m market' hm with ⟨market, hold, hsame, hasked'⟩ | ⟨_, _, hfree⟩
    · rw [hsame.expiry]
      exact (h.due m market hold (by rw [← hasked', hasked])).trans hnow
    · rw [hfree] at hasked
      cases hasked
  filed := by
    intro m r hr
    rw [hrequests.filed] at hr
    obtain ⟨request, hrequest, hm⟩ := h.filed m r hr
    obtain ⟨request', hrequest', hm'⟩ := hrequests.kept r request hrequest
    exact ⟨request', hrequest', hm'.trans hm⟩
  timely := by
    intro r request' hr hstatus
    rcases hrequests.timely r request' hr hstatus with hold | htime
    · exact h.timely r request' hold hstatus
    · exact htime
  vaultRegistry := hregistry
  vaultTokens := htokens

/-- A mark of the oracle keeps the terms. -/
theorem TermsKept.mark {r r' : RegistryState} {m : MarketId} {next : MarketStatus}
    (hr : Ordered r) (h : Registry.oracleMark next ctx r m = .ok r') : TermsKept r r' := by
  obtain ⟨_, _, h⟩ := bind_ok.mp h
  exact .transition hr h

/-- So does the final outcome. -/
theorem TermsKept.final {r r' : RegistryState} {m : MarketId} {outcome : Outcome}
    (hr : Ordered r) (h : Registry.setFinalOutcome ctx r m outcome = .ok r') : TermsKept r r' :=
  RegistryOp.exec_terms hr (by simp) (show (RegistryOp.setFinalOutcome m outcome).exec ctx r =
    .ok r' from h)

/-- A reported outcome keeps terms, requests and the vault's roles. -/
theorem report_kept (hlock : Lockstep w) {k : ℕ} {outcome : Outcome}
    (h : Oracle.reportCouncilOutcome ctx w k outcome = .ok w') :
    TermsKept w.registry w'.registry ∧ RequestsKept w.oracle w'.oracle ∧
      w'.vault.roles = w.vault.roles := by
  obtain ⟨request, market, w1, called, reg, hk, _, _, hdivide, hset, rfl⟩ :=
    Oracle.reportCouncilOutcome_steps h
  have hbonds := Oracle.BondsOnly.divideBonds hdivide
  have hvault : w1.vault.roles = w.vault.roles := by
    refine Oracle.divideBonds_keeps (I := fun s => s.vault.roles = w.vault.roles) ?_
      (fun _ _ _ hs => hs) hdivide rfl
    intro ctx s s' token user recipient r x d hpay hs
    obtain ⟨_, _, _, _, _, _, _, _, _, _, rfl⟩ := Vault.payBond_ok.mp hpay
    exact hs
  refine ⟨.final hlock.markets hset, ?_, hvault⟩
  exact .write hlock.requests hk rfl rfl (fun hk => by cases hk)

/-- Every invocation of the oracle but a request for resolution keeps them. -/
theorem oracle_kept (hlock : Lockstep w) {op : OracleOp}
    (hop : ∀ m questionHash rulesUri expiry bondAmount disputeWindow,
      op ≠ .requestResolution m questionHash rulesUri expiry bondAmount disputeWindow)
    (h : op.exec ctx w = .ok w') : TermsKept w.registry w'.registry ∧
      RequestsKept w.oracle w'.oracle ∧ w'.vault.roles = w.vault.roles := by
  have hsetting : op.isSetting = true → TermsKept w.registry w'.registry ∧
      RequestsKept w.oracle w'.oracle ∧ w'.vault.roles = w.vault.roles := by
    intro hop
    obtain ⟨admin, roles, paused, rfl⟩ := OracleOp.exec_setting hop h
    exact ⟨.of_eq rfl, .of_eq rfl rfl, rfl⟩
  cases op with
  | setAdmin admin => exact hsetting rfl
  | upgrade wasmHash => exact hsetting rfl
  | setRole role module => exact hsetting rfl
  | pause paused => exact hsetting rfl
  | requestResolution => exact absurd rfl (hop _ _ _ _ _ _)
  | proposeOutcome proposer k outcome uri =>
    obtain ⟨request, market, w1, called, reg, hk, _, _, htime, _, hlocked, hmark, rfl⟩ :=
      Oracle.proposeOutcome_steps h
    obtain ⟨_, _, b, _, _, rfl⟩ := Vault.lockBond_ok hlocked
    exact ⟨.mark hlock.markets hmark, .write hlock.requests hk rfl rfl (fun _ => htime), rfl⟩
  | disputeOutcome disputer k outcome uri =>
    obtain ⟨request, market, w1, called, reg, hk, _, _, _, _, _, hlocked, hmark, rfl⟩ :=
      Oracle.disputeOutcome_steps h
    obtain ⟨_, _, b, _, _, rfl⟩ := Vault.lockBond_ok hlocked
    exact ⟨.mark hlock.markets hmark, .write hlock.requests hk rfl rfl (fun hk => by cases hk), rfl⟩
  | finalizeUndisputed k =>
    obtain ⟨outcome, h⟩ := world_ok.mp h
    obtain ⟨request, market, called, reg, w1, hk, _, _, _, _, hset, hpay, rfl⟩ :=
      Oracle.finalizeUndisputed_steps h
    obtain ⟨_, _, _, _, _, _, _, _, _, _, rfl⟩ := Vault.payBond_ok.mp hpay
    exact ⟨.final hlock.markets hset,
      .write hlock.requests hk rfl rfl (fun hk => by cases hk), rfl⟩
  | escalateToCouncil k =>
    obtain ⟨request, market, called, caseId, c, reg, hk, _, _, _, hmark, rfl⟩ :=
      Oracle.escalateToCouncil_steps h
    exact ⟨.mark hlock.markets hmark, .write hlock.requests hk rfl rfl (fun hk => by cases hk), rfl⟩
  | reportCouncilOutcome k outcome => exact report_kept hlock h

/-- A request for resolution is accepted of an expired market that is live or closed. -/
theorem requestResolution_guards {m : MarketId} {questionHash : Hash} {rulesUri : String}
    {expiry requestId : ℕ} {bondAmount : ℤ} {disputeWindow : ℕ}
    (h : Oracle.requestResolution ctx w m questionHash rulesUri expiry bondAmount disputeWindow =
      .ok (requestId, w')) :
    w.oracle.nextRequestId + 1 ≤ u64Max ∧ ∃ market, w.registry.market m = some market ∧
      market.expiry ≤ ctx.now ∧ (market.status = .live ∨ market.status = .tradingClosed) := by
  unfold Oracle.requestResolution at h
  obtain ⟨_, _, h⟩ := bind_ok.mp h
  obtain ⟨_, _, h⟩ := bind_ok.mp h
  obtain ⟨market, hmarket, h⟩ := bind_ok.mp h
  obtain ⟨_, _, h⟩ := bind_ok.mp h
  obtain ⟨_, hexpired, h⟩ := bind_ok.mp h
  obtain ⟨_, _, h⟩ := bind_ok.mp h
  obtain ⟨w1, h1, h⟩ := bind_ok.mp h
  obtain ⟨_, _, h⟩ := bind_ok.mp h
  obtain ⟨next, hnext, _⟩ := bind_ok.mp h
  have hsame : w1.oracle = w.oracle := by
    split at h1
    · obtain ⟨_, _, r1, _, rfl⟩ := Oracle.callRegistry_ok.mp h1
      rfl
    · obtain ⟨_, _, h1⟩ := bind_ok.mp h1
      rw [← pure_ok.mp h1]
  rw [hsame] at hnext
  refine ⟨(checkedAddU64_ok.mp hnext).2, market, (Oracle.loadMarket_ok.mp hmarket).2.2,
    not_lt.mp (refuse_ok.mp hexpired), ?_⟩
  split at h1
  · next hlive => exact Or.inl hlive
  · obtain ⟨_, hclosed, _⟩ := bind_ok.mp h1
    exact Or.inr (not_not.mp (refuse_ok.mp hclosed))

/-- A request for resolution is made after the expiry and filed under its market. -/
theorem Agenda.request (h : Agenda w now) (hlock : Lockstep w) (hnow : now ≤ ctx.now) {m : MarketId}
    {questionHash : Hash} {rulesUri : String} {expiry requestId : ℕ} {bondAmount : ℤ}
    {disputeWindow : ℕ}
    (hrequest : Oracle.requestResolution ctx w m questionHash rulesUri expiry bondAmount
      disputeWindow = .ok (requestId, w')) : Agenda w' ctx.now := by
  obtain ⟨_, market0, hm0, hexpired, _⟩ := requestResolution_guards hrequest
  obtain ⟨r1, r2, called, hclose, hmark, rfl, _, _, _, rfl⟩ :=
    Oracle.requestResolution_steps hrequest
  have hclosed : Ordered r1 ∧ TermsKept w.registry r1 := by
    rcases hclose with rfl | hclose
    · exact ⟨hlock.markets, .of_eq rfl⟩
    · have hexec : (RegistryOp.closeTrading m).exec called w.registry = .ok r1 := hclose
      exact ⟨(RegistryOp.exec_follow hexec).ordered hlock.markets,
        RegistryOp.exec_terms hlock.markets (by simp) hexec⟩
  have hbefore : Agenda { w with registry := r1 } ctx.now :=
    h.keep hnow hclosed.2 (.of_eq rfl rfl) h.vaultRegistry h.vaultTokens
  obtain ⟨_, _, hmark⟩ := bind_ok.mp hmark
  obtain ⟨market, hread, hmark⟩ := bind_ok.mp hmark
  obtain ⟨_, _, hmark⟩ := bind_ok.mp hmark
  obtain rfl := pure_ok.mp hmark
  have hm := orFault_ok.mp hread
  have hid := (hclosed.1.registered m market hm).1
  have hmarkets : ∀ k, (Registry.writeMarket r1 { market with
      status := .resolutionRequested, hasRequest := true,
      requestId := w.oracle.nextRequestId }).market k =
        if k = m then some { market with
          status := .resolutionRequested, hasRequest := true,
          requestId := w.oracle.nextRequestId } else r1.market k := by
    intro k
    unfold Registry.writeMarket
    dsimp only
    rw [hid, Store.set_get]
  refine ⟨?_, ?_, ?_, ?_, h.vaultRegistry, h.vaultTokens⟩
  · intro k stored hk
    dsimp only at hk
    rw [hmarkets] at hk
    split at hk
    · obtain rfl := Option.some.inj hk
      obtain ⟨hrules, hbond, hwindow, hexpiry⟩ := hbefore.terms m market hm
      exact ⟨hrules, hbond, hwindow, hexpiry⟩
    · exact hbefore.terms k stored hk
  · intro k stored hk hasked
    dsimp only at hk
    rw [hmarkets] at hk
    split at hk
    · obtain rfl := Option.some.inj hk
      rcases hclosed.2 m market hm with ⟨old, hold, hsame, _⟩ | ⟨hnew, _⟩
      · rw [hm0] at hold
        obtain rfl := Option.some.inj hold
        exact hsame.expiry.trans_le hexpired
      · rw [hm0] at hnew
        cases hnew
    · exact hbefore.due k stored hk hasked
  · intro k r hr
    dsimp only at hr
    rw [Store.set_get] at hr
    unfold Oracle.writeRequest
    dsimp only [Oracle.newRequest]
    split at hr
    · next heq =>
      obtain rfl := Option.some.inj hr
      exact ⟨_, Store.set_get_self _ _ _, heq.symm⟩
    · obtain ⟨request, hstored, hmarket⟩ := h.filed k r hr
      refine ⟨request, ?_, hmarket⟩
      rw [Store.set_get_of_ne _ _ (Nat.ne_of_lt (hlock.requests r request hstored).2)]
      exact hstored
  · intro r request hr hstatus
    unfold Oracle.writeRequest at hr
    dsimp only [Oracle.newRequest] at hr
    rw [Store.set_get] at hr
    split at hr
    · obtain rfl := Option.some.inj hr
      cases hstatus
    · exact h.timely r request hr hstatus

end Steps

/-- The vault keeps reading the registry and the tokens. -/
def CourtStep.KeepsReads : CourtStep → Prop
  | call _ (.vault (.setRole .registry module)) => module = .contract .registry
  | call _ (.vault (.setRole .tokens module)) => module = .contract .tokens
  | _ => True

/-- What a run may do for its agenda to stand: governance moves early markets only, and nobody
rewires the contracts. -/
structure CourtStep.KeepsAgenda (w : World) (step : CourtStep) : Prop where
  early : step.GovernsEarly w
  wires : step.KeepsWires
  reads : step.KeepsReads

section Runs

variable {ctx : Ctx} {w w' : World}

/-- Every invocation of the vault keeps what it reads. -/
theorem vault_reads (hctx : Outside .vault ctx) (hsane : Sane w.vault) {op : VaultOp}
    (hregistry : w.vault.roles .registry = some (.contract .registry))
    (htokens : w.vault.roles .tokens = some (.contract .tokens))
    (hreads : (CourtStep.call ctx (.vault op)).KeepsReads) (h : op.exec ctx w = .ok w') :
    w'.vault.roles .registry = some (.contract .registry) ∧
      w'.vault.roles .tokens = some (.contract .tokens) := by
  by_cases hrewires : (Trading.TradeOp.vault op).rewires = true
  · cases op with
    | upgrade wasmHash =>
      obtain ⟨_, _, h⟩ := bind_ok.mp h
      obtain rfl := pure_ok.mp h
      exact ⟨hregistry, htokens⟩
    | setRole role module =>
      obtain rfl := Vault.admin_ok h
      refine ⟨role_set hregistry ?_, role_set htokens ?_⟩
      · rintro rfl
        exact hreads
      · rintro rfl
        exact hreads
    | _ => cases hrewires
  · rw [Trading.vaultExec_roles hctx hsane (Bool.eq_false_iff.mpr hrewires) h]
    exact ⟨hregistry, htokens⟩

/-- Every move of a run keeps the agenda. -/
theorem CourtMove.agenda {now : ℕ} (hctx : Apart ctx) (hw : Standing w) (ha : Agenda w now)
    (hnow : now ≤ ctx.now) {op : CourtOp} (hreads : (CourtStep.call ctx op).KeepsReads)
    (h : CourtMove ctx w op w') : Agenda w' ctx.now := by
  cases h with
  | council _ horacle hregistry hvault _ =>
    exact ha.keep hnow (.of_eq (by rw [hregistry])) (.of_eq (by rw [horacle]) (by rw [horacle]))
      (by rw [hvault]; exact ha.vaultRegistry) (by rw [hvault]; exact ha.vaultTokens)
  | @tally caseId c case outcome _ _ _ hreport =>
    have hlock : Lockstep { w with council := c } :=
      hw.lockstep.same rfl rfl rfl rfl hw.lockstep.markets rfl
    obtain ⟨hterms, hrequests, hroles⟩ := report_kept hlock hreport
    exact ha.keep hnow hterms hrequests (by rw [hroles]; exact ha.vaultRegistry)
      (by rw [hroles]; exact ha.vaultTokens)
  | @oracle op _ hexec =>
    by_cases hop : ∃ m questionHash rulesUri expiry bondAmount disputeWindow,
        op = .requestResolution m questionHash rulesUri expiry bondAmount disputeWindow
    · obtain ⟨_, _, _, _, _, _, rfl⟩ := hop
      obtain ⟨requestId, hexec⟩ := world_ok.mp hexec
      exact ha.request hw.lockstep hnow hexec
    · obtain ⟨hterms, hrequests, hroles⟩ := oracle_kept hw.lockstep
        (fun m q u e b d hk => hop ⟨m, q, u, e, b, d, hk⟩) hexec
      exact ha.keep hnow hterms hrequests (by rw [hroles]; exact ha.vaultRegistry)
        (by rw [hroles]; exact ha.vaultTokens)
  | @registry op r hexec =>
    refine ha.keep hnow (RegistryOp.exec_terms hw.lockstep.markets ?_ hexec) (.of_eq rfl rfl)
      ha.vaultRegistry ha.vaultTokens
    -- only the oracle marks a request
    rintro m requestId rfl
    obtain ⟨_, hauth, _⟩ := bind_ok.mp hexec
    exact Trading.requireRole_outside hctx.2.1 hw.lockstep.wired hauth
  | @vault op _ horacle hregistry hcouncil hexec =>
    obtain ⟨hreadsRegistry, hreadsTokens⟩ := vault_reads hctx.2.2.2 hw.bonds.sane
      ha.vaultRegistry ha.vaultTokens hreads hexec
    exact ha.keep hnow (.of_eq (by rw [hregistry])) (.of_eq (by rw [horacle]) (by rw [horacle]))
      hreadsRegistry hreadsTokens

/-- A deployment has an empty agenda. -/
theorem Agenda.deployed (l : Launch) (now : ℕ) : Agenda (deploy l) now where
  terms := by
    intro m market hm
    cases hm
  due := by
    intro m market hm
    cases hm
  filed := by
    intro m r hr
    cases hr
  timely := by
    intro r request hr
    cases hr
  vaultRegistry := rfl
  vaultTokens := rfl

/-- Every run that keeps the agenda stands and has one. -/
theorem agenda_runs {s : World × ℕ}
    (h : court.Guarded (fun s step => step.KeepsAgenda s.1) s) :
    Standing s.1 ∧ Agenda s.1 s.2 := by
  have hstanding : ∀ s, court.Guarded (fun s step => step.KeepsAgenda s.1) s → Standing s.1 :=
    fun s hs => (standing_runs (hs.mono fun _ _ hok => ⟨hok.early, hok.wires⟩)).1
  refine ⟨hstanding s h, ?_⟩
  refine h.invariant_with hstanding (I := fun s => Agenda s.1 s.2) ?_ ?_
  · rintro s ⟨l, hl⟩
    rw [hl]
    exact .deployed l _
  · intro s step s' hs ha hok hstep
    rcases court_step hstep with ⟨ctx, op, rfl, hapart, hnow, _, htime, hmove⟩ | ⟨around, rfl, rfl⟩
    · rw [htime]
      exact hmove.agenda hapart hs ha hnow hok.reads
    · exact ha.keep le_rfl (.of_eq rfl) (.of_eq rfl rfl) ha.vaultRegistry ha.vaultTokens

end Runs

end DikeProtocol.Resolution
