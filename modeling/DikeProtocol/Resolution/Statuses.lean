import DikeProtocol.Deployment
import DikeProtocol.Lib.Run

/-!
# Resolved markets and their outcomes

The registry alone, invoked by anyone in any order. The oracle resolves a
market together with its outcome; the transition table, which governance may
walk by hand, leads from the council's vote to the resolved status as well, and
that way no outcome is set.
-/

namespace DikeProtocol.Registry

open Lib

/-- Runs of the registry from its constructor. -/
def registrySystem : System RegistryState (Ctx × RegistryOp) Fault where
  Init := fun r => ∃ admin, r = freshRegistry admin
  step := fun r call => call.2.exec call.1 r

/-- Governance sets the resolved status by hand. -/
def RegistryOp.ResolvesByHand : RegistryOp → Prop
  | .setStatus _ .resolved => True
  | _ => False

/-- Every resolved market has its outcome. -/
def ResolvedFinal (r : RegistryState) : Prop :=
  ∀ m market, r.market m = some market → market.status = .resolved → market.hasFinalOutcome = true

section Steps

variable {ctx : Ctx} {r r' : RegistryState} {m : MarketId} {next : MarketStatus}

/-- Storing a market that is not resolved, or resolved with its outcome. -/
theorem ResolvedFinal.write (h : ResolvedFinal r) {market : MarketData}
    (hm : market.status = .resolved → market.hasFinalOutcome = true) :
    ResolvedFinal (writeMarket r market) := by
  intro k stored hk hstatus
  unfold writeMarket at hk
  dsimp only at hk
  rw [Store.set_get] at hk
  split at hk
  · obtain rfl := Option.some.inj hk
    exact hm hstatus
  · exact h k stored hk hstatus

/-- A transition to any other status resolves nothing. -/
theorem ResolvedFinal.transition (h : ResolvedFinal r) (hnext : next ≠ .resolved)
    (ht : transitionInternal r m next = .ok r') : ResolvedFinal r' := by
  unfold transitionInternal at ht
  obtain ⟨market, _, ht⟩ := bind_ok.mp ht
  obtain ⟨_, _, ht⟩ := bind_ok.mp ht
  rw [← pure_ok.mp ht]
  exact h.write (fun hk => absurd hk hnext)

/-- Every invocation but the status by hand keeps resolved markets final. -/
theorem ResolvedFinal.exec (hr : ResolvedFinal r) {op : RegistryOp} (hop : ¬op.ResolvesByHand)
    (h : op.exec ctx r = .ok r') : ResolvedFinal r' := by
  cases op with
  | setAdmin admin =>
    obtain ⟨_, _, h⟩ := bind_ok.mp h
    rw [← pure_ok.mp h]
    exact hr
  | upgrade wasmHash =>
    obtain ⟨_, _, h⟩ := bind_ok.mp h
    rw [← pure_ok.mp h]
    exact hr
  | setRole role module =>
    obtain ⟨_, _, h⟩ := bind_ok.mp h
    rw [← pure_ok.mp h]
    exact hr
  | setSupportedCollateral collateral supported =>
    obtain ⟨_, _, h⟩ := bind_ok.mp h
    rw [← pure_ok.mp h]
    exact hr
  | pauseSystem paused =>
    obtain ⟨_, _, h⟩ := bind_ok.mp h
    rw [← pure_ok.mp h]
    exact hr
  | registerMarket config yesTokenId noTokenId poolId =>
    obtain ⟨⟨id, r1⟩, h1, h⟩ := bind_ok.mp h
    obtain rfl := pure_ok.mp h
    unfold Registry.registerMarket at h1
    obtain ⟨_, _, h1⟩ := bind_ok.mp h1
    obtain ⟨_, _, h1⟩ := bind_ok.mp h1
    obtain ⟨_, _, h1⟩ := bind_ok.mp h1
    obtain ⟨_, rfl⟩ := Prod.mk.inj (pure_ok.mp h1)
    exact hr.write (fun hk => by cases hk)
  | setFeeConfig m feeConfig =>
    obtain ⟨_, _, h⟩ := bind_ok.mp h
    obtain ⟨_, _, h⟩ := bind_ok.mp h
    obtain ⟨market, hm, h⟩ := bind_ok.mp h
    obtain ⟨_, _, h⟩ := bind_ok.mp h
    rw [← pure_ok.mp h]
    exact hr.write (hr m market (orFault_ok.mp hm))
  | setStatus m next =>
    obtain ⟨_, _, h⟩ := bind_ok.mp h
    refine hr.transition ?_ h
    rintro rfl
    exact hop trivial
  | activateMarket m =>
    obtain ⟨_, _, h⟩ := bind_ok.mp h
    exact hr.transition (by decide) h
  | closeTrading m =>
    obtain ⟨_, _, h⟩ := bind_ok.mp h
    obtain ⟨_, _, h⟩ := bind_ok.mp h
    exact hr.transition (by decide) h
  | markResolutionRequested m requestId =>
    obtain ⟨_, _, h⟩ := bind_ok.mp h
    obtain ⟨market, _, h⟩ := bind_ok.mp h
    obtain ⟨_, _, h⟩ := bind_ok.mp h
    rw [← pure_ok.mp h]
    exact hr.write (fun hk => by cases hk)
  | markProposed m =>
    obtain ⟨_, _, h⟩ := bind_ok.mp h
    exact hr.transition (by decide) h
  | markDisputed m =>
    obtain ⟨_, _, h⟩ := bind_ok.mp h
    exact hr.transition (by decide) h
  | markCouncilVoting m =>
    obtain ⟨_, _, h⟩ := bind_ok.mp h
    exact hr.transition (by decide) h
  | setFinalOutcome m outcome =>
    obtain ⟨_, market, _, _, _, rfl⟩ := setFinalOutcome_ok.mp h
    exact hr.write (fun _ => rfl)
  | cancelMarket m =>
    obtain ⟨_, _, h⟩ := bind_ok.mp h
    exact hr.transition (by decide) h

/-- What lasts of a market: its outcome once set, and that it ended. -/
structure Lasts (market market' : MarketData) : Prop where
  final : market.hasFinalOutcome = true →
    market'.hasFinalOutcome = true ∧ market'.finalOutcome = market.finalOutcome
  resolved : market.status = .resolved → market'.status = .resolved
  cancelled : market.status = .cancelled → market'.status = .cancelled
  /-- An outcome comes with the resolved status. -/
  ended : market'.hasFinalOutcome = true → market'.status = .resolved

/-- What lasts survives every move of the market. -/
theorem Lasts.follow {market moved moved' : MarketData} (h : Lasts market moved)
    (hf : Follows moved moved') : Lasts market moved' := by
  rcases hf with ⟨hs, hh, ho⟩ | ⟨hv, hh, ho⟩ | ⟨hopen, hs, hs', _⟩
  · refine ⟨?_, ?_, ?_, ?_⟩
    · intro hk
      exact ⟨hh.trans (h.final hk).1, ho.trans (h.final hk).2⟩
    · exact fun hk => hs.trans (h.resolved hk)
    · exact fun hk => hs.trans (h.cancelled hk)
    · exact fun hk => hs.trans (h.ended (hh.symm.trans hk))
  · -- the table leads out of neither end
    refine ⟨?_, ?_, ?_, ?_⟩
    · intro hk
      exact ⟨hh.trans (h.final hk).1, ho.trans (h.final hk).2⟩
    · intro hk
      rw [h.resolved hk] at hv
      cases hv
    · intro hk
      rw [h.cancelled hk] at hv
      cases hv
    · intro hk
      rw [h.ended (hh.symm.trans hk)] at hv
      cases hv
  · refine ⟨?_, fun _ => hs', ?_, fun _ => hs'⟩
    · intro hk
      rw [(h.final hk).1] at hopen
      cases hopen
    · intro hk
      rw [h.cancelled hk] at hs
      rcases hs with hs | hs
      · cases hs
      · cases hs

/-- Markets are ordered in every run. -/
theorem registry_ordered {ok : RegistryState → Ctx × RegistryOp → Prop}
    (h : registrySystem.Guarded ok r) : Ordered r := by
  refine h.invariant (I := Ordered) ?_ (fun _ _ _ hr _ hs => (RegistryOp.exec_follow hs).ordered hr)
  rintro r ⟨admin, rfl⟩
  constructor
  · intro m market hm
    cases hm
  · intro m market hm
    cases hm

/-- What a market has come to lasts through any run. -/
theorem lasts_runs (hr : Ordered r) {market : MarketData} (hm : r.market m = some market)
    (calls : List (Ctx × RegistryOp)) (h : registrySystem.runs r calls = .ok r') :
    ∃ market', r'.market m = some market' ∧ Lasts market market' := by
  have hstart : Ordered r ∧ ∃ market', r.market m = some market' ∧ Lasts market market' :=
    ⟨hr, market, hm, ⟨fun hk => ⟨hk, rfl⟩, id, id, hr.finalResolved m market hm⟩⟩
  refine (System.runs_keep (S := registrySystem)
    (I := fun s => Ordered s ∧ ∃ market', s.market m = some market' ∧ Lasts market market')
    ?_ hstart calls h).2
  rintro s call s' ⟨hs, hlasts⟩ hstep
  have hfollow := RegistryOp.exec_follow hstep
  exact ⟨hfollow.ordered hs, hfollow.kept hs (fun _ _ hf _ hk => hk.follow hf) hlasts⟩

end Steps

/-- In a run in which governance never sets the resolved status by hand, a
market is resolved exactly when it has its outcome, which holders can read; in
every continuation the outcome stays, and an ended market stays ended. -/
theorem resolved_iff_final {r : RegistryState}
    (h : registrySystem.Guarded (fun _ call => ¬call.2.ResolvesByHand) r) {m : MarketId}
    {market : MarketData} (hm : r.market m = some market) :
    (market.status = .resolved ↔ market.hasFinalOutcome = true) ∧
      (market.status = .resolved → ∃ outcome, getFinalOutcome r m = .ok outcome) ∧
      ∀ calls r', registrySystem.runs r calls = .ok r' →
        ∃ market', r'.market m = some market' ∧ Lasts market market' := by
  have hordered := registry_ordered h
  have hfinal : ResolvedFinal r := by
    refine h.invariant (I := ResolvedFinal) ?_ (fun _ _ _ hr hop hs => hr.exec hop hs)
    rintro r ⟨admin, rfl⟩ k stored hk
    cases hk
  refine ⟨⟨hfinal m market hm, hordered.finalResolved m market hm⟩, ?_, ?_⟩
  · intro hstatus
    exact ⟨_, getFinalOutcome_ok.mpr ⟨market, hm, hfinal m market hm hstatus, rfl⟩⟩
  · exact fun calls r' hcalls => lasts_runs hordered hm calls hcalls

/-- The administrator wires a fresh registry, and market 1 is voted on. -/
def votedOn : List (Ctx × RegistryOp) :=
  [(bySigner (.account 1), .setRole .factory (.contract .factory)),
    (bySigner (.account 1), .setRole .oracle (.contract .oracle)),
    (bySigner (.account 1), .setRole .gov (.account 2)),
    (bySigner (.account 1), .setSupportedCollateral sampleToken true),
    (byFactory, .registerMarket sampleConfig 2 3 1),
    (byFactory, .activateMarket 1),
    (⟨1000, [], []⟩, .closeTrading 1),
    (⟨1000, [], [.contract .oracle]⟩, .markResolutionRequested 1 1),
    (⟨1000, [], [.contract .oracle]⟩, .markProposed 1),
    (⟨1000, [], [.contract .oracle]⟩, .markDisputed 1),
    (⟨1000, [], [.contract .oracle]⟩, .markCouncilVoting 1)]

/-- The oracle resolves market 1 for yes. -/
def resolvedByOracle : List (Ctx × RegistryOp) :=
  votedOn ++ [(⟨1300, [], [.contract .oracle]⟩, .setFinalOutcome 1 .yes)]

/-- Governance resolves market 1 by its status. -/
def resolvedByHand : List (Ctx × RegistryOp) :=
  votedOn ++ [(⟨1300, [.account 2], []⟩, .setStatus 1 .resolved)]

/-- The market the oracle resolved has its outcome. -/
theorem resolved_iff_final_by_oracle : ∃ r market, registrySystem.runs (freshRegistry (.account 1))
    resolvedByOracle = .ok r ∧ r.market 1 = some market ∧ market.status = .resolved ∧
      (market.status = .resolved ↔ market.hasFinalOutcome = true) := by
  have hguard : ∀ call ∈ resolvedByOracle, ¬call.2.ResolvesByHand := by
    simp [resolvedByOracle, votedOn, RegistryOp.ResolvesByHand]
  obtain ⟨r, hr, hmarket⟩ := System.runs_of_decide (S := registrySystem)
    (freshRegistry (.account 1)) resolvedByOracle
    (fun r => (r.market 1).map MarketData.status = some .resolved) (by decide +kernel)
  obtain ⟨market, hm, hstatus⟩ := Option.map_eq_some_iff.mp (of_decide_eq_true hmarket)
  have hrun : registrySystem.Guarded (fun _ call => ¬call.2.ResolvesByHand) r :=
    System.Guarded.runs (.init ⟨_, rfl⟩) resolvedByOracle hguard hr
  exact ⟨r, market, hr, hm, hstatus, (resolved_iff_final hrun hm).1⟩

/-- A market under vote that governance sets to resolved has no outcome. -/
theorem not_always_resolved_final : ¬∀ r, registrySystem.Reachable r → ∀ m market,
    r.market m = some market → (market.status = .resolved ↔ market.hasFinalOutcome = true) := by
  intro hall
  obtain ⟨r, hr, hmarket⟩ := System.runs_of_decide (S := registrySystem)
    (freshRegistry (.account 1)) resolvedByHand
    (fun r => (r.market 1).map (fun market => (market.status, market.hasFinalOutcome)) =
      some (.resolved, false)) (by decide +kernel)
  obtain ⟨market, hm, hpair⟩ := Option.map_eq_some_iff.mp (of_decide_eq_true hmarket)
  obtain ⟨hstatus, hhas⟩ := Prod.mk.inj hpair
  have hreach := System.Reachable.runs (S := registrySystem) (.init ⟨_, rfl⟩) resolvedByHand hr
  rw [(hall r hreach 1 market hm).mp hstatus] at hhas
  cases hhas

end DikeProtocol.Registry
