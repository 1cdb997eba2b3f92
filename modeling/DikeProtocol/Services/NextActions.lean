import DikeProtocol.Lib.Double
import DikeProtocol.Resolution.Calls

/-!
# The next actions that are suggested

The service derives from the rows of a market and its request what can be done
next for its resolution. It reads their times as doubles. The contracts have
guards of their own: a market that expired while it is live can be resolved as
well, a cancelled one is redeemed without waiting for its expiry, and the last
second of a window belongs to the dispute.
-/

namespace DikeProtocol.Services

open Lib
open Oracle (OracleOp)
open Resolution (court Standing Agenda Accepts Redeemable CourtOp Corresponds Paired)
open Vault (VaultOp bondTotal)

/-- What the service suggests to do next. -/
inductive NextAction where
  | requestResolution
  | proposeOutcome
  | awaitDisputeSettlement
  | dispute
  | finalizeUndisputed
  | escalateToCouncil
  | monitorCommitReveal
  | redeem
  deriving DecidableEq, Repr

/-- What the rows of a market and its request say at a time: its numbers are
those that a double keeps. -/
structure ResolutionView where
  status : Option MarketStatus
  expiry : Option ℕ
  now : ℕ
  hasProposal : Option Bool
  hasDispute : Option Bool
  proposedAt : Option ℕ
  disputeWindow : Option ℕ

/-- What each status suggests. -/
def actionsOf (input : ResolutionView) : MarketStatus → List NextAction
  | .tradingClosed => [.requestResolution]
  | .resolutionRequested => [.proposeOutcome]
  | .proposed =>
    if input.hasDispute = some true then [.awaitDisputeSettlement]
    else if toDouble (input.proposedAt.getD 0 + input.disputeWindow.getD 0) > input.now then
      [.dispute]
    else [.finalizeUndisputed]
  | .disputed => [.escalateToCouncil]
  | .councilVoting => [.monitorCommitReveal]
  | .resolved | .cancelled => [.redeem]
  | .created | .live | .paused => []

/-- The suggestions: none without a status or before the expiry, else by status. -/
def deriveResolutionNextActions (input : ResolutionView) : List NextAction :=
  match input.status with
  | none => []
  | some status =>
    let expiry := input.expiry.getD 0
    -- a missing expiry and one of zero are both falsy
    if expiry ≠ 0 ∧ input.now < expiry then [] else actionsOf input status

/-- The request stored for a market. -/
def requestOf (w : World) (m : MarketId) : Option ResolutionRequest :=
  (w.oracle.marketRequest m).bind w.oracle.request

/-- What the service sees of a market and its request: `Number` rounds each time. -/
def resolutionView (w : World) (m : MarketId) (now : ℕ) : ResolutionView where
  status := (w.registry.market m).map MarketData.status
  expiry := (w.registry.market m).map (fun market => toDouble market.expiry)
  now := toDouble now
  hasProposal := (requestOf w m).map ResolutionRequest.hasProposal
  hasDispute := (requestOf w m).map ResolutionRequest.hasDispute
  proposedAt := (requestOf w m).map (fun request => toDouble request.proposedAt)
  disputeWindow := (requestOf w m).map (fun request => toDouble request.disputeWindow)

/-- What the service suggests for a market. -/
def suggestions (w : World) (m : MarketId) (now : ℕ) : List NextAction :=
  deriveResolutionNextActions (resolutionView w m now)

/-- The contracts accept the call of an action, with some arguments that match the market. -/
def CallAccepted (s : World × ℕ) (m : MarketId) (now : ℕ) : NextAction → Prop
  | .requestResolution => ∃ questionHash rulesUri expiry bondAmount disputeWindow, Accepts s now
      (.oracle (.requestResolution m questionHash rulesUri expiry bondAmount disputeWindow))
  | .proposeOutcome => ∃ r, s.1.oracle.marketRequest m = some r ∧ ∃ proposer outcome uri,
      Accepts s now (.oracle (.proposeOutcome proposer r outcome uri))
  | .dispute => ∃ r, s.1.oracle.marketRequest m = some r ∧ ∃ disputer outcome uri,
      Accepts s now (.oracle (.disputeOutcome disputer r outcome uri))
  | .finalizeUndisputed => ∃ r, s.1.oracle.marketRequest m = some r ∧
      Accepts s now (.oracle (.finalizeUndisputed r))
  | .escalateToCouncil => ∃ r, s.1.oracle.marketRequest m = some r ∧
      Accepts s now (.oracle (.escalateToCouncil r))
  | .redeem => ∃ token user outcome amount,
      Accepts s now (.vault (.redeemResolved token user m outcome amount)) ∨
      Accepts s now (.vault (.redeemCancelled token user m outcome amount))
  | .awaitDisputeSettlement | .monitorCommitReveal => False

/-- The actions that stand for a call. -/
def callActions : List NextAction :=
  [.requestResolution, .proposeOutcome, .dispute, .finalizeUndisputed, .escalateToCouncil, .redeem]

/-- What the guards of the contracts come to. -/
def Admitted (s : World × ℕ) (m : MarketId) (market : MarketData) (now : ℕ) : NextAction → Prop
  | .requestResolution => market.expiry ≤ now ∧
      (market.status = .live ∨ market.status = .tradingClosed) ∧
      s.1.oracle.nextRequestId + 1 ≤ u64Max
  | .proposeOutcome => market.status = .resolutionRequested ∧ ∃ request,
      requestOf s.1 m = some request ∧ now + request.disputeWindow ≤ u64Max ∧
        InRange (bondTotal (s.1.vault.accounting m) false + request.bondAmount)
  | .dispute => market.status = .proposed ∧ ∃ request,
      requestOf s.1 m = some request ∧ now ≤ request.proposedAt + request.disputeWindow ∧
        InRange (bondTotal (s.1.vault.accounting m) true + request.bondAmount)
  | .finalizeUndisputed => market.status = .proposed ∧ ∃ request,
      requestOf s.1 m = some request ∧ request.proposedAt + request.disputeWindow < now
  | .escalateToCouncil => market.status = .disputed ∧ ∃ request,
      requestOf s.1 m = some request ∧
        now + request.disputeWindow + request.disputeWindow ≤ u64Max ∧
        s.1.council.nextCaseId + 1 ≤ u64Max
  | .redeem => (market.status = .resolved ∨ market.status = .cancelled) ∧
      Redeemable s.1.vault m market
  | .awaitDisputeSettlement | .monitorCommitReveal => False

section Guards

variable {s : World × ℕ} {m : MarketId} {market : MarketData} {now : ℕ}

/-- The request stored for a market is the market's, with a status of its own. -/
theorem requestOf_ok (hw : Standing s.1) (ha : Agenda s.1 s.2)
    (hm : s.1.registry.market m = some market) {request : ResolutionRequest}
    (h : requestOf s.1 m = some request) : ∃ r, s.1.oracle.marketRequest m = some r ∧
      s.1.oracle.request r = some request ∧ request.marketId = m ∧ Paired request market := by
  obtain ⟨r, hfiled, hr⟩ := Option.bind_eq_some_iff.mp h
  obtain ⟨stored, hstored, rfl⟩ := ha.filed m r hfiled
  obtain rfl := Option.some.inj (hr.symm.trans hstored)
  exact ⟨r, hfiled, hr, rfl, hw.lockstep.market_of hr hm⟩

/-- A call on the request of a market is accepted when the request stored for it admits it. -/
theorem accepted_onRequest (hw : Standing s.1) (ha : Agenda s.1 s.2)
    (hm : s.1.registry.market m = some market) {P : ℕ → Prop} {Q : ResolutionRequest → Prop}
    (hiff : ∀ r request, s.1.oracle.request r = some request → request.marketId = m →
      Paired request market → (P r ↔ Q request)) :
    (∃ r, s.1.oracle.marketRequest m = some r ∧ P r) ↔
      ∃ request, requestOf s.1 m = some request ∧ Q request := by
  constructor
  · rintro ⟨r, hfiled, hP⟩
    obtain ⟨request, hr, rfl⟩ := ha.filed m r hfiled
    exact ⟨request, Option.bind_eq_some_iff.mpr ⟨r, hfiled, hr⟩,
      (hiff r request hr rfl (hw.lockstep.market_of hr hm)).mp hP⟩
  · rintro ⟨request, hrequest, hQ⟩
    obtain ⟨r, hfiled, hr, hmarket, hpaired⟩ := requestOf_ok hw ha hm hrequest
    exact ⟨r, hfiled, (hiff r request hr hmarket hpaired).mpr hQ⟩

/-- A status of the market's request is a status of the market. -/
theorem admitted_onRequest (hw : Standing s.1) (ha : Agenda s.1 s.2)
    (hm : s.1.registry.market m = some market) {status : Prop} {Q R : ResolutionRequest → Prop}
    (hiff : ∀ request, Paired request market → (Q request ↔ status ∧ R request)) :
    (∃ request, requestOf s.1 m = some request ∧ Q request) ↔
      status ∧ ∃ request, requestOf s.1 m = some request ∧ R request := by
  constructor
  · rintro ⟨request, hrequest, hQ⟩
    obtain ⟨_, _, _, _, hpaired⟩ := requestOf_ok hw ha hm hrequest
    obtain ⟨hstatus, hR⟩ := (hiff request hpaired).mp hQ
    exact ⟨hstatus, request, hrequest, hR⟩
  · rintro ⟨hstatus, request, hrequest, hR⟩
    obtain ⟨_, _, _, _, hpaired⟩ := requestOf_ok hw ha hm hrequest
    exact ⟨request, hrequest, (hiff request hpaired).mpr ⟨hstatus, hR⟩⟩

/-- The status of a request decides the status of its market. -/
theorem corresponds_iff {own : OracleStatus} {status : MarketStatus} (h : Corresponds own status) :
    (own = .requested ↔ status = .resolutionRequested) ∧
      (own = .proposed ↔ status = .proposed) ∧ (own = .disputed ↔ status = .disputed) := by
  cases h <;> decide

/-- The call of an action is accepted exactly when the guards admit it. -/
theorem callAccepted_iff (hw : Standing s.1) (ha : Agenda s.1 s.2)
    (hpaused : s.1.oracle.paused = false) (hfinal : market.status = .resolved →
      market.hasFinalOutcome = true) (hnow : s.2 ≤ now) (hfits : now ≤ u64Max)
    (hm : s.1.registry.market m = some market) (action : NextAction) :
    CallAccepted s m now action ↔ Admitted s m market now action := by
  cases action with
  | requestResolution =>
    exact Resolution.accepts_requestResolution hw ha hpaused hnow hfits hm
  | proposeOutcome =>
    refine (accepted_onRequest hw ha hm (Q := fun request => request.status = .requested ∧
      now + request.disputeWindow ≤ u64Max ∧ InRange (bondTotal (s.1.vault.accounting m) false +
        request.bondAmount)) ?_).trans ?_
    · rintro r request hr rfl _
      exact Resolution.accepts_proposeOutcome hw ha hnow hr
    · refine admitted_onRequest hw ha hm fun request hpaired => ?_
      rw [(corresponds_iff hpaired.status).1]
  | dispute =>
    refine (accepted_onRequest hw ha hm (Q := fun request => request.status = .proposed ∧
      now ≤ request.proposedAt + request.disputeWindow ∧
        InRange (bondTotal (s.1.vault.accounting m) true + request.bondAmount)) ?_).trans ?_
    · rintro r request hr rfl _
      exact Resolution.accepts_disputeOutcome hw ha hnow hr
    · refine admitted_onRequest hw ha hm fun request hpaired => ?_
      rw [(corresponds_iff hpaired.status).2.1]
  | finalizeUndisputed =>
    refine (accepted_onRequest hw ha hm (Q := fun request => request.status = .proposed ∧
      request.proposedAt + request.disputeWindow < now) ?_).trans ?_
    · intro r request hr _ _
      exact Resolution.accepts_finalizeUndisputed hw hnow hfits hr
    · refine admitted_onRequest hw ha hm fun request hpaired => ?_
      rw [(corresponds_iff hpaired.status).2.1]
  | escalateToCouncil =>
    refine (accepted_onRequest hw ha hm (Q := fun request => request.status = .disputed ∧
      now + request.disputeWindow + request.disputeWindow ≤ u64Max ∧
        s.1.council.nextCaseId + 1 ≤ u64Max) ?_).trans ?_
    · intro r request hr _ _
      exact Resolution.accepts_escalateToCouncil hw hnow hr
    · refine admitted_onRequest hw ha hm fun request hpaired => ?_
      rw [(corresponds_iff hpaired.status).2.2]
  | redeem => exact Resolution.accepts_redeem hw ha hnow hfits hm hfinal
  | awaitDisputeSettlement => exact Iff.rfl
  | monitorCommitReveal => exact Iff.rfl

/-- A market that nobody asked for is early, and a later one has its request. -/
theorem early_or_requested (hw : Standing s.1) (hm : s.1.registry.market m = some market) :
    Resolution.Unasked market ∨
      ∃ request, requestOf s.1 m = some request ∧ Paired request market := by
  rcases hw.lockstep.asked m market hm with hfree | ⟨request, hr, rfl⟩
  · exact Or.inl hfree
  · refine Or.inr ⟨request, ?_, hw.lockstep.market_of hr hm⟩
    exact Option.bind_eq_some_iff.mpr ⟨_, hw.lockstep.recorded _ request hr, hr⟩

/-- A resolved market has its outcome. -/
theorem final_of_resolved (hw : Standing s.1) (hm : s.1.registry.market m = some market)
    (hresolved : market.status = .resolved) : market.hasFinalOutcome = true := by
  rcases early_or_requested hw hm with hfree | ⟨request, _, hpaired⟩
  · have hearly := hfree.early
    rw [hresolved] at hearly
    simp at hearly
  · have hstatus := hpaired.status
    rw [hresolved] at hstatus
    generalize hown : request.status = own at hstatus
    cases hstatus
    exact (hpaired.outcome hown).2.1

/-- A market with a request has expired. -/
theorem expired_of_requested (ha : Agenda s.1 s.2) (hnow : s.2 ≤ now)
    (hm : s.1.registry.market m = some market) {request : ResolutionRequest}
    (hpaired : Paired request market) : market.expiry ≤ now :=
  (ha.due m market hm hpaired.asked).trans hnow

end Guards

/-- The end of the window of a proposal, as the service adds it up. -/
def deadlineSeen (request : ResolutionRequest) : ℕ :=
  toDouble (toDouble request.proposedAt + toDouble request.disputeWindow)

/-- When the suggestions for a market agree with the contracts, by its status. -/
def Agrees (s : World × ℕ) (m : MarketId) (market : MarketData) (now : ℕ) : Prop :=
  match market.status with
  | .created | .paused | .councilVoting => True
  | .live => ¬(market.expiry ≤ now ∧ s.1.oracle.nextRequestId + 1 ≤ u64Max)
  | .tradingClosed => if market.expiry ≤ now then s.1.oracle.nextRequestId + 1 ≤ u64Max
      else toDouble now < toDouble market.expiry
  | .resolutionRequested => ∀ request, requestOf s.1 m = some request →
      now + request.disputeWindow ≤ u64Max ∧
        InRange (bondTotal (s.1.vault.accounting m) false + request.bondAmount)
  | .proposed => ∀ request, requestOf s.1 m = some request →
      if now ≤ request.proposedAt + request.disputeWindow then
        toDouble now < deadlineSeen request ∧
          InRange (bondTotal (s.1.vault.accounting m) true + request.bondAmount)
      else deadlineSeen request ≤ toDouble now
  | .disputed => ∀ request, requestOf s.1 m = some request →
      now + request.disputeWindow + request.disputeWindow ≤ u64Max ∧
        s.1.council.nextCaseId + 1 ≤ u64Max
  | .resolved => Redeemable s.1.vault m market
  | .cancelled => Redeemable s.1.vault m market ↔ toDouble market.expiry ≤ toDouble now

section Suggestions

variable {s : World × ℕ} {m : MarketId} {market : MarketData} {now : ℕ}

/-- While the expiry seems ahead, nothing is suggested for a stored market. -/
theorem suggestions_before (hm : s.1.registry.market m = some market)
    (hearly : toDouble now < toDouble market.expiry) : suggestions s.1 m now = [] := by
  unfold suggestions deriveResolutionNextActions resolutionView
  rw [hm]
  exact if_pos ⟨(Nat.zero_le _ |>.trans_lt hearly).ne', hearly⟩

/-- From the expiry on, as it seems, the status decides. -/
theorem suggestions_after (hm : s.1.registry.market m = some market)
    (hexpired : toDouble market.expiry ≤ toDouble now) :
    suggestions s.1 m now = actionsOf (resolutionView s.1 m now) market.status := by
  unfold suggestions deriveResolutionNextActions resolutionView
  rw [hm]
  exact if_neg fun hk => absurd hk.2 (not_lt.mpr hexpired)

/-- A proposal is to be disputed while its deadline seems ahead, and to be
finalized from then on. -/
theorem actionsOf_proposed {request : ResolutionRequest} (hrequest : requestOf s.1 m = some request)
    (hundisputed : request.hasDispute = false) :
    actionsOf (resolutionView s.1 m now) .proposed =
      if toDouble now < deadlineSeen request then [.dispute] else [.finalizeUndisputed] := by
  unfold actionsOf resolutionView
  rw [hrequest]
  have hopen : some request.hasDispute ≠ some true := by
    rw [hundisputed]
    decide
  exact if_neg hopen

/-- Up to `2 ^ 53` a deadline seems ahead exactly when it is. -/
theorem deadlineSeen_iff {request : ResolutionRequest} (hnow : now ≤ 2 ^ 53)
    (hsmall : request.proposedAt + request.disputeWindow ≤ 2 ^ 53) :
    toDouble now < deadlineSeen request ↔ now < request.proposedAt + request.disputeWindow := by
  have hat : toDouble request.proposedAt = request.proposedAt :=
    toDouble_of_le ((Nat.le_add_right _ _).trans hsmall)
  have hwindow : toDouble request.disputeWindow = request.disputeWindow :=
    toDouble_of_le ((Nat.le_add_left _ _).trans hsmall)
  unfold deadlineSeen
  rw [hat, hwindow, toDouble_of_le hsmall, toDouble_of_le hnow]

/-- The suggestions agree with what is admitted exactly as the status says. -/
theorem agrees_iff_admitted (hw : Standing s.1) (ha : Agenda s.1 s.2) (hnow : s.2 ≤ now)
    (hm : s.1.registry.market m = some market) :
    (∀ action ∈ callActions, action ∈ suggestions s.1 m now ↔ Admitted s m market now action) ↔
      Agrees s m market now := by
  have hlate : market.status = .resolutionRequested ∨ market.status = .proposed ∨
      market.status = .disputed ∨ market.status = .councilVoting ∨ market.status = .resolved →
      market.expiry ≤ now ∧ ∃ request, requestOf s.1 m = some request ∧
        Paired request market := by
    intro hstatus
    rcases early_or_requested hw hm with hfree | ⟨request, hrequest, hpaired⟩
    · have hearly := hfree.early
      generalize market.status = status at hstatus hearly
      cases status <;> simp at hstatus hearly
    · exact ⟨expired_of_requested ha hnow hm hpaired, request, hrequest, hpaired⟩
  by_cases hseen : toDouble market.expiry ≤ toDouble now
  · rw [suggestions_after hm hseen]
    cases hstatus : market.status with
    | created => simp [callActions, Admitted, Agrees, actionsOf, hstatus]
    | paused => simp [callActions, Admitted, Agrees, actionsOf, hstatus]
    | live => simp [callActions, Admitted, Agrees, actionsOf, hstatus]
    | tradingClosed =>
      -- rounding can hide an expiry that is still ahead
      by_cases hexpired : market.expiry ≤ now
      · simp [callActions, Admitted, Agrees, actionsOf, hstatus, hexpired]
      · simp [callActions, Admitted, Agrees, actionsOf, hstatus, hexpired, hseen]
    | councilVoting => simp [callActions, Admitted, Agrees, actionsOf, hstatus]
    | resolutionRequested =>
      obtain ⟨_, request, hrequest, _⟩ := hlate (Or.inl hstatus)
      simp [callActions, Admitted, Agrees, actionsOf, hstatus, hrequest]
    | proposed =>
      obtain ⟨_, request, hrequest, hpaired⟩ := hlate (Or.inr (Or.inl hstatus))
      have hown := (corresponds_iff hpaired.status).2.1.mpr hstatus
      have hundisputed := hpaired.undisputed (by simp [Resolution.Answered, hown])
      rw [actionsOf_proposed hrequest hundisputed]
      -- in the window or after it, as it is and as it seems
      by_cases hopen : now ≤ request.proposedAt + request.disputeWindow
      · by_cases hahead : toDouble now < deadlineSeen request
        · simp [callActions, Admitted, Agrees, hstatus, hrequest, hopen, hahead, hopen.not_gt]
        · simp [callActions, Admitted, Agrees, hstatus, hrequest, hopen, hahead, hopen.not_gt]
      · have hclosed := not_le.mp hopen
        by_cases hahead : toDouble now < deadlineSeen request
        · simp [callActions, Admitted, Agrees, hstatus, hrequest, hclosed, hopen, hahead,
            hahead.not_ge]
        · simp [callActions, Admitted, Agrees, hstatus, hrequest, hclosed, hopen, hahead,
            not_lt.mp hahead]
    | disputed =>
      obtain ⟨_, request, hrequest, _⟩ := hlate (by simp [hstatus])
      simp [callActions, Admitted, Agrees, actionsOf, hstatus, hrequest]
    | resolved => simp [callActions, Admitted, Agrees, actionsOf, hstatus]
    | cancelled => simp [callActions, Admitted, Agrees, actionsOf, hstatus, hseen]
  · have hahead := not_le.mp hseen
    have hexpired : ¬market.expiry ≤ now := fun hk => hseen (toDouble_mono hk)
    rw [suggestions_before hm hahead]
    cases hstatus : market.status with
    | created => simp [callActions, Admitted, Agrees, hstatus]
    | paused => simp [callActions, Admitted, Agrees, hstatus]
    | live => simp [callActions, Admitted, Agrees, hstatus, hexpired]
    | tradingClosed => simp [callActions, Admitted, Agrees, hstatus, hexpired, hahead]
    | cancelled => simp [callActions, Admitted, Agrees, hstatus, hseen]
    | _ => exact absurd (hlate (by simp [hstatus])).1 hexpired

end Suggestions

/-- In every run that governs early markets only and rewires nothing, with the oracle running:
the suggestions for a stored market are the calls that the contracts accept, exactly when no
market is live after its expiry, no proposal is at the last second of its window, what is due
still fits, no rounding of a time hides a deadline, and a cancelled market has expired. Where a
market is resolved to a side, or carries no odd unit, some tokens of it can always be redeemed. -/
theorem nextActions_iff {s : World × ℕ} (h : court.Guarded (fun s step => step.KeepsAgenda s.1) s)
    (hpaused : s.1.oracle.paused = false) {m : MarketId} {market : MarketData}
    (hm : s.1.registry.market m = some market) {now : ℕ} (hnow : s.2 ≤ now) (hfits : now ≤ u64Max) :
    ((∀ action ∈ callActions, action ∈ suggestions s.1 m now ↔ CallAccepted s m now action) ↔
      Agrees s m market now) ∧
    (market.status ≠ .cancelled ∧ market.finalOutcome ≠ .invalid ∨
      s.1.vault.invalidDustCarry m = 0 → Redeemable s.1.vault m market) := by
  obtain ⟨hw, ha⟩ := Resolution.agenda_runs h
  refine ⟨?_, Resolution.redeemable_of_worthless s.1.vault m market⟩
  rw [← agrees_iff_admitted hw ha hnow hm]
  refine forall₂_congr fun action _ => ?_
  rw [callAccepted_iff hw ha hpaused (final_of_resolved hw hm) hnow hfits hm]

/-- Market 1 with a window of 100, its outcome proposed by alice at its expiry. -/
def proposedSteps : List Resolution.CourtStep := (Resolution.disputedWindow 100).take 4

/-- What is read of the state after it. -/
def ProposedRead (s : World × ℕ) : Prop :=
  s.1.oracle.paused = false ∧ s.2 = 1000 ∧
    (s.1.registry.market 1).map MarketData.status = some .proposed ∧
    (requestOf s.1 1).map (fun request => (request.proposedAt, request.disputeWindow,
      request.bondAmount)) = some (1000, 100, 10) ∧
    bondTotal (s.1.vault.accounting 1) true = 0

instance (s : World × ℕ) : Decidable (ProposedRead s) :=
  inferInstanceAs (Decidable (_ ∧ _ ∧ _ ∧ _ ∧ _))

/-- The run succeeds, meets the guard and reads so. -/
theorem proposedSteps_ok : ∃ s, court.runs (deploy sampleLaunch, 0) proposedSteps = .ok s ∧
    court.Guarded (fun s step => step.KeepsAgenda s.1) s ∧ ProposedRead s := by
  obtain ⟨s, hs, hread⟩ := System.runs_of_decide (S := court) (deploy sampleLaunch, 0)
    proposedSteps ProposedRead (by decide +kernel)
  have hguard : ∀ step ∈ proposedSteps, ∀ w, step.KeepsAgenda w := by
    intro step hstep w
    simp only [proposedSteps, Resolution.disputedWindow, List.take, List.mem_cons,
      List.not_mem_nil, or_false] at hstep
    rcases hstep with rfl | rfl | rfl | rfl <;> exact ⟨trivial, trivial, trivial⟩
  have hrun : court.Guarded (fun _ step => ∀ w, step.KeepsAgenda w) s :=
    System.Guarded.runs (.init ⟨sampleLaunch, rfl⟩) _ hguard hs
  exact ⟨s, hs, hrun.mono (fun s _ hok => hok s.1), of_decide_eq_true hread⟩

/-- In the middle of the window the suggestions are right: the proposal can be disputed. -/
theorem nextActions_sample : ∃ s, court.runs (deploy sampleLaunch, 0) proposedSteps = .ok s ∧
    ∀ action ∈ callActions, action ∈ suggestions s.1 1 1050 ↔ CallAccepted s 1 1050 action := by
  obtain ⟨s, hs, hguarded, hpaused, htime, hstatus, hrequest, hbonds⟩ := proposedSteps_ok
  obtain ⟨market, hm, hproposed⟩ := Option.map_eq_some_iff.mp hstatus
  refine ⟨s, hs, (nextActions_iff hguarded hpaused hm (by omega) (by decide)).1.mpr ?_⟩
  unfold Agrees
  rw [hproposed]
  intro request hstored
  rw [hstored] at hrequest
  obtain ⟨hat, hrest⟩ := Prod.mk.inj (Option.some.inj hrequest)
  obtain ⟨hwindow, hbond⟩ := Prod.mk.inj hrest
  have hahead : toDouble 1050 < deadlineSeen request :=
    (deadlineSeen_iff (by decide) (by rw [hat, hwindow]; decide)).mpr (by rw [hat, hwindow]; decide)
  rw [if_pos (by rw [hat, hwindow]; decide), hbond, hbonds]
  exact ⟨hahead, by decide, by decide⟩

/-- At the last second of the window the service suggests to finalize, and nobody can. -/
theorem not_always_nextActions : ¬∀ s, court.Guarded (fun s step => step.KeepsAgenda s.1) s →
    s.1.oracle.paused = false → ∀ m market, s.1.registry.market m = some market →
    ∀ now, s.2 ≤ now → now ≤ u64Max → ∀ action ∈ callActions,
      (action ∈ suggestions s.1 m now ↔ CallAccepted s m now action) := by
  intro hall
  obtain ⟨s, _, hguarded, hpaused, htime, hstatus, hrequest, _⟩ := proposedSteps_ok
  obtain ⟨market, hm, hproposed⟩ := Option.map_eq_some_iff.mp hstatus
  obtain ⟨request, hstored, hread⟩ := Option.map_eq_some_iff.mp hrequest
  obtain ⟨hat, hrest⟩ := Prod.mk.inj hread
  obtain ⟨hwindow, _⟩ := Prod.mk.inj hrest
  obtain ⟨hw, ha⟩ := Resolution.agenda_runs hguarded
  have hnow : s.2 ≤ 1100 := by omega
  have hagree := (agrees_iff_admitted hw ha hnow hm).mp fun action haction =>
    (hall s hguarded hpaused 1 market hm 1100 hnow (by decide) action haction).trans
      (callAccepted_iff hw ha hpaused (final_of_resolved hw hm) hnow (by decide) hm action)
  unfold Agrees at hagree
  rw [hproposed] at hagree
  have hlast := hagree request hstored
  rw [if_pos (by rw [hat, hwindow])] at hlast
  have hahead := (deadlineSeen_iff (by decide) (by rw [hat, hwindow]; decide)).mp hlast.1
  rw [hat, hwindow] at hahead
  exact absurd hahead (by decide)

end DikeProtocol.Services
