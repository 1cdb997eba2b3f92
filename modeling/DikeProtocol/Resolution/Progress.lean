import DikeProtocol.Resolution.Standing

/-!
# Requests that can move on

A proposal only checks that one window fits after it, while its council needs
two after a later time, and the last unit of time is after no deadline. Whether
the next step of an open request can still succeed is decided by what is left
of time, of case numbers and of the vault's cash.
-/

namespace DikeProtocol.Resolution

open Lib
open Council (CouncilOp)
open Oracle (OracleOp)
open Vault (Held BondsBooked bondTotal withoutBond)

/-- Somebody who signs nothing invokes at a time. -/
def keeper (now : ℕ) : Ctx := ⟨now, [], []⟩

/-- What the oracle invokes for a keeper. -/
def forKeeper (now : ℕ) : Ctx := ⟨now, [], [.contract .oracle]⟩

/-- At some time from now on anyone can finalize the request undisputed. -/
def CanFinalize (s : World × ℕ) (r : ℕ) : Prop :=
  ∃ now s', court.step s (.call (keeper now) (.oracle (.finalizeUndisputed r))) = .ok s'

/-- At some time from now on anyone can escalate the request, and at some time
after that anyone can finalize its case. -/
def CanEscalate (s : World × ℕ) (r : ℕ) : Prop :=
  ∃ now s1, court.step s (.call (keeper now) (.oracle (.escalateToCouncil r))) = .ok s1 ∧
    ∃ caseId later s2, s1.1.council.requestCase r = some caseId ∧
      court.step s1 (.call (keeper later) (.council (.finalizeCase caseId))) = .ok s2

/-- Time is left after the window of the proposal, and the vault has the cash. -/
def RoomToFinalize (s : World × ℕ) (request : ResolutionRequest) : Prop :=
  request.proposedAt + request.disputeWindow < u64Max ∧
    ∀ market, s.1.registry.market request.marketId = some market →
      request.bondAmount ≤ s.1.bank.bal market.collateral (.contract .vault)

/-- Time is left after two more windows, and the case gets a number. -/
def RoomToVote (s : World × ℕ) (request : ResolutionRequest) : Prop :=
  s.2 + 2 * request.disputeWindow < u64Max ∧ s.1.council.nextCaseId < u64Max

/-- The market of a proposed request is proposed. -/
theorem Corresponds.of_proposed {status : MarketStatus} (h : Corresponds .proposed status) :
    status = .proposed := by
  cases h
  rfl

/-- The market of a disputed request is disputed. -/
theorem Corresponds.of_disputed {status : MarketStatus} (h : Corresponds .disputed status) :
    status = .disputed := by
  cases h
  rfl

section Calls

variable {s s' : World × ℕ} {now : ℕ} {op : CourtOp} {w' : World}

/-- A keeper is outside all contracts. -/
theorem keeper_apart (now : ℕ) : Apart (keeper now) := by
  refine ⟨⟨?_, ?_⟩, ⟨?_, ?_⟩, ⟨?_, ?_⟩, ?_, ?_⟩ <;> exact List.not_mem_nil

/-- A keeper's invocation succeeds when it comes in time and its entry point does. -/
theorem keeper_ok (op : CourtOp) (hnow : s.2 ≤ now) (hfits : now ≤ u64Max)
    (h : op.exec (keeper now) s.1 = .ok w') :
    court.step s (.call (keeper now) op) = .ok (w', now) := by
  have htime : ¬((keeper now).now < s.2 ∨ u64Max < (keeper now).now) := by
    change ¬(now < s.2 ∨ u64Max < now)
    omega
  unfold court
  dsimp only
  rw [bind_of_ok (refuse_ok (u := ()).mpr (not_not.mpr (keeper_apart now))),
    bind_of_ok (refuse_ok (u := ()).mpr htime), bind_of_ok h]
  rfl

/-- A successful invocation of a keeper came in time. -/
theorem keeper_time (h : court.step s (.call (keeper now) op) = .ok s') :
    s.2 ≤ now ∧ now ≤ u64Max ∧ s'.2 = now ∧ op.exec (keeper now) s.1 = .ok s'.1 := by
  obtain ⟨_, _, h⟩ := bind_ok.mp h
  obtain ⟨_, htime, h⟩ := bind_ok.mp h
  obtain ⟨w, hexec, h⟩ := bind_ok.mp h
  obtain rfl := pure_ok.mp h
  have htime' : ¬(now < s.2 ∨ u64Max < now) := refuse_ok.mp htime
  exact ⟨by omega, by omega, rfl, hexec⟩

/-- Nobody is on the stack of a keeper's invocation but the oracle. -/
theorem keeper_free (now : ℕ) {c : Contract} (hc : c ≠ .oracle) :
    Address.contract c ∉ .contract .oracle :: (keeper now).callers := by
  intro hk
  rcases List.mem_cons.mp hk with heq | hk
  · cases heq
    exact hc rfl
  · cases hk

end Calls

section Finalize

variable {w : World} {r now : ℕ} {request : ResolutionRequest}

/-- A proposal whose bond is held is finalized after its window, if the vault has the cash. -/
theorem finalizeUndisputed_of_room (hw : Standing w) (hr : w.oracle.request r = some request)
    (hstatus : request.status = .proposed)
    (hlate : request.proposedAt + request.disputeWindow < now) (hfits : now ≤ u64Max)
    (hcash : ∀ market, w.registry.market request.marketId = some market →
      request.bondAmount ≤ w.bank.bal market.collateral (.contract .vault)) :
    ∃ w', (OracleOp.finalizeUndisputed r).exec (keeper now) w = .ok w' := by
  obtain ⟨hlock, hbonds, ⟨hwired, hpending, _⟩, hsums⟩ := hw
  have hpend := hpending r request hr
  have hid := (hlock.requests r request hr).1
  obtain ⟨market, hm, hheld⟩ := hpend.held hstatus
  obtain ⟨stored, hstored, hpaired⟩ := hlock.paired r request hr
  rw [hm] at hstored
  obtain rfl := Option.some.inj hstored
  have hmarket : market.status = .proposed := by
    have hboth := hpaired.status
    rw [hstatus] at hboth
    exact hboth.of_proposed
  have hopen : market.hasFinalOutcome = false := by
    by_contra hk
    have hresolved := hlock.markets.finalResolved _ market hm (Bool.eq_true_of_not_eq_false hk)
    rw [hmarket] at hresolved
    cases hresolved
  obtain ⟨reg, hset⟩ : ∃ reg, Registry.setFinalOutcome (forKeeper now) w.registry
      request.marketId request.proposedOutcome = .ok reg :=
    ⟨_, Registry.setFinalOutcome_ok.mpr ⟨⟨(), requireRole_ok.mpr ⟨_, hlock.wired, Or.inr rfl⟩⟩,
      market, hm, hopen, Or.inl hmarket, rfl⟩⟩
  obtain ⟨b, hb⟩ : ∃ b, w.bank.transfer market.collateral (.contract .vault) request.proposer
      request.bondAmount = .ok b := Bank.transfer_of_held hpend.bond.le (hcash market hm)
  rw [hid] at hheld
  have hbooks : InRange (bondTotal (w.vault.accounting request.marketId) false -
      request.bondAmount) := by
    have hleft := (hbonds.booked.take hheld le_rfl).nonneg request.marketId false
    have hsum := hsums request.marketId false
    have hbond := hpend.bond
    unfold withoutBond at hleft
    dsimp only at hleft
    rw [Store.set_get_self, Vault.bondTotal_movedBond, if_pos rfl] at hleft
    have hmin : i128Min ≤ 0 := by decide
    exact ⟨by omega, by omega⟩
  have hnothing : InRange (request.bondAmount - request.bondAmount) := by
    rw [sub_self]
    exact ⟨by decide, by decide⟩
  obtain ⟨w1, hpay⟩ : ∃ w1, Vault.payBond (forKeeper now) { w with registry := reg }
      market.collateral request.proposer r request.bondAmount false request.proposer = .ok w1 :=
    ⟨_, Vault.payBond_ok.mpr ⟨⟨(), requireRole_ok.mpr ⟨_, hwired.vaultOracle, Or.inr rfl⟩⟩,
      hpend.bond, _, _, b, hheld, le_rfl, hnothing, hbooks, hb, rfl⟩⟩
  have hregistry : Oracle.callRegistry (keeper now) w (fun called registry =>
      Registry.setFinalOutcome called registry request.marketId request.proposedOutcome) =
      .ok { w with registry := reg } :=
    Oracle.callRegistry_ok.mpr
      ⟨hwired.oracleRegistry, keeper_free now (by decide), reg, hset, rfl⟩
  have hvault : Oracle.callVault (keeper now) { w with registry := reg } (fun called w =>
      Vault.releaseBond called w market.collateral request.proposer r request.bondAmount false) =
      .ok w1 :=
    Oracle.callVault_ok.mpr ⟨hwired.oracleVault, keeper_free now (by decide), hpay⟩
  have hdeadline : Oracle.disputeDeadline request.proposedAt request.disputeWindow =
      .ok (request.proposedAt + request.disputeWindow) :=
    checkedAddU64_ok.mpr ⟨rfl, by omega⟩
  have hloads : Oracle.loadMarket (keeper now) w request.marketId = .ok market :=
    Oracle.loadMarket_ok.mpr ⟨hwired.oracleRegistry, keeper_free now (by decide), hm⟩
  have hproposal := (hpend.proposal (Or.inl hstatus)).1
  have hfinal : Oracle.finalizeUndisputed (keeper now) w r = .ok (request.proposedOutcome,
      { w1 with oracle :=
          Oracle.writeRequest w1.oracle (Oracle.finalized request request.proposedOutcome) }) := by
    unfold Oracle.finalizeUndisputed
    refine bind_ok.mpr ⟨request, orFault_ok.mpr hr, ?_⟩
    refine bind_ok.mpr ⟨(), refuse_ok.mpr (not_not.mpr hstatus), ?_⟩
    refine bind_ok.mpr ⟨(), refuse_ok.mpr (by rw [hproposal]; decide), ?_⟩
    refine bind_ok.mpr ⟨_, hdeadline, ?_⟩
    refine bind_ok.mpr ⟨(), refuse_ok.mpr (not_le.mpr hlate), ?_⟩
    refine bind_ok.mpr ⟨market, hloads, ?_⟩
    refine bind_ok.mpr ⟨_, hregistry, ?_⟩
    exact bind_ok.mpr ⟨w1, hvault, rfl⟩
  exact ⟨_, world_ok.mpr ⟨_, hfinal⟩⟩

end Finalize

section Escalate

variable {w : World} {r now : ℕ} {request : ResolutionRequest}

/-- A disputed request is escalated while two windows and a case number fit. -/
theorem escalateToCouncil_of_room (hw : Standing w) (hr : w.oracle.request r = some request)
    (hstatus : request.status = .disputed)
    (hfits : now + request.disputeWindow + request.disputeWindow ≤ u64Max)
    (hnumber : w.council.nextCaseId + 1 ≤ u64Max) :
    ∃ w', (OracleOp.escalateToCouncil r).exec (keeper now) w = .ok w' ∧
      w'.council.requestCase r = some w.council.nextCaseId ∧
      ∃ case, w'.council.caseData w.council.nextCaseId = some case ∧
        case.hasFinalOutcome = false ∧
        case.revealEnd = now + request.disputeWindow + request.disputeWindow := by
  obtain ⟨hlock, _, ⟨hwired, hpending, _⟩, _⟩ := hw
  have hpend := hpending r request hr
  have hid := (hlock.requests r request hr).1
  obtain ⟨market, hm, hpaired⟩ := hlock.paired r request hr
  have hmarket : market.status = .disputed := by
    have hboth := hpaired.status
    rw [hstatus] at hboth
    exact hboth.of_disputed
  have hevidence := (hpend.proposal (Or.inr hstatus)).2
  obtain ⟨hcounter, hdiffer⟩ := hpend.dispute hstatus
  have hbond := hpend.bond
  have hwindow := hpend.window
  have hcaseless := hpend.caseless (Or.inr (Or.inr hstatus))
  obtain ⟨c, hopen⟩ : ∃ c, Council.openCase (forKeeper now) w.council request.id request.marketId
      request.proposer request.proposedOutcome request.proposalEvidenceUri request.disputer
      request.disputedOutcome request.disputeEvidenceUri (Oracle.caseConfig request market) =
      .ok (w.council.nextCaseId, c) := by
    refine ⟨_, Council.openCase_ok.mpr ⟨⟨(), requireRole_ok.mpr ⟨_, hwired.councilOracle,
      Or.inr rfl⟩⟩, ?_, ?_, hcaseless, hfits, hnumber, rfl, rfl⟩⟩
    · rintro (hk | hk)
      · exact hevidence hk
      · exact hcounter hk
    · unfold Oracle.caseConfig
      dsimp only
      rintro (hk | hk | hk | hk | hk)
      · exact hdiffer hk
      · omega
      · omega
      · omega
      · omega
  have hvalid : Registry.validTransition market.status .councilVoting = true := by
    rw [hmarket]
    rfl
  obtain ⟨reg, hmark⟩ : ∃ reg, Registry.markCouncilVoting (forKeeper now) w.registry
      request.marketId = .ok reg :=
    ⟨_, bind_ok.mpr ⟨(), requireRole_ok.mpr ⟨_, hlock.wired, Or.inr rfl⟩,
      transitionInternal_ok.mpr ⟨market, hm, hvalid, rfl⟩⟩⟩
  have hregistry : Oracle.callRegistry (keeper now) { w with council := c }
      (fun called registry => Registry.markCouncilVoting called registry request.marketId) =
      .ok { w with council := c, registry := reg } :=
    Oracle.callRegistry_ok.mpr
      ⟨hwired.oracleRegistry, keeper_free now (by decide), reg, hmark, rfl⟩
  have hloads : Oracle.loadMarket (keeper now) w request.marketId = .ok market :=
    Oracle.loadMarket_ok.mpr ⟨hwired.oracleRegistry, keeper_free now (by decide), hm⟩
  have hcall : (keeper now).call .oracle (.contract .council) .council = .ok (forKeeper now) :=
    Ctx.call_ok.mpr ⟨rfl, keeper_free now (by decide), rfl⟩
  have hescalated : (OracleOp.escalateToCouncil r).exec (keeper now) w = .ok { w with
      council := c
      registry := reg
      oracle := Oracle.writeRequest w.oracle { request with status := .escalated } } := by
    refine bind_ok.mpr ⟨request, orFault_ok.mpr hr, ?_⟩
    refine bind_ok.mpr ⟨(), refuse_ok.mpr (not_not.mpr hstatus), ?_⟩
    refine bind_ok.mpr ⟨market, hloads, ?_⟩
    refine bind_ok.mpr ⟨_, readRole_ok.mpr hwired.oracleCouncil, ?_⟩
    refine bind_ok.mpr ⟨_, hcall, ?_⟩
    refine bind_ok.mpr ⟨_, hopen, ?_⟩
    exact bind_ok.mpr ⟨_, hregistry, rfl⟩
  obtain ⟨_, _, _, _, _, _, _, rfl⟩ := Council.openCase_ok.mp hopen
  have hcase : ∃ case, (Council.writeCase w.council (Council.newCase now w.council.nextCaseId
      request.id request.marketId request.proposer request.proposedOutcome
      request.proposalEvidenceUri request.disputer request.disputedOutcome
      request.disputeEvidenceUri (Oracle.caseConfig request market))).caseData
        w.council.nextCaseId = some case ∧ case.hasFinalOutcome = false ∧
      case.revealEnd = now + request.disputeWindow + request.disputeWindow :=
    ⟨_, Store.set_get_self _ _ _, rfl, rfl⟩
  refine ⟨_, hescalated, ?_, hcase⟩
  dsimp only
  rw [hid, Store.set_get_self]

/-- Whether a proposed request can be finalized. -/
theorem canFinalize_iff {s : World × ℕ} (hw : Standing s.1) (htime : s.2 ≤ u64Max)
    (hr : s.1.oracle.request r = some request) (hstatus : request.status = .proposed) :
    CanFinalize s r ↔ RoomToFinalize s request := by
  constructor
  · rintro ⟨now, s', hstep⟩
    obtain ⟨_, hfits, _, hexec⟩ := keeper_time hstep
    obtain ⟨outcome, hexec⟩ := world_ok.mp hexec
    obtain ⟨stored, market, called, reg, w1, hstored, _, _, hlate, hm, _, hpay, _⟩ :=
      Oracle.finalizeUndisputed_steps hexec
    rw [hr] at hstored
    obtain rfl := Option.some.inj hstored
    obtain ⟨_, _, _, _, b, _, _, _, _, hb, _⟩ := Vault.payBond_ok.mp hpay
    refine ⟨lt_of_lt_of_le hlate hfits, fun market' hm' => ?_⟩
    rw [hm] at hm'
    obtain rfl := Option.some.inj hm'
    exact (Bank.transfer_ok.mp hb).2.1
  · rintro ⟨hroom, hcash⟩
    have hlate : request.proposedAt + request.disputeWindow <
        max s.2 (request.proposedAt + request.disputeWindow + 1) := by omega
    have hfits : max s.2 (request.proposedAt + request.disputeWindow + 1) ≤ u64Max := by omega
    obtain ⟨w', hexec⟩ := finalizeUndisputed_of_room hw hr hstatus hlate hfits hcash
    exact ⟨_, _, keeper_ok (.oracle (.finalizeUndisputed r)) (le_max_left _ _) hfits hexec⟩

/-- Whether a disputed request can be escalated and its case finalized. -/
theorem canEscalate_iff {s : World × ℕ} (hw : Standing s.1)
    (hr : s.1.oracle.request r = some request) (hstatus : request.status = .disputed) :
    CanEscalate s r ↔ RoomToVote s request := by
  have hid := (hw.lockstep.requests r request hr).1
  constructor
  · rintro ⟨now, s1, hstep, caseId, later, s2, hcase, hfinal⟩
    obtain ⟨hnow, _, _, hexec⟩ := keeper_time hstep
    obtain ⟨_, hfits, _, hexec'⟩ := keeper_time hfinal
    obtain ⟨stored, market, called, id, c, reg, hstored, _, _, hopen, _, heq⟩ :=
      Oracle.escalateToCouncil_steps hexec
    rw [hr] at hstored
    obtain rfl := Option.some.inj hstored
    obtain ⟨_, _, _, _, _, hnumber, rfl, rfl⟩ := Council.openCase_ok.mp hopen
    obtain ⟨c', hc', _⟩ := councilStore_ok hexec'
    obtain ⟨⟨outcome, c''⟩, hfinalize, _⟩ := bind_ok.mp hc'
    obtain ⟨case, hstoredCase, _, hlate, _⟩ := Council.finalizeCase_ok.mp hfinalize
    rw [heq] at hcase hstoredCase
    dsimp only at hcase hstoredCase
    rw [hid, Store.set_get_self] at hcase
    obtain rfl := Option.some.inj hcase
    dsimp only [Council.writeCase, Council.newCase] at hstoredCase
    rw [Store.set_get_self] at hstoredCase
    obtain rfl := Option.some.inj hstoredCase
    have hend : now + request.disputeWindow + request.disputeWindow < later := hlate
    exact ⟨by omega, hnumber⟩
  · rintro ⟨hroom, hnumber⟩
    have hfits : s.2 + request.disputeWindow + request.disputeWindow ≤ u64Max := by omega
    obtain ⟨w', hexec, hcase, case, hstored, hopen, hend⟩ :=
      escalateToCouncil_of_room hw hr hstatus hfits hnumber
    have hstep := keeper_ok (.oracle (.escalateToCouncil r)) (le_refl s.2) (by omega) hexec
    have hlate : case.revealEnd <
        (keeper (s.2 + request.disputeWindow + request.disputeWindow + 1)).now := by
      rw [hend]
      exact Nat.lt_succ_self _
    have hfinal : (CourtOp.council (.finalizeCase s.1.council.nextCaseId)).exec
        (keeper (s.2 + request.disputeWindow + request.disputeWindow + 1)) w' = .ok { w' with
          council := Council.writeCase w'.council (Council.finalized case) } :=
      bind_ok.mpr ⟨_, bind_ok.mpr ⟨_, Council.finalizeCase_ok.mpr
        ⟨case, hstored, hopen, hlate, rfl, rfl⟩, rfl⟩, rfl⟩
    have hlast := keeper_ok (s := (w', s.2)) _ (by dsimp only; omega) (by omega) hfinal
    exact ⟨_, _, hstep, _, _, _, hcase, hlast⟩

end Escalate

/-- In every run that moves early markets only and rewires nothing: a proposed
request can be finalized exactly when time is left after its window and the vault
has the cash, and a disputed one can go through the council exactly when time is
left after two more windows and the case gets a number. -/
theorem movesOn_iff_room {s : World × ℕ} (h : court.Guarded
    (fun s step => step.GovernsEarly s.1 ∧ step.KeepsWires) s) {r : ℕ}
    {request : ResolutionRequest} (hr : s.1.oracle.request r = some request) :
    (request.status = .proposed → (CanFinalize s r ↔ RoomToFinalize s request)) ∧
      (request.status = .disputed → (CanEscalate s r ↔ RoomToVote s request)) := by
  obtain ⟨hstanding, htime⟩ := standing_runs h
  exact ⟨canFinalize_iff hstanding (htime r request hr) hr, canEscalate_iff hstanding hr⟩

/-- Market 1 with this dispute window, its outcome proposed by alice and disputed by bob. -/
def disputedWindow (disputeWindow : ℕ) : List CourtStep :=
  [.call byFactory (.registry (.registerMarket { sampleConfig with
      disputeWindow := disputeWindow } 2 3 1)),
    .call byFactory (.registry (.activateMarket 1)),
    .call ⟨1000, [], []⟩ (.oracle (.requestResolution 1 0 "rules" 1000 10 disputeWindow)),
    .call ⟨1000, [alice], []⟩ (.oracle (.proposeOutcome alice 1 .yes "yes")),
    .call ⟨1000, [bob], []⟩ (.oracle (.disputeOutcome bob 1 .no "no"))]

/-- These runs meet the guard. -/
theorem disputedWindow_guarded {disputeWindow : ℕ} {s : World × ℕ}
    (h : court.runs (deploy sampleLaunch, 0) (disputedWindow disputeWindow) = .ok s) :
    court.Guarded (fun s step => step.GovernsEarly s.1 ∧ step.KeepsWires) s := by
  have hguard : ∀ step ∈ disputedWindow disputeWindow,
      (∀ w, step.GovernsEarly w) ∧ step.KeepsWires := by
    simp [disputedWindow, CourtStep.GovernsEarly, GovernsEarly, CourtStep.KeepsWires]
  have hrun : court.Guarded (fun _ step => (∀ w, step.GovernsEarly w) ∧ step.KeepsWires) s :=
    System.Guarded.runs (.init ⟨sampleLaunch, rfl⟩) _ hguard h
  exact hrun.mono (fun s _ hok => ⟨hok.1 s.1, hok.2⟩)

/-- With a window of 100 the disputed request can go through the council. -/
theorem movesOn_after_smallWindow : ∃ s,
    court.runs (deploy sampleLaunch, 0) (disputedWindow 100) = .ok s ∧ CanEscalate s 1 := by
  obtain ⟨s, hs, hcheck⟩ := System.runs_of_decide (S := court) (deploy sampleLaunch, 0)
    (disputedWindow 100) (fun s => (s.1.oracle.request 1).map (fun request =>
      (request.status, request.disputeWindow)) = some (.disputed, 100) ∧ s.2 = 1000 ∧
        s.1.council.nextCaseId = 1) (by decide +kernel)
  obtain ⟨hrequest, hnow, hnumber⟩ := of_decide_eq_true hcheck
  obtain ⟨request, hr, hpair⟩ := Option.map_eq_some_iff.mp hrequest
  obtain ⟨hstatus, hwindow⟩ := Prod.mk.inj hpair
  have hroom : RoomToVote s request := by
    unfold RoomToVote
    rw [hnow, hwindow, hnumber]
    decide
  exact ⟨s, hs, ((movesOn_iff_room (disputedWindow_guarded hs) hr).2 hstatus).mpr hroom⟩

/-- With a window of half the clock both bonds are locked, and no time is left
for the council. -/
theorem not_always_movesOn : ¬∀ s, court.Reachable s → ∀ r request,
    s.1.oracle.request r = some request →
      (request.status = .proposed → CanFinalize s r) ∧
        (request.status = .disputed → CanEscalate s r) := by
  intro hall
  obtain ⟨s, hs, hcheck⟩ := System.runs_of_decide (S := court) (deploy sampleLaunch, 0)
    (disputedWindow (2 ^ 63)) (fun s => (s.1.oracle.request 1).map (fun request =>
      (request.status, request.disputeWindow)) = some (.disputed, 2 ^ 63)) (by decide +kernel)
  obtain ⟨request, hr, hpair⟩ := Option.map_eq_some_iff.mp (of_decide_eq_true hcheck)
  obtain ⟨hstatus, hwindow⟩ := Prod.mk.inj hpair
  have hguarded := disputedWindow_guarded hs
  have hmoves := (hall s hguarded.reachable 1 request hr).2 hstatus
  have hroom := ((canEscalate_iff (standing_runs hguarded).1 hr hstatus).mp hmoves).1
  rw [hwindow] at hroom
  have hmax : u64Max < 2 * 2 ^ 63 := by decide
  omega

end DikeProtocol.Resolution
