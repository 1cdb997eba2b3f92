import DikeProtocol.Resolution.Court

/-!
# The ledger of bonds over whole runs

Which bonds an invocation locks and pays, by the vault itself or through the
oracle and the council. From it: every market books what is left of its bonds,
a finalized request has nothing left in them, and nothing more is paid out of a
bond than was locked in it.
-/

namespace DikeProtocol.Resolution

open Lib
open Council (CouncilOp)
open Oracle (OracleOp BondsOnly)
open Vault (VaultOp Outside Sane SameBonds BondRun BondMove BondKey BondsBooked lockedIn paidFrom)

/-- Payments of a settlement between winner and loser. -/
def settleMoves (f : FeeManagerState) (winner loser : Address) (r : ℕ) (x : ℤ) (d : Bool) :
    List BondMove :=
  .pay (r, winner, !d) x ::
    match FeeManager.losingBondSplit f x with
    | .ok (winnerAmt, councilAmt, treasuryAmt) =>
      .pay (r, loser, d) winnerAmt ::
        ((if councilAmt > 0 then [.pay (r, loser, d) councilAmt] else []) ++
          if treasuryAmt > 0 then [.pay (r, loser, d) treasuryAmt] else [])
    | .error _ => []

/-- Payments of a division of the bonds of a request under this outcome. -/
def divideMoves (f : FeeManagerState) (request : ResolutionRequest) (r : ℕ) (outcome : Outcome) :
    List BondMove :=
  if outcome = request.proposedOutcome then
    settleMoves f request.proposer request.disputer r request.bondAmount true
  else if outcome = request.disputedOutcome then
    settleMoves f request.disputer request.proposer r request.bondAmount false
  else [.pay (r, request.proposer, false) request.bondAmount,
    .pay (r, request.disputer, true) request.bondAmount]

/-- Payments of a reported outcome. -/
def reportMoves (w : World) (r : ℕ) (outcome : Outcome) : List BondMove :=
  match w.oracle.request r with
  | some request => divideMoves w.feeManager request r outcome
  | none => []

/-- Bonds moved by an invocation of the oracle. -/
def oracleMoves (w : World) : OracleOp → List BondMove
  | .proposeOutcome proposer r _ _ =>
    match w.oracle.request r with
    | some request => [.lock (r, proposer, false) request.bondAmount]
    | none => []
  | .disputeOutcome disputer r _ _ =>
    match w.oracle.request r with
    | some request => [.lock (r, disputer, true) request.bondAmount]
    | none => []
  | .finalizeUndisputed r =>
    match w.oracle.request r with
    | some request => [.pay (r, request.proposer, false) request.bondAmount]
    | none => []
  | .reportCouncilOutcome r outcome => reportMoves w r outcome
  | _ => []

/-- Bonds moved by an invocation of the council. -/
def councilMoves (ctx : Ctx) (w : World) : CouncilOp → List BondMove
  | .finalizeAndReportCase caseId =>
    match Council.finalizeCase ctx w.council caseId with
    | .ok (outcome, c) =>
      match c.caseData caseId with
      | some case => reportMoves w case.requestId outcome
      | none => []
    | .error _ => []
  | _ => []

/-- Bonds moved by an invocation of the vault. -/
def vaultMoves : VaultOp → List BondMove
  | .lockBond _ user r _ x d => [.lock (r, user, d) x]
  | .releaseBond _ user r x d => [.pay (r, user, d) x]
  | .slashBond _ user r x d _ => [.pay (r, user, d) x]
  | _ => []

/-- Bonds moved by an invocation of one of the four contracts. -/
def CourtOp.bondMoves (ctx : Ctx) (w : World) : CourtOp → List BondMove
  | council op => councilMoves ctx w op
  | oracle op => oracleMoves w op
  | registry _ => []
  | vault op => vaultMoves op

section Runs

variable {ctx : Ctx} {w w' w1 : World}

/-- Nothing but other contracts changed. -/
theorem run_of_vault {moves : List BondMove} (hv : w1.vault = w.vault) (h : BondRun w1 moves w') :
    BondRun w moves w' := by
  refine .still ?_ ?_ h
  · rw [hv]
    exact .refl _
  · rw [hv]
    exact id

/-- Nothing moved when the vault is the same. -/
theorem run_nil (hv : w'.vault = w.vault) : BondRun w [] w' := run_of_vault hv (.done w')

/-- The same, to a given state. -/
theorem run_to (w' : World) (hv : w'.vault = w.vault) : BondRun w [] w' := run_nil hv

/-- One payment, and nothing more to the vault. -/
theorem run_pay {token : Asset} {user recipient : Address} {r : ℕ} {x : ℤ} {d : Bool}
    (h : Vault.payBond ctx w token user r x d recipient = .ok w1) (hv : w'.vault = w1.vault) :
    BondRun w [.pay (r, user, d) x] w' := .pay h (run_nil hv)

/-- The reward of the council is one payment if it is positive. -/
theorem rewardCouncil_run {token : Asset} {loser council : Address} {r : ℕ} {x : ℤ} {d : Bool}
    (h : Oracle.rewardCouncil ctx w token loser council r x d = .ok w') :
    BondRun w (if x > 0 then [.pay (r, loser, d) x] else []) w' := by
  unfold Oracle.rewardCouncil at h
  split at h
  · next hpos =>
    obtain ⟨w1, h1, h⟩ := bind_ok.mp h
    obtain ⟨called, _, h⟩ := bind_ok.mp h
    obtain ⟨caseId, _, h⟩ := bind_ok.mp h
    obtain ⟨c, _, h⟩ := bind_ok.mp h
    obtain rfl := pure_ok.mp h
    rw [if_pos hpos]
    exact run_pay (Oracle.callVault_ok.mp h1).2.2 rfl
  · next hnone =>
    obtain rfl := ok_ok.mp h
    rw [if_neg hnone]
    exact .done w

/-- So is the reward of the treasury. -/
theorem rewardTreasury_run {token : Asset} {loser treasury : Address} {r : ℕ} {x : ℤ} {d : Bool}
    (h : Oracle.rewardTreasury ctx w token loser treasury r x d = .ok w') :
    BondRun w (if x > 0 then [.pay (r, loser, d) x] else []) w' := by
  unfold Oracle.rewardTreasury at h
  split at h
  · next hpos =>
    rw [if_pos hpos]
    exact run_pay (Oracle.callVault_ok.mp h).2.2 rfl
  · next hnone =>
    obtain rfl := ok_ok.mp h
    rw [if_neg hnone]
    exact .done w

/-- A settlement makes its payments, and takes all of the lost bond. -/
theorem settleBonds_run {token : Asset} {winner loser : Address} {r : ℕ} {x : ℤ} {d : Bool}
    (h : Oracle.settleBonds ctx w token winner loser r x d = .ok w') :
    BondRun w (settleMoves w.feeManager winner loser r x d) w' ∧
      x ≤ paidFrom (r, winner, !d) (settleMoves w.feeManager winner loser r x d) ∧
      x ≤ paidFrom (r, loser, d) (settleMoves w.feeManager winner loser r x d) := by
  unfold Oracle.settleBonds at h
  obtain ⟨w1, h1, h⟩ := bind_ok.mp h
  obtain ⟨feeManager, _, h⟩ := bind_ok.mp h
  obtain ⟨treasury, _, h⟩ := bind_ok.mp h
  obtain ⟨council, _, h⟩ := bind_ok.mp h
  obtain ⟨_, _, h⟩ := bind_ok.mp h
  obtain ⟨⟨winnerAmt, councilAmt, treasuryAmt⟩, hsplit, h⟩ := bind_ok.mp h
  obtain ⟨w2, h2, h⟩ := bind_ok.mp h
  obtain ⟨w3, h3, h⟩ := bind_ok.mp h
  have hrelease := (Oracle.callVault_ok.mp h1).2.2
  have hslash := (Oracle.callVault_ok.mp h2).2.2
  rw [(BondsOnly.payBond hrelease).feeManager] at hsplit
  have hrest := (rewardCouncil_run h3).append (rewardTreasury_run h)
  have hkeys : ((r, winner, !d) : BondKey) ≠ (r, loser, d) := by
    intro hk
    have hd := (Prod.mk.inj (Prod.mk.inj hk).2).2
    cases d <;> cases hd
  have hrun : BondRun w (settleMoves w.feeManager winner loser r x d) w' := by
    unfold settleMoves
    rw [hsplit]
    exact .pay hrelease (.pay hslash hrest)
  have hparts : winnerAmt + councilAmt + treasuryAmt = x ∧ 0 ≤ councilAmt := by
    obtain ⟨_, hpos, hsplit⟩ := bind_ok.mp hsplit
    obtain ⟨winner', hwinner, hsplit⟩ := bind_ok.mp hsplit
    obtain ⟨council', hcouncil, hsplit⟩ := bind_ok.mp hsplit
    obtain ⟨rest, hshare, hsplit⟩ := bind_ok.mp hsplit
    obtain ⟨treasury', htreasury, hsplit⟩ := bind_ok.mp hsplit
    obtain ⟨rfl, hpair⟩ := Prod.mk.inj (pure_ok.mp hsplit)
    obtain ⟨rfl, rfl⟩ := Prod.mk.inj hpair
    have hbond := refuse_ok.mp hpos
    have hnonneg := bpsOf_nonneg (by omega : 0 ≤ x) w.feeManager.councilBondShareBps
    rw [(checkedSub_ok.mp htreasury).1, (checkedSub_ok.mp hshare).1, (bps_ok.mp hcouncil).1]
    exact ⟨by ring, hnonneg⟩
  have hpaid : ∀ y : ℤ, max y 0 =
      paidFrom (r, loser, d) (if y > 0 then [.pay (r, loser, d) y] else []) := by
    intro y
    split
    · simp only [paidFrom, if_true, add_zero]
      omega
    · simp only [paidFrom]
      omega
  have hother : ∀ y : ℤ, 0 =
      paidFrom (r, winner, !d) (if y > 0 then [.pay (r, loser, d) y] else []) := by
    intro y
    split
    · simp only [paidFrom, if_neg hkeys.symm, add_zero]
    · rfl
  refine ⟨hrun, ?_, ?_⟩
  · unfold settleMoves
    rw [hsplit]
    simp only [paidFrom, Vault.paidFrom_append, if_true, if_neg hkeys.symm, ← hother]
    omega
  · unfold settleMoves
    rw [hsplit]
    simp only [paidFrom, Vault.paidFrom_append, if_true, if_neg hkeys, ← hpaid]
    omega

/-- A division makes its payments, and takes all of both bonds. -/
theorem divideBonds_run {token : Asset} {request : ResolutionRequest} {r : ℕ} {outcome : Outcome}
    (h : Oracle.divideBonds ctx w token request r outcome = .ok w') :
    BondRun w (divideMoves w.feeManager request r outcome) w' ∧
      request.bondAmount ≤ paidFrom (r, request.proposer, false)
        (divideMoves w.feeManager request r outcome) ∧
      request.bondAmount ≤ paidFrom (r, request.disputer, true)
        (divideMoves w.feeManager request r outcome) := by
  unfold Oracle.divideBonds at h
  unfold divideMoves
  split at h
  · next hproposed =>
    simp only [if_pos hproposed]
    exact settleBonds_run h
  · next hproposed =>
    simp only [if_neg hproposed]
    split at h
    · next hdisputed =>
      simp only [if_pos hdisputed]
      obtain ⟨hrun, hwinner, hloser⟩ := settleBonds_run h
      exact ⟨hrun, hloser, hwinner⟩
    · next hdisputed =>
      simp only [if_neg hdisputed]
      obtain ⟨w1, h1, h⟩ := bind_ok.mp h
      refine ⟨.pay (Oracle.callVault_ok.mp h1).2.2 (run_pay (Oracle.callVault_ok.mp h).2.2 rfl),
        ?_, ?_⟩
      · simp [paidFrom]
      · simp [paidFrom]

end Runs

/-- What is left of a bond is at most this much. -/
def AtMost (v : VaultState) (key : BondKey) (x : ℤ) : Prop :=
  ∃ left, v.bond key = some left ∧ left ≤ x

/-- What a request left in its bonds: at most the bond of each party while it is
open, nothing once it is final. -/
structure Secured (v : VaultState) (request : ResolutionRequest) : Prop where
  undisputed : request.status = .requested ∨ request.status = .proposed →
    request.hasDispute = false
  proposal : request.status = .proposed ∨ request.status = .disputed ∨ request.status = .escalated →
    AtMost v (request.id, request.proposer, false) request.bondAmount
  dispute : request.status = .disputed ∨ request.status = .escalated →
    AtMost v (request.id, request.disputer, true) request.bondAmount
  released : request.status = .finalized →
    v.bond (request.id, request.proposer, false) = some 0
  divided : request.status = .finalized → request.hasDispute = true →
    v.bond (request.id, request.disputer, true) = some 0

section Bonds

variable {ctx : Ctx} {w w' : World} {moves : List BondMove} {key : BondKey} {x : ℤ}

/-- Whatever happens, no more is left of a bond. -/
theorem AtMost.run (h : AtMost w.vault key x) (hrun : BondRun w moves w') :
    AtMost w'.vault key x := by
  obtain ⟨left, hleft, hle⟩ := h
  have hpaid := hrun.paidFrom_nonneg key
  exact ⟨_, hrun.left hleft, by omega⟩

/-- A bond that was paid out whole has nothing left. -/
theorem AtMost.emptied (h : AtMost w.vault key x) (hrun : BondRun w moves w')
    (hbooked : BondsBooked w'.vault) (hpaid : x ≤ paidFrom key moves) :
    w'.vault.bond key = some 0 := by
  obtain ⟨left, hleft, hle⟩ := h
  have hrest := hrun.left hleft
  have hnonneg := hbooked.left_nonneg key _ hrest
  rw [hrest]
  congr 1
  omega

/-- An empty bond stays empty. -/
theorem empty_run (h : w.vault.bond key = some 0) (hrun : BondRun w moves w')
    (hbooked : BondsBooked w'.vault) : w'.vault.bond key = some 0 :=
  AtMost.emptied ⟨0, h, le_rfl⟩ hrun hbooked (hrun.paidFrom_nonneg key)

/-- A request stays secured while bonds move. -/
theorem Secured.run {request : ResolutionRequest} (h : Secured w.vault request)
    (hrun : BondRun w moves w') (hbooked : BondsBooked w'.vault) : Secured w'.vault request where
  undisputed := h.undisputed
  proposal := fun hs => (h.proposal hs).run hrun
  dispute := fun hs => (h.dispute hs).run hrun
  released := fun hs => empty_run (h.released hs) hrun hbooked
  divided := fun hs hd => empty_run (h.divided hs hd) hrun hbooked

/-- What every run keeps of bonds and requests. -/
structure CourtBonds (w : World) : Prop where
  sane : Sane w.vault
  booked : BondsBooked w.vault
  ordered : RequestsOrdered w.oracle
  secured : ∀ r request, w.oracle.request r = some request → Secured w.vault request

/-- Moves of bonds keep it while the requests stay. -/
theorem CourtBonds.run (hw : CourtBonds w) (hrun : BondRun w moves w')
    (hrequest : w'.oracle.request = w.oracle.request)
    (hnext : w'.oracle.nextRequestId = w.oracle.nextRequestId) : CourtBonds w' := by
  have hbooked := hrun.booked hw.booked
  refine ⟨hrun.sane hw.sane, hbooked, hw.ordered.same hrequest hnext, ?_⟩
  intro r request hr
  rw [hrequest] at hr
  exact (hw.secured r request hr).run hrun hbooked

/-- Moves of bonds keep it when one request is rewritten along with them. -/
theorem CourtBonds.rewrite (hw : CourtBonds w) (hrun : BondRun w moves w') {r : ℕ}
    {before request : ResolutionRequest} (hbefore : w.oracle.request r = some before)
    (horacle : w'.oracle = Oracle.writeRequest w.oracle request) (hid : request.id = before.id)
    (hsecured : BondsBooked w'.vault → Secured w'.vault request) : CourtBonds w' := by
  have hbooked := hrun.booked hw.booked
  have hr := hw.ordered r before hbefore
  have hid' := hid.trans hr.1
  refine ⟨hrun.sane hw.sane, hbooked, ?_, ?_⟩
  · rw [horacle]
    exact hw.ordered.write hid' hbefore
  · intro k stored hk
    rw [horacle] at hk
    unfold Oracle.writeRequest at hk
    dsimp only at hk
    rw [Store.set_get] at hk
    split at hk
    · obtain rfl := Option.some.inj hk
      exact hsecured hbooked
    · exact (hw.secured k stored hk).run hrun hbooked

/-- A reported outcome empties both bonds of its request. -/
theorem report_bonds (hw : CourtBonds w) {r : ℕ} {outcome : Outcome}
    (h : Oracle.reportCouncilOutcome ctx w r outcome = .ok w') :
    BondRun w (reportMoves w r outcome) w' ∧ CourtBonds w' := by
  obtain ⟨request, market, w1, called, reg, hrequest, hstatus, _, hdivide, _, rfl⟩ :=
    Oracle.reportCouncilOutcome_steps h
  obtain ⟨hrun1, hproposer, hdisputer⟩ := divideBonds_run hdivide
  have hid := (hw.ordered r request hrequest).1
  have hrun : BondRun w (reportMoves w r outcome) { w1 with
      registry := reg
      oracle := Oracle.writeRequest w.oracle (Oracle.finalized request outcome) } := by
    have hlast := hrun1.append (run_to { w1 with
      registry := reg
      oracle := Oracle.writeRequest w.oracle (Oracle.finalized request outcome) } rfl)
    rw [List.append_nil] at hlast
    unfold reportMoves
    rw [hrequest]
    exact hlast
  refine ⟨hrun, hw.rewrite hrun hrequest rfl rfl (fun hbooked => ?_)⟩
  have hbefore := hw.secured r request hrequest
  have hproposal := hbefore.proposal (Or.inr (Or.inr hstatus))
  have hdispute := hbefore.dispute (Or.inr hstatus)
  have hpaid : reportMoves w r outcome = divideMoves w.feeManager request r outcome := by
    unfold reportMoves
    rw [hrequest]
  rw [← hpaid] at hproposer hdisputer
  have hempty : ∀ user d, AtMost w.vault (request.id, user, d) request.bondAmount →
      request.bondAmount ≤ paidFrom (r, user, d) (reportMoves w r outcome) →
      w1.vault.bond (request.id, user, d) = some 0 := by
    intro user d hheld hpaid
    rw [hid] at hheld ⊢
    have hleft := hheld.emptied hrun hbooked hpaid
    exact hleft
  exact {
    undisputed := by simp [Oracle.finalized]
    proposal := by simp [Oracle.finalized]
    dispute := by simp [Oracle.finalized]
    released := fun _ => hempty _ _ hproposal hproposer
    divided := fun _ _ => hempty _ _ hdispute hdisputer }

/-- Every invocation of the oracle moves the bonds it names and keeps every request secured. -/
theorem oracle_bonds (hw : CourtBonds w) {op : OracleOp} (h : op.exec ctx w = .ok w') :
    BondRun w (oracleMoves w op) w' ∧ CourtBonds w' := by
  have hsetting : op.isSetting = true → BondRun w [] w' ∧ CourtBonds w' := by
    intro hop
    obtain ⟨admin, roles, paused, rfl⟩ := OracleOp.exec_setting hop h
    have hrun : BondRun w [] { w with oracle := { w.oracle with
        admin := admin
        roles := roles
        paused := paused } } := run_nil rfl
    exact ⟨hrun, hw.run hrun rfl rfl⟩
  cases op with
  | setAdmin admin => exact hsetting rfl
  | upgrade wasmHash => exact hsetting rfl
  | setRole role module => exact hsetting rfl
  | pause paused => exact hsetting rfl
  | requestResolution marketId questionHash rulesUri expiry bondAmount disputeWindow =>
    obtain ⟨requestId, h⟩ := world_ok.mp h
    obtain ⟨r1, r2, called, _, _, rfl, _, _, _, rfl⟩ := Oracle.requestResolution_steps h
    refine ⟨run_nil rfl, ⟨hw.sane, hw.booked, hw.ordered.start rfl rfl rfl, ?_⟩⟩
    intro k stored hk
    unfold Oracle.writeRequest at hk
    dsimp only [Oracle.newRequest] at hk
    rw [Store.set_get] at hk
    split at hk
    · obtain rfl := Option.some.inj hk
      exact ⟨fun _ => rfl, by simp, by simp, by simp, by simp⟩
    · exact hw.secured k stored hk
  | proposeOutcome proposer r outcome uri =>
    obtain ⟨request, market, w1, called, reg, hrequest, hstatus, _, _, _, hlock, _, rfl⟩ :=
      Oracle.proposeOutcome_steps h
    have hid := (hw.ordered r request hrequest).1
    have hundisputed := (hw.secured r request hrequest).undisputed (Or.inl hstatus)
    obtain ⟨hx, _, b, _, _, rfl⟩ := Vault.lockBond_ok hlock
    have hrun := BondRun.lock hlock (run_to { w with
      registry := reg
      oracle := Oracle.writeRequest w.oracle { request with
        hasProposal := true
        proposer := proposer
        proposedOutcome := outcome
        proposalEvidenceUri := uri
        proposedAt := ctx.now
        status := .proposed }
      bank := b
      vault := _ } rfl)
    refine ⟨?_, hw.rewrite hrun hrequest rfl rfl (fun _ => ?_)⟩
    · unfold oracleMoves
      dsimp only
      rw [hrequest]
      exact hrun
    · refine ⟨fun _ => hundisputed, fun _ => ⟨request.bondAmount, ?_, le_rfl⟩, by simp, by simp,
        by simp⟩
      dsimp only
      rw [hid, Store.set_get_self]
  | disputeOutcome disputer r outcome uri =>
    obtain ⟨request, market, w1, called, reg, hrequest, hstatus, _, _, _, _, hlock, _, rfl⟩ :=
      Oracle.disputeOutcome_steps h
    have hid := (hw.ordered r request hrequest).1
    have hproposal := (hw.secured r request hrequest).proposal (Or.inl hstatus)
    obtain ⟨hx, _, b, _, _, rfl⟩ := Vault.lockBond_ok hlock
    have hrun := BondRun.lock hlock (run_to { w with
      registry := reg
      oracle := Oracle.writeRequest w.oracle { request with
        hasDispute := true
        disputer := disputer
        disputedOutcome := outcome
        disputeEvidenceUri := uri
        disputedAt := ctx.now
        status := .disputed }
      bank := b
      vault := _ } rfl)
    refine ⟨?_, hw.rewrite hrun hrequest rfl rfl (fun _ => ?_)⟩
    · unfold oracleMoves
      dsimp only
      rw [hrequest]
      exact hrun
    · refine ⟨by simp, fun _ => hproposal.run hrun, fun _ => ⟨request.bondAmount, ?_, le_rfl⟩,
        by simp, by simp⟩
      dsimp only
      rw [hid, Store.set_get_self]
  | finalizeUndisputed r =>
    obtain ⟨outcome, h⟩ := world_ok.mp h
    obtain ⟨request, market, called, reg, w1, hrequest, hstatus, _, _, _, _, hpay, rfl⟩ :=
      Oracle.finalizeUndisputed_steps h
    have hid := (hw.ordered r request hrequest).1
    have hbefore := hw.secured r request hrequest
    have hsame := (BondsOnly.payBond hpay).oracle
    have hrun : BondRun w (oracleMoves w (.finalizeUndisputed r)) { w1 with
        oracle := Oracle.writeRequest w1.oracle (Oracle.finalized request outcome) } := by
      unfold oracleMoves
      dsimp only
      rw [hrequest]
      exact run_of_vault (by rfl) (run_pay hpay rfl)
    have hpaid : request.bondAmount ≤ paidFrom (request.id, request.proposer, false)
        (oracleMoves w (.finalizeUndisputed r)) := by
      unfold oracleMoves
      dsimp only
      rw [hrequest, hid]
      simp [paidFrom]
    have horacle : Oracle.writeRequest w1.oracle (Oracle.finalized request outcome) =
        Oracle.writeRequest w.oracle (Oracle.finalized request outcome) := by rw [hsame]
    refine ⟨hrun, hw.rewrite hrun hrequest horacle rfl (fun hbooked => ?_)⟩
    exact {
      undisputed := by simp [Oracle.finalized]
      proposal := by simp [Oracle.finalized]
      dispute := by simp [Oracle.finalized]
      released := fun _ => (hbefore.proposal (Or.inl hstatus)).emptied hrun hbooked hpaid
      divided := by
        intro _ hdispute
        have hnone := hbefore.undisputed (Or.inr hstatus)
        rw [show (Oracle.finalized request outcome).hasDispute = request.hasDispute from rfl,
          hnone] at hdispute
        cases hdispute }
  | escalateToCouncil r =>
    obtain ⟨request, market, called, caseId, c, reg, hrequest, hstatus, _, _, _, rfl⟩ :=
      Oracle.escalateToCouncil_steps h
    have hbefore := hw.secured r request hrequest
    refine ⟨run_nil rfl, hw.rewrite (run_nil rfl) hrequest rfl rfl (fun _ => ?_)⟩
    exact ⟨by simp, fun _ => hbefore.proposal (Or.inr (Or.inl hstatus)),
      fun _ => hbefore.dispute (Or.inl hstatus), by simp, by simp⟩
  | reportCouncilOutcome r outcome => exact report_bonds hw h

/-- Every invocation of the vault moves the bonds it names. -/
theorem vault_run (hctx : Outside .vault ctx) (hw : Sane w.vault) {op : VaultOp}
    (h : op.exec ctx w = .ok w') : BondRun w (vaultMoves op) w' := by
  cases hmoves : op.movesBond with
  | false =>
    have hnone : vaultMoves op = [] := by
      cases op <;> first | rfl | cases hmoves
    rw [hnone]
    exact .still (op.exec_sameBonds hctx hw hmoves h) (fun hsane => op.exec_sane hctx hsane h)
      (.done w')
  | true =>
    cases op with
    | lockBond token user r m x d => exact .lock h (.done w')
    | releaseBond token user r x d => exact .pay h (.done w')
    | slashBond token user r x d recipient => exact .pay h (.done w')
    | _ => cases hmoves

/-- Every move moves the bonds it names and keeps every request secured. -/
theorem CourtMove.bonds (hctx : Apart ctx) (hw : CourtBonds w) {op : CourtOp}
    (h : CourtMove ctx w op w') : BondRun w (op.bondMoves ctx w) w' ∧ CourtBonds w' := by
  cases h with
  | @council op _ hop horacle _ hvault _ =>
    have hnone : CourtOp.bondMoves ctx w (.council op) = [] := by
      cases op with
      | finalizeAndReportCase caseId => exact absurd rfl (hop caseId)
      | _ => rfl
    rw [hnone]
    exact ⟨run_nil hvault, hw.run (run_nil hvault) (by rw [horacle]) (by rw [horacle])⟩
  | @tally caseId c case outcome _ hfinal hcase h =>
    have hw1 : CourtBonds { w with council := c } := ⟨hw.sane, hw.booked, hw.ordered, hw.secured⟩
    obtain ⟨hrun, hkept⟩ := report_bonds hw1 h
    refine ⟨?_, hkept⟩
    unfold CourtOp.bondMoves councilMoves
    dsimp only
    rw [hfinal]
    dsimp only
    rw [hcase]
    exact run_of_vault (by rfl) hrun
  | oracle h => exact oracle_bonds hw h
  | registry h => exact ⟨run_nil rfl, hw.run (run_nil rfl) rfl rfl⟩
  | vault horacle _ _ h =>
    have hrun := vault_run hctx.2.2.2 hw.sane h
    exact ⟨hrun, hw.run hrun (by rw [horacle]) (by rw [horacle])⟩

end Bonds

/-- Bonds moved by a step. -/
def CourtStep.bondMoves (s : World × ℕ) : CourtStep → List BondMove
  | call ctx op => op.bondMoves ctx s.1
  | outside _ => []

/-- Runs of the four contracts with every move of a bond on record. -/
def bondCourt : System ((World × ℕ) × List BondMove) CourtStep Fault :=
  court.recorded [] (fun moves s step => moves ++ step.bondMoves s)

/-- What the ledger of bonds promises of a state and of the moves that led to it. -/
structure BondLedger (w : World) (moves : List BondMove) : Prop where
  booked : ∀ m d,
    Vault.bondTotal (w.vault.accounting m) d =
      w.vault.bond.total (Vault.bondTally w.vault.bondMarket m d)
  released : ∀ r request, w.oracle.request r = some request → request.status = .finalized →
    w.vault.bond (r, request.proposer, false) = some 0
  divided : ∀ r request, w.oracle.request r = some request → request.status = .finalized →
    request.hasDispute = true → w.vault.bond (r, request.disputer, true) = some 0
  covered : ∀ key, paidFrom key moves ≤ lockedIn key moves

/-- What every recorded run keeps: bonds are in order, and a bond holds what was
locked in it and not paid out. -/
structure Recorded (w : World) (moves : List BondMove) : Prop where
  bonds : CourtBonds w
  balance : ∀ key, (w.vault.bond key).getD 0 + paidFrom key moves = lockedIn key moves

namespace Recorded

variable {w w' : World} {moves moves' : List BondMove}

/-- A deployment has no bonds. -/
theorem deployed (l : Launch) : Recorded (deploy l) [] where
  bonds := {
    sane := Vault.freshVault_sane _ _ _
    booked := {
      left_nonneg := by
        intro k left hk
        cases hk
      booked := by
        intro m d
        cases d with
        | true => rfl
        | false => rfl }
    ordered := by
      intro r request hr
      cases hr
    secured := by
      intro r request hr
      cases hr }
  balance := fun _ => rfl

/-- More moves of bonds keep the balance of each. -/
theorem run (h : Recorded w moves) (hrun : BondRun w moves' w') (hbonds : CourtBonds w') :
    Recorded w' (moves ++ moves') := by
  refine ⟨hbonds, fun key => ?_⟩
  have hmoved := hrun.balance key
  have hbefore := h.balance key
  rw [Vault.paidFrom_append, Vault.lockedIn_append]
  omega

/-- What is recorded is the ledger of bonds. -/
theorem ledger (h : Recorded w moves) : BondLedger w moves where
  booked := h.bonds.booked.booked
  released := by
    intro r request hr hfinal
    have hempty := (h.bonds.secured r request hr).released hfinal
    rw [(h.bonds.ordered r request hr).1] at hempty
    exact hempty
  divided := by
    intro r request hr hfinal hdispute
    have hempty := (h.bonds.secured r request hr).divided hfinal hdispute
    rw [(h.bonds.ordered r request hr).1] at hempty
    exact hempty
  covered := by
    intro key
    have hbalance := h.balance key
    have hnonneg : 0 ≤ (w.vault.bond key).getD 0 := by
      cases hk : w.vault.bond key with
      | none => exact le_rfl
      | some left => exact h.bonds.booked.left_nonneg key left hk
    omega

end Recorded

/-- One step of a run moves the bonds it records. -/
theorem court_bonds {s s' : World × ℕ} {step : CourtStep} (hw : CourtBonds s.1)
    (h : court.step s step = .ok s') :
    BondRun s.1 (step.bondMoves s) s'.1 ∧ CourtBonds s'.1 := by
  rcases court_step h with ⟨ctx, op, rfl, hapart, _, _, _, hmove⟩ | ⟨around, rfl, rfl⟩
  · exact hmove.bonds hapart hw
  · exact ⟨run_nil rfl, hw.run (run_nil rfl) rfl rfl⟩

/-- In every run of council, oracle, registry and vault, whoever locks bonds of
whatever request: every market books what is left of its bonds, a finalized
request has nothing left in its bonds, and no bond pays more than was locked. -/
theorem bondLedger {s : (World × ℕ) × List BondMove} (h : bondCourt.Reachable s) :
    BondLedger s.1.1 s.2 := by
  have hrecorded : Recorded s.1.1 s.2 := by
    refine System.Guarded.invariant (I := fun s => Recorded s.1.1 s.2) ?_ ?_ h
    · rintro s ⟨⟨l, hl⟩, hstart⟩
      rw [hl, hstart]
      exact .deployed l
    · intro s step s' hs _ hstep
      obtain ⟨hstep, hnote⟩ := System.recorded_step.mp hstep
      obtain ⟨hrun, hbonds⟩ := court_bonds hs.bonds hstep
      rw [hnote]
      exact hs.run hrun hbonds
  exact hrecorded.ledger

/-- Bob locks a bond of a request that is not there, alice's outcome for market 1
is disputed, and nobody votes on it. -/
def strayBond : List CourtStep :=
  [.call byFactory (.registry (.registerMarket sampleConfig 2 3 1)),
    .call byFactory (.registry (.activateMarket 1)),
    .call ⟨900, [bob], []⟩ (.vault (.lockBond sampleToken bob 7 1 40 true)),
    .call ⟨1000, [], []⟩ (.oracle (.requestResolution 1 0 "rules" 1000 10 100)),
    .call ⟨1000, [alice], []⟩ (.oracle (.proposeOutcome alice 1 .yes "yes")),
    .call ⟨1000, [bob], []⟩ (.oracle (.disputeOutcome bob 1 .no "no")),
    .call ⟨1000, [], []⟩ (.oracle (.escalateToCouncil 1)),
    .call ⟨1201, [], []⟩ (.council (.finalizeAndReportCase 1))]

/-- After it the stray bond is still booked for the market. -/
theorem bondLedger_after_strayBond : ∃ s,
    bondCourt.runs ((deploy sampleLaunch, 0), []) strayBond = .ok s ∧
      Vault.bondTotal (s.1.1.vault.accounting 1) true = 40 ∧ BondLedger s.1.1 s.2 := by
  obtain ⟨s, hs, hcheck⟩ := System.runs_of_decide (S := bondCourt) ((deploy sampleLaunch, 0), [])
    strayBond (fun s => Vault.bondTotal (s.1.1.vault.accounting 1) true = 40 ∧
      (s.1.1.oracle.request 1).map ResolutionRequest.status = some .finalized) (by decide +kernel)
  have hreach : bondCourt.Reachable s :=
    System.Reachable.runs (.init ⟨⟨sampleLaunch, rfl⟩, rfl⟩) strayBond hs
  exact ⟨s, hs, (of_decide_eq_true hcheck).1, bondLedger hreach⟩

end DikeProtocol.Resolution
