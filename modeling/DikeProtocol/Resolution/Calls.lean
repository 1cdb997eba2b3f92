import DikeProtocol.Resolution.Agenda
import DikeProtocol.Resolution.Progress
import Mathlib.Data.Set.Finite.Lattice

/-!
# When the calls of a resolution are accepted

A call is accepted at a time when somebody can sign for it while balances and
the other contracts are as the caller needs them. In a run that keeps the
agenda, that is a matter of the status, of the time, and of what still fits.
-/

namespace DikeProtocol.Resolution

open Lib
open Oracle (OracleOp)
open Registry (Ordered)
open Vault (VaultOp bondTotal)

/-- A world with the environment of another: balances and the other contracts. -/
def within (around w : World) : World :=
  { around with
    council := w.council
    oracle := w.oracle
    registry := w.registry
    vault := w.vault
    host := w.host }

/-- Somebody can make the call at a time, in some environment. -/
def Accepts (s : World × ℕ) (now : ℕ) (op : CourtOp) : Prop :=
  ∃ around signers s1 s2, court.step s (.outside around) = .ok s1 ∧
    court.step s1 (.call ⟨now, signers, []⟩ op) = .ok s2

/-- In another environment a world stands. -/
theorem Standing.within {w : World} (hw : Standing w) (around : World) :
    Standing (within around w) where
  lockstep := hw.lockstep.same rfl rfl rfl rfl hw.lockstep.markets rfl
  bonds := hw.bonds.run (run_nil rfl) rfl rfl
  ready := hw.ready.run { hw.ready.wired with } (.of_eq rfl) (run_nil rfl) (fun _ => rfl) rfl rfl
    rfl
  fits := hw.fits

/-- And keeps its agenda. -/
theorem Agenda.within {w : World} {now : ℕ} (ha : Agenda w now) (around : World) :
    Agenda (within around w) now :=
  ha.keep le_rfl (.of_eq rfl) (.of_eq rfl rfl) ha.vaultRegistry ha.vaultTokens

/-- An accepted call comes in time, from outside, and its entry point succeeds. -/
theorem accepts_iff {s : World × ℕ} {now : ℕ} {op : CourtOp} :
    Accepts s now op ↔ s.2 ≤ now ∧ now ≤ u64Max ∧ ∃ around signers w',
      Apart ⟨now, signers, []⟩ ∧ op.exec ⟨now, signers, []⟩ (within around s.1) = .ok w' := by
  constructor
  · rintro ⟨around, signers, s1, s2, hout, hcall⟩
    obtain rfl := ok_ok.mp hout
    obtain ⟨_, hapart, hcall⟩ := bind_ok.mp hcall
    obtain ⟨_, htime, hcall⟩ := bind_ok.mp hcall
    obtain ⟨w', hexec, _⟩ := bind_ok.mp hcall
    have htime' : ¬(now < s.2 ∨ u64Max < now) := refuse_ok.mp htime
    exact ⟨by omega, by omega, around, signers, w', not_not.mp (refuse_ok.mp hapart), hexec⟩
  · rintro ⟨hnow, hfits, around, signers, w', hapart, hexec⟩
    refine ⟨around, signers, _, (w', now), rfl, ?_⟩
    have htime : ¬(now < s.2 ∨ u64Max < now) := by omega
    refine bind_ok.mpr ⟨(), refuse_ok.mpr (not_not.mpr hapart), ?_⟩
    exact bind_ok.mpr ⟨(), refuse_ok.mpr htime, bind_ok.mpr ⟨w', hexec, rfl⟩⟩

/-- An account signs for itself from outside all contracts. -/
theorem apart_account (now n : ℕ) : Apart ⟨now, [.account n], []⟩ := by
  refine ⟨⟨?_, ?_⟩, ⟨?_, ?_⟩, ⟨?_, ?_⟩, ?_, ?_⟩ <;> simp

/-- The environment in which an owner holds an amount of a token. -/
def funded (w : World) (token : Asset) (owner : Address) (amount : ℤ) : World :=
  { w with bank := Bank.empty.issue token owner amount }

/-- What was issued is held. -/
theorem funded_bal (w : World) {token : Asset} {owner : Address} {amount : ℤ} (h0 : 0 ≤ amount)
    (hmax : amount ≤ i128Max) : (funded w token owner amount).bank.bal token owner = amount := by
  have htotal : Bank.empty.balance.total (supplyOf token) = 0 := Store.total_empty _
  unfold funded Bank.issue
  rw [dif_pos ⟨h0, by rw [htotal]; omega⟩]
  unfold Bank.bal
  dsimp only
  rw [Store.set_get_self]
  exact zero_add _

/-- From some account on, no account has anything in a store. -/
theorem exists_fresh_account {K V : Type} [Inhabited V] (s : Store K V) (key : Address → K)
    (hkey : Function.Injective key) : ∃ n, ∀ k, n ≤ k → s (key (.account k)) = default := by
  have hinjective : Function.Injective fun k => key (.account k) := by
    intro a b h
    exact Address.account.inj (hkey h)
  have hfinite : Set.Finite {k | key (.account k) ∈ s.written} :=
    s.written.finite_toSet.preimage hinjective.injOn
  obtain ⟨n, hn⟩ := hfinite.bddAbove
  refine ⟨n + 1, fun k hk => s.get_unwritten _ fun hwritten => ?_⟩
  exact absurd (hn hwritten) (by omega)

section Bonds

variable {w : World} {n r : ℕ} {m : MarketId} {market : MarketData} {x : ℤ} {d : Bool}

/-- An account locks its first bond of a request when it holds it and the books take it. -/
theorem lockBond_of_room (now : ℕ)
    (hregistry : w.vault.roles .registry = some (.contract .registry))
    (hm : w.registry.market m = some market) (hx : 0 < x)
    (hfresh : w.vault.bond (r, .account n, d) = none)
    (hbal : x ≤ w.bank.bal market.collateral (.account n))
    (hbooks : InRange (bondTotal (w.vault.accounting m) d + x)) :
    ∃ w', Vault.lockBond ⟨now, [.account n], [.contract .oracle]⟩ w market.collateral
      (.account n) r m x d = .ok w' := by
  have hcall : Ctx.call ⟨now, [.account n], [.contract .oracle]⟩ .vault (.contract .registry)
      .registry = .ok ⟨now, [.account n], [.contract .vault, .contract .oracle]⟩ :=
    Ctx.call_ok.mpr ⟨rfl, by simp, rfl⟩
  have hcollateral : Vault.requireMarketCollateral ⟨now, [.account n], [.contract .oracle]⟩ w
      market.collateral m = .ok () := by
    refine bind_ok.mpr ⟨market, ?_, refuse_ok.mpr (not_not.mpr rfl)⟩
    exact bind_ok.mpr ⟨_, readRole_ok.mpr hregistry, bind_ok.mpr ⟨_, hcall,
      Registry.getMarket_ok.mpr hm⟩⟩
  obtain ⟨b, hb⟩ : ∃ b, w.bank.transfer market.collateral (.account n) (.contract .vault) x =
      .ok b := Bank.transfer_of_held hx.le hbal
  obtain ⟨a, ha⟩ : ∃ a, Vault.moveBond (w.vault.accounting m) d x = .ok a := by
    unfold Vault.moveBond
    cases d with
    | true =>
      exact ⟨_, bind_ok.mpr ⟨_, checkedAdd_ok.mpr ⟨rfl, hbooks⟩, rfl⟩⟩
    | false =>
      exact ⟨_, bind_ok.mpr ⟨_, checkedAdd_ok.mpr ⟨rfl, hbooks⟩, rfl⟩⟩
  have hlocked : transferToken ⟨now, [.account n], [.contract .oracle]⟩ .vault w market.collateral
      (.account n) (.contract .vault) x = .ok { w with bank := b } :=
    transferToken_ok.mpr ⟨Or.inl (List.mem_singleton.mpr rfl), b, hb, rfl⟩
  have hsigned : requireAuth ⟨now, [.account n], [.contract .oracle]⟩ (.account n) = .ok () :=
    requireAuth_ok.mpr (Or.inl (List.mem_singleton.mpr rfl))
  unfold Vault.lockBond
  rw [bind_of_ok hsigned, bind_of_ok (refuse_ok (u := ()).mpr (not_le.mpr hx)),
    bind_of_ok hcollateral, bind_of_ok (refuse_ok (u := ()).mpr (not_not.mpr hfresh)),
    bind_of_ok hlocked]
  dsimp only
  rw [bind_of_ok ha]
  exact ⟨_, rfl⟩

end Bonds

section Oracle

variable {s : World × ℕ} {now r : ℕ} {m : MarketId} {market : MarketData}
  {request : ResolutionRequest}

/-- The registry accepts the oracle's mark along the table. -/
theorem oracleMark_of_valid {w : World} (now : ℕ) (signers : List Address) {next : MarketStatus}
    (hrole : w.registry.roles .oracle = some (.contract .oracle))
    (hm : w.registry.market m = some market)
    (hvalid : Registry.validTransition market.status next = true) :
    ∃ reg, Registry.oracleMark next ⟨now, signers, [.contract .oracle]⟩ w.registry m = .ok reg :=
  ⟨_, bind_ok.mpr ⟨(), requireRole_ok.mpr ⟨_, hrole, Or.inr rfl⟩,
    transitionInternal_ok.mpr ⟨market, hm, hvalid, rfl⟩⟩⟩

/-- The market of a stored request, with its status. -/
theorem Lockstep.market_of {w : World} (h : Lockstep w) (hr : w.oracle.request r = some request)
    (hm : w.registry.market request.marketId = some market) : Paired request market := by
  obtain ⟨stored, hstored, hpaired⟩ := h.paired r request hr
  rw [hm] at hstored
  obtain rfl := Option.some.inj hstored
  exact hpaired

/-- A market that is live or closed has no request on file. -/
theorem Agenda.unfiled {w : World} {now : ℕ} (ha : Agenda w now) (hlock : Lockstep w)
    (hm : w.registry.market m = some market)
    (hstatus : market.status = .live ∨ market.status = .tradingClosed) :
    w.oracle.marketRequest m = none := by
  cases hfiled : w.oracle.marketRequest m with
  | none => rfl
  | some r =>
    obtain ⟨request, hr, rfl⟩ := ha.filed m r hfiled
    have hpaired := (hlock.market_of hr hm).status
    generalize market.status = status at hstatus hpaired
    rcases hstatus with rfl | rfl <;> generalize request.status = own at hpaired <;> cases hpaired

/-- A live market that has expired is closed by anyone. -/
theorem closeTrading_of_expired {r : RegistryState} (hr : Ordered r)
    (hm : r.market m = some market) (hlive : market.status = .live)
    (hexpired : market.expiry ≤ now) :
    ∃ r', Registry.closeTrading (forKeeper now) r m = .ok r' ∧ r'.roles = r.roles ∧
      r'.market m = some { market with status := .tradingClosed } := by
  have hvalid : Registry.validTransition market.status .tradingClosed = true := by
    rw [hlive]
    rfl
  refine ⟨_, bind_ok.mpr ⟨market, orFault_ok.mpr hm, bind_ok.mpr ⟨(), refuse_ok.mpr
    (not_lt.mpr hexpired), transitionInternal_ok.mpr ⟨market, hm, hvalid, rfl⟩⟩⟩, rfl, ?_⟩
  unfold Registry.writeMarket
  dsimp only
  rw [(hr.registered m market hm).1, Store.set_get_self]

/-- The oracle records the request of a closed market. -/
theorem markResolutionRequested_of_closed {reg : RegistryState} (now r : ℕ)
    (hrole : reg.roles .oracle = some (.contract .oracle)) (hm : reg.market m = some market)
    (hclosed : market.status = .tradingClosed) :
    ∃ reg', Registry.markResolutionRequested (forKeeper now) reg m r = .ok reg' := by
  have hvalid : ¬Registry.validTransition market.status .resolutionRequested = false := by
    rw [hclosed]
    decide
  exact ⟨_, bind_ok.mpr ⟨(), requireRole_ok.mpr ⟨_, hrole, Or.inr rfl⟩,
    bind_ok.mpr ⟨market, orFault_ok.mpr hm, bind_ok.mpr ⟨(), refuse_ok.mpr hvalid, rfl⟩⟩⟩⟩

/-- Anyone requests the resolution of an expired market that is live or closed, on its own
terms, while request numbers last. -/
theorem requestResolution_of_due {w : World} {last : ℕ} (hw : Standing w) (ha : Agenda w last)
    (hpaused : w.oracle.paused = false) (hm : w.registry.market m = some market)
    (hexpired : market.expiry ≤ now)
    (hstatus : market.status = .live ∨ market.status = .tradingClosed)
    (hnumber : w.oracle.nextRequestId + 1 ≤ u64Max) :
    ∃ w', (OracleOp.requestResolution m market.questionHash market.rulesUri market.expiry
      market.bondAmount market.disputeWindow).exec (keeper now) w = .ok w' := by
  obtain ⟨hlock, _, ⟨hwired, _, _⟩, _⟩ := hw
  have hterms := ha.terms m market hm
  have hopen : market.hasFinalOutcome = false := by
    by_contra hk
    have hresolved := hlock.markets.finalResolved m market hm (Bool.eq_true_of_not_eq_false hk)
    rw [hresolved] at hstatus
    rcases hstatus with hk | hk <;> cases hk
  have hloads : Oracle.loadMarket (keeper now) w m = .ok market :=
    Oracle.loadMarket_ok.mpr ⟨hwired.oracleRegistry, keeper_free now (by decide), hm⟩
  have hinput : ¬(market.rulesUri = "" ∨ market.bondAmount ≤ 0 ∨ market.disputeWindow = 0) := by
    rintro (hk | hk | hk)
    · exact hterms.rules hk
    · exact absurd hterms.bond (not_lt.mpr hk)
    · exact hterms.window.ne' hk
  have hunresolved : ¬(market.hasFinalOutcome = true ∨ market.status = .resolved ∨
      market.status = .cancelled) := by
    rw [hopen]
    rcases hstatus with hk | hk <;> rw [hk] <;> decide
  have hsame : Oracle.validateRequestMatchesMarket market market.questionHash market.rulesUri
      market.expiry market.bondAmount market.disputeWindow = .ok () := refuse_ok.mpr (by simp)
  have hunpaused : Oracle.ensureNotPaused w.oracle = .ok () :=
    refuse_ok.mpr (by rw [hpaused]; decide)
  have hlate : ¬(keeper now).now < market.expiry := not_lt.mpr hexpired
  have hnext := checkedAddU64_ok.mpr ⟨rfl, hnumber⟩
  obtain ⟨reg, hclosed, hroles, closed, hstored, hdone⟩ : ∃ reg,
      (if market.status = .live then
        Oracle.callRegistry (keeper now) w (fun called r => Registry.closeTrading called r m)
      else do
        refuse (market.status ≠ .tradingClosed) (.error .invalidStatus)
        return w) = .ok { w with registry := reg } ∧ reg.roles = w.registry.roles ∧
      ∃ closed, reg.market m = some closed ∧ closed.status = .tradingClosed := by
    rcases hstatus with hlive | hclosed
    · obtain ⟨reg, hclose, hroles, hstored⟩ :=
        closeTrading_of_expired hlock.markets hm hlive hexpired
      rw [if_pos hlive]
      exact ⟨reg, Oracle.callRegistry_ok.mpr ⟨hwired.oracleRegistry,
        keeper_free now (by decide), reg, hclose, rfl⟩, hroles, _, hstored, rfl⟩
    · rw [if_neg (by rw [hclosed]; decide)]
      exact ⟨w.registry, bind_ok.mpr ⟨(), refuse_ok.mpr (not_not.mpr hclosed), rfl⟩, rfl,
        market, hm, hclosed⟩
  obtain ⟨reg', hmark⟩ := markResolutionRequested_of_closed now
    w.oracle.nextRequestId (hroles ▸ hlock.wired) hstored hdone
  have hmarked : ∀ o : OracleState, o.roles = w.oracle.roles →
      Oracle.callRegistry (keeper now) { w with registry := reg, oracle := o } (fun called r =>
        Registry.markResolutionRequested called r m w.oracle.nextRequestId) =
        .ok { w with registry := reg', oracle := o } := fun o ho =>
    Oracle.callRegistry_ok.mpr ⟨(congrArg (fun roles => roles .registry) ho).trans
      hwired.oracleRegistry, keeper_free now (by decide), reg', hmark, rfl⟩
  obtain ⟨w', hrequest⟩ : ∃ w', Oracle.requestResolution (keeper now) w m market.questionHash
      market.rulesUri market.expiry market.bondAmount market.disputeWindow =
      .ok (w.oracle.nextRequestId, w') := by
    unfold Oracle.requestResolution
    rw [bind_of_ok hunpaused, bind_of_ok (refuse_ok (u := ()).mpr hinput), bind_of_ok hloads,
      bind_of_ok hsame, bind_of_ok (refuse_ok (u := ()).mpr hlate),
      bind_of_ok (refuse_ok (u := ()).mpr hunresolved), bind_of_ok hclosed,
      bind_of_ok (refuse_ok (u := ()).mpr (not_not.mpr (ha.unfiled hlock hm hstatus)))]
    dsimp only
    rw [bind_of_ok hnext]
    exact ⟨_, bind_ok.mpr ⟨_, hmarked _ rfl, rfl⟩⟩
  exact ⟨w', world_ok.mpr ⟨_, hrequest⟩⟩

/-- A request for resolution of a stored market is accepted when it is due, and live or closed,
while request numbers last. -/
theorem accepts_requestResolution (hw : Standing s.1) (ha : Agenda s.1 s.2)
    (hpaused : s.1.oracle.paused = false) (hnow : s.2 ≤ now) (hfits : now ≤ u64Max)
    (hm : s.1.registry.market m = some market) :
    (∃ questionHash rulesUri expiry bondAmount disputeWindow, Accepts s now
      (.oracle (.requestResolution m questionHash rulesUri expiry bondAmount disputeWindow))) ↔
      market.expiry ≤ now ∧ (market.status = .live ∨ market.status = .tradingClosed) ∧
        s.1.oracle.nextRequestId + 1 ≤ u64Max := by
  constructor
  · rintro ⟨questionHash, rulesUri, expiry, bondAmount, disputeWindow, haccepts⟩
    obtain ⟨_, _, around, signers, w', _, hexec⟩ := accepts_iff.mp haccepts
    obtain ⟨requestId, hexec⟩ := world_ok.mp hexec
    obtain ⟨hnumber, stored, hstored, hexpired, hstatus⟩ := requestResolution_guards hexec
    obtain rfl := Option.some.inj (hm.symm.trans hstored)
    exact ⟨hexpired, hstatus, hnumber⟩
  · rintro ⟨hexpired, hstatus, hnumber⟩
    obtain ⟨w', hexec⟩ := requestResolution_of_due hw ha hpaused hm hexpired hstatus hnumber
    exact ⟨_, _, _, _, _, accepts_iff.mpr ⟨hnow, hfits, s.1, [], w', keeper_apart now, hexec⟩⟩

end Oracle

section Bonded

variable {s : World × ℕ} {w : World} {now n r : ℕ} {market : MarketData}
  {request : ResolutionRequest} {d : Bool}

/-- An account invokes the oracle for itself. -/
def byAccount (now n : ℕ) : Ctx := ⟨now, [.account n], []⟩

/-- It signs for itself. -/
theorem byAccount_signed (now n : ℕ) : requireAuth (byAccount now n) (.account n) = .ok () :=
  requireAuth_ok.mpr (Or.inl (List.mem_singleton.mpr rfl))

/-- Nobody is on the stack of its invocation but the oracle. -/
theorem byAccount_free (now n : ℕ) {c : Contract} (hc : c ≠ .oracle) :
    Address.contract c ∉ .contract .oracle :: (byAccount now n).callers := by
  simp [byAccount, hc]

/-- The account that holds the bond of a request and has none locked in it can lock it. -/
theorem callVault_lockBond (now : ℕ) (hw : Standing w) {last : ℕ} (ha : Agenda w last)
    (hr : w.oracle.request r = some request)
    (hm : w.registry.market request.marketId = some market)
    (hfresh : w.vault.bond (r, .account n, d) = none)
    (hbal : request.bondAmount ≤ w.bank.bal market.collateral (.account n))
    (hbooks : InRange (bondTotal (w.vault.accounting request.marketId) d + request.bondAmount)) :
    ∃ w1, Oracle.callVault (byAccount now n) w (fun called w => Vault.lockBond called w
      market.collateral (.account n) r request.marketId request.bondAmount d) = .ok w1 ∧
      w1.oracle = w.oracle ∧ w1.registry = w.registry := by
  obtain ⟨_, _, ⟨hwired, hpending, _⟩, _⟩ := hw
  have hbond := (hpending r request hr).bond
  obtain ⟨w1, hlock⟩ := lockBond_of_room now ha.vaultRegistry hm hbond hfresh hbal hbooks
  have hfree := byAccount_free now n (by decide : Contract.vault ≠ .oracle)
  refine ⟨w1, Oracle.callVault_ok.mpr ⟨hwired.oracleVault, hfree, hlock⟩, ?_⟩
  obtain ⟨_, _, b, _, _, rfl⟩ := Vault.lockBond_ok hlock
  exact ⟨rfl, rfl⟩

/-- The oracle marks a market along the table. -/
theorem callRegistry_mark (hw : Standing w) {w1 : World} {after : ResolutionRequest} {m : MarketId}
    (horacle : w1.oracle = w.oracle) (hregistry : w1.registry = w.registry)
    (hm : w.registry.market m = some market) {next : MarketStatus}
    (hvalid : Registry.validTransition market.status next = true) :
    ∃ w', Oracle.callRegistry (byAccount now n)
      { w1 with oracle := Oracle.writeRequest w1.oracle after }
      (fun called r => Registry.oracleMark next called r m) = .ok w' := by
  obtain ⟨hlock, _, ⟨hwired, _, _⟩, _⟩ := hw
  obtain ⟨reg, hmark⟩ := oracleMark_of_valid now [.account n] hlock.wired hm hvalid
  exact ⟨_, Oracle.callRegistry_ok.mpr ⟨(congrArg (fun o => o.roles .registry) horacle).trans
    hwired.oracleRegistry, byAccount_free now n (by decide), reg, hregistry ▸ hmark, rfl⟩⟩

/-- A requested outcome is proposed with the bond, while the window and the bond fit. -/
theorem proposeOutcome_of_room (hw : Standing w) {last : ℕ} (ha : Agenda w last)
    (hr : w.oracle.request r = some request) (hstatus : request.status = .requested)
    (hm : w.registry.market request.marketId = some market)
    (hwindow : now + request.disputeWindow ≤ u64Max)
    (hfresh : w.vault.bond (r, .account n, false) = none)
    (hbal : request.bondAmount ≤ w.bank.bal market.collateral (.account n))
    (hbooks : InRange (bondTotal (w.vault.accounting request.marketId) false +
      request.bondAmount)) :
    ∃ w', Oracle.proposeOutcome (byAccount now n) w (.account n) r .yes "evidence" = .ok w' := by
  have hwired := hw.ready.wired
  have hmarket : Registry.validTransition market.status .proposed = true := by
    have hpaired := (hw.lockstep.market_of hr hm).status
    rw [hstatus] at hpaired
    generalize market.status = status at hpaired
    cases hpaired
    rfl
  obtain ⟨w1, hlocked, horacle, hregistry⟩ := callVault_lockBond now hw ha hr hm hfresh hbal
    hbooks
  have hloads : Oracle.loadMarket (byAccount now n) w request.marketId = .ok market :=
    Oracle.loadMarket_ok.mpr ⟨hwired.oracleRegistry, byAccount_free now n (by decide), hm⟩
  have hread : Oracle.readRequest w.oracle r = .ok request := orFault_ok.mpr hr
  have hdeadline : Oracle.disputeDeadline (byAccount now n).now request.disputeWindow =
      .ok (now + request.disputeWindow) := checkedAddU64_ok.mpr ⟨rfl, hwindow⟩
  unfold Oracle.proposeOutcome
  rw [bind_of_ok (byAccount_signed now n), bind_of_ok (refuse_ok (u := ()).mpr (by decide)),
    bind_of_ok hread, bind_of_ok (refuse_ok (u := ()).mpr (not_not.mpr hstatus)),
    bind_of_ok hdeadline, bind_of_ok hloads, bind_of_ok hlocked]
  dsimp only
  exact callRegistry_mark hw horacle hregistry hm hmarket

/-- A proposal is disputed in its window with the bond, while the bond fits. -/
theorem disputeOutcome_of_room (hw : Standing w) {last : ℕ} (ha : Agenda w last)
    (hr : w.oracle.request r = some request) (hstatus : request.status = .proposed)
    (hm : w.registry.market request.marketId = some market)
    (hwindow : now ≤ request.proposedAt + request.disputeWindow)
    (hfresh : w.vault.bond (r, .account n, true) = none)
    (hbal : request.bondAmount ≤ w.bank.bal market.collateral (.account n))
    (hbooks : InRange (bondTotal (w.vault.accounting request.marketId) true +
      request.bondAmount)) :
    ∃ outcome w', Oracle.disputeOutcome (byAccount now n) w (.account n) r outcome "evidence" =
      .ok w' := by
  have hwired := hw.ready.wired
  have hmarket : Registry.validTransition market.status .disputed = true := by
    have hpaired := (hw.lockstep.market_of hr hm).status
    rw [hstatus] at hpaired
    rw [hpaired.of_proposed]
    rfl
  obtain ⟨outcome, hdiffer⟩ : ∃ outcome : Outcome, request.proposedOutcome ≠ outcome := by
    by_cases hyes : request.proposedOutcome = .yes
    · exact ⟨.no, by rw [hyes]; decide⟩
    · exact ⟨.yes, hyes⟩
  obtain ⟨w1, hlocked, horacle, hregistry⟩ := callVault_lockBond now hw ha hr hm hfresh hbal
    hbooks
  have hloads : Oracle.loadMarket (byAccount now n) w request.marketId = .ok market :=
    Oracle.loadMarket_ok.mpr ⟨hwired.oracleRegistry, byAccount_free now n (by decide), hm⟩
  have hread : Oracle.readRequest w.oracle r = .ok request := orFault_ok.mpr hr
  have hproposal : ¬request.hasProposal = false := by
    rw [((hw.ready.pending r request hr).proposal (Or.inl hstatus)).1]
    decide
  have hdeadline : Oracle.disputeDeadline request.proposedAt request.disputeWindow =
      .ok (request.proposedAt + request.disputeWindow) :=
    checkedAddU64_ok.mpr ⟨rfl, ha.timely r request hr hstatus⟩
  have hopen : ¬(byAccount now n).now > request.proposedAt + request.disputeWindow :=
    not_lt.mpr hwindow
  refine ⟨outcome, ?_⟩
  unfold Oracle.disputeOutcome
  rw [bind_of_ok (byAccount_signed now n), bind_of_ok (refuse_ok (u := ()).mpr (by decide)),
    bind_of_ok hread, bind_of_ok (refuse_ok (u := ()).mpr (not_not.mpr hstatus)),
    bind_of_ok (refuse_ok (u := ()).mpr hproposal), bind_of_ok hdeadline,
    bind_of_ok (refuse_ok (u := ()).mpr hopen), bind_of_ok (refuse_ok (u := ()).mpr hdiffer),
    bind_of_ok hloads, bind_of_ok hlocked]
  dsimp only
  exact callRegistry_mark hw horacle hregistry hm hmarket

/-- In some environment an account without a bond of the request holds the collateral for one. -/
theorem exists_bonded (w : World) (r : ℕ) (d : Bool) (collateral : Asset) {x : ℤ} (h0 : 0 ≤ x)
    (hmax : x ≤ i128Max) : ∃ n, w.vault.bond (r, .account n, d) = none ∧
      x ≤ (funded w collateral (.account n) x).bank.bal collateral (.account n) := by
  obtain ⟨n, hn⟩ := exists_fresh_account w.vault.bond (fun user => (r, user, d))
    (fun a b hab => by simpa using hab)
  exact ⟨n, hn n le_rfl, (funded_bal w h0 hmax).ge⟩

/-- Proposals are accepted of a requested outcome, while the window and the bond fit. -/
theorem accepts_proposeOutcome (hw : Standing s.1) (ha : Agenda s.1 s.2) (hnow : s.2 ≤ now)
    (hr : s.1.oracle.request r = some request) :
    (∃ proposer outcome uri, Accepts s now (.oracle (.proposeOutcome proposer r outcome uri))) ↔
      request.status = .requested ∧ now + request.disputeWindow ≤ u64Max ∧
        InRange (bondTotal (s.1.vault.accounting request.marketId) false +
          request.bondAmount) := by
  constructor
  · rintro ⟨proposer, outcome, uri, haccepts⟩
    obtain ⟨_, _, around, signers, w', _, hexec⟩ := accepts_iff.mp haccepts
    obtain ⟨stored, market, w1, called, reg, hstored, hstatus, _, hwindow, _, hlocked, _⟩ :=
      Oracle.proposeOutcome_steps hexec
    obtain rfl := Option.some.inj (hr.symm.trans hstored)
    obtain ⟨_, _, b, _, hbooks, _⟩ := Vault.lockBond_ok hlocked
    exact ⟨hstatus, hwindow, hbooks⟩
  · rintro ⟨hstatus, hwindow, hbooks⟩
    obtain ⟨market, hm, _⟩ := hw.lockstep.paired r request hr
    have htotal := hw.bonds.booked.nonneg request.marketId false
    have hmax : request.bondAmount ≤ i128Max := by
      have hroom := hbooks.2
      omega
    obtain ⟨n, hfresh, hbal⟩ := exists_bonded s.1 r false market.collateral
      (hw.ready.pending r request hr).bond.le hmax
    have hthere := hw.within (funded s.1 market.collateral (.account n) request.bondAmount)
    obtain ⟨w', hexec⟩ := proposeOutcome_of_room hthere (ha.within _) hr hstatus hm hwindow hfresh
      hbal hbooks
    exact ⟨_, _, _, accepts_iff.mpr ⟨hnow, by omega, _, _, w', apart_account now n, hexec⟩⟩

/-- Disputes are accepted of a proposal in its window, while the bond fits. -/
theorem accepts_disputeOutcome (hw : Standing s.1) (ha : Agenda s.1 s.2) (hnow : s.2 ≤ now)
    (hr : s.1.oracle.request r = some request) :
    (∃ disputer outcome uri, Accepts s now (.oracle (.disputeOutcome disputer r outcome uri))) ↔
      request.status = .proposed ∧ now ≤ request.proposedAt + request.disputeWindow ∧
        InRange (bondTotal (s.1.vault.accounting request.marketId) true +
          request.bondAmount) := by
  constructor
  · rintro ⟨disputer, outcome, uri, haccepts⟩
    obtain ⟨_, _, around, signers, w', _, hexec⟩ := accepts_iff.mp haccepts
    obtain ⟨stored, market, w1, called, reg, hstored, hstatus, _, _, hwindow, _, hlocked, _⟩ :=
      Oracle.disputeOutcome_steps hexec
    obtain rfl := Option.some.inj (hr.symm.trans hstored)
    obtain ⟨_, _, b, _, hbooks, _⟩ := Vault.lockBond_ok hlocked
    exact ⟨hstatus, hwindow, hbooks⟩
  · rintro ⟨hstatus, hwindow, hbooks⟩
    obtain ⟨market, hm, _⟩ := hw.lockstep.paired r request hr
    have htotal := hw.bonds.booked.nonneg request.marketId true
    have hmax : request.bondAmount ≤ i128Max := by
      have hroom := hbooks.2
      omega
    have htime := ha.timely r request hr hstatus
    obtain ⟨n, hfresh, hbal⟩ := exists_bonded s.1 r true market.collateral
      (hw.ready.pending r request hr).bond.le hmax
    have hthere := hw.within (funded s.1 market.collateral (.account n) request.bondAmount)
    obtain ⟨outcome, w', hexec⟩ := disputeOutcome_of_room hthere (ha.within _) hr hstatus hm
      hwindow hfresh hbal hbooks
    exact ⟨_, _, _, accepts_iff.mpr ⟨hnow, by omega, _, _, w', apart_account now n, hexec⟩⟩

/-- Anyone finalizes a proposal after its window. -/
theorem accepts_finalizeUndisputed (hw : Standing s.1) (hnow : s.2 ≤ now) (hfits : now ≤ u64Max)
    (hr : s.1.oracle.request r = some request) :
    Accepts s now (.oracle (.finalizeUndisputed r)) ↔
      request.status = .proposed ∧ request.proposedAt + request.disputeWindow < now := by
  rw [accepts_iff]
  constructor
  · rintro ⟨_, _, around, signers, w', _, hexec⟩
    obtain ⟨outcome, hexec⟩ := world_ok.mp hexec
    obtain ⟨stored, market, called, reg, w1, hstored, hstatus, _, hlate, _⟩ :=
      Oracle.finalizeUndisputed_steps hexec
    obtain rfl := Option.some.inj (hr.symm.trans hstored)
    exact ⟨hstatus, hlate⟩
  · rintro ⟨hstatus, hlate⟩
    obtain ⟨market, hm, hheld⟩ := (hw.ready.pending r request hr).held hstatus
    have hbond := (hw.ready.pending r request hr).bond
    have hmax : request.bondAmount ≤ i128Max := by
      have hbooked := hw.fits request.marketId false
      have hlast := (hw.bonds.booked.take hheld le_rfl).nonneg request.marketId false
      unfold Vault.withoutBond at hlast
      dsimp only at hlast
      rw [Store.set_get_self, Vault.bondTotal_movedBond, if_pos rfl] at hlast
      omega
    obtain ⟨w', hexec⟩ := finalizeUndisputed_of_room (hw.within (funded s.1 market.collateral
      (.contract .vault) request.bondAmount)) hr hstatus hlate hfits (fun stored hstored => by
        obtain rfl := Option.some.inj (hm.symm.trans hstored)
        exact (funded_bal s.1 hbond.le hmax).ge)
    exact ⟨hnow, hfits, _, [], w', keeper_apart now, hexec⟩

/-- Anyone escalates a disputed request, while two windows and a case number fit. -/
theorem accepts_escalateToCouncil (hw : Standing s.1) (hnow : s.2 ≤ now)
    (hr : s.1.oracle.request r = some request) :
    Accepts s now (.oracle (.escalateToCouncil r)) ↔
      request.status = .disputed ∧
        now + request.disputeWindow + request.disputeWindow ≤ u64Max ∧
        s.1.council.nextCaseId + 1 ≤ u64Max := by
  rw [accepts_iff]
  constructor
  · rintro ⟨_, _, around, signers, w', _, hexec⟩
    obtain ⟨stored, market, called, caseId, c, reg, hstored, hstatus, _, hopen, _⟩ :=
      Oracle.escalateToCouncil_steps hexec
    obtain rfl := Option.some.inj (hr.symm.trans hstored)
    obtain ⟨_, _, _, _, hfits, hnumber, _⟩ := Council.openCase_ok.mp hopen
    exact ⟨hstatus, hfits, hnumber⟩
  · rintro ⟨hstatus, hroom, hnumber⟩
    obtain ⟨w', hexec, _⟩ := escalateToCouncil_of_room hw hr hstatus hroom hnumber
    exact ⟨hnow, by omega, s.1, [], w', keeper_apart now, hexec⟩

end Bonded

section Redemption

/-- Settle a redemption and retire what the tokens were worth: the payout, and the vault. -/
def settlement (v : VaultState) (m : MarketId) (market : MarketData) (user : Address)
    (outcome : Outcome) (amount : ℤ) : Res (ℤ × VaultState) :=
  if market.status = .cancelled then Vault.settleCancelled v m user outcome amount
  else do
    let (gross, payout, v) ←
      Vault.settleResolved v m user market.finalOutcome outcome amount
    let v ← Vault.retireClaim v m user outcome gross
    return (payout, v)

/-- The books of a market take a payout. -/
def PayoutFits (a : VaultAccounting) (payout : ℤ) : Prop :=
  0 < payout → InRange (a.redeemed + payout) ∧ InRange (a.refundable - payout)

/-- Some tokens of a market, in somebody's hands, settle to a payout that fits the books. -/
def Redeemable (v : VaultState) (m : MarketId) (market : MarketData) : Prop :=
  ∃ user outcome amount payout v', Apart ⟨0, [user], []⟩ ∧ 0 < amount ∧
    settlement v m market user outcome amount = .ok (payout, v') ∧
    PayoutFits (v'.accounting m) payout

/-- The environment in which a user holds tokens that the vault may burn, and the vault has the
collateral of a payout. -/
def holding (w : World) (m : MarketId) (user : Address) (outcome : Outcome) (amount : ℤ)
    (token : Asset) (payout : ℤ) : World :=
  { funded w token (.contract .vault) payout with
    tokens := { w.tokens with
      roles := w.tokens.roles.set .vault (some (.contract .vault))
      balance := w.tokens.balance.set (m, user, outcome) amount } }

variable {w : World} {s : World × ℕ} {now : ℕ} {m : MarketId} {market : MarketData}
  {user : Address} {o : Outcome} {amount payout : ℤ} {v : VaultState}

/-- A capped payout is an amount. -/
theorem cappedPayout_max {x : ℤ} (h : Vault.cappedPayout v m x = .ok payout) :
    payout ≤ i128Max := by
  have h0 : (0 : ℤ) ≤ i128Max := by decide
  unfold Vault.cappedPayout at h
  dsimp only at h
  split at h
  · rw [← ok_ok.mp h]
    exact h0
  · split at h
    · rw [← ok_ok.mp h]
      exact h0
    · obtain ⟨remaining, hremaining, h⟩ := bind_ok.mp h
      obtain ⟨hleft, hrange⟩ := checkedSub_ok.mp hremaining
      have hmax := hrange.2
      split at h
      · rw [← pure_ok.mp h]
        exact h0
      · obtain ⟨claim, _, h⟩ := bind_ok.mp h
        rw [← pure_ok.mp h]
        split <;> omega

/-- So is what a settlement pays. -/
theorem settlement_max {v' : VaultState}
    (h : settlement v m market user o amount = .ok (payout, v')) : payout ≤ i128Max := by
  unfold settlement at h
  split at h
  · obtain ⟨_, _, _, _, _, hcapped⟩ := Vault.settleCancelled_steps h
    exact cappedPayout_max hcapped
  · obtain ⟨⟨gross, payout', v1⟩, hsettle, h⟩ := bind_ok.mp h
    obtain ⟨v2, _, h⟩ := bind_ok.mp h
    obtain ⟨rfl, _⟩ := Prod.mk.inj (pure_ok.mp h)
    obtain ⟨_, _, _, _, _, _, _, _, _, hcapped⟩ := Vault.settleResolved_steps hsettle
    exact cappedPayout_max hcapped

/-- A payout is paid when it fits and the vault has it. -/
theorem payRedemption_of_room (ctx : Ctx) (user : Address) {token : Asset}
    (hfits : PayoutFits (w.vault.accounting m) payout)
    (hcash : payout ≤ w.bank.bal token (.contract .vault)) :
    ∃ w', Vault.payRedemption ctx w token user m payout = .ok w' := by
  unfold Vault.payRedemption
  split
  · next hpos =>
    obtain ⟨hredeemed, hrefundable⟩ := hfits hpos
    obtain ⟨b, hb⟩ : ∃ b, w.bank.transfer token (.contract .vault) user payout = .ok b :=
      Bank.transfer_of_held hpos.le hcash
    dsimp only
    rw [bind_of_ok (checkedAdd_ok.mpr ⟨rfl, hredeemed⟩),
      bind_of_ok (checkedSub_ok.mpr ⟨rfl, hrefundable⟩)]
    exact ⟨_, transferToken_ok.mpr ⟨Or.inr rfl, b, hb, rfl⟩⟩
  · exact ⟨w, rfl⟩

/-- What was paid fits. -/
theorem payRedemption_fits {ctx : Ctx} {token : Asset} {w' : World}
    (h : Vault.payRedemption ctx w token user m payout = .ok w') :
    PayoutFits (w.vault.accounting m) payout := by
  intro hpos
  unfold Vault.payRedemption at h
  rw [if_pos hpos] at h
  obtain ⟨_, hredeemed, h⟩ := bind_ok.mp h
  obtain ⟨_, hrefundable, h⟩ := bind_ok.mp h
  exact ⟨(checkedAdd_ok.mp hredeemed).2, (checkedSub_ok.mp hrefundable).2⟩

/-- What a redemption needs of its environment: the vault may burn the tokens and has the cash. -/
theorem holding_ready (w : World) (now : ℕ) (m : MarketId) (user : Address) (o : Outcome)
    (token : Asset) (hmax : payout ≤ i128Max) (h0 : 0 < amount) :
    (∃ t, Tokens.burnForRedeem ⟨now, [user], [.contract .vault]⟩
      (holding w m user o amount token payout).tokens user m o amount = .ok t) ∧
      payout ≤ (holding w m user o amount token payout).bank.bal token (.contract .vault) := by
  constructor
  · have hrole : (holding w m user o amount token payout).tokens.roles .vault =
        some (.contract .vault) := Store.set_get_self _ _ _
    have hheld : (holding w m user o amount token payout).tokens.balance (m, user, o) = amount :=
      Store.set_get_self _ _ _
    have hauth : requireRole ⟨now, [user], [.contract .vault]⟩
        (holding w m user o amount token payout).tokens.roles .vault = .ok () :=
      requireRole_ok.mpr ⟨_, hrole, Or.inr rfl⟩
    have hleft : InRange (amount - amount) := by
      rw [sub_self]
      exact ⟨by decide, by decide⟩
    unfold Tokens.burnForRedeem Tokens.subBalance
    rw [bind_of_ok hauth, bind_of_ok (refuse_ok (u := ()).mpr (not_le.mpr h0))]
    dsimp only
    rw [hheld, bind_of_ok (refuse_ok (u := ()).mpr (lt_irrefl amount)),
      bind_of_ok (checkedSub_ok.mpr ⟨rfl, hleft⟩)]
    exact ⟨_, rfl⟩
  · by_cases hpos : 0 ≤ payout
    · exact (funded_bal w hpos hmax).ge
    · exact (not_le.mp hpos).le.trans
        ((holding w m user o amount token payout).bank.nonneg (token, .contract .vault))

/-- Who invokes the vault directly signs for it. -/
theorem redeemer_signed (now : ℕ) (user : Address) :
    requireAuth ⟨now, [user], []⟩ user = .ok () :=
  requireAuth_ok.mpr (Or.inl (List.mem_singleton.mpr rfl))

/-- The vault then calls the other contracts. -/
theorem redeemer_calls (now : ℕ) (user : Address) {c : Contract} (hc : c ≠ .vault) :
    Ctx.call ⟨now, [user], []⟩ .vault (.contract c) c = .ok ⟨now, [user], [.contract .vault]⟩ :=
  Ctx.call_ok.mpr ⟨rfl, by simp [hc], rfl⟩

/-- Tokens of a resolved market are redeemed when their settlement fits. -/
theorem redeemResolved_of_settled (hregistry : w.vault.roles .registry = some (.contract .registry))
    (htokens : w.vault.roles .tokens = some (.contract .tokens))
    (hm : w.registry.market m = some market) (hfinal : market.hasFinalOutcome = true)
    (hopen : market.status ≠ .cancelled) (h0 : 0 < amount)
    (hsettle : settlement w.vault m market user o amount = .ok (payout, v))
    (hfits : PayoutFits (v.accounting m) payout) {t : TokensState}
    (hburn : Tokens.burnForRedeem ⟨now, [user], [.contract .vault]⟩ w.tokens user m o amount =
      .ok t)
    (hcash : payout ≤ w.bank.bal market.collateral (.contract .vault)) :
    ∃ w', Vault.redeemResolved ⟨now, [user], []⟩ w market.collateral user m o amount =
      .ok (payout, w') := by
  have hread : Registry.getMarket w.registry m = .ok market := Registry.getMarket_ok.mpr hm
  have houtcome : Registry.getFinalOutcome w.registry m = .ok market.finalOutcome :=
    Registry.getFinalOutcome_ok.mpr ⟨market, hm, hfinal, rfl⟩
  unfold settlement at hsettle
  rw [if_neg hopen] at hsettle
  obtain ⟨⟨gross, payout', v1⟩, hresolved, hsettle⟩ := bind_ok.mp hsettle
  obtain ⟨v2, hretire, hsettle⟩ := bind_ok.mp hsettle
  obtain ⟨rfl, rfl⟩ := Prod.mk.inj (pure_ok.mp hsettle)
  obtain ⟨w', hpay⟩ := payRedemption_of_room ⟨now, [user], []⟩ user
    (w := { w with vault := v2, tokens := t }) hfits hcash
  refine ⟨w', ?_⟩
  unfold Vault.redeemResolved
  rw [bind_of_ok (redeemer_signed now user),
    bind_of_ok (refuse_ok (u := ()).mpr (not_le.mpr h0)),
    bind_of_ok (readRole_ok.mpr hregistry), bind_of_ok (readRole_ok.mpr htokens),
    bind_of_ok (redeemer_calls now user (by decide)), bind_of_ok hread,
    bind_of_ok (refuse_ok (u := ()).mpr (not_not.mpr rfl)), bind_of_ok houtcome,
    bind_of_ok hresolved]
  dsimp only
  rw [bind_of_ok (redeemer_calls now user (by decide)), bind_of_ok hburn, bind_of_ok hretire,
    bind_of_ok hpay]
  rfl

/-- Tokens of a cancelled market are redeemed when their settlement fits. -/
theorem redeemCancelled_of_settled
    (hregistry : w.vault.roles .registry = some (.contract .registry))
    (htokens : w.vault.roles .tokens = some (.contract .tokens))
    (hm : w.registry.market m = some market) (hcancelled : market.status = .cancelled)
    (h0 : 0 < amount) (hsettle : settlement w.vault m market user o amount = .ok (payout, v))
    (hfits : PayoutFits (v.accounting m) payout) {t : TokensState}
    (hburn : Tokens.burnForRedeem ⟨now, [user], [.contract .vault]⟩ w.tokens user m o amount =
      .ok t)
    (hcash : payout ≤ w.bank.bal market.collateral (.contract .vault)) :
    ∃ w', Vault.redeemCancelled ⟨now, [user], []⟩ w market.collateral user m o amount =
      .ok (payout, w') := by
  have hread : Vault.marketData ⟨now, [user], []⟩ w m = .ok market := bind_ok.mpr
    ⟨_, readRole_ok.mpr hregistry, bind_ok.mpr ⟨_, redeemer_calls now user (by decide),
      Registry.getMarket_ok.mpr hm⟩⟩
  have hallowed : ¬(market.status ≠ .cancelled ∨ market.collateral ≠ market.collateral) := by
    rintro (hk | hk)
    · exact hk hcancelled
    · exact hk rfl
  unfold settlement at hsettle
  rw [if_pos hcancelled] at hsettle
  obtain ⟨w', hpay⟩ := payRedemption_of_room ⟨now, [user], []⟩ user
    (w := { w with vault := v, tokens := t }) hfits hcash
  refine ⟨w', ?_⟩
  unfold Vault.redeemCancelled
  rw [bind_of_ok (redeemer_signed now user),
    bind_of_ok (refuse_ok (u := ()).mpr (not_le.mpr h0)), bind_of_ok hread,
    bind_of_ok (refuse_ok (u := ()).mpr hallowed), bind_of_ok (readRole_ok.mpr htokens),
    bind_of_ok (redeemer_calls now user (by decide)), bind_of_ok hburn, bind_of_ok hsettle]
  dsimp only
  rw [bind_of_ok hpay]
  rfl

/-- Who redeems signs for it from outside. -/
theorem redeemer_apart {signers : List Address} (hapart : Apart ⟨now, signers, []⟩)
    (h : requireAuth ⟨now, signers, []⟩ user = .ok ()) : Apart ⟨0, [user], []⟩ := by
  have hsigned : user ∈ signers := by
    rcases requireAuth_ok.mp h with hmem | hhead
    · exact hmem
    · cases hhead
  obtain ⟨⟨h1, _⟩, ⟨h2, _⟩, ⟨h3, _⟩, h4, _⟩ := hapart
  have hother : ∀ a, a ∉ signers → a ∉ [user] := by
    intro a ha hmem
    rw [List.mem_singleton.mp hmem] at ha
    exact ha hsigned
  exact ⟨⟨hother _ h1, by simp⟩, ⟨hother _ h2, by simp⟩, ⟨hother _ h3, by simp⟩, hother _ h4,
    by simp⟩

/-- Some call redeems tokens of a stored market exactly when it is resolved or cancelled and
some of its tokens settle to a payout that fits. -/
theorem accepts_redeem (hw : Standing s.1) (ha : Agenda s.1 s.2) (hnow : s.2 ≤ now)
    (hfits : now ≤ u64Max) (hm : s.1.registry.market m = some market)
    (hfinal : market.status = .resolved → market.hasFinalOutcome = true) :
    (∃ token user o amount, Accepts s now (.vault (.redeemResolved token user m o amount)) ∨
      Accepts s now (.vault (.redeemCancelled token user m o amount))) ↔
      (market.status = .resolved ∨ market.status = .cancelled) ∧
        Redeemable s.1.vault m market := by
  simp only [accepts_iff]
  constructor
  · rintro ⟨token, user, o, amount, ⟨_, _, around, signers, w', hapart, hexec⟩ |
      ⟨_, _, around, signers, w', hapart, hexec⟩⟩
    · obtain ⟨payout, hexec⟩ := world_ok.mp hexec
      obtain ⟨_, hsigned, _⟩ := bind_ok.mp hexec
      obtain ⟨h0, stored, gross, v1, t, v2, called, hstored, _, hdone, hsettle, _, hretire, hpay⟩ :=
        Vault.redeemResolved_steps hexec
      obtain rfl := Option.some.inj (hm.symm.trans hstored)
      have hresolved := hw.lockstep.markets.finalResolved m market hm hdone
      have hsettled : settlement s.1.vault m market user o amount = .ok (payout, v2) := by
        unfold settlement
        rw [if_neg (by rw [hresolved]; decide)]
        exact bind_ok.mpr ⟨_, hsettle, bind_ok.mpr ⟨_, hretire, rfl⟩⟩
      exact ⟨Or.inl hresolved, user, o, amount, payout, v2, redeemer_apart hapart hsigned, h0,
        hsettled, payRedemption_fits hpay⟩
    · obtain ⟨payout, hexec⟩ := world_ok.mp hexec
      obtain ⟨_, hsigned, _⟩ := bind_ok.mp hexec
      obtain ⟨h0, stored, t, v1, called, hstored, hcancelled, _, _, hsettle, hpay⟩ :=
        Vault.redeemCancelled_steps hexec
      obtain rfl := Option.some.inj (hm.symm.trans hstored)
      have hsettled : settlement s.1.vault m market user o amount = .ok (payout, v1) := by
        unfold settlement
        rw [if_pos hcancelled]
        exact hsettle
      exact ⟨Or.inr hcancelled, user, o, amount, payout, v1, redeemer_apart hapart hsigned, h0,
        hsettled, payRedemption_fits hpay⟩
  · rintro ⟨hstatus, user, o, amount, payout, v, hapart, h0, hsettle, hpayout⟩
    have hmax := settlement_max hsettle
    obtain ⟨⟨t, hburn⟩, hcash⟩ := holding_ready s.1 now m user o market.collateral hmax h0
    refine ⟨market.collateral, user, o, amount, ?_⟩
    rcases hstatus with hresolved | hcancelled
    · have hopen : market.status ≠ .cancelled := by
        rw [hresolved]
        decide
      obtain ⟨w', hexec⟩ := redeemResolved_of_settled (w := within (holding s.1 m user o amount
        market.collateral payout) s.1) ha.vaultRegistry ha.vaultTokens hm (hfinal hresolved) hopen
        h0 hsettle hpayout hburn hcash
      exact Or.inl ⟨hnow, hfits, _, [user], w', hapart, world_ok.mpr ⟨_, hexec⟩⟩
    · obtain ⟨w', hexec⟩ := redeemCancelled_of_settled (w := within (holding s.1 m user o amount
        market.collateral payout) s.1) ha.vaultRegistry ha.vaultTokens hm hcancelled h0 hsettle
        hpayout hburn hcash
      exact Or.inr ⟨hnow, hfits, _, [user], w', hapart, world_ok.mpr ⟨_, hexec⟩⟩

/-- The first of a pair at half its worth refunds nothing. -/
theorem refundWithCarry_first (hcarry : v.invalidDustCarry m = 0) :
    Vault.refundWithCarry v m 1 = .ok (0, { v with
      invalidDustCarry := v.invalidDustCarry.set m 1 }) := by
  unfold Vault.refundWithCarry
  rw [hcarry]
  rfl

/-- Nothing is withheld from who owes nothing. -/
theorem withholdParentDebt_free (hdebt : v.parentDebt (m, user, o) = 0) :
    Vault.withholdParentDebt v m user o 0 0 = .ok (0, v) := by
  unfold Vault.withholdParentDebt
  dsimp only
  rw [hdebt]
  rfl

/-- Nothing is paid for a claim of nothing. -/
theorem cappedPayout_zero (v : VaultState) (m : MarketId) : Vault.cappedPayout v m 0 = .ok 0 := by
  unfold Vault.cappedPayout
  exact if_pos le_rfl

/-- Nothing settles nothing. -/
theorem settleChildDebt_zero (v : VaultState) : Vault.settleChildDebt v m user 0 = .ok (0, v) := by
  unfold Vault.settleChildDebt
  exact if_pos le_rfl

/-- Nor is anything retired. -/
theorem retireClaim_zero (v : VaultState) : Vault.retireClaim v m user o 0 = .ok v :=
  if_neg (lt_irrefl 0)

/-- A token that is worth nothing settles to nothing for who redeemed none and owes nothing. -/
theorem settleResolved_worthless {final : Outcome} {v1 : VaultState}
    (hgross : Vault.grossPayout v m final o 1 = .ok (0, v1)) (hnone : v1.redeemed (m, user, o) = 0)
    (hdebt : v1.parentDebt (m, user, o) = 0) :
    ∃ v2, Vault.settleResolved v m user final o 1 = .ok (0, 0, v2) := by
  have hadded : Vault.addRedeemed v1 m user o 1 =
      .ok { v1 with redeemed := v1.redeemed.set (m, user, o) 1 } := by
    unfold Vault.addRedeemed Vault.addTo
    rw [hnone]
    rfl
  have hupstream : ∀ v2, Vault.repayUpstream v2 m user 0 = .ok (0, v2) := fun v2 => by
    unfold Vault.repayUpstream
    rw [bind_of_ok (settleChildDebt_zero v2)]
    rfl
  have hdebt' : { v1 with redeemed := v1.redeemed.set (m, user, o) 1 }.parentDebt (m, user, o) =
      0 := hdebt
  have hzero : checkedSub 0 0 = .ok 0 := rfl
  unfold Vault.settleResolved
  rw [bind_of_ok hgross]
  dsimp only
  rw [bind_of_ok hadded, bind_of_ok (hupstream _)]
  dsimp only
  rw [bind_of_ok hzero, bind_of_ok (withholdParentDebt_free hdebt')]
  dsimp only
  rw [bind_of_ok hzero, bind_of_ok (cappedPayout_zero _ _)]
  exact ⟨_, rfl⟩

/-- So does the first of a pair in a cancelled market. -/
theorem settleCancelled_worthless (hcarry : v.invalidDustCarry m = 0)
    (hdebt : v.parentDebt (m, user, o) = 0) :
    ∃ v1, Vault.settleCancelled v m user o 1 = .ok (0, v1) := by
  have hdebt' : { v with invalidDustCarry := v.invalidDustCarry.set m 1 }.parentDebt (m, user, o) =
      0 := hdebt
  have hzero : checkedSub 0 0 = .ok 0 := rfl
  unfold Vault.settleCancelled
  rw [bind_of_ok (refundWithCarry_first hcarry)]
  dsimp only
  rw [bind_of_ok (withholdParentDebt_free hdebt')]
  dsimp only
  rw [bind_of_ok hzero, bind_of_ok (cappedPayout_zero _ _)]
  exact ⟨_, rfl⟩

/-- Tokens that settle to nothing can be redeemed: those of the outcome that lost, and the first
of a pair at half its worth. -/
theorem redeemable_of_worthless (v : VaultState) (m : MarketId) (market : MarketData)
    (hworthless : market.status ≠ .cancelled ∧ market.finalOutcome ≠ .invalid ∨
      v.invalidDustCarry m = 0) : Redeemable v m market := by
  have hfresh : ∀ o, ∃ n, v.redeemed (m, .account n, o) = 0 ∧
      v.parentDebt (m, .account n, o) = 0 := by
    intro o
    obtain ⟨n1, h1⟩ := exists_fresh_account v.redeemed (fun user => (m, user, o))
      (fun a b hab => by simpa using hab)
    obtain ⟨n2, h2⟩ := exists_fresh_account v.parentDebt (fun user => (m, user, o))
      (fun a b hab => by simpa using hab)
    exact ⟨max n1 n2, h1 _ (le_max_left _ _), h2 _ (le_max_right _ _)⟩
  have hnothing : ∀ a, PayoutFits a 0 := fun a hk => absurd hk (lt_irrefl 0)
  by_cases hcancelled : market.status = .cancelled
  · have hcarry := hworthless.resolve_left fun hk => hk.1 hcancelled
    obtain ⟨n, _, hdebt⟩ := hfresh .yes
    obtain ⟨v1, hsettle⟩ := settleCancelled_worthless hcarry hdebt
    refine ⟨.account n, .yes, 1, 0, v1, apart_account 0 n, one_pos, ?_, hnothing _⟩
    unfold settlement
    rw [if_pos hcancelled]
    exact hsettle
  · obtain ⟨o, hgross⟩ : ∃ o v1, Vault.grossPayout v m market.finalOutcome o 1 = .ok (0, v1) ∧
        v1.redeemed = v.redeemed ∧ v1.parentDebt = v.parentDebt := by
      cases hfinal : market.finalOutcome with
      | yes => exact ⟨.no, v, rfl, rfl, rfl⟩
      | no => exact ⟨.yes, v, rfl, rfl, rfl⟩
      | invalid =>
        have hcarry := hworthless.resolve_left fun hk => hk.2 hfinal
        exact ⟨.yes, _, refundWithCarry_first hcarry, rfl, rfl⟩
    obtain ⟨v1, hgross, hredeemed, hdebts⟩ := hgross
    obtain ⟨n, hnone, hdebt⟩ := hfresh o
    obtain ⟨v2, hsettle⟩ := settleResolved_worthless hgross
      ((congrArg (fun s => s (m, .account n, o)) hredeemed).trans hnone)
      ((congrArg (fun s => s (m, .account n, o)) hdebts).trans hdebt)
    refine ⟨.account n, o, 1, 0, v2, apart_account 0 n, one_pos, ?_, hnothing _⟩
    unfold settlement
    rw [if_neg hcancelled]
    exact bind_ok.mpr ⟨_, hsettle, bind_ok.mpr ⟨_, retireClaim_zero v2, rfl⟩⟩

end Redemption

end DikeProtocol.Resolution
