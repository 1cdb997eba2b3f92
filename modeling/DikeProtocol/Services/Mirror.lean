import DikeProtocol.Factory.Counters
import DikeProtocol.Services.Pass

/-!
# One quiet pass makes the rows exact

While the contracts rest and every call goes through, one tick makes the rows
of all markets the factory ever created, and of the positions that were known,
say what the contracts hold, whatever the rows said before, as far as their
columns can hold it. The rows of books stay what they were.
-/

namespace DikeProtocol.Services.Scheduled

open Lib Indexer
open Factory (factorySystem Aligned)

section

/-- What the vault holds in a column of a user's state. -/
def vaultColumn (w : World) (marketId : MarketId) (a : Address) : VaultColumn → ℤ
  | .userDeposit => w.vault.userDeposit (marketId, a)
  | .rootStakeYes => w.vault.rootStake (marketId, a, .yes)
  | .rootStakeNo => w.vault.rootStake (marketId, a, .no)
  | .childUsedTotal => w.vault.childUsed (marketId, a)
  | .childUsedYes => w.vault.childUsedByOutcome (marketId, a, .yes)
  | .childUsedNo => w.vault.childUsedByOutcome (marketId, a, .no)
  | .childDebt => w.vault.childDebt (marketId, a)
  | .parentDebtYes => w.vault.parentDebt (marketId, a, .yes)
  | .parentDebtNo => w.vault.parentDebt (marketId, a, .no)
  | .redeemedYes => w.vault.redeemed (marketId, a, .yes)
  | .redeemedNo => w.vault.redeemed (marketId, a, .no)
  | .redeemedInvalid => w.vault.redeemed (marketId, a, .invalid)

variable {V : Type} (parse : String → Option Address) (w : World)

/-- At a moment every call goes through and the contracts answer as they do in a world. -/
structure Quiet (m : Moment V) : Prop where
  database : m.database = true
  latestLedger : ∃ ledger, m.contracts.latestLedger = .ok ledger
  nextMarketId : m.contracts.nextMarketId = .ok w.factory.nextMarketId
  market : ∀ i market, w.registry.market i = some market → m.contracts.market i = .ok market
  pool : ∀ i pool, w.amm.pool i = some pool → m.contracts.pool i = .ok pool
  request : ∀ i request, w.oracle.request i = some request →
    m.contracts.request i = .ok request
  caseForRequest : ∀ i caseId, w.council.requestCase i = some caseId →
    m.contracts.caseForRequest i = .ok caseId
  councilCase : ∀ i councilCase, w.council.caseData i = some councilCase →
    m.contracts.councilCase i = .ok councilCase
  caseRewardPool : ∀ i, m.contracts.caseRewardPool i = .ok (w.council.caseRewardPool i)
  positionBalance : ∀ owner a, parse owner = some a → ∀ i outcome,
    m.contracts.positionBalance owner i outcome = .ok (w.tokens.balance (i, a, outcome))
  userVaultState : ∀ owner a, parse owner = some a → ∀ column i,
    m.contracts.userVaultState column i owner = .ok (vaultColumn w i a column)

/-- The rows of every created market whose columns can hold it, of its pool, its request and its
case, and those of the known owners say what the contracts hold, with the label of one ledger. The
rows of books are those that were known. -/
structure Mirrored (known : Tables) (ledger : ℕ) (rows : Tables) : Prop where
  markets : ∀ i, 1 ≤ i → i < w.factory.nextMarketId → ∃ market pool,
    w.registry.market i = some market ∧ w.amm.pool i = some pool ∧
    ((Row.markets i).fits ⟨market, ledger⟩ = true →
      rows.lookup (.markets i) = some ⟨market, ledger⟩ ∧
      rows.lookup (.pools i) = some ⟨pool, ledger⟩)
  requests : ∀ i market request, 1 ≤ i → w.registry.market i = some market →
    (Row.markets i).fits ⟨market, ledger⟩ = true →
    market.hasRequest = true → market.requestId ≤ 2 ^ 53 →
    w.oracle.request market.requestId = some request →
    (Row.resolutionRequests market.requestId).fits ⟨request, ledger⟩ = true →
    rows.lookup (.resolutionRequests market.requestId) = some ⟨request, ledger⟩ ∧
    ∀ caseId councilCase, w.council.requestCase market.requestId = some caseId →
      caseId ≤ 2 ^ 53 → w.council.caseData caseId = some councilCase →
      (Row.councilCases caseId).fits ⟨⟨councilCase, w.council.caseRewardPool caseId⟩, ledger⟩ =
        true →
      rows.lookup (.councilCases caseId) =
        some ⟨⟨councilCase, w.council.caseRewardPool caseId⟩, ledger⟩
  positions : ∀ i owner a outcome, 1 ≤ i → i < w.factory.nextMarketId → parse owner = some a →
    .userPositions i owner outcome ∈ known →
    (∀ outcome', rows.lookup (.userPositions i owner outcome') =
      some ⟨w.tokens.balance (i, a, outcome'), ledger⟩) ∧
    rows.lookup (.userVaultState i owner) = some ⟨vaultColumns.map (vaultColumn w i a), ledger⟩
  books : ∀ i, rows.lookup (.vaultSnapshots i) = known.lookup (.vaultSnapshots i)

end

section Rest

variable {V : Type} {p : Pass V} {parse : String → Option Address} {w : World} {n : ℕ}
  {s : JobState}

/-- What is so for a moment of a quiet pass is so of some quiet moment. -/
theorem During.quiet {q : Moment V → Prop} (h : During p n q)
    (hquiet : ∀ k, p.start ≤ k → k < n → Quiet parse w (p.history k)) :
    ∃ m, Quiet parse w m ∧ q m := by
  obtain ⟨k, hk, hk', hq⟩ := h
  exact ⟨p.history k, hquiet k hk hk', hq⟩

/-- A row that can be written, and whose reads are always answered, is refused in a quiet pass only
what its columns cannot hold. -/
theorem Refused.unfit {row : Row} (h : Refused p s.calls row)
    (hquiet : ∀ k, p.start ≤ k → k < s.calls → Quiet parse w (p.history k))
    (hreads : ∀ m : Moment V, Quiet parse w m → Reads m.contracts row)
    (hwritable : row.writable = true) :
    ∃ content, Answered p s.calls row content ∧ row.fits content = false := by
  obtain hfails | hdown | hkey | hunfit := h
  · obtain ⟨m, hm, hfails⟩ := hfails.quiet hquiet
    exact absurd (hreads m hm) hfails
  · obtain ⟨m, hm, hdown⟩ := During.quiet hdown hquiet
    rw [hm.database] at hdown
    cases hdown
  · rw [hwritable] at hkey
    cases hkey
  · exact hunfit

section Rows

variable (hquiet : ∀ k, p.start ≤ k → k < s.calls → Quiet parse w (p.history k))

include hquiet

/-- What a quiet pass answers for a row is always the same: then the row says it once it is
refreshed, if its columns can hold it. -/
theorem served_content (row : Row) (content : row.Content) (h : Served p s row)
    (hanswers : ∀ content', Answered p s.calls row content' → content' = content)
    (hreads : ∀ m : Moment V, Quiet parse w m → Reads m.contracts row)
    (hwritable : row.writable = true) (hfits : row.fits content = true) :
    s.rows.lookup row = some content := by
  obtain ⟨stored, hrow, hanswered⟩ | hrefused := h
  · rw [hrow, hanswers stored hanswered]
  · obtain ⟨answer, hanswered, hunfit⟩ := hrefused.unfit hquiet hreads hwritable
    rw [hanswers answer hanswered, hfits] at hunfit
    cases hunfit

/-- The answer of one read is what a world says. -/
theorem answers_of_read {α : Type} {value : α} (read : Contracts V → Except String α)
    (hvalue : ∀ m : Moment V, Quiet parse w m → read m.contracts = .ok value)
    (content : Reconciled α)
    (h : During p s.calls (fun m => read m.contracts = .ok content.content) ∧
      content.lastReconciledLedger = p.latestLedger) : content = ⟨value, p.latestLedger⟩ := by
  obtain ⟨hduring, hlabel⟩ := h
  obtain ⟨m, hm, hread⟩ := hduring.quiet hquiet
  rw [hvalue m hm] at hread
  rw [Except.ok.inj hread, ← hlabel]

/-- The row of a market. -/
theorem served_market {i : MarketId} {market : MarketData} (h : Served p s (.markets i))
    (hmarket : w.registry.market i = some market) (hkey : i < 2 ^ 63)
    (hfits : (Row.markets i).fits ⟨market, p.latestLedger⟩ = true) :
    s.rows.lookup (.markets i) = some ⟨market, p.latestLedger⟩ :=
  served_content hquiet (.markets i) ⟨market, p.latestLedger⟩ h
    (answers_of_read hquiet (fun c => c.market i) fun _ hm => hm.market i market hmarket)
    (fun _ hm => ⟨market, hm.market i market hmarket⟩)
    (writable_of_key (fun _ h => by cases h) hkey) hfits

/-- The row of a pool. -/
theorem served_pool {i : ℕ} {pool : PoolData} (h : Served p s (.pools i))
    (hpool : w.amm.pool i = some pool) (hkey : i < 2 ^ 63) (hmarket : pool.marketId < 2 ^ 63) :
    s.rows.lookup (.pools i) = some ⟨pool, p.latestLedger⟩ :=
  served_content hquiet (.pools i) ⟨pool, p.latestLedger⟩ h
    (answers_of_read hquiet (fun c => c.pool i) fun _ hm => hm.pool i pool hpool)
    (fun _ hm => ⟨pool, hm.pool i pool hpool⟩)
    (writable_of_key (fun _ h => by cases h) hkey) (fits_pools hmarket)

/-- The row of a request. -/
theorem served_request {i : ℕ} {request : ResolutionRequest}
    (h : Served p s (.resolutionRequests i)) (hrequest : w.oracle.request i = some request)
    (hkey : i < 2 ^ 63)
    (hfits : (Row.resolutionRequests i).fits ⟨request, p.latestLedger⟩ = true) :
    s.rows.lookup (.resolutionRequests i) = some ⟨request, p.latestLedger⟩ :=
  served_content hquiet (.resolutionRequests i) ⟨request, p.latestLedger⟩ h
    (answers_of_read hquiet (fun c => c.request i) fun _ hm => hm.request i request hrequest)
    (fun _ hm => ⟨request, hm.request i request hrequest⟩)
    (writable_of_key (fun _ h => by cases h) hkey) hfits

/-- The row of a position. -/
theorem served_position {i : MarketId} {owner : String} {a : Address} {outcome : Outcome}
    (h : Served p s (.userPositions i owner outcome)) (howner : parse owner = some a)
    (hkey : i < 2 ^ 63) : s.rows.lookup (.userPositions i owner outcome) =
      some ⟨w.tokens.balance (i, a, outcome), p.latestLedger⟩ :=
  served_content hquiet (.userPositions i owner outcome)
    ⟨w.tokens.balance (i, a, outcome), p.latestLedger⟩ h
    (answers_of_read hquiet (fun c => c.positionBalance owner i outcome)
      fun _ hm => hm.positionBalance owner a howner i outcome)
    (fun _ hm => ⟨_, hm.positionBalance owner a howner i outcome⟩)
    (writable_of_key (fun _ h => by cases h) hkey) rfl

/-- The row of a user's state in the vault. -/
theorem served_vaultState {i : MarketId} {owner : String} {a : Address}
    (h : Served p s (.userVaultState i owner)) (howner : parse owner = some a)
    (hkey : i < 2 ^ 63) : s.rows.lookup (.userVaultState i owner) =
      some ⟨vaultColumns.map (vaultColumn w i a), p.latestLedger⟩ := by
  refine served_content hquiet (.userVaultState i owner)
    ⟨vaultColumns.map (vaultColumn w i a), p.latestLedger⟩ h ?_
    (fun _ _ => trivial) (writable_of_key (fun _ h => by cases h) hkey) rfl
  rintro ⟨values, ledger⟩ ⟨hvalues, hlabel⟩
  have hmapped : List.Forall₂ (fun column value => vaultColumn w i a column = value)
      vaultColumns values := by
    refine hvalues.imp fun column value hvalue => ?_
    obtain ⟨m, hm, hread⟩ := hvalue.quiet hquiet
    rw [hm.userVaultState owner a howner] at hread
    exact hread
  rw [← List.forall₂_map_left_iff, List.forall₂_eq_eq_eq] at hmapped
  dsimp only at hlabel
  rw [hmapped, hlabel]

/-- The row of a case. -/
theorem served_case {i : ℕ} {councilCase : CouncilCase} (h : Served p s (.councilCases i))
    (hcase : w.council.caseData i = some councilCase) (hkey : i < 2 ^ 63)
    (hfits : (Row.councilCases i).fits
      ⟨⟨councilCase, w.council.caseRewardPool i⟩, p.latestLedger⟩ = true) :
    s.rows.lookup (.councilCases i) =
      some ⟨⟨councilCase, w.council.caseRewardPool i⟩, p.latestLedger⟩ := by
  refine served_content hquiet (.councilCases i)
    ⟨⟨councilCase, w.council.caseRewardPool i⟩, p.latestLedger⟩ h ?_
    (fun _ hm => ⟨councilCase, hm.councilCase i councilCase hcase⟩)
    (writable_of_key (fun _ h => by cases h) hkey) hfits
  rintro ⟨⟨stored, rewardPool⟩, ledger⟩ ⟨hread, hreward, hlabel⟩
  obtain ⟨m, hm, hread⟩ := hread.quiet hquiet
  rw [hm.councilCase i councilCase hcase] at hread
  obtain ⟨m', hm', hreward⟩ := hreward.quiet hquiet
  rw [hm'.caseRewardPool i] at hreward
  dsimp only at hread hreward hlabel
  rw [Except.ok.inj hread, ← hreward, hlabel]
  rfl

end Rows

end Rest

section Exact

variable {V : Type} {parse : String → Option Address} {w : World} {p : Pass V}
  {s s₀ : JobState} {known : Tables}

/-- A quiet pass over everything makes the rows exact. -/
theorem Repaired.mirrored (h : Repaired p known s) (hswept : Swept p s₀ s)
    (hknown : s₀.rows = known) (haligned : Aligned w) (hexact : w.factory.nextMarketId < 2 ^ 53)
    (hquiet : ∀ k, p.start ≤ k → k < s.calls → Quiet parse w (p.history k)) :
    Mirrored parse w known p.latestLedger s.rows := by
  have hlisted : ∀ i, 1 ≤ i → i < w.factory.nextMarketId → Listed p known s.calls i := by
    intro i hpos hlt
    refine Or.inr ⟨hpos, fun k hk hk' => ⟨_, (hquiet k hk hk').nextMarketId, ?_⟩⟩
    rw [toDouble_of_le hexact.le]
    exact ⟨hlt, hexact⟩
  have hkeys : ∀ i, i < w.factory.nextMarketId → i < 2 ^ 63 := fun i hlt => by omega
  -- a market whose columns hold it is read, with what it says of its pool and its request
  have hmarket : ∀ i market, 1 ≤ i → w.registry.market i = some market →
      (Row.markets i).fits ⟨market, p.latestLedger⟩ = true →
      s.rows.lookup (.markets i) = some ⟨market, p.latestLedger⟩ ∧ Served p s (.pools i) ∧
        (market.hasRequest = true →
          Refused p s.calls (.pools i) ∨ RequestServed p (toDouble market.requestId) s) := by
    intro i market hpos hrow hfits
    obtain ⟨_, hpoolId, _, _, hlt⟩ := haligned.market i market hrow
    have hstored := fun hserved => served_market hquiet hserved hrow (hkeys i hlt) hfits
    obtain hrefused | ⟨read, hread, hserved, hpool, hrequest⟩ :=
      (h.markets i (hlisted i hpos hlt)).market
    · obtain ⟨content, hanswered, hunfit⟩ := hrefused.unfit hquiet
        (fun m hm => ⟨market, hm.market i market hrow⟩)
        (writable_of_key (fun _ h => by cases h) (hkeys i hlt))
      rw [answers_of_read hquiet (fun c => c.market i) (fun _ hm => hm.market i market hrow)
        content hanswered, hfits] at hunfit
      cases hunfit
    · obtain ⟨m, hm, hread⟩ := hread.quiet hquiet
      rw [hm.market i market hrow] at hread
      obtain rfl := Except.ok.inj hread
      rw [hpoolId, toDouble_of_le (hlt.le.trans hexact.le)] at hpool hrequest
      exact ⟨hstored hserved, hpool, hrequest⟩
  constructor
  · intro i hpos hlt
    obtain ⟨⟨market, hrow⟩, pool, hpool⟩ := haligned.created i hpos hlt
    refine ⟨market, pool, hrow, hpool, fun hfits => ?_⟩
    obtain ⟨hstored, hpools, _⟩ := hmarket i market hpos hrow hfits
    have hpair := (haligned.pool i pool hpool).2
    exact ⟨hstored, served_pool hquiet hpools hpool (hkeys i hlt)
      (by rw [hpair]; exact hkeys i hlt)⟩
  · intro i market request hpos hrow hfits hhas hid hrequest hfitsRequest
    obtain ⟨_, hpools, hserved⟩ := hmarket i market hpos hrow hfits
    have hlt := (haligned.market i market hrow).2.2.2.2
    obtain ⟨_, pool, hpool⟩ := haligned.created i hpos hlt
    have hanswers := answers_of_read (p := p) (s := s) hquiet (fun c => c.pool i)
      fun _ hm => hm.pool i pool hpool
    obtain hrefused | ⟨hserved, hcase⟩ := hserved hhas
    · obtain ⟨content, hanswered, hunfit⟩ := hrefused.unfit hquiet
        (fun m hm => ⟨pool, hm.pool i pool hpool⟩)
        (writable_of_key (fun _ h => by cases h) (hkeys i hlt))
      rw [hanswers content hanswered, fits_pools
        (by rw [(haligned.pool i pool hpool).2]; exact hkeys i hlt)] at hunfit
      cases hunfit
    · rw [toDouble_of_le hid] at hserved hcase
      have hkey : market.requestId < 2 ^ 63 := by omega
      refine ⟨served_request hquiet hserved hrequest hkey hfitsRequest, ?_⟩
      intro caseId councilCase hcaseId hsmall hdata hfitsCase
      obtain hrefused | hnone | ⟨read, hread, hserved⟩ := hcase
      · obtain ⟨content, hanswered, hunfit⟩ := hrefused.unfit hquiet
          (fun m hm => ⟨request, hm.request _ request hrequest⟩)
          (writable_of_key (fun _ h => by cases h) hkey)
        rw [answers_of_read hquiet (fun c => c.request market.requestId)
          (fun _ hm => hm.request _ request hrequest) content hanswered, hfitsRequest] at hunfit
        cases hunfit
      · obtain ⟨m, hm, e, he⟩ := hnone.quiet hquiet
        rw [hm.caseForRequest _ caseId hcaseId] at he
        cases he
      · obtain ⟨m, hm, hread⟩ := hread.quiet hquiet
        rw [hm.caseForRequest _ caseId hcaseId] at hread
        obtain rfl := Except.ok.inj hread
        rw [toDouble_of_le hsmall] at hserved
        exact served_case hquiet hserved hdata (by omega) hfitsCase
  · intro i owner a outcome hpos hlt howner hrow
    have hswept := h.markets i (hlisted i hpos hlt)
    exact ⟨fun outcome' => served_position hquiet
        (hswept.positions owner outcome hrow outcome') howner (hkeys i hlt),
      served_vaultState hquiet (hswept.vaultStates owner outcome hrow) howner (hkeys i hlt)⟩
  · intro i
    rw [← hknown]
    exact hswept.kept (writable_vaultSnapshots i)

end Exact

section Sample

/-- A moment at which a world answers and nothing else is asked for. -/
def momentOf (parse : String → Option Address) (w : World) : Moment Unit where
  contracts :=
    { latestLedger := .ok 7
      nextMarketId := .ok w.factory.nextMarketId
      treasury := .error "treasury"
      timelock := .error "timelock"
      pauseAuthority := .error "pauseAuthority"
      feeConfig := .ok w.governance.feeConfig
      module := fun _ => .error "module"
      events := fun _ => .ok ⟨[], none⟩
      market := fun i => orFault (w.registry.market i) "market"
      isTradeable := fun _ => .error "tradeable"
      pool := fun i => orFault (w.amm.pool i) "pool"
      request := fun i => orFault (w.oracle.request i) "request"
      caseForRequest := fun i => orFault (w.council.requestCase i) "case"
      councilCase := fun i => orFault (w.council.caseData i) "case"
      caseRewardPool := fun i => .ok (w.council.caseRewardPool i)
      vaultAccounting := fun i => .ok (w.vault.accounting i)
      positionBalance := fun owner i outcome =>
        (orFault (parse owner) "owner").map fun a => w.tokens.balance (i, a, outcome)
      lpBalance := fun _ _ => .error "balance"
      lpFeeCheckpoint := fun _ _ => .error "checkpoint"
      claimableLpFees := fun _ _ => .error "fees"
      userVaultState := fun column i owner =>
        (orFault (parse owner) "owner").map fun a => vaultColumn w i a column
      timelockAction := fun i => orFault (w.timelock.action i) "action" }
  database := true
  approvals := fun _ _ => []

/-- It is quiet. -/
theorem momentOf_quiet (parse : String → Option Address) (w : World) :
    Quiet parse w (momentOf parse w) where
  database := rfl
  latestLedger := ⟨7, rfl⟩
  nextMarketId := rfl
  market := fun _ _ h => orFault_ok.mpr h
  pool := fun _ _ h => orFault_ok.mpr h
  request := fun _ _ h => orFault_ok.mpr h
  caseForRequest := fun _ _ h => orFault_ok.mpr h
  councilCase := fun _ _ h => orFault_ok.mpr h
  caseRewardPool := fun _ => rfl
  positionBalance := fun owner a h i outcome => by
    change (orFault (parse owner) "owner").map _ = _
    rw [h]
    rfl
  userVaultState := fun owner a h column i => by
    change (orFault (parse owner) "owner").map _ = _
    rw [h]
    rfl

/-- The request that is filed for market 1. -/
def filedRequest : ResolutionRequest where
  id := 1
  marketId := 1
  questionHash := 0
  rulesUri := "rules"
  expiry := 1000
  requestedAt := 1000
  bondAmount := 10
  disputeWindow := 100
  hasProposal := false
  proposer := alice
  proposedOutcome := .invalid
  proposalEvidenceUri := ""
  proposedAt := 0
  hasDispute := false
  disputer := alice
  disputedOutcome := .invalid
  disputeEvidenceUri := ""
  disputedAt := 0
  status := .requested
  hasFinalOutcome := false
  finalOutcome := .invalid

/-- Elsewhere the oracle has the request, and alice 40 tokens of market 1. -/
def filedSurroundings : World :=
  { deploy sampleLaunch with
    oracle := { (deploy sampleLaunch).oracle with
      request := Store.empty.set 1 (some filedRequest) }
    tokens := { (deploy sampleLaunch).tokens with balance := Store.empty.set (1, alice, .yes) 40 } }

/-- Two markets are created; trading in the first one is over, and its resolution requested. -/
def filedSteps : List Factory.FactoryStep :=
  [Factory.createsSample "first", Factory.createsSample "second",
    .registry ⟨1000, [], []⟩ (.closeTrading 1),
    .registry ⟨1000, [], [.contract .oracle]⟩ (.markResolutionRequested 1 1),
    .elsewhere filedSurroundings]

/-- One owner is known by name. -/
def knownOwner (owner : String) : Option Address := if owner = "alice" then some alice else none

/-- A job that has stored a position only, long ago. -/
def staleJob : JobState :=
  ⟨false, 0, (∅ : Tables).insert (.userPositions 1 "alice" .yes) ⟨7, 3⟩, []⟩

/-- What is read of the world that is reached. -/
def FiledRead (w : World) : Prop :=
  w.factory.nextMarketId = 3 ∧ w.oracle.request 1 = some filedRequest ∧
    w.tokens.balance (1, alice, .yes) = 40 ∧
    (w.registry.market 1).any (fun market => market.hasRequest ∧ market.requestId = 1 ∧
      (Row.markets 1).fits ⟨market, 0⟩) = true

instance (w : World) : Decidable (FiledRead w) := inferInstanceAs (Decidable (_ ∧ _ ∧ _ ∧ _))

end Sample

end DikeProtocol.Services.Scheduled
