import DikeProtocol.Types
import Mathlib.Data.List.AList

/-!
# The rows of the read model

Reconciliation stores what it read as rows of tables. A write first checks its
columns against those that the repository allows, and the database refuses a
number that is too big for its column and a text with a zero character. The
record of a vault's books has a column that is not allowed, so no row of books
is ever written.
-/

namespace DikeProtocol.Services.Scheduled

/-- The keys of the rows that are reconciled. -/
inductive Row where
  | governanceConfig
  | governanceLists (kind address : String)
  | governanceModules (role : String)
  | markets (marketId : ℕ)
  | pools (poolId : ℕ)
  | resolutionRequests (requestId : ℕ)
  | councilCases (caseId : ℕ)
  | vaultSnapshots (marketId : ℕ)
  | userPositions (marketId : ℕ) (owner : String) (outcome : Outcome)
  | userVaultState (marketId : ℕ) (owner : String)
  | lpPositions (poolId : ℕ) (owner : String)
  | timelockActions (actionId : ℕ)
  deriving DecidableEq

/-- A row of governance settings. -/
structure GovernanceConfig where
  treasury : Option String
  timelock : String
  feeConfig : Option FeeConfig
  pauseAuthority : Option String

/-- What a row says, and the ledger it is labelled with. -/
structure Reconciled (α : Type) where
  content : α
  lastReconciledLedger : ℕ

/-- A row of a council case. -/
structure CaseSummary where
  councilCase : CouncilCase
  rewardPool : ℤ

/-- A row of a liquidity provider. -/
structure LpSummary where
  shares : ℤ
  feeCheckpoint : ℤ
  claimableFees : ℤ

/-- What is stored under a key. -/
def Row.Content : Row → Type
  | .governanceConfig => GovernanceConfig
  | .governanceLists _ _ => Bool
  | .governanceModules _ => String
  | .markets _ => Reconciled MarketData
  | .pools _ => Reconciled PoolData
  | .resolutionRequests _ => Reconciled ResolutionRequest
  | .councilCases _ => Reconciled CaseSummary
  | .vaultSnapshots _ => Reconciled VaultAccounting
  | .userPositions _ _ _ => Reconciled ℤ
  | .userVaultState _ _ => Reconciled (List ℤ)
  | .lpPositions _ _ => Reconciled LpSummary
  | .timelockActions _ => Reconciled TimelockAction

/-- The stored rows, the latest written first. -/
abbrev Tables := AList Row.Content

section Columns

/-- Check the columns of a summary: every one must be allowed, and there must be one. -/
def buildUpsertSpec (table : String) (summary allowedColumns : List String) :
    Except String (List String) :=
  let columns := summary.filter (· ∈ allowedColumns)
  let invalidKeys := summary.filter (· ∉ allowedColumns)
  if invalidKeys ≠ [] then
    .error ("Unexpected columns for " ++ table ++ ": " ++ ", ".intercalate invalidKeys)
  else if columns = [] then .error ("No allowed columns provided for " ++ table)
  else .ok columns

/-- The columns that label a row with its reconciliation. -/
def reconciliationColumns : List String := ["last_reconciled_ledger", "reconciled_at"]

/-- The fields of a vault's books, as the contract names them. -/
def vaultAccountingFields : List String :=
  ["amm_collateral", "child_collateral_defaulted", "child_collateral_issued",
    "child_collateral_repaid", "cod_fees", "collateral_backing", "dispute_bonds", "lp_fees",
    "proposal_bonds", "protocol_fees", "redeemed", "refundable", "shortfall", "total_deposited"]

/-- The summary of a market. What the repository allows is the same list, here as in all tables
but that of the books. -/
def marketColumns : List String :=
  ["network", "market_id", "question", "question_hash", "rules_uri", "rules_hash", "creator",
    "category", "collateral", "yes_token_id", "no_token_id", "expiry", "status",
    "has_final_outcome", "final_outcome", "pool_id", "bond_amount", "dispute_window",
    "has_request", "request_id", "created_at_unix", "fee_config_json"] ++ reconciliationColumns

/-- The summary of a pool. -/
def poolColumns : List String :=
  ["network", "pool_id", "market_id", "yes_reserve", "no_reserve", "total_lp_shares",
    "accumulated_lp_fees", "accumulated_protocol_fees", "accumulated_cod_fees",
    "fee_per_share_scaled", "live"] ++ reconciliationColumns

/-- The summary of a request. -/
def requestColumns : List String :=
  ["network", "request_id", "market_id", "status", "requested_at", "bond_amount",
    "dispute_window", "has_proposal", "proposer", "proposed_outcome", "proposal_evidence_uri",
    "proposed_at", "has_dispute", "disputer", "disputed_outcome", "dispute_evidence_uri",
    "disputed_at", "has_final_outcome", "final_outcome"] ++ reconciliationColumns

/-- The summary of a case. -/
def caseColumns : List String :=
  ["network", "case_id", "request_id", "market_id", "status", "proposer", "proposer_outcome",
    "disputer", "disputer_outcome", "voting_start", "commit_end", "reveal_end",
    "has_final_outcome", "final_outcome", "yes_votes", "no_votes", "invalid_votes",
    "total_valid_votes", "reward_pool"] ++ reconciliationColumns

/-- The summary of a vault's books: whatever fields the record has. -/
def vaultSummaryColumns : List String :=
  ["network", "market_id"] ++ vaultAccountingFields ++ reconciliationColumns

/-- What the repository allows of it. -/
def vaultAllowedColumns : List String :=
  ["network", "market_id", "total_deposited", "collateral_backing", "amm_collateral",
    "child_collateral_issued", "child_collateral_repaid", "child_collateral_defaulted",
    "redeemed", "protocol_fees", "lp_fees", "cod_fees", "proposal_bonds", "dispute_bonds",
    "refundable"] ++ reconciliationColumns

/-- The summary of a position. -/
def positionColumns : List String :=
  ["network", "market_id", "owner", "outcome", "balance"] ++ reconciliationColumns

/-- The summary of a user's state in the vault. -/
def userVaultColumns : List String :=
  ["network", "market_id", "owner", "user_deposit", "root_stake_yes", "root_stake_no",
    "child_used_total", "child_used_yes", "child_used_no", "child_debt", "parent_debt_yes",
    "parent_debt_no", "redeemed_yes", "redeemed_no", "redeemed_invalid"] ++ reconciliationColumns

/-- The summary of a liquidity provider. -/
def lpColumns : List String :=
  ["network", "pool_id", "owner", "shares", "fee_checkpoint", "claimable_fees"] ++
    reconciliationColumns

/-- The summary of a timelock action. -/
def timelockColumns : List String :=
  ["network", "action_id", "kind", "target", "payload_json", "execute_after", "expires_at",
    "executed", "cancelled", "payload_hash"] ++ reconciliationColumns

/-- The columns a row is written with. The statements for governance have theirs fixed. -/
def Row.spec : Row → Except String (List String)
  | .governanceConfig =>
    .ok ["network", "treasury", "timelock", "fee_config_json", "pause_authority"]
  | .governanceLists _ _ => .ok ["network", "kind", "address", "approved"]
  | .governanceModules _ => .ok ["network", "role", "module_address"]
  | .markets _ => buildUpsertSpec "markets" marketColumns marketColumns
  | .pools _ => buildUpsertSpec "pools" poolColumns poolColumns
  | .resolutionRequests _ => buildUpsertSpec "resolution_requests" requestColumns requestColumns
  | .councilCases _ => buildUpsertSpec "council_cases" caseColumns caseColumns
  | .vaultSnapshots _ =>
    buildUpsertSpec "vault_snapshots" vaultSummaryColumns vaultAllowedColumns
  | .userPositions _ _ _ => buildUpsertSpec "user_positions" positionColumns positionColumns
  | .userVaultState _ _ => buildUpsertSpec "user_vault_state" userVaultColumns userVaultColumns
  | .lpPositions _ _ => buildUpsertSpec "lp_positions" lpColumns lpColumns
  | .timelockActions _ => buildUpsertSpec "timelock_actions" timelockColumns timelockColumns

/-- A summary of the allowed columns passes its check. -/
theorem buildUpsertSpec_self (table : String) (columns : List String) (h : columns ≠ []) :
    buildUpsertSpec table columns columns = .ok columns := by
  have hvalid : columns.filter (· ∈ columns) = columns :=
    List.filter_eq_self.mpr fun _ hc => decide_eq_true hc
  have hinvalid : columns.filter (· ∉ columns) = [] :=
    List.filter_eq_nil_iff.mpr fun _ hc => by simpa using hc
  unfold buildUpsertSpec
  rw [hvalid, hinvalid]
  exact (if_neg (not_not.mpr rfl)).trans (if_neg h)

/-- The books of a vault do not pass theirs. -/
theorem spec_vaultSnapshots (marketId : ℕ) : (Row.vaultSnapshots marketId).spec =
    .error "Unexpected columns for vault_snapshots: shortfall" := by
  have hspec : buildUpsertSpec "vault_snapshots" vaultSummaryColumns vaultAllowedColumns =
      .error "Unexpected columns for vault_snapshots: shortfall" := by decide +kernel
  exact hspec

end Columns

section Values

/-- The number in a row's key, for a `BIGINT` column. -/
def Row.keyNumber : Row → ℕ
  | .governanceConfig => 0
  | .governanceLists _ _ => 0
  | .governanceModules _ => 0
  | .markets marketId => marketId
  | .pools poolId => poolId
  | .resolutionRequests requestId => requestId
  | .councilCases caseId => caseId
  | .vaultSnapshots marketId => marketId
  | .userPositions marketId _ _ => marketId
  | .userVaultState marketId _ => marketId
  | .lpPositions poolId _ => poolId
  | .timelockActions actionId => actionId

/-- What goes to `BIGINT` columns of a row. The label is a ledger number, of 32 bits. -/
def Row.bigints : (row : Row) → row.Content → List ℕ
  | .markets _, ⟨market, _⟩ =>
    [market.yesTokenId, market.noTokenId, market.expiry, market.poolId, market.disputeWindow,
      market.requestId, market.createdAt]
  | .pools _, ⟨pool, _⟩ => [pool.marketId]
  | .resolutionRequests _, ⟨request, _⟩ =>
    [request.marketId, request.requestedAt, request.disputeWindow, request.proposedAt,
      request.disputedAt]
  | .councilCases _, ⟨summary, _⟩ =>
    [summary.councilCase.requestId, summary.councilCase.marketId,
      summary.councilCase.votingStart, summary.councilCase.commitEnd,
      summary.councilCase.revealEnd]
  | .timelockActions _, ⟨action, _⟩ => [action.executeAfter, action.expiresAt]
  | .governanceConfig, _ => []
  | .governanceLists _ _, _ => []
  | .governanceModules _, _ => []
  | .vaultSnapshots _, _ => []
  | .userPositions _ _ _, _ => []
  | .userVaultState _ _, _ => []
  | .lpPositions _ _, _ => []

/-- What goes to its `INTEGER` columns. -/
def Row.integers : (row : Row) → row.Content → List ℕ
  | .councilCases _, ⟨summary, _⟩ =>
    [summary.councilCase.yesVotes, summary.councilCase.noVotes, summary.councilCase.invalidVotes,
      summary.councilCase.totalValidVotes]
  | _, _ => []

/-- The texts of users that go to its `TEXT` columns. Addresses and the names of roles and
outcomes have no zero character. -/
def Row.texts : (row : Row) → row.Content → List String
  | .markets _, ⟨market, _⟩ => [market.question, market.rulesUri]
  | .resolutionRequests _, ⟨request, _⟩ =>
    [request.proposalEvidenceUri, request.disputeEvidenceUri]
  | _, _ => []

/-- A row can be written at all: its columns are allowed, and its key fits. -/
def Row.writable (row : Row) : Bool := row.spec.isOk && row.keyNumber < 2 ^ 63

/-- Each column of a row can hold its value. -/
def Row.fits (row : Row) (content : row.Content) : Bool :=
  (row.bigints content).all (· < 2 ^ 63) && (row.integers content).all (· < 2 ^ 31) &&
    (row.texts content).all fun text => text.toList.all (· ≠ '\x00')

/-- A row with allowed columns is writable when its key fits. -/
theorem writable_of_spec {row : Row} {columns : List String} (hspec : row.spec = .ok columns)
    (hkey : row.keyNumber < 2 ^ 63) : row.writable = true := by
  unfold Row.writable
  rw [hspec, decide_eq_true hkey]
  rfl

/-- One whose columns are not allowed is not. -/
theorem writable_of_error {row : Row} {e : String} (hspec : row.spec = .error e) :
    row.writable = false := by
  unfold Row.writable
  rw [hspec]
  rfl

/-- Nor is one whose key is too big. -/
theorem writable_of_key_big {row : Row} (hkey : ¬row.keyNumber < 2 ^ 63) :
    row.writable = false := by
  unfold Row.writable
  rw [decide_eq_false hkey]
  exact Bool.and_false _

/-- All rows but those of the books have allowed columns. -/
theorem spec_ok (row : Row) (h : ∀ marketId, row ≠ .vaultSnapshots marketId) :
    ∃ columns, row.spec = .ok columns := by
  cases row with
  | vaultSnapshots marketId => exact absurd rfl (h marketId)
  | governanceConfig => exact ⟨_, rfl⟩
  | governanceLists kind address => exact ⟨_, rfl⟩
  | governanceModules role => exact ⟨_, rfl⟩
  | markets =>
    exact ⟨_, buildUpsertSpec_self "markets" marketColumns (List.cons_ne_nil _ _)⟩
  | pools =>
    exact ⟨_, buildUpsertSpec_self "pools" poolColumns (List.cons_ne_nil _ _)⟩
  | resolutionRequests =>
    exact ⟨_, buildUpsertSpec_self "resolution_requests" requestColumns (List.cons_ne_nil _ _)⟩
  | councilCases =>
    exact ⟨_, buildUpsertSpec_self "council_cases" caseColumns (List.cons_ne_nil _ _)⟩
  | userPositions =>
    exact ⟨_, buildUpsertSpec_self "user_positions" positionColumns (List.cons_ne_nil _ _)⟩
  | userVaultState =>
    exact ⟨_, buildUpsertSpec_self "user_vault_state" userVaultColumns (List.cons_ne_nil _ _)⟩
  | lpPositions =>
    exact ⟨_, buildUpsertSpec_self "lp_positions" lpColumns (List.cons_ne_nil _ _)⟩
  | timelockActions =>
    exact ⟨_, buildUpsertSpec_self "timelock_actions" timelockColumns (List.cons_ne_nil _ _)⟩

/-- So they are writable when their keys fit. -/
theorem writable_of_key {row : Row} (h : ∀ marketId, row ≠ .vaultSnapshots marketId)
    (hkey : row.keyNumber < 2 ^ 63) : row.writable = true := by
  obtain ⟨columns, hspec⟩ := spec_ok row h
  exact writable_of_spec hspec hkey

/-- No row of books is writable. -/
theorem writable_vaultSnapshots (marketId : ℕ) :
    (Row.vaultSnapshots marketId).writable = false :=
  writable_of_error (spec_vaultSnapshots marketId)

/-- A pool fits when the number of its market does. -/
theorem fits_pools {poolId ledger : ℕ} {pool : PoolData} (h : pool.marketId < 2 ^ 63) :
    (Row.pools poolId).fits ⟨pool, ledger⟩ = true := by
  have hnumber : decide (pool.marketId < 2 ^ 63) = true := decide_eq_true h
  unfold Row.fits Row.bigints Row.integers Row.texts
  simp only [List.all_cons, List.all_nil, hnumber, Bool.and_self]

end Values

end DikeProtocol.Services.Scheduled
