import DikeProtocol.Services.Scheduled

/-!
# What a scheduled pass repairs

Nothing a pass writes is made up: a row is left as it was, or says what the
contracts answered at some moment of the pass. Every row that the pass knows of
is refreshed in this sense unless one of its own reads fails, the database
cannot be reached or what was answered cannot be stored, whatever becomes of
all the others.
-/

namespace DikeProtocol.Services.Scheduled

open Lib Indexer

/-- A pass of a job that is set up: the moments its calls meet, the first of its calls, and the
ledger it labels rows with. -/
structure Pass (V : Type) where
  manifest : Manifest
  scValToNative : V → Option Js
  history : ℕ → Moment V
  start : ℕ
  latestLedger : ℕ

section

variable {V : Type} (p : Pass V)

/-- Something was so at a moment of the pass, before so many calls. -/
def During (n : ℕ) (q : Moment V → Prop) : Prop := ∃ k, p.start ≤ k ∧ k < n ∧ q (p.history k)

/-- The database could not be reached for a moment. -/
def Down (n : ℕ) : Prop := During p n fun moment => moment.database = false

/-- What a call answers, with a value for when it fails. -/
def answered {α : Type} (fallback : α) : Except String α → α
  | .ok a => a
  | .error _ => fallback

/-- The contract whose events approve what a list has. -/
def Pass.listContract (kind : String) : String :=
  contractId p.manifest (if kind = "creator" then "market_factory" else "council_of_dike")

/-- What a row says is what the contracts answered in the pass, each part of it at some moment, and
it is labelled with the ledger of the pass. -/
def Answered (n : ℕ) : (row : Row) → row.Content → Prop
  | .governanceConfig, config =>
    During p n (fun m => answered none (m.contracts.treasury.map some) =
      config.treasury) ∧
    During p n (fun m => (answered none (m.contracts.timelock.map some)).getD
      (contractId p.manifest "dike_timelock") = config.timelock) ∧
    During p n (fun m => answered none (m.contracts.pauseAuthority.map some) =
      config.pauseAuthority) ∧
    During p n (fun m => answered none (m.contracts.feeConfig.map some) =
      config.feeConfig)
  | .governanceLists kind address, approved =>
    During p n fun m =>
      (address, approved) ∈ m.approvals (p.listContract kind) kind ∨
      ∃ request page, m.contracts.events request = .ok page ∧
        (address, approved) ∈ page.events.filterMap (approvalOf p.scValToNative kind)
  | .governanceModules role, address =>
    During p n fun m => m.contracts.module role = .ok address
  | .markets marketId, row =>
    During p n (fun m => m.contracts.market marketId = .ok row.content) ∧
      row.lastReconciledLedger = p.latestLedger
  | .pools poolId, row =>
    During p n (fun m => m.contracts.pool poolId = .ok row.content) ∧
      row.lastReconciledLedger = p.latestLedger
  | .resolutionRequests requestId, row =>
    During p n (fun m => m.contracts.request requestId = .ok row.content) ∧
      row.lastReconciledLedger = p.latestLedger
  | .councilCases caseId, row =>
    During p n (fun m => m.contracts.councilCase caseId = .ok row.content.councilCase) ∧
    During p n (fun m => answered 0 (m.contracts.caseRewardPool caseId) =
      row.content.rewardPool) ∧ row.lastReconciledLedger = p.latestLedger
  | .vaultSnapshots marketId, row =>
    During p n (fun m => m.contracts.vaultAccounting marketId = .ok row.content) ∧
      row.lastReconciledLedger = p.latestLedger
  | .userPositions marketId owner outcome, row =>
    During p n (fun m =>
      m.contracts.positionBalance owner marketId outcome = .ok row.content) ∧
      row.lastReconciledLedger = p.latestLedger
  | .userVaultState marketId owner, row =>
    List.Forall₂ (fun column value => During p n fun m =>
      answered 0 (m.contracts.userVaultState column marketId owner) = value) vaultColumns
      row.content ∧ row.lastReconciledLedger = p.latestLedger
  | .lpPositions poolId owner, row =>
    During p n (fun m => m.contracts.lpBalance poolId owner = .ok row.content.shares) ∧
    During p n (fun m => answered 0 (m.contracts.lpFeeCheckpoint poolId owner) =
      row.content.feeCheckpoint) ∧
    During p n (fun m => answered 0 (m.contracts.claimableLpFees poolId owner) =
      row.content.claimableFees) ∧ row.lastReconciledLedger = p.latestLedger
  | .timelockActions actionId, row =>
    During p n (fun m => m.contracts.timelockAction actionId = .ok row.content) ∧
      row.lastReconciledLedger = p.latestLedger

/-- The reads that a row cannot do without are answered. -/
def Reads (contracts : Contracts V) : Row → Prop
  | .governanceConfig => True
  | .governanceLists _ _ => True
  | .governanceModules role => ∃ address, contracts.module role = .ok address
  | .markets marketId => ∃ market, contracts.market marketId = .ok market
  | .pools poolId => ∃ pool, contracts.pool poolId = .ok pool
  | .resolutionRequests requestId => ∃ request, contracts.request requestId = .ok request
  | .councilCases caseId => ∃ councilCase, contracts.councilCase caseId = .ok councilCase
  | .vaultSnapshots marketId => ∃ vault, contracts.vaultAccounting marketId = .ok vault
  | .userPositions marketId owner outcome =>
    ∃ balance, contracts.positionBalance owner marketId outcome = .ok balance
  | .userVaultState _ _ => True
  | .lpPositions poolId owner => ∃ shares, contracts.lpBalance poolId owner = .ok shares
  | .timelockActions actionId => ∃ action, contracts.timelockAction actionId = .ok action

/-- A row could not be written: the database was down for a moment, or the row or what was
answered for it cannot be stored. -/
def Unwritten (n : ℕ) (row : Row) : Prop :=
  Down p n ∨ row.writable = false ∨ ∃ content, Answered p n row content ∧ row.fits content = false

/-- A row could not be read for a moment, or not be written. -/
def Refused (n : ℕ) (row : Row) : Prop :=
  During p n (fun m => ¬Reads m.contracts row) ∨ Unwritten p n row

/-- In the pass a row was refreshed, or could not be. -/
def Served (s : JobState) (row : Row) : Prop :=
  (∃ content, s.rows.lookup row = some content ∧ Answered p s.calls row content) ∨
  Refused p s.calls row

/-- Calls were awaited, and every row is as it was, or could be written and was refreshed. -/
structure Swept (s s' : JobState) : Prop where
  later : s.calls ≤ s'.calls
  rows : ∀ row, s'.rows.lookup row = s.rows.lookup row ∨ (row.writable = true ∧
    ∃ content, s'.rows.lookup row = some content ∧ Answered p s'.calls row content)

/-- A task of the pass refreshes a row where it ends, and is refused it where it fails. -/
def Serves (row : Row) (task : Task PUnit) : Prop :=
  ∀ s, p.start ≤ s.calls → Ensures task s
    (fun _ s' => Swept p s s' ∧ Served p s' row)
    (fun s' => Swept p s s' ∧ Refused p s'.calls row)

/-- A task of the pass does something, whether it ends or fails, and meanwhile rows are refreshed
only. -/
def Brings (P : JobState → Prop) (task : Task PUnit) : Prop :=
  ∀ s, p.start ≤ s.calls → Ensures task s (fun _ s' => Swept p s s' ∧ P s')
    (fun s' => Swept p s s' ∧ P s')

/-- What is so stays so while rows are refreshed. -/
def Lasting (P : JobState → Prop) : Prop := ∀ s s', Swept p s s' → P s → P s'

/-- A request was refreshed, and its case with it if there is one. -/
def RequestServed (requestId : ℕ) (s : JobState) : Prop :=
  Served p s (.resolutionRequests requestId) ∧
  (Refused p s.calls (.resolutionRequests requestId) ∨
    During p s.calls (fun m => ∃ e, m.contracts.caseForRequest requestId = .error e) ∨
    ∃ caseId, During p s.calls (fun m => m.contracts.caseForRequest requestId = .ok caseId) ∧
      Served p s (.councilCases (toDouble caseId)))

/-- A market was refreshed, and with it the pool and the request it has. -/
def MarketServed (marketId : ℕ) (s : JobState) : Prop :=
  Refused p s.calls (.markets marketId) ∨
  ∃ market, During p s.calls (fun m => m.contracts.market marketId = .ok market) ∧
    Served p s (.markets marketId) ∧ Served p s (.pools (toDouble market.poolId)) ∧
    (market.hasRequest = true → Refused p s.calls (.pools (toDouble market.poolId)) ∨
      RequestServed p (toDouble market.requestId) s)

end

section Moments

variable {V : Type} {p : Pass V} {n n' : ℕ} {q : Moment V → Prop} {row : Row}
  {s s' s'' : JobState}

/-- What was so is remembered. -/
theorem During.mono (h : During p n q) (hn : n ≤ n') : During p n' q := by
  obtain ⟨k, hk, hk', hq⟩ := h
  exact ⟨k, hk, hk'.trans_le hn, hq⟩

/-- It was so by a weaker name. -/
theorem During.imp {q' : Moment V → Prop} (h : During p n q) (hq : ∀ m, q m → q' m) :
    During p n q' := by
  obtain ⟨k, hk, hk', hm⟩ := h
  exact ⟨k, hk, hk', hq _ hm⟩

/-- What a call meets is of the pass. -/
theorem During.now (hs : p.start ≤ s.calls) (hq : q (p.history s.calls)) :
    During p s.awaited.calls q := ⟨s.calls, hs, Nat.lt_succ_self _, hq⟩

/-- While the database is down no row can be written. -/
theorem Down.refused (h : Down p n) (row : Row) : Refused p n row := Or.inr (Or.inl h)

/-- A row that can be written, whatever is answered, is not written only while the database is
down. -/
theorem Unwritten.down (h : Unwritten p n row) (hwritable : row.writable = true)
    (hfits : ∀ content, row.fits content = true) : Down p n := by
  obtain hdown | hkey | ⟨content, _, hunfit⟩ := h
  · exact hdown
  · rw [hwritable] at hkey
    cases hkey
  · rw [hfits content] at hunfit
    cases hunfit

/-- So are answers. -/
theorem Answered.mono {content : row.Content} (h : Answered p n row content) (hn : n ≤ n') :
    Answered p n' row content := by
  cases row with
  | governanceConfig => exact ⟨h.1.mono hn, h.2.1.mono hn, h.2.2.1.mono hn, h.2.2.2.mono hn⟩
  | governanceLists kind address =>
    unfold Answered at h ⊢
    exact h.mono hn
  | governanceModules role =>
    unfold Answered at h ⊢
    exact h.mono hn
  | councilCases caseId => exact ⟨h.1.mono hn, h.2.1.mono hn, h.2.2⟩
  | userVaultState marketId owner => exact ⟨h.1.imp fun _ _ hvalue => hvalue.mono hn, h.2⟩
  | lpPositions poolId owner => exact ⟨h.1.mono hn, h.2.1.mono hn, h.2.2.1.mono hn, h.2.2.2⟩
  | markets id => exact ⟨h.1.mono hn, h.2⟩
  | pools id => exact ⟨h.1.mono hn, h.2⟩
  | resolutionRequests id => exact ⟨h.1.mono hn, h.2⟩
  | vaultSnapshots id => exact ⟨h.1.mono hn, h.2⟩
  | userPositions id owner outcome => exact ⟨h.1.mono hn, h.2⟩
  | timelockActions id => exact ⟨h.1.mono hn, h.2⟩

/-- A refusal is remembered. -/
theorem Refused.mono (h : Refused p n row) (hn : n ≤ n') : Refused p n' row := by
  obtain hread | hdown | hkey | ⟨content, hanswered, hunfit⟩ := h
  · exact Or.inl (During.mono hread hn)
  · exact Or.inr (Or.inl (During.mono hdown hn))
  · exact Or.inr (Or.inr (Or.inl hkey))
  · exact Or.inr (Or.inr (Or.inr ⟨content, hanswered.mono hn, hunfit⟩))

/-- Nothing happened. -/
theorem Swept.refl (s : JobState) : Swept p s s := ⟨le_rfl, fun _ => Or.inl rfl⟩

/-- One stretch of calls after another. -/
theorem Swept.trans (h : Swept p s s') (h' : Swept p s' s'') : Swept p s s'' := by
  refine ⟨h.later.trans h'.later, fun row => ?_⟩
  obtain hsame | hnew := h'.rows row
  · rw [hsame]
    obtain hsame' | ⟨hwritable, content, hrow, hanswered⟩ := h.rows row
    · exact Or.inl hsame'
    · exact Or.inr ⟨hwritable, content, hrow, hanswered.mono h'.later⟩
  · exact Or.inr hnew

/-- A call alone writes nothing. -/
theorem Swept.awaited (s : JobState) : Swept p s s.awaited := ⟨Nat.le_succ _, fun _ => Or.inl rfl⟩

/-- No row is lost. -/
theorem Swept.mem (h : Swept p s s') (hrow : row ∈ s.rows) : row ∈ s'.rows := by
  rw [← AList.lookup_isSome] at hrow ⊢
  obtain hsame | ⟨_, content, hnew, _⟩ := h.rows row
  · rw [hsame]
    exact hrow
  · rw [hnew]
    rfl

/-- A row that cannot be written stays as it is. -/
theorem Swept.kept (h : Swept p s s') (hkey : row.writable = false) :
    s'.rows.lookup row = s.rows.lookup row := by
  obtain hsame | ⟨hwritable, _⟩ := h.rows row
  · exact hsame
  · rw [hkey] at hwritable
    cases hwritable

/-- A row that was refreshed is still fresh after more calls. -/
theorem Served.lasts (h : Served p s row) (hswept : Swept p s s') : Served p s' row := by
  obtain ⟨content, hrow, hanswered⟩ | hrefused := h
  · left
    obtain hsame | ⟨_, hnew⟩ := hswept.rows row
    · exact ⟨content, hsame.trans hrow, hanswered.mono hswept.later⟩
    · exact hnew
  · exact Or.inr (hrefused.mono hswept.later)

/-- So is a request. -/
theorem RequestServed.lasts {requestId : ℕ} (h : RequestServed p requestId s)
    (hswept : Swept p s s') : RequestServed p requestId s' := by
  refine ⟨h.1.lasts hswept, ?_⟩
  obtain hrefused | hnone | ⟨caseId, hcase, hserved⟩ := h.2
  · exact Or.inl (hrefused.mono hswept.later)
  · exact Or.inr (Or.inl (hnone.mono hswept.later))
  · exact Or.inr (Or.inr ⟨caseId, hcase.mono hswept.later, hserved.lasts hswept⟩)

/-- So is a market. -/
theorem MarketServed.lasts {marketId : ℕ} (h : MarketServed p marketId s)
    (hswept : Swept p s s') : MarketServed p marketId s' := by
  obtain hrefused | ⟨market, hmarket, hserved, hpool, hrequest⟩ := h
  · exact Or.inl (hrefused.mono hswept.later)
  · refine Or.inr ⟨market, hmarket.mono hswept.later, hserved.lasts hswept, hpool.lasts hswept,
      fun hhas => ?_⟩
    obtain hrefused | hrequest := hrequest hhas
    · exact Or.inl (hrefused.mono hswept.later)
    · exact Or.inr (hrequest.lasts hswept)

end Moments

section Calls

variable {V α : Type} {p : Pass V} {s : JobState} {E : JobState → Prop}

/-- A contract call answers or fails, and changes nothing. -/
theorem ensures_call {history : ℕ → Moment V} {read : Contracts V → Except String α}
    {Q : α → JobState → Prop}
    (hok : ∀ a, read (history s.calls).contracts = .ok a → Q a s.awaited)
    (hfails : ∀ e, read (history s.calls).contracts = .error e → E s.awaited) :
    Ensures (call history read) s Q E := by
  unfold Ensures call
  cases h : read (history s.calls).contracts with
  | ok a => exact hok a h
  | error e => exact hfails e h

/-- A call with a value for failures does not fail. -/
theorem ensures_callOr {history : ℕ → Moment V} {fallback : α}
    {read : Contracts V → Except String α} {Q : α → JobState → Prop}
    (h : Q (answered fallback (read (history s.calls).contracts)) s.awaited) :
    Ensures (callOr history fallback read) s Q E := by
  refine ensures_tryCatch (ensures_call ?_ ?_)
  · intro a ha
    rw [ha] at h
    exact h
  · intro e he _
    rw [he] at h
    exact ensures_pure h

/-- A query answers unless the database is down. -/
theorem ensures_query {read : Moment V → Tables → α} {Q : α → JobState → Prop}
    (hs : p.start ≤ s.calls) (hok : Q (read (p.history s.calls) s.rows) s.awaited)
    (hfails : Down p s.awaited.calls → E s.awaited) :
    Ensures (query p.history read) s Q E := by
  unfold Ensures query
  cases h : (p.history s.calls).database with
  | true => exact hok
  | false => exact hfails (During.now hs h)

/-- A write inserts its row, or changes no row: the row cannot be written, the database is down or
a column cannot hold its value. -/
theorem upsert_ends (history : ℕ → Moment V) (row : Row) (content : row.Content) (s : JobState) :
    Ensures (upsert history row content) s
      (fun _ s' => row.writable = true ∧
        s' = { s.awaited with rows := s.rows.insert row content })
      (fun s' => (s' = s ∨ s' = s.awaited) ∧ (row.writable = false ∨
        (s' = s.awaited ∧ ((history s.calls).database = false ∨ row.fits content = false)))) := by
  unfold Ensures upsert
  cases hspec : row.spec with
  | error e => exact ⟨Or.inl rfl, Or.inl (writable_of_error hspec)⟩
  | ok columns =>
    dsimp only
    split_ifs with hstored
    · exact ⟨writable_of_spec hspec hstored.2.1, rfl⟩
    · refine ⟨Or.inr rfl, ?_⟩
      by_cases hkey : row.keyNumber < 2 ^ 63
      · refine Or.inr ⟨rfl, ?_⟩
        cases hup : (history s.calls).database with
        | false => exact Or.inl rfl
        | true =>
          exact Or.inr (Bool.eq_false_of_not_eq_true fun hfits => hstored ⟨hup, hkey, hfits⟩)
      · exact Or.inl (writable_of_key_big hkey)

/-- What was answered is written over the row, unless that cannot be written. -/
theorem ensures_upsert {row : Row} {content : row.Content} (hs : p.start ≤ s.calls)
    (hanswered : Answered p s.calls row content) :
    Ensures (upsert p.history row content) s (fun _ s' => Swept p s s' ∧ Served p s' row)
      (fun s' => Swept p s s' ∧ Unwritten p s'.calls row) := by
  have hlater := hanswered.mono (Nat.le_succ s.calls)
  refine (upsert_ends p.history row content s).mono ?_ ?_
  · rintro _ _ ⟨hwritable, rfl⟩
    have hnew : (s.rows.insert row content).lookup row = some content := AList.lookup_insert _
    refine ⟨⟨Nat.le_succ _, fun row' => ?_⟩, Or.inl ⟨content, hnew, hlater⟩⟩
    by_cases hrow : row' = row
    · subst hrow
      exact Or.inr ⟨hwritable, content, hnew, hlater⟩
    · exact Or.inl (AList.lookup_insert_ne hrow)
  · rintro s' ⟨hsame, hkey | ⟨rfl, hdown | hunfit⟩⟩
    · have hswept : Swept p s s' := by
        obtain rfl | rfl := hsame
        · exact Swept.refl _
        · exact Swept.awaited s
      exact ⟨hswept, Or.inr (Or.inl hkey)⟩
    · exact ⟨Swept.awaited s, Or.inl (During.now hs hdown)⟩
    · exact ⟨Swept.awaited s, Or.inr (Or.inr ⟨content, hlater, hunfit⟩)⟩

/-- A row that is written is refreshed, and refused where it is not. -/
theorem ensures_stored {row : Row} {content : row.Content} (hs : p.start ≤ s.calls)
    (hanswered : Answered p s.calls row content) :
    Ensures (upsert p.history row content) s (fun _ s' => Swept p s s' ∧ Served p s' row)
      (fun s' => Swept p s s' ∧ Refused p s'.calls row) :=
  (ensures_upsert hs hanswered).mono (fun _ _ h => h) (fun _ h => ⟨h.1, Or.inr h.2⟩)

/-- What is ensured from a later state on is ensured from an earlier one. -/
theorem ensures_swept {task : Task α} {s' : JobState} {Q : α → JobState → Prop}
    (hswept : Swept p s s')
    (h : Ensures task s' (fun a t => Swept p s' t ∧ Q a t) (fun t => Swept p s' t ∧ E t)) :
    Ensures task s' (fun a t => Swept p s t ∧ Q a t) (fun t => Swept p s t ∧ E t) :=
  h.mono (fun _ _ ht => ⟨hswept.trans ht.1, ht.2⟩) (fun _ ht => ⟨hswept.trans ht.1, ht.2⟩)

/-- Noting a mismatch writes no row. -/
theorem ensures_noteMismatch {marketId : ℕ} :
    Ensures (noteMismatch p.history marketId) s (fun _ s' => Swept p s s')
      (fun s' => Swept p s s') := by
  unfold Ensures noteMismatch
  cases (p.history s.calls).database with
  | true => exact ⟨Nat.le_succ _, fun _ => Or.inl rfl⟩
  | false => exact Swept.awaited s

/-- A read that fails refuses its row. -/
theorem refused_of_error {e : String} (row : Row) (read : Contracts V → Except String α)
    (hs : p.start ≤ s.calls) (hreads : ∀ c, Reads c row → ∃ a, read c = .ok a)
    (h : read (p.history s.calls).contracts = .error e) : Refused p s.awaited.calls row := by
  refine Or.inl (During.now hs fun hr => ?_)
  obtain ⟨a, ha⟩ := hreads _ hr
  rw [h] at ha
  cases ha

end Calls

section Steps

variable {V α : Type} {p : Pass V}

/-- A read and a write of what it answered refresh the row. -/
theorem serves_row {read : Contracts V → Except String α} {row : Row} {write : α → row.Content}
    (hreads : ∀ c, Reads c row → ∃ a, read c = .ok a)
    (hanswered : ∀ a n, During p n (fun m => read m.contracts = .ok a) →
      Answered p n row (write a)) :
    Serves p row (do let a ← call p.history read; upsert p.history row (write a)) := by
  intro s hs
  refine ensures_bind (ensures_call ?_ ?_)
  · intro a ha
    exact ensures_swept (Swept.awaited s) (ensures_stored (hs.trans (Nat.le_succ _))
      (hanswered a _ (During.now hs ha)))
  · intro e he
    exact ⟨Swept.awaited s, refused_of_error _ _ hs hreads he⟩

/-- A pool is refreshed. -/
theorem reconcilePool_serves (poolId : ℕ) :
    Serves p (.pools poolId) (reconcilePool p.history p.latestLedger poolId) :=
  serves_row (fun _ h => h) (fun _ _ h => ⟨h, rfl⟩)

/-- The books of a market are refreshed. -/
theorem reconcileVault_serves (marketId : ℕ) :
    Serves p (.vaultSnapshots marketId) (reconcileVault p.history p.latestLedger marketId) :=
  serves_row (fun _ h => h) (fun _ _ h => ⟨h, rfl⟩)

/-- A timelock action is refreshed. -/
theorem reconcileTimelockAction_serves (actionId : ℕ) :
    Serves p (.timelockActions actionId)
      (reconcileTimelockAction p.history p.latestLedger actionId) :=
  serves_row (fun _ h => h) (fun _ _ h => ⟨h, rfl⟩)

/-- The module of a role is refreshed. -/
theorem module_serves (role : String) :
    Serves p (.governanceModules role)
      (do
        let moduleAddress ← call p.history (fun c => c.module role)
        upsert p.history (.governanceModules role) moduleAddress) :=
  serves_row (fun _ h => h) (fun _ _ h => h)

/-- A liquidity provider is refreshed. -/
theorem reconcileLpPosition_serves (poolId : ℕ) (owner : String) :
    Serves p (.lpPositions poolId owner)
      (reconcileLpPosition p.history p.latestLedger poolId owner) := by
  intro s hs
  refine ensures_bind (ensures_call ?_ ?_)
  · intro shares hshares
    have hs1 : p.start ≤ s.awaited.calls := hs.trans (Nat.le_succ _)
    have hs2 : p.start ≤ s.awaited.awaited.calls := hs1.trans (Nat.le_succ _)
    refine ensures_bind (ensures_callOr (ensures_bind (ensures_callOr ?_)))
    have hswept := ((Swept.awaited (p := p) s).trans (Swept.awaited _)).trans (Swept.awaited _)
    refine ensures_swept hswept (ensures_stored (hs2.trans (Nat.le_succ _)) ⟨?_, ?_, ?_, rfl⟩)
    · exact ((During.now hs hshares).mono (Nat.le_succ _)).mono (Nat.le_succ _)
    · exact During.mono (During.now hs1 rfl) (Nat.le_succ _)
    · exact During.now hs2 rfl
  · intro e he
    exact ⟨Swept.awaited s, refused_of_error _ _ hs (fun _ h => h) he⟩

/-- A case is refreshed. -/
theorem reconcileCase_serves (caseId : ℕ) :
    Serves p (.councilCases caseId) (reconcileCase p.history p.latestLedger caseId) := by
  intro s hs
  refine ensures_bind (ensures_call ?_ ?_)
  · intro councilCase hcase
    have hs1 : p.start ≤ s.awaited.calls := hs.trans (Nat.le_succ _)
    refine ensures_bind (ensures_callOr ?_)
    refine ensures_swept ((Swept.awaited (p := p) s).trans (Swept.awaited _))
      (ensures_stored (hs1.trans (Nat.le_succ _)) ⟨?_, ?_, rfl⟩)
    · exact (During.now hs hcase).mono (Nat.le_succ _)
    · exact During.now hs1 rfl
  · intro e he
    exact ⟨Swept.awaited s, refused_of_error _ _ hs (fun _ h => h) he⟩

/-- A user's state in the vault is refreshed. -/
theorem reconcileUserVaultState_serves (marketId : ℕ) (owner : String) :
    Serves p (.userVaultState marketId owner)
      (reconcileUserVaultState p.history p.latestLedger marketId owner) := by
  intro s hs
  have hcolumns := ensures_mapM (E := fun _ => False) (R := fun s s' => Swept p s s')
    (P := fun column value s' => During p s'.calls fun m =>
      answered 0 (m.contracts.userVaultState column marketId owner) = value)
    (f := fun column => callOr p.history 0 fun c => c.userVaultState column marketId owner)
    (l := vaultColumns) Swept.refl (fun _ _ _ => Swept.trans)
    (fun _ _ _ _ h hmove => h.mono hmove.later) (Swept.refl s)
    (fun column _ s' hs' => ensures_callOr
      ⟨Swept.awaited s', During.now (hs.trans hs'.later) rfl⟩)
  refine ensures_bind (hcolumns.mono ?_ fun _ h => h.2.elim)
  rintro values s' ⟨hswept, hvalues⟩
  exact ensures_swept hswept (ensures_stored (hs.trans hswept.later) ⟨hvalues, rfl⟩)

/-- A balance is refreshed, and left as it is where it cannot be read. -/
theorem reconcileBalance_ensures (marketId : ℕ) (owner : String) (outcome : Outcome)
    {s : JobState} (hs : p.start ≤ s.calls) :
    Ensures (reconcileBalance p.history p.latestLedger marketId owner outcome) s
      (fun _ s' => Swept p s s' ∧ Served p s' (.userPositions marketId owner outcome))
      (fun s' => Swept p s s' ∧ Unwritten p s'.calls (.userPositions marketId owner outcome)) := by
  refine ensures_bind (ensures_callOr ?_)
  cases h : (p.history s.calls).contracts.positionBalance owner marketId outcome with
  | error e =>
    refine ensures_pure ⟨Swept.awaited s, Or.inr ?_⟩
    exact refused_of_error _ (fun c => c.positionBalance owner marketId outcome) hs
      (fun _ h => h) h
  | ok balance =>
    have hanswered : Answered p s.awaited.calls (.userPositions marketId owner outcome)
        ⟨balance, p.latestLedger⟩ := ⟨During.now hs h, rfl⟩
    exact ensures_swept (Swept.awaited s) (ensures_upsert (hs.trans (Nat.le_succ _)) hanswered)

/-- A request is refreshed, with its case. -/
theorem reconcileRequest_brings (requestId : ℕ) :
    Brings p (RequestServed p requestId)
      (reconcileRequest p.history p.latestLedger requestId) := by
  intro s hs
  refine ensures_bind (ensures_call ?_ ?_)
  · intro request hrequest
    have hs1 : p.start ≤ s.awaited.calls := hs.trans (Nat.le_succ _)
    have hanswered : Answered p s.awaited.calls (.resolutionRequests requestId)
        ⟨request, p.latestLedger⟩ := ⟨During.now hs hrequest, rfl⟩
    refine ensures_bind ((ensures_swept (Swept.awaited s) (ensures_stored hs1 hanswered)).mono
      ?_ ?_)
    · rintro _ s' ⟨hswept, hserved⟩
      have hs' := hs.trans hswept.later
      refine ensures_tryCatch (ensures_bind (ensures_call ?_ ?_))
      · intro caseId hcase
        have hdone : ∀ s'', Swept p s'.awaited s'' →
            Served p s'' (.councilCases (toDouble caseId)) →
            Swept p s s'' ∧ RequestServed p requestId s'' := by
          intro s'' hmove hfresh
          have hall := (Swept.awaited s').trans hmove
          exact ⟨hswept.trans hall, hserved.lasts hall,
            Or.inr (Or.inr ⟨caseId, (During.now hs' hcase).mono hmove.later, hfresh⟩)⟩
        refine Ensures.mono (reconcileCase_serves (p := p) (toDouble caseId) s'.awaited
          (hs'.trans (Nat.le_succ _))) ?_ ?_
        · rintro _ s'' ⟨hmove, hfresh⟩
          exact hdone s'' hmove hfresh
        · rintro s'' ⟨hmove, hrefused⟩ e
          exact ensures_pure (hdone s'' hmove (Or.inr hrefused))
      · intro e he e'
        exact ensures_pure ⟨hswept.trans (Swept.awaited s'), hserved.lasts (Swept.awaited s'),
          Or.inr (Or.inl (During.now hs' ⟨e, he⟩))⟩
    · rintro s' ⟨hswept, hrefused⟩
      exact ⟨hswept, Or.inr hrefused, Or.inl hrefused⟩
  · intro e he
    have hrefused := refused_of_error (.resolutionRequests requestId) _ hs (fun _ h => h) he
    exact ⟨Swept.awaited s, Or.inr hrefused, Or.inl hrefused⟩

/-- A market is refreshed, with its pool and its request. -/
theorem reconcileMarket_brings (marketId : ℕ) :
    Brings p (MarketServed p marketId) (reconcileMarket p.history p.latestLedger marketId) := by
  intro s hs
  refine ensures_bind (ensures_call ?_ ?_)
  · intro market hmarket
    refine ensures_bind (ensures_callOr ?_)
    have h2 : Swept p s s.awaited.awaited := (Swept.awaited s).trans (Swept.awaited _)
    have hread : During p s.awaited.awaited.calls
        (fun m => m.contracts.market marketId = .ok market) :=
      During.mono (During.now hs hmarket) (Nat.le_succ _)
    have hanswered : Answered p s.awaited.awaited.calls (.markets marketId)
        ⟨market, p.latestLedger⟩ := ⟨hread, rfl⟩
    refine ensures_bind ((ensures_upsert (hs.trans h2.later) hanswered).mono ?_ ?_)
    · rintro _ s1 ⟨hmove1, hserved⟩
      have h1 := h2.trans hmove1
      -- whatever follows the write of the row, it stays fresh
      have hdone : ∀ s', Swept p s1 s' → Served p s' (.pools (toDouble market.poolId)) →
          (market.hasRequest = true → Refused p s'.calls (.pools (toDouble market.poolId)) ∨
            RequestServed p (toDouble market.requestId) s') →
          Swept p s s' ∧ MarketServed p marketId s' := by
        intro s' hmove hpool hrequest
        exact ⟨h1.trans hmove, Or.inr ⟨market, hread.mono (hmove1.trans hmove).later,
          hserved.lasts hmove, hpool, hrequest⟩⟩
      refine ensures_bind (Ensures.mono (reconcilePool_serves (toDouble market.poolId) s1
        (hs.trans h1.later)) ?_ ?_)
      · rintro _ s3 ⟨h3, hpool⟩
        have hnote : ∀ s4, Swept p s3 s4 → (market.hasRequest = true →
            RequestServed p (toDouble market.requestId) s4) → ∀ tradeable : Option Bool, Ensures
              (if tradeable = some false ∧ market.status = .live then
                noteMismatch p.history marketId else pure ⟨⟩) s4
              (fun _ s' => Swept p s s' ∧ MarketServed p marketId s')
              (fun s' => Swept p s s' ∧ MarketServed p marketId s') := by
          intro s4 h4 hrequest tradeable
          have hlast : ∀ s', Swept p s4 s' → Swept p s s' ∧ MarketServed p marketId s' :=
            fun s' hmove => hdone s' ((h3.trans h4).trans hmove) (hpool.lasts (h4.trans hmove))
              fun hhas => Or.inr ((hrequest hhas).lasts hmove)
          split
          · exact ensures_noteMismatch.mono (fun _ => hlast) hlast
          · exact ensures_pure (hlast s4 (Swept.refl s4))
        dsimp only
        split
        · refine ensures_bind (Ensures.mono (reconcileRequest_brings (p := p)
            (toDouble market.requestId) s3 (hs.trans (h1.trans h3).later)) ?_ ?_)
          · rintro _ s4 ⟨h4, hrequest⟩
            exact hnote s4 h4 (fun _ => hrequest) _
          · rintro s4 ⟨h4, hrequest⟩
            exact hdone s4 (h3.trans h4) (hpool.lasts h4) fun _ => Or.inr hrequest
        · next hnone => exact hnote s3 (Swept.refl s3) (fun hhas => absurd hhas hnone) _
      · rintro s3 ⟨h3, hrefused⟩
        exact hdone s3 h3 (Or.inr hrefused) fun _ => Or.inl hrefused
    · rintro s' ⟨hswept, hunwritten⟩
      exact ⟨h2.trans hswept, Or.inl (Or.inr hunwritten)⟩
  · intro e he
    exact ⟨Swept.awaited s,
      Or.inl (refused_of_error (.markets marketId) _ hs (fun _ h => h) he)⟩

end Steps

end DikeProtocol.Services.Scheduled
