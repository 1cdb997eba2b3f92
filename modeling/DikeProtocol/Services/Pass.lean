import DikeProtocol.Services.Sweep

/-!
# What a tick of the timer does

A tick makes one pass, whatever fails in it, and is ready for the next one when
it is over. Unless its first call fails or the database is down for a moment,
the pass refreshes every market below the factory's counter, known before or
not, and every other row it knew of.
-/

namespace DikeProtocol.Services.Scheduled

open Lib Indexer

section

variable {V : Type}

/-- The factory's counter is beyond a market, and can be counted up to. -/
def CounterBeyond (contracts : Contracts V) (marketId : ℕ) : Prop :=
  ∃ next, contracts.nextMarketId = .ok next ∧ marketId < toDouble next ∧ toDouble next < 2 ^ 53

variable (p : Pass V)

/-- A market that a pass comes to: it has a row, or the counter was beyond it all the time. -/
def Listed (known : Tables) (n marketId : ℕ) : Prop :=
  .markets marketId ∈ known ∨
    (1 ≤ marketId ∧ ∀ k, p.start ≤ k → k < n → CounterBeyond (p.history k).contracts marketId)

/-- A pool has a row of a market, and no other pool has. -/
def OnlyPool (known : Tables) (marketId poolId : ℕ) : Prop :=
  (∃ pool : Reconciled PoolData, known.lookup (.pools poolId) = some pool ∧
    toDouble pool.content.marketId = marketId) ∧
  ∀ (poolId' : ℕ) (pool : Reconciled PoolData), known.lookup (.pools poolId') = some pool →
    toDouble pool.content.marketId = marketId → poolId' = poolId

/-- What a pass over everything has done. -/
structure Repaired (known : Tables) (s : JobState) : Prop where
  governance : GovernanceServed p s
  markets : ∀ marketId, Listed p known s.calls marketId →
    MarketSwept p known (OnlyPool known marketId) marketId s
  actions : ∀ actionId, .timelockActions actionId ∈ known → Served p s (.timelockActions actionId)

end

section Frame

variable {V α : Type} {history : ℕ → Moment V}

/-- The rows of governance. -/
def Row.governs : Row → Bool
  | .governanceConfig => true
  | .governanceLists _ _ => true
  | .governanceModules _ => true
  | _ => false

/-- All other rows are as they were. -/
def OthersKept (s s' : JobState) : Prop :=
  ∀ row : Row, row.governs = false → s'.rows.lookup row = s.rows.lookup row

theorem OthersKept.refl (s : JobState) : OthersKept s s := fun _ _ => rfl

theorem OthersKept.trans (s s' s'' : JobState) (h : OthersKept s s') (h' : OthersKept s' s'') :
    OthersKept s s'' :=
  fun row hrow => (h' row hrow).trans (h row hrow)

/-- A call changes no row. -/
theorem keeps_call (read : Contracts V → Except String α) :
    Keeps OthersKept (call history read) :=
  fun s => ensures_call (fun _ _ => OthersKept.refl s) (fun _ _ => OthersKept.refl s)

/-- Nor does one that is made good. -/
theorem keeps_callOr (fallback : α) (read : Contracts V → Except String α) :
    Keeps OthersKept (callOr history fallback read) :=
  fun s => ensures_callOr (OthersKept.refl s)

/-- Nor does a query. -/
theorem keeps_query (read : Moment V → Tables → α) : Keeps OthersKept (query history read) := by
  intro s
  unfold Ensures query
  cases (history s.calls).database with
  | true => exact OthersKept.refl s
  | false => exact OthersKept.refl s

/-- A write of a row of governance changes no other row. -/
theorem keeps_upsert {row : Row} (hrow : row.governs = true) (content : row.Content) :
    Keeps OthersKept (upsert history row content) := by
  intro s
  refine (upsert_ends history row content s).mono ?_ ?_
  · rintro _ _ ⟨_, rfl⟩ other hother
    refine AList.lookup_insert_ne ?_
    rintro rfl
    rw [hrow] at hother
    cases hother
  · rintro _ ⟨rfl | rfl, _⟩
    · exact OthersKept.refl _
    · exact OthersKept.refl s

/-- Pages of events change no row. -/
theorem approvalPages_keeps {scValToNative : V → Option Js} {id topic : String} {pages : ℕ}
    {request : EventRequest} {approvals : List (String × Bool)} :
    Keeps OthersKept (approvalPages scValToNative history id topic pages request approvals) := by
  induction pages generalizing request approvals with
  | zero => exact keeps_pure OthersKept.refl _
  | succ pages ih =>
    refine keeps_bind OthersKept.trans (keeps_call _) fun response => ?_
    dsimp only
    split
    · exact keeps_pure OthersKept.refl _
    · split
      · exact keeps_pure OthersKept.refl _
      · exact ih

/-- Nor does looking for approvals. -/
theorem whenEmpty_keeps {scValToNative : V → Option Js} {id topic : String} {ledger : ℕ}
    (approvals : List (String × Bool)) :
    Keeps OthersKept (whenEmpty approvals
      (fetchRecentApprovalEvents scValToNative history id topic ledger)) := by
  unfold whenEmpty
  split
  · exact approvalPages_keeps
  · exact keeps_pure OthersKept.refl _

/-- The settings of governance are read without a change to any other row. -/
theorem reconcileGovernance_keeps (manifest : Manifest) (scValToNative : V → Option Js)
    (ledger : ℕ) :
    Keeps OthersKept (reconcileGovernance manifest scValToNative history ledger) := by
  refine keeps_bind OthersKept.trans (keeps_callOr _ _) fun treasury => ?_
  refine keeps_bind OthersKept.trans (keeps_callOr _ _) fun timelock => ?_
  refine keeps_bind OthersKept.trans (keeps_callOr _ _) fun pauseAuthority => ?_
  refine keeps_bind OthersKept.trans (keeps_callOr _ _) fun feeConfig => ?_
  refine keeps_bind OthersKept.trans (keeps_upsert rfl _) fun _ => ?_
  refine keeps_bind OthersKept.trans (keeps_query _) fun creators => ?_
  refine keeps_bind OthersKept.trans (keeps_query _) fun members => ?_
  refine keeps_bind OthersKept.trans (whenEmpty_keeps _) fun creators => ?_
  refine keeps_bind OthersKept.trans (whenEmpty_keeps _) fun members => ?_
  refine keeps_bind OthersKept.trans
    (keeps_forM OthersKept.refl OthersKept.trans fun _ _ => keeps_upsert rfl _) fun _ => ?_
  refine keeps_bind OthersKept.trans
    (keeps_forM OthersKept.refl OthersKept.trans fun _ _ => keeps_upsert rfl _) fun _ => ?_
  refine keeps_forM OthersKept.refl OthersKept.trans fun role _ => ?_
  refine keeps_tryCatch OthersKept.trans ?_ fun _ => keeps_pure OthersKept.refl _
  exact keeps_bind OthersKept.trans (keeps_call _) fun _ => keeps_upsert rfl _

/-- Nor is any other row changed where that fails. -/
theorem keeps_safeStep {step : Task PUnit} (h : Keeps OthersKept step) :
    Keeps OthersKept (safeStep step) :=
  keeps_tryCatch OthersKept.trans h fun _ => keeps_pure OthersKept.refl _

end Frame

section Lists

variable {V : Type} {history : ℕ → Moment V} {s : JobState} {E : JobState → Prop}

/-- The listed markets are those with a row. -/
theorem mem_listKnownMarketIds {marketId : ℕ} {rows : Tables} (h : .markets marketId ∈ rows) :
    marketId ∈ listKnownMarketIds rows := by
  unfold listKnownMarketIds
  rw [List.mem_mergeSort, List.mem_filterMap]
  exact ⟨_, AList.mem_keys.mp h, rfl⟩

/-- The listed actions are those with a row. -/
theorem mem_listKnownTimelockActionIds {actionId : ℕ} {rows : Tables}
    (h : .timelockActions actionId ∈ rows) : actionId ∈ listKnownTimelockActionIds rows := by
  unfold listKnownTimelockActionIds
  rw [List.mem_mergeSort, List.mem_filterMap]
  exact ⟨_, AList.mem_keys.mp h, rfl⟩

/-- The listed pairs are those of the pools. -/
theorem mem_listKnownMarketPools {marketId poolId : ℕ} {rows : Tables} :
    (marketId, poolId) ∈ listKnownMarketPools rows ↔ ∃ pool : Reconciled PoolData,
      rows.lookup (.pools poolId) = some pool ∧ toDouble pool.content.marketId = marketId := by
  unfold listKnownMarketPools
  rw [List.mem_filterMap]
  constructor
  · rintro ⟨⟨row, content⟩, hmem, hpair⟩
    cases row with
    | pools id =>
      cases hpair
      exact ⟨content, AList.mem_lookup_iff.mpr hmem, rfl⟩
    | _ => cases hpair
  · rintro ⟨pool, hrow, rfl⟩
    exact ⟨⟨.pools poolId, pool⟩, AList.mem_lookup_iff.mp hrow, rfl⟩

/-- A pool that alone has a row of a market is paired with it. -/
theorem poolByMarket_of_only {marketId poolId : ℕ} {rows : Tables}
    (h : OnlyPool rows marketId poolId) :
    poolByMarket (listKnownMarketPools rows) marketId = some poolId := by
  unfold poolByMarket
  have hmem : (marketId, poolId) ∈
      (listKnownMarketPools rows).filter (fun entry => entry.1 = marketId) :=
    List.mem_filter.mpr ⟨mem_listKnownMarketPools.mpr h.1, decide_eq_true rfl⟩
  cases hlast : ((listKnownMarketPools rows).filter (fun entry => entry.1 = marketId)).getLast? with
  | none =>
    rw [List.getLast?_eq_none_iff] at hlast
    rw [hlast] at hmem
    cases hmem
  | some entry =>
    obtain ⟨hentry, hmarket⟩ := List.mem_filter.mp (List.mem_of_getLast? hlast)
    obtain ⟨pool, hrow, hpool⟩ := mem_listKnownMarketPools.mp hentry
    exact congrArg some (h.2 entry.2 pool hrow (hpool.trans (of_decide_eq_true hmarket)))

/-- The markets that are discovered are the known ones and those below the counter. -/
theorem discoverMarketIds_ensures {known : List ℕ} :
    Ensures (discoverMarketIds history known) s
      (fun ids s' => s' = s.awaited ∧ (∀ id ∈ known, id ∈ ids) ∧
        ∀ id, 1 ≤ id → CounterBeyond (history s.calls).contracts id → id ∈ ids) E := by
  refine ensures_tryCatch (ensures_bind (ensures_call ?_ ?_))
  · intro next hnext
    dsimp only
    split
    · next hinvalid =>
      intro e
      refine ensures_pure ⟨rfl, fun _ h => h, fun id hid hbeyond => ?_⟩
      obtain ⟨next', hnext', hlt, hsafe⟩ := hbeyond
      rw [hnext] at hnext'
      cases hnext'
      omega
    · refine ensures_pure ⟨rfl, fun _ h => List.mem_append_left _ h, fun id hid hbeyond => ?_⟩
      obtain ⟨next', hnext', hlt, -⟩ := hbeyond
      rw [hnext] at hnext'
      cases hnext'
      by_cases hknown : id ∈ known
      · exact List.mem_append_left _ hknown
      · refine List.mem_append_right _ (List.mem_filter.mpr ⟨?_, decide_eq_true hknown⟩)
        rw [List.mem_range'_1]
        omega
  · intro e he e'
    refine ensures_pure ⟨rfl, fun _ h => h, fun id hid hbeyond => ?_⟩
    obtain ⟨next, hnext, _⟩ := hbeyond
    rw [he] at hnext
    cases hnext

end Lists

section Pass

variable {V : Type} {p : Pass V} {s : JobState}

/-- Whatever is known before governance is read is known after it. -/
theorem OnlyPool.kept {s' : JobState} {marketId poolId : ℕ} (h : OnlyPool s.rows marketId poolId)
    (hkept : OthersKept s s') : OnlyPool s'.rows marketId poolId := by
  obtain ⟨⟨pool, hpool, hmarket⟩, honly⟩ := h
  refine ⟨⟨pool, (hkept (.pools poolId) rfl).trans hpool, hmarket⟩, fun poolId' pool' hrow => ?_⟩
  exact honly poolId' pool' ((hkept (.pools poolId') rfl).symm.trans hrow)

/-- A pass refreshes all there is, unless the database is down for a moment. -/
theorem pass_ensures (hstart : s.calls = p.start)
    (hledger : (p.history p.start).contracts.latestLedger = .ok p.latestLedger) :
    Ensures (pass p.manifest p.scValToNative p.history) s
      (fun _ s' => Swept p s s' ∧ Repaired p s.rows s')
      (fun s' => Swept p s s' ∧ Down p s'.calls) := by
  refine ensures_bind (ensures_call ?_ ?_)
  · intro ledger hread
    rw [hstart, hledger] at hread
    obtain rfl := Except.ok.inj hread
    have hs1 : p.start ≤ s.awaited.calls := hstart.ge.trans (Nat.le_succ _)
    have hgovernance := (ensures_safeStep (E := fun _ => False)
      (reconcileGovernance_brings (p := p)) hs1).and
      (keeps_safeStep (reconcileGovernance_keeps _ _ _) s.awaited)
    refine ensures_bind (hgovernance.mono ?_ fun _ h => h.1.elim)
    rintro _ s2 ⟨⟨h12, hgovernance⟩, hkept⟩
    have h2 := (Swept.awaited s).trans h12
    have hs2 := hstart.ge.trans h2.later
    refine ensures_bind (ensures_query hs2 ?_ fun hdown => ⟨h2.trans (Swept.awaited _), hdown⟩)
    refine ensures_bind (discoverMarketIds_ensures.mono ?_ fun _ h => h)
    rintro ids _ ⟨rfl, hknown, hbelow⟩
    have h24 := (Swept.awaited (p := p) s2).trans (Swept.awaited _)
    have h4 := h2.trans h24
    have hs4 := hstart.ge.trans h4.later
    refine ensures_bind (ensures_query hs4 ?_ fun hdown => ⟨h4.trans (Swept.awaited _), hdown⟩)
    have h5 := h4.trans (Swept.awaited s2.awaited.awaited)
    have hs5 := hstart.ge.trans h5.later
    refine ensures_bind (Ensures.mono (ensures_sweep
      (P := fun marketId => MarketSwept p s.rows
        (fun poolId => poolByMarket (listKnownMarketPools s2.rows) marketId = some poolId) marketId)
      (fun marketId => marketSwept_lasting _ _ _)
      (fun marketId _ s' hs' => sweepMarket_ensures (hs5.trans hs'.later)
        fun row hrow => (h5.trans hs').mem hrow)) ?_ fun _ h => ⟨h5.trans h.1, h.2⟩)
    rintro _ s6 ⟨h56, hmarkets⟩
    have h6 := h5.trans h56
    have hs6 := hstart.ge.trans h6.later
    refine ensures_bind (ensures_query hs6 ?_ fun hdown => ⟨h6.trans (Swept.awaited _), hdown⟩)
    refine Ensures.mono (ensures_sweep
      (P := fun actionId s => Served p s (.timelockActions actionId))
      (fun actionId => served_lasting _) (fun actionId _ s' hs' =>
        ensures_safeStep (reconcileTimelockAction_serves actionId).brings
          ((hs6.trans (Nat.le_succ _)).trans hs'.later))) ?_
      fun _ h => ⟨(h6.trans (Swept.awaited s6)).trans h.1, h.2⟩
    rintro _ s7 ⟨h67, hactions⟩
    have h68 := (Swept.awaited s6).trans h67
    refine ⟨h6.trans h68, ?_, ?_, ?_⟩
    · exact governanceServed_lasting _ _
        (((h24.trans (Swept.awaited _)).trans h56).trans h68) hgovernance
    · intro marketId hlisted
      have hmem : marketId ∈ ids := by
        obtain hrow | ⟨hpos, hcounter⟩ := hlisted
        · exact hknown _ (mem_listKnownMarketIds (h2.mem hrow))
        · refine hbelow _ hpos (hcounter _ (hs2.trans (Nat.le_succ _)) ?_)
          have hlater := (h56.trans h68).later
          dsimp only [JobState.awaited] at hlater ⊢
          omega
      have hswept := marketSwept_lasting _ _ _ _ _ h68 (hmarkets marketId hmem)
      exact { hswept with
        providers := fun poolId owner honly =>
          hswept.providers poolId owner (poolByMarket_of_only (honly.kept hkept)) }
    · intro actionId hrow
      exact hactions actionId (mem_listKnownTimelockActionIds (h6.mem hrow))
  · intro e he
    rw [hstart, hledger] at he
    cases he

/-- It is done when the next one may begin, too. -/
theorem Repaired.released {known : Tables} (h : Repaired p known s) :
    Repaired p known { s with running := false } := by
  have hswept : Swept p s { s with running := false } := ⟨le_rfl, fun _ => Or.inl rfl⟩
  exact ⟨governanceServed_lasting _ _ hswept h.governance,
    fun marketId hlisted => marketSwept_lasting _ _ _ _ _ hswept (h.markets marketId hlisted),
    fun actionId hrow => (h.actions actionId hrow).lasts hswept⟩

end Pass

section Tick

variable {V : Type} (manifest : Manifest) (scValToNative : V → Option Js)
  (history : ℕ → Moment V)

/-- What a tick amounts to. One that comes while a pass is going on does nothing. Another one is
over when it ends: its first call failed, or rows were refreshed only and, unless the database was
down for a moment, all of them were. The rows of books are as they were in any case. -/
inductive Ticked (s s' : JobState) : Prop where
  | busy (hrunning : s.running = true) (hsame : s' = s)
  | silent (hidle : s.running = false) (hover : s'.running = false)
      (hcalled : s'.calls = s.calls + 1)
      (hfails : ∃ e, (history s.calls).contracts.latestLedger = .error e)
      (hrows : s'.rows = s.rows)
  | passed (hidle : s.running = false) (hover : s'.running = false) (latestLedger : ℕ)
      (hledger : (history s.calls).contracts.latestLedger = .ok latestLedger)
      (hswept : Swept ⟨manifest, scValToNative, history, s.calls, latestLedger⟩ s s')
      (hbooks : ∀ i, s'.rows.lookup (.vaultSnapshots i) = s.rows.lookup (.vaultSnapshots i))
      (hdone : Down ⟨manifest, scValToNative, history, s.calls, latestLedger⟩ s'.calls ∨
        Repaired ⟨manifest, scValToNative, history, s.calls, latestLedger⟩ s.rows s')

end Tick

end DikeProtocol.Services.Scheduled
