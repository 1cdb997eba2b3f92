import DikeProtocol.Services.Repair

/-!
# A pass over everything

The steps of a pass are taken one after the other, and what each has refreshed
is still fresh when the pass ends. What makes a pass stop early is the database
alone, or the first call of all.
-/

namespace DikeProtocol.Services.Scheduled

open Lib Indexer

section

variable {V : Type} (p : Pass V)

/-- What a pass does about a market: it is refreshed with its pool and its request, and so are the
positions and the vault states of its known owners, and the shares of the known providers of a pool
that is paired with it. -/
structure MarketSwept (known : Tables) (paired : ℕ → Prop) (marketId : ℕ) (s : JobState) :
    Prop where
  market : MarketServed p marketId s
  positions : ∀ owner outcome, .userPositions marketId owner outcome ∈ known →
    ∀ outcome', Served p s (.userPositions marketId owner outcome')
  vaultStates : ∀ owner outcome, .userPositions marketId owner outcome ∈ known →
    Served p s (.userVaultState marketId owner)
  providers : ∀ poolId owner, paired poolId → .lpPositions poolId owner ∈ known →
    Served p s (.lpPositions poolId owner)

/-- The events of a contract could not be read for a moment. -/
def EventsRefused (n : ℕ) : Prop :=
  During p n fun m => ∃ request e, m.contracts.events request = .error e

/-- An approval that some page of events had. -/
def Paged (topic : String) (n : ℕ) (approval : String × Bool) : Prop :=
  During p n fun m => ∃ request page, m.contracts.events request = .ok page ∧
    approval ∈ page.events.filterMap (approvalOf p.scValToNative topic)

/-- The settings of governance are refreshed, and the modules unless the events that approvals are
looked for in cannot be read. -/
def GovernanceServed (s : JobState) : Prop :=
  Served p s .governanceConfig ∧
  (EventsRefused p s.calls ∨ ∀ role ∈ moduleRoles, Served p s (.governanceModules role))

end

section Sweeping

variable {V : Type} {p : Pass V} {s s' : JobState} {E : JobState → Prop}

/-- A refreshed row lasts. -/
theorem served_lasting (row : Row) : Lasting p fun s => Served p s row :=
  fun _ _ hswept h => h.lasts hswept

/-- Rows of a family that are refreshed last. -/
theorem forall_lasting {ι : Type} {P : ι → JobState → Prop} (h : ∀ i, Lasting p (P i)) :
    Lasting p fun s => ∀ i, P i s :=
  fun s s' hswept hall i => h i s s' hswept (hall i)

/-- A step that fails is made good. -/
theorem ensures_safeStep {P : JobState → Prop} {step : Task PUnit} (h : Brings p P step)
    (hs : p.start ≤ s.calls) :
    Ensures (safeStep step) s (fun _ s' => Swept p s s' ∧ P s') E := by
  refine ensures_tryCatch ((h s hs).mono (fun _ _ hdone => hdone) ?_)
  intro s' hdone e
  exact ensures_pure hdone

/-- What refreshes a row does so also where it fails, in that the row was refused. -/
theorem Serves.brings {row : Row} {step : Task PUnit} (h : Serves p row step) :
    Brings p (fun s => Served p s row) step :=
  fun s hs => (h s hs).mono (fun _ _ hdone => hdone) fun _ hdone => ⟨hdone.1, Or.inr hdone.2⟩

/-- A loop of steps does what each of them does, unless something stops one. -/
theorem ensures_sweep {ι : Type} {f : ι → Task PUnit} {P : ι → JobState → Prop}
    {F : JobState → Prop} {l : List ι} (hlasts : ∀ i, Lasting p (P i))
    (hturn : ∀ i ∈ l, ∀ s', Swept p s s' → Ensures (f i) s'
      (fun _ s'' => Swept p s' s'' ∧ P i s'') (fun s'' => Swept p s' s'' ∧ F s'')) :
    Ensures (l.forM f) s (fun _ s' => Swept p s s' ∧ ∀ i ∈ l, P i s')
      (fun s' => Swept p s s' ∧ F s') :=
  ensures_forM (R := fun s s' => Swept p s s') Swept.refl (fun _ _ _ => Swept.trans)
    (fun i s1 s2 hdone hmove => hlasts i s1 s2 hmove hdone) (Swept.refl s) hturn

/-- An owner's positions of a market are refreshed, in every outcome. -/
theorem reconcileUserPosition_brings (marketId : ℕ) (owner : String) :
    Brings p (fun s => ∀ outcome, Served p s (.userPositions marketId owner outcome))
      (reconcileUserPosition p.history p.latestLedger marketId owner) := by
  intro s hs
  -- balances fit, so what stops the loop stops it for every outcome
  have hstops : ∀ n outcome, Unwritten p n (.userPositions marketId owner outcome) →
      ∀ outcome', Refused p n (.userPositions marketId owner outcome') := by
    rintro n outcome (hdown | hkey | ⟨content, _, hunfit⟩) outcome'
    · exact hdown.refused _
    · exact Or.inr (Or.inr (Or.inl hkey))
    · cases hunfit
  refine Ensures.mono (ensures_sweep (p := p)
    (P := fun outcome s => Served p s (.userPositions marketId owner outcome))
    (F := fun s => ∀ outcome, Refused p s.calls (.userPositions marketId owner outcome))
    (fun outcome => served_lasting _) (fun outcome _ s' hs' =>
      (reconcileBalance_ensures marketId owner outcome (hs.trans hs'.later)).mono
        (fun _ _ h => h) fun s'' h => ⟨h.1, hstops s''.calls outcome h.2⟩)) ?_ ?_
  · rintro _ s' ⟨hswept, hdone⟩
    refine ⟨hswept, fun outcome => hdone outcome ?_⟩
    cases outcome <;> decide
  · rintro s' ⟨hswept, hrefused⟩
    exact ⟨hswept, fun outcome => Or.inr (hrefused outcome)⟩

/-- The owners that are listed are those of a position. -/
theorem mem_listKnownPositionOwners {marketId : ℕ} {owner : String} {outcome : Outcome}
    {rows : Tables} (h : .userPositions marketId owner outcome ∈ rows) :
    owner ∈ listKnownPositionOwners marketId rows := by
  unfold listKnownPositionOwners
  rw [List.mem_dedup, List.mem_filterMap]
  exact ⟨_, AList.mem_keys.mp h, if_pos rfl⟩

/-- The providers that are listed are those of the pool's shares. -/
theorem mem_listKnownLpOwners {poolId : ℕ} {owner : String} {rows : Tables}
    (h : .lpPositions poolId owner ∈ rows) : owner ∈ listKnownLpOwners poolId rows := by
  unfold listKnownLpOwners
  rw [List.mem_dedup, List.mem_filterMap]
  exact ⟨_, AList.mem_keys.mp h, if_pos rfl⟩

/-- A pool's known providers are refreshed. -/
theorem sweepPool_ensures {known : Tables} {poolId : ℕ} (hs : p.start ≤ s.calls)
    (hknown : ∀ row ∈ known, row ∈ s.rows) :
    Ensures (sweepPool p.history p.latestLedger poolId) s
      (fun _ s' => Swept p s s' ∧ ∀ owner, .lpPositions poolId owner ∈ known →
        Served p s' (.lpPositions poolId owner))
      (fun s' => Swept p s s' ∧ Down p s'.calls) := by
  refine ensures_bind (ensures_query hs ?_ fun hdown => ⟨Swept.awaited s, hdown⟩)
  refine (ensures_swept (Swept.awaited s) (ensures_sweep
    (P := fun owner s => Served p s (.lpPositions poolId owner)) (fun owner => served_lasting _)
    (fun owner _ s' hs' => ensures_safeStep (reconcileLpPosition_serves poolId owner).brings
      ((hs.trans (Nat.le_succ _)).trans hs'.later)))).mono ?_ fun _ h => h
  rintro _ s' ⟨hswept, hdone⟩
  exact ⟨hswept, fun owner howner => hdone owner (mem_listKnownLpOwners (hknown _ howner))⟩

/-- A market is refreshed, with all that is known of it. -/
theorem sweepMarket_ensures {known : Tables} {pools : List (ℕ × ℕ)} {marketId : ℕ}
    (hs : p.start ≤ s.calls) (hknown : ∀ row ∈ known, row ∈ s.rows) :
    Ensures (sweepMarket p.history p.latestLedger pools marketId) s
      (fun _ s' => Swept p s s' ∧ MarketSwept p known
        (fun poolId => poolByMarket pools marketId = some poolId) marketId s')
      (fun s' => Swept p s s' ∧ Down p s'.calls) := by
  refine ensures_bind (Ensures.mono (ensures_safeStep (reconcileMarket_brings marketId) hs)
    ?_ fun _ h => h)
  rintro _ s1 ⟨h1, hmarket⟩
  refine ensures_bind (Ensures.mono (ensures_safeStep (reconcileVault_serves marketId).brings
    (hs.trans h1.later)) ?_ fun _ h => h)
  rintro _ s2 ⟨h2, _⟩
  have h02 := h1.trans h2
  have hs2 := hs.trans h02.later
  refine ensures_bind (ensures_query hs2 ?_ fun hdown => ⟨h02.trans (Swept.awaited s2), hdown⟩)
  have howners : ∀ owner outcome, .userPositions marketId owner outcome ∈ known →
      owner ∈ listKnownPositionOwners marketId s2.rows := fun owner outcome hrow =>
    mem_listKnownPositionOwners (h02.mem (hknown _ hrow))
  have h3 := Swept.awaited (p := p) s2
  have hs3 := hs2.trans h3.later
  refine ensures_bind ((ensures_sweep
    (P := fun owner s => ∀ outcome, Served p s (.userPositions marketId owner outcome))
    (fun owner => forall_lasting fun outcome => served_lasting _)
    (fun owner _ s' hs' => ensures_safeStep (reconcileUserPosition_brings marketId owner)
      (hs3.trans hs'.later))).mono ?_ fun _ h => ⟨(h02.trans h3).trans h.1, h.2⟩)
  rintro _ s4 ⟨h4, hpositions⟩
  have hs4 := hs3.trans h4.later
  refine ensures_bind ((ensures_sweep
    (P := fun owner s => Served p s (.userVaultState marketId owner))
    (fun owner => served_lasting _)
    (fun owner _ s' hs' => ensures_safeStep
      (reconcileUserVaultState_serves marketId owner).brings (hs4.trans hs'.later))).mono ?_
      fun _ h => ⟨((h02.trans h3).trans h4).trans h.1, h.2⟩)
  rintro _ s5 ⟨h5, hstates⟩
  have h25 := (h3.trans h4).trans h5
  have hend : ∀ s', Swept p s5 s' →
      (∀ poolId owner, poolByMarket pools marketId = some poolId →
        .lpPositions poolId owner ∈ known → Served p s' (.lpPositions poolId owner)) →
      Swept p s s' ∧ MarketSwept p known
        (fun poolId => poolByMarket pools marketId = some poolId) marketId s' := by
    intro s' hmove hproviders
    refine ⟨(h02.trans h25).trans hmove, ⟨?_, ?_, ?_, hproviders⟩⟩
    · exact hmarket.lasts ((h2.trans h25).trans hmove)
    · intro owner outcome hrow outcome'
      exact (hpositions owner (howners owner outcome hrow) outcome').lasts (h5.trans hmove)
    · intro owner outcome hrow
      exact (hstates owner (howners owner outcome hrow)).lasts hmove
  split
  · next hnone =>
    refine ensures_pure (hend s5 (Swept.refl s5) fun poolId _ hpaired => ?_)
    rw [hnone] at hpaired
    cases hpaired
  · next poolId hpool =>
    have h05 := h02.trans h25
    refine (sweepPool_ensures (hs.trans h05.later)
      fun row hrow => h05.mem (hknown row hrow)).mono ?_ fun _ h => ⟨h05.trans h.1, h.2⟩
    rintro _ s' ⟨hmove, hdone⟩
    refine hend s' hmove fun poolId' owner hpaired hrow => ?_
    rw [hpool] at hpaired
    cases hpaired
    exact hdone owner hrow

/-- What is done about a market lasts. -/
theorem marketSwept_lasting (known : Tables) (paired : ℕ → Prop) (marketId : ℕ) :
    Lasting p (MarketSwept p known paired marketId) := by
  intro s s' hswept h
  constructor
  · exact h.market.lasts hswept
  · intro owner outcome hknown outcome'
    exact (h.positions owner outcome hknown outcome').lasts hswept
  · intro owner outcome hknown
    exact (h.vaultStates owner outcome hknown).lasts hswept
  · intro poolId owner hpaired hknown
    exact (h.providers poolId owner hpaired hknown).lasts hswept

end Sweeping

section Governance

variable {V : Type} {p : Pass V} {s s' : JobState}

/-- An approval that is in the list once one was set was there before, or is that one. -/
theorem mem_setApproval {approvals : List (String × Bool)} {approval entry : String × Bool}
    (h : entry ∈ setApproval approvals approval) : entry ∈ approvals ∨ entry = approval := by
  unfold setApproval at h
  split at h
  · obtain ⟨old, hold, hentry⟩ := List.mem_map.mp h
    split at hentry
    · exact Or.inr hentry.symm
    · exact Or.inl (hentry ▸ hold)
  · obtain hold | hnew := List.mem_append.mp h
    · exact Or.inl hold
    · exact Or.inr (List.mem_singleton.mp hnew)

/-- So with several. -/
theorem mem_foldl_setApproval {approvals found : List (String × Bool)} {entry : String × Bool}
    (h : entry ∈ found.foldl setApproval approvals) : entry ∈ approvals ∨ entry ∈ found := by
  induction found generalizing approvals with
  | nil => exact Or.inl h
  | cons approval found ih =>
    obtain hset | hfound := ih h
    · obtain hold | rfl := mem_setApproval hset
      · exact Or.inl hold
      · exact Or.inr List.mem_cons_self
    · exact Or.inr (List.mem_cons_of_mem _ hfound)

/-- The approvals that pages of events add are those of the pages. -/
theorem approvalPages_ensures {id topic : String} {pages : ℕ} {request : EventRequest}
    {approvals : List (String × Bool)} (hs : p.start ≤ s.calls)
    (hpaged : ∀ a ∈ approvals, Paged p topic s.calls a) :
    Ensures (approvalPages p.scValToNative p.history id topic pages request approvals) s
      (fun found s' => Swept p s s' ∧ ∀ a ∈ found, Paged p topic s'.calls a)
      (fun s' => Swept p s s' ∧ EventsRefused p s'.calls) := by
  induction pages generalizing s request approvals with
  | zero => exact ensures_pure ⟨Swept.refl s, hpaged⟩
  | succ pages ih =>
    refine ensures_bind (ensures_call ?_ ?_)
    · intro response hresponse
      have hfound : ∀ a ∈ (response.events.filterMap (approvalOf p.scValToNative topic)).foldl
          setApproval approvals, Paged p topic s.awaited.calls a := by
        intro a ha
        obtain hold | hnew := mem_foldl_setApproval ha
        · exact During.mono (hpaged a hold) (Nat.le_succ _)
        · exact During.now hs ⟨request, response, hresponse, hnew⟩
      dsimp only
      split
      · exact ensures_pure ⟨Swept.awaited s, hfound⟩
      · split
        · exact ensures_pure ⟨Swept.awaited s, hfound⟩
        · exact ensures_swept (Swept.awaited s) (ih (hs.trans (Nat.le_succ _)) hfound)
    · intro e he
      exact ⟨Swept.awaited s, During.now hs ⟨request, e, he⟩⟩

/-- Recorded approvals, or those of pages, are answers of the pass. -/
theorem whenEmpty_ensures {id kind : String} {approvals : List (String × Bool)} {ledger : ℕ}
    (hs : p.start ≤ s.calls)
    (hrecorded : ∀ a ∈ approvals, Answered p s.calls (.governanceLists kind a.1) a.2) :
    Ensures (whenEmpty approvals
        (fetchRecentApprovalEvents p.scValToNative p.history id kind ledger)) s
      (fun found s' => Swept p s s' ∧ ∀ a ∈ found,
        Answered p s'.calls (.governanceLists kind a.1) a.2)
      (fun s' => Swept p s s' ∧ EventsRefused p s'.calls) := by
  unfold whenEmpty
  split
  · have hnone : ∀ a ∈ ([] : List (String × Bool)), Paged p kind s.calls a :=
      fun a ha => absurd ha List.not_mem_nil
    refine (approvalPages_ensures hs hnone).mono ?_ fun _ h => h
    rintro found s' ⟨hmove, hfound⟩
    refine ⟨hmove, fun a ha => ?_⟩
    unfold Answered
    exact During.imp (hfound a ha) fun _ h => Or.inr h
  · exact ensures_pure ⟨Swept.refl s, hrecorded⟩

/-- Rows of approvals are refreshed, unless the database is down. -/
theorem upsertApprovals_ensures {kind : String} {approvals : List (String × Bool)}
    (hs : p.start ≤ s.calls)
    (hanswered : ∀ a ∈ approvals, Answered p s.calls (.governanceLists kind a.1) a.2) :
    Ensures (approvals.forM fun a => upsert p.history (.governanceLists kind a.1) a.2) s
      (fun _ s' => Swept p s s') (fun s' => Swept p s s' ∧ Down p s'.calls) := by
  refine ensures_forM_inv (Swept.refl s) fun a ha s' hs' => ?_
  refine (ensures_upsert (hs.trans hs'.later) ((hanswered a ha).mono hs'.later)).mono ?_ ?_
  · rintro _ s'' ⟨hmove, _⟩
    exact hs'.trans hmove
  · rintro s'' ⟨hmove, hunwritten⟩
    exact ⟨hs'.trans hmove, hunwritten.down rfl fun _ => rfl⟩

/-- What is done about governance lasts. -/
theorem governanceServed_lasting : Lasting p (GovernanceServed p) := by
  rintro s s' hswept ⟨hconfig, hmodules⟩
  refine ⟨hconfig.lasts hswept, ?_⟩
  obtain hrefused | hmodules := hmodules
  · exact Or.inl (During.mono hrefused hswept.later)
  · exact Or.inr fun role hrole => (hmodules role hrole).lasts hswept

/-- Creators are approved by the factory. -/
theorem listContract_creator :
    p.listContract "creator" = contractId p.manifest "market_factory" :=
  congrArg _ (if_pos rfl)

/-- Members are approved by the council. -/
theorem listContract_member :
    p.listContract "member" = contractId p.manifest "council_of_dike" :=
  congrArg _ (if_neg (by decide))

/-- Recorded approvals are answers of the moment. -/
theorem answered_recorded {id kind : String} (hid : p.listContract kind = id)
    (hs : p.start ≤ s.calls) : ∀ a ∈ (p.history s.calls).approvals id kind,
      Answered p s.awaited.calls (.governanceLists kind a.1) a.2 := by
  intro a ha
  rw [← hid] at ha
  exact ⟨s.calls, hs, Nat.lt_succ_self _, Or.inl ha⟩

/-- Governance is refreshed. -/
theorem reconcileGovernance_brings : Brings p (GovernanceServed p)
    (reconcileGovernance p.manifest p.scValToNative p.history p.latestLedger) := by
  intro s hs
  refine ensures_bind (ensures_callOr (ensures_bind (ensures_callOr (ensures_bind
    (ensures_callOr (ensures_bind (ensures_callOr ?_)))))))
  have h4 : Swept p s s.awaited.awaited.awaited.awaited :=
    ((Swept.awaited s).trans (Swept.awaited _)).trans
      ((Swept.awaited _).trans (Swept.awaited _))
  have hs4 := hs.trans h4.later
  have hanswered : Answered p s.awaited.awaited.awaited.awaited.calls .governanceConfig
      ⟨_, _, _, _⟩ :=
    ⟨⟨s.calls, hs, by dsimp only [JobState.awaited]; omega, rfl⟩,
      ⟨s.calls + 1, by omega, by dsimp only [JobState.awaited]; omega, rfl⟩,
      ⟨s.calls + 2, by omega, by dsimp only [JobState.awaited]; omega, rfl⟩,
      ⟨s.calls + 3, by omega, by dsimp only [JobState.awaited]; omega, rfl⟩⟩
  have hdown : ∀ {t s' : JobState}, Swept p s t → Swept p t s' ∧ Down p s'.calls →
      Swept p s s' ∧ GovernanceServed p s' := fun ht h =>
    ⟨ht.trans h.1, Or.inr (h.2.refused _), Or.inr fun role _ => Or.inr (h.2.refused _)⟩
  refine ensures_bind ((ensures_upsert hs4 hanswered).mono ?_ fun _ h =>
    hdown h4 ⟨h.1, h.2.down rfl fun _ => rfl⟩)
  rintro _ s1 ⟨hmove, hconfig⟩
  have h1 := h4.trans hmove
  have hs1 := hs.trans h1.later
  have hs2 := hs1.trans (Nat.le_succ _)
  refine ensures_bind (ensures_query hs1 ?_ fun hfails => hdown h1 ⟨Swept.awaited s1, hfails⟩)
  refine ensures_bind (ensures_query hs2 ?_ fun hfails =>
    hdown (h1.trans (Swept.awaited s1)) ⟨Swept.awaited _, hfails⟩)
  have h13 := (Swept.awaited (p := p) s1).trans (Swept.awaited _)
  have hs3 := hs1.trans h13.later
  -- once events cannot be read, the modules are not asked for
  have hevents : ∀ {t s' : JobState}, Swept p s1 t → Swept p t s' ∧ EventsRefused p s'.calls →
      Swept p s s' ∧ GovernanceServed p s' := fun ht h =>
    ⟨(h1.trans ht).trans h.1, hconfig.lasts (ht.trans h.1), Or.inl h.2⟩
  refine ensures_bind ((whenEmpty_ensures hs3 fun a ha =>
    (answered_recorded listContract_creator hs1 a ha).mono (Nat.le_succ _)).mono ?_
    fun _ h => hevents h13 h)
  rintro creators s4 ⟨h34, hcreators⟩
  have h14 := h13.trans h34
  refine ensures_bind ((whenEmpty_ensures (hs1.trans h14.later) fun a ha =>
    (answered_recorded listContract_member hs2 a ha).mono h34.later).mono ?_
    fun _ h => hevents h14 h)
  rintro members s5 ⟨h45, hmembers⟩
  have h15 := h14.trans h45
  refine ensures_bind ((upsertApprovals_ensures (hs1.trans h15.later) fun a ha =>
    (hcreators a ha).mono h45.later).mono ?_ fun _ h => hdown (h1.trans h15) h)
  intro _ s6 h56
  have h16 := h15.trans h56
  refine ensures_bind ((upsertApprovals_ensures (hs1.trans h16.later) fun a ha =>
    (hmembers a ha).mono h56.later).mono ?_ fun _ h => hdown (h1.trans h16) h)
  intro _ s7 h67
  have h17 := h16.trans h67
  have hs7 := hs1.trans h17.later
  refine (ensures_sweep (P := fun role s => Served p s (.governanceModules role))
    (fun role => served_lasting _) (fun role _ s' hs' =>
      ensures_safeStep (module_serves role).brings (hs7.trans hs'.later))).mono ?_
    fun _ h => hdown (h1.trans h17) h
  rintro _ s8 ⟨h78, hmodules⟩
  exact ⟨(h1.trans h17).trans h78, hconfig.lasts (h17.trans h78), Or.inr hmodules⟩

end Governance

end DikeProtocol.Services.Scheduled
