import DikeProtocol.Services.EventSource
import DikeProtocol.Lib.Run
import DikeProtocol.Lib.Store
import DikeProtocol.Lib.Result

/-!
# The indexer's ticks

A tick visits the deployed contracts one after another. It polls each, processes
the fetched events up to the first failure, and moves the contract's checkpoint
when the window was complete and nothing failed. An error outside the processing
of an event ends the tick.
-/

namespace DikeProtocol.Services.Indexer

open Lib

/-- The settings of a worker, as far as the checked environment allows them. -/
structure WorkerEnv where
  source : EventSource
  startLedger : Option ℤ
  window_pos : 0 < source.ledgerWindow
  margin_nonneg : 0 ≤ source.reorgSafetyMarginLedgers
  start_pos : ∀ first, startLedger = some first → 0 < first

/-- The stored checkpoints, a row per contract. -/
abbrev Checkpoints := Store String (Option Checkpoint)

/-- The checkpoint of a contract, which is 0 without a row. -/
def getCheckpoint (rows : Checkpoints) (contractId : String) : Checkpoint :=
  (rows contractId).getD ⟨0, none⟩

/-- Move a checkpoint forward, never back. -/
def advanceCheckpoint (rows : Checkpoints) (contractId : String) (lastProcessedLedger : ℤ)
    (lastProcessedCursor : Option String) : Checkpoints :=
  match rows contractId with
  | none => rows.set contractId (some ⟨lastProcessedLedger, lastProcessedCursor⟩)
  | some row => rows.set contractId
      (some ⟨max row.lastProcessedLedger lastProcessedLedger, lastProcessedCursor⟩)

/-- Overwrite a checkpoint. -/
def resetCheckpoint (rows : Checkpoints) (contractId : String) (lastProcessedLedger : ℤ) :
    Checkpoints :=
  rows.set contractId (some ⟨lastProcessedLedger, none⟩)

/-- How a write to the database ends. -/
inductive WriteOutcome where
  | done
  /-- It fails and changes nothing. -/
  | refused
  /-- It is stored, but its answer is lost. -/
  | unanswered
  deriving DecidableEq

/-- What one visit of a tick meets: the contract, the node's answers, which
events fail to be processed and how the writes end. -/
structure Visit (V : Type*) where
  contractId : String
  moduleName : String
  latestLedger : Except String ℕ
  scValToNative : V → Option Js
  getEvents : EventRequest → Except String (EventPage V)
  processingFails : EventRecord V → Bool
  noteFails : Bool
  write : WriteOutcome

/-- A poll as it went: the checkpoint it read, the node's tip, whether it
rewound, and the ledger that was stored afterwards. -/
structure Poll where
  contractId : String
  checkpoint : Checkpoint
  tip : ℕ
  rewound : Bool
  stored : ℤ

/-- The stored checkpoints and the polls so far. -/
structure IndexerState where
  rows : Checkpoints
  polls : List Poll

section

variable {V : Type*} (env : WorkerEnv)

/-- The checkpoints after a batch was processed, if the write is stored. -/
def moveCheckpoint (visit : Visit V) (batch : EventBatch V) (rows : Checkpoints) : Checkpoints :=
  if visit.write = .refused then rows
  else if batch.resetCheckpoint then
    resetCheckpoint rows visit.contractId batch.checkpointLedger
  else advanceCheckpoint rows visit.contractId batch.checkpointLedger batch.cursor

/-- Visit one contract; the flag tells whether the tick goes on. -/
def visitDeployment (visit : Visit V) (s : IndexerState) : IndexerState × Bool :=
  let checkpoint := getCheckpoint s.rows visit.contractId
  match visit.latestLedger with
  | .error _ => (s, false)
  | .ok tip =>
    match pollContract env.source visit.scValToNative visit.getEvents visit.contractId
        visit.moduleName checkpoint tip env.startLedger with
    | .error _ => (s, false)
    | .ok batch =>
      let processingSucceeded := !batch.events.any visit.processingFails
      let moves := batch.complete && processingSucceeded
      let rows := if moves then moveCheckpoint visit batch s.rows else s.rows
      let poll : Poll :=
        { contractId := visit.contractId
          checkpoint
          tip
          rewound := batch.resetCheckpoint
          stored := (getCheckpoint rows visit.contractId).lastProcessedLedger }
      let goesOn := if moves then visit.write = .done else processingSucceeded || !visit.noteFails
      ({ rows, polls := s.polls ++ [poll] }, goesOn)

/-- Visit contracts until a visit ends the tick. -/
def visitDeployments : List (Visit V) → IndexerState → IndexerState
  | [], s => s
  | visit :: visits, s =>
    match visitDeployment env visit s with
    | (s', true) => visitDeployments visits s'
    | (s', false) => s'

/-- One tick: nothing happens without the lease. -/
structure Tick (V : Type*) where
  leaseAcquired : Bool
  visits : List (Visit V)

/-- Ticks of a worker from given checkpoints. -/
def indexerSystem (V : Type*) (rows : Checkpoints) : System IndexerState (Tick V) Empty where
  Init := fun s => s = ⟨rows, []⟩
  step := fun s tick =>
    .ok (if tick.leaseAcquired then visitDeployments env tick.visits s else s)

end

/-- A poll that finds its first ledger closed already. -/
def Poll.FindsNewLedger (env : WorkerEnv) (poll : Poll) : Prop :=
  ∀ first, fromLedger poll.checkpoint env.startLedger = some first → first ≤ poll.tip

section Visits

variable {V : Type*} {env : WorkerEnv}

/-- A poll that returns either rewinds below the tip or ends a window at the tip or before it. -/
theorem pollContract_cases {source : EventSource} {scValToNative : V → Option Js}
    {getEvents : EventRequest → Except String (EventPage V)} {contractId moduleName : String}
    {checkpoint : Checkpoint} {latestLedger : ℤ} {startLedger : Option ℤ} {batch : EventBatch V}
    (h : pollContract source scValToNative getEvents contractId moduleName checkpoint latestLedger
      startLedger = .ok batch) :
    ∃ first, fromLedger checkpoint startLedger = some first ∧
      ((latestLedger < first ∧ batch.resetCheckpoint = true ∧
          batch.checkpointLedger = max 0 (latestLedger - source.reorgSafetyMarginLedgers)) ∨
        (first ≤ latestLedger ∧ batch.resetCheckpoint = false ∧
          batch.checkpointLedger = endLedger source first latestLedger)) := by
  unfold pollContract at h
  split at h
  · cases h
  · next first hfirst =>
    refine ⟨first, hfirst, ?_⟩
    split at h
    · next hahead =>
      obtain rfl := pure_ok.mp h
      exact Or.inl ⟨hahead, rfl, rfl⟩
    · next hwithin =>
      obtain ⟨paging, _, h⟩ := bind_ok.mp h
      obtain rfl := pure_ok.mp h
      exact Or.inr ⟨by omega, rfl, rfl⟩

/-- The rows of other contracts are not written. -/
theorem moveCheckpoint_other (visit : Visit V) (batch : EventBatch V) (rows : Checkpoints)
    {contractId : String} (h : contractId ≠ visit.contractId) :
    moveCheckpoint visit batch rows contractId = rows contractId := by
  unfold moveCheckpoint
  split
  · rfl
  · split
    · exact Store.set_get_of_ne _ _ h
    · unfold advanceCheckpoint
      split <;> exact Store.set_get_of_ne _ _ h

/-- What moving a checkpoint stores: the old ledger, a rewound one, or the
later of the old one and the window's end. -/
theorem moveCheckpoint_stored (visit : Visit V) (batch : EventBatch V) (rows : Checkpoints) :
    let before := getCheckpoint rows visit.contractId
    let stored := (getCheckpoint (moveCheckpoint visit batch rows)
      visit.contractId).lastProcessedLedger
    stored = before.lastProcessedLedger ∨
      (batch.resetCheckpoint = true ∧ stored = batch.checkpointLedger) ∨
      (batch.resetCheckpoint = false ∧ (stored = batch.checkpointLedger ∧
          before.lastProcessedLedger = 0 ∨
        stored = max before.lastProcessedLedger batch.checkpointLedger)) := by
  dsimp only
  unfold moveCheckpoint
  split
  · exact Or.inl rfl
  · right
    split
    · next hreset =>
      refine Or.inl ⟨hreset, ?_⟩
      unfold getCheckpoint resetCheckpoint
      rw [Store.set_get_self]
      rfl
    · next hreset =>
      refine Or.inr ⟨eq_false_of_ne_true hreset, ?_⟩
      unfold getCheckpoint advanceCheckpoint
      split
      · next hrow =>
        rw [Store.set_get_self, hrow]
        exact Or.inl ⟨rfl, rfl⟩
      · next row hrow =>
        rw [Store.set_get_self, hrow]
        exact Or.inr rfl

/-- What one visit can do: nothing, or a poll that it adds to the record. A poll
rewinds exactly when it finds no new ledger, any other keeps or raises the
checkpoint, and none takes it beyond the tip. -/
theorem visitDeployment_cases (visit : Visit V) (s : IndexerState) :
    (visitDeployment env visit s).1 = s ∨
    ∃ (rows : Checkpoints) (poll : Poll),
      (visitDeployment env visit s).1 = ⟨rows, s.polls ++ [poll]⟩ ∧
      poll.contractId = visit.contractId ∧
      poll.checkpoint = getCheckpoint s.rows visit.contractId ∧
      poll.stored = (getCheckpoint rows visit.contractId).lastProcessedLedger ∧
      (∀ contractId, contractId ≠ visit.contractId → rows contractId = s.rows contractId) ∧
      (poll.rewound = true ↔ ¬poll.FindsNewLedger env) ∧
      (poll.rewound = false → poll.checkpoint.lastProcessedLedger ≤ poll.stored) ∧
      poll.stored ≤ max poll.checkpoint.lastProcessedLedger poll.tip := by
  unfold visitDeployment
  dsimp only
  split
  · exact Or.inl rfl
  · next tip htip =>
    split
    · exact Or.inl rfl
    · next batch hbatch =>
      right
      have hwindow := env.window_pos
      have hmargin := env.margin_nonneg
      obtain ⟨first, hfirst, hcases⟩ := pollContract_cases hbatch
      refine ⟨_, _, rfl, rfl, rfl, rfl, ?_, ?_, ?_, ?_⟩
      · intro contractId hne
        split
        · exact moveCheckpoint_other visit batch s.rows hne
        · rfl
      · unfold Poll.FindsNewLedger
        dsimp only
        rw [hfirst]
        obtain ⟨hahead, hreset, _⟩ | ⟨hwithin, hreset, _⟩ := hcases
        · rw [hreset]
          refine ⟨fun _ hfinds => ?_, fun _ => rfl⟩
          have hle := hfinds first rfl
          omega
        · rw [hreset]
          refine ⟨fun hrewound => absurd hrewound Bool.false_ne_true, fun hnone => absurd ?_ hnone⟩
          intro first' heq
          obtain rfl := Option.some.inj heq
          exact hwithin
      · intro hkept
        dsimp only at hkept ⊢
        split
        · obtain ⟨_, hreset, _⟩ | ⟨hwithin, _, hend⟩ := hcases
          · rw [hreset] at hkept
            cases hkept
          · obtain hsame | ⟨hreset, _⟩ | ⟨_, ⟨hnew, hzero⟩ | hmax⟩ :=
              moveCheckpoint_stored visit batch s.rows
            · exact hsame.ge
            · rw [hreset] at hkept
              cases hkept
            · -- a first row: the window starts at the start ledger or later
              have hstart : 0 < first := by
                unfold fromLedger at hfirst
                rw [hzero, if_neg (lt_irrefl 0)] at hfirst
                exact env.start_pos first hfirst
              rw [hnew, hzero, hend]
              unfold endLedger
              omega
            · rw [hmax]
              exact le_max_left _ _
        · exact le_rfl
      · dsimp only
        split
        · obtain hsame | ⟨hreset, hnew⟩ | ⟨hkept, hnew⟩ :=
            moveCheckpoint_stored visit batch s.rows
          · rw [hsame]
            exact le_max_left _ _
          · obtain ⟨_, _, hback⟩ | ⟨_, hkept, _⟩ := hcases
            · rw [hnew, hback]
              omega
            · rw [hkept] at hreset
              cases hreset
          · obtain ⟨_, hreset, _⟩ | ⟨_, _, hend⟩ := hcases
            · rw [hreset] at hkept
              cases hkept
            · have hle : batch.checkpointLedger ≤ tip := by
                rw [hend]
                exact min_le_right _ _
              obtain ⟨hnew, _⟩ | hnew := hnew
              · rw [hnew]
                exact hle.trans (le_max_right _ _)
              · rw [hnew]
                exact max_le_max le_rfl hle
        · exact le_max_left _ _

end Visits

section Runs

variable {V : Type*} {env : WorkerEnv}

/-- What every visit keeps, a tick keeps. -/
theorem visitDeployments_keep {I : IndexerState → Prop}
    (hvisit : ∀ (visit : Visit V) s, I s → I (visitDeployment env visit s).1)
    (visits : List (Visit V)) {s : IndexerState} (hs : I s) :
    I (visitDeployments env visits s) := by
  induction visits generalizing s with
  | nil => exact hs
  | cons visit visits ih =>
    have hnext := hvisit visit s hs
    unfold visitDeployments
    split
    · next s' hvisited =>
      rw [hvisited] at hnext
      exact ih hnext
    · next s' hvisited =>
      rw [hvisited] at hnext
      exact hnext

/-- What holds at the start and every visit keeps holds after any ticks. -/
theorem indexer_invariant {rows : Checkpoints} {I : IndexerState → Prop} (hinit : I ⟨rows, []⟩)
    (hvisit : ∀ (visit : Visit V) s, I s → I (visitDeployment env visit s).1) {s : IndexerState}
    (h : (indexerSystem env V rows).Reachable s) : I s := by
  refine h.invariant ?_ ?_
  · rintro s rfl
    exact hinit
  · intro s tick s' hs _ hstep
    obtain rfl := ok_ok.mp hstep
    split
    · exact visitDeployments_keep hvisit tick.visits hs
    · exact hs

/-- The polls of one contract. -/
def pollsOf (contractId : String) (polls : List Poll) : List Poll :=
  polls.filter (fun poll => poll.contractId = contractId)

/-- The successive ledgers stored for a contract, from its first one on. -/
def storedLedgers (start : ℤ) (contractId : String) (polls : List Poll) : List ℤ :=
  start :: (pollsOf contractId polls).map Poll.stored

/-- The node's tips never fall, from a first one on. -/
def TipsRise (tip : ℕ) (polls : List Poll) : Prop :=
  (tip :: polls.map Poll.tip).Pairwise (· ≤ ·)

/-- The stored ledger of a contract never falls, and rewinds happen only when it
is ahead of the tip. -/
structure Healthy (start : ℤ) (contractId : String) (polls : List Poll) : Prop where
  neverFalls : (storedLedgers start contractId polls).Pairwise (· ≤ ·)
  rewindsAhead : ∀ poll ∈ pollsOf contractId polls, poll.rewound = true →
    poll.tip < poll.checkpoint.lastProcessedLedger

/-- What a run knows of one contract: its polls rewind exactly without a new
ledger; the stored ledger is the last of the record, it never fell if no poll
rewound, and it stays within the tip while tips rise. -/
structure Followed (env : WorkerEnv) (start : ℤ) (tip : ℕ) (contractId : String)
    (s : IndexerState) : Prop where
  rewinds : ∀ poll ∈ pollsOf contractId s.polls,
    (poll.rewound = true ↔ ¬poll.FindsNewLedger env)
  rises : (∀ poll ∈ pollsOf contractId s.polls, poll.rewound = false) →
    (storedLedgers start contractId s.polls).Pairwise (· ≤ ·) ∧
      ∀ x ∈ storedLedgers start contractId s.polls,
        x ≤ (getCheckpoint s.rows contractId).lastProcessedLedger
  bounded : TipsRise tip s.polls →
    (∀ poll ∈ pollsOf contractId s.polls, poll.checkpoint.lastProcessedLedger ≤ poll.tip) ∧
      ∀ t, (∀ t' ∈ tip :: s.polls.map Poll.tip, t' ≤ t) →
        (getCheckpoint s.rows contractId).lastProcessedLedger ≤ t

/-- One more poll belongs to its own contract only. -/
theorem pollsOf_append (contractId : String) (polls : List Poll) (poll : Poll) :
    pollsOf contractId (polls ++ [poll]) =
      if poll.contractId = contractId then pollsOf contractId polls ++ [poll]
      else pollsOf contractId polls := by
  unfold pollsOf
  rw [List.filter_append]
  split
  · next heq => rw [List.filter_singleton, decide_eq_true heq, Bool.cond_true]
  · next hne => rw [List.filter_singleton, decide_eq_false hne, Bool.cond_false, List.append_nil]

/-- Tips that rise rose before, up to the last. -/
theorem TipsRise.before {tip : ℕ} {polls : List Poll} {poll : Poll}
    (h : TipsRise tip (polls ++ [poll])) :
    TipsRise tip polls ∧ ∀ t ∈ tip :: polls.map Poll.tip, t ≤ poll.tip := by
  unfold TipsRise at h
  rw [List.map_append, ← List.cons_append, List.pairwise_append] at h
  exact ⟨h.1, fun t ht => h.2.2 t ht _ List.mem_cons_self⟩

/-- A visit keeps all of it. -/
theorem Followed.visit {start : ℤ} {tip : ℕ} {contractId : String} (visit : Visit V)
    {s : IndexerState} (hs : Followed env start tip contractId s) :
    Followed env start tip contractId (visitDeployment env visit s).1 := by
  obtain hnone | ⟨rows, poll, hresult, hid, hcheck, hstored, hother, hrewound, hraises, hle⟩ :=
    @visitDeployment_cases V env visit s
  · rw [hnone]
    exact hs
  · rw [hresult]
    by_cases hc : poll.contractId = contractId
    · -- a poll of this contract: the record gains what it stored
      have hpolls : pollsOf contractId (s.polls ++ [poll]) = pollsOf contractId s.polls ++ [poll] :=
        (pollsOf_append _ _ _).trans (if_pos hc)
      rw [← hid, hc] at hcheck hstored
      refine ⟨?_, ?_, ?_⟩
      · intro p hp
        dsimp only at hp
        rw [hpolls] at hp
        rcases List.mem_append.mp hp with hp | hp
        · exact hs.rewinds p hp
        · obtain rfl := List.mem_singleton.mp hp
          exact hrewound
      · intro hnever
        dsimp only at hnever ⊢
        rw [hpolls] at hnever
        obtain ⟨hrises, hlast⟩ := hs.rises (fun p hp => hnever p (List.mem_append_left _ hp))
        have hup := hraises (hnever poll (List.mem_append_right _ List.mem_cons_self))
        rw [hcheck] at hup
        have hrecord : storedLedgers start contractId (s.polls ++ [poll]) =
            storedLedgers start contractId s.polls ++ [poll.stored] := by
          unfold storedLedgers
          rw [hpolls, List.map_append, List.cons_append, List.map_singleton]
        rw [hrecord, ← hstored]
        refine ⟨List.pairwise_append.mpr ⟨hrises, List.pairwise_singleton _ _, ?_⟩, ?_⟩
        · intro x hx y hy
          rw [List.mem_singleton.mp hy]
          exact (hlast x hx).trans hup
        · intro x hx
          rcases List.mem_append.mp hx with hx | hx
          · exact (hlast x hx).trans hup
          · exact (List.mem_singleton.mp hx).le
      · intro htips
        obtain ⟨hbefore, hlatest⟩ := htips.before
        obtain ⟨hwithin, hbound⟩ := hs.bounded hbefore
        have hcurrent := hbound poll.tip hlatest
        rw [← hcheck] at hcurrent
        dsimp only
        rw [hpolls, ← hstored]
        refine ⟨?_, ?_⟩
        · intro p hp
          rcases List.mem_append.mp hp with hp | hp
          · exact hwithin p hp
          · obtain rfl := List.mem_singleton.mp hp
            exact hcurrent
        · intro t ht
          have hlast : poll.tip ≤ t := ht _ (by simp)
          rw [max_eq_right hcurrent] at hle
          exact hle.trans (by exact_mod_cast hlast)
    · -- a poll of another contract
      have hpolls : pollsOf contractId (s.polls ++ [poll]) = pollsOf contractId s.polls :=
        (pollsOf_append _ _ _).trans (if_neg hc)
      have hrow : getCheckpoint rows contractId = getCheckpoint s.rows contractId := by
        unfold getCheckpoint
        rw [hother contractId (fun heq => hc (hid.trans heq.symm))]
      refine ⟨?_, ?_, ?_⟩
      · dsimp only
        rw [hpolls]
        exact hs.rewinds
      · unfold storedLedgers
        dsimp only
        rw [hpolls, hrow]
        exact hs.rises
      · intro htips
        obtain ⟨hwithin, hbound⟩ := hs.bounded htips.before.1
        dsimp only
        rw [hpolls, hrow]
        exact ⟨hwithin, fun t ht => hbound t (fun t' ht' => ht t' (by
          rw [List.map_append, ← List.cons_append]
          exact List.mem_append_left _ ht'))⟩

/-- In every run of ticks on a node whose tip never falls, started with a checkpoint at most at
the tip: the stored ledger never falls and rewinds only when it is ahead, if and only if every
poll of the contract finds a new ledger. -/
theorem checkpoint_healthy_iff (rows : Checkpoints) (contractId : String) (tip : ℕ)
    (hstart : (getCheckpoint rows contractId).lastProcessedLedger ≤ tip) {s : IndexerState}
    (hrun : (indexerSystem env V rows).Reachable s) (htips : TipsRise tip s.polls) :
    Healthy (getCheckpoint rows contractId).lastProcessedLedger contractId s.polls ↔
      ∀ poll ∈ pollsOf contractId s.polls, poll.FindsNewLedger env := by
  have hfollowed : Followed env (getCheckpoint rows contractId).lastProcessedLedger tip contractId
      s := by
    refine @indexer_invariant V env _ _ ?_ (fun visit s hs => hs.visit visit) _ hrun
    refine ⟨fun poll hpoll => absurd hpoll List.not_mem_nil, fun _ => ⟨?_, ?_⟩, fun _ => ⟨?_, ?_⟩⟩
    · exact List.pairwise_singleton _ _
    · exact fun x hx => (List.mem_singleton.mp hx).le
    · exact fun poll hpoll => absurd hpoll List.not_mem_nil
    · exact fun t ht => hstart.trans (by exact_mod_cast ht tip List.mem_cons_self)
  constructor
  · intro hhealthy poll hpoll
    by_contra hnone
    have hahead := hhealthy.rewindsAhead poll hpoll ((hfollowed.rewinds poll hpoll).mpr hnone)
    have hwithin := (hfollowed.bounded htips).1 poll hpoll
    omega
  · intro hfinds
    have hnever : ∀ poll ∈ pollsOf contractId s.polls, poll.rewound = false := by
      intro poll hpoll
      rw [← Bool.not_eq_true, hfollowed.rewinds poll hpoll]
      exact not_not.mpr (hfinds poll hpoll)
    refine ⟨(hfollowed.rises hnever).1, fun poll hpoll hrewound => ?_⟩
    rw [hnever poll hpoll] at hrewound
    cases hrewound

end Runs

section Sample

/-- The sample source with start ledger 1. -/
def sampleEnv : WorkerEnv where
  source := sampleSource
  startLedger := some 1
  window_pos := by decide
  margin_nonneg := by decide
  start_pos := by
    intro first h
    obtain rfl := Option.some.inj h
    decide

/-- A visit of one contract where nothing goes wrong. -/
def calmVisit (history : List (RawEvent Unit)) (tip : ℕ) : Visit Unit where
  contractId := "C"
  moduleName := "amm"
  latestLedger := .ok tip
  scValToNative := fun _ => none
  getEvents := nodeOf history
  processingFails := fun _ => false
  noteFails := false
  write := .done

/-- Everything up to ledger 50 is processed. -/
def processedTo50 : Checkpoints := Store.empty.set "C" (some ⟨50, none⟩)

/-- The state after one tick that visits the contract once. -/
def afterTick (visit : Visit Unit) : IndexerState :=
  visitDeployments sampleEnv [visit] ⟨processedTo50, []⟩

theorem afterTick_reachable (visit : Visit Unit) :
    (indexerSystem sampleEnv Unit processedTo50).Reachable (afterTick visit) :=
  .next (.init rfl) trivial
    (show (indexerSystem sampleEnv Unit processedTo50).step _ ⟨true, [visit]⟩ = _ from rfl)

/-- A tick that finds ledger 51 closed. -/
theorem checkpoint_healthy_sample :
    Healthy 50 "C" (afterTick (calmVisit [bareEvent 51] 51)).polls ↔
      ∀ poll ∈ pollsOf "C" (afterTick (calmVisit [bareEvent 51] 51)).polls,
        poll.FindsNewLedger sampleEnv :=
  checkpoint_healthy_iff processedTo50 "C" 50 (by decide) (afterTick_reachable _)
    (show List.Pairwise (· ≤ ·) [50, 51] by decide)

/-- A tick before the next ledger closes takes a checkpoint at the tip back by the safety margin. -/
theorem not_always_healthy : ¬∀ (env : WorkerEnv) (rows : Checkpoints) (contractId : String)
    (tip : ℕ) (s : IndexerState), (getCheckpoint rows contractId).lastProcessedLedger ≤ tip →
    (indexerSystem env Unit rows).Reachable s → TipsRise tip s.polls →
    Healthy (getCheckpoint rows contractId).lastProcessedLedger contractId s.polls := by
  intro hall
  have hhealthy := hall sampleEnv processedTo50 "C" 50 (afterTick (calmVisit [] 50)) (by decide)
    (afterTick_reachable _) (show List.Pairwise (· ≤ ·) [50, 50] by decide)
  have hfalls := hhealthy.neverFalls
  change List.Pairwise (· ≤ ·) [(50 : ℤ), 40] at hfalls
  revert hfalls
  decide

end Sample

end DikeProtocol.Services.Indexer
