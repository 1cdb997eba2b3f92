import DikeProtocol.Services.Codecs
import Mathlib.Data.List.TakeDrop

/-!
# Polling one contract's events

A poll fetches a window of ledgers page by page. The first request carries the
window, later ones only a cursor, so they may return events beyond it.
-/

namespace DikeProtocol.Services.Indexer

/-- A request for one page of a contract's events. -/
inductive EventRequest where
  /-- From one ledger to another, both included. -/
  | window (contractId : String) (startLedger endLedger : ℤ) (limit : ℕ)
  /-- Whatever follows a cursor. -/
  | cursor (contractId : String) (cursor : String) (limit : ℕ)

/-- One page of events. -/
structure EventPage (V : Type*) where
  events : List (RawEvent V)
  cursor : Option String

/-- An event as it is recorded. -/
structure EventRecord (V : Type*) where
  network : String
  contractId : String
  ledger : ℤ
  txHash : String
  eventId : String
  topic : String
  topicValues : List Js
  payload : Js
  rawEvent : RawEvent V
  cursor : Option String

/-- How far a contract's events are processed. -/
structure Checkpoint where
  lastProcessedLedger : ℤ
  lastProcessedCursor : Option String

/-- What a poll hands to the worker. -/
structure EventBatch (V : Type*) where
  events : List (EventRecord V)
  checkpointLedger : ℤ
  cursor : Option String
  complete : Bool
  resetCheckpoint : Bool

/-- The settings of an event source. -/
structure EventSource where
  network : String
  ledgerWindow : ℤ
  reorgSafetyMarginLedgers : ℤ

/-- Events asked for in one request. -/
def eventLimit : ℕ := 100

/-- Requests made in one poll at most. -/
def pageLimit : ℕ := 100

/-- What the loop over the pages carries along. -/
structure Paging (V : Type*) where
  events : List (EventRecord V)
  cursor : Option String
  exhaustedPageLimit : Bool
  complete : Bool
  overflowedWindow : Bool

section

variable {V : Type*} (source : EventSource) (scValToNative : V → Option Js)
  (getEvents : EventRequest → Except String (EventPage V)) (contractId : String)

/-- The record of one event of a page. -/
def recordEvent (cursor : Option String) (event : RawEvent V) : EventRecord V :=
  let decoded := decodeRawEvent scValToNative event
  { network := source.network
    contractId
    ledger := event.ledger
    txHash := event.txHash
    eventId := event.id
    topic := decoded.topic
    topicValues := decoded.topicValues
    payload := decoded.payload
    rawEvent := event
    cursor }

/-- What a page adds: its events within the window are recorded, the others
are only noted. `rest` is the number of pages that may follow it. -/
def readPage (endLedger : ℤ) (rest : ℕ) (paging : Paging V) (page : EventPage V) : Paging V :=
  { events := paging.events ++ (page.events.filter (fun event => event.ledger ≤ endLedger)).map
      (recordEvent source scValToNative contractId page.cursor)
    cursor := page.cursor
    exhaustedPageLimit := rest = 0
    complete := paging.complete
    overflowedWindow := paging.overflowedWindow ||
      page.events.any (fun event => endLedger < event.ledger) }

/-- Fetch pages until one is short, has no cursor or goes beyond the window. -/
def fetchPages (endLedger : ℤ) : ℕ → EventRequest → Paging V → Except String (Paging V)
  | 0, _, paging => .ok paging
  | rest + 1, request, paging => do
    let page ← getEvents request
    let paging := readPage source scValToNative contractId endLedger rest paging page
    if page.events.length < eventLimit then
      return paging
    match page.cursor with
    | none => return { paging with complete := false }
    | some cursor =>
      if cursor = "" then
        return { paging with complete := false }
      if paging.overflowedWindow then
        return { paging with complete := false }
      fetchPages endLedger rest (.cursor contractId cursor eventLimit) paging

/-- The first ledger a poll asks for. -/
def fromLedger (checkpoint : Checkpoint) (startLedger : Option ℤ) : Option ℤ :=
  if 0 < checkpoint.lastProcessedLedger then some (checkpoint.lastProcessedLedger + 1)
  else startLedger

/-- The last ledger of a poll's window. -/
def endLedger (first latestLedger : ℤ) : ℤ := min (first + source.ledgerWindow - 1) latestLedger

/-- Poll one contract: rewind a checkpoint that looks ahead of the node, else
fetch the next window of ledgers. -/
def pollContract (moduleName : String) (checkpoint : Checkpoint) (latestLedger : ℤ)
    (startLedger : Option ℤ) : Except String (EventBatch V) :=
  match fromLedger checkpoint startLedger with
  | none => .error ("Missing INDEXER_START_LEDGER for initial " ++ moduleName ++
      " indexing. Set it to a retained deployment ledger before starting with an empty checkpoint.")
  | some first => do
    if latestLedger < first then
      return {
        events := []
        checkpointLedger := max 0 (latestLedger - source.reorgSafetyMarginLedgers)
        cursor := checkpoint.lastProcessedCursor
        complete := true
        resetCheckpoint := true }
    let last := endLedger source first latestLedger
    let paging ← fetchPages source scValToNative getEvents contractId last pageLimit
      (.window contractId first last eventLimit)
      { events := [], cursor := none, exhaustedPageLimit := true, complete := true,
        overflowedWindow := false }
    return {
      events := paging.events
      checkpointLedger := last
      cursor := paging.cursor
      complete := paging.complete && !paging.exhaustedPageLimit
      resetCheckpoint := false }

end

/-- In ascending order, what is within a bound comes before what is beyond it. -/
theorem ascending_split {α : Type*} (f : α → ℤ) (bound : ℤ) {xs : List α}
    (h : xs.Pairwise (fun a b => f a ≤ f b)) :
    xs.filter (fun a => f a ≤ bound) ++ xs.filter (fun a => bound < f a) = xs := by
  induction xs with
  | nil => rfl
  | cons a xs ih =>
    obtain ⟨ha, hxs⟩ := List.pairwise_cons.mp h
    by_cases hle : f a ≤ bound
    · rw [List.filter_cons_of_pos (by simpa using hle),
        List.filter_cons_of_neg (by simpa using hle), List.cons_append, ih hxs]
    · have hnone : xs.filter (fun b => f b ≤ bound) = [] := by
        rw [List.filter_eq_nil_iff]
        intro b hb
        have hab := ha b hb
        rw [decide_eq_true_eq]
        omega
      have hrest := ih hxs
      rw [hnone, List.nil_append] at hrest
      rw [List.filter_cons_of_neg (by simpa using hle), hnone, List.nil_append,
        List.filter_cons_of_pos (by simpa using hle), hrest]

/-- The events of a history from one ledger on. -/
def eventsFrom {V : Type*} (history : List (RawEvent V)) (first : ℤ) : List (RawEvent V) :=
  history.filter (fun event => first ≤ event.ledger)

/-- The events of a history within a window of ledgers. -/
def windowEvents {V : Type*} (history : List (RawEvent V)) (first last : ℤ) :
    List (RawEvent V) :=
  (eventsFrom history first).filter (fun event => event.ledger ≤ last)

/-- How a node serves the events of one contract: in ascending order, at most
`limit` in one page, where the cursor of a full page stands right after its
last event and has no end of its own. -/
structure Serves {V : Type*} (getEvents : EventRequest → Except String (EventPage V))
    (contractId : String) (history : List (RawEvent V)) (position : String → ℕ) : Prop where
  ascending : history.Pairwise (fun a b => a.ledger ≤ b.ledger)
  window : ∀ first last limit, ∃ cursor, getEvents (.window contractId first last limit) =
      .ok ⟨(windowEvents history first last).take limit, cursor⟩ ∧
    (limit ≤ (windowEvents history first last).length → ∃ c, cursor = some c ∧ c ≠ "" ∧
      position c = (history.filter (fun event => event.ledger < first)).length + limit)
  resume : ∀ c limit, ∃ cursor, getEvents (.cursor contractId c limit) =
      .ok ⟨(history.drop (position c)).take limit, cursor⟩ ∧
    (position c + limit ≤ history.length → ∃ c', cursor = some c' ∧ c' ≠ "" ∧
      position c' = position c + limit)

section Pages

variable {V : Type*} (source : EventSource) (scValToNative : V → Option Js)
  {getEvents : EventRequest → Except String (EventPage V)} {contractId : String}
  {history : List (RawEvent V)} {position : String → ℕ} {first last : ℤ}

/-- Recording an event keeps the event itself. -/
theorem recordEvent_rawEvent (cursor : Option String) (events : List (RawEvent V)) :
    (events.map (recordEvent source scValToNative contractId cursor)).map
      EventRecord.rawEvent = events := by
  rw [List.map_map]
  exact List.map_id events

/-- The window's events come first among the events from its start on. -/
theorem Serves.split (h : Serves getEvents contractId history position) (first last : ℤ) :
    windowEvents history first last ++
      (eventsFrom history first).filter (fun event => last < event.ledger) =
        eventsFrom history first :=
  ascending_split RawEvent.ledger last (h.ascending.sublist List.filter_sublist)

/-- The events before a ledger come first. -/
theorem Serves.before (h : Serves getEvents contractId history position) (first : ℤ) :
    history.filter (fun event => event.ledger < first) ++ eventsFrom history first = history := by
  have hsplit := ascending_split RawEvent.ledger (first - 1) h.ascending
  have hbefore : history.filter (fun event => event.ledger ≤ first - 1) =
      history.filter (fun event => event.ledger < first) := by
    congr 1
    funext event
    rw [decide_eq_decide]
    omega
  have hafter : history.filter (fun event => first - 1 < event.ledger) =
      eventsFrom history first := by
    unfold eventsFrom
    congr 1
    funext event
    rw [decide_eq_decide]
    omega
  rw [hbefore, hafter] at hsplit
  exact hsplit

/-- A position past the window's start is one in the events from there on. -/
theorem Serves.drop (h : Serves getEvents contractId history position) (first : ℤ) (n : ℕ) :
    history.drop ((history.filter (fun event => event.ledger < first)).length + n) =
      (eventsFrom history first).drop n := by
  have hdrop := @List.drop_left _ (history.filter (fun event => event.ledger < first))
    (eventsFrom history first)
  rw [h.before first] at hdrop
  rw [← List.drop_drop, hdrop]

/-- What a page of unbounded events adds that starts within the window. -/
theorem readPage_spec (h : Serves getEvents contractId history position) {n : ℕ}
    (hn : n ≤ (windowEvents history first last).length) (rest : ℕ) (paging : Paging V)
    (cursor : Option String)
    (hread : paging.events.map EventRecord.rawEvent = (windowEvents history first last).take n)
    (hwithin : paging.overflowedWindow = false) :
    let read := readPage source scValToNative contractId last rest paging
      ⟨((eventsFrom history first).drop n).take eventLimit, cursor⟩
    read.events.map EventRecord.rawEvent =
        (windowEvents history first last).take (n + eventLimit) ∧
      (read.overflowedWindow = true ↔ (windowEvents history first last).length < n + eventLimit ∧
        (windowEvents history first last).length < (eventsFrom history first).length) := by
  have hsplit := h.split first last
  set inside := windowEvents history first last with hinside
  set beyond := (eventsFrom history first).filter (fun event => last < event.ledger) with hbeyond
  have hlength : (eventsFrom history first).length = inside.length + beyond.length := by
    rw [← hsplit, List.length_append]
  have hpage : ((eventsFrom history first).drop n).take eventLimit =
      (inside.drop n).take eventLimit ++ beyond.take (eventLimit - (inside.length - n)) := by
    rw [← hsplit, List.drop_append_of_le_length hn, List.take_append, List.length_drop]
  have hkept : ((inside.drop n).take eventLimit).filter (fun event => event.ledger ≤ last) =
      (inside.drop n).take eventLimit := by
    rw [List.filter_eq_self]
    intro event hevent
    exact (List.mem_filter.mp (List.mem_of_mem_drop (List.mem_of_mem_take hevent))).2
  have hlost : (beyond.take (eventLimit - (inside.length - n))).filter
      (fun event => event.ledger ≤ last) = [] := by
    rw [List.filter_eq_nil_iff]
    intro event hevent
    have hlater := of_decide_eq_true (List.mem_filter.mp (List.mem_of_mem_take hevent)).2
    rw [decide_eq_true_eq]
    omega
  constructor
  · dsimp only [readPage]
    rw [hpage, List.filter_append, hkept, hlost, List.append_nil, List.map_append,
      recordEvent_rawEvent, hread, List.take_add]
  · dsimp only [readPage]
    rw [hwithin, Bool.false_or, hpage, List.any_append, Bool.or_eq_true, List.any_eq_true,
      List.any_eq_true]
    constructor
    · rintro (⟨event, hevent, hlater⟩ | ⟨event, hevent, _⟩)
      · have hle := of_decide_eq_true (List.mem_filter.mp
          (List.mem_of_mem_drop (List.mem_of_mem_take hevent))).2
        have hlt := of_decide_eq_true hlater
        omega
      · have hpos := List.length_pos_of_mem hevent
        rw [List.length_take] at hpos
        omega
    · rintro ⟨hend, hmore⟩
      right
      have hpos : 0 < (beyond.take (eventLimit - (inside.length - n))).length := by
        rw [List.length_take]
        omega
      obtain ⟨event, hevent⟩ := List.exists_mem_of_length_pos hpos
      exact ⟨event, hevent, (List.mem_filter.mp (List.mem_of_mem_take hevent)).2⟩

/-- The loop over the pages after the window's first, from its page `k` on: it reads the
window's events as far as the page limit goes, and is complete when the page that holds the
last of them is short and not the last one allowed. -/
theorem fetchPages_resume (h : Serves getEvents contractId history position) (rest : ℕ) {k : ℕ}
    {c : String} {paging : Paging V}
    (hpos : position c = (history.filter (fun event => event.ledger < first)).length + 100 * k)
    (hk : 100 * k ≤ (windowEvents history first last).length)
    (hread : paging.events.map EventRecord.rawEvent =
      (windowEvents history first last).take (100 * k))
    (hwithin : paging.overflowedWindow = false) (hcomplete : paging.complete = true)
    (hlast : paging.exhaustedPageLimit = decide (rest = 0)) :
    ∃ result, fetchPages source scValToNative getEvents contractId last rest
        (.cursor contractId c eventLimit) paging = .ok result ∧
      result.events.map EventRecord.rawEvent =
        (windowEvents history first last).take (100 * (k + rest)) ∧
      ((result.complete && !result.exhaustedPageLimit) = true ↔
        (windowEvents history first last).length / 100 + 1 < k + rest ∧
          (eventsFrom history first).length <
            100 * ((windowEvents history first last).length / 100 + 1)) := by
  have hle : (windowEvents history first last).length ≤ (eventsFrom history first).length :=
    List.length_filter_le _ _
  have hhistory := congrArg List.length (h.before first)
  rw [List.length_append] at hhistory
  induction rest generalizing k c paging with
  | zero =>
    refine ⟨paging, rfl, ?_, ?_⟩
    · rw [hread, Nat.add_zero]
    · rw [hlast, hcomplete]
      simp only [decide_true, Bool.not_true, Bool.and_false, Bool.false_eq_true, false_iff]
      omega
  | succ rest ih =>
    obtain ⟨cursor, hget, hcursor⟩ := h.resume c eventLimit
    rw [hpos, h.drop first] at hget
    obtain ⟨hevents, hover⟩ := readPage_spec source scValToNative h hk rest paging cursor hread
      hwithin
    have hlength : (((eventsFrom history first).drop (100 * k)).take eventLimit).length =
        min 100 ((eventsFrom history first).length - 100 * k) := by
      rw [List.length_take, List.length_drop, eventLimit]
    have htake : ∀ m n : ℕ, (windowEvents history first last).length ≤ m →
        (windowEvents history first last).length ≤ n →
        (windowEvents history first last).take m = (windowEvents history first last).take n := by
      intro m n hm hn
      rw [List.take_of_length_le hm, List.take_of_length_le hn]
    unfold fetchPages
    rw [hget]
    dsimp only [bind, Except.bind]
    rw [hlength]
    unfold eventLimit at *
    split
    · -- a short page: everything from the window's start on is read
      next hshort =>
      refine ⟨_, rfl, hevents.trans (htake _ _ (by omega) (by omega)), ?_⟩
      dsimp only [readPage]
      rw [hcomplete, Bool.true_and, Bool.not_eq_true', decide_eq_false_iff_not]
      omega
    · next hfull =>
      obtain ⟨c', rfl, hne, hpos'⟩ := hcursor (by omega)
      dsimp only
      rw [if_neg hne]
      split
      · -- a full page beyond the window: the window's events are all read
        next hbeyond =>
        obtain ⟨hend, hmore⟩ := hover.mp hbeyond
        refine ⟨_, rfl, hevents.trans (htake _ _ (by omega) (by omega)), ?_⟩
        dsimp only
        rw [Bool.false_and]
        simp only [Bool.false_eq_true, false_iff]
        omega
      · -- a full page within the window
        next hinside =>
        have hnext : 100 * (k + 1) ≤ (windowEvents history first last).length := by
          by_contra hend
          exact hinside (hover.mpr ⟨by omega, by omega⟩)
        have hwithin' := eq_false_of_ne_true hinside
        obtain ⟨result, hresult, hall, hiff⟩ := ih (k := k + 1) (c := c') (by omega) hnext hevents
          hwithin' hcomplete rfl
        have hsum : k + 1 + rest = k + (rest + 1) := by omega
        rw [hsum] at hall hiff
        exact ⟨result, hresult, hall, hiff⟩

/-- A poll of a window: it reads the window's events as far as the page limit goes. It is
complete when they fit one page, or when the page after their last full one is short and
allowed to be the last. -/
theorem fetchPages_window (h : Serves getEvents contractId history position) (first last : ℤ) :
    ∃ result, fetchPages source scValToNative getEvents contractId last pageLimit
        (.window contractId first last eventLimit) ⟨[], none, true, true, false⟩ = .ok result ∧
      result.events.map EventRecord.rawEvent = (windowEvents history first last).take 10000 ∧
      ((result.complete && !result.exhaustedPageLimit) = true ↔
        (windowEvents history first last).length < 100 ∨
          ((windowEvents history first last).length / 100 + 1 < 100 ∧
            (eventsFrom history first).length <
              100 * ((windowEvents history first last).length / 100 + 1))) := by
  obtain ⟨cursor, hget, hcursor⟩ := h.window first last eventLimit
  have hkept : ((windowEvents history first last).take eventLimit).filter
      (fun event => event.ledger ≤ last) = (windowEvents history first last).take eventLimit := by
    rw [List.filter_eq_self]
    intro event hevent
    exact (List.mem_filter.mp (List.mem_of_mem_take hevent)).2
  have hinside : ((windowEvents history first last).take eventLimit).any
      (fun event => last < event.ledger) = false := by
    rw [List.any_eq_false]
    intro event hevent
    have hle := of_decide_eq_true (List.mem_filter.mp (List.mem_of_mem_take hevent)).2
    rw [decide_eq_true_eq]
    omega
  unfold pageLimit fetchPages
  rw [hget]
  dsimp only [bind, Except.bind]
  have hread : (readPage source scValToNative contractId last 99 ⟨[], none, true, true, false⟩
      ⟨(windowEvents history first last).take eventLimit, cursor⟩).events.map
        EventRecord.rawEvent = (windowEvents history first last).take 100 := by
    dsimp only [readPage]
    rw [hkept, List.nil_append, recordEvent_rawEvent, eventLimit]
  have hwithin : (readPage source scValToNative contractId last 99 ⟨[], none, true, true, false⟩
      ⟨(windowEvents history first last).take eventLimit, cursor⟩).overflowedWindow = false := by
    dsimp only [readPage]
    rw [hinside, Bool.or_false]
  rw [List.length_take]
  unfold eventLimit at *
  split
  · next hshort =>
    refine ⟨_, rfl, ?_, ?_⟩
    · rw [hread, List.take_of_length_le (by omega), List.take_of_length_le (by omega)]
    · have hfew : (windowEvents history first last).length < 100 := by omega
      exact ⟨fun _ => Or.inl hfew, fun _ => rfl⟩
  · next hfull =>
    obtain ⟨c, rfl, hne, hpos⟩ := hcursor (by omega)
    dsimp only
    rw [if_neg hne, if_neg (by rw [hwithin]; exact Bool.false_ne_true)]
    obtain ⟨result, hresult, hall, hiff⟩ := fetchPages_resume source
      scValToNative (k := 1) h 99 hpos (by omega) hread hwithin rfl rfl
    refine ⟨result, hresult, hall, hiff.trans ?_⟩
    omega

/-- The events of a batch are all the contract's events of its window, once each and in order. -/
def CoversWindow (history : List (RawEvent V)) (first last : ℤ) (batch : EventBatch V) : Prop :=
  batch.events.map EventRecord.rawEvent = windowEvents history first last

/-- A batch is reported complete exactly when it covers its window. -/
def ExactlyComplete (history : List (RawEvent V)) (first last : ℤ) (batch : EventBatch V) :
    Prop :=
  batch.complete = true ↔ CoversWindow history first last batch

/-- The page that ends a window's events is the first one, or a short one before the last page
allowed; or the window has more events than all pages together. -/
def EndsWithinPages (history : List (RawEvent V)) (first last : ℤ) : Prop :=
  (windowEvents history first last).length < 100 ∨
    ((windowEvents history first last).length / 100 + 1 < 100 ∧
      (eventsFrom history first).length <
        100 * ((windowEvents history first last).length / 100 + 1)) ∨
    10000 < (windowEvents history first last).length

variable {source scValToNative}

/-- A poll reports a window complete exactly when it has fetched all of the window's events, if
and only if the page that ends them is the first or a short one before the last. -/
theorem pollContract_exactlyComplete_iff (h : Serves getEvents contractId history position)
    (moduleName : String) (checkpoint : Checkpoint) (latestLedger : ℤ) (startLedger : Option ℤ)
    (hfirst : fromLedger checkpoint startLedger = some first) :
    ∃ batch, pollContract source scValToNative getEvents contractId moduleName checkpoint
        latestLedger startLedger = .ok batch ∧
      (ExactlyComplete history first (endLedger source first latestLedger) batch ↔
        EndsWithinPages history first (endLedger source first latestLedger)) := by
  unfold pollContract
  rw [hfirst]
  dsimp only
  split
  · -- the checkpoint looks ahead of the node: the window is empty
    next hahead =>
    have hnone : windowEvents history first (endLedger source first latestLedger) = [] := by
      unfold windowEvents eventsFrom
      rw [List.filter_eq_nil_iff]
      intro event hevent
      have hle := of_decide_eq_true (List.mem_filter.mp hevent).2
      rw [decide_eq_true_eq]
      unfold endLedger
      omega
    refine ⟨_, rfl, ?_⟩
    unfold ExactlyComplete CoversWindow EndsWithinPages
    rw [hnone]
    exact ⟨fun _ => Or.inl (Nat.zero_lt_succ 99), fun _ => ⟨fun _ => rfl, fun _ => rfl⟩⟩
  · obtain ⟨result, hresult, hall, hiff⟩ := fetchPages_window source scValToNative h first
      (endLedger source first latestLedger)
    rw [hresult]
    refine ⟨_, rfl, ?_⟩
    unfold ExactlyComplete CoversWindow EndsWithinPages
    dsimp only
    rw [hiff, hall, List.take_eq_self_iff]
    omega

end Pages

section Sample

/-- A cursor that spells its position out. -/
def cursorAt (n : ℕ) : String := String.ofList (List.replicate (n + 1) 'x')

/-- The position that such a cursor spells out. -/
def cursorPosition (cursor : String) : ℕ := cursor.length - 1

theorem cursorPosition_cursorAt (n : ℕ) : cursorPosition (cursorAt n) = n := by
  unfold cursorPosition cursorAt
  rw [String.length_ofList, List.length_replicate, Nat.add_sub_cancel]

theorem cursorAt_ne_empty (n : ℕ) : cursorAt n ≠ "" := by
  intro h
  have hlength := congrArg String.length h
  unfold cursorAt at hlength
  rw [String.length_ofList, List.length_replicate] at hlength
  cases hlength

/-- A node that serves the events of one history. -/
def nodeOf {V : Type*} (history : List (RawEvent V)) :
    EventRequest → Except String (EventPage V)
  | .window _ first last limit =>
    let events := (windowEvents history first last).take limit
    .ok ⟨events, some (cursorAt
      ((history.filter (fun event => event.ledger < first)).length + events.length))⟩
  | .cursor _ cursor limit =>
    let events := (history.drop (cursorPosition cursor)).take limit
    .ok ⟨events, some (cursorAt (cursorPosition cursor + events.length))⟩

/-- Such a node serves it as documented. -/
theorem nodeOf_serves {V : Type*} {history : List (RawEvent V)} (contractId : String)
    (h : history.Pairwise (fun a b => a.ledger ≤ b.ledger)) :
    Serves (nodeOf history) contractId history cursorPosition where
  ascending := h
  window := by
    intro first last limit
    refine ⟨_, rfl, fun hfull => ⟨_, rfl, cursorAt_ne_empty _, ?_⟩⟩
    rw [cursorPosition_cursorAt, List.length_take, Nat.min_eq_left hfull]
  resume := by
    intro c limit
    refine ⟨_, rfl, fun hfull => ⟨_, rfl, cursorAt_ne_empty _, ?_⟩⟩
    rw [cursorPosition_cursorAt, List.length_take, List.length_drop]
    omega

/-- An event without topics. -/
def bareEvent (ledger : ℤ) : RawEvent Unit := ⟨"", ledger, "", [], ()⟩

/-- A window of ten ledgers and a rewind by ten. -/
def sampleSource : EventSource := ⟨"testnet", 10, 10⟩

/-- Events of ledger 1, then events of ledger 20, which a window of ten ledgers leaves out. -/
def eventsAround (inside after : ℕ) : List (RawEvent Unit) :=
  List.replicate inside (bareEvent 1) ++ List.replicate after (bareEvent 20)

/-- A node serves them. -/
theorem eventsAround_serves (inside after : ℕ) :
    Serves (nodeOf (eventsAround inside after)) "C" (eventsAround inside after) cursorPosition := by
  apply nodeOf_serves
  unfold eventsAround
  rw [List.pairwise_append]
  refine ⟨List.pairwise_replicate.mpr (Or.inr (Int.le_refl _)),
    List.pairwise_replicate.mpr (Or.inr (Int.le_refl _)), ?_⟩
  intro a ha b hb
  rw [List.eq_of_mem_replicate ha, List.eq_of_mem_replicate hb]
  decide

/-- All of them come from ledger 1 on. -/
theorem eventsFrom_eventsAround (inside after : ℕ) :
    eventsFrom (eventsAround inside after) 1 = eventsAround inside after := by
  unfold eventsFrom eventsAround
  rw [List.filter_append, List.filter_replicate_of_pos (by decide),
    List.filter_replicate_of_pos (by decide)]

/-- Those of ledger 1 are within ten ledgers. -/
theorem windowEvents_eventsAround (inside after : ℕ) :
    windowEvents (eventsAround inside after) 1 10 = List.replicate inside (bareEvent 1) := by
  unfold windowEvents
  rw [eventsFrom_eventsAround]
  unfold eventsAround
  rw [List.filter_append, List.filter_replicate_of_pos (by decide),
    List.filter_replicate_of_neg (by decide), List.append_nil]

/-- How many events there are. -/
theorem length_eventsAround (inside after : ℕ) :
    (eventsAround inside after).length = inside + after := by
  unfold eventsAround
  rw [List.length_append, List.length_replicate, List.length_replicate]

/-- Two full pages of the window and a short one, which also has events beyond it: the window is
reported complete exactly if it is. -/
theorem pollContract_exactlyComplete_sample : ∃ batch,
    pollContract sampleSource (fun _ => none) (nodeOf (eventsAround 250 30)) "C" "amm" ⟨0, none⟩ 20
      (some 1) = .ok batch ∧
    (windowEvents (eventsAround 250 30) 1 10).length = 250 ∧
    ExactlyComplete (eventsAround 250 30) 1 10 batch := by
  have hpolled : ∃ batch, pollContract sampleSource (fun _ => none) (nodeOf (eventsAround 250 30))
      "C" "amm" ⟨0, none⟩ 20 (some 1) = .ok batch ∧
      (ExactlyComplete (eventsAround 250 30) 1 10 batch ↔
        EndsWithinPages (eventsAround 250 30) 1 10) :=
    pollContract_exactlyComplete_iff (eventsAround_serves 250 30) "amm" ⟨0, none⟩ 20 (some 1) rfl
  obtain ⟨batch, hpoll, hiff⟩ := hpolled
  have hlength : (windowEvents (eventsAround 250 30) 1 10).length = 250 := by
    rw [windowEvents_eventsAround, List.length_replicate]
  have hends : EndsWithinPages (eventsAround 250 30) 1 10 := by
    unfold EndsWithinPages
    rw [hlength, eventsFrom_eventsAround, length_eventsAround]
    omega
  exact ⟨batch, hpoll, hlength, hiff.mpr hends⟩

/-- All events of the window are fetched, yet the page after them is full and beyond the window,
so the window is reported incomplete. -/
theorem not_always_exactlyComplete : ¬∀ (source : EventSource) (scValToNative : Unit → Option Js)
    (getEvents : EventRequest → Except String (EventPage Unit)) (contractId moduleName : String)
    (history : List (RawEvent Unit)) (position : String → ℕ) (checkpoint : Checkpoint)
    (latestLedger first : ℤ) (startLedger : Option ℤ) (batch : EventBatch Unit),
    Serves getEvents contractId history position → (eventsFrom history first).length < 10000 →
    fromLedger checkpoint startLedger = some first →
    pollContract source scValToNative getEvents contractId moduleName checkpoint latestLedger
      startLedger = .ok batch →
    ExactlyComplete history first (endLedger source first latestLedger) batch := by
  intro hall
  have hwindow := windowEvents_eventsAround 100 100
  have hfrom := eventsFrom_eventsAround 100 100
  have hlength := length_eventsAround 100 100
  obtain ⟨result, hresult, hread, hiff⟩ := fetchPages_window sampleSource
    (fun _ => none) (eventsAround_serves 100 100) 1 10
  rw [hwindow, hfrom, hlength, List.length_replicate] at hiff
  have hpoll : pollContract sampleSource (fun _ => none) (nodeOf (eventsAround 100 100)) "C" "amm"
      ⟨0, none⟩ 20 (some 1) = .ok ⟨result.events, 10, result.cursor,
        result.complete && !result.exhaustedPageLimit, false⟩ := by
    change (do
      let paging ← fetchPages sampleSource (fun _ => none) (nodeOf (eventsAround 100 100)) "C" 10
        pageLimit (.window "C" 1 10 eventLimit) ⟨[], none, true, true, false⟩
      return (⟨paging.events, 10, paging.cursor,
        paging.complete && !paging.exhaustedPageLimit, false⟩ : EventBatch Unit)) = _
    rw [hresult]
    rfl
  have hexact := hall sampleSource _ _ "C" "amm" (eventsAround 100 100) _ ⟨0, none⟩ 20 1
    (some 1) _ (eventsAround_serves 100 100)
    (by rw [hfrom, hlength]; decide) rfl hpoll
  have hcovers : windowEvents (eventsAround 100 100) 1 10 =
      (windowEvents (eventsAround 100 100) 1 10).take 10000 := by
    rw [hwindow]
    rfl
  have hcomplete := hexact.mpr (hread.trans hcovers.symm)
  have hends := hiff.mp hcomplete
  omega

end Sample

end DikeProtocol.Services.Indexer
