import DikeProtocol.Lib.Double
import DikeProtocol.Services.EventSource
import DikeProtocol.Types

/-!
# Dispatching events

The dispatcher takes an event's fields from its topics by position, and from
its payload by position or by name, and has the rows they name written or
reconciled.
-/

namespace DikeProtocol.Services.Indexer

open Lib (toDouble)

/-- The outcome of a name. -/
def outcomeOfText (text : String) : Option Outcome :=
  if text = "Yes" then some .yes
  else if text = "No" then some .no
  else if text = "Invalid" then some .invalid
  else none

/-- The outcome a value is: its name, or an object tagged with it. -/
def outcomeTag : Js → Option Outcome
  | .string s => outcomeOfText s
  | .object entries => (entries.lookup "tag").bind (fun tag => outcomeOfText tag.text)
  | _ => none

/-- The number of a big integer. -/
def numberOfBigint (n : ℤ) : ℤ := n.sign * toDouble n.natAbs

/-- A number, if the value is one or converts to one. `numberOf` is the conversion of strings,
where that is finite. -/
def numericValue (numberOf : String → Option ℤ) : Js → Option ℤ
  | .number n => some n
  | .bigint n => some (numberOfBigint n)
  | .string s => if s = "" then none else numberOf s
  | _ => none

/-- The element of an array at a position, if there is one. -/
def valueAt (values : List Js) (index : ℕ) : Option Js :=
  values[index]?.filter Js.isPresent

/-- The first element that an array has at these positions. -/
def indexedValue (value : Js) (indexes : List ℕ) : Option Js :=
  match value with
  | .array values => indexes.findSome? (valueAt values)
  | _ => none

/-- The first element at these positions of an array, or the first of these entries of an object. -/
def recordValue (value : Js) (keys : List String) (indexes : List ℕ) : Option Js :=
  match indexedValue value indexes, value with
  | some indexed, _ => some indexed
  | none, .object entries => keys.findSome? (fun key => (entries.lookup key).filter Js.isPresent)
  | none, _ => none

/-- A value as a string that is not empty. -/
def stringValue : Js → Option String
  | .string s => if s = "" then none else some s
  | .bigint n => some (toString n)
  | .number n => some (toString n)
  | .boolean b => some (if b then "true" else "false")
  | _ => none

/-- An amount, 0 where there is none. -/
def amountValue (value : Option Js) : String := (value.bind stringValue).getD "0"

/-- The outcome a value is, or stands for as a truth value. -/
def outcomeValue (value : Js) : Option Outcome :=
  match outcomeTag value, value with
  | some outcome, _ => some outcome
  | none, .boolean b => some (if b then .yes else .no)
  | none, _ => none

/-- The first string among these topics, or the one of the payload. -/
def firstString (values : List Js) (payload : Js) (topicIndexes : List ℕ) (keys : List String)
    (payloadIndexes : List ℕ) : Option String :=
  (topicIndexes.findSome? (fun index => (valueAt values index).bind stringValue)).or
    ((recordValue payload keys payloadIndexes).bind stringValue)

/-- The first outcome among these topics, or the one of the payload. -/
def firstOutcome (values : List Js) (payload : Js) (topicIndexes : List ℕ) (keys : List String)
    (payloadIndexes : List ℕ) : Option Outcome :=
  (topicIndexes.findSome? (fun index => (valueAt values index).bind outcomeValue)).or
    ((recordValue payload keys payloadIndexes).bind outcomeValue)

/-- A row of the trades. -/
structure TradeRow where
  eventId : String
  network : String
  marketId : ℤ
  poolId : ℤ
  trader : String
  side : String
  direction : String
  amountIn : String
  amountOut : String
  fee : String
  ledger : ℤ
  txHash : String
  deriving DecidableEq

/-- A row of the liquidity events. -/
structure LiquidityRow where
  eventId : String
  network : String
  marketId : ℤ
  poolId : ℤ
  lp : String
  kind : String
  amount : String
  shares : String
  yesOut : String
  noOut : String
  ledger : ℤ
  txHash : String
  deriving DecidableEq

/-- What is noted of a vote in a council case. -/
inductive VoteNote where
  | committed
  | revealed (outcome : Option Outcome)
  | rewarded (correct : Option Bool) (amount : String)
  deriving DecidableEq

/-- What the handling of an event does. A reconciliation reads the contracts and writes what it
read. -/
inductive Effect where
  | insertTrade (row : TradeRow)
  | insertLiquidityEvent (row : LiquidityRow)
  | reconcileMarket (marketId : ℤ)
  | reconcilePool (poolId : ℤ)
  | reconcileVault (marketId : ℤ)
  | reconcileRequest (requestId : ℤ)
  | reconcileCase (caseId : ℤ)
  | reconcileGovernance
  | reconcileTimelockAction (actionId : ℤ)
  | reconcileUserPosition (marketId : ℤ) (owner : String) (outcomes : List Outcome)
  | reconcileUserVaultState (marketId : ℤ) (owner : String)
  | reconcileLpPosition (poolId : ℤ) (owner : String)
  | addLpFeesClaimed (poolId : ℤ) (owner amount eventId : String)
  | upsertCouncilVote (caseId : ℤ) (voter : String) (note : VoteNote)
  | warnUnknown (topic : String)
  deriving DecidableEq

/-- All outcomes, which a position without a known one is reconciled in. -/
def outcomes : List Outcome := [.yes, .no, .invalid]

/-- The name of an outcome. -/
def outcomeName : Outcome → String
  | .yes => "Yes"
  | .no => "No"
  | .invalid => "Invalid"

/-- The contracts by name, and the network they are on. -/
structure Manifest where
  network : String
  contracts : List (String × String)

/-- The name of the contract with an identifier. -/
def contractModuleFor (manifest : Manifest) (contractId : String) : Option String :=
  (manifest.contracts.find? (fun entry => entry.2 = contractId)).map Prod.fst

section

variable {V : Type*} (manifest : Manifest) (numberOf : String → Option ℤ)
  (poolMarket : ℤ → Option ℕ) (event : EventRecord V)

/-- What follows a numeric value, and nothing where there is none. -/
def whenNumeric (value : Option ℤ) (effects : ℤ → List Effect) : List Effect :=
  match value with
  | some number => effects number
  | none => []

/-- The topic at a position as a number. -/
def numericTopic (index : ℕ) : Option ℤ :=
  (valueAt event.topicValues index).bind (numericValue numberOf)

/-- The rows of a trader or a liquidity provider. -/
def recordAmmUserEffects (poolId marketId : ℤ) : List Effect :=
  let topics := event.topicValues
  let payload := event.payload
  if event.topic = "buy" ∨ event.topic = "sell" then
    let trader := firstString topics payload [2, 3]
      ["trader", "user", "buyer", "seller", "owner"] []
    let outcome := firstOutcome topics payload [2, 3] ["outcome", "side", "yes"] [0]
    match trader with
    | none => []
    | some trader =>
      [.insertTrade {
        eventId := event.eventId
        network := manifest.network
        marketId
        poolId
        trader
        side := (outcome.map outcomeName).getD "Unknown"
        direction := event.topic
        amountIn := amountValue
          (recordValue payload ["amount_in", "amountIn", "in", "tokens_sold"] [1])
        amountOut := amountValue
          (recordValue payload ["amount_out", "amountOut", "out", "tokens_bought", "payout"] [2])
        fee := amountValue (recordValue payload ["fee", "trade_fee", "trading_fee"] [])
        ledger := event.ledger
        txHash := event.txHash },
      .reconcileUserPosition marketId trader ((outcome.map (fun o => [o])).getD outcomes),
      .reconcileUserVaultState marketId trader]
  else if event.topic = "seed" ∨ event.topic = "lp_add" ∨ event.topic = "lp_rm" then
    let lp := firstString topics payload [2, 3] ["lp", "provider", "user", "owner"] []
    match lp with
    | none => []
    | some lp =>
      [.insertLiquidityEvent {
        eventId := event.eventId
        network := manifest.network
        marketId
        poolId
        lp
        kind := event.topic
        amount := if event.topic = "lp_rm" then "0" else amountValue
          (recordValue payload ["amount", "amount_in", "collateral", "collateral_in"] [0])
        shares := amountValue (recordValue payload
          ["shares", "lp_shares", "shares_out", "shares_burned"]
          (if event.topic = "lp_rm" then [0] else [1]))
        yesOut := amountValue (recordValue payload ["yes_out", "yesOut"] [1])
        noOut := amountValue (recordValue payload ["no_out", "noOut"] [2])
        ledger := event.ledger
        txHash := event.txHash },
      .reconcileLpPosition poolId lp,
      .reconcileUserPosition marketId lp outcomes,
      .reconcileUserVaultState marketId lp]
  else []

/-- The rows of the owner that an event of the vault names. -/
def recordVaultUserEffects (marketId : ℤ) : List Effect :=
  let owner := firstString event.topicValues event.payload [2, 3]
    ["user", "owner", "recipient", "trader"] []
  let outcome := firstOutcome event.topicValues event.payload [2, 3, 4]
    ["outcome", "redeemed_outcome", "final_outcome"] [0]
  match owner with
  | none => []
  | some owner =>
    [.reconcileUserVaultState marketId owner,
    .reconcileUserPosition marketId owner ((outcome.map (fun o => [o])).getD outcomes)]

/-- An event of the factory. -/
def dispatchMarketFactory : List Effect :=
  match event.topic with
  | "mkt_new" => whenNumeric (numericTopic numberOf event 1) (fun m => [.reconcileMarket m])
  | "modules" | "creator" | "collat" | "pause" => [.reconcileGovernance]
  | topic => [.warnUnknown topic]

/-- An event of the registry. -/
def dispatchMarketRegistry : List Effect :=
  match event.topic with
  | "mkt_new" | "status" | "final" | "fee_cfg" =>
    whenNumeric (numericTopic numberOf event 1) (fun m => [.reconcileMarket m])
  | "res_req" =>
    whenNumeric (numericTopic numberOf event 1) (fun m => [.reconcileMarket m]) ++
      whenNumeric (numericValue numberOf event.payload) (fun r => [.reconcileRequest r])
  | "role" | "collat" | "pause" => [.reconcileGovernance]
  | topic => [.warnUnknown topic]

/-- An event of the market maker. What is done for a user needs the market that the pool is read
to belong to; where the read fails, so does the handling. -/
def dispatchAmm : Except String (List Effect) :=
  match event.topic with
  | "pool" => .ok (whenNumeric (numericTopic numberOf event 1) (fun m => [.reconcileMarket m]) ++
      whenNumeric (numericValue numberOf event.payload) (fun p => [.reconcilePool p]))
  | "seed" | "lp_add" | "lp_rm" | "buy" | "sell" =>
    match numericTopic numberOf event 1 with
    | none => .ok []
    | some poolId =>
      match poolMarket poolId with
      | none => .error "pool"
      | some marketId => .ok (.reconcilePool poolId ::
          recordAmmUserEffects manifest event poolId (numberOfBigint marketId))
  | "lpfee" =>
    match numericTopic numberOf event 1,
        firstString event.topicValues event.payload [2] [] [] with
    | some poolId, some lp => .ok [.reconcileLpPosition poolId lp,
        .addLpFeesClaimed poolId lp (amountValue (some event.payload)) event.eventId]
    | _, _ => .ok []
  | "role" | "pause" => .ok [.reconcileGovernance]
  | topic => .ok [.warnUnknown topic]

/-- An event of the vault. -/
def dispatchCollateralVault : List Effect :=
  match event.topic with
  | "deposit" | "release" | "redeem" | "fee" =>
    whenNumeric (numericTopic numberOf event 1) (fun m =>
      .reconcileVault m :: recordVaultUserEffects event m)
  | "cfund" | "cpay" =>
    let owner := firstString event.topicValues event.payload [3] ["user", "owner"] [0]
    let reconcile (m : ℤ) : List Effect :=
      .reconcileVault m :: owner.toList.map (.reconcileUserVaultState m)
    whenNumeric (numericTopic numberOf event 1) reconcile ++
      whenNumeric (numericTopic numberOf event 2) reconcile
  | "role" | "treas" | "pause" | "bond" | "bond_rel" => [.reconcileGovernance]
  | topic => [.warnUnknown topic]

/-- An event of the conditional tokens. -/
def dispatchConditionalTokens : List Effect :=
  let topics := event.topicValues
  let payload := event.payload
  let marketId := numericTopic numberOf event 1
  match event.topic with
  | "split" | "merge" =>
    match marketId, firstString topics payload [2] ["user", "owner", "to"] [] with
    | some m, some owner => [.reconcileUserPosition m owner [.yes, .no]]
    | _, _ => []
  | "pos_xfer" =>
    let sender := firstString topics payload [2] ["from"] []
    let recipient := firstString topics payload [3] ["to"] []
    match marketId, firstOutcome topics payload [] ["outcome"] [0] with
    | some m, some outcome =>
      (sender.toList ++ recipient.toList).map (fun owner =>
        .reconcileUserPosition m owner [outcome])
    | _, _ => []
  | "burn" | "losebrn" =>
    match marketId, firstString topics payload [2] ["owner", "user", "from"] [],
        firstOutcome topics payload [] ["outcome"] [0] with
    | some m, some owner, some outcome => [.reconcileUserPosition m owner [outcome]]
    | _, _, _ => []
  | "role" | "pause" => [.reconcileGovernance]
  | topic => [.warnUnknown topic]

/-- An event of the oracle. -/
def dispatchCodOracle : List Effect :=
  match event.topic with
  | "res_req" =>
    whenNumeric (numericTopic numberOf event 1) (fun m => [.reconcileMarket m]) ++
      whenNumeric (numericValue numberOf event.payload) (fun r => [.reconcileRequest r])
  | "propose" | "dispute" | "final" | "cod_fin" | "escal" =>
    whenNumeric (numericTopic numberOf event 1) (fun r => [.reconcileRequest r])
  | "role" | "pause" => [.reconcileGovernance]
  | topic => [.warnUnknown topic]

/-- An event of the council about a vote: its case is reconciled, and the vote noted. -/
def dispatchVote (note : VoteNote) : List Effect :=
  whenNumeric (numericTopic numberOf event 1) (fun c => .reconcileCase c ::
    (firstString event.topicValues event.payload [2] [] []).toList.map (fun voter =>
      .upsertCouncilVote c voter note))

/-- An event of the council. -/
def dispatchCouncil : List Effect :=
  let payload := event.payload
  match event.topic with
  | "case" => whenNumeric (numericValue numberOf payload) (fun c => [.reconcileCase c])
  | "casefin" => whenNumeric (numericTopic numberOf event 1) (fun c => [.reconcileCase c])
  | "commit" => dispatchVote numberOf event .committed
  | "reveal" => dispatchVote numberOf event
      (.revealed (firstOutcome event.topicValues payload [] ["outcome"] [0]))
  | "reward" => dispatchVote numberOf event (.rewarded
      (match recordValue payload ["correct"] [0] with
        | some (.boolean b) => some b
        | _ => none)
      (amountValue (recordValue payload ["payout"] [1])))
  | "role" | "member" | "pause" => [.reconcileGovernance]
  | topic => [.warnUnknown topic]

/-- An event of the timelock. -/
def dispatchTimelock : List Effect :=
  match event.topic with
  | "roles" => [.reconcileGovernance]
  | "queued" | "cancel" | "execute" => .reconcileGovernance ::
      whenNumeric (numericTopic numberOf event 1) (fun a => [.reconcileTimelockAction a])
  | topic => [.warnUnknown topic]

/-- Dispatch an event by the contract it is from. -/
def dispatch : Except String (List Effect) :=
  match contractModuleFor manifest event.contractId with
  | some "market_factory" => .ok (dispatchMarketFactory numberOf event)
  | some "market_registry" => .ok (dispatchMarketRegistry numberOf event)
  | some "amm" => dispatchAmm manifest numberOf poolMarket event
  | some "collateral_vault" => .ok (dispatchCollateralVault numberOf event)
  | some "conditional_tokens" => .ok (dispatchConditionalTokens numberOf event)
  | some "cod_oracle" => .ok (dispatchCodOracle numberOf event)
  | some "council_of_dike" => .ok (dispatchCouncil numberOf event)
  | some "dike_governance" | some "fee_manager" => .ok [.reconcileGovernance]
  | some "dike_timelock" => .ok (dispatchTimelock numberOf event)
  | _ => .ok [.warnUnknown event.topic]

end

end DikeProtocol.Services.Indexer
