import DikeProtocol.Services.Dispatcher
import Std.Data.String.ToInt

/-!
# From an emitted event to its rows

The contracts lay an event's fields out in topics and a payload, which is the
last field alone or a vector of fields. Decoding and dispatching are to give the
emitted fields back.
-/

namespace DikeProtocol.Services.Indexer

open Lib (toDouble)

/-- The values the contracts encode these fields as. -/
inductive ScVal where
  | u64 (n : ℕ)
  | i128 (n : ℤ)
  | bool (b : Bool)
  | symbol (s : String)
  | address (s : String)
  | vec (values : List ScVal)

/-- A unit variant is a vector with its symbol. -/
def scOutcome (outcome : Outcome) : ScVal := .vec [.symbol (outcomeName outcome)]

/-- What the indexer's library makes of such values. -/
structure DecodesNatively (scValToNative : ScVal → Option Js) : Prop where
  u64 : ∀ n : ℕ, scValToNative (.u64 n) = some (.bigint n)
  i128 : ∀ n : ℤ, scValToNative (.i128 n) = some (.bigint n)
  bool : ∀ b, scValToNative (.bool b) = some (.boolean b)
  symbol : ∀ s, scValToNative (.symbol s) = some (.string s)
  address : ∀ s, scValToNative (.address s) = some (.string s)
  vec : ∀ values natives, values.map scValToNative = natives.map some →
    scValToNative (.vec values) = some (.array natives)

/-- The text of an address. -/
structure Strkey where
  text : String
  length_eq : text.length = 56

/-- An address is not empty. -/
theorem Strkey.ne_empty (a : Strkey) : a.text ≠ "" := by
  intro h
  have hlength := a.length_eq
  rw [h] at hlength
  cases hlength

/-- An address is not the name of an outcome. -/
theorem Strkey.not_outcome (a : Strkey) : outcomeOfText a.text = none := by
  unfold outcomeOfText
  rw [if_neg, if_neg, if_neg]
  all_goals
    intro h
    have hlength := a.length_eq
    rw [h] at hlength
    cases hlength

/-- Whether tokens are bought or sold. -/
inductive Direction where
  | buy
  | sell

/-- An event of the market maker or the conditional tokens, with its fields. -/
inductive ContractEvent where
  | swap (direction : Direction) (poolId : ℕ) (trader : Strkey) (yes : Bool)
      (amountIn amountOut : ℤ)
  | seed (poolId : ℕ) (lp : Strkey) (amount : ℤ)
  | lpAdd (poolId : ℕ) (lp : Strkey) (amount shares : ℤ)
  | lpRm (poolId : ℕ) (lp : Strkey) (shares yesOut noOut : ℤ)
  | posXfer (marketId : ℕ) (sender recipient : Strkey) (outcome : Outcome) (amount : ℤ)
  | burn (losing : Bool) (marketId : ℕ) (owner : Strkey) (outcome : Outcome) (amount : ℤ)

/-- The name of an event. -/
def ContractEvent.name : ContractEvent → String
  | swap .buy _ _ _ _ _ => "buy"
  | swap .sell _ _ _ _ _ => "sell"
  | seed _ _ _ => "seed"
  | lpAdd _ _ _ _ => "lp_add"
  | lpRm _ _ _ _ _ => "lp_rm"
  | posXfer _ _ _ _ _ => "pos_xfer"
  | burn false _ _ _ _ => "burn"
  | burn true _ _ _ _ => "losebrn"

/-- A trade is a purchase or a sale. -/
theorem ContractEvent.swap_name (direction : Direction) (poolId : ℕ) (trader : Strkey) (yes : Bool)
    (amountIn amountOut : ℤ) :
    (ContractEvent.swap direction poolId trader yes amountIn amountOut).name = "buy" ∨
      (ContractEvent.swap direction poolId trader yes amountIn amountOut).name = "sell" := by
  cases direction
  · exact Or.inl rfl
  · exact Or.inr rfl

/-- The topics after the name. -/
def ContractEvent.topics : ContractEvent → List ScVal
  | swap _ poolId trader _ _ _ => [.u64 poolId, .address trader.text]
  | seed poolId lp _ => [.u64 poolId, .address lp.text]
  | lpAdd poolId lp _ _ => [.u64 poolId, .address lp.text]
  | lpRm poolId lp _ _ _ => [.u64 poolId, .address lp.text]
  | posXfer marketId sender recipient _ _ =>
    [.u64 marketId, .address sender.text, .address recipient.text]
  | burn _ marketId owner _ _ => [.u64 marketId, .address owner.text]

/-- The payload. -/
def ContractEvent.data : ContractEvent → ScVal
  | swap _ _ _ yes amountIn amountOut => .vec [.bool yes, .i128 amountIn, .i128 amountOut]
  | seed _ _ amount => .i128 amount
  | lpAdd _ _ amount shares => .vec [.i128 amount, .i128 shares]
  | lpRm _ _ shares yesOut noOut => .vec [.i128 shares, .i128 yesOut, .i128 noOut]
  | posXfer _ _ _ outcome amount => .vec [scOutcome outcome, .i128 amount]
  | burn _ _ _ outcome amount => .vec [scOutcome outcome, .i128 amount]

/-- The name of the contract that emits an event. -/
def ContractEvent.module : ContractEvent → String
  | posXfer _ _ _ _ _ => "conditional_tokens"
  | burn _ _ _ _ _ => "conditional_tokens"
  | _ => "amm"

/-- An emitted event as the RPC returns it. -/
def ContractEvent.raw (event : ContractEvent) (id : String) (ledger : ℤ) (txHash : String) :
    RawEvent ScVal where
  id := id
  ledger := ledger
  txHash := txHash
  topic := .symbol event.name :: event.topics
  value := event.data

/-- The topics as they are decoded. -/
def ContractEvent.topicValues : ContractEvent → List Js
  | swap _ poolId trader _ _ _ => [.bigint poolId, .string trader.text]
  | seed poolId lp _ => [.bigint poolId, .string lp.text]
  | lpAdd poolId lp _ _ => [.bigint poolId, .string lp.text]
  | lpRm poolId lp _ _ _ => [.bigint poolId, .string lp.text]
  | posXfer marketId sender recipient _ _ =>
    [.bigint marketId, .string sender.text, .string recipient.text]
  | burn _ marketId owner _ _ => [.bigint marketId, .string owner.text]

/-- The payload as it is decoded: an outcome is an array with its name. -/
def ContractEvent.payload : ContractEvent → Js
  | swap _ _ _ yes amountIn amountOut =>
    .array [.boolean yes, .bigint amountIn, .bigint amountOut]
  | seed _ _ amount => .bigint amount
  | lpAdd _ _ amount shares => .array [.bigint amount, .bigint shares]
  | lpRm _ _ shares yesOut noOut => .array [.bigint shares, .bigint yesOut, .bigint noOut]
  | posXfer _ _ _ outcome amount =>
    .array [.array [.string (outcomeName outcome)], .bigint amount]
  | burn _ _ _ outcome amount => .array [.array [.string (outcomeName outcome)], .bigint amount]

/-- How an emitted event is decoded. -/
theorem decodeRawEvent_raw {scValToNative : ScVal → Option Js} (h : DecodesNatively scValToNative)
    (event : ContractEvent) (id : String) (ledger : ℤ) (txHash : String) :
    decodeRawEvent scValToNative (event.raw id ledger txHash) =
      ⟨.string event.name :: event.topicValues, event.payload, event.name⟩ := by
  have htopics : event.topics.map (scValToNativeSafe scValToNative) = event.topicValues := by
    cases event <;> simp only [ContractEvent.topics, ContractEvent.topicValues, List.map_cons,
      List.map_nil, scValToNativeSafe, h.u64, h.address, Option.getD_some]
  have hname : scValToNativeSafe scValToNative (.symbol event.name) = .string event.name := by
    rw [scValToNativeSafe, h.symbol, Option.getD_some]
  have houtcome : ∀ o, scValToNative (scOutcome o) = some (.array [.string (outcomeName o)]) :=
    fun o => h.vec _ [.string (outcomeName o)] (by rw [List.map_singleton, h.symbol]; rfl)
  have hpayload : scValToNative event.data = some event.payload := by
    cases event with
    | seed => exact h.i128 _
    | _ =>
      refine h.vec _ _ ?_
      simp only [List.map_cons, List.map_nil, h.bool, h.i128, houtcome]
  unfold decodeRawEvent ContractEvent.raw
  dsimp only
  rw [List.map_cons, htopics, hname, scValToNativeSafe, hpayload]
  rfl

/-- The trades among effects. -/
def tradesOf (effects : List Effect) : List TradeRow :=
  effects.filterMap (fun effect =>
    match effect with
    | .insertTrade row => some row
    | _ => none)

/-- The liquidity events among effects. -/
def liquidityOf (effects : List Effect) : List LiquidityRow :=
  effects.filterMap (fun effect =>
    match effect with
    | .insertLiquidityEvent row => some row
    | _ => none)

/-- The positions that effects reconcile: market, owner and outcomes. -/
def positionsOf (effects : List Effect) : List (ℤ × String × List Outcome) :=
  effects.filterMap (fun effect =>
    match effect with
    | .reconcileUserPosition marketId owner outcomes => some (marketId, owner, outcomes)
    | _ => none)

/-- The one liquidity row of effects has these fields. -/
def LiquidityRecorded (effects : List Effect) (lp : Strkey) (amount shares yesOut noOut : ℤ) :
    Prop :=
  ∃ row, liquidityOf effects = [row] ∧ row.lp = lp.text ∧ row.amount = toString amount ∧
    row.shares = toString shares ∧ row.yesOut = toString yesOut ∧ row.noOut = toString noOut

/-- The outcome of a traded side. -/
def sideOf (yes : Bool) : Outcome := if yes then .yes else .no

/-- The effects record exactly the fields of an event in a market: the row with its fields, and
0 for those it does not carry, and the positions it is about. -/
def ContractEvent.RecordedIn (marketId : ℕ) (effects : List Effect) : ContractEvent → Prop
  | swap _ _ trader yes amountIn amountOut =>
    (∃ row, tradesOf effects = [row] ∧ row.trader = trader.text ∧
      row.side = outcomeName (sideOf yes) ∧ row.amountIn = toString amountIn ∧
      row.amountOut = toString amountOut) ∧
    positionsOf effects = [((marketId : ℤ), trader.text, [sideOf yes])]
  | seed _ lp amount => LiquidityRecorded effects lp amount 0 0 0 ∧
    positionsOf effects = [((marketId : ℤ), lp.text, outcomes)]
  | lpAdd _ lp amount shares => LiquidityRecorded effects lp amount shares 0 0 ∧
    positionsOf effects = [((marketId : ℤ), lp.text, outcomes)]
  | lpRm _ lp shares yesOut noOut => LiquidityRecorded effects lp 0 shares yesOut noOut ∧
    positionsOf effects = [((marketId : ℤ), lp.text, outcomes)]
  | posXfer _ sender recipient outcome _ => positionsOf effects =
    [((marketId : ℤ), sender.text, [outcome]), ((marketId : ℤ), recipient.text, [outcome])]
  | burn _ _ owner outcome _ => positionsOf effects = [((marketId : ℤ), owner.text, [outcome])]

/-- The market an event is about: the one it names, or the one its pool belongs to. -/
def ContractEvent.InMarket (poolMarket : ℤ → Option ℕ) (marketId : ℕ) : ContractEvent → Prop
  | swap _ poolId _ _ _ _ => poolMarket poolId = some marketId
  | seed poolId _ _ => poolMarket poolId = some marketId
  | lpAdd poolId _ _ _ => poolMarket poolId = some marketId
  | lpRm poolId _ _ _ _ => poolMarket poolId = some marketId
  | posXfer m _ _ _ _ => m = marketId
  | burn _ m _ _ _ => m = marketId

/-- The pool whose identifier is a pool's as a double belongs to a market whose identifier as a
double is this one. -/
def ReadsMarket (poolMarket : ℤ → Option ℕ) (poolId marketId : ℕ) : Prop :=
  ∃ m, poolMarket (toDouble poolId) = some m ∧ toDouble m = marketId

/-- The events whose fields survive. -/
def ContractEvent.Survives (poolMarket : ℤ → Option ℕ) (marketId : ℕ) : ContractEvent → Prop
  | swap _ poolId _ _ _ _ => ReadsMarket poolMarket poolId marketId
  | seed poolId _ amount => amount = 0 ∧ ReadsMarket poolMarket poolId marketId
  | lpAdd poolId _ _ shares => shares = 0 ∧ ReadsMarket poolMarket poolId marketId
  | lpRm poolId _ _ _ _ => ReadsMarket poolMarket poolId marketId
  | posXfer _ _ _ _ _ => False
  | burn _ _ _ _ _ => False

/-- The number of an unsigned integer is its double. -/
theorem numberOfBigint_natCast (n : ℕ) : numberOfBigint n = toDouble n := by
  unfold numberOfBigint
  rw [Int.natAbs_natCast]
  cases n with
  | zero => rfl
  | succ n => rw [Int.sign_natCast_of_ne_zero (Nat.succ_ne_zero n), one_mul]

/-- An address among the topics is the first string there. -/
theorem firstString_address (values : List Js) (payload : Js) (a : Strkey) (index : ℕ)
    (rest : List ℕ) (keys : List String) (payloadIndexes : List ℕ)
    (h : values[index]? = some (.string a.text)) :
    firstString values payload (index :: rest) keys payloadIndexes = some a.text := by
  unfold firstString valueAt
  rw [List.findSome?_cons, h]
  simp only [Option.filter_some, Js.isPresent, if_true, Option.bind_some, stringValue,
    if_neg a.ne_empty, Option.some_or]

/-- An address among the topics is no outcome, and the payload decides. -/
theorem firstOutcome_address (name : Js) (id : ℤ) (payload : Js) (a : Strkey) (keys : List String)
    (payloadIndexes : List ℕ) :
    firstOutcome [name, .bigint id, .string a.text] payload [2, 3] keys payloadIndexes =
      (recordValue payload keys payloadIndexes).bind outcomeValue := by
  unfold firstOutcome valueAt
  simp only [List.findSome?_cons, List.findSome?_nil, List.getElem?_cons_succ,
    List.getElem?_cons_zero, List.getElem?_nil, Option.filter_some, Option.filter_none,
    Js.isPresent, if_true, Option.bind_some, Option.bind_none, outcomeValue, outcomeTag,
    a.not_outcome, Option.none_or]

section

variable {scValToNative : ScVal → Option Js} (h : DecodesNatively scValToNative)
  {manifest : Manifest} {numberOf : String → Option ℤ} {poolMarket : ℤ → Option ℕ}
  {source : EventSource} {contractId : String} {cursor : Option String} {id txHash : String}
  {ledger : ℤ}

/-- The record of an emitted event, decoded. -/
def ContractEvent.record (event : ContractEvent) (source : EventSource) (contractId : String)
    (cursor : Option String) (id : String) (ledger : ℤ) (txHash : String) :
    EventRecord ScVal where
  network := source.network
  contractId := contractId
  ledger := ledger
  txHash := txHash
  eventId := id
  topic := event.name
  topicValues := .string event.name :: event.topicValues
  payload := event.payload
  rawEvent := event.raw id ledger txHash
  cursor := cursor

include h in
/-- Decoding makes this record. -/
theorem recordEvent_raw (event : ContractEvent) :
    recordEvent source scValToNative contractId cursor (event.raw id ledger txHash) =
      event.record source contractId cursor id ledger txHash := by
  unfold recordEvent
  rw [decodeRawEvent_raw h]
  rfl

/-- The market maker's event of a pool that reads. -/
theorem dispatchAmm_record (event : ContractEvent) (poolId : ℕ) (user : Strkey)
    (hmanifest : contractModuleFor manifest contractId = some "amm")
    (hname : event.name = "buy" ∨ event.name = "sell" ∨ event.name = "seed" ∨
      event.name = "lp_add" ∨ event.name = "lp_rm")
    (htopics : event.topicValues = [.bigint poolId, .string user.text]) :
    dispatch manifest numberOf poolMarket
        (event.record source contractId cursor id ledger txHash) =
      match poolMarket (toDouble poolId) with
      | none => .error "pool"
      | some m => .ok (.reconcilePool (toDouble poolId) :: recordAmmUserEffects manifest
          (event.record source contractId cursor id ledger txHash) (toDouble poolId)
          (toDouble m)) := by
  have hnumber : numericTopic numberOf (event.record source contractId cursor id ledger txHash) 1 =
      some (toDouble poolId : ℤ) := by
    unfold numericTopic valueAt ContractEvent.record
    rw [htopics, ← numberOfBigint_natCast]
    rfl
  unfold dispatch
  have hcontract :
      (event.record source contractId cursor id ledger txHash).contractId = contractId := rfl
  have htopic : (event.record source contractId cursor id ledger txHash).topic = event.name := rfl
  rw [hcontract, hmanifest]
  unfold dispatchAmm
  rw [htopic, hnumber]
  obtain hname | hname | hname | hname | hname := hname <;> rw [hname] <;> dsimp only <;>
    cases poolMarket (toDouble poolId) with
    | none => rfl
    | some m =>
      dsimp only
      rw [numberOfBigint_natCast]
      rfl

/-- The rows of a trade. -/
theorem recordAmmUserEffects_swap (direction : Direction) (poolId : ℕ) (trader : Strkey)
    (yes : Bool) (amountIn amountOut p m : ℤ) :
    recordAmmUserEffects manifest ((ContractEvent.swap direction poolId trader yes amountIn
        amountOut).record source contractId cursor id ledger txHash) p m =
      [.insertTrade ⟨id, manifest.network, m, p, trader.text, outcomeName (sideOf yes),
        (ContractEvent.swap direction poolId trader yes amountIn amountOut).name,
        toString amountIn, toString amountOut, "0", ledger, txHash⟩,
      .reconcileUserPosition m trader.text [sideOf yes],
      .reconcileUserVaultState m trader.text] := by
  have hname := ContractEvent.swap_name direction poolId trader yes amountIn amountOut
  unfold recordAmmUserEffects ContractEvent.record
  dsimp only [ContractEvent.topicValues, ContractEvent.payload]
  rw [if_pos hname, firstString_address _ _ trader 2 [3] _ _ rfl, firstOutcome_address]
  cases yes <;> rfl

/-- The rows of a liquidity event, whose amounts the payload gives. -/
theorem recordAmmUserEffects_liquidity (event : ContractEvent) (poolId : ℕ) (lp : Strkey)
    (p m : ℤ) (hname : event.name = "seed" ∨ event.name = "lp_add" ∨ event.name = "lp_rm")
    (htopics : event.topicValues = [.bigint poolId, .string lp.text]) :
    ∃ row, recordAmmUserEffects manifest
        (event.record source contractId cursor id ledger txHash) p m =
      [.insertLiquidityEvent row, .reconcileLpPosition p lp.text,
        .reconcileUserPosition m lp.text outcomes, .reconcileUserVaultState m lp.text] ∧
      row.lp = lp.text ∧
      row.amount = (if event.name = "lp_rm" then "0" else amountValue (recordValue event.payload
        ["amount", "amount_in", "collateral", "collateral_in"] [0])) ∧
      row.shares = amountValue (recordValue event.payload
        ["shares", "lp_shares", "shares_out", "shares_burned"]
        (if event.name = "lp_rm" then [0] else [1])) ∧
      row.yesOut = amountValue (recordValue event.payload ["yes_out", "yesOut"] [1]) ∧
      row.noOut = amountValue (recordValue event.payload ["no_out", "noOut"] [2]) := by
  have hother : ¬(event.name = "buy" ∨ event.name = "sell") := by
    obtain hname | hname | hname := hname <;> rw [hname] <;> decide
  unfold recordAmmUserEffects ContractEvent.record
  dsimp only
  rw [if_neg hother, if_pos hname,
    firstString_address _ _ lp 2 [3] _ _ (by rw [htopics]; rfl)]
  exact ⟨_, rfl, rfl, rfl, rfl, rfl, rfl⟩

/-- A transfer has no effect: an array is no outcome. -/
theorem dispatch_posXfer (marketId : ℕ) (sender recipient : Strkey) (outcome : Outcome)
    (amount : ℤ) (hmanifest : contractModuleFor manifest contractId = some "conditional_tokens") :
    dispatch manifest numberOf poolMarket ((ContractEvent.posXfer marketId sender recipient outcome
      amount).record source contractId cursor id ledger txHash) = .ok [] := by
  unfold dispatch
  have hcontract : ((ContractEvent.posXfer marketId sender recipient outcome amount).record source
    contractId cursor id ledger txHash).contractId = contractId := rfl
  rw [hcontract, hmanifest]
  rfl

/-- Nor has a burn. -/
theorem dispatch_burn (losing : Bool) (marketId : ℕ) (owner : Strkey) (outcome : Outcome)
    (amount : ℤ) (hmanifest : contractModuleFor manifest contractId = some "conditional_tokens") :
    dispatch manifest numberOf poolMarket ((ContractEvent.burn losing marketId owner outcome
      amount).record source contractId cursor id ledger txHash) = .ok [] := by
  have hnothing : dispatchConditionalTokens numberOf ((ContractEvent.burn losing marketId owner
      outcome amount).record source contractId cursor id ledger txHash) = [] := by
    unfold dispatchConditionalTokens ContractEvent.record
    dsimp only [ContractEvent.topicValues, ContractEvent.payload]
    rw [firstString_address _ _ owner 2 [] ["owner", "user", "from"] [] rfl]
    cases losing <;> rfl
  unfold dispatch
  have hcontract : ((ContractEvent.burn losing marketId owner outcome amount).record source
    contractId cursor id ledger txHash).contractId = contractId := rfl
  rw [hcontract, hmanifest, hnothing]
  rfl

/-- A string of an amount that is recorded as 0. -/
theorem toString_eq_zero {n : ℤ} : toString n = "0" ↔ n = 0 :=
  (Int.repr_inj (b := 0) : Int.repr n = Int.repr 0 ↔ n = 0)

/-- An event of the market maker is recorded exactly where its pool's market is read and what
its user effects would record for that market is right. -/
theorem recorded_amm_iff {event : ContractEvent} {poolId marketId : ℕ} {user : Strkey}
    {fields : Prop} (hmanifest : contractModuleFor manifest contractId = some "amm")
    (hname : event.name = "buy" ∨ event.name = "sell" ∨ event.name = "seed" ∨
      event.name = "lp_add" ∨ event.name = "lp_rm")
    (htopics : event.topicValues = [.bigint poolId, .string user.text])
    (hfields : ∀ m : ℕ, event.RecordedIn marketId (.reconcilePool (toDouble poolId) ::
      recordAmmUserEffects manifest (event.record source contractId cursor id ledger txHash)
        (toDouble poolId) (toDouble m)) ↔ fields ∧ toDouble m = marketId) :
    (∃ effects, dispatch manifest numberOf poolMarket
        (event.record source contractId cursor id ledger txHash) = .ok effects ∧
      event.RecordedIn marketId effects) ↔ fields ∧ ReadsMarket poolMarket poolId marketId := by
  rw [dispatchAmm_record event poolId user hmanifest hname htopics]
  unfold ReadsMarket
  cases poolMarket (toDouble poolId) with
  | none =>
    constructor
    · rintro ⟨_, herror, _⟩
      cases herror
    · rintro ⟨_, _, hnone, _⟩
      cases hnone
  | some m =>
    constructor
    · rintro ⟨effects, hok, hrecorded⟩
      cases hok
      obtain ⟨hright, hmarket⟩ := (hfields m).mp hrecorded
      exact ⟨hright, m, rfl, hmarket⟩
    · rintro ⟨hright, m', hsome, hmarket⟩
      cases hsome
      exact ⟨_, rfl, (hfields m).mpr ⟨hright, hmarket⟩⟩

/-- The fields that a liquidity event of a provider was recorded with. -/
theorem recorded_liquidity_iff (event : ContractEvent) (poolId : ℕ) (lp : Strkey) (p : ℤ)
    (m marketId : ℕ) (hname : event.name = "seed" ∨ event.name = "lp_add" ∨ event.name = "lp_rm")
    (htopics : event.topicValues = [.bigint poolId, .string lp.text])
    (amount shares yesOut noOut : ℤ) :
    (LiquidityRecorded (.reconcilePool p :: recordAmmUserEffects manifest
        (event.record source contractId cursor id ledger txHash) p m) lp
        amount shares yesOut noOut ∧
      positionsOf (.reconcilePool p :: recordAmmUserEffects manifest
        (event.record source contractId cursor id ledger txHash) p m) =
          [((marketId : ℤ), lp.text, outcomes)]) ↔
    ((if event.name = "lp_rm" then "0" else amountValue (recordValue event.payload
        ["amount", "amount_in", "collateral", "collateral_in"] [0])) = toString amount ∧
      amountValue (recordValue event.payload ["shares", "lp_shares", "shares_out", "shares_burned"]
        (if event.name = "lp_rm" then [0] else [1])) = toString shares ∧
      amountValue (recordValue event.payload ["yes_out", "yesOut"] [1]) = toString yesOut ∧
      amountValue (recordValue event.payload ["no_out", "noOut"] [2]) = toString noOut) ∧
    m = marketId := by
  obtain ⟨row, hrow, hlp, hamount, hshares, hyes, hno⟩ :=
    @recordAmmUserEffects_liquidity manifest source contractId cursor id txHash ledger event poolId
      lp p m hname htopics
  rw [hrow, ← hamount, ← hshares, ← hyes, ← hno]
  constructor
  · rintro ⟨⟨row', hrows, _, hamount', hshares', hyes', hno'⟩, hpositions⟩
    obtain rfl := (List.cons.inj hrows).1
    have hpair := (List.cons.inj hpositions).1
    exact ⟨⟨hamount', hshares', hyes', hno'⟩, by exact_mod_cast (Prod.mk.inj hpair).1⟩
  · rintro ⟨⟨hamount', hshares', hyes', hno'⟩, rfl⟩
    exact ⟨⟨row, rfl, hlp, hamount', hshares', hyes', hno'⟩, rfl⟩

include h in
/-- Decoding and dispatching an emitted event record exactly its fields, if and only if it is a
trade, a withdrawal of liquidity, a first deposit of nothing or a further deposit for no shares,
and the market of its pool is read. -/
theorem dispatch_records_iff (event : ContractEvent) {marketId : ℕ}
    (hmanifest : contractModuleFor manifest contractId = some event.module)
    (hmarket : event.InMarket poolMarket marketId) :
    (∃ effects, dispatch manifest numberOf poolMarket (recordEvent source scValToNative contractId
        cursor (event.raw id ledger txHash)) = .ok effects ∧ event.RecordedIn marketId effects) ↔
      event.Survives poolMarket marketId := by
  rw [recordEvent_raw h]
  cases event with
  | swap direction poolId trader yes amountIn amountOut =>
    have hname := ContractEvent.swap_name direction poolId trader yes amountIn amountOut
    rw [← true_and (ContractEvent.Survives _ _ _)]
    refine recorded_amm_iff hmanifest (by tauto) rfl (fun m => ?_)
    rw [recordAmmUserEffects_swap, true_and]
    constructor
    · rintro ⟨_, hpositions⟩
      have hpair := (List.cons.inj hpositions).1
      exact_mod_cast (Prod.mk.inj hpair).1
    · intro hm
      refine ⟨⟨_, rfl, rfl, rfl, rfl, rfl⟩, ?_⟩
      change [_] = [_]
      rw [hm]
  | seed poolId lp amount =>
    refine recorded_amm_iff hmanifest (by tauto) rfl (fun m => ?_)
    refine (recorded_liquidity_iff (.seed poolId lp amount) poolId lp _ _ marketId (Or.inl rfl) rfl
      amount 0 0 0).trans (and_congr_left (fun _ => ?_))
    rw [← toString_eq_zero]
    exact ⟨fun hrow => hrow.1.symm, fun hzero => ⟨hzero.symm, rfl, rfl, rfl⟩⟩
  | lpAdd poolId lp amount shares =>
    refine recorded_amm_iff hmanifest (by tauto) rfl (fun m => ?_)
    refine (recorded_liquidity_iff (.lpAdd poolId lp amount shares) poolId lp _ _ marketId
      (Or.inr (Or.inl rfl)) rfl amount shares 0 0).trans (and_congr_left (fun _ => ?_))
    rw [← toString_eq_zero]
    exact ⟨fun hrow => hrow.2.2.1, fun hzero => ⟨rfl, rfl, hzero, rfl⟩⟩
  | lpRm poolId lp shares yesOut noOut =>
    rw [← true_and (ContractEvent.Survives _ _ _)]
    refine recorded_amm_iff hmanifest (by tauto) rfl (fun m => ?_)
    refine (recorded_liquidity_iff (.lpRm poolId lp shares yesOut noOut) poolId lp _ _ marketId
      (Or.inr (Or.inr rfl)) rfl 0 shares yesOut noOut).trans (and_congr_left (fun _ => ?_))
    exact ⟨fun _ => trivial, fun _ => ⟨rfl, rfl, rfl, rfl⟩⟩
  | posXfer m sender recipient outcome amount =>
    rw [dispatch_posXfer m sender recipient outcome amount hmanifest]
    constructor
    · rintro ⟨effects, hok, hrecorded⟩
      cases hok
      cases hrecorded
    · exact False.elim
  | burn losing m owner outcome amount =>
    rw [dispatch_burn losing m owner outcome amount hmanifest]
    constructor
    · rintro ⟨effects, hok, hrecorded⟩
      cases hok
      cases hrecorded
    · exact False.elim

end

section Sample

mutual

/-- The native value of an encoded one. -/
def native : ScVal → Js
  | .u64 n => .bigint n
  | .i128 n => .bigint n
  | .bool b => .boolean b
  | .symbol s => .string s
  | .address s => .string s
  | .vec values => .array (natives values)

/-- The native values of encoded ones. -/
def natives : List ScVal → List Js
  | [] => []
  | value :: values => native value :: natives values

end

/-- They are made one by one. -/
theorem natives_eq_map (values : List ScVal) : natives values = values.map native := by
  induction values with
  | nil => rfl
  | cons value values ih => rw [natives, ih, List.map_cons]

/-- These native values are the library's. -/
theorem native_decodes : DecodesNatively (fun value => some (native value)) where
  u64 := fun _ => rfl
  i128 := fun _ => rfl
  bool := fun _ => rfl
  symbol := fun _ => rfl
  address := fun _ => rfl
  vec := by
    intro values elements h
    have hsome : (values.map native).map some = elements.map some := by
      rw [← h, List.map_map]
      rfl
    rw [native, natives_eq_map, List.map_injective_iff.mpr (Option.some_injective Js) hsome]

/-- An address. -/
def sampleStrkey : Strkey := ⟨String.ofList (List.replicate 56 'G'), by decide⟩

/-- A deployment of two contracts. -/
def sampleManifest : Manifest := ⟨"net", [("amm", "A"), ("conditional_tokens", "T")]⟩

/-- A purchase is recorded. -/
theorem dispatch_records_sample :
    ∃ effects, dispatch sampleManifest (fun _ => none) (fun _ => some 1)
      (recordEvent ⟨"net", 10, 5⟩ (fun value => some (native value)) "A" none
        ((ContractEvent.swap .buy 1 sampleStrkey true 100 150).raw "id" 7 "tx")) = .ok effects ∧
      (ContractEvent.swap .buy 1 sampleStrkey true 100 150).RecordedIn 1 effects := by
  have hmarket : (ContractEvent.swap .buy 1 sampleStrkey true 100 150).InMarket
      (fun _ => some 1) 1 := rfl
  exact (dispatch_records_iff native_decodes _ rfl hmarket).mpr ⟨1, rfl, by decide⟩

/-- A transfer of a position reconciles none. -/
theorem not_always_dispatch_records : ¬∀ (scValToNative : ScVal → Option Js) (manifest : Manifest)
    (numberOf : String → Option ℤ) (poolMarket : ℤ → Option ℕ) (source : EventSource)
    (contractId : String) (cursor : Option String) (id txHash : String) (ledger : ℤ)
    (event : ContractEvent) (marketId : ℕ), DecodesNatively scValToNative →
    contractModuleFor manifest contractId = some event.module →
    event.InMarket poolMarket marketId →
    ∃ effects, dispatch manifest numberOf poolMarket (recordEvent source scValToNative contractId
      cursor (event.raw id ledger txHash)) = .ok effects ∧ event.RecordedIn marketId effects := by
  intro hall
  obtain ⟨effects, hok, hrecorded⟩ := hall (fun value => some (native value)) sampleManifest
    (fun _ => none) (fun _ => some 1) ⟨"net", 10, 5⟩ "T" none "id" "tx" 7
    (.posXfer 1 sampleStrkey sampleStrkey .yes 10) 1 native_decodes rfl rfl
  rw [recordEvent_raw native_decodes, dispatch_posXfer 1 _ _ _ _ rfl] at hok
  cases hok
  cases hrecorded

end Sample

end DikeProtocol.Services.Indexer
