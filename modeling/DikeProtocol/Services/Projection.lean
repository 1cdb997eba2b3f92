import DikeProtocol.Services.Dispatcher
import DikeProtocol.Services.Decoding
import DikeProtocol.Trading.Events

/-!
# From the chain to the rows

Handling an event reads the contracts as they are by then, and writes what it
read over the rows of pools and of users' positions. An event that is handled
leaves each balance and the pool it names as the contracts have them.
-/

namespace DikeProtocol.Services.Indexer

open Lib
open Trading (ChainEvent)

/-- What the indexer is set up with: the contracts it follows, the texts of addresses, and a
decoder that gives the outcomes of payloads. -/
structure Projector where
  manifest : Manifest
  numberOf : String → Option ℤ
  amm : String
  tokens : String
  amm_module : contractModuleFor manifest amm = some "amm"
  tokens_module : contractModuleFor manifest tokens = some "conditional_tokens"
  text : Address → String
  parse : String → Option Address
  text_ne : ∀ a, text a ≠ ""
  parse_text : ∀ a, parse (text a) = some a
  outcome : Outcome → Js
  outcome_value : ∀ o, outcomeValue (outcome o) = some o

/-- The name of an event. -/
def chainTopic : ChainEvent → String
  | .split _ _ _ => "split"
  | .merge _ _ _ => "merge"
  | .posXfer _ _ _ _ _ => "pos_xfer"
  | .posFxfer _ _ _ _ _ => "pos_fxfer"
  | .burn _ _ _ _ => "burn"
  | .losebrn _ _ _ _ => "losebrn"
  | .pool _ _ => "pool"
  | .seed _ _ _ => "seed"
  | .lpAdd _ _ _ _ => "lp_add"
  | .lpRm _ _ _ _ _ => "lp_rm"
  | .buy _ _ _ _ _ => "buy"
  | .sell _ _ _ _ _ => "sell"
  | .liquidate _ _ _ _ _ _ => "liquidate"

namespace Projector

variable (P : Projector)

/-- The identifier of the contract that publishes an event. -/
def publisher (event : ChainEvent) : String :=
  match event.changedPool with
  | some _ => P.amm
  | none => P.tokens

/-- The topics after the name, decoded. -/
def topics : ChainEvent → List Js
  | .split m user _ => [.bigint m, .string (P.text user)]
  | .merge m user _ => [.bigint m, .string (P.text user)]
  | .posXfer m sender recipient _ _ =>
    [.bigint m, .string (P.text sender), .string (P.text recipient)]
  | .posFxfer m sender recipient _ _ =>
    [.bigint m, .string (P.text sender), .string (P.text recipient)]
  | .burn m owner _ _ => [.bigint m, .string (P.text owner)]
  | .losebrn m owner _ _ => [.bigint m, .string (P.text owner)]
  | .pool m _ => [.bigint m]
  | .seed poolId lp _ => [.bigint poolId, .string (P.text lp)]
  | .lpAdd poolId lp _ _ => [.bigint poolId, .string (P.text lp)]
  | .lpRm poolId lp _ _ _ => [.bigint poolId, .string (P.text lp)]
  | .buy poolId trader _ _ _ => [.bigint poolId, .string (P.text trader)]
  | .sell poolId trader _ _ _ => [.bigint poolId, .string (P.text trader)]
  | .liquidate poolId user _ _ _ _ => [.bigint poolId, .string (P.text user)]

/-- The payload, decoded so that it carries the event's fields. -/
def payload : ChainEvent → Js
  | .split _ _ amount => .bigint amount
  | .merge _ _ amount => .bigint amount
  | .posXfer _ _ _ o amount => .array [P.outcome o, .bigint amount]
  | .posFxfer _ _ _ o amount => .array [P.outcome o, .bigint amount]
  | .burn _ _ o amount => .array [P.outcome o, .bigint amount]
  | .losebrn _ _ o amount => .array [P.outcome o, .bigint amount]
  | .pool _ poolId => .bigint poolId
  | .seed _ _ amount => .bigint amount
  | .lpAdd _ _ amount shares => .array [.bigint amount, .bigint shares]
  | .lpRm _ _ shares yesOut noOut => .array [.bigint shares, .bigint yesOut, .bigint noOut]
  | .buy _ _ yes amountIn amountOut => .array [.boolean yes, .bigint amountIn, .bigint amountOut]
  | .sell _ _ yes amountIn amountOut => .array [.boolean yes, .bigint amountIn, .bigint amountOut]
  | .liquidate _ _ liquidator yes tokensSold proceeds =>
    .array [.string (P.text liquidator), .boolean yes, .bigint tokensSold, .bigint proceeds]

/-- The record of an event, in a frame of the identifiers the RPC adds. -/
def record {V : Type*} (frame : EventRecord V) (event : ChainEvent) : EventRecord V :=
  { frame with
    contractId := P.publisher event
    topic := chainTopic event
    topicValues := .string (chainTopic event) :: P.topics event
    payload := P.payload event }

end Projector

/-- An identifier that is a number of the indexer. -/
def ExactId (n : ℕ) : Prop := toDouble n = n

instance (n : ℕ) : Decidable (ExactId n) := inferInstanceAs (Decidable (_ = _))

/-- The events that a handler takes, with identifiers that stay what they are. -/
def Handled : ChainEvent → Prop
  | .posFxfer _ _ _ _ _ => False
  | .liquidate _ _ _ _ _ _ => False
  | event => (∀ k ∈ event.positions, ExactId k.1) ∧ ∀ p, event.changedPool = some p → ExactId p

/-- A handled event's identifiers are exact. -/
theorem Handled.exact {event : ChainEvent} (h : Handled event) :
    (∀ k ∈ event.positions, ExactId k.1) ∧ ∀ p, event.changedPool = some p → ExactId p := by
  cases event with
  | posFxfer => exact h.elim
  | liquidate => exact h.elim
  | _ => exact h

/-- An exact identifier is its number. -/
theorem ExactId.number {n : ℕ} (h : ExactId n) : numberOfBigint n = n := by
  rw [numberOfBigint_natCast, h]

section Dispatch

variable {P : Projector} {V : Type*} {frame : EventRecord V} {poolMarket : ℤ → Option ℕ}
  {effects : List Effect}

/-- The element at a position of an array with something there. -/
theorem valueAt_string {values : List Js} {index : ℕ} {s : String}
    (h : values[index]? = some (.string s)) : valueAt values index = some (.string s) := by
  unfold valueAt
  rw [h]
  rfl

/-- A text among the topics is the first string there. -/
theorem firstString_text {values : List Js} {payload : Js} {a : Address} {index : ℕ}
    {rest : List ℕ} {keys : List String} {indexes : List ℕ}
    (h : values[index]? = some (.string (P.text a))) :
    firstString values payload (index :: rest) keys indexes = some (P.text a) := by
  unfold firstString
  rw [List.findSome?_cons, valueAt_string h]
  simp only [Option.bind_some, stringValue, if_neg (P.text_ne a), Option.some_or]

/-- A decoded outcome is there. -/
theorem outcome_isPresent (o : Outcome) : (P.outcome o).isPresent = true := by
  have hvalue := P.outcome_value o
  cases houtcome : P.outcome o with
  | undefined =>
    rw [houtcome] at hvalue
    cases hvalue
  | null =>
    rw [houtcome] at hvalue
    cases hvalue
  | _ => rfl

/-- The outcome in front of a payload's amount. -/
theorem firstOutcome_payload {values : List Js} {o : Outcome} {amount : Js} {keys : List String} :
    firstOutcome values (.array [P.outcome o, amount]) [] keys [0] = some o := by
  unfold firstOutcome recordValue indexedValue
  simp only [List.findSome?_nil, List.findSome?_cons, valueAt, List.getElem?_cons_zero,
    Option.filter_some, outcome_isPresent, if_true, Option.none_or, Option.bind_some,
    P.outcome_value]

/-- The number among the topics. -/
theorem numericTopic_record (frame : EventRecord V) (event : ChainEvent) {n : ℕ}
    {rest : List Js} (hn : ExactId n) (htopics : P.topics event = .bigint n :: rest) :
    numericTopic P.numberOf (P.record frame event) 1 = some (n : ℤ) := by
  have hdecoded : numericTopic P.numberOf (P.record frame event) 1 = some (numberOfBigint n) := by
    unfold numericTopic Projector.record
    dsimp only
    rw [htopics]
    rfl
  rw [hdecoded, hn.number]

/-- An event of the tokens goes to their handler. -/
theorem dispatch_tokens {event : ChainEvent} (hpool : event.changedPool = none) :
    dispatch P.manifest P.numberOf poolMarket (P.record frame event) =
      .ok (dispatchConditionalTokens P.numberOf (P.record frame event)) := by
  unfold dispatch
  have hcontract : (P.record frame event).contractId = P.tokens := by
    unfold Projector.record Projector.publisher
    rw [hpool]
  rw [hcontract, P.tokens_module]
  rfl

/-- An event of the market maker goes to its handler. -/
theorem dispatch_amm {event : ChainEvent} {p : ℕ} (hpool : event.changedPool = some p) :
    dispatch P.manifest P.numberOf poolMarket (P.record frame event) =
      dispatchAmm P.manifest P.numberOf poolMarket (P.record frame event) := by
  unfold dispatch
  have hcontract : (P.record frame event).contractId = P.amm := by
    unfold Projector.record Projector.publisher
    rw [hpool]
  rw [hcontract, P.amm_module]
  rfl

/-- The handler of split and merged sets. -/
theorem dispatch_sets {event : ChainEvent} {m : MarketId} {user : Address} (hm : ExactId m)
    (hname : chainTopic event = "split" ∨ chainTopic event = "merge")
    (htopics : P.topics event = [.bigint m, .string (P.text user)]) :
    dispatchConditionalTokens P.numberOf (P.record frame event) =
      [.reconcileUserPosition m (P.text user) [.yes, .no]] := by
  have hnumber := numericTopic_record frame event hm htopics
  have howner : firstString (P.record frame event).topicValues (P.record frame event).payload [2]
      ["user", "owner", "to"] [] = some (P.text user) :=
    firstString_text (by unfold Projector.record; dsimp only; rw [htopics]; rfl)
  have htopic : (P.record frame event).topic = chainTopic event := rfl
  unfold dispatchConditionalTokens
  dsimp only
  rw [hnumber, howner, htopic]
  rcases hname with hname | hname <;> rw [hname] <;> rfl

/-- The handler of transfers. -/
theorem dispatch_posXfer_record {m : MarketId} {a b : Address} {o : Outcome} {x : ℤ}
    (hm : ExactId m) :
    dispatchConditionalTokens P.numberOf (P.record frame (.posXfer m a b o x)) =
      [.reconcileUserPosition m (P.text a) [o], .reconcileUserPosition m (P.text b) [o]] := by
  have hnumber := numericTopic_record (P := P) frame (.posXfer m a b o x) hm rfl
  have hsender : firstString (P.record frame (.posXfer m a b o x)).topicValues
      (P.record frame (.posXfer m a b o x)).payload [2] ["from"] [] = some (P.text a) :=
    firstString_text rfl
  have hrecipient : firstString (P.record frame (.posXfer m a b o x)).topicValues
      (P.record frame (.posXfer m a b o x)).payload [3] ["to"] [] = some (P.text b) :=
    firstString_text rfl
  have houtcome : firstOutcome (P.record frame (.posXfer m a b o x)).topicValues
      (P.record frame (.posXfer m a b o x)).payload [] ["outcome"] [0] = some o :=
    firstOutcome_payload
  unfold dispatchConditionalTokens
  dsimp only
  rw [hnumber, hsender, hrecipient, houtcome]
  rfl

/-- The handler of burns. -/
theorem dispatch_burn_record {event : ChainEvent} {m : MarketId} {a : Address} {o : Outcome} {x : ℤ}
    (hm : ExactId m) (hname : chainTopic event = "burn" ∨ chainTopic event = "losebrn")
    (htopics : P.topics event = [.bigint m, .string (P.text a)])
    (hpayload : P.payload event = .array [P.outcome o, .bigint x]) :
    dispatchConditionalTokens P.numberOf (P.record frame event) =
      [.reconcileUserPosition m (P.text a) [o]] := by
  have hnumber := numericTopic_record frame event hm htopics
  have howner : firstString (P.record frame event).topicValues (P.record frame event).payload [2]
      ["owner", "user", "from"] [] = some (P.text a) :=
    firstString_text (by unfold Projector.record; dsimp only; rw [htopics]; rfl)
  have houtcome : firstOutcome (P.record frame event).topicValues (P.record frame event).payload []
      ["outcome"] [0] = some o := by
    unfold Projector.record
    dsimp only
    rw [hpayload]
    exact firstOutcome_payload
  have htopic : (P.record frame event).topic = chainTopic event := rfl
  unfold dispatchConditionalTokens
  dsimp only
  rw [hnumber, howner, houtcome, htopic]
  rcases hname with hname | hname <;> rw [hname] <;> rfl

/-- The effects have a position read. -/
def ReadsPosition (effects : List Effect) (m : ℤ) (owner : String) (o : Outcome) : Prop :=
  ∃ os, o ∈ os ∧ .reconcileUserPosition m owner os ∈ effects

/-- Split and merged sets have both outcomes of their owner read. -/
theorem readsPosition_sets {event : ChainEvent} {i m : MarketId} {user a : Address} {o : Outcome}
    (hm : ExactId m) (hname : chainTopic event = "split" ∨ chainTopic event = "merge")
    (htopics : P.topics event = [.bigint i, .string (P.text user)])
    (hpositions : event.positions = [(i, user, .yes), (i, user, .no)])
    (hk : (m, a, o) ∈ event.positions) :
    ReadsPosition (dispatchConditionalTokens P.numberOf (P.record frame event)) m (P.text a) o := by
  rw [hpositions] at hk
  simp only [List.mem_cons, List.not_mem_nil, or_false] at hk
  rcases hk with hk | hk <;> cases hk <;> rw [dispatch_sets hm hname htopics]
  · exact ⟨_, List.mem_cons_self, List.mem_singleton_self _⟩
  · exact ⟨_, List.mem_cons_of_mem _ List.mem_cons_self, List.mem_singleton_self _⟩

/-- A handled event has every balance read that it names. -/
theorem Handled.readsPosition {event : ChainEvent} (h : Handled event)
    (heffects : dispatch P.manifest P.numberOf poolMarket (P.record frame event) = .ok effects)
    {m : MarketId} {a : Address} {o : Outcome} (hk : (m, a, o) ∈ event.positions) :
    ReadsPosition effects m (P.text a) o := by
  have hm : ExactId m := h.exact.1 _ hk
  have hnone : event.changedPool = none := by
    cases event <;> first | rfl | cases hk
  rw [dispatch_tokens hnone] at heffects
  obtain rfl := Except.ok.inj heffects
  cases event with
  | split i user x =>
    exact readsPosition_sets hm (Or.inl rfl) rfl rfl hk
  | merge i user x =>
    exact readsPosition_sets hm (Or.inr rfl) rfl rfl hk
  | posXfer i sender recipient o' x =>
    simp only [ChainEvent.positions, List.mem_cons, List.not_mem_nil, or_false] at hk
    rcases hk with hk | hk <;> cases hk <;> rw [dispatch_posXfer_record hm]
    · exact ⟨_, List.mem_singleton_self _, List.mem_cons_self⟩
    · exact ⟨_, List.mem_singleton_self _, List.mem_cons_of_mem _ List.mem_cons_self⟩
  | burn i owner o' x =>
    cases List.mem_singleton.mp hk
    rw [dispatch_burn_record hm (Or.inl rfl) rfl rfl]
    exact ⟨_, List.mem_singleton_self _, List.mem_singleton_self _⟩
  | losebrn i owner o' x =>
    cases List.mem_singleton.mp hk
    rw [dispatch_burn_record hm (Or.inr rfl) rfl rfl]
    exact ⟨_, List.mem_singleton_self _, List.mem_singleton_self _⟩
  | posFxfer => exact h.elim
  | _ => cases hk

/-- A handled event has the pool read that it names. -/
theorem Handled.readsPool {event : ChainEvent} (h : Handled event)
    (heffects : dispatch P.manifest P.numberOf poolMarket (P.record frame event) = .ok effects)
    {p : ℕ} (hp : event.changedPool = some p) : .reconcilePool (p : ℤ) ∈ effects := by
  have hexact : ExactId p := h.exact.2 p hp
  rw [dispatch_amm hp] at heffects
  have htopic : (P.record frame event).topic = chainTopic event := rfl
  have hread : ∀ {rest}, P.topics event = .bigint p :: rest → (chainTopic event = "seed" ∨
      chainTopic event = "lp_add" ∨ chainTopic event = "lp_rm" ∨ chainTopic event = "buy" ∨
      chainTopic event = "sell") → .reconcilePool (p : ℤ) ∈ effects := by
    intro rest htopics hname
    have hnumber := numericTopic_record frame event hexact htopics
    unfold dispatchAmm at heffects
    rw [htopic, hnumber] at heffects
    obtain hname | hname | hname | hname | hname := hname <;> rw [hname] at heffects <;>
      dsimp only at heffects <;> cases hmarket : poolMarket p <;> rw [hmarket] at heffects <;>
      cases heffects <;> exact List.mem_cons_self
  cases event with
  | pool m poolId =>
    cases hp
    have hnumber : numericValue P.numberOf (P.record frame (.pool m p)).payload = some (p : ℤ) := by
      rw [← hexact.number]
      rfl
    unfold dispatchAmm at heffects
    rw [hnumber] at heffects
    obtain rfl := Except.ok.inj heffects
    exact List.mem_append_right _ List.mem_cons_self
  | seed poolId lp x =>
    cases hp
    exact hread rfl (by simp [chainTopic])
  | lpAdd poolId lp x shares =>
    cases hp
    exact hread rfl (by simp [chainTopic])
  | lpRm poolId lp shares yesOut noOut =>
    cases hp
    exact hread rfl (by simp [chainTopic])
  | buy poolId trader yes x y =>
    cases hp
    exact hread rfl (by simp [chainTopic])
  | sell poolId trader yes x y =>
    cases hp
    exact hread rfl (by simp [chainTopic])
  | liquidate => exact h.elim
  | _ => cases hp

end Dispatch

end DikeProtocol.Services.Indexer
