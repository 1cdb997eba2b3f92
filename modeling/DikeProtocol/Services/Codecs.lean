import Mathlib.Data.List.Basic
import Mathlib.Data.Int.Notation

/-!
# Decoding of contract events

The indexer turns the topics and the payload of a raw event into values of its
own language, one by one. A value that does not decode becomes `undefined`, and
the first topic, as a string, names the event.
-/

namespace DikeProtocol.Services

/-- A value of the indexer's language. Numbers are the integers among its
numbers; decoding makes no others. -/
inductive Js where
  | undefined
  | null
  | boolean (b : Bool)
  | number (n : ℤ)
  | bigint (n : ℤ)
  | string (s : String)
  | array (values : List Js)
  | object (entries : List (String × Js))

namespace Js

mutual

/-- The string a value converts to. -/
def text : Js → String
  | undefined => "undefined"
  | null => "null"
  | boolean b => if b then "true" else "false"
  | number n => toString n
  | bigint n => toString n
  | string s => s
  | array values => ",".intercalate (texts values)
  | object _ => "[object Object]"

/-- The strings of an array's elements, where missing ones are empty. -/
def texts : List Js → List String
  | [] => []
  | undefined :: values => "" :: texts values
  | null :: values => "" :: texts values
  | value :: values => text value :: texts values

end

/-- Neither `undefined` nor `null`. -/
def isPresent : Js → Bool
  | undefined => false
  | null => false
  | _ => true

end Js

/-- A contract event as the RPC returns it, its values still encoded. -/
structure RawEvent (V : Type*) where
  id : String
  ledger : ℤ
  txHash : String
  topic : List V
  value : V

/-- What decoding adds to an event. -/
structure DecodedEvent where
  topicValues : List Js
  payload : Js
  topic : String

section

variable {V : Type*}

/-- Decoding of one value, where a failure is an `undefined`. -/
def scValToNativeSafe (scValToNative : V → Option Js) (value : V) : Js :=
  (scValToNative value).getD .undefined

/-- Decode the topics and the payload of an event. -/
def decodeRawEvent (scValToNative : V → Option Js) (event : RawEvent V) : DecodedEvent :=
  let topicValues := event.topic.map (scValToNativeSafe scValToNative)
  let payload := scValToNativeSafe scValToNative event.value
  let first := topicValues.getD 0 .undefined
  { topicValues
    payload
    topic := if first.isPresent then first.text else "unknown" }

end

end DikeProtocol.Services
