import DikeProtocol.Services.Replay

/-!
# Admission to sponsorship

What a request passes before the service pays for it: the shape of its body, the
transaction that is decoded from it, the signature on that transaction and the
contract call it makes. The library that decodes transactions and checks
signatures is a parameter; whatever it answers, the service reserves and pays
only for requests that passed every check.
-/

namespace DikeProtocol.Services.Sponsorship

open Lib

/-- A refusal as it is thrown. -/
structure SponsorshipError where
  code : SponsorshipCode
  message : String
  retryable : Bool := false
  deriving DecidableEq

/-- What a client is told about an error; any other error is the submission's. -/
def publicSponsorshipError : Option SponsorshipError → SponsorshipError
  | some error => error
  | none =>
    { code := .rpcRejected, message := "Sponsored transaction could not be submitted."
      retryable := true }

/-- The status of the answer to a refused request. -/
def sponsorshipHttpStatus : SponsorshipCode → ℕ
  | .sponsorshipDisabled => 503
  | .quotaExceeded | .budgetExceeded => 429
  | .transactionReplay => 409
  | .rpcRejected => 502
  | .confirmationTimeout => 504
  | .transactionFailed => 422
  | _ => 400

/-- A field of a body. -/
inductive BodyField where
  | string (value : String)
  | other
  deriving DecidableEq

/-- A decoded body: an object with its fields, or something else. -/
inductive Body where
  | object (fields : List (String × BodyField))
  | other
  deriving DecidableEq

/-- The body that asks for a transaction. -/
def requestBody (signedTransactionXdr : String) : Body :=
  .object [("signedTransactionXdr", .string signedTransactionXdr)]

/-- The most bytes a transaction may have. -/
def maxXdrBytes : ℕ := 150000

/-- The most characters its encoding may have. -/
def maxXdrBase64Length : ℕ := (maxXdrBytes + 2) / 3 * 4

/-- A character of the alphabet, the padding aside. -/
def isBase64Char (c : Char) : Bool := c.isAlphanum || c == '+' || c == '/'

/-- Groups of four characters, the last one padded or not. -/
def isBase64Groups : List Char → Bool
  | [] => true
  | [a, b, '=', '='] => isBase64Char a && isBase64Char b
  | [a, b, c, '='] => isBase64Char a && isBase64Char b && isBase64Char c
  | a :: b :: c :: d :: rest =>
    isBase64Char a && isBase64Char b && isBase64Char c && isBase64Char d && isBase64Groups rest
  | _ => false

/-- Whether a text is base64. Only texts of the alphabet are, whose length is the same however
characters are counted. -/
def isBase64 (value : String) : Bool :=
  value.length % 4 == 0 && isBase64Groups value.toList

/-- The bytes that a base64 text stands for. -/
def decodedLength (value : String) : ℕ :=
  value.length / 4 * 3 - value.toList.count '='

/-- Read the transaction out of a body, which is an object with that one field. -/
def parseSponsorshipRequest (body : Body) : Except SponsorshipError String :=
  match body with
  | .object [(key, .string value)] => do
    refuse (¬(key = "signedTransactionXdr" ∧ 1 ≤ value.length ∧
        value.length ≤ maxXdrBase64Length ∧ isBase64 value = true))
      { code := .malformedXdr, message := "signedTransactionXdr must be base64 XDR." }
    refuse (decodedLength value = 0 ∨ maxXdrBytes < decodedLength value)
      { code := .malformedXdr, message := "signedTransactionXdr exceeds the size limit." }
    return value
  | _ =>
    .error { code := .malformedXdr, message := "signedTransactionXdr must be base64 XDR." }

/-- An address of the network's contracts, or another one. -/
inductive ScAddress where
  | contract (contractId : List UInt8)
  | other
  deriving DecidableEq

/-- What a host function operation calls. -/
inductive HostFunction where
  | invokeContract (contractAddress : ScAddress) (functionName : String)
  | other
  deriving DecidableEq

/-- An operation of a transaction. -/
inductive Operation where
  | invokeHostFunction (func : HostFunction)
  | other
  deriving DecidableEq

/-- A signature and the hint at its key. -/
structure DecoratedSignature where
  hint : List UInt8
  signature : List UInt8
  deriving DecidableEq

/-- What is read of a decoded transaction. The resource fee is there when its Soroban data is
assembled. -/
structure Transaction where
  source : String
  fee : ℤ
  hash : List UInt8
  signatures : List DecoratedSignature
  maxTime : Option ℕ
  operations : List Operation
  resourceFee : Option ℤ
  deriving DecidableEq

/-- What a text decodes to. -/
inductive Envelope where
  | transaction (transaction : Transaction)
  | feeBump
  deriving DecidableEq

/-- The network's library. Where it may throw, no answer stands for that. -/
structure Sdk where
  fromXDR : String → String → Option Envelope
  isValidEd25519PublicKey : String → Bool
  decodeEd25519PublicKey : String → Option (List UInt8)
  verify : String → List UInt8 → List UInt8 → Option Bool
  encodeContract : List UInt8 → String

/-- One hexadecimal digit. -/
def hexDigit (n : ℕ) : Char := Char.ofNat (if n < 10 then 48 + n else 87 + n)

/-- Bytes in hexadecimal. -/
def hexOf (bytes : List UInt8) : String :=
  String.ofList (bytes.flatMap fun b => [hexDigit (b.toNat / 16), hexDigit (b.toNat % 16)])

/-- A transaction that parsed, with the call it makes. -/
structure InnerTransaction where
  transaction : Transaction
  contractId : String
  method : String
  parsed : ParsedTransaction
  deriving DecidableEq

/-- How long a transaction may stay valid. -/
def maxValiditySeconds : ℕ := 15 * 60

/-- Parse the transaction of a request at a time. Its last valid time is a number there. -/
def parseSponsoredInnerTransaction (sdk : Sdk) (xdr networkPassphrase : String)
    (nowSeconds : ℕ) : Except SponsorshipError InnerTransaction := do
  let envelope ← orFault (sdk.fromXDR xdr networkPassphrase)
    { code := .malformedXdr, message := "Could not decode the signed transaction." }
  match envelope with
  | .feeBump =>
    .error { code := .unsupportedEnvelope, message := "Fee bumps cannot be nested." }
  | .transaction transaction =>
    refuse (sdk.isValidEd25519PublicKey transaction.source = false)
      { code := .unsupportedSource
        message := "The inner source must be a standard G account." }
    refuse (transaction.signatures = [])
      { code := .badSignature, message := "The inner transaction has no source signature." }
    let maxTime ← orFault transaction.maxTime
      { code := .expiredTransaction, message := "The signed transaction has expired." }
    refuse (toDouble maxTime ≤ nowSeconds)
      { code := .expiredTransaction, message := "The signed transaction has expired." }
    refuse (nowSeconds + maxValiditySeconds < toDouble maxTime)
      { code := .expiredTransaction
        message := "The signed transaction is valid for too long." }
    match transaction.operations with
    | [.invokeHostFunction func] =>
      match func with
      | .other =>
        .error { code := .unsupportedEnvelope
                 message := "Only contract invocations may be sponsored." }
      | .invokeContract .other _ =>
        .error { code := .disallowedContract
                 message := "The invocation must target a contract address." }
      | .invokeContract (.contract contractId) method =>
        let resourceFee ← orFault transaction.resourceFee
          { code := .unsupportedEnvelope
            message := "The Soroban transaction is not assembled." }
        refuse (resourceFee < 0 ∨ transaction.fee < resourceFee)
          { code := .feeLimitExceeded
            message := "The signed transaction has invalid fee data." }
        return {
          transaction
          contractId := sdk.encodeContract contractId
          method
          parsed := ⟨hexOf transaction.hash, transaction.source, transaction.fee, resourceFee⟩ }
    | _ =>
      .error { code := .unsupportedSource
               message := "Only one Soroban contract operation may be sponsored." }

/-- The last four bytes of a key. A start before the beginning counts from the end. -/
def hintOf (publicKey : List UInt8) : List UInt8 :=
  publicKey.drop
    (if publicKey.length < 4 then 2 * publicKey.length - 4 else publicKey.length - 4)

/-- Check the signature, which is the only one and the source's. -/
def verifyInnerSourceSignature (sdk : Sdk) (inner : InnerTransaction) :
    Except SponsorshipError Unit :=
  match inner.transaction.signatures with
  | [signature] => do
    let invalid : SponsorshipError :=
      { code := .badSignature, message := "The source signature is invalid." }
    let publicKey ← orFault (sdk.decodeEd25519PublicKey inner.parsed.source) invalid
    refuse (signature.hint ≠ hintOf publicKey)
      { code := .badSignature, message := "The source signature hint does not match." }
    let valid ← orFault
      (sdk.verify inner.parsed.source inner.transaction.hash signature.signature) invalid
    refuse (valid = false) invalid
  | _ =>
    .error { code := .badSignature, message := "Exactly one source signature is required." }

/-- The contracts of a deployment's manifest. -/
inductive ManifestContract where
  | mockUsdc
  | dikeTimelock
  | dikeGovernance
  | marketRegistry
  | conditionalTokens
  | collateralVault
  | amm
  | feeManager
  | codOracle
  | councilOfDike
  | marketFactory
  deriving DecidableEq

/-- The methods that are paid for, in the order in which the contracts are looked up. -/
def sponsoredMethods : List (ManifestContract × List String) :=
  [(.mockUsdc, []),
    (.dikeTimelock, ["execute"]),
    (.dikeGovernance, []),
    (.marketRegistry, ["close_trading"]),
    (.conditionalTokens, []),
    (.collateralVault, ["redeem_resolved", "redeem_cancelled", "sweep_protocol_fees"]),
    (.amm, ["buy_yes", "buy_no", "buy_child_yes", "buy_child_no", "sell_yes", "sell_no",
      "add_liquidity", "remove_liquidity", "claim_lp_fees"]),
    (.feeManager, []),
    (.codOracle, ["request_resolution", "propose_outcome", "dispute_outcome",
      "finalize_undisputed", "escalate_to_council"]),
    (.councilOfDike, ["commit_vote", "reveal_vote", "finalize_and_report_case", "claim_reward"]),
    (.marketFactory, ["create_market"])]

/-- Check the contract call against the manifest: the first contract with its address decides. -/
def assertAllowedContractCall (inner : InnerTransaction)
    (contracts : ManifestContract → String) : Except SponsorshipError Unit := do
  let entry ← orFault
    (sponsoredMethods.find? fun entry => contracts entry.1 == inner.contractId)
    { code := .disallowedContract, message := "The contract is not sponsored by Dike." }
  refuse (inner.method ∉ entry.2)
    { code := .disallowedMethod
      message := "The contract method is not sponsored by Dike." }

/-- The settings of the checks. -/
structure GateOptions where
  networkPassphrase : String
  contracts : ManifestContract → String

/-- The checks of `sponsor` before it quotes the fee. -/
def checkRequest (sdk : Sdk) (gate : GateOptions) (body : Body) (nowSeconds : ℕ) :
    Except SponsorshipError ParsedTransaction := do
  let xdr ← parseSponsorshipRequest body
  let inner ← parseSponsoredInnerTransaction sdk xdr gate.networkPassphrase nowSeconds
  verifyInnerSourceSignature sdk inner
  assertAllowedContractCall inner gate.contracts
  return inner.parsed

/-- A request, at a time that a date can have. -/
structure Request where
  body : Body
  ip : String
  nowSeconds : ℕ
  now_le : nowSeconds ≤ 8640000000000

/-- The service and what each call was asked. -/
structure RouteState where
  service : ServiceState
  requests : Store ℕ (Option Request)

/-- A request comes in, or a call of the service goes on. -/
inductive RouteStep where
  | request (id : ℕ) (request : Request)
  | serve (step : ServiceStep)

/-- The route in front of the service: it reads the body, and the service reads it again. -/
def routeSystem (sdk : Sdk) (gate : GateOptions) (options : ServiceOptions) :
    System RouteState RouteStep Unit where
  Init := fun s => s = ⟨⟨⟨.empty, .empty, .empty, .empty, .empty⟩, .empty⟩, .empty⟩
  step := fun s step =>
    match step with
    | .request id request =>
      match s.requests id with
      | some _ => .error ()
      | none =>
        let requests := s.requests.set id (some request)
        match parseSponsorshipRequest request.body with
        | .error _ => .ok { s with requests }
        | .ok xdr => do
          let parsed := (checkRequest sdk gate (requestBody xdr) request.nowSeconds).mapError
            SponsorshipError.code
          let service ← (serviceSystem options).step s.service (.sponsor id parsed request.ip)
          return { service, requests }
    | .serve (.sponsor _ _ _) => .error ()
    | .serve step => do
      let service ← (serviceSystem options).step s.service step
      return { s with service }

/-- A contract of the manifest and one of its sponsored methods. -/
def Sponsored (contracts : ManifestContract → String) (contractId method : String) : Prop :=
  ∃ entry ∈ sponsoredMethods, contracts entry.1 = contractId ∧ method ∈ entry.2

/-- What was checked of a request: its body is base64 and decodes to a transaction of one
account, with one signature, which is that account's, a last valid time not far off, one call of
a sponsored method and an assembled fee. -/
structure Checked (sdk : Sdk) (gate : GateOptions) (request : Request)
    (transaction : Transaction) (parsed : ParsedTransaction) : Prop where
  body : ∃ xdr, request.body = requestBody xdr ∧ isBase64 xdr = true ∧
    decodedLength xdr ≤ maxXdrBytes ∧
    sdk.fromXDR xdr gate.networkPassphrase = some (.transaction transaction)
  source : sdk.isValidEd25519PublicKey transaction.source = true
  signed : ∃ signature publicKey, transaction.signatures = [signature] ∧
    sdk.decodeEd25519PublicKey transaction.source = some publicKey ∧
    signature.hint = hintOf publicKey ∧
    sdk.verify transaction.source transaction.hash signature.signature = some true
  live : ∃ maxTime, transaction.maxTime = some maxTime ∧ request.nowSeconds < maxTime ∧
    maxTime ≤ request.nowSeconds + maxValiditySeconds
  call : ∃ contractId method,
    transaction.operations = [.invokeHostFunction (.invokeContract (.contract contractId) method)] ∧
    Sponsored gate.contracts (sdk.encodeContract contractId) method
  fee : transaction.resourceFee = some parsed.resourceFee ∧ 0 ≤ parsed.resourceFee ∧
    parsed.resourceFee ≤ transaction.fee
  parsed : parsed.hash = hexOf transaction.hash ∧ parsed.source = transaction.source ∧
    parsed.innerFee = transaction.fee

/-- An amount is the fee that the service quotes for a transaction: twice the base fee and its
resource fee, at least its own fee and at most the limit. -/
structure FeeQuoted (options : ServiceOptions) (transaction : Transaction)
    (parsed : ParsedTransaction) (amount : ℕ) : Prop where
  quoted : (amount : ℤ) = options.feePolicy.baseFeeStroops * 2 + parsed.resourceFee
  inner_le : transaction.fee ≤ amount
  le_limit : amount ≤ options.feePolicy.maxTotalFeeStroops

/-- How a call stands to its request: it was turned away with nothing reserved and nothing sent,
or its request was checked, and what it reserved and sent is the fee of that transaction. -/
inductive Answered (sdk : Sdk) (gate : GateOptions) (options : ServiceOptions)
    (request : Request) (call : Call) : Prop where
  /-- It was turned away, in a way that is the request's fault or the service's being off. -/
  | refused (code : SponsorshipCode) (phase : call.phase = .ended (.invalid code))
      (status : sponsorshipHttpStatus code = 400 ∨ sponsorshipHttpStatus code = 503)
      (reservation : call.reservation = none) (envelopes : call.envelopes = [])
  /-- It was admitted. -/
  | admitted (transaction : Transaction) (enabled : options.enabled = true)
      (checked : Checked sdk gate request transaction call.parsed)
      (reserved : ∀ reservation, call.reservation = some reservation →
        FeeQuoted options transaction call.parsed reservation.amount)
      (sent : ∀ fee ∈ call.envelopes, FeeQuoted options transaction call.parsed fee)

section Checks

variable {sdk : Sdk} {gate : GateOptions} {options : ServiceOptions}

/-- A body that is read is the body of the request for what was read. -/
theorem parseSponsorshipRequest_ok {body : Body} {xdr : String}
    (h : parseSponsorshipRequest body = .ok xdr) :
    body = requestBody xdr ∧ isBase64 xdr = true ∧ decodedLength xdr ≤ maxXdrBytes := by
  unfold parseSponsorshipRequest at h
  split at h
  · next key value =>
    simp only [bind_ok, refuse_ok, not_not, pure_ok, exists_const, not_or, not_lt] at h
    obtain ⟨⟨hkey, _, _, hbase⟩, ⟨_, hlength⟩, rfl⟩ := h
    exact ⟨by rw [hkey]; rfl, hbase, hlength⟩
  · cases h

/-- A time that is a number above the clock and not too far above it is one exactly. -/
theorem live_of_double {maxTime nowSeconds : ℕ} (hnow : nowSeconds ≤ 8640000000000)
    (hlow : ¬toDouble maxTime ≤ nowSeconds)
    (hhigh : ¬nowSeconds + maxValiditySeconds < toDouble maxTime) :
    nowSeconds < maxTime ∧ maxTime ≤ nowSeconds + maxValiditySeconds := by
  have hmax : maxValiditySeconds = 900 := rfl
  have hsmall : maxTime ≤ 2 ^ 53 := by
    by_contra hbig
    have hmono := toDouble_mono (Nat.le_of_lt (Nat.not_le.mp hbig))
    rw [toDouble_of_le le_rfl] at hmono
    omega
  rw [toDouble_of_le hsmall] at hlow hhigh
  omega

/-- What a parsed transaction went through. -/
structure Parsed (sdk : Sdk) (nowSeconds : ℕ) (inner : InnerTransaction) : Prop where
  source : sdk.isValidEd25519PublicKey inner.transaction.source = true
  live : ∃ maxTime, inner.transaction.maxTime = some maxTime ∧
    ¬toDouble maxTime ≤ nowSeconds ∧ ¬nowSeconds + maxValiditySeconds < toDouble maxTime
  call : ∃ contractId, inner.transaction.operations =
      [.invokeHostFunction (.invokeContract (.contract contractId) inner.method)] ∧
    sdk.encodeContract contractId = inner.contractId
  fee : inner.transaction.resourceFee = some inner.parsed.resourceFee ∧
    0 ≤ inner.parsed.resourceFee ∧ inner.parsed.resourceFee ≤ inner.transaction.fee
  parsed : inner.parsed.hash = hexOf inner.transaction.hash ∧
    inner.parsed.source = inner.transaction.source ∧
    inner.parsed.innerFee = inner.transaction.fee

/-- A transaction that parses is what the text decodes to, and it went through every check. -/
theorem parseSponsoredInnerTransaction_ok {xdr networkPassphrase : String} {nowSeconds : ℕ}
    {inner : InnerTransaction}
    (h : parseSponsoredInnerTransaction sdk xdr networkPassphrase nowSeconds = .ok inner) :
    sdk.fromXDR xdr networkPassphrase = some (.transaction inner.transaction) ∧
      Parsed sdk nowSeconds inner := by
  unfold parseSponsoredInnerTransaction at h
  simp only [bind_ok, orFault_ok] at h
  obtain ⟨envelope, henvelope, h⟩ := h
  cases envelope with
  | feeBump => cases h
  | transaction transaction =>
    simp only [bind_ok, orFault_ok, refuse_ok, exists_const, Bool.not_eq_false] at h
    obtain ⟨hsource, _, maxTime, hmaxTime, hlow, hhigh, h⟩ := h
    split at h
    · next func hoperations =>
      split at h
      · cases h
      · cases h
      · next contractId method =>
        simp only [bind_ok, orFault_ok, refuse_ok, exists_const, pure_ok, not_or, not_lt] at h
        obtain ⟨resourceFee, hresource, ⟨hpos, hle⟩, rfl⟩ := h
        exact ⟨henvelope, hsource, ⟨maxTime, hmaxTime, hlow, hhigh⟩,
          ⟨contractId, hoperations, rfl⟩, ⟨hresource, hpos, hle⟩, rfl, rfl, rfl⟩
    · cases h

/-- A verified transaction has one signature, its source's. -/
theorem verifyInnerSourceSignature_ok {inner : InnerTransaction} {u : Unit}
    (h : verifyInnerSourceSignature sdk inner = .ok u) :
    ∃ signature publicKey, inner.transaction.signatures = [signature] ∧
      sdk.decodeEd25519PublicKey inner.parsed.source = some publicKey ∧
      signature.hint = hintOf publicKey ∧
      sdk.verify inner.parsed.source inner.transaction.hash signature.signature = some true := by
  unfold verifyInnerSourceSignature at h
  split at h
  · next signature hsignatures =>
    simp only [bind_ok, orFault_ok, refuse_ok, exists_const, ne_eq, not_not,
      Bool.not_eq_false] at h
    obtain ⟨publicKey, hkey, hhint, valid, hverify, hvalid⟩ := h
    exact ⟨signature, publicKey, hsignatures, hkey, hhint, by rw [hverify, hvalid]⟩
  · cases h

/-- An allowed call is of a sponsored method. -/
theorem assertAllowedContractCall_ok {inner : InnerTransaction}
    {contracts : ManifestContract → String} {u : Unit}
    (h : assertAllowedContractCall inner contracts = .ok u) :
    Sponsored contracts inner.contractId inner.method := by
  unfold assertAllowedContractCall at h
  simp only [bind_ok, orFault_ok, refuse_ok, not_not] at h
  obtain ⟨entry, hfind, hmethod⟩ := h
  have hcontract := List.find?_some hfind
  exact ⟨entry, List.mem_of_find?_eq_some hfind, beq_iff_eq.mp hcontract, hmethod⟩

/-- An admitted request was checked. -/
theorem checkRequest_ok {request : Request} {parsed : ParsedTransaction}
    (h : checkRequest sdk gate request.body request.nowSeconds = .ok parsed) :
    ∃ transaction, Checked sdk gate request transaction parsed := by
  unfold checkRequest at h
  simp only [bind_ok, pure_ok] at h
  obtain ⟨xdr, hbody, inner, hinner, _, hsigned, _, hallowed, rfl⟩ := h
  obtain ⟨hbody, hbase, hlength⟩ := parseSponsorshipRequest_ok hbody
  obtain ⟨hdecoded, hparsed⟩ := parseSponsoredInnerTransaction_ok hinner
  obtain ⟨maxTime, hmaxTime, hlow, hhigh⟩ := hparsed.live
  obtain ⟨contractId, hoperations, hcontract⟩ := hparsed.call
  obtain ⟨signature, publicKey, hsigned⟩ := verifyInnerSourceSignature_ok hsigned
  rw [hparsed.parsed.2.1] at hsigned
  exact ⟨inner.transaction, {
    body := ⟨xdr, hbody, hbase, hlength, hdecoded⟩
    source := hparsed.source
    signed := ⟨signature, publicKey, hsigned⟩
    live := ⟨maxTime, hmaxTime, live_of_double request.now_le hlow hhigh⟩
    call := ⟨contractId, inner.method, hoperations,
      hcontract ▸ assertAllowedContractCall_ok hallowed⟩
    fee := hparsed.fee
    parsed := hparsed.parsed }⟩

/-- A refusal that is the request's fault and that trying again does not mend. -/
def BadRequest (error : SponsorshipError) : Prop :=
  sponsorshipHttpStatus error.code = 400 ∧ error.retryable = false

/-- A check refuses bad requests only. -/
def Checks {α : Type} (x : Except SponsorshipError α) : Prop :=
  ∀ error, x = .error error → BadRequest error

/-- Checks in turn refuse bad requests only. -/
theorem Checks.bind {α β : Type} {x : Except SponsorshipError α}
    {f : α → Except SponsorshipError β} (hx : Checks x) (hf : ∀ a, Checks (f a)) :
    Checks (x >>= f) := by
  intro error h
  obtain h | ⟨a, _, h⟩ := bind_error.mp h
  · exact hx error h
  · exact hf a error h

/-- A result is no refusal. -/
theorem checks_pure {α : Type} (a : α) : Checks (pure a) := fun _ h => by cases h

/-- A refusal is of its own error. -/
theorem checks_error {α : Type} {error : SponsorshipError} (h : BadRequest error) :
    Checks (.error error : Except SponsorshipError α) := fun _ he => by cases he; exact h

/-- So is a condition's. -/
theorem checks_refuse {c : Prop} [Decidable c] {error : SponsorshipError}
    (h : BadRequest error) : Checks (refuse c error) := by
  unfold refuse
  split
  · exact checks_error h
  · exact checks_pure ()

/-- So is that of what is missing. -/
theorem checks_orFault {α : Type} {x : Option α} {error : SponsorshipError}
    (h : BadRequest error) : Checks (orFault x error) := by
  intro e he
  obtain ⟨_, rfl⟩ := orFault_error.mp he
  exact h

/-- Reading a body refuses bad requests only. -/
theorem parseSponsorshipRequest_checks (body : Body) : Checks (parseSponsorshipRequest body) := by
  unfold parseSponsorshipRequest
  split
  · exact (checks_refuse ⟨rfl, rfl⟩).bind fun _ =>
      (checks_refuse ⟨rfl, rfl⟩).bind fun _ => checks_pure _
  · exact checks_error ⟨rfl, rfl⟩

/-- Parsing a transaction refuses bad requests only. -/
theorem parseSponsoredInnerTransaction_checks (xdr networkPassphrase : String)
    (nowSeconds : ℕ) :
    Checks (parseSponsoredInnerTransaction sdk xdr networkPassphrase nowSeconds) := by
  unfold parseSponsoredInnerTransaction
  refine (checks_orFault ⟨rfl, rfl⟩).bind fun envelope => ?_
  cases envelope with
  | feeBump => exact checks_error ⟨rfl, rfl⟩
  | transaction transaction =>
    refine (checks_refuse ⟨rfl, rfl⟩).bind fun _ => (checks_refuse ⟨rfl, rfl⟩).bind fun _ =>
      (checks_orFault ⟨rfl, rfl⟩).bind fun _ => (checks_refuse ⟨rfl, rfl⟩).bind fun _ =>
      (checks_refuse ⟨rfl, rfl⟩).bind fun _ => ?_
    split
    · split
      · exact checks_error ⟨rfl, rfl⟩
      · exact checks_error ⟨rfl, rfl⟩
      · exact (checks_orFault ⟨rfl, rfl⟩).bind fun _ =>
          (checks_refuse ⟨rfl, rfl⟩).bind fun _ => checks_pure _
    · exact checks_error ⟨rfl, rfl⟩

/-- Verifying a signature refuses bad requests only. -/
theorem verifyInnerSourceSignature_checks (inner : InnerTransaction) :
    Checks (verifyInnerSourceSignature sdk inner) := by
  unfold verifyInnerSourceSignature
  split
  · exact (checks_orFault ⟨rfl, rfl⟩).bind fun _ => (checks_refuse ⟨rfl, rfl⟩).bind fun _ =>
      (checks_orFault ⟨rfl, rfl⟩).bind fun _ => checks_refuse ⟨rfl, rfl⟩
  · exact checks_error ⟨rfl, rfl⟩

/-- All checks together refuse bad requests only. -/
theorem checkRequest_checks (body : Body) (nowSeconds : ℕ) :
    Checks (checkRequest sdk gate body nowSeconds) :=
  (parseSponsorshipRequest_checks body).bind fun _ =>
    (parseSponsoredInnerTransaction_checks _ _ _).bind fun inner =>
    (verifyInnerSourceSignature_checks inner).bind fun _ =>
    ((checks_orFault ⟨rfl, rfl⟩).bind fun _ => checks_refuse ⟨rfl, rfl⟩ :
      Checks (assertAllowedContractCall inner gate.contracts)).bind fun _ => checks_pure _

/-- The only way in which a quote fails. -/
theorem quoteSponsoredFee_error {parsed : ParsedTransaction} {policy : FeePolicy}
    {code : SponsorshipCode} (h : quoteSponsoredFee parsed policy = .error code) :
    code = .feeLimitExceeded := by
  unfold quoteSponsoredFee at h
  dsimp only at h
  split_ifs at h <;> cases h <;> rfl

/-- A quote, and the limits it keeps. -/
theorem quoteSponsoredFee_ok {parsed : ParsedTransaction} {policy : FeePolicy}
    {quote : FeeQuote} (h : quoteSponsoredFee parsed policy = .ok quote) :
    quote.outerFee = policy.baseFeeStroops * 2 + parsed.resourceFee ∧
      parsed.innerFee ≤ quote.outerFee ∧ quote.outerFee ≤ policy.maxTotalFeeStroops := by
  unfold quoteSponsoredFee at h
  dsimp only at h
  split_ifs at h with _ _ hlimit
  cases h
  rw [not_or, not_lt, not_lt] at hlimit
  exact ⟨rfl, hlimit⟩

end Checks

/-- How a call stands to the checks of its request. -/
inductive Asked (sdk : Sdk) (gate : GateOptions) (options : ServiceOptions)
    (request : Request) (call : Call) : Prop where
  | refused (code : SponsorshipCode) (phase : call.phase = .ended (.invalid code))
      (status : sponsorshipHttpStatus code = 400 ∨ sponsorshipHttpStatus code = 503)
      (reservation : call.reservation = none) (envelopes : call.envelopes = [])
  | admitted (enabled : options.enabled = true)
      (passed : checkRequest sdk gate request.body request.nowSeconds = .ok call.parsed)
      (valid : ∀ code, call.phase ≠ .ended (.invalid code))

/-- What holds in every run of the route. -/
structure RouteInvariant (sdk : Sdk) (gate : GateOptions) (options : ServiceOptions)
    (s : RouteState) : Prop where
  service : (serviceSystem options).Reachable s.service
  asked : ∀ id call, s.service.calls id = some call → ∃ request, s.requests id = some request ∧
    Asked sdk gate options request call

section Runs

variable {sdk : Sdk} {gate : GateOptions} {options : ServiceOptions} {s s' : RouteState}

/-- A new call was turned away by a check, or it was admitted. -/
theorem newCall_asked (request : Request) :
    Asked sdk gate options request (newCall options
      ((checkRequest sdk gate request.body request.nowSeconds).mapError SponsorshipError.code)
      request.ip) := by
  unfold newCall
  dsimp only
  split
  · exact .refused .sponsorshipDisabled rfl (.inr rfl) rfl rfl
  · next henabled =>
    cases hcheck : checkRequest sdk gate request.body request.nowSeconds with
    | error e => exact .refused e.code rfl (.inl (checkRequest_checks _ _ e hcheck).1) rfl rfl
    | ok parsed =>
      dsimp only [Except.mapError]
      split
      · next code hquote =>
        exact .refused code rfl (.inl (by rw [quoteSponsoredFee_error hquote]; rfl)) rfl rfl
      · exact .admitted (by simpa using henabled) hcheck (fun _ he => by cases he)

/-- A call that ended does nothing more. -/
theorem stepCall_ended {redis redis' : RedisState} {id : ℕ} {call call' : Call}
    {step : ServiceStep} {outcome : CallOutcome} (hphase : call.phase = .ended outcome)
    (h : stepCall options redis id call step = some (redis', call')) : False := by
  cases step <;> simp only [stepCall, runCommand, hphase, reduceCtorEq] at h

/-- A failure is no refusal of the request. -/
theorem fail_valid (call : Call) (code code' : SponsorshipCode) :
    (call.fail code).phase ≠ .ended (.invalid code') := by
  unfold Call.fail
  split_ifs <;> exact fun h => by cases h

/-- Nor is what a call comes to by a command. -/
theorem runCommand_valid {redis redis' : RedisState} {id : ℕ} {call call' : Call}
    (h : runCommand redis id call = some (redis', call')) (code : SponsorshipCode) :
    call'.phase ≠ .ended (.invalid code) := by
  unfold runCommand at h
  dsimp only at h
  split at h
  all_goals first
    | (split at h <;> (try split at h) <;> cases h <;>
        first | exact fail_valid _ _ _ | exact fun he => by cases he)
    | (cases h; exact fun he => by cases he)
    | cases h

/-- Nor is what any step leads to. -/
theorem stepCall_valid {redis redis' : RedisState} {id : ℕ} {call call' : Call}
    {step : ServiceStep} (h : stepCall options redis id call step = some (redis', call'))
    (code : SponsorshipCode) : call'.phase ≠ .ended (.invalid code) := by
  cases step with
  | sponsor => cases h
  | command => exact runCommand_valid h code
  | reserve _ nowMs =>
    dsimp only [stepCall] at h
    split at h
    · split at h <;> cases h
      · exact fun he => by cases he
      · exact fail_valid _ _ _
    · cases h
  | build _ transaction =>
    dsimp only [stepCall] at h
    split at h
    · split at h <;> cases h
      · exact fun he => by cases he
      · exact fail_valid _ _ _
    · cases h
  | submitted _ result =>
    dsimp only [stepCall] at h
    split at h
    · split at h <;> cases h
      · exact fun he => by cases he
      · exact fail_valid _ _ _
    · cases h

/-- What a call goes on with stands to its request as it did. -/
theorem Asked.step {request : Request} {redis redis' : RedisState} {id : ℕ}
    {call call' : Call} {step : ServiceStep} (h : Asked sdk gate options request call)
    (hparsed : call'.parsed = call.parsed)
    (hstep : stepCall options redis id call step = some (redis', call')) :
    Asked sdk gate options request call' := by
  cases h with
  | refused code hphase _ => exact (stepCall_ended hphase hstep).elim
  | admitted henabled hpassed _ =>
    exact .admitted henabled (by rw [hparsed]; exact hpassed) (stepCall_valid hstep)

/-- A request that the service takes in is a new call. -/
theorem serviceSystem_sponsor {service service' : ServiceState} {id : ℕ}
    {parsed : Except SponsorshipCode ParsedTransaction} {ip : String}
    (h : (serviceSystem options).step service (.sponsor id parsed ip) = .ok service') :
    service' =
      { service with calls := service.calls.set id (some (newCall options parsed ip)) } := by
  obtain hnone | ⟨call, hcall⟩ := (service.calls id).eq_none_or_eq_some
  · simp only [serviceSystem, ServiceStep.call, hnone] at h
    cases h
    rfl
  · simp only [serviceSystem, ServiceStep.call, hcall, stepCall] at h
    cases h

/-- A step of the service that takes no request in is a step of one call. -/
theorem serviceSystem_serve {service service' : ServiceState} {step : ServiceStep}
    (hsponsor : ∀ id parsed ip, step ≠ .sponsor id parsed ip)
    (h : (serviceSystem options).step service step = .ok service') :
    ∃ id call redis' call', service.calls id = some call ∧
      stepCall options service.redis id call step = some (redis', call') ∧
      service' = ⟨redis', service.calls.set id (some call')⟩ := by
  unfold serviceSystem at h
  dsimp only at h
  split at h
  · exact (hsponsor _ _ _ rfl).elim
  · next call hcall =>
    split at h
    · next redis' call' hstep =>
      cases h
      exact ⟨_, call, redis', call', hcall, hstep, rfl⟩
    · cases h
  · cases h

/-- What a step of the route is: a body that is refused, a new call, or a call that goes on. -/
theorem routeSystem_cases {step : RouteStep}
    (h : (routeSystem sdk gate options).step s step = .ok s') :
    (∃ id request, s.requests id = none ∧
      s' = { s with requests := s.requests.set id (some request) }) ∨
    (∃ id request service, s.requests id = none ∧
      (serviceSystem options).step s.service (.sponsor id
        ((checkRequest sdk gate request.body request.nowSeconds).mapError SponsorshipError.code)
        request.ip) = .ok service ∧
      s' = ⟨service, s.requests.set id (some request)⟩) ∨
    ∃ step service, (∀ id parsed ip, step ≠ .sponsor id parsed ip) ∧
      (serviceSystem options).step s.service step = .ok service ∧
      s' = { s with service } := by
  cases step with
  | request id request =>
    obtain hnone | ⟨asked, hasked⟩ := (s.requests id).eq_none_or_eq_some
    · simp only [routeSystem, hnone] at h
      cases hbody : parseSponsorshipRequest request.body with
      | error e =>
        rw [hbody] at h
        cases h
        exact .inl ⟨id, request, hnone, rfl⟩
      | ok xdr =>
        rw [hbody] at h
        simp only [bind_ok, pure_ok, ← (parseSponsorshipRequest_ok hbody).1] at h
        obtain ⟨service, hservice, rfl⟩ := h
        exact .inr (.inl ⟨id, request, service, hnone, hservice, rfl⟩)
    · simp only [routeSystem, hasked] at h
      cases h
  | serve step =>
    cases step with
    | sponsor id parsed ip => cases h
    | _ =>
      simp only [routeSystem, bind_ok, pure_ok] at h
      obtain ⟨service, hservice, rfl⟩ := h
      exact .inr (.inr ⟨_, service, (fun _ _ _ he => by cases he), hservice, rfl⟩)

/-- A request keeps what was asked before it. -/
theorem asked_before {requests : Store ℕ (Option Request)} {id other : ℕ}
    {request asked : Request} (hnone : requests id = none) (h : requests other = some asked) :
    (requests.set id (some request)) other = some asked := by
  rw [Store.set_get_of_ne _ _ (fun he => by rw [he, hnone] at h; cases h)]
  exact h

/-- It holds in every run. -/
theorem routeInvariant_of_reachable (h : (routeSystem sdk gate options).Reachable s) :
    RouteInvariant sdk gate options s := by
  refine h.invariant ?_ ?_
  · rintro s rfl
    exact ⟨.init rfl, fun _ _ hc => by cases hc⟩
  · intro s step s' hs _ hstep
    obtain ⟨id, request, hnone, rfl⟩ | ⟨id, request, service, hnone, hservice, rfl⟩ |
      ⟨step, service, hsponsor, hservice, rfl⟩ := routeSystem_cases hstep
    · refine ⟨hs.service, fun other call hcall => ?_⟩
      obtain ⟨asked, hasked, hhow⟩ := hs.asked other call hcall
      exact ⟨asked, asked_before hnone hasked, hhow⟩
    · refine ⟨.next hs.service trivial hservice, fun other call hcall => ?_⟩
      rw [serviceSystem_sponsor hservice] at hcall
      obtain ⟨rfl, rfl⟩ | ⟨_, hcall⟩ := calls_set hcall
      · exact ⟨request, Store.set_get_self _ _ _, newCall_asked request⟩
      · obtain ⟨asked, hasked, hhow⟩ := hs.asked other call hcall
        exact ⟨asked, asked_before hnone hasked, hhow⟩
    · refine ⟨.next hs.service trivial hservice, fun other call hcall => ?_⟩
      have hreplay := replayInvariant_of_reachable hs.service
      obtain ⟨id, c, redis, c', hc, hmove, rfl⟩ := serviceSystem_serve hsponsor hservice
      obtain ⟨rfl, rfl⟩ | ⟨_, hcall⟩ := calls_set hcall
      · obtain ⟨asked, hasked, hhow⟩ := hs.asked _ c hc
        exact ⟨asked, hasked, hhow.step
          (stepCall_effect (hreplay.owns _ c hc) (hreplay.ok _ c hc) hmove).1 hmove⟩
      · exact hs.asked other call hcall

/-- Every call stands to its request in one of two ways: it was turned away with nothing reserved
and nothing sent, or its request passed every check, and what it reserved and sent is the fee of
the transaction that was checked. -/
theorem answered_of_reachable (h : (routeSystem sdk gate options).Reachable s) {id : ℕ}
    {call : Call} (hcall : s.service.calls id = some call) :
    ∃ request, s.requests id = some request ∧ Answered sdk gate options request call := by
  have hroute := routeInvariant_of_reachable h
  have hok := (replayInvariant_of_reachable hroute.service).ok id call hcall
  obtain ⟨request, hrequest, hasked⟩ := hroute.asked id call hcall
  refine ⟨request, hrequest, ?_⟩
  cases hasked with
  | refused code hphase hstatus hreservation henvelopes =>
    exact .refused code hphase hstatus hreservation henvelopes
  | admitted henabled hpassed hvalid =>
    obtain ⟨transaction, hchecked⟩ := checkRequest_ok hpassed
    obtain ⟨quote, hquote, houter⟩ := hok.quoted hvalid
    obtain ⟨hfee, hinner, hmax⟩ := quoteSponsoredFee_ok hquote
    have hreserved : ∀ reservation, call.reservation = some reservation →
        FeeQuoted options transaction call.parsed reservation.amount := by
      intro reservation hreservation
      have hamount : (reservation.amount : ℤ) = quote.outerFee := by
        rw [houter]
        exact (hok.amount _ hreservation).2
      have hsource := hchecked.parsed.2.2
      exact ⟨by rw [hamount, hfee], by omega, by omega⟩
    refine .admitted transaction henabled hchecked hreserved fun fee hsent => ?_
    obtain hsubmitted | hsubmitted := Bool.eq_false_or_eq_true call.phase.submitted
    · obtain ⟨reservation, hreservation, henvelopes⟩ := hok.sent hsubmitted
      rw [henvelopes, List.mem_singleton] at hsent
      rw [hsent]
      exact hreserved _ hreservation
    · rw [hok.silent hsubmitted] at hsent
      cases hsent

end Runs

section Sample

/-- A purchase by one account, signed by it. -/
def samplePurchase : Transaction where
  source := "G"
  fee := 150
  hash := [10, 11]
  signatures := [⟨[1, 2, 3, 4], [9]⟩]
  maxTime := some 1300
  operations := [.invokeHostFunction (.invokeContract (.contract [7]) "buy_yes")]
  resourceFee := some 50

/-- A library that knows one text and one key. -/
def sampleSdk : Sdk where
  fromXDR := fun xdr _ => if xdr = "AAAA" then some (.transaction samplePurchase) else none
  isValidEd25519PublicKey := fun source => source = "G"
  decodeEd25519PublicKey := fun source => if source = "G" then some [0, 1, 2, 3, 4] else none
  verify := fun _ hash signature => some (hash = [10, 11] ∧ signature = [9])
  encodeContract := hexOf

/-- A manifest in which one contract is at a known address. -/
def sampleGate : GateOptions where
  networkPassphrase := "test"
  contracts := fun contract => if contract = .amm then "07" else "00"

/-- The service is idle and nothing was asked. -/
def idleRoute : RouteState := ⟨idleService, .empty⟩

/-- A request for the sample purchase that is admitted, paid for and confirmed. -/
def paidRoute : List RouteStep :=
  .request 0 ⟨requestBody "AAAA", "ip", 1000, by decide⟩ ::
    (takesLock 0 ++ submitsAndEnds 0).map .serve

/-- The purchase that was paid for passed every check. -/
theorem answered_sample : ∃ s call, (routeSystem sampleSdk sampleGate sampleOptions).runs
    idleRoute paidRoute = .ok s ∧ s.service.calls 0 = some call ∧ call.envelopes = [250] ∧
    ∃ request, s.requests 0 = some request ∧
      Answered sampleSdk sampleGate sampleOptions request call := by
  obtain ⟨s, hs, hsent⟩ := System.runs_of_decide
    (S := routeSystem sampleSdk sampleGate sampleOptions) idleRoute paidRoute
    (fun s => (s.service.calls 0).any fun call => call.envelopes = [250]) (by decide +kernel)
  obtain ⟨call, hcall, henvelopes⟩ := Option.any_eq_true _ _ |>.mp hsent
  exact ⟨s, call, hs, hcall, of_decide_eq_true henvelopes,
    answered_of_reachable (System.Reachable.runs (.init rfl) _ hs) hcall⟩

end Sample

end DikeProtocol.Services.Sponsorship
