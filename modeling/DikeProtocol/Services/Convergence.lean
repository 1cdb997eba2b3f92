import DikeProtocol.Services.Projection
import DikeProtocol.Trading.Positions

/-!
# Convergence of the read model

The contracts run, their events are handled in order, some of them again, and
every handling reads the contracts as they are by then. A row is current, or an
event that will have it read again is still to be handled. Nothing handles a
liquidation and the forced transfer within it.
-/

namespace DikeProtocol.Services.Indexer

open Lib
open Trading (ChainEvent TradeOp TradeStep tradingSystem Explains)

/-- The rows of users' positions and of pools. One that was never written is missing. -/
structure Tables where
  positions : Store (ℤ × String × Outcome) (Option ℤ)
  pools : Store ℤ (Option PoolData)

/-- The pool that a read returns. -/
def poolAt (w : World) (poolId : ℤ) : Option PoolData :=
  if 0 ≤ poolId then w.amm.pool poolId.toNat else none

/-- The market that a read returns. -/
def marketAt (w : World) (marketId : ℤ) : Option MarketData :=
  if 0 ≤ marketId then w.registry.market marketId.toNat else none

section

variable (P : Projector) (w : World)

/-- The balance that a read returns. -/
def balanceAt (marketId : ℤ) (owner : String) (outcome : Outcome) : Option ℤ :=
  if 0 ≤ marketId then
    (P.parse owner).map (fun a => w.tokens.balance (marketId.toNat, a, outcome))
  else none

/-- Write the row of a position, if its balance can be read. -/
def upsertUserPosition (marketId : ℤ) (owner : String) (tables : Tables) (outcome : Outcome) :
    Tables :=
  match balanceAt P w marketId owner outcome with
  | some balance =>
    { tables with positions := tables.positions.set (marketId, owner, outcome) (some balance) }
  | none => tables

/-- Read a pool and write its row. -/
def reconcilePool (poolId : ℤ) (tables : Tables) : Except String Tables :=
  match poolAt w poolId with
  | some pool => .ok { tables with pools := tables.pools.set poolId (some pool) }
  | none => .error "pool"

/-- Read a market, and its pool with it. -/
def reconcileMarket (marketId : ℤ) (tables : Tables) : Except String Tables :=
  match marketAt w marketId with
  | some market => reconcilePool w (numberOfBigint market.poolId) tables
  | none => .error "market"

/-- What an effect does to the rows of positions and pools. -/
def project (tables : Tables) : Effect → Except String Tables
  | .reconcileMarket marketId => reconcileMarket w marketId tables
  | .reconcilePool poolId => reconcilePool w poolId tables
  | .reconcileUserPosition marketId owner outcomes =>
    .ok (outcomes.foldl (upsertUserPosition P w marketId owner) tables)
  | _ => .ok tables

/-- Handle an event. -/
def handle {V : Type*} (record : EventRecord V) (tables : Tables) : Except String Tables := do
  let effects ← dispatch P.manifest P.numberOf (fun p => (poolAt w p).map PoolData.marketId) record
  effects.foldlM (project P w) tables

/-- Every row is as it was or as the contracts have it. -/
structure Refreshed (tables tables' : Tables) : Prop where
  positions : ∀ (m : MarketId) a o,
    tables'.positions (m, P.text a, o) = tables.positions (m, P.text a, o) ∨
      tables'.positions (m, P.text a, o) = some (w.tokens.balance (m, a, o))
  pools : ∀ p, tables'.pools p = tables.pools p ∨ tables'.pools p = poolAt w p

end

section Handling

variable {P : Projector} {w : World} {tables tables' tables'' : Tables} {effects : List Effect}

namespace Refreshed

/-- Nothing was written. -/
theorem refl (tables : Tables) : Refreshed P w tables tables :=
  ⟨fun _ _ _ => Or.inl rfl, fun _ => Or.inl rfl⟩

/-- One after the other. -/
theorem trans (h : Refreshed P w tables tables') (h' : Refreshed P w tables' tables'') :
    Refreshed P w tables tables'' := by
  refine ⟨?_, ?_⟩
  · intro m a o
    rcases h'.positions m a o with hsame | hcurrent
    · rw [hsame]
      exact h.positions m a o
    · exact Or.inr hcurrent
  · intro p
    rcases h'.pools p with hsame | hcurrent
    · rw [hsame]
      exact h.pools p
    · exact Or.inr hcurrent

/-- A current position stays current. -/
theorem position (h : Refreshed P w tables tables') {m : MarketId} {a : Address} {o : Outcome}
    (hcurrent : tables.positions (m, P.text a, o) = some (w.tokens.balance (m, a, o))) :
    tables'.positions (m, P.text a, o) = some (w.tokens.balance (m, a, o)) := by
  rcases h.positions m a o with hsame | hcurrent'
  · rw [hsame, hcurrent]
  · exact hcurrent'

/-- A current pool stays current. -/
theorem pool (h : Refreshed P w tables tables') {p : ℤ} (hcurrent : tables.pools p = poolAt w p) :
    tables'.pools p = poolAt w p := by
  rcases h.pools p with hsame | hcurrent'
  · rw [hsame, hcurrent]
  · exact hcurrent'

end Refreshed

/-- The balance of an address is read by its text. -/
theorem balanceAt_text (m : MarketId) (a : Address) (o : Outcome) :
    balanceAt P w m (P.text a) o = some (w.tokens.balance (m, a, o)) := by
  unfold balanceAt
  rw [if_pos (Int.natCast_nonneg m), P.parse_text]
  rfl

/-- Writing a position refreshes. -/
theorem upsertUserPosition_refreshed (marketId : ℤ) (owner : String) (outcome : Outcome) :
    Refreshed P w tables (upsertUserPosition P w marketId owner tables outcome) := by
  unfold upsertUserPosition
  split
  · next balance hread =>
    refine ⟨?_, fun p => Or.inl rfl⟩
    intro m a o
    dsimp only
    rw [Store.set_get]
    split
    · next heq =>
      obtain ⟨rfl, hrest⟩ := Prod.mk.inj heq
      obtain ⟨rfl, rfl⟩ := Prod.mk.inj hrest
      rw [balanceAt_text] at hread
      exact Or.inr hread.symm
    · exact Or.inl rfl
  · exact .refl tables

/-- Writing positions refreshes. -/
theorem foldl_refreshed (marketId : ℤ) (owner : String) (os : List Outcome) (tables : Tables) :
    Refreshed P w tables (os.foldl (upsertUserPosition P w marketId owner) tables) := by
  induction os generalizing tables with
  | nil => exact .refl tables
  | cons o os ih => exact (upsertUserPosition_refreshed marketId owner o).trans (ih _)

/-- Each of the positions is written. -/
theorem foldl_writes {m : MarketId} {a : Address} {o : Outcome} {os : List Outcome} (ho : o ∈ os)
    (tables : Tables) :
    (os.foldl (upsertUserPosition P w m (P.text a)) tables).positions (m, P.text a, o) =
      some (w.tokens.balance (m, a, o)) := by
  induction os generalizing tables with
  | nil => cases ho
  | cons o' os ih =>
    rw [List.foldl_cons]
    rcases List.mem_cons.mp ho with rfl | ho
    · refine (foldl_refreshed _ _ os _).position ?_
      unfold upsertUserPosition
      rw [balanceAt_text]
      exact Store.set_get_self _ _ _
    · exact ih ho _

/-- Reading a pool refreshes, and writes it. -/
theorem reconcilePool_refreshed {p : ℤ} (h : reconcilePool w p tables = .ok tables') :
    Refreshed P w tables tables' ∧ tables'.pools p = poolAt w p := by
  unfold reconcilePool at h
  cases hpool : poolAt w p with
  | none =>
    rw [hpool] at h
    cases h
  | some pool =>
    rw [hpool] at h
    obtain rfl := Except.ok.inj h
    refine ⟨⟨fun _ _ _ => Or.inl rfl, ?_⟩, Store.set_get_self _ _ _⟩
    intro q
    dsimp only
    rw [Store.set_get]
    split
    · next heq =>
      rw [heq, hpool]
      exact Or.inr rfl
    · exact Or.inl rfl

/-- Every effect refreshes. -/
theorem project_refreshed {effect : Effect} (h : project P w tables effect = .ok tables') :
    Refreshed P w tables tables' := by
  cases effect with
  | reconcileMarket m =>
    change reconcileMarket w m tables = .ok tables' at h
    unfold reconcileMarket at h
    split at h
    · exact (reconcilePool_refreshed h).1
    · cases h
  | reconcilePool p => exact (reconcilePool_refreshed h).1
  | reconcileUserPosition m owner os =>
    obtain rfl := Except.ok.inj h
    exact foldl_refreshed m owner os tables
  | _ =>
    obtain rfl := Except.ok.inj h
    exact .refl tables

/-- So do all effects of an event. -/
theorem foldlM_refreshed (h : effects.foldlM (project P w) tables = .ok tables') :
    Refreshed P w tables tables' := by
  induction effects generalizing tables with
  | nil =>
    obtain rfl := Except.ok.inj h
    exact .refl tables
  | cons effect effects ih =>
    rw [List.foldlM_cons] at h
    obtain ⟨next, hnext, h⟩ := bind_ok.mp h
    exact (project_refreshed hnext).trans (ih h)

/-- After the effects, a position that they have read is current. -/
theorem foldlM_readsPosition {m : MarketId} {a : Address} {o : Outcome}
    (hread : ReadsPosition effects m (P.text a) o)
    (h : effects.foldlM (project P w) tables = .ok tables') :
    tables'.positions (m, P.text a, o) = some (w.tokens.balance (m, a, o)) := by
  obtain ⟨os, ho, hmem⟩ := hread
  induction effects generalizing tables with
  | nil => cases hmem
  | cons effect effects ih =>
    rw [List.foldlM_cons] at h
    obtain ⟨next, hnext, hrest⟩ := bind_ok.mp h
    rcases List.mem_cons.mp hmem with rfl | hmem
    · obtain rfl := Except.ok.inj hnext
      exact (foldlM_refreshed hrest).position (foldl_writes ho tables)
    · exact ih hrest hmem

/-- And a pool that they have read. -/
theorem foldlM_readsPool {p : ℤ} (hmem : .reconcilePool p ∈ effects)
    (h : effects.foldlM (project P w) tables = .ok tables') : tables'.pools p = poolAt w p := by
  induction effects generalizing tables with
  | nil => cases hmem
  | cons effect effects ih =>
    rw [List.foldlM_cons] at h
    obtain ⟨next, hnext, hrest⟩ := bind_ok.mp h
    rcases List.mem_cons.mp hmem with rfl | hmem
    · exact (foldlM_refreshed hrest).pool (reconcilePool_refreshed (P := P) hnext).2
    · exact ih hmem hrest

variable {V : Type*} {frame : EventRecord V}

/-- Handling any event refreshes. -/
theorem handle_refreshed {record : EventRecord V} (h : handle P w record tables = .ok tables') :
    Refreshed P w tables tables' := by
  obtain ⟨effects, _, h⟩ := bind_ok.mp h
  exact foldlM_refreshed h

/-- Handling one that names a balance makes its row current. -/
theorem handle_position {event : ChainEvent} (hevent : Handled event) {m : MarketId} {a : Address}
    {o : Outcome} (hk : (m, a, o) ∈ event.positions)
    (h : handle P w (P.record frame event) tables = .ok tables') :
    tables'.positions (m, P.text a, o) = some (w.tokens.balance (m, a, o)) := by
  obtain ⟨effects, heffects, h⟩ := bind_ok.mp h
  exact foldlM_readsPosition (hevent.readsPosition heffects hk) h

/-- Handling one that names a pool makes its row current. -/
theorem handle_pool {event : ChainEvent} (hevent : Handled event) {p : ℕ}
    (hp : event.changedPool = some p)
    (h : handle P w (P.record frame event) tables = .ok tables') :
    tables'.pools p = poolAt w p := by
  obtain ⟨effects, heffects, h⟩ := bind_ok.mp h
  exact foldlM_readsPool (hevent.readsPool heffects hp) h

end Handling

/-- What was published: an event about balances or a pool, or any other event of any contract. -/
inductive Published (V : Type*) where
  | booked (event : ChainEvent)
  | other (record : EventRecord V)

/-- The record of what was published. -/
def Published.record {V : Type*} (P : Projector) (frame : EventRecord V) :
    Published V → EventRecord V
  | booked event => P.record frame event
  | other record => record

/-- The contracts, what they published, how much of it was handled, and the rows. -/
structure ProjectionState (V : Type*) where
  world : World
  log : List (Published V)
  processed : ℕ
  tables : Tables

/-- What can happen. -/
inductive ProjectionStep (V : Type*) where
  /-- A step of the contracts. -/
  | invoke (call : TradeStep)
  /-- Another event of any contract, about neither balances nor pools. -/
  | publish (record : EventRecord V)
  /-- The next event is handled. -/
  | deliver
  /-- An event is handled again. -/
  | redeliver (index : ℕ)

/-- The events that a step of the contracts publishes about balances and pools. -/
def callEvents (w : World) : TradeStep → List ChainEvent
  | .call ctx op =>
    match op.events ctx w with
    | .ok events => events
    | .error _ => []
  | .outside _ => []

section

variable {V : Type*} (P : Projector) (frame : ℕ → EventRecord V)

/-- The state after the event at an index was handled. -/
def handleAt (s : ProjectionState V) (index : ℕ) : Except Unit (ProjectionState V) :=
  match s.log[index]? with
  | none => .error ()
  | some published =>
    match handle P s.world (published.record P (frame index)) s.tables with
    | .ok tables => .ok { s with tables := tables }
    | .error _ => .error ()

/-- Runs of the contracts and of the indexer beside them. The identifiers that the RPC adds to
each event are given. -/
def projectionSystem : System (ProjectionState V) (ProjectionStep V) Unit where
  Init := fun s => tradingSystem.Init s.world ∧ s.log = [] ∧ s.processed = 0 ∧
    s.tables = ⟨.empty, .empty⟩
  step := fun s step =>
    match step with
    | .invoke call =>
      match tradingSystem.step s.world call with
      | .error _ => .error ()
      | .ok w => .ok { s with
          world := w
          log := s.log ++ (callEvents s.world call).map .booked }
    | .publish record => .ok { s with log := s.log ++ [.other record] }
    | .deliver => do
      let s ← handleAt P frame s s.processed
      return { s with processed := s.processed + 1 }
    | .redeliver index => if index < s.processed then handleAt P frame s index else .error ()

/-- The rows agree with the contracts, a missing position counting as 0. -/
structure Converged (s : ProjectionState V) : Prop where
  positions : ∀ (m : MarketId) (a : Address) (o : Outcome),
    (s.tables.positions (m, P.text a, o)).getD 0 = s.world.tokens.balance (m, a, o)
  pools : ∀ p, s.tables.pools p = poolAt s.world p

end

/-- Invocations of the market maker whose events are all handled: no liquidation, and new pools
whose identifiers are numbers of the indexer. -/
def Announced (w : World) : Amm.AmmOp → Prop
  | .liquidatePosition _ _ _ _ => False
  | .liquidateChildPosition _ _ _ _ => False
  | .createPool marketId _ => ExactId marketId ∧ ExactId w.amm.nextPoolId
  | _ => True

instance (w : World) (op : Amm.AmmOp) : Decidable (Announced w op) := by
  unfold Announced
  split <;> infer_instance

/-- Steps whose events are all handled. -/
def ProjectionStep.KeepsRows {V : Type*} (s : ProjectionState V) : ProjectionStep V → Prop
  | .invoke (.call _ (.amm op)) => Announced s.world op
  | _ => True

instance {V : Type*} (s : ProjectionState V) (step : ProjectionStep V) :
    Decidable (step.KeepsRows s) := by
  unfold ProjectionStep.KeepsRows
  split <;> infer_instance

/-- Identifiers in use are numbers of the indexer. -/
structure ExactIds (w : World) : Prop where
  pools : ∀ p pool, w.amm.pool p = some pool → ExactId p ∧ ExactId pool.marketId
  balances : ∀ m a o, w.tokens.balance (m, a, o) ≠ 0 → ExactId m

namespace ExactIds

variable {ctx : Ctx} {w w' : World} {events : List ChainEvent}

/-- A pool that is read has exact identifiers. -/
theorem readPool (hw : ExactIds w) {p : ℕ} {pool : PoolData} (h : Amm.readPool w.amm p = .ok pool) :
    ExactId p ∧ ExactId pool.marketId :=
  hw.pools p pool (orFault_ok.mp h)

/-- The events of a purchase are handled. -/
theorem buyEvents (hw : ExactIds w) {trader : Address} {poolId : ℕ} {amountIn minOut : ℤ}
    {deadline : ℕ} {yes : Bool} {parent : Option (MarketId × Outcome)}
    (h : Trading.buyEvents ctx w trader poolId amountIn minOut deadline yes parent = .ok events) :
    ∀ event ∈ events, Handled event := by
  obtain ⟨pool, hpool, h⟩ := bind_ok.mp h
  obtain ⟨_, _, h⟩ := bind_ok.mp h
  obtain ⟨_, _, h⟩ := bind_ok.mp h
  obtain rfl := pure_ok.mp h
  obtain ⟨hp, hm⟩ := hw.readPool hpool
  simp [Handled, ChainEvent.positions, ChainEvent.changedPool,
      List.forall_mem_cons, -List.mem_cons, -Prod.forall, hp, hm]

/-- The events of a sale are handled. -/
theorem sellEvents (hw : ExactIds w) {trader : Address} {poolId : ℕ} {amountIn minOut : ℤ}
    {deadline : ℕ} {yes : Bool}
    (h : Trading.sellEvents ctx w trader poolId amountIn minOut deadline yes = .ok events) :
    ∀ event ∈ events, Handled event := by
  obtain ⟨pool, hpool, h⟩ := bind_ok.mp h
  obtain ⟨_, _, h⟩ := bind_ok.mp h
  obtain ⟨_, _, h⟩ := bind_ok.mp h
  obtain rfl := pure_ok.mp h
  obtain ⟨hp, hm⟩ := hw.readPool hpool
  simp [Handled, ChainEvent.positions, ChainEvent.changedPool,
      List.forall_mem_cons, -List.mem_cons, -Prod.forall, hp, hm]

/-- The events of the market maker are handled, but for liquidations. -/
theorem ammEvents (hw : ExactIds w) {op : Amm.AmmOp} (hop : Announced w op)
    (h : Trading.ammEvents ctx w op = .ok events) : ∀ event ∈ events, Handled event := by
  cases op with
  | createPool marketId feeConfig =>
    obtain rfl := pure_ok.mp h
    simp [Handled, ChainEvent.positions, ChainEvent.changedPool,
      List.forall_mem_cons, -List.mem_cons, -Prod.forall, hop.2]
  | seedLiquidity lp poolId amount =>
    obtain ⟨pool, hpool, h⟩ := bind_ok.mp h
    obtain rfl := pure_ok.mp h
    obtain ⟨hp, hm⟩ := hw.readPool hpool
    simp [Handled, ChainEvent.positions, ChainEvent.changedPool,
      List.forall_mem_cons, -List.mem_cons, -Prod.forall, hp, hm]
  | addLiquidity lp poolId amount =>
    obtain ⟨pool, hpool, h⟩ := bind_ok.mp h
    obtain ⟨_, _, h⟩ := bind_ok.mp h
    obtain rfl := pure_ok.mp h
    obtain ⟨hp, hm⟩ := hw.readPool hpool
    simp [Handled, ChainEvent.positions, ChainEvent.changedPool,
      List.forall_mem_cons, -List.mem_cons, -Prod.forall, hp, hm]
  | removeLiquidity lp poolId shares =>
    obtain ⟨pool, hpool, h⟩ := bind_ok.mp h
    obtain ⟨_, _, h⟩ := bind_ok.mp h
    obtain rfl := pure_ok.mp h
    obtain ⟨hp, hm⟩ := hw.readPool hpool
    simp [Handled, ChainEvent.positions, ChainEvent.changedPool,
      List.forall_mem_cons, -List.mem_cons, -Prod.forall, hp, hm]
  | buyYes | buyNo | buyChildYes | buyChildNo => exact hw.buyEvents h
  | sellYes | sellNo => exact hw.sellEvents h
  | liquidatePosition | liquidateChildPosition => exact hop.elim
  | _ =>
    obtain rfl := pure_ok.mp h
    exact fun event hevent => absurd hevent List.not_mem_nil

/-- A balance that covers a positive amount is of an exact market. -/
theorem ofBurn (hw : ExactIds w) {t : TokensState} {m : MarketId} {a : Address} {o : Outcome}
    {x : ℤ} (hx : 0 < x) (h : Tokens.subBalance w.tokens m a o x = .ok t) : ExactId m := by
  have hheld := (Tokens.subBalance_ok h).1
  exact hw.balances m a o (by omega)

/-- The events of redemptions are handled. -/
theorem vaultEvents (hw : ExactIds w) {op : Vault.VaultOp} (h : op.exec ctx w = .ok w') :
    ∀ event ∈ Trading.vaultEvents op, Handled event := by
  cases op with
  | redeemResolved t user m o amount =>
    obtain ⟨y, h⟩ := world_ok.mp h
    obtain ⟨_, market, gross, v1, t1, v2, called, _, _, _, _, hburn, _, _⟩ :=
      Vault.redeemResolved_steps h
    obtain ⟨hpos, hsub⟩ := Tokens.burnForRedeem_ok hburn
    have hm := hw.ofBurn hpos hsub
    simp [Trading.vaultEvents, Handled, ChainEvent.positions, ChainEvent.changedPool,
      List.forall_mem_cons, -List.mem_cons, -Prod.forall, hm]
  | redeemCancelled t user m o amount =>
    obtain ⟨y, h⟩ := world_ok.mp h
    obtain ⟨_, market, t1, v1, called, _, _, _, hburn, _, _⟩ := Vault.redeemCancelled_steps h
    obtain ⟨hpos, hsub⟩ := Tokens.burnForRedeem_ok hburn
    have hm := hw.ofBurn hpos hsub
    simp [Trading.vaultEvents, Handled, ChainEvent.positions, ChainEvent.changedPool,
      List.forall_mem_cons, -List.mem_cons, -Prod.forall, hm]
  | _ => exact fun event hevent => absurd hevent List.not_mem_nil

/-- The events of the tokens that an invocation from outside publishes are handled. -/
theorem tokensEvents (hw : ExactIds w) (htrade : Trading.TradeInvariant w)
    (hctx : Trading.FromOutside ctx) {op : Tokens.TokensOp} (h : op.exec ctx w = .ok w') :
    ∀ event ∈ Trading.tokensEvents op, Handled event := by
  have hamm : ∀ {u : Unit}, requireRole ctx w.tokens.roles .amm ≠ .ok u :=
    Trading.requireRole_outside hctx.1 htrade.tokensAmm
  have hvault : ∀ {u : Unit}, requireRole ctx w.tokens.roles .vault ≠ .ok u :=
    Trading.requireRole_outside hctx.2.1 htrade.tokensVault
  cases op with
  | mintCompleteSet | mergePositions | transferPositionForced =>
    obtain ⟨t, ht, rfl⟩ := Tokens.store_ok.mp h
    obtain ⟨_, hrole, _⟩ := bind_ok.mp ht
    exact absurd hrole hamm
  | splitPosition | burnForRedeem =>
    obtain ⟨t, ht, rfl⟩ := Tokens.store_ok.mp h
    obtain ⟨_, hrole, _⟩ := bind_ok.mp ht
    exact absurd hrole hvault
  | transferPosition sender recipient m o amount =>
    obtain ⟨_, hpos, _, _, t, hmove, _⟩ := Tokens.transferPosition_ok h
    have hheld := (Tokens.moveBalance_ok hmove).1
    have hm := hw.balances m sender o (by omega)
    simp [Trading.tokensEvents, Handled, ChainEvent.positions, ChainEvent.changedPool,
      List.forall_mem_cons, -List.mem_cons, -Prod.forall, hm]
  | burnLosing owner m o amount =>
    obtain ⟨t, ht, rfl⟩ := Tokens.store_ok.mp h
    obtain ⟨_, hpos, hsub⟩ := Tokens.burnLosing_ok ht
    have hm := hw.ofBurn hpos hsub
    simp [Trading.tokensEvents, Handled, ChainEvent.positions, ChainEvent.changedPool,
      List.forall_mem_cons, -List.mem_cons, -Prod.forall, hm]
  | _ => exact fun event hevent => absurd hevent List.not_mem_nil

/-- No event but those of the market maker is about a pool. -/
theorem changedPool_eq_none {op : TradeOp} (hop : ∀ op', op ≠ .amm op')
    (h : op.events ctx w = .ok events) : ∀ event ∈ events, event.changedPool = none := by
  cases op with
  | amm op => exact absurd rfl (hop op)
  | vault op =>
    obtain rfl := pure_ok.mp h
    cases op <;> simp [Trading.vaultEvents, ChainEvent.changedPool]
  | tokens op =>
    obtain rfl := pure_ok.mp h
    cases op <;> simp [Trading.tokensEvents, ChainEvent.changedPool]
  | registry op =>
    obtain rfl := pure_ok.mp h
    exact fun event hevent => absurd hevent List.not_mem_nil

/-- Pools stay under exact identifiers. -/
theorem pools_step (hw : ExactIds w) (hid : ∀ i pool, w.amm.pool i = some pool → pool.id = i)
    {op : TradeOp} (hop : ∀ op', op = .amm op' → Announced w op') (hrewires : op.rewires = false)
    (hevents : op.events ctx w = .ok events) (hexplains : Explains w w' events)
    (h : op.exec ctx w = .ok w') :
    ∀ p pool, w'.amm.pool p = some pool → ExactId p ∧ ExactId pool.marketId := by
  intro p pool hpool
  have hother : (∀ op', op ≠ .amm op') → ExactId p ∧ ExactId pool.marketId := by
    intro hnot
    by_cases hsame : w'.amm.pool p = w.amm.pool p
    · exact hw.pools p pool (by rw [← hsame]; exact hpool)
    · obtain ⟨event, hmem, hnamed⟩ := hexplains.pools p hsame
      rw [changedPool_eq_none hnot hevents event hmem] at hnamed
      cases hnamed
  cases op with
  | vault | tokens | registry => exact hother (fun op' heq => by cases heq)
  | amm op =>
    have hannounced := hop op rfl
    by_cases hassigns : Factory.AmmKept.assigns op = false
    · have hkept := (Factory.AmmKept.exec hid hassigns h).1.pools p
      rw [hpool] at hkept
      obtain ⟨old, hold, hmarks⟩ := Option.map_eq_some_iff.mp hkept.symm
      have hmarket : old.marketId = pool.marketId := (Prod.mk.inj hmarks).2
      rw [← hmarket]
      exact hw.pools p old hold
    · cases op with
      | createPool marketId feeConfig =>
        obtain ⟨y, h⟩ := world_ok.mp h
        obtain ⟨_, _, h⟩ := bind_ok.mp h
        obtain ⟨_, _, h⟩ := bind_ok.mp h
        obtain ⟨_, _, h⟩ := bind_ok.mp h
        obtain ⟨_, rfl⟩ := Prod.mk.inj (pure_ok.mp h)
        change (w.amm.pool.set w.amm.nextPoolId _) p = some pool at hpool
        rw [Store.set_get] at hpool
        split at hpool
        · next heq =>
          cases hpool
          rw [heq]
          exact ⟨hannounced.2, hannounced.1⟩
        · exact hw.pools p pool hpool
      | setRole => cases hrewires
      | _ => exact absurd rfl hassigns

/-- Every step that keeps the rows publishes handled events about all it changes, and identifiers
stay exact. -/
theorem step (hw : ExactIds w) (hreachable : tradingSystem.Reachable w) {call : TradeStep}
    (hok : ∀ ctx op, call = .call ctx (.amm op) → Announced w op)
    (hstep : tradingSystem.step w call = .ok w') :
    ExactIds w' ∧ Explains w w' (callEvents w call) ∧
      ∀ event ∈ callEvents w call, Handled event := by
  cases call with
  | outside bank =>
    obtain rfl := ok_ok.mp hstep
    exact ⟨⟨hw.pools, hw.balances⟩, .same rfl rfl,
      fun event hevent => absurd hevent List.not_mem_nil⟩
  | call ctx op =>
    obtain ⟨hctx, hkeeps, h⟩ := Trading.tradingSystem_call hstep
    have htrade := Trading.reachable_invariant hreachable
    have hid := (Trading.reachable_stocked hreachable).filed
    have hannounced : ∀ op', op = .amm op' → Announced w op' :=
      fun op' heq => hok ctx op' (by rw [heq])
    obtain ⟨events, hevents, hexplains⟩ := op.explained hid h
    have hcall : callEvents w (.call ctx op) = events := by
      unfold callEvents
      dsimp only
      rw [hevents]
    have hhandled : ∀ event ∈ events, Handled event := by
      cases op with
      | amm op => exact hw.ammEvents (hannounced op rfl) hevents
      | vault op =>
        obtain rfl := pure_ok.mp hevents
        exact hw.vaultEvents h
      | tokens op =>
        obtain rfl := pure_ok.mp hevents
        exact hw.tokensEvents htrade hctx h
      | registry op =>
        obtain rfl := pure_ok.mp hevents
        exact fun event hevent => absurd hevent List.not_mem_nil
    rw [hcall]
    refine ⟨⟨hw.pools_step hid hannounced hkeeps hevents hexplains h, ?_⟩, hexplains, hhandled⟩
    intro m a o hbalance
    by_cases hsame : w'.tokens.balance (m, a, o) = w.tokens.balance (m, a, o)
    · exact hw.balances m a o (by rw [← hsame]; exact hbalance)
    · obtain ⟨event, hmem, hnamed⟩ := hexplains.balances _ hsame
      exact (hhandled event hmem).exact.1 _ hnamed

end ExactIds

section Runs

variable {V : Type*} {P : Projector} {frame : ℕ → EventRecord V} {s s' : ProjectionState V}

/-- An event that will have something read again is still to be handled. -/
def Pending (s : ProjectionState V) (q : ChainEvent → Prop) : Prop :=
  ∃ event, .booked event ∈ s.log.drop s.processed ∧ Handled event ∧ q event

/-- What carries convergence through a run: every row is current or about to be read. -/
structure RowsTracked (P : Projector) (s : ProjectionState V) : Prop where
  reachable : tradingSystem.Reachable s.world
  exact : ExactIds s.world
  handledSome : s.processed ≤ s.log.length
  positions : ∀ (m : MarketId) (a : Address) (o : Outcome),
    (s.tables.positions (m, P.text a, o)).getD 0 = s.world.tokens.balance (m, a, o) ∨
      Pending s (fun event => (m, a, o) ∈ event.positions)
  pools : ∀ p, s.tables.pools p = poolAt s.world p ∨
    Pending s (fun event => ∃ n : ℕ, event.changedPool = some n ∧ (n : ℤ) = p)

/-- What is pending stays so when more is published. -/
theorem Pending.publish {q : ChainEvent → Prop} (h : Pending s q)
    (hprocessed : s.processed ≤ s.log.length) (w : World) (published : List (Published V)) :
    Pending { s with world := w, log := s.log ++ published } q := by
  obtain ⟨event, hmem, hrest⟩ := h
  refine ⟨event, ?_, hrest⟩
  dsimp only
  rw [List.drop_append_of_le_length hprocessed]
  exact List.mem_append_left _ hmem

/-- A handled event among those published is pending. -/
theorem Pending.of_published {q : ChainEvent → Prop} {events : List ChainEvent} {event : ChainEvent}
    (hmem : event ∈ events) (hhandled : Handled event) (hq : q event)
    (hprocessed : s.processed ≤ s.log.length) (w : World) :
    Pending { s with world := w, log := s.log ++ events.map .booked } q := by
  refine ⟨event, ?_, hhandled, hq⟩
  dsimp only
  rw [List.drop_append_of_le_length hprocessed]
  exact List.mem_append_right _ (List.mem_map_of_mem hmem)

/-- Once the next event is handled, what was pending still is, or it was that event. -/
theorem Pending.deliver {q : ChainEvent → Prop} (h : Pending s q) {published : Published V}
    (hnext : s.log[s.processed]? = some published) (tables : Tables) :
    Pending { s with tables := tables, processed := s.processed + 1 } q ∨
      ∃ event, published = .booked event ∧ Handled event ∧ q event := by
  obtain ⟨event, hmem, hhandled, hq⟩ := h
  obtain ⟨hlt, hget⟩ := List.getElem?_eq_some_iff.mp hnext
  rw [List.drop_eq_getElem_cons hlt, hget] at hmem
  rcases List.mem_cons.mp hmem with heq | hmem
  · exact Or.inr ⟨event, heq.symm, hhandled, hq⟩
  · exact Or.inl ⟨event, hmem, hhandled, hq⟩

namespace RowsTracked

/-- Current rows stay so, and an unchanged state of what is pending with them, when any event is
handled. -/
theorem refreshed (hs : RowsTracked P s) {tables : Tables}
    (h : Refreshed P s.world s.tables tables) : RowsTracked P { s with tables := tables } := by
  refine { hs with positions := ?_, pools := ?_ }
  · intro m a o
    dsimp only
    rcases h.positions m a o with hsame | hcurrent
    · rw [hsame]
      exact hs.positions m a o
    · rw [hcurrent]
      exact Or.inl rfl
  · intro p
    dsimp only
    rcases h.pools p with hsame | hcurrent
    · rw [hsame]
      exact hs.pools p
    · exact Or.inl hcurrent

/-- Handling an event that was published refreshes. -/
theorem handleAt_ok {index : ℕ} (h : handleAt P frame s index = .ok s') :
    ∃ published tables, s.log[index]? = some published ∧
      handle P s.world (published.record P (frame index)) s.tables = .ok tables ∧
      s' = { s with tables := tables } := by
  unfold handleAt at h
  split at h
  · cases h
  · next published hpublished =>
    split at h
    · next tables htables => exact ⟨published, tables, hpublished, htables, (Except.ok.inj h).symm⟩
    · cases h

/-- Handling the next event keeps the rows tracked. -/
theorem deliver (hs : RowsTracked P s) {published : Published V} {tables : Tables}
    (hnext : s.log[s.processed]? = some published)
    (h : handle P s.world (published.record P (frame s.processed)) s.tables = .ok tables) :
    RowsTracked P { s with tables := tables, processed := s.processed + 1 } := by
  have hrefreshed := hs.refreshed (handle_refreshed h)
  obtain ⟨hlt, _⟩ := List.getElem?_eq_some_iff.mp hnext
  refine { hrefreshed with handledSome := hlt, positions := ?_, pools := ?_ }
  · intro m a o
    rcases hrefreshed.positions m a o with hcurrent | hpending
    · exact Or.inl hcurrent
    · rcases hpending.deliver hnext tables with hpending | ⟨event, rfl, hhandled, hk⟩
      · exact Or.inr hpending
      · refine Or.inl ?_
        dsimp only
        rw [handle_position hhandled hk h]
        rfl
  · intro p
    rcases hrefreshed.pools p with hcurrent | hpending
    · exact Or.inl hcurrent
    · rcases hpending.deliver hnext tables with hpending | ⟨event, rfl, hhandled, n, hn, rfl⟩
      · exact Or.inr hpending
      · exact Or.inl (handle_pool hhandled hn h)

/-- A step of the contracts keeps the rows tracked: an event is pending for each that it makes
stale. -/
theorem invoke (hs : RowsTracked P s) {w : World} {events : List ChainEvent}
    (hreachable : tradingSystem.Reachable w) (hexact : ExactIds w)
    (hexplains : Explains s.world w events) (hhandled : ∀ event ∈ events, Handled event) :
    RowsTracked P { s with world := w, log := s.log ++ events.map .booked } := by
  have hle := hs.handledSome
  refine ⟨hreachable, hexact, ?_, ?_, ?_⟩
  · dsimp only
    rw [List.length_append]
    omega
  · intro m a o
    dsimp only
    by_cases hsame : w.tokens.balance (m, a, o) = s.world.tokens.balance (m, a, o)
    · rw [hsame]
      rcases hs.positions m a o with hcurrent | hpending
      · exact Or.inl hcurrent
      · exact Or.inr (hpending.publish hle w _)
    · obtain ⟨event, hmem, hk⟩ := hexplains.balances _ hsame
      exact Or.inr (.of_published hmem (hhandled event hmem) hk hle w)
  · intro p
    dsimp only
    by_cases hsame : poolAt w p = poolAt s.world p
    · rw [hsame]
      rcases hs.pools p with hcurrent | hpending
      · exact Or.inl hcurrent
      · exact Or.inr (hpending.publish hle w _)
    · have hnonneg : 0 ≤ p := by
        by_contra hneg
        unfold poolAt at hsame
        rw [if_neg hneg, if_neg hneg] at hsame
        exact hsame rfl
      have hchanged : w.amm.pool p.toNat ≠ s.world.amm.pool p.toNat := by
        unfold poolAt at hsame
        rw [if_pos hnonneg, if_pos hnonneg] at hsame
        exact hsame
      obtain ⟨event, hmem, hp⟩ := hexplains.pools _ hchanged
      exact Or.inr (.of_published hmem (hhandled event hmem)
        ⟨p.toNat, hp, Int.toNat_of_nonneg hnonneg⟩ hle w)

/-- Every step that keeps the rows keeps them tracked. -/
theorem step (hs : RowsTracked P s) {step : ProjectionStep V} (hok : step.KeepsRows s)
    (hstep : (projectionSystem P frame).step s step = .ok s') : RowsTracked P s' := by
  cases step with
  | invoke call =>
    dsimp only [projectionSystem] at hstep
    split at hstep
    · cases hstep
    · next w hcall =>
      obtain rfl := Except.ok.inj hstep
      have hannounced : ∀ ctx op, call = .call ctx (.amm op) → Announced s.world op := by
        rintro ctx op rfl
        exact hok
      obtain ⟨hexact, hexplains, hhandled⟩ := hs.exact.step hs.reachable hannounced hcall
      exact hs.invoke (.next hs.reachable trivial hcall) hexact hexplains hhandled
  | publish record =>
    obtain rfl := Except.ok.inj hstep
    have hle := hs.handledSome
    refine { hs with handledSome := ?_, positions := ?_, pools := ?_ }
    · dsimp only
      rw [List.length_append]
      omega
    · intro m a o
      exact (hs.positions m a o).imp_right (fun hpending => hpending.publish hle _ _)
    · intro p
      exact (hs.pools p).imp_right (fun hpending => hpending.publish hle _ _)
  | deliver =>
    obtain ⟨s1, h1, hstep⟩ := bind_ok.mp hstep
    obtain rfl := pure_ok.mp hstep
    obtain ⟨published, tables, hnext, h, rfl⟩ := handleAt_ok h1
    exact hs.deliver hnext h
  | redeliver index =>
    dsimp only [projectionSystem] at hstep
    split at hstep
    · obtain ⟨published, tables, _, h, rfl⟩ := handleAt_ok hstep
      exact hs.refreshed (handle_refreshed h)
    · cases hstep

/-- Before anything was invoked there are no rows, no balances and no pools. -/
theorem init (h : (projectionSystem P frame).Init s) : RowsTracked P s := by
  obtain ⟨hinit, hlog, hprocessed, htables⟩ := h
  obtain ⟨launch, hworld⟩ := id hinit
  refine ⟨.init hinit, ⟨?_, ?_⟩, by rw [hprocessed]; exact Nat.zero_le _, ?_, ?_⟩
  · rw [hworld]
    intro p pool hpool
    cases hpool
  · rw [hworld]
    exact fun m a o hbalance => absurd rfl hbalance
  · intro m a o
    rw [htables, hworld]
    exact Or.inl rfl
  · intro p
    rw [htables, hworld]
    unfold poolAt
    split <;> exact Or.inl rfl

end RowsTracked

/-- In every run of the contracts without a liquidation, in which pools are created under
identifiers that are numbers of the indexer, the rows agree with the contracts whenever all
events are handled. -/
theorem converged_of_handled
    (h : (projectionSystem P frame).Guarded (fun s step => step.KeepsRows s) s)
    (hall : s.processed = s.log.length) : Converged P s := by
  have htracked : RowsTracked P s :=
    h.invariant (fun _ hinit => .init hinit) (fun _ _ _ hs hok hstep => hs.step hok hstep)
  have hnone : ∀ q, ¬Pending s q := by
    rintro q ⟨event, hmem, _⟩
    rw [hall, List.drop_length] at hmem
    cases hmem
  refine ⟨?_, ?_⟩
  · intro m a o
    exact (htracked.positions m a o).resolve_right (hnone _)
  · intro p
    exact (htracked.pools p).resolve_right (hnone _)

end Runs

section Sample

/-- The contracts that have an address. -/
def deployedContracts : List Contract :=
  [.factory, .registry, .amm, .vault, .tokens, .oracle, .council, .feeManager, .governance,
    .timelock]

/-- A text for each address. -/
def sampleText : Address → String
  | .contract c => String.ofList ('C' :: List.replicate (deployedContracts.idxOf c) 'A')
  | .account n => String.ofList ('G' :: List.replicate n 'A')

/-- The address of a text. -/
def sampleParse (s : String) : Option Address :=
  match s.toList with
  | 'C' :: rest => deployedContracts[rest.length]?.map .contract
  | 'G' :: rest => some (.account rest.length)
  | _ => none

/-- A text is parsed back. -/
theorem sampleParse_text (a : Address) : sampleParse (sampleText a) = some a := by
  cases a with
  | contract c => cases c <;> decide +kernel
  | account n =>
    unfold sampleParse sampleText
    rw [String.toList_ofList]
    simp

/-- An indexer that follows three contracts. -/
def sampleProjector : Projector where
  manifest := ⟨"testnet", [("amm", "CAA"), ("conditional_tokens", "CAAAA"),
    ("collateral_vault", "CAAA")]⟩
  numberOf := fun _ => none
  amm := "CAA"
  tokens := "CAAAA"
  amm_module := by decide +kernel
  tokens_module := by decide +kernel
  text := sampleText
  parse := sampleParse
  text_ne := by
    intro a h
    have hparsed := sampleParse_text a
    rw [h] at hparsed
    cases hparsed
  parse_text := sampleParse_text
  outcome := fun o => .object [("tag", .string (outcomeName o))]
  outcome_value := fun o => by cases o <;> decide +kernel

/-- The identifiers the RPC adds, which decide nothing here. -/
def sampleFrame (index : ℕ) : EventRecord Unit where
  network := "testnet"
  contractId := ""
  ledger := index
  txHash := ""
  eventId := ""
  topic := ""
  topicValues := []
  payload := .undefined
  rawEvent := ⟨"", index, "", [], ()⟩
  cursor := none

/-- An event of the vault. -/
def vaultEvent (topic : String) (topics : List Js) (payload : Js) : ProjectionStep Unit :=
  .publish { sampleFrame 0 with
    contractId := "CAAA"
    topic := topic
    topicValues := .string topic :: topics
    payload := payload }

/-- Before anything was invoked. -/
def emptyProjection : ProjectionState Unit := ⟨deploy sampleLaunch, [], 0, ⟨.empty, .empty⟩⟩

/-- Alice stakes in market 1 and borrows for a purchase in market 2. -/
def tradeSteps : List (ProjectionStep Unit) :=
  (Trading.aliceStakes ++ [Trading.aliceBorrows]).map .invoke ++
    [vaultEvent "deposit" [.bigint 1, .string (sampleText (.account 1))] (.bigint 10000),
      vaultEvent "deposit" [.bigint 2, .string (sampleText (.account 1))] (.bigint 10000),
      vaultEvent "deposit" [.bigint 1, .string (sampleText alice)] (.bigint 1000),
      vaultEvent "fee" [.bigint 1] (.array [.bigint 14, .bigint 4, .bigint 2]),
      vaultEvent "cfund" [.bigint 1, .bigint 2] (.array [.string (sampleText alice), .bigint 300]),
      vaultEvent "fee" [.bigint 2] (.array [.bigint 4, .bigint 1, .bigint 1])]

/-- All of that is handled, the event of alice's first purchase twice. -/
def handleTrades : List (ProjectionStep Unit) :=
  List.replicate 18 .deliver ++ [.redeliver 8]

/-- Afterwards the rows agree. -/
theorem converged_sample : ∃ s,
    (projectionSystem sampleProjector sampleFrame).runs emptyProjection
      (tradeSteps ++ handleTrades) = .ok s ∧
    Converged sampleProjector s ∧ s.world.tokens.balance (1, alice, .yes) = 1873 := by
  have hinit : (projectionSystem sampleProjector sampleFrame).Guarded
      (fun s step => step.KeepsRows s) emptyProjection :=
    .init ⟨Trading.sample_init, rfl, rfl, rfl⟩
  obtain ⟨s, hs, hguarded, hlast⟩ := System.Guarded.of_check
    (S := projectionSystem sampleProjector sampleFrame)
    (p := fun s => decide (s.processed = s.log.length ∧
      s.world.tokens.balance (1, alice, .yes) = 1873)) hinit
    (tradeSteps ++ handleTrades) (by decide +kernel)
  obtain ⟨hall, hbalance⟩ := of_decide_eq_true hlast
  exact ⟨s, hs, converged_of_handled hguarded hall, hbalance⟩

/-- Bob liquidates alice's purchase in market 2, and all its events are handled. -/
def liquidationSteps : List (ProjectionStep Unit) :=
  [.invoke (.call (bySigner bob) (.amm (.liquidateChildPosition bob alice 2 .yes))),
    vaultEvent "fee" [.bigint 2] (.array [.bigint 3, .bigint 1, .bigint 1]),
    vaultEvent "liq_settle" [.bigint 2, .string (sampleText alice)]
      (.array [.string (sampleText bob), .bigint 289, .bigint 275, .bigint 14, .bigint 0])] ++
    List.replicate 5 .deliver

/-- The row of alice's position stays at 580, which she no longer holds. -/
theorem not_always_converged : ¬∀ (P : Projector) (frame : ℕ → EventRecord Unit)
    (s : ProjectionState Unit), (projectionSystem P frame).Reachable s →
      s.processed = s.log.length → Converged P s := by
  intro hall
  obtain ⟨s, hs, hlast⟩ := System.runs_of_decide (S := projectionSystem sampleProjector sampleFrame)
    emptyProjection (tradeSteps ++ handleTrades ++ liquidationSteps)
    (fun s => s.processed = s.log.length ∧ s.world.tokens.balance (2, alice, .yes) = 0 ∧
      s.tables.positions (2, sampleText alice, .yes) = some 580) (by decide +kernel)
  obtain ⟨hsettled, hnone, hrow⟩ := of_decide_eq_true hlast
  have hreachable := System.Reachable.runs (S := projectionSystem sampleProjector sampleFrame)
    (.init ⟨Trading.sample_init, rfl, rfl, rfl⟩) _ hs
  have hposition := (hall sampleProjector sampleFrame s hreachable hsettled).positions 2 alice .yes
  have htext : sampleProjector.text alice = sampleText alice := rfl
  rw [hnone, htext] at hposition
  rw [show ((2 : MarketId) : ℤ) = 2 from rfl, hrow] at hposition
  cases hposition

end Sample

end DikeProtocol.Services.Indexer
