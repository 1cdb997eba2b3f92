import DikeProtocol.Factory.Frame
import DikeProtocol.Trading.System

/-!
# Three counters that never diverge

The factory, the registry and the market maker each count the markets they know.
Only the creation of a market raises any of them, and it raises all three or,
where it fails anywhere, none.
-/

namespace DikeProtocol.Factory

open Lib

/-- What happens to the deployed protocol: an invocation of the factory, of the market maker or of
the registry, or a change of anything else. -/
inductive FactoryStep where
  | factory (ctx : Ctx) (op : FactoryOp)
  | amm (ctx : Ctx) (op : Amm.AmmOp)
  | registry (ctx : Ctx) (op : Registry.RegistryOp)
  | elsewhere (v : World)

/-- The world after an invocation: a failed one reverts all its writes. -/
def settled (w : World) (x : Res World) : World :=
  match x with
  | .ok w' => w'
  | .error _ => w

/-- Invocations by which an administrator replaces code, or the factory, registry or market maker
that the others know. -/
def FactoryStep.rewires : FactoryStep → Bool
  | .factory _ (.upgrade _) => true
  | .factory _ (.setModules newRegistry _ _ newAmm _) =>
    newRegistry ≠ .contract .registry ∨ newAmm ≠ .contract .amm
  | .amm _ (.upgrade _) => true
  | .amm _ (.setRole role _) => role = .factory
  | .registry _ (.upgrade _) => true
  | .registry _ (.setRole role _) => role = .factory
  | _ => false

/-- Invocations that the factory makes no part of. -/
def FactoryStep.byOthers : FactoryStep → Prop
  | .amm ctx _ => Vault.Outside .factory ctx
  | .registry ctx _ => Vault.Outside .factory ctx
  | _ => True

instance (step : FactoryStep) : Decidable step.byOthers := by
  unfold FactoryStep.byOthers
  split <;> infer_instance

/-- The world after a step. -/
def FactoryStep.exec (w : World) : FactoryStep → World
  | .factory ctx op => settled w (op.exec ctx w)
  | .amm ctx op => settled w (op.exec ctx w)
  | .registry ctx op =>
    match op.exec ctx w.registry with
    | .ok r => { w with registry := r }
    | .error _ => w
  | .elsewhere v => { v with registry := w.registry, amm := w.amm, factory := w.factory }

/-- Registry, market maker and factory as their constructors leave them, with the factory in its
role. -/
structure Fresh (w : World) : Prop where
  registryRole : w.registry.roles .factory = some (.contract .factory)
  ammRole : w.amm.roles .factory = some (.contract .factory)
  markets : ∀ i, w.registry.market i = none
  pools : ∀ i, w.amm.pool i = none
  registryCounter : w.registry.nextMarketId = 1
  ammCounter : w.amm.nextPoolId = 1
  factoryCounter : w.factory.nextMarketId = 1

/-- A deployment is. -/
theorem deploy_fresh (l : Launch) : Fresh (deploy l) :=
  ⟨rfl, rfl, fun _ => rfl, fun _ => rfl, rfl, rfl, rfl⟩

/-- Runs of the protocol from a fresh factory, with the worlds that were reached. -/
def factorySystem : System (World × List World) FactoryStep Unit where
  Init := fun s => Fresh s.1 ∧ s.2 = []
  step := fun s step =>
    if step.rewires = true ∨ ¬step.byOthers then .error ()
    else .ok (step.exec s.1, s.2 ++ [step.exec s.1])

/-- What every run keeps: the factory in its role, equal counters, and exactly the markets and
pools below them, with the identifiers the factory gave them. -/
structure Aligned (w : World) : Prop where
  registryRole : w.registry.roles .factory = some (.contract .factory)
  ammRole : w.amm.roles .factory = some (.contract .factory)
  registryCounter : w.registry.nextMarketId = w.factory.nextMarketId
  ammCounter : w.amm.nextPoolId = w.factory.nextMarketId
  market : ∀ i market, w.registry.market i = some market →
    market.id = i ∧ market.poolId = i ∧ market.yesTokenId = 2 * i ∧
      market.noTokenId = 2 * i + 1 ∧ i < w.factory.nextMarketId
  pool : ∀ i pool, w.amm.pool i = some pool → pool.id = i ∧ pool.marketId = i
  created : ∀ i, 1 ≤ i → i < w.factory.nextMarketId →
    (∃ market, w.registry.market i = some market) ∧ ∃ pool, w.amm.pool i = some pool

/-- A fresh deployment is aligned. -/
theorem Fresh.aligned {w : World} (h : Fresh w) : Aligned w where
  registryRole := h.registryRole
  ammRole := h.ammRole
  registryCounter := h.registryCounter.trans h.factoryCounter.symm
  ammCounter := h.ammCounter.trans h.factoryCounter.symm
  market := fun i market hm => by
    rw [h.markets] at hm
    cases hm
  pool := fun i pool hp => by
    rw [h.pools] at hp
    cases hp
  created := fun i hpos hlt => by
    rw [h.factoryCounter] at hlt
    omega

/-- A market of a registry that kept them is one of the registry before. -/
theorem RegistryKept.market {r r' : RegistryState} (h : RegistryKept r r') {i : MarketId}
    {market' : MarketData} (hm : r'.market i = some market') :
    ∃ market, r.market i = some market ∧ marketMarks market' = marketMarks market := by
  have hmarks := h.markets i
  rw [hm, Option.map_some] at hmarks
  obtain ⟨market, hold, heq⟩ := Option.map_eq_some_iff.mp hmarks.symm
  exact ⟨market, hold, heq.symm⟩

namespace Aligned

variable {w w' : World}

/-- Steps that keep what identifies markets and pools keep the alignment. -/
theorem kept (h : Aligned w) (hregistry : RegistryKept w.registry w'.registry)
    (hamm : AmmKept w.amm w'.amm) (hfactory : w'.factory.nextMarketId = w.factory.nextMarketId) :
    Aligned w' := by
  constructor
  · exact hregistry.factory.trans h.registryRole
  · exact hamm.factory.trans h.ammRole
  · rw [hregistry.counter, hfactory]
    exact h.registryCounter
  · rw [hamm.counter, hfactory]
    exact h.ammCounter
  · intro i market' hm
    obtain ⟨market, hold, hmarks⟩ := hregistry.market hm
    simp only [marketMarks, Prod.mk.injEq] at hmarks
    rw [hmarks.1, hmarks.2.1, hmarks.2.2.1, hmarks.2.2.2.1, hfactory]
    exact h.market i market hold
  · intro i pool' hp
    have hmarks := hamm.pools i
    rw [hp, Option.map_some] at hmarks
    obtain ⟨pool, hold, heq⟩ := Option.map_eq_some_iff.mp hmarks.symm
    simp only [poolMarks, Prod.mk.injEq] at heq
    rw [← heq.1, ← heq.2]
    exact h.pool i pool hold
  · intro i hpos hlt
    rw [hfactory] at hlt
    obtain ⟨⟨market, hm⟩, pool, hp⟩ := h.created i hpos hlt
    have hmarks := hregistry.markets i
    have hmarks' := hamm.pools i
    rw [hm, Option.map_some] at hmarks
    rw [hp, Option.map_some] at hmarks'
    obtain ⟨market', hm', _⟩ := Option.map_eq_some_iff.mp hmarks
    obtain ⟨pool', hp', _⟩ := Option.map_eq_some_iff.mp hmarks'
    exact ⟨⟨market', hm'⟩, pool', hp'⟩

end Aligned

section Creation

variable {ctx : Ctx} {w w' : World} {config : MarketConfig} {market : MarketData}

/-- Checked multiplication of unsigned integers is multiplication. -/
theorem checkedMulU64_ok {a b c : ℕ} (h : checkedMulU64 a b = .ok c) : c = a * b := by
  unfold checkedMulU64 at h
  split at h
  · exact (ok_ok.mp h).symm
  · cases h

/-- The creation fee is taken aside. -/
theorem payCreationFee_aside {collateral : Asset} {creator : Address}
    (h : payCreationFee ctx w creator collateral = .ok w') : Aside w w' := by
  obtain ⟨_, _, h⟩ := bind_ok.mp h
  obtain ⟨_, _, h⟩ := bind_ok.mp h
  split at h
  · obtain ⟨_, _, h⟩ := bind_ok.mp h
    obtain ⟨_, b, _, rfl⟩ := transferToken_ok.mp h
    exact ⟨_, b, _, rfl⟩
  · obtain rfl := pure_ok.mp h
    exact ⟨_, _, _, rfl⟩

/-- A market as it is registered. -/
def registered (id : MarketId) (config : MarketConfig) (yesTokenId noTokenId poolId now : ℕ) :
    MarketData where
  id := id
  question := config.question
  questionHash := config.questionHash
  rulesUri := config.rulesUri
  rulesHash := config.rulesHash
  creator := config.creator
  collateral := config.collateral
  yesTokenId := yesTokenId
  noTokenId := noTokenId
  expiry := config.expiry
  status := .created
  hasFinalOutcome := false
  finalOutcome := Outcome.unset
  poolId := poolId
  bondAmount := config.bondAmount
  disputeWindow := config.disputeWindow
  hasRequest := false
  requestId := 0
  createdAt := now
  feeConfig := config.feeConfig

/-- A registration assigns the next identifier. -/
theorem registerMarket_ok {r r' : RegistryState} {yesTokenId noTokenId poolId id : ℕ}
    (h : Registry.registerMarket ctx r config yesTokenId noTokenId poolId = .ok (id, r')) :
    id = r.nextMarketId ∧ r' = { r with
      market := r.market.set id (some (registered id config yesTokenId noTokenId poolId ctx.now))
      nextMarketId := id + 1 } := by
  obtain ⟨_, _, h⟩ := bind_ok.mp h
  obtain ⟨_, _, h⟩ := bind_ok.mp h
  obtain ⟨next, hnext, h⟩ := bind_ok.mp h
  obtain ⟨rfl, rfl⟩ := Prod.mk.inj (pure_ok.mp h)
  rw [(checkedAddU64_ok.mp hnext).1]
  exact ⟨rfl, rfl⟩

/-- A new pool gets the next identifier. -/
theorem createPool_ok {marketId : MarketId} {feeConfig : FeeConfig} {id : ℕ}
    (h : Amm.createPool ctx w marketId feeConfig = .ok (id, w')) :
    id = w.amm.nextPoolId ∧ w' = { w with amm := { w.amm with
      pool := w.amm.pool.set id (some (Amm.freshPool id marketId))
      poolFee := w.amm.poolFee.set id feeConfig
      nextPoolId := id + 1 } } := by
  obtain ⟨_, _, h⟩ := bind_ok.mp h
  obtain ⟨_, _, h⟩ := bind_ok.mp h
  obtain ⟨next, hnext, h⟩ := bind_ok.mp h
  obtain ⟨rfl, rfl⟩ := Prod.mk.inj (pure_ok.mp h)
  rw [(checkedAddU64_ok.mp hnext).1]
  exact ⟨rfl, rfl⟩

/-- An activation opens a stored market. -/
theorem activateMarket_ok {r r' : RegistryState} {id : MarketId}
    (h : Registry.activateMarket ctx r id = .ok r') :
    ∃ market, r.market id = some market ∧
      r' = Registry.writeMarket r { market with status := .live } := by
  obtain ⟨_, _, h⟩ := bind_ok.mp h
  obtain ⟨market, hm, h⟩ := bind_ok.mp h
  obtain ⟨_, _, h⟩ := bind_ok.mp h
  exact ⟨market, orFault_ok.mp hm, (pure_ok.mp h).symm⟩

/-- What the creation of a market does, on top of what it leaves aside: the market is live and its
pool holds the creator's deposit in equal reserves. -/
structure Creates (w w' : World) (config : MarketConfig) (amount : ℤ) (market : MarketData) :
    Prop where
  registryRoles : w'.registry.roles = w.registry.roles
  registryCounter : w'.registry.nextMarketId = w.factory.nextMarketId + 1
  markets : ∀ j, w'.registry.market j =
    if j = w.factory.nextMarketId then some market else w.registry.market j
  marks : marketMarks market = (w.factory.nextMarketId, w.factory.nextMarketId,
    2 * w.factory.nextMarketId, 2 * w.factory.nextMarketId + 1, config.creator)
  live : market.status = .live
  ammRoles : w'.amm.roles = w.amm.roles
  ammCounter : w'.amm.nextPoolId = w.factory.nextMarketId + 1
  pools : ∀ j, w'.amm.pool j = if j = w.factory.nextMarketId then
    some (Amm.seededPool (Amm.freshPool w.factory.nextMarketId w.factory.nextMarketId) amount)
    else w.amm.pool j
  shares : w'.amm.lpBalance (w.factory.nextMarketId, config.creator) = amount
  positive : 0 < amount
  factoryCounter : w'.factory.nextMarketId = w.factory.nextMarketId + 1

/-- The market maker's part of a creation: a pool, empty and then seeded. -/
theorem createPool_seedLiquidity {ctx' : Ctx} {w1 w2 : World} {i id : ℕ} {feeConfig : FeeConfig}
    {lp : Address} {amount y : ℤ} (hcreate : Amm.createPool ctx w i feeConfig = .ok (id, w1))
    (hseed : Amm.seedLiquidity ctx' w1 lp id amount = .ok (y, w2)) :
    0 < amount ∧ w2.registry = w.registry ∧ w2.factory = w.factory ∧
      w2.amm.roles = w.amm.roles ∧ w2.amm.nextPoolId = id + 1 ∧
      (∀ j, w2.amm.pool j =
        if j = id then some (Amm.seededPool (Amm.freshPool id i) amount) else w.amm.pool j) ∧
      w2.amm.lpBalance (id, lp) = amount := by
  obtain ⟨_, rfl⟩ := createPool_ok hcreate
  obtain ⟨pool, m, w3, w4, hpos, hpool, _, h3, h4, rfl⟩ := Amm.seedLiquidity_writes hseed
  have haside := (Aside.depositForMarket h3).trans (.mintCompleteSet h4)
  dsimp only at hpool
  rw [Store.set_get_self] at hpool
  obtain rfl := Option.some.inj hpool
  refine ⟨hpos, haside.registry, haside.factory, ?_, ?_, ?_, ?_⟩
  · change w4.amm.roles = _
    rw [haside.amm]
  · change w4.amm.nextPoolId = _
    rw [haside.amm]
  · intro j
    change (w4.amm.pool.set id (some _)) j = _
    rw [haside.amm, Store.set_get]
    split
    · rfl
    · next hne => exact Store.set_get_of_ne _ _ hne
  · exact Store.set_get_self _ _ _

/-- The creation of a market in an aligned world. -/
theorem createMarketOr_ok (h : Aligned w) {divergence : Fault} {amount : ℤ} {price : ℕ}
    (hok : createMarketOr divergence ctx w config amount price = .ok (market, w')) :
    Creates w w' config amount market := by
  obtain ⟨_, _, hok⟩ := bind_ok.mp hok
  obtain ⟨_, _, hok⟩ := bind_ok.mp hok
  obtain ⟨_, _, hok⟩ := bind_ok.mp hok
  obtain ⟨w0, hfee, hok⟩ := bind_ok.mp hok
  obtain ⟨yes, hyes, hok⟩ := bind_ok.mp hok
  obtain ⟨no, hno, hok⟩ := bind_ok.mp hok
  obtain ⟨_, _, hok⟩ := bind_ok.mp hok
  obtain ⟨_, _, hok⟩ := bind_ok.mp hok
  obtain ⟨_, _, hok⟩ := bind_ok.mp hok
  obtain ⟨⟨id, r1⟩, hregister, hok⟩ := bind_ok.mp hok
  obtain ⟨_, _, hok⟩ := bind_ok.mp hok
  obtain ⟨_, _, hok⟩ := bind_ok.mp hok
  obtain ⟨⟨poolId, w1⟩, hcreate, hok⟩ := bind_ok.mp hok
  obtain ⟨_, _, hok⟩ := bind_ok.mp hok
  obtain ⟨_, _, hok⟩ := bind_ok.mp hok
  obtain ⟨⟨_, w2⟩, hseed, hok⟩ := bind_ok.mp hok
  obtain ⟨_, _, hok⟩ := bind_ok.mp hok
  obtain ⟨r2, hactivate, hok⟩ := bind_ok.mp hok
  obtain ⟨_, _, hok⟩ := bind_ok.mp hok
  obtain ⟨market', hread, hok⟩ := bind_ok.mp hok
  obtain ⟨next, hnext, hok⟩ := bind_ok.mp hok
  obtain ⟨rfl, rfl⟩ := Prod.mk.inj (pure_ok.mp hok)
  have haside := payCreationFee_aside hfee
  have hfactory := haside.factory
  obtain ⟨hid, rfl⟩ := registerMarket_ok hregister
  obtain ⟨hpoolId, _⟩ := createPool_ok hcreate
  -- both counters stand where the factory's stands
  rw [haside.registry, h.registryCounter, ← hfactory] at hid
  replace hpoolId : poolId = w0.factory.nextMarketId := by
    rw [hpoolId]
    dsimp only
    rw [haside.amm, h.ammCounter, hfactory]
  subst hid hpoolId
  obtain ⟨hpos, hregistry, hfactory', hroles, hcounter, hpools, hshares⟩ :=
    createPool_seedLiquidity hcreate hseed
  obtain ⟨stored, hstored, rfl⟩ := activateMarket_ok hactivate
  rw [hregistry] at hstored hread
  dsimp only at hstored hread hregistry hfactory' hroles hpools
  rw [Store.set_get_self] at hstored
  obtain rfl := Option.some.inj hstored
  have hread' := orFault_ok.mp hread
  unfold Registry.writeMarket at hread'
  dsimp only [registered] at hread'
  rw [Store.set_get_self] at hread'
  obtain rfl := Option.some.inj hread'
  rw [checkedMulU64_ok hyes, Nat.mul_comm] at hno
  rw [haside.amm] at hroles hpools
  rw [hfactory] at hcounter hpools hshares
  constructor
  · change w2.registry.roles = _
    rw [hregistry, haside.registry]
  · change w2.registry.nextMarketId = _
    rw [hregistry, hfactory]
  · intro j
    change (w2.registry.market.set w0.factory.nextMarketId _) j = _
    rw [hregistry, Store.set_get, hfactory]
    split
    · rfl
    · next hne =>
      change (w0.registry.market.set _ _) j = _
      rw [Store.set_get_of_ne _ _ hne, haside.registry]
  · unfold marketMarks
    dsimp only
    rw [checkedMulU64_ok hyes, (checkedAddU64_ok.mp hno).1, hfactory, Nat.mul_comm]
  · rfl
  · exact hroles
  · exact hcounter
  · exact hpools
  · exact hshares
  · exact hpos
  · change next = _
    rw [(checkedAddU64_ok.mp hnext).1, hfactory]

/-- In an aligned world no creation stops at a divergence. -/
theorem createMarketOr_divergence (h : Aligned w) (divergence divergence' : Fault) (ctx : Ctx)
    (config : MarketConfig) (amount : ℤ) (price : ℕ) :
    createMarketOr divergence ctx w config amount price =
      createMarketOr divergence' ctx w config amount price := by
  unfold createMarketOr
  refine bind_congr_ok (fun _ _ => bind_congr_ok (fun _ _ => bind_congr_ok (fun _ _ => ?_)))
  refine bind_congr_ok (fun w0 hfee => ?_)
  have haside := payCreationFee_aside hfee
  refine bind_congr_ok (fun _ _ => bind_congr_ok (fun _ _ => bind_congr_ok (fun _ _ => ?_)))
  refine bind_congr_ok (fun _ _ => bind_congr_ok (fun _ _ => bind_congr_ok (fun reg hreg => ?_)))
  obtain ⟨id, r⟩ := reg
  obtain ⟨hid, rfl⟩ := registerMarket_ok hreg
  rw [haside.registry, h.registryCounter, ← haside.factory] at hid
  have hsame : ∀ fault : Fault, refuse (id ≠ w0.factory.nextMarketId) fault = .ok () :=
    fun fault => refuse_ok.mpr (not_not.mpr hid)
  dsimp only
  rw [hsame, hsame]
  refine bind_congr_ok (fun _ _ =>
    bind_congr_ok (fun _ _ => bind_congr_ok (fun created hcreate => ?_)))
  obtain ⟨poolId, w1⟩ := created
  obtain ⟨hpoolId, _⟩ := createPool_ok hcreate
  have hsame' : ∀ fault : Fault, refuse (poolId ≠ w0.factory.nextMarketId) fault = .ok () := by
    intro fault
    rw [refuse_ok, not_not, hpoolId]
    dsimp only
    rw [haside.amm, h.ammCounter, haside.factory]
  dsimp only
  rw [hsame', hsame']

/-- The creation of a market keeps the alignment. -/
theorem Creates.aligned {amount : ℤ} (h : Aligned w) (hc : Creates w w' config amount market) :
    Aligned w' := by
  have hmarks := hc.marks
  simp only [marketMarks, Prod.mk.injEq] at hmarks
  constructor
  · rw [hc.registryRoles]
    exact h.registryRole
  · rw [hc.ammRoles]
    exact h.ammRole
  · exact hc.registryCounter.trans hc.factoryCounter.symm
  · exact hc.ammCounter.trans hc.factoryCounter.symm
  · intro i stored hm
    rw [hc.markets] at hm
    rw [hc.factoryCounter]
    split at hm
    · next heq =>
      obtain rfl := Option.some.inj hm
      rw [heq]
      exact ⟨hmarks.1, hmarks.2.1, hmarks.2.2.1, hmarks.2.2.2.1, Nat.lt_succ_self _⟩
    · obtain ⟨hid, hpool, hyes, hno, hlt⟩ := h.market i stored hm
      exact ⟨hid, hpool, hyes, hno, Nat.lt_succ_of_lt hlt⟩
  · intro i stored hp
    rw [hc.pools] at hp
    split at hp
    · next heq =>
      obtain rfl := Option.some.inj hp
      rw [heq]
      exact ⟨rfl, rfl⟩
    · exact h.pool i stored hp
  · intro i hpos hlt
    rw [hc.factoryCounter] at hlt
    rw [hc.markets, hc.pools]
    by_cases heq : i = w.factory.nextMarketId
    · rw [if_pos heq, if_pos heq]
      exact ⟨⟨_, rfl⟩, _, rfl⟩
    · rw [if_neg heq, if_neg heq]
      exact h.created i hpos (by omega)

end Creation

section Runs

variable {w : World} {past : List World}

/-- A step of a run keeps what identifies markets and pools, or creates a market. -/
theorem FactoryStep.exec_cases (h : Aligned w) {step : FactoryStep} (hwires : step.rewires = false)
    (hothers : step.byOthers) :
    (RegistryKept w.registry (step.exec w).registry ∧ AmmKept w.amm (step.exec w).amm ∧
      (step.exec w).factory.nextMarketId = w.factory.nextMarketId) ∨
    ∃ ctx config amount price market,
      createMarket ctx w config amount price = .ok (market, step.exec w) := by
  have hquiet : RegistryKept w.registry w.registry ∧ AmmKept w.amm w.amm ∧
      w.factory.nextMarketId = w.factory.nextMarketId :=
    ⟨⟨rfl, rfl, fun _ => rfl⟩, .of_pool rfl rfl rfl, rfl⟩
  cases step with
  | elsewhere v => exact Or.inl hquiet
  | registry ctx op =>
    left
    dsimp only [FactoryStep.exec]
    cases hop : op.exec ctx w.registry with
    | error => exact hquiet
    | ok r =>
      have hassigns : assigns op = false := by
        cases op with
        | registerMarket =>
          obtain ⟨_, hreg, _⟩ := bind_ok.mp hop
          obtain ⟨u, hrole, _⟩ := bind_ok.mp hreg
          exact absurd hrole (Trading.requireRole_outside hothers h.registryRole)
        | setRole => exact hwires
        | _ => rfl
      exact ⟨registryExec_kept (fun i m hm => (h.market i m hm).1) hassigns hop, hquiet.2⟩
  | amm ctx op =>
    left
    dsimp only [FactoryStep.exec]
    cases hop : op.exec ctx w with
    | error => exact hquiet
    | ok w' =>
      have hassigns : AmmKept.assigns op = false := by
        cases op with
        | createPool =>
          obtain ⟨_, hcreate⟩ := world_ok.mp hop
          obtain ⟨u, hrole, _⟩ := bind_ok.mp hcreate
          exact absurd hrole (Trading.requireRole_outside hothers h.ammRole)
        | setRole => exact hwires
        | _ => rfl
      obtain ⟨hamm, hregistry, hfactory⟩ :=
        AmmKept.exec (fun i p hp => (h.pool i p hp).1) hassigns hop
      dsimp only [settled]
      rw [hregistry, hfactory]
      exact ⟨hquiet.1, hamm, rfl⟩
  | factory ctx op =>
    dsimp only [FactoryStep.exec]
    cases hop : op.exec ctx w with
    | error => exact Or.inl hquiet
    | ok w' =>
      dsimp only [settled]
      cases op with
      | createMarket config amount price =>
        obtain ⟨market, hcreate⟩ := world_ok.mp hop
        exact Or.inr ⟨ctx, config, amount, price, market, hcreate⟩
      | upgrade => cases hwires
      | setCreatorByTimelock =>
        obtain ⟨_, _, hop⟩ := bind_ok.mp hop
        obtain ⟨_, _, hop⟩ := bind_ok.mp hop
        obtain ⟨_, _, hop⟩ := bind_ok.mp hop
        obtain rfl := pure_ok.mp hop
        exact Or.inl hquiet
      | _ =>
        obtain ⟨_, hset, hop⟩ := bind_ok.mp hop
        obtain ⟨_, _, hset⟩ := bind_ok.mp hset
        obtain rfl := pure_ok.mp hset
        obtain rfl := pure_ok.mp hop
        exact Or.inl hquiet

/-- The world right after a creator had a market created: the market is live, and all shares of its
pool are the creator's, for a deposit in equal reserves. -/
def Opened (s : World) (i : MarketId) (creator : Address) : Prop :=
  ∃ before ctx config amount price market pool,
    createMarket ctx before config amount price = .ok (market, s) ∧ config.creator = creator ∧
    s.registry.market i = some market ∧ market.status = .live ∧ market.poolId = i ∧
    s.amm.pool i = some pool ∧ pool.marketId = i ∧ 0 < amount ∧ pool.yesReserve = amount ∧
    pool.noReserve = amount ∧ pool.totalLpShares = amount ∧ s.amm.lpBalance (i, creator) = amount

/-- The three contracts agree on the markets: equal counters, for every created market its pool,
both opened by its creator, tokens of its own, and no creation that stops at a divergence. -/
structure MarketsAgree (w : World) (past : List World) : Prop where
  registryCounter : w.registry.nextMarketId = w.factory.nextMarketId
  ammCounter : w.amm.nextPoolId = w.factory.nextMarketId
  created : ∀ i, 1 ≤ i → i < w.factory.nextMarketId → ∃ market pool,
    w.registry.market i = some market ∧ market.poolId = i ∧ w.amm.pool i = some pool ∧
    pool.marketId = i ∧ ∃ s ∈ past, Opened s i market.creator
  tokens : ∀ i j market market', w.registry.market i = some market →
    w.registry.market j = some market' → market.yesTokenId ≠ market'.noTokenId ∧
      (i ≠ j → market.yesTokenId ≠ market'.yesTokenId ∧ market.noTokenId ≠ market'.noTokenId)
  undiverged : ∀ divergence ctx config amount price,
    createMarketOr divergence ctx w config amount price = createMarket ctx w config amount price

/-- What every run keeps: the alignment, and an opening for every market. -/
def Recorded (s : World × List World) : Prop :=
  Aligned s.1 ∧ ∀ i market, s.1.registry.market i = some market →
    ∃ t ∈ s.2, Opened t i market.creator

/-- It holds in every run. -/
theorem recorded_of_reachable {s : World × List World} (h : factorySystem.Reachable s) :
    Recorded s := by
  refine h.invariant ?_ ?_
  · rintro s ⟨hfresh, _⟩
    refine ⟨hfresh.aligned, ?_⟩
    intro i market hm
    rw [hfresh.markets] at hm
    cases hm
  · rintro ⟨w, past⟩ step s' ⟨haligned, hopened⟩ _ hstep
    dsimp only [factorySystem] at hstep
    split at hstep
    · cases hstep
    · next hallowed =>
      obtain ⟨hwires, hothers⟩ := not_or.mp hallowed
      obtain rfl := ok_ok.mp hstep
      obtain ⟨hregistry, hamm, hfactory⟩ | ⟨ctx, config, amount, price, market, hcreate⟩ :=
        FactoryStep.exec_cases haligned (Bool.eq_false_of_not_eq_true hwires) (not_not.mp hothers)
      · refine ⟨haligned.kept hregistry hamm hfactory, ?_⟩
        intro i market' hm
        obtain ⟨market, hold, hmarks⟩ := hregistry.market hm
        simp only [marketMarks, Prod.mk.injEq] at hmarks
        obtain ⟨t, ht, hopen⟩ := hopened i market hold
        rw [hmarks.2.2.2.2]
        exact ⟨t, List.mem_append_left _ ht, hopen⟩
      · have hcreates := createMarketOr_ok haligned hcreate
        refine ⟨hcreates.aligned haligned, ?_⟩
        intro i stored hm
        have hmarket := hcreates.markets i
        dsimp only at hm
        rw [hm] at hmarket
        split at hmarket
        · next heq =>
          obtain rfl := Option.some.inj hmarket
          have hmarks := hcreates.marks
          simp only [marketMarks, Prod.mk.injEq] at hmarks
          have hpool := hcreates.pools i
          rw [if_pos heq, ← heq] at hpool
          have hshares := hcreates.shares
          rw [← heq] at hshares
          refine ⟨_, List.mem_append_right _ List.mem_cons_self, w, ctx, config, amount, price,
            stored, _, hcreate, hmarks.2.2.2.2.symm, hm, hcreates.live, ?_, hpool, rfl,
            hcreates.positive, rfl, rfl, rfl, ?_⟩
          · rw [hmarks.2.1, heq]
          · rw [hmarks.2.2.2.2]
            exact hshares
        · obtain ⟨t, ht, hopen⟩ := hopened i stored hmarket.symm
          exact ⟨t, List.mem_append_left _ ht, hopen⟩

/-- In every run, whatever fails or succeeds in it, the three contracts agree on the markets. -/
theorem marketsAgree_of_reachable (h : factorySystem.Reachable (w, past)) :
    MarketsAgree w past := by
  obtain ⟨haligned, hopened⟩ := recorded_of_reachable h
  constructor
  · exact haligned.registryCounter
  · exact haligned.ammCounter
  · intro i hpos hlt
    obtain ⟨⟨market, hm⟩, pool, hp⟩ := haligned.created i hpos hlt
    exact ⟨market, pool, hm, (haligned.market i market hm).2.1, hp, (haligned.pool i pool hp).2,
      hopened i market hm⟩
  · intro i j market market' hm hm'
    obtain ⟨_, _, hyes, hno, _⟩ := haligned.market i market hm
    obtain ⟨_, _, hyes', hno', _⟩ := haligned.market j market' hm'
    rw [hyes, hno, hyes', hno']
    refine ⟨by omega, fun hne => ?_⟩
    have hne' : 2 * i ≠ 2 * j := fun heq => hne (Nat.eq_of_mul_eq_mul_left two_pos heq)
    exact ⟨hne', fun heq => hne' (Nat.succ.inj heq)⟩
  · intro divergence ctx config amount price
    exact createMarketOr_divergence haligned divergence _ ctx config amount price

end Runs

section Sample

/-- A creation of a market by the creator of the sample deployment. -/
def createsSample (question : String) : FactoryStep :=
  .factory (bySigner (.account 1)) (.createMarket { sampleConfig with question } 100 5000)

/-- A market, a call without a question that fails, and another market. -/
theorem marketsAgree_sample : ∃ w past, factorySystem.runs (deploy sampleLaunch, [])
    [createsSample "first", createsSample "", createsSample "second"] = .ok (w, past) ∧
    w.factory.nextMarketId = 3 ∧ MarketsAgree w past := by
  obtain ⟨⟨w, past⟩, hs, hcount⟩ := System.runs_of_decide (S := factorySystem)
    (deploy sampleLaunch, []) [createsSample "first", createsSample "", createsSample "second"]
    (fun s => s.1.factory.nextMarketId = 3) (by decide +kernel)
  exact ⟨w, past, hs, of_decide_eq_true hcount, marketsAgree_of_reachable
    (System.Reachable.runs (.init ⟨deploy_fresh sampleLaunch, rfl⟩) _ hs)⟩

end Sample

end DikeProtocol.Factory
