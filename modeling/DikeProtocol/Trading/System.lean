import DikeProtocol.Amm.Steps
import DikeProtocol.Vault.Falls
import DikeProtocol.Vault.System

/-!
# Market maker, vault, tokens and registry as one system

Every public entry point of the four contracts, invoked by anyone from
outside the three that trade, starting from a deployment whose wiring stays.
Balances of foreign tokens may change at any time.
-/

namespace DikeProtocol.Trading

open Lib
open Vault (Sane Outside NoNewDebt Calm)

/-- An invocation of one of the four contracts. -/
inductive TradeOp where
  | amm (op : Amm.AmmOp)
  | vault (op : Vault.VaultOp)
  | tokens (op : Tokens.TokensOp)
  | registry (op : Registry.RegistryOp)

/-- Execute an invocation. -/
def TradeOp.exec (ctx : Ctx) (w : World) : TradeOp → Res World
  | amm op => op.exec ctx w
  | vault op => op.exec ctx w
  | tokens op => op.exec ctx w
  | registry op => do
    let r ← op.exec ctx w.registry
    return { w with registry := r }

/-- Invocations by which an administrator replaces code or wiring. -/
def TradeOp.rewires : TradeOp → Bool
  | amm (.upgrade _) | amm (.setRole _ _) | amm (.setModules _ _ _ _) => true
  | vault (.upgrade _) | vault (.setRole _ _) => true
  | tokens (.upgrade _) | tokens (.setRole _ _) => true
  | registry (.upgrade _) => true
  | _ => false

/-- Invocations from outside the market maker, the vault and the tokens. -/
def FromOutside (ctx : Ctx) : Prop :=
  Outside .amm ctx ∧ Outside .vault ctx ∧ Outside .tokens ctx

instance (ctx : Ctx) : Decidable (FromOutside ctx) :=
  inferInstanceAs (Decidable (_ ∧ _ ∧ _))

/-- One step of a run. -/
inductive TradeStep where
  /-- An invocation. -/
  | call (ctx : Ctx) (op : TradeOp)
  /-- Balances of foreign tokens change. -/
  | outside (bank : Bank)

/-- Runs of the four contracts from a deployment. -/
def tradingSystem : System World TradeStep Fault where
  Init := fun w => ∃ l : Launch, w = deploy l
  step := fun w step =>
    match step with
    | .call ctx op => do
      refuse (¬FromOutside ctx) .trap
      refuse (op.rewires = true) .trap
      op.exec ctx w
    | .outside bank => .ok { w with bank := bank }

/-- A successful invocation of a run comes from outside, rewires nothing and is executed. -/
theorem tradingSystem_call {w w' : World} {ctx : Ctx} {op : TradeOp}
    (h : tradingSystem.step w (.call ctx op) = .ok w') :
    FromOutside ctx ∧ op.rewires = false ∧ op.exec ctx w = .ok w' := by
  obtain ⟨_, hout, h⟩ := bind_ok.mp h
  obtain ⟨_, hrewires, h⟩ := bind_ok.mp h
  exact ⟨not_not.mp (refuse_ok.mp hout), Bool.eq_false_iff.mpr (refuse_ok.mp hrewires), h⟩

/-- What every run keeps: sane books, the wiring, a market maker that owes
nothing, balances that are never negative and none in the invalid outcome,
and markets stored under their own identifiers. -/
structure TradeInvariant (w : World) : Prop where
  sane : Sane w.vault
  ammRole : w.vault.roles .amm = some (.contract .amm)
  tokensAmm : w.tokens.roles .amm = some (.contract .amm)
  tokensVault : w.tokens.roles .vault = some (.contract .vault)
  ammChildFree : ∀ m, w.vault.childDebt (m, .contract .amm) ≤ 0
  ammParentFree : ∀ m o, w.vault.parentDebt (m, .contract .amm, o) ≤ 0
  balance_nonneg : ∀ k, 0 ≤ w.tokens.balance k
  noInvalid : ∀ m a, w.tokens.balance (m, a, .invalid) ≤ 0
  registered : ∀ m market, w.registry.market m = some market →
    market.id = m ∧ m < w.registry.nextMarketId
  finalResolved : ∀ m market, w.registry.market m = some market → market.hasFinalOutcome = true →
    market.status = .resolved
  debtRegistered : ∀ m u o, 0 < w.vault.parentDebt (m, u, o) →
    ∃ market, w.registry.market m = some market

/-- The call stack of what the market maker invokes is still outside the vault. -/
theorem FromOutside.within {ctx : Ctx} (h : FromOutside ctx) : Outside .vault (Amm.within ctx) := by
  refine ⟨h.2.1.1, ?_⟩
  intro hk
  rcases List.mem_cons.mp hk with heq | hk
  · cases heq
  · exact h.2.1.2 hk

/-- A role held by a contract is not exercised from outside it. -/
theorem requireRole_outside {c : Contract} {ctx : Ctx} (hctx : Outside c ctx)
    {roles : Store Role (Option Address)} {role : Role} (hr : roles role = some (.contract c))
    {u : Unit} : requireRole ctx roles role ≠ .ok u := by
  intro h
  obtain ⟨a, ha, hauth⟩ := requireRole_ok.mp h
  rw [hr] at ha
  obtain rfl := Option.some.inj ha
  rcases hauth with hs | hc
  · exact hctx.1 hs
  · exact hctx.2 (List.mem_of_mem_head? hc)

/-- Entry points of the vault that are shut to everyone but the market maker, and
the two that refuse everyone. -/
def shut : Vault.VaultOp → Bool
  | .depositForMarket _ _ _ _ | .recordCashStake _ _ _ _ _ | .fundChildPrediction _ _ _ _ => true
  | .openChildCreditForTrade _ _ _ _ _ _ | .releaseTradePayout _ _ _ _ _ _ => true
  | .liquidateRelease _ _ _ _ _ _ _ | .liquidateChildRelease _ _ _ _ _ _ _ => true
  | .redeem _ _ _ _ _ _ | .collectFee _ _ _ _ | .claimLpFees _ _ _ _ => true
  | _ => false

/-- From outside the market maker, the vault executes nothing that is shut there. -/
theorem not_shut {ctx : Ctx} {w w' : World} (hctx : Outside .amm ctx)
    (hrole : w.vault.roles .amm = some (.contract .amm)) {op : Vault.VaultOp}
    (h : op.exec ctx w = .ok w') : shut op = false := by
  have hamm : ∀ {u : Unit}, requireRole ctx w.vault.roles .amm ≠ .ok u :=
    requireRole_outside hctx hrole
  cases op with
  | depositForMarket | recordCashStake | openChildCreditForTrade | releaseTradePayout | collectFee
    | claimLpFees =>
    obtain ⟨_, hcaller, _⟩ := bind_ok.mp h
    exact absurd hcaller hamm
  | liquidateRelease | liquidateChildRelease =>
    obtain ⟨_, h⟩ := world_ok.mp h
    obtain ⟨_, hcaller, _⟩ := bind_ok.mp h
    exact absurd hcaller hamm
  | fundChildPrediction => cases h
  | redeem =>
    obtain ⟨_, h⟩ := world_ok.mp h
    cases h
  | _ => rfl

namespace TradeInvariant

variable {w w' : World}

/-- A calm invocation of the vault keeps the invariant. -/
theorem calm (hw : TradeInvariant w) (h : Calm w w') : TradeInvariant w' := by
  obtain ⟨v, b, rfl⟩ := h.shape
  have hroles := h.roles
  have hdebts := h.debts
  refine { hw with sane := h.sane, ammRole := ?_, ammChildFree := ?_, ammParentFree := ?_,
                   debtRegistered := ?_ }
  · rw [hroles]
    exact hw.ammRole
  · intro m
    exact (hdebts.childDebt _).trans (hw.ammChildFree m)
  · intro m o
    exact (hdebts.parentDebt _).trans (hw.ammParentFree m o)
  · intro m u o hpos
    exact hw.debtRegistered m u o (lt_of_lt_of_le hpos (hdebts.parentDebt _))

/-- New balances of the same tokens keep the invariant when none is negative. -/
theorem withTokens (hw : TradeInvariant w) {t : TokensState} (hroles : t.roles = w.tokens.roles)
    (hnonneg : ∀ k, 0 ≤ t.balance k) (hinvalid : ∀ m a, t.balance (m, a, .invalid) ≤ 0) :
    TradeInvariant { w with tokens := t } := by
  refine { hw with tokensAmm := ?_, tokensVault := ?_, balance_nonneg := hnonneg,
                   noInvalid := hinvalid }
  · rw [hroles]
    exact hw.tokensAmm
  · rw [hroles]
    exact hw.tokensVault

/-- The market maker's own storage does not matter. -/
theorem withAmm (hw : TradeInvariant w) (a : AmmState) : TradeInvariant { w with amm := a } :=
  { hw with }

/-- Child credit opened by anyone but the market maker keeps the invariant. -/
theorem openCredit (hw : TradeInvariant w) {ctx : Ctx} {user : Address} (hu : user ≠ .contract .amm)
    {p c : MarketId} {po co : Outcome} {x : ℤ}
    (h : Vault.openChildCreditForTrade ctx w user p po c co x = .ok w') : TradeInvariant w' := by
  obtain ⟨v, rfl, hsane, hroles, _, _, ⟨market, hm, _⟩, hchild, hparent⟩ :=
    Vault.openChildCreditForTrade_debts hw.sane h
  refine { hw with sane := hsane, ammRole := ?_, ammChildFree := ?_, ammParentFree := ?_,
                   debtRegistered := ?_ }
  · rw [hroles]
    exact hw.ammRole
  · intro m
    dsimp only
    rw [hchild, Store.set_get_of_ne _ _ (fun hk => hu (Prod.mk.inj hk).2.symm)]
    exact hw.ammChildFree m
  · intro m o
    dsimp only
    rw [hparent, Store.set_get_of_ne _ _ (fun hk => hu (Prod.mk.inj (Prod.mk.inj hk).2).1.symm)]
    exact hw.ammParentFree m o
  · intro m u o hpos
    dsimp only at hpos ⊢
    rw [hparent, Store.set_get] at hpos
    split at hpos
    · next hk =>
      rw [(Prod.mk.inj hk).1]
      exact ⟨market, hm⟩
    · exact hw.debtRegistered m u o hpos

/-- Minted complete sets keep the invariant. -/
theorem mint (hw : TradeInvariant w) {t : TokensState} {m : MarketId} {a : Address} {x : ℤ}
    (hx : 0 < x) (h : Tokens.creditCompleteSet w.tokens m a x = .ok t) :
    TradeInvariant { w with tokens := t } := by
  obtain ⟨_, hroles, hbal⟩ := Tokens.creditCompleteSet_ok h
  refine hw.withTokens hroles ?_ ?_
  · intro k
    have hk := hw.balance_nonneg k
    rw [hbal]
    split <;> omega
  · intro m' a'
    have hk := hw.noInvalid m' a'
    rw [hbal, if_neg (by simp)]
    omega

/-- Merged complete sets keep the invariant. -/
theorem merge (hw : TradeInvariant w) {ctx : Ctx} {t : TokensState} {m : MarketId} {a : Address}
    {x : ℤ} (h : Tokens.mergePositions ctx w.tokens a m x = .ok t) :
    TradeInvariant { w with tokens := t } := by
  obtain ⟨_, hyes, hno, _, hroles, hbal⟩ := Tokens.mergePositions_ok h
  refine hw.withTokens hroles ?_ ?_
  · intro k
    have hk := hw.balance_nonneg k
    rw [hbal]
    split
    · next heq =>
      rcases heq with rfl | rfl <;> omega
    · omega
  · intro m' a'
    have hk := hw.noInvalid m' a'
    rw [hbal, if_neg (by simp)]
    omega

/-- Moved tokens keep the invariant. -/
theorem move (hw : TradeInvariant w) {t : TokensState} {a b : Address} {m : MarketId} {o : Outcome}
    {x : ℤ} (hx : 0 < x) (h : Tokens.moveBalance w.tokens a b m o x = .ok t) :
    TradeInvariant { w with tokens := t } := by
  obtain ⟨hheld, _, hroles, hbal⟩ := Tokens.moveBalance_ok h
  refine hw.withTokens hroles ?_ ?_
  · intro k
    have hk := hw.balance_nonneg k
    rw [hbal]
    split
    · next heq =>
      rw [← heq] at hheld
      split <;> omega
    · split <;> omega
  · intro m' a'
    have hk := hw.noInvalid m' a'
    have ha := hw.noInvalid m a
    have ho : o ≠ .invalid := by
      intro ho
      rw [ho] at hheld
      omega
    rw [hbal, if_neg (by simp [ho.symm]), if_neg (by simp [ho.symm])]
    omega

/-- Burned tokens keep the invariant. -/
theorem burn (hw : TradeInvariant w) {t : TokensState} {m : MarketId} {a : Address} {o : Outcome}
    {x : ℤ} (hx : 0 < x) (h : Tokens.subBalance w.tokens m a o x = .ok t) :
    TradeInvariant { w with tokens := t } := by
  obtain ⟨hheld, rfl⟩ := Tokens.subBalance_ok h
  refine hw.withTokens rfl ?_ ?_
  · exact Vault.nonneg_set hw.balance_nonneg (by omega)
  · intro m' a'
    have hk := hw.noInvalid m' a'
    dsimp only
    rw [Store.set_get]
    split
    · next heq =>
      rw [heq] at hk
      omega
    · exact hk

/-- Markets that move along their life keep the invariant. -/
theorem withRegistry (hw : TradeInvariant w) {r : RegistryState}
    (h : Registry.MarketsFollow w.registry r) : TradeInvariant { w with registry := r } := by
  have hordered := h.ordered ⟨hw.registered, hw.finalResolved⟩
  refine { hw with registered := hordered.registered, finalResolved := hordered.finalResolved,
                   debtRegistered := ?_ }
  intro m u o hpos
  obtain ⟨market, hm⟩ := hw.debtRegistered m u o hpos
  exact h.stored hm

end TradeInvariant

end DikeProtocol.Trading
