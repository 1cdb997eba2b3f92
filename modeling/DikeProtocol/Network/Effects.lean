import DikeProtocol.Lib.Within
import DikeProtocol.Network.Reentry

/-!
# What an invocation leaves alone

Two questions about every entry point of the ten contracts, answered along the
calls it makes: which settings does it write, and whose property does it take?
Settings are what governance and the administrators decide. The property of an
account is its collateral, its outcome tokens and its liquidity shares.
-/

namespace DikeProtocol.Network

open Lib

/-- What the administrators and governance decide: who is in charge, who calls
whom, whom the contracts serve, what is paused and which fees are due. It is
the world without all that the users of the protocol write. -/
def settings (w : World) : World :=
  { w with
    registry := { w.registry with market := .empty, nextMarketId := 1 }
    tokens := { w.tokens with balance := .empty, backing := .empty }
    vault := { freshVault w.vault.admin w.vault.treasury with
      roles := w.vault.roles
      paused := w.vault.paused }
    amm := { w.amm with
      pool := .empty
      poolFee := .empty
      lpBalance := .empty
      lpFeeCheckpoint := .empty
      nextPoolId := 1 }
    council := { freshCouncil w.council.admin with
      roles := w.council.roles
      member := w.council.member
      paused := w.council.paused }
    oracle := { freshOracle w.oracle.admin with
      roles := w.oracle.roles
      paused := w.oracle.paused }
    timelock := { w.timelock with nextActionId := 1, action := .empty }
    factory := { w.factory with nextMarketId := 1 }
    bank := .empty }

/-- What an invocation leaves alone. An account loses nothing without its
`consent`, but outcome tokens where its position is `sold` for it. Settings stay
unless someone who decides them authorizes the change. -/
structure Leaves (u : Address) (consent sold keyed : Prop) (w w' : World) : Prop where
  kept : ¬keyed → settings w' = settings w
  collateral : ¬consent → ∀ t, w.bank.bal t u ≤ w'.bank.bal t u
  shares : ¬consent → ∀ p, w.amm.lpBalance (p, u) ≤ w'.amm.lpBalance (p, u)
  positions : ¬consent → ¬sold → ∀ m o,
    w.tokens.balance (m, u, o) ≤ w'.tokens.balance (m, u, o)

section Leaves

variable {u : Address} {consent sold keyed : Prop} {w w' w'' : World}

/-- Nothing happens. -/
theorem Leaves.refl (w : World) : Leaves u consent sold keyed w w :=
  ⟨fun _ => rfl, fun _ _ => le_rfl, fun _ _ => le_rfl, fun _ _ _ _ => le_rfl⟩

/-- One step after another. -/
theorem Leaves.trans (h : Leaves u consent sold keyed w w')
    (h' : Leaves u consent sold keyed w' w'') : Leaves u consent sold keyed w w'' :=
  ⟨fun hk => (h'.kept hk).trans (h.kept hk),
    fun hc t => (h.collateral hc t).trans (h'.collateral hc t),
    fun hc p => (h.shares hc p).trans (h'.shares hc p),
    fun hc hs m o => (h.positions hc hs m o).trans (h'.positions hc hs m o)⟩

instance : IsTrans World (Leaves u consent sold keyed) := ⟨fun _ _ _ => Leaves.trans⟩

/-- A change of anything but settings, balances, tokens and shares. -/
theorem Leaves.same (hkept : ¬keyed → settings w' = settings w) (hbank : w'.bank = w.bank)
    (hshares : w'.amm.lpBalance = w.amm.lpBalance)
    (hbalance : w'.tokens.balance = w.tokens.balance) : Leaves u consent sold keyed w w' := by
  refine ⟨hkept, ?_, ?_, ?_⟩
  · intro _ t
    rw [hbank]
  · intro _ p
    rw [hshares]
  · intro _ _ m o
    rw [hbalance]

end Leaves

/-- The account is no contract, and an authorization it gives is consent. -/
structure Consents (u : Address) (consent : Prop) (ctx : Ctx) : Prop where
  outsider : Outsider u
  given : u ∈ ctx.signers ∨ ctx.callers.head? = some u → consent

section Consents

variable {u : Address} {consent : Prop} {ctx called : Ctx}

/-- No contract is such an account. -/
theorem Consents.ne (h : Consents u consent ctx) (c : Contract) : .contract c ≠ u := by
  rintro rfl
  exact h.outsider

/-- In what an invocation calls, consent is given by signature only. -/
theorem Consents.call (h : Consents u consent ctx) {self target : Contract} {address : Address}
    (hcall : ctx.call self address target = .ok called) : Consents u consent called := by
  obtain ⟨_, _, rfl⟩ := Ctx.call_ok.mp hcall
  refine ⟨h.outsider, ?_⟩
  rintro (hs | hc)
  · exact h.given (Or.inl hs)
  · exact absurd (Option.some.inj hc) (h.ne self)

/-- Whoever authorizes consents. -/
theorem Consents.auth (h : Consents u consent ctx) {a : Address} {x : Unit}
    (hauth : requireAuth ctx a = .ok x) (hn : ¬consent) : a ≠ u := by
  rintro rfl
  exact hn (h.given (requireAuth_ok.mp hauth))

end Consents

section Vault

variable {u : Address} {consent sold keyed : Prop} {ctx : Ctx} {w : World} {m c : MarketId}
  {a k : Address} {o co : Outcome} {x y : ℤ} {token : Asset} {r : ℕ} {d : Bool}

/-- Updates of the vault's books. -/
theorem Leaves.books {v : VaultState} (h : Vault.Frame w.vault v) :
    Leaves u consent sold keyed w { w with vault := v } := by
  refine .same (fun _ => ?_) rfl rfl rfl
  unfold settings
  dsimp only
  rw [h.admin, h.treasury, h.roles, h.paused]

/-- A transfer takes from who signed for it, or from the contract that asks for it. -/
theorem transferToken_leaves (hc : Consents u consent ctx) {self : Contract} {s : Address} :
    Within (Leaves u consent sold keyed) w id (transferToken ctx self w token s a x) := by
  intro w' h
  obtain ⟨hs, b, hb, rfl⟩ := transferToken_ok.mp h
  refine ⟨fun _ => rfl, ?_, fun _ _ => le_rfl, fun _ _ _ _ => le_rfl⟩
  intro hn t
  have hne : ¬(t = token ∧ u = s) := by
    rintro ⟨_, rfl⟩
    rcases hs with hs | rfl
    · exact hn (hc.given (Or.inl hs))
    · exact hc.outsider
  have hpos := (Bank.transfer_ok.mp hb).1
  have hbal := Bank.transfer_bal hb t u
  rw [if_neg hne] at hbal
  dsimp only [id]
  split at hbal <;> omega

/-- A payment out of the vault takes from nobody else. -/
theorem payPositive_leaves (hc : Consents u consent ctx) :
    Within (Leaves u consent sold keyed) w id (Vault.payPositive ctx w token a x) := by
  unfold Vault.payPositive
  split
  · exact transferToken_leaves hc
  · exact within_ok.mpr (.refl w)

/-- A deposit takes from the depositor. -/
theorem depositForMarket_leaves (hc : Consents u consent ctx) :
    Within (Leaves u consent sold keyed) w id (Vault.depositForMarket ctx w token a m x) := by
  refine .skip fun _ => .skip fun _ => .skip fun _ => .skip fun _ => .skip fun _ => ?_
  refine .step (transferToken_leaves hc) fun w1 => within_bind.mpr fun v hv => .skip fun _ => ?_
  have hframe := Vault.Frame.recordDeposit hv
  exact within_pure.mpr (.books ⟨hframe.admin, hframe.roles, hframe.treasury, hframe.bond,
    hframe.bondToken, hframe.bondMarket, hframe.paused⟩)

/-- Recording a stake takes nothing. -/
theorem recordCashStake_leaves :
    Within (Leaves u consent sold keyed) w id (Vault.recordCashStake ctx w a m o x y) :=
  .skip fun _ => .skip fun _ => .skip fun _ => within_pure.mpr (.same (fun _ => rfl) rfl rfl rfl)

/-- A loan moves backing between markets. -/
theorem openChildCreditForTrade_leaves :
    Within (Leaves u consent sold keyed) w id
      (Vault.openChildCreditForTrade ctx w a m o c co x) := by
  iterate 10 refine .skip fun _ => ?_
  refine within_bind.mpr fun v hloan => within_bind.mpr fun v' hmove => within_pure.mpr ?_
  exact .books ((Vault.Frame.recordLoan hloan).trans (Vault.Frame.reallocateBacking hmove))

/-- A repayment takes from who repays. -/
theorem repayChildCollateral_leaves (hc : Consents u consent ctx) :
    Within (Leaves u consent sold keyed) w Prod.snd
      (Vault.repayChildCollateral ctx w token a c x) := by
  iterate 3 refine .skip fun _ => ?_
  refine .step (transferToken_leaves hc) fun w1 => within_bind.mpr ?_
  rintro ⟨applied, v⟩ hsettle
  refine .skip fun unused => .after (.books (Vault.Frame.settleChildDebt hsettle)) ?_
  exact .step (payPositive_leaves hc) fun w2 => within_pure.mpr (.refl w2)

/-- A seller whose position is free is paid. -/
theorem releaseTradePayout_leaves (hc : Consents u consent ctx) :
    Within (Leaves u consent sold keyed) w id (Vault.releaseTradePayout ctx w token a m o x y) := by
  iterate 4 refine .skip fun _ => ?_
  exact within_bind.mpr fun v hout =>
    .after (.books (Vault.Frame.extractProceeds hout)) (transferToken_leaves hc)

/-- The keeper's bonus and what is left for the user are paid by the vault. -/
theorem payBoth_leaves (hc : Consents u consent ctx) {v : VaultState} {s : Address} {z : ℤ}
    (hv : Vault.Frame w.vault v) :
    Within (Leaves u consent sold keyed) w Prod.snd (do
      let w ← Vault.payPositive ctx { w with vault := v } token s x
      let w ← Vault.payPositive ctx w token a y
      return (z, w)) := by
  refine .after (.books hv) (.step (payPositive_leaves hc) fun w1 => ?_)
  exact .step (payPositive_leaves hc) fun w2 => within_pure.mpr (.refl w2)

/-- The settlement of a parent position pays keeper and user. -/
theorem liquidateRelease_leaves (hc : Consents u consent ctx) :
    Within (Leaves u consent sold keyed) w Prod.snd
      (Vault.liquidateRelease ctx w token a k m o x y) := by
  iterate 4 refine .skip fun _ => ?_
  refine within_bind.mpr fun v1 hout => .skip fun _ => .skip fun _ => within_bind.mpr ?_
  rintro ⟨remainder, repaid, v2⟩ hsettle
  refine within_bind.mpr fun v3 hdefault => ?_
  exact payBoth_leaves hc (((Vault.Frame.extractProceeds hout).trans
    (Vault.Frame.settleChildren _ hsettle)).trans (Vault.Frame.default_if hdefault))

/-- So does the settlement of a child position. -/
theorem liquidateChildRelease_leaves (hc : Consents u consent ctx) :
    Within (Leaves u consent sold keyed) w Prod.snd
      (Vault.liquidateChildRelease ctx w token a k c o x y) := by
  iterate 4 refine .skip fun _ => ?_
  refine within_bind.mpr fun v1 hout => .skip fun _ => .skip fun _ => within_bind.mpr ?_
  rintro ⟨applied, v2⟩ hsettle
  refine .skip fun remainder => within_bind.mpr fun v3 hdefault => ?_
  exact payBoth_leaves hc (((Vault.Frame.extractProceeds hout).trans
    (Vault.Frame.settleChildDebt hsettle)).trans (Vault.Frame.default_if hdefault))

/-- A redemption is paid by the vault. -/
theorem payRedemption_leaves (hc : Consents u consent ctx) :
    Within (Leaves u consent sold keyed) w id (Vault.payRedemption ctx w token a m x) := by
  unfold Vault.payRedemption
  split
  · refine .skip fun redeemed => .skip fun refundable => ?_
    refine .after ?_ (transferToken_leaves hc)
    exact .same (fun _ => rfl) rfl rfl rfl
  · exact within_ok.mpr (.refl w)

/-- Tokens an owner gives up are the owner's. -/
theorem subBalance_leaves {t : TokensState} (hn : ¬consent → ¬sold → a ≠ u)
    (h : Tokens.subBalance w.tokens m a o x = .ok t) :
    Leaves u consent sold keyed w { w with tokens := t } := by
  obtain ⟨_, rfl⟩ := Tokens.subBalance_ok h
  refine ⟨fun _ => rfl, fun _ _ => le_rfl, fun _ _ => le_rfl, ?_⟩
  intro hconsent hsold m' o'
  have hne : (m', u, o') ≠ (m, a, o) := by
    intro hk
    exact hn hconsent hsold (Prod.mk.inj (Prod.mk.inj hk).2).1.symm
  dsimp only
  rw [Store.set_get_of_ne _ _ hne]

/-- A redemption in a resolved market takes the redeemer's tokens. -/
theorem redeemResolved_leaves (hc : Consents u consent ctx) :
    Within (Leaves u consent sold keyed) w Prod.snd
      (Vault.redeemResolved ctx w token a m o x) := by
  refine within_bind.mpr fun _ hauth => ?_
  iterate 7 refine .skip fun _ => ?_
  refine within_bind.mpr ?_
  rintro ⟨gross, payout, v1⟩ hsettle
  refine .skip fun called => within_bind.mpr fun t hburn => within_bind.mpr fun v2 hretire => ?_
  have hburned : Leaves u consent sold keyed w { w with tokens := t } :=
    subBalance_leaves (fun hn _ => hc.auth hauth hn) (Tokens.burnForRedeem_ok hburn).2
  have hframe := (Vault.Frame.settleResolved hsettle).trans (Vault.Frame.retireClaim hretire)
  refine .after (hburned.trans (.books hframe)) ?_
  exact .step (payRedemption_leaves hc) fun w' => within_pure.mpr (.refl w')

/-- So does a redemption in a cancelled market. -/
theorem redeemCancelled_leaves (hc : Consents u consent ctx) :
    Within (Leaves u consent sold keyed) w Prod.snd
      (Vault.redeemCancelled ctx w token a m o x) := by
  refine within_bind.mpr fun _ hauth => ?_
  iterate 5 refine .skip fun _ => ?_
  refine within_bind.mpr fun t hburn => within_bind.mpr ?_
  rintro ⟨payout, v1⟩ hsettle
  have hburned : Leaves u consent sold keyed w { w with tokens := t } :=
    subBalance_leaves (fun hn _ => hc.auth hauth hn) (Tokens.burnForRedeem_ok hburn).2
  refine .after (hburned.trans (.books (Vault.Frame.settleCancelled hsettle))) ?_
  exact .step (payRedemption_leaves hc) fun w' => within_pure.mpr (.refl w')

/-- A bond is taken from who locks it. -/
theorem lockBond_leaves (hc : Consents u consent ctx) :
    Within (Leaves u consent sold keyed) w id (Vault.lockBond ctx w token a r m x d) := by
  iterate 4 refine .skip fun _ => ?_
  exact .step (transferToken_leaves hc) fun w1 => .skip fun _ =>
    within_pure.mpr (.same (fun _ => rfl) rfl rfl rfl)

/-- A bond is paid by the vault, whoever asks. -/
theorem payBond_leaves (hu : Outsider u) :
    Within (Leaves u consent sold keyed) w id (Vault.payBond ctx w token a r x d k) := by
  intro w' h
  obtain ⟨_, _, market, left, b, _, _, _, _, hpay, rfl⟩ := Vault.payBond_ok.mp h
  have hbooks : Leaves u consent sold keyed w
      { w with vault := Vault.withoutBond w.vault (r, a, d) market left x } :=
    .same (fun _ => rfl) rfl rfl rfl
  have hnobody : Consents u consent ⟨0, [], []⟩ := ⟨hu, by simp⟩
  exact hbooks.trans (transferToken_leaves hnobody _
    (transferToken_ok.mpr ⟨Or.inr rfl, b, hpay, rfl⟩))

/-- Fees are booked, not moved. -/
theorem collectFee_leaves {lp protocol cod : ℤ} :
    Within (Leaves u consent sold keyed) w id (Vault.collectFee ctx w m lp protocol cod) := by
  iterate 9 refine .skip fun _ => ?_
  exact within_pure.mpr (.same (fun _ => rfl) rfl rfl rfl)

/-- Liquidity fees are paid by the vault. -/
theorem claimLpFees_leaves (hc : Consents u consent ctx) :
    Within (Leaves u consent sold keyed) w id (Vault.claimLpFees ctx w token m a x) := by
  iterate 5 refine .skip fun _ => ?_
  refine .after ?_ (transferToken_leaves hc)
  exact .same (fun _ => rfl) rfl rfl rfl

/-- Swept fees are paid by the vault. -/
theorem sweepProtocolFees_leaves (hc : Consents u consent ctx) :
    Within (Leaves u consent sold keyed) w Prod.snd (Vault.sweepProtocolFees ctx w token m) := by
  iterate 3 refine .skip fun _ => ?_
  dsimp only
  split
  · iterate 3 refine .skip fun _ => ?_
    refine .after ?_ (.step (payPositive_leaves hc) fun w1 => within_pure.mpr (.refl w1))
    exact .same (fun _ => rfl) rfl rfl rfl
  · exact within_pure.mpr (.same (fun _ => rfl) rfl rfl rfl)

end Vault


section Tokens

variable {u : Address} {consent sold keyed : Prop} {ctx : Ctx} {w : World} {t : TokensState}
  {m : MarketId} {a b : Address} {o : Outcome} {x : ℤ}

/-- Tokens that are credited are taken from nobody. -/
theorem addBalance_leaves (hx : 0 < x) (h : Tokens.addBalance w.tokens m a o x = .ok t) :
    Leaves u consent sold keyed w { w with tokens := t } := by
  rw [Tokens.addBalance_ok h]
  refine ⟨fun _ => rfl, fun _ _ => le_rfl, fun _ _ => le_rfl, ?_⟩
  intro _ _ m' o'
  dsimp only
  rw [Store.set_get]
  split
  · next hk =>
    rw [hk]
    omega
  · exact le_rfl

/-- Neither are complete sets. -/
theorem creditCompleteSet_leaves (hx : 0 < x)
    (h : Tokens.creditCompleteSet w.tokens m a x = .ok t) :
    Leaves u consent sold keyed w { w with tokens := t } := by
  obtain ⟨t1, h1, h⟩ := bind_ok.mp h
  obtain ⟨t2, h2, h⟩ := bind_ok.mp h
  obtain ⟨next, _, h⟩ := bind_ok.mp h
  obtain rfl := pure_ok.mp h
  have hyes : Leaves u consent sold keyed w { w with tokens := t1 } := addBalance_leaves hx h1
  have hno := hyes.trans (addBalance_leaves (w := { w with tokens := t1 }) hx h2)
  exact hno.trans (.same (fun _ => rfl) rfl rfl rfl)

/-- Complete sets are merged from what their owner has. -/
theorem mergePositions_leaves (hn : ¬consent → ¬sold → a ≠ u)
    (h : Tokens.mergePositions ctx w.tokens a m x = .ok t) :
    Leaves u consent sold keyed w { w with tokens := t } := by
  obtain ⟨_, _, h⟩ := bind_ok.mp h
  obtain ⟨_, _, h⟩ := bind_ok.mp h
  obtain ⟨t1, h1, h⟩ := bind_ok.mp h
  obtain ⟨t2, h2, h⟩ := bind_ok.mp h
  obtain ⟨_, _, h⟩ := bind_ok.mp h
  obtain ⟨next, _, h⟩ := bind_ok.mp h
  obtain rfl := pure_ok.mp h
  have hyes : Leaves u consent sold keyed w { w with tokens := t1 } := subBalance_leaves hn h1
  have hno := hyes.trans (subBalance_leaves (w := { w with tokens := t1 }) hn h2)
  exact hno.trans (.same (fun _ => rfl) rfl rfl rfl)

/-- A move takes from the sender. -/
theorem moveBalance_leaves (hx : 0 < x) (hn : ¬consent → ¬sold → a ≠ u)
    (h : Tokens.moveBalance w.tokens a b m o x = .ok t) :
    Leaves u consent sold keyed w { w with tokens := t } := by
  obtain ⟨t1, h1, h⟩ := bind_ok.mp h
  have hsub : Leaves u consent sold keyed w { w with tokens := t1 } := subBalance_leaves hn h1
  exact hsub.trans (addBalance_leaves (w := { w with tokens := t1 }) hx h)

/-- A transfer is asked for by the sender. -/
theorem transferPosition_leaves (hc : Consents u consent ctx) :
    Within (Leaves u consent sold keyed) w id (Tokens.transferPosition ctx w a b m o x) := by
  intro w' h
  obtain ⟨hauth, hx, _, _, t, ht, rfl⟩ := Tokens.transferPosition_ok h
  exact moveBalance_leaves hx (fun hn _ => hc.auth hauth hn) ht

end Tokens

section Market

variable {u : Address} {consent sold keyed : Prop} {ctx : Ctx} {w : World} {mods : Amm.Modules}
  {m : MarketId} {a b : Address} {o : Outcome} {i deadline : ℕ} {x y : ℤ} {yes : Bool}

/-- What the market maker calls needs the same consent. -/
theorem Consents.invoke (hc : Consents u consent ctx) {α : Type} {out : α → World}
    {self target : Contract} {address : Address} {f : Ctx → Res α}
    (hf : ∀ called, Consents u consent called → Within (Leaves u consent sold keyed) w out
      (f called)) :
    Within (Leaves u consent sold keyed) w out (ctx.call self address target >>= f) :=
  within_bind.mpr fun called hcall => hf called (hc.call hcall)

/-- The market maker takes a deposit from who signs for it. -/
theorem ammDeposit_leaves (hc : Consents u consent ctx) :
    Within (Leaves u consent sold keyed) w id (Amm.depositForMarket ctx w mods a m x) :=
  hc.invoke fun _ hcalled => depositForMarket_leaves hcalled

/-- Its mint takes from nobody. -/
theorem ammMint_leaves :
    Within (Leaves u consent sold keyed) w id (Amm.mintCompleteSet ctx w mods m x) := by
  refine .skip fun called => within_bind.mpr fun t ht => within_pure.mpr ?_
  obtain ⟨hx, ht⟩ := Tokens.mintCompleteSet_ok ht
  exact creditCompleteSet_leaves hx ht

/-- Its merge takes what it has itself. -/
theorem ammMerge_leaves (hc : Consents u consent ctx) :
    Within (Leaves u consent sold keyed) w id (Amm.mergePositions ctx w mods m x) :=
  .skip fun _ => within_bind.mpr fun _ ht => within_pure.mpr
    (mergePositions_leaves (fun _ _ => hc.ne .amm) ht)

/-- A position it moves is its own, or signed for. -/
theorem ammTransfer_leaves (hc : Consents u consent ctx) :
    Within (Leaves u consent sold keyed) w id (Amm.transferPosition ctx w mods a b m o x) :=
  hc.invoke fun _ hcalled => transferPosition_leaves hcalled

/-- The fees it books are the vault's. -/
theorem ammFees_leaves {fees : Amm.FeeParts} :
    Within (Leaves u consent sold keyed) w id (Amm.collectFee ctx w mods m fees) :=
  .skip fun _ => collectFee_leaves

/-- The fees it pays are the vault's. -/
theorem payLpFees_leaves (hc : Consents u consent ctx) :
    Within (Leaves u consent sold keyed) w id (Amm.payLpFees ctx w mods m a x) := by
  unfold Amm.payLpFees
  split
  · exact hc.invoke fun _ hcalled => claimLpFees_leaves hcalled
  · exact within_ok.mpr (.refl w)

/-- A purchase is paid for by who signs for it, or on credit. -/
theorem fundPurchase_leaves (hc : Consents u consent ctx) {parent : Option (MarketId × Outcome)} :
    Within (Leaves u consent sold keyed) w id
      (Amm.fundPurchase ctx w mods a m o x y parent) := by
  cases parent with
  | some parent => exact .skip fun _ => openChildCreditForTrade_leaves
  | none =>
    exact .step (ammDeposit_leaves hc) fun w1 => .skip fun _ => recordCashStake_leaves

/-- Pools are nobody's property. -/
theorem writePool_leaves {pool : PoolData} :
    Leaves u consent sold keyed w { w with amm := Amm.writePool w.amm pool } :=
  .same (fun _ => rfl) rfl rfl rfl

/-- A purchase. -/
theorem buy_leaves (hc : Consents u consent ctx) {parent : Option (MarketId × Outcome)} :
    Within (Leaves u consent sold keyed) w Prod.snd
      (Amm.buy ctx w a i x y deadline yes parent) := by
  iterate 5 refine .skip fun _ => ?_
  dsimp only
  iterate 3 refine .skip fun _ => ?_
  refine .step (fundPurchase_leaves hc) fun w1 => .step ammMint_leaves fun w2 => .skip fun _ => ?_
  refine .step ammFees_leaves fun w3 => .skip fun _ => ?_
  exact .step (ammTransfer_leaves hc) fun w4 => within_pure.mpr writePool_leaves

/-- A sale. -/
theorem sell_leaves (hc : Consents u consent ctx) :
    Within (Leaves u consent sold keyed) w Prod.snd (Amm.sell ctx w a i x y deadline yes) := by
  iterate 5 refine .skip fun _ => ?_
  dsimp only
  iterate 4 refine .skip fun _ => ?_
  refine .step (ammTransfer_leaves hc) fun w1 => .step (ammMerge_leaves hc) fun w2 => ?_
  refine hc.invoke fun called hcalled => .step (releaseTradePayout_leaves hcalled) fun w3 => ?_
  exact .step ammFees_leaves fun w4 => .skip fun _ => within_pure.mpr writePool_leaves

/-- A forced sale takes the position it sells. -/
theorem forceSell_leaves (hc : Consents u consent ctx) (hsold : a = u → sold) :
    Within (Leaves u consent sold keyed) w (fun sale => sale.2.2)
      (Amm.forceSell ctx w i a yes) := by
  iterate 4 refine .skip fun _ => ?_
  dsimp only
  iterate 4 refine .skip fun _ => ?_
  refine within_bind.mpr fun t ht => ?_
  obtain ⟨hx, ht⟩ := Tokens.transferPositionForced_ok ht
  have hn : ¬consent → ¬sold → a ≠ u := fun _ hn ha => hn (hsold ha)
  refine .after (moveBalance_leaves hx hn ht) (.step (ammMerge_leaves hc) fun w1 => ?_)
  exact .step ammFees_leaves fun w2 => .skip fun _ => within_pure.mpr writePool_leaves

/-- A new pool. -/
theorem createPool_leaves {config : FeeConfig} :
    Within (Leaves u consent sold keyed) w Prod.snd (Amm.createPool ctx w m config) := by
  refine .skip fun _ => .skip fun _ => ?_
  dsimp only
  exact .skip fun _ => within_pure.mpr (.same (fun _ => rfl) rfl rfl rfl)

/-- Shares are written for their provider, who consents to losing any. -/
theorem writeLp_leaves {pool : PoolData} {z : ℤ}
    (hn : ¬consent → a ≠ u) :
    Leaves u consent sold keyed w
      { w with amm := Amm.writeLp (Amm.writePool w.amm pool) i a x z } := by
  refine ⟨fun _ => rfl, fun _ _ => le_rfl, ?_, fun _ _ _ _ => le_rfl⟩
  intro hconsent p
  have hne : (p, u) ≠ (i, a) := fun hk => hn hconsent (Prod.mk.inj hk).2.symm
  unfold Amm.writeLp Amm.writePool
  dsimp only
  rw [Store.set_get_of_ne _ _ hne]

/-- The first liquidity. -/
theorem seedLiquidity_leaves (hc : Consents u consent ctx) :
    Within (Leaves u consent sold keyed) w Prod.snd (Amm.seedLiquidity ctx w a i x) := by
  refine within_bind.mpr fun _ hauth => ?_
  iterate 5 refine .skip fun _ => ?_
  refine .step (ammDeposit_leaves hc) fun w1 => .step ammMint_leaves fun w2 => ?_
  exact within_pure.mpr (writeLp_leaves fun hn => hc.auth hauth hn)

/-- More liquidity. -/
theorem addLiquidity_leaves (hc : Consents u consent ctx) :
    Within (Leaves u consent sold keyed) w Prod.snd (Amm.addLiquidity ctx w a i x) := by
  refine within_bind.mpr fun _ hauth => ?_
  iterate 5 refine .skip fun _ => ?_
  refine .step (ammDeposit_leaves hc) fun w1 => .step ammMint_leaves fun w2 => ?_
  iterate 8 refine .skip fun _ => ?_
  refine .after ?_ (.step (payLpFees_leaves hc) fun w3 => within_pure.mpr (.refl w3))
  exact writeLp_leaves fun hn => hc.auth hauth hn

/-- Liquidity taken out. -/
theorem removeLiquidity_leaves (hc : Consents u consent ctx) :
    Within (Leaves u consent sold keyed) w (fun taken => taken.2.2)
      (Amm.removeLiquidity ctx w a i x) := by
  refine within_bind.mpr fun _ hauth => ?_
  iterate 12 refine .skip fun _ => ?_
  refine .after ?_ (.step (payLpFees_leaves hc) fun w1 => .step (ammTransfer_leaves hc) fun w2 =>
    .step (ammTransfer_leaves hc) fun w3 => within_pure.mpr (.refl w3))
  exact writeLp_leaves fun hn => hc.auth hauth hn

/-- Fees claimed by a provider. -/
theorem ammClaim_leaves (hc : Consents u consent ctx) :
    Within (Leaves u consent sold keyed) w Prod.snd (Amm.claimLpFees ctx w a i) := by
  iterate 4 refine .skip fun _ => ?_
  split
  · exact within_pure.mpr (.refl w)
  · refine .skip fun _ => ?_
    refine .after ?_ (.step (payLpFees_leaves hc) fun w1 => within_pure.mpr (.refl w1))
    exact .same (fun _ => rfl) rfl rfl rfl

/-- A liquidation takes the position of the user it names, then settles it. -/
theorem liquidate_leaves (hc : Consents u consent ctx) (hsold : b = u → sold)
    {debtIn : MarketId → ℤ} {release : Amm.Release}
    (hrelease : ∀ called w1 token m1 x1 y1, Consents u consent called →
      Within (Leaves u consent sold keyed) w1 Prod.snd (release called w1 token m1 x1 y1)) :
    Within (Leaves u consent sold keyed) w Prod.snd
      (Amm.liquidate ctx w a b i o debtIn release) := by
  iterate 4 refine .skip fun _ => ?_
  refine hc.invoke fun called hcalled => ?_
  dsimp only
  iterate 7 refine .skip fun _ => ?_
  exact .step (forceSell_leaves hc hsold) fun sale => hrelease _ _ _ _ _ _ hcalled

end Market

end DikeProtocol.Network
