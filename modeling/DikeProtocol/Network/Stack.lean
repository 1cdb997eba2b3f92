import DikeProtocol.Faults

/-!
# Who is on the call stack

In the wiring of a deployment the contracts call each other downwards: factory
and timelock at the top, then council and oracle, then market maker, tokens and
vault, with the registry below them all. A call into a contract that is busy
needs a step upwards.
-/

namespace DikeProtocol.Network

open Lib

/-- A computation does not fail because this address was called while it was busy. -/
abbrev Spares (b : Address) {α : Type} (x : Res α) : Prop := Avoids (.reentry b) x

/-- A contract is not on the stack. -/
abbrev Free (c : Contract) (ctx : Ctx) : Prop := Address.contract c ∉ ctx.callers

/-- The vault and the tokens know each other and the registry. -/
structure BooksWired (w : World) : Prop where
  vaultRegistry : w.vault.roles .registry = some (.contract .registry)
  vaultTokens : w.vault.roles .tokens = some (.contract .tokens)
  tokensVault : w.tokens.roles .vault = some (.contract .vault)

section Calls

variable {b : Address} {ctx : Ctx} {w : World}

/-- A call is refused for the address it names only, when that is on the stack. -/
@[simp] theorem call_spares {self target : Contract} {address : Address} :
    Spares b (ctx.call self address target) ↔
      (address ∈ .contract self :: ctx.callers → address ≠ b) := by
  simp [Ctx.call]

/-- A call of a contract that is not busy, and what it runs there. -/
theorem invoke_spares {α : Type} {self target : Contract} {address : Address} {f : Ctx → Res α}
    (haddress : address = .contract target) (hne : target ≠ self) (hfree : Free target ctx)
    (hf : Spares b (f { ctx with callers := .contract self :: ctx.callers })) :
    Spares b (ctx.call self address target >>= f) := by
  refine avoids_bind.mpr ⟨?_, ?_⟩
  · rw [haddress]
    simp [hne, hfree]
  · intro called hcall
    rw [(Ctx.call_ok.mp hcall).2.2]
    exact hf

/-- A contract below the one that invokes stays free. -/
theorem Free.under {c self : Contract} (hfree : Free c ctx) (hne : c ≠ self) :
    Free c { ctx with callers := .contract self :: ctx.callers } := by
  intro hk
  rcases List.mem_cons.mp hk with heq | hk
  · exact hne (Address.contract.inj heq)
  · exact hfree hk

end Calls

section Vault

variable {b : Address} {ctx : Ctx} {w : World} {m c : MarketId} {u k : Address}
  {o co : Outcome} {x y : ℤ} {token : Asset} {r : ℕ} {d : Bool}

/-- The vault asks the registry for a market. -/
theorem marketData_spares (hw : BooksWired w) (hr : Free .registry ctx) :
    Spares b (Vault.marketData ctx w m) := by
  simp [Vault.marketData, readRole, orFault, hw.vaultRegistry, hr]

/-- The check of a collateral asks the registry. -/
theorem requireMarketCollateral_spares (hw : BooksWired w) (hr : Free .registry ctx) :
    Spares b (Vault.requireMarketCollateral ctx w token m) := by
  simp [Vault.requireMarketCollateral, marketData_spares hw hr]

/-- A deposit asks the registry. -/
theorem depositForMarket_spares (hw : BooksWired w) (hr : Free .registry ctx) :
    Spares b (Vault.depositForMarket ctx w token u m x) := by
  simp [Vault.depositForMarket, requireMarketCollateral_spares hw hr]

/-- Child credit asks the registry. -/
theorem openChildCreditForTrade_spares (hw : BooksWired w) (hr : Free .registry ctx) :
    Spares b (Vault.openChildCreditForTrade ctx w u m o c co x) := by
  simp [Vault.openChildCreditForTrade, marketData_spares hw hr]

/-- A repayment asks the registry. -/
theorem repayChildCollateral_spares (hw : BooksWired w) (hr : Free .registry ctx) :
    Spares b (Vault.repayChildCollateral ctx w token u c x) := by
  simp [Vault.repayChildCollateral, requireMarketCollateral_spares hw hr]

/-- The payout of a sale asks the registry. -/
theorem releaseTradePayout_spares (hw : BooksWired w) (hr : Free .registry ctx) :
    Spares b (Vault.releaseTradePayout ctx w token u m o x y) := by
  simp [Vault.releaseTradePayout, requireMarketCollateral_spares hw hr]

/-- The settlement of a parent position asks the registry. -/
theorem liquidateRelease_spares (hw : BooksWired w) (hr : Free .registry ctx) :
    Spares b (Vault.liquidateRelease ctx w token u k m o x y) := by
  simp [Vault.liquidateRelease, requireMarketCollateral_spares hw hr]

/-- The settlement of a child position asks the registry. -/
theorem liquidateChildRelease_spares (hw : BooksWired w) (hr : Free .registry ctx) :
    Spares b (Vault.liquidateChildRelease ctx w token u k m o x y) := by
  simp [Vault.liquidateChildRelease, requireMarketCollateral_spares hw hr]

/-- A redemption asks the registry and has the tokens burn. -/
theorem redeemResolved_spares (hw : BooksWired w) (hr : Free .registry ctx)
    (ht : Free .tokens ctx) : Spares b (Vault.redeemResolved ctx w token u m o x) := by
  simp [Vault.redeemResolved, readRole, orFault, hw.vaultRegistry, hw.vaultTokens, hr, ht]

/-- So does the refund of a cancelled market. -/
theorem redeemCancelled_spares (hw : BooksWired w) (hr : Free .registry ctx)
    (ht : Free .tokens ctx) : Spares b (Vault.redeemCancelled ctx w token u m o x) := by
  simp [Vault.redeemCancelled, marketData_spares hw hr, readRole, orFault, hw.vaultTokens, ht]

/-- Locking a bond asks the registry. -/
theorem lockBond_spares (hw : BooksWired w) (hr : Free .registry ctx) :
    Spares b (Vault.lockBond ctx w token u r m x d) := by
  simp [Vault.lockBond, requireMarketCollateral_spares hw hr]

/-- Paying liquidity fees asks the registry. -/
theorem claimLpFees_spares (hw : BooksWired w) (hr : Free .registry ctx) :
    Spares b (Vault.claimLpFees ctx w token m u x) := by
  simp [Vault.claimLpFees, requireMarketCollateral_spares hw hr]

/-- Sweeping fees asks the registry. -/
theorem sweepProtocolFees_spares (hw : BooksWired w) (hr : Free .registry ctx) :
    Spares b (Vault.sweepProtocolFees ctx w token m) := by
  simp [Vault.sweepProtocolFees, requireMarketCollateral_spares hw hr]

/-- The check of a transfer refuses for debts only. -/
theorem assertPositionTransferAllowed_spares :
    Spares b (Vault.assertPositionTransferAllowed ctx w.vault u m o x) := by
  simp [Vault.assertPositionTransferAllowed]

/-- The vault calls the registry and the tokens. -/
theorem vaultExec_spares (hw : BooksWired w) (hr : Free .registry ctx) (ht : Free .tokens ctx)
    (op : Vault.VaultOp) : Spares b (op.exec ctx w) := by
  cases op with
  | setAdmin | upgrade | setRole | setTreasury | pause | fundChildPrediction | redeem
    | recordCashStake | assertPositionTransferAllowed | releaseBond | slashBond | collectFee =>
    simp [Vault.VaultOp.exec, Vault.setAdmin, Vault.setRole, Vault.setTreasury, Vault.pause,
      Vault.fundChildPrediction, Vault.redeem, Vault.releaseBond, Vault.slashBond,
      assertPositionTransferAllowed_spares]
  | depositForMarket => exact depositForMarket_spares hw hr
  | openChildCreditForTrade => exact openChildCreditForTrade_spares hw hr
  | repayChildCollateral => exact world_rare.mpr (repayChildCollateral_spares hw hr)
  | releaseTradePayout => exact releaseTradePayout_spares hw hr
  | liquidateRelease => exact world_rare.mpr (liquidateRelease_spares hw hr)
  | liquidateChildRelease => exact world_rare.mpr (liquidateChildRelease_spares hw hr)
  | redeemResolved => exact world_rare.mpr (redeemResolved_spares hw hr ht)
  | redeemCancelled => exact world_rare.mpr (redeemCancelled_spares hw hr ht)
  | lockBond => exact lockBond_spares hw hr
  | claimLpFees => exact claimLpFees_spares hw hr
  | sweepProtocolFees => exact world_rare.mpr (sweepProtocolFees_spares hw hr)

end Vault

section Tokens

variable {b : Address} {ctx : Ctx} {w : World} {m : MarketId} {u v : Address} {o : Outcome} {x : ℤ}

/-- The tokens ask the vault whether a position may move. -/
theorem transferPosition_spares (hw : w.tokens.roles .vault = some (.contract .vault))
    (hv : Free .vault ctx) : Spares b (Tokens.transferPosition ctx w u v m o x) := by
  simp [Tokens.transferPosition, readRole, orFault, hw, hv, assertPositionTransferAllowed_spares]

/-- The tokens call the vault. -/
theorem tokensExec_spares (hw : BooksWired w) (hv : Free .vault ctx) (op : Tokens.TokensOp) :
    Spares b (op.exec ctx w) := by
  cases op with
  | transferPosition => exact transferPosition_spares hw.tokensVault hv
  | _ => simp [Tokens.TokensOp.exec, Tokens.store, Tokens.setAdmin, Tokens.setRole, Tokens.pause,
      Tokens.splitPosition, Tokens.burnLosing]

end Tokens

section Frames

variable {ctx : Ctx} {w w' : World} {m : MarketId} {u : Address} {x : ℤ} {token : Asset}

/-- The roles of the vault and of the tokens are as they were. -/
structure RolesKept (w w' : World) : Prop where
  vault : w'.vault.roles = w.vault.roles
  tokens : w'.tokens.roles = w.tokens.roles

/-- Who keeps the roles keeps the wiring. -/
theorem RolesKept.books (h : RolesKept w w') (hw : BooksWired w) : BooksWired w' where
  vaultRegistry := by
    rw [h.vault]
    exact hw.vaultRegistry
  vaultTokens := by
    rw [h.vault]
    exact hw.vaultTokens
  tokensVault := by
    rw [h.tokens]
    exact hw.tokensVault

/-- One after the other. -/
theorem RolesKept.trans {w'' : World} (h : RolesKept w w') (h' : RolesKept w' w'') :
    RolesKept w w'' := ⟨h'.vault.trans h.vault, h'.tokens.trans h.tokens⟩

/-- A deposit keeps the roles. -/
theorem depositForMarket_kept (h : Vault.depositForMarket ctx w token u m x = .ok w') :
    RolesKept w w' := by
  obtain ⟨_, _, h⟩ := bind_ok.mp h
  obtain ⟨_, _, h⟩ := bind_ok.mp h
  obtain ⟨_, _, h⟩ := bind_ok.mp h
  obtain ⟨_, _, h⟩ := bind_ok.mp h
  obtain ⟨_, _, h⟩ := bind_ok.mp h
  obtain ⟨w1, h1, h⟩ := bind_ok.mp h
  obtain ⟨v, hv, h⟩ := bind_ok.mp h
  obtain ⟨_, _, h⟩ := bind_ok.mp h
  obtain ⟨_, _, hv⟩ := bind_ok.mp hv
  obtain ⟨_, _, hv⟩ := bind_ok.mp hv
  obtain ⟨_, bank, _, rfl⟩ := transferToken_ok.mp h1
  rw [← pure_ok.mp h, ← pure_ok.mp hv]
  exact ⟨rfl, rfl⟩

/-- Booked fees keep the roles. -/
theorem collectFee_kept {lp protocol cod : ℤ}
    (h : Vault.collectFee ctx w m lp protocol cod = .ok w') : RolesKept w w' := by
  obtain ⟨_, _, h⟩ := bind_ok.mp h
  obtain ⟨_, _, h⟩ := bind_ok.mp h
  obtain ⟨_, _, h⟩ := bind_ok.mp h
  obtain ⟨_, _, h⟩ := bind_ok.mp h
  obtain ⟨_, _, h⟩ := bind_ok.mp h
  obtain ⟨_, _, h⟩ := bind_ok.mp h
  obtain ⟨_, _, h⟩ := bind_ok.mp h
  obtain ⟨_, _, h⟩ := bind_ok.mp h
  obtain ⟨_, _, h⟩ := bind_ok.mp h
  rw [← pure_ok.mp h]
  exact ⟨rfl, rfl⟩

/-- No invocation of the vault changes the roles of the tokens. -/
theorem vaultExec_tokensRoles (op : Vault.VaultOp) (h : op.exec ctx w = .ok w') :
    w'.tokens.roles = w.tokens.roles := by
  obtain ⟨v, bank, t, rfl, rfl | ⟨_, _, _, _, _, _, hburn⟩⟩ := op.exec_shape h
  · rfl
  · rw [(Tokens.subBalance_ok hburn).2]

end Frames

section Market

variable {b : Address} {ctx : Ctx} {w w' : World} {mods : Amm.Modules} {m c : MarketId}
  {u v : Address} {o : Outcome} {i : ℕ} {x y : ℤ} {pool : PoolData} {yes : Bool}

/-- The market maker knows vault, tokens and registry, and these know each other. -/
structure TradeWired (w : World) : Prop extends BooksWired w where
  ammVault : w.amm.vault = some (.contract .vault)
  ammTokens : w.amm.tokens = some (.contract .tokens)
  ammRegistry : w.amm.registry = some (.contract .registry)

/-- Nothing the market maker calls is busy. -/
structure TradeFree (ctx : Ctx) : Prop where
  registry : Free .registry ctx
  vault : Free .vault ctx
  tokens : Free .tokens ctx

/-- The modules a wired market maker reads. -/
structure Routes (mods : Amm.Modules) : Prop where
  vault : mods.vault = .contract .vault
  tokens : mods.tokens = .contract .tokens

/-- A wired market maker reads its wiring. -/
theorem TradeWired.routes (hw : TradeWired w) (h : Amm.modules w.amm = .ok mods) :
    Routes mods := by
  obtain ⟨vault, hvault, h⟩ := bind_ok.mp h
  obtain ⟨tokens, htokens, h⟩ := bind_ok.mp h
  obtain ⟨_, _, h⟩ := bind_ok.mp h
  obtain ⟨_, _, h⟩ := bind_ok.mp h
  obtain rfl := pure_ok.mp h
  rw [hw.ammVault] at hvault
  rw [hw.ammTokens] at htokens
  exact ⟨(Option.some.inj (orFault_ok.mp hvault)).symm,
    (Option.some.inj (orFault_ok.mp htokens)).symm⟩

/-- The market maker asks the registry whether a market trades. -/
theorem requireMarketTradeable_spares (hw : TradeWired w) (hfree : TradeFree ctx) :
    Spares b (Amm.requireMarketTradeable ctx w m) := by
  simp [Amm.requireMarketTradeable, orFault, hw.ammRegistry, hfree.registry]

/-- So does the check of a pool. -/
theorem requireLive_spares {deadline : ℕ} (hw : TradeWired w) (hfree : TradeFree ctx) :
    Spares b (Amm.requireLive ctx w pool deadline) := by
  simp [Amm.requireLive, requireMarketTradeable_spares hw hfree]

/-- The market maker asks the registry for a market. -/
theorem ammMarketData_spares (hw : TradeWired w) (hfree : TradeFree ctx) :
    Spares b (Amm.marketData ctx w m) := by
  simp [Amm.marketData, orFault, hw.ammRegistry, hfree.registry]

/-- So does the check before liquidity leaves. -/
theorem requireMarketLiquidityRemovable_spares (hw : TradeWired w) (hfree : TradeFree ctx) :
    Spares b (Amm.requireMarketLiquidityRemovable ctx w m) := by
  refine avoids_bind.mpr ⟨ammMarketData_spares hw hfree, fun market _ => ?_⟩
  split <;> simp

/-- So does the check before a pool is seeded. -/
theorem requireMarketSeedable_spares (hw : TradeWired w) (hfree : TradeFree ctx) :
    Spares b (Amm.requireMarketSeedable ctx w m) := by
  simp [Amm.requireMarketSeedable, ammMarketData_spares hw hfree]

/-- The market maker has the vault take a deposit. -/
theorem ammDeposit_spares (hw : BooksWired w) (hm : Routes mods) (hfree : TradeFree ctx) :
    Spares b (Amm.depositForMarket ctx w mods u m x) :=
  invoke_spares hm.vault (by decide) hfree.vault
    (depositForMarket_spares hw (hfree.registry.under (by decide)))

/-- The market maker has the tokens mint. -/
theorem ammMint_spares (hm : Routes mods) (hfree : TradeFree ctx) :
    Spares b (Amm.mintCompleteSet ctx w mods m x) :=
  invoke_spares hm.tokens (by decide) hfree.tokens (by simp)

/-- The market maker has the tokens merge. -/
theorem ammMerge_spares (hm : Routes mods) (hfree : TradeFree ctx) :
    Spares b (Amm.mergePositions ctx w mods m x) :=
  invoke_spares hm.tokens (by decide) hfree.tokens (by simp)

/-- The market maker has the tokens move a position, which asks the vault. -/
theorem ammTransfer_spares (hw : w.tokens.roles .vault = some (.contract .vault))
    (hm : Routes mods) (hfree : TradeFree ctx) :
    Spares b (Amm.transferPosition ctx w mods u v m o x) :=
  invoke_spares hm.tokens (by decide) hfree.tokens
    (transferPosition_spares hw (hfree.vault.under (by decide)))

/-- The market maker has the vault book a fee. -/
theorem ammFees_spares {fees : Amm.FeeParts} (hm : Routes mods) (hfree : TradeFree ctx) :
    Spares b (Amm.collectFee ctx w mods m fees) :=
  invoke_spares hm.vault (by decide) hfree.vault collectFee_rare

/-- The market maker has the vault pay a provider. -/
theorem payLpFees_spares (hw : BooksWired w) (hm : Routes mods) (hfree : TradeFree ctx) :
    Spares b (Amm.payLpFees ctx w mods m u x) := by
  unfold Amm.payLpFees
  split
  · exact invoke_spares hm.vault (by decide) hfree.vault
      (claimLpFees_spares hw (hfree.registry.under (by decide)))
  · exact avoids_ok _

/-- A purchase is paid for by the vault alone. -/
theorem fundPurchase_spares (hw : BooksWired w) (hm : Routes mods) (hfree : TradeFree ctx)
    (parent : Option (MarketId × Outcome)) :
    Spares b (Amm.fundPurchase ctx w mods u m o x y parent) := by
  cases parent with
  | none =>
    refine avoids_bind.mpr ⟨ammDeposit_spares hw hm hfree, fun w1 _ => ?_⟩
    exact invoke_spares hm.vault (by decide) hfree.vault recordCashStake_rare
  | some parent =>
    exact invoke_spares hm.vault (by decide) hfree.vault
      (openChildCreditForTrade_spares hw (hfree.registry.under (by decide)))

/-- A deposit through the market maker keeps the roles. -/
theorem ammDeposit_kept (h : Amm.depositForMarket ctx w mods u m x = .ok w') : RolesKept w w' :=
  depositForMarket_kept (Amm.depositForMarket_ok h)

/-- Minting keeps the roles. -/
theorem ammMint_kept (h : Amm.mintCompleteSet ctx w mods m x = .ok w') : RolesKept w w' := by
  obtain ⟨t, _, ht, rfl⟩ := Amm.mintCompleteSet_ok h
  exact ⟨rfl, (Tokens.creditCompleteSet_ok ht).2.1⟩

/-- Merging keeps the roles. -/
theorem ammMerge_kept (h : Amm.mergePositions ctx w mods m x = .ok w') : RolesKept w w' := by
  obtain ⟨t, ht, rfl⟩ := Amm.mergePositions_ok h
  obtain ⟨_, _, _, _, hroles, _⟩ := Tokens.mergePositions_ok ht
  exact ⟨rfl, hroles⟩

/-- A transfer keeps the roles. -/
theorem ammTransfer_kept (h : Amm.transferPosition ctx w mods u v m o x = .ok w') :
    RolesKept w w' := by
  obtain ⟨_, _, _, _, t, ht, rfl⟩ := Tokens.transferPosition_ok (Amm.transferPosition_ok h)
  exact ⟨rfl, (Tokens.moveBalance_ok ht).2.2.1⟩

/-- Booking a fee keeps the roles. -/
theorem ammFees_kept {fees : Amm.FeeParts} (h : Amm.collectFee ctx w mods m fees = .ok w') :
    RolesKept w w' := collectFee_kept (Amm.collectFee_ok h)

/-- What pays for a purchase keeps the roles of the tokens. -/
theorem fundPurchase_tokensRoles {parent : Option (MarketId × Outcome)}
    (h : Amm.fundPurchase ctx w mods u m o x y parent = .ok w') :
    w'.tokens.roles = w.tokens.roles := by
  cases parent with
  | none =>
    obtain ⟨w1, h1, h⟩ := bind_ok.mp h
    obtain ⟨called, _, h⟩ := bind_ok.mp h
    exact (vaultExec_tokensRoles (.recordCashStake u m o x y) h).trans
      (ammDeposit_kept h1).tokens
  | some parent =>
    obtain ⟨called, _, h⟩ := bind_ok.mp h
    exact vaultExec_tokensRoles (.openChildCreditForTrade u parent.1 parent.2 m o x) h

/-- A purchase goes from the vault to the tokens, the vault and the tokens again. -/
theorem buy_spares (hw : TradeWired w) (hfree : TradeFree ctx) {deadline : ℕ}
    {parent : Option (MarketId × Outcome)} :
    Spares b (Amm.buy ctx w u i x y deadline yes parent) := by
  refine avoids_bind.mpr ⟨requireAuth_rare, fun _ _ => ?_⟩
  refine avoids_bind.mpr ⟨by simp, fun _ _ => ?_⟩
  refine avoids_bind.mpr ⟨readPool_rare, fun pool _ => ?_⟩
  refine avoids_bind.mpr ⟨requireLive_spares hw hfree, fun _ _ => ?_⟩
  refine avoids_bind.mpr ⟨modules_rare, fun mods hmods => ?_⟩
  have hm := hw.routes hmods
  refine avoids_bind.mpr ⟨splitFee_rare, fun split _ => ?_⟩
  refine avoids_bind.mpr ⟨quoteBuyOf_rare, fun out _ => ?_⟩
  refine avoids_bind.mpr ⟨by simp, fun _ _ => ?_⟩
  refine avoids_bind.mpr ⟨fundPurchase_spares hw.toBooksWired hm hfree parent, fun w1 h1 => ?_⟩
  refine avoids_bind.mpr ⟨ammMint_spares hm hfree, fun w2 h2 => ?_⟩
  refine avoids_bind.mpr ⟨accrueFees_rare, fun fees _ => ?_⟩
  refine avoids_bind.mpr ⟨ammFees_spares hm hfree, fun w3 h3 => ?_⟩
  refine avoids_bind.mpr ⟨boughtReserves_rare, fun reserves _ => ?_⟩
  refine avoids_bind.mpr ⟨ammTransfer_spares ?_ hm hfree, fun _ _ => avoids_ok _⟩
  rw [(ammFees_kept h3).tokens, (ammMint_kept h2).tokens, fundPurchase_tokensRoles h1]
  exact hw.tokensVault

/-- A sale goes from the tokens to the vault. -/
theorem sell_spares (hw : TradeWired w) (hfree : TradeFree ctx) {deadline : ℕ} :
    Spares b (Amm.sell ctx w u i x y deadline yes) := by
  refine avoids_bind.mpr ⟨requireAuth_rare, fun _ _ => ?_⟩
  refine avoids_bind.mpr ⟨by simp, fun _ _ => ?_⟩
  refine avoids_bind.mpr ⟨readPool_rare, fun pool _ => ?_⟩
  refine avoids_bind.mpr ⟨requireLive_spares hw hfree, fun _ _ => ?_⟩
  refine avoids_bind.mpr ⟨modules_rare, fun mods hmods => ?_⟩
  have hm := hw.routes hmods
  refine avoids_bind.mpr ⟨quoteSellOf_rare, fun gross _ => ?_⟩
  refine avoids_bind.mpr ⟨splitFee_rare, fun split _ => ?_⟩
  refine avoids_bind.mpr ⟨by simp, fun _ _ => ?_⟩
  refine avoids_bind.mpr ⟨accrueFees_rare, fun fees _ => ?_⟩
  refine avoids_bind.mpr ⟨ammTransfer_spares hw.tokensVault hm hfree, fun w1 h1 => ?_⟩
  refine avoids_bind.mpr ⟨ammMerge_spares hm hfree, fun w2 h2 => ?_⟩
  have hw2 := ((ammTransfer_kept h1).trans (ammMerge_kept h2)).books hw.toBooksWired
  refine invoke_spares hm.vault (by decide) hfree.vault ?_
  refine avoids_bind.mpr ⟨releaseTradePayout_spares hw2 (hfree.registry.under (by decide)),
    fun w3 _ => ?_⟩
  refine avoids_bind.mpr ⟨ammFees_spares hm hfree, fun w4 _ => ?_⟩
  exact avoids_bind.mpr ⟨soldReserves_rare, fun _ _ => avoids_ok _⟩

/-- A forced sale goes from the tokens to the vault. -/
theorem forceSell_spares (hw : TradeWired w) (hfree : TradeFree ctx) :
    Spares b (Amm.forceSell ctx w i u yes) := by
  refine avoids_bind.mpr ⟨readPool_rare, fun pool _ => ?_⟩
  refine avoids_bind.mpr ⟨requireLive_spares hw hfree, fun _ _ => ?_⟩
  refine avoids_bind.mpr ⟨modules_rare, fun mods hmods => ?_⟩
  have hm := hw.routes hmods
  refine invoke_spares hm.tokens (by decide) hfree.tokens ?_
  refine avoids_bind.mpr ⟨by simp, fun _ _ => ?_⟩
  refine avoids_bind.mpr ⟨quoteSellOf_rare, fun gross _ => ?_⟩
  refine avoids_bind.mpr ⟨splitFee_rare, fun split _ => ?_⟩
  refine avoids_bind.mpr ⟨accrueFees_rare, fun fees _ => ?_⟩
  refine avoids_bind.mpr ⟨transferPositionForced_rare, fun t _ => ?_⟩
  refine avoids_bind.mpr ⟨ammMerge_spares hm hfree, fun w2 _ => ?_⟩
  refine avoids_bind.mpr ⟨ammFees_spares hm hfree, fun w3 _ => ?_⟩
  exact avoids_bind.mpr ⟨soldReserves_rare, fun _ _ => avoids_ok _⟩

/-- A forced sale keeps the roles. -/
theorem forceSell_kept (h : Amm.forceSell ctx w i u yes = .ok (x, y, w')) : RolesKept w w' := by
  obtain ⟨pool, m, fee, gross, fees, pool1, pool2, t, w2, w3, _, _, _, _, _, _, hmove, h2, h3, _,
    rfl⟩ := Amm.forceSell_writes h
  have ht : RolesKept w { w with tokens := t } := ⟨rfl, (Tokens.moveBalance_ok hmove).2.2.1⟩
  have hkept := (ht.trans (ammMerge_kept h2)).trans (ammFees_kept h3)
  exact ⟨hkept.vault, hkept.tokens⟩

/-- A liquidation avoids it when the settlement of the vault does. -/
theorem liquidate_spares (hw : TradeWired w) (hfree : TradeFree ctx) {k : Address}
    {debtIn : MarketId → ℤ} {release : Amm.Release}
    (hrelease : ∀ ctx' w' token m x y, BooksWired w' → Free .registry ctx' →
      Spares b (release ctx' w' token m x y)) :
    Spares b (Amm.liquidate ctx w k u i o debtIn release) := by
  refine avoids_bind.mpr ⟨requireAuth_rare, fun _ _ => ?_⟩
  refine avoids_bind.mpr ⟨readPool_rare, fun pool _ => ?_⟩
  refine avoids_bind.mpr ⟨requireLive_spares hw hfree, fun _ _ => ?_⟩
  refine avoids_bind.mpr ⟨modules_rare, fun mods hmods => ?_⟩
  have hm := hw.routes hmods
  refine invoke_spares hm.vault (by decide) hfree.vault ?_
  refine avoids_bind.mpr ⟨by simp, fun _ _ => ?_⟩
  refine invoke_spares hm.tokens (by decide) hfree.tokens ?_
  refine avoids_bind.mpr ⟨by simp, fun _ _ => ?_⟩
  refine avoids_bind.mpr ⟨quoteSellOf_rare, fun gross _ => ?_⟩
  refine avoids_bind.mpr ⟨splitFee_rare, fun split _ => ?_⟩
  refine avoids_bind.mpr ⟨bps_rare, fun threshold _ => ?_⟩
  refine avoids_bind.mpr ⟨by simp, fun _ _ => ?_⟩
  refine avoids_bind.mpr ⟨forceSell_spares hw hfree, ?_⟩
  rintro ⟨sold, proceeds, w1⟩ h1
  exact hrelease _ w1 _ _ _ _
    ((forceSell_kept h1).books hw.toBooksWired)
    (hfree.registry.under (by decide))

/-- Seeding a pool asks the registry, the vault and the tokens. -/
theorem seedLiquidity_spares (hw : TradeWired w) (hfree : TradeFree ctx) :
    Spares b (Amm.seedLiquidity ctx w u i x) := by
  refine avoids_bind.mpr ⟨requireAuth_rare, fun _ _ => ?_⟩
  refine avoids_bind.mpr ⟨by simp, fun _ _ => ?_⟩
  refine avoids_bind.mpr ⟨modules_rare, fun mods hmods => ?_⟩
  have hm := hw.routes hmods
  refine avoids_bind.mpr ⟨readPool_rare, fun pool _ => ?_⟩
  refine avoids_bind.mpr ⟨requireMarketSeedable_spares hw hfree, fun _ _ => ?_⟩
  refine avoids_bind.mpr ⟨by simp, fun _ _ => ?_⟩
  refine avoids_bind.mpr ⟨ammDeposit_spares hw.toBooksWired hm hfree, fun w1 _ => ?_⟩
  exact avoids_bind.mpr ⟨ammMint_spares hm hfree, fun _ _ => avoids_ok _⟩

/-- So does adding liquidity, and the vault pays what was earned. -/
theorem addLiquidity_spares (hw : TradeWired w) (hfree : TradeFree ctx) :
    Spares b (Amm.addLiquidity ctx w u i x) := by
  refine avoids_bind.mpr ⟨requireAuth_rare, fun _ _ => ?_⟩
  refine avoids_bind.mpr ⟨by simp, fun _ _ => ?_⟩
  refine avoids_bind.mpr ⟨modules_rare, fun mods hmods => ?_⟩
  have hm := hw.routes hmods
  refine avoids_bind.mpr ⟨readPool_rare, fun pool _ => ?_⟩
  refine avoids_bind.mpr ⟨requireMarketTradeable_spares hw hfree, fun _ _ => ?_⟩
  refine avoids_bind.mpr ⟨by simp, fun _ _ => ?_⟩
  refine avoids_bind.mpr ⟨ammDeposit_spares hw.toBooksWired hm hfree, fun w1 h1 => ?_⟩
  refine avoids_bind.mpr ⟨ammMint_spares hm hfree, fun w2 h2 => ?_⟩
  have hkept := (ammDeposit_kept h1).trans (ammMint_kept h2)
  have hpay : ∀ a p, Spares b (Amm.payLpFees ctx { w2 with amm := a } mods pool.marketId u p) :=
    fun a p =>
      payLpFees_spares (RolesKept.books ⟨hkept.vault, hkept.tokens⟩ hw.toBooksWired) hm hfree
  simp [hpay]

/-- Liquidity that leaves goes from the vault to the tokens. -/
theorem removeLiquidity_spares (hw : TradeWired w) (hfree : TradeFree ctx) :
    Spares b (Amm.removeLiquidity ctx w u i x) := by
  have hpay : ∀ a mods m p, Routes mods →
      Spares b (Amm.payLpFees ctx { w with amm := a } mods m u p) :=
    fun a mods m p hm =>
      payLpFees_spares ⟨hw.vaultRegistry, hw.vaultTokens, hw.tokensVault⟩ hm hfree
  refine avoids_bind.mpr ⟨requireAuth_rare, fun _ _ => ?_⟩
  refine avoids_bind.mpr ⟨by simp, fun _ _ => ?_⟩
  refine avoids_bind.mpr ⟨modules_rare, fun mods hmods => ?_⟩
  have hm := hw.routes hmods
  refine avoids_bind.mpr ⟨readPool_rare, fun pool _ => ?_⟩
  refine avoids_bind.mpr ⟨requireMarketLiquidityRemovable_spares hw hfree, fun _ _ => ?_⟩
  refine avoids_bind.mpr ⟨by simp, fun _ _ => ?_⟩
  refine avoids_bind.mpr ⟨computeLpFeesOwed_rare, fun pending _ => ?_⟩
  refine avoids_bind.mpr ⟨proportional_rare, fun yesOut _ => ?_⟩
  refine avoids_bind.mpr ⟨proportional_rare, fun noOut _ => ?_⟩
  refine avoids_bind.mpr ⟨checkedSub_rare, fun _ _ => ?_⟩
  refine avoids_bind.mpr ⟨checkedSub_rare, fun _ _ => ?_⟩
  refine avoids_bind.mpr ⟨checkedSub_rare, fun _ _ => ?_⟩
  refine avoids_bind.mpr ⟨checkedSub_rare, fun _ _ => ?_⟩
  refine avoids_bind.mpr ⟨hpay _ _ _ _ hm, fun w1 h1 => ?_⟩
  have htokens : w1.tokens.roles .vault = some (.contract .vault) := by
    rcases Amm.payLpFees_ok h1 with hclaim | rfl
    · rw [vaultExec_tokensRoles (.claimLpFees _ _ _ _) hclaim]
      exact hw.tokensVault
    · exact hw.tokensVault
  refine avoids_bind.mpr ⟨ammTransfer_spares htokens hm hfree, fun w2 h2 => ?_⟩
  refine avoids_bind.mpr ⟨ammTransfer_spares ?_ hm hfree, fun _ _ => avoids_ok _⟩
  rw [(ammTransfer_kept h2).tokens]
  exact htokens

/-- Claiming fees goes to the vault. -/
theorem claimLpFees_amm_spares (hw : TradeWired w) (hfree : TradeFree ctx) :
    Spares b (Amm.claimLpFees ctx w u i) := by
  have hpay : ∀ a mods m p, Routes mods →
      Spares b (Amm.payLpFees ctx { w with amm := a } mods m u p) :=
    fun a mods m p hm =>
      payLpFees_spares ⟨hw.vaultRegistry, hw.vaultTokens, hw.tokensVault⟩ hm hfree
  refine avoids_bind.mpr ⟨requireAuth_rare, fun _ _ => ?_⟩
  refine avoids_bind.mpr ⟨readPool_rare, fun pool _ => ?_⟩
  refine avoids_bind.mpr ⟨by simp, fun _ _ => ?_⟩
  refine avoids_bind.mpr ⟨computeLpFeesOwed_rare, fun owed _ => ?_⟩
  split
  · exact avoids_ok _
  · refine avoids_bind.mpr ⟨modules_rare, fun mods hmods => ?_⟩
    have hm : Routes mods := hw.routes hmods
    exact avoids_bind.mpr ⟨hpay _ _ _ _ hm, fun _ _ => avoids_ok _⟩

/-- The market maker calls the registry, the vault and the tokens. -/
theorem ammExec_spares (hw : TradeWired w) (hfree : TradeFree ctx) (op : Amm.AmmOp) :
    Spares b (op.exec ctx w) := by
  cases op with
  | setAdmin | upgrade | setRole | setModules | pause | createPool =>
    simp [Amm.AmmOp.exec, Amm.setAdmin, Amm.setRole, Amm.setModules, Amm.pause]
  | seedLiquidity => exact world_rare.mpr (seedLiquidity_spares hw hfree)
  | addLiquidity => exact world_rare.mpr (addLiquidity_spares hw hfree)
  | removeLiquidity =>
    exact avoids_bind.mpr ⟨removeLiquidity_spares hw hfree, fun _ _ => avoids_ok _⟩
  | claimLpFees => exact world_rare.mpr (claimLpFees_amm_spares hw hfree)
  | buyYes | buyNo | buyChildYes | buyChildNo => exact world_rare.mpr (buy_spares hw hfree)
  | sellYes | sellNo => exact world_rare.mpr (sell_spares hw hfree)
  | liquidatePosition =>
    exact world_rare.mpr (liquidate_spares hw hfree fun _ _ _ _ _ _ => liquidateRelease_spares)
  | liquidateChildPosition =>
    exact world_rare.mpr
      (liquidate_spares hw hfree fun _ _ _ _ _ _ => liquidateChildRelease_spares)

end Market

end DikeProtocol.Network
