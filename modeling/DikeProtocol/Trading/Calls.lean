import DikeProtocol.Trading.Backing
import DikeProtocol.Vault.Chains

/-!
# What a step asks of the vault

A step of the four contracts is, for the vault, a sequence of its own
invocations, made from outside it one after another. What every invocation of
the vault keeps is kept by every step.
-/

namespace DikeProtocol.Trading

open Lib
open Vault (VaultOp Sane Outside)

/-- Invocations of the vault made one after another from outside it. In between
only what lies outside the vault and the registry changes. -/
inductive Calls : World → List VaultOp → World → Prop where
  /-- Nothing more is asked of the vault. -/
  | done {w w' : World} (hvault : w'.vault = w.vault) (hregistry : w'.registry = w.registry) :
      Calls w [] w'
  /-- One invocation, and the rest. -/
  | call {ctx : Ctx} {w w0 w1 w' : World} {op : VaultOp} {ops : List VaultOp}
      (hvault : w0.vault = w.vault) (hregistry : w0.registry = w.registry)
      (hctx : Outside .vault ctx) (hexec : op.exec ctx w0 = .ok w1) (hrest : Calls w1 ops w') :
      Calls w (op :: ops) w'

namespace Calls

variable {w s w' : World} {ops : List VaultOp}

/-- What changes outside the vault and the registry before the calls does not matter. -/
theorem before (hvault : s.vault = w.vault) (hregistry : s.registry = w.registry)
    (h : Calls s ops w') : Calls w ops w' := by
  cases h with
  | done hv hr => exact .done (hv.trans hvault) (hr.trans hregistry)
  | call hv hr hctx hexec hrest =>
    exact .call (hv.trans hvault) (hr.trans hregistry) hctx hexec hrest

/-- A property of the vault and the registry that every invocation keeps, the calls keep. -/
theorem keeps {I : VaultState → RegistryState → Prop} (h : Calls w ops w')
    (hstep : ∀ ctx op s s', op ∈ ops → Outside .vault ctx → I s.vault s.registry →
      op.exec ctx s = .ok s' → I s'.vault s'.registry)
    (hw : I w.vault w.registry) : I w'.vault w'.registry := by
  induction h with
  | done hv hr =>
    rw [hv, hr]
    exact hw
  | @call ctx w w0 w1 w' op ops hv hr hctx hexec _ ih =>
    rw [← hv, ← hr] at hw
    refine ih ?_ (hstep ctx op w0 w1 List.mem_cons_self hctx hw hexec)
    intro ctx op s s' hop
    exact hstep ctx op s s' (List.mem_cons_of_mem _ hop)

end Calls

/-- What can happen to the tokens in one go: nothing that counts, a minted or a
merged complete set, a transfer or a burn. -/
inductive TokensMove : TokensState → TokensState → Prop where
  /-- Balances and backing stay. -/
  | same {t t' : TokensState} (hbalance : t'.balance = t.balance)
      (hbacking : t'.backing = t.backing) : TokensMove t t'
  /-- A complete set is minted. -/
  | mint {t t' : TokensState} {m : MarketId} {a : Address} {x : ℤ} (hx : 0 < x)
      (h : Tokens.creditCompleteSet t m a x = .ok t') : TokensMove t t'
  /-- A complete set is merged. -/
  | merge {ctx : Ctx} {t t' : TokensState} {m : MarketId} {a : Address} {x : ℤ}
      (h : Tokens.mergePositions ctx t a m x = .ok t') : TokensMove t t'
  /-- Tokens change hands. -/
  | move {t t' : TokensState} {a b : Address} {m : MarketId} {o : Outcome} {x : ℤ} (hx : 0 < x)
      (h : Tokens.moveBalance t a b m o x = .ok t') : TokensMove t t'
  /-- Tokens are burned. -/
  | burn {t t' : TokensState} {m : MarketId} {a : Address} {o : Outcome} {x : ℤ} (hx : 0 < x)
      (h : Tokens.subBalance t m a o x = .ok t') : TokensMove t t'

/-- Invocations of the vault made one after another from outside it, with all
that happens to the tokens in between. The bank moves by the invocations only. -/
inductive Acts : World → List VaultOp → World → Prop where
  /-- Nothing more happens. -/
  | done (w : World) : Acts w [] w
  /-- The tokens move, or storage of the market maker, and the rest happens. -/
  | move {w s w' : World} {ops : List VaultOp} (hvault : s.vault = w.vault)
      (hregistry : s.registry = w.registry) (hbank : s.bank = w.bank)
      (htokens : TokensMove w.tokens s.tokens) (hrest : Acts s ops w') : Acts w ops w'
  /-- The vault is invoked, and the rest happens. -/
  | call {ctx : Ctx} {w s w' : World} {op : VaultOp} {ops : List VaultOp}
      (hctx : Outside .vault ctx) (hexec : op.exec ctx w = .ok s) (hrest : Acts s ops w') :
      Acts w (op :: ops) w'

namespace Acts

variable {w s w' : World} {ops : List VaultOp}

/-- Tokens that move once. -/
theorem moved (hvault : w'.vault = w.vault) (hregistry : w'.registry = w.registry)
    (hbank : w'.bank = w.bank) (htokens : TokensMove w.tokens w'.tokens) : Acts w [] w' :=
  .move hvault hregistry hbank htokens (.done w')

/-- A single invocation. -/
theorem one {ctx : Ctx} {op : VaultOp} (hctx : Outside .vault ctx) (h : op.exec ctx w = .ok w') :
    Acts w [op] w' :=
  .call hctx h (.done w')

/-- Storage of the market maker before the rest does not matter. -/
theorem before (a : AmmState) (h : Acts { w with amm := a } ops w') : Acts w ops w' :=
  .move (s := { w with amm := a }) rfl rfl rfl (.same rfl rfl) h

/-- One thing after another. -/
theorem append {ops' : List VaultOp} (h : Acts w ops s) (h' : Acts s ops' w') :
    Acts w (ops ++ ops') w' := by
  induction h with
  | done w => exact h'
  | move hv hr hb ht _ ih => exact .move hv hr hb ht (ih h')
  | call hctx hexec _ ih => exact .call hctx hexec (ih h')

/-- Storage of the market maker after the rest does not matter. -/
theorem after (a : AmmState) (h : Acts w ops s) : Acts w ops { s with amm := a } := by
  have hlast : Acts s [] { s with amm := a } := .moved rfl rfl rfl (.same rfl rfl)
  have hall := h.append hlast
  rw [List.append_nil] at hall
  exact hall

/-- The invocations alone, whatever lies between them. -/
theorem calls (h : Acts w ops w') : Calls w ops w' := by
  induction h with
  | done w => exact .done rfl rfl
  | move hv hr _ _ _ ih => exact ih.before hv hr
  | call hctx hexec _ ih => exact .call rfl rfl hctx hexec ih

/-- A property of the world that every move of the tokens and every invocation
keeps is kept throughout. -/
theorem keeps {I : World → Prop} (h : Acts w ops w')
    (hmove : ∀ s s', s'.vault = s.vault → s'.registry = s.registry → s'.bank = s.bank →
      TokensMove s.tokens s'.tokens → I s → I s')
    (hcall : ∀ ctx op s s', op ∈ ops → Outside .vault ctx → I s → op.exec ctx s = .ok s' → I s')
    (hw : I w) : I w' := by
  induction h with
  | done w => exact hw
  | move hv hr hb ht _ ih => exact ih hcall (hmove _ _ hv hr hb ht hw)
  | @call ctx w s w' op ops hctx hexec _ ih =>
    refine ih ?_ (hcall ctx op w s List.mem_cons_self hctx hw hexec)
    intro ctx op s s' hop
    exact hcall ctx op s s' (List.mem_cons_of_mem _ hop)

end Acts

/-- The registry is not the vault's to change. -/
theorem vaultExec_registry {ctx : Ctx} {w w' : World} {op : VaultOp} (h : op.exec ctx w = .ok w') :
    w'.registry = w.registry := by
  cases op with
  | setAdmin admin =>
    obtain rfl := Vault.admin_ok h
    rfl
  | upgrade wasmHash =>
    obtain ⟨_, _, h⟩ := bind_ok.mp h
    rw [pure_ok.mp h]
  | setRole role module =>
    obtain rfl := Vault.admin_ok h
    rfl
  | setTreasury treasury =>
    obtain rfl := Vault.admin_ok h
    rfl
  | pause paused =>
    obtain rfl := Vault.admin_ok h
    rfl
  | depositForMarket token user m x =>
    obtain ⟨_, _, _, _, _, _, rfl⟩ := Vault.depositForMarket_steps h
    rfl
  | recordCashStake user m o x y =>
    obtain ⟨_, rfl⟩ := Vault.recordCashStake_steps h
    rfl
  | fundChildPrediction user p c x => cases h
  | openChildCreditForTrade user p po c co x =>
    obtain ⟨_, _, _, _, _, _, _, _, _, _, rfl⟩ := Vault.openChildCreditForTrade_steps h
    rfl
  | repayChildCollateral token user c x =>
    obtain ⟨y, h⟩ := world_ok.mp h
    obtain ⟨_, _, _, _, _, rfl⟩ := Vault.repayChildCollateral_steps h
    rfl
  | releaseTradePayout token user m o sold x =>
    obtain ⟨_, _, _, _, _, _, _, _, rfl⟩ := Vault.releaseTradePayout_steps h
    rfl
  | liquidateRelease token user keeper p o sold x =>
    obtain ⟨y, h⟩ := world_ok.mp h
    obtain ⟨_, _, _, _, _, _, _, _, _, _, _, _, rfl⟩ := Vault.liquidateRelease_steps h
    rfl
  | liquidateChildRelease token user keeper c o sold x =>
    obtain ⟨y, h⟩ := world_ok.mp h
    obtain ⟨_, _, _, _, _, _, _, _, _, _, _, rfl⟩ := Vault.liquidateChildRelease_steps h
    rfl
  | redeem token user m final o x =>
    obtain ⟨_, h⟩ := world_ok.mp h
    cases h
  | redeemResolved token user m o amount =>
    obtain ⟨y, h⟩ := world_ok.mp h
    obtain ⟨_, _, _, _, _, _, _, _, _, _, _, _, _, hpay⟩ := Vault.redeemResolved_steps h
    obtain ⟨b, rfl⟩ := Vault.payRedemption_ok hpay
    rfl
  | redeemCancelled token user m o amount =>
    obtain ⟨y, h⟩ := world_ok.mp h
    obtain ⟨_, _, _, _, _, _, _, _, _, _, hpay⟩ := Vault.redeemCancelled_steps h
    obtain ⟨b, rfl⟩ := Vault.payRedemption_ok hpay
    rfl
  | assertPositionTransferAllowed sender m o x =>
    obtain ⟨_, _, h⟩ := bind_ok.mp h
    rw [pure_ok.mp h]
  | lockBond token user r m x d =>
    obtain ⟨_, _, _, _, _, rfl⟩ := Vault.lockBond_ok h
    rfl
  | releaseBond token user r x d =>
    obtain ⟨_, _, _, _, _, _, _, _, _, _, rfl⟩ := Vault.payBond_ok.mp h
    rfl
  | slashBond token user r x d recipient =>
    obtain ⟨_, _, _, _, _, _, _, _, _, _, rfl⟩ := Vault.payBond_ok.mp h
    rfl
  | collectFee m lp protocol cod =>
    obtain ⟨_, _, _, _, _, rfl⟩ := Vault.collectFee_steps h
    rfl
  | claimLpFees token m lp x =>
    obtain ⟨_, _, _, _, rfl⟩ := Vault.claimLpFees_steps h
    rfl
  | sweepProtocolFees token m =>
    obtain ⟨y, h⟩ := world_ok.mp h
    obtain ⟨_, _, _, _, _, rfl⟩ := Vault.sweepProtocolFees_steps h
    rfl

/-- The calls that fund a purchase: cash is deposited and staked, credit is drawn. -/
def fundingCalls (token : Asset) (trader : Address) (m : MarketId) (o : Outcome)
    (amountIn out : ℤ) :
    Option (MarketId × Outcome) → List VaultOp
  | none => [.depositForMarket token trader m amountIn, .recordCashStake trader m o amountIn out]
  | some (p, po) => [.openChildCreditForTrade trader p po m o amountIn]

/-- The call that books the parts of a trading fee. -/
def feeCall (m : MarketId) (fees : Amm.FeeParts) : VaultOp :=
  .collectFee m fees.lp fees.treasury fees.cod

/-- The calls of a purchase in the market of a pool. -/
def BuyMakes (w : World) (trader : Address) (poolId : ℕ) (amountIn : ℤ) (yes : Bool)
    (parent : Option (MarketId × Outcome)) (ops : List VaultOp) : Prop :=
  ∃ pool token out fees, w.amm.pool poolId = some pool ∧
    ops = fundingCalls token trader pool.marketId (Amm.outcomeOf yes) amountIn out parent ++
      [feeCall pool.marketId fees]

/-- The calls of a sale in the market of a pool. -/
def SellMakes (w : World) (trader : Address) (poolId : ℕ) (amountIn : ℤ) (yes : Bool)
    (ops : List VaultOp) : Prop :=
  ∃ pool token netOut fees, w.amm.pool poolId = some pool ∧
    ops = [.releaseTradePayout token trader pool.marketId (Amm.outcomeOf yes) amountIn netOut,
      feeCall pool.marketId fees]

/-- The calls of a liquidation: the fee of the forced sale, and the release of
what the whole balance brought. -/
def LiquidateMakes (w : World) (user : Address) (poolId : ℕ) (o : Outcome)
    (release : Asset → MarketId → ℤ → ℤ → VaultOp) (ops : List VaultOp) : Prop :=
  ∃ pool token fees proceeds, w.amm.pool poolId = some pool ∧
    Amm.saleProceeds w.amm pool poolId (decide (o = .yes))
      (w.tokens.balance (pool.marketId, user, o)) = .ok proceeds ∧
    ops = [feeCall pool.marketId fees,
      release token pool.marketId (w.tokens.balance (pool.marketId, user, o)) proceeds]

/-- What each entry point of the market maker asks of the vault. -/
def Makes (w : World) : Amm.AmmOp → List VaultOp → Prop
  | .seedLiquidity lp poolId amount, ops => ∃ pool token, w.amm.pool poolId = some pool ∧
    ops = [.depositForMarket token lp pool.marketId amount]
  | .addLiquidity lp poolId amount, ops => ∃ pool token, w.amm.pool poolId = some pool ∧
    (ops = [.depositForMarket token lp pool.marketId amount] ∨ ∃ pending,
      ops = [.depositForMarket token lp pool.marketId amount,
        .claimLpFees token pool.marketId lp pending])
  | .removeLiquidity lp poolId _, ops => ∃ pool token, w.amm.pool poolId = some pool ∧
    (ops = [] ∨ ∃ pending, ops = [.claimLpFees token pool.marketId lp pending])
  | .claimLpFees lp poolId, ops => ∃ pool token, w.amm.pool poolId = some pool ∧
    (ops = [] ∨ ∃ pending, ops = [.claimLpFees token pool.marketId lp pending])
  | .buyYes trader poolId amountIn _ _, ops => BuyMakes w trader poolId amountIn true none ops
  | .buyNo trader poolId amountIn _ _, ops => BuyMakes w trader poolId amountIn false none ops
  | .buyChildYes trader p po poolId amountIn _ _, ops =>
    BuyMakes w trader poolId amountIn true (some (p, po)) ops
  | .buyChildNo trader p po poolId amountIn _ _, ops =>
    BuyMakes w trader poolId amountIn false (some (p, po)) ops
  | .sellYes trader poolId amountIn _ _, ops => SellMakes w trader poolId amountIn true ops
  | .sellNo trader poolId amountIn _ _, ops => SellMakes w trader poolId amountIn false ops
  | .liquidatePosition keeper user poolId o, ops => LiquidateMakes w user poolId o
    (fun token m sold proceeds => .liquidateRelease token user keeper m o sold proceeds) ops
  | .liquidateChildPosition keeper user poolId o, ops => LiquidateMakes w user poolId o
    (fun token m sold proceeds => .liquidateChildRelease token user keeper m o sold proceeds) ops
  | _, ops => ops = []

section Operations

variable {ctx : Ctx} {w w' : World} {mods : Amm.Modules} {m : MarketId} {x : ℤ}

/-- A deposit of the market maker is one call. -/
theorem depositForMarket_acts (hctx : FromOutside ctx) {user : Address}
    (h : Amm.depositForMarket ctx w mods user m x = .ok w') :
    Acts w [.depositForMarket mods.collateral user m x] w' :=
  .one hctx.within (Amm.depositForMarket_ok h)

/-- A purchase is funded by its calls. -/
theorem fundPurchase_acts (hctx : FromOutside ctx) {trader : Address} {o : Outcome} {out : ℤ}
    {parent : Option (MarketId × Outcome)}
    (h : Amm.fundPurchase ctx w mods trader m o x out parent = .ok w') :
    Acts w (fundingCalls mods.collateral trader m o x out parent) w' := by
  cases parent with
  | none =>
    obtain ⟨w1, h1, h⟩ := bind_ok.mp h
    obtain ⟨called, hcall, h⟩ := bind_ok.mp h
    obtain rfl := (Ctx.call_ok.mp hcall).2.2
    exact (depositForMarket_acts hctx h1).append (.one hctx.within h)
  | some parent =>
    obtain ⟨called, hcall, h⟩ := bind_ok.mp h
    obtain rfl := (Ctx.call_ok.mp hcall).2.2
    exact .one hctx.within h

/-- Minting asks nothing of the vault. -/
theorem mintCompleteSet_acts (h : Amm.mintCompleteSet ctx w mods m x = .ok w') : Acts w [] w' := by
  obtain ⟨t, hx, ht, rfl⟩ := Amm.mintCompleteSet_ok h
  exact .moved rfl rfl rfl (.mint hx ht)

/-- Merging asks nothing of the vault. -/
theorem mergePositions_acts (h : Amm.mergePositions ctx w mods m x = .ok w') : Acts w [] w' := by
  obtain ⟨t, ht, rfl⟩ := Amm.mergePositions_ok h
  exact .moved rfl rfl rfl (.merge ht)

/-- A transfer asks nothing of the vault that could change it. -/
theorem transferPosition_acts {a b : Address} {o : Outcome}
    (h : Tokens.transferPosition ctx w a b m o x = .ok w') : Acts w [] w' := by
  obtain ⟨_, hx, _, _, t, ht, rfl⟩ := Tokens.transferPosition_ok h
  exact .moved rfl rfl rfl (.move hx ht)

/-- A booked fee is one call. -/
theorem collectFee_acts (hctx : FromOutside ctx) {fees : Amm.FeeParts}
    (h : Amm.collectFee ctx w mods m fees = .ok w') : Acts w [feeCall m fees] w' :=
  .one hctx.within (Amm.collectFee_ok h)

/-- Fees of a provider are paid by one call, if at all, once the shares are rewritten. -/
theorem payLpFees_acts (hctx : FromOutside ctx) {a : AmmState} {lp : Address}
    (h : Amm.payLpFees ctx { w with amm := a } mods m lp x = .ok w') :
    ∃ ops, Acts w ops w' ∧ (ops = [] ∨ ops = [.claimLpFees mods.collateral m lp x]) := by
  rcases Amm.payLpFees_ok h with h | rfl
  · have hone : Acts { w with amm := a } [.claimLpFees mods.collateral m lp x] w' :=
      .one hctx.within h
    exact ⟨_, .before a hone, Or.inr rfl⟩
  · exact ⟨[], .before a (.done _), Or.inl rfl⟩

/-- A purchase makes its calls. -/
theorem buy_acts (hctx : FromOutside ctx) {trader : Address} {poolId : ℕ}
    {amountIn minOut out : ℤ} {deadline : ℕ} {yes : Bool} {parent : Option (MarketId × Outcome)}
    (h : Amm.buy ctx w trader poolId amountIn minOut deadline yes parent = .ok (out, w')) :
    ∃ ops, Acts w ops w' ∧ BuyMakes w trader poolId amountIn yes parent ops := by
  obtain ⟨pool, mods, fee, netIn, fees, w1, w2, w3, w4, a, _, _, hpool, _, h1, h2, _, h3,
    h4, rfl⟩ := Amm.buy_steps h
  have hfunded := (fundPurchase_acts hctx h1).append (mintCompleteSet_acts h2)
  have hcharged := hfunded.append (collectFee_acts hctx h3)
  have hdelivered := hcharged.append (transferPosition_acts (Amm.transferPosition_ok h4))
  rw [List.append_nil, List.append_nil] at hdelivered
  exact ⟨_, hdelivered.after a, pool, _, out, fees, hpool, rfl⟩

/-- A sale makes its calls. -/
theorem sell_acts (hctx : FromOutside ctx) {trader : Address} {poolId : ℕ}
    {amountIn minOut netOut : ℤ} {deadline : ℕ} {yes : Bool}
    (h : Amm.sell ctx w trader poolId amountIn minOut deadline yes = .ok (netOut, w')) :
    ∃ ops, Acts w ops w' ∧ SellMakes w trader poolId amountIn yes ops := by
  obtain ⟨pool, mods, fee, grossOut, fees, w1, w2, w3, w4, a, _, hpool, _, _, h1, h2, h3, h4,
    rfl⟩ :=
    Amm.sell_steps h
  have hmerged := (transferPosition_acts (Amm.transferPosition_ok h1)).append
    (mergePositions_acts h2)
  have hpaid : Acts w2 [.releaseTradePayout mods.collateral trader pool.marketId
      (Amm.outcomeOf yes) amountIn netOut] w3 := .one hctx.within h3
  have hcharged := (hmerged.append hpaid).append (collectFee_acts hctx h4)
  exact ⟨_, hcharged.after a, pool, _, netOut, fees, hpool, rfl⟩

/-- A liquidation makes its calls. -/
theorem liquidate_acts (hctx : FromOutside ctx) (hw : TradeInvariant w) {keeper user : Address}
    {poolId : ℕ} {o : Outcome} {debtIn : MarketId → ℤ} {release : Amm.Release}
    {y : ℤ} (call : Asset → MarketId → ℤ → ℤ → VaultOp)
    (hrelease : ∀ {w token m sold proceeds},
      world (release (Amm.within ctx) w token m sold proceeds) =
        (call token m sold proceeds).exec (Amm.within ctx) w)
    (h : Amm.liquidate ctx w keeper user poolId o debtIn release = .ok (y, w')) :
    ∃ ops, Acts w ops w' ∧ LiquidateMakes w user poolId o call ops := by
  obtain ⟨pool, mods, _, _, _, sold, proceeds, w1, _, hpool, _, hheld, _, _, _, hsell, hrest⟩ :=
    Amm.liquidate_steps h
  obtain ⟨pool', mods', fee, grossOut, fees, t, w2, w3, a, hpool', _, hsold, hpos, hgross, hsplit,
    _, ht, h2, h3, rfl⟩ := Amm.forceSell_steps hsell
  obtain rfl : pool = pool' := Option.some.inj (hpool.symm.trans hpool')
  rw [outcome_of_balance hw hheld] at hsold
  have hmoved : Acts w [] { w with tokens := t } := .moved rfl rfl rfl (.move hpos ht)
  have hmerged := hmoved.append (mergePositions_acts h2)
  have hcharged := hmerged.append (collectFee_acts hctx h3)
  have hreleased : Acts w3 [call mods.collateral pool.marketId sold proceeds] w' := by
    refine .before a (.one hctx.within ?_)
    rw [← hrelease]
    exact world_ok.mpr ⟨y, hrest⟩
  rw [hsold] at hgross hreleased
  exact ⟨_, hcharged.append hreleased, pool, _, fees, proceeds, hpool,
    Amm.saleProceeds_ok hgross hsplit, rfl⟩

/-- Every entry point of the market maker makes its calls. -/
theorem amm_acts (hctx : FromOutside ctx) (hw : TradeInvariant w) {op : Amm.AmmOp}
    (hop : (TradeOp.amm op).rewires = false) (h : op.exec ctx w = .ok w') :
    ∃ ops, Acts w ops w' ∧ Makes w op ops := by
  have hrest : ∀ a, ∃ ops, Acts w ops { w with amm := a } ∧ ops = [] :=
    fun a => ⟨[], .moved rfl rfl rfl (.same rfl rfl), rfl⟩
  cases op with
  | setAdmin admin =>
    obtain ⟨_, _, h⟩ := bind_ok.mp h
    obtain rfl := pure_ok.mp h
    exact hrest _
  | upgrade wasmHash => cases hop
  | setRole role module => cases hop
  | setModules vault tokens collateral registry => cases hop
  | pause paused =>
    obtain ⟨_, _, h⟩ := bind_ok.mp h
    obtain rfl := pure_ok.mp h
    exact hrest _
  | createPool marketId feeConfig =>
    obtain ⟨y, h⟩ := world_ok.mp h
    obtain ⟨_, _, h⟩ := bind_ok.mp h
    obtain ⟨_, _, h⟩ := bind_ok.mp h
    obtain ⟨_, _, h⟩ := bind_ok.mp h
    obtain ⟨_, rfl⟩ := Prod.mk.inj (pure_ok.mp h)
    exact hrest _
  | seedLiquidity lp poolId amount =>
    obtain ⟨y, h⟩ := world_ok.mp h
    obtain ⟨pool, mods, w1, w2, a, hpool, h1, h2, rfl⟩ := Amm.seedLiquidity_steps h
    have hcalls := (depositForMarket_acts hctx h1).append (mintCompleteSet_acts h2)
    exact ⟨_, hcalls.after a, pool, _, hpool, rfl⟩
  | addLiquidity lp poolId amount =>
    obtain ⟨y, h⟩ := world_ok.mp h
    obtain ⟨pool, mods, pending, w1, w2, a, hpool, h1, h2, h3⟩ := Amm.addLiquidity_steps h
    have hcalls := (depositForMarket_acts hctx h1).append (mintCompleteSet_acts h2)
    obtain ⟨ops, hpaid, rfl | rfl⟩ := payLpFees_acts hctx h3
    · exact ⟨_, hcalls.append hpaid, pool, _, hpool, Or.inl rfl⟩
    · exact ⟨_, hcalls.append hpaid, pool, _, hpool, Or.inr ⟨pending, rfl⟩⟩
  | removeLiquidity lp poolId shares =>
    obtain ⟨⟨yesOut, noOut, w3⟩, hremove, h⟩ := bind_ok.mp h
    obtain rfl := pure_ok.mp h
    obtain ⟨pool, mods, pending, w1, w2, a, hpool, h1, h2, h3⟩ := Amm.removeLiquidity_steps hremove
    have hmoved := (transferPosition_acts (Amm.transferPosition_ok h2)).append
      (transferPosition_acts (Amm.transferPosition_ok h3))
    obtain ⟨ops, hpaid, rfl | rfl⟩ := payLpFees_acts hctx h1
    · exact ⟨_, hpaid.append hmoved, pool, mods.collateral, hpool, Or.inl rfl⟩
    · exact ⟨_, hpaid.append hmoved, pool, _, hpool, Or.inr ⟨pending, rfl⟩⟩
  | claimLpFees lp poolId =>
    obtain ⟨y, h⟩ := world_ok.mp h
    obtain ⟨pool, mods, a, hpool, rfl | h1⟩ := Amm.claimLpFees_steps h
    · exact ⟨[], .done _, pool, mods.collateral, hpool, Or.inl rfl⟩
    · obtain ⟨ops, hpaid, rfl | rfl⟩ := payLpFees_acts hctx h1
      · exact ⟨_, hpaid, pool, mods.collateral, hpool, Or.inl rfl⟩
      · exact ⟨_, hpaid, pool, _, hpool, Or.inr ⟨y, rfl⟩⟩
  | buyYes trader poolId amountIn minOut deadline =>
    obtain ⟨y, h⟩ := world_ok.mp h
    exact buy_acts hctx h
  | buyNo trader poolId amountIn minOut deadline =>
    obtain ⟨y, h⟩ := world_ok.mp h
    exact buy_acts hctx h
  | buyChildYes trader parentMarketId parentOutcome poolId amountIn minOut deadline =>
    obtain ⟨y, h⟩ := world_ok.mp h
    exact buy_acts hctx h
  | buyChildNo trader parentMarketId parentOutcome poolId amountIn minOut deadline =>
    obtain ⟨y, h⟩ := world_ok.mp h
    exact buy_acts hctx h
  | sellYes trader poolId amountIn minOut deadline =>
    obtain ⟨y, h⟩ := world_ok.mp h
    exact sell_acts hctx h
  | sellNo trader poolId amountIn minOut deadline =>
    obtain ⟨y, h⟩ := world_ok.mp h
    exact sell_acts hctx h
  | liquidatePosition keeper user poolId o =>
    obtain ⟨y, h⟩ := world_ok.mp h
    exact liquidate_acts hctx hw
      (fun token m sold proceeds => .liquidateRelease token user keeper m o sold proceeds) rfl h
  | liquidateChildPosition keeper user poolId o =>
    obtain ⟨y, h⟩ := world_ok.mp h
    exact liquidate_acts hctx hw
      (fun token m sold proceeds => .liquidateChildRelease token user keeper m o sold proceeds)
      rfl h

/-- The calls of a purchase. -/
theorem buy_calls (hctx : FromOutside ctx) {trader : Address} {poolId : ℕ}
    {amountIn minOut out : ℤ} {deadline : ℕ} {yes : Bool} {parent : Option (MarketId × Outcome)}
    (h : Amm.buy ctx w trader poolId amountIn minOut deadline yes parent = .ok (out, w')) :
    ∃ ops, Calls w ops w' ∧ BuyMakes w trader poolId amountIn yes parent ops := by
  obtain ⟨ops, hacts, hmakes⟩ := buy_acts hctx h
  exact ⟨ops, hacts.calls, hmakes⟩

/-- The calls of a sale. -/
theorem sell_calls (hctx : FromOutside ctx) {trader : Address} {poolId : ℕ}
    {amountIn minOut netOut : ℤ} {deadline : ℕ} {yes : Bool}
    (h : Amm.sell ctx w trader poolId amountIn minOut deadline yes = .ok (netOut, w')) :
    ∃ ops, Calls w ops w' ∧ SellMakes w trader poolId amountIn yes ops := by
  obtain ⟨ops, hacts, hmakes⟩ := sell_acts hctx h
  exact ⟨ops, hacts.calls, hmakes⟩

/-- The calls of an entry point of the market maker. -/
theorem amm_calls (hctx : FromOutside ctx) (hw : TradeInvariant w) {op : Amm.AmmOp}
    (hop : (TradeOp.amm op).rewires = false) (h : op.exec ctx w = .ok w') :
    ∃ ops, Calls w ops w' ∧ Makes w op ops := by
  obtain ⟨ops, hacts, hmakes⟩ := amm_acts hctx hw hop h
  exact ⟨ops, hacts.calls, hmakes⟩

end Operations

/-- What a step asks of the vault: the calls of the market maker, an invocation
from outside, or nothing. -/
def TradeStep.Makes (w : World) : TradeStep → List VaultOp → Prop
  | .call _ (.amm op), ops => Trading.Makes w op ops
  | .call _ (.vault op), ops => ops = [op]
  | _, ops => ops = []

/-- All calls of a step meet a condition in the state before the step. -/
def TradeStep.AllCalls (g : World → VaultOp → Prop) (w : World) (i : TradeStep) : Prop :=
  ∀ ops, i.Makes w ops → ∀ op ∈ ops, g w op

/-- A step acts through its calls, or moves markets along, or changes the bank. -/
theorem step_acts {w w' : World} (hw : TradeInvariant w) {i : TradeStep}
    (h : tradingSystem.step w i = .ok w') :
    (∃ ops, Acts w ops w' ∧ i.Makes w ops) ∨
      (∃ r, w' = { w with registry := r } ∧ Registry.MarketsFollow w.registry r) ∨
      ∃ b, i = .outside b ∧ w' = { w with bank := b } := by
  cases i with
  | call ctx op =>
    obtain ⟨hctx, hop, h⟩ := tradingSystem_call h
    cases op with
    | amm op => exact Or.inl (amm_acts hctx hw hop h)
    | vault op => exact Or.inl ⟨[op], .one hctx.2.1 h, rfl⟩
    | tokens op =>
      left
      rcases hw.tokens_ok hctx hop h with ⟨t, rfl, hbal, hbacking, _⟩ | ⟨_, _, _, _, _, _, hmove⟩ |
        ⟨_, _, _, _, t, _, hburn, rfl⟩
      · exact ⟨[], .moved rfl rfl rfl (.same hbal hbacking), rfl⟩
      · exact ⟨[], transferPosition_acts hmove, rfl⟩
      · obtain ⟨_, hx, hsub⟩ := Tokens.burnLosing_ok hburn
        exact ⟨[], .moved rfl rfl rfl (.burn hx hsub), rfl⟩
    | registry op =>
      obtain ⟨r, hr, h⟩ := bind_ok.mp h
      obtain rfl := pure_ok.mp h
      exact Or.inr (Or.inl ⟨r, rfl, op.exec_follow hr⟩)
  | outside bank =>
    obtain rfl := ok_ok.mp h
    exact Or.inr (Or.inr ⟨bank, rfl, rfl⟩)

/-- A step makes its calls, or moves markets along with the vault at rest. -/
theorem step_calls {w w' : World} (hw : TradeInvariant w) {i : TradeStep}
    (h : tradingSystem.step w i = .ok w') :
    (∃ ops, Calls w ops w' ∧ i.Makes w ops) ∨
      (w'.vault = w.vault ∧ Registry.MarketsFollow w.registry w'.registry) := by
  rcases step_acts hw h with ⟨ops, hacts, hmakes⟩ | ⟨r, rfl, hfollow⟩ | ⟨b, rfl, rfl⟩
  · exact Or.inl ⟨ops, hacts.calls, hmakes⟩
  · exact Or.inr ⟨rfl, hfollow⟩
  · exact Or.inl ⟨[], .done rfl rfl, rfl⟩

/-- The calls that the market maker makes. -/
def ForMarkets : VaultOp → Bool
  | .depositForMarket _ _ _ _ | .recordCashStake _ _ _ _ _ => true
  | .openChildCreditForTrade _ _ _ _ _ _ | .releaseTradePayout _ _ _ _ _ _ => true
  | .liquidateRelease _ _ _ _ _ _ _ | .liquidateChildRelease _ _ _ _ _ _ _ => true
  | .collectFee _ _ _ _ | .claimLpFees _ _ _ _ => true
  | _ => false

/-- The market maker makes no other calls. -/
theorem makes_forMarkets {w : World} {op : Amm.AmmOp} {ops : List VaultOp} (h : Makes w op ops) :
    ∀ op ∈ ops, ForMarkets op = true := by
  have hbuy : ∀ {trader poolId amountIn yes parent},
    BuyMakes w trader poolId amountIn yes parent ops →
      ∀ op ∈ ops, ForMarkets op = true := by
    rintro trader poolId amountIn yes (_ | parent) ⟨pool, token, out, fees, _, rfl⟩ <;>
      simp [fundingCalls, feeCall, ForMarkets]
  have hsell : ∀ {trader poolId amountIn yes}, SellMakes w trader poolId amountIn yes ops →
      ∀ op ∈ ops, ForMarkets op = true := by
    rintro trader poolId amountIn yes ⟨pool, token, netOut, fees, _, rfl⟩
    simp [feeCall, ForMarkets]
  cases op with
  | seedLiquidity lp poolId amount =>
    obtain ⟨pool, token, _, rfl⟩ := h
    simp [ForMarkets]
  | addLiquidity lp poolId amount =>
    obtain ⟨pool, token, _, rfl | ⟨pending, rfl⟩⟩ := h <;> simp [ForMarkets]
  | removeLiquidity lp poolId shares =>
    obtain ⟨pool, token, _, rfl | ⟨pending, rfl⟩⟩ := h <;> simp [ForMarkets]
  | claimLpFees lp poolId =>
    obtain ⟨pool, token, _, rfl | ⟨pending, rfl⟩⟩ := h <;> simp [ForMarkets]
  | buyYes | buyNo | buyChildYes | buyChildNo => exact hbuy h
  | sellYes | sellNo => exact hsell h
  | liquidatePosition keeper user poolId o =>
    obtain ⟨pool, token, fees, proceeds, _, _, rfl⟩ := h
    simp [feeCall, ForMarkets]
  | liquidateChildPosition keeper user poolId o =>
    obtain ⟨pool, token, fees, proceeds, _, _, rfl⟩ := h
    simp [feeCall, ForMarkets]
  | _ =>
    obtain rfl : ops = [] := h
    simp

/-- Any other call of a step is an invocation of the vault from outside. -/
theorem TradeStep.of_notForMarkets {w : World} {i : TradeStep} {ops : List VaultOp}
    (h : i.Makes w ops) {op : VaultOp} (hop : op ∈ ops) (hnot : ForMarkets op = false) :
    ∃ ctx, i = .call ctx (.vault op) := by
  cases i with
  | outside bank =>
    obtain rfl : ops = [] := h
    cases hop
  | call ctx invoked =>
    cases invoked with
    | vault invoked =>
      obtain rfl : ops = [invoked] := h
      rw [List.mem_singleton.mp hop]
      exact ⟨ctx, rfl⟩
    | amm invoked =>
      rw [makes_forMarkets h op hop] at hnot
      cases hnot
    | tokens invoked =>
      obtain rfl : ops = [] := h
      cases hop
    | registry invoked =>
      obtain rfl : ops = [] := h
      cases hop

/-- Calls that no condition on loans looks at. -/
def Quiet : VaultOp → Bool
  | .openChildCreditForTrade _ _ _ _ _ _ | .liquidateChildRelease _ _ _ _ _ _ _ => false
  | .redeemResolved _ _ _ _ _ | .redeemCancelled _ _ _ _ _ => false
  | _ => true

/-- The calls of a step are quiet, or one call that may not be comes first, or
right after the fee of a forced sale. -/
theorem makes_shape {w : World} {i : TradeStep} {ops : List VaultOp} (h : i.Makes w ops) :
    (∀ op ∈ ops, Quiet op = true) ∨
      (∃ op rest, ops = op :: rest ∧ ∀ op ∈ rest, Quiet op = true) ∨
      ∃ m fees op, ops = [feeCall m fees, op] := by
  have hnil : ∀ {ops : List VaultOp}, ops = [] → ∀ op ∈ ops, Quiet op = true := by
    rintro ops rfl op hop
    cases hop
  have hsingle : ∀ {op : VaultOp}, Quiet op = true → ∀ o ∈ [op], Quiet o = true := by
    intro op hop o ho
    rw [List.mem_singleton.mp ho]
    exact hop
  have hbuy : ∀ {trader poolId amountIn yes parent},
    BuyMakes w trader poolId amountIn yes parent ops →
      ∃ op rest, ops = op :: rest ∧ ∀ op ∈ rest, Quiet op = true := by
    rintro trader poolId amountIn yes parent ⟨pool, token, out, fees, _, rfl⟩
    cases parent with
    | none => exact ⟨_, _, rfl, List.forall_mem_cons.mpr ⟨rfl, hsingle rfl⟩⟩
    | some parent => exact ⟨_, _, rfl, hsingle rfl⟩
  have hsell : ∀ {trader poolId amountIn yes}, SellMakes w trader poolId amountIn yes ops →
      ∃ op rest, ops = op :: rest ∧ ∀ op ∈ rest, Quiet op = true := by
    rintro trader poolId amountIn yes ⟨pool, token, netOut, fees, _, rfl⟩
    exact ⟨_, _, rfl, hsingle rfl⟩
  cases i with
  | outside bank => exact Or.inl (hnil h)
  | call ctx op =>
    cases op with
    | vault op => exact Or.inr (Or.inl ⟨op, [], h, hnil rfl⟩)
    | tokens op => exact Or.inl (hnil h)
    | registry op => exact Or.inl (hnil h)
    | amm op =>
      cases op with
      | seedLiquidity lp poolId amount =>
        obtain ⟨pool, token, _, rfl⟩ := h
        exact Or.inl (hsingle rfl)
      | addLiquidity lp poolId amount =>
        obtain ⟨pool, token, _, rfl | ⟨pending, rfl⟩⟩ := h
        · exact Or.inl (hsingle rfl)
        · exact Or.inl (List.forall_mem_cons.mpr ⟨rfl, hsingle rfl⟩)
      | removeLiquidity lp poolId shares =>
        obtain ⟨pool, token, _, rfl | ⟨pending, rfl⟩⟩ := h
        · exact Or.inl (hnil rfl)
        · exact Or.inl (hsingle rfl)
      | claimLpFees lp poolId =>
        obtain ⟨pool, token, _, rfl | ⟨pending, rfl⟩⟩ := h
        · exact Or.inl (hnil rfl)
        · exact Or.inl (hsingle rfl)
      | buyYes trader poolId amountIn minOut deadline => exact Or.inr (Or.inl (hbuy h))
      | buyNo trader poolId amountIn minOut deadline => exact Or.inr (Or.inl (hbuy h))
      | buyChildYes trader p po poolId amountIn minOut deadline => exact Or.inr (Or.inl (hbuy h))
      | buyChildNo trader p po poolId amountIn minOut deadline => exact Or.inr (Or.inl (hbuy h))
      | sellYes trader poolId amountIn minOut deadline => exact Or.inr (Or.inl (hsell h))
      | sellNo trader poolId amountIn minOut deadline => exact Or.inr (Or.inl (hsell h))
      | liquidatePosition keeper user poolId o =>
        obtain ⟨pool, token, fees, proceeds, _, _, rfl⟩ := h
        exact Or.inr (Or.inr ⟨_, _, _, rfl⟩)
      | liquidateChildPosition keeper user poolId o =>
        obtain ⟨pool, token, fees, proceeds, _, _, rfl⟩ := h
        exact Or.inr (Or.inr ⟨_, _, _, rfl⟩)
      | _ => exact Or.inl (hnil h)

/-- Steps that neither draw credit, nor liquidate a child, nor invoke the vault themselves. -/
def TradeStep.plain : TradeStep → Bool
  | .call _ (.amm (.buyChildYes _ _ _ _ _ _ _)) | .call _ (.amm (.buyChildNo _ _ _ _ _ _ _)) =>
    false
  | .call _ (.amm (.liquidateChildPosition _ _ _ _)) | .call _ (.vault _) => false
  | _ => true

/-- All calls of a plain step are quiet. -/
theorem makes_quiet {w : World} {i : TradeStep} (hi : i.plain = true) {ops : List VaultOp}
    (h : i.Makes w ops) : ∀ op ∈ ops, Quiet op = true := by
  cases i with
  | outside bank =>
    obtain rfl : ops = [] := h
    simp
  | call ctx op =>
    cases op with
    | vault op => cases hi
    | tokens op =>
      obtain rfl : ops = [] := h
      simp
    | registry op =>
      obtain rfl : ops = [] := h
      simp
    | amm op =>
      cases op with
      | seedLiquidity lp poolId amount =>
        obtain ⟨pool, token, _, rfl⟩ := h
        simp [Quiet]
      | addLiquidity lp poolId amount =>
        obtain ⟨pool, token, _, rfl | ⟨pending, rfl⟩⟩ := h <;> simp [Quiet]
      | removeLiquidity lp poolId shares =>
        obtain ⟨pool, token, _, rfl | ⟨pending, rfl⟩⟩ := h <;> simp [Quiet]
      | claimLpFees lp poolId =>
        obtain ⟨pool, token, _, rfl | ⟨pending, rfl⟩⟩ := h <;> simp [Quiet]
      | buyYes trader poolId amountIn minOut deadline =>
        obtain ⟨pool, token, out, fees, _, rfl⟩ := h
        simp [fundingCalls, feeCall, Quiet]
      | buyNo trader poolId amountIn minOut deadline =>
        obtain ⟨pool, token, out, fees, _, rfl⟩ := h
        simp [fundingCalls, feeCall, Quiet]
      | sellYes trader poolId amountIn minOut deadline =>
        obtain ⟨pool, token, netOut, fees, _, rfl⟩ := h
        simp [feeCall, Quiet]
      | sellNo trader poolId amountIn minOut deadline =>
        obtain ⟨pool, token, netOut, fees, _, rfl⟩ := h
        simp [feeCall, Quiet]
      | liquidatePosition keeper user poolId o =>
        obtain ⟨pool, token, fees, proceeds, _, _, rfl⟩ := h
        simp [feeCall, Quiet]
      | buyChildYes | buyChildNo | liquidateChildPosition => cases hi
      | _ =>
        obtain rfl : ops = [] := h
        simp

/-- Conditions that look at loans only: quiet calls meet them, and neither the
books of the markets nor what lies outside vault and registry matters. -/
structure AboutLoans (g : World → VaultOp → Prop) : Prop where
  quiet : ∀ s op, Quiet op = true → g s op
  fee : ∀ s a op, g s op → g { s with vault := { s.vault with accounting := a } } op
  place : ∀ s s' op, s'.vault = s.vault → s'.registry = s.registry → g s op → g s' op

/-- Two conditions on loans are one. -/
theorem AboutLoans.and {g g' : World → VaultOp → Prop} (h : AboutLoans g) (h' : AboutLoans g') :
    AboutLoans (fun s op => g s op ∧ g' s op) where
  quiet := fun s op hop => ⟨h.quiet s op hop, h'.quiet s op hop⟩
  fee := fun s a op hop => ⟨h.fee s a op hop.1, h'.fee s a op hop.2⟩
  place := fun s s' op hv hr hop => ⟨h.place s s' op hv hr hop.1, h'.place s s' op hv hr hop.2⟩

/-- A condition on loans that only counts while something holds is one, too. -/
theorem AboutLoans.under {g : World → VaultOp → Prop} (h : AboutLoans g) (alive : Prop) :
    AboutLoans (fun s op => alive → g s op) where
  quiet := fun s op hop _ => h.quiet s op hop
  fee := fun s a op hop ha => h.fee s a op (hop ha)
  place := fun s s' op hv hr hop ha => h.place s s' op hv hr (hop ha)

section Keeps

variable {I : VaultState → RegistryState → Prop} {g : World → VaultOp → Prop}
  (hexec : ∀ ctx op s s', Outside .vault ctx → g s op → I s.vault s.registry →
    op.exec ctx s = .ok s' → I s'.vault s'.registry)
  (hg : AboutLoans g)
  (hregistry : ∀ v r r', Registry.MarketsFollow r r' → I v r → I v r')

include hexec hg

/-- Quiet calls keep what every call that meets the condition keeps. -/
theorem Calls.keeps_quiet {w w' : World} {ops : List VaultOp} (h : Calls w ops w')
    (hops : ∀ op ∈ ops, Quiet op = true) (hw : I w.vault w.registry) : I w'.vault w'.registry :=
  h.keeps (fun ctx op s s' hop hctx hs he =>
    hexec ctx op s s' hctx (hg.quiet s op (hops op hop)) hs he)
    hw

/-- A first call that meets the condition, and quiet calls after it. -/
theorem Calls.keeps_first {w w' : World} {op : VaultOp} {ops : List VaultOp}
    (h : Calls w (op :: ops) w') (hop : g w op) (hops : ∀ op ∈ ops, Quiet op = true)
    (hw : I w.vault w.registry) : I w'.vault w'.registry := by
  obtain _ | ⟨hv, hr, hctx, he, hrest⟩ := h
  rw [← hv, ← hr] at hw
  exact hrest.keeps_quiet hexec hg hops (hexec _ _ _ _ hctx (hg.place _ _ _ hv hr hop) hw he)

/-- A booked fee, and then a call that meets the condition. -/
theorem Calls.keeps_second {w w' : World} {m : MarketId} {fees : Amm.FeeParts} {op : VaultOp}
    (h : Calls w [feeCall m fees, op] w') (hop : g w op) (hw : I w.vault w.registry) :
    I w'.vault w'.registry := by
  obtain _ | ⟨hv, hr, hctx, he, hrest⟩ := h
  rw [← hv, ← hr] at hw
  have hcharged := hexec _ _ _ _ hctx (hg.quiet _ _ rfl) hw he
  obtain ⟨_, _, _, _, _, rfl⟩ := Vault.collectFee_steps he
  exact hrest.keeps_first hexec hg (hg.fee _ _ _ (hg.place _ _ _ hv hr hop))
    (fun op hk => by cases hk) hcharged

include hregistry

/-- What every call that meets a condition keeps, and moving markets along keeps,
a step keeps when all its calls meet the condition before it. -/
theorem step_keeps {w w' : World} (hw : TradeInvariant w) {i : TradeStep}
    (hops : i.AllCalls g w) (h : tradingSystem.step w i = .ok w')
    (hI : I w.vault w.registry) : I w'.vault w'.registry := by
  rcases step_calls hw h with ⟨ops, hcalls, hmakes⟩ | ⟨hv, hr⟩
  · have hall := hops ops hmakes
    rcases makes_shape hmakes with hnone | ⟨op, rest, rfl, hrest⟩ | ⟨m, fees, op, rfl⟩
    · exact hcalls.keeps_quiet hexec hg hnone hI
    · exact hcalls.keeps_first hexec hg (hall op List.mem_cons_self) hrest hI
    · exact hcalls.keeps_second hexec hg
        (hall op (List.mem_cons_of_mem _ List.mem_cons_self)) hI
  · rw [hv]
    exact hregistry _ _ _ hr hI

end Keeps

end DikeProtocol.Trading
