import DikeProtocol.Vault.Holdings
import DikeProtocol.Vault.Unlent

/-!
# The ledger of bonds

Whatever the vault is asked to do, bonds move by locking and paying only. A run
of such moves keeps every market's booked bonds right, and pays out of a bond
never more than was locked in it.
-/

namespace DikeProtocol.Vault

open Lib

/-- Two vaults with the same bonds and the same booked sums. -/
structure SameBonds (v v' : VaultState) : Prop where
  bond : v'.bond = v.bond
  bondToken : v'.bondToken = v.bondToken
  bondMarket : v'.bondMarket = v.bondMarket
  booked : ∀ m d, bondTotal (v'.accounting m) d = bondTotal (v.accounting m) d

/-- Nothing happened to the bonds. -/
theorem SameBonds.refl (v : VaultState) : SameBonds v v := ⟨rfl, rfl, rfl, fun _ _ => rfl⟩

/-- The gauge that reads the bonds of one kind booked for one market. -/
def bondGauge (p : MarketId) (d : Bool) : Gauge where
  backing := fun _ => 0
  issued := fun _ => 0
  repaid := fun _ => 0
  defaulted := fun _ => 0
  shortfall := fun _ => 0
  redeemed := fun _ => 0
  protocolFees := fun _ => 0
  lpFees := fun _ => 0
  codFees := fun _ => 0
  proposalBonds := if d = true then fun _ => 0 else atMarket p
  disputeBonds := if d = true then atMarket p else fun _ => 0
  debt := fun _ => 0
  reserve := 0

/-- The gauge reads the booked sum. -/
theorem bondGauge_read (p : MarketId) (d : Bool) (v : VaultState) :
    (bondGauge p d).read v = bondTotal (v.accounting p) d := by
  rw [(bondGauge p d).read_at p v]
  · cases d <;> simp [Gauge.weigh, bondGauge, atMarket, bondTotal]
  · intro m hm
    cases d <;> simp [Gauge.weigh, bondGauge, atMarket, hm]
  · intro m
    simp only [bondGauge, ite_self]

/-- No repayment of credit reaches the bonds. -/
theorem bondGauge_even (p : MarketId) (d : Bool) : (bondGauge p d).Even 0 := by
  intro m
  simp only [bondGauge]
  ring

/-- Neither does a default. -/
theorem bondGauge_loss (p q : MarketId) (d : Bool) (lost draw owed : ℤ) :
    (bondGauge p d).loss q lost draw owed = 0 := by
  simp only [Gauge.loss, bondGauge]
  ring

/-- Two vaults with the same bonds and the same sum of one kind for one market. -/
structure SameBond (p : MarketId) (d : Bool) (v v' : VaultState) : Prop where
  bond : v'.bond = v.bond
  bondToken : v'.bondToken = v.bondToken
  bondMarket : v'.bondMarket = v.bondMarket
  booked : bondTotal (v'.accounting p) d = bondTotal (v.accounting p) d

/-- A vault in the same frame that reads the same has the same bonds. -/
theorem SameBond.of_frame {p : MarketId} {d : Bool} {v v' : VaultState} (hframe : Frame v v')
    (hread : (bondGauge p d).read v' = (bondGauge p d).read v) : SameBond p d v v' := by
  rw [bondGauge_read, bondGauge_read] at hread
  exact ⟨hframe.bond, hframe.bondToken, hframe.bondMarket, hread⟩

/-- Invocations that lock a bond or pay out of one. -/
def VaultOp.movesBond : VaultOp → Bool
  | lockBond _ _ _ _ _ _ | releaseBond _ _ _ _ _ | slashBond _ _ _ _ _ _ => true
  | _ => false

/-- Every other invocation leaves bonds and sums alone. -/
theorem VaultOp.exec_sameBond (p : MarketId) (d : Bool) {ctx : Ctx} (hctx : Outside .vault ctx)
    {w w' : World} (hw : Sane w.vault) {op : VaultOp} (hop : op.movesBond = false)
    (h : op.exec ctx w = .ok w') : SameBond p d w.vault w'.vault := by
  have hgauge := bondGauge_even p d
  cases op with
  | setAdmin admin =>
    obtain rfl := admin_ok h
    exact ⟨rfl, rfl, rfl, rfl⟩
  | upgrade wasmHash =>
    obtain ⟨_, _, h⟩ := bind_ok.mp h
    obtain rfl := pure_ok.mp h
    exact ⟨rfl, rfl, rfl, rfl⟩
  | setRole role module =>
    obtain rfl := admin_ok h
    exact ⟨rfl, rfl, rfl, rfl⟩
  | setTreasury treasury =>
    obtain rfl := admin_ok h
    exact ⟨rfl, rfl, rfl, rfl⟩
  | pause paused =>
    obtain rfl := admin_ok h
    exact ⟨rfl, rfl, rfl, rfl⟩
  | depositForMarket t user m x =>
    obtain ⟨v, b, rfl, _, hframe, _, _, hread, _⟩ :=
      depositForMarket_flow (g := bondGauge p d) hctx hw h
    refine .of_frame hframe ?_
    rw [hread]
    simp only [bondGauge, zero_mul, add_zero]
  | recordCashStake user m o x y =>
    obtain ⟨rootStake, rfl⟩ := recordCashStake_flow h
    exact ⟨rfl, rfl, rfl, rfl⟩
  | fundChildPrediction user m c x => cases h
  | openChildCreditForTrade user m c mo co x =>
    obtain ⟨v, rfl, _, hframe, _, hread⟩ := openChildCreditForTrade_flow (g := bondGauge p d) hw h
    refine .of_frame hframe ?_
    rw [hread]
    simp only [bondGauge]
    ring
  | repayChildCollateral t user m x =>
    obtain ⟨y, h⟩ := world_ok.mp h
    obtain ⟨v, b, credited, rfl, _, hframe, _, _, _, hread, _⟩ :=
      repayChildCollateral_flow hctx (hgauge.at _ _ _) hw h
    refine .of_frame hframe ?_
    rw [hread]
    ring
  | releaseTradePayout t user m o sold x =>
    obtain ⟨v, b, rfl, _, hframe, _, _, _, hread, _⟩ :=
      releaseTradePayout_flow (g := bondGauge p d) hw h
    refine .of_frame hframe ?_
    rw [hread]
    simp only [bondGauge, zero_mul, sub_zero]
  | liquidateRelease t user keeper m o sold x =>
    obtain ⟨y, h⟩ := world_ok.mp h
    obtain ⟨v, b, credited, lost, draw, owed, rfl, _, hframe, _, _, _, _, _, hread, _⟩ :=
      liquidateRelease_flow (fun _ _ => hgauge.at _ _ _) hw h
    refine .of_frame hframe ?_
    rw [hread, bondGauge_loss]
    simp only [bondGauge, zero_mul, sub_zero, add_zero]
  | liquidateChildRelease t user keeper c o sold x =>
    obtain ⟨y, h⟩ := world_ok.mp h
    obtain ⟨v, b, credited, lost, draw, owed, rfl, _, hframe, _, _, _, _, _, hread, _⟩ :=
      liquidateChildRelease_flow (hgauge.at _ _ _) hw h
    refine .of_frame hframe ?_
    rw [hread, bondGauge_loss]
    simp only [bondGauge, zero_mul, sub_zero, add_zero]
  | redeem t user m final o x =>
    obtain ⟨_, h⟩ := world_ok.mp h
    cases h
  | redeemResolved t user m o amount =>
    obtain ⟨y, h⟩ := world_ok.mp h
    obtain ⟨market, v, b, tokens, paid, credited, withheld, lost, draw, rfl, _, hframe, _, _, _, _,
      _, _, hread, _⟩ := redeemResolved_flow (hgauge.at _ _ _) (hgauge _) hw h
    refine .of_frame hframe ?_
    rw [hread, bondGauge_loss]
    simp only [bondGauge, zero_mul, sub_zero, add_zero]
  | redeemCancelled t user m o amount =>
    obtain ⟨y, h⟩ := world_ok.mp h
    obtain ⟨market, v, b, tokens, withheld, lost, draw, rfl, _, hframe, _, _, _, _, hread, _⟩ :=
      redeemCancelled_flow (hgauge _) hw h
    refine .of_frame hframe ?_
    rw [hread, bondGauge_loss]
    simp only [bondGauge, zero_mul, add_zero]
  | assertPositionTransferAllowed sender m o x =>
    obtain ⟨_, _, h⟩ := bind_ok.mp h
    obtain rfl := pure_ok.mp h
    exact ⟨rfl, rfl, rfl, rfl⟩
  | lockBond t user r m x e => cases hop
  | releaseBond t user r x e => cases hop
  | slashBond t user r x e recipient => cases hop
  | collectFee m lp protocol cod =>
    obtain ⟨v, rfl, _, hframe, _, hread⟩ := collectFee_flow (g := bondGauge p d) hw h
    refine .of_frame hframe ?_
    rw [hread]
    simp only [bondGauge, zero_mul, sub_zero, add_zero]
  | claimLpFees t m lp x =>
    obtain ⟨v, b, rfl, _, hframe, _, _, hread, _⟩ := claimLpFees_flow (g := bondGauge p d) hw h
    refine .of_frame hframe ?_
    rw [hread]
    simp only [bondGauge, zero_mul, sub_zero]
  | sweepProtocolFees t m =>
    obtain ⟨y, h⟩ := world_ok.mp h
    obtain ⟨v, b, cut, rfl, _, hframe, _, _, _, hread, _⟩ :=
      sweepProtocolFees_flow (g := bondGauge p d) hw h
    refine .of_frame hframe ?_
    rw [hread]
    simp only [bondGauge, zero_mul, sub_zero, add_zero]

/-- Every other invocation leaves the bonds alone. -/
theorem VaultOp.exec_sameBonds {ctx : Ctx} (hctx : Outside .vault ctx) {w w' : World}
    (hw : Sane w.vault) {op : VaultOp} (hop : op.movesBond = false) (h : op.exec ctx w = .ok w') :
    SameBonds w.vault w'.vault := by
  have heach := fun p d => op.exec_sameBond p d hctx hw hop h
  exact ⟨(heach 0 true).bond, (heach 0 true).bondToken, (heach 0 true).bondMarket,
    fun p d => (heach p d).booked⟩

/-- A bond: its request, its user, and whether it backs a dispute. -/
abbrev BondKey := ℕ × Address × Bool

/-- One move of a bond. -/
inductive BondMove where
  /-- The amount is locked in the bond. -/
  | lock (key : BondKey) (amount : ℤ)
  /-- The amount is paid out of the bond. -/
  | pay (key : BondKey) (amount : ℤ)

/-- What these moves lock in a bond. -/
def lockedIn (key : BondKey) : List BondMove → ℤ
  | [] => 0
  | .lock k x :: moves => (if k = key then x else 0) + lockedIn key moves
  | .pay _ _ :: moves => lockedIn key moves

/-- What these moves pay out of a bond. -/
def paidFrom (key : BondKey) : List BondMove → ℤ
  | [] => 0
  | .lock _ _ :: moves => paidFrom key moves
  | .pay k x :: moves => (if k = key then x else 0) + paidFrom key moves

/-- Moves after moves lock what both lock. -/
theorem lockedIn_append (key : BondKey) (moves moves' : List BondMove) :
    lockedIn key (moves ++ moves') = lockedIn key moves + lockedIn key moves' := by
  induction moves with
  | nil => exact (zero_add _).symm
  | cons move moves ih =>
    cases move <;> simp only [List.cons_append, lockedIn, ih, add_assoc]

/-- Moves after moves pay what both pay. -/
theorem paidFrom_append (key : BondKey) (moves moves' : List BondMove) :
    paidFrom key (moves ++ moves') = paidFrom key moves + paidFrom key moves' := by
  induction moves with
  | nil => exact (zero_add _).symm
  | cons move moves ih =>
    cases move <;> simp only [List.cons_append, paidFrom, ih, add_assoc]

/-- These moves of bonds, each made by the vault, and nothing else done to them. -/
inductive BondRun : World → List BondMove → World → Prop where
  /-- Nothing more happens. -/
  | done (w : World) : BondRun w [] w
  /-- Something else happens. -/
  | still {w w1 w' : World} {moves : List BondMove} (h : SameBonds w.vault w1.vault)
      (hsane : Sane w.vault → Sane w1.vault) (rest : BondRun w1 moves w') : BondRun w moves w'
  /-- A bond is locked. -/
  | lock {ctx : Ctx} {w w1 w' : World} {moves : List BondMove} {token : Asset} {user : Address}
      {r : ℕ} {m : MarketId} {x : ℤ} {d : Bool}
      (h : lockBond ctx w token user r m x d = .ok w1) (rest : BondRun w1 moves w') :
      BondRun w (.lock (r, user, d) x :: moves) w'
  /-- A part of a bond is paid out. -/
  | pay {ctx : Ctx} {w w1 w' : World} {moves : List BondMove} {token : Asset}
      {user recipient : Address} {r : ℕ} {x : ℤ} {d : Bool}
      (h : payBond ctx w token user r x d recipient = .ok w1) (rest : BondRun w1 moves w') :
      BondRun w (.pay (r, user, d) x :: moves) w'

namespace BondRun

variable {w w1 w' : World} {moves moves' : List BondMove}

/-- One run after another. -/
theorem append (h : BondRun w moves w1) (h' : BondRun w1 moves' w') :
    BondRun w (moves ++ moves') w' := by
  induction h with
  | done w => exact h'
  | still hsame hsane _ ih => exact .still hsame hsane (ih h')
  | lock hlock _ ih => exact .lock hlock (ih h')
  | pay hpay _ ih => exact .pay hpay (ih h')

/-- Bonds stay booked. -/
theorem booked (h : BondRun w moves w') (hw : BondsBooked w.vault) : BondsBooked w'.vault := by
  induction h with
  | done w => exact hw
  | still hsame _ _ ih => exact ih (hw.same hsame.bond hsame.bondMarket hsame.booked)
  | lock hlock _ ih =>
    obtain ⟨hx, hfresh, b, _, _, rfl⟩ := lockBond_ok hlock
    exact ih (hw.lock hx hfresh)
  | pay hpay _ ih =>
    obtain ⟨_, _, m, left, b, hheld, hle, _, _, _, rfl⟩ := payBond_ok.mp hpay
    exact ih (hw.take hheld hle)

/-- Moved bonds keep the books of a market sane. -/
theorem movedBond_sane {a : VaultAccounting} (ha : SaneAccounting a) (d : Bool) (x : ℤ) :
    SaneAccounting (movedBond a d x) := by
  unfold movedBond
  split <;> exact { ha with }

/-- The vault stays sane. -/
theorem sane (h : BondRun w moves w') (hw : Sane w.vault) : Sane w'.vault := by
  induction h with
  | done w => exact hw
  | still _ hsane _ ih => exact ih (hsane hw)
  | lock hlock _ ih =>
    obtain ⟨_, _, b, _, _, rfl⟩ := lockBond_ok hlock
    exact ih { hw.withAccounting (movedBond_sane (hw.accounting _) _ _) with }
  | pay hpay _ ih =>
    obtain ⟨_, _, m, left, b, _, _, _, _, _, rfl⟩ := payBond_ok.mp hpay
    exact ih { hw.withAccounting (movedBond_sane (hw.accounting _) _ _) with }

/-- Nothing negative is paid out. -/
theorem paidFrom_nonneg (h : BondRun w moves w') (key : BondKey) : 0 ≤ paidFrom key moves := by
  induction h with
  | done w => exact le_rfl
  | still _ _ _ ih => exact ih
  | lock _ _ ih => exact ih
  | pay hpay _ ih =>
    have hx := (payBond_ok.mp hpay).2.1
    unfold paidFrom
    split <;> omega

/-- A locked bond keeps what is not paid out of it. -/
theorem left (h : BondRun w moves w') {key : BondKey} {left : ℤ}
    (hleft : w.vault.bond key = some left) :
    w'.vault.bond key = some (left - paidFrom key moves) := by
  induction h generalizing left with
  | done w => rw [hleft, paidFrom, sub_zero]
  | still hsame _ _ ih => exact ih (by rw [hsame.bond]; exact hleft)
  | @lock ctx w w1 w' moves token user r m x d hlock _ ih =>
    obtain ⟨hx, hfresh, b, _, _, rfl⟩ := lockBond_ok hlock
    have hne : key ≠ (r, user, d) := by
      rintro rfl
      rw [hfresh] at hleft
      cases hleft
    refine ih ?_
    dsimp only
    rw [Store.set_get_of_ne _ _ hne]
    exact hleft
  | @pay ctx w w1 w' moves token user recipient r x d hpay _ ih =>
    obtain ⟨_, _, m, rest, b, hheld, _, _, _, _, rfl⟩ := payBond_ok.mp hpay
    unfold paidFrom
    by_cases hkey : (r, user, d) = key
    · subst hkey
      have hrest : rest = left := Option.some.inj (hheld.left.symm.trans hleft)
      rw [if_pos rfl, ← sub_sub]
      refine ih ?_
      unfold withoutBond
      dsimp only
      rw [Store.set_get_self, hrest]
    · rw [if_neg hkey, zero_add]
      refine ih ?_
      unfold withoutBond
      dsimp only
      rw [Store.set_get_of_ne _ _ (Ne.symm hkey)]
      exact hleft

/-- A locked bond keeps its token, its market and what is not paid out of it. -/
theorem held (h : BondRun w moves w') {key : BondKey} {token : Asset} {m : MarketId} {left : ℤ}
    (hheld : Held w.vault key token m left) :
    Held w'.vault key token m (left - paidFrom key moves) := by
  induction h generalizing left with
  | done w =>
    rw [paidFrom, sub_zero]
    exact hheld
  | still hsame _ _ ih =>
    refine ih ⟨?_, ?_, ?_⟩
    · rw [hsame.bondToken]
      exact hheld.token
    · rw [hsame.bondMarket]
      exact hheld.market
    · rw [hsame.bond]
      exact hheld.left
  | @lock ctx w w1 w' moves t user r p x d hlock _ ih =>
    obtain ⟨hx, hfresh, b, _, _, rfl⟩ := lockBond_ok hlock
    have hne : key ≠ (r, user, d) := by
      rintro rfl
      rw [hheld.left] at hfresh
      cases hfresh
    refine ih ⟨?_, ?_, ?_⟩
    · dsimp only
      rw [Store.set_get_of_ne _ _ hne]
      exact hheld.token
    · dsimp only
      rw [Store.set_get_of_ne _ _ hne]
      exact hheld.market
    · dsimp only
      rw [Store.set_get_of_ne _ _ hne]
      exact hheld.left
  | @pay ctx w w1 w' moves t user recipient r x d hpay _ ih =>
    obtain ⟨_, _, p, rest, b, hrest, _, _, _, _, rfl⟩ := payBond_ok.mp hpay
    unfold paidFrom
    by_cases hkey : (r, user, d) = key
    · subst hkey
      have heq : rest = left := Option.some.inj (hrest.left.symm.trans hheld.left)
      rw [if_pos rfl, ← sub_sub]
      refine ih ⟨hheld.token, hheld.market, ?_⟩
      unfold withoutBond
      dsimp only
      rw [Store.set_get_self, heq]
    · rw [if_neg hkey, zero_add]
      refine ih ⟨hheld.token, hheld.market, ?_⟩
      unfold withoutBond
      dsimp only
      rw [Store.set_get_of_ne _ _ (Ne.symm hkey)]
      exact hheld.left

/-- The booked sums stay within their width. -/
theorem fits (h : BondRun w moves w')
    (hw : ∀ m d, bondTotal (w.vault.accounting m) d ≤ i128Max) :
    ∀ m d, bondTotal (w'.vault.accounting m) d ≤ i128Max := by
  induction h with
  | done w => exact hw
  | still hsame _ _ ih =>
    refine ih (fun m d => ?_)
    rw [hsame.booked]
    exact hw m d
  | @lock ctx w w1 w' moves t user r p x d hlock _ ih =>
    obtain ⟨_, _, b, _, hrange, rfl⟩ := lockBond_ok hlock
    refine ih (fun m e => ?_)
    have hold := hw m e
    dsimp only
    rw [Store.set_get]
    split
    · next heq =>
      subst heq
      rw [bondTotal_movedBond]
      split
      · next hd =>
        rw [hd]
        exact hrange.2
      · omega
    · exact hold
  | @pay ctx w w1 w' moves t user recipient r x d hpay _ ih =>
    obtain ⟨_, hx, p, rest, b, _, _, _, _, _, rfl⟩ := payBond_ok.mp hpay
    refine ih (fun m e => ?_)
    have hold := hw m e
    unfold withoutBond
    dsimp only
    rw [Store.set_get]
    split
    · next heq =>
      subst heq
      rw [bondTotal_movedBond]
      split <;> omega
    · exact hold

/-- What is left of a bond moves by what is locked and paid. -/
theorem balance (h : BondRun w moves w') (key : BondKey) :
    (w'.vault.bond key).getD 0 + paidFrom key moves =
      (w.vault.bond key).getD 0 + lockedIn key moves := by
  induction h with
  | done w => rfl
  | still hsame _ _ ih =>
    rw [hsame.bond] at ih
    exact ih
  | @lock ctx w w1 w' moves token user r m x d hlock _ ih =>
    obtain ⟨hx, hfresh, b, _, _, rfl⟩ := lockBond_ok hlock
    dsimp only at ih
    rw [Store.set_get] at ih
    unfold paidFrom lockedIn
    by_cases hkey : (r, user, d) = key
    · subst hkey
      rw [if_pos rfl, Option.getD_some] at ih
      rw [if_pos rfl, hfresh, Option.getD_none, zero_add]
      exact ih
    · rw [if_neg (Ne.symm hkey)] at ih
      rw [if_neg hkey, zero_add]
      exact ih
  | @pay ctx w w1 w' moves token user recipient r x d hpay _ ih =>
    obtain ⟨_, _, m, rest, b, hheld, _, _, _, _, rfl⟩ := payBond_ok.mp hpay
    unfold withoutBond at ih
    dsimp only at ih
    rw [Store.set_get] at ih
    unfold paidFrom lockedIn
    by_cases hkey : (r, user, d) = key
    · subst hkey
      rw [if_pos rfl, Option.getD_some] at ih
      rw [if_pos rfl, hheld.left, Option.getD_some]
      omega
    · rw [if_neg (Ne.symm hkey)] at ih
      rw [if_neg hkey, zero_add]
      exact ih

end BondRun

end DikeProtocol.Vault
