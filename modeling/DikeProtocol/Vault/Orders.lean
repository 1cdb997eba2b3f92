import Mathlib.Data.List.Permutation
import DikeProtocol.Vault.Pools

/-!
# Redemptions in any order

The users of a resolved market redeem one after another. Each redemption meets
the pool of its market and its own debts only, and leaves the debts of other
users alone. So the payouts are those of the pool, and they do not depend on the
order exactly while no set of redemptions moves the pool under another one. A
loser's default does, and so does running out of backing that is still lent.
-/

namespace DikeProtocol.Vault

open Lib

/-- An order of the images of a list is the image of an order of the list. -/
theorem exists_perm_of_map {α β : Type} {f : α → β} {l : List β} {k : List α}
    (h : l.Perm (k.map f)) : ∃ order : List α, order.Perm k ∧ order.map f = l := by
  have hpairs : List.Forall₂ (fun y x => y = f x) (k.map f) k :=
    List.forall₂_map_left_iff.mpr (List.forall₂_same.mpr fun _ _ => rfl)
  obtain ⟨order, hsame, hperm⟩ := List.perm_comp_forall₂ h hpairs
  have heq : List.Forall₂ Eq l (order.map f) := List.forall₂_map_right_iff.mpr hsame
  rw [List.forall₂_eq_eq_eq] at heq
  exact ⟨order, hperm, heq.symm⟩

/-- A list whose entries are what a function says of another one. -/
theorem eq_map_of_zip {α β : Type} {f : α → β} {l : List α} {ys : List β}
    (hlen : ys.length = l.length) (h : ∀ x y, (x, y) ∈ l.zip ys → y = f x) : ys = l.map f :=
  calc
    ys = (l.zip ys).map Prod.snd := (List.map_snd_zip hlen.le).symm
    _ = (l.zip ys).map (fun pair => f pair.1) := List.map_congr_left fun pair hp => h _ _ hp
    _ = ((l.zip ys).map Prod.fst).map f := (List.map_map ..).symm
    _ = l.map f := by rw [List.map_fst_zip hlen.ge]

/-- Two vaults in which a user owes the same. -/
structure SameOwed (u : Address) (v v' : VaultState) : Prop where
  childDebt : ∀ c, v'.childDebt (c, u) = v.childDebt (c, u)
  parentDebt : ∀ p o, v'.parentDebt (p, u, o) = v.parentDebt (p, u, o)

namespace SameOwed

variable {v v' v'' : VaultState} {u user : Address} {m p : MarketId} {o : Outcome} {x : ℤ}

/-- Doing nothing changes no debt. -/
theorem refl (u : Address) (v : VaultState) : SameOwed u v v := ⟨fun _ => rfl, fun _ _ => rfl⟩

/-- One function after another changes no debt when neither does. -/
theorem trans (h : SameOwed u v v') (h' : SameOwed u v' v'') : SameOwed u v v'' :=
  ⟨fun c => (h'.childDebt c).trans (h.childDebt c),
    fun p o => (h'.parentDebt p o).trans (h.parentDebt p o)⟩

/-- A record under another user's name. -/
theorem apart {K L : Type} (hne : u ≠ user) {k l : K} {i j : L} : (k, u, i) ≠ (l, user, j) :=
  fun hk => hne (Prod.mk.inj (Prod.mk.inj hk).2).1

/-- A settlement is about one user's debts. -/
theorem settleChildDebt (hne : u ≠ user) {r : ℤ}
    (h : settleChildDebt v m user r = .ok (x, v')) :
    SameOwed u v v' := by
  have hchild : ∀ c y, v.childDebt.set (m, user) y (c, u) = v.childDebt (c, u) :=
    fun c y => Store.set_get_of_ne _ _ (fun hk => hne (Prod.mk.inj hk).2)
  obtain ⟨_, rfl, _⟩ | ⟨_, rfl, _, _⟩ | ⟨_, _, _, rfl⟩ | ⟨_, _, _, _, rfl⟩ :=
    settleChildDebt_cases h
  · exact refl u _
  · exact ⟨fun c => hchild c 0, fun _ _ => rfl⟩
  · exact ⟨fun c => hchild c _, fun _ _ => rfl⟩
  · exact ⟨fun c => hchild c _, fun _ _ => Store.set_get_of_ne _ _ (apart hne)⟩

/-- Clearing the child debts of a stake is about its owner. -/
theorem clearChildDebts (children : List MarketId) (hne : u ≠ user)
    (h : clearChildDebts v p user o x children = .ok v') : SameOwed u v v' := by
  induction children generalizing v x with
  | nil =>
    rw [← ok_ok.mp h]
    exact refl u _
  | cons child children ih =>
    unfold Vault.clearChildDebts at h
    dsimp only at h
    split at h
    · rw [← ok_ok.mp h]
      exact refl u _
    · split at h
      · exact ih h
      · obtain ⟨left, _, h⟩ := bind_ok.mp h
        obtain ⟨v1, h1, h⟩ := bind_ok.mp h
        obtain ⟨rest, _, h⟩ := bind_ok.mp h
        have hfirst : SameOwed u v v1 := by
          rw [releaseChildUsed_ok h1]
          exact ⟨fun c => Store.set_get_of_ne _ _ (fun hk => hne (Prod.mk.inj hk).2),
            fun _ _ => rfl⟩
        exact hfirst.trans (ih h)

/-- A default is about the owner of the stake. -/
theorem resolveParentDefault (hne : u ≠ user)
    (h : resolveParentDefault v p user o x = .ok v') : SameOwed u v v' := by
  unfold Vault.resolveParentDefault at h
  split at h
  · rw [← ok_ok.mp h]
    exact refl u _
  · obtain ⟨_, _, h⟩ := bind_ok.mp h
    obtain ⟨_, _, h⟩ := bind_ok.mp h
    obtain ⟨_, _, h⟩ := bind_ok.mp h
    obtain ⟨_, _, h⟩ := bind_ok.mp h
    have hcleared := clearChildDebts _ hne h
    refine ⟨hcleared.childDebt, fun q i => (hcleared.parentDebt q i).trans ?_⟩
    exact Store.set_get_of_ne _ _ (apart hne)

/-- Withholding from a claim is about its owner. -/
theorem withholdParentDebt (hne : u ≠ user) {g claim : ℤ} (hclaim : 0 ≤ claim)
    (hg : g = 0 → claim = 0) (h : withholdParentDebt v m user o g claim = .ok (x, v')) :
    SameOwed u v v' := by
  have hparent : ∀ y, SameOwed u v
      { v with parentDebt := v.parentDebt.set (m, user, o) y } :=
    fun y => ⟨fun _ => rfl, fun _ _ => Store.set_get_of_ne _ _ (apart hne)⟩
  obtain ⟨_, _, rfl⟩ | ⟨_, _, _, _, rfl⟩ | ⟨_, _, _, _, rfl⟩ | ⟨_, _, _, hd⟩ :=
    withholdParentDebt_cases h hclaim hg
  · exact refl u _
  · have hsame := hparent (v.parentDebt (m, user, o) - x)
    exact ⟨hsame.childDebt, hsame.parentDebt⟩
  · exact hparent _
  · exact (hparent _).trans (resolveParentDefault hne hd)

/-- The upstream share of a claim is about its owner. -/
theorem repayUpstream (hne : u ≠ user) {claim : ℤ}
    (h : repayUpstream v m user claim = .ok (x, v')) : SameOwed u v v' := by
  obtain ⟨v1, h1, rfl⟩ := repayUpstream_steps h
  have hsame := settleChildDebt hne h1
  split
  · exact ⟨hsame.childDebt, hsame.parentDebt⟩
  · exact hsame

/-- The settlement of a resolved redemption is about its owner. -/
theorem settleResolved (hv : Sane v) (hne : u ≠ user) {final : Outcome} {amount gross payout : ℤ}
    (hpos : 0 < amount) (h : settleResolved v m user final o amount = .ok (gross, payout, v')) :
    SameOwed u v v' := by
  obtain ⟨v1, v2, paid, v3, withheld, h1, h2, h3, h4, _⟩ := settleResolved_steps h
  obtain ⟨_, hgross, hv1⟩ := grossPayout_eq hv hpos h1
  have hcounted := addRedeemed_ok h2
  have hstart : SameOwed u v v2 := by
    rw [hcounted, hv1]
    exact ⟨fun _ => rfl, fun _ _ => rfl⟩
  have hpaid := repayUpstream_le h3 hgross
  have hnothing : gross = 0 → gross - paid = 0 := by
    intro hzero
    have hidle := (repayUpstream_idle h3 (Or.inr (by omega))).1
    omega
  exact hstart.trans ((repayUpstream hne h3).trans
    (withholdParentDebt hne (by omega) hnothing h4))

end SameOwed

/-- The pool of a market. -/
def poolOf (v : VaultState) (m : MarketId) : Pool where
  backing := (v.accounting m).collateralBacking
  shortfall := (v.accounting m).shortfall
  redeemed := (v.accounting m).redeemed
  reserve := v.insuranceReserve

/-- One redemption of a user. -/
structure Redemption where
  user : Address
  outcome : Outcome
  amount : ℤ
deriving DecidableEq

/-- What a redemption brings to its market. -/
def claimFor (v : VaultState) (m : MarketId) (final : Outcome) (r : Redemption) : Claim where
  gross := redemptionValue v m final r.outcome r.amount
  upstream := effectiveDebt v m r.user
  owed := v.parentDebt (m, r.user, r.outcome)

section Settlement

variable {v v' : VaultState} {m : MarketId} {u : Address} {final o : Outcome} {g claim x y : ℤ}

/-- The pool of a sane vault is valid. -/
theorem Sane.pool_valid (hv : Sane v) (m : MarketId) : (poolOf v m).Valid where
  shortfall_nonneg := (hv.accounting m).shortfall_nonneg
  reserve_nonneg := hv.reserve_nonneg

/-- A redemption of a positive amount brings a valid claim. -/
theorem Sane.claim_valid (hv : Sane v) (m : MarketId) (final : Outcome) {r : Redemption}
    (hpos : 0 < r.amount) : (claimFor v m final r).Valid where
  gross_nonneg := redemptionValue_nonneg (hv.carry m).1 hpos final r.outcome
  upstream_nonneg := hv.effectiveDebt_nonneg m r.user
  owed_nonneg := hv.parentDebt_nonneg (m, r.user, r.outcome)

/-- Nothing but a default draws on the reserve. -/
theorem withholdParentDebt_reserve (hclaim : 0 ≤ claim) (hg : g = 0 → claim = 0)
    (hworth : ¬(g = 0 ∧ 0 < v.parentDebt (m, u, o)))
    (h : withholdParentDebt v m u o g claim = .ok (x, v')) :
    v'.insuranceReserve = v.insuranceReserve := by
  obtain ⟨_, _, rfl⟩ | ⟨_, _, _, _, rfl⟩ | ⟨_, _, _, _, rfl⟩ | ⟨hpos, hzero, _, _⟩ :=
    withholdParentDebt_cases h hclaim hg
  · rfl
  · rfl
  · rfl
  · exact absurd ⟨hzero, hpos⟩ hworth

/-- A default draws on the reserve for the books of its market. -/
theorem withholdParentDebt_drawn (hr : 0 ≤ v.insuranceReserve) (howed : 0 < v.parentDebt (m, u, o))
    (h : withholdParentDebt v m u o 0 0 = .ok (x, v')) :
    v'.accounting m = defaultedBy (v.accounting m) (v.parentDebt (m, u, o))
        (min (v.parentDebt (m, u, o)) v.insuranceReserve) ∧
      v'.insuranceReserve =
        v.insuranceReserve - min (v.parentDebt (m, u, o)) v.insuranceReserve := by
  obtain ⟨hnone, _, _⟩ | ⟨_, _, _, hzero, _⟩ | ⟨_, _, _, hzero, _⟩ | ⟨hpos, _, _, hdefault⟩ :=
    withholdParentDebt_cases h le_rfl (fun _ => rfl)
  · omega
  · exact absurd rfl hzero
  · exact absurd rfl hzero
  · obtain ⟨_, _, _, rfl, _⟩ := resolveParentDefault_ok hpos (by exact hr) hdefault
    exact ⟨Store.set_get_self _ _ _, rfl⟩

/-- A repayment upstream leaves the reserve alone. -/
theorem repayUpstream_reserve (h : repayUpstream v m u claim = .ok (x, v')) :
    v'.insuranceReserve = v.insuranceReserve := by
  obtain ⟨v1, h1, rfl⟩ := repayUpstream_steps h
  have hkept := Sane.settleChildDebt_reserve h1
  split
  · exact hkept
  · exact hkept

/-- A repayment upstream leaves the debt on a market's own stakes alone. -/
theorem repayUpstream_owed (hself : NoSelfParent v) (h : repayUpstream v m u claim = .ok (x, v')) :
    v'.parentDebt (m, u, o) = v.parentDebt (m, u, o) := by
  obtain ⟨v1, h1, rfl⟩ := repayUpstream_steps h
  have hkept := (settleChildDebt_keeps (o := o) hself h1).2.1
  split
  · exact hkept
  · exact hkept

/-- A redemption worth nothing offers nothing to the debt on its stake. -/
theorem repayUpstream_nothing (h : repayUpstream v m u g = .ok (x, v')) (hg : g = 0) :
    g - x = 0 := by
  have hidle := (repayUpstream_idle h (Or.inr hg.le)).1
  omega

variable {r : Redemption}

/-- A worthless redemption is paid nothing, and its debt is all it moves. -/
theorem after_of_worthless (hv : Sane v) (hgross : (claimFor v m final r).gross = 0) :
    (poolOf v m).pays (claimFor v m final r) = 0 ∧
      (poolOf v m).after (claimFor v m final r) =
        { poolOf v m with
          backing := (v.accounting m).collateralBacking +
            min (v.parentDebt (m, r.user, r.outcome)) v.insuranceReserve
          shortfall := (v.accounting m).shortfall + (v.parentDebt (m, r.user, r.outcome) -
            min (v.parentDebt (m, r.user, r.outcome)) v.insuranceReserve)
          reserve := v.insuranceReserve -
            min (v.parentDebt (m, r.user, r.outcome)) v.insuranceReserve } := by
  have he := hv.effectiveDebt_nonneg m r.user
  have hd := hv.parentDebt_nonneg (m, r.user, r.outcome)
  have hlost : (claimFor v m final r).lost = v.parentDebt (m, r.user, r.outcome) := if_pos hgross
  have hrepaid : (claimFor v m final r).repaid = 0 := by
    unfold Claim.repaid
    rw [hgross]
    exact min_eq_left he
  have hwithheld : (claimFor v m final r).withheld = 0 := by
    unfold Claim.withheld
    rw [hrepaid, hgross, sub_zero]
    exact min_eq_right hd
  have hpays : (poolOf v m).pays (claimFor v m final r) = 0 := by
    apply Pool.pays_of_net
    unfold Claim.net
    rw [hrepaid, hwithheld, hgross, sub_zero, sub_zero]
  refine ⟨hpays, ?_⟩
  unfold Pool.after
  rw [hpays, hlost, hrepaid, hwithheld, sub_zero, add_zero, add_zero]
  rfl

/-- A redemption that defaults nothing moves backing and payouts of its market. -/
theorem after_of_worth (hv : Sane v) (hkept : (claimFor v m final r).lost = 0) :
    (poolOf v m).after (claimFor v m final r) =
      { poolOf v m with
        backing := (v.accounting m).collateralBacking - (claimFor v m final r).repaid +
          (claimFor v m final r).withheld
        redeemed := (v.accounting m).redeemed + (poolOf v m).pays (claimFor v m final r) } := by
  have hdraw : min (0 : ℤ) (poolOf v m).reserve = 0 := min_eq_left hv.reserve_nonneg
  unfold Pool.after
  rw [hkept, hdraw, add_zero, sub_zero, add_zero, sub_zero]
  rfl

/-- The settlement of a redemption moves the pool of its market as its claim
says, but for the payout still to be made. -/
theorem settleResolved_pool (hv : Sane v) (hself : NoSelfParent v) (hpos : 0 < r.amount)
    (h : settleResolved v m r.user final r.outcome r.amount = .ok (g, y, v')) :
    y = (poolOf v m).pays (claimFor v m final r) ∧
      (poolOf v m).after (claimFor v m final r) =
        { poolOf v' m with redeemed := (v'.accounting m).redeemed + y } := by
  obtain ⟨hgross, hg0, _, hpaid, hlost⟩ := settleResolved_for hv hself hpos h
  obtain ⟨v1, v2, paid, v3, withheld, h1, h2, h3, h4, _⟩ := settleResolved_steps h
  have hcounted := addRedeemed_ok h2
  rw [(grossPayout_eq hv hpos h1).2.2] at hcounted
  have hself2 : NoSelfParent v2 := by
    rw [hcounted]
    exact hself
  have hbooks2 : v2.accounting m = v.accounting m := by rw [hcounted]
  have hreserve2 : v2.insuranceReserve = v.insuranceReserve := by rw [hcounted]
  have howed3 : v3.parentDebt (m, r.user, r.outcome) = v.parentDebt (m, r.user, r.outcome) := by
    rw [repayUpstream_owed hself2 h3, hcounted]
  have hreserve3 := (repayUpstream_reserve h3).trans hreserve2
  have hle := repayUpstream_le h3 hg0
  by_cases hworth : g = 0 ∧ 0 < v.parentDebt (m, r.user, r.outcome)
  · -- the stake is defaulted out of the reserve
    obtain ⟨hzero, howed⟩ := hworth
    obtain ⟨hy, _, _⟩ := hlost hzero howed
    have hworthless : (claimFor v m final r).gross = 0 := hgross.symm.trans hzero
    obtain ⟨hpays, hafter⟩ := after_of_worthless hv hworthless
    obtain ⟨_, hsame3⟩ := repayUpstream_idle h3 (Or.inr hzero.le)
    rw [repayUpstream_nothing h3 hzero, hzero] at h4
    obtain ⟨hbooks, hreserve⟩ := withholdParentDebt_drawn
      (by rw [hreserve3]; exact hv.reserve_nonneg) (by rw [howed3]; exact howed) h4
    rw [howed3, hreserve3] at hreserve
    rw [howed3, hreserve3, hsame3, hbooks2] at hbooks
    refine ⟨hy.trans hpays.symm, ?_⟩
    rw [hafter]
    unfold poolOf
    rw [hbooks, hreserve, hy, add_zero]
    rfl
  · -- nothing is defaulted, and the ticket says the rest
    obtain ⟨hy, hticket, _⟩ := hpaid hworth
    have hkept : (claimFor v m final r).lost = 0 := by
      have hd := hv.parentDebt_nonneg (m, r.user, r.outcome)
      have hgross' : (claimFor v m final r).gross = g := hgross.symm
      unfold Claim.lost
      rw [hgross']
      split
      · next hzero => exact le_antisymm (not_lt.mp fun hk => hworth ⟨hzero, hk⟩) hd
      · rfl
    have hreserve := withholdParentDebt_reserve (by omega) (repayUpstream_nothing h3)
      (by rw [howed3]; exact hworth) h4
    have hbacking : (v'.accounting m).collateralBacking = _ := congrArg Ticket.backing hticket
    have hshortfall : (v'.accounting m).shortfall = _ := congrArg Ticket.shortfall hticket
    have hredeemed : (v'.accounting m).redeemed = _ := congrArg Ticket.redeemed hticket
    rw [hgross] at hy hbacking
    have hpays : y = (poolOf v m).pays (claimFor v m final r) := hy
    refine ⟨hpays, ?_⟩
    rw [after_of_worth hv hkept, ← hpays]
    unfold poolOf
    rw [hbacking, hshortfall, hredeemed, hreserve, hreserve3]
    rfl

end Settlement

section Redemption

variable {ctx : Ctx} {w w' : World} {token : Asset} {m : MarketId} {r s : Redemption}
  {final : Outcome} {y : ℤ}

/-- The market is resolved to Yes or to No. -/
def ResolvedTo (w : World) (m : MarketId) (final : Outcome) : Prop :=
  (final = .yes ∨ final = .no) ∧
    ∃ market, w.registry.market m = some market ∧ market.status = .resolved ∧
      market.finalOutcome = final

/-- A redemption moves the pool of its market as its claim says, is paid what
the pool pays, and leaves the debts of other users alone. -/
theorem redeemResolved_pool (hv : Sane w.vault) (hself : NoSelfParent w.vault)
    (hres : ResolvedTo w m final)
    (h : redeemResolved ctx w token r.user m r.outcome r.amount = .ok (y, w')) :
    0 < r.amount ∧ w'.registry = w.registry ∧ SameLinks w.vault w'.vault ∧
      y = (poolOf w.vault m).pays (claimFor w.vault m final r) ∧
      poolOf w'.vault m = (poolOf w.vault m).after (claimFor w.vault m final r) ∧
      ∀ u, u ≠ r.user → SameOwed u w.vault w'.vault := by
  obtain ⟨_, found, hfound, _, rfl⟩ := hres
  obtain ⟨hpos, market, gross, v1, t, v2, _, hmarket, _, _, hsettle, _, hretire, hpay⟩ :=
    redeemResolved_steps h
  rw [hfound] at hmarket
  obtain rfl := Option.some.inj hmarket
  obtain ⟨hy, hafter⟩ := settleResolved_pool hv hself hpos hsettle
  have hlinks := SameLinks.settleResolved hv hpos hsettle
  have hsame := fun u (hu : u ≠ r.user) => SameOwed.settleResolved hv hu hpos hsettle
  obtain ⟨_, _, rfl⟩ := retireClaim_ok hretire
  obtain ⟨_, rfl⟩ := payRedemption_ok hpay
  refine ⟨hpos, rfl, ⟨hlinks.childParent, hlinks.childParentOutcome, hlinks.childMarketsOf⟩, hy, ?_,
    fun u hu => ⟨(hsame u hu).childDebt, (hsame u hu).parentDebt⟩⟩
  have hnonneg : 0 ≤ y := by
    rw [hy]
    exact Ticket.capped_nonneg (hv.pool_valid m).shortfall_nonneg
  rw [hafter]
  unfold poolOf
  dsimp only
  split
  · rw [Store.set_get_self]
    rfl
  · have hzero : y = 0 := by omega
    rw [hzero, add_zero]

/-- A redemption keeps the vault sane and without self-parents. -/
theorem redeemResolved_keeps (hv : Sane w.vault) (hself : NoSelfParent w.vault)
    (h : redeemResolved ctx w token r.user m r.outcome r.amount = .ok (y, w')) :
    Sane w'.vault ∧ NoSelfParent w'.vault := by
  have hexec : (VaultOp.redeemResolved token r.user m r.outcome r.amount).exec ctx w = .ok w' :=
    world_ok.mpr ⟨y, h⟩
  refine ⟨?_, hself.exec hv hexec⟩
  obtain ⟨_, _, _, _, _, _, _, _, _, rfl, hsane, _⟩ :=
    redeemResolved_flow (nullGauge_even.at _ _ _) (nullGauge_even _) hv h
  exact hsane

/-- At full value, what another user brings is not changed by a redemption. -/
theorem claimFor_same {v v' : VaultState} (hfinal : final = .yes ∨ final = .no)
    (hlinks : SameLinks v v') (hsame : SameOwed s.user v v') :
    claimFor v' m final s = claimFor v m final s := by
  have hvalue : redemptionValue v' m final s.outcome s.amount =
      redemptionValue v m final s.outcome s.amount := by
    rcases hfinal with rfl | rfl
    · rfl
    · rfl
  have howes : effectiveDebt v' m s.user = effectiveDebt v m s.user :=
    effectiveDebt_congr (hsame.childDebt m) hlinks.childParent hlinks.childParentOutcome
      (fun _ => hsame.parentDebt _ _)
  unfold claimFor
  rw [hvalue, howes, hsame.parentDebt]

/-- Redemptions one after another, each in its own environment: what each pays. -/
def redeemAll (token : Asset) (m : MarketId) (w : World) :
    List (Ctx × Redemption) → Res (List (Redemption × ℤ) × World)
  | [] => .ok ([], w)
  | (ctx, r) :: calls => do
    let (y, w) ← redeemResolved ctx w token r.user m r.outcome r.amount
    let (paid, w) ← redeemAll token m w calls
    return ((r, y) :: paid, w)

/-- Redemptions of different users are all valid, and paid what their pool pays. -/
theorem redeemAll_payouts (calls : List (Ctx × Redemption)) {paid : List (Redemption × ℤ)}
    (hv : Sane w.vault) (hself : NoSelfParent w.vault) (hres : ResolvedTo w m final)
    (honce : (calls.map (fun call => call.2.user)).Nodup)
    (h : redeemAll token m w calls = .ok (paid, w')) :
    (∀ call ∈ calls, (claimFor w.vault m final call.2).Valid) ∧
      paid = (calls.map Prod.snd).zip ((poolOf w.vault m).payouts
        (calls.map (fun call => claimFor w.vault m final call.2))) := by
  induction calls generalizing w paid with
  | nil =>
    obtain ⟨rfl, _⟩ := Prod.mk.inj (ok_ok.mp h)
    exact ⟨fun call hc => (List.not_mem_nil hc).elim, rfl⟩
  | cons call calls ih =>
    obtain ⟨ctx, r⟩ := call
    obtain ⟨⟨y, w1⟩, h1, h⟩ := bind_ok.mp h
    obtain ⟨⟨rest, w2⟩, h2, h⟩ := bind_ok.mp h
    obtain ⟨rfl, rfl⟩ := Prod.mk.inj (pure_ok.mp h)
    obtain ⟨hpos, hregistry, hlinks, hy, hafter, hsame⟩ := redeemResolved_pool hv hself hres h1
    obtain ⟨hv1, hself1⟩ := redeemResolved_keeps hv hself h1
    have hres1 : ResolvedTo w1 m final := by
      unfold ResolvedTo
      rw [hregistry]
      exact hres
    obtain ⟨hnew, honce'⟩ := List.nodup_cons.mp honce
    have hclaim : ∀ call ∈ calls,
        claimFor w1.vault m final call.2 = claimFor w.vault m final call.2 := by
      intro call hc
      refine claimFor_same hres.1 hlinks (hsame call.2.user ?_)
      intro hk
      have hmem : call.2.user ∈ calls.map (fun call => call.2.user) := List.mem_map_of_mem hc
      rw [hk] at hmem
      exact hnew hmem
    obtain ⟨hvalid, hpaid⟩ := ih hv1 hself1 hres1 honce' h2
    refine ⟨fun call hc => ?_, ?_⟩
    · rcases List.mem_cons.mp hc with rfl | hc
      · exact hv.claim_valid m final hpos
      · rw [← hclaim call hc]
        exact hvalid call hc
    · rw [hpaid, hafter, List.map_congr_left hclaim, hy]
      rfl

/-- Different users, each redeeming the whole position it holds of one outcome. -/
structure Redeemers (w : World) (m : MarketId) (rs : List Redemption) : Prop where
  once : (rs.map Redemption.user).Nodup
  whole : ∀ r ∈ rs, w.tokens.balance (m, r.user, r.outcome) = r.amount

instance (w : World) (m : MarketId) (rs : List Redemption) : Decidable (Redeemers w m rs) :=
  decidable_of_iff
    ((rs.map Redemption.user).Nodup ∧ ∀ r ∈ rs, w.tokens.balance (m, r.user, r.outcome) = r.amount)
    ⟨fun h => ⟨h.1, h.2⟩, fun h => ⟨h.once, h.whole⟩⟩

/-- In whatever order and environments redemptions are made, each of them is
paid the same. -/
def OrderFree (w : World) (token : Asset) (m : MarketId) (rs : List Redemption) : Prop :=
  ∀ calls₁ calls₂ paid₁ paid₂ w₁ w₂,
    (calls₁.map Prod.snd).Perm rs → (calls₂.map Prod.snd).Perm rs →
    redeemAll token m w calls₁ = .ok (paid₁, w₁) → redeemAll token m w calls₂ = .ok (paid₂, w₂) →
    ∀ r y₁ y₂, (r, y₁) ∈ paid₁ → (r, y₂) ∈ paid₂ → y₁ = y₂

/-- Whatever the order of redemptions, some calls make them all. -/
def GoThrough (w : World) (token : Asset) (m : MarketId) (rs : List Redemption) : Prop :=
  ∀ order : List Redemption, order.Perm rs → ∃ calls paid w',
    calls.map Prod.snd = order ∧ redeemAll token m w calls = .ok (paid, w')

variable {calls : List (Ctx × Redemption)} {rs order : List Redemption}
  {paid : List (Redemption × ℤ)}

/-- Redemptions in an order of a list are valid, and paid what their pool pays in that order. -/
theorem redeemAll_order (hv : Sane w.vault) (hself : NoSelfParent w.vault)
    (hres : ResolvedTo w m final) (honce : (rs.map Redemption.user).Nodup)
    (hperm : (calls.map Prod.snd).Perm rs) (h : redeemAll token m w calls = .ok (paid, w')) :
    (∀ c ∈ (calls.map Prod.snd).map (claimFor w.vault m final), c.Valid) ∧
      paid = (calls.map Prod.snd).zip
        ((poolOf w.vault m).payouts ((calls.map Prod.snd).map (claimFor w.vault m final))) := by
  have husers := (hperm.map Redemption.user).nodup_iff.mpr honce
  rw [List.map_map] at husers
  obtain ⟨hvalid, hpaid⟩ := redeemAll_payouts calls hv hself hres husers h
  rw [List.map_map]
  refine ⟨fun c hc => ?_, hpaid⟩
  obtain ⟨call, hcall, rfl⟩ := List.mem_map.mp hc
  exact hvalid call hcall

/-- Steady redemptions are each paid what they would be paid first. -/
theorem redeemAll_steady (hv : Sane w.vault) (hself : NoSelfParent w.vault)
    (hres : ResolvedTo w m final) (honce : (rs.map Redemption.user).Nodup)
    (hsteady : (poolOf w.vault m).Steady (rs.map (claimFor w.vault m final)))
    (hperm : (calls.map Prod.snd).Perm rs) (h : redeemAll token m w calls = .ok (paid, w'))
    (hr : (r, y) ∈ paid) : y = (poolOf w.vault m).pays (claimFor w.vault m final r) := by
  obtain ⟨hvalid, rfl⟩ := redeemAll_order hv hself hres honce hperm h
  rw [hsteady.payouts_eq (hv.pool_valid m) hvalid (hperm.map _), List.map_map,
    ← List.map_prod_left_eq_zip] at hr
  obtain ⟨_, _, hpair⟩ := List.mem_map.mp hr
  obtain ⟨rfl, rfl⟩ := Prod.mk.inj hpair
  rfl

/-- Whatever goes through in any order pays each redemption, when the order does
not matter, what it would be paid first. -/
theorem OrderFree.paid_first (hv : Sane w.vault) (hself : NoSelfParent w.vault)
    (hres : ResolvedTo w m final) (honce : (rs.map Redemption.user).Nodup)
    (hfree : OrderFree w token m rs) (hgo : GoThrough w token m rs)
    (hperm : (calls.map Prod.snd).Perm rs) (h : redeemAll token m w calls = .ok (paid, w'))
    (hr : (r, y) ∈ paid) : y = (poolOf w.vault m).pays (claimFor w.vault m final r) := by
  have hmem : r ∈ rs := by
    obtain ⟨_, rfl⟩ := redeemAll_order hv hself hres honce hperm h
    exact hperm.mem_iff.mp (List.of_mem_zip hr).1
  -- the order that starts with this redemption
  have hfront := (List.perm_cons_erase hmem).symm
  obtain ⟨calls₁, paid₁, w₁, horder, h₁⟩ := hgo (r :: rs.erase r) hfront
  have hperm₁ : (calls₁.map Prod.snd).Perm rs := by rwa [horder]
  have hpaid₁ := (redeemAll_order hv hself hres honce hperm₁ h₁).2
  rw [horder, List.map_cons, Pool.payouts, List.zip_cons_cons] at hpaid₁
  have hr₁ : (r, (poolOf w.vault m).pays (claimFor w.vault m final r)) ∈ paid₁ := by
    rw [hpaid₁]
    exact List.mem_cons_self
  exact hfree calls calls₁ paid paid₁ w' w₁ hperm hperm₁ h h₁ r _ _ hr hr₁

/-- When the order does not matter to redemptions that go through, they are steady. -/
theorem OrderFree.steady (hv : Sane w.vault) (hself : NoSelfParent w.vault)
    (hres : ResolvedTo w m final) (honce : (rs.map Redemption.user).Nodup)
    (hfree : OrderFree w token m rs) (hgo : GoThrough w token m rs) :
    (poolOf w.vault m).Steady (rs.map (claimFor w.vault m final)) := by
  have hall : ∀ order : List Redemption, order.Perm rs →
      (∀ c ∈ order.map (claimFor w.vault m final), c.Valid) ∧
        (poolOf w.vault m).payouts (order.map (claimFor w.vault m final)) =
          (order.map (claimFor w.vault m final)).map (poolOf w.vault m).pays := by
    intro order hperm
    obtain ⟨calls, paid, w', horder, h⟩ := hgo order hperm
    have hcalls : (calls.map Prod.snd).Perm rs := by rwa [horder]
    obtain ⟨hvalid, hpaid⟩ := redeemAll_order hv hself hres honce hcalls h
    rw [horder] at hvalid hpaid
    refine ⟨hvalid, ?_⟩
    have hlen := Pool.length_payouts (poolOf w.vault m) (order.map (claimFor w.vault m final))
    rw [List.length_map] at hlen
    rw [List.map_map]
    refine eq_map_of_zip hlen fun r y hr => ?_
    rw [← hpaid] at hr
    exact hfree.paid_first hv hself hres honce hgo hcalls h hr
  apply Pool.steady_of_payouts (hv.pool_valid m) (hall rs (List.Perm.refl rs)).1
  intro claims hclaims
  obtain ⟨order, hperm, rfl⟩ := exists_perm_of_map hclaims
  exact (hall order hperm).2

end Redemption

/-- Redemptions that each user signs alone. -/
def signedBySelf (rs : List Redemption) : List (Ctx × Redemption) :=
  rs.map (fun r => (bySigner r.user, r))

/-- Market 2 resolved to Yes: carol holds 40 winning tokens, and alice 60, which
she bought with the 60 she owes. -/
def winnersSurroundings : Surroundings :=
  { resolvedSurroundings (Bank.empty.issue sampleToken (.contract .vault) 200) with
    tokens := { (deploy sampleLaunch).tokens with
      balance := (Store.empty.set (2, alice, .yes) 60).set (2, carol, .yes) 40 } }

/-- The redemptions of the two. -/
def winners : List Redemption := [⟨alice, .yes, 60⟩, ⟨carol, .yes, 40⟩]

/-- In some environment of its signers each order of the redemptions goes through. -/
def goThrough (w : World) (token : Asset) (m : MarketId) (rs : List Redemption) : Bool :=
  rs.permutations'.all fun order => (redeemAll token m w (signedBySelf order)).isOk

/-- Orders that their signers can make go through. -/
theorem goThrough_of {w : World} {token : Asset} {m : MarketId} {rs : List Redemption}
    (h : goThrough w token m rs = true) : GoThrough w token m rs := by
  intro order hperm
  have hok := List.all_eq_true.mp h order (List.mem_permutations'.mpr hperm)
  cases hcalls : redeemAll token m w (signedBySelf order) with
  | ok result =>
    obtain ⟨paid, w'⟩ := result
    refine ⟨signedBySelf order, paid, w', ?_, hcalls⟩
    unfold signedBySelf
    rw [List.map_map]
    exact List.map_id order
  | error e =>
    rw [hcalls] at hok
    cases hok

/-- The redemptions of a loser who still owes 60 on his stake, and of a winner. -/
def loserAndWinner : List Redemption := [⟨bob, .no, 160⟩, ⟨carol, .yes, 100⟩]

end DikeProtocol.Vault
