import DikeProtocol.Vault.Refunds
import DikeProtocol.Vault.Unlent

/-!
# Redemptions in parts

A redemption is worth its tokens, less what the position owes upstream and what
it owes on its stake, less the haircut and the cap of its market. Two parts
never pay more than the whole. But a part that is worth nothing, while its
stake still owes, defaults the stake: the whole may not.
-/

namespace DikeProtocol.Vault

open Lib

/-- What a payout depends on: what the position owes upstream and on its stake,
and the books of its market. -/
structure Ticket where
  upstream : ℤ
  owed : ℤ
  backing : ℤ
  shortfall : ℤ
  redeemed : ℤ

namespace Ticket

/-- What is left of a claim after the haircut of its market. -/
def share (t : Ticket) (claim : ℤ) : ℤ :=
  if t.shortfall = 0 then claim else claim * t.backing / (t.backing + t.shortfall)

/-- The payout of what is left of a claim. -/
def capped (t : Ticket) (claim : ℤ) : ℤ :=
  if claim ≤ 0 ∨ t.backing ≤ 0 ∨ t.backing ≤ t.redeemed then 0
  else min (t.share claim) (t.backing - t.redeemed)

/-- What of a claim repays the debt upstream. -/
def repaid (t : Ticket) (gross : ℤ) : ℤ := min gross t.upstream

/-- What of the rest is withheld for the debt on the stake. -/
def withheld (t : Ticket) (gross : ℤ) : ℤ := min t.owed (gross - t.repaid gross)

/-- The ticket once debts are settled out of a claim. -/
def settled (t : Ticket) (gross : ℤ) : Ticket where
  upstream := t.upstream - t.repaid gross
  owed := t.owed - t.withheld gross
  backing := t.backing - t.repaid gross + t.withheld gross
  shortfall := t.shortfall
  redeemed := t.redeemed

/-- What a claim pays. -/
def pay (t : Ticket) (gross : ℤ) : ℤ :=
  (t.settled gross).capped (gross - t.repaid gross - t.withheld gross)

/-- The ticket once a claim is paid. -/
def after (t : Ticket) (gross : ℤ) : Ticket :=
  { t.settled gross with redeemed := t.redeemed + t.pay gross }

/-- Debts and shortfalls are not negative. -/
structure Valid (t : Ticket) : Prop where
  upstream_nonneg : 0 ≤ t.upstream
  owed_nonneg : 0 ≤ t.owed
  shortfall_nonneg : 0 ≤ t.shortfall

variable {t : Ticket} {x y : ℤ}

/-- Two shares never exceed the share of the sum. -/
theorem share_add_le (hb : 0 < t.backing) (hs : 0 ≤ t.shortfall) :
    t.share x + t.share y ≤ t.share (x + y) := by
  unfold share
  split
  · exact le_rfl
  · have hpool : 0 < t.backing + t.shortfall := by omega
    have hx := Int.ediv_mul_le (x * t.backing) hpool.ne'
    have hy := Int.ediv_mul_le (y * t.backing) hpool.ne'
    apply Int.le_ediv_of_mul_le hpool
    calc
      (x * t.backing / (t.backing + t.shortfall) + y * t.backing / (t.backing + t.shortfall)) *
          (t.backing + t.shortfall) =
        x * t.backing / (t.backing + t.shortfall) * (t.backing + t.shortfall) +
          y * t.backing / (t.backing + t.shortfall) * (t.backing + t.shortfall) := by ring
      _ ≤ x * t.backing + y * t.backing := add_le_add hx hy
      _ = (x + y) * t.backing := by ring

/-- A share of a claim is not negative. -/
theorem share_nonneg (hb : 0 < t.backing) (hs : 0 ≤ t.shortfall) (hx : 0 ≤ x) : 0 ≤ t.share x := by
  unfold share
  split
  · exact hx
  · exact Int.ediv_nonneg (mul_nonneg hx hb.le) (by omega)

/-- A payout is not negative. -/
theorem capped_nonneg (hs : 0 ≤ t.shortfall) : 0 ≤ t.capped x := by
  unfold capped
  split
  · exact le_rfl
  · next h =>
    have hshare := share_nonneg (x := x) (t := t) (by omega) hs (by omega)
    omega

/-- A payout is nothing, or within its share and what the market has left. -/
theorem capped_le (t : Ticket) (x : ℤ) :
    t.capped x = 0 ∨ (t.capped x ≤ t.share x ∧ t.capped x ≤ t.backing - t.redeemed) := by
  unfold capped
  split
  · exact Or.inl rfl
  · exact Or.inr ⟨min_le_left _ _, min_le_right _ _⟩

/-- While the market has something left, a payout is the smaller of the two. -/
theorem capped_eq (hb : 0 < t.backing) (hleft : t.redeemed < t.backing) (hx : 0 ≤ x) :
    t.capped x = min (t.share x) (t.backing - t.redeemed) := by
  unfold capped
  split
  · next h =>
    obtain rfl : x = 0 := by omega
    have hzero : t.share 0 = 0 := by
      unfold share
      split
      · rfl
      · rw [zero_mul, Int.zero_ediv]
    rw [hzero]
    omega
  · rfl

/-- Two payouts in a row never exceed the payout of the sum. -/
theorem capped_add_le {next : Ticket} (hs : 0 ≤ t.shortfall) (hx : 0 ≤ x) (hy : 0 ≤ y)
    (hbacking : next.backing = t.backing) (hshortfall : next.shortfall = t.shortfall)
    (hredeemed : next.redeemed = t.redeemed + t.capped x) :
    t.capped x + next.capped y ≤ t.capped (x + y) := by
  by_cases hopen : t.backing ≤ 0 ∨ t.backing ≤ t.redeemed
  · have hx0 : t.capped x = 0 := if_pos (Or.inr hopen)
    have hxy0 : t.capped (x + y) = 0 := if_pos (Or.inr hopen)
    rw [hx0, add_zero] at hredeemed
    rw [← hbacking, ← hredeemed] at hopen
    have hy0 : next.capped y = 0 := if_pos (Or.inr hopen)
    omega
  · have hb : 0 < t.backing := by omega
    have hadd := share_add_le (x := x) (y := y) hb hs
    have hsy := share_nonneg (x := y) hb hs hy
    have hshare : next.share y = t.share y := by
      unfold share
      rw [hbacking, hshortfall]
    have hcapx := capped_eq hb (by omega) hx
    have hcapxy := capped_eq (x := x + y) hb (by omega) (by omega)
    rcases next.capped_le y with hzero | ⟨hle, hrest⟩
    · omega
    · rw [hshare] at hle
      rw [hbacking, hredeemed] at hrest
      omega

/-- A claim in two parts never pays more than the whole claim. -/
theorem pay_add_le (ht : t.Valid) (hy : 0 ≤ y) :
    t.pay x + (t.after x).pay y ≤ t.pay (x + y) := by
  have hu := ht.upstream_nonneg
  have ho := ht.owed_nonneg
  have hs := ht.shortfall_nonneg
  by_cases hsettled : x ≤ t.upstream + t.owed
  · -- the first part goes to debts, and leaves the second what the whole leaves
    have hnothing : t.pay x = 0 := by
      apply if_pos
      left
      unfold withheld repaid
      omega
    have hsame : (t.after x).settled y = t.settled (x + y) := by
      simp only [after, settled, repaid, withheld, hnothing, Ticket.mk.injEq, add_zero, and_true]
      omega
    have hclaim : y - (t.after x).repaid y - (t.after x).withheld y =
        x + y - t.repaid (x + y) - t.withheld (x + y) := by
      simp only [after, settled, repaid, withheld]
      omega
    rw [hnothing, zero_add]
    unfold pay
    rw [hsame, hclaim]
  · -- the first part settles all debts, and the second meets the same books
    have hrest : ∀ z, x ≤ z → (t.settled z = t.settled x ∧
        z - t.repaid z - t.withheld z = z - t.upstream - t.owed) := by
      intro z hz
      simp only [settled, repaid, withheld, Ticket.mk.injEq, and_true]
      omega
    have hfirst := (hrest x le_rfl).2
    obtain ⟨hwhole, hclaim⟩ := hrest (x + y) (by omega)
    have hsecond : (t.after x).pay y = ((t.after x).settled y).capped y := by
      have hall : y - (t.after x).repaid y - (t.after x).withheld y = y := by
        simp only [after, settled, repaid, withheld]
        omega
      unfold pay
      rw [hall]
    have hsplit : x + y - t.upstream - t.owed = x - t.upstream - t.owed + y := by omega
    rw [hsecond]
    unfold pay
    rw [hfirst, hwhole, hclaim, hsplit]
    refine capped_add_le hs (by omega) hy ?_ rfl ?_
    · simp only [after, settled, repaid, withheld]
      omega
    · rw [← hfirst]
      rfl

end Ticket

/-- The ticket of a position of one outcome. -/
def ticketOf (v : VaultState) (m : MarketId) (u : Address) (o : Outcome) (upstream : ℤ) :
    Ticket where
  upstream := upstream
  owed := v.parentDebt (m, u, o)
  backing := (v.accounting m).collateralBacking
  shortfall := (v.accounting m).shortfall
  redeemed := (v.accounting m).redeemed

section Settlement

variable {v v' : VaultState} {m : MarketId} {u : Address} {o : Outcome} {e x y g : ℤ}

/-- The cap pays what the ticket says. -/
theorem cappedPayout_ticket (h : cappedPayout v m x = .ok y) :
    y = (ticketOf v m u o e).capped x := by
  unfold cappedPayout haircut at h
  unfold Ticket.capped Ticket.share ticketOf
  dsimp only at h ⊢
  split at h
  · next hx =>
    rw [if_pos (Or.inl hx)]
    exact (ok_ok.mp h).symm
  · next hx =>
    split at h
    · next hb =>
      rw [if_pos (Or.inr (Or.inl hb))]
      exact (ok_ok.mp h).symm
    · next hb =>
      obtain ⟨remaining, hremaining, h⟩ := bind_ok.mp h
      have hremaining' := (checkedSub_ok.mp hremaining).1
      split at h
      · next hnone =>
        rw [if_pos (Or.inr (Or.inr (by omega)))]
        exact (pure_ok.mp h).symm
      · next hsome =>
        rw [if_neg (by omega), ← hremaining']
        split at h
        · next hfull =>
          obtain ⟨claim, hclaim, h⟩ := bind_ok.mp h
          have hclaim' := ok_ok.mp hclaim
          have hy := pure_ok.mp h
          rw [if_pos hfull]
          split at hy <;> omega
        · next hshort =>
          obtain ⟨claim, hclaim, h⟩ := bind_ok.mp h
          obtain ⟨total, htotal, hclaim⟩ := bind_ok.mp hclaim
          obtain ⟨scaled, hscaled, hclaim⟩ := bind_ok.mp hclaim
          have hclaim' := (checkedDiv_ok.mp hclaim).2.1
          have hnonneg : 0 ≤ x * (v.accounting m).collateralBacking :=
            mul_nonneg (by omega) (by omega)
          rw [(checkedAdd_ok.mp htotal).1, (checkedMul_ok.mp hscaled).1,
            Int.tdiv_eq_ediv_of_nonneg hnonneg] at hclaim'
          have hy := pure_ok.mp h
          rw [if_neg hshort, ← hclaim']
          split at hy <;> omega

/-- What a position still repays depends on its own debt and the one it names upstream. -/
theorem effectiveDebt_congr (hchild : v'.childDebt (m, u) = v.childDebt (m, u))
    (hparent : v'.childParent = v.childParent)
    (houtcome : v'.childParentOutcome = v.childParentOutcome)
    (hup : v.childParent (m, u) ≠ 0 →
      v'.parentDebt (v.childParent (m, u), u, v.childParentOutcome (m, u)) =
        v.parentDebt (v.childParent (m, u), u, v.childParentOutcome (m, u))) :
    effectiveDebt v' m u = effectiveDebt v m u := by
  unfold effectiveDebt
  dsimp only
  rw [hchild, hparent, houtcome]
  by_cases hroot : v.childParent (m, u) = 0
  · rw [if_neg (fun hk => hk.1 hroot), if_neg (fun hk => hk.1 hroot)]
  · rw [hup hroot]

/-- A position with a parent owes upstream what is left on both sides. -/
theorem settleChildDebt_effective (hv : Sane v) (hg : 0 ≤ g)
    (h : settleChildDebt v m u g = .ok (x, v')) :
    x = min g (effectiveDebt v m u) ∧ effectiveDebt v' m u = effectiveDebt v m u - x := by
  have hx := hv.settled h
  have he := hv.effectiveDebt_nonneg m u
  refine ⟨by split at hx <;> omega, ?_⟩
  obtain ⟨hzero, rfl, _⟩ | ⟨hzero, rfl, hp, hup⟩ | ⟨_, _, hroot, rfl⟩ | ⟨_, _, hp, _, rfl⟩ :=
    settleChildDebt_cases h
  · rw [hzero, sub_zero]
  · have hnothing : effectiveDebt v m u = 0 := by
      have hle := hv.childDebt_nonneg (m, u)
      rw [Sane.effectiveDebt_eq_min v hp, hup]
      omega
    have hp' : (withChildDebt v m u 0).childParent (m, u) ≠ 0 := hp
    rw [hzero, hnothing, Sane.effectiveDebt_eq_min _ hp']
    unfold withChildDebt
    dsimp only
    rw [Store.set_get_self, hup]
    rfl
  · unfold effectiveDebt withChildDebt
    dsimp only
    rw [if_neg (fun hk => hk.1 hroot), if_neg (fun hk => hk.1 hroot), Store.set_get_self]
  · have hp' : (repaidUpstream v m u x).childParent (m, u) ≠ 0 := hp
    rw [Sane.effectiveDebt_eq_min _ hp', Sane.effectiveDebt_eq_min v hp]
    unfold repaidUpstream
    dsimp only
    rw [Store.set_get_self, Store.set_get_self]
    omega

/-- Where no position is its own parent, a parent is another market. -/
theorem NoSelfParent.ne (hself : NoSelfParent v) (hp : v.childParent (m, u) ≠ 0) :
    v.childParent (m, u) ≠ m :=
  fun hk => hp (hk.trans (hself m u hk))

/-- A settlement leaves the books of the market it is settled out of, and the
debt on its stakes, as they were. -/
theorem settleChildDebt_keeps (hself : NoSelfParent v) (h : settleChildDebt v m u g = .ok (x, v')) :
    v'.accounting m = v.accounting m ∧ v'.parentDebt (m, u, o) = v.parentDebt (m, u, o) ∧
      v'.invalidDustCarry = v.invalidDustCarry := by
  obtain ⟨_, rfl, _⟩ | ⟨_, rfl, _, _⟩ | ⟨_, _, _, rfl⟩ | ⟨_, _, hp, _, rfl⟩ :=
    settleChildDebt_cases h
  · exact ⟨rfl, rfl, rfl⟩
  · exact ⟨rfl, rfl, rfl⟩
  · exact ⟨rfl, rfl, rfl⟩
  · have hne := hself.ne hp
    refine ⟨Store.set_get_of_ne _ _ hne.symm, Store.set_get_of_ne _ _ ?_, rfl⟩
    exact fun hk => hne (Prod.mk.inj hk).1.symm

/-- Repaying upstream out of a claim, on the ticket. -/
theorem repayUpstream_ticket (hv : Sane v) (hself : NoSelfParent v) (hg : 0 ≤ g)
    (h : repayUpstream v m u g = .ok (x, v')) :
    x = min g (effectiveDebt v m u) ∧
      ticketOf v' m u o (effectiveDebt v' m u) =
        { ticketOf v m u o (effectiveDebt v m u) with
          upstream := effectiveDebt v m u - x
          backing := (v.accounting m).collateralBacking - x } ∧
      (v'.accounting m).childCollateralDefaulted = (v.accounting m).childCollateralDefaulted ∧
      v'.invalidDustCarry = v.invalidDustCarry := by
  obtain ⟨v1, h1, hv'⟩ := repayUpstream_steps h
  obtain ⟨hx, heffective⟩ := settleChildDebt_effective hv hg h1
  obtain ⟨hbooks, hdebt, hcarry⟩ := settleChildDebt_keeps (o := o) hself h1
  have he := hv.effectiveDebt_nonneg m u
  refine ⟨hx, ?_⟩
  split at hv'
  · rw [hv']
    have hsame : effectiveDebt { v1 with
        accounting := v1.accounting.set m (debitedBy (v1.accounting m) x) } m u =
        effectiveDebt v1 m u := rfl
    rw [hsame, heffective]
    unfold ticketOf debitedBy
    dsimp only
    rw [Store.set_get_self, hbooks, hdebt]
    exact ⟨rfl, rfl, hcarry⟩
  · have hzero : x = 0 := by omega
    rw [hv', heffective]
    unfold ticketOf
    dsimp only
    rw [hbooks, hdebt, hzero, sub_zero, sub_zero]
    exact ⟨rfl, rfl, hcarry⟩

/-- A write to the debt on a market's own stakes leaves what its owner owes upstream. -/
theorem effectiveDebt_withhold (hself : NoSelfParent v)
    (hchild : v'.childDebt = v.childDebt) (hparent : v'.childParent = v.childParent)
    (houtcome : v'.childParentOutcome = v.childParentOutcome)
    (hdebt : v'.parentDebt = v.parentDebt.set (m, u, o) y) :
    effectiveDebt v' m u = effectiveDebt v m u := by
  refine effectiveDebt_congr (by rw [hchild]) hparent houtcome ?_
  intro hp
  rw [hdebt]
  exact Store.set_get_of_ne _ _ (fun hk => hself.ne hp (Prod.mk.inj hk).1)

/-- Withholding out of a claim, on the ticket, when nothing is defaulted. -/
theorem withholdParentDebt_ticket (hv : Sane v) (hself : NoSelfParent v) {claim : ℤ}
    (hclaim : 0 ≤ claim) (hg : g = 0 → claim = 0)
    (hworth : ¬(g = 0 ∧ 0 < v.parentDebt (m, u, o)))
    (h : withholdParentDebt v m u o g claim = .ok (x, v')) :
    x = min (v.parentDebt (m, u, o)) claim ∧
      effectiveDebt v' m u = effectiveDebt v m u ∧
      ticketOf v' m u o e = { ticketOf v m u o e with
        owed := v.parentDebt (m, u, o) - x
        backing := (v.accounting m).collateralBacking + x } ∧
      (v'.accounting m).childCollateralDefaulted = (v.accounting m).childCollateralDefaulted ∧
      v'.invalidDustCarry = v.invalidDustCarry := by
  have howed := hv.parentDebt_nonneg (m, u, o)
  obtain ⟨hnone, hx, rfl⟩ | ⟨_, _, hx, _, rfl⟩ | ⟨hpos, hzero, hx, _, rfl⟩ |
    ⟨hpos, hzero, _, _⟩ := withholdParentDebt_cases h hclaim hg
  · have hx0 : x = 0 := by omega
    refine ⟨hx, rfl, ?_, rfl, rfl⟩
    rw [hx0, sub_zero, add_zero]
    rfl
  · refine ⟨hx, effectiveDebt_withhold hself rfl rfl rfl rfl, ?_, ?_, rfl⟩
    · unfold ticketOf withheldBy repaidBy
      dsimp only
      rw [Store.set_get_self, Store.set_get_self]
    · unfold withheldBy repaidBy
      dsimp only
      rw [Store.set_get_self]
  · refine ⟨by omega, effectiveDebt_withhold hself rfl rfl rfl rfl, ?_, rfl, rfl⟩
    unfold ticketOf
    dsimp only
    rw [Store.set_get_self, hx, sub_zero, add_zero]
  · exact absurd ⟨hzero, hpos⟩ hworth

/-- A redemption worth nothing writes off all its stake owes. -/
theorem withholdParentDebt_lost (hv : Sane v) (howed : 0 < v.parentDebt (m, u, o))
    (h : withholdParentDebt v m u o 0 0 = .ok (x, v')) :
    x = 0 ∧ v'.parentDebt (m, u, o) = 0 ∧
      (v'.accounting m).childCollateralDefaulted =
        (v.accounting m).childCollateralDefaulted + v.parentDebt (m, u, o) ∧
      v'.invalidDustCarry = v.invalidDustCarry := by
  obtain ⟨hnone, _, _⟩ | ⟨_, _, _, hzero, _⟩ | ⟨_, _, _, hzero, _⟩ | ⟨hpos, _, hx, hdefault⟩ :=
    withholdParentDebt_cases h le_rfl (fun _ => rfl)
  · omega
  · exact absurd rfl hzero
  · exact absurd rfl hzero
  · obtain ⟨_, _, _, rfl, _⟩ := resolveParentDefault_ok hpos (by exact hv.reserve_nonneg) hdefault
    refine ⟨hx, Store.set_get_self _ _ _, ?_, rfl⟩
    dsimp only
    rw [Store.set_get_self]
    rfl

end Settlement

/-- What a redemption worth `g` does to its market: it pays what the ticket
says, or, worth nothing while the stake owes, writes the stake's debt off. -/
structure RedeemsFor (v v' : VaultState) (m : MarketId) (u : Address) (o : Outcome)
    (upstream upstream' g y : ℤ) : Prop where
  upstream_nonneg : 0 ≤ upstream
  paid : ¬(g = 0 ∧ 0 < v.parentDebt (m, u, o)) →
    y = (ticketOf v m u o upstream).pay g ∧
      ticketOf v' m u o upstream' = (ticketOf v m u o upstream).after g ∧
      (v'.accounting m).childCollateralDefaulted = (v.accounting m).childCollateralDefaulted
  lost : g = 0 → 0 < v.parentDebt (m, u, o) →
    y = 0 ∧ v'.parentDebt (m, u, o) = 0 ∧
      (v'.accounting m).childCollateralDefaulted =
        (v.accounting m).childCollateralDefaulted + v.parentDebt (m, u, o)

/-- Two redemptions pay no more than the one they split, and default no more. -/
def SplitsFairly (m : MarketId) (split whole : ℤ × VaultState) : Prop :=
  split.1 ≤ whole.1 ∧
    (split.2.accounting m).childCollateralDefaulted ≤
      (whole.2.accounting m).childCollateralDefaulted

namespace Ticket

variable {t : Ticket}

/-- A claim on nothing pays nothing. -/
theorem pay_zero (ht : t.Valid) : t.pay 0 = 0 := by
  have hu := ht.upstream_nonneg
  have ho := ht.owed_nonneg
  apply if_pos
  left
  unfold withheld repaid
  omega

end Ticket

/-- The ticket of a sane vault is valid. -/
theorem Sane.ticket_valid {v : VaultState} (hv : Sane v) {upstream : ℤ} (hup : 0 ≤ upstream)
    (m : MarketId) (u : Address) (o : Outcome) : (ticketOf v m u o upstream).Valid where
  upstream_nonneg := hup
  owed_nonneg := hv.parentDebt_nonneg (m, u, o)
  shortfall_nonneg := (hv.accounting m).shortfall_nonneg

/-- A split is fair unless exactly one of its parts is worth nothing and meets a
stake that still owes. -/
theorem RedeemsFor.fair_iff {v v1 v2 v' : VaultState} {m : MarketId} {u : Address} {o : Outcome}
    {e e1 e2 e' g1 g2 y1 y2 y : ℤ} (hv : Sane v) (hv1 : Sane v1)
    (h1 : RedeemsFor v v1 m u o e e1 g1 y1) (h2 : RedeemsFor v1 v2 m u o e1 e2 g2 y2)
    (h : RedeemsFor v v' m u o e e' (g1 + g2) y) (hg1 : 0 ≤ g1) (hg2 : 0 ≤ g2) :
    SplitsFairly m (y1 + y2, v2) (y, v') ↔
      ¬(0 < v.parentDebt (m, u, o) ∧ (g1 = 0 ∧ 0 < g2 ∨
        0 < g1 ∧ g2 = 0 ∧ g1 - min g1 e < v.parentDebt (m, u, o))) := by
  have ht := hv.ticket_valid h1.upstream_nonneg m u o
  have ht1 := hv1.ticket_valid h2.upstream_nonneg m u o
  have howed := hv.parentDebt_nonneg (m, u, o)
  unfold SplitsFairly
  dsimp only
  by_cases hfirst : g1 = 0 ∧ 0 < v.parentDebt (m, u, o)
  · -- the first part defaults the stake: only a whole worth nothing does so too
    obtain ⟨hzero, hpos⟩ := hfirst
    obtain ⟨hy1, hcleared, hlost1⟩ := h1.lost hzero hpos
    obtain ⟨hy2, _, hkept2⟩ := h2.paid (by omega)
    by_cases hsecond : g2 = 0
    · obtain ⟨hy, _, hlost⟩ := h.lost (by omega) hpos
      rw [hsecond, Ticket.pay_zero ht1] at hy2
      omega
    · obtain ⟨_, _, hkept⟩ := h.paid (by omega)
      omega
  · obtain ⟨hy1, hticket, hkept1⟩ := h1.paid hfirst
    have hleft : v1.parentDebt (m, u, o) =
        v.parentDebt (m, u, o) - min (v.parentDebt (m, u, o)) (g1 - min g1 e) :=
      congrArg Ticket.owed hticket
    obtain ⟨hy, _, hkept⟩ := h.paid (by omega)
    by_cases hsecond : g2 = 0 ∧ 0 < v1.parentDebt (m, u, o)
    · -- the second part defaults what the first left unpaid
      obtain ⟨_, _, hlost2⟩ := h2.lost hsecond.1 hsecond.2
      omega
    · obtain ⟨hy2, _, hkept2⟩ := h2.paid hsecond
      have hadd := Ticket.pay_add_le (x := g1) ht hg2
      rw [hticket] at hy2
      omega

/-- What settling debts out of a redemption worth `g` does to its market, before
what is left is paid. -/
structure SettlesFor (v v' : VaultState) (m : MarketId) (u : Address) (o : Outcome)
    (upstream upstream' g y : ℤ) : Prop where
  paid : ¬(g = 0 ∧ 0 < v.parentDebt (m, u, o)) →
    y = (ticketOf v m u o upstream).pay g ∧
      ticketOf v' m u o upstream' = (ticketOf v m u o upstream).settled g ∧
      (v'.accounting m).childCollateralDefaulted = (v.accounting m).childCollateralDefaulted
  lost : g = 0 → 0 < v.parentDebt (m, u, o) →
    y = 0 ∧ v'.parentDebt (m, u, o) = 0 ∧
      (v'.accounting m).childCollateralDefaulted =
        (v.accounting m).childCollateralDefaulted + v.parentDebt (m, u, o)

/-- Paying what is left completes the redemption. -/
theorem SettlesFor.pay {v v1 v2 : VaultState} {m : MarketId} {u : Address} {o : Outcome}
    {e e' g y : ℤ} (hv : Sane v) (he : 0 ≤ e) (h : SettlesFor v v1 m u o e e' g y)
    (hdebt : v2.parentDebt = v1.parentDebt)
    (hbooks : v2.accounting =
      if y > 0 then v1.accounting.set m (paidBy (v1.accounting m) y) else v1.accounting) :
    RedeemsFor v v2 m u o e e' g y := by
  have hkept : (v2.accounting m).childCollateralDefaulted =
      (v1.accounting m).childCollateralDefaulted := by
    rw [hbooks]
    split
    · rw [Store.set_get_self]
      rfl
    · rfl
  refine ⟨he, ?_, ?_⟩
  · intro hworth
    obtain ⟨hy, hticket, hdefaulted⟩ := h.paid hworth
    refine ⟨hy, ?_, hkept.trans hdefaulted⟩
    have hnonneg : 0 ≤ y := by
      rw [hy]
      exact Ticket.capped_nonneg (hv.accounting m).shortfall_nonneg
    have hpaid : ticketOf v2 m u o e' =
        { ticketOf v1 m u o e' with redeemed := (v1.accounting m).redeemed + y } := by
      unfold ticketOf
      rw [hdebt, hbooks]
      split
      · rw [Store.set_get_self]
        rfl
      · have hzero : y = 0 := by omega
        rw [hzero, add_zero]
    have hredeemed : (v1.accounting m).redeemed = (v.accounting m).redeemed :=
      congrArg Ticket.redeemed hticket
    rw [hpaid, hticket, hredeemed, hy]
    rfl
  · intro hzero howed
    obtain ⟨hy, hcleared, hdefaulted⟩ := h.lost hzero howed
    exact ⟨hy, by rw [hdebt, hcleared], hkept.trans hdefaulted⟩

section Settle

variable {v v' : VaultState} {m : MarketId} {u : Address} {final o : Outcome} {amount g y : ℤ}

/-- The settlement of a redemption in a resolved market repays upstream first. -/
theorem settleResolved_for (hv : Sane v) (hself : NoSelfParent v) (hpos : 0 < amount)
    (h : settleResolved v m u final o amount = .ok (g, y, v')) :
    g = redemptionValue v m final o amount ∧ 0 ≤ g ∧
      v'.invalidDustCarry = carryAfter v m final amount ∧
      SettlesFor v v' m u o (effectiveDebt v m u) (effectiveDebt v' m u) g y := by
  obtain ⟨v1, v2, paid, v3, withheld, h1, h2, h3, h4, h5⟩ := settleResolved_steps h
  obtain ⟨hg, hg0, rfl⟩ := grossPayout_eq hv hpos h1
  obtain ⟨_, _, hv1, _⟩ := hv.grossPayout hpos h1
  obtain rfl := addRedeemed_ok h2
  have hv2 : Sane { v with
      invalidDustCarry := carryAfter v m final amount
      redeemed := v.redeemed.set (m, u, o) (v.redeemed (m, u, o) + amount) } := { hv1 with }
  obtain ⟨hpaid, hpaid0, hv3, _⟩ := hv2.repayUpstream hg0 h3
  obtain ⟨_, hticket, hdefaulted, hcarry⟩ := repayUpstream_ticket (o := o) hv2 hself hg0 h3
  have hself3 : NoSelfParent v3 := by
    unfold NoSelfParent
    rw [(SameLinks.repayUpstream h3).childParent]
    exact hself
  have he := hv.effectiveDebt_nonneg m u
  have hclaim : 0 ≤ g - paid := by omega
  have hnothing : g = 0 → g - paid = 0 := by omega
  have howed : v3.parentDebt (m, u, o) = v.parentDebt (m, u, o) := congrArg Ticket.owed hticket
  have hbacking : (v3.accounting m).collateralBacking =
      (v.accounting m).collateralBacking - paid := congrArg Ticket.backing hticket
  by_cases hworth : g = 0 ∧ 0 < v.parentDebt (m, u, o)
  · obtain ⟨hzero, hpos3⟩ := hworth
    rw [hnothing hzero, hzero] at h4
    obtain ⟨hx, hcleared, hlost, hcarry4⟩ :=
      withholdParentDebt_lost hv3 (by rw [howed]; exact hpos3) h4
    rw [hx, hnothing hzero, sub_zero] at h5
    refine ⟨hg, hg0, hcarry4.trans hcarry, fun hk => absurd ⟨hzero, hpos3⟩ hk, fun _ _ => ?_⟩
    refine ⟨?_, hcleared, by rw [hlost, hdefaulted, howed]⟩
    unfold cappedPayout at h5
    rw [if_pos le_rfl] at h5
    exact (ok_ok.mp h5).symm
  · obtain ⟨hx, hsame, hticket4, hdefaulted4, hcarry4⟩ :=
      withholdParentDebt_ticket (e := effectiveDebt v3 m u) hv3 hself3 hclaim hnothing
        (by rw [howed]; exact hworth) h4
    refine ⟨hg, hg0, hcarry4.trans hcarry, fun _ => ?_, fun hzero hk => absurd ⟨hzero, hk⟩ hworth⟩
    have hsettled : ticketOf v' m u o (effectiveDebt v' m u) =
        (ticketOf v m u o (effectiveDebt v m u)).settled g := by
      rw [hsame, hticket4, hticket, hx, hbacking, howed, hpaid]
      rfl
    refine ⟨?_, hsettled, hdefaulted4.trans hdefaulted⟩
    rw [cappedPayout_ticket (e := effectiveDebt v' m u) h5, hsettled, hx, howed, hpaid]
    rfl

/-- The settlement of a redemption in a cancelled market repays nothing upstream. -/
theorem settleCancelled_for (hv : Sane v) (hself : NoSelfParent v) (hpos : 0 < amount)
    (h : settleCancelled v m u o amount = .ok (y, v')) :
    v'.invalidDustCarry = carryAfter v m .invalid amount ∧
      SettlesFor v v' m u o 0 0 (redemptionValue v m .invalid o amount) y := by
  obtain ⟨g, v1, withheld, h1, h2, h3⟩ := settleCancelled_steps h
  obtain ⟨hg, rfl, hv1⟩ := hv.refundWithCarry hpos h1
  have hcarry := hv.carry m
  have hg0 : 0 ≤ g := by omega
  have hvalue : redemptionValue v m .invalid o amount = g := hg.symm
  rw [hvalue]
  by_cases hworth : g = 0 ∧ 0 < v.parentDebt (m, u, o)
  · obtain ⟨hzero, howed⟩ := hworth
    rw [hzero] at h2
    obtain ⟨hx, hcleared, hlost, hcarry2⟩ := withholdParentDebt_lost hv1 howed h2
    rw [hx, hzero, sub_zero] at h3
    refine ⟨hcarry2, fun hk => absurd ⟨hzero, howed⟩ hk, fun _ _ => ⟨?_, hcleared, hlost⟩⟩
    unfold cappedPayout at h3
    rw [if_pos le_rfl] at h3
    exact (ok_ok.mp h3).symm
  · obtain ⟨hx, _, hticket, hdefaulted, hcarry2⟩ :=
      withholdParentDebt_ticket (e := 0) hv1 hself hg0 id hworth h2
    refine ⟨hcarry2, fun _ => ?_, fun hzero hk => absurd ⟨hzero, hk⟩ hworth⟩
    have hrepaid : (ticketOf v m u o 0).repaid g = 0 := min_eq_right hg0
    have hsettled : ticketOf v' m u o 0 = (ticketOf v m u o 0).settled g := by
      rw [hticket, hx]
      unfold Ticket.settled Ticket.withheld
      rw [hrepaid, sub_zero, sub_zero, sub_zero]
      rfl
    refine ⟨?_, hsettled, hdefaulted⟩
    rw [cappedPayout_ticket (e := 0) h3, hsettled, hx]
    unfold Ticket.pay Ticket.withheld
    rw [hrepaid, sub_zero]
    rfl

end Settle

section Redemption

variable {ctx ctx₁ ctx₂ : Ctx} {w w₁ w₂ w' : World} {token : Asset} {m : MarketId} {u : Address}
  {final o : Outcome} {amount a b y y₁ y₂ : ℤ}

/-- A redemption in a resolved market, from what it owes upstream and on its stake. -/
theorem redeemResolved_for (hv : Sane w.vault) (hself : NoSelfParent w.vault)
    (h : redeemResolved ctx w token u m o amount = .ok (y, w')) :
    0 < amount ∧ w'.registry = w.registry ∧ ∃ market, w.registry.market m = some market ∧
      w'.vault.invalidDustCarry = carryAfter w.vault m market.finalOutcome amount ∧
      0 ≤ redemptionValue w.vault m market.finalOutcome o amount ∧
      RedeemsFor w.vault w'.vault m u o (effectiveDebt w.vault m u) (effectiveDebt w'.vault m u)
        (redemptionValue w.vault m market.finalOutcome o amount) y := by
  obtain ⟨hpos, market, gross, v1, t, v2, _, hmarket, _, _, hsettle, _, hretire, hpay⟩ :=
    redeemResolved_steps h
  obtain ⟨hgross, hg0, hcarry, hsettles⟩ := settleResolved_for hv hself hpos hsettle
  obtain ⟨_, _, rfl⟩ := retireClaim_ok hretire
  obtain ⟨_, rfl⟩ := payRedemption_ok hpay
  rw [hgross] at hsettles hg0
  exact ⟨hpos, rfl, market, hmarket, hcarry, hg0,
    hsettles.pay hv (hv.effectiveDebt_nonneg m u) rfl rfl⟩

/-- A redemption in a cancelled market, from what it owes on its stake. -/
theorem redeemCancelled_for (hv : Sane w.vault) (hself : NoSelfParent w.vault)
    (h : redeemCancelled ctx w token u m o amount = .ok (y, w')) :
    0 < amount ∧ w'.vault.invalidDustCarry = carryAfter w.vault m .invalid amount ∧
      RedeemsFor w.vault w'.vault m u o 0 0 (redemptionValue w.vault m .invalid o amount) y := by
  obtain ⟨hpos, _, _, v1, _, _, _, _, _, hsettle, hpay⟩ := redeemCancelled_steps h
  obtain ⟨hcarry, hsettles⟩ := settleCancelled_for hv hself hpos hsettle
  obtain ⟨_, rfl⟩ := payRedemption_ok hpay
  exact ⟨hpos, hcarry, hsettles.pay hv le_rfl rfl rfl⟩

/-- The parts of an amount are worth what the whole is: half units are carried. -/
theorem redemptionValue_add {v v' : VaultState}
    (hcarry : v'.invalidDustCarry = carryAfter v m final a) :
    redemptionValue v m final o a + redemptionValue v' m final o b =
      redemptionValue v m final o (a + b) := by
  unfold redemptionValue
  cases final with
  | yes =>
    dsimp only
    split <;> omega
  | no =>
    dsimp only
    split <;> omega
  | invalid =>
    dsimp only
    rw [hcarry]
    unfold carryAfter
    dsimp only
    rw [Store.set_get_self]
    omega

/-- A part of a redemption at half value is worth nothing, while the stake still
owes: a first part of one unit without a carry, or a last unit that only leaves one. -/
def SplitDefaults (v : VaultState) (m : MarketId) (u : Address) (o : Outcome)
    (upstream a b : ℤ) : Prop :=
  0 < v.parentDebt (m, u, o) ∧
    (v.invalidDustCarry m = 0 ∧ a = 1 ∨
      b = 1 ∧ (v.invalidDustCarry m + a) % 2 = 0 ∧
        (v.invalidDustCarry m + a) / 2 - min ((v.invalidDustCarry m + a) / 2) upstream <
          v.parentDebt (m, u, o))

/-- At half value, the parts that are worth nothing. -/
theorem splitDefaults_iff {v v' : VaultState} (hv : Sane v) {upstream : ℤ} (ha : 0 < a) (hb : 0 < b)
    (hcarry : v'.invalidDustCarry = carryAfter v m .invalid a) :
    (0 < v.parentDebt (m, u, o) ∧
      (redemptionValue v m .invalid o a = 0 ∧ 0 < redemptionValue v' m .invalid o b ∨
        0 < redemptionValue v m .invalid o a ∧ redemptionValue v' m .invalid o b = 0 ∧
          redemptionValue v m .invalid o a - min (redemptionValue v m .invalid o a) upstream <
            v.parentDebt (m, u, o))) ↔ SplitDefaults v m u o upstream a b := by
  have hsmall := hv.carry m
  have hnext : v'.invalidDustCarry m = (v.invalidDustCarry m + a) % 2 := by
    rw [hcarry]
    exact Store.set_get_self _ _ _
  unfold SplitDefaults redemptionValue
  dsimp only
  rw [hnext]
  constructor
  · rintro ⟨howed, ⟨h1, _⟩ | ⟨_, h2, hless⟩⟩
    · exact ⟨howed, Or.inl (by omega)⟩
    · exact ⟨howed, Or.inr ⟨by omega, by omega, hless⟩⟩
  · rintro ⟨howed, ⟨h0, h1⟩ | ⟨h1, heven, hless⟩⟩
    · exact ⟨howed, Or.inl (by omega)⟩
    · exact ⟨howed, Or.inr ⟨by omega, by omega, hless⟩⟩

/-- In a resolved market a split is fair unless it defaults a stake at half value. -/
theorem redeemResolved_split (hv : Sane w.vault) (hself : NoSelfParent w.vault)
    (h₁ : redeemResolved ctx₁ w token u m o a = .ok (y₁, w₁))
    (h₂ : redeemResolved ctx₂ w₁ token u m o b = .ok (y₂, w₂))
    (h : redeemResolved ctx w token u m o (a + b) = .ok (y, w')) :
    SplitsFairly m (y₁ + y₂, w₂.vault) (y, w'.vault) ↔
      ¬((∃ market, w.registry.market m = some market ∧ market.finalOutcome = .invalid) ∧
        SplitDefaults w.vault m u o (effectiveDebt w.vault m u) a b) := by
  have hv₁ : Sane w₁.vault := by
    obtain ⟨_, _, _, _, _, _, _, _, _, rfl, hsane, _⟩ :=
      redeemResolved_flow (nullGauge_even.at _ _ _) (nullGauge_even _) hv h₁
    exact hsane
  have hself₁ : NoSelfParent w₁.vault := by
    have hexec : (VaultOp.redeemResolved token u m o a).exec ctx₁ w = .ok w₁ :=
      world_ok.mpr ⟨y₁, h₁⟩
    exact hself.exec hv hexec
  obtain ⟨ha, hregistry, market, hmarket, hcarry, hg₁, hfirst⟩ := redeemResolved_for hv hself h₁
  obtain ⟨hb, _, market₁, hmarket₁, _, hg₂, hsecond⟩ := redeemResolved_for hv₁ hself₁ h₂
  obtain ⟨_, _, market', hmarket', _, _, hwhole⟩ := redeemResolved_for hv hself h
  rw [hregistry, hmarket] at hmarket₁
  rw [hmarket] at hmarket'
  obtain rfl := Option.some.inj hmarket₁
  obtain rfl := Option.some.inj hmarket'
  rw [← redemptionValue_add hcarry] at hwhole
  rw [hfirst.fair_iff hv hv₁ hsecond hwhole hg₁ hg₂]
  have hfinal : (∃ found, w.registry.market m = some found ∧ found.finalOutcome = .invalid) ↔
      market.finalOutcome = .invalid := by
    rw [hmarket]
    simp only [Option.some.injEq, exists_eq_left']
  rw [hfinal]
  cases hout : market.finalOutcome with
  | invalid =>
    rw [hout] at hcarry
    rw [splitDefaults_iff hv ha hb hcarry]
    exact not_congr (and_iff_right rfl).symm
  | yes =>
    -- at full value both parts are worth something, or neither is
    unfold redemptionValue
    dsimp only
    refine iff_of_true ?_ (fun hk => by cases hk.1)
    split <;> omega
  | no =>
    unfold redemptionValue
    dsimp only
    refine iff_of_true ?_ (fun hk => by cases hk.1)
    split <;> omega

/-- In a cancelled market a split is fair unless it defaults a stake. -/
theorem redeemCancelled_split (hv : Sane w.vault) (hself : NoSelfParent w.vault)
    (h₁ : redeemCancelled ctx₁ w token u m o a = .ok (y₁, w₁))
    (h₂ : redeemCancelled ctx₂ w₁ token u m o b = .ok (y₂, w₂))
    (h : redeemCancelled ctx w token u m o (a + b) = .ok (y, w')) :
    SplitsFairly m (y₁ + y₂, w₂.vault) (y, w'.vault) ↔ ¬SplitDefaults w.vault m u o 0 a b := by
  have hv₁ : Sane w₁.vault := by
    obtain ⟨_, _, _, _, _, _, _, rfl, hsane, _⟩ := redeemCancelled_flow (nullGauge_even _) hv h₁
    exact hsane
  have hself₁ : NoSelfParent w₁.vault := by
    have hexec : (VaultOp.redeemCancelled token u m o a).exec ctx₁ w = .ok w₁ :=
      world_ok.mpr ⟨y₁, h₁⟩
    exact hself.exec hv hexec
  obtain ⟨ha, hcarry, hfirst⟩ := redeemCancelled_for hv hself h₁
  obtain ⟨hb, _, hsecond⟩ := redeemCancelled_for hv₁ hself₁ h₂
  obtain ⟨_, _, hwhole⟩ := redeemCancelled_for hv hself h
  have hg₁ := redemptionValue_nonneg (m := m) (hv.carry m).1 ha .invalid o
  have hg₂ := redemptionValue_nonneg (m := m) (hv₁.carry m).1 hb .invalid o
  rw [← redemptionValue_add hcarry] at hwhole
  rw [hfirst.fair_iff hv hv₁ hsecond hwhole hg₁ hg₂, splitDefaults_iff hv ha hb hcarry]

end Redemption

/-- No run makes a position its own parent. -/
theorem reachable_noSelfParent {kept : List Asset} {ok : World → VaultStep → Prop} {w : World}
    (h : (vaultSystem kept).Guarded ok w) : NoSelfParent w.vault := by
  refine h.invariant_with (J := fun w => Sane w.vault) (I := fun w => NoSelfParent w.vault)
    (fun w hw => reachable_sane hw) ?_ ?_
  · rintro w ⟨⟨admin, treasury, roles, hv⟩, _⟩
    rw [hv]
    exact fun c u hc => hc.symm
  · intro w step w' hsane hself _ hstep
    cases step with
    | call ctx op =>
      obtain ⟨_, hexec⟩ := vaultSystem_call hstep
      exact hself.exec hsane hexec
    | outside s =>
      obtain ⟨_, rfl⟩ := vaultSystem_outside hstep
      exact hself

/-- In every reachable state, redeeming in two parts pays no more and defaults
no more than redeeming at once, exactly when no part is worth nothing at half
value while the stake still owes. -/
theorem split_redemption_fair_iff (kept : List Asset) {w : World}
    (hw : (vaultSystem kept).Reachable w) (ctx₁ ctx₂ ctx : Ctx) (token : Asset) (u : Address)
    (m : MarketId) (o : Outcome) (a b y₁ y₂ y : ℤ) (w₁ w₂ w' : World) :
    (redeemResolved ctx₁ w token u m o a = .ok (y₁, w₁) →
      redeemResolved ctx₂ w₁ token u m o b = .ok (y₂, w₂) →
      redeemResolved ctx w token u m o (a + b) = .ok (y, w') →
      (SplitsFairly m (y₁ + y₂, w₂.vault) (y, w'.vault) ↔
        ¬((∃ market, w.registry.market m = some market ∧ market.finalOutcome = .invalid) ∧
          SplitDefaults w.vault m u o (effectiveDebt w.vault m u) a b))) ∧
    (redeemCancelled ctx₁ w token u m o a = .ok (y₁, w₁) →
      redeemCancelled ctx₂ w₁ token u m o b = .ok (y₂, w₂) →
      redeemCancelled ctx w token u m o (a + b) = .ok (y, w') →
      (SplitsFairly m (y₁ + y₂, w₂.vault) (y, w'.vault) ↔ ¬SplitDefaults w.vault m u o 0 a b)) :=
  ⟨redeemResolved_split (reachable_sane hw) (reachable_noSelfParent hw),
    redeemCancelled_split (reachable_sane hw) (reachable_noSelfParent hw)⟩

/-- Market 2 resolved to invalid: carol holds 100 of its tokens and owes nothing. -/
def invalidSurroundings : Surroundings :=
  { resolvedSurroundings (Bank.empty.issue sampleToken (.contract .vault) 100) with
    registry := sampleRegistry [sampleMarket 1 .live none,
      sampleMarket 2 .resolved (some .invalid)] }

/-- Carol's 2 and 3 tokens pay 1 each, as much as her 5 at once. -/
theorem carol_splits_fairly : ∃ w y₁ w₁ y₂ w₂ y w',
    redeemResolved (bySigner carol) w sampleToken carol 2 .yes 2 = .ok (y₁, w₁) ∧
    redeemResolved (bySigner carol) w₁ sampleToken carol 2 .yes 3 = .ok (y₂, w₂) ∧
    redeemResolved (bySigner carol) w sampleToken carol 2 .yes (2 + 3) = .ok (y, w') ∧
    y = 2 ∧ SplitsFairly 2 (y₁ + y₂, w₂.vault) (y, w'.vault) := by
  have hinit : (vaultSystem []).Init (deploy sampleLaunch) := ⟨⟨_, _, _, rfl⟩, rfl⟩
  obtain ⟨w, hw, hcalls⟩ := System.runs_of_decide (S := vaultSystem []) (deploy sampleLaunch)
    (loanSteps ++ [.outside invalidSurroundings])
    (fun w => okWith (redeemResolved (bySigner carol) w sampleToken carol 2 .yes 2)
        (fun r => okWith (redeemResolved (bySigner carol) r.2 sampleToken carol 2 .yes 3)
          (fun _ => true)) &&
      okWith (redeemResolved (bySigner carol) w sampleToken carol 2 .yes (2 + 3))
        (fun r => decide (r.1 = 2)) &&
      decide (w.vault.parentDebt (2, carol, .yes) = 0)) (by decide +kernel)
  obtain ⟨hboth, hfree⟩ := Bool.and_eq_true_iff.mp hcalls
  obtain ⟨hsplit, hone⟩ := Bool.and_eq_true_iff.mp hboth
  obtain ⟨⟨y₁, w₁⟩, h₁, hrest⟩ := okWith_iff.mp hsplit
  obtain ⟨⟨y₂, w₂⟩, h₂, _⟩ := okWith_iff.mp hrest
  obtain ⟨⟨y, w'⟩, h, hpaid⟩ := okWith_iff.mp hone
  have hreach := System.Reachable.runs (.init hinit) _ hw
  have hfair := ((split_redemption_fair_iff [] hreach _ _ _ _ _ _ _ _ _ _ _ _ _ _ _).1 h₁ h₂ h).mpr
  have howed := of_decide_eq_true hfree
  refine ⟨w, y₁, w₁, y₂, w₂, y, w', h₁, h₂, h, of_decide_eq_true hpaid, hfair ?_⟩
  rintro ⟨_, hpos, _⟩
  omega

/-- Market 1 cancelled, while alice owes 60 on her 100 tokens of it. -/
def cancelledSurroundings : Surroundings :=
  sampleSurroundings [sampleMarket 1 .cancelled none, sampleMarket 2 .live none]
    (Bank.empty.issue sampleToken (.contract .vault) 100)

/-- Alice redeems two tokens one by one: the first is worth nothing and defaults
the 60 she owes, which two tokens at once leave owed. -/
theorem not_always_split_fair : ¬∀ w, (vaultSystem []).Reachable w →
    ∀ ctx₁ ctx₂ ctx token u m o a b y₁ y₂ y w₁ w₂ w',
      redeemCancelled ctx₁ w token u m o a = .ok (y₁, w₁) →
      redeemCancelled ctx₂ w₁ token u m o b = .ok (y₂, w₂) →
      redeemCancelled ctx w token u m o (a + b) = .ok (y, w') →
      SplitsFairly m (y₁ + y₂, w₂.vault) (y, w'.vault) := by
  intro hall
  have hinit : (vaultSystem []).Init (deploy sampleLaunch) := ⟨⟨_, _, _, rfl⟩, rfl⟩
  obtain ⟨w, hw, hcalls⟩ := System.runs_of_decide (S := vaultSystem []) (deploy sampleLaunch)
    (loanSteps ++ [.outside cancelledSurroundings])
    (fun w => okWith (redeemCancelled (bySigner alice) w sampleToken alice 1 .yes 1)
        (fun r => okWith (redeemCancelled (bySigner alice) r.2 sampleToken alice 1 .yes 1)
          (fun r => decide ((r.2.vault.accounting 1).childCollateralDefaulted = 60))) &&
      okWith (redeemCancelled (bySigner alice) w sampleToken alice 1 .yes (1 + 1))
        (fun r => decide ((r.2.vault.accounting 1).childCollateralDefaulted = 0)))
    (by decide +kernel)
  obtain ⟨hsplit, hone⟩ := Bool.and_eq_true_iff.mp hcalls
  obtain ⟨⟨y₁, w₁⟩, h₁, hrest⟩ := okWith_iff.mp hsplit
  obtain ⟨⟨y₂, w₂⟩, h₂, hlost⟩ := okWith_iff.mp hrest
  obtain ⟨⟨y, w'⟩, h, hkept⟩ := okWith_iff.mp hone
  have hreach := System.Reachable.runs (.init hinit) _ hw
  have hfair := (hall w hreach _ _ _ _ _ _ _ _ _ _ _ _ _ _ _ h₁ h₂ h).2
  have h60 := of_decide_eq_true hlost
  have h0 := of_decide_eq_true hkept
  dsimp only at hfair h60 h0
  omega

end DikeProtocol.Vault
