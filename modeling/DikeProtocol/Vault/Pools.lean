import DikeProtocol.Vault.Splits

/-!
# Redemptions from one pool

The books of a market and the reserve, as far as its redemptions read and move
them. What a set of redemptions does to the books does not depend on their
order, once each of them is paid the same in any. So redemptions taken one after
another are all paid what they would be paid first exactly if no set of them
changes what the books give another one.
-/

namespace DikeProtocol.Vault

open Lib

/-- What a market holds towards its claims, and the reserve behind it. -/
structure Pool where
  backing : ℤ
  shortfall : ℤ
  redeemed : ℤ
  reserve : ℤ

/-- One redemption: what its tokens are worth, what its position owes upstream,
and what it owes on its stake. -/
structure Claim where
  gross : ℤ
  upstream : ℤ
  owed : ℤ
deriving DecidableEq

namespace Claim

/-- Nothing a redemption brings is negative. -/
structure Valid (c : Claim) : Prop where
  gross_nonneg : 0 ≤ c.gross
  upstream_nonneg : 0 ≤ c.upstream
  owed_nonneg : 0 ≤ c.owed

/-- What of a redemption repays the debt upstream. -/
def repaid (c : Claim) : ℤ := min c.gross c.upstream

/-- What of the rest is withheld for the debt on the stake. -/
def withheld (c : Claim) : ℤ := min c.owed (c.gross - c.repaid)

/-- What is left to be paid once debts are settled. -/
def net (c : Claim) : ℤ := c.gross - c.repaid - c.withheld

/-- The debt a redemption leaves behind for good: that of a worthless one. -/
def lost (c : Claim) : ℤ := if c.gross = 0 then c.owed else 0

variable {c : Claim}

/-- What is left of a redemption is not negative. -/
theorem net_nonneg (c : Claim) : 0 ≤ c.net := by
  unfold net withheld repaid
  omega

/-- No debt that is left behind is negative. -/
theorem Valid.lost_nonneg (hc : c.Valid) : 0 ≤ c.lost := by
  have ho := hc.owed_nonneg
  unfold lost
  split <;> omega

/-- The debts that redemptions leave behind together are not negative. -/
theorem sum_lost_nonneg {cs : List Claim} (hcs : ∀ c ∈ cs, c.Valid) :
    0 ≤ (cs.map lost).sum :=
  List.sum_nonneg fun x hx => by
    obtain ⟨c, hc, rfl⟩ := List.mem_map.mp hx
    exact (hcs c hc).lost_nonneg

end Claim

namespace Pool

/-- No shortfall and no reserve is negative. -/
structure Valid (p : Pool) : Prop where
  shortfall_nonneg : 0 ≤ p.shortfall
  reserve_nonneg : 0 ≤ p.reserve

/-- What a redemption meets in its market. -/
def ticket (p : Pool) (c : Claim) : Ticket where
  upstream := c.upstream
  owed := c.owed
  backing := p.backing
  shortfall := p.shortfall
  redeemed := p.redeemed

/-- What a redemption is paid. -/
def pays (p : Pool) (c : Claim) : ℤ := (p.ticket c).pay c.gross

/-- The pool a redemption leaves behind: repayments move its backing, and a loss
is drawn from the reserve first. -/
def after (p : Pool) (c : Claim) : Pool where
  backing := p.backing - c.repaid + c.withheld + min c.lost p.reserve
  shortfall := p.shortfall + (c.lost - min c.lost p.reserve)
  redeemed := p.redeemed + p.pays c
  reserve := p.reserve - min c.lost p.reserve

/-- What redemptions taken one after another are paid. -/
def payouts (p : Pool) : List Claim → List ℤ
  | [] => []
  | c :: cs => p.pays c :: (p.after c).payouts cs

/-- The pool that a set of redemptions leaves behind when each is paid what
`paid` says: their losses together are drawn from the reserve first. -/
def past (p : Pool) (paid : Claim → ℤ) (cs : List Claim) : Pool where
  backing := p.backing - (cs.map Claim.repaid).sum + (cs.map Claim.withheld).sum +
    min (cs.map Claim.lost).sum p.reserve
  shortfall := p.shortfall + ((cs.map Claim.lost).sum - min (cs.map Claim.lost).sum p.reserve)
  redeemed := p.redeemed + (cs.map paid).sum
  reserve := p.reserve - min (cs.map Claim.lost).sum p.reserve

/-- Redemptions that do not get in each other's way: what the books give a
redemption with anything left is what they would give it past any of the others. -/
def Steady (p : Pool) (cs : List Claim) : Prop :=
  ∀ c ∈ cs, 0 < c.net → ∀ others ∈ (cs.erase c).sublists,
    (p.past p.pays others).pays c = p.pays c

instance (p : Pool) (cs : List Claim) : Decidable (p.Steady cs) :=
  inferInstanceAs (Decidable (∀ c ∈ cs, 0 < c.net → ∀ others ∈ (cs.erase c).sublists,
    (p.past p.pays others).pays c = p.pays c))

variable {p : Pool} {paid : Claim → ℤ} {c : Claim} {cs ds : List Claim}

/-- What is paid depends on the claim through what debts leave of it. -/
theorem pays_eq (p : Pool) (c : Claim) : p.pays c =
    ({ p.ticket c with backing := p.backing - c.repaid + c.withheld } : Ticket).capped c.net :=
  rfl

/-- A redemption with nothing left is paid nothing. -/
theorem pays_of_net (hnet : c.net = 0) : p.pays c = 0 := by
  rw [pays_eq, hnet]
  exact if_pos (Or.inl le_rfl)

/-- A redemption leaves the pool valid. -/
theorem Valid.after (hp : p.Valid) (hc : c.Valid) : (p.after c).Valid := by
  have hs := hp.shortfall_nonneg
  have hr := hp.reserve_nonneg
  have hlost := hc.lost_nonneg
  constructor
  · dsimp only [Pool.after]
    omega
  · dsimp only [Pool.after]
    omega

/-- Every redemption is paid something, if only nothing. -/
theorem length_payouts (p : Pool) (cs : List Claim) : (p.payouts cs).length = cs.length := by
  induction cs generalizing p with
  | nil => rfl
  | cons c cs ih => rw [payouts, List.length_cons, List.length_cons, ih]

/-- No redemption leaves the pool as it is. -/
theorem past_nil (hp : p.Valid) (paid : Claim → ℤ) : p.past paid [] = p := by
  have hdraw : min (0 : ℤ) p.reserve = 0 := min_eq_left hp.reserve_nonneg
  unfold past
  simp only [List.map_nil, List.sum_nil, hdraw, sub_zero, add_zero]

/-- The order of redemptions does not matter to what they leave behind. -/
theorem past_perm (p : Pool) (paid : Claim → ℤ) (hperm : cs.Perm ds) :
    p.past paid cs = p.past paid ds := by
  unfold past
  rw [(hperm.map Claim.repaid).sum_eq, (hperm.map Claim.withheld).sum_eq,
    (hperm.map Claim.lost).sum_eq, (hperm.map paid).sum_eq]

/-- Redemptions behind a first one leave what all of them leave. -/
theorem past_cons (hp : p.Valid) (hc : c.Valid) (hcs : ∀ d ∈ cs, d.Valid)
    (hpaid : p.pays c = paid c) : (p.after c).past paid cs = p.past paid (c :: cs) := by
  have hr := hp.reserve_nonneg
  have hlost := hc.lost_nonneg
  have hlosses := Claim.sum_lost_nonneg hcs
  unfold past after
  simp only [List.map_cons, List.sum_cons, hpaid]
  congr 1 <;> omega

/-- Redemptions are paid one after another what `paid` says exactly if each is
so past the ones before it. -/
theorem payouts_eq_map_iff (hp : p.Valid) (hcs : ∀ d ∈ cs, d.Valid) :
    p.payouts cs = cs.map paid ↔
      ∀ before c rest, before ++ c :: rest = cs → (p.past paid before).pays c = paid c := by
  induction cs generalizing p with
  | nil =>
    refine ⟨fun _ before c rest h => ?_, fun _ => rfl⟩
    exact absurd h (List.append_ne_nil_of_right_ne_nil before (List.cons_ne_nil c rest))
  | cons d cs ih =>
    have hd := hcs d List.mem_cons_self
    have htail : ∀ e ∈ cs, e.Valid := fun e he => hcs e (List.mem_cons_of_mem d he)
    have hrest := ih (hp.after hd) htail
    rw [payouts, List.map_cons, List.cons.injEq, hrest]
    constructor
    · rintro ⟨hfirst, hlater⟩ (_ | ⟨e, before⟩) c rest h
      · obtain ⟨rfl, rfl⟩ := List.cons.inj h
        rw [past_nil hp]
        exact hfirst
      · obtain ⟨rfl, rfl⟩ := List.cons.inj h
        have hbefore : ∀ x ∈ before, x.Valid :=
          fun x hx => htail x (List.mem_append_left _ hx)
        rw [← past_cons hp hd hbefore hfirst]
        exact hlater before c rest rfl
    · intro h
      have hfirst : p.pays d = paid d := by
        have hnow := h [] d cs rfl
        rwa [past_nil hp] at hnow
      refine ⟨hfirst, fun before c rest hsplit => ?_⟩
      have hbefore : ∀ x ∈ before, x.Valid :=
        fun x hx => htail x (hsplit ▸ List.mem_append_left _ hx)
      rw [past_cons hp hd hbefore hfirst]
      exact h (d :: before) c rest (by rw [← hsplit]; rfl)

/-- Steady redemptions are all paid in any order what they would be paid first. -/
theorem Steady.payouts_eq (hp : p.Valid) (hds : ∀ d ∈ ds, d.Valid) (h : p.Steady cs)
    (hperm : ds.Perm cs) : p.payouts ds = ds.map p.pays := by
  refine (payouts_eq_map_iff hp hds).mpr fun before c rest hsplit => ?_
  subst hsplit
  have hmem : c ∈ before ++ c :: rest := List.mem_append_right _ List.mem_cons_self
  obtain hnet | hnet := c.net_nonneg.eq_or_lt
  · rw [pays_of_net hnet.symm, pays_of_net hnet.symm]
  · have hothers : (before ++ rest).Perm (cs.erase c) :=
      List.perm_cons c |>.mp ((List.perm_middle.symm.trans hperm).trans
        (List.perm_cons_erase (hperm.mem_iff.mp hmem)))
    obtain ⟨others, hsame, hsub⟩ :=
      (List.sublist_append_left before rest).subperm.trans hothers.subperm
    rw [past_perm p p.pays hsame.symm]
    exact h c (hperm.mem_iff.mp hmem) hnet others (List.mem_sublists.mpr hsub)

/-- Redemptions are steady if each is paid in any order what it would be paid first. -/
theorem steady_of_payouts (hp : p.Valid) (hcs : ∀ c ∈ cs, c.Valid)
    (h : ∀ ds : List Claim, ds.Perm cs → p.payouts ds = ds.map p.pays) : p.Steady cs := by
  intro c hc _ others hothers
  obtain ⟨rest, hrest⟩ := (List.mem_sublists.mp hothers).exists_perm_append
  have hperm : (others ++ c :: rest).Perm cs :=
    List.perm_middle.trans ((hrest.symm.cons c).trans (List.perm_cons_erase hc).symm)
  have hvalid : ∀ d ∈ others ++ c :: rest, d.Valid := fun d hd => hcs d (hperm.mem_iff.mp hd)
  exact (payouts_eq_map_iff hp hvalid).mp (h _ hperm) others c rest rfl

end Pool

end DikeProtocol.Vault
