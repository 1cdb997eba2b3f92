import DikeProtocol.Vault.Books

/-!
# What the vault's internal functions leave alone

Settling debts, defaults, deposits, sales and redemptions never touch the
vault's wiring or the locked bonds.
-/

namespace DikeProtocol.Vault

open Lib

/-- Two vaults with the same administration, wiring and bonds. -/
structure Frame (v v' : VaultState) : Prop where
  admin : v'.admin = v.admin
  roles : v'.roles = v.roles
  treasury : v'.treasury = v.treasury
  bond : v'.bond = v.bond
  bondToken : v'.bondToken = v.bondToken
  bondMarket : v'.bondMarket = v.bondMarket
  paused : v'.paused = v.paused

namespace Frame

variable {v v' v'' : VaultState}

/-- Doing nothing leaves the frame alone. -/
theorem refl (v : VaultState) : Frame v v := ⟨rfl, rfl, rfl, rfl, rfl, rfl, rfl⟩

/-- One function after another leaves the frame alone when both do. -/
theorem trans (h : Frame v v') (h' : Frame v' v'') : Frame v v'' :=
  ⟨h'.admin.trans h.admin, h'.roles.trans h.roles, h'.treasury.trans h.treasury,
    h'.bond.trans h.bond, h'.bondToken.trans h.bondToken, h'.bondMarket.trans h.bondMarket,
    h'.paused.trans h.paused⟩

/-- The same, read backwards. -/
theorem after (h' : Frame v' v'') (h : Frame v v') : Frame v v'' := h.trans h'

/-- Settling a child debt leaves the frame alone. -/
theorem settleChildDebt {c : MarketId} {u : Address} {r x : ℤ}
    (h : settleChildDebt v c u r = .ok (x, v')) : Frame v v' := by
  obtain ⟨_, rfl, _⟩ | ⟨_, rfl, _, _⟩ | ⟨_, _, _, rfl⟩ | ⟨_, _, _, _, rfl⟩ :=
    settleChildDebt_cases h
  · exact refl _
  · exact ⟨rfl, rfl, rfl, rfl, rfl, rfl, rfl⟩
  · exact ⟨rfl, rfl, rfl, rfl, rfl, rfl, rfl⟩
  · exact ⟨rfl, rfl, rfl, rfl, rfl, rfl, rfl⟩

/-- Paying down the children of a stake leaves the frame alone. -/
theorem settleChildren (children : List MarketId) {u : Address} {pool pool' paid paid' : ℤ}
    (h : settleChildren v u pool paid children = .ok (pool', paid', v')) : Frame v v' := by
  refine settleChildren_keeps (I := fun s => Frame v s) ?_ children h (refl v)
  intro _ _ _ _ _ h1 hs
  exact hs.trans (settleChildDebt h1)

/-- A default leaves the frame alone. -/
theorem resolveParentDefault {p : MarketId} {u : Address} {o : Outcome} {x : ℤ}
    (h : resolveParentDefault v p u o x = .ok v') : Frame v v' := by
  unfold Vault.resolveParentDefault at h
  split at h
  · obtain rfl := ok_ok.mp h
    exact refl _
  · obtain ⟨_, _, h⟩ := bind_ok.mp h
    obtain ⟨_, _, h⟩ := bind_ok.mp h
    obtain ⟨⟨reserve, parent⟩, _, h⟩ := bind_ok.mp h
    obtain ⟨_, _, h⟩ := bind_ok.mp h
    obtain ⟨_, _, _, rfl, _⟩ := clearChildDebts_ok _ h
    exact ⟨rfl, rfl, rfl, rfl, rfl, rfl, rfl⟩

/-- A default that only happens on a condition leaves the frame alone. -/
theorem default_if {c : Prop} [Decidable c] {p : MarketId} {u : Address} {o : Outcome} {x : ℤ}
    (h : (if c then Vault.resolveParentDefault v p u o x else .ok v) = .ok v') : Frame v v' := by
  split at h
  · exact resolveParentDefault h
  · obtain rfl := ok_ok.mp h
    exact refl _

/-- Booking a withheld claim leaves the frame alone. -/
theorem restoreWithheld {m : MarketId} {u : Address} {o : Outcome} {x : ℤ}
    (h : restoreWithheld v m u o x = .ok v') : Frame v v' := by
  unfold Vault.restoreWithheld at h
  split at h
  · obtain ⟨v1, h1, h⟩ := bind_ok.mp h
    rw [creditRepayment_ok h, releaseChildUsed_ok h1]
    exact ⟨rfl, rfl, rfl, rfl, rfl, rfl, rfl⟩
  · obtain rfl := ok_ok.mp h
    exact refl _

/-- Withholding a claim leaves the frame alone. -/
theorem withholdParentDebt {m : MarketId} {u : Address} {o : Outcome} {g claim x : ℤ}
    (h : withholdParentDebt v m u o g claim = .ok (x, v')) : Frame v v' := by
  unfold Vault.withholdParentDebt at h
  dsimp only at h
  split at h
  · obtain ⟨_, _, h⟩ := bind_ok.mp h
    obtain ⟨v1, h1, h⟩ := bind_ok.mp h
    obtain ⟨v2, h2, h⟩ := bind_ok.mp h
    obtain ⟨_, rfl⟩ := Prod.mk.inj (pure_ok.mp h)
    have hmid := restoreWithheld h1
    exact (hmid.trans (default_if h2)).after ⟨rfl, rfl, rfl, rfl, rfl, rfl, rfl⟩
  · obtain ⟨_, rfl⟩ := Prod.mk.inj (ok_ok.mp h)
    exact refl _

/-- A deposit leaves the frame alone. -/
theorem recordDeposit {m : MarketId} {x : ℤ} (h : recordDeposit v m x = .ok v') : Frame v v' := by
  rw [recordDeposit_ok h]
  exact ⟨rfl, rfl, rfl, rfl, rfl, rfl, rfl⟩

/-- Taking proceeds out leaves the frame alone. -/
theorem extractProceeds {m : MarketId} {u : Address} {o : Outcome} {sold x : ℤ}
    (h : extractProceeds v m u o sold x = .ok v') : Frame v v' := by
  obtain ⟨_, _, rfl⟩ := extractProceeds_ok h
  exact ⟨rfl, rfl, rfl, rfl, rfl, rfl, rfl⟩

/-- A new loan leaves the frame alone. -/
theorem recordLoan {u : Address} {p c : MarketId} {po co : Outcome} {x : ℤ}
    (h : recordLoan v u p po c co x = .ok v') : Frame v v' := by
  obtain ⟨_, _, _, _, _, _, rfl⟩ := recordLoan_ok h
  exact ⟨rfl, rfl, rfl, rfl, rfl, rfl, rfl⟩

/-- Moving backing between markets leaves the frame alone. -/
theorem reallocateBacking {p c : MarketId} {x : ℤ}
    (h : reallocateBacking v p c x = .ok v') : Frame v v' :=
  (recordDeposit (reallocateBacking_ok h)).after ⟨rfl, rfl, rfl, rfl, rfl, rfl, rfl⟩

/-- Settling upstream out of a claim leaves the frame alone. -/
theorem repayUpstream {m : MarketId} {u : Address} {claim x : ℤ}
    (h : repayUpstream v m u claim = .ok (x, v')) : Frame v v' := by
  unfold Vault.repayUpstream at h
  obtain ⟨⟨x1, v1⟩, h1, h⟩ := bind_ok.mp h
  dsimp only at h
  split at h
  · obtain ⟨_, _, h⟩ := bind_ok.mp h
    obtain ⟨_, rfl⟩ := Prod.mk.inj (pure_ok.mp h)
    exact trans (settleChildDebt h1) ⟨rfl, rfl, rfl, rfl, rfl, rfl, rfl⟩
  · obtain ⟨_, rfl⟩ := Prod.mk.inj (pure_ok.mp h)
    exact settleChildDebt h1

/-- Folding the dust carry leaves the frame alone. -/
theorem refundWithCarry {m : MarketId} {amount x : ℤ}
    (h : refundWithCarry v m amount = .ok (x, v')) : Frame v v' := by
  unfold Vault.refundWithCarry at h
  obtain ⟨_, _, h⟩ := bind_ok.mp h
  obtain ⟨_, _, h⟩ := bind_ok.mp h
  obtain ⟨_, _, h⟩ := bind_ok.mp h
  obtain ⟨_, _, h⟩ := bind_ok.mp h
  obtain ⟨_, rfl⟩ := Prod.mk.inj (pure_ok.mp h)
  exact ⟨rfl, rfl, rfl, rfl, rfl, rfl, rfl⟩

/-- Valuing redeemed tokens leaves the frame alone. -/
theorem grossPayout {m : MarketId} {final o : Outcome} {amount x : ℤ}
    (h : grossPayout v m final o amount = .ok (x, v')) : Frame v v' := by
  unfold Vault.grossPayout at h
  cases final with
  | invalid => exact refundWithCarry h
  | yes =>
    obtain ⟨_, rfl⟩ := Prod.mk.inj (ok_ok.mp h)
    exact refl _
  | no =>
    obtain ⟨_, rfl⟩ := Prod.mk.inj (ok_ok.mp h)
    exact refl _

/-- The debts of a resolved redemption leave the frame alone. -/
theorem settleResolved {m : MarketId} {u : Address} {final o : Outcome} {amount gross payout : ℤ}
    (h : settleResolved v m u final o amount = .ok (gross, payout, v')) : Frame v v' := by
  unfold Vault.settleResolved at h
  obtain ⟨⟨x, v1⟩, hgross, h⟩ := bind_ok.mp h
  obtain ⟨v2, hadd, h⟩ := bind_ok.mp h
  obtain ⟨⟨paid, v3⟩, hup, h⟩ := bind_ok.mp h
  obtain ⟨_, _, h⟩ := bind_ok.mp h
  obtain ⟨⟨withheld, v4⟩, hwith, h⟩ := bind_ok.mp h
  obtain ⟨_, _, h⟩ := bind_ok.mp h
  obtain ⟨_, _, h⟩ := bind_ok.mp h
  obtain ⟨_, hrest⟩ := Prod.mk.inj (pure_ok.mp h)
  obtain ⟨_, rfl⟩ := Prod.mk.inj hrest
  unfold addRedeemed at hadd
  obtain ⟨_, _, hadd⟩ := bind_ok.mp hadd
  obtain rfl := pure_ok.mp hadd
  have hmid : Frame v1 v3 := (repayUpstream hup).after ⟨rfl, rfl, rfl, rfl, rfl, rfl, rfl⟩
  exact (grossPayout hgross).trans (hmid.trans (withholdParentDebt hwith))

/-- The debts of a cancelled redemption leave the frame alone. -/
theorem settleCancelled {m : MarketId} {u : Address} {o : Outcome} {amount payout : ℤ}
    (h : settleCancelled v m u o amount = .ok (payout, v')) : Frame v v' := by
  unfold Vault.settleCancelled at h
  obtain ⟨⟨x, v1⟩, hrefund, h⟩ := bind_ok.mp h
  obtain ⟨⟨withheld, v2⟩, hwith, h⟩ := bind_ok.mp h
  obtain ⟨_, _, h⟩ := bind_ok.mp h
  obtain ⟨_, _, h⟩ := bind_ok.mp h
  obtain ⟨_, rfl⟩ := Prod.mk.inj (pure_ok.mp h)
  exact (refundWithCarry hrefund).trans (withholdParentDebt hwith)

/-- Retiring a claim leaves the frame alone. -/
theorem retireClaim {m : MarketId} {u : Address} {o : Outcome} {x : ℤ}
    (h : retireClaim v m u o x = .ok v') : Frame v v' := by
  unfold Vault.retireClaim at h
  split at h
  · obtain ⟨_, _, h⟩ := bind_ok.mp h
    obtain ⟨_, _, h⟩ := bind_ok.mp h
    obtain rfl := pure_ok.mp h
    exact ⟨rfl, rfl, rfl, rfl, rfl, rfl, rfl⟩
  · obtain rfl := ok_ok.mp h
    exact refl _

end Frame

end DikeProtocol.Vault
