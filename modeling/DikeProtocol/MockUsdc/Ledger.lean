import DikeProtocol.Deployment
import DikeProtocol.Lib.Within
import DikeProtocol.MockUsdc

/-!
# The ledger of the mock token

The balances of every run add up to the total supply and what was moved from
addresses to themselves. A holder who does not sign loses no more than was
approved. Where nobody moves anything to himself, the token is one of those the
contracts assume: its transfers are transfers of the bank.
-/

namespace DikeProtocol.MockUsdc

open Lib

/-- An invocation of the token. -/
structure UsdcStep where
  ctx : Ctx
  op : UsdcOp

/-- Runs of the token, invoked by anyone. -/
def usdcSystem : System UsdcState UsdcStep Fault where
  Init := fun u => ∃ admin, u = freshUsdc admin
  step := fun u step => step.op.exec step.ctx u

/-- The tally of all balances. -/
def balances : Tally Address ℤ ℤ := Tally.over fun _ => True

/-- The tally of what a holder approved. -/
def approvals (holder : Address) : Tally (Address × Address) ℤ ℤ := Tally.over fun k => k.1 = holder

/-- What an invocation moves from an address to itself. -/
def UsdcOp.selfMoved : UsdcOp → ℤ
  | transfer holder recipient amount => if holder = recipient then amount else 0
  | transferFrom _ holder recipient amount => if holder = recipient then amount else 0
  | _ => 0

/-- Runs of the token, with the total of what was moved from addresses to themselves. -/
def movingSystem : System (UsdcState × ℤ) UsdcStep Fault :=
  usdcSystem.observed 0 fun moved step => moved + step.op.selfMoved

section Steps

variable {ctx : Ctx} {u u' : UsdcState} {op : UsdcOp} {holder : Address}

/-- The total of all balances after a move. -/
theorem total_movedTo (balance : Store Address ℤ) (a b : Address) (x : ℤ) :
    (movedTo balance a b x).total balances = balance.total balances + if a = b then x else 0 := by
  unfold movedTo balances
  rw [Store.total_set, Store.total_set, Store.set_get]
  simp only [Tally.over_weight, if_true]
  split
  · next heq =>
    rw [heq, if_pos rfl]
    ring
  · next hne =>
    rw [if_neg (Ne.symm hne)]
    ring

/-- A move leaves no balance negative. -/
theorem movedTo_nonneg {balance : Store Address ℤ} {a b : Address} {x : ℤ}
    (hbalance : ∀ c, 0 ≤ balance c) (hx : 0 < x) (hheld : x ≤ balance a) (c : Address) :
    0 ≤ movedTo balance a b x c := by
  have hc := hbalance c
  rw [movedTo_get]
  split
  · omega
  · split
    · next heq =>
      rw [heq]
      omega
    · exact hc

/-- What a positive amount adds to the total of moves to oneself. -/
theorem selfMoved_nonneg {a b : Address} {x : ℤ} (hx : 0 < x) : 0 ≤ if a = b then x else 0 := by
  split <;> omega

/-- What the books of the token say. -/
structure Booked (u : UsdcState) (moved : ℤ) : Prop where
  balance_nonneg : ∀ a, 0 ≤ u.balance a
  allowance_nonneg : ∀ k, 0 ≤ u.allowance k
  moved_nonneg : 0 ≤ moved
  supply_le : u.totalSupply ≤ i128Max
  total : u.balance.total balances = u.totalSupply + moved

/-- Every invocation keeps the books. -/
theorem Booked.step {moved : ℤ} (hu : Booked u moved) (h : Writes ctx u op u') :
    Booked u' (moved + op.selfMoved) := by
  have htotal := hu.total
  cases h with
  | setAdmin => exact { hu with moved_nonneg := by simpa [UsdcOp.selfMoved] using hu.moved_nonneg
                                total := by simpa [UsdcOp.selfMoved] using htotal }
  | upgrade => simpa [UsdcOp.selfMoved] using hu
  | @mint recipient x hx hfits =>
    refine { balance_nonneg := fun a => ?_, allowance_nonneg := hu.allowance_nonneg,
             moved_nonneg := ?_, supply_le := hfits, total := ?_ }
    · have ha := hu.balance_nonneg a
      rw [Store.set_get]
      split
      · next heq =>
        rw [← heq]
        omega
      · exact ha
    · simpa [UsdcOp.selfMoved] using hu.moved_nonneg
    · rw [Store.total_set, htotal]
      simp only [balances, Tally.over_weight, if_true, UsdcOp.selfMoved]
      ring
  | @burn holder x _ hx hheld =>
    have hle := hu.supply_le
    refine { balance_nonneg := fun a => ?_, allowance_nonneg := hu.allowance_nonneg,
             moved_nonneg := ?_, supply_le := ?_, total := ?_ }
    · have ha := hu.balance_nonneg a
      rw [Store.set_get]
      split
      · omega
      · exact ha
    · simpa [UsdcOp.selfMoved] using hu.moved_nonneg
    · dsimp only
      omega
    · rw [Store.total_set, htotal]
      simp only [balances, Tally.over_weight, if_true, UsdcOp.selfMoved]
      ring
  | @move holder recipient x _ hx hheld =>
    refine { balance_nonneg := movedTo_nonneg hu.balance_nonneg hx hheld,
             allowance_nonneg := hu.allowance_nonneg, moved_nonneg := ?_,
             supply_le := hu.supply_le, total := ?_ }
    · exact add_nonneg hu.moved_nonneg (selfMoved_nonneg hx)
    · rw [total_movedTo, htotal, add_assoc]
      rfl
  | @approve holder spender x _ _ hx =>
    refine { hu with allowance_nonneg := fun k => ?_, moved_nonneg := ?_, total := ?_ }
    · have hk := hu.allowance_nonneg k
      rw [Store.set_get]
      split
      · exact hx
      · exact hk
    · simpa [UsdcOp.selfMoved] using hu.moved_nonneg
    · simpa [UsdcOp.selfMoved] using htotal
  | @spend spender holder recipient x _ hx hallowed hheld =>
    refine { balance_nonneg := movedTo_nonneg hu.balance_nonneg hx hheld,
             allowance_nonneg := fun k => ?_, moved_nonneg := ?_, supply_le := hu.supply_le,
             total := ?_ }
    · have hk := hu.allowance_nonneg k
      rw [Store.set_get]
      split
      · omega
      · exact hk
    · exact add_nonneg hu.moved_nonneg (selfMoved_nonneg hx)
    · rw [total_movedTo, htotal, add_assoc]
      rfl

/-- What somebody else's invocations leave a holder. -/
structure Spared (holder : Address) (u u' : UsdcState) : Prop where
  allowance_le : ∀ spender, u'.allowance (holder, spender) ≤ u.allowance (holder, spender)
  balance_le : u.balance holder - u.allowance.total (approvals holder) ≤
    u'.balance holder - u'.allowance.total (approvals holder)

instance (holder : Address) : IsTrans UsdcState (Spared holder) :=
  ⟨fun _ _ _ h h' => ⟨fun spender => (h'.allowance_le spender).trans (h.allowance_le spender),
    h.balance_le.trans h'.balance_le⟩⟩

/-- Nothing spares everybody. -/
theorem Spared.refl (holder : Address) (u : UsdcState) : Spared holder u u :=
  ⟨fun _ => le_rfl, le_rfl⟩

/-- Balances that do not fall, with the same allowances. -/
theorem Spared.balance (hallowance : u'.allowance = u.allowance)
    (hbalance : u.balance holder ≤ u'.balance holder) : Spared holder u u' := by
  constructor
  · intro spender
    rw [hallowance]
  · rw [hallowance]
    omega

/-- An allowance that falls by what the move takes at most. -/
theorem Spared.spend {spender a : Address} {x : ℤ} (hx : 0 ≤ x)
    (hallowance : u'.allowance = u.allowance.set (a, spender) (u.allowance (a, spender) - x))
    (hbalance : u.balance holder - (if a = holder then x else 0) ≤ u'.balance holder) :
    Spared holder u u' := by
  constructor
  · intro other
    rw [hallowance, Store.set_get]
    split
    · next heq =>
      rw [heq]
      omega
    · exact le_rfl
  · rw [hallowance, Store.total_set]
    simp only [approvals, Tally.over_weight]
    split <;> rename_i heq
    · rw [if_pos heq] at hbalance
      omega
    · rw [if_neg heq] at hbalance
      omega

/-- An invocation that a holder does not authorize spares him. -/
theorem Writes.spares (h : Writes ctx u op u') (hn : ¬Authorized ctx holder) :
    Spared holder u u' := by
  cases h with
  | setAdmin => exact .balance rfl le_rfl
  | upgrade => exact .refl holder u
  | @mint recipient x hx =>
    refine .balance rfl ?_
    dsimp only
    rw [Store.set_get]
    split
    · next heq =>
      rw [heq]
      omega
    · exact le_rfl
  | @burn other x hauth =>
    refine .balance rfl ?_
    have hne : holder ≠ other := fun heq => hn (heq ▸ hauth)
    dsimp only
    rw [Store.set_get_of_ne _ _ hne]
  | @move other recipient x hauth hx =>
    refine .balance rfl ?_
    have hne : holder ≠ other := fun heq => hn (heq ▸ hauth)
    dsimp only
    rw [movedTo_get, if_neg hne]
    split <;> omega
  | @approve other spender x _ hauth =>
    have hne : other ≠ holder := fun heq => hn (heq ▸ hauth)
    constructor
    · intro s
      dsimp only
      rw [Store.set_get_of_ne _ _ (fun hk => hne (Prod.mk.inj hk).1.symm)]
    · dsimp only
      rw [Store.total_set]
      simp only [approvals, Tally.over_weight, if_neg hne]
      omega
  | @spend spender other recipient x _ hx =>
    refine .spend hx.le rfl ?_
    dsimp only
    rw [movedTo_get]
    split
    · split <;> omega
    · next hne =>
      rw [if_neg (Ne.symm hne)]
      split <;> omega

end Steps

section Runs

variable {u u' : UsdcState}

/-- A new token's books are empty. -/
theorem booked_fresh (admin : Address) : Booked (freshUsdc admin) 0 where
  balance_nonneg := fun _ => le_rfl
  allowance_nonneg := fun _ => le_rfl
  moved_nonneg := le_rfl
  supply_le := by
    change (0 : ℤ) ≤ i128Max
    decide
  total := rfl

/-- In every run, balances and allowances are never negative, and the balances
add up to the total supply and whatever was moved from an address to itself. -/
theorem balances_exceed_supply {s : UsdcState × ℤ} (h : movingSystem.Reachable s) :
    (∀ a, 0 ≤ s.1.balance a) ∧ (∀ k, 0 ≤ s.1.allowance k) ∧ 0 ≤ s.2 ∧
      s.1.balance.total balances = s.1.totalSupply + s.2 := by
  have hbooked : Booked s.1 s.2 := by
    refine h.invariant (I := fun s => Booked s.1 s.2) ?_ ?_
    · rintro ⟨u, moved⟩ ⟨⟨admin, rfl⟩, rfl⟩
      exact booked_fresh admin
    · intro s step s' hs _ hstep
      obtain ⟨hexec, hmoved⟩ := System.observed_step.mp hstep
      rw [hmoved]
      exact hs.step (UsdcOp.exec_writes hexec)
  exact ⟨hbooked.balance_nonneg, hbooked.allowance_nonneg, hbooked.moved_nonneg, hbooked.total⟩

/-- Alice gets 100, and moves 60 of them to herself. -/
def doubled : List UsdcStep :=
  [⟨bySigner (.account 1), .mint alice 100⟩, ⟨bySigner alice, .transfer alice alice 60⟩]

/-- Afterwards she has 160 of a supply of 100. -/
theorem balances_exceed_supply_sample : ∃ s, movingSystem.runs (freshUsdc (.account 1), 0) doubled =
    .ok s ∧ s.1.balance alice = 160 ∧ s.1.totalSupply = 100 ∧
      s.1.balance.total balances = s.1.totalSupply + 60 := by
  obtain ⟨s, hs, hp⟩ := System.runs_of_decide (S := movingSystem) (freshUsdc (.account 1), 0)
    doubled (fun s => s.1.balance alice = 160 ∧ s.1.totalSupply = 100 ∧ s.2 = 60)
    (by decide +kernel)
  obtain ⟨hbalance, hsupply, hmoved⟩ := of_decide_eq_true hp
  have hreach := System.Reachable.runs (S := movingSystem) (.init ⟨⟨.account 1, rfl⟩, rfl⟩)
    doubled hs
  have hlaw := (balances_exceed_supply hreach).2.2.2
  rw [hmoved] at hlaw
  exact ⟨s, hs, hbalance, hsupply, hlaw⟩

/-- Every run keeps the books. -/
theorem booked_of_run (h : usdcSystem.Reachable u) : ∃ moved, Booked u moved := by
  refine h.invariant (I := fun u => ∃ moved, Booked u moved) ?_ ?_
  · rintro u ⟨admin, rfl⟩
    exact ⟨0, booked_fresh admin⟩
  · rintro u step u' ⟨moved, hu⟩ _ hstep
    exact ⟨_, hu.step (UsdcOp.exec_writes hstep)⟩

/-- However long a holder authorizes nothing, no allowance he gave grows, and
he loses at most what is missing from them, so never more than their total. -/
theorem holder_keeps {holder : Address} (hreach : usdcSystem.Reachable u)
    (h : usdcSystem.Path (fun _ step => ¬Authorized step.ctx holder) u u') :
    (∀ spender, u'.allowance (holder, spender) ≤ u.allowance (holder, spender)) ∧
      u.balance holder - u'.balance holder ≤
        u.allowance.total (approvals holder) - u'.allowance.total (approvals holder) ∧
      u.balance holder - u'.balance holder ≤ u.allowance.total (approvals holder) := by
  have hspared : Spared holder u u' := h.within (Spared.refl holder)
    fun _ _ hn _ hstep => (UsdcOp.exec_writes hstep).spares hn
  have hreach' : usdcSystem.Reachable u' := h.reachable hreach
  obtain ⟨moved, hbooked⟩ := booked_of_run hreach'
  have hleft : 0 ≤ u'.allowance.total (approvals holder) := by
    refine Store.total_nonneg _ _ fun k => ?_
    have hk := hbooked.allowance_nonneg k
    simp only [approvals, Tally.over_weight]
    split
    · exact hk
    · exact le_rfl
  have hloss := hspared.balance_le
  exact ⟨hspared.allowance_le, by omega, by omega⟩

/-- Alice holds 100 and lets bob move 70 of them. -/
def approved : List UsdcStep :=
  [⟨bySigner (.account 1), .mint alice 100⟩, ⟨bySigner alice, .approve alice bob 70 0⟩]

/-- Bob takes 30. -/
def bobTakes : UsdcStep := ⟨bySigner bob, .transferFrom bob alice bob 30⟩

/-- She loses the 30 that are missing from his allowance, and no more than 70. -/
theorem holder_keeps_sample : ∃ u u', usdcSystem.runs (freshUsdc (.account 1)) approved = .ok u ∧
    usdcSystem.step u bobTakes = .ok u' ∧ u'.balance alice = 70 ∧
      u.balance alice - u'.balance alice ≤ u.allowance.total (approvals alice) := by
  obtain ⟨u, hu, hp⟩ := System.runs_of_decide (S := usdcSystem) (freshUsdc (.account 1)) approved
    (fun u => okWith (usdcSystem.step u bobTakes) fun u' => u'.balance alice = 70)
    (by decide +kernel)
  obtain ⟨u', hstep, htaken⟩ := okWith_iff.mp hp
  have hreach := System.Reachable.runs (S := usdcSystem) (.init ⟨.account 1, rfl⟩) approved hu
  have hpath : usdcSystem.Path (fun _ step => ¬Authorized step.ctx alice) u u' :=
    .next .refl (by unfold Authorized; decide) hstep
  exact ⟨u, u', hu, hstep, of_decide_eq_true htaken, (holder_keeps hreach hpath).2.2⟩

/-- Where nobody moves anything to himself, the balances add up to the supply. -/
theorem booked_of_no_selfMove
    (h : usdcSystem.Guarded (fun _ step => step.op.selfMoved = 0) u) : Booked u 0 := by
  refine h.invariant (I := fun u => Booked u 0) ?_ ?_
  · rintro u ⟨admin, rfl⟩
    exact booked_fresh admin
  · intro u step u' hu hok hstep
    have hnext := hu.step (UsdcOp.exec_writes hstep)
    rw [hok] at hnext
    exact hnext

/-- Two holders together hold no more than the supply. -/
theorem Booked.pair_le (h : Booked u 0) {a b : Address} (hne : a ≠ b) :
    u.balance a + u.balance b ≤ i128Max := by
  have hsum := u.balance.sum_le_total balances (fun a => by
    simp only [balances, Tally.over_weight, if_true]
    exact h.balance_nonneg a) {a, b}
  rw [Finset.sum_pair hne, h.total, add_zero] at hsum
  exact hsum.trans h.supply_le

/-- The bank says of a token what the token's contract stores. -/
def Matches (bank : Bank) (token : Asset) (u : UsdcState) : Prop :=
  ∀ a, bank.bal token a = u.balance a

/-- The balances of one token, as a bank keeps them. -/
def bankBalance (u : UsdcState) (token : Asset) : Store (Asset × Address) ℤ where
  get := fun k => if k.1 = token then u.balance k.2 else 0
  written := u.balance.written.image fun a => (token, a)
  get_unwritten := by
    intro k hk
    split
    · next heq =>
      refine u.balance.get_unwritten k.2 fun hmem => hk ?_
      rw [Finset.mem_image]
      exact ⟨k.2, hmem, by rw [← heq]⟩
    · rfl

/-- The token is the only one that has a supply there. -/
theorem bankBalance_supply (u : UsdcState) (token t : Asset) :
    (bankBalance u token).total (supplyOf t) =
      if token = t then u.balance.total balances else 0 := by
  have himage : (bankBalance u token).total (supplyOf t) =
      ∑ a ∈ u.balance.written, (supplyOf t).weight (token, a) (bankBalance u token (token, a)) :=
    Finset.sum_image fun a _ b _ hab => (Prod.mk.inj hab).2
  rw [himage]
  have hweight : ∀ a, (supplyOf t).weight (token, a) (bankBalance u token (token, a)) =
      if token = t then u.balance a else 0 := fun a => by
    change (if token = t then if token = token then u.balance a else 0 else 0) = _
    rw [if_pos rfl]
  simp only [hweight]
  split
  · rfl
  · exact Finset.sum_const_zero

/-- Booked balances are the balances of a bank. -/
theorem Booked.bank (h : Booked u 0) (token : Asset) : ∃ bank, Matches bank token u := by
  refine ⟨⟨bankBalance u token, fun k => ?_, fun t => ?_⟩, fun a => if_pos rfl⟩
  · have hk := h.balance_nonneg k.2
    change 0 ≤ if k.1 = token then u.balance k.2 else 0
    split
    · exact hk
    · exact le_rfl
  · rw [bankBalance_supply]
    split
    · rw [h.total, add_zero]
      exact h.supply_le
    · decide

/-- A transfer between two holders is the bank's transfer. -/
theorem Matches.moved {bank bank' : Bank} {token : Asset} (h : Matches bank token u)
    {holder recipient : Address} {x : ℤ} (hne : holder ≠ recipient)
    (hbank : bank.transfer token holder recipient x = .ok bank') :
    Matches bank' token { u with balance := movedTo u.balance holder recipient x } := by
  intro a
  rw [Bank.transfer_bal hbank, h a]
  dsimp only
  rw [movedTo_get]
  simp only [true_and]
  by_cases ha : a = recipient
  · rw [if_pos ha, if_pos ha, if_neg (fun heq => hne (heq.symm.trans ha))]
    omega
  · rw [if_neg ha, if_neg ha]
    split <;> omega

/-- In every run in which nobody moves anything to himself, the token is one of
those the contracts assume: a bank says of it what it stores, and for every
world whose bank does, a contract's transfer succeeds there exactly when the
token accepts it, and the bank still says what the token stores. -/
theorem refines_bank (h : usdcSystem.Guarded (fun _ step => step.op.selfMoved = 0) u)
    (token : Asset) : (∃ bank, Matches bank token u) ∧
      ∀ (ctx : Ctx) (self : Contract) (w : World) (holder recipient : Address) (x : ℤ),
        Matches w.bank token u → holder ≠ recipient → 0 < x →
        let called := { ctx with callers := .contract self :: ctx.callers }
        (∀ u', transfer called u holder recipient x = .ok u' → ∃ w',
          transferToken ctx self w token holder recipient x = .ok w' ∧ Matches w'.bank token u') ∧
        ∀ w', transferToken ctx self w token holder recipient x = .ok w' → ∃ u',
          transfer called u holder recipient x = .ok u' ∧ Matches w'.bank token u' := by
  have hbooked := booked_of_no_selfMove h
  refine ⟨hbooked.bank token, fun ctx self w holder recipient x hw hne hx => ⟨?_, ?_⟩⟩
  · intro u' hu'
    obtain ⟨hauth, _, hheld, _, _, rfl⟩ := transfer_ok.mp hu'
    obtain ⟨bank, hbank⟩ : ∃ bank, w.bank.transfer token holder recipient x = .ok bank :=
      Bank.transfer_of_held hx.le (hheld.trans_eq (hw holder).symm)
    refine ⟨_, transferToken_ok.mpr ⟨?_, bank, hbank, rfl⟩, hw.moved hne hbank⟩
    exact hauth.imp id fun hcaller => (Option.some.inj hcaller).symm
  · intro w' hw'
    obtain ⟨hauth, bank, hbank, rfl⟩ := transferToken_ok.mp hw'
    have hheld : x ≤ u.balance holder := (Bank.transfer_ok.mp hbank).2.1.trans_eq (hw holder)
    have hpair := hbooked.pair_le hne
    have hholder := hbooked.balance_nonneg holder
    have hrecipient := hbooked.balance_nonneg recipient
    refine ⟨_, transfer_ok.mpr ⟨?_, hx, hheld, ?_, ?_, rfl⟩, hw.moved hne hbank⟩
    · exact hauth.imp id fun heq => congrArg some heq.symm
    · unfold InRange i128Min
      omega
    · unfold InRange i128Min
      omega

/-- Alice gets 100. -/
def minted : List UsdcStep := [⟨bySigner (.account 1), .mint alice 100⟩]

/-- The vault may ask for 40 of them in a world whose bank knows of them. -/
theorem refines_bank_sample : ∃ u w w', usdcSystem.runs (freshUsdc (.account 1)) minted = .ok u ∧
    Matches w.bank sampleToken u ∧
      transferToken (bySigner alice) .vault w sampleToken alice (.contract .vault) 40 = .ok w' ∧
      w'.bank.bal sampleToken alice = 60 := by
  have hquiet : ∀ step ∈ minted, step.op.selfMoved = 0 := by
    simp [minted, UsdcOp.selfMoved]
  obtain ⟨u, hu, hp⟩ := System.runs_of_decide (S := usdcSystem) (freshUsdc (.account 1)) minted
    (fun u => okWith
      (transfer { bySigner alice with callers := [.contract .vault] } u alice (.contract .vault) 40)
      fun u' => u'.balance alice = 60)
    (by decide +kernel)
  obtain ⟨u', hmoved, hleft⟩ := okWith_iff.mp hp
  have hguarded : usdcSystem.Guarded (fun _ step => step.op.selfMoved = 0) u :=
    System.Guarded.runs (.init ⟨.account 1, rfl⟩) minted hquiet hu
  obtain ⟨⟨bank, hbank⟩, hrefines⟩ := refines_bank hguarded sampleToken
  obtain ⟨w', hw', hmatches⟩ := (hrefines (bySigner alice) .vault
    { deploy sampleLaunch with bank := bank } alice (.contract .vault) 40 hbank (by decide)
    (by decide)).1 u' hmoved
  exact ⟨u, _, w', hu, hbank, hw', (hmatches alice).trans (of_decide_eq_true hleft)⟩

end Runs

end DikeProtocol.MockUsdc
