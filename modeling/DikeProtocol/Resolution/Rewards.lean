import DikeProtocol.Resolution.Votes
import Mathlib.Algebra.Order.BigOperators.Group.List

/-!
# Rewards of the council

What was recorded, paid and swept for a case is read off the events of a run.
The voters paid are among those whose vote is the outcome, each takes at most
one share of the pool, and the council keeps what it still owes in each token.
-/

namespace DikeProtocol.Council

open Lib

/-- What an event records for a case. -/
def CouncilEvent.recordedFor (k : ℕ) : CouncilEvent → ℤ
  | .recorded k' amount => if k' = k then amount else 0
  | _ => 0

/-- What an event sweeps from a case. -/
def CouncilEvent.sweptFor (k : ℕ) : CouncilEvent → ℤ
  | .swept k' amount => if k' = k then amount else 0
  | _ => 0

/-- The voter an event pays for a case, and how much. -/
def CouncilEvent.payment (k : ℕ) : CouncilEvent → Option (Address × ℤ)
  | .claimed k' voter payout => if k' = k ∧ 0 < payout then some (voter, payout) else none
  | _ => none

/-- Everything recorded for a case. -/
def recorded (events : List CouncilEvent) (k : ℕ) : ℤ := (events.map (·.recordedFor k)).sum

/-- Everything swept from a case. -/
def swept (events : List CouncilEvent) (k : ℕ) : ℤ := (events.map (·.sweptFor k)).sum

/-- The payments of a case. -/
def payments (events : List CouncilEvent) (k : ℕ) : List (Address × ℤ) :=
  events.filterMap (·.payment k)

/-- Everything paid for a case. -/
def paid (events : List CouncilEvent) (k : ℕ) : ℤ := ((payments events k).map Prod.snd).sum

/-- What is recorded for a case and neither paid nor swept. -/
def remaining (events : List CouncilEvent) (k : ℕ) : ℤ :=
  recorded events k - paid events k - swept events k

/-- What remains of the rewards of all cases in a token. -/
def outstanding (c : CouncilState) (events : List CouncilEvent) (token : Asset) : ℤ :=
  ∑ k ∈ Finset.range c.nextCaseId,
    if c.caseToken k = some token then remaining events k else 0

section Events

variable {events : List CouncilEvent} {k : ℕ}

@[simp] theorem recorded_cons (e : CouncilEvent) :
    recorded (e :: events) k = e.recordedFor k + recorded events k := rfl

@[simp] theorem swept_cons (e : CouncilEvent) :
    swept (e :: events) k = e.sweptFor k + swept events k := rfl

/-- An event that pays nobody for a case adds no payment. -/
theorem payments_cons_none {e : CouncilEvent} (h : e.payment k = none) :
    payments (e :: events) k = payments events k := by
  unfold payments
  rw [List.filterMap_cons_none h]

/-- An event that pays a voter is the latest payment. -/
theorem payments_cons_some {e : CouncilEvent} {p : Address × ℤ} (h : e.payment k = some p) :
    payments (e :: events) k = p :: payments events k := by
  unfold payments
  rw [List.filterMap_cons_some h]

/-- A payment adds its amount. -/
theorem paid_cons_claimed (k' : ℕ) (voter : Address) (payout : ℤ) :
    paid (.claimed k' voter payout :: events) k =
      (if k' = k ∧ 0 < payout then payout else 0) + paid events k := by
  unfold paid
  split
  · next h =>
    have hpay : (CouncilEvent.claimed k' voter payout).payment k = some (voter, payout) := if_pos h
    rw [payments_cons_some hpay, List.map_cons, List.sum_cons]
  · next h =>
    have hpay : (CouncilEvent.claimed k' voter payout).payment k = none := if_neg h
    rw [payments_cons_none hpay, zero_add]

/-- Any other event pays nothing. -/
theorem paid_cons_of_none {e : CouncilEvent} (h : e.payment k = none) :
    paid (e :: events) k = paid events k := by
  unfold paid
  rw [payments_cons_none h]

end Events

section Outstanding

variable {c c' : CouncilState} {events events' : List CouncilEvent}

/-- A change of what remains of one case changes what is outstanding in its token. -/
theorem outstanding_change (htoken : c'.caseToken = c.caseToken)
    (hnext : c'.nextCaseId = c.nextCaseId) {k : ℕ} (hk : k < c.nextCaseId) {delta : ℤ}
    (hchange : ∀ k', remaining events' k' = remaining events k' + if k' = k then delta else 0)
    (token : Asset) : outstanding c' events' token =
      outstanding c events token + if c.caseToken k = some token then delta else 0 := by
  unfold outstanding
  rw [htoken, hnext]
  have hsplit : ∀ k' ∈ Finset.range c.nextCaseId,
      (if c.caseToken k' = some token then remaining events' k' else 0) =
        (if c.caseToken k' = some token then remaining events k' else 0) +
          if k' = k then (if c.caseToken k = some token then delta else 0) else 0 := by
    intro k' _
    rw [hchange]
    by_cases heq : k' = k
    · subst heq
      split <;> simp
    · simp only [heq, if_false, add_zero]
  rw [Finset.sum_congr rfl hsplit, Finset.sum_add_distrib, Finset.sum_ite_eq' _ k,
    if_pos (Finset.mem_range.mpr hk)]

/-- Opening a case nothing was recorded for leaves what is outstanding. -/
theorem outstanding_opens {token' : Asset}
    (htoken : c'.caseToken = c.caseToken.set c.nextCaseId (some token'))
    (hnext : c'.nextCaseId = c.nextCaseId + 1)
    (hnew : remaining events' c.nextCaseId = 0)
    (hsame : ∀ k, remaining events' k = remaining events k) (token : Asset) :
    outstanding c' events' token = outstanding c events token := by
  unfold outstanding
  rw [hnext, Finset.sum_range_succ, hnew, ite_self, add_zero]
  apply Finset.sum_congr rfl
  intro k hk
  have hne : k ≠ c.nextCaseId := (Finset.mem_range.mp hk).ne
  rw [htoken, Store.set_get_of_ne _ _ hne, hsame]

end Outstanding

/-- A share of a pool is never negative. -/
theorem rewardShare_nonneg (pool : ℤ) (votes : ℕ) : 0 ≤ rewardShare pool votes := by
  unfold rewardShare
  split
  · next h => exact Int.tdiv_nonneg h.1.le (by omega)
  · exact le_rfl

/-- Shares of a larger pool are no smaller. -/
theorem rewardShare_mono {pool pool' : ℤ} (h : pool ≤ pool') (votes : ℕ) :
    rewardShare pool votes ≤ rewardShare pool' votes := by
  unfold rewardShare
  by_cases hpos : pool > 0 ∧ votes > 0
  · have hpos' : pool' > 0 ∧ votes > 0 := ⟨hpos.1.trans_le h, hpos.2⟩
    rw [if_pos hpos, if_pos hpos', Int.tdiv_eq_ediv_of_nonneg hpos.1.le,
      Int.tdiv_eq_ediv_of_nonneg hpos'.1.le]
    exact Int.ediv_le_ediv (by omega) h
  · rw [if_neg hpos]
    exact rewardShare_nonneg pool' votes

/-- As many shares as there are votes fit into the pool. -/
theorem rewardShare_fits {pool : ℤ} (hpool : 0 ≤ pool) (votes : ℕ) :
    votes * rewardShare pool votes ≤ pool := by
  unfold rewardShare
  split
  · next h =>
    rw [Int.tdiv_eq_ediv_of_nonneg hpool]
    exact Int.mul_ediv_self_le (by omega)
  · rw [mul_zero]
    exact hpool

/-- What a payment of a case says about a state of the council. -/
def PaidRightly (c : CouncilState) (k : ℕ) (voter : Address) (payout : ℤ) : Prop :=
  0 < payout ∧ c.claimed (k, voter) ≠ none ∧ ∃ case, c.caseData k = some case ∧
    case.hasFinalOutcome = true ∧ c.reveal (k, voter) = some case.finalOutcome ∧
    payout ≤ rewardShare (c.caseRewardPool k) (votesFor case case.finalOutcome)

/-- Pools, payments and events belong together. -/
structure Rewarded (c : CouncilState) (events : List CouncilEvent) : Prop where
  unopened : ∀ k, c.caseToken k = none → recorded events k = 0 ∧ swept events k = 0
  tokens : ∀ k, c.caseData k = none ↔ c.caseToken k = none
  pool : ∀ k, c.caseRewardPool k = recorded events k - swept events k ∧ 0 ≤ c.caseRewardPool k
  paid : ∀ k voter payout, (voter, payout) ∈ payments events k → PaidRightly c k voter payout
  once : ∀ k, ((payments events k).map Prod.fst).Nodup

namespace Rewarded

variable {c : CouncilState} {host : Host} {now : ℕ} {events : List CouncilEvent}

/-- The payments of a case fit into its pool: one share for each voter who
voted with the outcome. -/
theorem paid_le (h : Rewarded c events) (hb : Binding c host now events) (k : ℕ) :
    Council.paid events k ≤ c.caseRewardPool k := by
  cases hpayments : payments events k with
  | nil =>
    unfold Council.paid
    rw [hpayments]
    exact (h.pool k).2
  | cons p rest =>
    have hp : p ∈ payments events k := by
      rw [hpayments]
      exact List.mem_cons_self
    obtain ⟨_, _, case, hcase, _, _, _⟩ := h.paid k p.1 p.2 hp
    have hshare : ∀ x ∈ (payments events k).map Prod.snd,
        x ≤ rewardShare (c.caseRewardPool k) (votesFor case case.finalOutcome) := by
      intro x hx
      obtain ⟨q, hq, rfl⟩ := List.mem_map.mp hx
      obtain ⟨_, _, case', hcase', _, _, hle⟩ := h.paid k q.1 q.2 hq
      rw [hcase] at hcase'
      obtain rfl := Option.some.inj hcase'
      exact hle
    have hvoters : ((payments events k).map Prod.fst).toFinset ⊆
        voters c.reveal k case.finalOutcome := by
      intro voter hvoter
      obtain ⟨q, hq, rfl⟩ := List.mem_map.mp (List.mem_toFinset.mp hvoter)
      obtain ⟨_, _, case', hcase', _, hreveal, _⟩ := h.paid k q.1 q.2 hq
      rw [hcase] at hcase'
      obtain rfl := Option.some.inj hcase'
      exact mem_voters.mpr hreveal
    have hcount : (payments events k).length ≤ votesFor case case.finalOutcome := by
      have hcard := Finset.card_le_card hvoters
      rw [List.toFinset_card_of_nodup (h.once k), List.length_map] at hcard
      rw [(hb.counted k case hcase).1]
      exact hcard
    have hsum := List.sum_le_card_nsmul _ _ hshare
    rw [List.length_map, nsmul_eq_mul] at hsum
    have hnonneg := rewardShare_nonneg (c.caseRewardPool k) (votesFor case case.finalOutcome)
    have hfits := rewardShare_fits (h.pool k).2 (votesFor case case.finalOutcome)
    have hmul : ((payments events k).length : ℤ) *
        rewardShare (c.caseRewardPool k) (votesFor case case.finalOutcome) ≤
        (votesFor case case.finalOutcome : ℤ) *
          rewardShare (c.caseRewardPool k) (votesFor case case.finalOutcome) :=
      mul_le_mul_of_nonneg_right (by exact_mod_cast hcount) hnonneg
    unfold Council.paid
    omega

/-- Where nothing is recorded, paid or swept, the pools stay as they are. -/
theorem unpaid {c' : CouncilState} {e : CouncilEvent} (h : Rewarded c events)
    (he : ∀ k, e.recordedFor k = 0 ∧ e.sweptFor k = 0 ∧ e.payment k = none)
    (hpool : c'.caseRewardPool = c.caseRewardPool)
    (hopened : ∀ k, c'.caseToken k = none → c.caseToken k = none)
    (htokens : ∀ k, c'.caseData k = none ↔ c'.caseToken k = none)
    (hpaid : ∀ k voter payout, (voter, payout) ∈ payments events k →
      PaidRightly c' k voter payout) : Rewarded c' (e :: events) := by
  have hrecorded : ∀ k, recorded (e :: events) k = recorded events k := by
    intro k
    rw [recorded_cons, (he k).1, zero_add]
  have hswept : ∀ k, swept (e :: events) k = swept events k := by
    intro k
    rw [swept_cons, (he k).2.1, zero_add]
  have hpayments : ∀ k, payments (e :: events) k = payments events k :=
    fun k => payments_cons_none (he k).2.2
  refine ⟨?_, htokens, ?_, ?_, ?_⟩
  · intro k hk
    rw [hrecorded, hswept]
    exact h.unopened k (hopened k hk)
  · intro k
    rw [hrecorded, hswept, hpool]
    exact h.pool k
  · intro k voter payout hmem
    rw [hpayments] at hmem
    exact hpaid k voter payout hmem
  · intro k
    rw [hpayments]
    exact h.once k

/-- The voter of a first claim was not paid for that case before. -/
theorem unpaid_of_unclaimed (h : Rewarded c events) {k : ℕ} {voter : Address}
    (hfirst : c.claimed (k, voter) = none) : voter ∉ (payments events k).map Prod.fst := by
  intro hmem
  obtain ⟨⟨v, payout⟩, hp, rfl⟩ := List.mem_map.mp hmem
  exact (h.paid k v payout hp).2.1 hfirst

/-- A first claim pays a share at most, and only for a vote with the outcome. -/
theorem claims {c' : CouncilState} (h : Rewarded c events) {k : ℕ} {voter : Address}
    {case : CouncilCase} {revealed : Outcome} {correct : Bool} (hcase : c.caseData k = some case)
    (hfinal : case.hasFinalOutcome = true) (hreveal : c.reveal (k, voter) = some revealed)
    (hfirst : c.claimed (k, voter) = none)
    (hc : c' = { c with claimed := c.claimed.set (k, voter) (some correct) }) :
    Rewarded c' (.claimed k voter (rewardOf c k case revealed) :: events) := by
  have hold : ∀ k' voter' payout, (voter', payout) ∈ payments events k' →
      PaidRightly c' k' voter' payout := by
    intro k' voter' payout hmem
    obtain ⟨hpos, hclaimed, hrest⟩ := h.paid k' voter' payout hmem
    rw [hc]
    refine ⟨hpos, ?_, hrest⟩
    dsimp only
    rw [Store.set_get]
    split
    · exact nofun
    · exact hclaimed
  have hrecorded : ∀ k', recorded (.claimed k voter (rewardOf c k case revealed) :: events) k' =
      recorded events k' := fun k' => zero_add _
  have hswept : ∀ k', swept (.claimed k voter (rewardOf c k case revealed) :: events) k' =
      swept events k' := fun k' => zero_add _
  have hpayment : ∀ k', payments (.claimed k voter (rewardOf c k case revealed) :: events) k' =
      payments events k' ∨ (k = k' ∧ 0 < rewardOf c k case revealed ∧
        payments (.claimed k voter (rewardOf c k case revealed) :: events) k' =
          (voter, rewardOf c k case revealed) :: payments events k') := by
    intro k'
    by_cases hpays : k = k' ∧ 0 < rewardOf c k case revealed
    · have hsome : (CouncilEvent.claimed k voter (rewardOf c k case revealed)).payment k' =
          some (voter, rewardOf c k case revealed) := if_pos hpays
      exact Or.inr ⟨hpays.1, hpays.2, payments_cons_some hsome⟩
    · have hnone : (CouncilEvent.claimed k voter (rewardOf c k case revealed)).payment k' = none :=
        if_neg hpays
      exact Or.inl (payments_cons_none hnone)
  refine ⟨?_, ?_, ?_, ?_, ?_⟩
  · intro k' hk'
    rw [hrecorded, hswept]
    rw [hc] at hk'
    exact h.unopened k' hk'
  · rw [hc]
    exact h.tokens
  · intro k'
    rw [hrecorded, hswept, hc]
    exact h.pool k'
  · intro k' voter' payout hmem
    rcases hpayment k' with hsame | ⟨rfl, hpos, hnew⟩
    · rw [hsame] at hmem
      exact hold k' voter' payout hmem
    · rw [hnew] at hmem
      rcases List.mem_cons.mp hmem with heq | hmem
      · obtain ⟨rfl, rfl⟩ := Prod.mk.inj heq
        have hright : revealed = case.finalOutcome := by
          by_contra hwrong
          unfold rewardOf at hpos
          rw [if_neg (by simpa using hwrong)] at hpos
          exact lt_irrefl _ hpos
        rw [hc]
        refine ⟨hpos, ?_, case, hcase, hfinal, hright ▸ hreveal, ?_⟩
        · dsimp only
          rw [Store.set_get_self]
          exact nofun
        · unfold rewardOf
          rw [if_pos (decide_eq_true hright)]
      · exact hold k voter' payout hmem
  · intro k'
    rcases hpayment k' with hsame | ⟨rfl, _, hnew⟩
    · rw [hsame]
      exact h.once k'
    · rw [hnew, List.map_cons]
      exact List.nodup_cons.mpr ⟨h.unpaid_of_unclaimed hfirst, h.once k⟩

/-- A move of the pool of an open case by what the event says of it. -/
theorem pools {c' : CouncilState} {e : CouncilEvent} (h : Rewarded c events) {k : ℕ} {pool : ℤ}
    (hpay : ∀ k', e.payment k' = none) (hpool : pool = c.caseRewardPool k + e.recordedFor k -
      e.sweptFor k) (hnonneg : 0 ≤ pool) (hopen : c.caseToken k ≠ none)
    (hother : ∀ k', k' ≠ k → e.recordedFor k' = 0 ∧ e.sweptFor k' = 0)
    (hpaid : c.caseRewardPool k ≤ pool ∨ payments events k = [])
    (hc : c' = { c with caseRewardPool := c.caseRewardPool.set k pool }) :
    Rewarded c' (e :: events) := by
  have hpayments : ∀ k', payments (e :: events) k' = payments events k' :=
    fun k' => payments_cons_none (hpay k')
  refine ⟨?_, ?_, ?_, ?_, ?_⟩
  · intro k' hk'
    rw [hc] at hk'
    have hne : k' ≠ k := by
      rintro rfl
      exact hopen hk'
    obtain ⟨hrecorded, hswept⟩ := h.unopened k' hk'
    rw [recorded_cons, swept_cons, hrecorded, hswept, (hother k' hne).1, (hother k' hne).2]
    exact ⟨rfl, rfl⟩
  · rw [hc]
    exact h.tokens
  · intro k'
    obtain ⟨hbefore, hle⟩ := h.pool k'
    rw [recorded_cons, swept_cons, hc]
    dsimp only
    rw [Store.set_get]
    split
    · next heq =>
      subst heq
      exact ⟨by omega, hnonneg⟩
    · next hne =>
      rw [(hother k' hne).1, (hother k' hne).2]
      exact ⟨by omega, hle⟩
  · intro k' voter payout hmem
    rw [hpayments] at hmem
    obtain ⟨hpos, hclaimed, case, hcase, hfinal, hreveal, hle⟩ := h.paid k' voter payout hmem
    rw [hc]
    refine ⟨hpos, hclaimed, case, hcase, hfinal, hreveal, hle.trans (rewardShare_mono ?_ _)⟩
    dsimp only
    rw [Store.set_get]
    split
    · next heq =>
      subst heq
      rcases hpaid with hgrows | hnone
      · exact hgrows
      · rw [hnone] at hmem
        cases hmem
    · exact le_rfl
  · intro k'
    rw [hpayments]
    exact h.once k'

/-- A case without a right vote has no payments. -/
theorem payments_of_no_votes (h : Rewarded c events) {k : ℕ} {case : CouncilCase}
    (hcase : c.caseData k = some case) (hvotes : votesFor case case.finalOutcome = 0) :
    payments events k = [] := by
  apply List.eq_nil_iff_forall_not_mem.mpr
  rintro ⟨voter, payout⟩ hmem
  obtain ⟨hpos, _, case', hcase', _, _, hle⟩ := h.paid k voter payout hmem
  rw [hcase] at hcase'
  obtain rfl := Option.some.inj hcase'
  rw [hvotes] at hle
  unfold rewardShare at hle
  rw [if_neg (fun hk => lt_irrefl _ hk.2)] at hle
  omega

/-- A case that is not open has no payments. -/
theorem payments_of_unopened (h : Rewarded c events) {k : ℕ} (hcase : c.caseData k = none) :
    payments events k = [] := by
  apply List.eq_nil_iff_forall_not_mem.mpr
  rintro ⟨voter, payout⟩ hmem
  obtain ⟨_, _, case, hopen, _⟩ := h.paid k voter payout hmem
  rw [hcase] at hopen
  cases hopen

/-- Every move of the council keeps pools, payments and events together, when
rewards are recorded for open cases. -/
theorem moves {ctx : Ctx} {w w' : World} {e : CouncilEvent} (h : Rewarded w.council events)
    (hb : Binding w.council w.host now events) (hmove : CouncilMoves ctx w e w')
    (hnow : now ≤ ctx.now)
    (hopened : ∀ k amount, e = .recorded k amount → w.council.caseToken k ≠ none) :
    Rewarded w'.council (e :: events) := by
  -- payments name final cases, and a move keeps these with their votes
  have hkept : w'.council.claimed = w.council.claimed →
      w'.council.caseRewardPool = w.council.caseRewardPool →
      ∀ k voter payout, (voter, payout) ∈ payments events k →
        PaidRightly w'.council k voter payout := by
    intro hclaimed hpool k voter payout hmem
    obtain ⟨hpos, hclaim, case, hcase, hfinal, hreveal, hle⟩ := h.paid k voter payout hmem
    obtain ⟨hsame, hvotes⟩ := hmove.keeps_final hb.ids hcase hfinal
      ((hb.concluded k case hcase hfinal).1.trans_le hnow)
    refine ⟨hpos, ?_, case, hsame, hfinal, (hvotes voter).trans hreveal, ?_⟩
    · rw [hclaimed]
      exact hclaim
    · rw [hpool]
      exact hle
  have hquiet : ∀ k, CouncilEvent.quiet.recordedFor k = 0 ∧ CouncilEvent.quiet.sweptFor k = 0 ∧
      CouncilEvent.quiet.payment k = none := fun _ => ⟨rfl, rfl, rfl⟩
  have hwrite : ∀ {k : ℕ} {case case' : CouncilCase}, w.council.caseData k = some case →
      ∀ k', (w.council.caseData.set k (some case')) k' = none ↔ w.council.caseToken k' = none := by
    intro k case case' hcase k'
    rw [Store.set_get]
    split
    · next heq =>
      subst heq
      have hopen : w.council.caseToken k' ≠ none := by
        rw [ne_eq, ← h.tokens, hcase]
        exact nofun
      exact ⟨nofun, fun hk => absurd hk hopen⟩
    · exact h.tokens k'
  cases hmove with
  | settings admin roles member paused =>
    exact h.unpaid hquiet rfl (fun _ hk => hk) h.tokens (hkept rfl rfl)
  | opens hid hstart hcommit hopen hvotes htotal =>
    refine h.unpaid hquiet rfl ?_ ?_ (hkept rfl rfl)
    · intro k hk
      dsimp only at hk
      rw [Store.set_get] at hk
      split at hk
      · cases hk
      · exact hk
    · intro k
      unfold writeCase
      dsimp only
      rw [hid, Store.set_get, Store.set_get]
      split
      · exact ⟨nofun, nofun⟩
      · exact h.tokens k
  | commits hmember hcase hwindow hfirst =>
    exact h.unpaid (fun _ => ⟨rfl, rfl, rfl⟩) rfl (fun _ hk => hk) h.tokens (hkept rfl rfl)
  | reveals hcase hafter hwindow hstored hfirst hvote =>
    refine h.unpaid hquiet rfl (fun _ hk => hk) ?_ (hkept rfl rfl)
    unfold writeCase
    dsimp only
    rw [(withVote_ok hvote).1, (hb.ids _ _ hcase).1]
    exact hwrite hcase
  | @decides k case _ hcase hopen hlate hleaves =>
    have hcouncil := hleaves.council
    rw [hcouncil] at hkept ⊢
    refine h.unpaid hquiet rfl (fun _ hk => hk) ?_ (hkept rfl rfl)
    unfold writeCase
    dsimp only
    rw [show (finalized case).id = k from (hb.ids k case hcase).1]
    exact hwrite hcase
  | @records k amount hpos =>
    refine h.pools (fun _ => rfl) ?_ ?_ (hopened k amount rfl) ?_ (Or.inl ?_) rfl
    · simp [CouncilEvent.recordedFor, CouncilEvent.sweptFor]
    · have hpool := (h.pool k).2
      omega
    · intro k' hne
      exact ⟨if_neg hne.symm, rfl⟩
    · omega
  | claims hcase hfinal hreveal hfirst hpay => exact h.claims hcase hfinal hreveal hfirst rfl
  | @sweeps k recipient case token b hcase hfinal hvotes hpool htoken hpay =>
    refine h.pools (fun _ => rfl) ?_ le_rfl ?_ ?_ (Or.inr (h.payments_of_no_votes hcase hvotes)) rfl
    · simp [CouncilEvent.recordedFor, CouncilEvent.sweptFor]
    · rw [htoken]
      exact nofun
    · intro k' hne
      exact ⟨rfl, if_neg hne.symm⟩

end Rewarded

/-- The council holds what is outstanding in each token. -/
def Covers (c : CouncilState) (b : Bank) (events : List CouncilEvent) : Prop :=
  ∀ token, outstanding c events token ≤ b.bal token (.contract .council)

namespace Covers

variable {c c' : CouncilState} {b b' : Bank} {events : List CouncilEvent} {e : CouncilEvent}

/-- Where no case opens and nothing is owed more or less, holding no less covers it. -/
theorem same (h : Covers c b events) (htoken : c'.caseToken = c.caseToken)
    (hnext : c'.nextCaseId = c.nextCaseId) (hsame : ∀ k, remaining (e :: events) k =
      remaining events k)
    (hbank : ∀ token, b.bal token (.contract .council) ≤ b'.bal token (.contract .council)) :
    Covers c' b' (e :: events) := by
  intro token
  unfold outstanding
  rw [htoken, hnext]
  simp only [hsame]
  exact (h token).trans (hbank token)

/-- What the council pays out of a case it no longer owes. -/
theorem pays (h : Covers c b events) {k : ℕ} {token : Asset} {recipient : Address} {amount : ℤ}
    (hk : k < c.nextCaseId) (htoken : c.caseToken k = some token)
    (hpay : b.transfer token (.contract .council) recipient amount = .ok b')
    (hremaining : ∀ k', remaining (e :: events) k' =
      remaining events k' + if k' = k then -amount else 0)
    (htokens : c'.caseToken = c.caseToken) (hnext : c'.nextCaseId = c.nextCaseId) :
    Covers c' b' (e :: events) := by
  intro t
  have hbefore := h t
  have hbal := Bank.transfer_bal hpay t (.contract .council)
  have hnonneg := (Bank.transfer_ok.mp hpay).1
  rw [outstanding_change htokens hnext hk hremaining, htoken]
  by_cases heq : t = token
  · subst heq
    rw [if_pos ⟨rfl, rfl⟩] at hbal
    rw [if_pos rfl]
    split at hbal <;> omega
  · rw [if_neg (fun hk => heq hk.1), if_neg (fun hk => heq hk.1)] at hbal
    rw [if_neg (fun hk => heq (Option.some.inj hk).symm)]
    omega

end Covers

/-- Each reward is recorded together with its transfer, and nothing others do
takes tokens from the council. -/
def Accompanied (s : World × ℕ) : CouncilStep → Prop
  | .call _ op => ∀ caseId amount, op ≠ .recordCaseReward caseId amount
  | .reward _ _ _ _ => True
  | .outside w' => ∀ token,
    s.1.bank.bal token (.contract .council) ≤ w'.bank.bal token (.contract .council)

/-- Pools, payments, events and what the council holds belong together. -/
structure RewardsKept (s : (World × ℕ) × List CouncilEvent) : Prop where
  rewarded : Rewarded s.1.1.council s.2
  covers : Covers s.1.1.council s.1.1.bank s.2

/-- A move other than a recorded reward keeps what is outstanding covered. -/
theorem CouncilMoves.covers {ctx : Ctx} {w w' : World} {e : CouncilEvent} {host : Host} {now : ℕ}
    {events : List CouncilEvent} (hmove : CouncilMoves ctx w e w')
    (h : Rewarded w.council events) (hb : Binding w.council host now events)
    (hc : Covers w.council w.bank events) (he : ∀ k amount, e ≠ .recorded k amount) :
    Covers w'.council w'.bank (e :: events) := by
  have hquiet : ∀ k, remaining (.quiet :: events) k = remaining events k := by
    intro k
    unfold remaining
    rw [recorded_cons, swept_cons, paid_cons_of_none rfl]
    simp [CouncilEvent.recordedFor, CouncilEvent.sweptFor]
  cases hmove with
  | settings admin roles member paused => exact hc.same rfl rfl hquiet (fun _ => le_rfl)
  | opens hid hstart hcommit hopen hvotes htotal =>
    intro token
    have hnone : w.council.caseData w.council.nextCaseId = none := by
      cases hcase : w.council.caseData w.council.nextCaseId with
      | none => rfl
      | some case => exact absurd (hb.ids _ case hcase).2 (lt_irrefl _)
    rw [outstanding_opens rfl rfl ?_ hquiet]
    · exact hc token
    · obtain ⟨hrecorded, hswept⟩ := h.unopened _ ((h.tokens _).mp hnone)
      rw [hquiet]
      unfold remaining paid
      rw [hrecorded, hswept, h.payments_of_unopened hnone]
      rfl
  | commits hmember hcase hwindow hfirst =>
    refine hc.same rfl rfl ?_ (fun _ => le_rfl)
    exact hquiet
  | reveals hcase hafter hwindow hstored hfirst hvote =>
    exact hc.same rfl rfl hquiet (fun _ => le_rfl)
  | decides hcase hopen hlate hleaves =>
    rw [hleaves.council]
    exact hc.same rfl rfl hquiet hleaves.holds
  | records hpos => exact absurd rfl (he _ _)
  | @claims voter k case revealed b hcase hfinal hreveal hfirst hpay =>
    have hremaining : ∀ k', remaining
        (.claimed k voter (rewardOf w.council k case revealed) :: events) k' = remaining events k' -
          if k = k' ∧ 0 < rewardOf w.council k case revealed then
            rewardOf w.council k case revealed else 0 := by
      intro k'
      unfold remaining
      rw [recorded_cons, swept_cons, paid_cons_claimed]
      simp only [CouncilEvent.recordedFor, CouncilEvent.sweptFor]
      omega
    rcases hpay with ⟨hnone, rfl⟩ | ⟨hpos, token, htoken, hb'⟩
    · refine hc.same rfl rfl ?_ (fun _ => le_rfl)
      intro k'
      rw [hremaining, if_neg (fun hk => hk.2.not_ge hnone), sub_zero]
    · refine hc.pays (hb.ids k case hcase).2 htoken hb' ?_ rfl rfl
      intro k'
      rw [hremaining, sub_eq_add_neg]
      congr 1
      by_cases hk : k' = k
      · rw [if_pos hk, if_pos ⟨hk.symm, hpos⟩]
      · rw [if_neg hk, if_neg (fun heq => hk heq.1.symm), neg_zero]
  | @sweeps k recipient case token b hcase hfinal hvotes hpool htoken hpay =>
    refine hc.pays (hb.ids k case hcase).2 htoken hpay ?_ rfl rfl
    intro k'
    unfold remaining
    rw [recorded_cons, swept_cons, paid_cons_of_none rfl]
    simp only [CouncilEvent.recordedFor, CouncilEvent.sweptFor]
    by_cases hk : k' = k
    · rw [if_pos hk, if_pos hk.symm]
      omega
    · rw [if_neg hk, if_neg (Ne.symm hk)]
      omega

/-- A reward recorded together with its transfer is covered by it. -/
theorem Covers.records {c c' : CouncilState} {b b' : Bank} {events : List CouncilEvent} {k : ℕ}
    {token : Asset} {payer : Address} {amount : ℤ} (h : Covers c b events)
    (hk : k < c.nextCaseId) (htoken : c.caseToken k = some token)
    (hpayer : payer ≠ .contract .council)
    (hpay : b.transfer token payer (.contract .council) amount = .ok b')
    (htokens : c'.caseToken = c.caseToken) (hnext : c'.nextCaseId = c.nextCaseId) :
    Covers c' b' (.recorded k amount :: events) := by
  intro t
  have hbefore := h t
  have hbal := Bank.transfer_bal hpay t (.contract .council)
  rw [if_neg (fun heq => hpayer heq.2.symm), sub_zero] at hbal
  have hremaining : ∀ k', remaining (.recorded k amount :: events) k' =
      remaining events k' + if k' = k then amount else 0 := by
    intro k'
    unfold remaining
    rw [recorded_cons, swept_cons, paid_cons_of_none rfl]
    simp only [CouncilEvent.recordedFor, CouncilEvent.sweptFor]
    by_cases heq : k' = k
    · rw [if_pos heq, if_pos heq.symm]
      omega
    · rw [if_neg heq, if_neg (Ne.symm heq)]
      omega
  rw [outstanding_change htokens hnext hk hremaining, htoken]
  by_cases heq : t = token
  · subst heq
    rw [if_pos rfl]
    rw [if_pos ⟨rfl, rfl⟩] at hbal
    omega
  · rw [if_neg (fun hk => heq hk.1)] at hbal
    rw [if_neg (fun hk => heq (Option.some.inj hk).symm)]
    omega

/-- Every accompanied step keeps pools, payments, events and holdings together. -/
theorem RewardsKept.step {s s' : (World × ℕ) × List CouncilEvent} {step : CouncilStep}
    (h : RewardsKept s) (hs : VotesBound s) (hok : Accompanied s.1 step)
    (hstep : chronicle.step s step = .ok s') : RewardsKept s' := by
  obtain ⟨hs', hnote⟩ := System.recorded_step.mp hstep
  cases step with
  | call ctx op =>
    obtain ⟨_, hclock, hs'⟩ := bind_ok.mp hs'
    obtain ⟨w, hw, hs'⟩ := bind_ok.mp hs'
    obtain ⟨hs1, hs2⟩ := Prod.mk.inj (pure_ok.mp hs')
    have hmove := CouncilOp.exec_moves hw
    have hnever : ∀ k amount, stepEvent s.1 (.call ctx op) ≠ .recorded k amount := by
      intro k amount heq
      unfold stepEvent at heq
      cases op with
      | recordCaseReward caseId x => exact hok caseId x rfl
      | _ => cases heq
    have hnow := not_lt.mp (refuse_ok.mp hclock)
    refine ⟨?_, ?_⟩
    · rw [hnote, ← hs1]
      exact h.rewarded.moves hs hmove hnow (fun k amount heq => absurd heq (hnever k amount))
    · rw [hnote, ← hs1]
      exact hmove.covers h.rewarded hs h.covers hnever
  | reward ctx payer caseId amount =>
    obtain ⟨_, hclock, hs'⟩ := bind_ok.mp hs'
    obtain ⟨w, hw, hs'⟩ := bind_ok.mp hs'
    obtain ⟨hs1, hs2⟩ := Prod.mk.inj (pure_ok.mp hs')
    obtain ⟨_, hpayer, hw⟩ := bind_ok.mp hw
    obtain ⟨token, htoken, hw⟩ := bind_ok.mp hw
    obtain ⟨b, hb, hw⟩ := bind_ok.mp hw
    have htoken := orFault_ok.mp htoken
    have hmove := CouncilOp.exec_moves hw
    have hopen : s.1.1.council.caseToken caseId ≠ none := by
      rw [htoken]
      exact nofun
    have hlt : caseId < s.1.1.council.nextCaseId := by
      cases hcase : s.1.1.council.caseData caseId with
      | none => exact absurd ((h.rewarded.tokens caseId).mp hcase) hopen
      | some case => exact (Binding.ids hs caseId case hcase).2
    have hnow := not_lt.mp (refuse_ok.mp hclock)
    refine ⟨?_, ?_⟩
    · rw [hnote, ← hs1]
      refine Rewarded.moves ?_ ?_ hmove hnow ?_
      · exact h.rewarded
      · exact hs
      · intro k x heq
        obtain ⟨rfl, _⟩ := CouncilEvent.recorded.inj heq
        exact hopen
    · rw [hnote, ← hs1]
      obtain ⟨c, hc, hw⟩ := bind_ok.mp hw
      rw [← pure_ok.mp hw]
      obtain ⟨_, _, hc⟩ := bind_ok.mp hc
      obtain ⟨_, _, hc⟩ := bind_ok.mp hc
      obtain ⟨next, _, hc⟩ := bind_ok.mp hc
      rw [← pure_ok.mp hc]
      exact h.covers.records hlt htoken (refuse_ok.mp hpayer) hb rfl rfl
  | outside w' =>
    obtain ⟨hs1, hs2⟩ := Prod.mk.inj (ok_ok.mp hs')
    refine ⟨?_, ?_⟩
    · rw [hnote, ← hs1]
      exact h.rewarded.unpaid (fun _ => ⟨rfl, rfl, rfl⟩) rfl (fun _ hk => hk) h.rewarded.tokens
        h.rewarded.paid
    · rw [hnote, ← hs1]
      refine h.covers.same rfl rfl ?_ hok
      intro k
      unfold remaining
      rw [recorded_cons, swept_cons, paid_cons_of_none rfl]
      simp [stepEvent, CouncilEvent.recordedFor, CouncilEvent.sweptFor]

/-- A deployed council owes nothing. -/
theorem RewardsKept.deployed (l : Launch) (now : ℕ) : RewardsKept ((deploy l, now), []) := by
  have hcases : ∀ k, (deploy l).council.caseData k = none := fun _ => rfl
  have htokens : ∀ k, (deploy l).council.caseToken k = none := fun _ => rfl
  have hpool : ∀ k, (deploy l).council.caseRewardPool k = 0 := fun _ => rfl
  refine ⟨⟨fun _ _ => ⟨rfl, rfl⟩, ?_, ?_, ?_, fun _ => List.nodup_nil⟩, ?_⟩
  · intro k
    rw [hcases, htokens]
    exact ⟨fun _ => rfl, fun _ => rfl⟩
  · intro k
    rw [hpool]
    exact ⟨rfl, le_rfl⟩
  · intro k voter payout hmem
    cases hmem
  · intro token
    unfold outstanding
    dsimp only
    simp only [htokens, reduceCtorEq, if_false, Finset.sum_const_zero]
    exact (deploy l).bank.nonneg _

/-- In every run in which rewards come with their transfers, what is paid and
swept for a case was recorded for it, a voter is paid at most once for a case
and only for a vote that is its outcome, and the council holds what is left of
all rewards in each token. -/
theorem rewards_covered {s : (World × ℕ) × List CouncilEvent}
    (h : chronicle.Guarded (fun s step => Accompanied s.1 step) s) :
    (∀ k, paid s.2 k + swept s.2 k ≤ recorded s.2 k) ∧
      (∀ k, ((payments s.2 k).map Prod.fst).Nodup) ∧
      (∀ k voter payout, (voter, payout) ∈ payments s.2 k → ∃ case,
        s.1.1.council.caseData k = some case ∧ case.hasFinalOutcome = true ∧
          s.1.1.council.reveal (k, voter) = some case.finalOutcome) ∧
      ∀ token, outstanding s.1.1.council s.2 token ≤ s.1.1.bank.bal token (.contract .council) := by
  have hbound : VotesBound s := votesBound h.reachable
  have hkept : RewardsKept s := by
    apply h.invariant_with (J := VotesBound) (I := RewardsKept)
    · exact fun t ht => votesBound ht.reachable
    · rintro ⟨⟨w, now⟩, events⟩ ⟨⟨l, hl⟩, hevents⟩
      dsimp only at hl hevents
      rw [hl, hevents]
      exact .deployed l now
    · exact fun t step t' ht hrewards hok hstep => hrewards.step ht hok hstep
  refine ⟨?_, hkept.rewarded.once, ?_, hkept.covers⟩
  · intro k
    have hle := hkept.rewarded.paid_le hbound k
    have hpool := (hkept.rewarded.pool k).1
    omega
  · intro k voter payout hmem
    obtain ⟨_, _, case, hcase, hfinal, hreveal, _⟩ := hkept.rewarded.paid k voter payout hmem
    exact ⟨case, hcase, hfinal, hreveal⟩

/-- A reward of seven for the two voters of the ballot, both claiming. -/
def rewardedBallot : List CouncilStep :=
  ballot ++ [.reward ⟨23, [], [.contract .oracle]⟩ bob 1 7,
    .call (signedAt 24 alice) (.claimReward alice 1), .call (signedAt 25 bob) (.claimReward bob 1)]

/-- Each voter is paid three and the council keeps the odd one. -/
theorem rewards_covered_of_ballot : ∃ s,
    chronicle.runs ((deploy ballotLaunch, 0), []) rewardedBallot = .ok s ∧
      recorded s.2 1 = 7 ∧ payments s.2 1 = [(bob, 3), (alice, 3)] ∧
      paid s.2 1 + swept s.2 1 ≤ recorded s.2 1 ∧
      outstanding s.1.1.council s.2 sampleToken ≤
        s.1.1.bank.bal sampleToken (.contract .council) := by
  obtain ⟨s, hs, hcheck⟩ := System.runs_of_decide (S := chronicle)
    ((deploy ballotLaunch, 0), []) rewardedBallot
    (fun s => decide (recorded s.2 1 = 7) && decide (payments s.2 1 = [(bob, 3), (alice, 3)]))
    (by decide +kernel)
  obtain ⟨hrecorded, hpayments⟩ := Bool.and_eq_true_iff.mp hcheck
  have hok : ∀ step ∈ rewardedBallot, ∀ t, Accompanied t step := by
    simp [rewardedBallot, ballot, openedCase, Accompanied]
  have hrun : chronicle.Guarded (fun _ step => ∀ t, Accompanied t step) s :=
    System.Guarded.runs (.init ⟨⟨_, rfl⟩, rfl⟩) rewardedBallot hok hs
  obtain ⟨hpaid, _, _, hcovers⟩ := rewards_covered (hrun.mono (fun s step hstep => hstep s.1))
  exact ⟨s, hs, of_decide_eq_true hrecorded, of_decide_eq_true hpayments, hpaid 1,
    hcovers sampleToken⟩

end DikeProtocol.Council
