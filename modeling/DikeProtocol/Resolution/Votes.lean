import DikeProtocol.Resolution.Moves
import Mathlib.Data.Finset.Card
import Mathlib.Data.Nat.Pairing

/-!
# Votes and their tally

A revealed vote is the one its voter committed to in the commit window, and
the counters of a case are the numbers of voters with each revealed vote. A
final case keeps its votes, and its outcome is the one they elect.
-/

namespace DikeProtocol.Council

open Lib

/-- The voters whose stored vote in a case is this outcome. -/
def voters (reveal : Store (ℕ × Address) (Option Outcome)) (caseId : ℕ) (outcome : Outcome) :
    Finset Address :=
  (reveal.written.filter (fun key => key.1 = caseId ∧ reveal key = some outcome)).image Prod.snd

/-- A voter counts for an outcome exactly when it is the voter's stored vote. -/
theorem mem_voters {reveal : Store (ℕ × Address) (Option Outcome)} {caseId : ℕ}
    {outcome : Outcome} {voter : Address} :
    voter ∈ voters reveal caseId outcome ↔ reveal (caseId, voter) = some outcome := by
  unfold voters
  rw [Finset.mem_image]
  constructor
  · rintro ⟨key, hkey, rfl⟩
    obtain ⟨_, rfl, hstored⟩ := Finset.mem_filter.mp hkey
    exact hstored
  · intro hstored
    refine ⟨(caseId, voter), Finset.mem_filter.mpr ⟨?_, rfl, hstored⟩, rfl⟩
    by_contra hunwritten
    rw [reveal.get_unwritten _ hunwritten] at hstored
    cases hstored

/-- A first vote adds its voter to those of its outcome and case. -/
theorem voters_set {reveal : Store (ℕ × Address) (Option Outcome)} {k : ℕ} {voter : Address}
    {outcome : Outcome} (hfirst : reveal (k, voter) = none) (caseId : ℕ) (o : Outcome) :
    (voters (reveal.set (k, voter) (some outcome)) caseId o).card =
      (voters reveal caseId o).card + if caseId = k ∧ o = outcome then 1 else 0 := by
  split
  · next h =>
    obtain ⟨rfl, rfl⟩ := h
    have hnew : voter ∉ voters reveal caseId o := by
      rw [mem_voters, hfirst]
      exact nofun
    rw [← Finset.card_insert_of_notMem hnew]
    congr 1
    ext v
    rw [Finset.mem_insert, mem_voters, mem_voters, Store.set_get]
    by_cases hv : v = voter
    · subst hv
      rw [if_pos rfl]
      exact ⟨fun _ => Or.inl rfl, fun _ => rfl⟩
    · rw [if_neg (fun hk => hv (Prod.mk.inj hk).2)]
      exact ⟨Or.inr, fun hk => hk.resolve_left hv⟩
  · next h =>
    rw [Nat.add_zero]
    congr 1
    ext v
    rw [mem_voters, mem_voters, Store.set_get]
    split
    · next heq =>
      obtain ⟨rfl, rfl⟩ := Prod.mk.inj heq
      rw [hfirst]
      constructor
      · intro hk
        exact absurd ⟨rfl, (Option.some.inj hk).symm⟩ h
      · intro hk
        cases hk
    · exact Iff.rfl

/-- A counted vote adds one for its outcome and to the total, and nothing else changes. -/
theorem withVote_counts {case case' : CouncilCase} {outcome : Outcome}
    (h : withVote case outcome = .ok case') :
    (∀ o, votesFor case' o = votesFor case o + if o = outcome then 1 else 0) ∧
      case'.totalValidVotes = case.totalValidVotes + 1 ∧ case'.votingStart = case.votingStart ∧
      case'.commitEnd = case.commitEnd ∧ case'.revealEnd = case.revealEnd := by
  have hvote : ∀ {n k : ℕ}, countVote n = .ok k → k = n + 1 := by
    intro n k hk
    obtain ⟨_, _, hk⟩ := bind_ok.mp hk
    exact (pure_ok.mp hk).symm
  unfold withVote at h
  obtain ⟨counted, hcounted, h⟩ := bind_ok.mp h
  obtain ⟨total, htotal, h⟩ := bind_ok.mp h
  obtain rfl := pure_ok.mp h
  cases outcome with
  | yes =>
    obtain ⟨votes, hvotes, hcounted⟩ := bind_ok.mp hcounted
    obtain rfl := pure_ok.mp hcounted
    refine ⟨?_, hvote htotal, rfl, rfl, rfl⟩
    intro o
    cases o with
    | yes => exact hvote hvotes
    | no => rfl
    | invalid => rfl
  | no =>
    obtain ⟨votes, hvotes, hcounted⟩ := bind_ok.mp hcounted
    obtain rfl := pure_ok.mp hcounted
    refine ⟨?_, hvote htotal, rfl, rfl, rfl⟩
    intro o
    cases o with
    | yes => rfl
    | no => exact hvote hvotes
    | invalid => rfl
  | invalid =>
    obtain ⟨votes, hvotes, hcounted⟩ := bind_ok.mp hcounted
    obtain rfl := pure_ok.mp hcounted
    refine ⟨?_, hvote htotal, rfl, rfl, rfl⟩
    intro o
    cases o with
    | yes => rfl
    | no => rfl
    | invalid => exact hvote hvotes

/-- All votes of a case. -/
def allVotes (case : CouncilCase) : ℕ :=
  votesFor case .yes + votesFor case .no + votesFor case .invalid

/-- Commitments, reveals, counters and events belong together. -/
structure Binding (c : CouncilState) (host : Host) (now : ℕ) (events : List CouncilEvent) :
    Prop where
  ids : ∀ k case, c.caseData k = some case → case.id = k ∧ k < c.nextCaseId
  opened : ∀ k voter, c.commit (k, voter) ≠ none → c.caseData k ≠ none
  started : ∀ k case, c.caseData k = some case → case.votingStart ≤ now
  counted : ∀ k case, c.caseData k = some case →
    (∀ outcome, votesFor case outcome = (voters c.reveal k outcome).card) ∧
      case.totalValidVotes = allVotes case
  stored : ∀ k voter outcome, c.reveal (k, voter) = some outcome →
    ∃ salt, c.commit (k, voter) = some (host.voteCommitmentHash k voter outcome salt)
  made : ∀ k voter commitment, c.commit (k, voter) = some commitment →
    ∃ madeAt member, CouncilEvent.committed k voter commitment madeAt member ∈ events
  windowed : ∀ k voter commitment madeAt member,
    CouncilEvent.committed k voter commitment madeAt member ∈ events →
      c.commit (k, voter) = some commitment ∧ member = true ∧
        ∃ case, c.caseData k = some case ∧ case.votingStart ≤ madeAt ∧ madeAt ≤ case.commitEnd
  concluded : ∀ k case, c.caseData k = some case → case.hasFinalOutcome = true →
    case.revealEnd < now ∧ case.finalOutcome = tally case

namespace Binding

variable {c c' : CouncilState} {host : Host} {now now' : ℕ} {events : List CouncilEvent}
  {e : CouncilEvent}

/-- A deployed council has no cases and no votes. -/
theorem deployed (l : Launch) (now : ℕ) : Binding (deploy l).council l.host now [] := by
  have hcases : ∀ k, (deploy l).council.caseData k = none := fun _ => rfl
  have hcommit : ∀ key, (deploy l).council.commit key = none := fun _ => rfl
  have hreveal : ∀ key, (deploy l).council.reveal key = none := fun _ => rfl
  refine ⟨?_, ?_, ?_, ?_, ?_, ?_, ?_, ?_⟩
  · intro k case hk
    rw [hcases] at hk
    cases hk
  · intro k voter hk
    exact absurd (hcommit (k, voter)) hk
  · intro k case hk
    rw [hcases] at hk
    cases hk
  · intro k case hk
    rw [hcases] at hk
    cases hk
  · intro k voter outcome hk
    rw [hreveal] at hk
    cases hk
  · intro k voter commitment hk
    rw [hcommit] at hk
    cases hk
  · intro k voter commitment madeAt member hmem
    cases hmem
  · intro k case hk
    rw [hcases] at hk
    cases hk

/-- Where cases and votes stay and no commitment is made, only time passes. -/
theorem same (h : Binding c host now events) (hcases : c'.caseData = c.caseData)
    (hcommit : c'.commit = c.commit) (hreveal : c'.reveal = c.reveal)
    (hnext : c'.nextCaseId = c.nextCaseId) (hnow : now ≤ now')
    (he : ∀ k voter commitment madeAt member,
      e ≠ .committed k voter commitment madeAt member) : Binding c' host now' (e :: events) where
  ids := by
    rw [hcases, hnext]
    exact h.ids
  opened := by
    rw [hcommit, hcases]
    exact h.opened
  started := by
    intro k case hk
    rw [hcases] at hk
    exact (h.started k case hk).trans hnow
  counted := by
    rw [hcases, hreveal]
    exact h.counted
  stored := by
    rw [hreveal, hcommit]
    exact h.stored
  made := by
    intro k voter commitment hk
    rw [hcommit] at hk
    obtain ⟨madeAt, member, hmem⟩ := h.made k voter commitment hk
    exact ⟨madeAt, member, List.mem_cons_of_mem e hmem⟩
  windowed := by
    intro k voter commitment madeAt member hmem
    rw [hcommit, hcases]
    rcases List.mem_cons.mp hmem with heq | hmem
    · exact absurd heq.symm (he k voter commitment madeAt member)
    · exact h.windowed k voter commitment madeAt member hmem
  concluded := by
    intro k case hk hfinal
    rw [hcases] at hk
    obtain ⟨hlate, hout⟩ := h.concluded k case hk hfinal
    exact ⟨hlate.trans_le hnow, hout⟩

/-- A case that is not open yet has no votes. -/
theorem voters_unopened (h : Binding c host now events) {k : ℕ} (hk : c.caseData k = none)
    (outcome : Outcome) : voters c.reveal k outcome = ∅ := by
  apply Finset.eq_empty_of_forall_notMem
  intro voter hvoter
  obtain ⟨salt, hcommit⟩ := h.stored k voter outcome (mem_voters.mp hvoter)
  apply h.opened k voter _ hk
  rw [hcommit]
  exact nofun

/-- The next case opens without votes. -/
theorem opens (h : Binding c host now events) {case : CouncilCase} (hid : case.id = c.nextCaseId)
    (hstart : case.votingStart ≤ now') (hopen : case.hasFinalOutcome = false)
    (hvotes : ∀ outcome, votesFor case outcome = 0) (htotal : case.totalValidVotes = 0)
    (hcases : c'.caseData = c.caseData.set case.id (some case)) (hcommit : c'.commit = c.commit)
    (hreveal : c'.reveal = c.reveal) (hnext : c'.nextCaseId = c.nextCaseId + 1)
    (hnow : now ≤ now') : Binding c' host now' (.quiet :: events) := by
  have hnone : c.caseData case.id = none := by
    cases hk : c.caseData case.id with
    | none => rfl
    | some old =>
      have hlt := (h.ids _ old hk).2
      omega
  have hget : ∀ k stored, c'.caseData k = some stored →
      (k = case.id ∧ stored = case) ∨ (k ≠ case.id ∧ c.caseData k = some stored) := by
    intro k stored hk
    rw [hcases, Store.set_get] at hk
    split at hk
    · next heq => exact Or.inl ⟨heq, (Option.some.inj hk).symm⟩
    · next hne => exact Or.inr ⟨hne, hk⟩
  refine ⟨?_, ?_, ?_, ?_, ?_, ?_, ?_, ?_⟩
  · intro k stored hk
    rw [hnext]
    rcases hget k stored hk with ⟨rfl, rfl⟩ | ⟨_, hold⟩
    · exact ⟨rfl, by omega⟩
    · obtain ⟨hstored, hlt⟩ := h.ids k stored hold
      exact ⟨hstored, by omega⟩
  · intro k voter hk
    rw [hcommit] at hk
    rw [hcases, Store.set_get]
    split
    · exact nofun
    · exact h.opened k voter hk
  · intro k stored hk
    rcases hget k stored hk with ⟨rfl, rfl⟩ | ⟨_, hold⟩
    · exact hstart
    · exact (h.started k stored hold).trans hnow
  · intro k stored hk
    rw [hreveal]
    rcases hget k stored hk with ⟨rfl, rfl⟩ | ⟨_, hold⟩
    · refine ⟨?_, ?_⟩
      · intro outcome
        rw [hvotes, h.voters_unopened hnone, Finset.card_empty]
      · unfold allVotes
        rw [htotal, hvotes, hvotes, hvotes]
    · exact h.counted k stored hold
  · rw [hreveal, hcommit]
    exact h.stored
  · intro k voter commitment hk
    rw [hcommit] at hk
    obtain ⟨madeAt, member, hmem⟩ := h.made k voter commitment hk
    exact ⟨madeAt, member, List.mem_cons_of_mem _ hmem⟩
  · intro k voter commitment madeAt member hmem
    have hmem : .committed k voter commitment madeAt member ∈ events := by
      rcases List.mem_cons.mp hmem with heq | hmem
      · cases heq
      · exact hmem
    obtain ⟨hk, hmember, old, hold, hwindow⟩ := h.windowed k voter commitment madeAt member hmem
    have hne : k ≠ case.id := by
      rintro rfl
      rw [hnone] at hold
      cases hold
    refine ⟨hcommit ▸ hk, hmember, old, ?_, hwindow⟩
    rw [hcases, Store.set_get_of_ne _ _ hne]
    exact hold
  · intro k stored hk hfinal
    rcases hget k stored hk with ⟨rfl, rfl⟩ | ⟨_, hold⟩
    · rw [hopen] at hfinal
      cases hfinal
    · obtain ⟨hlate, hout⟩ := h.concluded k stored hold hfinal
      exact ⟨hlate.trans_le hnow, hout⟩

/-- A first commitment in the commit window of a case. -/
theorem commits (h : Binding c host now events) {voter : Address} {k : ℕ} {commitment : Hash}
    {case : CouncilCase} (hcase : c.caseData k = some case) (hwindow : now' ≤ case.commitEnd)
    (hfirst : c.commit (k, voter) = none) (hcases : c'.caseData = c.caseData)
    (hcommit : c'.commit = c.commit.set (k, voter) (some commitment))
    (hreveal : c'.reveal = c.reveal) (hnext : c'.nextCaseId = c.nextCaseId) (hnow : now ≤ now') :
    Binding c' host now' (.committed k voter commitment now' true :: events) := by
  refine ⟨?_, ?_, ?_, ?_, ?_, ?_, ?_, ?_⟩
  · rw [hcases, hnext]
    exact h.ids
  · intro k' voter' hk
    rw [hcommit, Store.set_get] at hk
    rw [hcases]
    split at hk
    · next heq =>
      obtain ⟨rfl, rfl⟩ := Prod.mk.inj heq
      rw [hcase]
      exact nofun
    · exact h.opened k' voter' hk
  · intro k' stored hk
    rw [hcases] at hk
    exact (h.started k' stored hk).trans hnow
  · rw [hcases, hreveal]
    exact h.counted
  · intro k' voter' outcome hk
    rw [hreveal] at hk
    obtain ⟨salt, hstored⟩ := h.stored k' voter' outcome hk
    have hne : (k', voter') ≠ (k, voter) := by
      intro heq
      rw [heq, hfirst] at hstored
      cases hstored
    refine ⟨salt, ?_⟩
    rw [hcommit, Store.set_get_of_ne _ _ hne]
    exact hstored
  · intro k' voter' commitment' hk
    rw [hcommit, Store.set_get] at hk
    split at hk
    · next heq =>
      obtain ⟨rfl, rfl⟩ := Prod.mk.inj heq
      obtain rfl := Option.some.inj hk
      exact ⟨now', true, List.mem_cons_self⟩
    · obtain ⟨madeAt, member, hmem⟩ := h.made k' voter' commitment' hk
      exact ⟨madeAt, member, List.mem_cons_of_mem _ hmem⟩
  · intro k' voter' commitment' madeAt member hmem
    rw [hcommit, hcases]
    rcases List.mem_cons.mp hmem with heq | hmem
    · cases heq
      exact ⟨Store.set_get_self _ _ _, rfl, case, hcase, (h.started k case hcase).trans hnow,
        hwindow⟩
    · obtain ⟨hk, hrest⟩ := h.windowed k' voter' commitment' madeAt member hmem
      have hne : (k', voter') ≠ (k, voter) := by
        intro heq
        rw [heq, hfirst] at hk
        cases hk
      refine ⟨?_, hrest⟩
      rw [Store.set_get_of_ne _ _ hne]
      exact hk
  · intro k' stored hk hfinal
    rw [hcases] at hk
    obtain ⟨hlate, hout⟩ := h.concluded k' stored hk hfinal
    exact ⟨hlate.trans_le hnow, hout⟩

/-- What overwrites a case keeps its identifier and its windows. -/
theorem overwritten (h : Binding c host now events) {k : ℕ} {case case' : CouncilCase}
    (hcase : c.caseData k = some case) (hid : case'.id = k)
    (hstart : case'.votingStart = case.votingStart) (hend : case'.commitEnd = case.commitEnd)
    (hcases : c'.caseData = c.caseData.set k (some case')) (hcommit : c'.commit = c.commit)
    (hnext : c'.nextCaseId = c.nextCaseId) (hnow : now ≤ now')
    (hcounted : ∀ k' stored, c'.caseData k' = some stored →
      (∀ outcome, votesFor stored outcome = (voters c'.reveal k' outcome).card) ∧
        stored.totalValidVotes = allVotes stored)
    (hstored : ∀ k' voter outcome, c'.reveal (k', voter) = some outcome →
      ∃ salt, c'.commit (k', voter) = some (host.voteCommitmentHash k' voter outcome salt))
    (hover : case'.hasFinalOutcome = true →
      case'.revealEnd < now' ∧ case'.finalOutcome = tally case') :
    Binding c' host now' (.quiet :: events) := by
  have hget : ∀ k' stored, c'.caseData k' = some stored →
      (k' = k ∧ stored = case') ∨ c.caseData k' = some stored := by
    intro k' stored hk
    rw [hcases, Store.set_get] at hk
    split at hk
    · next heq => exact Or.inl ⟨heq, (Option.some.inj hk).symm⟩
    · exact Or.inr hk
  refine ⟨?_, ?_, ?_, hcounted, hstored, ?_, ?_, ?_⟩
  · intro k' stored hk
    rw [hnext]
    rcases hget k' stored hk with ⟨rfl, rfl⟩ | hold
    · exact ⟨hid, (h.ids k' case hcase).2⟩
    · exact h.ids k' stored hold
  · intro k' voter hk
    rw [hcommit] at hk
    rw [hcases, Store.set_get]
    split
    · exact nofun
    · exact h.opened k' voter hk
  · intro k' stored hk
    rcases hget k' stored hk with ⟨rfl, rfl⟩ | hold
    · rw [hstart]
      exact (h.started k' case hcase).trans hnow
    · exact (h.started k' stored hold).trans hnow
  · intro k' voter commitment hk
    rw [hcommit] at hk
    obtain ⟨madeAt, member, hmem⟩ := h.made k' voter commitment hk
    exact ⟨madeAt, member, List.mem_cons_of_mem _ hmem⟩
  · intro k' voter commitment madeAt member hmem
    have hmem : .committed k' voter commitment madeAt member ∈ events := by
      rcases List.mem_cons.mp hmem with heq | hmem
      · cases heq
      · exact hmem
    obtain ⟨hk, hmember, old, hold, hfrom, hto⟩ :=
      h.windowed k' voter commitment madeAt member hmem
    refine ⟨hcommit ▸ hk, hmember, ?_⟩
    by_cases heq : k' = k
    · subst heq
      rw [hcase] at hold
      obtain rfl := Option.some.inj hold
      refine ⟨case', ?_, hstart ▸ hfrom, hend ▸ hto⟩
      rw [hcases, Store.set_get_self]
    · refine ⟨old, ?_, hfrom, hto⟩
      rw [hcases, Store.set_get_of_ne _ _ heq]
      exact hold
  · intro k' stored hk hfinal
    rcases hget k' stored hk with ⟨rfl, rfl⟩ | hold
    · exact hover hfinal
    · obtain ⟨hlate, hout⟩ := h.concluded k' stored hold hfinal
      exact ⟨hlate.trans_le hnow, hout⟩

/-- A first reveal of what was committed to counts for its outcome. -/
theorem reveals (h : Binding c host now events) {voter : Address} {k : ℕ} {outcome : Outcome}
    {salt : Hash} {case case' : CouncilCase} (hcase : c.caseData k = some case)
    (hwindow : now' ≤ case.revealEnd)
    (hcommitted : c.commit (k, voter) = some (host.voteCommitmentHash k voter outcome salt))
    (hfirst : c.reveal (k, voter) = none) (hvote : withVote case outcome = .ok case')
    (hcases : c'.caseData = c.caseData.set case'.id (some case')) (hcommit : c'.commit = c.commit)
    (hreveal : c'.reveal = c.reveal.set (k, voter) (some outcome))
    (hnext : c'.nextCaseId = c.nextCaseId) (hnow : now ≤ now') :
    Binding c' host now' (.quiet :: events) := by
  obtain ⟨hvotes, htotal, hstart, hend, _⟩ := withVote_counts hvote
  obtain ⟨hid, _, hhas, _⟩ := withVote_ok hvote
  rw [(h.ids k case hcase).1] at hid
  rw [hid] at hcases
  refine h.overwritten hcase hid hstart hend hcases hcommit hnext hnow ?_ ?_ ?_
  · intro k' stored hk
    rw [hcases, Store.set_get] at hk
    rw [hreveal]
    split at hk
    · next heq =>
      obtain rfl := heq
      obtain rfl := Option.some.inj hk
      obtain ⟨hcounted, hall⟩ := h.counted k' case hcase
      refine ⟨?_, ?_⟩
      · intro o
        rw [voters_set hfirst, hvotes, hcounted]
        congr 1
        exact if_congr ⟨fun ho => ⟨rfl, ho⟩, fun ho => ho.2⟩ rfl rfl
      · unfold allVotes at hall ⊢
        rw [htotal, hall, hvotes, hvotes, hvotes]
        cases outcome <;> simp <;> omega
    · next hne =>
      obtain ⟨hcounted, hall⟩ := h.counted k' stored hk
      refine ⟨?_, hall⟩
      intro o
      rw [voters_set hfirst, if_neg (fun ho => hne ho.1), hcounted, Nat.add_zero]
  · intro k' voter' o hk
    rw [hreveal, Store.set_get] at hk
    rw [hcommit]
    split at hk
    · next heq =>
      obtain ⟨rfl, rfl⟩ := Prod.mk.inj heq
      obtain rfl := Option.some.inj hk
      exact ⟨salt, hcommitted⟩
    · exact h.stored k' voter' o hk
  · intro hfinal
    -- a final case is past its reveal window
    have hlate := (h.concluded k case hcase (hhas ▸ hfinal)).1
    omega

/-- A tally decides a case and changes no vote. -/
theorem decides (h : Binding c host now events) {k : ℕ} {case : CouncilCase}
    (hcase : c.caseData k = some case) (hlate : case.revealEnd < now') (hnow : now ≤ now') :
    Binding (writeCase c (finalized case)) host now' (.quiet :: events) := by
  have hid : (finalized case).id = k := (h.ids k case hcase).1
  have hcases : (writeCase c (finalized case)).caseData =
      c.caseData.set k (some (finalized case)) := by
    rw [← hid]
    rfl
  refine h.overwritten hcase hid rfl rfl hcases rfl rfl hnow ?_ h.stored
    (fun _ => ⟨hlate, rfl⟩)
  intro k' stored hk
  rw [hcases, Store.set_get] at hk
  split at hk
  · next heq =>
    obtain rfl := heq
    obtain rfl := Option.some.inj hk
    obtain ⟨hcounted, htotal⟩ := h.counted k' case hcase
    refine ⟨?_, htotal⟩
    intro o
    refine Eq.trans ?_ (hcounted o)
    cases o <;> rfl
  · exact h.counted k' stored hk

/-- Every move of the council keeps commitments, reveals and counters together. -/
theorem moves {ctx : Ctx} {w w' : World} (h : Binding w.council w.host now events)
    (hmove : CouncilMoves ctx w e w') (hnow : now ≤ ctx.now) :
    Binding w'.council w'.host ctx.now (e :: events) := by
  cases hmove with
  | settings admin roles member paused => exact h.same rfl rfl rfl rfl hnow nofun
  | opens hid hstart hcommit hopen hvotes htotal =>
    exact h.opens hid hstart.le hopen hvotes htotal rfl rfl rfl rfl hnow
  | commits hmember hcase hwindow hfirst =>
    exact h.commits hcase hwindow hfirst rfl rfl rfl rfl hnow
  | reveals hcase hafter hwindow hstored hfirst hvote =>
    exact h.reveals hcase hwindow hstored hfirst hvote rfl rfl rfl rfl hnow
  | decides hcase hopen hlate hleaves =>
    rw [hleaves.council, hleaves.host]
    exact h.decides hcase hlate hnow
  | records hpos => exact h.same rfl rfl rfl rfl hnow nofun
  | claims hcase hfinal hreveal hfirst hpay => exact h.same rfl rfl rfl rfl hnow nofun
  | sweeps hcase hfinal hvotes hpool htoken hpay => exact h.same rfl rfl rfl rfl hnow nofun

end Binding

/-- Past the reveal window of a final case, no move changes it or its votes. -/
theorem CouncilMoves.keeps_final {ctx : Ctx} {w w' : World} {e : CouncilEvent} {k : ℕ}
    {case : CouncilCase} (h : CouncilMoves ctx w e w')
    (hids : ∀ k case, w.council.caseData k = some case → case.id = k ∧ k < w.council.nextCaseId)
    (hcase : w.council.caseData k = some case) (hfinal : case.hasFinalOutcome = true)
    (hlate : case.revealEnd < ctx.now) :
    w'.council.caseData k = some case ∧
      ∀ voter, w'.council.reveal (k, voter) = w.council.reveal (k, voter) := by
  have hwrite : ∀ {c : CouncilState} {new : CouncilCase}, c.caseData = w.council.caseData →
      k ≠ new.id → (writeCase c new).caseData k = some case := by
    intro c new hc hne
    unfold writeCase
    dsimp only
    rw [Store.set_get_of_ne _ _ hne, hc]
    exact hcase
  cases h with
  | settings admin roles member paused => exact ⟨hcase, fun _ => rfl⟩
  | opens hid hstart hcommit hopen hvotes htotal =>
    refine ⟨hwrite rfl ?_, fun _ => rfl⟩
    have hlt := (hids k case hcase).2
    omega
  | commits hmember hother hwindow hfirst => exact ⟨hcase, fun _ => rfl⟩
  | reveals hother hafter hwindow hstored hfirst hvote =>
    rename_i voter k' outcome salt old new
    have hne : k ≠ k' := by
      rintro rfl
      rw [hcase] at hother
      obtain rfl := Option.some.inj hother
      omega
    refine ⟨hwrite rfl ?_, ?_⟩
    · rw [(withVote_ok hvote).1, (hids k' old hother).1]
      exact hne
    · intro voter'
      unfold writeCase
      dsimp only
      rw [Store.set_get_of_ne _ _ (fun hk => hne (Prod.mk.inj hk).1)]
  | decides hother hopen hpast hleaves =>
    rename_i k' old
    have hne : k ≠ k' := by
      rintro rfl
      rw [hcase] at hother
      obtain rfl := Option.some.inj hother
      rw [hopen] at hfinal
      cases hfinal
    rw [hleaves.council]
    refine ⟨hwrite rfl ?_, fun _ => rfl⟩
    rw [show (finalized old).id = k' from (hids k' old hother).1]
    exact hne
  | records hpos => exact ⟨hcase, fun _ => rfl⟩
  | claims hother hdone hreveal hfirst hpay => exact ⟨hcase, fun _ => rfl⟩
  | sweeps hother hdone hvotes hpool htoken hpay => exact ⟨hcase, fun _ => rfl⟩

/-- Commitments, reveals, counters and events of a state with its events. -/
def VotesBound (s : (World × ℕ) × List CouncilEvent) : Prop :=
  Binding s.1.1.council s.1.1.host s.1.2 s.2

/-- The host's hash functions stay. -/
theorem chronicle_host {s s' : (World × ℕ) × List CouncilEvent} {step : CouncilStep}
    (h : chronicle.step s step = .ok s') : s'.1.1.host = s.1.1.host := by
  obtain ⟨_, _, ⟨ctx, b, _, hmove⟩ | ⟨_, _, hhost⟩⟩ := chronicle_step h
  · generalize stepEvent s.1 step = e at hmove
    generalize s'.1.1 = w' at hmove ⊢
    cases hmove with
    | decides hcase hopen hlate hleaves => exact hleaves.host
    | settings admin roles member paused => rfl
    | opens hid hstart hcommit hopen hvotes htotal => rfl
    | commits hmember hcase hwindow hfirst => rfl
    | reveals hcase hafter hwindow hstored hfirst hvote => rfl
    | records hpos => rfl
    | claims hcase hfinal hreveal hfirst hpay => rfl
    | sweeps hcase hfinal hvotes hpool htoken hpay => rfl
  · exact hhost

/-- Every step keeps them together. -/
theorem VotesBound.step {s s' : (World × ℕ) × List CouncilEvent} {step : CouncilStep}
    (hs : VotesBound s) (h : chronicle.step s step = .ok s') : VotesBound s' := by
  obtain ⟨hnote, hclock, hcase⟩ := chronicle_step h
  unfold VotesBound
  rw [hnote]
  rcases hcase with ⟨ctx, b, hnow, hmove⟩ | ⟨hquiet, hcouncil, hhost⟩
  · rw [← hnow] at hclock ⊢
    refine Binding.moves ?_ hmove hclock
    exact hs
  · rw [hquiet, hcouncil, hhost]
    exact Binding.same hs rfl rfl rfl rfl hclock nofun

/-- In every reachable state they are together. -/
theorem votesBound {s : (World × ℕ) × List CouncilEvent} (h : chronicle.Reachable s) :
    VotesBound s := by
  apply h.invariant (I := VotesBound)
  · rintro s ⟨⟨l, hl⟩, hevents⟩
    unfold VotesBound
    rw [hl, hevents]
    exact Binding.deployed l s.1.2
  · intro s step s' hs _ hstep
    exact hs.step hstep

/-- A final case keeps its record and its votes in every later state. -/
theorem VotesBound.frozen {s s' : (World × ℕ) × List CouncilEvent} {k : ℕ} {case : CouncilCase}
    (hs : VotesBound s) (hcase : s.1.1.council.caseData k = some case)
    (hfinal : case.hasFinalOutcome = true) {steps : List CouncilStep}
    (h : chronicle.runs s steps = .ok s') :
    s'.1.1.council.caseData k = some case ∧
      ∀ voter, s'.1.1.council.reveal (k, voter) = s.1.1.council.reveal (k, voter) := by
  have hkeep : ∀ t i t', VotesBound t ∧ t.1.1.council.caseData k = some case ∧
      (∀ voter, t.1.1.council.reveal (k, voter) = s.1.1.council.reveal (k, voter)) →
      chronicle.step t i = .ok t' → VotesBound t' ∧ t'.1.1.council.caseData k = some case ∧
      ∀ voter, t'.1.1.council.reveal (k, voter) = s.1.1.council.reveal (k, voter) := by
    rintro t i t' ⟨ht, hk, hvotes⟩ hstep
    refine ⟨ht.step hstep, ?_⟩
    obtain ⟨_, hclock, hmoves⟩ := chronicle_step hstep
    have hlate := (Binding.concluded ht k case hk hfinal).1
    rcases hmoves with ⟨ctx, b, hnow, hmove⟩ | ⟨_, hcouncil, _⟩
    · rw [← hnow] at hclock
      obtain ⟨hsame, hreveal⟩ := hmove.keeps_final (Binding.ids ht) hk hfinal
        (hlate.trans_le hclock)
      exact ⟨hsame, fun voter => (hreveal voter).trans (hvotes voter)⟩
    · rw [hcouncil]
      exact ⟨hk, hvotes⟩
  exact (System.runs_keep hkeep ⟨hs, hcase, fun _ => rfl⟩ steps h).2

/-- An outcome with more votes than each other one. -/
def Elected (case : CouncilCase) (outcome : Outcome) : Prop :=
  ∀ o, o ≠ outcome → votesFor case o < votesFor case outcome

/-- The tally elects the outcome with more votes than each other one. -/
theorem tally_of_elected {case : CouncilCase} {outcome : Outcome} (h : Elected case outcome) :
    tally case = outcome := by
  unfold tally
  cases outcome with
  | yes =>
    have hno : case.noVotes < case.yesVotes := h .no nofun
    have hinvalid : case.invalidVotes < case.yesVotes := h .invalid nofun
    rw [if_pos ⟨hno, hinvalid⟩]
  | no =>
    have hyes : case.yesVotes < case.noVotes := h .yes nofun
    have hinvalid : case.invalidVotes < case.noVotes := h .invalid nofun
    rw [if_neg (fun hk => hyes.not_gt hk.1), if_pos ⟨hyes, hinvalid⟩]
  | invalid =>
    have hyes : case.yesVotes < case.invalidVotes := h .yes nofun
    have hno : case.noVotes < case.invalidVotes := h .no nofun
    rw [if_neg (fun hk => hyes.not_gt hk.2), if_neg (fun hk => hno.not_gt hk.2)]

/-- Where no outcome is elected, the tally is invalid. -/
theorem tally_of_not_elected {case : CouncilCase} (h : ∀ outcome, ¬Elected case outcome) :
    tally case = .invalid := by
  unfold tally
  split
  · next hyes =>
    refine absurd ?_ (h .yes)
    intro o ho
    cases o with
    | yes => exact absurd rfl ho
    | no => exact hyes.1
    | invalid => exact hyes.2
  · split
    · next hno =>
      refine absurd ?_ (h .no)
      intro o ho
      cases o with
      | yes => exact hno.1
      | no => exact absurd rfl ho
      | invalid => exact hno.2
    · rfl

/-- No two votes have the same commitment. -/
def HashInjective (host : Host) : Prop :=
  ∀ k voter outcome salt k' voter' outcome' salt',
    host.voteCommitmentHash k voter outcome salt =
      host.voteCommitmentHash k' voter' outcome' salt' →
    k = k' ∧ voter = voter' ∧ outcome = outcome' ∧ salt = salt'

/-- A voter committed, as a member and in the commit window of the case, to
exactly this vote and to no other. -/
def CommittedTo (s : (World × ℕ) × List CouncilEvent) (k : ℕ) (case : CouncilCase)
    (voter : Address) (outcome : Outcome) : Prop :=
  ∃ commitment madeAt,
    .committed k voter commitment madeAt true ∈ s.2 ∧ case.votingStart ≤ madeAt ∧
    madeAt ≤ case.commitEnd ∧
    (∀ commitment' madeAt' member,
      .committed k voter commitment' madeAt' member ∈ s.2 → commitment' = commitment) ∧
    ∃ salt, ∀ k' voter' outcome' salt',
      s.1.1.host.voteCommitmentHash k' voter' outcome' salt' = commitment ↔
        (k', voter', outcome', salt') = (k, voter, outcome, salt)

/-- A stored vote was committed to. -/
theorem VotesBound.committedTo {s : (World × ℕ) × List CouncilEvent} (hs : VotesBound s)
    (hinj : HashInjective s.1.1.host) {k : ℕ} {case : CouncilCase} {voter : Address}
    {outcome : Outcome} (hcase : s.1.1.council.caseData k = some case)
    (hreveal : s.1.1.council.reveal (k, voter) = some outcome) :
    CommittedTo s k case voter outcome := by
  obtain ⟨salt, hcommit⟩ := Binding.stored hs k voter outcome hreveal
  obtain ⟨madeAt, member, hmem⟩ := Binding.made hs k voter _ hcommit
  obtain ⟨_, rfl, case', hcase', hfrom, hto⟩ := Binding.windowed hs k voter _ madeAt member hmem
  rw [hcase] at hcase'
  obtain rfl := Option.some.inj hcase'
  refine ⟨_, madeAt, hmem, hfrom, hto, ?_, salt, ?_⟩
  · intro commitment' madeAt' member hmem'
    obtain ⟨hstored, _⟩ := Binding.windowed hs k voter commitment' madeAt' member hmem'
    rw [hcommit] at hstored
    exact (Option.some.inj hstored).symm
  · intro k' voter' outcome' salt'
    constructor
    · intro heq
      obtain ⟨rfl, rfl, rfl, rfl⟩ := hinj _ _ _ _ _ _ _ _ heq
      rfl
    · intro heq
      cases heq
      rfl

/-- In every reachable state the counters of a case are the numbers of voters
with each stored vote, each of them was committed to, and a final case keeps
its votes and has the outcome they elect, invalid when they elect none. -/
theorem votes_binding {s : (World × ℕ) × List CouncilEvent} (h : chronicle.Reachable s)
    (hinj : HashInjective s.1.1.host) {k : ℕ} {case : CouncilCase}
    (hcase : s.1.1.council.caseData k = some case) :
    case.yesVotes = (voters s.1.1.council.reveal k .yes).card ∧
      case.noVotes = (voters s.1.1.council.reveal k .no).card ∧
      case.invalidVotes = (voters s.1.1.council.reveal k .invalid).card ∧
      case.totalValidVotes = case.yesVotes + case.noVotes + case.invalidVotes ∧
      (∀ voter outcome, s.1.1.council.reveal (k, voter) = some outcome →
        CommittedTo s k case voter outcome) ∧
      (case.hasFinalOutcome = true →
        (∀ steps s', chronicle.runs s steps = .ok s' →
          s'.1.1.council.caseData k = some case ∧
            ∀ voter, s'.1.1.council.reveal (k, voter) = s.1.1.council.reveal (k, voter)) ∧
        (∀ outcome, Elected case outcome → case.finalOutcome = outcome) ∧
        ((∀ outcome, ¬Elected case outcome) → case.finalOutcome = .invalid)) := by
  have hs := votesBound h
  obtain ⟨hcounted, htotal⟩ := Binding.counted hs k case hcase
  refine ⟨hcounted .yes, hcounted .no, hcounted .invalid, htotal,
    fun voter outcome hreveal => hs.committedTo hinj hcase hreveal, ?_⟩
  intro hfinal
  have hout := (Binding.concluded hs k case hcase hfinal).2
  refine ⟨fun steps s' hruns => hs.frozen hcase hfinal hruns, ?_, ?_⟩
  · intro outcome helected
    rw [hout]
    exact tally_of_elected helected
  · intro hnone
    rw [hout]
    exact tally_of_not_elected hnone

/-- A number for each address. -/
def addressCode : Address → ℕ
  | .contract c => 2 * c.ctorIdx
  | .account n => 2 * n + 1

/-- A host without collisions. -/
def pairingHost : Host where
  payloadHash := fun _ => 0
  voteCommitmentHash := fun k voter outcome salt =>
    Nat.pair k (Nat.pair (addressCode voter) (Nat.pair outcome.ctorIdx salt))

/-- Different addresses have different numbers. -/
theorem addressCode_injective {a b : Address} (h : addressCode a = addressCode b) : a = b := by
  cases a with
  | contract c =>
    cases b with
    | contract d =>
      simp only [addressCode] at h
      have hidx : c.ctorIdx = d.ctorIdx := by omega
      cases c <;> cases d <;> first | rfl | exact absurd hidx (by decide)
    | account n =>
      simp only [addressCode] at h
      omega
  | account n =>
    cases b with
    | contract d =>
      simp only [addressCode] at h
      omega
    | account n' =>
      simp only [addressCode] at h
      have hn : n = n' := by omega
      rw [hn]

/-- Its commitments are those of one vote only. -/
theorem pairingHost_injective : HashInjective pairingHost := by
  intro k voter outcome salt k' voter' outcome' salt' h
  obtain ⟨hk, h⟩ := Nat.pair_eq_pair.mp h
  obtain ⟨hvoter, h⟩ := Nat.pair_eq_pair.mp h
  obtain ⟨houtcome, hsalt⟩ := Nat.pair_eq_pair.mp h
  refine ⟨hk, addressCode_injective hvoter, ?_, hsalt⟩
  cases outcome <;> cases outcome' <;> first | rfl | exact absurd houtcome (by decide)

/-- The sample deployment on that host. -/
def ballotLaunch : Launch := { sampleLaunch with host := pairingHost }

/-- An account invokes at a time. -/
def signedAt (now : ℕ) (a : Address) : Ctx := ⟨now, [a], []⟩

/-- The oracle opens a case at time 1, with windows of ten. -/
def openedCase : CouncilStep :=
  .call ⟨1, [], [.contract .oracle]⟩ (.openCase 1 1 alice .yes "for" bob .no "against"
    { proposalBond := 10, disputeBond := 10, commitDuration := 10, revealDuration := 10,
      token := sampleToken })

/-- Two members vote yes and the case is tallied. -/
def ballot : List CouncilStep :=
  [.call (bySigner (.account 2)) (.setMember alice true),
    .call (bySigner (.account 2)) (.setMember bob true), openedCase,
    .call (signedAt 2 alice)
      (.commitVote alice 1 (pairingHost.voteCommitmentHash 1 alice .yes 7)),
    .call (signedAt 3 bob) (.commitVote bob 1 (pairingHost.voteCommitmentHash 1 bob .yes 8)),
    .call (signedAt 12 alice) (.revealVote alice 1 .yes 7),
    .call (signedAt 13 bob) (.revealVote bob 1 .yes 8),
    .call (signedAt 22 alice) (.finalizeCase 1)]

/-- The two votes are those two voters', and alice committed to hers. -/
theorem votes_binding_of_ballot : ∃ s case,
    chronicle.runs ((deploy ballotLaunch, 0), []) ballot = .ok s ∧
      s.1.1.council.caseData 1 = some case ∧ case.finalOutcome = .yes ∧ case.yesVotes = 2 ∧
      (voters s.1.1.council.reveal 1 .yes).card = 2 ∧ CommittedTo s 1 case alice .yes := by
  obtain ⟨s, hs, hcheck⟩ := System.runs_of_decide (S := chronicle)
    ((deploy ballotLaunch, 0), []) ballot
    (fun s => decide ((s.1.1.council.caseData 1).map (fun case =>
        (case.finalOutcome, case.yesVotes)) = some (.yes, 2)) &&
      decide (s.1.1.council.reveal (1, alice) = some .yes)) (by decide +kernel)
  obtain ⟨hcase, hreveal⟩ := Bool.and_eq_true_iff.mp hcheck
  obtain ⟨case, hcase, hpair⟩ := Option.map_eq_some_iff.mp (of_decide_eq_true hcase)
  obtain ⟨hout, hyes⟩ := Prod.mk.inj hpair
  have hreach : chronicle.Reachable s :=
    System.Reachable.runs (.init ⟨⟨_, rfl⟩, rfl⟩) ballot hs
  have hhost : s.1.1.host = pairingHost :=
    System.runs_keep (fun _ _ _ ht hstep => (chronicle_host hstep).trans ht) rfl ballot hs
  obtain ⟨hcount, _, _, _, hbound, _⟩ :=
    votes_binding hreach (hhost ▸ pairingHost_injective) hcase
  exact ⟨s, case, hs, hcase, hout, hyes, hcount ▸ hyes,
    hbound alice .yes (of_decide_eq_true hreveal)⟩

end DikeProtocol.Council
