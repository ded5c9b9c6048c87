import ChainMaker.Tbft.Agreement
import ChainMaker.Tbft.Guarded

/-! When a node crashes. Of what is sent to it in good form nothing can make it panic but a majority
that it learns of too early: one of a later round, on which it leaves its own round undecided, or
one of its own round for a block that it has not got. -/

namespace ChainMaker.Tbft
open Option HeightRoundVoteSet

namespace HeightRoundVoteSet
variable {hvs hvs' : HeightRoundVoteSet} {vote : Vote} {res : Except VoteError Bool} {r : ℤ}

lemma addVote_eq_none_iff : hvs.addVote vote = none ↔ vote.wellFormed = false := by
  cases hr : hvs.getRoundVoteSet vote.round <;> cases ht : vote.type <;>
    simp [addVote, RoundVoteSet.get, Vote.wellFormed, hr, ht]

lemma getRoundVoteSet_addVote_of_ne (h : hvs.addVote vote = some (hvs', res))
    (hr : r ≠ vote.round) : hvs'.getRoundVoteSet r = hvs.getRoundVoteSet r := by
  simp only [addVote, bind_eq_bind, bind_eq_some_iff, pure_def, some.injEq, Prod.mk.injEq] at h
  obtain ⟨vs, -, rfl, -⟩ := h
  simp only [getRoundVoteSet, AList.lookup_insert_ne hr]

lemma getVoteSet_addVote_of_ne (h : hvs.addVote vote = some (hvs', res))
    (hr : r ≠ vote.round) (t : VoteType) : hvs'.getVoteSet r t = hvs.getVoteSet r t := by
  rw [getVoteSet, getVoteSet, getRoundVoteSet_addVote_of_ne h hr]

end HeightRoundVoteSet

namespace ConsensusTBFTImpl
variable {env : Env} {n n' : ConsensusTBFTImpl} {rest : List TBFTMsg} {r : ℤ} {ti : TimeoutInfo}

def canHandle (n : ConsensusTBFTImpl) : Event → Bool
  | .internalMsg => !n.internalMsgC.isEmpty
  | .timerFires => n.timeScheduler.armed
  | .timeout => !n.timeScheduler.timeoutC.isEmpty
  | _ => true

def incoming (n : ConsensusTBFTImpl) : Event → Option Vote
  | .externalMsg msg => msg.vote
  | .internalMsg => n.internalMsgC.head?.bind (·.vote)
  | _ => none

/-- The prevotes of the round have no majority, and one can still come. -/
structure Undecided (n : ConsensusTBFTImpl) : Prop where
  majority : (n.heightRoundVoteSet.voteSet n.round .prevote).maj23 = none
  few : ∀ vs ∈ n.heightRoundVoteSet.prevotes n.round, vs.hasTwoThirdsNoMajority = false
  possible : ∀ vs ∈ n.heightRoundVoteSet.prevotes n.round, vs.hasTwoThirdsAny = false

structure Mismatched (n : ConsensusTBFTImpl) : Prop where
  block : isNilHash n.precommitMajority = false
  proposal : ∀ p ∈ n.proposal, n.precommitMajority.bytes ≠ p.block.header.blockHash.bytes

/-- The vote is counted for a later round than that of the node, whose set then has the majority. -/
structure LateMajority (env : Env) (n : ConsensusTBFTImpl) (v : Vote) (x : Bytes) : Prop where
  height : v.height = n.height
  later : n.round < v.round
  taken : v.voter = n.id ∨ env.verifyVote v = true
  counted : ((n.heightRoundVoteSet.voteSet v.round v.type).addVote v).2 = .ok true
  majority : ((n.heightRoundVoteSet.voteSet v.round v.type).addVote v).1.maj23 = some x

/-- The node goes on at a majority of prevotes, when it has a proposal or the majority is nil, in an
undecided round, or at one of precommits, nil or for its proposal, while those of its own round are
for another block. -/
inductive Upset (n : ConsensusTBFTImpl) (x : Bytes) : VoteType → Prop
  | prevote (hstep : n.step = .prevote) (hgoes : n.proposal.isSome ∨ isNilHash (some x))
      (hundecided : n.Undecided) : Upset n x .prevote
  | precommit (hstep : n.step = .precommit)
      (hgoes : isNilHash (some x) ∨ n.proposal.any fun p => x = p.block.header.blockHash.bytes)
      (hmismatched : n.Mismatched) : Upset n x .precommit

/-- What makes a node crash: the end of the time for precommits when they have a majority for a
block the node does not have, and a majority of a later round that upsets it. -/
inductive Crashes (env : Env) (n : ConsensusTBFTImpl) : Event → Prop
  | commitTimeout {rest : List TimeoutInfo}
      (hti : n.timeScheduler.timeoutC = ⟨n.height, n.round, .commit⟩ :: rest)
      (hstep : n.step = .precommit) (hmismatched : n.Mismatched) : Crashes env n .timeout
  | lateVote {e : Event} {v : Vote} {x : Bytes} (hv : n.incoming e = some v)
      (hlate : n.LateMajority env v x) (hupset : n.Upset x v.type) : Crashes env n e

lemma precommitHash_eq_none_iff : n.precommitHash = none ↔ n.Undecided := by
  have hmaj := n.heightRoundVoteSet.twoThirdsMajority_getVoteSet n.round .prevote
  unfold precommitHash
  dsimp only [prevotes]
  rw [hmaj]
  cases hm : (n.heightRoundVoteSet.voteSet n.round .prevote).maj23 with
  | some x =>
    refine ⟨nofun, fun h => ?_⟩
    rw [h.majority] at hm
    cases hm
  | none =>
    constructor
    · intro h
      dsimp only at h
      split at h
      case isTrue => cases h
      case isFalse hany =>
        simp only [Bool.or_eq_true, not_or, Bool.not_eq_true, any_eq_false] at hany
        exact ⟨hm, hany.2, hany.1⟩
    · intro h
      refine if_neg ?_
      simp only [Bool.or_eq_true, not_or, Bool.not_eq_true, any_eq_false]
      exact ⟨h.possible, h.few⟩

lemma enterPrecommit_eq_none_iff {h : ℕ} : n.enterPrecommit env h r = none ↔
    ¬(n.height ≠ h ∨ n.round > r ∨ n.round = r ∧ n.step ≠ .prevote) ∧ n.Undecided := by
  unfold enterPrecommit
  split
  case isTrue hguard => simp [hguard]
  case isFalse hguard =>
    rw [map_eq_none_iff, precommitHash_eq_none_iff]
    exact (and_iff_right hguard).symm

lemma commitProposal_ne_none {p : Proposal} (hp : p.block.attachable = true) :
    n.commitProposal env p ≠ none := by
  rw [← Block.isSome_attach p.block (n.precommitCertificate env)] at hp
  obtain ⟨block, hblock⟩ := isSome_iff_exists.mp hp
  simp [commitProposal, hblock]

lemma enterCommit_eq_none_iff (hattach : ∀ p ∈ n.proposal, p.block.attachable = true) {h : ℕ} :
    n.enterCommit env h r = none ↔
      ¬(n.height ≠ h ∨ n.round > r ∨ n.round = r ∧ n.step ≠ .precommit) ∧ n.Mismatched := by
  have hmaj : twoThirdsMajority (n.heightRoundVoteSet.precommits n.round) = n.precommitMajority :=
    n.heightRoundVoteSet.twoThirdsMajority_getVoteSet n.round .precommit
  unfold enterCommit
  split
  case isTrue hguard => simp [hguard]
  case isFalse hguard =>
  dsimp only
  rw [hmaj, and_iff_right hguard]
  split
  case isTrue hnil =>
    refine ⟨nofun, fun h => ?_⟩
    rw [h.block] at hnil
    cases hnil
  case isFalse hnil =>
  have hblock : isNilHash n.precommitMajority = false := Bool.eq_false_of_not_eq_true hnil
  cases hp : n.proposal with
  | none => exact ⟨fun _ => ⟨hblock, by simp [hp]⟩, fun _ => rfl⟩
  | some p =>
    dsimp only
    split
    case isTrue hne => exact ⟨fun _ => ⟨hblock, by simpa [hp] using hne⟩, fun _ => rfl⟩
    case isFalse heq =>
      constructor
      · exact fun h => absurd h (commitProposal_ne_none (hattach p hp))
      · exact fun h => absurd (not_not.mp heq) (h.proposal p hp)

lemma tallied_eq_none_iff {s : Step} {voteSet : Option VoteSet} {triggered : Bool}
    {goes : Bytes → Prop} [DecidablePred goes] {enter : Option ConsensusTBFTImpl}
    {timed : ConsensusTBFTImpl} {Stuck : Prop} (henter : n.step = s → (enter = none ↔ Stuck))
    (hnone : Stuck → n.round = r → twoThirdsMajority voteSet = none →
      voteSet.any (·.hasTwoThirdsAny) = false) :
    n.tallied s r voteSet triggered goes enter timed = none ↔
      n.step = s ∧ Stuck ∧ ∃ x, twoThirdsMajority voteSet = some x ∧ goes x := by
  unfold tallied
  split
  case isTrue hstep => simp [hstep]
  case isFalse hstep =>
  have hstep := not_not.mp hstep
  rw [and_iff_right hstep]
  cases hmaj : twoThirdsMajority voteSet with
  | some x =>
    dsimp only
    split
    case isTrue hgoes =>
      rw [henter hstep]
      exact ⟨fun h => ⟨h, x, rfl, hgoes⟩, fun h => h.1⟩
    case isFalse hgoes =>
      refine ⟨nofun, ?_⟩
      rintro ⟨-, y, hy, h⟩
      exact absurd (some.inj hy ▸ h) hgoes
  | none =>
    -- Without a majority the node goes on only where its own round cannot have one.
    simp only [reduceCtorEq, false_and, exists_const, and_false, iff_false]
    split_ifs with hany
    · rw [henter hstep]
      intro hstuck
      rw [hnone hstuck hany.1 hmaj] at hany
      cases hany.2
    · exact nofun
    · exact nofun

variable {v : Vote} {x : Bytes} {e : Event}

lemma addPrevoteVote_eq_none_iff : n.addPrevoteVote env v = none ↔ n.step = .prevote ∧ n.Undecided ∧
      ∃ x, (n.heightRoundVoteSet.voteSet v.round .prevote).maj23 = some x ∧
      (n.proposal.isSome ∨ isNilHash (some x)) := by
  rw [← twoThirdsMajority_getVoteSet, addPrevoteVote_eq]
  refine tallied_eq_none_iff (fun hstep => ?_) fun hund hround _ => ?_
  · rw [enterPrecommit_eq_none_iff]
    simp [hstep]
  · rw [← hround]
    exact (any_eq_false _ _).mpr hund.possible

lemma addPrecommitVote_eq_none_iff (hattach : ∀ p ∈ n.proposal, p.block.attachable = true) :
    n.addPrecommitVote env v = none ↔ n.step = .precommit ∧ n.Mismatched ∧
      ∃ x, (n.heightRoundVoteSet.voteSet v.round .precommit).maj23 = some x ∧
      (isNilHash (some x) ∨ n.proposal.any fun p => x = p.block.header.blockHash.bytes) := by
  rw [← twoThirdsMajority_getVoteSet, addPrecommitVote_eq]
  refine tallied_eq_none_iff (fun hstep => ?_) fun hmis hround hmaj => ?_
  · rw [enterCommit_eq_none_iff hattach]
    simp [hstep]
  rw [precommits, twoThirdsMajority_getVoteSet, ← hround] at hmaj
  have hblock := hmis.block
  rw [precommitMajority, hmaj] at hblock
  cases hblock

lemma undecided_congr (hround : n'.round = n.round)
    (hsets : n'.heightRoundVoteSet.prevotes n.round = n.heightRoundVoteSet.prevotes n.round) :
    n'.Undecided ↔ n.Undecided := by
  rw [← precommitHash_eq_none_iff, ← precommitHash_eq_none_iff]
  unfold precommitHash
  rw [hround, hsets]

lemma mismatched_congr (hproposal : n'.proposal = n.proposal)
    (hmaj : n'.precommitMajority = n.precommitMajority) : n'.Mismatched ↔ n.Mismatched := by
  constructor <;> exact fun h => ⟨hmaj ▸ h.block, hmaj ▸ hproposal ▸ h.proposal⟩

section
variable (hattach : ∀ p ∈ n.proposal, p.block.attachable = true)
include hattach

lemma onVote_eq_none_iff (hv : v.wellFormed = true) {hvs : HeightRoundVoteSet}
    {res : Except VoteError Bool} (hvote : n.heightRoundVoteSet.addVote v = some (hvs, res)) :
    ({ n with heightRoundVoteSet := hvs
    }.saveWalEntry (.vote v)).onVote env v = none ↔
      n.round ≠ v.round ∧ ∃ x, ((n.heightRoundVoteSet.voteSet v.round v.type).addVote v).1.maj23 =
        some x ∧ n.Upset x v.type := by
  generalize hm : { n with heightRoundVoteSet := hvs }.saveWalEntry (.vote v) = m
  obtain ⟨hround, hstep, hproposal, hsets⟩ : m.round = n.round ∧ m.step = n.step ∧
      m.proposal = n.proposal ∧ m.heightRoundVoteSet = hvs := hm ▸ ⟨rfl, rfl, rfl, rfl⟩
  have hown : ∀ t, n.round ≠ v.round →
      m.heightRoundVoteSet.getVoteSet n.round t = n.heightRoundVoteSet.getVoteSet n.round t :=
    fun t hne => hsets ▸ getVoteSet_addVote_of_ne hvote hne t
  have hset : m.heightRoundVoteSet.voteSet v.round v.type =
      ((n.heightRoundVoteSet.voteSet v.round v.type).addVote v).1 := by
    rw [hsets, (voteSet_addVote hvote).2.2.2, if_pos ⟨rfl, rfl⟩]
  rw [← hset]
  unfold onVote
  cases ht : v.type with
  | prevote =>
    rw [addPrevoteVote_eq_none_iff, hstep, hproposal]
    constructor
    · rintro ⟨hprevote, hund, x, hx, hgoes⟩
      have hne : n.round ≠ v.round := by
        intro heq
        have hnone := hund.majority
        rw [hround, heq, hx] at hnone
        cases hnone
      exact ⟨hne, x, hx, .prevote hprevote hgoes ((undecided_congr hround (hown _ hne)).mp hund)⟩
    · rintro ⟨hne, x, hx, ⟨hprevote, hgoes, hund⟩⟩
      exact ⟨hprevote, (undecided_congr hround (hown _ hne)).mpr hund, x, hx, hgoes⟩
  | precommit =>
    have hmaj : n.round ≠ v.round → m.precommitMajority = n.precommitMajority := by
      intro hne
      unfold precommitMajority
      rw [hround, ← twoThirdsMajority_getVoteSet, hown _ hne, twoThirdsMajority_getVoteSet]
    rw [addPrecommitVote_eq_none_iff (hproposal ▸ hattach), hstep, hproposal]
    constructor
    · rintro ⟨hprecommit, hmis, x, hx, hgoes⟩
      have hne : n.round ≠ v.round := by
        intro heq
        have hown : m.precommitMajority = some x := by
          rw [precommitMajority, hround, heq]
          exact hx
        have hblock := hmis.block
        rw [hown] at hblock
        rcases hgoes with hnil | hmatch
        · rw [hblock] at hnil
          cases hnil
        obtain ⟨p, hp, hbytes⟩ := (any_eq_true _ _).mp hmatch
        have hother := hmis.proposal p (hproposal.trans hp)
        rw [hown] at hother
        exact hother (of_decide_eq_true hbytes)
      exact ⟨hne, x, hx,
        .precommit hprecommit hgoes ((mismatched_congr hproposal (hmaj hne)).mp hmis)⟩
    · rintro ⟨hne, x, hx, hupset⟩
      obtain _ | ⟨hprecommit, hgoes, hmis⟩ := hupset
      exact ⟨hprecommit, (mismatched_congr hproposal (hmaj hne)).mpr hmis, x, hx, hgoes⟩
  | other tag => simp [Vote.wellFormed, ht] at hv

lemma addVote_false_eq_none_iff (hv : v.wellFormed = true) : n.addVote env v false = none ↔
      ((n.heightRoundVoteSet.voteSet v.round v.type).addVote v).2 = .ok true ∧ n.round ≠ v.round ∧
      ∃ x, ((n.heightRoundVoteSet.voteSet v.round v.type).addVote v).1.maj23 = some x ∧
      n.Upset x v.type := by
  cases hvote : n.heightRoundVoteSet.addVote v with
  | none =>
    rw [addVote_eq_none_iff.mp hvote] at hv
    cases hv
  | some r =>
    have hres := (voteSet_addVote hvote).2.2.1
    rw [addVote, hvote, bind_some, ← hres]
    dsimp only
    split
    case isTrue hok =>
      rw [and_iff_right hok]
      exact onVote_eq_none_iff hattach hv hvote
    case isFalse hok => simp [hok]

lemma procVote_eq_none_iff (hv : v.wellFormed = true) (last : Step) :
    n.procVote env last v = none ↔ ∃ x, n.LateMajority env v x ∧ n.Upset x v.type := by
  unfold procVote
  split
  case isTrue hguard =>
    refine ⟨nofun, ?_⟩
    rintro ⟨x, hlate, -⟩
    have hheight := hlate.height
    have hlater := hlate.later
    exact absurd hguard (by omega)
  case isFalse hguard =>
  push Not at hguard
  obtain ⟨hheight, hround, -⟩ := hguard
  split
  case isTrue htaken =>
    refine ⟨nofun, ?_⟩
    rintro ⟨x, hlate, -⟩
    rcases hlate.taken with hid | hverify
    · exact absurd hid htaken.1
    · exact absurd hverify htaken.2
  case isFalse htaken =>
  have htaken : v.voter = n.id ∨ env.verifyVote v = true := by
    by_contra! hne
    exact htaken hne
  rw [addVote_false_eq_none_iff hattach hv]
  constructor
  · rintro ⟨hcounted, hne, x, hx, hupset⟩
    exact ⟨x, ⟨hheight.symm, lt_of_le_of_ne hround hne, htaken, hcounted, hx⟩, hupset⟩
  · rintro ⟨x, hlate, hupset⟩
    exact ⟨hlate.counted, hlate.later.ne, x, hlate.majority, hupset⟩

end

lemma Timed.not_undecided (ht : n.Timed)
    (hti : ti ∈ n.timeScheduler.ti :: n.timeScheduler.timeoutC) (hstep : ti.step = .precommit)
    (hheight : ti.height = n.height) (hround : ti.round = n.round) : ¬n.Undecided := by
  intro hund
  have hquorum := ht.backed ti hti hstep hheight hround
  unfold voteSet at hquorum
  cases hvs : n.heightRoundVoteSet.getVoteSet n.round .prevote with
  | none =>
    rw [hvs, getD_none, VoteSet.not_hasTwoThirdsNoMajority_new] at hquorum
    cases hquorum
  | some vs =>
    rw [hvs, getD_some, hund.few vs hvs] at hquorum
    cases hquorum

lemma Guarded.handleTimeout_eq_none_iff (hg : n.Guarded)
    {rest : List TimeoutInfo} (hq : n.timeScheduler.timeoutC = ti :: rest) :
    { n with timeScheduler.timeoutC := rest }.handleTimeout env ti false = none ↔
      ti = ⟨n.height, n.round, .commit⟩ ∧ n.step = .precommit ∧ n.Mismatched := by
  have hti : ti ∈ n.timeScheduler.ti :: n.timeScheduler.timeoutC := by simp [hq]
  have htimely : ti.height < n.height ∨ ti.height = n.height ∧ ti.round ≤ n.round :=
    hg.timely ti hti
  unfold handleTimeout
  generalize hm : { n with timeScheduler.timeoutC := rest }.saveUnless false (.timeout ti) = m
  obtain ⟨hheight, hround, hstep, hproposal, hsets⟩ : m.height = n.height ∧ m.round = n.round ∧
      m.step = n.step ∧ m.proposal = n.proposal ∧ m.heightRoundVoteSet = n.heightRoundVoteSet :=
    hm ▸ ⟨rfl, rfl, rfl, rfl, rfl⟩
  obtain ⟨height, round, step⟩ := ti
  cases step with
  | precommit =>
    refine ⟨fun h => ?_, by simp⟩
    obtain ⟨hguard, hund⟩ := enterPrecommit_eq_none_iff.mp h
    have hund : n.Undecided := (undecided_congr hround (by rw [hsets])).mp hund
    rw [hheight, hround] at hguard
    dsimp only at htimely hguard
    push Not at hguard
    exact absurd hund (hg.toTimed.not_undecided hti rfl hguard.1.symm (by dsimp only; omega))
  | commit =>
    have hmaj : m.precommitMajority = n.precommitMajority := by
      rw [precommitMajority, hsets, hround]
      rfl
    dsimp only at htimely ⊢
    rw [enterCommit_eq_none_iff (hproposal ▸ fun p hp => hg.proposal p (.inl hp)), hheight, hround,
      hstep, mismatched_congr hproposal hmaj]
    push Not
    constructor
    · rintro ⟨⟨hh, hr, hs⟩, hmis⟩
      have hr : n.round = round := by omega
      exact ⟨by rw [hh, hr], hs hr, hmis⟩
    · rintro ⟨hti, hs, hmis⟩
      obtain ⟨rfl, rfl, -⟩ := TimeoutInfo.mk.inj hti
      exact ⟨⟨rfl, le_rfl, fun _ => hs⟩, hmis⟩
  | newHeight | newRound | propose | prevote => simp

lemma handleConsensusMsg_eq_none_iff (hattach : ∀ p ∈ n.proposal, p.block.attachable = true)
    {msg : TBFTMsg} (hmsg : msg.wellFormed = true) : n.handleConsensusMsg env msg = none ↔
      ∃ v x, msg.vote = some v ∧ n.LateMajority env v x ∧ n.Upset x v.type := by
  have hbody : ∀ {body : Option Vote} {last : Step}, body.any (·.wellFormed) = true →
      (body.bind (n.procVote env last) = none ↔
        ∃ v x, body = some v ∧ n.LateMajority env v x ∧ n.Upset x v.type) := by
    intro body last hbody
    obtain ⟨v, rfl, hv⟩ := (any_eq_true _ _).mp hbody
    rw [bind_some, procVote_eq_none_iff hattach hv]
    constructor
    · rintro ⟨x, hlate, hupset⟩
      exact ⟨v, x, rfl, hlate, hupset⟩
    · rintro ⟨w, x, hw, hlate, hupset⟩
      cases hw
      exact ⟨x, hlate, hupset⟩
  cases msg with
  | prevote | precommit => exact hbody hmsg
  | propose body =>
    obtain ⟨p, rfl, hp⟩ := (any_eq_true _ _).mp hmsg
    obtain ⟨block, hblock, -⟩ := (any_eq_true _ _).mp hp
    simp [handleConsensusMsg, procPropose, hblock, TBFTMsg.vote]
  | state body =>
    refine ⟨fun h => ?_, by simp [TBFTMsg.vote]⟩
    cases body with
    | none => cases h
    | some g =>
      simp only [TBFTMsg.wellFormed, all_some, Bool.and_eq_true] at hmsg
      simp only [handleConsensusMsg, procRecvState] at h
      split at h
      · cases h
      split at h
      · cases h
      case h_2 rvs hrvs =>
      rw [hrvs, all_some, Bool.and_eq_true] at hmsg
      obtain ⟨prevotes, hpre⟩ := isSome_iff_exists.mp hmsg.2.1
      obtain ⟨precommits, hcom⟩ := isSome_iff_exists.mp hmsg.2.2
      simp [newRoundVoteSetFromProto, hpre, hcom] at h
  | other => simp [handleConsensusMsg, TBFTMsg.vote]

lemma handleVerifyResult_ne_none (hg : n.Guarded) (r : VerifyResult) :
    n.handleVerifyResult env r false ≠ none := by
  unfold handleVerifyResult
  cases hp : n.verifingProposal with
  | none => exact nofun
  | some p =>
    dsimp only
    split
    · exact nofun
    split
    · rw [ne_eq, map_eq_none_iff]
      exact commitProposal_ne_none (hg.proposal p (.inr hp))
    · split_ifs <;> exact nofun

lemma upset_dequeue {t : VoteType} : Upset { n with internalMsgC := rest } x t ↔ n.Upset x t := by
  constructor
  all_goals
    rintro (⟨hstep, hgoes, hund⟩ | ⟨hstep, hgoes, hmis⟩)
    · exact .prevote hstep hgoes { hund with }
    · exact .precommit hstep hgoes { hmis with }

lemma lateMajority_dequeue : LateMajority env { n with
    internalMsgC := rest } v x ↔ n.LateMajority env v x :=
  ⟨fun h => { h with }, fun h => { h with }⟩

lemma crashes_iff_late (he : e ≠ .timeout) : n.Crashes env e ↔
    ∃ v x, n.incoming e = some v ∧ n.LateMajority env v x ∧ n.Upset x v.type := by
  constructor
  · rintro (⟨hti, hstep, hmis⟩ | ⟨hv, hlate, hupset⟩)
    · exact absurd rfl he
    · exact ⟨_, _, hv, hlate, hupset⟩
  · rintro ⟨v, x, hv, hlate, hupset⟩
    exact .lateVote hv hlate hupset

lemma Guarded.handle_eq_none_iff (hg : n.Guarded) (he : e.wellFormed = true)
    (hcan : n.canHandle e = true) : n.handle env e = none ↔ n.Crashes env e := by
  have hattach : ∀ p ∈ n.proposal, p.block.attachable = true := fun p hp => hg.proposal p (.inl hp)
  cases e with
  | timeout =>
    cases hq : n.timeScheduler.timeoutC with
    | nil => simp [canHandle, hq] at hcan
    | cons ti rest =>
      simp only [ConsensusTBFTImpl.handle, hq]
      rw [hg.handleTimeout_eq_none_iff hq]
      constructor
      · rintro ⟨rfl, hstep, hmis⟩
        exact .commitTimeout hq hstep hmis
      · rintro (⟨hti, hstep, hmis⟩ | ⟨hv, -⟩)
        · rw [hq] at hti
          exact ⟨(List.cons.inj hti).1, hstep, hmis⟩
        · cases hv
  | externalMsg msg =>
    rw [crashes_iff_late (by simp)]
    exact handleConsensusMsg_eq_none_iff hattach he
  | internalMsg =>
    rw [crashes_iff_late (by simp)]
    cases hq : n.internalMsgC with
    | nil => simp [canHandle, hq] at hcan
    | cons msg rest =>
      have hmsg := hg.queue msg (by simp [hq])
      simp only [ConsensusTBFTImpl.handle, hq, incoming, List.head?_cons, bind_some]
      refine (handleConsensusMsg_eq_none_iff (n := { n with internalMsgC := rest }) hattach
        hmsg.wellFormed).trans ?_
      simp only [lateMajority_dequeue, upset_dequeue]
  | verifyResult r =>
    rw [crashes_iff_late (by simp)]
    simp only [incoming, reduceCtorEq, false_and, exists_false, iff_false]
    exact handleVerifyResult_ne_none hg r
  | timerFires =>
    rw [crashes_iff_late (by simp)]
    simp [incoming, ConsensusTBFTImpl.handle, TimeScheduler.fire,
      show n.timeScheduler.armed = true from hcan]
  | proposedBlock | blockHeight =>
    rw [crashes_iff_late (by simp)]
    simp [incoming, ConsensusTBFTImpl.handle]

end ConsensusTBFTImpl

namespace Cluster
variable {c : Cluster} {s s' : Network} {es : List (NodeId × Event)}

lemma run_nodes {J : Env → ConsensusTBFTImpl → Prop} {P : Env → ConsensusTBFTImpl → Event → Prop}
    (hstep : ∀ {env n e n'}, J env n → P env n e → n.handle env e = some n' → J env n')
    (hs : ∀ i, J (c.env i) (s i))
    (hP : Runs.Meets c.step (fun s e => P (c.env e.1) (s e.1) e.2) s es)
    (hrun : Runs.run c.step s es = some s') (i : NodeId) : J (c.env i) (s' i) := by
  refine Runs.run_induction (I := fun s => ∀ i, J (c.env i) (s i)) ?_ hs hP hrun i
  intro s e s' hs hPe hstep' j
  obtain ⟨-, n, hn, rfl⟩ := step_cases hstep'
  by_cases hj : j = e.1
  · subst hj
    rw [Function.update_self]
    exact hstep (hs _) hPe hn
  · rw [Function.update_of_ne hj]
    exact hs j

theorem crashes_iff (c : Cluster) (ledger : NodeId → ℕ) (es : List (NodeId × Event)) (s : Network)
    (hes : ∀ e ∈ es, e.2.wellFormed = true)
    (hrun : Runs.run c.step (c.start ledger) es = some s) (i : NodeId)
    (hi : i ∈ c.honest) (e : Event) (he : e.wellFormed = true) (hcan : (s i).canHandle e = true) :
    c.step s (i, e) = none ↔ (s i).Crashes (c.env i) e := by
  have hmeets : Runs.Meets c.step (fun _ e => True ∧ e.2.wellFormed = true) (c.start ledger) es :=
    (Runs.Meets.of_forall (P := fun _ _ => True) (fun _ _ => trivial) _ es).and_mem hes
  have hguarded : (s i).Guarded := by
    refine run_nodes (J := fun _ n => n.Guarded) (P := fun _ _ e => True ∧ e.wellFormed = true)
      (fun hg he hn' => hg.handle he.2 hn') ?_ hmeets hrun i
    exact fun i => ConsensusTBFTImpl.Guarded.start (c.env i) i (ledger i)
  rw [← hguarded.handle_eq_none_iff he hcan]
  simp [step, hi]

def leftBehind : List (NodeId × Event) :=
  [([2], .proposedBlock (blockOf [7])), ([2], .internalMsg)] ++ receive [0] 2 0 [7] ++
    [([1], .timerFires), ([1], .timeout), ([1], .internalMsg), ([1], prevoteOf 2 0 (some [7])),
      ([1], prevoteOf 3 0 nilHash), ([1], .timerFires), ([1], .timeout), ([1], .internalMsg),
      ([2], prevoteOf 1 0 nilHash), ([2], prevoteOf 3 0 nilHash), ([2], .timerFires),
      ([2], .timeout), ([2], .internalMsg), ([1], precommitOf 2 0 nilHash),
      ([1], precommitOf 3 0 nilHash), ([2], precommitOf 1 0 nilHash),
      ([2], precommitOf 3 0 nilHash)] ++
    receive [1] 3 1 [8] ++ receive [2] 3 1 [8] ++
    [([0], prevoteOf 1 1 (some [8])), ([0], prevoteOf 2 1 (some [8]))]

theorem crashes_leftBehind : ∃ s,
    Runs.run fourCluster.step (fourCluster.start fun _ => 0) leftBehind = some s ∧
      (s [0]).Crashes (fourCluster.env [0]) (prevoteOf 3 1 (some [8])) ∧
      ¬(s [1]).Crashes (fourCluster.env [1]) (prevoteOf 3 1 (some [8])) := by
  refine ⟨_, eq_some_of_isSome (by decide +kernel), ?_, ?_⟩
  · exact (crashes_iff fourCluster (fun _ => 0) leftBehind _ (by decide) (eq_some_of_isSome _) [0]
      (by decide) (prevoteOf 3 1 (some [8])) rfl rfl).mp (isNone_iff_eq_none.mp (by decide +kernel))
  · rw [← crashes_iff fourCluster (fun _ => 0) leftBehind _ (by decide) (eq_some_of_isSome _) [1]
      (by decide) (prevoteOf 3 1 (some [8])) rfl rfl]
    exact isSome_iff_ne_none.mp (by decide +kernel)

def withoutBlock : List (NodeId × Event) :=
  [([2], .proposedBlock (blockOf [7])), ([2], .internalMsg)] ++ receive [1] 2 0 [7] ++
    [([0], .timerFires), ([0], .timeout), ([0], .internalMsg), ([0], prevoteOf 1 0 (some [7])),
      ([0], prevoteOf 3 0 nilHash), ([0], .timerFires), ([0], .timeout), ([0], .internalMsg)] ++
    gather [1] 2 3 0 [7] ++ gather [2] 1 3 0 [7] ++
    [([0], precommitOf 1 0 (some [7])), ([0], precommitOf 2 0 (some [7])),
      ([0], precommitOf 3 0 (some [7])), ([0], .timerFires)]

/-- The node panics at an event after a run in which every message is in good form and every vote in
the name of an honest node is its own. -/
def PanicsAfter (es : List (NodeId × Event)) (i : NodeId) (e : Event) : Prop :=
  i ∈ fourCluster.honest ∧
    Runs.Meets fourCluster.step (fun s e => e.2.wellFormed = true ∧ fourCluster.DeliversGenuine s e)
      (fourCluster.start fun _ => 0) (es ++ [(i, e)]) ∧
    ∃ s, Runs.run fourCluster.step (fourCluster.start fun _ => 0) es = some s ∧
      (s i).canHandle e = true ∧ (s i).handle (fourCluster.env i) e = none

lemma panicsAfter_of {i : NodeId} {e : Event} (hi : i ∈ fourCluster.honest)
    (hmeets : Runs.Meets fourCluster.step
      (fun s e => e.2.wellFormed = true ∧ fourCluster.DeliversGenuine s e)
      (fourCluster.start fun _ => 0) (es ++ [(i, e)]))
    (hrun : (Runs.run fourCluster.step (fourCluster.start fun _ => 0) es).any (fun s =>
      (s i).canHandle e && ((s i).handle (fourCluster.env i) e).isNone) = true) :
    PanicsAfter es i e := by
  obtain ⟨s, hs, h⟩ := (any_eq_true _ _).mp hrun
  obtain ⟨hcan, hnone⟩ := Bool.and_eq_true_iff.mp h
  exact ⟨hi, hmeets, s, hs, hcan, isNone_iff_eq_none.mp hnone⟩

theorem node_panics : PanicsAfter leftBehind [0] (prevoteOf 3 1 (some [8])) ∧
    PanicsAfter withoutBlock [0] .timeout :=
  ⟨panicsAfter_of (by decide) (by decide +kernel) (by decide +kernel),
    panicsAfter_of (by decide) (by decide +kernel) (by decide +kernel)⟩

end Cluster
end ChainMaker.Tbft
