import ChainMaker.Tbft.Recovery

/-! Votes that a node learns from the state of a peer. They are queued as prevote messages, the
precommits too, so that at the step of precommits they are refused where their own message would
be taken. -/

namespace ChainMaker.Tbft
namespace ConsensusTBFTImpl
open Option List

/-- The messages that are queued for one validator of a peer's round, each with the message that
the vote would have arrived in. -/
def fedOfPeer (n : ConsensusTBFTImpl) (voteSet : RoundVoteSet) (voter : NodeId) :
    List (Vote × TBFTMsg × TBFTMsg) :=
  (if n.step.rank < Step.precommit.rank then
    ((voteSet.prevotes.votes.lookup voter).map
      fun v => (v, TBFTMsg.prevote (some v), TBFTMsg.prevote (some v))).toList else []) ++
  (if n.step.rank < Step.commit.rank then
    ((voteSet.precommits.votes.lookup voter).map
      fun v => (v, TBFTMsg.prevote (some v), TBFTMsg.precommit (some v))).toList else [])

def fed (env : Env) (n : ConsensusTBFTImpl) (g : GossipState) : List (Vote × TBFTMsg × TBFTMsg) :=
  ((g.roundVoteSet.bind (newRoundVoteSetFromProto · env.validatorSet)).map fun voteSet =>
    env.validatorSet.validators.flatMap (n.fedOfPeer voteSet)).getD []

variable {env : Env} {n m : ConsensusTBFTImpl} {v : Vote} {g : GossipState}

lemma map_fedOfPeer (voteSet : RoundVoteSet) (voter : NodeId) :
    (n.fedOfPeer voteSet voter).map (·.2.1) = n.votesOfPeer voteSet voter := by
  have hone : ∀ (o : Option Vote) (f : Vote → TBFTMsg),
      ((o.map fun v => (v, TBFTMsg.prevote (some v), f v)).toList).map (·.2.1) =
        (o.map (TBFTMsg.prevote ∘ some)).toList := by
    intro o f
    cases o <;> rfl
  unfold fedOfPeer votesOfPeer
  rw [map_append]
  congr 1
  · split
    · exact hone _ _
    · rfl
  · split
    · exact hone _ _
    · rfl

lemma map_fed (g : GossipState) : (n.fed env g).map (·.2.1) = n.gossiped env g := by
  unfold fed gossiped
  cases g.roundVoteSet.bind (newRoundVoteSetFromProto · env.validatorSet) with
  | none => rfl
  | some voteSet =>
    simp only [map_some, getD_some, map_flatMap]
    exact congrArg (env.validatorSet.validators.flatMap ·) (funext fun k => map_fedOfPeer voteSet k)

lemma procRecvState_fed {rvs : RoundVoteSetProto} (hrvs : g.roundVoteSet = some rvs)
    (hvotes : (newRoundVoteSetFromProto rvs env.validatorSet).isSome = true)
    (hpeer : g.id ≠ n.id ∧ env.validatorSet.hasValidator g.id = true)
    (hsame : g.height = n.height ∧ g.round = n.round) : n.procRecvState env g =
      some { n with internalMsgC := n.internalMsgC ++ (n.fed env g).map (·.2.1) } := by
  obtain ⟨voteSet, hvoteSet⟩ := isSome_iff_exists.mp hvotes
  rw [map_fed, gossiped, hrvs, bind_some, hvoteSet, procRecvState,
    if_neg (not_or.mpr ⟨hpeer.1, not_not.mpr hpeer.2⟩), hrvs]
  simp only [hvoteSet, map_some, getD_some, if_pos hsame]
  rfl

lemma fed_cases {p : Vote × TBFTMsg × TBFTMsg} (hp : p ∈ n.fed env g) :
    p.1.voter ∈ env.validatorSet.validators ∧ p.2.1 = .prevote (some p.1) ∧
      (p.2.2 = .prevote (some p.1) ∨ p.2.2 = .precommit (some p.1)) := by
  unfold fed at hp
  cases hset : g.roundVoteSet.bind (newRoundVoteSetFromProto · env.validatorSet) with
  | none =>
    rw [hset] at hp
    cases hp
  | some voteSet =>
    rw [hset] at hp
    obtain ⟨rvs, -, hrvs⟩ := bind_eq_some_iff.mp hset
    obtain ⟨prevotes, -, hrvs⟩ := bind_eq_some_iff.mp hrvs
    obtain ⟨precommits, -, hrvs⟩ := bind_eq_some_iff.mp hrvs
    cases hrvs
    obtain ⟨voter, hvoter, hp⟩ := mem_flatMap.mp hp
    rcases mem_append.mp hp with hp | hp
    · split at hp
      · obtain ⟨v, hv, rfl⟩ := map_eq_some_iff.mp (mem_toList.mp hp)
        have hentered := (newVoteSetFromProto_wf prevotes env.validatorSet).entered _ _ hv
        exact ⟨hentered.1 ▸ hvoter, rfl, .inl rfl⟩
      · cases hp
    · split at hp
      · obtain ⟨v, hv, rfl⟩ := map_eq_some_iff.mp (mem_toList.mp hp)
        have hentered := (newVoteSetFromProto_wf precommits env.validatorSet).entered _ _ hv
        exact ⟨hentered.1 ▸ hvoter, rfl, .inr rfl⟩
      · cases hp

def Lacks (n : ConsensusTBFTImpl) (v : Vote) : Prop :=
  (n.heightRoundVoteSet.voteSet v.round v.type).votes.lookup v.voter = none

def Awaits (env : Env) (n : ConsensusTBFTImpl) (v : Vote) : Prop :=
  n.height = v.height ∧ n.round = v.round ∧ n.step = .precommit ∧
    (v.voter = n.id ∨ env.verifyVote v = true)

lemma addVote_ne_some_self (hwf : m.heightRoundVoteSet.Wf env.validatorSet)
    (hheight : m.heightRoundVoteSet.height = v.height)
    (hvoter : v.voter ∈ env.validatorSet.validators) (hlacks : m.Lacks v) :
    m.addVote env v false ≠ some m := by
  intro h
  obtain ⟨⟨hvs, res⟩, hadd, hn⟩ := bind_eq_some_iff.mp h
  obtain ⟨-, -, hres, -⟩ := HeightRoundVoteSet.voteSet_addVote hadd
  have hset := hwf.voteSet v.round v.type
  have hmatch : (m.heightRoundVoteSet.voteSet v.round v.type).checkVoteMatched v = true := by
    simp [VoteSet.checkVoteMatched, hset.type_eq, hset.height_eq, hset.round_eq, hheight]
  have hval : (m.heightRoundVoteSet.voteSet v.round v.type).validators.hasValidator
      v.voter = true := by
    rw [hset.validators_eq]
    exact contains_iff_mem.mpr hvoter
  have hok : res = .ok true := by
    have hnone : (m.heightRoundVoteSet.voteSet v.round v.type).votes.lookup v.voter = none := hlacks
    rw [hres, VoteSet.addVote, hmatch, hval]
    simp [hnone]
  dsimp only at hn
  rw [if_pos hok] at hn
  -- the vote is in the log before it is acted on, and acting on it leaves the log alone
  have hwal := congrArg (·.entries.length) (Frame.onVote hn).wal
  simp [saveUnless, saveWalEntry, Wal.write] at hwal

lemma handle_relayed_iff (hwf : m.heightRoundVoteSet.Wf env.validatorSet)
    (hheight : m.heightRoundVoteSet.height = m.height)
    (hvoter : v.voter ∈ env.validatorSet.validators) (hlacks : m.Lacks v) :
    m.handleConsensusMsg env (.prevote (some v)) = m.handleConsensusMsg env (.precommit (some v)) ↔
      ¬m.Awaits env v := by
  show m.procVote env .prevote v = m.procVote env .precommit v ↔ _
  constructor
  · rintro heq ⟨hh, hr, hs, htaken⟩
    have hrelayed : m.procVote env .prevote v = some m := by
      rw [procVote, if_pos (.inr (.inr ⟨hr, by rw [hs]; decide⟩))]
    have hown : m.procVote env .precommit v = m.addVote env v false := by
      rw [procVote, if_neg, if_neg]
      · exact fun hne => htaken.elim hne.1 hne.2
      rintro (hne | hlt | ⟨-, hlt⟩)
      · exact hne hh
      · exact absurd hr hlt.ne'
      · rw [hs] at hlt
        exact absurd hlt (lt_irrefl _)
    exact addVote_ne_some_self hwf (hheight.trans hh) hvoter hlacks
      (hown.symm.trans (heq.symm.trans hrelayed))
  · intro hnot
    unfold procVote
    by_cases hstep : m.height = v.height ∧ m.round = v.round ∧ m.step = .precommit
    · have hrefused : v.voter ≠ m.id ∧ ¬env.verifyVote v = true := by
        by_contra! hne
        exact hnot ⟨hstep.1, hstep.2.1, hstep.2.2, or_iff_not_imp_left.mpr hne⟩
      rw [if_pos hrefused]
      simp
    · congr 1
      rw [eq_iff_iff]
      refine or_congr_right' fun hh => or_congr_right (and_congr_right fun hr => ?_)
      cases hs : m.step <;> simp_all [Step.rank]

theorem relay_faithful_iff (env : Env) (n m : ConsensusTBFTImpl) (g : GossipState)
    (rvs : RoundVoteSetProto) (hrvs : g.roundVoteSet = some rvs)
    (hvotes : (newRoundVoteSetFromProto rvs env.validatorSet).isSome = true)
    (hpeer : g.id ≠ n.id ∧ env.validatorSet.hasValidator g.id = true)
    (hsame : g.height = n.height ∧ g.round = n.round)
    (hwf : m.heightRoundVoteSet.Wf env.validatorSet)
    (hheight : m.heightRoundVoteSet.height = m.height) :
    n.procRecvState env g =
        some { n with internalMsgC := n.internalMsgC ++ (n.fed env g).map (·.2.1) } ∧
      ((∀ p ∈ n.fed env g, m.Lacks p.1 →
          m.handleConsensusMsg env p.2.1 = m.handleConsensusMsg env p.2.2) ↔
        ∀ p ∈ n.fed env g, m.Lacks p.1 → p.2.2 = .precommit (some p.1) → ¬m.Awaits env p.1) := by
  refine ⟨procRecvState_fed hrvs hvotes hpeer hsame, forall₃_congr fun p hp hlacks => ?_⟩
  obtain ⟨hvoter, hqueued, hown | hown⟩ := fed_cases hp
  · rw [hqueued, hown]
    exact iff_of_true rfl nofun
  · rw [hqueued, hown, handle_relayed_iff hwf hheight hvoter hlacks]
    exact ⟨fun hawaits _ => hawaits, fun hawaits => hawaits rfl⟩

def gossipTwo : GossipState :=
  ⟨[1], 1, 0, some ⟨1, 0, some ⟨.prevote, 1, 0, []⟩, some ⟨.precommit, 1, 0,
    [([2], sign [2] ⟨.precommit, [2], 1, 0, some [7], none⟩)]⟩⟩⟩

theorem relay_faithful_prevote : (start fourEnv [0] 0).fed fourEnv gossipTwo ≠ [] ∧
    ∀ p ∈ (start fourEnv [0] 0).fed fourEnv gossipTwo, (start fourEnv [0] 0).Lacks p.1 →
      (start fourEnv [0] 0).handleConsensusMsg fourEnv p.2.1 =
        (start fourEnv [0] 0).handleConsensusMsg fourEnv p.2.2 :=
  ⟨by decide +kernel, (relay_faithful_iff _ (start fourEnv [0] 0) _ gossipTwo _ rfl rfl (by decide)
    ⟨rfl, rfl⟩ (.new _ _ _) rfl).2.mpr fun _ _ _ _ hawaits =>
    absurd hawaits.2.2.1 (by decide)⟩

def precommitting : ConsensusTBFTImpl := { start fourEnv [0] 0 with step := .precommit }

/-- At the step of precommits the relayed precommit is dropped, and its own message is logged. -/
theorem relay_unfaithful :
    ∃ p ∈ precommitting.fed fourEnv gossipTwo, precommitting.Lacks p.1 ∧
      (precommitting.handleConsensusMsg fourEnv p.2.1).map (·.wal.entries.length) = some 0 ∧
      (precommitting.handleConsensusMsg fourEnv p.2.2).map (·.wal.entries.length) = some 1 :=
  ⟨_, mem_singleton_self _, rfl, by decide +kernel, by decide +kernel⟩

end ConsensusTBFTImpl
end ChainMaker.Tbft
