import ChainMaker.Tbft.Authenticity

/-! What a node can rely on in its own state: its timers are of rounds it has reached, and what it
holds came to it in good form. -/

namespace ChainMaker.Tbft
open Option List

def Block.attachable (block : Block) : Bool := block.additionalData.all (·.extraData.isSome)

lemma Block.isSome_attach (block : Block) (qc : Bytes) :
    (block.attach qc).isSome = block.attachable := by
  unfold attach attachable
  split <;> simp_all

lemma Block.attachable_of_attach {block block' : Block} {qc : Bytes}
    (h : block.attach qc = some block') : block'.attachable = true := by
  unfold attach at h
  split at h
  · cases h
    rfl
  · cases h
  · cases h
    rfl

def Vote.wellFormed (v : Vote) : Bool := v.type = .prevote || v.type = .precommit

def TBFTMsg.wellFormed : TBFTMsg → Bool
  | .propose body => body.any fun p => p.block.any (·.attachable)
  | .prevote body => body.any (·.wellFormed)
  | .precommit body => body.any (·.wellFormed)
  | .state body => body.all fun g => g.votes.all (·.wellFormed) &&
      g.roundVoteSet.all fun rvs => rvs.prevotes.isSome && rvs.precommits.isSome
  | .other => true

def Event.wellFormed : Event → Bool
  | .proposedBlock block => block.attachable
  | .externalMsg msg => msg.wellFormed
  | _ => true

def TBFTMsg.vote : TBFTMsg → Option Vote
  | .prevote body => body
  | .precommit body => body
  | _ => none

def TBFTMsg.Queued (m : TBFTMsg) : Prop := ∃ v, m.vote = some v ∧ v.wellFormed = true

lemma TBFTMsg.Queued.wellFormed {m : TBFTMsg} (h : m.Queued) : m.wellFormed = true := by
  obtain ⟨v, hv, hwf⟩ := h
  cases m with
  | prevote | precommit => exact (any_eq_true _ _).mpr ⟨v, hv, hwf⟩
  | propose | state | other => cases hv

namespace VoteSet

lemma hasTwoThirdsNoMajority_addVote {vs : VoteSet} (vote : Vote)
    (h : vs.hasTwoThirdsNoMajority = true) : (vs.addVote vote).1.hasTwoThirdsNoMajority = true := by
  rcases addVote_cases vs vote with ⟨heq, -⟩ | ⟨-, -, -, heq⟩
  · rwa [heq]
  rw [heq]
  simp only [hasTwoThirdsNoMajority, decide_eq_true_eq, count_validators, sum_count] at h ⊢
  exact Nat.le_succ_of_le h

lemma not_hasTwoThirdsNoMajority_new (t : VoteType) (h : ℕ) (r : ℤ) (vals : ValidatorSet) :
    (newVoteSet t h r vals).hasTwoThirdsNoMajority = false := by
  simp [hasTwoThirdsNoMajority, newVoteSet, ValidatorSet.quorum]

end VoteSet

namespace ConsensusTBFTImpl
variable {env : Env} {I : Inputs} {n n' : ConsensusTBFTImpl} {t : VoteType}

/-- The timers are of rounds that the node has reached, and that for precommits stands behind a
quorum of prevotes. -/
structure Timed (n : ConsensusTBFTImpl) : Prop where
  timely : n.InTime
  backed : ∀ ti ∈ n.timeScheduler.ti :: n.timeScheduler.timeoutC, ti.step = .precommit →
    ti.height = n.height → ti.round = n.round →
    (n.heightRoundVoteSet.voteSet n.round .prevote).hasTwoThirdsNoMajority = true

lemma hasTwoThirdsNoMajority_voteSet {hvs : HeightRoundVoteSet} {r : ℤ}
    (h : (hvs.getVoteSet r t).any (·.hasTwoThirdsNoMajority) = true) :
    (hvs.voteSet r t).hasTwoThirdsNoMajority = true := by
  obtain ⟨vs, hvs, h⟩ := (any_eq_true _ _).mp h
  rwa [HeightRoundVoteSet.voteSet, hvs, getD_some]

lemma Timed.change (ht : n.Timed) (hc : Change env I n n') : n'.Timed := by
  cases hc with
  | schedule s hs =>
    refine ⟨ht.timely.addTimeout s, fun ti hti hstep hheight hround => ?_⟩
    rcases mem_addTimeoutInfo hti with rfl | h
    · exact hasTwoThirdsNoMajority_voteSet (hs hstep)
    · exact ht.backed ti h hstep hheight hround
  | timers ts hts =>
    exact ⟨fun ti hti => ht.timely ti (hts hti), fun ti hti => ht.backed ti (hts hti)⟩
  | @vote v hvs res _ hvote =>
    refine ⟨ht.timely, fun ti hti hstep hheight hround => ?_⟩
    have hold := ht.backed ti hti hstep hheight hround
    rw [(HeightRoundVoteSet.voteSet_addVote hvote).2.2.2]
    split
    · exact VoteSet.hasTwoThirdsNoMajority_addVote v hold
    · exact hold
  | newRound r hr hnil =>
    -- No timer is of the round that is entered.
    refine ⟨ht.timely.advance rfl (position_le.mpr (.inr ⟨rfl, .inl hr⟩)),
      fun ti hti hstep hheight hround => ?_⟩
    rcases ht.timely ti hti with h | ⟨h, h'⟩
    · exact absurd hheight h.ne
    · exact absurd hround (h'.trans_lt hr).ne
  | newHeight h replayMode wal hI hh hwal =>
    have hbefore : ∀ ti ∈ n.timeScheduler.ti :: n.timeScheduler.timeoutC, ti.height < h := by
      intro ti hti
      rcases ht.timely ti hti with h | ⟨h, -⟩ <;> omega
    exact ⟨ht.timely.advance rfl (position_le.mpr (.inl hh)),
      fun ti hti _ hheight _ => absurd hheight (hbefore ti hti).ne⟩
  | log | flags | step | prevote | precommit | queue | verify | adopt | commit =>
    exact ⟨ht.timely, ht.backed⟩

lemma Timed.changes (ht : n.Timed) (hc : Changes env I n n') : n'.Timed := by
  induction hc with
  | refl => exact ht
  | tail _ hc ih => exact ih.change hc

def anyInputs : Inputs :=
  ⟨fun _ => True, fun _ _ => True, fun _ => True, fun _ _ => True, fun _ _ => True⟩

lemma allows_any (msg : TBFTMsg) : n.Allows env anyInputs msg := by
  cases msg with
  | propose body => exact fun _ _ _ _ _ => trivial
  | prevote | precommit => exact fun _ _ _ => trivial
  | state body => exact fun _ _ _ _ => trivial
  | other => trivial

lemma Timed.handle (ht : n.Timed) {e : Event} (hn' : n.handle env e = some n') : n'.Timed := by
  refine ht.changes (handle_changes (I := anyInputs) ?_ hn')
  cases e with
  | proposedBlock block => exact fun _ _ => trivial
  | verifyResult r => exact fun _ _ _ => trivial
  | externalMsg msg => exact allows_any msg
  | internalMsg => exact fun msg _ _ => allows_any msg
  | blockHeight | timerFires | timeout => trivial

lemma Timed.new (env : Env) (id : NodeId) (wal : Wal) : (newConsensus env id wal).Timed := by
  refine ⟨fun ti hti => ?_, fun ti hti hstep => ?_⟩
  · obtain rfl := mem_singleton.mp hti
    exact .inr ⟨rfl, le_rfl⟩
  · obtain rfl := mem_singleton.mp hti
    cases hstep

def soundInputs : Inputs where
  enters := fun _ => True
  received := fun _ b => b.attachable = true
  adopted := fun b => b.attachable = true
  counted := fun _ _ => True
  queued := fun _ m => m.Queued

structure Guarded (n : ConsensusTBFTImpl) : Prop extends Timed n where
  proposal : ∀ p, n.proposal = some p ∨ n.verifingProposal = some p → p.block.attachable = true
  queue : ∀ m ∈ n.internalMsgC, m.Queued

lemma queue_createVote (hq : ∀ m ∈ n.internalMsgC, m.Queued) (ht : t = .prevote ∨ t = .precommit)
    (hash : Hash) {msg : Option Vote → TBFTMsg} (hmsg : ∀ v, (msg (some v)).vote = some v) :
    ∀ m ∈ (n.createVote env t hash msg).internalMsgC, m.Queued := by
  refine forall_mem_concat hq ⟨_, hmsg _, ?_⟩
  rcases ht with rfl | rfl
  · rfl
  · rfl

lemma Guarded.change (hg : n.Guarded) (hc : Change env soundInputs n n') : n'.Guarded := by
  refine ⟨hg.toTimed.change hc, ?_, ?_⟩
  · cases hc with
    | verify o ho =>
      rintro p (hp | hp)
      · exact hg.proposal p (.inl hp)
      · rcases ho p hp with hp | hp
        · exact hg.proposal p (.inl hp)
        · exact hp
    | adopt p hp hadopt =>
      rintro q (hq | hq)
      · cases hq
        exact hadopt
      · exact hg.proposal q (.inr hq)
    | @commit p block hp hmaj hblock =>
      rintro q (hq | hq)
      · cases hq
        exact Block.attachable_of_attach hblock
      · exact hg.proposal q (.inr hq)
    | newRound | newHeight =>
      rintro q (hq | hq)
      · exact absurd hq.symm (some_ne_none q)
      · exact absurd hq.symm (some_ne_none q)
    | log | flags | step | prevote | precommit | queue | vote | schedule | timers =>
      exact hg.proposal
  · cases hc with
    | prevote hash => exact queue_createVote hg.queue (.inl rfl) _ fun _ => rfl
    | precommit hash => exact queue_createVote hg.queue (.inr rfl) _ fun _ => rfl
    | queue msgs hmsgs => exact fun m hm => (hmsgs m hm).elim (hg.queue m) fun h => h
    | log | flags | step | vote | schedule | timers | verify | adopt | commit | newRound
    | newHeight =>
      exact hg.queue

lemma Guarded.changes (hg : n.Guarded) (hc : Changes env soundInputs n n') : n'.Guarded := by
  induction hc with
  | refl => exact hg
  | tail _ hc ih => exact ih.change hc

lemma Guarded.start (env : Env) (id : NodeId) (ledger : ℕ) : (start env id ledger).Guarded := by
  have hnew : (newConsensus env id ⟨0, []⟩).Guarded := by
    refine ⟨Timed.new env id ⟨0, []⟩, ?_, fun m hm => absurd hm not_mem_nil⟩
    rintro p (h | h) <;> cases h
  exact hnew.changes (enterNewHeight_changes _ trivial)

lemma createProposal_attachable {block : Block} {p : Proposal}
    (h : n.createProposal env block = some p) : p.block.attachable = block.attachable := by
  obtain ⟨body, -, h⟩ := bind_eq_some_iff.mp h
  obtain ⟨⟨hash, sig⟩, -, h⟩ := bind_eq_some_iff.mp h
  obtain ⟨endorsement, -, rfl⟩ := map_eq_some_iff.mp h
  rfl

lemma queued_of_gossiped {g : GossipState} (hg : ∀ v ∈ g.votes, v.wellFormed = true) {m : TBFTMsg}
    (hm : m ∈ n.gossiped env g) : m.Queued := by
  have hvote : ∃ v, m = .prevote (some v) := by
    obtain ⟨voteSet, -, hm⟩ : ∃ voteSet, (g.roundVoteSet.bind
        (newRoundVoteSetFromProto · env.validatorSet)) = some voteSet ∧
        m ∈ env.validatorSet.validators.flatMap (n.votesOfPeer voteSet) := by
      unfold gossiped at hm
      cases hset : g.roundVoteSet.bind (newRoundVoteSetFromProto · env.validatorSet) with
      | none =>
        rw [hset] at hm
        cases hm
      | some voteSet =>
        rw [hset] at hm
        exact ⟨voteSet, rfl, hm⟩
    obtain ⟨voter, -, hm⟩ := mem_flatMap.mp hm
    have hone : ∀ o : Option Vote, m ∈ (o.map (TBFTMsg.prevote ∘ some)).toList →
        ∃ v, m = .prevote (some v) := by
      intro o hm
      obtain ⟨v, -, rfl⟩ := map_eq_some_iff.mp (mem_toList.mp hm)
      exact ⟨v, rfl⟩
    rcases mem_append.mp hm with hm | hm
    · split at hm
      · exact hone _ hm
      · cases hm
    · split at hm
      · exact hone _ hm
      · cases hm
  obtain ⟨v, rfl⟩ := hvote
  exact ⟨v, rfl, hg v (mem_votes_of_gossiped hm (by simp [TBFTMsg.votes]))⟩

lemma allows_of_wellFormed {msg : TBFTMsg} (h : msg.wellFormed = true) :
    n.Allows env soundInputs msg := by
  cases msg with
  | propose body =>
    rintro p b rfl hb -
    show b.attachable = true
    simpa [TBFTMsg.wellFormed, hb] using h
  | prevote | precommit => exact fun _ _ _ => trivial
  | state body =>
    rintro g rfl m hm
    refine queued_of_gossiped (fun v hv => ?_) hm
    simp only [TBFTMsg.wellFormed, all_some, Bool.and_eq_true, List.all_eq_true] at h
    exact h.1 v hv
  | other => trivial

lemma Guarded.handle (hg : n.Guarded) {e : Event} (he : e.wellFormed = true)
    (hn' : n.handle env e = some n') : n'.Guarded := by
  refine hg.changes (handle_changes ?_ hn')
  cases e with
  | proposedBlock block => exact fun p hp => (createProposal_attachable hp).trans he
  | verifyResult r => exact fun p hp _ => hg.proposal p (.inr hp)
  | externalMsg msg => exact allows_of_wellFormed he
  | internalMsg => exact fun msg hmsg rest => allows_of_wellFormed (hg.queue msg hmsg).wellFormed
  | blockHeight | timerFires | timeout => trivial

end ConsensusTBFTImpl
end ChainMaker.Tbft
