import ChainMaker.Tbft.Progress

/-! What a handler does, cut into single changes of the state. An invariant that every change
keeps is kept by every handler, live or in a replay. -/

namespace ChainMaker.Tbft
open Option List

/-- What is known of the data that reaches a node: of a block at the height of the node, of a
vote or a message beside the votes that the node has created. -/
structure Inputs where
  enters : Bool → Prop
  received : ℕ → Block → Prop
  adopted : Block → Prop
  counted : List Vote → Vote → Prop
  queued : List Vote → TBFTMsg → Prop

namespace ConsensusTBFTImpl

inductive Change (env : Env) (I : Inputs) : ConsensusTBFTImpl → ConsensusTBFTImpl → Prop
  | log (n : ConsensusTBFTImpl) (data : WalData)
      (hdata : ∀ p, data = .proposal p → n.proposal = some p)
      (hvote : ∀ v, data = .vote v → I.counted n.created v) :
      Change env I n (n.saveWalEntry data)
  -- The precommit timer starts only behind a quorum of prevotes.
  | schedule (n : ConsensusTBFTImpl) (s : Step)
      (hs : s = .precommit → (n.heightRoundVoteSet.prevotes n.round).any
        (·.hasTwoThirdsNoMajority) = true) :
      Change env I n (n.addTimeout n.height n.round s)
  | timers (n : ConsensusTBFTImpl) (ts : TimeScheduler)
      (hts : ts.ti :: ts.timeoutC ⊆ n.timeScheduler.ti :: n.timeScheduler.timeoutC) :
      Change env I n { n with timeScheduler := ts }
  | flags (n : ConsensusTBFTImpl) (prevote precommit : Bool) :
      Change env I n { n with
        triggeredTimeoutPrevote := prevote, triggeredTimeoutPrecommit := precommit }
  | step (n : ConsensusTBFTImpl) (s : Step) : Change env I n { n with step := s }
  | prevote (n : ConsensusTBFTImpl) (hash : Hash) :
      Change env I n (n.createVote env .prevote hash .prevote)
  | precommit (n : ConsensusTBFTImpl) (hash : Hash) :
      Change env I n (n.createVote env .precommit hash .precommit)
  | queue (n : ConsensusTBFTImpl) (msgs : List TBFTMsg)
      (hmsgs : ∀ m ∈ msgs, m ∈ n.internalMsgC ∨ I.queued n.created m) :
      Change env I n { n with internalMsgC := msgs }
  | vote (n : ConsensusTBFTImpl) {v : Vote} {hvs : HeightRoundVoteSet}
      {res : Except VoteError Bool} (hcounted : I.counted n.created v)
      (hvote : n.heightRoundVoteSet.addVote v = some (hvs, res)) :
      Change env I n { n with heightRoundVoteSet := hvs }
  | verify (n : ConsensusTBFTImpl) (o : Option Proposal)
      (ho : ∀ p, o = some p → n.proposal = some p ∨ I.received n.height p.block) :
      Change env I n { n with verifingProposal := o }
  | adopt (n : ConsensusTBFTImpl) (p : Proposal)
      (hp : n.verifingProposal = some p ∨ p.block.header.blockHeight = n.height)
      (hadopt : I.adopted p.block) :
      Change env I n { n with proposal := some p }
  | commit (n : ConsensusTBFTImpl) {p : Proposal} {block : Block}
      (hp : n.proposal = some p)
      (hmaj : n.precommitMajority = some p.block.header.blockHash.bytes)
      (hblock : p.block.attach (n.precommitCertificate env) = some block) :
      Change env I n ({ n with proposal := some { p with block := block } }.commitBlock block)
  -- A round is left only when its precommits have no majority for a block.
  | newRound (n : ConsensusTBFTImpl) (r : ℤ) (hr : n.round < r)
      (hnil : isNilHash n.precommitMajority = true) :
      Change env I n { n with
        round := r, step := .newRound, triggeredTimeoutPrevote := false,
        triggeredTimeoutPrecommit := false, proposal := none, verifingProposal := none }
  | newHeight (n : ConsensusTBFTImpl) (h : ℕ) (replayMode : Bool) (wal : Wal)
      (hI : I.enters replayMode) (hh : n.height < h)
      (hwal : wal = n.wal ∨ wal = n.wal.truncateFront n.wal.lastIndex) :
      Change env I n { n with
        height := h, round := 0, step := .newHeight, proposal := none, verifingProposal := none,
        triggeredTimeoutPrevote := false, triggeredTimeoutPrecommit := false,
        heightRoundVoteSet := newHeightRoundVoteSet h 0 env.validatorSet,
        wal := wal,
        heightFirstIndex := if replayMode then n.heightFirstIndex else n.wal.lastIndex + 1 }

abbrev Changes (env : Env) (I : Inputs) : ConsensusTBFTImpl → ConsensusTBFTImpl → Prop :=
  Relation.ReflTransGen (Change env I)

variable {env : Env} {I : Inputs} {n n' : ConsensusTBFTImpl} {vote : Vote} {p : Proposal} {h : ℕ}

lemma Changes.stay (h : some n = some n') : Changes env I n n' :=
  some.inj h ▸ .refl

lemma saveUnless_changes (replayMode : Bool) (data : WalData)
    (hdata : ∀ p, data = .proposal p → n.proposal = some p)
    (hvote : ∀ v, data = .vote v → I.counted n.created v) :
    Changes env I n (n.saveUnless replayMode data) := by
  cases replayMode with
  | true => exact .refl
  | false => exact .single (.log n data hdata hvote)

lemma enterPropose_changes (hstep : n.step = .newRound) :
    Changes env I n (n.enterPropose n.height n.round) := by
  have hguard : ¬(n.height ≠ n.height ∨ n.round > n.round ∨
      n.round = n.round ∧ n.step ≠ .newRound) := by simp [hstep]
  rw [enterPropose, if_neg hguard]
  exact (Relation.ReflTransGen.single (.step n .propose)).tail
    (.schedule { n with step := .propose } .prevote (by simp))

lemma enterNewRound_changes (hstep : n.step = .commit) (hnil : isNilHash n.precommitMajority = true)
    (r : ℤ) : Changes env I n (n.enterNewRound n.height r) := by
  unfold enterNewRound
  split_ifs with hguard
  · exact .refl
  have hr : n.round < r := by
    push Not at hguard
    refine lt_of_le_of_ne hguard.2.1 fun heq => ?_
    have hnew := hguard.2.2 heq
    rw [hstep] at hnew
    cases hnew
  refine .head (.newRound n r hr hnil) ?_
  exact enterPropose_changes rfl

variable {replayMode : Bool} {r : ℤ}

lemma enterNewHeight_changes (h : ℕ) (hI : I.enters replayMode) : Changes env I n
    (n.enterNewHeight env h replayMode) := by
  by_cases hlt : n.height < h
  · obtain ⟨wal, hwal, heq⟩ := enterNewHeight_eq env n hlt replayMode
    rw [heq]
    refine .head (.newHeight n h replayMode wal hI hlt hwal) ?_
    generalize (if replayMode then n.heightFirstIndex else n.wal.lastIndex + 1) = first
    unfold atHeight enterNewRound
    rw [if_neg (by simp)]
    refine .head (.step _ .newRound) ?_
    exact enterPropose_changes rfl
  · rw [enterNewHeight, if_pos (not_lt.mp hlt)]

lemma enterPrevote_changes (h : ℕ) (r : ℤ) : Changes env I n (n.enterPrevote env h r) := by
  unfold enterPrevote
  split
  · exact .refl
  · exact (Relation.ReflTransGen.single (.step n .prevote)).tail (.prevote _ _)

lemma enterPrecommit_changes (hn' : n.enterPrecommit env h r = some n') : Changes env I n n' := by
  unfold enterPrecommit at hn'
  split at hn'
  · exact .stay hn'
  obtain ⟨hash, -, rfl⟩ := map_eq_some_iff.mp hn'
  exact (Relation.ReflTransGen.single (.step n .precommit)).tail (.precommit _ hash)

lemma commitProposal_changes (hp : n.proposal = some p)
    (hmaj : n.precommitMajority = some p.block.header.blockHash.bytes)
    (hn' : n.commitProposal env p = some n') : Changes env I n n' := by
  obtain ⟨block, hblock, rfl⟩ := map_eq_some_iff.mp hn'
  exact .single (.commit n hp hmaj hblock)

lemma enterCommit_changes (hn' : n.enterCommit env h r = some n') : Changes env I n n' := by
  rcases enterCommit_cases hn' with rfl | ⟨-, hgoes⟩
  · exact .refl
  refine .head (.step n .commit) ?_
  rcases hgoes with ⟨hnil, rfl⟩ | ⟨p, hp, -, hmaj, hn'⟩
  · exact enterNewRound_changes (n := { n with step := .commit }) rfl hnil _
  · exact commitProposal_changes hp hmaj hn'

lemma onVote_changes (hn' : n.onVote env vote = some n') : Changes env I n n' := by
  rcases onVote_cases hn' with rfl | hn' | hn' | ⟨s, prevote, precommit, hs, rfl⟩
  · exact .refl
  · exact enterPrecommit_changes hn'
  · exact enterCommit_changes hn'
  · exact .head (.schedule n s hs) (.single (.flags _ prevote precommit))

lemma addVote_changes (hcounted : I.counted n.created vote)
    (hn' : n.addVote env vote replayMode = some n') : Changes env I n n' := by
  obtain ⟨⟨hvs, res⟩, hvote, hn'⟩ := bind_eq_some_iff.mp hn'
  refine .head (.vote n hcounted hvote) ?_
  dsimp only at hn'
  split at hn'
  · refine (saveUnless_changes replayMode (.vote vote) (fun p hp => ?_) fun v hv => ?_).trans ?_
    · cases hp
    · exact WalData.vote.inj hv ▸ hcounted
    · exact onVote_changes hn'
  · exact Changes.stay hn'

lemma adoptProposal_changes (replayMode : Bool)
    (hp : n.verifingProposal = some p ∨ p.block.header.blockHeight = n.height)
    (hadopt : I.adopted p.block) : Changes env I n (n.adoptProposal p replayMode) := by
  refine .head (.adopt n p hp hadopt)
    (saveUnless_changes replayMode (.proposal p) (fun q hq => ?_) fun v hv => ?_)
  · exact congrArg some (WalData.proposal.inj hq)
  · cases hv

lemma handleProposedBlock_changes {block : Block} (replayMode : Bool)
    (hadopt : ∀ p, n.createProposal env block = some p → I.adopted p.block) :
    Changes env I n (n.handleProposedBlock env block replayMode) := by
  unfold handleProposedBlock
  split_ifs with hguard
  · exact .refl
  push Not at hguard
  split
  case h_1 => exact .refl
  case h_2 p hcreate =>
    have hheight := (createProposal_height hcreate).trans hguard.1
    exact (adoptProposal_changes replayMode (.inr hheight) (hadopt p hcreate)).trans
      (enterPrevote_changes _ _)

lemma precommitMajority_adoptProposal (p : Proposal) (replayMode : Bool) :
    (n.adoptProposal p replayMode).precommitMajority = n.precommitMajority := by
  cases replayMode <;> rfl

lemma proposal_adoptProposal (p : Proposal) (replayMode : Bool) :
    (n.adoptProposal p replayMode).proposal = some p := by
  cases replayMode <;> rfl

lemma handleVerifyResult_changes {r : VerifyResult} (hadopt : ∀ p, n.verifingProposal = some p →
      p.block.header.blockHash.bytes = r.verifiedBlock.header.blockHash.bytes → I.adopted p.block)
    (hn' : n.handleVerifyResult env r replayMode = some n') : Changes env I n n' := by
  rcases handleVerifyResult_cases hn' with rfl | rfl | ⟨p, hp, hhash, hn'⟩
  · exact .refl
  · refine .single (.verify n none ?_)
    intro p hp
    cases hp
  · have hadopted : Changes env I n (n.adoptProposal p replayMode) :=
      adoptProposal_changes replayMode (.inl hp) (hadopt p hp hhash)
    rcases hn' with ⟨hmaj, hn'⟩ | ⟨-, -, rfl⟩
    · obtain ⟨m, hm, rfl⟩ := map_eq_some_iff.mp hn'
      have hcommit : Changes env I (n.adoptProposal p replayMode) m :=
        commitProposal_changes (proposal_adoptProposal p replayMode)
          ((precommitMajority_adoptProposal p replayMode).trans hmaj) hm
      exact (hadopted.trans hcommit).tail (.verify m m.proposal fun q hq => .inl hq)
    · exact hadopted.trans (enterPrevote_changes _ _)

lemma handleTimeout_changes {ti : TimeoutInfo} (hn' : n.handleTimeout env ti replayMode = some n') :
    Changes env I n n' := by
  refine (saveUnless_changes replayMode (.timeout ti) (fun p hp => ?_) fun v hv => ?_).trans ?_
  · cases hp
  · cases hv
  unfold handleTimeout at hn'
  split at hn'
  · cases hn'
    exact enterPrevote_changes _ _
  · exact enterPrecommit_changes hn'
  · exact enterCommit_changes hn'
  · exact Changes.stay hn'

lemma procPropose_changes {p : ProposalProto}
    (hreceived : ∀ b, p.block = some b → b.header.blockHeight = n.height → I.received n.height b)
    (hn' : n.procPropose env p = some n') : Changes env I n n' := by
  obtain ⟨block, hblock, rfl⟩ := map_eq_some_iff.mp hn'
  split_ifs with hguard
  · exact .refl
  have hheight : block.header.blockHeight = n.height := by
    by_contra hne
    refine hguard (.inr (.inl fun h => ?_))
    simp only [canReceiveProposal, Bool.and_eq_true, decide_eq_true_eq] at h
    exact hne h.1.1.symm
  refine .single (.verify n _ ?_)
  intro q hq
  cases hq
  exact .inr (hreceived block hblock hheight)

lemma procVote_changes {last : Step}
    (hcounted : vote.voter = n.id ∨ env.verifyVote vote = true → I.counted n.created vote)
    (hn' : n.procVote env last vote = some n') : Changes env I n n' := by
  unfold procVote at hn'
  split at hn'
  · exact .stay hn'
  split_ifs at hn' with hverify
  · exact .stay hn'
  refine addVote_changes (hcounted ?_) hn'
  by_contra! hne
  exact hverify hne

def gossiped (env : Env) (n : ConsensusTBFTImpl) (g : GossipState) : List TBFTMsg :=
  ((g.roundVoteSet.bind (newRoundVoteSetFromProto · env.validatorSet)).map fun voteSet =>
    env.validatorSet.validators.flatMap (n.votesOfPeer voteSet)).getD []

lemma procRecvState_changes {g : GossipState}
    (hqueued : ∀ m ∈ n.gossiped env g, I.queued n.created m)
    (hn' : n.procRecvState env g = some n') : Changes env I n n' := by
  rcases procRecvState_cases hn' with rfl | ⟨rvs, voteSet, hrvs, hvoteSet, rfl⟩
  · exact .refl
  refine .single (.queue n _ ?_)
  intro m hm
  rcases mem_append.mp hm with hm | hm
  · exact .inl hm
  refine .inr (hqueued m ?_)
  rw [gossiped, hrvs, bind_some, hvoteSet]
  exact hm

def Allows (env : Env) (I : Inputs) (n : ConsensusTBFTImpl) : TBFTMsg → Prop
  | .propose body => ∀ p b, body = some p → p.block = some b →
      b.header.blockHeight = n.height → I.received n.height b
  | .prevote body | .precommit body => ∀ v, body = some v →
      v.voter = n.id ∨ env.verifyVote v = true → I.counted n.created v
  | .state body => ∀ g, body = some g → ∀ m ∈ n.gossiped env g, I.queued n.created m
  | .other => True

lemma handleConsensusMsg_changes {msg : TBFTMsg} (hmsg : n.Allows env I msg)
    (hn' : n.handleConsensusMsg env msg = some n') : Changes env I n n' := by
  cases msg with
  | propose body =>
    obtain ⟨p, hp, hn'⟩ := bind_eq_some_iff.mp hn'
    exact procPropose_changes (fun b hb => hmsg p b hp hb) hn'
  | prevote | precommit =>
    obtain ⟨v, hv, hn'⟩ := bind_eq_some_iff.mp hn'
    exact procVote_changes (hmsg v hv) hn'
  | state body =>
    cases body with
    | none => exact .stay hn'
    | some g => exact procRecvState_changes (hmsg g rfl) hn'
  | other => exact .stay hn'

def AllowsEvent (env : Env) (I : Inputs) (n : ConsensusTBFTImpl) : Event → Prop
  | .proposedBlock block => ∀ p, n.createProposal env block = some p → I.adopted p.block
  | .verifyResult r => ∀ p, n.verifingProposal = some p →
      p.block.header.blockHash.bytes = r.verifiedBlock.header.blockHash.bytes →
      I.adopted p.block
  | .blockHeight _ => I.enters false
  | .externalMsg msg => n.Allows env I msg
  | .internalMsg => ∀ msg ∈ n.internalMsgC, ∀ rest, Allows env I { n with internalMsgC := rest } msg
  | _ => True

lemma handle_changes {e : Event} (he : n.AllowsEvent env I e)
    (hn' : n.handle env e = some n') : Changes env I n n' := by
  cases e with
  | proposedBlock block =>
    cases hn'
    exact handleProposedBlock_changes false he
  | verifyResult r => exact handleVerifyResult_changes he hn'
  | blockHeight height =>
    cases hn'
    unfold handleBlockHeight
    split
    · exact .refl
    · exact enterNewHeight_changes _ he
  | externalMsg msg => exact handleConsensusMsg_changes he hn'
  | internalMsg =>
    simp only [handle] at hn'
    split at hn'
    case h_1 => cases hn'
    case h_2 msg rest hq =>
    have hmem : msg ∈ n.internalMsgC := by simp [hq]
    refine .head (.queue n rest fun m hm => .inl ?_)
      (handleConsensusMsg_changes (he msg hmem rest) hn')
    rw [hq]
    exact mem_cons_of_mem _ hm
  | timerFires =>
    obtain ⟨ts, hts, rfl⟩ := map_eq_some_iff.mp hn'
    refine .single (.timers n ts ?_)
    unfold TimeScheduler.fire at hts
    split at hts
    · cases hts
      intro ti hti
      simp only [mem_cons, mem_append, not_mem_nil, or_false] at hti ⊢
      tauto
    · cases hts
  | timeout =>
    simp only [handle] at hn'
    split at hn'
    case h_1 => cases hn'
    case h_2 ti rest hq =>
    refine .head (.timers n { n.timeScheduler with timeoutC := rest } ?_)
      (handleTimeout_changes hn')
    rw [hq]
    exact cons_subset_cons _ (subset_cons_self _ _)

lemma replayEntry_changes {entry : WalEntry}
    (hproposal : ∀ p, entry.data = .proposal p → I.received n.height p.block ∧ I.adopted p.block)
    (hcreate : ∀ block p, n.createProposal env block = some p → I.adopted p.block)
    (hvote : ∀ v, entry.data = .vote v → I.counted n.created v)
    (hn' : n.replayEntry env entry = some n') : Changes env I n n' := by
  unfold replayEntry at hn'
  split at hn'
  case h_1 => exact handleTimeout_changes hn'
  case h_3 v hv => exact addVote_changes (hvote v hv) hn'
  case h_2 p hp =>
  obtain ⟨hreceived, hadopted⟩ := hproposal p hp
  split at hn'
  · cases hn'
    exact handleProposedBlock_changes true (hcreate p.block)
  refine .head (.verify n (some p) ?_) (handleVerifyResult_changes ?_ hn')
  · intro q hq
    cases hq
    exact .inr hreceived
  · intro q hq _
    cases hq
    exact hadopted

end ConsensusTBFTImpl
end ChainMaker.Tbft
