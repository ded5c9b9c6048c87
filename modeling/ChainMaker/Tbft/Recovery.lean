import ChainMaker.Tbft.Replay

/-! Recovery from a crash. The entries that a node has logged at its height, replayed from the start
of the height, lead to the round, step, proposal and votes that it had, unless one of the two places
is met at which a replay takes another way than the node did. -/

namespace ChainMaker.Tbft
open Option List HeightRoundVoteSet

/-- Signing succeeds, and the hash of a block is that of its content. -/
structure Env.Signs (env : Env) : Prop where
  block : ∀ b hash sig, (env.signBlock { b with header := { b.header with
    blockHash := hash, signature := sig } }).map (·.1) = (env.signBlock b).map (·.1)
  proposal : ∀ p, (env.signProposal p).isSome = true

structure Env.Resigns (env : Env) : Prop extends Signs env where
  tbft : env.isDpos = false

lemma Wal.lastIndex_truncateFront (w : Wal) :
    (w.truncateFront w.lastIndex).lastIndex = w.lastIndex := by
  simp only [truncateFront, lastIndex, length_drop]
  omega

def TBFTMsg.proposal : TBFTMsg → Option ProposalProto
  | .propose body => body
  | _ => none

namespace ConsensusTBFTImpl
variable {env : Env} {n n' m m' : ConsensusTBFTImpl} {height : ℕ} {p : Proposal} {v : Vote}
  {ti : TimeoutInfo} {r : VerifyResult}

def logView (n : ConsensusTBFTImpl) : NodeId × ℕ × ℕ × Wal :=
  (n.id, n.height, n.heightFirstIndex, n.wal)

def Other (env : Env) (n : ConsensusTBFTImpl) : Prop :=
  n.verifingProposal.isSome = true → n.isProposer env n.height n.round = false

structure Frame (n n' : ConsensusTBFTImpl) : Prop where
  log : n'.logView = n.logView
  verifing : n'.verifingProposal.isSome = true →
    n.verifingProposal.isSome = true ∧ n'.round = n.round

namespace Frame

lemma refl (n : ConsensusTBFTImpl) : Frame n n := ⟨rfl, fun h => ⟨h, rfl⟩⟩

lemma stay (h : some n = some n') : Frame n n' := some.inj h ▸ refl n

lemma other (hf : Frame n n') (h : n.Other env) : n'.Other env := by
  intro hverifing
  obtain ⟨hverifing, hround⟩ := hf.verifing hverifing
  have hlog := hf.log
  simp only [logView, Prod.mk.injEq] at hlog
  rw [← h hverifing, isProposer, isProposer, hlog.1, hlog.2.1, hround]

lemma wal (hf : Frame n n') : n'.wal = n.wal := congrArg (·.2.2.2) hf.log

lemma enterPrevote (n : ConsensusTBFTImpl) (h : ℕ) (r : ℤ) : Frame n (n.enterPrevote env h r) := by
  unfold ConsensusTBFTImpl.enterPrevote
  split
  · exact refl n
  · exact ⟨rfl, fun h => ⟨h, rfl⟩⟩

lemma enterPrecommit {h : ℕ} {r : ℤ} (hn' : n.enterPrecommit env h r = some n') : Frame n n' := by
  unfold ConsensusTBFTImpl.enterPrecommit at hn'
  split at hn'
  · exact stay hn'
  obtain ⟨hash, -, rfl⟩ := map_eq_some_iff.mp hn'
  exact ⟨rfl, fun h => ⟨h, rfl⟩⟩

lemma commitProposal (hn' : n.commitProposal env p = some n') : Frame n n' := by
  obtain ⟨block, -, rfl⟩ := map_eq_some_iff.mp hn'
  exact ⟨rfl, fun h => ⟨h, rfl⟩⟩

lemma enterNewRound (n : ConsensusTBFTImpl) (r : ℤ) : Frame n (n.enterNewRound n.height r) := by
  unfold ConsensusTBFTImpl.enterNewRound
  split
  · exact refl n
  unfold enterPropose
  split
  · exact ⟨rfl, nofun⟩
  · exact ⟨rfl, nofun⟩

lemma enterCommit {h : ℕ} {r : ℤ} (hn' : n.enterCommit env h r = some n') : Frame n n' := by
  rcases enterCommit_cases hn' with rfl | ⟨-, hgoes⟩
  · exact refl n'
  have hf : Frame { n with step := .commit } n' := by
    rcases hgoes with ⟨-, rfl⟩ | ⟨p, -, -, -, hn'⟩
    · exact enterNewRound { n with step := .commit } _
    · exact commitProposal hn'
  exact ⟨hf.log, hf.verifing⟩

lemma onVote (hn' : n.onVote env v = some n') : Frame n n' := by
  rcases onVote_cases hn' with rfl | hn' | hn' | ⟨s, prevote, precommit, -, rfl⟩
  · exact refl n'
  · exact enterPrecommit hn'
  · exact enterCommit hn'
  · exact ⟨rfl, fun h => ⟨h, rfl⟩⟩

end Frame

/-- An event leaves the log and the node where they were, or it logs an entry, and the replay of the
entry takes every node that agrees with the one before to one that agrees with the one after. -/
inductive Follows (env : Env) (n n' : ConsensusTBFTImpl) : Prop
  | silent (hlog : n'.logView = n.logView) (hother : n.Other env → n'.Other env)
      (h : ∀ m, n.Agrees m → n'.Agrees m)
  | logged (data : WalData) (hlog : n'.logView = (n.saveWalEntry data).logView)
      (hother : n.Other env → n'.Other env)
      (h : ∀ m, n.Agrees m → ∃ m',
        m.replayEntry env ⟨n.height, n.heightFirstIndex, data⟩ = some m' ∧ n'.Agrees m')

lemma Follows.stay (h : some n = some n') : Follows env n n' :=
  some.inj h ▸ .silent rfl (fun h => h) fun _ h => h

lemma Follows.of_frame {n₁ : ConsensusTBFTImpl} (hframe : Frame n₁ n') (data : WalData)
    (h : ∀ m, n.Agrees m → ∃ m',
      m.replayEntry env ⟨n.height, n.heightFirstIndex, data⟩ = some m' ∧ n'.Agrees m')
    (hlog : n₁.logView = (n.saveWalEntry data).logView := by rfl)
    (hother : n.Other env → n₁.Other env := by exact fun h => h) : Follows env n n' :=
  .logged data (hframe.log.trans hlog) (fun ho => hframe.other (hother ho)) h

lemma addVote_follows
    (hfilled : v.type = .prevote → n.step = .prevote → n.round ≠ v.round → n.Filled)
    (hn' : n.addVote env v false = some n') : Follows env n n' := by
  obtain ⟨⟨hvs, res⟩, hvote, hn'⟩ := bind_eq_some_iff.mp hn'
  dsimp only at hn'
  split at hn'
  case isFalse hres =>
    cases hn'
    exact .silent rfl (fun h => h) fun m h => h.refuseVote hvote hres
  case isTrue hres =>
  refine .of_frame (.onVote hn') (.vote v) fun m h => ?_
  have hcounted : ((n.heightRoundVoteSet.voteSet v.round v.type).addVote v).2 = .ok true := by
    rw [← (voteSet_addVote hvote).2.2.1]
    exact hres
  have hwf : v.wellFormed ≠ false := by
    intro hwf
    rw [addVote_eq_none_iff.mpr hwf] at hvote
    cases hvote
  obtain ⟨⟨hvs', res'⟩, hvote'⟩ : ∃ r, m.heightRoundVoteSet.addVote v = some r :=
    ne_none_iff_exists'.mp (mt addVote_eq_none_iff.mp hwf)
  have hres' : res' = .ok true := by
    rw [(voteSet_addVote hvote').2.2.1, h.votes_eq]
    exact hcounted
  have hset := getVoteSet_addVote_self hvote
  have hset' := getVoteSet_addVote_self hvote'
  rw [h.votes_eq] at hset'
  have hafter : Agrees ({ n with heightRoundVoteSet := hvs }.saveUnless false (.vote v))
      { m with heightRoundVoteSet := hvs' } := { h.countVote hvote hvote' with }
  have hfilled : v.type = .prevote → n.step = .prevote →
      Filled ({ n with heightRoundVoteSet := hvs }.saveUnless false (.vote v)) := by
    intro ht hstep rvs hrvs
    have hrvs : hvs.getRoundVoteSet n.round = some rvs := hrvs
    by_cases hround : n.round = v.round
    · -- The node's own round holds the vote.
      rw [getVoteSet, ← hround, hrvs, ht] at hset
      have hprevotes : rvs.prevotes =
          ((n.heightRoundVoteSet.voteSet n.round .prevote).addVote v).1 := some.inj hset
      rw [← hround, ht] at hcounted
      rw [hprevotes]
      exact .inl (VoteSet.sum_pos_of_counted hcounted)
    · refine hfilled ht hstep hround rvs ?_
      rwa [← getRoundVoteSet_addVote_of_ne hvote hround]
  obtain ⟨m', hm', hagrees⟩ := hafter.onVote hset hset' hfilled hn'
  refine ⟨m', ?_, hagrees⟩
  show m.addVote env v true = some m'
  rw [addVote, hvote', bind_some]
  exact (if_pos hres').trans hm'

lemma Timed.filled (ht : n.Timed) {ti : TimeoutInfo}
    (hti : ti ∈ n.timeScheduler.ti :: n.timeScheduler.timeoutC) (hstep : ti.step = .precommit)
    (hheight : ti.height = n.height) (hround : ti.round = n.round) : n.Filled := by
  intro rvs hrvs
  have hquorum := ht.backed ti hti hstep hheight hround
  rw [voteSet, getVoteSet, hrvs] at hquorum
  exact .inl (lt_of_lt_of_le (Nat.succ_pos _) (of_decide_eq_true hquorum))

lemma Timed.handleTimeout_follows (ht : n.Timed) {rest : List TimeoutInfo}
    (hq : n.timeScheduler.timeoutC = ti :: rest)
    (hn' : { n with timeScheduler.timeoutC := rest }.handleTimeout env ti false = some n') :
    Follows env n n' := by
  have hti : ti ∈ n.timeScheduler.ti :: n.timeScheduler.timeoutC := by simp [hq]
  have htimely : ti.height < n.height ∨ ti.height = n.height ∧ ti.round ≤ n.round :=
    ht.timely ti hti
  have hfilled : ti.step = .precommit →
      ¬(n.height ≠ ti.height ∨ n.round > ti.round ∨ n.round = ti.round ∧ n.step ≠ .prevote) →
      n.Filled := by
    intro hstep hguard
    push Not at hguard
    exact ht.filled hti hstep hguard.1.symm (by omega)
  have hagrees : ∀ {m}, n.Agrees m → Agrees
      ({ n with timeScheduler.timeoutC := rest }.saveUnless false (.timeout ti)) m := by
    intro m h
    exact { h with }
  unfold handleTimeout at hn'
  split at hn'
  case h_1 hstep =>
    cases hn'
    refine .of_frame (.enterPrevote _ _ _) (.timeout ti) fun m h => ?_
    refine ⟨_, ?_, (hagrees h).enterPrevote rfl rfl⟩
    simp only [replayEntry, handleTimeout, hstep]
    rfl
  case h_2 hstep =>
    refine .of_frame (.enterPrecommit hn') (.timeout ti) fun m h => ?_
    obtain ⟨m', hm', h'⟩ := (hagrees h).enterPrecommit (hfilled hstep) hn'
    refine ⟨m', ?_, h'⟩
    simp only [replayEntry, handleTimeout, hstep]
    exact hm'
  case h_3 hstep =>
    refine .of_frame (.enterCommit hn') (.timeout ti) fun m h => ?_
    obtain ⟨m', hm', h'⟩ := (hagrees h).enterCommit hn'
    refine ⟨m', ?_, h'⟩
    simp only [replayEntry, handleTimeout, hstep]
    exact hm'
  case h_4 =>
  cases hn'
  refine .of_frame (.refl _) (.timeout ti) fun m h => ⟨m, ?_, hagrees h⟩
  simp only [replayEntry, handleTimeout]
  rfl

lemma createProposal_again (henv : env.Resigns) {block : Block}
    (hp : n.createProposal env block = some p) (m : ConsensusTBFTImpl) :
    ∃ q, m.createProposal env p.block = some q ∧ q.restored = p.restored := by
  simp only [createProposal, henv.tbft, Bool.false_eq_true, if_false, bind_some] at hp ⊢
  obtain ⟨⟨hash, sig⟩, hsign, hp⟩ := bind_eq_some_iff.mp hp
  obtain ⟨endorsement, -, rfl⟩ := map_eq_some_iff.mp hp
  have hagain := henv.block block (some hash) (some sig)
  rw [hsign] at hagain
  obtain ⟨⟨hash', sig'⟩, hsign', hhash⟩ := map_eq_some_iff.mp hagain
  obtain rfl : hash' = hash := hhash
  rw [hsign', bind_some]
  obtain ⟨endorsement', hendorse⟩ := isSome_iff_exists.mp (henv.proposal
    ⟨m.id, m.height, m.round, -1, { block with header := { block.header with
      blockHash := some hash', signature := some sig' } }, none⟩)
  rw [hendorse]
  exact ⟨_, rfl, rfl⟩

lemma isProposer_eq (h : n.Agrees m) :
    m.isProposer env m.height m.round = n.isProposer env n.height n.round := by
  rw [isProposer, isProposer, h.height_eq, h.round_eq, h.id_eq]

lemma precommitMajority_eq (h : n.Agrees m) : m.precommitMajority = n.precommitMajority := by
  rw [precommitMajority, precommitMajority, h.round_eq, h.votes_eq]

lemma handleProposedBlock_follows (henv : env.Resigns) (block : Block) :
    Follows env n (n.handleProposedBlock env block false) := by
  unfold handleProposedBlock
  split_ifs with hguard
  · exact .stay rfl
  push Not at hguard
  split
  case h_1 => exact .stay rfl
  case h_2 p hp =>
  refine .of_frame (.enterPrevote _ _ _) (.proposal p) fun m h => ?_
  obtain ⟨q, hq, hrestored⟩ := createProposal_again henv hp m
  have hheight : p.block.header.blockHeight = m.height := by
    rw [createProposal_height hp, h.height_eq]
    exact hguard.1
  have hproposer : m.isProposer env m.height m.round = true := by
    rw [isProposer_eq h]
    exact hguard.2.1
  have hadopt : (n.adoptProposal p false).Agrees (m.adoptProposal q true) :=
    { h with proposal_eq := congrArg some hrestored }
  refine ⟨_, ?_, hadopt.enterPrevote h.height_eq h.round_eq⟩
  have hturn : ¬(p.block.header.blockHeight ≠ m.height ∨
      ¬m.isProposer env m.height m.round = true ∨ m.step ≠ .propose) := by
    rw [hheight, hproposer, h.step_eq, hguard.2.2]
    simp
  show (if m.isProposer env m.height m.round = true then _ else _) = _
  rw [if_pos hproposer, handleProposedBlock, if_neg hturn, hq]

lemma handleVerifyResult_committed (m : ConsensusTBFTImpl)
    (hmaj : m.precommitMajority = some p.block.header.blockHash.bytes) :
    { m with verifingProposal := some p }.handleVerifyResult env ⟨p.block, true, none⟩ true =
      (({ m with verifingProposal := some p }.adoptProposal p true).commitProposal env p).map
        shareProposal := by
  unfold handleVerifyResult
  dsimp only [precommits]
  rw [twoThirdsMajority_getVoteSet, if_neg (by simp), if_pos ⟨rfl, hmaj⟩]

lemma handleVerifyResult_prevoted (m : ConsensusTBFTImpl)
    (hargs : ¬(env.isDpos = true ∧ ¬env.verifyConsensusArgs p.block none = true))
    (hmaj : m.precommitMajority ≠ some p.block.header.blockHash.bytes) (hstep : m.step = .propose) :
    { m with verifingProposal := some p }.handleVerifyResult env ⟨p.block, true, none⟩ true =
      some (({ m with verifingProposal := some p }.adoptProposal p true).enterPrevote env m.height
        m.round) := by
  unfold handleVerifyResult
  dsimp only [precommits]
  rw [twoThirdsMajority_getVoteSet, if_neg (by simp), if_neg (fun h => hmaj h.2),
    if_neg (by simp [hstep]), if_neg hargs]

lemma handleVerifyResult_follows (henv : env.Resigns)
    (hother : n.verifingProposal.isSome = true → n.isProposer env n.height n.round = false)
    (hn' : n.handleVerifyResult env r false = some n') : Follows env n n' := by
  rcases handleVerifyResult_cases hn' with rfl | rfl | ⟨p, hp, -, hn'⟩
  · exact .stay rfl
  · exact .silent rfl (fun _ => nofun) fun m h => { h with }
  have hreplay : ∀ {m}, n.Agrees m → m.replayEntry env ⟨n.height, n.heightFirstIndex, .proposal p⟩ =
      { m with verifingProposal := some p }.handleVerifyResult env ⟨p.block, true, none⟩ true := by
    intro m h
    have hnot : ¬m.isProposer env m.height m.round = true := by
      rw [isProposer_eq h, hother (by rw [hp]; rfl)]
      exact nofun
    exact if_neg hnot
  have hadopt : ∀ {m}, n.Agrees m → (n.adoptProposal p false).Agrees
      ({ m with verifingProposal := some p }.adoptProposal p true) :=
    fun h => { h with proposal_eq := rfl }
  rcases hn' with ⟨hquorum, hn'⟩ | ⟨hquorum, hstep, rfl⟩
  · obtain ⟨n₁, hn₁, rfl⟩ := map_eq_some_iff.mp hn'
    have hframe : Frame (n.adoptProposal p false) n₁.shareProposal := by
      obtain ⟨block, -, rfl⟩ := map_eq_some_iff.mp hn₁
      exact ⟨rfl, fun _ => ⟨congrArg isSome hp, rfl⟩⟩
    refine .of_frame hframe (.proposal p) fun m h => ?_
    obtain ⟨m₁, hm₁, h₁⟩ := (hadopt h).commitProposal rfl hn₁
    refine ⟨m₁.shareProposal, ?_, { h₁ with }⟩
    rw [hreplay h, handleVerifyResult_committed m ((precommitMajority_eq h).trans hquorum), hm₁]
    rfl
  · refine .of_frame (.enterPrevote _ _ _) (.proposal p) fun m h => ?_
    refine ⟨_, ?_, (hadopt h).enterPrevote h.height_eq h.round_eq⟩
    rw [hreplay h, handleVerifyResult_prevoted m (by simp [henv.tbft])
      (precommitMajority_eq h ▸ hquorum) (h.step_eq.trans hstep)]

def incomingProposal (n : ConsensusTBFTImpl) : Event → Option ProposalProto
  | .externalMsg msg => msg.proposal
  | .internalMsg => n.internalMsgC.head?.bind (·.proposal)
  | _ => none

/-- A proposal in the name of the node comes from it. As the node prevotes what it proposes, it has
voted in the round of the proposal. -/
def FromItself (n : ConsensusTBFTImpl) (e : Event) : Prop :=
  ∀ p ∈ n.incomingProposal e, p.voter = n.id →
    ∃ v ∈ n.created, v.type = .prevote ∧ v.height = p.height ∧ v.round = p.round

/-- The two places at which a replay goes another way: the proposer of the round takes up a proposal
of another, made for another height than that of its block; and a prevote of a later round comes
when the node's own round is there without votes, left behind by a vote that was refused. -/
@[mk_iff]
structure Replayable (env : Env) (n : ConsensusTBFTImpl) (e : Event) : Prop where
  proposal : ∀ p ∈ n.incomingProposal e, ∀ b ∈ p.block,
    n.isProposer env n.height n.round = true → p.height = b.header.blockHeight
  prevote : ∀ v ∈ n.incoming e, v.type = .prevote → n.step = .prevote → n.round < v.round → n.Filled

instance (n : ConsensusTBFTImpl) (e : Event) : Decidable (n.FromItself e) :=
  inferInstanceAs (Decidable (∀ p ∈ _, _))

instance (n : ConsensusTBFTImpl) : Decidable n.Filled :=
  inferInstanceAs (Decidable (∀ rvs ∈ _, _))

instance (env : Env) (n : ConsensusTBFTImpl) (e : Event) : Decidable (n.Replayable env e) :=
  decidable_of_iff' _ (replayable_iff env n e)

lemma procPropose_follows (hprogress : n.Progress) {p : ProposalProto} (hown : p.voter = n.id →
      ∃ v ∈ n.created, v.type = .prevote ∧ v.height = p.height ∧ v.round = p.round)
    (hheight : ∀ b ∈ p.block, n.isProposer env n.height n.round = true →
      p.height = b.header.blockHeight)
    (hn' : n.procPropose env p = some n') : Follows env n n' := by
  obtain ⟨block, hblock, rfl⟩ := map_eq_some_iff.mp hn'
  split_ifs with hguard
  · exact .stay rfl
  push Not at hguard
  obtain ⟨-, hreceive, hproposer, -⟩ := hguard
  simp only [canReceiveProposal, Bool.and_eq_true, decide_eq_true_eq] at hreceive
  obtain ⟨⟨hblockHeight, hround⟩, hstep⟩ := hreceive
  refine .silent rfl (fun _ _ => ?_) fun m h => { h with }
  by_contra hself
  have hself : n.isProposer env n.height n.round = true := Bool.not_eq_false _ ▸ hself
  have hp : p.height = n.height := (hheight block hblock hself).trans hblockHeight.symm
  -- The node proposes in this round itself, so the proposal is its own and it has voted.
  have hvoter : p.voter = n.id := by
    rw [← hproposer, hp, ← hround]
    exact of_decide_eq_true hself
  obtain ⟨v, hv, htype, hvheight, hvround⟩ := hown hvoter
  have hle := hprogress.created_le v hv
  rw [Vote.position, htype, hvheight, hvround, hp, ← hround] at hle
  rcases position_le.mp hle with h | ⟨-, h | ⟨-, h⟩⟩
  · exact lt_irrefl _ h
  · exact lt_irrefl _ h
  · rw [hstep] at h
    exact absurd h (by decide)

lemma procVote_follows {last : Step}
    (hfilled : v.type = .prevote → n.step = .prevote → n.round < v.round → n.Filled)
    (hn' : n.procVote env last v = some n') : Follows env n n' := by
  unfold procVote at hn'
  split at hn'
  case isTrue => exact .stay hn'
  case isFalse hguard =>
  push Not at hguard
  split at hn'
  · exact .stay hn'
  refine addVote_follows (fun htype hstep hne => hfilled htype hstep ?_) hn'
  exact lt_of_le_of_ne hguard.2.1 hne

lemma handleConsensusMsg_follows (hprogress : n.Progress) {msg : TBFTMsg}
    (hown : ∀ p ∈ msg.proposal, p.voter = n.id →
      ∃ v ∈ n.created, v.type = .prevote ∧ v.height = p.height ∧ v.round = p.round)
    (hheight : ∀ p ∈ msg.proposal, ∀ b ∈ p.block,
      n.isProposer env n.height n.round = true → p.height = b.header.blockHeight)
    (hfilled : ∀ v ∈ msg.vote, v.type = .prevote → n.step = .prevote → n.round < v.round → n.Filled)
    (hn' : n.handleConsensusMsg env msg = some n') : Follows env n n' := by
  cases msg with
  | propose body =>
    obtain ⟨p, rfl, hn'⟩ := bind_eq_some_iff.mp hn'
    exact procPropose_follows hprogress (hown p rfl) (hheight p rfl) hn'
  | prevote | precommit =>
    obtain ⟨v, rfl, hn'⟩ := bind_eq_some_iff.mp hn'
    exact procVote_follows (hfilled v rfl) hn'
  | state body =>
    cases body with
    | none => exact .stay hn'
    | some g =>
      rcases procRecvState_cases hn' with rfl | ⟨rvs, voteSet, -, -, rfl⟩
      · exact .stay rfl
      · exact .silent rfl (fun h => h) fun m h => { h with }
  | other => exact .stay hn'

lemma Follows.dequeue {rest : List TBFTMsg} (h : Follows env { n with internalMsgC := rest } n') :
    Follows env n n' := by
  cases h with
  | silent hlog hother h => exact .silent hlog (fun ho => hother ho) fun m hm => h m { hm with }
  | logged data hlog hother h =>
    exact .logged data hlog (fun ho => hother ho) fun m hm => h m { hm with }

lemma handle_follows (henv : env.Resigns) (htimed : n.Timed) (hprogress : n.Progress)
    (hother : n.Other env) {e : Event} (hfrom : n.FromItself e) (hreplay : n.Replayable env e)
    (hn' : n.handle env e = some n') :
    Follows env n n' ∨ ∃ height, n.height < height ∧ n' = n.enterNewHeight env height false := by
  cases e with
  | proposedBlock block =>
    cases hn'
    exact .inl (handleProposedBlock_follows henv block)
  | verifyResult r => exact .inl (handleVerifyResult_follows henv hother hn')
  | blockHeight height =>
    cases hn'
    unfold handleBlockHeight
    split
    · exact .inl (.stay rfl)
    by_cases hlt : n.height < (height + 1) % 2 ^ 64
    · exact .inr ⟨_, hlt, rfl⟩
    rw [enterNewHeight, if_pos (not_lt.mp hlt)]
    exact .inl (.stay rfl)
  | externalMsg msg =>
    exact .inl (handleConsensusMsg_follows hprogress hfrom hreplay.proposal hreplay.prevote hn')
  | internalMsg =>
    simp only [handle] at hn'
    split at hn'
    case h_1 => cases hn'
    case h_2 msg rest hq =>
    have hproposal : n.incomingProposal .internalMsg = msg.proposal := by
      simp [incomingProposal, hq]
    have hvote : n.incoming .internalMsg = msg.vote := by simp [incoming, hq]
    refine .inl (Follows.dequeue (handleConsensusMsg_follows ?_ ?_ ?_ ?_ hn'))
    · exact hprogress.advance rfl rfl rfl le_rfl hprogress.proposal
    · exact hproposal ▸ hfrom
    · exact hproposal ▸ hreplay.proposal
    · exact hvote ▸ hreplay.prevote
  | timerFires =>
    obtain ⟨ts, -, rfl⟩ := map_eq_some_iff.mp hn'
    exact .inl (.silent rfl (fun h => h) fun m h => { h with })
  | timeout =>
    simp only [handle] at hn'
    split at hn'
    case h_1 => cases hn'
    case h_2 ti rest hq => exact .inl (htimed.handleTimeout_follows hq hn')

def replaying (env : Env) (id : NodeId) (height : ℕ) (wal : Wal) (first : ℕ) : ConsensusTBFTImpl :=
  { newConsensus env id wal with heightFirstIndex := first }.enterNewHeight env height true

/-- The entries of the node's height stand at the end of its log, and replayed they lead to where
the node is. -/
structure Recoverable (env : Env) (n : ConsensusTBFTImpl) : Prop where
  timed : n.Timed
  progress : n.Progress
  other : n.Other env
  replay : 0 < n.height → ∃ older recent, n.wal.entries = older ++ recent ∧
    n.heightFirstIndex = n.wal.dropped + older.length + 1 ∧
    ∀ wal first, ∃ m, recent.foldlM (replayEntry env) (replaying env n.id n.height wal first) =
      some m ∧ n.Agrees m

lemma Recoverable.follows (hr : n.Recoverable env) (htimed : n'.Timed) (hprogress : n'.Progress)
    (h : Follows env n n') : n'.Recoverable env := by
  cases h with
  | silent hlog hother h =>
    refine ⟨htimed, hprogress, hother hr.other, fun hpos => ?_⟩
    simp only [logView, Prod.mk.injEq] at hlog
    obtain ⟨hid, hheight, hfirst, hwal⟩ := hlog
    rw [hheight] at hpos
    obtain ⟨older, recent, hentries, hindex, hreplay⟩ := hr.replay hpos
    refine ⟨older, recent, hwal ▸ hentries, by rw [hfirst, hwal, hindex], fun wal first => ?_⟩
    obtain ⟨m, hm, hagrees⟩ := hreplay wal first
    exact ⟨m, by rw [hid, hheight, hm], h m hagrees⟩
  | logged data hlog hother h =>
    refine ⟨htimed, hprogress, hother hr.other, fun hpos => ?_⟩
    simp only [logView, saveWalEntry, Wal.write, Prod.mk.injEq] at hlog
    obtain ⟨hid, hheight, hfirst, hwal⟩ := hlog
    rw [hheight] at hpos
    obtain ⟨older, recent, hentries, hindex, hreplay⟩ := hr.replay hpos
    refine ⟨older, recent ++ [⟨n.height, n.heightFirstIndex, data⟩], ?_, ?_, fun wal first => ?_⟩
    · rw [hwal, ← append_assoc, ← hentries]
    · rw [hfirst, hwal, hindex]
    obtain ⟨m, hm, hagrees⟩ := hreplay wal first
    obtain ⟨m', hm', hagrees'⟩ := h m hagrees
    refine ⟨m', ?_, hagrees'⟩
    rw [foldlM_append, hid, hheight, hm]
    simpa using hm'

lemma enterNewHeight_live (env : Env) (hlt : n.height < height) :
    ∃ wal, wal.lastIndex = n.wal.lastIndex ∧ n.enterNewHeight env height false =
      (atHeight env { n with
        heightFirstIndex := n.wal.lastIndex + 1, wal := wal } height).enterNewRound
        height 0 := by
  obtain ⟨wal, hwal, heq⟩ := enterNewHeight_eq env n hlt false
  refine ⟨wal, ?_, heq⟩
  rcases hwal with rfl | rfl
  · rfl
  · exact Wal.lastIndex_truncateFront n.wal

lemma enterNewHeight_replayed (env : Env) (hlt : n.height < height) :
    n.enterNewHeight env height true = (atHeight env n height).enterNewRound height 0 := by
  unfold enterNewHeight
  rw [if_neg (not_le.mpr hlt)]
  rfl

lemma replaying_eq (env : Env) (id : NodeId) (hpos : 0 < height) (wal : Wal)
    (first : ℕ) : replaying env id height wal first = (atHeight env
      { newConsensus env id wal with heightFirstIndex := first } height).enterNewRound height 0 :=
  enterNewHeight_replayed env hpos

lemma recoverable_enterNewHeight (htimed : n.Timed) (hprogress : n.Progress)
    (hlt : n.height < height) : (n.enterNewHeight env height false).Recoverable env := by
  have htimed : (n.enterNewHeight env height false).Timed :=
    htimed.changes (enterNewHeight_changes (I := anyInputs) height trivial)
  have hprogress : (n.enterNewHeight env height false).Progress :=
    hprogress.enterNewHeight height false
  obtain ⟨wal, hwal, heq⟩ := enterNewHeight_live env hlt
  have hframe : Frame
    (atHeight env { n with heightFirstIndex := n.wal.lastIndex + 1, wal := wal } height)
      (n.enterNewHeight env height false) := heq ▸ Frame.enterNewRound _ 0
  have hlog : (n.enterNewHeight env height false).logView =
      (n.id, height, n.wal.lastIndex + 1, wal) :=
    hframe.log
  have hagrees : ∀ w first,
      (n.enterNewHeight env height false).Agrees (replaying env n.id height w first) := by
    intro w first
    rw [heq, replaying_eq env n.id ((Nat.zero_le _).trans_lt hlt)]
    refine Agrees.enterNewRound ?_ rfl 0
    exact ⟨rfl, rfl, rfl, rfl, rfl, rfl, rfl, fun _ _ => rfl⟩
  simp only [logView, Prod.mk.injEq] at hlog
  obtain ⟨hid, hheight, hfirst, hwal'⟩ := hlog
  refine ⟨htimed, hprogress, hframe.other nofun, fun _ => ⟨wal.entries, [], ?_, ?_, ?_⟩⟩
  · rw [hwal', append_nil]
  · rw [hfirst, hwal', ← hwal]
    rfl
  intro w first
  refine ⟨_, rfl, ?_⟩
  rw [hid, hheight]
  exact hagrees w first

lemma Recoverable.start (env : Env) (id : NodeId) (ledger : ℕ) :
    (start env id ledger).Recoverable env := by
  have htimed := Timed.new env id ⟨0, []⟩
  unfold ConsensusTBFTImpl.start
  by_cases hlt : (newConsensus env id ⟨0, []⟩).height < (ledger + 1) % 2 ^ 64
  · exact recoverable_enterNewHeight htimed (Progress.new env id ⟨0, []⟩) hlt
  · rw [enterNewHeight, if_pos (not_lt.mp hlt)]
    exact ⟨htimed, Progress.new env id ⟨0, []⟩, fun h => absurd h Bool.false_ne_true,
      fun hpos => absurd hpos (lt_irrefl 0)⟩

lemma Recoverable.handle (henv : env.Resigns) (hr : n.Recoverable env) {e : Event}
    (hfrom : n.FromItself e) (hreplay : n.Replayable env e) (hn' : n.handle env e = some n') :
    n'.Recoverable env := by
  have hprogress : n'.Progress := (handle_step hr.progress hn').1
  rcases handle_follows henv hr.timed hr.progress hr.other hfrom hreplay hn' with
    h | ⟨height, hlt, rfl⟩
  · exact hr.follows (hr.timed.handle hn') hprogress h
  · exact recoverable_enterNewHeight hr.timed hr.progress hlt

lemma wal_handleProposedBlock (block : Block) :
    (n.handleProposedBlock env block true).wal = n.wal := by
  unfold handleProposedBlock
  split
  · rfl
  split
  · rfl
  · exact (Frame.enterPrevote _ _ _).wal

lemma wal_handleVerifyResult (hn' : n.handleVerifyResult env r true = some n') :
    n'.wal = n.wal := by
  rcases handleVerifyResult_cases hn' with rfl | rfl | ⟨p, -, -, ⟨-, hn'⟩ | ⟨-, -, rfl⟩⟩
  · rfl
  · rfl
  · obtain ⟨n₁, hn₁, rfl⟩ := map_eq_some_iff.mp hn'
    exact (Frame.commitProposal hn₁).wal
  · exact (Frame.enterPrevote _ _ _).wal

lemma wal_handleTimeout (hn' : n.handleTimeout env ti true = some n') : n'.wal = n.wal := by
  unfold handleTimeout at hn'
  split at hn'
  · exact some.inj hn' ▸ (Frame.enterPrevote _ _ _).wal
  · exact (Frame.enterPrecommit hn').wal
  · exact (Frame.enterCommit hn').wal
  · exact (Frame.stay hn').wal

lemma wal_replayEntry {entry : WalEntry} (hn' : n.replayEntry env entry = some n') :
    n'.wal = n.wal := by
  unfold replayEntry at hn'
  split at hn'
  · exact wal_handleTimeout hn'
  · split at hn'
    · exact some.inj hn' ▸ wal_handleProposedBlock _
    have hwal := wal_handleVerifyResult hn'
    exact hwal
  · obtain ⟨⟨hvs, res⟩, -, hn'⟩ := bind_eq_some_iff.mp hn'
    dsimp only at hn'
    split at hn'
    · exact (Frame.onVote hn').wal
    · exact some.inj hn' ▸ rfl

lemma replayFrom_eq_foldlM {older recent : List WalEntry} {w : Wal} (hwal : n.wal = w)
    (hentries : w.entries = older ++ recent) : n.replayFrom env
    (w.dropped + older.length + 1) recent.length = recent.foldlM (replayEntry env) n := by
  unfold replayFrom
  induction recent generalizing n older with
  | nil => rfl
  | cons entry recent ih =>
    have hread : n.wal.read (w.dropped + older.length + 1) = some entry := by
      have hindex : w.dropped + older.length + 1 - w.dropped - 1 = older.length := by omega
      rw [hwal, Wal.read, if_neg (by omega), hindex, hentries]
      simp
    rw [length_cons, range'_succ, foldlM_cons, foldlM_cons, hread, bind_some]
    cases hm : n.replayEntry env entry with
    | none => rfl
    | some m =>
      have hsplit : w.entries = (older ++ [entry]) ++ recent := by simp [hentries]
      have hm := ih ((wal_replayEntry hm).trans hwal) hsplit
      rw [length_append, length_singleton, ← Nat.add_assoc] at hm
      exact hm

def recover (env : Env) (n : ConsensusTBFTImpl) : Option ConsensusTBFTImpl :=
  (replaying env n.id n.height n.wal n.heightFirstIndex).replayFrom env n.heightFirstIndex
    (n.wal.lastIndex + 1 - n.heightFirstIndex)

/-- The round, the step, the hash of the proposal and the votes of each round and type are the same.
A set without votes may be missing. -/
structure Restores (n m : ConsensusTBFTImpl) : Prop where
  round : m.round = n.round
  step : m.step = n.step
  proposal : m.proposal.map (·.block.header.blockHash) = n.proposal.map (·.block.header.blockHash)
  votes : ∀ r t, m.heightRoundVoteSet.voteSet r t = n.heightRoundVoteSet.voteSet r t

lemma Agrees.restores (h : n.Agrees m) : n.Restores m := by
  refine ⟨h.round_eq, h.step_eq, ?_, h.votes_eq⟩
  simpa [Option.map_map, Function.comp_def, Proposal.restored] using
    congrArg (Option.map (·.1)) h.proposal_eq

lemma wal_replaying (env : Env) (id : NodeId) (hpos : 0 < height) (wal : Wal)
    (first : ℕ) : (replaying env id height wal first).wal = wal := by
  rw [replaying_eq env id hpos]
  exact (Frame.enterNewRound _ 0).wal

lemma Recoverable.recover (hr : n.Recoverable env) (hpos : 0 < n.height) :
    ∃ m, n.recover env = some m ∧ n.Restores m := by
  obtain ⟨older, recent, hentries, hfirst, hreplay⟩ := hr.replay hpos
  obtain ⟨m, hm, hagrees⟩ := hreplay n.wal n.heightFirstIndex
  refine ⟨m, ?_, hagrees.restores⟩
  have hcount : n.wal.lastIndex + 1 - n.heightFirstIndex = recent.length := by
    rw [hfirst, Wal.lastIndex, hentries, length_append]
    omega
  rw [ConsensusTBFTImpl.recover, hcount, ← hm]
  nth_rewrite 2 [hfirst]
  exact replayFrom_eq_foldlM (wal_replaying env n.id hpos n.wal _) hentries

end ConsensusTBFTImpl

namespace Cluster

theorem recovers (c : Cluster) (hsigns : ∀ i ∈ c.honest, (c.env i).Resigns) (ledger : NodeId → ℕ)
    (es : List (NodeId × Event)) (s : Network)
    (hP : Runs.Meets c.step (fun s e => (s e.1).FromItself e.2 ∧ (s e.1).Replayable (c.env e.1) e.2)
      (c.start ledger) es)
    (hrun : Runs.run c.step (c.start ledger) es = some s) (i : NodeId) (hi : i ∈ c.honest)
    (hheight : 0 < (s i).height) :
    ∃ m, (s i).recover (c.env i) = some m ∧ (s i).Restores m := by
  have hrecoverable : (c.env i).Resigns → (s i).Recoverable (c.env i) := by
    refine run_nodes (J := fun env n => env.Resigns → n.Recoverable env)
      (P := fun env n e => n.FromItself e ∧ n.Replayable env e) ?_ ?_ hP hrun i
    · exact fun hr hP hn' henv => (hr henv).handle henv hP.1 hP.2 hn'
    · exact fun i _ => ConsensusTBFTImpl.Recoverable.start (c.env i) i (ledger i)
  exact (hrecoverable (hsigns i hi)).recover hheight

open ConsensusTBFTImpl

lemma fourEnv_resigns : fourEnv.Resigns := ⟨⟨fun _ _ _ => rfl, fun _ => rfl⟩, rfl⟩

theorem recovers_leftBehind : ∃ s m,
    Runs.run fourCluster.step (fourCluster.start fun _ => 0) leftBehind = some s ∧
      (s [1]).recover (fourCluster.env [1]) = some m ∧ (s [1]).Restores m ∧
      m.round = 1 ∧ m.step = .prevote ∧ m.proposal.isSome = true := by
  obtain ⟨m, hm, hrestores⟩ :=
    recovers fourCluster (fun _ _ => fourEnv_resigns) (fun _ => 0) leftBehind _
    (by decide +kernel) (eq_some_of_isSome (by decide +kernel)) [1] (by decide) (by decide +kernel)
  have hsome := congrArg isSome hrestores.proposal
  rw [isSome_map, isSome_map] at hsome
  exact ⟨_, m, eq_some_of_isSome _, hm, hrestores, hrestores.round.trans (by decide +kernel),
    hrestores.step.trans (by decide +kernel), hsome.trans (by decide +kernel)⟩

def proposedAhead : List (NodeId × Event) :=
  let ahead : Event := .externalMsg (.propose (some
    ⟨[3], 2, 0, -1, some (blockOf [7]), some ⟨⟨[], [3]⟩, []⟩⟩))
  let verified : Event := .verifyResult ⟨blockOf [7], true, none⟩
  [([0], ahead), ([0], verified), ([0], .internalMsg), ([1], ahead), ([1], verified),
    ([1], .internalMsg), ([2], ahead), ([2], .timerFires), ([2], .timeout)] ++
    gather [0] 1 3 0 [7] ++ gather [1] 0 3 0 [7] ++
    [([2], precommitOf 0 0 (some [7])), ([2], precommitOf 1 0 (some [7])),
      ([2], precommitOf 3 0 (some [7])), ([2], verified)]

def refusedFirst : List (NodeId × Event) :=
  leftBehind.take 4 ++ ([0], prevoteOf 9 0 nilHash) :: leftBehind.drop 5 ++
    [([0], prevoteOf 3 1 (some [8]))]

/-- The node does not recover its state after a run in which every message in the name of an honest
node is its own. -/
def LostAfter (es : List (NodeId × Event)) (i : NodeId) : Prop :=
  i ∈ fourCluster.honest ∧
    Runs.Meets fourCluster.step
      (fun s e => (s e.1).FromItself e.2 ∧ fourCluster.DeliversGenuine s e)
      (fourCluster.start fun _ => 0) es ∧
    ∃ s, Runs.run fourCluster.step (fourCluster.start fun _ => 0) es = some s ∧
      ¬∃ m, (s i).recover (fourCluster.env i) = some m ∧ (s i).Restores m

lemma lostAfter_of {es : List (NodeId × Event)} {i : NodeId} (hi : i ∈ fourCluster.honest)
    (hmeets : Runs.Meets fourCluster.step
      (fun s e => (s e.1).FromItself e.2 ∧ fourCluster.DeliversGenuine s e)
      (fourCluster.start fun _ => 0) es)
    (hrun : (Runs.run fourCluster.step (fourCluster.start fun _ => 0) es).any (fun s =>
      !((s i).recover (fourCluster.env i)).any fun m =>
        m.proposal.isSome == (s i).proposal.isSome) = true) : LostAfter es i := by
  obtain ⟨s, hs, h⟩ := (any_eq_true _ _).mp hrun
  refine ⟨hi, hmeets, s, hs, ?_⟩
  rintro ⟨m, hm, hrestores⟩
  have hsome := congrArg isSome hrestores.proposal
  rw [isSome_map, isSome_map] at hsome
  rw [hm, any_some, beq_iff_eq.mpr hsome] at h
  cases h

theorem node_loses_state : LostAfter proposedAhead [2] ∧ LostAfter refusedFirst [0] :=
  ⟨lostAfter_of (by decide) (by decide +kernel) (by decide +kernel),
    lostAfter_of (by decide) (by decide +kernel) (by decide +kernel)⟩
end Cluster
end ChainMaker.Tbft
