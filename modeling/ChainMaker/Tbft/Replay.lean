import ChainMaker.Tbft.Crashes

/-! Two nodes that stand at the same place of a height. What the handlers do with the same input
then leaves them at the same place again. -/

namespace ChainMaker.Tbft
open Option HeightRoundVoteSet

def Proposal.restored (p : Proposal) : Hash × Bool :=
  (p.block.header.blockHash, p.block.attachable)

lemma VoteSet.sum_pos_of_counted {vs : VoteSet} {v : Vote} (h : (vs.addVote v).2 = .ok true) :
    0 < (vs.addVote v).1.sum := by
  rcases VoteSet.addVote_cases vs v with ⟨-, hne⟩ | ⟨-, -, -, heq⟩
  · exact absurd h hne
  rw [heq, VoteSet.sum_count]
  exact Nat.succ_pos _

namespace HeightRoundVoteSet
variable {hvs hvs' : HeightRoundVoteSet} {vote : Vote} {res : Except VoteError Bool}

lemma getVoteSet_addVote_self (h : hvs.addVote vote = some (hvs', res)) :
    hvs'.getVoteSet vote.round vote.type =
      some ((hvs.voteSet vote.round vote.type).addVote vote).1 := by
  have hset := (voteSet_addVote h).2.2.2 vote.round vote.type
  rw [if_pos ⟨rfl, rfl⟩] at hset
  obtain ⟨vs', hvs'⟩ : ∃ vs', hvs'.getVoteSet vote.round vote.type = some vs' := by
    simp only [addVote, bind_eq_bind, bind_eq_some_iff, pure_def, some.injEq, Prod.mk.injEq] at h
    obtain ⟨vs, hvs0, rfl, -⟩ := h
    have hget := get_set _ hvs0 (vs.addVote vote).1 vote.type
    rw [if_pos rfl] at hget
    refine ⟨(vs.addVote vote).1, ?_⟩
    rw [getVoteSet, getRoundVoteSet, AList.lookup_insert, bind_some]
    exact hget
  rw [← hset, voteSet, hvs', getD_some]

lemma prevotes_of_sum {r : ℤ} {t : VoteType} (h : 0 < (hvs.voteSet r t).sum) :
    hvs.prevotes r = some (hvs.voteSet r .prevote) := by
  cases hround : hvs.getRoundVoteSet r with
  | none =>
    rw [voteSet, getVoteSet, hround] at h
    exact absurd h (lt_irrefl 0)
  | some rvs => rw [prevotes, voteSet, getVoteSet, hround, bind_some, RoundVoteSet.get, getD_some]

end HeightRoundVoteSet

namespace ConsensusTBFTImpl
variable {env : Env} {n n' m m' : ConsensusTBFTImpl}

def Filled (n : ConsensusTBFTImpl) : Prop :=
  ∀ rvs ∈ n.heightRoundVoteSet.getRoundVoteSet n.round, 0 < rvs.prevotes.sum ∨
    0 < rvs.precommits.sum

structure Agrees (n m : ConsensusTBFTImpl) : Prop where
  id_eq : m.id = n.id
  height_eq : m.height = n.height
  round_eq : m.round = n.round
  step_eq : m.step = n.step
  prevoteTimer_eq : m.triggeredTimeoutPrevote = n.triggeredTimeoutPrevote
  precommitTimer_eq : m.triggeredTimeoutPrecommit = n.triggeredTimeoutPrecommit
  proposal_eq : m.proposal.map Proposal.restored = n.proposal.map Proposal.restored
  votes_eq : ∀ r t, m.heightRoundVoteSet.voteSet r t = n.heightRoundVoteSet.voteSet r t

namespace Agrees

lemma guard (h : n.Agrees m) (height : ℕ) (r : ℤ) (s : Step) :
    (m.height ≠ height ∨ m.round > r ∨ m.round = r ∧ m.step ≠ s) ↔
      (n.height ≠ height ∨ n.round > r ∨ n.round = r ∧ n.step ≠ s) := by
  rw [h.height_eq, h.round_eq, h.step_eq]

lemma twoThirdsMajority_eq (h : n.Agrees m) (r : ℤ) (t : VoteType) :
    twoThirdsMajority (m.heightRoundVoteSet.getVoteSet r t) =
      twoThirdsMajority (n.heightRoundVoteSet.getVoteSet r t) := by
  rw [twoThirdsMajority_getVoteSet, h.votes_eq, twoThirdsMajority_getVoteSet]

lemma setStep (h : n.Agrees m) (s : Step) : Agrees { n with step := s } { m with step := s } :=
  { h with step_eq := rfl }

lemma enterPropose (h : n.Agrees m) (height : ℕ) (r : ℤ) :
    (n.enterPropose height r).Agrees (m.enterPropose height r) := by
  unfold ConsensusTBFTImpl.enterPropose
  simp only [h.guard]
  split_ifs
  · exact h
  · exact { h with step_eq := rfl }

variable {height : ℕ}

section
variable (h : n.Agrees m)
include h

lemma enterNewRound {height' : ℕ} (hheight : height' = height) (r : ℤ) :
    (n.enterNewRound height r).Agrees (m.enterNewRound height' r) := by
  subst hheight
  unfold enterNewRound
  simp only [h.height_eq, h.round_eq, h.step_eq]
  split_ifs
  · exact h
  · refine enterPropose ?_ height' r
    exact ⟨h.id_eq, rfl, rfl, rfl, rfl, rfl, rfl, h.votes_eq⟩

lemma enterPrevote {height' : ℕ} (hheight : height' = height) {r r' : ℤ} (hround : r' = r) :
    (n.enterPrevote env height r).Agrees (m.enterPrevote env height' r') := by
  subst hheight hround
  unfold enterPrevote
  simp only [h.guard]
  split_ifs
  · exact h
  · exact { h with step_eq := rfl }

lemma undecided (hfilled : n.Filled) (hund : m.Undecided) : n.Undecided := by
  have hset : ∀ vs ∈ n.heightRoundVoteSet.prevotes n.round,
      m.heightRoundVoteSet.prevotes m.round = some vs := by
    intro vs hvs
    obtain ⟨rvs, hrvs, hvs⟩ := bind_eq_some_iff.mp hvs
    cases hvs
    have hsets : ∀ t vs, rvs.get t = some vs → m.heightRoundVoteSet.voteSet m.round t = vs := by
      intro t vs hvs
      rw [h.votes_eq, h.round_eq, voteSet, getVoteSet, hrvs, bind_some, hvs, getD_some]
    have hthere : ∃ t, 0 < (m.heightRoundVoteSet.voteSet m.round t).sum := by
      rcases hfilled rvs hrvs with hsum | hsum
      · exact ⟨.prevote, by rwa [hsets .prevote rvs.prevotes rfl]⟩
      · exact ⟨.precommit, by rwa [hsets .precommit rvs.precommits rfl]⟩
    obtain ⟨t, hsum⟩ := hthere
    rw [← hsets .prevote rvs.prevotes rfl]
    exact prevotes_of_sum hsum
  refine ⟨?_, fun vs hvs => hund.few vs (hset vs hvs), fun vs hvs => hund.possible vs (hset vs hvs)⟩
  have hmaj := hund.majority
  rwa [h.votes_eq, h.round_eq] at hmaj

lemma enterPrecommit {r : ℤ}
    (hfilled : ¬(n.height ≠ height ∨ n.round > r ∨ n.round = r ∧ n.step ≠ .prevote) → n.Filled)
    (hn' : n.enterPrecommit env height r = some n') :
    ∃ m', m.enterPrecommit env height r = some m' ∧ n'.Agrees m' := by
  unfold ConsensusTBFTImpl.enterPrecommit at hn' ⊢
  simp only [h.guard]
  split_ifs at hn' ⊢ with hguard
  · cases hn'
    exact ⟨m, rfl, h⟩
  obtain ⟨hash, hhash, rfl⟩ := map_eq_some_iff.mp hn'
  have hne : m.precommitHash ≠ none := by
    intro hnone
    have hund := h.undecided (hfilled hguard) (precommitHash_eq_none_iff.mp hnone)
    rw [precommitHash_eq_none_iff.mpr hund] at hhash
    cases hhash
  obtain ⟨hash', hhash'⟩ := ne_none_iff_exists'.mp hne
  rw [hhash']
  exact ⟨_, rfl, { h with step_eq := rfl }⟩

lemma commitProposal {p q : Proposal} (hpq : q.restored = p.restored)
    (hn' : n.commitProposal env p = some n') :
    ∃ m', m.commitProposal env q = some m' ∧ n'.Agrees m' := by
  obtain ⟨block, hblock, rfl⟩ := map_eq_some_iff.mp hn'
  obtain ⟨hhash, hattach⟩ := Prod.mk.inj hpq
  have hsome : (q.block.attach (m.precommitCertificate env)).isSome = true := by
    rw [Block.isSome_attach, hattach, ← Block.isSome_attach p.block (n.precommitCertificate env),
      hblock]
    rfl
  obtain ⟨block', hblock'⟩ := isSome_iff_exists.mp hsome
  refine ⟨_, congrArg (Option.map _) hblock', { h with proposal_eq := ?_ }⟩
  refine congrArg some (Prod.ext ?_ ?_)
  · show block'.header.blockHash = block.header.blockHash
    rw [attach_header hblock', attach_header hblock]
    exact hhash
  · show block'.attachable = block.attachable
    rw [Block.attachable_of_attach hblock', Block.attachable_of_attach hblock]

lemma enterCommit {r : ℤ} (hn' : n.enterCommit env height r = some n') :
    ∃ m', m.enterCommit env height r = some m' ∧ n'.Agrees m' := by
  have hmaj : twoThirdsMajority (m.heightRoundVoteSet.precommits m.round) =
      twoThirdsMajority (n.heightRoundVoteSet.precommits n.round) := by
    rw [h.round_eq]
    exact h.twoThirdsMajority_eq n.round .precommit
  unfold ConsensusTBFTImpl.enterCommit at hn' ⊢
  simp only [h.guard, hmaj] at hn' ⊢
  split_ifs at hn' ⊢
  · cases hn'
    exact ⟨m, rfl, h⟩
  · cases hn'
    exact ⟨_, rfl, (h.setStep .commit).enterNewRound h.height_eq _⟩
  · split at hn'
    case h_1 => cases hn'
    case h_2 p hp =>
    split_ifs at hn' with hhash
    have hq := h.proposal_eq
    rw [hp] at hq
    obtain ⟨q, hq, hrestored⟩ := map_eq_some_iff.mp hq
    have hbytes : q.block.header.blockHash = p.block.header.blockHash := (Prod.mk.inj hrestored).1
    rw [hq]
    dsimp only
    rw [hbytes, if_neg hhash]
    exact (h.setStep .commit).commitProposal hrestored hn'

lemma isSome_proposal : m.proposal.isSome = n.proposal.isSome := by
  simpa using congrArg isSome h.proposal_eq

lemma tallied {s : Step} {r : ℤ} {voteSet : Option VoteSet} {triggered : Bool}
    {goes goes' : Bytes → Prop} [DecidablePred goes] [DecidablePred goes']
    {enter enter' : Option ConsensusTBFTImpl} {timed timed' : ConsensusTBFTImpl}
    (hgoes : ∀ x, goes' x ↔ goes x)
    (henter : n.step = s → enter = some n' → ∃ m', enter' = some m' ∧ n'.Agrees m')
    (htimed : timed.Agrees timed')
    (hn' : n.tallied s r voteSet triggered goes enter timed = some n') :
    ∃ m', m.tallied s r voteSet triggered goes' enter' timed' = some m' ∧ n'.Agrees m' := by
  unfold ConsensusTBFTImpl.tallied at hn' ⊢
  rw [h.step_eq, h.round_eq]
  split at hn'
  case isTrue hstep =>
    cases hn'
    exact ⟨m, if_pos hstep, h⟩
  case isFalse hstep =>
  have henter := henter (not_not.mp hstep)
  split at hn'
  case h_1 =>
    split_ifs at hn' ⊢
    · exact henter hn'
    · exact ⟨timed', rfl, some.inj hn' ▸ htimed⟩
    · exact ⟨m, rfl, some.inj hn' ▸ h⟩
  case h_2 x _ =>
  rw [if_congr (hgoes x) rfl rfl]
  split_ifs at hn' ⊢
  · exact henter hn'
  · exact ⟨m, rfl, some.inj hn' ▸ h⟩

end

variable {v : Vote}

variable (h : n.Agrees m)
include h

lemma addPrevoteVote {vs : VoteSet} (hn : n.heightRoundVoteSet.prevotes v.round = some vs)
    (hm : m.heightRoundVoteSet.prevotes v.round = some vs)
    (hfilled : n.step = .prevote → n.Filled) (hn' : n.addPrevoteVote env v = some n') :
    ∃ m', m.addPrevoteVote env v = some m' ∧ n'.Agrees m' := by
  rw [addPrevoteVote_eq, hn] at hn'
  rw [addPrevoteVote_eq, hm, h.prevoteTimer_eq, h.height_eq, h.round_eq]
  refine h.tallied (fun x => by rw [h.isSome_proposal]) (fun hstep => ?_) ?_ hn'
  · exact h.enterPrecommit fun _ => hfilled hstep
  · exact { h with prevoteTimer_eq := rfl }

lemma any_proposal (x : Bytes) : m.proposal.any (fun p => x = p.block.header.blockHash.bytes) =
      n.proposal.any (fun p => x = p.block.header.blockHash.bytes) := by
  have hmap : ∀ o : Option Proposal, o.any (fun p => x = p.block.header.blockHash.bytes) =
      (o.map Proposal.restored).any fun k => x = k.1.bytes := by
    intro o
    cases o with
    | none | some => rfl
  rw [hmap, h.proposal_eq, ← hmap]

lemma addPrecommitVote {vs : VoteSet} (hn : n.heightRoundVoteSet.precommits v.round = some vs)
    (hm : m.heightRoundVoteSet.precommits v.round = some vs)
    (hn' : n.addPrecommitVote env v = some n') :
    ∃ m', m.addPrecommitVote env v = some m' ∧ n'.Agrees m' := by
  rw [addPrecommitVote_eq, hn] at hn'
  rw [addPrecommitVote_eq, hm, h.precommitTimer_eq, h.height_eq, h.round_eq]
  refine h.tallied (fun x => by rw [h.any_proposal]) (fun _ => h.enterCommit) ?_ hn'
  exact { h with precommitTimer_eq := rfl }

lemma countVote {hvs hvs' : HeightRoundVoteSet} {res res' : Except VoteError Bool}
    (hn : n.heightRoundVoteSet.addVote v = some (hvs, res))
    (hm : m.heightRoundVoteSet.addVote v = some (hvs', res')) :
    Agrees { n with heightRoundVoteSet := hvs } { m with heightRoundVoteSet := hvs' } := by
  refine { h with votes_eq := fun r t => ?_ }
  rw [(voteSet_addVote hn).2.2.2, (voteSet_addVote hm).2.2.2, h.votes_eq]

lemma refuseVote {hvs : HeightRoundVoteSet} {res : Except VoteError Bool}
    (hn : n.heightRoundVoteSet.addVote v = some (hvs, res)) (hres : res ≠ .ok true) :
    Agrees { n with heightRoundVoteSet := hvs } m := by
  refine { h with votes_eq := fun r t => ?_ }
  obtain ⟨-, -, rfl, hset⟩ := voteSet_addVote hn
  have hsame : ((n.heightRoundVoteSet.voteSet v.round v.type).addVote v).1 =
      n.heightRoundVoteSet.voteSet v.round v.type := by
    rcases VoteSet.addVote_cases (n.heightRoundVoteSet.voteSet v.round v.type) v with
      ⟨heq, -⟩ | ⟨-, -, -, heq⟩
    · exact heq
    · rw [heq] at hres
      exact absurd rfl hres
  rw [hset, h.votes_eq]
  split
  case isTrue heq =>
    obtain ⟨rfl, rfl⟩ := heq
    exact hsame.symm
  case isFalse => rfl

lemma onVote {vs : VoteSet} (hn : n.heightRoundVoteSet.getVoteSet v.round v.type = some vs)
    (hm : m.heightRoundVoteSet.getVoteSet v.round v.type = some vs)
    (hfilled : v.type = .prevote → n.step = .prevote → n.Filled) (hn' : n.onVote env v = some n') :
    ∃ m', m.onVote env v = some m' ∧ n'.Agrees m' := by
  unfold ConsensusTBFTImpl.onVote at hn' ⊢
  cases ht : v.type with
  | prevote =>
    rw [ht] at hn hm hn'
    exact h.addPrevoteVote hn hm (hfilled ht) hn'
  | precommit =>
    rw [ht] at hn hm hn'
    exact h.addPrecommitVote hn hm hn'
  | other tag =>
    rw [ht] at hn'
    cases hn'
    exact ⟨m, rfl, h⟩

end Agrees

end ConsensusTBFTImpl
end ChainMaker.Tbft
