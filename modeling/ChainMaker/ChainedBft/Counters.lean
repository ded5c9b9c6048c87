import ChainMaker.ChainedBft.Protocol

/-! The two functions that count the votes of a certificate: the method of a running node and the
package function of a node that synchronises. They take different votes for new-view votes and for
votes for the block, and may ask for different quorums. -/

namespace ChainMaker.ChainedBft
open List Governance Verifier

/-- The method `VerifyBlockSignatures`. A certificate of no bytes, which it refuses as such, would
decode to one without a block id. -/
def Env.verifyBlockSignatures (env : Env) (block : Option Block) : Bool :=
  match block with
  | none => false
  | some block =>
    match certificate block with
    | .error _ => false
    | .ok qc => qc.blockId.isSome && bytes qc.blockId = block.header.blockHash &&
        (env.countNumFromVotes qc).any (env.enoughVotes qc)

section tally

def tallyVote (qc : QuorumCert) (forView forBlock : VoteData → Bool) (count : VoteCount)
    (v : VoteData) : Option VoteCount :=
  if v.height ≠ qc.height ∨ v.level ≠ qc.level ∨ v.authorIdx ∈ count.voteIdxes then none
  else some ⟨count.newViewNum + (forView v).toNat, count.votedBlockNum + (forBlock v).toNat,
    v.authorIdx :: count.voteIdxes⟩

structure Matching (qc : QuorumCert) (seen : List ℕ) (votes : List VoteData) : Prop where
  matched : ∀ v ∈ votes, v.height = qc.height ∧ v.level = qc.level
  fresh : ∀ v ∈ votes, v.authorIdx ∉ seen
  nodup : (votes.map (·.authorIdx)).Nodup

lemma matching_cons {qc : QuorumCert} {seen : List ℕ} {v : VoteData} {votes : List VoteData} :
    Matching qc seen (v :: votes) ↔
      ¬(v.height ≠ qc.height ∨ v.level ≠ qc.level ∨ v.authorIdx ∈ seen) ∧
        Matching qc (v.authorIdx :: seen) votes := by
  constructor
  · rintro ⟨hmatched, hfresh, hnodup⟩
    obtain ⟨⟨hheight, hlevel⟩, hmatched⟩ := forall_mem_cons.mp hmatched
    obtain ⟨hv, hfresh⟩ := forall_mem_cons.mp hfresh
    obtain ⟨hnotin, hnodup⟩ := nodup_cons.mp hnodup
    refine ⟨by simp [hheight, hlevel, hv], hmatched, fun w hw hmem => ?_, hnodup⟩
    rcases mem_cons.mp hmem with heq | hmem
    · exact hnotin (mem_map.mpr ⟨w, hw, heq⟩)
    · exact hfresh w hw hmem
  · rintro ⟨hv, hmatched, hfresh, hnodup⟩
    push Not at hv
    refine ⟨forall_mem_cons.mpr ⟨⟨hv.1, hv.2.1⟩, hmatched⟩, ?_, ?_⟩
    · exact forall_mem_cons.mpr
        ⟨hv.2.2, fun w hw hmem => hfresh w hw (mem_cons_of_mem _ hmem)⟩
    · refine nodup_cons.mpr ⟨fun hmem => ?_, hnodup⟩
      obtain ⟨w, hw, heq⟩ := mem_map.mp hmem
      exact hfresh w hw (heq ▸ mem_cons_self)

lemma foldlM_tallyVote (qc : QuorumCert) (forView forBlock : VoteData → Bool)
    (votes : List VoteData) (count : VoteCount) : (Matching qc count.voteIdxes votes → ∃ idxs,
        votes.foldlM (tallyVote qc forView forBlock) count =
          some ⟨count.newViewNum + votes.countP forView,
            count.votedBlockNum + votes.countP forBlock, idxs⟩) ∧
      (¬Matching qc count.voteIdxes votes →
        votes.foldlM (tallyVote qc forView forBlock) count = none) := by
  induction votes generalizing count with
  | nil => exact ⟨fun _ => ⟨_, rfl⟩, fun hnot => absurd ⟨nofun, nofun, nodup_nil⟩ hnot⟩
  | cons v votes ih =>
    rw [matching_cons, foldlM_cons]
    by_cases hv : v.height ≠ qc.height ∨ v.level ≠ qc.level ∨ v.authorIdx ∈ count.voteIdxes
    · rw [tallyVote, if_pos hv]
      exact ⟨fun h => absurd hv h.1, fun _ => rfl⟩
    rw [tallyVote, if_neg hv]
    obtain ⟨hsome, hnone⟩ := ih ⟨count.newViewNum + (forView v).toNat,
      count.votedBlockNum + (forBlock v).toNat, v.authorIdx :: count.voteIdxes⟩
    refine ⟨fun h => ?_, fun h => hnone fun hrest => h ⟨hv, hrest⟩⟩
    obtain ⟨idxs, hfold⟩ := hsome h.2
    refine ⟨idxs, hfold.trans ?_⟩
    rw [countP_cons, countP_cons]
    cases forView v <;> cases forBlock v <;> simp [Nat.add_comm, Nat.add_left_comm]

end tally

def votesBlock (qc : QuorumCert) (v : VoteData) : Bool :=
  decide (bytes v.blockId ≠ [] ∧ bytes v.blockId = bytes qc.blockId)

def viewOnly (v : VoteData) : Bool := decide (v.newView ∧ v.blockId = none)

def notEarlier (qc : QuorumCert) (v : VoteData) : Bool :=
  !viewOnly v &&
    decide ¬(qc.blockId ≠ none ∧ bytesLt (bytes v.blockId) (bytes qc.blockId))

variable {env : Env} {V : Verifier} {qc : QuorumCert} {validators : List Validator}
  {votes : List VoteData} {block : Block} {v : VoteData}

lemma Env.countVote_eq (hv : env.validateVoteData v = true) (count : VoteCount) :
    env.countVote qc count v = tallyVote qc (·.newView) (votesBlock qc) count v := by
  unfold Env.countVote tallyVote
  simp only [hv, not_true_eq_false, false_or]
  split
  · rfl
  have hadd : ∀ (num : ℕ) (p : Prop) [Decidable p],
      (if p then num + 1 else num) = num + (decide p).toNat := by
    intro num p _
    by_cases hp : p <;> simp [hp]
  rw [hadd, hadd, Bool.decide_eq_true]
  rfl

lemma Verifier.toOption_countVote (hv : V.validateVoteData v validators = .ok ())
    (count : VoteCount) : (V.countVote qc validators count v).toOption =
      tallyVote qc viewOnly (notEarlier qc) count v := by
  unfold countVote tallyVote
  simp only [hv, bind, Except.bind]
  by_cases hwrong : v.height ≠ qc.height ∨ v.level ≠ qc.level
  · rw [if_pos hwrong, if_pos (or_assoc.mp (.inl hwrong))]
    rfl
  rw [if_neg hwrong]
  by_cases hseen : v.authorIdx ∈ count.voteIdxes
  · rw [if_pos hseen, if_pos (or_assoc.mp (.inr hseen))]
    rfl
  rw [if_neg hseen, if_neg (fun h => (or_assoc.mpr h).elim hwrong hseen)]
  by_cases hview : v.newView = true ∧ v.blockId = none
  · have hcounted : viewOnly v = true := decide_eq_true hview
    rw [if_pos hview, notEarlier, hcounted]
    rfl
  have hcounted : viewOnly v = false := decide_eq_false hview
  rw [if_neg hview, notEarlier, hcounted]
  split_ifs with hlt
  · rw [decide_eq_false (not_not.mpr hlt)]
    rfl
  · rw [decide_eq_true hlt]
    rfl

lemma Env.foldlM_countVote_eq (hvotes : ∀ v ∈ votes, env.validateVoteData v = true)
    (count : VoteCount) : votes.foldlM (env.countVote qc) count =
      votes.foldlM (tallyVote qc (·.newView) (votesBlock qc)) count := by
  induction votes generalizing count with
  | nil => rfl
  | cons v votes ih =>
    obtain ⟨hv, hvotes⟩ := forall_mem_cons.mp hvotes
    rw [foldlM_cons, foldlM_cons, Env.countVote_eq hv]
    exact congrArg _ (funext fun next => ih hvotes next)

lemma Verifier.toOption_foldlM_countVote (V : Verifier) (qc : QuorumCert)
    (hvotes : ∀ v ∈ votes, V.validateVoteData v validators = .ok ()) (count : VoteCount) :
    (votes.foldlM (V.countVote qc validators) count).toOption =
      votes.foldlM (tallyVote qc viewOnly (notEarlier qc)) count := by
  induction votes generalizing count with
  | nil => rfl
  | cons v votes ih =>
    obtain ⟨hv, hvotes⟩ := forall_mem_cons.mp hvotes
    rw [foldlM_cons, foldlM_cons, ← toOption_countVote hv]
    cases V.countVote qc validators count v with
    | error e => rfl
    | ok next => exact ih hvotes next

def Reaches (qc : QuorumCert) (forView forBlock : VoteData → Bool) (quorum : ℕ) : Prop :=
  qc.level = 0 ∨ quorum ≤ qc.votes.countP (if qc.newView then forView else forBlock)

lemma Env.verifyBlockSignatures_iff (hqc : certificate block = .ok qc)
    (hvotes : ∀ v ∈ qc.votes, env.validateVoteData v = true) :
    env.verifyBlockSignatures (some block) = true ↔
      (qc.blockId ≠ none ∧ bytes qc.blockId = block.header.blockHash ∧ Matching qc [] qc.votes) ∧
        Reaches qc (·.newView) (votesBlock qc) (env.min qc.height) := by
  obtain ⟨hsome, hnone⟩ := foldlM_tallyVote qc (·.newView) (votesBlock qc) qc.votes ⟨0, 0, []⟩
  simp only [Env.verifyBlockSignatures, hqc, Env.countNumFromVotes,
    Env.foldlM_countVote_eq hvotes, Bool.and_eq_true, decide_eq_true_eq, Option.isSome_iff_ne_none]
  rw [and_assoc, and_assoc, and_assoc]
  refine and_congr_right fun _ => and_congr_right fun _ => ?_
  by_cases hmatching : Matching qc [] qc.votes
  · obtain ⟨idxs, hfold⟩ := hsome hmatching
    rw [hfold, Option.any_some, Env.enoughVotes, Bool.or_eq_true, decide_eq_true_eq,
      decide_eq_true_eq, Reaches]
    cases qc.newView <;> simp [hmatching]
  · rw [hnone hmatching]
    simp [hmatching]

lemma Verifier.verifyBlockSignatures_iff {g : GovernanceContract NodeId}
    (hqc : certificate block = .ok qc) (hg : V.governance = some g)
    (hepoch : V.previousEpoch qc = false)
    (hvotes : ∀ v ∈ qc.votes, V.validateVoteData v (validatorsOf g.validators) = .ok ()) :
    V.verifyBlockSignatures (some block) = .ok () ↔
      (qc.blockId ≠ none ∧ bytes qc.blockId = block.header.blockHash ∧ Matching qc [] qc.votes) ∧
        Reaches qc viewOnly (notEarlier qc) g.minQuorumForQc := by
  obtain ⟨hsome, hnone⟩ := foldlM_tallyVote qc viewOnly (notEarlier qc) qc.votes ⟨0, 0, []⟩
  have hcount := V.toOption_foldlM_countVote qc hvotes ⟨0, 0, []⟩
  simp only [verifyBlockSignatures, hqc, bind, Except.bind, hepoch, verifyQuorum,
    hg, countNumFromVotes]
  by_cases hid : qc.blockId = none
  · simp [hid]
  by_cases hhash : bytes qc.blockId = block.header.blockHash
  · rw [if_neg hid, if_neg (not_not.mpr hhash), if_neg Bool.false_ne_true]
    by_cases hmatching : Matching qc [] qc.votes
    · obtain ⟨idxs, hfold⟩ := hsome hmatching
      rw [hfold] at hcount
      cases hvote : qc.votes.foldlM (V.countVote qc (validatorsOf g.validators)) ⟨0, 0, []⟩ with
      | error e =>
        rw [hvote] at hcount
        cases hcount
      | ok count =>
        rw [hvote] at hcount
        cases hcount
        cases hview : qc.newView <;> by_cases hlevel : qc.level = 0 <;>
          simp [Reaches, hview, hlevel, hid, hhash, hmatching, Nat.pos_iff_ne_zero]
    · rw [hnone hmatching] at hcount
      cases hvote : qc.votes.foldlM (V.countVote qc (validatorsOf g.validators)) ⟨0, 0, []⟩ with
      | error e => simp [hmatching]
      | ok count =>
        rw [hvote] at hcount
        cases hcount
  · simp [hid, hhash]

theorem verifyBlockSignatures_agree_iff (env : Env) (V : Verifier) (block : Block) (qc : QuorumCert)
    (hqc : certificate block = .ok qc) (hg : V.governance = some env.governance)
    (hepoch : qc.epochId = env.governance.epochId)
    (hvotes : ∀ v ∈ qc.votes, env.validateVoteData v = true ∧
      V.validateVoteData v (validatorsOf env.governance.validators) = .ok ()) :
    (env.verifyBlockSignatures (some block) = true ↔
        V.verifyBlockSignatures (some block) = .ok ()) ↔
      (qc.blockId ≠ none ∧ bytes qc.blockId = block.header.blockHash ∧ Matching qc [] qc.votes →
        (Reaches qc (·.newView) (votesBlock qc) (env.min qc.height) ↔
          Reaches qc viewOnly (notEarlier qc) env.governance.minQuorumForQc)) := by
  have hcurrent : V.previousEpoch qc = false := by
    simp only [previousEpoch, epochId, hg, Option.map_some, Option.getD_some,
      hepoch, u64, decide_eq_false_iff_not]
    omega
  rw [Env.verifyBlockSignatures_iff hqc fun v hv => (hvotes v hv).1,
    verifyBlockSignatures_iff hqc hg hcurrent fun v hv => (hvotes v hv).2]
  exact and_congr_right_iff

def acceptingEnv : Env where
  governance := fourContract
  ac := ⟨1, fun _ _ _ => true, fun _ => some .consensusNode⟩
  member := ⟨[], [0]⟩
  sign := fun _ => []

def acceptingVerifier : Verifier := ⟨some fourContract, acceptingEnv.voteAc⟩

theorem verifyBlockSignatures_agree_three :
    acceptingEnv.verifyBlockSignatures
        (some (certifiedBlock (fourCert false (some [8]) [0, 1, 2]))) = true ↔
      acceptingVerifier.verifyBlockSignatures
        (some (certifiedBlock (fourCert false (some [8]) [0, 1, 2]))) = .ok () := by
  refine (verifyBlockSignatures_agree_iff _ _ _ (fourCert false (some [8]) [0, 1, 2]) rfl rfl rfl
    (by decide +kernel)).mpr fun _ => ?_
  exact iff_of_true (.inr (by decide +kernel)) (.inr (by decide +kernel))

/-- All votes are valid for both; votes for a block with a greater hash are enough for the package
function only, new-view votes with a block id for the method only. -/
theorem verifyBlockSignatures_disagree :
    ([fourCert false (some [9]) [0, 1, 2], fourCert true (some [8]) [0, 1, 2]].map fun qc =>
        (qc.votes.all fun v => acceptingEnv.validateVoteData v &&
            acceptingVerifier.validateVoteData v (validatorsOf fourContract.validators) = .ok (),
          acceptingEnv.verifyBlockSignatures (some (certifiedBlock qc)),
          acceptingVerifier.verifyBlockSignatures (some (certifiedBlock qc)))) =
      [(true, false, .ok ()), (true, true, .error .fewNewViews)] := by
  decide +kernel

end ChainMaker.ChainedBft
