import ChainMaker.ChainedBft.Cluster

/-! What the checks of a received message prove: who signed a vote or a proposal, and which votes
stand behind a certificate. -/

namespace ChainMaker.ChainedBft
open Option List Finset ConsensusChainedBftImpl SignEntry

section signers
variable (env : Env) (nodeOf : Member → NodeId) {e : EndorsementEntry} {msg : ConsensusMsg}

/-- Whatever the nodes signed, if the endorsement is not forged then the committee member of the
index signed the data. -/
def SignedAt (endorsement : Option EndorsementEntry) (data : SignedData) (index : ℕ) : Prop :=
  ∀ signed : NodeId → SignedData → Prop,
    (∀ e, endorsement = some e → env.ac.verifySigner e.signer data e.signature = true →
      signed (nodeOf e.signer) data) →
    ∃ peer, env.getPeerByIndex index = some peer ∧ signed peer.nodeID data

variable {env nodeOf} {v : VoteData}

lemma signedAt_iff {data : SignedData} {index : ℕ}
    (hvalid : env.ac.verifySigner e.signer data e.signature = true) :
    SignedAt env nodeOf (some e) data index ↔
      (env.getPeerByIndex index).map (·.nodeID) = some (nodeOf e.signer) := by
  rw [map_eq_some_iff]
  constructor
  · intro h
    obtain ⟨peer, hpeer, hsigned⟩ := h (fun i _ => i = nodeOf e.signer) fun e' he' _ => by
      rw [some.inj he']
    exact ⟨peer, hpeer, hsigned⟩
  · rintro ⟨peer, hpeer, hid⟩ signed hunforged
    exact ⟨peer, hpeer, hid ▸ hunforged e rfl hvalid⟩

lemma endorsement_receivedVote (h : endorsement (receivedVote msg v).signature = some e) :
    msg.signEntry.bind (·.signer) = some e.signer := by
  obtain ⟨s, hs, h⟩ := bind_eq_some_iff.mp h
  obtain ⟨s', -, rfl⟩ := map_eq_some_iff.mp hs
  obtain ⟨signer, hsigner, rfl⟩ := map_eq_some_iff.mp h
  exact hsigner

lemma endorsement_signer {s : Option SignEntry}
    (h : endorsement s = some e) : s.bind (·.signer) = some e.signer := by
  obtain ⟨s, rfl, h⟩ := bind_eq_some_iff.mp h
  obtain ⟨signer, hsigner, rfl⟩ := map_eq_some_iff.mp h
  exact hsigner

lemma validateVoteMsg_signedAt_iff (h : validateVoteMsg env msg v = true) :
    SignedAt env nodeOf (endorsement (receivedVote msg v).signature) (.vote v.message) v.authorIdx ↔
      (msg.signEntry.bind (·.signer)).map nodeOf = v.author := by
  obtain ⟨-, hvote⟩ := Bool.and_eq_true_iff.mp h
  obtain ⟨peer, hpeer, hauthor⟩ := Env.validateVoteData_peer hvote
  have hverified : env.voteAc.verifyConsensusNode (endorsement
      (receivedVote msg v).signature) v.message = true := by
    unfold Env.validateVoteData at hvote
    rw [hauthor, hpeer] at hvote
    exact (Bool.and_eq_true_iff.mp hvote).2
  obtain ⟨e, he, -, hvalid, -⟩ := env.voteAc.verifyConsensusNode_iff.mp hverified
  have hauthor : v.author = some peer.nodeID := hauthor
  have hpeer : env.getPeerByIndex v.authorIdx = some peer := hpeer
  rw [he, signedAt_iff hvalid, hpeer, endorsement_receivedVote he, hauthor]
  exact eq_comm

lemma validateProposer_signedAt_iff {p : ProposalData} (h : validateProposer env msg p = true) :
    SignedAt env nodeOf (endorsement msg.signEntry) (.payload msg.payload) p.proposerIdx ↔
      (msg.signEntry.bind (·.signer)).map nodeOf =
          (env.getPeerByIndex (env.getProposer p.level)).map (·.nodeID) := by
  obtain ⟨hturn, hsigned⟩ := Bool.and_eq_true_iff.mp h
  have hindex : env.getProposer p.level = p.proposerIdx := of_decide_eq_true hturn
  obtain ⟨e, he, -, hvalid, -⟩ := env.ac.verifyConsensusNode_iff.mp hsigned
  rw [he, signedAt_iff hvalid, endorsement_signer he, hindex]
  exact eq_comm

theorem accepted_signedAt_iff (env : Env) (nodeOf : Member → NodeId) (msg : ConsensusMsg) :
    (∀ v, validateVoteMsg env msg v = true →
      (SignedAt env nodeOf
          (endorsement (receivedVote msg v).signature)
          (.vote v.message) v.authorIdx ↔
        (msg.signEntry.bind (·.signer)).map nodeOf = v.author)) ∧
    ∀ p, validateProposer env msg p = true →
      (SignedAt env nodeOf (endorsement msg.signEntry) (.payload msg.payload)
          p.proposerIdx ↔
        (msg.signEntry.bind (·.signer)).map nodeOf =
          (env.getPeerByIndex (env.getProposer p.level)).map (·.nodeID)) :=
  ⟨fun _ => validateVoteMsg_signedAt_iff, fun _ => validateProposer_signedAt_iff⟩

end signers

section certificates

structure Supports (env : Env) (qc : QuorumCert) (v : VoteData) : Prop where
  valid : env.validateVoteData v = true
  height_eq : v.height = qc.height
  level_eq : v.level = qc.level
  kind : if qc.newView then v.newView = true
    else bytes v.blockId ≠ [] ∧ bytes v.blockId = bytes qc.blockId

def Supported (env : Env) (qc : QuorumCert) : Prop :=
  ∃ A ⊆ env.committee.toFinset, env.min qc.height ≤ #A ∧
    ∀ peer ∈ A, ∃ v ∈ qc.votes, v.authorIdx = peer.index ∧ v.author = some peer.nodeID ∧
      Supports env qc v

variable {env : Env} {qc : QuorumCert} {epochId : ℕ}

lemma supported_of_indexes {idxs : List ℕ} (hnodup : idxs.Nodup)
    (hlength : env.min qc.height ≤ idxs.length)
    (hidxs : ∀ x ∈ idxs, ∃ v ∈ qc.votes, v.authorIdx = x ∧ Supports env qc v) :
    Supported env qc := by
  have hpeer : ∀ x ∈ idxs, ∃ peer, env.getPeerByIndex x = some peer := by
    intro x hx
    obtain ⟨v, -, rfl, hv⟩ := hidxs x hx
    obtain ⟨peer, hpeer, -⟩ := Env.validateVoteData_peer hv.valid
    exact ⟨peer, hpeer⟩
  refine ⟨(idxs.filterMap env.getPeerByIndex).toFinset, ?_, ?_, ?_⟩
  · intro peer hmem
    obtain ⟨x, -, hx⟩ := mem_filterMap.mp (mem_toFinset.mp hmem)
    exact mem_toFinset.mpr (mem_of_find?_eq_some hx)
  · have hindex : (idxs.filterMap env.getPeerByIndex).map (·.index) = idxs := by
      rw [map_filterMap]
      refine (filterMap_congr fun x hx => ?_).trans filterMap_some
      obtain ⟨peer, hpeer⟩ := hpeer x hx
      rw [hpeer, map_some, (Env.getPeerByIndex_some hpeer).1]
    have hpeers : (idxs.filterMap env.getPeerByIndex).Nodup := Nodup.of_map _ (hindex.symm ▸ hnodup)
    rw [toFinset_card_of_nodup hpeers, ← length_map (·.index), hindex]
    exact hlength
  · intro peer hmem
    obtain ⟨x, hx, hfind⟩ := mem_filterMap.mp (mem_toFinset.mp hmem)
    obtain ⟨v, hv, rfl, hsupports⟩ := hidxs x hx
    obtain ⟨peer', hpeer', hauthor⟩ := Env.validateVoteData_peer hsupports.valid
    obtain rfl : peer = peer' := mem_unique hfind hpeer'
    exact ⟨v, hv, (Env.getPeerByIndex_some hfind).1.symm, hauthor, hsupports⟩

def votesNum (qc : QuorumCert) (count : VoteCount) : ℕ :=
  if qc.newView then count.newViewNum else count.votedBlockNum

lemma votesNum_countVote (count count' : VoteCount) (v : VoteData)
    (h : env.countVote qc count v = some count') : votesNum qc count' = votesNum qc count ∨
      votesNum qc count' = votesNum qc count + 1 ∧ Supports env qc v := by
  obtain ⟨hvalid, hheight, hlevel, -, -, hview, hblock⟩ := Env.countVote_some h
  unfold votesNum
  cases hkind : qc.newView with
  | true => exact hview.imp_right fun h => ⟨h.1, hvalid, hheight, hlevel, by simp [hkind, h.2]⟩
  | false =>
    exact hblock.imp_right fun h => ⟨h.1, hvalid, hheight, hlevel, by simpa [hkind] using h.2⟩

lemma indexes_of_verify (hepoch : epochId ≠ u64 (qc.epochId + 1))
    (hlevel : 0 < qc.level) (h : env.verifyJustifyQC epochId qc = true) :
    ∃ idxs : List ℕ, idxs.Nodup ∧ env.min qc.height ≤ idxs.length ∧
      ∀ x ∈ idxs, ∃ v ∈ qc.votes, v.authorIdx = x ∧ Supports env qc v := by
  simp only [Env.verifyJustifyQC, Bool.and_eq_true, Bool.or_eq_true, decide_eq_true_eq, hepoch,
    false_or] at h
  obtain ⟨count, hcount, henough⟩ := (any_eq_true _ _).mp h.2.2
  obtain ⟨idxs, hnodup, hlength, hidxs⟩ := Env.foldlM_countVote votesNum_countVote hcount
  have hzero : votesNum qc ⟨0, 0, []⟩ = 0 := by
    unfold votesNum
    split <;> rfl
  refine ⟨idxs, hnodup, ?_, fun x hx => (hidxs x hx).2⟩
  simp only [Env.enoughVotes, Bool.or_eq_true, decide_eq_true_eq, hlevel.ne', false_or] at henough
  rw [hzero, Nat.zero_add] at hlength
  exact hlength ▸ henough

lemma supported_of_verify (hepoch : epochId ≠ u64 (qc.epochId + 1))
    (hlevel : 0 < qc.level) (h : env.verifyJustifyQC epochId qc = true) : Supported env qc := by
  obtain ⟨idxs, hnodup, hlength, hidxs⟩ := indexes_of_verify hepoch hlevel h
  exact supported_of_indexes hnodup hlength hidxs

theorem verifyJustifyQC_supported_iff (env : Env) (epochId : ℕ) (qc : QuorumCert)
    (hlevel : 0 < qc.level) :
    (∀ votes, env.verifyJustifyQC epochId { qc with votes := votes } = true →
      Supported env { qc with votes := votes }) ↔
      epochId ≠ u64 (qc.epochId + 1) ∨ env.min qc.height = 0 ∨ qc.newView ≠ qc.blockId.isNone := by
  constructor
  · intro h
    by_contra! hne
    obtain ⟨hepoch, hmin, hkind⟩ := hne
    have haccept : env.verifyJustifyQC epochId { qc with votes := [] } = true := by
      simp [Env.verifyJustifyQC, hepoch, hkind]
    obtain ⟨A, -, hcard, hvotes⟩ := h [] haccept
    obtain ⟨peer, hpeer⟩ := card_pos.mp (lt_of_lt_of_le (Nat.pos_of_ne_zero hmin) hcard)
    obtain ⟨v, hv, -⟩ := hvotes peer hpeer
    cases hv
  · rintro (hepoch | hmin | hkind) votes haccept
    · exact supported_of_verify hepoch hlevel haccept
    · exact ⟨∅, empty_subset _, by simp [hmin], by simp⟩
    · have hkind' := (Bool.and_eq_true_iff.mp haccept).1
      exact absurd (of_decide_eq_true hkind') hkind

end certificates

def namedEnv : Env where
  governance := fourContract
  ac := ⟨1, fun m _ sig => sig = m.memberInfo, fun _ => some .consensusNode⟩
  member := ⟨[], [0]⟩
  sign := fun _ => []

def namedVote (author signer : UInt8) : VoteData :=
  ⟨some [8], 7, 9, some [author], author.toNat, false, 5, some ⟨none, [signer]⟩⟩

def voteMsgOf (author signer : UInt8) : ConsensusMsg :=
  ⟨.voteMsg (namedVote author signer) ⟨QuorumCert.zero, none⟩, some ⟨some ⟨[], [signer]⟩, [signer]⟩⟩

def namedProposal : ProposalData :=
  ⟨2, 2, 5, ⟨⟨2, [8], [6], .missing⟩, [], none⟩, [2], 2, QuorumCert.zero⟩

def proposalMsgOf (signer : UInt8) : ConsensusMsg :=
  ⟨.proposalMsg namedProposal ⟨QuorumCert.zero, none⟩, some ⟨some ⟨[], [signer]⟩, [signer]⟩⟩

/-- The vote of the author, carried by the signer's message, is accepted; so is the signer's
proposal for the turn of validator 2. Their signer is the member at the index they name. -/
def VoteSigned (author signer : UInt8) : Prop :=
  SignedAt namedEnv (·.memberInfo) (endorsement (receivedVote
    (voteMsgOf author signer) (namedVote author signer)).signature)
    (.vote (namedVote author signer).message) author.toNat

def ProposalSigned (signer : UInt8) : Prop :=
  SignedAt namedEnv (·.memberInfo) (endorsement (proposalMsgOf signer).signEntry)
    (.payload (proposalMsgOf signer).payload) 2

theorem accepted_signedAt_own :
    (validateVoteMsg namedEnv (voteMsgOf 0 0) (namedVote 0 0) = true ∧ VoteSigned 0 0) ∧
    validateProposer namedEnv (proposalMsgOf 2) namedProposal = true ∧ ProposalSigned 2 := by
  refine ⟨⟨by decide +kernel, ?_⟩, by decide +kernel, ?_⟩
  · exact ((accepted_signedAt_iff namedEnv (·.memberInfo) (voteMsgOf 0 0)).1 _
      (by decide +kernel)).mpr rfl
  · refine ((accepted_signedAt_iff namedEnv (·.memberInfo) (proposalMsgOf 2)).2 namedProposal
      (by decide +kernel)).mpr ?_
    decide +kernel

/-- Validator 3 votes in the name of validator 0 and proposes in the turn of validator 2. -/
theorem accepted_not_signedAt :
    (validateVoteMsg namedEnv (voteMsgOf 0 3) (namedVote 0 3) = true ∧ ¬VoteSigned 0 3) ∧
    validateProposer namedEnv (proposalMsgOf 3) namedProposal = true ∧ ¬ProposalSigned 3 := by
  refine ⟨⟨by decide +kernel, fun hsigned => ?_⟩, by decide +kernel, fun hsigned => ?_⟩
  · exact absurd ((validateVoteMsg_signedAt_iff (by decide +kernel)).mp hsigned) (by decide +kernel)
  · have hproposal :
        validateProposer namedEnv (proposalMsgOf 3) namedProposal = true := by decide +kernel
    exact absurd ((validateProposer_signedAt_iff hproposal).mp hsigned) (by decide +kernel)

def namedCert (epochId : ℕ) (signers : List UInt8) : QuorumCert :=
  ⟨some [8], 7, 9, epochId, false, signers.map fun i =>
    receivedVote (voteMsgOf i i) (namedVote i i)⟩

theorem verifyJustifyQC_supported_three :
    namedEnv.verifyJustifyQC 5 (namedCert 5 [0, 1, 2]) = true ∧
      Supported namedEnv (namedCert 5 [0, 1, 2]) := by
  have haccept : namedEnv.verifyJustifyQC 5 (namedCert 5 [0, 1, 2]) = true := by decide +kernel
  refine ⟨haccept, ?_⟩
  exact (verifyJustifyQC_supported_iff namedEnv 5 (namedCert 5 []) (by decide)).mpr
    (.inl (by decide)) (namedCert 5 [0, 1, 2]).votes haccept

/-- In epoch 5 a certificate of epoch 4 is accepted without any votes. -/
theorem verifyJustifyQC_not_supported :
    namedEnv.verifyJustifyQC 5 (namedCert 4 []) = true ∧ ¬Supported namedEnv (namedCert 4 []) := by
  refine ⟨by decide +kernel, ?_⟩
  rintro ⟨A, -, hcard, hvotes⟩
  have hmin : 0 < namedEnv.min (namedCert 4 []).height := by decide +kernel
  obtain ⟨peer, hpeer⟩ := card_pos.mp (lt_of_lt_of_le hmin hcard)
  obtain ⟨v, hv, -⟩ := hvotes peer hpeer
  cases hv
end ChainMaker.ChainedBft
