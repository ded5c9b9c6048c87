import ChainMaker.ChainedBft.Types

/-! The certificate of a block as a node that synchronises checks it: the package function
`VerifyBlockSignatures`, and what its acceptance says about the signers. -/

namespace ChainMaker.ChainedBft
open Finset Governance SignEntry List

inductive CertError
  | invalidBlock
  | nilQC
  | unmarshal
  | nilBlockId
  | wrongBlockId
  | nilValidators
  | nilAuthor
  | notInValidators
  | authorMismatch
  | nilSigner
  | verifySignature
  | wrongHeightLevel
  | duplicateVote
  | fewNewViews
  | fewBlockVotes
deriving DecidableEq

def SignEntry.endorsement (s : Option SignEntry) : Option EndorsementEntry :=
  s.bind fun s => s.signer.map fun signer => ⟨signer, s.signature⟩

structure VoteCount where
  newViewNum : ℕ
  votedBlockNum : ℕ
  voteIdxes : List ℕ
deriving DecidableEq

structure Verifier where
  governance : Option (GovernanceContract NodeId)
  ac : AccessControl VoteData

namespace Verifier
variable (V : Verifier) {count count' : VoteCount}

def validateVoteData (v : VoteData) (validators : List Validator) : Except CertError Unit :=
  match v.author with
  | none => .error .nilAuthor
  | some author =>
    match validators.find? (·.index = v.authorIdx) with
    | none => .error .notInValidators
    | some validator =>
      if validator.nodeID ≠ author then .error .authorMismatch
      else if endorsement v.signature = none then .error .nilSigner
      else if V.ac.verifyConsensusNode (endorsement v.signature) v.message then .ok ()
      else .error .verifySignature

def bytesLt (a b : Bytes) : Bool := lex a b

/-- One turn of the loop of `countNumFromVotes`. A vote that is not for an earlier block id counts
as a vote for the block. -/
def countVote (qc : QuorumCert) (validators : List Validator) (count : VoteCount) (v : VoteData) :
    Except CertError VoteCount := do
  V.validateVoteData v validators
  if v.height ≠ qc.height ∨ v.level ≠ qc.level then .error .wrongHeightLevel
  else if v.authorIdx ∈ count.voteIdxes then .error .duplicateVote
  else
    let seen := { count with voteIdxes := v.authorIdx :: count.voteIdxes }
    if v.newView ∧ v.blockId = none then .ok { seen with newViewNum := count.newViewNum + 1 }
    else if qc.blockId ≠ none ∧ bytesLt (bytes v.blockId) (bytes qc.blockId) then .ok seen
    else .ok { seen with votedBlockNum := count.votedBlockNum + 1 }

def countNumFromVotes (qc : QuorumCert) (validators : List Validator) :
    Except CertError VoteCount :=
  qc.votes.foldlM (V.countVote qc validators) ⟨0, 0, []⟩

def certificate (block : Block) : Except CertError QuorumCert :=
  match block.extraData with
  | none => .error .invalidBlock
  | some extraData =>
    if extraData.entries = [] then .error .invalidBlock
    else
      match getQCFromBlock block with
      | none => .error .nilQC
      | some quorumCert =>
        match unmarshalQC (some quorumCert) with
        | none => .error .unmarshal
        | some qc => .ok qc

def epochId : ℕ := (V.governance.map (·.epochId)).getD 0

def previousEpoch (qc : QuorumCert) : Bool := V.epochId = u64 (qc.epochId + 1)

def verifyQuorum (qc : QuorumCert) : Except CertError Unit :=
  match V.governance with
  | none => .error .nilValidators
  | some g => do
    let count ← V.countNumFromVotes qc (validatorsOf g.validators)
    if 0 < qc.level ∧ qc.newView ∧ count.newViewNum < g.minQuorumForQc then .error .fewNewViews
    else if 0 < qc.level ∧ ¬qc.newView ∧ count.votedBlockNum < g.minQuorumForQc then
      .error .fewBlockVotes
    else .ok ()

def verifyBlockSignatures (block : Option Block) : Except CertError Unit :=
  match block with
  | none => .error .invalidBlock
  | some block => do
    let qc ← certificate block
    if qc.blockId = none then .error .nilBlockId
    else if bytes qc.blockId ≠ block.header.blockHash then .error .wrongBlockId
    -- The validators may have changed with the epoch, so the votes are not looked at.
    else if V.previousEpoch qc then .ok ()
    else V.verifyQuorum qc

variable {V} {qc : QuorumCert} {validators : List Validator} {v : VoteData}

lemma validateVoteData_ok (h : V.validateVoteData v validators = .ok ()) :
    V.ac.verifyConsensusNode (endorsement v.signature) v.message = true ∧
      ∃ validator ∈ validators, validator.index = v.authorIdx ∧
        v.author = some validator.nodeID := by
  unfold validateVoteData at h
  split at h
  case h_1 => cases h
  case h_2 author hauthor =>
  split at h
  case h_1 => cases h
  case h_2 validator hfind =>
  split_ifs at h with hnode _ hverified
  have hindex := find?_some hfind
  exact ⟨hverified, validator, mem_of_find?_eq_some hfind, of_decide_eq_true hindex,
    hauthor.trans (congrArg some (not_not.mp hnode).symm)⟩

lemma countVote_ok (h : V.countVote qc validators count v = .ok count') :
    V.validateVoteData v validators = .ok () ∧ (v.height = qc.height ∧ v.level = qc.level) ∧
      v.authorIdx ∉ count.voteIdxes ∧ count'.voteIdxes = v.authorIdx :: count.voteIdxes ∧
      count'.votedBlockNum ≤ count.votedBlockNum + 1 := by
  obtain ⟨u, hv, h⟩ := bind_ok.mp h
  dsimp only at h
  split_ifs at h with hwrong hdup <;> cases h <;>
    exact ⟨hv, not_or.mp hwrong |>.imp not_not.mp not_not.mp, hdup, rfl, by simp⟩

lemma foldlM_countVote_ok {votes : List VoteData}
    (h : votes.foldlM (V.countVote qc validators) count = .ok count') :
    (∀ v ∈ votes, V.validateVoteData v validators = .ok () ∧
      (v.height = qc.height ∧ v.level = qc.level) ∧ v.authorIdx ∉ count.voteIdxes) ∧
      (votes.map (·.authorIdx)).Nodup ∧
      count'.votedBlockNum ≤ count.votedBlockNum + votes.length := by
  induction votes generalizing count with
  | nil =>
    cases h
    exact ⟨nofun, nodup_nil, le_rfl⟩
  | cons w votes ih =>
    obtain ⟨next, hw, h⟩ := bind_ok.mp h
    obtain ⟨hvalid, hat, hnew, hidxes, hnum⟩ := countVote_ok hw
    obtain ⟨hvotes, hnodup, hsum⟩ := ih h
    rw [hidxes] at hvotes
    refine ⟨forall_mem_cons.mpr ⟨⟨hvalid, hat, hnew⟩, fun v hv => ?_⟩,
      nodup_cons.mpr ⟨fun hmem => ?_, hnodup⟩, by rw [length_cons]; omega⟩
    · obtain ⟨hvalid, hat, hother⟩ := hvotes v hv
      exact ⟨hvalid, hat, fun hmem => hother (mem_cons_of_mem _ hmem)⟩
    · obtain ⟨v, hv, heq⟩ := mem_map.mp hmem
      exact (hvotes v hv).2.2 (heq ▸ mem_cons_self)

lemma verifyQuorum_ok {g : GovernanceContract NodeId} (hg : V.governance = some g)
    (h : V.verifyQuorum qc = .ok ()) :
    (∀ v ∈ qc.votes, V.validateVoteData v (validatorsOf g.validators) = .ok () ∧
      v.height = qc.height ∧ v.level = qc.level) ∧ (qc.votes.map (·.authorIdx)).Nodup ∧
      (0 < qc.level → qc.newView = false → g.minQuorumForQc ≤ qc.votes.length) := by
  simp only [verifyQuorum, hg] at h
  obtain ⟨count, hcount, h⟩ := bind_ok.mp h
  obtain ⟨hvotes, hnodup, hnum⟩ := foldlM_countVote_ok hcount
  refine ⟨fun v hv => (hvotes v hv).imp_right And.left, hnodup, fun hlevel hblock => ?_⟩
  by_contra hfew
  have hless : count.votedBlockNum < g.minQuorumForQc := by
    rw [zero_add] at hnum
    omega
  simp [hlevel, hblock, hless] at h

lemma verifyBlockSignatures_ok {block : Block} (hqc : certificate block = .ok qc)
    (h : V.verifyBlockSignatures (some block) = .ok ()) :
    bytes qc.blockId = block.header.blockHash ∧
      (V.previousEpoch qc = false → V.verifyQuorum qc = .ok ()) := by
  simp only [verifyBlockSignatures, hqc, bind, Except.bind] at h
  split_ifs at h with hnil hid hepoch
  · exact ⟨not_not.mp hid, fun hfalse => by rw [hepoch] at hfalse; cases hfalse⟩
  · exact ⟨not_not.mp hid, fun _ => h⟩

end Verifier

section signers
variable (ac : AccessControl VoteData) (nodeOf : Member → NodeId)

/-- Nobody's signature was forged: where the signature of a vote is valid, the node of its signer
signed the vote. -/
def Unforged (signed : NodeId → VoteData → Prop) (votes : List VoteData) : Prop :=
  ∀ v ∈ votes, ∀ e, endorsement v.signature = some e →
    ac.verifySigner e.signer v.message e.signature = true → signed (nodeOf e.signer) v.message

def validatorIds (g : GovernanceContract NodeId) : Finset NodeId :=
  (g.validators.map (·.nodeId)).toFinset

/-- As many validators as the contract asks for signed a vote for the block, at the height and
level of the certificate. -/
def QuorumSigned (signed : NodeId → VoteData → Prop) (g : GovernanceContract NodeId)
    (qc : QuorumCert) (block : Block) : Prop :=
  ∃ A ⊆ validatorIds g, g.minQuorumForQc ≤ #A ∧ ∀ i ∈ A, ∃ v, signed i v ∧
    v.height = qc.height ∧ v.level = qc.level ∧ bytes v.blockId = block.header.blockHash

/-- Whatever the nodes signed, if the signatures of the certificate are not forged then a quorum
voted for the block. -/
def CertificateSound (g : GovernanceContract NodeId) (qc : QuorumCert) (block : Block) : Prop :=
  ∀ signed, Unforged ac nodeOf signed qc.votes → QuorumSigned signed g qc block

def votesFor (qc : QuorumCert) (block : Block) : List VoteData :=
  qc.votes.filter fun v => bytes v.blockId = block.header.blockHash

def checkedVotesFor (qc : QuorumCert) (block : Block) : List VoteData :=
  (votesFor qc block).filter fun v =>
    v.height = qc.height ∧ v.level = qc.level ∧
      ((endorsement v.signature).any fun e =>
        ac.verifySigner e.signer v.message e.signature)

def signers (g : GovernanceContract NodeId) (votes : List VoteData) : Finset NodeId :=
  (votes.filterMap fun v => endorsement v.signature).toFinset.image (nodeOf ·.signer) ∩
    validatorIds g

variable {ac nodeOf} {g : GovernanceContract NodeId} {qc : QuorumCert} {block : Block}

lemma mem_signers {votes : List VoteData} {i : NodeId} : i ∈ signers nodeOf g votes ↔
      (∃ v ∈ votes, ∃ e, endorsement v.signature = some e ∧ nodeOf e.signer = i) ∧
        i ∈ validatorIds g := by
  simp only [signers, mem_inter, mem_image, List.mem_toFinset, List.mem_filterMap]
  constructor
  · rintro ⟨⟨e, ⟨v, hv, he⟩, rfl⟩, hi⟩
    exact ⟨⟨v, hv, e, he, rfl⟩, hi⟩
  · rintro ⟨⟨v, hv, e, he, rfl⟩, hi⟩
    exact ⟨⟨e, ⟨v, hv, he⟩, rfl⟩, hi⟩

lemma mem_checkedVotesFor {v : VoteData} :
    v ∈ checkedVotesFor ac qc block ↔ v ∈ qc.votes ∧ bytes v.blockId = block.header.blockHash ∧
      v.height = qc.height ∧ v.level = qc.level ∧ ∃ e, endorsement v.signature = some e ∧
        ac.verifySigner e.signer v.message e.signature = true := by
  simp only [checkedVotesFor, votesFor, mem_filter, decide_eq_true_eq, Option.any_eq_true]
  exact and_assoc

lemma certificateSound_iff : CertificateSound ac nodeOf g qc block ↔
      g.minQuorumForQc ≤ #(signers nodeOf g (checkedVotesFor ac qc block)) := by
  constructor
  · intro hsound
    let signed : NodeId → VoteData → Prop := fun i m => ∃ v ∈ qc.votes, ∃ e,
      endorsement v.signature = some e ∧
        ac.verifySigner e.signer v.message e.signature = true ∧ nodeOf e.signer = i ∧
        m = v.message
    have hunforged : Unforged ac nodeOf signed qc.votes :=
      fun v hv e he hsig => ⟨v, hv, e, he, hsig, rfl, rfl⟩
    obtain ⟨A, hA, hcard, hsigned⟩ := hsound signed hunforged
    refine hcard.trans (card_le_card fun i hi => ?_)
    obtain ⟨m, ⟨v, hv, e, he, hsig, rfl, rfl⟩, hheight, hlevel, hid⟩ := hsigned i hi
    have hchecked : v ∈ checkedVotesFor ac qc block :=
      mem_checkedVotesFor.mpr ⟨hv, hid, hheight, hlevel, e, he, hsig⟩
    exact mem_signers.mpr ⟨⟨v, hchecked, e, he, rfl⟩, hA hi⟩
  · intro hcard signed hunforged
    refine ⟨_, inter_subset_right, hcard, fun i hi => ?_⟩
    obtain ⟨⟨v, hv, e, he, rfl⟩, -⟩ := mem_signers.mp hi
    obtain ⟨hmem, hid, hheight, hlevel, e', he', hsig⟩ := mem_checkedVotesFor.mp hv
    obtain rfl : e = e' := Option.mem_unique he he'
    exact ⟨v.message, hunforged v hmem e he hsig, hheight, hlevel, hid⟩

lemma checkedVotesFor_eq {V : Verifier} (hg : V.governance = some g)
    (h : V.verifyQuorum qc = .ok ()) : checkedVotesFor V.ac qc block = votesFor qc block := by
  refine filter_eq_self.mpr fun v hv => ?_
  obtain ⟨hvalid, hheight, hlevel⟩ :=
    (Verifier.verifyQuorum_ok hg h).1 v (List.mem_of_mem_filter hv)
  obtain ⟨e, he, -, hsig, -⟩ :=
    V.ac.verifyConsensusNode_iff.mp (Verifier.validateVoteData_ok hvalid).1
  simp [hheight, hlevel, he, hsig]

/-- With the checks that are missing, of the epoch, the level and the kind of the certificate and
of the block ids and signers of its votes, the votes that the code has counted are a quorum. -/
lemma certificateSound_of_named {V : Verifier} (hqc : Verifier.certificate block = .ok qc)
    (hg : V.governance = some g) (haccept : V.verifyBlockSignatures (some block) = .ok ())
    (hids : (g.validators.map (·.nodeId)).Nodup) (hepoch : V.previousEpoch qc = false)
    (hlevel : 0 < qc.level) (hblock : qc.newView = false)
    (hblockId : ∀ v ∈ qc.votes, bytes v.blockId = block.header.blockHash)
    (hnamed : ∀ v ∈ qc.votes, ∀ e, endorsement v.signature = some e →
      v.author = some (nodeOf e.signer)) : CertificateSound V.ac nodeOf g qc block := by
  have hquorum := (Verifier.verifyBlockSignatures_ok hqc haccept).2 hepoch
  obtain ⟨hvotes, hnodup, hcount⟩ := Verifier.verifyQuorum_ok hg hquorum
  have hall : votesFor qc block = qc.votes :=
    filter_eq_self.mpr fun v hv => decide_eq_true (hblockId v hv)
  rw [certificateSound_iff, checkedVotesFor_eq hg hquorum, hall]
  -- the validator that a vote names, by its index and by its node
  have hvalidator : ∀ v ∈ qc.votes, ∃ m ∈ g.validators,
      u64 m.index = v.authorIdx ∧ v.author = some m.nodeId := by
    intro v hv
    obtain ⟨-, validator, hmem, hindex, hauthor⟩ := Verifier.validateVoteData_ok (hvotes v hv).1
    obtain ⟨m, hm, rfl⟩ := mem_map.mp hmem
    exact ⟨m, hm, hindex, hauthor⟩
  have hauthors : (qc.votes.map (·.author)).Nodup := by
    refine (Nodup.of_map _ hnodup).map_on fun v hv w hw heq => ?_
    obtain ⟨m, hm, hindex, hauthor⟩ := hvalidator v hv
    obtain ⟨m', hm', hindex', hauthor'⟩ := hvalidator w hw
    have hsame : m = m' := inj_on_of_nodup_map hids hm hm'
      (Option.some.inj (hauthor.symm.trans (heq.trans hauthor')))
    exact inj_on_of_nodup_map hnodup hv hw (hindex.symm.trans (hsame ▸ hindex'))
  have hsigned : (qc.votes.map (·.author)).toFinset ⊆ (signers nodeOf g qc.votes).map .some := by
    intro author hmem
    obtain ⟨v, hv, rfl⟩ := mem_map.mp (List.mem_toFinset.mp hmem)
    obtain ⟨m, hm, -, hauthor⟩ := hvalidator v hv
    obtain ⟨e, he, -⟩ :=
      V.ac.verifyConsensusNode_iff.mp (Verifier.validateVoteData_ok (hvotes v hv).1).1
    have hnode := Option.some.inj ((hnamed v hv e he).symm.trans hauthor)
    exact Finset.mem_map.mpr ⟨m.nodeId, mem_signers.mpr ⟨⟨v, hv, e, he, hnode⟩,
      List.mem_toFinset.mpr (mem_map_of_mem hm)⟩, hauthor.symm⟩
  have hcard := card_le_card hsigned
  rw [card_map, toFinset_card_of_nodup hauthors, length_map] at hcard
  exact (hcount hlevel hblock).trans hcard

theorem verifyBlockSignatures_quorum_iff (V : Verifier) (nodeOf : Member → NodeId) (block : Block)
    (g : GovernanceContract NodeId) (qc : QuorumCert) (hqc : Verifier.certificate block = .ok qc)
    (hg : V.governance = some g) (haccept : V.verifyBlockSignatures (some block) = .ok ()) :
    CertificateSound V.ac nodeOf g qc block ↔
      g.minQuorumForQc ≤ #(signers nodeOf g
        (if g.epochId = u64 (qc.epochId + 1) then checkedVotesFor V.ac qc block
          else votesFor qc block)) := by
  rw [certificateSound_iff]
  obtain ⟨-, hquorum⟩ := Verifier.verifyBlockSignatures_ok hqc haccept
  split_ifs with hepoch
  · exact Iff.rfl
  · have hcurrent : V.previousEpoch qc = false := by
      simp [Verifier.previousEpoch, Verifier.epochId, hg, hepoch]
    rw [checkedVotesFor_eq hg (hquorum hcurrent)]

end signers

def fourContract : GovernanceContract NodeId where
  epochId := 5
  type := .hotstuff
  curMaxIndex := 3
  skipTimeoutCommit := false
  n := 4
  minQuorumForQc := 3
  lastMinQuorumForQc := 3
  cachedLen := 0
  nextSwitchHeight := 0
  transitBlock := 0
  blockNumPerEpoch := 0
  validatorNum := 4
  nodeProposeRound := 1
  members := [⟨0, [0]⟩, ⟨1, [1]⟩, ⟨2, [2]⟩, ⟨3, [3]⟩]
  validators := [⟨0, [0]⟩, ⟨1, [1]⟩, ⟨2, [2]⟩, ⟨3, [3]⟩]
  nextValidators := none
  configSequence := 0
  hotstuffRoundTimeoutMill := 0
  hotstuffRoundTimeoutIntervalMill := 0

def fourVote (newView : Bool) (blockId : Option Bytes) (author signer : UInt8) : VoteData :=
  ⟨blockId, 7, 9, some [author], author.toNat, newView, 5, some ⟨some ⟨[], [signer]⟩, []⟩⟩

def fourCert (newView : Bool) (blockId : Option Bytes) (signers : List UInt8) : QuorumCert :=
  ⟨some [8], 7, 9, 5, newView, (([0, 1, 2] : List UInt8).zip signers).map fun e =>
    fourVote newView blockId e.1 e.2⟩

def fourVerifier (qc : QuorumCert) : Verifier where
  governance := some fourContract
  ac :=
    { orgNum := 1
      verifySigner := fun signer msg signature => qc.votes.any fun v =>
        v.message = msg && endorsement v.signature = some ⟨signer, signature⟩
      role := fun _ => some .consensusNode }

def certifiedBlock (qc : QuorumCert) : Block :=
  ⟨⟨7, [8], [6], .missing⟩, [], some (AList.singleton qcKey (some (.cert qc)))⟩

theorem verifyBlockSignatures_quorum_three :
    (fourVerifier (fourCert false (some [8]) [0, 1, 2])).verifyBlockSignatures
        (some (certifiedBlock (fourCert false (some [8]) [0, 1, 2]))) = .ok () ∧
      CertificateSound (fourVerifier (fourCert false (some [8]) [0, 1, 2])).ac (·.memberInfo)
        fourContract (fourCert false (some [8]) [0, 1, 2])
        (certifiedBlock (fourCert false (some [8]) [0, 1, 2])) := by
  refine ⟨by decide +kernel, ?_⟩
  refine (verifyBlockSignatures_quorum_iff _ _ _ fourContract _
    (by rfl) rfl (by decide +kernel)).mpr ?_
  decide +kernel

/-- Certificates that prove no quorum for the block: without votes, of the epoch before or of
level 0; of timeouts; of votes for a block with a greater hash; and of one node's signatures under
three names. -/
def badCerts : List QuorumCert :=
  [{ fourCert false none [] with epochId := 4 }, { fourCert false none [] with level := 0 },
    fourCert true none [0, 1, 2], fourCert false (some [9]) [0, 1, 2],
    fourCert false (some [8]) [3, 3, 3]]

def AcceptedNoQuorum (qc : QuorumCert) : Prop :=
  Verifier.certificate (certifiedBlock qc) = .ok qc ∧
    (fourVerifier qc).verifyBlockSignatures (some (certifiedBlock qc)) = .ok () ∧
    ¬CertificateSound (fourVerifier qc).ac (·.memberInfo) fourContract qc (certifiedBlock qc)

theorem verifyBlockSignatures_no_quorum : badCerts.Forall AcceptedNoQuorum := by
  refine List.forall_iff_forall_mem.mpr fun qc hqc => ⟨rfl, ?_, fun hsound => ?_⟩
  · revert qc
    decide +kernel
  have hquorum := certificateSound_iff.mp hsound
  have hfew : ∀ qc ∈ badCerts, #(signers (·.memberInfo) fourContract
      (checkedVotesFor (fourVerifier qc).ac qc (certifiedBlock qc))) < 3 := by
    decide +kernel
  exact absurd hquorum (Nat.not_le.mpr (hfew qc hqc))
end ChainMaker.ChainedBft
