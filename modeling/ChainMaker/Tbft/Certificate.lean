import ChainMaker.Tbft.VoteCount

/-! The commit certificate of a block: the vote set stored in its additional data, and what
`VerifyBlockSignatures` proves about the signers. -/

namespace ChainMaker.Tbft
open Finset

structure Header where
  blockHeight : ℕ
  blockHash : Hash
  preBlockHash : Hash
  signature : Hash
deriving DecidableEq

structure AdditionalData where
  extraData : Option (GoMap Bytes Bytes)

structure Block where
  header : Header
  body : Bytes
  additionalData : Option AdditionalData

def tbftAddtionalDataKey : Bytes :=
  [84, 66, 70, 84, 65, 100, 100, 116, 105, 111, 110, 97, 108, 68, 97, 116, 97, 75, 101, 121]

inductive ConsensusType
  | tbft
  | dpos
  | other
deriving DecidableEq

structure ChainConfig where
  consensusType : ConsensusType
  nodes : List (List NodeId)

def getValidatorListFromConfig (chainConfig : ChainConfig) : List NodeId :=
  chainConfig.nodes.flatten

structure Verifier where
  unmarshal : Bytes → Option VoteSetProto
  getChainConfigFromFuture : ℕ → Option ChainConfig
  getValidatorListFromLedger : Option (List NodeId)
  ac : AccessControl Vote

inductive BlockError
  | invalidBlock
  | noCertificate
  | unmarshal
  | chainConfig
  | validators
  | withoutMajority
  | unmatchedHash
  | verifyVote
deriving DecidableEq

namespace Verifier
variable (V : Verifier)

def getValidatorList (chainConfig : ChainConfig) : Option (List NodeId) :=
  match chainConfig.consensusType with
  | .tbft => some (getValidatorListFromConfig chainConfig)
  | .dpos => V.getValidatorListFromLedger
  | .other => none

def validatorSet (block : Block) : Except BlockError ValidatorSet :=
  match V.getChainConfigFromFuture block.header.blockHeight with
  | none => .error .chainConfig
  | some chainConfig =>
    match V.getValidatorList chainConfig with
    | none => .error .validators
    | some validators => .ok (newValidatorSet validators 1)

def certificate (block : Block) : Except BlockError VoteSetProto :=
  match block.additionalData.bind (·.extraData) with
  | none => .error .invalidBlock
  | some extraData =>
    match extraData.lookup tbftAddtionalDataKey with
    | none => .error .noCertificate
    | some blockVoteSet =>
      match V.unmarshal blockVoteSet with
      | none => .error .unmarshal
      | some voteSetProto => .ok voteSetProto

def blockVotes (voteSet : VoteSet) (block : Block) : List Vote :=
  (voteSet.blockVotes block.header.blockHash.bytes).votes.values

def verifyVoteSet (voteSet : VoteSet) (block : Block) : Except BlockError Unit :=
  match voteSet.maj23 with
  | none => .error .withoutMajority
  | some hash =>
    if hash ≠ block.header.blockHash.bytes then .error .unmatchedHash
    else if (blockVotes voteSet block).all fun v =>
        V.ac.verifyConsensusNode v.endorsement v.message then .ok ()
    else .error .verifyVote

def verifyBlockSignatures (block : Option Block) : Except BlockError Unit :=
  match block with
  | none => .error .invalidBlock
  | some block => do
    let voteSetProto ← V.certificate block
    let validators ← V.validatorSet block
    V.verifyVoteSet (newVoteSetFromProto voteSetProto validators) block

variable {V} {block : Block} {p : VoteSetProto} {vals : ValidatorSet}

lemma verifyBlockSignatures_some (hp : V.certificate block = .ok p)
    (hvals : V.validatorSet block = .ok vals) :
    V.verifyBlockSignatures (some block) = V.verifyVoteSet (newVoteSetFromProto p vals) block := by
  simp [verifyBlockSignatures, hp, hvals, bind, Except.bind]

lemma verifyVoteSet_ok {voteSet : VoteSet} (h : V.verifyVoteSet voteSet block = .ok ()) :
    voteSet.maj23 = some block.header.blockHash.bytes ∧
      ∀ v ∈ blockVotes voteSet block, V.ac.verifyConsensusNode v.endorsement v.message = true := by
  unfold verifyVoteSet at h
  split at h
  case h_1 => cases h
  case h_2 hash hmaj =>
  split_ifs at h with hhash hall
  exact ⟨hmaj.trans (congrArg some (not_not.mp hhash)), List.all_eq_true.mp hall⟩

end Verifier

section signers
variable (ac : AccessControl Vote) (nodeOf : Member → NodeId)

/-- Nobody's signature was forged: where the signature of an endorsement is valid, the node of
its signer signed the vote. -/
def Unforged (signed : NodeId → Vote → Prop) (votes : List Vote) : Prop :=
  ∀ v ∈ votes, ∀ e, v.endorsement = some e →
    ac.verifySigner e.signer v.message e.signature = true → signed (nodeOf e.signer) v.message

def QuorumSigned (signed : NodeId → Vote → Prop) (vals : ValidatorSet) (block : Block) : Prop :=
  ∃ A ⊆ vals.validators.toFinset, vals.quorum ≤ #A ∧ ∀ i ∈ A, ∃ v, signed i v ∧
    v.type = .precommit ∧ v.height = block.header.blockHeight ∧
    v.hash.bytes = block.header.blockHash.bytes

/-- Whatever the nodes signed, if the signatures of the certificate are not forged then a
quorum precommitted the block. -/
def CertificateSound (p : VoteSetProto) (vals : ValidatorSet) (block : Block) : Prop :=
  ∀ signed, Unforged ac nodeOf signed (Verifier.blockVotes (newVoteSetFromProto p vals) block) →
    QuorumSigned signed vals block

def signers (votes : List Vote) (vals : ValidatorSet) : Finset NodeId :=
  (votes.filterMap (·.endorsement)).toFinset.image (nodeOf ·.signer) ∩ vals.validators.toFinset

variable {ac nodeOf} {p : VoteSetProto} {vals : ValidatorSet} {block : Block}

lemma mem_signers {votes : List Vote} {i : NodeId} : i ∈ signers nodeOf votes vals ↔
      (∃ v ∈ votes, ∃ e, v.endorsement = some e ∧ nodeOf e.signer = i) ∧ i ∈ vals.validators := by
  simp only [signers, mem_inter, mem_image, List.mem_toFinset, List.mem_filterMap]
  constructor
  · rintro ⟨⟨e, ⟨v, hv, he⟩, rfl⟩, hi⟩
    exact ⟨⟨v, hv, e, he, rfl⟩, hi⟩
  · rintro ⟨⟨v, hv, e, he, rfl⟩, hi⟩
    exact ⟨⟨e, ⟨v, hv, he⟩, rfl⟩, hi⟩

lemma blockVotes_matched {v : Vote}
    (hv : v ∈ Verifier.blockVotes (newVoteSetFromProto p vals) block) :
    v.type = p.type ∧ v.height = p.height ∧ v.hash.bytes = block.header.blockHash.bytes := by
  have hw := newVoteSetFromProto_wf p vals
  obtain ⟨k, hk⟩ := GoMap.mem_values.mp hv
  obtain ⟨htype, hheight, -, -⟩ := hw.matched (.inr ⟨_, k, hk⟩)
  exact ⟨htype, hheight, (hw.counted _ k v hk).2⟩

lemma CertificateSound.quorum_of_counted (h : CertificateSound ac nodeOf p vals block) :
    p.type = .precommit ∧ p.height = block.header.blockHeight ∧ vals.quorum ≤ #(signers nodeOf
        (Verifier.blockVotes (newVoteSetFromProto p vals) block) vals) := by
  set votes := Verifier.blockVotes (newVoteSetFromProto p vals) block
  let signed : NodeId → Vote → Prop := fun i m =>
    ∃ v ∈ votes, ∃ e, v.endorsement = some e ∧ nodeOf e.signer = i ∧ m = v.message
  have hunforged : Unforged ac nodeOf signed votes := fun v hv e he _ => ⟨v, hv, e, he, rfl, rfl⟩
  obtain ⟨A, hA, hcard, hsigned⟩ := h signed hunforged
  have hsub : A ⊆ signers nodeOf votes vals := by
    intro i hi
    obtain ⟨m, ⟨v, hv, e, he, rfl, -⟩, -⟩ := hsigned i hi
    exact mem_signers.mpr ⟨⟨v, hv, e, he, rfl⟩, List.mem_toFinset.mp (hA hi)⟩
  have hpos : 0 < #A := lt_of_lt_of_le (Nat.succ_pos _) hcard
  obtain ⟨i, hi⟩ := card_pos.mp hpos
  obtain ⟨m, ⟨v, hv, e, -, -, rfl⟩, htype, hheight, -⟩ := hsigned i hi
  obtain ⟨hvt, hvh, -⟩ := blockVotes_matched hv
  exact ⟨hvt ▸ htype, hvh ▸ hheight, hcard.trans (card_le_card hsub)⟩

lemma certificateSound_of_signers {V : Verifier}
    (haccept : V.verifyVoteSet (newVoteSetFromProto p vals) block = .ok ())
    (htype : p.type = .precommit) (hheight : p.height = block.header.blockHeight)
    (hcard : vals.quorum ≤ #(signers nodeOf
      (Verifier.blockVotes (newVoteSetFromProto p vals) block) vals)) :
    CertificateSound V.ac nodeOf p vals block := by
  intro signed hunforged
  refine ⟨_, inter_subset_right, hcard, fun i hi => ?_⟩
  obtain ⟨⟨v, hv, e, he, rfl⟩, -⟩ := mem_signers.mp hi
  obtain ⟨e', he', -, hsig, -⟩ :=
    V.ac.verifyConsensusNode_iff.mp ((Verifier.verifyVoteSet_ok haccept).2 v hv)
  obtain rfl : e = e' := Option.mem_unique he he'
  obtain ⟨hvt, hvh, hvb⟩ := blockVotes_matched hv
  exact ⟨v.message, hunforged v hv e he hsig, hvt.trans htype, hvh.trans hheight, hvb⟩

/-- With the checks that are missing, of the type and height of the votes and of their signers,
the majority that the code has counted is a quorum of signers. -/
lemma certificateSound_of_named {V : Verifier} (hp : V.certificate block = .ok p)
    (hvals : V.validatorSet block = .ok vals)
    (haccept : V.verifyBlockSignatures (some block) = .ok ()) (htype : p.type = .precommit)
    (hheight : p.height = block.header.blockHeight)
    (hnamed : ∀ v ∈ Verifier.blockVotes (newVoteSetFromProto p vals) block,
      ∀ e, v.endorsement = some e → nodeOf e.signer = v.voter) :
    CertificateSound V.ac nodeOf p vals block := by
  rw [Verifier.verifyBlockSignatures_some hp hvals] at haccept
  obtain ⟨hmaj, hverified⟩ := Verifier.verifyVoteSet_ok haccept
  obtain ⟨A, hA, hcard, hvotes⟩ := (newVoteSetFromProto_wf p vals).exists_quorum hmaj
  refine certificateSound_of_signers haccept htype hheight
    (hcard.trans (card_le_card fun i hi => ?_))
  obtain ⟨v, hlookup, rfl, -⟩ := hvotes i hi
  have hv : v ∈ Verifier.blockVotes (newVoteSetFromProto p vals) block :=
    GoMap.mem_values.mpr ⟨_, hlookup⟩
  obtain ⟨e, he, -⟩ := V.ac.verifyConsensusNode_iff.mp (hverified v hv)
  exact mem_signers.mpr ⟨⟨v, hv, e, he, hnamed v hv e he⟩, List.mem_toFinset.mp (hA hi)⟩

theorem verifyBlockSignatures_sound_iff (V : Verifier) (nodeOf : Member → NodeId) (block : Block)
    (p : VoteSetProto) (vals : ValidatorSet) (hp : V.certificate block = .ok p)
    (hvals : V.validatorSet block = .ok vals)
    (haccept : V.verifyBlockSignatures (some block) = .ok ()) :
    CertificateSound V.ac nodeOf p vals block ↔
      p.type = .precommit ∧ p.height = block.header.blockHeight ∧
        vals.quorum ≤ #(signers nodeOf
          (Verifier.blockVotes (newVoteSetFromProto p vals) block) vals) := by
  rw [Verifier.verifyBlockSignatures_some hp hvals] at haccept
  refine ⟨CertificateSound.quorum_of_counted, ?_⟩
  rintro ⟨htype, hheight, hcard⟩
  exact certificateSound_of_signers haccept htype hheight hcard

end signers

def fourMember (i : UInt8) : Member := ⟨[], [i]⟩

def fourVote (type : VoteType) (height : ℕ) (voter signer : UInt8) : Vote :=
  ⟨type, [voter], height, 0, some [7], some ⟨fourMember signer, []⟩⟩

def fourCertificate (type : VoteType) (height : ℕ) (signers : List UInt8) : VoteSetProto :=
  ⟨type, height, 0, (([0, 1, 2] : List UInt8).zip signers).map fun e =>
    ([e.1], fourVote type height e.1 e.2)⟩

def fourVerifier (p : VoteSetProto) : Verifier where
  unmarshal := fun _ => some p
  getChainConfigFromFuture := fun _ => some ⟨.tbft, [[[0], [1]], [[2], [3]]]⟩
  getValidatorListFromLedger := none
  ac :=
    { orgNum := 1
      verifySigner := fun signer msg signature => p.votes.any fun e =>
        e.2.message = msg && e.2.endorsement = some ⟨signer, signature⟩
      role := fun _ => some .consensusNode }

def fourBlock : Block :=
  ⟨⟨5, some [7], none, none⟩, [], some ⟨some (AList.singleton tbftAddtionalDataKey [])⟩⟩

def fourValidators : ValidatorSet := ⟨[[0], [1], [2], [3]], 1⟩

theorem verifyBlockSignatures_sound_precommits :
    (fourVerifier (fourCertificate .precommit 5 [0, 1, 2])).verifyBlockSignatures
        (some fourBlock) = .ok () ∧
      CertificateSound (fourVerifier (fourCertificate .precommit 5 [0, 1, 2])).ac
        (·.memberInfo) (fourCertificate .precommit 5 [0, 1, 2]) fourValidators fourBlock := by
  refine ⟨by decide +kernel, ?_⟩
  refine (verifyBlockSignatures_sound_iff _ _ _ _ fourValidators rfl (by rfl)
    (by decide +kernel)).mpr ?_
  decide +kernel

def AcceptedUnsound (p : VoteSetProto) : Prop :=
  (fourVerifier p).certificate fourBlock = .ok p ∧
    (fourVerifier p).validatorSet fourBlock = .ok fourValidators ∧
    (fourVerifier p).verifyBlockSignatures (some fourBlock) = .ok () ∧
    ¬CertificateSound (fourVerifier p).ac (·.memberInfo) p fourValidators fourBlock

/-- Three such certificates: the prevotes of the block, the precommits of another height, and one
node's signatures under three names. -/
theorem verifyBlockSignatures_unsound :
    AcceptedUnsound (fourCertificate .prevote 5 [0, 1, 2]) ∧
      AcceptedUnsound (fourCertificate .precommit 4 [0, 1, 2]) ∧
      AcceptedUnsound (fourCertificate .precommit 5 [3, 3, 3]) := by
  refine ⟨⟨rfl, by rfl, by decide +kernel, fun hsound => ?_⟩,
    ⟨rfl, by rfl, by decide +kernel, fun hsound => ?_⟩,
    ⟨rfl, by rfl, by decide +kernel, fun hsound => ?_⟩⟩
  · exact absurd hsound.quorum_of_counted.1 (by decide)
  · exact absurd hsound.quorum_of_counted.2.1 (by decide)
  · exact absurd hsound.quorum_of_counted.2.2 (by decide +kernel)
end ChainMaker.Tbft
