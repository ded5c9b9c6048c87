import ChainMaker.ChainedBft.Protocol
import ChainMaker.Governance.Quorum
import ChainMaker.Lib.ChainedVotes

/-! The nodes of a chain that starts from one genesis block, and what a certificate stands for:
the votes of a quorum of the validators. -/

namespace ChainMaker.ChainedBft
open List Finset Governance

def genesisQC (block : Block) : QuorumCert :=
  { QuorumCert.zero with blockId := some block.header.blockHash }

def initGenesisBlock (block : Block) : Block :=
  let withQC := addQCtoBlock block (.cert (genesisQC block))
  { withQC with header := { block.header with consensusArgs := .args ⟨0, []⟩ } }

def newConsensus (env : Env) (id : NodeId) (genesis : Block) : ConsensusChainedBftImpl :=
  let root := initGenesisBlock genesis
  let qc := genesisQC genesis
  { id := id
    selfIndexInEpoch :=
      ((env.governance.members.find? (·.nodeId = id)).map (u64 ·.index)).getD InvalidIndex
    commitHeight := root.header.blockHeight
    state := .newHeight
    paceMaker := ⟨root.header.blockHeight, env.governance.epochId, 0, 0, 0, 0, none⟩
    safetyRules := ⟨0, none, none, 0, qc.level, root⟩
    chainStore := ⟨[root], qc.level, root.header.blockHeight, qc, newBlockPool root qc 20⟩
    msgPool := newMsgPool env.governance.cachedLen env.governance.minQuorumForQc
    timers := []
    created := [] }

def start (env : Env) (id : NodeId) (genesis : Block) : ConsensusChainedBftImpl :=
  let n := newConsensus env id genesis
  ((n.processCertificates env (some (genesisQC genesis)) none).map (·.proposeIfLeader env)).getD n

structure Chain where
  genesis : Block
  headerOf : Bytes → Header
  height_genesis : genesis.header.blockHeight = 0
  pre_genesis : genesis.header.preBlockHash = []
  hash_genesis : genesis.header.blockHash ≠ []
  headerOf_genesis : headerOf genesis.header.blockHash = (initGenesisBlock genesis).header

namespace Chain
variable (C : Chain) {b : Block}

abbrev root : Bytes := C.genesis.header.blockHash

def level (h : Bytes) : ℕ :=
  match (C.headerOf h).consensusArgs with
  | .args a => a.level
  | _ => 0

def tree : ChainedVotes.Tree Bytes where
  genesis := C.root
  parent := fun h => (C.headerOf h).preBlockHash
  level := C.level
  level_genesis := by simp [level, C.headerOf_genesis, initGenesisBlock]

def WellHashed (b : Block) : Prop :=
  b.header.blockHash ≠ [] ∧ b.header = C.headerOf b.header.blockHash

instance (b : Block) : Decidable (C.WellHashed b) := inferInstanceAs (Decidable (_ ∧ _))

variable {C}

lemma WellHashed.parent_eq (hb : C.WellHashed b) :
    C.tree.parent b.header.blockHash = b.header.preBlockHash :=
  congrArg Header.preBlockHash hb.2.symm

lemma WellHashed.congr {b b' : Block} (hb : C.WellHashed b) (h : b'.header = b.header) :
    C.WellHashed b' := by
  unfold WellHashed
  rw [h]
  exact hb

lemma WellHashed.level_eq (hb : C.WellHashed b) {l : ℕ}
    (hl : getLevelFromBlock b = some l) : l = C.level b.header.blockHash := by
  unfold level
  rw [← hb.2]
  unfold getLevelFromBlock at hl
  split at hl <;> simp_all

lemma wellHashed_genesis : C.WellHashed (initGenesisBlock C.genesis) :=
  ⟨C.hash_genesis, C.headerOf_genesis.symm⟩

lemma level_root : C.level C.root = 0 := C.tree.level_genesis

lemma WellHashed.height_root (hb : C.WellHashed b)
    (h : b.header.blockHash = C.root) : b.header.blockHeight = 0 := by
  rw [hb.2, h, C.headerOf_genesis]
  exact C.height_genesis

lemma WellHashed.pre_root (hb : C.WellHashed b)
    (h : b.header.blockHash = C.root) : b.header.preBlockHash = [] := by
  rw [hb.2, h, C.headerOf_genesis]
  exact C.pre_genesis

end Chain

lemma ne_u64_succ (epochId : ℕ) : epochId ≠ u64 (epochId + 1) := by
  unfold u64
  omega

namespace Env
variable {env : Env} {qc : QuorumCert} {count count' : VoteCount} {v : VoteData}

lemma getPeerByIndex_some {x : ℕ} {peer : Validator} (h : env.getPeerByIndex x = some peer) :
    peer.index = x ∧ ∃ m ∈ env.governance.validators, peer = ⟨m.nodeId, u64 m.index⟩ := by
  have hindex : peer.index = x := by simpa using find?_some h
  have hmem := mem_of_find?_eq_some h
  rw [committee, List.mem_insertionSort, validatorsOf, List.mem_map] at hmem
  obtain ⟨m, hm, rfl⟩ := hmem
  exact ⟨hindex, m, hm, rfl⟩

lemma validateVoteData_peer (h : env.validateVoteData v = true) :
    ∃ peer, env.getPeerByIndex v.authorIdx = some peer ∧ v.author = some peer.nodeID := by
  unfold validateVoteData at h
  split at h
  · rename_i author peer hauthor hpeer
    simp only [Bool.and_eq_true, decide_eq_true_eq] at h
    exact ⟨peer, hpeer, hauthor.trans (congrArg some h.1.symm)⟩
  · cases h

structure CountsFor (env : Env) (qc : QuorumCert) (v : VoteData) : Prop where
  valid : env.validateVoteData v = true
  level_eq : v.level = qc.level
  ne_nil : bytes v.blockId ≠ []
  blockId_eq : bytes v.blockId = bytes qc.blockId

lemma countVote_some (h : env.countVote qc count v = some count') :
    env.validateVoteData v = true ∧ v.height = qc.height ∧ v.level = qc.level ∧
      v.authorIdx ∉ count.voteIdxes ∧ count'.voteIdxes = v.authorIdx :: count.voteIdxes ∧
      (count'.newViewNum = count.newViewNum ∨ count'.newViewNum = count.newViewNum + 1 ∧
        v.newView = true) ∧ (count'.votedBlockNum = count.votedBlockNum ∨
        count'.votedBlockNum = count.votedBlockNum + 1 ∧ bytes v.blockId ≠ [] ∧
        bytes v.blockId = bytes qc.blockId) := by
  unfold countVote at h
  split at h
  case isTrue => cases h
  case isFalse hrefuse =>
  push Not at hrefuse
  obtain ⟨hvalid, hheight, hlevel, hnew⟩ := hrefuse
  cases h
  refine ⟨hvalid, hheight, hlevel, hnew, rfl, ?_, ?_⟩
  · dsimp only
    split_ifs with hview
    · exact .inr ⟨rfl, hview⟩
    · exact .inl rfl
  · dsimp only
    split_ifs with hfor
    · exact .inr ⟨rfl, hfor⟩
    · exact .inl rfl

lemma foldlM_countVote {num : VoteCount → ℕ} {P : VoteData → Prop}
    (hnum : ∀ count count' v, env.countVote qc count v = some count' →
      num count' = num count ∨ num count' = num count + 1 ∧ P v) {votes : List VoteData}
    (h : votes.foldlM (env.countVote qc) count = some count') :
    ∃ idxs : List ℕ, idxs.Nodup ∧ num count' = num count + idxs.length ∧
      ∀ x ∈ idxs, x ∉ count.voteIdxes ∧ ∃ v ∈ votes, v.authorIdx = x ∧ P v := by
  induction votes generalizing count with
  | nil =>
    cases h
    exact ⟨[], nodup_nil, rfl, nofun⟩
  | cons v votes ih =>
    obtain ⟨next, hnext, h⟩ := Option.bind_eq_some_iff.mp h
    obtain ⟨-, -, -, hnew, hidxes, -⟩ := countVote_some hnext
    obtain ⟨idxs, hnodup, hlength, hidxs⟩ := ih h
    rw [hidxes] at hidxs
    have hrest : ∀ x ∈ idxs, x ∉ count.voteIdxes ∧ ∃ w ∈ v :: votes, w.authorIdx = x ∧ P w := by
      intro x hx
      obtain ⟨hxnew, w, hw, hrest⟩ := hidxs x hx
      exact ⟨fun hmem => hxnew (mem_cons_of_mem _ hmem), w, mem_cons_of_mem _ hw, hrest⟩
    rcases hnum count next v hnext with hsame | ⟨hmore, hfor⟩
    · exact ⟨idxs, hnodup, by rw [hlength, hsame], hrest⟩
    have hfresh : v.authorIdx ∉ idxs := fun hmem => (hidxs _ hmem).1 mem_cons_self
    refine ⟨v.authorIdx :: idxs, nodup_cons.mpr ⟨hfresh, hnodup⟩, ?_, ?_⟩
    · rw [hlength, hmore, length_cons]
      omega
    · exact forall_mem_cons.mpr ⟨⟨hnew, v, mem_cons_self, rfl, hfor⟩, hrest⟩

lemma verifyJustifyQC_votes (h : env.verifyJustifyQC qc.epochId qc = true) (hlevel : 0 < qc.level)
    (hblock : qc.newView = false) :
    ∃ idxs : List ℕ, idxs.Nodup ∧ env.min qc.height ≤ idxs.length ∧
      ∀ x ∈ idxs, ∃ v ∈ qc.votes, v.authorIdx = x ∧ env.CountsFor qc v := by
  have hepoch := ne_u64_succ qc.epochId
  simp only [verifyJustifyQC, Bool.and_eq_true, Bool.or_eq_true, decide_eq_true_eq, hepoch,
    false_or, true_and] at h
  obtain ⟨-, hcount⟩ := h
  obtain ⟨count, hsome, henough⟩ := (Option.any_eq_true _ _).mp hcount
  have hnum : ∀ count count' v, env.countVote qc count v = some count' →
      count'.votedBlockNum = count.votedBlockNum ∨
        count'.votedBlockNum = count.votedBlockNum + 1 ∧ env.CountsFor qc v := by
    intro count count' v hv
    obtain ⟨hvalid, -, hlevel, -, -, -, hblock⟩ := countVote_some hv
    exact hblock.imp_right fun h => ⟨h.1, hvalid, hlevel, h.2.1, h.2.2⟩
  obtain ⟨idxs, hnodup, hlength, hidxs⟩ := foldlM_countVote hnum hsome
  simp only [enoughVotes, hblock, Bool.or_eq_true, decide_eq_true_eq, hlevel.ne', false_or,
    Bool.false_eq_true, if_false] at henough
  refine ⟨idxs, hnodup, ?_, fun x hx => (hidxs x hx).2⟩
  rw [hlength, Nat.zero_add] at henough
  exact henough

end Env

/-- A chain of `3f + 1` validators, at most `f` of them Byzantine, under one governance contract. -/
structure Cluster where
  chain : Chain
  governance : GovernanceContract NodeId
  inv : QuorumInv governance
  f : ℕ
  size_eq : governance.validators.length = 3 * f + 1
  honest : Finset NodeId
  faulty_le : #(validatorIds governance \ honest) ≤ f
  env : NodeId → Env
  env_governance : ∀ i, (env i).governance = governance
  nodeOf : Member → NodeId

abbrev Log := ChainedVotes.Log NodeId Bytes

namespace Cluster
variable (c : Cluster) {idxs : List ℕ}

def Cert (log : Log) (h : Bytes) : Prop :=
  ChainedVotes.Cert c.chain.tree (validatorIds c.governance) c.honest
    c.governance.minQuorumForQc log h

def Final (log : Log) (h : Bytes) : Prop :=
  ChainedVotes.Final c.chain.tree (validatorIds c.governance) c.honest
    c.governance.minQuorumForQc log h

def Lawful (log : Log) : Prop :=
  ChainedVotes.Lawful c.chain.tree (validatorIds c.governance) c.honest
    c.governance.minQuorumForQc log

lemma overlap : #(validatorIds c.governance) + #(validatorIds c.governance \ c.honest) <
    2 * c.governance.minQuorumForQc := by
  have hfaulty := c.faulty_le
  have hcard : #(validatorIds c.governance) ≤ c.governance.validators.length := by
    refine (toFinset_card_le _).trans ?_
    rw [length_map]
  have hsize := c.size_eq
  rw [c.inv.quorum_eq, ← c.inv.validators_eq]
  omega

structure Good (log : Log) (qc : QuorumCert) : Prop where
  newView : qc.newView = true → qc.blockId = none
  block : qc.newView = false →
    c.Cert log (bytes qc.blockId) ∧ qc.level = c.chain.level (bytes qc.blockId)

def Backed (log : Log) (v : VoteData) : Prop :=
  ∀ j ∈ c.honest, v.author = some j → ∀ h, v.blockId = some h →
    (j, h) ∈ log ∧ v.level = c.chain.level h

/-- A certificate that `verifyJustifyQC` does not accept on the word of its sender: of a timeout, of
the genesis block, or of the current epoch, above level 0 and held to the current quorum. -/
def Counted (qc : QuorumCert) : Prop :=
  qc.newView = true ∨ (qc.blockId = some c.chain.root ∧ qc.level = 0) ∨
    (qc.epochId = c.governance.epochId ∧ 0 < qc.level ∧
      (c.governance.nextSwitchHeight = qc.height →
        c.governance.minQuorumForQc ≤ c.governance.lastMinQuorumForQc))

instance (qc : QuorumCert) : Decidable (c.Counted qc) := inferInstanceAs (Decidable (_ ∨ _))

variable {c} {log log' : Log} {env : Env} {qc : QuorumCert}

lemma Good.mono (hsub : log ⊆ log') (h : c.Good log qc) : c.Good log' qc :=
  ⟨h.newView, fun hv => ⟨(h.block hv).1.mono hsub, (h.block hv).2⟩⟩

lemma Good.of_ne_nil (h : c.Good log qc) (hne : bytes qc.blockId ≠ []) :
    c.Cert log (bytes qc.blockId) ∧ qc.level = c.chain.level (bytes qc.blockId) := by
  refine h.block (Bool.eq_false_iff.mpr fun hv => hne ?_)
  rw [h.newView hv]
  rfl

variable (henv : env.governance = c.governance)
include henv

lemma peer_mem {x : ℕ} {peer : Validator} (h : env.getPeerByIndex x = some peer) :
    peer.nodeID ∈ validatorIds c.governance := by
  obtain ⟨-, m, hm, rfl⟩ := Env.getPeerByIndex_some h
  rw [henv] at hm
  exact mem_toFinset.mpr (mem_map_of_mem hm)

lemma peer_inj {x y : ℕ} {p q : Validator} (hx : env.getPeerByIndex x = some p)
    (hy : env.getPeerByIndex y = some q) (hid : p.nodeID = q.nodeID) : x = y := by
  obtain ⟨rfl, m, hm, rfl⟩ := Env.getPeerByIndex_some hx
  obtain ⟨rfl, m', hm', rfl⟩ := Env.getPeerByIndex_some hy
  rw [henv, c.inv.validators_eq] at hm hm'
  rw [inj_on_of_nodup_map c.inv.nodup hm hm' hid]

lemma certified_of_indexes (hnodup : idxs.Nodup)
    (hmin : c.governance.minQuorumForQc ≤ idxs.length) {P : NodeId → Prop}
    (hpeer : ∀ x ∈ idxs, ∃ peer, env.getPeerByIndex x = some peer ∧
      (peer.nodeID ∈ c.honest → P peer.nodeID)) :
    Quorum.Certified (validatorIds c.governance) c.honest c.governance.minQuorumForQc P := by
  have : Nonempty Validator := ⟨⟨[], 0⟩⟩
  choose! peer hsome hP using hpeer
  refine ⟨idxs.toFinset.image fun x => (peer x).nodeID, ?_, ?_, ?_⟩
  · intro i hi
    obtain ⟨x, hx, rfl⟩ := mem_image.mp hi
    exact peer_mem henv (hsome x (mem_toFinset.mp hx))
  · rw [card_image_of_injOn, toFinset_card_of_nodup hnodup]
    · exact hmin
    · intro x hx y hy hid
      exact peer_inj henv (hsome x (mem_toFinset.mp hx)) (hsome y (mem_toFinset.mp hy)) hid
  · intro i hi hhonest
    obtain ⟨x, hx, rfl⟩ := mem_image.mp hi
    exact hP x (mem_toFinset.mp hx) hhonest

lemma cert_of_indexes (hnodup : idxs.Nodup)
    (hmin : c.governance.minQuorumForQc ≤ idxs.length) {h : Bytes} {level : ℕ}
    (hpeer : ∀ x ∈ idxs, ∃ peer, env.getPeerByIndex x = some peer ∧
      (peer.nodeID ∈ c.honest → (peer.nodeID, h) ∈ log ∧ level = c.chain.level h)) :
    c.Cert log h ∧ level = c.chain.level h := by
  have hcert := certified_of_indexes henv hnodup hmin
    (P := fun j => (j, h) ∈ log ∧ level = c.chain.level h) hpeer
  obtain ⟨j, -, -, hlevel⟩ := hcert.exists_honest c.overlap
  exact ⟨.inr (hcert.mono fun _ _ hP => hP.1), hlevel⟩

lemma Counted.le_min
    (hquorum : c.governance.nextSwitchHeight = qc.height →
      c.governance.minQuorumForQc ≤ c.governance.lastMinQuorumForQc) :
    c.governance.minQuorumForQc ≤ env.min qc.height := by
  unfold Env.min
  rw [henv]
  split_ifs with hswitch
  · exact hquorum hswitch
  · exact le_rfl

lemma good_of_verify (hcounted : c.Counted qc)
    (hverify : env.verifyJustifyQC c.governance.epochId qc = true)
    (hbacked : ∀ v ∈ qc.votes, env.validateVoteData v = true → c.Backed log v) : c.Good log qc := by
  have hnil : qc.newView = qc.blockId.isNone := by
    simp only [Env.verifyJustifyQC, Bool.and_eq_true, decide_eq_true_eq] at hverify
    exact hverify.1
  refine ⟨fun hv => Option.isNone_iff_eq_none.mp (hnil.symm.trans hv), fun hv => ?_⟩
  rcases hcounted with htimeout | ⟨hroot, hzero⟩ | ⟨hepoch, hlevel, hquorum⟩
  · rw [hv] at htimeout
    cases htimeout
  · rw [hroot, hzero]
    exact ⟨.inl rfl, Chain.level_root.symm⟩
  · rw [← hepoch] at hverify
    obtain ⟨idxs, hnodup, hmin, hidxs⟩ := Env.verifyJustifyQC_votes hverify hlevel hv
    have hquorum' := Counted.le_min henv hquorum
    refine cert_of_indexes henv hnodup (hquorum'.trans hmin) fun x hx => ?_
    obtain ⟨v, hv, rfl, hfor⟩ := hidxs x hx
    obtain ⟨peer, hpeer, hauthor⟩ := Env.validateVoteData_peer hfor.valid
    refine ⟨peer, hpeer, fun hhonest => ?_⟩
    have hblockId : v.blockId = some (bytes qc.blockId) := by
      rw [← hfor.blockId_eq]
      cases hid : v.blockId with
      | none => exact absurd (congrArg bytes hid) hfor.ne_nil
      | some h => rfl
    rw [← hfor.level_eq]
    exact hbacked v hv hfor.valid _ hhonest hauthor _ hblockId

end Cluster
end ChainMaker.ChainedBft
