import ChainMaker.ChainedBft.Protocol

/-! What a handler does, cut into single changes of the node. An invariant that every change keeps
is kept by every handler. -/

namespace ChainMaker.ChainedBft
open Option Relation

/-- What is known of the data that reaches a node: of the proposals it votes for, of the
certificates it takes from messages in an epoch, and of the votes it collects. -/
structure Inputs where
  proposed : ProposalData → Prop
  certified : ℕ → QuorumCert → Prop
  received : VoteData → Prop

/-- A certificate that the node verifies is one that it may take. -/
def Inputs.Certifies (I : Inputs) (env : Env) (qc : QuorumCert) : Prop :=
  ∀ epochId, env.verifyJustifyQC epochId qc = true → I.certified epochId qc

namespace ConsensusChainedBftImpl

inductive Change (env : Env) (I : Inputs) :
    ConsensusChainedBftImpl → ConsensusChainedBftImpl → Prop
  | pace (n : ConsensusChainedBftImpl) (paceMaker : Pacemaker) (state : ConsStateType)
      (timers : List TimerEvent) (hepoch : paceMaker.epochId = n.paceMaker.epochId)
      (hlevel : n.paceMaker.currentLevel ≤ paceMaker.currentLevel) :
      Change env I n { n with paceMaker := paceMaker, state := state, timers := timers }
  | rules (n : ConsensusChainedBftImpl) (sr : SafetyRules)
      (hlevel : sr.lastVoteLevel = n.safetyRules.lastVoteLevel)
      (hmsg : sr.lastVoteMsg = n.safetyRules.lastVoteMsg) :
      Change env I n { n with safetyRules := sr }
  | block (n : ConsensusChainedBftImpl) {block : Block} {cs : ChainStore}
      (h : n.chainStore.insertBlock block = some cs) : Change env I n { n with chainStore := cs }
  | cert (n : ConsensusChainedBftImpl) {qc : QuorumCert} {cs : ChainStore}
      (hqc : I.certified n.paceMaker.epochId qc)
      (h : n.chainStore.insertQC n.paceMaker.epochId qc = some cs) :
      Change env I n { n with chainStore := cs }
  -- The certificate that the node makes of the votes it has collected.
  | aggregate (n : ConsensusChainedBftImpl) {height level : ℕ} {blockId : Option Bytes}
      {newView : Bool} {cs : ChainStore}
      (hdone : n.msgPool.checkVotesDone height level = some (blockId, newView))
      (h : n.chainStore.insertQC n.paceMaker.epochId
        (n.aggregateQC height level blockId newView) = some cs) :
      Change env I n { n with chainStore := cs }
  | commit (n : ConsensusChainedBftImpl) {sv : Services} {block : Block} {cs : ChainStore}
      {last : Option (Block × ℕ)} (h : n.chainStore.commitBlock sv block = some (cs, last)) :
      Change env I n { n with chainStore := cs }
  | complete (n : ConsensusChainedBftImpl) {block : Block} {cs : ChainStore} {done : Bool}
      (hmem : block ∈ n.chainStore.ledger)
      (h : n.chainStore.insertCompletedBlock block = some (cs, done)) :
      Change env I n { n with chainStore := cs }
  | sealed (n : ConsensusChainedBftImpl) (commitHeight height : ℕ) :
      Change env I n { n with
        commitHeight := commitHeight, msgPool := n.msgPool.onBlockSealed height }
  | proposal (n : ConsensusChainedBftImpl) {p : ProposalData} {mp : MsgPool}
      (h : n.msgPool.insertProposal p.height p.level p = some mp) :
      Change env I n { n with msgPool := mp }
  | vote (n : ConsensusChainedBftImpl) {v : VoteData} {mp : MsgPool} (hv : I.received v)
      (h : n.msgPool.insertVote v.height v.level v = .ok mp) :
      Change env I n { n with msgPool := mp }
  | voteFor (n : ConsensusChainedBftImpl) {p : ProposalData} (hp : I.proposed p)
      (hlast : n.safetyRules.lastVoteLevel < p.level) :
      Change env I n (n.sendVote (n.constructVote env p.height p.level (some p.block), n.syncInfo)
        p.level)
  | timeout (n : ConsensusChainedBftImpl) (height level : ℕ) :
      Change env I n (n.sendVote (n.constructVote env height level none, n.syncInfo) level)
  | retry (n : ConsensusChainedBftImpl) {last : VoteData} {si : SyncInfo}
      (hlast : n.safetyRules.lastVoteMsg = some (last, si)) :
      Change env I n (n.sendVote (n.retryVote env last, si) n.safetyRules.lastVoteLevel)

abbrev Changes (env : Env) (I : Inputs) :
    ConsensusChainedBftImpl → ConsensusChainedBftImpl → Prop :=
  ReflTransGen (Change env I)

variable {env : Env} {sv : Services} {I : Inputs} {n n' : ConsensusChainedBftImpl} {qc : QuorumCert}
  {block : Block}

lemma Changes.stay (h : some n = some n') : Changes env I n n' := some.inj h ▸ .refl

lemma processNewHeight_changes : Changes env I n (n.processNewHeight env) := by
  unfold processNewHeight
  split
  · exact .single (.pace n n.paceMaker .newLevel n.timers rfl le_rfl)
  · exact .refl

lemma updateLockedQC_changes {qc : Option QuorumCert} (h : n.updateLockedQC qc = some n') :
    Changes env I n n' := by
  cases qc with
  | none => exact .stay h
  | some qc =>
    obtain ⟨sr, hsr, rfl⟩ := map_eq_some_iff.mp h
    obtain ⟨hlevel, hmsg⟩ := SafetyRules.updateLockedQC_lastVote hsr
    exact .single (.rules n sr hlevel hmsg)

lemma updateTC_changes (tc : Option QuorumCert) : Changes env I n (n.updateTC tc) := by
  cases tc with
  | none => exact .refl
  | some tc =>
    have htc : (n.paceMaker.updateTC tc).epochId = n.paceMaker.epochId ∧
        (n.paceMaker.updateTC tc).currentLevel = n.paceMaker.currentLevel := by
      unfold Pacemaker.updateTC
      split
      · exact ⟨rfl, rfl⟩
      · split <;> exact ⟨rfl, rfl⟩
    exact .single (.pace n (n.paceMaker.updateTC tc) n.state n.timers htc.1 htc.2.ge)

lemma advance_changes (qc tc : Option QuorumCert) : Changes env I n (n.advance env qc tc) := by
  unfold advance
  generalize hpace : n.paceMaker.processCertificates qc tc n.safetyRules.lastCommittedLevel = r
  obtain ⟨paceMaker, enterNewLevel⟩ := r
  have hkept : paceMaker.epochId = n.paceMaker.epochId ∧
      n.paceMaker.currentLevel ≤ paceMaker.currentLevel := by
    unfold Pacemaker.processCertificates at hpace
    dsimp only at hpace
    split at hpace
    case isTrue hlt =>
      cases hpace
      exact ⟨rfl, hlt.le⟩
    case isFalse =>
      cases hpace
      exact ⟨rfl, le_rfl⟩
  dsimp only
  split
  · exact (ReflTransGen.single (.pace n paceMaker .newHeight
      (paceMaker.timer :: n.timers) hkept.1 hkept.2)).trans processNewHeight_changes
  · exact .single (.pace n paceMaker n.state n.timers hkept.1 hkept.2)

lemma processCertificates_changes {qc tc : Option QuorumCert}
    (h : n.processCertificates env qc tc = some n') : Changes env I n n' := by
  obtain ⟨n₁, hn₁, rfl⟩ := map_eq_some_iff.mp h
  exact ((updateTC_changes tc).trans (updateLockedQC_changes hn₁)).trans (advance_changes qc tc)

lemma committed_changes (commitHeight : ℕ) (block : Block) (level : ℕ) : Changes env I n { n with
      commitHeight := commitHeight
      safetyRules := n.safetyRules.setLastCommittedBlock block level
      msgPool := n.msgPool.onBlockSealed block.header.blockHeight } := by
  obtain ⟨hlevel, hmsg⟩ := n.safetyRules.setLastCommittedBlock_lastVote block level
  exact (ReflTransGen.single (.rules n _ hlevel hmsg)).tail
    (.sealed { n with safetyRules := n.safetyRules.setLastCommittedBlock block level }
      commitHeight block.header.blockHeight)

lemma setLastCommitted_changes (last : Option (Block × ℕ)) :
    Changes env I n (n.setLastCommitted last) := by
  cases last with
  | none => exact .refl
  | some last => exact committed_changes n.commitHeight last.1 last.2

lemma commitBlocksByQC_changes (h : n.commitBlocksByQC sv qc = some n') : Changes env I n n' := by
  unfold commitBlocksByQC at h
  split at h
  · exact .stay h
  split at h
  · obtain ⟨⟨cs, last⟩, hcommit, rfl⟩ := map_eq_some_iff.mp h
    exact (ReflTransGen.single (.commit n hcommit)).trans (setLastCommitted_changes last)
  · exact .stay h

lemma insertQC_changes (hqc : I.certified n.paceMaker.epochId qc)
    (h : n.insertQC qc = some n') : Changes env I n n' := by
  obtain ⟨cs, hcs, rfl⟩ := map_eq_some_iff.mp h
  exact .single (.cert n hqc hcs)

lemma processQC_changes {done : Bool} (hqc : I.certified n.paceMaker.epochId qc)
    (h : n.processQC env sv qc = some (n', done)) : Changes env I n n' := by
  unfold processQC storeQC at h
  split at h
  · cases h
    exact .refl
  rename_i n₁ hstore
  obtain ⟨n₂, hn₂, h⟩ := bind_eq_some_iff.mp h
  obtain ⟨n₃, hn₃, heq⟩ := map_eq_some_iff.mp h
  cases heq
  have hfirst : Changes env I n n₁ := by
    split at hstore
    · exact .stay hstore
    · exact insertQC_changes hqc hstore
  exact (hfirst.trans (commitBlocksByQC_changes hn₂)).trans (processCertificates_changes hn₃)

lemma insertBlock_changes (h : n.insertBlock block = some n') : Changes env I n n' := by
  obtain ⟨cs, hcs, rfl⟩ := map_eq_some_iff.mp h
  exact .single (.block n hcs)

variable {p : ProposalData} {v : VoteData}

lemma insertProposal_changes (h : n.insertProposal p = some n') : Changes env I n n' := by
  obtain ⟨mp, hmp, rfl⟩ := map_eq_some_iff.mp h
  exact .single (.proposal n hmp)

lemma generateVoteAndSend_changes (hp : I.proposed p)
    (hlast : n.safetyRules.lastVoteLevel < p.level) :
    Changes env I n (n.generateVoteAndSend env p) :=
  (ReflTransGen.single (.pace n n.paceMaker .vote n.timers rfl le_rfl)).tail
    (.voteFor { n with state := .vote } hp hlast)

lemma acceptProposal_changes (hp : I.proposed p) : Changes env I n (n.acceptProposal env p) := by
  unfold acceptProposal
  split
  · exact .refl
  rename_i n₁ hn₁
  refine (insertProposal_changes hn₁).trans ?_
  split
  · exact .refl
  rename_i n₂ hn₂
  refine (insertBlock_changes hn₂).trans ?_
  split
  · rename_i hlast
    exact generateVoteAndSend_changes hp hlast
  · exact .refl

variable {msg : ConsensusMsg} {si : SyncInfo}

lemma checkProposal_verified (h : n.checkProposal env sv msg p si = true) :
    n.paceMaker.currentLevel ≤ p.level ∧
      env.verifyJustifyQC n.paceMaker.epochId p.justifyQc = true ∧
      sv.verifyBlock p.block = .ok := by
  simp only [checkProposal, validateProposalMsg, validateBlock, Bool.and_eq_true,
    decide_eq_true_eq] at h
  obtain ⟨⟨⟨⟨⟨⟨⟨⟨hlevel, -⟩, -⟩, -⟩, hverified⟩, -⟩, -⟩, -⟩, -, hblock⟩ := h
  exact ⟨hlevel, hverified, hblock⟩

lemma processProposal_changes (hp : n.checkProposal env sv msg p si = true → I.proposed p)
    (hqc : I.Certifies env p.justifyQc) (h : n.processProposal env sv msg p si = some n') :
    Changes env I n n' := by
  unfold processProposal at h
  split at h
  case isFalse => exact .stay h
  case isTrue hcheck =>
  obtain ⟨valid, -, h⟩ := bind_eq_some_iff.mp h
  split at h
  case isFalse => exact .stay h
  obtain ⟨⟨n₁, done⟩, hn₁, rfl⟩ := map_eq_some_iff.mp h
  have hfirst := processQC_changes (hqc _ (checkProposal_verified hcheck).2.1) hn₁
  dsimp only
  split
  · exact hfirst.trans (acceptProposal_changes (hp hcheck))
  · exact hfirst

lemma proposeIfLeader_changes : Changes env I n (n.proposeIfLeader env) := by
  unfold proposeIfLeader
  split
  · exact .single (.pace n n.paceMaker .propose n.timers rfl le_rfl)
  · exact .refl

lemma processVotes_changes (h : n.processVotes env v = some n') : Changes env I n n' := by
  simp only [processVotes] at h
  split at h
  · exact .stay h
  rename_i blockId newView hdone
  split at h
  case isTrue =>
    obtain ⟨n₁, hn₁, rfl⟩ := map_eq_some_iff.mp h
    exact (processCertificates_changes hn₁).trans proposeIfLeader_changes
  case isFalse =>
  split at h
  case isTrue => exact .stay h
  split at h
  · exact .stay h
  rename_i n₁ hn₁
  obtain ⟨cs, hcs, rfl⟩ := map_eq_some_iff.mp hn₁
  obtain ⟨n₂, hn₂, rfl⟩ := map_eq_some_iff.mp h
  exact ((ReflTransGen.single (.aggregate n hdone hcs)).trans
    (processCertificates_changes hn₂)).trans proposeIfLeader_changes

lemma processSyncInfo_changes (hqc : I.Certifies env si.highestQc)
    (h : n.processSyncInfo env si = some (some n')) : Changes env I n n' := by
  simp only [processSyncInfo] at h
  split at h
  · split at h
    case isFalse => cases some.inj h
    case isTrue hverified =>
    split at h
    · exact .stay (some.inj h)
    rename_i n₁ hn₁
    obtain ⟨n₂, hn₂, heq⟩ := map_eq_some_iff.mp h
    cases heq
    exact (insertQC_changes (hqc _ hverified) hn₁).trans (processCertificates_changes hn₂)
  · split at h
    case isTrue =>
      obtain ⟨n₂, hn₂, heq⟩ := map_eq_some_iff.mp h
      cases heq
      exact processCertificates_changes hn₂
    case isFalse => cases some.inj h

lemma insertVote_changes (hv : I.received v) (h : n.insertVote v = some n') :
    Changes env I n n' := by
  unfold insertVote at h
  split at h
  · cases h
  rename_i mp hmp
  cases h
  exact .single (.vote n hv hmp)

lemma processVote_changes
    (hv : env.validateVoteData (receivedVote msg v) = true → I.received (receivedVote msg v))
    (hqc : I.Certifies env si.highestQc) (h : n.processVote env msg v si = some n') :
    Changes env I n n' := by
  unfold processVote at h
  split at h
  case isFalse => exact .stay h
  case isTrue hcheck =>
  simp only [checkVote, validateVoteMsg, Bool.and_eq_true] at hcheck
  obtain ⟨⟨⟨-, -, hvalid⟩, -⟩, -⟩ := hcheck
  split at h
  · exact .stay h
  rename_i n₁ hn₁
  have hfirst : Changes env I n n₁ := insertVote_changes (hv hvalid) hn₁
  obtain ⟨r, hr, h⟩ := bind_eq_some_iff.mp h
  cases r with
  | none => exact some.inj h ▸ hfirst
  | some n₂ =>
    exact (hfirst.trans (processSyncInfo_changes hqc hr)).trans (processVotes_changes h)

lemma processPair_changes {s s' : ConsensusChainedBftImpl × List Bytes} {pair : BlockPair}
    (hqc : I.Certifies env pair.qc) (h : processPair env sv s pair = some s') :
    Changes env I s.1 s'.1 := by
  simp only [processPair] at h
  split at h
  case isFalse => exact some.inj h ▸ .refl
  case isTrue hcheck =>
  split at h
  case isFalse => exact some.inj h ▸ .refl
  obtain ⟨valid, -, h⟩ := bind_eq_some_iff.mp h
  split at h
  case isFalse => exact some.inj h ▸ .refl
  obtain ⟨n₁, hn₁, rfl⟩ := map_eq_some_iff.mp h
  unfold processBlockAndQC at hn₁
  split at hn₁
  · exact .stay hn₁
  rename_i n₂ hn₂
  obtain ⟨cs, hcs, rfl⟩ := map_eq_some_iff.mp hn₂
  obtain ⟨⟨n₃, done⟩, hn₃, rfl⟩ := map_eq_some_iff.mp hn₁
  have hverified := hqc _ (checkPair_verified hcheck)
  exact (insertBlock_changes hn₂).trans (processQC_changes hverified hn₃)

lemma processFetchResp_changes {authorIdx : ℕ} {blocks : List BlockPair}
    (hqc : ∀ pair ∈ blocks, I.Certifies env pair.qc)
    (h : n.processFetchResp env sv msg authorIdx blocks = some n') : Changes env I n n' := by
  unfold processFetchResp at h
  split at h
  case isFalse => exact .stay h
  obtain ⟨s, hrun, rfl⟩ := map_eq_some_iff.mp h
  have hsorted : ∀ pair ∈ sortPairs blocks, I.Certifies env pair.qc :=
    fun pair hpair => hqc pair ((List.mem_insertionSort _).mp hpair)
  exact Runs.run_induction_mem (I := fun s => Changes env I n s.1)
    (fun s pair s' hs hpair hstep => hs.trans (processPair_changes hpair hstep)) .refl hsorted
    hrun

lemma processLocalTimeout_changes {height level : ℕ}
    (h : n.processLocalTimeout env height level = some n') : Changes env I n n' := by
  simp only [processLocalTimeout] at h
  split at h
  · exact .stay h
  have htimer : Changes env I n { n with timers := n.paceMaker.timer :: n.timers } :=
    .single (.pace n n.paceMaker n.state _ rfl le_rfl)
  split at h
  case isFalse => exact some.inj h ▸ htimer.tail (.timeout _ height level)
  case isTrue hlevel =>
  split at h
  · cases h
  rename_i last si hlast
  split at h
  · rw [← hlevel] at h
    exact some.inj h ▸ htimer.tail (.retry _ hlast)
  · exact some.inj h ▸ htimer.tail (.timeout _ height level)

lemma onFiredEvent_changes {te : TimerEvent} (h : n.onFiredEvent env te = some n') :
    Changes env I n n' := by
  unfold onFiredEvent at h
  split_ifs at h
  · exact .stay h
  · exact processLocalTimeout_changes h

lemma processBlockCommitted_changes (hmem : block ∈ n.chainStore.ledger)
    (h : n.processBlockCommitted env block = some n') : Changes env I n n' := by
  unfold processBlockCommitted at h
  split at h
  · exact .stay h
  obtain ⟨⟨cs, done⟩, hcs, h⟩ := bind_eq_some_iff.mp h
  have hfirst : Changes env I n { n with chainStore := cs } := .single (.complete n hmem hcs)
  cases done with
  | false => exact some.inj h ▸ hfirst
  | true =>
    have hsecond := hfirst.trans
      (committed_changes block.header.blockHeight block cs.commitLevel)
    exact hsecond.trans (processCertificates_changes h)

end ConsensusChainedBftImpl

def ConsensusMsg.certs (msg : ConsensusMsg) : List QuorumCert :=
  match msg.payload with
  | .proposalMsg p _ => [p.justifyQc]
  | .voteMsg _ si => [si.highestQc]
  | .blockFetchRespMsg _ blocks => blocks.map (·.qc)

def Event.certs : Event → List QuorumCert
  | .consensusMsg msg => msg.certs
  | _ => []

def Event.inputs (env : Env) (sv : Services) (n : ConsensusChainedBftImpl) : Event → Inputs
  | .consensusMsg msg =>
    { proposed := fun p => ∃ si, msg.payload = .proposalMsg p si ∧
        n.checkProposal env sv msg p si = true
      certified := fun epochId qc => qc ∈ msg.certs ∧ env.verifyJustifyQC epochId qc = true
      received := fun v => (∃ w si, msg.payload = .voteMsg w si ∧
        v = ConsensusChainedBftImpl.receivedVote msg w) ∧ env.validateVoteData v = true }
  | _ => ⟨fun _ => False, fun _ _ => False, fun _ => False⟩

namespace ConsensusChainedBftImpl
variable {env : Env} {sv : Services} {n n' : ConsensusChainedBftImpl}

lemma handle_changes {e : Event} (h : n.handle env sv e = some n') :
    Changes env (e.inputs env sv n) n n' := by
  cases e with
  | consensusMsg msg =>
    obtain ⟨payload, sign⟩ := msg
    cases payload with
    | proposalMsg p si =>
      exact processProposal_changes (fun hcheck => ⟨si, rfl, hcheck⟩)
        (fun _ hverified => ⟨List.mem_singleton_self _, hverified⟩) h
    | voteMsg v si =>
      simp only [handle, onConsensusMsg] at h
      split at h
      · exact processVote_changes (fun hvalid => ⟨⟨v, si, rfl, rfl⟩, hvalid⟩)
          (fun _ hverified => ⟨List.mem_singleton_self _, hverified⟩) h
      · exact .stay h
    | blockFetchRespMsg authorIdx blocks =>
      exact processFetchResp_changes
        (fun pair hpair _ hverified => ⟨List.mem_map_of_mem hpair, hverified⟩) h
  | firedEvent te => exact onFiredEvent_changes h
  | blockInfo height =>
    obtain ⟨block, hblock, h⟩ := bind_eq_some_iff.mp h
    exact processBlockCommitted_changes (List.mem_of_find?_eq_some hblock) h

end ConsensusChainedBftImpl
end ChainMaker.ChainedBft
