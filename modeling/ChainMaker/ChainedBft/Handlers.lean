import ChainMaker.ChainedBft.Voting

/-! One event at an honest node: a proposal may add the node's vote to the log, and then the vote
keeps to the rule of chained voting; nothing else adds to the log. -/

namespace ChainMaker.ChainedBft
open Option Finset ConsensusChainedBftImpl List

namespace Cluster
variable {c : Cluster} {log log' : Log} {i : NodeId} {m : ℕ} {n n' : ConsensusChainedBftImpl}
  {env : Env} {sv : Services} {qc : QuorumCert} {v : VoteData}

abbrev Rule (c : Cluster) (log : Log) (i : NodeId) (h : Bytes) : Prop :=
  ChainedVotes.Rule c.chain.tree (validatorIds c.governance) c.honest
    c.governance.minQuorumForQc log i h

def Steps (c : Cluster) (log : Log) (i : NodeId) (n : ConsensusChainedBftImpl) : Prop :=
  ∃ log', (log' = log ∨ ∃ h, log' = (i, h) :: log) ∧ c.Lawful log' ∧ c.Rest log' i n

lemma Rest.steps (h : c.Rest log i n) (hl : c.Lawful log) : c.Steps log i n :=
  ⟨log, .inl rfl, hl, h⟩

lemma Rest.withStore (h : c.Rest log i n) {cs : ChainStore}
    (hcs : c.Sound log n.safetyRules.lockedLevel cs) : c.Rest log i { n with chainStore := cs } :=
  Sane.withStore h hcs

def Accounted (c : Cluster) (sr : SafetyRules) (h : Bytes) : Prop :=
  c.chain.level h ≤ sr.lastVoteLevel ∧ (c.chain.tree.parent h ≠ c.chain.root →
    c.chain.level (c.chain.tree.parent (c.chain.tree.parent h)) ≤ sr.lockedLevel)

lemma Sane.extend (h : c.Sane log i m n) (hsub : log ⊆ log') {sr : SafetyRules}
    (hlocked : c.Locked log sr) {created : List VoteData}
    (hcreated : ∀ v ∈ created, ∀ b, v.blockId = some b → (i, b) ∈ log' ∧ v.level = c.chain.level b)
    (hvoted : ∀ b, (i, b) ∈ log' → c.Accounted sr b)
    (hlast : ∀ v si, sr.lastVoteMsg = some (v, si) → v.message ∈ created) :
    c.Sane log' i m { n with safetyRules := sr, created := created } where
  id_eq := h.id_eq
  epoch_eq := h.epoch_eq
  sound := h.sound.mono hsub le_rfl
  locked := hlocked.mono hsub
  created := hcreated
  voted := hvoted
  lastVote := hlast
  held := h.held.mono hsub

lemma Sane.sendVote (h : c.Sane log i m n) (hsub : log ⊆ log') (si : SyncInfo)
    {level : ℕ} (hv : ∀ b, v.blockId = some b → (i, b) ∈ log' ∧ v.level = c.chain.level b)
    (hnew : ∀ b, (i, b) ∈ log' → (i, b) ∈ log ∨ n.safetyRules.lastVoteLevel < level ∧
      c.Accounted { n.safetyRules with lastVoteLevel := level } b) :
    c.Sane log' i m (n.sendVote (v, si) level) := by
  have hcreated : ∀ w ∈ v.message :: n.created, ∀ b, w.blockId = some b →
      (i, b) ∈ log' ∧ w.level = c.chain.level b := by
    refine forall_mem_cons.mpr ⟨hv, fun w hw b hb => ?_⟩
    exact ⟨hsub (h.created w hw b hb).1, (h.created w hw b hb).2⟩
  unfold ConsensusChainedBftImpl.sendVote SafetyRules.setLastVote
  split
  case isTrue hlevel =>
    refine h.extend hsub h.locked hcreated (fun b hb => ?_) fun w si' hw =>
      mem_cons_of_mem _ (h.lastVote w si' hw)
    exact h.voted b ((hnew b hb).resolve_right fun hlt => absurd hlt.1 (not_lt.mpr hlevel))
  case isFalse hlevel =>
  have hlocked : c.Locked log
      { n.safetyRules with lastVoteMsg := some (v, si), lastVoteLevel := level } :=
    ⟨h.locked.cert, h.locked.level_eq⟩
  refine h.extend hsub hlocked hcreated (fun b hb => ?_) fun w si' hw => ?_
  · rcases hnew b hb with hold | ⟨-, hacc⟩
    · exact ⟨(h.voted b hold).1.trans (not_le.mp hlevel).le, (h.voted b hold).2⟩
    · exact hacc
  · cases hw
    exact mem_cons_self

lemma lockedLevel_sendVote (vote : VoteData × SyncInfo) (level : ℕ) :
    (n.sendVote vote level).safetyRules.lockedLevel = n.safetyRules.lockedLevel := by
  unfold sendVote SafetyRules.setLastVote
  split <;> rfl

variable {p : ProposalData}

section
variable (h : c.Rest log i n) (hl : c.Lawful log)
  (hlevel : p.level = c.chain.level p.block.header.blockHash)
  (hrule : (∀ b, (i, b) ∈ log → c.chain.level b < p.level) → c.Rule log i p.block.header.blockHash)
  (hgrand : c.chain.tree.parent p.block.header.blockHash ≠ c.chain.root → c.chain.level
    (c.chain.tree.parent (c.chain.tree.parent p.block.header.blockHash)) ≤
      n.safetyRules.lockedLevel)
include h hl hlevel hrule hgrand

lemma Rest.generateVoteAndSend (hlast : n.safetyRules.lastVoteLevel < p.level) :
    c.Steps log i (n.generateVoteAndSend env p) := by
  have hinc : ∀ b, (i, b) ∈ log → c.chain.level b < p.level := fun b hb =>
    (h.voted b hb).1.trans_lt hlast
  refine ⟨(i, p.block.header.blockHash) :: log, .inr ⟨_, rfl⟩, ⟨hl, hrule hinc⟩, ?_⟩
  have hvoting : c.Rest log i { n with state := .vote } := Sane.congr h rfl
  unfold Rest ConsensusChainedBftImpl.generateVoteAndSend
  rw [lockedLevel_sendVote]
  refine Sane.sendVote hvoting (subset_cons_self _ _) _ (fun b hb => ?_) fun b hb => ?_
  · cases hb
    exact ⟨mem_cons_self, hlevel⟩
  rcases mem_cons.mp hb with heq | hold
  · rw [(Prod.mk.inj heq).2]
    exact .inr ⟨hlast, hlevel.symm.le, hgrand⟩
  · exact .inl hold

lemma Rest.acceptProposal (hwell : c.chain.WellHashed p.block) :
    c.Steps log i (n.acceptProposal env p) := by
  unfold ConsensusChainedBftImpl.acceptProposal
  split
  · exact h.steps hl
  rename_i n₁ hn₁
  obtain ⟨mp, hmp, rfl⟩ := map_eq_some_iff.mp hn₁
  obtain ⟨hmin, hvotes⟩ := MsgPool.insertProposal_votes hmp
  have h₁ : c.Rest log i { n with msgPool := mp } :=
    { h with held := h.held.congr hmin fun height level => .inl (hvotes height level) }
  split
  · exact h₁.steps hl
  rename_i n₂ hn₂
  obtain ⟨cs, hcs, rfl⟩ := map_eq_some_iff.mp hn₂
  have h₂ := h₁.withStore (h₁.sound.insertBlock hwell hcs)
  split
  · rename_i hlast
    exact h₂.generateVoteAndSend hl hlevel hrule hgrand hlast
  · exact h₂.steps hl

end

structure Checked (n : ConsensusChainedBftImpl) (env : Env) (p : ProposalData) : Prop where
  verified : env.verifyJustifyQC n.paceMaker.epochId p.justifyQc = true
  justifies : bytes p.justifyQc.blockId = p.block.header.preBlockHash
  safe : n.safetyRules.safeNode n.chainStore p.block p.height p.justifyQc = true
  parent : ∃ b, n.chainStore.getBlock p.block.header.preBlockHash (u64 (p.height - 1)) = some b ∧
    b.header.blockHash = bytes p.justifyQc.blockId

variable {msg : ConsensusMsg} {si : SyncInfo}

lemma checkProposal_checked (h : n.checkProposal env sv msg p si = true) : Checked n env p := by
  simp only [checkProposal, validateProposalMsg,
    validateBlock, Bool.and_eq_true, decide_eq_true_eq] at h
  obtain ⟨⟨⟨⟨⟨-, hverified⟩, hjustifies⟩, hsafe⟩, -⟩, hparent, -⟩ := h
  obtain ⟨b, hb, hhash⟩ := (any_eq_true _ _).mp hparent
  exact ⟨hverified, hjustifies, hsafe, b, hb, of_decide_eq_true hhash⟩

lemma Rest.checked_parent (h : c.Rest log i n) (hc : Checked n env p) :
    bytes p.justifyQc.blockId ≠ [] ∧
      ((n.chainStore.blockPool.getBlockByID (bytes p.justifyQc.blockId)).isSome ∨
        c.chain.level (bytes p.justifyQc.blockId) ≤ n.safetyRules.lockedLevel) := by
  obtain ⟨b, hb, hhash⟩ := hc.parent
  rw [← hhash]
  rcases or_eq_some_iff.mp hb with hpool | ⟨-, hledger⟩
  · obtain ⟨hwell, hkey⟩ := h.sound.blocks _ b hpool
    refine ⟨hwell.1, .inl ?_⟩
    rw [hkey, hpool]
    rfl
  · have hcommitted := h.sound.committed b (mem_of_find?_eq_some hledger)
    exact ⟨hcommitted.wellHashed.1, .inr hcommitted.level_le⟩

/-- The conditions on a proposal that a node accepts: its block is what its hash says, at the level
the proposal names and above the level of the certificate, and the certificate is counted and leads
to a commit only at consecutive levels. -/
def fitProposal (c : Cluster) (sv : Services) (n : ConsensusChainedBftImpl) (p : ProposalData) :
    Bool :=
  c.chain.WellHashed p.block && getLevelFromBlock p.block = some p.level &&
    p.justifyQc.level < p.level && c.Counted p.justifyQc && c.disciplined sv n p.justifyQc

section
variable (h : c.Rest log i n)
include h

lemma Rest.processProposal (hl : c.Lawful log) (henv : env.governance = c.governance)
    (hfit : n.checkProposal env sv msg p si = true → c.fitProposal sv n p = true)
    (hbacked : ∀ v ∈ p.justifyQc.votes, env.validateVoteData v = true → c.Backed log v)
    (hn : n.processProposal env sv msg p si = some n') : c.Steps log i n' := by
  unfold ConsensusChainedBftImpl.processProposal at hn
  split at hn
  case isFalse => exact some.inj hn ▸ h.steps hl
  case isTrue hcheck =>
  obtain ⟨valid, -, hn⟩ := bind_eq_some_iff.mp hn
  split at hn
  case isFalse => exact some.inj hn ▸ h.steps hl
  obtain ⟨⟨n₁, done⟩, hqc, rfl⟩ := map_eq_some_iff.mp hn
  have hc := checkProposal_checked hcheck
  have hfit := hfit hcheck
  simp only [fitProposal, Bool.and_eq_true, decide_eq_true_eq] at hfit
  obtain ⟨⟨⟨⟨hwell, hlevel⟩, hlt⟩, hcounted⟩, hd⟩ := hfit
  have hgood : c.Good log p.justifyQc :=
    good_of_verify henv hcounted (h.epoch_eq ▸ hc.verified) hbacked
  obtain ⟨h₁, hup, hlock⟩ := h.processQC hl hgood hd hqc
  dsimp only
  split
  case isFalse => exact h₁.steps hl
  case isTrue hdone =>
  obtain ⟨hne, hpar⟩ := h.checked_parent hc
  obtain ⟨hcert, hjlevel⟩ := hgood.of_ne_nil hne
  have hplevel := hwell.level_eq hlevel
  have hparent : c.chain.tree.parent p.block.header.blockHash = bytes p.justifyQc.blockId :=
    hwell.parent_eq.trans hc.justifies.symm
  have hroot : p.block.header.blockHash ≠ c.chain.root := c.chain.tree.ne_genesis (by
    change 0 < c.chain.level _
    omega)
  refine h₁.acceptProposal hl hplevel (fun hinc => ?_) (fun hne' => ?_) hwell
  · refine ⟨fun b hb => ?_, ?_, ?_, n.safetyRules.lockedBlock.header.blockHash,
      h.locked.cert, fun b hb hne' => ?_, ?_⟩
    · exact (hinc b hb).trans_eq hplevel
    · rw [hparent]
      exact hcert
    · rw [hparent]
      change c.chain.level _ < c.chain.level _
      omega
    · exact ((h.voted b hb).2 hne').trans_eq h.locked.level_eq.symm
    · rw [hparent]
      refine (h.sound.safeNode hwell hroot hc.safe).imp_left fun hhigher => ?_
      change c.chain.level _ < c.chain.level _
      rw [h.locked.level_eq, ← hjlevel]
      exact hhigher
  · rw [hparent] at hne' ⊢
    rcases hpar with hpool | hledger
    · exact hlock hdone hne' hpool
    have hgrand := (hl.cert_parent c.overlap hcert hne').2
    exact (hgrand.le.trans hledger).trans hup

lemma Rest.processCertificates {qc tc : Option QuorumCert}
    (hn : n.processCertificates env qc tc = some n') : c.Rest log i n' := by
  obtain ⟨h', hup⟩ := Sane.processCertificates h hn
  exact h'.mono hup

lemma Rest.insertQC (hgood : c.Good log qc) (hn : n.insertQC qc = some n') : c.Rest log i n' := by
  obtain ⟨h', hsr, -⟩ := Sane.insertQC h hgood hn
  unfold Rest
  rw [hsr]
  exact h'

lemma Rest.proposeIfLeader : c.Rest log i (n.proposeIfLeader env) := by
  have hcore := n.core_proposeIfLeader env
  have hsr : (n.proposeIfLeader env).safetyRules = n.safetyRules := congrArg (·.2.2.1) hcore
  unfold Rest
  rw [hsr]
  exact Sane.congr h hcore

lemma Rest.processVotes (henv : (c.env i).governance = c.governance)
    (hn : n.processVotes env v = some n') : c.Rest log i n' := by
  simp only [ConsensusChainedBftImpl.processVotes] at hn
  split at hn
  · exact some.inj hn ▸ h
  rename_i blockId newView hdone
  have hgood : c.Good log (n.aggregateQC v.height v.level blockId newView) :=
    h.held.good_of_done henv hdone rfl rfl rfl
  split at hn
  case isTrue =>
    obtain ⟨n₁, hn₁, rfl⟩ := map_eq_some_iff.mp hn
    exact (h.processCertificates hn₁).proposeIfLeader
  case isFalse =>
  split at hn
  case isTrue => exact some.inj hn ▸ h
  split at hn
  · exact some.inj hn ▸ h
  rename_i n₁ hn₁
  obtain ⟨n₂, hn₂, rfl⟩ := map_eq_some_iff.mp hn
  exact ((h.insertQC hgood hn₁).processCertificates hn₂).proposeIfLeader

lemma Rest.processSyncInfo
    (hgood : env.verifyJustifyQC n.paceMaker.epochId si.highestQc = true → c.Good log si.highestQc)
    (hn : n.processSyncInfo env si = some (some n')) : c.Rest log i n' := by
  simp only [ConsensusChainedBftImpl.processSyncInfo] at hn
  split at hn
  · split at hn
    case isFalse => cases some.inj hn
    case isTrue hverified =>
    split at hn
    · exact some.inj (some.inj hn) ▸ h
    rename_i n₁ hn₁
    obtain ⟨n₂, hn₂, heq⟩ := map_eq_some_iff.mp hn
    cases heq
    exact (h.insertQC (hgood hverified) hn₁).processCertificates hn₂
  · split at hn
    case isTrue =>
      obtain ⟨n₂, hn₂, heq⟩ := map_eq_some_iff.mp hn
      cases heq
      exact h.processCertificates hn₂
    case isFalse => cases some.inj hn

lemma Rest.insertVote (hvalid : (c.env i).validateVoteData v = true)
    (hbacked : c.Backed log v) (hn : n.insertVote v = some n') : c.Rest log i n' := by
  unfold ConsensusChainedBftImpl.insertVote at hn
  split at hn
  · cases hn
  rename_i mp hmp
  cases hn
  exact { h with held := h.held.insertVote hvalid hbacked hmp }

lemma Rest.processVote
    (hcounted : (c.env i).verifyJustifyQC c.governance.epochId si.highestQc = true →
      c.Counted si.highestQc)
    (hbacked : ∀ w ∈ receivedVote msg v :: si.highestQc.votes, (c.env i).validateVoteData w = true →
      c.Backed log w) (hn : n.processVote (c.env i) msg v si = some n') : c.Rest log i n' := by
  have henv := c.env_governance i
  unfold ConsensusChainedBftImpl.processVote at hn
  split at hn
  case isFalse => exact some.inj hn ▸ h
  case isTrue hcheck =>
  split at hn
  · exact some.inj hn ▸ h
  rename_i n₁ hn₁
  have hvalid : (c.env i).validateVoteData
      (receivedVote msg v) = true := by
    simp only [checkVote, validateVoteMsg, Bool.and_eq_true] at hcheck
    exact hcheck.1.1.2.2
  obtain ⟨hfirst, hrest⟩ := forall_mem_cons.mp hbacked
  have h₁ := h.insertVote hvalid (hfirst hvalid) hn₁
  have hgood : (c.env i).verifyJustifyQC n₁.paceMaker.epochId si.highestQc = true →
      c.Good log si.highestQc := by
    rw [h₁.epoch_eq]
    exact fun hv => good_of_verify henv (hcounted hv) hv hrest
  obtain ⟨r, hr, hn⟩ := bind_eq_some_iff.mp hn
  cases r with
  | none => exact some.inj hn ▸ h₁
  | some n₂ => exact (h₁.processSyncInfo hgood hr).processVotes henv hn

end

def fitPair (c : Cluster) (env : Env) (sv : Services)
    (s : ConsensusChainedBftImpl × List Bytes) (pair : BlockPair) : Prop :=
  s.1.checkPair env pair s.2 = true → c.chain.WellHashed pair.block ∧ c.Counted pair.qc ∧
    (s.1.insertBlock pair.block).all (c.disciplined sv · pair.qc) = true

instance (env : Env) (s : ConsensusChainedBftImpl × List Bytes) (pair : BlockPair) :
    Decidable (c.fitPair env sv s pair) := inferInstanceAs (Decidable (_ → _))

lemma Rest.processPair (hl : c.Lawful log) (henv : env.governance = c.governance)
    {s s' : ConsensusChainedBftImpl × List Bytes} {pair : BlockPair} (h : c.Rest log i s.1)
    (hfit : c.fitPair env sv s pair)
    (hbacked : ∀ v ∈ pair.qc.votes, env.validateVoteData v = true → c.Backed log v)
    (hs : processPair env sv s pair = some s') : c.Rest log i s'.1 := by
  simp only [ConsensusChainedBftImpl.processPair] at hs
  split at hs
  case isFalse => exact some.inj hs ▸ h
  case isTrue hcheck =>
  split at hs
  case isFalse => exact some.inj hs ▸ h
  obtain ⟨valid, -, hs⟩ := bind_eq_some_iff.mp hs
  split at hs
  case isFalse => exact some.inj hs ▸ h
  obtain ⟨n₁, hn₁, rfl⟩ := map_eq_some_iff.mp hs
  obtain ⟨hwell, hcounted, hd⟩ := hfit hcheck
  have hgood : c.Good log pair.qc :=
    good_of_verify henv hcounted (h.epoch_eq ▸ checkPair_verified hcheck) hbacked
  unfold processBlockAndQC at hn₁
  cases hins : s.1.insertBlock pair.block with
  | none =>
    rw [hins] at hn₁
    exact some.inj hn₁ ▸ h
  | some n₀ =>
    rw [hins] at hn₁ hd
    obtain ⟨⟨n₂, done⟩, hqc, rfl⟩ := map_eq_some_iff.mp hn₁
    obtain ⟨cs, hcs, rfl⟩ := map_eq_some_iff.mp hins
    exact ((h.withStore (h.sound.insertBlock hwell hcs)).processQC hl hgood hd hqc).1

variable (h : c.Rest log i n)
include h

lemma Rest.processFetchResp (hl : c.Lawful log) (henv : env.governance = c.governance)
    {authorIdx : ℕ} {blocks : List BlockPair}
    (hfit : Runs.Meets (ConsensusChainedBftImpl.processPair env sv) (c.fitPair env sv) (n, [])
      (sortPairs blocks))
    (hbacked : ∀ pair ∈ blocks, ∀ v ∈ pair.qc.votes,
      env.validateVoteData v = true → c.Backed log v)
    (hn : n.processFetchResp env sv msg authorIdx blocks = some n') : c.Rest log i n' := by
  unfold ConsensusChainedBftImpl.processFetchResp at hn
  split at hn
  case isFalse => exact some.inj hn ▸ h
  obtain ⟨s, hrun, rfl⟩ := map_eq_some_iff.mp hn
  have hsorted : ∀ pair ∈ sortPairs blocks, ∀ v ∈ pair.qc.votes,
      env.validateVoteData v = true → c.Backed log v := fun pair hpair =>
    hbacked pair (mem_insertionSort _ |>.mp hpair)
  exact Runs.run_induction (I := fun s => c.Rest log i s.1)
    (fun s pair s' hs hP hstep => hs.processPair hl henv hP.1 hP.2 hstep) h
    (hfit.and_mem hsorted) hrun

lemma Rest.processLocalTimeout {height level : ℕ}
    (hn : n.processLocalTimeout env height level = some n') : c.Rest log i n' := by
  have hsend : ∀ (timers : List TimerEvent) (v : VoteData) (si : SyncInfo),
      (∀ b, v.blockId = some b → (i, b) ∈ log ∧ v.level = c.chain.level b) →
      c.Rest log i ({ n with timers := timers }.sendVote (v, si) level) := by
    intro timers v si hv
    have htimers : c.Rest log i { n with timers := timers } := Sane.congr h rfl
    unfold Rest
    rw [lockedLevel_sendVote]
    exact Sane.sendVote htimers (Subset.refl _) si hv fun b hb => .inl hb
  simp only [ConsensusChainedBftImpl.processLocalTimeout] at hn
  split at hn
  · exact some.inj hn ▸ h
  split at hn
  · split at hn
    · cases hn
    rename_i last si hlast
    have hmem := h.lastVote last si hlast
    split at hn
    · exact some.inj hn ▸ hsend _ _ _ fun b hb => h.created _ hmem b hb
    · exact some.inj hn ▸ hsend _ _ _ (by nofun)
  · exact some.inj hn ▸ hsend _ _ _ (by nofun)

lemma Rest.onFiredEvent {te : TimerEvent} (hn : n.onFiredEvent env te = some n') :
    c.Rest log i n' := by
  unfold ConsensusChainedBftImpl.onFiredEvent at hn
  split_ifs at hn
  · exact some.inj hn ▸ h
  · exact h.processLocalTimeout hn

lemma Rest.processBlockCommitted {block : Block} (hmem : block ∈ n.chainStore.ledger)
    (hn : n.processBlockCommitted env block = some n') : c.Rest log i n' := by
  unfold ConsensusChainedBftImpl.processBlockCommitted at hn
  split at hn
  · exact some.inj hn ▸ h
  obtain ⟨⟨cs, done⟩, hcs, hn⟩ := bind_eq_some_iff.mp hn
  have h₁ := h.withStore (h.sound.insertCompletedBlock hmem hcs)
  cases done with
  | false => exact some.inj hn ▸ h₁
  | true =>
    obtain ⟨h₂, hlock, -⟩ := Sane.setLastCommitted h₁ (some (block, cs.commitLevel))
    have h₃ : c.Rest log i { n with
        chainStore := cs
        commitHeight := block.header.blockHeight
        msgPool := n.msgPool.onBlockSealed block.header.blockHeight
        safetyRules := n.safetyRules.setLastCommittedBlock block cs.commitLevel } :=
      (h₂.mono hlock.symm.le).congr rfl
    exact h₃.processCertificates hn

end Cluster
end ChainMaker.ChainedBft
