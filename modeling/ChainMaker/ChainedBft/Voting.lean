import ChainMaker.ChainedBft.Safety

/-! Every handler of a node keeps what the node has voted for, what it is locked on and what it
holds in accord with the log of the votes of all honest nodes. -/

namespace ChainMaker.ChainedBft
open Option Finset

namespace Cluster
variable (c : Cluster)

/-- The votes for a block that a node has collected are of peers, and the honest ones did vote for
it at this level; a block that is locked has a quorum of them. -/
structure Held (env : Env) (log : Log) (mp : MsgPool) : Prop where
  min_eq : mp.minVotesForQc = c.governance.minQuorumForQc
  voters : ∀ height level id, ∀ x ∈ ((mp.votePool height level).blockVotes id).keys,
    ∃ peer, env.getPeerByIndex x = some peer ∧
      (peer.nodeID ∈ c.honest → (peer.nodeID, id) ∈ log ∧ level = c.chain.level id)
  locked : ∀ height level id, (mp.votePool height level).lockedBlockId = some id →
    mp.minVotesForQc ≤ ((mp.votePool height level).blockVotes id).keys.length

structure Sane (log : Log) (i : NodeId) (m : ℕ) (n : ConsensusChainedBftImpl) : Prop where
  id_eq : n.id = i
  epoch_eq : n.paceMaker.epochId = c.governance.epochId
  sound : c.Sound log m n.chainStore
  locked : c.Locked log n.safetyRules
  created : ∀ v ∈ n.created, ∀ h, v.blockId = some h → (i, h) ∈ log ∧ v.level = c.chain.level h
  voted : ∀ h, (i, h) ∈ log → c.chain.level h ≤ n.safetyRules.lastVoteLevel ∧
    (c.chain.tree.parent h ≠ c.chain.root →
      c.chain.level (c.chain.tree.parent (c.chain.tree.parent h)) ≤ n.safetyRules.lockedLevel)
  lastVote : ∀ v si, n.safetyRules.lastVoteMsg = some (v, si) → v.message ∈ n.created
  held : c.Held (c.env i) log n.msgPool

def Rest (log : Log) (i : NodeId) (n : ConsensusChainedBftImpl) : Prop :=
  c.Sane log i n.safetyRules.lockedLevel n

variable {c} {log log' : Log} {env : Env} {mp mp' : MsgPool}

namespace Held

lemma iff_collects :
    c.Held env log mp ↔ mp.Collects c.governance.minQuorumForQc fun x id _ level => ∃ peer,
      env.getPeerByIndex x = some peer ∧
      (peer.nodeID ∈ c.honest → (peer.nodeID, id) ∈ log ∧ level = c.chain.level id) :=
  ⟨fun h => { h with }, fun h => { h with }⟩

lemma mono (hsub : log ⊆ log') (h : c.Held env log mp) : c.Held env log' mp := by
  refine iff_collects.mpr ((iff_collects.mp h).mono fun x id height level hx => ?_)
  obtain ⟨peer, hpeer, hhonest⟩ := hx
  exact ⟨peer, hpeer, fun hj => ⟨hsub (hhonest hj).1, (hhonest hj).2⟩⟩

lemma congr (h : c.Held env log mp) (hmin : mp'.minVotesForQc = mp.minVotesForQc)
    (hpool : ∀ height level, mp'.votePool height level = mp.votePool height level ∨
      mp'.votePool height level = newVotePool) : c.Held env log mp' :=
  iff_collects.mpr ((iff_collects.mp h).congr hmin hpool)

lemma insertVote (h : c.Held env log mp) {v : VoteData} (hvalid : env.validateVoteData v = true)
    (hbacked : c.Backed log v) (hmp : mp.insertVote v.height v.level v = .ok mp') :
    c.Held env log mp' := by
  refine iff_collects.mpr ((iff_collects.mp h).insertVote (fun id hid => ?_) hmp)
  obtain ⟨peer, hpeer, hauthor⟩ := Env.validateVoteData_peer hvalid
  exact ⟨peer, hpeer, fun hhonest => hbacked _ hhonest hauthor id hid⟩

lemma good_of_done (h : c.Held env log mp) (henv : env.governance = c.governance)
    {height level : ℕ} {blockId : Option Bytes} {newView : Bool}
    (hdone : mp.checkVotesDone height level = some (blockId, newView)) {qc : QuorumCert}
    (hid : qc.blockId = blockId) (hlevel : qc.level = level) (hview : qc.newView = newView) :
    c.Good log qc := by
  unfold MsgPool.checkVotesDone VotePool.checkVoteDone at hdone
  split at hdone
  · rename_i id hlocked
    cases hdone
    refine ⟨fun htrue => (Bool.false_ne_true (hview.symm.trans htrue)).elim, fun _ => ?_⟩
    rw [hid, hlevel]
    have hmin := h.locked height level id hlocked
    rw [h.min_eq] at hmin
    exact cert_of_indexes henv (AList.keys_nodup _) hmin (h.voters height level id)
  · split_ifs at hdone
    cases hdone
    exact ⟨fun _ => hid, fun hfalse => (Bool.false_ne_true (hfalse.symm.trans hview)).elim⟩

end Held

end Cluster

namespace ConsensusChainedBftImpl

def core (n : ConsensusChainedBftImpl) :
    NodeId × ℕ × SafetyRules × ChainStore × List VoteData × MsgPool :=
  (n.id, n.paceMaker.epochId, n.safetyRules, n.chainStore, n.created, n.msgPool)

lemma core_advance (env : Env) (n : ConsensusChainedBftImpl) (qc tc : Option QuorumCert) :
    (n.advance env qc tc).core = n.core := by
  have hepoch : (n.paceMaker.processCertificates qc tc
      n.safetyRules.lastCommittedLevel).1.epochId = n.paceMaker.epochId := by
    unfold Pacemaker.processCertificates
    dsimp only
    split <;> rfl
  unfold advance processNewHeight core
  dsimp only
  split_ifs <;> exact congrArg (fun e => (n.id, e, _)) hepoch

lemma core_updateTC (n : ConsensusChainedBftImpl) (tc : Option QuorumCert) :
    (n.updateTC tc).core = n.core := by
  unfold updateTC Pacemaker.updateTC
  cases tc with
  | none => rfl
  | some tc =>
    dsimp only [core]
    split
    · rfl
    · split <;> rfl

lemma core_proposeIfLeader (env : Env) (n : ConsensusChainedBftImpl) :
    (n.proposeIfLeader env).core = n.core := by
  unfold proposeIfLeader
  split <;> rfl

end ConsensusChainedBftImpl

namespace Cluster
variable {c : Cluster} {log log' : Log} {i : NodeId} {m m' : ℕ} {n n' : ConsensusChainedBftImpl}
  {env : Env} {sv : Services} {qc : QuorumCert}

namespace Sane

lemma mono (hm : m ≤ m') (h : c.Sane log i m n) : c.Sane log i m' n :=
  { h with sound := h.sound.mono (List.Subset.refl _) hm }

variable (h : c.Sane log i m n)
include h

lemma congr (hcore : n'.core = n.core) : c.Sane log i m n' := by
  simp only [ConsensusChainedBftImpl.core, Prod.mk.injEq] at hcore
  obtain ⟨hid, hepoch, hsr, hcs, hcreated, hmp⟩ := hcore
  refine ⟨hid.trans h.id_eq, hepoch.trans h.epoch_eq, hcs ▸ h.sound, hsr ▸ h.locked, ?_, ?_, ?_,
    hmp ▸ h.held⟩
  · rw [hcreated]
    exact h.created
  · rw [hsr]
    exact h.voted
  · rw [hsr, hcreated]
    exact h.lastVote

lemma withRules {sr : SafetyRules} (hlocked : c.Locked log sr)
    (hle : n.safetyRules.lockedLevel ≤ sr.lockedLevel)
    (hlevel : sr.lastVoteLevel = n.safetyRules.lastVoteLevel)
    (hmsg : sr.lastVoteMsg = n.safetyRules.lastVoteMsg) :
    c.Sane log i m { n with safetyRules := sr } := by
  refine { h with locked := hlocked, voted := fun b hb => ?_, lastVote := ?_ }
  · obtain ⟨hlow, hgrand⟩ := h.voted b hb
    exact ⟨hlevel.symm ▸ hlow, fun hne => (hgrand hne).trans hle⟩
  · rw [hmsg]
    exact h.lastVote

lemma withStore {cs : ChainStore} (hcs : c.Sound log m' cs) :
    c.Sane log i m' { n with chainStore := cs } := { h with sound := hcs }

lemma updateLockedQC {qc : Option QuorumCert} (hn : n.updateLockedQC qc = some n') :
    c.Sane log i m n' ∧ n.safetyRules.lockedLevel ≤ n'.safetyRules.lockedLevel ∧
      n'.chainStore = n.chainStore := by
  unfold ConsensusChainedBftImpl.updateLockedQC at hn
  split at hn
  · cases hn
    exact ⟨h, le_rfl, rfl⟩
  · obtain ⟨sr, hsr, rfl⟩ := map_eq_some_iff.mp hn
    obtain ⟨hlocked, hle, hlevel, hmsg⟩ := h.locked.updateLockedQC h.sound hsr
    exact ⟨h.withRules hlocked hle hlevel hmsg, hle, rfl⟩

lemma processCertificates {qc tc : Option QuorumCert}
    (hn : n.processCertificates env qc tc = some n') :
    c.Sane log i m n' ∧ n.safetyRules.lockedLevel ≤ n'.safetyRules.lockedLevel := by
  obtain ⟨n₁, hn₁, rfl⟩ := map_eq_some_iff.mp hn
  have htc := n.core_updateTC tc
  have hlock : (n.updateTC tc).safetyRules = n.safetyRules := congrArg (·.2.2.1) htc
  obtain ⟨h₁, hle, -⟩ := (h.congr htc).updateLockedQC hn₁
  have hcore := n₁.core_advance env qc tc
  refine ⟨h₁.congr hcore, ?_⟩
  have hlock₁ : (n₁.advance env qc tc).safetyRules = n₁.safetyRules := congrArg (·.2.2.1) hcore
  rw [hlock₁, ← hlock]
  exact hle

lemma insertQC (hgood : c.Good log qc) (hn : n.insertQC qc = some n') :
    c.Sane log i m n' ∧ n'.safetyRules = n.safetyRules ∧
      n'.chainStore.blockPool.blockTree = n.chainStore.blockPool.blockTree := by
  obtain ⟨cs, hcs, rfl⟩ := map_eq_some_iff.mp hn
  refine ⟨h.withStore (h.sound.insertQC hgood hcs), rfl, ?_⟩
  unfold ChainStore.insertQC at hcs
  split_ifs at hcs
  · exact some.inj hcs ▸ rfl
  · exact some.inj hcs ▸ BlockPool.insertQC_blockTree _ _

lemma setLastCommitted (last : Option (Block × ℕ)) : c.Sane log i m (n.setLastCommitted last) ∧
      (n.setLastCommitted last).safetyRules.lockedLevel = n.safetyRules.lockedLevel ∧
      (n.setLastCommitted last).chainStore = n.chainStore := by
  unfold ConsensusChainedBftImpl.setLastCommitted
  split
  · exact ⟨h, rfl, rfl⟩
  rename_i block level
  obtain ⟨hmin, hpools⟩ := MsgPool.onBlockSealed_votes n.msgPool block.header.blockHeight
  have hheld := h.held.congr hmin hpools
  unfold SafetyRules.setLastCommittedBlock
  split
  · exact ⟨{ h with held := hheld }, rfl, rfl⟩
  · exact ⟨{ h with held := hheld, locked := ⟨h.locked.cert, h.locked.level_eq⟩ }, rfl, rfl⟩

end Sane

/-- A certificate that commits a block is two levels above the certificate of that block. The
commit rule asks for the heights instead. -/
def consecutiveLevels (n : ConsensusChainedBftImpl) (qc : QuorumCert) : Bool :=
  (n.chainStore.commitRules qc).all fun (_, level) =>
    n.chainStore.commitLevel < level → qc.level = level + 2

/-- What is committed does not take the certified block, its parent or the certificate of the parent
out of the pool, so the lock can follow. -/
def keepsParent (c : Cluster) (sv : Services) (n : ConsensusChainedBftImpl) (qc : QuorumCert) :
    Bool :=
  (n.chainStore.blockPool.getBlockByID (bytes qc.blockId)).all fun blk =>
    bytes qc.blockId = c.chain.root || (n.commitBlocksByQC sv qc).all fun n =>
      (n.chainStore.blockPool.getBlockByID (bytes qc.blockId)).isSome &&
        (n.chainStore.blockPool.getBlockByID blk.header.preBlockHash).isSome &&
        (n.chainStore.blockPool.getQCByID blk.header.preBlockHash).isSome

def disciplined (c : Cluster) (sv : Services) (n : ConsensusChainedBftImpl) (qc : QuorumCert) :
    Bool :=
  (n.storeQC qc).all fun n => consecutiveLevels n qc && c.keepsParent sv n qc

lemma Sane.commitBlocksByQC (h : c.Sane log i m n) (hl : c.Lawful log) (hgood : c.Good log qc)
    (hlevels : consecutiveLevels n qc = true) (hn : n.commitBlocksByQC sv qc = some n') :
    n'.safetyRules.lockedLevel = n.safetyRules.lockedLevel ∧
      ∃ m', c.Sane log i m' n' ∧ (m' = m ∨ m ≤ m' ∧ ∃ blk,
        n.chainStore.blockPool.getBlockByID (bytes qc.blockId) = some blk ∧
          bytes qc.blockId ≠ c.chain.root ∧ m' < c.chain.level blk.header.preBlockHash) := by
  unfold ConsensusChainedBftImpl.commitBlocksByQC at hn
  split at hn
  · cases hn
    exact ⟨rfl, m, h, .inl rfl⟩
  rename_i block level hrule
  split at hn
  case isFalse =>
    cases hn
    exact ⟨rfl, m, h, .inl rfl⟩
  case isTrue hnew =>
  obtain ⟨⟨cs, last⟩, hcommit, rfl⟩ := map_eq_some_iff.mp hn
  have hlevel : qc.level = level + 2 := by
    rw [consecutiveLevels, hrule] at hlevels
    exact of_decide_eq_true hlevels hnew
  obtain ⟨hwell, hfinal, blk, hblk, hne, hlt⟩ := h.sound.commitRules hl hgood hrule hlevel
  have hsound : c.Sound log (max m (c.chain.level block.header.blockHash)) cs :=
    (h.sound.mono (List.Subset.refl _) (le_max_left _ _)).commitBlock hl hwell hfinal
      (le_max_right _ _) hcommit
  obtain ⟨hsane, hlock, -⟩ := (h.withStore hsound).setLastCommitted last
  refine ⟨hlock, _, hsane, ?_⟩
  rcases le_total (c.chain.level block.header.blockHash) m with hle | hle
  · exact .inl (max_eq_left hle)
  · exact .inr ⟨le_max_left _ _, blk, hblk, hne, (max_eq_right hle).trans_lt hlt⟩

lemma Sane.storeQC (h : c.Sane log i m n) (hgood : c.Good log qc) (hn : n.storeQC qc = some n') :
    c.Sane log i m n' ∧ n'.safetyRules = n.safetyRules ∧
      n'.chainStore.blockPool.blockTree = n.chainStore.blockPool.blockTree := by
  unfold ConsensusChainedBftImpl.storeQC at hn
  split at hn
  · cases hn
    exact ⟨h, rfl, rfl⟩
  · exact h.insertQC hgood hn

lemma processCertificates_rules (hn : n.processCertificates env (some qc) none = some n') :
    n.safetyRules.updateLockedQC n.chainStore qc = some n'.safetyRules := by
  obtain ⟨n₁, hn₁, rfl⟩ := map_eq_some_iff.mp hn
  have hsame : (n₁.advance env (some qc) none).safetyRules = n₁.safetyRules :=
    congrArg (·.2.2.1) (n₁.core_advance env (some qc) none)
  rw [hsame]
  obtain ⟨sr, hsr, rfl⟩ := map_eq_some_iff.mp hn₁
  exact hsr

lemma Sane.lock_le (h : c.Sane log i m n) (hgood : c.Good log qc) {blk : Block}
    (hwell : c.chain.WellHashed blk) (hhash : blk.header.blockHash = bytes qc.blockId)
    (hroot : m ≤ n.safetyRules.lockedLevel ∨ m < c.chain.level blk.header.preBlockHash)
    (hblk : (n.chainStore.blockPool.getBlockByID (bytes qc.blockId)).isSome)
    (hpre : (n.chainStore.blockPool.getBlockByID blk.header.preBlockHash).isSome)
    (hpreQC : (n.chainStore.blockPool.getQCByID blk.header.preBlockHash).isSome)
    (hn : n.processCertificates env (some qc) none = some n') :
    c.chain.level blk.header.preBlockHash ≤ n'.safetyRules.lockedLevel := by
  have hnewView : qc.newView = false := by
    refine Bool.eq_false_iff.mpr fun hv => hwell.1 ?_
    rw [hhash, hgood.newView hv]
    rfl
  obtain ⟨b, hb⟩ := isSome_iff_exists.mp hblk
  have hsame : b.header = blk.header := by
    rw [(h.sound.blocks _ b hb).1.2, (h.sound.blocks _ b hb).2, ← hhash, ← hwell.2]
  rw [← hsame] at hpre hpreQC hroot ⊢
  have hsr := processCertificates_rules hn
  have hle := h.sound.level_le_updateLockedQC hnewView hb hpre hpreQC hsr
  have hup := (h.locked.updateLockedQC h.sound hsr).2.1
  have hrootLe := h.sound.root_le
  omega

lemma Rest.processQC (h : c.Rest log i n) (hl : c.Lawful log) (hgood : c.Good log qc)
    (hd : c.disciplined sv n qc = true) {done : Bool}
    (hn : n.processQC env sv qc = some (n', done)) :
    c.Rest log i n' ∧ n.safetyRules.lockedLevel ≤ n'.safetyRules.lockedLevel ∧
      (done = true → bytes qc.blockId ≠ c.chain.root →
        (n.chainStore.blockPool.getBlockByID (bytes qc.blockId)).isSome →
        c.chain.level (c.chain.tree.parent (bytes qc.blockId)) ≤ n'.safetyRules.lockedLevel) := by
  unfold ConsensusChainedBftImpl.processQC at hn
  unfold disciplined at hd
  cases hstore : n.storeQC qc with
  | none =>
    rw [hstore] at hn
    cases hn
    exact ⟨h, le_rfl, nofun⟩
  | some n₁ =>
    rw [hstore] at hn hd
    obtain ⟨n₂, hn₂, hn⟩ := bind_eq_some_iff.mp hn
    obtain ⟨n₃, hn₃, heq⟩ := map_eq_some_iff.mp hn
    obtain ⟨rfl, rfl⟩ := Prod.mk.inj heq
    obtain ⟨hlevels, hkeeps⟩ := (Bool.and_eq_true _ _).mp hd
    obtain ⟨h₁, hsr₁, htree₁⟩ := Sane.storeQC h hgood hstore
    obtain ⟨hlock₂, m', h₂, hm'⟩ := h₁.commitBlocksByQC hl hgood hlevels hn₂
    obtain ⟨h₃, hup⟩ := h₂.processCertificates hn₃
    rw [hlock₂, hsr₁] at hup
    have hlock : ∀ blk, n₁.chainStore.blockPool.getBlockByID (bytes qc.blockId) = some blk →
        bytes qc.blockId ≠ c.chain.root →
        c.chain.level blk.header.preBlockHash ≤ n₃.safetyRules.lockedLevel := by
      intro blk hblk hne
      rw [keepsParent, hblk, all_some, hn₂, all_some] at hkeeps
      simp only [Bool.or_eq_true, decide_eq_true_eq, hne, false_or, Bool.and_eq_true] at hkeeps
      obtain ⟨⟨hin, hpre⟩, hpreQC⟩ := hkeeps
      obtain ⟨hwell, hhash⟩ := h₁.sound.blocks _ blk hblk
      refine h₂.lock_le hgood hwell hhash ?_ hin hpre hpreQC hn₃
      rcases hm' with rfl | ⟨-, blk', hblk', -, hlt⟩
      · exact .inl (by rw [hlock₂, hsr₁])
      cases hblk.symm.trans hblk'
      exact .inr hlt
    refine ⟨h₃.mono ?_, hup, fun _ hne hin => ?_⟩
    · rcases hm' with rfl | ⟨-, blk, hblk, hne, hlt⟩
      · exact hup
      · exact hlt.le.trans (hlock blk hblk hne)
    rw [BlockPool.getBlockByID, ← htree₁] at hin
    obtain ⟨blk, hblk⟩ := isSome_iff_exists.mp hin
    obtain ⟨hwell, hhash⟩ := h₁.sound.blocks _ blk hblk
    rw [← hhash, hwell.parent_eq]
    exact hlock blk hblk hne

end Cluster
end ChainMaker.ChainedBft
