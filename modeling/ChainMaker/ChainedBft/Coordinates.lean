import ChainMaker.ChainedBft.Agreement
import ChainMaker.ChainedBft.Changes
import ChainMaker.ChainedBft.MessageChecks

/-! The height and level that a node signs for and that a certificate carries, against those of the
block. -/

namespace ChainMaker.ChainedBft
open Option Finset ConsensusChainedBftImpl List

namespace ChainStore
variable {cs cs' : ChainStore} {Q : QuorumCert → Prop} {sv : Services} {qc : QuorumCert}

structure Certs (Q : QuorumCert → Prop) (cs : ChainStore) : Prop where
  pool : ∀ id qc, cs.blockPool.getQCByID id = some qc → Q qc
  ledger : ∀ b ∈ cs.ledger, ∀ qc, getQCFromBlock b = some (.cert qc) → Q qc

namespace Certs

lemma poolInsertQC (h : cs.Certs Q) (hqc : Q qc) :
    Certs Q { cs with blockPool := cs.blockPool.insertQC qc } := by
  refine ⟨fun id qc' hqc' => ?_, h.ledger⟩
  rcases (BlockPool.insertQC_certs cs.blockPool qc).2 id qc' hqc' with hold | ⟨-, rfl⟩
  · exact h.pool id qc' hold
  · exact hqc

lemma insertQC (h : cs.Certs Q) (hqc : Q qc) {epochId : ℕ}
    (hcs : cs.insertQC epochId qc = some cs') : cs'.Certs Q := by
  unfold ChainStore.insertQC at hcs
  split_ifs at hcs
  · exact some.inj hcs ▸ h
  · exact some.inj hcs ▸ h.poolInsertQC hqc

variable {block : Block} {bp : BlockPool}

lemma poolInsertBlock (h : cs.Certs Q)
    (hbp : cs.blockPool.insertBlock block = some bp) : Certs Q { cs with blockPool := bp } := by
  obtain ⟨-, hcerts, -⟩ := BlockPool.insertBlock_blocks hbp
  refine ⟨?_, h.ledger⟩
  unfold BlockPool.getQCByID
  rw [hcerts]
  exact h.pool

lemma insertBlock (h : cs.Certs Q) (hcs : cs.insertBlock block = some cs') : cs'.Certs Q := by
  unfold ChainStore.insertBlock at hcs
  split_ifs at hcs
  · exact some.inj hcs ▸ h
  · obtain ⟨bp, hbp, rfl⟩ := map_eq_some_iff.mp hcs
    exact h.poolInsertBlock hbp

lemma pruneBlock (h : cs.Certs Q) {id : Bytes}
    (hbp : cs.blockPool.pruneBlock id = some bp) : Certs Q { cs with blockPool := bp } := by
  obtain ⟨-, -, -, hcerts⟩ := BlockPool.pruneBlock_blocks hbp
  exact ⟨fun id qc hqc => h.pool id qc (hcerts id qc hqc), h.ledger⟩

lemma commitLoop {last : Option (Block × ℕ)} {blocks : List Block} (h : cs.Certs Q) :
    (commitLoop sv cs last blocks).1.Certs Q := by
  induction blocks generalizing cs last with
  | nil => exact h
  | cons blk blocks ih =>
    unfold commitLoop
    cases hqc : cs.blockPool.getQCByID blk.header.blockHash with
    | none => exact h
    | some qc =>
      dsimp only
      split
      case h_1 ledger hadd =>
        obtain ⟨-, -, -, rfl, -⟩ := addBlock_added hadd
        refine ih ⟨h.pool, forall_mem_cons.mpr ⟨fun qc' hqc' => ?_, h.ledger⟩⟩
        obtain rfl := QCBytes.cert.inj (some.inj hqc')
        exact h.pool _ _ hqc
      case h_2 =>
        split
        · exact ih h
        · exact h
      case h_3 => exact h

lemma commitBlock (h : cs.Certs Q) {last : Option (Block × ℕ)}
    (hcs : cs.commitBlock sv block = some (cs', last)) : cs'.Certs Q := by
  unfold ChainStore.commitBlock at hcs
  split at hcs
  case h_1 =>
    cases hcs
    exact h
  case h_2 blocks hbranch =>
  have hloop : (ChainStore.commitLoop sv cs none blocks).1.Certs Q := h.commitLoop
  split at hcs
  case h_1 cs₁ last₁ heq =>
    rw [heq] at hloop
    cases hcs
    exact hloop
  case h_2 cs₁ last₁ heq =>
  rw [heq] at hloop
  obtain ⟨bp, hbp, hcs⟩ := map_eq_some_iff.mp hcs
  cases hcs
  exact hloop.pruneBlock hbp

lemma insertCompletedBlock (h : cs.Certs Q) {done : Bool} (hmem : block ∈ cs.ledger)
    (hcs : cs.insertCompletedBlock block = some (cs', done)) : cs'.Certs Q := by
  unfold ChainStore.insertCompletedBlock at hcs
  split at hcs
  · cases hcs
    exact h
  split at hcs
  case h_1 =>
    cases hcs
    exact h
  case h_2 cs₁ hupdate =>
  obtain ⟨hqc, hledger, hpool⟩ := updateCommitCacheInfo_some hupdate
  have h₁ : cs₁.Certs Q := ⟨hpool ▸ h.pool, hledger ▸ h.ledger⟩
  split at hcs
  case h_1 =>
    cases hcs
    exact h₁
  case h_2 bp hbp =>
  obtain ⟨bp', hprune, heq⟩ := map_eq_some_iff.mp hcs
  cases heq
  have h₂ := (h₁.poolInsertBlock hbp).poolInsertQC (h.ledger block hmem _ hqc)
  exact h₂.pruneBlock hprune

end Certs
end ChainStore

def Chain.At (C : Chain) (blockId : Option Bytes) (height level : ℕ) : Prop :=
  ∀ h ∈ blockId, (C.headerOf h).blockHeight = height ∧ C.level h = level

namespace Cluster
variable (c : Cluster)

structure Placed (i : NodeId) (n : ConsensusChainedBftImpl) : Prop where
  epoch_eq : n.paceMaker.epochId = c.governance.epochId
  created : ∀ v ∈ n.created, c.chain.At v.blockId v.height v.level
  lastVote : ∀ v si, n.safetyRules.lastVoteMsg = some (v, si) → v.message ∈ n.created
  certs : n.chainStore.Certs fun qc => c.chain.At qc.blockId qc.height qc.level
  held : n.msgPool.Collects c.governance.minQuorumForQc fun x id height level =>
    ∃ peer, (c.env i).getPeerByIndex x = some peer ∧
      (peer.nodeID ∈ c.honest → c.chain.At (some id) height level)

/-- What reaches the node is at the place of its block, as far as honest validators stand for it. -/
structure Admits (i : NodeId) (I : Inputs) : Prop where
  proposed : ∀ p, I.proposed p → c.chain.At (some p.block.header.blockHash) p.height p.level
  certified : ∀ qc, I.certified c.governance.epochId qc → c.chain.At qc.blockId qc.height qc.level
  received : ∀ v, I.received v → (c.env i).validateVoteData v = true ∧
    ∀ j ∈ c.honest, v.author = some j → c.chain.At v.blockId v.height v.level

variable {c} {i : NodeId} {n n' : ConsensusChainedBftImpl} {I : Inputs}

namespace Placed

lemma sendVote (h : c.Placed i n) {v : VoteData} (si : SyncInfo) (level : ℕ)
    (hv : c.chain.At v.blockId v.height v.level) : c.Placed i (n.sendVote (v, si) level) := by
  have hcreated : ∀ w ∈ v.message :: n.created, c.chain.At w.blockId w.height w.level :=
    forall_mem_cons.mpr ⟨hv, h.created⟩
  refine ⟨h.epoch_eq, hcreated, fun w si' hw => ?_, h.certs, h.held⟩
  unfold ConsensusChainedBftImpl.sendVote SafetyRules.setLastVote at hw
  split at hw
  · exact mem_cons_of_mem _ (h.lastVote w si' hw)
  cases hw
  exact mem_cons_self

lemma aggregateQC (h : c.Placed i n) {height level : ℕ} {blockId : Option Bytes} {newView : Bool}
    (hdone : n.msgPool.checkVotesDone height level = some (blockId, newView)) :
    c.chain.At blockId height level := by
  unfold MsgPool.checkVotesDone VotePool.checkVoteDone at hdone
  split at hdone
  · rename_i id hlocked
    cases hdone
    have hmin := h.held.locked height level id hlocked
    rw [h.held.min_eq] at hmin
    have hquorum := certified_of_indexes (c.env_governance i) (AList.keys_nodup _) hmin
      (P := fun _ => c.chain.At (some id) height level) (h.held.voters height level id)
    obtain ⟨-, -, hat⟩ := hquorum.exists_honest c.overlap
    exact hat
  · split_ifs at hdone
    cases hdone
    nofun

lemma change (h : c.Placed i n) (hI : c.Admits i I)
    (hc : Change (c.env i) I n n') : c.Placed i n' := by
  cases hc with
  | pace paceMaker state timers hepoch hlevel =>
    exact { h with epoch_eq := hepoch.trans h.epoch_eq }
  | rules sr hlevel hmsg => exact { h with lastVote := hmsg ▸ h.lastVote }
  | block hcs => exact { h with certs := h.certs.insertBlock hcs }
  | cert hqc hcs =>
    exact { h with certs := h.certs.insertQC (hI.certified _ (h.epoch_eq ▸ hqc)) hcs }
  | aggregate hdone hcs => exact { h with certs := h.certs.insertQC (h.aggregateQC hdone) hcs }
  | commit hcs => exact { h with certs := h.certs.commitBlock hcs }
  | complete hmem hcs => exact { h with certs := h.certs.insertCompletedBlock hmem hcs }
  | sealed commitHeight height =>
    obtain ⟨hmin, hpools⟩ := MsgPool.onBlockSealed_votes n.msgPool height
    exact { h with held := h.held.congr hmin hpools }
  | proposal hmp =>
    obtain ⟨hmin, hpools⟩ := MsgPool.insertProposal_votes hmp
    exact { h with held := h.held.congr hmin fun height level => .inl (hpools height level) }
  | vote hv hmp =>
    obtain ⟨hvalid, hbacked⟩ := hI.received _ hv
    obtain ⟨peer, hpeer, hauthor⟩ := Env.validateVoteData_peer hvalid
    refine { h with held := h.held.insertVote (fun id hid => ⟨peer, hpeer, fun hhonest => ?_⟩) hmp }
    exact hid ▸ hbacked _ hhonest hauthor
  | voteFor hp hlast => exact h.sendVote _ _ (hI.proposed _ hp)
  | timeout height level => exact h.sendVote _ _ nofun
  | retry hlast =>
    have hat := h.created _ (h.lastVote _ _ hlast)
    exact h.sendVote _ _ hat

lemma changes (h : c.Placed i n) (hI : c.Admits i I)
    (hc : Changes (c.env i) I n n') : c.Placed i n' := by
  induction hc with
  | refl => exact h
  | tail _ hc ih => exact ih.change hI hc

end Placed

def HonestAt (c : Cluster) (v : VoteData) : Prop :=
  ∀ j ∈ c.honest, v.author = some j → c.chain.At v.blockId v.height v.level

lemma at_of_verify {env : Env} {qc : QuorumCert} (henv : env.governance = c.governance)
    (hcounted : c.Counted qc) (hzero : qc.level = 0 → qc.height = 0)
    (hverify : env.verifyJustifyQC c.governance.epochId qc = true)
    (hbacked : ∀ v ∈ qc.votes, env.validateVoteData v = true → c.HonestAt v) :
    c.chain.At qc.blockId qc.height qc.level := by
  intro h hid
  have hblock : qc.newView = false := by
    simp only [Env.verifyJustifyQC, Bool.and_eq_true, decide_eq_true_eq] at hverify
    rw [hverify.1, hid]
    rfl
  rcases hcounted with htimeout | ⟨hroot, hlevel⟩ | ⟨hepoch, hlevel, hquorum⟩
  · rw [hblock] at htimeout
    cases htimeout
  · cases hid.symm.trans hroot
    rw [hlevel, hzero hlevel, c.chain.headerOf_genesis]
    exact ⟨c.chain.height_genesis, Chain.level_root⟩
  · have hcurrent : c.governance.epochId ≠ u64 (qc.epochId + 1) := hepoch ▸ ne_u64_succ _
    obtain ⟨idxs, hnodup, hmin, hidxs⟩ := indexes_of_verify hcurrent hlevel hverify
    have hsigned := certified_of_indexes henv hnodup ((Counted.le_min henv hquorum).trans hmin)
      (P := fun _ => (c.chain.headerOf h).blockHeight = qc.height ∧ c.chain.level h = qc.level)
      fun x hx => by
        obtain ⟨v, hv, rfl, hvalid, hheight, hlevel, hkind⟩ := hidxs x hx
        obtain ⟨peer, hpeer, hauthor⟩ := Env.validateVoteData_peer hvalid
        refine ⟨peer, hpeer, fun hhonest => ?_⟩
        rw [hblock, if_neg Bool.false_ne_true, hid] at hkind
        have hvid : v.blockId = some h := by
          cases hvid : v.blockId with
          | none => exact absurd (congrArg bytes hvid) hkind.1
          | some h' => exact congrArg some ((congrArg bytes hvid).symm.trans hkind.2)
        rw [← hheight, ← hlevel]
        exact hbacked v hv hvalid _ hhonest hauthor h hvid
    obtain ⟨-, -, hat⟩ := hsigned.exists_honest c.overlap
    exact hat

/-- What happens at a node: it handles an event, or its sync service commits a block. -/
inductive Arrival
  | handled (e : Delivery)
  | synced (node : NodeId) (services : Services) (block : Block)

/-- The certificate that a block is stored with. -/
def storedCert (block : Block) : Option QuorumCert :=
  (getQCFromBlock block).bind fun qcData => unmarshalQC (some qcData)

namespace Arrival

def node : Arrival → NodeId
  | handled e => e.node
  | synced node _ _ => node

def certs : Arrival → List QuorumCert
  | handled e => e.event.certs
  | synced _ _ block => (storedCert block).toList

def votes : Arrival → List VoteData
  | handled e => e.event.votes
  | synced _ _ block => (storedCert block).toList.flatMap (·.votes)

end Arrival

section
variable (c) (s : Network)

/-- The ledger takes a block from the sync service as it takes the node's own. The node learns of it
by a later `blockInfo`, and then puts the block and its certificate into the pool unchecked. -/
def arrive : Arrival → Option Network
  | .handled e => c.step s e
  | .synced node sv block =>
    match addBlock sv (s node).chainStore.ledger block with
    | .added ledger =>
      if node ∈ c.honest then
        some (Function.update s node { s node with chainStore.ledger := ledger })
      else none
    | .hadBeenCommitted | .failed => none

/-- Where the signature of a vote is valid and its signer belongs to an honest node, that node
created the vote. -/
def Unforged (a : Arrival) : Prop :=
  ∀ v ∈ a.votes, (c.env a.node).validateVoteData v = true →
    ∀ signer ∈ v.signature.bind (·.signer), c.nodeOf signer ∈ c.honest →
      v.message ∈ (s (c.nodeOf signer)).created

instance (a : Arrival) : Decidable (c.Unforged s a) :=
  inferInstanceAs (Decidable (∀ v ∈ _, _ → ∀ signer ∈ Option.bind _ _, _))

def Authored (a : Arrival) : Prop :=
  ∀ v ∈ a.votes, (c.env a.node).validateVoteData v = true →
    (v.signature.bind (·.signer)).map c.nodeOf = v.author

instance (a : Arrival) : Decidable (c.Authored a) :=
  inferInstanceAs (Decidable (∀ v ∈ _, _ → _))

def Hashes : Arrival → Prop
  | .handled ⟨_, sv, .consensusMsg ⟨.proposalMsg p _, _⟩⟩ =>
    sv.verifyBlock p.block = .ok → c.chain.WellHashed p.block
  | _ => True

instance : ∀ a, Decidable (c.Hashes a)
  | .handled ⟨_, _, .consensusMsg ⟨.proposalMsg _ _, _⟩⟩ => inferInstanceAs (Decidable (_ → _))
  | .handled ⟨_, _, .consensusMsg ⟨.voteMsg _ _, _⟩⟩
  | .handled ⟨_, _, .consensusMsg ⟨.blockFetchRespMsg _ _, _⟩⟩
  | .handled ⟨_, _, .firedEvent _⟩ | .handled ⟨_, _, .blockInfo _⟩ | .synced .. => .isTrue trivial

/-- What no check of the source covers: that an accepted proposal has its block's height and level,
and that the certificate of a synchronised block would be accepted from a peer. -/
def PlacesBlock : Arrival → Prop
  | .handled ⟨i, sv, .consensusMsg ⟨.proposalMsg p si, sign⟩⟩ =>
    (s i).checkProposal (c.env i) sv ⟨.proposalMsg p si, sign⟩ p si = true →
      p.block.header.blockHeight = p.height ∧ getLevelFromBlock p.block = some p.level
  | .handled _ => True
  | .synced i _ block =>
    ∀ qc ∈ storedCert block, (c.env i).verifyJustifyQC c.governance.epochId qc = true

instance : ∀ a, Decidable (c.PlacesBlock s a)
  | .handled ⟨_, _, .consensusMsg ⟨.proposalMsg _ _, _⟩⟩ => inferInstanceAs (Decidable (_ → _))
  | .handled ⟨_, _, .consensusMsg ⟨.voteMsg _ _, _⟩⟩
  | .handled ⟨_, _, .consensusMsg ⟨.blockFetchRespMsg _ _, _⟩⟩
  | .handled ⟨_, _, .firedEvent _⟩ | .handled ⟨_, _, .blockInfo _⟩ => .isTrue trivial
  | .synced _ _ block => inferInstanceAs (Decidable (∀ qc ∈ storedCert block, _))

@[mk_iff]
structure Places (a : Arrival) : Prop where
  authored : c.Authored a
  block : c.PlacesBlock s a
  certs : ∀ qc ∈ a.certs, (c.env a.node).verifyJustifyQC c.governance.epochId qc = true →
    c.Counted qc ∧ (qc.level = 0 → qc.height = 0)

instance (a : Arrival) : Decidable (c.Places s a) :=
  decidable_of_iff' _ (c.places_iff s a)

end

variable {s s' : Network} {a : Arrival}

lemma honestAt_of_authored (hs : ∀ i ∈ c.honest, c.Placed i (s i)) (hu : c.Unforged s a)
    (hauthored : c.Authored a) :
    ∀ v ∈ a.votes, (c.env a.node).validateVoteData v = true → c.HonestAt v := by
  intro v hv hvalid j hj hauthor
  have hsigner := (hauthored v hv hvalid).trans hauthor
  obtain ⟨signer, hsome, rfl⟩ := map_eq_some_iff.mp hsigner
  have hat := (hs _ hj).created _ (hu v hv hvalid signer hsome hj)
  exact hat

lemma votes_of_certs {qc : QuorumCert} (hqc : qc ∈ a.certs) : ∀ v ∈ qc.votes, v ∈ a.votes := by
  intro v hv
  match a, hqc with
  | .handled ⟨_, _, .consensusMsg ⟨.proposalMsg p si, sign⟩⟩, hqc =>
    obtain rfl := List.mem_singleton.mp hqc
    exact hv
  | .handled ⟨_, _, .consensusMsg ⟨.voteMsg w si, sign⟩⟩, hqc =>
    obtain rfl := List.mem_singleton.mp hqc
    exact mem_cons_of_mem _ hv
  | .handled ⟨_, _, .consensusMsg ⟨.blockFetchRespMsg authorIdx blocks, sign⟩⟩, hqc =>
    obtain ⟨pair, hpair, rfl⟩ := mem_map.mp hqc
    exact mem_flatMap.mpr ⟨pair, hpair, hv⟩
  | .synced _ _ block, hqc => exact mem_flatMap.mpr ⟨qc, hqc, hv⟩

section
variable (hs : ∀ i ∈ c.honest, c.Placed i (s i)) (hu : c.Unforged s a) (hplaces : c.Places s a)
include hs hu hplaces

lemma at_of_certs {qc : QuorumCert} (hqc : qc ∈ a.certs)
    (hverify : (c.env a.node).verifyJustifyQC c.governance.epochId qc = true) :
    c.chain.At qc.blockId qc.height qc.level := by
  obtain ⟨hcounted, hzero⟩ := hplaces.certs qc hqc hverify
  exact at_of_verify (c.env_governance _) hcounted hzero hverify fun v hv =>
    honestAt_of_authored hs hu hplaces.authored v (votes_of_certs hqc v hv)

lemma admits_inputs {e : Delivery} (ha : a = .handled e) (hhash : c.Hashes a) :
    c.Admits e.node (e.event.inputs (c.env e.node) e.services (s e.node)) := by
  subst ha
  have hbacked := honestAt_of_authored hs hu hplaces.authored
  have hblock := hplaces.block
  obtain ⟨node, sv, ev⟩ := e
  cases ev with
  | consensusMsg msg =>
    refine ⟨fun p hp => ?_, fun qc hqc => at_of_certs hs hu hplaces hqc.1 hqc.2, fun v hv => ?_⟩
    · obtain ⟨si, hpayload, hcheck⟩ := hp
      obtain ⟨payload, sign⟩ := msg
      subst hpayload
      obtain ⟨hheight, hlevel⟩ := hblock hcheck
      have hwell := hhash (checkProposal_verified hcheck).2.2
      rintro h ⟨⟩
      exact ⟨hwell.2 ▸ hheight, (hwell.level_eq hlevel).symm⟩
    · obtain ⟨⟨w, si, hpayload, rfl⟩, hvalid⟩ := hv
      refine ⟨hvalid, hbacked _ ?_ hvalid⟩
      obtain ⟨payload, sign⟩ := msg
      subst hpayload
      exact mem_cons_self
  | firedEvent | blockInfo => exact ⟨nofun, nofun, nofun⟩

lemma placed_arrive (hhash : c.Hashes a) (h : c.arrive s a = some s') :
    ∀ i ∈ c.honest, c.Placed i (s' i) := by
  have hupdate {i : NodeId} {n : ConsensusChainedBftImpl} (hi : i ∈ c.honest)
      (hn : c.Placed i (s i) → c.Placed i n) :
      ∀ j ∈ c.honest, c.Placed j (Function.update s i n j) := by
    intro j hj
    by_cases hji : j = i
    · subst hji
      rw [Function.update_self]
      exact hn (hs j hj)
    · rw [Function.update_of_ne hji]
      exact hs j hj
  cases a with
  | handled e =>
    obtain ⟨hhonest, n, hn, rfl⟩ := step_cases h
    exact hupdate hhonest fun hplaced =>
      hplaced.changes (admits_inputs hs hu hplaces rfl hhash) (handle_changes hn)
  | synced i sv block =>
    dsimp only [arrive] at h
    split at h
    case h_1 ledger hadd =>
      obtain ⟨hhonest, h⟩ := ite_none_right_eq_some.mp h
      cases h
      obtain ⟨-, -, -, rfl, -⟩ := addBlock_added hadd
      refine hupdate hhonest fun hplaced => { hplaced with
        certs := ⟨hplaced.certs.pool,
          forall_mem_cons.mpr ⟨fun qc hqc => ?_, hplaced.certs.ledger⟩⟩ }
      have hstored : qc ∈ storedCert block := by
        rw [storedCert, hqc]
        rfl
      exact at_of_certs hs hu hplaces (mem_toList.mpr hstored) (hplaces.block qc hstored)
    case h_2 | h_3 => cases h

end

lemma at_genesisQC : c.chain.At (genesisQC c.chain.genesis).blockId
    (genesisQC c.chain.genesis).height (genesisQC c.chain.genesis).level := by
  rintro h ⟨⟩
  rw [c.chain.headerOf_genesis]
  exact ⟨c.chain.height_genesis, Chain.level_root⟩

lemma placed_start (c : Cluster) (i : NodeId) : c.Placed i (c.start i) := by
  have hnew : c.Placed i (newConsensus (c.env i) i c.chain.genesis) := by
    refine ⟨congrArg (·.epochId) (c.env_governance i), fun v hv => absurd hv not_mem_nil,
      fun v si hv => absurd hv.symm (some_ne_none (v, si)), ⟨fun id qc hqc => ?_, ?_⟩,
      ⟨congrArg (·.minQuorumForQc) (c.env_governance i), nofun, nofun⟩⟩
    · obtain ⟨-, rfl⟩ := GoMap.lookup_singleton hqc
      exact at_genesisQC
    · refine forall_mem_singleton.mpr fun qc hqc => ?_
      have hsome := getQCFromBlock_addQCtoBlock c.chain.genesis (.cert (genesisQC c.chain.genesis))
      obtain rfl := QCBytes.cert.inj (mem_unique hsome hqc)
      exact at_genesisQC
  have hnone : c.Admits i ⟨fun _ => False, fun _ _ => False, fun _ => False⟩ :=
    ⟨nofun, nofun, nofun⟩
  unfold start ChainedBft.start
  dsimp only
  cases hstart : (newConsensus (c.env i) i c.chain.genesis).processCertificates (c.env i)
      (some (genesisQC c.chain.genesis)) none with
  | none => exact hnew
  | some n =>
    exact hnew.changes hnone ((processCertificates_changes hstart).trans proposeIfLeader_changes)

theorem certified_coordinates (c : Cluster) (as : List Arrival) (s : Network)
    (hP : Runs.Meets c.arrive (fun s a => (c.Unforged s a ∧ c.Hashes a) ∧ c.Places s a) c.start as)
    (hrun : Runs.run c.arrive c.start as = some s) :
    ∀ i ∈ c.honest, (∀ v ∈ (s i).created, c.chain.At v.blockId v.height v.level) ∧
      ∀ id qc, (s i).chainStore.blockPool.getQCByID id = some qc →
        c.chain.At qc.blockId qc.height qc.level := by
  have hplaced : ∀ i ∈ c.honest, c.Placed i (s i) := by
    refine Runs.run_induction (I := fun s : Network => ∀ i ∈ c.honest, c.Placed i (s i))
      (fun s a s' hs hP h => ?_) (fun i _ => placed_start c i) hP hrun
    exact placed_arrive hs hP.1.1 hP.2 hP.1.2 h
  exact fun i hi => ⟨(hplaced i hi).created, (hplaced i hi).certs.pool⟩

def straightCluster : Cluster := fourCluster (chainOf straight (by decide))

/-- Node 2 takes the first block from its sync service. -/
def commitAll : List Arrival :=
  commitBoth.map .handled ++
    [.synced [2] agreeable
        (addQCtoBlock (blockAt [1] [0] 1 1) (.cert (certOf (blockAt [1] [0] 1 1)))),
      .handled ⟨[2], agreeable, .blockInfo 1⟩]

theorem certified_coordinates_commitAll :
    ∃ s, Runs.run straightCluster.arrive straightCluster.start commitAll = some s ∧
      (s [0]).created ≠ [] ∧
      (∀ v ∈ (s [0]).created, straightCluster.chain.At v.blockId v.height v.level) ∧
      (s [2]).chainStore.blockPool.getQCByID [1] = some (certOf (blockAt [1] [0] 1 1)) ∧
      straightCluster.chain.At (some [1]) 1 1 := by
  obtain ⟨s, hrun, hcreated, hcert⟩ : ∃ s,
      Runs.run straightCluster.arrive straightCluster.start commitAll = some s ∧
      (s [0]).created ≠ [] ∧
      (s [2]).chainStore.blockPool.getQCByID [1] = some (certOf (blockAt [1] [0] 1 1)) :=
    ⟨_, eq_some_of_isSome (by decide +kernel), by decide +kernel⟩
  have hplaced := certified_coordinates straightCluster commitAll s (by decide +kernel) hrun
  exact ⟨s, hrun, hcreated, (hplaced [0] (by decide)).1, hcert,
    (hplaced [2] (by decide)).2 [1] _ hcert⟩

def misplaced (node : NodeId) : Arrival :=
  .handled ⟨node, agreeable, .consensusMsg ⟨.proposalMsg
    ⟨3, 9, 0, blockAt [1] [0] 1 5, [3], 3, genesisQC genesisBlock⟩ ⟨genesisQC genesisBlock, none⟩,
    some ⟨some ⟨[], [3]⟩, []⟩⟩⟩

def misplacedCert : QuorumCert :=
  ⟨some [1], 9, 3, 0, false, ([0, 1, 3] : List UInt8).map fun i =>
    ⟨some [1], 9, 3, some [i], i.toNat, false, 0, some ⟨some ⟨[], [i]⟩, []⟩⟩⟩

def misplacedRun : List Arrival :=
  [misplaced [0], misplaced [1], .handled (proposeTo [0] (blockAt [2] [1] 2 7) misplacedCert)]

/-- A certificate without votes, which is not above level 0. -/
def uncounted : QuorumCert := ⟨some [1], 9, 0, 0, false, []⟩

def syncedRun : List Arrival :=
  [.synced [0] agreeable (addQCtoBlock (blockAt [1] [0] 1 5) (.cert uncounted)),
    .handled ⟨[0], agreeable, .blockInfo 1⟩]

def misplacedCluster : Cluster :=
  fourCluster (chainOf [blockAt [1] [0] 1 5, blockAt [2] [1] 2 7] (by decide))

/-- Nodes 0 and 1 vote for the block at the place that is not its own, and node 0 takes over the
certificate; and with a block from the sync service a node takes over any certificate. -/
theorem not_certified_coordinates :
    (∀ run ∈ [misplacedRun, syncedRun], Runs.Meets misplacedCluster.arrive
        (fun s a => misplacedCluster.Unforged s a ∧ misplacedCluster.Hashes a ∧
          misplacedCluster.Authored a) misplacedCluster.start run) ∧
      (∃ s, Runs.run misplacedCluster.arrive misplacedCluster.start misplacedRun = some s ∧
        (∃ v ∈ (s [0]).created, v.newView = false ∧
          ¬misplacedCluster.chain.At v.blockId v.height v.level) ∧
        ∃ qc, (s [0]).chainStore.blockPool.getQCByID [1] = some qc ∧ qc.newView = false ∧
          ¬misplacedCluster.chain.At qc.blockId qc.height qc.level) ∧
      ∃ s, Runs.run misplacedCluster.arrive misplacedCluster.start syncedRun = some s ∧
        ∃ qc, (s [0]).chainStore.blockPool.getQCByID [1] = some qc ∧ qc.newView = false ∧
          ¬misplacedCluster.chain.At qc.blockId qc.height qc.level := by
  have hwrong (level : ℕ) : ¬misplacedCluster.chain.At (some [1]) 9 level := fun hat =>
    absurd (hat [1] rfl).1 (by decide)
  exact ⟨by decide +kernel, ⟨_, eq_some_of_isSome (by decide +kernel),
    ⟨⟨some [1], 9, 3, some [0], 0, false, 0, none⟩, by decide +kernel, rfl, hwrong 3⟩,
    misplacedCert, by decide +kernel, rfl, hwrong 3⟩, _, eq_some_of_isSome (by decide +kernel),
    uncounted, by decide +kernel, rfl, hwrong 0⟩

end Cluster
end ChainMaker.ChainedBft
