import ChainMaker.ChainedBft.Handlers

/-! The honest nodes of a chain, each handling events in any order, and agreement on what they
commit. The network and the Byzantine validators appear only through the messages that are
delivered. -/

namespace ChainMaker.ChainedBft
open Option List Finset ConsensusChainedBftImpl

def ConsensusMsg.votes (msg : ConsensusMsg) : List VoteData :=
  match msg.payload with
  | .proposalMsg p _ => p.justifyQc.votes
  | .voteMsg v si => receivedVote msg v :: si.highestQc.votes
  | .blockFetchRespMsg _ blocks => blocks.flatMap (·.qc.votes)

def Event.votes : Event → List VoteData
  | .consensusMsg msg => msg.votes
  | _ => []

abbrev Network := NodeId → ConsensusChainedBftImpl

structure Delivery where
  node : NodeId
  services : Services
  event : Event

namespace Cluster
variable (c : Cluster) {n m : ConsensusChainedBftImpl} {ledger : List Block} {a b : Block}

def start : Network := fun i => ChainedBft.start (c.env i) i c.chain.genesis

def step (s : Network) (e : Delivery) : Option Network :=
  if e.node ∈ c.honest then
    ((s e.node).handle (c.env e.node) e.services e.event).map (Function.update s e.node)
  else none

/-- Where the signature of a vote is valid and its signer belongs to an honest node, that node
created the vote. -/
def Unforgeable (s : Network) (e : Delivery) : Prop :=
  ∀ v ∈ e.event.votes, (c.env e.node).validateVoteData v = true →
    ∀ signer ∈ v.signature.bind (·.signer), c.nodeOf signer ∈ c.honest →
      v.message ∈ (s (c.nodeOf signer)).created

instance (s : Network) (e : Delivery) : Decidable (c.Unforgeable s e) :=
  inferInstanceAs (Decidable (∀ v ∈ _, _ → ∀ signer ∈ Option.bind _ _, _))

def SignedByAuthor (e : Delivery) : Prop :=
  ∀ v ∈ e.event.votes, (c.env e.node).validateVoteData v = true →
    (v.signature.bind (·.signer)).map c.nodeOf = v.author

instance (e : Delivery) : Decidable (c.SignedByAuthor e) :=
  inferInstanceAs (Decidable (∀ v ∈ _, _ → _))

def Fit (n : ConsensusChainedBftImpl) (env : Env) (sv : Services) : Event → Prop
  | .consensusMsg ⟨.proposalMsg p si, sign⟩ =>
      n.checkProposal env sv ⟨.proposalMsg p si, sign⟩ p si = true → c.fitProposal sv n p = true
  | .consensusMsg ⟨.voteMsg _ si, _⟩ =>
      env.verifyJustifyQC c.governance.epochId si.highestQc = true → c.Counted si.highestQc
  | .consensusMsg ⟨.blockFetchRespMsg _ blocks, _⟩ =>
      Runs.Meets (processPair env sv) (c.fitPair env sv) (n, [])
        (sortPairs blocks)
  | .firedEvent _ => True
  | .blockInfo _ => True

instance (n : ConsensusChainedBftImpl) (env : Env) (sv : Services) :
    ∀ e, Decidable (c.Fit n env sv e)
  | .consensusMsg ⟨.proposalMsg _ _, _⟩ => inferInstanceAs (Decidable (_ → _))
  | .consensusMsg ⟨.voteMsg _ _, _⟩ => inferInstanceAs (Decidable (_ → _))
  | .consensusMsg ⟨.blockFetchRespMsg _ _, _⟩ => inferInstanceAs (Decidable (Runs.Meets _ _ _ _))
  | .firedEvent _ | .blockInfo _ => .isTrue trivial

def Disciplined (s : Network) (e : Delivery) : Prop :=
  c.SignedByAuthor e ∧ c.Fit (s e.node) (c.env e.node) e.services e.event

instance (s : Network) (e : Delivery) : Decidable (c.Disciplined s e) :=
  inferInstanceAs (Decidable (_ ∧ _))

/-- The committed blocks of honest nodes lie on one branch, and at one height they are one block. -/
def Agreement (s : Network) : Prop :=
  ∀ i ∈ c.honest, ∀ j ∈ c.honest, ∀ a ∈ (s i).chainStore.ledger, ∀ b ∈ (s j).chainStore.ledger,
    (c.chain.tree.Anc a.header.blockHash b.header.blockHash ∨
      c.chain.tree.Anc b.header.blockHash a.header.blockHash) ∧
    (a.header.blockHeight = b.header.blockHeight → a.header.blockHash = b.header.blockHash)

variable {c} {s s' : Network} {e : Delivery} {log : Log} {i : NodeId}
  {n n' : ConsensusChainedBftImpl} {j : NodeId} {C : Chain} {b : Block}

lemma step_cases (h : c.step s e = some s') : e.node ∈ c.honest ∧
    ∃ n, (s e.node).handle (c.env e.node) e.services e.event = some n ∧
      s' = Function.update s e.node n := by
  unfold step at h
  split at h
  case isTrue hi =>
    obtain ⟨n, hn, rfl⟩ := map_eq_some_iff.mp h
    exact ⟨hi, n, hn, rfl⟩
  case isFalse => cases h

lemma good_genesisQC (c : Cluster) (log : Log) : c.Good log (genesisQC c.chain.genesis) :=
  ⟨nofun, fun _ => ⟨.inl rfl, Chain.level_root.symm⟩⟩

lemma sound_newConsensus (c : Cluster) (i : NodeId) :
    c.Sound [] 0 (newConsensus (c.env i) i c.chain.genesis).chainStore where
  blocks := fun id b hb => by
    obtain ⟨node, hnode, rfl⟩ := map_eq_some_iff.mp hb
    obtain ⟨rfl, rfl⟩ := GoMap.lookup_singleton hnode
    exact ⟨Chain.wellHashed_genesis, rfl⟩
  certs := fun id qc hqc => by
    obtain ⟨rfl, rfl⟩ := GoMap.lookup_singleton hqc
    exact ⟨good_genesisQC c [], rfl⟩
  highest := good_genesisQC c []
  root_ne := c.chain.hash_genesis
  root_le := Chain.level_root.le
  ledger := .genesis rfl
  committed := fun b hb => by
    obtain rfl := List.mem_singleton.mp hb
    refine ⟨Chain.wellHashed_genesis, .inl rfl, Chain.level_root.le, fun qc hqc => ?_⟩
    have hsome := getQCFromBlock_addQCtoBlock c.chain.genesis (.cert (genesisQC c.chain.genesis))
    obtain rfl := QCBytes.cert.inj (mem_unique hsome hqc)
    exact ⟨good_genesisQC c [], rfl⟩

lemma rest_start (c : Cluster) (i : NodeId) : c.Rest [] i (c.start i) := by
  have hnew : c.Rest [] i (newConsensus (c.env i) i c.chain.genesis) := by
    refine ⟨rfl, congrArg (·.epochId) (c.env_governance i), sound_newConsensus c i,
      ⟨.inl rfl, Chain.level_root⟩, fun v hv => absurd hv not_mem_nil,
      fun h hmem => absurd hmem not_mem_nil,
      fun v si hv => absurd hv.symm (some_ne_none (v, si)), ?_⟩
    exact ⟨congrArg (·.minQuorumForQc) (c.env_governance i), nofun, nofun⟩
  unfold start ChainedBft.start
  dsimp only
  cases hstart : (newConsensus (c.env i) i c.chain.genesis).processCertificates (c.env i)
      (some (genesisQC c.chain.genesis)) none with
  | none => exact hnew
  | some n => exact (hnew.processCertificates hstart).proposeIfLeader

lemma Rest.handle (h : c.Rest log i n) (hl : c.Lawful log) {sv : Services} {ev : Event}
    (hfit : c.Fit n (c.env i) sv ev)
    (hbacked : ∀ v ∈ ev.votes, (c.env i).validateVoteData v = true → c.Backed log v)
    (hn : n.handle (c.env i) sv ev = some n') : c.Steps log i n' := by
  have henv := c.env_governance i
  match ev, hfit, hbacked, hn with
  | .consensusMsg ⟨.proposalMsg p si, sign⟩, hfit, hbacked, hn =>
    exact h.processProposal hl henv hfit hbacked hn
  | .consensusMsg ⟨.voteMsg v si, sign⟩, hfit, hbacked, hn =>
    simp only [ConsensusChainedBftImpl.handle, ConsensusChainedBftImpl.onConsensusMsg] at hn
    split at hn
    · exact (h.processVote hfit hbacked hn).steps hl
    · exact some.inj hn ▸ h.steps hl
  | .consensusMsg ⟨.blockFetchRespMsg authorIdx blocks, sign⟩, hfit, hbacked, hn =>
    refine (h.processFetchResp hl henv hfit (fun pair hpair v hv => ?_) hn).steps hl
    exact hbacked v (mem_flatMap.mpr ⟨pair, hpair, hv⟩)
  | .firedEvent te, _, _, hn => exact (h.onFiredEvent hn).steps hl
  | .blockInfo height, _, _, hn =>
    obtain ⟨block, hblock, hn⟩ := bind_eq_some_iff.mp hn
    exact (h.processBlockCommitted (mem_of_find?_eq_some hblock) hn).steps hl

/-- The honest nodes have voted by the rule of chained voting, and each is in accord with the votes
of all. -/
def Inv (c : Cluster) (s : Network) : Prop :=
  ∃ log, c.Lawful log ∧ ∀ i ∈ c.honest, c.Rest log i (s i)

lemma backed_of_signed (hrest : ∀ i ∈ c.honest, c.Rest log i (s i)) (hu : c.Unforgeable s e)
    (hsigned : c.SignedByAuthor e) :
    ∀ v ∈ e.event.votes, (c.env e.node).validateVoteData v = true → c.Backed log v := by
  intro v hv hvalid j hj hauthor h hid
  have hsigner := (hsigned v hv hvalid).trans hauthor
  obtain ⟨signer, hsome, rfl⟩ := map_eq_some_iff.mp hsigner
  exact (hrest _ hj).created _ (hu v hv hvalid signer hsome hj) h hid

lemma Inv.step (hi : c.Inv s) (hu : c.Unforgeable s e) (hd : c.Disciplined s e)
    (h : c.step s e = some s') : c.Inv s' := by
  obtain ⟨log, hl, hrest⟩ := hi
  obtain ⟨hhonest, n, hn, rfl⟩ := step_cases h
  obtain ⟨log', hlog, hl', hn'⟩ :=
    (hrest _ hhonest).handle hl hd.2 (backed_of_signed hrest hu hd.1) hn
  refine ⟨log', hl', fun j hj => ?_⟩
  by_cases hje : j = e.node
  · subst hje
    rw [Function.update_self]
    exact hn'
  -- The other nodes have not changed, and the new vote is not theirs.
  rw [Function.update_of_ne hje]
  have hmem : ∀ h, (j, h) ∈ log' → (j, h) ∈ log := by
    intro h hh
    rcases hlog with rfl | ⟨b, rfl⟩
    · exact hh
    rcases mem_cons.mp hh with heq | hold
    · exact absurd (Prod.mk.inj heq).1 hje
    · exact hold
  have hsub : log ⊆ log' := by
    rcases hlog with rfl | ⟨b, rfl⟩
    · exact Subset.refl _
    · exact subset_cons_self _ _
  have hj := hrest j hj
  refine Sane.extend hj hsub hj.locked (fun v hv b hb => ?_) (fun b hb => hj.voted b (hmem b hb))
    hj.lastVote
  exact ⟨hsub (hj.created v hv b hb).1, (hj.created v hv b hb).2⟩

lemma ledger_anc (hledger : C.Ledger ledger)
    (hwell : ∀ b ∈ ledger, C.WellHashed b) {x y : Bytes} (hanc : C.tree.Anc x y)
    (hb : b ∈ ledger) (hy : b.header.blockHash = y) :
    ∃ a ∈ ledger, a.header.blockHash = x ∧ (a.header.blockHeight < b.header.blockHeight ∨
      x = y) := by
  induction hanc generalizing b with
  | refl => exact ⟨b, hb, hy, .inr rfl⟩
  | @child z hne _ ih =>
    have hnext : ∃ a ∈ ledger, a.header.blockHash = b.header.preBlockHash ∧
        b.header.blockHeight = a.header.blockHeight + 1 := by
      clear ih hwell
      induction hledger with
      | genesis hroot =>
        rw [List.mem_singleton.mp hb] at hy
        exact absurd (hy.symm.trans hroot) hne
      | cons hheight hpre _ ih =>
        rcases mem_cons.mp hb with rfl | hrest
        · exact ⟨_, mem_cons_of_mem _ mem_cons_self, hpre.symm, hheight⟩
        · obtain ⟨a, ha, hrest⟩ := ih hrest
          exact ⟨a, mem_cons_of_mem _ ha, hrest⟩
    obtain ⟨a, ha, hhash, hheight⟩ := hnext
    have hparent : a.header.blockHash = C.tree.parent z := by
      rw [hhash, ← hy, (hwell b hb).parent_eq]
    obtain ⟨a', ha', hx, hlow⟩ := ih ha hparent
    refine ⟨a', ha', hx, .inl ?_⟩
    rcases hlow with hlt | rfl
    · omega
    have hsame : a'.header = a.header := by
      rw [(hwell a' ha').2, hx, ← hparent, ← (hwell a ha).2]
    rw [hsame]
    omega

lemma ledger_root (hledger : C.Ledger ledger) (hwell : ∀ b ∈ ledger, C.WellHashed b)
    (hb : b ∈ ledger) : C.tree.Anc C.root b.header.blockHash := by
  induction hledger generalizing b with
  | genesis hroot =>
    rw [List.mem_singleton.mp hb, hroot]
    exact .refl
  | @cons b' a rest hheight hpre hrest ih =>
    have hwell' : ∀ b ∈ a :: rest, C.WellHashed b := fun b hb =>
      hwell b (mem_cons_of_mem _ hb)
    rcases mem_cons.mp hb with rfl | hold
    · have hwellb := hwell b mem_cons_self
      refine .child (fun hroot => ?_) ?_
      · exact absurd (hwellb.height_root hroot) (by omega)
      · rw [hwellb.parent_eq, hpre]
        exact ih hwell' mem_cons_self
    · exact ih hwell' hold

lemma Rest.comparable (hl : c.Lawful log)
    (hn : c.Rest log i n) (hm : c.Rest log j m) (ha : a ∈ n.chainStore.ledger)
    (hb : b ∈ m.chainStore.ledger) : c.chain.tree.Anc a.header.blockHash b.header.blockHash ∨
      c.chain.tree.Anc b.header.blockHash a.header.blockHash := by
  rcases (hn.sound.committed a ha).final with haroot | ⟨g, hg, hag⟩
  · rw [haroot]
    exact .inl (ledger_root hm.sound.ledger (fun b hb => (hm.sound.committed b hb).wellHashed) hb)
  rcases (hm.sound.committed b hb).final with hbroot | ⟨g', hg', hbg⟩
  · rw [hbroot]
    exact .inr (ledger_root hn.sound.ledger (fun a ha => (hn.sound.committed a ha).wellHashed) ha)
  · rcases hl.final_comparable c.overlap hg hg' with hgg | hgg
    · exact (hag.trans hgg).comparable hbg
    · exact hag.comparable (hbg.trans hgg)

lemma Rest.hash_eq_of_anc (hn : c.Rest log i n) (hm : c.Rest log j m) (ha : a ∈ n.chainStore.ledger)
    (hb : b ∈ m.chainStore.ledger) (hanc : c.chain.tree.Anc a.header.blockHash b.header.blockHash)
    (hheight : a.header.blockHeight = b.header.blockHeight) :
    a.header.blockHash = b.header.blockHash := by
  have hwell : ∀ b ∈ m.chainStore.ledger, c.chain.WellHashed b := fun b hb =>
    (hm.sound.committed b hb).wellHashed
  obtain ⟨a', ha', hhash, hlow⟩ := ledger_anc hm.sound.ledger hwell hanc hb rfl
  rcases hlow with hlt | heq
  · have hsame : a'.header = a.header := by
      rw [(hwell a' ha').2, hhash, ← (hn.sound.committed a ha).wellHashed.2]
    rw [hsame] at hlt
    omega
  · exact heq

lemma Inv.agreement (hi : c.Inv s) : c.Agreement s := by
  obtain ⟨log, hl, hrest⟩ := hi
  intro i hi j hj a ha b hb
  have hcomp := (hrest i hi).comparable hl (hrest j hj) ha hb
  refine ⟨hcomp, fun hheight => ?_⟩
  rcases hcomp with hanc | hanc
  · exact (hrest i hi).hash_eq_of_anc (hrest j hj) ha hb hanc hheight
  · exact ((hrest j hj).hash_eq_of_anc (hrest i hi) hb ha hanc hheight.symm).symm

theorem chained_agreement (c : Cluster) (es : List Delivery) (s : Network)
    (hP : Runs.Meets c.step (fun s e => c.Unforgeable s e ∧ c.Disciplined s e) c.start es)
    (hrun : Runs.run c.step c.start es = some s) : c.Agreement s := by
  have hinv : c.Inv s :=
    Runs.run_induction (fun s e s' hi hP h => Inv.step hi hP.1 hP.2 h)
      ⟨[], trivial, fun i _ => rest_start c i⟩ hP hrun
  exact hinv.agreement

def blockAt (hash pre : Bytes) (height level : ℕ) : Block :=
  ⟨⟨height, hash, pre, .args ⟨level, []⟩⟩, [], none⟩

def genesisBlock : Block := ⟨⟨0, [0], [], .missing⟩, [], none⟩

def chainOf (blocks : List Block) (hne : ∀ b ∈ blocks, b.header.blockHash ≠ [0]) : Chain where
  genesis := genesisBlock
  headerOf := fun h =>
    ((blocks.find? (·.header.blockHash = h)).getD (initGenesisBlock genesisBlock)).header
  height_genesis := rfl
  pre_genesis := rfl
  hash_genesis := by decide
  headerOf_genesis := by
    have hnone : blocks.find? (·.header.blockHash = genesisBlock.header.blockHash) = none :=
      find?_eq_none.mpr fun b hb heq => hne b hb (of_decide_eq_true heq)
    rw [hnone]
    rfl

def fourEnv (i : NodeId) : Env where
  governance := { fourContract with epochId := 0 }
  ac := ⟨1, fun _ _ _ => true, fun _ => some .consensusNode⟩
  member := ⟨[], i⟩
  sign := fun _ => []

def fourCluster (chain : Chain) : Cluster where
  chain := chain
  governance := { fourContract with epochId := 0 }
  inv := by constructor <;> decide
  f := 1
  size_eq := rfl
  honest := {[0], [1], [2]}
  faulty_le := by decide
  env := fourEnv
  env_governance := fun _ => rfl
  nodeOf := (·.memberInfo)

def certOf (b : Block) : QuorumCert :=
  let level := (getLevelFromBlock b).getD 0
  let height := b.header.blockHeight
  ⟨some b.header.blockHash, height, level, 0, false, ([0, 1, 3] : List UInt8).map fun i =>
    ⟨some b.header.blockHash, height, level, some [i], i.toNat, false, 0,
      some ⟨some ⟨[], [i]⟩, []⟩⟩⟩

def agreeable : Services := ⟨fun _ => .ok, fun _ => true, fun _ => some []⟩

def proposeTo (node : NodeId) (b : Block) (justify : QuorumCert) : Delivery :=
  let level := (getLevelFromBlock b).getD 0
  ⟨node, agreeable, .consensusMsg ⟨.proposalMsg
    ⟨level, b.header.blockHeight, 0, b, [3], level % 4, justify⟩ ⟨justify, none⟩,
    some ⟨some ⟨[], [3]⟩, []⟩⟩⟩

def proposeToBoth (b : Block) (justify : QuorumCert) : List Delivery :=
  [proposeTo [0] b justify, proposeTo [1] b justify]

def straight : List Block :=
  [blockAt [1] [0] 1 1, blockAt [2] [1] 2 2, blockAt [3] [2] 3 3, blockAt [4] [3] 4 4]

def commitBoth : List Delivery :=
  proposeToBoth (blockAt [1] [0] 1 1) (genesisQC genesisBlock) ++
    proposeToBoth (blockAt [2] [1] 2 2) (certOf (blockAt [1] [0] 1 1)) ++
    proposeToBoth (blockAt [3] [2] 3 3) (certOf (blockAt [2] [1] 2 2)) ++
    proposeToBoth (blockAt [4] [3] 4 4) (certOf (blockAt [3] [2] 3 3))

def forked : List Block :=
  [blockAt [1] [0] 1 3, blockAt [2] [1] 2 7, blockAt [3] [2] 3 19, blockAt [4] [3] 4 27,
    blockAt [11] [0] 1 11, blockAt [12] [11] 2 15, blockAt [13] [12] 3 23, blockAt [14] [13] 4 31]

def commitFork : List Delivery :=
  proposeToBoth (blockAt [1] [0] 1 3) (genesisQC genesisBlock) ++
    proposeToBoth (blockAt [2] [1] 2 7) (certOf (blockAt [1] [0] 1 3)) ++
    proposeToBoth (blockAt [11] [0] 1 11) (genesisQC genesisBlock) ++
    proposeToBoth (blockAt [12] [11] 2 15) (certOf (blockAt [11] [0] 1 11)) ++
    proposeToBoth (blockAt [3] [2] 3 19) (certOf (blockAt [2] [1] 2 7)) ++
    proposeToBoth (blockAt [13] [12] 3 23) (certOf (blockAt [12] [11] 2 15)) ++
    [proposeTo [0] (blockAt [4] [3] 4 27) (certOf (blockAt [3] [2] 3 19)),
      proposeTo [1] (blockAt [14] [13] 4 31) (certOf (blockAt [13] [12] 3 23))]

def commits (i j : NodeId) (s : Network) : List Header × List Header :=
  ((s i).chainStore.ledger.dropLast.map (·.header), (s j).chainStore.ledger.dropLast.map (·.header))

theorem chained_agreement_commitBoth :
    ∃ s, Runs.run (fourCluster (chainOf straight (by decide))).step
          (fourCluster (chainOf straight (by decide))).start commitBoth = some s ∧
      commits [0] [1] s = ([(blockAt [1] [0] 1 1).header], [(blockAt [1] [0] 1 1).header]) ∧
      (fourCluster (chainOf straight (by decide))).Agreement s :=
  ⟨_, eq_some_of_isSome (by decide +kernel), by decide +kernel,
    chained_agreement _ commitBoth _ (by decide +kernel) (eq_some_of_isSome _)⟩

/-- Nodes 0 and 1 commit different blocks at height 1. Every vote is signed by its author and was
created, and only the levels of the two commits are not consecutive. -/
theorem not_chained_agreement_commitFork :
    Runs.Meets (fourCluster (chainOf forked (by decide))).step
        (fun s e => (fourCluster (chainOf forked (by decide))).Unforgeable s e ∧
          (fourCluster (chainOf forked (by decide))).SignedByAuthor e)
        (fourCluster (chainOf forked (by decide))).start commitFork ∧
      ∃ s, Runs.run (fourCluster (chainOf forked (by decide))).step
            (fourCluster (chainOf forked (by decide))).start commitFork = some s ∧
        ¬(fourCluster (chainOf forked (by decide))).Agreement s := by
  refine ⟨by decide +kernel, _, eq_some_of_isSome (by decide +kernel), fun hagree => ?_⟩
  have hsame := fun a ha b hb => (hagree [0] (by decide) [1] (by decide) a ha b hb).2
  exact absurd hsame (by decide +kernel)

end Cluster
end ChainMaker.ChainedBft
