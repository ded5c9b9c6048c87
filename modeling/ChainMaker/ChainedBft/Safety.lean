import ChainMaker.ChainedBft.Cluster

/-! What the chain store and the safety rules of a node keep to: the pool holds certificates that
are what they say, the ledger holds blocks below final ones, and the lock is on a certified
block. -/

namespace ChainMaker.ChainedBft
open Finset

inductive Chain.Ledger (C : Chain) : List Block → Prop
  | genesis {b : Block} (h : b.header.blockHash = C.root) : C.Ledger [b]
  | cons {b a : Block} {rest : List Block}
      (hheight : b.header.blockHeight = a.header.blockHeight + 1)
      (hpre : b.header.preBlockHash = a.header.blockHash) (h : C.Ledger (a :: rest)) :
      C.Ledger (b :: a :: rest)

namespace Cluster
variable (c : Cluster) {b : Block} {bp : BlockPool} {height : ℕ} {id : Bytes}

structure Committed (log : Log) (m : ℕ) (b : Block) : Prop where
  wellHashed : c.chain.WellHashed b
  final : b.header.blockHash = c.chain.root ∨
    ∃ g, c.Final log g ∧ c.chain.tree.Anc b.header.blockHash g
  level_le : c.chain.level b.header.blockHash ≤ m
  cert : ∀ qc, getQCFromBlock b = some (.cert qc) →
    c.Good log qc ∧ bytes qc.blockId = b.header.blockHash

structure Sound (log : Log) (m : ℕ) (cs : ChainStore) : Prop where
  blocks : ∀ id b, cs.blockPool.getBlockByID id = some b →
    c.chain.WellHashed b ∧ b.header.blockHash = id
  certs : ∀ id qc, cs.blockPool.getQCByID id = some qc → c.Good log qc ∧ bytes qc.blockId = id
  highest : c.Good log cs.blockPool.highestQC
  root_ne : cs.blockPool.blockTree.rootBlock.header.blockHash ≠ []
  root_le : c.chain.level cs.blockPool.blockTree.rootBlock.header.blockHash ≤ m
  ledger : c.chain.Ledger cs.ledger
  committed : ∀ b ∈ cs.ledger, c.Committed log m b

structure Locked (log : Log) (sr : SafetyRules) : Prop where
  cert : c.Cert log sr.lockedBlock.header.blockHash
  level_eq : c.chain.level sr.lockedBlock.header.blockHash = sr.lockedLevel

variable {c} {log log' : Log} {m m' : ℕ} {cs cs' : ChainStore} {sr sr' : SafetyRules}
  {qc : QuorumCert} {sv : Services}

lemma Committed.mono (hsub : log ⊆ log') (hm : m ≤ m')
    (h : c.Committed log m b) : c.Committed log' m' b where
  wellHashed := h.wellHashed
  final := h.final.imp_right fun ⟨g, hg, hanc⟩ => ⟨g, hg.mono hsub, hanc⟩
  level_le := h.level_le.trans hm
  cert := fun qc hqc => ⟨(h.cert qc hqc).1.mono hsub, (h.cert qc hqc).2⟩

lemma Sound.mono (hsub : log ⊆ log') (hm : m ≤ m') (h : c.Sound log m cs) : c.Sound log' m' cs where
  blocks := h.blocks
  certs := fun id qc hqc => ⟨(h.certs id qc hqc).1.mono hsub, (h.certs id qc hqc).2⟩
  highest := h.highest.mono hsub
  root_ne := h.root_ne
  root_le := h.root_le.trans hm
  ledger := h.ledger
  committed := fun b hb => (h.committed b hb).mono hsub hm

lemma Locked.mono (hsub : log ⊆ log') (h : c.Locked log sr) : c.Locked log' sr :=
  ⟨h.cert.mono hsub, h.level_eq⟩

section
variable (h : c.Sound log m cs)
include h

lemma Sound.congr (hledger : cs'.ledger = cs.ledger) (hpool : cs'.blockPool = cs.blockPool) :
    c.Sound log m cs' := by
  cases cs'
  subst hledger hpool
  exact { h with }

lemma Sound.cert_of_pool (hb : cs.blockPool.getBlockByID id = some b)
    (hqc : cs.blockPool.getQCByID id = some qc) : c.Cert log id ∧ qc.level = c.chain.level id := by
  obtain ⟨hgood, hid⟩ := h.certs id qc hqc
  have hne : bytes qc.blockId ≠ [] := by
    rw [hid, ← (h.blocks id b hb).2]
    exact (h.blocks id b hb).1.1
  rw [← hid]
  exact hgood.of_ne_nil hne

lemma Sound.poolInsertQC (hgood : c.Good log qc) :
    c.Sound log m { cs with blockPool := cs.blockPool.insertQC qc } := by
  have htree := BlockPool.insertQC_blockTree cs.blockPool qc
  obtain ⟨hhighest, hcerts⟩ := BlockPool.insertQC_certs cs.blockPool qc
  refine ⟨?_, fun id qc' hqc' => ?_, ?_, htree ▸ h.root_ne, htree ▸ h.root_le, h.ledger,
    h.committed⟩
  · unfold BlockPool.getBlockByID
    rw [htree]
    exact h.blocks
  · rcases hcerts id qc' hqc' with hold | ⟨rfl, rfl⟩
    · exact h.certs id qc' hold
    · exact ⟨hgood, rfl⟩
  · rcases hhighest with hold | hnew
    · rw [hold]
      exact h.highest
    · rw [hnew]
      exact hgood

lemma Sound.insertQC (hgood : c.Good log qc) {epochId : ℕ}
    (hcs : cs.insertQC epochId qc = some cs') : c.Sound log m cs' := by
  unfold ChainStore.insertQC at hcs
  split_ifs at hcs
  · exact Option.some.inj hcs ▸ h
  · exact Option.some.inj hcs ▸ h.poolInsertQC hgood

end

variable {block : Block}

section
variable (h : c.Sound log m cs)
include h

lemma Sound.poolInsertBlock (hwell : c.chain.WellHashed block)
    (hbp : cs.blockPool.insertBlock block = some bp) :
    c.Sound log m { cs with blockPool := bp } := by
  obtain ⟨hroot, hcerts, hhighest, hblocks⟩ := BlockPool.insertBlock_blocks hbp
  refine ⟨fun id b hb => ?_, ?_, ?_, hroot ▸ h.root_ne, hroot ▸ h.root_le, h.ledger, h.committed⟩
  · rcases hblocks id b hb with hold | ⟨rfl, rfl⟩
    · exact h.blocks id b hold
    · exact ⟨hwell, rfl⟩
  · unfold BlockPool.getQCByID
    rw [hcerts]
    exact h.certs
  · rw [hhighest]
    exact h.highest

lemma Sound.insertBlock (hwell : c.chain.WellHashed block) (hcs : cs.insertBlock block = some cs') :
    c.Sound log m cs' := by
  unfold ChainStore.insertBlock at hcs
  split_ifs at hcs
  · exact Option.some.inj hcs ▸ h
  · obtain ⟨bp, hbp, rfl⟩ := Option.map_eq_some_iff.mp hcs
    exact h.poolInsertBlock hwell hbp

lemma Sound.pruneBlock (hid : c.chain.level id ≤ m)
    (hbp : cs.blockPool.pruneBlock id = some bp) : c.Sound log m { cs with blockPool := bp } := by
  obtain ⟨hroot, hhighest, hblocks, hcerts⟩ := BlockPool.pruneBlock_blocks hbp
  refine ⟨fun id b hb => h.blocks id b (hblocks id b hb),
    fun id qc hqc => h.certs id qc (hcerts id qc hqc), hhighest ▸ h.highest, ?_, ?_, h.ledger,
    h.committed⟩
  · rcases hroot with hsame | hnew
    · exact hsame ▸ h.root_ne
    · exact (h.blocks id _ hnew).1.1
  · rcases hroot with hsame | hnew
    · exact hsame ▸ h.root_le
    rw [(h.blocks id _ hnew).2]
    exact hid

lemma Sound.walk {g : Bytes} (fuel : ℕ) {cur top : Block} {branch blocks : List Block}
    (hcur : c.chain.WellHashed cur) (hanc : c.chain.tree.Anc cur.header.blockHash g)
    (hbranch : ∀ b ∈ branch, c.chain.WellHashed b ∧ c.chain.tree.Anc b.header.blockHash g)
    (hwalk : cs.blockPool.blockTree.walk fuel cur branch = some (top, blocks)) :
    ∀ b ∈ blocks, c.chain.WellHashed b ∧ c.chain.tree.Anc b.header.blockHash g := by
  induction fuel generalizing cur branch with
  | zero => cases hwalk
  | succ fuel ih =>
    unfold BlockTree.walk at hwalk
    split at hwalk
    case isTrue habove =>
      split at hwalk
      case h_1 => cases hwalk
      case h_2 next hnext =>
      obtain ⟨hnextWell, hnextHash⟩ := h.blocks _ next hnext
      have hne : cur.header.blockHash ≠ c.chain.root := fun heq =>
        absurd (hcur.height_root heq) (Nat.ne_zero_of_lt habove)
      have hstep : c.chain.tree.Anc next.header.blockHash cur.header.blockHash := by
        refine .child hne ?_
        rw [hcur.parent_eq, hnextHash]
        exact .refl
      exact ih hnextWell (hstep.trans hanc)
        (List.forall_mem_cons.mpr ⟨⟨hcur, hanc⟩, hbranch⟩) hwalk
    case isFalse =>
      cases hwalk
      exact hbranch

lemma Sound.addBlock {b : Block} {ledger : List Block} (hb : c.Committed log m b)
    (hadd : addBlock sv cs.ledger b = .added ledger) :
    c.Sound log m { cs with ledger := ledger } := by
  obtain ⟨last, rest, hledger, rfl, hheight, hpre⟩ := addBlock_added hadd
  refine { h with ledger := ?_, committed := List.forall_mem_cons.mpr ⟨hb, h.committed⟩ }
  have hold := h.ledger
  rw [hledger] at hold ⊢
  exact .cons hheight hpre hold

lemma Sound.commitLoop {g : Bytes} {blocks : List Block} (hl : c.Lawful log) (hg : c.Final log g)
    (hgm : c.chain.level g ≤ m) {last : Option (Block × ℕ)}
    (hblocks : ∀ b ∈ blocks, c.chain.WellHashed b ∧ c.chain.tree.Anc b.header.blockHash g) :
    c.Sound log m (ChainStore.commitLoop sv cs last blocks).1 := by
  induction blocks generalizing cs last with
  | nil => exact h
  | cons blk blocks ih =>
    obtain ⟨⟨hwell, hanc⟩, hrest⟩ := List.forall_mem_cons.mp hblocks
    unfold ChainStore.commitLoop
    cases hqc : cs.blockPool.getQCByID blk.header.blockHash with
    | none => exact h
    | some qc =>
      obtain ⟨hgood, hid⟩ := h.certs _ qc hqc
      have hlevel := (hl.cert_of_anc c.overlap hanc (hl.cert_final c.overlap hg)).2
      have hnew : c.Committed log m (addQCtoBlock blk (.cert qc)) := by
        refine ⟨hwell.congr rfl, .inr ⟨g, hg, hanc⟩, hlevel.trans hgm, fun qc' hqc' => ?_⟩
        obtain rfl := QCBytes.cert.inj (Option.some.inj hqc')
        exact ⟨hgood, hid⟩
      dsimp only
      split
      case h_1 ledger hadd => exact ih (h.addBlock hnew hadd) hrest
      case h_2 =>
        split
        · exact ih h hrest
        · exact h
      case h_3 => exact h

lemma Sound.commitBlock (hl : c.Lawful log) (hwell : c.chain.WellHashed block)
    (hfinal : c.Final log block.header.blockHash) (hm : c.chain.level block.header.blockHash ≤ m)
    {last : Option (Block × ℕ)} (hcommit : cs.commitBlock sv block = some (cs', last)) :
    c.Sound log m cs' := by
  unfold ChainStore.commitBlock at hcommit
  split at hcommit
  case h_1 =>
    cases hcommit
    exact h
  case h_2 blocks hbranch =>
  have hblocks : ∀ b ∈ blocks, c.chain.WellHashed b ∧
      c.chain.tree.Anc b.header.blockHash block.header.blockHash := by
    unfold BlockTree.branchFromRoot at hbranch
    split at hbranch
    · cases hbranch
    rename_i hwalk
    split_ifs at hbranch
    cases hbranch
    exact h.walk _ hwell .refl (by nofun) hwalk
  have hloop : c.Sound log m (ChainStore.commitLoop sv cs none blocks).1 :=
    h.commitLoop hl hfinal hm hblocks
  split at hcommit
  case h_1 cs₁ last₁ heq =>
    rw [heq] at hloop
    cases hcommit
    exact hloop
  case h_2 cs₁ last₁ heq =>
  rw [heq] at hloop
  obtain ⟨bp, hbp, hcs⟩ := Option.map_eq_some_iff.mp hcommit
  cases hcs
  exact hloop.pruneBlock hm hbp

lemma Sound.insertCompletedBlock {done : Bool} (hmem : block ∈ cs.ledger)
    (hcs : cs.insertCompletedBlock block = some (cs', done)) : c.Sound log m cs' := by
  have hblock := h.committed block hmem
  unfold ChainStore.insertCompletedBlock at hcs
  split at hcs
  · cases hcs
    exact h
  split at hcs
  case h_1 =>
    cases hcs
    exact h
  case h_2 cs₁ hupdate =>
  obtain ⟨hqc, hledger, hpool⟩ := ChainStore.updateCommitCacheInfo_some hupdate
  have h₁ : c.Sound log m cs₁ := h.congr hledger hpool
  split at hcs
  case h_1 =>
    cases hcs
    exact h₁
  case h_2 bp hbp =>
  obtain ⟨bp', hprune, heq⟩ := Option.map_eq_some_iff.mp hcs
  cases heq
  have h₂ := (h₁.poolInsertBlock hblock.wellHashed hbp).poolInsertQC (hblock.cert _ hqc).1
  exact h₂.pruneBlock hblock.level_le hprune

lemma Sound.commitRules (hl : c.Lawful log) (hgood : c.Good log qc) {g : Block} {level : ℕ}
    (hrule : cs.commitRules qc = some (g, level)) (hlevel : qc.level = level + 2) :
    c.chain.WellHashed g ∧ c.Final log g.header.blockHash ∧
      ∃ blk, cs.blockPool.getBlockByID (bytes qc.blockId) = some blk ∧
        bytes qc.blockId ≠ c.chain.root ∧
        c.chain.level g.header.blockHash < c.chain.level blk.header.preBlockHash := by
  unfold ChainStore.commitRules at hrule
  split at hrule
  · cases hrule
  rename_i hnewView
  simp only [bind, Option.bind_eq_some_iff] at hrule
  obtain ⟨blk, hblk, par, hpar, grand, hgrand, parQC, hparQC, grandQC, hgrandQC, hrule⟩ := hrule
  split_ifs at hrule
  obtain ⟨rfl, rfl⟩ := Prod.mk.inj (Option.some.inj hrule)
  obtain ⟨hblkWell, hblkHash⟩ := h.blocks _ blk hblk
  obtain ⟨hparWell, hparHash⟩ := h.blocks _ par hpar
  obtain ⟨hgrandWell, hgrandHash⟩ := h.blocks _ grand hgrand
  obtain ⟨hcert, hqcLevel⟩ := hgood.block (Bool.eq_false_iff.mpr hnewView)
  have hparent : c.chain.tree.parent (bytes qc.blockId) = par.header.blockHash := by
    rw [← hblkHash, hblkWell.parent_eq, hparHash]
  have hgrandparent : c.chain.tree.parent par.header.blockHash = grand.header.blockHash := by
    rw [hparWell.parent_eq, hgrandHash]
  have hgrandLevel := (h.cert_of_pool (hgrandHash.symm ▸ hgrand) hgrandQC).2
  -- The block in the middle is at the level in between.
  have hne : bytes qc.blockId ≠ c.chain.root := c.chain.tree.ne_genesis (by
    change 0 < c.chain.level _
    omega)
  obtain ⟨hparCert, hparLt⟩ := hl.cert_parent c.overlap hcert hne
  rw [hparent] at hparCert hparLt
  have hparNe : par.header.blockHash ≠ c.chain.root := fun heq => by
    have hnil := hparWell.pre_root heq
    rw [← hgrandHash] at hnil
    exact hgrandWell.1 hnil
  obtain ⟨-, hgrandLt⟩ := hl.cert_parent c.overlap hparCert hparNe
  rw [hgrandparent] at hgrandLt
  change c.chain.level _ < c.chain.level _ at hparLt hgrandLt
  have hfinal : c.Final log grand.header.blockHash := by
    refine ⟨par.header.blockHash, bytes qc.blockId, hgrandparent, hparent, ?_, ?_, hcert⟩
    · change c.chain.level _ = c.chain.level _ + 1
      omega
    · change c.chain.level _ = c.chain.level _ + 2
      omega
  refine ⟨hgrandWell, hfinal, blk, hblk, hne, ?_⟩
  rw [← hparHash]
  exact hgrandLt

end

lemma Locked.updateLockedQC (hlock : c.Locked log sr) (h : c.Sound log m cs)
    (hsr : sr.updateLockedQC cs qc = some sr') :
    c.Locked log sr' ∧ sr.lockedLevel ≤ sr'.lockedLevel ∧
      sr'.lastVoteLevel = sr.lastVoteLevel ∧ sr'.lastVoteMsg = sr.lastVoteMsg := by
  rcases SafetyRules.updateLockedQC_some hsr with
    rfl | ⟨_, prev, prevQC, hlt, -, hprev, hprevQC, rfl⟩
  · exact ⟨hlock, le_rfl, rfl, rfl⟩
  obtain ⟨hcert, hlevel⟩ := h.cert_of_pool hprev hprevQC
  have hhash := (h.blocks _ prev hprev).2
  refine ⟨⟨?_, ?_⟩, hlt.le, rfl, rfl⟩
  · rw [hhash]
    exact hcert
  · rw [hhash]
    exact hlevel.symm

variable (h : c.Sound log m cs)
include h

lemma Sound.level_le_updateLockedQC {blk : Block} (hnewView : qc.newView = false)
    (hblk : cs.blockPool.getBlockByID (bytes qc.blockId) = some blk)
    (hprev : (cs.blockPool.getBlockByID blk.header.preBlockHash).isSome)
    (hprevQC : (cs.blockPool.getQCByID blk.header.preBlockHash).isSome)
    (hsr : sr.updateLockedQC cs qc = some sr') :
    c.chain.level blk.header.preBlockHash ≤ max sr'.lockedLevel
      (c.chain.level cs.blockPool.blockTree.rootBlock.header.blockHash) := by
  obtain ⟨prev, hprev⟩ := Option.isSome_iff_exists.mp hprev
  obtain ⟨prevQC, hprevQC⟩ := Option.isSome_iff_exists.mp hprevQC
  have hprevLevel := (h.cert_of_pool hprev hprevQC).2
  have hid : qc.blockId ≠ none := fun hnone => by
    obtain ⟨hwell, hhash⟩ := h.blocks _ blk hblk
    rw [hnone] at hhash
    exact hwell.1 hhash
  simp only [SafetyRules.updateLockedQC, hnewView, hid, Bool.false_eq_true, or_self, if_false,
    hblk, hprev, hprevQC] at hsr
  split at hsr
  · cases hsr
  rename_i rootQC hrootQC
  obtain ⟨hrootGood, hrootId⟩ := h.certs _ rootQC hrootQC
  have hrootLevel := (hrootGood.of_ne_nil (hrootId ▸ h.root_ne)).2
  rw [hrootId] at hrootLevel
  split_ifs at hsr with hlow
  · cases hsr
    omega
  · cases hsr
    exact le_max_of_le_left hprevLevel.symm.le

lemma Sound.getBlockByHash {hash : Bytes} (hb : cs.getBlockByHash hash = some b) :
    c.chain.WellHashed b ∧ b.header.blockHash = hash := by
  rcases Option.or_eq_some_iff.mp hb with hpool | ⟨-, hledger⟩
  · exact h.blocks hash b hpool
  have hhash : b.header.blockHash = hash := by simpa using List.find?_some hledger
  exact ⟨(h.committed b (List.mem_of_find?_eq_some hledger)).wellHashed, hhash⟩

lemma Sound.climb (fuel : ℕ) {cur top : Block} (hcur : c.chain.WellHashed cur)
    (hroot : cur.header.blockHash = c.chain.root → height = 0)
    (hclimb : sr.climb cs fuel cur height = some top) :
    c.chain.tree.Anc top.header.blockHash cur.header.blockHash := by
  induction fuel generalizing cur height with
  | zero => cases hclimb
  | succ fuel ih =>
    unfold SafetyRules.climb at hclimb
    split at hclimb
    case isTrue habove =>
      split at hclimb
      case h_1 => cases hclimb
      case h_2 next hnext =>
      obtain ⟨hnextWell, hnextHash⟩ := h.getBlockByHash hnext
      have hanc := ih hnextWell hnextWell.height_root hclimb
      refine .child (fun heq => absurd (hroot heq) (Nat.ne_zero_of_lt habove)) ?_
      rw [hcur.parent_eq, ← hnextHash]
      exact hanc
    case isFalse =>
      cases hclimb
      exact .refl

lemma Sound.safeNode (hwell : c.chain.WellHashed block)
    (hne : block.header.blockHash ≠ c.chain.root) (hsafe : sr.safeNode cs block height qc = true) :
    sr.lockedLevel < qc.level ∨
      c.chain.tree.Anc sr.lockedBlock.header.blockHash block.header.blockHash := by
  rcases Bool.or_eq_true _ _ |>.mp hsafe with hlevel | hclimb
  · exact .inl (of_decide_eq_true hlevel)
  obtain ⟨top, htop, hhash⟩ := (Option.any_eq_true _ _).mp hclimb
  rw [← of_decide_eq_true hhash]
  exact .inr (h.climb _ hwell (fun heq => absurd heq hne) htop)

end Cluster
end ChainMaker.ChainedBft
