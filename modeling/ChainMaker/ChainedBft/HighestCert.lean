import ChainMaker.ChainedBft.BlockPool
import ChainMaker.Lib.Runs

/-! The highest certificate of a pool and the block it is paired with. The certificate is chosen by
its level, and the block, if it comes after its certificate, by its height. -/

namespace ChainMaker.ChainedBft
namespace BlockPool
open Option List

inductive Op
  | block (b : Block)
  | cert (qc : QuorumCert)

def insert (s : BlockPool × List QuorumCert) : Op → BlockPool × List QuorumCert
  | .block b => ((s.1.insertBlock b).getD s.1, s.2)
  | .cert qc => (s.1.insertQC qc, qc :: s.2)

/-- A hash is the hash of one block, and a certificate has the height and level of its block. -/
def Op.Fits (chain : Bytes → Block) : Op → Prop
  | .block b => chain b.header.blockHash = b
  | .cert qc => qc.height = (chain (bytes qc.blockId)).header.blockHeight ∧
      getLevelFromBlock (chain (bytes qc.blockId)) = some qc.level

/-- A certified block that comes after its certificate is higher than the paired block, unless it is
that block, exactly if its certificate is the highest one. -/
def PairsUp (s : BlockPool × List QuorumCert) : Op → Prop
  | .block b => (s.1.insertBlock b).isSome → (s.1.idToQC.lookup b.header.blockHash).isSome →
      if b.header.blockHash = bytes s.1.highestQC.blockId then
        s.1.highestCertifiedBlock.header.blockHash = b.header.blockHash ∨
          s.1.highestCertifiedBlock.header.blockHeight < b.header.blockHeight
      else (s.1.getBlockByID (bytes s.1.highestQC.blockId)).isSome →
        b.header.blockHeight ≤ s.1.highestCertifiedBlock.header.blockHeight
  | .cert _ => True

instance (s : BlockPool × List QuorumCert) : ∀ op, Decidable (PairsUp s op)
  | .block b => by unfold PairsUp; infer_instance
  | .cert _ => .isTrue trivial

structure Paired (chain : Bytes → Block) (s : BlockPool × List QuorumCert) : Prop where
  highest : s.1.highestQC ∈ s.2
  level_le : ∀ qc ∈ s.2, qc.level ≤ s.1.highestQC.level
  fits : ∀ qc ∈ s.2, Op.Fits chain (.cert qc)
  stored : ∀ id qc, s.1.getQCByID id = some qc → qc ∈ s.2 ∧ bytes qc.blockId = id
  certified : (s.1.getQCByID (bytes s.1.highestQC.blockId)).isSome = true
  blocks : ∀ id b, s.1.getBlockByID id = some b → chain id = b ∧ b.header.blockHash = id
  block : chain s.1.highestCertifiedBlock.header.blockHash = s.1.highestCertifiedBlock
  paired : ∀ b, s.1.getBlockByID (bytes s.1.highestQC.blockId) = some b →
    s.1.highestCertifiedBlock = b

variable {chain : Bytes → Block} {s : BlockPool × List QuorumCert}

lemma Paired.insertQC (h : Paired chain s) {qc : QuorumCert} (hfits : Op.Fits chain (.cert qc)) :
    Paired chain (insert s (.cert qc)) := by
  have hall : ∀ qc' ∈ qc :: s.2, Op.Fits chain (.cert qc') := forall_mem_cons.mpr ⟨hfits, h.fits⟩
  have hmem : ∀ {qc'}, qc' ∈ s.2 → qc' ∈ qc :: s.2 := mem_cons_of_mem _
  have hstored : ∀ id qc', (s.1.insertQC qc).getQCByID id = some qc' →
      qc' ∈ qc :: s.2 ∧ bytes qc'.blockId = id := by
    intro id qc' hqc'
    rcases (s.1.insertQC_certs qc).2 id qc' hqc' with hold | ⟨rfl, rfl⟩
    · exact ⟨hmem (h.stored id qc' hold).1, (h.stored id qc' hold).2⟩
    · exact ⟨mem_cons_self, rfl⟩
  unfold insert BlockPool.insertQC at *
  dsimp only at *
  split
  case isTrue hexists =>
    -- the certificate that is there is of the same block, and so of the same level
    obtain ⟨qc', hqc'⟩ := isSome_iff_exists.mp hexists
    obtain ⟨hin, hid⟩ := h.stored _ qc' hqc'
    have hlevel : qc.level = qc'.level := by
      have hsame := (h.fits qc' hin).2
      rw [hid] at hsame
      exact mem_unique hfits.2 hsame
    rw [if_pos hexists] at hstored
    exact ⟨hmem h.highest, forall_mem_cons.mpr ⟨hlevel ▸ h.level_le qc' hin, h.level_le⟩, hall,
      hstored, h.certified, h.blocks, h.block, h.paired⟩
  case isFalse hnew =>
  rw [if_neg hnew] at hstored
  split
  case isTrue hle =>
    rw [if_pos hle] at hstored
    refine ⟨hmem h.highest, forall_mem_cons.mpr ⟨hle, h.level_le⟩, hall, hstored, ?_,
      h.blocks, h.block, h.paired⟩
    exact AList.lookup_isSome.mpr
      ((AList.mem_insert _).mpr (.inr (AList.lookup_isSome.mp h.certified)))
  case isFalse hlt =>
  rw [if_neg hlt] at hstored
  have hlt : s.1.highestQC.level < qc.level := not_le.mp hlt
  refine ⟨mem_cons_self, forall_mem_cons.mpr ⟨le_rfl, fun qc' hqc' =>
    (h.level_le qc' hqc').trans hlt.le⟩, hall, hstored, ?_, h.blocks, ?_, fun b hb => ?_⟩
  · exact AList.lookup_isSome.mpr ((AList.mem_insert _).mpr (.inl rfl))
  · cases hb : s.1.blockTree.getBlockByID (bytes qc.blockId) with
    | none => exact h.block
    | some b =>
      obtain ⟨hchain, hid⟩ := h.blocks _ b hb
      exact (congrArg chain hid).trans hchain
  · have hb : s.1.blockTree.getBlockByID (bytes qc.blockId) = some b := hb
    rw [hb, getD_some]

lemma Paired.insertBlock (h : Paired chain s) {b : Block} (hfits : Op.Fits chain (.block b))
    (hpairs : PairsUp s (.block b)) : Paired chain (insert s (.block b)) := by
  cases hbp : s.1.insertBlock b with
  | none =>
    rw [insert, hbp]
    exact h
  | some bp =>
    rw [insert, hbp, getD_some]
    obtain ⟨-, hqcs, hqc, hnew⟩ := insertBlock_blocks hbp
    have hblocks : ∀ id b, bp.getBlockByID id = some b →
        chain id = b ∧ b.header.blockHash = id := by
      intro id b' hb'
      rcases hnew id b' hb' with hold | ⟨rfl, rfl⟩
      · exact h.blocks id b' hold
      · exact ⟨hfits, rfl⟩
    have hpair : bp.highestCertifiedBlock = if (s.1.idToQC.lookup b.header.blockHash).isSome ∧
        s.1.highestCertifiedBlock.header.blockHeight < b.header.blockHeight then b
        else s.1.highestCertifiedBlock := by
      obtain ⟨bt, -, rfl⟩ := map_eq_some_iff.mp hbp
      rfl
    have hpairs := hpairs (isSome_of_eq_some hbp)
    refine ⟨hqc ▸ h.highest, hqc ▸ h.level_le, h.fits, ?_, ?_, hblocks, ?_, fun b' hb' => ?_⟩
    · intro id qc hid
      exact h.stored id qc (by rwa [getQCByID, hqcs] at hid)
    · rw [getQCByID, hqcs, hqc]
      exact h.certified
    · rw [hpair]
      split_ifs
      · exact hfits
      · exact h.block
    · rw [hqc] at hb'
      rw [hpair]
      by_cases hid : b.header.blockHash = bytes s.1.highestQC.blockId
      · obtain rfl : b' = b := (hblocks _ b' hb').1.symm.trans (hid ▸ hfits)
        have hcert : (s.1.idToQC.lookup b'.header.blockHash).isSome = true := hid ▸ h.certified
        split_ifs with hlt
        · rfl
        have hsame := hpairs hcert
        rw [if_pos hid] at hsame
        rcases hsame with hsame | hlt'
        · exact h.block.symm.trans ((congrArg chain hsame).trans hfits)
        · exact absurd ⟨hcert, hlt'⟩ hlt
      · have hold : s.1.getBlockByID (bytes s.1.highestQC.blockId) = some b' := by
          rcases hnew _ b' hb' with hold | ⟨heq, -⟩
          · exact hold
          · exact absurd heq.symm hid
        rw [if_neg]
        · exact h.paired b' hold
        rintro ⟨hcert, hlt⟩
        have hle := hpairs hcert
        rw [if_neg hid] at hle
        exact absurd hlt (not_lt.mpr (hle (isSome_of_eq_some hold)))

theorem highest_paired (chain : Bytes → Block) (rootBlock : Block) (rootQC : QuorumCert)
    (maxPrunedSize : ℕ) (hroot : Op.Fits chain (.block rootBlock))
    (hcert : Op.Fits chain (.cert rootQC)) (hid : bytes rootQC.blockId = rootBlock.header.blockHash)
    (ops : List Op) (hfits : ∀ op ∈ ops, op.Fits chain) (s : BlockPool × List QuorumCert)
    (hpairs : Runs.Meets (fun s op => some (insert s op)) PairsUp
      (newBlockPool rootBlock rootQC maxPrunedSize, [rootQC]) ops)
    (hrun : Runs.run (fun s op => some (insert s op))
      (newBlockPool rootBlock rootQC maxPrunedSize, [rootQC]) ops = some s) :
    s.1.highestQC ∈ s.2 ∧ (∀ qc ∈ s.2, qc.level ≤ s.1.highestQC.level) ∧
      ∀ b, s.1.getBlockByID (bytes s.1.highestQC.blockId) = some b →
        s.1.highestCertifiedBlock = b := by
  have hstart : Paired chain (newBlockPool rootBlock rootQC maxPrunedSize, [rootQC]) := by
    refine ⟨mem_singleton_self _, by simp [newBlockPool], by simpa using hcert, ?_, ?_,
      ?_, hroot, ?_⟩
    · intro id qc hqc
      obtain ⟨rfl, rfl⟩ := GoMap.lookup_singleton hqc
      exact ⟨mem_singleton_self _, rfl⟩
    · exact isSome_of_eq_some (GoMap.lookup_singleton_self _ _)
    · rintro id b hb
      obtain ⟨rfl, rfl⟩ := BlockTree.getBlockByID_new.mp hb
      exact ⟨hroot, rfl⟩
    · exact fun b hb => (BlockTree.getBlockByID_new.mp hb).2.symm
  have hinv : Paired chain s := by
    refine Runs.run_induction (fun s op s' h hP hs => ?_) hstart (hpairs.and_mem hfits) hrun
    cases hs
    cases op with
    | block b => exact h.insertBlock hP.2 hP.1
    | cert qc => exact h.insertQC hP.2
  exact ⟨hinv.highest, hinv.level_le, hinv.paired⟩

def forkBlock (id : UInt8) (height level : ℕ) : Block :=
  ⟨⟨height, [id], [0], .args ⟨level, []⟩⟩, [], none⟩

def forkCert (id : UInt8) (height level : ℕ) : QuorumCert :=
  ⟨some [id], height, level, 0, false, []⟩

def forkChain : Bytes → Block
  | [1] => forkBlock 1 1 1
  | [2] => forkBlock 2 1 2
  | _ => forkBlock 0 0 0

def forkPool : BlockPool × List QuorumCert :=
  (newBlockPool (forkBlock 0 0 0) (forkCert 0 0 0) 10, [forkCert 0 0 0])

theorem highest_paired_late :
    let s := [Op.block (forkBlock 2 1 2), .cert (forkCert 1 1 1), .cert (forkCert 2 1 2),
      .block (forkBlock 1 1 1)].foldl insert forkPool
    s.1.getBlockByID [2] = some (forkBlock 2 1 2) ∧ s.1.highestCertifiedBlock = forkBlock 2 1 2 :=
  ⟨rfl, (highest_paired forkChain (forkBlock 0 0 0) (forkCert 0 0 0) 10 rfl ⟨rfl, rfl⟩ rfl
    [.block (forkBlock 2 1 2), .cert (forkCert 1 1 1), .cert (forkCert 2 1 2),
      .block (forkBlock 1 1 1)]
    (by simp only [forall_mem_cons, Op.Fits]; exact ⟨rfl, ⟨rfl, rfl⟩, ⟨rfl, rfl⟩, rfl, nofun⟩)
    _ ⟨by decide, trivial, trivial, by decide, trivial⟩ rfl).2.2 _ rfl⟩

/-- Two blocks at one height: the block of the higher level comes after its certificate, and is not
higher than the block that is paired. -/
theorem highest_unpaired :
    let ops := [Op.block (forkBlock 1 1 1), .cert (forkCert 1 1 1), .cert (forkCert 2 1 2),
      .block (forkBlock 2 1 2)]
    let s := ops.foldl insert forkPool
    (∀ op ∈ ops, op.Fits forkChain) ∧ s.1.highestQC = forkCert 2 1 2 ∧
      s.1.getBlockByID [2] = some (forkBlock 2 1 2) ∧
        s.1.highestCertifiedBlock ≠ forkBlock 2 1 2 := by
  refine ⟨?_, rfl, rfl, fun h => absurd (congrArg (·.header.blockHash) h) (by decide)⟩
  simp only [forall_mem_cons, Op.Fits]
  exact ⟨rfl, ⟨rfl, rfl⟩, ⟨rfl, rfl⟩, rfl, nofun⟩

end BlockPool
end ChainMaker.ChainedBft
