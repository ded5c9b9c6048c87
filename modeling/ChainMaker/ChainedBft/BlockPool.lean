import ChainMaker.ChainedBft.Types

/-! The blocks and certificates that a node keeps in memory (`block_pool`). The tree hangs off the
last committed block; what is cut off at a commit waits in a queue before it is removed. -/

namespace ChainMaker.ChainedBft
open Option AList

structure BlockNode where
  block : Block
  children : List Bytes

structure BlockTree where
  idToNode : GoMap Bytes BlockNode
  heightToBlocks : GoMap ℕ (List Block)
  rootBlock : Block
  prunedBlocks : List Bytes
  maxPrunedSize : ℕ

def newBlockTree (rootBlock : Block) (maxPrunedSize : ℕ) : BlockTree where
  idToNode := singleton rootBlock.header.blockHash ⟨rootBlock, []⟩
  heightToBlocks := singleton rootBlock.header.blockHeight [rootBlock]
  rootBlock := rootBlock
  prunedBlocks := []
  maxPrunedSize := maxPrunedSize

namespace BlockTree
variable (bt : BlockTree)

def getBlockByID (id : Bytes) : Option Block := (bt.idToNode.lookup id).map (·.block)

def insertBlock (block : Block) : Option BlockTree :=
  let header := block.header
  if (bt.idToNode.lookup header.blockHash).isSome then some bt
  else
    match bt.idToNode.lookup header.preBlockHash with
    | none => none
    | some preBlock =>
      let preBlock' := { preBlock with children := preBlock.children ++ [header.blockHash] }
      let blocks := (bt.heightToBlocks.lookup header.blockHeight).getD []
      some { bt with
        idToNode := (bt.idToNode.insert header.blockHash ⟨block, []⟩).insert
          header.preBlockHash preBlock'
        heightToBlocks := bt.heightToBlocks.insert header.blockHeight (blocks ++ [block]) }

/-- Goes up from a block to the height of the root. More steps than there are blocks in the tree
would never end. -/
def walk : ℕ → Block → List Block → Option (Block × List Block)
  | 0, _, _ => none
  | fuel + 1, cur, branch =>
    if bt.rootBlock.header.blockHeight < cur.header.blockHeight then
      match bt.getBlockByID cur.header.preBlockHash with
      | none => none
      | some next => walk fuel next (cur :: branch)
    else some (cur, branch)

def branchFromRoot (block : Block) : Option (List Block) :=
  match bt.walk (bt.idToNode.keys.length + 2) block [] with
  | none => none
  | some (cur, branch) =>
    if cur.header.blockHash = bt.rootBlock.header.blockHash ∧ branch ≠ [] then some branch
    else none

/-- The queue of `findBlockToPrune`. A child that is not in the tree is a nil dereference. -/
def pruneLoop (newRootID : Bytes) : ℕ → List Bytes → List Bytes → Option (List Bytes)
  | _, [], toPruned => some toPruned
  | 0, _ :: _, _ => none
  | fuel + 1, curID :: queue, toPruned =>
    match bt.idToNode.lookup curID with
    | none => none
    | some curNode =>
      pruneLoop newRootID fuel (queue ++ curNode.children.filter (· ≠ newRootID))
        (toPruned ++ [curID])

/-- The number of paths in a tree is bounded by the number of sets of edges. -/
def pruneFuel : ℕ := 2 ^ (bt.idToNode.entries.map (·.2.children.length)).sum

def cleanBlock (blockId : Bytes) : BlockTree :=
  { bt with
    idToNode := bt.idToNode.erase blockId
    heightToBlocks :=
      match bt.idToNode.lookup blockId with
      | none => bt.heightToBlocks
      | some blk => bt.heightToBlocks.erase blk.block.header.blockHeight }

def pruneBlock (newRootID : Bytes) : Option (BlockTree × List Bytes) :=
  if newRootID = [] ∨ newRootID = bt.rootBlock.header.blockHash then some (bt, [])
  else
    match bt.pruneLoop newRootID bt.pruneFuel [bt.rootBlock.header.blockHash] [] with
    | none => none
    | some toPruned =>
      match bt.getBlockByID newRootID with
      | none => some (bt, [])
      | some newRootBlock =>
        let prunedBlocks := bt.prunedBlocks ++ toPruned
        let num := prunedBlocks.length - bt.maxPrunedSize
        let moved := { bt with rootBlock := newRootBlock, prunedBlocks := prunedBlocks.drop num }
        some ((prunedBlocks.take num).foldl cleanBlock moved, prunedBlocks.take num)

variable {bt} {bt' : BlockTree}

lemma getBlockByID_new {root b : Block} {maxPrunedSize : ℕ} {id : Bytes} :
    (newBlockTree root maxPrunedSize).getBlockByID id = some b ↔
      id = root.header.blockHash ∧ b = root := by
  constructor
  · intro hb
    obtain ⟨node, hnode, rfl⟩ := map_eq_some_iff.mp hb
    obtain ⟨rfl, rfl⟩ := GoMap.lookup_singleton hnode
    exact ⟨rfl, rfl⟩
  · rintro ⟨rfl, rfl⟩
    exact map_eq_some_iff.mpr ⟨_, GoMap.lookup_singleton_self _ _, rfl⟩

lemma insertBlock_blocks {block : Block} (h : bt.insertBlock block = some bt') :
    bt'.rootBlock = bt.rootBlock ∧ ∀ id b, bt'.getBlockByID id = some b →
      bt.getBlockByID id = some b ∨ id = block.header.blockHash ∧ b = block := by
  simp only [insertBlock] at h
  split at h
  · cases h
    exact ⟨rfl, fun id b hb => .inl hb⟩
  split at h
  · cases h
  rename_i preBlock hpre
  cases h
  refine ⟨rfl, fun id b hb => ?_⟩
  unfold getBlockByID at hb ⊢
  -- The parent is written back with one child more; its block is the same.
  rw [GoMap.lookup_insert_ite, GoMap.lookup_insert_ite] at hb
  split_ifs at hb with hid hid'
  · exact .inl (by rw [hid, hpre]; exact hb)
  · exact .inr ⟨hid', (some.inj hb).symm⟩
  · exact .inl hb

lemma cleanBlocks_blocks (ids : List Bytes) (bt : BlockTree) :
    (ids.foldl cleanBlock bt).rootBlock = bt.rootBlock ∧
      ∀ id b, (ids.foldl cleanBlock bt).getBlockByID id = some b → bt.getBlockByID id = some b := by
  induction ids generalizing bt with
  | nil => exact ⟨rfl, fun id b hb => hb⟩
  | cons x ids ih =>
    obtain ⟨hroot, hblocks⟩ := ih (bt.cleanBlock x)
    refine ⟨hroot, fun id b hb => ?_⟩
    have hclean := hblocks id b hb
    unfold getBlockByID cleanBlock at hclean
    by_cases hid : id = x
    · subst hid
      rw [lookup_erase] at hclean
      cases hclean
    · rwa [lookup_erase_ne hid] at hclean

lemma pruneBlock_blocks {newRootID : Bytes} {pruned : List Bytes}
    (h : bt.pruneBlock newRootID = some (bt', pruned)) :
    (bt'.rootBlock = bt.rootBlock ∨ bt.getBlockByID newRootID = some bt'.rootBlock) ∧
      ∀ id b, bt'.getBlockByID id = some b → bt.getBlockByID id = some b := by
  unfold pruneBlock at h
  split at h
  · cases h
    exact ⟨.inl rfl, fun id b hb => hb⟩
  split at h
  · cases h
  split at h
  · cases h
    exact ⟨.inl rfl, fun id b hb => hb⟩
  rename_i newRootBlock hnew
  cases h
  refine ⟨.inr ?_, fun id b hb => ?_⟩
  · rw [(cleanBlocks_blocks _ _).1]
    exact hnew
  · have hmoved := (cleanBlocks_blocks _ _).2 id b hb
    exact hmoved

end BlockTree

structure BlockPool where
  idToQC : GoMap Bytes QuorumCert
  blockTree : BlockTree
  highestQC : QuorumCert
  highestCertifiedBlock : Block

def newBlockPool (rootBlock : Block) (rootQC : QuorumCert) (maxPrunedSize : ℕ) : BlockPool where
  idToQC := singleton (bytes rootQC.blockId) rootQC
  blockTree := newBlockTree rootBlock maxPrunedSize
  highestQC := rootQC
  highestCertifiedBlock := rootBlock

namespace BlockPool
variable (bp : BlockPool)

def getBlockByID (id : Bytes) : Option Block := bp.blockTree.getBlockByID id

def getQCByID (id : Bytes) : Option QuorumCert := bp.idToQC.lookup id

def insertBlock (block : Block) : Option BlockPool :=
  (bp.blockTree.insertBlock block).map fun blockTree =>
    { bp with
      blockTree := blockTree
      highestCertifiedBlock :=
        if (bp.idToQC.lookup block.header.blockHash).isSome ∧
            bp.highestCertifiedBlock.header.blockHeight < block.header.blockHeight then block
        else bp.highestCertifiedBlock }

def insertQC (qc : QuorumCert) : BlockPool :=
  if (bp.idToQC.lookup (bytes qc.blockId)).isSome then bp
  else
    let idToQC := bp.idToQC.insert (bytes qc.blockId) qc
    if qc.level ≤ bp.highestQC.level then { bp with idToQC := idToQC }
    else
      { bp with
        idToQC := idToQC
        highestQC := qc
        highestCertifiedBlock :=
          (bp.blockTree.getBlockByID (bytes qc.blockId)).getD bp.highestCertifiedBlock }

def pruneBlock (newRootID : Bytes) : Option BlockPool :=
  (bp.blockTree.pruneBlock newRootID).map fun (blockTree, pruned) =>
    { bp with blockTree := blockTree, idToQC := pruned.foldl (fun m id => m.erase id) bp.idToQC }

variable {bp} {bp' : BlockPool}

lemma insertBlock_blocks {block : Block} (h : bp.insertBlock block = some bp') :
    bp'.blockTree.rootBlock = bp.blockTree.rootBlock ∧ bp'.idToQC = bp.idToQC ∧
      bp'.highestQC = bp.highestQC ∧ ∀ id b, bp'.getBlockByID id = some b →
        bp.getBlockByID id = some b ∨ id = block.header.blockHash ∧ b = block := by
  obtain ⟨bt, hbt, rfl⟩ := map_eq_some_iff.mp h
  obtain ⟨hroot, hblocks⟩ := BlockTree.insertBlock_blocks hbt
  exact ⟨hroot, rfl, rfl, hblocks⟩

lemma insertQC_blockTree (bp : BlockPool) (qc : QuorumCert) :
    (bp.insertQC qc).blockTree = bp.blockTree := by
  unfold insertQC
  split
  · rfl
  split <;> rfl

lemma insertQC_certs (bp : BlockPool) (qc : QuorumCert) :
    ((bp.insertQC qc).highestQC = bp.highestQC ∨ (bp.insertQC qc).highestQC = qc) ∧
      ∀ id qc', (bp.insertQC qc).getQCByID id = some qc' →
        bp.getQCByID id = some qc' ∨ id = bytes qc.blockId ∧ qc' = qc := by
  have hinsert : ∀ id qc', (bp.idToQC.insert (bytes qc.blockId) qc).lookup id = some qc' →
      bp.idToQC.lookup id = some qc' ∨ id = bytes qc.blockId ∧ qc' = qc := by
    intro id qc' hqc
    exact (GoMap.lookup_insert_cases hqc).symm
  unfold insertQC getQCByID
  split
  · exact ⟨.inl rfl, fun id qc' h => .inl h⟩
  split
  · exact ⟨.inl rfl, hinsert⟩
  · exact ⟨.inr rfl, hinsert⟩

lemma pruneBlock_blocks {newRootID : Bytes} (h : bp.pruneBlock newRootID = some bp') :
    (bp'.blockTree.rootBlock = bp.blockTree.rootBlock ∨
        bp.getBlockByID newRootID = some bp'.blockTree.rootBlock) ∧ bp'.highestQC = bp.highestQC ∧
      (∀ id b, bp'.getBlockByID id = some b → bp.getBlockByID id = some b) ∧
      ∀ id qc, bp'.getQCByID id = some qc → bp.getQCByID id = some qc := by
  obtain ⟨⟨bt, pruned⟩, hbt, rfl⟩ := map_eq_some_iff.mp h
  obtain ⟨hroot, hblocks⟩ := BlockTree.pruneBlock_blocks hbt
  refine ⟨hroot, rfl, hblocks, fun id qc hqc => ?_⟩
  unfold getQCByID at hqc ⊢
  rw [GoMap.lookup_foldl_erase] at hqc
  split_ifs at hqc
  exact hqc

end BlockPool
end ChainMaker.ChainedBft
