import ChainMaker.Core.LedgerChain

/-! Which transactions go back to the pool when the competing blocks of a height are cut. -/

namespace ChainMaker.Core
open List
open ChainMaker.Snapshot (Visit)

namespace ProposalCache
variable {φ : Type} [DecidableEq φ] {fp : BlockHeader → φ} {heap : Heap} {hash : Bytes}

/-- The blocks other than that of the hash. -/
def others (heap : Heap) (hash : Bytes) (blocks : List ℕ) : List ℕ :=
  blocks.filter fun r => (heap.get r).any fun b => b.header.blockHash.getD [] ≠ hash

lemma foldl_cut {m : GoMap φ BlockProposal} {ks : List φ} (hnodup : ks.Nodup)
    (hm : ∀ k p b, m.lookup k = some p → heap.get p.block = some b → fp b.header = k)
    {s : List ℕ × GoMap φ BlockProposal} (hs : ∀ k ∈ ks, s.2.lookup k = m.lookup k) :
    (ks.foldl (cut fp heap hash) s).1 =
      s.1 ++ others heap hash ((ks.filterMap m.lookup).map (·.block)) := by
  induction ks generalizing s with
  | nil => exact (append_nil _).symm
  | cons k ks ih =>
    obtain ⟨hk, hnodup⟩ := nodup_cons.mp hnodup
    obtain ⟨hsk, hs⟩ := forall_mem_cons.mp hs
    rw [foldl_cons, filterMap_cons]
    cases hp : m.lookup k with
    | none =>
      have hcut : cut fp heap hash s k = s := by rw [cut, hsk, hp]
      rw [hcut]
      exact ih hnodup hs
    | some p =>
      rw [map_cons]
      cases hb : heap.get p.block with
      | none =>
        have hcut : cut fp heap hash s k = s := by simp only [cut, hsk, hp, hb]
        rw [hcut, ih hnodup hs, others, others, filter_cons_of_neg (by simp [hb])]
      | some b =>
        by_cases hhash : b.header.blockHash.getD [] = hash
        · have hcut : cut fp heap hash s k = s := by simp only [cut, hsk, hp, hb, if_pos hhash]
          rw [hcut, ih hnodup hs, others, others, filter_cons_of_neg (by simp [hb, hhash])]
        have hcut : cut fp heap hash s k = (s.1 ++ [p.block], s.2.erase k) := by
          simp only [cut, hsk, hp, hb, if_neg hhash, hm k p b hp hb]
        rw [hcut, ih hnodup fun k' hk' => ?_, others, others,
          filter_cons_of_pos (by simp [hb, hhash]), append_assoc, singleton_append]
        rw [AList.lookup_erase_ne (ne_of_mem_of_not_mem hk' hk), hs k' hk']

end ProposalCache

def retried : List Output → List Transaction
  | [] => []
  | .retryAndRemoveTxs retry _ :: outputs => retry ++ retried outputs
  | _ :: outputs => retried outputs

namespace CoreEngine
open ProposalCache (others)
variable {φ : Type} [DecidableEq φ] {env : Env φ} {sv : Services φ} {c c' : CoreEngine φ}
variable {block lastBlock kept : Block} {height : UInt64}

/-- The blocks that a cut of the height takes away. -/
def cutAt (c : CoreEngine φ) (visit : Visit φ) (kept : Block) (height : UInt64) : List ℕ :=
  others c.heap (kept.header.blockHash.getD []) (c.proposalCache.getProposedBlocksAt visit height)

def notKept (c : CoreEngine φ) (cut : List ℕ) (kept : Block) : List Transaction :=
  (c.txsOf cut).filter fun tx => tx.txId ∉ kept.txs.map (·.txId)

lemma keepProposedBlock_fst (hkeyed : Keyed env c.heap c.proposalCache) :
    (c.keepProposedBlock env sv kept.header.blockHash height).1 = c.cutAt sv.visit kept height := by
  unfold keepProposedBlock ProposalCache.keepProposedBlock cutAt
  unfold ProposalCache.getProposedBlocksAt ProposalCache.proposals
  cases hm : c.proposalCache.lookup height with
  | none => rfl
  | some m =>
    have hnodup := (sv.visit.perm m.keys).nodup_iff.mpr m.nodupKeys
    refine (ProposalCache.foldl_cut hnodup (fun k p b hp hb => ?_) fun _ _ => rfl).trans
      (nil_append _)
    obtain ⟨b', hb', -, hk⟩ := hkeyed height k p (by rw [ProposalCache.proposal, hm]; exact hp)
    exact Option.mem_unique hb' hb ▸ hk

lemma filter_of_mapM {txs : List Transaction} {ids keptIds : List Bytes}
    (hids : txs.mapM Transaction.txId = some ids)
    (hkept : kept.txs.mapM Transaction.txId = some keptIds) :
    (txs.filter fun tx => tx.txId.all (· ∉ keptIds)) =
      txs.filter fun tx => tx.txId ∉ kept.txs.map (·.txId) := by
  refine filter_congr fun tx htx => ?_
  obtain ⟨id, -, hid⟩ := mem_map.mp (mapM_eq_some_iff.mp hids ▸ mem_map_of_mem htx)
  rw [mapM_eq_some_iff.mp hkept, ← hid]
  simp

omit [DecidableEq φ] in
lemma cutBlocks_retried {cut : List ℕ} (h : c.cutBlocks cut kept = some c') :
    retried c'.outputs = c.notKept cut kept ++ retried c.outputs := by
  simp only [cutBlocks, Option.bind_eq_bind, Option.bind_eq_some_iff, Option.pure_def,
    Option.some.injEq] at h
  obtain ⟨keptIds, hkept, ids, hids, rfl⟩ := h
  rw [notKept, ← filter_of_mapM hids hkept]
  split
  · next hnil => rw [hnil, nil_append]
  · rfl

lemma syncWithTxPool_eq {visit : Visit φ} {retry : List Transaction}
    (h : c.syncWithTxPool visit kept height = some retry) :
    retry = c.notKept (c.cutAt visit kept height) kept := by
  simp only [syncWithTxPool, Option.bind_eq_bind, Option.bind_eq_some_iff, Option.pure_def,
    Option.some.injEq] at h
  obtain ⟨keptIds, hkept, ids, hids, rfl⟩ := h
  have htxs : c.txsOf (c.cutAt visit kept height) = flatMap (·.txs)
      (((c.proposalCache.getProposedBlocksAt visit height).filterMap c.heap.get).filter fun b =>
        b.header.blockHash.getD [] ≠ kept.header.blockHash.getD []) := by
    unfold txsOf cutAt others
    rw [filterMap_filter, filter_filterMap]
    congr 2
    funext r
    cases c.heap.get r <;> simp [Option.filter]
  rw [notKept, htxs, ← filter_of_mapM hids hkept]
  simp

/-- The verifier of repeated blocks and the committer hand back what the kept block does not have;
`checkPreBlock_HOTSTUFF` does so exactly if the cut blocks share nothing with it. -/
theorem cuts_exactly_iff (sv : Services φ) (block lastBlock : Block)
    (hkeyed : Keyed env c.heap c.proposalCache)
    (hpre : c.checkPreBlockHotstuff env sv block lastBlock = (.ok (), c')) :
    (∀ cut kept c', c.cutBlocks cut kept = some c' →
        retried c'.outputs = c.notKept cut kept ++ retried c.outputs) ∧
      (∀ visit kept height retry, c.syncWithTxPool visit kept height = some retry →
        retry = c.notKept (c.cutAt visit kept height) kept) ∧
      (retried c'.outputs = c.notKept
        (c.cutAt sv.visit lastBlock lastBlock.header.blockHeight) lastBlock ++ retried c.outputs ↔
        ∀ tx ∈ c.txsOf (c.cutAt sv.visit lastBlock lastBlock.header.blockHeight),
        tx.txId ∉ lastBlock.txs.map (·.txId)) := by
  refine ⟨fun _ _ _ => cutBlocks_retried, fun _ _ _ _ => syncWithTxPool_eq, ?_⟩
  have hall : retried c'.outputs =
      c.txsOf (c.cutAt sv.visit lastBlock lastBlock.header.blockHeight) ++ retried c.outputs := by
    rw [← keepProposedBlock_fst hkeyed]
    unfold checkPreBlockHotstuff at hpre
    dsimp only at hpre
    split at hpre
    · cases hpre
    split at hpre
    · next hnil =>
      cases hpre
      rw [hnil]
      rfl
    · cases hpre
      rfl
  rw [hall, append_left_inj, eq_comm, notKept, filter_eq_self]
  simp only [decide_eq_true_iff]

def rival (n : UInt8) : Block :=
  { blockOne [] none with
    header := { (blockOne [n] none).header with blockTimestamp := 8 }
    txs := [smallTx n] }

/-- Two blocks of height 1, of which the first one is to be kept. -/
def rivals (n : UInt8) : CoreEngine Snapshot.BlockHeader :=
  let c := start genesis
  let c := { c with heap := (c.heap.alloc (blockOne [] none)).alloc (rival n) }
  let c := { c with
    proposalCache := c.changeCache (smallEnv .hotstuff) (.setProposedBlock 1 none none false) }
  { c with proposalCache :=
    c.changeCache (smallEnv .hotstuff) (.setProposedBlock 2 none none false) }

def nextBlock : Block :=
  { blockOne [] none with
    header := { (blockOne [] none).header with blockHeight := 2, preBlockHash := some [1, 5, 5] } }

lemma rivals_keyed (n : UInt8) :
    Keyed (smallEnv .hotstuff) (rivals n).heap (rivals n).proposalCache :=
  keyed_changeCache _ (keyed_changeCache _ fun _ _ _ h => nomatch h)

theorem cuts_exactly_rivals : ∃ c',
    (rivals 6).checkPreBlockHotstuff (smallEnv .hotstuff) agreeable nextBlock (blockOne [] none) =
      (.ok (), c') ∧ retried c'.outputs = [smallTx 6] := by
  refine ⟨_, rfl, ?_⟩
  have hiff := (cuts_exactly_iff agreeable nextBlock (blockOne [] none) (rivals_keyed 6) rfl).2.2
  refine (hiff.mpr ?_).trans ?_
  · decide +kernel
  · decide +kernel

theorem cuts_kept : ∃ c',
    (rivals 5).checkPreBlockHotstuff (smallEnv .hotstuff) agreeable nextBlock (blockOne [] none) =
      (.ok (), c') ∧ retried c'.outputs = [smallTx 5] ∧ smallTx 5 ∈ (blockOne [] none).txs :=
  ⟨_, rfl, by decide +kernel, by decide⟩

end CoreEngine
end ChainMaker.Core
