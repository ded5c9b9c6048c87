import ChainMaker.ChainedBft.ChainStore
import ChainMaker.Lib.Runs

/-! The lock of a node: what moves it, and which proposals the walk of `SafeNode` finds to extend
the locked block. -/

namespace ChainMaker.ChainedBft
open Relation Finset Option

namespace ChainStore
variable {cs : ChainStore} {b p : Block}

def Parent (cs : ChainStore) (b p : Block) : Prop :=
  cs.getBlockByHash b.header.preBlockHash = some p

def Ancestor (cs : ChainStore) (p b : Block) : Prop := ReflTransGen cs.Parent b p

/-- The ledger keeps a block with its certificate added, so that the same block is one of the same
hash. -/
def Extends (cs : ChainStore) (block locked : Block) : Prop :=
  ∃ b, cs.Ancestor b block ∧ b.header.blockHash = locked.header.blockHash

/-- What the walk from `block` can come to: heights go down by one, and the hash of `locked` names
blocks of its height only. -/
structure Coherent (cs : ChainStore) (block locked : Block) : Prop where
  height : ∀ b p, cs.Ancestor b block → cs.Parent b p →
    b.header.blockHeight = p.header.blockHeight + 1
  hash : ∀ b, cs.Ancestor b block → b.header.blockHash = locked.header.blockHash →
    b.header.blockHeight = locked.header.blockHeight

def lower (cs : ChainStore) (height : ℕ) : Finset ℕ :=
  ((cs.blockPool.blockTree.idToNode.values.map (·.block) ++ cs.ledger).map
    (·.header.blockHeight)).toFinset.filter (· < height)

lemma card_lower_le (cs : ChainStore) (height : ℕ) : #(cs.lower height) ≤
    cs.blockPool.blockTree.idToNode.keys.length + cs.ledger.length := by
  refine (card_filter_le _ _).trans ((List.toFinset_card_le _).trans ?_)
  simp [GoMap.values, AList.keys, List.keys]

lemma Parent.card_lower_lt (h : cs.Parent b p) (hlt : p.header.blockHeight < b.header.blockHeight) :
    #(cs.lower p.header.blockHeight) < #(cs.lower b.header.blockHeight) := by
  have hmem : p ∈ cs.blockPool.blockTree.idToNode.values.map (·.block) ++ cs.ledger := by
    rw [List.mem_append]
    rcases or_eq_some_iff.mp h with hpool | ⟨-, hledger⟩
    · obtain ⟨node, hnode, rfl⟩ := map_eq_some_iff.mp hpool
      exact .inl (List.mem_map_of_mem (GoMap.mem_values.mpr ⟨_, hnode⟩))
    · exact .inr (List.mem_of_find?_eq_some hledger)
  have hheight := List.mem_toFinset.mpr (List.mem_map_of_mem (f := (·.header.blockHeight)) hmem)
  refine card_lt_card ⟨fun x hx => ?_, fun hsub => ?_⟩
  · exact mem_filter.mpr ⟨(mem_filter.mp hx).1, (mem_filter.mp hx).2.trans hlt⟩
  · exact (mem_filter.mp (hsub (mem_filter.mpr ⟨hheight, hlt⟩))).2.false

variable {block locked : Block}

lemma Coherent.eq_or_lower (hc : cs.Coherent block locked) (hb : cs.Ancestor b block)
    (h : cs.Ancestor p b) : p = b ∨ p.header.blockHeight < b.header.blockHeight := by
  induction h with
  | refl => exact .inl rfl
  | @tail m p hm hp ih =>
    have hheight := hc.height m p (hb.trans hm) hp
    rcases ih with rfl | hlt
    · exact .inr (by omega)
    · exact .inr (by omega)

lemma Coherent.walk_ends (hc : cs.Coherent block locked) :
    ∃ b, cs.Ancestor b block ∧ (b.header.blockHeight ≤ locked.header.blockHeight ∨
      cs.getBlockByHash b.header.preBlockHash = none) := by
  -- Of all blocks that the walk can come to, a lowest one has no parent.
  have hlowest : ∀ n b, cs.Ancestor b block → b.header.blockHeight ≤ n →
      ∃ b, cs.Ancestor b block ∧ cs.getBlockByHash b.header.preBlockHash = none := by
    intro n
    induction n with
    | zero =>
      intro b hb hn
      refine ⟨b, hb, eq_none_iff_forall_ne_some.mpr fun p hp => ?_⟩
      have hheight := hc.height b p hb hp
      omega
    | succ n ih =>
      intro b hb hn
      cases hp : cs.getBlockByHash b.header.preBlockHash with
      | none => exact ⟨b, hb, hp⟩
      | some p =>
        have hheight := hc.height b p hb hp
        exact ih p (hb.tail hp) (by omega)
  obtain ⟨b, hb, hnone⟩ := hlowest _ block .refl le_rfl
  exact ⟨b, hb, .inr hnone⟩

end ChainStore

namespace SafetyRules
open ChainStore
variable {sr sr' : SafetyRules} {cs : ChainStore} {qc : QuorumCert} {block b : Block}

def LocksParent (cs : ChainStore) (qc : QuorumCert) (sr : SafetyRules) : Prop :=
  ∃ block prevQC, cs.blockPool.getBlockByID (bytes qc.blockId) = some block ∧
    cs.blockPool.getBlockByID block.header.preBlockHash = some sr.lockedBlock ∧
    cs.blockPool.getQCByID block.header.preBlockHash = some prevQC ∧ sr.lockedLevel = prevQC.level

lemma updateLockedQC_locks (h : sr.updateLockedQC cs qc = some sr') :
    sr.lockedLevel ≤ sr'.lockedLevel ∧ (sr' = sr ∨ LocksParent cs qc sr') := by
  rcases updateLockedQC_some h with rfl | ⟨block, prev, prevQC, hlt, hblock, hprev, hqc, rfl⟩
  · exact ⟨le_rfl, .inl rfl⟩
  · exact ⟨hlt.le, .inr ⟨block, prevQC, hblock, hprev, hqc, rfl⟩⟩

lemma climb_iff (hc : cs.Coherent block sr.lockedBlock) {fuel : ℕ} (hb : cs.Ancestor b block)
    (hfuel : #(cs.lower b.header.blockHeight) < fuel) :
    (sr.climb cs fuel b b.header.blockHeight).any
      (·.header.blockHash = sr.lockedBlock.header.blockHash) = true ↔
      cs.Extends b sr.lockedBlock := by
  induction fuel generalizing b with
  | zero => omega
  | succ fuel ih =>
    unfold climb
    split
    · next hlow =>
      have hne : b.header.blockHash ≠ sr.lockedBlock.header.blockHash :=
        fun hhash => (hc.hash b hb hhash ▸ hlow).false
      cases hp : cs.getBlockByHash b.header.preBlockHash with
      | none =>
        refine ⟨fun h => absurd h (by simp), fun ⟨c, h, hhash⟩ => ?_⟩
        rcases h.cases_head with rfl | ⟨p, hp', -⟩
        · exact absurd hhash hne
        · exact absurd (hp.symm.trans hp') (by simp)
      | some p =>
        have hheight := hc.height b p hb hp
        have hcard := Parent.card_lower_lt hp (by omega)
        refine (ih (hb.tail hp) (by omega)).trans
          ⟨fun ⟨c, h, hhash⟩ => ⟨c, h.head hp, hhash⟩, fun ⟨c, h, hhash⟩ => ?_⟩
        rcases h.cases_head with rfl | ⟨p', hp', h⟩
        · exact absurd hhash hne
        · exact ⟨c, mem_unique hp hp' ▸ h, hhash⟩
    · next hlow =>
      rw [any_some, decide_eq_true_iff]
      refine ⟨fun hhash => ⟨b, .refl, hhash⟩, fun ⟨c, h, hhash⟩ => ?_⟩
      rcases hc.eq_or_lower hb h with rfl | hlt
      · exact hhash
      · exact absurd (hc.hash c (hb.trans h) hhash ▸ hlt) hlow

/-- The lock only moves up and to the parent of a certified block, and the walk of `SafeNode` ends
and accepts the proposals that justify a higher level or extend the locked block. -/
theorem lock_discipline :
    (∀ (calls : List (ChainStore × QuorumCert)) (sr sr' : SafetyRules),
      Runs.run (fun sr call => sr.updateLockedQC call.1 call.2) sr calls = some sr' →
        sr.lockedLevel ≤ sr'.lockedLevel) ∧
    (∀ (sr sr' : SafetyRules) (cs : ChainStore) (qc : QuorumCert),
      sr.updateLockedQC cs qc = some sr' → sr' = sr ∨ LocksParent cs qc sr') ∧
    ∀ (sr : SafetyRules) (cs : ChainStore) (p : ProposalData),
      p.height = p.block.header.blockHeight → cs.Coherent p.block sr.lockedBlock →
      (∃ b, cs.Ancestor b p.block ∧ (b.header.blockHeight ≤ sr.lockedBlock.header.blockHeight ∨
        cs.getBlockByHash b.header.preBlockHash = none)) ∧
      (sr.safeNode cs p.block p.height p.justifyQc = true ↔
        sr.lockedLevel < p.justifyQc.level ∨ cs.Extends p.block sr.lockedBlock) := by
  refine ⟨fun calls sr sr' hrun => ?_, fun sr sr' cs qc h => (updateLockedQC_locks h).2,
    fun sr cs p hheight hc => ⟨hc.walk_ends, ?_⟩⟩
  · exact Runs.run_induction_all (I := fun s => sr.lockedLevel ≤ s.lockedLevel)
      (fun s _ s' hs h => hs.trans (updateLockedQC_locks h).1) le_rfl hrun
  · have hcard := card_lower_le cs p.block.header.blockHeight
    rw [safeNode, Bool.or_eq_true, decide_eq_true_iff, hheight]
    exact or_congr_right (climb_iff hc .refl (by omega))

def lockBlock (height : ℕ) (hash preHash : UInt8) : Block :=
  ⟨⟨height, [hash], [preHash], .missing⟩, [], none⟩

def certified (b : Block) : Block := addQCtoBlock b (.cert QuorumCert.zero)

def lockProposal : ProposalData := ⟨2, 4, 0, lockBlock 4 4 3, [], 0, QuorumCert.zero⟩

/-- The pool starts at the last block of the ledger. -/
def lockStore : ChainStore :=
  ⟨[certified (lockBlock 3 3 2), certified (lockBlock 2 2 1)], 0, 0, QuorumCert.zero,
    newBlockPool (certified (lockBlock 3 3 2)) QuorumCert.zero 0⟩

def lockRules : SafetyRules := ⟨0, none, none, 0, 0, lockBlock 2 2 1⟩

lemma lockStore_coherent : lockStore.Coherent lockProposal.block lockRules.lockedBlock := by
  have hpool : lockStore.getBlockByHash [3] = some (certified (lockBlock 3 3 2)) := rfl
  have hledger : lockStore.getBlockByHash [2] = some (certified (lockBlock 2 2 1)) := rfl
  have hend : lockStore.getBlockByHash [1] = none := rfl
  have hall : ∀ b, lockStore.Ancestor b lockProposal.block → b = lockProposal.block ∨
      b = certified (lockBlock 3 3 2) ∨ b = certified (lockBlock 2 2 1) := by
    intro b h
    induction h with
    | refl => exact .inl rfl
    | tail _ hp ih =>
      rcases ih with rfl | rfl | rfl
      · exact .inr (.inl (mem_unique hp hpool))
      · exact .inr (.inr (mem_unique hp hledger))
      · exact nomatch hend.symm.trans hp
  refine ⟨fun b p hb hp => ?_, fun b hb hhash => ?_⟩
  · rcases hall b hb with rfl | rfl | rfl
    · exact mem_unique hpool hp ▸ rfl
    · exact mem_unique hledger hp ▸ rfl
    · exact nomatch hend.symm.trans hp
  · rcases hall b hb with rfl | rfl | rfl
    · exact absurd hhash (by decide)
    · exact absurd hhash (by decide)
    · rfl

/-- The walk goes through the pool to the ledger, which has the locked block with a certificate. -/
theorem lock_discipline_crossing :
    lockStore.getBlockByHash [2] ≠ some lockRules.lockedBlock ∧
      lockRules.safeNode lockStore lockProposal.block 4 QuorumCert.zero = true := by
  have hrule := lock_discipline.2.2 lockRules lockStore lockProposal rfl lockStore_coherent
  have hwalk : lockStore.Ancestor (certified (lockBlock 2 2 1)) lockProposal.block :=
    .tail (.single (b := certified (lockBlock 3 3 2)) rfl) rfl
  refine ⟨fun h => ?_, hrule.2.mpr (.inr ⟨_, hwalk, rfl⟩)⟩
  have hextra := congrArg (·.extraData) (some.inj h)
  exact nomatch hextra

end SafetyRules
end ChainMaker.ChainedBft
