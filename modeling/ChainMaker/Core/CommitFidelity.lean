import ChainMaker.Core.Engine
import ChainMaker.Lib.Runs

/-! What `AddBlock` stores. It checks the block it is given, and stores the one that the cache has
under its fingerprint. -/

namespace ChainMaker.Core
open Option
namespace CoreEngine
variable {φ : Type} [DecidableEq φ] {env : Env φ} {sv : Services φ} {cs : CommitServices}
variable {c c' : CoreEngine φ} {r : ℕ} {block : Block} {mode : VerifyMode}

omit [DecidableEq φ] in
lemma recoverBlock_sync : c.recoverBlock env sv r block .syncVerify = .ok (r, block, c.heap) := by
  unfold recoverBlock
  rw [if_neg fun h => h.2 rfl]

/-- A call in sync mode that returns nil: either the cache had the fingerprint, or the certificate
was checked; the proposal of the block is then its own, or the one that was there. -/
inductive SyncPassed (env : Env φ) (c : CoreEngine φ) (r : ℕ) (block : Block) (c' : CoreEngine φ) :
    Prop
  | again (p : BlockProposal) (hp : c.getProposedBlock env block.header = some p)
      (haccepted : c'.log.accepted = c.log.accepted)
      (hq : ∀ q, c'.getProposedBlock env block.header = some q → q.block = r ∨ q.block = p.block)
  | new (hp : env.notSolo = true → c.getProposedBlock env block.header = none)
      (haccepted : c'.log.accepted = block :: c.log.accepted)
      (hq : c.getProposedBlock env block.header = none →
        ∀ q, c'.getProposedBlock env block.header = some q → q.block = r)

lemma verifyBlock_sync (hblock : c.heap.get r = some block)
    (hok : (c.verifyBlock env sv r .syncVerify).1 = .ok ()) :
    (c.verifyBlock env sv r .syncVerify).2.heap = c.heap ∧
      (c.verifyBlock env sv r .syncVerify).2.store = c.store ∧
      SyncPassed env c r block (c.verifyBlock env sv r .syncVerify).2 := by
  obtain ⟨c1, hverifies, hnote⟩ := verifyBlock_spec env sv .syncVerify hblock
  rw [hnote, hok]
  rw [hok] at hverifies
  cases hverifies with
  | @again p _ _ hp h =>
    have haccepted : c1.log.accepted = c.log.accepted := congrArg Log.accepted h.log
    refine ⟨h.heap, h.store, .again p hp haccepted fun q hq => ?_⟩
    obtain hq | ⟨p', hp', hq⟩ := h.getProposedBlock hq
    · exact .inl hq
    · exact .inr (hq.trans (congrArg BlockProposal.block (mem_unique hp' hp)))
  | new hp h =>
    cases h with
    | checked certified hrecover hvalid hcertified hsync h =>
      rw [recoverBlock_sync] at hrecover
      cases hrecover
      have hcert := hsync rfl rfl
      subst hcert
      have haccepted : c1.log.accepted = block :: c.log.accepted := congrArg Log.accepted h.log
      refine ⟨h.heap, h.store, .new hp haccepted fun hnone q hq => ?_⟩
      obtain hq | ⟨p', hp', -⟩ := h.getProposedBlock hq
      · exact hq
      · cases hnone.symm.trans hp'

structure Commits (c : CoreEngine φ) (p : BlockProposal) (c' : CoreEngine φ) : Prop where
  heap : c'.heap = c.heap
  log : c'.log = c.log
  proposalCache : c'.proposalCache.Within c.proposalCache
  store : c'.store = c.store ∨ ∃ stored rwSet, c.heap.get p.block = some stored ∧
    rearrangeRWSet stored p.rwSetMap = some rwSet ∧ c'.store = (stored, rwSet) :: c.store

lemma commitBlock_commits {p : BlockProposal} {height : UInt64} :
    Commits c p (c.commitBlock sv cs p height).2 ∧
      (c.commitBlock sv cs p height).2.proposalCache.Part c.proposalCache := by
  have hrefl : Commits c p c ∧ c.proposalCache.Part c.proposalCache :=
    ⟨⟨rfl, rfl, .refl, .inl rfl⟩, .refl⟩
  unfold commitBlock
  split
  · exact hrefl
  next stored hstored =>
  split
  · next rwSet events hrwSet hevents =>
    split
    · exact hrefl
    dsimp only
    generalize hc1 : ({ c with store := (stored, rwSet) :: c.store } : CoreEngine φ) = c1
    have hnotified : ∀ r, (c1.notifyCommitted cs r stored rwSet events).2.heap = c.heap ∧
        (c1.notifyCommitted cs r stored rwSet events).2.log = c.log ∧
        (c1.notifyCommitted cs r stored rwSet events).2.proposalCache = c.proposalCache ∧
        (c1.notifyCommitted cs r stored rwSet events).2.store = (stored, rwSet) :: c.store := by
      intro r
      subst hc1
      unfold notifyCommitted
      split
      · exact ⟨rfl, rfl, rfl, rfl⟩
      split
      · exact ⟨rfl, rfl, rfl, rfl⟩
      split
      · exact ⟨rfl, rfl, rfl, rfl⟩
      · exact ⟨rfl, rfl, rfl, rfl⟩
    obtain ⟨hheap, hlog, hcache, hstore⟩ := hnotified p.block
    have hstores := And.intro hstored (And.intro hrwSet hstore)
    split
    · exact ⟨⟨hheap, hlog, hcache ▸ .refl, .inr ⟨stored, rwSet, hstores⟩⟩, hcache ▸ .refl⟩
    · refine ⟨⟨hheap, hlog, ?_, .inr ⟨stored, rwSet, hstores⟩⟩, hcache ▸ .erase⟩
      exact hcache ▸ ProposalCache.Part.erase.within
  · exact hrefl

/-- The block that `AddBlock` stores for a block: the cached one under its fingerprint, or the block
itself if there is none. -/
inductive Stores (env : Env φ) (c : CoreEngine φ) (block : Block) : Block → Prop
  | cached {p : BlockProposal} {cached : Block} (hp : c.getProposedBlock env block.header = some p)
      (hcached : c.heap.get p.block = some cached) (hturbo : env.consensusMessageTurbo = false) :
      Stores env c block cached
  | turbo {p : BlockProposal} {cached : Block} (hp : c.getProposedBlock env block.header = some p)
      (hcached : c.heap.get p.block = some cached) (hturbo : env.consensusMessageTurbo = true) :
      Stores env c block { cached with
        header := block.header, additionalData := block.additionalData }
  | own (hp : c.getProposedBlock env block.header = none) : Stores env c block block

lemma Commits.stores {p : BlockProposal} {stored : Block} {rwSet : List Snapshot.TxRWSet}
    {store : List (Block × List Snapshot.TxRWSet)} (h : Commits c p c')
    (hc : c.store = store) (hstore : c'.store = (stored, rwSet) :: store) :
    c.heap.get p.block = some stored ∧ rearrangeRWSet stored p.rwSetMap = some rwSet := by
  obtain hsame | ⟨stored', rwSet', hget, hrwSet, hcons⟩ := h.store
  · exact absurd (hstore.symm.trans (hsame.trans hc)) (List.cons_ne_self _ _)
  · obtain ⟨hpair, -⟩ := List.cons.inj (hcons.symm.trans hstore)
    cases hpair
    exact ⟨hget, hrwSet⟩

lemma store_verifyBlock (hblock : c.heap.get r = some block) :
    (c.verifyBlock env sv r mode).2.store = c.store := by
  obtain ⟨c1, hverifies, hnote⟩ := verifyBlock_spec env sv mode hblock
  rw [hnote, notePassed_store]
  exact hverifies.extends.store

inductive Adds (env : Env φ) (sv : Services φ) (c : CoreEngine φ) (r : ℕ) (block : Block) :
    CoreEngine φ → Prop
  | refused : Adds env sv c r block c
  | unverified (hp : c.getProposedBlock env block.header = none) :
      Adds env sv c r block (c.verifyBlock env sv r .syncVerify).2
  | verified {p : BlockProposal} {c' : CoreEngine φ}
      (hp : c.getProposedBlock env block.header = none)
      (hok : (c.verifyBlock env sv r .syncVerify).1 = .ok ())
      (hq : (c.verifyBlock env sv r .syncVerify).2.getProposedBlock env block.header = some p)
      (h : Commits (c.verifyBlock env sv r .syncVerify).2 p c') : Adds env sv c r block c'
  | cached {p : BlockProposal} {cached : Block} {c' : CoreEngine φ}
      (hp : c.getProposedBlock env block.header = some p)
      (hcached : c.heap.get p.block = some cached)
      (h : Commits (if env.consensusMessageTurbo then
        { c with heap := c.heap.assign p.block r } else c) p c') : Adds env sv c r block c'

lemma addBlock_adds (hblock : c.heap.get r = some block) :
    Adds env sv c r block (c.addBlock env sv cs r).2 := by
  unfold addBlock
  rw [hblock]
  dsimp only
  split
  · exact .refused
  split
  · next hp =>
    have hunverified : Adds env sv c r block (c.verifyBlock env sv r .syncVerify).2 :=
      .unverified hp
    have hverified : ∀ p c', (c.verifyBlock env sv r .syncVerify).1 = .ok () →
        (c.verifyBlock env sv r .syncVerify).2.getProposedBlock env block.header = some p →
        Commits (c.verifyBlock env sv r .syncVerify).2 p c' → Adds env sv c r block c' :=
      fun p c' hok hq h => .verified hp hok hq h
    unfold checkLastProposedBlock
    generalize c.verifyBlock env sv r .syncVerify = verified at hunverified hverified
    obtain ⟨res, c1⟩ := verified
    cases res with
    | error e => exact hunverified
    | ok u =>
      dsimp only
      cases hq : c1.getProposedBlock env block.header with
      | none => exact hunverified
      | some p => exact hverified p _ rfl hq commitBlock_commits.1
  · next p hp =>
    split
    · exact .refused
    · next cached hcached => exact .cached hp hcached commitBlock_commits.1

lemma Adds.stores {stored : Block} {rwSet : List Snapshot.TxRWSet} (h : Adds env sv c r block c')
    (hblock : c.heap.get r = some block) (hstore : c'.store = (stored, rwSet) :: c.store) :
    Stores env c block stored := by
  have hrefused : c.store ≠ (stored, rwSet) :: c.store := fun h => List.cons_ne_self _ _ h.symm
  cases h with
  | refused => exact absurd hstore hrefused
  | unverified => exact absurd ((store_verifyBlock hblock).symm.trans hstore) hrefused
  | verified hp hok hq h =>
    obtain ⟨hget, -⟩ := h.stores (store_verifyBlock hblock) hstore
    obtain ⟨hheap, -, hpassed⟩ := verifyBlock_sync hblock hok
    cases hpassed with
    | again p' hp' => cases hp.symm.trans hp'
    | new _ _ hown =>
      rw [hheap, hown hp _ hq, hblock] at hget
      exact some.inj hget ▸ .own hp
  | cached hp hcached h =>
    split at h
    · next hturbo =>
      obtain ⟨hget, -⟩ := h.stores rfl hstore
      rw [Heap.get_assign hcached hblock] at hget
      exact some.inj hget ▸ .turbo hp hcached hturbo
    · next hturbo => exact .cached hp (h.stores rfl hstore).1 (Bool.eq_false_of_not_eq_true hturbo)

lemma accepted_verifyBlock (hblock : c.heap.get r = some block) :
    c.log.accepted ⊆ (c.verifyBlock env sv r mode).2.log.accepted := by
  obtain ⟨c1, hverifies, hnote⟩ := verifyBlock_spec env sv mode hblock
  rw [hnote]
  cases (c.verifyBlock env sv r mode).1 with
  | error | ok => exact hverifies.extends.accepted

lemma Adds.accepted (h : Adds env sv c r block c') (hblock : c.heap.get r = some block) :
    c.log.accepted ⊆ c'.log.accepted := by
  cases h with
  | refused => exact List.Subset.refl _
  | unverified => exact accepted_verifyBlock hblock
  | verified _ _ _ h => exact h.log ▸ accepted_verifyBlock hblock
  | cached _ _ h =>
    rw [h.log]
    split <;> exact List.Subset.refl _

lemma Adds.store (h : Adds env sv c r block c') (hblock : c.heap.get r = some block) :
    c'.store = c.store ∨ ∃ stored rwSet, c'.store = (stored, rwSet) :: c.store := by
  have hcommits : ∀ {c₀ p}, Commits c₀ p c' → c₀.store = c.store →
      c'.store = c.store ∨ ∃ stored rwSet, c'.store = (stored, rwSet) :: c.store := by
    intro c₀ p h hstore
    obtain hsame | ⟨stored, rwSet, -, -, hcons⟩ := h.store
    · exact .inl (hsame.trans hstore)
    · exact .inr ⟨stored, rwSet, hstore ▸ hcons⟩
  cases h with
  | refused => exact .inl rfl
  | unverified => exact .inl (store_verifyBlock hblock)
  | verified _ _ _ h => exact hcommits h (store_verifyBlock hblock)
  | cached _ _ h =>
    refine hcommits h ?_
    split <;> rfl

inductive Syncs (env : Env φ) (sv : Services φ) (cs : CommitServices) (c : CoreEngine φ) (r : ℕ) :
    CoreEngine φ → Prop
  | processed : Syncs env sv cs c r c
  | refused : Syncs env sv cs c r (c.verifyBlock env sv r .syncVerify).2
  | added (hok : (c.verifyBlock env sv r .syncVerify).1 = .ok ()) :
      Syncs env sv cs c r
        (((c.verifyBlock env sv r .syncVerify).2.addBlock env sv cs r).2.noteSynced
          (c.verifyBlock env sv r .syncVerify).2)

lemma validateAndCommitBlock_syncs :
    Syncs env sv cs c r (c.validateAndCommitBlock env sv cs r).2 := by
  have hrefused : Syncs env sv cs c r (c.verifyBlock env sv r .syncVerify).2 := .refused
  have hadded : (c.verifyBlock env sv r .syncVerify).1 = .ok () → Syncs env sv cs c r
      (((c.verifyBlock env sv r .syncVerify).2.addBlock env sv cs r).2.noteSynced
        (c.verifyBlock env sv r .syncVerify).2) := .added
  unfold validateAndCommitBlock
  split
  · exact .processed
  split
  · exact .processed
  generalize c.verifyBlock env sv r .syncVerify = verified at hrefused hadded
  obtain ⟨res, c₁⟩ := verified
  split
  · next heq => exact (Prod.mk.inj heq).2 ▸ hrefused
  · next heq => exact (Prod.mk.inj heq).2 ▸ hrefused
  next heq =>
  cases heq
  have hadded := hadded rfl
  generalize c₁.addBlock env sv cs r = added at hadded
  obtain ⟨res, c₂⟩ := added
  split
  · next heq => exact (Prod.mk.inj heq).2 ▸ hadded
  · next heq => exact (Prod.mk.inj heq).2 ▸ hadded
  · next heq => exact (Prod.mk.inj heq).2 ▸ hadded

structure Faithful (stored block : Block) : Prop where
  blockHash : stored.header.blockHash = block.header.blockHash
  txIds : stored.txs.map Transaction.txId = block.txs.map Transaction.txId
  additionalData : stored.additionalData = block.additionalData

/-- What the cache has under the fingerprint of the block has its transactions, and without message
turbo also its hash and its certificate. -/
def CachedFaithfully (env : Env φ) (c : CoreEngine φ) (block : Block) : Prop :=
  ∀ p cached, c.getProposedBlock env block.header = some p → c.heap.get p.block = some cached →
    cached.txs.map Transaction.txId = block.txs.map Transaction.txId ∧
      (env.consensusMessageTurbo = false → cached.header.blockHash = block.header.blockHash ∧
        cached.additionalData = block.additionalData)

theorem addBlock_faithful_iff (env : Env φ) (sv : Services φ) (cs : CommitServices)
    (c : CoreEngine φ) (r : ℕ) (block stored : Block) (rwSet : List Snapshot.TxRWSet)
    (hblock : c.heap.get r = some block)
    (hstore : (c.addBlock env sv cs r).2.store = (stored, rwSet) :: c.store) :
    Faithful stored block ↔ CachedFaithfully env c block := by
  constructor
  · intro h p cached hp hcached
    have hstores : Stores env c block stored := (addBlock_adds hblock).stores hblock hstore
    cases hstores with
    | cached hp' hcached' hturbo =>
      cases hp.symm.trans hp'
      cases hcached.symm.trans hcached'
      exact ⟨h.txIds, fun _ => ⟨h.blockHash, h.additionalData⟩⟩
    | turbo hp' hcached' hturbo =>
      cases hp.symm.trans hp'
      cases hcached.symm.trans hcached'
      exact ⟨h.txIds, fun hoff => absurd (hturbo.symm.trans hoff) nofun⟩
    | own hp' => cases hp.symm.trans hp'
  · intro h
    have hstores : Stores env c block stored := (addBlock_adds hblock).stores hblock hstore
    cases hstores with
    | cached hp hcached hturbo =>
      obtain ⟨htxs, hrest⟩ := h _ _ hp hcached
      exact ⟨(hrest hturbo).1, htxs, (hrest hturbo).2⟩
    | turbo hp hcached hturbo => exact ⟨rfl, (h _ _ hp hcached).1, rfl⟩
    | own hp => exact ⟨rfl, rfl, rfl⟩


def smallEnv (consensusType : ConsensusType) : Env Snapshot.BlockHeader where
  calcFingerPrint header := header
  isEmptyBlock block := block.header.blockHash.isNone || block.header.signature.isNone
  calcBlockHash block := some (UInt8.ofNat block.header.blockHeight.toNat ::
    block.header.txRoot ++ block.header.consensusArgs)
  calcDagHash dag := dag.map fun dag => dag.vertexes.flatten.map UInt8.ofNat
  calcRWSetHash rwSet := rwSet.map (·.txId)
  calcRWSetRoot txs := some ((txs.filterMap (·.result)).flatMap (·.rwSetHash))
  calcTxHash tx := tx.payload.map fun payload => payload.txId ++ payload.content
  calcTxRequestHash tx := tx.payload.map fun payload => payload.txId ++ payload.content
  calcTxResultHash result := result.map (·.rwSetHash)
  getMerkleRoot hashes := some hashes.flatten
  canProposeEmptyBlock consensusType := consensusType = .hotstuff
  chainId := "chain1"
  consensusType := consensusType
  enableSqlSupport := false
  blockTxCapacity := 10
  consensusMessageTurbo := false
  retryTime := 1

def agreeable : Services Snapshot.BlockHeader where
  visit := ⟨fun keys => keys, fun keys => .refl keys⟩
  recoverTxs _ _ := ∅
  getTxsByTxIds _ := (∅, ∅)
  txExists _ := some false
  verifyTxWithoutPayload _ := true
  verifyBlockSig _ := true
  simulateWithDag block :=
    let txIds := block.txs.filterMap Transaction.txId
    some (txIds.foldl (fun sets txId => sets.insert txId ⟨txId, [], []⟩) ∅,
      txIds.foldl (fun results txId => results.insert txId ⟨0, [], [], []⟩) ∅)
  verifyBlockSignatures block := block.additionalData.isSome

def smallTx (n : UInt8) : Transaction := ⟨some ⟨[n], [n]⟩, [], [], some ⟨0, [], [], [n]⟩⟩

def genesis : Block :=
  ⟨⟨"chain1", 0, 0, [1], none, [], [], [], some [0], 0, 0, false, [], 0, some []⟩,
    some ⟨[]⟩, [], none⟩

def blockOne (consensusArgs : Bytes) (additionalData : Option AdditionalData) : Block where
  header := ⟨"chain1", 1, 7, [1], some [0], [5, 5], [], [5],
    some ([1, 5, 5] ++ consensusArgs), 0, 0, false, consensusArgs, 1, some []⟩
  dag := some ⟨[[]]⟩
  txs := [smallTx 5]
  additionalData := additionalData

def certificate : Option AdditionalData := some [("QC", [1])]

def attached : List (Event Snapshot.BlockHeader) :=
  [.receive (blockOne [] none), .verifyBlock agreeable 1 .consensusVerify, .attach 1 certificate]

theorem addBlock_faithful_attached :
    ∃ c, Runs.run (step (smallEnv .tbft)) (start genesis) attached = some c ∧
      (c.addBlock (smallEnv .tbft) agreeable {} 1).2.store =
        (blockOne [] certificate, [⟨[5], [], []⟩]) :: c.store ∧
      CachedFaithfully (smallEnv .tbft) c (blockOne [] certificate) :=
  ⟨_, eq_some_of_isSome (by decide +kernel), by decide +kernel,
    (addBlock_faithful_iff (smallEnv .tbft) agreeable {} _ 1 (blockOne [] certificate)
    (blockOne [] certificate) [⟨[5], [], []⟩] (by decide +kernel) (by decide +kernel)).mp
      ⟨rfl, rfl, rfl⟩⟩

def cloned : List (Event Snapshot.BlockHeader) :=
  [.receive (blockOne [1] none), .verifyBlock agreeable 1 .consensusVerify,
    .receive (blockOne [1] certificate)]

def reproposed : List (Event Snapshot.BlockHeader) :=
  [.receive (blockOne [1] none), .verifyBlock agreeable 1 .consensusVerify,
    .receive (blockOne [2] none), .verifyBlock agreeable 2 .consensusVerify]

theorem addBlock_not_faithful :
    (∃ c, Runs.run (step (smallEnv .hotstuff)) (start genesis) cloned = some c ∧
      c.heap.get 2 = some (blockOne [1] certificate) ∧
      (c.addBlock (smallEnv .hotstuff) agreeable {} 2).2.store =
        (blockOne [1] none, [⟨[5], [], []⟩]) :: c.store ∧
      (blockOne [1] none).additionalData ≠ (blockOne [1] certificate).additionalData) ∧
    ∃ c, Runs.run (step (smallEnv .hotstuff)) (start genesis) reproposed = some c ∧
      c.heap.get 2 = some (blockOne [2] none) ∧
      (c.addBlock (smallEnv .hotstuff) agreeable {} 2).2.store =
        (blockOne [1] none, [⟨[5], [], []⟩]) :: c.store ∧
      (blockOne [1] none).header.blockHash ≠ (blockOne [2] none).header.blockHash :=
  ⟨⟨_, eq_some_of_isSome (by decide +kernel), by decide +kernel⟩,
    _, eq_some_of_isSome (by decide +kernel), by decide +kernel⟩
end CoreEngine
end ChainMaker.Core
