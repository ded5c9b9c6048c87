import ChainMaker.Core.Committing
import ChainMaker.Core.CommitErrors

/-! The blocks that reach the store form a chain, whatever happens between the steps of `AddBlock`.
-/

namespace ChainMaker.Core
open Option List ProposalCache

lemma Heap.get_assign_ne {heap : Heap} {r r' source : ℕ} (h : r ≠ r') :
    (heap.assign r' source).get r = heap.get r := by
  unfold assign
  split
  · rfl
  unfold get
  rw [getElem?_modify_ne _ _ h.symm]

/-! ### Blocks that stay what they are -/

section content
variable {φ : Type} (env : Env φ)

structure SameKey (b' b : Block) : Prop where
  fingerPrint : env.fingerPrint b'.header = env.fingerPrint b.header
  blockHeight : b'.header.blockHeight = b.header.blockHeight
  dag : b'.dag = b.dag

structure SameContent (b' b : Block) : Prop extends SameKey env b' b where
  txs : b'.txs = b.txs

variable {env} {b b' b'' : Block}

lemma SameKey.trans (h' : SameKey env b'' b') (h : SameKey env b' b) : SameKey env b'' b :=
  ⟨h'.fingerPrint.trans h.fingerPrint, h'.blockHeight.trans h.blockHeight, h'.dag.trans h.dag⟩

lemma SameKey.symm (h : SameKey env b' b) : SameKey env b b' :=
  ⟨h.fingerPrint.symm, h.blockHeight.symm, h.dag.symm⟩

lemma SameContent.refl : SameContent env b b := ⟨⟨rfl, rfl, rfl⟩, rfl⟩

lemma SameContent.trans (h' : SameContent env b'' b') (h : SameContent env b' b) :
    SameContent env b'' b := ⟨h'.toSameKey.trans h.toSameKey, h'.txs.trans h.txs⟩

lemma SameContent.symm (h : SameContent env b' b) : SameContent env b b' :=
  ⟨h.toSameKey.symm, h.txs.symm⟩

end content

namespace Heap
variable {φ : Type} {env : Env φ} {heap heap' heap'' : Heap} {r : ℕ}

def Keeps (env : Env φ) (heap heap' : Heap) : Prop :=
  ∀ r b, heap.get r = some b → ∃ b', heap'.get r = some b' ∧ SameContent env b' b

lemma Keeps.of_get (h : ∀ r b, heap.get r = some b → heap'.get r = some b) :
    Keeps env heap heap' := fun r b hb => ⟨b, h r b hb, .refl⟩

lemma Keeps.refl : Keeps env heap heap := .of_get fun _ _ hb => hb

lemma Keeps.trans (h : Keeps env heap heap') (h' : Keeps env heap' heap'') :
    Keeps env heap heap'' := by
  intro r b hb
  obtain ⟨b', hb', hsame⟩ := h r b hb
  obtain ⟨b'', hb'', hsame'⟩ := h' r b' hb'
  exact ⟨b'', hb'', hsame'.trans hsame⟩

lemma keeps_sign (consensusArgs hash signature : Bytes) :
    Keeps env heap (heap.modifyHeader r fun header =>
      { header with consensusArgs, blockHash := some hash, signature := some signature }) := by
  intro r' b hb
  obtain ⟨o, ho, hheader, hrest⟩ := get_eq_some_iff.mp hb
  unfold modifyHeader
  split
  · exact ⟨b, hb, .refl⟩
  next o' _ =>
  by_cases hsame : o'.header = o.header
  · refine ⟨{ b with header := { b.header with
      consensusArgs, blockHash := some hash, signature := some signature } },
      get_eq_some_iff.mpr ⟨o, ho, ?_, hrest⟩, ⟨rfl, rfl, rfl⟩, rfl⟩
    rw [getElem?_modify, hheader]
    exact congrArg some (if_pos hsame)
  · refine ⟨b, get_eq_some_iff.mpr ⟨o, ho, ?_, hrest⟩, .refl⟩
    rw [getElem?_modify, hheader]
    exact congrArg some (if_neg hsame)

lemma keeps_setAdditionalData (r : ℕ) (data : Option AdditionalData) :
    Keeps env heap (heap.setAdditionalData r data) := by
  intro r' b hb
  obtain ⟨b', hb', hheader, htxs, hdag⟩ := get_setAdditionalData r data hb
  exact ⟨b', hb', ⟨by rw [hheader], by rw [hheader], hdag⟩, htxs⟩

end Heap

/-! ### The chain in the store -/

structure Block.Follows (block last : Block) : Prop where
  height : block.header.blockHeight.toNat = last.header.blockHeight.toNat + 1
  preBlockHash : block.header.preBlockHash.getD [] = last.header.blockHash.getD []

/-- Blocks of consecutive heights, each with the hash of the one before, the last one first. -/
def Chain (blocks : List Block) : Prop := blocks.IsChain Block.Follows

lemma Chain.nodup {blocks : List Block} (h : Chain blocks) :
    (blocks.map (·.header.blockHeight)).Nodup := by
  have hpairwise : (blocks.map (·.header.blockHeight.toNat)).Pairwise (· > ·) := by
    refine isChain_iff_pairwise.mp ?_
    refine (isChain_map _).mpr (h.imp fun block last hfollows => ?_)
    have := hfollows.height
    omega
  rw [pairwise_map] at hpairwise
  exact pairwise_map.mpr
    (hpairwise.imp fun hgt heq => absurd (congrArg UInt64.toNat heq) (by omega))

namespace CoreEngine
variable {φ : Type} [DecidableEq φ] {env : Env φ} {sv : Services φ} {cs : CommitServices}
  {mode : VerifyMode}
variable {c c' : CoreEngine φ} {r : ℕ} {block : Block} {P : UInt64 → φ → ℕ → Option RWSetMap → Prop}

omit [DecidableEq φ] in
lemma follows_of_isBlockLegal (h : c.isBlockLegal env block = .ok ()) :
    ∃ last, c.getLastCommittedBlock = some last ∧ block.Follows last := by
  unfold isBlockLegal at h
  split at h
  · cases h
  next last hlast =>
  refine ⟨last, hlast, ?_⟩
  split at h
  · cases h
  next hlower =>
  split at h
  · cases h
  next hnext =>
  split at h
  · cases h
  next hhash =>
  have hheight : block.header.blockHeight = last.header.blockHeight + 1 := not_not.mp hnext
  have hlt : last.header.blockHeight.toNat < block.header.blockHeight.toNat :=
    UInt64.lt_iff_toNat_lt.mp (UInt64.not_le.mp hlower)
  have hadd := congrArg UInt64.toNat hheight
  rw [UInt64.toNat_add, UInt64.toNat_one] at hadd
  exact ⟨by omega, not_not.mp hhash⟩

def Keyed (env : Env φ) (heap : Heap) : ProposalCache φ → Prop :=
  Each fun height k r _ => ∃ block, heap.get r = some block ∧
    block.header.blockHeight = height ∧ env.fingerPrint block.header = k

lemma Keyed.getProposedBlock {p : BlockProposal} {header : BlockHeader}
    (hfp : Function.Injective env.calcFingerPrint) (h : Keyed env c.heap c.proposalCache)
    (hp : c.getProposedBlock env header = some p) :
    ∃ cached, c.heap.get p.block = some cached ∧
      cached.header.fingerPrinted = header.fingerPrinted := by
  obtain ⟨cached, hcached, -, hk⟩ := h _ _ p hp
  exact ⟨cached, hcached, hfp hk⟩

lemma Keyed.keeps {heap heap' : Heap} {pc : ProposalCache φ} (h : Keyed env heap pc)
    (hheap : heap.Keeps env heap') : Keyed env heap' pc := by
  refine ProposalCache.Each.mono h fun height k r _ => ?_
  rintro ⟨b, hb, hheight, hfp⟩
  obtain ⟨b', hb', hsame⟩ := hheap r b hb
  exact ⟨b', hb', hsame.blockHeight.trans hheight, hsame.fingerPrint.trans hfp⟩

lemma each_changeCache (op : CacheOp φ) (hP : ∀ r block rwSetMap, c.heap.get r = some block →
      P block.header.blockHeight (env.fingerPrint block.header) r rwSetMap)
    (h : c.proposalCache.Each P) : (c.changeCache env op).Each P := by
  unfold changeCache
  cases op with
  | setProposedBlock r rwSetMap events selfPropose =>
    dsimp only
    split
    · next proposalCache hset =>
      obtain ⟨block, hblock, hset⟩ := map_eq_some_iff.mp hset
      exact h.set (hP r block rwSetMap hblock) hset
    · exact h
  | clearProposedBlockAt height => exact h.within Part.erase.within
  | clearTheBlock r =>
    dsimp only
    split
    · exact h
    · exact h.within (part_clearTheBlock _).within
  | keepProposedBlock visit hash height => exact h.within (part_keepProposedBlock hash).within
  | discardAboveHeight visit baseHeight =>
    exact h.within (part_discardAboveHeight visit baseHeight).within
  | setProposedAt visit height => exact h.within (within_markProposedAt true)
  | resetProposedAt visit height => exact h.within (within_markProposedAt false)

lemma keyed_changeCache (op : CacheOp φ) (h : Keyed env c.heap c.proposalCache) :
    Keyed env c.heap (c.changeCache env op) :=
  each_changeCache op (fun _ block _ hblock => ⟨block, hblock, rfl, rfl⟩) h

lemma each_verifyBlock (hblock : c.heap.get r = some block)
    (hP : ∀ rwSetMap, P block.header.blockHeight (env.fingerPrint block.header) r rwSetMap)
    (h : c.proposalCache.Each P) : (c.verifyBlock env sv r .syncVerify).2.proposalCache.Each P := by
  obtain ⟨c₁, hverifies, hnote⟩ := verifyBlock_spec env sv .syncVerify hblock
  suffices heach : c₁.proposalCache.Each P by
    rw [hnote]
    cases (c.verifyBlock env sv r .syncVerify).1 with
    | error | ok => exact heach
  generalize (c.verifyBlock env sv r .syncVerify).1 = res at hverifies
  cases hverifies with
  | empty => exact h
  | again hp hcaches => exact hcaches.each _ h (hP _)
  | new hp hnew =>
    cases hnew with
    | refused e hheap hcuts => exact h.within hcuts.proposalCache
    | checked certified hrecover hvalid hcertified hsync hcaches =>
      rw [recoverBlock_sync] at hrecover
      cases hrecover
      exact hcaches.each _ h (hP _)

def Linked (c : CoreEngine φ) : Prop :=
  ∃ last rwSet older, c.getLastCommittedBlock = some last ∧ c.store = (last, rwSet) :: older

def Awaits (c : CoreEngine φ) (r : ℕ) (height : UInt64) : Prop :=
  ∃ last block, c.getLastCommittedBlock = some last ∧ c.heap.get r = some block ∧
    block.Follows last ∧ block.header.blockHeight = height

structure Grows (c c' : CoreEngine φ) : Prop where
  get : ∀ r block, c.heap.get r = some block → c'.heap.get r = some block
  lastCommittedBlock : c'.lastCommittedBlock = c.lastCommittedBlock
  store : c'.store = c.store

namespace Grows

section
omit [DecidableEq φ]

lemma getLastCommittedBlock {last : Block} (h : Grows c c')
    (hlast : c.getLastCommittedBlock = some last) : c'.getLastCommittedBlock = some last := by
  obtain ⟨r, hr, hget⟩ := bind_eq_some_iff.mp hlast
  exact bind_eq_some_iff.mpr ⟨r, h.lastCommittedBlock.trans hr, h.get r last hget⟩

end

lemma keyed (h : Grows c c') {proposalCache : ProposalCache φ}
    (hkeyed : Keyed env c.heap proposalCache) : Keyed env c'.heap proposalCache := by
  refine hkeyed.mono fun height k r rwSetMap => ?_
  rintro ⟨block, hblock, hrest⟩
  exact ⟨block, h.get r block hblock, hrest⟩

end Grows

structure Keeps (env : Env φ) (c c' : CoreEngine φ) : Prop where
  store : c'.store = c.store
  getLastCommittedBlock : c'.getLastCommittedBlock = c.getLastCommittedBlock
  keyed : Keyed env c'.heap c'.proposalCache

lemma Keeps.linked (h : Keeps env c c') : c.Linked → c'.Linked := by
  rintro ⟨last, rwSet, older, hlast, hstore⟩
  exact ⟨last, rwSet, older, h.getLastCommittedBlock.trans hlast, h.store.trans hstore⟩

lemma Keeps.awaits {height : UInt64} (h : Keeps env c c')
    (hget : ∀ block, c.heap.get r = some block → c'.heap.get r = some block) :
    c.Awaits r height → c'.Awaits r height := by
  rintro ⟨last, block, hlast, hblock, hrest⟩
  exact ⟨last, block, h.getLastCommittedBlock.trans hlast, hget block hblock, hrest⟩

lemma Grows.keeps {last : Block} (h : Grows c c') (hlast : c.getLastCommittedBlock = some last)
    (hkeyed : Keyed env c'.heap c'.proposalCache) : Keeps env c c' :=
  ⟨h.store, (h.getLastCommittedBlock hlast).trans hlast.symm, hkeyed⟩

lemma grows_verifyBlock (hblock : c.heap.get r = some block) :
    Grows c (c.verifyBlock env sv r mode).2 := by
  obtain ⟨c₁, hverifies, hnote⟩ := verifyBlock_spec env sv mode hblock
  have hextends := hverifies.extends
  rw [hnote]
  cases (c.verifyBlock env sv r mode).1 with
  | error | ok => exact { hextends with }

lemma keyed_verifyBlock (hblock : c.heap.get r = some block)
    (h : Keyed env c.heap c.proposalCache) : Keyed env (c.verifyBlock env sv r mode).2.heap
      (c.verifyBlock env sv r mode).2.proposalCache := by
  obtain ⟨c₁, hverifies, hnote⟩ := verifyBlock_spec env sv mode hblock
  rw [hnote]
  generalize (c.verifyBlock env sv r mode).1 = res at hverifies
  suffices hkeyed : Keyed env c₁.heap c₁.proposalCache by
    cases res with
    | error | ok => exact hkeyed
  have hextends := hverifies.extends
  have hgrows : Grows c c₁ := { hextends with }
  cases hverifies with
  | empty => exact h
  | again hp hcaches =>
    exact hcaches.each _ (hgrows.keyed h) ⟨block, hextends.get _ _ hblock, rfl, rfl⟩
  | new hp hnew =>
    cases hnew with
    | refused e hheap hcuts => exact (hgrows.keyed h).within hcuts.proposalCache
    | checked certified hrecover hvalid hcertified hsync hcaches =>
      obtain ⟨hget, -⟩ := (recoverBlock_spec hrecover).2 hblock
      exact hcaches.each _ (hgrows.keyed h) ⟨_, hcaches.heap ▸ hget, rfl, rfl⟩

section
variable {p : BlockProposal} {height : UInt64} (hfp : Function.Injective env.calcFingerPrint)
  (hkeyed : Keyed env c.heap c.proposalCache) (h : c.Awaits r height)
  (hblock : c.heap.get r = some block) (hp : c.getProposedBlock env block.header = some p)
include hfp hkeyed h hblock hp

lemma Awaits.proposal : c.Awaits p.block height := by
  obtain ⟨last, block', hlast, hblock', hfollows, hheight⟩ := h
  cases hblock.symm.trans hblock'
  obtain ⟨cached, hcached, heq⟩ := hkeyed.getProposedBlock hfp hp
  have hheight' : cached.header.blockHeight = block.header.blockHeight :=
    congrArg Snapshot.BlockHeader.blockHeight heq
  have hpre : cached.header.preBlockHash.getD [] = block.header.preBlockHash.getD [] :=
    congrArg Snapshot.BlockHeader.preBlockHash heq
  exact ⟨last, cached, hlast, hcached,
    ⟨hheight' ▸ hfollows.height, hpre.trans hfollows.preBlockHash⟩, hheight'.trans hheight⟩

lemma Awaits.assign : Keeps env c { c with heap := c.heap.assign p.block r } ∧
    ({ c with heap := c.heap.assign p.block r } : CoreEngine φ).Awaits p.block height := by
  obtain ⟨cached, hcached, heq⟩ := hkeyed.getProposedBlock hfp hp
  have hassign := Heap.get_assign hcached hblock
  have hcachedAwaits := h.proposal hfp hkeyed hblock hp
  obtain ⟨last, cached', hlast, hcached', hfollows', -⟩ := hcachedAwaits
  cases hcached.symm.trans hcached'
  obtain ⟨last', block', hlast', hblock', hfollows, hheight⟩ := h
  cases hlast.symm.trans hlast'
  cases hblock.symm.trans hblock'
  have hsame : ({ c with heap := c.heap.assign p.block r } : CoreEngine φ).getLastCommittedBlock =
      c.getLastCommittedBlock := by
    obtain ⟨r₀, hr₀, hget₀⟩ := bind_eq_some_iff.mp hlast
    -- The cached block is one higher than the last committed one, so it is another object.
    have hne : r₀ ≠ p.block := by
      rintro rfl
      cases hget₀.symm.trans hcached
      exact absurd hfollows'.height (by omega)
    unfold getLastCommittedBlock
    rw [hr₀, bind_some, bind_some, Heap.get_assign_ne hne]
  refine ⟨⟨rfl, hsame, fun height' k q hq => ?_⟩, last, _, hsame.trans hlast, hassign,
    ⟨hfollows.height, hfollows.preBlockHash⟩, hheight⟩
  obtain ⟨b, hb, hbheight, hbk⟩ := hkeyed _ _ q hq
  by_cases hqp : q.block = p.block
  · rw [hqp] at hb ⊢
    cases hcached.symm.trans hb
    refine ⟨_, hassign, ?_, ?_⟩
    · exact (congrArg Snapshot.BlockHeader.blockHeight heq).symm.trans hbheight
    · exact (congrArg env.calcFingerPrint heq).symm.trans hbk
  · exact ⟨b, (Heap.get_assign_ne hqp).trans hb, hbheight, hbk⟩

end

end CoreEngine

open CoreEngine

def Turn.Completes {φ : Type} (t : Turn φ) : Prop :=
  match t with
  | .next _ cs => cs.completes = true
  | _ => True

namespace Committer
variable {φ : Type} [DecidableEq φ] {env : Env φ} {sv : Services φ} {cs : CommitServices}
  {height : UInt64}
variable {s s' : Committer φ} {c c' : CoreEngine φ} {call : Call} {res : Except CoreError Unit}

def succeeded (s : Committer φ) : List UInt64 :=
  (s.returned.filter (·.2.2.isOk)).map (·.2.1)

def Settled (c : CoreEngine φ) (succeeded : List UInt64) (height : UInt64) : Prop :=
  c.Linked ∧ (∃ last, c.getLastCommittedBlock = some last ∧ last.header.blockHeight = height) ∧
    ∀ h ∈ succeeded, h < height

def Ready (c : CoreEngine φ) (succeeded : List UInt64) (call : Call) : Prop :=
  match call.stage with
  | .check => c.Linked ∧ ∃ block, c.heap.get call.block = some block ∧
      block.header.blockHeight = call.height
  | .look => c.Linked ∧ c.Awaits call.block call.height
  | .verify => c.Linked ∧ c.Awaits call.block call.height
  | .lookAgain => c.Linked ∧ c.Awaits call.block call.height
  | .put p => c.Linked ∧ c.Awaits p.block call.height
  | .notify p block _ _ => c.heap.get p.block = some block ∧ c.Awaits p.block call.height ∧
      ∃ rwSet older, c.store = (block, rwSet) :: older
  | .retry _ _ => Settled c succeeded call.height
  | .clear _ => Settled c succeeded call.height
  | .publish _ => Settled c succeeded call.height

/-- The store is a chain, and the calls that returned nil did so for growing heights. -/
structure Chained (env : Env φ) (s : Committer φ) : Prop where
  chain : Chain (s.engine.store.map (·.1))
  keyed : Keyed env s.engine.heap s.engine.proposalCache
  increasing : s.succeeded.Pairwise (· > ·)
  reached : ∃ last, s.engine.getLastCommittedBlock = some last ∧
    ∀ h ∈ s.succeeded, h ≤ last.header.blockHeight
  idle : s.holder = none → s.engine.Linked
  ready : ∀ call, s.holder = some call → Ready s.engine s.succeeded call

lemma Settled.keeps {succeeded : List UInt64} (hkeeps : Keeps env c c')
    (h : Settled c succeeded height) : Settled c' succeeded height := by
  obtain ⟨hlinked, ⟨last, hlast, hheight⟩, hlower⟩ := h
  exact ⟨hkeeps.linked hlinked, ⟨last, hkeeps.getLastCommittedBlock.trans hlast, hheight⟩, hlower⟩

lemma Ready.keeps {succeeded : List UInt64} (hkeeps : Keeps env c c')
    (hget : ∀ r ∈ call.blocks, ∀ block, c.heap.get r = some block → c'.heap.get r = some block)
    (h : Ready c succeeded call) : Ready c' succeeded call := by
  unfold Ready at h ⊢
  unfold Call.blocks at hget
  cases hstage : call.stage with
  | check =>
    rw [hstage] at h hget
    obtain ⟨hlinked, block, hblock, hheight⟩ := h
    exact ⟨hkeeps.linked hlinked, block, hget _ mem_cons_self _ hblock, hheight⟩
  | look | verify | lookAgain =>
    rw [hstage] at h hget
    exact ⟨hkeeps.linked h.1, hkeeps.awaits (hget _ mem_cons_self) h.2⟩
  | put p =>
    rw [hstage] at h hget
    exact ⟨hkeeps.linked h.1, hkeeps.awaits (hget _ (mem_cons_of_mem _ mem_cons_self)) h.2⟩
  | notify p block rwSet events =>
    rw [hstage] at h hget
    obtain ⟨hblock, hawaits, rwSet, older, hstore⟩ := h
    have hput := hget _ (mem_cons_of_mem _ mem_cons_self)
    exact ⟨hput _ hblock, hkeeps.awaits hput hawaits, rwSet, older, hkeeps.store.trans hstore⟩
  | retry | clear | publish =>
    rw [hstage] at h
    exact h.keeps hkeeps

section
omit [DecidableEq φ]

lemma holder_finish {call' : Call} : (s.finish call c res).holder ≠ some call' :=
  (some_ne_none call').symm

lemma succeeded_error (e : CoreError) : (s.finish call c (.error e)).succeeded = s.succeeded := by
  simp [succeeded, finish, Except.isOk, Except.toBool]

lemma succeeded_ok : (s.finish call c (.ok ())).succeeded = call.height :: s.succeeded := by
  simp [succeeded, finish, Except.isOk, Except.toBool]

end

namespace Chained

lemma keeps (h : Chained env s) (hkeeps : Keeps env s.engine c)
    (hget : ∀ call, s.holder = some call → ∀ r ∈ call.blocks, ∀ block,
      s.engine.heap.get r = some block → c.heap.get r = some block) :
    Chained env { s with engine := c } := by
  obtain ⟨last, hlast, hreached⟩ := h.reached
  exact ⟨hkeeps.store ▸ h.chain, hkeeps.keyed, h.increasing,
    ⟨last, hkeeps.getLastCommittedBlock.trans hlast, hreached⟩,
    fun hidle => hkeeps.linked (h.idle hidle),
    fun call hcall => (h.ready call hcall).keeps hkeeps (hget call hcall)⟩

lemma grows (h : Chained env s) (hgrows : Grows s.engine c)
    (hkeyed : Keyed env c.heap c.proposalCache) : Chained env { s with engine := c } := by
  obtain ⟨last, hlast, -⟩ := h.reached
  exact h.keeps (hgrows.keeps hlast hkeyed) fun _ _ r _ => hgrows.get r

lemma change (h : Chained env s) (hchange : s.change c = some s')
    (hheap : s.engine.heap.Keeps env c.heap) (hstore : c.store = s.engine.store)
    (hlast : c.lastCommittedBlock = s.engine.lastCommittedBlock)
    (hcache : c.proposalCache = s.engine.proposalCache) : Chained env s' := by
  obtain ⟨huse, hs'⟩ := ite_none_right_eq_some.mp hchange
  cases hs'
  refine h.keeps ⟨hstore, ?_, hcache ▸ h.keyed.keeps hheap⟩ fun call hcall r hr block hblock => ?_
  · unfold getLastCommittedBlock
    rw [hlast]
    refine bind_congr fun r hr => huse r (mem_append_left _ ?_)
    rw [mem_toList]
    exact hr
  · refine (huse r (mem_append_right _ ?_)).trans hblock
    rw [hcall]
    exact mem_flatMap.mpr ⟨call, mem_cons_self, hr⟩

lemma goTo (h : Chained env s) {stage : Stage} (hkeeps : Keeps env s.engine c)
    (hready : Ready c s.succeeded { call with stage }) : Chained env (s.goTo call c stage) :=
  ⟨(congrArg (Chain <| map Prod.fst ·) hkeeps.store).mpr h.chain, hkeeps.keyed, h.increasing,
    hkeeps.getLastCommittedBlock ▸ h.reached, nofun, fun _ hcall => some.inj hcall ▸ hready⟩

lemma finish (h : Chained env s) (hkeeps : Keeps env s.engine c) (hlinked : c.Linked)
    (hres : res = .ok () → Settled c s.succeeded call.height) :
    Chained env (s.finish call c res) := by
  have hchain := (congrArg (Chain <| map Prod.fst ·) hkeeps.store).mpr h.chain
  have hidle : ∀ call', (s.finish call c res).holder = some call' →
      Ready c (s.finish call c res).succeeded call' :=
    fun _ hcall' => absurd hcall' holder_finish
  cases res with
  | error e =>
    refine ⟨hchain, hkeeps.keyed, ?_, ?_, fun _ => hlinked, hidle⟩
    · rw [succeeded_error]
      exact h.increasing
    exact hkeeps.getLastCommittedBlock ▸ h.reached
  | ok u =>
    obtain ⟨-, ⟨last, hlast, hheight⟩, hlower⟩ := hres rfl
    refine ⟨hchain, hkeeps.keyed, ?_, ⟨last, hlast, ?_⟩, fun _ => hlinked, hidle⟩
    · rw [succeeded_ok]
      exact pairwise_cons.mpr ⟨hlower, h.increasing⟩
    · rw [succeeded_ok, hheight]
      exact forall_mem_cons.mpr
        ⟨UInt64.le_refl _, fun height hmem => UInt64.le_of_lt (hlower height hmem)⟩

lemma put {p : BlockProposal} {block : Block} {rwSet : List Snapshot.TxRWSet}
    {events : List ContractEvent} (h : Chained env s) (hlinked : s.engine.Linked)
    (hawaits : s.engine.Awaits p.block call.height)
    (hblock : s.engine.heap.get p.block = some block) :
    Chained env (s.goTo call { s.engine with store := (block, rwSet) :: s.engine.store }
      (.notify p block rwSet events)) := by
  obtain ⟨last, block', hlast, hblock', hfollows, hheight⟩ := hawaits
  cases hblock.symm.trans hblock'
  refine ⟨?_, h.keyed, h.increasing, h.reached, nofun, fun _ hcall => ?_⟩
  · obtain ⟨last', rwSet', older, hlast', hstore⟩ := hlinked
    cases hlast.symm.trans hlast'
    have hchain := h.chain
    dsimp only [Committer.goTo]
    rw [hstore, map_cons] at hchain
    rw [hstore, map_cons, map_cons]
    exact isChain_cons_cons.mpr ⟨hfollows, hchain⟩
  · cases hcall
    exact ⟨hblock, ⟨last, block, hlast, hblock, hfollows, hheight⟩, rwSet, s.engine.store, rfl⟩

lemma notify {p : BlockProposal} {block : Block} {rwSet rwSet' : List Snapshot.TxRWSet}
    {older : List (Block × List Snapshot.TxRWSet)} {events : List ContractEvent}
    (hcs : cs.completes = true) (h : Chained env s)
    (hblock : s.engine.heap.get p.block = some block)
    (hawaits : s.engine.Awaits p.block call.height)
    (hstore : s.engine.store = (block, rwSet') :: older) :
    Chained env (s.goTo call (s.engine.notifyCommitted cs p.block block rwSet events).2
      (.retry block (s.engine.notifyCommitted cs p.block block rwSet events).1)) := by
  have hnotified : Notified cs s.engine p.block
      (s.engine.notifyCommitted cs p.block block rwSet events).2 := notified_notifyCommitted
  generalize s.engine.notifyCommitted cs p.block block rwSet events = notified at hnotified ⊢
  obtain ⟨last, block', hlast, hblock', hfollows, hheight⟩ := hawaits
  cases hblock.symm.trans hblock'
  have hnew : notified.2.getLastCommittedBlock = some block := by
    unfold getLastCommittedBlock
    rw [hnotified.lastCommittedBlock hcs, hnotified.heap]
    exact hblock
  have hlower : ∀ height ∈ s.succeeded, height < block.header.blockHeight := by
    intro height hmem
    obtain ⟨last', hlast', hreached⟩ := h.reached
    cases hlast.symm.trans hlast'
    have hle := UInt64.le_iff_toNat_le.mp (hreached height hmem)
    have hnext := hfollows.height
    exact UInt64.lt_iff_toNat_lt.mpr (by omega)
  refine ⟨?_, ?_, h.increasing,
    ⟨block, hnew, fun height hmem => UInt64.le_of_lt (hlower height hmem)⟩, nofun,
      fun _ hcall => ?_⟩
  · exact (congrArg (Chain <| map Prod.fst ·) hnotified.store).mpr h.chain
  · dsimp only [Committer.goTo]
    rw [hnotified.heap, hnotified.proposalCache]
    exact h.keyed
  · cases hcall
    refine ⟨⟨block, rwSet', older, hnew, hnotified.store.trans hstore⟩, ⟨block, hnew, hheight⟩, ?_⟩
    exact fun height hmem => hheight ▸ hlower height hmem

lemma verifyBlock {r : ℕ} (h : Chained env s) (hawaits : s.engine.Awaits r height)
    (hverify : s.engine.verifyBlock env sv r .syncVerify = (res, c)) :
    Grows s.engine c ∧ Keeps env s.engine c := by
  obtain ⟨last, block, hlast, hblock, -⟩ := hawaits
  have hgrows : Grows s.engine (s.engine.verifyBlock env sv r .syncVerify).2 :=
    grows_verifyBlock hblock
  have hkeyed : Keyed env (s.engine.verifyBlock env sv r .syncVerify).2.heap
      (s.engine.verifyBlock env sv r .syncVerify).2.proposalCache :=
    keyed_verifyBlock hblock h.keyed
  rw [hverify] at hgrows hkeyed
  exact ⟨hgrows, hgrows.keeps hlast hkeyed⟩

lemma advance (hfp : Function.Injective env.calcFingerPrint) (hcs : cs.completes = true)
    (h : Chained env s) (hcall : s.holder = some call) :
    Chained env (s.advance env sv cs call) := by
  have hready : ∀ {stage}, call.stage = stage → Ready s.engine s.succeeded { call with stage } := by
    rintro _ rfl
    exact h.ready call hcall
  have hkeeps : Keeps env s.engine s.engine := ⟨rfl, rfl, h.keyed⟩
  have hadvances := advances_advance env sv cs s call
  generalize s.advance env sv cs call = s' at hadvances ⊢
  cases hadvances with
  | failed e hstage =>
    refine h.finish hkeeps ?_ nofun
    cases hcase : call.stage with
    | notify p block rwSet events => exact absurd hcase (hstage p block rwSet events)
    | check | look | verify | lookAgain | put | retry | clear | publish => exact (hready hcase).1
  | @legal block hstage hblock hlegal =>
    obtain ⟨hlinked, block', hblock', hheight⟩ := hready hstage
    cases hblock.symm.trans hblock'
    obtain ⟨last, hlast, hfollows⟩ := follows_of_isBlockLegal hlegal
    exact h.goTo hkeeps ⟨hlinked, last, block, hlast, hblock, hfollows, hheight⟩
  | missing hstage =>
    have hready := hready hstage
    exact h.goTo hkeeps hready
  | found hstage hblock hp hcached hc =>
    obtain ⟨hlinked, hawaits⟩ := hready hstage
    obtain rfl | rfl := hc
    · exact h.goTo hkeeps ⟨hlinked, hawaits.proposal hfp h.keyed hblock hp⟩
    · obtain ⟨hassign, hawaits⟩ := hawaits.assign hfp h.keyed hblock hp
      exact h.goTo hassign ⟨hassign.linked hlinked, hawaits⟩
  | refused hstage hverify =>
    obtain ⟨hlinked, hawaits⟩ := hready hstage
    obtain ⟨-, hverified⟩ := h.verifyBlock hawaits hverify
    exact h.finish hverified (hverified.linked hlinked) nofun
  | verified hstage hverify =>
    obtain ⟨hlinked, hawaits⟩ := hready hstage
    obtain ⟨hgrows, hverified⟩ := h.verifyBlock hawaits hverify
    exact h.goTo hverified ⟨hverified.linked hlinked, hverified.awaits (hgrows.get _) hawaits⟩
  | foundAgain hstage hblock hp =>
    obtain ⟨hlinked, hawaits⟩ := hready hstage
    exact h.goTo hkeeps ⟨hlinked, hawaits.proposal hfp h.keyed hblock hp⟩
  | put hstage hblock => exact h.put (hready hstage).1 (hready hstage).2 hblock
  | notified hstage =>
    obtain ⟨hblock, hawaits, rwSet', older, hstore⟩ := hready hstage
    exact h.notify hcs hblock hawaits hstore
  | retried hstage =>
    have hready := hready hstage
    exact h.goTo ⟨rfl, rfl, h.keyed⟩ hready
  | cleared hstage =>
    have hready := hready hstage
    exact h.goTo ⟨rfl, rfl, h.keyed.within Part.erase.within⟩ hready
  | published hstage =>
    have hready := hready hstage
    exact h.finish ⟨rfl, rfl, h.keyed⟩ hready.1 fun _ => hready

end Chained

lemma Chained.step {t : Turn φ} (hfp : Function.Injective env.calcFingerPrint) (ht : t.Completes)
    (h : Chained env s) (hstep : s.step env t = some s') : Chained env s' := by
  cases t with
  | receive block =>
    cases hstep
    have hgrows : Grows s.engine { s.engine with heap := s.engine.heap.alloc block } :=
      ⟨fun _ _ hget => Heap.get_alloc block hget, rfl, rfl⟩
    exact h.grows hgrows (hgrows.keyed h.keyed)
  | sign r consensusArgs hash signature =>
    exact h.change hstep (Heap.keeps_sign consensusArgs hash signature) rfl rfl rfl
  | attach r additionalData =>
    exact h.change hstep (Heap.keeps_setAdditionalData r additionalData) rfl rfl rfl
  | changeCache op =>
    cases hstep
    exact h.grows ⟨fun _ _ hget => hget, rfl, rfl⟩ (keyed_changeCache op h.keyed)
  | call caller r =>
    unfold Committer.step at hstep
    dsimp only at hstep
    split at hstep
    · next block hidle hblock =>
      cases hstep
      refine { h with idle := nofun, ready := fun _ hcall => ?_ }
      cases hcall
      exact ⟨h.idle hidle, block, hblock, rfl⟩
    · cases hstep
  | next sv cs =>
    obtain ⟨call, hcall, rfl⟩ := map_eq_some_iff.mp hstep
    exact h.advance hfp ht hcall

lemma chained_start (env : Env φ) (lastBlock : Block) :
    Chained env (start (CoreEngine.start lastBlock)) where
  chain := isChain_singleton _
  keyed := fun _ _ _ hp => by cases hp
  increasing := Pairwise.nil
  reached := ⟨lastBlock, rfl, by simp [succeeded, start]⟩
  idle := fun _ => ⟨lastBlock, [], [], rfl, rfl⟩
  ready := fun _ hcall => by cases hcall

theorem stored_chain (env : Env φ) (hfp : Function.Injective env.calcFingerPrint)
    (lastBlock : Block) (ts : List (Turn φ)) (hts : ∀ t ∈ ts, t.Completes) (s : Committer φ)
    (hrun : Runs.run (step env) (start (CoreEngine.start lastBlock)) ts = some s) :
    Chain (s.engine.store.map (·.1)) ∧ (s.engine.store.map (·.1.header.blockHeight)).Nodup := by
  have hchained : Chained env s :=
    Runs.run_induction_mem (fun _ _ _ h ht hstep => h.step hfp ht hstep)
      (chained_start env lastBlock)
      hts hrun
  refine ⟨hchained.chain, ?_⟩
  have hnodup := hchained.chain.nodup
  rwa [List.map_map] at hnodup

open CoreEngine

def twoCallers : List (Turn Snapshot.BlockHeader) :=
  [.receive (blockOne [] none), .receive (blockOne [] certificate),
    .changeCache (.setProposedBlock 1 none none false), .call .consensus 1, .next agreeable {},
    .changeCache (.setProposedBlock 2 none none false)] ++
  replicate 6 (.next agreeable {}) ++ [.call .sync 2, .next agreeable {}]

theorem stored_chain_twoCallers :
    ∃ s, Runs.run (step (smallEnv .tbft)) (start (CoreEngine.start genesis)) twoCallers = some s ∧
      s.engine.store.map (·.1) = [blockOne [] certificate, genesis] ∧
      s.returned.map (fun call => (call.1, call.2.2)) =
        [(.sync, .error .blockHadBeenCommited), (.consensus, .ok ())] ∧
      Chain (s.engine.store.map (·.1)) := by
  refine ⟨_, eq_some_of_isSome (by decide +kernel), by decide +kernel, by decide +kernel,
    (stored_chain (smallEnv .tbft) (fun _ _ h => h) genesis twoCallers ?_ _
      (eq_some_of_isSome _)).1⟩
  simp [twoCallers, Turn.Completes, CommitServices.completes]
end Committer
end ChainMaker.Core
