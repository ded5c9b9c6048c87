import ChainMaker.Core.CommitFidelity

/-! What a cache hit vouches for. The key of an entry covers neither the hash nor the body of a
block, so a block that hits an entry passes without a check and may take its place. -/

namespace ChainMaker.Core
open Option List
open ChainMaker.Snapshot (DAG)

/-! ### Objects that share nothing -/

namespace Heap

def Kept (heap heap' : Heap) : Prop := ∀ r block, heap.get r = some block → heap'.get r = some block

variable {heap : Heap} {r r' : ℕ} {b : Block}

structure Aligned (heap : Heap) : Prop where
  length : heap.headers.length = heap.blocks.length
  header : ∀ (r : ℕ) (o : Object), heap.blocks[r]? = some o → o.header = r

lemma Aligned.alloc (h : heap.Aligned) (b : Block) : (heap.alloc b).Aligned where
  length := by simp [Heap.alloc, h.length]
  header r o ho := by
    obtain hlt | hr := Nat.lt_or_ge r heap.blocks.length
    · exact h.header r o ((getElem?_append_left hlt).symm.trans ho)
    have hlt := (List.getElem?_eq_some_iff.mp ho).1
    rw [Heap.alloc, length_append, length_singleton] at hlt
    obtain rfl : r = heap.blocks.length := le_antisymm (Nat.lt_succ_iff.mp hlt) hr
    cases getElem?_concat_length.symm.trans ho
    exact h.length

lemma Aligned.modifyHeader (h : heap.Aligned) (f : BlockHeader → BlockHeader) :
    (heap.modifyHeader r f).Aligned := by
  unfold Heap.modifyHeader
  split
  · exact h
  · exact ⟨(length_modify _ _ _).trans h.length, h.header⟩

lemma Aligned.setAdditionalData (h : heap.Aligned) (data : Option AdditionalData) :
    (heap.setAdditionalData r data).Aligned where
  length := h.length.trans (length_modify _ _ _).symm
  header r' o ho := by
    unfold Heap.setAdditionalData at ho
    rw [getElem?_modify] at ho
    obtain ⟨o', ho', rfl⟩ := map_eq_some_iff.mp ho
    have hheader := h.header r' o' ho'
    split <;> exact hheader

lemma Aligned.get_modifyHeader (h : heap.Aligned) (f : BlockHeader → BlockHeader)
    (hget : heap.get r' = some b) : (heap.modifyHeader r f).get r' =
      some (if r' = r then { b with header := f b.header } else b) := by
  obtain ⟨o, ho, hheader, hrest⟩ := get_eq_some_iff.mp hget
  unfold Heap.modifyHeader
  split
  · next hr =>
    rw [if_neg, hget]
    rintro rfl
    cases hr.symm.trans ho
  · next o' ho' =>
    have hname := h.header _ _ ho
    have hname' := h.header _ _ ho'
    refine get_eq_some_iff.mpr ⟨o, ho, ?_, ?_⟩
    · rw [getElem?_modify, hheader, hname, hname']
      by_cases hr : r' = r
      · simp [hr]
      · simp [hr, Ne.symm hr]
    · split <;> exact hrest

end Heap

/-! ### Where a block comes from -/

namespace Log
variable {log log' : Log} {block block' : Block} {rwSetMap : Option RWSetMap}

/-- The hash, the transactions and the graph are those of a block that `ValidateBlock` accepted, or
of one that this node generated, with a hash that it was given. -/
def Genuine (log : Log) (block : Block) : Prop :=
  (∃ v ∈ log.validated, v.1.header.blockHash.getD [] = block.header.blockHash.getD [] ∧
    v.1.txs = block.txs ∧ v.1.dag = block.dag) ∨
  ∃ g ∈ log.generated, g.txs = block.txs ∧ g.dag = block.dag ∧
    block.header.blockHash.getD [] ∈ g.hashes

def Computed (log : Log) (txs : List Transaction) (dag : Option DAG) (rwSetMap : Option RWSetMap) :
    Prop :=
  (∃ v ∈ log.validated, v.1.txs = txs ∧ v.1.dag = dag ∧ v.2 = rwSetMap) ∨
  ∃ g ∈ log.generated, g.txs = txs ∧ g.dag = dag ∧ g.rwSetMap = rwSetMap

structure Le (log log' : Log) : Prop where
  validated : log.validated ⊆ log'.validated
  generated : ∀ g ∈ log.generated, ∃ g' ∈ log'.generated, g'.block = g.block ∧ g'.txs = g.txs ∧
    g'.dag = g.dag ∧ g'.rwSetMap = g.rwSetMap ∧ g.hashes ⊆ g'.hashes

lemma Le.of_subset (hvalidated : log.validated ⊆ log'.validated)
    (hgenerated : log.generated ⊆ log'.generated) : Le log log' :=
  ⟨hvalidated, fun g hg => ⟨g, hgenerated hg, rfl, rfl, rfl, rfl, Subset.refl _⟩⟩

lemma Le.refl : Le log log := .of_subset (Subset.refl _) (Subset.refl _)

lemma Genuine.mono (h : log.Genuine block) (hle : Le log log') : log'.Genuine block := by
  obtain ⟨v, hv, hsame⟩ | ⟨g, hg, htxs, hdag, hhash⟩ := h
  · exact .inl ⟨v, hle.validated hv, hsame⟩
  obtain ⟨g', hg', -, htxs', hdag', -, hhashes⟩ := hle.generated g hg
  exact .inr ⟨g', hg', htxs'.trans htxs, hdag'.trans hdag, hhashes hhash⟩

lemma Computed.mono {txs : List Transaction} {dag : Option DAG}
    (h : log.Computed txs dag rwSetMap) (hle : Le log log') : log'.Computed txs dag rwSetMap := by
  obtain ⟨v, hv, hsame⟩ | ⟨g, hg, htxs, hdag, hrw⟩ := h
  · exact .inl ⟨v, hle.validated hv, hsame⟩
  obtain ⟨g', hg', -, htxs', hdag', hrw', -⟩ := hle.generated g hg
  exact .inr ⟨g', hg', htxs'.trans htxs, hdag'.trans hdag, hrw'.trans hrw⟩

lemma Genuine.congr (h : log.Genuine block)
    (hhash : block'.header.blockHash.getD [] = block.header.blockHash.getD [])
    (htxs : block'.txs = block.txs) (hdag : block'.dag = block.dag) : log.Genuine block' := by
  unfold Genuine
  rwa [hhash, htxs, hdag]

end Log

namespace CoreEngine
variable {φ : Type} [DecidableEq φ] {env : Env φ} {sv : Services φ} {cs : CommitServices}
variable {c c' : CoreEngine φ} {r : ℕ} {block : Block} {mode : VerifyMode}

def SameBody (block cached : Block) : Prop :=
  block.header.blockHash.getD [] = cached.header.blockHash.getD [] ∧ block.txs = cached.txs ∧
    block.dag = cached.dag

instance (block cached : Block) : Decidable (SameBody block cached) :=
  inferInstanceAs (Decidable (_ ∧ _ ∧ _))

def Vouched (c : CoreEngine φ) (r : ℕ) (rwSetMap : Option RWSetMap) : Prop :=
  ∃ block, c.heap.get r = some block ∧ c.log.Genuine block ∧
    c.log.Computed block.txs block.dag rwSetMap

structure CacheSound (c : CoreEngine φ) : Prop where
  passed : ∀ mode block, (mode, block) ∈ c.log.passed → c.log.Genuine block
  cached : c.proposalCache.Each fun _ _ r rwSetMap => c.Vouched r rwSetMap

structure Sound (c : CoreEngine φ) : Prop extends CacheSound c where
  aligned : c.heap.Aligned
  generated : ∀ g ∈ c.log.generated, ∃ block, c.heap.get g.block = some block ∧ block.txs = g.txs ∧
    block.dag = g.dag ∧ block.header.blockHash.getD [] ∈ g.hashes

omit [DecidableEq φ] in
lemma Vouched.mono {rwSetMap : Option RWSetMap} (h : c.Vouched r rwSetMap)
    (hget : c.heap.Kept c'.heap) (hle : c.log.Le c'.log) : c'.Vouched r rwSetMap := by
  obtain ⟨block, hblock, hgenuine, hcomputed⟩ := h
  exact ⟨block, hget r block hblock, hgenuine.mono hle, hcomputed.mono hle⟩

omit [DecidableEq φ] in
lemma le_sign (r : ℕ) (consensusArgs hash signature : Bytes) :
    c.log.Le (c.sign r consensusArgs hash signature).log := by
  refine ⟨Subset.refl _, fun g hg => ⟨_, mem_map.mpr ⟨g, hg, rfl⟩, ?_⟩⟩
  split
  · exact ⟨rfl, rfl, rfl, rfl, subset_cons_self _ _⟩
  · exact ⟨rfl, rfl, rfl, rfl, Subset.refl _⟩

namespace Sound

variable (h : Sound c)
include h

lemma extend (haligned : c'.heap.Aligned) (hget : c.heap.Kept c'.heap)
    (hvalidated : c.log.validated ⊆ c'.log.validated) (hpassed : c'.log.passed = c.log.passed)
    (hgenerated : c'.log.generated = c.log.generated)
    (hcached : c'.proposalCache.Each fun _ _ r rwSetMap => c'.Vouched r rwSetMap) : Sound c' where
  passed mode block hblock :=
    (h.passed mode block (hpassed ▸ hblock)).mono
      (.of_subset hvalidated (hgenerated ▸ Subset.refl _))
  cached := hcached
  aligned := haligned
  generated g hg := by
    obtain ⟨block, hblock, hrest⟩ := h.generated g (hgenerated ▸ hg)
    exact ⟨block, hget _ _ hblock, hrest⟩

lemma vouched (hget : c.heap.Kept c'.heap) (hle : c.log.Le c'.log)
    (hcache : c'.proposalCache.Within c.proposalCache) :
    c'.proposalCache.Each fun _ _ r rwSetMap => c'.Vouched r rwSetMap :=
  (h.cached.mono fun _ _ _ _ hv => hv.mono hget hle).within hcache

lemma within (hheap : c'.heap = c.heap) (hlog : c'.log = c.log)
    (hcache : c'.proposalCache.Within c.proposalCache) : Sound c' := by
  have hget : c.heap.Kept c'.heap := fun _ _ hblock => hheap ▸ hblock
  have hle : c.log.Le c'.log := hlog ▸ .refl
  exact h.extend (hheap ▸ h.aligned) hget hle.validated (hlog ▸ rfl) (hlog ▸ rfl)
    (h.vouched hget hle hcache)

lemma cuts (hcuts : Cuts c c') : Sound c' :=
  h.within hcuts.heap hcuts.log hcuts.proposalCache

lemma alloc (block : Block) : Sound { c with heap := c.heap.alloc block } := by
  have hget : c.heap.Kept (c.heap.alloc block) := fun _ _ hb => Heap.get_alloc block hb
  exact h.extend (h.aligned.alloc block) hget (Subset.refl _) rfl rfl
    (h.vouched hget .refl .refl)

lemma caches {rwSetMap : Option RWSetMap} (hnew : c.Vouched r rwSetMap) {header : BlockHeader}
    (hcaches : Caches env c r header rwSetMap c') : Sound c' := by
  have hget : c.heap.Kept c'.heap := fun _ _ hblock => hcaches.heap ▸ hblock
  have hle : c.log.Le c'.log := hcaches.log ▸ .refl
  refine h.extend (hcaches.heap ▸ h.aligned) hget hle.validated (hcaches.log ▸ rfl)
    (hcaches.log ▸ rfl) (hcaches.each _ ?_ (hnew.mono hget hle))
  exact h.cached.mono fun _ _ _ _ hv => hv.mono hget hle

lemma checked (rwSetMap : Option RWSetMap) (certified : Bool) :
    Sound { c with log := c.log.checked block rwSetMap certified } := by
  have hle : c.log.Le (c.log.checked block rwSetMap certified) :=
    .of_subset (subset_cons_self _ _) (Subset.refl _)
  exact h.extend h.aligned (fun _ _ hb => hb) hle.validated rfl rfl
    (h.vouched (fun _ _ hb => hb) hle .refl)

lemma commits {p : BlockProposal} (hcommits : Commits c p c') : Sound c' :=
  h.within hcommits.heap hcommits.log hcommits.proposalCache

section
variable (hturbo : env.consensusMessageTurbo = false)
include hturbo

section
variable (hblock : c.heap.get r = some block)
  (hsame : ∀ p cached, c.getProposedBlock env block.header = some p →
    c.heap.get p.block = some cached → SameBody block cached)
include hblock hsame

lemma verifies {res : Except CoreError Unit} (hv : Verifies env sv c r block mode res c') :
    Sound c' ∧ (res = .ok () → c'.log.Genuine block) := by
  have hrecover : c.recoverBlock env sv r block mode = .ok (r, block, c.heap) := by
    unfold recoverBlock
    rw [if_neg fun hon => Bool.noConfusion (hturbo.symm.trans hon.1)]
  cases hv with
  | empty => exact ⟨h, nofun⟩
  | @again p _ _ hp hcaches =>
    obtain ⟨cached, hcached, hgenuine, hcomputed⟩ := h.cached _ _ p hp
    obtain ⟨hhash, htxs, hdag⟩ := hsame p cached hp hcached
    have hgenuine' := hgenuine.congr hhash htxs hdag
    rw [← htxs, ← hdag] at hcomputed
    exact ⟨h.caches ⟨block, hblock, hgenuine', hcomputed⟩ hcaches, fun _ => hcaches.log ▸ hgenuine'⟩
  | new hp hnew =>
    cases hnew with
    | refused e hheap hcuts =>
      have hkept : Cuts c c' := by
        obtain rfl | ⟨r', block', hother⟩ := hheap
        · exact hcuts
        cases hrecover.symm.trans hother
        exact hcuts
      exact ⟨h.cuts hkept, nofun⟩
    | @checked _ _ _ rwSetMap _ _ _ certified hrec hvalid hcertified hsync hcaches =>
      cases hrecover.symm.trans hrec
      have hgenuine : (c.log.checked block rwSetMap certified).Genuine block :=
        .inl ⟨_, mem_cons_self, rfl, rfl, rfl⟩
      have hcomputed :
          (c.log.checked block rwSetMap certified).Computed block.txs block.dag rwSetMap :=
        .inl ⟨_, mem_cons_self, rfl, rfl, rfl⟩
      exact ⟨(h.checked rwSetMap certified).caches ⟨block, hblock, hgenuine, hcomputed⟩ hcaches,
        fun _ => hcaches.log ▸ hgenuine⟩

lemma verifyBlock : Sound (c.verifyBlock env sv r mode).2 := by
  obtain ⟨c₁, hverifies, hnote⟩ := verifyBlock_spec env sv mode hblock
  obtain ⟨h₁, hgenuine⟩ := h.verifies hturbo hblock hsame hverifies
  generalize (c.verifyBlock env sv r mode).1 = res at hnote hgenuine
  rw [hnote]
  cases res with
  | error e => exact h₁
  | ok u =>
    refine ⟨⟨fun mode' block' hmem => ?_, h₁.cached⟩, h₁.aligned, h₁.generated⟩
    obtain heq | hold := mem_cons.mp hmem
    · cases heq
      exact hgenuine rfl
    · exact h₁.passed mode' block' hold

omit hsame in
lemma adds (hadds : Adds env sv c r block c') : Sound c' := by
  have hverify : c.getProposedBlock env block.header = none →
      Sound (c.verifyBlock env sv r .syncVerify).2 := fun hp =>
    h.verifyBlock hturbo hblock fun p cached hp' => nomatch hp.symm.trans hp'
  cases hadds with
  | refused => exact h
  | unverified hp => exact hverify hp
  | verified hp hok hq hcommits => exact (hverify hp).commits hcommits
  | cached hp hcached hcommits =>
    rw [hturbo, if_neg Bool.false_ne_true] at hcommits
    exact h.commits hcommits

lemma syncs (hsyncs : Syncs env sv cs c r c') : Sound c' := by
  have hverify : Sound (c.verifyBlock env sv r .syncVerify).2 := h.verifyBlock hturbo hblock hsame
  cases hsyncs with
  | processed => exact h
  | refused => exact hverify
  | added hok =>
    obtain ⟨hheap, -⟩ := verifyBlock_sync hblock hok
    have hadded : Sound ((c.verifyBlock env sv r .syncVerify).2.addBlock env sv cs r).2 :=
      hverify.adds hturbo (hheap ▸ hblock) (addBlock_adds (hheap ▸ hblock))
    exact ⟨⟨hadded.passed, hadded.cached⟩, hadded.aligned, hadded.generated⟩

end

lemma proposes (hproposes : Proposes env c c') : Sound c' := by
  cases hproposes with
  | nothing hcuts => exact h.cuts hcuts
  | dropped block hcuts => exact (h.alloc block).cuts hcuts
  | again r rwSetMap hcuts =>
    have hc := h.cuts hcuts
    exact ⟨⟨hc.passed, hc.cached⟩, hc.aligned, hc.generated⟩
  | generated block rwSetMap r hhash hheap hlast hstore hlog heach =>
    have halloc : c'.heap = c.heap.alloc block := by
      obtain hheap | ⟨hon, -⟩ := hheap
      · exact hheap
      · cases hturbo.symm.trans hon
    have hget : c.heap.Kept c'.heap := fun _ _ hb => halloc ▸ Heap.get_alloc block hb
    have hle : c.log.Le c'.log := hlog ▸ .of_subset (Subset.refl _) (subset_cons_self _ _)
    have hnext : c'.heap.get c.heap.next = some block := halloc ▸ Heap.get_alloc_next block
    have hmem : Generated.mk c.heap.next block.txs block.dag (some rwSetMap) [[]] ∈
        c'.log.generated :=
      hlog ▸ mem_cons_self
    have hempty : block.header.blockHash.getD [] ∈ [([] : Bytes)] := by
      rw [hhash]
      exact mem_cons_self
    refine ⟨⟨fun mode block' hmem => ?_, heach _ ?_ ?_⟩, halloc ▸ h.aligned.alloc block, ?_⟩
    · have hpassed : c'.log.passed = c.log.passed := by rw [hlog]
      exact (h.passed mode block' (hpassed ▸ hmem)).mono hle
    · exact h.cached.mono fun _ _ _ _ hv => hv.mono hget hle
    · exact ⟨block, hnext, .inr ⟨_, hmem, rfl, rfl, hempty⟩, .inr ⟨_, hmem, rfl, rfl, rfl⟩⟩
    · intro g hg
      rw [hlog] at hg
      obtain rfl | hg := mem_cons.mp hg
      · exact ⟨block, hnext, rfl, rfl, hempty⟩
      obtain ⟨block', hblock', hrest⟩ := h.generated g hg
      exact ⟨block', hget _ _ hblock', hrest⟩

end

lemma attach (r : ℕ) (data : Option AdditionalData) :
    Sound { c with heap := c.heap.setAdditionalData r data } := by
  refine ⟨⟨h.passed, h.cached.mono fun _ _ r' rwSetMap hv => ?_⟩,
    h.aligned.setAdditionalData data, ?_⟩
  · obtain ⟨block, hblock, hgenuine, hcomputed⟩ := hv
    obtain ⟨block', hblock', hheader, htxs, hdag⟩ := Heap.get_setAdditionalData r data hblock
    refine ⟨block', hblock', hgenuine.congr (by rw [hheader]) htxs hdag, ?_⟩
    rwa [htxs, hdag]
  · intro g hg
    obtain ⟨block, hblock, htxs, hdag, hhash⟩ := h.generated g hg
    obtain ⟨block', hblock', hheader, htxs', hdag'⟩ := Heap.get_setAdditionalData r data hblock
    exact ⟨block', hblock', htxs'.trans htxs, hdag'.trans hdag, hheader ▸ hhash⟩

lemma sign {g₀ : Generated} (hg₀ : g₀ ∈ c.log.generated) (consensusArgs hash signature : Bytes) :
    Sound (c.sign g₀.block consensusArgs hash signature) := by
  have hle : c.log.Le (c.sign g₀.block consensusArgs hash signature).log := le_sign ..
  have hget : ∀ r block, c.heap.get r = some block →
      (c.sign g₀.block consensusArgs hash signature).heap.get r = some (if r = g₀.block then
        { block with header := { block.header with
          consensusArgs, blockHash := some hash, signature := some signature } } else block) :=
    fun r block hblock => h.aligned.get_modifyHeader _ hblock
  -- the record of a generated block with that pointer lists the new hash
  have hnew : ∀ g ∈ c.log.generated, g.block = g₀.block → { g with hashes := hash :: g.hashes } ∈
        (c.sign g₀.block consensusArgs hash signature).log.generated := fun g hg hsame =>
    mem_map.mpr ⟨g, hg, if_pos (congrArg (fun r : ℕ => c.heap.blocks[r]?.map (·.header)) hsame)⟩
  refine ⟨⟨fun mode block hmem => (h.passed mode block hmem).mono hle,
    h.cached.mono fun _ _ r rwSetMap hv => ?_⟩, h.aligned.modifyHeader _, ?_⟩
  · obtain ⟨block, hblock, hgenuine, hcomputed⟩ := hv
    have hblock' := hget r block hblock
    by_cases hr : r = g₀.block
    · obtain ⟨block₀, hblock₀, htxs, hdag, -⟩ := h.generated g₀ hg₀
      obtain rfl := mem_unique hblock (hr ▸ hblock₀)
      rw [if_pos hr] at hblock'
      refine ⟨_, hblock', .inr ⟨_, hnew g₀ hg₀ rfl, htxs.symm, hdag.symm, mem_cons_self⟩, ?_⟩
      exact hcomputed.mono hle
    · rw [if_neg hr] at hblock'
      exact ⟨block, hblock', hgenuine.mono hle, hcomputed.mono hle⟩
  · intro g' hg'
    obtain ⟨g, hg, rfl⟩ := mem_map.mp hg'
    obtain ⟨block, hblock, htxs, hdag, hhash⟩ := h.generated g hg
    have hblock' := hget g.block block hblock
    by_cases hr : g.block = g₀.block
    · rw [if_pos hr] at hblock'
      rw [if_pos (congrArg (fun r : ℕ => c.heap.blocks[r]?.map (·.header)) hr)]
      exact ⟨_, hblock', htxs, hdag, mem_cons_self⟩
    rw [if_neg hr] at hblock'
    split
    · exact ⟨block, hblock', htxs, hdag, mem_cons_of_mem _ hhash⟩
    · exact ⟨block, hblock', htxs, hdag, hhash⟩

end Sound

def hitsSameBody (env : Env φ) (c : CoreEngine φ) (r : ℕ) : Bool :=
  (c.heap.get r).all fun block => (c.getProposedBlock env block.header).all fun p =>
    (c.heap.get p.block).all fun cached => SameBody block cached

/-- The condition: a block that hits a cache entry has the body of the cached block, and the
consensus module gives hashes only to blocks that this node has generated. -/
def HitsSame (env : Env φ) (c : CoreEngine φ) (e : Event φ) : Prop :=
  match e with
  | .verifyBlock _ r _ => hitsSameBody env c r
  | .validateAndCommitBlock _ _ r => hitsSameBody env c r
  | .sign r _ _ _ => ∃ g ∈ c.log.generated, g.block = r
  | _ => True

instance (c : CoreEngine φ) (e : Event φ) : Decidable (HitsSame env c e) :=
  match e with
  | .verifyBlock _ r _ => inferInstanceAs (Decidable (hitsSameBody env c r = true))
  | .validateAndCommitBlock _ _ r => inferInstanceAs (Decidable (hitsSameBody env c r = true))
  | .sign r _ _ _ => inferInstanceAs (Decidable (∃ g ∈ c.log.generated, g.block = r))
  | .receive _ | .proposing .. | .attach .. | .addBlock .. | .resetProposedAt ..
  | .discardAboveHeight .. => .isTrue trivial

lemma sameBody_of_hits (hblock : c.heap.get r = some block) (h : hitsSameBody env c r)
    (p : BlockProposal) (cached : Block) (hp : c.getProposedBlock env block.header = some p)
    (hcached : c.heap.get p.block = some cached) : SameBody block cached := by
  simpa [hitsSameBody, hblock, hp, hcached] using h

lemma Sound.step {e : Event φ} (h : Sound c) (hturbo : env.consensusMessageTurbo = false)
    (hP : HitsSame env c e) (hs : c.step env e = some c') : Sound c' := by
  cases e with
  | receive block => exact some.inj hs ▸ h.alloc block
  | verifyBlock sv r mode =>
    obtain ⟨block, hblock, rfl⟩ := map_eq_some_iff.mp hs
    exact h.verifyBlock hturbo hblock (sameBody_of_hits hblock hP)
  | proposing ps height preHash => exact some.inj hs ▸ h.proposes hturbo proposing_spec
  | sign r consensusArgs hash signature =>
    obtain ⟨-, hs⟩ := ite_none_right_eq_some.mp hs
    obtain ⟨g, hg, rfl⟩ := hP
    exact some.inj hs ▸ h.sign hg consensusArgs hash signature
  | attach r additionalData =>
    obtain ⟨block, hblock, rfl⟩ := map_eq_some_iff.mp hs
    exact h.attach r additionalData
  | addBlock sv cs r =>
    obtain ⟨block, hblock, rfl⟩ := map_eq_some_iff.mp hs
    exact h.adds hturbo hblock (addBlock_adds hblock)
  | validateAndCommitBlock sv cs r =>
    obtain ⟨block, hblock, rfl⟩ := map_eq_some_iff.mp hs
    exact h.syncs hturbo hblock (sameBody_of_hits hblock hP) validateAndCommitBlock_syncs
  | resetProposedAt visit height =>
    exact some.inj hs ▸ h.cuts ⟨rfl, rfl, rfl, rfl, ProposalCache.within_markProposedAt false⟩
  | discardAboveHeight visit baseHeight =>
    have hcuts : Cuts c { c with
        proposalCache := (c.proposalCache.discardAboveHeight visit baseHeight).2 } :=
      ⟨rfl, rfl, rfl, rfl, (ProposalCache.part_discardAboveHeight visit baseHeight).within⟩
    refine some.inj hs ▸ h.cuts ?_
    split
    · exact hcuts
    · exact hcuts.output _

theorem cacheSound_runs (env : Env φ) (hturbo : env.consensusMessageTurbo = false)
    (lastBlock : Block) (es : List (Event φ)) (c : CoreEngine φ)
    (hP : Runs.Meets (step env) (HitsSame env) (start lastBlock) es)
    (hrun : Runs.run (step env) (start lastBlock) es = some c) : CacheSound c := by
  have hstart : Sound (start lastBlock : CoreEngine φ) := by
    refine ⟨⟨fun _ _ h => (not_mem_nil h).elim, fun height k p hp => ?_⟩, ?_,
      fun _ h => (not_mem_nil h).elim⟩
    · cases (ProposalCache.proposal_empty height k).symm.trans hp
    · exact Heap.Aligned.alloc ⟨rfl, fun _ _ h => by cases h⟩ lastBlock
  exact (Runs.run_induction (fun _ _ _ h hP hs => h.step hturbo hP hs) hstart hP hrun).toCacheSound

def proposer : ProposeServices Snapshot.BlockHeader where
  visit := ⟨fun keys => keys, fun keys => .refl keys⟩
  fetchTxBatch := [smallTx 5]
  txExists _ := some false
  member := some [1]
  currentTime := 7
  defaultBlockVersion := 0
  isConfBlock _ := false
  isConfigTx _ := false
  schedule _ txs := some (txs, ⟨[[]]⟩, AList.singleton [5] ⟨[5], [], []⟩, ∅)

def ownBlock : List (Event Snapshot.BlockHeader) :=
  [.proposing proposer 1 (some [0]), .sign 1 [] [1, 5, 5] [], .receive (blockOne [] none),
    .verifyBlock agreeable 2 .consensusVerify]

theorem cacheSound_ownBlock :
    ∃ c, Runs.run (step (smallEnv .tbft)) (start genesis) ownBlock = some c ∧
      c.log.passed = [(.consensusVerify, blockOne [] none)] ∧ CacheSound c :=
  ⟨_, eq_some_of_isSome (by decide +kernel), by decide +kernel,
    cacheSound_runs (smallEnv .tbft) rfl genesis ownBlock _ (by decide +kernel)
      (eq_some_of_isSome _)⟩

def blockTwo : Block where
  header := ⟨"chain1", 2, 8, [1], some [1, 5, 5], [6, 6], [], [6], some [2, 6, 6], 0,
    0, false, [], 1, some []⟩
  dag := some ⟨[[]]⟩
  txs := [smallTx 6]
  additionalData := none

def forge (block : Block) : Block :=
  { block with header.blockHash := some [9], txs := [smallTx 9], dag := none }

def forgedCopy : List (Event Snapshot.BlockHeader) :=
  [.receive (blockOne [] none), .verifyBlock agreeable 1 .consensusVerify,
    .receive (forge (blockOne [] none)), .verifyBlock agreeable 2 .consensusVerify]

def forgedEntry : List (Event Snapshot.BlockHeader) :=
  [.receive (blockOne [] none), .verifyBlock agreeable 1 .consensusVerify,
    .receive blockTwo, .verifyBlock agreeable 2 .consensusVerify,
    .receive (forge blockTwo), .verifyBlock agreeable 3 .consensusVerify]

lemma Log.not_genuine {log : Log} {blocks : List Block} (block : Block)
    (hvalidated : log.validated.map (·.1) = blocks) (hgenerated : log.generated.length = 0)
    (hne : ∀ b ∈ blocks, b.txs ≠ block.txs) :
    ¬log.Genuine block ∧ ∀ rwSetMap, ¬log.Computed block.txs block.dag rwSetMap := by
  have hv : ∀ v ∈ log.validated, v.1.txs ≠ block.txs := fun v hv =>
    hne v.1 (hvalidated ▸ mem_map_of_mem hv)
  rw [length_eq_zero_iff] at hgenerated
  refine ⟨?_, fun rwSetMap => ?_⟩
  · rintro (⟨v, hmem, -, htxs, -⟩ | ⟨g, hmem, -⟩)
    · exact hv v hmem htxs
    · exact (not_mem_nil (hgenerated ▸ hmem)).elim
  · rintro (⟨v, hmem, htxs, -⟩ | ⟨g, hmem, -⟩)
    · exact hv v hmem htxs
    · exact (not_mem_nil (hgenerated ▸ hmem)).elim

theorem not_cacheSound :
    (∃ c, Runs.run (step (smallEnv .tbft)) (start genesis) forgedCopy = some c ∧
      (.consensusVerify, forge (blockOne [] none)) ∈ c.log.passed ∧
      ¬c.log.Genuine (forge (blockOne [] none))) ∧
    ∃ c p, Runs.run (step (smallEnv .hotstuff)) (start genesis) forgedEntry = some c ∧
      c.getProposedBlock (smallEnv .hotstuff) blockTwo.header = some p ∧
      c.heap.get p.block = some (forge blockTwo) ∧ ¬c.log.Genuine (forge blockTwo) ∧
      ¬c.log.Computed (forge blockTwo).txs (forge blockTwo).dag p.rwSetMap :=
  ⟨⟨_, eq_some_of_isSome (by decide +kernel), by decide +kernel,
      (Log.not_genuine _ rfl (by decide +kernel) (by decide +kernel)).1⟩,
    _, _, eq_some_of_isSome (by decide +kernel),
      eq_some_of_isSome (by decide +kernel), by decide +kernel,
      (Log.not_genuine _ rfl (by decide +kernel) (by decide +kernel)).1,
      (Log.not_genuine _ rfl (by decide +kernel) (by decide +kernel)).2 _⟩
end CoreEngine
end ChainMaker.Core
