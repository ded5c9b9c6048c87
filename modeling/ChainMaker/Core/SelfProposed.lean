import ChainMaker.Core.CacheTrust
import ChainMaker.Core.LedgerChain

/-! The marks of the proposal cache: which of its blocks this node has proposed itself, and whether
it has done so in this round. Calls of `proposing` do not overlap; anything else may come between
their steps. -/

namespace ChainMaker.Core
open Option List ProposalCache
open ChainMaker.Snapshot (Visit)

/-! ### Marks in the cache -/

namespace ProposalCache
variable {φ : Type} [DecidableEq φ] {fp : BlockHeader → φ} {heap : Heap} {visit : Visit φ}
variable {pc pc' pc'' : ProposalCache φ} {height : UInt64} {k : φ} {r : ℕ} {p : BlockProposal}

lemma mem_proposals : p ∈ pc.proposals visit height ↔ ∃ k, pc.proposal height k = some p := by
  unfold proposals proposal
  cases hm : pc.lookup height with
  | none => simp
  | some m =>
    simp only [mem_filterMap, (visit.perm _).mem_iff, bind_some]
    refine ⟨fun ⟨k, _, hk⟩ => ⟨k, hk⟩, fun ⟨k, hk⟩ => ⟨k, ?_, hk⟩⟩
    exact AList.mem_keys.mp (AList.lookup_isSome.mp (isSome_of_eq_some hk))

lemma isProposedAt_iff : pc.isProposedAt visit height = true ↔
    ∃ k p, pc.proposal height k = some p ∧ p.isSelfProposed = true ∧
      p.hasProposedThisRound = true := by
  simp only [isProposedAt, List.any_eq_true, mem_proposals, Bool.and_eq_true]
  constructor
  · rintro ⟨p, ⟨k, hk⟩, hp⟩
    exact ⟨k, p, hk, hp⟩
  · rintro ⟨k, p, hk, hp⟩
    exact ⟨p, ⟨k, hk⟩, hp⟩

lemma selfProposed_of_get (h : pc.getSelfProposedBlockAt visit height = some r) :
    ∃ k, pc.SelfProposed height k r := by
  obtain ⟨p, hp, rfl⟩ := map_eq_some_iff.mp h
  obtain ⟨k, hk⟩ := mem_proposals.mp (mem_of_find?_eq_some hp)
  have hself := find?_some hp
  exact ⟨k, p, hk, hself, rfl⟩

lemma not_selfProposed_of_get (h : pc.getSelfProposedBlockAt visit height = none) :
    ¬pc.SelfProposed height k r := by
  rintro ⟨p, hp, hself, -⟩
  have hnone := find?_eq_none.mp (map_eq_none_iff.mp h) p (mem_proposals.mpr ⟨k, hp⟩)
  exact hnone hself

def SelfWithin (pc' pc : ProposalCache φ) : Prop :=
  ∀ height k r, pc'.SelfProposed height k r → pc.SelfProposed height k r

lemma Part.selfWithin (h : Part pc' pc) : SelfWithin pc' pc :=
  fun height k _ ⟨p, hp, hself, hblock⟩ => ⟨p, h height k p hp, hself, hblock⟩

lemma Part.isProposedAt (h : Part pc' pc) (hproposed : pc'.isProposedAt visit height = true) :
    pc.isProposedAt visit height = true := by
  obtain ⟨k, p, hp, hmarks⟩ := isProposedAt_iff.mp hproposed
  exact isProposedAt_iff.mpr ⟨k, p, h height k p hp, hmarks⟩

lemma SelfWithin.refl : SelfWithin pc pc := fun _ _ _ h => h

lemma SelfWithin.trans (h : SelfWithin pc'' pc') (h' : SelfWithin pc' pc) : SelfWithin pc'' pc :=
  fun height k r hself => h' height k r (h height k r hself)

lemma not_selfProposed_clearTheBlock (header : BlockHeader) :
    ¬(pc.clearTheBlock fp header).SelfProposed header.blockHeight (fp header) r := by
  rintro ⟨p, hp, -⟩
  unfold clearTheBlock at hp
  split at hp
  · next hm =>
    rw [proposal, hm] at hp
    cases hp
  · rw [proposal_insert, if_pos rfl, AList.lookup_erase] at hp
    cases hp

lemma selfWithin_markProposedAt (mark : Bool) :
    SelfWithin (pc.markProposedAt visit height mark) pc := by
  rintro height' k r ⟨p', hp', hself, rfl⟩
  obtain ⟨p, hp, hmarked⟩ := proposal_of_markProposedAt hp'
  rw [hmarked] at hself ⊢
  exact ⟨p, hp, hself, rfl⟩

lemma not_isProposedAt_resetProposedAt (visit' : Visit φ)
    (hunique : ∀ k k' r r', pc.SelfProposed height k r → pc.SelfProposed height k' r' → k = k') :
    (pc.resetProposedAt visit height).isProposedAt visit' height = false := by
  rw [← Bool.not_eq_true, isProposedAt_iff]
  rintro ⟨k', p', hp', hself', hmark⟩
  have hwithin := selfWithin_markProposedAt false _ _ _ ⟨p', hp', hself', rfl⟩
  obtain ⟨-, hnone⟩ | ⟨k, p, hp, hself, hall⟩ := markProposedAt_cases visit pc height false
  · exact hnone _ _ hwithin
  obtain rfl := hunique _ _ _ _ hwithin ⟨p, hp, hself, rfl⟩
  have hp' := (hall height k').symm.trans hp'
  rw [if_pos ⟨rfl, rfl⟩] at hp'
  cases hp'
  cases hmark

lemma selfProposed_setProposedBlock {currentHeight : Option UInt64} {r₀ : ℕ} {header : BlockHeader}
    {rwSetMap : Option RWSetMap} {events : Option EventMap} {selfPropose : Bool}
    (hset : pc.setProposedBlock fp currentHeight r₀ header rwSetMap events selfPropose = .ok pc')
    (h : pc'.SelfProposed height k r) : pc.SelfProposed height k r ∨
      selfPropose = true ∧ height = header.blockHeight ∧ k = fp header ∧ r = r₀ := by
  obtain ⟨p, hp, hself, hblock⟩ := h
  rw [proposal_setProposedBlock hset] at hp
  split at hp
  · next hkey =>
    cases hp
    exact .inr ⟨hself, hkey.1, hkey.2, hblock.symm⟩
  · exact .inl ⟨p, hp, hself, hblock⟩

end ProposalCache

/-! ### Copies of a block -/

section content
variable {φ : Type} (env : Env φ)

/-- `b'` is the block `b`, or what message turbo sends of it. -/
structure CopyOf (b' b : Block) : Prop extends SameKey env b' b where
  txs : b'.txs = b.txs ∨ env.consensusMessageTurbo = true ∧ b'.txs = b.txs.map CoreEngine.strip

variable {env} {b b' b'' : Block}

lemma SameContent.copyOf (h : SameContent env b' b) : CopyOf env b' b :=
  ⟨h.toSameKey, .inl h.txs⟩

lemma strip_strip (tx : Transaction) :
    CoreEngine.strip (CoreEngine.strip tx) = CoreEngine.strip tx := by
  simp only [CoreEngine.strip, Option.map_map]
  rfl

lemma CopyOf.trans (h' : CopyOf env b'' b') (h : CopyOf env b' b) : CopyOf env b'' b := by
  refine ⟨h'.toSameKey.trans h.toSameKey, ?_⟩
  rcases h'.txs with heq' | ⟨hturbo, heq'⟩
  · rw [heq']
    exact h.txs
  rcases h.txs with heq | ⟨-, heq⟩
  · exact .inr ⟨hturbo, by rw [heq', heq]⟩
  refine .inr ⟨hturbo, ?_⟩
  rw [heq', heq, List.map_map]
  exact map_congr_left fun tx _ => strip_strip tx

end content

namespace Heap
variable {φ : Type} {env : Env φ} {heap heap' heap'' : Heap} {r r' : ℕ} {b : Block}

lemma Keeps.copy (h : Keeps env heap heap') (r : ℕ) :
    ∀ b, heap.get r = some b → ∃ b', heap'.get r = some b' ∧ CopyOf env b' b := by
  intro b hb
  obtain ⟨b', hb', hsame⟩ := h r b hb
  exact ⟨b', hb', hsame.copyOf⟩

lemma keeps_assign {cached block : Block} (hcached : heap.get r = some cached)
    (hblock : heap.get r' = some block)
    (hfp : env.fingerPrint block.header = env.fingerPrint cached.header)
    (hheight : block.header.blockHeight = cached.header.blockHeight) :
    Keeps env heap (heap.assign r r') := by
  intro r₀ b hb
  by_cases hr : r₀ = r
  · subst hr
    cases hcached.symm.trans hb
    exact ⟨_, get_assign hcached hblock, ⟨hfp, hheight, rfl⟩, rfl⟩
  · exact ⟨b, (get_assign_ne hr).trans hb, .refl⟩

end Heap

lemma Log.Le.trans {log log' log'' : Log} (h : Log.Le log log') (h' : Log.Le log' log'') :
    Log.Le log log'' := by
  refine ⟨List.Subset.trans h.validated h'.validated, fun g hg => ?_⟩
  obtain ⟨g', hg', hblock, htxs, hdag, hrw, hhashes⟩ := h.generated g hg
  obtain ⟨g'', hg'', hblock', htxs', hdag', hrw', hhashes'⟩ := h'.generated g' hg'
  exact ⟨g'', hg'', hblock'.trans hblock, htxs'.trans htxs, hdag'.trans hdag, hrw'.trans hrw,
    List.Subset.trans hhashes hhashes'⟩

/-! ### What the requests do to the marks -/

namespace CoreEngine
open ProposalCache (Part SelfWithin)
variable {φ : Type} [DecidableEq φ] {env : Env φ} {sv : Services φ} {cs : CommitServices} {r' : ℕ}
variable {c c' c'' : CoreEngine φ} {r : ℕ} {block lastBlock : Block} {mode : VerifyMode}
variable {height : UInt64} {k : φ} {p : BlockProposal} {visit : Visit φ}

lemma selfWithin_verified {rwSetMap : Option RWSetMap} {events : Option EventMap} :
    SelfWithin (c.verified env r block rwSetMap events mode).2.proposalCache c.proposalCache := by
  unfold verified
  dsimp only
  split
  · exact .refl
  next pc hset =>
  have hwithin : SelfWithin pc c.proposalCache := by
    split at hset
    · intro height k r' hself
      obtain hself | ⟨hfalse, -⟩ := selfProposed_setProposedBlock hset hself
      · exact hself
      · cases hfalse
    · exact Except.ok.inj hset ▸ .refl
  split <;> exact hwithin

lemma selfWithin_verifyNew :
    SelfWithin (c.verifyNew env sv r block mode).2.proposalCache c.proposalCache := by
  obtain ⟨hspec, hpart⟩ :
      ChecksNew env sv c r block mode _ (c.checkNew env sv r block mode).2 ∧ _ := checkNew_spec
  unfold verifyNew
  generalize c.checkNew env sv r block mode = checked at hspec hpart ⊢
  obtain ⟨res, c1⟩ := checked
  cases hspec with
  | refused e hheap h => exact hpart.selfWithin
  | checked certified hrecover hvalid hcertified hres h =>
    obtain rfl | ⟨rfl, -⟩ := hres
    · exact hpart.selfWithin
    · exact selfWithin_verified.trans hpart.selfWithin

lemma selfProposed_verifyRepeat
    (hself : (c.verifyRepeat env sv r block p mode).2.proposalCache.SelfProposed height k r') :
    c.proposalCache.SelfProposed height k r' ∨
      c.proposalCache.isProposedAt sv.visit block.header.blockHeight = true ∧
      height = block.header.blockHeight ∧ k = env.fingerPrint block.header ∧ r' = r := by
  obtain ⟨-, hpart, hv⟩ : Cuts c (c.checkRepeat env sv r block p mode).2 ∧ _ := checkRepeat_spec
  unfold verifyRepeat at hself
  generalize c.checkRepeat env sv r block p mode = checked at hpart hv hself
  obtain ⟨_ | _ | v, c1⟩ := checked
  · exact .inl (hpart.selfWithin _ _ _ hself)
  · exact .inl (hpart.selfWithin _ _ _ hself)
  obtain rfl := hv v rfl
  dsimp only [cacheBlock] at hself
  rw [if_pos rfl] at hself
  split at hself
  · exact .inl (hpart.selfWithin _ _ _ hself)
  next hset =>
  obtain hself | ⟨hproposed, hnew⟩ := selfProposed_setProposedBlock hset hself
  · exact .inl (hpart.selfWithin _ _ _ hself)
  · exact .inr ⟨hpart.isProposedAt hproposed, hnew⟩

lemma selfProposed_verifyBlock (hblock : c.heap.get r = some block)
    (hself : (c.verifyBlock env sv r mode).2.proposalCache.SelfProposed height k r') :
    c.proposalCache.SelfProposed height k r' ∨ (∃ p, c.getProposedBlock env block.header = some p) ∧
        c.proposalCache.isProposedAt sv.visit block.header.blockHeight = true ∧
        height = block.header.blockHeight ∧ k = env.fingerPrint block.header ∧ r' = r := by
  unfold verifyBlock at hself
  rw [hblock] at hself
  dsimp only at hself
  split at hself
  · exact .inl hself
  have hnote : ∀ (c₁ : CoreEngine φ) res,
      (c₁.notePassed mode block res).proposalCache = c₁.proposalCache := by
    intro c₁ res
    cases res <;> rfl
  rw [hnote] at hself
  split at hself
  · exact .inl (selfWithin_verifyNew _ _ _ hself)
  next p hp =>
  split at hself
  · obtain hself | hnew := selfProposed_verifyRepeat hself
    · exact .inl hself
    · exact .inr ⟨⟨p, hp⟩, hnew⟩
  · exact .inl (selfWithin_verifyNew _ _ _ hself)

lemma selfWithin_addBlock (hblock : c.heap.get r = some block) :
    SelfWithin (c.addBlock env sv cs r).2.proposalCache c.proposalCache := by
  unfold addBlock
  rw [hblock]
  dsimp only
  split
  · exact .refl
  split
  · next hp =>
    have hverified : SelfWithin (c.verifyBlock env sv r .syncVerify).2.proposalCache
        c.proposalCache := by
      intro height k r' hself
      obtain hself | ⟨⟨p, hp'⟩, -⟩ := selfProposed_verifyBlock hblock hself
      · exact hself
      · cases hp.symm.trans hp'
    unfold checkLastProposedBlock
    generalize c.verifyBlock env sv r .syncVerify = verified at hverified
    obtain ⟨res, c₁⟩ := verified
    cases res with
    | error e => exact hverified
    | ok u =>
      dsimp only
      cases c₁.getProposedBlock env block.header with
      | none => exact hverified
      | some p => exact commitBlock_commits.2.selfWithin.trans hverified
  · split
    · exact .refl
    refine commitBlock_commits.2.selfWithin.trans ?_
    split <;> exact .refl

/-! ### What stays true of the self-proposed blocks -/

def Own (env : Env φ) (c : CoreEngine φ) (r : ℕ) : Prop :=
  ∃ g ∈ c.log.generated, ∃ b own, c.heap.get r = some b ∧ c.heap.get g.block = some own ∧
    own.txs = g.txs ∧ own.dag = g.dag ∧ CopyOf env b own

/-- A step that marks no entry, unless a marked one is replaced by a copy of its block. -/
structure Follows (env : Env φ) (c c' : CoreEngine φ) : Prop where
  heap : c.heap.Keeps env c'.heap
  log : c.log.Le c'.log
  keyed : Keyed env c'.heap c'.proposalCache
  self : ∀ height k r, c'.proposalCache.SelfProposed height k r →
    ∃ r₀, c.proposalCache.SelfProposed height k r₀ ∧
      ∀ b, c.heap.get r₀ = some b → ∃ b', c'.heap.get r = some b' ∧ CopyOf env b' b

namespace Follows

lemma of_within (hkeyed : Keyed env c.heap c.proposalCache)
    (hheap : c.heap.Keeps env c'.heap) (hlog : c.log.Le c'.log)
    (hwithin : c'.proposalCache.Within c.proposalCache)
    (hself : SelfWithin c'.proposalCache c.proposalCache) : Follows env c c' where
  heap := hheap
  log := hlog
  keyed := (hkeyed.keeps hheap).within hwithin
  self height k r h := ⟨r, hself height k r h, hheap.copy r⟩

lemma trans (h : Follows env c c') (h' : Follows env c' c'') : Follows env c c'' where
  heap := h.heap.trans h'.heap
  log := h.log.trans h'.log
  keyed := h'.keyed
  self height k r hself := by
    obtain ⟨r₁, hself₁, hcopy₁⟩ := h'.self height k r hself
    obtain ⟨r₀, hself₀, hcopy₀⟩ := h.self height k r₁ hself₁
    refine ⟨r₀, hself₀, fun b hb => ?_⟩
    obtain ⟨b₁, hb₁, hcopy⟩ := hcopy₀ b hb
    obtain ⟨b₂, hb₂, hcopy'⟩ := hcopy₁ b₁ hb₁
    exact ⟨b₂, hb₂, hcopy'.trans hcopy⟩

section
variable (hkeyed : Keyed env c.heap c.proposalCache)
include hkeyed

lemma of_cache (hheap : c.heap.Keeps env c'.heap) (hlog : c.log.Le c'.log)
    (hcache : c'.proposalCache = c.proposalCache) : Follows env c c' :=
  of_within hkeyed hheap hlog (hcache ▸ .refl) (hcache ▸ .refl)

lemma of_part {pc : ProposalCache φ} {outputs : List Output} (hpart : Part pc c.proposalCache) :
    Follows env c { c with proposalCache := pc, outputs } :=
  of_within hkeyed .refl .refl hpart.within hpart.selfWithin

lemma of_mark {mark : Bool} :
    Follows env c { c with proposalCache := c.proposalCache.markProposedAt visit height mark } :=
  of_within hkeyed .refl .refl (within_markProposedAt mark)
    (selfWithin_markProposedAt mark)

end

lemma publish (h : Follows env c c') (r : ℕ) (rwSetMap : Option RWSetMap) :
    Follows env c (c'.publish r rwSetMap) :=
  { h with log := ⟨h.log.validated, h.log.generated⟩ }

lemma own (h : Follows env c c') {r₀ : ℕ} (hown : c.Own env r₀)
    (hcopy : ∀ b, c.heap.get r₀ = some b → ∃ b', c'.heap.get r = some b' ∧ CopyOf env b' b) :
    c'.Own env r := by
  obtain ⟨g, hg, b, own, hb, hgb, htxs, hdag, hof⟩ := hown
  obtain ⟨g', hg', hblock, htxs', hdag', -⟩ := h.log.generated g hg
  obtain ⟨own', hown', hsame⟩ := h.heap _ _ hgb
  obtain ⟨b', hb', hcopy⟩ := hcopy b hb
  refine ⟨g', hg', b', own', hb', hblock ▸ hown', ?_, ?_, ?_⟩
  · rw [hsame.txs, htxs, htxs']
  · rw [hsame.dag, hdag, hdag']
  · exact hcopy.trans (hof.trans hsame.symm.copyOf)

end Follows

def sameBodyAs (env : Env φ) (block cached : Block) : Bool :=
  block.dag = cached.dag && (block.txs = cached.txs ||
    env.consensusMessageTurbo && block.txs = cached.txs.map strip)

/-- The condition for a call of `VerifyBlock`: if the cache has the block's fingerprint while a
block of its height counts as proposed in this round, then that entry is the self-proposed one, and
the block is the one that it has. -/
def marksOwn (env : Env φ) (c : CoreEngine φ) (visit : Visit φ) (r : ℕ) : Bool :=
  (c.heap.get r).all fun block => (c.getProposedBlock env block.header).all fun p =>
    !c.proposalCache.isProposedAt visit block.header.blockHeight ||
      p.isSelfProposed && (c.heap.get p.block).all (sameBodyAs env block)

lemma copyOf_of_marksOwn (hkeyed : Keyed env c.heap c.proposalCache)
    (hblock : c.heap.get r = some block) (hown : marksOwn env c visit r = true)
    (hp : c.getProposedBlock env block.header = some p)
    (hproposed : c.proposalCache.isProposedAt visit block.header.blockHeight = true) :
    p.isSelfProposed = true ∧ ∀ b, c.heap.get p.block = some b → CopyOf env block b := by
  simp only [marksOwn, hblock, hp, hproposed, all_some, Bool.not_true, Bool.false_or,
    Bool.and_eq_true] at hown
  obtain ⟨hself, hbody⟩ := hown
  refine ⟨hself, fun b hb => ?_⟩
  obtain ⟨cached, hcached, hheight, hfp⟩ := hkeyed _ _ p hp
  cases hb.symm.trans hcached
  rw [hb, all_some] at hbody
  simp only [sameBodyAs, Bool.and_eq_true, Bool.or_eq_true, decide_eq_true_eq] at hbody
  exact ⟨⟨hfp.symm, hheight.symm, hbody.1⟩, hbody.2⟩

namespace Follows

variable (hkeyed : Keyed env c.heap c.proposalCache)
include hkeyed

variable (hblock : c.heap.get r = some block)
include hblock

lemma verifyBlock (hown : marksOwn env c sv.visit r = true) :
    Follows env c (c.verifyBlock env sv r mode).2 := by
  have hextends : c.heap.Keeps env (c.verifyBlock env sv r mode).2.heap ∧
      c.log.Le (c.verifyBlock env sv r mode).2.log ∧
      (c.verifyBlock env sv r mode).2.heap.get r = some block := by
    obtain ⟨c₁, hverifies, hnote⟩ := verifyBlock_spec env sv mode hblock
    have hext := hverifies.extends
    have hle : c.log.Le c₁.log :=
      .of_subset hext.validated (by rw [hext.log]; exact List.Subset.refl _)
    rw [hnote]
    cases (c.verifyBlock env sv r mode).1 with
    | error e => exact ⟨.of_get hext.get, hle, hext.get _ _ hblock⟩
    | ok u =>
      exact ⟨.of_get hext.get, ⟨hle.validated, hle.generated⟩, hext.get _ _ hblock⟩
  obtain ⟨hheap, hlog, hget⟩ := hextends
  refine ⟨hheap, hlog, keyed_verifyBlock hblock hkeyed, fun height k r' hself => ?_⟩
  obtain hself | ⟨⟨p, hp⟩, hproposed, rfl, rfl, rfl⟩ := selfProposed_verifyBlock hblock hself
  · exact ⟨r', hself, hheap.copy r'⟩
  · obtain ⟨hmarked, hcopy⟩ := copyOf_of_marksOwn hkeyed hblock hown hp hproposed
    exact ⟨p.block, ⟨p, hp, hmarked, rfl⟩, fun b hb => ⟨block, hget, hcopy b hb⟩⟩

lemma addBlock : Follows env c (c.addBlock env sv cs r).2 := by
  have hself : SelfWithin (c.addBlock env sv cs r).2.proposalCache c.proposalCache :=
    selfWithin_addBlock hblock
  have hadds : Adds env sv c r block (c.addBlock env sv cs r).2 := addBlock_adds hblock
  have hverify : c.getProposedBlock env block.header = none →
      Follows env c (c.verifyBlock env sv r .syncVerify).2 := by
    intro hp
    refine verifyBlock hkeyed hblock ?_
    simp [marksOwn, hblock, hp]
  generalize (c.addBlock env sv cs r).2 = c' at hself hadds
  have hcommits : ∀ {c₁ p}, Follows env c c₁ → Commits c₁ p c' → Follows env c c' := by
    intro c₁ p h hcommits
    have hheap : c.heap.Keeps env c'.heap := hcommits.heap ▸ h.heap
    refine ⟨hheap, hcommits.log ▸ h.log, ?_, fun height k r hnew => ?_⟩
    · exact (h.keyed.keeps (hcommits.heap ▸ .refl)).within hcommits.proposalCache
    · exact ⟨r, hself height k r hnew, hheap.copy r⟩
  cases hadds with
  | refused => exact of_cache hkeyed .refl .refl rfl
  | unverified hp => exact hverify hp
  | verified hp hok hq h => exact hcommits (hverify hp) h
  | @cached p cached _ hp hcached h =>
    refine hcommits ?_ h
    split
    · obtain ⟨b, hb, hheight, hfp⟩ := hkeyed _ _ p hp
      cases hcached.symm.trans hb
      exact of_cache hkeyed (Heap.keeps_assign hcached hblock hfp.symm hheight.symm)
        .refl rfl
    · exact of_cache hkeyed .refl .refl rfl

lemma validateAndCommitBlock (hown : marksOwn env c sv.visit r = true) :
    Follows env c (c.validateAndCommitBlock env sv cs r).2 := by
  have hverify : Follows env c (c.verifyBlock env sv r .syncVerify).2 :=
    verifyBlock hkeyed hblock hown
  have hsyncs : Syncs env sv cs c r (c.validateAndCommitBlock env sv cs r).2 :=
    validateAndCommitBlock_syncs
  generalize (c.validateAndCommitBlock env sv cs r).2 = c' at hsyncs
  cases hsyncs with
  | processed => exact of_cache hkeyed .refl .refl rfl
  | refused => exact hverify
  | added hok =>
    obtain ⟨hheap, -⟩ := verifyBlock_sync hblock hok
    have hadd : Follows env (c.verifyBlock env sv r .syncVerify).2
        ((c.verifyBlock env sv r .syncVerify).2.addBlock env sv cs r).2 :=
      addBlock hverify.keyed (hheap ▸ hblock)
    obtain ⟨hheap, hlog, hkeyed, hself⟩ := hverify.trans hadd
    exact ⟨hheap, ⟨hlog.validated, hlog.generated⟩, hkeyed, hself⟩

end Follows

end CoreEngine

/-! ### The calls of `proposing` -/

/-- Where a call of `proposing` is: it has found a self-proposed block that it does not propose
again, or it is about to generate a new one. -/
inductive ProposingCall where
  | idle
  | found (height : UInt64) (preHash : Option Bytes) (selfProposedBlock : ℕ)
  | fetching (height : UInt64) (preHash : Option Bytes)
deriving DecidableEq

namespace CoreEngine
variable {φ : Type} [DecidableEq φ] (env : Env φ) (c : CoreEngine φ)

def findSelfProposed (visit : Visit φ) (height : UInt64) (preHash : Option Bytes) :
    ProposingCall × CoreEngine φ :=
  match c.proposalCache.getSelfProposedBlockAt visit height with
  | none => (.fetching height preHash, c)
  | some r =>
    match c.heap.get r with
    | none => (.idle, c)
    | some selfProposedBlock =>
      if selfProposedBlock.header.preBlockHash.getD [] = preHash.getD [] then
        let c := { c with proposalCache := c.proposalCache.setProposedAt visit height }
        (.idle, c.publish r ((c.getProposedBlock env selfProposedBlock.header).bind (·.rwSetMap)))
      else (.found height preHash r, c)

def dropSelfProposed (r : ℕ) : CoreEngine φ :=
  match c.heap.get r with
  | none => c
  | some selfProposedBlock =>
    { c with
      proposalCache :=
        c.proposalCache.clearTheBlock env.fingerPrint selfProposedBlock.header }.output
      (.retryAndRemoveTxs [] selfProposedBlock.txs)

lemma proposing_eq (ps : ProposeServices φ) (height : UInt64) (preHash : Option Bytes) :
    c.proposing env ps height preHash = match c.findSelfProposed env ps.visit height preHash with
      | (.idle, c) => c
      | (.fetching height preHash, c) => c.proposeNew env ps height preHash
      | (.found height preHash r, c) =>
        (c.dropSelfProposed env r).proposeNew env ps height preHash := by
  unfold proposing findSelfProposed
  cases c.proposalCache.getSelfProposedBlockAt ps.visit height with
  | none => rfl
  | some r =>
    dsimp only
    cases hget : c.heap.get r with
    | none => rfl
    | some selfProposedBlock =>
      dsimp only
      split
      · rfl
      dsimp only
      rw [dropSelfProposed, hget]

end CoreEngine

structure ProposingNode (φ : Type) where
  engine : CoreEngine φ
  call : ProposingCall

inductive ProposingStep (φ : Type) where
  | request (e : Event φ)
  | propose (visit : Visit φ) (height : UInt64) (preHash : Option Bytes)
  | dropSelfProposed
  | proposeNew (ps : ProposeServices φ)
  | setProposedAt (visit : Visit φ) (height : UInt64)
  | keepProposedBlock (visit : Visit φ) (hash : Bytes) (height : UInt64)
  | clearTheBlock (r : ℕ)

namespace ProposingNode
variable {φ : Type} [DecidableEq φ] (env : Env φ) {r : ℕ}

/-- A call of `proposing` starts when no other one is under way, and goes on by its own steps. -/
def step (s : ProposingNode φ) : ProposingStep φ → Option (ProposingNode φ)
  | .request (.proposing ..) => none
  | .request e => (s.engine.step env e).map fun c => { s with engine := c }
  | .propose visit height preHash =>
    match s.call with
    | .idle =>
      let started := s.engine.findSelfProposed env visit height preHash
      some ⟨started.2, started.1⟩
    | _ => none
  | .dropSelfProposed =>
    match s.call with
    | .found height preHash r => some ⟨s.engine.dropSelfProposed env r, .fetching height preHash⟩
    | _ => none
  | .proposeNew ps =>
    match s.call with
    | .fetching height preHash => some ⟨s.engine.proposeNew env ps height preHash, .idle⟩
    | _ => none
  | .setProposedAt visit height =>
    some { s with engine.proposalCache := s.engine.proposalCache.setProposedAt visit height }
  | .keepProposedBlock visit hash height =>
    some { s with engine.proposalCache :=
      (s.engine.proposalCache.keepProposedBlock env.fingerPrint s.engine.heap visit hash height).2 }
  | .clearTheBlock r =>
    (s.engine.heap.get r).map fun block =>
      { s with engine.proposalCache :=
        s.engine.proposalCache.clearTheBlock env.fingerPrint block.header }

def start (lastBlock : Block) : ProposingNode φ := ⟨CoreEngine.start lastBlock, .idle⟩

/-- A block that is self-proposed was generated here, each height has one of them at most, and after
`ResetProposedAt` the height does not count as proposed. -/
structure Truthful (env : Env φ) (c : CoreEngine φ) : Prop where
  own : ∀ height k p, c.proposalCache.proposal height k = some p → p.isSelfProposed = true →
    c.Own env p.block
  unique : ∀ height k k' p p', c.proposalCache.proposal height k = some p →
    c.proposalCache.proposal height k' = some p' → p.isSelfProposed = true →
    p'.isSelfProposed = true → k = k'
  reset : ∀ visit visit' height,
    (c.proposalCache.resetProposedAt visit height).isProposedAt visit' height = false

def MarksOwn (s : ProposingNode φ) : ProposingStep φ → Prop
  | .request (.verifyBlock sv r _) => s.engine.marksOwn env sv.visit r = true
  | .request (.validateAndCommitBlock sv _ r) => s.engine.marksOwn env sv.visit r = true
  | _ => True

def Knows (env : Env φ) (c : CoreEngine φ) : ProposingCall → Prop
  | .idle => True
  | .found height _ r => ∃ b, c.heap.get r = some b ∧ b.header.blockHeight = height ∧
      ∀ k r', c.proposalCache.SelfProposed height k r' → k = env.fingerPrint b.header
  | .fetching height _ => ∀ k r', ¬c.proposalCache.SelfProposed height k r'

structure Inv (env : Env φ) (s : ProposingNode φ) : Prop where
  keyed : CoreEngine.Keyed env s.engine.heap s.engine.proposalCache
  own : ∀ height k r, s.engine.proposalCache.SelfProposed height k r → s.engine.Own env r
  unique : ∀ height k k' r r', s.engine.proposalCache.SelfProposed height k r →
    s.engine.proposalCache.SelfProposed height k' r' → k = k'
  knows : Knows env s.engine s.call

variable {env} {c c' : CoreEngine φ} {s s' : ProposingNode φ} {call : ProposingCall}

lemma Inv.truthful (h : s.Inv env) : Truthful env s.engine where
  own height k p hp hself := h.own height k p.block ⟨p, hp, hself, rfl⟩
  unique height k k' p p' hp hp' hself hself' :=
    h.unique height k k' p.block p'.block ⟨p, hp, hself, rfl⟩ ⟨p', hp', hself', rfl⟩
  reset _ visit' height :=
    not_isProposedAt_resetProposedAt visit' (h.unique height)

lemma Inv.idle (h : Inv env ⟨c, call⟩) : Inv env ⟨c, .idle⟩ :=
  { h with knows := trivial }

lemma Knows.follows (h : Knows env c call) (hfollows : c.Follows env c') : Knows env c' call := by
  cases call with
  | idle => trivial
  | found height preHash r =>
    obtain ⟨b, hb, hheight, hall⟩ := h
    obtain ⟨b', hb', hsame⟩ := hfollows.heap r b hb
    refine ⟨b', hb', hsame.blockHeight.trans hheight, fun k r' hself => ?_⟩
    obtain ⟨r₀, hself₀, -⟩ := hfollows.self height k r' hself
    rw [hsame.fingerPrint]
    exact hall k r₀ hself₀
  | fetching height preHash =>
    intro k r' hself
    obtain ⟨r₀, hself₀, -⟩ := hfollows.self height k r' hself
    exact h k r₀ hself₀

lemma Inv.follows (h : Inv env ⟨c, call⟩) (hfollows : c.Follows env c') : Inv env ⟨c', call⟩ where
  keyed := hfollows.keyed
  own height k r hself := by
    obtain ⟨r₀, hself₀, hcopy⟩ := hfollows.self height k r hself
    exact hfollows.own (h.own height k r₀ hself₀) hcopy
  unique height k k' r r' hself hself' := by
    obtain ⟨r₀, hself₀, -⟩ := hfollows.self height k r hself
    obtain ⟨r₀', hself₀', -⟩ := hfollows.self height k' r' hself'
    exact h.unique height k k' r₀ r₀' hself₀ hself₀'
  knows := Knows.follows h.knows hfollows

lemma Inv.output (h : Inv env ⟨c, call⟩) (o : Output) : Inv env ⟨c.output o, call⟩ :=
  { h with }

/-! ### One step -/

variable {height : UInt64} {preHash : Option Bytes}

lemma blockHeight_lastBlockOf {visit : Visit φ} {lastBlock : Block}
    (hkeyed : CoreEngine.Keyed env c.heap c.proposalCache)
    (h : c.lastBlockOf visit height preHash = some lastBlock) :
    lastBlock.header.blockHeight + 1 = height := by
  unfold CoreEngine.lastBlockOf at h
  split at h
  · next hnext =>
    rw [CoreEngine.currentHeight, h] at hnext
    exact hnext
  obtain ⟨p, hp, hget⟩ := bind_eq_some_iff.mp h
  unfold getProposedBlockByHashAndHeight at hp
  split at hp
  · cases hp
  obtain ⟨k, hk⟩ := mem_proposals.mp (mem_of_find?_eq_some hp)
  obtain ⟨b, hb, hheight, -⟩ := hkeyed _ _ p hk
  cases hget.symm.trans hb
  rw [hheight]
  exact UInt64.sub_add_cancel height 1

lemma Inv.generateNewBlock (h : Inv env ⟨c, .fetching height preHash⟩) (ps : ProposeServices φ)
    (txBatch : List Transaction) : Inv env ⟨(c.generateNewBlock env ps height preHash txBatch).2,
    .idle⟩ := by
  unfold CoreEngine.generateNewBlock
  split
  · exact h.idle
  next block rwSetMap events hbuild =>
  obtain ⟨-, lastBlock, hlast, hnext⟩ := CoreEngine.header_buildBlock hbuild
  have hheight := hnext.trans (blockHeight_lastBlockOf h.keyed hlast)
  dsimp only
  generalize hc1 : (if rwSetMap.keys.length < txBatch.length then
    { c with heap := c.heap.alloc block }.output (.retryAndRemoveTxs
      (txBatch.filter fun tx => tx.txId.all (rwSetMap.lookup · = none)) [])
    else { c with heap := c.heap.alloc block } : CoreEngine φ) = c1
  obtain ⟨hheap, hlog, hcache⟩ : c1.heap = c.heap.alloc block ∧ c1.log = c.log ∧
      c1.proposalCache = c.proposalCache := by
    rw [← hc1]
    split <;> exact ⟨rfl, rfl, rfl⟩
  have hle : c.log.Le c1.log := hlog ▸ .refl
  have hfollows : c.Follows env c1 := .of_cache h.keyed
    (hheap ▸ .of_get fun _ _ hb => Heap.get_alloc block hb) hle hcache
  have h1 := h.follows hfollows
  have hnext : c1.heap.get c.heap.next = some block := hheap ▸ Heap.get_alloc_next block
  split
  · exact h1.idle
  next pc hset =>
  -- a self-proposed entry of the new cache is an old one of another height, or the new block's
  have hself : ∀ height' k r, (pc.setProposedAt ps.visit block.header.blockHeight).SelfProposed
      height' k r → c1.proposalCache.SelfProposed height' k r ∧ height' ≠ height ∨
        height' = height ∧ k = env.fingerPrint block.header ∧ r = c.heap.next := by
    intro height' k r hnew
    have hnew := selfWithin_markProposedAt true _ _ _ hnew
    obtain hold | ⟨-, hkey, hrest⟩ := selfProposed_setProposedBlock hset hnew
    · refine .inl ⟨hold, ?_⟩
      rintro rfl
      exact h1.knows k r hold
    · exact .inr ⟨hkey.trans hheight, hrest⟩
  refine ⟨?_, fun height' k r hnew => ?_, fun height' k k' r r' hnew hnew' => ?_, trivial⟩
  · refine (ProposalCache.Each.set h1.keyed ?_ hset).within
      (within_markProposedAt true)
    exact ⟨block, hnext, rfl, rfl⟩
  · obtain ⟨hold, -⟩ | ⟨-, -, rfl⟩ := hself height' k r hnew
    · obtain ⟨g, hg, hrest⟩ := h1.own height' k r hold
      exact ⟨g, mem_cons_of_mem _ hg, hrest⟩
    · exact ⟨_, mem_cons_self, block, block, hnext, hnext, rfl, rfl, SameContent.refl.copyOf⟩
  · obtain ⟨hold, hne⟩ | ⟨heq, hk, -⟩ := hself height' k r hnew
    · obtain ⟨hold', -⟩ | ⟨heq', -⟩ := hself height' k' r' hnew'
      · exact h1.unique height' k k' r r' hold hold'
      · exact absurd heq' hne
    · obtain ⟨-, hne'⟩ | ⟨-, hk', -⟩ := hself height' k' r' hnew'
      · exact absurd heq hne'
      · rw [hk, hk']

lemma Inv.proposeNew (h : Inv env ⟨c, .fetching height preHash⟩) (ps : ProposeServices φ) :
    Inv env ⟨c.proposeNew env ps height preHash, .idle⟩ := by
  unfold CoreEngine.proposeNew
  dsimp only
  split
  · exact (h.output _).idle
  generalize CoreEngine.txDuplicateCheck ps ps.fetchTxBatch = checkedBatch
  generalize hc1 : (if checkedBatch.length > env.blockTxCapacity.toNat then
    c.output (.retryAndRemoveTxs (checkedBatch.drop env.blockTxCapacity.toNat) []) else c) = c1
  have h1 : Inv env ⟨c1, .fetching height preHash⟩ := by
    rw [← hc1]
    split
    · exact h.output _
    · exact h
  have h2 := h1.generateNewBlock ps (checkedBatch.take env.blockTxCapacity.toNat)
  split
  · next hfailed =>
    rw [hfailed] at h2
    exact h2.output _
  next r c2 hok =>
  rw [hok] at h2
  split
  · exact h2
  split
  · refine h2.follows (.publish ?_ _ _)
    exact .of_cache h2.keyed (.of_get fun _ _ hb => Heap.get_share hb) .refl rfl
  · exact h2.follows (.publish (.of_cache h2.keyed .refl .refl rfl) _ _)

lemma Inv.findSelfProposed (h : Inv env ⟨c, .idle⟩) (visit : Visit φ) (height : UInt64)
    (preHash : Option Bytes) : Inv env ⟨(c.findSelfProposed env visit height preHash).2,
      (c.findSelfProposed env visit height preHash).1⟩ := by
  unfold CoreEngine.findSelfProposed
  split
  · next hnone =>
    exact { h with knows := fun _ _ => not_selfProposed_of_get hnone }
  next r hr =>
  split
  · exact h
  next b hb =>
  split
  · exact h.follows (.publish (.of_mark h.keyed) _ _)
  refine { h with knows := ?_ }
  obtain ⟨k, hself⟩ := selfProposed_of_get hr
  obtain ⟨p, hp, -, hblock⟩ := id hself
  obtain ⟨b', hb', hheight, hfp⟩ := h.keyed height k p hp
  obtain rfl := mem_unique hb (hblock ▸ hb')
  refine ⟨b, hb, hheight, fun k' r' hself' => ?_⟩
  rw [hfp]
  exact h.unique height k' k r' r hself' hself

lemma Inv.dropSelfProposed (h : Inv env ⟨c, .found height preHash r⟩) : Inv env
    ⟨c.dropSelfProposed env r, .fetching height preHash⟩ := by
  obtain ⟨b, hb, hheight, hall⟩ := h.knows
  have hfollows : c.Follows env (c.dropSelfProposed env r) := by
    rw [CoreEngine.dropSelfProposed, hb]
    exact .of_part h.keyed (part_clearTheBlock _)
  obtain ⟨hkeyed, hown, hunique, -⟩ := h.follows hfollows
  refine ⟨hkeyed, hown, hunique, fun k r' hself => ?_⟩
  obtain ⟨r₀, hself₀, -⟩ := hfollows.self height k r' hself
  obtain rfl := hall k r₀ hself₀
  rw [CoreEngine.dropSelfProposed, hb] at hself
  exact not_selfProposed_clearTheBlock b.header (hheight ▸ hself)

lemma Inv.request {e : Event φ} (h : s.Inv env) (hP : s.MarksOwn env (.request e))
    (hs : s.engine.step env e = some c')
    (he : ∀ ps height preHash, e ≠ .proposing ps height preHash) :
    Inv env ⟨c', s.call⟩ := by
  refine Inv.follows (c := s.engine) h ?_
  cases e with
  | receive block =>
    exact some.inj hs ▸
      .of_cache h.keyed (.of_get fun _ _ hb => Heap.get_alloc block hb) .refl rfl
  | verifyBlock sv r mode =>
    obtain ⟨block, hblock, rfl⟩ := map_eq_some_iff.mp hs
    exact .verifyBlock h.keyed hblock hP
  | proposing ps height preHash => exact absurd rfl (he ps height preHash)
  | sign r consensusArgs hash signature =>
    obtain ⟨-, hs⟩ := ite_none_right_eq_some.mp hs
    exact some.inj hs ▸ .of_cache h.keyed (Heap.keeps_sign _ _ _) (CoreEngine.le_sign ..) rfl
  | attach r additionalData =>
    obtain ⟨block, hblock, rfl⟩ := map_eq_some_iff.mp hs
    exact .of_cache h.keyed (Heap.keeps_setAdditionalData r additionalData) .refl rfl
  | addBlock sv cs r =>
    obtain ⟨block, hblock, rfl⟩ := map_eq_some_iff.mp hs
    exact .addBlock h.keyed hblock
  | validateAndCommitBlock sv cs r =>
    obtain ⟨block, hblock, rfl⟩ := map_eq_some_iff.mp hs
    exact .validateAndCommitBlock h.keyed hblock hP
  | resetProposedAt visit height =>
    exact some.inj hs ▸ .of_mark h.keyed
  | discardAboveHeight visit baseHeight =>
    refine some.inj hs ▸ ?_
    split <;> exact .of_part h.keyed (part_discardAboveHeight visit baseHeight)

lemma request_of_step {e : Event φ} (hs : s.step env (.request e) = some s') :
    (∀ ps height preHash, e ≠ .proposing ps height preHash) ∧
      ∃ c', s.engine.step env e = some c' ∧ ⟨c', s.call⟩ = s' := by
  cases e with
  | proposing ps height preHash => cases hs
  | _ =>
    simp only [step, map_eq_some_iff] at hs
    exact ⟨by simp, hs⟩

lemma Inv.step {e : ProposingStep φ} (h : s.Inv env) (hP : s.MarksOwn env e)
    (hs : s.step env e = some s') : s'.Inv env := by
  obtain ⟨c, call⟩ := s
  cases e with
  | request e =>
    obtain ⟨he, c', hc', rfl⟩ := request_of_step hs
    exact h.request hP hc' he
  | propose visit height preHash =>
    cases call with
    | idle => exact some.inj hs ▸ h.findSelfProposed visit height preHash
    | found | fetching => cases hs
  | dropSelfProposed =>
    cases call with
    | found height preHash r => exact some.inj hs ▸ h.dropSelfProposed
    | idle | fetching => cases hs
  | proposeNew ps =>
    cases call with
    | fetching height preHash => exact some.inj hs ▸ h.proposeNew ps
    | idle | found => cases hs
  | setProposedAt visit height =>
    exact some.inj hs ▸ h.follows (.of_mark h.keyed)
  | keepProposedBlock visit hash height =>
    exact some.inj hs ▸ h.follows (.of_part h.keyed (part_keepProposedBlock hash))
  | clearTheBlock r =>
    obtain ⟨block, hblock, rfl⟩ := map_eq_some_iff.mp hs
    exact h.follows (.of_part h.keyed (part_clearTheBlock block.header))

theorem truthful_runs (env : Env φ) (lastBlock : Block) (es : List (ProposingStep φ))
    (s : ProposingNode φ) (hP : Runs.Meets (step env) (MarksOwn env) (start lastBlock) es)
    (hrun : Runs.run (step env) (start lastBlock) es = some s) : Truthful env s.engine := by
  have hempty : ∀ height k r,
      ¬(start lastBlock : ProposingNode φ).engine.proposalCache.SelfProposed height k r := by
    rintro height k r ⟨p, hp, -⟩
    cases (proposal_empty height k).symm.trans hp
  have hstart : (start lastBlock : ProposingNode φ).Inv env := by
    refine ⟨fun height k p hp => ?_, fun height k r h => absurd h (hempty height k r),
      fun height k _ r _ h => absurd h (hempty height k r), trivial⟩
    cases (proposal_empty height k).symm.trans hp
  exact (Runs.run_induction (fun _ _ _ h hP hs => h.step hP hs) hstart hP hrun).truthful

instance (s : ProposingNode φ) (e : ProposingStep φ) : Decidable (MarksOwn env s e) :=
  match e with
  | .request (.verifyBlock sv r _) =>
    inferInstanceAs (Decidable (s.engine.marksOwn env sv.visit r = true))
  | .request (.validateAndCommitBlock sv _ r) =>
    inferInstanceAs (Decidable (s.engine.marksOwn env sv.visit r = true))
  | .request (.receive _) | .request (.proposing ..) | .request (.sign ..) | .request (.attach ..)
  | .request (.addBlock ..) | .request (.resetProposedAt ..) | .request (.discardAboveHeight ..)
  | .propose .. | .dropSelfProposed | .proposeNew _ | .setProposedAt .. | .keepProposedBlock ..
  | .clearTheBlock _ => .isTrue trivial

open CoreEngine (smallEnv genesis blockOne blockTwo agreeable proposer)

def inOrder : Visit Snapshot.BlockHeader := ⟨fun keys => keys, fun keys => .refl keys⟩

def proposeTwo : List (ProposingStep Snapshot.BlockHeader) :=
  [.request (.receive (blockOne [] none)), .request (.verifyBlock agreeable 1 .consensusVerify),
    .propose inOrder 2 (some [1, 5, 5]), .proposeNew proposer]

lemma marked_of_proposals {pc : ProposalCache Snapshot.BlockHeader}
    (h : (r, true) ∈ (pc.proposals inOrder 2).map fun p => (p.block, p.isSelfProposed)) :
    ∃ k p, pc.proposal 2 k = some p ∧ p.block = r ∧ p.isSelfProposed = true := by
  obtain ⟨p, hp, hpair⟩ := mem_map.mp h
  obtain ⟨hr, hmark⟩ := Prod.mk.inj hpair
  obtain ⟨k, hk⟩ := mem_proposals.mp hp
  exact ⟨k, p, hk, hr, hmark⟩

def ownAgain : List (ProposingStep Snapshot.BlockHeader) :=
  proposeTwo ++ [.request (.sign 2 [] [2, 5, 5] []),
    .request (.verifyBlock agreeable 2 .consensusVerify), .request (.receive blockTwo),
    .request (.verifyBlock agreeable 3 .consensusVerify)]

theorem truthful_runs_ownAgain :
    ∃ s, Runs.run (step (smallEnv .hotstuff)) (start genesis) ownAgain = some s ∧
      (∃ k p, s.engine.proposalCache.proposal 2 k = some p ∧ p.block = 2 ∧
        p.isSelfProposed = true) ∧
      Truthful (smallEnv .hotstuff) s.engine :=
  ⟨_, eq_some_of_isSome (by decide +kernel), marked_of_proposals (by decide +kernel),
    truthful_runs (smallEnv .hotstuff) genesis ownAgain _ (by decide +kernel) (eq_some_of_isSome _)⟩

def otherTwice : List (ProposingStep Snapshot.BlockHeader) :=
  proposeTwo ++ [.request (.receive blockTwo), .request (.verifyBlock agreeable 3 .consensusVerify),
    .request (.verifyBlock agreeable 3 .consensusVerify)]

theorem not_truthful :
    ∃ s, Runs.run (step (smallEnv .hotstuff)) (start genesis) otherTwice = some s ∧
      (∃ k k' p p', s.engine.proposalCache.proposal 2 k = some p ∧
        s.engine.proposalCache.proposal 2 k' = some p' ∧ p.isSelfProposed = true ∧
        p'.isSelfProposed = true ∧ k ≠ k' ∧ ¬s.engine.Own (smallEnv .hotstuff) p.block) ∧
      (s.engine.proposalCache.resetProposedAt inOrder 2).isProposedAt inOrder 2 = true := by
  obtain ⟨s, hs, hthree, htwo, hget, hgenerated, hreset⟩ : ∃ s, Runs.run (step (smallEnv .hotstuff))
      (start genesis) otherTwice = some s ∧
      (3, true) ∈ (s.engine.proposalCache.proposals inOrder 2).map
        (fun p => (p.block, p.isSelfProposed)) ∧
      (2, true) ∈ (s.engine.proposalCache.proposals inOrder 2).map
        (fun p => (p.block, p.isSelfProposed)) ∧
      s.engine.heap.get 3 = some blockTwo ∧ (∀ g ∈ s.engine.log.generated, g.txs ≠ blockTwo.txs) ∧
      (s.engine.proposalCache.resetProposedAt inOrder 2).isProposedAt inOrder 2 = true :=
    ⟨_, eq_some_of_isSome (by decide +kernel), by decide +kernel⟩
  obtain ⟨k, p, hp, hblock, hself⟩ := marked_of_proposals hthree
  obtain ⟨k', p', hp', hblock', hself'⟩ := marked_of_proposals htwo
  refine ⟨s, hs, ⟨k, k', p, p', hp, hp', hself, hself', ?_, ?_⟩, hreset⟩
  · rintro rfl
    cases hp.symm.trans hp'
    cases hblock.symm.trans hblock'
  rintro ⟨g, hg, b, own, hb, -, hown, -, hcopy⟩
  obtain rfl := mem_unique hget (hblock ▸ hb)
  obtain htxs | ⟨hturbo, -⟩ := hcopy.txs
  · exact hgenerated g hg (hown.symm.trans htxs.symm)
  · cases hturbo
end ProposingNode
end ChainMaker.Core
