import ChainMaker.Core.Overlap

/-! Where no transaction is in two blocks that the node has in work at different heights, and the
pool holds none of the stored ones that a block asks for, no transaction is stored twice. -/

namespace ChainMaker.Core
open List Call
open ChainMaker.Snapshot (TxRWSet)

section
variable {φ : Type} [DecidableEq φ] {env : Env φ} {sv : Services φ} {block : Block}

def ProposalCache.blocks (pc : ProposalCache φ) : List ℕ :=
  pc.values.flatMap fun proposals => proposals.values.map (·.block)

lemma ProposalCache.mem_blocks {pc : ProposalCache φ} {r : ℕ} :
    r ∈ pc.blocks ↔ ∃ height k p, pc.proposal height k = some p ∧ p.block = r := by
  simp only [blocks, proposal, mem_flatMap, mem_map, GoMap.mem_values, Option.bind_eq_some_iff]
  constructor
  · rintro ⟨proposals, ⟨height, hheight⟩, p, ⟨k, hp⟩, rfl⟩
    exact ⟨height, k, p, ⟨proposals, hheight, hp⟩, rfl⟩
  · rintro ⟨height, k, p, ⟨proposals, hheight, hp⟩, rfl⟩
    exact ⟨proposals, ⟨height, hheight⟩, p, ⟨k, hp⟩, rfl⟩

omit [DecidableEq φ] in
lemma txExists_of_verifyTx {rwSetMap : RWSetMap} {results : GoMap Bytes Result}
    {pool : GoMap Bytes Transaction × GoMap Bytes UInt64} {tx : Transaction} {hash txId : Bytes}
    (h : verifyTx env sv block rwSetMap results pool tx = .ok hash) (htxId : tx.txId = some txId)
    (hpool : pool.1.lookup txId = none) : sv.txExists txId = some false := by
  unfold verifyTx at h
  rw [htxId] at h
  obtain ⟨⟨⟩, hvalid, -⟩ := bind_ok.mp h
  unfold validateTx at hvalid
  rw [hpool] at hvalid
  by_contra hexists
  simp [hexists] at hvalid

omit [DecidableEq φ] in
lemma txExists_of_validateBlock {rwSetMap : Option RWSetMap} {events : Option EventMap}
    {txId : Bytes} (h : validateBlock env sv block = .ok (rwSetMap, events))
    (htxId : txId ∈ block.txIds) (hpool : (sv.getTxsByTxIds block.txIds).1.lookup txId = none) :
    sv.txExists txId = some false := by
  obtain ⟨tx, htx, hid⟩ := mem_filterMap.mp htxId
  cases (validateBlock_ok h).2 with
  | vacuum htxs =>
    rw [htxs] at htx
    cases htx
  | simulated htxs hduplicate hsimulate hcount hverify hdigests =>
    obtain ⟨i, hi⟩ := getElem?_of_mem htx
    obtain ⟨hash, -, hhash⟩ := getElem?_of_mapM hverify hi
    exact txExists_of_verifyTx hhash hid hpool

end

namespace Node
variable {φ : Type} [DecidableEq φ] (env : Env φ) (n : Node φ) {r : ℕ} {cs : CommitServices}
  {v : Verification}

def candidates : List ℕ :=
  n.engine.proposalCache.blocks ++ n.verifying.map (·.block) ++
    (n.committer.holder.bind toPut).toList

def Above (height : UInt64) : Prop := ∀ l ∈ n.committer.storedHeight, l < height

/-- None of the block's transactions that the pool has is in the store, and none is in a block of
another height that may come into the store. -/
def Fresh (block : Block) : Prop :=
  (∀ txId ∈ block.txIds, (n.pool.lookup txId).isSome → ¬ txId ∈ n.storedIds) ∧
  ∀ r ∈ n.candidates, ∀ other ∈ n.engine.heap.get r, n.Above other.header.blockHeight →
    other.header.blockHeight ≠ block.header.blockHeight → ∀ txId ∈ block.txIds, ¬ txId ∈ other.txIds

/-- A new block is fresh, a block that passes as a repeated one has the body of the verified one,
and the steps of `CommitBlock` succeed. -/
def Separate : Move φ → Prop
  | .checkNew sv r mode => ∀ block ∈ n.engine.heap.get r,
    ∀ recovered ∈ (n.engine.recoverBlock env (n.services sv) r block mode).toOption,
      n.Fresh recovered.2.1
  | .checkRepeat _ r _ =>
    ∀ block ∈ n.engine.heap.get r, ∀ p ∈ n.engine.getProposedBlock env block.header,
    ∀ cached ∈ n.engine.heap.get p.block, block.txs = cached.txs
  | .next _ cs => cs.completes = true
  | _ => True

-- named, so that no instance is found that goes through all heights
instance (height : UInt64) : Decidable (n.Above height) :=
  Option.decidableForallMem n.committer.storedHeight

instance (block : Block) : Decidable (n.Fresh block) :=
  inferInstanceAs (Decidable (_ ∧ _))

instance (m : Move φ) : Decidable (n.Separate env m) :=
  match m with
  | .checkNew _ _ _ => inferInstanceAs (Decidable (∀ block ∈ _, ∀ recovered ∈ _, _))
  | .checkRepeat _ _ _ => inferInstanceAs (Decidable (∀ block ∈ _, ∀ p ∈ _, ∀ cached ∈ _, _))
  | .next _ cs => inferInstanceAs (Decidable (cs.completes = true))
  | .receive _ | .addTx _ | .cacheBlock _ _ | .addBlock _ _ | .verified _ =>
    inferInstanceAs (Decidable True)

variable {env n} {n' : Node φ} {c : CoreEngine φ} {mode : VerifyMode} {p : BlockProposal}

def Candidate (n : Node φ) (block : Block) : Prop :=
  ∃ r ∈ n.candidates, n.engine.heap.get r = some block

/-- Nothing is stored twice, and the blocks that may come into the store have neither stored
transactions nor, at different heights, common ones. -/
structure Apart (n : Node φ) : Prop where
  level : n.committer.Level True
  verifying : ∀ v ∈ n.verifying, ∃ block, n.engine.heap.get v.block = some block
  once : (n.engine.store.map (·.1.txIds)).Pairwise Disjoint
  fresh : ∀ block, n.Candidate block → n.Above block.header.blockHeight →
    Disjoint block.txIds n.storedIds
  apart : ∀ block other, n.Candidate block → n.Candidate other → n.Above block.header.blockHeight →
    n.Above other.header.blockHeight → other.header.blockHeight ≠ block.header.blockHeight →
    Disjoint block.txIds other.txIds

structure Shrinks (n n' : Node φ) : Prop where
  blocks : n.engine.heap.SameBlocks n'.engine.heap
  store : n'.engine.store = n.engine.store
  storedHeight : n'.committer.storedHeight = n.committer.storedHeight
  verifying : n'.verifying ⊆ n.verifying
  candidates : n'.candidates ⊆ n.candidates

omit [DecidableEq φ] in
lemma toPut_eq_some_iff {call : Call} :
    call.toPut = some r ↔ ∃ p, call.stage = .put p ∧ p.block = r := by
  unfold toPut
  cases call.stage <;> simp

lemma mem_candidates : r ∈ n.candidates ↔
    (∃ height k p, n.engine.proposalCache.proposal height k = some p ∧ p.block = r) ∨
      (∃ v ∈ n.verifying, v.block = r) ∨
      ∃ call p, n.committer.holder = some call ∧ call.stage = .put p ∧ p.block = r := by
  simp only [candidates, mem_append, ProposalCache.mem_blocks, mem_map, Option.mem_toList,
    Option.bind_eq_some_iff, toPut_eq_some_iff, or_assoc, exists_and_left]

omit [DecidableEq φ] in
lemma Shrinks.above {height : UInt64} (h : n.Shrinks n') (habove : n'.Above height) :
    n.Above height := by
  unfold Above
  rw [← h.storedHeight]
  exact habove

namespace Apart

lemma known (h : n.Apart) (hr : r ∈ n.candidates) : ∃ block, n.engine.heap.get r = some block := by
  have hheight : ∀ {height : UInt64}, n.engine.heap.heightOf r = some height →
      ∃ block, n.engine.heap.get r = some block := by
    intro height hheight
    obtain ⟨block, hblock, -⟩ := Heap.heightOf_eq_some_iff.mp hheight
    exact ⟨block, hblock⟩
  obtain ⟨height, k, p, hp, rfl⟩ | ⟨v, hv, rfl⟩ | ⟨call, p, hcall, hput, rfl⟩ :=
    mem_candidates.mp hr
  · exact hheight (h.level.placed height k p hp)
  · exact h.verifying v hv
  have hstands := h.level.stands call hcall
  unfold Committer.Stands at hstands
  rw [hput] at hstands
  exact hheight hstands.1

lemma before (h : n.Apart) (hshrinks : n.Shrinks n') {block : Block} (hblock : n'.Candidate block) :
    ∃ old, n.Candidate old ∧ old.header.blockHeight = block.header.blockHeight ∧
      old.txIds = block.txIds := by
  obtain ⟨r, hr, hget⟩ := hblock
  obtain ⟨old, hold⟩ := h.known (hshrinks.candidates hr)
  obtain ⟨block', hblock', hheight, htxs⟩ := hshrinks.blocks r old hold
  cases hget.symm.trans hblock'
  exact ⟨old, ⟨r, hshrinks.candidates hr, hold⟩, hheight.symm, congrArg (filterMap _) htxs.symm⟩

lemma shrink (h : n.Apart) (hshrinks : n.Shrinks n') (hlevel : n'.committer.Level True) :
    n'.Apart := by
  have hstored : n'.storedIds = n.storedIds := by rw [storedIds, storedIds, hshrinks.store]
  refine ⟨hlevel, fun v hv => ?_, hshrinks.store ▸ h.once, fun block hblock hheight => ?_,
    fun block other hblock hother hheight hheight' hne => ?_⟩
  · obtain ⟨block, hblock⟩ := h.verifying v (hshrinks.verifying hv)
    obtain ⟨block', hblock', -⟩ := hshrinks.blocks _ _ hblock
    exact ⟨block', hblock'⟩
  · obtain ⟨old, hold, hsame, hids⟩ := h.before hshrinks hblock
    rw [hstored, ← hids]
    exact h.fresh old hold (hsame ▸ hshrinks.above hheight)
  · obtain ⟨old, hold, hsame, hids⟩ := h.before hshrinks hblock
    obtain ⟨old', hold', hsame', hids'⟩ := h.before hshrinks hother
    rw [← hids, ← hids']
    refine h.apart old old' hold hold' (hsame ▸ hshrinks.above hheight)
      (hsame' ▸ hshrinks.above hheight') ?_
    rwa [hsame, hsame']

lemma add (h : n.Apart) {block : Block} (hblock : n.engine.heap.get v.block = some block)
    (hfresh : n.Above block.header.blockHeight → Disjoint block.txIds n.storedIds)
    (hapart : ∀ other, n.Candidate other → n.Above other.header.blockHeight →
      n.Above block.header.blockHeight → other.header.blockHeight ≠ block.header.blockHeight →
      Disjoint block.txIds other.txIds) : Apart { n with verifying := v :: n.verifying } := by
  have hcandidate : ∀ b, Candidate { n with verifying := v :: n.verifying } b →
      b = block ∨ n.Candidate b := by
    rintro b ⟨r, hr, hget⟩
    obtain hcached | ⟨v', hv', rfl⟩ | hput := mem_candidates.mp hr
    · exact .inr ⟨r, mem_candidates.mpr (.inl hcached), hget⟩
    · obtain rfl | hv' := mem_cons.mp hv'
      · exact .inl (Option.mem_unique hget hblock)
      · exact .inr ⟨_, mem_candidates.mpr (.inr (.inl ⟨v', hv', rfl⟩)), hget⟩
    · exact .inr ⟨r, mem_candidates.mpr (.inr (.inr hput)), hget⟩
  refine ⟨h.level, forall_mem_cons.mpr ⟨⟨block, hblock⟩, h.verifying⟩, h.once,
    fun b hb hheight => ?_, fun b other hb hother hheight hheight' hne => ?_⟩
  · obtain rfl | hb := hcandidate b hb
    · exact hfresh hheight
    · exact h.fresh b hb hheight
  · obtain rfl | hb := hcandidate b hb
    · obtain rfl | hother := hcandidate other hother
      · exact absurd rfl hne
      · exact hapart other hother hheight' hheight hne
    · obtain rfl | hother := hcandidate other hother
      · exact (hapart b hb hheight hheight' (Ne.symm hne)).symm
      · exact h.apart b other hb hother hheight hheight' hne

end Apart

/-! ### What `VerifyBlock` does -/

lemma storedHeight_withEngine (h : n.Apart) (hstays : n.engine.Stays c) :
    (n.withEngine c).committer.storedHeight = n.committer.storedHeight := by
  obtain ⟨l, hl, -⟩ := h.level.reached
  have hl' : c.currentHeight = some l := hstays.currentHeight hl
  change (n.committer.holder.bind stored).or c.currentHeight =
    (n.committer.holder.bind stored).or n.committer.engine.currentHeight
  rw [hl', hl]

lemma Apart.trim (h : n.Apart) (htrims : n.engine.Trims c) :
    n.Shrinks (n.withEngine c) ∧ (n.withEngine c).Apart := by
  have hstays : n.engine.Stays c := htrims.toGrows.stays
  have hshrinks : n.Shrinks (n.withEngine c) := by
    refine ⟨hstays.blocks, htrims.store, storedHeight_withEngine h hstays, Subset.refl _, ?_⟩
    intro r hr
    obtain ⟨height, k, p, hp, rfl⟩ | hrest := mem_candidates.mp hr
    · obtain ⟨q, hq, hblock, -⟩ := htrims.proposalCache height k p hp
      exact mem_candidates.mpr (.inl ⟨height, k, q, hq, hblock.symm⟩)
    · exact mem_candidates.mpr (.inr hrest)
  refine ⟨hshrinks, h.shrink hshrinks (h.level.stays hstays fun height k p hp => ?_)⟩
  exact hstays.blocks.heightOf (h.level.placed.within htrims.proposalCache height k p hp)

variable {sv : Services φ} {block : Block}

omit [DecidableEq φ] in
lemma Fresh.disjoint {rwSetMap : Option RWSetMap} {events : Option EventMap} (h : n.Fresh block)
    (hvalid : validateBlock env (n.services sv) block = .ok (rwSetMap, events)) :
    Disjoint block.txIds n.storedIds := by
  intro txId htxId hstored
  cases hpool : n.pool.lookup txId with
  | some tx => exact h.1 txId htxId (by rw [hpool, Option.isSome_some]) hstored
  | none =>
    have hexists : (n.services sv).txExists txId = some false := by
      refine txExists_of_validateBlock hvalid htxId ?_
      change (n.pool.restrict block.txIds).lookup txId = none
      rw [GoMap.lookup_restrict, hpool, ite_self]
    obtain ⟨_, -, hcontains⟩ := Option.map_eq_some_iff.mp hexists
    rw [contains_iff_mem.mpr hstored] at hcontains
    cases hcontains

lemma Apart.checkNew (h : n.Apart)
    (hseparate : n.Separate env (.checkNew sv r mode)) (hblock : n.engine.heap.get r = some block) :
    let checked := n.engine.checkNew env (n.services sv) r block mode
    Apart { n.withEngine checked.2 with
      verifying := (checked.1.toOption.map (·.1)).toList ++ n.verifying } := by
  intro checked
  obtain ⟨htrims, hspec⟩ : n.engine.Trims checked.2 ∧ _ := CoreEngine.checkNew_trims hblock
  obtain ⟨hshrinks, hapart⟩ := h.trim htrims
  cases hchecked : checked.1 with
  | error e => exact hapart
  | ok v =>
    obtain ⟨heap, hrecover, hvalid, hget⟩ := hspec v hchecked
    have hfresh : n.Fresh v.2 := by
      refine hseparate block hblock (v.1.block, v.2, heap) ?_
      rw [hrecover]
      rfl
    refine hapart.add hget (fun _ => ?_) fun other hother habove _ hne => ?_
    · rw [storedIds, hshrinks.store]
      exact hfresh.disjoint hvalid
    · obtain ⟨old, ⟨r', hr', hold⟩, hsame, hids⟩ := h.before hshrinks hother
      rw [← hids]
      exact hfresh.2 r' hr' old hold (hsame ▸ hshrinks.above habove) (hsame ▸ hne)

lemma Apart.checkRepeat (h : n.Apart) (hseparate : n.Separate env (.checkRepeat sv r mode))
    (hblock : n.engine.heap.get r = some block)
    (hp : n.engine.getProposedBlock env block.header = some p) :
    let checked := n.engine.checkRepeat env (n.services sv) r block p mode
    Apart { n.withEngine checked.2 with
      verifying := checked.1.toOption.join.toList ++ n.verifying } := by
  intro checked
  obtain ⟨hcuts, -, hspec⟩ : n.engine.Cuts checked.2 ∧ _ := CoreEngine.checkRepeat_spec
  obtain ⟨hshrinks, hapart⟩ := h.trim hcuts.trims
  match hchecked : checked.1 with
  | .error e => exact hapart
  | .ok none => exact hapart
  | .ok (some v) =>
    obtain ⟨cached, hcached, hheight⟩ :=
      Heap.heightOf_eq_some_iff.mp (h.level.placed.getProposedBlock hp)
    have hids : block.txIds = cached.txIds :=
      congrArg (filterMap _) (hseparate block hblock p hp cached hcached)
    have hcandidate : n.Candidate cached :=
      ⟨p.block, mem_candidates.mpr (.inl ⟨_, _, p, hp, rfl⟩), hcached⟩
    have hget : checked.2.heap.get v.block = some block := by
      rw [hspec v hchecked]
      exact hcuts.trims.get r block hblock
    refine hapart.add hget (fun hself => ?_) fun other hother hother' hself hne => ?_
    · rw [storedIds, hshrinks.store, hids]
      exact h.fresh cached hcandidate (hheight ▸ hshrinks.above hself)
    obtain ⟨old, hold, hsame, hids'⟩ := h.before hshrinks hother
    rw [hids, ← hids']
    refine h.apart cached old hcandidate hold (hheight ▸ hshrinks.above hself)
      (hsame ▸ hshrinks.above hother') ?_
    rwa [hsame, hheight]

lemma Apart.cacheBlock (h : n.Apart) {k : ℕ} (hv : n.verifying[k]? = some v)
    (hblock : n.engine.heap.get v.block = some block) :
    Apart { n.withEngine (n.engine.cacheBlock env sv v block).2 with
      verifying := n.verifying.eraseIdx k } := by
  have hcaches : CoreEngine.Caches env n.engine v.block block.header v.rwSetMap
      (n.engine.cacheBlock env sv v block).2 := CoreEngine.caches_cacheBlock v
  generalize (n.engine.cacheBlock env sv v block).2 = c at hcaches ⊢
  have hstays : n.engine.Stays c :=
    ⟨.of_get fun _ _ hget => hcaches.heap ▸ hget, hcaches.lastCommittedBlock⟩
  refine h.shrink ⟨hstays.blocks, hcaches.store, storedHeight_withEngine h hstays,
    eraseIdx_subset, fun r hr => ?_⟩ (h.level.stays hstays ?_)
  · obtain ⟨height, k, p, hp, rfl⟩ | ⟨v', hv', rfl⟩ | hput := mem_candidates.mp hr
    · refine hcaches.each (fun _ _ r _ => r ∈ n.candidates)
        (fun height k p hp => ?_) ?_ height k p hp
      · exact mem_candidates.mpr (.inl ⟨height, k, p, hp, rfl⟩)
      · exact mem_candidates.mpr (.inr (.inl ⟨v, mem_of_getElem? hv, rfl⟩))
    · exact mem_candidates.mpr (.inr (.inl ⟨v', eraseIdx_subset hv', rfl⟩))
    · exact mem_candidates.mpr (.inr (.inr hput))
  · refine hcaches.each (fun height _ r _ => c.heap.heightOf r = some height)
      (fun height k p hp => ?_) ?_
    · exact hstays.blocks.heightOf (h.level.placed height k p hp)
    · exact hstays.blocks.heightOf (Heap.heightOf_eq hblock)

/-! ### What `AddBlock` does -/

section
variable {s' : Committer φ} {call : Call} {l : UInt64}

omit [DecidableEq φ] in
lemma storedHeight_eq (hidle : n.committer.holder.bind stored = none)
    (hl : n.engine.currentHeight = some l) : n.committer.storedHeight = some l := by
  unfold Committer.storedHeight
  rw [hidle, Option.none_or]
  exact hl

/-- What the committer is about to store stands among the candidates. -/
def PutsFrom (n : Node φ) (s' : Committer φ) : Prop :=
  ∀ call p, s'.holder = some call → call.stage = .put p → p.block ∈ n.candidates

lemma Apart.moves (h : n.Apart) (hidle : n.committer.holder.bind stored = none)
    (hidle' : s'.holder.bind stored = none) (hstays : n.engine.Stays s'.engine)
    (hstore : s'.engine.store = n.engine.store)
    (hcache : s'.engine.proposalCache.Within n.engine.proposalCache)
    (hput : n.PutsFrom s') (hlevel : s'.Level True) : (n.withCommitter s').Apart := by
  obtain ⟨l, hl, -⟩ := h.level.reached
  refine h.shrink ⟨hstays.blocks, hstore, ?_, Subset.refl _, fun r hr => ?_⟩ hlevel
  · rw [storedHeight_eq hidle hl]
    exact storedHeight_eq (n := n.withCommitter s') hidle' (hstays.currentHeight hl)
  obtain ⟨height, k, p, hp, rfl⟩ | hverifying | ⟨call, p, hcall, hstage, rfl⟩ :=
    mem_candidates.mp hr
  · obtain ⟨q, hq, hblock, -⟩ := hcache height k p hp
    exact mem_candidates.mpr (.inl ⟨height, k, q, hq, hblock.symm⟩)
  · exact mem_candidates.mpr (.inr (.inl hverifying))
  · exact hput call p hcall hstage

lemma Apart.put (h : n.Apart) {p : BlockProposal} {block : Block} {rwSet : List TxRWSet}
    {events : List ContractEvent} (hcall : n.committer.holder = some call)
    (hstage : call.stage = .put p) (hblock : n.engine.heap.get p.block = some block)
    (hs' : s' = n.committer.goTo call { n.engine with store := (block, rwSet) :: n.engine.store }
      (.notify p block rwSet events)) (hlevel : s'.Level True) : (n.withCommitter s').Apart := by
  subst hs'
  have hstands := h.level.stands call hcall
  unfold Committer.Stands at hstands
  rw [hstage] at hstands
  obtain ⟨hheight, l, hl, hnext⟩ := hstands
  have hown : block.header.blockHeight = call.height :=
    Option.mem_unique (Heap.heightOf_eq hblock) hheight
  have hidle : n.committer.holder.bind stored = none := by
    rw [hcall, Option.bind_some, stored, hstage]
  have habove : n.Above call.height := by
    unfold Above
    rw [storedHeight_eq hidle hl]
    rintro _ ⟨⟩
    exact UInt64.lt_iff_toNat_lt.mpr (by omega)
  have hhigher : ∀ {height}, call.height < height → n.Above height :=
    fun hlt l' hl' => UInt64.lt_trans (habove l' hl') hlt
  have hcandidate : n.Candidate block :=
    ⟨p.block, mem_candidates.mpr (.inr (.inr ⟨call, p, hcall, hstage, rfl⟩)), hblock⟩
  have hfresh : Disjoint block.txIds n.storedIds := h.fresh block hcandidate (hown ▸ habove)
  have hbefore : ∀ b, Candidate (n.withCommitter (n.committer.goTo call
      { n.engine with store := (block, rwSet) :: n.engine.store }
        (.notify p block rwSet events))) b →
      n.Candidate b := by
    rintro b ⟨r, hr, hget⟩
    refine ⟨r, ?_, hget⟩
    obtain hcached | hverifying | ⟨call', p', hcall', hstage', -⟩ := mem_candidates.mp hr
    · exact mem_candidates.mpr (.inl hcached)
    · exact mem_candidates.mpr (.inr (.inl hverifying))
    · cases hcall'
      cases hstage'
  refine ⟨hlevel, h.verifying, pairwise_cons.mpr ⟨fun ids hids => ?_, h.once⟩,
    fun b hb hheight => ?_, fun b other hb hother hheight hheight' hne => ?_⟩
  · obtain ⟨stored, hstored, rfl⟩ := mem_map.mp hids
    exact fun txId htxId htxId' => hfresh htxId (mem_flatMap.mpr ⟨stored, hstored, htxId'⟩)
  · have hlt : call.height < b.header.blockHeight := hheight call.height rfl
    have hne : block.header.blockHeight ≠ b.header.blockHeight := hown ▸ UInt64.ne_of_lt hlt
    refine disjoint_append_right.mpr ⟨?_, h.fresh b (hbefore b hb) (hhigher hlt)⟩
    exact h.apart b block (hbefore b hb) hcandidate (hhigher hlt) (hown ▸ habove) hne
  · exact h.apart b other (hbefore b hb) (hbefore other hother) (hhigher (hheight call.height rfl))
      (hhigher (hheight' call.height rfl)) hne

lemma Apart.notified (h : n.Apart) {block : Block}
    {rwSet : List TxRWSet} {events : List ContractEvent} (hcall : n.committer.holder = some call)
    (hstage : call.stage = .notify p block rwSet events)
    (hs' : s' = n.committer.goTo call (n.engine.notifyCommitted cs p.block block rwSet events).2
      (.retry block (n.engine.notifyCommitted cs p.block block rwSet events).1))
    (hlevel : s'.Level True) : (n.withCommitter s').Apart := by
  have hnotified : CoreEngine.Notified cs n.engine p.block
      (n.engine.notifyCommitted cs p.block block rwSet events).2 :=
        CoreEngine.notified_notifyCommitted
  generalize n.engine.notifyCommitted cs p.block block rwSet events = notified at hnotified hs'
  subst hs'
  have hcurrent : notified.2.currentHeight = some call.height := (hlevel.stands _ rfl trivial).1
  refine h.shrink ⟨.of_get fun _ _ hget => hnotified.heap ▸ hget, hnotified.store, ?_,
    Subset.refl _, fun r hr => ?_⟩ hlevel
  · have hstored : n.committer.storedHeight = some call.height := by
      rw [Committer.storedHeight, hcall, Option.bind_some, stored, hstage]
      rfl
    rw [hstored]
    exact hcurrent
  · obtain ⟨height, k, q, hq, rfl⟩ | hverifying | ⟨call', p', hcall', hstage', -⟩ :=
      mem_candidates.mp hr
    · exact mem_candidates.mpr (.inl ⟨height, k, q, hnotified.proposalCache ▸ hq, rfl⟩)
    · exact mem_candidates.mpr (.inr (.inl hverifying))
    · cases hcall'
      cases hstage'

lemma Apart.advance (h : n.Apart) {sv : Services φ} (hcs : cs.completes = true)
    (hcall : n.committer.holder = some call) (hverifies : call.verifies = false) :
    (n.withCommitter (n.committer.advance env sv cs call)).Apart := by
  have hlevel : (n.committer.advance env sv cs call).Level True :=
    (h.level.advance (fun _ => hcs) hcall).1
  have hadvances := Committer.advances_advance env sv cs n.committer call
  have hstands := h.level.stands call hcall
  generalize n.committer.advance env sv cs call = s' at hlevel hadvances ⊢
  have hmoves : n.engine.Stays s'.engine → s'.engine.store = n.engine.store →
      s'.engine.proposalCache.Within n.engine.proposalCache → call.stored = none →
      s'.holder.bind stored = none → n.PutsFrom s' → (n.withCommitter s').Apart := by
    intro hstays hstore hcache hidle hidle' hput
    refine h.moves ?_ hidle' hstays hstore hcache hput hlevel
    rw [hcall, Option.bind_some, hidle]
  have hverifying : ∀ {P : Prop}, call.stage = .verify → P := by
    intro P hstage
    rw [verifies, hstage] at hverifies
    cases hverifies
  have hdone : s'.holder = none → n.PutsFrom s' :=
    fun hnone _ _ hcall => absurd (hnone.symm.trans hcall) (Option.some_ne_none _).symm
  -- no step but the two that find a proposal is about to store one
  have hnone : ∀ {call' : Call}, s'.holder = some call' → call'.toPut = none → n.PutsFrom s' := by
    intro call' hcall' hnone call p hcall hstage
    cases hcall'.symm.trans hcall
    rw [toPut, hstage] at hnone
    cases hnone
  have hfound : ∀ {call' : Call} {p : BlockProposal} {header : BlockHeader},
      n.engine.getProposedBlock env header = some p → s'.holder = some call' →
        call'.stage = .put p →
      n.PutsFrom s' := by
    intro call' p header hp hcall' hstage' call q hcall hstage
    cases hcall'.symm.trans hcall
    obtain rfl := Stage.put.inj (hstage'.symm.trans hstage)
    exact mem_candidates.mpr (.inl ⟨_, _, p, hp, rfl⟩)
  cases hadvances with
  | failed e hstage =>
    refine hmoves .refl rfl .refl ?_ rfl (hdone rfl)
    unfold stored
    split
    · next hnotify => exact absurd hnotify (hstage _ _ _ _)
    · rfl
  | legal hstage hblock hlegal | missing hstage =>
    exact hmoves .refl rfl .refl (by rw [stored, hstage]) rfl (hnone rfl rfl)
  | @found block cached p c hstage hblock hp hcached hc =>
    unfold Committer.Stands at hstands
    rw [hstage] at hstands
    have hheight : block.header.blockHeight = call.height :=
      Option.mem_unique (Heap.heightOf_eq hblock) hstands.1
    have hput := hfound hp rfl rfl
    obtain rfl | rfl := hc
    · exact hmoves .refl rfl .refl (by rw [stored, hstage]) rfl hput
    · have hassign : n.engine.heap.SameBlocks (n.engine.heap.assign p.block call.block) :=
        .assign (hheight ▸ h.level.placed.getProposedBlock hp) hstands.1
      exact hmoves ⟨hassign, rfl⟩ rfl .refl (by rw [stored, hstage]) rfl hput
  | refused hstage hverify | verified hstage hverify => exact hverifying hstage
  | foundAgain hstage hblock hp =>
    exact hmoves .refl rfl .refl (by rw [stored, hstage]) rfl (hfound hp rfl rfl)
  | put hstage hblock => exact h.put hcall hstage hblock rfl hlevel
  | notified hstage => exact h.notified hcall hstage rfl hlevel
  | retried hstage =>
    exact hmoves ⟨.refl, rfl⟩ rfl .refl (by rw [stored, hstage]) rfl (hnone rfl rfl)
  | cleared hstage =>
    exact hmoves ⟨.refl, rfl⟩ rfl ProposalCache.Part.erase.within (by rw [stored, hstage]) rfl
      (hnone rfl rfl)
  | published hstage =>
    exact hmoves ⟨.refl, rfl⟩ rfl .refl (by rw [stored, hstage]) rfl (hdone rfl)

end

lemma Apart.step (h : n.Apart) {m : Move φ} (hseparate : n.Separate env m)
    (hstep : n.step env m = some n') : n'.Apart := by
  cases m with
  | receive block =>
    cases hstep
    have htrims : n.engine.Trims { n.engine with heap := n.engine.heap.alloc block } :=
      ⟨⟨fun _ _ hget => Heap.get_alloc block hget, rfl, rfl⟩, .refl⟩
    exact (h.trim htrims).2
  | addTx tx =>
    obtain ⟨txId, -, hadd⟩ := Option.bind_eq_some_iff.mp hstep
    split at hadd
    · cases hadd
    cases hadd
    exact { h with }
  | checkNew sv r mode =>
    obtain ⟨block, hblock, rfl⟩ := Option.map_eq_some_iff.mp hstep
    split
    · exact h
    · exact h.checkNew hseparate hblock
  | checkRepeat sv r mode =>
    obtain ⟨block, hblock, hchecks⟩ := Option.bind_eq_some_iff.mp hstep
    split at hchecks
    · exact Option.some.inj hchecks ▸ h
    split at hchecks
    · obtain ⟨p, hp, rfl⟩ := Option.map_eq_some_iff.mp hchecks
      exact h.checkRepeat hseparate hblock hp
    · cases hchecks
  | cacheBlock sv k =>
    obtain ⟨v, hv, hcache⟩ := Option.bind_eq_some_iff.mp hstep
    obtain ⟨block, hblock, rfl⟩ := Option.map_eq_some_iff.mp hcache
    exact h.cacheBlock hv hblock
  | addBlock caller r =>
    obtain ⟨s', hs', rfl⟩ := Option.map_eq_some_iff.mp hstep
    have hlevel := (h.level.step (t := .call caller r) (fun _ => trivial) hs').1
    unfold Committer.step at hs'
    dsimp only at hs'
    split at hs'
    · next block hidle hblock =>
      cases hs'
      refine h.moves (by rw [hidle, Option.bind_none]) rfl .refl rfl .refl
        (fun call p hcall hstage => ?_) hlevel
      cases hcall
      cases hstage
    · cases hs'
  | next sv cs =>
    unfold Node.step at hstep
    dsimp only at hstep
    split at hstep
    · cases hstep
    next hverifies =>
    obtain ⟨s', hs', rfl⟩ := Option.map_eq_some_iff.mp hstep
    obtain ⟨call, hcall, rfl⟩ := Option.map_eq_some_iff.mp hs'
    refine h.advance hseparate hcall ?_
    rwa [hcall, Option.any_some, Bool.not_eq_true] at hverifies
  | verified res =>
    obtain ⟨call, hfilter, rfl⟩ := Option.map_eq_some_iff.mp hstep
    obtain ⟨hcall, hverifies⟩ := Option.filter_eq_some_iff.mp hfilter
    have hstage : call.stage = .verify := by
      unfold verifies at hverifies
      split at hverifies
      · assumption
      · cases hverifies
    have hidle : n.committer.holder.bind stored = none := by
      rw [hcall, Option.bind_some, stored, hstage]
    cases res with
    | error e =>
      have hlevel : (n.committer.finish call n.engine (.error e)).Level True :=
        h.level.fail .refl h.level.placed e
      refine h.moves hidle rfl .refl rfl .refl (fun call' p hcall' _ => ?_) hlevel
      exact absurd hcall' Committer.holder_finish
    | ok u =>
      have hstands := h.level.stands call hcall
      unfold Committer.Stands at hstands
      rw [hstage] at hstands
      have hlevel : (n.committer.goTo call n.engine .lookAgain).Level True :=
        h.level.goTo .refl h.level.placed hstands
      refine h.moves hidle rfl .refl rfl .refl (fun call' p hcall' hstage' => ?_) hlevel
      cases hcall'
      cases hstage'

lemma apart_start (lastBlock : Block) (rwSets : List TxRWSet) (older : List (Block × List TxRWSet))
    (pool : GoMap Bytes Transaction)
    (holder : (((lastBlock, rwSets) :: older).map (·.1.txIds)).Pairwise List.Disjoint) :
    (start lastBlock rwSets older pool : Node φ).Apart := by
  have hnone : ∀ block, ¬(start lastBlock rwSets older pool : Node φ).Candidate block := by
    rintro block ⟨r, hr, -⟩
    cases hr
  have hlevel : (Committer.start (CoreEngine.start lastBlock : CoreEngine φ)).Level True :=
    Committer.level_start True lastBlock
  exact ⟨hlevel.stays ⟨.refl, rfl⟩ hlevel.placed, nofun, holder,
    fun block hblock => absurd hblock (hnone block),
    fun block _ hblock => absurd hblock (hnone block)⟩

theorem committed_once (env : Env φ) (lastBlock : Block) (rwSets : List TxRWSet)
    (older : List (Block × List TxRWSet)) (pool : GoMap Bytes Transaction) (ms : List (Move φ))
    (n : Node φ) (holder : (((lastBlock, rwSets) :: older).map (·.1.txIds)).Pairwise List.Disjoint)
    (hseparate : Runs.Meets (step env) (Separate env) (start lastBlock rwSets older pool) ms)
    (hrun : Runs.run (step env) (start lastBlock rwSets older pool) ms = some n) :
    (n.engine.store.map (·.1.txIds)).Pairwise List.Disjoint :=
  (Runs.run_induction (fun _ _ _ h hP hs => h.step hP hs)
    (apart_start lastBlock rwSets older pool holder) hseparate hrun).once

open CoreEngine

def onBlockOne (txId : UInt8) : Block where
  header := ⟨"chain1", 2, 8, [1], some [1, 5, 5], [txId, txId], [], [txId],
    some [2, txId, txId], 0, 0, false, [], 1, some []⟩
  dag := some ⟨[[]]⟩
  txs := [smallTx txId]
  additionalData := none

def verify (r : ℕ) (block : Block) : List (Move Snapshot.BlockHeader) :=
  [.receive block, .checkNew agreeable r .consensusVerify, .cacheBlock agreeable 0]

def steps (count : ℕ) : List (Move Snapshot.BlockHeader) := replicate count (.next agreeable {})

def inAdvance (txId : UInt8) : List (Move Snapshot.BlockHeader) :=
  [.addTx (smallTx 5)] ++ verify 1 (blockOne [] none) ++ verify 2 (onBlockOne txId) ++
    [.addBlock .consensus 1] ++ steps 7 ++ [.addBlock .consensus 2] ++ steps 7

def beforeRemoval (txId : UInt8) : List (Move Snapshot.BlockHeader) :=
  [.addTx (smallTx 5)] ++ verify 1 (blockOne [] none) ++ [.addBlock .consensus 1] ++ steps 4 ++
    verify 2 (onBlockOne txId) ++ steps 3 ++ [.addBlock .consensus 2] ++ steps 7

theorem committed_once_beforeRemoval :
    ∃ n, Runs.run (step (smallEnv .tbft)) (start genesis [] [] ∅) (beforeRemoval 6) = some n ∧
      n.engine.store.map (fun stored => (stored.1.header.blockHeight, stored.1.txIds)) =
        [(2, [[6]]), (1, [[5]]), (0, [])] ∧
      (n.engine.store.map (·.1.txIds)).Pairwise List.Disjoint :=
  ⟨_, Option.eq_some_of_isSome (by decide +kernel), by decide +kernel,
    committed_once (smallEnv .tbft) genesis [] [] ∅ (beforeRemoval 6) _ (pairwise_singleton _ _)
      (by decide +kernel) (Option.eq_some_of_isSome _)⟩

/-- The second block may repeat the transaction of the first one. -/
theorem not_committed_once :
    (∃ n, Runs.run (step (smallEnv .tbft)) (start genesis [] [] ∅) (inAdvance 5) = some n ∧
      n.engine.store.map (fun stored => (stored.1.header.blockHeight, stored.1.txIds)) =
        [(2, [[5]]), (1, [[5]]), (0, [])]) ∧
    ∃ n, Runs.run (step (smallEnv .tbft)) (start genesis [] [] ∅) (beforeRemoval 5) = some n ∧
      n.engine.store.map (fun stored => (stored.1.header.blockHeight, stored.1.txIds)) =
        [(2, [[5]]), (1, [[5]]), (0, [])] := by
  constructor <;> exact ⟨_, Option.eq_some_of_isSome (by decide +kernel), by decide +kernel⟩
end Node
end ChainMaker.Core
