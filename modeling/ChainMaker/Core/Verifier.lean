import ChainMaker.Core.ValidateBlock

/-! The state of the core engine and `VerifyBlock` (`syncmode/verifier`, `hotstuffmode/verifier`).
The two verifiers differ in the check of the block before; the chain's consensus type says which one
runs. Calls run one after the other, so that no lock is ever taken. -/

namespace ChainMaker.Core
open ChainMaker.Snapshot (DAG TxRWSet Visit)

inductive Output where
  | verifyFailed (block : ℕ)
  | verifySucceeded (block : ℕ) (txsRwSet : Option RWSetMap)
  | proposedBlock (block : ℕ) (txsRwSet : Option RWSetMap)
  | retryAndRemoveTxs (retry remove : List Transaction)
  | addTxsToPendingCache (txs : List Transaction) (height : UInt64)
  | contractEventInfo (chainId : String) (height : UInt64) (events : List ContractEvent)
  | blockInfo (info : Option (ℕ × List TxRWSet))

/-- A block that this node has generated: its object, its content, and the hashes that the consensus
module has given it. -/
structure Generated where
  block : ℕ
  txs : List Transaction
  dag : Option DAG
  rwSetMap : Option RWSetMap
  hashes : List Bytes

/-- What has happened so far; nothing in the engine reads it. -/
structure Log where
  validated : List (Block × Option RWSetMap) := []
  accepted : List Block := []
  passed : List (VerifyMode × Block) := []
  generated : List Generated := []
  published : List ℕ := []
  synced : List Block := []

/-- The log after `ValidateBlock` has accepted a block, and `VerifyBlockSignatures` too if it was
asked and agreed. -/
def Log.checked (log : Log) (block : Block) (rwSetMap : Option RWSetMap)
    (certified : Bool) : Log :=
  { log with
    validated := (block, rwSetMap) :: log.validated
    accepted := if certified then block :: log.accepted else log.accepted }

lemma Log.subset_checked (log : Log) (block : Block) (rwSetMap : Option RWSetMap)
    (certified : Bool) : log.validated ⊆ (log.checked block rwSetMap certified).validated ∧
      log.accepted ⊆ (log.checked block rwSetMap certified).accepted := by
  refine ⟨List.subset_cons_self _ _, ?_⟩
  unfold Log.checked
  split
  · exact List.subset_cons_self _ _
  · exact List.Subset.refl _

/-- What a call of `VerifyBlock` has found about its block and has still to put into the cache. -/
structure Verification where
  block : ℕ
  rwSetMap : Option RWSetMap
  events : Option EventMap
  mode : VerifyMode
  repeated : Bool

structure CoreEngine (φ : Type) where
  heap : Heap
  proposalCache : ProposalCache φ
  lastCommittedBlock : Option ℕ
  store : List (Block × List TxRWSet)
  outputs : List Output
  log : Log

namespace CoreEngine
variable {φ : Type} [DecidableEq φ] (env : Env φ) (sv : Services φ) (c : CoreEngine φ)

def output (o : Output) : CoreEngine φ := { c with outputs := o :: c.outputs }

def getLastCommittedBlock : Option Block := c.lastCommittedBlock.bind c.heap.get

def currentHeight : Option UInt64 := c.getLastCommittedBlock.map (·.header.blockHeight)

def getProposedBlock (header : BlockHeader) : Option BlockProposal :=
  c.proposalCache.getProposedBlock env.fingerPrint header

def getProposedBlockByHashAndHeight (visit : Visit φ) (hash : Option Bytes) (height : UInt64) :
    Option Block :=
  (c.proposalCache.getProposedBlockByHashAndHeight c.heap visit hash height).bind
    fun p => c.heap.get p.block

def lastBlockOf (visit : Visit φ) (height : UInt64) (preHash : Option Bytes) : Option Block :=
  if c.currentHeight.getD (UInt64.ofNat (2 ^ 64 - 1)) + 1 = height then c.getLastCommittedBlock
  else c.getProposedBlockByHashAndHeight visit preHash (height - 1)

def fetchLastBlock (block : Block) : Except CoreError Block :=
  if c.currentHeight.getD (UInt64.ofNat (2 ^ 64 - 1)) ≥ block.header.blockHeight then
    .error .blockHadBeenCommited
  else
    match c.lastBlockOf sv.visit block.header.blockHeight block.header.preBlockHash with
    | none => .error (.noPreBlock (block.header.blockHeight - 1) block.header.preBlockHash)
    | some lastBlock => .ok lastBlock

def recoverAttempts (txIds : List Bytes) : ℕ → ℕ → Option (GoMap Bytes Transaction)
  | _, 0 => none
  | i, attempts + 1 =>
    let txsMap := sv.recoverTxs i txIds
    if txsMap.keys.length = txIds.length then some txsMap
      else recoverAttempts txIds (i + 1) attempts

/-- `RecoverBlock`: with message turbo a proposal has no payloads, and the block to verify is a new
one that shares its header. -/
def recoverBlock (r : ℕ) (block : Block) (mode : VerifyMode) :
    Except CoreError (ℕ × Block × Heap) :=
  if env.consensusMessageTurbo ∧ mode ≠ .syncVerify then
    match block.txs.mapM Transaction.txId with
    | none => .error .panicked
    | some txIds =>
      let txsMap := if env.retryTime = 0 then some ∅ else recoverAttempts sv txIds 0 env.retryTime
      match txsMap with
      | none => .error (.verifyTimeOut block.header.blockHeight)
      | some txsMap =>
        match block.txs.mapM fun tx =>
          (tx.txId.bind txsMap.lookup).map ({ · with result := tx.result }) with
        | none => .error .panicked
        | some txs =>
          .ok (c.heap.next, { block with txs }, c.heap.share r block.dag txs block.additionalData)
  else .ok (r, block, c.heap)

def keepProposedBlock (hash : Option Bytes) (height : UInt64) : List ℕ × CoreEngine φ :=
  let kept := c.proposalCache.keepProposedBlock env.fingerPrint c.heap sv.visit
    (hash.getD []) height
  (kept.1, { c with proposalCache := kept.2 })

def txsOf (blocks : List ℕ) : List Transaction :=
  (blocks.filterMap c.heap.get).flatMap (·.txs)

def checkPreBlockHotstuff (block lastBlock : Block) : Except CoreError Unit × CoreEngine φ :=
  let linked :=
    if block.header.blockHeight = lastBlock.header.blockHeight + 1 then
      isPreHashValid block lastBlock.header.blockHash
    else
      match c.getProposedBlockByHashAndHeight sv.visit block.header.preBlockHash
          (block.header.blockHeight - 1) with
      | none => .error (.noLastBlock (block.header.blockHeight - 1) block.header.preBlockHash)
      | some _ => .ok ()
  match linked with
  | .error e => (.error e, c)
  | .ok () =>
    let kept := c.keepProposedBlock env sv lastBlock.header.blockHash lastBlock.header.blockHeight
    if kept.1 = [] then (.ok (), kept.2)
    else (.ok (), kept.2.output (.retryAndRemoveTxs (c.txsOf kept.1) []))

def checkPreBlock (block lastBlock : Block) : Except CoreError Unit × CoreEngine φ :=
  if env.consensusType = .hotstuff then c.checkPreBlockHotstuff env sv block lastBlock
  else
    (do
      isHeightValid block lastBlock.header.blockHeight
      isPreHashValid block lastBlock.header.blockHash, c)

def validate (block lastBlock : Block) :
    Except CoreError (Option RWSetMap × Option EventMap) × CoreEngine φ :=
  if block.header.txCount > env.blockTxCapacity then
    (.error (.txCapacity env.blockTxCapacity block.header.txCount), c)
  else
    match isTxCountValid block with
    | .error e => (.error e, c)
    | .ok () =>
      match c.checkPreBlock env sv block lastBlock with
      | (.error e, c) => (.error e, c)
      | (.ok (), c) => (validateBlock env sv block, c)

def cutBlocks (blocksToCut : List ℕ) (blockToKeep : Block) : Option (CoreEngine φ) := do
  let kept ← blockToKeep.txs.mapM Transaction.txId
  let _ ← (c.txsOf blocksToCut).mapM Transaction.txId
  let cutTxs := (c.txsOf blocksToCut).filter fun tx => tx.txId.all (· ∉ kept)
  return if cutTxs = [] then c else c.output (.retryAndRemoveTxs cutTxs [])

def checkRepeat (r : ℕ) (block : Block) (p : BlockProposal) (mode : VerifyMode) :
    Except CoreError (Option Verification) × CoreEngine φ :=
  let c := if mode = .consensusVerify then c.output (.verifySucceeded r p.rwSetMap) else c
  match c.getProposedBlockByHashAndHeight sv.visit block.header.preBlockHash
      (block.header.blockHeight - 1) with
  | none => (.ok none, c)
  | some lastBlock =>
    let kept := c.keepProposedBlock env sv lastBlock.header.blockHash lastBlock.header.blockHeight
    match if kept.1 = [] then some kept.2 else kept.2.cutBlocks kept.1 lastBlock with
    | none => (.error .panicked, kept.2)
    | some c => (.ok (some ⟨r, p.rwSetMap, p.contractEventInfoMap, mode, true⟩), c)

def verified (r : ℕ) (block : Block) (rwSetMap : Option RWSetMap) (events : Option EventMap)
    (mode : VerifyMode) : Except CoreError Unit × CoreEngine φ :=
  let cached :=
    if env.notSolo then
      c.proposalCache.setProposedBlock env.fingerPrint c.currentHeight r block.header
        rwSetMap events
        false
    else .ok c.proposalCache
  match cached with
  | .error e => (.error e, c)
  | .ok proposalCache =>
    let c := { c with proposalCache }
    let c := c.output (.addTxsToPendingCache block.txs block.header.blockHeight)
    (.ok (), if mode = .consensusVerify then c.output (.verifySucceeded r rwSetMap) else c)

def checkNew (r : ℕ) (block : Block) (mode : VerifyMode) :
    Except CoreError (Verification × Block) × CoreEngine φ :=
  match c.fetchLastBlock sv block with
  | .error e => (.error e, c)
  | .ok lastBlock =>
    match c.recoverBlock env sv r block mode with
    | .error e => (.error e, c)
    | .ok (r, block, heap) =>
      match { c with heap }.validate env sv block lastBlock with
      | (.error e, c) =>
        (.error e, if mode = .consensusVerify then c.output (.verifyFailed r) else c)
      | (.ok (rwSetMap, events), c) =>
        let c := { c with log.validated := (block, rwSetMap) :: c.log.validated }
        let v : Verification := ⟨r, rwSetMap, events, mode, false⟩
        if mode = .syncVerify then
          if sv.verifyBlockSignatures block then
            (.ok (v, block), { c with log.accepted := block :: c.log.accepted })
          else (.error .voteSig, c)
        else (.ok (v, block), c)

def cacheBlock (v : Verification) (block : Block) : Except CoreError Unit × CoreEngine φ :=
  if v.repeated then
    match c.proposalCache.setProposedBlock env.fingerPrint c.currentHeight v.block block.header
        v.rwSetMap v.events (c.proposalCache.isProposedAt sv.visit block.header.blockHeight) with
    | .error e => (.error e, c)
    | .ok proposalCache => (.ok (), { c with proposalCache })
  else c.verified env v.block block v.rwSetMap v.events v.mode

def verifyRepeat (r : ℕ) (block : Block) (p : BlockProposal) (mode : VerifyMode) :
    Except CoreError Unit × CoreEngine φ :=
  match c.checkRepeat env sv r block p mode with
  | (.error e, c) => (.error e, c)
  | (.ok none, c) => (.ok (), c)
  | (.ok (some v), c) => c.cacheBlock env sv v block

def verifyNew (r : ℕ) (block : Block) (mode : VerifyMode) : Except CoreError Unit × CoreEngine φ :=
  match c.checkNew env sv r block mode with
  | (.error e, c) => (.error e, c)
  | (.ok (v, block), c) => c.cacheBlock env sv v block

def notePassed (mode : VerifyMode) (block : Block) : Except CoreError Unit → CoreEngine φ
  | .error _ => c
  | .ok () => { c with log.passed := (mode, block) :: c.log.passed }

def verifyBlock (r : ℕ) (mode : VerifyMode) : Except CoreError Unit × CoreEngine φ :=
  match c.heap.get r with
  | none => (.error .emptyBlock, c)
  | some block =>
    if env.isEmptyBlock block then (.error .emptyBlock, c)
    else
      let verify :=
        match c.getProposedBlock env block.header with
        | none => c.verifyNew env sv r block mode
        | some p =>
          if env.notSolo || env.enableSqlSupport then c.verifyRepeat env sv r block p mode
          else c.verifyNew env sv r block mode
      (verify.1, verify.2.notePassed mode block verify.1)

/-! ### What a call changes -/

variable {env sv c} {c' c'' : CoreEngine φ} {r : ℕ} {block lastBlock : Block} {mode : VerifyMode}

structure Cuts (c c' : CoreEngine φ) : Prop where
  heap : c'.heap = c.heap
  lastCommittedBlock : c'.lastCommittedBlock = c.lastCommittedBlock
  store : c'.store = c.store
  log : c'.log = c.log
  proposalCache : c'.proposalCache.Within c.proposalCache

namespace Cuts

lemma refl : Cuts c c := ⟨rfl, rfl, rfl, rfl, .refl⟩

lemma trans (h : Cuts c c') (h' : Cuts c' c'') : Cuts c c'' :=
  ⟨h'.heap.trans h.heap, h'.lastCommittedBlock.trans h.lastCommittedBlock, h'.store.trans h.store,
    h'.log.trans h.log, h'.proposalCache.trans h.proposalCache⟩

lemma output (h : Cuts c c') (o : Output) : Cuts c (c'.output o) :=
  { h with }

lemma outputIf (h : Cuts c c') {q : Prop} [Decidable q] (o : Output) :
    Cuts c (if q then c'.output o else c') := by
  split
  · exact h.output o
  · exact h

end Cuts

lemma cuts_keepProposedBlock (hash : Option Bytes) (height : UInt64) :
    Cuts c (c.keepProposedBlock env sv hash height).2 :=
  ⟨rfl, rfl, rfl, rfl, (ProposalCache.part_keepProposedBlock _).within⟩

/-- `validate` changes nothing, or cuts the proposals that compete with the last block. -/
lemma validate_induction {P : CoreEngine φ → Prop} (hrefl : P c)
    (hkeep : ∀ hash height, P (c.keepProposedBlock env sv hash height).2)
    (houtput : ∀ c' o, P c' → P (c'.output o)) : P (c.validate env sv block lastBlock).2 := by
  have hpre : P (c.checkPreBlock env sv block lastBlock).2 := by
    unfold checkPreBlock checkPreBlockHotstuff
    dsimp only
    split
    · split
      · exact hrefl
      split
      · exact hkeep _ _
      · exact houtput _ _ (hkeep _ _)
    · exact hrefl
  unfold validate
  split
  · exact hrefl
  split
  · exact hrefl
  split
  all_goals
    next h =>
      rw [h] at hpre
      exact hpre

lemma cuts_validate : Cuts c (c.validate env sv block lastBlock).2 :=
  validate_induction .refl cuts_keepProposedBlock fun _ o h => h.output o

lemma part_validate : (c.validate env sv block lastBlock).2.proposalCache.Part c.proposalCache :=
  validate_induction (P := fun c' => c'.proposalCache.Part c.proposalCache) .refl
    (fun _ _ => ProposalCache.part_keepProposedBlock _) fun _ _ h => h

lemma validate_ok {sets : Option RWSetMap × Option EventMap}
    (h : (c.validate env sv block lastBlock).1 = .ok sets) :
    isTxCountValid block = .ok () ∧ validateBlock env sv block = .ok sets := by
  unfold validate at h
  split at h
  · cases h
  split at h
  · cases h
  next hcount =>
  split at h
  · cases h
  · exact ⟨hcount, h⟩

lemma cuts_cutBlocks {blocksToCut : List ℕ} (h : c.cutBlocks blocksToCut block = some c') :
    Cuts c c' ∧ c'.proposalCache = c.proposalCache := by
  simp only [cutBlocks, Option.bind_eq_bind, Option.bind_eq_some_iff, Option.pure_def,
    Option.some.injEq] at h
  obtain ⟨-, -, -, -, rfl⟩ := h
  split
  · exact ⟨.refl, rfl⟩
  · exact ⟨Cuts.refl.output _, rfl⟩

structure Caches (env : Env φ) (c : CoreEngine φ) (r : ℕ) (header : BlockHeader)
    (rwSetMap : Option RWSetMap) (c' : CoreEngine φ) : Prop where
  heap : c'.heap = c.heap
  lastCommittedBlock : c'.lastCommittedBlock = c.lastCommittedBlock
  store : c'.store = c.store
  log : c'.log = c.log
  each : ∀ P : UInt64 → φ → ℕ → Option RWSetMap → Prop, c.proposalCache.Each P →
    P header.blockHeight (env.fingerPrint header) r rwSetMap → c'.proposalCache.Each P

lemma Cuts.caches (h : Cuts c c') (header : BlockHeader) (rwSetMap : Option RWSetMap) :
    Caches env c r header rwSetMap c' :=
  ⟨h.heap, h.lastCommittedBlock, h.store, h.log, fun _ hP _ => hP.within h.proposalCache⟩

variable {rwSetMap : Option RWSetMap}

lemma Cuts.andCaches {header : BlockHeader} (h : Cuts c c')
    (h' : Caches env c' r header rwSetMap c'') : Caches env c r header rwSetMap c'' :=
  ⟨h'.heap.trans h.heap, h'.lastCommittedBlock.trans h.lastCommittedBlock, h'.store.trans h.store,
    h'.log.trans h.log, fun P hP => h'.each P (hP.within h.proposalCache)⟩

lemma Cuts.set (h : Cuts c c') {header : BlockHeader} {currentHeight : Option UInt64}
    {events : Option EventMap} {selfPropose : Bool} {proposalCache : ProposalCache φ}
    (hset : c'.proposalCache.setProposedBlock env.fingerPrint currentHeight r header rwSetMap events
      selfPropose = .ok proposalCache) :
    Caches env c r header rwSetMap { c' with proposalCache } :=
  ⟨h.heap, h.lastCommittedBlock, h.store, h.log,
    fun _ hP hnew => (hP.within h.proposalCache).set hnew hset⟩

lemma Caches.getProposedBlock {header : BlockHeader} {q : BlockProposal}
    (h : Caches env c r header rwSetMap c') (hq : c'.getProposedBlock env header = some q) :
    q.block = r ∨ ∃ p, c.getProposedBlock env header = some p ∧ q.block = p.block := by
  have heach := h.each
    (fun height k b _ => height = header.blockHeight ∧ k = env.fingerPrint header →
      b = r ∨ ∃ p, c.getProposedBlock env header = some p ∧ b = p.block)
    (fun height k p hp hkey => ?_) fun _ => .inl rfl
  · exact heach _ _ q hq ⟨rfl, rfl⟩
  · obtain ⟨rfl, rfl⟩ := hkey
    exact .inr ⟨p, hp, rfl⟩

lemma checkRepeat_spec {p : BlockProposal} : Cuts c (c.checkRepeat env sv r block p mode).2 ∧
    (c.checkRepeat env sv r block p mode).2.proposalCache.Part c.proposalCache ∧
    ∀ v, (c.checkRepeat env sv r block p mode).1 = .ok (some v) →
      v = ⟨r, p.rwSetMap, p.contractEventInfoMap, mode, true⟩ := by
  unfold checkRepeat
  dsimp only
  generalize hc1 : (if mode = .consensusVerify then
    c.output (.verifySucceeded r p.rwSetMap) else c) = c1
  have hout : Cuts c c1 := hc1 ▸ Cuts.refl.outputIf _
  have hcache : c1.proposalCache = c.proposalCache := by
    rw [← hc1]
    split <;> rfl
  split
  · exact ⟨hout, hcache ▸ .refl, fun v hv => by cases hv⟩
  next lastBlock _ =>
  have hkept : Cuts c (c1.keepProposedBlock env sv lastBlock.header.blockHash
      lastBlock.header.blockHeight).2 := hout.trans (cuts_keepProposedBlock _ _)
  have hpart : (c1.keepProposedBlock env sv lastBlock.header.blockHash
      lastBlock.header.blockHeight).2.proposalCache.Part c.proposalCache :=
    hcache ▸ ProposalCache.part_keepProposedBlock _
  split
  · exact ⟨hkept, hpart, fun v hv => by cases hv⟩
  next c2 hcut =>
  refine ⟨?_, ?_, fun v hv => (Option.some.inj (Except.ok.inj hv)).symm⟩
  all_goals
    split at hcut
  · exact Option.some.inj hcut ▸ hkept
  · exact hkept.trans (cuts_cutBlocks hcut).1
  · exact Option.some.inj hcut ▸ hpart
  · exact (cuts_cutBlocks hcut).2 ▸ hpart

lemma caches_verified {events : Option EventMap} : Caches env c r block.header rwSetMap
    (c.verified env r block rwSetMap events mode).2 := by
  unfold verified
  dsimp only
  split
  · exact Cuts.refl.caches _ _
  next proposalCache hset =>
  have hcached : Caches env c r block.header rwSetMap { c with proposalCache } := by
    split at hset
    · exact Cuts.refl.set hset
    cases hset
    exact Cuts.refl.caches _ _
  split <;>
    exact { hcached with }

lemma caches_cacheBlock (v : Verification) :
    Caches env c v.block block.header v.rwSetMap (c.cacheBlock env sv v block).2 := by
  unfold cacheBlock
  split
  · split
    · exact Cuts.refl.caches _ _
    · next hset => exact Cuts.refl.set hset
  · exact caches_verified

lemma caches_verifyRepeat {p : BlockProposal} :
    Caches env c r block.header p.rwSetMap (c.verifyRepeat env sv r block p mode).2 := by
  obtain ⟨hcuts, -, hv⟩ : Cuts c (c.checkRepeat env sv r block p mode).2 ∧ _ := checkRepeat_spec
  unfold verifyRepeat
  generalize c.checkRepeat env sv r block p mode = checked at hcuts hv ⊢
  obtain ⟨_ | _ | v, c1⟩ := checked
  · exact hcuts.caches _ _
  · exact hcuts.caches _ _
  · obtain rfl := hv v rfl
    exact hcuts.andCaches (caches_cacheBlock ⟨r, _, _, mode, true⟩)

inductive ChecksNew (env : Env φ) (sv : Services φ) (c : CoreEngine φ) (r : ℕ) (block : Block)
    (mode : VerifyMode) : Except CoreError (Verification × Block) → CoreEngine φ → Prop
  | refused {heap : Heap} {c' : CoreEngine φ} (e : CoreError)
      (hheap : heap = c.heap ∨
        ∃ r' block', c.recoverBlock env sv r block mode = .ok (r', block', heap))
      (h : Cuts { c with heap } c') : ChecksNew env sv c r block mode (.error e) c'
  | checked {r' : ℕ} {block' : Block} {heap : Heap} {rwSetMap : Option RWSetMap}
      {events : Option EventMap} {res : Except CoreError (Verification × Block)} {c' : CoreEngine φ}
      (certified : Bool) (hrecover : c.recoverBlock env sv r block mode = .ok (r', block', heap))
      (hvalid : validateBlock env sv block' = .ok (rwSetMap, events))
      (hcertified : certified = true → sv.verifyBlockSignatures block' = true)
      (hres : res = .error .voteSig ∨
        res = .ok (⟨r', rwSetMap, events, mode, false⟩, block') ∧
          (mode = .syncVerify → certified = true))
      (h : Cuts { c with heap, log := c.log.checked block' rwSetMap certified } c') :
      ChecksNew env sv c r block mode res c'

lemma checkNew_spec : ChecksNew env sv c r block mode (c.checkNew env sv r block mode).1
      (c.checkNew env sv r block mode).2 ∧
    (c.checkNew env sv r block mode).2.proposalCache.Part c.proposalCache := by
  unfold checkNew
  split
  · exact ⟨.refused _ (.inl rfl) .refl, .refl⟩
  next lastBlock _ =>
  split
  · exact ⟨.refused _ (.inl rfl) .refl, .refl⟩
  next r' block' heap hrecover =>
  have hcuts : Cuts { c with heap } ({ c with heap }.validate env sv block' lastBlock).2 :=
    cuts_validate
  have hpart : ({ c with heap }.validate env sv block' lastBlock).2.proposalCache.Part
    c.proposalCache := part_validate
  split
  · next h =>
    rw [h] at hcuts hpart
    refine ⟨.refused _ (.inr ⟨r', block', hrecover⟩) (hcuts.outputIf _), ?_⟩
    split <;> exact hpart
  next rwSetMap events c1 h =>
  rw [h] at hcuts hpart
  have hvalid := (validate_ok (congrArg Prod.fst h)).2
  have hlog (certified : Bool) :
      Cuts { c with heap, log := c.log.checked block' rwSetMap certified }
        { c1 with log := c1.log.checked block' rwSetMap certified } :=
    { hcuts with log := congrArg (Log.checked · _ _ _) hcuts.log }
  refine ⟨?_, by split_ifs <;> exact hpart⟩
  split
  · split
    · next hsig =>
      exact .checked true hrecover hvalid (fun _ => hsig) (.inr ⟨rfl, fun _ => rfl⟩) (hlog true)
    · exact .checked false hrecover hvalid (absurd · Bool.false_ne_true) (.inl rfl) (hlog false)
  · next hmode =>
    exact .checked false hrecover hvalid (absurd · Bool.false_ne_true)
      (.inr ⟨rfl, fun hsync => absurd hsync hmode⟩) (hlog false)

inductive VerifiesNew (env : Env φ) (sv : Services φ) (c : CoreEngine φ) (r : ℕ) (block : Block)
    (mode : VerifyMode) : Except CoreError Unit → CoreEngine φ → Prop
  | refused {heap : Heap} {c' : CoreEngine φ} (e : CoreError)
      (hheap : heap = c.heap ∨
        ∃ r' block', c.recoverBlock env sv r block mode = .ok (r', block', heap))
      (h : Cuts { c with heap } c') : VerifiesNew env sv c r block mode (.error e) c'
  | checked {r' : ℕ} {block' : Block} {heap : Heap} {rwSetMap : Option RWSetMap}
      {events : Option EventMap} {res : Except CoreError Unit} {c' : CoreEngine φ}
      (certified : Bool) (hrecover : c.recoverBlock env sv r block mode = .ok (r', block', heap))
      (hvalid : validateBlock env sv block' = .ok (rwSetMap, events))
      (hcertified : certified = true → sv.verifyBlockSignatures block' = true)
      (hsync : res = .ok () → mode = .syncVerify → certified = true)
      (h : Caches env { c with heap, log := c.log.checked block' rwSetMap certified } r'
        block'.header rwSetMap c') : VerifiesNew env sv c r block mode res c'

lemma verifyNew_spec : VerifiesNew env sv c r block mode (c.verifyNew env sv r block mode).1
    (c.verifyNew env sv r block mode).2 := by
  obtain ⟨hspec, -⟩ : ChecksNew env sv c r block mode _ (c.checkNew env sv r block mode).2 ∧ _ :=
    checkNew_spec
  unfold verifyNew
  generalize c.checkNew env sv r block mode = checked at hspec ⊢
  obtain ⟨res, c1⟩ := checked
  cases hspec with
  | refused e hheap h => exact .refused e hheap h
  | checked certified hrecover hvalid hcertified hres h =>
    obtain rfl | ⟨rfl, hsync⟩ := hres
    · exact .checked certified hrecover hvalid hcertified nofun (h.caches _ _)
    · exact .checked certified hrecover hvalid hcertified (fun _ => hsync)
        (h.andCaches (caches_cacheBlock ⟨_, _, _, mode, false⟩))

inductive Verifies (env : Env φ) (sv : Services φ) (c : CoreEngine φ) (r : ℕ) (block : Block)
    (mode : VerifyMode) : Except CoreError Unit → CoreEngine φ → Prop
  | empty : Verifies env sv c r block mode (.error .emptyBlock) c
  | again {p : BlockProposal} {res : Except CoreError Unit} {c' : CoreEngine φ}
      (hp : c.getProposedBlock env block.header = some p)
      (h : Caches env c r block.header p.rwSetMap c') : Verifies env sv c r block mode res c'
  | new {res : Except CoreError Unit} {c' : CoreEngine φ}
      (hp : env.notSolo = true → c.getProposedBlock env block.header = none)
      (h : VerifiesNew env sv c r block mode res c') : Verifies env sv c r block mode res c'

structure Extends (c c' : CoreEngine φ) : Prop where
  get : ∀ r block, c.heap.get r = some block → c'.heap.get r = some block
  lastCommittedBlock : c'.lastCommittedBlock = c.lastCommittedBlock
  store : c'.store = c.store
  validated : c.log.validated ⊆ c'.log.validated
  accepted : c.log.accepted ⊆ c'.log.accepted
  log : c'.log = { c.log with validated := c'.log.validated, accepted := c'.log.accepted }

omit [DecidableEq φ] in
lemma recoverBlock_spec {r' : ℕ} {block' : Block} {heap : Heap}
    (h : c.recoverBlock env sv r block mode = .ok (r', block', heap)) :
    (∀ r₀ b₀, c.heap.get r₀ = some b₀ → heap.get r₀ = some b₀) ∧
      (c.heap.get r = some block → heap.get r' = some block' ∧ block'.header = block.header) := by
  unfold recoverBlock at h
  split at h
  · split at h
    · cases h
    dsimp only at h
    split at h
    · cases h
    split at h
    · cases h
    cases h
    exact ⟨fun _ _ => Heap.get_share, fun hblock => ⟨Heap.get_share_next hblock, rfl⟩⟩
  · cases h
    exact ⟨fun _ _ h => h, fun hblock => ⟨hblock, rfl⟩⟩

lemma Verifies.extends {res : Except CoreError Unit} (h : Verifies env sv c r block mode res c') :
    Extends c c' := by
  cases h with
  | empty => exact ⟨fun _ _ h => h, rfl, rfl, fun _ h => h, fun _ h => h, rfl⟩
  | again hp h =>
    refine ⟨fun _ _ hget => h.heap ▸ hget, h.lastCommittedBlock, h.store, ?_, ?_, ?_⟩ <;> rw [h.log]
    · exact List.Subset.refl _
    · exact List.Subset.refl _
  | new hp h =>
    cases h with
    | refused e hheap h =>
      refine ⟨fun r₀ b₀ hget => ?_, h.lastCommittedBlock, h.store, ?_, ?_, ?_⟩
      · rw [h.heap]
        obtain rfl | ⟨r', block', hrecover⟩ := hheap
        · exact hget
        · exact (recoverBlock_spec hrecover).1 r₀ b₀ hget
      · exact h.log ▸ List.Subset.refl _
      · exact h.log ▸ List.Subset.refl _
      · rw [h.log]
    | checked certified hrecover hvalid hcertified hsync h =>
      obtain ⟨hvalidated, haccepted⟩ := c.log.subset_checked _ _ certified
      refine ⟨fun r₀ b₀ hget => ?_, h.lastCommittedBlock, h.store, ?_, ?_, ?_⟩
      · rw [h.heap]
        exact (recoverBlock_spec hrecover).1 r₀ b₀ hget
      · exact h.log ▸ hvalidated
      · exact h.log ▸ haccepted
      · rw [h.log]
        rfl

omit [DecidableEq φ] in
lemma notePassed_store (res : Except CoreError Unit) :
    (c.notePassed mode block res).store = c.store := by
  cases res <;> rfl

variable (env sv mode) in
lemma verifyBlock_spec (hblock : c.heap.get r = some block) :
    ∃ c', Verifies env sv c r block mode (c.verifyBlock env sv r mode).1 c' ∧
      (c.verifyBlock env sv r mode).2 =
        c'.notePassed mode block (c.verifyBlock env sv r mode).1 := by
  unfold verifyBlock
  rw [hblock]
  dsimp only
  split
  · exact ⟨c, .empty, rfl⟩
  refine ⟨_, ?_, rfl⟩
  split
  · next hp => exact .new (fun _ => hp) verifyNew_spec
  next p hp =>
  split
  · exact .again hp caches_verifyRepeat
  · next hsolo =>
    exact .new (fun h => absurd (Bool.or_eq_true_iff.mpr (.inl h)) hsolo) verifyNew_spec

end CoreEngine
end ChainMaker.Core
