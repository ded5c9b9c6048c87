import ChainMaker.Core.CommitFidelity

/-! Failures of `CommitBlock` after `PutBlock`: `AddBlock` logs them and goes on as if there were
none. -/

namespace ChainMaker.Core
open Transaction List

def CommitServices.completes (cs : CommitServices) : Bool :=
  cs.notifyBlockCommitted && cs.notifyChainConf && cs.monitorCommit

lemma ProposalCache.mem_getProposedBlocksAt {φ : Type} [DecidableEq φ] {visit : Snapshot.Visit φ}
    {pc : ProposalCache φ} {height : UInt64} {r : ℕ} :
    r ∈ pc.getProposedBlocksAt visit height ↔
      ∃ k p, pc.proposal height k = some p ∧ p.block = r := by
  unfold getProposedBlocksAt proposals proposal
  cases pc.lookup height with
  | none => simp
  | some m =>
    simp only [mem_map, mem_filterMap, (visit.perm m.keys).mem_iff, Option.bind_some]
    constructor
    · rintro ⟨p, ⟨k, -, hp⟩, rfl⟩
      exact ⟨k, p, hp, rfl⟩
    · rintro ⟨k, p, hp, rfl⟩
      exact ⟨p, ⟨k, AList.lookup_isSome.mp (hp ▸ rfl), hp⟩, rfl⟩

namespace CoreEngine
variable {φ : Type} [DecidableEq φ] (env : Env φ) (sv : Services φ) (cs : CommitServices)
variable (c : CoreEngine φ) {rwSet : List Snapshot.TxRWSet}

def toCommit (r : ℕ) (block : Block) : Except CoreError BlockProposal × CoreEngine φ :=
  match c.isBlockLegal env block with
  | .error e => (.error e, c)
  | .ok () =>
    match c.getProposedBlock env block.header with
    | none => c.checkLastProposedBlock env sv r block
    | some p =>
      match c.heap.get p.block with
      | none => (.error .panicked, c)
      | some _ =>
        (.ok p, if env.consensusMessageTurbo then { c with heap := c.heap.assign p.block r } else c)

variable {env sv cs c} {c₁ c' : CoreEngine φ} {p : BlockProposal} {r : ℕ} {height : UInt64}
variable {block stored : Block}

lemma addBlock_eq_commitBlock (hblock : c.heap.get r = some block)
    (hcommit : c.toCommit env sv r block = (.ok p, c₁)) :
    c.addBlock env sv cs r = c₁.commitBlock sv cs p block.header.blockHeight := by
  unfold toCommit at hcommit
  unfold addBlock
  rw [hblock]
  dsimp only
  cases hlegal : c.isBlockLegal env block with
  | error e => simp [hlegal] at hcommit
  | ok u =>
    rw [hlegal] at hcommit
    cases hp : c.getProposedBlock env block.header with
    | none =>
      rw [hp] at hcommit
      dsimp only at hcommit ⊢
      rw [hcommit]
    | some q =>
      rw [hp] at hcommit
      dsimp only at hcommit ⊢
      cases hq : c.heap.get q.block with
      | none => simp [hq] at hcommit
      | some cached =>
        rw [hq] at hcommit
        obtain ⟨hpq, rfl⟩ := Prod.mk.inj hcommit
        cases hpq
        rfl

def LacksPayload (c : CoreEngine φ) (height : UInt64) (stored : Block) : Prop :=
  (∃ tx ∈ stored.txs, tx.payload = none) ∨
    ∃ k p other, c.proposalCache.proposal height k = some p ∧ c.heap.get p.block = some other ∧
      other.header.blockHash.getD [] ≠ stored.header.blockHash.getD [] ∧
        ∃ tx ∈ other.txs, tx.payload = none

lemma syncWithTxPool_eq_none_iff {visit : Snapshot.Visit φ} :
    c.syncWithTxPool visit stored height = none ↔ c.LacksPayload height stored := by
  have htxId : ∀ txs : List Transaction, txs.mapM txId = none ↔ ∃ tx ∈ txs, tx.payload = none := by
    intro txs
    simp [mapM_eq_none_iff, txId]
  unfold syncWithTxPool LacksPayload
  cases hkeep : stored.txs.mapM txId with
  | none => exact iff_of_true rfl (.inl ((htxId _).mp hkeep))
  | some keepTxs =>
    have hown : ¬∃ tx ∈ stored.txs, tx.payload = none := fun h => by
      rw [(htxId _).mpr h] at hkeep
      cases hkeep
    simp only [Option.bind_eq_bind, Option.bind_some, hown, false_or]
    generalize hothers : filter _ _ = others
    have hmem : ∀ other, other ∈ others ↔ ∃ k p, c.proposalCache.proposal height k = some p ∧
        c.heap.get p.block = some other ∧
        other.header.blockHash.getD [] ≠ stored.header.blockHash.getD [] := by
      intro other
      rw [← hothers, mem_filter, mem_filterMap, decide_eq_true_eq]
      constructor
      · rintro ⟨⟨r, hr, hget⟩, hne⟩
        obtain ⟨k, p, hp, rfl⟩ := ProposalCache.mem_getProposedBlocksAt.mp hr
        exact ⟨k, p, hp, hget, hne⟩
      · rintro ⟨k, p, hp, hget, hne⟩
        exact ⟨⟨p.block, ProposalCache.mem_getProposedBlocksAt.mpr ⟨k, p, hp, rfl⟩, hget⟩, hne⟩
    rw [Option.bind_eq_none_iff]
    have hnone : (∀ a ∈ (others.flatMap (·.txs)).mapM txId,
        (pure ((others.flatMap (·.txs)).filter fun tx => tx.txId.all (!keepTxs.contains ·)) :
          Option (List Transaction)) = none) ↔
        (others.flatMap (·.txs)).mapM txId = none := by
      cases (others.flatMap (·.txs)).mapM txId with
      | none | some => simp
    refine hnone.trans ((htxId _).trans ?_)
    simp only [mem_flatMap]
    constructor
    · rintro ⟨tx, ⟨other, hother, htx⟩, hpayload⟩
      obtain ⟨k, p, hp, hget, hne⟩ := (hmem other).mp hother
      exact ⟨k, p, other, hp, hget, hne, tx, htx, hpayload⟩
    · rintro ⟨k, p, other, hp, hget, hne, tx, htx, hpayload⟩
      exact ⟨tx, ⟨other, (hmem other).mpr ⟨k, p, hp, hget, hne⟩, htx⟩, hpayload⟩

structure ShowsErrors (cs : CommitServices) (c₁ : CoreEngine φ) (height : UInt64) (stored : Block)
    (res : Except CoreError Unit) (c' : CoreEngine φ) : Prop where
  committed : res = .ok () → c'.getLastCommittedBlock = some stored
  error : cs.completes = false → res ≠ .ok ()
  proposalCache : cs.completes = false →
    c'.proposalCache.lookup height = c₁.proposalCache.lookup height
  outputs : cs.completes = false → ∃ new, c'.outputs = new ++ c₁.outputs ∧ ∀ o ∈ new,
    (∀ info, o ≠ .blockInfo info) ∧
      ∀ retry remove, o = .retryAndRemoveTxs retry remove → ∀ tx ∈ stored.txs, tx ∉ remove

structure Notified (cs : CommitServices) (c : CoreEngine φ) (r : ℕ) (c' : CoreEngine φ) : Prop where
  heap : c'.heap = c.heap
  proposalCache : c'.proposalCache = c.proposalCache
  store : c'.store = c.store
  lastCommittedBlock : cs.completes = true → c'.lastCommittedBlock = some r
  outputs : ∃ new, c'.outputs = new ++ c.outputs ∧
    ∀ o ∈ new, ∃ chainId height events, o = .contractEventInfo chainId height events

omit [DecidableEq φ] in
lemma notified_notifyCommitted {events : List ContractEvent} :
    Notified cs c r (c.notifyCommitted cs r stored rwSet events).2 := by
  unfold notifyCommitted
  cases hsnapshot : cs.notifyBlockCommitted with
  | false => exact ⟨rfl, rfl, rfl, by simp [CommitServices.completes, hsnapshot], [], rfl, by simp⟩
  | true =>
    cases hconf : cs.notifyChainConf with
    | false => exact ⟨rfl, rfl, rfl, by simp [CommitServices.completes, hconf], [], rfl, by simp⟩
    | true =>
      simp only [Bool.not_true, Bool.false_eq_true, if_false]
      split
      · exact ⟨rfl, rfl, rfl, fun _ => rfl, [], rfl, by simp⟩
      refine ⟨rfl, rfl, rfl, fun _ => rfl, [_], rfl, fun o ho => ?_⟩
      exact ⟨_, _, _, mem_singleton.mp ho⟩

lemma commitBlock_stored
    (hstore : (c.commitBlock sv cs p height).2.store = (stored, rwSet) :: c.store) :
    ∃ c₂ info, Notified cs { c with store := (stored, rwSet) :: c.store } p.block c₂ ∧
      c.commitBlock sv cs p height =
        match c₂.syncWithTxPool sv.visit stored height with
        | none => (.error .panicked, c₂)
        | some txRetry => (.ok (), { c₂.output (.retryAndRemoveTxs txRetry stored.txs) with
              proposalCache :=
                c₂.proposalCache.clearProposedBlockAt height }.output (.blockInfo info)) := by
  obtain ⟨hstored, hrwSet⟩ := commitBlock_commits.1.stores rfl hstore
  have hunstored : c.store ≠ (stored, rwSet) :: c.store := fun h => cons_ne_self _ _ h.symm
  unfold commitBlock at hstore ⊢
  rw [hstored] at hstore ⊢
  dsimp only at hstore ⊢
  rw [hrwSet] at hstore ⊢
  cases hevents : rearrangeContractEvent stored p.contractEventInfoMap with
  | none =>
    rw [hevents] at hstore
    exact absurd hstore hunstored
  | some events =>
    cases hput : cs.putBlock with
    | false =>
      rw [hevents, hput] at hstore
      exact absurd hstore hunstored
    | true => exact ⟨_, _, notified_notifyCommitted, rfl⟩

theorem addBlock_showsErrors_iff (env : Env φ) (sv : Services φ) (cs : CommitServices)
    (c c₁ : CoreEngine φ) (r : ℕ) (block stored : Block) (p : BlockProposal)
    (rwSet : List Snapshot.TxRWSet) (hblock : c.heap.get r = some block)
    (hcommit : c.toCommit env sv r block = (.ok p, c₁))
    (hstore : (c.addBlock env sv cs r).2.store = (stored, rwSet) :: c₁.store) :
    ShowsErrors cs c₁ block.header.blockHeight stored (c.addBlock env sv cs r).1
        (c.addBlock env sv cs r).2 ↔
      cs.completes = true ∨ c₁.LacksPayload block.header.blockHeight stored := by
  rw [addBlock_eq_commitBlock hblock hcommit] at hstore ⊢
  obtain ⟨hstored, -⟩ := commitBlock_commits.1.stores rfl hstore
  obtain ⟨c₂, info, hnotified, hcommitBlock⟩ := commitBlock_stored hstore
  have hlacks : c₂.syncWithTxPool sv.visit stored block.header.blockHeight = none ↔
      c₁.LacksPayload block.header.blockHeight stored := by
    rw [syncWithTxPool_eq_none_iff, LacksPayload, LacksPayload, hnotified.heap,
      hnotified.proposalCache]
  rw [hcommitBlock]
  cases hretry : c₂.syncWithTxPool sv.visit stored block.header.blockHeight with
  | none =>
    refine iff_of_true ⟨nofun, fun _ => nofun, fun _ => ?_, fun _ => ?_⟩ (.inr (hlacks.mp hretry))
    · exact congrArg (AList.lookup _) hnotified.proposalCache
    obtain ⟨new, hnew, hevents⟩ := hnotified.outputs
    refine ⟨new, hnew, fun o ho => ?_⟩
    obtain ⟨chainId, height, events, rfl⟩ := hevents o ho
    exact ⟨nofun, nofun⟩
  | some txRetry =>
    have hpresent : ¬c₁.LacksPayload block.header.blockHeight stored := fun h => by
      rw [hlacks.mpr h] at hretry
      cases hretry
    rw [or_iff_left hpresent]
    constructor
    · intro h
      by_contra hfails
      exact h.error (Bool.eq_false_of_not_eq_true hfails) rfl
    · intro hcompletes
      refine ⟨fun _ => ?_, ?_, ?_, ?_⟩
      · change c₂.lastCommittedBlock.bind c₂.heap.get = some stored
        rw [hnotified.lastCommittedBlock hcompletes, hnotified.heap]
        exact hstored
      all_goals exact fun hfails => absurd (hcompletes.symm.trans hfails) nofun

def removes (tx : Transaction) (outputs : List Output) : Bool :=
  match outputs with
  | .blockInfo _ :: .retryAndRemoveTxs _ remove :: _ => tx ∈ remove
  | _ => false

structure Ending where
  res : Except CoreError Unit
  stored : List Block
  lastCommitted : Option Block
  removed : Bool
  cleared : Bool
deriving DecidableEq

def ending (cs : CommitServices) : Option Ending :=
  (Runs.run (step (smallEnv .tbft)) (start genesis) attached).map fun c =>
    let added := c.addBlock (smallEnv .tbft) agreeable cs 1
    ⟨added.1, added.2.store.map (·.1), added.2.getLastCommittedBlock,
      removes (smallTx 5) added.2.outputs, (added.2.proposalCache.lookup 1).isNone⟩

/-- Whichever step fails, `AddBlock` returns nil, the pool loses the transaction, the proposals of
the height are gone and the block is published; after the first two the ledger cache is still at the
genesis block. -/
theorem addBlock_hides_errors :
    ending { notifyBlockCommitted := false } =
      some ⟨.ok (), [blockOne [] certificate, genesis], some genesis, true, true⟩ ∧
    ending { notifyChainConf := false } =
      some ⟨.ok (), [blockOne [] certificate, genesis], some genesis, true, true⟩ ∧
    ending { monitorCommit := false } =
      some ⟨.ok (), [blockOne [] certificate, genesis],
        some (blockOne [] certificate), true, true⟩ := by
  decide +kernel

theorem addBlock_showsErrors_attached :
    ∃ c c₁, Runs.run (step (smallEnv .tbft)) (start genesis) attached = some c ∧
      ShowsErrors {} c₁ 1 (blockOne [] certificate) (c.addBlock (smallEnv .tbft) agreeable {} 1).1
        (c.addBlock (smallEnv .tbft) agreeable {} 1).2 := by
  obtain ⟨c, hc, hblock, hok, hafter⟩ : ∃ c,
    Runs.run (step (smallEnv .tbft)) (start genesis) attached = some c ∧
      c.heap.get 1 = some (blockOne [] certificate) ∧
      (c.toCommit (smallEnv .tbft) agreeable 1 (blockOne [] certificate)).1.isOk = true ∧
      (c.addBlock (smallEnv .tbft) agreeable {} 1).2.store =
        (blockOne [] certificate, [⟨[5], [], []⟩]) ::
        (c.toCommit (smallEnv .tbft) agreeable 1 (blockOne [] certificate)).2.store :=
    ⟨_, Option.eq_some_of_isSome (by decide +kernel), by decide +kernel⟩
  obtain ⟨p, hp⟩ := isOk_iff.mp hok
  exact ⟨c, _, hc,
    (addBlock_showsErrors_iff (smallEnv .tbft) agreeable {} c _ 1 (blockOne [] certificate)
      (blockOne [] certificate) p [⟨[5], [], []⟩] hblock (Prod.ext hp rfl) hafter).mpr (.inl rfl)⟩
end CoreEngine
end ChainMaker.Core
