import ChainMaker.Core.CommitFidelity

/-! `AddBlock` step by step. A call holds the committer's lock from its first check to its end;
between any two of its steps the other modules hand over blocks and change the proposal cache. -/

namespace ChainMaker.Core
open ChainMaker.Snapshot (TxRWSet Visit)

inductive CacheOp (φ : Type) where
  | setProposedBlock (r : ℕ) (rwSetMap : Option RWSetMap) (events : Option EventMap)
    (selfPropose : Bool)
  | clearProposedBlockAt (height : UInt64)
  | clearTheBlock (r : ℕ)
  | keepProposedBlock (visit : Visit φ) (hash : Bytes) (height : UInt64)
  | discardAboveHeight (visit : Visit φ) (baseHeight : UInt64)
  | setProposedAt (visit : Visit φ) (height : UInt64)
  | resetProposedAt (visit : Visit φ) (height : UInt64)

def CoreEngine.changeCache {φ : Type} [DecidableEq φ] (env : Env φ) (c : CoreEngine φ)
    (op : CacheOp φ) : ProposalCache φ :=
  match op with
  | .setProposedBlock r rwSetMap events selfPropose =>
    match (c.heap.get r).map fun block => c.proposalCache.setProposedBlock env.fingerPrint
        c.currentHeight r block.header rwSetMap events selfPropose with
    | some (.ok proposalCache) => proposalCache
    | _ => c.proposalCache
  | .clearProposedBlockAt height => c.proposalCache.clearProposedBlockAt height
  | .clearTheBlock r =>
    match c.heap.get r with
    | none => c.proposalCache
    | some block => c.proposalCache.clearTheBlock env.fingerPrint block.header
  | .keepProposedBlock visit hash height =>
    (c.proposalCache.keepProposedBlock env.fingerPrint c.heap visit hash height).2
  | .discardAboveHeight visit baseHeight => (c.proposalCache.discardAboveHeight visit baseHeight).2
  | .setProposedAt visit height => c.proposalCache.setProposedAt visit height
  | .resetProposedAt visit height => c.proposalCache.resetProposedAt visit height

inductive Caller where
  | consensus
  | sync
deriving DecidableEq, Repr

inductive Stage where
  | check
  | look
  | verify
  | lookAgain
  | put (p : BlockProposal)
  | notify (p : BlockProposal) (block : Block) (rwSet : List TxRWSet) (events : List ContractEvent)
  | retry (block : Block) (info : Option (ℕ × List TxRWSet))
  | clear (info : Option (ℕ × List TxRWSet))
  | publish (info : Option (ℕ × List TxRWSet))

structure Call where
  caller : Caller
  block : ℕ
  height : UInt64
  stage : Stage

def Call.blocks (call : Call) : List ℕ :=
  match call.stage with
  | .put p | .notify p _ _ _ => [call.block, p.block]
  | _ => [call.block]

structure Committer (φ : Type) where
  engine : CoreEngine φ
  holder : Option Call
  returned : List (Caller × UInt64 × Except CoreError Unit)

inductive Turn (φ : Type) where
  | receive (block : Block)
  | sign (r : ℕ) (consensusArgs hash signature : Bytes)
  | attach (r : ℕ) (additionalData : Option AdditionalData)
  | changeCache (op : CacheOp φ)
  | call (caller : Caller) (r : ℕ)
  | next (sv : Services φ) (cs : CommitServices)

namespace Committer
variable {φ : Type} [DecidableEq φ] (env : Env φ) (sv : Services φ) (cs : CommitServices)

def start (c : CoreEngine φ) : Committer φ := ⟨c, none, []⟩

def finish (s : Committer φ) (call : Call) (c : CoreEngine φ) (res : Except CoreError Unit) :
    Committer φ :=
  ⟨c, none, (call.caller, call.height, res) :: s.returned⟩

def goTo (s : Committer φ) (call : Call) (c : CoreEngine φ) (stage : Stage) : Committer φ :=
  ⟨c, some { call with stage }, s.returned⟩

def advance (s : Committer φ) (call : Call) : Committer φ :=
  let c := s.engine
  match call.stage with
  | .check =>
    match (c.heap.get call.block).map (c.isBlockLegal env) with
    | none => s.finish call c (.error .panicked)
    | some (.error e) => s.finish call c (.error e)
    | some (.ok ()) => s.goTo call c .look
  | .look =>
    match c.heap.get call.block with
    | none => s.finish call c (.error .panicked)
    | some block =>
      match c.getProposedBlock env block.header with
      | none => s.goTo call c .verify
      | some p =>
        match c.heap.get p.block with
        | none => s.finish call c (.error .panicked)
        | some _ =>
          let c := if env.consensusMessageTurbo then
            { c with heap := c.heap.assign p.block call.block }
            else c
          s.goTo call c (.put p)
  | .verify =>
    match c.verifyBlock env sv call.block .syncVerify with
    | (.error e, c) => s.finish call c (.error e)
    | (.ok (), c) => s.goTo call c .lookAgain
  | .lookAgain =>
    match c.heap.get call.block with
    | none => s.finish call c (.error .panicked)
    | some block =>
      match c.getProposedBlock env block.header with
      | none =>
        s.finish call c (.error (.blockNotVerified block.header.blockHeight block.header.blockHash))
      | some p => s.goTo call c (.put p)
  | .put p =>
    match c.heap.get p.block with
    | none => s.finish call c (.error .panicked)
    | some block =>
      match rearrangeRWSet block p.rwSetMap,
        rearrangeContractEvent block p.contractEventInfoMap with
      | some rwSet, some events =>
        if !cs.putBlock then s.finish call c (.error .panicked)
        else s.goTo call { c with store := (block, rwSet) :: c.store }
          (.notify p block rwSet events)
      | _, _ => s.finish call c (.error .panicked)
  | .notify p block rwSet events =>
    let notified := c.notifyCommitted cs p.block block rwSet events
    s.goTo call notified.2 (.retry block notified.1)
  | .retry block info =>
    match c.syncWithTxPool sv.visit block call.height with
    | none => s.finish call c (.error .panicked)
    | some txRetry => s.goTo call (c.output (.retryAndRemoveTxs txRetry block.txs)) (.clear info)
  | .clear info =>
    s.goTo call { c with proposalCache := c.proposalCache.clearProposedBlockAt call.height }
      (.publish info)
  | .publish info => s.finish call (c.output (.blockInfo info)) (.ok ())

/-- The last committed block and those of the call under way. The consensus module signs a block and
adds its certificate before it hands the block over, so these stay as they are. -/
def inUse (s : Committer φ) : List ℕ :=
  s.engine.lastCommittedBlock.toList ++ s.holder.toList.flatMap Call.blocks

def change (s : Committer φ) (c : CoreEngine φ) : Option (Committer φ) :=
  if ∀ r ∈ s.inUse, c.heap.get r = s.engine.heap.get r then some { s with engine := c } else none

def step (s : Committer φ) (t : Turn φ) : Option (Committer φ) :=
  match t with
  | .receive block => some { s with engine := { s.engine with heap := s.engine.heap.alloc block } }
  | .sign r consensusArgs hash signature => s.change (s.engine.sign r consensusArgs hash signature)
  | .attach r additionalData =>
    s.change { s.engine with heap := s.engine.heap.setAdditionalData r additionalData }
  | .changeCache op =>
    some { s with engine := { s.engine with proposalCache := s.engine.changeCache env op } }
  | .call caller r =>
    match s.holder, s.engine.heap.get r with
    | none, some block =>
      some { s with holder := some ⟨caller, r, block.header.blockHeight, .check⟩ }
    | _, _ => none
  | .next sv cs => s.holder.map (s.advance env sv cs)

/-! ### What a step does -/

inductive Advances (env : Env φ) (sv : Services φ) (cs : CommitServices) (s : Committer φ)
    (call : Call) :
    Committer φ → Prop
  | failed (e : CoreError)
      (hstage : ∀ p block rwSet events, call.stage ≠ .notify p block rwSet events) :
      Advances env sv cs s call (s.finish call s.engine (.error e))
  | legal {block : Block} (hstage : call.stage = .check)
      (hblock : s.engine.heap.get call.block = some block)
      (hlegal : s.engine.isBlockLegal env block = .ok ()) :
      Advances env sv cs s call (s.goTo call s.engine .look)
  | missing (hstage : call.stage = .look) : Advances env sv cs s call (s.goTo call s.engine .verify)
  | found {block cached : Block} {p : BlockProposal} {c : CoreEngine φ}
      (hstage : call.stage = .look)
      (hblock : s.engine.heap.get call.block = some block)
      (hp : s.engine.getProposedBlock env block.header = some p)
      (hcached : s.engine.heap.get p.block = some cached)
      (hc : c = s.engine ∨ c = { s.engine with heap := s.engine.heap.assign p.block call.block }) :
      Advances env sv cs s call (s.goTo call c (.put p))
  | refused {e : CoreError} {c : CoreEngine φ} (hstage : call.stage = .verify)
      (hverify : s.engine.verifyBlock env sv call.block .syncVerify = (.error e, c)) :
      Advances env sv cs s call (s.finish call c (.error e))
  | verified {c : CoreEngine φ} (hstage : call.stage = .verify)
      (hverify : s.engine.verifyBlock env sv call.block .syncVerify = (.ok (), c)) :
      Advances env sv cs s call (s.goTo call c .lookAgain)
  | foundAgain {block : Block} {p : BlockProposal} (hstage : call.stage = .lookAgain)
      (hblock : s.engine.heap.get call.block = some block)
      (hp : s.engine.getProposedBlock env block.header = some p) :
      Advances env sv cs s call (s.goTo call s.engine (.put p))
  | put {p : BlockProposal} {block : Block} {rwSet : List TxRWSet} {events : List ContractEvent}
      (hstage : call.stage = .put p) (hblock : s.engine.heap.get p.block = some block) :
      Advances env sv cs s call
        (s.goTo call { s.engine with store := (block, rwSet) :: s.engine.store }
        (.notify p block rwSet events))
  | notified {p : BlockProposal} {block : Block} {rwSet : List TxRWSet}
      {events : List ContractEvent}
      (hstage : call.stage = .notify p block rwSet events) :
      Advances env sv cs s call
        (s.goTo call (s.engine.notifyCommitted cs p.block block rwSet events).2
        (.retry block (s.engine.notifyCommitted cs p.block block rwSet events).1))
  | retried {block : Block} {info : Option (ℕ × List TxRWSet)} {txRetry : List Transaction}
      (hstage : call.stage = .retry block info) :
      Advances env sv cs s call
        (s.goTo call (s.engine.output (.retryAndRemoveTxs txRetry block.txs)) (.clear info))
  | cleared {info : Option (ℕ × List TxRWSet)} (hstage : call.stage = .clear info) :
      Advances env sv cs s call (s.goTo call
        { s.engine with proposalCache := s.engine.proposalCache.clearProposedBlockAt call.height }
        (.publish info))
  | published {info : Option (ℕ × List TxRWSet)} (hstage : call.stage = .publish info) :
      Advances env sv cs s call (s.finish call (s.engine.output (.blockInfo info)) (.ok ()))

lemma advances_advance (s : Committer φ) (call : Call) :
    Advances env sv cs s call (s.advance env sv cs call) := by
  unfold advance
  cases hstage : call.stage with
  | check =>
    dsimp only
    cases hblock : s.engine.heap.get call.block with
    | none => exact .failed _ (by simp [hstage])
    | some block =>
      rw [Option.map_some]
      cases hlegal : s.engine.isBlockLegal env block with
      | error e => exact .failed e (by simp [hstage])
      | ok u => exact .legal hstage hblock hlegal
  | look =>
    dsimp only
    cases hblock : s.engine.heap.get call.block with
    | none => exact .failed _ (by simp [hstage])
    | some block =>
      dsimp only
      cases hp : s.engine.getProposedBlock env block.header with
      | none => exact .missing hstage
      | some p =>
        dsimp only
        cases hcached : s.engine.heap.get p.block with
        | none => exact .failed _ (by simp [hstage])
        | some cached =>
          refine .found hstage hblock hp hcached ?_
          split
          · exact .inr rfl
          · exact .inl rfl
  | verify =>
    dsimp only
    split
    · next hverify => exact .refused hstage hverify
    · next hverify => exact .verified hstage hverify
  | lookAgain =>
    dsimp only
    cases hblock : s.engine.heap.get call.block with
    | none => exact .failed _ (by simp [hstage])
    | some block =>
      dsimp only
      cases hp : s.engine.getProposedBlock env block.header with
      | none => exact .failed _ (by simp [hstage])
      | some p => exact .foundAgain hstage hblock hp
  | put p =>
    dsimp only
    cases hblock : s.engine.heap.get p.block with
    | none => exact .failed _ (by simp [hstage])
    | some block =>
      dsimp only
      split
      · split
        · exact .failed _ (by simp [hstage])
        · exact .put hstage hblock
      · exact .failed _ (by simp [hstage])
  | notify p block rwSet events => exact .notified hstage
  | retry block info =>
    dsimp only
    split
    · exact .failed _ (by simp [hstage])
    · exact .retried hstage
  | clear info => exact .cleared hstage
  | publish info => exact .published hstage

/-! ### A call that nobody interrupts -/

section Uninterrupted
variable {env sv cs} {c : CoreEngine φ} {s t : Committer φ} {call : Call}

def Reaches (env : Env φ) (sv : Services φ) (cs : CommitServices) (s t : Committer φ) : Prop :=
  ∃ n, Runs.run (step env) s (List.replicate n (.next sv cs)) = some t

lemma Reaches.refl : Reaches env sv cs s s := ⟨0, rfl⟩

lemma Reaches.next (hs : s.holder = some call)
    (h : Reaches env sv cs (s.advance env sv cs call) t) : Reaches env sv cs s t := by
  obtain ⟨n, hn⟩ := h
  refine ⟨n + 1, Runs.run_cons.mpr ⟨s.advance env sv cs call, ?_, hn⟩⟩
  simp [step, hs]

lemma reaches_commitBlock (p : BlockProposal) (hstage : call.stage = .put p)
    (returned : List (Caller × UInt64 × Except CoreError Unit)) :
    Reaches env sv cs ⟨c, some call, returned⟩
      ⟨(c.commitBlock sv cs p call.height).2, none,
        (call.caller, call.height, (c.commitBlock sv cs p call.height).1) :: returned⟩ := by
  refine .next rfl ?_
  dsimp only [advance]
  rw [hstage]
  dsimp only
  unfold CoreEngine.commitBlock
  cases c.heap.get p.block with
  | none => exact .refl
  | some block =>
    dsimp only
    cases rearrangeRWSet block p.rwSetMap with
    | none => exact .refl
    | some rwSet =>
      cases rearrangeContractEvent block p.contractEventInfoMap with
      | none => exact .refl
      | some events =>
        cases cs.putBlock with
        | false => exact .refl
        | true =>
          simp only [Bool.not_true, Bool.false_eq_true, if_false]
          refine .next rfl (.next rfl ?_)
          dsimp only [advance, goTo]
          generalize CoreEngine.notifyCommitted cs
            (_ : CoreEngine φ) p.block block rwSet events = notified
          cases notified.2.syncWithTxPool sv.visit block call.height with
          | none => exact .refl
          | some txRetry => exact .next rfl (.next rfl .refl)

theorem reaches_addBlock (caller : Caller) {r : ℕ} {block : Block} (hs : s.holder = none)
    (hblock : s.engine.heap.get r = some block) :
    ∃ n, Runs.run (step env) s (.call caller r :: List.replicate n (.next sv cs)) =
      some ⟨(s.engine.addBlock env sv cs r).2, none,
        (caller, block.header.blockHeight, (s.engine.addBlock env sv cs r).1) :: s.returned⟩ := by
  suffices hreaches : Reaches env sv cs
      { s with holder := some ⟨caller, r, block.header.blockHeight, .check⟩ }
      ⟨(s.engine.addBlock env sv cs r).2, none,
        (caller, block.header.blockHeight, (s.engine.addBlock env sv cs r).1) :: s.returned⟩ by
    obtain ⟨n, hn⟩ := hreaches
    refine ⟨n, Runs.run_cons.mpr ⟨_, ?_, hn⟩⟩
    simp only [step, hs, hblock]
  obtain ⟨c, holder, returned⟩ := s
  refine .next rfl ?_
  dsimp only [advance]
  unfold CoreEngine.addBlock
  rw [hblock, Option.map_some]
  dsimp only
  cases c.isBlockLegal env block with
  | error e => exact .refl
  | ok u =>
    refine .next rfl ?_
    dsimp only [advance, goTo]
    rw [hblock]
    dsimp only
    cases hp : c.getProposedBlock env block.header with
    | some p =>
      dsimp only
      cases c.heap.get p.block with
      | none => exact .refl
      | some cached => exact reaches_commitBlock p rfl returned
    | none =>
      refine .next rfl ?_
      dsimp only [advance, goTo]
      unfold CoreEngine.checkLastProposedBlock
      have hsync : (c.verifyBlock env sv r .syncVerify).1 = .ok () → _ :=
        CoreEngine.verifyBlock_sync hblock
      generalize c.verifyBlock env sv r .syncVerify = verified at hsync ⊢
      obtain ⟨res, c₁⟩ := verified
      cases res with
      | error e => exact .refl
      | ok u =>
        refine .next rfl ?_
        dsimp only [advance, goTo] at hsync ⊢
        rw [(hsync rfl).1, hblock]
        dsimp only
        cases c₁.getProposedBlock env block.header with
        | none => exact .refl
        | some p => exact reaches_commitBlock p rfl returned

open CoreEngine in
theorem reaches_addBlock_genesis :
    let c : CoreEngine Snapshot.BlockHeader := CoreEngine.start genesis
    let received := { c with heap := c.heap.alloc (blockOne [] certificate) }
    ∃ n s, Runs.run (step (smallEnv .tbft)) (start received)
        (.call .sync 1 :: List.replicate n (.next agreeable {})) = some s ∧ s.holder = none ∧
      s.engine.store.map (·.1) = [blockOne [] certificate, genesis] := by
  intro c received
  obtain ⟨n, hn⟩ := reaches_addBlock (s := start received) (r := 1) .sync rfl rfl
  exact ⟨n, _, hn, rfl, by decide +kernel⟩

end Uninterrupted
end Committer
end ChainMaker.Core
