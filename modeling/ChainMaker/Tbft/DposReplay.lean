import ChainMaker.Tbft.Recovery
import ChainMaker.Dpos.ConsensusArgs

/-! The replay of a logged proposal under DPoS. The log keeps the block without the sets of its
transactions, which the DPoS contract asks for at the end of an epoch. -/

namespace ChainMaker.Tbft
open Dpos Option

structure Content where
  consensusArgs : Bytes
  txIds : List Bytes

structure Codec where
  read : Bytes → Content
  setArgs : Bytes → Bytes → Bytes
  read_setArgs : ∀ body args, read (setArgs body args) = { read body with consensusArgs := args }
  setArgs_read : ∀ body, setArgs body (read body).consensusArgs = body

section args
variable (impl : DPoSImpl) (codec : Codec)

def dposArgs (block : Block) (rwSets : RwSets) : Except Failure (Option Bytes) :=
  (impl.createDPoSRWSet block.header.blockHeight block.header.preBlockHash.bytes
    (codec.read block.body).txIds rwSets).map (Option.map impl.marshalArgs)

def panics {α : Type} : Except Failure α → Bool
  | .error .panic => true
  | _ => false

/-- The services of a node of a DPoS chain, for one call that is given the sets `rwSets`. -/
def Env.withDpos (env : Env) (rwSets : RwSets) : Env :=
  { env with
    isDpos := true
    createDPoSRWSet := fun block =>
      match dposArgs impl codec block rwSets with
      | .error _ => none
      | .ok none => some block.body
      | .ok (some args) => some (codec.setArgs block.body args)
    verifyConsensusArgs := fun block _ =>
      match dposArgs impl codec block rwSets with
      | .error _ => false
      | .ok args => (codec.read block.body).consensusArgs = args.getD [] }

end args

namespace ConsensusTBFTImpl
variable (env : Env) (impl : DPoSImpl) (codec : Codec) (n : ConsensusTBFTImpl) {b : Block}

def creates (block : Block) : Bool :=
  block.header.blockHeight = n.height ∧ n.isProposer env n.height n.round ∧ n.step = .propose

def handleProposedBlockDpos (block : Block) (rwSets : RwSets) (replayMode : Bool) :
    Option ConsensusTBFTImpl :=
  if n.creates env block && panics (dposArgs impl codec block rwSets) then none
  else some (n.handleProposedBlock (env.withDpos impl codec rwSets) block replayMode)

def verifies (r : VerifyResult) : Bool :=
  n.verifingProposal.any fun p =>
    let sameHash := p.block.header.blockHash.bytes = r.verifiedBlock.header.blockHash.bytes
    ¬(n.height = r.verifiedBlock.header.blockHeight ∧ n.round = p.round ∧ ¬r.success) ∧
      ¬(sameHash ∧ n.precommitMajority = some p.block.header.blockHash.bytes) ∧
      n.step = .propose ∧ sameHash

def handleVerifyResultDpos (r : VerifyResult) (rwSets : RwSets) (replayMode : Bool) :
    Option ConsensusTBFTImpl :=
  if n.verifies r && panics (dposArgs impl codec r.verifiedBlock rwSets) then none
  else n.handleVerifyResult (env.withDpos impl codec rwSets) r replayMode

/-- The case of a proposal in `replayWal`: neither call is given the sets. -/
def replayProposalDpos (p : Proposal) : Option ConsensusTBFTImpl :=
  if n.isProposer env n.height n.round then n.handleProposedBlockDpos env impl codec p.block ∅ true
  else { n with verifingProposal := some p }.handleVerifyResultDpos env impl codec
    ⟨p.block, true, none⟩ ∅ true

/-- The node logs the proposal `p`: it made it of a block that passed `CreateDPoSRWSet`, or it
verified its block, which passed `VerifyConsensusArgs`. -/
inductive LogsProposal (rwSets : RwSets) (p : Proposal) : Prop
  | proposed (block : Block) (hcreates : n.creates env block = true)
      (hp : n.createProposal (env.withDpos impl codec rwSets) block = some p)
  | verified (r : VerifyResult) (hverifing : n.verifingProposal = some p)
      (hverifies : n.verifies r = true)
      (hargs : (env.withDpos impl codec rwSets).verifyConsensusArgs r.verifiedBlock r.txsRwSet)
      (hbody : r.verifiedBlock.body = p.block.body)
      (hheight : r.verifiedBlock.header.blockHeight = p.block.header.blockHeight)
      (hpre : r.verifiedBlock.header.preBlockHash = p.block.header.preBlockHash)
      (hhash : (env.signBlock p.block).map (some ·.1) = some p.block.header.blockHash)

variable {env impl codec n} {m : ConsensusTBFTImpl} {rwSets : RwSets} {p : Proposal}

lemma panics_ok {α : Type} (a : α) : panics (.ok a) = false := rfl

lemma dposArgs_congr {b c : Block} (hheight : b.header.blockHeight = c.header.blockHeight)
    (hpre : b.header.preBlockHash = c.header.preBlockHash)
    (htxs : (codec.read b.body).txIds = (codec.read c.body).txIds) :
    dposArgs impl codec b = dposArgs impl codec c := by
  funext rwSets
  simp only [dposArgs, hheight, hpre, htxs]

variable {args : Option Bytes}

lemma dposArgs_empty (h : dposArgs impl codec b rwSets = .ok args) :
    (impl.NeedsRwSets b.header.blockHeight (codec.read b.body).txIds →
        dposArgs impl codec b ∅ = .error .panic) ∧
      (¬impl.NeedsRwSets b.header.blockHeight (codec.read b.body).txIds →
        dposArgs impl codec b ∅ = .ok args) := by
  simp only [dposArgs] at h ⊢
  cases hwrites : impl.createDPoSRWSet b.header.blockHeight b.header.preBlockHash.bytes
      (codec.read b.body).txIds rwSets with
  | error e =>
    rw [hwrites] at h
    cases h
  | ok writes =>
    rw [hwrites] at h
    obtain ⟨hpanics, hsame⟩ := DPoSImpl.createDPoSRWSet_empty hwrites
    exact ⟨fun hneeds => by rw [hpanics hneeds]; rfl, fun hneeds => by rw [hsame hneeds]; exact h⟩

/-- What a logged proposal says about its block: the contract computed the arguments in its header,
and the hash is that of the content. -/
structure CarriesArgs (env : Env) (impl : DPoSImpl) (codec : Codec) (n : ConsensusTBFTImpl)
    (rwSets : RwSets) (p : Proposal) (args : Option Bytes) : Prop where
  height : p.block.header.blockHeight = n.height
  step : n.step = .propose
  computed : dposArgs impl codec p.block rwSets = .ok args
  carried : ∀ a ∈ args, (codec.read p.block.body).consensusArgs = a
  hash : (env.signBlock p.block).map (some ·.1) = some p.block.header.blockHash
  verified : n.isProposer env n.height n.round = false →
    (codec.read p.block.body).consensusArgs = args.getD [] ∧
      n.precommitMajority ≠ some p.block.header.blockHash.bytes

lemma createDPoSRWSet_withDpos {body : Bytes}
    (h : (env.withDpos impl codec rwSets).createDPoSRWSet b = some body) :
    ∃ args, dposArgs impl codec b rwSets = .ok args ∧
      body = args.elim b.body (codec.setArgs b.body) := by
  simp only [Env.withDpos] at h
  split at h
  · cases h
  · exact ⟨none, ‹_›, (some.inj h).symm⟩
  · exact ⟨some _, ‹_›, (some.inj h).symm⟩

lemma LogsProposal.carriesArgs (henv : env.Signs) (hn : n.Progress)
    (h : n.LogsProposal env impl codec rwSets p) :
    ∃ args, CarriesArgs env impl codec n rwSets p args := by
  cases h with
  | proposed block hcreates hp =>
    obtain ⟨hheight, hturn, hstep⟩ := of_decide_eq_true hcreates
    simp only [createProposal, bind_eq_some_iff, map_eq_some_iff] at hp
    obtain ⟨body, hbody, ⟨hash, sig⟩, hsign, endorsement, -, rfl⟩ := hp
    obtain ⟨args, hargs, rfl⟩ := createDPoSRWSet_withDpos hbody
    have hsigned := henv.block { block with
      body := args.elim block.body (codec.setArgs block.body) }
      (some hash) (some sig)
    rw [show env.signBlock _ = _ from hsign] at hsigned
    obtain ⟨⟨_, sig'⟩, hsign', rfl⟩ := map_eq_some_iff.mp hsigned
    refine ⟨args, hheight, hstep, ?_, ?_, by rw [hsign']; rfl, fun hother => ?_⟩
    · rw [← hargs]
      refine congrFun (dposArgs_congr ?_ ?_ ?_) rwSets
      · rfl
      · rfl
      · cases args with
        | none => rfl
        | some a => exact (congrArg Content.txIds (codec.read_setArgs block.body a) :)
    · rintro a ⟨⟩
      exact congrArg Content.consensusArgs (codec.read_setArgs block.body a)
    · rw [hturn] at hother
      cases hother
  | verified r hverifing hverifies hargs hbody hheight hpre hhash =>
    rw [verifies, hverifing] at hverifies
    obtain ⟨-, hquorum, hstep, hsame⟩ := of_decide_eq_true hverifies
    have hcongr : dposArgs impl codec r.verifiedBlock = dposArgs impl codec p.block :=
      dposArgs_congr hheight hpre (by rw [hbody])
    simp only [Env.withDpos, hcongr, hbody] at hargs
    split at hargs
    · cases hargs
    have hcarried := of_decide_eq_true hargs
    refine ⟨_, hn.proposal p (.inr hverifing), hstep, ‹_›, ?_, hhash, fun _ => ⟨hcarried, ?_⟩⟩
    swap
    · exact fun hmajority => hquorum ⟨hsame, hmajority⟩
    rintro a rfl
    exact hcarried

lemma proposal_enterPrevote (n : ConsensusTBFTImpl) (height : ℕ) (round : ℤ) :
    (n.enterPrevote env height round).proposal = n.proposal := by
  unfold enterPrevote
  split <;> rfl

section
variable (h : CarriesArgs env impl codec n rwSets p args)
include h

lemma CarriesArgs.createProposal (henv : env.Signs)
    (hsame : dposArgs impl codec p.block ∅ = .ok args) (m : ConsensusTBFTImpl) :
    ∃ q, m.createProposal (env.withDpos impl codec ∅) p.block = some q ∧
      q.block.header.blockHash = p.block.header.blockHash := by
  obtain ⟨⟨hash, sig⟩, hsign, hhash⟩ := map_eq_some_iff.mp h.hash
  have hbody : (env.withDpos impl codec ∅).createDPoSRWSet p.block = some p.block.body := by
    cases args with
    | none => simp only [Env.withDpos, hsame]
    | some a =>
      simp only [Env.withDpos, hsame]
      rw [← h.carried a rfl, codec.setArgs_read]
  obtain ⟨endorsement, hendorse⟩ :=
    isSome_iff_exists.mp (henv.proposal ⟨m.id, m.height, m.round, -1,
    { p.block with header :=
      { p.block.header with blockHash := some hash, signature := some sig } },
    none⟩)
  refine ⟨⟨m.id, m.height, m.round, -1, { p.block with header := { p.block.header with
    blockHash := some hash, signature := some sig } }, some endorsement⟩, ?_, hhash⟩
  rw [ConsensusTBFTImpl.createProposal, show (env.withDpos impl codec ∅).isDpos = true from rfl,
    if_pos rfl, hbody, bind_some]
  show (env.signBlock p.block).bind _ = _
  rw [hsign, bind_some]
  exact congrArg (Option.map _) hendorse

lemma CarriesArgs.replays (henv : env.Signs) (hagrees : n.Agrees m)
    (hsame : dposArgs impl codec p.block ∅ = .ok args) :
    ∃ m', m.replayProposalDpos env impl codec p = some m' ∧
      m'.proposal.map (·.block.header.blockHash) = some p.block.header.blockHash := by
  have hheight := h.height.trans hagrees.height_eq.symm
  have hstep := hagrees.step_eq.trans h.step
  unfold replayProposalDpos
  split_ifs with hturn
  · obtain ⟨q, hq, hhash⟩ := h.createProposal henv hsame m
    rw [handleProposedBlockDpos, hsame, panics_ok, Bool.and_false, if_neg Bool.false_ne_true]
    refine ⟨_, rfl, ?_⟩
    rw [handleProposedBlock,
      if_neg (by rintro (h | h | h); exacts [h hheight, h hturn, h hstep]), hq]
    rw [proposal_enterPrevote]
    exact congrArg some hhash
  · rw [isProposer_eq hagrees, Bool.not_eq_true] at hturn
    obtain ⟨hcarried, hquorum⟩ := h.verified hturn
    rw [handleVerifyResultDpos, hsame, panics_ok, Bool.and_false, if_neg Bool.false_ne_true,
      handleVerifyResult_prevoted m ?_ (precommitMajority_eq hagrees ▸ hquorum) hstep]
    · exact ⟨_, rfl, by rw [proposal_enterPrevote]; rfl⟩
    · simp [Env.withDpos, hsame, hcarried]

lemma CarriesArgs.panics (hagrees : n.Agrees m)
    (hpanics : dposArgs impl codec p.block ∅ = .error .panic) :
    m.replayProposalDpos env impl codec p = none := by
  have hheight := h.height.trans hagrees.height_eq.symm
  have hstep := hagrees.step_eq.trans h.step
  unfold replayProposalDpos
  split_ifs with hturn
  · rw [handleProposedBlockDpos, hpanics, creates, decide_eq_true ⟨hheight, hturn, hstep⟩]
    rfl
  rw [isProposer_eq hagrees, Bool.not_eq_true] at hturn
  have hquorum := (h.verified hturn).2
  rw [← precommitMajority_eq hagrees] at hquorum
  have hverifies : verifies { m with verifingProposal := some p } ⟨p.block, true, none⟩ = true :=
    decide_eq_true ⟨fun h => h.2.2 rfl, fun h => hquorum h.2, hstep, rfl⟩
  rw [handleVerifyResultDpos, hpanics, hverifies]
  rfl

end

theorem replayProposalDpos_iff (env : Env) (henv : env.Signs) (impl : DPoSImpl) (codec : Codec)
    (rwSets : RwSets) (n m : ConsensusTBFTImpl) (hn : n.Progress) (p : Proposal)
    (hlogs : n.LogsProposal env impl codec rwSets p) (hagrees : n.Agrees m) :
    (∃ m', m.replayProposalDpos env impl codec p = some m' ∧
        m'.proposal.map (·.block.header.blockHash) = some p.block.header.blockHash) ↔
      ¬impl.NeedsRwSets p.block.header.blockHeight (codec.read p.block.body).txIds := by
  obtain ⟨args, h⟩ := hlogs.carriesArgs henv hn
  obtain ⟨hpanics, hsame⟩ := dposArgs_empty h.computed
  refine ⟨fun ⟨m', hm', _⟩ hneeds => ?_, fun hneeds => h.replays henv hagrees (hsame hneeds)⟩
  rw [h.panics hagrees (hpanics hneeds)] at hm'
  cases hm'

def payingImpl (undelegations : List UnbondingDelegation) : DPoSImpl where
  readObject := fun _ _ => some [9]
  getEpochInfo := some ⟨1, 1⟩
  getUnboundingEntries := fun _ => some undelegations
  newEpochWrites := fun _ _ seed => .ok [⟨"DPOS_STAKE", [], seed⟩]
  balanceKey := fun addr => addr.toUTF8.toList
  stakeContractAddr := "stake"
  setString := fun _ => some 5
  readNumber := fun value => some value.sum.toNat
  writeNumber := fun balance => [UInt8.ofNat balance.toNat]
  marshalArgs := List.flatMap (·.value)

def oneTx : Codec := ⟨fun body => ⟨body, [[1]]⟩, fun _ args => args, fun _ _ => rfl, fun _ => rfl⟩

def oneSet : RwSets := AList.insert [1] [] ∅

def firstOf (undelegations : List UnbondingDelegation) : Option Proposal :=
  (start fourEnv [2] 0).createProposal (fourEnv.withDpos (payingImpl undelegations) oneTx oneSet)
    ⟨⟨1, none, none, none⟩, [], none⟩

theorem replayProposalDpos_iff_unpaid : ∃ p m', firstOf [⟨"a", []⟩] = some p ∧
    (start fourEnv [2] 0).replayProposalDpos fourEnv (payingImpl [⟨"a", []⟩]) oneTx p = some m' ∧
    m'.proposal.map (·.block.header.blockHash) = some p.block.header.blockHash := by
  obtain ⟨p, hp⟩ :=
    isSome_iff_exists.mp (show (firstOf [⟨"a", []⟩]).isSome = true by decide +kernel)
  have hunpaid : ¬(payingImpl [⟨"a", []⟩]).NeedsRwSets p.block.header.blockHeight [[1]] := by
    rintro ⟨-, epoch, -, -, undelegations, ⟨⟩, u, hu, hamounts⟩
    exact hamounts (by rw [List.mem_singleton.mp hu])
  obtain ⟨m', hm'⟩ :=
    (replayProposalDpos_iff fourEnv Cluster.fourEnv_resigns.toSigns (payingImpl [⟨"a", []⟩])
    oneTx oneSet (start fourEnv [2] 0) (start fourEnv [2] 0) (Progress.start fourEnv [2] 0) p
    (.proposed _ (by decide +kernel) hp)
    ⟨rfl, rfl, rfl, rfl, rfl, rfl, rfl, fun _ _ => rfl⟩).mpr hunpaid
  exact ⟨p, m', hp, hm'⟩

theorem replayProposalDpos_panics : ∃ p, LogsProposal fourEnv (payingImpl [⟨"a", ["5"]⟩]) oneTx
      (start fourEnv [2] 0) oneSet p ∧
    (start fourEnv [2] 0).replayProposalDpos fourEnv (payingImpl [⟨"a", ["5"]⟩]) oneTx p =
      none := by
  have hfirst := eq_some_of_isSome (show (firstOf [⟨"a", ["5"]⟩]).isSome by decide +kernel)
  exact ⟨_, .proposed _ (by decide +kernel) hfirst, isNone_iff_eq_none.mp (by decide +kernel)⟩

end ConsensusTBFTImpl
end ChainMaker.Tbft
