import ChainMaker.Core.Types

/-! The proposal cache (`proposal_cache.go`): the blocks that were generated or verified, by height
and fingerprint, with the read/write sets of their execution. -/

namespace ChainMaker.Core
open Option AList
open ChainMaker.Snapshot (Visit)

inductive CoreError where
  | emptyBlock
  | blockHadBeenCommited
  | noPreBlock (height : UInt64) (preHash : Option Bytes)
  | verifyTimeOut (height : UInt64)
  | txCapacity (expected got : UInt32)
  | txCount (expected : UInt32) (got : ℕ)
  | height (expected got : UInt64)
  | preHash (expected got : Option Bytes)
  | noLastBlock (height : UInt64) (preHash : Option Bytes)
  | calcBlockHash
  | blockHash (expected : Option Bytes) (got : Bytes)
  | signature (height : UInt64) (hash : Option Bytes) (proposer : Bytes) (signature : Option Bytes)
  | txMustNotBeEmpty
  | txDuplicate
  | simulate
  | simulateTxCount (expected : UInt32) (got : ℕ)
  | verifyTxs (height : UInt64) (hash : Option Bytes)
  | txRoot (expected : Bytes) (got : Option Bytes)
  | dag (expected : Bytes) (got : Option Bytes)
  | calcRWSetRoot
  | rwSetRoot (expected got : Bytes)
  | voteSig
  | invalidHeight (currentHeight blockHeight : UInt64)
  | noLastCommittedBlock
  | heightNotNext
  | prevHashInvalid (got expected : Option Bytes)
  | blockHashInvalid (calculated got : Option Bytes)
  | blockNotVerified (height : UInt64) (hash : Option Bytes)
  | generate
  | panicked
deriving DecidableEq, Repr

structure BlockProposal where
  block : ℕ
  rwSetMap : Option RWSetMap
  contractEventInfoMap : Option EventMap
  isSelfProposed : Bool
  hasProposedThisRound : Bool

def Heap.blockHash (heap : Heap) (r : ℕ) : Bytes := ((heap.get r).bind (·.header.blockHash)).getD []

abbrev ProposalCache (φ : Type) := GoMap UInt64 (GoMap φ BlockProposal)

namespace ProposalCache
variable {φ : Type} [DecidableEq φ] (fp : BlockHeader → φ) (heap : Heap) (visit : Visit φ) {k : φ}
variable (pc : ProposalCache φ) {p : BlockProposal}

def proposal (height : UInt64) (k : φ) : Option BlockProposal :=
  (pc.lookup height).bind (·.lookup k)

def proposals (height : UInt64) : List BlockProposal :=
  match pc.lookup height with
  | none => []
  | some proposedBlocks => (visit.order proposedBlocks.keys).filterMap proposedBlocks.lookup

def clearProposedBlockAt (height : UInt64) : ProposalCache φ := pc.erase height

def getProposedBlock (header : BlockHeader) : Option BlockProposal :=
  pc.proposal header.blockHeight (fp header)

def getProposedBlocksAt (height : UInt64) : List ℕ := (pc.proposals visit height).map (·.block)

def getProposedBlockByHashAndHeight (hash : Option Bytes) (height : UInt64) :
    Option BlockProposal :=
  match hash with
  | none => none
  | some hash => (pc.proposals visit height).find? fun p => heap.blockHash p.block = hash

def setProposedBlock (currentHeight : Option UInt64) (r : ℕ) (header : BlockHeader)
    (rwSetMap : Option RWSetMap) (contractEventMap : Option EventMap) (selfPropose : Bool) :
    Except CoreError (ProposalCache φ) :=
  let height := header.blockHeight
  match currentHeight.filter fun current => current ≥ height ∧ height ≠ 0 with
  | some current => .error (.invalidHeight current height)
  | none =>
    .ok (pc.insert height (((pc.lookup height).getD ∅).insert (fp header)
      ⟨r, rwSetMap, contractEventMap, selfPropose, true⟩))

def clearTheBlock (header : BlockHeader) : ProposalCache φ :=
  match pc.lookup header.blockHeight with
  | none => pc
  | some proposedBlocks => pc.insert header.blockHeight (proposedBlocks.erase (fp header))

def getSelfProposedBlockAt (height : UInt64) : Option ℕ :=
  ((pc.proposals visit height).find? (·.isSelfProposed)).map (·.block)

def isProposedAt (height : UInt64) : Bool :=
  (pc.proposals visit height).any fun p => p.isSelfProposed && p.hasProposedThisRound

def markProposedAt (height : UInt64) (mark : Bool) : ProposalCache φ :=
  match pc.lookup height with
  | none => pc
  | some proposedBlocks =>
    match (visit.order proposedBlocks.keys).find? fun k =>
        (proposedBlocks.lookup k).any (·.isSelfProposed) with
    | none => pc
    | some k =>
      match proposedBlocks.lookup k with
      | none => pc
      | some p => pc.insert height (proposedBlocks.insert k { p with hasProposedThisRound := mark })

def setProposedAt (height : UInt64) : ProposalCache φ := pc.markProposedAt visit height true

def resetProposedAt (height : UInt64) : ProposalCache φ := pc.markProposedAt visit height false

def cut (hash : Bytes) (s : List ℕ × GoMap φ BlockProposal) (k : φ) :
    List ℕ × GoMap φ BlockProposal :=
  match s.2.lookup k with
  | none => s
  | some p =>
    match heap.get p.block with
    | none => s
    | some b =>
      if b.header.blockHash.getD [] = hash then s
      else (s.1 ++ [p.block], s.2.erase (fp b.header))

def keepProposedBlock (hash : Bytes) (height : UInt64) : List ℕ × ProposalCache φ :=
  match pc.lookup height with
  | none => ([], pc)
  | some proposedBlocks =>
    let s := (visit.order proposedBlocks.keys).foldl (cut fp heap hash) ([], proposedBlocks)
    (s.1, pc.insert height s.2)

def discardAboveHeight (baseHeight : UInt64) : List ℕ × ProposalCache φ :=
  let above := pc.keys.filter (· > baseHeight)
  (above.flatMap (pc.getProposedBlocksAt visit), above.foldl (fun pc height => pc.erase height) pc)

/-! ### What is left in the cache -/

variable {fp heap visit pc} {pc' pc'' : ProposalCache φ} {height : UInt64}

lemma proposal_empty (height : UInt64) (k : φ) : proposal (∅ : ProposalCache φ) height k = none :=
  rfl

lemma proposal_insert (m : GoMap φ BlockProposal) (height' : UInt64) (k : φ) :
    proposal (pc.insert height m) height' k =
      if height' = height then m.lookup k else pc.proposal height' k := by
  unfold proposal
  rw [GoMap.lookup_insert_ite]
  split <;> rfl

def Within (pc' pc : ProposalCache φ) : Prop :=
  ∀ height k p', pc'.proposal height k = some p' → ∃ p, pc.proposal height k = some p ∧
    p'.block = p.block ∧ p'.rwSetMap = p.rwSetMap ∧ p'.contractEventInfoMap = p.contractEventInfoMap

namespace Within

lemma refl : Within pc pc := fun _ _ p h => ⟨p, h, rfl, rfl, rfl⟩

lemma trans (h : Within pc'' pc') (h' : Within pc' pc) : Within pc'' pc := by
  intro height k p'' hp''
  obtain ⟨p', hp', hblock', hrw', hevents'⟩ := h height k p'' hp''
  obtain ⟨p, hp, hblock, hrw, hevents⟩ := h' height k p' hp'
  exact ⟨p, hp, hblock'.trans hblock, hrw'.trans hrw, hevents'.trans hevents⟩

end Within

def Part (pc' pc : ProposalCache φ) : Prop :=
  ∀ height k p, pc'.proposal height k = some p → pc.proposal height k = some p

lemma Part.refl : Part pc pc := fun _ _ _ h => h

lemma Part.trans (h : Part pc'' pc') (h' : Part pc' pc) : Part pc'' pc :=
  fun height k p hp => h' height k p (h height k p hp)

lemma Part.within (h : Part pc' pc) : Within pc' pc :=
  fun height k p hp => ⟨p, h height k p hp, rfl, rfl, rfl⟩

lemma Part.insert {m m' : GoMap φ BlockProposal} (hm : pc.lookup height = some m)
    (hsub : ∀ k p, m'.lookup k = some p → m.lookup k = some p) : Part (pc.insert height m') pc := by
  intro height' k p hp
  rw [proposal_insert] at hp
  split at hp
  · next heq => exact heq ▸ bind_eq_some_iff.mpr ⟨m, hm, hsub k p hp⟩
  · exact hp

lemma Part.erase : Part (pc.erase height) pc := by
  intro height' k p hp
  obtain ⟨m, hm, hk⟩ := bind_eq_some_iff.mp hp
  by_cases heq : height' = height
  · rw [heq, lookup_erase] at hm
    cases hm
  · rw [lookup_erase_ne heq] at hm
    exact bind_eq_some_iff.mpr ⟨m, hm, hk⟩

def SelfProposed (pc : ProposalCache φ) (height : UInt64) (k : φ) (r : ℕ) : Prop :=
  ∃ p, pc.proposal height k = some p ∧ p.isSelfProposed = true ∧ p.block = r

lemma lookup_of_erase {m : GoMap φ BlockProposal} {k k' : φ}
    (h : (m.erase k').lookup k = some p) : m.lookup k = some p := by
  by_cases hk : k = k'
  · rw [hk, lookup_erase] at h
    cases h
  · rwa [lookup_erase_ne hk] at h

lemma lookup_of_cut {hash : Bytes} (ks : List φ) (s : List ℕ × GoMap φ BlockProposal)
    (h : (ks.foldl (cut fp heap hash) s).2.lookup k = some p) : s.2.lookup k = some p := by
  induction ks generalizing s with
  | nil => exact h
  | cons k' ks ih =>
    have hone := ih (cut fp heap hash s k') h
    unfold cut at hone
    split at hone
    · exact hone
    split at hone
    · exact hone
    split at hone
    · exact hone
    · exact lookup_of_erase hone

lemma part_clearTheBlock (header : BlockHeader) : Part (pc.clearTheBlock fp header) pc := by
  unfold clearTheBlock
  split
  · exact .refl
  · next hm => exact .insert hm fun _ _ hp => lookup_of_erase hp

lemma part_keepProposedBlock (hash : Bytes) :
    Part (pc.keepProposedBlock fp heap visit hash height).2 pc := by
  unfold keepProposedBlock
  split
  · exact .refl
  · next hm => exact .insert hm fun _ _ hp => lookup_of_cut _ _ hp

variable (visit) in
lemma part_discardAboveHeight (baseHeight : UInt64) :
    Part (pc.discardAboveHeight visit baseHeight).2 pc := by
  have hloop : ∀ heights : List UInt64, ∀ pc : ProposalCache φ,
      Part (heights.foldl (fun pc height => pc.erase height) pc) pc := by
    intro heights
    induction heights with
    | nil => exact fun pc => .refl
    | cons height heights ih => exact fun pc => (ih _).trans .erase
  exact hloop _ pc

variable (visit pc height) in
lemma markProposedAt_cases (mark : Bool) :
    (pc.markProposedAt visit height mark = pc ∧ ∀ k r, ¬pc.SelfProposed height k r) ∨
    ∃ k p, pc.proposal height k = some p ∧ p.isSelfProposed = true ∧
      ∀ height' k', (pc.markProposedAt visit height mark).proposal height' k' =
        if height' = height ∧ k' = k then some { p with hasProposedThisRound := mark }
        else pc.proposal height' k' := by
  unfold markProposedAt
  cases hm : pc.lookup height with
  | none =>
    refine .inl ⟨rfl, ?_⟩
    rintro k r ⟨p, hp, -⟩
    rw [proposal, hm] at hp
    cases hp
  | some m =>
    have hproposal : ∀ k, pc.proposal height k = m.lookup k := fun k => by rw [proposal, hm]; rfl
    dsimp only
    cases hk : (visit.order m.keys).find? fun k => (m.lookup k).any (·.isSelfProposed) with
    | none =>
      refine .inl ⟨rfl, ?_⟩
      rintro k r ⟨p, hp, hself, -⟩
      rw [hproposal] at hp
      have hmem : k ∈ visit.order m.keys := (visit.perm _).mem_iff.mpr
        (mem_keys.mp (lookup_isSome.mp (isSome_of_eq_some hp)))
      exact List.find?_eq_none.mp hk k hmem ((any_eq_true _ _).mpr ⟨p, hp, hself⟩)
    | some k =>
      have hself := List.find?_some hk
      obtain ⟨p, hp, hself⟩ := (any_eq_true _ _).mp hself
      refine .inr ⟨k, p, (hproposal k).trans hp, hself, fun height' k' => ?_⟩
      dsimp only
      rw [hp]
      rw [proposal_insert, GoMap.lookup_insert_ite]
      by_cases hheight : height' = height
      · rw [if_pos hheight, hheight, hproposal]
        simp
      · rw [if_neg hheight, if_neg fun h => hheight h.1]

lemma proposal_of_markProposedAt {mark : Bool} {height' : UInt64} {p' : BlockProposal}
    (hp' : (pc.markProposedAt visit height mark).proposal height' k = some p') :
    ∃ p, pc.proposal height' k = some p ∧
      p' = { p with hasProposedThisRound := p'.hasProposedThisRound } := by
  obtain ⟨heq, -⟩ | ⟨k, p, hp, -, hall⟩ := markProposedAt_cases visit pc height mark
  · exact ⟨p', heq ▸ hp', rfl⟩
  rw [hall] at hp'
  split at hp'
  · next hkey =>
    obtain ⟨rfl, rfl⟩ := hkey
    cases hp'
    exact ⟨p, hp, rfl⟩
  · exact ⟨p', hp', rfl⟩

lemma within_markProposedAt (mark : Bool) : Within (pc.markProposedAt visit height mark) pc := by
  intro height' k p' hp'
  obtain ⟨p, hp, hmarked⟩ := proposal_of_markProposedAt hp'
  rw [hmarked]
  exact ⟨p, hp, rfl, rfl, rfl⟩

lemma proposal_setProposedBlock {currentHeight : Option UInt64} {r : ℕ} {header : BlockHeader}
    {rwSetMap : Option RWSetMap} {events : Option EventMap} {selfPropose : Bool}
    (h : pc.setProposedBlock fp currentHeight r header rwSetMap events selfPropose = .ok pc')
    (height : UInt64) (k : φ) :
    pc'.proposal height k = if height = header.blockHeight ∧ k = fp header then
      some ⟨r, rwSetMap, events, selfPropose, true⟩ else pc.proposal height k := by
  unfold setProposedBlock at h
  dsimp only at h
  split at h
  · cases h
  cases h
  rw [proposal_insert, GoMap.lookup_insert_ite]
  by_cases hheight : height = header.blockHeight
  · rw [if_pos hheight, hheight, proposal]
    simp only [true_and]
    cases pc.lookup header.blockHeight <;> rfl
  · rw [if_neg hheight, if_neg fun h => hheight h.1]

def Each (P : UInt64 → φ → ℕ → Option RWSetMap → Prop) (pc : ProposalCache φ) : Prop :=
  ∀ height k p, pc.proposal height k = some p → P height k p.block p.rwSetMap

namespace Each
variable {P : UInt64 → φ → ℕ → Option RWSetMap → Prop}

lemma within (hP : pc.Each P) (h : Within pc' pc) : pc'.Each P := by
  intro height k p' hp'
  obtain ⟨p, hp, hblock, hrw, -⟩ := h height k p' hp'
  rw [hblock, hrw]
  exact hP height k p hp

lemma mono {Q : UInt64 → φ → ℕ → Option RWSetMap → Prop} (hP : pc.Each P)
    (hPQ : ∀ height k r rwSetMap, P height k r rwSetMap → Q height k r rwSetMap) : pc.Each Q :=
  fun height k p hp => hPQ _ _ _ _ (hP height k p hp)

lemma set {currentHeight : Option UInt64} {r : ℕ} {header : BlockHeader}
    {rwSetMap : Option RWSetMap} {events : Option EventMap} {selfPropose : Bool} (hP : pc.Each P)
    (hnew : P header.blockHeight (fp header) r rwSetMap)
    (h : pc.setProposedBlock fp currentHeight r header rwSetMap events selfPropose = .ok pc') :
    pc'.Each P := by
  intro height k p hp
  rw [proposal_setProposedBlock h] at hp
  split at hp
  · next hkey =>
    cases hp
    rw [hkey.1, hkey.2]
    exact hnew
  · exact hP height k p hp

end Each
end ProposalCache
end ChainMaker.Core
