import ChainMaker.ChainedBft.Types

/-! The votes and proposals that a node collects, by height and level (`message`). The maps of a
vote pool share their votes by reference, and a later vote changes an earlier one in place; so the
pool keeps its votes in a store, and the maps hold positions of the store. -/

namespace ChainMaker.ChainedBft

structure VotePool where
  store : List VoteData
  lockedNewView : Bool
  lockedBlockId : Option Bytes
  votes : GoMap ℕ ℕ
  votedNewView : GoMap ℕ ℕ
  votedBlockId : GoMap Bytes (GoMap ℕ ℕ)

def newVotePool : VotePool := ⟨[], false, none, ∅, ∅, ∅⟩

inductive InsertError
  | differentBlock
  | repeated
deriving DecidableEq

namespace VotePool
variable (vp : VotePool) {id : Bytes}

def vote (ref : ℕ) : Option VoteData := vp.store[ref]?

def lastVote (author : ℕ) : Option VoteData := (vp.votes.lookup author).bind vp.vote

def checkDuplicationVote (v : VoteData) : Except InsertError Unit :=
  match vp.lastVote v.authorIdx with
  | none => .ok ()
  | some last =>
    if last.blockId ≠ none ∧ v.blockId ≠ none ∧ bytes last.blockId ≠ bytes v.blockId then
      .error .differentBlock
    else if last.newView = v.newView ∧ bytes last.blockId = bytes v.blockId then .error .repeated
    else .ok ()

def mergeVote (last v : VoteData) : VoteData :=
  { last with
    newView := last.newView || v.newView
    blockId := if bytes v.blockId ≠ [] ∧ bytes last.blockId = [] then v.blockId
      else last.blockId }

/-- Puts the vote into the store. The author's first vote is remembered; it is changed in place by
every later one. -/
def addVoteIfNeed (v : VoteData) : VotePool :=
  match vp.votes.lookup v.authorIdx with
  | none =>
    { vp with store := vp.store ++ [v], votes := vp.votes.insert v.authorIdx vp.store.length }
  | some ref => { vp with store := vp.store.modify ref (mergeVote · v) ++ [v] }

def blockVotes (blockId : Bytes) : GoMap ℕ ℕ := (vp.votedBlockId.lookup blockId).getD ∅

def addNewView (author ref minVotesForQc : ℕ) : VotePool :=
  let votedNewView := vp.votedNewView.insert author ref
  { vp with
    votedNewView := votedNewView
    lockedNewView := vp.lockedNewView || minVotesForQc ≤ votedNewView.keys.length }

def addBlockVote (blockId : Bytes) (author ref minVotesForQc : ℕ) : VotePool :=
  let votes := (vp.blockVotes blockId).insert author ref
  { vp with
    votedBlockId := vp.votedBlockId.insert blockId votes
    lockedBlockId :=
      if vp.lockedBlockId = none ∧ minVotesForQc ≤ votes.keys.length then some blockId
      else vp.lockedBlockId }

def insertVoteData (v : VoteData) (minVotesForQc : ℕ) : Except InsertError VotePool := do
  vp.checkDuplicationVote v
  let ref := vp.store.length
  let vp := vp.addVoteIfNeed v
  let vp := if v.newView then vp.addNewView v.authorIdx ref minVotesForQc else vp
  if bytes v.blockId = [] then .ok vp
  else .ok (vp.addBlockVote (bytes v.blockId) v.authorIdx ref minVotesForQc)

def checkVoteDone : Option (Option Bytes × Bool) :=
  match vp.lockedBlockId with
  | some blockId => some (some blockId, false)
  | none => if vp.lockedNewView then some (none, true) else none

def sortedVotes (m : GoMap ℕ ℕ) : List VoteData :=
  (m.keys.insertionSort (· ≤ ·)).filterMap fun author => (m.lookup author).bind vp.vote

def getQCVotes : List VoteData :=
  match vp.lockedBlockId with
  | some blockId =>
    if blockId ≠ [] then vp.sortedVotes (vp.blockVotes blockId)
    else if vp.lockedNewView then vp.sortedVotes vp.votedNewView else []
  | none => if vp.lockedNewView then vp.sortedVotes vp.votedNewView else []

variable {vp} {vp' : VotePool} {v : VoteData} {minVotesForQc : ℕ}

lemma insertVoteData_ok (h : vp.insertVoteData v minVotesForQc = .ok vp') :
    ∃ base : VotePool, base.votedBlockId = vp.votedBlockId ∧ base.lockedBlockId = vp.lockedBlockId ∧
      (bytes v.blockId = [] ∧ vp' = base ∨ bytes v.blockId ≠ [] ∧
        vp' = base.addBlockVote (bytes v.blockId) v.authorIdx vp.store.length minVotesForQc) := by
  have hadd : (vp.addVoteIfNeed v).votedBlockId = vp.votedBlockId ∧
      (vp.addVoteIfNeed v).lockedBlockId = vp.lockedBlockId := by
    unfold addVoteIfNeed
    split <;> exact ⟨rfl, rfl⟩
  obtain ⟨u, -, h⟩ := bind_ok.mp h
  refine ⟨if v.newView then (vp.addVoteIfNeed v).addNewView v.authorIdx vp.store.length
    minVotesForQc else vp.addVoteIfNeed v, ?_, ?_, ?_⟩
  · split_ifs <;> exact hadd.1
  · split_ifs <;> exact hadd.2
  dsimp only at h
  split at h
  case isTrue hnil => exact .inl ⟨hnil, (Except.ok.inj h).symm⟩
  case isFalse hne => exact .inr ⟨hne, (Except.ok.inj h).symm⟩

lemma blockVotes_addBlockVote (blockId id : Bytes) (author ref : ℕ) :
    (vp.addBlockVote blockId author ref minVotesForQc).blockVotes id =
      if id = blockId then (vp.blockVotes blockId).insert author ref else vp.blockVotes id := by
  unfold blockVotes addBlockVote
  rw [GoMap.lookup_insert_ite]
  split_ifs <;> rfl

lemma mem_blockVotes_insertVoteData (h : vp.insertVoteData v minVotesForQc = .ok vp')
    {x : ℕ} (hx : x ∈ (vp'.blockVotes id).keys) :
    x ∈ (vp.blockVotes id).keys ∨ v.blockId = some id ∧ x = v.authorIdx := by
  obtain ⟨base, hvoted, -, ⟨-, rfl⟩ | ⟨hne, rfl⟩⟩ := insertVoteData_ok h
  · rw [blockVotes, hvoted] at hx
    exact .inl hx
  rw [blockVotes_addBlockVote] at hx
  split_ifs at hx with hid
  · subst hid
    rcases AList.mem_insert _ |>.mp hx with rfl | hold
    · refine .inr ⟨?_, rfl⟩
      cases hv : v.blockId with
      | none => exact absurd (congrArg bytes hv) hne
      | some h => rfl
    · rw [blockVotes, hvoted] at hold
      exact .inl hold
  · rw [blockVotes, hvoted] at hx
    exact .inl hx

lemma length_keys_insert_ge (m : GoMap ℕ ℕ) (author ref : ℕ) :
    m.keys.length ≤ (m.insert author ref).keys.length := by
  rw [AList.keys_insert, List.length_cons, List.length_erase]
  split <;> omega

lemma locked_insertVoteData (h : vp.insertVoteData v minVotesForQc = .ok vp')
    (hlocked : ∀ id, vp.lockedBlockId = some id → minVotesForQc ≤ (vp.blockVotes id).keys.length)
    (hid : vp'.lockedBlockId = some id) : minVotesForQc ≤ (vp'.blockVotes id).keys.length := by
  obtain ⟨base, hvoted, hbase, ⟨-, rfl⟩ | ⟨hne, rfl⟩⟩ := insertVoteData_ok h
  · rw [blockVotes, hvoted]
    exact hlocked id (hbase ▸ hid)
  rw [blockVotes_addBlockVote]
  have hsame : ∀ id, base.blockVotes id = vp.blockVotes id := by
    intro id
    rw [blockVotes, hvoted]
    rfl
  unfold addBlockVote at hid
  dsimp only at hid
  split_ifs at hid with hlock
  · cases hid
    rw [if_pos rfl]
    exact hlock.2
  have hold := hlocked id (hbase ▸ hid)
  split_ifs with heq
  · subst heq
    rw [hsame]
    exact hold.trans (length_keys_insert_ge _ _ _)
  · rw [hsame]
    exact hold

end VotePool

structure ConsensusRound where
  msgs : GoMap ℕ VotePool
  proposals : GoMap ℕ ProposalData

def newConsensusRound : ConsensusRound := ⟨∅, ∅⟩

structure MsgPool where
  msgs : GoMap ℕ ConsensusRound
  cachedLen : ℕ
  minVotesForQc : ℕ

def newMsgPool (cachedLen minVotesForQc : ℕ) : MsgPool := ⟨∅, cachedLen, minVotesForQc⟩

namespace MsgPool
variable (mp : MsgPool) {height level : ℕ} {v : VoteData}

def round (height : ℕ) : ConsensusRound := (mp.msgs.lookup height).getD newConsensusRound

def votePool (height level : ℕ) : VotePool :=
  ((mp.round height).msgs.lookup level).getD newVotePool

def insertVote (height level : ℕ) (v : VoteData) : Except InsertError MsgPool := do
  let vp ← (mp.votePool height level).insertVoteData v mp.minVotesForQc
  let cr := { mp.round height with msgs := (mp.round height).msgs.insert level vp }
  .ok { mp with msgs := mp.msgs.insert height cr }

def getProposal (height level : ℕ) : Option ProposalData :=
  (mp.round height).proposals.lookup level

def insertProposal (height level : ℕ) (p : ProposalData) : Option MsgPool :=
  if (mp.getProposal height level).isSome then none
  else
    let proposals := (mp.round height).proposals.insert level p
    some { mp with msgs := mp.msgs.insert height { mp.round height with proposals := proposals } }

def checkVotesDone (height level : ℕ) : Option (Option Bytes × Bool) :=
  (mp.votePool height level).checkVoteDone

def getQCVotes (height level : ℕ) : List VoteData := (mp.votePool height level).getQCVotes

def onBlockSealed (height : ℕ) : MsgPool :=
  if height ≤ mp.cachedLen then mp
  else
    let toFreeHeight := mp.msgs.keys.filter (· < height - mp.cachedLen)
    { mp with msgs := toFreeHeight.foldl (fun m h => m.erase h) mp.msgs }

variable {mp} {mp' : MsgPool}

lemma votePool_congr {h : ℕ} (hr : (mp'.round h).msgs = (mp.round h).msgs) (level : ℕ) :
    mp'.votePool h level = mp.votePool h level := by
  unfold votePool
  rw [hr]

lemma round_insert (mp : MsgPool) (height h : ℕ) (cr : ConsensusRound) :
    ({ mp with msgs := mp.msgs.insert height cr } : MsgPool).round h =
      if h = height then cr else mp.round h := by
  unfold round
  rw [GoMap.lookup_insert_ite]
  split_ifs <;> rfl

lemma insertVote_ok (h : mp.insertVote height level v = .ok mp') :
    mp'.minVotesForQc = mp.minVotesForQc ∧
      ∃ vp, (mp.votePool height level).insertVoteData v mp.minVotesForQc = .ok vp ∧
      ∀ h' l', mp'.votePool h' l' = mp.votePool h' l' ∨ h' = height ∧ l' = level ∧
      mp'.votePool h' l' = vp := by
  obtain ⟨vp, hvp, h⟩ := bind_ok.mp h
  cases h
  refine ⟨rfl, vp, hvp, fun h' l' => ?_⟩
  by_cases hh : h' = height
  · subst hh
    unfold votePool
    rw [round_insert, if_pos rfl, GoMap.lookup_insert_ite]
    split_ifs with hl
    · exact .inr ⟨rfl, hl, rfl⟩
    · exact .inl rfl
  · refine .inl (votePool_congr ?_ l')
    rw [round_insert, if_neg hh]

lemma insertProposal_votes {p : ProposalData} (h : mp.insertProposal height level p = some mp') :
    mp'.minVotesForQc = mp.minVotesForQc ∧ ∀ h' l', mp'.votePool h' l' = mp.votePool h' l' := by
  simp only [insertProposal] at h
  split at h
  case isTrue => cases h
  cases h
  refine ⟨rfl, fun h' l' => votePool_congr ?_ l'⟩
  rw [round_insert]
  split_ifs with hh
  · rw [hh]
  · rfl

lemma onBlockSealed_votes (mp : MsgPool) (height : ℕ) :
    (mp.onBlockSealed height).minVotesForQc = mp.minVotesForQc ∧ ∀ h' l',
      (mp.onBlockSealed height).votePool h' l' = mp.votePool h' l' ∨
        (mp.onBlockSealed height).votePool h' l' = newVotePool := by
  unfold onBlockSealed
  split
  · exact ⟨rfl, fun h' l' => .inl rfl⟩
  refine ⟨rfl, fun h' l' => ?_⟩
  unfold votePool round
  rw [GoMap.lookup_foldl_erase]
  split_ifs
  · exact .inr rfl
  · exact .inl rfl

structure Collects (min : ℕ) (P : ℕ → Bytes → ℕ → ℕ → Prop) (mp : MsgPool) : Prop where
  min_eq : mp.minVotesForQc = min
  voters : ∀ height level id, ∀ x ∈ ((mp.votePool height level).blockVotes id).keys,
    P x id height level
  locked : ∀ height level id, (mp.votePool height level).lockedBlockId = some id →
    mp.minVotesForQc ≤ ((mp.votePool height level).blockVotes id).keys.length

namespace Collects
variable {min : ℕ} {P Q : ℕ → Bytes → ℕ → ℕ → Prop}

lemma mono (hPQ : ∀ x id height level, P x id height level → Q x id height level)
    (h : mp.Collects min P) : mp.Collects min Q :=
  ⟨h.min_eq, fun height level id x hx => hPQ _ _ _ _ (h.voters height level id x hx), h.locked⟩

lemma congr (h : mp.Collects min P) (hmin : mp'.minVotesForQc = mp.minVotesForQc)
    (hpool : ∀ height level, mp'.votePool height level = mp.votePool height level ∨
      mp'.votePool height level = newVotePool) : mp'.Collects min P where
  min_eq := hmin.trans h.min_eq
  voters := fun height level id x hx => by
    rcases hpool height level with hsame | hnew
    · exact h.voters height level id x (hsame ▸ hx)
    rw [hnew] at hx
    cases hx
  locked := fun height level id hid => by
    rcases hpool height level with hsame | hnew
    · rw [hmin, hsame]
      exact h.locked height level id (hsame ▸ hid)
    · rw [hnew] at hid
      cases hid

lemma insertVote (h : mp.Collects min P)
    (hv : ∀ id, v.blockId = some id → P v.authorIdx id v.height v.level)
    (hmp : mp.insertVote v.height v.level v = .ok mp') : mp'.Collects min P := by
  obtain ⟨hmin, vp, hvp, hpools⟩ := insertVote_ok hmp
  refine ⟨hmin.trans h.min_eq, fun height level id x hx => ?_, fun height level id hid => ?_⟩
  · rcases hpools height level with hsame | ⟨rfl, rfl, hnew⟩
    · exact h.voters height level id x (hsame ▸ hx)
    rw [hnew] at hx
    rcases VotePool.mem_blockVotes_insertVoteData hvp hx with hold | ⟨hid, rfl⟩
    · exact h.voters _ _ id x hold
    · exact hv id hid
  · rcases hpools height level with hsame | ⟨rfl, rfl, hnew⟩
    · rw [hmin, hsame]
      exact h.locked height level id (hsame ▸ hid)
    · rw [hnew] at hid ⊢
      rw [hmin]
      exact VotePool.locked_insertVoteData hvp (h.locked _ _) hid

end Collects
end MsgPool
end ChainMaker.ChainedBft
