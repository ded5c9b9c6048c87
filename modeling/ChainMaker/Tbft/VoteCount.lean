import ChainMaker.Tbft.VoteSet

/-! What a vote set knows: one vote per validator, each of the set's own type, height and round,
and behind a majority hash a quorum of them. -/

namespace ChainMaker.Tbft
open Option Finset List

namespace VoteSet

def Holds (vs : VoteSet) (v : Vote) : Prop :=
  (∃ k, vs.votes.lookup k = some v) ∨ ∃ hash k, (vs.blockVotes hash).votes.lookup k = some v

structure Wf (type : VoteType) (height : ℕ) (round : ℤ) (validators : ValidatorSet)
    (vs : VoteSet) : Prop where
  type_eq : vs.type = type
  height_eq : vs.height = height
  round_eq : vs.round = round
  validators_eq : vs.validators = validators
  entered : ∀ k v, vs.votes.lookup k = some v →
    v.voter = k ∧ vs.checkVoteMatched v = true ∧ k ∈ validators.validators
  counted : ∀ hash k v, (vs.blockVotes hash).votes.lookup k = some v →
    vs.votes.lookup k = some v ∧ v.hash.bytes = hash
  sum_eq : ∀ hash, (vs.blockVotes hash).sum = (vs.blockVotes hash).votes.keys.length
  majority : ∀ hash, vs.maj23 = some hash → validators.quorum ≤ (vs.blockVotes hash).sum

lemma blockVotes_newVoteSet (t : VoteType) (h : ℕ) (r : ℤ) (vals : ValidatorSet)
    (hash : Bytes) : (newVoteSet t h r vals).blockVotes hash = newBlockVotes := rfl

lemma Wf.new (t : VoteType) (h : ℕ) (r : ℤ) (vals : ValidatorSet) :
    (newVoteSet t h r vals).Wf t h r vals where
  type_eq := rfl
  height_eq := rfl
  round_eq := rfl
  validators_eq := rfl
  entered := by
    intro k v hv
    simp [newVoteSet] at hv
  counted := by
    intro hash k v hv
    simp [blockVotes_newVoteSet, newBlockVotes] at hv
  sum_eq := by simp [blockVotes_newVoteSet, newBlockVotes]
  majority := by simp [newVoteSet]

section
variable (vs : VoteSet)

section
variable (vote : Vote)

lemma blockVotes_count (hash : Bytes) : (vs.count vote).blockVotes hash =
      if hash = vote.hash.bytes then (vs.blockVotes hash).addVote vote
      else vs.blockVotes hash := by
  have hinsert : ((vs.votesByBlock.insert vote.hash.bytes
      ((vs.blockVotes vote.hash.bytes).addVote vote)).lookup hash).getD newBlockVotes =
      if hash = vote.hash.bytes then (vs.blockVotes hash).addVote vote
      else vs.blockVotes hash := by
    rw [GoMap.lookup_insert_ite]
    split_ifs with hh
    · rw [hh]
      rfl
    · rfl
  unfold count
  dsimp only
  split <;> exact hinsert

@[simp] lemma count_type : (vs.count vote).type = vs.type := by
  unfold count
  dsimp only
  split <;> rfl

@[simp] lemma count_height : (vs.count vote).height = vs.height := by
  unfold count
  dsimp only
  split <;> rfl

@[simp] lemma count_round : (vs.count vote).round = vs.round := by
  unfold count
  dsimp only
  split <;> rfl

@[simp] lemma count_validators : (vs.count vote).validators = vs.validators := by
  unfold count
  dsimp only
  split <;> rfl

lemma sum_count : (vs.count vote).sum = vs.sum + 1 := by
  unfold count
  dsimp only
  split <;> rfl

end

lemma checkVoteMatched_count (vote v : Vote) :
    (vs.count vote).checkVoteMatched v = vs.checkVoteMatched v := by
  simp [checkVoteMatched]

end

lemma maj23_count_of_some {vs : VoteSet} {hash : Bytes} (vote : Vote)
    (h : vs.maj23 = some hash) : (vs.count vote).maj23 = some hash := by
  unfold count
  simp [h]

lemma maj23_count {vs : VoteSet} {vote : Vote} {hash : Bytes}
    (h : (vs.count vote).maj23 = some hash) : vs.maj23 = some hash ∨
      vote.hash = some hash ∧ vs.validators.quorum ≤ (vs.blockVotes hash).sum + 1 := by
  unfold count at h
  dsimp only at h
  split at h
  case isFalse => exact .inl h
  case isTrue hmaj =>
  right
  have hhash : vote.hash = some hash := h
  have hbytes : vote.hash.bytes = hash := by rw [hhash]; rfl
  refine ⟨hhash, ?_⟩
  have hle := hmaj.2.1
  rwa [hbytes] at hle

namespace Wf
variable {t : VoteType} {h : ℕ} {r : ℤ} {vals : ValidatorSet} {vs : VoteSet} {v : Vote}

variable (hw : vs.Wf t h r vals)
include hw

lemma not_counted {k : NodeId} (hk : vs.votes.lookup k = none) (hash : Bytes) :
    (vs.blockVotes hash).votes.lookup k = none := by
  by_contra hne
  obtain ⟨v, hv⟩ := ne_none_iff_exists'.mp hne
  have := (hw.counted hash k v hv).1
  simp [hk] at this

lemma lookup_count (vote : Vote) (k : NodeId) :
    (vs.count vote).votes.lookup k = if k = vote.voter then some vote else vs.votes.lookup k := by
  rw [← GoMap.lookup_insert_ite]
  unfold count
  dsimp only
  split
  · refine GoMap.lookup_foldl_insert _ _ (fun e he => ?_) k
    obtain ⟨k, v⟩ := e
    have hv : ((vs.blockVotes vote.hash.bytes).votes.insert vote.voter vote).lookup k = some v :=
      GoMap.mem_entries.mp he
    rw [GoMap.lookup_insert_ite] at hv ⊢
    split_ifs at hv ⊢
    · exact hv
    · exact (hw.counted _ k v hv).1
  · rfl

lemma count {vote : Vote} (hmatch : vs.checkVoteMatched vote = true)
    (hval : vote.voter ∈ vals.validators) (hnew : vs.votes.lookup vote.voter = none) :
    (vs.count vote).Wf t h r vals where
  type_eq := by rw [count_type, hw.type_eq]
  height_eq := by rw [count_height, hw.height_eq]
  round_eq := by rw [count_round, hw.round_eq]
  validators_eq := by rw [count_validators, hw.validators_eq]
  entered := by
    intro k v hv
    rw [hw.lookup_count] at hv
    rw [checkVoteMatched_count]
    split at hv
    case isTrue hk =>
      cases hv
      exact ⟨hk.symm, hmatch, hk ▸ hval⟩
    case isFalse => exact hw.entered k v hv
  counted := by
    intro hash k v hv
    rw [blockVotes_count] at hv
    rw [hw.lookup_count]
    split_ifs at hv ⊢ with hk hhash hhash
    · rw [BlockVotes.addVote, GoMap.lookup_insert_ite, if_pos hk] at hv
      cases hv
      exact ⟨rfl, hhash.symm⟩
    · rw [hk, hw.not_counted hnew] at hv
      cases hv
    · rw [BlockVotes.addVote, GoMap.lookup_insert_ite, if_neg hk] at hv
      exact hw.counted hash k v hv
    · exact hw.counted hash k v hv
  sum_eq := by
    intro hash
    rw [blockVotes_count]
    split
    · have hlen := GoMap.length_keys_insert (v := vote) (hw.not_counted hnew hash)
      simp only [BlockVotes.addVote, hw.sum_eq hash, hlen]
    · exact hw.sum_eq hash
  majority := by
    intro hash hmaj
    rw [blockVotes_count]
    rcases maj23_count hmaj with hold | ⟨hhash, hle⟩
    · have := hw.majority hash hold
      split
      · simp only [BlockVotes.addVote]
        omega
      · exact this
    · rw [if_pos (by rw [hhash]; rfl), ← hw.validators_eq]
      exact hle

lemma holds {v : Vote} : vs.Holds v ↔ vs.votes.lookup v.voter = some v := by
  constructor
  · rintro (⟨k, hk⟩ | ⟨hash, k, hk⟩)
    · rwa [(hw.entered k v hk).1]
    · have hk := (hw.counted hash k v hk).1
      rwa [(hw.entered k v hk).1]
  · exact fun hv => .inl ⟨_, hv⟩

lemma matched (hv : vs.Holds v) :
    v.type = t ∧ v.height = h ∧ v.round = r ∧ v.voter ∈ vals.validators := by
  obtain ⟨-, hm, hmem⟩ := hw.entered _ v (hw.holds.mp hv)
  simp only [checkVoteMatched, hw.type_eq, hw.height_eq, hw.round_eq, Bool.and_eq_true,
    decide_eq_true_eq] at hm
  exact ⟨hm.1.1, hm.1.2, hm.2, hmem⟩

lemma exists_quorum {hash : Bytes} (hmaj : vs.maj23 = some hash) :
    ∃ A ⊆ vals.validators.toFinset, vals.quorum ≤ #A ∧
      ∀ i ∈ A, ∃ v, (vs.blockVotes hash).votes.lookup i = some v ∧ v.voter = i ∧
        v.hash.bytes = hash := by
  have hkey : ∀ i ∈ (vs.blockVotes hash).votes.keys,
      ∃ v, (vs.blockVotes hash).votes.lookup i = some v := fun i hi =>
    isSome_iff_exists.mp (AList.lookup_isSome.mpr hi)
  refine ⟨(vs.blockVotes hash).votes.keys.toFinset, fun i hi => ?_, ?_, fun i hi => ?_⟩
  · obtain ⟨v, hv⟩ := hkey i (mem_toFinset.mp hi)
    exact mem_toFinset.mpr (hw.entered i v (hw.counted hash i v hv).1).2.2
  · rw [toFinset_card_of_nodup (vs.blockVotes hash).votes.keys_nodup, ← hw.sum_eq]
    exact hw.majority hash hmaj
  · obtain ⟨v, hv⟩ := hkey i (mem_toFinset.mp hi)
    obtain ⟨hent, hbytes⟩ := hw.counted hash i v hv
    exact ⟨v, hv, (hw.entered i v hent).1, hbytes⟩

lemma holds_count {vote : Vote} (hmatch : vs.checkVoteMatched vote = true)
    (hval : vote.voter ∈ vals.validators) (hnew : vs.votes.lookup vote.voter = none) :
    (vs.count vote).Holds v ↔ vs.Holds v ∨ v = vote := by
  rw [(hw.count hmatch hval hnew).holds, hw.lookup_count, hw.holds]
  split
  case isTrue hk =>
    rw [hk, hnew]
    constructor
    · exact fun h => .inr (some.inj h).symm
    · rintro (h | rfl)
      · cases h
      · rfl
  case isFalse hk =>
  constructor
  · exact .inl
  · rintro (h | rfl)
    · exact h
    · exact absurd rfl hk

end Wf

lemma addVote_cases (vs : VoteSet) (vote : Vote) :
    (vs.addVote vote).1 = vs ∧ (vs.addVote vote).2 ≠ .ok true ∨
      vs.checkVoteMatched vote = true ∧ vote.voter ∈ vs.validators.validators ∧
        vs.votes.lookup vote.voter = none ∧ vs.addVote vote = (vs.count vote, .ok true) := by
  unfold addVote
  split
  case isTrue => exact .inl ⟨rfl, nofun⟩
  case isFalse hmatch =>
  split
  case isTrue => exact .inl ⟨rfl, nofun⟩
  case isFalse hval =>
  split
  case h_1 v hv =>
    split
    · exact .inl ⟨rfl, nofun⟩
    · exact .inl ⟨rfl, nofun⟩
  case h_2 hnew =>
    simp only [Bool.not_eq_true', Bool.not_eq_false, ValidatorSet.hasValidator,
      contains_iff_mem] at hmatch hval
    exact .inr ⟨hmatch, hval, hnew, rfl⟩

section
variable {t : VoteType} {h : ℕ} {r : ℤ} {vals : ValidatorSet} {vs : VoteSet}

lemma Wf.addVote (hw : vs.Wf t h r vals) (vote : Vote) : (vs.addVote vote).1.Wf t h r vals := by
  rcases addVote_cases vs vote with ⟨heq, -⟩ | ⟨hmatch, hval, hnew, heq⟩
  · rwa [heq]
  rw [heq]
  exact hw.count hmatch (hw.validators_eq ▸ hval) hnew

lemma Wf.holds_addVote (hw : vs.Wf t h r vals) {vote v : Vote} (hv : (vs.addVote vote).1.Holds v) :
    vs.Holds v ∨ v = vote ∧ (vs.addVote vote).2 = .ok true := by
  rcases addVote_cases vs vote with ⟨heq, -⟩ | ⟨hmatch, hval, hnew, heq⟩
  · exact .inl (heq ▸ hv)
  rw [heq] at hv ⊢
  rcases (hw.holds_count hmatch (hw.validators_eq ▸ hval) hnew).mp hv with hv | rfl
  · exact .inl hv
  · exact .inr ⟨rfl, rfl⟩

lemma maj23_addVote_of_some {hash : Bytes} (hmaj : vs.maj23 = some hash) (vote : Vote) :
    (vs.addVote vote).1.maj23 = some hash := by
  rcases addVote_cases vs vote with ⟨heq, -⟩ | ⟨-, -, -, heq⟩
  · rwa [heq]
  rw [heq]
  exact maj23_count_of_some vote hmaj

lemma Wf.foldl_addVote (hw : vs.Wf t h r vals) (votes : List (NodeId × Vote)) :
    (votes.foldl (fun vs e => (vs.addVote e.2).1) vs).Wf t h r vals ∧
      ∀ v, (votes.foldl (fun vs e => (vs.addVote e.2).1) vs).Holds v →
        vs.Holds v ∨ ∃ k, (k, v) ∈ votes := by
  induction votes generalizing vs with
  | nil => exact ⟨hw, fun v hv => .inl hv⟩
  | cons e votes ih =>
    obtain ⟨hwf, hholds⟩ := ih (hw.addVote e.2)
    refine ⟨hwf, fun v hv => ?_⟩
    rcases hholds v hv with hv | ⟨k, hk⟩
    · rcases hw.holds_addVote hv with hv | ⟨rfl, -⟩
      · exact .inl hv
      · exact .inr ⟨e.1, mem_cons_self⟩
    · exact .inr ⟨k, mem_cons_of_mem _ hk⟩

end

lemma not_holds_new (t : VoteType) (h : ℕ) (r : ℤ) (vals : ValidatorSet) (v : Vote) :
    ¬(newVoteSet t h r vals).Holds v := by
  rw [(Wf.new t h r vals).holds]
  simp [newVoteSet]

end VoteSet

lemma newVoteSetFromProto_wf (p : VoteSetProto) (vals : ValidatorSet) :
    (newVoteSetFromProto p vals).Wf p.type p.height p.round vals :=
  ((VoteSet.Wf.new p.type p.height p.round vals).foldl_addVote p.votes).1

lemma newVoteSetFromProto_holds {p : VoteSetProto} {vals : ValidatorSet} {v : Vote}
    (hv : (newVoteSetFromProto p vals).Holds v) : ∃ k, (k, v) ∈ p.votes := by
  rcases ((VoteSet.Wf.new p.type p.height p.round vals).foldl_addVote p.votes).2 v hv with hv | hv
  · exact absurd hv (VoteSet.not_holds_new _ _ _ _ v)
  · exact hv

namespace HeightRoundVoteSet
variable {hvs hvs' : HeightRoundVoteSet} {vals : ValidatorSet} {vote : Vote}
  {res : Except VoteError Bool} {t : VoteType}

def voteSet (hvs : HeightRoundVoteSet) (round : ℤ) (voteType : VoteType) : VoteSet :=
  (hvs.getVoteSet round voteType).getD (newVoteSet voteType hvs.height round hvs.validators)

def Holds (hvs : HeightRoundVoteSet) (v : Vote) : Prop := ∃ r t, (hvs.voteSet r t).Holds v

structure Wf (vals : ValidatorSet) (hvs : HeightRoundVoteSet) : Prop where
  validators_eq : hvs.validators = vals
  voteSet : ∀ r t, (hvs.voteSet r t).Wf t hvs.height r vals

lemma voteSet_new (h : ℕ) (r : ℤ) (vals : ValidatorSet) (r' : ℤ) (t : VoteType) :
    (newHeightRoundVoteSet h r vals).voteSet r' t = newVoteSet t h r' vals := by
  simp [voteSet, getVoteSet, getRoundVoteSet, newHeightRoundVoteSet]

lemma Wf.new (h : ℕ) (r : ℤ) (vals : ValidatorSet) : (newHeightRoundVoteSet h r vals).Wf vals where
  validators_eq := rfl
  voteSet := by
    intro r' t
    rw [voteSet_new]
    exact VoteSet.Wf.new t h r' vals

lemma not_holds_new (h : ℕ) (r : ℤ) (vals : ValidatorSet) (v : Vote) :
    ¬(newHeightRoundVoteSet h r vals).Holds v := by
  rintro ⟨r', t, hv⟩
  exact VoteSet.not_holds_new _ _ _ _ v hv

lemma twoThirdsMajority_getVoteSet (hvs : HeightRoundVoteSet) (r : ℤ) (t : VoteType) :
    twoThirdsMajority (hvs.getVoteSet r t) = (hvs.voteSet r t).maj23 := by
  unfold twoThirdsMajority voteSet
  cases hvs.getVoteSet r t with
  | none | some => rfl

lemma get_newRound (hvs : HeightRoundVoteSet) (r : ℤ) (t : VoteType) :
    ((hvs.newRound r).get t).getD (newVoteSet t hvs.height r hvs.validators) =
      newVoteSet t hvs.height r hvs.validators := by
  cases t <;> rfl

lemma get_set (rvs : RoundVoteSet) {vs : VoteSet} (ht : rvs.get t = some vs) (vs' : VoteSet)
    (t' : VoteType) : (rvs.set t vs').get t' = if t' = t then some vs' else rvs.get t' := by
  cases t <;> cases t' <;> simp_all [RoundVoteSet.get, RoundVoteSet.set]

lemma voteSet_addVote (h : hvs.addVote vote = some (hvs', res)) :
    hvs'.height = hvs.height ∧ hvs'.validators = hvs.validators ∧
      res = ((hvs.voteSet vote.round vote.type).addVote vote).2 ∧ ∀ r t, hvs'.voteSet r t =
        if r = vote.round ∧ t = vote.type then ((hvs.voteSet r t).addVote vote).1
        else hvs.voteSet r t := by
  have hold : ∀ t, (((hvs.getRoundVoteSet vote.round).getD (hvs.newRound vote.round)).get t).getD
      (newVoteSet t hvs.height vote.round hvs.validators) = hvs.voteSet vote.round t := by
    intro t
    unfold voteSet getVoteSet
    cases hvs.getRoundVoteSet vote.round with
    | none => exact get_newRound hvs vote.round t
    | some rvs => rfl
  simp only [addVote, bind_eq_bind, bind_eq_some_iff, Option.pure_def,
    some.injEq, Prod.mk.injEq] at h
  obtain ⟨vs, hvs0, rfl, rfl⟩ := h
  have hvs1 := hold vote.type
  rw [hvs0, getD_some] at hvs1
  subst hvs1
  refine ⟨rfl, rfl, rfl, fun r t => ?_⟩
  by_cases hr : r = vote.round
  · subst hr
    have hget := get_set _ hvs0 ((hvs.voteSet vote.round vote.type).addVote vote).1 t
    simp only [voteSet, getVoteSet, getRoundVoteSet, AList.lookup_insert, bind_some,
      true_and] at hget ⊢
    rw [hget]
    by_cases ht : t = vote.type
    · subst ht
      simp
    · rw [if_neg ht, if_neg ht]
      exact hold t
  · simp [hr, voteSet, getVoteSet, getRoundVoteSet, AList.lookup_insert_ne hr]

lemma Wf.addVote (hw : hvs.Wf vals) (h : hvs.addVote vote = some (hvs', res)) : hvs'.Wf vals := by
  obtain ⟨hheight, hvals, -, hset⟩ := voteSet_addVote h
  refine ⟨hvals.trans hw.validators_eq, fun r t => ?_⟩
  rw [hset, hheight]
  split
  · exact (hw.voteSet r t).addVote vote
  · exact hw.voteSet r t

lemma Wf.holds_addVote (hw : hvs.Wf vals) (h : hvs.addVote vote = some (hvs', res)) {v : Vote}
    (hv : hvs'.Holds v) : hvs.Holds v ∨ v = vote ∧ res = .ok true := by
  obtain ⟨-, -, rfl, hset⟩ := voteSet_addVote h
  obtain ⟨r, t, hv⟩ := hv
  rw [hset] at hv
  split at hv
  case isFalse => exact .inl ⟨r, t, hv⟩
  case isTrue heq =>
  obtain ⟨rfl, rfl⟩ := heq
  rcases (hw.voteSet _ _).holds_addVote hv with hv | hv
  · exact .inl ⟨_, _, hv⟩
  · exact .inr hv

lemma maj23_addVote_of_some (h : hvs.addVote vote = some (hvs', res)) {r : ℤ} {hash : Bytes}
    (hmaj : (hvs.voteSet r t).maj23 = some hash) : (hvs'.voteSet r t).maj23 = some hash := by
  rw [(voteSet_addVote h).2.2.2]
  split
  · exact VoteSet.maj23_addVote_of_some hmaj vote
  · exact hmaj

end HeightRoundVoteSet
end ChainMaker.Tbft
