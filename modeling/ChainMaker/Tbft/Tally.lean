import ChainMaker.Lib.FirstBy
import ChainMaker.Tbft.VoteCount

/-! The four structures of a vote set against the one list they are made from: the first vote
of each validator, in the order in which the votes came. -/

namespace ChainMaker.Tbft
open Option List FirstBy ValidatorSet

def votesFor (hash : Bytes) (A : List Vote) : List Vote := A.filter (·.hash.bytes = hash)

def Eligible (type : VoteType) (height : ℕ) (round : ℤ) (vals : ValidatorSet) (v : Vote) : Bool :=
  v.type = type && v.height = height && v.round = round && vals.hasValidator v.voter

lemma mem_votesFor {hash : Bytes} {A : List Vote} {v : Vote} :
    v ∈ votesFor hash A ↔ v ∈ A ∧ v.hash.bytes = hash := by
  simp [votesFor]

lemma votesFor_append (hash : Bytes) (A B : List Vote) :
    votesFor hash (A ++ B) = votesFor hash A ++ votesFor hash B := filter_append ..

lemma votesFor_concat (hash : Bytes) (A : List Vote) (v : Vote) :
    votesFor hash (A ++ [v]) = if hash = v.hash.bytes then votesFor hash A ++ [v]
      else votesFor hash A := by
  by_cases hv : hash = v.hash.bytes
  · simp [votesFor, hv]
  · simp [votesFor, hv, Ne.symm hv]

lemma length_votesFor_add_le {h h' : Bytes} (hne : h ≠ h') (A : List Vote) :
    (votesFor h A).length + (votesFor h' A).length ≤ A.length := by
  have hsplit := length_eq_countP_add_countP (fun v : Vote => decide (v.hash.bytes = h))
    (l := A)
  have hle : (votesFor h' A).length ≤
      A.countP fun v => decide ¬(decide (v.hash.bytes = h) = true) := by
    rw [votesFor, ← countP_eq_length_filter]
    refine countP_mono_left fun v _ hv => ?_
    simp only [decide_eq_true_eq] at hv ⊢
    exact fun heq => hne (heq.symm.trans hv)
  rw [votesFor, ← countP_eq_length_filter]
  omega

lemma lookup_concat {m : GoMap NodeId Vote} {A : List Vote} {vote : Vote}
    (hm : ∀ k v, m.lookup k = some v ↔ v ∈ A ∧ v.voter = k)
    (hvoter : vote.voter ∉ A.map (·.voter)) (k : NodeId) (v : Vote) :
    (if k = vote.voter then some vote else m.lookup k) = some v ↔
      v ∈ A ++ [vote] ∧ v.voter = k := by
  rw [mem_append, mem_singleton]
  split
  case isTrue hk =>
    subst hk
    refine ⟨fun hv => ⟨.inr (some.inj hv).symm, by rw [some.inj hv]⟩, ?_⟩
    rintro ⟨hv | rfl, heq⟩
    · exact absurd (heq ▸ mem_map_of_mem hv) hvoter
    · rfl
  case isFalse hk =>
  rw [hm k v]
  refine and_congr_left fun heq => (or_iff_left ?_).symm
  rintro rfl
  exact hk heq.symm

namespace VoteSet

/-- The vote set made of the votes in `A`, one of each voter, in this order. A hash has the
majority when the vote for it that completes the quorum carries it, and not a nil slice. -/
structure Tallies (type : VoteType) (height : ℕ) (round : ℤ) (vals : ValidatorSet)
    (A : List Vote) (vs : VoteSet) : Prop where
  wf : vs.Wf type height round vals
  nodup : (A.map (·.voter)).Nodup
  entered : ∀ k v, vs.votes.lookup k = some v ↔ v ∈ A ∧ v.voter = k
  counted : ∀ hash k v, (vs.blockVotes hash).votes.lookup k = some v ↔
    v ∈ votesFor hash A ∧ v.voter = k
  bucket : ∀ hash, (vs.votesByBlock.lookup hash).isSome ↔ votesFor hash A ≠ []
  sum_eq : vs.sum = A.length
  blockSum : ∀ hash, (vs.blockVotes hash).sum = (votesFor hash A).length
  majority : ∀ hash, vs.maj23 = some hash ↔
    ∃ v, (votesFor hash A)[vals.quorum - 1]? = some v ∧ v.hash = some hash

lemma maj23_count_eq (vs : VoteSet) (vote : Vote) :
    (vs.count vote).maj23 = if (vs.blockVotes vote.hash.bytes).sum + 1 = vs.validators.quorum ∧
      vs.maj23 = none then vote.hash else vs.maj23 := by
  have hcross : ((vs.blockVotes vote.hash.bytes).sum < vs.validators.quorum ∧
      vs.validators.quorum ≤ (vs.blockVotes vote.hash.bytes).sum + 1 ∧ vs.maj23 = none) ↔
      (vs.blockVotes vote.hash.bytes).sum + 1 = vs.validators.quorum ∧ vs.maj23 = none := by
    rw [← and_assoc]
    exact and_congr_left fun _ => by omega
  unfold count
  simp only [BlockVotes.addVote, hcross]
  split <;> rfl

lemma isSome_lookup_count (vs : VoteSet) (vote : Vote) (hash : Bytes) :
    ((vs.count vote).votesByBlock.lookup hash).isSome =
      (hash = vote.hash.bytes || (vs.votesByBlock.lookup hash).isSome) := by
  have hinsert : ∀ b, ((vs.votesByBlock.insert vote.hash.bytes b).lookup hash).isSome =
      (hash = vote.hash.bytes || (vs.votesByBlock.lookup hash).isSome) := by
    intro b
    rw [GoMap.lookup_insert_ite]
    split_ifs with hh <;> simp [hh]
  unfold count
  dsimp only
  split <;> exact hinsert _

lemma addVote_fst (vs : VoteSet) (vote : Vote) : (vs.addVote vote).1 =
      if vs.checkVoteMatched vote ∧ vs.validators.hasValidator vote.voter ∧
        vs.votes.lookup vote.voter = none then vs.count vote else vs := by
  unfold addVote
  cases vs.checkVoteMatched vote with
  | false => simp
  | true =>
    cases vs.validators.hasValidator vote.voter with
    | false => simp
    | true =>
      cases vs.votes.lookup vote.voter with
      | none => simp
      | some v =>
        simp only [Bool.not_true, Bool.false_eq_true, if_false, reduceCtorEq, and_false]
        split <;> rfl

namespace Tallies
variable {t : VoteType} {h : ℕ} {r : ℤ} {vals : ValidatorSet} {A : List Vote} {vs : VoteSet}
  {hash : Bytes} {v : Vote}

lemma new (t : VoteType) (h : ℕ) (r : ℤ) (vals : ValidatorSet) :
    (newVoteSet t h r vals).Tallies t h r vals [] where
  wf := Wf.new t h r vals
  nodup := nodup_nil
  entered := by simp [newVoteSet]
  counted := by simp [blockVotes_newVoteSet, newBlockVotes, votesFor]
  bucket := by simp [newVoteSet, votesFor]
  sum_eq := rfl
  blockSum := fun _ => rfl
  majority := by simp [newVoteSet, votesFor]

section
variable (hT : vs.Tallies t h r vals A) {vote : Vote}
include hT

lemma voter_mem (hv : v ∈ A) : v.voter ∈ vals.validators :=
  (hT.wf.entered v.voter v ((hT.entered _ v).mpr ⟨hv, rfl⟩)).2.2

lemma quorum_le (hmaj : vs.maj23 = some hash) : vals.quorum ≤ (votesFor hash A).length :=
  hT.blockSum hash ▸ hT.wf.majority hash hmaj

lemma lookup_none {k : NodeId} : vs.votes.lookup k = none ↔ k ∉ A.map (·.voter) := by
  rw [eq_none_iff_forall_ne_some]
  simp [hT.entered]

lemma maj23_eq_none (hlen : A.length < vals.size)
    (hcross : (votesFor vote.hash.bytes A).length + 1 = vals.quorum) : vs.maj23 = none := by
  rw [eq_none_iff_forall_ne_some]
  intro hash hmaj
  have hquorum := hT.quorum_le hmaj
  have hne : hash ≠ vote.hash.bytes := by
    rintro rfl
    omega
  have hle := length_votesFor_add_le hne A
  have hq : vals.quorum = vals.size * 2 / 3 + 1 := rfl
  omega

lemma majority_count (hlen : A.length < vals.size) (hash : Bytes) :
    (vs.count vote).maj23 = some hash ↔
      ∃ v, (votesFor hash (A ++ [vote]))[vals.quorum - 1]? = some v ∧ v.hash = some hash := by
  have hpos : 0 < vals.quorum := Nat.succ_pos _
  have hbytes : ∀ {hash : Bytes}, vote.hash = some hash → hash = vote.hash.bytes :=
    fun hv => by rw [hv]; rfl
  rw [maj23_count_eq, hT.wf.validators_eq, hT.blockSum, votesFor_concat]
  by_cases hcross : (votesFor vote.hash.bytes A).length + 1 = vals.quorum
  · have hnone := hT.maj23_eq_none hlen hcross
    rw [if_pos ⟨hcross, hnone⟩]
    have hold := hT.majority hash
    simp only [hnone, reduceCtorEq, false_iff] at hold
    split
    case isFalse hh =>
      exact iff_of_false (fun hv => hh (hbytes hv)) hold
    case isTrue hh =>
    -- the vote itself stands where the quorum is complete
    have hlast : vals.quorum - 1 = (votesFor hash A).length := by
      rw [hh]
      omega
    simp [hlast]
  · rw [if_neg fun hc => hcross hc.1, hT.majority hash]
    split
    case isFalse => exact Iff.rfl
    case isTrue hh =>
    have hidx : vals.quorum - 1 ≠ (votesFor hash A).length := by
      rw [hh]
      omega
    have hsame : (votesFor hash A ++ [vote])[vals.quorum - 1]? =
        (votesFor hash A)[vals.quorum - 1]? := by
      rcases Nat.lt_or_gt_of_ne hidx with hlt | hgt
      · exact getElem?_append_left hlt
      rw [getElem?_eq_none hgt.le, getElem?_eq_none]
      rw [length_append, length_singleton]
      exact hgt
    rw [hsame]

lemma count {vote : Vote} (hmatch : vs.checkVoteMatched vote = true)
    (hval : vote.voter ∈ vals.validators) (hnew : vs.votes.lookup vote.voter = none) :
    (vs.count vote).Tallies t h r vals (A ++ [vote]) := by
  have hvoter := hT.lookup_none.mp hnew
  have hnodup : ((A ++ [vote]).map (·.voter)).Nodup := by
    rw [map_append, map_singleton, ← concat_eq_append]
    exact hT.nodup.concat hvoter
  have hlen : A.length < vals.size := by
    have hsub : ∀ k ∈ (A ++ [vote]).map (·.voter), k ∈ vals.validators :=
      forall_mem_map.mpr (forall_mem_concat (fun _ hv => hT.voter_mem hv) hval)
    simpa [size, Nat.succ_le_iff] using (hnodup.subperm hsub).length_le
  refine ⟨hT.wf.count hmatch hval hnew, hnodup, ?_, ?_, ?_, ?_, ?_, hT.majority_count hlen⟩
  · intro k v
    rw [hT.wf.lookup_count]
    exact lookup_concat hT.entered hvoter k v
  · intro hash k v
    rw [blockVotes_count, votesFor_concat]
    split
    case isTrue =>
      have hvoter' : vote.voter ∉ (votesFor hash A).map (·.voter) := fun hk =>
        hvoter ((filter_sublist.map _).subset hk)
      rw [← lookup_concat (hT.counted hash) hvoter', BlockVotes.addVote, GoMap.lookup_insert_ite]
    case isFalse => exact hT.counted hash k v
  · intro hash
    rw [isSome_lookup_count, votesFor_concat]
    split
    case isTrue hh => simp [hh]
    case isFalse hh => simpa [hh] using hT.bucket hash
  · rw [sum_count, hT.sum_eq, length_append, length_singleton]
  · intro hash
    rw [blockVotes_count, votesFor_concat]
    split
    case isTrue => rw [BlockVotes.addVote, hT.blockSum, length_append, length_singleton]
    case isFalse => exact hT.blockSum hash

lemma addVote (vote : Vote) : (vs.addVote vote).1.Tallies t h r vals
      (if Eligible t h r vals vote ∧ vote.voter ∉ A.map (·.voter) then A ++ [vote] else A) := by
  have hcond : (Eligible t h r vals vote ∧ vote.voter ∉ A.map (·.voter)) ↔
      vs.checkVoteMatched vote ∧ vs.validators.hasValidator vote.voter ∧
        vs.votes.lookup vote.voter = none := by
    rw [hT.lookup_none, hT.wf.validators_eq, checkVoteMatched, hT.wf.type_eq, hT.wf.height_eq,
      hT.wf.round_eq, ← and_assoc, ← Bool.and_eq_true]
    rfl
  rw [addVote_fst]
  by_cases hadd : Eligible t h r vals vote ∧ vote.voter ∉ A.map (·.voter)
  · obtain ⟨hmatch, hval, hnew⟩ := hcond.mp hadd
    rw [if_pos hadd, if_pos ⟨hmatch, hval, hnew⟩]
    exact hT.count hmatch (hT.wf.validators_eq ▸ contains_iff_mem.mp hval) hnew
  · rwa [if_neg hadd, if_neg fun hc => hadd (hcond.mpr hc)]

end

lemma foldl_addVote (t : VoteType) (h : ℕ) (r : ℤ) (vals : ValidatorSet) (votes : List Vote) :
    (votes.foldl (fun vs v => (vs.addVote v).1) (newVoteSet t h r vals)).Tallies t h r vals
      (firsts (·.voter) (votes.filter (Eligible t h r vals))) := by
  induction votes using reverseRecOn with
  | nil => exact new t h r vals
  | append_singleton votes vote ih =>
    have hT := ih.addVote vote
    rw [foldl_append, filter_append]
    simp only [mem_map_firsts] at hT
    by_cases he : Eligible t h r vals vote = true
    · rw [filter_cons_of_pos he, filter_nil, firsts_concat]
      by_cases hk : vote.voter ∈ (votes.filter (Eligible t h r vals)).map (·.voter)
      · rw [if_pos hk]
        rwa [if_neg fun hc => hc.2 hk] at hT
      · rw [if_neg hk]
        rwa [if_pos ⟨he, hk⟩] at hT
    · rw [filter_cons_of_neg he, filter_nil, append_nil]
      rwa [if_neg fun hc => he hc.1] at hT

lemma lookup_bucket (hT : vs.Tallies t h r vals A)
    (hv : v ∈ votesFor hash A) : vs.votesByBlock.lookup hash = some (vs.blockVotes hash) := by
  have hsome := (hT.bucket hash).mpr (ne_nil_of_mem hv)
  obtain ⟨b, hb⟩ := isSome_iff_exists.mp hsome
  rw [blockVotes, hb]
  rfl

lemma length_keys (hT : vs.Tallies t h r vals A) : vs.votes.keys.length = A.length := by
  have hperm : vs.votes.keys.Perm (A.map (·.voter)) := by
    rw [perm_ext_iff_of_nodup vs.votes.keys_nodup hT.nodup]
    intro k
    rw [← AList.mem_keys, ← AList.lookup_isSome, Option.isSome_iff_exists, List.mem_map]
    simp only [hT.entered]
  rw [hperm.length_eq, length_map]

end Tallies

structure Consistent (type : VoteType) (height : ℕ) (round : ℤ) (vals : ValidatorSet)
    (vs : VoteSet) : Prop where
  sum_eq : vs.sum = vs.votes.keys.length
  bucket : ∀ hash k v, (∃ b, vs.votesByBlock.lookup hash = some b ∧ b.votes.lookup k = some v) ↔
    vs.votes.lookup k = some v ∧ v.hash.bytes = hash
  bucket_ne : ∀ hash b, vs.votesByBlock.lookup hash = some b → b.votes.keys ≠ []
  bucket_sum : ∀ hash b, vs.votesByBlock.lookup hash = some b → b.sum = b.votes.keys.length
  voter : ∀ k v, vs.votes.lookup k = some v → v.voter = k ∧ k ∈ vals.validators ∧
    v.type = type ∧ v.height = height ∧ v.round = round
  majority : ∀ hash, vs.maj23 = some hash ↔
    ∃ b, vs.votesByBlock.lookup hash = some b ∧ vals.size * 2 / 3 + 1 ≤ b.sum

section
variable {t : VoteType} {h : ℕ} {r : ℤ} {vals : ValidatorSet} {A : List Vote} {vs : VoteSet}

lemma blockVotes_of_lookup {hash : Bytes} {b : BlockVotes}
    (hb : vs.votesByBlock.lookup hash = some b) : vs.blockVotes hash = b := by
  rw [blockVotes, hb]
  rfl

lemma Tallies.majority_iff (hT : vs.Tallies t h r vals A) (hne : ∀ v ∈ A, v.hash.bytes ≠ [])
    (hash : Bytes) : vs.maj23 = some hash ↔ vals.quorum ≤ (votesFor hash A).length := by
  refine ⟨hT.quorum_le, fun hle => (hT.majority hash).mpr ?_⟩
  have hlt : vals.quorum - 1 < (votesFor hash A).length :=
    Nat.lt_of_lt_of_le (Nat.sub_lt (Nat.succ_pos _) Nat.one_pos) hle
  refine ⟨(votesFor hash A)[vals.quorum - 1], getElem?_eq_getElem hlt, ?_⟩
  obtain ⟨hv, hbytes⟩ := mem_votesFor.mp (getElem_mem hlt)
  generalize (votesFor hash A)[vals.quorum - 1] = v at hv hbytes
  have hnonempty := hne v hv
  cases hhash : v.hash with
  | none => simp [hhash, Hash.bytes] at hnonempty
  | some bytes =>
    rw [hhash] at hbytes
    exact congrArg some hbytes

lemma Tallies.consistent (hT : vs.Tallies t h r vals A) (hne : ∀ v ∈ A, v.hash.bytes ≠ []) :
    vs.Consistent t h r vals where
  sum_eq := hT.sum_eq.trans hT.length_keys.symm
  bucket := by
    intro hash k v
    rw [hT.entered, and_right_comm, ← mem_votesFor, ← hT.counted]
    constructor
    · rintro ⟨b, hb, hv⟩
      rwa [blockVotes_of_lookup hb]
    · intro hv
      exact ⟨_, hT.lookup_bucket ((hT.counted hash k v).mp hv).1, hv⟩
  bucket_ne := by
    intro hash b hb hkeys
    obtain rfl := blockVotes_of_lookup hb
    have hlen := hT.wf.sum_eq hash
    rw [hkeys, hT.blockSum] at hlen
    exact (hT.bucket hash).mp (isSome_of_eq_some hb) (length_eq_zero_iff.mp hlen)
  bucket_sum := by
    intro hash b hb
    obtain rfl := blockVotes_of_lookup hb
    exact hT.wf.sum_eq hash
  voter := by
    intro k v hv
    obtain ⟨htype, hheight, hround, hval⟩ := hT.wf.matched (.inl ⟨k, hv⟩)
    have hvoter := (hT.wf.entered k v hv).1
    exact ⟨hvoter, hvoter ▸ hval, htype, hheight, hround⟩
  majority := by
    intro hash
    rw [hT.majority_iff hne, ← hT.blockSum]
    constructor
    · intro hle
      have hpos : 0 < (votesFor hash A).length :=
        hT.blockSum hash ▸ Nat.lt_of_lt_of_le (Nat.succ_pos _) hle
      obtain ⟨v, hv⟩ := exists_mem_of_length_pos hpos
      exact ⟨_, hT.lookup_bucket hv, hle⟩
    · rintro ⟨b, hb, hle⟩
      rwa [blockVotes_of_lookup hb]

end

lemma maj23_foldl_addVote {vs : VoteSet} {hash : Bytes} (hmaj : vs.maj23 = some hash)
    (votes : List Vote) : (votes.foldl (fun vs v => (vs.addVote v).1) vs).maj23 = some hash := by
  induction votes generalizing vs with
  | nil => exact hmaj
  | cons vote votes ih => exact ih (maj23_addVote_of_some hmaj vote)

theorem addVotes_consistent (type : VoteType) (height : ℕ) (round : ℤ) (vals : ValidatorSet)
    (votes : List Vote) (hne : ∀ v ∈ votes, v.hash.bytes ≠ []) :
    let vs := votes.foldl (fun vs v => (vs.addVote v).1) (newVoteSet type height round vals)
    vs.Consistent type height round vals ∧
      (∀ hash, vs.maj23 = some hash →
        ∀ later : List Vote, (later.foldl (fun vs v => (vs.addVote v).1) vs).maj23 = some hash) ∧
      ∀ vote, (vs.addVote vote).2 ≠ .ok true → (vs.addVote vote).1 = vs := by
  intro vs
  have hT := Tallies.foldl_addVote type height round vals votes
  refine ⟨hT.consistent fun v hv => hne v ?_, fun hash hmaj => maj23_foldl_addVote hmaj, ?_⟩
  · exact (filter_sublist.subset ((firsts_sublist _).subset hv))
  intro vote hres
  rcases addVote_cases vs vote with ⟨heq, -⟩ | ⟨-, -, -, heq⟩
  · exact heq
  · exact absurd (congrArg Prod.snd heq) hres

def precommitOf (voter : UInt8) (hash : Bytes) : Vote :=
  ⟨.precommit, [voter], 5, 0, some hash, none⟩

theorem addVotes_consistent_majority :
    let vals : ValidatorSet := ⟨[[0], [1], [2], [3]], 1⟩
    let vs := [precommitOf 0 [7], precommitOf 1 [8], precommitOf 0 [8], precommitOf 2 [7],
      precommitOf 3 [7]].foldl (fun vs v => (vs.addVote v).1) (newVoteSet .precommit 5 0 vals)
    vs.Consistent .precommit 5 0 vals ∧ vs.maj23 = some [7] ∧ vs.sum = 4 := by
  intro vals vs
  exact ⟨(addVotes_consistent .precommit 5 0 vals _ (by decide)).1, by decide +kernel,
    by decide +kernel⟩

def unvoted (vs : VoteSet) : List NodeId :=
  vs.validators.validators.filter fun k => (vs.votes.lookup k).isNone

def assigned (vs : VoteSet) (f : NodeId → Hash) : VoteSet :=
  (vs.unvoted.map fun k => ⟨vs.type, k, vs.height, vs.round, f k, none⟩).foldl
    (fun vs v => (vs.addVote v).1) vs

section
variable {t : VoteType} {h : ℕ} {r : ℤ} {vals : ValidatorSet} {A : List Vote} {vs : VoteSet}

lemma Tallies.foldl_new (f : NodeId → Hash) (ks : List NodeId) (hT : vs.Tallies t h r vals A)
    (hks : ks.Nodup) (hvals : ∀ k ∈ ks, k ∈ vals.validators ∧ k ∉ A.map (·.voter)) :
    ((ks.map fun k => (⟨t, k, h, r, f k, none⟩ : Vote)).foldl (fun vs v => (vs.addVote v).1)
      vs).Tallies t h r vals (A ++ ks.map fun k => ⟨t, k, h, r, f k, none⟩) := by
  induction ks generalizing vs A with
  | nil => simpa using hT
  | cons k ks ih =>
    obtain ⟨hk, hks⟩ := nodup_cons.mp hks
    obtain ⟨⟨hval, hnew⟩, hvals⟩ := forall_mem_cons.mp hvals
    have hnext := hT.addVote ⟨t, k, h, r, f k, none⟩
    rw [if_pos ⟨by simpa [Eligible, hasValidator] using hval, hnew⟩] at hnext
    have hrest := ih hnext hks fun k' hk' => by
      refine ⟨(hvals k' hk').1, fun hmem => ?_⟩
      rw [map_append, mem_append] at hmem
      rcases hmem with hmem | hmem
      · exact (hvals k' hk').2 hmem
      have heq : k' = k := mem_singleton.mp hmem
      exact hk (heq ▸ hk')
    rwa [append_assoc] at hrest

variable (hT : vs.Tallies t h r vals A)
include hT

variable (hnodup : vals.validators.Nodup)
include hnodup

lemma Tallies.assigned (f : NodeId → Hash) :
    (vs.assigned f).Tallies t h r vals (A ++ vs.unvoted.map fun k => ⟨t, k, h, r, f k, none⟩) := by
  unfold VoteSet.assigned
  rw [hT.wf.type_eq, hT.wf.height_eq, hT.wf.round_eq]
  refine hT.foldl_new f _ ?_ fun k hk => ?_
  · rw [unvoted, hT.wf.validators_eq]
    exact hnodup.filter _
  · rw [unvoted, hT.wf.validators_eq, mem_filter, isNone_iff_eq_none, hT.lookup_none] at hk
    exact hk

lemma Tallies.length_unvoted : vs.unvoted.length + A.length = vals.size := by
  have hperm : (vs.unvoted ++ A.map (·.voter)).Perm vals.validators := by
    have hnew : vs.unvoted.Nodup := by
      rw [unvoted, hT.wf.validators_eq]
      exact hnodup.filter _
    have hmem (k : NodeId) : k ∈ vs.unvoted ↔ k ∈ vals.validators ∧ k ∉ A.map (·.voter) := by
      rw [unvoted, hT.wf.validators_eq, mem_filter, isNone_iff_eq_none, hT.lookup_none]
    rw [perm_ext_iff_of_nodup _ hnodup]
    · intro k
      rw [mem_append, hmem]
      constructor
      · rintro (hk | hk)
        · exact hk.1
        · obtain ⟨v, hv, rfl⟩ := mem_map.mp hk
          exact hT.voter_mem hv
      · intro hk
        by_cases hA : k ∈ A.map (·.voter)
        · exact .inr hA
        · exact .inl ⟨hk, hA⟩
    · refine nodup_append.mpr ⟨hnew, hT.nodup, fun a ha b hb hab => ?_⟩
      exact ((hmem a).mp ha).2 (hab ▸ hb)
  simpa [size] using hperm.length_eq

lemma Tallies.hasTwoThirdsAny_iff (hsize : vals.size < 2 ^ 63) : vs.hasTwoThirdsAny = true ↔
      ∀ v ∈ A, (votesFor v.hash.bytes A).length + vs.unvoted.length < vals.quorum := by
  have hlen := hT.length_unvoted hnodup
  have hwrap (hash : Bytes) : ((vs.blockVotes hash).sum + (vals.size + 2 ^ 64 - vs.sum)) % 2 ^ 64 =
      (votesFor hash A).length + vs.unvoted.length := by
    have hle : (votesFor hash A).length ≤ A.length := length_filter_le _ _
    rw [hT.blockSum, hT.sum_eq]
    omega
  rw [hasTwoThirdsAny, hT.wf.validators_eq, List.all_eq_true]
  simp only [GoMap.mem_values, decide_eq_true_eq]
  constructor
  · intro hall v hv
    have hbucket := hall _ ⟨_, hT.lookup_bucket (mem_votesFor.mpr ⟨hv, rfl⟩)⟩
    rwa [hwrap] at hbucket
  · rintro hall b ⟨hash, hb⟩
    have hne := (hT.bucket hash).mp (isSome_of_eq_some hb)
    obtain ⟨v, hv⟩ := exists_mem_of_ne_nil _ hne
    obtain ⟨hmem, rfl⟩ := mem_votesFor.mp hv
    rw [← blockVotes_of_lookup hb, hwrap]
    exact hall v hmem

end

theorem hasTwoThirdsAny_exact (type : VoteType) (height : ℕ) (round : ℤ) (vals : ValidatorSet)
    (hnodup : vals.validators.Nodup) (hsize : vals.size < 2 ^ 63) (votes : List Vote) :
    let vs := votes.foldl (fun vs v => (vs.addVote v).1) (newVoteSet type height round vals)
    0 < vs.sum → vs.maj23 = none →
      (vs.hasTwoThirdsAny = true ↔ ∀ f : NodeId → Hash, ∀ hash,
        ¬ vals.size * 2 / 3 + 1 ≤ ((vs.assigned f).blockVotes hash).sum) := by
  intro vs hsum _
  have hT : vs.Tallies type height round vals _ :=
    Tallies.foldl_addVote type height round vals votes
  generalize firsts (·.voter) (votes.filter (Eligible type height round vals)) = A at hT
  rw [hT.hasTwoThirdsAny_iff hnodup hsize]
  have hcount (f : NodeId → Hash) (hash : Bytes) :
      ((vs.assigned f).blockVotes hash).sum = (votesFor hash A).length +
        (votesFor hash (vs.unvoted.map fun k => ⟨type, k, height, round, f k, none⟩)).length := by
    rw [(hT.assigned hnodup f).blockSum, votesFor_append, length_append]
  constructor
  · intro hall f hash
    have hrest : (votesFor hash
        (vs.unvoted.map fun k => ⟨type, k, height, round, f k, none⟩)).length ≤
          vs.unvoted.length :=
      (length_filter_le _ _).trans_eq (length_map _)
    rw [hcount]
    -- a hash without votes has fewer than any that has some
    have hA : 0 < A.length := hT.sum_eq ▸ hsum
    obtain ⟨w, hw⟩ := exists_mem_of_length_pos hA
    have hpos : 0 < (votesFor w.hash.bytes A).length :=
      length_pos_of_mem (mem_votesFor.mpr ⟨hw, rfl⟩)
    have hbound := hall w hw
    rw [quorum] at hbound
    rcases Nat.eq_zero_or_pos (votesFor hash A).length with hzero | hsome
    · omega
    obtain ⟨v, hv⟩ := exists_mem_of_length_pos hsome
    obtain ⟨hmem, rfl⟩ := mem_votesFor.mp hv
    have hbound := hall v hmem
    rw [quorum] at hbound
    omega
  · intro hall v _
    have hsame : votesFor v.hash.bytes
        (vs.unvoted.map fun k => ⟨type, k, height, round, v.hash, none⟩) =
          vs.unvoted.map fun k => ⟨type, k, height, round, v.hash, none⟩ := by
      refine filter_eq_self.mpr fun u hu => ?_
      obtain ⟨k, -, rfl⟩ := mem_map.mp hu
      exact decide_eq_true rfl
    have hv := hall (fun _ => v.hash) v.hash.bytes
    rw [hcount, hsame, length_map] at hv
    exact Nat.lt_of_not_le hv

theorem hasTwoThirdsAny_exact_split :
    let vals : ValidatorSet := ⟨[[0], [1], [2], [3]], 1⟩
    let vs := [precommitOf 0 [7], precommitOf 1 [8], precommitOf 2 [9]].foldl
      (fun vs v => (vs.addVote v).1) (newVoteSet .precommit 5 0 vals)
    vs.hasTwoThirdsAny = true ∧
      ∀ f hash, ¬ vals.size * 2 / 3 + 1 ≤ ((vs.assigned f).blockVotes hash).sum := by
  intro vals vs
  have hany : vs.hasTwoThirdsAny = true := by decide +kernel
  exact ⟨hany, (hasTwoThirdsAny_exact .precommit 5 0 vals (by decide) (by decide) _
    (by decide +kernel) (by decide +kernel)).mp hany⟩

end VoteSet
end ChainMaker.Tbft
