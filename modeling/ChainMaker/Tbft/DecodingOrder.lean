import ChainMaker.Tbft.Certificate
import ChainMaker.Tbft.Tally

/-! A certificate is decoded by walking a map, whose order is not fixed. Which of its votes are
counted depends on the order where the votes of one voter differ. -/

namespace ChainMaker.Tbft
open List FirstBy Finset

def eligibleVotes (p : VoteSetProto) (vals : ValidatorSet) : List Vote :=
  (p.votes.map (·.2)).filter (Eligible p.type p.height p.round vals)

/-- The votes that one order counts: one of each voter. -/
structure Selection (E A : List Vote) : Prop where
  nodup : (A.map (·.voter)).Nodup
  subset : A ⊆ E
  cover : ∀ v ∈ E, v.voter ∈ A.map (·.voter)

def mayVote (E : List Vote) (hash : Bytes) : Finset NodeId :=
  ((votesFor hash E).map (·.voter)).toFinset

def mustVote (E : List Vote) (hash : Bytes) : Finset NodeId :=
  {i ∈ (E.map (·.voter)).toFinset | ∀ v ∈ E, v.voter = i → v.hash.bytes = hash}

def HasMajority (q : ℕ) (A : List Vote) (hash : Bytes) : Prop :=
  ∃ v, (votesFor hash A)[q - 1]? = some v ∧ v.hash = some hash

variable {E A C : List Vote} {hash : Bytes} {q : ℕ} {vals : ValidatorSet} {p : VoteSetProto}
  {v : Vote} {i : NodeId} {rest : List Vote}

lemma mem_mayVote : i ∈ mayVote E hash ↔ ∃ v ∈ votesFor hash E, v.voter = i := by
  simp [mayVote]

lemma mem_mustVote :
    i ∈ mustVote E hash ↔ (∃ v ∈ E, v.voter = i) ∧ ∀ v ∈ E, v.voter = i → v.hash.bytes = hash := by
  simp [mustVote]

lemma card_voters (hA : (A.map (·.voter)).Nodup) : #((A.map (·.voter)).toFinset) = A.length := by
  rw [toFinset_card_of_nodup hA, length_map]

lemma nodup_votesFor (hA : (A.map (·.voter)).Nodup) :
    ((votesFor hash A).map (·.voter)).Nodup := hA.sublist (filter_sublist.map _)

namespace Selection

variable (hA : Selection E A)
include hA

lemma mem_of_voter {v w : Vote} (hv : v ∈ A) (hw : w ∈ A) (heq : v.voter = w.voter) : v = w :=
  inj_on_of_nodup_map hA.nodup hv hw heq

lemma card_le_may : (votesFor hash A).length ≤ #(mayVote E hash) := by
  rw [← card_voters (nodup_votesFor hA.nodup)]
  refine card_le_card fun i hi => ?_
  obtain ⟨v, hv, rfl⟩ := mem_map.mp (mem_toFinset.mp hi)
  obtain ⟨hvA, hbytes⟩ := mem_votesFor.mp hv
  exact mem_mayVote.mpr ⟨v, mem_votesFor.mpr ⟨hA.subset hvA, hbytes⟩, rfl⟩

lemma exists_of_must (hi : i ∈ mustVote E hash) : ∃ v ∈ votesFor hash A, v.voter = i := by
  obtain ⟨⟨v, hv, rfl⟩, hall⟩ := mem_mustVote.mp hi
  obtain ⟨w, hw, heq⟩ := mem_map.mp (hA.cover v hv)
  exact ⟨w, mem_votesFor.mpr ⟨hw, hall w (hA.subset hw) heq⟩, heq⟩

lemma must_le_card : #(mustVote E hash) ≤ (votesFor hash A).length := by
  rw [← card_voters (nodup_votesFor hA.nodup)]
  refine card_le_card fun i hi => mem_toFinset.mpr ?_
  obtain ⟨v, hv, rfl⟩ := hA.exists_of_must hi
  exact mem_map_of_mem hv

end Selection

def VoteSetProto.reorder (p : VoteSetProto) (votes : List (NodeId × Vote)) : VoteSetProto :=
  { p with votes := votes }

lemma tallies_newVoteSetFromProto (p : VoteSetProto) (vals : ValidatorSet) :
    (newVoteSetFromProto p vals).Tallies p.type p.height p.round vals
      (firsts (·.voter) (eligibleVotes p vals)) := by
  have hT := VoteSet.Tallies.foldl_addVote p.type p.height p.round vals (p.votes.map (·.2))
  rwa [foldl_map] at hT

lemma selection_firsts {E' : List Vote} (hperm : E'.Perm E) :
    Selection E (firsts (·.voter) E') where
  nodup := nodup_map_firsts E'
  subset := fun _ hv => hperm.subset ((firsts_sublist E').subset hv)
  cover := fun _ hv => mem_map_firsts.mpr (mem_map_of_mem (hperm.symm.subset hv))

lemma eligibleVotes_reorder (vals : ValidatorSet) {votes : List (NodeId × Vote)}
    (hperm : votes.Perm p.votes) :
    (eligibleVotes (p.reorder votes) vals).Perm (eligibleVotes p vals) :=
  (hperm.map _).filter _

lemma exists_order (hC : (C.map (·.voter)).Nodup) (hsub : C ⊆ eligibleVotes p vals) :
    ∃ votes, votes.Perm p.votes ∧
      ∃ rest, firsts (·.voter) (eligibleVotes (p.reorder votes) vals) = C ++ rest := by
  have hsub' : C ⊆ p.votes.map (·.2) := fun v hv => (mem_filter.mp (hsub hv)).1
  obtain ⟨rest, hrest⟩ := exists_perm_append hC hsub'
  obtain ⟨votes, hvotes, hmap⟩ := exists_perm_map hrest.symm p.votes rfl
  refine ⟨votes, hvotes, ?_⟩
  have hkept : C.filter (Eligible p.type p.height p.round vals) = C :=
    filter_eq_self.mpr fun v hv => (mem_filter.mp (hsub hv)).2
  have heligible : eligibleVotes (p.reorder votes) vals =
      C ++ rest.filter (Eligible p.type p.height p.round vals) := by
    rw [eligibleVotes, VoteSetProto.reorder, hmap, filter_append, hkept]
  rw [heligible, firsts_append hC]
  exact ⟨_, rfl⟩

/-- Some order gives the hash the majority: enough voters have a vote for it, and a vote that is
not a nil slice can complete the quorum. -/
def Reachable (q : ℕ) (E : List Vote) (hash : Bytes) : Prop :=
  q ≤ #(mayVote E hash) ∧ ∃ v ∈ E, v.hash = some hash

def Settled (q : ℕ) (E : List Vote) (hash : Bytes) : Prop :=
  q ≤ #(mustVote E hash) ∧ ∀ v ∈ votesFor hash E, v.hash = some hash

lemma mem_votesFor_of_hash (hv : v ∈ E) (hhash : v.hash = some hash) :
    v ∈ votesFor hash E := mem_votesFor.mpr ⟨hv, by rw [hhash]; rfl⟩

lemma HasMajority.reachable (hA : Selection E A) (hmaj : HasMajority q A hash) :
    Reachable q E hash := by
  obtain ⟨v, hv, hhash⟩ := hmaj
  have hlt := (List.getElem?_eq_some_iff.mp hv).1
  have hle : (votesFor hash A).length ≤ #(mayVote E hash) := hA.card_le_may
  exact ⟨by omega, v, hA.subset (mem_votesFor.mp (mem_of_getElem? hv)).1, hhash⟩

lemma Settled.hasMajority (hq : 0 < q) (hset : Settled q E hash) (hA : Selection E A) :
    HasMajority q A hash := by
  have hle := hset.1.trans hA.must_le_card
  have hlt : q - 1 < (votesFor hash A).length := by omega
  refine ⟨_, getElem?_eq_getElem hlt, hset.2 _ ?_⟩
  obtain ⟨hv, hbytes⟩ := mem_votesFor.mp (getElem_mem hlt)
  exact mem_votesFor.mpr ⟨hA.subset hv, hbytes⟩

section
variable (good : Vote → Bool)

def selectGood (E : List Vote) : List Vote := firsts (·.voter) (E.filter good)

lemma nodup_selectGood (E : List Vote) : ((selectGood good E).map (·.voter)).Nodup :=
  nodup_map_firsts _

variable {good}

lemma mem_selectGood (hv : v ∈ selectGood good E) : v ∈ E ∧ good v = true :=
  mem_filter.mp ((firsts_sublist _).subset hv)

lemma voter_mem_selectGood (hv : v ∈ E) (hgood : good v = true) :
    v.voter ∈ (selectGood good E).map (·.voter) :=
  mem_map_firsts.mpr (mem_map_of_mem (mem_filter.mpr ⟨hv, hgood⟩))

lemma good_of_mem (hA : Selection E (selectGood good E ++ rest))
    (hv : v ∈ selectGood good E ++ rest) :
    good v = true ∨ ∀ w ∈ E, w.voter = v.voter → good w = false := by
  by_cases hvoter : v.voter ∈ (selectGood good E).map (·.voter)
  · obtain ⟨w, hw, heq⟩ := mem_map.mp hvoter
    obtain rfl := hA.mem_of_voter (mem_append_left _ hw) hv heq
    exact .inl (mem_selectGood hw).2
  · refine .inr fun w hw heq => ?_
    by_contra hgood
    exact hvoter (heq ▸ voter_mem_selectGood hw (Bool.not_eq_false _ ▸ hgood))

end

lemma card_le_must (hA : Selection E (selectGood (fun v => v.hash.bytes ≠ hash) E ++ rest)) :
    (votesFor hash (selectGood (fun v => v.hash.bytes ≠ hash) E ++ rest)).length ≤
      #(mustVote E hash) := by
  rw [← card_voters (nodup_votesFor hA.nodup)]
  refine card_le_card fun i hi => ?_
  obtain ⟨v, hv, rfl⟩ := mem_map.mp (mem_toFinset.mp hi)
  obtain ⟨hvA, hbytes⟩ := mem_votesFor.mp hv
  refine mem_mustVote.mpr ⟨⟨v, hA.subset hvA, rfl⟩, fun w hw heq => ?_⟩
  rcases good_of_mem hA hvA with hgood | hnone
  · exact absurd hbytes (of_decide_eq_true hgood)
  · exact not_not.mp (of_decide_eq_false (hnone w hw heq))

lemma exists_completing (hq : 0 < q) (hle : q ≤ #(mayVote E hash)) (hv : v ∈ votesFor hash E) :
    ∃ C ⊆ E, (C.map (·.voter)).Nodup ∧ (votesFor hash C)[q - 1]? = some v := by
  set T := selectGood (fun w => w.voter ≠ v.voter) (votesFor hash E)
  have hnodup : (T.map (·.voter)).Nodup := nodup_selectGood _ _
  have hother : ∀ {w}, w ∈ T → w ∈ votesFor hash E ∧ w.voter ≠ v.voter := fun hw =>
    ⟨(mem_selectGood hw).1, of_decide_eq_true (mem_selectGood hw).2⟩
  have hlen : q - 1 ≤ T.length := by
    have hsub : mayVote E hash ⊆ insert v.voter (T.map (·.voter)).toFinset := by
      intro i hi
      obtain ⟨w, hw, rfl⟩ := mem_mayVote.mp hi
      by_cases heq : w.voter = v.voter
      · exact heq ▸ mem_insert_self _ _
      have hmem : w.voter ∈ T.map (·.voter) := voter_mem_selectGood hw (decide_eq_true heq)
      exact mem_insert_of_mem (mem_toFinset.mpr hmem)
    have hcard := (card_le_card hsub).trans (card_insert_le _ _)
    rw [card_voters hnodup] at hcard
    omega
  have htake : (T.take (q - 1)).length = q - 1 := length_take_of_le hlen
  have hvotes : ∀ w ∈ T.take (q - 1) ++ [v], w ∈ votesFor hash E :=
    forall_mem_concat (fun w hw => (hother (mem_of_mem_take hw)).1) hv
  refine ⟨T.take (q - 1) ++ [v], fun w hw => (mem_votesFor.mp (hvotes w hw)).1, ?_, ?_⟩
  · rw [map_append, List.map_singleton, ← concat_eq_append]
    refine (hnodup.sublist ((take_sublist _ _).map _)).concat fun hmem => ?_
    obtain ⟨w, hw, hsame⟩ := mem_map.mp hmem
    exact (hother (mem_of_mem_take hw)).2 hsame
  · have hkept : votesFor hash (T.take (q - 1) ++ [v]) = T.take (q - 1) ++ [v] := by
      exact filter_eq_self.mpr fun w hw => decide_eq_true (mem_votesFor.mp (hvotes w hw)).2
    rw [hkept, getElem?_append_right htake.le, htake, Nat.sub_self]
    rfl

namespace Verifier
variable (V : Verifier)

def reading (p : VoteSetProto) : Verifier := { V with unmarshal := fun _ => some p }

def verifyVote (v : Vote) : Bool := V.ac.verifyConsensusNode v.endorsement v.message

variable {V} {block : Block} {vs : VoteSet} {t : VoteType} {h : ℕ} {r : ℤ}

def Accepts (V : Verifier) (block : Block) (q : ℕ) (A : List Vote) : Prop :=
  HasMajority q A block.header.blockHash.bytes ∧
    ∀ v ∈ votesFor block.header.blockHash.bytes A, V.verifyVote v = true

lemma verifyVoteSet_ok_iff (hT : vs.Tallies t h r vals A) :
    V.verifyVoteSet vs block = .ok () ↔ V.Accepts block vals.quorum A := by
  have hall : (∀ v ∈ blockVotes vs block, V.verifyVote v = true) ↔
      ∀ v ∈ votesFor block.header.blockHash.bytes A, V.verifyVote v = true := by
    have hmem : ∀ v, v ∈ blockVotes vs block ↔ v ∈ votesFor block.header.blockHash.bytes A := by
      intro v
      rw [blockVotes, GoMap.mem_values]
      simp [hT.counted]
    simp only [hmem]
  rw [Accepts, HasMajority, ← hT.majority, ← hall]
  unfold verifyVoteSet
  cases vs.maj23 with
  | none => simp
  | some hash =>
    by_cases hhash : hash = block.header.blockHash.bytes
    · simp [hhash, verifyVote]
    · simp [hhash]

lemma verifyBlockSignatures_reading {block : Block} (hp : V.certificate block = .ok p)
    (hvals : V.validatorSet block = .ok vals) (p' : VoteSetProto) :
    (V.reading p').verifyBlockSignatures (some block) =
      V.verifyVoteSet (newVoteSetFromProto p' vals) block := by
  have hp' : (V.reading p').certificate block = .ok p' := by
    unfold certificate at hp ⊢
    split at hp
    · cases hp
    split at hp
    · cases hp
    · rfl
  exact verifyBlockSignatures_some hp' hvals

end Verifier

/-- Whatever the order in which the map of votes is walked, the majority is the same and so is
the verdict on the block. -/
def OrderFree (V : Verifier) (block : Block) (p : VoteSetProto) (vals : ValidatorSet) : Prop :=
  ∀ votes, votes.Perm p.votes →
    (newVoteSetFromProto (p.reorder votes) vals).maj23 = (newVoteSetFromProto p vals).maj23 ∧
      ((V.reading (p.reorder votes)).verifyBlockSignatures (some block) = .ok () ↔
        V.verifyBlockSignatures (some block) = .ok ())

/-- No order is decisive. A hash that can have the majority has it from voters who vote for
nothing else and not with a nil slice; and where that is the block's hash, its votes are all
verified, or some voter has no other vote that is. -/
def Unambiguous (V : Verifier) (block : Block) (q : ℕ) (E : List Vote) : Prop :=
  (∀ hash, Reachable q E hash → Settled q E hash) ∧
    (Reachable q E block.header.blockHash.bytes →
      (∀ v ∈ votesFor block.header.blockHash.bytes E, V.verifyVote v = true) ∨
        ∃ i ∈ mustVote E block.header.blockHash.bytes,
          ∀ v ∈ E, v.voter = i → V.verifyVote v = false)

section
variable {V : Verifier} {block : Block} {B : List Vote}

lemma Unambiguous.hasMajority (hq : 0 < q) (hu : Unambiguous V block q E) (hA : Selection E A)
    (hB : Selection E B) (hmaj : HasMajority q A hash) : HasMajority q B hash :=
  (hu.1 hash (hmaj.reachable hA)).hasMajority hq hB

lemma Unambiguous.accepts (hq : 0 < q) (hu : Unambiguous V block q E) (hA : Selection E A)
    (hB : Selection E B) (hacc : V.Accepts block q A) : V.Accepts block q B := by
  obtain ⟨hmaj, hverified⟩ := hacc
  refine ⟨hu.hasMajority hq hA hB hmaj, fun v hv => ?_⟩
  rcases hu.2 (hmaj.reachable hA) with hall | ⟨i, hi, hnone⟩
  · obtain ⟨hvB, hbytes⟩ := mem_votesFor.mp hv
    exact hall v (mem_votesFor.mpr ⟨hB.subset hvB, hbytes⟩)
  · obtain ⟨w, hw, heq⟩ := hA.exists_of_must hi
    have hfalse := hnone w (hA.subset (mem_votesFor.mp hw).1) heq
    exact absurd (hverified w hw) (by simp [hfalse])

lemma HasMajority.append {v : Vote} {rest : List Vote} (hv : (votesFor hash C)[q - 1]? = some v) :
    HasMajority q (C ++ rest) hash ↔ v.hash = some hash := by
  have hget : (votesFor hash (C ++ rest))[q - 1]? = some v := by
    rw [votesFor_append, List.getElem?_append_left (List.getElem?_eq_some_iff.mp hv).1, hv]
  simp [HasMajority, hget]

lemma unambiguous_of_choices (B : List Vote) (hq : 0 < q)
    (hfree : ∀ C ⊆ E, (C.map (·.voter)).Nodup → ∃ rest, Selection E (C ++ rest) ∧
      (∀ hash, HasMajority q (C ++ rest) hash ↔ HasMajority q B hash) ∧
      (V.Accepts block q (C ++ rest) ↔ V.Accepts block q B)) : Unambiguous V block q E := by
  have hsettled : ∀ hash, Reachable q E hash → Settled q E hash := by
    rintro hash ⟨hle, v, hv, hhash⟩
    have hcomplete : ∀ w ∈ votesFor hash E, HasMajority q B hash ↔ w.hash = some hash := by
      intro w hw
      obtain ⟨C, hsub, hC, hget⟩ := exists_completing hq hle hw
      obtain ⟨rest, -, hmaj, -⟩ := hfree C hsub hC
      rw [← hmaj, HasMajority.append hget]
    have hB : HasMajority q B hash := (hcomplete v (mem_votesFor_of_hash hv hhash)).mpr hhash
    refine ⟨?_, fun w hw => (hcomplete w hw).mp hB⟩
    obtain ⟨rest, hA, hmaj, -⟩ := hfree (selectGood (fun v => v.hash.bytes ≠ hash) E)
      (fun v hv => (mem_selectGood hv).1) (nodup_selectGood _ _)
    obtain ⟨w, hw, -⟩ := (hmaj hash).mpr hB
    have hlt := (List.getElem?_eq_some_iff.mp hw).1
    have hmust := card_le_must hA
    omega
  refine ⟨hsettled, fun hreach => ?_⟩
  by_contra! hnot
  obtain ⟨⟨v, hv, hfalse⟩, hsome⟩ := hnot
  -- with the failing vote first the block is refused
  have hrefused : ¬V.Accepts block q B := by
    obtain ⟨rest, -, -, hacc⟩ := hfree [v]
      (cons_subset.mpr ⟨(mem_votesFor.mp hv).1, nil_subset _⟩) (nodup_singleton _)
    rw [← hacc]
    rintro ⟨-, hverified⟩
    have hmem := mem_votesFor.mpr ⟨List.mem_append_left rest (List.mem_singleton_self v),
      (mem_votesFor.mp hv).2⟩
    exact hfalse (hverified v hmem)
  -- with the verified votes and those of other hashes first it is accepted
  obtain ⟨rest, hA, -, hacc⟩ := hfree
    (selectGood (fun v => v.hash.bytes ≠ block.header.blockHash.bytes ∨ V.verifyVote v) E)
    (fun v hv => (mem_selectGood hv).1) (nodup_selectGood _ _)
  refine hrefused (hacc.mp ⟨(hsettled _ hreach).hasMajority hq hA, fun w hw => ?_⟩)
  obtain ⟨hwA, hbytes⟩ := mem_votesFor.mp hw
  rcases good_of_mem hA hwA with hgood | hnone
  · exact (of_decide_eq_true hgood).resolve_left (not_not.mpr hbytes)
  have hbad : ∀ u ∈ E, u.voter = w.voter →
      u.hash.bytes = block.header.blockHash.bytes ∧ V.verifyVote u ≠ true := by
    intro u hu heq
    have hu := of_decide_eq_false (hnone u hu heq)
    rw [not_or, not_not] at hu
    exact hu
  obtain ⟨u, hu, heq, hverified⟩ := hsome w.voter
    (mem_mustVote.mpr ⟨⟨w, hA.subset hwA, rfl⟩, fun u hu heq => (hbad u hu heq).1⟩)
  exact absurd hverified (by simpa using (hbad u hu heq).2)

lemma orderFree_iff (hp : V.certificate block = .ok p) (hvals : V.validatorSet block = .ok vals) :
    OrderFree V block p vals ↔ ∀ votes, votes.Perm p.votes → (∀ hash, HasMajority vals.quorum
          (firsts (·.voter) (eligibleVotes (p.reorder votes) vals)) hash ↔
        HasMajority vals.quorum (firsts (·.voter) (eligibleVotes p vals)) hash) ∧
      (V.Accepts block vals.quorum (firsts (·.voter) (eligibleVotes (p.reorder votes) vals)) ↔
        V.Accepts block vals.quorum (firsts (·.voter) (eligibleVotes p vals))) := by
  refine forall_congr' fun votes => imp_congr_right fun _ => ?_
  have hT := tallies_newVoteSetFromProto (p.reorder votes) vals
  have hT₀ := tallies_newVoteSetFromProto p vals
  rw [Verifier.verifyBlockSignatures_reading hp hvals, Verifier.verifyBlockSignatures_some hp hvals,
    Verifier.verifyVoteSet_ok_iff hT, Verifier.verifyVoteSet_ok_iff hT₀]
  refine and_congr_left fun _ => ?_
  rw [Option.ext_iff]
  exact forall_congr' fun hash => iff_congr (hT.majority hash) (hT₀.majority hash)

end

theorem decoding_order_iff (V : Verifier) (block : Block) (p : VoteSetProto) (vals : ValidatorSet)
    (hp : V.certificate block = .ok p) (hvals : V.validatorSet block = .ok vals) :
    OrderFree V block p vals ↔ Unambiguous V block vals.quorum (eligibleVotes p vals) := by
  have hq : 0 < vals.quorum := Nat.succ_pos _
  rw [orderFree_iff hp hvals]
  constructor
  · intro hfree
    refine unambiguous_of_choices (firsts (·.voter) (eligibleVotes p vals)) hq
      fun C hsub hC => ?_
    obtain ⟨votes, hperm, rest, hrest⟩ := exists_order hC hsub
    have hselection := selection_firsts (eligibleVotes_reorder vals hperm)
    have hsame := hfree votes hperm
    rw [hrest] at hselection hsame
    exact ⟨rest, hselection, hsame⟩
  · intro hu votes hperm
    have hA := selection_firsts (eligibleVotes_reorder vals hperm)
    have hB := selection_firsts (Perm.refl (eligibleVotes p vals))
    exact ⟨fun hash => ⟨hu.hasMajority hq hA hB, hu.hasMajority hq hB hA⟩,
      hu.accepts hq hA hB, hu.accepts hq hB hA⟩

def twiceVoted : VoteSetProto :=
  ⟨.precommit, 5, 0, (fourCertificate .precommit 5 [0, 1, 2]).votes ++
    [([9], { fourVote .precommit 5 2 2 with hash := some [8] })]⟩

theorem decoding_order_matters :
    (fourVerifier twiceVoted).certificate fourBlock = .ok twiceVoted ∧
      (fourVerifier twiceVoted).validatorSet fourBlock = .ok fourValidators ∧
      (twiceVoted.votes.map (·.1)).Nodup ∧ fourValidators.validators.Nodup ∧
      (fourVerifier twiceVoted).verifyBlockSignatures (some fourBlock) = .ok () ∧
      ((fourVerifier twiceVoted).reading
        (twiceVoted.reorder twiceVoted.votes.reverse)).verifyBlockSignatures (some fourBlock) =
          .error .withoutMajority ∧
      ¬OrderFree (fourVerifier twiceVoted) fourBlock twiceVoted fourValidators := by
  refine ⟨rfl, by rfl, by decide, by decide, by decide +kernel, by decide +kernel, fun hfree => ?_⟩
  exact absurd ((hfree _ (reverse_perm twiceVoted.votes)).2.mpr (by decide +kernel))
    (by decide +kernel)

theorem decoding_order_iff_precommits :
    OrderFree (fourVerifier (fourCertificate .precommit 5 [0, 1, 2])) fourBlock
      (fourCertificate .precommit 5 [0, 1, 2]) fourValidators := by
  refine (decoding_order_iff _ _ _ _ rfl (by rfl)).mpr ⟨?_, fun _ => .inl (by decide +kernel)⟩
  rintro hash ⟨-, v, hv, hhash⟩
  have hseven : ∀ v ∈ eligibleVotes (fourCertificate .precommit 5 [0, 1, 2]) fourValidators,
      v.hash = some [7] := by decide +kernel
  obtain rfl : hash = [7] := Option.mem_unique hhash (hseven v hv)
  refine ⟨by decide +kernel, by decide +kernel⟩

end ChainMaker.Tbft
