import ChainMaker.Tbft.Network

/-! The certificate that a node attaches to a block it commits: the precommits of its round,
which a verifier enters into a new set in the order of its own map. -/

namespace ChainMaker.Tbft
open Option List Finset

namespace VoteSet

/-- Every vote that is entered is counted for its hash, and a quorum for a hash that is not empty
decides the set. -/
structure Full (vs : VoteSet) : Prop where
  bucket : ∀ k v, vs.votes.lookup k = some v → (vs.blockVotes v.hash.bytes).votes.lookup k = some v
  decided : ∀ hash, hash ≠ [] → vs.validators.quorum ≤ (vs.blockVotes hash).sum →
    vs.maj23.isSome = true
  chosen : ∀ hash, vs.maj23 = some hash → ∃ v, vs.Holds v ∧ v.hash = some hash

variable {t : VoteType} {h : ℕ} {r : ℤ} {vals : ValidatorSet} {vs : VoteSet} {k : NodeId} {v : Vote}

lemma Full.new (t : VoteType) (h : ℕ) (r : ℤ) (vals : ValidatorSet) :
    (newVoteSet t h r vals).Full where
  bucket := by simp [newVoteSet]
  decided := by
    intro hash _ hquorum
    exact absurd hquorum (Nat.not_succ_le_zero _)
  chosen := by simp [newVoteSet]

lemma isSome_maj23_count (vote : Vote) (hmaj : vs.maj23.isSome = true) :
    (vs.count vote).maj23.isSome = true := by
  obtain ⟨hash, hhash⟩ := isSome_iff_exists.mp hmaj
  rw [maj23_count_of_some vote hhash]
  rfl

lemma maj23_count_of_quorum {vote : Vote} (hne : vote.hash.bytes ≠ [])
    (hold : (vs.blockVotes vote.hash.bytes).sum < vs.validators.quorum)
    (hnew : vs.validators.quorum ≤ (vs.blockVotes vote.hash.bytes).sum + 1) :
    (vs.count vote).maj23.isSome = true := by
  cases hmaj : vs.maj23 with
  | some hash => exact isSome_maj23_count vote (by rw [hmaj]; rfl)
  | none =>
    have hcross : (vs.blockVotes vote.hash.bytes).sum < vs.validators.quorum ∧
        vs.validators.quorum ≤ ((vs.blockVotes vote.hash.bytes).addVote vote).sum ∧
        vs.maj23 = none := ⟨hold, hnew, hmaj⟩
    unfold count
    rw [if_pos hcross]
    cases hhash : vote.hash with
    | none =>
      rw [hhash] at hne
      exact absurd rfl hne
    | some x => rfl

lemma Full.count (hf : vs.Full) (hw : vs.Wf t h r vals) {vote : Vote}
    (hmatch : vs.checkVoteMatched vote = true) (hval : vote.voter ∈ vals.validators)
    (hnew : vs.votes.lookup vote.voter = none) : (vs.count vote).Full where
  bucket := by
    intro k v hv
    rw [hw.lookup_count] at hv
    rw [blockVotes_count]
    split at hv
    case isTrue hk =>
      cases hv
      rw [if_pos rfl, hk]
      exact AList.lookup_insert _
    case isFalse hk =>
    have hold := hf.bucket k v hv
    split
    · exact (AList.lookup_insert_ne hk).trans hold
    · exact hold
  decided := by
    intro hash hne hquorum
    rw [count_validators, blockVotes_count] at hquorum
    split at hquorum
    case isFalse => exact isSome_maj23_count vote (hf.decided hash hne hquorum)
    case isTrue hhash =>
    subst hhash
    rcases lt_or_ge (vs.blockVotes vote.hash.bytes).sum vs.validators.quorum with hlt | hge
    · exact maj23_count_of_quorum hne hlt hquorum
    · exact isSome_maj23_count vote (hf.decided _ hne hge)
  chosen := by
    intro hash hmaj
    rcases maj23_count hmaj with hold | ⟨hhash, -⟩
    · obtain ⟨v, hv, hvh⟩ := hf.chosen hash hold
      exact ⟨v, (hw.holds_count hmatch hval hnew).mpr (.inl hv), hvh⟩
    · exact ⟨vote, (hw.holds_count hmatch hval hnew).mpr (.inr rfl), hhash⟩

lemma Full.addVote (hf : vs.Full) (hw : vs.Wf t h r vals) (vote : Vote) :
    (vs.addVote vote).1.Full := by
  rcases addVote_cases vs vote with ⟨heq, -⟩ | ⟨hmatch, hval, hnew, heq⟩
  · rwa [heq]
  rw [heq]
  exact hf.count hw hmatch (hw.validators_eq ▸ hval) hnew

lemma Full.foldl_addVote (hf : vs.Full) (hw : vs.Wf t h r vals) (votes : List (NodeId × Vote)) :
    (votes.foldl (fun vs e => (vs.addVote e.2).1) vs).Full := by
  induction votes generalizing vs with
  | nil => exact hf
  | cons e votes ih => exact ih (hf.addVote hw e.2) (hw.addVote e.2)

variable (hw : vs.Wf t h r vals)
include hw

lemma Wf.lookup_addVote_of_some (hv : vs.votes.lookup k = some v)
    (vote : Vote) : (vs.addVote vote).1.votes.lookup k = some v := by
  rcases addVote_cases vs vote with ⟨heq, -⟩ | ⟨-, -, hnew, heq⟩
  · rwa [heq]
  rw [heq, hw.lookup_count, if_neg]
  · exact hv
  · rintro rfl
    rw [hnew] at hv
    cases hv

lemma Wf.lookup_foldl_of_some (hv : vs.votes.lookup k = some v) (votes : List (NodeId × Vote)) :
    (votes.foldl (fun vs e => (vs.addVote e.2).1) vs).votes.lookup k = some v := by
  induction votes generalizing vs with
  | nil => exact hv
  | cons e votes ih => exact ih (hw.addVote e.2) (hw.lookup_addVote_of_some hv e.2)

lemma Wf.lookup_foldl {votes : List (NodeId × Vote)}
    (hmatch : ∀ e ∈ votes, vs.checkVoteMatched e.2 = true ∧ e.2.voter ∈ vals.validators)
    (hnodup : (votes.map (·.2.voter)).Nodup)
    (hnew : ∀ e ∈ votes, vs.votes.lookup e.2.voter = none) :
    ∀ e ∈ votes,
      (votes.foldl (fun vs e => (vs.addVote e.2).1) vs).votes.lookup e.2.voter = some e.2 := by
  induction votes generalizing vs with
  | nil => exact nofun
  | cons e votes ih =>
    obtain ⟨⟨hmatched, hval⟩, hmatch⟩ := forall_mem_cons.mp hmatch
    obtain ⟨hnone, hnew⟩ := forall_mem_cons.mp hnew
    obtain ⟨hfresh, hnodup⟩ := nodup_cons.mp hnodup
    have hadd : (vs.addVote e.2).1 = vs.count e.2 := by
      have hhas : vs.validators.hasValidator e.2.voter = true := by
        rw [hw.validators_eq]
        exact contains_iff_mem.mpr hval
      unfold VoteSet.addVote
      rw [hmatched, hhas, hnone]
      rfl
    have hcount := hw.count hmatched hval hnone
    rw [foldl_cons, hadd]
    refine forall_mem_cons.mpr ⟨?_, ih hcount ?_ hnodup ?_⟩
    · refine hcount.lookup_foldl_of_some ?_ votes
      rw [hw.lookup_count, if_pos rfl]
    · intro e' he'
      rw [checkVoteMatched_count]
      exact hmatch e' he'
    · intro e' he'
      rw [hw.lookup_count, if_neg]
      · exact hnew e' he'
      · intro heq
        exact hfresh (mem_map.mpr ⟨e', he', heq⟩)

lemma Wf.quorum_unique {x y : Bytes} (hx : vals.quorum ≤ (vs.blockVotes x).sum)
    (hy : vals.quorum ≤ (vs.blockVotes y).sum) : x = y := by
  by_contra hne
  have hkey : ∀ {z k}, k ∈ (vs.blockVotes z).votes.keys →
      ∃ v, vs.votes.lookup k = some v ∧ v.hash.bytes = z := by
    intro z k hk
    obtain ⟨v, hv⟩ := isSome_iff_exists.mp (AList.lookup_isSome.mpr hk)
    exact ⟨v, hw.counted z k v hv⟩
  have hdisjoint : Disjoint (vs.blockVotes x).votes.keys.toFinset
      (vs.blockVotes y).votes.keys.toFinset := by
    refine disjoint_left.mpr fun k hkx hky => hne ?_
    obtain ⟨v, hv, rfl⟩ := hkey (mem_toFinset.mp hkx)
    obtain ⟨w, hw, rfl⟩ := hkey (mem_toFinset.mp hky)
    rw [mem_unique hv hw]
  have hsub : (vs.blockVotes x).votes.keys.toFinset ∪ (vs.blockVotes y).votes.keys.toFinset ⊆
      vals.validators.toFinset := by
    intro k hk
    rcases mem_union.mp hk with hk | hk <;>
    · obtain ⟨v, hv, -⟩ := hkey (mem_toFinset.mp hk)
      exact mem_toFinset.mpr (hw.entered k v hv).2.2
  have hcard := (card_le_card hsub).trans (toFinset_card_le vals.validators)
  rw [card_union_of_disjoint hdisjoint, toFinset_card_of_nodup (vs.blockVotes x).votes.keys_nodup,
    toFinset_card_of_nodup (vs.blockVotes y).votes.keys_nodup,
    ← hw.sum_eq, ← hw.sum_eq] at hcard
  unfold ValidatorSet.quorum ValidatorSet.size at hx hy
  omega

end VoteSet

/-- A vote as it is read back: an empty hash is not written, and is read as nil. -/
def Vote.decoded (v : Vote) : Vote := { v with hash := if v.hash.bytes = [] then none else v.hash }

lemma Vote.decoded_bytes (v : Vote) : v.decoded.hash.bytes = v.hash.bytes := by
  unfold Vote.decoded
  split
  case isTrue hnil => exact hnil.symm
  case isFalse => rfl

lemma Vote.decoded_eq {v : Vote} (h : v.hash.bytes ≠ []) : v.decoded = v := by
  unfold Vote.decoded
  rw [if_neg h]

structure VoteSetProto.Decodes (p p' : VoteSetProto) : Prop where
  type_eq : p'.type = p.type
  height_eq : p'.height = p.height
  round_eq : p'.round = p.round
  votes : p'.votes.Perm (p.votes.map fun e => (e.1, e.2.decoded))

section rebuilt
variable {t : VoteType} {h : ℕ} {r : ℤ} {vals vals' : ValidatorSet} {vs : VoteSet}
  {p' : VoteSetProto}

lemma VoteSetProto.Decodes.mem_votes (hp : vs.toProto.Decodes p') {e : NodeId × Vote} :
    e ∈ p'.votes ↔ ∃ v, vs.votes.lookup e.1 = some v ∧ e.2 = v.decoded := by
  rw [hp.votes.mem_iff, VoteSet.toProto]
  simp only [List.mem_map, exists_exists_and_eq_and]
  constructor
  · rintro ⟨⟨k, v⟩, hv, rfl⟩
    exact ⟨v, GoMap.mem_entries.mp hv, rfl⟩
  · rintro ⟨v, hv, he⟩
    exact ⟨⟨e.1, v⟩, GoMap.mem_entries.mpr hv, Prod.ext rfl he.symm⟩

lemma lookup_rebuilt (hw : vs.Wf t h r vals) (hvals : vals'.validators = vals.validators)
    (hp : vs.toProto.Decodes p') {k : NodeId} {v : Vote} (hv : vs.votes.lookup k = some v) :
    (newVoteSetFromProto p' vals').votes.lookup k = some v.decoded := by
  have hnew := VoteSet.Wf.new p'.type p'.height p'.round vals'
  have hvoter : ∀ e ∈ p'.votes, e.2.voter = e.1 := by
    intro e he
    obtain ⟨w, hw', heq⟩ := hp.mem_votes.mp he
    rw [heq]
    exact (hw.entered _ w hw').1
  have hmatch : ∀ e ∈ p'.votes,
      (newVoteSet p'.type p'.height p'.round vals').checkVoteMatched e.2 = true ∧
        e.2.voter ∈ vals'.validators := by
    intro e he
    obtain ⟨w, hw', heq⟩ := hp.mem_votes.mp he
    obtain ⟨hvoter, hmatched, hval⟩ := hw.entered _ w hw'
    rw [heq, hvals]
    refine ⟨?_, (hvoter ▸ hval : w.voter ∈ vals.validators)⟩
    simp only [VoteSet.checkVoteMatched, newVoteSet, hp.type_eq, hp.height_eq, hp.round_eq]
    exact hmatched
  have hnodup : (p'.votes.map (·.2.voter)).Nodup := by
    have hkeys : p'.votes.map (·.2.voter) = p'.votes.map (·.1) := map_congr_left hvoter
    rw [hkeys, (hp.votes.map _).nodup_iff, List.map_map, VoteSet.toProto, List.map_map]
    exact vs.votes.keys_nodup
  have hmem : (k, v.decoded) ∈ p'.votes := hp.mem_votes.mpr ⟨v, hv, rfl⟩
  have hlookup := hnew.lookup_foldl hmatch hnodup (fun _ _ => rfl) _ hmem
  rwa [hvoter _ hmem] at hlookup

lemma maj23_rebuilt (hw : vs.Wf t h r vals) (hvals : vals'.validators = vals.validators)
    (hp : vs.toProto.Decodes p') {x : Bytes} (hx : x ≠ []) (hmaj : vs.maj23 = some x) :
    (newVoteSetFromProto p' vals').maj23 = some x := by
  have hwf := newVoteSetFromProto_wf p' vals'
  have hfull : (newVoteSetFromProto p' vals').Full :=
    (VoteSet.Full.new _ _ _ _).foldl_addVote (VoteSet.Wf.new _ _ _ _) p'.votes
  have hquorum_eq : vals'.quorum = vals.quorum := by
    unfold ValidatorSet.quorum ValidatorSet.size
    rw [hvals]
  have hsub : (vs.blockVotes x).votes.keys ⊆
      ((newVoteSetFromProto p' vals').blockVotes x).votes.keys := by
    intro k hk
    obtain ⟨v, hv⟩ := isSome_iff_exists.mp (AList.lookup_isSome.mpr hk)
    obtain ⟨hentered, rfl⟩ := hw.counted x k v hv
    have hbucket := hfull.bucket k _ (lookup_rebuilt hw hvals hp hentered)
    rw [v.decoded_bytes] at hbucket
    exact AList.lookup_isSome.mp (by rw [hbucket]; rfl)
  have hquorum : vals'.quorum ≤ ((newVoteSetFromProto p' vals').blockVotes x).sum := by
    rw [hquorum_eq, hwf.sum_eq]
    refine (hw.majority x hmaj).trans ?_
    rw [hw.sum_eq]
    exact ((vs.blockVotes x).votes.keys_nodup.subperm hsub).length_le
  have hdecided := hfull.decided x hx (by rw [hwf.validators_eq]; exact hquorum)
  obtain ⟨y, hy⟩ := isSome_iff_exists.mp hdecided
  rw [hy, hwf.quorum_unique (hwf.majority y hy) hquorum]

lemma exists_of_rebuilt (hp : vs.toProto.Decodes p') {v' : Vote}
    (hv' : (newVoteSetFromProto p' vals').Holds v') : ∃ v, vs.Holds v ∧ v' = v.decoded := by
  obtain ⟨k, hk⟩ := newVoteSetFromProto_holds hv'
  obtain ⟨v, hv, heq⟩ := hp.mem_votes.mp hk
  exact ⟨v, .inl ⟨k, hv⟩, heq⟩

lemma maj23_rebuilt_ne_nil (hp : vs.toProto.Decodes p') :
    (newVoteSetFromProto p' vals').maj23 ≠ some [] := by
  intro hmaj
  have hfull : (newVoteSetFromProto p' vals').Full :=
    (VoteSet.Full.new _ _ _ _).foldl_addVote (VoteSet.Wf.new _ _ _ _) p'.votes
  obtain ⟨v', hv', hhash⟩ := hfull.chosen [] hmaj
  obtain ⟨v, -, rfl⟩ := exists_of_rebuilt hp hv'
  have hbytes : v.hash.bytes = [] := by
    rw [← v.decoded_bytes, hhash]
    rfl
  unfold Vote.decoded at hhash
  rw [if_pos hbytes] at hhash
  cases hhash

end rebuilt

/-- A verifier with the validators and the access control of the node, that reads the certificate
`p` of a block back as `p'`. -/
structure Verifier.Reads (V : Verifier) (env : Env) (block : Block) (p p' : VoteSetProto) :
    Prop where
  ac_eq : V.ac = env.ac
  validators : ∃ vals, V.validatorSet block = .ok vals ∧
    vals.validators = env.validatorSet.validators
  unmarshal : V.unmarshal (env.marshalVoteSet p) = some p'
  decodes : p.Decodes p'

def Block.certificate (block : Block) : Option Bytes :=
  (block.additionalData.bind (·.extraData)).bind (·.lookup tbftAddtionalDataKey)

lemma Block.certificate_attach {block block' : Block} {qc : Bytes}
    (h : block.attach qc = some block') : block'.certificate = some qc := by
  unfold Block.attach at h
  split at h
  · cases h
    simp [Block.certificate, GoMap.lookup_singleton_self]
  · cases h
  · cases h
    simp [Block.certificate]

lemma Verifier.certificate_eq {V : Verifier} {block : Block} {qc : Bytes} {p : VoteSetProto}
    (hqc : block.certificate = some qc) (hp : V.unmarshal qc = some p) :
    V.certificate block = .ok p := by
  unfold Block.certificate at hqc
  unfold Verifier.certificate
  cases hdata : block.additionalData.bind (·.extraData) with
  | none =>
    rw [hdata] at hqc
    cases hqc
  | some extraData =>
    rw [hdata, bind_some] at hqc
    simp [hqc, hp]

def Vote.Endorsed (env : Env) (v : Vote) : Prop :=
  env.ac.verifyConsensusNode v.endorsement v.message = true

structure VoteSet.Certifies (env : Env) (block : Block) (vs : VoteSet) : Prop where
  stored : block.certificate = some (env.marshalVoteSet vs.toProto)
  wf : ∃ height round, vs.Wf .precommit height round env.validatorSet
  majority : vs.maj23 = some block.header.blockHash.bytes
  endorsed : ∀ v, vs.Holds v → v.Endorsed env

lemma VoteSet.Certifies.verifies_iff {env : Env} {block : Block} {vs : VoteSet}
    (hc : vs.Certifies env block) {V : Verifier} {p' : VoteSetProto}
    (hV : V.Reads env block vs.toProto p') :
    V.verifyBlockSignatures (some block) = .ok () ↔ block.header.blockHash.bytes ≠ [] := by
  obtain ⟨vals, hvals, hsame⟩ := hV.validators
  have hcert := Verifier.certificate_eq hc.stored hV.unmarshal
  rw [Verifier.verifyBlockSignatures_some hcert hvals]
  obtain ⟨height, round, hw⟩ := hc.wf
  constructor
  · intro hok hnil
    unfold Verifier.verifyVoteSet at hok
    split at hok
    case h_1 => cases hok
    case h_2 x hmaj =>
    split at hok
    case isTrue => cases hok
    case isFalse hhash =>
      rw [not_not.mp hhash, hnil] at hmaj
      exact maj23_rebuilt_ne_nil hV.decodes hmaj
  · intro hne
    have hmaj := maj23_rebuilt hw hsame hV.decodes hne hc.majority
    have hall : ∀ v ∈ Verifier.blockVotes (newVoteSetFromProto p' vals) block,
        V.ac.verifyConsensusNode v.endorsement v.message = true := by
      intro v hv
      obtain ⟨k, hk⟩ := GoMap.mem_values.mp hv
      have hbytes := ((newVoteSetFromProto_wf p' vals).counted _ k v hk).2
      obtain ⟨w, hheld, rfl⟩ := exists_of_rebuilt hV.decodes (.inr ⟨_, k, hk⟩)
      rw [w.decoded_bytes] at hbytes
      rw [Vote.decoded_eq (hbytes ▸ hne), hV.ac_eq]
      exact hc.endorsed w hheld
    unfold Verifier.verifyVoteSet
    rw [hmaj]
    dsimp only
    rw [if_neg (not_not.mpr rfl), if_pos (all_eq_true.mpr hall)]

def Env.SignsFor (env : Env) (id : NodeId) : Prop :=
  ∀ v : Vote, v.voter = id → v.endorsement = none →
    env.ac.verifyConsensusNode (env.signVote v) v = true

namespace ConsensusTBFTImpl
variable {env : Env} {n n' : ConsensusTBFTImpl}

structure Certified (env : Env) (n : ConsensusTBFTImpl) : Prop where
  votes : n.Votes (env.verifyVote · = true) env
  signs : env.SignsFor n.id
  created : ∀ v ∈ n.created, v.Endorsed env
  committed : ∀ b ∈ n.committed, ∃ vs : VoteSet, vs.Certifies env b

lemma endorsed_of_verifyVote {v : Vote} (h : env.verifyVote v = true) : v.Endorsed env := by
  exact (Bool.and_eq_true_iff.mp h).1

section
variable (hc : n.Certified env)
include hc

lemma Certified.endorsed {v : Vote} (hv : n.heightRoundVoteSet.Holds v) : v.Endorsed env := by
  rcases hc.votes.held v hv with hverified | hcreated
  · exact endorsed_of_verifyVote hverified
  · exact hc.created v hcreated

lemma Certified.createVote (t : VoteType) (hash : Hash) {msg : Option Vote → TBFTMsg}
    (hvotes : (n.createVote env t hash msg).Votes (env.verifyVote · = true) env) :
    (n.createVote env t hash msg).Certified env := by
  refine ⟨hvotes, hc.signs, forall_mem_cons.mpr ⟨?_, hc.created⟩, hc.committed⟩
  exact hc.signs ⟨t, n.id, n.height, n.round, hash, none⟩ rfl rfl

lemma Certified.commit {p : Proposal} {block : Block}
    (hmaj : n.precommitMajority = some p.block.header.blockHash.bytes)
    (hblock : p.block.attach (n.precommitCertificate env) = some block) :
    ∃ vs : VoteSet, vs.Certifies env block := by
  cases hvs : n.heightRoundVoteSet.precommits n.round with
  | none =>
    have hnone : twoThirdsMajority (n.heightRoundVoteSet.precommits n.round) =
        n.precommitMajority := HeightRoundVoteSet.twoThirdsMajority_getVoteSet _ _ _
    rw [hvs, hmaj] at hnone
    cases hnone
  | some vs =>
    have hset : n.heightRoundVoteSet.voteSet n.round .precommit = vs := by
      unfold HeightRoundVoteSet.voteSet
      unfold HeightRoundVoteSet.precommits at hvs
      rw [hvs, getD_some]
    refine ⟨vs, ?_, ⟨_, n.round, hset ▸ hc.votes.wf.voteSet n.round .precommit⟩, ?_, ?_⟩
    · rw [Block.certificate_attach hblock, precommitCertificate, hvs]
      rfl
    · rw [attach_header hblock, ← hmaj, precommitMajority, hset]
    · exact fun v hv => hc.endorsed ⟨n.round, .precommit, hset ▸ hv⟩

lemma Certified.change (hchange : Change env (voteInputs (env.verifyVote · = true) env n.id) n n') :
    n'.Certified env := by
  have hvotes := hc.votes.change hchange
  cases hchange with
  | prevote | precommit => exact hc.createVote _ _ hvotes
  | commit hp hmaj hblock =>
    refine ⟨hvotes, hc.signs, hc.created, forall_mem_cons.mpr ⟨?_, hc.committed⟩⟩
    exact hc.commit hmaj hblock
  | _ => exact { hc with votes := hvotes }

lemma Certified.changes
    (hchanges : Changes env (voteInputs (env.verifyVote · = true) env n.id) n n') :
    n'.Certified env := by
  have hall : n'.Certified env ∧ n'.id = n.id := by
    induction hchanges with
    | refl => exact ⟨hc, rfl⟩
    | tail _ hchange ih =>
      obtain ⟨hc, hid⟩ := ih
      rw [← hid] at hchange
      exact ⟨hc.change hchange, hchange.id_eq.trans hid⟩
  exact hall.1

lemma Certified.replayWal {currentHeight : ℕ} (hn' : n.replayWal env currentHeight = some n') :
    n'.Certified env := by
  obtain ⟨first, hchanges⟩ := hc.votes.replayWal_changes hn'
  have hm : ({ n with heightFirstIndex := first } : ConsensusTBFTImpl).Certified env :=
    { hc with votes := hc.votes.of_view rfl }
  exact hm.changes hchanges

lemma Certified.live {e : LifeEvent} (he : NotImpersonated env n e) (hn' : n.live env e = some n') :
    n'.Certified env := by
  cases e with
  | event e =>
    refine hc.changes (hc.votes.handle_changes (fun v hv => ?_) hn')
    rintro (hid | hverify)
    · exact (he v hv hid).symm
    · exact .inl hverify
  | deleteInternalMsg =>
    cases hn'
    exact hc.change (.queue n _ fun m hm => .inl (mem_of_mem_tail hm))
  | restart currentHeight =>
    have hnew : ({ newConsensus env n.id n.wal with
        created := n.created, committed := n.committed } : ConsensusTBFTImpl).Certified env :=
      { hc with votes := Votes.new _ env n.id hc.votes.logged n.committed }
    exact hnew.replayWal hn'

end

lemma Certified.start {id : NodeId} (henv : env.SignsFor id) (currentHeight : ℕ) :
    (start env id currentHeight).Certified env := by
  have hwal : ∀ v ∈ (⟨0, []⟩ : Wal).votes, env.verifyVote v = true ∨ v ∈ ([] : List Vote) := by
    simp [Wal.votes]
  have hnew : (newConsensus env id ⟨0, []⟩).Certified env :=
    ⟨Votes.new _ env id hwal [], henv, by simp [newConsensus], by simp [newConsensus]⟩
  exact hnew.changes (enterNewHeight_changes _ trivial)

theorem committed_verifies (env : Env) (id : NodeId) (hsigns : env.SignsFor id) (ledger : ℕ)
    (es : List LifeEvent) (n : ConsensusTBFTImpl)
    (hP : Runs.Meets (live env) (NotImpersonated env) (start env id ledger) es)
    (hrun : Runs.run (live env) (start env id ledger) es = some n) (b : Block)
    (hb : b ∈ n.committed) :
    ∃ p, b.certificate = some (env.marshalVoteSet p) ∧
      ∀ V p', Verifier.Reads V env b p p' →
        (V.verifyBlockSignatures (some b) = .ok () ↔ b.header.blockHash.bytes ≠ []) := by
  have hc : n.Certified env := Runs.run_induction (fun _ _ _ hc he hn' => hc.live he hn')
    (Certified.start hsigns ledger) hP hrun
  obtain ⟨vs, hvs⟩ := hc.committed b hb
  exact ⟨vs.toProto, hvs.stored, fun V p' hV => hvs.verifies_iff hV⟩

open Cluster (precommitOf)

lemma fourEnv_signsFor (id : NodeId) : fourEnv.SignsFor id := by
  intro v _ _
  rw [fourEnv.ac.verifyConsensusNode_iff]
  refine ⟨_, rfl, by decide, ?_, rfl⟩
  simp [fourEnv]

def lateVerify (hash : Hash) (precommits : List Event) : List LifeEvent :=
  let block : Block := ⟨⟨1, hash, none, some []⟩, [], none⟩
  let proposal : ProposalProto := ⟨[2], 1, 0, -1, some block, some ⟨⟨[], [2]⟩, []⟩⟩
  ([.externalMsg (.propose (some proposal))] ++ precommits ++
    [.verifyResult ⟨block, true, none⟩] : List Event).map .event

def hashedCommit : List LifeEvent :=
  lateVerify (some [7]) [precommitOf 1 0 (some [7]), precommitOf 2 0 (some [7]),
    precommitOf 3 0 (some [7])]

def emptyCommit : List LifeEvent :=
  lateVerify none [precommitOf 1 0 none, precommitOf 2 0 none, precommitOf 3 0 (some [])]

def fourReader (p : VoteSetProto) : Verifier where
  unmarshal := fun _ => some { p with votes := p.votes.map fun e => (e.1, e.2.decoded) }
  getChainConfigFromFuture := fun _ => some ⟨.tbft, [[[0], [1]], [[2], [3]]]⟩
  getValidatorListFromLedger := none
  ac := fourEnv.ac

lemma fourReader_reads (p : VoteSetProto) (b : Block) : (fourReader p).Reads fourEnv b p
    { p with votes := p.votes.map fun e => (e.1, e.2.decoded) } :=
  ⟨rfl, ⟨fourValidators, rfl, rfl⟩, rfl, ⟨rfl, rfl, rfl, Perm.refl _⟩⟩

theorem committed_verifies_seven :
    ∃ n b V, Runs.run (live fourEnv) (start fourEnv [0] 0) hashedCommit = some n ∧
      b ∈ n.committed ∧ b.header.blockHash = some [7] ∧
      Verifier.verifyBlockSignatures V (some b) = .ok () := by
  obtain ⟨n, hn, b, hb, hseven⟩ : ∃ n,
    Runs.run (live fourEnv) (start fourEnv [0] 0) hashedCommit = some n ∧
      ∃ b ∈ n.committed, b.header.blockHash = some [7] :=
    ⟨_, eq_some_of_isSome (by decide +kernel), by decide +kernel⟩
  obtain ⟨p, -, hverifies⟩ := committed_verifies fourEnv [0] (fourEnv_signsFor [0]) 0
    hashedCommit n (by decide +kernel) hn b hb
  refine ⟨n, b, fourReader p, hn, hb, hseven, ?_⟩
  rw [hverifies _ _ (fourReader_reads p b), hseven]
  decide

/-- A block with an empty hash is published, and a verifier refuses its certificate. -/
theorem committed_not_verifies :
    ∃ n b V p p', Runs.Meets (live fourEnv) (NotImpersonated fourEnv) (start fourEnv [0] 0)
        emptyCommit ∧
      Runs.run (live fourEnv) (start fourEnv [0] 0) emptyCommit = some n ∧ b ∈ n.committed ∧
      b.certificate = some (fourEnv.marshalVoteSet p) ∧ Verifier.Reads V fourEnv b p p' ∧
      V.verifyBlockSignatures (some b) ≠ .ok () := by
  have hmeets : Runs.Meets (live fourEnv) (NotImpersonated fourEnv) (start fourEnv [0] 0)
      emptyCommit := by decide +kernel
  obtain ⟨n, hn, b, hb, hnil⟩ : ∃ n,
    Runs.run (live fourEnv) (start fourEnv [0] 0) emptyCommit = some n ∧
      ∃ b ∈ n.committed, b.header.blockHash = none :=
    ⟨_, eq_some_of_isSome (by decide +kernel), by decide +kernel⟩
  have hc : n.Certified fourEnv := Runs.run_induction (fun _ _ _ hc he hn' => hc.live he hn')
    (Certified.start (fourEnv_signsFor [0]) 0) hmeets hn
  obtain ⟨vs, hvs⟩ := hc.committed b hb
  refine ⟨n, b, fourReader vs.toProto, vs.toProto, _, hmeets, hn, hb, hvs.stored,
    fourReader_reads _ b, ?_⟩
  rw [Ne, hvs.verifies_iff (fourReader_reads _ b), hnil]
  decide

end ConsensusTBFTImpl
end ChainMaker.Tbft
