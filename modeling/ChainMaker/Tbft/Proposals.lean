import ChainMaker.Tbft.Authenticity
import Mathlib.Order.Interval.Finset.Nat

/-! Who proposed the block that a node sends for verification. The proposer is looked up by the
height that the proposal names, and nothing ties the endorser to the voter it names. -/

namespace ChainMaker.Tbft

/-! ### The rotation of the proposers -/

namespace ValidatorSet
open List
variable {n offset : ℕ}

lemma perm_range'_mod (r n : ℕ) : ((range' r n).map (· % n)).Perm (range n) := by
  have hmod := Nat.multiset_Ico_map_mod r n
  change ((range' r (r + n - r)).map (· % n) : Multiset ℕ) = range n at hmod
  rw [Nat.add_sub_cancel_left] at hmod
  exact Multiset.coe_eq_coe.mp hmod

lemma dvd_of_tmod_nonneg {x m : ℤ} (hx : x ≤ 0) (h : 0 ≤ x.tmod m) : m ∣ x := by
  have hneg := Int.tmod_nonneg m (neg_nonneg.mpr hx)
  rw [Int.neg_tmod] at hneg
  exact Int.dvd_of_tmod_eq_zero (le_antisymm (neg_nonneg.mp hneg) h)

def proposerIndex (n offset j : ℕ) : ℤ := (int32 (int32 offset + j)).tmod n

/-- The offset of the height leaves room for those of the rounds. The index of a single validator is
always 0, and where `n` divides the bound a sum may reach it. -/
def Rotates (n offset : ℕ) : Prop :=
  n = 1 ∨ offset + n ≤ 2 ^ 31 ∨ offset + n = 2 ^ 31 + 1 ∧ n ∣ 2 ^ 31

instance : Decidable (Rotates n offset) := inferInstanceAs (Decidable (_ ∨ _))

lemma proposerIndex_eq {j : ℕ} (h : Rotates n offset) (hj : j < n) :
    proposerIndex n offset j = ((offset + j) % n : ℕ) := by
  unfold proposerIndex
  obtain rfl | hn := eq_or_ne n 1
  · rw [Nat.cast_one, Int.tmod_one, Nat.mod_one]
    rfl
  by_cases hsum : offset + j < 2 ^ 31
  · have hint : int32 (int32 offset + j) = (offset + j : ℕ) := by
      simp only [int32, Int.bmod_def]
      omega
    rw [hint]
    exact Int.tmod_eq_emod_of_nonneg (Int.natCast_nonneg _)
  · obtain ⟨heq, hdvd⟩ := (h.resolve_left hn).resolve_left (by omega)
    have hlast : offset + j = 2 ^ 31 := by omega
    have hint : int32 (int32 offset + j) = -(2 ^ 31 : ℕ) := by
      simp only [int32, Int.bmod_def]
      omega
    rw [hint, Int.neg_tmod, hlast, Nat.mod_eq_zero_of_dvd hdvd,
      Int.tmod_eq_zero_of_dvd (Int.natCast_dvd_natCast.mpr hdvd)]
    rfl

lemma rotates_of_nonneg (hpos : 0 < n) (hn : n < 2 ^ 31) (hoffset : offset < 2 ^ 32)
    (h : ∀ j < n, 0 ≤ proposerIndex n offset j) : Rotates n offset := by
  by_contra hnot
  obtain ⟨hone, hroom, hlast⟩ : n ≠ 1 ∧ 2 ^ 31 < offset + n ∧
      ¬(offset + n = 2 ^ 31 + 1 ∧ n ∣ 2 ^ 31) := by
    simpa [Rotates] using hnot
  have hneg : ∀ j < n, 2 ^ 31 ≤ offset + j → offset + j ≤ 2 ^ 32 →
      (n : ℤ) ∣ (offset + j : ℕ) - 2 ^ 32 := by
    intro j hj hle hle'
    have hint : int32 (int32 offset + j) = (offset + j : ℕ) - 2 ^ 32 := by
      simp only [int32, Int.bmod_def]
      omega
    exact dvd_of_tmod_nonneg (by omega) (hint ▸ h j hj)
  -- the first sum that reaches the bound, and the next one, cannot both be multiples of `n`
  have hfirst := hneg (2 ^ 31 - offset) (by omega) (by omega) (by omega)
  by_cases hnext : 2 ^ 31 - offset + 1 < n
  · have hsecond := hneg _ hnext (by omega) (by omega)
    have hdvd := Int.dvd_sub hsecond hfirst
    rw [sub_sub_sub_cancel_right, ← Nat.add_assoc, Nat.cast_succ, add_sub_cancel_left] at hdvd
    exact hone (Nat.dvd_one.mp (Int.natCast_dvd_natCast.mp hdvd))
  · refine hlast ⟨by omega, ?_⟩
    have heq : ((offset + (2 ^ 31 - offset) : ℕ) : ℤ) - 2 ^ 32 = -(2 ^ 31 : ℕ) := by omega
    rw [heq, Int.dvd_neg] at hfirst
    exact Int.natCast_dvd_natCast.mp hfirst

theorem getProposer_rotates_iff (valSet : ValidatorSet) (height round : ℕ)
    (hne : valSet.validators ≠ []) (hblocks : 0 < valSet.blocksPerProposer)
    (hround : round + valSet.size < 2 ^ 31) :
    ((range' round valSet.size).map fun r : ℕ => valSet.getProposer height r).Perm
        (valSet.validators.map some) ↔
      Rotates valSet.size ((height + 1) % 2 ^ 64 / valSet.blocksPerProposer % 2 ^ 32) := by
  generalize hoffset : (height + 1) % 2 ^ 64 / valSet.blocksPerProposer % 2 ^ 32 = offset
  let turn (j : ℕ) : Option NodeId := valSet.getByIndex (proposerIndex valSet.size offset j)
  have hturn : ∀ r : ℕ, valSet.getProposer height r = turn (r % valSet.size) := by
    intro r
    have hlow : int32 ((height + 1) % 2 ^ 64 / valSet.blocksPerProposer : ℕ) = int32 offset := by
      rw [← hoffset]
      exact (Int.emod_bmod _ _).symm
    rw [getProposer, if_neg (by simp [hne, hblocks.ne'])]
    rw [hlow, Int.tmod_eq_emod_of_nonneg (Int.natCast_nonneg _), ← Int.natCast_mod]
    rfl
  have hrounds : ((range' round valSet.size).map fun r : ℕ => valSet.getProposer height r).Perm
      ((range valSet.size).map turn) := by
    have hmap := (perm_range'_mod round valSet.size).map turn
    simpa only [map_map, Function.comp_def, hturn] using hmap
  constructor
  · intro h
    refine rotates_of_nonneg (length_pos_iff.mpr hne) (by omega) (by omega) fun j hj => ?_
    have hmem := (hrounds.symm.trans h).subset (mem_map_of_mem (mem_range.mpr hj))
    obtain ⟨v, -, hv⟩ := mem_map.mp hmem
    by_contra hlt
    change some v = valSet.getByIndex _ at hv
    rw [getByIndex, if_pos (not_le.mp hlt)] at hv
    cases hv
  · intro h
    have hentry : ∀ j ∈ range valSet.size,
        turn j = valSet.validators[(offset + j) % valSet.size]? := by
      intro j hj
      change valSet.getByIndex (proposerIndex valSet.size offset j) = _
      rw [proposerIndex_eq h (mem_range.mp hj), getByIndex, if_neg (by omega), Int.toNat_natCast]
    have hmap := (perm_range'_mod offset valSet.size).map (valSet.validators[·]?)
    rw [range'_eq_map_range, map_map, map_map] at hmap
    rw [map_congr_left hentry] at hrounds
    refine hrounds.trans (hmap.trans (.of_eq ?_))
    exact ext_getElem (by simp [size]) (by simp [size])

theorem getProposer_rotates_three :
    ((range' 5 3).map fun r : ℕ => getProposer ⟨[[1], [2], [3]], 2⟩ 8 r).Perm
      ([[1], [2], [3]].map some) :=
  (getProposer_rotates_iff ⟨[[1], [2], [3]], 2⟩ 8 5 (by decide) (by decide) (by decide)).mpr
    (by decide +kernel)

theorem getProposer_narrowed :
    getProposer ⟨[[1], [2]], 1⟩ (2 ^ 31 - 1) 1 = none := by decide +kernel

end ValidatorSet

/-! ### The block that a node takes up -/

namespace ConsensusTBFTImpl

def TakesUp (n n' : ConsensusTBFTImpl) (p : ProposalProto) (block : Block) : Prop :=
  n.verifingProposal = none ∧ p.block = some block ∧
    n'.verifingProposal = some ⟨p.voter, p.height, p.round, p.polRound, block, p.endorsement⟩

/-- The proposer of the node's height and round made the proposal, and made it for them and for
the height of its block. -/
structure ProposedInTurn (env : Env) (nodeOf : Member → NodeId) (n : ConsensusTBFTImpl)
    (p : ProposalProto) (block : Block) : Prop where
  signer : ∃ e, p.endorsement = some e ∧
    env.acProposal.verifySigner e.signer p.message e.signature = true ∧
    env.validatorSet.getProposer n.height n.round = some (nodeOf e.signer)
  height_eq : p.height = n.height
  round_eq : p.round = n.round
  block_eq : p.height = block.header.blockHeight

variable {env : Env} {n n' : ConsensusTBFTImpl} {p : ProposalProto} {block : Block}

lemma procPropose_takesUp (hn' : n.procPropose env p = some n') (htakes : TakesUp n n' p block) :
    env.verifyProposal p = true ∧ n.height = block.header.blockHeight ∧ n.round = p.round ∧
      (env.validatorSet.getProposer p.height p.round).getD [] = p.voter := by
  obtain ⟨hnone, hblock, hsome⟩ := htakes
  obtain ⟨b, hb, rfl⟩ := Option.map_eq_some_iff.mp hn'
  obtain rfl : b = block := Option.mem_unique hb hblock
  split at hsome
  case isTrue =>
    rw [hnone] at hsome
    cases hsome
  case isFalse hguard =>
  push Not at hguard
  obtain ⟨hverify, hreceive, hproposer, -, -⟩ := hguard
  simp only [canReceiveProposal, Bool.and_eq_true, decide_eq_true_eq] at hreceive
  exact ⟨hverify, hreceive.1.1, hreceive.1.2, hproposer⟩

theorem procPropose_inTurn_iff (env : Env) (nodeOf : Member → NodeId) (n n' : ConsensusTBFTImpl)
    (p : ProposalProto) (block : Block) (hn' : n.procPropose env p = some n')
    (htakes : TakesUp n n' p block) :
    ProposedInTurn env nodeOf n p block ↔
      p.height = block.header.blockHeight ∧
        (env.validatorSet.getProposer p.height p.round).isSome = true ∧
        p.endorsement.any (fun e => nodeOf e.signer = p.voter) = true := by
  obtain ⟨hverify, hheight, hround, hproposer⟩ := procPropose_takesUp hn' htakes
  obtain ⟨e, he, -, hsig, -⟩ := env.acProposal.verifyConsensusNode_iff.mp hverify
  constructor
  · rintro ⟨⟨e', he', -, hturn⟩, hpn, -, hpb⟩
    obtain rfl : e = e' := Option.mem_unique he he'
    rw [← hpn, hround] at hturn
    rw [hturn] at hproposer ⊢
    refine ⟨hpb, rfl, ?_⟩
    rw [he]
    exact decide_eq_true hproposer
  · rintro ⟨hpb, hsome, hvoter⟩
    have hpn : p.height = n.height := hpb.trans hheight.symm
    refine ⟨⟨e, he, hsig, ?_⟩, hpn, hround.symm, hpb⟩
    obtain ⟨v, hv⟩ := Option.isSome_iff_exists.mp hsome
    rw [hv, Option.getD_some] at hproposer
    rw [he, Option.any_some, decide_eq_true_eq] at hvoter
    rw [← hpn, hround, hv, hproposer, hvoter]

theorem handleVerifyResult_stale (env : Env) (n : ConsensusTBFTImpl) (p : Proposal)
    (r : VerifyResult) (replayMode : Bool) (hp : n.verifingProposal = some p)
    (hne : p.block.header.blockHash.bytes ≠ r.verifiedBlock.header.blockHash.bytes) :
    n.handleVerifyResult env r replayMode = some { n with verifingProposal := none } := by
  simp only [handleVerifyResult, hp]
  split
  · rfl
  · rw [if_neg fun h => hne h.1, if_pos (Or.inr hne)]

def signingEnv : Env :=
  { fourEnv with acProposal :=
    ⟨1, fun m _ sig => sig = m.memberInfo, fun _ => some .consensusNode⟩ }

def proposalOf (height : ℕ) (voter signer : UInt8) : ProposalProto :=
  ⟨[voter], height, 0, -1, some ⟨⟨1, some [7], none, some []⟩, [7], none⟩,
    some ⟨⟨[], [signer]⟩, [signer]⟩⟩

theorem procPropose_inTurn_two :
    ∃ n' block, (start signingEnv [0] 0).procPropose signingEnv (proposalOf 1 2 2) = some n' ∧
      TakesUp (start signingEnv [0] 0) n' (proposalOf 1 2 2) block ∧
      ProposedInTurn signingEnv (·.memberInfo) (start signingEnv [0] 0) (proposalOf 1 2 2)
        block := by
  refine ⟨_, _, rfl, ⟨rfl, rfl, rfl⟩, ?_⟩
  refine (procPropose_inTurn_iff signingEnv (·.memberInfo) _ _ _ _ rfl ⟨rfl, rfl, rfl⟩).mpr ?_
  decide +kernel

def TakenOutOfTurn (p : ProposalProto) : Prop :=
  ∃ n' block, (start signingEnv [0] 0).procPropose signingEnv p = some n' ∧
    TakesUp (start signingEnv [0] 0) n' p block ∧
    ¬ProposedInTurn signingEnv (·.memberInfo) (start signingEnv [0] 0) p block

/-- Node 3 proposes in the name of node 2, or for a height at which it is its own turn. -/
theorem procPropose_outOfTurn :
    TakenOutOfTurn (proposalOf 1 2 3) ∧ TakenOutOfTurn (proposalOf 2 3 3) := by
  refine ⟨⟨_, _, rfl, ⟨rfl, rfl, rfl⟩, fun hturn => ?_⟩,
    ⟨_, _, rfl, ⟨rfl, rfl, rfl⟩, fun hturn => ?_⟩⟩
  · obtain ⟨e, he, -, hproposer⟩ := hturn.signer
    cases he
    exact absurd hproposer (by decide +kernel)
  · exact absurd hturn.height_eq (by decide +kernel)

def blockSeven : Block := ⟨⟨1, some [7], none, some []⟩, [7], none⟩

def blockNine : Block := ⟨⟨1, some [9], none, some []⟩, [9], none⟩

def verifyingSeven : ConsensusTBFTImpl :=
  { start signingEnv [0] 0 with verifingProposal := some ⟨[2], 1, 0, -1, blockSeven, none⟩ }

theorem handleVerifyResult_stale_seven :
    verifyingSeven.handleVerifyResult signingEnv ⟨blockNine, true, none⟩ false =
      some { verifyingSeven with verifingProposal := none } :=
  handleVerifyResult_stale _ _ _ _ _ rfl (by decide)

/-- A late answer for another block, good or bad, and then the answer for the node's own: the
node does not take up the block it would have taken up without the late answer. -/
theorem handleVerifyResult_stale_loses :
    ((verifyingSeven.handleVerifyResult signingEnv ⟨blockSeven, true, none⟩ false).any
        fun n => n.proposal.isSome) = true ∧
      ∀ success : Bool,
        (verifyingSeven.handleVerifyResult signingEnv ⟨blockNine, success, none⟩ false).any
            (fun n => n.verifingProposal.isSome) = false ∧
          ((verifyingSeven.handleVerifyResult signingEnv ⟨blockNine, success, none⟩ false).bind
            fun n => n.handleVerifyResult signingEnv ⟨blockSeven, true, none⟩ false).any
            (fun n => n.proposal.isSome) = false := by
  decide +kernel

end ConsensusTBFTImpl
end ChainMaker.Tbft
