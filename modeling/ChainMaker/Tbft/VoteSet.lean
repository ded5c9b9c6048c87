import ChainMaker.AccessControl

/-! The vote sets of TBFT: votes counted per validator and per block hash, for every height,
round and vote type. -/

namespace ChainMaker.Tbft

abbrev NodeId := Bytes

/-- A byte slice; `none` is the nil slice, which reads as the empty one. -/
abbrev Hash := Option Bytes

def Hash.bytes (h : Hash) : Bytes := Option.getD h []

def int32 (x : ℤ) : ℤ := x.bmod (2 ^ 32)

inductive VoteType
  | prevote
  | precommit
  | other (tag : ℤ)
deriving DecidableEq

structure Vote where
  type : VoteType
  voter : NodeId
  height : ℕ
  round : ℤ
  hash : Hash
  endorsement : Option EndorsementEntry
deriving DecidableEq

def Vote.message (v : Vote) : Vote := { v with endorsement := none }

structure ValidatorSet where
  validators : List NodeId
  blocksPerProposer : ℕ
deriving DecidableEq

def newValidatorSet (validators : List NodeId) (blocksPerProposer : ℕ) : ValidatorSet :=
  ⟨validators.insertionSort (· ≤ ·), blocksPerProposer⟩

namespace ValidatorSet
variable (valSet : ValidatorSet)

def size : ℕ := valSet.validators.length

def hasValidator (validator : NodeId) : Bool := valSet.validators.contains validator

def getByIndex (index : ℤ) : Option NodeId :=
  if index < 0 then none else valSet.validators[index.toNat]?

/-- Nobody proposes either where `blocksPerProposer` is zero: the source divides by it. -/
def getProposer (height : ℕ) (round : ℤ) : Option NodeId :=
  if valSet.validators.isEmpty ∨ valSet.blocksPerProposer = 0 then none
  else
    let heightOffset := int32 ((height + 1) % 2 ^ 64 / valSet.blocksPerProposer : ℕ)
    let roundOffset := round.tmod valSet.size
    valSet.getByIndex ((int32 (heightOffset + roundOffset)).tmod valSet.size)

def quorum : ℕ := valSet.size * 2 / 3 + 1

/-- The source counts in `int32`: the same numbers up to `2 ^ 30` validators, where twice the
size leaves the type. -/
lemma int32_quorum (h : valSet.size < 2 ^ 30) :
    int32 valSet.size = valSet.size ∧
      (int32 (int32 valSet.size * 2)).tdiv 3 + 1 = valSet.quorum := by
  have hsize : int32 valSet.size = valSet.size :=
    Int.bmod_eq_of_le (by omega) (by omega)
  have htwice : int32 (valSet.size * 2) = valSet.size * 2 :=
    Int.bmod_eq_of_le (by omega) (by omega)
  refine ⟨hsize, ?_⟩
  rw [hsize, htwice, Int.tdiv_eq_ediv_of_nonneg (by omega), quorum]
  omega

end ValidatorSet

structure BlockVotes where
  votes : GoMap NodeId Vote
  sum : ℕ

def newBlockVotes : BlockVotes := ⟨∅, 0⟩

def BlockVotes.addVote (bv : BlockVotes) (vote : Vote) : BlockVotes :=
  ⟨bv.votes.insert vote.voter vote, bv.sum + 1⟩

structure VoteSet where
  type : VoteType
  height : ℕ
  round : ℤ
  sum : ℕ
  maj23 : Hash
  votes : GoMap NodeId Vote
  /-- Keyed by the bytes that the source encodes in base 64. -/
  votesByBlock : GoMap Bytes BlockVotes
  validators : ValidatorSet

inductive VoteError
  | unexceptedStep
  | invalidValidator
  | voteForDifferentHash
deriving DecidableEq

def newVoteSet (voteType : VoteType) (height : ℕ) (round : ℤ) (validators : ValidatorSet) :
    VoteSet :=
  ⟨voteType, height, round, 0, none, ∅, ∅, validators⟩

namespace VoteSet
variable (vs : VoteSet)

def checkVoteMatched (vote : Vote) : Bool :=
  vote.type = vs.type && vote.height = vs.height && vote.round = vs.round

def blockVotes (hash : Bytes) : BlockVotes := (vs.votesByBlock.lookup hash).getD newBlockVotes

def count (vote : Vote) : VoteSet :=
  let old := vs.blockVotes vote.hash.bytes
  let new := old.addVote vote
  let counted := { vs with
    votes := vs.votes.insert vote.voter vote
    sum := vs.sum + 1
    votesByBlock := vs.votesByBlock.insert vote.hash.bytes new }
  if old.sum < vs.validators.quorum ∧ vs.validators.quorum ≤ new.sum ∧ vs.maj23 = none then
    { counted with
      maj23 := vote.hash
      votes := new.votes.entries.foldl (fun m e => m.insert e.1 e.2) counted.votes }
  else counted

def addVote (vote : Vote) : VoteSet × Except VoteError Bool :=
  if !vs.checkVoteMatched vote then (vs, .error .unexceptedStep)
  else if !vs.validators.hasValidator vote.voter then (vs, .error .invalidValidator)
  else
    match vs.votes.lookup vote.voter with
    | some v =>
      if vote.hash.bytes = v.hash.bytes then (vs, .ok false)
      else (vs, .error .voteForDifferentHash)
    | none => (vs.count vote, .ok true)

def hasTwoThirdsAny : Bool :=
  let leftSum := vs.validators.size + 2 ^ 64 - vs.sum
  vs.votesByBlock.values.all fun v => (v.sum + leftSum) % 2 ^ 64 < vs.validators.quorum

def hasTwoThirdsNoMajority : Bool := vs.validators.quorum ≤ vs.sum

end VoteSet

def twoThirdsMajority (vs : Option VoteSet) : Hash := vs.bind (·.maj23)

structure VoteSetProto where
  type : VoteType
  height : ℕ
  round : ℤ
  votes : List (NodeId × Vote)

def VoteSet.toProto (vs : VoteSet) : VoteSetProto :=
  ⟨vs.type, vs.height, vs.round, vs.votes.entries.map fun e => (e.1, e.2)⟩

/-- The votes in the order in which the map is walked; those that are refused are only
logged. -/
def newVoteSetFromProto (vsProto : VoteSetProto) (validators : ValidatorSet) : VoteSet :=
  vsProto.votes.foldl (fun vs e => (vs.addVote e.2).1)
    (newVoteSet vsProto.type vsProto.height vsProto.round validators)

structure RoundVoteSet where
  height : ℕ
  round : ℤ
  prevotes : VoteSet
  precommits : VoteSet

structure RoundVoteSetProto where
  height : ℕ
  round : ℤ
  prevotes : Option VoteSetProto
  precommits : Option VoteSetProto

/-- A vote set that is missing in the message is dereferenced, and the node crashes. -/
def newRoundVoteSetFromProto (rvs : RoundVoteSetProto) (validators : ValidatorSet) :
    Option RoundVoteSet := do
  let prevotes ← rvs.prevotes
  let precommits ← rvs.precommits
  return ⟨rvs.height, rvs.round, newVoteSetFromProto prevotes validators,
    newVoteSetFromProto precommits validators⟩

structure HeightRoundVoteSet where
  height : ℕ
  round : ℤ
  roundVoteSets : GoMap ℤ RoundVoteSet
  validators : ValidatorSet

def newHeightRoundVoteSet (height : ℕ) (round : ℤ) (validators : ValidatorSet) :
    HeightRoundVoteSet :=
  ⟨height, round, ∅, validators⟩

namespace RoundVoteSet

def get (rvs : RoundVoteSet) : VoteType → Option VoteSet
  | .prevote => some rvs.prevotes
  | .precommit => some rvs.precommits
  | .other _ => none

def set (rvs : RoundVoteSet) (voteType : VoteType) (vs : VoteSet) : RoundVoteSet :=
  match voteType with
  | .prevote => { rvs with prevotes := vs }
  | .precommit => { rvs with precommits := vs }
  | .other _ => rvs

end RoundVoteSet

namespace HeightRoundVoteSet
variable (hvs : HeightRoundVoteSet)

def newRound (round : ℤ) : RoundVoteSet :=
  ⟨hvs.height, round, newVoteSet .prevote hvs.height round hvs.validators,
    newVoteSet .precommit hvs.height round hvs.validators⟩

def getRoundVoteSet (round : ℤ) : Option RoundVoteSet := hvs.roundVoteSets.lookup round

def getVoteSet (round : ℤ) (voteType : VoteType) : Option VoteSet :=
  (hvs.getRoundVoteSet round).bind (·.get voteType)

def prevotes (round : ℤ) : Option VoteSet := hvs.getVoteSet round .prevote

def precommits (round : ℤ) : Option VoteSet := hvs.getVoteSet round .precommit

def addVote (vote : Vote) : Option (HeightRoundVoteSet × Except VoteError Bool) := do
  let rvs := (hvs.getRoundVoteSet vote.round).getD (hvs.newRound vote.round)
  let (vs, res) := (← rvs.get vote.type).addVote vote
  return ({ hvs with
    roundVoteSets := hvs.roundVoteSets.insert vote.round (rvs.set vote.type vs) }, res)

end HeightRoundVoteSet

end ChainMaker.Tbft
