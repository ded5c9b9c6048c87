import ChainMaker.Tbft.Handlers
import Mathlib.Data.Prod.Lex

/-! A node only moves forward through heights, rounds and steps. So it creates at most one vote
of each type in a round, and what it creates is backed by the vote sets it holds. -/

namespace ChainMaker.Tbft
open Option List HeightRoundVoteSet

abbrev Position := ℕ ×ₗ ℤ ×ₗ ℕ

def position (height : ℕ) (round : ℤ) (step : Step) : Position :=
  toLex (height, toLex (round, step.rank))

lemma position_le {h h' : ℕ} {r r' : ℤ} {s s' : Step} : position h r s ≤ position h' r' s' ↔
      h < h' ∨ h = h' ∧ (r < r' ∨ r = r' ∧ s.rank ≤ s'.rank) := by
  simp [position, Prod.Lex.toLex_le_toLex]

lemma position_lt {h h' : ℕ} {r r' : ℤ} {s s' : Step} : position h r s < position h' r' s' ↔
      h < h' ∨ h = h' ∧ (r < r' ∨ r = r' ∧ s.rank < s'.rank) := by
  simp [position, Prod.Lex.toLex_lt_toLex]

def VoteType.step : VoteType → Step
  | .prevote => .prevote
  | .precommit => .precommit
  | .other _ => .newHeight

def Vote.position (v : Vote) : Position := Tbft.position v.height v.round v.type.step

def Event.verified : Event → Option Bytes
  | .verifyResult r => some r.verifiedBlock.header.blockHash.bytes
  | _ => none

namespace ConsensusTBFTImpl

def position (n : ConsensusTBFTImpl) : Position := Tbft.position n.height n.round n.step

section cases
variable {env : Env} {n n' : ConsensusTBFTImpl} {r : ℤ}

def precommitMajority (n : ConsensusTBFTImpl) : Hash :=
  (n.heightRoundVoteSet.voteSet n.round .precommit).maj23

lemma eq_some_of_isNilHash {hash : Hash} {x : Bytes} (hnil : ¬isNilHash hash = true)
    (hx : hash.bytes = x) : hash = some x := by
  cases hash with
  | none => exact absurd (by decide) hnil
  | some y => exact congrArg some hx

lemma enterCommit_cases {h : ℕ} (hn' : n.enterCommit env h r = some n') :
    n' = n ∨ (n.height = h ∧ n.round ≤ r ∧ (n.round = r → n.step = .precommit)) ∧
      (isNilHash n.precommitMajority = true ∧
          n' = { n with step := .commit }.enterNewRound n.height (int32 (r + 1)) ∨
        ∃ p, n.proposal = some p ∧ isNilHash p.block.header.blockHash = false ∧
          n.precommitMajority = some p.block.header.blockHash.bytes ∧
          { n with step := .commit }.commitProposal env p = some n') := by
  unfold enterCommit at hn'
  dsimp only [precommits] at hn'
  rw [twoThirdsMajority_getVoteSet] at hn'
  split_ifs at hn' with hguard hnil
  · exact .inl (some.inj hn').symm
  · push Not at hguard
    exact .inr ⟨hguard, .inl ⟨hnil, (some.inj hn').symm⟩⟩
  push Not at hguard
  split at hn'
  case h_1 => cases hn'
  case h_2 p hp =>
  split_ifs at hn' with hhash
  have hmaj := eq_some_of_isNilHash hnil (not_not.mp hhash)
  rw [hmaj, isNilHash] at hnil
  exact .inr ⟨hguard, .inr ⟨p, hp, Bool.eq_false_iff.mpr hnil, hmaj, hn'⟩⟩

/-- What follows a counted vote of either type: a majority lets the node go on, and so does the end
of its possibility, and a quorum starts the timer. -/
def tallied (n : ConsensusTBFTImpl) (s : Step) (r : ℤ) (voteSet : Option VoteSet) (triggered : Bool)
    (goes : Bytes → Prop) [DecidablePred goes] (enter : Option ConsensusTBFTImpl)
    (timed : ConsensusTBFTImpl) : Option ConsensusTBFTImpl :=
  if n.step ≠ s then some n
  else
    match twoThirdsMajority voteSet with
    | none =>
      if n.round = r ∧ voteSet.any (·.hasTwoThirdsAny) then enter
      else if n.round = r ∧ voteSet.any (·.hasTwoThirdsNoMajority) ∧ ¬triggered then some timed
      else some n
    | some hash => if goes hash then enter else some n

lemma addPrevoteVote_eq (v : Vote) : n.addPrevoteVote env v = n.tallied .prevote v.round
    (n.heightRoundVoteSet.prevotes v.round) n.triggeredTimeoutPrevote
    (fun hash => n.proposal.isSome ∨ isNilHash (some hash)) (n.enterPrecommit env n.height n.round)
    { n.addTimeout n.height n.round .precommit with triggeredTimeoutPrevote := true } := rfl

lemma addPrecommitVote_eq (v : Vote) : n.addPrecommitVote env v = n.tallied .precommit v.round
    (n.heightRoundVoteSet.precommits v.round) n.triggeredTimeoutPrecommit
    (fun hash => isNilHash (some hash) ∨
      n.proposal.any (fun p => hash = p.block.header.blockHash.bytes))
    (n.enterCommit env n.height n.round)
    { n.addTimeout n.height n.round .commit with triggeredTimeoutPrecommit := true } := rfl

lemma tallied_cases {s : Step} {voteSet : Option VoteSet} {triggered : Bool}
    {goes : Bytes → Prop} [DecidablePred goes] {enter : Option ConsensusTBFTImpl}
    {timed : ConsensusTBFTImpl} (h : n.tallied s r voteSet triggered goes enter timed = some n') :
    n' = n ∨ enter = some n' ∨
      n.round = r ∧ voteSet.any (·.hasTwoThirdsNoMajority) = true ∧ n' = timed := by
  unfold tallied at h
  split at h
  · exact .inl (some.inj h).symm
  split at h
  · split_ifs at h with hnone hquorum
    · exact .inr (.inl h)
    · exact .inr (.inr ⟨hquorum.1, hquorum.2.1, (some.inj h).symm⟩)
    · exact .inl (some.inj h).symm
  · split_ifs at h
    · exact .inr (.inl h)
    · exact .inl (some.inj h).symm

lemma onVote_cases {v : Vote} (h : n.onVote env v = some n') : n' = n ∨
    n.enterPrecommit env n.height n.round = some n' ∨ n.enterCommit env n.height n.round = some n' ∨
    ∃ s prevote precommit, (s = .precommit →
        (n.heightRoundVoteSet.prevotes n.round).any (·.hasTwoThirdsNoMajority) = true) ∧
      n' = { n.addTimeout n.height n.round s with
        triggeredTimeoutPrevote := prevote, triggeredTimeoutPrecommit := precommit } := by
  unfold onVote at h
  split at h
  · rcases tallied_cases h with h | h | ⟨hround, hany, h⟩
    · exact .inl h
    · exact .inr (.inl h)
    · exact .inr (.inr (.inr ⟨_, _, _, fun _ => hround ▸ hany, h⟩))
  · rcases tallied_cases h with h | h | ⟨-, -, h⟩
    · exact .inl h
    · exact .inr (.inr (.inl h))
    · exact .inr (.inr (.inr ⟨.commit, _, _, nofun, h⟩))
  · exact .inl (some.inj h).symm

lemma handleVerifyResult_cases {r : VerifyResult} {replayMode : Bool}
    (hn' : n.handleVerifyResult env r replayMode = some n') :
    n' = n ∨ n' = { n with verifingProposal := none } ∨ ∃ p, n.verifingProposal = some p ∧
      p.block.header.blockHash.bytes = r.verifiedBlock.header.blockHash.bytes ∧
      (n.precommitMajority = some p.block.header.blockHash.bytes ∧
          ((n.adoptProposal p replayMode).commitProposal env p).map shareProposal = some n' ∨
        n.precommitMajority ≠ some p.block.header.blockHash.bytes ∧ n.step = .propose ∧
          n' = (n.adoptProposal p replayMode).enterPrevote env n.height n.round) := by
  unfold handleVerifyResult at hn'
  dsimp only [precommits] at hn'
  rw [twoThirdsMajority_getVoteSet] at hn'
  split at hn'
  case h_1 => exact .inl (some.inj hn').symm
  case h_2 p hp =>
  split_ifs at hn' with hfailed hquorum hstep
  · exact .inr (.inl (some.inj hn').symm)
  · exact .inr (.inr ⟨p, hp, hquorum.1, .inl ⟨hquorum.2, hn'⟩⟩)
  · exact .inr (.inl (some.inj hn').symm)
  · exact .inl (some.inj hn').symm
  · push Not at hstep
    exact .inr (.inr ⟨p, hp, hstep.2, .inr ⟨fun hmaj => hquorum ⟨hstep.2, hmaj⟩, hstep.1,
      (some.inj hn').symm⟩⟩)

end cases

section frame
variable (env : Env) (n : ConsensusTBFTImpl)

def record (n : ConsensusTBFTImpl) : NodeId × List Vote × List Block × List TBFTMsg :=
  (n.id, n.created, n.committed, n.internalMsgC)

@[simp] lemma record_enterPropose (h : ℕ) (r : ℤ) : (n.enterPropose h r).record = n.record := by
  unfold enterPropose
  split <;> rfl

@[simp] lemma record_enterNewRound (h : ℕ) (r : ℤ) : (n.enterNewRound h r).record = n.record := by
  unfold enterNewRound
  split
  · rfl
  rw [record_enterPropose]
  rfl

def atHeight (height : ℕ) : ConsensusTBFTImpl :=
  { n with
    height := height
    round := 0
    step := .newHeight
    proposal := none
    verifingProposal := none
    triggeredTimeoutPrevote := false
    triggeredTimeoutPrecommit := false
    heightRoundVoteSet := newHeightRoundVoteSet height 0 env.validatorSet }

lemma deleteWalEntry_eq (num index : ℕ) :
    ∃ wal, n.deleteWalEntry num index = { n with wal := wal } ∧
      (wal = n.wal ∨ wal = n.wal.truncateFront index) := by
  unfold deleteWalEntry
  split
  · exact ⟨n.wal, rfl, .inl rfl⟩
  · exact ⟨n.wal.truncateFront index, rfl, .inr rfl⟩

lemma enterNewHeight_eq {h : ℕ} (hlt : n.height < h) (replayMode : Bool) :
    ∃ wal, (wal = n.wal ∨ wal = n.wal.truncateFront n.wal.lastIndex) ∧
      n.enterNewHeight env h replayMode = (atHeight env { n with
        heightFirstIndex := if replayMode then n.heightFirstIndex else n.wal.lastIndex + 1
        wal := wal } h).enterNewRound h 0 := by
  unfold enterNewHeight
  rw [if_neg (not_le.mpr hlt)]
  cases replayMode with
  | true => exact ⟨n.wal, .inl rfl, rfl⟩
  | false =>
    obtain ⟨wal, heq, hwal⟩ :=
      deleteWalEntry_eq { n with heightFirstIndex := n.wal.lastIndex + 1 } h
      n.wal.lastIndex
    refine ⟨wal, hwal, ?_⟩
    rw [if_neg Bool.false_ne_true, heq]
    rfl

@[simp] lemma record_enterNewHeight (h : ℕ) (replayMode : Bool) :
    (n.enterNewHeight env h replayMode).record = n.record := by
  by_cases hlt : n.height < h
  · obtain ⟨wal, -, heq⟩ := enterNewHeight_eq env n hlt replayMode
    rw [heq, record_enterNewRound]
    rfl
  · rw [enterNewHeight, if_pos (not_lt.mp hlt)]

@[simp] lemma record_saveUnless (replayMode : Bool) (data : WalData) :
    (n.saveUnless replayMode data).record = n.record := by
  cases replayMode <;> rfl

@[simp] lemma height_saveUnless (replayMode : Bool) (data : WalData) :
    (n.saveUnless replayMode data).height = n.height := by
  cases replayMode <;> rfl

@[simp] lemma round_saveUnless (replayMode : Bool) (data : WalData) :
    (n.saveUnless replayMode data).round = n.round := by
  cases replayMode <;> rfl

@[simp] lemma record_adoptProposal (p : Proposal) (replayMode : Bool) :
    (n.adoptProposal p replayMode).record = n.record := by
  cases replayMode <;> rfl

@[simp] lemma hvs_adoptProposal (p : Proposal) (replayMode : Bool) :
    (n.adoptProposal p replayMode).heightRoundVoteSet = n.heightRoundVoteSet := by
  cases replayMode <;> rfl

@[simp] lemma height_adoptProposal (p : Proposal) (replayMode : Bool) :
    (n.adoptProposal p replayMode).height = n.height := by
  cases replayMode <;> rfl

end frame

section progress
variable {env : Env} {n n' : ConsensusTBFTImpl} {vote : Vote} {ti : TimeoutInfo} {h : ℕ}

def Timely (n : ConsensusTBFTImpl) (ti : TimeoutInfo) : Prop :=
  ti.height < n.height ∨ ti.height = n.height ∧ ti.round ≤ n.round

def InTime (n : ConsensusTBFTImpl) : Prop :=
  ∀ ti ∈ n.timeScheduler.ti :: n.timeScheduler.timeoutC, n.Timely ti

structure Progress (n : ConsensusTBFTImpl) : Prop where
  timely : n.InTime
  voter : ∀ v ∈ n.created, v.voter = n.id
  created_le : ∀ v ∈ n.created, v.position ≤ n.position
  created_lt : n.created.Pairwise fun v w => w.position < v.position
  proposal : ∀ p, n.proposal = some p ∨ n.verifingProposal = some p →
    p.block.header.blockHeight = n.height

lemma Timely.mono (h : n.Timely ti) (hle : n.position ≤ n'.position) : n'.Timely ti := by
  unfold Timely at h ⊢
  have := position_le.mp hle
  omega

lemma InTime.advance (h : n.InTime) (htimer : n'.timeScheduler = n.timeScheduler)
    (hle : n.position ≤ n'.position) : n'.InTime := by
  rw [InTime, htimer]
  exact fun ti hti => (h ti hti).mono hle

lemma mem_addTimeoutInfo {ts : TimeScheduler} {t ti : TimeoutInfo}
    (h : ti ∈ (ts.addTimeoutInfo t).ti :: (ts.addTimeoutInfo t).timeoutC) :
    ti = t ∨ ti ∈ ts.ti :: ts.timeoutC := by
  unfold TimeScheduler.addTimeoutInfo at h
  split at h
  · exact .inr h
  rcases mem_cons.mp h with rfl | h
  · exact .inl rfl
  · exact .inr (mem_cons_of_mem _ h)

lemma InTime.addTimeout (h : n.InTime) (s : Step) : (n.addTimeout n.height n.round s).InTime := by
  intro ti hti
  rcases mem_addTimeoutInfo hti with rfl | hold
  · exact .inr ⟨rfl, le_rfl⟩
  · exact h ti hold

lemma Progress.advance (hp : n.Progress) (hid : n'.id = n.id)
    (hcreated : n'.created = n.created) (htimer : n'.timeScheduler = n.timeScheduler)
    (hle : n.position ≤ n'.position)
    (hproposal : ∀ p, n'.proposal = some p ∨ n'.verifingProposal = some p →
      p.block.header.blockHeight = n'.height) : n'.Progress where
  timely := hp.timely.advance htimer hle
  voter := by
    rw [hcreated, hid]
    exact hp.voter
  created_le := by
    rw [hcreated]
    exact fun v hv => (hp.created_le v hv).trans hle
  created_lt := hcreated ▸ hp.created_lt
  proposal := hproposal

section
variable (hp : n.Progress)
include hp

lemma Progress.addTimeout (s : Step) : (n.addTimeout n.height n.round s).Progress :=
  { hp with timely := hp.timely.addTimeout s }

lemma Progress.saveUnless (replayMode : Bool) (data : WalData) :
    (n.saveUnless replayMode data).Progress := by
  cases replayMode with
  | true => exact hp
  | false => exact hp.advance rfl rfl rfl le_rfl hp.proposal

lemma Progress.setStep {s : Step} (hs : n.step.rank ≤ s.rank) :
    ({ n with step := s } : ConsensusTBFTImpl).Progress :=
  hp.advance rfl rfl rfl (position_le.mpr (.inr ⟨rfl, .inr ⟨rfl, hs⟩⟩)) hp.proposal

lemma Progress.enterPropose : (n.enterPropose n.height n.round).Progress := by
  unfold ConsensusTBFTImpl.enterPropose
  split_ifs with h
  · exact hp
  have hstep : n.step = .newRound := by
    by_contra hne
    exact h (.inr (.inr ⟨rfl, hne⟩))
  have hle : n.step.rank ≤ Step.propose.rank := by
    rw [hstep]
    decide
  exact (hp.setStep hle).addTimeout .prevote

lemma Progress.enterNewRound (h : ℕ) (r : ℤ) : (n.enterNewRound h r).Progress := by
  unfold ConsensusTBFTImpl.enterNewRound
  split
  case isTrue => exact hp
  case isFalse hguard =>
  push Not at hguard
  obtain ⟨hheight, hround, hstep⟩ := hguard
  refine Progress.enterPropose (hp.advance rfl rfl rfl ?_ ?_)
  · refine position_le.mpr ?_
    rcases hheight.lt_or_eq with hlt | heq
    · exact .inl hlt
    refine .inr ⟨heq, ?_⟩
    rcases hround.lt_or_eq with hlt | heq
    · exact .inl hlt
    refine .inr ⟨heq, ?_⟩
    rw [hstep heq]
    exact Nat.zero_le _
  · rintro p (h | h) <;> cases h

lemma Progress.enterNewHeight (h : ℕ) (replayMode : Bool) :
    (n.enterNewHeight env h replayMode).Progress := by
  by_cases hlt : n.height < h
  · obtain ⟨wal, -, heq⟩ := enterNewHeight_eq env n hlt replayMode
    rw [heq]
    apply Progress.enterNewRound
    refine hp.advance rfl rfl rfl (position_le.mpr (.inl hlt)) ?_
    rintro p (h | h) <;> cases h
  · rw [ConsensusTBFTImpl.enterNewHeight, if_pos (not_lt.mp hlt)]
    exact hp

lemma Progress.createVote {t : VoteType} (hlt : n.step.rank < t.step.rank) (hash : Hash)
    (msg : Option Vote → TBFTMsg) :
    ({ n with step := t.step }.createVote env t hash msg).Progress := by
  have hpos : n.position < Tbft.position n.height n.round t.step :=
    position_lt.mpr (.inr ⟨rfl, .inr ⟨rfl, hlt⟩⟩)
  refine ⟨hp.timely.advance rfl hpos.le, forall_mem_cons.mpr ⟨rfl, hp.voter⟩,
    forall_mem_cons.mpr ⟨le_rfl, fun v hv => (hp.created_le v hv).trans hpos.le⟩, ?_, hp.proposal⟩
  exact pairwise_cons.mpr ⟨fun v hv => (hp.created_le v hv).trans_lt hpos, hp.created_lt⟩

end

variable {r : ℤ}

lemma Progress.enterPrevote (hp : n.Progress) {h : ℕ} (hti : h = n.height → r ≤ n.round) :
    (n.enterPrevote env h r).Progress := by
  unfold ConsensusTBFTImpl.enterPrevote
  split_ifs with hguard
  · exact hp
  push Not at hguard
  obtain ⟨hheight, hround, hstep⟩ := hguard
  have hstep := hstep (le_antisymm hround (hti hheight.symm))
  exact hp.createVote (t := .prevote) (by rw [hstep]; decide) _ _

lemma Progress.enterPrecommit (hp : n.Progress) {h : ℕ} (hti : h = n.height → r ≤ n.round)
    (hn' : n.enterPrecommit env h r = some n') : n'.Progress := by
  unfold ConsensusTBFTImpl.enterPrecommit at hn'
  split_ifs at hn' with hguard
  · exact some.inj hn' ▸ hp
  push Not at hguard
  obtain ⟨hheight, hround, hstep⟩ := hguard
  have hstep := hstep (le_antisymm hround (hti hheight.symm))
  obtain ⟨hash, -, rfl⟩ := map_eq_some_iff.mp hn'
  exact hp.createVote (t := .precommit) (by rw [hstep]; decide) hash _

lemma attach_header {block block' : Block} {qc : Bytes} (h : block.attach qc = some block') :
    block'.header = block.header := by
  unfold Block.attach at h
  split at h
  · exact some.inj h ▸ rfl
  · cases h
  · exact some.inj h ▸ rfl

variable {p : Proposal}

lemma Progress.commitProposal (hp : n.Progress) (hheight : p.block.header.blockHeight = n.height)
    (hn' : n.commitProposal env p = some n') : n'.Progress := by
  obtain ⟨block, hblock, rfl⟩ := map_eq_some_iff.mp hn'
  refine hp.advance rfl rfl rfl le_rfl ?_
  rintro q (hq | hq)
  · cases hq
    exact (congrArg _ (attach_header hblock)).trans hheight
  · exact hp.proposal q (.inr hq)

def Backed (n : ConsensusTBFTImpl) (v : Vote) : Prop :=
  v.type = .prevote ∨ v.type = .precommit ∧
    (isNilHash v.hash = true ∨
      (n.heightRoundVoteSet.voteSet v.round .prevote).maj23 = some v.hash.bytes)

/-- What one event adds to the votes and to the commits of a node; `verified` are the hashes of
the blocks that were reported as verified. -/
structure Effect (verified : Bytes → Prop) (n n' : ConsensusTBFTImpl) : Prop where
  id_eq : n'.id = n.id
  created : n'.created = n.created ∨
    ∃ v, n'.created = v :: n.created ∧ v.height = n'.height ∧ n'.Backed v
  committed : n'.committed = n.committed ∨
    ∃ b, n'.committed = b :: n.committed ∧ b.header.blockHeight = n'.height ∧
      (∃ r, (n'.heightRoundVoteSet.voteSet r .precommit).maj23 = some b.header.blockHash.bytes) ∧
      (isNilHash b.header.blockHash = false ∨ verified b.header.blockHash.bytes)

variable {V : Bytes → Prop} {m : ConsensusTBFTImpl}

lemma Effect.of_record (h : n'.record = n.record) : Effect V n n' := by
  simp only [record, Prod.mk.injEq] at h
  exact ⟨h.1, .inl h.2.1, .inl h.2.2.1⟩

lemma Effect.after (hm : m.record = n.record) (h : Effect V m n') : Effect V n n' := by
  simp only [record, Prod.mk.injEq] at hm
  obtain ⟨hid, hcreated, hcommitted, -⟩ := hm
  obtain ⟨h1, h2, h3⟩ := h
  rw [hid] at h1
  rw [hcreated] at h2
  rw [hcommitted] at h3
  exact ⟨h1, h2, h3⟩

lemma enterPrevote_effect (h : ℕ) (r : ℤ) : Effect V n (n.enterPrevote env h r) := by
  unfold enterPrevote
  split
  · exact .of_record rfl
  · exact ⟨rfl, .inr ⟨_, rfl, rfl, .inl rfl⟩, .inl rfl⟩

lemma precommitHash_backed {hash : Hash} (h : n.precommitHash = some hash) : isNilHash hash = true ∨
      (n.heightRoundVoteSet.voteSet n.round .prevote).maj23 = some hash.bytes := by
  unfold precommitHash at h
  dsimp only [prevotes] at h
  rw [twoThirdsMajority_getVoteSet] at h
  split at h
  case h_1 x hmaj =>
    cases h
    exact .inr hmaj
  case h_2 =>
  split at h
  · cases h
    exact .inl (by decide)
  · cases h

lemma enterPrecommit_effect (hn' : n.enterPrecommit env h r = some n') :
    Effect V n n' := by
  unfold enterPrecommit at hn'
  split at hn'
  · exact .of_record (some.inj hn' ▸ rfl)
  obtain ⟨hash, hhash, rfl⟩ := map_eq_some_iff.mp hn'
  have hbacked := precommitHash_backed hhash
  exact ⟨rfl, .inr ⟨_, rfl, rfl, .inr ⟨rfl, hbacked⟩⟩, .inl rfl⟩

lemma commitProposal_effect (hheight : p.block.header.blockHeight = n.height)
    (hmaj : (n.heightRoundVoteSet.voteSet r .precommit).maj23 = some p.block.header.blockHash.bytes)
    (hverified : isNilHash p.block.header.blockHash = false ∨ V p.block.header.blockHash.bytes)
    (hn' : n.commitProposal env p = some n') : Effect V n n' := by
  obtain ⟨block, hblock, rfl⟩ := map_eq_some_iff.mp hn'
  have hheader := attach_header hblock
  refine ⟨rfl, .inl rfl, .inr ⟨block, rfl, ?_, ⟨r, ?_⟩, ?_⟩⟩
  · rw [hheader]
    exact hheight
  · rw [hheader]
    exact hmaj
  · rw [hheader]
    exact hverified

lemma enterCommit_step (hp : n.Progress) (hti : h = n.height → r ≤ n.round)
    (hn' : n.enterCommit env h r = some n') : n'.Progress ∧ Effect V n n' := by
  rcases enterCommit_cases hn' with rfl | ⟨⟨hheight, hround, hstep⟩, hgoes⟩
  · exact ⟨hp, .of_record rfl⟩
  have hstep := hstep (le_antisymm hround (hti hheight.symm))
  have hm : ({ n with step := .commit } : ConsensusTBFTImpl).Progress :=
    hp.setStep (by rw [hstep]; decide)
  rcases hgoes with ⟨-, rfl⟩ | ⟨p, hpn, hnil, hmaj, hn'⟩
  · exact ⟨hm.enterNewRound _ _, .of_record (record_enterNewRound _ _ _)⟩
  · have hheight := hp.proposal p (.inl hpn)
    exact ⟨hm.commitProposal hheight hn', .after (m := { n with step := .commit }) rfl
      (commitProposal_effect hheight hmaj (.inl hnil) hn')⟩

lemma Progress.stay (hp : n.Progress) (hm : some n = some m) : m.Progress ∧ Effect V n m := by
  cases hm
  exact ⟨hp, .of_record rfl⟩

lemma onVote_step (hp : n.Progress) (hn' : n.onVote env vote = some n') :
    n'.Progress ∧ Effect V n n' := by
  rcases onVote_cases hn' with rfl | hn' | hn' | ⟨s, prevote, precommit, -, rfl⟩
  · exact hp.stay rfl
  · exact ⟨hp.enterPrecommit (fun _ => le_rfl) hn', enterPrecommit_effect hn'⟩
  · exact enterCommit_step hp (fun _ => le_rfl) hn'
  · exact ⟨(hp.addTimeout s).advance rfl rfl rfl le_rfl hp.proposal, .of_record rfl⟩

variable {replayMode : Bool}

lemma addVote_step (hp : n.Progress) (hn' : n.addVote env vote replayMode = some n') :
    n'.Progress ∧ Effect V n n' := by
  obtain ⟨⟨hvs, res⟩, -, hn'⟩ := bind_eq_some_iff.mp hn'
  have hm : ({ n with heightRoundVoteSet := hvs } : ConsensusTBFTImpl).Progress :=
    hp.advance rfl rfl rfl le_rfl hp.proposal
  dsimp only at hn'
  split at hn'
  · have hsaved := hm.saveUnless replayMode (.vote vote)
    have hrecord := record_saveUnless { n with heightRoundVoteSet := hvs } replayMode (.vote vote)
    obtain ⟨h1, h2⟩ := onVote_step (V := V) hsaved hn'
    exact ⟨h1, h2.after hrecord⟩
  · cases hn'
    exact ⟨hm, .of_record rfl⟩

lemma Progress.adoptProposal (hp : n.Progress) (hheight : p.block.header.blockHeight = n.height)
    (replayMode : Bool) : (n.adoptProposal p replayMode).Progress := by
  have hset : ({ n with proposal := some p } : ConsensusTBFTImpl).Progress := by
    refine hp.advance rfl rfl rfl le_rfl ?_
    rintro q (hq | hq)
    · exact some.inj hq ▸ hheight
    · exact hp.proposal q (.inr hq)
  exact hset.saveUnless replayMode (.proposal p)

lemma prevoteProposal_step (hp : n.Progress) (hheight : p.block.header.blockHeight = n.height)
    (replayMode : Bool) :
    ((n.adoptProposal p replayMode).enterPrevote env n.height n.round).Progress ∧
      Effect V n ((n.adoptProposal p replayMode).enterPrevote env n.height n.round) := by
  have hround : (n.adoptProposal p replayMode).round = n.round := by
    cases replayMode <;> rfl
  constructor
  · exact (hp.adoptProposal hheight replayMode).enterPrevote fun _ => hround.ge
  · exact (enterPrevote_effect n.height n.round).after (record_adoptProposal n p replayMode)

lemma createProposal_height {block : Block} (h : n.createProposal env block = some p) :
    p.block.header.blockHeight = block.header.blockHeight := by
  obtain ⟨body, -, h⟩ := bind_eq_some_iff.mp h
  obtain ⟨⟨hash, sig⟩, -, h⟩ := bind_eq_some_iff.mp h
  obtain ⟨endorsement, -, rfl⟩ := map_eq_some_iff.mp h
  rfl

lemma handleProposedBlock_step (hp : n.Progress) (block : Block) (replayMode : Bool) :
    (n.handleProposedBlock env block replayMode).Progress ∧
      Effect V n (n.handleProposedBlock env block replayMode) := by
  unfold handleProposedBlock
  split_ifs with hguard
  · exact hp.stay rfl
  push Not at hguard
  split
  case h_1 => exact hp.stay rfl
  case h_2 p hcreate =>
    exact prevoteProposal_step hp ((createProposal_height hcreate).trans hguard.1) replayMode

lemma handleVerifyResult_step (hp : n.Progress) {r : VerifyResult}
    (hn' : n.handleVerifyResult env r replayMode = some n') :
    n'.Progress ∧ Effect (· = r.verifiedBlock.header.blockHash.bytes) n n' := by
  rcases handleVerifyResult_cases hn' with rfl | rfl | ⟨p, hpn, hhash, ⟨hmaj, hn'⟩ | ⟨-, -, rfl⟩⟩
  · exact hp.stay rfl
  · refine ⟨hp.advance rfl rfl rfl le_rfl ?_, .of_record rfl⟩
    rintro q (hq | hq)
    · exact hp.proposal q (.inl hq)
    · cases hq
  · -- A quorum of precommits for the verified block: it is committed at once.
    obtain ⟨m, hm, rfl⟩ := map_eq_some_iff.mp hn'
    have hheight : p.block.header.blockHeight = (n.adoptProposal p replayMode).height :=
      (hp.proposal p (.inr hpn)).trans (height_adoptProposal n p replayMode).symm
    have hprogress :=
      (hp.adoptProposal (hp.proposal p (.inr hpn)) replayMode).commitProposal hheight hm
    have heffect : Effect (· = r.verifiedBlock.header.blockHash.bytes) n m :=
      (commitProposal_effect (r := n.round) hheight
        ((congrArg (fun hvs => (hvs.voteSet n.round .precommit).maj23)
          (hvs_adoptProposal n p replayMode)).trans hmaj) (.inr hhash) hm).after
        (record_adoptProposal n p replayMode)
    refine ⟨hprogress.advance rfl rfl rfl le_rfl ?_, { heffect with }⟩
    rintro q (hq | hq) <;> exact hprogress.proposal q (.inl hq)
  · exact prevoteProposal_step hp (hp.proposal p (.inr hpn)) replayMode

lemma Effect.mono {W : Bytes → Prop} (hV : ∀ x, V x → W x) (h : Effect V n n') : Effect W n n' := by
  refine ⟨h.id_eq, h.created, ?_⟩
  rcases h.committed with h | ⟨b, hb, hheight, hmaj, hverified⟩
  · exact .inl h
  · exact .inr ⟨b, hb, hheight, hmaj, hverified.imp_right (hV _)⟩

lemma handleTimeout_step (hp : n.Progress) (hti : n.Timely ti)
    (hn' : n.handleTimeout env ti replayMode = some n') : n'.Progress ∧ Effect V n n' := by
  have hsaved := hp.saveUnless replayMode (.timeout ti)
  have hrecord := record_saveUnless n replayMode (.timeout ti)
  have hround : ti.height = (n.saveUnless replayMode (.timeout ti)).height →
      ti.round ≤ (n.saveUnless replayMode (.timeout ti)).round := by
    rw [height_saveUnless, round_saveUnless]
    unfold Timely at hti
    omega
  unfold handleTimeout at hn'
  split at hn'
  · cases hn'
    exact ⟨hsaved.enterPrevote hround, (enterPrevote_effect _ _).after hrecord⟩
  · exact ⟨hsaved.enterPrecommit hround hn', (enterPrecommit_effect hn').after hrecord⟩
  · obtain ⟨h1, h2⟩ := enterCommit_step (V := V) hsaved hround hn'
    exact ⟨h1, h2.after hrecord⟩
  · cases hn'
    exact ⟨hsaved, .of_record hrecord⟩

lemma procPropose_step (hp : n.Progress) {p : ProposalProto}
    (hn' : n.procPropose env p = some n') : n'.Progress ∧ Effect V n n' := by
  obtain ⟨block, -, rfl⟩ := map_eq_some_iff.mp hn'
  split_ifs with hguard
  · exact hp.stay rfl
  have hheight : block.header.blockHeight = n.height := by
    by_contra hne
    refine hguard (.inr (.inl fun h => ?_))
    simp only [canReceiveProposal, Bool.and_eq_true, decide_eq_true_eq] at h
    exact hne h.1.1.symm
  refine ⟨hp.advance rfl rfl rfl le_rfl ?_, .of_record rfl⟩
  rintro q (hq | hq)
  · exact hp.proposal q (.inl hq)
  · exact some.inj hq ▸ hheight

lemma procVote_step (hp : n.Progress) {last : Step}
    (hn' : n.procVote env last vote = some n') : n'.Progress ∧ Effect V n n' := by
  unfold procVote at hn'
  split at hn'
  · exact hp.stay hn'
  split at hn'
  · exact hp.stay hn'
  · exact addVote_step hp hn'

lemma procRecvState_cases {g : GossipState} (hn' : n.procRecvState env g = some n') :
    n' = n ∨ ∃ rvs voteSet, g.roundVoteSet = some rvs ∧
      newRoundVoteSetFromProto rvs env.validatorSet = some voteSet ∧
      n' = n.updateVoteWithProto env voteSet := by
  unfold procRecvState at hn'
  split at hn'
  · exact .inl (some.inj hn').symm
  split at hn'
  · exact .inl (some.inj hn').symm
  obtain ⟨voteSet, hvs, rfl⟩ := map_eq_some_iff.mp hn'
  split
  · exact .inr ⟨_, voteSet, by assumption, hvs, rfl⟩
  · exact .inl rfl

lemma handleConsensusMsg_step (hp : n.Progress) {msg : TBFTMsg}
    (hn' : n.handleConsensusMsg env msg = some n') : n'.Progress ∧ Effect V n n' := by
  cases msg with
  | propose body =>
    obtain ⟨p, -, hn'⟩ := bind_eq_some_iff.mp hn'
    exact procPropose_step hp hn'
  | prevote | precommit =>
    obtain ⟨v, -, hn'⟩ := bind_eq_some_iff.mp hn'
    exact procVote_step hp hn'
  | state body =>
    cases body with
    | none => exact hp.stay hn'
    | some g =>
      rcases procRecvState_cases hn' with rfl | ⟨rvs, voteSet, -, -, rfl⟩
      · exact hp.stay rfl
      · exact ⟨hp.advance rfl rfl rfl le_rfl hp.proposal, ⟨rfl, .inl rfl, .inl rfl⟩⟩
  | other => exact hp.stay hn'

lemma handle_step (hp : n.Progress) {e : Event} (hn' : n.handle env e = some n') :
    n'.Progress ∧ Effect (· ∈ e.verified) n n' := by
  cases e with
  | proposedBlock block =>
    cases hn'
    exact handleProposedBlock_step hp block false
  | verifyResult r =>
    obtain ⟨h1, h2⟩ := handleVerifyResult_step hp hn'
    exact ⟨h1, h2.mono fun x hx => congrArg some hx.symm⟩
  | blockHeight height =>
    cases hn'
    unfold handleBlockHeight
    split
    · exact hp.stay rfl
    · exact ⟨hp.enterNewHeight _ _, .of_record (record_enterNewHeight _ _ _ _)⟩
  | externalMsg msg => exact handleConsensusMsg_step hp hn'
  | internalMsg =>
    simp only [handle] at hn'
    split at hn'
    case h_1 => cases hn'
    case h_2 msg rest hq =>
    have hm : ({ n with internalMsgC := rest } : ConsensusTBFTImpl).Progress :=
      hp.advance rfl rfl rfl le_rfl hp.proposal
    obtain ⟨h1, h2⟩ := handleConsensusMsg_step (V := (· ∈ Event.internalMsg.verified)) hm hn'
    exact ⟨h1, { h2 with }⟩
  | timerFires =>
    obtain ⟨ts, hts, rfl⟩ := map_eq_some_iff.mp hn'
    refine ⟨{ hp with timely := ?_ }, .of_record rfl⟩
    unfold TimeScheduler.fire at hts
    split at hts
    · cases hts
      intro ti hti
      simp only [mem_cons, mem_append, not_mem_nil, or_false] at hti
      refine hp.timely ti (mem_cons.mpr ?_)
      tauto
    · cases hts
  | timeout =>
    simp only [handle] at hn'
    split at hn'
    case h_1 => cases hn'
    case h_2 ti rest hq =>
    have hti : n.Timely ti := hp.timely ti (by simp [hq])
    have hm : ({ n with timeScheduler.timeoutC := rest } : ConsensusTBFTImpl).Progress := by
      refine { hp with timely := fun t ht => hp.timely t ?_ }
      rw [hq]
      rcases mem_cons.mp ht with rfl | ht
      · exact mem_cons_self
      · exact mem_cons_of_mem _ (mem_cons_of_mem _ ht)
    obtain ⟨h1, h2⟩ := handleTimeout_step (V := (· ∈ Event.timeout.verified)) hm hti hn'
    exact ⟨h1, { h2 with }⟩

end progress

end ConsensusTBFTImpl
end ChainMaker.Tbft
