import ChainMaker.Lib.Runs
import ChainMaker.Tbft.Votes

/-! The life of one node, through crashes and replays of its log: every vote it holds was created
by itself or verified, as long as nobody sends it votes in its own name. -/

namespace ChainMaker.Tbft
namespace ConsensusTBFTImpl
open Option

/-- What can happen to a node: an event, the loss of a message to the goroutine that empties the
queue after a replay, or a crash and a new start on the log that is left. -/
inductive LifeEvent
  | event (e : Event)
  | deleteInternalMsg
  | restart (currentHeight : ℕ)

def LifeEvent.votes : LifeEvent → List Vote
  | .event e => e.votes
  | _ => []

def live (env : Env) (n : ConsensusTBFTImpl) : LifeEvent → Option ConsensusTBFTImpl
  | .event e => n.handle env e
  | .deleteInternalMsg => some { n with internalMsgC := n.internalMsgC.tail }
  | .restart currentHeight =>
    { newConsensus env n.id n.wal with created := n.created, committed := n.committed }.replayWal
      env currentHeight

def start (env : Env) (id : NodeId) (currentHeight : ℕ) : ConsensusTBFTImpl :=
  (newConsensus env id ⟨0, []⟩).enterNewHeight env ((currentHeight + 1) % 2 ^ 64) false

/-- Every vote that is held is the node's own or verified, in the set of its own type, height and
round. -/
def Authentic (env : Env) (n : ConsensusTBFTImpl) : Prop :=
  ∀ r t vs, n.heightRoundVoteSet.getVoteSet r t = some vs → ∀ v, vs.Holds v →
    (v ∈ n.created ∨ env.verifyVote v = true) ∧ v.type = t ∧ v.height = n.height ∧ v.round = r

/-- A vote from outside that names the node is one of its own or would pass verification. -/
def NotImpersonated (env : Env) (n : ConsensusTBFTImpl) (e : LifeEvent) : Prop :=
  ∀ v ∈ e.votes, v.voter = n.id → v ∈ n.created ∨ env.verifyVote v = true

instance (env : Env) (n : ConsensusTBFTImpl) (e : LifeEvent) :
    Decidable (NotImpersonated env n e) :=
  inferInstanceAs (Decidable (∀ v ∈ e.votes, v.voter = n.id → _))

variable {A : Vote → Prop} {env : Env} {n n' : ConsensusTBFTImpl} {e : WalEntry} {i : ℕ}

lemma Votes.new (A : Vote → Prop) (env : Env) (id : NodeId) {wal : Wal} {created : List Vote}
    (hwal : ∀ v ∈ wal.votes, A v ∨ v ∈ created) (committed : List Block) :
    ({ newConsensus env id wal with created := created, committed := committed } :
      ConsensusTBFTImpl).Votes A env where
  wf := HeightRoundVoteSet.Wf.new 0 0 env.validatorSet
  height_eq := rfl
  held := fun v hv => absurd hv (HeightRoundVoteSet.not_holds_new 0 0 env.validatorSet v)
  queued := by
    intro m hm
    cases hm
  logged := hwal

lemma Votes.enterNewHeight (hv : n.Votes A env) (height : ℕ) (replayMode : Bool) :
    (n.enterNewHeight env height replayMode).Votes A env :=
  (hv.changes (enterNewHeight_changes height trivial)).1

lemma Votes.start (A : Vote → Prop) (env : Env) (id : NodeId) (currentHeight : ℕ) :
    (start env id currentHeight).Votes A env := by
  have hwal : ∀ v ∈ (⟨0, []⟩ : Wal).votes, A v ∨ v ∈ ([] : List Vote) := by simp [Wal.votes]
  have hnew : (newConsensus env id ⟨0, []⟩).Votes A env := Votes.new A env id hwal []
  exact hnew.enterNewHeight _ _

lemma mem_votes_of_read {w : Wal} {v : Vote} (h : w.read i = some e)
    (hv : e.data = .vote v) : v ∈ w.votes := by
  unfold Wal.read at h
  split at h
  · cases h
  refine List.mem_filterMap.mpr ⟨e, List.mem_of_getElem? h, ?_⟩
  rw [hv]

section
variable (hv : n.Votes A env)
include hv

lemma Votes.replayEntry_changes (hread : n.wal.read i = some e)
    (hn' : n.replayEntry env e = some n') : Changes env (voteInputs A env n.id) n n' := by
  have hvote : ∀ v, e.data = .vote v → n.Known A v :=
    fun v he => hv.logged v (mem_votes_of_read hread he)
  exact ConsensusTBFTImpl.replayEntry_changes (fun _ _ => ⟨trivial, trivial⟩)
    (fun _ _ _ => trivial) hvote hn'

lemma Votes.replayFrom_changes {first count : ℕ} (hn' : n.replayFrom env first count = some n') :
    Changes env (voteInputs A env n.id) n n' := by
  unfold replayFrom at hn'
  generalize List.range' first count = indices at hn'
  induction indices generalizing n with
  | nil => exact .stay hn'
  | cons i is ih =>
    obtain ⟨m, hm, hn'⟩ := bind_eq_some_iff.mp hn'
    obtain ⟨e, hread, hm⟩ := bind_eq_some_iff.mp hm
    have hchanges := hv.replayEntry_changes hread hm
    obtain ⟨hvm, hid⟩ := hv.changes hchanges
    rw [← hid] at hchanges ⊢
    exact hchanges.trans (ih hvm hn')

lemma Votes.replayWal_changes {currentHeight : ℕ} (hn' : n.replayWal env currentHeight = some n') :
    ∃ first, Changes env (voteInputs A env n.id) { n with heightFirstIndex := first } n' := by
  unfold replayWal at hn'
  split at hn'
  case h_1 =>
    cases hn'
    exact ⟨n.heightFirstIndex, enterNewHeight_changes _ trivial⟩
  case h_2 last _ =>
  refine ⟨last.heightFirstIndex, ?_⟩
  have hm : ({ n with heightFirstIndex := last.heightFirstIndex } :
      ConsensusTBFTImpl).Votes A env := hv.of_view rfl
  split at hn'
  · cases hn'
  split at hn'
  · cases hn'
    exact enterNewHeight_changes _ trivial
  have henter : Changes env (voteInputs A env n.id)
      { n with heightFirstIndex := last.heightFirstIndex }
      ({ n with heightFirstIndex := last.heightFirstIndex }.enterNewHeight env
        last.height true) := enterNewHeight_changes last.height trivial
  obtain ⟨hvm, hid⟩ := hm.changes henter
  have hreplay := hvm.replayFrom_changes hn'
  rw [hid] at hreplay
  exact henter.trans hreplay

lemma Votes.replayWal {currentHeight : ℕ} (hn' : n.replayWal env currentHeight = some n') :
    n'.Votes A env := by
  obtain ⟨first, hchanges⟩ := hv.replayWal_changes hn'
  have hm : ({ n with heightFirstIndex := first } : ConsensusTBFTImpl).Votes A env := hv.of_view rfl
  exact (hm.changes hchanges).1

end

lemma Votes.live (hv : n.Votes (env.verifyVote · = true) env) {e : LifeEvent}
    (he : NotImpersonated env n e) (hn' : n.live env e = some n') :
    n'.Votes (env.verifyVote · = true) env := by
  cases e with
  | event e =>
    refine hv.handle (fun v hve => ?_) hn'
    rintro (hid | hverify)
    · exact (he v hve hid).symm
    · exact .inl hverify
  | deleteInternalMsg =>
    cases hn'
    exact { hv with queued := fun m hm => hv.queued m (List.mem_of_mem_tail hm) }
  | restart currentHeight =>
    exact (Votes.new _ env n.id hv.logged n.committed).replayWal hn'

lemma Votes.authentic (hv : n.Votes (env.verifyVote · = true) env) : n.Authentic env := by
  intro r t vs hvs v hheld
  have hset : n.heightRoundVoteSet.voteSet r t = vs := by
    rw [HeightRoundVoteSet.voteSet, hvs, getD_some]
  have hwf := hv.wf.voteSet r t
  rw [hset, hv.height_eq] at hwf
  obtain ⟨htype, hheight, hround, -⟩ := hwf.matched hheld
  exact ⟨(hv.held v ⟨r, t, hset ▸ hheld⟩).symm, htype, hheight, hround⟩

theorem authentic_of_run (env : Env) (id : NodeId) (currentHeight : ℕ) (es : List LifeEvent)
    (n : ConsensusTBFTImpl)
    (hP : Runs.Meets (live env) (NotImpersonated env) (start env id currentHeight) es)
    (hrun : Runs.run (live env) (start env id currentHeight) es = some n) :
    n.Authentic env := by
  have hinv := Runs.run_induction (fun n e n' hn he hn' => Votes.live hn he hn')
    (Votes.start _ env id currentHeight) hP hrun
  exact hinv.authentic

def signature (signer : NodeId) (v : Vote) : Bytes :=
  signer ++ (match v.type with
    | .prevote => 0
    | _ => 1) :: UInt8.ofNat v.height :: UInt8.ofNat v.round.toNat :: v.voter ++ v.hash.bytes

def sign (signer : NodeId) (v : Vote) : Vote :=
  { v with endorsement := some ⟨⟨[], signer⟩, signature signer v⟩ }

def fourEnv : Env where
  validatorSet := fourValidators
  isDpos := false
  createDPoSRWSet := fun _ => none
  verifyConsensusArgs := fun _ _ => true
  signBlock := fun b => some (b.body, [])
  signVote := fun v => some ⟨⟨[], v.voter⟩, signature v.voter v⟩
  signProposal := fun p => some ⟨⟨[], p.voter⟩, []⟩
  marshalVoteSet := fun _ => []
  ac := ⟨1, fun m v sig => sig = signature m.memberInfo v, fun _ => some .consensusNode⟩
  acProposal := ⟨1, fun _ _ _ => true, fun _ => some .consensusNode⟩
  newMember := fun m => some m.memberInfo
  trustMembers := []
  getNodeUidByCertId := some

def restartRun : List LifeEvent :=
  [.event .timerFires, .event .timeout, .event .internalMsg,
    .event (.externalMsg (.prevote (some (sign [1] ⟨.prevote, [1], 1, 0, nilHash, none⟩)))),
    .restart 0]

theorem authentic_of_run_restart :
    ∃ n, Runs.run (live fourEnv) (start fourEnv [0] 0) restartRun = some n ∧
      (n.heightRoundVoteSet.getVoteSet 0 .prevote).map (·.sum) = some 2 ∧
      n.Authentic fourEnv :=
  ⟨_, eq_some_of_isSome (by decide +kernel), by decide +kernel,
    authentic_of_run fourEnv [0] 0 restartRun _ (by decide +kernel) (eq_some_of_isSome _)⟩

def forgedVote : Vote := ⟨.prevote, [0], 1, 0, some [7], none⟩

theorem not_authentic_of_forged :
    ∃ n, Runs.run (live fourEnv) (start fourEnv [0] 0)
        [.event (.externalMsg (.prevote (some forgedVote)))] = some n ∧
      ¬n.Authentic fourEnv := by
  refine ⟨_, eq_some_of_isSome (by decide +kernel), fun hauth => ?_⟩
  rcases (hauth 0 .prevote _ (eq_some_of_isSome (by decide +kernel)) forgedVote
    (.inl ⟨[0], by decide +kernel⟩)).1 with hown | hverify
  · exact absurd hown (by decide +kernel)
  · exact absurd hverify (by decide)

end ConsensusTBFTImpl
end ChainMaker.Tbft
