import ChainMaker.Tbft.Changes

/-! Where the votes of a node come from: each vote it holds, queues for itself or logs was created
by the node or is one of the votes that are trusted from outside. -/

namespace ChainMaker.Tbft
open List

def GossipState.votes (g : GossipState) : List Vote :=
  ((g.roundVoteSet.bind (·.prevotes)).elim [] (·.votes.map (·.2))) ++
    ((g.roundVoteSet.bind (·.precommits)).elim [] (·.votes.map (·.2)))

def TBFTMsg.votes : TBFTMsg → List Vote
  | .prevote body => body.toList
  | .precommit body => body.toList
  | .state body => body.elim [] (·.votes)
  | _ => []

def Event.votes : Event → List Vote
  | .externalMsg msg => msg.votes
  | _ => []

def Wal.votes (w : Wal) : List Vote :=
  w.entries.filterMap fun e => match e.data with
    | .vote v => some v
    | _ => none

namespace ConsensusTBFTImpl

def Known (trusted : Vote → Prop) (n : ConsensusTBFTImpl) (v : Vote) : Prop :=
  trusted v ∨ v ∈ n.created

/-- A vote that is taken as it is, because it names the node, or that passes verification, has to
be known. -/
def Admitted (trusted : Vote → Prop) (env : Env) (n : ConsensusTBFTImpl) (v : Vote) : Prop :=
  v.voter = n.id ∨ env.verifyVote v = true → n.Known trusted v

structure Votes (trusted : Vote → Prop) (env : Env) (n : ConsensusTBFTImpl) : Prop where
  wf : n.heightRoundVoteSet.Wf env.validatorSet
  height_eq : n.heightRoundVoteSet.height = n.height
  held : ∀ v, n.heightRoundVoteSet.Holds v → n.Known trusted v
  queued : ∀ m ∈ n.internalMsgC, ∀ v ∈ m.votes, n.Admitted trusted env v
  logged : ∀ v ∈ n.wal.votes, n.Known trusted v

variable {A : Vote → Prop} {env : Env} {n n' : ConsensusTBFTImpl} {voteSet : RoundVoteSet}
variable {v : Vote} {g : GossipState} {m : TBFTMsg}

lemma Known.mono (hsub : n.created ⊆ n'.created) (h : n.Known A v) : n'.Known A v :=
  h.imp_right fun hv => hsub hv

lemma Admitted.mono (hid : n'.id = n.id) (hsub : n.created ⊆ n'.created) (h : n.Admitted A env v) :
    n'.Admitted A env v := by
  intro hv
  rw [hid] at hv
  exact (h hv).mono hsub

def voteView (n : ConsensusTBFTImpl) :
    NodeId × ℕ × HeightRoundVoteSet × List TBFTMsg × List Vote × List Vote :=
  (n.id, n.height, n.heightRoundVoteSet, n.internalMsgC, n.created, n.wal.votes)

lemma Votes.of_view (hv : n.Votes A env) (h : n'.voteView = n.voteView) : n'.Votes A env := by
  simp only [voteView, Prod.mk.injEq] at h
  obtain ⟨hid, hheight, hhvs, hqueue, hcreated, hwal⟩ := h
  have hsub : n.created ⊆ n'.created := hcreated ▸ Subset.refl _
  refine ⟨hhvs ▸ hv.wf, ?_, ?_, ?_, ?_⟩
  · rw [hhvs, hheight]
    exact hv.height_eq
  · rw [hhvs]
    exact fun v h => (hv.held v h).mono hsub
  · rw [hqueue]
    exact fun m hm v h => (hv.queued m hm v h).mono hid hsub
  · rw [hwal]
    exact fun v h => (hv.logged v h).mono hsub

lemma Wal.votes_write (w : Wal) (e : WalEntry) :
    (w.write e).votes = w.votes ++ Wal.votes ⟨0, [e]⟩ := by
  simp [Wal.votes, Wal.write]

lemma Wal.votes_truncateFront (w : Wal) (index : ℕ) : (w.truncateFront index).votes ⊆ w.votes := by
  intro v hv
  simp only [Wal.votes, Wal.truncateFront, mem_filterMap] at hv ⊢
  obtain ⟨e, he, hv⟩ := hv
  exact ⟨e, mem_of_mem_drop he, hv⟩

def voteInputs (A : Vote → Prop) (env : Env) (id : NodeId) : Inputs where
  enters := fun _ => True
  received := fun _ _ => True
  adopted := fun _ => True
  counted := fun created v => A v ∨ v ∈ created
  queued := fun created m => ∀ v ∈ m.votes,
    v.voter = id ∨ env.verifyVote v = true → A v ∨ v ∈ created

lemma Change.id_eq {I : Inputs} (hc : Change env I n n') : n'.id = n.id := by
  cases hc <;> rfl

section
variable (hv : n.Votes A env)
include hv

lemma Votes.log {data : WalData} (hvote : ∀ v, data = .vote v → n.Known A v) :
    (n.saveWalEntry data).Votes A env := by
  refine { hv with logged := fun v h => ?_ }
  have h : v ∈ (n.wal.write ⟨n.height, n.heightFirstIndex, data⟩).votes := h
  rw [Wal.votes_write] at h
  rcases mem_append.mp h with h | h
  · exact hv.logged v h
  refine hvote v ?_
  cases data with
  | vote w =>
    obtain rfl : v = w := by simpa [Wal.votes] using h
    rfl
  | timeout | proposal => simp [Wal.votes] at h

lemma Votes.createVote (t : VoteType) (hash : Hash) {msg : Option Vote → TBFTMsg}
    (hmsg : ∀ v, (msg (some v)).votes = [v]) : (n.createVote env t hash msg).Votes A env := by
  have hsub : n.created ⊆ (n.createVote env t hash msg).created := fun v => mem_cons_of_mem _
  refine ⟨hv.wf, hv.height_eq, fun v h => (hv.held v h).mono hsub,
    forall_mem_concat (fun m hm v hvm => ?_) ?_, fun v h => (hv.logged v h).mono hsub⟩
  · exact Admitted.mono (n := n) rfl hsub (hv.queued m hm v hvm)
  · rw [hmsg]
    exact forall_mem_singleton.mpr fun _ => .inr mem_cons_self

lemma Votes.change (hc : Change env (voteInputs A env n.id) n n') : n'.Votes A env := by
  cases hc with
  | log data _ hvote => exact hv.log hvote
  | prevote | precommit => exact hv.createVote _ _ fun _ => rfl
  | queue msgs hmsgs =>
    refine { hv with queued := fun m hm => ?_ }
    rcases hmsgs m hm with hm | hm
    · exact hv.queued m hm
    · exact hm
  | vote hcounted hvote =>
    refine ⟨hv.wf.addVote hvote, ?_, fun v h => ?_, hv.queued, hv.logged⟩
    · exact (HeightRoundVoteSet.voteSet_addVote hvote).1.trans hv.height_eq
    · rcases hv.wf.holds_addVote hvote h with h | ⟨rfl, -⟩
      · exact hv.held v h
      · exact hcounted
  | newHeight h replayMode wal hI hh hwal =>
    -- A new height starts with no votes.
    refine ⟨HeightRoundVoteSet.Wf.new h 0 env.validatorSet, rfl, ?_, hv.queued, fun v hlog => ?_⟩
    · exact fun v hheld => absurd hheld (HeightRoundVoteSet.not_holds_new h 0 env.validatorSet v)
    refine hv.logged v ?_
    rcases hwal with rfl | rfl
    · exact hlog
    · exact Wal.votes_truncateFront n.wal n.wal.lastIndex hlog
  | schedule | timers | flags | step | verify | adopt | commit | newRound => exact hv.of_view rfl

lemma Votes.changes (hc : Changes env (voteInputs A env n.id) n n') :
    n'.Votes A env ∧ n'.id = n.id := by
  induction hc with
  | refl => exact ⟨hv, rfl⟩
  | tail _ hc ih =>
    obtain ⟨hv, hid⟩ := ih
    rw [← hid] at hc
    exact ⟨hv.change hc, hc.id_eq.trans hid⟩

end

lemma mem_votesOfPeer {voter : NodeId} (hm : m ∈ n.votesOfPeer voteSet voter) (hv : v ∈ m.votes) :
    voteSet.prevotes.Holds v ∨ voteSet.precommits.Holds v := by
  have hone : ∀ vs : VoteSet,
      m ∈ ((vs.votes.lookup voter).map (TBFTMsg.prevote ∘ some)).toList → vs.Holds v := by
    intro vs hm
    obtain ⟨w, hw, rfl⟩ := Option.map_eq_some_iff.mp (Option.mem_toList.mp hm)
    obtain rfl : v = w := by simpa [TBFTMsg.votes] using hv
    exact .inl ⟨voter, hw⟩
  rcases mem_append.mp hm with hm | hm
  · split at hm
    · exact .inl (hone _ hm)
    · cases hm
  · split at hm
    · exact .inr (hone _ hm)
    · cases hm

lemma holds_newRoundVoteSetFromProto {rvs : RoundVoteSetProto} {vals : ValidatorSet}
    (hg : g.roundVoteSet = some rvs) (h : newRoundVoteSetFromProto rvs vals = some voteSet)
    (hv : voteSet.prevotes.Holds v ∨ voteSet.precommits.Holds v) : v ∈ g.votes := by
  simp only [newRoundVoteSetFromProto, Option.bind_eq_bind, Option.bind_eq_some_iff,
    Option.pure_def, Option.some.injEq] at h
  obtain ⟨prevotes, hpre, precommits, hcom, rfl⟩ := h
  simp only [GossipState.votes, hg, Option.bind_some, hpre, hcom, Option.elim_some,
    mem_append, mem_map]
  rcases hv with hv | hv
  · obtain ⟨k, hk⟩ := newVoteSetFromProto_holds hv
    exact .inl ⟨(k, v), hk, rfl⟩
  · obtain ⟨k, hk⟩ := newVoteSetFromProto_holds hv
    exact .inr ⟨(k, v), hk, rfl⟩

lemma mem_votes_of_gossiped (hm : m ∈ n.gossiped env g) (hv : v ∈ m.votes) : v ∈ g.votes := by
  unfold gossiped at hm
  cases hg : g.roundVoteSet with
  | none =>
    rw [hg] at hm
    cases hm
  | some rvs =>
    rw [hg, Option.bind_some] at hm
    cases hset : newRoundVoteSetFromProto rvs env.validatorSet with
    | none =>
      rw [hset] at hm
      cases hm
    | some voteSet =>
      rw [hset] at hm
      obtain ⟨voter, -, hm⟩ := mem_flatMap.mp hm
      exact holds_newRoundVoteSetFromProto hg hset (mem_votesOfPeer hm hv)

lemma allows_of_votes {msg : TBFTMsg} (hmsg : ∀ v ∈ msg.votes, n.Admitted A env v) :
    n.Allows env (voteInputs A env n.id) msg := by
  cases msg with
  | propose body => exact fun _ _ _ _ _ => trivial
  | prevote | precommit => exact fun v hv => hmsg v (by simp [TBFTMsg.votes, hv])
  | state body =>
    intro g hg m hm v hv
    exact hmsg v (by simpa [TBFTMsg.votes, hg] using mem_votes_of_gossiped hm hv)
  | other => trivial

lemma Votes.handle_changes (hv : n.Votes A env) {e : Event} (he : ∀ v ∈ e.votes, n.Admitted A env v)
    (hn' : n.handle env e = some n') : Changes env (voteInputs A env n.id) n n' := by
  refine ConsensusTBFTImpl.handle_changes ?_ hn'
  cases e with
  | proposedBlock block => exact fun _ _ => trivial
  | verifyResult r => exact fun _ _ _ => trivial
  | externalMsg msg => exact allows_of_votes he
  | internalMsg =>
    intro msg hmsg rest
    exact allows_of_votes (n := { n with internalMsgC := rest }) (hv.queued msg hmsg)
  | blockHeight | timerFires | timeout => trivial

lemma Votes.handle (hv : n.Votes A env) {e : Event} (he : ∀ v ∈ e.votes, n.Admitted A env v)
    (hn' : n.handle env e = some n') : n'.Votes A env :=
  (hv.changes (hv.handle_changes he hn')).1

end ConsensusTBFTImpl
end ChainMaker.Tbft
