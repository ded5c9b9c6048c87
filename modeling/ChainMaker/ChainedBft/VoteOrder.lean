import ChainMaker.ChainedBft.Agreement
import ChainMaker.ChainedBft.Restart

/-! The order of the votes that a node signs, over all its lives. The level of the last vote is only
in memory, so it has to be made up for by the level that a replay reaches. -/

namespace ChainMaker.ChainedBft
open Option ConsensusChainedBftImpl List

def VotesOrdered (votes : List VoteData) : Prop :=
  votes.Pairwise fun v w => v.newView = false → w.level < v.level

namespace ConsensusChainedBftImpl
variable {env : Env} {sv : Services} {I : Inputs} {n n' : ConsensusChainedBftImpl}

def Ready (n : ConsensusChainedBftImpl) : Prop :=
  ∀ v ∈ n.created, v.level < n.paceMaker.currentLevel ∨ v.level ≤ n.safetyRules.lastVoteLevel

instance (n : ConsensusChainedBftImpl) : Decidable n.Ready :=
  inferInstanceAs (Decidable (∀ v ∈ n.created, _))

structure Orderly (I : Inputs) (n : ConsensusChainedBftImpl) : Prop where
  ordered : VotesOrdered n.created
  last : ∀ v si, n.safetyRules.lastVoteMsg = some (v, si) → v.level = n.safetyRules.lastVoteLevel
  below : ∀ p, I.proposed p → ∀ v ∈ n.created,
    v.level ≤ n.safetyRules.lastVoteLevel ∨ v.level < p.level

structure Quiet (n n' : ConsensusChainedBftImpl) : Prop where
  created : n'.created = n.created
  lastVoteLevel : n'.safetyRules.lastVoteLevel = n.safetyRules.lastVoteLevel
  lastVoteMsg : n'.safetyRules.lastVoteMsg = n.safetyRules.lastVoteMsg
  level_le : n.paceMaker.currentLevel ≤ n'.paceMaker.currentLevel

lemma Change.quiet_or_signs (h : Change env I n n') :
    Quiet n n' ∨ ∃ v si level, n' = n.sendVote (v, si) level ∧
      (v.level = level ∨ level = n.safetyRules.lastVoteLevel ∧
        ∃ last si', n.safetyRules.lastVoteMsg = some (last, si') ∧ v.level = last.level) ∧
      (v.newView = false → ∃ p, I.proposed p ∧ level = p.level ∧
        n.safetyRules.lastVoteLevel < p.level ∧ v.level = p.level) := by
  cases h with
  | pace paceMaker state timers hepoch hlevel => exact .inl ⟨rfl, rfl, rfl, hlevel⟩
  | rules sr hlevel hmsg => exact .inl ⟨rfl, hlevel, hmsg, le_rfl⟩
  | voteFor hp hlast =>
    exact .inr ⟨_, _, _, rfl, .inl rfl, fun _ => ⟨_, hp, rfl, hlast, rfl⟩⟩
  | timeout height level => exact .inr ⟨_, _, _, rfl, .inl rfl, nofun⟩
  | retry hlast => exact .inr ⟨_, _, _, rfl, .inr ⟨rfl, _, _, hlast, rfl⟩, nofun⟩
  | _ => exact .inl ⟨rfl, rfl, rfl, le_rfl⟩

lemma sendVote_lastVote (vote : VoteData × SyncInfo) (level : ℕ) :
    (n.sendVote vote level).safetyRules.lastVoteLevel = max n.safetyRules.lastVoteLevel level ∧
      ((n.sendVote vote level).safetyRules.lastVoteMsg = n.safetyRules.lastVoteMsg ∧
          level ≤ n.safetyRules.lastVoteLevel ∨
        (n.sendVote vote level).safetyRules.lastVoteMsg = some vote ∧
          n.safetyRules.lastVoteLevel < level) := by
  unfold sendVote SafetyRules.setLastVote
  split
  case isTrue hle => exact ⟨(max_eq_left hle).symm, .inl ⟨rfl, hle⟩⟩
  case isFalse hlt => exact ⟨(max_eq_right (not_le.mp hlt).le).symm, .inr ⟨rfl, not_le.mp hlt⟩⟩

lemma Orderly.change (h : Orderly I n) (hc : Change env I n n') : Orderly I n' := by
  rcases hc.quiet_or_signs with hq | ⟨v, si, level, rfl, hlevel, hplain⟩
  · refine ⟨hq.created ▸ h.ordered, ?_, ?_⟩
    · rw [hq.lastVoteLevel, hq.lastVoteMsg]
      exact h.last
    · rw [hq.created, hq.lastVoteLevel]
      exact h.below
  · obtain ⟨hmax, hmsg⟩ := n.sendVote_lastVote (v, si) level
    have hv : v.level ≤ max n.safetyRules.lastVoteLevel level := by
      rcases hlevel with heq | ⟨-, last, si', hlast, heq⟩
      · exact heq ▸ le_max_right _ _
      rw [heq, h.last last si' hlast]
      exact le_max_left _ _
    refine ⟨pairwise_cons.mpr ⟨fun w hw hview => ?_, h.ordered⟩, fun w si' hw => ?_, ?_⟩
    · obtain ⟨p, hp, -, hlast, heq⟩ := hplain hview
      change w.level < v.level
      rcases h.below p hp w hw with hle | hlt <;> omega
    · rw [hmax]
      rcases hmsg with ⟨hsame, hle⟩ | ⟨hnew, hlt⟩
      · rw [max_eq_left hle]
        exact h.last w si' (hsame ▸ hw)
      cases mem_unique hnew hw
      rw [max_eq_right hlt.le]
      rcases hlevel with heq | ⟨heq, -⟩
      · exact heq
      · exact absurd heq hlt.ne'
    · rw [hmax]
      refine fun p hp => forall_mem_cons.mpr ⟨.inl hv, fun w hw => ?_⟩
      exact (h.below p hp w hw).imp_left fun hle => hle.trans (le_max_left _ _)

lemma Orderly.changes (h : Orderly I n) (hc : Changes env I n n') : Orderly I n' := by
  induction hc with
  | refl => exact h
  | tail _ hc ih => exact ih.change hc

lemma Ready.change (h : n.Ready) (ho : Orderly I n) (hc : Change env I n n') : n'.Ready := by
  rcases hc.quiet_or_signs with hq | ⟨v, si, level, rfl, hlevel, -⟩
  · unfold Ready
    rw [hq.created, hq.lastVoteLevel]
    exact fun w hw => (h w hw).imp_left fun hlt => hlt.trans_le hq.level_le
  unfold Ready
  rw [(n.sendVote_lastVote (v, si) level).1]
  refine forall_mem_cons.mpr ⟨.inr ?_, fun w hw => ?_⟩
  · change v.level ≤ _
    rcases hlevel with heq | ⟨-, last, si', hlast, heq⟩
    · exact heq ▸ le_max_right _ _
    rw [heq, ho.last last si' hlast]
    exact le_max_left _ _
  · exact (h w hw).imp_right fun hle => hle.trans (le_max_left _ _)

lemma Ready.changes (h : n.Ready) (ho : Orderly I n) (hc : Changes env I n n') : n'.Ready := by
  induction hc with
  | refl => exact h
  | tail hcs hc ih => exact ih.change (ho.changes hcs) hc

lemma Ready.orderly (h : n.Ready) (ho : VotesOrdered n.created)
    (hlast : ∀ v si, n.safetyRules.lastVoteMsg = some (v, si) →
      v.level = n.safetyRules.lastVoteLevel) (env : Env) (sv : Services) (e : Event) :
    Orderly (e.inputs env sv n) n := by
  refine ⟨ho, hlast, fun p hp v hv => ?_⟩
  cases e with
  | consensusMsg msg =>
    obtain ⟨si, -, hcheck⟩ := hp
    have hlevel := (checkProposal_verified hcheck).1
    rcases h v hv with hlt | hle
    · exact .inr (hlt.trans_le hlevel)
    · exact .inl hle
  | firedEvent | blockInfo => exact hp.elim

def silent : Inputs := ⟨fun _ => False, fun _ _ => True, fun _ => True⟩

lemma storeProposal_changes (p : ProposalData) : Changes env I n (n.storeProposal p) := by
  unfold storeProposal
  split
  · exact .refl
  rename_i n₁ hn₁
  refine (insertProposal_changes hn₁).trans ?_
  split
  · exact .refl
  rename_i n₂ hn₂
  refine (insertBlock_changes hn₂).trans ?_
  split
  · exact .single (.pace n₂ n₂.paceMaker .vote n₂.timers rfl le_rfl)
  · exact .refl

lemma replayProposal_changes {msg : ConsensusMsg} {p : ProposalData} {si : SyncInfo}
    (h : n.replayProposal env sv msg p si = some n') : Changes env silent n n' := by
  unfold replayProposal at h
  split at h
  case isFalse => exact .stay h
  obtain ⟨valid, -, h⟩ := bind_eq_some_iff.mp h
  split at h
  case isFalse => exact .stay h
  obtain ⟨⟨n₁, done⟩, hn₁, rfl⟩ := map_eq_some_iff.mp h
  have hfirst : Changes env silent n n₁ := processQC_changes trivial hn₁
  dsimp only
  split
  · exact hfirst.trans (storeProposal_changes p)
  · exact hfirst

lemma handleReplaying_orderly {e : Event} (ho : Orderly silent n)
    (h : n.handleReplaying env sv e = some n') : Orderly silent n' := by
  have hother : (∀ p, ¬(e.inputs env sv n).proposed p) → n.handle env sv e = some n' →
      Orderly silent n' := by
    intro hnone h
    have ho' : Orderly (e.inputs env sv n) n := ⟨ho.ordered, ho.last, fun p hp => (hnone p hp).elim⟩
    have hn' := ho'.changes (handle_changes h)
    exact ⟨hn'.ordered, hn'.last, nofun⟩
  match e with
  | .consensusMsg ⟨.proposalMsg p si, sign⟩ => exact ho.changes (replayProposal_changes h)
  | .consensusMsg ⟨.voteMsg v si, sign⟩ => exact hother (by rintro p ⟨si', ⟨⟩, -⟩) h
  | .consensusMsg ⟨.blockFetchRespMsg authorIdx blocks, sign⟩ =>
    exact hother (by rintro p ⟨si', ⟨⟩, -⟩) h
  | .firedEvent te => exact hother (fun _ => not_false) h
  | .blockInfo height => exact hother (fun _ => not_false) h

end ConsensusChainedBftImpl

namespace Replica
variable {env : Env} {sv : Services} {r r' : Replica} {id : NodeId}

structure Sane (r : Replica) : Prop where
  orderly : Orderly silent r.node
  ready : r.doneReplayWal = true → r.node.Ready

lemma replay_logEvent (r : Replica) (e : Event) : (r.logEvent env sv e).replay = r.replay := by
  have hindex : ∀ (r : Replica) height index,
      (r.addProposalWalIndexByReplay height index).replay = r.replay := by
    intro r height index
    unfold addProposalWalIndexByReplay
    split <;> rfl
  unfold logEvent
  split
  · dsimp only
    split
    · exact hindex r _ _
    · rfl
  · dsimp only
    split
    · exact hindex r _ _
    · rfl
  · split
    · unfold updateWalIndexAndTruncFile
      split <;> rfl
    · rfl
  · rfl

lemma Sane.live (h : r.Sane) {e : Event} (hr : r.live env sv e = some r') : r'.Sane := by
  obtain ⟨n, hn, rfl⟩ := map_eq_some_iff.mp hr
  split at hn
  case isTrue hdone =>
    have ho := (h.ready hdone).orderly h.orderly.ordered h.orderly.last env sv e
    have hchanges := handle_changes hn
    have hn' := ho.changes hchanges
    exact ⟨⟨hn'.ordered, hn'.last, nofun⟩, fun _ => (h.ready hdone).changes ho hchanges⟩
  case isFalse hdone =>
  refine ⟨handleReplaying_orderly h.orderly hn, fun hdone' => ?_⟩
  dsimp only at hdone'
  rw [replay_logEvent] at hdone'
  exact absurd hdone' hdone

lemma Sane.replayNext (h : r.Sane) (hr : r.replayNext env sv = some r') :
    Orderly silent r'.node := by
  unfold Replica.replayNext at hr
  split at hr
  · cases hr
  split at hr
  · exact some.inj hr ▸ h.orderly
  dsimp only at hr
  split at hr
  · obtain ⟨n, hn, rfl⟩ := map_eq_some_iff.mp hr
    have hn' := h.orderly.changes (replayProposal_changes hn)
    split
    · unfold addProposalWalIndexByReplay
      split <;> exact hn'
    · exact hn'
  · obtain ⟨n, hn, rfl⟩ := map_eq_some_iff.mp hr
    exact h.orderly.changes (processVote_changes (fun _ => trivial) (fun _ _ => trivial) hn)
  · exact some.inj hr ▸ h.orderly

lemma Sane.act {a : Action} (h : r.Sane) (hr : r.act env a = some r') :
    Orderly silent r'.node ∧ (r.doneReplayWal = true → r'.Sane) := by
  cases a with
  | live sv e => exact ⟨(h.live hr).orderly, fun _ => h.live hr⟩
  | replayNext sv =>
    refine ⟨h.replayNext hr, fun hdone => ?_⟩
    have hnone : r.replay = none := isNone_iff_eq_none.mp hdone
    rw [Replica.act, Replica.replayNext, hnone] at hr
    cases hr

lemma openNode_lastVote {ledger : List Block} {created : List VoteData}
    {n : ConsensusChainedBftImpl} (h : openNode env id ledger created = some n) :
    n.created = created ∧ n.safetyRules.lastVoteMsg = none := by
  obtain ⟨cs, -, rfl⟩ := map_eq_some_iff.mp h
  refine ⟨rfl, ?_⟩
  dsimp only
  split
  · rfl
  · exact (SafetyRules.setLastCommittedBlock_lastVote _ _ _).2

lemma orderly_restart {d : Disk} (hd : VotesOrdered d.created) (hr : restart env id d = some r) :
    Orderly silent r.node := by
  obtain ⟨n, hn, hr⟩ := bind_eq_some_iff.mp hr
  obtain ⟨hcreated, hnone⟩ := openNode_lastVote hn
  have ho : Orderly silent n :=
    ⟨hcreated ▸ hd, fun v si hv => (some_ne_none _ (hv.symm.trans hnone)).elim, nofun⟩
  split at hr
  · cases hr
    exact ho
  · obtain ⟨n', hn', rfl⟩ := map_eq_some_iff.mp hr
    exact ho.changes ((processCertificates_changes hn').trans proposeIfLeader_changes)

end Replica

namespace Life
variable {env : Env} {id : NodeId} {s s' : Life}

def voting : Life → Bool
  | .up r => r.doneReplayWal
  | .down _ => false

def Ready : Life → Prop
  | .up r => r.doneReplayWal = true → r.node.Ready
  | .down _ => True

def Resumes (env : Env) (id : NodeId) (s : Life) (e : LifeEvent) : Prop :=
  s.voting = false → ∀ s' ∈ s.step env id e, s'.Ready

instance : ∀ s : Life, Decidable s.Ready
  | .up r => inferInstanceAs (Decidable (r.doneReplayWal = true → r.node.Ready))
  | .down _ => .isTrue trivial

instance (env : Env) (id : NodeId) (s : Life) (e : LifeEvent) : Decidable (Resumes env id s e) :=
  inferInstanceAs (Decidable (s.voting = false → ∀ s' ∈ s.step env id e, s'.Ready))

def Sane : Life → Prop
  | .up r => r.Sane
  | .down d => VotesOrdered d.created

lemma Sane.ordered (h : s.Sane) : VotesOrdered s.created := by
  cases s with
  | up r => exact h.orderly.ordered
  | down d => exact h

lemma created_stages {r : Replica} {a : Option Action} {d : Disk} (hd : d ∈ r.stages env a) :
    d.created = r.node.created ∨
      ∃ a' r', a = some a' ∧ r.act env a' = some r' ∧ d.created = r'.node.created := by
  unfold Replica.stages at hd
  split at hd
  · exact .inl (mem_singleton.mp hd ▸ rfl)
  rename_i r' hr'
  obtain ⟨a', rfl, hr'⟩ := bind_eq_some_iff.mp hr'
  simp only [List.cons_append, List.mem_cons, List.mem_append, List.mem_map,
    not_mem_nil, or_false] at hd
  rcases hd with rfl | ⟨l, -, rfl⟩ | rfl | rfl
  · exact .inl rfl
  · exact .inl rfl
  · exact .inl rfl
  · exact .inr ⟨a', r', rfl, hr', rfl⟩

lemma Sane.step {e : LifeEvent} (h : s.Sane) (hresumes : Resumes env id s e)
    (hs : s.step env id e = some s') : s'.Sane := by
  cases s with
  | up r =>
    cases e with
    | act a =>
      obtain ⟨r', hr', rfl⟩ := map_eq_some_iff.mp hs
      obtain ⟨ho, hsane⟩ := Replica.Sane.act h hr'
      cases hdone : r.doneReplayWal with
      | true => exact hsane hdone
      | false => exact ⟨ho, hresumes hdone _ hs⟩
    | crash a stage =>
      obtain ⟨d, hd, rfl⟩ := map_eq_some_iff.mp hs
      change VotesOrdered d.created
      rcases created_stages (mem_of_getElem? hd) with heq | ⟨a', r', rfl, hr', heq⟩
      · rw [heq]
        exact h.orderly.ordered
      · rw [heq]
        exact (Replica.Sane.act h hr').1.ordered
    | restart => cases hs
  | down d =>
    cases e with
    | act | crash => cases hs
    | restart =>
      obtain ⟨r, hr, rfl⟩ := map_eq_some_iff.mp hs
      exact ⟨Replica.orderly_restart h hr, hresumes rfl _ hs⟩

theorem votesOrdered_lives (env : Env) (id : NodeId) (d : Disk) (hd : d.created = [])
    (es : List LifeEvent) (s : Life)
    (hP : Runs.Meets (Life.step env id) (Resumes env id) (.down d) es)
    (hrun : Runs.run (Life.step env id) (.down d) es = some s) : VotesOrdered s.created := by
  have hstart : Sane (.down d) := by
    change VotesOrdered d.created
    rw [hd]
    exact Pairwise.nil
  exact (Runs.run_induction (fun s e s' h hP hs => h.step hP hs) hstart hP hrun).ordered

open Cluster

def genesisDisk : Disk := ⟨[genesisBlock], ⟨0, []⟩, []⟩

def live (e : Event) : LifeEvent := .act (.live agreeable e)

def given (b : Block) (justify : QuorumCert) : LifeEvent := live (proposeTo [0] b justify).event

def timeoutVote : Event :=
  .consensusMsg ⟨.voteMsg ⟨none, 1, 1, some [3], 3, true, 0, some ⟨none, []⟩⟩
    ⟨certOf (blockAt [1] [0] 1 1), none⟩, some ⟨some ⟨[], [3]⟩, []⟩⟩

def votedAgain : List LifeEvent :=
  [.restart, given (blockAt [1] [0] 1 1) (genesisQC genesisBlock), live timeoutVote,
    .crash none 0, .restart, .act (.replayNext agreeable), .act (.replayNext agreeable),
    .act (.replayNext agreeable), given (blockAt [2] [1] 2 2) (certOf (blockAt [1] [0] 1 1))]

theorem votesOrdered_lives_votedAgain :
    ∃ s, Runs.run (Life.step (fourEnv [0]) [0]) (.down genesisDisk) votedAgain = some s ∧
      s.created.map (fun v => (v.level, v.newView)) = [(2, false), (1, false)] ∧
      VotesOrdered s.created :=
  ⟨_, eq_some_of_isSome (by decide +kernel), by decide +kernel, votesOrdered_lives (fourEnv [0]) [0]
    genesisDisk rfl votedAgain _ (by decide +kernel) (eq_some_of_isSome _)⟩

def timedOut : List LifeEvent :=
  [.restart, live (.firedEvent ⟨1, 1, 0⟩), .crash none 0, .restart,
    given (blockAt [1] [0] 1 1) (genesisQC genesisBlock)]

def secondProposal : Event :=
  .consensusMsg ⟨.proposalMsg
    ⟨1, 2, 0, blockAt [2] [0] 1 1, [1], 1, genesisQC genesisBlock⟩ ⟨genesisQC genesisBlock, none⟩,
    some ⟨some ⟨[], [1]⟩, []⟩⟩

def equivocated : List LifeEvent :=
  [.restart, given (blockAt [1] [0] 1 1) (genesisQC genesisBlock), .crash none 0, .restart,
    .act (.replayNext agreeable), .act (.replayNext agreeable), live secondProposal]

theorem not_votesOrdered_lives :
    (∃ s, Runs.run (Life.step (fourEnv [0]) [0]) (.down genesisDisk) timedOut = some s ∧
      s.created.map (fun v => (v.level, v.newView)) = [(1, false), (1, true)] ∧
      ¬VotesOrdered s.created) ∧
    ∃ s, Runs.run (Life.step (fourEnv [0]) [0]) (.down genesisDisk) equivocated = some s ∧
      s.created.map (fun v => (v.level, v.newView)) = [(1, false), (1, false)] ∧
      ¬VotesOrdered s.created := by
  unfold VotesOrdered
  exact ⟨⟨_, eq_some_of_isSome (by decide +kernel), by decide +kernel⟩,
    _, eq_some_of_isSome (by decide +kernel), by decide +kernel⟩
end Life
end ChainMaker.ChainedBft
