import ChainMaker.Lib.Quorum
import ChainMaker.Tbft.Authenticity

/-! The honest nodes of a chain, each handling events in any order. The network and the Byzantine
validators appear only through the messages that are delivered. -/

namespace ChainMaker.Tbft
open Finset Quorum Function

/-- A chain of which at most `(n - 1) / 3` validators are not honest. -/
structure Cluster where
  validators : ValidatorSet
  honest : Finset NodeId
  env : NodeId → Env
  env_validators : ∀ i, (env i).validatorSet = validators
  faulty_le : #(validators.validators.toFinset \ honest) ≤ (validators.size - 1) / 3

abbrev Network := NodeId → ConsensusTBFTImpl

namespace Cluster
variable (c : Cluster)

def start (ledger : NodeId → ℕ) : Network := fun i =>
  ConsensusTBFTImpl.start (c.env i) i (ledger i)

def step (s : Network) (e : NodeId × Event) : Option Network :=
  if e.1 ∈ c.honest then ((s e.1).handle (c.env e.1) e.2).map (update s e.1) else none

def Created (s : Network) (v : Vote) : Prop := ∃ w ∈ (s v.voter).created, w.message = v.message

instance (s : Network) (v : Vote) : Decidable (Created s v) :=
  inferInstanceAs (Decidable (∃ w ∈ _, _))

def Genuine (s : Network) (v : Vote) : Prop := v.voter ∈ c.honest → Created s v

instance (s : Network) (v : Vote) : Decidable (c.Genuine s v) :=
  inferInstanceAs (Decidable (_ → _))

def Voted (s : Network) (type : VoteType) (height : ℕ) (round : ℤ) (hash : Bytes) : Prop :=
  Certified c.validators.validators.toFinset c.honest c.validators.quorum fun i =>
    ∃ v ∈ (s i).created, v.type = type ∧ v.height = height ∧ v.round = round ∧ v.hash.bytes = hash

lemma overlap : #c.validators.validators.toFinset +
    #(c.validators.validators.toFinset \ c.honest) < 2 * c.validators.quorum := by
  have hfaulty := c.faulty_le
  have hcard : #c.validators.validators.toFinset ≤ c.validators.size := List.toFinset_card_le _
  unfold ValidatorSet.quorum
  omega

end Cluster

namespace ConsensusTBFTImpl
variable {A B : Vote → Prop} {env : Env} {n : ConsensusTBFTImpl}

lemma Votes.mono (hAB : ∀ v, A v → B v) (hv : n.Votes A env) : n.Votes B env := by
  have hknown : ∀ v, n.Known A v → n.Known B v := fun v h => h.imp_left (hAB v)
  exact ⟨hv.wf, hv.height_eq, fun v h => hknown v (hv.held v h),
    fun m hm v hvm hadm => hknown v (hv.queued m hm v hvm hadm),
    fun v h => hknown v (hv.logged v h)⟩

lemma Progress.new (env : Env) (id : NodeId) (wal : Wal) : (newConsensus env id wal).Progress := by
  refine ⟨fun ti hti => ?_, nofun, nofun, List.Pairwise.nil, ?_⟩
  · obtain rfl := List.mem_singleton.mp hti
    exact .inr ⟨rfl, le_rfl⟩
  · rintro p (h | h) <;> cases h

lemma Progress.start (env : Env) (id : NodeId) (ledger : ℕ) : (start env id ledger).Progress :=
  (Progress.new env id ⟨0, []⟩).enterNewHeight _ _

lemma Progress.created_unique (hp : n.Progress) {v w : Vote} (hv : v ∈ n.created)
    (hw : w ∈ n.created) (htype : v.type = w.type) (hheight : v.height = w.height)
    (hround : v.round = w.round) : v = w := by
  by_contra hne
  have hapart : n.created.Pairwise fun v w => v.position ≠ w.position :=
    hp.created_lt.imp fun h => h.ne'
  have hsymm : Std.Symm fun v w : Vote => v.position ≠ w.position := ⟨fun _ _ h => h.symm⟩
  refine hapart.forall hv hw hne ?_
  unfold Vote.position
  rw [htype, hheight, hround]

end ConsensusTBFTImpl

open ConsensusTBFTImpl

namespace Cluster
variable {c : Cluster} {s s' : Network} {e : NodeId × Event}

lemma step_cases (h : c.step s e = some s') : e.1 ∈ c.honest ∧
    ∃ n, (s e.1).handle (c.env e.1) e.2 = some n ∧ s' = update s e.1 n := by
  unfold step at h
  split at h
  case isTrue hi =>
    obtain ⟨n, hn, rfl⟩ := Option.map_eq_some_iff.mp h
    exact ⟨hi, n, hn, rfl⟩
  case isFalse => cases h

def Extends (s s' : Network) : Prop := ∀ i, (s i).created ⊆ (s' i).created

lemma Extends.created (h : Extends s s') {v : Vote} (hv : Created s v) : Created s' v := by
  obtain ⟨w, hw, hmsg⟩ := hv
  exact ⟨w, h _ hw, hmsg⟩

lemma Extends.voted (h : Extends s s') {t : VoteType} {height : ℕ} {r : ℤ} {x : Bytes}
    (hv : c.Voted s t height r x) : c.Voted s' t height r x := by
  refine hv.mono fun i _ => ?_
  rintro ⟨v, hv, hrest⟩
  exact ⟨v, h i hv, hrest⟩

structure Inv (c : Cluster) (s : Network) : Prop where
  id_eq : ∀ i ∈ c.honest, (s i).id = i
  progress : ∀ i ∈ c.honest, (s i).Progress
  votes : ∀ i ∈ c.honest, (s i).Votes (c.Genuine s) (c.env i)

lemma id_start (env : Env) (i : NodeId) (ledger : ℕ) :
    (ConsensusTBFTImpl.start env i ledger).id = i :=
  congrArg Prod.fst (record_enterNewHeight env (newConsensus env i ⟨0, []⟩)
    ((ledger + 1) % 2 ^ 64) false)

lemma Inv.start (c : Cluster) (ledger : NodeId → ℕ) : c.Inv (c.start ledger) where
  id_eq := fun i _ => id_start (c.env i) i (ledger i)
  progress := fun i _ => ConsensusTBFTImpl.Progress.start (c.env i) i (ledger i)
  votes := fun i _ => ConsensusTBFTImpl.Votes.start _ (c.env i) i (ledger i)

def Delivers (c : Cluster) (s : Network) (e : NodeId × Event) : Prop :=
  ∀ v ∈ e.2.votes, v.voter = e.1 ∨ (c.env e.1).verifyVote v = true → c.Genuine s v

lemma Inv.step_extends (hi : c.Inv s) (h : c.step s e = some s') : Extends s s' := by
  obtain ⟨hhonest, n, hn, rfl⟩ := step_cases h
  intro j
  by_cases hj : j = e.1
  · subst hj
    rw [update_self]
    rcases (handle_step (hi.progress _ hhonest) hn).2.created with heq | ⟨v, heq, -⟩
    · rw [heq]
      exact List.Subset.refl _
    · rw [heq]
      exact List.subset_cons_self _ _
  · rw [update_of_ne hj]
    exact List.Subset.refl _

lemma Inv.step (hi : c.Inv s) (hd : c.Delivers s e) (h : c.step s e = some s') : c.Inv s' := by
  have hext := hi.step_extends h
  have hgenuine : ∀ v, c.Genuine s v → c.Genuine s' v := fun v hv hj => hext.created (hv hj)
  obtain ⟨hhonest, n, hn, rfl⟩ := step_cases h
  obtain ⟨hprogress, heffect⟩ := handle_step (hi.progress _ hhonest) hn
  have hvotes : n.Votes (c.Genuine s) (c.env e.1) := by
    refine (hi.votes _ hhonest).handle (fun v hv hadm => .inl ?_) hn
    rw [hi.id_eq _ hhonest] at hadm
    exact hd v hv hadm
  -- The node that took the step, and the others, which did not change.
  have hcases : ∀ {P : NodeId → ConsensusTBFTImpl → Prop}, P e.1 n →
      (∀ j ∈ c.honest, P j (s j)) → ∀ j ∈ c.honest, P j (update s e.1 n j) := by
    intro P hn hs j hj
    by_cases hje : j = e.1
    · subst hje
      rwa [update_self]
    · rw [update_of_ne hje]
      exact hs j hj
  refine ⟨hcases (P := fun j m => m.id = j) ?_ hi.id_eq,
    hcases (P := fun _ m => m.Progress) hprogress hi.progress, ?_⟩
  · rw [heffect.id_eq, hi.id_eq _ hhonest]
  · exact hcases (P := fun j m => m.Votes (c.Genuine _) (c.env j)) (hvotes.mono hgenuine)
      fun j hj => (hi.votes j hj).mono hgenuine

lemma Inv.genuine (hi : c.Inv s) {i : NodeId} (hhonest : i ∈ c.honest) {v : Vote}
    (hv : (s i).Known (c.Genuine s) v) : c.Genuine s v := by
  rcases hv with hv | hv
  · exact hv
  intro _
  have hvoter : v.voter = i := ((hi.progress i hhonest).voter v hv).trans (hi.id_eq i hhonest)
  exact ⟨v, by rwa [hvoter], rfl⟩

lemma Inv.voted (hi : c.Inv s) {i : NodeId} (hhonest : i ∈ c.honest) {r : ℤ} {t : VoteType}
    {x : Bytes} (hmaj : ((s i).heightRoundVoteSet.voteSet r t).maj23 = some x) :
    c.Voted s t (s i).height r x := by
  have hv := hi.votes i hhonest
  have hwf := hv.wf.voteSet r t
  rw [hv.height_eq, c.env_validators i] at hwf
  obtain ⟨A, hA, hcard, hvote⟩ := hwf.exists_quorum hmaj
  refine ⟨A, hA, hcard, fun j hj hjhonest => ?_⟩
  obtain ⟨v, hcounted, rfl, hbytes⟩ := hvote j hj
  have hheld : ((s i).heightRoundVoteSet.voteSet r t).Holds v := .inr ⟨x, _, hcounted⟩
  obtain ⟨htype, hheight, hround, -⟩ := hwf.matched hheld
  obtain ⟨w, hw, hmsg⟩ := hi.genuine hhonest (hv.held v ⟨r, t, hheld⟩) hjhonest
  simp only [Vote.message, Vote.mk.injEq] at hmsg
  obtain ⟨h1, -, h2, h3, h4, -⟩ := hmsg
  refine ⟨w, hw, h1.trans htype, h2.trans hheight, h3.trans hround, ?_⟩
  rw [h4]
  exact hbytes

lemma Inv.voted_unique (hi : c.Inv s) {t : VoteType} {h : ℕ} {r : ℤ} {x y : Bytes}
    (hx : c.Voted s t h r x) (hy : c.Voted s t h r y) : x = y := by
  obtain ⟨i, hhonest, ⟨v, hv, hvt, hvh, hvr, rfl⟩, ⟨w, hw, hwt, hwh, hwr, rfl⟩⟩ :=
    hx.exists_common c.overlap hy
  rw [(hi.progress i hhonest).created_unique hv hw (hvt.trans hwt.symm) (hvh.trans hwh.symm)
    (hvr.trans hwr.symm)]

open ConsensusTBFTImpl (fourEnv sign)

def fourCluster : Cluster where
  validators := fourValidators
  honest := {[0], [1], [2]}
  env := fun _ => fourEnv
  env_validators := fun _ => rfl
  faulty_le := by decide

def prevoteOf (i : UInt8) (r : ℤ) (hash : Hash) : Event :=
  .externalMsg (.prevote (some (sign [i] ⟨.prevote, [i], 1, r, hash, none⟩)))

def precommitOf (i : UInt8) (r : ℤ) (hash : Hash) : Event :=
  .externalMsg (.precommit (some (sign [i] ⟨.precommit, [i], 1, r, hash, none⟩)))

def blockOf (hash : Bytes) : Block := ⟨⟨1, some hash, none, some []⟩, hash, none⟩

def receive (node : NodeId) (proposer : UInt8) (r : ℤ) (hash : Bytes) : List (NodeId × Event) :=
  [(node, .externalMsg (.propose (some
      ⟨[proposer], 1, r, -1, some (blockOf hash), some ⟨⟨[], [proposer]⟩, []⟩⟩))),
    (node, .verifyResult ⟨blockOf hash, true, none⟩), (node, .internalMsg)]

def gather (node : NodeId) (i j : UInt8) (r : ℤ) (hash : Bytes) : List (NodeId × Event) :=
  [(node, prevoteOf i r (some hash)), (node, prevoteOf j r (some hash)), (node, .internalMsg)]

def roundZero : List (NodeId × Event) :=
  [([2], .proposedBlock (blockOf [7])), ([2], .internalMsg)] ++
    receive [0] 2 0 [7] ++ receive [1] 2 0 [7] ++
    gather [0] 1 2 0 [7] ++ gather [1] 0 2 0 [7] ++ gather [2] 0 1 0 [7]

def commitBoth : List (NodeId × Event) :=
  roundZero ++ [([0], precommitOf 1 0 (some [7])), ([0], precommitOf 2 0 (some [7])),
    ([1], precommitOf 0 0 (some [7])), ([1], precommitOf 2 0 (some [7]))]

def commitTwice : List (NodeId × Event) :=
  roundZero ++ [([0], precommitOf 1 0 (some [7])), ([0], precommitOf 2 0 (some [7])),
    ([1], precommitOf 2 0 (some [7])), ([1], precommitOf 3 0 nilHash),
    ([1], .timerFires), ([1], .timeout),
    ([2], precommitOf 1 0 (some [7])), ([2], precommitOf 3 0 nilHash),
    ([2], .timerFires), ([2], .timeout)] ++
    receive [1] 3 1 [8] ++ receive [2] 3 1 [8] ++ gather [1] 2 3 1 [8] ++ gather [2] 1 3 1 [8] ++
    [([1], precommitOf 2 1 (some [8])), ([1], precommitOf 3 1 (some [8]))]

def commits (i j : NodeId) (s : Network) : List Bytes × List Bytes :=
  ((s i).committed.map (·.header.blockHash.bytes), (s j).committed.map (·.header.blockHash.bytes))

end Cluster

namespace ConsensusTBFTImpl

/-- A node votes at growing positions, and precommits and commits what has a majority. -/
theorem votes_in_order (env : Env) (id : NodeId) (ledger : ℕ) (es : List Event)
    (n : ConsensusTBFTImpl) (hrun : Runs.run (handle env) (start env id ledger) es = some n) :
    (n.created.Pairwise fun v w => w.position < v.position) ∧
      (∀ v ∈ n.created, v.voter = n.id ∧ v.position ≤ n.position) ∧
      ∀ e n', n.handle env e = some n' → Effect (· ∈ e.verified) n n' := by
  have hp : n.Progress :=
    Runs.run_induction_all (fun _ _ _ hp hn' => (handle_step hp hn').1)
      (Progress.start env id ledger) hrun
  exact ⟨hp.created_lt, fun v hv => ⟨hp.voter v hv, hp.created_le v hv⟩,
    fun e n' hn' => (handle_step hp hn').2⟩

theorem votes_in_order_receive :
    ∃ n, Runs.run (handle fourEnv) (start fourEnv [0] 0) ((Cluster.receive [0] 2 0 [7]).map (·.2)) =
        some n ∧ n.created.length = 1 ∧ n.created.Pairwise fun v w => w.position < v.position :=
  ⟨_, Option.eq_some_of_isSome (by decide +kernel), by decide +kernel,
    (votes_in_order fourEnv [0] 0 _ _ (Option.eq_some_of_isSome _)).1⟩

end ConsensusTBFTImpl
end ChainMaker.Tbft
