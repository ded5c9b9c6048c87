import ChainMaker.Lib.LockedVotes
import ChainMaker.Tbft.Network
import Mathlib.Data.Int.Interval

/-! Agreement of the honest nodes. In one round the vote sets of all nodes have one majority. From
round to round nothing in the code binds a node to what it has precommitted, so commits agree in
the runs in which the nodes happen to keep to the locking rule. -/

namespace ChainMaker.Tbft
open HeightRoundVoteSet ConsensusTBFTImpl
open Option (eq_some_of_isSome)

namespace Cluster
variable {c : Cluster} {s s' : Network} {e : NodeId × Event}

/-- Every vote that is delivered in the name of an honest voter was created by it. -/
def DeliversGenuine (c : Cluster) (s : Network) (e : NodeId × Event) : Prop :=
  ∀ v ∈ e.2.votes, c.Genuine s v

instance (c : Cluster) (s : Network) (e : NodeId × Event) : Decidable (c.DeliversGenuine s e) :=
  inferInstanceAs (Decidable (∀ v ∈ _, _))

lemma DeliversGenuine.delivers (h : c.DeliversGenuine s e) : c.Delivers s e :=
  fun v hv _ => h v hv

lemma Inv.run {es : List (NodeId × Event)} (hi : c.Inv s) (hP : Runs.Meets c.step c.Delivers s es)
    (hrun : Runs.run c.step s es = some s') : c.Inv s' ∧ Extends s s' := by
  refine Runs.run_induction (I := fun t => c.Inv t ∧ Extends s t) ?_
    ⟨hi, fun i => List.Subset.refl _⟩ hP hrun
  rintro t e t' ⟨hinv, hext⟩ hd hstep
  exact ⟨hinv.step hd hstep, fun i v hv => hinv.step_extends hstep i (hext i hv)⟩

theorem majority_unique (c : Cluster) (ledger : NodeId → ℕ) (es es' : List (NodeId × Event))
    (s s' : Network)
    (hP : Runs.Meets c.step c.DeliversGenuine (c.start ledger) (es ++ es'))
    (hs : Runs.run c.step (c.start ledger) es = some s) (hs' : Runs.run c.step s es' = some s')
    (i j : NodeId) (hi : i ∈ c.honest) (hj : j ∈ c.honest) (r : ℤ) (t : VoteType)
    (vs vs' : VoteSet) (hvs : (s i).heightRoundVoteSet.getVoteSet r t = some vs)
    (hvs' : (s' j).heightRoundVoteSet.getVoteSet r t = some vs')
    (hheight : vs.height = vs'.height) (x y : Bytes) (hx : vs.maj23 = some x)
    (hy : vs'.maj23 = some y) : x = y := by
  obtain ⟨hP1, hP2⟩ := hP.append hs
  have hmono : ∀ {t fs}, Runs.Meets c.step c.DeliversGenuine t fs →
      Runs.Meets c.step c.Delivers t fs := fun h => h.mono fun _ _ => DeliversGenuine.delivers
  obtain ⟨hinv, -⟩ := (Inv.start c ledger).run (hmono hP1) hs
  obtain ⟨hinv', hext⟩ := hinv.run (hmono hP2) hs'
  have hvoted : ∀ {u : Network}, c.Inv u → ∀ k ∈ c.honest, ∀ {ws : VoteSet} {z : Bytes},
      (u k).heightRoundVoteSet.getVoteSet r t = some ws → ws.maj23 = some z →
      c.Voted u t ws.height r z := by
    intro u hu k hk ws z hws hz
    have hset : (u k).heightRoundVoteSet.voteSet r t = ws := by
      rw [voteSet, hws, Option.getD_some]
    have hwf := (hu.votes k hk).wf.voteSet r t
    rw [hset] at hwf
    rw [hwf.height_eq, (hu.votes k hk).height_eq]
    exact hu.voted hk (by rw [hset, hz])
  have hvx := hext.voted (hvoted hinv i hi hvs hx)
  rw [hheight] at hvx
  exact hinv'.voted_unique hvx (hvoted hinv' j hj hvs' hy)

theorem majority_unique_roundZero :
    ∃ s vs vs' x y,
      Runs.run fourCluster.step (fourCluster.start fun _ => 0) roundZero = some s ∧
      (s [0]).heightRoundVoteSet.getVoteSet 0 .prevote = some vs ∧ vs.maj23 = some x ∧
      (s [1]).heightRoundVoteSet.getVoteSet 0 .prevote = some vs' ∧ vs'.maj23 = some y ∧
      x = y :=
  ⟨_, _, _, _, _, eq_some_of_isSome (by decide +kernel), eq_some_of_isSome (by decide +kernel),
    eq_some_of_isSome (by decide +kernel), eq_some_of_isSome (by decide +kernel),
    eq_some_of_isSome (by decide +kernel), majority_unique fourCluster (fun _ => 0) roundZero [] _ _
      (by decide +kernel) (eq_some_of_isSome _) rfl [0] [1] (by decide) (by decide) 0 .prevote _ _
      (eq_some_of_isSome _) (eq_some_of_isSome _) (by decide +kernel) _ _ (eq_some_of_isSome _)
      (eq_some_of_isSome _)⟩

end Cluster

namespace ConsensusTBFTImpl

def castVote (env : Env) (n : ConsensusTBFTImpl) (e : Event) : Option Vote :=
  (n.handle env e).bind fun n' =>
    if n'.created.length = n.created.length then none else n'.created.head?

/-- The locking rule: for each other hash that the node precommitted at this height, one of its
prevote sets of a later round has a majority for the hash of the vote. -/
def Unlocked (n : ConsensusTBFTImpl) (v : Vote) : Prop :=
  ∀ w ∈ n.created, w.type = .precommit → w.height = v.height → isNilHash w.hash = false →
    w.hash.bytes ≠ v.hash.bytes → ∃ e ∈ n.heightRoundVoteSet.roundVoteSets.entries,
      w.round < e.1 ∧ e.1 < v.round ∧ e.2.prevotes.height = v.height ∧
        e.2.prevotes.maj23 = some v.hash.bytes

instance (n : ConsensusTBFTImpl) (v : Vote) : Decidable (n.Unlocked v) :=
  inferInstanceAs (Decidable (∀ w ∈ n.created, _))

lemma castVote_eq {env : Env} {n n' : ConsensusTBFTImpl} {e : Event} {v : Vote}
    (hn' : n.handle env e = some n') (hv : n'.created = v :: n.created) :
    n.castVote env e = some v := by
  simp [castVote, hn', hv]

end ConsensusTBFTImpl

namespace Cluster
variable {c : Cluster} {s s' : Network} {e : NodeId × Event} {i : NodeId}

/-- Signatures are not forged: a vote that passes verification in the name of an honest voter was
created by it. -/
def Unforgeable (c : Cluster) (s : Network) (e : NodeId × Event) : Prop :=
  ∀ v ∈ e.2.votes, (c.env e.1).verifyVote v = true → c.Genuine s v

/-- What the code leaves open: a prevote for a block keeps to the locking rule, nobody sends a
node votes in its own name, and no block that is verified has the hash of the nil vote. -/
@[mk_iff]
structure Disciplined (c : Cluster) (s : Network) (e : NodeId × Event) : Prop where
  unlocked : ∀ v ∈ (s e.1).castVote (c.env e.1) e.2, v.type = .prevote →
    isNilHash v.hash = false → (s e.1).Unlocked v
  own : ∀ v ∈ e.2.votes, v.voter = e.1 → c.Genuine s v
  verified : ∀ x ∈ e.2.verified, isNilHash (some x) = false

instance (c : Cluster) (s : Network) (e : NodeId × Event) : Decidable (c.Unforgeable s e) :=
  inferInstanceAs (Decidable (∀ v ∈ _, _))

instance (c : Cluster) (s : Network) (e : NodeId × Event) : Decidable (c.Disciplined s e) :=
  decidable_of_iff' _ (c.disciplined_iff s e)

/-- No two honest nodes have committed different blocks of one height. -/
def Agreement (c : Cluster) (s : Network) : Prop :=
  ∀ i ∈ c.honest, ∀ j ∈ c.honest, ∀ b ∈ (s i).committed, ∀ b' ∈ (s j).committed,
    b.header.blockHeight = b'.header.blockHeight →
      b.header.blockHash.bytes = b'.header.blockHash.bytes

structure Locking (c : Cluster) (s : Network) : Prop extends c.Inv s where
  justified : ∀ i ∈ c.honest, ∀ v ∈ (s i).created, v.type = .precommit →
    isNilHash v.hash = false → c.Voted s .prevote v.height v.round v.hash.bytes
  locked : ∀ i ∈ c.honest, ∀ v ∈ (s i).created, ∀ w ∈ (s i).created, v.type = .precommit →
    w.type = .prevote → v.height = w.height → v.round < w.round → isNilHash v.hash = false →
    isNilHash w.hash = false → v.hash.bytes ≠ w.hash.bytes →
    ∃ r, v.round < r ∧ r < w.round ∧ c.Voted s .prevote v.height r w.hash.bytes
  committed : ∀ i ∈ c.honest, ∀ b ∈ (s i).committed, isNilHash b.header.blockHash = false ∧
    ∃ r, c.Voted s .precommit b.header.blockHeight r b.header.blockHash.bytes

lemma Locking.start (c : Cluster) (ledger : NodeId → ℕ) : c.Locking (c.start ledger) := by
  have hrecord : ∀ i, (c.start ledger i).record = (i, [], [], []) := fun i =>
    record_enterNewHeight _ _ _ _
  have hcreated : ∀ i, (c.start ledger i).created = [] := fun i =>
    congrArg (fun x => x.2.1) (hrecord i)
  have hcommitted : ∀ i, (c.start ledger i).committed = [] := fun i =>
    congrArg (fun x => x.2.2.1) (hrecord i)
  refine ⟨Inv.start c ledger, fun i _ v hv => ?_, fun i _ v hv => ?_, fun i _ b hb => ?_⟩
  · rw [hcreated] at hv
    cases hv
  · rw [hcreated] at hv
    cases hv
  · rw [hcommitted] at hb
    cases hb

lemma Disciplined.delivers (hd : c.Disciplined s e) (hu : c.Unforgeable s e) : c.Delivers s e := by
  rintro v hv (hvoter | hverify)
  · exact hd.own v hv hvoter
  · exact hu v hv hverify

lemma Inv.voted_of_entry (hi : c.Inv s) (hhonest : i ∈ c.honest)
    {entry : Sigma fun _ : ℤ => RoundVoteSet} {x : Bytes}
    (hentry : entry ∈ (s i).heightRoundVoteSet.roundVoteSets.entries)
    (hmaj : entry.2.prevotes.maj23 = some x) :
    c.Voted s .prevote entry.2.prevotes.height entry.1 x := by
  have hset : (s i).heightRoundVoteSet.voteSet entry.1 .prevote = entry.2.prevotes := by
    have hlookup := GoMap.mem_entries.mp hentry
    simp [voteSet, getVoteSet, getRoundVoteSet, hlookup, RoundVoteSet.get]
  have hwf := (hi.votes i hhonest).wf.voteSet entry.1 .prevote
  rw [hset] at hwf
  rw [hwf.height_eq, (hi.votes i hhonest).height_eq]
  exact hi.voted hhonest (by rw [hset, hmaj])

lemma Inv.created_step (hi : c.Inv s) (h : c.step s e = some s') {v : Vote}
    (hv : v ∈ (s' i).created) : v ∈ (s i).created ∨
      i = e.1 ∧ (s e.1).castVote (c.env e.1) e.2 = some v ∧
        (s' i).created = v :: (s i).created ∧ v.height = (s' i).height ∧ (s' i).Backed v := by
  obtain ⟨hhonest, n, hn, rfl⟩ := step_cases h
  by_cases hie : i = e.1
  · subst hie
    rw [Function.update_self] at hv ⊢
    rcases (handle_step (hi.progress _ hhonest) hn).2.created with
      heq | ⟨w, heq, hheight, hbacked⟩
    · exact .inl (heq ▸ hv)
    have hmem := hv
    rw [heq] at hmem
    rcases List.mem_cons.mp hmem with rfl | hold
    · exact .inr ⟨rfl, castVote_eq hn heq, heq, hheight, hbacked⟩
    · exact .inl hold
  · rw [Function.update_of_ne hie] at hv
    exact .inl hv

lemma Inv.committed_step (hi : c.Inv s) (h : c.step s e = some s') {b : Block}
    (hb : b ∈ (s' i).committed) : b ∈ (s i).committed ∨ b.header.blockHeight = (s' i).height ∧
      (∃ r, ((s' i).heightRoundVoteSet.voteSet r .precommit).maj23 =
        some b.header.blockHash.bytes) ∧
      (isNilHash b.header.blockHash = false ∨ b.header.blockHash.bytes ∈ e.2.verified) := by
  obtain ⟨hhonest, n, hn, rfl⟩ := step_cases h
  by_cases hie : i = e.1
  · subst hie
    rw [Function.update_self] at hb ⊢
    rcases (handle_step (hi.progress _ hhonest) hn).2.committed with
      heq | ⟨b', heq, hrest⟩
    · exact .inl (heq ▸ hb)
    rw [heq] at hb
    rcases List.mem_cons.mp hb with rfl | hold
    · exact .inr hrest
    · exact .inl hold
  · rw [Function.update_of_ne hie] at hb
    exact .inl hb

lemma Locking.step (hl : c.Locking s) (hu : c.Unforgeable s e) (hd : c.Disciplined s e)
    (h : c.step s e = some s') : c.Locking s' := by
  have hinv : c.Inv s' := hl.toInv.step (hd.delivers hu) h
  have hext : Extends s s' := hl.toInv.step_extends h
  refine ⟨hinv, fun i hi v hv htype hnil => ?_, fun i hi v hv w hw => ?_, fun i hi b hb => ?_⟩
  · rcases hl.toInv.created_step h hv with hold | ⟨-, -, -, hheight, hbacked⟩
    · exact hext.voted (hl.justified i hi v hold htype hnil)
    -- A new precommit for a block follows the majority of the node's prevotes.
    rcases hbacked with hpre | ⟨-, hnil' | hmaj⟩
    · rw [htype] at hpre
      cases hpre
    · rw [hnil] at hnil'
      cases hnil'
    · rw [hheight]
      exact hinv.voted hi hmaj
  · intro hvt hwt hheight hround hvnil hwnil hne
    rcases hl.toInv.created_step h hw with hwold | ⟨rfl, hcast, hwnew, -⟩
    · rcases hl.toInv.created_step h hv with hvold | ⟨-, -, hvnew, -⟩
      · obtain ⟨r, hlo, hhi, hvoted⟩ :=
          hl.locked i hi v hvold w hwold hvt hwt hheight hround hvnil hwnil hne
        exact ⟨r, hlo, hhi, hext.voted hvoted⟩
      -- A node does not go back to an earlier round to precommit.
      have hsorted := (hinv.progress i hi).created_lt
      rw [hvnew] at hsorted
      have hlt := (List.pairwise_cons.mp hsorted).1 w hwold
      rw [Vote.position, Vote.position, hvt, hwt, position_lt] at hlt
      omega
    · have hvold : v ∈ (s e.1).created := by
        rw [hwnew] at hv
        rcases List.mem_cons.mp hv with rfl | hvold
        · rw [hvt] at hwt
          cases hwt
        · exact hvold
      obtain ⟨entry, hentry, hlo, hhi, heq, hmaj⟩ :=
        hd.unlocked w hcast hwt hwnil v hvold hvt hheight hvnil hne
      have hvoted := hl.toInv.voted_of_entry hi hentry hmaj
      rw [heq, ← hheight] at hvoted
      exact ⟨entry.1, hlo, hhi, hext.voted hvoted⟩
  · rcases hl.toInv.committed_step h hb with hold | ⟨hheight, ⟨r, hmaj⟩, hnil⟩
    · obtain ⟨hnil, r, hvoted⟩ := hl.committed i hi b hold
      exact ⟨hnil, r, hext.voted hvoted⟩
    · refine ⟨hnil.elim id (hd.verified _), r, ?_⟩
      rw [hheight]
      exact hinv.voted hi hmaj

lemma Locking.rules (hl : c.Locking s) (h : ℕ) :
    LockedVotes.Rules c.validators.validators.toFinset c.honest c.validators.quorum
      (fun i (r : ℤ) (x : Bytes) => isNilHash (some x) = false ∧
        ∃ v ∈ (s i).created, v.type = .prevote ∧ v.height = h ∧ v.round = r ∧ v.hash.bytes = x)
      (fun i r x => isNilHash (some x) = false ∧
        ∃ v ∈ (s i).created, v.type = .precommit ∧ v.height = h ∧ v.round = r ∧
          v.hash.bytes = x) where
  overlap := c.overlap
  precommit_unique := by
    rintro i hi r x y ⟨-, v, hv, hvt, hvh, hvr, rfl⟩ ⟨-, w, hw, hwt, hwh, hwr, rfl⟩
    rw [(hl.progress i hi).created_unique hv hw (hvt.trans hwt.symm) (hvh.trans hwh.symm)
      (hvr.trans hwr.symm)]
  justified := by
    rintro i hi r x ⟨hnil, v, hv, hvt, rfl, rfl, rfl⟩
    exact (hl.justified i hi v hv hvt hnil).mono fun j _ hj => ⟨hnil, hj⟩
  locked := by
    rintro i hi r r' x y ⟨hxnil, v, hv, hvt, rfl, rfl, rfl⟩ ⟨hynil, w, hw, hwt, hwh, rfl, rfl⟩
      hlt hne
    obtain ⟨r'', hlo, hhi, hvoted⟩ :=
      hl.locked i hi v hv w hw hvt hwt hwh.symm hlt hxnil hynil hne
    exact ⟨r'', hlo, hhi, hvoted.mono fun j _ hj => ⟨hynil, hj⟩⟩

lemma Locking.agreement (hl : c.Locking s) : c.Agreement s := by
  intro i hi j hj b hb b' hb' hheight
  obtain ⟨hnil, r, hvoted⟩ := hl.committed i hi b hb
  obtain ⟨hnil', r', hvoted'⟩ := hl.committed j hj b' hb'
  rw [← hheight] at hvoted'
  exact (hl.rules b.header.blockHeight).agree (hvoted.mono fun k _ hk => ⟨hnil, hk⟩)
    (hvoted'.mono fun k _ hk => ⟨hnil', hk⟩)

theorem agreement_of_run (c : Cluster) (ledger : NodeId → ℕ) (es : List (NodeId × Event))
    (s : Network)
    (hP : Runs.Meets c.step (fun s e => c.Unforgeable s e ∧ c.Disciplined s e) (c.start ledger) es)
    (hrun : Runs.run c.step (c.start ledger) es = some s) : c.Agreement s := by
  have hlocking : c.Locking s :=
    Runs.run_induction (fun s e s' hl hP h => Locking.step hl hP.1 hP.2 h)
      (Locking.start c ledger) hP hrun
  exact hlocking.agreement

theorem agreement_of_run_commitBoth :
    ∃ s, Runs.run fourCluster.step (fourCluster.start fun _ => 0) commitBoth = some s ∧
      commits [0] [1] s = ([[7]], [[7]]) ∧ fourCluster.Agreement s :=
  ⟨_, eq_some_of_isSome (by decide +kernel), by decide +kernel,
    agreement_of_run _ _ commitBoth _ (by decide +kernel) (eq_some_of_isSome _)⟩

/-- Two honest nodes commit different blocks at height 1, with every vote that is delivered in the
name of an honest voter created by it. -/
theorem not_agreement_commitTwice :
    Runs.Meets fourCluster.step fourCluster.DeliversGenuine (fourCluster.start fun _ => 0)
        commitTwice ∧
      ∃ s, Runs.run fourCluster.step (fourCluster.start fun _ => 0) commitTwice = some s ∧
        ¬fourCluster.Agreement s := by
  refine ⟨by decide +kernel, _, eq_some_of_isSome (by decide +kernel), fun hagree => ?_⟩
  exact absurd (hagree [0] (by decide) [1] (by decide)) (by decide +kernel)

end Cluster
end ChainMaker.Tbft
