import ChainMaker.ChainedBft.Cluster

/-! The certificates that a node makes of the votes it has collected. They verify at every node as
long as no vote was changed after its author signed it. -/

namespace ChainMaker.ChainedBft
open Option List ConsensusChainedBftImpl

namespace VotePool
variable {vp vp' : VotePool} {v w : VoteData} {ref min : ℕ} {m : GoMap ℕ ℕ} {R Q : VoteData → Prop}

def Holds (vp : VotePool) (m : GoMap ℕ ℕ) (Q : VoteData → Prop) : Prop :=
  ∀ author ref, m.lookup author = some ref → ∃ w, vp.vote ref = some w ∧ w.authorIdx = author ∧ Q w

/-- The votes in the maps are of `R`, and what is locked has the votes it needs. -/
structure Intact (R : VoteData → Prop) (min : ℕ) (vp : VotePool) : Prop where
  first : vp.Holds vp.votes fun _ => True
  newViews : vp.Holds vp.votedNewView fun w => R w ∧ w.newView = true
  blocks : ∀ id, vp.Holds (vp.blockVotes id) fun w => R w ∧ bytes w.blockId = id ∧ id ≠ []
  lockedNewView : vp.lockedNewView = true → min ≤ vp.votedNewView.keys.length
  lockedBlock : ∀ id, vp.lockedBlockId = some id → min ≤ (vp.blockVotes id).keys.length ∧ id ≠ []

/-- A vote for a block does not come after a bare timeout of its author, nor a bare timeout after a
vote for a block that is no timeout. -/
def Keeps (vp : VotePool) (v : VoteData) : Prop :=
  ∀ last ∈ vp.lastVote v.authorIdx,
    (v.newView = false → bytes v.blockId ≠ [] → bytes last.blockId = [] → last.newView = false) ∧
    (v.newView = true → bytes v.blockId = [] → bytes last.blockId ≠ [] → last.newView = true)

instance (vp : VotePool) (v : VoteData) : Decidable (vp.Keeps v) :=
  inferInstanceAs (Decidable (∀ last ∈ vp.lastVote v.authorIdx, _))

lemma vote_addVoteIfNeed (hw : vp.vote ref = some w) : (vp.addVoteIfNeed v).vote ref =
      some (if vp.votes.lookup v.authorIdx = some ref then mergeVote w v else w) := by
  have hlt : ref < vp.store.length := (List.getElem?_eq_some_iff.mp hw).1
  unfold addVoteIfNeed vote
  cases hfirst : vp.votes.lookup v.authorIdx with
  | none =>
    exact (getElem?_append_left hlt).trans hw
  | some r =>
    rw [getElem?_append_left (by rwa [length_modify]), getElem?_modify]
    rw [show vp.store[ref]? = some w from hw]
    by_cases hr : r = ref
    · simp [hr]
    · simp [hr]

lemma vote_addVoteIfNeed_length : (vp.addVoteIfNeed v).vote vp.store.length = some v := by
  unfold addVoteIfNeed vote
  cases vp.votes.lookup v.authorIdx with
  | none => simp
  | some r =>
    simp

lemma Holds.author_eq (hfirst : vp.Holds vp.votes fun _ => True) {author : ℕ}
    (hr : vp.votes.lookup author = some ref) (hw : vp.vote ref = some w) :
    w.authorIdx = author := by
  obtain ⟨w', hw', hauthor, -⟩ := hfirst _ _ hr
  rw [mem_unique hw hw']
  exact hauthor

lemma Holds.addVoteIfNeed (h : vp.Holds m Q) (hfirst : vp.Holds vp.votes fun _ => True)
    (hmerge : ∀ w, vp.lastVote v.authorIdx = some w → w.authorIdx = v.authorIdx → Q w →
      m.lookup v.authorIdx = vp.votes.lookup v.authorIdx → Q (mergeVote w v)) :
    (vp.addVoteIfNeed v).Holds m Q := by
  intro author ref href
  obtain ⟨w, hw, hauthor, hQ⟩ := h author ref href
  refine ⟨_, vote_addVoteIfNeed hw, ?_⟩
  split_ifs with hr
  · have hsame : w.authorIdx = v.authorIdx := hfirst.author_eq hr hw
    have hlast : vp.lastVote v.authorIdx = some w := by
      rw [lastVote, hr]
      exact hw
    refine ⟨hauthor, hmerge w hlast hsame hQ ?_⟩
    rw [hr, ← hsame, hauthor]
    exact href
  · exact ⟨hauthor, hQ⟩

lemma Holds.insert (h : vp.Holds m Q) (hfirst : vp.Holds vp.votes fun _ => True) (hv : Q v) :
    (vp.addVoteIfNeed v).Holds (m.insert v.authorIdx vp.store.length) Q := by
  intro author ref href
  rw [GoMap.lookup_insert_ite] at href
  split_ifs at href with hauthor
  · cases href
    exact ⟨v, vote_addVoteIfNeed_length, hauthor.symm, hv⟩
  obtain ⟨w, hw, hw', hQ⟩ := h author ref href
  refine ⟨_, vote_addVoteIfNeed hw, ?_⟩
  rw [if_neg fun hr => hauthor (hw'.symm.trans (hfirst.author_eq hr hw))]
  exact ⟨hw', hQ⟩

section
variable (h : vp.insertVoteData v min = .ok vp')
include h

lemma insertVoteData_newView :
    vp.checkDuplicationVote v = .ok () ∧ vp'.store = (vp.addVoteIfNeed v).store ∧
      vp'.votes = (vp.addVoteIfNeed v).votes ∧
      if v.newView then
        let voted := vp.votedNewView.insert v.authorIdx vp.store.length
        vp'.votedNewView = voted ∧
          vp'.lockedNewView = (vp.lockedNewView || decide (min ≤ voted.keys.length))
      else vp'.votedNewView = vp.votedNewView ∧ vp'.lockedNewView = vp.lockedNewView := by
  have hadd : (vp.addVoteIfNeed v).votedNewView = vp.votedNewView ∧
      (vp.addVoteIfNeed v).lockedNewView = vp.lockedNewView := by
    unfold addVoteIfNeed
    split <;> exact ⟨rfl, rfl⟩
  obtain ⟨u, hdup, h⟩ := bind_ok.mp h
  refine ⟨hdup, ?_⟩
  dsimp only at h
  split_ifs at h with hnil hview hview <;> obtain rfl := Except.ok.inj h
  all_goals simp [hview, addNewView, addBlockVote, hadd]

lemma blockVotes_insertVoteData (id : Bytes) : vp'.blockVotes id = if id = bytes v.blockId ∧ id ≠ []
      then (vp.blockVotes id).insert v.authorIdx vp.store.length else vp.blockVotes id := by
  obtain ⟨base, hvoted, -, ⟨hnil, rfl⟩ | ⟨hne, rfl⟩⟩ := insertVoteData_ok h
  · rw [if_neg fun hid => hid.2 (hid.1.trans hnil), blockVotes, hvoted]
    rfl
  have hsame : ∀ id, base.blockVotes id = vp.blockVotes id := fun id => by
    rw [blockVotes, hvoted]
    rfl
  rw [blockVotes_addBlockVote]
  by_cases hid : id = bytes v.blockId
  · rw [if_pos hid, if_pos ⟨hid, hid ▸ hne⟩, hsame, hid]
  · rw [if_neg hid, if_neg fun h => hid h.1, hsame]

lemma lockedBlockId_insertVoteData :
    vp'.lockedBlockId = if vp.lockedBlockId = none ∧ bytes v.blockId ≠ [] ∧
        min ≤ (vp'.blockVotes (bytes v.blockId)).keys.length then some (bytes v.blockId)
      else vp.lockedBlockId := by
  obtain ⟨base, -, hlocked, ⟨hnil, rfl⟩ | ⟨hne, rfl⟩⟩ := insertVoteData_ok h
  · rw [if_neg fun h => h.2.1 hnil, hlocked]
  rw [blockVotes_addBlockVote, if_pos rfl, ← hlocked]
  unfold addBlockVote
  simp [hne]

end

lemma blockId_of_checkDuplicationVote {last : VoteData} (h : vp.checkDuplicationVote v = .ok ())
    (hlast : vp.lastVote v.authorIdx = some last) (hne : bytes last.blockId ≠ [])
    (hdiff : bytes v.blockId ≠ bytes last.blockId) : bytes v.blockId = [] := by
  unfold checkDuplicationVote at h
  rw [hlast] at h
  dsimp only at h
  by_contra hv
  have hsome : ∀ b : Option Bytes, bytes b ≠ [] → b ≠ none := fun b hb hnone => hb (hnone ▸ rfl)
  rw [if_pos ⟨hsome _ hne, hsome _ hv, hdiff.symm⟩] at h
  cases h

lemma votes_addVoteIfNeed (h : vp.Holds vp.votes fun _ => True) :
    (vp.addVoteIfNeed v).Holds (vp.addVoteIfNeed v).votes fun _ => True := by
  cases hfirst : vp.votes.lookup v.authorIdx with
  | none =>
    have hvotes : (vp.addVoteIfNeed v).votes = vp.votes.insert v.authorIdx vp.store.length := by
      rw [addVoteIfNeed, hfirst]
    rw [hvotes]
    exact h.insert h trivial
  | some r =>
    have hvotes : (vp.addVoteIfNeed v).votes = vp.votes := by rw [addVoteIfNeed, hfirst]
    rw [hvotes]
    exact h.addVoteIfNeed h fun _ _ _ _ _ => trivial

lemma mergeVote_eq_self (hview : v.newView = true → w.newView = true)
    (hblock : bytes v.blockId ≠ [] → bytes w.blockId ≠ []) : mergeVote w v = w := by
  have hor : (w.newView || v.newView) = w.newView := by
    cases hv : v.newView with
    | false => exact Bool.or_false _
    | true => rw [hview hv]; rfl
  unfold mergeVote
  rw [hor, if_neg fun h => hblock h.1 h.2]

lemma Holds.kept (h : vp.Holds m Q) (hfirst : vp.Holds vp.votes fun _ => True)
    (hsame : ∀ w, vp.lastVote v.authorIdx = some w → Q w → (v.newView = true → w.newView = true) ∧
      (bytes v.blockId ≠ [] → bytes w.blockId ≠ [])) : (vp.addVoteIfNeed v).Holds m Q := by
  refine h.addVoteIfNeed hfirst fun w hlast _ hQ _ => ?_
  rw [mergeVote_eq_self (hsame w hlast hQ).1 (hsame w hlast hQ).2]
  exact hQ

lemma Holds.congr (h : vp.Holds m Q) (hstore : vp'.store = vp.store) : vp'.Holds m Q := by
  intro author ref href
  unfold vote
  rw [hstore]
  exact h author ref href

lemma Intact.insertVoteData (h : Intact R min vp) (hv : R v) (hkeep : vp.Keeps v)
    (hvp : vp.insertVoteData v min = .ok vp') : Intact R min vp' := by
  obtain ⟨hdup, hstore, hvotes, hviews⟩ := insertVoteData_newView hvp
  refine ⟨?_, ?_, fun id => ?_, fun hlock => ?_, fun id hid => ?_⟩
  · rw [hvotes]
    exact (votes_addVoteIfNeed h.first).congr hstore
  · -- A timeout takes the place of the author's entry; another vote leaves it and must not touch
    -- it.
    split_ifs at hviews with hview
    · rw [hviews.1]
      exact (h.newViews.insert h.first ⟨hv, hview⟩).congr hstore
    rw [hviews.1]
    refine (h.newViews.kept h.first fun w hlast hQ => ⟨fun _ => hQ.2, fun hne hnil => ?_⟩).congr
      hstore
    have hplain := (hkeep w hlast).1 (Bool.eq_false_iff.mpr hview) hne hnil
    exact Bool.false_ne_true (hplain.symm.trans hQ.2)
  · rw [blockVotes_insertVoteData hvp]
    split_ifs with hid
    · exact ((h.blocks id).insert h.first ⟨hv, hid.1.symm, hid.2⟩).congr hstore
    refine ((h.blocks id).kept h.first fun w hlast hQ => ?_).congr hstore
    obtain ⟨-, hw, hne⟩ := hQ
    have hwne : bytes w.blockId ≠ [] := hw.symm ▸ hne
    have hnil : bytes v.blockId = [] := blockId_of_checkDuplicationVote hdup hlast hwne
      fun heq => hid ⟨hw.symm.trans heq.symm, hne⟩
    exact ⟨fun hview => (hkeep w hlast).2 hview hnil hwne, fun hv => absurd hnil hv⟩
  · split_ifs at hviews with hview
    · rw [hviews.1]
      rw [hviews.2, Bool.or_eq_true, decide_eq_true_eq] at hlock
      exact hlock.elim
        (fun hold => (h.lockedNewView hold).trans (length_keys_insert_ge _ _ _)) fun hnew => hnew
    · rw [hviews.1]
      exact h.lockedNewView (hviews.2 ▸ hlock)
  · refine ⟨locked_insertVoteData hvp (fun id hid => (h.lockedBlock id hid).1) hid, ?_⟩
    rw [lockedBlockId_insertVoteData hvp] at hid
    split_ifs at hid with hnew
    · exact some.inj hid ▸ hnew.2.1
    · exact (h.lockedBlock id hid).2

lemma intact_newVotePool : Intact R min newVotePool :=
  ⟨nofun, nofun, fun _ => nofun, nofun, nofun⟩

lemma Holds.sortedVotes (h : vp.Holds m Q) :
    (vp.sortedVotes m).map (·.authorIdx) = m.keys.insertionSort (· ≤ ·) ∧
      ∀ w ∈ vp.sortedVotes m, Q w := by
  have hsome : ∀ author ∈ m.keys, ∃ w, (m.lookup author).bind vp.vote = some w ∧
      w.authorIdx = author ∧ Q w := by
    intro author hmem
    obtain ⟨ref, href⟩ := isSome_iff_exists.mp (AList.lookup_isSome.mpr hmem)
    rw [href]
    exact h author ref href
  unfold VotePool.sortedVotes
  constructor
  · rw [map_filterMap]
    refine (filterMap_congr fun author hmem => ?_).trans filterMap_some
    obtain ⟨w, hw, hauthor, -⟩ := hsome author ((mem_insertionSort _).mp hmem)
    rw [hw, map_some, hauthor]
  · intro w hw
    obtain ⟨author, hmem, hw⟩ := mem_filterMap.mp hw
    obtain ⟨w', hw', -, hQ⟩ := hsome author ((mem_insertionSort _).mp hmem)
    rw [mem_unique hw hw']
    exact hQ

lemma Holds.nodup (h : vp.Holds m Q) : ((vp.sortedVotes m).map (·.authorIdx)).Nodup := by
  rw [h.sortedVotes.1]
  exact (perm_insertionSort _ _).nodup_iff.mpr (AList.keys_nodup m)

lemma Holds.length (h : vp.Holds m Q) : (vp.sortedVotes m).length = m.keys.length := by
  rw [← length_map (·.authorIdx), h.sortedVotes.1, length_insertionSort]

end VotePool

namespace Env
variable {env : Env} {qc : QuorumCert}

lemma foldlM_countVote_all {votes : List VoteData} (count : VoteCount)
    (hvotes : ∀ w ∈ votes, env.validateVoteData w = true ∧ w.height = qc.height ∧
      w.level = qc.level) (hnodup : (votes.map (·.authorIdx)).Nodup)
    (hnew : ∀ w ∈ votes, w.authorIdx ∉ count.voteIdxes) :
    ∃ count', votes.foldlM (env.countVote qc) count = some count' ∧
      ((∀ w ∈ votes, w.newView = true) → count'.newViewNum = count.newViewNum + votes.length) ∧
      ((∀ w ∈ votes, bytes w.blockId = bytes qc.blockId ∧ bytes qc.blockId ≠ []) →
        count'.votedBlockNum = count.votedBlockNum + votes.length) := by
  induction votes generalizing count with
  | nil => exact ⟨count, rfl, fun _ => rfl, fun _ => rfl⟩
  | cons v votes ih =>
    obtain ⟨⟨hvalid, hheight, hlevel⟩, hrest⟩ := forall_mem_cons.mp hvotes
    obtain ⟨hfresh, hrestNew⟩ := forall_mem_cons.mp hnew
    obtain ⟨hnotin, hnodup⟩ := nodup_cons.mp hnodup
    obtain ⟨next, hcount, hidxes, hview, hblock⟩ : ∃ next, env.countVote qc count v = some next ∧
        next.voteIdxes = v.authorIdx :: count.voteIdxes ∧
        (v.newView = true → next.newViewNum = count.newViewNum + 1) ∧
        (bytes v.blockId ≠ [] ∧ bytes v.blockId = bytes qc.blockId →
          next.votedBlockNum = count.votedBlockNum + 1) :=
      ⟨_, if_neg (by simp [hvalid, hheight, hlevel, hfresh]), rfl,
        fun h => if_pos h, fun h => if_pos h⟩
    have hnext : ∀ w ∈ votes, w.authorIdx ∉ next.voteIdxes := by
      intro w hw hmem
      rw [hidxes] at hmem
      rcases mem_cons.mp hmem with heq | hold
      · exact hnotin (mem_map.mpr ⟨w, hw, heq⟩)
      · exact hrestNew w hw hold
    obtain ⟨count', hfold, hviews, hblocks⟩ := ih next hrest hnodup hnext
    rw [foldlM_cons, hcount]
    refine ⟨count', hfold, fun hall => ?_, fun hall => ?_⟩
    · obtain ⟨hv, hall⟩ := forall_mem_cons.mp hall
      rw [hviews hall, hview hv, length_cons]
      omega
    · obtain ⟨hv, hall⟩ := forall_mem_cons.mp hall
      rw [hblocks hall, hblock ⟨hv.1 ▸ hv.2, hv.1⟩, length_cons]
      omega

lemma verifyJustifyQC_of_votes {epochId : ℕ} (hepoch : qc.epochId = epochId)
    (hvotes : ∀ w ∈ qc.votes, env.validateVoteData w = true ∧ w.height = qc.height ∧
      w.level = qc.level)
    (hnodup : (qc.votes.map (·.authorIdx)).Nodup) (hmin : env.min qc.height ≤ qc.votes.length)
    (hkind : qc.newView = true ∧ qc.blockId = none ∧ (∀ w ∈ qc.votes, w.newView = true) ∨
      qc.newView = false ∧ bytes qc.blockId ≠ [] ∧
        ∀ w ∈ qc.votes, bytes w.blockId = bytes qc.blockId) :
    env.verifyJustifyQC epochId qc = true := by
  obtain ⟨count, hcount, hviews, hblocks⟩ := foldlM_countVote_all ⟨0, 0, []⟩ hvotes hnodup
    (by simp)
  have henough : env.enoughVotes qc count = true := by
    rcases hkind with ⟨hview, -, hall⟩ | ⟨hview, hne, hall⟩
    · simp [enoughVotes, hview, hviews hall, hmin]
    · simp [enoughVotes, hview, hblocks fun w hw => ⟨hall w hw, hne⟩, hmin]
  have hform : qc.newView = qc.blockId.isNone := by
    rcases hkind with ⟨hview, hnone, -⟩ | ⟨hview, hne, -⟩
    · rw [hview, hnone]
      rfl
    · cases hid : qc.blockId with
      | none => exact absurd (congrArg bytes hid) hne
      | some id => rw [hview]; rfl
  have hcounted : env.countNumFromVotes qc = some count := hcount
  simp [verifyJustifyQC, hform, hepoch, hcounted, henough]

end Env

namespace MsgPool
variable {mp mp' : MsgPool} {R : VoteData → Prop}

def collect (mp : MsgPool) (e : ConsensusMsg × VoteData) : Option MsgPool :=
  let v := receivedVote e.1 e.2
  some ((mp.insertVote v.height v.level v).toOption.getD mp)

def Keeps (mp : MsgPool) (e : ConsensusMsg × VoteData) : Prop :=
  let v := receivedVote e.1 e.2
  (mp.votePool v.height v.level).Keeps v

instance (mp : MsgPool) (e : ConsensusMsg × VoteData) : Decidable (mp.Keeps e) :=
  inferInstanceAs (Decidable (VotePool.Keeps _ _))

structure Intact (R : VoteData → Prop) (min : ℕ) (mp : MsgPool) : Prop where
  min_eq : mp.minVotesForQc = min
  pools : ∀ height level, VotePool.Intact (fun w => R w ∧ w.height = height ∧ w.level = level) min
    (mp.votePool height level)

lemma Intact.collect {min : ℕ} (h : mp.Intact R min) {e : ConsensusMsg × VoteData}
    (hR : R (receivedVote e.1 e.2)) (hkeep : mp.Keeps e)
    (hmp : mp.collect e = some mp') : mp'.Intact R min := by
  cases hmp
  unfold Keeps at hkeep
  generalize receivedVote e.1 e.2 = v at hR hkeep ⊢
  cases hins : mp.insertVote v.height v.level v with
  | error err => exact h
  | ok mp₁ =>
    obtain ⟨hmin, vp, hvp, hpools⟩ := insertVote_ok hins
    refine ⟨hmin.trans h.min_eq, fun height level => ?_⟩
    change VotePool.Intact _ _ (mp₁.votePool height level)
    rcases hpools height level with hsame | ⟨rfl, rfl, hnew⟩
    · rw [hsame]
      exact h.pools height level
    · rw [hnew]
      exact (h.pools _ _).insertVoteData ⟨hR, rfl, rfl⟩ hkeep (h.min_eq ▸ hvp)

lemma Intact.done {min : ℕ} (h : mp.Intact R min) {height level : ℕ} {blockId : Option Bytes}
    {newView : Bool} (hdone : mp.checkVotesDone height level = some (blockId, newView)) :
    ((mp.getQCVotes height level).map (·.authorIdx)).Nodup ∧
      min ≤ (mp.getQCVotes height level).length ∧
      (∀ w ∈ mp.getQCVotes height level, R w ∧ w.height = height ∧ w.level = level) ∧
      (newView = true ∧ blockId = none ∧ (∀ w ∈ mp.getQCVotes height level, w.newView = true) ∨
        newView = false ∧ bytes blockId ≠ [] ∧
          ∀ w ∈ mp.getQCVotes height level, bytes w.blockId = bytes blockId) := by
  have hpool := h.pools height level
  unfold checkVotesDone VotePool.checkVoteDone at hdone
  unfold getQCVotes VotePool.getQCVotes
  split at hdone
  · rename_i id hlocked
    cases hdone
    obtain ⟨hlength, hne⟩ := hpool.lockedBlock id hlocked
    have hblocks := hpool.blocks id
    simp only [ne_eq, hne, not_false_eq_true, if_true]
    refine ⟨hblocks.nodup, hblocks.length ▸ hlength, fun w hw => (hblocks.sortedVotes.2 w hw).1,
      .inr ⟨trivial, hne, fun w hw => (hblocks.sortedVotes.2 w hw).2.1⟩⟩
  · split_ifs at hdone with hview
    cases hdone
    have hviews := hpool.newViews
    simp only [hview, if_true]
    exact ⟨hviews.nodup, hviews.length ▸ hpool.lockedNewView hview,
      fun w hw => (hviews.sortedVotes.2 w hw).1,
      .inl ⟨trivial, trivial, fun w hw => (hviews.sortedVotes.2 w hw).2⟩⟩

end MsgPool

/-- What is asked of a certificate that a node aggregates: its votes are votes that were received,
and every node with this committee accepts it. -/
def Env.Aggregates (env : Env) (received : List (ConsensusMsg × VoteData)) (epochId : ℕ)
    (qc : QuorumCert) : Prop :=
  (∀ w ∈ qc.votes, ∃ e ∈ received, w = receivedVote e.1 e.2) ∧
    ∀ env' : Env, env'.governance = env.governance → env'.ac = env.ac →
      env'.verifyJustifyQC epochId qc = true

theorem aggregateQC_verifies (env : Env) (n : ConsensusChainedBftImpl)
    (es : List (ConsensusMsg × VoteData)) (mp : MsgPool)
    (hvalid : ∀ e ∈ es, validateVoteMsg env e.1 e.2 = true)
    (hkeeps : Runs.Meets MsgPool.collect MsgPool.Keeps
      (newMsgPool env.governance.cachedLen env.governance.minQuorumForQc) es)
    (hrun : Runs.run MsgPool.collect
      (newMsgPool env.governance.cachedLen env.governance.minQuorumForQc) es = some mp)
    (height level : ℕ) (blockId : Option Bytes) (newView : Bool)
    (hmin : env.min height ≤ env.governance.minQuorumForQc)
    (hdone : mp.checkVotesDone height level = some (blockId, newView)) :
    env.Aggregates es n.paceMaker.epochId
      ({ n with msgPool := mp }.aggregateQC height level blockId newView) := by
  have hintact : mp.Intact (fun w => env.validateVoteData w = true ∧
      ∃ e ∈ es, w = receivedVote e.1 e.2)
      env.governance.minQuorumForQc := by
    refine Runs.run_induction (fun mp e mp' h hP hstep => h.collect ?_ hP.1 hstep)
      ⟨rfl, fun _ _ => VotePool.intact_newVotePool⟩ (hkeeps.and_mem (Q := fun e => e ∈ es)
        fun e he => he) hrun
    exact ⟨(Bool.and_eq_true_iff.mp (hvalid e hP.2)).2, e, hP.2, rfl⟩
  obtain ⟨hnodup, hlength, hvotes, hkind⟩ := hintact.done hdone
  refine ⟨fun w hw => (hvotes w hw).1.2, fun env' hgov hac => ?_⟩
  refine Env.verifyJustifyQC_of_votes rfl (fun w hw => ?_) hnodup ?_ hkind
  · obtain ⟨⟨hw, -⟩, hheight, hlevel⟩ := hvotes w hw
    refine ⟨?_, hheight, hlevel⟩
    unfold Env.validateVoteData Env.getPeerByIndex Env.committee Env.voteAc at hw ⊢
    rw [hgov, hac]
    exact hw
  · refine le_trans ?_ (hmin.trans hlength)
    unfold Env.min
    rw [hgov]
    exact le_rfl

def shapedEnv : Env where
  governance := fourContract
  ac :=
    { orgNum := 1
      verifySigner := fun _ data signature => match data with
        | .vote v => signature = (if v.newView then 1 else 0) :: bytes v.blockId
        | .payload _ => true
      role := fun _ => some .consensusNode }
  member := ⟨[], [0]⟩
  sign := fun _ => []

def shaped (author : UInt8) (newView : Bool) (blockId : Option Bytes) : ConsensusMsg × VoteData :=
  let v : VoteData := ⟨blockId, 7, 9, some [author], author.toNat, newView, 5,
    some ⟨none, (if newView then 1 else 0) :: bytes blockId⟩⟩
  (⟨.voteMsg v ⟨QuorumCert.zero, none⟩, some ⟨some ⟨[], [author]⟩, []⟩⟩, v)

def collector (mp : MsgPool) : ConsensusChainedBftImpl :=
  { newConsensus shapedEnv [0] ⟨⟨0, [0], [], .missing⟩, [], none⟩ with msgPool := mp }

def collected (es : List (ConsensusMsg × VoteData)) : Option MsgPool :=
  Runs.run MsgPool.collect (newMsgPool 0 3) es

def retriedVotes : List (ConsensusMsg × VoteData) :=
  [shaped 0 false (some [8]), shaped 1 false (some [8]), shaped 0 true (some [8]),
    shaped 2 false (some [8])]

theorem aggregateQC_verifies_retried :
    ∃ mp, collected retriedVotes = some mp ∧
      mp.checkVotesDone 7 9 = some (some [8], false) ∧
      shapedEnv.Aggregates retriedVotes 5 ((collector mp).aggregateQC 7 9 (some [8]) false) :=
  ⟨_, eq_some_of_isSome (by decide +kernel), by decide +kernel,
    aggregateQC_verifies shapedEnv (collector _) retriedVotes _ (by decide +kernel)
      (by decide +kernel) (eq_some_of_isSome _) 7 9 (some [8]) false
    (by decide +kernel) (by decide +kernel)⟩

def twoFaced : List (List (ConsensusMsg × VoteData)) :=
  [[shaped 3 true none, shaped 3 false (some [8]), shaped 0 true none, shaped 1 true none],
    [shaped 3 false (some [8]), shaped 3 true none, shaped 0 false (some [8]),
      shaped 1 false (some [8])]]

/-- The votes are valid; the certificate made of them has a vote that nobody signed, and its own
maker does not accept it. -/
def Spoiled (es : List (ConsensusMsg × VoteData)) : Prop :=
  (∀ e ∈ es, validateVoteMsg shapedEnv e.1 e.2 = true) ∧
    ∃ mp blockId newView, collected es = some mp ∧
      mp.checkVotesDone 7 9 = some (blockId, newView) ∧
      ¬shapedEnv.Aggregates es 5 ((collector mp).aggregateQC 7 9 blockId newView) ∧
      (∃ w ∈ ((collector mp).aggregateQC 7 9 blockId newView).votes,
        ∀ e ∈ es, w ≠ receivedVote e.1 e.2) ∧
      shapedEnv.verifyJustifyQC 5 ((collector mp).aggregateQC 7 9 blockId newView) = false

theorem aggregateQC_spoiled : twoFaced.Forall Spoiled := by
  refine forall_iff_forall_mem.mpr fun es hes => ⟨?_, ?_⟩
  · revert es
    decide +kernel
  have hspoiled : ∀ es ∈ twoFaced, (collected es).any fun mp =>
      (mp.checkVotesDone 7 9).any fun r =>
        (((collector mp).aggregateQC 7 9 r.1 r.2).votes.any fun w =>
          es.all fun e => w ≠ receivedVote e.1 e.2) &&
        !shapedEnv.verifyJustifyQC 5 ((collector mp).aggregateQC 7 9 r.1 r.2) := by
    decide +kernel
  obtain ⟨mp, hrun, hmp⟩ := (Option.any_eq_true _ _).mp (hspoiled es hes)
  obtain ⟨⟨blockId, newView⟩, hdone, h⟩ := (Option.any_eq_true _ _).mp hmp
  simp only [Bool.and_eq_true, List.any_eq_true, List.all_eq_true, decide_eq_true_eq,
    Bool.not_eq_true'] at h
  obtain ⟨⟨w, hw, hother⟩, hreject⟩ := h
  refine ⟨mp, blockId, newView, hrun, hdone, fun hagg => ?_, ⟨w, hw, hother⟩, hreject⟩
  obtain ⟨e, he, heq⟩ := hagg.1 w hw
  exact hother e he heq
end ChainMaker.ChainedBft
