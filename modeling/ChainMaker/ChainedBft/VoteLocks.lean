import ChainMaker.ChainedBft.Aggregation

/-! What a vote pool says about the votes it was given: an author votes for one block only, the
locks are set at the threshold and stay, and a locked pool has the votes of a certificate. -/

namespace ChainMaker.ChainedBft
open List Option
namespace VotePool

def takeVote (min : ℕ) (s : VotePool × List VoteData) (v : VoteData) : VotePool × List VoteData :=
  match s.1.insertVoteData v min with
  | .ok vp => (vp, v :: s.2)
  | .error _ => s

def takeVotes (min : ℕ) (votes : List VoteData) : VotePool × List VoteData :=
  votes.foldl (takeVote min) (newVotePool, [])

def viewAuthors (votes : List VoteData) : Finset ℕ :=
  ((votes.filter (·.newView)).map (·.authorIdx)).toFinset

variable {vp vp' : VotePool} {v w : VoteData} {min : ℕ} {taken : List VoteData}
  {s : VotePool × List VoteData} {a : ℕ} {id : Bytes}

lemma lastVote_addVoteIfNeed_new (hfirst : vp.Holds vp.votes fun _ => True)
    (hnone : vp.lastVote v.authorIdx = none) :
    (vp.addVoteIfNeed v).lastVote v.authorIdx = some v := by
  have hlookup : vp.votes.lookup v.authorIdx = none := by
    rw [eq_none_iff_forall_ne_some]
    intro ref href
    obtain ⟨w, hw, -⟩ := hfirst _ _ href
    rw [lastVote, href, bind_some, hw] at hnone
    cases hnone
  have hvotes : (vp.addVoteIfNeed v).votes = vp.votes.insert v.authorIdx vp.store.length := by
    rw [addVoteIfNeed, hlookup]
  rw [lastVote, hvotes, AList.lookup_insert]
  exact vote_addVoteIfNeed_length

lemma lastVote_addVoteIfNeed (hfirst : vp.Holds vp.votes fun _ => True)
    (hlast : vp.lastVote a = some w) :
    (vp.addVoteIfNeed v).lastVote a = some (if a = v.authorIdx then mergeVote w v else w) := by
  obtain ⟨ref, href, hw⟩ := bind_eq_some_iff.mp hlast
  have hkept : (vp.addVoteIfNeed v).votes.lookup a = some ref := by
    unfold addVoteIfNeed
    split
    case h_2 => exact href
    case h_1 hnone =>
    rw [← href]
    refine AList.lookup_insert_ne fun ha => ?_
    rw [← ha, href] at hnone
    cases hnone
  rw [lastVote, hkept, bind_some, vote_addVoteIfNeed hw]
  by_cases ha : a = v.authorIdx
  · rw [if_pos ha, if_pos (ha ▸ href)]
  rw [if_neg ha, if_neg fun hr => ha ?_]
  exact (hfirst.author_eq href hw).symm.trans (hfirst.author_eq hr hw)

structure Locks (min : ℕ) (taken : List VoteData) (vp : VotePool) : Prop where
  first : vp.Holds vp.votes fun _ => True
  newViews : vp.Holds vp.votedNewView fun _ => True
  blocks : ∀ id, vp.Holds (vp.blockVotes id) fun _ => True
  bucket : ∀ id, ∀ a ∈ (vp.blockVotes id).keys,
    id ≠ [] ∧ ∃ last, vp.lastVote a = some last ∧ bytes last.blockId = id
  locked : ∀ id, vp.lockedBlockId = some id → id ≠ [] ∧ min ≤ (vp.blockVotes id).keys.length
  unlocked : vp.lockedBlockId = none → ∀ id, (vp.blockVotes id).keys.length < min
  lockedNewView : vp.lockedNewView = true ↔ min ≤ vp.votedNewView.keys.length
  views : ∀ a, a ∈ vp.votedNewView.keys ↔ ∃ v ∈ taken, v.newView = true ∧ v.authorIdx = a

lemma blockId_mergeVote {last : VoteData} (hcheck : vp.checkDuplicationVote v = .ok ())
    (hlast : vp.lastVote v.authorIdx = some last) (hne : bytes v.blockId ≠ []) :
    bytes (mergeVote last v).blockId = bytes v.blockId := by
  by_cases hold : bytes last.blockId = []
  · simp [mergeVote, hne, hold]
  have hagree : bytes v.blockId = bytes last.blockId := by
    by_contra hdiff
    exact hne (blockId_of_checkDuplicationVote hcheck hlast hold hdiff)
  simp [mergeVote, hold, hagree]

namespace Locks

lemma new (hmin : 1 ≤ min) : Locks min [] newVotePool where
  first := nofun
  newViews := nofun
  blocks := fun _ => nofun
  bucket := fun _ => nofun
  locked := nofun
  unlocked := fun _ _ => hmin
  lockedNewView := iff_of_false nofun (Nat.not_le.mpr hmin)
  views := fun _ => iff_of_false nofun nofun

lemma bucket_insertVoteData (h : Locks min taken vp) (hvp : vp.insertVoteData v min = .ok vp')
    (hcheck : vp.checkDuplicationVote v = .ok ()) (ha : a ∈ (vp'.blockVotes id).keys) :
    id ≠ [] ∧ ∃ last, (vp.addVoteIfNeed v).lastVote a = some last ∧ bytes last.blockId = id := by
  have hold : a ∈ (vp.blockVotes id).keys → id ≠ [] ∧
      ∃ last, (vp.addVoteIfNeed v).lastVote a = some last ∧ bytes last.blockId = id := by
    intro ha
    obtain ⟨hne, last, hlast, rfl⟩ := h.bucket id a ha
    refine ⟨hne, _, lastVote_addVoteIfNeed h.first hlast, ?_⟩
    split_ifs
    · simp [mergeVote, hne]
    · rfl
  rw [blockVotes_insertVoteData hvp] at ha
  split_ifs at ha with hid
  · rcases (AList.mem_insert _).mp ha with rfl | ha
    · obtain ⟨rfl, hne⟩ := hid
      refine ⟨hne, ?_⟩
      cases hlast : vp.lastVote v.authorIdx with
      | none => exact ⟨v, lastVote_addVoteIfNeed_new h.first hlast, rfl⟩
      | some last =>
        refine ⟨_, lastVote_addVoteIfNeed h.first hlast, ?_⟩
        rw [if_pos rfl]
        exact blockId_mergeVote hcheck hlast hne
    · exact hold ha
  · exact hold ha

lemma insertVoteData (h : Locks min taken vp) (hvp : vp.insertVoteData v min = .ok vp') :
    Locks min (v :: taken) vp' := by
  obtain ⟨hcheck, hstore, hvotes, hviews⟩ := insertVoteData_newView hvp
  have hlast : ∀ a, vp'.lastVote a = (vp.addVoteIfNeed v).lastVote a := by
    intro a
    unfold lastVote vote
    rw [hvotes, hstore]
  have hkeys : ∀ a, a ∈ vp'.votedNewView.keys ↔
      v.newView = true ∧ v.authorIdx = a ∨ a ∈ vp.votedNewView.keys := by
    intro a
    split_ifs at hviews with hview
    · rw [hviews.1, ← AList.mem_keys, AList.mem_insert, eq_comm]
      simp [hview, AList.mem_keys]
    · rw [hviews.1]
      simp [hview]
  refine ⟨?_, ?_, fun id => ?_, fun id a ha => ?_, fun id hid => ?_, fun hnone id => ?_, ?_, ?_⟩
  · rw [hvotes]
    exact (votes_addVoteIfNeed h.first).congr hstore
  · split_ifs at hviews with hview
    · rw [hviews.1]
      exact (h.newViews.insert h.first trivial).congr hstore
    · rw [hviews.1]
      exact (h.newViews.addVoteIfNeed h.first fun _ _ _ _ _ => trivial).congr hstore
  · rw [blockVotes_insertVoteData hvp]
    split_ifs
    · exact ((h.blocks id).insert h.first trivial).congr hstore
    · exact ((h.blocks id).addVoteIfNeed h.first fun _ _ _ _ _ => trivial).congr hstore
  · rw [hlast]
    exact h.bucket_insertVoteData hvp hcheck ha
  · refine ⟨?_, locked_insertVoteData hvp (fun id hid => (h.locked id hid).2) hid⟩
    rw [lockedBlockId_insertVoteData hvp] at hid
    split_ifs at hid with hnew
    · exact some.inj hid ▸ hnew.2.1
    · exact (h.locked id hid).1
  · rw [lockedBlockId_insertVoteData hvp] at hnone
    split_ifs at hnone with hnew
    by_cases hid : id = bytes v.blockId ∧ id ≠ []
    · rw [← not_le, hid.1]
      exact fun hle => hnew ⟨hnone, hid.1 ▸ hid.2, hle⟩
    · rw [blockVotes_insertVoteData hvp, if_neg hid]
      exact h.unlocked hnone id
  · split_ifs at hviews with hview
    · rw [hviews.2, hviews.1, Bool.or_eq_true, decide_eq_true_eq, or_iff_right_of_imp]
      exact fun hold => (h.lockedNewView.mp hold).trans (length_keys_insert_ge _ _ _)
    · rw [hviews.2, hviews.1]
      exact h.lockedNewView
  · intro a
    rw [hkeys a, h.views a, exists_mem_cons_iff]

lemma takeVote (h : Locks min s.2 s.1) (v : VoteData) :
    Locks min (takeVote min s v).2 (takeVote min s v).1 := by
  unfold VotePool.takeVote
  split
  case h_1 vp hvp => exact h.insertVoteData hvp
  case h_2 => exact h

lemma takeVotes (hmin : 1 ≤ min) (votes : List VoteData) :
    Locks min (takeVotes min votes).2 (takeVotes min votes).1 :=
  foldlRecOn votes _ (motive := fun s : VotePool × List VoteData => Locks min s.2 s.1) (new hmin)
    fun _ hs v _ => hs.takeVote v

lemma mem_buckets_eq (h : Locks min taken vp) {id id' : Bytes}
    (ha : a ∈ (vp.blockVotes id).keys) (ha' : a ∈ (vp.blockVotes id').keys) : id = id' := by
  obtain ⟨-, last, hlast, rfl⟩ := h.bucket id a ha
  obtain ⟨-, last', hlast', rfl⟩ := h.bucket id' a ha'
  rw [mem_unique hlast hlast']

lemma length_votedNewView (h : Locks min taken vp) :
    vp.votedNewView.keys.length = (viewAuthors taken).card := by
  have hkeys : vp.votedNewView.keys.toFinset = viewAuthors taken := by
    ext a
    simp [viewAuthors, h.views a, and_assoc]
  rw [← hkeys, toFinset_card_of_nodup (AList.keys_nodup _)]

lemma getQCVotes (h : Locks min taken vp) (hdone : vp.checkVoteDone ≠ none) :
    min ≤ vp.getQCVotes.length ∧ (vp.getQCVotes.map (·.authorIdx)).Pairwise (· < ·) := by
  have hsorted : ∀ m, vp.Holds m (fun _ => True) → min ≤ m.keys.length →
      min ≤ (vp.sortedVotes m).length ∧
        ((vp.sortedVotes m).map (·.authorIdx)).Pairwise (· < ·) := by
    intro m hm hlength
    refine ⟨hm.length ▸ hlength, ?_⟩
    have hle : ((vp.sortedVotes m).map (·.authorIdx)).Pairwise (· ≤ ·) := by
      rw [hm.sortedVotes.1]
      exact pairwise_insertionSort _ _
    exact hle.imp₂ (fun _ _ hle hne => lt_of_le_of_ne hle hne) hm.nodup
  unfold checkVoteDone at hdone
  unfold VotePool.getQCVotes
  cases hlocked : vp.lockedBlockId with
  | some id =>
    obtain ⟨hne, hlength⟩ := h.locked id hlocked
    dsimp only
    rw [if_pos hne]
    exact hsorted _ (h.blocks id) hlength
  | none =>
    rw [hlocked] at hdone
    split_ifs at hdone ⊢ with hview
    · exact hsorted _ h.newViews (h.lockedNewView.mp hview)
    · exact absurd rfl hdone

end Locks

lemma lockedBlockId_takeVote (hid : s.1.lockedBlockId = some id) (v : VoteData) :
    (takeVote min s v).1.lockedBlockId = some id := by
  unfold takeVote
  split
  case h_1 vp hvp => rw [lockedBlockId_insertVoteData hvp, hid, if_neg fun h => nomatch h.1]
  case h_2 => exact hid

theorem locks_takeVotes (min : ℕ) (hmin : 1 ≤ min) (votes : List VoteData) :
    (∀ a id id', a ∈ ((takeVotes min votes).1.blockVotes id).keys →
        a ∈ ((takeVotes min votes).1.blockVotes id').keys → id = id') ∧
      ((takeVotes min votes).1.lockedBlockId ≠ none ↔
        ∃ id, min ≤ ((takeVotes min votes).1.blockVotes id).keys.length) ∧
      (∀ id, (takeVotes min votes).1.lockedBlockId = some id →
        min ≤ ((takeVotes min votes).1.blockVotes id).keys.length ∧
          ∀ more, (takeVotes min (votes ++ more)).1.lockedBlockId = some id) ∧
      ((takeVotes min votes).1.lockedNewView = true ↔
        min ≤ (viewAuthors (takeVotes min votes).2).card) ∧
      ((takeVotes min votes).1.checkVoteDone ≠ none →
        min ≤ (takeVotes min votes).1.getQCVotes.length ∧
          ((takeVotes min votes).1.getQCVotes.map (·.authorIdx)).Pairwise (· < ·)) := by
  have h := Locks.takeVotes hmin votes
  refine ⟨fun _ _ _ => h.mem_buckets_eq, ⟨fun hsome => ?_, ?_⟩, fun id hid => ⟨?_, fun more => ?_⟩,
    ?_, h.getQCVotes⟩
  · obtain ⟨id, hid⟩ := Option.ne_none_iff_exists'.mp hsome
    exact ⟨id, (h.locked id hid).2⟩
  · rintro ⟨id, hid⟩ hnone
    exact absurd (h.unlocked hnone id) (Nat.not_lt.mpr hid)
  · exact (h.locked id hid).2
  · rw [takeVotes, List.foldl_append]
    exact List.foldlRecOn more _
      (motive := fun s : VotePool × List VoteData => s.1.lockedBlockId = some id) hid
      fun _ hs v _ => lockedBlockId_takeVote hs v
  · rw [h.lockedNewView, h.length_votedNewView]

def voteOf (author : ℕ) (newView : Bool) (blockId : Option Bytes) : VoteData :=
  ⟨blockId, 7, 9, none, author, newView, 5, none⟩

def twoAgree : List VoteData := [voteOf 1 false (some [8]), voteOf 0 true (some [8])]

theorem locks_takeVotes_two : (takeVotes 2 twoAgree).1.lockedBlockId = some [8] ∧
    ∀ more, (takeVotes 2 (twoAgree ++ more)).1.lockedBlockId = some [8] := by
  have hlocked : (takeVotes 2 twoAgree).1.lockedBlockId = some [8] := by decide +kernel
  exact ⟨hlocked, ((locks_takeVotes 2 (by decide) _).2.2.1 _ hlocked).2⟩

/-- A new-view vote for another block than the author's first vote is refused and does not count,
so one author has sent a new-view vote and the threshold is one. -/
theorem newView_refused :
    (takeVotes 1 [voteOf 0 false (some [8]), voteOf 0 true (some [9])]).1.lockedNewView = false ∧
      1 ≤ (viewAuthors [voteOf 0 false (some [8]), voteOf 0 true (some [9])]).card := by
  decide +kernel

end VotePool
end ChainMaker.ChainedBft
