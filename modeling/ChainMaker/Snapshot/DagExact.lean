import ChainMaker.Lib.Reduction
import ChainMaker.Snapshot.Impl
import Mathlib.Data.List.GetD

/-! `BuildDAG` returns the transitive reduction of the conflict relation, oriented from a
transaction to the earlier ones. -/

namespace ChainMaker.Snapshot
open List Relation

structure KeyDict.WF (d : KeyDict) : Prop where
  lt : ∀ k i, d.keyDict.lookup k = some i → i < d.dictIndex
  inj : ∀ k k' i, d.keyDict.lookup k = some i → d.keyDict.lookup k' = some i → k = k'

def KeyDict.Le (d d' : KeyDict) : Prop :=
  ∀ k i, d.keyDict.lookup k = some i → d'.keyDict.lookup k = some i

structure KeyDict.Reps (d : KeyDict) (keys : List Bytes) (b : Bitmap) : Prop where
  known : ∀ k ∈ keys, ∃ i, d.keyDict.lookup k = some i
  mem : ∀ i, i ∈ b ↔ ∃ k ∈ keys, d.keyDict.lookup k = some i

lemma KeyDict.Le.trans {a b c : KeyDict} (h : a.Le b) (h' : b.Le c) : a.Le c :=
  fun k i hk => h' k i (h k i hk)

variable {d : KeyDict} {bitmaps : List (Bitmap × Bitmap)} {c : ℕ} {a b : Bitmap}

lemma KeyDict.Reps.mono {d' : KeyDict} {keys : List Bytes} (h : d.Reps keys b)
    (hle : d.Le d') : d'.Reps keys b := by
  refine ⟨fun k hk => (h.known k hk).imp fun i => hle k i, fun i => ?_⟩
  rw [h.mem]
  refine exists_congr fun k => and_congr_right fun hk => ⟨hle k i, fun hi => ?_⟩
  obtain ⟨i', hi'⟩ := h.known k hk
  obtain rfl : i' = i := Option.mem_unique (hle k i' hi') hi
  exact hi'

lemma KeyDict.index_spec (h : d.WF) (key : Bytes) : (d.index key).2.WF ∧ d.Le (d.index key).2 ∧
      (d.index key).2.keyDict.lookup key = some (d.index key).1 := by
  unfold KeyDict.index
  split
  · next i hi => exact ⟨h, fun _ _ => id, hi⟩
  next hnone =>
  refine ⟨⟨?_, ?_⟩, ?_, by simp⟩
  · intro k i hk
    simp only [lookup_cons] at hk
    split at hk
    · cases hk
      exact Nat.lt_succ_self _
    · exact (h.lt k i hk).trans (Nat.lt_succ_self _)
  · intro k k' i hk hk'
    simp only [lookup_cons] at hk hk'
    split at hk <;> split at hk'
    · simp_all
    · cases hk
      exact absurd (h.lt k' _ hk') (lt_irrefl _)
    · cases hk'
      exact absurd (h.lt k _ hk) (lt_irrefl _)
    · exact h.inj k k' i hk hk'
  · intro k i hk
    have hne : k ≠ key := by
      rintro rfl
      simp [hnone] at hk
    simpa [lookup_cons, beq_eq_false_iff_ne.mpr hne] using hk

lemma setKeys_spec (h : d.WF) (keys : List Bytes) :
    (setKeys d keys).2.WF ∧ d.Le (setKeys d keys).2 ∧
      (setKeys d keys).2.Reps keys (setKeys d keys).1 := by
  -- Read from the end: the last key extends the bitmap and the dictionary of the keys before it.
  induction keys using reverseRecOn with
  | nil => exact ⟨h, fun _ _ => id, by simp, by simp [setKeys]⟩
  | append_singleton keys key ih =>
    obtain ⟨hwf, hle, hreps⟩ := ih
    obtain ⟨hwf', hle', hkey⟩ := KeyDict.index_spec hwf key
    have hstep : setKeys d (keys ++ [key]) =
        (insert ((setKeys d keys).2.index key).1 (setKeys d keys).1,
          ((setKeys d keys).2.index key).2) := by
      simp [setKeys, foldl_append]
    have hreps' := hreps.mono hle'
    rw [hstep]
    refine ⟨hwf', hle.trans hle', forall_mem_concat hreps'.known ⟨_, hkey⟩, fun i => ?_⟩
    simp only [Finset.mem_insert, hreps'.mem, mem_append, mem_singleton, or_and_right,
      exists_or, exists_eq_left, hkey, Option.some.injEq]
    rw [or_comm, eq_comm]

lemma Bitmap.interExist_iff : a.interExist b ↔ ∃ i, i ∈ a ∧ i ∈ b := by
  rw [Bitmap.interExist, decide_eq_true_iff, Finset.Nonempty]
  simp

lemma KeyDict.Reps.interExist_iff (hwf : d.WF) {keys keys' : List Bytes}
    (ha : d.Reps keys a) (hb : d.Reps keys' b) : a.interExist b ↔ ∃ k ∈ keys, k ∈ keys' := by
  simp only [Bitmap.interExist_iff, ha.mem, hb.mem]
  constructor
  · rintro ⟨i, ⟨k, hk, hi⟩, k', hk', hi'⟩
    obtain rfl := hwf.inj k k' i hi hi'
    exact ⟨k, hk, hk'⟩
  · rintro ⟨k, hk, hk'⟩
    obtain ⟨i, hi⟩ := ha.known k hk
    exact ⟨i, ⟨k, hk, hi⟩, k, hk', hi⟩

lemma buildRWBitmaps_spec (h : d.WF) (rws : List TxRWSet) :
    ∃ D : KeyDict, D.WF ∧ d.Le D ∧
      Forall₂ (fun rw bm => D.Reps rw.readKeys bm.1 ∧ D.Reps rw.writeKeys bm.2) rws
      (buildRWBitmaps d rws) := by
  induction rws generalizing d with
  | nil => exact ⟨d, h, fun _ _ => id, .nil⟩
  | cons rw rws ih =>
    obtain ⟨hr, hler, hrepsr⟩ := setKeys_spec h rw.readKeys
    obtain ⟨hw, hlew, hrepsw⟩ := setKeys_spec hr rw.writeKeys
    obtain ⟨D, hD, hle, hall⟩ := ih hw
    exact ⟨D, hD, (hler.trans hlew).trans hle,
      .cons ⟨hrepsr.mono (hlew.trans hle), hrepsw.mono hle⟩ hall⟩

def Conflict (rw rw' : TxRWSet) : Prop :=
  (∃ k ∈ rw.readKeys, k ∈ rw'.writeKeys) ∨ (∃ k ∈ rw.writeKeys, k ∈ rw'.writeKeys) ∨
    ∃ k ∈ rw.writeKeys, k ∈ rw'.readKeys

def ConflictBefore (rws : List TxRWSet) (i j : ℕ) : Prop :=
  j < i ∧ ∃ rw rw', rws[i]? = some rw ∧ rws[j]? = some rw' ∧ Conflict rw rw'

lemma conflicted_iff {rws : List TxRWSet} {i j : ℕ} (hi : i < rws.length) (hji : j < i) :
    conflicted ((buildRWBitmaps {} rws).getD i (∅, ∅)) ((buildRWBitmaps {} rws).getD j (∅, ∅)) ↔
      ConflictBefore rws i j := by
  obtain ⟨D, hD, -, hall⟩ := buildRWBitmaps_spec (d := {}) ⟨by simp, by simp⟩ rws
  have hlen := hall.length_eq
  have hj : j < rws.length := hji.trans hi
  obtain ⟨hri, hwi⟩ := forall₂_iff_get.mp hall |>.2 i hi (hlen ▸ hi)
  obtain ⟨hrj, hwj⟩ := forall₂_iff_get.mp hall |>.2 j hj (hlen ▸ hj)
  rw [getD_eq_getElem _ _ (hlen ▸ hi), getD_eq_getElem _ _ (hlen ▸ hj)]
  simp only [get_eq_getElem] at hri hwi hrj hwj
  simp only [conflicted, Bool.or_eq_true, hri.interExist_iff hD hwj, hwi.interExist_iff hD hwj,
    hwi.interExist_iff hD hrj, or_assoc]
  constructor
  · exact fun h => ⟨hji, _, _, getElem?_eq_getElem hi, getElem?_eq_getElem hj, h⟩
  · rintro ⟨-, rw, rw', hrw, hrw', h⟩
    obtain rfl := Option.mem_unique (getElem?_eq_getElem hi) hrw
    obtain rfl := Option.mem_unique (getElem?_eq_getElem hj) hrw'
    exact h

section Cumulative

lemma mem_buildCumulativeBitmap (prev : Bitmap) {bs : List Bitmap} {i : ℕ}
    (hi : i < bs.length) (x : ℕ) : x ∈ (buildCumulativeBitmap prev bs).getD i ∅ ↔
      x ∈ prev ∨ ∃ j ≤ i, x ∈ bs.getD j ∅ := by
  induction bs generalizing prev i with
  | nil => simp at hi
  | cons b bs ih =>
    cases i with
    | zero => simp [buildCumulativeBitmap, or_comm]
    | succ i =>
      have hi' : i < bs.length := Nat.lt_of_succ_lt_succ hi
      simp only [buildCumulativeBitmap, getD_cons_succ, ih _ hi', Finset.mem_union]
      constructor
      · rintro ((hx | hx) | ⟨j, hj, hx⟩)
        · exact .inr ⟨0, Nat.zero_le _, hx⟩
        · exact .inl hx
        · exact .inr ⟨j + 1, Nat.succ_le_succ hj, hx⟩
      · rintro (hx | ⟨j, hj, hx⟩)
        · exact .inl (.inr hx)
        · cases j with
          | zero => exact .inl (.inl hx)
          | succ j => exact .inr ⟨j, Nat.le_of_succ_le_succ hj, hx⟩

lemma length_buildCumulativeBitmap (prev : Bitmap) (bs : List Bitmap) :
    (buildCumulativeBitmap prev bs).length = bs.length := by
  induction bs generalizing prev with
  | nil => rfl
  | cons b bs ih => simp [buildCumulativeBitmap, ih]

/-- What the transactions up to each one read and write, as `buildDAG` adds it up. -/
def cumulated (bitmaps : List (Bitmap × Bitmap)) : List (Bitmap × Bitmap) :=
  (buildCumulativeBitmap ∅ (bitmaps.map (·.1))).zip (buildCumulativeBitmap ∅ (bitmaps.map (·.2)))

lemma fastConflicted_iff {b : Bitmap × Bitmap} {i : ℕ} (hi : i < bitmaps.length) :
    fastConflicted b ((cumulated bitmaps).getD i (∅, ∅)) ↔
      ∃ j ≤ i, conflicted b (bitmaps.getD j (∅, ∅)) := by
  have hget : ∀ j, (bitmaps.map (·.1)).getD j ∅ = (bitmaps.getD j (∅, ∅)).1 ∧
      (bitmaps.map (·.2)).getD j ∅ = (bitmaps.getD j (∅, ∅)).2 :=
    fun _ => ⟨getD_map _ (∅, ∅) _, getD_map _ (∅, ∅) _⟩
  have hr := mem_buildCumulativeBitmap ∅ (hi.trans_eq (length_map (·.1)).symm)
  have hw := mem_buildCumulativeBitmap ∅ (hi.trans_eq (length_map (·.2)).symm)
  have hzip : (cumulated bitmaps).getD i (∅, ∅) =
      ((buildCumulativeBitmap ∅ (bitmaps.map (·.1))).getD i ∅,
        (buildCumulativeBitmap ∅ (bitmaps.map (·.2))).getD i ∅) := by
    have hlen : ∀ f : Bitmap × Bitmap → Bitmap,
        i < (buildCumulativeBitmap ∅ (bitmaps.map f)).length := by
      intro f
      rwa [length_buildCumulativeBitmap, length_map]
    rw [cumulated, getD_eq_getElem _ _ (by simpa using ⟨hlen _, hlen _⟩), getElem_zip,
      getD_eq_getElem _ _ (hlen _), getD_eq_getElem _ _ (hlen _)]
  simp only [fastConflicted, conflicted, hzip, Bool.or_eq_true, Bitmap.interExist_iff, hr, hw,
    hget, Finset.notMem_empty, false_or]
  constructor
  · rintro ((⟨x, hx, j, hj, hxj⟩ | ⟨x, hx, j, hj, hxj⟩) | ⟨x, hx, j, hj, hxj⟩)
    · exact ⟨j, hj, .inl (.inl ⟨x, hx, hxj⟩)⟩
    · exact ⟨j, hj, .inl (.inr ⟨x, hx, hxj⟩)⟩
    · exact ⟨j, hj, .inr ⟨x, hx, hxj⟩⟩
  · rintro ⟨j, hj, (⟨x, hx, hxj⟩ | ⟨x, hx, hxj⟩) | ⟨x, hx, hxj⟩⟩
    · exact .inl (.inl ⟨x, hx, j, hj, hxj⟩)
    · exact .inl (.inr ⟨x, hx, j, hj, hxj⟩)
    · exact .inr ⟨x, hx, j, hj, hxj⟩

end Cumulative

section Reach
variable {R : ℕ → ℕ → Prop}
variable {i : ℕ}

lemma lt_of_transGen (hdesc : ∀ i j, R i j → j < i) {j : ℕ} (h : TransGen R i j) : j < i := by
  induction h with
  | single h => exact hdesc _ _ h
  | tail _ h ih => exact (hdesc _ _ h).trans ih

/-- What `buildReach` knows once it has looked at the transactions from `c` on: `d` are the
direct neighbours of `i` found so far, and `r` is what `i` reaches through them. -/
structure ReachInv (R : ℕ → ℕ → Prop) (i c : ℕ) (r d : Bitmap) : Prop where
  mem : ∀ x, x ∈ r ↔ x = i ∨ ∃ k ∈ d, ReflTransGen R k x
  sub : ∀ k ∈ d, R i k ∧ c ≤ k
  cover : ∀ j, c ≤ j → R i j → j ∈ r
  min : ∀ j ∈ d, ∀ k ∈ d, ¬ TransGen R k j

lemma ReachInv.mem_iff {r d : Bitmap} (hdesc : ∀ i j, R i j → j < i) (h : ReachInv R i 0 r d)
    (x : ℕ) : x ∈ r ↔ ReflTransGen R i x := by
  rw [h.mem]
  constructor
  · rintro (rfl | ⟨k, hk, hkx⟩)
    · exact .refl
    · exact .head (h.sub k hk).1 hkx
  · intro hx
    rcases ReflTransGen.cases_head hx with rfl | ⟨k, hik, hkx⟩
    · exact .inl rfl
    rcases (h.mem k).mp (h.cover k (Nat.zero_le _) hik) with rfl | ⟨k', hk', hkk⟩
    · exact absurd (hdesc _ _ hik) (lt_irrefl _)
    · exact .inr ⟨k', hk', hkk.trans hkx⟩

lemma ReachInv.skip {r d : Bitmap} (h : ReachInv R i (c + 1) r d) (hc : R i c → c ∈ r) :
    ReachInv R i c r d := by
  refine ⟨h.mem, fun k hk => ⟨(h.sub k hk).1, (Nat.le_succ c).trans (h.sub k hk).2⟩, ?_, h.min⟩
  intro j hj hij
  rcases hj.eq_or_lt with rfl | hj
  · exact hc hij
  · exact h.cover j hj hij

variable (hdesc : ∀ i j, R i j → j < i)
include hdesc

lemma ReachInv.insert {r d reachC : Bitmap} (h : ReachInv R i (c + 1) r d) (hic : R i c)
    (hc : c ∉ r) (hreach : ∀ x, x ∈ reachC ↔ ReflTransGen R c x) :
    ReachInv R i c (r ∪ reachC) (insert c d) := by
  refine ⟨fun x => ?_, fun k hk => ?_, fun j hj hij => ?_, fun j hj k hk hkj => ?_⟩
  · rw [Finset.mem_union, h.mem, hreach]
    simp only [Finset.mem_insert, exists_eq_or_imp]
    exact or_assoc.trans (or_congr_right or_comm)
  · rcases Finset.mem_insert.mp hk with rfl | hk
    · exact ⟨hic, le_rfl⟩
    · exact ⟨(h.sub k hk).1, (Nat.le_succ c).trans (h.sub k hk).2⟩
  · rcases hj.eq_or_lt with rfl | hj
    · exact Finset.mem_union_right _ ((hreach c).mpr .refl)
    · exact Finset.mem_union_left _ (h.cover j hj hij)
  · have hlt := lt_of_transGen hdesc hkj
    rcases Finset.mem_insert.mp hk with rfl | hk'
    · rcases Finset.mem_insert.mp hj with rfl | hj'
      · exact lt_irrefl _ hlt
      · exact absurd (h.sub j hj').2 (by omega)
    · rcases Finset.mem_insert.mp hj with rfl | hj'
      · exact hc ((h.mem j).mpr (.inr ⟨k, hk', hkj.to_reflTransGen⟩))
      · exact h.min j hj' k hk' hkj

lemma buildReach_inv {bitmapI : Bitmap × Bitmap} {reachMap : List Bitmap}
    (hconf : ∀ j < i, conflicted bitmapI (bitmaps.getD j (∅, ∅)) ↔ R i j)
    (hreach : ∀ j < i, ∀ x, x ∈ reachMap.getD j ∅ ↔ ReflTransGen R j x) {r d : Bitmap} (hc : c ≤ i)
    (h : ReachInv R i c r d) : ReachInv R i 0 (buildReach bitmaps bitmapI reachMap c r d).1
      (buildReach bitmaps bitmapI reachMap c r d).2 := by
  induction c generalizing r d with
  | zero => exact h
  | succ c ih =>
    rw [buildReach]
    split
    · next hmem => exact ih (Nat.le_of_succ_le hc) (h.skip fun _ => hmem)
    next hmem =>
    split
    · next hcf =>
      exact ih (Nat.le_of_succ_le hc)
        (h.insert hdesc ((hconf c hc).mp hcf) hmem (hreach c hc))
    · next hcf =>
      exact ih (Nat.le_of_succ_le hc) (h.skip fun hR => absurd ((hconf c hc).mpr hR) hcf)

lemma reachLoop_inv {n : ℕ}
    (hconf : ∀ i < n, ∀ j < i, conflicted (bitmaps.getD i (∅, ∅)) (bitmaps.getD j (∅, ∅)) ↔ R i j)
    (hlen : n ≤ bitmaps.length) : (reachLoop bitmaps (cumulated bitmaps) n).length = n ∧
    ∀ i < n, ReachInv R i 0 ((reachLoop bitmaps (cumulated bitmaps) n).getD i (∅, ∅)).1
      ((reachLoop bitmaps (cumulated bitmaps) n).getD i (∅, ∅)).2 := by
  induction n with
  | zero => simp [reachLoop]
  | succ n ih =>
    obtain ⟨hdone, hinv⟩ := ih (fun i hi => hconf i (by omega)) (by omega)
    simp only [reachLoop]
    refine ⟨by simp [hdone], fun i hi => ?_⟩
    rcases (Nat.le_of_lt_succ hi).lt_or_eq with hin | rfl
    · rw [getD_append _ _ _ _ (hdone.symm ▸ hin)]
      exact hinv i hin
    rw [getD_append_right _ _ _ _ hdone.le, hdone, Nat.sub_self, getD_cons_zero]
    have hstart : ReachInv R i i {i} ∅ :=
      ⟨by simp, by simp, fun j hj hij => absurd (hdesc i j hij) (by omega), by simp⟩
    unfold reachOf
    dsimp only
    split
    · refine buildReach_inv hdesc (hconf i hi) (fun j hj x => ?_) le_rfl hstart
      rw [← (hinv j hj).mem_iff hdesc x]
      exact iff_of_eq (congrArg (x ∈ ·) (getD_map _ (∅, ∅) _))
    next hfast =>
    -- No earlier transaction conflicts: `i` has no neighbours at all.
    have hnone : ∀ j, ¬ R i j := by
      intro j hij
      have hji := hdesc i j hij
      refine hfast (Bool.and_eq_true_iff.mpr ⟨by simpa using (by omega : 0 < i), ?_⟩)
      exact (fastConflicted_iff (by omega)).mpr
        ⟨j, by omega, (hconf i hi j hji).mpr hij⟩
    exact ⟨by simp, by simp, fun j _ hij => absurd hij (hnone j), by simp⟩

end Reach

lemma Bitmap.mem_pos1 {x : ℕ} : x ∈ b.pos1 ↔ x ∈ b := by
  simp only [Bitmap.pos1, mem_filter, mem_range, decide_eq_true_eq, and_iff_right_iff_imp]
  exact fun hx => Nat.lt_succ_of_le (Finset.le_sup (f := id) hx)

def applyAll (parent : Parent) (applied : List (Transaction × TxRWSet × Result)) : SnapshotImpl :=
  applied.foldl (fun s e => s.apply e.1 e.2.1 e.2.2) { parent := parent }

lemma applyAll_tables (parent : Parent) (applied : List (Transaction × TxRWSet × Result)) :
    (applyAll parent applied).txTable = applied.map (·.1) ∧
      (applyAll parent applied).txRWSetTable = applied.map (·.2.1) := by
  induction applied using reverseRecOn with
  | nil => exact ⟨rfl, rfl⟩
  | append_singleton applied e ih =>
    have hstep : applyAll parent (applied ++ [e]) =
        (applyAll parent applied).apply e.1 e.2.1 e.2.2 := by
      simp [applyAll, foldl_append]
    simp [hstep, SnapshotImpl.apply, ih.1, ih.2]

lemma length_buildRWBitmaps (d : KeyDict) (rws : List TxRWSet) :
    (buildRWBitmaps d rws).length = rws.length := by
  induction rws generalizing d with
  | nil => rfl
  | cons rw rws ih => simp [buildRWBitmaps, ih]

lemma SnapshotImpl.buildDAG_isReduction {s : SnapshotImpl}
    (hs : s.txRWSetTable.length = s.txTable.length) :
    (s.buildDAG false).vertexes.length = s.txTable.length ∧
      Reduction.IsReduction (ConflictBefore s.txRWSetTable) (s.buildDAG false).Edge := by
  set bitmaps := buildRWBitmaps {} s.txRWSetTable with hb
  have hdesc : ∀ i j, ConflictBefore s.txRWSetTable i j → j < i := fun _ _ h => h.1
  have hconf : ∀ i < s.txTable.length, ∀ j < i,
      conflicted (bitmaps.getD i (∅, ∅)) (bitmaps.getD j (∅, ∅)) ↔
        ConflictBefore s.txRWSetTable i j :=
    fun i hi j hj => conflicted_iff (hs.symm ▸ hi) hj
  have hbl : s.txTable.length ≤ bitmaps.length := by rw [hb, length_buildRWBitmaps, hs]
  obtain ⟨hlen, hinv⟩ := reachLoop_inv hdesc hconf hbl
  set loop := reachLoop bitmaps _ s.txTable.length with hloop
  have hdag : (s.buildDAG false).vertexes = loop.map fun r => r.2.pos1 := by
    simp [SnapshotImpl.buildDAG, ← hb, hloop, cumulated]
  have hedge : ∀ i j, (s.buildDAG false).Edge i j ↔
      i < s.txTable.length ∧ j ∈ (loop.getD i (∅, ∅)).2 := by
    intro i j
    rw [DAG.Edge, hdag]
    by_cases hi : i < s.txTable.length
    · rw [getD_eq_getElem _ _ (by simpa [hlen] using hi), getElem_map,
        Bitmap.mem_pos1, getD_eq_getElem _ _ (hlen.symm ▸ hi)]
      exact (and_iff_right hi).symm
    · rw [getD_eq_default _ _ (by simpa [hlen] using hi)]
      simp [hi]
  have hlt : ∀ i j, ConflictBefore s.txRWSetTable i j → i < s.txTable.length := by
    rintro i j ⟨-, rw, -, hrw, -⟩
    exact hs ▸ (List.getElem?_eq_some_iff.mp hrw).1
  refine ⟨by rw [hdag, length_map, hlen], ⟨fun i j h => ?_, fun i j h => ?_, fun i j k h h' => ?_⟩⟩
  · obtain ⟨hi, hj⟩ := (hedge i j).mp h
    exact ((hinv i hi).sub j hj).1
  · have hi := hlt i j h
    rcases ((hinv i hi).mem j).mp ((hinv i hi).cover j (Nat.zero_le _) h) with rfl | ⟨k, hk, hkj⟩
    · exact absurd (hdesc _ _ h) (lt_irrefl _)
    rcases reflTransGen_iff_eq_or_transGen.mp hkj with rfl | hkj
    · exact .inl ((hedge i j).mpr ⟨hi, hk⟩)
    · exact .inr ⟨k, (hedge i k).mpr ⟨hi, hk⟩, hkj⟩
  · obtain ⟨hi, hj⟩ := (hedge i j).mp h
    exact (hinv i hi).min j hj k ((hedge i k).mp h').2

lemma wellFounded_swap_conflictBefore (rws : List TxRWSet) :
    WellFounded (Function.swap (ConflictBefore rws)) :=
  Subrelation.wf (fun h => h.1) Nat.lt_wfRel.wf

theorem buildDAG_exact (parent : Parent) (applied : List (Transaction × TxRWSet × Result)) :
    ((applyAll parent applied).buildDAG false).vertexes.length = applied.length ∧
    (∀ i j, ((applyAll parent applied).buildDAG false).Edge i j →
      ConflictBefore (applied.map (·.2.1)) i j) ∧
    (∀ i j, j < i → (TransGen ((applyAll parent applied).buildDAG false).Edge i j ↔
      TransGen (ConflictBefore (applied.map (·.2.1))) i j)) ∧
    (∀ i j, ((applyAll parent applied).buildDAG false).Edge i j →
      ¬ TransGen (Reduction.without ((applyAll parent applied).buildDAG false).Edge i j) i j) := by
  obtain ⟨htx, hrw⟩ := applyAll_tables parent applied
  obtain ⟨hlen, hred⟩ := SnapshotImpl.buildDAG_isReduction (s := applyAll parent applied)
    (by rw [htx, hrw, length_map, length_map])
  rw [hrw] at hred
  rw [htx, length_map] at hlen
  exact ⟨hlen, hred.sub, fun i j _ => hred.transGen_iff (wellFounded_swap_conflictBefore _),
    fun i j h => hred.not_transGen_without h⟩

end ChainMaker.Snapshot
