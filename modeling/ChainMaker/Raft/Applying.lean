import ChainMaker.Basic
import ChainMaker.Lib.Runs

/-! The index up to which a raft node has applied the log (`NodeReady` with the WAL saved in place).
etcd raft hands over committed entries of consecutive indices, some of them again, and snapshots
ahead of what has been applied. -/

namespace ChainMaker.Raft
open Option List

inductive ConfChange
  | removeNode (nodeId : UInt64)
  | addNode (nodeId : UInt64)
deriving DecidableEq, Repr

/-- What the log holds: blocks, entries without data, and conf changes. -/
inductive Entry
  | block
  | empty
  | confChange (cc : ConfChange)
deriving DecidableEq

abbrev Entries := List (UInt64 × Entry)

inductive Processed
  | entry (index : UInt64)
  | snapshot (index : UInt64)

namespace Processed

def index : Processed → UInt64
  | entry i | snapshot i => i

/-- An entry stands for the next index, a snapshot for a later one. -/
def Follows : Processed → Processed → Prop
  | entry i, p => i.toNat = p.index.toNat + 1
  | snapshot i, p => p.index < i

end Processed

/-- What `NodeReady` reads of etcd raft's `Ready`; the index of an empty snapshot is zero. -/
structure Ready where
  snapshot : UInt64
  committedEntries : Entries

/-- One life of the process, with what it has processed, latest first. -/
structure Applier where
  appliedIndex : UInt64
  running : Bool
  processed : List Processed

namespace Applier
variable {a : Applier} {ready : Ready} {ents : Entries}

def start (snapshot : UInt64) : Applier := ⟨snapshot, true, [.snapshot snapshot]⟩

def process (a : Applier) (p : Processed) : Applier :=
  { a with appliedIndex := p.index, processed := p :: a.processed }

def publishSnapshot (a : Applier) (snapshot : UInt64) : Applier :=
  if snapshot ≠ 0 ∧ snapshot > a.appliedIndex then a.process (.snapshot snapshot) else a

/-- Without a result the process has ended, as in `nodeReady`. -/
def entriesToApply (a : Applier) (ents : Entries) : Option Entries :=
  match ents.head? with
  | none => some ents
  | some (firstIdx, _) =>
    if firstIdx > a.appliedIndex + 1 then none
    else if a.appliedIndex - firstIdx + 1 < ents.length.toUInt64 then
      some (ents.drop (a.appliedIndex - firstIdx + 1).toNat)
    else some []

def publishEntries (id : UInt64) : Applier → Entries → Applier
  | a, [] => a
  | a, (i, e) :: ents =>
    if e = .confChange (.removeNode id) then { a.process (.entry i) with running := false }
    else publishEntries id (a.process (.entry i)) ents

def nodeReady (id : UInt64) (a : Applier) (ready : Ready) : Option Applier :=
  if ready.snapshot ≠ 0 ∧ ready.snapshot ≤ a.appliedIndex then none
  else
    let a := a.publishSnapshot ready.snapshot
    (a.entriesToApply ready.committedEntries).map (a.publishEntries id)

def firstIndex (ents : Entries) : ℕ := ents.head?.elim 1 (·.1.toNat)

def Consecutive (first : ℕ) (ents : Entries) : Prop :=
  ents.map (·.1.toNat) = range' first ents.length

/-- None of the entries after the applied one is left out. -/
structure Fits (a : Applier) (ents : Entries) : Prop where
  pos : 0 < firstIndex ents
  le : firstIndex ents ≤ a.appliedIndex.toNat + 1
  consecutive : Consecutive (firstIndex ents) ents

/-- The contract of etcd raft. -/
structure Contract (a : Applier) (ready : Ready) : Prop where
  running : a.running = true
  snapshot : ready.snapshot = 0 ∨ a.appliedIndex < ready.snapshot
  entries : (a.publishSnapshot ready.snapshot).Fits ready.committedEntries

structure InOrder (a : Applier) : Prop where
  chain : a.processed.IsChain Processed.Follows
  last : a.processed.head?.map (·.index) = some a.appliedIndex

lemma InOrder.process (h : a.InOrder) {p : Processed}
    (hp : ∀ q : Processed, q.index = a.appliedIndex → p.Follows q) : (a.process p).InOrder := by
  obtain ⟨q, hq, hindex⟩ := map_eq_some_iff.mp h.last
  obtain ⟨ps, hps⟩ := head?_eq_some_iff.mp hq
  refine ⟨?_, rfl⟩
  rw [Applier.process, hps]
  exact .cons_cons (hp q hindex) (hps ▸ h.chain)

lemma InOrder.publishEntries (h : a.InOrder) (id : UInt64)
    (hents : Consecutive (a.appliedIndex.toNat + 1) ents) :
    (a.publishEntries id ents).InOrder ∧ ((a.publishEntries id ents).running = true →
      (a.publishEntries id ents).appliedIndex.toNat = a.appliedIndex.toNat + ents.length) := by
  induction ents generalizing a with
  | nil => exact ⟨h, fun _ => rfl⟩
  | cons x ents ih =>
    obtain ⟨i, e⟩ := x
    obtain ⟨hi, htail⟩ := cons.inj hents
    have hi : i.toNat = a.appliedIndex.toNat + 1 := hi
    have hp : (a.process (.entry i)).InOrder :=
      h.process fun q hq => show i.toNat = q.index.toNat + 1 from hq ▸ hi
    rw [Applier.publishEntries]
    split
    · exact ⟨{ hp with }, nofun⟩
    · obtain ⟨horder, hreaches⟩ := ih hp (hi ▸ htail)
      refine ⟨horder, fun hrunning => (hreaches hrunning).trans ?_⟩
      rw [length_cons]
      show i.toNat + _ = _
      omega

lemma Fits.entriesToApply_eq (h : a.Fits ents) :
    a.entriesToApply ents = none ∧ a.appliedIndex.toNat + 1 = 2 ^ 64 ∨
      a.entriesToApply ents = some (ents.drop (a.appliedIndex.toNat + 1 - firstIndex ents)) := by
  obtain ⟨hpos, hle, hents⟩ := h
  cases ents with
  | nil => exact .inr (by simp [entriesToApply])
  | cons x rest =>
    rw [show firstIndex (x :: rest) = x.1.toNat from rfl] at *
    have hlast : x.1.toNat + rest.length ∈ (x :: rest).map (·.1.toNat) :=
      hents ▸ mem_range'_1.mpr ⟨by omega, by simp⟩
    obtain ⟨y, -, hy⟩ := mem_map.mp hlast
    have hlt := y.1.toNat_lt
    have ha := a.appliedIndex.toNat_lt
    simp only [entriesToApply, head?_cons, Nat.toUInt64_eq, length_cons]
    by_cases hmax : a.appliedIndex.toNat + 1 = 2 ^ 64
    · refine .inl ⟨if_pos (UInt64.lt_iff_toNat_lt.mpr ?_), hmax⟩
      rw [UInt64.toNat_add, UInt64.toNat_one, hmax]
      exact hpos
    · have hfatal : ¬x.1 > a.appliedIndex + 1 := by
        rw [gt_iff_lt, UInt64.lt_iff_toNat_lt, UInt64.toNat_add, UInt64.toNat_one]
        omega
      have hd : (a.appliedIndex - x.1 + 1).toNat = a.appliedIndex.toNat + 1 - x.1.toNat := by
        rw [UInt64.toNat_add, UInt64.toNat_sub, UInt64.toNat_one]
        omega
      rw [if_neg hfatal, hd]
      refine .inr ?_
      split
      case isTrue => rfl
      case isFalse hshort =>
      rw [UInt64.lt_iff_toNat_lt, hd, UInt64.toNat_ofNat'] at hshort
      rw [drop_eq_nil_of_le (by rw [length_cons]; omega)]

lemma InOrder.publishSnapshot (h : a.InOrder) (i : UInt64) : (a.publishSnapshot i).InOrder := by
  unfold Applier.publishSnapshot
  split
  case isTrue hlt => exact h.process fun q hq => show q.index < i from hq ▸ hlt.2
  case isFalse => exact h

/-- What becomes of committed entries. The node ends without a result only at the largest index,
where nothing is left to apply. -/
structure Delivers (a : Applier) (ents : Entries) (r : Option Applier) : Prop where
  selects : ∀ nents ∈ a.entriesToApply ents,
    nents = ents.drop (a.appliedIndex.toNat + 1 - firstIndex ents)
  ends : r = none → a.appliedIndex.toNat + 1 = 2 ^ 64
  order : ∀ a' ∈ r, a'.InOrder
  reaches : ∀ a' ∈ r, a'.running = true →
    a'.appliedIndex.toNat + 1 = max (a.appliedIndex.toNat + 1) (firstIndex ents + ents.length)

lemma InOrder.delivers (h : a.InOrder) (id : UInt64) (hfits : a.Fits ents) :
    a.Delivers ents ((a.entriesToApply ents).map (a.publishEntries id)) := by
  rcases hfits.entriesToApply_eq with ⟨hnone, hmax⟩ | hsome
  · rw [hnone]
    exact ⟨by simp [hnone], fun _ => hmax, nofun, nofun⟩
  have hle := hfits.le
  have hnext : Consecutive (a.appliedIndex.toNat + 1)
      (ents.drop (a.appliedIndex.toNat + 1 - firstIndex ents)) := by
    rw [Consecutive, map_drop, hfits.consecutive, drop_range', Nat.mul_one, Nat.add_sub_of_le hle,
      length_drop]
  obtain ⟨horder, hreaches⟩ := h.publishEntries id hnext
  rw [hsome]
  refine ⟨by simp [hsome], nofun, by rintro _ ⟨⟩; exact horder, ?_⟩
  rintro _ ⟨⟩ hrunning
  rw [hreaches hrunning, length_drop]
  omega

lemma InOrder.nodeReady (h : a.InOrder) (id : UInt64) (hready : a.Contract ready) :
    (a.publishSnapshot ready.snapshot).Delivers ready.committedEntries (a.nodeReady id ready) := by
  have hsnapshot : ¬(ready.snapshot ≠ 0 ∧ ready.snapshot ≤ a.appliedIndex) := by
    rintro ⟨hne, hle⟩
    exact UInt64.not_lt.mpr hle (hready.snapshot.resolve_left hne)
  rw [Applier.nodeReady, if_neg hsnapshot]
  exact (h.publishSnapshot ready.snapshot).delivers id hready.entries

theorem entries_applied_once (id snapshot : UInt64) (readys : List Ready) (a : Applier)
    (hrun : Runs.run (nodeReady id) (start snapshot) readys = some a)
    (hmeets : Runs.Meets (nodeReady id) Contract (start snapshot) readys) :
    a.InOrder ∧ ∀ ready, a.Contract ready →
      (a.publishSnapshot ready.snapshot).Delivers ready.committedEntries
        (a.nodeReady id ready) := by
  have hstart : (start snapshot).InOrder := ⟨.singleton _, rfl⟩
  have horder : a.InOrder := Runs.run_induction
    (fun _ _ a' h hready => (h.nodeReady id hready).order a') hstart hmeets hrun
  exact ⟨horder, fun ready => horder.nodeReady id⟩

/-- The second `Ready` brings an entry again, the third a snapshot. -/
def overlapping : List Ready :=
  [⟨0, [(1, .empty), (2, .empty)]⟩, ⟨0, [(2, .empty), (3, .block)]⟩,
    ⟨6, [(7, .confChange (.addNode 8))]⟩]

theorem entries_applied_once_overlapping : ∃ a,
    Runs.run (nodeReady 7) (start 0) overlapping = some a ∧ a.InOrder ∧
      a.processed.map (·.index) = [7, 6, 3, 2, 1, 0] := by
  refine ⟨_, rfl, (entries_applied_once 7 0 overlapping _ rfl ?_).1, rfl⟩
  refine ⟨⟨rfl, .inl rfl, by decide, by decide, rfl⟩, ?_⟩
  refine ⟨⟨rfl, .inl rfl, by decide, by decide, rfl⟩, ?_⟩
  exact ⟨⟨rfl, .inr (by decide), by decide, by decide, rfl⟩, trivial⟩

end Applier
end ChainMaker.Raft
