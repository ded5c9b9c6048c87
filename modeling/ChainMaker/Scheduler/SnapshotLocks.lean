import ChainMaker.Lib.Runs
import Mathlib.Data.List.Basic
import Mathlib.Logic.Relation

/-! The locks of a chain of snapshots while a block is scheduled. Snapshot 0 is the one of the
block, snapshot `i + 1` is the predecessor of snapshot `i`. -/

namespace ChainMaker.Scheduler
open List

inductive LockOp where
  | lock (i : ℕ)
  | unlock (i : ℕ)
  /-- `IsSealed` at the start of a worker, before `ApplyTxSimContext` takes the lock, and under it.
  -/
  | enter
  | check
  | recheck
  | seal

/-- Calls of `GetKey`: the first on the snapshot `skip` further down, which keeps its lock while it
asks the snapshots below. -/
inductive Lookups where
  | none
  | call (skip : ℕ) (below next : Lookups)

/-- A worker, or what `Schedule` does after the finish signal. For each special transaction, the
number of times its size is asked for after it was applied. -/
inductive Routine where
  | worker (reads : Lookups)
  | finish (special : List (Lookups × ℕ))

structure Goroutine where
  held : List ℕ
  todo : List LockOp

/-- Not between the two checks of `ApplyTxSimContext`. -/
def Goroutine.Unchecked (g : Goroutine) : Prop := .recheck ∈ g.todo → .check ∈ g.todo

structure SnapshotLocks where
  isSealed : Bool
  goroutines : List Goroutine

inductive LockEvent where
  | go (routine : Routine)
  | run (k : ℕ)

namespace SnapshotLocks

def getSnapshotSize (i : ℕ) : List LockOp := [.lock i, .unlock i]

def getKeys : Lookups → ℕ → List LockOp
  | .none, _ => []
  | .call skip below next, i => getSnapshotSize (i + skip) ++ .lock (i + skip) ::
      (getKeys below (i + skip + 1) ++ .unlock (i + skip) :: getKeys next i)

def executeTx (reads : Lookups) : List LockOp := getSnapshotSize 0 ++ getKeys reads 0

def simulateSpecialTxs (special : List (Lookups × ℕ)) : List LockOp :=
  special.flatMap fun tx =>
    executeTx tx.1 ++ .lock 0 :: .unlock 0 :: (replicate tx.2 (getSnapshotSize 0)).flatten

def ops : Routine → List LockOp
  | .worker reads => .enter :: (executeTx reads ++ [.check, .lock 0, .recheck, .unlock 0])
  -- after `Seal` comes `BuildDAG`
  | .finish special => .seal :: .lock 0 :: .unlock 0 :: simulateSpecialTxs special

def set (s : SnapshotLocks) (k : ℕ) (held : List ℕ) (todo : List LockOp) : SnapshotLocks :=
  { s with goroutines := s.goroutines.set k ⟨held, todo⟩ }

def runOp (s : SnapshotLocks) (k : ℕ) (held : List ℕ) : List LockOp → Option SnapshotLocks
  | [] => none
  | .lock i :: ops =>
    if ∀ g ∈ s.goroutines, i ∉ g.held then some (s.set k (i :: held) ops) else none
  | .unlock i :: ops => some (s.set k (held.erase i) ops)
  | .enter :: ops => some (s.set k held (if s.isSealed then [] else ops))
  | .check :: ops => some (s.set k held (if s.isSealed then getSnapshotSize 0 else ops))
  | .recheck :: ops => some (s.set k held (if s.isSealed then getSnapshotSize 0 ++ ops else ops))
  | .seal :: ops => some { s.set k held ops with isSealed := true }

def step (s : SnapshotLocks) : LockEvent → Option SnapshotLocks
  | .go routine => some { s with goroutines := s.goroutines ++ [⟨[], ops routine⟩] }
  | .run k => s.goroutines[k]?.bind fun g => s.runOp k g.held g.todo

/-- Goroutine `k` requests a lock that goroutine `l` holds. -/
def Waits (s : SnapshotLocks) (k l : ℕ) : Prop :=
  ∃ g ∈ s.goroutines[k]?, ∃ g' ∈ s.goroutines[l]?, ∃ i ∈ g'.held, g.todo.head? = some (.lock i)

/-- No goroutine waits for itself, also not through others. -/
def NoDeadlock (s : SnapshotLocks) : Prop := ∀ k, ¬Relation.TransGen s.Waits k k

def SealsApart (s : SnapshotLocks) : LockEvent → Prop
  | .run k => ∀ g ∈ s.goroutines[k]?, g.todo.head? = some .seal → ∀ g ∈ s.goroutines, g.Unchecked
  | .go _ => True

/-- With the locks `held`, newest first, every requested lock is further down the chain. -/
def Ordered : List ℕ → List LockOp → Prop
  | held, [] => held = []
  | held, .lock i :: ops => (∀ j ∈ held, j < i) ∧ Ordered (i :: held) ops
  | held, .unlock i :: ops => ∃ rest, held = i :: rest ∧ Ordered rest ops
  | held, .recheck :: ops => .check ∉ ops ∧ Ordered held ops
  | held, .seal :: ops => Ordered held ops
  | held, _ :: ops => held = [] ∧ Ordered held ops

def Inv (s : SnapshotLocks) : Prop :=
  ∀ g ∈ s.goroutines, Ordered g.held g.todo ∧ (s.isSealed = true → g.Unchecked)

variable {s s' : SnapshotLocks} {i k : ℕ} {held : List ℕ} {todo : List LockOp} {g : Goroutine}

lemma ordered_getSnapshotSize (hheld : ∀ j ∈ held, j < i) (h : Ordered held todo) :
    Ordered held (getSnapshotSize i ++ todo) := ⟨hheld, held, rfl, h⟩

lemma ordered_getKeys (reads : Lookups) (hheld : ∀ j ∈ held, j < i) (h : Ordered held todo) :
    Ordered held (getKeys reads i ++ todo) := by
  induction reads generalizing i held todo with
  | none => exact h
  | call skip below next ihbelow ihnext =>
    have hskip : ∀ j ∈ held, j < i + skip := fun j hj => Nat.lt_add_right skip (hheld j hj)
    simp only [getKeys, append_assoc, cons_append]
    refine ordered_getSnapshotSize hskip ⟨hskip, ihbelow ?_ ⟨held, rfl, ihnext hheld h⟩⟩
    exact forall_mem_cons.mpr ⟨Nat.lt_succ_self _, fun j hj => Nat.lt_succ_of_lt (hskip j hj)⟩

lemma ordered_executeTx (reads : Lookups) (h : Ordered [] todo) :
    Ordered [] (executeTx reads ++ todo) := by
  rw [executeTx, append_assoc]
  exact ordered_getSnapshotSize (by simp) (ordered_getKeys reads (by simp) h)

lemma ordered_simulateSpecialTxs (special : List (Lookups × ℕ)) :
    Ordered [] (simulateSpecialTxs special) := by
  induction special with
  | nil => rfl
  | cons tx special ih =>
    rw [simulateSpecialTxs, flatMap_cons, append_assoc]
    refine ordered_executeTx tx.1 (ordered_getSnapshotSize (by simp) ?_)
    induction tx.2 with
    | zero => exact ih
    | succ n ihn => exact ordered_getSnapshotSize (by simp) ihn

lemma recheck_notMem_getKeys (reads : Lookups) (i : ℕ) : .recheck ∉ getKeys reads i := by
  induction reads generalizing i with
  | none => simp [getKeys]
  | call skip below next ihbelow ihnext => simp [getKeys, getSnapshotSize, ihbelow, ihnext]

namespace Inv

lemma set (h : s.Inv) (hordered : Ordered held todo)
    (hunchecked : s.isSealed = true → Goroutine.Unchecked ⟨held, todo⟩) :
    (s.set k held todo).Inv := fun g hg =>
  (mem_or_eq_of_mem_set hg).elim (h g) fun hg => hg ▸ ⟨hordered, hunchecked⟩

lemma go (h : s.Inv) (routine : Routine) :
    Inv { s with goroutines := s.goroutines ++ [⟨[], ops routine⟩] } := by
  refine forall_mem_append.mpr ⟨h, forall_mem_singleton.mpr ?_⟩
  cases routine with
  | worker reads =>
    refine ⟨⟨rfl, ordered_executeTx reads ?_⟩, fun _ => by simp [Goroutine.Unchecked, ops]⟩
    exact ⟨rfl, by simp, by simp, [], rfl, rfl⟩
  | finish special =>
    refine ⟨ordered_getSnapshotSize (by simp) (ordered_simulateSpecialTxs special), fun _ => ?_⟩
    simp [Goroutine.Unchecked, ops, simulateSpecialTxs, executeTx, getSnapshotSize,
      recheck_notMem_getKeys]

lemma runOp (h : s.Inv) (hg : g ∈ s.goroutines)
    (hseals : g.todo.head? = some .seal → ∀ g ∈ s.goroutines, g.Unchecked)
    (hrun : s.runOp k g.held g.todo = some s') : s'.Inv := by
  obtain ⟨held, todo⟩ := g
  obtain ⟨hordered, hunchecked⟩ := h _ hg
  unfold Goroutine.Unchecked at hunchecked
  match todo with
  | .lock i :: ops =>
    obtain ⟨-, hrun⟩ := Option.ite_none_right_eq_some.mp hrun
    cases hrun
    exact h.set hordered.2 (by simpa [Goroutine.Unchecked] using hunchecked)
  | .unlock i :: ops =>
    cases hrun
    obtain ⟨rest, hheld, hrest⟩ := hordered
    rw [hheld, erase_cons_head]
    exact h.set hrest (by simpa [Goroutine.Unchecked] using hunchecked)
  | .enter :: ops =>
    cases hrun
    split
    · exact h.set hordered.1 (by simp [Goroutine.Unchecked])
    · next hs => exact h.set hordered.2 (absurd · hs)
  | .check :: ops =>
    cases hrun
    obtain ⟨rfl, hordered⟩ := hordered
    split
    · exact h.set ⟨by simp, [], rfl, rfl⟩ (by simp [Goroutine.Unchecked, getSnapshotSize])
    · next hs => exact h.set hordered (absurd · hs)
  | .recheck :: ops =>
    cases hrun
    -- a sealed snapshot never meets the second check
    have hs : ¬s.isSealed = true := fun hs => hordered.1 (by simpa using hunchecked hs)
    rw [if_neg hs]
    exact h.set hordered.2 (absurd · hs)
  | .seal :: ops =>
    cases hrun
    have hall := hseals rfl
    intro g hg'
    obtain hg' | rfl := mem_or_eq_of_mem_set hg'
    · exact ⟨(h g hg').1, fun _ => hall g hg'⟩
    · exact ⟨hordered, fun _ => by simpa [Goroutine.Unchecked] using hall _ hg⟩

lemma lt_of_requested (h : s.Inv) (hg : g ∈ s.goroutines[k]?)
    (hi : g.todo.head? = some (.lock i)) : ∀ j ∈ g.held, j < i := by
  obtain ⟨todo, htodo⟩ := head?_eq_some_iff.mp hi
  have hordered := (h g (mem_of_getElem? hg)).1
  rw [htodo] at hordered
  exact hordered.1

/-- Along a chain of waiting goroutines the requested locks go down the chain of snapshots. -/
lemma le_of_waits (h : s.Inv) {l : ℕ} (hwaits : Relation.TransGen s.Waits k l)
    (hg : g ∈ s.goroutines[k]?) (hi : g.todo.head? = some (.lock i)) :
    ∃ g' ∈ s.goroutines[l]?, ∃ j ∈ g'.held, i ≤ j := by
  induction hwaits with
  | single hkl =>
    obtain ⟨g₁, hg₁, g', hg', j, hj, hreq⟩ := hkl
    cases hg.symm.trans hg₁
    cases hi.symm.trans hreq
    exact ⟨g', hg', i, hj, Nat.le_refl i⟩
  | tail _ hlm ih =>
    obtain ⟨g₁, hg₁, g', hg', j', hj', hreq⟩ := hlm
    obtain ⟨g₂, hg₂, j, hj, hij⟩ := ih
    cases hg₁.symm.trans hg₂
    exact ⟨g', hg', j', hj', Nat.le_trans hij (Nat.le_of_lt (h.lt_of_requested hg₁ hreq j hj))⟩

lemma noDeadlock (h : s.Inv) : s.NoDeadlock := by
  intro k hwaits
  obtain ⟨l, ⟨g, hg, -, -, i, -, hi⟩, -⟩ := Relation.TransGen.head'_iff.mp hwaits
  obtain ⟨g', hg', j, hj, hij⟩ := h.le_of_waits hwaits hg hi
  cases hg.symm.trans hg'
  exact Nat.not_le_of_lt (h.lt_of_requested hg hi j hj) hij

end Inv

/-- While the snapshot is never sealed between the two checks of an `ApplyTxSimContext`, no
goroutine requests a snapshot lock it holds, and no goroutines wait for each other in a cycle. -/
theorem noDeadlock_of_sealsApart (es : List LockEvent)
    (hseals : Runs.Meets step SealsApart ⟨false, []⟩ es)
    (hrun : Runs.run step ⟨false, []⟩ es = some s) : s.NoDeadlock := by
  have hstart : Inv ⟨false, []⟩ := forall_mem_nil _
  refine (Runs.run_induction ?_ hstart hseals hrun).noDeadlock
  intro s e s' h hseals hstep
  cases e with
  | go routine =>
    cases hstep
    exact h.go routine
  | run k =>
    obtain ⟨g, hg, hstep⟩ := Option.bind_eq_some_iff.mp hstep
    exact h.runOp (mem_of_getElem? hg) (hseals g hg) hstep

def waiting : List LockEvent := [.go (.worker .none), .run 0, .go (.finish []), .run 1, .run 1]

theorem noDeadlock_of_sealsApart_waiting :
    ∃ s, Runs.run step ⟨false, []⟩ waiting = some s ∧ s.Waits 0 1 ∧ s.NoDeadlock := by
  refine ⟨_, rfl, ⟨_, rfl, _, rfl, 0, by simp, rfl⟩, noDeadlock_of_sealsApart waiting ?_ rfl⟩
  refine ⟨trivial, by rintro _ ⟨⟩ ⟨⟩, trivial, ?_, by rintro _ ⟨⟩ ⟨⟩, trivial⟩
  simp [SealsApart, Goroutine.Unchecked, set, ops, simulateSpecialTxs]

/-- `ApplyTxSimContext` finds the snapshot sealed under its lock and asks for the size. -/
theorem not_noDeadlock : ∃ s,
    Runs.run step ⟨false, []⟩
      [.go (.worker .none), .run 0, .run 0, .run 0, .run 0, .go (.finish []),
      .run 1, .run 0, .run 0] = some s ∧ s.Waits 0 0 ∧ ¬s.NoDeadlock := by
  have hwaits : Waits
      ⟨true, [⟨[0], [.lock 0, .unlock 0, .unlock 0]⟩, ⟨[], [.lock 0, .unlock 0]⟩]⟩ 0 0 :=
    ⟨_, rfl, _, rfl, 0, by simp, rfl⟩
  exact ⟨_, rfl, hwaits, fun h => h 0 (.single hwaits)⟩

end SnapshotLocks
end ChainMaker.Scheduler
