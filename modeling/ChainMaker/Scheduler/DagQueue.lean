import ChainMaker.Scheduler.DagRuns

/-! What the loop of `SimulateWithDag` puts into the running queue. The queue of the model gives out
its entries in any order, which covers the orders in which the map of a batch may be walked. -/

namespace ChainMaker.Scheduler
open ChainMaker.Snapshot List Option

namespace Simulation
variable {ts : TxScheduler} {d : DAG} {txs : List Transaction} {v v' : Simulation} {e : SimEvent}

/-- What the loop puts into the queue when it takes an index out of `doneTxC`. -/
def puts (v : Simulation) : SimEvent → List ℕ
  | .done n => (v.doneTxC[n]?).elim [] fun i => (popNextTxBatchFromDag (shrinkDag i v.dagRemain)).1
  | _ => []

def putsAlong (ts : TxScheduler) : Simulation → List SimEvent → List ℕ
  | _, [] => []
  | v, e :: es => v.puts e ++ (v.step ts e).elim [] fun v' => putsAlong ts v' es

lemma shrinkDag_keys (i : ℕ) (l : List (ℕ × Finset ℕ)) :
    (shrinkDag i l).map (·.1) = l.map (·.1) := by
  rw [shrinkDag, List.map_map]
  rfl

lemma puts_perm (hs : v.step ts e = some v') :
    (v'.dagRemain.map (·.1) ++ v.puts e).Perm (v.dagRemain.map (·.1)) := by
  obtain ⟨-, hs⟩ := ite_none_left_eq_some.mp hs
  cases e with
  | submit n =>
    obtain ⟨i, tx, -, -, rfl⟩ := submit_some hs
    exact .of_eq (append_nil _)
  | exec n =>
    obtain ⟨p, x, -, -, rfl⟩ := exec_some hs
    exact .of_eq (append_nil _)
  | apply n => cases apply_applies hs <;> exact .of_eq (append_nil _)
  | done n =>
    obtain ⟨i, hi, rfl⟩ := done_some hs
    rw [puts, hi, elim_some]
    exact (popNextTxBatchFromDag_perm _).trans (.of_eq (shrinkDag_keys i _))
  | finish =>
    obtain ⟨-, hs⟩ := ite_none_right_eq_some.mp hs
    exact some.inj hs ▸ .of_eq (append_nil _)

lemma putsAlong_perm {es : List SimEvent} (hrun : Runs.run (step ts) v es = some v') :
    (v'.dagRemain.map (·.1) ++ putsAlong ts v es).Perm (v.dagRemain.map (·.1)) := by
  induction es generalizing v with
  | nil => exact some.inj hrun ▸ .of_eq (append_nil _)
  | cons e es ih =>
    obtain ⟨u, hu, hrun⟩ := Runs.run_cons.mp hrun
    rw [putsAlong, hu, elim_some]
    refine (Perm.append_left _ perm_append_comm).trans ?_
    rw [← append_assoc]
    exact ((ih hrun).append_right _).trans (puts_perm hu)

lemma mem_runningTxC_of_puts (hs : v.step ts e = some v') {i : ℕ} (hi : i ∈ v.puts e) :
    i ∈ v'.runningTxC := by
  obtain ⟨-, hs⟩ := ite_none_left_eq_some.mp hs
  cases e with
  | done n =>
    obtain ⟨k, hk, rfl⟩ := done_some hs
    rw [puts, hk, elim_some] at hi
    exact mem_append_right _ hi
  | submit | exec | apply | finish => cases hi

lemma remain_of_idle (h : GraphInv d txs v) (hd : ∀ i j, d.Edge i j → j < i)
    (hrunning : v.runningTxC = []) (hexecuting : v.executing = []) (hdone : v.doneTxC = []) :
    v.dagRemain = [] := by
  have hnone : ∀ i, i ∉ v.dagRemain.map (·.1) := by
    intro i
    induction i using Nat.strong_induction_on with
    | h i ih =>
      intro hi
      obtain ⟨p, hp, rfl⟩ := mem_map.mp hi
      obtain ⟨hne, hmem⟩ := h.remain p hp
      obtain ⟨j, hj⟩ := Finset.nonempty_iff_ne_empty.mpr hne
      obtain ⟨hij, hor⟩ := (hmem j).mp hj
      have hlt := hd _ _ hij
      have hpn := h.mem_range.mp (.inl hi)
      rcases h.mem_range.mpr (hlt.trans hpn) with hj' | hj' | hj' | hj'
      · exact ih j hlt hj'
      · simp [hrunning] at hj'
      · simp [hexecuting] at hj'
      · simp [hdone, hj'] at hor
  rw [← map_eq_nil_iff (f := (·.1))]
  exact eq_nil_iff_forall_not_mem.mpr hnone

theorem queued_once {parent : Parent} {es : List SimEvent} (hd : ∀ i j, d.Edge i j → j < i)
    (hrun : Runs.run (step ts) (start parent txs d) es = some v) :
    ((start parent txs d).runningTxC ++ putsAlong ts (start parent txs d) es).Nodup ∧
    (∀ i ∈ (start parent txs d).runningTxC, ∀ j, ¬d.Edge i j) ∧
    (∀ e v', v.step ts e = some v' → ∀ i ∈ v.puts e, ∀ j, d.Edge i j → j ∈ v'.order) ∧
    (v.runningTxC = [] → v.executing = [] → v.doneTxC = [] →
      ((start parent txs d).runningTxC ++ putsAlong ts (start parent txs d) es).Perm
        (range d.vertexes.length)) := by
  have h : GraphInv d txs v := GraphInv.run hrun
  have h₀ := GraphInv.start parent txs d
  have hparts : (v.dagRemain.map (·.1) ++ ((start parent txs d).runningTxC ++
      putsAlong ts (start parent txs d) es)).Perm (range d.vertexes.length) := by
    refine Perm.trans ((Perm.append_left _ perm_append_comm).trans ?_) h₀.part
    rw [← append_assoc]
    simpa [start] using (putsAlong_perm hrun).append_right (start parent txs d).runningTxC
  refine ⟨(nodup_append.mp (hparts.nodup_iff.mpr nodup_range)).2.1, fun i hi j hij => ?_,
    fun e v' hs i hi => (h.step hs).ready i (mem_runningTxC_of_puts hs hi), fun h1 h2 h3 => ?_⟩
  · exact absurd (h₀.ready i hi j hij) not_mem_nil
  · rw [remain_of_idle h hd h1 h2 h3] at hparts
    exact hparts

def idleScheduler : TxScheduler := ⟨fun _ => .done ⟨0, []⟩ .normal true, noFailedReads, false⟩

def linked : Simulation := start ⟨[], fun _ _ => none⟩ [⟨[1], []⟩, ⟨[2], []⟩] ⟨[[], [0]]⟩

theorem queued_once_linked : ∃ v, Runs.run (step idleScheduler) linked
      [.submit 0, .apply 0, .done 0, .submit 0, .apply 0, .done 0] = some v ∧
    (linked.runningTxC ++ putsAlong idleScheduler linked
      [.submit 0, .apply 0, .done 0, .submit 0, .apply 0, .done 0]).Perm [0, 1] := by
  have hd : ∀ i j, (DAG.mk [[], [0]]).Edge i j → j < i := by
    intro i j hij
    match i, hij with
    | 0, hij => cases hij
    | 1, hij => exact mem_singleton.mp hij ▸ Nat.zero_lt_one
    | i + 2, hij => cases hij
  exact ⟨_, rfl, (queued_once hd rfl).2.2.2 rfl rfl rfl⟩

end Simulation
end ChainMaker.Scheduler
