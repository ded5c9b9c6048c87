import ChainMaker.Basic
import ChainMaker.Lib.Runs
import Mathlib.Data.String.Basic

/-! The election of validators of DPoS (`utils.go`). It seeds the generator of the process and
draws from it, twice; a process may run several elections. -/

namespace ChainMaker.Dpos
open Function List

structure CandidateInfo where
  peerId : String
  weight : ℤ
deriving DecidableEq

namespace CandidateInfos

def less (a b : CandidateInfo) : Bool :=
  if a.weight = b.weight then a.peerId < b.peerId else b.weight < a.weight

def sort (infos : List CandidateInfo) : List CandidateInfo :=
  infos.insertionSort fun a b => !less b a

lemma not_less_iff {a b : CandidateInfo} : (!less b a) = true ↔
    b.weight < a.weight ∨ a.weight = b.weight ∧ a.peerId ≤ b.peerId := by
  unfold less
  split <;> rename_i h <;> rw [Bool.not_eq_true', decide_eq_false_iff_not, not_lt]
  · simp [h]
  · simp [Ne.symm h, lt_iff_le_and_ne, h]

lemma sort_perm (infos : List CandidateInfo) : (sort infos).Perm infos := perm_insertionSort _ infos

/-- No two candidates are equal in the order, so that the result of `Sort` is determined. -/
lemma sort_congr {infos infos' : List CandidateInfo} (h : infos.Perm infos') :
    sort infos = sort infos' := by
  have : Std.Total fun a b => (!less b a) = true := by
    refine ⟨fun a b => ?_⟩
    simp only [not_less_iff]
    grind
  have : IsTrans _ fun a b => (!less b a) = true := by
    refine ⟨fun a b c => ?_⟩
    simp only [not_less_iff]
    grind
  refine ((sort_perm _).trans (h.trans (sort_perm _).symm)).eq_of_pairwise ?_
    (pairwise_insertionSort _ _) (pairwise_insertionSort _ _)
  rintro ⟨id, weight⟩ ⟨id', weight'⟩ - - hab hba
  rw [not_less_iff] at hab hba
  grind

end CandidateInfos

/-! ### The generator -/

structure Source (σ : Type) where
  seed : ℤ → σ
  int63 : σ → ℕ × σ

def drawBelow (bits n v : ℕ) : Option ℕ :=
  if n &&& (n - 1) = 0 then some (v &&& (n - 1))
  else if 2 ^ bits - 1 - 2 ^ bits % n < v then none
  else some (v % n)

def intn (n x : ℕ) : Option ℕ :=
  if n ≤ 2 ^ 31 - 1 then drawBelow 31 n (x / 2 ^ 32) else drawBelow 63 n x

/-- One turn of the loop of `Perm`: the next number goes to the place that was drawn, and what
was there to the end. -/
def place (m : List ℕ) (j : ℕ) : List ℕ := (m ++ [m.getD j m.length]).set j m.length

/-! ### One election -/

structure MapOrder where
  walk : List ℕ → List ℕ
  perm : ∀ keys, (walk keys).Perm keys

structure Call where
  infos : List CandidateInfo
  n : ℤ
  seed : Bytes
  outSort : Bool
  order : MapOrder

inductive Outcome
  | validators (infos : List CandidateInfo)
  | zeroValidators
  | notEnoughCandidates
  | panic
deriving DecidableEq

/-- Where a call stands: before a seeding, within the draws of a permutation, or at its end.
Before the second seeding the places of the first selection are known. -/
inductive Phase
  | seeding (selected : Option (List ℕ))
  | drawing (selected : Option (List ℕ)) (m : List ℕ)
  | done (outcome : Outcome)
deriving DecidableEq

def Phase.isDrawing : Phase → Bool
  | .drawing _ _ => true
  | _ => false

def distributionM (m n : ℕ) : ℕ × ℕ := (n, m - n)

def distributionN (n : ℕ) : ℕ × ℕ := (n / 2, n - n / 2)

namespace Call
variable (c : Call)

def sorted : List CandidateInfo := CandidateInfos.sort c.infos

def seedInt : ℤ :=
  Int.bmod ((c.seed.take 8).foldr (fun b x => b.toNat + 256 * x) 0 : ℕ) (2 ^ 64)

def start : Phase :=
  if c.n = 0 then .done .zeroValidators
  else if c.infos.length < c.n then .done .notEnoughCandidates
  else if c.n = c.infos.length then .done (.validators c.infos)
  else if c.seed.length < 8 then .done .panic
  else .seeding none

def newSelectArray (selected : List ℕ) : List CandidateInfo :=
  (c.sorted.zipIdx.filter fun e => !selected.contains e.2).map (·.1)

def permLength : Option (List ℕ) → ℕ
  | none => (distributionM c.infos.length c.n.toNat).1
  | some selected => (c.newSelectArray selected).length

def elected (selected m : List ℕ) : List CandidateInfo :=
  let validators := (c.order.walk selected).filterMap (c.sorted[·]?) ++
    (m.take (distributionN c.n.toNat).2).filterMap ((c.newSelectArray selected)[·]?)
  if c.outSort then CandidateInfos.sort validators else validators

def finish (m : List ℕ) : Option (List ℕ) → Phase
  | none => .seeding (some (m.take (distributionN c.n.toNat).1))
  | some selected => .done (.validators (c.elected selected m))

variable {σ : Type} (src : Source σ)

/-- The next step on the generator. A negative number of validators is found out when the
permutation is made, after the seeding. -/
def step : Phase → σ → Phase × σ
  | .seeding selected, _ =>
    (if c.n < 0 then .done .panic else .drawing selected [], src.seed c.seedInt)
  | .drawing selected m, s =>
    let (x, s) := src.int63 s
    match intn (m.length + 1) x with
    | none => (.drawing selected m, s)
    | some j =>
      let m := place m j
      (if m.length = c.permLength selected then c.finish m selected else .drawing selected m, s)
  | .done outcome, s => (.done outcome, s)

def alone (s : σ) : ℕ → Phase × σ
  | 0 => (c.start, s)
  | k + 1 => c.step src (alone s k).1 (alone s k).2

lemma step_congr (c : Call) (src : Source σ) {phase : Phase} {s s' : σ}
    (h : phase.isDrawing = true → s = s') : (c.step src phase s).1 = (c.step src phase s').1 ∧
      ((c.step src phase s).1.isDrawing = true →
        (c.step src phase s).2 = (c.step src phase s').2) := by
  cases phase with
  | seeding selected => exact ⟨rfl, fun _ => rfl⟩
  | drawing selected m =>
    obtain rfl := h rfl
    exact ⟨rfl, fun _ => rfl⟩
  | done outcome => exact ⟨rfl, fun hdrawing => by cases hdrawing⟩

end Call

/-! ### What an election selects -/

lemma place_perm (m : List ℕ) (j : ℕ) : (place m j).Perm (m ++ [m.length]) := by
  unfold place
  rw [getD_eq_getElem?_getD]
  obtain hj | hj := lt_or_ge j m.length
  · rw [set_append_left _ _ hj]
    exact (perm_append_singleton _ _).trans
      ((getD_set_perm_cons m j _).trans (perm_append_singleton _ _).symm)
  · rw [set_append_right _ _ hj, getElem?_eq_none hj, Option.getD_none]
    cases j - m.length <;> rfl

section
variable {l : List CandidateInfo} {js : List ℕ}

lemma nodup_picked (hl : l.Nodup) (hjs : js.Nodup) : (js.filterMap (l[·]?)).Nodup := by
  refine hjs.filterMap fun i j a hi hj => ?_
  obtain ⟨hi, rfl⟩ := List.getElem?_eq_some_iff.mp hi
  obtain ⟨hj, heq⟩ := List.getElem?_eq_some_iff.mp hj
  exact (hl.getElem_inj_iff.mp heq).symm

lemma length_picked (h : ∀ j ∈ js, j < l.length) : (js.filterMap (l[·]?)).length = js.length := by
  rw [length_filterMap_eq_countP, countP_eq_length]
  exact fun j hj => by simpa using h j hj

end

namespace Call
open CandidateInfos
variable {c : Call} {selected m : List ℕ}

lemma sorted_perm : c.sorted.Perm c.infos := sort_perm _

lemma mem_newSelectArray {v : CandidateInfo} :
    v ∈ c.newSelectArray selected ↔ ∃ i ∉ selected, c.sorted[i]? = some v := by
  simp [newSelectArray, mem_zipIdx_iff_getElem?, and_comm]

lemma newSelectArray_sublist : (c.newSelectArray selected).Sublist c.sorted := by
  have hsub := (filter_sublist (p := fun e => !selected.contains e.2)
    (l := c.sorted.zipIdx)).map Prod.fst
  rwa [zipIdx_map_fst] at hsub

lemma length_newSelectArray (selected : List ℕ) (hsorted : c.sorted.Nodup) :
    c.infos.length ≤ (c.newSelectArray selected).length + selected.length := by
  have hsub : c.sorted ⊆ c.newSelectArray selected ++ selected.filterMap (c.sorted[·]?) := by
    intro v hv
    obtain ⟨i, hi⟩ := getElem?_of_mem hv
    by_cases hmem : i ∈ selected
    · exact mem_append_right _ (mem_filterMap.mpr ⟨i, hmem, hi⟩)
    · exact mem_append_left _ (mem_newSelectArray.mpr ⟨i, hmem, hi⟩)
  have hle := (subperm_of_subset hsorted hsub).length_le
  rw [sorted_perm.length_eq, length_append] at hle
  exact hle.trans (Nat.add_le_add_left (length_filterMap_le _ _) _)

/-- The candidates of both selections, before they are sorted. -/
def drawn (c : Call) (selected m : List ℕ) : List CandidateInfo :=
  selected.filterMap (c.sorted[·]?) ++
    (m.take (distributionN c.n.toNat).2).filterMap ((c.newSelectArray selected)[·]?)

lemma elected_eq (h : c.outSort = true) :
    c.elected selected m = sort (c.drawn selected m) := by
  rw [elected, if_pos h]
  exact sort_congr (((c.order.perm selected).filterMap _).append_right _)

lemma drawn_subset : c.drawn selected m ⊆ c.sorted := by
  refine append_subset.mpr ⟨fun v hv => ?_, fun v hv => ?_⟩ <;>
    obtain ⟨i, -, hi⟩ := mem_filterMap.mp hv
  · exact mem_of_getElem? hi
  · exact newSelectArray_sublist.mem (mem_of_getElem? hi)

lemma nodup_drawn (hsorted : c.sorted.Nodup) (hselected : selected.Nodup) (hm : m.Nodup) :
    (c.drawn selected m).Nodup := by
  refine nodup_append.mpr ⟨nodup_picked hsorted hselected,
    nodup_picked (hsorted.sublist newSelectArray_sublist) hm.take, ?_⟩
  -- The places of the two selections differ, and no candidate stands at two places.
  rintro v hv _ hv' rfl
  obtain ⟨i, hi, hiv⟩ := mem_filterMap.mp hv
  obtain ⟨k, -, hk⟩ := mem_filterMap.mp hv'
  obtain ⟨j, hj, hjv⟩ := mem_newSelectArray.mp (mem_of_getElem? hk)
  obtain ⟨hilt, rfl⟩ := List.getElem?_eq_some_iff.mp hiv
  obtain ⟨hjlt, heq⟩ := List.getElem?_eq_some_iff.mp hjv
  exact hj (hsorted.getElem_inj_iff.mp heq ▸ hi)

/-- So many candidates of the list, each once, and half of them of those that come first. -/
structure Selects (c : Call) (validators : List CandidateInfo) : Prop where
  length : validators.length = c.n
  distinct : (validators.map (·.peerId)).Nodup
  subset : validators ⊆ c.infos
  best : c.n.toNat / 2 ≤ validators.countP (· ∈ c.sorted.take c.n.toNat)

lemma selects_elected {m₀ : List ℕ} (hids : (c.infos.map (·.peerId)).Nodup)
    (hlt : c.n < c.infos.length) (hsort : c.outSort = true) (hpos : 0 < c.n)
    (hm₀ : m₀.Perm (range c.n.toNat)) (hselected : selected = m₀.take (c.n.toNat / 2))
    (hm : m.Perm (range (c.newSelectArray selected).length)) :
    c.Selects (c.elected selected m) := by
  have hnodup : c.sorted.Nodup := sorted_perm.nodup_iff.mpr hids.of_map
  have hsize : selected.length = c.n.toNat / 2 := by
    rw [hselected, length_take, hm₀.length_eq, length_range]
    omega
  have hplace : ∀ i ∈ selected, i < c.n.toNat := fun i hi =>
    mem_range.mp (hm₀.mem_iff.mp (mem_of_mem_take (hselected ▸ hi)))
  have hfirst : (selected.filterMap (c.sorted[·]?)).length = c.n.toNat / 2 := by
    rw [length_picked, hsize]
    intro i hi
    have hi := hplace i hi
    rw [sorted_perm.length_eq]
    omega
  have hperm : (c.elected selected m).Perm (c.drawn selected m) :=
    elected_eq hsort ▸ sort_perm _
  have hsubset : c.elected selected m ⊆ c.infos := fun v hv =>
    sorted_perm.mem_iff.mp (drawn_subset (hperm.mem_iff.mp hv))
  refine ⟨?_, ?_, hsubset, ?_⟩
  · have hleft := length_newSelectArray selected hnodup
    rw [hperm.length_eq, drawn, length_append, hfirst, length_picked, length_take,
      hm.length_eq, length_range, distributionN]
    · dsimp only
      omega
    · exact fun k hk => mem_range.mp (hm.mem_iff.mp (mem_of_mem_take hk))
  · have hdrawn : (c.drawn selected m).Nodup := nodup_drawn hnodup
      (hselected ▸ (hm₀.nodup_iff.mpr nodup_range).take) (hm.nodup_iff.mpr nodup_range)
    exact (hperm.nodup_iff.mpr hdrawn).map_on fun v hv w hw h =>
      inj_on_of_nodup_map hids (hsubset hv) (hsubset hw) h
  · rw [hperm.countP_eq, drawn, countP_append, countP_eq_length.mpr, hfirst]
    · exact Nat.le_add_right _ _
    · intro v hv
      obtain ⟨i, hi, hiv⟩ := mem_filterMap.mp hv
      rw [← getElem?_take_of_lt (hplace i hi)] at hiv
      exact decide_eq_true (mem_of_getElem? hiv)

end Call

variable {σ : Type} {src : Source σ}

/-- One draw of `Perm`, if the generator's value is one that is used. -/
def draw (src : Source σ) (p : List ℕ × σ) : List ℕ × σ :=
  ((intn (p.1.length + 1) (src.int63 p.2).1).elim p.1 (place p.1), (src.int63 p.2).2)

/-- After the generator was seeded, `Perm` of any length returns. -/
def Source.Returns (src : Source σ) (seed : ℤ) : Prop :=
  ∀ k, ∃ j, ((draw src)^[j] ([], src.seed seed)).1.length = k

namespace Call
open CandidateInfos
variable {c : Call} {selected : Option (List ℕ)} {s : σ}

lemma alone_finish {k j : ℕ} {p : List ℕ × σ}
    (hk : c.alone src s k = (.drawing selected p.1, p.2)) (hp : p.1.Perm (range p.1.length))
    (hlt : p.1.length < c.permLength selected)
    (hj : ((draw src)^[j] p).1.length = c.permLength selected) :
    ∃ k' m s', c.alone src s k' = (c.finish m selected, s') ∧
      m.Perm (range (c.permLength selected)) := by
  induction j generalizing k p with
  | zero => exact absurd hj hlt.ne
  | succ j ih =>
    rw [iterate_succ_apply] at hj
    have hstep : c.alone src s (k + 1) = c.step src (.drawing selected p.1) p.2 := by
      rw [alone, hk]
    cases hx : intn (p.1.length + 1) (src.int63 p.2).1 with
    | none =>
      rw [draw, hx, Option.elim_none] at hj
      simp only [step, hx] at hstep
      exact ih (p := (p.1, (src.int63 p.2).2)) hstep hp hlt hj
    | some i =>
      have hplace := (place_perm p.1 i).trans (hp.append_right _)
      rw [← range_succ] at hplace
      have hlength := hplace.length_eq.trans length_range
      rw [draw, hx, Option.elim_some] at hj
      simp only [step, hx, hlength] at hstep
      split_ifs at hstep with hend
      · exact ⟨k + 1, _, _, hstep, hend ▸ hplace⟩
      · exact ih (p := (place p.1 i, _)) hstep (hlength.symm ▸ hplace) (by dsimp only; omega) hj

lemma alone_selects (hsrc : src.Returns c.seedInt) (hids : (c.infos.map (·.peerId)).Nodup)
    (hpos : 0 < c.n) (hlt : c.n < c.infos.length) (hsort : c.outSort = true)
    (hstart : c.start = .seeding none) (s : σ) :
    ∃ k validators, (c.alone src s k).1 = .done (.validators validators) ∧
      c.Selects validators := by
  have hperm : ∀ k selected s', c.alone src s k = (.seeding selected, s') →
      0 < c.permLength selected → ∃ k' m s', c.alone src s k' = (c.finish m selected, s') ∧
        m.Perm (range (c.permLength selected)) := by
    intro k selected s' hk hlength
    obtain ⟨j, hj⟩ := hsrc (c.permLength selected)
    refine alone_finish (k := k + 1) (p := ([], _)) ?_ (.refl _) hlength hj
    rw [alone, hk, step, if_neg (by omega)]
  obtain ⟨k₀, m₀, s₀, hk₀, hm₀⟩ := hperm 0 none s (by rw [alone, hstart])
    (by rw [permLength, distributionM]; dsimp only; omega)
  have hleft := length_newSelectArray (m₀.take (c.n.toNat / 2))
    (sorted_perm.nodup_iff.mpr hids.of_map)
  rw [length_take] at hleft
  obtain ⟨k, m, s', hk, hm⟩ := hperm k₀ _ s₀ hk₀ (by
    rw [permLength, distributionN]
    dsimp only
    omega)
  exact ⟨k, _, congrArg Prod.fst hk, selects_elected hids hlt hsort hpos hm₀ rfl hm⟩

/-- The same call, with the candidates and the keys of the map in another order. -/
def reordered (c : Call) (infos : List CandidateInfo) (order : MapOrder) : Call :=
  { c with infos, order }

lemma alone_reordered {infos : List CandidateInfo} {order : MapOrder} (h : infos.Perm c.infos)
    (hsort : c.outSort = true) (hstart : (c.reordered infos order).start = c.start) (s : σ) :
    (c.reordered infos order).alone src s = c.alone src s := by
  have hsorted : (c.reordered infos order).sorted = c.sorted := sort_congr h
  have harray : (c.reordered infos order).newSelectArray = c.newSelectArray := by
    funext selected
    rw [newSelectArray, newSelectArray, hsorted]
  have hstep : (c.reordered infos order).step src = c.step src := by
    funext phase s
    cases phase with
    | seeding selected => rfl
    | drawing selected m =>
      cases selected with
      | none => rfl
      | some selected =>
        have helected : (c.reordered infos order).elected selected = c.elected selected := by
          funext m
          rw [elected_eq hsort, elected_eq (c := c.reordered infos order) hsort, drawn, drawn,
            hsorted, harray]
          rfl
        simp only [step, permLength, finish, harray, helected]
        rfl
    | done outcome => rfl
  funext k
  induction k with
  | zero => rw [alone, alone, hstart]
  | succ k ih => rw [alone, alone, ih, hstep]

end Call

theorem election_selects (src : Source σ) (c : Call) (hsrc : src.Returns c.seedInt)
    (hids : (c.infos.map (·.peerId)).Nodup) (hpos : 0 < c.n) (hle : c.n ≤ c.infos.length)
    (hseed : 8 ≤ c.seed.length) (hsort : c.outSort = true) (s : σ) :
    ∃ validators, (∃ k, (c.alone src s k).1 = .done (.validators validators)) ∧
      c.Selects validators ∧ ∀ infos order, infos.Perm c.infos → ∃ validators',
        (∃ k, ((c.reordered infos order).alone src s k).1 = .done (.validators validators')) ∧
        validators'.Perm validators ∧ (infos = c.infos → validators' = validators) := by
  have hstart : ∀ infos order, infos.Perm c.infos → (c.reordered infos order).start =
      if c.n = c.infos.length then .done (.validators infos) else .seeding none := by
    intro infos order h
    simp only [Call.start, Call.reordered, h.length_eq, if_neg hpos.ne', if_neg hle.not_gt]
    split
    · rfl
    · exact if_neg hseed.not_gt
  have hstart₀ := hstart c.infos c.order (.refl _)
  by_cases hall : c.n = c.infos.length
  · refine ⟨c.infos, ⟨0, ?_⟩, ⟨hall.symm, hids, fun _ h => h, ?_⟩, fun infos order h =>
      ⟨infos, ⟨0, ?_⟩, h, fun h => h⟩⟩
    · exact hstart₀.trans (if_pos hall)
    · rw [countP_eq_length.mpr]
      · omega
      · intro v hv
        rw [take_of_length_le (by rw [Call.sorted_perm.length_eq]; omega)]
        exact decide_eq_true (Call.sorted_perm.mem_iff.mpr hv)
    · exact (hstart infos order h).trans (if_pos hall)
  · simp only [if_neg hall] at hstart hstart₀
    obtain ⟨k, validators, hk, hselects⟩ :=
      Call.alone_selects hsrc hids hpos (by omega) hsort hstart₀ s
    refine ⟨validators, ⟨k, hk⟩, hselects, fun infos order h =>
      ⟨validators, ⟨k, ?_⟩, .refl _, fun _ => rfl⟩⟩
    rw [Call.alone_reordered h hsort ((hstart infos order h).trans hstart₀.symm), hk]

def twoOfThree : Call where
  infos := [⟨"a", 3⟩, ⟨"b", 2⟩, ⟨"c", 1⟩]
  n := 2
  seed := replicate 8 0
  outSort := true
  order := ⟨id, .refl⟩

/-- A generator that always gives 0. -/
def steady : Source Unit := ⟨fun _ => (), fun s => (0, s)⟩

lemma steady_returns (seed : ℤ) : steady.Returns seed := by
  have hdraw (p : List ℕ × Unit) : (draw steady p).1.length = p.1.length + 1 := by
    simp only [draw, steady, intn, drawBelow]
    split_ifs <;> simp_all [place]
  refine fun k => ⟨k, ?_⟩
  induction k with
  | zero => rfl
  | succ k ih => rw [iterate_succ_apply', hdraw, ih]

theorem election_selects_two :
    ∃ validators, (∃ k, (twoOfThree.alone steady () k).1 = .done (.validators validators)) ∧
      twoOfThree.Selects validators :=
  have ⟨validators, hdone, hselects, _⟩ := election_selects steady twoOfThree (steady_returns _)
    (by decide) (by decide) (by decide) (by decide) rfl ()
  ⟨validators, hdone, hselects⟩

/-! ### Elections in one process -/

structure Process (ι σ : Type) where
  phases : ι → Phase
  source : σ

namespace Process
variable {ι σ : Type} [DecidableEq ι] (src : Source σ) (calls : ι → Call)

def init (s : σ) : Process ι σ := ⟨fun i => (calls i).start, s⟩

def step (p : Process ι σ) (i : ι) : Option (Process ι σ) :=
  match p.phases i with
  | .done _ => none
  | phase =>
    let (phase, source) := (calls i).step src phase p.source
    some ⟨update p.phases i phase, source⟩

/-- No other call is within the draws of a permutation. -/
def Undisturbed (p : Process ι σ) (i : ι) : Prop := ∀ j, j ≠ i → (p.phases j).isDrawing = false

instance [Fintype ι] (p : Process ι σ) (i : ι) : Decidable (p.Undisturbed i) :=
  inferInstanceAs (Decidable (∀ j, j ≠ i → (p.phases j).isDrawing = false))

variable {src calls}

lemma step_eq {p p' : Process ι σ} {i : ι} (h : step src calls p i = some p') :
    p' = ⟨update p.phases i ((calls i).step src (p.phases i) p.source).1,
      ((calls i).step src (p.phases i) p.source).2⟩ := by
  unfold step at h
  split at h
  · cases h
  · exact (Option.some.inj h).symm

/-- Every call is where it would be alone after as many steps, and so is the generator for a
call that draws. -/
structure AsAlone (src : Source σ) (calls : ι → Call) (s : σ) (count : ι → ℕ)
    (p : Process ι σ) : Prop where
  phase : ∀ i, p.phases i = ((calls i).alone src s (count i)).1
  source : ∀ i, (p.phases i).isDrawing = true → p.source = ((calls i).alone src s (count i)).2

omit [DecidableEq ι] in
lemma AsAlone.init (s s₀ : σ) : AsAlone src calls s (fun _ => 0) (init calls s₀) where
  phase := fun _ => rfl
  source := by
    intro i hdrawing
    simp only [Process.init, Call.start] at hdrawing
    split_ifs at hdrawing <;> cases hdrawing

lemma AsAlone.step {s : σ} {count : ι → ℕ} {p p' : Process ι σ} {i : ι}
    (h : AsAlone src calls s count p) (hundisturbed : p.Undisturbed i)
    (hstep : step src calls p i = some p') :
    AsAlone src calls s (update count i (count i + 1)) p' := by
  have hcongr := (calls i).step_congr src (h.source i)
  obtain rfl := step_eq hstep
  have halone : (calls i).step src (p.phases i) ((calls i).alone src s (count i)).2 =
      (calls i).alone src s (count i + 1) := by
    rw [h.phase i]
    rfl
  rw [halone] at hcongr
  constructor
  · intro j
    by_cases hj : j = i
    · subst hj
      simpa using hcongr.1
    · simpa [hj] using h.phase j
  · intro j hdrawing
    by_cases hj : j = i
    · subst hj
      simp only [update_self] at hdrawing ⊢
      exact hcongr.2 hdrawing
    · simp only [update_of_ne hj, hundisturbed j hj] at hdrawing
      cases hdrawing

theorem elections_asAlone (src : Source σ) (calls : ι → Call) (s₀ s : σ) (schedule : List ι)
    (p : Process ι σ) (hrun : Runs.run (step src calls) (init calls s₀) schedule = some p)
    (hundisturbed : Runs.Meets (step src calls) Undisturbed (init calls s₀) schedule) (i : ι) :
    p.phases i = ((calls i).alone src s (schedule.count i)).1 := by
  have hfrom : ∀ (schedule : List ι) (count : ι → ℕ) (q : Process ι σ),
      AsAlone src calls s count q → Runs.run (step src calls) q schedule = some p →
      Runs.Meets (step src calls) Undisturbed q schedule →
      AsAlone src calls s (fun i => count i + schedule.count i) p := by
    intro schedule
    induction schedule with
    | nil =>
      intro count q hq hrun _
      cases hrun
      exact hq
    | cons j schedule ih =>
      intro count q hq hrun hmeets
      obtain ⟨q', hstep, hrun⟩ := Runs.run_cons.mp hrun
      obtain ⟨hundisturbed, hmeets⟩ := hmeets
      rw [hstep] at hmeets
      have hnext := ih _ q' (hq.step hundisturbed hstep) hrun hmeets
      have hcount : (fun i => update count j (count j + 1) i + schedule.count i) =
          fun i => count i + (j :: schedule).count i := by
        funext k
        by_cases hk : k = j
        · subst hk
          simp only [update_self, count_cons_self]
          omega
        · rw [update_of_ne hk, count_cons_of_ne (Ne.symm hk)]
      rwa [hcount] at hnext
  have hend := (hfrom schedule _ _ (.init s s₀) hrun hundisturbed).phase i
  simpa using hend

def counting : Source ℕ := ⟨Int.toNat, fun s => (s * 2 ^ 32, s + 1)⟩

/-- Alone the call elects `a` and `b`; when another call seeds the generator before the last draw,
it elects `a` and `c`. -/
theorem elections_interfere :
    (twoOfThree.alone counting 0 6).1 = .done (.validators [⟨"a", 3⟩, ⟨"b", 2⟩]) ∧
      (Runs.run (step counting fun _ : Bool => twoOfThree) (init (fun _ => twoOfThree) 0)
        [false, false, false, false, false, true, false]).map (·.phases false) =
          some (.done (.validators [⟨"a", 3⟩, ⟨"c", 1⟩])) := by
  decide +kernel

theorem elections_asAlone_between :
    ∃ p, Runs.run (step counting fun _ : Bool => twoOfThree) (init (fun _ => twoOfThree) 0)
        [false, false, false, true, true, true, false, false, false] = some p ∧
      p.phases false = .done (.validators [⟨"a", 3⟩, ⟨"b", 2⟩]) := by
  refine ⟨_, Option.eq_some_of_isSome (by decide +kernel), ?_⟩
  rw [elections_asAlone counting (fun _ : Bool => twoOfThree) 0 0 _ _ (Option.eq_some_of_isSome _)
    (by decide +kernel) false]
  decide +kernel

end Process
end ChainMaker.Dpos
