import ChainMaker.Lib.Runs
import ChainMaker.Tbft.Progress

/-! The goroutine of the time scheduler. Stopping the timer leaves its tick in the channel, where it
stands when the timer is armed for the next timeout. -/

namespace ChainMaker.Tbft
open Option List

namespace TimeoutInfo
variable (t ti : TimeoutInfo)

def position : Position := Tbft.position t.height t.round t.step

def Outdated : Prop :=
  t.height < ti.height ∨ t.height = ti.height ∧ (t.round < ti.round ∨
    t.round = ti.round ∧ t.step.rank ≤ ti.step.rank)
deriving Decidable

end TimeoutInfo

def defaultTimeSchedulerBufferSize : ℕ := 10

/-- The goroutine with its channels and its timer. A tick is given by the timeout that the timer was
armed for: in the channel of the timer, read by the goroutine, and beside the timeout it sent. -/
structure TimerLoop where
  bufferC : List TimeoutInfo
  ti : TimeoutInfo
  armed : Option TimeoutInfo
  timerC : Option TimeoutInfo
  sending : Option TimeoutInfo
  timeoutC : List (TimeoutInfo × TimeoutInfo)

namespace TimerLoop
variable {s s' : TimerLoop}

inductive Event
  | addTimeoutInfo (t : TimeoutInfo)
  | receive
  | expire
  | tick
  | send

def start : TimerLoop := ⟨[], ⟨0, 0, .newHeight⟩, none, none, none, []⟩

def step (s : TimerLoop) : Event → Option TimerLoop
  | .addTimeoutInfo t =>
    if s.bufferC.length < defaultTimeSchedulerBufferSize then
      some { s with bufferC := s.bufferC ++ [t] } else none
  | .receive =>
    match s.sending, s.bufferC with
    | none, t :: rest =>
      if t.Outdated s.ti then some { s with bufferC := rest }
      else some { s with bufferC := rest, ti := t, armed := some t }
    | _, _ => none
  | .expire => s.armed.map fun t => { s with armed := none, timerC := s.timerC <|> some t }
  | .tick =>
    match s.sending, s.timerC with
    | none, some t => some { s with timerC := none, sending := some t }
    | _, _ => none
  | .send => s.sending.map fun t =>
    { s with sending := none, timeoutC := s.timeoutC ++ [(s.ti, t)] }

/-- A timeout replaces another when no tick stands in the channel of the timer. -/
def Drained (s : TimerLoop) : Event → Prop
  | .receive => ∀ t ∈ s.bufferC.head?, t.Outdated s.ti ∨ s.timerC = none
  | _ => True

instance (s : TimerLoop) : ∀ e, Decidable (s.Drained e)
  | .receive => inferInstanceAs (Decidable (∀ t ∈ _, _))
  | .addTimeoutInfo _ | .expire | .tick | .send => .isTrue trivial

structure FiresOnce (s : TimerLoop) : Prop where
  increasing : s.timeoutC.Pairwise fun x y => x.1.position < y.1.position
  own : ∀ x ∈ s.timeoutC, x.2 = x.1

def pending (s : TimerLoop) : List TimeoutInfo :=
  s.armed.toList ++ s.timerC.toList ++ s.sending.toList

/-- At most one tick is under way, for the latest timeout, which then has not been sent. -/
structure InOrder (s : TimerLoop) : Prop where
  fires : s.FiresOnce
  latest : s.pending = [] ∨ s.pending = [s.ti] ∧ ∀ x ∈ s.timeoutC, x.1.position < s.ti.position
  le : ∀ x ∈ s.timeoutC, x.1.position ≤ s.ti.position

lemma InOrder.keeps {e : Event} (h : s.InOrder) (hdrained : s.Drained e)
    (hs : s.step e = some s') : s'.InOrder := by
  have hfires := h.fires
  cases e with
  | addTimeoutInfo t =>
    obtain ⟨-, hs⟩ := ite_none_right_eq_some.mp hs
    cases hs
    exact ⟨{ hfires with }, h.latest, h.le⟩
  | receive =>
    simp only [step] at hs
    split at hs
    case h_2 => cases hs
    case h_1 t rest hsending hbuffer =>
    split at hs
    case isTrue =>
      cases hs
      exact ⟨{ hfires with }, h.latest, h.le⟩
    case isFalse hnew =>
    have htimer : s.timerC = none := (hdrained t (by simp [hbuffer])).resolve_left hnew
    have hlt : s.ti.position < t.position := not_le.mp (mt position_le.mp hnew)
    have hsent : ∀ x ∈ s.timeoutC, x.1.position < t.position := fun x hx => (h.le x hx).trans_lt hlt
    cases hs
    refine ⟨{ hfires with }, .inr ⟨?_, hsent⟩, fun x hx => (hsent x hx).le⟩
    simp [pending, htimer, hsending]
  | expire =>
    obtain ⟨t, harmed, rfl⟩ := map_eq_some_iff.mp hs
    refine ⟨{ hfires with }, ?_, h.le⟩
    have hlatest := h.latest
    cases htimer : s.timerC with
    | none => simpa [pending, harmed, htimer] using hlatest
    | some t' => simp [pending, harmed, htimer] at hlatest
  | tick =>
    simp only [step] at hs
    split at hs
    case h_2 => cases hs
    case h_1 t hsending htimer =>
    cases hs
    have hlatest := h.latest
    refine ⟨{ hfires with }, ?_, h.le⟩
    simpa [pending, hsending, htimer] using hlatest
  | send =>
    obtain ⟨t, hsending, rfl⟩ := map_eq_some_iff.mp hs
    obtain ⟨⟨harmed, htimer, rfl⟩, hsent⟩ : (s.armed = none ∧ s.timerC = none ∧ t = s.ti) ∧
        ∀ x ∈ s.timeoutC, x.1.position < s.ti.position := by
      simpa [pending, hsending, append_eq_singleton_iff] using h.latest
    refine ⟨⟨?_, ?_⟩, ?_, ?_⟩
    · exact pairwise_append.mpr ⟨hfires.increasing, pairwise_singleton _ _, by simpa using hsent⟩
    · exact forall_mem_concat hfires.own rfl
    · exact .inl (by simp [pending, harmed, htimer])
    · exact forall_mem_concat h.le le_rfl

theorem timeouts_fire_once (events : List Event) (s : TimerLoop)
    (hrun : Runs.run step start events = some s)
    (hdrained : Runs.Meets step Drained start events) : s.FiresOnce := by
  have hstart : start.InOrder := ⟨⟨Pairwise.nil, nofun⟩, .inl rfl, nofun⟩
  exact (Runs.run_induction (fun _ _ _ => InOrder.keeps) hstart hdrained hrun).fires

def twoSteps : List Event :=
  [.addTimeoutInfo ⟨1, 0, .propose⟩, .receive, .expire, .tick, .send,
    .addTimeoutInfo ⟨1, 0, .prevote⟩, .receive, .expire, .tick, .send]

theorem timeouts_fire_once_twoSteps : ∃ s, Runs.run step start twoSteps = some s ∧
    s.timeoutC.length = 2 ∧ s.FiresOnce :=
  ⟨_, rfl, rfl, timeouts_fire_once twoSteps _ rfl (by decide)⟩

/-- The tick of the first timeout sends the second one, which its own tick then sends again. -/
theorem timeout_fires_twice : ∃ s,
    Runs.run step start [.addTimeoutInfo ⟨1, 0, .propose⟩, .receive, .expire,
      .addTimeoutInfo ⟨1, 0, .prevote⟩, .receive, .tick, .send, .expire, .tick, .send] = some s ∧
    s.timeoutC = [(⟨1, 0, .prevote⟩, ⟨1, 0, .propose⟩), (⟨1, 0, .prevote⟩, ⟨1, 0, .prevote⟩)] ∧
    ¬s.FiresOnce := by
  refine ⟨_, rfl, rfl, fun h => ?_⟩
  have hown := h.own _ mem_cons_self
  cases hown

end TimerLoop
end ChainMaker.Tbft
