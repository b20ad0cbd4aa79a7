/-! # Simulations of deterministic systems

A system takes one step at a time and emits at most one event with each. Two
systems have the same traces when each step of the first is matched by one
step of the second with the same event, or, if it emits none, by one or more
steps that emit none.
-/

namespace BpfBackend.Simulation

universe u v w

/-- A step emits an event or nothing; a halted configuration takes none. -/
abbrev StepFunction (Config : Type u) (Event : Type v) :=
  Config → Option (Option Event × Config)

variable {Config : Type u} {OtherConfig : Type w} {Event : Type v}

def events (step : StepFunction Config Event) : Nat → Config → List Event
  | 0, _ => []
  | count + 1, config =>
      match step config with
      | none => []
      | some (event, next) => event.toList ++ events step count next

def HasTrace (step : StepFunction Config Event) (config : Config) (trace : List Event) : Prop :=
  ∃ count, events step count config = trace

inductive Silent (step : StepFunction Config Event) : Nat → Config → Config → Prop where
  | refl (config : Config) : Silent step 0 config config
  | head {count : Nat} {config next final : Config} :
      step config = some (none, next) → Silent step count next final →
      Silent step (count + 1) config final

inductive Reaches (step : StepFunction Config Event) :
    Config → List Event → Config → Prop where
  | refl (config : Config) : Reaches step config [] config
  | head {config next final : Config} {event : Option Event} {trace : List Event} :
      step config = some (event, next) → Reaches step next trace final →
      Reaches step config (event.toList ++ trace) final

theorem events_of_halted {step : StepFunction Config Event} {config : Config}
    (halted : step config = none) (count : Nat) : events step count config = [] := by
  cases count with
  | zero => rfl
  | succ count => rw [events, halted]

theorem events_succ {step : StepFunction Config Event} {config next : Config}
    {event : Option Event} (steps : step config = some (event, next)) (count : Nat) :
    events step (count + 1) config = event.toList ++ events step count next := by
  rw [events, steps]

theorem Silent.events_add {step : StepFunction Config Event} {count : Nat}
    {config final : Config} (silent : Silent step count config final) (further : Nat) :
    events step (count + further) config = events step further final := by
  induction silent with
  | refl config => rw [Nat.zero_add]
  | head steps rest induction =>
      rw [Nat.add_right_comm, events_succ steps, induction]
      rfl

theorem Silent.events_of_le {step : StepFunction Config Event} {count : Nat}
    {config final : Config} (silent : Silent step count config final) {fewer : Nat}
    (atMost : fewer ≤ count) : events step fewer config = [] := by
  induction silent generalizing fewer with
  | refl config =>
      rw [Nat.le_zero.mp atMost]
      rfl
  | head steps rest induction =>
      cases fewer with
      | zero => rfl
      | succ fewer =>
          rw [events_succ steps, induction (Nat.le_of_succ_le_succ atMost)]
          rfl

def Always (step : StepFunction Config Event) (holds : Config → Prop) (config : Config) : Prop :=
  ∀ trace reached, Reaches step config trace reached → holds reached

theorem Always.here {step : StepFunction Config Event} {holds : Config → Prop}
    {config : Config} (always : Always step holds config) : holds config :=
  always [] config (.refl config)

theorem Always.next {step : StepFunction Config Event} {holds : Config → Prop}
    {config next : Config} {event : Option Event} (always : Always step holds config)
    (steps : step config = some (event, next)) : Always step holds next :=
  fun _ reached reaches => always _ reached (.head steps reaches)

/-- What holds at the start and is kept by every step always holds. -/
theorem Always.of_kept {step : StepFunction Config Event} {holds : Config → Prop}
    (kept : ∀ {config next event}, holds config → step config = some (event, next) → holds next)
    {config : Config} (here : holds config) : Always step holds config := by
  intro trace reached reaches
  induction reaches with
  | refl config => exact here
  | head steps rest induction => exact induction (kept here steps)

theorem Always.mono {step : StepFunction Config Event} {holds weaker : Config → Prop}
    (implies : ∀ config, holds config → weaker config) {config : Config}
    (always : Always step holds config) : Always step weaker config :=
  fun trace reached reaches => implies reached (always trace reached reaches)

/-- Related configurations halt together, and the steps of the first are
matched by the second. -/
structure Simulates (step : StepFunction Config Event) (otherStep : StepFunction OtherConfig Event)
    (Related : Config → OtherConfig → Prop) : Prop where
  halts : ∀ {config other}, Related config other → step config = none →
    otherStep other = none
  advances : ∀ {config other event next}, Related config other →
    step config = some (event, next) →
    (∃ otherNext, otherStep other = some (event, otherNext) ∧ Related next otherNext) ∨
    (event = none ∧ ∃ count otherNext,
      Silent otherStep (count + 1) other otherNext ∧ Related next otherNext)

section Traces

variable {step : StepFunction Config Event} {otherStep : StepFunction OtherConfig Event}
variable {Related : Config → OtherConfig → Prop}

theorem Simulates.forward (simulates : Simulates step otherStep Related) (count : Nat)
    {config : Config} {other : OtherConfig} (related : Related config other) :
    HasTrace otherStep other (events step count config) := by
  induction count generalizing config other with
  | zero => exact ⟨0, rfl⟩
  | succ count induction =>
      cases steps : step config with
      | none => exact ⟨0, (events_of_halted steps _).symm⟩
      | some result =>
          rcases result with ⟨event, next⟩
          rw [events_succ steps]
          rcases simulates.advances related steps with
            ⟨otherNext, otherSteps, nextRelated⟩ |
            ⟨rfl, silentCount, otherNext, silent, nextRelated⟩
          · rcases induction nextRelated with ⟨further, trace⟩
            exact ⟨further + 1, by rw [events_succ otherSteps, trace]⟩
          · rcases induction nextRelated with ⟨further, trace⟩
            exact ⟨silentCount + 1 + further, (silent.events_add further).trans trace⟩

/-- The induction is on the number of steps of the second system: each step of
the first accounts for at least one of them. -/
theorem Simulates.backward (simulates : Simulates step otherStep Related) (count : Nat)
    {config : Config} {other : OtherConfig} (related : Related config other) :
    HasTrace step config (events otherStep count other) := by
  induction count using Nat.strongRecOn generalizing config other with
  | ind count induction =>
      cases steps : step config with
      | none =>
          rw [events_of_halted (simulates.halts related steps)]
          exact ⟨0, rfl⟩
      | some result =>
          rcases result with ⟨event, next⟩
          rcases simulates.advances related steps with
            ⟨otherNext, otherSteps, nextRelated⟩ |
            ⟨rfl, silentCount, otherNext, silent, nextRelated⟩
          · cases count with
            | zero => exact ⟨0, rfl⟩
            | succ count =>
                rcases induction count (Nat.lt_succ_self count) nextRelated with
                  ⟨further, trace⟩
                exact ⟨further + 1, by rw [events_succ steps, events_succ otherSteps, trace]⟩
          · by_cases atMost : count ≤ silentCount + 1
            · rw [silent.events_of_le atMost]
              exact ⟨0, rfl⟩
            · rcases induction (count - (silentCount + 1)) (by omega) nextRelated with
                ⟨further, trace⟩
              have split : count = silentCount + 1 + (count - (silentCount + 1)) := by omega
              rw [split, silent.events_add]
              exact ⟨further + 1, (events_succ steps further).trans trace⟩

theorem Simulates.hasTrace_iff (simulates : Simulates step otherStep Related)
    {config : Config} {other : OtherConfig} (related : Related config other)
    (trace : List Event) : HasTrace step config trace ↔ HasTrace otherStep other trace := by
  constructor
  · intro holds
    rcases holds with ⟨count, rfl⟩
    exact simulates.forward count related
  · intro holds
    rcases holds with ⟨count, rfl⟩
    exact simulates.backward count related

end Traces

/-! ## Silent steps before each step

The second system may first take steps that emit nothing. -/

/-- Related configurations halt together, and each step of the first is matched
by the same step of the second after silent ones. -/
structure WeaklySimulates (step : StepFunction Config Event)
    (otherStep : StepFunction OtherConfig Event)
    (Related : Config → OtherConfig → Prop) : Prop where
  halts : ∀ {config other}, Related config other → step config = none →
    otherStep other = none
  advances : ∀ {config other event next}, Related config other →
    step config = some (event, next) → ∃ count middle otherNext,
      Silent otherStep count other middle ∧
      otherStep middle = some (event, otherNext) ∧ Related next otherNext

section WeakTraces

variable {step : StepFunction Config Event} {otherStep : StepFunction OtherConfig Event}
variable {Related : Config → OtherConfig → Prop}

theorem WeaklySimulates.forward (simulates : WeaklySimulates step otherStep Related)
    (count : Nat) {config : Config} {other : OtherConfig} (related : Related config other) :
    HasTrace otherStep other (events step count config) := by
  induction count generalizing config other with
  | zero => exact ⟨0, rfl⟩
  | succ count induction =>
      cases steps : step config with
      | none => exact ⟨0, (events_of_halted steps _).symm⟩
      | some result =>
          rcases result with ⟨event, next⟩
          rcases simulates.advances related steps with
            ⟨silentCount, middle, otherNext, silent, otherSteps, nextRelated⟩
          rcases induction nextRelated with ⟨further, trace⟩
          refine ⟨silentCount + (further + 1), ?_⟩
          rw [silent.events_add, events_succ otherSteps, events_succ steps, trace]

theorem WeaklySimulates.backward (simulates : WeaklySimulates step otherStep Related)
    (count : Nat) {config : Config} {other : OtherConfig} (related : Related config other) :
    HasTrace step config (events otherStep count other) := by
  induction count using Nat.strongRecOn generalizing config other with
  | ind count induction =>
      cases steps : step config with
      | none =>
          rw [events_of_halted (simulates.halts related steps)]
          exact ⟨0, rfl⟩
      | some result =>
          rcases result with ⟨event, next⟩
          rcases simulates.advances related steps with
            ⟨silentCount, middle, otherNext, silent, otherSteps, nextRelated⟩
          by_cases atMost : count ≤ silentCount
          · rw [silent.events_of_le atMost]
            exact ⟨0, rfl⟩
          · rcases induction (count - (silentCount + 1)) (by omega) nextRelated with
              ⟨further, trace⟩
            have split : count = silentCount + (count - (silentCount + 1) + 1) := by omega
            rw [split, silent.events_add, events_succ otherSteps]
            exact ⟨further + 1, by rw [events_succ steps, trace]⟩

theorem WeaklySimulates.hasTrace_iff (simulates : WeaklySimulates step otherStep Related)
    {config : Config} {other : OtherConfig} (related : Related config other)
    (trace : List Event) : HasTrace step config trace ↔ HasTrace otherStep other trace := by
  constructor
  · intro holds
    rcases holds with ⟨count, rfl⟩
    exact simulates.forward count related
  · intro holds
    rcases holds with ⟨count, rfl⟩
    exact simulates.backward count related

end WeakTraces

/-! ## Steps that the second system leaves out

A step that emits nothing may be matched by any number of such steps. It may be
matched by none at all as long as a measure of the first system decreases. -/

structure StutterSimulates (step : StepFunction Config Event)
    (otherStep : StepFunction OtherConfig Event)
    (Related : Config → OtherConfig → Prop) (measure : Config → Nat) : Prop where
  halts : ∀ {config other}, Related config other → step config = none →
    otherStep other = none
  advances : ∀ {config other event next}, Related config other →
    step config = some (event, next) →
    (∃ otherNext, otherStep other = some (event, otherNext) ∧ Related next otherNext) ∨
    (event = none ∧ ∃ count otherNext, Silent otherStep count other otherNext ∧
      Related next otherNext ∧ (count = 0 → measure next < measure config))

section StutterTraces

variable {step : StepFunction Config Event} {otherStep : StepFunction OtherConfig Event}
variable {Related : Config → OtherConfig → Prop} {measure : Config → Nat}

theorem StutterSimulates.forward
    (simulates : StutterSimulates step otherStep Related measure) (count : Nat)
    {config : Config} {other : OtherConfig} (related : Related config other) :
    HasTrace otherStep other (events step count config) := by
  induction count generalizing config other with
  | zero => exact ⟨0, rfl⟩
  | succ count induction =>
      cases steps : step config with
      | none => exact ⟨0, (events_of_halted steps _).symm⟩
      | some result =>
          rcases result with ⟨event, next⟩
          rw [events_succ steps]
          rcases simulates.advances related steps with
            ⟨otherNext, otherSteps, nextRelated⟩ |
            ⟨rfl, silentCount, otherNext, silent, nextRelated, -⟩
          · rcases induction nextRelated with ⟨further, trace⟩
            exact ⟨further + 1, by rw [events_succ otherSteps, trace]⟩
          · rcases induction nextRelated with ⟨further, trace⟩
            exact ⟨silentCount + further, (silent.events_add further).trans trace⟩

/-- The induction is on the number of steps of the second system and, where it
takes none, on the measure of the first. -/
theorem StutterSimulates.backward
    (simulates : StutterSimulates step otherStep Related measure) (count : Nat)
    {config : Config} {other : OtherConfig} (related : Related config other) :
    HasTrace step config (events otherStep count other) := by
  induction count using Nat.strongRecOn generalizing config other with
  | ind count fewerSteps =>
      induction bound : measure config using Nat.strongRecOn generalizing config other with
      | ind size smaller =>
          cases steps : step config with
          | none =>
              rw [events_of_halted (simulates.halts related steps)]
              exact ⟨0, rfl⟩
          | some result =>
              rcases result with ⟨event, next⟩
              rcases simulates.advances related steps with
                ⟨otherNext, otherSteps, nextRelated⟩ |
                ⟨rfl, silentCount, otherNext, silent, nextRelated, decreases⟩
              · cases count with
                | zero => exact ⟨0, rfl⟩
                | succ count =>
                    rcases fewerSteps count (Nat.lt_succ_self count) nextRelated with
                      ⟨further, trace⟩
                    refine ⟨further + 1, ?_⟩
                    rw [events_succ steps, events_succ otherSteps, trace]
              · by_cases atMost : count ≤ silentCount
                · rw [silent.events_of_le atMost]
                  exact ⟨0, rfl⟩
                · have split : count = silentCount + (count - silentCount) := by omega
                  have remaining : HasTrace step next
                      (events otherStep (count - silentCount) otherNext) := by
                    rcases Nat.eq_zero_or_pos silentCount with rfl | takes
                    · exact smaller (measure next) (bound ▸ decreases rfl) nextRelated rfl
                    · exact fewerSteps (count - silentCount) (by omega) nextRelated
                  rcases remaining with ⟨further, trace⟩
                  refine ⟨further + 1, ?_⟩
                  rw [split, silent.events_add]
                  exact (events_succ steps further).trans trace

theorem StutterSimulates.hasTrace_iff
    (simulates : StutterSimulates step otherStep Related measure)
    {config : Config} {other : OtherConfig} (related : Related config other)
    (trace : List Event) : HasTrace step config trace ↔ HasTrace otherStep other trace := by
  constructor
  · intro holds
    rcases holds with ⟨count, rfl⟩
    exact simulates.forward count related
  · intro holds
    rcases holds with ⟨count, rfl⟩
    exact simulates.backward count related

end StutterTraces

/-! ## Observations -/

section Observations

universe x y z

variable {Observation : Type x}

/-- The system in which only what is observed of an event is emitted. -/
def observeSteps (observe : Event → Option Observation) (step : StepFunction Config Event) :
    StepFunction Config Observation :=
  fun config => (step config).map fun result => (result.1.bind observe, result.2)

section Observed

variable (observe : Event → Option Observation) {step : StepFunction Config Event}
variable {config next : Config} {event : Option Event}

theorem observeSteps_of_halted (halted : step config = none) :
    observeSteps observe step config = none := by
  rw [observeSteps, halted]
  rfl

theorem observeSteps_of_steps (steps : step config = some (event, next)) :
    observeSteps observe step config = some (event.bind observe, next) := by
  rw [observeSteps, steps]
  rfl

end Observed

theorem events_observeSteps (observe : Event → Option Observation)
    (step : StepFunction Config Event) (count : Nat) (config : Config) :
    events (observeSteps observe step) count config =
      (events step count config).filterMap observe := by
  induction count generalizing config with
  | zero => rfl
  | succ count induction =>
      cases steps : step config with
      | none =>
          rw [events_of_halted (observeSteps_of_halted observe steps), events_of_halted steps]
          rfl
      | some result =>
          rcases result with ⟨event, next⟩
          rw [events_succ (observeSteps_of_steps observe steps), events_succ steps,
            List.filterMap_append, induction]
          congr 1
          cases event with
          | none => rfl
          | some event =>
              rw [Option.bind_some, Option.toList_some, List.filterMap_cons]
              cases observe event <;> rfl

theorem hasTrace_observeSteps_iff (observe : Event → Option Observation)
    (step : StepFunction Config Event) (config : Config) (observed : List Observation) :
    HasTrace (observeSteps observe step) config observed ↔
      ∃ trace, HasTrace step config trace ∧ trace.filterMap observe = observed := by
  constructor
  · intro holds
    rcases holds with ⟨count, rfl⟩
    exact ⟨_, ⟨count, rfl⟩, (events_observeSteps observe step count config).symm⟩
  · intro holds
    rcases holds with ⟨trace, ⟨count, rfl⟩, rfl⟩
    exact ⟨count, events_observeSteps observe step count config⟩

theorem observed_bind_iff {OtherEvent : Type y} {Seen : Type z}
    {step : StepFunction Config Event} {otherStep : StepFunction OtherConfig OtherEvent}
    {observe : Event → Option Observation} {otherObserve : OtherEvent → Option Observation}
    {config : Config} {other : OtherConfig}
    (same : ∀ observed, (∃ trace, HasTrace step config trace ∧
        trace.filterMap observe = observed) ↔
      ∃ trace, HasTrace otherStep other trace ∧ trace.filterMap otherObserve = observed)
    (see : Observation → Option Seen) (seen : List Seen) :
    (∃ trace, HasTrace step config trace ∧
        trace.filterMap (fun event => (observe event).bind see) = seen) ↔
      ∃ trace, HasTrace otherStep other trace ∧
        trace.filterMap (fun event => (otherObserve event).bind see) = seen := by
  simp only [← List.filterMap_filterMap]
  constructor
  · intro holds
    rcases holds with ⟨trace, runs, shown⟩
    rcases (same _).mp ⟨trace, runs, rfl⟩ with ⟨otherTrace, otherRuns, otherShown⟩
    exact ⟨otherTrace, otherRuns, by rw [otherShown, shown]⟩
  · intro holds
    rcases holds with ⟨otherTrace, otherRuns, otherShown⟩
    rcases (same _).mpr ⟨otherTrace, otherRuns, rfl⟩ with ⟨trace, runs, shown⟩
    exact ⟨trace, runs, by rw [shown, otherShown]⟩

end Observations

end BpfBackend.Simulation
