import Mathlib.Data.Option.Basic

/-!
# Runs of a partial step function

A system moves by events; an event that the system is not ready for has no
outcome. A run is the list of the events taken, and what every step keeps, a run
keeps. Several invariants are kept together by keeping one under another.
-/

namespace Rustfs.Library

variable {State Event : Type} {step : State → Event → Option State} {events : List Event}

def run (step : State → Event → Option State) (start : State) (events : List Event) : Option State :=
  events.foldlM step start

@[simp]
theorem run_cons {start final : State} {event : Event} :
    run step start (event :: events) = some final ↔
      ∃ next, step start event = some next ∧ run step next events = some final := by
  exact Option.bind_eq_some_iff

/-- What a step keeps as long as a second invariant holds, a run keeps as long
as it starts from a state of that invariant. -/
theorem run_keeps_under {holds : State → Prop} (kept : State → Prop)
    (always : ∀ {state next : State} {event : Event},
      holds state → step state event = some next → holds next)
    (keeps : ∀ {state next : State} {event : Event},
      holds state → kept state → step state event = some next → kept next)
    {start final : State} (held : holds start) (initially : kept start)
    (ran : run step start events = some final) : holds final ∧ kept final := by
  induction events generalizing start with
  | nil =>
    obtain rfl := Option.some.inj ran
    exact ⟨held, initially⟩
  | cons event events ih =>
    obtain ⟨next, stepped, rest⟩ := run_cons.1 ran
    exact ih (always held stepped) (keeps held initially stepped) rest

theorem run_keeps {kept : State → Prop} (keeps : ∀ {state next : State} {event : Event},
      kept state → step state event = some next → kept next)
    {start final : State} (initially : kept start)
    (ran : run step start events = some final) : kept final :=
  (run_keeps_under kept keeps (fun _ before stepped => keeps before stepped) initially initially ran).1

/-- Every step of a trace meets a condition on what came before it. -/
def Along {Step : Type} (holds : List Step → Step → Prop) (before : List Step) : List Step → Prop
  | [] => True
  | step :: rest => holds before step ∧ Along holds (before ++ [step]) rest

section

variable {Step : Type} {holds : List Step → Step → Prop}

theorem along_append {before steps more : List Step} :
    Along holds before (steps ++ more) ↔
      Along holds before steps ∧ Along holds (before ++ steps) more := by
  induction steps generalizing before with
  | nil => simp [Along]
  | cons step steps ih => simp [Along, ih, and_assoc]

theorem Along.at_step {before earlier later : List Step} {step : Step}
    (along : Along holds before (earlier ++ step :: later)) : holds (before ++ earlier) step :=
  (along_append.1 along).2.1

end

/-- A loop over the first indices, with what holds before each of them. -/
theorem run_range {step : State → Nat → Option State} {count : Nat} {start : State}
    (holds : Nat → State → Prop) (initially : holds 0 start)
    (each : ∀ k < count, ∀ state, holds k state → ∃ next, step state k = some next ∧ holds (k + 1) next) :
    ∃ final, run step start (List.range count) = some final ∧ holds count final := by
  induction count with
  | zero => exact ⟨start, rfl, initially⟩
  | succ count ih =>
    obtain ⟨state, ran, held⟩ := ih fun k inside => each k (Nat.lt_succ_of_lt inside)
    obtain ⟨next, stepped, after⟩ := each count (Nat.lt_succ_self count) state held
    refine ⟨next, ?_, after⟩
    rw [run] at ran ⊢
    rw [List.range_succ, List.foldlM_append, ran, Option.bind_eq_bind, Option.bind_some,
      List.foldlM_cons, stepped]
    rfl

theorem run_range_eq {step : State → Nat → Option State} {count : Nat} (states : Nat → State)
    (each : ∀ k < count, step (states k) k = some (states (k + 1))) :
    run step (states 0) (List.range count) = some (states count) := by
  obtain ⟨final, ran, rfl⟩ := run_range (fun k state => state = states k) rfl
    fun k inside state isState => ⟨_, isState ▸ each k inside, rfl⟩
  exact ran

end Rustfs.Library
