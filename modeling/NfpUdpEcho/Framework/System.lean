import Mathlib.Data.List.Basic
import Mathlib.Logic.Function.Basic

/-!
# Labelled transition systems and their finite executions

The programs modelled in this development run as several parties that take steps
in any order. A `System` is a set of initial states with a step relation, and an
`Exec` is one finite run of it, kept with the list of the transitions taken, so that a
statement can speak about every step of a run and not only about its last state.

Three rules carry the proofs built on it:

* `System.Reachable.invariant`: what holds initially and is preserved by every step
  holds in every reachable state;
* `Exec.forall_of_guard`: in a run all of whose steps meet a guard, a property of
  transitions that guarded steps have from invariant states holds of every step;
* `Exec.exact`: when in addition every step that misses the guard breaks the property,
  the guard is the exact condition for the property to hold along the run.
-/

namespace LTS

/-- A labelled transition system: initial states and a step relation. -/
structure System (State : Type) (Label : Type) where
  init : State → Prop
  step : State → Label → State → Prop

/-- One transition of a run: the state before, the label, the state after. -/
structure Transition (State : Type) (Label : Type) where
  src : State
  label : Label
  dst : State

variable {State Label : Type}

/-- `Exec sys h s`: the system has gone through the transitions `h`, in order, from an
initial state and is now in `s`. -/
inductive Exec (sys : System State Label) : List (Transition State Label) → State → Prop where
  | init {s : State} : sys.init s → Exec sys [] s
  | snoc {h : List (Transition State Label)} {s s' : State} {l : Label} :
      Exec sys h s → sys.step s l s' → Exec sys (h ++ [⟨s, l, s'⟩]) s'

/-- A state some finite execution ends in. -/
def System.Reachable (sys : System State Label) (s : State) : Prop :=
  ∃ h, Exec sys h s

namespace System.Reachable

variable {sys : System State Label}

theorem init {s : State} (h : sys.init s) : sys.Reachable s := ⟨[], .init h⟩

theorem step {s s' : State} {l : Label} (h : sys.Reachable s) (hs : sys.step s l s') :
    sys.Reachable s' := by
  obtain ⟨t, ht⟩ := h
  exact ⟨_, ht.snoc hs⟩

/-- **The invariant rule.** -/
theorem invariant {Inv : State → Prop} (h_init : ∀ s, sys.init s → Inv s)
    (h_step : ∀ s l s', Inv s → sys.step s l s' → Inv s') {s : State}
    (h : sys.Reachable s) : Inv s := by
  obtain ⟨t, ht⟩ := h
  induction ht with
  | init hs => exact h_init _ hs
  | snoc _ hs ih => exact h_step _ _ _ ih hs

end System.Reachable

namespace Exec

variable {sys : System State Label} {h : List (Transition State Label)} {s : State}
variable {Inv : State → Prop} {guard : State → Label → Prop}
  {Q : Transition State Label → Prop}

theorem reachable (he : Exec sys h s) : sys.Reachable s := ⟨h, he⟩

/-- Along a run whose steps all meet `guard`, an invariant of the guarded steps holds
in the state reached. -/
theorem invariant_of_guard (h_init : ∀ s, sys.init s → Inv s)
    (h_step : ∀ s l s', Inv s → sys.step s l s' → guard s l → Inv s')
    (he : Exec sys h s) (hg : ∀ t ∈ h, guard t.src t.label) : Inv s := by
  induction he with
  | init hs => exact h_init _ hs
  | snoc _ hs ih =>
    have hlast := hg _ (List.mem_append_right _ (List.mem_singleton.mpr rfl))
    exact h_step _ _ _ (ih fun t ht => hg t (List.mem_append_left _ ht)) hs hlast

/-- In a run whose steps all meet `guard`, every step has the property `Q` that guarded
steps have from states of the invariant. -/
theorem forall_of_guard (h_init : ∀ s, sys.init s → Inv s)
    (h_step : ∀ s l s', Inv s → sys.step s l s' → guard s l → Inv s')
    (h_ok : ∀ s l s', Inv s → sys.step s l s' → guard s l → Q ⟨s, l, s'⟩)
    (he : Exec sys h s) (hg : ∀ t ∈ h, guard t.src t.label) : ∀ t ∈ h, Q t := by
  induction he with
  | init _ => simp
  | @snoc h' s₁ s₂ l he' hs ih =>
    have hpre : ∀ t ∈ h', guard t.src t.label :=
      fun t ht => hg t (List.mem_append_left _ ht)
    have hlast := hg _ (List.mem_append_right _ (List.mem_singleton.mpr rfl))
    intro t ht
    rcases List.mem_append.mp ht with ht | ht
    · exact ih hpre t ht
    · obtain rfl := List.mem_singleton.mp ht
      exact h_ok _ _ _ (he'.invariant_of_guard h_init h_step hpre) hs hlast

/-- **The exact condition of a run.** If a guarded step from an invariant state keeps the
invariant and has `Q`, and an unguarded step from an invariant state lacks `Q`, then `Q`
holds of every step of a run exactly when every step of it meets the guard. -/
theorem exact (h_init : ∀ s, sys.init s → Inv s)
    (h_step : ∀ s l s', Inv s → sys.step s l s' → guard s l → Inv s')
    (h_ok : ∀ s l s', Inv s → sys.step s l s' → guard s l → Q ⟨s, l, s'⟩)
    (h_bad : ∀ s l s', Inv s → sys.step s l s' → Q ⟨s, l, s'⟩ → guard s l)
    (he : Exec sys h s) : (∀ t ∈ h, Q t) ↔ ∀ t ∈ h, guard t.src t.label := by
  refine ⟨fun hQ => ?_, he.forall_of_guard h_init h_step h_ok⟩
  induction he with
  | init _ => simp
  | @snoc h' s₁ s₂ l he' hs ih =>
    have hpre := ih fun t ht => hQ t (List.mem_append_left _ ht)
    have hlast := hQ _ (List.mem_append_right _ (List.mem_singleton.mpr rfl))
    intro t ht
    rcases List.mem_append.mp ht with ht | ht
    · exact hpre t ht
    · obtain rfl := List.mem_singleton.mp ht
      exact h_bad _ _ _ (he'.invariant_of_guard h_init h_step hpre) hs hlast

/-- A run whose steps are steps of another system that meet a guard is a run of that system. -/
theorem of_guarded_step (he : Exec sys h s) (sys' : System State Label)
    (h_init : ∀ s, sys.init s → sys'.init s)
    (h_step : ∀ s l s', sys.step s l s' → sys'.step s l s' ∧ guard s l) :
    Exec sys' h s ∧ ∀ t ∈ h, guard t.src t.label := by
  induction he with
  | init hs => exact ⟨.init (h_init _ hs), by simp⟩
  | snoc _ hs ih =>
    obtain ⟨hstep, hguard⟩ := h_step _ _ _ hs
    refine ⟨ih.1.snoc hstep, fun t ht => ?_⟩
    rcases List.mem_append.mp ht with ht | ht
    · exact ih.2 t ht
    · obtain rfl := List.mem_singleton.mp ht
      exact hguard

end Exec

/-- The runs whose steps all meet a guard. -/
def System.restrict (sys : System State Label) (guard : State → Label → Prop) :
    System State Label where
  init := sys.init
  step s l s' := sys.step s l s' ∧ guard s l

/-! ### What every run comes to -/

/-- However the system goes on from a state, it does go on until it comes to one with `Q`. -/
inductive System.Inevitable (sys : System State Label) (Q : State → Prop) : State → Prop where
  | here {s : State} : Q s → Inevitable sys Q s
  | later {s : State} : (∃ l s', sys.step s l s') →
      (∀ l s', sys.step s l s' → Inevitable sys Q s') → Inevitable sys Q s

namespace System.Inevitable

variable {sys : System State Label} {Q Q' : State → Prop} {s : State}

/-- The goal is as inevitable after a step as it was before. -/
theorem next (h : sys.Inevitable Q s) (hQ : ¬Q s) {l : Label} {s' : State}
    (hs : sys.step s l s') : sys.Inevitable Q s' := by
  cases h with
  | here hQ' => exact absurd hQ' hQ
  | later _ hnext => exact hnext l s' hs

/-- Some run comes to it, and keeps on the way what the steps keep. -/
theorem exists_state (h : sys.Inevitable Q s) {Inv : State → Prop}
    (h_step : ∀ s l s', Inv s → sys.step s l s' → Inv s') (hs : Inv s) : ∃ s', Inv s' ∧ Q s' := by
  induction h with
  | here hQ => exact ⟨_, hs, hQ⟩
  | later henabled _ ih =>
    obtain ⟨l, s', hss'⟩ := henabled
    exact ih l s' hss' (h_step _ l s' hs hss')

/-- Two goals that end a run are met together. -/
theorem meet (h : sys.Inevitable Q s) (h' : sys.Inevitable Q' s)
    (h_end : ∀ s l s', Q s → ¬sys.step s l s') (h_end' : ∀ s l s', Q' s → ¬sys.step s l s') :
    ∃ s', Q s' ∧ Q' s' := by
  induction h with
  | here hQ =>
    cases h' with
    | here hQ' => exact ⟨_, hQ, hQ'⟩
    | later henabled _ =>
      obtain ⟨l, s', hss'⟩ := henabled
      exact absurd hss' (h_end _ l s' hQ)
  | later henabled _ ih =>
    obtain ⟨l, s', hss'⟩ := henabled
    cases h' with
    | here hQ' => exact absurd hss' (h_end' _ l s' hQ')
    | later _ hnext => exact ih l s' hss' (hnext l s' hss')

end System.Inevitable

/-! ### Systems given by an executable step function -/

section OfStep

variable (init : State → Prop) (next : State → Label → Option State)

/-- The system of an executable step function: `none` where the step is not enabled. -/
def System.ofStep : System State Label where
  init := init
  step s l s' := next s l = some s'

@[simp] theorem System.ofStep_init (s : State) :
    (System.ofStep init next).init s ↔ init s := Iff.rfl

@[simp] theorem System.ofStep_step (s : State) (l : Label) (s' : State) :
    (System.ofStep init next).step s l s' ↔ next s l = some s' := Iff.rfl

/-- Run a list of labels, stopping with `none` at a step that is not enabled. -/
def runLabels : State → List Label → Option State
  | s, [] => some s
  | s, l :: ls => (next s l).bind fun s' => runLabels s' ls

/-- A run of labels extends an execution. -/
theorem Exec.of_run {s s' : State} {h : List (Transition State Label)} {ls : List Label}
    (he : Exec (System.ofStep init next) h s) (hr : runLabels next s ls = some s') :
    ∃ h', Exec (System.ofStep init next) h' s' ∧
      h'.map Transition.label = h.map Transition.label ++ ls := by
  induction ls generalizing s h with
  | nil =>
    obtain rfl := Option.some.inj hr
    exact ⟨h, he, (List.append_nil _).symm⟩
  | cons l ls ih =>
    obtain ⟨s₁, hs₁, hr⟩ := Option.bind_eq_some_iff.mp hr
    obtain ⟨h', he', hlabels⟩ := ih (he.snoc hs₁) hr
    refine ⟨h', he', ?_⟩
    rw [hlabels, List.map_append, List.append_assoc]
    rfl

/-- Running labels from an initial state is an execution, which ends with the observation `f`
that the run evaluates to. -/
theorem Exec.exists_of_run {α : Type} {s : State} {ls : List Label} {f : State → α} {a : α}
    (h : init s) (hr : (runLabels next s ls).map f = some a) :
    ∃ h' s', Exec (System.ofStep init next) h' s' ∧ h'.map Transition.label = ls ∧ f s' = a := by
  obtain ⟨s', hs', rfl⟩ := Option.map_eq_some_iff.mp hr
  obtain ⟨h', he, hlabels⟩ := Exec.of_run init next (.init h) hs'
  exact ⟨h', s', he, hlabels, rfl⟩

/-- A state that a run of labels ends in is reachable. -/
theorem System.Reachable.of_run {α : Type} {s : State} {ls : List Label} {f : State → α} {a : α}
    (h : init s) (hr : (runLabels next s ls).map f = some a) :
    ∃ s', (System.ofStep init next).Reachable s' ∧ f s' = a := by
  obtain ⟨h', s', he, -, hf⟩ := Exec.exists_of_run init next h hr
  exact ⟨s', he.reachable, hf⟩

/-- The step function that refuses every step that misses a guard. -/
def guarded (guard : State → Label → Prop) [∀ s, DecidablePred (guard s)] (s : State)
    (l : Label) : Option State :=
  if guard s l then next s l else none

variable {guard : State → Label → Prop} [∀ s, DecidablePred (guard s)]

/-- `Exec.exists_of_run` for a run each of whose steps meets a guard. -/
theorem Exec.exists_of_guarded_run {α : Type} {s : State} {ls : List Label} {f : State → α}
    {a : α} (h : init s) (hr : (runLabels (guarded next guard) s ls).map f = some a) :
    ∃ h' s', Exec (System.ofStep init next) h' s' ∧ h'.map Transition.label = ls ∧
      (∀ t ∈ h', guard t.src t.label) ∧ f s' = a := by
  obtain ⟨h', s', he, hlabels, hf⟩ := Exec.exists_of_run init (guarded next guard) h hr
  -- a step that was taken has met the guard
  obtain ⟨he, hguard⟩ := he.of_guarded_step (System.ofStep init next) (fun _ hs => hs)
    fun s l s' hs => (Option.ite_none_right_eq_some.mp hs).symm
  exact ⟨h', s', he, hlabels, hguard, hf⟩

end OfStep

end LTS
