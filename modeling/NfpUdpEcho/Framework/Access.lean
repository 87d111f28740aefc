import Mathlib.Logic.Function.Basic
import NfpUdpEcho.Framework.System

/-!
# Programs that share a device

A `Prog` is a program as the operations that it asks of a device, one after the other, with what
it goes on to do for every answer. A `Device` relates an operation and the state it is asked in
to the answers and the states it may lead to, so that an operation may also fail.

`Leads` and `Runs` are one program with the device to itself, and `Ensures` is what is known at
the end of one. In `parallel` every party of a set `P` has a program of its own, and the
operations of the parties come in any order; a party may also begin another program, for which
`begins` says what it may begin.

`Simulation` is the rule for safety. A specification is a transition system; an `Inv`
ties its state to the device, and for every party an assertion `At` ties its state to what is
left of the party's program. A step of one party has to keep its own assertion and leave those of
the others alone. Then every run of the parties is a run of the specification
(`Simulation.exec`).
-/

namespace Access

open LTS

/-- What is left of a program: its result, or its next operation and what it does for every
answer. -/
inductive Prog (Op : Type) (Ans : Op → Type) (α : Type) where
  | ret (a : α)
  | access (op : Op) (k : Ans op → Prog Op Ans α)

/-- The answers that a device in a given state may give, with the state it is in afterwards. -/
abbrev Device (Op : Type) (Ans : Op → Type) (δ : Type) := (op : Op) → δ → Ans op → δ → Prop

variable {Op : Type} {Ans : Op → Type} {α β γ δ : Type}

namespace Prog

/-- One program after the other. -/
def bind : Prog Op Ans α → (α → Prog Op Ans β) → Prog Op Ans β
  | ret a, f => f a
  | access op k, f => access op fun x => (k x).bind f

@[simp] theorem ret_bind (a : α) (f : α → Prog Op Ans β) : (ret a).bind f = f a := rfl

@[simp] theorem access_bind (op : Op) (k : Ans op → Prog Op Ans α) (f : α → Prog Op Ans β) :
    (access op k).bind f = access op fun x => (k x).bind f := rfl

theorem bind_ret (r : Prog Op Ans α) : r.bind ret = r := by
  induction r with
  | ret a => rfl
  | access op k ih => exact congrArg (access op) (funext fun x => ih x)

theorem bind_assoc (r : Prog Op Ans α) (f : α → Prog Op Ans β) (g : β → Prog Op Ans γ) :
    (r.bind f).bind g = r.bind fun a => (f a).bind g := by
  induction r with
  | ret a => rfl
  | access op k ih => exact congrArg (access op) (funext fun x => ih x)

/-- Whatever the answers are, every operation and the result have a property. -/
def Within (L : Op → Prop) (Q : α → Prop) : Prog Op Ans α → Prop
  | ret a => Q a
  | access op k => L op ∧ ∀ x, (k x).Within L Q

/-- Whatever the answers are, the result has a property. -/
abbrev All (Q : α → Prop) (r : Prog Op Ans α) : Prop := r.Within (fun _ => True) Q

section Within

variable {L L' : Op → Prop} {Q Q' : α → Prop} {r : Prog Op Ans α}

theorem Within.mono (h : r.Within L Q) (hL : ∀ op, L op → L' op) (hQ : ∀ a, Q a → Q' a) :
    r.Within L' Q' := by
  induction r with
  | ret a => exact hQ a h
  | access op k ih => exact ⟨hL op h.1, fun x => ih x (h.2 x)⟩

theorem Within.all (h : r.Within L Q) : r.All Q := h.mono (fun _ _ => trivial) fun _ => id

theorem all_of_forall (r : Prog Op Ans α) (h : ∀ a, Q a) : r.All Q := by
  induction r with
  | ret a => exact h a
  | access op k ih => exact ⟨trivial, ih⟩

theorem within_bind {f : α → Prog Op Ans β} {Q : β → Prop} :
    (r.bind f).Within L Q ↔ r.Within L fun a => (f a).Within L Q := by
  induction r with
  | ret a => exact Iff.rfl
  | access op k ih => exact and_congr Iff.rfl (forall_congr' fun x => ih x)

/-- What comes after a program matters for its results alone. -/
theorem bind_congr {f g : α → Prog Op Ans β} (h : r.All fun a => f a = g a) :
    r.bind f = r.bind g := by
  induction r with
  | ret a => exact h
  | access op k ih => exact congrArg (access op) (funext fun x => ih x (h.2 x))

end Within

end Prog

/-! ### A program by itself -/

/-- A program that has the device to itself comes to where `r'` is left of it. -/
inductive Leads (dev : Device Op Ans δ) : Prog Op Ans α → δ → Prog Op Ans α → δ → Prop where
  | refl {r : Prog Op Ans α} {d : δ} : Leads dev r d r d
  | access {op : Op} {k : Ans op → Prog Op Ans α} {x : Ans op} {r : Prog Op Ans α}
      {d d' d'' : δ} : dev op d x d' → Leads dev (k x) d' r d'' → Leads dev (.access op k) d r d''

/-- It returns. -/
abbrev Runs (dev : Device Op Ans δ) (r : Prog Op Ans α) (d : δ) (a : α) (d' : δ) : Prop :=
  Leads dev r d (.ret a) d'

variable {dev : Device Op Ans δ}

theorem Leads.trans {r r' r'' : Prog Op Ans α} {d d' d'' : δ} (h : Leads dev r d r' d')
    (h' : Leads dev r' d' r'' d'') : Leads dev r d r'' d'' := by
  induction h with
  | refl => exact h'
  | access hx _ ih => exact .access hx (ih h')

@[simp] theorem runs_ret {a a' : α} {d d' : δ} :
    Runs dev (.ret a) d a' d' ↔ a' = a ∧ d' = d := by
  constructor
  · intro h
    cases h
    exact ⟨rfl, rfl⟩
  · rintro ⟨rfl, rfl⟩
    exact .refl

@[simp] theorem runs_access {op : Op} {k : Ans op → Prog Op Ans α} {a : α} {d d' : δ} :
    Runs dev (.access op k) d a d' ↔ ∃ x d₁, dev op d x d₁ ∧ Runs dev (k x) d₁ a d' := by
  constructor
  · intro h
    cases h with
    | access hx hk => exact ⟨_, _, hx, hk⟩
  · rintro ⟨x, d₁, hx, hk⟩
    exact .access hx hk

theorem runs_bind {r : Prog Op Ans α} {f : α → Prog Op Ans β} {b : β} {d d' : δ} :
    Runs dev (r.bind f) d b d' ↔ ∃ a d₁, Runs dev r d a d₁ ∧ Runs dev (f a) d₁ b d' := by
  induction r generalizing d with
  | ret a => simp
  | access op k ih =>
    simp only [Prog.access_bind, runs_access, ih]
    constructor
    · rintro ⟨x, d₁, hx, a, d₂, hk, hf⟩
      exact ⟨a, d₂, ⟨x, d₁, hx, hk⟩, hf⟩
    · rintro ⟨a, d₂, ⟨x, d₁, hx, hk⟩, hf⟩
      exact ⟨x, d₁, hx, a, d₂, hk, hf⟩

/-- What is known of the result of a program that has the device to itself, and of the state that
it leaves the device in. -/
def Ensures (dev : Device Op Ans δ) (d : δ) (r : Prog Op Ans α) (Q : α → δ → Prop) : Prop :=
  ∀ a d', Runs dev r d a d' → Q a d'

namespace Ensures

variable {d : δ} {r : Prog Op Ans α} {Q Q' : α → δ → Prop}

theorem ret {a : α} (h : Q a d) : Ensures dev d (.ret a) Q := by
  intro b d' hb
  obtain ⟨rfl, rfl⟩ := runs_ret.mp hb
  exact h

theorem access {op : Op} {k : Ans op → Prog Op Ans α}
    (h : ∀ x d', dev op d x d' → Ensures dev d' (k x) Q) : Ensures dev d (.access op k) Q := by
  intro a d' ha
  obtain ⟨x, d₁, hx, hk⟩ := runs_access.mp ha
  exact h x d₁ hx a d' hk

theorem mono (h : Ensures dev d r Q) (hQ : ∀ a d', Q a d' → Q' a d') : Ensures dev d r Q' :=
  fun a d' ha => hQ a d' (h a d' ha)

/-- One program after the other. -/
theorem bind {f : α → Prog Op Ans β} {Q' : β → δ → Prop} (h : Ensures dev d r Q)
    (hf : ∀ a d', Q a d' → Ensures dev d' (f a) Q') : Ensures dev d (r.bind f) Q' := by
  intro b d' hb
  obtain ⟨a, d₁, ha, hb'⟩ := runs_bind.mp hb
  exact hf a d₁ (h a d₁ ha) b d' hb'

end Ensures

/-- The program on a device that answers as a function says. -/
def Prog.runOn (answer : (op : Op) → δ → Ans op × δ) : Prog Op Ans α → δ → α × δ
  | .ret a, d => (a, d)
  | .access op k, d => (k (answer op d).1).runOn answer (answer op d).2

theorem runs_runOn {answer : (op : Op) → δ → Ans op × δ}
    (hanswer : ∀ op d, dev op d (answer op d).1 (answer op d).2) (r : Prog Op Ans α) (d : δ) :
    Runs dev r d (r.runOn answer d).1 (r.runOn answer d).2 := by
  induction r generalizing d with
  | ret a => exact .refl
  | access op k ih => exact .access (hanswer op d) (ih _ _)

theorem Prog.Within.of_runs {Q : α → Prop} {r : Prog Op Ans α} {a : α} {d d' : δ} (h : r.All Q)
    (hrun : Runs dev r d a d') : Q a := by
  induction r generalizing d with
  | ret b => exact (runs_ret.mp hrun).1 ▸ h
  | access op k ih =>
    obtain ⟨x, d₁, -, hk⟩ := runs_access.mp hrun
    exact ih x (h.2 x) hk

/-! ### Several programs -/

/-- The device, and what is left of the program of every party. -/
structure Config (P Op : Type) (Ans : Op → Type) (α δ : Type) where
  dev : δ
  prog : P → Prog Op Ans α

/-- What may happen next. -/
inductive Event (P Op : Type) (Ans : Op → Type) (α : Type) where
  /-- The operation that a party is at, with the answer to it. -/
  | access (p : P) (op : Op) (x : Ans op)
  /-- A party takes up another program. -/
  | begin (p : P) (r : Prog Op Ans α)

variable {P : Type} [DecidableEq P]

/-- One step of the parties. -/
inductive Step (dev : Device Op Ans δ) (begins : P → Prog Op Ans α → Prog Op Ans α → Prop) :
    Config P Op Ans α δ → Event P Op Ans α → Config P Op Ans α δ → Prop where
  | access {c : Config P Op Ans α δ} {p : P} {op : Op} {k : Ans op → Prog Op Ans α}
      {x : Ans op} {d : δ} : c.prog p = .access op k → dev op c.dev x d →
      Step dev begins c (.access p op x) ⟨d, Function.update c.prog p (k x)⟩
  | begin {c : Config P Op Ans α δ} {p : P} {r : Prog Op Ans α} : begins p (c.prog p) r →
      Step dev begins c (.begin p r) ⟨c.dev, Function.update c.prog p r⟩

/-- The parties as one system. -/
def parallel (init : Config P Op Ans α δ → Prop) (dev : Device Op Ans δ)
    (begins : P → Prog Op Ans α → Prog Op Ans α → Prop) :
    System (Config P Op Ans α δ) (Event P Op Ans α) where
  init := init
  step := Step dev begins

variable {init : Config P Op Ans α δ → Prop}
  {begins : P → Prog Op Ans α → Prog Op Ans α → Prop}

/-- A party may be the only one that goes on. -/
theorem reachable_of_leads {c : Config P Op Ans α δ} {p : P} {r r' : Prog Op Ans α} {d : δ}
    (hc : (parallel init dev begins).Reachable c) (hp : c.prog p = r)
    (h : Leads dev r c.dev r' d) :
    (parallel init dev begins).Reachable ⟨d, Function.update c.prog p r'⟩ := by
  generalize hd : c.dev = d₀ at h
  induction h generalizing c with
  | refl =>
    subst hd
    rw [← hp, Function.update_eq_self]
    exact hc
  | access hx _ ih =>
    subst hd
    have hnext := ih (hc.step (Step.access hp hx)) (Function.update_self _ _ _) rfl
    rwa [Function.update_idem] at hnext

/-- A party may begin a program and be the only one that goes on. -/
theorem reachable_of_begins {c : Config P Op Ans α δ} {p : P} {r₀ r r' : Prog Op Ans α} {d : δ}
    (hc : (parallel init dev begins).Reachable c) (hp : c.prog p = r₀) (hr : begins p r₀ r)
    (h : Leads dev r c.dev r' d) :
    (parallel init dev begins).Reachable ⟨d, Function.update c.prog p r'⟩ := by
  subst hp
  have hnext := reachable_of_leads (hc.step (Step.begin hr)) (Function.update_self _ _ _) h
  rwa [Function.update_idem] at hnext

/-! ### What is left of the programs -/

section Results

variable {Q : P → α → Prop}

/-- What is known of the result of every program that a party may begin is known of the result of
every program that is left. -/
theorem Step.all {c c' : Config P Op Ans α δ} {e : Event P Op Ans α}
    (hbegins : ∀ p r r', r.All (Q p) → begins p r r' → r'.All (Q p))
    (hc : ∀ p, (c.prog p).All (Q p)) (hstep : Step dev begins c e c') :
    ∀ p, (c'.prog p).All (Q p) := by
  intro q
  cases hstep with
  | @access p op k x d hp hx =>
    dsimp only
    by_cases hq : q = p
    · subst hq
      have hk := hc q
      rw [hp] at hk
      rw [Function.update_self]
      exact hk.2 x
    · rw [Function.update_of_ne hq]
      exact hc q
  | @begin p r hr =>
    dsimp only
    by_cases hq : q = p
    · subst hq
      rw [Function.update_self]
      exact hbegins q _ r (hc q) hr
    · rw [Function.update_of_ne hq]
      exact hc q

variable {init' : Config P Op Ans α δ → Prop}
  {begins' : P → Prog Op Ans α → Prog Op Ans α → Prop}

/-- Parties of which this is known are parties of another system if they may begin their
programs there as well. -/
theorem exec_of_begins (hinit : ∀ c, init c → init' c ∧ ∀ p, (c.prog p).All (Q p))
    (hbegins : ∀ p r r', r.All (Q p) → begins p r r' → begins' p r r' ∧ r'.All (Q p))
    {h : List (Transition (Config P Op Ans α δ) (Event P Op Ans α))} {c : Config P Op Ans α δ}
    (he : Exec (parallel init dev begins) h c) :
    Exec (parallel init' dev begins') h c ∧ ∀ p, (c.prog p).All (Q p) := by
  induction he with
  | init hc => exact ⟨.init (hinit _ hc).1, (hinit _ hc).2⟩
  | @snoc h c c' e _ hstep ih =>
    obtain ⟨he', hall⟩ := ih
    have hall' := hstep.all (fun p r r' hr hb => (hbegins p r r' hr hb).2) hall
    refine ⟨he'.snoc ?_, hall'⟩
    cases hstep with
    | access hp hx => exact .access hp hx
    | begin hr => exact .begin (hbegins _ _ _ (hall _) hr).1

end Results

/-! ### Simulation -/

variable {A B : Type}

/-- The specification takes one step, or none. -/
def Follows (spec : System A B) (a : A) : Option B → A → Prop
  | none, a' => a' = a
  | some b, a' => spec.step a b a'

/-- What has to be shown of one step of one party. `shows` is the step that the specification
takes with it, if any. -/
structure Simulation (init : Config P Op Ans α δ → Prop) (dev : Device Op Ans δ)
    (begins : P → Prog Op Ans α → Prog Op Ans α → Prop) (spec : System A B)
    (shows : P → Prog Op Ans α → Event P Op Ans α → Option B) (Inv : A → δ → Prop)
    (At : P → A → Prog Op Ans α → Prop) : Prop where
  init : ∀ c, init c → ∃ a, spec.init a ∧ Inv a c.dev ∧ ∀ p, At p a (c.prog p)
  access : ∀ a d p op k x d', Inv a d → At p a (.access op k) → dev op d x d' →
    ∃ a', Follows spec a (shows p (.access op k) (.access p op x)) a' ∧ Inv a' d' ∧
      At p a' (k x) ∧ ∀ q r, q ≠ p → At q a r → At q a' r
  begin : ∀ a d p r r', Inv a d → At p a r → begins p r r' →
    ∃ a', Follows spec a (shows p r (.begin p r')) a' ∧ Inv a' d ∧
      At p a' r' ∧ ∀ q s, q ≠ p → At q a s → At q a' s

/-- The party that takes a step. -/
def Event.party : Event P Op Ans α → P
  | .access p _ _ => p
  | .begin p _ => p

/-- What a transition shows of the specification. -/
def shown (shows : P → Prog Op Ans α → Event P Op Ans α → Option B)
    (t : Transition (Config P Op Ans α δ) (Event P Op Ans α)) : Option B :=
  shows t.label.party (t.src.prog t.label.party) t.label

namespace Simulation

variable {spec : System A B} {shows : P → Prog Op Ans α → Event P Op Ans α → Option B}
  {Inv : A → δ → Prop} {At : P → A → Prog Op Ans α → Prop} {c c' : Config P Op Ans α δ}
  {e : Event P Op Ans α} {a : A}

/-- One step of the parties. -/
theorem step (hsim : Simulation init dev begins spec shows Inv At) (hInv : Inv a c.dev)
    (hAt : ∀ p, At p a (c.prog p)) (hstep : Step dev begins c e c') :
    ∃ a', Follows spec a (shown shows ⟨c, e, c'⟩) a' ∧ Inv a' c'.dev ∧
      ∀ p, At p a' (c'.prog p) := by
  cases hstep with
  | @access p op k x d hp hx =>
    obtain ⟨a', hfollows, hInv', hAt', hothers⟩ :=
      hsim.access a c.dev p op k x d hInv (hp ▸ hAt p) hx
    refine ⟨a', by simpa only [shown, Event.party, hp] using hfollows, hInv', fun q => ?_⟩
    by_cases hq : q = p
    · subst hq
      simpa only [Function.update_self] using hAt'
    · simpa only [Function.update_of_ne hq] using hothers q _ hq (hAt q)
  | @begin p r hr =>
    obtain ⟨a', hfollows, hInv', hAt', hothers⟩ := hsim.begin a c.dev p _ r hInv (hAt p) hr
    refine ⟨a', hfollows, hInv', fun q => ?_⟩
    by_cases hq : q = p
    · subst hq
      simpa only [Function.update_self] using hAt'
    · simpa only [Function.update_of_ne hq] using hothers q _ hq (hAt q)

/-- **Every run of the parties is a run of the specification**, of the steps that the run
shows. -/
theorem exec (hsim : Simulation init dev begins spec shows Inv At)
    {h : List (Transition (Config P Op Ans α δ) (Event P Op Ans α))}
    (he : Exec (parallel init dev begins) h c) :
    ∃ h' a, Exec spec h' a ∧ h'.map Transition.label = h.filterMap (shown shows) ∧
      Inv a c.dev ∧ ∀ p, At p a (c.prog p) := by
  induction he with
  | init hc =>
    obtain ⟨a, ha, hInv, hAt⟩ := hsim.init _ hc
    exact ⟨[], a, .init ha, rfl, hInv, hAt⟩
  | @snoc h c c' e _ hstep ih =>
    obtain ⟨h', a, he', hlabels, hInv, hAt⟩ := ih
    obtain ⟨a', hfollows, hInv', hAt'⟩ := hsim.step hInv hAt hstep
    rw [List.filterMap_append]
    cases hb : shown shows ⟨c, e, c'⟩ with
    | none =>
      rw [hb] at hfollows
      obtain rfl : a' = a := hfollows
      have hnone : [(⟨c, e, c'⟩ : Transition _ _)].filterMap (shown shows) = [] := by simp [hb]
      refine ⟨h', a', he', ?_, hInv', hAt'⟩
      rw [hnone, List.append_nil, hlabels]
    | some b =>
      rw [hb] at hfollows
      have hsome : [(⟨c, e, c'⟩ : Transition _ _)].filterMap (shown shows) = [b] := by simp [hb]
      refine ⟨h' ++ [⟨a, b, a'⟩], a', he'.snoc hfollows, ?_, hInv', hAt'⟩
      rw [hsome, List.map_append, hlabels]
      rfl

/-- What holds of the parties in a state that they reach. -/
theorem reachable (hsim : Simulation init dev begins spec shows Inv At)
    (hc : (parallel init dev begins).Reachable c) :
    ∃ a, spec.Reachable a ∧ Inv a c.dev ∧ ∀ p, At p a (c.prog p) := by
  obtain ⟨h, he⟩ := hc
  obtain ⟨h', a, he', -, hInv, hAt⟩ := hsim.exec he
  exact ⟨a, he'.reachable, hInv, hAt⟩

end Simulation

end Access
