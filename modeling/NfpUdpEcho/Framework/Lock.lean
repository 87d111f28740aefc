import Mathlib.Data.List.Chain
import NfpUdpEcho.Framework.System

/-!
# A lock that is taken in two steps

A party takes the lock (`acquire`) and then puts its name to it (`confirm`); the owner gives it
back (`release`). A party that has taken the lock may be lost before it has put its name to it
(`abandon`), and then nobody owns the lock and nobody can take it.

`steps_chain` says in what order the steps of a run come: a party that has acquired the lock
confirms it or abandons it next, and nobody acquires it again before its owner has released
it. Nothing comes after a step that abandons it (`Next`).

The state is told by the last step (`after`), so a step that the state allows is one that may
come after the last: the induction on the run carries no more than that.
-/

namespace Lock

open LTS

inductive LockState (P : Type) where
  | free
  | claimed (p : P)
  | held (p : P)
  | lost

inductive LockStep (P : Type) where
  | acquire (p : P)
  | confirm (p : P)
  | abandon (p : P)
  | release (p : P)

variable {P : Type}

/-- The transitions of the lock. -/
inductive Takes : LockState P → LockStep P → LockState P → Prop where
  | acquire (p : P) : Takes .free (.acquire p) (.claimed p)
  | confirm (p : P) : Takes (.claimed p) (.confirm p) (.held p)
  | abandon (p : P) : Takes (.claimed p) (.abandon p) .lost
  | release (p : P) : Takes (.held p) (.release p) .free

/-- The lock, from a given state. -/
def lockSystem (s₀ : LockState P) : System (LockState P) (LockStep P) where
  init s := s = s₀
  step := Takes

/-- What may come after a step. -/
inductive Next : LockStep P → LockStep P → Prop where
  | confirm (p : P) : Next (.acquire p) (.confirm p)
  | abandon (p : P) : Next (.acquire p) (.abandon p)
  | release (p : P) : Next (.confirm p) (.release p)
  | acquire (p q : P) : Next (.release p) (.acquire q)

/-- The state that a step leads to. -/
def after : LockStep P → LockState P
  | .acquire p => .claimed p
  | .confirm p => .held p
  | .abandon _ => .lost
  | .release _ => .free

theorem Takes.after_eq {s s' : LockState P} {l : LockStep P} (h : Takes s l s') : after l = s' := by
  cases h <;> rfl

/-- A step from the state that another has led to may come after it. -/
theorem Takes.next {s s' : LockState P} {l l' : LockStep P} (hs : after l = s)
    (h : Takes s l' s') : Next l l' := by
  cases h with
  | acquire q =>
    cases l <;> cases hs
    exact .acquire _ q
  | confirm q =>
    cases l <;> cases hs
    exact .confirm q
  | abandon q =>
    cases l <;> cases hs
    exact .abandon q
  | release q =>
    cases l <;> cases hs
    exact .release q

variable {s₀ s : LockState P} {h : List (Transition (LockState P) (LockStep P))}

/-- **The order of the steps of a run**, with the state that the last of them has led to. -/
theorem steps_chain (he : Exec (lockSystem s₀) h s) :
    (h.map Transition.label).IsChain Next ∧
      s = ((h.map Transition.label).getLast?.map after).getD s₀ := by
  induction he with
  | init hs => exact ⟨.nil, hs⟩
  | @snoc h s s' l _ hs ih =>
    obtain ⟨hchain, hlast⟩ := ih
    rw [List.map_append]
    refine ⟨?_, ?_⟩
    · refine List.isChain_append.mpr ⟨hchain, .singleton _, fun l₁ hl₁ l₂ hl₂ => ?_⟩
      obtain rfl : l₂ = l := by simpa using hl₂.symm
      have hs₁ : after l₁ = s := by
        rw [hlast, Option.mem_def.mp hl₁]
        rfl
      exact hs.next hs₁
    · simp [hs.after_eq]

end Lock
