import Mathlib.Data.Nat.Basic
import Mathlib.Logic.Relation

/-!
# Loops that may run forever

A loop of an imperative program is a body that takes the loop's state to the next one, or
leaves the loop with a result. `run` executes it with a bound on the number of iterations,
and `Returns` says that some bound is enough.

`Returns.rule` is the rule of partial correctness and `exists_returns` the rule of total
correctness, with a measure that every iteration decreases. `Returns.visits_iff` gives the
exact condition, on the states the loop goes through, for a postcondition.

Where an assumption is about one run, not about every state, it is one about the states that the
loop visits: `exists_returns_visits` and `not_returns` are the rules for it, and `passes` decides
it for a loop that is run.
-/

namespace Loop

variable {σ ρ : Type}

/-- At most `n` iterations of a loop, `none` if it is still running after that. -/
def run (body : σ → σ ⊕ ρ) : ℕ → σ → Option ρ
  | 0, _ => none
  | n + 1, s =>
    match body s with
    | .inl s' => run body n s'
    | .inr r => some r

/-- The loop entered in `s` is left with the result `r`. -/
def Returns (body : σ → σ ⊕ ρ) (s : σ) (r : ρ) : Prop := ∃ n, run body n s = some r

variable {body : σ → σ ⊕ ρ} {s s' : σ} {r r' : ρ}

theorem run_succ_inl {n : ℕ} (h : body s = .inl s') : run body (n + 1) s = run body n s' := by
  rw [run, h]

theorem run_succ_inr {n : ℕ} (h : body s = .inr r) : run body (n + 1) s = some r := by
  rw [run, h]

/-- More iterations do not change a result. -/
theorem run_mono {n m : ℕ} (h : run body n s = some r) (hnm : n ≤ m) : run body m s = some r := by
  induction n generalizing s m with
  | zero => cases h
  | succ n ih =>
    obtain ⟨m, rfl⟩ : ∃ k, m = k + 1 := ⟨m - 1, by omega⟩
    cases hb : body s with
    | inl s' =>
      rw [run_succ_inl hb] at h ⊢
      exact ih h (by omega)
    | inr r' =>
      rw [run_succ_inr hb] at h ⊢
      exact h

theorem Returns.unique (h : Returns body s r) (h' : Returns body s r') : r = r' := by
  obtain ⟨n, hn⟩ := h
  obtain ⟨m, hm⟩ := h'
  have hn' := run_mono hn (Nat.le_max_left n m)
  rw [run_mono hm (Nat.le_max_right n m)] at hn'
  exact (Option.some.inj hn').symm

/-- One iteration. -/
theorem returns_inl (h : body s = .inl s') : Returns body s r ↔ Returns body s' r := by
  constructor
  · rintro ⟨n | n, hn⟩
    · cases hn
    · exact ⟨n, (run_succ_inl h).symm.trans hn⟩
  · rintro ⟨n, hn⟩
    exact ⟨n + 1, (run_succ_inl h).trans hn⟩

/-- The last iteration. -/
theorem returns_inr (h : body s = .inr r') : Returns body s r ↔ r = r' := by
  constructor
  · rintro ⟨n | n, hn⟩
    · cases hn
    · exact (Option.some.inj ((run_succ_inr h).symm.trans hn)).symm
  · rintro rfl
    exact ⟨1, run_succ_inr h⟩

/-- What an iteration comes to, by whether it leaves the loop. -/
theorem elim_of_after {After : σ ⊕ ρ → Prop} {Inv : σ → Prop} {Post : ρ → Prop} {z : σ ⊕ ρ}
    (h : After z) (h_step : ∀ s, After (.inl s) → Inv s) (h_exit : ∀ r, After (.inr r) → Post r) :
    Sum.elim Inv Post z := by
  cases z with
  | inl s => exact h_step s h
  | inr r => exact h_exit r h

/-- **Partial correctness.** Every iteration keeps the invariant, or leaves the loop with the
postcondition. -/
theorem Returns.rule (Inv : σ → Prop) (Post : ρ → Prop)
    (h_body : ∀ s, Inv s → Sum.elim Inv Post (body s))
    (h : Returns body s r) (hs : Inv s) : Post r := by
  obtain ⟨n, hn⟩ := h
  induction n generalizing s with
  | zero => cases hn
  | succ n ih =>
    have hafter := h_body s hs
    cases hb : body s with
    | inl s' =>
      rw [hb] at hafter
      exact ih hafter ((run_succ_inl hb).symm.trans hn)
    | inr r' =>
      rw [hb] at hafter
      obtain rfl := Option.some.inj ((run_succ_inr hb).symm.trans hn)
      exact hafter

/-- The states the loop goes through. -/
def Visits (body : σ → σ ⊕ ρ) : σ → σ → Prop :=
  Relation.ReflTransGen fun s s' => body s = .inl s'

/-- What every iteration keeps holds of every state the loop goes through. -/
theorem Visits.rule (Inv : σ → Prop) (h_step : ∀ s s', Inv s → body s = .inl s' → Inv s')
    (h : Visits body s s') (hs : Inv s) : Inv s' := by
  induction h with
  | refl => exact hs
  | tail _ hstep ih => exact h_step _ _ ih hstep

/-- A loop that is left is left from a state it goes through. -/
theorem Returns.exists_last (h : Returns body s r) : ∃ x, Visits body s x ∧ body x = .inr r := by
  obtain ⟨n, hn⟩ := h
  induction n generalizing s with
  | zero => cases hn
  | succ n ih =>
    cases hb : body s with
    | inl s' =>
      obtain ⟨x, hx, hlast⟩ := ih ((run_succ_inl hb).symm.trans hn)
      exact ⟨x, .head hb hx, hlast⟩
    | inr r' =>
      obtain rfl := Option.some.inj ((run_succ_inr hb).symm.trans hn)
      exact ⟨s, .refl, hb⟩

theorem Visits.returns (h : Visits body s s') (hr : body s' = .inr r) : Returns body s r := by
  induction h using Relation.ReflTransGen.head_induction_on with
  | refl => exact (returns_inr hr).mpr rfl
  | head hstep _ ih => exact (returns_inl hstep).mpr ih

/-- **The exact condition of a loop.** Every iteration keeps the invariant. If an iteration from
a bad state leaves the loop without the postcondition, and one that leaves the loop from any
other state has it, then the result has the postcondition exactly when no state visited is
bad. -/
theorem Returns.visits_iff (Inv Bad : σ → Prop) (Post : ρ → Prop)
    (h_step : ∀ s s', Inv s → body s = .inl s' → Inv s' ∧ ¬Bad s)
    (h_exit : ∀ s r, Inv s → body s = .inr r → (Post r ↔ ¬Bad s))
    (h : Returns body s r) (hs : Inv s) : Post r ↔ ∀ x, Visits body s x → ¬Bad x := by
  obtain ⟨n, hn⟩ := h
  induction n generalizing s with
  | zero => cases hn
  | succ n ih =>
    cases hb : body s with
    | inl s' =>
      obtain ⟨hs', hgood⟩ := h_step s s' hs hb
      rw [ih hs' ((run_succ_inl hb).symm.trans hn)]
      refine ⟨fun hall x hx => ?_, fun hall x hx => hall x (.head hb hx)⟩
      rcases Relation.ReflTransGen.cases_head hx with rfl | ⟨y, hy, hyx⟩
      · exact hgood
      · obtain rfl := Sum.inl.inj (hb.symm.trans hy)
        exact hall x hyx
    | inr r' =>
      obtain rfl := Option.some.inj ((run_succ_inr hb).symm.trans hn)
      rw [h_exit s r' hs hb]
      refine ⟨fun hgood x hx => ?_, fun hall => hall s .refl⟩
      rcases Relation.ReflTransGen.cases_head hx with rfl | ⟨y, hy, -⟩
      · exact hgood
      · cases hb.symm.trans hy

/-- **Total correctness.** Every iteration keeps the invariant and decreases the measure, or
leaves the loop with the postcondition. -/
theorem exists_returns (Inv : σ → Prop) (μ : σ → ℕ) {Post : ρ → Prop}
    (h_body : ∀ s, Inv s → Sum.elim (fun s' => Inv s' ∧ μ s' < μ s) Post (body s))
    (hs : Inv s) : ∃ r, Returns body s r ∧ Post r := by
  induction hm : μ s using Nat.strongRecOn generalizing s with
  | ind m ih =>
    have hafter := h_body s hs
    cases hb : body s with
    | inl s' =>
      rw [hb] at hafter
      obtain ⟨hinv, hlt⟩ := hafter
      obtain ⟨r, hr, hpost⟩ := ih (μ s') (hm ▸ hlt) hinv rfl
      exact ⟨r, (returns_inl hb).mpr hr, hpost⟩
    | inr r =>
      rw [hb] at hafter
      exact ⟨r, (returns_inr hb).mpr rfl, hafter⟩

/-! ### What is known of the states the loop goes through -/

/-- `exists_returns`, where an iteration may rely on its state being one that is visited. -/
theorem exists_returns_visits (Inv : σ → Prop) (μ : σ → ℕ) {Post : ρ → Prop}
    (h_body : ∀ x, Visits body s x → Inv x → Sum.elim (fun y => Inv y ∧ μ y < μ x) Post (body x))
    (hs : Inv s) : ∃ r, Returns body s r ∧ Post r := by
  refine exists_returns (fun x => Inv x ∧ Visits body s x) μ ?_ ⟨hs, .refl⟩
  rintro x ⟨hx, hvisits⟩
  have hafter := h_body x hvisits hx
  cases hb : body x with
  | inl y =>
    rw [hb] at hafter
    exact ⟨⟨hafter.1, hvisits.tail hb⟩, hafter.2⟩
  | inr r =>
    rw [hb] at hafter
    exact hafter

/-- No iteration from a visited state is the last. -/
theorem not_returns (Inv : σ → Prop)
    (h_body : ∀ x, Visits body s x → Inv x → ∃ y, body x = .inl y ∧ Inv y) (hs : Inv s) (r : ρ) :
    ¬Returns body s r := by
  intro hr
  refine hr.rule (fun x => Inv x ∧ Visits body s x) (fun _ => False) ?_ ⟨hs, .refl⟩
  rintro x ⟨hx, hvisits⟩
  obtain ⟨y, hy, hinv⟩ := h_body x hvisits hx
  rw [hy]
  exact ⟨hinv, hvisits.tail hy⟩

/-- The loop is left within `n` iterations, and every state it goes through passes the test. -/
def passes (body : σ → σ ⊕ ρ) (test : σ → Bool) : ℕ → σ → Bool
  | 0, _ => false
  | n + 1, s =>
    test s && match body s with
      | .inl s' => passes body test n s'
      | .inr _ => true

theorem forall_visits_of_passes {test : σ → Bool} {n : ℕ} (h : passes body test n s = true) :
    ∀ x, Visits body s x → test x = true := by
  induction n generalizing s with
  | zero => cases h
  | succ n ih =>
    obtain ⟨htest, hrest⟩ := Bool.and_eq_true_iff.mp h
    intro x hx
    rcases Relation.ReflTransGen.cases_head hx with rfl | ⟨y, hy, hyx⟩
    · exact htest
    · -- the states behind the first
      rw [hy] at hrest
      exact ih hrest x hyx

end Loop
