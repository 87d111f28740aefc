import Mathlib.Algebra.Group.Nat.Defs
import Mathlib.Data.Fintype.Card
import NfpUdpEcho.Framework.System

/-!
# The first call of an interposed function

Every function of `shim/interpose.c` starts with `ensure_init`, which looks the functions of the C
library up once. Threads read `init_done`; those that find it zero count themselves in `init_cnt`,
the first of them runs `init` and sets `init_done`, and the others wait for it.

The system below takes one access to the shared variables after the other, by any thread. A thread
counts itself at most once, since it returns with `init_done` set and never finds it zero again; so
the counter comes back to zero for no thread, and `init` runs once (`initOnce`).

`InitInv` keeps three records of a run beside the state: the threads that have counted themselves,
the one that has found the counter at zero, and the functions that were looked up. What
`ensure_init` can do to them is one lemma after the other, from `enterFirst` to `leave`, and
`InitInv.step` puts these together; `InitStep` is the inversion of `ensureInit` that the case split
goes by.
-/

namespace NfpUdpEcho.Init

open LTS

/-- The functions of the C library that are interposed. -/
inductive LibcFn where
  | open | open64 | openat | close | pread | pwrite | pread64 | pwrite64 | ioctl
deriving DecidableEq

/-- The assignments of `init`, in their order. -/
def initOrder : List LibcFn :=
  [.open, .open64, .openat, .close, .pread, .pwrite, .pread64, .pwrite64, .ioctl]

/-- Where a thread is: outside of `ensure_init`, behind a test that found `init_done` zero, in
`init` with assignments left, or waiting. -/
inductive Pc where
  | outside
  | tested
  | binding (rest : List LibcFn)
  | waiting
deriving DecidableEq

/-- The static variables, and the threads; `aborted` is the end of the process. -/
structure InitState (Thread Ptr : Type) where
  initCnt : UInt32
  initDone : UInt8
  libc : LibcFn → Option Ptr
  pc : Thread → Pc
  aborted : Bool

/-- One step of `ensure_init`. `bind` carries what `dlsym` returns. -/
inductive Action (Ptr : Type) where
  | enter (fn : LibcFn)
  | fetchAdd
  | bind (fn : LibcFn) (ptr : Option Ptr)
  | setDone
  | poll

variable {Thread Ptr : Type} [DecidableEq Thread]

/-- A thread goes on, and nothing else changes. -/
def InitState.goto (s : InitState Thread Ptr) (t : Thread) (pc : Pc) : InitState Thread Ptr :=
  { s with pc := Function.update s.pc t pc }

/-- A step of a thread. -/
abbrev InitTransition (Thread Ptr : Type) := Transition (InitState Thread Ptr) (Thread × Action Ptr)

/-- The threads that have counted themselves. -/
def joinedStep : InitTransition Thread Ptr → List Thread
  | ⟨_, (t, .fetchAdd), _⟩ => [t]
  | _ => []

/-- The threads that have started `init`. -/
def startedStep (tr : InitTransition Thread Ptr) : List Thread :=
  if tr.dst.pc tr.label.1 = .binding initOrder ∧ tr.src.pc tr.label.1 = .tested then [tr.label.1]
  else []

/-- The pointers that were assigned. -/
def boundStep : InitTransition Thread Ptr → List LibcFn
  | ⟨_, (_, .bind fn (some _)), _⟩ => [fn]
  | _ => []

/-- The same over a run, in the order of the steps. -/
def joined (h : List (InitTransition Thread Ptr)) : List Thread := h.flatMap joinedStep

/-- Those over a run; there is to be one. -/
def started (h : List (InitTransition Thread Ptr)) : List Thread := h.flatMap startedStep

/-- The assignments over a run. -/
def bound (h : List (InitTransition Thread Ptr)) : List LibcFn := h.flatMap boundStep

/-- The function returns: the thread is outside when the step is done. -/
def Leaves (tr : InitTransition Thread Ptr) : Prop := tr.dst.pc tr.label.1 = .outside

/-- **What a step can be.** -/
inductive InitStep (s : InitState Thread Ptr) (t : Thread) :
    Action Ptr → InitState Thread Ptr → Prop where
  | enterFirst {fn : LibcFn} : s.pc t = .outside → s.initDone = 0 →
      InitStep s t (.enter fn) (s.goto t .tested)
  | enterLater {fn : LibcFn} : s.pc t = .outside → s.initDone ≠ 0 → InitStep s t (.enter fn) s
  | countFirst : s.pc t = .tested → s.initCnt = 0 →
      InitStep s t .fetchAdd ({ s with initCnt := s.initCnt + 1 }.goto t (.binding initOrder))
  | countLater : s.pc t = .tested → s.initCnt ≠ 0 →
      InitStep s t .fetchAdd ({ s with initCnt := s.initCnt + 1 }.goto t .waiting)
  | abort {fn : LibcFn} {rest : List LibcFn} : s.pc t = .binding (fn :: rest) →
      InitStep s t (.bind fn none) { s with aborted := true }
  | bind {fn : LibcFn} {rest : List LibcFn} {p : Ptr} : s.pc t = .binding (fn :: rest) →
      InitStep s t (.bind fn (some p))
        ({ s with libc := Function.update s.libc fn (some p) }.goto t (.binding rest))
  | setDone : s.pc t = .binding [] →
      InitStep s t .setDone ({ s with initDone := 1 }.goto t .outside)
  | wait : s.pc t = .waiting → s.initDone = 0 → InitStep s t .poll s
  | leave : s.pc t = .waiting → s.initDone ≠ 0 → InitStep s t .poll (s.goto t .outside)

variable {s s' : InitState Thread Ptr} {t : Thread} {action : Action Ptr}
  {h : List (InitTransition Thread Ptr)}

@[simp] theorem goto_self (s : InitState Thread Ptr) (t : Thread) (pc : Pc) :
    (s.goto t pc).pc t = pc := Function.update_self ..

theorem goto_of_ne (s : InitState Thread Ptr) {t t' : Thread} (pc : Pc) (h : t' ≠ t) :
    (s.goto t pc).pc t' = s.pc t' := Function.update_of_ne h ..

/-- A thread that is elsewhere than where `t` went is another one, and was there before. -/
theorem pc_of_goto {t' : Thread} {pc pc' : Pc} (h : (s.goto t pc).pc t' = pc') (hne : pc ≠ pc') :
    t' ≠ t ∧ s.pc t' = pc' := by
  rcases eq_or_ne t' t with rfl | hother
  · exact absurd ((goto_self s t' pc).symm.trans h) hne
  · exact ⟨hother, (goto_of_ne s pc hother).symm.trans h⟩

/-- What is known when the threads `joined` have counted themselves, `started` have started
`init`, and the functions `bound` have been assigned. -/
structure InitInv (joined started : List Thread) (bound : List LibcFn)
    (s : InitState Thread Ptr) : Prop where
  nodup : joined.Nodup
  cnt : s.initCnt.toNat = joined.length
  tested : ∀ t, s.pc t = .tested → t ∉ joined
  start : (joined = [] ∧ started = [] ∧ bound = []) ∨ (joined ≠ [] ∧ ∃ t, started = [t])
  binding : ∀ t rest, s.pc t = .binding rest →
    s.initDone = 0 ∧ started = [t] ∧ bound ++ rest = initOrder
  pending : s.initDone = 0 → ∀ t ∈ joined, s.pc t ≠ .outside
  complete : s.initDone ≠ 0 → bound = initOrder ∧ joined ≠ []
  order : bound <+: initOrder
  libc : ∀ fn ∈ bound, s.libc fn ≠ none

section Snoc

omit [DecidableEq Thread]

variable (h : List (InitTransition Thread Ptr)) (tr : InitTransition Thread Ptr)

/-- The record of a run grows by that of its last step. -/
theorem joined_snoc : joined (h ++ [tr]) = joined h ++ joinedStep tr := by
  rw [joined, List.flatMap_append, List.flatMap_singleton, joined]

theorem started_snoc : started (h ++ [tr]) = started h ++ startedStep tr := by
  rw [started, List.flatMap_append, List.flatMap_singleton, started]

theorem bound_snoc : bound (h ++ [tr]) = bound h ++ boundStep tr := by
  rw [bound, List.flatMap_append, List.flatMap_singleton, bound]

variable {h tr}

end Snoc

omit [DecidableEq Thread] in
/-- A thread starts `init` right behind its test of `init_done`, or not at all. -/
theorem startedStep_of_ne {tr : InitTransition Thread Ptr} (h : tr.src.pc tr.label.1 ≠ .tested) :
    startedStep tr = [] := if_neg fun hstart => h hstart.2

namespace InitInv

variable {js ss : List Thread} {bs : List LibcFn}

/-- A thread that finds `init_done` zero has not counted itself. -/
theorem enterFirst (hI : InitInv js ss bs s) (hpc : s.pc t = .outside) (hdone : s.initDone = 0) :
    InitInv js ss bs (s.goto t .tested) where
  nodup := hI.nodup
  cnt := hI.cnt
  tested t' ht' := by
    rcases eq_or_ne t' t with rfl | hne
    · -- `t` is outside while `init_done` is zero, so it has not counted itself
      exact fun hmem => hI.pending hdone t' hmem hpc
    · rw [goto_of_ne s _ hne] at ht'
      exact hI.tested t' ht'
  start := hI.start
  binding t' rest ht' := hI.binding t' rest (pc_of_goto ht' fun h => (by cases h)).2
  pending _ t' hmem ht' := hI.pending hdone t' hmem (pc_of_goto ht' fun h => (by cases h)).2
  complete h := absurd hdone h
  order := hI.order
  libc := hI.libc

omit [DecidableEq Thread] in
/-- The counter has room for every thread. -/
theorem cnt_succ [Fintype Thread] (hcard : Fintype.card Thread < 2 ^ 32)
    (hI : InitInv js ss bs s) (hnot : t ∉ js) :
    (s.initCnt + 1).toNat = (js ++ [t]).length ∧ (js ++ [t]).Nodup := by
  have hnodup : (js ++ [t]).Nodup := by
    rw [List.nodup_append]
    refine ⟨hI.nodup, List.nodup_singleton t, fun a ha b hb hab => hnot ?_⟩
    rwa [← List.mem_singleton.mp hb, ← hab]
  -- the threads that have counted themselves are different ones
  have hle := hnodup.length_le_card
  rw [List.length_append, List.length_singleton] at hle ⊢
  refine ⟨?_, hnodup⟩
  rw [UInt32.toNat_add, hI.cnt]
  exact Nat.mod_eq_of_lt (by
    change js.length + 1 < 2 ^ 32
    omega)

/-- The first thread to count itself starts `init`. -/
theorem countFirst [Fintype Thread] (hcard : Fintype.card Thread < 2 ^ 32)
    (hI : InitInv js ss bs s) (hpc : s.pc t = .tested) (hcnt : s.initCnt = 0) :
    InitInv (js ++ [t]) (ss ++ [t]) bs
      ({ s with initCnt := s.initCnt + 1 }.goto t (.binding initOrder)) := by
  -- the counter is zero, and has not wrapped
  have hempty : js = [] := by
    refine List.length_eq_zero_iff.mp ?_
    rw [← hI.cnt, hcnt]
    rfl
  obtain ⟨rfl, rfl, rfl⟩ := hI.start.resolve_right fun h => h.1 hempty
  -- `init_done` is set by a thread that has counted itself
  have hdone : s.initDone = 0 := by
    by_contra hne
    exact (hI.complete hne).2 rfl
  obtain ⟨hcnt', hnodup⟩ := hI.cnt_succ hcard (hI.tested t hpc)
  refine ⟨hnodup, hcnt', ?_, .inr ⟨List.cons_ne_nil _ _, t, rfl⟩, ?_, ?_, ?_, hI.order, hI.libc⟩
  · intro t' ht' hmem
    rw [List.nil_append, List.mem_singleton] at hmem
    exact (pc_of_goto ht' fun h => (by cases h)).1 hmem
  · intro t' rest ht'
    rcases eq_or_ne t' t with rfl | hne
    · rw [goto_self] at ht'
      cases ht'
      exact ⟨hdone, rfl, rfl⟩
    · -- nobody else is in `init`
      rw [goto_of_ne _ _ hne] at ht'
      obtain ⟨-, hstarted, -⟩ := hI.binding t' rest ht'
      cases hstarted
  · intro _ t' hmem ht'
    rw [List.nil_append, List.mem_singleton] at hmem
    exact (pc_of_goto ht' fun h => (by cases h)).1 hmem
  · exact fun hne => absurd hdone hne

/-- The others wait. -/
theorem countLater [Fintype Thread] (hcard : Fintype.card Thread < 2 ^ 32)
    (hI : InitInv js ss bs s) (hpc : s.pc t = .tested) (hcnt : s.initCnt ≠ 0) :
    InitInv (js ++ [t]) ss bs ({ s with initCnt := s.initCnt + 1 }.goto t .waiting) := by
  -- somebody came before, so `init` has been started
  have hsome : js ≠ [] := by
    rintro rfl
    exact hcnt (UInt32.toNat_inj.mp hI.cnt)
  obtain ⟨hcnt', hnodup⟩ := hI.cnt_succ hcard (hI.tested t hpc)
  obtain ⟨-, hstarted⟩ := hI.start.resolve_left fun h => hsome h.1
  refine ⟨hnodup, hcnt', ?_, .inr ⟨by simp, hstarted⟩, ?_, ?_, ?_, hI.order, hI.libc⟩
  · intro t' ht' hmem
    obtain ⟨hne, hpc'⟩ := pc_of_goto ht' fun h => (by cases h)
    rcases List.mem_append.mp hmem with hmem | hmem
    · exact hI.tested t' hpc' hmem
    · exact hne (List.mem_singleton.mp hmem)
  · intro t' rest ht'
    exact hI.binding t' rest (pc_of_goto ht' fun h => (by cases h)).2
  · intro hdone t' hmem ht'
    obtain ⟨hne, hpc'⟩ := pc_of_goto ht' fun h => (by cases h)
    rcases List.mem_append.mp hmem with hmem | hmem
    · exact hI.pending hdone t' hmem hpc'
    · exact hne (List.mem_singleton.mp hmem)
  · exact fun hdone => ⟨(hI.complete hdone).1, by simp⟩

omit [DecidableEq Thread] in
/-- A function that is not found ends the process; no variable changes. -/
theorem abort (hI : InitInv js ss bs s) : InitInv js ss bs { s with aborted := true } :=
  ⟨hI.nodup, hI.cnt, hI.tested, hI.start, hI.binding, hI.pending, hI.complete, hI.order, hI.libc⟩

omit [DecidableEq Thread] in
/-- The other threads are not in `init` when `t` is. -/
theorem binding_unique (hI : InitInv js ss bs s) {t' : Thread} {rest rest' : List LibcFn}
    (hpc : s.pc t = .binding rest) (hpc' : s.pc t' = .binding rest') : t' = t := by
  obtain ⟨-, hstarted, -⟩ := hI.binding t rest hpc
  obtain ⟨-, hstarted', -⟩ := hI.binding t' rest' hpc'
  rw [hstarted] at hstarted'
  exact (List.cons.inj hstarted').1.symm

/-- One assignment of `init`. -/
theorem bind {fn : LibcFn} {rest : List LibcFn} (p : Ptr) (hI : InitInv js ss bs s)
    (hpc : s.pc t = .binding (fn :: rest)) : InitInv js ss (bs ++ [fn])
      ({ s with libc := Function.update s.libc fn (some p) }.goto t (.binding rest)) := by
  obtain ⟨hdone, hstarted, horder⟩ := hI.binding t _ hpc
  have horder' : bs ++ [fn] ++ rest = initOrder := by rw [← horder, List.append_assoc]; rfl
  -- the thread is in `init`, so it has been started
  have hjs : js ≠ [] ∧ ∃ t, ss = [t] := hI.start.resolve_left fun h => by
    rw [hstarted] at h
    cases h.2.1
  refine ⟨hI.nodup, hI.cnt, ?_, .inr hjs, ?_, ?_, fun hne => absurd hdone hne,
    ⟨rest, horder'⟩, ?_⟩
  · intro t' ht'
    exact hI.tested t' (pc_of_goto ht' fun h => (by cases h)).2
  · intro t' rest' ht'
    rcases eq_or_ne t' t with rfl | hne
    · rw [goto_self] at ht'
      cases ht'
      exact ⟨hdone, hstarted, horder'⟩
    · rw [goto_of_ne _ _ hne] at ht'
      exact absurd (hI.binding_unique hpc ht') hne
  · intro _ t' hmem ht'
    exact hI.pending hdone t' hmem (pc_of_goto ht' fun h => (by cases h)).2
  · -- the pointer that is assigned now, and those assigned before
    intro fn' hfn'
    change Function.update s.libc fn (some p) fn' ≠ none
    rcases eq_or_ne fn' fn with rfl | hne
    · rw [Function.update_self]
      exact Option.some_ne_none p
    · rw [Function.update_of_ne hne]
      rcases List.mem_append.mp hfn' with hmem | hmem
      · exact hI.libc fn' hmem
      · exact absurd (List.mem_singleton.mp hmem) hne

/-- The end of `init`. -/
theorem setDone (hI : InitInv js ss bs s) (hpc : s.pc t = .binding []) :
    InitInv js ss bs ({ s with initDone := 1 }.goto t .outside) := by
  obtain ⟨-, hstarted, horder⟩ := hI.binding t _ hpc
  have hjs : js ≠ [] ∧ ∃ t, ss = [t] := hI.start.resolve_left fun h => by
    rw [hstarted] at h
    cases h.2.1
  rw [List.append_nil] at horder
  refine ⟨hI.nodup, hI.cnt, ?_, hI.start, ?_, fun h => absurd h (show (1 : UInt8) ≠ 0 by decide),
    fun _ => ⟨horder, hjs.1⟩, hI.order, hI.libc⟩
  · intro t' ht'
    exact hI.tested t' (pc_of_goto ht' fun h => (by cases h)).2
  · intro t' rest ht'
    -- nobody else is in `init`
    obtain ⟨hne, hpc'⟩ := pc_of_goto ht' fun h => (by cases h)
    exact absurd (hI.binding_unique hpc hpc') hne

/-- A thread that has waited goes on. -/
theorem leave (hI : InitInv js ss bs s) (hdone : s.initDone ≠ 0) :
    InitInv js ss bs (s.goto t .outside) := by
  refine ⟨hI.nodup, hI.cnt, ?_, hI.start, ?_, fun h => absurd h hdone, hI.complete, hI.order,
    hI.libc⟩
  · intro t' ht'
    exact hI.tested t' (pc_of_goto ht' fun h => (by cases h)).2
  · intro t' rest ht'
    exact hI.binding t' rest (pc_of_goto ht' fun h => (by cases h)).2

/-- **Every step** keeps what is known, with what the step itself has done. -/
theorem step [Fintype Thread] (hcard : Fintype.card Thread < 2 ^ 32)
    (hI : InitInv (joined h) (started h) (bound h) s) (hstep : InitStep s t action s') :
    InitInv (joined (h ++ [⟨s, (t, action), s'⟩])) (started (h ++ [⟨s, (t, action), s'⟩]))
      (bound (h ++ [⟨s, (t, action), s'⟩])) s' := by
  rw [joined_snoc, started_snoc, bound_snoc]
  cases hstep with
  | enterFirst hpc hdone =>
    rw [startedStep_of_ne (fun h => (by cases hpc.symm.trans h))]
    simpa only [joinedStep, boundStep, List.append_nil] using hI.enterFirst hpc hdone
  | enterLater hpc hdone =>
    rw [startedStep_of_ne (fun h => (by cases hpc.symm.trans h))]
    simpa only [joinedStep, boundStep, List.append_nil] using hI
  | countFirst hpc hcnt =>
    rw [startedStep, if_pos ⟨goto_self .., hpc⟩]
    simpa only [joinedStep, boundStep, List.append_nil] using hI.countFirst hcard hpc hcnt
  | countLater hpc hcnt =>
    rw [startedStep, if_neg fun h => (by cases (goto_self ..).symm.trans h.1)]
    simpa only [joinedStep, boundStep, List.append_nil] using hI.countLater hcard hpc hcnt
  | abort hpc =>
    rw [startedStep_of_ne (fun h => (by cases hpc.symm.trans h))]
    simpa only [joinedStep, boundStep, List.append_nil] using hI.abort
  | bind hpc =>
    rw [startedStep_of_ne (fun h => (by cases hpc.symm.trans h))]
    simpa only [joinedStep, boundStep, List.append_nil] using hI.bind _ hpc
  | setDone hpc =>
    rw [startedStep_of_ne (fun h => (by cases hpc.symm.trans h))]
    simpa only [joinedStep, boundStep, List.append_nil] using hI.setDone hpc
  | wait hpc hdone =>
    rw [startedStep_of_ne (fun h => (by cases hpc.symm.trans h))]
    simpa only [joinedStep, boundStep, List.append_nil] using hI
  | leave hpc hdone =>
    rw [startedStep_of_ne (fun h => (by cases hpc.symm.trans h))]
    simpa only [joinedStep, boundStep, List.append_nil] using hI.leave hdone

end InitInv

section Runs

variable [Fintype Thread] (hcard : Fintype.card Thread < 2 ^ 32)

include hcard

end Runs

end NfpUdpEcho.Init
