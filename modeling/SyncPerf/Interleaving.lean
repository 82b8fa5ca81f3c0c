import Mathlib.Algebra.BigOperators.Group.Finset.Basic
import Mathlib.Algebra.BigOperators.Group.Finset.Piecewise
import Mathlib.Algebra.Ring.Int.Defs
import Mathlib.Data.Fintype.Card
import Mathlib.Logic.Function.Basic
import Mathlib.Data.List.Basic
import SyncPerf.MapTotals

namespace Interleaving

open scoped BigOperators

/-!
# Interleaving systems

Threads `ι`, each with a local state `ℓ` (program counter and locals), run over one shared
state `σ`.  A thread's atomic step is a partial function of the thread, an action `α` that
resolves what the environment decides (which operation is called next, whether a wait ends),
its local state and the shared state.  Any thread may take the next step, so a run of the
system is any interleaving of the threads' atomic steps.

* `System.step` / `Run` — one step of one thread, and runs with the list of steps taken;
* `Run.invariant`, `Run.invariant_of`, `Run.history` — the induction rules: what every step
  keeps holds at the end of every run, of every run whose steps meet a condition, and
  jointly with the history of the run;
* `Run.last` — a run up to the last step with a property, and the rest of it;
* `Run.ledger` — what a shared total tells about the steps of a run;
* `forall_update` — a property of every thread survives a step when the stepping thread
  re-establishes it and the others are stable under the change of the shared state;
* `unique_update` — a property that one thread has at most;
* `sum_update`, `card_update` — totals over all threads change by what the stepping thread
  changed;
* `System.exec` — the run of a given schedule, for evaluating concrete interleavings.
-/

/-- A system of threads: `next i a l s` is what thread `i` in local state `l` does to the
    shared state `s` on action `a`, or `none` when that step is not enabled. -/
structure System (ι α ℓ σ : Type) where
  next : ι → α → ℓ → σ → Option (ℓ × σ)

/-- A configuration: the local state of every thread and the shared state. -/
structure Config (ι ℓ σ : Type) where
  loc : ι → ℓ
  sh : σ

/-- One step of a run: who took it, on which action, from which configuration. -/
structure Event (ι α ℓ σ : Type) where
  pre : Config ι ℓ σ
  who : ι
  act : α

variable {ι α ℓ σ : Type} [DecidableEq ι]

/-! ### Steps -/

/-- Thread `i` takes its step on action `a`; the other threads keep their local states. -/
def System.step (M : System ι α ℓ σ) (c : Config ι ℓ σ) (i : ι) (a : α) :
    Option (Config ι ℓ σ) :=
  (M.next i a (c.loc i) c.sh).map fun r => ⟨Function.update c.loc i r.1, r.2⟩

/-- What one step does: the stepping thread's local state and the shared state change as
    `next` says, and nothing else. -/
theorem System.step_eq_some {M : System ι α ℓ σ} {c d : Config ι ℓ σ} {i : ι} {a : α} :
    M.step c i a = some d ↔
      ∃ l s, M.next i a (c.loc i) c.sh = some (l, s) ∧
        d = ⟨Function.update c.loc i l, s⟩ := by
  unfold System.step
  rw [Option.map_eq_some_iff]
  constructor
  · rintro ⟨⟨l, s⟩, hn, rfl⟩
    exact ⟨l, s, hn, rfl⟩
  · rintro ⟨l, s, hn, rfl⟩
    exact ⟨(l, s), hn, rfl⟩

/-- A property of every thread survives the stepping thread's update when that thread
    re-establishes it and it is stable for the others. -/
theorem forall_update {loc : ι → ℓ} {i : ι} {l : ℓ} {P : ι → ℓ → Prop}
    (hself : P i l) (hother : ∀ j, j ≠ i → P j (loc j)) :
    ∀ j, P j (Function.update loc i l j) := by
  intro j
  by_cases h : j = i
  · subst h
    rw [Function.update_self]
    exact hself
  · rw [Function.update_of_ne h]
    exact hother j h

/-- A property that one thread has at most stays so, when the stepping thread had it before, or
    nobody had it, or the thread does not have it afterwards. -/
theorem unique_update {P : ℓ → Prop} {loc : ι → ℓ} {i : ι} {l : ℓ}
    (h : ∀ j k, P (loc j) → P (loc k) → j = k) (hl : P l → P (loc i) ∨ ∀ j, ¬ P (loc j)) :
    ∀ j k, P (Function.update loc i l j) → P (Function.update loc i l k) → j = k := by
  have hother : ∀ j, j ≠ i → P (Function.update loc i l i) →
      ¬ P (Function.update loc i l j) := by
    intro j hj hi hPj
    rw [Function.update_self] at hi
    rw [Function.update_of_ne hj] at hPj
    rcases hl hi with hi | hnone
    · exact hj (h j i hPj hi)
    · exact hnone j hPj
  intro j k hj hk
  by_cases hji : j = i
  · subst hji
    by_contra hne
    exact hother k (Ne.symm hne) hj hk
  · by_cases hki : k = i
    · subst hki
      exact absurd hj (hother j hji hk)
    · rw [Function.update_of_ne hji] at hj
      rw [Function.update_of_ne hki] at hk
      exact h j k hj hk

/-! ### Totals over all threads -/

/-- The sum over all threads after one of them changed its local state. -/
theorem sum_update [Fintype ι] (f : ℓ → ℕ) (loc : ι → ℓ) (i : ι) (l : ℓ) :
    ∑ j, f (Function.update loc i l j) + f (loc i) = ∑ j, f (loc j) + f l := by
  rw [MapTotals.sum_update f loc (Finset.mem_univ i), add_comm]

/-- The number of threads with a property after one of them changed its local state. -/
theorem card_update [Fintype ι] (P : ℓ → Prop) [DecidablePred P] (loc : ι → ℓ) (i : ι) (l : ℓ) :
    (Finset.univ.filter fun j => P (Function.update loc i l j)).card +
        (if P (loc i) then 1 else 0) =
      (Finset.univ.filter fun j => P (loc j)).card + (if P l then 1 else 0) := by
  rw [Finset.card_filter, Finset.card_filter]
  exact sum_update (fun l => if P l then 1 else 0) loc i l

/-! ### Runs -/

/-- `Run M c tr d`: some interleaving leads from `c` to `d`, and `tr` lists its steps. -/
inductive Run (M : System ι α ℓ σ) (c : Config ι ℓ σ) :
    List (Event ι α ℓ σ) → Config ι ℓ σ → Prop
  | refl : Run M c [] c
  | snoc {tr : List (Event ι α ℓ σ)} {d e : Config ι ℓ σ} {i : ι} {a : α} :
      Run M c tr d → M.step d i a = some e → Run M c (tr ++ [⟨d, i, a⟩]) e

variable {M : System ι α ℓ σ} {c d e : Config ι ℓ σ} {tr tr' : List (Event ι α ℓ σ)}

/-- Runs compose. -/
theorem Run.trans (h : Run M c tr d) (h' : Run M d tr' e) : Run M c (tr ++ tr') e := by
  induction h' with
  | refl => simpa using h
  | snoc _ hstep ih =>
    rw [← List.append_assoc]
    exact Run.snoc ih hstep

/-- **History rule.** What holds initially with the empty history, and is kept by every step
    when the step is added to the history, holds at the end of every run. -/
theorem Run.history {I : List (Event ι α ℓ σ) → Config ι ℓ σ → Prop}
    (hrun : Run M c tr d) (hinit : I [] c)
    (hstep : ∀ tr d i a e, I tr d → M.step d i a = some e → I (tr ++ [⟨d, i, a⟩]) e) :
    I tr d := by
  induction hrun with
  | refl => exact hinit
  | snoc _ hs ih => exact hstep _ _ _ _ _ ih hs

/-- **Invariant rule under a condition on the steps.** What holds initially and is kept by
    every step meeting `G` holds at the end of every run whose steps all meet `G`. -/
theorem Run.invariant_of {I : Config ι ℓ σ → Prop} {G : Event ι α ℓ σ → Prop}
    (hrun : Run M c tr d) (hG : ∀ x ∈ tr, G x) (hinit : I c)
    (hstep : ∀ d i a e, I d → G ⟨d, i, a⟩ → M.step d i a = some e → I e) : I d := by
  induction hrun with
  | refl => exact hinit
  | snoc _ hs ih =>
    refine hstep _ _ _ _ (ih fun x hx => hG x (by simp [hx])) (hG _ (by simp)) hs

/-- **Invariant rule.** What holds initially and is kept by every step holds at the end of
    every run. -/
theorem Run.invariant {I : Config ι ℓ σ → Prop} (hrun : Run M c tr d) (hinit : I c)
    (hstep : ∀ d i a e, I d → M.step d i a = some e → I e) : I d :=
  hrun.invariant_of (G := fun _ => True) (fun _ _ => trivial) hinit
    fun d i a e hI _ hs => hstep d i a e hI hs

/-- Every step of a run was enabled when it was taken. -/
theorem Run.enabled (h : Run M c tr d) :
    ∀ x ∈ tr, ∃ e, M.step x.pre x.who x.act = some e := by
  refine (h.history (I := fun tr _ => ∀ x ∈ tr, ∃ e, M.step x.pre x.who x.act = some e)
    (by simp) ?_)
  intro tr d i a e ih hs x hx
  rcases List.mem_append.mp hx with hx | hx
  · exact ih x hx
  · rw [List.mem_singleton.mp hx]
    exact ⟨e, hs⟩

/-- Every step of a run was taken from the end of another run. -/
theorem Run.pre (h : Run M c tr d) : ∀ x ∈ tr, ∃ tr', Run M c tr' x.pre := by
  induction h with
  | refl => simp
  | snoc hrun _ ih =>
    intro x hx
    rcases List.mem_append.mp hx with hx | hx
    · exact ih x hx
    · rw [List.mem_singleton.mp hx]
      exact ⟨_, hrun⟩

/-- The last step of a run with a property, if any step has it. -/
theorem Run.last (h : Run M c tr d) (P : Event ι α ℓ σ → Prop) :
    (∀ x ∈ tr, ¬ P x) ∨ ∃ tr₁ x e tr₂, tr = tr₁ ++ [x] ++ tr₂ ∧ P x ∧ Run M c tr₁ x.pre ∧
      M.step x.pre x.who x.act = some e ∧ Run M e tr₂ d ∧ ∀ y ∈ tr₂, ¬ P y := by
  induction h with
  | refl => exact .inl (by simp)
  | @snoc tr d e i a hrun hstep ih =>
    by_cases hP : P ⟨d, i, a⟩
    · exact .inr ⟨tr, _, e, [], (List.append_nil _).symm, hP, hrun, hstep, .refl, by simp⟩
    · rcases ih with hnone | ⟨tr₁, x, e', tr₂, rfl, hx, hrun₁, hstep₁, hrun₂, hlater⟩
      · refine .inl fun x hx => ?_
        rcases List.mem_append.mp hx with hx | hx
        · exact hnone x hx
        · exact List.mem_singleton.mp hx ▸ hP
      · refine .inr ⟨tr₁, x, e', tr₂ ++ [⟨d, i, a⟩], by rw [List.append_assoc], hx, hrun₁, hstep₁,
          hrun₂.snoc hstep, fun y hy => ?_⟩
        rcases List.mem_append.mp hy with hy | hy
        · exact hlater y hy
        · exact List.mem_singleton.mp hy ▸ hP

/-- **Ledger rule.** A quantity `V` of the shared state that every step changes by an amount of its
    own, and by what it adds to the potential `φ` of the thread that takes it: over a run, the
    amounts and the potentials of the threads that took steps account for the change of `V`. -/
theorem Run.ledger (hrun : Run M c tr d) (V : σ → ℤ) (φ : ℓ → ℤ) (δ : Event ι α ℓ σ → ℤ)
    {J : Finset ι} (hJ : ∀ x ∈ tr, x.who ∈ J)
    (hstep : ∀ x ∈ tr, ∀ e, M.step x.pre x.who x.act = some e →
      V e.sh + φ (x.pre.loc x.who) = V x.pre.sh + δ x + φ (e.loc x.who)) :
    V d.sh + ∑ j ∈ J, φ (c.loc j) = V c.sh + (tr.map δ).sum + ∑ j ∈ J, φ (d.loc j) := by
  induction hrun with
  | refl => simp
  | @snoc tr d e i a _ hs ih =>
    have hprev := ih (fun x hx => hJ x (by simp [hx])) fun x hx => hstep x (by simp [hx])
    have hlast := hstep ⟨d, i, a⟩ (by simp) e hs
    obtain ⟨l, s, -, rfl⟩ := System.step_eq_some.mp hs
    have hsum := MapTotals.sum_update φ d.loc (hJ ⟨d, i, a⟩ (by simp)) l
    simp only [Function.update_self] at hlast hsum
    rw [List.map_append, List.sum_append, List.map_singleton, List.sum_singleton]
    simp only
    omega

/-! ### Schedules -/

/-- The run of a given schedule, step by step, with the steps it takes. -/
def System.exec (M : System ι α ℓ σ) (c : Config ι ℓ σ) :
    List (ι × α) → Option (List (Event ι α ℓ σ) × Config ι ℓ σ)
  | [] => some ([], c)
  | (i, a) :: rest =>
    match M.step c i a with
    | none => none
    | some d =>
      match M.exec d rest with
      | none => none
      | some (tr, e) => some (⟨c, i, a⟩ :: tr, e)

/-- A schedule that can be executed is a run. -/
theorem System.exec_run (M : System ι α ℓ σ) (sched : List (ι × α))
    (h : M.exec c sched = some (tr, d)) : Run M c tr d := by
  induction sched generalizing c tr with
  | nil =>
    simp only [System.exec, Option.some.injEq, Prod.mk.injEq] at h
    obtain ⟨rfl, rfl⟩ := h
    exact Run.refl
  | cons x rest ih =>
    obtain ⟨i, a⟩ := x
    simp only [System.exec] at h
    split at h
    · exact absurd h (by simp)
    · rename_i b hb
      split at h
      · exact absurd h (by simp)
      · rename_i tr' e' he
        simp only [Option.some.injEq, Prod.mk.injEq] at h
        obtain ⟨rfl, rfl⟩ := h
        exact Run.trans (Run.snoc Run.refl hb) (ih he)

/-- The steps of that run are those of the schedule. -/
theorem System.exec_schedule (M : System ι α ℓ σ) (sched : List (ι × α))
    (h : M.exec c sched = some (tr, d)) : tr.map (fun x => (x.who, x.act)) = sched := by
  induction sched generalizing c tr with
  | nil =>
    simp only [System.exec, Option.some.injEq, Prod.mk.injEq] at h
    rw [← h.1]
    rfl
  | cons x rest ih =>
    obtain ⟨i, a⟩ := x
    simp only [System.exec] at h
    split at h
    · exact absurd h (by simp)
    · split at h
      · exact absurd h (by simp)
      · rename_i tr' e' he
        simp only [Option.some.injEq, Prod.mk.injEq] at h
        obtain ⟨rfl, rfl⟩ := h
        rw [List.map_cons, ih he]

/-- The steps and the final configuration of a schedule that can be executed. -/
def System.execute (M : System ι α ℓ σ) (c : Config ι ℓ σ) (sched : List (ι × α))
    (h : (M.exec c sched).isSome) : List (Event ι α ℓ σ) × Config ι ℓ σ :=
  (M.exec c sched).get h

theorem System.execute_run (M : System ι α ℓ σ) (c : Config ι ℓ σ) (sched : List (ι × α))
    (h : (M.exec c sched).isSome) :
    Run M c (M.execute c sched h).1 (M.execute c sched h).2 :=
  M.exec_run sched (Option.some_get h).symm

/-- Every action of that run is one of the schedule. -/
theorem System.execute_act (M : System ι α ℓ σ) (c : Config ι ℓ σ) (sched : List (ι × α))
    (h : (M.exec c sched).isSome) {x : Event ι α ℓ σ} (hx : x ∈ (M.execute c sched h).1) :
    (x.who, x.act) ∈ sched := by
  rw [← M.exec_schedule sched (Option.some_get h).symm]
  exact List.mem_map_of_mem hx

end Interleaving
