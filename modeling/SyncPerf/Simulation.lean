import SyncPerf.Interleaving

namespace Interleaving

/-!
# Simulations between interleaving systems

A system simulates another one when each of its steps can be answered by a run of the other that
shows the same *observations*, from any pair of related configurations to a related one.  Then
every run of the first has a run of the second with the same observations.

* `observed` — what the steps of a run show;
* `Answered`, `Answered.stay`, `Answered.one` — the answer to one step: no step, or one;
* `Simulates`, `Simulates.run` — the relation and the rule for runs.
-/

variable {ι α ℓ σ κ β m τ O : Type}

/-- What the steps of a run show, in order. -/
def observed (obs : Event ι α ℓ σ → List O) (tr : List (Event ι α ℓ σ)) : List O := tr.flatMap obs

@[simp] theorem observed_nil (obs : Event ι α ℓ σ → List O) : observed obs [] = [] := rfl

@[simp] theorem observed_append (obs : Event ι α ℓ σ → List O) (tr tr' : List (Event ι α ℓ σ)) :
    observed obs (tr ++ tr') = observed obs tr ++ observed obs tr' := List.flatMap_append

@[simp] theorem observed_singleton (obs : Event ι α ℓ σ → List O) (x : Event ι α ℓ σ) :
    observed obs [x] = obs x := by simp [observed]

variable [DecidableEq ι] [DecidableEq κ]

/-- The observations `o` are answered: a run of `N` from `c` shows them and ends with `P`. -/
def Answered (N : System κ β m τ) (obs : Event κ β m τ → List O) (c : Config κ m τ)
    (o : List O) (P : Config κ m τ → Prop) : Prop :=
  ∃ tr d, Run N c tr d ∧ observed obs tr = o ∧ P d

variable {M : System ι α ℓ σ} {N : System κ β m τ} {obs : Event ι α ℓ σ → List O}
  {obs' : Event κ β m τ → List O}

/-- Nothing to show, and no step taken. -/
theorem Answered.stay {c : Config κ m τ} {P : Config κ m τ → Prop} (h : P c) :
    Answered N obs' c [] P :=
  ⟨[], c, Run.refl, rfl, h⟩

/-- One step shows it. -/
theorem Answered.one {c d : Config κ m τ} {P : Config κ m τ → Prop} {i : κ} {a : β}
    (hstep : N.step c i a = some d) (h : P d) : Answered N obs' c (obs' ⟨c, i, a⟩) P :=
  ⟨[⟨c, i, a⟩], d, Run.snoc Run.refl hstep, observed_singleton .., h⟩

/-- `M`, as long as its steps are `ok`, is simulated by `N` along `R`. -/
def Simulates (M : System ι α ℓ σ) (N : System κ β m τ) (obs : Event ι α ℓ σ → List O)
    (obs' : Event κ β m τ → List O) (ok : Event ι α ℓ σ → Prop)
    (R : Config ι ℓ σ → Config κ m τ → Prop) : Prop :=
  ∀ c c' i a d, R c c' → ok ⟨c, i, a⟩ → M.step c i a = some d →
    Answered N obs' c' (obs ⟨c, i, a⟩) (R d)

/-- **Simulation rule.** Every run of `M` has a run of `N` that shows the same and ends in a
    related configuration. -/
theorem Simulates.run {ok : Event ι α ℓ σ → Prop} {R : Config ι ℓ σ → Config κ m τ → Prop}
    {c d : Config ι ℓ σ} {c' : Config κ m τ} {tr : List (Event ι α ℓ σ)}
    (h : Simulates M N obs obs' ok R) (hR : R c c') (hrun : Run M c tr d)
    (hok : ∀ x ∈ tr, ok x) : Answered N obs' c' (observed obs tr) (R d) := by
  induction hrun with
  | refl => exact Answered.stay hR
  | @snoc tr d e i a _ hstep ih =>
    obtain ⟨tr', e', hrun', hobs', hR'⟩ := ih fun x hx => hok x (by simp [hx])
    obtain ⟨tr'', d', hrun'', hobs'', hR''⟩ := h _ _ _ _ _ hR' (hok _ (by simp)) hstep
    refine ⟨tr' ++ tr'', d', Run.trans hrun' hrun'', ?_, hR''⟩
    rw [observed_append, observed_append, observed_singleton, hobs', hobs'']

end Interleaving
