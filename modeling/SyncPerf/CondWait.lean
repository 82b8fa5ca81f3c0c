import SyncPerf.Interpose

namespace SyncPerf.Interpose

open Interleaving

/-!
# Which addresses `get_mutex` sees

`get_mutex` must be given a nominal mutex.  `pthread_cond_wait` keeps both addresses over the
wait, and each way out of it re-acquires the mutex through one of them.

* `getMutexArg` — the address that a step gives to `get_mutex`;
* `Cancels`, `ReinitsWaited` — the steps after which the wrong mutex may be meant;
* `Stage.Disciplined`, `Stage.Disciplined.step` — what is kept of the addresses at every stage;
* `address_discipline` — the discipline in every run.
-/

variable {N P σ ι : Type}

/-! ### The steps in question -/

/-- The address that a step of `get_mutex` reads: in its assertion, or for its result. -/
def getMutexArg (x : Event ι (Action N) (Local N P) (Shared N σ)) : Option (Addr N) :=
  match x.act, (x.pre.loc x.who).stage with
  | .run, .getMutexAssert _ addr | .run, .getMutexReturn _ addr => some addr
  | _, _ => none

/-- A thread that is blocked in `pthread_cond_wait` is cancelled. -/
def Cancels (x : Event ι (Action N) (Local N P) (Shared N σ)) : Prop :=
  match x.act with
  | .cancel => True
  | _ => False

/-- The thread is in `pthread_cond_wait` on `n`, from the release of the real mutex until
    `get_mutex` has found it again. -/
def Stage.waitsOn (n : N) : Stage N P → Prop
  | .real (.condWait n') _ _ | .waiting n' _ => n' = n
  | .getMutexAssert (.relock n' _) _ | .getMutexReturn (.relock n' _) _ => n' = n
  | _ => False

/-- `pthread_mutex_init` overwrites a nominal mutex that a thread is waiting with. -/
def ReinitsWaited (x : Event ι (Action N) (Local N P) (Shared N σ)) : Prop :=
  match x.act, (x.pre.loc x.who).stage with
  | .run, .initStore n _ _ => ∃ t, (x.pre.loc t).stage.waitsOn n
  | _, _ => False

/-! ### The invariant -/

/-- The slot that a re-acquisition must find is the one that the nominal mutex points to. -/
def Client.Kept (w : N → Option ℕ) : Client N → Prop
  | .relock n r => w n = some r
  | _ => True

/-- A wait releases the slot that its nominal mutex points to, and re-acquires that one. -/
def Client.Started (w : N → Option ℕ) (i : ℕ) : Client N → Prop
  | .condWait n => w n = some i
  | .relock _ r => i = r
  | _ => True

/-- The calls that install a real mutex. -/
def Client.Installs : Client N → Prop
  | .lock _ | .trylock _ => True
  | _ => False

/-- What is kept of the addresses at a stage. -/
def Stage.Disciplined (w : N → Option ℕ) : Stage N P → Prop
  | .isMyMutex k | .createMutex k | .expected k _ => k.Installs
  | .doubleCheck k _ e => k.Installs ∧ (e ≠ none → w k.nominal ≠ none)
  | .compareAndSwap k _ e => k.Installs ∧ e = none
  | .getMutexAssert k addr | .getMutexReturn k addr => addr = .nominal k.nominal ∧ k.Kept w
  | .real k i _ => k.Started w i
  | .waiting n r => w n = some r
  | _ => True

theorem Client.Installs.kept {k : Client N} (h : k.Installs) (w : N → Option ℕ) : k.Kept w := by
  cases k with
  | relock n r => exact h.elim
  | _ => trivial

/-- The discipline survives changes to words that are zero, or that the thread does not wait
    on. -/
theorem Stage.Disciplined.mono {w w' : N → Option ℕ} {st : Stage N P} (h : st.Disciplined w)
    (hset : ∀ n, w n ≠ none → w' n ≠ none)
    (hkeep : ∀ n p, st.waitsOn n → w n = some p → w' n = some p) : st.Disciplined w' := by
  have hkept : ∀ k : Client N, (∀ n r, k = .relock n r → st.waitsOn n) → k.Kept w → k.Kept w' := by
    intro k hk hkept
    cases k with
    | relock n r => exact hkeep n r (hk n r rfl) hkept
    | _ => trivial
  cases st with
  | doubleCheck k i e => exact ⟨h.1, fun he => hset _ (h.2 he)⟩
  | getMutexAssert k addr => exact ⟨h.1, hkept k (by rintro n r rfl; rfl) h.2⟩
  | getMutexReturn k addr => exact ⟨h.1, hkept k (by rintro n r rfl; rfl) h.2⟩
  | real k i p =>
    cases k with
    | condWait n => exact hkeep n i rfl h
    | relock n r => exact h
    | _ => trivial
  | waiting n r => exact hkeep n r rfl h
  | _ => exact h

variable [DecidableEq N]

/-- A word that is set changes only by `pthread_mutex_init`. -/
theorem NextCase.word_some {R : RealOps ι σ P} {t : ι} {a : Action N} {l l' : Local N P}
    {s s' : Shared N σ} (h : NextCase R t l s a l' s') (hd : l.stage.Disciplined s.word) {n : N}
    {p : ℕ} (hn : s.word n = some p)
    (hinit : a = .run → ∀ mutexkind i, l.stage ≠ .initStore n mutexkind i) :
    s'.word n = some p := by
  cases h with
  | @installed k i hst =>
    rw [hst] at hd
    -- the expected value was read as zero
    have hne : n ≠ k.nominal := by
      rintro rfl
      rw [hd.2] at hn
      exact absurd hn (by simp)
    show Function.update s.word k.nominal (some i) n = some p
    rw [Function.update_of_ne hne]
    exact hn
  | @initStored n' mutexkind i hst =>
    have hne : n ≠ n' := by
      rintro rfl
      exact hinit rfl mutexkind i hst
    show Function.update s.word n' (some i) n = some p
    rw [Function.update_of_ne hne]
    exact hn
  | returned hst =>
    rw [Shared.returned_word]
    exact hn
  | _ => exact hn

/-- **A step keeps the discipline of its thread**, unless the thread is cancelled. -/
theorem NextCase.disciplined {R : RealOps ι σ P} {t : ι} {a : Action N} {l l' : Local N P}
    {s s' : Shared N σ} (h : NextCase R t l s a l' s') (hd : l.stage.Disciplined s.word)
    (hcancel : a ≠ .cancel) : l'.stage.Disciplined s'.word := by
  cases h with
  | @call call n hst => cases call <;> first | exact ⟨rfl, trivial⟩ | trivial
  | @isMyMutex k st hst hor =>
    rw [hst] at hd
    rcases hor with rfl | ⟨-, rfl⟩
    · exact hd
    · exact ⟨rfl, Client.Installs.kept hd _⟩
  | created hst => rw [hst] at hd; exact hd
  | usedUp hst => exact hd
  | expected hst => rw [hst] at hd; exact ⟨hd, id⟩
  | @doubleCheck k i e st hst hor =>
    rw [hst] at hd
    rcases hor with ⟨hnone, rfl⟩ | ⟨-, rfl⟩
    · refine ⟨hd.1, ?_⟩
      by_contra he
      exact hd.2 he hnone
    · exact ⟨rfl, hd.1.kept _⟩
  | installed hst => rw [hst] at hd; exact ⟨rfl, hd.1.kept _⟩
  | lost hst he => rw [hst] at hd; exact ⟨rfl, hd.1.kept _⟩
  | asserted hst hset => rw [hst] at hd; exact hd
  | failed hst hset => exact hd
  | @got k n i hst hw =>
    rw [hst] at hd
    obtain ⟨haddr, hkept⟩ := hd
    obtain rfl := Addr.nominal.inj haddr
    show k.Started s.word i
    cases k with
    | condWait n => exact hw
    | relock n r => exact Option.some.inj (hw.symm.trans hkept)
    | _ => trivial
  | wild hst => trivial
  | step hst => rw [hst] at hd; exact hd
  | @returned k i code p ch σ' hst =>
    rw [hst] at hd
    rw [Shared.returned_word]
    rcases l.returned_stage k i code with hidle | ⟨n, rfl, hwait⟩
    · rw [hidle]
      trivial
    · rw [hwait]
      exact hd
  | aborted hst => exact hd
  | wake hst => rw [hst] at hd; exact ⟨rfl, hd⟩
  | cancel hst => exact absurd rfl hcancel
  | initCreated hst => trivial
  | initStored hst => trivial
  | initialised hst => trivial

variable [DecidableEq ι]

/-- The start: every thread outside. -/
def Idle (c : Config ι (Local N P) (Shared N σ)) : Prop := ∀ t, (c.loc t).stage = .idle

omit [DecidableEq N] [DecidableEq ι] in
/-- A thread that keeps to the discipline gives nominal mutexes to `get_mutex`. -/
theorem Stage.Disciplined.nominal {x : Event ι (Action N) (Local N P) (Shared N σ)} {addr : Addr N}
    (h : (x.pre.loc x.who).stage.Disciplined x.pre.sh.word) (harg : getMutexArg x = some addr) :
    ∃ n, addr = .nominal n := by
  unfold getMutexArg at harg
  split at harg
  · rename_i k a hact hst
    rw [hst] at h
    obtain rfl := Option.some.inj harg
    exact ⟨_, h.1⟩
  · rename_i k a hact hst
    rw [hst] at h
    obtain rfl := Option.some.inj harg
    exact ⟨_, h.1⟩
  · exact absurd harg (by simp)

/-- The discipline of all threads is kept by a step. -/
theorem disciplined_step {R : RealOps ι σ P} {c d : Config ι (Local N P) (Shared N σ)} {i : ι}
    {a : Action N} (hd : ∀ t, (c.loc t).stage.Disciplined c.sh.word)
    (h : (system R).step c i a = some d) (hcancel : ¬ Cancels ⟨c, i, a⟩)
    (hreinit : ¬ ReinitsWaited ⟨c, i, a⟩) : ∀ t, (d.loc t).stage.Disciplined d.sh.word := by
  obtain ⟨l, s, hnext, rfl⟩ := System.step_eq_some.mp h
  obtain ⟨-, hcase⟩ := next_eq_some hnext
  refine forall_update
    (P := fun (_ : ι) (lj : Local N P) => lj.stage.Disciplined s.word) ?_ fun j _ => ?_
  · refine hcase.disciplined (hd i) ?_
    rintro rfl
    exact hcancel trivial
  · refine (hd j).mono hcase.word_ne_none fun n p hwait hn => ?_
    by_cases hinit : a = .run ∧ ∃ mutexkind i', (c.loc i).stage = .initStore n mutexkind i'
    · obtain ⟨rfl, mutexkind, i', hst⟩ := hinit
      refine absurd ?_ hreinit
      simp only [ReinitsWaited, hst]
      exact ⟨j, hwait⟩
    · refine hcase.word_some (hd i) hn fun hrun mutexkind i' hst => hinit ⟨hrun, mutexkind, i', hst⟩

/-- **Address discipline.**  In every run in which no waiting thread is cancelled, and no nominal
    mutex is initialised again while a thread waits with it: `get_mutex` only ever reads nominal
    mutexes, and the end of a wait re-acquires the real mutex that the wait released. -/
theorem address_discipline {R : RealOps ι σ P} {c₀ c : Config ι (Local N P) (Shared N σ)}
    {tr : List (Event ι (Action N) (Local N P) (Shared N σ))} (hidle : Idle c₀)
    (hrun : Run (system R) c₀ tr c) (hcancel : ∀ x ∈ tr, ¬ Cancels x)
    (hreinit : ∀ x ∈ tr, ¬ ReinitsWaited x) :
    (∀ x ∈ tr, ∀ addr, getMutexArg x = some addr → ∃ n, addr = .nominal n) ∧
    ∀ t n r i p, (c.loc t).stage = .real (.relock n r) i p → i = r := by
  have hkept : (∀ x ∈ tr, ∀ addr, getMutexArg x = some addr → ∃ n, addr = .nominal n) ∧
      ∀ t, (c.loc t).stage.Disciplined c.sh.word := by
    refine hrun.history (I := fun tr c => (∀ x ∈ tr, ¬ Cancels x ∧ ¬ ReinitsWaited x) →
      (∀ x ∈ tr, ∀ addr, getMutexArg x = some addr → ∃ n, addr = .nominal n) ∧
        ∀ t, (c.loc t).stage.Disciplined c.sh.word)
      ?_ ?_ fun x hx => ⟨hcancel x hx, hreinit x hx⟩
    · refine fun _ => ⟨by simp, fun t => ?_⟩
      rw [hidle t]
      trivial
    · intro tr d i a e ih hs hG
      obtain ⟨hargs, hd⟩ := ih fun x hx => hG x (List.mem_append_left _ hx)
      obtain ⟨hno, hno'⟩ := hG ⟨d, i, a⟩ (by simp)
      refine ⟨fun x hx addr harg => ?_, disciplined_step hd hs hno hno'⟩
      rcases List.mem_append.mp hx with hx | hx
      · exact hargs x hx addr harg
      · obtain rfl := List.mem_singleton.mp hx
        exact Stage.Disciplined.nominal (hd i) harg
  refine ⟨hkept.1, fun t n r i p hst => ?_⟩
  have hd := hkept.2 t
  rw [hst] at hd
  exact hd

/-! ### Two ways out of a wait -/

instance (x : Event ι (Action N) (Local N P) (Shared N σ)) : Decidable (Cancels x) :=
  match x with
  | ⟨_, _, .cancel⟩ => isTrue trivial
  | ⟨_, _, .call ..⟩ | ⟨_, _, .run⟩ | ⟨_, _, .step _⟩ | ⟨_, _, .wake⟩ => isFalse id

instance (st : Stage N P) (n : N) : Decidable (st.waitsOn n) := by
  cases st with
  | real k _ _ | getMutexAssert k _ | getMutexReturn k _ =>
    cases k <;> first | exact decEq _ n | exact isFalse id
  | waiting n' _ => exact decEq n' n
  | _ => exact isFalse id

instance [Fintype ι] (x : Event ι (Action N) (Local N P) (Shared N σ)) :
    Decidable (ReinitsWaited x) := by
  obtain ⟨c, i, a⟩ := x
  dsimp only [ReinitsWaited]
  generalize (c.loc i).stage = st
  cases a with
  | run =>
    cases st with
    | initStore n _ _ => exact inferInstanceAs (Decidable (∃ t, (c.loc t).stage.waitsOn n))
    | _ => exact isFalse id
  | _ => exact isFalse id

/-- One thread, one statically initialised mutex, an untouched pool. -/
def waitStart : Config Unit (Local Unit (ℕ × PC)) (Shared Unit SyncPerf.Shared) where
  loc := fun _ => {}
  sh := {
    word := fun _ => none
    syncVars := { start := fun _ => {}, total := maxSyncEntries, cur := 0, total_lt := maxSyncEntries_lt }
    real := { mutexes := fun _ => {}, threadSyncData := fun _ => {}, xthread := {}, stats := {} }
    live := fun _ => true }

/-- The thread has kernel id 1 and thread index 0. -/
def waitOps : RealOps Unit SyncPerf.Shared (ℕ × PC) := realOps (fun _ => 1) (fun _ => 0)

/-- The thread locks the mutex and waits on a condition variable. -/
def waitSched : List (Unit × Action Unit) :=
  List.flatten [[((), .call .lock ())], List.replicate 7 ((), .run),
    List.replicate 9 ((), .step {}), [((), .call .condWait ())], List.replicate 2 ((), .run),
    List.replicate 3 ((), .step {})]

/-- It is woken up, and re-acquires the mutex. -/
def wakeEnd := (system waitOps).execute waitStart
  (waitSched ++ [((), .wake)] ++ List.replicate 2 ((), .run) ++ [((), .step {})])
  (by decide +kernel)

theorem address_discipline_wake :
    (∀ x ∈ wakeEnd.1, ∀ addr, getMutexArg x = some addr → ∃ n, addr = .nominal n) ∧
      ∃ p, (wakeEnd.2.loc ()).stage = .real (.relock () 0) 0 p := by
  have hrun : Run (system waitOps) waitStart wakeEnd.1 wakeEnd.2 := System.execute_run _ _ _ _
  have hkept := address_discipline (fun _ => rfl) hrun (by decide +kernel) (by decide +kernel)
  exact ⟨hkept.1, (0, .condRelock (.cas .simple)), by decide +kernel⟩

/-- It is cancelled, and the handler calls `get_mutex`. -/
def cancelEnd := (system waitOps).execute waitStart
  (waitSched ++ [((), .cancel), ((), .run)]) (by decide +kernel)

/-- The handler gives the real mutex to `get_mutex`, whose assertion fails there. -/
theorem cancel_reads_real :
    Idle waitStart ∧ Run (system waitOps) waitStart cancelEnd.1 cancelEnd.2 ∧
      (∀ x ∈ cancelEnd.1, ¬ ReinitsWaited x) ∧
      (∃ x ∈ cancelEnd.1, getMutexArg x = some (.real 0)) ∧
      cancelEnd.2.sh.abort = some .getMutex :=
  ⟨fun _ => rfl, System.execute_run _ _ _ _, by decide +kernel, by decide +kernel,
    by decide +kernel⟩

end SyncPerf.Interpose
