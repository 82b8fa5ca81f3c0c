import SyncPerf.DirectCalls
import SyncPerf.FirstUse
import SyncPerf.Simulation

namespace SyncPerf.Interpose

open Interleaving

/-!
# The profiler is transparent

A program that runs under the profiler sees what it could see without: its calls, what they return,
and the assertions of the library that fail, in an order that the direct calls also have.  The
program must not call `pthread_mutex_init` on a mutex that is in use, nor use a mutex that is being
initialised.

* `Orderly` — what is asked of the program;
* `Stage.Ok`, `Installed` — which real mutex stands for which nominal one;
* `Related` — the two systems side by side;
* `simulates_direct` — every step of the interposed calls is answered;
* `transparent` — so is every run.
-/

variable {N M P Q σ ι : Type}

/-! ### Who is where -/

/-- The thread initialises `n`. -/
def Stage.initialising (n : N) : Stage N P → Prop
  | .initCreate n' _ | .initStore n' _ _ | .initReal n' _ _ => n' = n
  | _ => False

/-- `n` points to a new slot, whose real mutex the thread is about to initialise. -/
def Stage.resetting (n : N) : Stage N P → Prop
  | .initReal n' _ _ => n' = n
  | _ => False

/-- The slot that a thread has got and not yet installed. -/
def Stage.ownSlot : Stage N P → Option ℕ
  | .expected _ i | .doubleCheck _ i _ | .compareAndSwap _ i _ | .initStore _ _ i => some i
  | _ => none

/-- An initialisation is a call on its mutex. -/
theorem Stage.initialising.on {n : N} {st : Stage N P} (h : st.initialising n) : st.on n := by
  cases st <;> first | exact h | exact h.elim

/-- The reset is a part of an initialisation. -/
theorem Stage.resetting.initialising {n : N} {st : Stage N P} (h : st.resetting n) :
    st.initialising n := by
  cases st <;> first | exact h | exact h.elim

/-- The program calls nothing on a mutex that is being initialised, and initialises no mutex that
    another call is on, with an attribute that `pthread_mutex_init` accepts. -/
def Orderly (O : MutexOps ι M Q) (x : Event ι (Action N) (Local N P) (Shared N σ)) : Prop :=
  match x.act with
  | .call (.init mutexkind) n =>
    (∀ u, ¬ (x.pre.loc u).stage.on n) ∧ (O.init mutexkind O.fresh).1 = 0
  | .call _ n => ∀ u, ¬ (x.pre.loc u).stage.initialising n
  | _ => True

/-- No thread initialises a mutex that another one calls. -/
theorem Orderly.call {O : MutexOps ι M Q} {c : Config ι (Local N P) (Shared N σ)} {t : ι}
    {call : Call} {n : N} (h : Orderly O ⟨c, t, .call call n⟩) (u : ι) :
    ¬ (c.loc u).stage.initialising n := by
  cases call with
  | init mutexkind => exact fun hinit => h.1 u hinit.on
  | _ => exact h u

/-! ### Which real mutex stands for which nominal one -/

section Installed

variable (O : MutexOps ι M Q) (view : σ → ℕ → M) (place : P → ℕ × Q) (bound : ℕ)

/-- What is known at a stage of the nominal words `w` and the real mutexes `v`. -/
def Stage.Ok (w : N → Option ℕ) (v : ℕ → M) : Stage N P → Prop
  | .doubleCheck k _ e => e ≠ none → w k.nominal ≠ none
  | .compareAndSwap _ _ e => e = none
  | .getMutexAssert k (.nominal n) | .getMutexReturn k (.nominal n) => n = k.nominal
  | .real k i p => w k.nominal = some i ∧ (place p).1 = i
  | .initCreate _ mutexkind | .initStore _ mutexkind _ => (O.init mutexkind O.fresh).1 = 0
  | .initReal n mutexkind i =>
    w n = some i ∧ v i = O.fresh ∧ (O.init mutexkind O.fresh).1 = 0
  | _ => True

/-- Two threads have different slots, and none is on a mutex that the other one initialises. -/
structure Apart (st st' : Stage N P) : Prop where
  slot : ∀ i, st.ownSlot = some i → st'.ownSlot ≠ some i
  init : ∀ n, st.initialising n → ¬ st'.on n

/-- Every nominal mutex has a real one of its own, and slots that are not installed are unused. -/
structure Installed (c : Config ι (Local N P) (Shared N σ)) : Prop where
  cur : c.sh.syncVars.cur ≤ c.sh.syncVars.total
  total : c.sh.syncVars.total ≤ bound
  word_lt : ∀ n i, c.sh.word n = some i → i < c.sh.syncVars.cur
  word_inj : ∀ n m i, c.sh.word n = some i → c.sh.word m = some i → n = m
  unused : ∀ i, c.sh.syncVars.cur ≤ i → view c.sh.real i = O.fresh
  own : ∀ t i, (c.loc t).stage.ownSlot = some i →
    i < c.sh.syncVars.cur ∧ view c.sh.real i = O.fresh ∧ ∀ n, c.sh.word n ≠ some i
  stage : ∀ t, (c.loc t).stage.Ok O place c.sh.word (view c.sh.real)
  apart : ∀ t u, t ≠ u → Apart (c.loc t).stage (c.loc u).stage

/-- What a nominal mutex is: the real mutex in its slot, or one that was never used. -/
def Shared.behind (s : Shared N σ) (n : N) : M :=
  match s.word n with
  | some i => view s.real i
  | none => O.fresh

/-- The place of a direct call at which a thread stands. -/
def Stage.direct : Stage N P → Option (DirectStage N Q)
  | .idle => some .idle
  | .isMyMutex k | .createMutex k | .expected k _ | .doubleCheck k _ _ | .compareAndSwap k _ _ |
    .getMutexAssert k _ | .getMutexReturn k _ => some (.op k.realOp k.nominal (O.entry k.realOp))
  | .real k _ p => some (.op k.realOp k.nominal (place p).2)
  | .waiting n _ => some (.waiting n)
  | .initCreate n mutexkind | .initStore n mutexkind _ | .initReal n mutexkind _ =>
    some (.init n mutexkind)
  | .wild => none

/-- The two systems side by side: each thread is at the same place, and each mutex is the real one
    behind it, unless that is still to be initialised. -/
structure Related (c : Config ι (Local N P) (Shared N σ))
    (b : Config ι (DirectStage N Q) (DirectShared N M)) : Prop extends
    Installed O view place bound c where
  running : b.sh.abort = none
  loc : ∀ t st, (c.loc t).stage.direct O place = some st → b.loc t = st
  mutex : ∀ n, (∀ t, ¬ (c.loc t).stage.resetting n) →
    b.sh.mutexes n = c.sh.behind O view n

end Installed

/-! ### One step -/

/-- A thread is in a call on one mutex at most. -/
theorem Stage.on_unique {n m : N} {st : Stage N P} (hn : st.on n) (hm : st.on m) : n = m := by
  cases st <;> first | exact hn.symm.trans hm | exact hn.elim

variable {O : MutexOps ι M Q} {view : σ → ℕ → M} {place : P → ℕ × Q} {bound : ℕ}

/-- Words that are set stay, and mutexes to be initialised are not written. -/
theorem Stage.Ok.mono {w w' : N → Option ℕ} {v v' : ℕ → M} {st : Stage N P}
    (h : st.Ok O place w v) (hw : ∀ n i, st.on n → w n = some i → w' n = some i)
    (hv : ∀ n i, st.resetting n → w n = some i → v' i = v i) : st.Ok O place w' v' := by
  cases st with
  | doubleCheck k i e =>
    intro he
    obtain ⟨j, hj⟩ := Option.ne_none_iff_exists'.mp (h he)
    rw [hw _ j rfl hj]
    simp
  | getMutexAssert k addr | getMutexReturn k addr => cases addr <;> exact h
  | real k i p => exact ⟨hw _ i rfl h.1, h.2⟩
  | initReal n mutexkind i =>
    obtain ⟨hword, hfresh, hinit⟩ := h
    exact ⟨hw n i rfl hword, (hv n i rfl hword).trans hfresh, hinit⟩
  | _ => exact h

variable [DecidableEq ι]

/-- **The step of one thread.**  It may get the next slot, install the one it has, replace the slot
    of a mutex that it initialises, or write the real mutex of the call that it is in. -/
theorem Installed.update {c : Config ι (Local N P) (Shared N σ)}
    (h : Installed O view place bound c)
    {t : ι} {l' : Local N P} {s' : Shared N σ}
    (hcur : s'.syncVars.cur ≤ s'.syncVars.total) (htotal : s'.syncVars.total = c.sh.syncVars.total)
    (hle : c.sh.syncVars.cur ≤ s'.syncVars.cur)
    (hslot : ∀ i, l'.stage.ownSlot = some i → (c.loc t).stage.ownSlot = some i ∨
      i = c.sh.syncVars.cur ∧ c.sh.syncVars.cur < s'.syncVars.cur)
    (hword : ∀ n i, s'.word n = some i → c.sh.word n = some i ∨
      (c.loc t).stage.on n ∧ (c.loc t).stage.ownSlot = some i ∧ l'.stage.ownSlot = none)
    (hkeep : ∀ n i, c.sh.word n = some i → s'.word n = some i ∨ (c.loc t).stage.initialising n)
    (hview : ∀ i, view s'.real i = view c.sh.real i ∨
      ∃ n, (c.loc t).stage.on n ∧ c.sh.word n = some i)
    (hok : l'.stage.Ok O place s'.word (view s'.real))
    (hon : ∀ n, l'.stage.on n → (c.loc t).stage.on n ∨ ∀ u, ¬ (c.loc u).stage.initialising n)
    (hinit : ∀ n, l'.stage.initialising n →
      (c.loc t).stage.initialising n ∨ ∀ u, ¬ (c.loc u).stage.on n) :
    Installed O view place bound ⟨Function.update c.loc t l', s'⟩ := by
  -- a slot that no word points to is not written
  have hfree : ∀ i, view c.sh.real i = O.fresh → (∀ n, c.sh.word n ≠ some i) →
      view s'.real i = O.fresh := by
    intro i hfresh hno
    rcases hview i with hsame | ⟨n, -, hn⟩
    · exact hsame.trans hfresh
    · exact absurd hn (hno n)
  have hunused : ∀ i, c.sh.syncVars.cur ≤ i → ∀ n, c.sh.word n ≠ some i := fun i hi n hn =>
    absurd (h.word_lt n i hn) (Nat.not_lt.mpr hi)
  refine ⟨hcur, htotal.trans_le h.total, ?_, ?_, ?_, ?_, ?_, ?_⟩
  · intro n i hn
    rcases hword n i hn with hold | ⟨-, hown, -⟩
    · exact (h.word_lt n i hold).trans_le hle
    · exact (h.own t i hown).1.trans_le hle
  · intro n m i hn hm
    rcases hword n i hn with hn | ⟨hn, hown, -⟩ <;> rcases hword m i hm with hm | ⟨hm, hown', -⟩
    · exact h.word_inj n m i hn hm
    · exact absurd hn ((h.own t i hown').2.2 n)
    · exact absurd hm ((h.own t i hown).2.2 m)
    · exact Stage.on_unique hn hm
  · intro i hi
    exact hfree i (h.unused i (hle.trans hi)) (hunused i (hle.trans hi))
  · refine forall_update (P := fun _ (l : Local N P) => ∀ i, l.stage.ownSlot = some i →
      i < s'.syncVars.cur ∧ view s'.real i = O.fresh ∧ ∀ n, s'.word n ≠ some i) ?_ ?_
    · intro i hi
      have hno : ∀ n, c.sh.word n ≠ some i → s'.word n ≠ some i := by
        intro n hne hn
        rcases hword n i hn with hold | ⟨-, -, hnone⟩
        · exact hne hold
        · exact absurd (hi.symm.trans hnone) (by simp)
      rcases hslot i hi with hown | ⟨rfl, hlt⟩
      · obtain ⟨hlt, hfresh, hne⟩ := h.own t i hown
        exact ⟨hlt.trans_le hle, hfree i hfresh hne, fun n => hno n (hne n)⟩
      · exact ⟨hlt, hfree _ (h.unused _ le_rfl) (hunused _ le_rfl),
          fun n => hno n (hunused _ le_rfl n)⟩
    · intro u hu i hi
      obtain ⟨hlt, hfresh, hne⟩ := h.own u i hi
      refine ⟨hlt.trans_le hle, hfree i hfresh hne, fun n hn => ?_⟩
      rcases hword n i hn with hold | ⟨-, hown, -⟩
      · exact hne n hold
      · exact (h.apart t u hu.symm).slot i hown hi
  · refine forall_update (P := fun _ (l : Local N P) => l.stage.Ok O place s'.word (view s'.real))
      hok fun u hu => (h.stage u).mono (fun n i hn hw => ?_) fun n i hn hw => ?_
    · rcases hkeep n i hw with hsame | hinit
      · exact hsame
      · exact absurd hn ((h.apart t u hu.symm).init n hinit)
    · rcases hview i with hsame | ⟨m, hm, hw'⟩
      · exact hsame
      · obtain rfl := h.word_inj n m i hw hw'
        exact absurd hm ((h.apart u t hu).init n hn.initialising)
  · have hleft : ∀ u, u ≠ t → Apart l'.stage (c.loc u).stage := by
      refine fun u hu => ⟨fun i hi hi' => ?_, fun n hn hn' => ?_⟩
      · rcases hslot i hi with hown | ⟨rfl, -⟩
        · exact (h.apart t u hu.symm).slot i hown hi'
        · exact absurd (h.own u _ hi').1 (lt_irrefl _)
      · rcases hinit n hn with hold | hno
        · exact (h.apart t u hu.symm).init n hold hn'
        · exact hno u hn'
    have hright : ∀ u, u ≠ t → Apart (c.loc u).stage l'.stage := by
      refine fun u hu => ⟨fun i hi hi' => (hleft u hu).slot i hi' hi, fun n hn hn' => ?_⟩
      rcases hon n hn' with hold | hno
      · exact (h.apart u t hu).init n hn hold
      · exact hno u hn
    intro u v huv
    by_cases hu : u = t
    · subst hu
      simp only [Function.update_self, Function.update_of_ne huv.symm]
      exact hleft v huv.symm
    · by_cases hv : v = t
      · subst hv
        simp only [Function.update_self, Function.update_of_ne hu]
        exact hright u hu
      · simp only [Function.update_of_ne hu, Function.update_of_ne hv]
        exact h.apart u v huv

/-- A step that leaves the pool, the nominal words and the real mutexes as they are. -/
theorem Installed.of_stage {c : Config ι (Local N P) (Shared N σ)}
    (h : Installed O view place bound c)
    {t : ι} {l' : Local N P} {s' : Shared N σ} (hvars : s'.syncVars = c.sh.syncVars)
    (hword : s'.word = c.sh.word) (hview : view s'.real = view c.sh.real)
    (hslot : ∀ i, l'.stage.ownSlot = some i → (c.loc t).stage.ownSlot = some i)
    (hok : l'.stage.Ok O place c.sh.word (view c.sh.real))
    (hon : ∀ n, l'.stage.on n → (c.loc t).stage.on n ∨ ∀ u, ¬ (c.loc u).stage.initialising n)
    (hinit : ∀ n, l'.stage.initialising n →
      (c.loc t).stage.initialising n ∨ ∀ u, ¬ (c.loc u).stage.on n) :
    Installed O view place bound ⟨Function.update c.loc t l', s'⟩ := by
  refine h.update (by rw [hvars]; exact h.cur) (by rw [hvars]) (by rw [hvars])
    (fun i hi => .inl (hslot i hi)) (fun n i hn => .inl (hword ▸ hn))
    (fun n i hn => .inl (hword ▸ hn)) (fun i => .inl ?_) ?_ hon hinit
  · rw [hview]
  · rw [hword, hview]
    exact hok

/-- The thread and the mutexes after a step of both systems. -/
theorem Related.update {c : Config ι (Local N P) (Shared N σ)}
    {b : Config ι (DirectStage N Q) (DirectShared N M)} (h : Related O view place bound c b) {t : ι}
    {l' : Local N P} {s' : Shared N σ} {st : DirectStage N Q} {m' : DirectShared N M}
    (hI : Installed O view place bound ⟨Function.update c.loc t l', s'⟩)
    (hst : ∀ st', l'.stage.direct O place = some st' → st = st') (hrunning : m'.abort = none)
    (hmutex : ∀ n, ¬ l'.stage.resetting n → (∀ u, u ≠ t → ¬ (c.loc u).stage.resetting n) →
      m'.mutexes n = s'.behind O view n) :
    Related O view place bound ⟨Function.update c.loc t l', s'⟩
      ⟨Function.update b.loc t st, m'⟩ := by
  refine ⟨hI, hrunning, fun u st' hu => ?_, fun n hn => ?_⟩
  · by_cases hut : u = t
    · subst hut
      simp only [Function.update_self] at hu ⊢
      exact hst st' hu
    · simp only [Function.update_of_ne hut] at hu ⊢
      exact h.loc u st' hu
  · refine hmutex n ?_ fun u hut => ?_
    · have ht := hn t
      simpa only [Function.update_self] using ht
    · have hu := hn u
      simpa only [Function.update_of_ne hut] using hu

/-- The direct calls take no step. -/
theorem Related.stay {c : Config ι (Local N P) (Shared N σ)}
    {b : Config ι (DirectStage N Q) (DirectShared N M)} (h : Related O view place bound c b) {t : ι}
    {l' : Local N P} {s' : Shared N σ}
    (hI : Installed O view place bound ⟨Function.update c.loc t l', s'⟩)
    (hst : ∀ st, l'.stage.direct O place = some st → (c.loc t).stage.direct O place = some st)
    (hmutex : ∀ n, ¬ l'.stage.resetting n → (∀ u, u ≠ t → ¬ (c.loc u).stage.resetting n) →
      b.sh.mutexes n = s'.behind O view n) :
    Related O view place bound ⟨Function.update c.loc t l', s'⟩ b := by
  have hloc : ∀ st, l'.stage.direct O place = some st → b.loc t = st := fun st hst' =>
    h.loc t st (hst st hst')
  have hupdate := h.update hI hloc h.running hmutex
  rwa [Function.update_eq_self] at hupdate

/-- The step stays in the call that the thread is in, at the same place of the direct one. -/
structure Pauses (O : MutexOps ι M Q) (place : P → ℕ × Q) (st st' : Stage N P) : Prop where
  direct : st'.direct O place = none ∨ st'.direct O place = st.direct O place
  on : ∀ n, st'.on n → st.on n
  init : ∀ n, st'.initialising n → st.initialising n
  resetting : ∀ n, ¬ st.resetting n

omit [DecidableEq ι] in
/-- A step that the direct call does not see. -/
theorem Pauses.eq {st st' : Stage N P} (h : Pauses O place st st') {x : DirectStage N Q}
    (hx : st'.direct O place = some x) : st.direct O place = some x := by
  rcases h.direct with hnone | hsame
  · exact absurd (hnone.symm.trans hx) (by simp)
  · exact hsame.symm.trans hx

/-- A load or a test on the way to the real mutex. -/
theorem Related.pause {c : Config ι (Local N P) (Shared N σ)}
    {b : Config ι (DirectStage N Q) (DirectShared N M)} (h : Related O view place bound c b) {t : ι}
    {l' : Local N P} (hp : Pauses O place (c.loc t).stage l'.stage)
    (hslot : ∀ i, l'.stage.ownSlot = some i → (c.loc t).stage.ownSlot = some i)
    (hok : l'.stage.Ok O place c.sh.word (view c.sh.real)) :
    Related O view place bound ⟨Function.update c.loc t l', c.sh⟩ b := by
  refine h.stay ?_ (fun st hst => hp.eq hst) fun n _ hothers => h.mutex n fun u => ?_
  · exact h.of_stage rfl rfl rfl hslot hok (fun n hn => .inl (hp.on n hn))
      fun n hn => .inl (hp.init n hn)
  · by_cases hut : u = t
    · rw [hut]
      exact hp.resetting n
    · exact hothers u hut

/-- The thread gets the next slot of the pool. -/
theorem Related.handOut {c : Config ι (Local N P) (Shared N σ)}
    {b : Config ι (DirectStage N Q) (DirectShared N M)} (h : Related O view place bound c b) {t : ι}
    {l' : Local N P} {s' : Shared N σ} (hp : Pauses O place (c.loc t).stage l'.stage)
    (hslot : ∀ i, l'.stage.ownSlot = some i → i = c.sh.syncVars.cur)
    (hcur : s'.syncVars.cur = c.sh.syncVars.cur + 1) (hle : s'.syncVars.cur ≤ s'.syncVars.total)
    (htotal : s'.syncVars.total = c.sh.syncVars.total) (hword : s'.word = c.sh.word)
    (hreal : s'.real = c.sh.real)
    (hok : l'.stage.Ok O place s'.word (view s'.real)) :
    Related O view place bound ⟨Function.update c.loc t l', s'⟩ b := by
  refine h.stay ?_ (fun st hst => hp.eq hst) fun n _ hothers => ?_
  · have hlt : c.sh.syncVars.cur < s'.syncVars.cur := by omega
    exact h.toInstalled.update hle htotal hlt.le (fun i hi => .inr ⟨hslot i hi, hlt⟩)
      (fun n i hn => .inl (hword ▸ hn)) (fun n i hn => .inl (hword ▸ hn))
      (fun i => .inl (by rw [hreal])) hok (fun n hn => .inl (hp.on n hn))
      fun n hn => .inl (hp.init n hn)
  · rw [h.mutex n fun u => ?_]
    · simp only [Shared.behind, hword, hreal]
    · by_cases hut : u = t
      · rw [hut]
        exact hp.resetting n
      · exact hothers u hut

variable [DecidableEq N]

omit [DecidableEq ι] in
/-- What is behind the other mutexes when a word is set. -/
theorem Shared.behind_update_ne {s : Shared N σ} {n m : N} {i : ℕ} (hne : m ≠ n) :
    ({ s with word := Function.update s.word n (some i) } : Shared N σ).behind O view m =
      s.behind O view m := by
  simp only [Shared.behind, Function.update_of_ne hne]

/-- The compare-and-exchange succeeds: a mutex that was never used gets a slot that was never
    used. -/
theorem Related.install {c : Config ι (Local N P) (Shared N σ)}
    {b : Config ι (DirectStage N Q) (DirectShared N M)} (h : Related O view place bound c b) {t : ι}
    {k : Client N} {i : ℕ} (hl : (c.loc t).stage = .compareAndSwap k i (c.sh.word k.nominal)) :
    Related O view place bound
      ⟨Function.update c.loc t { c.loc t with stage := .getMutexAssert k (.nominal k.nominal) },
        { c.sh with word := Function.update c.sh.word k.nominal (some i) }⟩ b := by
  have hown := h.own t i (by rw [hl]; rfl)
  have hnone : c.sh.word k.nominal = none := by
    have hok := h.stage t
    rw [hl] at hok
    exact hok
  refine h.stay ?_ (fun st hst => ?_) fun n _ hothers => ?_
  · refine h.toInstalled.update h.cur rfl le_rfl (fun j hj => absurd hj (by simp [Stage.ownSlot]))
      (fun n j hj => ?_) (fun n j hj => .inl ?_) (fun j => .inl rfl) rfl (fun n hn => .inl ?_)
      fun n hn => hn.elim
    · by_cases hn : n = k.nominal
      · subst hn
        simp only [Function.update_self, Option.some.injEq] at hj
        subst hj
        exact .inr ⟨by rw [hl]; rfl, by rw [hl]; rfl, rfl⟩
      · simp only [Function.update_of_ne hn] at hj
        exact .inl hj
    · have hne : n ≠ k.nominal := by
        rintro rfl
        exact absurd (hnone.symm.trans hj) (by simp)
      simpa only [Function.update_of_ne hne] using hj
    · rw [hl]
      exact hn
  · rw [hl]
    exact hst
  · have hold := h.mutex n fun u => by
      by_cases hut : u = t
      · rw [hut, hl]
        exact id
      · exact hothers u hut
    by_cases hn : n = k.nominal
    · subst hn
      rw [hold]
      simp only [Shared.behind, hnone, Function.update_self]
      exact hown.2.1.symm
    · rw [hold, Shared.behind_update_ne hn]

/-- `pthread_mutex_init` points the nominal mutex to the new slot. -/
theorem Related.replace {c : Config ι (Local N P) (Shared N σ)}
    {b : Config ι (DirectStage N Q) (DirectShared N M)} (h : Related O view place bound c b) {t : ι}
    {n : N} {mutexkind : BitVec 32} {i : ℕ} (hl : (c.loc t).stage = .initStore n mutexkind i) :
    Related O view place bound
      ⟨Function.update c.loc t { c.loc t with stage := .initReal n mutexkind i },
        { c.sh with word := Function.update c.sh.word n (some i) }⟩ b := by
  have hown := h.own t i (by rw [hl]; rfl)
  have hinit : (O.init mutexkind O.fresh).1 = 0 := by
    have hok := h.stage t
    rw [hl] at hok
    exact hok
  refine h.stay ?_ (fun st hst => ?_) fun m hm hothers => ?_
  · refine h.toInstalled.update h.cur rfl le_rfl (fun j hj => absurd hj (by simp [Stage.ownSlot]))
      (fun m j hj => ?_) (fun m j hj => ?_) (fun j => .inl rfl) ?_ (fun m hm => .inl ?_)
      fun m hm => .inl ?_
    · by_cases hm : m = n
      · subst hm
        simp only [Function.update_self, Option.some.injEq] at hj
        subst hj
        exact .inr ⟨by rw [hl]; rfl, by rw [hl]; rfl, rfl⟩
      · simp only [Function.update_of_ne hm] at hj
        exact .inl hj
    · by_cases hm : m = n
      · subst hm
        exact .inr (by rw [hl]; rfl)
      · exact .inl (by simpa only [Function.update_of_ne hm] using hj)
    · exact ⟨Function.update_self .., hown.2.1, hinit⟩
    · rw [hl]
      exact hm
    · rw [hl]
      exact hm
  · rw [hl]
    exact hst
  · have hne : m ≠ n := fun heq => hm heq.symm
    rw [Shared.behind_update_ne hne]
    refine h.mutex m fun u => ?_
    by_cases hut : u = t
    · rw [hut, hl]
      exact id
    · exact hothers u hut

/-- Both systems write the mutex of the call that the thread is in. -/
theorem Related.write {c : Config ι (Local N P) (Shared N σ)}
    {b : Config ι (DirectStage N Q) (DirectShared N M)} (h : Related O view place bound c b) {t : ι}
    {l' : Local N P} {s' : Shared N σ} {st : DirectStage N Q} {n : N} {i : ℕ} {m : M}
    (hn : (c.loc t).stage.on n) (hw : c.sh.word n = some i) (hvars : s'.syncVars = c.sh.syncVars)
    (hword : s'.word = c.sh.word) (hview : view s'.real = Function.update (view c.sh.real) i m)
    (hslot : l'.stage.ownSlot = none) (hok : l'.stage.Ok O place s'.word (view s'.real))
    (hon : ∀ n', l'.stage.on n' → n' = n) (hinit : ∀ n', ¬ l'.stage.initialising n')
    (hreset : ∀ n', (c.loc t).stage.resetting n' → n' = n)
    (hst : ∀ st', l'.stage.direct O place = some st' → st = st') :
    Related O view place bound ⟨Function.update c.loc t l', s'⟩
      ⟨Function.update b.loc t st, b.sh.set n m⟩ := by
  have hother : ∀ n' j, c.sh.word n' = some j → n' ≠ n →
      Function.update (view c.sh.real) i m j = view c.sh.real j := by
    intro n' j hj hne
    refine Function.update_of_ne ?_ ..
    rintro rfl
    exact hne (h.word_inj n' n _ hj hw)
  refine h.update ?_ hst h.running fun n' _ hothers => ?_
  · refine h.toInstalled.update (by rw [hvars]; exact h.cur) (by rw [hvars]) (by rw [hvars])
      (fun j hj => absurd (hslot.symm.trans hj) (by simp)) (fun n' j hj => .inl (hword ▸ hj))
      (fun n' j hj => .inl (hword ▸ hj)) (fun j => ?_) hok (fun n' hn' => .inl ?_)
      fun n' hn' => absurd hn' (hinit n')
    · by_cases hj : j = i
      · exact .inr ⟨n, hn, hj ▸ hw⟩
      · exact .inl (by rw [hview, Function.update_of_ne hj])
    · rw [hon n' hn']
      exact hn
  · by_cases hne : n' = n
    · subst hne
      simp only [DirectShared.set, Function.update_self, Shared.behind, hword, hw, hview]
    · have hold := h.mutex n' fun u => by
        by_cases hut : u = t
        · rw [hut]
          exact fun hr => hne (hreset n' hr)
        · exact hothers u hut
      simp only [DirectShared.set, Function.update_of_ne hne, hold, Shared.behind, hword, hview]
      split
      · next j hj => rw [hother n' j hj hne]
      · rfl

/-! ### The answers -/

variable {R : RealOps ι σ P}

/-- The related configurations, as long as the process has not aborted. -/
def Beside (O : MutexOps ι M Q) (view : σ → ℕ → M) (place : P → ℕ × Q) (bound : ℕ)
    (c : Config ι (Local N P) (Shared N σ)) (b : Config ι (DirectStage N Q) (DirectShared N M)) :
    Prop :=
  c.sh.abort = none → Related O view place bound c b

omit [DecidableEq ι] [DecidableEq N] in
/-- What a step shows does not depend on the place after it. -/
theorem RealOp.shown_map {A B : Type} (o : RealOp) (n : N) (g : A → B) (f : Flow A) :
    o.shown n (f.map g) = o.shown n f := by
  cases f <;> rfl

/-- A step that shows nothing, and that the direct calls need not take. -/
theorem Beside.stay {c d : Config ι (Local N P) (Shared N σ)}
    {b : Config ι (DirectStage N Q) (DirectShared N M)} {t : ι} {a : Action N}
    (hshown : shown R ⟨c, t, a⟩ = []) (h : d.sh.abort = none → Related O view place bound d b) :
    Answered (direct O) (directShown O) b (shown R ⟨c, t, a⟩) (Beside O view place bound d) :=
  hshown ▸ Answered.stay h

/-- A step that the direct calls take as well. -/
theorem Beside.one {c d : Config ι (Local N P) (Shared N σ)}
    {b : Config ι (DirectStage N Q) (DirectShared N M)} {t : ι} {a : Action N}
    {st : DirectStage N Q} {m' : DirectShared N M}
    (hnext : directNext O t a (b.loc t) b.sh = some (st, m'))
    (hshown : directShown O ⟨b, t, a⟩ = shown R ⟨c, t, a⟩)
    (h : d.sh.abort = none → Related O view place bound d ⟨Function.update b.loc t st, m'⟩) :
    Answered (direct O) (directShown O) b (shown R ⟨c, t, a⟩) (Beside O view place bound d) :=
  hshown ▸ Answered.one (System.step_eq_some.mpr ⟨st, m', hnext, rfl⟩) h

/-- **A call.** -/
theorem Related.call {c : Config ι (Local N P) (Shared N σ)}
    {b : Config ι (DirectStage N Q) (DirectShared N M)} (h : Related O view place bound c b) {t : ι}
    {call : Call} {n : N} (hl : (c.loc t).stage = .idle)
    (hok : Orderly O ⟨c, t, .call call n⟩) :
    Answered (direct O) (directShown O) b (shown R ⟨c, t, .call call n⟩) (Beside O view place bound
      ⟨Function.update c.loc t { c.loc t with stage := call.entry n },
        { c.sh with touched := Function.update c.sh.touched n true }⟩) := by
  have hb : b.loc t = .idle := h.loc t _ (by rw [hl]; rfl)
  have hnext : directNext O t (.call call n) (b.loc t) b.sh = some (call.direct O n, b.sh) := by
    simp only [directNext, h.running, hb, Option.isSome_none, Bool.false_eq_true, if_false]
  refine Beside.one hnext rfl fun _ => ?_
  refine h.update ?_ (fun st hst => ?_) h.running fun m _ hothers => h.mutex m fun u => ?_
  · refine h.of_stage rfl rfl rfl (fun i hi => ?_) ?_ (fun m hm => .inr ?_) fun m hm => .inr ?_
    · cases call <;> exact absurd hi (by simp [Call.entry, Stage.ownSlot])
    · cases call with
      | init mutexkind => exact hok.2
      | _ => first | rfl | trivial
    · obtain rfl : n = m := by cases call <;> exact hm
      exact hok.call
    · cases call with
      | init mutexkind =>
        obtain rfl : n = m := hm
        exact hok.1
      | _ => exact hm.elim
  · cases call <;> exact Option.some.inj hst
  · by_cases hut : u = t
    · rw [hut, hl]
      exact id
    · exact hothers u hut

/-- **The end of a wait**, also for a thread that is cancelled in it. -/
theorem Related.woken {c : Config ι (Local N P) (Shared N σ)}
    {b : Config ι (DirectStage N Q) (DirectShared N M)} (h : Related O view place bound c b) {t : ι}
    {a : Action N} {n : N} {i : ℕ} {addr : Addr N} (hl : (c.loc t).stage = .waiting n i)
    (ha : a = .wake ∧ addr = .nominal n ∨ a = .cancel ∧ addr = .real i) :
    Answered (direct O) (directShown O) b (shown R ⟨c, t, a⟩) (Beside O view place bound
      ⟨Function.update c.loc t { c.loc t with stage := .getMutexAssert (.relock n i) addr },
        c.sh⟩) := by
  have hb : b.loc t = .waiting n := h.loc t _ (by rw [hl]; rfl)
  have hnext : directNext O t a (b.loc t) b.sh =
      some (.op .condRelock n (O.entry .condRelock), b.sh) := by
    rcases ha with ⟨rfl, -⟩ | ⟨rfl, -⟩ <;>
    simp only [directNext, h.running, hb, Option.isSome_none, Bool.false_eq_true, if_false]
  have hshown : directShown O ⟨b, t, a⟩ = shown R ⟨c, t, a⟩ := by
    rcases ha with ⟨rfl, -⟩ | ⟨rfl, -⟩ <;> rfl
  refine Beside.one hnext hshown fun _ => ?_
  refine h.update ?_ (fun st hst => ?_) h.running fun m _ hothers => h.mutex m fun u => ?_
  · refine h.of_stage rfl rfl rfl (fun j hj => absurd hj (by simp [Stage.ownSlot])) ?_
      (fun m hm => .inl ?_) fun m hm => hm.elim
    · rcases ha with ⟨-, rfl⟩ | ⟨-, rfl⟩
      · rfl
      · trivial
    · rw [hl]
      exact hm
  · exact Option.some.inj hst
  · by_cases hut : u = t
    · rw [hut, hl]
      exact id
    · exact hothers u hut

omit [DecidableEq ι] in
/-- A return is seen as one of the direct call. -/
theorem Local.returned_direct (l : Local N P) (k : Client N) (i code : ℕ) :
    (l.returned k i code).stage.direct O place =
      some (.returned k.realOp k.nominal code) := by
  cases k with
  | destroy n => rfl
  | condWait n =>
    by_cases hcode : code = 0
    · simp [Local.returned, DirectStage.returned, Stage.direct, Client.realOp, hcode]
      rfl
    · simp [Local.returned, DirectStage.returned, Stage.direct, Client.realOp, hcode]
  | _ =>
    simp only [Local.returned]
    split <;> rfl

/-- **A step of an operation.** -/
theorem Related.step (hruns : Runs R O view place bound) {c : Config ι (Local N P) (Shared N σ)}
    {b : Config ι (DirectStage N Q) (DirectShared N M)} (h : Related O view place bound c b)
    (hab : c.sh.abort = none) {t : ι} {k : Client N} {i : ℕ} {p : P} {ch : Choice}
    {l' : Local N P} {s' : Shared N σ} (hl : (c.loc t).stage = .real k i p)
    (hnext : next R t (.step ch) (c.loc t) c.sh = some (l', s')) :
    Answered (direct O) (directShown O) b (shown R ⟨c, t, .step ch⟩) (Beside O view place bound
      ⟨Function.update c.loc t l', s'⟩) := by
  have hb : b.loc t = .op k.realOp k.nominal (place p).2 := h.loc t _ (by rw [hl]; rfl)
  obtain ⟨hw, rfl⟩ : c.sh.word k.nominal = some i ∧ (place p).1 = i := by
    have hok := h.stage t
    rw [hl] at hok
    exact hok
  -- the mutex is not being initialised
  have hm : b.sh.mutexes k.nominal = view c.sh.real (place p).1 := by
    rw [h.mutex k.nominal fun u hu => ?_, Shared.behind, hw]
    by_cases hut : u = t
    · rw [hut, hl] at hu
      exact hu
    · exact (h.apart u t hut).init _ hu.initialising (by rw [hl]; rfl)
  have hon : (c.loc t).stage.on k.nominal := by rw [hl]; rfl
  have hreset : ∀ n, ¬ (c.loc t).stage.resetting n := by
    intro n
    rw [hl]
    exact id
  have hrun := hruns.step t ch p c.sh.real
    (((h.word_lt _ _ hw).trans_le h.cur).trans_le h.total)
  generalize hr : R.step t ch p c.sh.real = r at hrun
  generalize ho : O.step t ch (place p).2 (view c.sh.real (place p).1) = o at hrun
  obtain ⟨f, σ'⟩ := r
  obtain ⟨g, m⟩ := o
  simp only [next, hab, hl, hr, Option.isSome_none, Bool.false_eq_true, if_false] at hnext
  have hshown : shown R ⟨c, t, .step ch⟩ = ((k.realOp.shown k.nominal f).map (t, ·)).toList := by
    simp only [shown, hl, hr]
  cases hrun with
  | @silent p' hflow hp hs =>
    obtain rfl : f = .goto p' := hflow
    obtain ⟨rfl, rfl⟩ := Prod.mk.inj (Option.some.inj hnext)
    refine Beside.stay hshown fun _ => ?_
    refine h.stay ?_ (fun st hst => ?_) fun n _ hothers => ?_
    · refine h.of_stage rfl rfl hs (fun j hj => absurd hj (by simp [Stage.ownSlot])) ⟨hw, ?_⟩
        (fun n hn => .inl ?_) fun n hn => hn.elim
      · rw [hp]
      · rw [hl]
        exact hn
    · rw [hl, Stage.direct, ← hp]
      exact hst
    · rw [h.mutex n fun u => ?_]
      · simp only [Shared.behind, show view σ' = view c.sh.real from hs]
      · by_cases hut : u = t
        · rw [hut]
          exact hreset n
        · exact hothers u hut
  | one hflow hs =>
    have hdshown : directShown O ⟨b, t, .step ch⟩ = shown R ⟨c, t, .step ch⟩ := by
      rw [hshown, ← RealOp.shown_map k.realOp k.nominal place f, show f.map place = _ from hflow,
        RealOp.shown_map]
      simp only [directShown, hb, hm, ho]
    have hwrite : ∀ (l' : Local N P) (s' : Shared N σ) (st : DirectStage N Q),
        s'.syncVars = c.sh.syncVars → s'.word = c.sh.word → s'.real = σ' →
        l'.stage.ownSlot = none → l'.stage.Ok O place s'.word (view s'.real) →
        (∀ n, l'.stage.on n → n = k.nominal) → (∀ n, ¬ l'.stage.initialising n) →
        l'.stage.direct O place = some st →
        Related O view place bound ⟨Function.update c.loc t l', s'⟩
          ⟨Function.update b.loc t st, b.sh.set k.nominal m⟩ :=
      fun l' s' st hvars hword hreal hslot hok hon' hinit hst =>
        h.write hon hw hvars hword (hreal ▸ hs) hslot hok hon' hinit
          (fun n hn => absurd hn (hreset n)) fun st' hst' => Option.some.inj (hst.symm.trans hst')
    cases f with
    | goto p' =>
      cases g with
      | goto q =>
        obtain ⟨rfl, rfl⟩ := Prod.mk.inj (Option.some.inj hnext)
        have hplace : place p' = ((place p).1, q) := Flow.goto.inj hflow
        have hd : directNext O t (.step ch) (b.loc t) b.sh =
            some (.op k.realOp k.nominal q, b.sh.set k.nominal m) := by
          simp only [directNext, h.running, hb, hm, ho, Option.isSome_none, Bool.false_eq_true,
            if_false]
        refine Beside.one hd hdshown fun _ => hwrite _ _ _ rfl rfl rfl rfl ⟨hw, ?_⟩
          (fun n hn => hn.symm) (fun n => id) ?_
        · rw [hplace]
        · simp only [Stage.direct, hplace]
      | ret code => exact absurd hflow (by simp [Flow.map])
      | abort x => exact absurd hflow (by simp [Flow.map])
    | ret code =>
      cases g with
      | ret code' =>
        obtain rfl : code = code' := Flow.ret.inj hflow
        obtain ⟨rfl, rfl⟩ := Prod.mk.inj (Option.some.inj hnext)
        have hd : directNext O t (.step ch) (b.loc t) b.sh =
            some (.returned k.realOp k.nominal code, b.sh.set k.nominal m) := by
          simp only [directNext, h.running, hb, hm, ho, Option.isSome_none, Bool.false_eq_true,
            if_false]
        refine Beside.one hd hdshown fun _ => hwrite _ _ _ (Shared.returned_syncVars _ _ _)
          (Shared.returned_word _ _ _) ?_ ?_ ?_ ?_ ?_ (Local.returned_direct _ _ _ _)
        · unfold Shared.returned
          split
          · split <;> rfl
          · rfl
        all_goals
          rcases (c.loc t).returned_stage k (place p).1 code with hst | ⟨n', rfl, hst⟩
        all_goals rw [hst]
        · rfl
        · rfl
        · trivial
        · trivial
        · exact fun n hn => hn.elim
        · exact fun n hn => hn.symm
        · exact fun n => id
        · exact fun n => id
      | goto q => exact absurd hflow (by simp [Flow.map])
      | abort x => exact absurd hflow (by simp [Flow.map])
    | abort x =>
      cases g with
      | abort x' =>
        obtain rfl : x = x' := Flow.abort.inj hflow
        obtain ⟨rfl, rfl⟩ := Prod.mk.inj (Option.some.inj hnext)
        have hd : directNext O t (.step ch) (b.loc t) b.sh =
            some (.op k.realOp k.nominal (place p).2,
              { b.sh.set k.nominal m with abort := some x }) := by
          simp only [directNext, h.running, hb, hm, ho, Option.isSome_none, Bool.false_eq_true,
            if_false]
        exact Beside.one hd hdshown fun hnone => absurd hnone (by simp)
      | goto q => exact absurd hflow (by simp [Flow.map])
      | ret code => exact absurd hflow (by simp [Flow.map])

/-- **The initialisation of the real mutex.** -/
theorem Related.initialise (hruns : Runs R O view place bound)
    (hresets : ∀ mutexkind m, (O.init mutexkind O.fresh).1 = 0 →
      O.init mutexkind m = O.init mutexkind O.fresh)
    {c : Config ι (Local N P) (Shared N σ)} {b : Config ι (DirectStage N Q) (DirectShared N M)}
    (h : Related O view place bound c b) (hab : c.sh.abort = none) {t : ι} {n : N}
    {mutexkind : BitVec 32} {i : ℕ} {l' : Local N P} {s' : Shared N σ}
    (hl : (c.loc t).stage = .initReal n mutexkind i)
    (hnext : next R t .run (c.loc t) c.sh = some (l', s')) :
    Answered (direct O) (directShown O) b (shown R ⟨c, t, .run⟩) (Beside O view place bound
      ⟨Function.update c.loc t l', s'⟩) := by
  have hb : b.loc t = .init n mutexkind := h.loc t _ (by rw [hl]; rfl)
  obtain ⟨hw, hfresh, hinit⟩ : c.sh.word n = some i ∧ view c.sh.real i = O.fresh ∧
      (O.init mutexkind O.fresh).1 = 0 := by
    have hok := h.stage t
    rw [hl] at hok
    exact hok
  obtain ⟨hcode, hview⟩ := hruns.init i mutexkind c.sh.real
    (((h.word_lt _ _ hw).trans_le h.cur).trans_le h.total) hfresh
  -- a mutex that is initialised is what it is initialised to
  have hsame := hresets mutexkind (b.sh.mutexes n) hinit
  rw [← hsame] at hcode hview
  simp only [next, hab, hl, Option.isSome_none, Bool.false_eq_true, if_false] at hnext
  obtain ⟨rfl, rfl⟩ := Prod.mk.inj (Option.some.inj hnext)
  have hd : directNext O t .run (b.loc t) b.sh =
      some (.idle, b.sh.set n (O.init mutexkind (b.sh.mutexes n)).2) := by
    simp only [directNext, h.running, hb, Option.isSome_none, Bool.false_eq_true, if_false]
  refine Beside.one hd ?_ fun _ => ?_
  · simp only [directShown, shown, hb, hl, hcode]
  · refine h.write (show (c.loc t).stage.on n from ?_) hw rfl rfl hview rfl trivial
      (fun n' hn' => hn'.elim) (fun n' => id) (fun n' hn' => ?_) fun st' hst' => Option.some.inj hst'
    · rw [hl]
      rfl
    · rw [hl] at hn'
      exact hn'.symm

/-- **A slot is asked for.** -/
theorem Related.create {c : Config ι (Local N P) (Shared N σ)}
    {b : Config ι (DirectStage N Q) (DirectShared N M)} (h : Related O view place bound c b)
    (hab : c.sh.abort = none) {t : ι} {l' : Local N P} {s' : Shared N σ}
    (hl : (∃ k, (c.loc t).stage = .createMutex k) ∨
      ∃ n mutexkind, (c.loc t).stage = .initCreate n mutexkind)
    (hnext : next R t .run (c.loc t) c.sh = some (l', s')) :
    Answered (direct O) (directShown O) b (shown R ⟨c, t, .run⟩) (Beside O view place bound
      ⟨Function.update c.loc t l', s'⟩) := by
  have hshown : shown R ⟨c, t, .run⟩ = [] := by
    rcases hl with ⟨k, hl⟩ | ⟨n, mutexkind, hl⟩ <;> simp only [shown, hl] <;> rfl
  refine Beside.stay hshown fun hab' => ?_
  rcases Nat.lt_or_eq_of_le h.cur with hlt | heq
  · have hget := c.sh.syncVars.getNextIndex_of_lt hlt
    rcases hl with ⟨k, hl⟩ | ⟨n, mutexkind, hl⟩ <;>
      simp only [next, hab, hl, hget, Option.isSome_none, Bool.false_eq_true, if_false,
        Option.some.injEq, Prod.mk.injEq] at hnext <;>
      obtain ⟨rfl, rfl⟩ := hnext
    · refine h.handOut ?_ (fun i hi => ?_) rfl hlt rfl rfl rfl ?_
      · rw [hl]
        exact ⟨.inr rfl, fun n hn => hn, fun n hn => hn.elim, fun n => id⟩
      · exact (Option.some.inj hi).symm
      · trivial
    · have hok := h.stage t
      rw [hl] at hok
      refine h.handOut ?_ (fun i hi => ?_) rfl hlt rfl rfl rfl ?_
      · rw [hl]
        exact ⟨.inr rfl, fun n hn => hn, fun n hn => hn, fun n => id⟩
      · exact (Option.some.inj hi).symm
      · exact hok
  · have hget := c.sh.syncVars.getNextIndex_of_eq heq
    rcases hl with ⟨k, hl⟩ | ⟨n, mutexkind, hl⟩ <;>
    · simp only [next, hab, hl, hget, Option.isSome_none, Bool.false_eq_true, if_false,
        Option.some.injEq, Prod.mk.injEq] at hnext
      obtain ⟨-, rfl⟩ := hnext
      exact absurd hab' (by simp)

/-- **Every step of the interposed calls is answered.** -/
theorem simulates_direct (hruns : Runs R O view place bound)
    (hresets : ∀ mutexkind m, (O.init mutexkind O.fresh).1 = 0 →
      O.init mutexkind m = O.init mutexkind O.fresh) :
    Simulates (system R : System ι (Action N) _ _) (direct O) (shown R) (directShown O)
      (Orderly O) (Beside O view place bound) := by
  intro c b t a d hR hok hstep
  obtain ⟨l', s', hnext, rfl⟩ := System.step_eq_some.mp hstep
  obtain ⟨hab, hcase⟩ := next_eq_some hnext
  have h := hR hab
  have hpause : ∀ {st st' : Stage N P}, (c.loc t).stage = st → shown R ⟨c, t, a⟩ = [] →
      Pauses O place st st' → (∀ i, st'.ownSlot = some i → st.ownSlot = some i) →
      (st.Ok O place c.sh.word (view c.sh.real) → st'.Ok O place c.sh.word (view c.sh.real)) →
      Answered (direct O) (directShown O) b (shown R ⟨c, t, a⟩) (Beside O view place bound
        ⟨Function.update c.loc t { c.loc t with stage := st' }, c.sh⟩) := by
    rintro st st' rfl hshown hp hslot hst
    exact Beside.stay hshown fun _ => h.pause hp hslot (hst (h.stage t))
  cases hcase with
  | @call call n hl => exact h.call hl hok
  | @isMyMutex k st hl hst =>
    refine hpause hl (by simp only [shown, hl]; rfl) ?_ (fun i hi => ?_) fun _ => ?_
    all_goals rcases hst with rfl | ⟨hset, rfl⟩
    · exact ⟨.inr rfl, fun n hn => hn, fun n hn => hn, fun n => id⟩
    · exact ⟨.inr rfl, fun n hn => hn, fun n hn => hn, fun n => id⟩
    · exact hi
    · exact hi
    · trivial
    · rfl
  | created hl => exact h.create hab (.inl ⟨_, hl⟩) hnext
  | usedUp hl => exact h.create hab hl hnext
  | initCreated hl => exact h.create hab (.inr ⟨_, _, hl⟩) hnext
  | expected hl =>
    exact hpause hl (by simp only [shown, hl]; rfl)
      ⟨.inr rfl, fun n hn => hn, fun n hn => hn, fun n => id⟩ (fun i hi => hi) fun _ he => he
  | @doubleCheck k i e st hl hst =>
    refine hpause hl (by simp only [shown, hl]; rfl) ?_ (fun j hj => ?_) fun hold => ?_
    all_goals rcases hst with ⟨hnone, rfl⟩ | ⟨hset, rfl⟩
    · exact ⟨.inr rfl, fun n hn => hn, fun n hn => hn, fun n => id⟩
    · exact ⟨.inr rfl, fun n hn => hn, fun n hn => hn, fun n => id⟩
    · exact hj
    · exact absurd hj (by simp [Stage.ownSlot])
    · -- the word was still zero when it was loaded as expected
      by_contra he
      exact hold he hnone
    · rfl
  | installed hl =>
    exact Beside.stay (by simp only [shown, hl]; rfl) fun _ => h.install hl
  | lost hl he =>
    exact hpause hl (by simp only [shown, hl]; rfl)
      ⟨.inr rfl, fun n hn => hn, fun n hn => hn, fun n => id⟩
      (fun i hi => absurd hi (by simp [Stage.ownSlot])) fun _ => rfl
  | @asserted k addr hl hset =>
    refine hpause hl (by simp only [shown, hl]; rfl)
      ⟨.inr rfl, fun n hn => hn, fun n hn => hn, fun n => id⟩ (fun i hi => hi) fun hold => ?_
    cases addr <;> exact hold
  | failed hl hset =>
    exact Beside.stay (by simp only [shown, hl]; rfl) fun hnone => absurd hnone (by simp)
  | @got k n i hl hw =>
    refine hpause hl (by simp only [shown, hl]; rfl)
      ⟨.inr ?_, fun n hn => hn, fun n hn => hn, fun n => id⟩ (fun i hi => hi) fun hold => ?_
    · simp only [Stage.direct, hruns.entry]
    · obtain rfl : n = k.nominal := hold
      exact ⟨hw, by rw [hruns.entry]⟩
  | wild hl =>
    exact hpause hl (by simp only [shown, hl]; rfl)
      ⟨.inl rfl, fun n hn => hn.elim, fun n hn => hn.elim, fun n => id⟩ (fun i hi => hi)
      fun _ => trivial
  | step hl => exact h.step hruns hab hl hnext
  | returned hl => exact h.step hruns hab hl hnext
  | aborted hl => exact h.step hruns hab hl hnext
  | wake hl => exact h.woken hl (.inl ⟨rfl, rfl⟩)
  | cancel hl => exact h.woken hl (.inr ⟨rfl, rfl⟩)
  | initStored hl =>
    exact Beside.stay (by simp only [shown, hl]; rfl) fun _ => h.replace hl
  | initialised hl => exact h.initialise hruns hresets hab hl hnext

/-! ### Runs -/

/-- Nobody has called anything, and every mutex is as it was before it was used. -/
def directStart (O : MutexOps ι M Q) : Config ι (DirectStage N Q) (DirectShared N M) :=
  ⟨fun _ => .idle, { mutexes := fun _ => O.fresh }⟩

omit [DecidableEq ι] [DecidableEq N] in
/-- The two processes are related at first. -/
theorem Related.initial {c : Config ι (Local N P) (Shared N σ)} (h : Unused c)
    (htotal : c.sh.syncVars.total ≤ bound) (hfresh : ∀ i, view c.sh.real i = O.fresh) :
    Related O view place bound c (directStart O) where
  cur := h.cur
  total := htotal
  word_lt n i hn := absurd ((h.word n).symm.trans hn) (by simp)
  word_inj n m i hn := absurd ((h.word n).symm.trans hn) (by simp)
  unused i _ := hfresh i
  own t i hi := absurd hi (by simp [h.loc t, Stage.ownSlot])
  stage t := by
    rw [h.loc t]
    trivial
  apart t u _ := by
    rw [h.loc t]
    exact ⟨fun i hi => absurd hi (by simp [Stage.ownSlot]), fun n hn => hn.elim⟩
  running := rfl
  loc t st hst := by
    rw [h.loc t] at hst
    exact Option.some.inj hst
  mutex n _ := by
    simp only [directStart, Shared.behind, h.word n]

/-- An initialisation that succeeds does not depend on what was there before. -/
theorem mutexInit_resets (mutexkind : BitVec 32) (m : MutexData)
    (h : (mutexInit mutexkind {}).1 = 0) : mutexInit mutexkind m = mutexInit mutexkind {} := by
  unfold mutexInit at h ⊢
  simp only at h ⊢
  split at h
  · exact absurd h (by decide)
  · rename_i hcond
    rw [if_neg hcond, if_neg hcond]

/-- **The profiler is transparent.**  For every orderly run of the interposed calls, with all their
    counting, waits, cancelled waits and initialisations, there is a run of the direct calls in
    which the program sees the same calls, return values and failed assertions in the same order;
    and unless the process has aborted, the real mutexes behind the nominal ones are at the end
    what the mutexes of the direct calls are. -/
theorem transparent {id index : ι → ℕ}
    {c d : Config ι (Local N (ℕ × PC)) (Shared N SyncPerf.Shared)}
    {tr : List (Event ι (Action N) (Local N (ℕ × PC)) (Shared N SyncPerf.Shared))} (h : Unused c)
    (hzero : ∀ i, c.sh.real.mutexes i = {}) (hrun : Run (system (realOps id index)) c tr d)
    (horderly : ∀ x ∈ tr, Orderly (plainOps id) x) :
    ∃ tr' e, Run (direct (plainOps id)) (directStart (plainOps id)) tr' e ∧
      observed (directShown (plainOps id)) tr' = observed (shown (realOps id index)) tr ∧
      (d.sh.abort = none → ∀ n i, d.sh.word n = some i →
        (∀ t, ¬ (d.loc t).stage.initialising n) → e.sh.mutexes n = d.sh.real.mutexes i) := by
  have hsim := simulates_direct (N := N) (realOps_runs id index c.sh.syncVars.total)
    mutexInit_resets
  obtain ⟨tr', e, hrun', hobs, hR⟩ :=
    hsim.run (fun _ => Related.initial h le_rfl hzero) hrun horderly
  refine ⟨tr', e, hrun', hobs, fun hab n i hw hinit => ?_⟩
  rw [(hR hab).mutex n fun t ht => hinit t ht.initialising, Shared.behind, hw]

instance (st : Stage N P) (n : N) : Decidable (st.initialising n) := by
  apply Stage.casesOn (motive := fun st => Decidable (st.initialising n)) st <;> intros <;>
    first | exact decEq _ n | exact isFalse id

instance [Fintype ι] (O : MutexOps ι M Q) (x : Event ι (Action N) (Local N P) (Shared N σ)) :
    Decidable (Orderly O x) :=
  match x with
  | ⟨c, _, .call (.init mutexkind) n⟩ =>
    inferInstanceAs (Decidable ((∀ u, ¬ (c.loc u).stage.on n) ∧ (O.init mutexkind O.fresh).1 = 0))
  | ⟨c, _, .call .lock n⟩ | ⟨c, _, .call .trylock n⟩ | ⟨c, _, .call .unlock n⟩ |
    ⟨c, _, .call .condWait n⟩ | ⟨c, _, .call .destroy n⟩ =>
    inferInstanceAs (Decidable (∀ u, ¬ (c.loc u).stage.initialising n))
  | ⟨_, _, .run⟩ | ⟨_, _, .step _⟩ | ⟨_, _, .wake⟩ | ⟨_, _, .cancel⟩ => isTrue trivial

/-- The operations of the two threads on a mutex by itself. -/
def pairPlain : MutexOps Bool MutexData PC := plainOps fun t => if t then 2 else 1

/-- Both threads lock a mutex that is used for the first time, and each has got a slot for it.  The
    one that locks it waits on a condition variable until the other one has locked and unlocked
    it. -/
def race : List (Bool × Action Bool) :=
  List.flatten [[(false, .call .lock false), (true, .call .lock false)],
    List.replicate 4 (true, .run), List.replicate 4 (false, .run), List.replicate 3 (true, .run),
    List.replicate 3 (false, .run), List.replicate 9 (true, .step {}),
    [(true, .call .condWait false)], List.replicate 5 (false, .step {}),
    List.replicate 2 (true, .run), List.replicate 3 (true, .step {}),
    List.replicate 5 (false, .step {}), [(false, .call .unlock false)],
    List.replicate 2 (false, .run), List.replicate 5 (false, .step {}), [(true, .wake)],
    List.replicate 2 (true, .run), List.replicate 4 (true, .step {})]

/-- What the run leads to. -/
def raced := (system pairOps).execute pairUnused race (by decide +kernel)

/-- What the program sees of that run. -/
def racedSeen : List (Bool × Shown Bool) :=
  [(false, .call .lock false), (true, .call .lock false), (true, .ret .lock false 0),
    (true, .call .condWait false), (false, .ret .lock false 0), (false, .call .unlock false),
    (false, .ret .unlock false 0), (true, .woken false), (true, .ret .condRelock false 0)]

/-- The direct calls give the same answers as two first callers. -/
theorem transparent_raced :
    ∃ tr e, Run (direct pairPlain) (directStart pairPlain) tr e ∧
      observed (directShown pairPlain) tr = racedSeen ∧
      e.sh.mutexes false = raced.2.sh.real.mutexes 0 := by
  have hrun : Run (system pairOps) pairUnused raced.1 raced.2 := System.execute_run _ _ _ _
  obtain ⟨tr, e, hrun', hobs, hend⟩ :=
    transparent pairUnused_unused (fun _ => rfl) hrun (by decide +kernel)
  have hseen : observed (shown pairOps) raced.1 = racedSeen := by decide +kernel
  exact ⟨tr, e, hrun', hobs.trans hseen,
    hend (by decide +kernel) false 0 (by decide +kernel) (by decide +kernel)⟩

end SyncPerf.Interpose
