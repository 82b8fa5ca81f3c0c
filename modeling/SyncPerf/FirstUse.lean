import SyncPerf.CondWait

namespace SyncPerf.Interpose

open Interleaving

/-!
# The assertion of `get_mutex`

`pthread_mutex_lock`, `pthread_mutex_trylock` and `pthread_mutex_init` install the real mutex; the
other calls rely on it.  In an application that keeps to the rules, one call can come first all the
same: the destruction of a mutex that was initialised statically and never used.

* `Legal` — the calls that the rules allow;
* `DestroysFirst` — the call that comes too early;
* `NominalInv` — who has a real mutex, while no such call is made;
* `Destroying` — such a call fails;
* `getMutex_assert_iff` — the assertion holds in exactly the runs without such a call.
-/

variable {N P σ ι : Type}

/-! ### The rules -/

/-- The thread is in a call on `n`. -/
def Stage.on (n : N) : Stage N P → Prop
  | .isMyMutex k | .createMutex k | .expected k _ | .doubleCheck k _ _ | .compareAndSwap k _ _ =>
    k.nominal = n
  | .getMutexAssert k _ | .getMutexReturn k _ | .real k _ _ => k.nominal = n
  | .waiting n' _ | .initCreate n' _ | .initStore n' _ _ | .initReal n' _ _ => n' = n
  | .idle | .wild => False

/-- The thread is about to install a real mutex into `n`. -/
def Stage.installing (n : N) : Stage N P → Prop
  | .isMyMutex k | .createMutex k | .expected k _ | .doubleCheck k _ _ | .compareAndSwap k _ _ =>
    k.nominal = n
  | .initCreate n' _ | .initStore n' _ _ => n' = n
  | _ => False

/-- The thread is in `pthread_mutex_destroy` on `n`. -/
def Stage.destroying (n : N) : Stage N P → Prop
  | .getMutexAssert k _ | .getMutexReturn k _ | .real k _ _ => k = .destroy n
  | _ => False

/-- What is allowed on one mutex: initialise it when it is not initialised and not in use, use it
    while it is initialised, give up what one holds, and destroy it when nobody holds it or is in a
    call on it.  No thread is cancelled. -/
def Legal (x : Event ι (Action N) (Local N P) (Shared N σ)) : Prop :=
  match x.act with
  | .call (.init _) n => x.pre.sh.live n = false ∧ ∀ t, ¬ (x.pre.loc t).stage.on n
  | .call .lock n | .call .trylock n =>
    x.pre.sh.live n = true ∧ ∀ t, ¬ (x.pre.loc t).stage.destroying n
  | .call .unlock n | .call .condWait n =>
    x.pre.sh.live n = true ∧ 0 < (x.pre.loc x.who).held n
  | .call .destroy n =>
    x.pre.sh.live n = true ∧ ∀ t, (x.pre.loc t).held n = 0 ∧ ¬ (x.pre.loc t).stage.on n
  | .cancel => False
  | _ => True

/-- `pthread_mutex_destroy` is the first call on a mutex. -/
def DestroysFirst (x : Event ι (Action N) (Local N P) (Shared N σ)) : Prop :=
  match x.act with
  | .call .destroy n => x.pre.sh.touched n = false
  | _ => False

/-- The start: nobody is in a call or holds a mutex, no call was made, and what is initialised
    is so statically, with a zero first word. -/
structure Untouched (c : Config ι (Local N P) (Shared N σ)) : Prop where
  loc : ∀ t, c.loc t = {}
  abort : c.sh.abort = none
  touched : ∀ n, c.sh.touched n = false
  word : ∀ n, c.sh.live n = true → c.sh.word n = none

/-! ### Who has a real mutex -/

/-- What is known of the nominal word at a stage. -/
def Stage.Installed (w : N → Option ℕ) : Stage N P → Prop
  | .getMutexAssert k addr | .getMutexReturn k addr =>
    addr = .nominal k.nominal ∧ w k.nominal ≠ none
  | .doubleCheck k _ e | .compareAndSwap k _ e => e ≠ none → w k.nominal ≠ none
  | .real k _ _ => w k.nominal ≠ none
  | .waiting n _ | .initReal n _ _ => w n ≠ none
  | _ => True

/-- An installed mutex stays installed. -/
theorem Stage.Installed.mono {w w' : N → Option ℕ} {st : Stage N P} (h : st.Installed w)
    (hset : ∀ n, w n ≠ none → w' n ≠ none) : st.Installed w' := by
  cases st with
  | getMutexAssert k addr | getMutexReturn k addr => exact ⟨h.1, hset _ h.2⟩
  | doubleCheck k i e | compareAndSwap k i e => exact fun he => hset _ (h he)
  | real k i p => exact hset _ h
  | waiting n r | initReal n mutexkind i => exact hset _ h
  | _ => trivial

/-- Someone who is about to install into `n` is in a call on it. -/
theorem Stage.installing.on {n : N} {st : Stage N P} (h : st.installing n) : st.on n := by
  cases st <;> first | exact h | exact h.elim

/-- While no destroy comes first: a held mutex is installed, a call is where it can rely on that,
    a mutex on which a call was made is installed or about to be, and no assertion has failed. -/
structure NominalInv (c : Config ι (Local N P) (Shared N σ)) : Prop where
  held : ∀ t n, 0 < (c.loc t).held n → c.sh.word n ≠ none
  stage : ∀ t, (c.loc t).stage.Installed c.sh.word
  touched : ∀ n, c.sh.touched n = true →
    c.sh.word n ≠ none ∨ ∃ t, (c.loc t).stage.installing n
  abort : c.sh.abort ≠ some .getMutex

/-- The invariant holds at first. -/
theorem NominalInv.initial {c : Config ι (Local N P) (Shared N σ)} (h : Untouched c) :
    NominalInv c where
  held t n hpos := by
    rw [h.loc] at hpos
    exact absurd hpos (Nat.lt_irrefl 0)
  stage t := by
    rw [h.loc]
    trivial
  touched n ht := by
    rw [h.touched] at ht
    exact absurd ht (by decide)
  abort := by
    rw [h.abort]
    simp

/-- A call ends the use of its own mutex only. -/
theorem Shared.returned_live_of_ne [DecidableEq N] {s : Shared N σ} {k : Client N} {code : ℕ}
    {n : N} (hn : n ≠ k.nominal) : (s.returned k code).live n = s.live n := by
  cases k with
  | destroy n' =>
    simp only [Shared.returned]
    split
    · exact Function.update_of_ne hn _ _
    · rfl
  | _ => rfl

/-- What a step of a thread leaves: what it holds is installed, it is where it can be, and what it
    was to install is installed or still its task. -/
structure StepInstalled (l l' : Local N P) (s s' : Shared N σ) : Prop where
  held : ∀ n, 0 < l'.held n → 0 < l.held n ∨ s'.word n ≠ none
  stage : l'.stage.Installed s'.word
  installing : ∀ n, l.stage.installing n → l'.stage.installing n ∨ s'.word n ≠ none
  touched : ∀ n, s'.touched n = true →
    s.touched n = true ∨ l'.stage.installing n ∨ s'.word n ≠ none
  abort : s'.abort ≠ some .getMutex

/-- A step that leaves the holds, the calls and the abortion as they are. -/
theorem StepInstalled.of_stage {l : Local N P} {s s' : Shared N σ} {st st' : Stage N P}
    (hl : l.stage = st) (hab : s.abort = none) (habort : s'.abort = s.abort)
    (htouched : s'.touched = s.touched) (hst : st'.Installed s'.word)
    (hinst : ∀ n, st.installing n → st'.installing n ∨ s'.word n ≠ none) :
    StepInstalled l { l with stage := st' } s s' where
  held n h := .inl h
  stage := hst
  installing n h := hinst n (hl ▸ h)
  touched n h := .inl (htouched ▸ h)
  abort := by
    rw [habort, hab]
    simp

variable [DecidableEq N]

/-- A call changes what its thread holds of its own mutex only. -/
theorem Local.returned_held_of_ne {l : Local N P} {k : Client N} {i code : ℕ} {n : N}
    (hn : n ≠ k.nominal) : (l.returned k i code).held n = l.held n := by
  cases k with
  | destroy n' => rfl
  | condWait n' | lock n' | trylock n' | unlock n' | relock n' r =>
    simp only [Local.returned]
    split
    · exact Function.update_of_ne hn _ _
    · rfl

/-- **A step of a thread in a call**, or at the start of one that can rely on its real mutex. -/
theorem NextCase.stepInstalled {R : RealOps ι σ P} {t : ι} {a : Action N} {l l' : Local N P}
    {s s' : Shared N σ} (h : NextCase R t l s a l' s') (hab : s.abort = none)
    (hst : l.stage.Installed s.word)
    (hcall : ∀ call n, a = .call call n → (call.entry n : Stage N P).Installed s.word)
    (hcancel : a ≠ .cancel) : StepInstalled l l' s s' := by
  cases h with
  | @call call n hl =>
    have hentry := hcall call n rfl
    refine ⟨fun n' h => .inl h, hentry, ?_, ?_, ?_⟩
    · rw [hl]
      exact fun n' h => h.elim
    · intro n' h
      by_cases hn : n' = n
      · subst hn
        refine .inr ?_
        cases call with
        | lock | trylock | init mutexkind => exact .inl rfl
        | unlock | condWait | destroy => exact .inr hentry.2
      · refine .inl ?_
        simp only [Function.update_of_ne hn] at h
        exact h
    · rw [hab]
      simp
  | @isMyMutex k st hl hor =>
    refine .of_stage hl hab rfl rfl ?_ ?_
    · rcases hor with rfl | ⟨hset, rfl⟩
      · trivial
      · exact ⟨rfl, hset⟩
    · rintro n rfl
      rcases hor with rfl | ⟨hset, rfl⟩
      · exact .inl rfl
      · exact .inr hset
  | created hl =>
    exact .of_stage hl hab rfl rfl trivial fun n h => .inl h
  | usedUp hl => exact ⟨fun n h => .inl h, hst, fun n h => .inl h, fun n h => .inl h, by simp⟩
  | expected hl =>
    exact .of_stage hl hab rfl rfl id fun n h => .inl h
  | @doubleCheck k i e st hl hor =>
    rw [hl] at hst
    refine .of_stage hl hab rfl rfl ?_ ?_
    · rcases hor with ⟨-, rfl⟩ | ⟨hset, rfl⟩
      · exact hst
      · exact ⟨rfl, hset⟩
    · rintro n rfl
      rcases hor with ⟨-, rfl⟩ | ⟨hset, rfl⟩
      · exact .inl rfl
      · exact .inr hset
  | @installed k i hl =>
    have hset : Function.update s.word k.nominal (some i) k.nominal ≠ none := by
      rw [Function.update_self]
      simp
    refine .of_stage hl hab rfl rfl ⟨rfl, hset⟩ ?_
    rintro n rfl
    exact .inr hset
  | @lost k i e hl he =>
    rw [hl] at hst
    -- the word has changed, or was set from the start
    have hset : s.word k.nominal ≠ none := by
      intro hnone
      by_cases hnull : e = none
      · exact he (hnone.trans hnull.symm)
      · exact hst hnull hnone
    refine .of_stage hl hab rfl rfl ⟨rfl, hset⟩ ?_
    rintro n rfl
    exact .inr hset
  | @asserted k addr hl hset =>
    rw [hl] at hst
    exact .of_stage hl hab rfl rfl hst fun n h => h.elim
  | @failed k addr hl hset =>
    rw [hl] at hst
    obtain ⟨rfl, hword⟩ := hst
    rw [Shared.isSet, isMyMutex_iff.mpr hword] at hset
    exact absurd hset (by decide)
  | @got k n i hl hw =>
    rw [hl] at hst
    exact .of_stage hl hab rfl rfl hst.2 fun n h => h.elim
  | @wild k i hl =>
    rw [hl] at hst
    exact absurd hst.1 (by simp)
  | @step k i p p' ch σ' hl =>
    rw [hl] at hst
    exact .of_stage hl hab rfl rfl hst fun n h => h.elim
  | @returned k i code p ch σ' hl =>
    rw [hl] at hst
    -- the end of a call changes the real mutex and what the thread holds
    have hword : ({ s with real := σ' }.returned k code).word = s.word := by simp
    refine ⟨fun n h => ?_, ?_, ?_, fun n h => .inl (by simpa using h), by simp [hab]⟩
    · by_cases hn : n = k.nominal
      · rw [hn, hword]
        exact .inr hst
      · rw [Local.returned_held_of_ne hn] at h
        exact .inl h
    · rcases l.returned_stage k i code with hidle | ⟨n, rfl, hwait⟩
      · rw [hidle]
        trivial
      · rw [hwait, hword]
        exact hst
    · rw [hl]
      exact fun n h => h.elim
  | aborted hl => exact ⟨fun n h => .inl h, hst, fun n h => .inl h, fun n h => .inl h, by simp⟩
  | wake hl =>
    rw [hl] at hst
    exact .of_stage hl hab rfl rfl ⟨rfl, hst⟩ fun n h => h.elim
  | cancel hl => exact absurd rfl hcancel
  | initCreated hl =>
    exact .of_stage hl hab rfl rfl trivial fun n h => .inl h
  | @initStored n mutexkind i hl =>
    have hset : Function.update s.word n (some i) n ≠ none := by
      rw [Function.update_self]
      simp
    refine .of_stage hl hab rfl rfl hset ?_
    rintro n' rfl
    exact .inr hset
  | initialised hl =>
    exact .of_stage hl hab rfl rfl trivial fun n h => h.elim

omit [DecidableEq N] in
/-- A legal call that is no first destruction can rely on its real mutex. -/
theorem NominalInv.entry {c : Config ι (Local N P) (Shared N σ)} {i : ι} {call : Call} {n : N}
    (h : NominalInv c) (hlegal : Legal ⟨c, i, .call call n⟩)
    (hfirst : ¬ DestroysFirst ⟨c, i, .call call n⟩) :
    (call.entry n : Stage N P).Installed c.sh.word := by
  cases call with
  | lock | trylock | init mutexkind => trivial
  | unlock | condWait => exact ⟨rfl, h.held i n hlegal.2⟩
  | destroy =>
    refine ⟨rfl, ?_⟩
    have htouched : c.sh.touched n = true := by simpa [DestroysFirst] using hfirst
    rcases h.touched n htouched with hset | ⟨t, hinst⟩
    · exact hset
    · exact absurd hinst.on (hlegal.2 t).2

variable [DecidableEq ι]

/-- **Every legal step keeps the real mutexes where they are needed**, unless it is a destruction
    that comes first. -/
theorem NominalInv.step {R : RealOps ι σ P} {c d : Config ι (Local N P) (Shared N σ)} {i : ι}
    {a : Action N} (h : NominalInv c) (hlegal : Legal ⟨c, i, a⟩)
    (hfirst : ¬ DestroysFirst ⟨c, i, a⟩) (hs : (system R).step c i a = some d) :
    NominalInv d := by
  obtain ⟨l, s, hnext, rfl⟩ := System.step_eq_some.mp hs
  obtain ⟨hab, hcase⟩ := next_eq_some hnext
  have hself : StepInstalled (c.loc i) l c.sh s := by
    refine hcase.stepInstalled hab (h.stage i) ?_ ?_
    · rintro call n rfl
      exact h.entry hlegal hfirst
    · rintro rfl
      exact hlegal
  refine ⟨fun t n => ?_, ?_, fun n htouched => ?_, hself.abort⟩
  · refine forall_update (P := fun (_ : ι) (lj : Local N P) => 0 < lj.held n → s.word n ≠ none)
      (fun hpos => ?_) (fun j _ hpos => hcase.word_ne_none n (h.held j n hpos)) t
    rcases hself.held n hpos with hpos | hset
    · exact hcase.word_ne_none n (h.held i n hpos)
    · exact hset
  · exact forall_update (P := fun (_ : ι) (lj : Local N P) => lj.stage.Installed s.word)
      hself.stage fun j _ => (h.stage j).mono hcase.word_ne_none
  · have hnow : l.stage.installing n →
        s.word n ≠ none ∨ ∃ t, (Function.update c.loc i l t).stage.installing n := by
      intro hinst
      refine .inr ⟨i, ?_⟩
      rwa [Function.update_self]
    rcases hself.touched n htouched with htouched | hinst | hset
    · rcases h.touched n htouched with hset | ⟨t, hinst⟩
      · exact .inl (hcase.word_ne_none n hset)
      · by_cases ht : t = i
        · subst ht
          rcases hself.installing n hinst with hinst | hset
          · exact hnow hinst
          · exact .inl hset
        · refine .inr ⟨t, ?_⟩
          simp only [Function.update_of_ne ht]
          exact hinst
    · exact hnow hinst
    · exact .inl hset

/-! ### When a destruction comes first -/

/-- What a step of a thread that is not in a call on `n` leaves alone. -/
structure Frame (n : N) (l l' : Local N P) (s s' : Shared N σ) : Prop where
  on : ¬ l'.stage.on n
  held : l'.held n = l.held n
  word : s'.word n = s.word n
  live : s'.live n = s.live n
  touched : s'.touched n = s.touched n

omit [DecidableEq N] [DecidableEq ι] in
/-- A step that changes the stage only, as far as `n` can see. -/
theorem Frame.of_stage {n : N} {l : Local N P} {s s' : Shared N σ} {st : Stage N P}
    (hon : ¬ st.on n) (hword : s'.word n = s.word n) (hlive : s'.live n = s.live n)
    (htouched : s'.touched n = s.touched n) : Frame n l { l with stage := st } s s' :=
  ⟨hon, rfl, hword, hlive, htouched⟩

omit [DecidableEq ι] in
/-- **Steps of other calls do not touch a mutex.** -/
theorem NextCase.frame {R : RealOps ι σ P} {t : ι} {a : Action N} {l l' : Local N P}
    {s s' : Shared N σ} {n : N} (h : NextCase R t l s a l' s') (hon : ¬ l.stage.on n)
    (hcall : ∀ call, a ≠ .call call n) : Frame n l l' s s' := by
  cases h with
  | @call call n' hl =>
    have hn : n ≠ n' := by
      rintro rfl
      exact hcall call rfl
    refine .of_stage ?_ rfl rfl (Function.update_of_ne hn _ _)
    cases call <;> exact fun h => hn h.symm
  | @isMyMutex k st hl hor =>
    rw [hl] at hon
    rcases hor with rfl | ⟨-, rfl⟩ <;> exact .of_stage hon rfl rfl rfl
  | @doubleCheck k i e st hl hor =>
    rw [hl] at hon
    rcases hor with ⟨-, rfl⟩ | ⟨-, rfl⟩ <;> exact .of_stage hon rfl rfl rfl
  | @installed k i hl =>
    rw [hl] at hon
    exact .of_stage hon (Function.update_of_ne (fun h => hon h.symm) _ _) rfl rfl
  | @initStored n' mutexkind i hl =>
    rw [hl] at hon
    exact .of_stage hon (Function.update_of_ne (fun h => hon h.symm) _ _) rfl rfl
  | @initialised n' mutexkind i σ' live hl =>
    rw [hl] at hon
    exact .of_stage id rfl (Function.update_of_ne (fun h => hon h.symm) _ _) rfl
  | @returned k i code p ch σ' hl =>
    rw [hl] at hon
    have hn : n ≠ k.nominal := fun h => hon h.symm
    refine ⟨?_, Local.returned_held_of_ne hn, by simp, ?_, by simp⟩
    · rcases l.returned_stage k i code with hidle | ⟨n', rfl, hwait⟩
      · rw [hidle]
        exact id
      · rw [hwait]
        exact hon
    · exact Shared.returned_live_of_ne hn
  | usedUp hl | failed hl hset | aborted hl => exact ⟨hon, rfl, rfl, rfl, rfl⟩
  | wild hl => exact .of_stage id rfl rfl rfl
  | created hl | expected hl | lost hl he | asserted hl hset | got hl hw | step hl
    | wake hl | cancel hl | initCreated hl =>
    rw [hl] at hon
    exact .of_stage hon rfl rfl rfl

omit [DecidableEq ι] in
/-- A mutex on which a call was made stays one. -/
theorem NextCase.touched_mono {R : RealOps ι σ P} {t : ι} {a : Action N} {l l' : Local N P}
    {s s' : Shared N σ} (h : NextCase R t l s a l' s') (n : N) (hn : s.touched n = true) :
    s'.touched n = true := by
  cases h with
  | @call call n' hl =>
    show Function.update s.touched n' true n = true
    by_cases hnn : n = n'
    · rw [hnn, Function.update_self]
    · rw [Function.update_of_ne hnn]
      exact hn
  | returned hl => simpa using hn
  | _ => exact hn

/-- While no call was made on a mutex, nobody is in one, and its first word is zero if it is
    initialised. -/
def UntouchedInv (c : Config ι (Local N P) (Shared N σ)) : Prop :=
  ∀ n, c.sh.touched n = false →
    (c.sh.live n = true → c.sh.word n = none) ∧ ∀ t, ¬ (c.loc t).stage.on n

omit [DecidableEq N] [DecidableEq ι] in
/-- The invariant holds at first. -/
theorem UntouchedInv.initial {c : Config ι (Local N P) (Shared N σ)} (h : Untouched c) :
    UntouchedInv c := by
  refine fun n _ => ⟨h.word n, fun t => ?_⟩
  rw [h.loc]
  exact id

/-- Every step keeps the invariant. -/
theorem UntouchedInv.step {R : RealOps ι σ P} {c d : Config ι (Local N P) (Shared N σ)} {i : ι}
    {a : Action N} (h : UntouchedInv c) (hs : (system R).step c i a = some d) :
    UntouchedInv d := by
  obtain ⟨l, s, hnext, rfl⟩ := System.step_eq_some.mp hs
  obtain ⟨-, hcase⟩ := next_eq_some hnext
  intro n htouched
  have hcall : ∀ call, a ≠ .call call n := by
    rintro call rfl
    cases hcase with
    | call hl => simp at htouched
  have hbefore : c.sh.touched n = false := by
    by_contra hne
    rw [hcase.touched_mono n (eq_true_of_ne_false hne)] at htouched
    exact absurd htouched (by decide)
  obtain ⟨hword, hon⟩ := h n hbefore
  have hframe := hcase.frame (hon i) hcall
  refine ⟨fun hlive => ?_, ?_⟩
  · exact hframe.word.trans (hword (hframe.live.symm.trans hlive))
  · exact forall_update (P := fun (_ : ι) (lj : Local N P) => ¬ lj.stage.on n) hframe.on
      fun j _ => hon j

/-- A thread is about to fail in the destruction of `n`, which nobody else uses. -/
structure Destroying (t : ι) (n : N) (c : Config ι (Local N P) (Shared N σ)) : Prop where
  stage : (c.loc t).stage = .getMutexAssert (.destroy n) (.nominal n)
  word : c.sh.word n = none
  live : c.sh.live n = true
  held : ∀ j, (c.loc j).held n = 0
  others : ∀ j, j ≠ t → ¬ (c.loc j).stage.on n

omit [DecidableEq N] [DecidableEq ι] in
/-- While a thread destroys `n`, no other call on `n` is allowed. -/
theorem Destroying.no_call {t : ι} {n : N} {c : Config ι (Local N P) (Shared N σ)} {i : ι}
    {call : Call} (h : Destroying t n c) (hlegal : Legal ⟨c, i, .call call n⟩) : False := by
  have hon : (c.loc t).stage.on n := by
    rw [h.stage]
    rfl
  cases call with
  | lock | trylock =>
    refine hlegal.2 t ?_
    rw [h.stage]
    rfl
  | unlock | condWait => exact absurd hlegal.2 (by simp [h.held])
  | destroy => exact (hlegal.2 t).2 hon
  | init mutexkind => exact hlegal.2 t hon

omit [DecidableEq ι] in
/-- A thread at the assertion can only take that step. -/
theorem NextCase.of_getMutexAssert {R : RealOps ι σ P} {t : ι} {a : Action N} {l l' : Local N P}
    {s s' : Shared N σ} {k : Client N} {addr : Addr N} (h : NextCase R t l s a l' s')
    (hst : l.stage = .getMutexAssert k addr) :
    s.isSet R addr = true ∨ s'.abort = some .getMutex := by
  cases h with
  | asserted hl hset =>
    rw [hst] at hl
    injection hl with _ haddr
    exact .inl (haddr ▸ hset)
  | failed hl hset => exact .inr rfl
  | usedUp hl =>
    rw [hst] at hl
    rcases hl with ⟨k', hl⟩ | ⟨n, mutexkind, hl⟩ <;> exact absurd hl (by simp)
  | call hl | isMyMutex hl hor | created hl | expected hl | doubleCheck hl hor | installed hl
    | lost hl he | got hl hw | wild hl | step hl | returned hl | aborted hl | wake hl | cancel hl
    | initCreated hl | initStored hl | initialised hl =>
    rw [hst] at hl
    exact absurd hl (by simp)

/-- **The destruction fails**, whatever the other threads do in between. -/
theorem Destroying.step {R : RealOps ι σ P} {t : ι} {n : N}
    {c d : Config ι (Local N P) (Shared N σ)} {i : ι} {a : Action N} (h : Destroying t n c)
    (hlegal : Legal ⟨c, i, a⟩) (hs : (system R).step c i a = some d) :
    d.sh.abort = some .getMutex ∨ Destroying t n d := by
  obtain ⟨l, s, hnext, rfl⟩ := System.step_eq_some.mp hs
  obtain ⟨-, hcase⟩ := next_eq_some hnext
  by_cases hit : i = t
  · subst hit
    rcases hcase.of_getMutexAssert h.stage with hset | habort
    · rw [Shared.isSet, isMyMutex_iff] at hset
      exact absurd h.word hset
    · exact .inl habort
  · have hframe : Frame n (c.loc i) l c.sh s := by
      refine hcase.frame (h.others i hit) ?_
      rintro call rfl
      exact h.no_call hlegal
    refine .inr ⟨?_, hframe.word.trans h.word, hframe.live.trans h.live, ?_, ?_⟩
    · simp only [Function.update_of_ne (Ne.symm hit)]
      exact h.stage
    · exact forall_update (P := fun (_ : ι) (lj : Local N P) => lj.held n = 0)
        (hframe.held.trans (h.held i)) fun j _ => h.held j
    · exact forall_update (P := fun (j : ι) (lj : Local N P) => j ≠ t → ¬ lj.stage.on n)
        (fun _ => hframe.on) fun j _ => h.others j

/-- A destruction that comes first is about to fail. -/
theorem Destroying.start {R : RealOps ι σ P} {c d : Config ι (Local N P) (Shared N σ)} {i : ι}
    {a : Action N} (h : UntouchedInv c) (hlegal : Legal ⟨c, i, a⟩)
    (hfirst : DestroysFirst ⟨c, i, a⟩) (hs : (system R).step c i a = some d) :
    ∃ n, Destroying i n d := by
  obtain ⟨l, s, hnext, rfl⟩ := System.step_eq_some.mp hs
  obtain ⟨-, hcase⟩ := next_eq_some hnext
  cases hcase with
  | @call call n hl =>
    cases call with
    | destroy =>
      obtain ⟨hlive, huse⟩ := hlegal
      refine ⟨n, ?_, (h n hfirst).1 hlive, hlive, ?_, ?_⟩
      · simp only [Function.update_self]
        rfl
      · exact forall_update (P := fun (_ : ι) (lj : Local N P) => lj.held n = 0)
          (huse i).1 fun j _ => (huse j).1
      · intro j hj
        simp only [Function.update_of_ne hj]
        exact (huse j).2
    | _ => exact hfirst.elim
  | _ => exact hfirst.elim

/-! ### The assertion in every run -/

/-- The assertion of `get_mutex` has not failed, and will not fail where a thread stands at it:
    the word that it reads is set. -/
def AssertHolds (R : RealOps ι σ P) (c : Config ι (Local N P) (Shared N σ)) : Prop :=
  c.sh.abort ≠ some .getMutex ∧
    ∀ t k addr, (c.loc t).stage = .getMutexAssert k addr → c.sh.isSet R addr = true

omit [DecidableEq N] [DecidableEq ι] in
/-- The invariant gives the assertion of `get_mutex`. -/
theorem NominalInv.assertHolds {R : RealOps ι σ P} {c : Config ι (Local N P) (Shared N σ)}
    (h : NominalInv c) : AssertHolds R c := by
  refine ⟨h.abort, fun t k addr hst => ?_⟩
  have hinst := h.stage t
  rw [hst] at hinst
  obtain ⟨rfl, hword⟩ := hinst
  exact isMyMutex_iff.mpr hword

/-- A destruction that came first has failed, or is about to. -/
theorem destroysFirst_run {R : RealOps ι σ P} {c₀ c : Config ι (Local N P) (Shared N σ)}
    {tr : List (Event ι (Action N) (Local N P) (Shared N σ))} (hstart : Untouched c₀)
    (hrun : Run (system R) c₀ tr c) (hlegal : ∀ x ∈ tr, Legal x) :
    ∀ x ∈ tr, DestroysFirst x → c.sh.abort = some .getMutex ∨ ∃ n, Destroying x.who n c := by
  have hkept : UntouchedInv c ∧
      ∀ x ∈ tr, DestroysFirst x → c.sh.abort = some .getMutex ∨ ∃ n, Destroying x.who n c := by
    refine hrun.history (I := fun tr c => (∀ x ∈ tr, Legal x) → UntouchedInv c ∧
      ∀ x ∈ tr, DestroysFirst x → c.sh.abort = some .getMutex ∨ ∃ n, Destroying x.who n c)
      ?_ ?_ hlegal
    · exact fun _ => ⟨.initial hstart, by simp⟩
    · intro tr d i a e ih hs hlegal
      obtain ⟨huntouched, hfirst⟩ := ih fun x hx => hlegal x (List.mem_append_left _ hx)
      have hnow : Legal ⟨d, i, a⟩ := hlegal _ (by simp)
      refine ⟨huntouched.step hs, fun x hx hx' => ?_⟩
      rcases List.mem_append.mp hx with hx | hx
      · rcases hfirst x hx hx' with habort | ⟨n, hdestroying⟩
        · -- nothing follows a failure
          obtain ⟨l, s, hnext, -⟩ := System.step_eq_some.mp hs
          rw [(next_eq_some hnext).1] at habort
          exact absurd habort (by simp)
        · rcases hdestroying.step hnow hs with habort | hdestroying
          · exact .inl habort
          · exact .inr ⟨n, hdestroying⟩
      · obtain rfl := List.mem_singleton.mp hx
        exact .inr (Destroying.start huntouched hnow hx' hs)
  exact hkept.2

/-- **The assertion of `get_mutex`.**  In an application that keeps to the rules it holds
    throughout a run if and only if no mutex is destroyed before its first use. -/
theorem getMutex_assert_iff {R : RealOps ι σ P} {c₀ c : Config ι (Local N P) (Shared N σ)}
    {tr : List (Event ι (Action N) (Local N P) (Shared N σ))} (hstart : Untouched c₀)
    (hrun : Run (system R) c₀ tr c) (hlegal : ∀ x ∈ tr, Legal x) :
    AssertHolds R c ↔ ∀ x ∈ tr, ¬ DestroysFirst x := by
  constructor
  · intro hholds x hx hfirst
    rcases destroysFirst_run hstart hrun hlegal x hx hfirst with habort | ⟨n, hdestroying⟩
    · exact hholds.1 habort
    · have hset := hholds.2 _ _ _ hdestroying.stage
      rw [Shared.isSet, isMyMutex_iff] at hset
      exact hset hdestroying.word
  · intro hfirst
    refine NominalInv.assertHolds (hrun.invariant_of
      (G := fun x => Legal x ∧ ¬ DestroysFirst x) (fun x hx => ⟨hlegal x hx, hfirst x hx⟩)
      (.initial hstart) fun d i a e hinv hG hs => hinv.step hG.1 hG.2 hs)

/-! ### A used and an unused mutex -/

instance (st : Stage N P) (n : N) : Decidable (st.on n) := by
  apply Stage.casesOn (motive := fun st => Decidable (st.on n)) st <;> intros <;>
    first | exact decEq _ n | exact isFalse id

instance (st : Stage N P) (n : N) : Decidable (st.destroying n) := by
  apply Stage.casesOn (motive := fun st => Decidable (st.destroying n)) st <;> intros <;>
    first | exact decEq _ (Client.destroy n) | exact isFalse id

instance [Fintype ι] (x : Event ι (Action N) (Local N P) (Shared N σ)) : Decidable (Legal x) :=
  match x with
  | ⟨c, _, .call (.init _) n⟩ =>
    inferInstanceAs (Decidable (c.sh.live n = false ∧ ∀ t, ¬ (c.loc t).stage.on n))
  | ⟨c, _, .call .lock n⟩ | ⟨c, _, .call .trylock n⟩ =>
    inferInstanceAs (Decidable (c.sh.live n = true ∧ ∀ t, ¬ (c.loc t).stage.destroying n))
  | ⟨c, i, .call .unlock n⟩ | ⟨c, i, .call .condWait n⟩ =>
    inferInstanceAs (Decidable (c.sh.live n = true ∧ 0 < (c.loc i).held n))
  | ⟨c, _, .call .destroy n⟩ =>
    inferInstanceAs (Decidable (c.sh.live n = true ∧
      ∀ t, (c.loc t).held n = 0 ∧ ¬ (c.loc t).stage.on n))
  | ⟨_, _, .cancel⟩ => isFalse id
  | ⟨_, _, .run⟩ | ⟨_, _, .step _⟩ | ⟨_, _, .wake⟩ => isTrue trivial

instance (x : Event ι (Action N) (Local N P) (Shared N σ)) : Decidable (DestroysFirst x) :=
  match x with
  | ⟨c, _, .call .destroy n⟩ => decEq (c.sh.touched n) false
  | ⟨_, _, .call (.init _) _⟩ | ⟨_, _, .call .lock _⟩ | ⟨_, _, .call .trylock _⟩ |
    ⟨_, _, .call .unlock _⟩ | ⟨_, _, .call .condWait _⟩ => isFalse id
  | ⟨_, _, .run⟩ | ⟨_, _, .step _⟩ | ⟨_, _, .wake⟩ | ⟨_, _, .cancel⟩ => isFalse id

/-- The thread of `waitSched` is woken up, unlocks the mutex, destroys it, and initialises and
    destroys it again. -/
def usedEnd := (system waitOps).execute waitStart
  (List.flatten [waitSched, [((), .wake)], List.replicate 2 ((), .run),
    List.replicate 4 ((), .step {}), [((), .call .unlock ())], List.replicate 2 ((), .run),
    List.replicate 5 ((), .step {}), [((), .call .destroy ())], List.replicate 2 ((), .run),
    List.replicate 3 ((), .step {}), [((), .call (.init 0) ())], List.replicate 3 ((), .run),
    [((), .call .destroy ())], List.replicate 2 ((), .run), List.replicate 3 ((), .step {})])
  (by decide +kernel)

/-- Nobody has touched a mutex. -/
theorem untouched_waitStart : Untouched waitStart :=
  ⟨fun _ => rfl, rfl, fun _ => rfl, fun _ _ => rfl⟩

/-- The assertion holds on a mutex that is destroyed after its use. -/
theorem getMutex_assert_iff_used :
    AssertHolds waitOps usedEnd.2 ↔ ∀ x ∈ usedEnd.1, ¬ DestroysFirst x :=
  getMutex_assert_iff untouched_waitStart (System.execute_run _ _ _ _) (by decide +kernel)

/-- The thread destroys a mutex that is initialised statically, and was never used. -/
def unusedEnd := (system waitOps).execute waitStart [((), .call .destroy ()), ((), .run)]
  (by decide +kernel)

/-- The destruction of an unused mutex is legal, and fails. -/
theorem unused_destroy_fails :
    Untouched waitStart ∧ Run (system waitOps) waitStart unusedEnd.1 unusedEnd.2 ∧
      (∀ x ∈ unusedEnd.1, Legal x) ∧ unusedEnd.2.sh.abort = some .getMutex :=
  ⟨untouched_waitStart, System.execute_run _ _ _ _, by decide +kernel, by decide +kernel⟩

end SyncPerf.Interpose
