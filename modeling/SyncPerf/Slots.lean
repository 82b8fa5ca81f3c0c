import SyncPerf.CondWait

namespace SyncPerf.Interpose

open Interleaving

/-!
# Whose slot

The slots of `sync_vars` are handed out by `create_mutex`, in `pthread_mutex_init` and on the first
use of a nominal mutex, and the counters of a real mutex are kept under the index of its slot.  A
slot that lost the race of a first use, or that an initialisation has replaced, can still be in the
hands of a thread: of one that waits on a condition variable, or of one that is in a call.

* `Stage.slot` — the slot in the hands of a thread, and the mutex it stands for there;
* `SlotStep` — what a step does to the pool, the nominal words and the thread's slot;
* `SlotInv` — every slot in use has one owner, and carries its own index;
* `slots_one_to_one` — what the slots stand for, over whole runs.
-/

variable {N P σ ι : Type}

/-- The slot in the hands of a thread, with the nominal mutex on whose behalf it is used. -/
def Stage.slot : Stage N P → Option (N × ℕ)
  | .expected k i | .doubleCheck k i _ | .compareAndSwap k i _ | .getMutexAssert k (.real i) |
    .getMutexReturn k (.real i) | .real k i _ => some (k.nominal, i)
  | .waiting n i | .initStore n _ i | .initReal n _ i => some (n, i)
  | _ => none

/-- `get_mutex` is called with the nominal mutex of the call, or with a real one. -/
def Stage.Named : Stage N P → Prop
  | .getMutexAssert k (.nominal n) | .getMutexReturn k (.nominal n) => n = k.nominal
  | _ => True

/-- `pthread_mutex_init` is called on `n`. -/
def Initialises (n : N) (x : Event ι (Action N) (Local N P) (Shared N σ)) : Prop :=
  ∃ mutexkind, x.act = .call (.init mutexkind) n

/-- A step of an operation on the real mutex of slot `i`, for the nominal mutex `n`. -/
def Uses (n : N) (i : ℕ) (x : Event ι (Action N) (Local N P) (Shared N σ)) : Prop :=
  ∃ k p, (x.pre.loc x.who).stage = .real k i p ∧ k.nominal = n

/-- The start: nobody is in a call, the nominal words are zero, and the pool is not used up. -/
structure Unused (c : Config ι (Local N P) (Shared N σ)) : Prop where
  loc : ∀ t, (c.loc t).stage = .idle
  word : ∀ n, c.sh.word n = none
  cur : c.sh.syncVars.cur ≤ c.sh.syncVars.total

/-! ### One step -/

/-- A step hands out the next slot, or none; a slot that the thread has afterwards it had before,
    or has loaded from the nominal word, and a word that changes points to the slot it had. -/
inductive SlotStep (l l' : Local N P) (s s' : Shared N σ) : Prop
  | kept (hstart : s'.syncVars.start = s.syncVars.start)
      (htotal : s'.syncVars.total = s.syncVars.total)
      (hcur : s'.syncVars.cur = s.syncVars.cur ∨
        s'.syncVars.cur = s.syncVars.cur + 1 ∧ s'.abort ≠ none)
      (hslot : ∀ n i, l'.stage.slot = some (n, i) →
        l.stage.slot = some (n, i) ∨ s.word n = some i)
      (hword : ∀ n i, s'.word n = some i → s.word n = some i ∨ l.stage.slot = some (n, i))
  | handedOut {n : N} (hlt : s.syncVars.cur < s.syncVars.total)
      (hvars : s'.syncVars =
        createMutex { s.syncVars with cur := s.syncVars.cur + 1 } s.syncVars.cur)
      (hslot : l'.stage.slot = some (n, s.syncVars.cur)) (hword : s'.word = s.word)

/-- A step that leaves the pool and the nominal words as they are. -/
theorem SlotStep.of_stage {l l' : Local N P} {s s' : Shared N σ}
    (hvars : s'.syncVars = s.syncVars) (hword : s'.word = s.word)
    (hslot : ∀ n i, l'.stage.slot = some (n, i) → l.stage.slot = some (n, i) ∨ s.word n = some i) :
    SlotStep l l' s s' :=
  .kept (by rw [hvars]) (by rw [hvars]) (.inl (by rw [hvars])) hslot
    fun n i h => .inl (hword ▸ h)

/-- `create_mutex`, when the pool is used up. -/
theorem SlotStep.of_usedUp {l : Local N P} {s : Shared N σ} {r : RecordEntries LazyInstall.MutexT}
    (hr : r = { s.syncVars with cur := s.syncVars.cur + 1 }) :
    SlotStep l l s { s with syncVars := r, abort := some .getNextIndex } := by
  subst hr
  exact .kept rfl rfl (.inr ⟨rfl, by simp⟩) (fun n i h => .inl h) fun n i h => .inl h

/-- The slot in the hands of a thread whose operation has returned is the one it had. -/
theorem Local.returned_slot {l : Local N P} [DecidableEq N] {k : Client N} {i code : ℕ} {p : P}
    (hl : l.stage = .real k i p) {n : N} {j : ℕ}
    (h : (l.returned k i code).stage.slot = some (n, j)) : l.stage.slot = some (n, j) := by
  rcases l.returned_stage k i code with hidle | ⟨n', rfl, hwait⟩
  · rw [hidle] at h
    exact absurd h (by simp [Stage.slot])
  · rw [hwait] at h
    rw [hl]
    exact h

/-- A return leaves the pool alone. -/
@[simp] theorem Shared.returned_syncVars [DecidableEq N] (s : Shared N σ) (k : Client N)
    (code : ℕ) : (s.returned k code).syncVars = s.syncVars := by
  unfold Shared.returned
  split
  · split <;> rfl
  · rfl

variable [DecidableEq N]

/-- The step in which `create_mutex` asks for a slot. -/
theorem next_slotStep_create {R : RealOps ι σ P} {t : ι} {l l' : Local N P} {s s' : Shared N σ}
    (h : next R t .run l s = some (l', s')) (hcur : s.syncVars.cur ≤ s.syncVars.total)
    (hl : (∃ k, l.stage = .createMutex k) ∨ ∃ n mutexkind, l.stage = .initCreate n mutexkind) :
    SlotStep l l' s s' := by
  have hab := (next_eq_some h).1
  rcases Nat.lt_or_eq_of_le hcur with hlt | heq
  · have hget := s.syncVars.getNextIndex_of_lt hlt
    rcases hl with ⟨k, hl⟩ | ⟨n, mutexkind, hl⟩ <;>
    · simp only [next, hab, hl, hget, Option.isSome_none, Bool.false_eq_true, if_false,
        Option.some.injEq, Prod.mk.injEq] at h
      obtain ⟨rfl, rfl⟩ := h
      exact .handedOut hlt rfl rfl rfl
  · have hget := s.syncVars.getNextIndex_of_eq heq
    rcases hl with ⟨k, hl⟩ | ⟨n, mutexkind, hl⟩ <;>
    · simp only [next, hab, hl, hget, Option.isSome_none, Bool.false_eq_true, if_false,
        Option.some.injEq, Prod.mk.injEq] at h
      obtain ⟨rfl, rfl⟩ := h
      exact .of_usedUp rfl

/-- A nominal word is set to the slot in the thread's hands. -/
theorem SlotStep.of_install {l : Local N P} {s : Shared N σ} {st : Stage N P} {n : N} {i : ℕ}
    (hl : l.stage.slot = some (n, i))
    (hslot : ∀ m j, st.slot = some (m, j) → l.stage.slot = some (m, j)) :
    SlotStep l { l with stage := st } s { s with word := Function.update s.word n (some i) } := by
  refine .kept rfl rfl (.inl rfl) (fun m j h => .inl (hslot m j h)) fun m j h => ?_
  by_cases hm : m = n
  · subst hm
    simp only [Function.update_self, Option.some.injEq] at h
    subst h
    exact .inr hl
  · simp only [Function.update_of_ne hm] at h
    exact .inl h

omit [DecidableEq N] in
/-- A load, or another step after which the thread's slot is the one it had. -/
theorem SlotStep.of_load {l : Local N P} {s : Shared N σ} {st st' : Stage N P} (hl : l.stage = st)
    (hslot : ∀ n i, st'.slot = some (n, i) → st.slot = some (n, i)) :
    SlotStep l { l with stage := st' } s s :=
  .of_stage rfl rfl fun n i h => .inl (hl ▸ hslot n i h)

/-- **What a step does to the slots.** -/
theorem next_slotStep {R : RealOps ι σ P} {t : ι} {a : Action N} {l l' : Local N P}
    {s s' : Shared N σ} (h : next R t a l s = some (l', s'))
    (hcur : s.syncVars.cur ≤ s.syncVars.total) (hnamed : l.stage.Named) :
    SlotStep l l' s s' := by
  cases (next_eq_some h).2 with
  -- `create_mutex`
  | created hl => exact next_slotStep_create h hcur (.inl ⟨_, hl⟩)
  | usedUp hl => exact next_slotStep_create h hcur hl
  | initCreated hl => exact next_slotStep_create h hcur (.inr ⟨_, _, hl⟩)
  -- the nominal word is set
  | installed hl => exact .of_install (by rw [hl]; rfl) fun m j h => absurd h (by simp [Stage.slot])
  | initStored hl => exact .of_install (by rw [hl]; rfl) fun m j h => by rw [hl]; exact h
  -- the nominal word is read
  | @got k n i hl hw =>
    rw [hl] at hnamed
    obtain rfl := hnamed
    refine .of_stage rfl rfl fun m j h => .inr ?_
    simp only [Stage.slot, Option.some.injEq, Prod.mk.injEq] at h
    rw [← h.1, ← h.2]
    exact hw
  | @call call n hl =>
    refine .of_stage rfl rfl fun m i h => ?_
    cases call <;> exact absurd h (by simp [Call.entry, Stage.slot])
  | isMyMutex hl hst =>
    refine .of_load hl fun n i h => ?_
    rcases hst with rfl | ⟨-, rfl⟩ <;> exact absurd h (by simp [Stage.slot])
  | expected hl => exact .of_load hl fun n i h => h
  | doubleCheck hl hst =>
    refine .of_load hl fun n i h => ?_
    rcases hst with ⟨-, rfl⟩ | ⟨-, rfl⟩
    · exact h
    · exact absurd h (by simp [Stage.slot])
  | lost hl he => exact .of_load hl fun n i h => absurd h (by simp [Stage.slot])
  | @asserted k addr hl hset =>
    refine .of_load hl fun n i h => ?_
    cases addr <;> exact h
  | wild hl => exact .of_load hl fun n i h => absurd h (by simp [Stage.slot])
  | wake hl => exact .of_load hl fun n i h => absurd h (by simp [Stage.slot])
  | cancel hl => exact .of_load hl fun n i h => h
  | failed hl hset => exact .of_stage rfl rfl fun n i h => .inl h
  | step hl => exact .of_stage rfl rfl fun n i h => .inl (by rw [hl]; exact h)
  | returned hl =>
    exact .of_stage (Shared.returned_syncVars _ _ _) (Shared.returned_word _ _ _)
      fun n i h => .inl (Local.returned_slot hl h)
  | aborted hl => exact .of_stage rfl rfl fun n i h => .inl h
  | initialised hl => exact .of_stage rfl rfl fun n i h => absurd h (by simp [Stage.slot])

/-- A thread keeps calling `get_mutex` with its own mutex or a real one. -/
theorem NextCase.named {R : RealOps ι σ P} {t : ι} {a : Action N} {l l' : Local N P}
    {s s' : Shared N σ} (h : NextCase R t l s a l' s') (hnamed : l.stage.Named) :
    l'.stage.Named := by
  cases h with
  | @call call n hl => cases call <;> first | rfl | trivial
  | isMyMutex hl hst => rcases hst with rfl | ⟨-, rfl⟩ <;> first | rfl | trivial
  | doubleCheck hl hst => rcases hst with ⟨-, rfl⟩ | ⟨-, rfl⟩ <;> first | rfl | trivial
  | installed hl | lost hl he | wake hl => rfl
  | @asserted k addr hl hset =>
    rw [hl] at hnamed
    cases addr <;> exact hnamed
  | returned hl =>
    rcases l.returned_stage _ _ _ with hst | ⟨n, -, hst⟩ <;> rw [hst] <;> trivial
  | usedUp hl | failed hl hset | aborted hl => exact hnamed
  | _ => trivial

/-! ### Runs -/

/-- A slot that was handed out for `n`, and carries its own index. -/
structure Owned (owner : ℕ → N) (r : RecordEntries LazyInstall.MutexT) (n : N) (i : ℕ) : Prop where
  lt : i < r.cur
  lt_total : i < r.total
  owner : owner i = n
  entryIndex : (r.start i).entryIndex = i

/-- Every slot in use has an owner: the nominal mutex that points to it, or on whose behalf a
    thread uses it. -/
structure SlotInv (total : ℕ) (owner : ℕ → N) (c : Config ι (Local N P) (Shared N σ)) :
    Prop where
  total : c.sh.syncVars.total = total
  cur : c.sh.abort = none → c.sh.syncVars.cur ≤ c.sh.syncVars.total
  word : ∀ n i, c.sh.word n = some i → Owned owner c.sh.syncVars n i
  slot : ∀ t n i, (c.loc t).stage.slot = some (n, i) → Owned owner c.sh.syncVars n i
  named : ∀ t, (c.loc t).stage.Named

omit [DecidableEq N] in
/-- The invariant holds at first. -/
theorem SlotInv.initial {c : Config ι (Local N P) (Shared N σ)} (h : Unused c) (owner : ℕ → N) :
    SlotInv c.sh.syncVars.total owner c where
  total := rfl
  cur _ := h.cur
  word n i hw := absurd (h.word n) (by simp [hw])
  slot t n i hs := absurd hs (by simp [h.loc t, Stage.slot])
  named t := by rw [h.loc t]; trivial

omit [DecidableEq N] in
/-- The pool keeps its size. -/
theorem SlotStep.total {l l' : Local N P} {s s' : Shared N σ} (h : SlotStep l l' s s') :
    s'.syncVars.total = s.syncVars.total := by
  cases h with
  | kept _ htotal _ _ _ => exact htotal
  | handedOut _ hvars _ _ => rw [hvars]; rfl

omit [DecidableEq N] in
/-- What is owned stays so. -/
theorem SlotStep.owned {l l' : Local N P} {s s' : Shared N σ} (h : SlotStep l l' s s')
    (owner : ℕ → N) : ∃ owner' : ℕ → N,
      (∀ n i, Owned owner s.syncVars n i → Owned owner' s'.syncVars n i) ∧
      ∀ n i, l'.stage.slot = some (n, i) →
        l.stage.slot = some (n, i) ∨ s.word n = some i ∨ Owned owner' s'.syncVars n i := by
  cases h with
  | kept hstart htotal hcur hslot hword =>
    refine ⟨owner, fun n i hown => ⟨?_, ?_, hown.owner, ?_⟩, fun n i hs => ?_⟩
    · have := hown.lt
      omega
    · rw [htotal]
      exact hown.lt_total
    · rw [hstart]
      exact hown.entryIndex
    · exact (hslot n i hs).imp_right .inl
  | @handedOut n hlt hvars hslot hword =>
    -- the new slot lies behind all slots in use
    refine ⟨Function.update owner s.syncVars.cur n, fun m i hown => ?_, fun m i hs => ?_⟩
    · have hne : i ≠ s.syncVars.cur := Nat.ne_of_lt hown.lt
      rw [hvars]
      refine ⟨Nat.lt_succ_of_lt hown.lt, hown.lt_total, ?_, ?_⟩
      · rw [Function.update_of_ne hne]
        exact hown.owner
      · rw [createMutex, RecordEntries.modifyEntry_start_ne _ _ hne]
        exact hown.entryIndex
    · rw [hslot, Option.some.injEq, Prod.mk.injEq] at hs
      obtain ⟨rfl, rfl⟩ := hs
      refine .inr (.inr ?_)
      rw [hvars]
      exact ⟨Nat.lt_succ_self _, hlt, by simp, by simp [createMutex]⟩

variable [DecidableEq ι]

/-- **Every step keeps the owners.** -/
theorem SlotInv.step {R : RealOps ι σ P} {total : ℕ} {owner : ℕ → N}
    {c d : Config ι (Local N P) (Shared N σ)} {t : ι} {a : Action N} (hI : SlotInv total owner c)
    (h : (system R).step c t a = some d) :
    ∃ owner' : ℕ → N, SlotInv total owner' d ∧
      ∀ n i, Owned owner c.sh.syncVars n i → Owned owner' d.sh.syncVars n i := by
  obtain ⟨l', s', hnext, rfl⟩ := System.step_eq_some.mp h
  obtain ⟨hab, hcase⟩ := next_eq_some hnext
  have hstep := next_slotStep hnext (hI.cur hab) (hI.named t)
  obtain ⟨owner', hkeep, hslot⟩ := hstep.owned owner
  refine ⟨owner', ⟨hstep.total.trans hI.total, fun hab' => ?_, fun n i hw => ?_, ?_, ?_⟩, hkeep⟩
  · have hcur := hI.cur hab
    cases hstep with
    | kept hstart htotal hcur' _ _ =>
      rcases hcur' with hcur' | ⟨-, habort⟩
      · simpa [hcur', htotal] using hcur
      · exact absurd hab' habort
    | handedOut hlt hvars _ _ =>
      simp only [hvars]
      exact hlt
  · have hold : c.sh.word n = some i ∨ (c.loc t).stage.slot = some (n, i) := by
      cases hstep with
      | kept _ _ _ _ hword => exact hword n i hw
      | handedOut _ _ _ hword => exact .inl (hword ▸ hw)
    exact hkeep n i (hold.elim (hI.word n i) (hI.slot t n i))
  · refine forall_update
      (P := fun _ (l : Local N P) => ∀ n i, l.stage.slot = some (n, i) → Owned owner' _ n i)
      (fun n i hs => ?_) fun u _ n i hs => hkeep n i (hI.slot u n i hs)
    rcases hslot n i hs with hs | hw | hown
    · exact hkeep n i (hI.slot t n i hs)
    · exact hkeep n i (hI.word n i hw)
    · exact hown
  · exact forall_update (P := fun _ (l : Local N P) => l.stage.Named) (hcase.named (hI.named t))
      fun u _ => hI.named u

/-- **Every run keeps the owners**, and every operation on a real mutex was the owner's. -/
theorem SlotInv.run {R : RealOps ι σ P} {c d : Config ι (Local N P) (Shared N σ)}
    {tr : List (Event ι (Action N) (Local N P) (Shared N σ))} (h : Unused c) (owner₀ : ℕ → N)
    (hrun : Run (system R) c tr d) :
    ∃ owner : ℕ → N, SlotInv c.sh.syncVars.total owner d ∧
      ∀ x ∈ tr, ∀ n i, Uses n i x → Owned owner d.sh.syncVars n i := by
  refine hrun.history (I := fun tr d => ∃ owner : ℕ → N, SlotInv c.sh.syncVars.total owner d ∧
    ∀ x ∈ tr, ∀ n i, Uses n i x → Owned owner d.sh.syncVars n i) ?_ ?_
  · exact ⟨owner₀, .initial h owner₀, fun x hx => absurd hx (by simp)⟩
  · rintro tr d t a e ⟨owner, hI, huses⟩ hs
    obtain ⟨owner', hI', hkeep⟩ := hI.step hs
    refine ⟨owner', hI', fun x hx n i hu => ?_⟩
    rcases List.mem_append.mp hx with hx | hx
    · exact hkeep n i (huses x hx n i hu)
    · obtain rfl := List.mem_singleton.mp hx
      obtain ⟨k, p, hst, rfl⟩ := hu
      exact hkeep _ i (hI.slot t _ i (by rw [hst]; rfl))

/-! ### Without another initialisation -/

/-- What is known of the word of `n` at a stage, when nobody initialises `n`. -/
def Stage.Agrees (n : N) (w : Option ℕ) : Stage N P → Prop
  | .real k i _ => k.nominal = n → w = some i
  | .doubleCheck k _ e => k.nominal = n → e ≠ none → w ≠ none
  | .compareAndSwap k _ e => k.nominal = n → e = none
  | .initCreate n' _ | .initStore n' _ _ => n' ≠ n
  | _ => True

omit [DecidableEq N] in
/-- A word that is set stays. -/
theorem Stage.Agrees.mono {n : N} {w w' : Option ℕ} {st : Stage N P} (h : st.Agrees n w)
    (hw : ∀ i, w = some i → w' = some i) : st.Agrees n w' := by
  cases st with
  | real k i p => exact fun hk => hw i (h hk)
  | doubleCheck k i e =>
    intro hk he
    obtain ⟨j, hj⟩ := Option.ne_none_iff_exists'.mp (h hk he)
    rw [hw j hj]
    simp
  | compareAndSwap k i e => exact h
  | initCreate n' mutexkind | initStore n' mutexkind i => exact h
  | _ => trivial

omit [DecidableEq ι] in
/-- **A step that is no initialisation of `n`** keeps the word of `n` once it is set. -/
theorem NextCase.agrees {R : RealOps ι σ P} {t : ι} {a : Action N} {l l' : Local N P}
    {s s' : Shared N σ} (h : NextCase R t l s a l' s') {n : N} (hst : l.stage.Agrees n (s.word n))
    (hnamed : l.stage.Named) (hinit : ∀ mutexkind, a ≠ .call (.init mutexkind) n) :
    (∀ i, s.word n = some i → s'.word n = some i) ∧ l'.stage.Agrees n (s'.word n) := by
  cases h with
  | @call call m hl =>
    refine ⟨fun i h => h, ?_⟩
    cases call with
    | init mutexkind =>
      rintro rfl
      exact hinit mutexkind rfl
    | _ => trivial
  | isMyMutex hl hor => exact ⟨fun i h => h, by rcases hor with rfl | ⟨-, rfl⟩ <;> trivial⟩
  | @expected k i hl =>
    refine ⟨fun i h => h, ?_⟩
    rintro rfl he
    exact he
  | @doubleCheck k i e st hl hor =>
    rw [hl] at hst
    refine ⟨fun i h => h, ?_⟩
    rcases hor with ⟨hnone, rfl⟩ | ⟨-, rfl⟩
    · -- the word read zero after `expected` was read
      rintro rfl
      by_contra he
      exact hst rfl he hnone
    · trivial
  | @installed k i hl =>
    rw [hl] at hst
    refine ⟨fun j hj => ?_, trivial⟩
    have hne : n ≠ k.nominal := by
      rintro rfl
      rw [hst rfl] at hj
      exact absurd hj (by simp)
    simpa only [Function.update_of_ne hne] using hj
  | initStored hl =>
    rw [hl] at hst
    refine ⟨fun j hj => ?_, trivial⟩
    simpa only [Function.update_of_ne (Ne.symm hst)] using hj
  | @got k m i hl hw =>
    rw [hl] at hnamed
    obtain rfl := hnamed
    refine ⟨fun i h => h, ?_⟩
    rintro rfl
    exact hw
  | step hl =>
    rw [hl] at hst
    exact ⟨fun i h => h, hst⟩
  | returned hl =>
    refine ⟨fun i h => by rwa [Shared.returned_word], ?_⟩
    rcases l.returned_stage _ _ _ with hst | ⟨n, -, hst⟩ <;> rw [hst] <;> trivial
  | initCreated hl =>
    rw [hl] at hst
    exact ⟨fun i h => h, hst⟩
  | usedUp hl | failed hl hset | aborted hl => exact ⟨fun i h => h, hst⟩
  | created hl | lost hl he | asserted hl hset | wild hl | wake hl | cancel hl | initialised hl =>
    exact ⟨fun i h => h, trivial⟩

/-- The threads agree on the slot of a mutex that nobody initialises. -/
theorem agrees_run {R : RealOps ι σ P} {c d : Config ι (Local N P) (Shared N σ)}
    {tr : List (Event ι (Action N) (Local N P) (Shared N σ))} (h : Unused c)
    (hrun : Run (system R) c tr d) {n : N} (hinit : ∀ x ∈ tr, ¬ Initialises n x) :
    ∀ x ∈ tr, ∀ i, Uses n i x → d.sh.word n = some i := by
  have hkept := hrun.history (I := fun tr d => (∀ x ∈ tr, ¬ Initialises n x) →
    (∀ t, (d.loc t).stage.Named ∧ (d.loc t).stage.Agrees n (d.sh.word n)) ∧
      ∀ x ∈ tr, ∀ i, Uses n i x → d.sh.word n = some i) ?_ ?_
  · exact (hkept hinit).2
  · refine fun _ => ⟨fun t => ?_, fun x hx => absurd hx (by simp)⟩
    rw [h.loc t]
    exact ⟨trivial, trivial⟩
  · rintro tr d t a e ih hs hinit
    obtain ⟨hst, huses⟩ := ih fun x hx => hinit x (by simp [hx])
    obtain ⟨l', s', hnext, rfl⟩ := System.step_eq_some.mp hs
    have hcase := (next_eq_some hnext).2
    obtain ⟨hword, hagrees⟩ := hcase.agrees (hst t).2 (hst t).1 fun mutexkind ha =>
      hinit ⟨d, t, a⟩ (by simp) ⟨mutexkind, ha⟩
    refine ⟨forall_update (P := fun _ (l : Local N P) => l.stage.Named ∧ l.stage.Agrees n _)
      ⟨hcase.named (hst t).1, hagrees⟩ fun u _ => ⟨(hst u).1, (hst u).2.mono hword⟩,
      fun x hx i hu => ?_⟩
    rcases List.mem_append.mp hx with hx | hx
    · exact hword i (huses x hx i hu)
    · obtain rfl := List.mem_singleton.mp hx
      obtain ⟨k, p, hl, rfl⟩ := hu
      have hreal := (hst t).2
      rw [hl] at hreal
      exact hword i (hreal rfl)

/-- **A slot stands for one nominal mutex.**  Over any run of whole calls, with waits, cancelled
    waits and initialisations at any time: the operations on the real mutex of one slot were all
    made for one nominal mutex, and the slot carries its own index, which lies in the pool; two
    nominal mutexes never point to one slot; and the operations on a mutex that is not initialised
    by a call are all made on one slot. -/
theorem slots_one_to_one {R : RealOps ι σ P} {c d : Config ι (Local N P) (Shared N σ)}
    {tr : List (Event ι (Action N) (Local N P) (Shared N σ))} (h : Unused c)
    (hrun : Run (system R) c tr d) :
    (∀ x ∈ tr, ∀ y ∈ tr, ∀ n m i, Uses n i x → Uses m i y → n = m) ∧
    (∀ x ∈ tr, ∀ n i, Uses n i x →
      (d.sh.syncVars.start i).entryIndex = i ∧ i < d.sh.syncVars.total) ∧
    (∀ n m i, d.sh.word n = some i → d.sh.word m = some i → n = m) ∧
    ∀ n, (∀ x ∈ tr, ¬ Initialises n x) →
      ∀ x ∈ tr, ∀ y ∈ tr, ∀ i j, Uses n i x → Uses n j y → i = j := by
  refine ⟨fun x hx y hy n m i hu hv => ?_, fun x hx n i hu => ?_, fun n m i hw hv => ?_,
    fun n hinit x hx y hy i j hu hv => ?_⟩
  · obtain ⟨owner, -, huses⟩ := SlotInv.run h (fun _ => n) hrun
    exact (huses x hx n i hu).owner.symm.trans (huses y hy m i hv).owner
  · obtain ⟨owner, -, huses⟩ := SlotInv.run h (fun _ => n) hrun
    exact ⟨(huses x hx n i hu).entryIndex, (huses x hx n i hu).lt_total⟩
  · obtain ⟨owner, hI, -⟩ := SlotInv.run h (fun _ => n) hrun
    exact (hI.word n i hw).owner.symm.trans (hI.word m i hv).owner
  · have hword := agrees_run h hrun hinit
    exact Option.some.inj ((hword x hx i hu).symm.trans (hword y hy j hv))

/-- Two mutexes, and threads that have called nothing. -/
def pairUnused : Config Bool (Local Bool (ℕ × PC)) (Shared Bool SyncPerf.Shared) where
  loc := fun _ => {}
  sh := {
    word := fun _ => none
    syncVars :=
      { start := fun _ => {}, total := maxSyncEntries, cur := 0, total_lt := maxSyncEntries_lt }
    real := { mutexes := fun _ => {}, threadSyncData := fun _ => {}, xthread := {}, stats := {} }
    live := fun _ => true }

/-- Two threads before their first calls. -/
theorem pairUnused_unused : Unused pairUnused := ⟨fun _ => rfl, fun _ => rfl, by decide⟩

/-- The threads have kernel ids 1 and 2 and thread indices 0 and 1. -/
def pairOps : RealOps Bool SyncPerf.Shared (ℕ × PC) :=
  realOps (fun t => if t then 2 else 1) fun t => if t then 1 else 0

/-- Each thread locks its own mutex; the first then initialises its mutex and locks it again. -/
def pairSchedule : List (Bool × Action Bool) :=
  List.flatten [[(false, .call .lock false), (true, .call .lock true)],
    List.replicate 7 (true, .run), List.replicate 7 (false, .run),
    List.replicate 9 (true, .step {}), List.replicate 9 (false, .step {}),
    [(false, .call (.init 0) false)], List.replicate 3 (false, .run), [(false, .call .lock false)],
    List.replicate 3 (false, .run), List.replicate 9 (false, .step {})]

/-- What two threads do. -/
def pairUses := (system pairOps).execute pairUnused pairSchedule (by decide +kernel)

/-- Two mutexes with a slot each. -/
theorem slots_one_to_one_pair :
    (∀ x ∈ pairUses.1, ∀ y ∈ pairUses.1, ∀ n m i, Uses n i x → Uses m i y → n = m) ∧
      pairUses.2.sh.word false = some 2 ∧ pairUses.2.sh.word true = some 0 := by
  have hrun : Run (system pairOps) pairUnused pairUses.1 pairUses.2 := System.execute_run _ _ _ _
  exact ⟨(slots_one_to_one pairUnused_unused hrun).1, by decide +kernel, by decide +kernel⟩

/-! ### Whose counters -/

section Records

variable {id : ι → ℕ} {index : ι → ℕ}

end Records

end SyncPerf.Interpose
