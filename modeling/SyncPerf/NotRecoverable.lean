import SyncPerf.PiUnlock

namespace SyncPerf.Calls

/-!
# Mutexes that are not recoverable

When the owner of a robust mutex dies, the next owner finds it inconsistent; when that one unlocks
it without making it consistent, nobody may have it again.

* `NotRecoverable` — the state;
* `trylocks` — a sequence of trylock calls by any threads;
* `trylock_notRecoverable` — what the next call does;
* `stays_notRecoverable_iff` — the state stays what it is only if there is no next call.
-/

/-! ### The state -/

/-- A robust mutex without priority inheritance that is not recoverable, and that no thread
    holds. -/
structure NotRecoverable (κ : BasicKind) (m : MutexData) : Prop where
  kind : pthreadMutexTypeElision m.kind = Protocol.robust.code κ
  owner : m.owner = mutexNotrecoverable
  tid : m.lock &&& futexTidMask = 0

/-- Trylock calls of the threads `ids`, one after the other: how each ends, and the mutex then. -/
def trylocks (S : Sys) (prio : ℕ → Prio) : List ℕ → MutexData → List (Outcome × MutexData)
  | [], _ => []
  | id :: ids, m =>
    let r := doMutexTrylock S id ⟨m, prio id, []⟩
    (r.1, r.2.mutex) :: trylocks S prio ids r.2.mutex

/-- A call is refused, and leaves no thread's id in the lock word. -/
def Refused (r : Outcome × MutexData) : Prop :=
  r.1 = .ret eNOTRECOVERABLE ∧ r.2.lock &&& futexTidMask = 0

/-- The kernel's part in the death of the owner: it marks the word. -/
def ownerDies (id : ℕ) (m : MutexData) : MutexData :=
  if m.lock &&& futexTidMask = id then
    { m with lock := m.lock &&& futexWaiters ||| futexOwnerDied }
  else m

/-! ### The next call -/

/-- **The next trylock** takes the word.  After an owner's death it goes on with the mutex as
    inconsistent; a free word it takes, finds the mutex not recoverable, and keeps. -/
theorem trylock_notRecoverable {S : Sys} {κ : BasicKind} {id : ℕ} {s : State}
    (h : NotRecoverable κ s.mutex) (hid : 0 < id) :
    (doMutexTrylock S id s).1 = .ret eOWNERDEAD ∨
      (doMutexTrylock S id s).1 = .ret eBUSY ∨
      (doMutexTrylock S id s).1 = .ret eNOTRECOVERABLE ∧ (doMutexTrylock S id s).2.mutex.lock = id := by
  have hne : ¬ 0 = id := hid.ne
  rw [doMutexTrylock_protocol h.kind]
  simp only [trylockRobust, h.tid, hne, false_and, if_false, h.owner]
  split
  · exact .inl rfl
  · split
    · exact .inr (.inl rfl)
    · rename_i hfree
      refine .inr (.inr ⟨rfl, ?_⟩)
      -- the compare-and-exchange returned 0, not the thread id
      rw [not_not.mp hfree]
      exact if_neg hne

/-- **No call is refused as it should be.**  In a sequence of trylock calls on a mutex that is not
    recoverable, all are refused and leave no id in the lock word only if there is none. -/
theorem stays_notRecoverable_iff (S : Sys) (prio : ℕ → Prio) (κ : BasicKind) (m : MutexData)
    (ids : List ℕ) (h : NotRecoverable κ m) (hids : ∀ id ∈ ids, 0 < id ∧ id ≤ futexTidMask) :
    (∀ r ∈ trylocks S prio ids m, Refused r) ↔ ids = [] := by
  cases ids with
  | nil => simp [trylocks]
  | cons id ids =>
    obtain ⟨hpos, hle⟩ := hids id (by simp)
    simp only [reduceCtorEq, iff_false]
    intro hall
    obtain ⟨hcode, htid⟩ := hall _ (List.mem_cons_self ..)
    simp only at hcode htid
    rcases trylock_notRecoverable (S := S) (s := ⟨m, prio id, []⟩) h hpos with h1 | h1 | ⟨-, hlock⟩
    · rw [hcode] at h1
      exact absurd h1 (by decide)
    · rw [hcode] at h1
      exact absurd h1 (by decide)
    · rw [hlock, and_futexTidMask_of_le hle] at htid
      omega

/-- A normal robust mutex that was given up. -/
def abandoned : MutexData :=
  { count := 1, owner := mutexNotrecoverable, kind := psharedBit ||| Protocol.robust.code .timed }

theorem stays_notRecoverable_iff_abandoned :
    ¬ ∀ r ∈ trylocks linuxSys (fun _ => {}) [7] abandoned, Refused r := fun hall =>
  List.cons_ne_nil 7 [] ((stays_notRecoverable_iff linuxSys (fun _ => {}) .timed abandoned [7]
    ⟨by decide, rfl, rfl⟩ (by decide)).mp hall)

/-- Thread 5 dies with the mutex, thread 6 gets it as inconsistent and gives it back; then threads
    7 and 8 try it. -/
theorem notRecoverable_kept :
    let fresh : State := ⟨(mutexInit (attrFlagRobust ||| BasicKind.timed.code) {}).2, {}, []⟩
    let locked := (doMutexTrylock linuxSys 5 fresh).2
    let dead := locked.set (ownerDies 5 locked.mutex)
    let inherited := doMutexTrylock linuxSys 6 dead
    let unlocked := pthreadMutexUnlock linuxSys 6 inherited.2
    inherited.1 = .ret eOWNERDEAD ∧ unlocked.1 = .ret 0 ∧
      unlocked.2.mutex.owner = mutexNotrecoverable ∧ unlocked.2.mutex.lock = 0 ∧
      (trylocks linuxSys (fun _ => {}) [7, 8] unlocked.2.mutex).map
          (fun r => (r.1, r.2.lock &&& futexTidMask)) =
        [(.ret eNOTRECOVERABLE, 7), (.ret eBUSY, 7)] := by
  decide

end SyncPerf.Calls
