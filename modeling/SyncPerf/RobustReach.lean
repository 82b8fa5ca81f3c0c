import SyncPerf.RobustKnows
import SyncPerf.RobustRing

namespace SyncPerf.RobustList

open Interleaving Calls Robust LinkedRing

/-!
# The kernel finds every robust mutex of a dead thread

At every moment a mutex that has the id of a living thread in its word is on the list of that
thread, or is the one that `list_op_pending` names.  The one exception is a mutex that is not
recoverable: a trylock that gives it up leaves its id in the word, off the list.

* `ListOk`, `ThreadOk.frame` — what holds of a living thread, and is not touched by others;
* `next_ok` — a thread's own steps;
* `Inv`, `Inv.step` — the invariant;
* `dead_mutexes_marked`, `list_between_calls` — what the kernel finds, and what is on a list.
-/

variable {ι M : Type}

/-! ### A thread and its list -/

/-- What a thread knows where it is, and what `list_op_pending` names. -/
def Stage.Knows (id : ι → ℕ) (i : ι) (L : List M) (pending : Option M) (f : M → MutexData) :
    Stage M → Prop
  | .outside => pending = none
  | .trylock m p =>
    p.Knows id i (m ∈ L) (f m) ∧ pending = if p.announced then some m else none
  | .unlock m p =>
    p.Knows id i (m ∈ L) (f m) ∧ pending = if p.announced then some m else none
  | _ => False

/-- The mutex that the thread is giving back. -/
def Stage.releases (m : M) : Stage M → Prop
  | .unlock m' p => m' = m ∧ p.releases = true
  | _ => False

/-- What holds of a living thread: its list, the mutexes as it sees them, the pointers, and where
    it is. -/
structure ListOk (id : ι → ℕ) (i : ι) (L : List M) (l : Local M) (s : Shared ι M) : Prop where
  nodup : L.Nodup
  view : ∀ m, View (id i) (m ∈ L) (l.pending = some m) (l.stage.releases m) (s.mutexes m)
  links : l.stage.LinksOk i L s.links
  point : l.stage.Knows id i L l.pending s.mutexes

/-- What holds of a thread, and its list while it lives: a mutex that still has the id of a dead
    one is not recoverable. -/
def ThreadOk (id : ι → ℕ) (i : ι) (L : List M) (l : Local M) (s : Shared ι M) : Prop :=
  match l.stage with
  | .dead => ∀ m, (s.mutexes m).lock = id i → (s.mutexes m).owner = mutexNotrecoverable
  | _ => ListOk id i L l s

/-- The mutexes that a thread enqueues or dequeues have its id. -/
theorem ListOk.nodes_lock {id : ι → ℕ} {i : ι} {L : List M} {l : Local M} {s : Shared ι M}
    (h : ListOk id i L l s) {n : Node ι M} (hn : l.stage.nodes i L n) :
    n = .head i ∨ ∃ m, n = .mutex m ∧ (s.mutexes m).lock = id i := by
  have hpoint := h.point
  rcases hn with rfl | hn | ⟨m, e, rest, hst, rfl⟩ | ⟨m, e, rest, hst, rfl⟩
  · exact .inl rfl
  · obtain ⟨m, hm, rfl⟩ := List.mem_map.mp hn
    exact .inr ⟨m, rfl, (h.view m).word hm⟩
  · rw [hst] at hpoint
    exact .inr ⟨m, rfl, hpoint.1.1⟩
  · rw [hst] at hpoint
    exact .inr ⟨m, rfl, hpoint.1.1⟩

/-! ### The others' steps -/

/-- What a step of another thread leaves of a mutex to the one with this id. -/
structure Kept (id : ℕ) (v v' : MutexData) : Prop where
  lock : v'.lock = id ↔ v.lock = id
  owner : v.lock = id → v'.owner = v.owner
  mine : v'.owner = id → v.owner = id

/-- A step of another thread keeps what this one knows of the word and the owner. -/
theorem Moves.kept {id : ι → ℕ} (hids : Ids id) {i j : ι} (hne : j ≠ i) {v v' : MutexData}
    (h : Moves (id i) v v') : Kept (id j) v v' := by
  have hdiff : id i ≠ id j := fun heq => hne (hids.inj heq).symm
  have hpos := hids.pos j
  have hdied := hids.ne_died j
  have hlock : v'.lock = id j ↔ v.lock = id j := by
    rcases h.lock with heq | ⟨hfree, heq⟩ | ⟨heq, hfree⟩
    · rw [heq]
    · rw [heq]
      refine iff_of_false hdiff ?_
      rcases hfree with hz | hd
      · rw [hz]
        exact hpos.ne
      · rw [hd]
        exact hdied.symm
    · rw [heq]
      refine iff_of_false ?_ hdiff
      rcases hfree with hz | hd
      · rw [hz]
        exact hpos.ne
      · rw [hd]
        exact hdied.symm
  refine ⟨hlock, fun hl => ?_, fun ho => ?_⟩
  · rcases h.owner with heq | ⟨heq, -⟩
    · exact heq
    · exact absurd (heq.symm.trans hl) hdiff
  · rcases h.owner with heq | ⟨-, heq | hnobody⟩
    · exact heq.symm.trans ho
    · exact absurd (heq.symm.trans ho) hdiff
    · exact absurd ho (hnobody.ne hids j)

section Kept

variable {id : ι → ℕ} {i : ι} {mem pend rel : Prop} {v v' : MutexData}

/-- What a thread has found out stays true. -/
theorem Found.kept (h : Found (id i) mem v) (hk : Kept (id i) v v') : Found (id i) mem v' := by
  intro hl
  have hl' := hk.lock.mp hl
  rw [hk.owner hl']
  exact h hl'

/-- What it sees of the mutex stays true. -/
theorem View.kept (h : View (id i) mem pend rel v) (hk : Kept (id i) v v') :
    View (id i) mem pend rel v' := by
  refine ⟨fun hmem => hk.lock.mpr (h.word hmem), fun hl => ?_, fun ho => ?_⟩
  · have hl' := hk.lock.mp hl
    rw [hk.owner hl']
    exact h.found hl'
  · rw [hk.lock]
    exact h.owner (hk.mine ho)

/-- What it knows in a trylock stays true. -/
theorem tryKnows_kept {p : Robust.TryPC} (h : TryKnows id i mem v p) (hk : Kept (id i) v v') :
    TryKnows id i mem v' p := by
  cases p with
  | word | cas => exact Found.kept h hk
  | test oldval | inherit oldval | giveUp oldval | giveUpWord oldval =>
    exact ⟨Found.kept h.1 hk, h.2⟩
  | inheritCount | inheritOwner | owner | nusers | nusersStore w | count =>
    exact ⟨hk.lock.mpr h.1, h.2⟩
  | recoverable oldval =>
    rcases h with ⟨hz, hl, hmem⟩ | ⟨hd, hfound⟩
    · exact .inl ⟨hz, hk.lock.mpr hl, hmem⟩
    · exact .inr ⟨hd, hfound.kept hk⟩
  | bump | bumpLoad | bumpStore w => trivial
  | _ => exact h.elim

/-- What it knows in an unlock stays true. -/
theorem unlockKnows_kept {p : UnlockPC} (h : UnlockKnows id i mem v p) (hk : Kept (id i) v v') :
    UnlockKnows id i mem v' p := by
  have hlate : v.lock = id i ∧ ¬ mem ∧ v.owner ≠ id i → v'.lock = id i ∧ ¬ mem ∧ v'.owner ≠ id i :=
    fun ⟨hl, hmem, hne⟩ => ⟨hk.lock.mpr hl, hmem, fun ho => hne (hk.mine ho)⟩
  cases p with
  | recTid | tid => exact fun hl => h (hk.lock.mp hl)
  | recInconsistent | lost | lostStore w | locked | inconsistent => exact ⟨hk.lock.mpr h.1, h.2⟩
  | recOwner pp =>
    cases pp with
    | true => exact h.elim
    | false => trivial
  | recCount pp | recCountStore pp w | owner pp w =>
    cases pp with
    | true => exact h.elim
    | false => exact ⟨hk.lock.mpr h.1, h.2⟩
  | nusers pp | nusersStore pp w =>
    cases pp with
    | true => exact h.elim
    | false => exact hlate h
  | word => exact hlate h
  | _ => exact h.elim

/-- The same with the operations on its list. -/
theorem TryPoint.Knows.kept {p : TryPoint} (h : p.Knows id i mem v) (hk : Kept (id i) v v') :
    p.Knows id i mem v' := by
  cases p with
  | pending => trivial
  | run p => exact tryKnows_kept h hk
  | enqueue e rest => exact ⟨hk.lock.mpr h.1, h.2⟩
  | clear rest =>
    refine ⟨h.1.kept hk, ?_⟩
    rcases h.2 with hb | ⟨ho, hl, hmem⟩ | hd
    · exact .inl hb
    · exact .inr (.inl ⟨ho, hk.lock.mpr hl, hmem⟩)
    · exact .inr (.inr hd)

/-- The same with the operations on its list. -/
theorem UnlockPoint.Knows.kept {p : UnlockPoint} (h : p.Knows id i mem v) (hk : Kept (id i) v v') :
    p.Knows id i mem v' := by
  cases p with
  | run p => exact unlockKnows_kept h hk
  | pending rest | dequeue e rest => exact ⟨hk.lock.mpr h.1, h.2⟩
  | clear o => exact ⟨fun hl => h.1 (hk.lock.mp hl), h.2⟩

end Kept

/-- **The others' steps.**  What holds of a thread is not touched by a step of another one that
    leaves it its mutexes and its pointers. -/
theorem ThreadOk.frame {id : ι → ℕ} {i : ι} {L : List M} {l : Local M} {s s' : Shared ι M}
    (h : ThreadOk id i L l s) (hk : ∀ m, Kept (id i) (s.mutexes m) (s'.mutexes m))
    (hhead : SameAt s.links s'.links (.head i))
    (hmutex : ∀ m, (s.mutexes m).lock = id i → SameAt s.links s'.links (.mutex m)) :
    ThreadOk id i L l s' := by
  unfold ThreadOk at h ⊢
  split at h
  next =>
    intro m hl
    have hl' := (hk m).lock.mp hl
    rw [(hk m).owner hl']
    exact h m hl'
  next =>
    refine ⟨h.nodup, fun m => (h.view m).kept (hk m), h.links.congr fun n hn => ?_, ?_⟩
    · rcases h.nodes_lock hn with rfl | ⟨m, rfl, hl⟩
      · exact hhead
      · exact hmutex m hl
    · have hpoint := h.point
      cases hst : l.stage with
      | trylock m p =>
        rw [hst] at hpoint
        exact ⟨hpoint.1.kept (hk m), hpoint.2⟩
      | unlock m p =>
        rw [hst] at hpoint
        exact ⟨hpoint.1.kept (hk m), hpoint.2⟩
      | _ =>
        rw [hst] at hpoint
        exact hpoint

/-! ### A thread's own step -/

section View

variable {id : ℕ} {mem mem' pend pend' rel rel' : Prop} {v : MutexData}

/-- The view of a thread that announces or releases the mutex as well. -/
theorem View.mono (h : View id mem pend rel v) (hmem : mem ↔ mem') (hpend : pend → pend')
    (hrel : rel → rel') : View id mem' pend' rel' v :=
  ⟨fun hm => h.word (hmem.mpr hm), fun hl => (h.found hl).imp hmem.mp (Or.imp_left hpend),
    fun ho => ⟨(h.owner ho).1, (h.owner ho).2.imp hmem.mp hrel⟩⟩

/-- What is neither on the list nor pending is not recoverable. -/
theorem View.unannounced (h : View id mem pend rel v) (hpend : ¬ pend) : Found id mem v :=
  fun hl => (h.found hl).imp_right fun h' => h'.resolve_left hpend

end View

/-- A step of a thread is good: what holds of the thread is kept, with another list maybe, and the
    mutexes and the pointers of the others are left alone. -/
structure Good (id : ι → ℕ) (i : ι) (s : Shared ι M) (l' : Local M) (s' : Shared ι M) : Prop where
  ok : ∃ L, ThreadOk id i L l' s'
  moves : ∀ m, Moves (id i) (s.mutexes m) (s'.mutexes m)
  links : ∀ n, n ≠ .head i → (∀ m, n = .mutex m → (s.mutexes m).lock ≠ id i) →
    SameAt s.links s'.links n

section Own

variable {id : ι → ℕ} {i : ι} {L : List M} {l l' : Local M} {s : Shared ι M} {m : M}

/-- What holds of a living thread holds of it. -/
theorem ListOk.threadOk (h : ListOk id i L l s) : ThreadOk id i L l s := by
  unfold ThreadOk
  have hpoint := h.point
  split
  next hst =>
    rw [hst] at hpoint
    exact hpoint.elim
  next => exact h

/-- A step that stores nothing. -/
theorem Good.read (h : ListOk id i L l' s) : Good id i s l' s :=
  ⟨⟨L, h.threadOk⟩, fun _ => (Quiet.refl _).moves, fun _ _ _ => ⟨rfl, rfl⟩⟩

/-- A step that stores to a mutex. -/
theorem Good.store [DecidableEq M] {v' : MutexData} (h : ListOk id i L l s)
    (hmoves : Moves (id i) (s.mutexes m) v') (hpend : l'.pending = l.pending)
    (hview : View (id i) (m ∈ L) (l.pending = some m) (l'.stage.releases m) v')
    (hrel : ∀ m', m' ≠ m → ¬ l.stage.releases m') (hlinks : l'.stage.LinksOk i L s.links)
    (hpoint : l'.stage.Knows id i L l.pending (Function.update s.mutexes m v')) :
    Good id i s l' (s.setMutex m v') := by
  refine ⟨⟨L, ListOk.threadOk ⟨h.nodup, fun m' => ?_, hlinks, ?_⟩⟩, fun m' => ?_,
    fun n _ _ => ⟨rfl, rfl⟩⟩
  · rw [hpend]
    by_cases hm : m' = m
    · subst hm
      simpa only [Shared.setMutex, Function.update_self] using hview
    · simp only [Shared.setMutex, Function.update_of_ne hm]
      exact (h.view m').mono Iff.rfl (fun hp => hp) fun hr => absurd hr (hrel m' hm)
  · rw [hpend]
    exact hpoint
  · by_cases hm : m' = m
    · subst hm
      simpa only [Shared.setMutex, Function.update_self] using hmoves
    · simp only [Shared.setMutex, Function.update_of_ne hm]
      exact (Quiet.refl _).moves

/-- A step that stores to pointers of the thread. -/
theorem Good.link (L' : List M) {links : Links ι M} (h : ListOk id i L l s)
    (hbeside : Beside i m L s.links links) (hlock : (s.mutexes m).lock = id i)
    (hok : ListOk id i L' l' { s with links := links }) :
    Good id i s l' { s with links := links } := by
  refine ⟨⟨L', hok.threadOk⟩, fun _ => (Quiet.refl _).moves, fun n hhead hother => ?_⟩
  refine hbeside n hhead (fun hn => hother m hn hlock) fun hn => ?_
  obtain ⟨m', hm', rfl⟩ := List.mem_map.mp hn
  exact hother m' rfl ((h.view m').word hm')

/-- A trylock goes on at a step on the mutex, at the clearing of `list_op_pending`, or at the first
    store of an enqueue. -/
theorem afterTry_links {p : Robust.TryPC} {n : Next Robust.TryPC} {q : TryPoint}
    (hq : afterTry p n = .inl q) {links : Links ι M} (h : Ring i L links) : (Stage.trylock m q).LinksOk i L links := by
  cases n with
  | goto p' => cases p' <;> (cases hq; exact h)
  | done o => cases p <;> cases hq <;> exact h

/-- The list of a thread that goes on in an unlock. -/
theorem afterUnlock_links {p : UnlockPC} {n : Next UnlockPC} {q : UnlockPoint}
    (hq : afterUnlock p n = .inl q) {links : Links ι M} (h : Ring i L links) :
    (Stage.unlock m q).LinksOk i L links := by
  cases n with
  | goto p' => cases p' <;> (cases hq; exact h)
  | done o =>
    cases p <;> cases hq
    exact h

end Own

section Calls

variable {id : ι → ℕ} {i : ι} {L : List M} {prio : Prio} {pending : Option M} {s : Shared ι M}
  {m : M}

/-- A trylock is called. -/
theorem trylock_call (h : ListOk id i L ⟨.outside, prio, pending⟩ s) :
    ListOk id i L ⟨.trylock m .pending, prio, pending⟩ s :=
  ⟨h.nodup, h.view, h.links, trivial, h.point⟩

/-- An unlock is called, for a mutex that is recoverable. -/
theorem unlock_call (h : ListOk id i L ⟨.outside, prio, pending⟩ s)
    (hrec : (s.mutexes m).owner ≠ mutexNotrecoverable) {p : UnlockPC}
    (hp : p = .recTid ∨ p = .tid) : ListOk id i L ⟨.unlock m (.run p), prio, pending⟩ s := by
  have hnone : pending = none := h.point
  have hmem : (s.mutexes m).lock = id i → m ∈ L := by
    intro hl
    have hfound := (h.view m).unannounced (by simp [hnone]) hl
    exact hfound.resolve_right hrec
  refine ⟨h.nodup, fun m' => (h.view m').mono Iff.rfl (fun hp => hp) False.elim, h.links, ?_⟩
  rcases hp with rfl | rfl
  · exact ⟨hmem, hnone⟩
  · exact ⟨hmem, hnone⟩

/-- `list_op_pending` is set. -/
theorem trylock_pending (h : ListOk id i L ⟨.trylock m .pending, prio, pending⟩ s) :
    ListOk id i L ⟨.trylock m (.run .word), prio, some m⟩ s := by
  have hnone : pending = none := h.point.2
  refine ⟨h.nodup, fun m' => (h.view m').mono Iff.rfl (fun hp => ?_) False.elim, h.links, ?_, rfl⟩
  · exact absurd hp (by simp [hnone])
  · exact (h.view m).unannounced (by simp [hnone])

/-- `list_op_pending` is cleared at the end of a trylock, or in front of its rest. -/
theorem trylock_clear {rest : Next Robust.TryPC}
    (h : ListOk id i L ⟨.trylock m (.clear rest), prio, pending⟩ s) :
    ListOk id i L ((⟨.trylock m (.clear rest), prio, none⟩ : Local M).atTry m (restTry rest))
      s := by
  obtain ⟨⟨hfound, hrest⟩, hpending⟩ := h.point
  have hpending : pending = some m := hpending
  have hview : ∀ m', View (id i) (m' ∈ L) ((none : Option M) = some m') False (s.mutexes m') := by
    intro m'
    obtain ⟨hword, hf, ho⟩ := h.view m'
    refine ⟨hword, fun hl => ?_, ho⟩
    rcases hf hl with hmem | hp | hnot
    · exact .inl hmem
    · obtain rfl : m = m' := Option.some.inj (hpending.symm.trans hp)
      exact (hfound hl).imp_right .inr
    · exact .inr (.inr hnot)
  rcases hrest with rfl | ⟨rfl, hl, hmem⟩ | ⟨code, rfl⟩
  · exact ⟨h.nodup, hview, h.links, trivial, rfl⟩
  · exact ⟨h.nodup, hview, h.links, ⟨hl, hmem⟩, rfl⟩
  · exact ⟨h.nodup, hview, h.links, rfl⟩

/-- A step of a trylock on the mutex. -/
theorem trylock_run [DecidableEq M] (hids : Ids id) (S : Sys) {p : Robust.TryPC}
    (h : ListOk id i L ⟨.trylock m (.run p), prio, pending⟩ s)
    (hw : WordOk id (s.mutexes m).lock) :
    Good id i s ((⟨.trylock m (.run p), prio, pending⟩ : Local M).atTry m
        (afterTry p (trylockStep S (id i) p (s.mutexes m)).1))
      (s.setMutex m (trylockStep S (id i) p (s.mutexes m)).2) := by
  obtain ⟨hknows, hpending⟩ := h.point
  dsimp only at hpending
  have hpend : pending = some m ↔ tryLate p = false := by
    rw [hpending]
    cases hlate : tryLate p <;> simp [TryPoint.announced, hlate]
  have hstep := trylockStep_ok hids S hknows ((h.view m).mono Iff.rfl hpend.mp fun hr => hr) hw
  have hview := hstep.view.mono Iff.rfl hpend.mpr fun hr => hr
  have hpoint := hstep.point
  split at hpoint
  next q hq =>
    rw [hq]
    refine Good.store h hstep.moves rfl hview (fun _ _ hr => hr) (afterTry_links hq h.links) ?_
    refine ⟨?_, ?_⟩
    · rw [Function.update_self]
      exact hpoint.1
    · rw [hpoint.2]
      exact hpending
  next o hq =>
    obtain ⟨hlate, code, rfl⟩ := hpoint
    rw [hq]
    refine Good.store h hstep.moves rfl hview (fun _ _ hr => hr) h.links ?_
    show pending = none
    rw [hpending]
    simp [TryPoint.announced, hlate]

/-- A step of an unlock on the mutex. -/
theorem unlock_run [DecidableEq M] (hids : Ids id) (S : Sys) {p : UnlockPC}
    (h : ListOk id i L ⟨.unlock m (.run p), prio, pending⟩ s)
    (hw : WordOk id (s.mutexes m).lock) :
    Good id i s
      ((⟨.unlock m (.run p), (unlockStep S (id i) p prio (s.mutexes m)).2.1, pending⟩ :
        Local M).atUnlock m (afterUnlock p (unlockStep S (id i) p prio (s.mutexes m)).1))
      (s.setMutex m (unlockStep S (id i) p prio (s.mutexes m)).2.2) := by
  obtain ⟨hknows, hpending⟩ := h.point
  dsimp only at hpending
  have hpend : pending = some m ↔ unlockLate p = true := by
    rw [hpending]
    cases hlate : unlockLate p <;> simp [UnlockPoint.announced, hlate]
  obtain ⟨hmoves, hgood⟩ := unlockStep_ok hids S prio hknows
    ((h.view m).mono Iff.rfl hpend.mp fun hr => hr.2) hw
  have hother : ∀ m', m' ≠ m → ¬ (Stage.unlock m (.run p)).releases m' :=
    fun m' hm hr => hm hr.1.symm
  unfold UnlockGood at hgood
  split at hgood
  next q hq =>
    rw [hq]
    refine Good.store h hmoves rfl (hgood.2.2.mono Iff.rfl hpend.mpr fun hr => ⟨rfl, hr⟩) hother
      (afterUnlock_links hq h.links) ⟨?_, ?_⟩
    · rw [Function.update_self]
      exact hgood.1
    · rw [hgood.2.1]
      exact hpending
  next o hq =>
    obtain ⟨hlate, ⟨code, rfl⟩, hview⟩ := hgood
    rw [hq]
    refine Good.store h hmoves rfl (hview.mono Iff.rfl hpend.mpr fun hr => hr) hother h.links ?_
    show pending = none
    rw [hpending]
    simp [UnlockPoint.announced, hlate]

/-- `list_op_pending` is set for a mutex that is on the list. -/
theorem unlock_pending {rest : UnlockPC}
    (h : ListOk id i L ⟨.unlock m (.pending rest), prio, pending⟩ s) :
    ListOk id i L ⟨.unlock m (.dequeue .nextPrev rest), prio, some m⟩ s := by
  obtain ⟨⟨hl, hmem, hrest⟩, hpending⟩ := h.point
  have hnone : pending = none := hpending
  refine ⟨h.nodup, fun m' => (h.view m').mono Iff.rfl (fun hp => ?_) fun hr => ⟨hr.1, rfl⟩,
    ⟨h.links, hmem⟩, ⟨hl, hrest⟩, rfl⟩
  exact absurd hp (by simp [hnone])

/-- `list_op_pending` is cleared at the end of an unlock. -/
theorem unlock_clear {o : Outcome} (h : ListOk id i L ⟨.unlock m (.clear o), prio, pending⟩ s) :
    ListOk id i L ((⟨.unlock m (.clear o), prio, none⟩ : Local M).atUnlock m (.inr o)) s := by
  obtain ⟨⟨hl, code, rfl⟩, hpending⟩ := h.point
  have hpending : pending = some m := hpending
  refine ⟨h.nodup, fun m' => ?_, h.links, rfl⟩
  obtain ⟨hword, hf, ho⟩ := h.view m'
  refine ⟨hword, fun hl' => ?_, fun hown => ⟨(ho hown).1, (ho hown).2.imp_right fun hr => ?_⟩⟩
  · rcases hf hl' with hmem | hp | hnot
    · exact .inl hmem
    · obtain rfl : m = m' := Option.some.inj (hpending.symm.trans hp)
      exact absurd hl' hl
    · exact .inr (.inr hnot)
  · exact absurd hr.2 (by simp [UnlockPoint.releases])

variable [DecidableEq ι] [DecidableEq M]

/-- A store of an enqueue: nothing is null, and the last one puts the mutex on the list. -/
theorem trylock_enqueue {e : EnqueuePC} {rest : Next Robust.TryPC}
    (h : ListOk id i L ⟨.trylock m (.enqueue e rest), prio, pending⟩ s) :
    ∃ links, enqueueStep i m false e s.links = some links ∧
      Good id i s
        (match e.succ with
          | some e' => ⟨.trylock m (.enqueue e' rest), prio, pending⟩
          | none => ⟨.trylock m (.clear rest), prio, pending⟩)
        { s with links := links } := by
  obtain ⟨⟨hl, hmem, hrest⟩, hpending⟩ := h.point
  obtain ⟨links, hstep, hbeside, hlinks⟩ := enqueueStep_ok h.links h.nodup hmem
  refine ⟨links, hstep, ?_⟩
  cases he : e.succ with
  | some e' =>
    rw [he] at hlinks
    exact Good.link L h hbeside hl ⟨h.nodup, h.view, hlinks, ⟨hl, hmem, hrest⟩, hpending⟩
  | none =>
    rw [he] at hlinks
    have hnow : m ∈ m :: L := List.mem_cons_self
    refine Good.link (m :: L) h hbeside hl ⟨List.nodup_cons.mpr ⟨hmem, h.nodup⟩, fun m' => ?_,
      hlinks, ⟨fun _ => .inl hnow, ?_⟩, hpending⟩
    · by_cases hm : m' = m
      · subst hm
        exact ⟨fun _ => hl, fun _ => .inl hnow, fun ho => ⟨hl, .inl hnow⟩⟩
      · exact (h.view m').mono (by simp [hm]) (fun hp => hp) fun hr => hr
    · rcases hrest with rfl | hdone
      · exact .inr (.inl ⟨rfl, hl, hnow⟩)
      · exact .inr (.inr hdone)

/-- A store of a dequeue: nothing is null, and the second one takes the mutex off the list. -/
theorem unlock_dequeue {e : DequeuePC} {rest : UnlockPC}
    (h : ListOk id i L ⟨.unlock m (.dequeue e rest), prio, pending⟩ s) :
    ∃ links, dequeueStep m e s.links = some links ∧
      Good id i s
        (match e.succ with
          | some e' => ⟨.unlock m (.dequeue e' rest), prio, pending⟩
          | none => ⟨.unlock m (.run rest), prio, pending⟩)
        { s with links := links } := by
  obtain ⟨⟨hl, w, rfl, hw⟩, hpending⟩ := h.point
  obtain ⟨links, hstep, hbeside, hlinks⟩ := dequeueStep_ok h.links h.nodup
  refine ⟨links, hstep, ?_⟩
  have hpend : pending = some m := hpending
  -- on the list or off it, the mutex is named and is being given back
  have hview : ∀ {L' : List M} {rel : M → Prop}, rel m → (∀ m', m' ≠ m → (m' ∈ L' ↔ m' ∈ L)) →
      ∀ m', View (id i) (m' ∈ L') (pending = some m') (rel m') (s.mutexes m') := by
    intro L' rel hrel hL' m'
    by_cases hm : m' = m
    · subst hm
      exact ⟨fun _ => hl, fun _ => .inr (.inl hpend), fun _ => ⟨hl, .inr hrel⟩⟩
    · exact (h.view m').mono (hL' m' hm).symm (fun hp => hp) fun hr => absurd hr.1.symm hm
  cases he : e.succ with
  | some e' =>
    rw [he] at hlinks
    have hmem : ∀ m', m' ≠ m → (m' ∈ e.listAfter m L ↔ m' ∈ L) := by
      intro m' hm
      cases e with
      | prevNext => exact List.mem_erase_of_ne hm
      | _ => exact Iff.rfl
    have hnodup : (e.listAfter m L).Nodup := by
      cases e with
      | prevNext => exact h.nodup.erase m
      | _ => exact h.nodup
    exact Good.link (e.listAfter m L) h hbeside hl
      ⟨hnodup, hview ⟨rfl, rfl⟩ hmem, hlinks, ⟨hl, w, rfl, hw⟩, hpending⟩
  | none =>
    rw [he] at hlinks
    have hgone : m ∉ L := by
      have hlast := h.links
      cases e with
      | next => exact hlast.2
      | _ => cases he
    exact Good.link L h hbeside hl
      ⟨h.nodup, hview ⟨rfl, rfl⟩ fun _ _ => Iff.rfl, hlinks, ⟨hl, hgone, hw⟩, hpending⟩

end Calls

/-! ### A death -/

section Death

variable [DecidableEq ι] [DecidableEq M] {id : ι → ℕ} {i : ι} {L : List M} {s : Links ι M}

/-- The kernel reads the list off the forward pointers, whatever the thread was about to store. -/
theorem found_eq [Fintype M] {limit : ℕ} (hlimit : Fintype.card M < limit)
    (h : NextSeg s.nextNode (.head i) (L.map .mutex) (.head i)) (hL : L.Nodup)
    (pending : Option M) : found limit i pending s = L ++ pending.toList := by
  have hlen : (L.map (.mutex : M → Node ι M)).length < limit := by
    rw [List.length_map]
    exact lt_of_le_of_lt hL.length_le_card hlimit
  have hfollow := follow_eq h (by simp) hlen
  unfold found
  rw [show (fun n => (s.next n).map Link.node) = s.nextNode from rfl, hfollow, List.filterMap_map]
  congr 1
  exact List.filterMap_some

/-- What the kernel finds is the list and the pending mutex, if its limit is not reached. -/
theorem mem_found [Fintype M] {limit : ℕ} (hlimit : Fintype.card M < limit) {l : Local M}
    {s : Shared ι M} (h : ListOk id i L l s) (m : M) :
    m ∈ found limit i l.pending s.links ↔ m ∈ L ∨ l.pending = some m := by
  rw [found_eq hlimit h.links.forward h.nodup, List.mem_append, Option.mem_toList]

omit [DecidableEq ι] [DecidableEq M] in
/-- The kernel marks a word that has the id. -/
theorem handleDeath_eq (hids : Ids id) {v : MutexData} (hw : WordOk id v.lock) :
    handleDeath (id i) v = if v.lock = id i then { v with lock := futexOwnerDied } else v := by
  have hbits : id i &&& futexWaiters = 0 := by
    have hmask : futexTidMask &&& futexWaiters = 0 := by decide
    rw [← and_futexTidMask_of_le (hids.le i), Nat.and_assoc, hmask, Nat.and_zero]
  unfold handleDeath
  simp only [hw.tid_eq hids]
  split
  next heq => rw [heq, hbits, Nat.zero_or]
  next => rfl

/-- **A death.**  The mutexes that the thread had are marked, but for those that are not
    recoverable. -/
theorem exitRobustList_ok [Fintype M] {limit : ℕ} (hlimit : Fintype.card M < limit)
    (hids : Ids id) {l : Local M} {s : Shared ι M} (h : ListOk id i L l s)
    (hw : ∀ m, WordOk id (s.mutexes m).lock) :
    Good id i s { l with stage := .dead } (exitRobustList limit (id i) i l.pending s) := by
  have hne : futexOwnerDied ≠ id i := (hids.ne_died i).symm
  refine ⟨⟨[], fun m hl => ?_⟩, fun m => ?_, fun n _ _ => ⟨rfl, rfl⟩⟩
  · simp only [exitRobustList, handleDeath_eq hids (hw m)] at hl ⊢
    by_cases hfound : m ∈ found limit i l.pending s.links
    · rw [if_pos hfound] at hl
      split at hl
      next => exact absurd hl hne
      next hlock => exact absurd hl hlock
    · rw [if_neg hfound] at hl ⊢
      rw [mem_found hlimit h, not_or] at hfound
      exact (((h.view m).found hl).resolve_left hfound.1).resolve_left hfound.2
  · simp only [exitRobustList, handleDeath_eq hids (hw m)]
    split
    next =>
      split
      next hlock => exact ⟨rfl, .inr (.inr ⟨hlock, .inr rfl⟩), .inl rfl⟩
      next => exact (Quiet.refl _).moves
    next => exact (Quiet.refl _).moves

end Death

/-! ### The invariant -/

/-- A robust mutex of a basic kind is unlocked at `__pthread_mutex_unlock_full`'s own tests. -/
theorem unlockSwitch_robust (κ : BasicKind) {p : UnlockPC}
    (h : unlockSwitch (Protocol.robust.code κ ||| psharedBit) = some (.goto p)) :
    p = .recTid ∨ p = .tid := by
  cases κ <;> cases h <;> first | exact .inl rfl | exact .inr rfl

/-- The kind that `pthread_mutex_init` stores for a robust attribute. -/
theorem mutexInit_robust_code (κ : BasicKind) (v : MutexData) :
    mutexInit (attrFlagRobust ||| κ.code) v =
      (0, { kind := Protocol.robust.code κ ||| psharedBit }) := by
  cases κ <;> rfl

/-- No step unlocks a mutex that is not recoverable. -/
def Recoverable (x : Event ι (Action M) (Local M) (Shared ι M)) : Prop :=
  ∀ m, x.act = .unlock m → (x.pre.sh.mutexes m).owner ≠ mutexNotrecoverable

/-- What holds of all threads and all mutexes. -/
structure Inv (id : ι → ℕ) (c : Config ι (Local M) (Shared ι M)) : Prop where
  word : ∀ m, WordOk id (c.sh.mutexes m).lock
  kind : ∀ m, ∃ κ : BasicKind, (c.sh.mutexes m).kind = Protocol.robust.code κ ||| psharedBit
  threads : ∀ i, ∃ L, ThreadOk id i L (c.loc i) c.sh

/-- The threads outside of the calls with empty lists, and the mutexes as `pthread_mutex_init`
    leaves them for a robust attribute. -/
structure Fresh (c : Config ι (Local M) (Shared ι M)) : Prop where
  threads : ∀ i, (c.loc i).stage = .outside ∧ (c.loc i).pending = none
  lists : ∀ i, Ring i [] c.sh.links
  mutexes : ∀ m, ∃ κ : BasicKind,
    c.sh.mutexes m = (mutexInit (attrFlagRobust ||| κ.code) {}).2

section Inv

variable {id : ι → ℕ} {c d : Config ι (Local M) (Shared ι M)}

/-- The invariant holds at first. -/
theorem Inv.initial (hids : Ids id) (h : Fresh c) : Inv id c := by
  have hmutex : ∀ m, ∃ κ : BasicKind, c.sh.mutexes m =
      { kind := Protocol.robust.code κ ||| psharedBit } := by
    intro m
    obtain ⟨κ, hκ⟩ := h.mutexes m
    exact ⟨κ, hκ.trans (congrArg Prod.snd (mutexInit_robust_code κ {}))⟩
  refine ⟨fun m => ?_, fun m => ?_, fun i => ⟨[], ?_⟩⟩
  · obtain ⟨κ, hκ⟩ := hmutex m
    exact .inl (congrArg MutexData.lock hκ)
  · obtain ⟨κ, hκ⟩ := hmutex m
    exact ⟨κ, congrArg MutexData.kind hκ⟩
  · obtain ⟨hst, hpending⟩ := h.threads i
    refine ListOk.threadOk ⟨List.nodup_nil, fun m => ?_, ?_, ?_⟩
    · obtain ⟨κ, hκ⟩ := hmutex m
      rw [hκ]
      exact ⟨fun hm => absurd hm List.not_mem_nil, fun hl => absurd hl (hids.pos i).ne,
        fun ho => absurd ho (hids.pos i).ne⟩
    · rw [hst]
      exact h.lists i
    · rw [hst]
      exact hpending

/-- The word stays that of a thread, or nobody's. -/
theorem Moves.word {i : ι} {v v' : MutexData} (h : Moves (id i) v v')
    (hw : WordOk id v.lock) : WordOk id v'.lock := by
  rcases h.lock with heq | ⟨-, heq⟩ | ⟨-, heq | heq⟩
  · rwa [heq]
  · exact .inr (.inr ⟨i, heq⟩)
  · exact .inl heq
  · exact .inr (.inl heq)

variable [DecidableEq ι] [DecidableEq M] [Fintype M]

/-- **Own steps.**  A living thread's next step is good. -/
theorem next_ok {limit : ℕ} (hlimit : Fintype.card M < limit) (hids : Ids id) (hI : Inv id c)
    {i : ι} {a : Action M} (hrec : Recoverable ⟨c, i, a⟩) {L : List M}
    (h : ListOk id i L (c.loc i) c.sh) {l' : Local M} {s' : Shared ι M}
    (hnext : next limit id i a (c.loc i) c.sh = some (l', s')) : Good id i c.sh l' s' := by
  obtain ⟨hword, hkind, -⟩ := hI
  revert h hnext
  generalize hl : c.loc i = l
  obtain ⟨stage, prio, pending⟩ := l
  intro h hnext
  cases a with
  | trylock m =>
    cases stage with
    | outside =>
      simp only [next] at hnext
      split at hnext
      next =>
        cases hnext
        exact .read (trylock_call h)
      next => cases hnext
    | _ => cases hnext
  | unlock m =>
    cases stage with
    | outside =>
      simp only [next] at hnext
      split at hnext
      next p hp =>
        cases hnext
        obtain ⟨κ, hκ⟩ := hkind m
        rw [hκ] at hp
        exact .read (unlock_call h (hrec m rfl) (unlockSwitch_robust κ hp))
      next => cases hnext
    | _ => cases hnext
  | die =>
    cases stage with
    | dead => exact h.point.elim
    | _ =>
      cases hnext
      exact exitRobustList_ok hlimit hids h hword
  | run S =>
    cases stage with
    | trylock m p =>
      cases p with
      | pending =>
        cases hnext
        exact .read (trylock_pending h)
      | run p =>
        cases hnext
        exact trylock_run hids S h (hword m)
      | enqueue e rest =>
        obtain ⟨links, hstep, hgood⟩ := trylock_enqueue h
        simp only [next, hstep] at hnext
        cases hnext
        exact hgood
      | clear rest =>
        cases hnext
        exact .read (trylock_clear h)
    | unlock m p =>
      cases p with
      | run p =>
        cases hnext
        exact unlock_run hids S h (hword m)
      | pending rest =>
        cases hnext
        exact .read (unlock_pending h)
      | dequeue e rest =>
        obtain ⟨links, hstep, hgood⟩ := unlock_dequeue h
        simp only [next, hstep] at hnext
        cases hnext
        exact hgood
      | clear o =>
        cases hnext
        exact .read (unlock_clear h)
    | _ => cases hnext

/-- **Step lemma.** -/
theorem Inv.step {limit : ℕ} (hlimit : Fintype.card M < limit) (hids : Ids id) {i : ι}
    {a : Action M} (hI : Inv id c) (hrec : Recoverable ⟨c, i, a⟩)
    (hstep : (system limit id).step c i a = some d) : Inv id d := by
  obtain ⟨l, s, hnext, rfl⟩ := System.step_eq_some.mp hstep
  obtain ⟨L, hL⟩ := hI.threads i
  have hlist : ListOk id i L (c.loc i) c.sh := by
    unfold ThreadOk at hL
    split at hL
    next hst =>
      -- a dead thread takes no step
      have hnone : next limit id i a (c.loc i) c.sh = none := by
        unfold next
        cases a <;> rw [hst]
      exact absurd (hnone.symm.trans hnext) (by simp)
    next => exact hL
  have hgood := next_ok hlimit hids hI hrec hlist hnext
  refine ⟨fun m => (hgood.moves m).word (hI.word m), fun m => ?_, ?_⟩
  · obtain ⟨κ, hκ⟩ := hI.kind m
    exact ⟨κ, (hgood.moves m).kind.trans hκ⟩
  · refine forall_update (P := fun j l => ∃ L, ThreadOk id j L l s) hgood.ok fun j hj => ?_
    obtain ⟨L', hL'⟩ := hI.threads j
    refine ⟨L', hL'.frame (fun m => (hgood.moves m).kept hids hj) ?_ fun m hl => ?_⟩
    · refine hgood.links _ (fun heq => hj ?_) fun m heq => ?_
      · injection heq
      · cases heq
    · refine hgood.links _ (fun heq => by cases heq) fun m' heq => ?_
      obtain rfl : m = m' := by injection heq
      exact fun hl' => hj (hids.inj (hl.symm.trans hl'))

/-- The invariant holds after every run. -/
theorem run_inv {limit : ℕ} (hlimit : Fintype.card M < limit) (hids : Ids id) (hfresh : Fresh c)
    {tr : List (Event ι (Action M) (Local M) (Shared ι M))} (hrun : Run (system limit id) c tr d)
    (hrec : ∀ x ∈ tr, Recoverable x) : Inv id d :=
  hrun.invariant_of hrec (.initial hids hfresh) fun _ _ _ _ hI hG hs => hI.step hlimit hids hG hs

/-! ### What the kernel finds -/

/-- A mutex with the id of a thread is found for that thread, which lives. -/
theorem Inv.found {limit : ℕ} (hlimit : Fintype.card M < limit) (hids : Ids id) (hI : Inv id c)
    {i : ι} {m : M} (hl : (c.sh.mutexes m).lock &&& futexTidMask = id i)
    (hrec : (c.sh.mutexes m).owner ≠ mutexNotrecoverable) :
    (c.loc i).stage ≠ .dead ∧ m ∈ found limit i (c.loc i).pending c.sh.links := by
  have hl' := ((hI.word m).tid_eq hids).mp hl
  obtain ⟨L, hL⟩ := hI.threads i
  unfold ThreadOk at hL
  split at hL
  next => exact absurd (hL m hl') hrec
  next hdead =>
    refine ⟨hdead, (mem_found hlimit hL m).mpr ?_⟩
    rcases (hL.view m).found hl' with hmem | hp | hnot
    · exact .inl hmem
    · exact .inr hp
    · exact absurd hnot hrec

variable {limit : ℕ} {tr : List (Event ι (Action M) (Local M) (Shared ι M))}

/-- **No mutex is lost with its thread.**  In every run in which nobody unlocks a mutex that is not
    recoverable, a thread may die between any two stores: no thread ever goes through a null
    pointer, and a recoverable mutex with a thread's id in its word belongs to a living thread, from
    whose list and `list_op_pending` the kernel finds it. -/
theorem dead_mutexes_marked (hids : Ids id) (hlimit : Fintype.card M < limit) (hfresh : Fresh c)
    (hrun : Run (system limit id) c tr d) (hrec : ∀ x ∈ tr, Recoverable x) :
    (∀ i, (d.loc i).stage ≠ .crashed) ∧
      ∀ i m, (d.sh.mutexes m).lock &&& futexTidMask = id i →
        (d.sh.mutexes m).owner ≠ mutexNotrecoverable →
        (d.loc i).stage ≠ .dead ∧ m ∈ found limit i (d.loc i).pending d.sh.links := by
  have hI := run_inv hlimit hids hfresh hrun hrec
  refine ⟨fun i hst => ?_, fun i m hl ho => hI.found hlimit hids hl ho⟩
  obtain ⟨L, hL⟩ := hI.threads i
  rw [ThreadOk, hst] at hL
  have hpoint := hL.point
  rw [hst] at hpoint
  exact hpoint

/-- **The list between two calls.**  In such a run, the list of a thread that is outside of the
    calls can be followed in both directions; no mutex is on it twice, each one has the thread's id
    in its word, and every recoverable mutex with the id is there. -/
theorem list_between_calls (hids : Ids id) (hlimit : Fintype.card M < limit) (hfresh : Fresh c)
    (hrun : Run (system limit id) c tr d) (hrec : ∀ x ∈ tr, Recoverable x) {i : ι}
    (hout : (d.loc i).stage = .outside) :
    let L := found limit i none d.sh.links
    Ring i L d.sh.links ∧ L.Nodup ∧ (∀ m ∈ L, (d.sh.mutexes m).lock = id i) ∧
      ∀ m, (d.sh.mutexes m).lock = id i → (d.sh.mutexes m).owner ≠ mutexNotrecoverable → m ∈ L := by
  intro L
  have hI := run_inv hlimit hids hfresh hrun hrec
  obtain ⟨L', hL'⟩ := hI.threads i
  rw [ThreadOk, hout] at hL'
  obtain ⟨hnodup, hview, hlinks, hpoint⟩ := hL'
  rw [hout] at hlinks hpoint
  have hnone : (d.loc i).pending = none := hpoint
  have hL : L = L' := by
    have hfound := found_eq hlimit hlinks.forward hnodup none
    rwa [Option.toList_none, List.append_nil] at hfound
  rw [hL]
  refine ⟨hlinks, hnodup, fun m hm => (hview m).word hm, fun m hl ho => ?_⟩
  have hmem := (hview m).unannounced (by simp [hnone]) hl
  exact hmem.resolve_right ho

end Inv

/-! ### A death in the middle of an enqueue -/

/-- Two threads with empty lists, and two robust mutexes as they were initialised. -/
def emptyLists : Config Bool (Local Bool) (Shared Bool Bool) where
  loc _ := {}
  sh.mutexes _ := (mutexInit (attrFlagRobust ||| BasicKind.timed.code) {}).2
  sh.links.next
    | .head i => some ⟨.head i, false⟩
    | .mutex _ => none
  sh.links.prev
    | .head i => some ⟨.head i, false⟩
    | .mutex _ => none

/-- Two ids that threads can have. -/
theorem twoIds_ok : Ids twoIds where
  inj := twoIds_injective
  pos := by decide
  le := by decide

/-- Two mutexes that are new, and empty lists. -/
theorem emptyLists_fresh : Fresh emptyLists where
  threads _ := ⟨rfl, rfl⟩
  lists _ := ⟨rfl, rfl⟩
  mutexes _ := ⟨.timed, rfl⟩

/-- Nobody unlocks in a schedule without such a call. -/
theorem execute_recoverable {sched : List (Bool × Action Bool)}
    (h : ((system 3 twoIds).exec emptyLists sched).isSome)
    (hno : ∀ y ∈ sched, ∀ m, y.2 ≠ .unlock m) :
    ∀ x ∈ ((system 3 twoIds).execute emptyLists sched h).1, Recoverable x := by
  intro x hx m hact
  exact absurd hact (hno _ ((system 3 twoIds).execute_act _ _ _ hx) m)

/-- A thread takes one mutex, and another one up to the third store of its enqueue. -/
def enqueueing : List (Event Bool (Action Bool) (Local Bool) (Shared Bool Bool)) ×
    Config Bool (Local Bool) (Shared Bool Bool) :=
  (system 3 twoIds).execute emptyLists
    (List.flatten [[(false, .trylock false)], List.replicate 14 (false, .run linuxSys),
      [(false, .trylock true)], List.replicate 8 (false, .run linuxSys)]) rfl

/-- A mutex that is being enqueued is found. -/
theorem dead_mutexes_marked_enqueueing :
    (enqueueing.2.loc false).stage ≠ .dead ∧
      true ∈ found 3 false (enqueueing.2.loc false).pending enqueueing.2.sh.links :=
  (dead_mutexes_marked twoIds_ok (by decide) emptyLists_fresh ((system 3 twoIds).execute_run _ _ _)
    (execute_recoverable _ (by simp))).2 false true rfl (by decide)

/-- The one mutex, between the calls. -/
def enqueued : List (Event Bool (Action Bool) (Local Bool) (Shared Bool Bool)) ×
    Config Bool (Local Bool) (Shared Bool Bool) :=
  (system 3 twoIds).execute emptyLists
    (List.flatten [[(false, .trylock false)], List.replicate 14 (false, .run linuxSys)]) rfl

/-- A mutex that was locked is found. -/
theorem list_between_calls_enqueued :
    false ∈ found 3 false none enqueued.2.sh.links :=
  (list_between_calls twoIds_ok (by decide) emptyLists_fresh ((system 3 twoIds).execute_run _ _ _)
    (execute_recoverable _ (by simp)) (i := false) rfl).2.2.2 false rfl (by decide)

end SyncPerf.RobustList
