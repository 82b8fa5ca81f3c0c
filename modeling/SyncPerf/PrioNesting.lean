import SyncPerf.PrioProtect

namespace SyncPerf.PrioProtect

open Calls

/-!
# Depths

A program knows which mutexes it holds, and how deep, from the values that the calls return.  The
code has its own idea of it: the words that its compare-and-exchanges have taken, and the count of
a recursive mutex.

* `Idle` — the two agree;
* `AcquirePC.Nests`, `ReleasePC.Nests` — how they differ in the course of a call;
* `acquireStep_nests`, `releaseStep_nests` — every step of a call keeps that.
-/

section Thread

variable {κ : BasicKind} {held held' : Prop} {depth : ℕ} {m m' : MutexData} {mode : Mode}

/-- The depth that the fields of a mutex show when it is held: a recursive one counts. -/
def nesting (κ : BasicKind) (m : MutexData) : ℕ := if κ = .recursive then m.count.toNat else 1

/-- A thread has acquired a mutex that it holds as often as the fields tell, and one that it does
    not hold not at all. -/
structure Idle (κ : BasicKind) (held : Prop) (depth : ℕ) (m : MutexData) : Prop where
  ofHeld : held → 0 < depth ∧ depth = nesting κ m
  ofFree : ¬ held → depth = 0

/-- The mutex is held just when the calls say so. -/
theorem Idle.held_iff (h : Idle κ held depth m) : held ↔ 0 < depth := by
  refine ⟨fun hmem => (h.ofHeld hmem).1, fun hpos => ?_⟩
  by_contra hnot
  rw [h.ofFree hnot] at hpos
  exact absurd hpos (Nat.lt_irrefl 0)

/-- A thread that holds a recursive mutex has acquired it as often as its count tells. -/
theorem Idle.depth_recursive (h : Idle .recursive held depth m) (hmem : held) :
    depth = m.count.toNat := (h.ofHeld hmem).2

/-- Any other one it has acquired once. -/
theorem Idle.depth_eq_one (h : Idle κ held depth m) (hmem : held) (hκ : κ ≠ .recursive) :
    depth = 1 := (h.ofHeld hmem).2.trans (if_neg hκ)

/-- The mutex matters only while it is held, and only with its count. -/
theorem Idle.frame (h : Idle κ held depth m) (hcount : held → m'.count = m.count) :
    Idle κ held depth m' := by
  refine ⟨fun hmem => ?_, h.ofFree⟩
  rw [nesting, hcount hmem]
  exact h.ofHeld hmem

/-- An acquisition that has taken the word does not count as one before it returns; then the count
    of a recursive mutex is 1. -/
def AcquirePC.Nests (κ : BasicKind) (mode : Mode) (held : Prop) (depth : ℕ) (m : MutexData) :
    AcquirePC → Prop
  | .bump => Idle κ held depth m ∧ held ∧ κ = .recursive
  | .bumpLoad => Idle κ held depth m ∧ held ∧ κ = .recursive ∧ m.count + 1 ≠ 0
  | .bumpStore v => Idle κ held depth m ∧ held ∧ κ = .recursive ∧ v = m.count ∧ v + 1 ≠ 0
  | .assertOwner | .setCount => held ∧ depth = 0
  | .setOwner | .nusers | .nusersStore _ =>
    held ∧ depth = 0 ∧ (mode ≠ .trylock → κ = .recursive → m.count = 1)
  | _ => Idle κ held depth m

/-- A release that goes on to the word matches the only acquisition. -/
def ReleasePC.Nests (κ : BasicKind) (held : Prop) (depth : ℕ) (m : MutexData) : ReleasePC → Prop
  | .recOwner => Idle κ held depth m ∧ κ = .recursive
  | .recCount => Idle κ held depth m ∧ held ∧ κ = .recursive
  | .recCountStore v => Idle κ held depth m ∧ held ∧ κ = .recursive ∧ v = m.count
  | .errOwner | .errLocked => Idle κ held depth m ∧ κ ≠ .recursive
  | .lower _ => ¬ held ∧ depth = 1
  | _ => depth = 1

theorem AcquirePC.Nests.frame {p : AcquirePC} (h : p.Nests κ mode held depth m)
    (hcount : held → m'.count = m.count) : p.Nests κ mode held depth m' := by
  cases p with
  | bump => exact ⟨h.1.frame hcount, h.2⟩
  | bumpLoad => exact ⟨h.1.frame hcount, h.2.1, h.2.2.1, by rw [hcount h.2.1]; exact h.2.2.2⟩
  | bumpStore v => exact ⟨h.1.frame hcount, h.2.1, h.2.2.1, by rw [hcount h.2.1]; exact h.2.2.2⟩
  | assertOwner | setCount => exact h
  | setOwner | nusers | nusersStore v =>
    exact ⟨h.1, h.2.1, fun hmode hκ => (hcount h.1).trans (h.2.2 hmode hκ)⟩
  | _ => exact Idle.frame h hcount

theorem ReleasePC.Nests.frame {p : ReleasePC} (h : p.Nests κ held depth m)
    (hcount : held → m'.count = m.count) : p.Nests κ held depth m' := by
  cases p with
  | recOwner | recCount | errOwner | errLocked => exact ⟨h.1.frame hcount, h.2⟩
  | recCountStore v => exact ⟨h.1.frame hcount, h.2.1, h.2.2.1, h.2.2.2.trans (hcount h.2.1).symm⟩
  | _ => exact h

variable {M : Type} [DecidableEq M] {n n' : M} {l l' : Local M} {decr : Bool}

/-- What a thread's acquisitions of `n` have to do with its fields, wherever the thread is. -/
def Local.Nests (κ : BasicKind) (l : Local M) (n : M) (m : MutexData) : Prop :=
  match l.stage with
  | .outside => Idle κ (n ∈ l.held) (l.depth n) m
  | .acquire mode n' p =>
    if n' = n then p.Nests κ mode (n ∈ l.held) (l.depth n) m else Idle κ (n ∈ l.held) (l.depth n) m
  | .release _ n' p =>
    if n' = n then p.Nests κ (n ∈ l.held) (l.depth n) m else Idle κ (n ∈ l.held) (l.depth n) m
  | .stopped _ => True

/-- A step of another thread may count only while this one does not hold the mutex. -/
theorem Local.Nests.frame (h : l.Nests κ n m) (hcount : n ∈ l.held → m'.count = m.count) :
    l.Nests κ n m' := by
  cases hst : l.stage with
  | outside =>
    simp only [Local.Nests, hst] at h ⊢
    exact h.frame hcount
  | acquire mode n' p =>
    simp only [Local.Nests, hst] at h ⊢
    split_ifs at h ⊢
    · exact h.frame hcount
    · exact h.frame hcount
  | release decr n' p =>
    simp only [Local.Nests, hst] at h ⊢
    split_ifs at h ⊢
    · exact h.frame hcount
    · exact h.frame hcount
  | stopped o => simp only [Local.Nests, hst]

/-- A thread that is in no call on `n`. -/
def Stage.Beside (n : M) : Stage M → Prop
  | .outside => True
  | .acquire _ n' _ | .release _ n' _ => n' ≠ n
  | .stopped _ => False

/-- A thread that is in no call on a mutex has acquired it as often as its fields tell. -/
theorem Local.Nests.idle (h : l.Nests κ n m) (hst : l.stage.Beside n) :
    Idle κ (n ∈ l.held) (l.depth n) m := by
  cases hs : l.stage with
  | outside => simpa only [Local.Nests, hs] using h
  | acquire mode n' p | release decr n' p =>
    rw [hs] at hst
    simpa only [Local.Nests, hs, if_neg (show ¬ n' = n from hst)] using h
  | stopped o =>
    rw [hs] at hst
    exact hst.elim

/-- A thread in an acquisition of a mutex, and one in a release. -/
theorem Local.Nests.acquire {p : AcquirePC} (h : l.Nests κ n m)
    (hst : l.stage = .acquire mode n p) :
    p.Nests κ mode (n ∈ l.held) (l.depth n) m := by
  simpa only [Local.Nests, hst, if_true] using h

theorem Local.Nests.release {p : ReleasePC} (h : l.Nests κ n m)
    (hst : l.stage = .release decr n p) :
    p.Nests κ (n ∈ l.held) (l.depth n) m := by
  simpa only [Local.Nests, hst, if_true] using h

/-- The start of an acquisition of `n'`. -/
theorem Local.Nests.acquiring (h : Idle κ (n ∈ l.held) (l.depth n) m)
    {entry : PriorityProtectionData} :
    Local.Nests κ { l with stage := .acquire mode n' .word, entry := entry, result := none } n
      m := by
  unfold Local.Nests
  dsimp only
  split <;> exact h

/-- The start of a release of `n'`. -/
theorem Local.Nests.releasing {p : ReleasePC} (h : Idle κ (n ∈ l.held) (l.depth n) m)
    (hp : n' = n → p.Nests κ (n ∈ l.held) (l.depth n) m) :
    Local.Nests κ { l with stage := .release decr n' p, result := none } n m := by
  unfold Local.Nests
  dsimp only
  split
  · rename_i heq
    exact hp heq
  · exact h

/-! ### Acquisitions -/

/-- How the upper part of the outer loop ends: a call that returns from it has failed. -/
theorem raiseStep_next (S : Sched) (oldprio : ℤ) (oldval : ℕ) (prio : Prio) :
    (∃ ceiling, (raiseStep S oldprio oldval prio).1 = .goto (.cas ceiling)) ∨
      (∃ code, code ≠ 0 ∧ (raiseStep S oldprio oldval prio).1 = .done (.ret code)) ∨
      ∃ a, (raiseStep S oldprio oldval prio).1 = .done (.abort a) := by
  have hinval : eINVAL ≠ 0 := by decide
  simp only [raiseStep]
  split
  · split
    · split
      · exact .inr (.inr ⟨_, rfl⟩)
      · exact .inr (.inl ⟨_, hinval, rfl⟩)
    · exact .inr (.inl ⟨_, hinval, rfl⟩)
  · split
    · exact .inr (.inr ⟨_, rfl⟩)
    · split
      · rename_i hcode
        exact .inr (.inl ⟨_, hcode, rfl⟩)
      · exact .inl ⟨_, rfl⟩

/-- On to another point of the acquisition. -/
theorem AcquirePC.Nests.goto {p : AcquirePC} (h : p.Nests κ mode (n ∈ l.held) (l.depth n) m) :
    (l.afterAcquire mode n (.goto p)).Nests κ n m := by
  simpa only [Local.Nests, Local.afterAcquire, if_true] using h

/-- A call that fails changes nothing. -/
theorem Idle.acquireFails (h : Idle κ (n ∈ l.held) (l.depth n) m) {code : ℕ} (hcode : code ≠ 0)
    (prio : Prio) :
    ({ l with prio := prio }.afterAcquire mode n (.done (.ret code))).Nests κ n m := by
  simpa only [Local.Nests, Local.afterAcquire, if_neg hcode] using h

/-- A call that returns 0 is one more. -/
theorem Local.Nests.acquired (hmem : n ∈ l.held) (hdepth : nesting κ m = l.depth n + 1) :
    (l.afterAcquire mode n (.done (.ret 0))).Nests κ n m := by
  have hself : (l.afterAcquire mode n (.done (.ret 0))).depth n = l.depth n + 1 :=
    Function.update_self ..
  refine ⟨fun _ => ⟨?_, ?_⟩, fun hnot => absurd hmem hnot⟩
  · rw [hself]
    exact Nat.succ_pos _
  · rw [hself, hdepth]

/-- The first acquisition of a recursive mutex sets its count to 1. -/
theorem nesting_eq_one (hcount : κ = .recursive → m.count = 1) : nesting κ m = 1 := by
  unfold nesting
  split
  · rename_i hκ
    rw [hcount hκ]
    rfl
  · rfl

/-- **A step of an acquisition** of `n` keeps what its points say about depths. -/
theorem acquireStep_nests {S : Sched} {id : ℕ} {ceil : M → ℕ} {p : AcquirePC}
    (hkind : m.kind = Protocol.protect.code κ) (hv : View ceil id n l.held m)
    (hok : p.Ok ceil l.held n) (h : p.Nests κ mode (n ∈ l.held) (l.depth n) m) :
    (l.stepAcquire mode n p m (acquireStep S id mode p l.prio m)).Nests κ n
      (acquireStep S id mode p l.prio m).2.2 := by
  -- a free word is held by nobody, and was not acquired
  have htake : ∀ ceiling, ceiling = ceil n → m.lock = ceilvalOf ceiling →
      Idle κ (n ∈ l.held) (l.depth n) m → l.depth n = 0 := by
    rintro ceiling rfl hfree hidle
    obtain ⟨b, -, hlock, hno⟩ := hv.lock
    exact hidle.ofFree (hno (by omega))
  cases p with
  | word => exact AcquirePC.Nests.goto h
  | owner oldval =>
    simp only [acquireStep, hkind, basicOf_code]
    split
    · exact Idle.acquireFails h (by decide) _
    · split
      · rename_i howner
        refine AcquirePC.Nests.goto ?_
        exact ⟨h, hv.owner howner.1, howner.2⟩
      · exact AcquirePC.Nests.goto h
  | bump =>
    simp only [acquireStep]
    split
    · exact h.1.acquireFails (by decide) _
    · rename_i hcount
      refine AcquirePC.Nests.goto ?_
      exact ⟨h.1, h.2.1, h.2.2, hcount⟩
  | bumpLoad =>
    refine AcquirePC.Nests.goto ?_
    exact ⟨h.1, h.2.1, h.2.2.1, rfl, h.2.2.2⟩
  | bumpStore v =>
    obtain ⟨hidle, hmem, rfl, rfl, hcount⟩ := h
    refine .acquired hmem ?_
    rw [hidle.depth_recursive hmem]
    exact toNat_add_one hcount
  | raise oldprio oldval =>
    simp only [acquireStep]
    rcases raiseStep_next S oldprio oldval l.prio with
      ⟨ceiling, hr⟩ | ⟨code, hcode, hr⟩ | ⟨a, hr⟩
    · rw [hr]
      exact AcquirePC.Nests.goto h
    · rw [hr]
      exact Idle.acquireFails h hcode _
    · rw [hr]
      trivial
  | cas ceiling =>
    by_cases hfree : m.lock = ceilvalOf ceiling
    · have htakes : (AcquirePC.cas ceiling).takes m = true := decide_eq_true hfree
      simp only [Local.stepAcquire, acquireStep, hfree, if_true, htakes]
      refine AcquirePC.Nests.goto ?_
      exact ⟨Finset.mem_insert_self n _, htake ceiling hok hfree h⟩
    · have htakes : (AcquirePC.cas ceiling).takes m = false := decide_eq_false hfree
      simp only [Local.stepAcquire, acquireStep, hfree, if_false, htakes, Bool.false_eq_true]
      cases mode with
      | lock build => exact AcquirePC.Nests.goto h
      | trylock =>
        dsimp only
        split <;> exact AcquirePC.Nests.goto h
  | waiters ceiling =>
    -- the word may be marked, and nothing else happens
    have hmark : Idle κ (n ∈ l.held) (l.depth n)
        (acquireStep S id mode (.waiters ceiling) l.prio m).2.2 := by
      refine Idle.frame h fun _ => ?_
      simp only [acquireStep]
      split <;> rfl
    simp only [acquireStep] at hmark ⊢
    split_ifs at hmark ⊢ <;> exact AcquirePC.Nests.goto hmark
  | futexWait ceiling => exact AcquirePC.Nests.goto h
  | casWaiters ceiling =>
    by_cases hfree : m.lock = ceilvalOf ceiling
    · have htakes : (AcquirePC.casWaiters ceiling).takes m = true := decide_eq_true hfree
      simp only [Local.stepAcquire, acquireStep, hfree, if_true, htakes]
      refine AcquirePC.Nests.goto ?_
      exact ⟨Finset.mem_insert_self n _, htake ceiling hok hfree h⟩
    · have htakes : (AcquirePC.casWaiters ceiling).takes m = false := decide_eq_false hfree
      simp only [Local.stepAcquire, acquireStep, hfree, if_false, htakes, Bool.false_eq_true]
      exact AcquirePC.Nests.goto h
  | lower ceiling =>
    simp only [acquireStep]
    split
    · trivial
    · exact Idle.acquireFails h (by decide) _
  | assertOwner =>
    simp only [acquireStep]
    split
    · trivial
    · split
      · rename_i hmode
        refine AcquirePC.Nests.goto ?_
        exact ⟨h.1, h.2, fun hne => absurd hmode hne⟩
      · exact AcquirePC.Nests.goto h
  | setOwner =>
    obtain ⟨hmem, hdepth, hcount⟩ := h
    simp only [acquireStep]
    split
    · rename_i hmode
      refine .acquired hmem ?_
      rw [hdepth]
      exact nesting_eq_one fun hκ => hcount (by rw [hmode]; decide) hκ
    · refine AcquirePC.Nests.goto ?_
      exact ⟨hmem, hdepth, hcount⟩
  | nusers => exact AcquirePC.Nests.goto h
  | nusersStore v =>
    obtain ⟨hmem, hdepth, hcount⟩ := h
    simp only [acquireStep]
    split
    · refine AcquirePC.Nests.goto ?_
      exact ⟨hmem, hdepth⟩
    · rename_i hmode
      refine .acquired hmem ?_
      rw [hdepth]
      exact nesting_eq_one fun hκ => hcount hmode hκ
  | setCount =>
    obtain ⟨hmem, hdepth⟩ := h
    simp only [acquireStep]
    split
    · refine .acquired hmem ?_
      rw [hdepth]
      exact nesting_eq_one fun _ => rfl
    · refine AcquirePC.Nests.goto ?_
      exact ⟨hmem, hdepth, fun _ _ => rfl⟩

omit [DecidableEq M] in
/-- Only a thread that holds the mutex changes its count. -/
theorem acquireStep_count {S : Sched} {id : ℕ} {ceil : M → ℕ} {p : AcquirePC} {prio : Prio}
    (hok : p.Ok ceil l.held n) (h : p.Nests κ mode (n ∈ l.held) (l.depth n) m) :
    n ∈ l.held ∨ (acquireStep S id mode p prio m).2.2.count = m.count := by
  cases p with
  | bumpStore v => exact .inl h.2.1
  | setCount => exact .inl hok
  | cas ceiling =>
    right
    simp only [acquireStep]
    split
    · rfl
    · cases mode <;> rfl
  | waiters ceiling | casWaiters ceiling | lower ceiling =>
    right
    simp only [acquireStep]
    split <;> rfl
  | _ => exact .inr rfl

/-- What a thread has acquired beside the mutex of its acquisition stays as it is. -/
theorem Local.stepAcquire_nests (h : Idle κ (n' ∈ l.held) (l.depth n') m') (hne : n' ≠ n)
    (p : AcquirePC) (m : MutexData) (r : Next AcquirePC × Prio × MutexData) :
    (l.stepAcquire mode n p m r).Nests κ n' m' := by
  have hmem : (n' ∈ if p.takes m then insert n l.held else l.held) = (n' ∈ l.held) := by
    split
    · rw [Finset.mem_insert, eq_iff_iff, or_iff_right hne]
    · rfl
  obtain ⟨r, prio, m₁⟩ := r
  cases r with
  | goto p' =>
    simpa only [Local.Nests, Local.stepAcquire, Local.afterAcquire, if_neg hne.symm, hmem] using h
  | done o =>
    cases o with
    | ret code =>
      have hdepth : (if code = 0 then Function.update l.depth n (l.depth n + 1) else l.depth) n' =
          l.depth n' := by
        split
        · exact Function.update_of_ne hne ..
        · rfl
      simpa only [Local.Nests, Local.stepAcquire, Local.afterAcquire, hmem, hdepth] using h
    | _ => trivial

/-! ### Releases -/

/-- On to another point of the release. -/
theorem ReleasePC.Nests.goto {p : ReleasePC} (h : p.Nests κ (n ∈ l.held) (l.depth n) m) :
    (l.afterRelease decr n (.goto p)).Nests κ n m := by
  simpa only [Local.Nests, Local.afterRelease, if_true] using h

/-- A call that fails changes nothing. -/
theorem Idle.releaseFails (h : Idle κ (n ∈ l.held) (l.depth n) m) {code : ℕ} (hcode : code ≠ 0) :
    (l.afterRelease decr n (.done (.ret code))).Nests κ n m := by
  simpa only [Local.Nests, Local.afterRelease, if_neg hcode] using h

/-- **A step of a release** of `n` keeps what its points say about depths. -/
theorem releaseStep_nests {S : Sched} {id : ℕ} {fifoMinPrio fifoMaxPrio : ℤ} {ceil : M → ℕ}
    {p : ReleasePC} (hS : S.Succeeds fifoMinPrio fifoMaxPrio)
    (hceil : Ceilings fifoMinPrio fifoMaxPrio ceil) (hl : LocalOk fifoMinPrio ceil l)
    (hst : l.stage = .release decr n p) (hv : View ceil id n l.held m)
    (h : p.Nests κ (n ∈ l.held) (l.depth n) m) :
    (l.stepRelease decr n p m (releaseStep S id decr p l.prio m)).Nests κ n
      (releaseStep S id decr p l.prio m).2.2 := by
  have hstage := hl.stage
  have hcounts := hl.counts
  rw [hst] at hstage hcounts
  have hok := hstage.1
  cases p with
  | recOwner =>
    simp only [releaseStep]
    split
    · exact h.1.releaseFails (by decide)
    · rename_i howner
      refine ReleasePC.Nests.goto ?_
      exact ⟨h.1, hv.owner (not_not.mp howner), h.2⟩
  | recCount =>
    refine ReleasePC.Nests.goto ?_
    exact ⟨h.1, h.2.1, h.2.2, rfl⟩
  | recCountStore v =>
    obtain ⟨hidle, hmem, rfl, rfl⟩ := h
    have hdepth := hidle.depth_recursive hmem
    have hpos := (hidle.ofHeld hmem).1
    have hsub : (m.count - 1).toNat = l.depth n - 1 := by
      rw [toNat_sub_one (by omega), hdepth]
    simp only [releaseStep]
    split
    · rename_i hcount
      -- one level less, and there was more than one
      have hself : (l.afterRelease decr n (.done (.ret 0))).depth n = l.depth n - 1 :=
        Function.update_self ..
      have hne : (m.count - 1).toNat ≠ 0 := fun h0 => hcount (BitVec.eq_of_toNat_eq h0)
      refine ⟨fun _ => ⟨?_, ?_⟩, fun hnot => absurd hmem hnot⟩
      · show 0 < (l.afterRelease decr n (.done (.ret 0))).depth n
        omega
      · show (l.afterRelease decr n (.done (.ret 0))).depth n = (m.count - 1).toNat
        rw [hself, hsub]
    · rename_i hcount
      refine ReleasePC.Nests.goto ?_
      have hzero : (m.count - 1).toNat = 0 := by
        rw [not_not.mp hcount]
        rfl
      show l.depth n = 1
      omega
  | errOwner =>
    simp only [releaseStep]
    split
    · exact h.1.releaseFails (by decide)
    · exact ReleasePC.Nests.goto h
  | errLocked =>
    simp only [releaseStep]
    split
    · exact h.1.releaseFails (by decide)
    · exact ReleasePC.Nests.goto (h.1.depth_eq_one hok h.2)
  | owner =>
    simp only [releaseStep]
    cases decr <;> exact ReleasePC.Nests.goto h
  | nusers => exact ReleasePC.Nests.goto h
  | nusersStore v => exact ReleasePC.Nests.goto h
  | word => exact ReleasePC.Nests.goto h
  | cas oldval =>
    by_cases hsame : m.lock = oldval
    · have hgives : (ReleasePC.cas oldval).gives m = true := decide_eq_true hsame
      simp only [Local.stepRelease, releaseStep, hsame, if_true, hgives]
      refine ReleasePC.Nests.goto ?_
      exact ⟨Finset.notMem_erase n _, h⟩
    · have hgives : (ReleasePC.cas oldval).gives m = false := decide_eq_false hsame
      simp only [Local.stepRelease, releaseStep, hsame, if_false, hgives, Bool.false_eq_true]
      exact ReleasePC.Nests.goto h
  | lower oldprio =>
    -- the scheduler calls succeed, so that the call returns 0
    obtain rfl : oldprio = ceil n := hok
    obtain ⟨prio', hcall, -⟩ := lower_counts hS hceil hcounts
    simp only [Local.stepRelease, releaseStep, hcall]
    refine ⟨fun hmem => absurd hmem h.1, fun _ => ?_⟩
    show Function.update l.depth n (l.depth n - 1) n = 0
    rw [Function.update_self, h.2]

omit [DecidableEq M] in
/-- Only a thread that holds the mutex changes its count. -/
theorem releaseStep_count {S : Sched} {id : ℕ} {p : ReleasePC} {prio : Prio}
    (h : p.Nests κ (n ∈ l.held) (l.depth n) m) :
    n ∈ l.held ∨ (releaseStep S id decr p prio m).2.2.count = m.count := by
  cases p with
  | recCountStore v => exact .inl h.2.1
  | cas oldval | lower oldprio =>
    right
    simp only [releaseStep]
    split <;> rfl
  | _ => exact .inr rfl

/-- What a thread has acquired beside the mutex of its release stays as it is. -/
theorem Local.stepRelease_nests (h : Idle κ (n' ∈ l.held) (l.depth n') m') (hne : n' ≠ n)
    (p : ReleasePC) (m : MutexData) (r : Next ReleasePC × Prio × MutexData) :
    (l.stepRelease decr n p m r).Nests κ n' m' := by
  have hmem : (n' ∈ if p.gives m then l.held.erase n else l.held) = (n' ∈ l.held) := by
    split
    · rw [Finset.mem_erase, eq_iff_iff, and_iff_right hne]
    · rfl
  obtain ⟨r, prio, m₁⟩ := r
  cases r with
  | goto p' =>
    simpa only [Local.Nests, Local.stepRelease, Local.afterRelease, if_neg hne.symm, hmem] using h
  | done o =>
    cases o with
    | ret code =>
      have hdepth : (if code = 0 then Function.update l.depth n (l.depth n - 1) else l.depth) n' =
          l.depth n' := by
        split
        · exact Function.update_of_ne hne ..
        · rfl
      simpa only [Local.Nests, Local.stepRelease, Local.afterRelease, hmem, hdepth] using h
    | _ => trivial

end Thread

end SyncPerf.PrioProtect
