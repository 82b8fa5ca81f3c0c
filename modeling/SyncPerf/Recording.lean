import SyncPerf.SyncTrack

namespace SyncPerf.SyncTrack

/-!
# Recording in critical sections

Recording should be on while a thread is in a critical section that it entered from one of the call
sites of the input file.  The tool has one flag for a thread, however deep its sections nest:
`ProcessLock` sets it, and `ProcessUnlock` clears it, whichever section ends.

* `SectionEvent`, `openSections` — the events of all threads, and the sections that are open;
* `Started` — `start_profile` has just been set;
* `RightlyRecorded`, `Unspoilt` — what the flag should say after an event, and which events keep it
  from saying so;
* `recording_exact` — an event sequence has only rightly recorded events when none spoils the flag.
-/

/-! ### Events -/

/-- A thread enters a critical section, or leaves the innermost one. -/
inductive SectionEvent
  | enter (retAddress : BitVec 64) (threadId : ℕ)
  | leave (threadId : ℕ)
  deriving DecidableEq

/-- The thread that enters or leaves. -/
def SectionEvent.threadId : SectionEvent → ℕ
  | .enter _ t | .leave t => t

@[simp] theorem threadId_enter (a : BitVec 64) (t : ℕ) : (SectionEvent.enter a t).threadId = t := rfl

@[simp] theorem threadId_leave (t : ℕ) : (SectionEvent.leave t).threadId = t := rfl

/-- The analysis routine at an event. -/
def Tool.onSection (s : Tool) : SectionEvent → Tool
  | .enter retAddress t => processLock s retAddress t
  | .leave t => processUnlock s t

/-- The tool after some events. -/
def Tool.onSections (s : Tool) (es : List SectionEvent) : Tool := es.foldl Tool.onSection s

/-- The call sites from which each thread has entered the sections that it is in, the innermost one
    first. -/
abbrev Sections := ℕ → List (BitVec 64)

/-- The sections after one event. -/
def Sections.after (o : Sections) : SectionEvent → Sections
  | .enter retAddress t => Function.update o t (retAddress :: o t)
  | .leave t => Function.update o t (o t).tail

/-- The sections after some events, from those that were open before. -/
def openSections (o : Sections) (es : List SectionEvent) : Sections := es.foldl Sections.after o

/-! ### What the routines do to the flags -/

/-- `ProcessLock` does not change whether accesses are recorded. -/
@[simp] theorem processLock_startProfile (s : Tool) (a : BitVec 64) (t : ℕ) :
    (processLock s a t).startProfile = s.startProfile := by
  unfold processLock
  split
  · split <;> rfl
  · rfl

/-- `ProcessLock` changes nothing that was recorded. -/
@[simp] theorem processLock_callSite (s : Tool) (a : BitVec 64) (t : ℕ) :
    (processLock s a t).callSite = s.callSite := by
  unfold processLock
  split
  · split <;> rfl
  · rfl

/-- `ProcessUnlock` does not change whether accesses are recorded. -/
@[simp] theorem processUnlock_startProfile (s : Tool) (t : ℕ) :
    (processUnlock s t).startProfile = s.startProfile := by
  unfold processUnlock
  split <;> rfl

/-- `ProcessUnlock` changes nothing that was recorded. -/
@[simp] theorem processUnlock_callSite (s : Tool) (t : ℕ) :
    (processUnlock s t).callSite = s.callSite := by
  unfold processUnlock
  split <;> rfl

/-- A lock from a listed site sets the flag, and another one leaves it alone. -/
theorem processLock_record {s : Tool} (hs : s.startProfile = true) (a : BitVec 64) (t : ℕ) :
    (processLock s a t).record =
      if a ∈ s.callSite then Function.update s.record t true else s.record := by
  unfold processLock
  rw [if_pos hs]
  split <;> rfl

/-- An unlock clears the flag. -/
theorem processUnlock_record {s : Tool} (hs : s.startProfile = true) (t : ℕ) :
    (processUnlock s t).record = Function.update s.record t false := by
  unfold processUnlock
  rw [if_pos hs]

/-- A new thread does not record, and does not end the recording. -/
theorem threadBegin_record {s s' : Tool} {t : ℕ} (h : threadBegin s t = some s') :
    s'.record = s.record ∧ (s'.startProfile = false → s.startProfile = false) := by
  simp only [threadBegin] at h
  split at h
  · obtain rfl := Option.some.inj h
    exact ⟨rfl, fun hs' => (Bool.or_eq_false_iff.mp hs').1⟩
  · cases h

/-- A count of an instruction leaves the record alone. -/
theorem processInst_record {s s' : Tool} {e : InstCall} (h : processInst s e = some s') :
    s'.record = s.record ∧ s'.startProfile = s.startProfile := by
  simp only [processInst] at h
  split at h
  · split at h
    · split at h
      · split at h
        · obtain rfl := Option.some.inj h
          exact ⟨rfl, rfl⟩
        · cases h
      · obtain rfl := Option.some.inj h
        exact ⟨rfl, rfl⟩
    · obtain rfl := Option.some.inj h
      exact ⟨rfl, rfl⟩
  · cases h

/-! ### The start of the profile -/

/-- `start_profile` has just been set by the start of a thread, after any calls since `main`. -/
def Started (s : Tool) : Prop :=
  ∃ (totalThreads : ℕ) (callSite : List (BitVec 64)) (calls : List AnalysisCall) (s₁ : Tool) (t : ℕ),
    Tool.run { totalThreads := totalThreads, callSite := callSite } calls = some s₁ ∧
      s₁.startProfile = false ∧ threadBegin s₁ t = some s ∧ s.startProfile = true

/-- A routine that leaves `start_profile` clear has found it clear, and changes no flag. -/
theorem step_not_started {s s' : Tool} {c : AnalysisCall} (h : s.step c = some s')
    (hs' : s'.startProfile = false) : s.startProfile = false ∧ s'.record = s.record := by
  cases c with
  | threadBegin t =>
    obtain ⟨hrecord, hstart⟩ := threadBegin_record h
    exact ⟨hstart hs', hrecord⟩
  | threadEnd t =>
    obtain rfl := Option.some.inj h
    exact ⟨hs', rfl⟩
  | lock a t =>
    obtain rfl := Option.some.inj h
    have hs : s.startProfile = false := (processLock_startProfile s a t).symm.trans hs'
    refine ⟨hs, ?_⟩
    rw [processLock, hs, if_neg Bool.false_ne_true]
  | unlock t =>
    obtain rfl := Option.some.inj h
    have hs : s.startProfile = false := (processUnlock_startProfile s t).symm.trans hs'
    refine ⟨hs, ?_⟩
    rw [processUnlock, hs, if_neg Bool.false_ne_true]
  | inst e =>
    obtain ⟨hrecord, hstart⟩ := processInst_record h
    exact ⟨hstart.symm.trans hs', hrecord⟩

/-- Before `start_profile` is set no flag changes. -/
theorem run_not_started {s s' : Tool} {calls : List AnalysisCall} (h : s.run calls = some s')
    (hs' : s'.startProfile = false) : s'.record = s.record := by
  have hinv : s.startProfile = false ∧ s'.record = s.record := by
    induction calls generalizing s with
    | nil =>
      obtain rfl := Option.some.inj h
      exact ⟨hs', rfl⟩
    | cons c calls ih =>
      rw [Tool.run, List.foldlM_cons] at h
      obtain ⟨s₁, hstep, hrest⟩ := Option.bind_eq_some_iff.mp h
      obtain ⟨hs₁, hrecord⟩ := ih hrest
      obtain ⟨hs, hkeep⟩ := step_not_started hstep hs₁
      exact ⟨hs, hrecord.trans hkeep⟩
  exact hinv.2

/-- At the start nothing is recorded. -/
theorem Started.record {s : Tool} (h : Started s) : s.record = fun _ => false := by
  obtain ⟨totalThreads, callSite, calls, s₁, t, hrun, hs₁, hbegin, -⟩ := h
  exact (threadBegin_record hbegin).1.trans (run_not_started hrun hs₁)

/-- The tool records once it has started. -/
theorem Started.startProfile {s : Tool} (h : Started s) : s.startProfile = true := by
  obtain ⟨_, _, _, _, _, -, -, -, hstart⟩ := h
  exact hstart

/-! ### One event -/

section Event

variable {s : Tool}

/-- A section does not end the recording. -/
theorem onSection_startProfile (s : Tool) (e : SectionEvent) :
    (s.onSection e).startProfile = s.startProfile := by
  cases e with
  | enter a t => exact processLock_startProfile s a t
  | leave t => exact processUnlock_startProfile s t

/-- A section itself records nothing. -/
theorem onSection_callSite (s : Tool) (e : SectionEvent) : (s.onSection e).callSite = s.callSite := by
  cases e with
  | enter a t => exact processLock_callSite s a t
  | leave t => exact processUnlock_callSite s t

/-- The flag of the thread of an event. -/
theorem onSection_record_self (hs : s.startProfile = true) (e : SectionEvent) :
    (s.onSection e).record e.threadId =
      match e with
      | .enter a t => decide (a ∈ s.callSite) || s.record t
      | .leave _ => false := by
  cases e with
  | enter a t =>
    rw [Tool.onSection, processLock_record hs]
    by_cases ha : a ∈ s.callSite
    · simp [ha]
    · simp [ha]
  | leave t =>
    rw [Tool.onSection, processUnlock_record hs]
    exact Function.update_self ..

/-- No other flag changes. -/
theorem onSection_record_of_ne (hs : s.startProfile = true) {e : SectionEvent} {t : ℕ}
    (hne : t ≠ e.threadId) : (s.onSection e).record t = s.record t := by
  cases e with
  | enter a u =>
    rw [Tool.onSection, processLock_record hs]
    split
    · exact Function.update_of_ne hne ..
    · rfl
  | leave u =>
    rw [Tool.onSection, processUnlock_record hs]
    exact Function.update_of_ne hne ..

/-- The sections of the other threads stay. -/
theorem Sections.after_of_ne (o : Sections) {e : SectionEvent} {t : ℕ} (hne : t ≠ e.threadId) :
    o.after e t = o t := by
  cases e <;> exact Function.update_of_ne hne ..

end Event

/-! ### Sequences of events -/

/-- After the event the flag of its thread says whether the thread is in a watched section. -/
def RightlyRecorded (s : Tool) (o : Sections) (before : List SectionEvent) (e : SectionEvent) : Prop :=
  (s.onSections (before ++ [e])).record e.threadId = true ↔
    Watched s.callSite (openSections o (before ++ [e]) e.threadId)

instance (s : Tool) (o : Sections) (before : List SectionEvent) (e : SectionEvent) :
    Decidable (RightlyRecorded s o before e) := inferInstanceAs (Decidable (_ ↔ _))

/-- No watched section stays open when a section ends, and a thread that has had no event does not
    enter a section from another call site inside a watched one. -/
def Unspoilt (callSite : List (BitVec 64)) (o : Sections) (before : List SectionEvent) :
    SectionEvent → Prop
  | .leave t => ¬ Watched callSite (openSections o before t).tail
  | .enter a t => a ∈ callSite ∨ (∃ e ∈ before, e.threadId = t) ∨ ¬ Watched callSite (o t)

/-- The last section event comes last. -/
theorem onSections_append (s : Tool) (before : List SectionEvent) (e : SectionEvent) :
    s.onSections (before ++ [e]) = (s.onSections before).onSection e := by
  simp [Tool.onSections]

/-- The sections that are open after one event more. -/
theorem openSections_append (o : Sections) (before : List SectionEvent) (e : SectionEvent) :
    openSections o (before ++ [e]) = (openSections o before).after e := by
  simp [openSections]

/-- What holds of the flags after some rightly recorded events: that of a thread with an event is
    right, and another thread's is still clear. -/
structure Recording (s : Tool) (o : Sections) (before : List SectionEvent) : Prop where
  startProfile : (s.onSections before).startProfile = true
  callSite : (s.onSections before).callSite = s.callSite
  seen : ∀ t, (∃ e ∈ before, e.threadId = t) →
    ((s.onSections before).record t = true ↔ Watched s.callSite (openSections o before t))
  unseen : ∀ t, (¬ ∃ e ∈ before, e.threadId = t) →
    (s.onSections before).record t = false ∧ openSections o before t = o t

section Sequence

variable {s : Tool} {o : Sections} {before : List SectionEvent} {e : SectionEvent}

/-- Nothing has happened since the tool started. -/
theorem Recording.start (hs : Started s) : Recording s o [] where
  startProfile := hs.startProfile
  callSite := rfl
  seen t h := by simp at h
  unseen t _ := ⟨by rw [Tool.onSections, List.foldl_nil, hs.record], rfl⟩

/-- **One event**: it is recorded rightly when it does not spoil the flag, and only then. -/
theorem Recording.rightly_iff (h : Recording s o before) :
    RightlyRecorded s o before e ↔ Unspoilt s.callSite o before e := by
  rw [RightlyRecorded, onSections_append, openSections_append,
    onSection_record_self h.startProfile, h.callSite]
  cases e with
  | leave t =>
    simp only [Unspoilt, Sections.after, threadId_leave, Function.update_self]
    exact ⟨fun hiff hw => Bool.false_ne_true (hiff.mpr hw),
      fun hw => iff_of_false Bool.false_ne_true hw⟩
  | enter a t =>
    simp only [Unspoilt, Sections.after, threadId_enter, Function.update_self]
    have hwatched : Watched s.callSite (a :: openSections o before t) ↔
        a ∈ s.callSite ∨ Watched s.callSite (openSections o before t) := by
      simp [Watched]
    rw [hwatched, Bool.or_eq_true, decide_eq_true_eq]
    by_cases ha : a ∈ s.callSite
    · exact iff_of_true (iff_of_true (.inl ha) (.inl ha)) (.inl ha)
    simp only [ha, false_or]
    by_cases hseen : ∃ e ∈ before, e.threadId = t
    · exact iff_of_true (h.seen t hseen) (.inl hseen)
    · obtain ⟨hrecord, hopen⟩ := h.unseen t hseen
      rw [hrecord, hopen, or_iff_right hseen]
      exact ⟨fun hiff hw => Bool.false_ne_true (hiff.mpr hw),
        fun hw => iff_of_false Bool.false_ne_true hw⟩

/-- After a rightly recorded event the flags are as they should be. -/
theorem Recording.append (h : Recording s o before) (he : RightlyRecorded s o before e) :
    Recording s o (before ++ [e]) := by
  have hmem : ∀ t, t ≠ e.threadId →
      ((∃ e' ∈ before ++ [e], e'.threadId = t) ↔ ∃ e' ∈ before, e'.threadId = t) := by
    intro t ht
    simp [or_and_right, exists_or, Ne.symm ht]
  refine ⟨?_, ?_, fun t ht => ?_, fun t ht => ?_⟩
  · rw [onSections_append, onSection_startProfile, h.startProfile]
  · rw [onSections_append, onSection_callSite, h.callSite]
  · by_cases hself : t = e.threadId
    · rw [hself]
      exact he
    · rw [onSections_append, openSections_append, onSection_record_of_ne h.startProfile hself,
        Sections.after_of_ne _ hself]
      exact h.seen t ((hmem t hself).mp ht)
  · have hself : t ≠ e.threadId := by
      rintro rfl
      exact ht ⟨e, by simp, rfl⟩
    rw [onSections_append, openSections_append, onSection_record_of_ne h.startProfile hself,
      Sections.after_of_ne _ hself]
    exact h.unseen t fun hseen => ht ((hmem t hself).mpr hseen)

/-- Events of a kind that is rightly recorded, one after the other. -/
theorem recording_of_each (hs : Started s) {P : List SectionEvent → SectionEvent → Prop}
    (hP : ∀ before e, Recording s o before → P before e → RightlyRecorded s o before e)
    {es : List SectionEvent} (h : ∀ before e after, es = before ++ e :: after → P before e) :
    Recording s o es := by
  induction es using List.reverseRecOn with
  | nil => exact Recording.start hs
  | append_singleton es e ih =>
    have hbefore : Recording s o es := by
      refine ih fun before e' after heq => ?_
      exact h before e' (after ++ [e]) (by rw [heq]; simp)
    exact hbefore.append (hP es e hbefore (h es e [] rfl))

end Sequence

/-- **Recording.**  From the moment when `start_profile` is set, with any sections open, every event
    of a sequence leaves the flag of its thread saying whether the thread is in a watched section
    exactly when no section ends inside a watched one and no thread's first event is a lock from
    another call site inside a watched section. -/
theorem recording_exact {s : Tool} (hs : Started s) (o : Sections) (es : List SectionEvent) :
    (∀ before e after, es = before ++ e :: after → RightlyRecorded s o before e) ↔
      ∀ before e after, es = before ++ e :: after → Unspoilt s.callSite o before e := by
  constructor
  · intro h before e after heq
    refine (recording_of_each hs (fun _ _ _ he => he) fun before' e' after' heq' => ?_).rightly_iff.mp
      (h before e after heq)
    exact h before' e' (after' ++ e :: after) (by rw [heq, heq']; simp)
  · intro h before e after heq
    have hunspoilt : ∀ before e, Recording s o before → Unspoilt s.callSite o before e →
        RightlyRecorded s o before e := fun _ _ hbefore he => hbefore.rightly_iff.mpr he
    refine (recording_of_each hs hunspoilt fun before' e' after' heq' => ?_).rightly_iff.mpr
      (h before e after heq)
    exact h before' e' (after' ++ e :: after) (by rw [heq, heq']; simp)

/-- A second thread has started; call site 1 is watched. -/
def startedTool : Tool where
  totalThreads := 2
  callSite := [1]
  activeThreads := 2
  startProfile := true

/-- The tool has started. -/
theorem startedTool_started : Started startedTool :=
  ⟨2, [1], [], { totalThreads := 2, callSite := [1] }, 1, rfl, rfl, rfl, rfl⟩

/-- A watched section inside another one. -/
def watchedInside : List SectionEvent := [.enter 2 0, .enter 1 0, .leave 0]

/-- Every access of the run is recorded as it should be. -/
theorem recording_exact_watchedInside :
    Started startedTool ∧ ∀ before e after, watchedInside = before ++ e :: after →
      RightlyRecorded startedTool (fun _ => []) before e := by
  refine ⟨startedTool_started, (recording_exact startedTool_started _ _).mpr ?_⟩
  rintro (_ | ⟨e₀, _ | ⟨e₁, _ | ⟨e₂, before⟩⟩⟩) e after heq <;>
    simp only [watchedInside, List.nil_append, List.cons_append, List.cons.injEq] at heq
  · obtain ⟨rfl, -⟩ := heq
    exact .inr (.inr (by decide +kernel))
  · obtain ⟨rfl, rfl, -⟩ := heq
    exact .inl (by decide +kernel)
  · obtain ⟨rfl, rfl, rfl, -⟩ := heq
    show ¬ Watched [1] _
    decide +kernel
  · simp at heq

/-- A section that is not watched inside a watched one. -/
def insideWatched : List SectionEvent := [.enter 1 0, .enter 2 0, .leave 0]

/-- **The inner section ends, and the recording of the outer one with it.** -/
theorem insideWatched_not_recorded :
    Started startedTool ∧
      ¬ ∀ before e after, insideWatched = before ++ e :: after →
        RightlyRecorded startedTool (fun _ => []) before e := by
  refine ⟨startedTool_started, fun h => ?_⟩
  have hlast := h [.enter 1 0, .enter 2 0] (.leave 0) [] rfl
  revert hlast
  decide +kernel

end SyncPerf.SyncTrack
