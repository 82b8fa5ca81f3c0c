import SyncPerf.Coherence
import SyncPerf.Interleaving
import SyncPerf.Tpp

namespace SyncPerf.TppInit

open Interleaving Coherence

/-!
# The range of `SCHED_FIFO`

`tpp.c` keeps the range of `SCHED_FIFO` in `__sched_fifo_min_prio` and `__sched_fifo_max_prio`.
Both are -1 until a thread calls `__init_sched_fifo_prio`; any number of threads may do so, with
relaxed stores, while others read with relaxed loads.  `tppChangePriority` has the range as given;
here each load and store is a step of its own, and a load may return any value that coherence
allows.

* `Bound` — the two variables;
* `PC`, `next` — `__pthread_tpp_change_priority` with its loads and stores;
* `changes` — the calls of one thread, when the range is known;
* `ThreadInv`, `ThreadInv.step` — what a thread knows of the range;
* `next_change`, `next_other` — what a step does to the thread's own data;
* `changes_as_if_known` — every thread's calls do what they would do if the range were known.
-/

/-- `__sched_fifo_min_prio` and `__sched_fifo_max_prio`. -/
inductive Bound
  | min
  | max
  deriving DecidableEq

/-- Both variables start with -1. -/
def uninitialised : Bound → ℤ := fun _ => -1

/-- Where a thread stands in `__pthread_tpp_change_priority (previous, new)`; `fifoMin` and
    `fifoMax` are the values that it has loaded. -/
inductive PC
  | idle
  | loadMin (previous new : ℤ)
  | loadMax (previous new fifoMin : ℤ)
  | check (previous new fifoMin fifoMax : ℤ)
  | storeMax (previous new : ℤ)
  | storeMin (previous new : ℤ)
  | reloadMin (previous new : ℤ)
  | reloadMax (previous new fifoMin : ℤ)
  | change (previous new fifoMin fifoMax : ℤ)
  deriving DecidableEq

/-- A thread: its place, what it has seen of the two variables, its own data, and the values that
    its calls have returned (which no call reads). -/
structure Local where
  pc : PC := .idle
  view : View Bound := fun _ => 0
  prio : Prio := {}
  returned : List ℕ := []

/-- The two variables, and the assertion that ended the process, if one did. -/
structure Shared where
  memory : Memory Bound ℤ
  aborted : Option PrioAssert := none

/-- What happens next to a thread: a call, an access to the value of some time, or a step that has
    none.  The last step of a call gets the answers of the kernel and the C library. -/
inductive Action
  | call (previous new : ℤ)
  | access (t : ℕ)
  | run
  | change (S : Sched)

/-- What the kernel answers, with the range that the thread has read. -/
def withRange (S : Sched) (fifoMin fifoMax : ℤ) : Sched :=
  { S with fifoMinPrio := fifoMin, fifoMaxPrio := fifoMax }

/-- One step of a thread; `range` is what `sched_get_priority_min` and `sched_get_priority_max`
    return. -/
def next (range : Bound → ℤ) (a : Action) (l : Local) (s : Shared) : Option (Local × Shared) :=
  if s.aborted.isSome then none else
  match l.pc, a with
  | .idle, .call previous new => some ({ l with pc := .loadMin previous new }, s)
  -- the two loads at the start
  | .loadMin previous new, .access t =>
    (load s.memory l.view .min t).map fun r =>
      ({ l with pc := .loadMax previous new r.1, view := r.2 }, s)
  | .loadMax previous new fifoMin, .access t =>
    (load s.memory l.view .max t).map fun r =>
      ({ l with pc := .check previous new fifoMin r.1, view := r.2 }, s)
  -- `if (tpp == NULL)`, `if (fifo_min_prio == -1 || fifo_max_prio == -1)`
  | .check previous new fifoMin fifoMax, .run =>
    some ({ l with pc := if l.prio.tpp.isNone ∧ (fifoMin = -1 ∨ fifoMax = -1)
      then .storeMax previous new else .change previous new fifoMin fifoMax }, s)
  -- `__init_sched_fifo_prio`
  | .storeMax previous new, .access t =>
    (store s.memory l.view .max t (range .max)).map fun r =>
      ({ l with pc := .storeMin previous new, view := r.2 }, { s with memory := r.1 })
  | .storeMin previous new, .access t =>
    (store s.memory l.view .min t (range .min)).map fun r =>
      ({ l with pc := .reloadMin previous new, view := r.2 }, { s with memory := r.1 })
  | .reloadMin previous new, .access t =>
    (load s.memory l.view .min t).map fun r =>
      ({ l with pc := .reloadMax previous new r.1, view := r.2 }, s)
  | .reloadMax previous new fifoMin, .access t =>
    (load s.memory l.view .max t).map fun r =>
      ({ l with pc := .change previous new fifoMin r.1, view := r.2 }, s)
  -- the rest works on the thread's own data
  | .change previous new fifoMin fifoMax, .change S =>
    match tppChangePriority (withRange S fifoMin fifoMax) previous new l.prio with
    | .ok (code, prio) =>
      some ({ l with pc := .idle, prio := prio, returned := l.returned ++ [code] }, s)
    | .error x => some (l, { s with aborted := some x })
  | _, _ => none

/-- The threads over the two variables. -/
def system (ι : Type) (range : Bound → ℤ) : System ι Action Local Shared :=
  ⟨fun _ => next range⟩

/-! ### What the calls do when the range is known -/

/-- A call, with the answers that it got. -/
structure Call where
  previous : ℤ
  new : ℤ
  S : Sched

/-- One more call, with `range` for the range: the values returned so far, and the thread's data. -/
def changeNext (range : Bound → ℤ) (r : List ℕ × Prio) (call : Call) :
    Except PrioAssert (List ℕ × Prio) :=
  match tppChangePriority (withRange call.S (range .min) (range .max)) call.previous call.new
    r.2 with
  | .ok (code, prio) => .ok (r.1 ++ [code], prio)
  | .error x => .error x

/-- The calls of a thread, one after the other. -/
def changes (range : Bound → ℤ) (calls : List Call) (p : Prio) :
    Except PrioAssert (List ℕ × Prio) :=
  calls.foldlM (changeNext range) ([], p)

/-- The call that a step ends. -/
def callOf : PC → Action → Option Call
  | .change previous new _ _, .change S => some ⟨previous, new, S⟩
  | _, _ => none

variable {ι : Type} [DecidableEq ι]

/-- The calls of thread `i` that have ended, in order. -/
def ended (i : ι) (tr : List (Event ι Action Local Shared)) : List Call :=
  tr.filterMap fun x => if x.who = i then callOf (x.pre.loc i).pc x.act else none

/-! ### What a thread knows -/

section ThreadInv

variable {range : Bound → ℤ} {a : Action} {l l' : Local} {s s' : Shared}

/-- The thread reads what the kernel has answered. -/
def Local.Sees (range : Bound → ℤ) (l : Local) (b : Bound) : Prop :=
  Seen uninitialised range l.view b

/-- `v` was loaded from `b`: it is what the kernel has answered if it is not -1, and if the thread
    has its counters. -/
def Local.Loaded (range : Bound → ℤ) (l : Local) (b : Bound) (v : ℤ) : Prop :=
  l.prio.tpp ≠ none ∨ v ≠ -1 → v = range b ∧ l.Sees range b

/-- What a thread knows at its place. -/
def Local.Knows (range : Bound → ℤ) (l : Local) : Prop :=
  match l.pc with
  | .idle | .loadMin _ _ | .storeMax _ _ => True
  | .loadMax _ _ fifoMin => l.Loaded range .min fifoMin
  | .check _ _ fifoMin fifoMax => l.Loaded range .min fifoMin ∧ l.Loaded range .max fifoMax
  | .storeMin _ _ => l.Sees range .max
  | .reloadMin _ _ => l.Sees range .min ∧ l.Sees range .max
  | .reloadMax _ _ fifoMin => fifoMin = range .min ∧ l.Sees range .min ∧ l.Sees range .max
  | .change _ _ fifoMin fifoMax =>
    (fifoMin = range .min ∧ fifoMax = range .max) ∧ l.Sees range .min ∧ l.Sees range .max

/-- A thread that has its counters has seen the range. -/
structure ThreadInv (range : Bound → ℤ) (l : Local) : Prop where
  made : l.prio.tpp ≠ none → ∀ b, l.Sees range b
  knows : l.Knows range

/-- **A load** by a thread. -/
theorem load_loaded (hm : InitialisedTo uninitialised range s.memory) (hl : ThreadInv range l)
    {b : Bound} {t : ℕ} {v : ℤ} {view : View Bound}
    (h : load s.memory l.view b t = some (v, view)) (pc : PC) :
    ({ l with pc := pc, view := view } : Local).Loaded range b v ∧
      ∀ b', l.Sees range b' → ({ l with pc := pc, view := view } : Local).Sees range b' := by
  obtain ⟨hread, hmono⟩ := load_spec hm h
  refine ⟨fun hor => hread ?_, hmono⟩
  exact hor.elim (fun hmade => .inr (hmono b (hl.made hmade b))) .inl

/-- What was loaded before stays loaded. -/
theorem Local.Loaded.mono {b : Bound} {v : ℤ} {view : View Bound} {pc : PC}
    (h : l.Loaded range b v)
    (hmono : ∀ b', l.Sees range b' → ({ l with pc := pc, view := view } : Local).Sees range b') :
    ({ l with pc := pc, view := view } : Local).Loaded range b v :=
  fun hor => ⟨(h hor).1, hmono b (h hor).2⟩

/-- A thread that has seen the range loads it. -/
theorem load_sees (hm : InitialisedTo uninitialised range s.memory) {b : Bound} {t : ℕ} {v : ℤ}
    {view : View Bound} (hsees : l.Sees range b)
    (h : load s.memory l.view b t = some (v, view)) : v = range b := by
  obtain ⟨hread, hmono⟩ := load_spec hm h
  exact (hread (.inr (hmono b hsees))).1

/-- **Every step keeps what is known**, and only the range is stored. -/
theorem ThreadInv.step (hm : InitialisedTo uninitialised range s.memory) (hl : ThreadInv range l)
    (h : next range a l s = some (l', s')) :
    InitialisedTo uninitialised range s'.memory ∧ ThreadInv range l' := by
  have hknows := hl.knows
  unfold next at h
  split at h
  · exact absurd h (by simp)
  split at h
  · obtain ⟨rfl, rfl⟩ := Prod.mk.inj (Option.some.inj h)
    exact ⟨hm, hl.made, trivial⟩
  · next previous new t hpc =>
    obtain ⟨⟨v, view⟩, hload, heq⟩ := Option.map_eq_some_iff.mp h
    obtain ⟨rfl, rfl⟩ := Prod.mk.inj heq
    obtain ⟨hloaded, hmono⟩ := load_loaded hm hl hload (.loadMax previous new v)
    exact ⟨hm, fun hmade b => hmono b (hl.made hmade b), hloaded⟩
  · next previous new fifoMin t hpc =>
    obtain ⟨⟨v, view⟩, hload, heq⟩ := Option.map_eq_some_iff.mp h
    obtain ⟨rfl, rfl⟩ := Prod.mk.inj heq
    simp only [Local.Knows, hpc] at hknows
    obtain ⟨hloaded, hmono⟩ := load_loaded hm hl hload (.check previous new fifoMin v)
    exact ⟨hm, fun hmade b => hmono b (hl.made hmade b), hknows.mono hmono, hloaded⟩
  · next previous new fifoMin fifoMax hpc =>
    obtain ⟨rfl, rfl⟩ := Prod.mk.inj (Option.some.inj h)
    simp only [Local.Knows, hpc] at hknows
    refine ⟨hm, hl.made, ?_⟩
    split
    · trivial
    · -- the thread has its counters, or neither value is -1
      rename_i hcond
      have hboth : l.prio.tpp ≠ none ∨ fifoMin ≠ -1 ∧ fifoMax ≠ -1 := by
        by_contra hnot
        refine hcond ⟨?_, ?_⟩ <;> grind
      obtain ⟨hmin, hmax⟩ := hknows
      obtain ⟨rfl, hsmin⟩ := hmin (hboth.imp_right And.left)
      obtain ⟨rfl, hsmax⟩ := hmax (hboth.imp_right And.right)
      exact ⟨⟨rfl, rfl⟩, hsmin, hsmax⟩
  · next previous new t hpc =>
    obtain ⟨⟨m, view⟩, hstore, heq⟩ := Option.map_eq_some_iff.mp h
    obtain ⟨rfl, rfl⟩ := Prod.mk.inj heq
    obtain ⟨hm', hseen, hmono⟩ := store_spec hm hstore
    exact ⟨hm', fun hmade b => hmono b (hl.made hmade b), hseen⟩
  · next previous new t hpc =>
    obtain ⟨⟨m, view⟩, hstore, heq⟩ := Option.map_eq_some_iff.mp h
    obtain ⟨rfl, rfl⟩ := Prod.mk.inj heq
    simp only [Local.Knows, hpc] at hknows
    obtain ⟨hm', hseen, hmono⟩ := store_spec hm hstore
    exact ⟨hm', fun hmade b => hmono b (hl.made hmade b), hseen, hmono _ hknows⟩
  · next previous new t hpc =>
    obtain ⟨⟨v, view⟩, hload, heq⟩ := Option.map_eq_some_iff.mp h
    obtain ⟨rfl, rfl⟩ := Prod.mk.inj heq
    simp only [Local.Knows, hpc] at hknows
    have hmono := (load_spec hm hload).2
    exact ⟨hm, fun hmade b => hmono b (hl.made hmade b), load_sees hm hknows.1 hload,
      hmono _ hknows.1, hmono _ hknows.2⟩
  · next previous new fifoMin t hpc =>
    obtain ⟨⟨v, view⟩, hload, heq⟩ := Option.map_eq_some_iff.mp h
    obtain ⟨rfl, rfl⟩ := Prod.mk.inj heq
    simp only [Local.Knows, hpc] at hknows
    have hmono := (load_spec hm hload).2
    exact ⟨hm, fun hmade b => hmono b (hl.made hmade b),
      ⟨hknows.1, load_sees hm hknows.2.2 hload⟩, hmono _ hknows.2.1, hmono _ hknows.2.2⟩
  · next previous new fifoMin fifoMax S hpc =>
    simp only [Local.Knows, hpc] at hknows
    split at h <;> obtain ⟨rfl, rfl⟩ := Prod.mk.inj (Option.some.inj h)
    · exact ⟨hm, fun _ b => by cases b; exacts [hknows.2.1, hknows.2.2], trivial⟩
    · exact ⟨hm, hl⟩
  · exact absurd h (by simp)

/-- No step is taken after an assertion has failed. -/
theorem next_running (h : next range a l s = some (l', s')) : s.aborted = none := by
  unfold next at h
  split at h
  · exact absurd h (by simp)
  · rename_i hab
    simpa using hab

/-- The last step of a call does what it would do if the range were known. -/
theorem next_change (hl : ThreadInv range l) (h : next range a l s = some (l', s')) {call : Call}
    (hcall : callOf l.pc a = some call) :
    (changeNext range (l.returned, l.prio) call = .ok (l'.returned, l'.prio) ∧
        s'.aborted = none) ∨
      ∃ x, changeNext range (l.returned, l.prio) call = .error x ∧ s'.aborted = some x := by
  have hknows := hl.knows
  unfold callOf at hcall
  split at hcall
  · next previous new fifoMin fifoMax S hpc =>
    obtain rfl := Option.some.inj hcall
    simp only [Local.Knows, hpc] at hknows
    obtain ⟨⟨rfl, rfl⟩, -, -⟩ := hknows
    have hab := next_running h
    simp only [next, hab, hpc, Option.isSome_none, Bool.false_eq_true, if_false] at h
    split at h <;> obtain ⟨rfl, rfl⟩ := Prod.mk.inj (Option.some.inj h)
    · next code prio heq => exact .inl ⟨by simp [changeNext, heq], hab⟩
    · next x heq => exact .inr ⟨x, by simp [changeNext, heq], rfl⟩
  · exact absurd hcall (by simp)

/-- The other steps leave the thread's own data alone. -/
theorem next_other (h : next range a l s = some (l', s')) (hcall : callOf l.pc a = none) :
    l'.prio = l.prio ∧ l'.returned = l.returned ∧ s'.aborted = none := by
  have hab := next_running h
  unfold next at h
  rw [if_neg (by simp [hab])] at h
  split at h
  case h_9 previous new fifoMin fifoMax S hpc => exact absurd hcall (by simp [hpc, callOf])
  case h_10 => exact absurd h (by simp)
  case h_1 | h_4 =>
    obtain ⟨rfl, rfl⟩ := Prod.mk.inj (Option.some.inj h)
    exact ⟨rfl, rfl, hab⟩
  all_goals
    obtain ⟨r, -, heq⟩ := Option.map_eq_some_iff.mp h
    obtain ⟨rfl, rfl⟩ := Prod.mk.inj heq
    exact ⟨rfl, rfl, hab⟩

end ThreadInv

/-! ### Runs -/

/-- The last call comes last. -/
theorem changes_append_singleton (range : Bound → ℤ) (calls : List Call) (call : Call) (p : Prio) :
    changes range (calls ++ [call]) p = (changes range calls p).bind (changeNext range · call) := by
  unfold changes
  rw [List.foldlM_append]
  simp only [List.foldlM_cons, List.foldlM_nil, bind_pure]
  rfl

/-- The calls that have ended after one event more. -/
theorem ended_append_singleton (i : ι) (tr : List (Event ι Action Local Shared))
    (x : Event ι Action Local Shared) :
    ended i (tr ++ [x]) =
      ended i tr ++ (if x.who = i then callOf (x.pre.loc i).pc x.act else none).toList := by
  unfold ended
  rw [List.filterMap_append]
  cases h : (if x.who = i then callOf (x.pre.loc i).pc x.act else none) <;> simp [h]

/-- The start: nothing is stored, and no thread has called the function. -/
structure Initial (c : Config ι Local Shared) : Prop where
  memory : c.sh.memory = unwritten uninitialised
  aborted : c.sh.aborted = none
  pc : ∀ i, (c.loc i).pc = .idle
  tpp : ∀ i, (c.loc i).prio.tpp = none
  returned : ∀ i, (c.loc i).returned = []

/-- The threads' own data are what their calls make of them; and when the process ends, a call
    fails the assertion. -/
def AsIfKnown (range : Bound → ℤ) (c : Config ι Local Shared)
    (tr : List (Event ι Action Local Shared)) (d : Config ι Local Shared) : Prop :=
  match d.sh.aborted with
  | none => ∀ i, changes range (ended i tr) (c.loc i).prio =
      .ok ((d.loc i).returned, (d.loc i).prio)
  | some x => ∃ i, changes range (ended i tr) (c.loc i).prio = .error x

/-- **One step of one thread.** -/
theorem AsIfKnown.step {range : Bound → ℤ} {c d e : Config ι Local Shared}
    {tr : List (Event ι Action Local Shared)} {i : ι} {a : Action} (h : AsIfKnown range c tr d)
    (hl : ThreadInv range (d.loc i)) (hs : (system ι range).step d i a = some e) :
    AsIfKnown range c (tr ++ [⟨d, i, a⟩]) e := by
  obtain ⟨l', s', hnext, rfl⟩ := System.step_eq_some.mp hs
  have hab : d.sh.aborted = none := next_running hnext
  unfold AsIfKnown at h
  rw [hab] at h
  -- the calls of the other threads are the ones before
  have hother : ∀ j, j ≠ i → ended j (tr ++ [⟨d, i, a⟩]) = ended j tr := by
    intro j hj
    rw [ended_append_singleton, if_neg (Ne.symm hj)]
    exact List.append_nil _
  have hself := ended_append_singleton i tr ⟨d, i, a⟩
  rw [if_pos rfl] at hself
  have hnone : s'.aborted = none → changes range (ended i (tr ++ [⟨d, i, a⟩])) (c.loc i).prio =
      .ok (l'.returned, l'.prio) → AsIfKnown range c (tr ++ [⟨d, i, a⟩])
        ⟨Function.update d.loc i l', s'⟩ := by
    intro hab' hi
    unfold AsIfKnown
    rw [hab']
    refine forall_update (P := fun j (l : Local) => changes range (ended j _) (c.loc j).prio =
      .ok (l.returned, l.prio)) hi fun j hj => ?_
    rw [hother j hj]
    exact h j
  cases hcall : callOf (d.loc i).pc a with
  | none =>
    obtain ⟨hprio, hreturned, hab'⟩ := next_other hnext hcall
    refine hnone hab' ?_
    rw [hself, hcall, hprio, hreturned]
    simpa using h i
  | some call =>
    have hchange : changes range (ended i (tr ++ [⟨d, i, a⟩])) (c.loc i).prio =
        changeNext range ((d.loc i).returned, (d.loc i).prio) call := by
      rw [hself, hcall, Option.toList_some, changes_append_singleton, h i]
      rfl
    rcases next_change hl hnext hcall with ⟨hok, hab'⟩ | ⟨x, herr, hab'⟩
    · exact hnone hab' (hchange.trans hok)
    · unfold AsIfKnown
      simp only [hab']
      exact ⟨i, hchange.trans herr⟩

/-- **The range is used only once it is known.**  Whatever the loads and stores of the threads
    return within coherence, each thread's calls return what they would, and leave the thread's own
    data as they would, one after the other with the range given; and the process ends only when a
    call would fail its assertion then. -/
theorem changes_as_if_known {range : Bound → ℤ} {c d : Config ι Local Shared}
    {tr : List (Event ι Action Local Shared)} (h : Initial c)
    (hrun : Run (system ι range) c tr d) : AsIfKnown range c tr d := by
  refine (hrun.history (I := fun tr d => InitialisedTo uninitialised range d.sh.memory ∧
    (∀ i, ThreadInv range (d.loc i)) ∧ AsIfKnown range c tr d) ?_ ?_).2.2
  · refine ⟨?_, fun i => ⟨fun hmade => absurd (h.tpp i) hmade, ?_⟩, ?_⟩
    · rw [h.memory]
      exact initialisedTo_unwritten _ _
    · simp only [Local.Knows, h.pc i]
    · simp only [AsIfKnown, h.aborted]
      intro i
      rw [h.returned i]
      rfl
  · rintro tr d i a e ⟨hm, hl, hknown⟩ hs
    have hstep := hknown.step (hl i) hs
    obtain ⟨l', s', hnext, rfl⟩ := System.step_eq_some.mp hs
    obtain ⟨hm', hl'⟩ := (hl i).step hm hnext
    exact ⟨hm', forall_update (P := fun _ (l : Local) => ThreadInv range l) hl' fun j _ => hl j,
      hstep⟩

/-- `SCHED_FIFO` has the priorities 1 to 99. -/
def fifoRange : Bound → ℤ
  | .min => 1
  | .max => 99

/-- The scheduler calls succeed. -/
def quietSched : Sched where
  fifoMinPrio := 0
  fifoMaxPrio := 0
  calloc := true
  schedGetparam := .ok 0
  schedGetscheduler := .ok 1
  schedSetscheduler := fun _ _ => .ok ()

/-- Two threads that have not called yet. -/
def twoStart : Config Bool Local Shared where
  loc := fun _ => {}
  sh := { memory := unwritten uninitialised }

/-- Nobody has called. -/
theorem twoStart_initial : Initial twoStart :=
  ⟨rfl, rfl, fun _ => rfl, fun _ => rfl, fun _ => rfl⟩

/-- The second thread sees one of the two stores of the first, and stores the range as well. -/
def twoEnd := (system Bool fifoRange).execute twoStart
  [(false, .call (-1) 10), (false, .access 0), (false, .access 0), (false, .run),
    (false, .access 1), (true, .call (-1) 20), (true, .access 0), (true, .access 1), (true, .run),
    (true, .access 2), (false, .access 1), (true, .access 2), (false, .access 1),
    (false, .access 2), (true, .access 2), (true, .access 2), (false, .change quietSched),
    (true, .change quietSched)]
  (by decide +kernel)

/-- The first callers do as if the range had been known. -/
theorem changes_as_if_known_two :
    AsIfKnown fifoRange twoStart twoEnd.1 twoEnd.2 ∧ (twoEnd.2.loc true).returned = [0] :=
  ⟨changes_as_if_known twoStart_initial (System.execute_run _ _ _ _), by decide +kernel⟩

end SyncPerf.TppInit
