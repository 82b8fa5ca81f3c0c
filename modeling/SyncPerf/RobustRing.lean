import Mathlib.Data.List.Nodup
import SyncPerf.RobustList

namespace SyncPerf.RobustList

open LinkedRing

/-!
# The pointers of a list of robust mutexes

An enqueue and a dequeue store four pointers each.  Forward, from the head that the kernel knows,
the list can be read between any two of these stores; backward it cannot.

* `Ring` — the list of a thread, in both directions;
* `EnqueuePC.LinksOk`, `DequeuePC.LinksOk` — what the pointers look like before each store;
* `enqueueStep_ok`, `dequeueStep_ok` — a store finds its pointers, and leaves what the next needs;
* `Stage.LinksOk.forward`, `Stage.LinksOk.congr` — reading the list, and stores to other lists.
-/

variable {ι M : Type}

/-! ### Rings -/

/-- The node that `__next` leads to. -/
def Links.nextNode (s : Links ι M) (n : Node ι M) : Option (Node ι M) := (s.next n).map Link.node

/-- The node that `__prev` leads to. -/
def Links.prevNode (s : Links ι M) (n : Node ι M) : Option (Node ι M) := (s.prev n).map Link.node

section Update

variable [DecidableEq ι] [DecidableEq M]

/-- A store to a `__next`, as the next nodes have it. -/
@[simp] theorem nextNode_setNext (s : Links ι M) (n : Node ι M) (v : Option (Link ι M)) :
    (s.setNext n v).nextNode = Function.update s.nextNode n (v.map Link.node) := by
  funext k
  by_cases h : k = n <;> simp [Links.nextNode, Links.setNext, Function.update, h]

/-- A store to a `__prev` leaves the next nodes alone. -/
@[simp] theorem nextNode_setPrev (s : Links ι M) (n : Node ι M) (v : Option (Link ι M)) :
    (s.setPrev n v).nextNode = s.nextNode := rfl

/-- A store to a `__prev`, as the previous nodes have it. -/
@[simp] theorem prevNode_setPrev (s : Links ι M) (n : Node ι M) (v : Option (Link ι M)) :
    (s.setPrev n v).prevNode = Function.update s.prevNode n (v.map Link.node) := by
  funext k
  by_cases h : k = n <;> simp [Links.prevNode, Links.setPrev, Function.update, h]

/-- A store to a `__next` leaves the previous nodes alone. -/
@[simp] theorem prevNode_setNext (s : Links ι M) (n : Node ι M) (v : Option (Link ι M)) :
    (s.setNext n v).prevNode = s.prevNode := rfl

end Update

/-- The list of thread `i` has the mutexes `L`, in both directions. -/
structure Ring (i : ι) (L : List M) (s : Links ι M) : Prop where
  next : NextSeg s.nextNode (.head i) (L.map .mutex) (.head i)
  prev : PrevSeg s.prevNode (.head i) (L.map .mutex) (.head i)

/-- The pointers before a store of an enqueue of `m`: forward, the list is still `L`; backward, it
    begins with `m` after the first store. -/
def EnqueuePC.LinksOk (i : ι) (m : M) (L : List M) (s : Links ι M) : EnqueuePC → Prop
  | .nextPrev => Ring i L s
  | .next =>
    NextSeg s.nextNode (.head i) (L.map .mutex) (.head i) ∧
      PrevSeg s.prevNode (.mutex m) (L.map .mutex) (.head i)
  | .prev =>
    NextSeg s.nextNode (.head i) (L.map .mutex) (.head i) ∧
      PrevSeg s.prevNode (.mutex m) (L.map .mutex) (.head i) ∧
      NextSeg s.nextNode (.mutex m) (L.map .mutex) (.head i)
  | .list =>
    NextSeg s.nextNode (.head i) (L.map .mutex) (.head i) ∧
      PrevSeg s.prevNode (.mutex m) (L.map .mutex) (.head i) ∧
      NextSeg s.nextNode (.mutex m) (L.map .mutex) (.head i) ∧
      s.prevNode (.mutex m) = some (.head i)

/-- The pointers before a store of a dequeue of `m`: backward, it is gone after the first store,
    and forward after the second one. -/
def DequeuePC.LinksOk (i : ι) (m : M) (L : List M) (s : Links ι M) : DequeuePC → Prop
  | .nextPrev => Ring i L s ∧ m ∈ L
  | .prevNext =>
    NextSeg s.nextNode (.head i) (L.map .mutex) (.head i) ∧
      ∃ l l', L = l ++ m :: l' ∧
        PrevSeg s.prevNode (.head i) ((l ++ l').map .mutex) (.head i) ∧
        s.prevNode (.mutex m) = some (last (.head i) (l.map .mutex))
  | .prev | .next => Ring i L s ∧ m ∉ L

/-- The pointers of the thread's list, wherever it is. -/
def Stage.LinksOk (i : ι) (L : List M) (s : Links ι M) : Stage M → Prop
  | .trylock m (.enqueue e _) => e.LinksOk i m L s
  | .unlock m (.dequeue e _) => e.LinksOk i m L s
  | _ => Ring i L s

/-- Forward, the list can be read at every moment. -/
theorem Stage.LinksOk.forward {i : ι} {L : List M} {s : Links ι M} {st : Stage M}
    (h : st.LinksOk i L s) : NextSeg s.nextNode (.head i) (L.map .mutex) (.head i) := by
  unfold Stage.LinksOk at h
  split at h
  next m e _ =>
    cases e with
    | nextPrev => exact h.next
    | next | prev | list => exact h.1
  next m e _ =>
    cases e with
    | nextPrev | prev | next => exact h.1.next
    | prevNext => exact h.1
  next => exact h.next

/-- The pointers of a node are the same. -/
def SameAt (s s' : Links ι M) (n : Node ι M) : Prop := s'.next n = s.next n ∧ s'.prev n = s.prev n

/-! ### The stores -/

section Stores

variable [DecidableEq ι] [DecidableEq M] {i : ι} {m : M} {L : List M} {s : Links ι M}

/-- Nothing is stored but in the head, the mutexes on the list, and the one that is enqueued or
    dequeued. -/
def Beside (i : ι) (m : M) (L : List M) (s s' : Links ι M) : Prop :=
  ∀ n, n ≠ .head i → n ≠ .mutex m → n ∉ L.map Node.mutex → SameAt s s' n

/-- A store to a `__next` of the list or the mutex. -/
theorem beside_setNext {n : Node ι M} {v : Option (Link ι M)}
    (hn : n = .head i ∨ n = .mutex m ∨ n ∈ L.map Node.mutex) :
    Beside i m L s (s.setNext n v) := by
  intro k hk hkm hkL
  refine ⟨Function.update_of_ne ?_ .., rfl⟩
  rintro rfl
  rcases hn with h | h | h
  · exact hk h
  · exact hkm h
  · exact hkL h

/-- A store to a `__prev` of the list or the mutex. -/
theorem beside_setPrev {n : Node ι M} {v : Option (Link ι M)}
    (hn : n = .head i ∨ n = .mutex m ∨ n ∈ L.map Node.mutex) :
    Beside i m L s (s.setPrev n v) := by
  intro k hk hkm hkL
  refine ⟨rfl, Function.update_of_ne ?_ ..⟩
  rintro rfl
  rcases hn with h | h | h
  · exact hk h
  · exact hkm h
  · exact hkL h

omit [DecidableEq ι] [DecidableEq M] in
/-- The nodes of a ring are distinct, its head on either side. -/
theorem nodup_nodes (h : L.Nodup) :
    (L.map (.mutex : M → Node ι M) ++ [Node.head i]).Nodup ∧
      ((.head i : Node ι M) :: L.map Node.mutex).Nodup := by
  have hmap : (L.map Node.mutex : List (Node ι M)).Nodup := h.map fun _ _ heq => by injection heq
  constructor
  · rw [List.nodup_append]
    exact ⟨hmap, by simp, by simp⟩
  · exact List.nodup_cons.mpr ⟨by simp, hmap⟩

omit [DecidableEq ι] [DecidableEq M] in
/-- A pointer is not null when it leads somewhere. -/
theorem link_of_node {o : Option (Link ι M)} {n : Node ι M} (h : o.map Link.node = some n) :
    ∃ b, o = some ⟨n, b⟩ := by
  obtain ⟨lk, rfl, rfl⟩ := Option.map_eq_some_iff.mp h
  exact ⟨lk.bit, rfl⟩

/-- **A store of an enqueue** finds its pointers and leaves what the next one needs; with the last
    one the mutex is on the list. -/
theorem enqueueStep_ok {e : EnqueuePC} (h : e.LinksOk i m L s) (hL : L.Nodup) (hm : m ∉ L) :
    ∃ s', enqueueStep i m false e s = some s' ∧ Beside i m L s s' ∧
      match e.succ with
      | some e' => e'.LinksOk i m L s'
      | none => Ring i (m :: L) s' := by
  have hmem : (.mutex m : Node ι M) ∉ L.map Node.mutex := by simpa using hm
  cases e with
  | nextPrev =>
    obtain ⟨b, hb⟩ := link_of_node h.next.next_eq
    refine ⟨_, by simp only [enqueueStep, hb, Option.map_some]; rfl, beside_setPrev ?_, h.next, ?_⟩
    · have hfirst := first_mem (l := (L.map Node.mutex : List (Node ι M))) (b := .head i)
      rcases List.mem_append.mp hfirst with hf | hf
      · exact .inr (.inr hf)
      · exact .inl (List.mem_singleton.mp hf)
    · rw [prevNode_setPrev]
      exact h.prev.insert (nodup_nodes hL).1
  | next =>
    refine ⟨_, rfl, beside_setNext (.inr (.inl rfl)), ?_, h.2, ?_⟩
    · rw [nextNode_setNext]
      exact h.1.update (by simpa using hm)
    · rw [nextNode_setNext]
      exact h.1.start hmem
  | prev =>
    refine ⟨_, rfl, beside_setPrev (.inr (.inl rfl)), h.1, ?_, h.2.2, ?_⟩
    · rw [prevNode_setPrev]
      exact h.2.1.update (by simpa using hm)
    · simp
  | list =>
    refine ⟨_, rfl, beside_setNext (.inl rfl), ?_, h.2.2.2, h.2.1⟩
    rw [nextNode_setNext]
    exact h.2.2.1.insert (by simp)

/-- The list after a store of a dequeue. -/
def DequeuePC.listAfter (m : M) (L : List M) : DequeuePC → List M
  | .prevNext => L.erase m
  | _ => L

/-- **A store of a dequeue**, in the same way; with the second one the mutex is off the list. -/
theorem dequeueStep_ok {e : DequeuePC} (h : e.LinksOk i m L s) (hL : L.Nodup) :
    ∃ s', dequeueStep m e s = some s' ∧ Beside i m L s s' ∧
      match e.succ with
      | some e' => e'.LinksOk i m (e.listAfter m L) s'
      | none => Ring i L s' := by
  cases e with
  | nextPrev =>
    obtain ⟨hring, hmem⟩ := h
    obtain ⟨l, l', rfl⟩ := List.append_of_mem hmem
    obtain ⟨hnext, hprev⟩ := hring
    have hnd := (nodup_nodes (i := i) hL).1
    rw [List.map_append, List.map_cons] at hnext hprev hnd
    obtain ⟨b, hb⟩ := link_of_node (nextSeg_append.mp hnext).2.next_eq
    have hlast := (prevSeg_append.mp hprev).1.prev_last
    have hfirst := first_mem (l := (l'.map Node.mutex : List (Node ι M))) (b := .head i)
    refine ⟨_, by simp only [dequeueStep, hb, Option.map_some]; rfl, beside_setPrev ?_, ?_,
      l, l', rfl, ?_, ?_⟩
    · rcases List.mem_append.mp hfirst with hf | hf
      · exact .inr (.inr (by simp only [List.map_append, List.map_cons]; simp [hf]))
      · exact .inl (List.mem_singleton.mp hf)
    · rw [nextNode_setPrev]
      simpa only [DequeuePC.listAfter, List.map_append, List.map_cons] using hnext
    · rw [prevNode_setPrev, List.map_append]
      exact hprev.remove hnd
    · rw [prevNode_setPrev, Function.update_of_ne]
      · exact hlast
      · intro heq
        rw [← heq] at hfirst
        rw [List.append_assoc, List.cons_append, List.nodup_append] at hnd
        exact (List.nodup_cons.mp hnd.2.1).1 hfirst
  | prevNext =>
    obtain ⟨hnext, l, l', rfl, hprev, hlast⟩ := h
    have hml : m ∉ l ∧ m ∉ l' := by
      rw [List.nodup_append] at hL
      refine ⟨fun hmem => hL.2.2 m hmem m (by simp) rfl, (List.nodup_cons.mp hL.2.1).1⟩
    have hnd := (nodup_nodes (i := i) hL).2
    rw [List.map_append, List.map_cons] at hnext hnd
    obtain ⟨b, hb⟩ := link_of_node hlast
    have herase : (l ++ m :: l').erase m = l ++ l' := by
      rw [List.erase_append_right _ hml.1, List.erase_cons_head]
    refine ⟨_, by simp only [dequeueStep, hb, Option.map_some]; rfl, beside_setNext ?_, ?_⟩
    · have hmem := last_mem (a := (.head i : Node ι M)) (l := l.map Node.mutex)
      rcases List.mem_cons.mp hmem with hmem | hmem
      · exact .inl hmem
      · exact .inr (.inr (by simp only [List.map_append, List.map_cons]; simp [hmem]))
    · simp only [DequeuePC.succ, DequeuePC.listAfter, herase]
      refine ⟨⟨?_, hprev⟩, by simp [hml]⟩
      rw [nextNode_setNext, List.map_append]
      exact hnext.remove hnd
  | prev =>
    obtain ⟨hring, hm⟩ := h
    refine ⟨_, rfl, beside_setPrev (.inr (.inl rfl)), ⟨hring.next, ?_⟩, hm⟩
    rw [prevNode_setPrev]
    exact hring.prev.update (by simpa using hm)
  | next =>
    obtain ⟨hring, hm⟩ := h
    refine ⟨_, rfl, beside_setNext (.inr (.inl rfl)), ?_, hring.prev⟩
    rw [nextNode_setNext]
    exact hring.next.update (by simpa using hm)

end Stores

/-! ### Stores to other lists -/

/-- The nodes that a thread with list `L` goes through: its head, the mutexes on the list, and the
    one that it enqueues or dequeues. -/
def Stage.nodes (i : ι) (L : List M) (st : Stage M) (n : Node ι M) : Prop :=
  n = .head i ∨ n ∈ L.map Node.mutex ∨
    (∃ m e rest, st = .trylock m (.enqueue e rest) ∧ n = .mutex m) ∨
    ∃ m e rest, st = .unlock m (.dequeue e rest) ∧ n = .mutex m

section Congr

variable {i : ι} {m : M} {L : List M} {s s' : Links ι M}

/-- A chain of nodes whose pointers are the same. -/
theorem nextSeg_congr {a b : Node ι M} {l : List (Node ι M)} (h : NextSeg s.nextNode a l b)
    (heq : ∀ n ∈ a :: l, SameAt s s' n) : NextSeg s'.nextNode a l b :=
  h.congr fun n hn => congrArg (Option.map Link.node) (heq n hn).1

/-- The same backwards. -/
theorem prevSeg_congr {a b : Node ι M} {l : List (Node ι M)} (h : PrevSeg s.prevNode a l b)
    (heq : ∀ n ∈ l ++ [b], SameAt s s' n) : PrevSeg s'.prevNode a l b :=
  h.congr fun n hn => congrArg (Option.map Link.node) (heq n hn).2

/-- A ring whose pointers are the same. -/
theorem Ring.congr (h : Ring i L s) (hhead : SameAt s s' (.head i))
    (hlist : ∀ n ∈ L.map Node.mutex, SameAt s s' n) : Ring i L s' where
  next := nextSeg_congr h.next (List.forall_mem_cons.mpr ⟨hhead, hlist⟩)
  prev := prevSeg_congr h.prev (List.forall_mem_append.mpr ⟨hlist, by simpa using hhead⟩)

/-- A ring in the middle of an enqueue whose pointers are the same. -/
theorem EnqueuePC.LinksOk.congr {e : EnqueuePC} (h : e.LinksOk i m L s)
    (hhead : SameAt s s' (.head i)) (hlist : ∀ n ∈ L.map Node.mutex, SameAt s s' n)
    (hm : SameAt s s' (.mutex m)) : e.LinksOk i m L s' := by
  have hforth : ∀ n ∈ (.head i : Node ι M) :: L.map Node.mutex, SameAt s s' n :=
    List.forall_mem_cons.mpr ⟨hhead, hlist⟩
  have hback : ∀ n ∈ L.map (.mutex : M → Node ι M) ++ [Node.head i], SameAt s s' n :=
    List.forall_mem_append.mpr ⟨hlist, by simpa using hhead⟩
  have hstart : ∀ n ∈ (.mutex m : Node ι M) :: L.map Node.mutex, SameAt s s' n :=
    List.forall_mem_cons.mpr ⟨hm, hlist⟩
  cases e with
  | nextPrev => exact Ring.congr h hhead hlist
  | next => exact ⟨nextSeg_congr h.1 hforth, prevSeg_congr h.2 hback⟩
  | prev =>
    exact ⟨nextSeg_congr h.1 hforth, prevSeg_congr h.2.1 hback, nextSeg_congr h.2.2 hstart⟩
  | list =>
    refine ⟨nextSeg_congr h.1 hforth, prevSeg_congr h.2.1 hback, nextSeg_congr h.2.2.1 hstart, ?_⟩
    exact (congrArg (Option.map Link.node) hm.2).trans h.2.2.2

/-- A ring in the middle of a dequeue whose pointers are the same. -/
theorem DequeuePC.LinksOk.congr {e : DequeuePC} (h : e.LinksOk i m L s)
    (hhead : SameAt s s' (.head i)) (hlist : ∀ n ∈ L.map Node.mutex, SameAt s s' n)
    (hm : SameAt s s' (.mutex m)) : e.LinksOk i m L s' := by
  cases e with
  | nextPrev | prev | next => exact ⟨h.1.congr hhead hlist, h.2⟩
  | prevNext =>
    obtain ⟨hnext, l, l', rfl, hprev, hlast⟩ := h
    refine ⟨nextSeg_congr hnext (List.forall_mem_cons.mpr ⟨hhead, hlist⟩), l, l', rfl,
      prevSeg_congr hprev (List.forall_mem_append.mpr ⟨fun n hn => hlist n ?_,
        by simpa using hhead⟩), (congrArg (Option.map Link.node) hm.2).trans hlast⟩
    rw [List.map_append, List.mem_append] at hn
    rw [List.map_append, List.map_cons]
    rcases hn with hn | hn
    · exact List.mem_append_left _ hn
    · exact List.mem_append_right _ (List.mem_cons_of_mem _ hn)

/-- **Stores elsewhere.**  A thread's pointers do not notice them. -/
theorem Stage.LinksOk.congr {st : Stage M} (h : st.LinksOk i L s)
    (hsame : ∀ n, st.nodes i L n → SameAt s s' n) : st.LinksOk i L s' := by
  have hhead : SameAt s s' (.head i) := hsame _ (.inl rfl)
  have hlist : ∀ n ∈ L.map Node.mutex, SameAt s s' n := fun n hn => hsame n (.inr (.inl hn))
  unfold Stage.LinksOk at h ⊢
  split at h
  next m e rest =>
    exact EnqueuePC.LinksOk.congr h hhead hlist
      (hsame _ (.inr (.inr (.inl ⟨m, e, rest, rfl, rfl⟩))))
  next m e rest =>
    exact DequeuePC.LinksOk.congr h hhead hlist
      (hsame _ (.inr (.inr (.inr ⟨m, e, rest, rfl, rfl⟩))))
  next => exact Ring.congr h hhead hlist

end Congr

end SyncPerf.RobustList
