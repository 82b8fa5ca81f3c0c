import Mathlib.Algebra.BigOperators.Ring.Finset
import SyncPerf.SyncTrack

namespace SyncPerf.SyncTrack

open MapTotals

/-!
# The sharing report

`doMemAccess` keeps one thread id and one count for an address.  After any history of accesses they
say which threads have accessed it, and how often.

* `Access`, `accesses` — a history, and the map that it leaves;
* `SharedIn` — two threads have accessed the address;
* `Tracks`, `Tracks.access` — what the map has to do with the history, and that an access keeps it;
* `sharing_report_exact` — the returned flags, the entries and the two totals.
-/

/-- A call of `doMemAccess`. -/
structure Access where
  addr : BitVec 64
  thread : ℕ
  deriving DecidableEq

/-- The map after a history of accesses. -/
def accesses (totalThreads : ℕ) (h : List Access) : MemAccessMap :=
  h.foldl (fun m x => (doMemAccess totalThreads x.addr x.thread m).2) ∅

/-- Two threads at least have accessed the address. -/
def SharedIn (h : List Access) (a : BitVec 64) : Prop :=
  ∃ x ∈ h, ∃ y ∈ h, x.addr = a ∧ y.addr = a ∧ x.thread ≠ y.thread

instance (h : List Access) (a : BitVec 64) : Decidable (SharedIn h a) :=
  inferInstanceAs (Decidable (∃ x ∈ h, ∃ y ∈ h, _ ∧ _))

/-- Thread `t` has accessed the address, and no other thread has. -/
def OnlyBy (h : List Access) (a : BitVec 64) (t : ℕ) : Prop :=
  (∃ x ∈ h, x.addr = a) ∧ ∀ x ∈ h, x.addr = a → x.thread = t

theorem OnlyBy.not_sharedIn {h : List Access} {a : BitVec 64} {t : ℕ} (honly : OnlyBy h a t) :
    ¬ SharedIn h a := by
  rintro ⟨x, hx, y, hy, hxa, hya, hne⟩
  exact hne ((honly.2 x hx hxa).trans (honly.2 y hy hya).symm)

/-- The accesses of an address in a history. -/
def accessesOf (h : List Access) (a : BitVec 64) : ℕ := h.countP fun x => x.addr = a

/-! ### What an access does to the history -/

section History

variable {h : List Access} {x : Access} {a : BitVec 64}

theorem sharedIn_append_of_ne (hne : x.addr ≠ a) : SharedIn (h ++ [x]) a ↔ SharedIn h a := by
  constructor
  · rintro ⟨y, hy, z, hz, hya, hza, hyz⟩
    have hin : ∀ w ∈ h ++ [x], w.addr = a → w ∈ h := by
      intro w hw hwa
      rcases List.mem_append.mp hw with hw | hw
      · exact hw
      · exact absurd (List.mem_singleton.mp hw ▸ hwa) hne
    exact ⟨y, hin y hy hya, z, hin z hz hza, hya, hza, hyz⟩
  · rintro ⟨y, hy, z, hz, hyz⟩
    exact ⟨y, List.mem_append_left _ hy, z, List.mem_append_left _ hz, hyz⟩

theorem onlyBy_append_of_ne (hne : x.addr ≠ a) {t : ℕ} : OnlyBy (h ++ [x]) a t ↔ OnlyBy h a t := by
  simp [OnlyBy, hne, or_and_right, exists_or, or_imp, forall_and]

/-- A shared address stays shared. -/
theorem SharedIn.append (hs : SharedIn h a) (x : Access) : SharedIn (h ++ [x]) a := by
  obtain ⟨y, hy, z, hz, hyz⟩ := hs
  exact ⟨y, List.mem_append_left _ hy, z, List.mem_append_left _ hz, hyz⟩

/-- A second thread makes an address shared. -/
theorem OnlyBy.append_other {t : ℕ} (ho : OnlyBy h x.addr t) (hne : t ≠ x.thread) :
    SharedIn (h ++ [x]) x.addr := by
  obtain ⟨⟨y, hy, hya⟩, hall⟩ := ho
  exact ⟨y, List.mem_append_left _ hy, x, by simp, hya, rfl, by rw [hall y hy hya]; exact hne⟩

/-- The one thread of an address accesses it again. -/
theorem OnlyBy.append_self (ho : OnlyBy h x.addr x.thread) : OnlyBy (h ++ [x]) x.addr x.thread := by
  obtain ⟨⟨y, hy, hya⟩, hall⟩ := ho
  refine ⟨⟨y, List.mem_append_left _ hy, hya⟩, fun z hz hza => ?_⟩
  rcases List.mem_append.mp hz with hz | hz
  · exact hall z hz hza
  · rw [List.mem_singleton.mp hz]

end History

/-! ### What the map has to do with the history -/

/-- The map has the addresses of the history, with the number of their accesses and with the thread
    that has accessed them, or `total_threads` when there are more. -/
structure Tracks (totalThreads : ℕ) (h : List Access) (m : MemAccessMap) : Prop where
  mem : ∀ a, a ∈ m.keys ↔ ∃ x ∈ h, x.addr = a
  count : ∀ a it, m.lookup a = some it → it.accessCount = (accessesOf h a : BitVec 32)
  owner : ∀ a it, m.lookup a = some it →
    it.threadId = totalThreads ∧ SharedIn h a ∨
      it.threadId < totalThreads ∧ OnlyBy h a it.threadId

theorem Tracks.empty (totalThreads : ℕ) : Tracks totalThreads [] ∅ where
  mem a := by simp
  count a it hit := by simp at hit
  owner a it hit := by simp at hit

section Tracks

variable {totalThreads : ℕ} {h : List Access} {m : MemAccessMap}

/-- An access of `x` leaves a map in which only the entry of its address is new. -/
theorem Tracks.insert (hm : Tracks totalThreads h m) {x : Access} {owner : ℕ}
    (howner : owner = totalThreads ∧ SharedIn (h ++ [x]) x.addr ∨
      owner < totalThreads ∧ OnlyBy (h ++ [x]) x.addr owner) :
    Tracks totalThreads (h ++ [x])
      (m.insert x.addr ⟨owner, (accessesOf h x.addr : BitVec 32) + 1⟩) := by
  refine ⟨fun a => ?_, fun a it hit => ?_, fun a it hit => ?_⟩
  · rw [keys_insert, Finset.mem_insert, hm.mem a]
    simp [or_and_right, exists_or, or_comm, eq_comm]
  · by_cases ha : a = x.addr
    · subst ha
      rw [Finmap.lookup_insert] at hit
      obtain rfl := Option.some.inj hit
      simp [accessesOf]
    · rw [Finmap.lookup_insert_of_ne m ha] at hit
      rw [hm.count a it hit]
      simp [accessesOf, Ne.symm ha]
  · by_cases ha : a = x.addr
    · subst ha
      rw [Finmap.lookup_insert] at hit
      obtain rfl := Option.some.inj hit
      exact howner
    · rw [Finmap.lookup_insert_of_ne m ha] at hit
      rw [sharedIn_append_of_ne (Ne.symm ha), onlyBy_append_of_ne (Ne.symm ha)]
      exact hm.owner a it hit

/-- **One access**: the flag says whether the address is shared now, and the map goes on tracking
    the history. -/
theorem Tracks.access (hm : Tracks totalThreads h m) {x : Access} (hx : x.thread < totalThreads) :
    ((doMemAccess totalThreads x.addr x.thread m).1 = true ↔ SharedIn (h ++ [x]) x.addr) ∧
      Tracks totalThreads (h ++ [x]) (doMemAccess totalThreads x.addr x.thread m).2 := by
  cases hit : m.lookup x.addr with
  | none =>
    have hnew : ∀ y ∈ h, y.addr ≠ x.addr := by
      intro y hy heq
      exact Finmap.lookup_eq_none.mp hit (Finmap.mem_keys.mp ((hm.mem _).mpr ⟨y, hy, heq⟩))
    have honly : OnlyBy (h ++ [x]) x.addr x.thread := by
      refine ⟨⟨x, by simp, rfl⟩, fun y hy hya => ?_⟩
      rcases List.mem_append.mp hy with hy | hy
      · exact absurd hya (hnew y hy)
      · rw [List.mem_singleton.mp hy]
    have hzero : accessesOf h x.addr = 0 := by
      simpa [accessesOf, List.countP_eq_zero] using hnew
    have hkeep := hm.insert (.inr ⟨hx, honly⟩)
    rw [hzero] at hkeep
    rw [doMemAccess_new hit]
    exact ⟨iff_of_false Bool.false_ne_true honly.not_sharedIn, hkeep⟩
  | some it =>
    rw [doMemAccess_old hit, hm.count _ it hit]
    split
    · rename_i hforeign
      -- the address is shared already, or this is its second thread
      have hshared : SharedIn (h ++ [x]) x.addr := by
        rcases hm.owner _ it hit with ⟨-, hs⟩ | ⟨hlt, ho⟩
        · exact hs.append x
        · exact ho.append_other (hforeign.resolve_left hlt.ne)
      exact ⟨iff_of_true rfl hshared, hm.insert (.inl ⟨rfl, hshared⟩)⟩
    · rename_i hown
      obtain ⟨hne, hthread⟩ := not_or.mp hown
      have hthread := not_not.mp hthread
      have honly : OnlyBy (h ++ [x]) x.addr x.thread := by
        rcases hm.owner _ it hit with ⟨heq, -⟩ | ⟨-, ho⟩
        · exact absurd heq hne
        · rw [hthread] at ho
          exact ho.append_self
      exact ⟨iff_of_false Bool.false_ne_true honly.not_sharedIn, hm.insert (.inr ⟨hx, honly⟩)⟩

end Tracks

/-! ### Histories -/

theorem accesses_append (totalThreads : ℕ) (h : List Access) (x : Access) :
    accesses totalThreads (h ++ [x]) =
      (doMemAccess totalThreads x.addr x.thread (accesses totalThreads h)).2 := by
  simp [accesses]

/-- **Every history** is tracked. -/
theorem tracks_accesses {totalThreads : ℕ} {h : List Access}
    (hlt : ∀ x ∈ h, x.thread < totalThreads) :
    Tracks totalThreads h (accesses totalThreads h) := by
  induction h using List.reverseRecOn with
  | nil => exact Tracks.empty totalThreads
  | append_singleton h x ih =>
    rw [accesses_append]
    exact ((ih fun y hy => hlt y (List.mem_append_left _ hy)).access (hlt x (by simp))).2

/-- The total of all accesses is their number. -/
theorem total_accesses (totalThreads : ℕ) (h : List Access) :
    total MemTrack.accessCount (accesses totalThreads h) = (h.length : BitVec 32) := by
  induction h using List.reverseRecOn with
  | nil => rfl
  | append_singleton h x ih =>
    rw [accesses_append, doMemAccess_total, ih]
    simp

/-- The total of the shared addresses is the number of accesses of them. -/
theorem Tracks.total_shared {totalThreads : ℕ} {h : List Access} {m : MemAccessMap}
    (hm : Tracks totalThreads h m) :
    total (MemTrack.sharedCount totalThreads) m =
      (h.countP (fun x => SharedIn h x.addr) : BitVec 32) := by
  have hentry : ∀ a ∈ m.keys, (m.lookup a).elim 0 (MemTrack.sharedCount totalThreads) =
      if SharedIn h a then (accessesOf h a : BitVec 32) else 0 := by
    intro a ha
    obtain ⟨it, hit⟩ := Finmap.mem_iff.mp (Finmap.mem_keys.mp ha)
    rw [hit, Option.elim_some, MemTrack.sharedCount, hm.count a it hit]
    rcases hm.owner a it hit with ⟨heq, hs⟩ | ⟨hlt, ho⟩
    · rw [if_pos heq, if_pos hs]
    · rw [if_neg hlt.ne, if_neg ho.not_sharedIn]
  have hkeys : (fun x : Access => decide (x.addr ∈ m.keys.filter (SharedIn h))) =
      fun x => decide (x.addr ∈ m.keys) && decide (SharedIn h x.addr) := by
    funext x
    simp
  calc total (MemTrack.sharedCount totalThreads) m
      = ∑ a ∈ m.keys, if SharedIn h a then (accessesOf h a : BitVec 32) else 0 :=
        Finset.sum_congr rfl hentry
    _ = ((∑ a ∈ m.keys.filter (SharedIn h), accessesOf h a : ℕ) : BitVec 32) := by
        rw [Nat.cast_sum, Finset.sum_filter]
    _ = (h.countP (fun x => x.addr ∈ m.keys.filter (SharedIn h)) : BitVec 32) := by
        rw [← sum_countP_fiber]
        rfl
    _ = (h.countP (fun x => SharedIn h x.addr) : BitVec 32) := by
        rw [hkeys]
        congr 1
        refine List.countP_congr fun x hx => ?_
        simp [(hm.mem x.addr).mpr ⟨x, hx, rfl⟩]

/-- **The sharing report.**  After every history of accesses by threads below `total_threads`: each
    call returned whether two threads had accessed its address by then, an address has an entry when
    it was accessed, with the id of its one thread or with `total_threads`, and the totals are the
    number of accesses and the number of accesses of shared addresses. -/
theorem sharing_report_exact (totalThreads : ℕ) (h : List Access)
    (hlt : ∀ x ∈ h, x.thread < totalThreads) :
    (∀ before x after, h = before ++ x :: after →
      ((doMemAccess totalThreads x.addr x.thread (accesses totalThreads before)).1 = true ↔
        SharedIn (before ++ [x]) x.addr)) ∧
    (∀ a, a ∈ accesses totalThreads h ↔ ∃ x ∈ h, x.addr = a) ∧
    (∀ a it, (accesses totalThreads h).lookup a = some it →
      (∀ t, OnlyBy h a t → it.threadId = t) ∧
      ((∀ t, ¬ OnlyBy h a t) → it.threadId = totalThreads)) ∧
    ∀ s : Tool, s.totalThreads = totalThreads → s.memAccessMap = accesses totalThreads h →
      (fini s).memAccess = (h.length : BitVec 32) ∧
      (fini s).sharedAccess = (h.countP (fun x => SharedIn h x.addr) : BitVec 32) := by
  have hm := tracks_accesses hlt
  refine ⟨?_, fun a => ?_, fun a it hit => ⟨fun t ho => ?_, fun hnone => ?_⟩,
    ?_⟩
  · rintro before x after rfl
    have hbefore : ∀ y ∈ before, y.thread < totalThreads :=
      fun y hy => hlt y (List.mem_append_left _ hy)
    exact ((tracks_accesses hbefore).access (hlt x (by simp))).1
  · rw [← Finmap.mem_keys]
    exact hm.mem a
  · rcases hm.owner a it hit with ⟨-, hs⟩ | ⟨-, ho'⟩
    · exact absurd hs ho.not_sharedIn
    · obtain ⟨⟨x, hx, hxa⟩, hall⟩ := ho
      exact (ho'.2 x hx hxa).symm.trans (hall x hx hxa)
  · rcases hm.owner a it hit with ⟨heq, -⟩ | ⟨-, ho⟩
    · exact heq
    · exact absurd ho (hnone _)
  · rintro s rfl hmap
    simp only [fini, hmap]
    exact ⟨total_accesses _ h, hm.total_shared⟩

/-- Two threads access address 8, and one of them address 16. -/
def sampleHistory : List Access := [⟨8, 0⟩, ⟨16, 1⟩, ⟨8, 1⟩]

/-- The tool after those accesses. -/
def sampleTool : Tool where
  totalThreads := 2
  callSite := []
  memAccessMap := accesses 2 sampleHistory

theorem sharing_report_exact_sample :
    (fini sampleTool).memAccess = 3 ∧ (fini sampleTool).sharedAccess = 2 :=
  (sharing_report_exact 2 sampleHistory (by decide)).2.2.2 sampleTool rfl rfl

end SyncPerf.SyncTrack
