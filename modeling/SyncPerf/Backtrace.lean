import Mathlib.Logic.Function.Iterate
import SyncPerf.CallSites

namespace SyncPerf.Backtrace

open CallSites

/-!
# The row that `do_backtrace` writes

`do_backtrace` follows the frame pointers of a thread and writes the return addresses that it finds
into a row, of which it only knows the size.  The frames are whatever the memory of the program has:
a chain may be cyclic, or lead out of the stack.

* `Walk`, `skipFrames`, `collectFrames`, `doBacktrace` — the function, with what it reads and
  writes;
* `collectFrames_spec`, `doBacktrace_spec` — what the second loop and the whole function leave in
  the row;
* `doBacktrace_writeStack` — the row is what `CallSites.writeStack` makes of it;
* `Chain`, `omits_last_iff` — when only the frame before `main` is left out.
-/

/-! ### The function -/

/-- The locals of `do_backtrace`, and the row `stacks` that it writes.  `followed` are the frames
    that were read, and `written` the places of the row that were written. -/
structure Walk where
  row : ℕ → BitVec 64
  found : ℕ := 0
  currentFrame : ℕ
  followed : List ℕ := []
  written : List ℕ := []

namespace Walk

/-- `current_frame` is dereferenced. -/
def read (w : Walk) : Walk := { w with followed := w.followed ++ [w.currentFrame] }

/-- `current_frame = current_frame->prev`. -/
def next (s : Stack) (w : Walk) : Walk := { w with currentFrame := (s.frame w.currentFrame).prev }

/-- `stacks[i] = a`. -/
def store (w : Walk) (i : ℕ) (a : BitVec 64) : Walk :=
  { w with row := Function.update w.row i a, written := w.written ++ [i] }

/-- `stacks[found++] = current_frame->caller_address`, and on to the previous frame. -/
def collect (s : Stack) (w : Walk) : Walk :=
  ({ w.store w.found (s.frame w.currentFrame).callerAddress with found := w.found + 1 }).next s

/-- "Omit the stack-frame before main": `if (found > 1) found--`. -/
def omitMain (w : Walk) : Walk := if w.found > 1 then { w with found := w.found - 1 } else w

end Walk

/-- The first loop. -/
def skipFrames (s : Stack) : ℕ → Walk → Walk
  | 0, w => w
  | n + 1, w => if s.outside w.currentFrame then w else skipFrames s n (w.read.next s)

/-- The second loop. -/
def collectFrames (s : Stack) : ℕ → Walk → Walk
  | 0, w => w
  | n + 1, w =>
    if s.outside w.currentFrame then w
    else if (s.frame w.currentFrame).callerAddress = 0 ∨
        w.currentFrame = (s.frame w.currentFrame).prev then w.read
    else if w.currentFrame &&& 0x01 ≠ 0 then w.read
    else collectFrames s n (w.read.collect s)

/-- `do_backtrace`, from its own frame on; `found` is the value returned. -/
def doBacktrace (s : Stack) (size currentFrame : ℕ) (row : ℕ → BitVec 64) : Walk :=
  let w := skipFrames s 2 { row := row, currentFrame := currentFrame }
  let w := (collectFrames s size w).omitMain
  w.store w.found 0

/-! ### The chain of frames -/

section Chain

variable (s : Stack)

/-- The frame that is `k` frames up. -/
def ancestor (k currentFrame : ℕ) : ℕ := (fun f => (s.frame f).prev)^[k] currentFrame

/-- One frame further. -/
theorem ancestor_succ (k currentFrame : ℕ) :
    ancestor s (k + 1) currentFrame = ancestor s k (s.frame currentFrame).prev :=
  Function.iterate_succ_apply ..

/-- Several frames further. -/
theorem ancestor_add (j k currentFrame : ℕ) :
    ancestor s (j + k) currentFrame = ancestor s j (ancestor s k currentFrame) :=
  Function.iterate_add_apply ..

/-- A frame that the second loop collects. -/
structure Collectable (f : ℕ) : Prop where
  inside : ¬ s.outside f
  caller : (s.frame f).callerAddress ≠ 0
  prev : f ≠ (s.frame f).prev
  aligned : f &&& 0x01 = 0

instance (f : ℕ) : Decidable (Collectable s f) :=
  decidable_of_iff (¬ s.outside f ∧ (s.frame f).callerAddress ≠ 0 ∧ f ≠ (s.frame f).prev ∧
      f &&& 0x01 = 0)
    ⟨fun h => ⟨h.1, h.2.1, h.2.2.1, h.2.2.2⟩, fun h => ⟨h.inside, h.caller, h.prev, h.aligned⟩⟩

variable {s}

/-- A frame that can be read is collected. -/
theorem collect_of_collectable {f : ℕ} (h : Collectable s f) (n : ℕ) :
    s.collect (n + 1) f = (s.frame f).callerAddress :: s.collect n (s.frame f).prev := by
  rw [Stack.collect, if_neg h.inside, if_neg (not_or.mpr ⟨h.caller, h.prev⟩),
    if_neg (not_not.mpr h.aligned)]

/-- At any other frame the walk ends. -/
theorem collect_of_not_collectable {f : ℕ} (h : ¬ Collectable s f) (n : ℕ) :
    s.collect n f = [] := by
  cases n with
  | zero => rfl
  | succ n =>
    rw [Stack.collect]
    split
    · rfl
    · split
      · rfl
      · split
        · rfl
        · rename_i hinside hcaller haligned
          obtain ⟨hcaller, hprev⟩ := not_or.mp hcaller
          exact absurd ⟨hinside, hcaller, hprev, not_not.mp haligned⟩ h

/-- The addresses that are collected are those of consecutive frames. -/
theorem collect_get {n f k : ℕ} (h : k < (s.collect n f).length) :
    (s.collect n f)[k] = (s.frame (ancestor s k f)).callerAddress := by
  induction n generalizing f k with
  | zero => exact absurd h (Nat.not_lt_zero k)
  | succ n ih =>
    by_cases hf : Collectable s f
    · simp only [collect_of_collectable hf] at h ⊢
      cases k with
      | zero => rfl
      | succ k =>
        rw [ancestor_succ, List.getElem_cons_succ]
        exact ih (Nat.lt_of_succ_lt_succ h)
    · simp only [collect_of_not_collectable hf] at h
      exact absurd h (Nat.not_lt_zero k)

/-- The loop ends with the first frame that it cannot collect, or with its bound. -/
theorem collect_length_eq {n m f : ℕ} (hframes : ∀ k < m, Collectable s (ancestor s k f))
    (hend : ¬ Collectable s (ancestor s m f)) : (s.collect n f).length = min n m := by
  induction n generalizing m f with
  | zero => exact (Nat.zero_min m).symm
  | succ n ih =>
    cases m with
    | zero =>
      have hf : ¬ Collectable s f := hend
      rw [collect_of_not_collectable hf]
      rfl
    | succ m =>
      have hf : Collectable s f := hframes 0 m.succ_pos
      rw [collect_of_collectable hf, List.length_cons]
      rw [ancestor_succ] at hend
      rw [ih (fun k hk => ?_) hend]
      · omega
      · rw [← ancestor_succ]
        exact hframes (k + 1) (Nat.succ_lt_succ hk)

/-- Unless the first loop has left the stack, it has skipped that many frames. -/
theorem skip_eq_ancestor (n f : ℕ) :
    s.outside (s.skip n f) ∨ s.skip n f = ancestor s n f := by
  induction n generalizing f with
  | zero => exact .inr rfl
  | succ n ih =>
    rw [Stack.skip]
    split
    · rename_i houtside
      exact .inl houtside
    · rw [ancestor_succ]
      exact ih _

end Chain

/-! ### What the loops do -/

section Loops

variable {s : Stack} {w : Walk}

/-- The frames that were read are all in the stack. -/
def Walk.Inside (s : Stack) (w : Walk) : Prop := ∀ f ∈ w.followed, ¬ s.outside f

/-- The walk stays inside the stack. -/
theorem Walk.Inside.read (h : w.Inside s) (hf : ¬ s.outside w.currentFrame) :
    w.read.Inside s := by
  intro f hmem
  rcases List.mem_append.mp hmem with hmem | hmem
  · exact h f hmem
  · rw [List.mem_singleton.mp hmem]
    exact hf

/-- The first loop writes nothing. -/
theorem skipFrames_spec (n : ℕ) (hw : w.Inside s) :
    (skipFrames s n w).Inside s ∧ (skipFrames s n w).row = w.row ∧
      (skipFrames s n w).found = w.found ∧ (skipFrames s n w).written = w.written ∧
      (skipFrames s n w).currentFrame = s.skip n w.currentFrame := by
  induction n generalizing w with
  | zero => exact ⟨hw, rfl, rfl, rfl, rfl⟩
  | succ n ih =>
    rw [skipFrames, Stack.skip]
    split
    · exact ⟨hw, rfl, rfl, rfl, rfl⟩
    · rename_i hf
      have hnext : (w.read.next s).Inside s := hw.read hf
      exact ih hnext

/-- What the second loop has done when the addresses `l` were collected: they stand behind those
    that were there, and no other place of the row was written. -/
structure Collected (s : Stack) (w : Walk) (l : List (BitVec 64)) (r : Walk) : Prop where
  inside : r.Inside s
  found : r.found = w.found + l.length
  written : r.written = w.written ++ List.range' w.found l.length
  stored : ∀ k (h : k < l.length), r.row (w.found + k) = l[k]
  unchanged : ∀ j, j < w.found ∨ w.found + l.length ≤ j → r.row j = w.row j

/-- The loop stops at once. -/
theorem Collected.nil {r : Walk} (hinside : r.Inside s) (hfound : r.found = w.found)
    (hwritten : r.written = w.written) (hrow : r.row = w.row) : Collected s w [] r where
  inside := hinside
  found := hfound
  written := by rw [hwritten, List.length_nil, List.range'_zero, List.append_nil]
  stored k h := absurd h (Nat.not_lt_zero k)
  unchanged j _ := by rw [hrow]

/-- One address, and then the others. -/
theorem Collected.cons {a : BitVec 64} {l : List (BitVec 64)} {w' r : Walk}
    (hrow : w'.row = Function.update w.row w.found a) (hfound : w'.found = w.found + 1)
    (hwritten : w'.written = w.written ++ [w.found]) (h : Collected s w' l r) :
    Collected s w (a :: l) r where
  inside := h.inside
  found := by
    rw [h.found, hfound, List.length_cons]
    omega
  written := by
    rw [h.written, hwritten, hfound, List.append_assoc, List.length_cons, List.range'_succ]
    rfl
  stored k hk := by
    cases k with
    | zero =>
      rw [h.unchanged _ (.inl (by omega)), hrow]
      exact Function.update_self ..
    | succ k =>
      have hstored := h.stored k (Nat.lt_of_succ_lt_succ hk)
      rw [hfound] at hstored
      rw [List.getElem_cons_succ, ← hstored]
      congr 1
      omega
  unchanged j hj := by
    rw [List.length_cons] at hj
    rw [h.unchanged j (by omega), hrow, Function.update_of_ne (by omega)]

/-- **The second loop** collects the callers of `Stack.collect`. -/
theorem collectFrames_spec (n : ℕ) (hw : w.Inside s) :
    Collected s w (s.collect n w.currentFrame) (collectFrames s n w) := by
  induction n generalizing w with
  | zero => exact .nil hw rfl rfl rfl
  | succ n ih =>
    rw [collectFrames, Stack.collect]
    split
    · exact .nil hw rfl rfl rfl
    · rename_i hf
      split
      · exact .nil (hw.read hf) rfl rfl rfl
      · split
        · exact .nil (hw.read hf) rfl rfl rfl
        · have hnext : (w.read.collect s).Inside s := hw.read hf
          exact .cons rfl rfl rfl (ih hnext)

end Loops

/-! ### What is left in the row -/

/-- The trim takes one frame away, if there are two. -/
theorem omitLast_length (l : List (BitVec 64)) :
    (omitLast l).length = if l.length > 1 then l.length - 1 else l.length := by
  unfold omitLast
  split
  · exact List.length_dropLast
  · rfl

/-- It takes it away at the end. -/
theorem omitLast_isPrefix (l : List (BitVec 64)) : omitLast l <+: l := by
  unfold omitLast
  split
  · exact List.dropLast_prefix l
  · exact List.prefix_rfl

/-- The row after a walk that has collected `l`, of which one was left out, and the zero behind
    them. -/
structure Left (s : Stack) (l : List (BitVec 64)) (row : ℕ → BitVec 64) (r : Walk) : Prop where
  inside : r.Inside s
  found : r.found = (omitLast l).length
  stored : ∀ k (h : k < (omitLast l).length), r.row k = (omitLast l)[k]
  ended : r.row r.found = 0
  written : r.written = List.range' 0 l.length ++ [r.found]
  unchanged : ∀ j, j ∉ r.written → r.row j = row j

/-- The last address is left out, and the row is ended. -/
theorem Collected.left {s : Stack} {w r : Walk} {l : List (BitVec 64)} {row : ℕ → BitVec 64}
    (h : Collected s w l r) (hfound : w.found = 0) (hwritten : w.written = [])
    (hrow : w.row = row) :
    Left s l row (r.omitMain.store r.omitMain.found 0) := by
  have hr : r.found = l.length := by rw [h.found, hfound, Nat.zero_add]
  have homit : r.omitMain.found = (omitLast l).length := by
    rw [omitLast_length, Walk.omitMain, hr]
    split
    · rfl
    · exact hr
  have hsame : r.omitMain.row = r.row ∧ r.omitMain.written = r.written ∧
      r.omitMain.followed = r.followed := by
    unfold Walk.omitMain
    split <;> exact ⟨rfl, rfl, rfl⟩
  obtain ⟨hsameRow, hsameWritten, hsameFollowed⟩ := hsame
  have hplaces : r.written = List.range' 0 l.length := by
    rw [h.written, hwritten, hfound, List.nil_append]
  refine ⟨?_, homit, fun k hk => ?_, Function.update_self .., ?_, fun j hj => ?_⟩
  · intro f hf
    exact h.inside f (hsameFollowed ▸ hf)
  · have hlt := hk.trans_le (omitLast_sublist l).length_le
    have hne : k ≠ r.omitMain.found := by omega
    show Function.update r.omitMain.row r.omitMain.found 0 k = _
    rw [Function.update_of_ne hne, hsameRow, (omitLast_isPrefix l).getElem hk, ← h.stored k hlt,
      hfound, Nat.zero_add]
  · show r.omitMain.written ++ [r.omitMain.found] = _
    rw [hsameWritten, hplaces]
    rfl
  · have hmem : j ∉ r.omitMain.written ++ [r.omitMain.found] := hj
    rw [hsameWritten, hplaces, List.mem_append, not_or, List.mem_range'_1, List.mem_singleton]
      at hmem
    show Function.update r.omitMain.row r.omitMain.found 0 j = _
    rw [Function.update_of_ne hmem.2, hsameRow, h.unchanged j (by omega), hrow]

/-- **`do_backtrace`** leaves the callers that the two loops of `Stack` find. -/
theorem doBacktrace_spec (s : Stack) (size currentFrame : ℕ) (row : ℕ → BitVec 64) :
    Left s (s.collect size (s.skip 2 currentFrame)) row (doBacktrace s size currentFrame row) := by
  have hstart : Walk.Inside s { row := row, currentFrame := currentFrame } :=
    fun f hf => absurd hf List.not_mem_nil
  obtain ⟨hinside, hrow, hfound, hwritten, hframe⟩ := skipFrames_spec 2 hstart
  have hcollected := collectFrames_spec size hinside
  rw [hframe] at hcollected
  exact hcollected.left hfound hwritten hrow

/-- The row of a slot is the one that `add_new_context` is said to write. -/
theorem doBacktrace_writeStack (s : Stack) (currentFrame : ℕ) {slot : List (BitVec 64)}
    (hslot : slot.length = maxCallStackDepth + 1) :
    (List.range slot.length).map
        (doBacktrace s maxCallStackDepth currentFrame fun j => slot.getD j 0).row =
      writeStack slot (CallSites.doBacktrace s currentFrame) := by
  obtain ⟨b, hb⟩ : ∃ b, b = CallSites.doBacktrace s currentFrame := ⟨_, rfl⟩
  obtain ⟨l, hl⟩ : ∃ l, l = s.collect maxCallStackDepth (s.skip 2 currentFrame) := ⟨_, rfl⟩
  have hcallers : omitLast l = b.callers := by
    rw [hb, hl]
    rfl
  have hlength := omitLast_length l
  have hleft := doBacktrace_spec s maxCallStackDepth currentFrame fun j => slot.getD j 0
  rw [← hl] at hleft
  rw [← hb]
  generalize doBacktrace s maxCallStackDepth currentFrame (fun j => slot.getD j 0) = r at hleft ⊢
  have hfound := hleft.found
  have hstored := hleft.stored
  simp only [hcallers] at hlength hfound hstored
  have hwrite := writeStack_length hslot b
  simp only [writeStack] at hwrite ⊢
  refine List.ext_getElem ?_ fun j hj hj' => ?_
  · rw [List.length_map, List.length_range, hwrite]
  · rw [List.length_map, List.length_range] at hj
    rw [List.getElem_map, List.getElem_range]
    rcases lt_trichotomy j b.callers.length with hlt | rfl | hgt
    · rw [List.getElem_append_left hlt, hstored j hlt]
    · rw [List.getElem_append_right le_rfl]
      simp only [Nat.sub_self, List.getElem_cons_zero]
      rw [← hfound, hleft.ended]
    · -- at most one address was left out, so that nothing behind the zero was written
      have hnot : j ∉ r.written := by
        rw [hleft.written, List.mem_append, not_or, List.mem_range'_1, List.mem_singleton, hfound]
        split at hlength <;> omega
      obtain ⟨d, rfl⟩ := Nat.exists_eq_add_of_lt hgt
      rw [hleft.unchanged _ hnot, List.getD_eq_getElem?_getD, List.getElem?_eq_getElem hj,
        Option.getD_some, List.getElem_append_right (by omega)]
      simp only [Nat.add_assoc, Nat.add_sub_cancel_left, List.getElem_cons_succ, List.getElem_drop]
      congr 1
      omega

/-! ### Chains of frames -/

/-- The stack has `n` frames after the two that are skipped; the chain ends with the `n`-th. -/
structure Chain (s : Stack) (currentFrame n : ℕ) : Prop where
  skipped : ∀ k < 2, ¬ s.outside (ancestor s k currentFrame)
  frames : ∀ k < n, Collectable s (ancestor s (k + 2) currentFrame)
  ended : ¬ Collectable s (ancestor s (n + 2) currentFrame)

/-- The row has the callers of the first `k` of these frames, and is ended behind them. -/
structure Records (s : Stack) (currentFrame k : ℕ) (r : Walk) : Prop where
  found : r.found = k
  callers : ∀ i < k, r.row i = (s.frame (ancestor s (i + 2) currentFrame)).callerAddress
  ended : r.row k = 0

/-- A stack that does not end at once is the one above the frames that were skipped. -/
theorem skip_of_found {s : Stack} {size currentFrame : ℕ}
    (h : s.collect size (s.skip 2 currentFrame) ≠ []) :
    s.skip 2 currentFrame = ancestor s 2 currentFrame := by
  refine (skip_eq_ancestor 2 currentFrame).resolve_left fun houtside => ?_
  exact h (collect_of_not_collectable (fun hf => hf.inside houtside) size)

/-- The row has the callers of as many frames as were found. -/
theorem Left.records {s : Stack} {size currentFrame : ℕ} {row : ℕ → BitVec 64} {r : Walk}
    (h : Left s (s.collect size (s.skip 2 currentFrame)) row r) :
    Records s currentFrame r.found r := by
  refine ⟨rfl, fun i hi => ?_, h.ended⟩
  have hlt : i < (omitLast (s.collect size (s.skip 2 currentFrame))).length := h.found ▸ hi
  have hlt' := hlt.trans_le (omitLast_isPrefix _).length_le
  have hskip : s.skip 2 currentFrame = ancestor s 2 currentFrame :=
    skip_of_found (List.ne_nil_of_length_pos (Nat.zero_lt_of_lt hlt'))
  rw [h.stored i hlt, (omitLast_isPrefix _).getElem hlt, collect_get hlt', hskip, ancestor_add]

/-- **Which frames are left out.**  Of a chain of `n` frames the callers of all but the last one are
    recorded, as far as they fit, exactly when there is room for the last one, too. -/
theorem omits_last_iff {s : Stack} {currentFrame n size : ℕ} (hchain : Chain s currentFrame n)
    (hn : 2 ≤ n) (hsize : 2 ≤ size) (row : ℕ → BitVec 64) :
    Records s currentFrame (min size (n - 1)) (doBacktrace s size currentFrame row) ↔ n ≤ size := by
  have hleft := doBacktrace_spec s size currentFrame row
  have hfirst : ¬ s.outside currentFrame := hchain.skipped 0 (by decide)
  have hsecond : ¬ s.outside (s.frame currentFrame).prev := hchain.skipped 1 (by decide)
  have hskip : s.skip 2 currentFrame = ancestor s 2 currentFrame := by
    rw [Stack.skip, if_neg hfirst, Stack.skip, if_neg hsecond]
    rfl
  have hcollected : (s.collect size (s.skip 2 currentFrame)).length = min size n := by
    rw [hskip]
    refine collect_length_eq (fun k hk => ?_) ?_
    · rw [← ancestor_add]
      exact hchain.frames k hk
    · rw [← ancestor_add]
      exact hchain.ended
  have hfound := hleft.found
  rw [omitLast_length, hcollected, if_pos (by omega)] at hfound
  constructor
  · intro h
    have heq := h.found
    omega
  · intro hle
    have hmin : min size (n - 1) = (doBacktrace s size currentFrame row).found := by omega
    rw [hmin]
    exact hleft.records

/-- A stack from address 16 to address `16 * top`, with a frame every 16 bytes. -/
def evenStack (top : ℕ) : Stack where
  frame f := ⟨f + 16, BitVec.ofNat 64 (f + 1)⟩
  stackTop := 16
  libcStackEnd := 16 * top

/-- The frames of the sample stack make a chain. -/
theorem evenStack_chain {n : ℕ} (h : n < 8) : Chain (evenStack (n + 2)) 16 n where
  skipped := by decide +revert
  frames := by decide +revert
  ended := by decide +revert

/-- Three frames, of which the walk omits the last. -/
theorem omits_last_iff_three :
    Records (evenStack 5) 16 2 (doBacktrace (evenStack 5) 6 16 fun _ => 0) := by
  have hchain : Chain (evenStack 5) 16 3 := evenStack_chain (by decide)
  have hroom : 3 ≤ 6 := by decide
  exact (omits_last_iff hchain (by decide) ((by decide : 2 ≤ 3).trans hroom) _).mpr hroom

/-- **A deep stack**: of seven frames one that fits is left out, and it is not the last one. -/
theorem sevenFrames_five :
    Chain (evenStack 9) 16 7 ∧
      (doBacktrace (evenStack 9) maxCallStackDepth 16 fun _ => 0).found = 5 ∧
      ¬ Records (evenStack 9) 16 (min maxCallStackDepth (7 - 1))
        (doBacktrace (evenStack 9) maxCallStackDepth 16 fun _ => 0) := by
  have hfound : (doBacktrace (evenStack 9) maxCallStackDepth 16 fun _ => 0).found = 5 := by decide
  refine ⟨evenStack_chain (by decide), hfound, fun h => ?_⟩
  have heq := h.found
  rw [hfound] at heq
  exact absurd heq (by decide)

end SyncPerf.Backtrace
