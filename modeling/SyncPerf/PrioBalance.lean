import SyncPerf.PrioNesting

namespace SyncPerf.PrioProtect

open Interleaving Calls

/-!
# Priority protection is balanced

The words of any number of priority-protect mutexes and the counters of any number of threads, over
every run.

* `Words`, `Words.effect` — words, owners and holders, under the effect of a step;
* `ProtectAttr`, `mutexInit_protect` — the mutexes that the run begins with;
* `Inv`, `Inv.step` — the invariant of all threads and all mutexes;
* `Balanced`, `prio_protect_balanced` — what follows for a thread that is in no call.
-/

/-! ### All threads and all mutexes -/

variable {ι M : Type}

/-- The words and the owners of the mutexes, `held` telling what each thread holds. -/
structure Words (id : ι → ℕ) (ceil : M → ℕ) (held : ι → Finset M) (sh : M → MutexData) : Prop where
  lock : ∀ n, ∃ b ≤ 2, (sh n).lock = ceilvalOf (ceil n) + b ∧ (b ≠ 0 ↔ ∃ t, n ∈ held t)
  unique : ∀ n t u, n ∈ held t → n ∈ held u → t = u
  owner : ∀ n t, (sh n).owner = id t → n ∈ held t

namespace Words

variable {id : ι → ℕ} {ceil : M → ℕ} {held : ι → Finset M} {sh : M → MutexData} {t : ι} {n : M}

/-- What a thread sees of a mutex. -/
theorem view (hW : Words id ceil held sh) (t : ι) (n : M) :
    View ceil (id t) n (held t) (sh n) := by
  obtain ⟨b, hb, hlock, hiff⟩ := hW.lock n
  exact ⟨⟨b, hb, hlock, fun h0 hmem => hiff.mpr ⟨t, hmem⟩ h0⟩, hW.owner n t⟩

variable [DecidableEq M] {held' : Finset M} {m' : MutexData}

/-- A step on one mutex is about no other one. -/
theorem effect_mem (he : Effect ceil (id t) n (held t) held' (sh n) m') {n' : M} (hne : n' ≠ n) :
    n' ∈ held' ↔ n' ∈ held t := by
  cases he with
  | same hheld => rw [hheld]
  | mark hheld => rw [hheld]
  | take hheld => rw [hheld, Finset.mem_insert, or_iff_right hne]
  | give hmem hheld => rw [hheld, Finset.mem_erase, and_iff_right hne]

variable [DecidableEq ι]

/-- Who holds the mutex `n` after a step on it, with the word and the owner field. -/
theorem effect_self (hW : Words id ceil held sh)
    (he : Effect ceil (id t) n (held t) held' (sh n) m') (hinj : Function.Injective id)
    (hid : ∀ t, 0 < id t) :
    (∃ b ≤ 2, m'.lock = ceilvalOf (ceil n) + b ∧
      (b ≠ 0 ↔ ∃ u, n ∈ Function.update held t held' u)) ∧
    (∀ u v, n ∈ Function.update held t held' u → n ∈ Function.update held t held' v → u = v) ∧
    ∀ u, m'.owner = id u → n ∈ Function.update held t held' u := by
  obtain ⟨b, hb, hlock, hiff⟩ := hW.lock n
  cases he with
  | same hheld hlock' howner =>
    rw [hheld, Function.update_eq_self]
    refine ⟨⟨b, hb, hlock'.trans hlock, hiff⟩, hW.unique n, fun u hu => ?_⟩
    rcases howner with howner | ⟨hmem, howner | howner⟩
    · exact hW.owner n u (howner.symm.trans hu)
    · exact absurd (howner.symm.trans hu) (hid u).ne
    · rw [← hinj (howner.symm.trans hu)]
      exact hmem
  | mark hheld hold hlock' howner =>
    rw [hheld, Function.update_eq_self]
    refine ⟨⟨2, le_rfl, hlock', ?_⟩, hW.unique n, fun u hu => hW.owner n u (howner.symm.trans hu)⟩
    have hb1 : b ≠ 0 := by omega
    exact ⟨fun _ => hiff.mp hb1, fun _ => by decide⟩
  | take hheld hold hlock' howner =>
    -- nobody had the mutex
    have hnone : ∀ u, n ∉ held u := fun u hu => by
      have := hiff.mpr ⟨u, hu⟩
      omega
    have hself : n ∈ Function.update held t held' t := by
      rw [Function.update_self, hheld]
      exact Finset.mem_insert_self n _
    have honly : ∀ u, n ∈ Function.update held t held' u → u = t := by
      intro u hu
      by_contra hne
      rw [Function.update_of_ne hne] at hu
      exact hnone u hu
    refine ⟨?_, fun u v hu hv => (honly u hu).trans (honly v hv).symm,
      fun u hu => absurd (hW.owner n u (howner.symm.trans hu)) (hnone u)⟩
    rcases hlock' with hlock' | hlock'
    · exact ⟨1, by omega, hlock', fun _ => ⟨t, hself⟩, fun _ => by decide⟩
    · exact ⟨2, le_rfl, hlock', fun _ => ⟨t, hself⟩, fun _ => by decide⟩
  | give hmem hheld hlock' howner hne =>
    -- nobody has it any more
    have hnone : ∀ u, n ∉ Function.update held t held' u := by
      intro u hu
      by_cases hut : u = t
      · rw [hut, Function.update_self, hheld] at hu
        exact Finset.notMem_erase n _ hu
      · rw [Function.update_of_ne hut] at hu
        exact hut (hW.unique n u t hu hmem)
    refine ⟨⟨0, by omega, hlock', fun h => absurd rfl h, fun ⟨u, hu⟩ => absurd hu (hnone u)⟩,
      fun u _ hu => absurd hu (hnone u), fun u hu => ?_⟩
    have hu' := howner.symm.trans hu
    have : u = t := hW.unique n u t (hW.owner n u hu') hmem
    rw [this] at hu'
    exact absurd hu' hne

/-- **A step keeps the words.** -/
theorem effect (hW : Words id ceil held sh)
    (he : Effect ceil (id t) n (held t) held' (sh n) m') (hinj : Function.Injective id)
    (hid : ∀ t, 0 < id t) :
    Words id ceil (Function.update held t held') (Function.update sh n m') := by
  obtain ⟨hlock, hunique, howner⟩ := hW.effect_self he hinj hid
  -- nothing changes for another mutex
  have hmem : ∀ n' u, n' ≠ n → (n' ∈ Function.update held t held' u ↔ n' ∈ held u) := by
    intro n' u hne
    by_cases hut : u = t
    · rw [hut, Function.update_self]
      exact effect_mem he hne
    · rw [Function.update_of_ne hut]
  constructor
  · intro n'
    by_cases hne : n' = n
    · subst hne
      rw [Function.update_self]
      exact hlock
    · rw [Function.update_of_ne hne]
      simp only [hmem n' _ hne]
      exact hW.lock n'
  · intro n' u v
    by_cases hne : n' = n
    · subst hne
      exact hunique u v
    · rw [hmem n' u hne, hmem n' v hne]
      exact hW.unique n' u v
  · intro n' u
    by_cases hne : n' = n
    · subst hne
      rw [Function.update_self]
      exact howner u
    · rw [Function.update_of_ne hne, hmem n' u hne]
      exact hW.owner n' u

end Words

/-! ### Every run -/

/-- An attribute of a private mutex of this basic kind with priority protection. -/
structure ProtectAttr (attr : BitVec 32) (κ : BasicKind) : Prop where
  protocol : attr &&& attrProtocolMask = attrPrioProtect
  flags : attr &&& (attrFlagPshared ||| attrFlagRobust) = 0
  kind : attr &&& ~~~attrFlagBits = κ.code

/-- The ceiling in an attribute. -/
def attrCeiling (attr : BitVec 32) : ℕ := ((attr &&& attrPrioCeilingMask) >>> 12).toNat

theorem attrCeiling_lt (attr : BitVec 32) : attrCeiling attr < 4096 := by
  have hle : (attr &&& attrPrioCeilingMask).toNat ≤ 0x00fff000 := by
    rw [BitVec.toNat_and]
    exact Nat.and_le_right
  unfold attrCeiling
  rw [BitVec.toNat_ushiftRight, Nat.shiftRight_eq_div_pow]
  omega

/-- The kind that `pthread_mutex_init` makes of an attribute with priority protection. -/
def protectKind (attr : BitVec 32) : BitVec 32 :=
  let kind := attr &&& ~~~attrFlagBits ||| prioProtect
  if attr &&& attrFlagPshared ≠ 0 then kind ||| psharedBit else kind

/-- What it makes of one that is not robust. -/
theorem mutexInit_ceiling {attr : BitVec 32} (hprotect : attr &&& attrProtocolMask = attrPrioProtect)
    (hrobust : attr &&& attrFlagRobust = 0) (m : MutexData) :
    mutexInit attr m =
      (0, { lock := ceilvalOf (attrCeiling attr), kind := protectKind attr }) := by
  have hlock : (((attr &&& attrPrioCeilingMask) >>> 12) <<< 19).toNat =
      ceilvalOf (attrCeiling attr) := by
    have hlt := attrCeiling_lt attr
    rw [BitVec.toNat_shiftLeft, ceilvalOf, prioCeilingShift, Nat.shiftLeft_eq, Nat.shiftLeft_eq]
    unfold attrCeiling at hlt ⊢
    exact Nat.mod_eq_of_lt (by omega)
  have hflags : attr &&& (attrFlagPshared ||| attrFlagRobust) = attr &&& attrFlagPshared := by
    rw [BitVec.and_or_distrib_left, hrobust]
    exact BitVec.or_zero
  simp only [mutexInit, hprotect, hflags, hrobust, hlock, ne_eq, not_true_eq_false, and_false,
    if_false, if_true, show attrPrioProtect ≠ attrPrioInherit by decide]
  rfl

/-- What it makes of a private one. -/
theorem mutexInit_protect {attr : BitVec 32} {κ : BasicKind} (h : ProtectAttr attr κ)
    (m : MutexData) :
    (mutexInit attr m).2 =
      { lock := ceilvalOf (attrCeiling attr), kind := Protocol.protect.code κ } := by
  have hflags := h.flags
  rw [BitVec.and_or_distrib_left] at hflags
  obtain ⟨hpshared, hrobust⟩ : attr &&& attrFlagPshared = 0 ∧ attr &&& attrFlagRobust = 0 :=
    BitVec.or_eq_zero_iff.mp hflags
  have hkind : protectKind attr = Protocol.protect.code κ := by
    rw [protectKind, if_neg (not_not.mpr hpshared), h.kind, BitVec.or_comm]
    rfl
  rw [mutexInit_ceiling h.protocol hrobust, hkind]

/-- The start: the mutexes just initialised, every thread outside, without counters. -/
structure Fresh (attr : M → BitVec 32) (c : Config ι (Local M) (M → MutexData)) : Prop where
  sh : ∀ n, c.sh n = (mutexInit (attr n) {}).2
  stage : ∀ t, (c.loc t).stage = .outside
  tpp : ∀ t, (c.loc t).prio.tpp = none
  held : ∀ t, (c.loc t).held = ∅
  depth : ∀ t n, (c.loc t).depth n = 0
  result : ∀ t, (c.loc t).result = none

/-- A normal or adaptive mutex is only released by its holder. -/
def Legal (κ : M → BasicKind) (x : Event ι (Action M) (Local M) (M → MutexData)) : Prop :=
  ∀ decr n, x.act = .release decr n → κ n = .timed ∨ κ n = .adaptive → n ∈ (x.pre.loc x.who).held

/-- The scheduler calls of a step succeed. -/
def Scheduled (fifoMinPrio fifoMaxPrio : ℤ) (x : Event ι (Action M) (Local M) (M → MutexData)) :
    Prop :=
  ∀ S, x.act = .run S → S.Succeeds fifoMinPrio fifoMaxPrio

variable [DecidableEq M]

/-- What holds of all threads and all mutexes. -/
structure Inv (id : ι → ℕ) (fifoMinPrio : ℤ) (ceil : M → ℕ) (κ : M → BasicKind)
    (c : Config ι (Local M) (M → MutexData)) : Prop where
  kind : ∀ n, (c.sh n).kind = Protocol.protect.code (κ n)
  words : Words id ceil (fun t => (c.loc t).held) c.sh
  ok : ∀ t, LocalOk fifoMinPrio ceil (c.loc t)
  cleared : ∀ t decr n p, (c.loc t).stage = .release decr n p → p.cleared = true →
    (c.sh n).owner ≠ id t
  nests : ∀ t n, (c.loc t).Nests (κ n) n (c.sh n)

section System

variable {id : ι → ℕ} {fifoMinPrio fifoMaxPrio : ℤ} {ceil : M → ℕ} {κ : M → BasicKind}

/-- An acquisition goes to its case for priority protection. -/
theorem acquireSwitch_protect (mode : Mode) (κ : BasicKind) :
    acquireSwitch mode (Protocol.protect.code κ) = some .word := by
  cases mode <;> simp [acquireSwitch]

/-- A release goes to a test of the owner, or to the release itself. -/
theorem releaseSwitch_protect (κ : BasicKind) :
    ∃ p, releaseSwitch (Protocol.protect.code κ) = some p ∧
      (p = .recOwner ∧ κ = .recursive ∨ p = .errOwner ∧ κ = .errorcheck ∨
        p = .owner ∧ (κ = .timed ∨ κ = .adaptive)) := by
  cases κ with
  | recursive => exact ⟨.recOwner, by decide, .inl ⟨rfl, rfl⟩⟩
  | errorcheck => exact ⟨.errOwner, by decide, .inr (.inl ⟨rfl, rfl⟩)⟩
  | timed => exact ⟨.owner, by decide, .inr (.inr ⟨rfl, .inl rfl⟩)⟩
  | adaptive => exact ⟨.owner, by decide, .inr (.inr ⟨rfl, .inr rfl⟩)⟩

/-- A call goes on with the mutex that it began with. -/
theorem afterAcquire_ne (l : Local M) (mode : Mode) (n : M) (r : Next AcquirePC) (decr : Bool)
    (n' : M) (p : ReleasePC) : (l.afterAcquire mode n r).stage ≠ .release decr n' p := by
  intro h
  cases r with
  | goto p' => cases h
  | done o => cases o <;> cases h

theorem afterRelease_eq {l : Local M} {decr decr' : Bool} {n n' : M} {r : Next ReleasePC}
    {p : ReleasePC} (h : (l.afterRelease decr n r).stage = .release decr' n' p) : n' = n := by
  cases r with
  | goto p' =>
    cases h
    rfl
  | done o => cases o <;> cases h

omit [DecidableEq M] in
/-- What a thread that is outside has counted. -/
theorem LocalOk.outside {l : Local M} (hl : LocalOk fifoMinPrio ceil l) (hst : l.stage = .outside) :
    TppCounts fifoMinPrio (heldCount fifoMinPrio ceil l.held) (l.prio.bookkeeping fifoMinPrio) := by
  have hcounts := hl.counts
  rw [hst] at hcounts
  exact hcounts

/-- A step sets the owner field to 0 or to the id of its own thread. -/
theorem Effect.owner_ne {id id' : ℕ} {ceil : M → ℕ} {n : M} {held held' : Finset M}
    {m m' : MutexData} (he : Effect ceil id n held held' m m') (hne : id ≠ id') (hpos : 0 < id')
    (h : m.owner ≠ id') : m'.owner ≠ id' := by
  cases he with
  | same hheld hlock howner =>
    rcases howner with howner | ⟨-, howner | howner⟩
    · rw [howner]
      exact h
    · rw [howner]
      exact hpos.ne
    · rw [howner]
      exact hne
  | mark hheld hold hlock howner | take hheld hold hlock howner =>
    rw [howner]
    exact h
  | give hmem hheld hlock howner hne =>
    rw [howner]
    exact h

variable [DecidableEq ι]

/-- A good step of thread `t` on the mutex `n` keeps the invariant. -/
theorem Inv.good {c : Config ι (Local M) (M → MutexData)} (hI : Inv id fifoMinPrio ceil κ c)
    (hinj : Function.Injective id) (hid : ∀ t, 0 < id t) {t : ι} {n : M} {l : Local M}
    {m : MutexData} (hgood : Good fifoMinPrio ceil (id t) n (c.loc t) l (c.sh n) m)
    (hn : ∀ decr n' p, l.stage = .release decr n' p → p.cleared = true → n' = n)
    (hcount : n ∈ (c.loc t).held ∨ m.count = (c.sh n).count)
    (hnests : ∀ n', l.Nests (κ n') n' (Function.update c.sh n m n')) :
    Inv id fifoMinPrio ceil κ ⟨Function.update c.loc t l, Function.update c.sh n m⟩ := by
  -- what the threads hold changes for `t` only
  have hheld : (fun u => (Function.update c.loc t l u).held) =
      Function.update (fun u => (c.loc u).held) t l.held := by
    funext u
    by_cases hu : u = t
    · rw [hu, Function.update_self, Function.update_self]
    · rw [Function.update_of_ne hu, Function.update_of_ne hu]
  refine ⟨fun n' => ?_, ?_, ?_, ?_, ?_⟩
  · show (Function.update c.sh n m n').kind = _
    by_cases hne : n' = n
    · rw [hne, Function.update_self, hgood.kind]
      exact hI.kind n
    · rw [Function.update_of_ne hne]
      exact hI.kind n'
  · show Words id ceil (fun u => (Function.update c.loc t l u).held) _
    rw [hheld]
    exact hI.words.effect hgood.effect hinj hid
  · exact forall_update (P := fun _ l => LocalOk fifoMinPrio ceil l) hgood.ok fun u _ => hI.ok u
  · refine forall_update (P := fun u (l : Local M) => ∀ decr n' p, l.stage = .release decr n' p →
      p.cleared = true → (Function.update c.sh n m n').owner ≠ id u) ?_ ?_
    · intro decr n' p hst hp
      obtain rfl := hn decr n' p hst hp
      rw [Function.update_self]
      exact hgood.cleared decr p hst hp
    · intro u hu decr n' p hst hp
      have hcleared := hI.cleared u decr n' p hst hp
      by_cases hne : n' = n
      · subst hne
        rw [Function.update_self]
        exact hgood.effect.owner_ne (fun heq => hu (hinj heq).symm) (hid u) hcleared
      · rw [Function.update_of_ne hne]
        exact hcleared
  · refine forall_update (P := fun _ (l : Local M) => ∀ n', l.Nests (κ n') n'
      (Function.update c.sh n m n')) hnests fun u hu n' => ?_
    by_cases hne : n' = n
    · subst hne
      rw [Function.update_self]
      -- no two threads hold the mutex
      refine (hI.nests u n').frame fun hmem => hcount.resolve_left fun hmem' => hu ?_
      exact hI.words.unique n' u t hmem hmem'
    · rw [Function.update_of_ne hne]
      exact hI.nests u n'

/-- **A step keeps the invariant.** -/
theorem Inv.step (hceil : Ceilings fifoMinPrio fifoMaxPrio ceil) (hinj : Function.Injective id)
    (hid : ∀ t, 0 < id t) {c d : Config ι (Local M) (M → MutexData)} {t : ι} {a : Action M}
    (hI : Inv id fifoMinPrio ceil κ c) (hstep : (system id fifoMinPrio).step c t a = some d)
    (hsched : Scheduled fifoMinPrio fifoMaxPrio ⟨c, t, a⟩) (hlegal : Legal κ ⟨c, t, a⟩) :
    Inv id fifoMinPrio ceil κ d := by
  obtain ⟨l, s, hnext, rfl⟩ := System.step_eq_some.mp hstep
  have hl := hI.ok t
  -- the start of a call changes the place of the thread only
  have hcall : ∀ (l : Local M) (n : M), l.held = (c.loc t).held → LocalOk fifoMinPrio ceil l →
      (∀ decr n p, l.stage = .release decr n p → p.cleared = false) →
      (∀ n', l.Nests (κ n') n' (c.sh n')) →
      Inv id fifoMinPrio ceil κ ⟨Function.update c.loc t l, c.sh⟩ := by
    intro l n hheld hl' hno hnests
    have hgood : Good fifoMinPrio ceil (id t) n (c.loc t) l (c.sh n) (c.sh n) :=
      .read hl' hheld fun decr p hst hp => absurd hp (by rw [hno decr n p hst]; decide)
    have hinv := hI.good hinj hid hgood
      (fun decr n' p hst hp => absurd hp (by rw [hno decr n' p hst]; decide)) (.inr rfl)
      (by rwa [Function.update_eq_self])
    rwa [Function.update_eq_self] at hinv
  have hnext' : next id fifoMinPrio t a (c.loc t) c.sh = some (l, s) := hnext
  unfold next at hnext'
  split at hnext'
  · -- an acquisition begins
    rename_i mode n hst
    rw [hI.kind n, acquireSwitch_protect] at hnext'
    obtain ⟨rfl, rfl⟩ := Prod.mk.inj (Option.some.inj hnext')
    have hcounts := hl.outside hst
    refine hcall _ n rfl ⟨hcounts, trivial, fun _ => hcounts⟩ (fun _ _ _ h => by cases h) ?_
    exact fun n' => .acquiring ((hI.nests t n').idle (by rw [hst]; trivial))
  · -- a release begins
    rename_i decr n hst
    rw [hI.kind n] at hnext'
    have hcounts := hl.outside hst
    have hidle : ∀ n', Idle (κ n') (n' ∈ (c.loc t).held) ((c.loc t).depth n') (c.sh n') :=
      fun n' => (hI.nests t n').idle (by rw [hst]; trivial)
    obtain ⟨p, hswitch, hp⟩ := releaseSwitch_protect (κ n)
    rw [hswitch] at hnext'
    obtain ⟨rfl, rfl⟩ := Prod.mk.inj (Option.some.inj hnext')
    rcases hp with ⟨rfl, hκ⟩ | ⟨rfl, hκ⟩ | ⟨rfl, hκ⟩
    · exact hcall _ n rfl ⟨hcounts, trivial, rfl⟩ (fun _ _ _ h => by cases h; rfl)
        fun n' => .releasing (hidle n') fun h => ⟨hidle n', h ▸ hκ⟩
    · exact hcall _ n rfl ⟨hcounts, trivial, rfl⟩ (fun _ _ _ h => by cases h; rfl)
        fun n' => .releasing (hidle n') fun h => ⟨hidle n', by rw [← h, hκ]; decide⟩
    · -- only here the source does not ask who the owner is
      have hmem := hlegal decr n rfl hκ
      refine hcall _ n rfl ⟨hcounts, hmem, rfl⟩ (fun _ _ _ h => by cases h; rfl)
        fun n' => .releasing (hidle n') ?_
      rintro rfl
      exact (hidle n).depth_eq_one hmem (by rcases hκ with h | h <;> rw [h] <;> decide)
  · rename_i S mode n p hst
    obtain ⟨rfl, rfl⟩ := Prod.mk.inj (Option.some.inj hnext')
    have hview := hI.words.view t n
    have hok : p.Ok ceil (c.loc t).held n := by
      have hstage := hl.stage
      rw [hst] at hstage
      exact hstage.1
    have hn := (hI.nests t n).acquire hst
    refine hI.good hinj hid (acquireStep_good (hsched S rfl) hceil hl hst hview)
      (fun decr n' p' hst' => absurd hst' (afterAcquire_ne _ mode n _ decr n' p'))
      (acquireStep_count hok hn) fun n' => ?_
    by_cases hne : n' = n
    · subst hne
      rw [Function.update_self]
      exact acquireStep_nests (hI.kind n') hview hok hn
    · rw [Function.update_of_ne hne]
      have hidle := (hI.nests t n').idle (by rw [hst]; exact Ne.symm hne)
      exact Local.stepAcquire_nests hidle hne _ _ _
  · rename_i S decr n p hst
    obtain ⟨rfl, rfl⟩ := Prod.mk.inj (Option.some.inj hnext')
    have hview := hI.words.view t n
    have hn := (hI.nests t n).release hst
    refine hI.good hinj hid (releaseStep_good (hsched S rfl) hceil hl hst hview (hid t)
      (hI.cleared t decr n p hst)) (fun _ _ _ hst' _ => afterRelease_eq hst')
      (releaseStep_count hn) fun n' => ?_
    by_cases hne : n' = n
    · subst hne
      rw [Function.update_self]
      exact releaseStep_nests (hsched S rfl) hceil hl hst hview hn
    · rw [Function.update_of_ne hne]
      have hidle := (hI.nests t n').idle (by rw [hst]; exact Ne.symm hne)
      exact Local.stepRelease_nests hidle hne _ _ _
  · cases hnext'

/-- A thread's bookkeeping is that of the mutexes that it holds: a counter for each ceiling, and
    the highest one. -/
structure Balanced (fifoMinPrio : ℤ) (ceil : M → ℕ) (held : Finset M)
    (tpp : PriorityProtectionData) : Prop where
  priomap : ∀ c : ℕ, fifoMinPrio ≤ c →
    (tpp.priomap ((c : ℤ) - fifoMinPrio).toNat).toNat = (held.filter fun n => ceil n = c).card
  priomax : held = ∅ ∧ tpp.priomax = fifoMinPrio - 1 ∨
    ∃ n ∈ held, tpp.priomax = ceil n ∧ ∀ n' ∈ held, ceil n' ≤ ceil n

omit [DecidableEq M] [DecidableEq ι] in
/-- Counters that count the mutexes held are balanced. -/
theorem Balanced.of_counts (hceil : Ceilings fifoMinPrio fifoMaxPrio ceil) {held : Finset M}
    {tpp : PriorityProtectionData}
    (h : TppCounts fifoMinPrio (heldCount fifoMinPrio ceil held) tpp) :
    Balanced fifoMinPrio ceil held tpp := by
  have hpos : ∀ n ∈ held, heldCount fifoMinPrio ceil held (place fifoMinPrio ceil n) ≠ 0 := by
    intro n hn
    exact Finset.card_ne_zero_of_mem (Finset.mem_filter.mpr ⟨hn, rfl⟩)
  -- a place in the counters stands for one ceiling
  have hplace : ∀ n, fifoMinPrio + place fifoMinPrio ceil n = ceil n := by
    intro n
    have := (hceil.range n).1
    unfold place
    omega
  constructor
  · intro c hc
    rw [h.map]
    unfold heldCount
    congr 1
    refine Finset.filter_congr fun n _ => ?_
    have := hplace n
    omega
  · rcases h.max with ⟨hzero, hmax⟩ | ⟨k, hk, habove, hmax⟩
    · left
      refine ⟨Finset.eq_empty_of_forall_notMem fun n hn => ?_, hmax⟩
      exact hpos n hn (hzero _)
    · right
      obtain ⟨n, hn⟩ := Finset.card_ne_zero.mp hk
      obtain ⟨hmem, rfl⟩ := Finset.mem_filter.mp hn
      refine ⟨n, hmem, hmax.trans (hplace n), fun n' hn' => ?_⟩
      by_contra hlt
      refine hpos n' hn' (habove _ ?_)
      have := hplace n
      have := hplace n'
      omega

omit [DecidableEq ι] in
/-- The invariant holds at the start. -/
theorem Inv.initial {attr : M → BitVec 32} (hattr : ∀ n, ProtectAttr (attr n) (κ n))
    (hid : ∀ t, 0 < id t) {c : Config ι (Local M) (M → MutexData)} (hinit : Fresh attr c) :
    Inv id fifoMinPrio (fun n => attrCeiling (attr n)) κ c := by
  have hsh : ∀ n, c.sh n =
      { lock := ceilvalOf (attrCeiling (attr n)), kind := Protocol.protect.code (κ n) } :=
    fun n => (hinit.sh n).trans (mutexInit_protect (hattr n) {})
  have hempty : ∀ t n, n ∉ (c.loc t).held := by
    intro t n hn
    rw [hinit.held t] at hn
    exact absurd hn (Finset.notMem_empty n)
  refine ⟨fun n => by rw [hsh n], ⟨fun n => ?_, fun n t _ hn => absurd hn (hempty t n), ?_⟩,
    fun t => ⟨?_, ?_⟩, fun t decr n p hst => ?_, fun t n => ?_⟩
  · refine ⟨0, by omega, by rw [hsh n]; rfl, fun h => absurd rfl h, fun ⟨t, hn⟩ => ?_⟩
    exact absurd hn (hempty t n)
  · intro n t ho
    rw [hsh n] at ho
    exact absurd ho (hid t).ne
  · rw [hinit.stage t]
    have hbook : (c.loc t).prio.bookkeeping fifoMinPrio = ⟨fifoMinPrio - 1, fun _ => 0⟩ := by
      unfold Prio.bookkeeping
      rw [hinit.tpp t]
      rfl
    have hzero : ∀ k,
        heldCount fifoMinPrio (fun n => attrCeiling (attr n)) (c.loc t).held k = 0 := by
      intro k
      rw [hinit.held t]
      rfl
    rw [hbook]
    exact ⟨fun k => (hzero k).symm, .inl ⟨hzero, rfl⟩⟩
  · rw [hinit.stage t]
    intro code hcode
    rw [hinit.result t] at hcode
    cases hcode
  · rw [hinit.stage t] at hst
    cases hst
  · unfold Local.Nests
    rw [hinit.stage t]
    exact ⟨fun hmem => absurd hmem (hempty t n), fun _ => hinit.depth t n⟩

/-- **Priority protection is balanced.**  In every run of lock, trylock and unlock calls, and of the
    releases and re-acquisitions of `pthread_cond_wait`, on private priority-protect mutexes with
    ceilings in the range of `SCHED_FIFO`, in which the scheduler calls succeed and normal and
    adaptive mutexes are only released by their holders: the word of a mutex is its ceiling with low
    bits that are set just when exactly one thread has it; a thread that is in no call on a mutex
    has it just when more of its calls have returned 0 with it than have given it back; the counters
    of a thread that is in no call are those of the mutexes that it has; and they are what they were
    before a lock or trylock call that failed. -/
theorem prio_protect_balanced (id : ι → ℕ) (attr : M → BitVec 32) (κ : M → BasicKind)
    (fifoMinPrio fifoMaxPrio : ℤ) (hinj : Function.Injective id) (hid : ∀ t, 0 < id t)
    (hattr : ∀ n, ProtectAttr (attr n) (κ n))
    (hrange : ∀ n, fifoMinPrio ≤ attrCeiling (attr n) ∧ (attrCeiling (attr n) : ℤ) ≤ fifoMaxPrio)
    {c₀ c : Config ι (Local M) (M → MutexData)}
    {tr : List (Event ι (Action M) (Local M) (M → MutexData))} (hinit : Fresh attr c₀)
    (hrun : Run (system id fifoMinPrio) c₀ tr c)
    (hsched : ∀ x ∈ tr, Scheduled fifoMinPrio fifoMaxPrio x) (hlegal : ∀ x ∈ tr, Legal κ x) :
    (∀ n, ∃ b ≤ 2, (c.sh n).lock = attrCeiling (attr n) <<< 19 + b ∧
      (b ≠ 0 ↔ ∃! t, n ∈ (c.loc t).held)) ∧
    (∀ t n, (c.loc t).stage.Beside n → (n ∈ (c.loc t).held ↔ 0 < (c.loc t).depth n)) ∧
    (∀ t, (c.loc t).stage = .outside → Balanced fifoMinPrio (fun n => attrCeiling (attr n))
      (c.loc t).held ((c.loc t).prio.bookkeeping fifoMinPrio)) ∧
    ∀ t code, (c.loc t).stage = .outside → (c.loc t).result = some code → code ≠ 0 →
      (c.loc t).prio.bookkeeping fifoMinPrio = (c.loc t).entry := by
  have hceil : Ceilings fifoMinPrio fifoMaxPrio fun n => attrCeiling (attr n) :=
    ⟨fun n => attrCeiling_lt (attr n), hrange⟩
  have hI : Inv id fifoMinPrio (fun n => attrCeiling (attr n)) κ c := by
    refine hrun.invariant_of (I := Inv id fifoMinPrio (fun n => attrCeiling (attr n)) κ)
      (G := fun x => Scheduled fifoMinPrio fifoMaxPrio x ∧ Legal κ x)
      (fun x hx => ⟨hsched x hx, hlegal x hx⟩) (Inv.initial hattr hid hinit) ?_
    intro d t a e hI hG hstep
    exact hI.step hceil hinj hid hstep hG.1 hG.2
  refine ⟨fun n => ?_, fun t n hst => ((hI.nests t n).idle hst).held_iff,
    fun t hst => .of_counts hceil ((hI.ok t).outside hst), ?_⟩
  · obtain ⟨b, hb, hlock, hiff⟩ := hI.words.lock n
    refine ⟨b, hb, hlock, hiff.trans ?_⟩
    constructor
    · rintro ⟨t, ht⟩
      exact ⟨t, ht, fun u hu => hI.words.unique n u t hu ht⟩
    · rintro ⟨t, ht, -⟩
      exact ⟨t, ht⟩
  · intro t code hst hresult hne
    have hstage := (hI.ok t).stage
    rw [hst] at hstage
    exact hstage code hresult hne

end System

/-! ### A run -/

/-- Two recursive mutexes with the ceilings 10 and 20. -/
def sampleAttr (n : Fin 2) : BitVec 32 :=
  BasicKind.recursive.code ||| attrPrioProtect ||| BitVec.ofNat 32 (10 * (n + 1)) <<< 12

/-- The ids of two threads. -/
def sampleIds (t : Fin 2) : ℕ := 5 + t

/-- What the threads do: the first one locks both mutexes, the other one tries the second mutex in
    vain, and the first one unlocks it again. -/
def sampleSchedule : List (Fin 2 × Action (Fin 2)) :=
  List.flatten [[(0, .acquire (.lock .incr) 0)], List.replicate 9 (0, .run linuxSys.toSched),
    [(0, .acquire (.lock .incr) 1)], List.replicate 9 (0, .run linuxSys.toSched),
    [(1, .acquire .trylock 1)], List.replicate 5 (1, .run linuxSys.toSched), [(0, .release true 1)],
    List.replicate 9 (0, .run linuxSys.toSched)]

/-- Two threads outside, and their mutexes. -/
def sampleStart : Config (Fin 2) (Local (Fin 2)) (Fin 2 → MutexData) :=
  ⟨fun _ => { entry := ⟨0, fun _ => 0⟩ }, fun n => (mutexInit (sampleAttr n) {}).2⟩

/-- What they do. -/
def sampleRun : List (Event (Fin 2) (Action (Fin 2)) (Local (Fin 2)) (Fin 2 → MutexData)) ×
    Config (Fin 2) (Local (Fin 2)) (Fin 2 → MutexData) :=
  (system sampleIds 1).execute sampleStart sampleSchedule rfl

example : (sampleRun.2.loc 1).result = some eBUSY ∧ (sampleRun.2.loc 0).held = {0} ∧
    (sampleRun.2.loc 0).depth 0 = 1 ∧ (sampleRun.2.loc 0).depth 1 = 0 ∧
    ((sampleRun.2.loc 0).prio.bookkeeping 1).priomax = 10 := by decide

theorem linuxSys_succeeds : linuxSys.toSched.Succeeds 1 99 :=
  ⟨rfl, rfl, ⟨_, rfl⟩, ⟨_, rfl⟩, fun _ _ => rfl⟩

/-- Every answer that the schedule takes is a success. -/
theorem sampleSchedule_succeeds :
    ∀ x ∈ sampleSchedule, ∀ S, x.2 = .run S → S.Succeeds 1 99 := by
  intro x hx S hact
  obtain ⟨part, hpart, hx⟩ := List.mem_flatten.mp hx
  simp only [List.mem_cons, List.not_mem_nil, or_false] at hpart
  rcases hpart with rfl | rfl | rfl | rfl | rfl | rfl | rfl | rfl
  all_goals
    simp only [List.mem_singleton, List.mem_replicate] at hx
    first
      | (rw [hx] at hact; cases hact)
      | (rw [hx.2] at hact; cases hact; exact linuxSys_succeeds)

theorem prio_protect_balanced_sampleRun :
    (∀ n, ∃ b ≤ 2, (sampleRun.2.sh n).lock = attrCeiling (sampleAttr n) <<< 19 + b ∧
      (b ≠ 0 ↔ ∃! t, n ∈ (sampleRun.2.loc t).held)) ∧
    (∀ t n, (sampleRun.2.loc t).stage.Beside n →
      (n ∈ (sampleRun.2.loc t).held ↔ 0 < (sampleRun.2.loc t).depth n)) ∧
    (∀ t, (sampleRun.2.loc t).stage = .outside → Balanced 1 (fun n => attrCeiling (sampleAttr n))
      (sampleRun.2.loc t).held ((sampleRun.2.loc t).prio.bookkeeping 1)) ∧
    ∀ t code, (sampleRun.2.loc t).stage = .outside → (sampleRun.2.loc t).result = some code →
      code ≠ 0 → (sampleRun.2.loc t).prio.bookkeeping 1 = (sampleRun.2.loc t).entry :=
  prio_protect_balanced sampleIds sampleAttr (fun _ => .recursive) 1 99
    (fun t u h => Fin.ext (Nat.add_left_cancel h)) (by decide)
    (fun n => ⟨by revert n; decide, by revert n; decide, by revert n; decide⟩) (by decide)
    ⟨fun _ => rfl, fun _ => rfl, fun _ => rfl, fun _ => rfl, fun _ _ => rfl, fun _ => rfl⟩
    ((system sampleIds 1).execute_run _ _ _)
    (fun _ hx S => sampleSchedule_succeeds _ ((system sampleIds 1).execute_act _ _ _ hx) S)
    (fun _ _ _ _ _ h => by cases h with | inl h => cases h | inr h => cases h)

end SyncPerf.PrioProtect
