import Iostash.Sce.Sweep
import Iostash.Client.Taking

/-!
# Eviction

Which fragment `_evict_frag` takes in the states that runs of the API reach, and when it finds one.
-/

namespace Iostash

open Util

variable {s s' : Sce} {i f j k : Nat} {a : Phys} {m m' : Slot}

/-! ### The victim -/

/-- Eviction takes the fragment `f` of LUN `i`: the idle one with the least pair of reference count and
distance from the arm. A fragment number at `FRAGNUM_FREE` is never looked at. -/
structure Sce.Victim (s s' : Sce) (i f : Nat) (m : Slot) : Prop where
  slot : s.slot i f = some m
  idle : m.frag.nrService = 0
  used : f < fragnumFree
  unmapped : s'.slot i f = none
  freed : ∀ a, s'.isFree a ↔ a = m.addr ∨ s.isFree a
  least : ∀ j k m', s.slot j k = some m' → m'.frag.nrService = 0 → k < fragnumFree →
    m.frag.nrRef < m'.frag.nrRef ∨ m.frag.nrRef = m'.frag.nrRef ∧ s.armDist m.addr ≤ s.armDist m'.addr
  lowered : ∀ j k m', ¬ (j = i ∧ k = f) → s.slot j k = some m' → m'.frag.nrService = 0 → k < fragnumFree →
    ∃ r, s'.slot j k = some { m' with frag := { m'.frag with nrRef := r } } ∧
      m'.frag.nrRef = r + m.frag.nrRef + if s.armDist m'.addr < s.armDist m.addr then 1 else 0
  others : ∀ j k, ¬ (j = i ∧ k = f) → (∀ m', s.slot j k = some m' → m'.frag.nrService = 0 → ¬ k < fragnumFree) →
    s'.slot j k = s.slot j k
  fixed : ∀ a g, s.frag? a = some g → s.isFree a ∨ g.nrService ≠ 0 → s'.frag? a = some g
  next : s'.armFrag = some (s.ringNext m.addr)

theorem Frag.cooled_fixed {g : Frag} {n : Nat} (fixed : g.evictable = false) : g.cooled n = g := by
  simp [Frag.cooled, fixed]

theorem Sce.onRing_of_frag (packed : s.Packed) {g : Frag} (frag : s.frag? a = some g) : s.onRing a := by
  obtain ⟨ctx, n, dev, off⟩ := Sce.frag?_isSome.mp (Option.isSome_of_eq_some frag)
  refine ⟨(packed.present a.dev).mp (by rw [dev]; rfl), ?_⟩
  simpa [devSize, dev] using off

/-- The fragment taken is the one put on the free list. -/
theorem evicted_isFree (h : Inv nowhere s) {l : Lun} {t n : Nat} (slot : s.slot i f = some m)
    (lun : s.luntbl i = some l) : (s.evicted t i f (l.fragmap f) n).isFree a ↔ a = m.addr ∨ s.isFree a := by
  obtain ⟨l', lun', _, _, addr, _⟩ := Sce.slot_eq_some.mp slot
  obtain rfl := Option.some.inj (lun.symm.trans lun')
  obtain ⟨h', view'⟩ := Sce.swept_view (n := t) h
  obtain ⟨_, view₁⟩ := Sce.advance_view h'
  have old : (s.swept t).advance.isFree a ↔ s.isFree a := by
    show (s.swept t).advance.view.free a ↔ s.view.free a
    rw [view₁, view']
  have node : ∃ n, (s.swept t).advance.node (phys (l.fragmap f)) = some n := by
    rw [← addr]
    unfold Sce.node
    rw [Sce.advance_frag?, Sce.swept_frag?, Sce.frag_of_slot slot]
    exact ⟨_, rfl⟩
  obtain ⟨n, node⟩ := node
  rw [← old, addr]
  exact Sce.pushFree_isFree node

theorem evictFrag_victim (h : Inv nowhere s) (packed : s.Packed) (evict : evictFrag s = .ok (.success, s')) :
    ∃ i f m, s.Victim s' i f m := by
  rcases evictFrag_cases h with ⟨t, i, f, m, l, _, _, takes, arm, slot, idle, used, lun, run⟩ | ⟨⟨s₁, run⟩, _⟩
  swap
  · cases evict.symm.trans run
  obtain rfl : s' = s.evicted t i f (l.fragmap f) m.frag.nrMiss :=
    (Prod.mk.inj (Except.ok.inj (evict.symm.trans run))).2
  have on := Sce.onRing_of_frag packed (Sce.frag_of_slot slot)
  have filled := Nat.zero_lt_of_lt on.1
  have ring := Sce.ring h.shape.devices packed filled
  obtain ⟨count, dist, least⟩ := ring.least takes
  rw [arm] at count dist
  have ref : ∀ j k m', s.slot j k = some m' → m'.frag.nrService = 0 → k < fragnumFree →
      s.evictRef (some m'.addr) = some m'.frag.nrRef := fun j k m' slot' idle' used' =>
    (Sce.evictRef_eq_some h).mpr ⟨j, k, m', slot', rfl, idle', used', rfl⟩
  obtain rounds : m.frag.nrRef = t / s.ringSize := Option.some.inj ((ref i f m slot idle used).symm.trans count)
  have place : s.armDist m.addr = t % s.ringSize := dist
  have passed : ∀ a g, s.frag? a = some g → Clock.passes s.armAt (some a) t =
      m.frag.nrRef + if s.armDist a < s.armDist m.addr then 1 else 0 := by
    intro a g frag
    rw [ring.passes ⟨a, rfl, Sce.onRing_of_frag packed frag⟩ t, rounds, place]
    rfl
  obtain ⟨l', lun', _, _, addr, _⟩ := Sce.slot_eq_some.mp slot
  obtain rfl := Option.some.inj (lun.symm.trans lun')
  have clear : isMapped (BitVec.ofNat 32 m.frag.nrMiss &&& fragdescDatamask) = false := isMapped_data _
  have slots : ∀ j k, ¬ (j = i ∧ k = f) → (s.evicted t i f (l.fragmap f) m.frag.nrMiss).slot j k =
      (s.slot j k).map fun m' => { m' with frag := m'.frag.cooled (Clock.passes s.armAt (some m'.addr) t) } := by
    intro j k ne
    unfold Sce.evicted
    rw [Sce.slot_setDesc_ne ne, Sce.pushFree_slot, Sce.advance_slot, Sce.swept_slot, Option.map_map]
    cases slot' : s.slot j k with
    | none => rfl
    | some m' =>
      have apart : m'.addr ≠ phys (l.fragmap f) := by
        rw [← addr]
        exact fun e => ne (h.shape.slot_inj slot slot' e)
      simp [apart]
  have frags : ∀ b, b ≠ m.addr → (s.evicted t i f (l.fragmap f) m.frag.nrMiss).frag? b =
      (s.frag? b).map (Frag.cooled (Clock.passes s.armAt (some b) t)) := by
    intro b ne
    unfold Sce.evicted
    rw [Sce.setDesc_frag?, Sce.pushFree_frag?, if_neg (by rw [← addr]; exact ne), Sce.advance_frag?, Sce.swept_frag?]
  refine ⟨i, f, m, slot, idle, used, ?_, fun b => evicted_isFree h slot lun, ?_, ?_, ?_, ?_, ?_⟩
  · unfold Sce.evicted
    exact Sce.slot_setDesc_unmapped clear
  · intro j k m' slot' idle' used'
    have on' := Sce.onRing_of_frag packed (Sce.frag_of_slot slot')
    rw [rounds, place]
    exact least _ _ ⟨m'.addr, rfl, on'⟩ (ref j k m' slot' idle' used')
  · intro j k m' ne slot' idle' used'
    have frag' := Sce.frag_of_slot slot'
    have fragnum : m'.frag.fragnum = k := congrArg Node.fragnum (h.shape.node_of_slot slot')
    have evictable : m'.frag.evictable = true := by
      unfold Frag.evictable
      rw [fragnum, idle', decide_eq_true used']
      rfl
    have le := takes.passes_le (ref j k m' slot' idle' used')
    rw [passed _ _ frag'] at le
    refine ⟨m'.frag.nrRef - Clock.passes s.armAt (some m'.addr) t, ?_, ?_⟩
    · rw [slots j k ne, slot', Option.map_some, Frag.cooled, if_pos evictable]
    · rw [passed _ _ frag']
      omega
  · intro j k ne fixed
    rw [slots j k ne]
    cases slot' : s.slot j k with
    | none => rfl
    | some m' =>
      have fragnum : m'.frag.fragnum = k := congrArg Node.fragnum (h.shape.node_of_slot slot')
      have not : m'.frag.evictable = false := by
        rw [← Bool.not_eq_true]
        intro evictable
        simp only [Frag.evictable, Bool.and_eq_true, decide_eq_true_eq, fragnum] at evictable
        exact fixed m' slot' evictable.2 evictable.1
      rw [Option.map_some, Frag.cooled_fixed not]
  · intro b g frag kept
    have ne : b ≠ m.addr := by
      rintro rfl
      rcases kept with free | busy
      · exact h.shape.not_free (Sce.place_of_slot slot) free
      · obtain rfl := Option.some.inj ((Sce.frag_of_slot slot).symm.trans frag)
        exact busy idle
    have not : g.evictable = false := by
      rw [← Bool.not_eq_true]
      intro evictable
      simp only [Frag.evictable, Bool.and_eq_true, decide_eq_true_eq] at evictable
      rcases kept with free | busy
      · have within := (Sce.isFree_iff frag).mp free
        simp only [fragnumWithinFreeList, fragnumFree] at within evictable
        omega
      · exact busy evictable.2
    rw [frags b ne, frag, Option.map_some, Frag.cooled_fixed not]
  · obtain ⟨b, here, _, next, _⟩ := Sce.armAt_packed h.shape.devices packed filled t
    obtain rfl := Option.some.inj (here.symm.trans arm)
    rw [← next]
    obtain ⟨arm', dev, _, nrCdev, _⟩ := Sce.swept_fields (s := s) (n := t)
    obtain ⟨nrCdev₀, dev₀⟩ := Sce.turned_fields (s := s) (n := t)
    obtain ⟨nrCdev₁, dev₁⟩ := Sce.turned_fields (s := s) (n := t + 1)
    refine (Sce.arm_congr (s := s.turned (t + 1)) ?_ ?_ ?_).1
    · show (s.swept t).advance.nrCdev = _
      rw [Sce.advance_nrCdev, nrCdev, nrCdev₁]
    · show ((s.swept t).advance.pushFree _).dev = _
      rw [Sce.pushFree_dev, Sce.advance_dev, dev, dev₁]
    · show (s.swept t).advance.arm = (s.turned t).advance.arm
      exact (Sce.arm_congr (nrCdev.trans nrCdev₀.symm) (dev.trans dev₀.symm) arm').2

/-! ### Success -/

/-- `_evict_frag` succeeds and puts one fragment on the free list. -/
def Sce.Evicts (s : Sce) : Prop := ∃ s' a, evictFrag s = .ok (.success, s') ∧ ¬ s.isFree a ∧
  s'.nrFreefrag = s.nrFreefrag + 1 ∧ ∀ b, s'.isFree b ↔ b = a ∨ s.isFree b

/-- The arm always finds a fragment when the present devices are the first ones. -/
theorem Sce.armAt_ne_none (present : ∀ d, (s.dev d).isSome ↔ d < s.nrCdev) (filled : 0 < s.nrCdev) (t : Nat) :
    s.armAt t ≠ none := by
  obtain ⟨nrCdev, dev⟩ := Sce.turned_fields (s := s) (n := t)
  have lt : scePfidDev (s.turned t).arm % s.nrCdev < s.nrCdev := Nat.mod_lt _ filled
  obtain ⟨⟨ctx, n⟩, here⟩ := Option.isSome_iff_exists.mp ((present _).mpr lt)
  rw [← dev] at here
  obtain ⟨cdev, there, _⟩ := Sce.dev_eq_some.mp here
  unfold Sce.armAt Sce.armFrag getFragAdvanceClockarm
  rw [nrCdev, if_neg (Nat.pos_iff_ne_zero.mp filled)]
  simp only [there]
  exact Option.some_ne_none _

/-- The clock succeeds exactly when the arm passes some idle fragment more often than it is referenced. -/
theorem evictFrag_iff (h : Inv nowhere s) (present : ∀ d, (s.dev d).isSome ↔ d < s.nrCdev) :
    s.Evicts ↔ s.nrFreefrag < s.nrFrag ∧ ∃ i f m, s.slot i f = some m ∧ m.frag.nrService = 0 ∧ f < fragnumFree ∧
      m.frag.nrRef < Clock.passes s.armAt (some m.addr) (evictBudget s.nrFrag) := by
  have candidates : (∃ t, t < evictBudget s.nrFrag ∧ Clock.Takes s.armAt s.evictRef t) ↔
      ∃ i f m, s.slot i f = some m ∧ m.frag.nrService = 0 ∧ f < fragnumFree ∧
        m.frag.nrRef < Clock.passes s.armAt (some m.addr) (evictBudget s.nrFrag) := by
    rw [Clock.takes_iff]
    constructor
    · rintro ⟨a, r, ref, beyond⟩
      cases a with
      | none => simp [Sce.evictRef] at ref
      | some a =>
        obtain ⟨i, f, m, slot, rfl, idle, used, rfl⟩ := (Sce.evictRef_eq_some h).mp ref
        exact ⟨i, f, m, slot, idle, used, beyond⟩
    · rintro ⟨i, f, m, slot, idle, used, beyond⟩
      exact ⟨some m.addr, _, (Sce.evictRef_eq_some h).mpr ⟨i, f, m, slot, rfl, idle, used, rfl⟩, beyond⟩
  rw [← candidates]
  rcases evictFrag_cases h with ⟨t, i, f, m, l, lt, room, takes, _, slot, _, _, lun, run⟩ | ⟨⟨s', run⟩, why⟩
  · refine iff_of_true ⟨_, m.addr, run, ?_, ?_, fun b => evicted_isFree h slot lun⟩ ⟨room, t, lt, takes⟩
    · exact h.shape.not_free (Sce.place_of_slot slot)
    · obtain ⟨_, _, _, _, _, count, _⟩ := Sce.swept_fields (s := s) (n := t)
      show (s.swept t).advance.nrFreefrag + 1 = _
      rw [Sce.advance_nrFreefrag, count]
  · refine iff_of_false ?_ ?_
    · rintro ⟨s'', a, run', _⟩
      cases run.symm.trans run'
    · rintro ⟨room, t, lt, takes⟩
      rcases why with full | ⟨u, _, off⟩ | none
      · omega
      · have filled : 0 < s.nrCdev := by
          obtain ⟨r, ref, _⟩ := takes.1
          cases arm : s.armAt t with
          | none => simp [arm, Sce.evictRef] at ref
          | some a =>
            rw [arm] at ref
            obtain ⟨i, f, m, slot, rfl, _⟩ := (Sce.evictRef_eq_some h).mp ref
            obtain ⟨ctx, n, dev, _⟩ := Sce.frag?_isSome.mp (Option.isSome_of_eq_some (Sce.frag_of_slot slot))
            exact Nat.zero_lt_of_lt ((present m.addr.dev).mp (by rw [dev]; rfl))
        exact Sce.armAt_ne_none present filled u off
      · exact none t lt takes.1

theorem Sce.Packed.budget (packed : s.Packed) (h : Devices s) : s.nrFrag = s.ringSize ∧
    evictBudget s.nrFrag = s.ringSize * sceRefCeiling := by
  have most := Sce.nrCdev_le h packed
  have beyond : ∀ d, s.nrCdev ≤ d → devSize s.dev d = 0 := by
    intro d le
    have absent : s.dev d = none := by
      rw [← Option.not_isSome_iff_eq_none, packed.present]
      omega
    simp [devSize, absent]
  have short : ∀ d, devSize s.dev d ≤ 2 ^ 24 := by
    intro d
    rcases Nat.lt_or_ge d s.nrCdev with lt | ge
    · exact (Sce.devSize_pos h packed lt).2
    · rw [beyond d ge]
      exact Nat.zero_le _
  have total : ∑ d ∈ Finset.range sceMaxCdev, devSize s.dev d = s.ringSize := by
    refine (Finset.sum_subset (Finset.range_mono most) fun d _ out => ?_).symm
    exact beyond d (Nat.not_lt.mp fun lt => out (Finset.mem_range.mpr lt))
  have bound : s.ringSize ≤ 16 * 2 ^ 24 := by
    rw [← total]
    refine (Finset.sum_le_card_nsmul _ _ (2 ^ 24) fun d _ => short d).trans ?_
    simp
  have frags : s.nrFrag = s.ringSize := by
    rw [h.nrFrag, total]
    exact u32_of_lt (by omega)
  refine ⟨frags, ?_⟩
  unfold evictBudget
  simp only [sceRefCeiling, frags]
  rw [u32_of_lt (by omega), if_pos (by omega)]

/-- With no device too long for a pfid it takes an idle fragment below the ceiling of the references. -/
theorem evictFrag_packed_iff (h : Inv nowhere s) (packed : s.Packed) : s.Evicts ↔
    ∃ i f m, s.slot i f = some m ∧ m.frag.nrService = 0 ∧ f < fragnumFree ∧ m.frag.nrRef < sceRefCeiling := by
  obtain ⟨frags, budget⟩ := packed.budget h.shape.devices
  have passed : ∀ i f m, s.slot i f = some m →
      Clock.passes s.armAt (some m.addr) (evictBudget s.nrFrag) = sceRefCeiling := by
    intro i f m slot
    have on := Sce.onRing_of_frag packed (Sce.frag_of_slot slot)
    rw [budget]
    exact (Sce.ring h.shape.devices packed (Nat.zero_lt_of_lt on.1)).passes_rounds ⟨m.addr, rfl, on⟩ _
  rw [evictFrag_iff h packed.present]
  constructor
  · rintro ⟨_, i, f, m, slot, idle, used, beyond⟩
    rw [passed i f m slot] at beyond
    exact ⟨i, f, m, slot, idle, used, beyond⟩
  · rintro ⟨i, f, m, slot, idle, used, below⟩
    refine ⟨?_, i, f, m, slot, idle, used, by rw [passed i f m slot]; exact below⟩
    obtain ⟨fl, list⟩ := h.shape.free
    obtain ⟨l, _, _, _, addr, _⟩ := Sce.slot_eq_some.mp slot
    have node := h.shape.mapped _ _ _ (Sce.place_of_slot slot)
    rw [addr] at node
    rw [list.nrFreefrag]
    refine list.room h.shape.devices (roomy_of_short packed.short) node ?_
    simp only [fragnumFree, fragnumWithinFreeList] at used ⊢
    omega

/-- The state with other reference counts and the arm elsewhere. -/
def Sce.reclock (s : Sce) (ref : Phys → Nat) (arm : Word) : Sce :=
  { s with
    arm := arm
    cdevtbl := fun d => (s.cdevtbl d).map fun c =>
      { c with fragtbl := fun o => { c.fragtbl o with nrRef := ref ⟨d, o⟩ } } }

namespace Sce

variable {ref : Phys → Nat} {arm : Word}

theorem reclock_frag? : (s.reclock ref arm).frag? a = (s.frag? a).map fun g => { g with nrRef := ref a } := by
  unfold frag? reclock
  simp only
  cases s.cdevtbl a.dev with
  | none => rfl
  | some c =>
    simp only [Option.map_some, Option.bind_some]
    split <;> rfl

theorem reclock_dev : (s.reclock ref arm).dev = s.dev := by
  funext d
  show ((s.cdevtbl d).map _).map _ = _
  rw [Option.map_map]
  rfl

theorem reclock_slot : (s.reclock ref arm).slot i f =
    (s.slot i f).map fun m => { m with frag := { m.frag with nrRef := ref m.addr } } := by
  unfold slot
  show (s.luntbl i).bind _ = _
  cases s.luntbl i with
  | none => rfl
  | some l =>
    simp only [Option.bind_some]
    split
    · rw [reclock_frag?, Option.map_map, Option.map_map]
      rfl
    · rfl

theorem reclock_inv (h : Inv nowhere s) : Inv nowhere (s.reclock ref arm) := by
  have node : (s.reclock ref arm).node = s.node := by
    funext b
    unfold node
    rw [reclock_frag?, Option.map_map]
    rfl
  refine ⟨h.shape.congr reclock_dev rfl rfl node rfl rfl rfl rfl rfl, ?_, ?_⟩
  · intro i f m slot
    rw [reclock_slot] at slot
    obtain ⟨m₀, before, rfl⟩ := Option.map_eq_some_iff.mp slot
    exact h.pages i f m₀ before
  · intro b g frag off
    rw [reclock_frag?] at frag
    obtain ⟨g₀, before, rfl⟩ := Option.map_eq_some_iff.mp frag
    exact h.kept b g₀ before off

theorem reclock_candidates (limit : Phys → Nat) :
    (∃ i f m, (s.reclock ref arm).slot i f = some m ∧ m.frag.nrService = 0 ∧ f < fragnumFree ∧
      m.frag.nrRef < limit m.addr) ↔
    ∃ i f m, s.slot i f = some m ∧ m.frag.nrService = 0 ∧ f < fragnumFree ∧ ref m.addr < limit m.addr := by
  constructor
  · rintro ⟨i, f, m, slot, idle, used, below⟩
    rw [reclock_slot] at slot
    obtain ⟨m₀, before, rfl⟩ := Option.map_eq_some_iff.mp slot
    exact ⟨i, f, m₀, before, idle, used, below⟩
  · rintro ⟨i, f, m, slot, idle, used, below⟩
    refine ⟨i, f, { m with frag := { m.frag with nrRef := ref m.addr } }, ?_, idle, used, below⟩
    rw [reclock_slot, slot]
    rfl

end Sce

/-- A single device in the first slot. -/
theorem Sce.packed_single (h : Devices s) {ctx n : Nat} (count : s.nrCdev = 1) (first : s.dev 0 = some (ctx, n))
    (short : n ≤ 2 ^ 24) : s.Packed := by
  have only : ∀ d, (s.dev d).isSome → d = 0 := by
    intro d present
    obtain ⟨⟨ctx', n'⟩, dev⟩ := Option.isSome_iff_exists.mp present
    have card := h.nrCdev
    rw [count] at card
    refine Finset.card_le_one.mp card.ge d ?_ 0 ?_
    · exact Finset.mem_filter.mpr ⟨Finset.mem_range.mpr (h.bounds d ctx' n' dev).1, present⟩
    · exact Finset.mem_filter.mpr ⟨Finset.mem_range.mpr (h.bounds 0 ctx n first).1, by rw [first]; rfl⟩
  refine ⟨?_, ?_⟩
  · intro d
    rw [count]
    constructor
    · intro present
      rw [only d present]
      exact Nat.one_pos
    · intro lt
      obtain rfl : d = 0 := by omega
      rw [first]
      rfl
  · intro d ctx' n' dev
    obtain rfl := only d (by rw [dev]; rfl)
    obtain ⟨_, rfl⟩ := Prod.mk.inj (Option.some.inj (first.symm.trans dev))
    exact short

namespace World

variable {w : World} {allow : World → Call → Prop}

theorem exec_addcdev (base : w.Base) {m ctx : Nat} {vmalloc : Bool} {w' : World}
    (moves : w.exec (.addcdev m ctx vmalloc) = some w') : w'.sce.dev = w.sce.dev ∨
      ∃ d, (∀ e, e < d → (w.sce.dev e).isSome) ∧ ∀ e, e ≠ d → w'.sce.dev e = w.sce.dev e := by
  obtain ⟨op, reply, s', named, run, rfl⟩ := exec_eq_some.mp moves
  obtain rfl := Option.some.inj named
  obtain ⟨_, effect⟩ := Sce.call_effect base.inv (show (Op.addcdev m ctx vmalloc).Typed from trivial) run
  obtain ⟨r, done, same⟩ := Except.map_eq_ok.mp run
  obtain ⟨rfl, rfl⟩ := Prod.mk.inj same
  obtain ⟨r, s'⟩ := r
  simp only at effect done
  generalize view : s'.view = v' at effect
  have dev : s'.dev = v'.dev := congrArg View.dev view
  cases effect with
  | addcdevFail => exact Or.inl dev
  | @addcdev _ _ d n _ =>
    refine Or.inr ⟨d, fun e => sceAddcdev_lowest done, fun e ne => ?_⟩
    show s'.dev e = _
    rw [dev]
    exact if_neg ne

/-- While no device is removed the present ones are the first ones of the table. -/
theorem first_devices (reached : Reachable exec (fun _ call => ∀ d, call ≠ .rmcdev d) init w) :
    ∀ d, (w.sce.dev d).isSome ↔ d < w.sce.nrCdev := by
  obtain ⟨base, closed⟩ : w.Base ∧ ∀ d e, e < d → (w.sce.dev d).isSome → (w.sce.dev e).isSome := by
    apply reached.invariant (I := fun w => w.Base ∧ ∀ d e, e < d → (w.sce.dev d).isSome → (w.sce.dev e).isSome)
    · refine ⟨.init, fun d e _ present => ?_⟩
      cases present
    · rintro w call w' ⟨base, closed⟩ keeps moves
      obtain ⟨base', reply, _, turn⟩ := exec_turn base moves
      refine ⟨base', fun d e lt present => ?_⟩
      have stays : (w.sce.dev e).isSome → (w'.sce.dev e).isSome := by
        intro here
        obtain ⟨p, dev⟩ := Option.isSome_iff_exists.mp here
        have there : w'.sce.dev e = some p := turn.dev_stays dev (keeps e)
        rw [there]
        rfl
      refine stays ?_
      obtain ⟨p, dev⟩ := Option.isSome_iff_exists.mp present
      rcases turn.dev dev with old | ⟨absent, m, ctx, vmalloc, rfl, _⟩
      · exact closed d e lt (Option.isSome_of_eq_some old)
      · have absent : w.sce.dev d = none := absent
        rcases exec_addcdev base moves with same | ⟨d', filled, others⟩
        · rw [same, absent] at present
          cases present
        · by_cases here : d = d'
          · exact filled e (here ▸ lt)
          · rw [others d here, absent] at present
            cases present
  -- the number of the present devices is the number of slots before the first empty one
  have count := base.inv.shape.devices.nrCdev
  have bounds : ∀ d, (w.sce.dev d).isSome → d < sceMaxCdev := by
    intro d present
    obtain ⟨⟨ctx, n⟩, dev⟩ := Option.isSome_iff_exists.mp present
    exact (base.inv.shape.devices.bounds d ctx n dev).1
  intro d
  rw [count]
  constructor
  · intro present
    refine Nat.lt_of_lt_of_le (Nat.lt_succ_self d) ?_
    rw [← Finset.card_range d.succ]
    refine Finset.card_le_card fun e member => ?_
    have here : (w.sce.dev e).isSome := by
      rcases Nat.lt_or_eq_of_le (Nat.lt_succ_iff.mp (Finset.mem_range.mp member)) with lt | rfl
      · exact closed d e lt present
      · exact present
    exact Finset.mem_filter.mpr ⟨Finset.mem_range.mpr (bounds e here), here⟩
  · intro lt
    by_contra absent
    refine Nat.lt_irrefl d (Nat.lt_of_lt_of_le lt ?_)
    rw [← Finset.card_range d]
    refine Finset.card_le_card fun e member => ?_
    have here := (Finset.mem_filter.mp member).2
    rw [Finset.mem_range]
    rcases Nat.lt_trichotomy e d with less | rfl | more
    · exact less
    · exact absurd here absent
    · exact absurd (closed e d more here) absent

/-- Wherever the arm stands and whatever the reference counts are: eviction succeeds exactly when the arm
passes some idle fragment more often than it is referenced. With no device too long for a pfid these are
the fragments below the ceiling of the references. -/
theorem evictFrag_succeeds_iff (reached : Reachable exec (fun _ call => ∀ d, call ≠ .rmcdev d) init w)
    (ref : Phys → Nat) (arm : Word) :
    ((w.sce.reclock ref arm).Evicts ↔ w.sce.nrFreefrag < w.sce.nrFrag ∧
      ∃ i f m, w.sce.slot i f = some m ∧ m.frag.nrService = 0 ∧ f < fragnumFree ∧ ref m.addr <
        Clock.passes (w.sce.reclock ref arm).armAt (some m.addr) (evictBudget w.sce.nrFrag)) ∧
    ((∀ d ctx n, w.sce.dev d = some (ctx, n) → n ≤ 2 ^ 24) → ((w.sce.reclock ref arm).Evicts ↔
      ∃ i f m, w.sce.slot i f = some m ∧ m.frag.nrService = 0 ∧ f < fragnumFree ∧ ref m.addr < sceRefCeiling)) := by
  have inv : Inv nowhere (w.sce.reclock ref arm) := Sce.reclock_inv (base_of_reachable reached).inv
  have present : ∀ d, ((w.sce.reclock ref arm).dev d).isSome ↔ d < (w.sce.reclock ref arm).nrCdev := by
    rw [Sce.reclock_dev]
    exact first_devices reached
  let passes (a : Phys) := Clock.passes (w.sce.reclock ref arm).armAt (some a) (evictBudget w.sce.nrFrag)
  refine ⟨(evictFrag_iff inv present).trans (and_congr Iff.rfl (Sce.reclock_candidates passes)), fun short => ?_⟩
  refine (evictFrag_packed_iff inv ⟨present, ?_⟩).trans (Sce.reclock_candidates fun _ => sceRefCeiling)
  rw [Sce.reclock_dev]
  exact short

/-- A device and a LUN of one fragment, cached and read often enough to be referenced to the ceiling. -/
def warmCached : World :=
  (Util.execAll exec (fun _ call => match call with | .rmcdev _ => false | _ => true) init
    [.addcdev 2048 7 true, .addlun 2048 9 true, .get4read 0 0 8, .get4pop fun _ _ => 0#32, .put4pop 3 false,
      .get4read 0 0 8, .put4read 5, .get4read 0 0 8, .put4read 7, .get4read 0 0 8, .put4read 9,
      .get4read 0 0 8, .put4read 11]).getD init

theorem warmCached_reachable : Reachable exec (fun _ call => ∀ d, call ≠ .rmcdev d) init warmCached :=
  Util.reachable_getD (fun _ _ ok d same => by simp [same] at ok) (by decide +kernel)

theorem warmCached_slot : (warmCached.sce.slot 0 0).map (fun m => (m.frag.nrService, m.frag.nrRef)) = some (0, 4) := by
  decide +kernel

theorem evictFrag_succeeds_warmCached : (warmCached.sce.reclock (fun _ => 3) 0#32).Evicts := by
  obtain ⟨m, slot, facts⟩ := Option.map_eq_some_iff.mp warmCached_slot
  obtain ⟨idle, _⟩ := Prod.mk.inj facts
  have packed := Sce.packed_single (base_of_reachable warmCached_reachable).inv.shape.devices (by decide +kernel)
    (show warmCached.sce.dev 0 = some (7, 1) by decide +kernel) Nat.one_le_two_pow
  exact ((evictFrag_succeeds_iff warmCached_reachable (fun _ => 3) 0#32).2 packed.short).mpr
    ⟨0, 0, m, slot, idle, by decide, by decide⟩

/-- The sweep lowers the count to zero and ends before the step that would take the fragment. -/
theorem evictFrag_gives_up : Reachable exec (fun _ call => ∀ d, call ≠ .rmcdev d) init warmCached ∧
    (warmCached.sce.slot 0 0).map (fun m => (m.frag.nrService, m.frag.nrRef)) = some (0, 4) ∧
    (evictFrag warmCached.sce).toOption.map Prod.fst = some Ret.error :=
  ⟨warmCached_reachable, warmCached_slot, by decide +kernel⟩

theorem setArm_inv (h : Inv nowhere s) (arm : Word) : Inv nowhere { s with arm := arm } :=
  (h.congr (t := { s with arm := arm }) rfl rfl rfl rfl rfl rfl rfl).1

/-- With the devices in the first slots and wherever the arm stands, a successful eviction takes the idle
fragment with the least pair of reference count and distance from the arm. -/
theorem evictFrag_takes (reached : Reachable exec allow init w) (arm : Word)
    (packed : w.sce.Packed) (evict : evictFrag { w.sce with arm := arm } = .ok (.success, s')) :
    ∃ i f m, ({ w.sce with arm := arm } : Sce).Victim s' i f m :=
  evictFrag_victim (setArm_inv (base_of_reachable reached).inv arm) ⟨packed.present, packed.short⟩ evict

theorem halfCached_packed : halfCached.sce.Packed :=
  Sce.packed_single (base_of_reachable halfCached_reachable).inv.shape.devices (by decide +kernel)
    (show halfCached.sce.dev 0 = some (7, 1) by decide +kernel) Nat.one_le_two_pow

theorem evictFrag_takes_halfCached : ∃ s', evictFrag { halfCached.sce with arm := 0#32 } = .ok (.success, s') ∧
    ∃ i f m, ({ halfCached.sce with arm := 0#32 } : Sce).Victim s' i f m := by
  have done : (evictFrag { halfCached.sce with arm := 0#32 }).toOption.map Prod.fst = some Ret.success := by
    decide +kernel
  cases run : evictFrag { halfCached.sce with arm := 0#32 } with
  | error e =>
    rw [run] at done
    cases done
  | ok r =>
    obtain ⟨ret, s'⟩ := r
    rw [run] at done
    obtain rfl : ret = .success := Option.some.inj done
    exact ⟨s', rfl, evictFrag_takes halfCached_reachable 0#32 halfCached_packed run⟩

/-- A LUN of 2^32 - 1 fragments with the last one and the first one cached. -/
def lastCached : World :=
  after [.addcdev 4096 7 true, .addlun (2 ^ 43 - 2 ^ 11) 9 true, .get4read 0 (0xfffffffe * 2048) 8,
    .get4pop fun _ _ => 0#32, .put4pop 3 false, .get4read 0 0 8, .get4pop fun _ _ => 0#32, .put4pop 6 false]

theorem lastCached_reachable : Reachable exec (fun _ _ => True) init lastCached :=
  after_reachable (by decide +kernel)

/-- The idle fragment whose number is `FRAGNUM_FREE` comes first, and another one is taken. -/
theorem evictFrag_passes_last : Reachable exec (fun _ _ => True) init lastCached ∧ lastCached.sce.Packed ∧
    (lastCached.sce.slot 0 0xfffffffe).map (fun m => (m.frag.nrService, m.frag.nrRef, lastCached.sce.armDist m.addr)) =
      some (0, 0, 0) ∧
    (lastCached.sce.slot 0 0).map (fun m => (m.frag.nrService, m.frag.nrRef, lastCached.sce.armDist m.addr)) =
      some (0, 0, 1) ∧
    (evictFrag lastCached.sce).toOption.map (fun r => (r.1, r.2.place 0 0xfffffffe, r.2.place 0 0)) =
      some (Ret.success, some ⟨0, 0⟩, none) := by
  refine ⟨lastCached_reachable, ?_, by decide +kernel, by decide +kernel, by decide +kernel⟩
  exact Sce.packed_single (base_of_reachable lastCached_reachable).inv.shape.devices (by decide +kernel)
    (show lastCached.sce.dev 0 = some (7, 2) by decide +kernel) (by norm_num)

end World

end Iostash
