import Iostash.Util.Clock
import Iostash.Sce.Allocation

/-!
# The clock of the eviction

`_evict_frag` sweeps the fragments with a clock arm. `armAt` is the way of the arm, `swept` the engine
after the arm has moved and taken nothing, and `evictLoop_cases` says when the loop takes a fragment.
-/

namespace Iostash

open Util

/-- A fragment the clock may take, if its reference count allows. -/
def Frag.evictable (g : Frag) : Bool := decide (g.fragnum < fragnumFree) && decide (g.nrService = 0)

/-- The reference count after the arm has passed `n` times. -/
def Frag.cooled (n : Nat) (g : Frag) : Frag := if g.evictable then { g with nrRef := g.nrRef - n } else g

namespace Sce

/-- The fragment the arm returns next. -/
def armFrag (s : Sce) : Option Phys := (getFragAdvanceClockarm s).1

def advance (s : Sce) : Sce := (getFragAdvanceClockarm s).2

/-- The arm after `n` moves. -/
def turned (s : Sce) : Nat → Sce
  | 0 => s
  | n + 1 => (s.turned n).advance

/-- The fragment of the arm's move `n`. -/
def armAt (s : Sce) (n : Nat) : Option Phys := (s.turned n).armFrag

/-- A move of the arm that takes nothing. -/
def tick (s : Sce) : Sce :=
  match s.armFrag with
  | none => s.advance
  | some a => if (s.frag? a).any Frag.evictable then s.advance.modifyFrag a (fun g => { g with nrRef := g.nrRef - 1 })
    else s.advance

def swept (s : Sce) : Nat → Sce
  | 0 => s
  | n + 1 => (s.swept n).tick

/-- The reference count of a fragment the clock may take. -/
def evictRef (s : Sce) (a : Option Phys) : Option Nat :=
  ((a.bind s.frag?).filter Frag.evictable).map Frag.nrRef

variable {s s' : Sce} {a : Phys} {n t u i f : Nat} {m : Slot}

/-! ### The arm -/

theorem getFragAdvanceClockarm_eq : getFragAdvanceClockarm s = (s.armFrag, s.advance) := rfl

theorem advance_eq : s.advance = { s with arm := s.advance.arm } := by
  unfold advance getFragAdvanceClockarm
  split
  · rfl
  · simp only
    cases s.cdevtbl (scePfidDev s.arm % s.nrCdev) <;> rfl

@[simp] theorem advance_frag? : s.advance.frag? a = s.frag? a := by rw [advance_eq]; rfl
@[simp] theorem advance_dev : s.advance.dev = s.dev := by rw [advance_eq]; rfl
@[simp] theorem advance_luntbl : s.advance.luntbl = s.luntbl := by rw [advance_eq]
@[simp] theorem advance_nrCdev : s.advance.nrCdev = s.nrCdev := by rw [advance_eq]
@[simp] theorem advance_nrFrag : s.advance.nrFrag = s.nrFrag := by rw [advance_eq]
@[simp] theorem advance_nrFreefrag : s.advance.nrFreefrag = s.nrFreefrag := by rw [advance_eq]
@[simp] theorem advance_freefraglist : s.advance.freefraglist = s.freefraglist := by rw [advance_eq]

/-- The way of the arm depends on the sizes of the devices only. -/
theorem arm_congr (nrCdev : s'.nrCdev = s.nrCdev) (dev : s'.dev = s.dev) (arm : s'.arm = s.arm) :
    s'.armFrag = s.armFrag ∧ s'.advance.arm = s.advance.arm := by
  unfold armFrag advance getFragAdvanceClockarm
  rw [nrCdev, arm]
  split
  · exact ⟨rfl, arm⟩
  · have same := congrFun dev (scePfidDev s.arm % s.nrCdev)
    unfold Sce.dev at same
    simp only
    cases here : s.cdevtbl (scePfidDev s.arm % s.nrCdev) <;> cases there : s'.cdevtbl (scePfidDev s.arm % s.nrCdev)
    · exact ⟨rfl, rfl⟩
    · simp [here, there] at same
    · simp [here, there] at same
    · simp only [here, there, Option.map_some, Option.some.injEq, Prod.mk.injEq] at same
      simp only [same.2]
      exact ⟨trivial, trivial⟩

theorem turned_fields : (s.turned n).nrCdev = s.nrCdev ∧ (s.turned n).dev = s.dev := by
  induction n with
  | zero => exact ⟨rfl, rfl⟩
  | succ n ih => exact ⟨advance_nrCdev.trans ih.1, advance_dev.trans ih.2⟩

/-! ### Sweeping -/

@[simp] theorem tick_dev : s.tick.dev = s.dev := by
  unfold tick
  split
  · exact advance_dev
  · split
    · rw [modifyFrag_dev, advance_dev]
    · exact advance_dev

theorem tick_fields : s.tick.arm = s.advance.arm ∧ s.tick.luntbl = s.luntbl ∧ s.tick.nrCdev = s.nrCdev ∧
    s.tick.nrFrag = s.nrFrag ∧ s.tick.nrFreefrag = s.nrFreefrag ∧ s.tick.freefraglist = s.freefraglist := by
  unfold tick
  split
  · simp
  · split <;> simp [modifyFrag]

theorem tick_frag? : s.tick.frag? a = (s.frag? a).map (Frag.cooled (if s.armFrag = some a then 1 else 0)) := by
  have still : (s.frag? a).map (Frag.cooled 0) = s.frag? a := by
    have keep : Frag.cooled 0 = id := by funext g; simp [Frag.cooled]
    rw [keep]
    simp
  unfold tick
  cases arm : s.armFrag with
  | none => simp [still]
  | some b =>
    simp only
    split
    · rename_i ready
      rw [modifyFrag_frag?, advance_frag?]
      split
      · rename_i e
        subst e
        cases frag : s.frag? a with
        | none => rfl
        | some g =>
          have evictable : g.evictable = true := by simpa [frag] using ready
          simp [Frag.cooled, evictable]
      · rename_i ne
        rw [if_neg fun e => ne (Option.some.inj e).symm, still]
    · rename_i not
      rw [advance_frag?]
      split
      · rename_i e
        obtain rfl := Option.some.inj e
        cases frag : s.frag? b with
        | none => rfl
        | some g =>
          have fixed : g.evictable = false := by simpa [frag] using not
          simp [Frag.cooled, fixed]
      · exact still.symm

theorem swept_fields : (s.swept n).arm = (s.turned n).arm ∧ (s.swept n).dev = s.dev ∧ (s.swept n).luntbl = s.luntbl ∧
    (s.swept n).nrCdev = s.nrCdev ∧ (s.swept n).nrFrag = s.nrFrag ∧ (s.swept n).nrFreefrag = s.nrFreefrag ∧
    (s.swept n).freefraglist = s.freefraglist := by
  induction n with
  | zero => exact ⟨rfl, rfl, rfl, rfl, rfl, rfl, rfl⟩
  | succ n ih =>
    obtain ⟨arm, dev, lun, nrCdev, nrFrag, count, head⟩ := ih
    obtain ⟨arm', lun', nrCdev', nrFrag', count', head'⟩ := tick_fields (s := s.swept n)
    obtain ⟨nrCdev₀, dev₀⟩ := turned_fields (s := s) (n := n)
    refine ⟨?_, tick_dev.trans dev, lun'.trans lun, nrCdev'.trans nrCdev, nrFrag'.trans nrFrag, count'.trans count,
      head'.trans head⟩
    exact arm'.trans (arm_congr (nrCdev.trans nrCdev₀.symm) (dev.trans dev₀.symm) arm).2

theorem swept_armFrag : (s.swept n).armFrag = s.armAt n := by
  obtain ⟨arm, dev, _, nrCdev, _⟩ := swept_fields (s := s) (n := n)
  obtain ⟨nrCdev₀, dev₀⟩ := turned_fields (s := s) (n := n)
  exact (arm_congr (nrCdev.trans nrCdev₀.symm) (dev.trans dev₀.symm) arm).1

theorem cooled_cooled {g : Frag} {k : Nat} : (g.cooled n).cooled k = g.cooled (n + k) := by
  unfold Frag.cooled
  split
  · rename_i ready
    rw [if_pos (show Frag.evictable { g with nrRef := g.nrRef - n } = true from ready), Nat.sub_sub]
  · rfl

/-- Sweeping wears down the reference counts of what the arm passes. -/
theorem swept_frag? : (s.swept n).frag? a = (s.frag? a).map (Frag.cooled (Clock.passes s.armAt (some a) n)) := by
  induction n with
  | zero =>
    have keep : Frag.cooled 0 = id := by funext g; simp [Frag.cooled]
    simp [swept, keep]
  | succ n ih =>
    show (s.swept n).tick.frag? a = _
    rw [tick_frag?, ih, swept_armFrag, Clock.passes_succ, Option.map_map]
    congr 1
    funext g
    exact cooled_cooled

/-! ### What the loop takes -/

theorem armFrag_present (h : Inv nowhere s) (arm : s.armFrag = some a) : ∃ g, s.frag? a = some g := by
  obtain ⟨r, s', clock, _, _, present⟩ := getFragAdvanceClockarm_spec h
  obtain ⟨rfl, rfl⟩ := Prod.mk.inj (getFragAdvanceClockarm_eq.symm.trans clock)
  obtain ⟨g, frag⟩ := present a arm
  exact ⟨g, advance_frag? ▸ frag⟩

theorem advance_view (h : Inv nowhere s) : Inv nowhere s.advance ∧ s.advance.view = s.view := by
  rw [advance_eq]
  exact h.congr rfl rfl rfl rfl rfl rfl rfl

theorem tick_view (h : Inv nowhere s) : Inv nowhere s.tick ∧ s.tick.view = s.view := by
  obtain ⟨h₁, view₁⟩ := advance_view h
  unfold tick
  cases arm : s.armFrag with
  | none => exact ⟨h₁, view₁⟩
  | some a =>
    simp only
    split
    · rename_i ready
      obtain ⟨g, frag, evictable⟩ := (Option.any_eq_true _ _).mp ready
      simp only [Frag.evictable, Bool.and_eq_true, decide_eq_true_eq] at evictable
      obtain ⟨_, m, slot, rfl, rfl⟩ := h₁.evictable (advance_frag?.trans frag) evictable.1 evictable.2
      obtain ⟨h₂, view₂⟩ := h₁.modifyFrag_same (φ := fun g => { g with nrRef := g.nrRef - 1 }) slot rfl rfl rfl rfl
      exact ⟨h₂, view₂.trans view₁⟩
    · exact ⟨h₁, view₁⟩

theorem swept_view (h : Inv nowhere s) : Inv nowhere (s.swept n) ∧ (s.swept n).view = s.view := by
  induction n with
  | zero => exact ⟨h, rfl⟩
  | succ n ih =>
    obtain ⟨h', view'⟩ := tick_view ih.1
    exact ⟨h', view'.trans ih.2⟩

theorem evictRef_eq_some (h : Inv nowhere s) {r : Nat} : s.evictRef (some a) = some r ↔
    ∃ i f m, s.slot i f = some m ∧ m.addr = a ∧ m.frag.nrService = 0 ∧ f < fragnumFree ∧ m.frag.nrRef = r := by
  simp only [evictRef, Option.bind_some, Option.map_eq_some_iff, Option.filter_eq_some_iff, Frag.evictable,
    Bool.and_eq_true, decide_eq_true_eq]
  constructor
  · rintro ⟨g, ⟨frag, used, idle⟩, rfl⟩
    obtain ⟨_, m, slot, addr, rfl⟩ := h.evictable frag used idle
    exact ⟨_, _, m, slot, addr, idle, used, rfl⟩
  · rintro ⟨i, f, m, slot, rfl, idle, used, rfl⟩
    have fragnum : m.frag.fragnum = f := congrArg Node.fragnum (h.shape.node_of_slot slot)
    exact ⟨m.frag, ⟨frag_of_slot slot, by rw [fragnum]; exact used, idle⟩, rfl⟩

theorem swept_slot : (s.swept n).slot i f =
    (s.slot i f).map fun m => { m with frag := m.frag.cooled (Clock.passes s.armAt (some m.addr) n) } := by
  unfold slot
  rw [(swept_fields (s := s) (n := n)).2.2.1]
  cases s.luntbl i with
  | none => rfl
  | some l =>
    simp only [Option.bind_some]
    split
    · rw [swept_frag?, Option.map_map, Option.map_map]
      rfl
    · rfl

theorem advance_slot : s.advance.slot i f = s.slot i f := by rw [advance_eq]; rfl

/-- A move of the arm in the loop of `_evict_frag`. -/
theorem evictLoop_succ (h : Inv nowhere s) (n : Nat) :
    (s.armAt t = none ∧ evictLoop (n + 1) (s.swept t) = .ok (.error, (s.swept t).advance)) ∨
    (¬ Clock.Due s.armAt s.evictRef t ∧ evictLoop (n + 1) (s.swept t) = evictLoop n (s.swept (t + 1))) ∨
    (Clock.Due s.armAt s.evictRef t ∧ ∃ i f m, s.armAt t = some m.addr ∧ s.slot i f = some m ∧
      m.frag.nrService = 0 ∧ f < fragnumFree ∧
      evictLoop (n + 1) (s.swept t) = (unmapFrag (s.swept t).advance i f).map fun r => (.success, r.2)) := by
  obtain ⟨h', _⟩ := swept_view (n := t) h
  obtain ⟨h₁, _⟩ := advance_view h'
  have here : (s.swept t).armFrag = s.armAt t := swept_armFrag
  rw [evictLoop.eq_2, getFragAdvanceClockarm_eq, here]
  cases arm : s.armAt t with
  | none => exact Or.inl ⟨rfl, rfl⟩
  | some a =>
    right
    rw [arm] at here
    obtain ⟨g', frag'⟩ := armFrag_present h' here
    have swept := frag'
    rw [swept_frag?] at swept
    obtain ⟨g, frag, rfl⟩ := Option.map_eq_some_iff.mp swept
    have next : (s.swept (t + 1)) = (s.swept t).tick := rfl
    simp only [advance_frag?, frag', next, tick, here, Option.any_some]
    have same : (g.cooled (Clock.passes s.armAt (some a) t)).evictable = g.evictable := by
      unfold Frag.cooled
      split <;> rfl
    have ref : s.evictRef (some a) = if g.evictable then some g.nrRef else none := by
      cases ready : g.evictable <;> simp [evictRef, frag, Option.filter, ready]
    have due : Clock.Due s.armAt s.evictRef t ↔ g.evictable = true ∧ g.nrRef ≤ Clock.passes s.armAt (some a) t := by
      unfold Clock.Due
      rw [arm, ref]
      cases g.evictable <;> simp
    cases ready : g.evictable with
    | false =>
      have not : ¬ ((g.cooled (Clock.passes s.armAt (some a) t)).fragnum < fragnumFree ∧
          (g.cooled (Clock.passes s.armAt (some a) t)).nrService = 0) := by
        rw [ready] at same
        simpa [Frag.evictable] using same
      refine Or.inl ⟨by rw [due, ready]; simp, ?_⟩
      rw [if_neg not]
      simp [same, ready]
    | true =>
      rw [ready] at same
      have used : (g.cooled (Clock.passes s.armAt (some a) t)).fragnum < fragnumFree ∧
          (g.cooled (Clock.passes s.armAt (some a) t)).nrService = 0 := by
        simpa [Frag.evictable] using same
      have count : (g.cooled (Clock.passes s.armAt (some a) t)).nrRef = g.nrRef - Clock.passes s.armAt (some a) t := by
        simp [Frag.cooled, ready]
      rw [if_pos used, count, due, ready]
      by_cases worn : g.nrRef ≤ Clock.passes s.armAt (some a) t
      · right
        obtain ⟨bound, m', slot', addr, frag₁⟩ := h₁.evictable (advance_frag?.trans frag') used.1 used.2
        rw [advance_slot, swept_slot] at slot'
        obtain ⟨m, slot, rfl⟩ := Option.map_eq_some_iff.mp slot'
        have addr : m.addr = a := addr
        obtain rfl : m.frag = g := by
          have there := frag_of_slot slot
          rw [addr] at there
          exact Option.some.inj (there.symm.trans frag)
        refine ⟨⟨rfl, worn⟩, _, _, m, by rw [addr], slot, ?_, used.1, ?_⟩
        · have := used.2
          unfold Frag.cooled at this
          split at this <;> exact this
        · rw [if_pos (Nat.sub_eq_zero_of_le worn), if_neg (Nat.not_le.mpr bound)]
          cases unmapFrag (s.swept t).advance _ _ <;> rfl
      · left
        refine ⟨fun both => worn both.2, ?_⟩
        rw [if_neg (by omega), if_pos same]

/-- The loop takes the first fragment that is due, unless the arm finds no fragment before. -/
theorem evictLoop_cases (h : Inv nowhere s) (n : Nat) : ∀ t, (∀ u, u < t → ¬ Clock.Due s.armAt s.evictRef u) →
    (∃ u i f m, t ≤ u ∧ u < t + n ∧ Clock.Takes s.armAt s.evictRef u ∧ s.armAt u = some m.addr ∧ s.slot i f = some m ∧
      m.frag.nrService = 0 ∧ f < fragnumFree ∧
      evictLoop n (s.swept t) = (unmapFrag (s.swept u).advance i f).map fun r => (.success, r.2)) ∨
    ((∃ s', evictLoop n (s.swept t) = .ok (.error, s')) ∧
      ((∃ u, u < t + n ∧ s.armAt u = none) ∨ ∀ u, u < t + n → ¬ Clock.Due s.armAt s.evictRef u)) := by
  induction n with
  | zero => exact fun t none => Or.inr ⟨⟨_, rfl⟩, Or.inr none⟩
  | succ n ih =>
    intro t none
    rcases evictLoop_succ (t := t) h n with ⟨off, run⟩ | ⟨not, run⟩ | ⟨due, i, f, m, arm, slot, idle, used, run⟩
    · exact Or.inr ⟨⟨_, run⟩, Or.inl ⟨t, by omega, off⟩⟩
    · have none' : ∀ u, u < t + 1 → ¬ Clock.Due s.armAt s.evictRef u := by
        intro u lt
        rcases Nat.lt_succ_iff_lt_or_eq.mp lt with before | rfl
        · exact none u before
        · exact not
      rw [run, show t + (n + 1) = t + 1 + n by omega]
      rcases ih (t + 1) none' with ⟨u, i, f, m, le, rest⟩ | rest
      · exact Or.inl ⟨u, i, f, m, by omega, rest⟩
      · exact Or.inr rest
    · exact Or.inl ⟨t, i, f, m, le_rfl, by omega, ⟨due, none⟩, arm, slot, idle, used, run⟩

/-! ### `_evict_frag` -/

/-- The state after the clock took the fragment `f` of LUN `i`, mapped by `pfid`, at move `t`. -/
def evicted (s : Sce) (t i f : Nat) (pfid : Word) (nrMiss : Nat) : Sce :=
  ((s.swept t).advance.pushFree pfid).setDesc i f (BitVec.ofNat 32 nrMiss &&& fragdescDatamask)

end Sce

open Sce

variable {s : Sce} {i f : Nat} {m : Slot}

/-- An idle fragment is unmapped as long as the free list has room. -/
theorem unmapFrag_room {l : Lun} (h : Inv nowhere s) (lun : s.luntbl i = some l) (slot : s.slot i f = some m)
    (idle : m.frag.nrService = 0) (room : s.nrFreefrag < s.nrFrag) : unmapFrag s i f =
      .ok (.success, (s.pushFree (l.fragmap f)).setDesc i f (BitVec.ofNat 32 m.frag.nrMiss &&& fragdescDatamask)) := by
  obtain ⟨l', lun', inside, mapped, addr, _, frag⟩ := Sce.slot_eq_some.mp slot
  obtain rfl := Option.some.inj (lun.symm.trans lun')
  have off : ¬ m.frag.fragnum = fragnumWithinFreeList := by
    have fragnum : m.frag.fragnum = f := congrArg Node.fragnum (h.shape.node_of_slot slot)
    have bound := h.shape.nrFrag_lt lun
    rw [fragnum]
    simp only [fragnumWithinFreeList]
    omega
  rw [addr] at frag
  have put : freefraglistPut s (l.fragmap f) = .ok (.success, s.pushFree (l.fragmap f)) := by
    simp only [freefraglistPut, Sce.pfid2frag, frag, if_neg off]
    exact if_neg (show ¬ s.nrFrag < s.nrFreefrag + 1 by omega)
  simp only [unmapFrag, lun, if_neg (Nat.not_le.mpr inside), mapped, Sce.pfid2frag, frag, idle]
  simp [put, bind, Except.bind, pure, Except.pure]

/-- The fragment the arm takes is unmapped as it would be before the sweep. -/
theorem unmapFrag_swept {l : Lun} {t : Nat} (h : Inv nowhere s) (lun : s.luntbl i = some l) (slot : s.slot i f = some m)
    (idle : m.frag.nrService = 0) (room : s.nrFreefrag < s.nrFrag) :
    unmapFrag (s.swept t).advance i f = .ok (.success, s.evicted t i f (l.fragmap f) m.frag.nrMiss) := by
  obtain ⟨h₁, _⟩ := advance_view (swept_view (n := t) h).1
  obtain ⟨_, _, lun', _, nrFrag, count, _⟩ := swept_fields (s := s) (n := t)
  have slot₁ : (s.swept t).advance.slot i f =
      some { m with frag := m.frag.cooled (Clock.passes s.armAt (some m.addr) t) } := by
    rw [advance_slot, swept_slot, slot]
    rfl
  have same : ∀ k, (m.frag.cooled k).nrService = m.frag.nrService ∧ (m.frag.cooled k).nrMiss = m.frag.nrMiss := by
    intro k
    unfold Frag.cooled
    split <;> exact ⟨rfl, rfl⟩
  rw [unmapFrag_room h₁ (by rw [advance_luntbl, lun']; exact lun) slot₁ ((same _).1.trans idle)
    (by rw [advance_nrFreefrag, advance_nrFrag, nrFrag, count]; exact room)]
  simp only [(same _).2]
  rfl

/-- The clock takes the first fragment that is due, or `_evict_frag` fails. It never stops the kernel. -/
theorem evictFrag_cases (h : Inv nowhere s) :
    (∃ t i f m l, t < evictBudget s.nrFrag ∧ s.nrFreefrag < s.nrFrag ∧ Clock.Takes s.armAt s.evictRef t ∧
      s.armAt t = some m.addr ∧ s.slot i f = some m ∧ m.frag.nrService = 0 ∧ f < fragnumFree ∧
      s.luntbl i = some l ∧ evictFrag s = .ok (.success, s.evicted t i f (l.fragmap f) m.frag.nrMiss)) ∨
    ((∃ s', evictFrag s = .ok (.error, s')) ∧ (s.nrFrag ≤ s.nrFreefrag ∨
      (∃ t, t < evictBudget s.nrFrag ∧ s.armAt t = none) ∨
      ∀ t, t < evictBudget s.nrFrag → ¬ Clock.Due s.armAt s.evictRef t)) := by
  unfold evictFrag
  split
  · rename_i room
    rcases evictLoop_cases h (evictBudget s.nrFrag) 0 (fun u lt => absurd lt (Nat.not_lt_zero u)) with
      ⟨t, i, f, m, _, lt, takes, arm, slot, idle, used, run⟩ | ⟨fails, why⟩
    · obtain ⟨l, lun, _⟩ := Sce.lun_of_slot slot
      rw [Nat.zero_add] at lt
      refine Or.inl ⟨t, i, f, m, l, lt, room, takes, arm, slot, idle, used, lun, run.trans ?_⟩
      rw [unmapFrag_swept h lun slot idle room]
      rfl
    · refine Or.inr ⟨fails, Or.inr ?_⟩
      rw [Nat.zero_add] at why
      exact why
  · rename_i full
    exact Or.inr ⟨⟨s, rfl⟩, Or.inl (Nat.not_lt.mp full)⟩

theorem evictFrag_returns (h : Inv nowhere s) : ∃ r s', evictFrag s = .ok (r, s') := by
  rcases evictFrag_cases h with ⟨t, i, f, m, l, _, _, _, _, _, _, _, _, run⟩ | ⟨⟨s', run⟩, _⟩
  · exact ⟨_, _, run⟩
  · exact ⟨_, _, run⟩

end Iostash
