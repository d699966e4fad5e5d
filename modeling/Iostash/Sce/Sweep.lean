import Iostash.Sce.Clock

/-!
# The round of the clock arm

With the devices in the first slots of the table, and none too long for a pfid, the arm goes round all
fragments: through a device in the order of the offsets, and from its last fragment to the next device.
-/

namespace Iostash

open Util

/-- The present devices are the first ones of the table, and a pfid can name all their fragments. -/
structure Sce.Packed (s : Sce) : Prop where
  present : ∀ d, (s.dev d).isSome ↔ d < s.nrCdev
  short : ∀ d ctx n, s.dev d = some (ctx, n) → n ≤ 2 ^ 24

namespace Sce

/-- The fragments before those of device `d`. -/
def ringStart (s : Sce) (d : Nat) : Nat := ∑ e ∈ Finset.range d, devSize s.dev e

/-- The place of a fragment in the round. -/
def ringIndex (s : Sce) (a : Phys) : Nat := s.ringStart a.dev + a.off

def ringSize (s : Sce) : Nat := s.ringStart s.nrCdev

def onRing (s : Sce) (a : Phys) : Prop := a.dev < s.nrCdev ∧ a.off < devSize s.dev a.dev

/-- The fragment after `a` in the round. -/
def ringNext (s : Sce) (a : Phys) : Phys :=
  if a.off + 1 < devSize s.dev a.dev then ⟨a.dev, a.off + 1⟩ else ⟨(a.dev + 1) % s.nrCdev, 0⟩

/-- How far `a` is from the arm. -/
def armDist (s : Sce) (a : Phys) : Nat :=
  (s.ringIndex a + (s.ringSize - s.armFrag.elim 0 s.ringIndex)) % s.ringSize

variable {s : Sce} {a b : Phys} {d n : Nat}

/-! ### Places in the round -/

theorem ringStart_succ : s.ringStart (d + 1) = s.ringStart d + devSize s.dev d := Finset.sum_range_succ _ _

theorem ringStart_mono : Monotone s.ringStart := by
  refine monotone_nat_of_le_succ fun d => ?_
  rw [ringStart_succ]
  exact Nat.le_add_right _ _

theorem onRing.lt_start (h : s.onRing a) {e : Nat} (lt : a.dev < e) : s.ringIndex a < s.ringStart e := by
  have le : s.ringStart (a.dev + 1) ≤ s.ringStart e := ringStart_mono lt
  rw [ringStart_succ] at le
  have off := h.2
  unfold ringIndex
  omega

theorem onRing.lt (h : s.onRing a) : s.ringIndex a < s.ringSize := h.lt_start h.1

theorem onRing.inj (h : s.onRing a) (h' : s.onRing b) (same : s.ringIndex a = s.ringIndex b) : a = b := by
  have apart : ∀ {a b : Phys}, s.onRing a → a.dev < b.dev → s.ringIndex a < s.ringIndex b := by
    intro a b on lt
    exact Nat.lt_of_lt_of_le (on.lt_start lt) (Nat.le_add_right _ _)
  rcases Nat.lt_trichotomy a.dev b.dev with lt | eq | gt
  · exact absurd same (apart h lt).ne
  · unfold ringIndex at same
    rw [eq] at same
    cases a
    cases b
    simp only [Phys.mk.injEq] at *
    exact ⟨eq, by omega⟩
  · exact absurd same (apart h' gt).ne'

theorem devSize_pos (h : Devices s) (packed : s.Packed) (lt : d < s.nrCdev) :
    0 < devSize s.dev d ∧ devSize s.dev d ≤ 2 ^ 24 := by
  obtain ⟨⟨ctx, n⟩, dev⟩ := Option.isSome_iff_exists.mp ((packed.present d).mpr lt)
  simp only [devSize, dev, Option.elim_some]
  exact ⟨(h.bounds d ctx n dev).2.2.2, packed.short d ctx n dev⟩

theorem nrCdev_le (h : Devices s) (packed : s.Packed) : s.nrCdev ≤ 16 := by
  by_contra many
  have last : 16 < s.nrCdev := Nat.not_le.mp many
  obtain ⟨⟨ctx, n⟩, dev⟩ := Option.isSome_iff_exists.mp ((packed.present 16).mpr last)
  have := (h.bounds 16 ctx n dev).1
  simp only [sceMaxCdev] at this
  omega

/-- A step in the round is a step in the order of the places. -/
theorem ringIndex_next (h : Devices s) (packed : s.Packed) (on : s.onRing a) : s.onRing (s.ringNext a) ∧
    s.ringIndex (s.ringNext a) = (s.ringIndex a + 1) % s.ringSize := by
  obtain ⟨dev, off⟩ := on
  have bound := onRing.lt ⟨dev, off⟩
  unfold ringNext
  split
  · rename_i inside
    have on' : s.onRing ⟨a.dev, a.off + 1⟩ := ⟨dev, inside⟩
    refine ⟨on', ?_⟩
    have bound' := on'.lt
    unfold ringIndex at bound' ⊢
    rw [Nat.mod_eq_of_lt (by simp only at bound' ⊢; omega)]
    rfl
  · rename_i last
    have edge : s.ringIndex a + 1 = s.ringStart (a.dev + 1) := by
      unfold ringIndex
      rw [ringStart_succ]
      omega
    rw [edge]
    by_cases more : a.dev + 1 < s.nrCdev
    · have on' : s.onRing ⟨a.dev + 1, 0⟩ := ⟨more, (devSize_pos h packed more).1⟩
      rw [Nat.mod_eq_of_lt more]
      refine ⟨on', ?_⟩
      have bound' := on'.lt
      unfold ringIndex at bound' ⊢
      rw [Nat.add_zero] at bound' ⊢
      exact (Nat.mod_eq_of_lt bound').symm
    · obtain eq : a.dev + 1 = s.nrCdev := by omega
      have filled : 0 < s.nrCdev := Nat.zero_lt_of_lt dev
      rw [eq, Nat.mod_self]
      refine ⟨⟨filled, (devSize_pos h packed filled).1⟩, ?_⟩
      show s.ringStart 0 + 0 = s.ringStart s.nrCdev % s.ringStart s.nrCdev
      rw [Nat.mod_self]
      rfl

/-! ### The arm goes round -/

/-- The arm returns a fragment of the round and moves on to the next. -/
theorem armFrag_packed (h : Devices s) (packed : s.Packed) (filled : 0 < s.nrCdev) :
    ∃ a, s.armFrag = some a ∧ s.onRing a ∧ s.advance.armFrag = some (s.ringNext a) := by
  obtain ⟨d, hd⟩ : ∃ d, d = scePfidDev s.arm % s.nrCdev := ⟨_, rfl⟩
  have lt : d < s.nrCdev := by rw [hd]; exact Nat.mod_lt _ filled
  obtain ⟨pos, short⟩ := devSize_pos h packed lt
  obtain ⟨⟨ctx, n⟩, dev⟩ := Option.isSome_iff_exists.mp ((packed.present d).mpr lt)
  have size : devSize s.dev d = n := by simp [devSize, dev]
  rw [size] at pos short
  obtain ⟨cdev, there, _, rfl⟩ := dev_eq_some.mp dev
  obtain ⟨o, ho⟩ : ∃ o, o = scePfidOff s.arm % cdev.nrFrag := ⟨_, rfl⟩
  have inside : o < cdev.nrFrag := by rw [ho]; exact Nat.mod_lt _ pos
  obtain ⟨arm, harm⟩ : ∃ arm, arm = if cdev.nrFrag ≤ o + 1 then scePfid (d + 1) 0 else scePfid d (o + 1) := ⟨_, rfl⟩
  have clock : ∀ t : Sce, t.nrCdev = s.nrCdev → t.cdevtbl = s.cdevtbl → scePfidDev t.arm % s.nrCdev = d →
      scePfidOff t.arm % cdev.nrFrag = o → t.armFrag = some ⟨d, o⟩ ∧ t.advance.arm = arm := by
    intro t nrCdev tbl dev off
    unfold armFrag advance getFragAdvanceClockarm
    rw [nrCdev, if_neg (Nat.pos_iff_ne_zero.mp filled)]
    simp only [dev, tbl, there, off, harm]
    exact ⟨trivial, trivial⟩
  obtain ⟨here, moved⟩ := clock s rfl rfl hd.symm ho.symm
  refine ⟨⟨d, o⟩, here, ⟨lt, by rw [size]; exact inside⟩, ?_⟩
  have most := nrCdev_le h packed
  have word : ∀ e k, e < 16 → k < 2 ^ 24 → scePfidDev (scePfid e k) = e ∧ scePfidOff (scePfid e k) = k := by
    intro e k lt small
    have name : phys (scePfid e k) = ⟨e, k % 2 ^ 24⟩ := phys_scePfid lt
    rw [Nat.mod_eq_of_lt small] at name
    exact Phys.mk.inj name
  -- where the arm stands decides what it returns
  have returns : ∀ e k, e < s.nrCdev → k < devSize s.dev e → scePfidDev arm % s.nrCdev = e → scePfidOff arm = k →
      s.advance.armFrag = some ⟨e, k⟩ := by
    intro e k elt klt dev off
    obtain ⟨⟨ctx', n'⟩, dev'⟩ := Option.isSome_iff_exists.mp ((packed.present e).mpr elt)
    obtain ⟨cdev', there', _, rfl⟩ := dev_eq_some.mp dev'
    have size' : devSize s.dev e = cdev'.nrFrag := by simp [devSize, dev']
    unfold armFrag getFragAdvanceClockarm
    rw [advance_nrCdev, if_neg (Nat.pos_iff_ne_zero.mp filled), moved, advance_eq]
    rw [size'] at klt
    simp only [dev, there', off, Nat.mod_eq_of_lt klt]
  unfold ringNext
  simp only [size]
  by_cases last : cdev.nrFrag ≤ o + 1
  · rw [if_neg (Nat.not_lt.mpr last)]
    rw [if_pos last] at harm
    have next : (d + 1) % s.nrCdev < s.nrCdev := Nat.mod_lt _ filled
    refine returns _ 0 next (devSize_pos h packed next).1 ?_ ?_
    · rcases Nat.lt_or_ge (d + 1) 16 with lt16 | ge
      · rw [harm, (word (d + 1) 0 lt16 (by decide)).1]
      · obtain rfl : d = 15 := by omega
        obtain eq : s.nrCdev = 16 := by omega
        rw [harm, eq]
        decide
    · rcases Nat.lt_or_ge (d + 1) 16 with lt16 | ge
      · rw [harm, (word (d + 1) 0 lt16 (by decide)).2]
      · obtain rfl : d = 15 := by omega
        rw [harm]
        decide
  · rw [if_pos (Nat.not_le.mp last)]
    rw [if_neg last] at harm
    obtain ⟨dev', off'⟩ := word d (o + 1) (by omega) (by omega)
    refine returns d (o + 1) lt (by rw [size]; omega) ?_ ?_
    · rw [harm, dev', Nat.mod_eq_of_lt lt]
    · rw [harm, off']

theorem turned_devices (h : Devices s) (packed : s.Packed) : Devices (s.turned n) ∧ (s.turned n).Packed := by
  induction n with
  | zero => exact ⟨h, packed⟩
  | succ n ih =>
    refine ⟨ih.1.congr advance_dev advance_nrCdev advance_nrFrag, ?_, ?_⟩
    · intro d
      rw [turned, advance_dev, advance_nrCdev]
      exact ih.2.present d
    · intro d
      rw [turned, advance_dev]
      exact ih.2.short d

theorem armAt_packed (h : Devices s) (packed : s.Packed) (filled : 0 < s.nrCdev) (t : Nat) :
    ∃ a, s.armAt t = some a ∧ s.onRing a ∧ s.armAt (t + 1) = some (s.ringNext a) ∧
      s.ringIndex a = (s.armFrag.elim 0 s.ringIndex + t) % s.ringSize := by
  have move : ∀ t, ∃ a, s.armAt t = some a ∧ s.onRing a ∧ s.armAt (t + 1) = some (s.ringNext a) := by
    intro t
    obtain ⟨nrCdev, dev⟩ := turned_fields (s := s) (n := t)
    obtain ⟨h', packed'⟩ := turned_devices (n := t) h packed
    obtain ⟨a, arm, on, next⟩ := armFrag_packed h' packed' (by rw [nrCdev]; exact filled)
    unfold onRing at on
    unfold ringNext at next
    rw [dev, nrCdev] at on next
    exact ⟨a, arm, on, next⟩
  induction t with
  | zero =>
    obtain ⟨a, arm, on, next⟩ := move 0
    have start : s.armFrag = some a := arm
    refine ⟨a, arm, on, next, ?_⟩
    rw [start, Option.elim_some, Nat.add_zero, Nat.mod_eq_of_lt on.lt]
  | succ t ih =>
    obtain ⟨a, _, on, next, index⟩ := ih
    obtain ⟨b, arm, on', next'⟩ := move (t + 1)
    obtain rfl := Option.some.inj (next.symm.trans arm)
    refine ⟨_, arm, on', next', ?_⟩
    rw [(ringIndex_next h packed on).2, index, Nat.mod_add_mod, Nat.add_assoc]

theorem ring (h : Devices s) (packed : s.Packed) (filled : 0 < s.nrCdev) : Clock.Ring s.armAt s.ringSize
    (fun a => ∃ p, a = some p ∧ s.onRing p) (fun a => a.elim 0 s.armDist) := by
  obtain ⟨a₀, start, on₀, _⟩ := armAt_packed h packed filled 0
  have arm : s.armFrag.elim 0 s.ringIndex = s.ringIndex a₀ := by
    rw [show s.armFrag = some a₀ from start]
    rfl
  have pos := Nat.zero_lt_of_lt on₀.lt
  refine ⟨?_, ?_, ?_⟩
  · intro t
    obtain ⟨a, arm, on, _⟩ := armAt_packed h packed filled t
    exact ⟨a, arm, on⟩
  · rintro _ ⟨p, rfl, _⟩
    exact Nat.mod_lt _ pos
  · rintro t _ ⟨p, rfl, on⟩
    obtain ⟨a, here, on', _, index⟩ := armAt_packed h packed filled t
    rw [here, Option.some.injEq]
    have bound := on₀.lt
    have back : (s.ringIndex p + (s.ringSize - s.ringIndex a₀)) % s.ringSize = t % s.ringSize ↔
        s.ringIndex p = (s.ringIndex a₀ + t) % s.ringSize := by
      have shift : s.ringIndex p + (s.ringSize - s.ringIndex a₀) ≡ t [MOD s.ringSize] ↔
          s.ringIndex p ≡ s.ringIndex a₀ + t [MOD s.ringSize] := by
        rw [← Nat.ModEq.add_iff_left (Nat.ModEq.refl (s.ringIndex a₀))]
        have whole : s.ringIndex a₀ + (s.ringIndex p + (s.ringSize - s.ringIndex a₀)) = s.ringIndex p + s.ringSize := by
          omega
        rw [whole]
        unfold Nat.ModEq
        rw [Nat.add_mod_right]
      unfold Nat.ModEq at shift
      rw [Nat.mod_eq_of_lt on.lt] at shift
      exact shift
    show a = p ↔ t % s.ringSize = s.armDist p
    unfold armDist
    rw [arm, eq_comm (a := t % s.ringSize), back]
    rw [arm] at index
    constructor
    · rintro rfl
      exact index
    · intro same
      exact on'.inj on (index.trans same.symm)

end Sce

end Iostash
