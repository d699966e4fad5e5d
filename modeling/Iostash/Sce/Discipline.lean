import Iostash.Sce.Heat
import Iostash.Sce.Passing
import Iostash.Sce.Runs

/-!
# Which calls keep to their locks

The free list, the miss log and the clock arm are protected by `sce->lock`, the map of a LUN and the fragments it
maps by the lock of the LUN. A call may change only what a lock it holds protects.
-/

namespace Iostash

open Util Sce

variable {s s' : Sce} {i j f x n : Nat} {a : Phys} {r : Ret} {c : Cell} {l : Volume}

/-! ### The calls on one LUN -/

theorem Sce.Within.sameLun (within : s.Within i s') (h : Shape s) (ne : j ≠ i) : s.SameLun j s' := by
  refine .of_luntbl (within.lun j ne) fun f a here => within.frag a fun f' there => ?_
  exact ne (h.place_inj there here).1

/-- Such a call keeps to `sce->lock` exactly when it gives no fragment back to the free list. -/
theorem Sce.Within.sameShared_iff (within : s.Within i s') (h : Shape s) (h' : Shape s') :
    s.SameShared s' ↔ ∀ a, s'.view.free a → s.view.free a := by
  obtain ⟨fl, list⟩ := h.free
  obtain ⟨fl', list'⟩ := h'.free
  have node : ∀ a, s.isFree a → s'.node a = s.node a := by
    intro a free
    unfold Sce.node
    rw [within.frag a fun f here => h.not_free here free]
  have sub : fl ⊆ fl' := by
    intro a member
    have free := (list.mem a).mp member
    refine (list'.mem a).mpr ?_
    unfold Sce.isFree
    rw [node a free]
    exact free
  constructor
  · intro same a free
    have length : fl'.length ≤ fl.length := by
      rw [← list.nrFreefrag, ← list'.nrFreefrag, same.nrFreefrag]
    have perm := (List.subperm_of_subset list.nodup sub).perm_of_length_le length
    exact (list.mem a).mp (perm.mem_iff.mpr ((list'.mem a).mpr free))
  · intro none
    have perm : fl.Perm fl' := (List.perm_ext_iff_of_nodup list.nodup list'.nodup).mpr fun a =>
      ⟨fun member => sub member, fun member => (list.mem a).mpr (none a ((list'.mem a).mp member))⟩
    have count : s'.nrFreefrag = s.nrFreefrag := by
      rw [list.nrFreefrag, list'.nrFreefrag, perm.length_eq]
    refine ⟨within.list count, count, fun a free => ?_, within.misslog, within.arm⟩
    unfold Sce.nextWord
    rw [node a (free.elim id fun free => none a free)]

/-! ### What is given back -/

namespace View

variable {v v' : View}

/-- Nothing becomes free. -/
def FreesNone (v v' : View) : Prop := ∀ a, v'.free a → v.free a

/-- No cell lies in a free place. -/
def Apart (v : View) : Prop := ∀ i f c, v.cell i f = some c → ¬ v.free c.addr

/-- LUN `i` is pending deletion, and `n` requests count on it. -/
def pending (v : View) (i n : Nat) : Prop := ∃ l, v.lun i = some l ∧ l.waiting = true ∧ l.service = n

/-- LUN `i` has a cell that nobody uses. -/
def idles (v : View) (i : Nat) : Prop := ∃ f c, v.cell i f = some c ∧ c.service = 0

theorem settle_free : (v.settle i).free a ↔
    v.free a ∨ v.pending i 0 ∧ ∃ f c, v.cell i f = some c ∧ c.addr = a ∧ c.service = 0 := by
  have gone : (v.lun i).any (fun l => l.waiting && l.service == 0) = true ↔ v.pending i 0 := by
    unfold pending
    cases v.lun i <;> simp
  unfold settle
  split
  · rename_i ends
    rw [purge_free]
    exact or_congr_right (iff_and_self.mpr fun _ => gone.mp ends)
  · rename_i stays
    exact (or_iff_left fun both => stays (gone.mpr both.1)).symm

/-- The garbage collection of a LUN frees nothing when it stays, or no cell of it is idle. -/
theorem settle_freesNone (apart : v.Apart) : v.FreesNone (v.settle i) ↔ ¬ (v.pending i 0 ∧ v.idles i) := by
  constructor
  · rintro none ⟨ends, f, c, cell, idle⟩
    exact apart i f c cell (none c.addr (settle_free.mpr (Or.inr ⟨ends, f, c, cell, rfl, idle⟩)))
  · intro none a free
    rcases settle_free.mp free with old | ⟨ends, f, c, cell, _, idle⟩
    · exact old
    · exact absurd ⟨ends, f, c, cell, idle⟩ none

theorem not_freesNone_of_drop (apart : v.Apart) (cell : v.cell i f = some c)
    (mono : ∀ a, (v.drop i f).free a → v'.free a) : ¬ v.FreesNone v' :=
  fun none => apart i f c cell (none c.addr (mono c.addr (Or.inr ⟨c, cell, rfl⟩)))

theorem collect_freesNone (apart : v.Apart) (cell : v.cell i f = some c) : v.FreesNone (v.collect i f) ↔
    ¬ (c.service = 0 ∧ c.spent = true ∨ v.pending i 0 ∧ v.idles i) := by
  unfold collect
  rw [cell]
  by_cases dead : c.service = 0 ∧ c.spent = true
  · rw [if_pos (by simp [dead])]
    exact iff_of_false (not_freesNone_of_drop apart cell fun a free => settle_free.mpr (Or.inl free))
      fun none => none (Or.inl dead)
  · rw [if_neg (by simpa using dead), settle_freesNone apart, or_iff_right dead]

/-- The garbage collection of an idle cell frees something when the cell or its LUN goes. -/
theorem collect_idle_freesNone (apart : v.Apart) (cell : v.cell i f = some c) (idle : c.service = 0) :
    v.FreesNone (v.collect i f) ↔ ¬ (c.spent = true ∨ v.pending i 0) := by
  have idles : v.idles i := ⟨f, c, cell, idle⟩
  rw [collect_freesNone apart cell, and_iff_right idle, and_iff_left idles]

/-- A change of the cells and the counts that moves and frees nothing. -/
theorem Apart.congr (apart : v.Apart) (free : v'.free = v.free)
    (cell : ∀ j k, (v'.cell j k).map Cell.addr = (v.cell j k).map Cell.addr) : v'.Apart := by
  intro j k c here
  have there := cell j k
  rw [here] at there
  obtain ⟨c₀, before, same⟩ := Option.map_eq_some_iff.mp there.symm
  rw [free, ← same]
  exact apart j k c₀ before

theorem setCell_addr {φ : Cell → Cell} (keeps : ∀ c, (φ c).addr = c.addr) (j k : Nat) :
    ((v.setCell i f φ).cell j k).map Cell.addr = (v.cell j k).map Cell.addr := by
  rw [setCell_cell]
  split
  · cases v.cell j k with
    | none => rfl
    | some c => exact congrArg some (keeps c)
  · rfl

theorem unpin_freesNone (apart : v.Apart) (cell : v.cell i f = some c) (lun : v.lun i = some l) (counted : l.service ≠ 0) :
    v.FreesNone (v.unpin i f) ↔ ¬ (c.service = 1 ∧ (c.spent = true ∨ v.pending i 1)) := by
  by_cases one : c.service = 1
  · have unfolded : v.unpin i f = ((v.setCell i f fun c => { c with service := c.service - 1 }).setLun i
        fun l => { l with service := l.service - 1 }).collect i f := by simp [unpin, cell, one]
    have cell' : (v.setCell i f fun c => { c with service := c.service - 1 }).cell i f =
        some { c with service := c.service - 1 } := by simp [setCell_cell, cell]
    have pending : ((v.setCell i f fun c => { c with service := c.service - 1 }).setLun i
        fun l => { l with service := l.service - 1 }).pending i 0 ↔ v.pending i 1 := by
      simp only [View.pending, setLun_lun, setCell_lun, lun]
      simp
      omega
    rw [unfolded, and_iff_right one, ← pending]
    refine collect_idle_freesNone (c := { c with service := c.service - 1 }) (apart.congr rfl ?_) cell' ?_
    · exact setCell_addr fun _ => rfl
    · simp [one]
  · have unfolded : (v.unpin i f).free = v.free := by simp [unpin, cell, one]
    refine iff_of_true (fun a free => ?_) fun both => one both.1
    rwa [unfolded] at free

theorem release_pending (small : ∀ l, v.lun i = some l → l.service < 2 ^ 32) :
    (v.release i).pending i 0 ↔ v.pending i 1 := by
  unfold pending release
  rw [setLun_lun, if_pos rfl]
  cases lun : v.lun i with
  | none => simp
  | some l =>
    have bound := small l lun
    have zero : sub32 l.service 1 = 0 ↔ l.service = 1 := by
      unfold sub32 u32
      omega
    simp [zero]

/-- The end of a population of `c` gives a fragment back. -/
def settles (v : View) (i : Nat) (c : Cell) (failed : Bool) : Prop :=
  if c.valid = true then failed = false ∧ (c.service = 0 ∧ c.spent = true ∨ v.pending i 1 ∧ v.idles i)
  else c.service = 1 ∧ (failed = true ∨ c.spent = true ∨ v.pending i 1)

theorem complete_freesNone (apart : v.Apart) (small : ∀ l, v.lun i = some l → l.service < 2 ^ 32)
    (cell : v.cell i f = some c) : v.FreesNone (v.complete i f).2 ↔ ¬ v.settles i c false := by
  unfold complete settles
  simp only [cell]
  by_cases valid : c.valid = true
  · simp only [if_pos valid, true_and]
    rw [← release_pending small]
    exact collect_freesNone (v := v.release i) apart cell
  · simp only [if_neg valid, Bool.false_eq_true, false_or]
    by_cases one : c.service = 1
    · have cell' : (v.setCell i f fun c => { c with valid := true, service := 0 }).cell i f =
          some { c with valid := true, service := 0 } := by simp [setCell_cell, cell]
      rw [if_pos one, and_iff_right one, ← release_pending small]
      refine collect_idle_freesNone (v := (v.setCell i f fun c => { c with valid := true, service := 0 }).release i)
        (c := { c with valid := true, service := 0 }) (apart.congr rfl ?_) cell' rfl
      exact setCell_addr fun _ => rfl
    · rw [if_neg one]
      exact iff_of_true (fun a free => free) fun both => one both.1

theorem cancel_freesNone (apart : v.Apart) (cell : v.cell i f = some c) :
    v.FreesNone (v.cancel i f).2 ↔ ¬ v.settles i c true := by
  unfold cancel settles
  simp only [cell, Bool.true_eq_false, false_and, true_or, and_true]
  by_cases taken : c.valid = false ∧ c.service = 1
  · rw [if_pos taken]
    have settles : if c.valid = true then False else c.service = 1 := by simp [taken]
    refine iff_of_false (not_freesNone_of_drop apart cell fun a free => settle_free.mpr (Or.inl free)) fun none =>
      none settles
  · rw [if_neg taken]
    refine iff_of_true (fun a free => free) ?_
    split
    · exact id
    · rename_i valid
      exact fun one => taken ⟨by simpa using valid, one⟩

/-- The end of a read gives a fragment back. -/
def unpins (v : View) (i x n : Nat) : Prop :=
  0 < n ∧ (x + n - 1) / sceSctrPerFrag = x / sceSctrPerFrag ∧ v.inService i x n ∧
    ∃ c, v.cell i (u32 (x / sceSctrPerFrag)) = some c ∧ c.service = 1 ∧ (c.spent = true ∨ v.pending i 1)

/-- A write gives a fragment back. -/
def clears (v : View) (i x n : Nat) : Prop :=
  v.writable i x n ∧ ∃ f c, v.cell i f = some c ∧ c.goes f (invFrag x * 256 + invOff x) (invCount x n) = true

end View

/-- A population takes from another LUN. -/
def Sce.takes (s : Sce) (past : Nat → Nat → Word) : Prop :=
  s.freefraglist = 0#32 ∧ ∃ i f l, choose4population s past = some (i, f) ∧ s.luntbl i = some l ∧ f < l.nrFrag ∧
    s.wearsOther i

/-- The calls that change what no lock they hold protects. -/
def Sce.strays (s : Sce) : Op → Prop
  | .get4read i x n => s.accepts i x n = true ∧ ∀ c, ¬ s.view.served i x n c
  | .put4read i x n => s.view.unpins i x n
  | .invalidate i x n => s.view.clears i x n
  | .get4pop past => s.takes past
  | .put4pop task failed => ∃ i c, s.view.search task.lunctx = some i ∧ s.view.cell i task.lunFragnum = some c ∧
      s.view.settles i c failed
  | _ => False

/-! ### Reading -/

/-- Only LUN `i`, the fragments it maps and the miss log are worked on. -/
structure Sce.Reads (i : Nat) (s s' : Sce) : Prop where
  lun : ∀ j, j ≠ i → s'.luntbl j = s.luntbl j
  frag : ∀ a, (∀ f, s.place i f ≠ some a) → s'.frag? a = s.frag? a
  list : s'.freefraglist = s.freefraglist
  count : s'.nrFreefrag = s.nrFreefrag
  arm : s'.arm = s.arm

theorem Sce.Reads.refl (i : Nat) (s : Sce) : s.Reads i s := ⟨fun _ _ => rfl, fun _ _ => rfl, rfl, rfl, rfl⟩

theorem Sce.Reads.sameLun (reads : s.Reads i s') (h : Shape s) (ne : j ≠ i) : s.SameLun j s' := by
  refine .of_luntbl (reads.lun j ne) fun f a here => reads.frag a fun f' there => ?_
  exact ne (h.place_inj there here).1

theorem get4readFrag_reads {l : Lun} {off cnt : Nat} {m : Option Fmap}
    (here : isMapped (l.fragmap f) = true → s.place i f = some (phys (l.fragmap f)))
    (run : get4readFrag s i l f off cnt = .ok (m, s')) : s.Reads i s' := by
  unfold get4readFrag at run
  simp only at run
  split at run
  · cases run
    exact ⟨fun _ ne => modifyLun_luntbl_ne ne, fun _ _ => rfl, rfl, rfl, rfl⟩
  · rename_i mapped
    have apart : ∀ (φ : Frag → Frag) a, (∀ f, s.place i f ≠ some a) →
        (s.modifyFrag (phys (l.fragmap f)) φ).frag? a = s.frag? a := by
      intro φ a off
      apply modifyFrag_frag?_ne
      rintro rfl
      exact off f (here (by simpa using mapped))
    split at run
    · cases run
    · obtain ⟨hit, _, run⟩ := Except.bind_eq_ok run
      split at run
      · cases run
        exact ⟨fun _ ne => modifyLun_luntbl_ne ne, fun a off => apart Frag.hit a off, rfl, rfl, rfl⟩
      · cases run
        exact ⟨fun _ _ => rfl, fun a off => apart (fun g => { g with nrMiss := u32 (g.nrMiss + 1) }) a off, rfl, rfl, rfl⟩

theorem sceGet4read_reads {m : Option Fmap} (run : sceGet4read s i x n = .ok (m, s')) : s.Reads i s' := by
  unfold sceGet4read at run
  split at run
  · cases run
    exact .refl i s
  · rename_i l lock
    obtain ⟨lun, _⟩ := lockLun_eq_some.mp lock
    obtain ⟨ψ, hψ⟩ : ∃ ψ : Lun → Lun, ψ = fun l => { l with stats := { l.stats with
      reads := l.stats.reads + 1, readSctrs := l.stats.readSctrs + (n : Nat) } } := ⟨_, rfl⟩
    have counted : s.Reads i (s.modifyLun i ψ) :=
      ⟨fun _ ne => modifyLun_luntbl_ne ne, fun _ _ => rfl, rfl, rfl, rfl⟩
    simp only [← hψ] at run
    split at run
    · cases run
      exact counted
    · split at run
      · cases run
      · rename_i inside
        have places := modifyLun_place (s := s) (i := i) (ψ := ψ) (by simp [hψ]) (by simp [hψ])
        have rest := get4readFrag_reads (fun mapped => by
          rw [places]
          exact place_eq_some.mpr ⟨l, lun, Nat.not_le.mp inside, mapped, rfl⟩) run
        refine ⟨fun j ne => (rest.lun j ne).trans (counted.lun j ne), fun a off => ?_, rest.list, rest.count, rest.arm⟩
        exact rest.frag a fun f => by
          rw [places]
          exact off f

theorem misslogPut_misslog_ne : (misslogPut s i f).misslog ≠ s.misslog := by
  intro same
  obtain ⟨_, _, head, _⟩ := misslog_eq.mp same
  simp only [misslogPut] at head
  split at head
  · rename_i last
    rw [← head] at last
    cases last
  · omega

/-- A read keeps to `sce->lock` exactly when it logs no miss. -/
theorem sceGet4read_sameShared_iff (h : Inv nowhere s) (hx : x < 2 ^ 64) (hn : n < 2 ^ 32) {m : Option Fmap}
    (run : sceGet4read s i x n = .ok (m, s')) :
    s.SameShared s' ↔ ¬ (s.accepts i x n = true ∧ ∀ c, ¬ s.view.served i x n c) := by
  have reads := sceGet4read_reads run
  obtain ⟨missed, kept⟩ : (m = none ↔ ∀ c, ¬ s.view.served i x n c) ∧ s'.view.free = s.view.free := by
    rcases sceGet4read_spec h i hx hn with
      ⟨c, _, _, _, served, _, hit, _, view⟩ | ⟨none, ⟨stop, _⟩ | ⟨_, miss, _, view⟩⟩
    · rw [hit] at run
      cases run
      exact ⟨iff_of_false (by simp) fun none => none c served, by rw [view]; rfl⟩
    · rw [stop] at run
      cases run
    · rw [miss] at run
      cases run
      exact ⟨iff_of_true rfl none, by rw [view]⟩
  rw [← missed, and_comm]
  rcases sceGet4read_misses h.shape hx hn run with ⟨none, accepted, misses⟩ | ⟨not, spares⟩
  · refine iff_of_false (fun same => ?_) fun not => not ⟨none, accepted⟩
    exact misslogPut_misslog_ne (misses.misslog.symm.trans same.misslog)
  · refine iff_of_true ⟨reads.list, reads.count, fun a here => ?_, spares.misslog, reads.arm⟩ not
    have free : s.isFree a := here.elim id fun there => (congrFun kept a).mp there
    unfold Sce.nextWord Sce.node
    rw [reads.frag a fun f here => h.shape.not_free here free]

/-! ### Devices and LUNs -/

theorem freeFragments_beside {d : Nat} (hd : d < sceMaxCdev) (n : Nat) : ∀ {s : Sce}, freeFragments d n s = .ok s' →
    s'.luntbl = s.luntbl ∧ ∀ b, b.dev ≠ d → s'.frag? b = s.frag? b := by
  have put : ∀ {s t : Sce} {r : Ret} (o : Nat), freefraglistPut s (scePfid d o) = .ok (r, t) →
      t.luntbl = s.luntbl ∧ ∀ b, b.dev ≠ d → t.frag? b = s.frag? b := by
    intro s t r o run
    refine ⟨freefraglistPut_luntbl run, fun b off => ?_⟩
    refine (freefraglistPut_beside (i := 0) run).frag b ?_
    rintro rfl
    rw [phys_scePfid hd] at off
    exact off rfl
  induction n with
  | zero =>
    intro s run
    obtain ⟨⟨_, t⟩, first, run⟩ := Except.bind_eq_ok run
    cases run
    exact put 0 first
  | succ n ih =>
    intro s run
    obtain ⟨⟨_, t⟩, first, run⟩ := Except.bind_eq_ok run
    obtain ⟨lun, frag⟩ := put (n + 1) first
    obtain ⟨lun', frag'⟩ := ih run
    exact ⟨lun'.trans lun, fun b off => (frag' b off).trans (frag b off)⟩

theorem sceAddcdev_sameLun (h : Inv nowhere s) {m ctx : Nat} {vmalloc : Bool} {p : Option Nat}
    (run : sceAddcdev s m ctx vmalloc = .ok (p, s')) : s.SameLun j s' := by
  have still : s.SameLun j s := .of_luntbl rfl fun _ _ _ => rfl
  unfold sceAddcdev at run
  split at run
  · cases run
    exact still
  · split at run
    · cases run
      exact still
    · split at run
      · cases run
        exact still
      · rename_i d found
        obtain ⟨hd, absent⟩ := find_free_slot found
        split at run
        · cases run
          exact still
        · obtain ⟨t, free, run⟩ := Except.bind_eq_ok run
          cases run
          obtain ⟨lun, frag⟩ := freeFragments_beside hd _ free
          refine .of_luntbl (congrFun lun j) fun f a here => ?_
          have apart : a.dev ≠ d := by
            rintro rfl
            obtain ⟨m, slot, rfl⟩ := h.shape.slot_of_place here
            obtain ⟨c, present, _⟩ := frag?_some_iff.mp (frag_of_slot slot)
            rw [absent] at present
            cases present
          rw [frag a apart]
          simp [frag?, apart]

theorem sceAddlun_sameLun {m ctx : Nat} {vmalloc : Bool} {p : Option Nat} (run : sceAddlun s m ctx vmalloc = .ok (p, s')) :
    s.SameLun j s' := by
  have still : s.SameLun j s := .of_luntbl rfl fun _ _ _ => rfl
  unfold sceAddlun at run
  split at run
  · cases run
    exact still
  · split at run
    · cases run
      exact still
    · rename_i i found
      obtain ⟨_, absent⟩ := find_free_slot found
      split at run
      · cases run
        exact still
      · cases run
        refine ⟨fun f w here => ?_, fun _ _ _ => rfl⟩
        have ne : j ≠ i := by
          rintro rfl
          simp [Sce.entry, absent] at here
        simpa [Sce.entry, ne] using here

theorem lunRmcdev_luntbl {d : Nat} (ne : j ≠ i) : (lunRmcdev s i d).luntbl j = s.luntbl j := by
  have loop : ∀ (fs : List Nat) (s : Sce), (lunRmcdevLoop i d fs s).luntbl j = s.luntbl j := by
    intro fs
    induction fs with
    | nil => exact fun _ => rfl
    | cons f fs ih =>
      intro s
      unfold lunRmcdevLoop
      split
      · rfl
      · simp only
        split
        · exact ih s
        · split
          · exact ih s
          · exact (ih _).trans ((modifyLun_luntbl_ne ne).trans (modifyLun_luntbl_ne ne))
  unfold lunRmcdev
  split
  · rfl
  · exact loop _ s

/-! ### The pieces of a call -/

variable {g g' : Guarded}

theorem Stretch.disciplined_lun_iff (same : ∀ j, j ≠ i → s.SameLun j s') :
    Stretch.Disciplined ⟨[.lun i], s, s'⟩ ↔ s.SameShared s' := by
  refine ⟨fun kept => kept.shared (by simp), fun shared => ⟨fun _ => shared, fun j free => same j ?_⟩⟩
  rintro rfl
  exact free List.mem_cons_self

theorem Stretch.disciplined_sce (same : ∀ j, s.SameLun j s') : Stretch.Disciplined ⟨[.sce], s, s'⟩ :=
  ⟨fun free => absurd List.mem_cons_self free, fun j _ => same j⟩

theorem Stretch.disciplined_both_iff : Stretch.Disciplined ⟨[.lun i, .sce], s, s'⟩ ↔ ∀ j, j ≠ i → s.SameLun j s' := by
  constructor
  · intro kept j ne
    apply kept.lun j
    simp [ne]
  · intro same
    refine ⟨fun free => absurd (by simp) free, fun j free => same j ?_⟩
    rintro rfl
    exact free List.mem_cons_self

namespace Guarded

theorem disciplined_singleton {t : Stretch} (past : g.past = [t]) : g.Disciplined ↔ t.Disciplined := by
  unfold Disciplined
  rw [past]
  exact List.forall_mem_singleton

theorem under_run {α : Type} {k : Lock} {step : Sce → Except Fault (α × Sce)} {r : α}
    (run : (enter s).under k (fun g => g.run step) = .ok (r, g)) : ∃ s', step s = .ok (r, s') ∧ g.past = [⟨[k], s, s'⟩] := by
  obtain ⟨g₁, inner, rfl⟩ := under_eq_ok.mp run
  obtain ⟨s', done, rfl⟩ := run_eq_ok.mp inner
  exact ⟨s', done, rfl⟩

theorem under_both_run {α : Type} {step : Sce → Except Fault (α × Sce)} {r : α}
    (run : (enter s).under .sce (fun g => g.under (.lun i) fun g => g.run step) = .ok (r, g)) :
    ∃ s', step s = .ok (r, s') ∧ g.past = [⟨[.lun i, .sce], s, s'⟩] := by
  obtain ⟨g₁, inner, rfl⟩ := under_eq_ok.mp run
  obtain ⟨g₂, innermost, rfl⟩ := under_eq_ok.mp inner
  obtain ⟨s', done, rfl⟩ := run_eq_ok.mp innermost
  exact ⟨s', done, rfl⟩

/-- The loop over the LUN table holds the lock of the LUN it is at. -/
theorem rmcdevLuns_disciplined {d : Nat} (is : List Nat) : ∀ g : Guarded, .sce ∈ g.held → g.sce.Backed →
    g.Disciplined → (rmcdevLuns d is g).Disciplined ∧ (rmcdevLuns d is g).held = g.held := by
  induction is with
  | nil => exact fun g _ _ kept => ⟨kept, rfl⟩
  | cons i is ih =>
    intro g held backed kept
    have swept := lunRmcdev_spec (i := i) (d := d) backed
    unfold rmcdevLuns
    rw [unlock_lock]
    refine ih _ held (swept.backed backed) ?_
    intro t member
    rcases List.mem_cons.mp member with rfl | earlier
    · refine ⟨fun free => absurd (List.mem_cons_of_mem _ held) free, fun j free => ?_⟩
      have ne : j ≠ i := by
        rintro rfl
        exact free List.mem_cons_self
      exact .of_luntbl (lunRmcdev_luntbl ne) fun f a _ => congrFun swept.frag? a
    · exact kept t earlier

theorem sceRmcdev_disciplined (h : Inv nowhere s) {d : Nat} {r : Ret} (run : (enter s).sceRmcdev d = .ok (r, g)) :
    g.Disciplined := by
  unfold sceRmcdev at run
  have nothing : (enter s).Disciplined := fun t member => absurd member List.not_mem_nil
  split at run
  · cases run
    exact nothing
  · rename_i cdev present
    obtain ⟨fl, s₁, s₂, list, walk, linked, mapped, backed, swept, free, _⟩ := sceRmcdev_parts h present
    split at run
    · cases run
    · obtain ⟨g₁, inner, rfl⟩ := under_eq_ok.mp run
      obtain ⟨⟨_, g₂⟩, first, rest⟩ := Except.bind_eq_ok inner
      obtain ⟨t, done, rfl⟩ := run_eq_ok.mp first
      obtain rfl : t = s₁ := by
        obtain ⟨t', rmcdev, e⟩ := Except.map_eq_ok.mp done
        obtain rfl : t' = s₁ := Except.ok.inj (rmcdev.symm.trans free)
        exact (Prod.mk.inj e).2.symm
      cases rest
      have unlisted : Stretch.Disciplined ⟨[.sce], s, t⟩ :=
        Stretch.disciplined_sce fun j => .of_luntbl (congrFun linked.luntbl j) (mapped j)
      have begun : (((enter s).lock .sce).write fun _ => t).Disciplined :=
        fun u member => (List.mem_singleton.mp member) ▸ unlisted
      obtain ⟨is, his⟩ : ∃ is, is = List.range sceMaxLun := ⟨_, rfl⟩
      rw [← his]
      obtain ⟨kept, held⟩ := rmcdevLuns_disciplined (d := d) is (((enter s).lock .sce).write fun _ => t)
        List.mem_cons_self backed begun
      intro u member
      rcases List.mem_cons.mp member with rfl | earlier
      · rw [held, rmcdevLuns_sce, write_sce]
        have swept : Swept d (fun j _ => j ∈ is) t (Iostash.rmcdevLuns d is t) := rmcdevLuns_spec is t backed
        refine Stretch.disciplined_sce fun j => .of_luntbl rfl fun f a here => ?_
        have member : j ∈ is := by
          obtain ⟨l, lun, _⟩ := place_eq_some.mp (swept.sub here)
          rw [linked.luntbl] at lun
          rw [his, List.mem_range]
          exact (h.shape.luns.bounds j _ _ (extent_eq_some.mpr ⟨l, lun, rfl, rfl⟩)).1
        rw [swept.cleared j f member] at here
        have apart : a.dev ≠ d := of_decide_eq_true (Option.filter_eq_some_iff.mp here).2
        exact (withoutCdev_frag? (n := cdev.nrFrag)).trans (if_neg apart)
      · exact kept u earlier

/-- A population keeps to the locks it holds when it takes from no other LUN. -/
theorem sceGet4pop_disciplined_iff (h : Inv nowhere s) {past : Nat → Nat → Word} {task : Option Poptask}
    (run : (enter s).sceGet4pop past = .ok (task, g)) : g.Disciplined ↔ ¬ s.takes past := by
  obtain ⟨g₁, inner, rfl⟩ := under_eq_ok.mp run
  have nothing : (enter s).Disciplined := fun t member => absurd member List.not_mem_nil
  simp only [lock_sce] at inner
  split at inner
  · rename_i none
    cases inner
    apply iff_of_true nothing
    rintro ⟨_, i, f, l, chosen, _⟩
    rw [show choose4population s past = _ from none] at chosen
    cases chosen
  · rename_i i f chosen
    obtain ⟨⟨p, g₂⟩, alloc, rest⟩ := Except.bind_eq_ok inner
    obtain ⟨g₃, innermost, rfl⟩ := under_eq_ok.mp alloc
    obtain ⟨s', done, rfl⟩ := run_eq_ok.mp innermost
    have pieces : (g₁.unlock .sce).past = [⟨[.lun i, .sce], s, s'⟩] := by
      cases p with
      | none =>
        cases rest
        rfl
      | some pfid =>
        cases rest
        rfl
    rw [disciplined_singleton pieces, Stretch.disciplined_both_iff]
    have chosen : choose4population s past = some (i, f) := chosen
    have refused : s' = s → (¬ ∃ l, s.luntbl i = some l ∧ f < l.nrFrag) →
        ((∀ j, j ≠ i → s.SameLun j s') ↔ ¬ s.takes past) := by
      rintro rfl outside
      refine iff_of_true (fun j _ => .of_luntbl rfl fun _ _ _ => rfl) ?_
      rintro ⟨_, i', f', l, other, lun, inside, _⟩
      obtain ⟨rfl, rfl⟩ := Prod.mk.inj (Option.some.inj (chosen.symm.trans other))
      exact outside ⟨l, lun, inside⟩
    by_cases inside : ∃ l, s.luntbl i = some l ∧ f < l.nrFrag
    · obtain ⟨l, lun, inside⟩ := inside
      rw [alloc4population_sameLun_iff h lun inside done]
      refine not_congr (and_congr_right fun _ => ⟨fun wears => ⟨i, f, l, chosen, lun, inside, wears⟩, ?_⟩)
      rintro ⟨i', f', _, other, _, _, wears⟩
      obtain ⟨rfl, rfl⟩ := Prod.mk.inj (Option.some.inj (chosen.symm.trans other))
      exact wears
    · refine refused ?_ inside
      have done : alloc4population s i f = .ok (p, s') := done
      unfold alloc4population at done
      split at done
      · cases done
        rfl
      · rename_i l lun
        rw [if_pos (Nat.not_lt.mp fun lt => inside ⟨l, lun, lt⟩)] at done
        cases done
        rfl

end Guarded

/-! ### Every call -/

theorem Sce.Reached.small (reached : s.Reached) : ∀ i l, s.view.lun i = some l → l.service < 2 ^ 32 := by
  refine (reached.invariant (I := fun s => Inv nowhere s ∧ ∀ i l, s.view.lun i = some l → l.service < 2 ^ 32)
    ⟨.create, fun i l lun => by cases lun⟩ ?_).2
  intro s op s' here typed moves
  obtain ⟨inv, small⟩ := here
  obtain ⟨reply, run⟩ := Sce.exec_eq_some.mp moves
  obtain ⟨inv', rfl | effect⟩ := Sce.call_inv inv typed run
  · exact ⟨inv, small⟩
  · refine ⟨inv', fun i l' lun => ?_⟩
    rcases effect.lun_counted lun with ⟨l, before, _, fits | less⟩ | ⟨_, _, _, _, _, _, rfl⟩
    · exact fits
    · exact Nat.lt_of_le_of_lt less (small i l before)
    · exact Nat.two_pow_pos 32

theorem Sce.view_apart (h : Shape s) : s.view.Apart := fun _ _ _ cell => Sce.view_not_free h cell

theorem scePut4read_freesNone (h : Inv nowhere s) (hx : x < 2 ^ 64) (hn : n < 2 ^ 32)
    (run : scePut4read s i x n = .ok (r, s')) : s.view.FreesNone s'.view ↔ ¬ s.view.unpins i x n := by
  by_cases even : 0 < n ∧ x + n < 2 ^ 64 ∧ (x + n - 1) / sceSctrPerFrag = x / sceSctrPerFrag
  · obtain ⟨pos, short, one⟩ := even
    rcases scePut4read_spec h i pos short one with ⟨busy, ⟨_, stop⟩ | ⟨_, ok, _, view⟩⟩ | ⟨idle, ⟨stop, _⟩ | fail⟩
    · rw [stop] at run
      cases run
    · rw [ok] at run
      cases run
      obtain ⟨l, c, lun, _, _, cell, _, _, counted⟩ := id busy
      rw [view, View.unpin_freesNone (Sce.view_apart h.shape) cell lun counted]
      refine not_congr ⟨fun last => ⟨pos, one, busy, c, cell, last⟩, ?_⟩
      rintro ⟨_, _, _, c', cell', last⟩
      obtain rfl := Option.some.inj (cell.symm.trans cell')
      exact last
    · rw [stop] at run
      cases run
    · rw [fail] at run
      cases run
      exact iff_of_true (fun a free => free) fun unpins => idle unpins.2.2.1
  · rw [scePut4read_refused hx hn even] at run
    cases run
    refine iff_of_true (fun a free => free) ?_
    rintro ⟨pos, one, ⟨_, _, lun, bound, _⟩, _⟩
    obtain ⟨l, here, rfl⟩ := Option.map_eq_some_iff.mp (Sce.view_lun ▸ lun)
    have limit := h.shape.nrSctr_lt here
    simp only [Lun.volume] at bound
    exact even ⟨pos, by omega, one⟩

theorem sceInvalidate_freesNone (h : Inv nowhere s) (run : sceInvalidate s i x n = .ok (r, s')) :
    s.view.FreesNone s'.view ↔ ¬ s.view.clears i x n := by
  rcases sceInvalidate_spec h i x n with ⟨none, fail⟩ | ⟨writable, ⟨_, stop⟩ | ⟨stop, _⟩ | ⟨_, _, ok, _, view, _⟩⟩
  · rw [fail] at run
    cases run
    exact iff_of_true (fun a free => free) fun both => none both.1
  · rw [stop] at run
    cases run
  · rw [stop] at run
    cases run
  · rw [ok] at run
    cases run
    rw [view]
    constructor
    · rintro none ⟨_, f, c, cell, goes⟩
      exact Sce.view_apart h.shape i f c cell (none c.addr (Or.inr ⟨f, c, cell, rfl, goes⟩))
    · rintro none a (old | ⟨f, c, cell, _, goes⟩)
      · exact old
      · exact absurd ⟨writable, f, c, cell, goes⟩ none

theorem scePut4pop_freesNone (h : Inv nowhere s) (small : ∀ i l, s.view.lun i = some l → l.service < 2 ^ 32)
    {task : Poptask} {failed : Bool} (run : scePut4pop s task failed = .ok (r, s')) :
    s.view.FreesNone s'.view ↔ ¬ s.strays (.put4pop task failed) := by
  have view : s'.view = (s.view.put4pop task failed).2 := by
    rcases scePut4pop_spec h task failed with ⟨_, stop⟩ | ⟨_, ok, _, view⟩
    · rw [stop] at run
      cases run
    · rw [ok] at run
      cases run
      exact view
  have apart := Sce.view_apart h.shape
  rw [view]
  unfold View.put4pop
  split
  · rename_i unknown
    refine iff_of_true (fun a free => free) ?_
    rintro ⟨i, c, found, _⟩
    rw [unknown] at found
    cases found
  · rename_i i found
    cases cell : s.view.cell i task.lunFragnum with
    | none =>
      have unmapped : (if failed = true then s.view.cancel i task.lunFragnum
          else s.view.complete i task.lunFragnum).2 = s.view := by
        unfold View.cancel View.complete
        simp [cell]
      rw [unmapped]
      refine iff_of_true (fun a free => free) ?_
      rintro ⟨i', c, found', cell', _⟩
      obtain rfl := Option.some.inj (found.symm.trans found')
      rw [cell] at cell'
      cases cell'
    | some c =>
      have only : s.strays (.put4pop task failed) ↔ s.view.settles i c failed := by
        refine ⟨?_, fun settles => ⟨i, c, found, cell, settles⟩⟩
        rintro ⟨i', c', found', cell', settles⟩
        obtain rfl := Option.some.inj (found.symm.trans found')
        obtain rfl := Option.some.inj (cell.symm.trans cell')
        exact settles
      rw [only]
      cases failed with
      | true => exact View.cancel_freesNone apart cell
      | false => exact View.complete_freesNone apart (small i) cell

namespace Guarded

variable {reply : Reply} {op : Op}

/-- A call with its locks does what the call does, and nothing outside of its pieces; in them it keeps to the locks it
holds exactly when it is none of those that stray. -/
theorem call_disciplined_iff (reached : s.Reached) (typed : op.InType) (run : (enter s).call op = .ok (reply, g)) :
    s.call op = .ok (reply, g.sce) ∧ Leads s g.past g.sce ∧ (g.Disciplined ↔ ¬ s.strays op) := by
  refine ⟨call_sce run, call_leads run, ?_⟩
  have h := reached.inv
  cases op with
  | addcdev m ctx vmalloc =>
    obtain ⟨⟨p, g₁⟩, done, e⟩ := Except.map_eq_ok.mp run
    obtain ⟨rfl, rfl⟩ := Prod.mk.inj e
    obtain ⟨s', step, past⟩ := under_run done
    rw [disciplined_singleton past]
    exact iff_of_true (Stretch.disciplined_sce fun _ => sceAddcdev_sameLun h step) id
  | rmcdev d =>
    obtain ⟨⟨r, g₁⟩, done, e⟩ := Except.map_eq_ok.mp run
    obtain ⟨rfl, rfl⟩ := Prod.mk.inj e
    exact iff_of_true (sceRmcdev_disciplined h done) id
  | addlun m ctx vmalloc =>
    obtain ⟨⟨p, g₁⟩, done, e⟩ := Except.map_eq_ok.mp run
    obtain ⟨rfl, rfl⟩ := Prod.mk.inj e
    obtain ⟨s', step, past⟩ := under_run done
    rw [disciplined_singleton past]
    exact iff_of_true (Stretch.disciplined_sce fun _ => sceAddlun_sameLun step) id
  | rmlun i =>
    obtain ⟨⟨r, g₁⟩, done, e⟩ := Except.map_eq_ok.mp run
    obtain ⟨rfl, rfl⟩ := Prod.mk.inj e
    obtain ⟨s', step, past⟩ := under_both_run done
    rw [disciplined_singleton past, Stretch.disciplined_both_iff]
    exact iff_of_true (fun j ne => (sceRmlun_within step).sameLun h.shape ne) id
  | get4read i x n =>
    obtain ⟨⟨m, g₁⟩, done, e⟩ := Except.map_eq_ok.mp run
    obtain ⟨rfl, rfl⟩ := Prod.mk.inj e
    obtain ⟨s', step, past⟩ := under_run done
    rw [disciplined_singleton past,
      Stretch.disciplined_lun_iff fun j ne => (sceGet4read_reads step).sameLun h.shape ne]
    exact sceGet4read_sameShared_iff h typed.1 typed.2 step
  | put4read i x n =>
    obtain ⟨⟨r, g₁⟩, done, e⟩ := Except.map_eq_ok.mp run
    obtain ⟨rfl, rfl⟩ := Prod.mk.inj e
    obtain ⟨s', step, past⟩ := under_run done
    have within := scePut4read_within step
    have call : s.call (.put4read i x n) = .ok (.ret r, s') := by
      rw [Sce.call, step]
      rfl
    have h' : Inv nowhere s' := (Sce.call_inv h typed call).1
    rw [disciplined_singleton past, Stretch.disciplined_lun_iff fun j ne => within.sameLun h.shape ne,
      within.sameShared_iff h.shape h'.shape]
    exact scePut4read_freesNone h typed.1 typed.2 step
  | invalidate i x n =>
    obtain ⟨⟨r, g₁⟩, done, e⟩ := Except.map_eq_ok.mp run
    obtain ⟨rfl, rfl⟩ := Prod.mk.inj e
    obtain ⟨s', step, past⟩ := under_run done
    have within := sceInvalidate_within step
    have call : s.call (.invalidate i x n) = .ok (.ret r, s') := by
      rw [Sce.call, step]
      rfl
    have h' : Inv nowhere s' := (Sce.call_inv h typed call).1
    rw [disciplined_singleton past, Stretch.disciplined_lun_iff fun j ne => within.sameLun h.shape ne,
      within.sameShared_iff h.shape h'.shape]
    exact sceInvalidate_freesNone h step
  | get4pop past =>
    obtain ⟨⟨p, g₁⟩, done, e⟩ := Except.map_eq_ok.mp run
    obtain ⟨rfl, rfl⟩ := Prod.mk.inj e
    exact sceGet4pop_disciplined_iff h done
  | put4pop task failed =>
    obtain ⟨⟨r, g₁⟩, done, e⟩ := Except.map_eq_ok.mp run
    obtain ⟨rfl, rfl⟩ := Prod.mk.inj e
    unfold scePut4pop at done
    split at done
    · rename_i unknown
      cases done
      refine iff_of_true (fun t member => absurd member List.not_mem_nil) ?_
      rintro ⟨i, c, found, _⟩
      rw [Sce.view_search, show lunSearch s task.lunctx = none from unknown] at found
      cases found
    · rename_i i found
      obtain ⟨s', step, past⟩ := under_run done
      have within := scePut4pop_within h.shape found step
      have call : s.call (.put4pop task failed) = .ok (.ret r, s') := by
        rw [Sce.call, step]
        rfl
      have h' : Inv nowhere s' := (Sce.call_inv h typed call).1
      rw [disciplined_singleton past, Stretch.disciplined_lun_iff fun j ne => within.sameLun h.shape ne,
        within.sameShared_iff h.shape h'.shape]
      exact scePut4pop_freesNone h reached.small step

/-- A population of the only fragment is in flight. -/
def inFlight : Sce := Sce.after
  [.addcdev 2048 7 true, .addlun 4096 9 true, .get4read 0 0 8, .get4pop fun _ _ => 0#32]

theorem inFlight_reached : inFlight.Reached := Sce.after_reached rfl

theorem call_disciplined_inFlight : ∃ g, (enter inFlight).call (.rmlun 0) = .ok (.ret .success, g) ∧
    inFlight.call (.rmlun 0) = .ok (.ret .success, g.sce) ∧ Leads inFlight g.past g.sce ∧ (g.Disciplined ↔ ¬ inFlight.strays (.rmlun 0)) :=
  ⟨_, rfl, call_disciplined_iff inFlight_reached (show (Op.rmlun 0).InType from trivial) rfl⟩

/-- A population that fails gives its fragment back under the lock of its LUN alone. -/
theorem put4pop_strays : inFlight.Reached ∧ ∃ g, (enter inFlight).call (.put4pop ⟨9, 7, 0, 0⟩ true) = .ok (.ret .success, g) ∧
    ¬ g.Disciplined := by
  refine ⟨inFlight_reached, _, rfl, fun kept => ?_⟩
  have shared := (kept _ List.mem_cons_self).shared (by decide)
  exact absurd shared.nrFreefrag (by decide)

end Guarded

end Iostash
