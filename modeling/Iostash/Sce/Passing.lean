import Iostash.Sce.Clock
import Iostash.Sce.Within

/-!
# What a population touches of other LUNs

`_alloc4population` takes a fragment from the free list. When there is none the clock arm wears down the
idle fragments it passes, whichever LUN maps them, and takes one of them.
-/

namespace Iostash

open Util

open Sce

namespace Sce

/-- The arm of an eviction comes to its move `u`. -/
def armReaches (s : Sce) (u : Nat) : Prop :=
  u < evictBudget s.nrFrag ∧ ∀ t, t < u → s.armAt t ≠ none ∧ ¬ Clock.Due s.armAt s.evictRef t

/-- The arm of an eviction comes to a fragment it may take, and another LUN than `i` maps it. -/
def wearsOther (s : Sce) (i : Nat) : Prop :=
  ∃ u j f m, s.armReaches u ∧ s.armAt u = some m.addr ∧ s.slot j f = some m ∧ m.frag.evictable = true ∧ j ≠ i

/-- Only LUN `i` and the fragment at `a` are worked on. -/
structure Beside (i : Nat) (a : Phys) (s s' : Sce) : Prop where
  lun : ∀ j, j ≠ i → s'.luntbl j = s.luntbl j
  frag : ∀ b, b ≠ a → s'.frag? b = s.frag? b

end Sce

variable {s s' : Sce} {i j f k n t u : Nat} {a b : Phys} {m : Slot} {r : Ret} {pfid : Word}

/-! ### The way of the arm -/

theorem evictLoop_off (off : s.armAt t = none) (n : Nat) :
    evictLoop (n + 1) (s.swept t) = .ok (.error, (s.swept t).advance) := by
  have here : (s.swept t).armFrag = none := swept_armFrag.trans off
  rw [evictLoop.eq_2, getFragAdvanceClockarm_eq, here]

/-- The loop ends at a move where the budget is used up, where the arm finds no fragment, or where it takes one. -/
theorem evictLoop_outcome (h : Inv nowhere s) (n : Nat) :
    ∀ t, (∀ u, u < t → s.armAt u ≠ none ∧ ¬ Clock.Due s.armAt s.evictRef u) → evictLoop n (s.swept t) = .ok (r, s') →
    ∃ k, k ≤ t + n ∧ (∀ u, u < k → s.armAt u ≠ none ∧ ¬ Clock.Due s.armAt s.evictRef u) ∧
      ((r = .error ∧ (k = t + n ∧ s' = s.swept k ∨ s.armAt k = none ∧ s' = (s.swept k).advance)) ∨
        (r = .success ∧ k < t + n ∧ Clock.Due s.armAt s.evictRef k ∧ ∃ i f m, s.armAt k = some m.addr ∧
          s.slot i f = some m ∧ m.frag.nrService = 0 ∧ f < fragnumFree ∧
          ∃ r', unmapFrag (s.swept k).advance i f = .ok (r', s'))) := by
  induction n with
  | zero =>
    intro t on run
    cases run
    exact ⟨t, le_rfl, on, Or.inl ⟨rfl, Or.inl ⟨rfl, rfl⟩⟩⟩
  | succ n ih =>
    intro t on run
    by_cases off : s.armAt t = none
    · rw [evictLoop_off off] at run
      cases run
      exact ⟨t, by omega, on, Or.inl ⟨rfl, Or.inr ⟨off, rfl⟩⟩⟩
    rcases evictLoop_succ (t := t) h n with ⟨none, _⟩ | ⟨not, goes⟩ | ⟨due, i, f, m, arm, slot, idle, used, takes⟩
    · exact absurd none off
    · rw [goes] at run
      have on' : ∀ u, u < t + 1 → s.armAt u ≠ none ∧ ¬ Clock.Due s.armAt s.evictRef u := by
        intro u lt
        rcases Nat.lt_succ_iff_lt_or_eq.mp lt with before | rfl
        · exact on u before
        · exact ⟨off, not⟩
      rw [show t + (n + 1) = t + 1 + n by omega]
      exact ih (t + 1) on' run
    · rw [takes] at run
      obtain ⟨⟨r', u⟩, unmap, e⟩ := Except.map_eq_ok.mp run
      obtain ⟨rfl, rfl⟩ := Prod.mk.inj e
      exact ⟨t, by omega, on, Or.inr ⟨rfl, by omega, due, i, f, m, arm, slot, idle, used, r', unmap⟩⟩

/-- What the arm has passed when `_evict_frag` returns, and what it has taken. -/
theorem evictFrag_outcome (h : Inv nowhere s) (empty : s.nrFreefrag = 0) (run : evictFrag s = .ok (r, s')) :
    ∃ k, (∀ u, u < k → s.armAt u ≠ none ∧ ¬ Clock.Due s.armAt s.evictRef u) ∧ (∀ u, u < k → s.armReaches u) ∧
      ((r = .error ∧ (s' = s.swept k ∨ s' = (s.swept k).advance) ∧ ∀ u, s.armReaches u → s.armAt u ≠ none → u < k) ∨
        (r = .success ∧ s.armReaches k ∧ (∀ u, s.armReaches u → u ≤ k) ∧ ∃ i f m l, s.armAt k = some m.addr ∧
          s.slot i f = some m ∧ m.frag.evictable = true ∧ s.luntbl i = some l ∧
          s' = s.evicted k i f (l.fragmap f) m.frag.nrMiss)) := by
  have most : ∀ k, s.armAt k = none ∨ Clock.Due s.armAt s.evictRef k → ∀ u, s.armReaches u → u ≤ k := by
    intro k stop u reaches
    by_contra beyond
    obtain ⟨arm, not⟩ := reaches.2 k (Nat.not_le.mp beyond)
    exact stop.elim arm not
  unfold evictFrag at run
  split at run
  · rename_i room
    obtain ⟨k, le, on, out⟩ := evictLoop_outcome h _ 0 (fun u lt => absurd lt (Nat.not_lt_zero u)) run
    rw [Nat.zero_add] at le out
    refine ⟨k, on, fun u lt => ⟨by omega, fun t before => on t (before.trans lt)⟩, ?_⟩
    rcases out with ⟨rfl, ends⟩ | ⟨rfl, lt, due, i, f, m, arm, slot, idle, used, r', unmap⟩
    · refine Or.inl ⟨rfl, ?_, ?_⟩
      · rcases ends with ⟨_, rfl⟩ | ⟨_, rfl⟩
        · exact Or.inl rfl
        · exact Or.inr rfl
      · intro u reaches arm
        rcases ends with ⟨rfl, _⟩ | ⟨off, _⟩
        · exact reaches.1
        · have le := most k (Or.inl off) u reaches
          have ne : u ≠ k := by
            rintro rfl
            exact arm off
          omega
    · obtain ⟨l, lun, _⟩ := lun_of_slot slot
      have evictable : m.frag.evictable = true := by
        have fragnum : m.frag.fragnum = f := congrArg Node.fragnum (h.shape.node_of_slot slot)
        simp [Frag.evictable, fragnum, used, idle]
      refine Or.inr ⟨rfl, ⟨lt, on⟩, most k (Or.inr due), i, f, m, l, arm, slot, evictable, lun, ?_⟩
      rw [unmapFrag_swept h lun slot idle room] at unmap
      cases unmap
      rfl
  · rename_i none
    cases run
    refine ⟨0, fun u lt => absurd lt (Nat.not_lt_zero u), fun u lt => absurd lt (Nat.not_lt_zero u),
      Or.inl ⟨rfl, Or.inl rfl, ?_⟩⟩
    intro u reaches
    -- without a fragment the arm makes no move
    have budget : evictBudget s.nrFrag = 0 := by
      rw [show s.nrFrag = 0 by omega]
      rfl
    exact absurd reaches.1 (by omega)


/-! ### The fragment a population takes -/

namespace Sce.Beside

theorem refl (i : Nat) (a : Phys) (s : Sce) : s.Beside i a s := ⟨fun _ _ => rfl, fun _ _ => rfl⟩

theorem trans {t : Sce} (h : s.Beside i a t) (h' : t.Beside i a s') : s.Beside i a s' :=
  ⟨fun j ne => (h'.lun j ne).trans (h.lun j ne), fun b ne => (h'.frag b ne).trans (h.frag b ne)⟩

theorem modifyFrag {φ : Frag → Frag} : s.Beside i a (s.modifyFrag a φ) :=
  ⟨fun _ _ => rfl, fun _ ne => modifyFrag_frag?_ne ne⟩

theorem modifyLun {ψ : Lun → Lun} : s.Beside i a (s.modifyLun i ψ) :=
  ⟨fun _ ne => modifyLun_luntbl_ne ne, fun _ _ => rfl⟩

end Sce.Beside

theorem freefraglistPut_beside (run : freefraglistPut s pfid = .ok (r, s')) : s.Beside i (phys pfid) s' := by
  unfold freefraglistPut at run
  split at run
  · cases run
    exact .refl i _ s
  · split at run
    · cases run
      exact .refl i _ s
    · simp only at run
      split at run
      · cases run
      · cases run
        exact ⟨fun _ _ => rfl, fun b ne => (pushFree_frag? (s := s)).trans (if_neg ne)⟩

theorem mapFrag_beside (run : mapFrag s i f pfid = .ok (r, s')) : s.Beside i (phys pfid) s' := by
  unfold mapFrag at run
  split at run
  · cases run
    exact .refl i _ s
  · split at run
    · cases run
      exact .refl i _ s
    · split at run
      · cases run
        exact .refl i _ s
      · split at run
        · cases run
          exact .refl i _ s
        · split at run
          · cases run
            exact .refl i _ s
          · obtain ⟨g, _, run⟩ := Except.bind_eq_ok run
            cases run
            exact .trans .modifyFrag .modifyLun

/-- A fragment on the free list is taken from there. -/
theorem allocLoop_listed (h : Inv nowhere s) (listed : s.freefraglist ≠ 0#32) {p : Ret × Word} {fuel : Nat}
    (run : allocLoop (fuel + 1) s = .ok (p, s')) :
    p = (.success, s.freefraglist) ∧ s.Beside i (phys s.freefraglist) s' := by
  obtain ⟨fl, list⟩ := h.shape.free
  obtain ⟨g, fl', rfl, frag, _⟩ := list.pop listed
  simp only [allocLoop, freefraglistGet_eq list listed frag, bind, Except.bind, pure, Except.pure, ne_eq, listed,
    not_false_eq_true, and_self, if_true] at run
  cases run
  exact ⟨rfl, fun _ _ => rfl, fun b ne => (popFree_frag? (s := s)).trans (if_neg ne)⟩

/-- Without one `_evict_frag` is asked for it, and the fragment it gives back is taken. -/
theorem allocLoop_unlisted (h : Inv nowhere s) (unlisted : s.freefraglist = 0#32) {p : Ret × Word}
    {fuel : Nat} (run : allocLoop (fuel + 2) s = .ok (p, s')) : ∃ r t, evictFrag s = .ok (r, t) ∧
      ((r = .error ∧ p = (.error, 0#32) ∧ s' = t) ∨
        (r = .success ∧ p = (.success, t.freefraglist) ∧ t.Beside i (phys t.freefraglist) s')) := by
  obtain ⟨fl, list⟩ := h.shape.free
  obtain ⟨⟨⟨_, _⟩, t₀⟩, get, run⟩ := Except.bind_eq_ok run
  rw [freefraglistGet_empty unlisted] at get
  cases get
  simp only [reduceCtorEq, false_and, if_false] at run
  obtain ⟨⟨r, t⟩, evict, run⟩ := Except.bind_eq_ok run
  refine ⟨r, t, evict, ?_⟩
  rcases evictFrag_spec h with ⟨_, stop⟩ | ⟨r', t', evict', h', out⟩
  · rw [stop] at evict
    cases evict
  obtain ⟨rfl, rfl⟩ := Prod.mk.inj (Except.ok.inj (evict.symm.trans evict'))
  rcases out with ⟨rfl, _⟩ | ⟨rfl, j, k, c, cell, _, view⟩
  · cases run
    exact Or.inl ⟨rfl, rfl, rfl⟩
  · obtain ⟨h₁, _⟩ := h'.congr (t := { t with nrEviction := u32 (t.nrEviction + 1) }) rfl rfl rfl rfl rfl rfl rfl
    obtain ⟨fl', list'⟩ := h'.shape.free
    have freed : t.isFree c.addr := by
      show t.view.free c.addr
      rw [view]
      exact Or.inr ⟨c, cell, rfl⟩
    have listed : t.freefraglist ≠ 0#32 := fun e => list'.empty_iff.mp e c.addr freed
    obtain ⟨taken, beside⟩ := allocLoop_listed (i := i) h₁ listed run
    exact Or.inr ⟨rfl, taken, beside.lun, beside.frag⟩

/-- From the taken fragment on, only it and the chosen LUN are worked on. -/
theorem alloc4population_beside {l : Lun} {p : Option Word} (lun : s.luntbl i = some l) (inside : f < l.nrFrag)
    (run : alloc4population s i f = .ok (p, s')) : ∃ r t, allocLoop (s.nrFrag + 2) s = .ok (r, t) ∧
      ((r.1 ≠ .success ∧ s' = t) ∨ (r.1 = .success ∧ t.Beside i (phys r.2) s')) := by
  simp only [alloc4population, lun, if_neg (Nat.not_le.mpr inside)] at run
  obtain ⟨⟨⟨ret, pfid⟩, t⟩, alloc, run⟩ := Except.bind_eq_ok run
  refine ⟨(ret, pfid), t, alloc, ?_⟩
  simp only at run
  split at run
  · rename_i failed
    cases run
    exact Or.inl ⟨failed, rfl⟩
  · rename_i taken
    refine Or.inr ⟨not_not.mp taken, ?_⟩
    obtain ⟨⟨_, u⟩, map, run⟩ := Except.bind_eq_ok run
    have mapped : t.Beside i (phys pfid) u := mapFrag_beside map
    simp only at run
    split at run
    · split at run
      · cases run
      · cases run
        exact mapped.trans (.trans .modifyLun .modifyFrag)
    · obtain ⟨⟨_, v⟩, put, run⟩ := Except.bind_eq_ok run
      cases run
      exact mapped.trans (freefraglistPut_beside put)

/-! ### What other LUNs see of it -/

/-- What is not touched of a LUN stays as it is. -/
theorem Sce.SameLun.of_luntbl (luntbl : s'.luntbl j = s.luntbl j)
    (frag : ∀ f a, s.place j f = some a → s'.frag? a = s.frag? a) : s.SameLun j s' := by
  have place : ∀ f, s'.place j f = s.place j f := by
    intro f
    unfold Sce.place
    rw [luntbl]
  refine ⟨fun f w here => ?_, fun f a here => ?_⟩
  · unfold Sce.entry at here ⊢
    rwa [luntbl]
  · rw [place, or_self] at here
    exact frag f a here

/-- A fragment the arm has passed without taking it has lost some of its count. -/
theorem swept_worn (on : ∀ u, u < k → s.armAt u ≠ none ∧ ¬ Clock.Due s.armAt s.evictRef u) (lt : u < k)
    (arm : s.armAt u = some a) {g : Frag} (frag : s.frag? a = some g) (evictable : g.evictable = true) :
    (s.swept k).frag? a ≠ s.frag? a := by
  have ref : s.evictRef (some a) = some g.nrRef := by simp [evictRef, frag, evictable, Option.filter]
  have positive : 0 < g.nrRef := by
    by_contra zero
    refine (on u lt).2 ⟨g.nrRef, ?_, by omega⟩
    rw [arm]
    exact ref
  have passed : 0 < Clock.passes s.armAt (some a) k := by
    have more : Clock.passes s.armAt (some a) (u + 1) ≤ Clock.passes s.armAt (some a) k := Clock.passes_mono lt
    rw [Clock.passes_succ, if_pos arm] at more
    omega
  rw [swept_frag?, frag]
  intro same
  have count := congrArg Frag.nrRef (Option.some.inj same)
  simp only [Frag.cooled, evictable, if_true] at count
  omega

/-- A fragment the arm has not passed, or may not take, is as before. -/
theorem swept_unpassed {g : Frag} (frag : s.frag? a = some g)
    (off : ∀ u, u < k → s.armAt u = some a → g.evictable = false) : (s.swept k).frag? a = some g := by
  rw [swept_frag?, frag]
  refine congrArg some ?_
  unfold Frag.cooled
  split
  · rename_i evictable
    have never : ∀ u, u < k → s.armAt u ≠ some a := by
      intro u lt arm
      rw [off u lt arm] at evictable
      cases evictable
    rw [Clock.passes_eq_zero never]
    rfl
  · rfl

/-- An eviction that fails has worn down what the arm passed. -/
theorem sameLun_iff_of_failed (h : Inv nowhere s) (luntbl : s'.luntbl = s.luntbl) (frags : s'.frag? = (s.swept k).frag?)
    (on : ∀ u, u < k → s.armAt u ≠ none ∧ ¬ Clock.Due s.armAt s.evictRef u) (passed : ∀ u, u < k → s.armReaches u)
    (most : ∀ u, s.armReaches u → s.armAt u ≠ none → u < k) :
    (∀ j, j ≠ i → s.SameLun j s') ↔ ¬ s.wearsOther i := by
  constructor
  · rintro same ⟨u, j, f, m, reaches, arm, slot, evictable, ne⟩
    have lt : u < k := most u reaches (by simp [arm])
    have kept : s'.frag? m.addr = s.frag? m.addr := (same j ne).frag f m.addr (Or.inl (place_of_slot slot))
    rw [frags] at kept
    exact swept_worn on lt arm (frag_of_slot slot) evictable kept
  · intro none j ne
    refine .of_luntbl (congrFun luntbl j) fun f a here => ?_
    obtain ⟨m, slot, rfl⟩ := h.shape.slot_of_place here
    rw [frags, frag_of_slot slot]
    refine swept_unpassed (frag_of_slot slot) fun u lt arm => ?_
    by_contra evictable
    exact none ⟨u, j, f, m, passed u lt, arm, slot, by simpa using evictable, ne⟩

/-- One that takes a fragment has worn down what the arm passed before, and unmapped the one it takes. -/
theorem sameLun_iff_of_taken (h : Inv nowhere s) {i₀ f₀ : Nat} {m₀ : Slot} {l₀ : Lun}
    (on : ∀ u, u < k → s.armAt u ≠ none ∧ ¬ Clock.Due s.armAt s.evictRef u) (passed : ∀ u, u < k → s.armReaches u)
    (here : s.armReaches k) (most : ∀ u, s.armReaches u → u ≤ k) (arm₀ : s.armAt k = some m₀.addr)
    (slot₀ : s.slot i₀ f₀ = some m₀) (evictable₀ : m₀.frag.evictable = true) (lun₀ : s.luntbl i₀ = some l₀)
    (rest : (s.evicted k i₀ f₀ (l₀.fragmap f₀) m₀.frag.nrMiss).Beside i m₀.addr s') :
    (∀ j, j ≠ i → s.SameLun j s') ↔ ¬ s.wearsOther i := by
  obtain ⟨l, lun, inside, mapped, addr, _⟩ := slot_eq_some.mp slot₀
  obtain rfl := Option.some.inj (lun₀.symm.trans lun)
  have frags : ∀ b, b ≠ m₀.addr → s'.frag? b = (s.swept k).frag? b := by
    intro b ne
    rw [rest.frag b ne]
    show ((s.swept k).advance.pushFree (l₀.fragmap f₀)).frag? b = _
    rw [pushFree_frag?, if_neg (addr ▸ ne), advance_frag?]
  have luntbl : ∀ j, j ≠ i → j ≠ i₀ → s'.luntbl j = s.luntbl j := by
    intro j ne ne₀
    rw [rest.lun j ne]
    refine (modifyLun_luntbl_ne ne₀).trans ?_
    rw [pushFree_luntbl, advance_luntbl, (swept_fields (s := s) (n := k)).2.2.1]
  constructor
  · rintro same ⟨u, j, f, m, reaches, arm, slot, evictable, ne⟩
    by_cases taken : m.addr = m₀.addr
    · obtain ⟨rfl, rfl⟩ := h.shape.slot_inj slot₀ slot taken
      -- its entry does not map any more
      have before : s.entry j f = some (l₀.fragmap f) := entry_eq_some.mpr ⟨l₀, lun₀, inside, rfl⟩
      have after := (same j ne).entry f _ before
      obtain ⟨l', lun', _, word⟩ := entry_eq_some.mp after
      rw [rest.lun j ne] at lun'
      have clear : l'.fragmap f = BitVec.ofNat 32 m₀.frag.nrMiss &&& fragdescDatamask := by
        obtain ⟨l, _, rfl⟩ := Option.map_eq_some_iff.mp ((modifyLun_luntbl_self (i := j)).symm.trans lun')
        exact if_pos rfl
      rw [← word, clear, isMapped_data] at mapped
      cases mapped
    · have lt : u < k := by
        refine Nat.lt_of_le_of_ne (most u reaches) ?_
        rintro rfl
        exact taken (Option.some.inj (arm.symm.trans arm₀))
      have kept : s'.frag? m.addr = s.frag? m.addr := (same j ne).frag f m.addr (Or.inl (place_of_slot slot))
      rw [frags m.addr taken] at kept
      exact swept_worn on lt arm (frag_of_slot slot) evictable kept
  · intro none j ne
    have own : i₀ = i := by
      by_contra other
      exact none ⟨k, i₀, f₀, m₀, here, arm₀, slot₀, evictable₀, other⟩
    subst own
    refine .of_luntbl (luntbl j ne ne) fun f a there => ?_
    obtain ⟨m, slot, rfl⟩ := h.shape.slot_of_place there
    have apart : m.addr ≠ m₀.addr := fun e => ne (h.shape.slot_inj slot₀ slot e).1
    rw [frags m.addr apart, frag_of_slot slot]
    refine swept_unpassed (frag_of_slot slot) fun u lt arm => ?_
    by_contra evictable
    exact none ⟨u, j, f, m, passed u lt, arm, slot, by simpa using evictable, ne⟩

/-- A population touches no other LUN exactly when a fragment is free, or the arm comes to none it may take that another
LUN maps. -/
theorem alloc4population_sameLun_iff (h : Inv nowhere s) {l : Lun} {p : Option Word} (lun : s.luntbl i = some l)
    (inside : f < l.nrFrag) (run : alloc4population s i f = .ok (p, s')) :
    (∀ j, j ≠ i → s.SameLun j s') ↔ ¬ (s.freefraglist = 0#32 ∧ s.wearsOther i) := by
  obtain ⟨q, t, alloc, tail⟩ := alloc4population_beside lun inside run
  by_cases listed : s.freefraglist = 0#32
  · obtain ⟨fl, list⟩ := h.shape.free
    have count : s.nrFreefrag = 0 := by
      rw [list.nrFreefrag, List.length_eq_zero_iff, List.eq_nil_iff_forall_not_mem]
      exact fun a member => list.empty_iff.mp listed a ((list.mem a).mp member)
    obtain ⟨r, t₀, evict, cases⟩ := allocLoop_unlisted (i := i) h listed alloc
    obtain ⟨k, on, passed, out⟩ := evictFrag_outcome h count evict
    simp only [listed, true_and]
    rcases cases with ⟨rfl, rfl, rfl⟩ | ⟨rfl, rfl, first⟩
    · rcases out with ⟨_, swept, most⟩ | ⟨stop, _⟩
      · rcases tail with ⟨_, rfl⟩ | ⟨stop, _⟩
        · have frags : s'.frag? = (s.swept k).frag? ∧ s'.luntbl = s.luntbl := by
            have lun : (s.swept k).luntbl = s.luntbl := (swept_fields (s := s) (n := k)).2.2.1
            rcases swept with rfl | rfl
            · exact ⟨rfl, lun⟩
            · exact ⟨funext fun _ => advance_frag?, advance_luntbl.trans lun⟩
          exact sameLun_iff_of_failed h frags.2 frags.1 on passed most
        · cases stop
      · cases stop
    · rcases out with ⟨stop, _⟩ | ⟨_, here, most, i₀, f₀, m₀, l₀, arm₀, slot₀, evictable₀, lun₀, rfl⟩
      · cases stop
      · rcases tail with ⟨stop, _⟩ | ⟨_, rest⟩
        · exact absurd rfl stop
        · have addr : phys (s.evicted k i₀ f₀ (l₀.fragmap f₀) m₀.frag.nrMiss).freefraglist = m₀.addr := by
            obtain ⟨l, lun, _, _, addr, _⟩ := slot_eq_some.mp slot₀
            obtain rfl := Option.some.inj (lun₀.symm.trans lun)
            exact (phys_or_mapped _).trans addr.symm
          rw [addr] at first rest
          exact sameLun_iff_of_taken h on passed here most arm₀ slot₀ evictable₀ lun₀ (first.trans rest)
  · have untouched : s.Beside i (phys s.freefraglist) s' := by
      obtain ⟨taken, first⟩ := allocLoop_listed (i := i) h listed alloc
      rcases tail with ⟨_, rfl⟩ | ⟨_, rest⟩
      · exact first
      · rw [taken] at rest
        exact first.trans rest
    refine iff_of_true (fun j ne => .of_luntbl (untouched.lun j ne) fun f a here => untouched.frag a ?_)
      fun both => listed both.1
    obtain ⟨fl, list⟩ := h.shape.free
    obtain ⟨g, fl', rfl, _⟩ := list.pop listed
    rintro rfl
    exact h.shape.not_free here ((list.mem _).mp List.mem_cons_self)

end Iostash
