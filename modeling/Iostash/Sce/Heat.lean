import Iostash.Sce.Frame
import Iostash.Sce.Recent
import Iostash.Sce.Runs
import Iostash.Sce.Statistics
import Iostash.Sce.Within

/-!
# What a call counts

A miss of `sce_get4read` is counted for the fragment and logged. No other call writes the miss log, and
what has been counted for a fragment is lost only when it is mapped anew.
-/

namespace Iostash

open Util

namespace Sce

/-- The log stays. Outside of `out`, no fragment is mapped and what is counted for it stays. -/
structure Spares (out : Nat → Nat → Prop) (s s' : Sce) : Prop where
  misslog : s'.misslog = s.misslog
  place : ∀ i f a, ¬ out i f → s'.place i f = some a → s.place i f = some a
  heat : ∀ i f n, ¬ out i f → s'.heat i f = some n → s.heat i f = some n

/-- A miss on fragment `f` of LUN `i` is counted and logged. -/
structure Misses (i f : Nat) (s s' : Sce) : Prop where
  inside : ∃ l, s.luntbl i = some l ∧ f < l.nrFrag
  misslog : s'.misslog = (misslogPut s i f).misslog
  place : ∀ j k, s'.place j k = s.place j k
  here : s'.heat i f = (s.heat i f).map fun n => (n + 1) % 2 ^ 28
  others : ∀ j k, ¬ (j = i ∧ k = f) → s'.heat j k = s.heat j k

def nobody : Nat → Nat → Prop := fun _ _ => False

variable {out : Nat → Nat → Prop} {s s' t : Sce} {i f : Nat} {a : Phys} {ψ : Lun → Lun}

theorem Spares.refl (s : Sce) : s.Spares out s := ⟨rfl, fun _ _ _ _ here => here, fun _ _ _ _ here => here⟩

theorem Spares.trans (h : s.Spares out t) (h' : t.Spares out s') : s.Spares out s' :=
  ⟨h'.misslog.trans h.misslog, fun i f a off here => h.place i f a off (h'.place i f a off here),
    fun i f n off here => h.heat i f n off (h'.heat i f n off here)⟩

theorem Spares.weaken (h : s.Spares nobody s') : s.Spares out s' :=
  ⟨h.misslog, fun i f a _ here => h.place i f a id here, fun i f n _ here => h.heat i f n id here⟩

theorem heat_of_same (place : s'.place i f = s.place i f) (entry : s'.entry i f = s.entry i f)
    (misses : ∀ a, s.place i f = some a → (s'.frag? a).map Frag.nrMiss = (s.frag? a).map Frag.nrMiss) :
    s'.heat i f = s.heat i f := by
  unfold heat
  rw [place, entry]
  cases here : s.place i f with
  | none => rfl
  | some a =>
    have same := congrArg (Option.map fun n => n % 2 ^ 28) (misses a here)
    simpa only [Option.map_map, Function.comp_def] using same

theorem Spares.of_same (misslog : s'.misslog = s.misslog) (place : s'.place = s.place) (entry : s'.entry = s.entry)
    (misses : ∀ i f a, s.place i f = some a → (s'.frag? a).map Frag.nrMiss = (s.frag? a).map Frag.nrMiss) :
    s.Spares out s' := by
  refine ⟨misslog, fun i f a _ here => by rwa [place] at here, fun i f n _ here => ?_⟩
  rwa [heat_of_same (congrFun (congrFun place i) f) (congrFun (congrFun entry i) f) (misses i f)] at here

theorem Still.spares (same : s.Still s') : s.Spares out s' := by
  refine .of_same same.misslog ?_ ?_ fun _ _ a _ => same.misses a
  · funext i f
    unfold Sce.place
    rw [same.luntbl]
  · funext i f
    unfold Sce.entry
    rw [same.luntbl]

theorem Spares.modifyLun (size : ∀ l, s.luntbl i = some l → (ψ l).nrFrag = l.nrFrag)
    (map : ∀ l, s.luntbl i = some l → (ψ l).fragmap = l.fragmap) : s.Spares out (s.modifyLun i ψ) :=
  .of_same rfl (modifyLun_place size map) (modifyLun_entry size map) fun _ _ _ _ => rfl

/-- What is done under the lock of one LUN spares all. -/
theorem Within.spares (within : s.Within i s') (misses : ∀ j k a, j ≠ i → s.place j k = some a →
    (s'.frag? a).map Frag.nrMiss = (s.frag? a).map Frag.nrMiss) : s.Spares out s' := by
  have others : ∀ j, j ≠ i → s'.place j = s.place j := by
    intro j ne
    funext k
    unfold Sce.place
    rw [within.lun j ne]
  refine ⟨within.misslog, ?_, ?_⟩
  · intro j k a _ here
    by_cases e : j = i
    · subst e
      exact within.place k a here
    · rwa [others j e] at here
  · intro j k n _ here
    by_cases e : j = i
    · subst e
      exact within.heat k n here
    · rwa [heat_congr (within.lun j e) fun a there => misses j k a e there] at here

theorem Within.spares_of_shape (within : s.Within i s') (h : Shape s) : s.Spares out s' := by
  apply within.spares
  intro j k a ne here
  have off : ∀ f, s.place i f ≠ some a := fun f there => ne (h.place_inj there here).1
  rw [within.frag a off]

end Sce

open Sce

variable {out : Nat → Nat → Prop} {s s' : Sce} {i f : Nat} {r : Ret} {g : Frag} {l : Lun} {pfid : Word}

/-! ### Looking for a fragment -/

theorem unmapFrag_spares (run : unmapFrag s i f = .ok (r, s')) : s.Spares nobody s' := by
  refine (unmapFrag_within run).spares fun _ _ a _ _ => ?_
  rcases unmapFrag_cases run with rfl | ⟨_, _, _, t, _, _, _, _, _, put, rfl | rfl⟩
  · rfl
  · exact freefraglistPut_keeps (fun _ _ _ => rfl) put a
  · exact freefraglistPut_keeps (φ := Frag.nrMiss) (fun _ _ _ => rfl) put a

theorem seeks_spares : Seeks (Spares nobody) where
  trans := .trans
  still := Still.spares
  unmap := unmapFrag_spares

theorem freefraglistPut_still (run : freefraglistPut s pfid = .ok (r, s')) : s.Still s' := by
  refine ⟨freefraglistPut_luntbl run, ?_, freefraglistPut_keeps (fun _ _ _ => rfl) run⟩
  unfold freefraglistPut at run
  split at run
  · cases run
    rfl
  · split at run
    · cases run
      rfl
    · simp only at run
      split at run
      · cases run
      · cases run
        rfl

/-! ### Mapping -/

theorem mapFragInit_nrMiss (run : mapFragInit l f = .ok g) : g.nrMiss = 0 := by
  unfold mapFragInit at run
  simp only at run
  split at run
  · obtain ⟨⟨g', _⟩, inval, run⟩ := Except.bind_eq_ok run
    cases run
    exact fragInvalidate_keeps (φ := Frag.nrMiss) (fun _ _ _ => rfl) inval
  · cases run
    rfl

/-- What `_map_frag` can do. -/
theorem mapFrag_cases (run : mapFrag s i f pfid = .ok (r, s')) : (r = .error ∧ s' = s) ∨
    (r = .success ∧ ∃ l g g₀, s.luntbl i = some l ∧ f < l.nrFrag ∧ isMapped (l.fragmap f) = false ∧
      s.frag? (phys pfid) = some g₀ ∧ mapFragInit l f = .ok g ∧
      s' = (s.modifyFrag (phys pfid) fun _ => { g with lunidx := i, fragnum := f }).setDesc i f
        (fragdescMapped ||| (pfid &&& fragdescDatamask))) := by
  unfold mapFrag at run
  split at run
  · cases run
    exact Or.inl ⟨rfl, rfl⟩
  · rename_i l lun
    split at run
    · cases run
      exact Or.inl ⟨rfl, rfl⟩
    · rename_i inside
      split at run
      · cases run
        exact Or.inl ⟨rfl, rfl⟩
      · split at run
        · cases run
          exact Or.inl ⟨rfl, rfl⟩
        · rename_i clear
          split at run
          · cases run
            exact Or.inl ⟨rfl, rfl⟩
          · rename_i g₀ frag
            obtain ⟨g, init, run⟩ := Except.bind_eq_ok run
            cases run
            exact Or.inr ⟨rfl, l, g, g₀, lun, by omega, by simpa using clear, frag, init, rfl⟩

/-- The fragment that is mapped starts with no miss. -/
theorem mapFrag_spares (apart : ∀ j k, s.place j k ≠ some (phys pfid)) (run : mapFrag s i f pfid = .ok (.success, s')) :
    s.Spares (fun j k => j = i ∧ k = f) s' ∧ s'.place i f = some (phys pfid) ∧ s'.heat i f = some 0 := by
  rcases mapFrag_cases run with ⟨e, _⟩ | ⟨_, l, g, g₀, lun, inside, clear, frag, init, rfl⟩
  · cases e
  · obtain ⟨w, hw⟩ : ∃ w, w = fragdescMapped ||| (pfid &&& fragdescDatamask) := ⟨_, rfl⟩
    have mapped : isMapped w = true := by rw [hw]; exact isMapped_new _
    have addr : phys w = phys pfid := by rw [hw]; exact phys_new _
    rw [← hw]
    have here : ((s.modifyFrag (phys pfid) fun _ => { g with lunidx := i, fragnum := f }).setDesc i f w).place i f =
        some (phys pfid) := by
      rw [setDesc_place_self (s := s.modifyFrag _ _) lun inside, if_pos mapped, addr]
    refine ⟨⟨rfl, ?_, ?_⟩, here, ?_⟩
    · intro j k a off there
      rwa [setDesc_place_ne off] at there
    · intro j k n off there
      have same : ((s.modifyFrag (phys pfid) fun _ => { g with lunidx := i, fragnum := f }).setDesc i f w).heat j k =
          s.heat j k := by
        refine heat_of_same (setDesc_place_ne off) ?_ fun a there => ?_
        · rw [setDesc_entry, if_neg off]
          rfl
        · have ne : a ≠ phys pfid := by
            rintro rfl
            exact apart j k there
          rw [setDesc_frag?, modifyFrag_frag?_ne ne]
      rwa [same] at there
    · unfold Sce.heat
      rw [here]
      simp [modifyFrag_frag?_self, frag, mapFragInit_nrMiss init]

theorem alloc4population_spares {p : Option Word} (h : Inv nowhere s) (run : alloc4population s i f = .ok (p, s')) :
    (p = none ∧ s.Spares nobody s') ∨
    (∃ pfid, p = some pfid ∧ s.Spares (fun j k => j = i ∧ k = f) s' ∧ s'.place i f = some (phys pfid) ∧
      s'.heat i f = some 0) := by
  unfold alloc4population at run
  split at run
  · cases run
    exact Or.inl ⟨rfl, .refl s⟩
  · split at run
    · cases run
      exact Or.inl ⟨rfl, .refl s⟩
    · obtain ⟨⟨⟨r, pfid⟩, t⟩, alloc, run⟩ := Except.bind_eq_ok run
      have first := seeks_spares.allocLoop alloc
      simp only at run
      split at run
      · cases run
        exact Or.inl ⟨rfl, first⟩
      · rename_i found
        obtain rfl : r = .success := not_not.mp found
        have apart : ∀ j k, t.place j k ≠ some (phys pfid) := by
          rcases allocLoop_spec h (show 2 ≤ s.nrFrag + 2 by omega) with
            ⟨_, stop⟩ | ⟨_, fail, _⟩ | ⟨pfid', t', ok, h', view', _⟩
          · exact nomatch stop.symm.trans alloc
          · exact nomatch fail.symm.trans alloc
          · obtain ⟨e, rfl⟩ := Prod.mk.inj (Except.ok.inj (ok.symm.trans alloc))
            obtain ⟨_, rfl⟩ := Prod.mk.inj e
            intro j k there
            -- what was mapped to the fragment is not any more
            rw [h'.shape.place_eq_cell, view'] at there
            obtain ⟨c, cell, addr⟩ := Option.map_eq_some_iff.mp there
            exact of_decide_eq_true (Option.filter_eq_some_iff.mp cell).2 addr
        obtain ⟨⟨r', u⟩, map, rest⟩ := Except.bind_eq_ok run
        simp only at rest
        split at rest
        · rename_i ok
          obtain rfl : r' = .success := ok
          obtain ⟨second, here, cold⟩ := mapFrag_spares apart map
          split at rest
          · cases rest
          · cases rest
            have places := modifyLun_place (s := u) (i := i) (ψ := fun l => { l with nrService := u32 (l.nrService + 1) })
              (fun _ _ => rfl) fun _ _ => rfl
            have entries := modifyLun_entry (s := u) (i := i)
              (ψ := fun l => { l with nrService := u32 (l.nrService + 1) }) (fun _ _ => rfl) fun _ _ => rfl
            have served : u.Still (u.modifyFrag (phys pfid) fun g => { g with nrService := u16 (g.nrService + 1) }) :=
              .modifyFrag fun _ => rfl
            refine Or.inr ⟨pfid, rfl, ?_, ?_, ?_⟩
            · exact (first.weaken.trans second).trans (.of_same rfl places entries fun _ _ a _ => served.misses a)
            · exact (congrFun (congrFun places i) f).trans here
            · refine Eq.trans (heat_of_same ?_ ?_ fun a _ => served.misses a) cold
              · exact congrFun (congrFun places i) f
              · exact congrFun (congrFun entries i) f
        · rename_i fails
          rcases mapFrag_cases map with ⟨_, rfl⟩ | ⟨e, _⟩
          · obtain ⟨⟨_, v⟩, put, rest⟩ := Except.bind_eq_ok rest
            cases rest
            exact Or.inl ⟨rfl, first.trans (freefraglistPut_still put).spares⟩
          · exact absurd e fails

theorem sceGet4pop_spares {past : Nat → Nat → Word} {p : Option Poptask} (h : Inv nowhere s)
    (run : sceGet4pop s past = .ok (p, s')) : (p = none ∧ s.Spares nobody s') ∨
    (p ≠ none ∧ ∃ i f a, choose4population s past = some (i, f) ∧ s.Spares (fun j k => j = i ∧ k = f) s' ∧
      s'.place i f = some a ∧ s'.heat i f = some 0) := by
  unfold sceGet4pop at run
  split at run
  · cases run
    exact Or.inl ⟨rfl, .refl s⟩
  · rename_i i f chosen
    obtain ⟨⟨q, t⟩, alloc, run⟩ := Except.bind_eq_ok run
    rcases alloc4population_spares h alloc with ⟨rfl, spares⟩ | ⟨pfid, rfl, spares, here, cold⟩
    · cases run
      exact Or.inl ⟨rfl, spares⟩
    · cases run
      exact Or.inr ⟨by simp, i, f, phys pfid, chosen, spares, here, cold⟩

/-! ### Reading -/

theorem misslogPut_misslog (same : s'.misslog = s.misslog) :
    (misslogPut s' i f).misslog = (misslogPut s i f).misslog := by
  obtain ⟨fragnum, lunidx, head, size⟩ := misslog_eq.mp same
  simp only [misslog, misslogPut, fragnum, lunidx, head, size]

theorem get4readFrag_misses {off cnt : Nat} {m : Option Fmap} (h : Shape s) (lun : s.luntbl i = some l)
    (inside : f < l.nrFrag) (run : get4readFrag s i l f off cnt = .ok (m, s')) :
    (m = none ∧ s.Misses i f s') ∨ (m ≠ none ∧ s.Spares nobody s') := by
  have entry : s.entry i f = some (l.fragmap f) := entry_eq_some.mpr ⟨l, lun, inside, rfl⟩
  unfold get4readFrag at run
  simp only at run
  split at run
  · rename_i clear
    cases run
    have place : s.place i f = none := by
      rw [place_eq_entry, entry]
      simp [clear]
    have place' : (s.setDesc i f (fragdescInc (l.fragmap f))).place i f = none :=
      setDesc_place_unmapped (by rw [isMapped_inc]; exact clear)
    refine Or.inl ⟨rfl, ⟨l, lun, inside⟩, misslogPut_misslog rfl, ?_, ?_, ?_⟩
    · intro j k
      show (s.setDesc i f (fragdescInc (l.fragmap f))).place j k = _
      by_cases e : j = i ∧ k = f
      · obtain ⟨rfl, rfl⟩ := e
        rw [place, place']
      · exact setDesc_place_ne e
    · show (s.setDesc i f (fragdescInc (l.fragmap f))).heat i f = _
      unfold Sce.heat
      rw [place, place', setDesc_entry, if_pos ⟨rfl, rfl⟩, entry]
      simp [fragdescData_inc]
    · intro j k off
      refine heat_of_same (setDesc_place_ne off) ?_ fun _ _ => rfl
      exact setDesc_entry.trans (if_neg off)
  · rename_i mapped
    split at run
    · cases run
    · rename_i g frag
      obtain ⟨hit, _, run⟩ := Except.bind_eq_ok run
      have here : s.place i f = some (phys (l.fragmap f)) :=
        place_eq_some.mpr ⟨l, lun, inside, by simpa using mapped, rfl⟩
      split at run
      · cases run
        have found : (((s.modifyFrag (phys (l.fragmap f)) Frag.hit).modifyLun i Lun.hit).frag?
            (phys (l.fragmap f))) = some g.hit := by
          rw [modifyLun_frag?, modifyFrag_frag?_self, show s.frag? (phys (l.fragmap f)) = some g from frag]
          rfl
        obtain ⟨ctx, size, _, fmap⟩ := pfid2fmap_of_frag found
        refine Or.inr ⟨by rw [fmap]; simp, ?_⟩
        have hits : s.Still (s.modifyFrag (phys (l.fragmap f)) Frag.hit) := .modifyFrag fun _ => rfl
        have counted : (s.modifyFrag (phys (l.fragmap f)) Frag.hit).Spares nobody
            ((s.modifyFrag (phys (l.fragmap f)) Frag.hit).modifyLun i Lun.hit) :=
          .modifyLun (fun _ _ => rfl) fun _ _ => rfl
        exact (hits.spares.trans counted).trans (Still.spares ⟨rfl, rfl, fun _ => rfl⟩)
      · cases run
        refine Or.inl ⟨rfl, ⟨l, lun, inside⟩, misslogPut_misslog rfl, fun _ _ => rfl, ?_, ?_⟩
        · show (s.modifyFrag (phys (l.fragmap f)) fun g => { g with nrMiss := u32 (g.nrMiss + 1) }).heat i f = _
          unfold Sce.heat
          rw [modifyFrag_place, here]
          simp only
          rw [modifyFrag_frag?_self, show s.frag? (phys (l.fragmap f)) = some g from frag]
          simp [u32]
        · intro j k off
          refine heat_of_same rfl rfl fun a there => ?_
          have ne : a ≠ phys (l.fragmap f) := by
            rintro rfl
            exact off (h.place_inj here there)
          have same : (s.modifyFrag (phys (l.fragmap f)) fun g => { g with nrMiss := u32 (g.nrMiss + 1) }).frag? a =
              s.frag? a := modifyFrag_frag?_ne ne
          exact congrArg (Option.map Frag.nrMiss) same

/-- `sce_get4read` looks the range up: it lies in one fragment of a LUN in service. -/
def Sce.accepts (s : Sce) (i x n : Nat) : Bool :=
  (s.luntbl i).any fun l => !l.waiting4deletion && decide (0 < n) && decide (x + n ≤ l.nrSctr) &&
    decide ((x + n - 1) / sceSctrPerFrag = x / sceSctrPerFrag)

theorem Sce.accepts_iff {x n : Nat} : s.accepts i x n = true ↔ ∃ l, s.luntbl i = some l ∧ l.waiting4deletion = false ∧
    0 < n ∧ x + n ≤ l.nrSctr ∧ (x + n - 1) / sceSctrPerFrag = x / sceSctrPerFrag := by
  unfold Sce.accepts
  rw [Option.any_eq_true]
  simp only [Bool.and_eq_true, Bool.not_eq_true', decide_eq_true_eq, and_assoc]

/-- A read that is looked up and not served is counted and logged, and no other is. -/
theorem sceGet4read_misses {x n : Nat} {m : Option Fmap} (h : Shape s) (hx : x < 2 ^ 64) (hn' : n < 2 ^ 32)
    (run : sceGet4read s i x n = .ok (m, s')) :
    (m = none ∧ s.accepts i x n = true ∧ s.Misses i (u32 (x / sceSctrPerFrag)) s') ∨
      (¬ (m = none ∧ s.accepts i x n = true) ∧ s.Spares nobody s') := by
  unfold sceGet4read at run
  split at run
  · rename_i lock
    cases run
    refine Or.inr ⟨?_, .refl s⟩
    rintro ⟨_, accepted⟩
    obtain ⟨l, lun, active, hn, bound, _⟩ := Sce.accepts_iff.mp accepted
    have limit := h.nrSctr_lt lun
    have locked : lockLun s i x n true = some l :=
      lockLun_eq_some.mpr ⟨lun, (inRange_iff (by omega)).mpr ⟨hn, bound⟩, fun _ => active⟩
    rw [lock] at locked
    cases locked
  · rename_i l lock
    obtain ⟨lun, range, active⟩ := lockLun_eq_some.mp lock
    have hn : 0 < n := by
      by_contra z
      simp [inRange, Nat.eq_zero_of_not_pos z] at range
    obtain ⟨ψ, hψ⟩ : ∃ ψ : Lun → Lun, ψ = fun l => { l with stats := { l.stats with
      reads := l.stats.reads + 1, readSctrs := l.stats.readSctrs + (n : Nat) } } := ⟨_, rfl⟩
    have counted : s.Spares nobody (s.modifyLun i ψ) := .modifyLun (by simp [hψ]) (by simp [hψ])
    simp only [← hψ, page_div] at run
    split at run
    · rename_i long
      cases run
      refine Or.inr ⟨?_, counted⟩
      rintro ⟨_, accepted⟩
      obtain ⟨l', lun', _, _, bound, one⟩ := Sce.accepts_iff.mp accepted
      have limit := h.nrSctr_lt lun'
      obtain ⟨count, order⟩ := read_count hn (by omega) one
      simp only [scePagePerFrag, sceSctrPerPage, count] at long
      unfold u32 at long
      omega
    · rename_i fits
      split at run
      · cases run
      · rename_i inside
        have lun₁ : (s.modifyLun i ψ).luntbl i = some (ψ l) := by simp [lun]
        have h₁ : Shape (s.modifyLun i ψ) := h.modifyLun (by simp [hψ]) (by simp [hψ]) (by simp [hψ])
        have same : ∀ off cnt, get4readFrag (s.modifyLun i ψ) i l (u32 (x / sceSctrPerFrag)) off cnt =
            get4readFrag (s.modifyLun i ψ) i (ψ l) (u32 (x / sceSctrPerFrag)) off cnt := by
          intro off cnt
          simp [get4readFrag, hψ]
        rw [same] at run
        simp only [scePagePerFrag, sceSctrPerPage, Nat.not_lt] at fits
        have place : u32 (x / 8 / 256) < l.nrFrag := by
          rw [show x / 8 / 256 = x / sceSctrPerFrag from page_div x]
          exact Nat.not_le.mp inside
        obtain ⟨short, one⟩ := read_span hx hn hn' (h.nrFrag_lt lun) fits place
        have accepted : s.accepts i x n = true :=
          Sce.accepts_iff.mpr ⟨l, lun, active rfl, hn, ((inRange_iff short).mp range).2, one⟩
        have inside₁ : u32 (x / sceSctrPerFrag) < (ψ l).nrFrag := by
          rw [show (ψ l).nrFrag = l.nrFrag by simp [hψ]]
          exact Nat.not_le.mp inside
        rcases get4readFrag_misses h₁ lun₁ inside₁ run with ⟨rfl, misses⟩ | ⟨served, spares⟩
        · have places := modifyLun_place (s := s) (i := i) (ψ := ψ) (by simp [hψ]) (by simp [hψ])
          have entries := modifyLun_entry (s := s) (i := i) (ψ := ψ) (by simp [hψ]) (by simp [hψ])
          have heats : ∀ j k, (s.modifyLun i ψ).heat j k = s.heat j k := fun j k =>
            heat_of_same (congrFun (congrFun places j) k) (congrFun (congrFun entries j) k) fun _ _ => rfl
          refine Or.inl ⟨rfl, accepted, ⟨l, lun, Nat.not_le.mp inside⟩, ?_, ?_, ?_, ?_⟩
          · exact misses.misslog.trans (misslogPut_misslog rfl)
          · exact fun j k => (misses.place j k).trans (congrFun (congrFun places j) k)
          · rw [misses.here, heats]
          · exact fun j k off => (misses.others j k off).trans (heats j k)
        · exact Or.inr ⟨fun both => served both.1, counted.trans spares⟩

/-! ### Devices and LUNs -/

theorem Sce.Still.trans {t : Sce} (h : s.Still t) (h' : t.Still s') : s.Still s' :=
  ⟨h'.luntbl.trans h.luntbl, h'.misslog.trans h.misslog, fun a => (h'.misses a).trans (h.misses a)⟩

theorem freeFragments_still {d n : Nat} : ∀ {s : Sce}, freeFragments d n s = .ok s' → s.Still s' := by
  induction n with
  | zero =>
    intro s run
    obtain ⟨⟨_, t⟩, put, run⟩ := Except.bind_eq_ok run
    cases run
    exact freefraglistPut_still put
  | succ n ih =>
    intro s run
    obtain ⟨⟨_, t⟩, put, run⟩ := Except.bind_eq_ok run
    exact (freefraglistPut_still put).trans (ih run)

/-- The fragments of a new device are not mapped. -/
theorem sceAddcdev_spares {m ctx : Nat} {vmalloc : Bool} {hndl : Option Nat} (h : Inv nowhere s)
    (run : sceAddcdev s m ctx vmalloc = .ok (hndl, s')) : s.Spares nobody s' := by
  unfold sceAddcdev at run
  split at run
  · cases run
    exact .refl s
  · split at run
    · cases run
      exact .refl s
    · split at run
      · cases run
        exact .refl s
      · rename_i d found
        split at run
        · cases run
          exact .refl s
        · obtain ⟨t, free, run⟩ := Except.bind_eq_ok run
          cases run
          have absent : s.cdevtbl d = none := by simpa using List.find?_some found
          refine Spares.trans ?_ (freeFragments_still free).spares
          refine .of_same rfl rfl rfl fun i f a here => ?_
          obtain ⟨g, frag, _⟩ := node_eq_some.mp (h.shape.mapped i f a here)
          have ne : a.dev ≠ d := by
            intro e
            simp [frag?, e, absent] at frag
          simp [frag?, ne]

/-- A new LUN starts with its data bits at `0x5555555`. -/
theorem sceAddlun_spares {m ctx : Nat} {vmalloc : Bool} {hndl : Option Nat}
    (run : sceAddlun s m ctx vmalloc = .ok (hndl, s')) : (hndl = none ∧ s' = s) ∨
    ∃ i, hndl = some i ∧ s.Spares (fun j _ => j = i) s' ∧ (∀ f, s'.place i f = none) ∧
      ∀ f n, s'.heat i f = some n → n = 0x5555555 := by
  unfold sceAddlun at run
  split at run
  · cases run
    exact Or.inl ⟨rfl, rfl⟩
  · split at run
    · cases run
      exact Or.inl ⟨rfl, rfl⟩
    · rename_i i found
      split at run
      · cases run
        exact Or.inl ⟨rfl, rfl⟩
      · rename_i l init
        cases run
        have map : ∀ f, l.fragmap f = 0x55555555#32 := by
          unfold lunInit at init
          simp only at init
          split at init
          · cases init
            exact fun _ => rfl
          · cases init
        have clear : isMapped 0x55555555#32 = false := by decide
        have place : ∀ f, Sce.place { s with
            luntbl := fun j => if j = i then some { l with lunctx := ctx } else s.luntbl j
            nrLun := s.nrLun + 1 } i f = none := by
          intro f
          simp [Sce.place, map, clear]
        refine Or.inr ⟨i, rfl, ⟨rfl, ?_, ?_⟩, place, ?_⟩
        · intro j f a off here
          simpa [Sce.place, off] using here
        · intro j f n off here
          simpa [Sce.heat, Sce.place, Sce.entry, off, frag?] using here
        · intro f n here
          unfold Sce.heat at here
          rw [place] at here
          obtain ⟨w, entry, rfl⟩ := Option.map_eq_some_iff.mp here
          obtain ⟨l', lun, _, rfl⟩ := entry_eq_some.mp entry
          simp only [if_pos, Option.some.injEq] at lun
          subst lun
          rw [map]
          decide

/-- A descriptor that mapped to the device gets what has been counted in the fragment. -/
theorem sceRmcdev_spares {d : Nat} (h : Inv nowhere s) (run : sceRmcdev s d = .ok (r, s')) : s.Spares nobody s' := by
  cases present : s.cdevtbl d with
  | none =>
    unfold sceRmcdev at run
    rw [present] at run
    cases run
    exact .refl s
  | some cdev =>
    obtain ⟨fl, s₁, s₂, _, _, linked, mapped, _, swept, _, run'⟩ := sceRmcdev_parts h present
    obtain ⟨rfl, rfl⟩ := Prod.mk.inj (Except.ok.inj (run'.symm.trans run))
    obtain ⟨tbl, eq₂⟩ := swept.same
    have place₁ : s₁.place = s.place := by
      funext i f
      unfold Sce.place
      rw [linked.luntbl]
    have entry₁ : s₁.entry = s.entry := by
      funext i f
      unfold Sce.entry
      rw [linked.luntbl]
    have places : ∀ i f a, (s₂.withoutCdev d cdev.nrFrag).place i f = some a → s.place i f = some a := by
      intro i f a here
      rw [← place₁]
      exact swept.sub here
    refine ⟨?_, fun i f a _ here => places i f a here, ?_⟩
    · show s₂.misslog = s.misslog
      rw [show s₂.misslog = s₁.misslog by rw [eq₂]; rfl]
      exact (congrArg Sce.misslog linked.same :)
    · intro i f n _ here
      unfold Sce.heat at here
      cases there : (s₂.withoutCdev d cdev.nrFrag).place i f with
      | some a =>
        have place := places i f a there
        rw [there] at here
        simp only [unplugged_frag? swept] at here
        split at here
        · cases here
        · rw [mapped i f a place] at here
          unfold Sce.heat
          rw [place]
          exact here
      | none =>
        rw [there] at here
        obtain ⟨w', entry', rfl⟩ := Option.map_eq_some_iff.mp here
        have entry' : s₂.entry i f = some w' := entry'
        obtain ⟨l', lun', inside, _⟩ := entry_eq_some.mp entry'
        have volume := swept.volume i
        rw [lun'] at volume
        obtain ⟨l, lun, same⟩ := Option.map_eq_some_iff.mp volume.symm
        have size : l.nrFrag = l'.nrFrag := congrArg Volume.nrFrag same
        have entry : s.entry i f = some (l.fragmap f) :=
          entry_eq_some.mpr ⟨l, by rw [← linked.luntbl]; exact lun, by omega, rfl⟩
        unfold Sce.heat
        rw [place_eq_entry, entry]
        rcases swept.entry i f _ (entry₁ ▸ entry) with kept | ⟨g, isMap, _, frag, gone⟩
        · obtain rfl := Option.some.inj (kept.symm.trans entry')
          have clear : isMapped (l.fragmap f) = false := by
            have still : s₂.place i f = none := there
            rw [place_eq_entry, entry'] at still
            simpa using still
          simp [clear]
        · have place : s.place i f = some (phys (l.fragmap f)) := by
            rw [place_eq_entry, entry]
            simp [isMap]
          rw [mapped i f _ place] at frag
          obtain rfl := Option.some.inj (gone.symm.trans entry')
          rw [Option.bind_some, if_pos isMap]
          simp only [frag, Option.map_some]
          rw [fragdescData_ofNat]

/-! ### One call -/

/-- The fragment a call is a miss on. -/
def Op.missed (s : Sce) : Op → Reply → Option (Nat × Nat)
  | .get4read i x n, .fmap none => if s.accepts i x n then some (i, u32 (x / sceSctrPerFrag)) else none
  | _, _ => none

/-- The LUN a call adds. -/
def Op.added : Op → Reply → Option Nat
  | .addlun _ _ _, .hndl h => h
  | _, _ => none

/-- What a call does to the miss log and to the counts. -/
inductive Sce.Tells (s : Sce) (op : Op) (reply : Reply) (s' : Sce) : Prop
  | missed {i f : Nat} (miss : op.missed s reply = some (i, f)) (add : op.added reply = none) (misses : s.Misses i f s')
  | added {i : Nat} (miss : op.missed s reply = none) (add : op.added reply = some i)
      (spares : s.Spares (fun j _ => j = i) s') (clear : ∀ f, s'.place i f = none)
      (fresh : ∀ f n, s'.heat i f = some n → n = 0x5555555)
  | mapped {i f : Nat} {a : Phys} (miss : op.missed s reply = none) (add : op.added reply = none)
      (spares : s.Spares (fun j k => j = i ∧ k = f) s') (clear : s.place i f = none) (here : s'.place i f = some a)
      (cold : s'.heat i f = some 0)
  | spared (miss : op.missed s reply = none) (add : op.added reply = none) (spares : s.Spares nobody s')

theorem Sce.call_tells {op : Op} {reply : Reply} (h : Inv nowhere s) (typed : op.InType)
    (run : s.call op = .ok (reply, s')) : s.Tells op reply s' := by
  cases op with
  | addcdev m ctx vmalloc =>
    obtain ⟨⟨r, t⟩, done, e⟩ := Except.map_eq_ok.mp run
    obtain ⟨rfl, rfl⟩ := Prod.mk.inj e
    exact .spared rfl rfl (sceAddcdev_spares h done)
  | rmcdev d =>
    obtain ⟨⟨r, t⟩, done, e⟩ := Except.map_eq_ok.mp run
    obtain ⟨rfl, rfl⟩ := Prod.mk.inj e
    exact .spared rfl rfl (sceRmcdev_spares h done)
  | addlun m ctx vmalloc =>
    obtain ⟨⟨r, t⟩, done, e⟩ := Except.map_eq_ok.mp run
    obtain ⟨rfl, rfl⟩ := Prod.mk.inj e
    rcases sceAddlun_spares done with ⟨rfl, rfl⟩ | ⟨i, rfl, spares, clear, fresh⟩
    · exact .spared rfl rfl (.refl _)
    · exact .added rfl rfl spares clear fresh
  | rmlun i =>
    obtain ⟨⟨r, t⟩, done, e⟩ := Except.map_eq_ok.mp run
    obtain ⟨rfl, rfl⟩ := Prod.mk.inj e
    exact .spared rfl rfl ((sceRmlun_within done).spares_of_shape h.shape)
  | get4read i x n =>
    obtain ⟨⟨r, t⟩, done, e⟩ := Except.map_eq_ok.mp run
    obtain ⟨rfl, rfl⟩ := Prod.mk.inj e
    rcases sceGet4read_misses h.shape typed.1 typed.2 done with ⟨rfl, accepted, misses⟩ | ⟨not, spares⟩
    · exact .missed (by simp [Op.missed, accepted]) rfl misses
    · refine .spared ?_ rfl spares
      cases r with
      | none => simpa [Op.missed] using not
      | some m => rfl
  | put4read i x n =>
    obtain ⟨⟨r, t⟩, done, e⟩ := Except.map_eq_ok.mp run
    obtain ⟨rfl, rfl⟩ := Prod.mk.inj e
    exact .spared rfl rfl ((scePut4read_within done).spares_of_shape h.shape)
  | invalidate i x n =>
    obtain ⟨⟨r, t⟩, done, e⟩ := Except.map_eq_ok.mp run
    obtain ⟨rfl, rfl⟩ := Prod.mk.inj e
    exact .spared rfl rfl ((sceInvalidate_within done).spares_of_shape h.shape)
  | get4pop past =>
    obtain ⟨⟨r, t⟩, done, e⟩ := Except.map_eq_ok.mp run
    obtain ⟨rfl, rfl⟩ := Prod.mk.inj e
    rcases sceGet4pop_spares h done with ⟨_, spares⟩ | ⟨_, i, f, a, chosen, spares, here, cold⟩
    · exact .spared rfl rfl spares
    · refine .mapped rfl rfl spares ?_ here cold
      -- the chosen fragment is unmapped, or not in the map at all
      rcases choose4populationLoop_spec _ _ _ chosen with no | ⟨l, lun, _, clear⟩
      · cases no
      · rw [← Option.not_isSome_iff_eq_none, Option.isSome_iff_exists]
        rintro ⟨b, there⟩
        obtain ⟨l', lun', inside, isMap, _⟩ := Sce.place_eq_some.mp there
        obtain rfl := Option.some.inj (lun.symm.trans lun')
        rw [readFragmap, if_pos inside, isMap] at clear
        cases clear
  | put4pop poptask failed =>
    obtain ⟨⟨r, t⟩, done, e⟩ := Except.map_eq_ok.mp run
    obtain ⟨rfl, rfl⟩ := Prod.mk.inj e
    cases found : lunSearch s poptask.lunctx with
    | none =>
      unfold scePut4pop at done
      rw [found] at done
      cases done
      exact .spared rfl rfl (.refl _)
    | some i => exact .spared rfl rfl ((scePut4pop_within h.shape found done).spares_of_shape h.shape)

end Iostash
