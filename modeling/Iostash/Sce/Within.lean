import Iostash.Sce.Locking
import Iostash.Sce.Occupancy

/-!
# What a call touches under the lock of a LUN

The calls that work on one LUN reach its map and the fragments it maps, and they give fragments back to
the free list. They do not reach the other LUNs, the miss log or the clock arm.
-/

namespace Iostash

open Util

/-- The misses counted for a fragment of a LUN: in the structure it is mapped to, or in its descriptor. -/
def Sce.heat (s : Sce) (i f : Nat) : Option Nat :=
  match s.place i f with
  | some a => (s.frag? a).map fun g => g.nrMiss % 2 ^ 28
  | none => (s.entry i f).map fun w => (fragdescData w).toNat

/-- Only LUN `i` is worked on, fragments of it are unmapped at most, and the free list at most grows. -/
structure Sce.Within (i : Nat) (s s' : Sce) : Prop where
  lun : ∀ j, j ≠ i → s'.luntbl j = s.luntbl j
  misslog : s'.misslog = s.misslog
  arm : s'.arm = s.arm
  place : ∀ f a, s'.place i f = some a → s.place i f = some a
  entry : ∀ f w, s'.entry i f = some w → s.place i f = none → s.entry i f = some w
  heat : ∀ f n, s'.heat i f = some n → s.heat i f = some n
  frag : ∀ a, (∀ f, s.place i f ≠ some a) → s'.frag? a = s.frag? a
  count : s.nrFreefrag ≤ s'.nrFreefrag
  list : s'.nrFreefrag = s.nrFreefrag → s'.freefraglist = s.freefraglist

namespace Sce

variable {s s' t : Sce} {i f k : Nat} {a : Phys} {w : Word} {g : Frag} {φ : Frag → Frag} {ψ : Lun → Lun}

theorem heat_congr (luntbl : s'.luntbl i = s.luntbl i)
    (frag : ∀ a, s.place i f = some a → (s'.frag? a).map Frag.nrMiss = (s.frag? a).map Frag.nrMiss) :
    s'.heat i f = s.heat i f := by
  have place : s'.place i f = s.place i f := by
    unfold Sce.place
    rw [luntbl]
  have entry : s'.entry i f = s.entry i f := by
    unfold Sce.entry
    rw [luntbl]
  unfold heat
  rw [place, entry]
  cases here : s.place i f with
  | none => rfl
  | some a =>
    have same := congrArg (Option.map fun n => n % 2 ^ 28) (frag a here)
    simpa only [Option.map_map, Function.comp_def] using same

theorem Within.refl (i : Nat) (s : Sce) : s.Within i s :=
  ⟨fun _ _ => rfl, rfl, rfl, fun _ _ here => here, fun _ _ here _ => here, fun _ _ here => here, fun _ _ => rfl,
    le_rfl, fun _ => rfl⟩

theorem Within.trans (h : s.Within i t) (h' : t.Within i s') : s.Within i s' := by
  refine ⟨fun j ne => (h'.lun j ne).trans (h.lun j ne), h'.misslog.trans h.misslog, h'.arm.trans h.arm,
    fun f a here => h.place f a (h'.place f a here), ?_, fun f n here => h.heat f n (h'.heat f n here), ?_,
    h.count.trans h'.count, ?_⟩
  · intro f w here clear
    have clear' : t.place i f = none := by
      by_contra mapped
      obtain ⟨a, there⟩ := Option.ne_none_iff_exists'.mp mapped
      rw [h.place f a there] at clear
      cases clear
    exact h.entry f w (h'.entry f w here clear') clear
  · intro a apart
    have apart' : ∀ f, t.place i f ≠ some a := fun f here => apart f (h.place f a here)
    exact (h'.frag a apart').trans (h.frag a apart)
  · intro same
    -- the count is the same in between
    have first := h.count
    have second := h'.count
    exact (h'.list (by omega)).trans (h.list (by omega))

theorem Within.modifyFrag (here : s.place i f = some a) (keeps : ∀ g, s.frag? a = some g → (φ g).nrMiss = g.nrMiss) :
    s.Within i (s.modifyFrag a φ) := by
  have misses : ∀ b, ((s.modifyFrag a φ).frag? b).map Frag.nrMiss = (s.frag? b).map Frag.nrMiss := by
    intro b
    rw [modifyFrag_frag?]
    split
    · rename_i e
      subst e
      cases frag : s.frag? b with
      | none => rfl
      | some g => simp [keeps g frag]
    · rfl
  refine ⟨fun _ _ => rfl, rfl, rfl, fun _ _ there => there, fun _ _ there _ => there, ?_, ?_, le_rfl, fun _ => rfl⟩
  · intro f n there
    have same : (s.modifyFrag a φ).heat i f = s.heat i f := heat_congr rfl fun b _ => misses b
    rwa [same] at there
  · intro b apart
    exact modifyFrag_frag?_ne fun e => apart f (e ▸ here)

theorem Within.modifyLun (size : ∀ l, s.luntbl i = some l → (ψ l).nrFrag = l.nrFrag)
    (map : ∀ l, s.luntbl i = some l → (ψ l).fragmap = l.fragmap) : s.Within i (s.modifyLun i ψ) := by
  have place := modifyLun_place size map
  have entry := modifyLun_entry size map
  refine ⟨fun _ ne => modifyLun_luntbl_ne ne, rfl, rfl, ?_, ?_, ?_, fun _ _ => rfl, le_rfl, fun _ => rfl⟩
  · intro f a here
    rwa [place] at here
  · intro f w here _
    rwa [entry] at here
  · intro f n here
    unfold Sce.heat at here ⊢
    rwa [place, entry] at here

theorem Within.setDesc (mapped : s.place i k = some a) (frag : s.frag? a = some g)
    (there : (s.setDesc i k w).place i k = some a ∨
      (s.setDesc i k w).place i k = none ∧ (fragdescData w).toNat = g.nrMiss % 2 ^ 28) :
    s.Within i (s.setDesc i k w) := by
  have heat : (s.setDesc i k w).heat i k = s.heat i k := by
    unfold Sce.heat
    obtain ⟨l, lun, inside, _⟩ := place_eq_some.mp mapped
    rw [mapped]
    rcases there with same | ⟨clear, count⟩
    · rw [same]
      rfl
    · have entry : (s.setDesc i k w).entry i k = some w := by
        rw [setDesc_entry, if_pos ⟨rfl, rfl⟩]
        simp [Sce.entry, lun, inside]
      simp [clear, entry, frag, count]
  refine ⟨fun _ ne => modifyLun_luntbl_ne ne, rfl, rfl, ?_, ?_, ?_, fun _ _ => rfl, le_rfl, fun _ => rfl⟩
  · intro f b here
    by_cases e : f = k
    · subst e
      rcases there with same | ⟨clear, _⟩
      · rw [same] at here
        rw [mapped]
        exact here
      · rw [clear] at here
        cases here
    · rwa [setDesc_place_ne fun both => e both.2] at here
  · intro f w' here none
    have e : f ≠ k := by
      rintro rfl
      rw [mapped] at none
      cases none
    rwa [setDesc_entry, if_neg fun both => e both.2] at here
  · intro f n here
    by_cases e : f = k
    · subst e
      rwa [heat] at here
    · unfold Sce.heat at here ⊢
      rwa [setDesc_place_ne fun both => e both.2, setDesc_entry, if_neg fun both => e both.2] at here

theorem Within.lunDestroy : s.Within i (lunDestroy s i) := by
  have gone : ∀ f, (Iostash.lunDestroy s i).place i f = none := by simp [Sce.place, Iostash.lunDestroy]
  have none : ∀ f, (Iostash.lunDestroy s i).entry i f = none := by simp [Sce.entry, Iostash.lunDestroy]
  refine ⟨?_, rfl, rfl, ?_, ?_, ?_, fun _ _ => rfl, le_rfl, fun _ => rfl⟩
  · intro j ne
    simp [Iostash.lunDestroy, ne]
  · intro f a here
    rw [gone] at here
    cases here
  · intro f w here
    rw [none] at here
    cases here
  · intro f n here
    unfold Sce.heat at here
    rw [gone, none] at here
    cases here

end Sce

open Sce

variable {s s' : Sce} {i f : Nat} {a : Phys} {r : Ret}

theorem freefraglistPut_keeps {α : Type} {φ : Frag → α} (keeps : ∀ g n w, φ { g with fragnum := n, next := w } = φ g)
    {pfid : Word} (run : freefraglistPut s pfid = .ok (r, s')) (b : Phys) : (s'.frag? b).map φ = (s.frag? b).map φ := by
  unfold freefraglistPut at run
  split at run
  · cases run
    rfl
  · split at run
    · cases run
      rfl
    · simp only at run
      split at run
      · cases run
      · cases run
        have pushed : (s.pushFree pfid).frag? b = _ := pushFree_frag?
        refine (congrArg _ pushed).trans ?_
        split
        · rw [Option.map_map]
          cases s.frag? b with
          | none => rfl
          | some g => exact congrArg some (keeps g _ _)
        · rfl

theorem freefraglistPut_within {pfid : Word} (here : s.place i f = some (phys pfid))
    (run : freefraglistPut s pfid = .ok (r, s')) : s.Within i s' := by
  have heat : ∀ f n, s'.heat i f = some n → s.heat i f = some n := by
    intro f n there
    rwa [heat_congr (congrFun (freefraglistPut_luntbl run) i) fun b _ =>
      freefraglistPut_keeps (fun _ _ _ => rfl) run b] at there
  unfold freefraglistPut at run
  split at run
  · cases run
    exact .refl i s
  · split at run
    · cases run
      exact .refl i s
    · simp only at run
      split at run
      · cases run
      · cases run
        refine ⟨fun _ _ => rfl, rfl, rfl, fun _ _ there => there, fun _ _ there _ => there, heat, ?_, Nat.le_succ _,
          fun same => ?_⟩
        · intro b apart
          have ne : b ≠ phys pfid := by
            rintro rfl
            exact apart f here
          have pushed : (s.pushFree pfid).frag? b = _ := pushFree_frag?
          exact pushed.trans (if_neg ne)
        · exact absurd same (Nat.succ_ne_self _)

theorem unmapFrag_within (run : unmapFrag s i f = .ok (r, s')) : s.Within i s' := by
  rcases unmapFrag_cases run with rfl | ⟨l, g, ret, t, lun, inside, mapped, frag, _, put, done⟩
  · exact .refl i s'
  · have here : s.place i f = some (phys (l.fragmap f)) := place_eq_some.mpr ⟨l, lun, inside, mapped, rfl⟩
    have first := freefraglistPut_within here put
    rcases done with rfl | rfl
    · exact first
    · -- the count is read before the fragment is put, and is still there
      have count := freefraglistPut_keeps (φ := Frag.nrMiss) (fun _ _ _ => rfl) put (phys (l.fragmap f))
      rw [frag] at count
      obtain ⟨g', frag', same⟩ := Option.map_eq_some_iff.mp count
      have there : t.place i f = some (phys (l.fragmap f)) := by
        unfold Sce.place
        rw [freefraglistPut_luntbl put]
        exact here
      refine first.trans (.setDesc there frag' (Or.inr ⟨setDesc_place_unmapped (isMapped_data _), ?_⟩))
      rw [fragdescData_ofNat, same]

theorem reclaims_within (i : Nat) : Reclaims i (Sce.Within i) where
  refl := .refl i
  trans := .trans
  unmap := unmapFrag_within
  destroy := fun s => by
    have gone : s.Within i (lunDestroy s i) := .lunDestroy
    exact ⟨gone.lun, gone.misslog, gone.arm, gone.place, gone.entry, gone.heat, gone.frag, gone.count, gone.list⟩

theorem sceRmlun_within (run : sceRmlun s i = .ok (r, s')) : s.Within i s' := by
  unfold sceRmlun at run
  split at run
  · cases run
    exact .refl i s
  · split at run
    · cases run
      exact .modifyLun (fun _ _ => rfl) fun _ _ => rfl
    · exact (reclaims_within i).lunPurge run

theorem put4readFrag_within {g : Frag} (here : s.place i f = some a) (run : put4readFrag s i a g = .ok (r, s')) :
    s.Within i s' := by
  unfold put4readFrag at run
  have served : s.Within i (s.modifyFrag a fun g => { g with nrService := g.nrService - 1 }) :=
    .modifyFrag here fun _ _ => rfl
  have first : s.Within i ((s.modifyFrag a fun g => { g with nrService := g.nrService - 1 }).modifyLun i
      fun l => { l with nrService := l.nrService - 1 }) :=
    served.trans (.modifyLun (fun _ _ => rfl) fun _ _ => rfl)
  simp only at run
  split at run
  · obtain ⟨⟨_, t⟩, gc, run⟩ := Except.bind_eq_ok run
    cases run
    exact first.trans (((reclaims_within i).lunGc gc))
  · cases run
    exact first

theorem scePut4read_within {x n : Nat} (run : scePut4read s i x n = .ok (r, s')) : s.Within i s' := by
  unfold scePut4read at run
  split at run
  · cases run
    exact .refl i s
  · rename_i l lock
    obtain ⟨lun, _⟩ := lockLun_eq_some.mp lock
    simp only at run
    split at run
    · cases run
      exact .refl i s
    · split at run
      · cases run
      · rename_i inside
        split at run
        · cases run
          exact .refl i s
        · rename_i here
          split at run
          · cases run
            exact .refl i s
          · split at run
            · cases run
              exact .refl i s
            · simp only [not_or, Bool.not_eq_false] at here
              exact put4readFrag_within (place_eq_some.mpr ⟨l, lun, by omega, here.1, rfl⟩) run

theorem fragInvalidate_keeps {α : Type} {φ : Frag → α} (keeps : ∀ g bm n, φ { g with bitmap := bm, nrValid := n } = φ g)
    {g g' : Frag} {pgoff pgcnt n : Nat} (run : fragInvalidate g pgoff pgcnt = .ok (g', n)) : φ g' = φ g := by
  unfold fragInvalidate at run
  split at run
  · cases run
  · obtain ⟨⟨bm, nr⟩, _, run⟩ := Except.bind_eq_ok run
    simp only at run
    split at run
    · cases run
    · cases run
      exact keeps g _ _

theorem invalidateFrag_within {l : Lun} {g : Frag} {pgoff pgcnt : Nat} (lun : s.luntbl i = some l)
    (inside : f < l.nrFrag) (mapped : isMapped (l.fragmap f) = true) (frag : s.pfid2frag (l.fragmap f) = some g)
    (run : invalidateFrag s i (l.fragmap f) g pgoff pgcnt = .ok s') : s.Within i s' := by
  unfold invalidateFrag at run
  obtain ⟨⟨g', n⟩, inval, run⟩ := Except.bind_eq_ok run
  have here : s.place i f = some (phys (l.fragmap f)) := place_eq_some.mpr ⟨l, lun, inside, mapped, rfl⟩
  have marked : s.Within i (s.modifyFrag (phys (l.fragmap f)) fun _ => g') := by
    refine .modifyFrag here fun g₀ frag₀ => ?_
    obtain rfl := Option.some.inj (frag.symm.trans frag₀)
    exact fragInvalidate_keeps (φ := Frag.nrMiss) (fun _ _ _ => rfl) inval
  have first : s.Within i ((s.modifyFrag (phys (l.fragmap f)) fun _ => g').modifyLun i fun l => { l with stats :=
      { l.stats with validSctrs := l.stats.validSctrs - (n * sceSctrPerPage : Nat) } }) :=
    marked.trans (.modifyLun (fun _ _ => rfl) fun _ _ => rfl)
  simp only at run
  split at run
  · obtain ⟨⟨_, t⟩, gc, run⟩ := Except.bind_eq_ok run
    cases run
    exact first.trans (((reclaims_within i).lunGc gc))
  · cases run
    exact first

theorem invalidateLoop_within {p : Nat × Nat} (fuel : Nat) : ∀ (fragnum pgoff count wh : Nat) (s : Sce),
    invalidateLoop i fuel fragnum pgoff count wh s = .ok (p, s') → s.Within i s' := by
  induction fuel with
  | zero =>
    intro fragnum pgoff count wh s run
    cases run
    exact .refl i _
  | succ fuel ih =>
    intro fragnum pgoff count wh s run
    unfold invalidateLoop at run
    split at run
    · cases run
      exact .refl i _
    · simp only at run
      split at run
      · cases run
      · rename_i l lun
        split at run
        · cases run
        · rename_i inside
          split at run
          · exact ih _ _ _ _ _ run
          · rename_i mapped
            split at run
            · cases run
              exact .refl i _
            · rename_i g frag
              obtain ⟨t, inval, run⟩ := Except.bind_eq_ok run
              have first := invalidateFrag_within lun (by omega) (by simpa using mapped) frag inval
              exact first.trans (ih _ _ _ _ _ run)

theorem sceInvalidate_within {x n : Nat} (run : sceInvalidate s i x n = .ok (r, s')) : s.Within i s' := by
  cases lock : lockLun s i x n true with
  | none =>
    unfold sceInvalidate at run
    rw [lock] at run
    cases run
    exact .refl i s
  | some l =>
    rw [sceInvalidate_eq lock] at run
    obtain ⟨⟨⟨_, wh⟩, t⟩, visit, run⟩ := Except.bind_eq_ok run
    unfold visitFragments at visit
    have counted : s.Within i (s.modifyLun i fun l => { l with stats := { l.stats with
        writes := l.stats.writes + 1, writeSctrs := l.stats.writeSctrs + (n : Nat) } }) :=
      .modifyLun (fun _ _ => rfl) fun _ _ => rfl
    have first := counted.trans (invalidateLoop_within _ _ _ _ _ _ visit)
    cases run
    split
    · exact first
    · exact first.trans (.modifyLun (fun _ _ => rfl) fun _ _ => rfl)

theorem releasePopulation_within (run : releasePopulation s i a = .ok (r, s')) : s.Within i s' := by
  unfold releasePopulation at run
  have counted : s.Within i (s.modifyLun i fun l => { l with nrService := sub32 l.nrService 1 }) :=
    .modifyLun (fun _ _ => rfl) fun _ _ => rfl
  exact counted.trans ((reclaims_within _).lunGc run)

theorem completePopulation_within (run : completePopulation s i f = .ok (r, s')) : s.Within i s' := by
  unfold completePopulation at run
  split at run
  · cases run
    exact .refl i s
  · rename_i l lun
    split at run
    · cases run
      exact .refl i s
    · rename_i inside
      simp only at run
      split at run
      · cases run
        exact .refl i s
      · rename_i mapped
        have here : s.place i f = some (phys (l.fragmap f)) :=
          place_eq_some.mpr ⟨l, lun, by omega, by simpa using mapped, rfl⟩
        split at run
        · cases run
          exact .refl i s
        · rename_i g frag
          split at run
          · exact releasePopulation_within run
          · split at run
            · cases run
              exact .refl i s
            · split at run
              · cases run
                exact .refl i s
              · have same : (s.setDesc i f (l.fragmap f ||| fragdescValid)).place i f =
                    some (phys (l.fragmap f)) := by
                  rw [setDesc_place_self lun (by omega)]
                  simpa using mapped
                have flagged : s.Within i (s.setDesc i f (l.fragmap f ||| fragdescValid)) :=
                  .setDesc here frag (Or.inl same)
                have idle := Within.modifyFrag (φ := fun g => { g with nrService := 0 }) same fun _ _ => rfl
                exact (flagged.trans idle).trans (releasePopulation_within run)

/-- The branch for a secondary fragment, which would hang off the link of a mapped one, is not reached. -/
theorem cancelPopulation_within (h : Shape s) (run : cancelPopulation s i f = .ok (r, s')) : s.Within i s' := by
  unfold cancelPopulation at run
  split at run
  · cases run
    exact .refl i s
  · rename_i l lun
    split at run
    · cases run
      exact .refl i s
    · rename_i inside
      simp only at run
      split at run
      · cases run
        exact .refl i s
      · rename_i mapped
        have here : s.place i f = some (phys (l.fragmap f)) :=
          place_eq_some.mpr ⟨l, lun, by omega, by simpa using mapped, rfl⟩
        split at run
        · cases run
          exact .refl i s
        · rename_i g frag
          split at run
          · split at run
            · cases run
              exact .refl i s
            · split at run
              · cases run
                exact .refl i s
              · obtain ⟨⟨_, t⟩, unmap, run⟩ := Except.bind_eq_ok run
                have idle : s.Within i (s.modifyFrag (phys (l.fragmap f)) fun g => { g with nrService := 0 }) :=
                  .modifyFrag here fun _ _ => rfl
                exact idle.trans ((unmapFrag_within unmap).trans (releasePopulation_within run))
          · split at run
            · cases run
              exact .refl i s
            · rename_i secondary
              have node := h.mapped _ _ _ here
              rw [node_of_frag frag] at node
              exact absurd (congrArg Node.next (Option.some.inj node)) secondary

theorem scePut4pop_within {t : Poptask} {failed : Bool} (h : Shape s) (found : lunSearch s t.lunctx = some i)
    (run : scePut4pop s t failed = .ok (r, s')) : s.Within i s' := by
  unfold scePut4pop at run
  rw [found] at run
  simp only at run
  split at run
  · exact cancelPopulation_within h run
  · obtain ⟨⟨_, u⟩, done, run⟩ := Except.bind_eq_ok run
    cases run
    exact (completePopulation_within done).trans (.modifyLun (fun _ _ => rfl) fun _ _ => rfl)

end Iostash
