import Iostash.Sce.Call

/-!
# Occupancy statistics

`stats.alloc_sctrs` and `stats.valid_sctrs` of a LUN, and what they should count. Only three calls write
them: the end of a population, an invalidation and the removal of a device.
-/

namespace Iostash

/-! ### Sums over the mappings of a LUN -/

/-- A weight of the mappings on device `d`. -/
def onDev (d : Nat) (φ : Nat → Cell → Nat) (f : Nat) (c : Cell) : Nat := if c.addr.dev = d then φ f c else 0

namespace View

/-- The sum of a weight over the mappings of LUN `i`. -/
def total (v : View) (i : Nat) (φ : Nat → Cell → Nat) : Nat :=
  ∑ f ∈ Finset.range ((v.lun i).elim 0 Volume.nrFrag), (v.cell i f).elim 0 (φ f)

variable {v w : View} {i f : Nat} {l : Volume} {c : Cell} {φ ψ : Nat → Cell → Nat}

theorem total_congr (size : (w.lun i).elim 0 Volume.nrFrag = (v.lun i).elim 0 Volume.nrFrag)
    (same : ∀ f, (w.cell i f).elim 0 (φ f) = (v.cell i f).elim 0 (ψ f)) : w.total i φ = v.total i ψ := by
  unfold total
  rw [size]
  exact Finset.sum_congr rfl fun f _ => same f

/-- One mapping changes. -/
theorem total_at (size : (w.lun i).elim 0 Volume.nrFrag = (v.lun i).elim 0 Volume.nrFrag) (lun : v.lun i = some l)
    (inside : f < l.nrFrag) (others : ∀ k, k ≠ f → (w.cell i k).elim 0 (φ k) = (v.cell i k).elim 0 (ψ k)) :
    w.total i φ + (v.cell i f).elim 0 (ψ f) = v.total i ψ + (w.cell i f).elim 0 (φ f) := by
  have member : f ∈ Finset.range l.nrFrag := Finset.mem_range.mpr inside
  unfold total
  rw [size, lun, Option.elim_some, ← Finset.sum_erase_add _ _ member,
      ← Finset.sum_erase_add (Finset.range l.nrFrag) _ member]
  have rest : ∑ k ∈ (Finset.range l.nrFrag).erase f, (w.cell i k).elim 0 (φ k) =
      ∑ k ∈ (Finset.range l.nrFrag).erase f, (v.cell i k).elim 0 (ψ k) :=
    Finset.sum_congr rfl fun k other => others k (Finset.ne_of_mem_erase other)
  omega

theorem total_setLun {χ : Volume → Volume} {j : Nat} (size : ∀ l, (χ l).nrFrag = l.nrFrag) :
    (v.setLun j χ).total i φ = v.total i φ := by
  refine total_congr ?_ fun _ => rfl
  rw [setLun_lun]
  split
  · cases v.lun i <;> simp [size]
  · rfl

theorem total_setCell {χ : Cell → Cell} {j : Nat} (same : ∀ c, v.cell j f = some c → i = j → φ f (χ c) = φ f c) :
    (v.setCell j f χ).total i φ = v.total i φ := by
  refine total_congr rfl fun k => ?_
  rw [setCell_cell]
  split
  · rename_i e
    obtain ⟨rfl, rfl⟩ := e
    cases cell : v.cell i k with
    | none => rfl
    | some c => exact same c cell rfl
  · rfl

theorem total_drop (lun : v.lun i = some l) (inside : f < l.nrFrag) (cell : v.cell i f = some c) :
    (v.drop i f).total i φ + φ f c = v.total i φ := by
  have here : (v.drop i f).cell i f = none := by simp [drop_cell]
  have changed := total_at (v := v) (w := v.drop i f) (φ := φ) (ψ := φ) rfl lun inside
    fun k ne => by rw [drop_cell, if_neg fun both => ne both.2]
  rwa [cell, here] at changed

theorem total_drop_ne {j : Nat} (ne : i ≠ j) : (v.drop j f).total i φ = v.total i φ :=
  total_congr rfl fun k => by rw [drop_cell, if_neg fun both => ne both.1]

/-- A LUN that stays loses nothing when a LUN pending deletion goes. -/
theorem total_settle {j : Nat} (stays : (v.settle j).lun i ≠ none) : (v.settle j).total i φ = v.total i φ := by
  unfold settle at stays ⊢
  split
  · rename_i goes
    rw [if_pos goes, purge_lun] at stays
    have ne : i ≠ j := fun e => stays (if_pos e)
    exact total_congr (by rw [purge_lun, if_neg ne]) fun k => by rw [purge_cell, if_neg ne]
  · rfl

theorem total_collect {j : Nat} (lun : v.lun j = some l) (inside : f < l.nrFrag) (stays : (v.collect j f).lun i ≠ none)
    (nothing : ∀ c, v.cell j f = some c → c.service = 0 → c.spent = true → i = j → φ f c = 0) :
    (v.collect j f).total i φ = v.total i φ := by
  unfold collect at stays ⊢
  split
  · rename_i goes
    rw [if_pos goes] at stays
    rw [total_settle stays]
    cases cell : v.cell j f with
    | none => simp [cell] at goes
    | some c =>
      simp only [cell, Option.any_some, Bool.and_eq_true, beq_iff_eq] at goes
      by_cases e : i = j
      · subst e
        have changed := total_drop (φ := φ) lun inside cell
        rwa [nothing c cell goes.1 goes.2 rfl, Nat.add_zero] at changed
      · exact total_drop_ne e
  · rename_i goes
    rw [if_neg goes] at stays
    exact total_settle stays

theorem total_unplug {d : Nat} : (v.unplug d).total i φ + v.total i (onDev d φ) = v.total i φ := by
  unfold total onDev
  rw [show (v.unplug d).lun = v.lun from rfl, ← Finset.sum_add_distrib]
  apply Finset.sum_congr rfl
  intro f _
  show (Option.filter _ (v.cell i f)).elim 0 (φ f) + _ = _
  cases v.cell i f with
  | none => rfl
  | some c =>
    simp only [Option.filter_some, Option.elim_some]
    by_cases e : c.addr.dev = d <;> simp [e]

end View

/-! ### The counts of a LUN -/

/-- The two counts `stats_show` reports as allocated and valid sectors. -/
def Lun.counts (l : Lun) : Int × Int := (l.stats.allocSctrs, l.stats.validSctrs)

def Sce.counts (s : Sce) (i : Nat) : Option (Int × Int) := (s.luntbl i).map Lun.counts

/-- A LUN that is left has the counts it had. -/
def Sce.SameCounts (s s' : Sce) : Prop := ∀ i o, s'.counts i = some o → s.counts i = some o

namespace Sce

variable {s s' t : Sce} {i f : Nat} {a : Phys} {w : Word} {ψ : Lun → Lun}

theorem SameCounts.refl (s : Sce) : s.SameCounts s := fun _ _ here => here

theorem SameCounts.trans (h : s.SameCounts t) (h' : t.SameCounts s') : s.SameCounts s' :=
  fun i o here => h i o (h' i o here)

theorem SameCounts.since (h' : t.SameCounts s') (h : s.SameCounts t) : s.SameCounts s' := h.trans h'

theorem SameCounts.of_luntbl (same : s'.luntbl = s.luntbl) : s.SameCounts s' := by
  intro i o here
  unfold counts at here ⊢
  rwa [same] at here

theorem modifyLun_counts (keeps : ∀ l, (ψ l).counts = l.counts) (j : Nat) : (s.modifyLun i ψ).counts j = s.counts j := by
  unfold counts
  rw [modifyLun_luntbl]
  split
  · cases s.luntbl j <;> simp [keeps]
  · rfl

theorem SameCounts.modifyLun (keeps : ∀ l, (ψ l).counts = l.counts) : s.SameCounts (s.modifyLun i ψ) :=
  fun j _ here => (modifyLun_counts keeps j).symm.trans here

theorem SameCounts.setDesc : s.SameCounts (s.setDesc i f w) := .modifyLun fun _ => rfl

end Sce

variable {s s' : Sce} {i f : Nat} {a : Phys} {r : Ret}

theorem freefraglistPut_luntbl {pfid : Word} (run : freefraglistPut s pfid = .ok (r, s')) : s'.luntbl = s.luntbl := by
  unfold freefraglistPut at run
  split at run
  · cases run
    rfl
  · split at run
    · cases run
      rfl
    · simp only at run
      split at run
      · cases run
      · cases run
        rfl

/-- What `_unmap_frag` can do. -/
theorem unmapFrag_cases (run : unmapFrag s i f = .ok (r, s')) : s' = s ∨
    ∃ l g ret t, s.luntbl i = some l ∧ f < l.nrFrag ∧ isMapped (l.fragmap f) = true ∧
      s.frag? (phys (l.fragmap f)) = some g ∧ g.nrService = 0 ∧ freefraglistPut s (l.fragmap f) = .ok (ret, t) ∧
      (s' = t ∨ s' = t.setDesc i f (BitVec.ofNat 32 g.nrMiss &&& fragdescDatamask)) := by
  unfold unmapFrag at run
  split at run
  · cases run
    exact Or.inl rfl
  · rename_i l lun
    split at run
    · cases run
      exact Or.inl rfl
    · rename_i inside
      simp only at run
      split at run
      · cases run
        exact Or.inl rfl
      · rename_i mapped
        split at run
        · cases run
          exact Or.inl rfl
        · rename_i g frag
          split at run
          · cases run
            exact Or.inl rfl
          · rename_i idle
            obtain ⟨⟨ret, t⟩, put, run⟩ := Except.bind_eq_ok run
            refine Or.inr ⟨l, g, ret, t, lun, by omega, by simpa using mapped, frag, by omega, put, ?_⟩
            split at run <;> cases run
            · exact Or.inl rfl
            · exact Or.inr rfl

/-- A relation that unmapping a fragment of LUN `i` keeps, and dropping the LUN. -/
structure Reclaims (i : Nat) (R : Sce → Sce → Prop) : Prop where
  refl : ∀ s, R s s
  trans : ∀ {s t u}, R s t → R t u → R s u
  unmap : ∀ {s f r s'}, unmapFrag s i f = .ok (r, s') → R s s'
  destroy : ∀ s, R s { lunDestroy s i with nrLun := (lunDestroy s i).nrLun - 1 }

/-! Garbage collection keeps such a relation. -/

theorem Reclaims.unmapAll {R : Sce → Sce → Prop} (keeps : Reclaims i R) {fs : List Nat} :
    ∀ {s}, unmapAll i fs s = .ok s' → R s s' := by
  induction fs with
  | nil =>
    intro s run
    cases run
    exact keeps.refl _
  | cons f fs ih =>
    intro s run
    obtain ⟨⟨_, t⟩, unmap, run⟩ := Except.bind_eq_ok run
    exact keeps.trans (keeps.unmap unmap) (ih run)

theorem Reclaims.lunPurge {R : Sce → Sce → Prop} (keeps : Reclaims i R) (run : lunPurge s i = .ok (r, s')) : R s s' := by
  unfold Iostash.lunPurge at run
  split at run
  · cases run
    exact keeps.refl s
  · split at run
    · obtain ⟨t, unmap, run⟩ := Except.bind_eq_ok run
      cases run
      exact keeps.trans (keeps.unmapAll unmap) (keeps.destroy t)
    · cases run
      exact keeps.refl s

theorem Reclaims.lunGc {R : Sce → Sce → Prop} (keeps : Reclaims i R) (run : lunGc s i a = .ok (r, s')) : R s s' := by
  unfold Iostash.lunGc at run
  split at run
  · cases run
  · simp only at run
    -- what comes after the fragment has been looked at
    have rest : ∀ {t : Sce}, R s t → (if (t.luntbl i).any (fun l => l.waiting4deletion && l.nrService == 0) then
        Iostash.lunPurge t i >>= fun u => pure (Ret.success, u.2)
      else Except.ok (Ret.error, t) >>= fun u => pure (Ret.success, u.2)) = Except.ok (r, s') → R s s' := by
      intro t first run
      split at run
      · obtain ⟨⟨_, u⟩, purge, run⟩ := Except.bind_eq_ok run
        cases run
        exact keeps.trans first (keeps.lunPurge purge)
      · cases run
        exact first
    split at run
    · obtain ⟨⟨_, t⟩, unmap, run⟩ := Except.bind_eq_ok run
      exact rest (keeps.unmap unmap) run
    · exact rest (keeps.refl s) run

theorem unmapFrag_counts (run : unmapFrag s i f = .ok (r, s')) : s.SameCounts s' := by
  rcases unmapFrag_cases run with rfl | ⟨l, g, ret, t, _, _, _, _, _, put, done⟩
  · exact .refl s'
  · have first := Sce.SameCounts.of_luntbl (freefraglistPut_luntbl put)
    rcases done with rfl | rfl
    · exact first
    · exact first.trans .setDesc

theorem reclaims_counts (i : Nat) : Reclaims i Sce.SameCounts where
  refl := .refl
  trans := .trans
  unmap := unmapFrag_counts
  destroy := by
    intro s j o here
    simp only [Sce.counts, lunDestroy] at here ⊢
    split at here
    · cases here
    · exact here

/-! ### The calls that do not write them -/

theorem mapFrag_counts {pfid : Word} (run : mapFrag s i f pfid = .ok (r, s')) : s.SameCounts s' := by
  unfold mapFrag at run
  split at run
  · cases run
    exact .refl s
  · iterate 3
      split at run
      · cases run
        exact .refl s
    split at run
    · cases run
      exact .refl s
    · obtain ⟨g, _, run⟩ := Except.bind_eq_ok run
      cases run
      exact .setDesc

/-- Nothing changes in the LUNs, the miss log and the miss counts of the fragments. -/
structure Sce.Still (s s' : Sce) : Prop where
  luntbl : s'.luntbl = s.luntbl
  misslog : s'.misslog = s.misslog
  misses : ∀ a, (s'.frag? a).map Frag.nrMiss = (s.frag? a).map Frag.nrMiss

theorem Sce.Still.modifyFrag {φ : Frag → Frag} (keeps : ∀ g, (φ g).nrMiss = g.nrMiss) : s.Still (s.modifyFrag a φ) := by
  refine ⟨rfl, rfl, fun b => ?_⟩
  rw [modifyFrag_frag?]
  split
  · rw [Option.map_map]
    cases s.frag? b <;> simp [keeps]
  · rfl

theorem clockarm_still (s : Sce) : s.Still (getFragAdvanceClockarm s).2 := by
  unfold getFragAdvanceClockarm
  split
  · exact ⟨rfl, rfl, fun _ => rfl⟩
  · simp only
    split <;> exact ⟨rfl, rfl, fun _ => rfl⟩

theorem freefraglistGet_still {p : Ret × Word} (run : freefraglistGet s = .ok (p, s')) : s.Still s' := by
  unfold freefraglistGet at run
  simp only at run
  split at run
  · cases run
    exact ⟨rfl, rfl, fun _ => rfl⟩
  · split at run
    · cases run
    · split at run
      · cases run
      · cases run
        have taken : s.Still (s.modifyFrag (phys s.freefraglist) fun g =>
            { g with next := 0#32, fragnum := fragnumFree }) := .modifyFrag fun _ => rfl
        exact ⟨rfl, rfl, taken.misses⟩

/-- A relation that the search for a fragment keeps, on the free list and with the clock. -/
structure Seeks (R : Sce → Sce → Prop) : Prop where
  trans : ∀ {s t u}, R s t → R t u → R s u
  still : ∀ {s t}, s.Still t → R s t
  unmap : ∀ {s i f r t}, unmapFrag s i f = .ok (r, t) → R s t

theorem Seeks.refl {R : Sce → Sce → Prop} (keeps : Seeks R) (s : Sce) : R s s := keeps.still ⟨rfl, rfl, fun _ => rfl⟩

theorem Seeks.evictLoop {R : Sce → Sce → Prop} (keeps : Seeks R) {n : Nat} :
    ∀ {s : Sce}, evictLoop n s = .ok (r, s') → R s s' := by
  induction n with
  | zero =>
    intro s run
    cases run
    exact keeps.refl _
  | succ n ih =>
    intro s run
    unfold Iostash.evictLoop at run
    have turned := keeps.still (clockarm_still s)
    split at run
    · rename_i t arm
      cases run
      rwa [arm] at turned
    · rename_i a t arm
      rw [arm] at turned
      split at run
      · cases run
      · split at run
        · split at run
          · split at run
            · cases run
            · obtain ⟨⟨_, u⟩, unmap, run⟩ := Except.bind_eq_ok run
              cases run
              exact keeps.trans turned (keeps.unmap unmap)
          · have rest := ih run
            refine keeps.trans turned (keeps.trans (keeps.still ?_) rest)
            exact .modifyFrag fun _ => rfl
        · exact keeps.trans turned (ih run)

theorem Seeks.evictFrag {R : Sce → Sce → Prop} (keeps : Seeks R) (run : evictFrag s = .ok (r, s')) : R s s' := by
  unfold Iostash.evictFrag at run
  split at run
  · exact keeps.evictLoop run
  · cases run
    exact keeps.refl s

theorem Seeks.allocLoop {R : Sce → Sce → Prop} (keeps : Seeks R) {p : Ret × Word} {fuel : Nat} :
    ∀ {s : Sce}, allocLoop fuel s = .ok (p, s') → R s s' := by
  induction fuel with
  | zero =>
    intro s run
    cases run
  | succ fuel ih =>
    intro s run
    obtain ⟨⟨⟨_, _⟩, t⟩, get, run⟩ := Except.bind_eq_ok run
    have first := keeps.still (freefraglistGet_still get)
    simp only at run
    split at run
    · cases run
      exact first
    · obtain ⟨⟨_, u⟩, evict, run⟩ := Except.bind_eq_ok run
      have second := keeps.trans first (keeps.evictFrag evict)
      simp only at run
      split at run
      · cases run
        exact second
      · have rest := ih run
        refine keeps.trans second (keeps.trans (keeps.still ?_) rest)
        exact ⟨rfl, rfl, fun _ => rfl⟩

theorem seeks_counts : Seeks Sce.SameCounts where
  trans := .trans
  still := fun same => .of_luntbl same.luntbl
  unmap := unmapFrag_counts

theorem alloc4population_counts {p : Option Word} (run : alloc4population s i f = .ok (p, s')) : s.SameCounts s' := by
  unfold alloc4population at run
  split at run
  · cases run
    exact .refl s
  · split at run
    · cases run
      exact .refl s
    · obtain ⟨⟨⟨_, _⟩, t⟩, alloc, run⟩ := Except.bind_eq_ok run
      have first := seeks_counts.allocLoop alloc
      simp only at run
      split at run
      · cases run
        exact first
      · obtain ⟨⟨_, u⟩, map, run⟩ := Except.bind_eq_ok run
        have second := first.trans (mapFrag_counts map)
        simp only at run
        split at run
        · split at run
          · cases run
          · cases run
            exact second.trans (.modifyLun fun _ => rfl)
        · obtain ⟨⟨_, v⟩, put, run⟩ := Except.bind_eq_ok run
          cases run
          exact second.trans (.of_luntbl (freefraglistPut_luntbl put))

theorem sceGet4pop_counts {past : Nat → Nat → Word} {t : Option Poptask} (run : sceGet4pop s past = .ok (t, s')) :
    s.SameCounts s' := by
  unfold sceGet4pop at run
  split at run
  · cases run
    exact .refl s
  · obtain ⟨⟨_, u⟩, alloc, run⟩ := Except.bind_eq_ok run
    have first := alloc4population_counts alloc
    simp only at run
    split at run <;> cases run <;> exact first

theorem sceRmlun_counts (run : sceRmlun s i = .ok (r, s')) : s.SameCounts s' := by
  unfold sceRmlun at run
  split at run
  · cases run
    exact .refl s
  · split at run
    · cases run
      exact .modifyLun fun _ => rfl
    · exact (reclaims_counts i).lunPurge run

theorem get4readFrag_counts {l : Lun} {pgoff pgcnt : Nat} {m : Option Fmap}
    (run : get4readFrag s i l f pgoff pgcnt = .ok (m, s')) : s.SameCounts s' := by
  unfold get4readFrag at run
  simp only at run
  split at run
  · cases run
    exact .setDesc
  · split at run
    · cases run
    · obtain ⟨hit, _, run⟩ := Except.bind_eq_ok run
      split at run
      · cases run
        exact .modifyLun fun _ => rfl
      · cases run
        exact .refl s

theorem sceGet4read_counts {x n : Nat} {m : Option Fmap} (run : sceGet4read s i x n = .ok (m, s')) : s.SameCounts s' := by
  unfold sceGet4read at run
  split at run
  · cases run
    exact .refl s
  · simp only at run
    split at run
    · cases run
      exact .modifyLun fun _ => rfl
    · split at run
      · cases run
      · exact (get4readFrag_counts run).since (.modifyLun fun _ => rfl)

theorem put4readFrag_counts {g : Frag} (run : put4readFrag s i a g = .ok (r, s')) : s.SameCounts s' := by
  unfold put4readFrag at run
  simp only at run
  split at run
  · obtain ⟨⟨_, t⟩, gc, run⟩ := Except.bind_eq_ok run
    cases run
    exact ((reclaims_counts _).lunGc gc).since (.modifyLun fun _ => rfl)
  · cases run
    exact .modifyLun fun _ => rfl

theorem scePut4read_counts {x n : Nat} (run : scePut4read s i x n = .ok (r, s')) : s.SameCounts s' := by
  unfold scePut4read at run
  split at run
  · cases run
    exact .refl s
  · simp only at run
    split at run
    · cases run
      exact .refl s
    · split at run
      · cases run
      · split at run
        · cases run
          exact .refl s
        · split at run
          · cases run
            exact .refl s
          · split at run
            · cases run
              exact .refl s
            · exact put4readFrag_counts run

end Iostash
