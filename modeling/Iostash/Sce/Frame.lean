import Iostash.Sce.Call

/-!
# What a call leaves alone

Where a LUN, a cell or a device of a changed cache comes from.
-/

namespace Iostash

namespace View

variable {v : View} {i j f k d ctx n start count : Nat} {a : Phys} {c c' : Cell} {l : Volume}

/-! ### Garbage collection -/

/-- What purging an idle LUN pending deletion preserves. -/
theorem settle_induct {P : View → Prop} (here : P v)
    (purge : ∀ l, v.lun i = some l → l.waiting = true → l.service = 0 → P (v.purge i)) : P (v.settle i) := by
  unfold settle
  split
  · rename_i gone
    obtain ⟨l, lun, both⟩ := (Option.any_eq_true _ _).mp gone
    simp only [Bool.and_eq_true, beq_iff_eq] at both
    exact purge l lun both.1 both.2
  · exact here

/-- What dropping an idle spent cell preserves too. -/
theorem collect_induct {P : View → Prop} (here : P v)
    (drop : ∀ c, v.cell i f = some c → c.service = 0 → c.spent = true → P (v.drop i f))
    (purge : ∀ u l, P u → u.lun i = some l → l.waiting = true → l.service = 0 → P (u.purge i)) :
    P (v.collect i f) := by
  unfold collect
  split
  · rename_i gone
    obtain ⟨c, cell, both⟩ := (Option.any_eq_true _ _).mp gone
    simp only [Bool.and_eq_true, beq_iff_eq] at both
    exact settle_induct (drop c cell both.1 both.2) fun l lun => purge _ l (drop c cell both.1 both.2) lun
  · exact settle_induct here fun l lun => purge _ l here lun

theorem purge_cell_some (cell : (v.purge i).cell j k = some c) : v.cell j k = some c := by
  rw [purge_cell] at cell
  split at cell
  · cases cell
  · exact cell

theorem drop_cell_some (cell : (v.drop i f).cell j k = some c) : v.cell j k = some c := by
  rw [drop_cell] at cell
  split at cell
  · cases cell
  · exact cell

theorem settle_cell_some : (v.settle i).cell j k = some c → v.cell j k = some c :=
  settle_induct (P := fun u => u.cell j k = some c → v.cell j k = some c) id fun _ _ _ _ => purge_cell_some

theorem collect_cell_some : (v.collect i f).cell j k = some c → v.cell j k = some c :=
  collect_induct (P := fun u => u.cell j k = some c → v.cell j k = some c) id (fun _ _ _ _ => drop_cell_some)
    fun _ _ back _ _ _ cell => back (purge_cell_some cell)

theorem purge_lun_some (lun : (v.purge i).lun j = some l) : v.lun j = some l := by
  rw [purge_lun] at lun
  split at lun
  · cases lun
  · exact lun

theorem settle_lun_some : (v.settle i).lun j = some l → v.lun j = some l :=
  settle_induct (P := fun u => u.lun j = some l → v.lun j = some l) id fun _ _ _ _ => purge_lun_some

theorem collect_lun_some : (v.collect i f).lun j = some l → v.lun j = some l :=
  collect_induct (P := fun u => u.lun j = some l → v.lun j = some l) id (fun _ _ _ _ => id)
    fun _ _ back _ _ _ lun => back (purge_lun_some lun)

/-- A LUN goes when it is pending deletion and nothing counts on it. -/
theorem settle_lun : (v.settle i).lun j =
    if j = i then (v.lun j).filter fun l => !(l.waiting && l.service == 0) else v.lun j := by
  unfold settle
  by_cases e : j = i
  · subst e
    rw [if_pos rfl]
    cases lun : v.lun j with
    | none => simp [lun]
    | some l =>
      rw [Option.filter_some, Option.any_some]
      cases gone : l.waiting && l.service == 0 with
      | true => exact if_pos rfl
      | false => exact lun
  · rw [if_neg e]
    split
    · rw [purge_lun, if_neg e]
    · rfl

theorem collect_lun : (v.collect i f).lun j =
    if j = i then (v.lun j).filter fun l => !(l.waiting && l.service == 0) else v.lun j := by
  unfold collect
  split
  · rw [settle_lun, drop_lun]
  · exact settle_lun

theorem settle_gone (lun : v.lun i = some l) (waiting : l.waiting = true) (idle : l.service = 0) :
    (v.settle i).lun i = none := by
  simp [settle_lun, lun, waiting, idle]

theorem collect_gone (lun : v.lun i = some l) (waiting : l.waiting = true) (idle : l.service = 0) :
    (v.collect i f).lun i = none := by
  simp [collect_lun, lun, waiting, idle]

@[simp] theorem collect_dev : (v.collect i f).dev = v.dev :=
  collect_induct (P := fun u => u.dev = v.dev) rfl (fun _ _ _ _ => rfl) fun _ _ same _ _ _ => same

theorem purge_cell_stays (cell : v.cell j k = some c) (lun : (v.purge i).lun j ≠ none) :
    (v.purge i).cell j k = some c := by
  rw [purge_lun] at lun
  rw [purge_cell]
  split
  · rename_i e
    exact absurd (if_pos e) lun
  · exact cell

/-- A cell stays as long as its LUN does. -/
theorem settle_cell_stays (cell : v.cell j k = some c) :
    (v.settle i).lun j ≠ none → (v.settle i).cell j k = some c :=
  settle_induct (P := fun u => u.lun j ≠ none → u.cell j k = some c) (fun _ => cell) fun _ _ _ _ => purge_cell_stays cell

/-- Garbage collection spares a cell in use, as long as its LUN stays. -/
theorem collect_cell_stays (cell : v.cell j k = some c) (busy : c.service ≠ 0) :
    (v.collect i f).lun j ≠ none → (v.collect i f).cell j k = some c := by
  refine collect_induct (P := fun u => u.lun j ≠ none → u.cell j k = some c) (fun _ => cell) ?_ ?_
  · intro c' cell' idle _ _
    rw [drop_cell]
    split
    · rename_i e
      obtain ⟨rfl, rfl⟩ := e
      obtain rfl := Option.some.inj (cell.symm.trans cell')
      exact absurd idle busy
    · exact cell
  · intro u l back _ _ _ lun
    have lun' : u.lun j ≠ none := fun e => lun (by rw [purge_lun, e]; split <;> rfl)
    exact purge_cell_stays (back lun') lun

/-! ### Counting -/

theorem setCell_cell_some {ψ : Cell → Cell} (cell : (v.setCell i f ψ).cell j k = some c') :
    ∃ c, v.cell j k = some c ∧ c' = if j = i ∧ k = f then ψ c else c := by
  rw [setCell_cell] at cell
  split at cell
  · rename_i e
    obtain ⟨c, here, rfl⟩ := Option.map_eq_some_iff.mp cell
    exact ⟨c, here, (if_pos e).symm⟩
  · rename_i e
    exact ⟨c', cell, (if_neg e).symm⟩

theorem setLun_lun_some {φ : Volume → Volume} {l' : Volume} (lun : (v.setLun i φ).lun j = some l') :
    ∃ l, v.lun j = some l ∧ l' = if j = i then φ l else l := by
  rw [setLun_lun] at lun
  split at lun
  · rename_i e
    obtain ⟨l, here, rfl⟩ := Option.map_eq_some_iff.mp lun
    exact ⟨l, here, (if_pos e).symm⟩
  · rename_i e
    exact ⟨l', lun, (if_neg e).symm⟩

theorem invalidate_cell_some (cell : (v.invalidate i start count).cell j k = some c') :
    ∃ c, v.cell j k = some c ∧ (j = i ∧ c.goes k start count = false ∧ c' = c.mark k start count ∨ j ≠ i ∧ c' = c) := by
  unfold invalidate at cell
  simp only at cell
  split at cell
  · rename_i e
    subst e
    obtain ⟨c, here, goes⟩ := Option.bind_eq_some_iff.mp cell
    split at goes
    · cases goes
    · rename_i stays
      exact ⟨c, here, Or.inl ⟨rfl, by simpa using stays, (Option.some.inj goes).symm⟩⟩
  · rename_i e
    exact ⟨c', cell, Or.inr ⟨e, rfl⟩⟩

theorem invalidate_cell_self (cell : v.cell i k = some c) (stays : c.goes k start count = false) :
    (v.invalidate i start count).cell i k = some (c.mark k start count) := by
  simp [invalidate, cell, stays]

theorem invalidate_cell_ne (ne : j ≠ i) : (v.invalidate i start count).cell j k = v.cell j k := if_neg ne

theorem place_cell_some (cell : (v.place i f a l).cell j k = some c') :
    j = i ∧ k = f ∧ c' = ⟨a, false, 1, tailBad l.nrSctr l.nrFrag f⟩ ∨
      ¬ (j = i ∧ k = f) ∧ v.cell j k = some c' ∧ c'.addr ≠ a := by
  have cell : ((v.seize a).enter i f ⟨a, false, 1, tailBad l.nrSctr l.nrFrag f⟩).cell j k = some c' := cell
  rw [enter_cell] at cell
  split at cell
  · rename_i e
    exact Or.inl ⟨e.1, e.2, (Option.some.inj cell).symm⟩
  · rename_i e
    obtain ⟨here, ne⟩ := Option.filter_eq_some_iff.mp cell
    exact Or.inr ⟨e, here, of_decide_eq_true ne⟩

@[simp] theorem release_cell : (v.release i).cell = v.cell := rfl
@[simp] theorem release_dev : (v.release i).dev = v.dev := rfl
@[simp] theorem release_free : (v.release i).free = v.free := rfl
@[simp] theorem pin_dev : (v.pin i f).dev = v.dev := rfl
@[simp] theorem pin_free : (v.pin i f).free = v.free := rfl
@[simp] theorem unpin_dev : (v.unpin i f).dev = v.dev := by
  unfold unpin
  simp only
  split
  · rw [collect_dev]
    rfl
  · rfl

@[simp] theorem put4pop_dev {poptask : Poptask} {failed : Bool} : (v.put4pop poptask failed).2.dev = v.dev := by
  unfold put4pop
  split
  · rfl
  · split
    · unfold cancel
      split
      · rfl
      · split
        · exact settle_dev
        · rfl
    · unfold complete
      split
      · rfl
      · split
        · exact collect_dev
        · split
          · exact collect_dev
          · rfl

end View

/-- Two volumes of one LUN. -/
def Volume.Same (l' l : Volume) : Prop := l'.lunctx = l.lunctx ∧ l'.nrSctr = l.nrSctr ∧ l'.nrFrag = l.nrFrag

theorem Volume.Same.refl (l : Volume) : l.Same l := ⟨rfl, rfl, rfl⟩

variable {v v' : View} {op : Op} {reply : Reply} {j : Nat} {l' : Volume}

/-- A LUN after a call is one of before, its count taken down or one that fits its type, or a new one. -/
theorem Effect.lun_counted (effect : Effect v op reply v') (lun : v'.lun j = some l') :
    (∃ l, v.lun j = some l ∧ l'.Same l ∧ (l'.service < 2 ^ 32 ∨ l'.service ≤ l.service)) ∨
      ∃ m ctx vmalloc, op = .addlun m ctx vmalloc ∧
        reply = .hndl (some j) ∧ v.lun j = none ∧ l' = ⟨ctx, m, lunFrags m, 0, false⟩ := by
  have same : v.lun j = some l' →
      ∃ l, v.lun j = some l ∧ l'.Same l ∧ (l'.service < 2 ^ 32 ∨ l'.service ≤ l.service) :=
    fun here => ⟨l', here, .refl l', Or.inr le_rfl⟩
  have counted : ∀ {i : Nat} {φ : Volume → Volume}, (v.setLun i φ).lun j = some l' →
      (∀ l, (φ l).Same l ∧ ((φ l).service < 2 ^ 32 ∨ (φ l).service ≤ l.service)) →
      ∃ l, v.lun j = some l ∧ l'.Same l ∧ (l'.service < 2 ^ 32 ∨ l'.service ≤ l.service) := by
    intro i φ here keeps
    obtain ⟨l, there, rfl⟩ := View.setLun_lun_some here
    refine ⟨l, there, ?_⟩
    split
    · exact keeps l
    · exact ⟨.refl l, Or.inr le_rfl⟩
  cases effect with
  | addcdevFail | addcdev | rmcdevFail | rmcdev | addlunFail | rmlunFail | readMiss | putReadFail | invalidateFail
    | invalidate | popNone => exact Or.inl (same lun)
  | rmlunWait => exact Or.inl (counted lun fun _ => ⟨⟨rfl, rfl, rfl⟩, Or.inr le_rfl⟩)
  | rmlun => exact Or.inl (same (View.purge_lun_some lun))
  | readHit =>
    have here : ((v.setCell _ _ _).setLun _ _).lun j = some l' := lun
    exact Or.inl (counted here fun _ => ⟨⟨rfl, rfl, rfl⟩, Or.inl (u32_lt _)⟩)
  | pop =>
    have here : (((v.seize _).enter _ _ _).setLun _ _).lun j = some l' := lun
    exact Or.inl (counted here fun _ => ⟨⟨rfl, rfl, rfl⟩, Or.inl (u32_lt _)⟩)
  | @addlun m ctx i vmalloc slot absent =>
    have here : (if j = i then some (⟨ctx, m, lunFrags m, 0, false⟩ : Volume) else v.lun j) = some l' := lun
    split at here
    · rename_i e
      exact Or.inr ⟨m, ctx, vmalloc, rfl, by rw [e], e ▸ absent, (Option.some.inj here).symm⟩
    · exact Or.inl (same here)
  | putRead =>
    have here := lun
    unfold View.unpin at here
    simp only at here
    split at here
    · have there := View.collect_lun_some here
      exact Or.inl (counted there fun _ => ⟨⟨rfl, rfl, rfl⟩, Or.inr (Nat.sub_le _ _)⟩)
    · exact Or.inl (counted here fun _ => ⟨⟨rfl, rfl, rfl⟩, Or.inr (Nat.sub_le _ _)⟩)
  | @putPop poptask failed =>
    unfold View.put4pop at lun
    split at lun
    · exact Or.inl (same lun)
    · rename_i i found
      split at lun
      · unfold View.cancel at lun
        split at lun
        · exact Or.inl (same lun)
        · split at lun
          · have here := View.settle_lun_some lun
            exact Or.inl (counted here fun _ => ⟨⟨rfl, rfl, rfl⟩, Or.inl (u32_lt _)⟩)
          · exact Or.inl (same lun)
      · unfold View.complete at lun
        split at lun
        · exact Or.inl (same lun)
        · split at lun
          · have here := View.collect_lun_some lun
            exact Or.inl (counted here fun _ => ⟨⟨rfl, rfl, rfl⟩, Or.inl (u32_lt _)⟩)
          · split at lun
            · have here := View.collect_lun_some lun
              exact Or.inl (counted here fun _ => ⟨⟨rfl, rfl, rfl⟩, Or.inl (u32_lt _)⟩)
            · exact Or.inl (same lun)

theorem Effect.lun (effect : Effect v op reply v') (lun : v'.lun j = some l') :
    (∃ l, v.lun j = some l ∧ l'.Same l) ∨ ∃ m ctx vmalloc, op = .addlun m ctx vmalloc ∧
      reply = .hndl (some j) ∧ v.lun j = none ∧ l' = ⟨ctx, m, lunFrags m, 0, false⟩ :=
  (effect.lun_counted lun).imp_left fun old => old.imp fun _ here => ⟨here.1, here.2.1⟩

end Iostash
