import Iostash.Client.Contexts
import Iostash.Client.Returning
import Iostash.Sce.Occupancy

/-!
# Every fragment is free or mapped

Purging a LUN frees the fragments no request counts on. None is left behind: a LUN counts the requests on its valid
mappings and its populations outstanding, as long as its count does not wrap. The populations include those whose
mapping went with its device.
-/

namespace Iostash

open Util

/-- The requests on a mapping that is valid. -/
def Cell.load (c : Cell) : Nat := if c.valid then c.service else 0

namespace View

variable {v w : View} {i f : Nat} {l : Volume} {c : Cell}

/-- The requests on the valid mappings of LUN `i`. -/
def load (v : View) (i : Nat) : Nat := v.total i fun _ => Cell.load

theorem load_le (size : (w.lun i).elim 0 Volume.nrFrag = (v.lun i).elim 0 Volume.nrFrag)
    (less : ∀ f c', w.cell i f = some c' → c'.valid = true → ∃ c, v.cell i f = some c ∧ c'.service ≤ c.load) :
    w.load i ≤ v.load i := by
  unfold load total
  rw [size]
  refine Finset.sum_le_sum fun f _ => ?_
  cases cell : w.cell i f with
  | none => exact Nat.zero_le _
  | some c' =>
    show c'.load ≤ _
    unfold Cell.load
    split
    · rename_i valid
      obtain ⟨c, here, le⟩ := less f c' cell valid
      rw [here]
      exact le
    · exact Nat.zero_le _

/-- Fewer mappings have fewer requests. -/
theorem load_mono (size : (w.lun i).elim 0 Volume.nrFrag = (v.lun i).elim 0 Volume.nrFrag)
    (less : ∀ f c, w.cell i f = some c → v.cell i f = some c) : w.load i ≤ v.load i :=
  load_le size fun f c cell valid => ⟨c, less f c cell, (if_pos valid).ge⟩

/-- The requests on one mapping are no more than on all. -/
theorem le_load (lun : v.lun i = some l) (inside : f < l.nrFrag) (cell : v.cell i f = some c) : c.load ≤ v.load i := by
  unfold load total
  rw [lun]
  have one := Finset.single_le_sum (f := fun f => (v.cell i f).elim 0 Cell.load) (fun _ _ => Nat.zero_le _)
    (Finset.mem_range.mpr inside)
  rwa [cell] at one

theorem load_setLun {φ : Volume → Volume} {j : Nat} (size : ∀ l, (φ l).nrFrag = l.nrFrag) :
    (v.setLun j φ).load i = v.load i :=
  total_setLun size

/-- The requests on a LUN change with those of one mapping. -/
theorem load_setCell {φ : Cell → Cell} (lun : v.lun i = some l) (inside : f < l.nrFrag) (cell : v.cell i f = some c) :
    (v.setCell i f φ).load i + c.load = v.load i + (φ c).load := by
  have changed := total_at (v := v) (w := v.setCell i f φ) (φ := fun _ => Cell.load) (ψ := fun _ => Cell.load) rfl lun
    inside fun k ne => by rw [setCell_cell, if_neg fun both => ne both.2]
  rw [cell, setCell_cell, if_pos ⟨rfl, rfl⟩, cell] at changed
  exact changed

@[simp] theorem load_release {j : Nat} : (v.release j).load i = v.load i := load_setLun fun _ => rfl

theorem load_setCell_ne {φ : Cell → Cell} {j : Nat} (ne : j ≠ i) : (v.setCell i f φ).load j = v.load j :=
  total_congr rfl fun k => by rw [setCell_cell, if_neg fun both => ne both.1]

/-- A fragment of a device that a pfid can name is free or mapped. -/
def Whole (v : View) : Prop := ∀ a ctx n, v.dev a.dev = some (ctx, n) → a.off < n → a.off < 2 ^ 24 →
  v.free a ∨ ∃ i f c, v.cell i f = some c ∧ c.addr = a

theorem Whole.of_cell (h : v.Whole) (dev : w.dev = v.dev) (free : ∀ a, v.free a → w.free a)
    (cells : ∀ i f c, v.cell i f = some c → w.free c.addr ∨ ∃ c', w.cell i f = some c' ∧ c'.addr = c.addr) :
    w.Whole := by
  intro a ctx n here off named
  rw [dev] at here
  rcases h a ctx n here off named with idle | ⟨i, f, c, cell, rfl⟩
  · exact Or.inl (free a idle)
  · rcases cells i f c cell with idle | ⟨c', cell', addr⟩
    · exact Or.inl idle
    · exact Or.inr ⟨i, f, c', cell', addr⟩

theorem Whole.drop (h : v.Whole) : (v.drop i f).Whole := by
  refine h.of_cell rfl (fun a => Or.inl) fun j k c cell => ?_
  by_cases e : j = i ∧ k = f
  · obtain ⟨rfl, rfl⟩ := e
    exact Or.inl (Or.inr ⟨c, cell, rfl⟩)
  · exact Or.inr ⟨c, (if_neg e).trans cell, rfl⟩

theorem Whole.purge (h : v.Whole) (idle : ∀ f c, v.cell i f = some c → c.service = 0) : (v.purge i).Whole := by
  refine h.of_cell rfl (fun a => Or.inl) fun j k c cell => ?_
  by_cases e : j = i
  · subst e
    exact Or.inl (Or.inr ⟨k, c, cell, rfl, idle k c cell⟩)
  · exact Or.inr ⟨c, (if_neg e).trans cell, rfl⟩

theorem Whole.setCell {φ : Cell → Cell} (h : v.Whole) (addr : ∀ c, (φ c).addr = c.addr) : (v.setCell i f φ).Whole := by
  refine h.of_cell rfl (fun _ => id) fun j k c cell => Or.inr ?_
  by_cases e : j = i ∧ k = f
  · exact ⟨φ c, by rw [setCell_cell, if_pos e, cell]; rfl, addr c⟩
  · exact ⟨c, (if_neg e).trans cell, rfl⟩

end View

namespace Ledger

/-- Nothing is lost, and each LUN counts its requests. -/
structure Filled (b : Ledger) : Prop where
  whole : b.view.Whole
  count : ∀ i l, b.view.lun i = some l → b.view.load i + b.popsIn l.lunctx ≤ l.service

/-- A mapping of LUN `i` that is not valid has a population outstanding. -/
def Backed (b : Ledger) (i : Nat) : Prop := ∀ f c l, b.view.cell i f = some c → c.valid = false →
  b.view.lun i = some l → 0 < b.popsIn l.lunctx

variable {b : Ledger} {v : View} {i f : Nat} {l : Volume}

theorem Owned.backed (owned : b.Owned) : b.Backed i := by
  intro f c l cell pending lun
  obtain ⟨_, p, member, l', lun', ctx, _⟩ := owned i f c cell pending
  obtain rfl := Option.some.inj (lun.symm.trans lun')
  rw [← ctx]
  exact popsIn_pos member

/-- The mappings of LUN `i` lie in it. -/
def Inside (b : Ledger) (i : Nat) : Prop := ∀ f c l, b.view.cell i f = some c → b.view.lun i = some l → f < l.nrFrag

/-- A LUN that counts nothing has no mapping in use. -/
theorem Filled.idle (h : b.Filled) (inside : b.Inside i) (backed : b.Backed i) (lun : b.view.lun i = some l)
    (none : l.service = 0) {c : Cell} (cell : b.view.cell i f = some c) : c.service = 0 := by
  have count := h.count i l lun
  have one := View.le_load lun (inside f c l cell lun) cell
  cases valid : c.valid with
  | true =>
    rw [Cell.load, if_pos valid] at one
    omega
  | false =>
    have pop := backed f c l cell valid lun
    omega

theorem Filled.purge (h : b.Filled) (inside : b.Inside i) (backed : b.Backed i) (lun : b.view.lun i = some l)
    (none : l.service = 0) : Filled ⟨b.view.purge i, b.reads, b.pops⟩ := by
  refine ⟨h.whole.purge fun f c cell => h.idle inside backed lun none cell, ?_⟩
  intro j m here
  have there := View.purge_lun_some here
  refine Nat.le_trans (Nat.add_le_add_right (View.load_mono ?_ fun f c => View.purge_cell_some) _) (h.count j m there)
  show ((b.view.purge i).lun j).elim 0 _ = _
  rw [there, show (b.view.purge i).lun j = some m from here]

theorem Filled.settle (h : b.Filled) (inside : b.Inside i) (backed : b.Backed i) :
    Filled ⟨b.view.settle i, b.reads, b.pops⟩ :=
  View.settle_induct (P := fun v => Filled ⟨v, b.reads, b.pops⟩) h fun _ lun _ idle => h.purge inside backed lun idle

theorem Filled.drop (h : b.Filled) : Filled ⟨b.view.drop i f, b.reads, b.pops⟩ :=
  ⟨h.whole.drop, fun j m lun => by
    have less := View.load_mono (w := b.view.drop i f) (v := b.view) (i := j) rfl fun _ _ => View.drop_cell_some
    exact Nat.le_trans (Nat.add_le_add_right less (b.popsIn m.lunctx)) (h.count j m lun)⟩

theorem Filled.collect (h : b.Filled) (inside : b.Inside i) (backed : b.Backed i) :
    Filled ⟨b.view.collect i f, b.reads, b.pops⟩ := by
  have all : ∀ {u : View}, u = b.view ∨ u = b.view.drop i f → Filled ⟨u, b.reads, b.pops⟩ →
      Filled ⟨u.settle i, b.reads, b.pops⟩ := by
    rintro u (rfl | rfl) filled
    · exact filled.settle inside backed
    · exact filled.settle (fun k c l cell => inside k c l (View.drop_cell_some cell))
        fun k c l cell => backed k c l (View.drop_cell_some cell)
  unfold View.collect
  split
  · exact all (Or.inr rfl) h.drop
  · exact all (Or.inl rfl) h

/-- One LUN counts anew. -/
theorem Filled.setLun {reads : List Read} {pops : List Pop} {φ : Volume → Volume} (h : b.Filled) (whole : v.Whole)
    (lun : b.view.lun i = some l) (ctx : ∀ l, (φ l).lunctx = l.lunctx) (same : v.lun = (b.view.setLun i φ).lun)
    (count : v.load i + (⟨v, reads, pops⟩ : Ledger).popsIn l.lunctx ≤ (φ l).service)
    (others : ∀ j m, j ≠ i → b.view.lun j = some m →
      v.load j + (⟨v, reads, pops⟩ : Ledger).popsIn m.lunctx ≤ b.view.load j + b.popsIn m.lunctx) :
    Filled ⟨v, reads, pops⟩ := by
  refine ⟨whole, fun j m here => ?_⟩
  obtain ⟨m₀, there, rfl⟩ := View.setLun_lun_some ((congrFun same j).symm.trans here)
  split
  · rename_i e
    subst e
    obtain rfl := Option.some.inj (lun.symm.trans there)
    rw [ctx]
    exact count
  · rename_i ne
    exact Nat.le_trans (others j m₀ ne there) (h.count j m₀ there)

end Ledger

variable {b b' : Ledger} {now : Nat} {call : Call} {reply : Reply}

theorem View.Whole.plug {v : View} {d ctx n : Nat} (h : v.Whole) : (v.plug d ctx n).Whole := by
  intro a c m dev off named
  have dev : (if a.dev = d then some (ctx, n) else v.dev a.dev) = some (c, m) := dev
  split at dev
  · rename_i e
    obtain ⟨rfl, rfl⟩ := Prod.mk.inj (Option.some.inj dev)
    exact Or.inl (Or.inr ⟨e, Nat.lt_min.mpr ⟨off, named⟩⟩)
  · exact (h a c m dev off named).imp_left Or.inl

theorem View.Whole.unplug {v : View} {d : Nat} (h : v.Whole) : (v.unplug d).Whole := by
  intro a c m dev off named
  have dev : (if a.dev = d then none else v.dev a.dev) = some (c, m) := dev
  split at dev
  · cases dev
  · rename_i ne
    rcases h a c m dev off named with free | ⟨i, f, cell, here, rfl⟩
    · exact Or.inl ⟨ne, free⟩
    · exact Or.inr ⟨i, f, cell, Option.filter_eq_some_iff.mpr ⟨here, decide_eq_true ne⟩, rfl⟩

/-- What a population takes was free, or mapped to a fragment that is unmapped. -/
theorem View.Whole.place {v : View} {i f : Nat} {a : Phys} {l : Volume} (h : v.Whole) (empty : v.cell i f = none) :
    (v.place i f a l).Whole := by
  intro b c m dev off named
  have here : ∀ j k, (v.place i f a l).cell j k = if j = i ∧ k = f then
      some ⟨a, false, 1, View.tailBad l.nrSctr l.nrFrag f⟩ else (v.cell j k).filter fun c => decide (c.addr ≠ a) :=
    fun _ _ => rfl
  by_cases e : b = a
  · exact Or.inr ⟨i, f, _, by rw [here, if_pos ⟨rfl, rfl⟩], e.symm⟩
  · rcases h b c m dev off named with free | ⟨j, k, cell, there, rfl⟩
    · exact Or.inl ⟨e, free⟩
    · refine Or.inr ⟨j, k, cell, ?_, rfl⟩
      rw [here, if_neg]
      · exact Option.filter_eq_some_iff.mpr ⟨there, decide_eq_true e⟩
      · rintro ⟨rfl, rfl⟩
        rw [empty] at there
        cases there

theorem View.Whole.invalidate {v : View} {i start count : Nat} (h : v.Whole) : (v.invalidate i start count).Whole := by
  refine h.of_cell rfl (fun _ => Or.inl) fun j k c cell => ?_
  by_cases e : j = i
  · subst e
    cases goes : c.goes k start count with
    | true => exact Or.inl (Or.inr ⟨k, c, cell, rfl, goes⟩)
    | false => exact Or.inr ⟨_, View.invalidate_cell_self cell goes, rfl⟩
  · exact Or.inr ⟨c, (View.invalidate_cell_ne e).trans cell, rfl⟩

namespace Ledger

variable {i f : Nat} {l : Volume} {c : Cell}

/-- Nothing is mapped in a LUN that was not there, nor outstanding for its context. -/
theorem Filled.attach {m : Volume} (filled : b.Filled) (sound : b.view.Sound) (absent : b.view.lun i = none)
    (quiet : b.popsIn m.lunctx = 0) : Filled ⟨b.view.attach i m, b.reads, b.pops⟩ := by
  refine ⟨filled.whole.of_cell rfl (fun _ => id) fun j k c cell => Or.inr ⟨c, cell, rfl⟩, fun j l here => ?_⟩
  have lun : (if j = i then some m else b.view.lun j) = some l := here
  split at lun
  · rename_i e
    subst e
    obtain rfl := Option.some.inj lun
    have none : (b.view.attach j m).load j = 0 := by
      unfold View.load View.total
      refine Finset.sum_eq_zero fun f _ => ?_
      show (b.view.cell j f).elim 0 _ = 0
      cases cell : b.view.cell j f with
      | none => rfl
      | some c =>
        obtain ⟨l, lun, _⟩ := sound.inside j f c cell
        cases absent.symm.trans lun
    show (b.view.attach j m).load j + b.popsIn m.lunctx ≤ _
    rw [none, quiet]
    exact Nat.zero_le _
  · rename_i ne
    have less := View.load_mono (w := b.view.attach i m) (v := b.view) (i := j) (by
      show (if j = i then _ else b.view.lun j : Option Volume).elim 0 _ = _
      rw [if_neg ne]) fun f c cell => cell
    exact Nat.le_trans (Nat.add_le_add_right less (b.popsIn l.lunctx)) (filled.count j l lun)

/-- A read counts once on its mapping, unless the count of the mapping wraps, and once on its LUN. -/
theorem Filled.pin {reads : List Read} (filled : b.Filled) (lun : b.view.lun i = some l) (inside : f < l.nrFrag)
    (cell : b.view.cell i f = some c) (valid : c.valid = true) (room : l.service + 1 < 2 ^ 32) :
    Filled ⟨b.view.pin i f, reads, b.pops⟩ := by
  have more : u32 (l.service + 1) = l.service + 1 := u32_of_lt room
  have old := filled.count i l lun
  have one := View.load_setCell (φ := fun c => { c with service := u16 (c.service + 1) }) lun inside cell
  have few : u16 (c.service + 1) ≤ c.service + 1 := Nat.mod_le _ _
  simp only [Cell.load, valid, if_true] at one
  have load : ∀ j, (b.view.pin i f).load j =
      (b.view.setCell i f fun c => { c with service := u16 (c.service + 1) }).load j :=
    fun j => View.load_setLun fun _ => rfl
  refine filled.setLun (φ := fun l => { l with service := u32 (l.service + 1) }) (filled.whole.setCell ?_) lun
    (fun _ => rfl) rfl ?_ ?_
  · exact fun _ => rfl
  · show (b.view.pin i f).load i + b.popsIn l.lunctx ≤ u32 (l.service + 1)
    rw [load, more]
    omega
  · intro j m ne _
    show (b.view.pin i f).load j + b.popsIn m.lunctx ≤ _
    rw [load, View.load_setCell_ne ne]

theorem Filled.unpin {reads : List Read} (filled : b.Filled) (inside : b.Inside i) (backed : b.Backed i)
    (lun : b.view.lun i = some l) (cell : b.view.cell i f = some c) (valid : c.valid = true) (used : c.service ≠ 0) :
    Filled ⟨b.view.unpin i f, reads, b.pops⟩ := by
  obtain ⟨u, hu⟩ : ∃ u, u = (b.view.setCell i f fun c => { c with service := c.service - 1 }).setLun i
    fun l => { l with service := l.service - 1 } := ⟨_, rfl⟩
  have load : ∀ j, u.load j = (b.view.setCell i f fun c => { c with service := c.service - 1 }).load j := by
    intro j
    rw [hu]
    exact View.load_setLun fun _ => rfl
  have base : Filled ⟨u, reads, b.pops⟩ := by
    have old := filled.count i l lun
    have one := View.load_setCell (φ := fun c => { c with service := c.service - 1 }) lun (inside f c l cell lun) cell
    simp only [Cell.load, valid, if_true] at one
    refine filled.setLun (φ := fun l => { l with service := l.service - 1 }) ?_ lun (fun _ => rfl) (by rw [hu]; rfl)
      ?_ ?_
    · rw [hu]
      exact filled.whole.setCell fun _ => rfl
    · show u.load i + b.popsIn l.lunctx ≤ l.service - 1
      rw [load]
      omega
    · intro j m ne _
      show u.load j + b.popsIn m.lunctx ≤ _
      rw [load, View.load_setCell_ne ne]
  have from_ : ∀ {k c' l'}, u.cell i k = some c' → u.lun i = some l' → ∃ c₀ l₀, b.view.cell i k = some c₀ ∧
      b.view.lun i = some l₀ ∧ c'.valid = c₀.valid ∧ l'.Same l₀ := by
    intro k c' l' cell' lun'
    rw [hu] at cell' lun'
    obtain ⟨c₀, here, rfl⟩ := View.setCell_cell_some cell'
    obtain ⟨l₀, there, rfl⟩ := View.setLun_lun_some lun'
    refine ⟨c₀, l₀, here, there, by split <;> rfl, ?_⟩
    rw [if_pos rfl]
    exact ⟨rfl, rfl, rfl⟩
  unfold View.unpin
  simp only [← hu]
  split
  · refine base.collect ?_ ?_
    · intro k c' l' cell' lun'
      obtain ⟨c₀, l₀, here, there, _, _, _, size⟩ := from_ cell' lun'
      rw [size]
      exact inside k c₀ l₀ here there
    · intro k c' l' cell' pending lun'
      obtain ⟨c₀, l₀, here, there, same, ctx, _⟩ := from_ cell' lun'
      rw [ctx]
      exact backed k c₀ l₀ here (same.symm.trans pending) there
  · exact base

/-- A population counts on its LUN, and its mapping is not valid. -/
theorem Filled.place {p : Pop} {a : Phys} (filled : b.Filled) (named : b.view.Named) (lun : b.view.lun i = some l)
    (empty : b.view.cell i f = none) (ctx : p.task.lunctx = l.lunctx) (room : l.service + 1 < 2 ^ 32) :
    Filled ⟨b.view.place i f a l, b.reads, p :: b.pops⟩ := by
  have more : u32 (l.service + 1) = l.service + 1 := u32_of_lt room
  have old := filled.count i l lun
  have size : ∀ j, ((b.view.place i f a l).lun j).elim 0 Volume.nrFrag = (b.view.lun j).elim 0 Volume.nrFrag := by
    intro j
    show ((((b.view.seize a).enter i f _).setLun i _).lun j).elim 0 _ = _
    rw [View.setLun_lun]
    split
    · show ((b.view.lun j).map _).elim 0 _ = _
      cases b.view.lun j <;> rfl
    · rfl
  have less : ∀ j, (b.view.place i f a l).load j ≤ b.view.load j := by
    intro j
    refine View.load_le (size j) fun k c' cell valid => ?_
    rcases View.place_cell_some cell with ⟨_, _, rfl⟩ | ⟨_, here, _⟩
    · cases valid
    · exact ⟨c', here, (if_pos valid).ge⟩
  refine filled.setLun (φ := fun l => { l with service := u32 (l.service + 1) }) (filled.whole.place empty) lun
    (fun _ => rfl) rfl ?_ ?_
  · have mine := less i
    simp only [more, popsIn, List.countP_cons, ctx, beq_self_eq_true, if_true] at old ⊢
    omega
  · intro j m ne here
    refine Nat.add_le_add (less j) (Nat.le_of_eq ?_)
    have other : l.lunctx ≠ m.lunctx := fun same => ne (named.inj j i m l here lun same.symm)
    simp [popsIn, ctx, other]

/-- A population that ends gives back one reference; the other mappings pending have populations still. -/
theorem Filled.released {p : Pop} {before after : List Pop} {v : View} (filled : b.Filled) (tallied : b.Tallied)
    (owned : b.Owned) (inside : b.Inside i) (parts : b.pops = before ++ p :: after) (lun : b.view.lun i = some l)
    (ctx : l.lunctx = p.task.lunctx) (luns : v.lun = (b.view.release i).lun) (whole : v.Whole)
    (less : ∀ j, v.load j ≤ b.view.load j)
    (cells : ∀ k c, v.cell i k = some c → ∃ c₀, b.view.cell i k = some c₀ ∧
      (c.valid = false → c₀.valid = false ∧ k ≠ p.task.lunFragnum)) :
    Filled ⟨v, b.reads, before ++ after⟩ ∧ Inside ⟨v, b.reads, before ++ after⟩ i ∧
      Backed ⟨v, b.reads, before ++ after⟩ i := by
  have count := popsIn_split parts v
  have old := filled.count i l lun
  have small := tallied.small i l lun
  rw [count l.lunctx, if_pos ctx.symm] at old
  refine ⟨?_, ?_, ?_⟩
  · refine filled.setLun (φ := fun l => { l with service := sub32 l.service 1 }) whole lun (fun _ => rfl) luns ?_ ?_
    · have one : sub32 l.service 1 = l.service - 1 := sub32_of_le (by omega) small
      have mine := less i
      simp only [one]
      omega
    · intro j m _ _
      rw [count m.lunctx]
      exact Nat.add_le_add (less j) (Nat.le_add_right _ _)
  · intro k c' l' cell' lun'
    obtain ⟨c₀, cell, _⟩ := cells k c' cell'
    obtain ⟨l₀, lun₀, rfl⟩ := View.setLun_lun_some ((congrFun luns i).symm.trans lun')
    rw [if_pos rfl]
    exact inside k c₀ l₀ cell lun₀
  · intro k c' l' cell' pending' lun'
    obtain ⟨c₀, cell, back⟩ := cells k c' cell'
    obtain ⟨pending, ne⟩ := back pending'
    obtain ⟨_, q, member, m, lun₁, ctx', frag⟩ := owned i k c₀ cell pending
    obtain ⟨l₀, lun₀, rfl⟩ := View.setLun_lun_some ((congrFun luns i).symm.trans lun')
    obtain rfl := Option.some.inj (lun₁.symm.trans lun₀)
    have other : q ∈ before ++ after := by
      rw [parts] at member
      rcases List.mem_append.mp member with left | right
      · exact List.mem_append_left _ left
      · rcases List.mem_cons.mp right with rfl | right
        · exact absurd frag.symm ne
        · exact List.mem_append_right _ right
    rw [if_pos rfl]
    show 0 < (⟨v, b.reads, before ++ after⟩ : Ledger).popsIn m.lunctx
    rw [← ctx']
    exact popsIn_pos (b := ⟨v, b.reads, before ++ after⟩) other

end Ledger

theorem Turn.filled (turn : Turn b now call reply b') (filled : b.Filled) (sound : b.view.Sound) (owned : b.Owned)
    (tallied : b.Tallied) (named : b.view.Named) (roomy : b.Roomy call)
    (fresh : ∀ m ctx vmalloc, call = .addlun m ctx vmalloc → ∀ i l, b.view.lun i = some l → l.lunctx ≠ ctx) :
    b'.Filled := by
  have inside : ∀ i, b.Inside i := by
    intro i f c l cell lun
    obtain ⟨l', lun', lt⟩ := sound.inside i f c cell
    obtain rfl := Option.some.inj (lun.symm.trans lun')
    exact lt
  cases turn with
  | noop | putReadFail => exact ⟨filled.whole, filled.count⟩
  | addcdev => exact ⟨filled.whole.plug, filled.count⟩
  | @rmcdev d =>
    refine ⟨filled.whole.unplug, fun j m lun => ?_⟩
    have less := View.load_mono (w := b.view.unplug d) (v := b.view) (i := j) rfl
      fun f c cell => (Option.filter_eq_some_iff.mp cell).1
    exact Nat.le_trans (Nat.add_le_add_right less (b.popsIn m.lunctx)) (filled.count j m lun)
  | @addlun m ctx i vmalloc slot absent =>
    refine filled.attach sound absent (List.countP_eq_zero.mpr fun p member same => ?_)
    obtain ⟨k, l, lun, ctx'⟩ := tallied.pops p member
    exact fresh m ctx vmalloc rfl k l lun (ctx'.symm.trans (by simpa using same))
  | @rmlunWait i l present =>
    have load : ∀ j, (b.view.setLun i fun l => { l with waiting := true }).load j = b.view.load j :=
      fun j => View.load_setLun fun _ => rfl
    refine filled.setLun (φ := fun l => { l with waiting := true }) filled.whole present (fun _ => rfl) rfl ?_ ?_
    · rw [load]
      exact filled.count _ _ present
    · intro j m _ _
      rw [load]
      exact Nat.le_refl _
  | rmlun present idle => exact filled.purge (inside _) owned.backed present idle
  | @readHit i x n ctx size c served =>
    obtain ⟨l, present, _, _, _, _, cell, usable, _⟩ := served
    exact filled.pin present (inside i _ c l cell present) cell usable (roomy rfl i l present)
  | @putRead r before after parts busy =>
    obtain ⟨l, c, present, _, _, cell, valid, used, _⟩ := busy
    exact filled.unpin (inside _) owned.backed present cell valid used
  | @invalidate i x n =>
    refine ⟨filled.whole.invalidate, fun j m lun => ?_⟩
    have less : (b.view.invalidate i (invFrag x * 256 + invOff x) (invCount x n)).load j ≤ b.view.load j := by
      refine View.load_le rfl fun f c' cell valid => ?_
      obtain ⟨c, here, ⟨_, _, rfl⟩ | ⟨_, rfl⟩⟩ := View.invalidate_cell_some cell
      · exact ⟨c, here, (if_pos valid).ge⟩
      · exact ⟨c', here, (if_pos valid).ge⟩
    exact Nat.le_trans (Nat.add_le_add_right less (b.popsIn m.lunctx)) (filled.count j m lun)
  | pop present _ _ empty => exact filled.place named present empty rfl (roomy rfl _ _ present)
  | @putPopFail p before after failed parts =>
    refine ⟨filled.whole, fun j l lun => ?_⟩
    have old := filled.count j l lun
    rw [Ledger.popsIn_split parts b.view] at old
    exact Nat.le_trans (Nat.add_le_add_left (Nat.le_add_right _ _) _) old
  | @complete p before after i l c parts _ present ctx cell pending one =>
    have less : ∀ j, ((b.view.setCell i p.task.lunFragnum
        fun c => { c with valid := true, service := 0 }).release i).load j ≤ b.view.load j := by
      intro j
      rw [View.load_release]
      by_cases e : j = i
      · subst e
        have changed := View.load_setCell (φ := fun c => { c with valid := true, service := 0 }) present
          (inside j _ c l cell present) cell
        simp only [Cell.load, if_true] at changed
        omega
      · rw [View.load_setCell_ne e]
    have whole : (b.view.setCell i p.task.lunFragnum fun c => { c with valid := true, service := 0 }).Whole :=
      filled.whole.setCell fun _ => rfl
    obtain ⟨base, within, backed⟩ := filled.released (v := (b.view.setCell i p.task.lunFragnum
        fun c => { c with valid := true, service := 0 }).release i) tallied owned (inside i) parts present ctx rfl
      whole less (by
        intro k c' cell'
        rw [View.release_cell] at cell'
        obtain ⟨c₀, here, rfl⟩ := View.setCell_cell_some cell'
        refine ⟨c₀, here, fun pending' => ?_⟩
        split at pending'
        · cases pending'
        · rename_i ne
          exact ⟨pending', fun e => ne ⟨rfl, e⟩⟩)
    exact base.collect within backed
  | @stale p before after i l c parts _ present ctx cell valid =>
    obtain ⟨base, within, backed⟩ := filled.released (v := b.view.release i) tallied owned (inside i) parts present ctx
      rfl filled.whole (fun j => View.load_release.le) (by
        intro k c' here
        refine ⟨c', here, fun pending' => ⟨pending', ?_⟩⟩
        rintro rfl
        obtain rfl := Option.some.inj (cell.symm.trans here)
        rw [valid] at pending'
        cases pending')
    exact base.collect within backed
  | @cancel p before after i l c parts _ present ctx cell pending one =>
    have less : ∀ j, ((b.view.drop i p.task.lunFragnum).release i).load j ≤ b.view.load j := by
      intro j
      rw [View.load_release]
      exact View.load_mono rfl fun _ _ => View.drop_cell_some
    obtain ⟨base, within, backed⟩ := filled.released (v := (b.view.drop i p.task.lunFragnum).release i) tallied owned
      (inside i) parts present ctx rfl filled.whole.drop less (by
        intro k c' cell'
        rw [View.release_cell] at cell'
        refine ⟨c', View.drop_cell_some cell', fun pending' => ⟨pending', ?_⟩⟩
        rintro rfl
        rw [View.drop_cell, if_pos ⟨rfl, rfl⟩] at cell'
        cases cell')
    exact base.settle within backed

/-! ### The partition -/

namespace Sce

/-- Descriptor `f` of present LUN `i` is mapped, and its data bits are the pfid of `a`. -/
def maps (s : Sce) (i f : Nat) (a : Phys) : Prop :=
  ∃ l, s.luntbl i = some l ∧ f < l.nrFrag ∧ isMapped (l.fragmap f) = true ∧ fragdescData (l.fragmap f) = scePfid a.dev a.off

/-- A fragment is on the free list `fl`, or one descriptor maps it. -/
def Placed (s : Sce) (fl : List Phys) (a : Phys) (g : Frag) : Prop :=
  (a ∈ fl ∧ g.fragnum = fragnumWithinFreeList ∧ ∀ i f, ¬ s.maps i f a) ∨
    (a ∉ fl ∧ ∃ i f, s.maps i f a ∧ g.lunidx = i ∧ g.fragnum = f ∧ ∀ j k, s.maps j k a → j = i ∧ k = f)

/-- The fragments are divided between the free list `fl` and the LUNs, and the counters tell how much there is. -/
structure Partition (s : Sce) (fl : List Phys) : Prop where
  chain : Chain phys 0#32 s.nextWord s.freefraglist fl
  nodup : fl.Nodup
  nrFreefrag : s.nrFreefrag = fl.length
  placed : ∀ d cdev o, s.cdevtbl d = some cdev → o < cdev.nrFrag → s.Placed fl ⟨d, o⟩ (cdev.fragtbl o)
  listed : ∀ a ∈ fl, ∃ cdev, s.cdevtbl a.dev = some cdev ∧ a.off < cdev.nrFrag
  mapped : ∀ i l f, s.luntbl i = some l → f < l.nrFrag → isMapped (l.fragmap f) = true →
    ∃ cdev, s.cdevtbl (scePfidDev (l.fragmap f)) = some cdev ∧ scePfidOff (l.fragmap f) < cdev.nrFrag
  nrCdev : s.nrCdev = ((Finset.range sceMaxCdev).filter fun d => (s.cdevtbl d).isSome).card
  nrLun : s.nrLun = ((Finset.range sceMaxLun).filter fun i => (s.luntbl i).isSome).card
  nrFrag : s.nrFrag = ∑ d ∈ Finset.range sceMaxCdev, (s.cdevtbl d).elim 0 Cdev.nrFrag

variable {s : Sce} {i f : Nat} {a : Phys}

theorem maps_iff (dev : a.dev < 16) (named : a.off < 2 ^ 24) : s.maps i f a ↔ s.place i f = some a := by
  unfold maps
  rw [place_eq_some]
  simp only [fragdescData_eq dev named]

theorem frag?_ne_none : s.frag? a ≠ none ↔ ∃ cdev, s.cdevtbl a.dev = some cdev ∧ a.off < cdev.nrFrag := by
  unfold frag?
  cases s.cdevtbl a.dev with
  | none => simp
  | some cdev => simp

/-- When nothing is lost and every device is short enough for its fragments to have pfids. -/
theorem partition (h : Inv nowhere s) (whole : s.view.Whole) (short : ∀ d ctx n, s.dev d = some (ctx, n) → n ≤ 2 ^ 24) :
    ∃ fl, s.Partition fl := by
  obtain ⟨fl, list⟩ := h.shape.free
  have sizes : ∀ d, devSize s.dev d = (s.cdevtbl d).elim 0 Cdev.nrFrag := by
    intro d
    unfold devSize dev
    cases s.cdevtbl d <;> rfl
  refine ⟨fl, list.chain, list.nodup, list.nrFreefrag, ?_, ?_, ?_, ?_, ?_, ?_⟩
  · intro d cdev o here off
    have dev : s.dev d = some (cdev.cdevctx, cdev.nrFrag) := dev_eq_some.mpr ⟨cdev, here, rfl, rfl⟩
    have named : o < 2 ^ 24 := Nat.lt_of_lt_of_le off (short d _ _ dev)
    have low : d < 16 := (h.shape.devices.bounds d _ _ dev).1
    have frag : s.frag? ⟨d, o⟩ = some (cdev.fragtbl o) := frag?_some_iff.mpr ⟨cdev, here, off, rfl⟩
    have maps : ∀ i f, s.maps i f ⟨d, o⟩ ↔ s.place i f = some ⟨d, o⟩ := fun i f => maps_iff low named
    rcases whole ⟨d, o⟩ _ _ dev off named with free | ⟨i, f, c, cell, addr⟩
    · refine Or.inl ⟨(list.mem _).mpr free, (isFree_iff frag).mp free, fun i f mapped => ?_⟩
      exact h.shape.not_free ((maps i f).mp mapped) free
    · obtain ⟨m, slot, rfl⟩ := Option.map_eq_some_iff.mp (view_cell ▸ cell)
      have place : s.place i f = some ⟨d, o⟩ := (place_of_slot slot).trans (congrArg some addr)
      refine Or.inr ⟨fun member => h.shape.not_free place ((list.mem _).mp member), i, f, (maps i f).mpr place, ?_⟩
      have node := (node_of_frag frag).symm.trans (h.shape.mapped i f _ place)
      obtain ⟨lunidx, fragnum, _⟩ := Node.mk.inj (Option.some.inj node)
      exact ⟨lunidx, fragnum, fun j k mapped => h.shape.place_inj place ((maps j k).mp mapped)⟩
  · intro a member
    obtain ⟨n, node, _⟩ := (list.mem a).mp member
    obtain ⟨g, frag, _⟩ := node_eq_some.mp node
    exact frag?_ne_none.mp (Option.ne_none_iff_exists'.mpr ⟨g, frag⟩)
  · intro i l f lun inside mapped
    obtain ⟨m, slot⟩ := h.shape.slot_of_mapped lun inside mapped
    obtain ⟨l', lun', _, _, addr, _, frag⟩ := slot_eq_some.mp slot
    obtain rfl := Option.some.inj (lun.symm.trans lun')
    rw [addr] at frag
    exact frag?_ne_none.mp (Option.ne_none_iff_exists'.mpr ⟨_, frag⟩)
  · rw [h.shape.devices.nrCdev]
    simp [dev]
  · rw [h.shape.luns.nrLun]
    simp [extent]
  · rw [h.shape.devices.nrFrag, u32_of_lt]
    · exact Finset.sum_congr rfl fun d _ => sizes d
    · refine Nat.lt_of_le_of_lt (Finset.sum_le_card_nsmul _ _ (2 ^ 24) fun d _ => ?_) (by simp)
      unfold devSize
      cases here : s.dev d with
      | none => simp
      | some p => exact short d p.1 p.2 here

end Sce

/-! ### Over runs -/

namespace World

variable {w w' : World}

/-- A cache device has no more fragments than pfids have room for. -/
def Short (_ : World) : Call → Prop
  | .addcdev nrSctr _ _ => u32 (nrSctr / sceSctrPerFrag) ≤ 2 ^ 24
  | _ => True

instance (w : World) (call : Call) : Decidable (w.Short call) :=
  match call with
  | .addcdev nrSctr _ _ => inferInstanceAs (Decidable (u32 (nrSctr / sceSctrPerFrag) ≤ 2 ^ 24))
  | .addlun _ _ _ | .get4read _ _ _ | .invalidate _ _ _ | .rmcdev _ | .rmlun _ | .put4read _ | .get4pop _
    | .put4pop _ _ => .isTrue trivial

structure Filled (w : World) : Prop where
  founded : w.Founded
  tallied : w.ledger.Tallied
  filled : w.ledger.Filled

theorem Filled.init : World.init.Filled := by
  refine ⟨.init, tallied_init, ?_, ?_⟩
  · intro a ctx n dev
    cases dev
  · intro i l lun
    cases lun

theorem Filled.next (h : w.Filled) (fresh : w.Fresh call) (roomy : w.Roomy call) (moves : w.exec call = some w') :
    w'.Filled := by
  obtain ⟨_, reply, _, turn⟩ := exec_turn h.founded.base moves
  refine ⟨h.founded.next fresh moves, h.founded.tallied_next h.tallied fresh roomy moves, ?_⟩
  exact turn.filled h.filled h.founded.base.inv.sound h.founded.owned h.tallied h.founded.named
    (roomy.ledger h.founded.base) fun m ctx vmalloc called => (fresh.addlun h.founded.base m ctx vmalloc called).2

/-- In every run in which no request starts on a LUN with 2^32 - 1 requests, each fragment is free or mapped once. -/
theorem fragments_partition
    (reached : Reachable exec (fun w call => w.Fresh call ∧ w.Short call ∧ w.Roomy call) init w) :
    ∃ fl, w.sce.Partition fl := by
  have h : w.Filled := reached.invariant .init fun _ _ _ h ok moves => h.next ok.1 ok.2.2 moves
  exact Sce.partition h.founded.base.inv h.filled.whole (short_of_reachable reached fun _ _ _ _ ok => ok.2.1)

/-- Two devices and a LUN, populations completed, cancelled and left behind by the removal of a device. -/
def mixed : World :=
  (execAll exec (fun w call => decide (w.Fresh call ∧ w.Short call ∧ w.Roomy call)) init
    [.addcdev 4096 7 true, .addcdev 4096 8 true, .addlun 8192 9 true, .get4read 0 0 8, .get4pop fun _ _ => 0#32,
      .put4pop 4 false, .get4read 0 2048 8, .get4pop fun _ _ => 0#32, .rmcdev 1, .put4pop 7 true]).getD init

theorem mixed_reachable : Reachable exec (fun w call => w.Fresh call ∧ w.Short call ∧ w.Roomy call) init mixed :=
  reachable_getD (fun _ _ ok => of_decide_eq_true ok) (by decide +kernel)

theorem fragments_partition_mixed : mixed.sce.nrFrag = 2 ∧ ∃ fl, mixed.sce.Partition fl ∧ fl.length = mixed.sce.nrFreefrag := by
  obtain ⟨fl, parts⟩ := fragments_partition mixed_reachable
  exact ⟨by decide +kernel, fl, parts, parts.nrFreefrag.symm⟩

/-- A LUN of two fragments, the first one cached and the second one being populated. -/
def begun : World :=
  (execAll exec (fun w call => decide (w.Fresh call ∧ w.Short call)) init
    [.addcdev 4096 7 true, .addlun 4096 9 true, .get4read 0 0 8, .get4pop fun _ _ => 0#32, .put4pop 3 false,
      .get4read 0 2048 8, .get4pop fun _ _ => 0#32]).getD init

theorem begun_reachable : Reachable exec (fun w call => w.Fresh call ∧ w.Short call) init begun :=
  reachable_getD (fun _ _ ok => of_decide_eq_true ok) (by decide +kernel)

/-- `n` requests are counted on a LUN of which one fragment can be read and another one is being populated. -/
structure Crowd (w : World) (n : Nat) : Prop where
  base : w.Base
  lun : ∃ l, w.sce.view.lun 0 = some l ∧ l.waiting = false ∧ l.nrSctr = 4096 ∧ l.service = u32 n
  cached : ∃ c, w.sce.view.cell 0 0 = some c ∧ c.valid = true ∧ c.bad 0 = false
  pending : ∃ c, w.sce.view.cell 0 1 = some c ∧ c.service = 1

theorem begun_crowd : Crowd begun 1 := by
  have base : begun.Base := base_of_reachable begun_reachable
  have lun : (begun.sce.luntbl 0).any (fun l => !l.waiting4deletion && l.nrSctr == 4096 && l.nrService == 1) = true := by
    decide +kernel
  have cached : (begun.sce.slot 0 0).any (fun m => m.valid && !bitmapBit m.frag.bitmap 0) = true := by decide +kernel
  have pending : (begun.sce.slot 0 1).any (fun m => m.frag.nrService == 1) = true := by decide +kernel
  simp only [Option.any_eq_true, Bool.and_eq_true, Bool.not_eq_true', beq_iff_eq] at lun cached pending
  obtain ⟨l, here, ⟨active, size⟩, one⟩ := lun
  obtain ⟨m, slot, valid, clear⟩ := cached
  obtain ⟨m', slot', busy⟩ := pending
  refine ⟨base, ⟨l.volume, ?_, active, size, one⟩, ⟨_, Sce.view_cell_some slot, valid, clear⟩,
    ⟨_, Sce.view_cell_some slot', busy⟩⟩
  rw [Sce.view_lun, here]
  rfl

/-- One more read. -/
theorem Crowd.next {n : Nat} (h : w.Crowd n) : ∃ w', w.exec (.get4read 0 0 8) = some w' ∧ w'.Crowd (n + 1) := by
  obtain ⟨l, lun, active, size, count⟩ := h.lun
  obtain ⟨c, cell, valid, clear⟩ := h.cached
  obtain ⟨c₁, cell₁, one⟩ := h.pending
  have served : w.sce.view.served 0 0 8 c := by
    refine ⟨l, lun, active, by decide, by omega, by decide, cell, valid, fun p _ le => ?_⟩
    obtain rfl : p = 0 := Nat.le_zero.mp le
    exact clear
  rcases sceGet4read_spec h.base.inv 0 (x := 0) (n := 8) (by decide) (by decide) with
    ⟨_, ctx, _, s', _, _, run, _, view⟩ | ⟨misses, _⟩
  swap
  · exact absurd served (misses c)
  have moves : w.exec (.get4read 0 0 8) = some (w.next (.get4read 0 0 8) (.fmap (some _)) s') :=
    exec_eq_some.mpr ⟨.get4read 0 0 8, _, s', by simp [World.op], by rw [Sce.call, run]; rfl, rfl⟩
  refine ⟨_, moves, (exec_turn h.base moves).1, ?_, ?_, ?_⟩
  · refine ⟨{ l with service := u32 (l.service + 1) }, ?_, active, size, ?_⟩
    · show s'.view.lun 0 = _
      rw [view, View.pin, View.setLun_lun, if_pos rfl, View.setCell_lun, lun]
      rfl
    · show u32 (l.service + 1) = _
      rw [count]
      simp only [u32]
      omega
  · refine ⟨{ c with service := u16 (c.service + 1) }, ?_, valid, clear⟩
    show s'.view.cell 0 0 = _
    rw [view, View.pin, View.setLun_cell, View.setCell_cell, if_pos ⟨rfl, rfl⟩, cell]
    rfl
  · refine ⟨c₁, ?_, one⟩
    show s'.view.cell 0 1 = _
    rw [view, View.pin, View.setLun_cell, View.setCell_cell, if_neg (by decide), cell₁]

theorem crowd_reachable (n : Nat) : ∃ w, Reachable exec (fun w call => w.Fresh call ∧ w.Short call) init w ∧
    w.Crowd (n + 1) := by
  induction n with
  | zero => exact ⟨begun, begun_reachable, begun_crowd⟩
  | succ n ih =>
    obtain ⟨w, reached, crowd⟩ := ih
    obtain ⟨w', moves, crowd'⟩ := crowd.next
    have ok : w.Fresh (.get4read 0 0 8) ∧ w.Short (.get4read 0 0 8) := ⟨trivial, trivial⟩
    exact ⟨w', reached.next ok moves, crowd'⟩

/-- With 2^32 requests outstanding on it a LUN counts none, and goes with `sce_rmlun`; the fragments in use are left
neither free nor mapped. -/
theorem fragments_lost : ∃ w, Reachable exec (fun w call => w.Fresh call ∧ w.Short call) init w ∧
    ∀ fl, ¬ w.sce.Partition fl := by
  obtain ⟨w, reached, crowd⟩ := crowd_reachable (2 ^ 32 - 1)
  obtain ⟨l, lun, _, _, count⟩ := crowd.lun
  obtain ⟨c, cell, one⟩ := crowd.pending
  have inv := crowd.base.inv
  rcases sceRmlun_spec inv 0 with ⟨absent, _⟩ | ⟨l', lun', stop⟩
  · cases lun.symm.trans absent
  obtain rfl := Option.some.inj (lun.symm.trans lun')
  have short := short_of_reachable reached fun _ _ _ _ ok => ok.2
  rcases stop with stop | ⟨s', run, inv', view⟩
  · exact absurd (roomy_of_short short) stop.1
  have idle : l.service = 0 := by
    rw [count]
    rfl
  rw [if_neg (by rw [idle]; exact Nat.lt_irrefl 0)] at view
  have moves : w.exec (.rmlun 0) = some (w.next (.rmlun 0) (.ret .success) s') :=
    exec_eq_some.mpr ⟨.rmlun 0, _, s', rfl, by rw [Sce.call, run]; rfl, rfl⟩
  have ok : w.Fresh (.rmlun 0) ∧ w.Short (.rmlun 0) := ⟨trivial, trivial⟩
  refine ⟨_, reached.next ok moves, fun fl parts => ?_⟩
  -- the fragment being populated
  obtain ⟨named, ctx, n, dev, off⟩ := inv.sound.there 0 1 c cell
  have low := (inv.sound.dev _ _ _ dev).1
  have dev' : s'.dev c.addr.dev = some (ctx, n) := by
    rw [show s'.dev = w.sce.dev from congrArg View.dev view]
    exact dev
  obtain ⟨cdev, there, rfl, rfl⟩ := Sce.dev_eq_some.mp dev'
  have frag : s'.frag? c.addr = some (cdev.fragtbl c.addr.off) := Sce.frag?_some_iff.mpr ⟨cdev, there, off, rfl⟩
  have mapped : ∀ j k c', (w.sce.view.purge 0).cell j k = some c' → c'.addr = c.addr → False := by
    intro j k c' cell' same
    have old := View.purge_cell_some cell'
    obtain ⟨rfl, _⟩ := inv.sound.inj 0 1 c j k c' cell old same
    rw [View.purge_cell, if_pos rfl] at cell'
    cases cell'
  rcases parts.placed _ cdev _ there off with ⟨_, within, _⟩ | ⟨_, j, k, maps, _⟩
  · have free : (w.sce.view.purge 0).free c.addr := by
      rw [← view]
      exact (Sce.isFree_iff frag).mpr within
    rcases free with free | ⟨k, c', cell', same, unused⟩
    · exact inv.sound.apart 0 1 c cell free
    · obtain ⟨_, rfl⟩ := inv.sound.inj 0 1 c 0 k c' cell cell' same
      obtain rfl := Option.some.inj (cell.symm.trans cell')
      rw [one] at unused
      cases unused
  · obtain ⟨m, slot, addr⟩ := inv'.shape.slot_of_place ((Sce.maps_iff (a := c.addr) low named).mp maps)
    refine mapped j k m.cell ?_ addr
    rw [← view]
    exact Sce.view_cell_some slot

end World

end Iostash
