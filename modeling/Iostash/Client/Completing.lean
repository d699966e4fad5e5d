import Iostash.Client.Settling
import Iostash.Sce.Occupancy

/-!
# The end of a population

A population that ends finds its mapping by the context and the fragment number of its LUN, whoever made it. Other
mappings are left alone, unless the LUN was pending deletion and goes with it; without a mapping nothing changes but a
count.
-/

namespace Iostash

open Util

namespace View

variable {v : View} {i j f k : Nat}

/-- Garbage collection leaves a mapping alone unless its LUN goes. -/
theorem settle_cell_other : (v.settle i).cell j k = v.cell j k ∨ j = i ∧ (v.settle i).lun i = none := by
  refine settle_induct (P := fun u => u.cell j k = v.cell j k ∨ j = i ∧ u.lun i = none) (Or.inl rfl) ?_
  intro l _ _ _
  by_cases e : j = i
  · exact Or.inr ⟨e, if_pos rfl⟩
  · exact Or.inl (if_neg e)

theorem collect_cell_other (ne : ¬ (j = i ∧ k = f)) :
    (v.collect i f).cell j k = v.cell j k ∨ j = i ∧ (v.collect i f).lun i = none := by
  refine collect_induct (P := fun u => u.cell j k = v.cell j k ∨ j = i ∧ u.lun i = none) (Or.inl rfl) ?_ ?_
  · intro c _ _ _
    exact Or.inl (if_neg ne)
  · intro u l here _ _ _
    by_cases e : j = i
    · exact Or.inr ⟨e, if_pos rfl⟩
    · refine here.imp (fun same => ?_) fun gone => absurd gone.1 e
      rw [purge_cell, if_neg e, same]

theorem collect_cell_self {c : Cell} (cell : v.cell i f = some c) (idle : c.service = 0) (spent : c.spent = true) :
    (v.collect i f).cell i f = none := by
  unfold collect
  rw [cell, if_pos (by simp [idle, spent])]
  cases after : ((v.drop i f).settle i).cell i f with
  | none => rfl
  | some c' =>
    have here := settle_cell_some after
    rw [drop_cell, if_pos ⟨rfl, rfl⟩] at here
    cases here

theorem release_gone {l : Volume} (lun : v.lun i = some l) (waiting : l.waiting = true) (last : sub32 l.service 1 = 0) :
    ((v.release i).collect i f).lun i = none ∧ ((v.release i).settle i).lun i = none := by
  have counted : (v.release i).lun i = some { l with service := sub32 l.service 1 } := by
    rw [release, setLun_lun, if_pos rfl, lun]
    rfl
  exact ⟨collect_gone counted waiting last, settle_gone counted waiting last⟩

variable {task : Poptask} {c : Cell} {failed : Bool}

/-- A population that ends takes the LUN with it when that is pending deletion and counts nothing else. -/
theorem put4pop_gone {l : Volume} (found : v.search task.lunctx = some i) (cell : v.cell i task.lunFragnum = some c)
    (ok : (c.valid && !failed || !c.valid && c.service == 1) = true) (lun : v.lun i = some l) (waiting : l.waiting = true)
    (last : sub32 l.service 1 = 0) : (v.put4pop task failed).2.lun i = none := by
  unfold put4pop
  rw [found]
  simp only [complete, cancel, cell]
  cases failed <;> cases valid : c.valid
  · have one : c.service = 1 := by simpa [valid] using ok
    simp only [Bool.false_eq_true, if_false, if_pos one]
    exact (release_gone (v := v.setCell i task.lunFragnum _) lun waiting last).1
  · exact (release_gone lun waiting last).1
  · have one : c.service = 1 := by simpa [valid] using ok
    simp only [if_true, one, and_self]
    exact (release_gone (v := v.drop i task.lunFragnum) (f := task.lunFragnum) lun waiting last).2
  · simp [valid] at ok

/-- A population that was completed for another one leaves a mapping to garbage collection. -/
theorem put4pop_drops (found : v.search task.lunctx = some i) (cell : v.cell i task.lunFragnum = some c)
    (valid : c.valid = true) (idle : c.service = 0) (spent : c.spent = true) :
    (v.put4pop task false).2.cell i task.lunFragnum = none := by
  simp only [put4pop, found, complete, cell, valid, if_true, Bool.false_eq_true, if_false]
  exact collect_cell_self cell idle spent

end View

variable {b b' : Ledger} {now i j k : Nat} {call : Call} {reply : Reply} {p : Pop} {failed : Bool}

/-- The LUN goes, with the last request it counts. -/
def Ledger.Leaves (b b' : Ledger) (i : Nat) : Prop :=
  b'.view.lun i = none ∧ ∃ l, b.view.lun i = some l ∧ l.waiting = true ∧ sub32 l.service 1 = 0

/-- A population that ends leaves the other mappings alone unless their LUN goes. -/
theorem Turn.put_other (turn : Turn b now (.put4pop p.id failed) reply b') (nodup : (b.pops.map Pop.id).Nodup)
    (member : p ∈ b.pops) (found : b.view.search p.task.lunctx = some i) (ne : ¬ (j = i ∧ k = p.task.lunFragnum)) :
    b'.view.cell j k = b.view.cell j k ∨ j = i ∧ b.Leaves b' i := by
  generalize called : Call.put4pop p.id failed = call at turn
  have this : ∀ {q : Pop} {before after : List Pop}, b.pops = before ++ q :: after → p.id = q.id → p = q :=
    fun split same => Pop.eq_of_id nodup member (by rw [split]; simp) same
  -- a LUN that goes counted nothing any more
  have last : ∀ {u : View} {l : Volume} {o : Option Volume}, b.view.lun i = some l → u.lun = b.view.lun →
      o = ((u.release i).lun i).filter (fun l => !(l.waiting && l.service == 0)) → o = none →
      l.waiting = true ∧ sub32 l.service 1 = 0 := by
    rintro u l o lun same rfl gone
    rw [View.release, View.setLun_lun, if_pos rfl, same, lun, Option.map_some, Option.filter_some] at gone
    split at gone
    · cases gone
    · rename_i goes
      simpa using goes
  cases turn with
  | noop failed get =>
    subst called
    cases get
  | addcdev | rmcdev | addlun | rmlunWait | rmlun | readHit | putRead | putReadFail | invalidate | pop => cases called
  | putPopFail => exact Or.inl rfl
  | @complete q before after i' l c split found' present =>
    obtain rfl := this split (Call.put4pop.inj called).1
    obtain rfl := Option.some.inj (found.symm.trans found')
    refine (View.collect_cell_other ne).imp (fun same => ?_) fun gone => ⟨gone.1, gone.2, l, present, ?_⟩
    · exact same.trans (View.setCell_cell_ne ne)
    · exact last (u := b.view.setCell i p.task.lunFragnum _) present rfl (View.collect_lun.trans (if_pos rfl)) gone.2
  | @stale q before after i' l c split found' present =>
    obtain rfl := this split (Call.put4pop.inj called).1
    obtain rfl := Option.some.inj (found.symm.trans found')
    refine (View.collect_cell_other ne).imp id fun gone => ⟨gone.1, gone.2, l, present, ?_⟩
    exact last (u := b.view) present rfl (View.collect_lun.trans (if_pos rfl)) gone.2
  | @cancel q before after i' l c split found' present =>
    obtain rfl := this split (Call.put4pop.inj called).1
    obtain rfl := Option.some.inj (found.symm.trans found')
    refine (View.settle_cell_other (k := k)).imp (fun same => ?_) fun gone => ⟨gone.1, gone.2, l, present, ?_⟩
    · exact same.trans (if_neg ne)
    · exact last (u := b.view.drop i p.task.lunFragnum) present rfl (View.settle_lun.trans (if_pos rfl)) gone.2

/-! ### Without a mapping -/

variable {s : Sce} {f : Nat}

theorem Sce.unmapped {l : Lun} (empty : s.place i f = none) (lun : s.luntbl i = some l) (inside : ¬ l.nrFrag ≤ f) :
    isMapped (l.fragmap f) = false := by
  by_contra mapped
  have here : s.place i f = some (phys (l.fragmap f)) :=
    place_eq_some.mpr ⟨l, lun, Nat.lt_of_not_le inside, by simpa using mapped, rfl⟩
  cases empty.symm.trans here

theorem completePopulation_unmapped (empty : s.place i f = none) : completePopulation s i f = .ok (.error, s) := by
  unfold completePopulation
  split
  · rfl
  · rename_i l lun
    split
    · rfl
    · rename_i inside
      exact if_pos (Sce.unmapped empty lun inside)

theorem cancelPopulation_unmapped (empty : s.place i f = none) : cancelPopulation s i f = .ok (.error, s) := by
  unfold cancelPopulation
  split
  · rfl
  · rename_i l lun
    split
    · rfl
    · rename_i inside
      exact if_pos (Sce.unmapped empty lun inside)

/-- The maps, the fragments and the free list are the same. -/
structure Sce.Untouched (s s' : Sce) : Prop where
  entry : s'.entry = s.entry
  frag : s'.frag? = s.frag?
  freefraglist : s'.freefraglist = s.freefraglist
  nrFreefrag : s'.nrFreefrag = s.nrFreefrag

/-- The end of a request closes the LUN: it is pending deletion and counts no other request. -/
def Sce.closes (s : Sce) (i : Nat) : Bool := (s.luntbl i).any fun l => l.waiting4deletion && sub32 l.nrService 1 == 0

theorem Sce.slot_eq_entry : s.slot i f = (s.entry i f).bind fun w =>
    if isMapped w = true then (s.frag? (phys w)).map fun g => ⟨phys w, isValid w, g⟩ else none := by
  unfold Sce.slot Sce.entry
  cases s.luntbl i with
  | none => rfl
  | some l => by_cases inside : f < l.nrFrag <;> simp [inside]

theorem Sce.Untouched.slot {s' : Sce} (h : s.Untouched s') : s'.slot i f = s.slot i f := by
  rw [slot_eq_entry, slot_eq_entry, h.entry, h.frag]

theorem scePut4pop_unmapped {poptask : Poptask} {r : Ret} {s' : Sce}
    (empty : ∀ i, lunSearch s poptask.lunctx = some i → s.place i poptask.lunFragnum = none)
    (run : scePut4pop s poptask failed = .ok (r, s')) : r = .error ∧ s.Untouched s' := by
  unfold scePut4pop at run
  split at run
  · cases run
    exact ⟨rfl, rfl, rfl, rfl, rfl⟩
  · rename_i i found
    rw [completePopulation_unmapped (empty i found), cancelPopulation_unmapped (empty i found)] at run
    split at run
    · cases run
      exact ⟨rfl, rfl, rfl, rfl, rfl⟩
    · cases run
      refine ⟨rfl, Sce.modifyLun_entry ?_ ?_, rfl, rfl, rfl⟩
      · exact fun _ _ => rfl
      · exact fun _ _ => rfl

/-- The mapping found stays and the LUN with it: it is refused, or it is valid and not to be collected. -/
theorem scePut4pop_idle {poptask : Poptask} {r : Ret} {s' : Sce} {m : Slot} (h : Inv nowhere s)
    (found : lunSearch s poptask.lunctx = some i) (slot : s.slot i poptask.lunFragnum = some m)
    (idle : (m.valid && !failed || !m.valid && m.frag.nrService == 1) = true →
      m.valid = true ∧ ¬ (m.frag.nrService = 0 ∧ m.frag.nrValid = 0) ∧ s.closes i = false)
    (run : scePut4pop s poptask failed = .ok (r, s')) : s.Untouched s' := by
  obtain ⟨l, lun, inside, mapped, addr, valid, frag⟩ := Sce.slot_eq_some.mp slot
  have next : m.frag.next = 0#32 := congrArg Node.next (h.shape.node_of_slot slot)
  have counted : ∀ (u : Sce) (ψ : Lun → Lun), (∀ l, (ψ l).nrFrag = l.nrFrag) → (∀ l, (ψ l).fragmap = l.fragmap) →
      s.Untouched u → s.Untouched (u.modifyLun i ψ) := fun u ψ size map same =>
    ⟨(Sce.modifyLun_entry (fun l _ => size l) fun l _ => map l).trans same.entry, same.frag, same.freefraglist,
      same.nrFreefrag⟩
  have refl : s.Untouched s := ⟨rfl, rfl, rfl, rfl⟩
  simp only [scePut4pop, found] at run
  split at run
  · -- a cancel finds no secondary fragment
    rename_i fails
    have error : cancelPopulation s i poptask.lunFragnum = .ok (.error, s) := by
      simp only [cancelPopulation, lun, if_neg (Nat.not_le.mpr inside), mapped, Sce.pfid2frag, ← addr, frag, ← valid, next]
      cases good : m.valid with
      | true => simp
      | false =>
        have busy : m.frag.nrService ≠ 1 := fun one => by
          have := (idle (by simp [good, one])).1
          rw [good] at this
          cases this
        simp [busy]
    rw [error] at run
    cases run
    exact refl
  · rename_i succeeds
    have succeeds : failed = false := Bool.eq_false_iff.mpr succeeds
    obtain ⟨⟨ret, s₁⟩, done, rest⟩ := Except.bind_eq_ok run
    obtain ⟨_, rfl⟩ := Prod.mk.inj (Except.ok.inj rest)
    refine counted s₁ _ (fun _ => rfl) (fun _ => rfl) ?_
    simp only [completePopulation, lun, if_neg (Nat.not_le.mpr inside), mapped, Sce.pfid2frag, ← addr, frag, ← valid,
      next] at done
    cases good : m.valid with
    | true =>
      obtain ⟨_, stays, lasts⟩ := idle (by simp [good, succeeds])
      have open' : ((s.modifyLun i fun l => { l with nrService := sub32 l.nrService 1 }).luntbl i).any
          (fun l => l.waiting4deletion && l.nrService == 0) = false := by
        rw [Sce.modifyLun_luntbl_self, Option.any_map]
        exact lasts
      have frag' : (s.modifyLun i fun l => { l with nrService := sub32 l.nrService 1 }).frag? m.addr = some m.frag := frag
      simp only [good, releasePopulation, lunGc, frag', if_neg stays] at done
      simp only [if_true, bind, Except.bind, open', Bool.false_eq_true, if_false] at done
      obtain ⟨_, rfl⟩ := Prod.mk.inj (Except.ok.inj done)
      exact counted s _ (fun _ => rfl) (fun _ => rfl) refl
    | false =>
      have busy : m.frag.nrService ≠ 1 := fun one => by
        have := (idle (by simp [good, one])).1
        rw [good] at this
        cases this
      simp [good, busy] at done
      rw [← done.2]
      exact refl

/-! ### In every run -/

namespace World

variable {w w' : World} {allow : World → Call → Prop}

/-- The put of `p` looks for its mapping in LUN `i`. -/
def Looks (w : World) (p : Pop) (i : Nat) : Prop := lunSearch w.sce p.task.lunctx = some i

/-- Fragment `k` of LUN `j` is mapped and valid as it was, or the LUN was pending deletion and has gone with the last
request it counted. -/
def Spared (w w' : World) (p : Pop) (j k : Nat) : Prop :=
  (w'.sce.slot j k).map (fun m => (m.addr, m.valid)) = (w.sce.slot j k).map (fun m => (m.addr, m.valid)) ∨
    w.Looks p j ∧ w'.sce.luntbl j = none ∧
      ∃ l, w.sce.luntbl j = some l ∧ l.waiting4deletion = true ∧ sub32 l.nrService 1 = 0

/-- A put that finds the mapping of its own get, or none, spares all other mappings; one that finds none leaves the
maps, the fragments and the free list as they were. -/
theorem put4pop_spares {p : Pop} {failed : Bool} (reached : Reachable exec allow init w) (member : p ∈ w.pops)
    (own : ∀ i, w.Looks p i → w.sce.place i p.task.lunFragnum = none ∨ w.born i p.task.lunFragnum = p.id)
    (moves : w.exec (.put4pop p.id failed) = some w') :
    (∀ j k, w.sce.place j k = none ∨ w.born j k ≠ p.id → Spared w w' p j k) ∧
      ((∀ i, w.Looks p i → w.sce.place i p.task.lunFragnum = none) → w.sce.Untouched w'.sce) := by
  have base := base_of_reachable reached
  obtain ⟨op, reply, s', named, run, rfl, base', turn⟩ := exec_run base moves
  have untouched : (∀ i, w.Looks p i → w.sce.place i p.task.lunFragnum = none) → w.sce.Untouched s' := by
    intro empty
    obtain ⟨q, found, rfl⟩ := Option.map_eq_some_iff.mp named
    obtain rfl : q = p := Option.some.inj (found.symm.trans (Pop.find_of_mem base.popNodup member))
    obtain ⟨⟨r, t⟩, done, e⟩ := Except.map_eq_ok.mp run
    obtain ⟨rfl, rfl⟩ := Prod.mk.inj e
    exact (scePut4pop_unmapped empty done).2
  refine ⟨fun j k other => ?_, untouched⟩
  by_cases empty : ∀ i, w.Looks p i → w.sce.place i p.task.lunFragnum = none
  · exact Or.inl (congrArg _ (untouched empty).slot)
  · simp only [not_forall] at empty
    obtain ⟨i, looks, mapped⟩ := empty
    -- the mapping found is its own
    have ne : ¬ (j = i ∧ k = p.task.lunFragnum) := by
      rintro ⟨rfl, rfl⟩
      exact other.elim mapped fun born => born ((own j looks).resolve_left mapped)
    have found : w.ledger.view.search p.task.lunctx = some i := Sce.view_search.trans looks
    have kept : ∀ s : Sce, (s.slot j k).map (fun m => (m.addr, m.valid)) =
        (s.view.cell j k).map fun c => (c.addr, c.valid) := by
      intro s
      rw [Sce.view_cell, Option.map_map]
      rfl
    rcases turn.put_other base.popNodup member found ne with same | ⟨rfl, gone, l, lun, waiting, last⟩
    · left
      rw [kept, kept]
      exact congrArg _ same
    · obtain ⟨l₀, there, rfl⟩ := Option.map_eq_some_iff.mp (Sce.view_lun ▸ lun)
      exact Or.inr ⟨looks, Option.map_eq_none_iff.mp (Sce.view_lun ▸ gone), l₀, there, waiting, last⟩

/-- The put of `p` touches the mapping its own get made and nothing else; when that is no more, it touches nothing. -/
structure OwnOnly (w w' : World) (p : Pop) : Prop where
  touched : ∀ j k, (w'.sce.slot j k).map (fun m => (m.addr, m.valid)) = (w.sce.slot j k).map (fun m => (m.addr, m.valid)) ∨
    w.sce.place j k ≠ none ∧ w.born j k = p.id
  orphan : (∀ j k, w.sce.place j k ≠ none → w.born j k ≠ p.id) → w.sce.Untouched w'.sce

/-- The mapping that the put of `p` finds and accepts is its own, or is valid and neither idle nor without a usable page;
and the LUN stays, or goes with no mapping but its own. -/
def Owns (w : World) (p : Pop) (failed : Bool) : Prop :=
  w.sce.ends p failed = true → ∀ i m, w.Looks p i → w.sce.slot i p.task.lunFragnum = some m →
    (w.born i p.task.lunFragnum = p.id ∨ m.valid = true ∧ ¬ (m.frag.nrService = 0 ∧ m.frag.nrValid = 0)) ∧
      (w.sce.closes i = true → ∀ k, w.sce.place i k ≠ none → w.born i k = p.id)

/-- In every run, a put touches the mapping of its own get only, exactly when what it finds is that mapping, or is left
as it is, and no other mapping goes with the LUN. -/
theorem ownOnly_iff {p : Pop} {failed : Bool} (reached : Reachable exec allow init w) (member : p ∈ w.pops)
    (moves : w.exec (.put4pop p.id failed) = some w') : w.OwnOnly w' p ↔ w.Owns p failed := by
  have base := base_of_reachable reached
  obtain ⟨op, reply, s', named, run, rfl, base', turn⟩ := exec_run base moves
  obtain ⟨r, done⟩ : ∃ r, scePut4pop w.sce p.task failed = .ok (r, s') := by
    obtain ⟨q, found, rfl⟩ := Option.map_eq_some_iff.mp named
    obtain rfl : q = p := Option.some.inj (found.symm.trans (Pop.find_of_mem base.popNodup member))
    obtain ⟨⟨r, t⟩, done, e⟩ := Except.map_eq_ok.mp run
    obtain ⟨_, rfl⟩ := Prod.mk.inj e
    exact ⟨r, done⟩
  have still : w.sce.Untouched s' → w.OwnOnly (w.next (.put4pop p.id failed) reply s') p := fun same =>
    ⟨fun j k => Or.inl (congrArg _ same.slot), fun _ => same⟩
  by_cases ends : w.sce.ends p failed = true
  · -- the mapping the put accepts
    have accepted := ends
    simp only [Sce.ends, Option.any_eq_true] at accepted
    obtain ⟨i, looks, m, slot, ok⟩ := accepted
    have found : w.ledger.view.search p.task.lunctx = some i := Sce.view_search.trans looks
    have cell : w.ledger.view.cell i p.task.lunFragnum = some m.cell := Sce.view_cell_some slot
    have sound : s'.view.Sound := base'.inv.sound
    have view : s'.view = (w.sce.view.put4pop p.task failed).2 := by
      obtain ⟨_, effect⟩ := Sce.call_effect base.inv (show (Op.put4pop p.task failed).Typed from trivial)
        (Except.map_eq_ok.mpr ⟨_, done, rfl⟩)
      generalize s'.view = v' at effect
      cases effect
      rfl
    have place : w.sce.place i p.task.lunFragnum = some m.addr := Sce.place_of_slot slot
    have gone : w.sce.closes i = true → ∀ k, s'.slot i k = none := by
      intro closes k
      obtain ⟨l, lun, both⟩ := (Option.any_eq_true _ _).mp closes
      simp only [Bool.and_eq_true, beq_iff_eq] at both
      have volume : w.sce.view.lun i = some l.volume := by rw [Sce.view_lun, lun]; rfl
      have none : s'.view.lun i = none := by
        rw [view]
        exact View.put4pop_gone found cell ok volume both.1 both.2
      by_contra there
      obtain ⟨m', slot'⟩ := Option.ne_none_iff_exists'.mp there
      obtain ⟨l', lun', _⟩ := sound.inside i k _ (Sce.view_cell_some slot')
      rw [none] at lun'
      cases lun'
    have kept : ∀ (t : Sce) (j k : Nat), (t.slot j k).map (fun m => (m.addr, m.valid)) =
        (t.view.cell j k).map fun c => (c.addr, c.valid) := by
      intro t j k
      rw [Sce.view_cell, Option.map_map]
      rfl
    constructor
    · rintro own _ i' m' looks' slot'
      obtain rfl := Option.some.inj (looks.symm.trans looks')
      obtain rfl := Option.some.inj (slot.symm.trans slot')
      refine ⟨?_, ?_⟩
      · by_contra foreign
        have same := (own.touched i p.task.lunFragnum).resolve_right fun both => foreign (Or.inl both.2)
        rw [slot, Option.map_some] at same
        obtain ⟨m', slot', same⟩ := Option.map_eq_some_iff.mp same
        obtain ⟨_, same⟩ := Prod.mk.inj same
        have cell' := Sce.view_cell_some slot'
        cases valid : m.valid with
        | false =>
          have one : m.frag.nrService = 1 := by simpa [valid] using ok
          have ended := turn.put_ends base.popNodup member found cell valid one cell'
          rw [show m'.cell.valid = m'.valid from rfl, same, valid] at ended
          cases ended
        | true =>
          have succeeds : failed = false := by simpa [valid] using ok
          obtain ⟨idle, spent⟩ : m.frag.nrService = 0 ∧ m.frag.nrValid = 0 :=
            by_contra fun stays => foreign (Or.inr ⟨valid, stays⟩)
          have dropped : (w.next (.put4pop p.id failed) reply s').sce.view.cell i p.task.lunFragnum = none := by
            rw [show (w.next (.put4pop p.id failed) reply s').sce.view = _ from view, succeeds]
            exact View.put4pop_drops found cell valid idle ((base.inv.spent_iff slot).mp spent)
          rw [dropped] at cell'
          cases cell'
      · intro closes k mapped
        refine ((own.touched i k).resolve_left fun same => ?_).2
        obtain ⟨a, there⟩ := Option.ne_none_iff_exists'.mp mapped
        obtain ⟨m₀, slot₀, _⟩ := base.inv.shape.slot_of_place there
        rw [show (w.next (.put4pop p.id failed) reply s').sce.slot i k = none from gone closes k, slot₀] at same
        cases same
    · intro owns
      obtain ⟨here, alone⟩ := owns ends i m looks slot
      -- a mapping of someone else is valid and not collected, and its LUN stays
      have foreign : w.born i p.task.lunFragnum ≠ p.id → w.sce.Untouched s' := by
        intro other
        obtain ⟨valid, stays⟩ := here.resolve_left other
        refine scePut4pop_idle base.inv looks slot (fun _ => ⟨valid, stays, ?_⟩) done
        refine Bool.eq_false_iff.mpr fun closes => other (alone closes _ ?_)
        rw [place]
        exact Option.some_ne_none _
      refine ⟨fun j k => ?_, fun orphan => foreign (orphan i _ (by rw [place]; exact Option.some_ne_none _))⟩
      by_cases e : j = i ∧ k = p.task.lunFragnum
      · obtain ⟨rfl, rfl⟩ := e
        by_cases own : w.born j p.task.lunFragnum = p.id
        · exact Or.inr ⟨by rw [place]; exact Option.some_ne_none _, own⟩
        · exact Or.inl (congrArg _ (foreign own).slot)
      · rcases turn.put_other base.popNodup member found e with same | ⟨rfl, _, l, lun, waiting, last⟩
        · left
          rw [kept, kept]
          exact congrArg _ same
        · have closes : w.sce.closes j = true := by
            obtain ⟨l₀, there, rfl⟩ := Option.map_eq_some_iff.mp (Sce.view_lun ▸ lun)
            have waiting : l₀.waiting4deletion = true := waiting
            have last : sub32 l₀.nrService 1 = 0 := last
            simp [Sce.closes, show w.sce.luntbl j = some l₀ from there, waiting, last]
          by_cases mapped : w.sce.place j k = none
          · left
            rw [show (w.next (.put4pop p.id failed) reply s').sce.slot j k = none from gone closes k,
              base.inv.shape.slot_none_iff.mpr mapped]
          · exact Or.inr ⟨mapped, alone closes k mapped⟩
  · refine ⟨fun _ accepted => absurd accepted ends, fun _ => still ?_⟩
    by_cases empty : ∀ i, w.Looks p i → w.sce.place i p.task.lunFragnum = none
    · exact (scePut4pop_unmapped empty done).2
    · simp only [not_forall] at empty
      obtain ⟨i, looks, mapped⟩ := empty
      obtain ⟨a, place⟩ := Option.ne_none_iff_exists'.mp mapped
      obtain ⟨m, slot, _⟩ := base.inv.shape.slot_of_place place
      refine scePut4pop_idle base.inv looks slot (fun ok => absurd ?_ ends) done
      have search : lunSearch w.sce p.task.lunctx = some i := looks
      simp only [Sce.ends, search, slot, Option.any_some, ok]

/-- A put touches the mapping of its own get only, exactly under the condition `Owns`. When it finds its own mapping or
none, another mapping is lost only with a LUN pending deletion, at the end of its last request. -/
theorem put4pop_owns_iff {p : Pop} {failed : Bool} (reached : Reachable exec allow init w) (member : p ∈ w.pops)
    (moves : w.exec (.put4pop p.id failed) = some w') : (w.OwnOnly w' p ↔ w.Owns p failed) ∧
      ((∀ i, w.Looks p i → w.sce.place i p.task.lunFragnum = none ∨ w.born i p.task.lunFragnum = p.id) →
        ∀ j k, w.sce.place j k = none ∨ w.born j k ≠ p.id → Spared w w' p j k) :=
  ⟨ownOnly_iff reached member moves, fun own => (put4pop_spares reached member own moves).1⟩

/-- Two populations on two devices, one of which is removed. -/
def orphaned : World :=
  after [.addcdev 2048 7 true, .addcdev 2048 8 true, .addlun 4096 9 true, .get4read 0 0 8, .get4pop fun _ _ => 0#32,
    .get4read 0 2048 8, .get4pop fun _ _ => 0#32, .rmcdev 1]

theorem orphaned_reachable : Reachable exec (fun _ _ => True) init orphaned := after_reachable (by decide +kernel)

/-- The put of the population that lost its mapping touches nothing. -/
theorem put4pop_owns_orphaned : ∃ w', orphaned.exec (.put4pop 4 false) = some w' ∧
    orphaned.OwnOnly w' ⟨4, ⟨9, 8, 0, 0⟩⟩ ∧ Spared orphaned w' ⟨4, ⟨9, 8, 0, 0⟩⟩ 0 1 := by
  have done : (orphaned.exec (.put4pop 4 false)).isSome = true := by decide +kernel
  obtain ⟨w', moves⟩ := Option.isSome_iff_exists.mp done
  have member : (⟨4, ⟨9, 8, 0, 0⟩⟩ : Pop) ∈ orphaned.pops := by decide +kernel
  have search : lunSearch orphaned.sce 9 = some 0 := by decide +kernel
  have empty : ∀ i, orphaned.Looks ⟨4, ⟨9, 8, 0, 0⟩⟩ i → orphaned.sce.place i 0 = none := by
    intro i looks
    obtain rfl := Option.some.inj (search.symm.trans looks)
    decide +kernel
  have owns : orphaned.Owns ⟨4, ⟨9, 8, 0, 0⟩⟩ false := by
    intro ends
    exact absurd ends (by decide +kernel)
  have both := put4pop_owns_iff orphaned_reachable member moves
  exact ⟨w', moves, both.1.mpr owns, both.2 (fun i looks => Or.inl (empty i looks)) 0 1 (Or.inr (by decide +kernel))⟩

/-- The device of a population goes, and its fragment is populated again on another one. -/
def replaced : World :=
  after [.addcdev 2048 7 true, .addcdev 2048 8 true, .addlun 4096 9 true, .get4read 0 0 8, .get4pop fun _ _ => 0#32,
    .rmcdev 1, .get4read 0 0 8, .get4pop fun _ _ => 0#32]

/-- The put of the first population makes valid the mapping of the second one, which has written nothing yet. -/
theorem put4pop_mistakes : Reachable exec (fun _ _ => True) init replaced ∧
    replaced.pops = [⟨7, ⟨9, 7, 0, 0⟩⟩, ⟨4, ⟨9, 8, 0, 0⟩⟩] ∧ replaced.born 0 0 = 7 ∧
    (replaced.sce.slot 0 0).any (fun m => !m.valid) = true ∧
    ∃ w', replaced.exec (.put4pop 4 false) = some w' ∧ (w'.sce.slot 0 0).any (fun m => m.valid) = true ∧
      w'.pops = [⟨7, ⟨9, 7, 0, 0⟩⟩] ∧ ¬ replaced.OwnOnly w' ⟨4, ⟨9, 8, 0, 0⟩⟩ := by
  have done : (replaced.exec (.put4pop 4 false)).any (fun w' => (w'.sce.slot 0 0).any fun m => m.valid) = true := by
    decide +kernel
  have rest : (replaced.exec (.put4pop 4 false)).map (fun w' => w'.pops) = some [⟨7, ⟨9, 7, 0, 0⟩⟩] := by decide +kernel
  have pending : (replaced.sce.slot 0 0).map (fun m => m.valid) = some false := by decide +kernel
  have born : replaced.born 0 0 = 7 := by decide +kernel
  obtain ⟨w', moves, valid⟩ := (Option.any_eq_true _ _).mp done
  obtain ⟨m', slot', valid'⟩ := (Option.any_eq_true _ _).mp valid
  rw [moves] at rest
  refine ⟨after_reachable (by decide +kernel), by decide +kernel, born, by decide +kernel, w', moves, valid,
    Option.some.inj rest, fun own => ?_⟩
  rcases own.touched 0 0 with same | ⟨_, id⟩
  · obtain ⟨m, slot, before⟩ := Option.map_eq_some_iff.mp pending
    rw [slot', slot] at same
    have both := (Prod.mk.inj (Option.some.inj same)).2
    rw [show m'.valid = true from valid', before] at both
    cases both
  · rw [born] at id
    cases id

/-- A LUN pending deletion with one fragment cached and another one being populated. -/
def parting : World :=
  after [.addcdev 4096 7 true, .addlun 4096 9 true, .get4read 0 0 8, .get4pop fun _ _ => 0#32, .put4pop 3 false,
    .get4read 0 2048 8, .get4pop fun _ _ => 0#32, .rmlun 0]

/-- The end of the population unmaps the other fragment, which is none of its own. -/
theorem put4pop_purges : Reachable exec (fun _ _ => True) init parting ∧
    (parting.pops.map fun p => (p.id, p.task.lunFragnum)) = [(6, 1)] ∧ parting.born 0 0 = 3 ∧
    (parting.sce.slot 0 0).any (fun m => m.valid) = true ∧
    (parting.exec (.put4pop 6 false)).any (fun w' => (w'.sce.slot 0 0).isNone) = true := by
  refine ⟨after_reachable (by decide +kernel), by decide +kernel, by decide +kernel, by decide +kernel, by decide +kernel⟩

end World

end Iostash
