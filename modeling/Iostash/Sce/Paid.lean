import Mathlib.Data.Finset.Card
import Iostash.Sce.Reuse

/-!
# What a population is paid with

A fragment is copied into the cache on account of misses: each miss pays for one population at most. A LUN that gets
the index of an older one inherits what is in the miss log for it.
-/

namespace Iostash

open Util

namespace Sce

/-- The fragments in the window whose count of misses is not 0. -/
def hot (s : Sce) : Finset (Nat × Nat) := s.window.toFinset.filter fun e => 0 < (s.heat e.1 e.2).getD 0

/-- The fragments in the window that are called fragments of LUN `i`. -/
def heirs (s : Sce) (i : Nat) : Finset (Nat × Nat) := s.window.toFinset.filter fun e => e.1 = i

end Sce

/-- The reply is a population. -/
def Reply.populates : Reply → Bool
  | .poptask t => t.isSome
  | _ => false

/-- An engine, and what there was in its run: misses, fragments inherited by LUNs, and populations. -/
structure Paid where
  sce : Sce
  misses : Nat
  inherited : Nat
  populations : Nat

namespace Paid

def init : Paid := ⟨sceCreate, 0, 0, 0⟩

def next (c : Paid) (op : Op) (reply : Reply) (s' : Sce) : Paid where
  sce := s'
  misses := c.misses + (op.missed c.sce reply).isSome.toNat
  inherited := c.inherited + (op.added reply).elim 0 fun i => (c.sce.heirs i).card
  populations := c.populations + reply.populates.toNat

def observer : Observer Paid := ⟨Paid.sce, init, next, rfl, fun _ _ _ _ => rfl⟩

abbrev Reached (c : Paid) : Prop := observer.Reached c

end Paid

variable {s s' : Sce} {op : Op} {reply : Reply} {i f : Nat} {e : Nat × Nat} {c c' : Paid}

/-! ### The hot fragments -/

namespace Sce

theorem mem_hot : e ∈ s.hot ↔ e ∈ s.window ∧ ∃ n, s.heat e.1 e.2 = some n ∧ 0 < n := by
  unfold hot
  rw [Finset.mem_filter, List.mem_toFinset]
  cases s.heat e.1 e.2 with
  | none => simp
  | some n => simp

theorem mem_heirs : e ∈ s.heirs i ↔ e ∈ s.window ∧ e.1 = i := by
  unfold heirs
  rw [Finset.mem_filter, List.mem_toFinset]

theorem hot_card_le : s.hot.card ≤ sceMissWindow := by
  have length : s.window.length = min sceMissWindow s.misslogSize := by simp [window]
  calc s.hot.card ≤ s.window.toFinset.card := Finset.card_filter_le _ _
    _ ≤ s.window.length := List.toFinset_card_le _
    _ ≤ sceMissWindow := length ▸ Nat.min_le_left _ _

/-- What is spared is not heated. -/
theorem Spares.hot {out : Nat → Nat → Prop} (spares : s.Spares out s') (here : e ∈ s'.hot) (off : ¬ out e.1 e.2) :
    e ∈ s.hot := by
  obtain ⟨member, n, heat, pos⟩ := mem_hot.mp here
  exact mem_hot.mpr ⟨window_congr spares.misslog ▸ member, n, spares.heat _ _ _ off heat, pos⟩

/-- A miss heats its own fragment and no other. -/
theorem Misses.hot (misses : s.Misses i f s') (log : ∃ hist, Logged hist s) : s'.hot ⊆ insert (i, f) s.hot := by
  intro e here
  obtain ⟨member, n, heat, pos⟩ := mem_hot.mp here
  rw [Finset.mem_insert]
  by_cases same : e = (i, f)
  · exact Or.inl same
  · obtain ⟨hist, log⟩ := log
    have log' : Logged ((i, f) :: hist) s' := .other (.put i f log) misses.misslog
    rw [log'.window, show sceMissWindow = 99 + 1 from rfl, List.take_succ_cons] at member
    have earlier : e ∈ s.window := by
      rw [log.window]
      exact (List.take_subset_take_left hist (by decide)) ((List.mem_cons.mp member).resolve_left same)
    rw [misses.others e.1 e.2 fun both => same (Prod.ext both.1 both.2)] at heat
    exact Or.inr (mem_hot.mpr ⟨earlier, n, heat, pos⟩)

/-- A population that is given out is of a hot fragment that is not mapped. -/
theorem get4pop_hot {past : Nat → Nat → Word} {task : Poptask} (h : Inv nowhere s)
    (run : sceGet4pop s past = .ok (some task, s')) : ∃ i f a, (i, f) ∈ s.hot ∧ s.place i f = none ∧
      s'.place i f = some a := by
  rcases sceGet4pop_spares h run with ⟨fails, _⟩ | ⟨_, i, f, a, chosen, _, here, _⟩
  · cases fails
  · have top : Hottest _ _ s.front (i, f) := pick_iff.mp (choose4population_eq.symm.trans chosen)
    obtain ⟨clear, warm⟩ := top.holds
    have member : (i, f) ∈ s.window := List.takeWhile_subset _ top.mem
    obtain ⟨l, lun, inside⟩ : ∃ l, s.luntbl i = some l ∧ f < l.nrFrag := by
      unfold sceGet4pop at run
      rw [chosen] at run
      obtain ⟨⟨p, t⟩, alloc, run⟩ := Except.bind_eq_ok run
      unfold alloc4population at alloc
      split at alloc
      · cases alloc
        cases run
      · rename_i l lun
        split at alloc
        · cases alloc
          cases run
        · rename_i inside
          exact ⟨l, lun, Nat.not_le.mp inside⟩
    have seen : s.seen past (i, f) = l.fragmap f := by simp [Sce.seen, lun, readFragmap, inside]
    rw [seen] at clear
    have empty : s.place i f = none := by
      rw [← Option.not_isSome_iff_eq_none, Option.isSome_iff_exists]
      rintro ⟨b, there⟩
      obtain ⟨l', lun', _, isMap, _⟩ := place_eq_some.mp there
      obtain rfl := Option.some.inj (lun.symm.trans lun')
      rw [isMap] at clear
      cases clear
    refine ⟨i, f, a, mem_hot.mpr ⟨member, s.seenWarmth past (i, f), ?_, warm⟩, empty, here⟩
    unfold heat seenWarmth
    rw [empty, seen]
    simp [entry, lun, inside]

end Sce

/-! ### What a call spends -/

/-- Only `sce_get4pop` replies with a population, and it is of a hot fragment that is mapped now. -/
theorem Sce.populates_hot (h : Inv nowhere s) (run : s.call op = .ok (reply, s')) (pop : reply.populates = true) :
    ∃ i f a, (i, f) ∈ s.hot ∧ s.place i f = none ∧ s'.place i f = some a := by
  cases op with
  | get4pop past =>
    obtain ⟨⟨task, t⟩, done, same⟩ := Except.map_eq_ok.mp run
    obtain ⟨rfl, rfl⟩ := Prod.mk.inj same
    obtain ⟨task, rfl⟩ := Option.isSome_iff_exists.mp pop
    exact get4pop_hot h done
  | _ =>
    obtain ⟨⟨_, t⟩, _, same⟩ := Except.map_eq_ok.mp run
    obtain ⟨rfl, _⟩ := Prod.mk.inj same
    cases pop

theorem Op.missed_populates (miss : op.missed s reply = some e) : reply.populates = false := by
  unfold missed at miss
  split at miss
  · rfl
  · cases miss

theorem Op.added_populates (add : op.added reply = some i) : reply.populates = false := by
  unfold added at add
  split at add
  · rfl
  · cases add

/-- A population takes a hot fragment away. What there is more is paid for. -/
theorem Sce.call_spends (h : Inv nowhere s) (log : ∃ hist, Logged hist s) (typed : op.InType)
    (run : s.call op = .ok (reply, s')) : reply.populates.toNat + s'.hot.card ≤
      s.hot.card + (op.missed s reply).isSome.toNat + (op.added reply).elim 0 fun i => (s.heirs i).card := by
  cases call_tells h typed run with
  | @missed i f miss add misses =>
    rw [Op.missed_populates miss, miss, add]
    have grows : s'.hot.card ≤ s.hot.card + 1 := (Finset.card_le_card (misses.hot log)).trans (Finset.card_insert_le _ _)
    simpa using grows
  | @added i miss add spares clear fresh =>
    rw [Op.added_populates add, miss, add]
    have within : s'.hot ⊆ s.hot ∪ s.heirs i := by
      intro e here
      rw [Finset.mem_union]
      by_cases own : e.1 = i
      · exact Or.inr (mem_heirs.mpr ⟨window_congr spares.misslog ▸ (mem_hot.mp here).1, own⟩)
      · exact Or.inl (spares.hot here own)
    have grows : s'.hot.card ≤ s.hot.card + (s.heirs i).card :=
      (Finset.card_le_card within).trans (Finset.card_union_le _ _)
    simpa using grows
  | @mapped i f a miss add spares clear here cold =>
    rw [miss, add]
    have less : s'.hot ⊆ s.hot.erase (i, f) := by
      intro e there
      have ne : e ≠ (i, f) := by
        rintro rfl
        obtain ⟨_, n, heat, pos⟩ := mem_hot.mp there
        obtain rfl := Option.some.inj (cold.symm.trans heat)
        exact Nat.lt_irrefl 0 pos
      exact Finset.mem_erase.mpr ⟨ne, spares.hot there fun both => ne (Prod.ext both.1 both.2)⟩
    have few := Finset.card_le_card less
    cases pop : reply.populates with
    | false => simpa using few.trans (Finset.card_erase_le)
    | true =>
      obtain ⟨j, k, b, member, empty, there⟩ := populates_hot h run pop
      have same : (j, k) = (i, f) := by
        by_contra ne
        have kept := spares.place j k b (fun both => ne (Prod.ext both.1 both.2)) there
        rw [empty] at kept
        cases kept
      rw [same] at member
      have fewer := Finset.card_erase_add_one member
      simp
      omega
  | spared miss add spares =>
    have refused : reply.populates = false := by
      cases pop : reply.populates with
      | false => rfl
      | true =>
        obtain ⟨j, k, b, _, empty, there⟩ := populates_hot h run pop
        have kept := spares.place j k b id there
        rw [empty] at kept
        cases kept
    rw [miss, add, refused]
    have few : s'.hot.card ≤ s.hot.card := Finset.card_le_card fun e here => spares.hot here id
    simpa using few

/-! ### Runs -/

namespace Paid

/-- From one state of a run to a later one, populations are paid for with what was hot and what has come since. -/
theorem spends (here : c.sce.Reached) (later : Reachable observer.exec (fun _ op => op.InType) c c') :
    c'.populations + c'.sce.hot.card + c.misses + c.inherited ≤
      c.populations + c.sce.hot.card + c'.misses + c'.inherited := by
  refine (Observer.later later here (I := fun c' => c'.populations + c'.sce.hot.card + c.misses + c.inherited ≤
    c.populations + c.sce.hot.card + c'.misses + c'.inherited) le_rfl ?_).2
  intro b op reply s' here typed run before
  have step := Sce.call_spends here.inv here.logged typed run
  simp only [observer, next]
  simp only [observer] at before step
  omega

/-- In every run there are no more populations than misses, and fragments that new LUNs inherited from the miss log.
Once neither come any more, the populations come to an end after as many as there are hot fragments, 100 at most. -/
theorem populations_paid (h : c.Reached) : c.populations + c.sce.hot.card ≤ c.misses + c.inherited ∧
    c.sce.hot.card ≤ sceMissWindow ∧
    ∀ c', Reachable observer.exec (fun _ op => op.InType) c c' → c'.misses = c.misses → c'.inherited = c.inherited →
      c'.populations + c'.sce.hot.card ≤ c.populations + c.sce.hot.card := by
  refine ⟨?_, Sce.hot_card_le, ?_⟩
  · have total := spends (c := init) .init h
    have none : (init.sce.hot).card = 0 := by decide
    have start : init.populations = 0 ∧ init.misses = 0 ∧ init.inherited = 0 := ⟨rfl, rfl, rfl⟩
    omega
  · intro c' later misses inherited
    have since := spends h.sce later
    omega

/-- Two misses, a population for one of them, and a LUN that inherits both. -/
def copiedOne : Paid := observer.after [.addcdev 4096 7 true, .addlun 4096 9 true, .get4read 0 0 8, .get4read 0 2048 8,
  .get4pop fun _ _ => 0#32, .put4pop ⟨9, 7, 1, 0⟩ false, .rmlun 0, .addlun 4096 10 true]

theorem populations_paid_copiedOne : copiedOne.populations = 1 ∧ copiedOne.misses = 2 ∧ copiedOne.inherited = 2 ∧
    copiedOne.populations + copiedOne.sce.hot.card ≤ copiedOne.misses + copiedOne.inherited ∧
    copiedOne.sce.hot.card ≤ sceMissWindow := by
  have bound := populations_paid (c := copiedOne) (Observer.after_reached (by decide +kernel))
  exact ⟨by decide +kernel, by decide +kernel, by decide +kernel, bound.1, bound.2.1⟩

end Paid

end Iostash
