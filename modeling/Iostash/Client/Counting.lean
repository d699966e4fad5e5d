import Iostash.Client.Occupancy
import Mathlib.Algebra.BigOperators.Ring.Finset

/-!
# The occupancy statistics tell the truth

In a run of fair calls, a LUN without a population outstanding reports the fragments that are mapped and
valid and the usable sectors in them. Garbage collection of a fragment is one of the calls that are not fair.
-/

namespace Iostash

open Util

/-- The fragments of LUN `i` that are mapped and valid. -/
def Sce.validFrags (s : Sce) (i : Nat) : Nat :=
  ∑ f ∈ Finset.range ((s.luntbl i).elim 0 Lun.nrFrag), (s.slot i f).elim 0 fun m => if m.valid then 1 else 0

/-- The sum of `nr_valid` over them. -/
def Sce.validPages (s : Sce) (i : Nat) : Nat :=
  ∑ f ∈ Finset.range ((s.luntbl i).elim 0 Lun.nrFrag), (s.slot i f).elim 0 fun m => if m.valid then m.frag.nrValid else 0

/-- The counts of a LUN say what is mapped and valid. -/
def Lun.Truthful (l : Lun) (s : Sce) (i : Nat) : Prop :=
  l.stats.allocSctrs = (s.validFrags i : Nat) ∧ l.stats.validSctrs = (sceSctrPerPage * s.validPages i : Nat) ∧
    0 ≤ l.stats.allocSctrs ∧ 0 ≤ l.stats.validSctrs ∧ l.stats.validSctrs ≤ l.stats.allocSctrs * (sceSctrPerFrag : Nat)

theorem Sce.validPages_le {s : Sce} {i : Nat} (h : Inv nowhere s) : s.validPages i ≤ scePagePerFrag * s.validFrags i := by
  unfold validPages validFrags
  rw [Finset.mul_sum]
  apply Finset.sum_le_sum
  intro f _
  cases slot : s.slot i f with
  | none => exact Nat.zero_le _
  | some m =>
    simp only [Option.elim_some]
    split
    · rw [(h.pages i f m slot).2]
      exact clearCount_le _ _ _
    · exact Nat.zero_le _

namespace World

/-- A fair call, of which no count of a LUN is about to wrap. -/
def Fair (w : World) (call : Call) : Prop :=
  w.ledger.Roomy call ∧
    ((∃ past, call = .get4pop past ∧ choose4population w.sce past = none) ∨ w.ledger.Fair call)

structure Occupied (w : World) : Prop where
  base : w.Base
  named : w.sce.view.Named
  owned : w.ledger.Owned
  tallied : w.ledger.Tallied
  balanced : ∀ i l o, w.sce.view.lun i = some l → w.sce.counts i = some o → w.ledger.Balanced i l o

theorem Occupied.init : World.init.Occupied := by
  have none : ∀ i, World.init.sce.view.lun i = none := fun _ => rfl
  refine ⟨.init, ⟨?_, ?_⟩, ?_, ⟨?_, ?_, ?_, ?_⟩, ?_⟩
  · intro i l lun
    cases lun
  · intro i j l m lun
    cases lun
  · intro i f c cell
    cases cell
  · intro i l lun
    cases lun
  · intro i l lun
    cases lun
  · intro r member
    cases member
  · intro p member
    cases member
  · intro i l o lun
    cases lun

variable {w w' : World} {call : Call}

/-- The counts after a call are what the call wrote. -/
theorem next_counts {op : Op} {reply : Reply} {s' : Sce} {i : Nat} {o' : Int × Int} (base : w.Base)
    (named : w.op call = some op) (run : w.sce.call op = .ok (reply, s')) (here : s'.counts i = some o') :
    (∃ o, w.sce.counts i = some o ∧ o' = w.ledger.written (w.next call reply s').ledger call reply i o) ∨
      w.sce.luntbl i = none ∧ o' = 0 := by
  have counted := Sce.call_counts base.inv run here
  cases call with
  | addlun m ctx vmalloc =>
    obtain ⟨_, ⟨⟩⟩ := Option.ite_none_right_eq_some.mp named
    rcases counted with ⟨o, before, eq⟩ | ⟨_, _, _, _, _, absent, rfl⟩
    · exact Or.inl ⟨o, before, eq⟩
    · exact Or.inr ⟨absent, rfl⟩
  | get4read | invalidate =>
    obtain ⟨_, ⟨⟩⟩ := Option.ite_none_right_eq_some.mp named
    rcases counted with ⟨o, before, eq⟩ | ⟨_, _, _, ⟨⟩, _⟩
    exact Or.inl ⟨o, before, eq⟩
  | put4read id =>
    obtain ⟨r, found, rfl⟩ := Option.map_eq_some_iff.mp named
    rcases counted with ⟨o, before, eq⟩ | ⟨_, _, _, ⟨⟩, _⟩
    exact Or.inl ⟨o, before, eq⟩
  | put4pop id failed =>
    obtain ⟨p, found, rfl⟩ := Option.map_eq_some_iff.mp named
    rcases counted with ⟨o, before, eq⟩ | ⟨_, _, _, ⟨⟩, _⟩
    refine Or.inl ⟨o, before, ?_⟩
    have found : (w.ledger.pops.find? fun p => p.id == id) = some p := found
    simp only [Ledger.written, found, Option.elim_some]
    exact eq
  | addcdev | rmcdev | rmlun | get4pop =>
    obtain rfl := Option.some.inj named
    rcases counted with ⟨o, before, eq⟩ | ⟨_, _, _, ⟨⟩, _⟩
    exact Or.inl ⟨o, before, eq⟩

theorem Occupied.next (h : w.Occupied) (fair : w.Fair call) (moves : w.exec call = some w') : w'.Occupied := by
  obtain ⟨op, reply, s', named, run, rfl, base', turn⟩ := exec_run h.base moves
  obtain ⟨roomy, fair⟩ := fair
  have sound := h.base.inv.sound
  have fresh : ∀ m ctx vmalloc, call = .addlun m ctx vmalloc →
      ctx ≠ 0 ∧ ∀ i l, w.ledger.view.lun i = some l → l.lunctx ≠ ctx := by
    rintro m ctx vmalloc rfl
    rcases fair with ⟨_, ⟨⟩, _⟩ | fair
    exact fair
  have named' := turn.named h.named fresh
  have tallied' := turn.tallied h.tallied h.named roomy fun m ctx vmalloc called => (fresh m ctx vmalloc called).2
  refine ⟨base', named', turn.owned h.owned sound base'.inv.sound h.named h.base.popNodup, tallied', ?_⟩
  -- a call that populates nothing need not be fair
  have fair : reply.failed = true ∧ call.isPut = false ∨ w.ledger.Fair call := by
    rcases fair with ⟨past, rfl, nothing⟩ | fair
    · obtain rfl := Option.some.inj named
      have none : w.sce.call (.get4pop past) = .ok (.poptask none, w.sce) := by
        simp [Sce.call, sceGet4pop, nothing, Except.map]
      obtain ⟨rfl, _⟩ := Prod.mk.inj (Except.ok.inj (none.symm.trans run))
      exact Or.inl ⟨rfl, rfl⟩
    · exact Or.inr fair
  intro i l' o' lun' counts'
  rcases next_counts h.base named run counts' with ⟨o, counts, rfl⟩ | ⟨absent, rfl⟩
  · obtain ⟨l₀, lun₀, _⟩ := Option.map_eq_some_iff.mp counts
    have lun : w.ledger.view.lun i = some l₀.volume := by
      show w.sce.view.lun i = _
      rw [Sce.view_lun, lun₀]
      rfl
    exact turn.balanced sound h.named h.owned h.tallied h.base.popNodup fair lun lun' (h.balanced i _ o lun counts)
  · -- nothing is mapped in a new LUN, and nothing outstanding on it
    have gone : w.ledger.view.lun i = none := by
      show w.sce.view.lun i = _
      rw [Sce.view_lun, absent]
      rfl
    have cells : ∀ f, (w.next call reply s').ledger.view.cell i f = none := by
      intro f
      by_contra there
      obtain ⟨c, cell⟩ := Option.ne_none_iff_exists'.mp there
      have never : ∀ c, w.ledger.view.cell i f = some c → False := by
        intro c cell
        obtain ⟨l, lun, _⟩ := sound.inside i f c cell
        cases gone.symm.trans lun
      cases turn.cell cell with
      | kept cell | marked _ _ _ _ _ _ cell | completed _ _ _ _ _ _ cell => exact never _ cell
      | mapped _ _ present => cases gone.symm.trans present
    have nothing : ∀ φ, (w.next call reply s').ledger.view.total i φ = 0 :=
      fun φ => Finset.sum_eq_zero fun f _ => by rw [cells f, Option.elim_none]
    have quiet : (w.next call reply s').ledger.popsIn l'.lunctx = 0 := by
      rcases turn.lun lun' with ⟨l, lun, _⟩ | ⟨m, ctx, vmalloc, rfl, _, _, rfl⟩
      · cases gone.symm.trans lun
      · apply List.countP_eq_zero.mpr
        intro p member same
        rcases turn.pop_from h.base.popNodup member with ⟨old, _⟩ | ⟨_, _, _, _, called, _⟩
        · obtain ⟨k, l, lun, here⟩ := h.tallied.pops p old
          exact (fresh m ctx vmalloc rfl).2 k l lun (here.symm.trans (by simpa using same))
        · cases called
    unfold Ledger.Balanced
    rw [nothing, nothing, nothing, quiet]
    exact ⟨rfl, rfl⟩

theorem Occupied.of_reachable (reached : Reachable exec Fair World.init w) : w.Occupied :=
  reached.invariant .init fun _ _ _ h fair moves => h.next fair moves

/-- Without a population outstanding on it, the counts of a LUN are true. -/
theorem stats_true {i : Nat} {l : Lun} (reached : Reachable exec Fair init w) (lun : w.sce.luntbl i = some l)
    (quiet : ∀ p ∈ w.pops, p.task.lunctx ≠ l.lunctx) : l.Truthful w.sce i := by
  have h := Occupied.of_reachable reached
  have volume : w.sce.view.lun i = some l.volume := by
    rw [Sce.view_lun, lun]
    rfl
  have counts : w.sce.counts i = some l.counts := by
    rw [Sce.counts, lun]
    rfl
  obtain ⟨alloc, valid⟩ := h.balanced i l.volume l.counts volume counts
  have none : w.ledger.popsIn l.volume.lunctx = 0 :=
    List.countP_eq_zero.mpr fun p member same => quiet p member (beq_iff_eq.mp same)
  have all : ∀ f m, w.sce.slot i f = some m → m.valid = true := by
    intro f m slot
    by_contra pending
    obtain ⟨_, p, member, l', lun', ctx, _⟩ := h.owned i f m.cell (Sce.view_cell_some slot)
      (Bool.eq_false_iff.mpr pending)
    obtain rfl := Option.some.inj (volume.symm.trans lun')
    exact quiet p member ctx
  have size : (w.sce.view.lun i).elim 0 Volume.nrFrag = (w.sce.luntbl i).elim 0 Lun.nrFrag := by
    rw [volume, lun]
    rfl
  have sum : ∀ (φ : Nat → Cell → Nat) (ψ : Slot → Nat), (∀ f m, w.sce.slot i f = some m → φ f m.cell = ψ m) →
      w.sce.view.total i φ = ∑ f ∈ Finset.range ((w.sce.luntbl i).elim 0 Lun.nrFrag), (w.sce.slot i f).elim 0 ψ := by
    intro φ ψ same
    unfold View.total
    rw [size]
    apply Finset.sum_congr rfl
    intro f _
    rw [Sce.view_cell]
    cases slot : w.sce.slot i f with
    | none => rfl
    | some m => exact same f m slot
  have frags : w.sce.view.total i (fun _ _ => 1) = w.sce.validFrags i :=
    sum _ _ fun f m slot => by simp [all f m slot]
  have pages : w.sce.view.total i (fun _ => Cell.pages) = w.sce.validPages i :=
    sum _ _ fun f m slot => by
      rw [if_pos (all f m slot)]
      exact (h.base.inv.pages i f m slot).2.symm
  have hidden : w.sce.view.total i l.volume.hidden = 0 := by
    refine (sum _ (fun _ => 0) fun f m slot => ?_).trans (Finset.sum_eq_zero fun f _ => ?_)
    · exact if_pos (all f m slot)
    · cases w.sce.slot i f <;> rfl
  have alloc : l.stats.allocSctrs = (w.sce.validFrags i : Nat) := by
    have alloc : l.stats.allocSctrs + ((w.ledger.popsIn l.volume.lunctx : Nat) : Int) =
      (w.sce.view.total i (fun _ _ => 1) : Nat) := alloc
    rw [none, frags] at alloc
    simpa using alloc
  have valid : l.stats.validSctrs = (sceSctrPerPage * w.sce.validPages i : Nat) := by
    have valid : l.stats.validSctrs + ((sceSctrPerFrag * w.ledger.popsIn l.volume.lunctx : Nat) : Int) =
      (sceSctrPerPage * (w.sce.view.total i (fun _ => Cell.pages) + w.sce.view.total i l.volume.hidden) : Nat) := valid
    rw [none, pages, hidden] at valid
    simpa using valid
  have bound := Sce.validPages_le (i := i) h.base.inv
  refine ⟨alloc, valid, by rw [alloc]; exact Int.natCast_nonneg _, by rw [valid]; exact Int.natCast_nonneg _, ?_⟩
  rw [alloc, valid]
  simp only [sceSctrPerPage, sceSctrPerFrag, scePagePerFrag] at bound ⊢
  omega

/-- A check of the calls that populate one fragment. -/
def populates (w : World) (call : Call) : Bool :=
  let luns := (List.range sceMaxLun).filterMap fun i => (w.sce.luntbl i).map fun l => (i, l)
  (!call.isGet || luns.all fun p => decide (p.2.nrService + 1 < 2 ^ 32)) &&
    match call with
    | .addcdev _ _ _ => true
    | .addlun _ ctx _ => decide (ctx ≠ 0) && luns.all fun p => decide (p.2.lunctx ≠ ctx)
    | .get4read _ _ _ => true
    | .get4pop _ => decide (w.sce.freefraglist ≠ 0#32)
    | .put4pop id false => w.pops.all fun p => decide (p.id ≠ id) || luns.all fun q =>
        decide (q.2.lunctx ≠ p.task.lunctx) || (w.sce.slot q.1 p.task.lunFragnum).all fun m =>
        !m.valid && !m.cell.spent &&
          (List.range scePagePerFrag).all fun k => !View.tailBad q.2.nrSctr q.2.nrFrag p.task.lunFragnum k
    | _ => false

theorem populates_fair (base : w.Base) (ok : w.populates call = true) : w.Fair call := by
  have listed : ∀ {i : Nat} {l : Volume}, w.sce.view.lun i = some l → ∃ l₀ : Lun, l₀.volume = l ∧
      (i, l₀) ∈ (List.range sceMaxLun).filterMap fun i => (w.sce.luntbl i).map fun l => (i, l) := by
    intro i l lun
    obtain ⟨l₀, here, rfl⟩ := Option.map_eq_some_iff.mp (Sce.view_lun ▸ lun)
    exact ⟨l₀, rfl, List.mem_filterMap.mpr
      ⟨i, List.mem_range.mpr (base.inv.sound.lun i _ lun).1, by rw [here]; rfl⟩⟩
  unfold populates at ok
  obtain ⟨roomy, ok⟩ := Bool.and_eq_true_iff.mp ok
  refine ⟨?_, Or.inr ?_⟩
  · intro get i l lun
    obtain ⟨l₀, rfl, member⟩ := listed lun
    rw [get, Bool.not_true, Bool.false_or] at roomy
    exact of_decide_eq_true (List.all_eq_true.mp roomy _ member)
  · cases call with
    | addcdev | get4read => exact trivial
    | addlun m ctx vmalloc =>
      simp only [Bool.and_eq_true, decide_eq_true_eq] at ok
      refine ⟨ok.1, fun i l lun => ?_⟩
      obtain ⟨l₀, rfl, member⟩ := listed lun
      exact of_decide_eq_true (List.all_eq_true.mp ok.2 _ member)
    | get4pop past =>
      obtain ⟨fl, list⟩ := base.inv.shape.free
      left
      by_contra none
      exact of_decide_eq_true ok (list.empty_iff.mpr fun a free => none ⟨a, free⟩)
    | put4pop id failed =>
      cases failed with
      | true => cases ok
      | false =>
        rintro p member rfl i l c lun ctx cell
        obtain ⟨l₀, rfl, listed⟩ := listed lun
        obtain ⟨m, slot, rfl⟩ := Option.map_eq_some_iff.mp (Sce.view_cell ▸ cell)
        have here := List.all_eq_true.mp ok p member
        simp only [ne_eq, not_true, decide_false, Bool.false_or] at here
        have here := List.all_eq_true.mp here _ listed
        have same : l₀.lunctx = p.task.lunctx := ctx
        simp only [same, not_true, decide_false, Bool.false_or, slot, Option.all_some, Bool.and_eq_true,
          Bool.not_eq_true', List.all_eq_true, List.mem_range] at here
        obtain ⟨⟨pending, alive⟩, whole⟩ := here
        have pending : m.cell.valid = false := pending
        apply Or.inr
        rw [pending]
        refine ⟨fun k => ?_, alive⟩
        by_cases lt : k < scePagePerFrag
        · exact whole k lt
        · simp [View.tailBad, lt]
    | _ => cases ok

theorem fair_of_populates (reached : Reachable exec (fun w call => w.populates call = true) init w) :
    Reachable exec Fair init w := by
  refine (reached.invariant (I := fun w => w.Base ∧ Reachable exec Fair World.init w) ⟨.init, .init⟩ ?_).2
  intro w call w' h ok moves
  exact ⟨(exec_turn h.1 moves).1, h.2.next (populates_fair h.1 ok) moves⟩

/-- One device, one LUN, and one fragment populated. -/
def populated : World :=
  (Util.execAll exec populates init [.addcdev 4096 7 true, .addlun 4096 9 true, .get4read 0 0 8, .get4pop fun _ _ => 0#32,
    .put4pop 3 false]).getD init

theorem populated_reachable : Reachable exec Fair init populated :=
  fair_of_populates (Util.reachable_getD (fun _ _ ok => ok) (by decide +kernel))

theorem stats_true_populated : ∃ l, populated.sce.luntbl 0 = some l ∧ l.Truthful populated.sce 0 := by
  have pops : populated.pops = [] := by decide +kernel
  have here : (populated.sce.luntbl 0).isSome = true := by decide +kernel
  obtain ⟨l, lun⟩ := Option.isSome_iff_exists.mp here
  refine ⟨l, lun, stats_true populated_reachable lun ?_⟩
  rw [pops]
  exact fun p member => nomatch member

/-- The only fragment of a LUN, populated and then invalidated as a whole. -/
def collected : World :=
  after [.addcdev 4096 7 true, .addlun 4096 9 true, .get4read 0 0 8, .get4pop fun _ _ => 0#32, .put4pop 3 false,
    .invalidate 0 0 2048]

/-- Garbage collection leaves the fragment counted as allocated. -/
theorem stats_stale : Reachable exec (fun _ _ => True) init collected ∧ collected.pops = [] ∧
    collected.sce.counts 0 = some (1, 0) ∧ collected.sce.validFrags 0 = 0 :=
  ⟨after_reachable (by decide +kernel), by decide +kernel, by decide +kernel, by decide +kernel⟩

end World

end Iostash
