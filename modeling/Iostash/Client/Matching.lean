import Iostash.Client.Settling
import Iostash.Client.Partition

/-!
# Every request counts once

While no cache device is removed, the requests outstanding are what the counts say: each mapping counts its reads
and its population, each LUN the sum of these. Every put is then taken, and a LUN that was asked to go leaves with
its last request.
-/

namespace Iostash

open Util

/-- A list counted by the values of a function. -/
theorem sum_countP {α : Type} {l : List α} {q : α → Bool} {g : α → Nat} {n : Nat} (inside : ∀ a ∈ l, q a = true → g a < n) :
    ∑ f ∈ Finset.range n, l.countP (fun a => q a && g a == f) = l.countP q := by
  induction l with
  | nil => simp
  | cons a l ih =>
    simp only [List.countP_cons, Finset.sum_add_distrib]
    rw [ih fun b member => inside b (List.mem_cons_of_mem _ member)]
    congr 1
    cases here : q a with
    | true =>
      have lt := inside a List.mem_cons_self here
      simp [lt]
    | false => simp

variable {b b' : Ledger} {now : Nat} {call : Call} {reply : Reply}

namespace Ledger

/-- The populations outstanding for a fragment of the LUN with a context. -/
def popsOn (b : Ledger) (ctx f : Nat) : Nat := b.pops.countP fun p => p.task.lunctx == ctx && p.task.lunFragnum == f

/-- The reads outstanding lie in their LUNs. -/
def Fits (b : Ledger) : Prop :=
  ∀ r ∈ b.reads, ∃ l, b.view.lun r.lunidx = some l ∧ r.sctrnum + r.nrSctr ≤ l.nrSctr

variable {i f : Nat} {c : Cell} {l : Volume}

/-- A mapping that is not valid has one population, one that is valid has none. -/
theorem Paired.popsOn_eq (paired : b.Paired) (named : b.view.Named) (nodup : (b.pops.map Pop.id).Nodup)
    (lun : b.view.lun i = some l) (cell : b.view.cell i f = some c) :
    b.popsOn l.lunctx f = if c.valid then 0 else 1 := by
  have same : ∀ p ∈ b.pops, p.task.lunctx = l.lunctx → p.task.lunFragnum = f → c.valid = false := by
    rintro p member ctx rfl
    obtain ⟨j, m, c₀, lun₀, ctx₀, cell₀, pending⟩ := paired.owns p member
    obtain rfl := named.inj j i m l lun₀ lun (ctx₀.symm.trans ctx)
    rwa [Option.some.inj (cell.symm.trans cell₀)]
  cases valid : c.valid with
  | true =>
    refine List.countP_eq_zero.mpr fun p member on => ?_
    simp only [Bool.and_eq_true, beq_iff_eq] at on
    have pending := same p member on.1 on.2
    rw [valid] at pending
    cases pending
  | false =>
    obtain ⟨_, p, member, m, lun₀, ctx, frag⟩ := paired.owned i f c cell valid
    obtain rfl := Option.some.inj (lun.symm.trans lun₀)
    -- every other population is on another fragment
    have only : ∀ q ∈ b.pops, (q.task.lunctx == l.lunctx && q.task.lunFragnum == f) = (q == p) := by
      intro q there
      rw [Bool.eq_iff_iff]
      simp only [Bool.and_eq_true, beq_iff_eq]
      constructor
      · rintro ⟨ctx', frag'⟩
        exact paired.apart q there p member (ctx'.trans ctx.symm) (frag'.trans frag.symm)
      · rintro rfl
        exact ⟨ctx, frag⟩
    rw [popsOn, List.countP_congr fun q there => by rw [only q there]]
    exact List.count_eq_one_of_mem (List.Nodup.of_map _ nodup) member

end Ledger

theorem Turn.fits (turn : Turn b now call reply b') (fits : b.Fits) (tallied : b'.Tallied) : b'.Fits := by
  have old : ∀ r ∈ b'.reads, r ∈ b.reads → ∃ l, b'.view.lun r.lunidx = some l ∧ r.sctrnum + r.nrSctr ≤ l.nrSctr := by
    intro r member there
    obtain ⟨l, lun, range⟩ := fits r there
    obtain ⟨l', lun'⟩ := Option.ne_none_iff_exists'.mp (tallied.reads r member)
    exact ⟨l', lun', by rw [(turn.same_ctx lun lun').2.1]; exact range⟩
  intro r member
  have came := turn.read_from member
  cases turn with
  | noop | addcdev | rmcdev | addlun | rmlunWait | rmlun | invalidate | pop | putPopFail | complete | stale | cancel =>
    exact old r member member
  | @readHit i x n ctx size c served =>
    rcases List.mem_cons.mp member with rfl | there
    · obtain ⟨l, lun, _, _, range, _⟩ := served
      refine ⟨{ l with service := u32 (l.service + 1) }, ?_, range⟩
      show ((b.view.setCell i _ _).setLun i _).lun i = _
      rw [View.setLun_lun, if_pos rfl, View.setCell_lun, lun]
      rfl
    · exact old r member there
  | putRead | putReadFail =>
    rcases came with there | ⟨called, _⟩
    · exact old r member there
    · cases called

/-! ### Runs without the removal of a device -/

namespace World

variable {w w' : World}

/-- The reads outstanding on fragment `f` of LUN `i`. -/
def readsOn (w : World) (i f : Nat) : Nat := w.reads.countP fun r => r.lunidx == i && r.fragnum == f

theorem ledger_readsOn (w : World) (i f : Nat) : w.ledger.readsOn (fun _ => true) i f = w.readsOn i f := by
  simp only [Ledger.readsOn, Bool.and_true]
  rfl

/-- No cache device is removed, LUNs have contexts of their own, and no fragment ever has 2^16 reads. -/
def Plain (w : World) (call : Call) : Prop :=
  w.Fresh call ∧
    match call with
    | .rmcdev _ => False
    | .get4read i x n => ∀ w', w.exec (.get4read i x n) = some w' → w'.readsOn i (u32 (x / sceSctrPerFrag)) < 2 ^ 16
    | _ => True

/-- Also, LUNs have no more fragments than `nr_frag` has room for, and no LUN has 2^32 - 1 requests when one starts. -/
def Matched (w : World) (call : Call) : Prop :=
  w.Plain call ∧ w.Roomy call ∧
    match call with
    | .addlun nrSctr _ _ => nrSctr ≤ 2 ^ 43
    | _ => True

instance (w : World) (call : Call) : Decidable (w.Plain call) :=
  match call with
  | .rmcdev _ => .isFalse fun ok => ok.2
  | .get4read i x n => decidable_of_iff
      (((w.exec (.get4read i x n)).all fun w' => decide (w'.readsOn i (u32 (x / sceSctrPerFrag)) < 2 ^ 16)) = true)
      (by simp [Plain, Fresh, Option.all_eq_true])
  | .addcdev _ _ _ | .addlun _ _ _ | .rmlun _ | .put4read _ | .invalidate _ _ _ | .get4pop _ | .put4pop _ _ =>
    inferInstanceAs (Decidable (_ ∧ True))

instance (w : World) (call : Call) : Decidable (w.Matched call) :=
  match call with
  | .addlun _ _ _ => inferInstanceAs (Decidable (_ ∧ _ ∧ _ ≤ _))
  | .addcdev _ _ _ | .rmcdev _ | .get4read _ _ _ | .rmlun _ | .put4read _ | .invalidate _ _ _ | .get4pop _
    | .put4pop _ _ => inferInstanceAs (Decidable (_ ∧ _ ∧ True))

/-- `sce_rmlun` was called for the LUN at `i`. -/
def Removing (w : World) (i : Nat) : Prop := ∃ t reply, w.attached i ≤ t ∧ w.event t = some ⟨.rmlun i, reply⟩

/-- A request is outstanding on LUN `i`, whose context is `ctx`. -/
def Waited (w : World) (i ctx : Nat) : Prop := (∃ r ∈ w.reads, r.lunidx = i) ∨ ∃ p ∈ w.pops, p.task.lunctx = ctx

structure Exact (w : World) : Prop where
  founded : w.Founded
  tallied : w.ledger.Tallied
  filled : w.ledger.Filled
  settled : w.ledger.Settled
  asked : w.Asked
  paired : w.ledger.Paired
  held : w.ledger.Held fun _ => true
  fits : w.ledger.Fits
  small : ∀ i l, w.sce.view.lun i = some l → l.nrSctr ≤ 2 ^ 43
  attached : ∀ i, w.attached i ≤ w.now
  removing : ∀ i l, w.sce.view.lun i = some l → l.waiting = true → w.Removing i

theorem Exact.init : World.init.Exact := by
  have none : ∀ i f, World.init.sce.view.cell i f = none := fun _ _ => rfl
  refine ⟨.init, tallied_init, Filled.init.filled, Settled.init.settled, .init, ⟨?_, ?_, ?_⟩, ⟨?_, ?_⟩, ?_, ?_,
    fun _ => Nat.le_refl 0, ?_⟩
  · intro i f c cell
    cases cell
  · intro p member
    cases member
  · intro p member
    cases member
  · intro r member
    cases member
  · intro i f c cell
    cases cell
  · intro r member
    cases member
  · intro i l lun
    cases lun
  · intro i l lun
    cases lun

theorem Removing.next {i : Nat} {s' : Sce} (h : w.Removing i) (present : w.sce.luntbl i ≠ none) :
    (w.next call reply s').Removing i := by
  obtain ⟨t, r, since, event⟩ := h
  refine ⟨t, r, ?_, event_ext.mpr (Or.inl event)⟩
  show (if s'.luntbl i ≠ none ∧ w.sce.luntbl i = none then w.now else w.attached i) ≤ t
  rw [if_neg fun both => present both.2]
  exact since

/-- Every put finds what it gives back. -/
theorem Exact.finds (h : w.Exact) : w.ledger.Finds call := by
  have sound := h.founded.base.inv.sound
  constructor
  · rintro r member -
    obtain ⟨c, cell, valid, _, used⟩ := h.held.busy member rfl
    obtain ⟨l, lun, range⟩ := h.fits r member
    have count := h.tallied.count _ _ lun
    have some : 0 < w.ledger.readsIn r.lunidx := List.countP_pos_iff.mpr ⟨r, member, by simp⟩
    have short := h.small _ _ lun
    obtain ⟨pos, _⟩ := h.founded.base.ranged r member
    refine ⟨l, c, lun, range, ?_, cell, valid, used, by omega⟩
    simp only [sceSctrPerFrag]
    omega
  · rintro p member failed -
    exact h.paired.put_ok sound h.founded.named member failed

theorem Exact.next (h : w.Exact) (ok : w.Matched call) (moves : w.exec call = some w') : w'.Exact := by
  obtain ⟨⟨fresh, plain⟩, roomy, ok⟩ := ok
  have base := h.founded.base
  have sound := base.inv.sound
  have named := h.founded.named
  have founded := h.founded.next fresh moves
  have tallied := h.founded.tallied_next h.tallied fresh roomy moves
  have room := roomy.ledger base
  obtain ⟨_, reply, same, turn⟩ := exec_turn base moves
  obtain ⟨s', rfl⟩ : ∃ s', w' = w.next call reply s' := ⟨_, same⟩
  have kept : ∀ d, call ≠ .rmcdev d := by
    rintro d rfl
    exact plain
  have filled : (w.next call reply s').ledger.Filled := turn.filled h.filled sound h.founded.owned h.tallied named room
    fun m ctx vmalloc called => (fresh.addlun base m ctx vmalloc called).2
  have fits := turn.fits h.fits tallied
  refine ⟨founded, tallied, filled, turn.settled h.settled h.finds named h.tallied tallied room,
    h.asked.next h.founded h.tallied roomy moves, ?_, ?_, fits, ?_, ?_, ?_⟩
  · refine turn.paired h.paired sound founded.base.inv.sound named base.popNodup (fun _ _ c _ _ => kept c.addr.dev) ?_
    intro p member i l lun ctx
    obtain ⟨j, l', lun', ctx'⟩ := tallied.pops p member
    rcases turn.lun lun' with ⟨l₀, old, back⟩ | ⟨m, ctx₁, vmalloc, called, _, absent, rfl⟩
    · obtain rfl := named.inj j i l₀ l old lun (back.1.symm.trans (ctx'.symm.trans ctx))
      rw [lun']
      exact Option.some_ne_none _
    · exact absurd (ctx.symm.trans ctx') ((fresh.addlun base m ctx₁ vmalloc called).2 i l lun)
  · refine turn.held h.held sound ?_ (fun _ _ _ _ => rfl) tallied.reads (fun _ _ _ _ => rfl) ?_
    · rintro r member -
      obtain ⟨c, cell, _, addr⟩ := h.held.there r member rfl
      obtain ⟨_, ctx, n, dev, _⟩ := sound.there _ _ c cell
      rw [addr] at dev
      refine ⟨rfl, ?_⟩
      rw [turn.dev_stays dev (kept _)]
      exact Option.some_ne_none _
    · rintro r c rfl new cell
      have few : (w.next _ reply s').readsOn r.lunidx r.fragnum < 2 ^ 16 := plain _ moves
      cases valid : c.valid with
      | true =>
        have bound := h.settled.bound _ _ c cell valid
        have count := Ledger.readsOn_cons new (fun _ => true) r.lunidx r.fragnum
        rw [if_pos ⟨rfl, rfl, rfl⟩] at count
        rw [← ledger_readsOn] at few
        omega
      | false =>
        have one := (h.paired.owned _ _ c cell valid).1
        omega
  · intro i l lun
    rcases turn.lun lun with ⟨l₀, old, back⟩ | ⟨m, ctx, vmalloc, rfl, _, _, rfl⟩
    · rw [back.2.1]
      exact h.small i l₀ old
    · exact ok
  · intro i
    show (if s'.luntbl i ≠ none ∧ w.sce.luntbl i = none then w.now else w.attached i) ≤ w.now + 1
    split
    · exact Nat.le_succ _
    · exact Nat.le_succ_of_le (h.attached i)
  · intro i l' lun' waiting
    have step := turn.lunTurn named h.tallied room i
    rw [show (w.next call reply s').ledger.view.lun i = some l' from lun'] at step
    generalize before : w.ledger.view.lun i = o at step
    have old : ∀ {l : Volume}, w.ledger.view.lun i = some l → l.waiting = true → (w.next call reply s').Removing i :=
      fun lun waits => (h.removing i _ lun waits).next (luntbl_ne_none lun)
    cases step with
    | still => exact old before waiting
    | attached => cases waiting
    | asked called =>
      subst called
      refine ⟨w.now, reply, ?_, event_ext.mpr (Or.inr ⟨rfl, rfl⟩)⟩
      show (if s'.luntbl i ≠ none ∧ w.sce.luntbl i = none then w.now else w.attached i) ≤ w.now
      rw [if_neg fun both => luntbl_ne_none before both.2]
      exact h.attached i
    | started _ active =>
      rw [active] at waiting
      cases waiting
    | ended => exact old before waiting

/-! ### What the counts say -/

/-- A put succeeds, or the sizes of the devices add up to too much for the free list to be kept. -/
def Taken (w : World) (op : Op) : Prop := Stops w.sce (w.sce.call op) ∨ ∃ s', w.sce.call op = .ok (.ret .success, s')

/-- The counts are those of the requests outstanding, every put is taken, and a LUN that `sce_rmlun` was called for has
requests outstanding. -/
structure Accounted (w : World) : Prop where
  frag : ∀ i l f m, w.sce.luntbl i = some l → w.sce.slot i f = some m → m.frag.nrService =
    w.readsOn i f + if w.pops.any (fun p => p.task.lunctx == l.lunctx && p.task.lunFragnum == f) then 1 else 0
  lun : ∀ i l, w.sce.luntbl i = some l →
    l.nrService = ∑ f ∈ Finset.range l.nrFrag, (w.sce.slot i f).elim 0 fun m => m.frag.nrService
  putRead : ∀ r ∈ w.reads, w.Taken (.put4read r.lunidx r.sctrnum r.nrSctr)
  putPop : ∀ p ∈ w.pops, ∀ failed, w.Taken (.put4pop p.task failed)
  waits : ∀ i l, w.sce.luntbl i = some l → l.waiting4deletion = true ∨ w.Removing i → w.Waited i l.lunctx

theorem volume {s : Sce} {i : Nat} {l : Lun} (lun : s.luntbl i = some l) : s.view.lun i = some l.volume := by
  rw [Sce.view_lun, lun]
  rfl

theorem waited_iff {i : Nat} {l : Volume} : w.Waited i l.lunctx ↔ w.ledger.due i l ≠ 0 := by
  rw [Ledger.due, ← Nat.pos_iff_ne_zero, Nat.add_pos_iff_pos_or_pos, Ledger.readsIn, Ledger.popsIn, List.countP_pos_iff,
    List.countP_pos_iff]
  simp only [beq_iff_eq]
  rfl

/-- The requests on a mapping. -/
theorem Exact.service (h : w.Exact) {i f : Nat} {l : Volume} {c : Cell} (lun : w.sce.view.lun i = some l)
    (cell : w.sce.view.cell i f = some c) : c.service = w.readsOn i f + w.ledger.popsOn l.lunctx f := by
  have pops := h.paired.popsOn_eq h.founded.named h.founded.base.popNodup lun cell
  rw [← ledger_readsOn, pops]
  cases valid : c.valid with
  | true =>
    have most := h.settled.bound i f c cell valid
    have least := h.held.enough i f c cell valid
    exact Nat.le_antisymm most least
  | false =>
    rw [h.held.none_on cell valid]
    exact (h.paired.owned i f c cell valid).1

/-- Nothing is outstanding on a fragment that is not mapped. -/
theorem Exact.quiet (h : w.Exact) {i f : Nat} {l : Volume} (lun : w.sce.view.lun i = some l)
    (empty : w.sce.view.cell i f = none) : w.readsOn i f = 0 ∧ w.ledger.popsOn l.lunctx f = 0 := by
  constructor
  · refine List.countP_eq_zero.mpr fun r member on => ?_
    simp only [Bool.and_eq_true, beq_iff_eq] at on
    obtain ⟨rfl, rfl⟩ := on
    obtain ⟨c, cell, _⟩ := h.held.there r member rfl
    cases empty.symm.trans cell
  · refine List.countP_eq_zero.mpr fun p member on => ?_
    simp only [Bool.and_eq_true, beq_iff_eq] at on
    obtain ⟨ctx, rfl⟩ := on
    obtain ⟨j, m, c, there, ctx', cell, _⟩ := h.paired.owns p member
    obtain rfl := h.founded.named.inj j i m l there lun (ctx'.symm.trans ctx)
    cases empty.symm.trans cell

/-- The requests on a LUN are those on its fragments. -/
theorem Exact.sum (h : w.Exact) {i : Nat} {l : Volume} (lun : w.sce.view.lun i = some l) :
    ∑ f ∈ Finset.range l.nrFrag, (w.readsOn i f + w.ledger.popsOn l.lunctx f) = l.service := by
  have inside : ∀ f c, w.sce.view.cell i f = some c → f < l.nrFrag := by
    intro f c cell
    obtain ⟨l', lun', lt⟩ := h.founded.base.inv.sound.inside i f c cell
    obtain rfl := Option.some.inj (lun.symm.trans lun')
    exact lt
  have reads : ∑ f ∈ Finset.range l.nrFrag, w.readsOn i f = w.ledger.readsIn i := by
    refine sum_countP fun r member on => ?_
    obtain rfl : r.lunidx = i := by simpa using on
    obtain ⟨c, cell, _⟩ := h.held.there r member rfl
    exact inside _ c cell
  have pops : ∑ f ∈ Finset.range l.nrFrag, w.ledger.popsOn l.lunctx f = w.ledger.popsIn l.lunctx := by
    refine sum_countP fun p member on => ?_
    have ctx : p.task.lunctx = l.lunctx := by simpa using on
    obtain ⟨j, m, c, there, ctx', cell, _⟩ := h.paired.owns p member
    obtain rfl := h.founded.named.inj j i m l there lun (ctx'.symm.trans ctx)
    exact inside _ c cell
  rw [Finset.sum_add_distrib, reads, pops]
  exact (h.settled.exact i l lun).symm

theorem Exact.accounted (h : w.Exact) : w.Accounted := by
  have base := h.founded.base
  refine ⟨?_, ?_, ?_, ?_, ?_⟩
  · intro i l f m lun slot
    have cell := Sce.view_cell_some slot
    have count : m.frag.nrService = w.readsOn i f + w.ledger.popsOn l.lunctx f := h.service (volume lun) cell
    have pops := h.paired.popsOn_eq h.founded.named base.popNodup (volume lun) cell
    have some : (w.pops.any fun p => p.task.lunctx == l.lunctx && p.task.lunFragnum == f) = true ↔
        0 < w.ledger.popsOn l.lunctx f := by
      rw [List.any_eq_true, Ledger.popsOn, List.countP_pos_iff]
      rfl
    have one : w.ledger.popsOn l.lunctx f ≤ 1 := by
      rw [show w.ledger.popsOn l.lunctx f = _ from pops]
      split <;> omega
    rw [count]
    split
    · rename_i any
      have := some.mp any
      omega
    · rename_i any
      have := mt some.mpr any
      omega
  · intro i l lun
    refine (h.sum (volume lun)).symm.trans (Finset.sum_congr rfl fun f _ => ?_)
    cases slot : w.sce.slot i f with
    | none =>
      have empty : w.sce.view.cell i f = none := by
        rw [Sce.view_cell, slot]
        rfl
      obtain ⟨reads, pops⟩ := h.quiet (volume lun) empty
      rw [reads, pops]
      rfl
    | some m => exact (h.service (volume lun) (Sce.view_cell_some slot)).symm
  · intro r member
    have finds : w.ledger.Finds (.put4read r.id) := h.finds
    have gives := finds.1 r member rfl
    obtain ⟨pos, short, one⟩ := base.ranged r member
    rcases scePut4read_spec base.inv r.lunidx pos short one with ⟨_, ⟨tight, stop⟩ | ⟨s', run, _⟩⟩ | ⟨idle, _⟩
    · exact Or.inl ⟨tight, by rw [Sce.call, stop]; rfl⟩
    · exact Or.inr ⟨s', by rw [Sce.call, run]; rfl⟩
    · exact absurd gives idle
  · intro p member failed
    have ends := h.paired.put_ok base.inv.sound h.founded.named member failed
    rcases scePut4pop_spec base.inv p.task failed with ⟨tight, stop⟩ | ⟨s', run, _⟩
    · exact Or.inl ⟨tight, by rw [Sce.call, stop]; rfl⟩
    · rw [show (w.sce.view.put4pop p.task failed).1 = .success from ends] at run
      exact Or.inr ⟨s', by rw [Sce.call, run]; rfl⟩
  · intro i l lun gone
    have waiting : l.volume.waiting = true := by
      rcases gone with flag | ⟨t, reply, since, event⟩
      · exact flag
      · exact h.asked i l.volume t reply (volume lun) since event
    show w.Waited i l.volume.lunctx
    rw [waited_iff, ← h.settled.exact i l.volume (volume lun)]
    exact h.settled.waits i _ (volume lun) waiting

/-- A LUN that a call finds goes with it exactly when `sce_rmlun` was called for it and nothing is outstanding after the
call. Its fragments are then on the free list. -/
theorem Exact.leaves (h : w.Exact) (ok : w.Matched call) (moves : w.exec call = some w') {i : Nat} {l : Lun}
    (lun : w.sce.luntbl i = some l) : (w'.sce.luntbl i = none ↔ w'.Removing i ∧ ¬ w'.Waited i l.lunctx) ∧
      (w'.sce.luntbl i = none → ∃ fl, FreeList w'.sce fl ∧ ∀ f m, w.sce.slot i f = some m → m.addr ∈ fl) := by
  have base := h.founded.base
  have h' := h.next ok moves
  have base' := h'.founded.base
  obtain ⟨_, reply, same, turn⟩ := exec_turn base moves
  have there : w.sce.luntbl i ≠ none := by
    rw [lun]
    exact Option.some_ne_none l
  have step := turn.lunTurn h.founded.named h.tallied (ok.2.1.ledger base) i
  rw [show w.ledger.view.lun i = some l.volume from volume lun] at step
  -- it goes with the call that asks for it, or with the put that ends its last request
  have goes : w'.sce.luntbl i = none → (call = .rmlun i ∨ call.isPut = true ∧ l.volume.waiting = true) ∧
      w'.ledger.due i l.volume = 0 := by
    intro gone
    have absent : w'.ledger.view.lun i = none := by
      show w'.sce.view.lun i = none
      rw [Sce.view_lun, gone]
      rfl
    have exact := h.settled.exact i l.volume (volume lun)
    rw [absent] at step
    cases step with
    | removed called idle due => exact ⟨Or.inl called, by omega⟩
    | left put due waiting last => exact ⟨Or.inr ⟨put, waiting⟩, by omega⟩
  refine ⟨⟨fun gone => ?_, ?_⟩, fun gone => ?_⟩
  · obtain ⟨why, done⟩ := goes gone
    refine ⟨?_, fun waits => (waited_iff (l := l.volume)).mp waits done⟩
    rw [same]
    rcases why with rfl | ⟨_, waiting⟩
    · refine ⟨w.now, reply, ?_, event_ext.mpr (Or.inr ⟨rfl, rfl⟩)⟩
      show (if w'.sce.luntbl i ≠ none ∧ w.sce.luntbl i = none then w.now else w.attached i) ≤ w.now
      rw [if_neg fun both => there both.2]
      exact h.attached i
    · exact (h.removing i _ (volume lun) waiting).next there
  · rintro ⟨removing, quiet⟩
    by_contra stays
    obtain ⟨l', lun'⟩ := Option.ne_none_iff_exists'.mp stays
    have ctx : l'.lunctx = l.lunctx := (turn.same_ctx (volume lun) (volume lun')).1
    refine quiet ?_
    rw [← ctx]
    exact h'.accounted.waits i l' lun' (Or.inr removing)
  · obtain ⟨fl, list⟩ := base'.inv.shape.free
    refine ⟨fl, list, fun f m slot => (list.mem _).mpr ?_⟩
    have cell := Sce.view_cell_some slot
    obtain ⟨named, ctx, n, dev, off⟩ := base.inv.sound.there i f _ cell
    have kept : call ≠ .rmcdev m.addr.dev := by
      rintro rfl
      exact ok.1.2
    rcases h'.filled.whole m.addr ctx n (turn.dev_stays dev kept) off named with free | ⟨j, k, c', cell', addr⟩
    · exact free
    · -- a mapping of another LUN was not made by this call
      have old : ∀ c, w.sce.view.cell j k = some c → c.addr = m.addr → False := by
        intro c here addr
        obtain ⟨rfl, _⟩ := base.inv.sound.inj i f m.cell j k c cell here addr
        obtain ⟨l', lun', _⟩ := base'.inv.sound.inside j k c' cell'
        exact luntbl_ne_none lun' gone
      cases turn.cell cell' with
      | kept here same => exact (old _ here (same.symm.trans addr)).elim
      | marked _ _ _ _ _ _ here now =>
        subst now
        exact (old _ here addr).elim
      | completed _ _ _ _ _ _ here _ now =>
        subst now
        exact (old _ here addr).elim
      | mapped called =>
        subst called
        rcases (goes gone).1 with called | ⟨put, _⟩
        · cases called
        · cases put

/-- The counts are exact in every such run, and a LUN that was asked to go leaves with its last request. -/
theorem service_exact (reached : Reachable exec Matched init w) : w.Accounted ∧
    ∀ call w' i l, w.Matched call → w.exec call = some w' → w.sce.luntbl i = some l →
      (w'.sce.luntbl i = none ↔ w'.Removing i ∧ ¬ w'.Waited i l.lunctx) ∧
      (w'.sce.luntbl i = none → ∃ fl, FreeList w'.sce fl ∧ ∀ f m, w.sce.slot i f = some m → m.addr ∈ fl) := by
  have h : w.Exact := reached.invariant .init fun _ _ _ h ok moves => h.next ok moves
  exact ⟨h.accounted, fun call w' i l ok moves lun => h.leaves ok moves lun⟩

/-- A LUN of one fragment that was asked to go, with one read outstanding. -/
def draining : World :=
  (execAll exec (fun w call => decide (w.Matched call)) init
    [.addcdev 2048 7 true, .addlun 2048 9 true, .get4read 0 0 8, .get4pop fun _ _ => 0#32, .put4pop 3 false,
      .get4read 0 0 8, .rmlun 0]).getD init

theorem draining_reachable : Reachable exec Matched init draining :=
  reachable_getD (fun _ _ ok => of_decide_eq_true ok) (by decide +kernel)

/-- The last put takes the LUN with it, and its fragment is free. -/
theorem service_exact_draining : ∃ w' fl, draining.exec (.put4read 5) = some w' ∧ w'.sce.luntbl 0 = none ∧
    FreeList w'.sce fl ∧ ⟨0, 0⟩ ∈ fl := by
  have done : (draining.exec (.put4read 5)).any (fun w' => (w'.sce.luntbl 0).isNone) = true := by decide +kernel
  have here : (draining.sce.luntbl 0).isSome = true := by decide +kernel
  have mapped : (draining.sce.slot 0 0).any (fun m => m.addr == ⟨0, 0⟩) = true := by decide +kernel
  obtain ⟨w', moves, gone⟩ := (Option.any_eq_true _ _).mp done
  obtain ⟨l, lun⟩ := Option.isSome_iff_exists.mp here
  obtain ⟨m, slot, addr⟩ := (Option.any_eq_true _ _).mp mapped
  have gone : w'.sce.luntbl 0 = none := by simpa using gone
  have ok : draining.Matched (.put4read 5) := by decide +kernel
  obtain ⟨fl, list, free⟩ := ((service_exact draining_reachable).2 _ w' 0 l ok moves lun).2 gone
  have member := free 0 m slot
  rw [show m.addr = ⟨0, 0⟩ by simpa using addr] at member
  exact ⟨w', fl, moves, gone, list, member⟩

/-- A LUN of 2^32 + 2 fragments, the first one cached, and a read of fragment 2^32. -/
def wrapped : World :=
  (execAll exec (fun w call => decide (w.Plain call)) init
    [.addcdev 2048 7 true, .addlun (2 ^ 43 + 2 ^ 12) 9 true, .get4read 0 0 8, .get4pop fun _ _ => 0#32,
      .put4pop 3 false, .get4read 0 (2 ^ 43) 8]).getD init

/-- The read is served from the first fragment, and its put is refused. -/
theorem put_refused : Reachable exec Plain init wrapped ∧ wrapped.reads = [⟨5, 0, 2 ^ 43, 8, ⟨0, 0⟩⟩] ∧
    (wrapped.sce.call (.put4read 0 (2 ^ 43) 8)).toOption.map Prod.fst = some (.ret .error) := by
  refine ⟨reachable_getD (fun _ _ ok => of_decide_eq_true ok) (by decide +kernel), by decide +kernel, by decide +kernel⟩

end World

end Iostash
