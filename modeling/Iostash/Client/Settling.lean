import Iostash.Client.Holding

/-!
# What a LUN counts, and when it goes

A turn changes the count of a LUN with the requests due on it, one at a time. A LUN pending deletion goes with
the last of them, if the read that ends it is the last one on its mapping.
-/

namespace Iostash

open Util

namespace Ledger

/-- The requests outstanding on a LUN. -/
def due (b : Ledger) (i : Nat) (l : Volume) : Nat := b.readsIn i + b.popsIn l.lunctx

/-- A put finds what it gives back. -/
def Finds (b : Ledger) (call : Call) : Prop :=
  (∀ r ∈ b.reads, call = .put4read r.id → b.view.inService r.lunidx r.sctrnum r.nrSctr) ∧
    ∀ p ∈ b.pops, ∀ failed, call = .put4pop p.id failed → (b.view.put4pop p.task failed).1 = .success

/-- What a turn makes of a LUN and of the requests due on it. -/
inductive LunTurn (b b' : Ledger) (call : Call) (j : Nat) : Option Volume → Option Volume → Prop
  | absent : LunTurn b b' call j none none
  | still {l : Volume} (due : b.Finds call → b'.due j l = b.due j l) : LunTurn b b' call j (some l) (some l)
  | attached {m ctx : Nat} {vmalloc : Bool} (called : call = .addlun m ctx vmalloc)
      (due : b'.due j ⟨ctx, m, lunFrags m, 0, false⟩ = b.due j ⟨ctx, m, lunFrags m, 0, false⟩) :
      LunTurn b b' call j none (some ⟨ctx, m, lunFrags m, 0, false⟩)
  | asked {l : Volume} (called : call = .rmlun j) (busy : 0 < l.service) (due : b'.due j l = b.due j l) :
      LunTurn b b' call j (some l) (some { l with waiting := true })
  | removed {l : Volume} (called : call = .rmlun j) (idle : l.service = 0) (due : b'.due j l = b.due j l) :
      LunTurn b b' call j (some l) none
  | started {l : Volume} (get : call.isGet = true) (active : l.waiting = false) (due : b'.due j l = b.due j l + 1) :
      LunTurn b b' call j (some l) (some { l with service := l.service + 1 })
  | ended {l : Volume} (put : call.isPut = true) (due : b.due j l = b'.due j l + 1)
      (stays : l.waiting = true → l.service = 1 → ∃ r ∈ b.reads, call = .put4read r.id ∧ r.lunidx = j ∧
        ∃ c, b.view.cell j r.fragnum = some c ∧ c.valid = true ∧ c.service ≠ 1 ∧ c.service ≠ 0) :
      LunTurn b b' call j (some l) (some { l with service := l.service - 1 })
  | left {l : Volume} (put : call.isPut = true) (due : b.due j l = b'.due j l + 1) (waiting : l.waiting = true)
      (last : l.service = 1) : LunTurn b b' call j (some l) none

end Ledger

variable {b b' : Ledger} {now j k : Nat} {call : Call} {reply : Reply} {l : Volume} {c' : Cell}

theorem View.unpin_lun {v : View} {i f : Nat} {c : Cell} (cell : v.cell i f = some c) : (v.unpin i f).lun j =
    if j = i then
      if c.service = 1 then
        ((v.lun j).map fun l => { l with service := l.service - 1 }).filter fun l => !(l.waiting && l.service == 0)
      else (v.lun j).map fun l => { l with service := l.service - 1 }
    else v.lun j := by
  obtain ⟨u, hu⟩ : ∃ u, u = (v.setCell i f fun c => { c with service := c.service - 1 }).setLun i
      fun l => { l with service := l.service - 1 } := ⟨_, rfl⟩
  have luns : u.lun j = if j = i then (v.lun j).map fun l => { l with service := l.service - 1 } else v.lun j := by
    rw [hu, View.setLun_lun, View.setCell_lun]
  unfold View.unpin
  simp only [cell, ← hu, Option.any_some, beq_iff_eq]
  by_cases last : c.service = 1
  · rw [if_pos last, if_pos last, View.collect_lun, luns]
    by_cases e : j = i
    · rw [if_pos e, if_pos e, if_pos e]
    · rw [if_neg e, if_neg e, if_neg e]
  · rw [if_neg last, if_neg last, luns]

/-- A LUN pending deletion whose last request has ended goes. -/
theorem Ledger.LunTurn.of_filter (put : call.isPut = true) (due : b.due j l = b'.due j l + 1) (busy : 0 < l.service)
    {o : Option Volume} (after : o = (some { l with service := l.service - 1 }).filter fun l =>
      !(l.waiting && l.service == 0)) : b.LunTurn b' call j (some l) o := by
  subst after
  rw [Option.filter_some]
  cases gone : l.waiting && l.service - 1 == 0 with
  | true =>
    simp only [Bool.and_eq_true, beq_iff_eq] at gone
    rw [if_neg (by simp)]
    exact .left put due gone.1 (by omega)
  | false =>
    rw [if_pos Bool.not_false]
    refine .ended put due fun waiting last => ?_
    rw [waiting, last] at gone
    cases gone

theorem Turn.lunTurn (turn : Turn b now call reply b') (named : b.view.Named) (tallied : b.Tallied)
    (roomy : b.Roomy call) (j : Nat) : b.LunTurn b' call j (b.view.lun j) (b'.view.lun j) := by
  -- the table is as it was, and so are the requests
  have same : b'.view.lun j = b.view.lun j → (∀ l, b.view.lun j = some l → b.Finds call → b'.due j l = b.due j l) →
      b.LunTurn b' call j (b.view.lun j) (b'.view.lun j) := by
    intro luns due
    rw [luns]
    cases lun : b.view.lun j with
    | none => exact .absent
    | some l => exact .still (due l lun)
  have held : ∀ {i : Nat} {l : Volume}, b.view.lun i = some l → b.due i l ≤ l.service := fun lun => tallied.count _ _ lun
  -- a population that ends on LUN `i`
  have ended : ∀ {p : Pop} {before after : List Pop} {i : Nat} {l : Volume} {v u : View},
      b.pops = before ++ p :: after → b.view.lun i = some l → l.lunctx = p.task.lunctx → call.isPut = true →
      b' = ⟨v, b.reads, before ++ after⟩ → u.lun = (b.view.release i).lun →
      (∀ j, v.lun j = if j = i then (u.lun j).filter (fun l => !(l.waiting && l.service == 0)) else u.lun j) →
      b.LunTurn b' call j (b.view.lun j) (b'.view.lun j) := by
    rintro p before after i l v u split present ctx put rfl luns swept
    have count := Ledger.popsIn_split split v
    by_cases e : j = i
    · subst e
      have due : b.due j l = (⟨v, b.reads, before ++ after⟩ : Ledger).due j l + 1 := by
        have one := count l.lunctx
        rw [if_pos ctx.symm] at one
        exact (congrArg (b.readsIn j + ·) one).trans (Nat.add_assoc _ _ _).symm
      have busy : 0 < l.service := by
        have := held present
        omega
      rw [present]
      refine .of_filter put due busy ?_
      show v.lun j = _
      rw [swept, if_pos rfl, luns, View.release, View.setLun_lun, if_pos rfl, present, Option.map_some,
        sub32_of_le busy (tallied.small j l present)]
    · refine same ?_ fun m here _ => ?_
      · show v.lun j = _
        rw [swept, if_neg e, luns, View.release, View.setLun_lun, if_neg e]
      · have other := count m.lunctx
        rw [if_neg fun same => e (named.inj j i m l here present (same.symm.trans ctx.symm))] at other
        exact congrArg (b.readsIn j + ·) other.symm
  cases turn with
  | noop | addcdev | rmcdev | invalidate => exact same rfl fun _ _ _ => rfl
  | @addlun m ctx i vmalloc slot absent =>
    by_cases e : j = i
    · subst e
      rw [absent]
      show b.LunTurn _ _ j none (if j = j then _ else _)
      rw [if_pos rfl]
      exact .attached rfl rfl
    · exact same (if_neg e) fun _ _ _ => rfl
  | @rmlunWait i l present busy =>
    by_cases e : j = i
    · subst e
      show b.LunTurn _ _ j _ ((b.view.setLun j _).lun j)
      rw [View.setLun_lun, if_pos rfl, present]
      exact .asked rfl busy rfl
    · exact same (if_neg e) fun _ _ _ => rfl
  | @rmlun i l present idle =>
    by_cases e : j = i
    · subst e
      show b.LunTurn _ _ j _ ((b.view.purge j).lun j)
      rw [View.purge_lun, if_pos rfl, present]
      exact .removed rfl idle rfl
    · exact same (if_neg e) fun _ _ _ => rfl
  | @readHit i x n ctx size c served =>
    obtain ⟨l, present, active, _⟩ := served
    by_cases e : j = i
    · subst e
      have more : u32 (l.service + 1) = l.service + 1 := u32_of_lt (roomy rfl j l present)
      show b.LunTurn _ _ j _ (((b.view.setCell j _ _).setLun j _).lun j)
      rw [View.setLun_lun, if_pos rfl, View.setCell_lun, present, Option.map_some, more]
      refine .started rfl active ?_
      simp only [Ledger.due, Ledger.readsIn, Ledger.popsIn, List.countP_cons, beq_self_eq_true, if_true]
      omega
    · refine same (if_neg e) fun m _ _ => ?_
      simp [Ledger.due, Ledger.readsIn, Ledger.popsIn, Ne.symm e]
  | @putRead r before after split busy =>
    obtain ⟨l, c, present, _, _, cell, valid, used, counted⟩ := busy
    have cell : b.view.cell r.lunidx r.fragnum = some c := cell
    have count := Ledger.readsIn_split split (b.view.unpin r.lunidx r.fragnum)
    by_cases e : j = r.lunidx
    · subst e
      have due : b.due r.lunidx l =
          (⟨b.view.unpin r.lunidx r.fragnum, before ++ after, b.pops⟩ : Ledger).due r.lunidx l + 1 := by
        have one := count r.lunidx
        rw [if_pos rfl] at one
        simp only [Ledger.due, one, Ledger.popsIn]
        omega
      show b.LunTurn _ _ r.lunidx _ ((b.view.unpin r.lunidx r.fragnum).lun r.lunidx)
      rw [View.unpin_lun cell, if_pos rfl, present, Option.map_some]
      by_cases last : c.service = 1
      · rw [if_pos last]
        exact .of_filter rfl due (Nat.pos_of_ne_zero counted) rfl
      · rw [if_neg last]
        exact .ended rfl due fun _ _ => ⟨r, by rw [split]; simp, rfl, rfl, c, cell, valid, last, used⟩
    · refine same ?_ fun m _ _ => ?_
      · exact (View.unpin_lun cell).trans (if_neg e)
      · have other := count j
        rw [if_neg fun same => e same.symm] at other
        exact congrArg (· + b.popsIn m.lunctx) other.symm
  | @putReadFail r before after split idle =>
    refine same rfl fun _ _ finds => absurd (finds.1 r (by rw [split]; simp) rfl) idle
  | @pop past i f ctx size a l present active =>
    by_cases e : j = i
    · subst e
      have more : u32 (l.service + 1) = l.service + 1 := u32_of_lt (roomy rfl j l present)
      show b.LunTurn _ _ j _ ((((b.view.seize a).enter j f _).setLun j _).lun j)
      rw [View.setLun_lun, if_pos rfl]
      show b.LunTurn _ _ j _ ((b.view.lun j).map _)
      rw [present, Option.map_some, more]
      refine .started rfl active ?_
      simp only [Ledger.due, Ledger.readsIn, Ledger.popsIn, List.countP_cons, beq_self_eq_true, if_true]
      omega
    · refine same (if_neg e) fun m here _ => ?_
      have other : l.lunctx ≠ m.lunctx := fun ctx => e (named.inj j i m l here present ctx.symm)
      simp [Ledger.due, Ledger.readsIn, Ledger.popsIn, other]
  | @putPopFail p before after failed split fails =>
    refine same rfl fun _ _ finds => ?_
    have ok := finds.2 p (by rw [split]; simp) failed rfl
    rw [fails] at ok
    cases ok
  | @complete p before after i l c split found present ctx =>
    exact ended split present ctx rfl rfl (u := (b.view.setCell i p.task.lunFragnum _).release i) rfl
      fun j => View.collect_lun
  | @stale p before after i l c split found present ctx =>
    exact ended split present ctx rfl rfl (u := b.view.release i) rfl fun j => View.collect_lun
  | @cancel p before after i l c split found present ctx =>
    exact ended split present ctx rfl rfl (u := (b.view.drop i p.task.lunFragnum).release i) rfl
      fun j => View.settle_lun

/-- A LUN pending deletion that stays is pending deletion. -/
theorem Ledger.LunTurn.waiting {l' : Volume} (step : b.LunTurn b' call j (some l) (some l')) (waiting : l.waiting = true) :
    l'.waiting = true := by
  cases step with
  | still => exact waiting
  | asked => rfl
  | started _ active =>
    rw [active] at waiting
    cases waiting
  | ended => exact waiting

/-! ### Runs whose puts find what they give back -/

namespace Ledger

/-- A LUN counts exactly the requests due on it, a mapping no more than the reads on it, and a LUN pending deletion
still has requests. -/
structure Settled (b : Ledger) : Prop where
  exact : ∀ i l, b.view.lun i = some l → l.service = b.due i l
  bound : ∀ i f c, b.view.cell i f = some c → c.valid = true → c.service ≤ b.readsOn (fun _ => true) i f
  waits : ∀ i l, b.view.lun i = some l → l.waiting = true → l.service ≠ 0

theorem readsOn_le (b : Ledger) (live : Read → Bool) (i f : Nat) : b.readsOn live i f ≤ b.readsIn i :=
  List.countP_mono_left fun r _ on => by
    simp only [Bool.and_eq_true] at on
    exact on.1.1

end Ledger

theorem Turn.bound (turn : Turn b now call reply b') (settled : b.Settled) (finds : b.Finds call) (cell : b'.view.cell j k = some c')
    (valid : c'.valid = true) : c'.service ≤ b'.readsOn (fun _ => true) j k := by
  cases turn.service cell valid with
  | completed _ _ idle _ =>
    rw [idle]
    exact Nat.zero_le _
  | kept cell valid same _ exact =>
    rw [same, exact finds.1]
    exact settled.bound _ _ _ cell valid
  | pinned cell valid more _ new _ on =>
    have old := settled.bound _ _ _ cell valid
    rw [more, Ledger.readsOn_cons new, if_pos ⟨on.1, on.2, rfl⟩]
    exact (Nat.mod_le _ _).trans (Nat.add_le_add_right old 1)
  | unpinned cell valid _ less _ split rest _ on =>
    have old := settled.bound _ _ _ cell valid
    have count := Ledger.readsOn_split split rest (fun _ => true) j k
    rw [if_pos ⟨on.1, on.2, rfl⟩] at count
    omega

theorem Turn.settled (turn : Turn b now call reply b') (settled : b.Settled) (finds : b.Finds call)
    (named : b.view.Named) (tallied : b.Tallied) (tallied' : b'.Tallied) (roomy : b.Roomy call) : b'.Settled := by
  have lunTurn := turn.lunTurn named tallied roomy
  refine ⟨?_, fun i f c cell valid => turn.bound settled finds cell valid, ?_⟩
  · intro i l' lun'
    have step := lunTurn i
    rw [lun'] at step
    generalize before : b.view.lun i = o at step
    cases step with
    | still due =>
      rw [due finds]
      exact settled.exact i _ before
    | attached called due =>
      have none := tallied'.count i _ lun'
      exact (Nat.le_zero.mp none).symm
    | @asked l called busy due =>
      exact (settled.exact i l before).trans due.symm
    | @started l get active due =>
      have old := settled.exact i l before
      show l.service + 1 = b'.due i l
      omega
    | @ended l put due stays =>
      have old := settled.exact i l before
      show l.service - 1 = b'.due i l
      omega
  · intro i l' lun' waiting
    have step := lunTurn i
    rw [lun'] at step
    generalize before : b.view.lun i = o at step
    cases step with
    | still due => exact settled.waits i _ before waiting
    | attached => cases waiting
    | asked called busy => exact Nat.pos_iff_ne_zero.mp busy
    | started get active =>
      rw [active] at waiting
      cases waiting
    | @ended l put due stays =>
      have old := settled.exact i l before
      have waits := settled.waits i l before waiting
      intro last
      have last : l.service - 1 = 0 := last
      obtain ⟨r, member, _, _, c, cell, valid, many, used⟩ := stays waiting (by omega)
      have bound := settled.bound i _ c cell valid
      have few := b.readsOn_le (fun _ => true) i r.fragnum
      have one : b.readsIn i ≤ b.due i l := Nat.le_add_right _ _
      omega

/-! ### Over runs -/

/-- The guards of `sce_put4read` for a read. -/
def Sce.gives (s : Sce) (r : Read) : Bool :=
  ((s.luntbl r.lunidx).any fun l => decide (r.sctrnum + r.nrSctr ≤ l.nrSctr) && l.nrService != 0) &&
    decide (r.sctrnum / sceSctrPerFrag < 2 ^ 32) && s.inUse r.lunidx r.fragnum

/-- The guards of `sce_put4pop` for a population. -/
def Sce.ends (s : Sce) (p : Pop) (failed : Bool) : Bool :=
  (lunSearch s p.task.lunctx).any fun i => (s.slot i p.task.lunFragnum).any fun m =>
    m.valid && !failed || !m.valid && m.frag.nrService == 1

theorem Sce.gives_inService {s : Sce} {r : Read} (gives : s.gives r = true) :
    s.view.inService r.lunidx r.sctrnum r.nrSctr := by
  simp only [Sce.gives, Sce.inUse, Bool.and_eq_true, Option.any_eq_true, decide_eq_true_eq, bne_iff_ne] at gives
  obtain ⟨⟨⟨l, lun, range, counted⟩, small⟩, m, slot, valid, used⟩ := gives
  refine ⟨l.volume, m.cell, ?_, range, small, ?_, valid, used, counted⟩
  · rw [Sce.view_lun, lun]
    rfl
  · exact Sce.view_cell_some slot

theorem Sce.ends_success {s : Sce} {p : Pop} {failed : Bool} (ends : s.ends p failed = true) :
    (s.view.put4pop p.task failed).1 = .success := by
  simp only [Sce.ends, Option.any_eq_true, Bool.or_eq_true, Bool.and_eq_true, Bool.not_eq_true', beq_iff_eq] at ends
  obtain ⟨i, found, m, slot, good⟩ := ends
  have cell := Sce.view_cell_some slot
  have found : s.view.search p.task.lunctx = some i := Sce.view_search.trans found
  unfold View.put4pop
  rw [found]
  rcases good with ⟨valid, rfl⟩ | ⟨pending, one⟩
  · have valid : m.cell.valid = true := valid
    simp [View.complete, cell, valid]
  · have pending : m.cell.valid = false := pending
    have one : m.cell.service = 1 := one
    cases failed <;> simp [View.complete, View.cancel, cell, pending, one]

namespace World

variable {w w' : World}

/-- LUNs have contexts of their own, no LUN has 2^32 - 1 requests, and a put finds what it gives back. -/
def Settles (w : World) (call : Call) : Prop :=
  w.Fresh call ∧ w.Roomy call ∧
    match call with
    | .put4read id => ∀ r ∈ w.reads, r.id = id → w.sce.gives r = true
    | .put4pop id failed => ∀ p ∈ w.pops, p.id = id → w.sce.ends p failed = true
    | _ => True

instance (w : World) (call : Call) : Decidable (w.Settles call) :=
  match call with
  | .put4read _ => inferInstanceAs (Decidable (_ ∧ _ ∧ ∀ r ∈ w.reads, _ → _))
  | .put4pop _ _ => inferInstanceAs (Decidable (_ ∧ _ ∧ ∀ p ∈ w.pops, _ → _))
  | .addcdev _ _ _ | .rmcdev _ | .addlun _ _ _ | .rmlun _ | .get4read _ _ _ | .invalidate _ _ _ | .get4pop _ =>
    inferInstanceAs (Decidable (_ ∧ _ ∧ True))

theorem Settles.finds (ok : w.Settles call) : w.ledger.Finds call := by
  constructor
  · rintro r member rfl
    exact Sce.gives_inService (ok.2.2 r member rfl)
  · rintro p member failed rfl
    exact Sce.ends_success (ok.2.2 p member rfl)

/-- A LUN present that has been asked to go is pending deletion. -/
def Asked (w : World) : Prop := ∀ i l t reply, w.sce.view.lun i = some l → w.attached i ≤ t →
  w.event t = some ⟨.rmlun i, reply⟩ → l.waiting = true

theorem Asked.init : World.init.Asked := by
  intro i l t reply lun
  cases lun

theorem luntbl_ne_none {s : Sce} {i : Nat} {l : Volume} (lun : s.view.lun i = some l) : s.luntbl i ≠ none := by
  intro none
  have lun : (s.luntbl i).map Lun.volume = some l := Sce.view_lun ▸ lun
  rw [none] at lun
  cases lun

/-- After `sce_rmlun` a LUN has gone or is pending deletion. -/
theorem rmlun_waiting {i : Nat} {s' : Sce} (base : w.Base) (run : w.sce.call (.rmlun i) = .ok (reply, s'))
    (lun : w.sce.view.lun i ≠ none) (lun' : s'.view.lun i = some l) : l.waiting = true := by
  obtain ⟨_, effect⟩ := Sce.call_effect base.inv (show (Op.rmlun i).Typed from trivial) run
  generalize s'.view = v' at effect lun'
  cases effect with
  | rmlunFail absent => exact absurd absent lun
  | rmlunWait =>
    obtain ⟨l₀, _, rfl⟩ := View.setLun_lun_some lun'
    rw [if_pos rfl]
  | rmlun =>
    rw [View.purge_lun, if_pos rfl] at lun'
    cases lun'

theorem Asked.next (h : w.Asked) (founded : w.Founded) (tallied : w.ledger.Tallied) (roomy : w.Roomy call)
    (moves : w.exec call = some w') : w'.Asked := by
  have base := founded.base
  obtain ⟨op, reply, s', named, run, rfl, base', turn⟩ := exec_run base moves
  intro i l' t r lun' since event
  have since : (if s'.luntbl i ≠ none ∧ w.sce.luntbl i = none then w.now else w.attached i) ≤ t := since
  rcases turn.lun lun' with ⟨l, lun, _⟩ | ⟨m, ctx, vmalloc, called, _, absent, rfl⟩
  · rw [if_neg fun both => luntbl_ne_none lun both.2] at since
    rcases event_ext.mp event with old | ⟨rfl, e⟩
    · have step := turn.lunTurn founded.named tallied (roomy.ledger base) i
      rw [lun, show (w.next call reply s').ledger.view.lun i = some l' from lun'] at step
      exact step.waiting (h i l t r lun since old)
    · obtain ⟨rfl, rfl⟩ := Event.mk.inj e
      obtain rfl : Op.rmlun i = op := Option.some.inj named
      have there : w.sce.view.lun i ≠ none := by
        rw [show w.sce.view.lun i = some l from lun]
        exact Option.some_ne_none l
      exact rmlun_waiting base run there lun'
  · rcases event_ext.mp event with old | ⟨rfl, e⟩
    · have gone : w.sce.luntbl i = none := Option.map_eq_none_iff.mp (Sce.view_lun ▸ absent)
      rw [if_pos ⟨luntbl_ne_none lun', gone⟩] at since
      exact absurd (event_lt old) (Nat.not_lt_of_le since)
    · rw [← (Event.mk.inj e).1] at called
      cases called

/-- A run in which every put finds what it gives back. -/
structure Settled (w : World) : Prop where
  founded : w.Founded
  tallied : w.ledger.Tallied
  settled : w.ledger.Settled
  asked : w.Asked

theorem Settled.init : World.init.Settled := by
  refine ⟨.init, tallied_init, ⟨?_, ?_, ?_⟩, .init⟩
  · intro i l lun
    cases lun
  · intro i f c cell
    cases cell
  · intro i l lun
    cases lun

theorem Settled.next (h : w.Settled) (ok : w.Settles call) (moves : w.exec call = some w') : w'.Settled := by
  have founded := h.founded.next ok.1 moves
  have tallied := h.founded.tallied_next h.tallied ok.1 ok.2.1 moves
  obtain ⟨_, reply, _, turn⟩ := exec_turn h.founded.base moves
  exact ⟨founded, tallied, turn.settled h.settled ok.finds h.founded.named h.tallied tallied
    (ok.2.1.ledger h.founded.base), h.asked.next h.founded h.tallied ok.2.1 moves⟩

/-- When all requests have been put, no LUN counts one, and a LUN that `sce_rmlun` was called for has gone. -/
theorem requests_settled (reached : Reachable exec Settles init w) (reads : w.reads = []) (pops : w.pops = []) {i : Nat}
    {l : Lun} (lun : w.sce.luntbl i = some l) : l.nrService = 0 ∧ l.waiting4deletion = false ∧
      ∀ t reply, w.event t = some ⟨.rmlun i, reply⟩ → t < w.attached i := by
  have h : w.Settled := reached.invariant .init fun _ _ _ h ok moves => h.next ok moves
  have volume : w.sce.view.lun i = some l.volume := by
    rw [Sce.view_lun, lun]
    rfl
  have none : l.volume.service = 0 := by
    rw [h.settled.exact i _ volume]
    simp [Ledger.due, Ledger.readsIn, Ledger.popsIn, World.ledger, reads, pops]
  have active : l.waiting4deletion = false :=
    Bool.eq_false_iff.mpr fun waiting => h.settled.waits i _ volume waiting none
  refine ⟨none, active, fun t reply event => ?_⟩
  by_contra since
  have waiting : l.waiting4deletion = true := h.asked i _ t reply volume (Nat.le_of_not_lt since) event
  rw [active] at waiting
  cases waiting

/-- A LUN of one fragment, cached and read, asked to go, and another one. -/
def drain : List Call :=
  [.addcdev 2048 7 true, .addlun 2048 9 true, .addlun 2048 10 true, .get4read 0 0 8, .get4pop fun _ _ => 0#32,
    .put4pop 4 false, .get4read 0 0 8, .get4read 0 0 8, .rmlun 0, .put4read 6, .put4read 7]

def drained : World := (execAll exec (fun w call => decide (w.Settles call)) init drain).getD init

theorem drained_reachable : Reachable exec Settles init drained :=
  reachable_getD (fun _ _ ok => of_decide_eq_true ok) (by decide +kernel)

/-- The LUN that was asked to go has gone with its last read, and the other one counts nothing. -/
theorem requests_settled_drained : (drained.sce.luntbl 0).isSome = false ∧
    ∃ l, drained.sce.luntbl 1 = some l ∧ l.nrService = 0 ∧ l.waiting4deletion = false := by
  refine ⟨by decide +kernel, ?_⟩
  obtain ⟨l, lun⟩ := Option.isSome_iff_exists.mp (show (drained.sce.luntbl 1).isSome = true by decide +kernel)
  have settled := requests_settled drained_reachable (by decide +kernel) (by decide +kernel) lun
  exact ⟨l, lun, settled.1, settled.2.1⟩

/-- The cache device goes while a fragment is being read, and the read is put. -/
def leak : List Call :=
  [.addcdev 2048 7 true, .addlun 2048 9 true, .get4read 0 0 8, .get4pop fun _ _ => 0#32, .put4pop 3 false,
    .get4read 0 0 8, .rmcdev 0, .rmlun 0, .put4read 5]

def leaked : World := (execAll exec (fun w call => decide (w.Fresh call ∧ w.Roomy call)) init leak).getD init

/-- Nothing is outstanding, and the LUN stays for good with a request counted. -/
theorem requests_leaked : Reachable exec (fun w call => w.Fresh call ∧ w.Roomy call) init leaked ∧
    leaked.reads = [] ∧ leaked.pops = [] ∧
    (leaked.sce.luntbl 0).any (fun l => l.nrService == 1 && l.waiting4deletion) = true ∧
    (leaked.event 7).any (fun e => e.reply == .ret .success) = true := by
  refine ⟨reachable_getD (fun _ _ ok => of_decide_eq_true ok) (by decide +kernel), by decide +kernel,
    by decide +kernel, by decide +kernel, by decide +kernel⟩

end World

end Iostash
