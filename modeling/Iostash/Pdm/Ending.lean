import Iostash.Pdm.Thread

/-!
# Every population is ended

As long as `read_poptask` succeeds and each LUN is added under a context of its own, a thread puts each
population it gets before its iteration is over. A failure of `read_poptask` skips the put.
-/

namespace Iostash

namespace Pdm

open Util

variable {e e' : Engine} {call : Call} {reply : Reply} {p p' : System} {t t' : Thread} {env : Env} {id : Nat}

/-! ### The engine -/

structure Engine.Kept (e : Engine) : Prop where
  base : e.world.Base
  readNodup : (e.world.reads.map Read.id).Nodup
  named : e.world.sce.view.Named
  active : e.world.sce.view.Active
  paired : e.world.ledger.Paired
  counted : e.world.ledger.Counted e.readRefs

theorem Engine.kept_init : Engine.init.Kept := by
  refine ⟨.init, List.nodup_nil, ⟨?_, ?_⟩, ?_, ⟨?_, ?_, ?_⟩, ?_, fun _ => Nat.le_refl 0, fun _ _ => rfl⟩
  · intro i l lun
    cases lun
  · intro i j l m lun
    cases lun
  · intro i l lun
    cases lun
  · intro i f c cell
    cases cell
  · intro p member
    cases member
  · intro p member
    cases member
  · intro i l lun
    cases lun

theorem Engine.exec_turn (base : e.world.Base) (moves : e.exec call = some (reply, e')) :
    e'.world.Base ∧ e'.world = e.world.next call reply e'.world.sce ∧
      Turn e.world.ledger e.world.now call reply e'.world.ledger ∧
      e'.readRefs = e.world.ledger.nextRefs e.readRefs call reply := by
  obtain ⟨w, ran, replied⟩ := Option.bind_eq_some_iff.mp moves
  obtain ⟨base', r, next, turn⟩ := World.exec_turn base ran
  rw [next] at replied
  obtain ⟨rfl, rfl⟩ := Prod.mk.inj (Option.some.inj replied)
  exact ⟨next ▸ base', rfl, next ▸ turn, rfl⟩

/-- Calls that remove nothing and name each LUN anew. -/
def Engine.Gentle (e : Engine) (call : Call) : Prop :=
  (∀ d, call ≠ .rmcdev d) ∧ (∀ i, call ≠ .rmlun i) ∧
    ∀ m ctx vmalloc, call = .addlun m ctx vmalloc → ctx ≠ 0 ∧ lunSearch e.world.sce ctx = none

theorem Engine.Permits.gentle (permits : e.Permits call) : e.Gentle call := by
  cases call with
  | addlun =>
    refine ⟨by simp, by simp, ?_⟩
    rintro m ctx vmalloc ⟨⟩
    exact permits
  | rmcdev | rmlun | get4pop | put4pop => exact permits.elim
  | _ => exact ⟨by simp, by simp, by simp⟩

theorem Engine.Kept.step (kept : e.Kept) (gentle : e.Gentle call) (moves : e.exec call = some (reply, e')) :
    e'.Kept := by
  obtain ⟨base', _, turn, refs⟩ := Engine.exec_turn kept.base moves
  obtain ⟨devices, luns, names⟩ := gentle
  have fresh : ∀ m ctx vmalloc, call = .addlun m ctx vmalloc →
      ctx ≠ 0 ∧ ∀ i l, e.world.ledger.view.lun i = some l → l.lunctx ≠ ctx := by
    intro m ctx vmalloc called
    obtain ⟨pos, absent⟩ := names m ctx vmalloc called
    refine ⟨pos, ?_⟩
    rintro i l lun rfl
    rw [← Sce.view_search, kept.named.search_of_lun kept.base.inv.sound lun] at absent
    cases absent
  have sound := kept.base.inv.sound
  refine ⟨base', turn.readNodup kept.base.readIds kept.readNodup, turn.named kept.named fresh,
      turn.active kept.active luns, ?_, ?_⟩
  · exact turn.paired kept.paired sound base'.inv.sound kept.named kept.base.popNodup
      (fun _ _ c _ _ => devices c.addr.dev) fun _ _ _ _ lun _ => turn.lun_stays kept.active luns lun
  · rw [refs]
    exact turn.counted kept.paired sound kept.named kept.active kept.readNodup luns
      (fun m ctx vmalloc called => (fresh m ctx vmalloc called).2) kept.counted

/-! ### One step of a thread -/

/-- The thread works on this population. -/
def Party.holds (id : Nat) : Party → Nat
  | .client => 0
  | .pdm t => if t.pc.holds = true ∧ t.poptask = id then 1 else 0

/-- The populations of the present iteration: none before the get, the one held, all of them put. -/
def Thread.Local (t : Thread) : Prop :=
  if t.pc.holds then t.got = [t.poptask] ∧ t.put = []
  else if t.pc.done then t.put = t.got
  else t.got = [] ∧ t.put = []

/-- How a thread goes on: beside the engine, with a population it got, or after the put of its population. -/
inductive Thread.Goes (t : Thread) (e : Engine) : Engine → Thread → Prop
  | aside {t' : Thread} (same : ∀ id, Party.holds id (.pdm t') = Party.holds id (.pdm t))
      (here : t'.Local) : Goes t e e t'
  | got {e' : Engine} {t' : Thread} {past : Nat → Nat → Word} {task : Poptask} (free : t.pc.holds = false)
      (holds : t'.pc.holds = true ∧ t'.poptask = e.world.now)
      (moves : e.exec (.get4pop past) = some (.poptask (some task), e')) (here : t'.Local) : Goes t e e' t'
  | missed {e' : Engine} {t' : Thread} {past : Nat → Nat → Word} {reply : Reply} (free : t.pc.holds = false)
      (holds : t'.pc.holds = false) (moves : e.exec (.get4pop past) = some (reply, e'))
      (none : ∀ task, reply ≠ .poptask (some task)) (here : t'.Local) : Goes t e e' t'
  | put {e' : Engine} {t' : Thread} {failed : Bool} {reply : Reply} (held : t.pc.holds = true)
      (holds : t'.pc.holds = false) (moves : e.exec (.put4pop t.poptask failed) = some (reply, e'))
      (here : t'.Local) : Goes t e e' t'

theorem Thread.run_goes (here : t.Local) (reads : t.pc = .readPoptask → env.ok = true)
    (ran : t.run env e = some (e', t')) : t.Goes e e' t' := by
  obtain ⟨cfg, pc, curSt, popcnt, poptask, got, put⟩ := t
  cases pc with
  | out => cases ran
  | loop =>
    simp only [run] at ran
    split at ran <;> obtain ⟨rfl, rfl⟩ := Prod.mk.inj (Option.some.inj ran)
    · exact .aside (fun _ => rfl) here
    · exact .aside (fun _ => rfl) ⟨rfl, rfl⟩
  | getStatus =>
    obtain ⟨rfl, rfl⟩ : got = [] ∧ put = [] := here
    obtain ⟨st, status⟩ : ∃ st, sceGetStatus e.world.sce = (.success, st) := ⟨_, rfl⟩
    simp only [run, status, ne_eq, not_true_eq_false, if_false] at ran
    split at ran
    · obtain ⟨rfl, rfl⟩ := Prod.mk.inj (Option.some.inj ran)
      exact .aside (fun _ => rfl) rfl
    · split at ran <;> obtain ⟨rfl, rfl⟩ := Prod.mk.inj (Option.some.inj ran)
      · exact .aside (fun _ => rfl) rfl
      · exact .aside (fun _ => rfl) ⟨rfl, rfl⟩
  | get4pop =>
    obtain ⟨rfl, rfl⟩ : got = [] ∧ put = [] := here
    obtain ⟨⟨reply, e₁⟩, moves, same⟩ := Option.map_eq_some_iff.mp ran
    simp only at same
    split at same <;> obtain ⟨rfl, rfl⟩ := Prod.mk.inj same
    · exact .got rfl ⟨rfl, rfl⟩ moves ⟨rfl, rfl⟩
    · rename_i other
      exact .missed rfl rfl moves other rfl
  | readPoptask =>
    simp only [run, reads rfl, if_true] at ran
    obtain ⟨rfl, rfl⟩ := Prod.mk.inj (Option.some.inj ran)
    exact .aside (fun _ => rfl) here
  | writePoptask =>
    obtain ⟨rfl, rfl⟩ := Prod.mk.inj (Option.some.inj ran)
    exact .aside (fun _ => rfl) here
  | put4pop failed =>
    obtain ⟨rfl, rfl⟩ : got = [poptask] ∧ put = [] := here
    obtain ⟨⟨reply, e₁⟩, moves, same⟩ := Option.map_eq_some_iff.mp ran
    obtain ⟨rfl, rfl⟩ := Prod.mk.inj same
    exact .put rfl rfl moves rfl
  | skip =>
    obtain ⟨rfl, rfl⟩ := Prod.mk.inj (Option.some.inj ran)
    exact .aside (fun _ => rfl) here

/-! ### The system -/

structure System.Kept (p : System) : Prop where
  engine : p.shared.Kept
  held : ∀ id, p.total (Party.holds id) = (p.shared.world.pops.map Pop.id).count id
  local_ : ∀ t, .pdm t ∈ p.threads → t.Local

theorem System.kept_start (cfgs : List Cfg) : (System.start cfgs).Kept := by
  refine ⟨Engine.kept_init, ?_, ?_⟩
  · intro id
    refine (Pool.total_eq_zero.mpr fun party member => ?_).trans rfl
    rcases List.mem_cons.mp member with rfl | member
    · rfl
    · obtain ⟨cfg, _, rfl⟩ := List.mem_map.mp member
      rfl
  · intro t member
    rcases List.mem_cons.mp member with e | member
    · cases e
    · obtain ⟨cfg, _, same⟩ := List.mem_map.mp member
      obtain rfl := Party.pdm.inj same
      rfl

/-- Only the gets and the puts of populations change which are outstanding. -/
theorem Engine.Permits.pops (permits : e.Permits call) (base : e.world.Base) (moves : e.exec call = some (reply, e')) :
    e'.world.pops = e.world.pops := by
  obtain ⟨_, next, _⟩ := Engine.exec_turn base moves
  rw [next]
  cases call with
  | get4pop | put4pop => exact permits.elim
  | _ => rfl

theorem Engine.got_pops {past : Nat → Nat → Word} {task : Poptask} (base : e.world.Base)
    (moves : e.exec (.get4pop past) = some (.poptask (some task), e')) :
    e'.world.pops = ⟨e.world.now, task⟩ :: e.world.pops := by
  obtain ⟨_, next, _⟩ := Engine.exec_turn base moves
  rw [next]
  rfl

theorem Engine.missed_pops {past : Nat → Nat → Word} (base : e.world.Base)
    (moves : e.exec (.get4pop past) = some (reply, e')) (none : ∀ task, reply ≠ .poptask (some task)) :
    e'.world.pops = e.world.pops := by
  obtain ⟨_, next, _⟩ := Engine.exec_turn base moves
  rw [next]
  match reply, none with
  | .poptask (some task), none => exact absurd rfl (none task)
  | .poptask .none, _ => rfl
  | .hndl _, _ => rfl
  | .ret _, _ => rfl
  | .fmap _, _ => rfl

theorem Engine.put_pops {failed : Bool} (base : e.world.Base) (moves : e.exec (.put4pop id failed) = some (reply, e'))
    (k : Nat) : (e.world.pops.map Pop.id).count k = (e'.world.pops.map Pop.id).count k + if id = k then 1 else 0 := by
  obtain ⟨w, ran, _⟩ := Option.bind_eq_some_iff.mp moves
  obtain ⟨op, _, _, named, _⟩ := World.exec_eq_some.mp ran
  obtain ⟨q, found, _⟩ := Option.map_eq_some_iff.mp named
  obtain ⟨before, after, split, rest⟩ := find_split found
  have same : q.id = id := by simpa using List.find?_some found
  obtain ⟨_, next, _⟩ := Engine.exec_turn base moves
  have pops : e'.world.pops = before ++ after := by
    rw [next, ← rest]
    cases reply <;> rfl
  rw [pops, split, ← same]
  simp only [List.map_append, List.map_cons, List.count_append, List.count_cons, beq_iff_eq]
  omega

theorem System.Kept.step {act : Nat × Env} (kept : p.Kept) (ok : p.Reads act) (moves : p.exec act = some p') :
    p'.Kept := by
  obtain ⟨party, new, others, place, ran, m⟩ := Pool.exec_moves moves
  have others_local : ∀ t, .pdm t ∈ others → t.Local := fun t member => kept.local_ t ((m.mem _).mpr (Or.inr member))
  have base := kept.engine.base
  cases party with
  | client =>
    have permits : p.shared.Permits act.2.call := ok _ place
    obtain ⟨⟨reply, e'⟩, moved, same⟩ := Option.map_eq_some_iff.mp ran
    obtain ⟨rfl, rfl⟩ := Prod.mk.inj same
    refine ⟨kept.engine.step permits.gentle moved, ?_, ?_⟩
    · intro id
      have total := kept.held id
      rw [m.before] at total
      rw [m.after, permits.pops base moved, ← total]
      rfl
    · intro t member
      rcases (m.mem' _).mp member with here | there
      · cases List.mem_singleton.mp here
      · exact others_local t there
  | pdm t =>
    obtain ⟨⟨e', t'⟩, moved, same⟩ := Option.map_eq_some_iff.mp ran
    obtain ⟨rfl, rfl⟩ := Prod.mk.inj same
    have here := kept.local_ t ((m.mem _).mpr (Or.inl rfl))
    have goes := Thread.run_goes here (ok _ place) moved
    have before := fun id => (m.before (Party.holds id)).symm.trans (kept.held id)
    have after := fun id => m.after (Party.holds id)
    simp only [List.map_cons, List.map_nil, List.sum_cons, List.sum_nil, Nat.add_zero] at after
    have locals : t'.Local → ∀ u, .pdm u ∈ p'.threads → u.Local := by
      intro mine u member
      rcases (m.mem' _).mp member with here | there
      · cases List.mem_singleton.mp here
        exact mine
      · exact others_local u there
    -- neither a get nor a put of a population removes or adds a device or a LUN
    have gets : ∀ past, p.shared.Gentle (.get4pop past) := fun _ => ⟨by simp, by simp, by simp⟩
    have puts : ∀ id failed, p.shared.Gentle (.put4pop id failed) := fun _ _ => ⟨by simp, by simp, by simp⟩
    have one : ∀ {u : Thread} {k : Nat}, u.pc.holds = true →
        Party.holds k (.pdm u) = if u.poptask = k then 1 else 0 := by
      intro u k holds
      simp [Party.holds, holds]
    have zero : ∀ {u : Thread} {k : Nat}, u.pc.holds = false → Party.holds k (.pdm u) = 0 := by
      intro u k holds
      simp [Party.holds, holds]
    generalize shared : p'.shared = e₁ at goes locals
    refine ⟨?_, ?_, ?_⟩
    · rw [shared]
      cases goes with
      | aside => exact kept.engine
      | got _ _ moves => exact kept.engine.step (gets _) moves
      | missed _ _ moves => exact kept.engine.step (gets _) moves
      | put _ _ moves => exact kept.engine.step (puts _ _) moves
    · intro id
      rw [shared, after id]
      have total := before id
      cases goes with
      | aside same =>
        rw [same id]
        exact total
      | got free holds moves =>
        rw [Engine.got_pops base moves, List.map_cons, List.count_cons, ← total, zero free, one holds.1, holds.2]
        simp only [beq_iff_eq]
        omega
      | missed free holds moves none =>
        rw [Engine.missed_pops base moves none, ← total, zero free, zero holds]
      | put held holds moves =>
        rw [Engine.put_pops base moves id, one held] at total
        rw [zero holds]
        omega
    · cases goes with
      | aside _ mine | got _ _ _ mine | missed _ _ _ _ mine | put _ _ _ mine => exact locals mine

/-- Every population is ended. -/
theorem populations_end {cfgs : List Cfg} (reached : Reachable System.exec System.Reads (System.start cfgs) p) :
    (∀ t, .pdm t ∈ p.threads → t.pc.done = true → t.put = t.got) ∧
    ((∀ t, .pdm t ∈ p.threads → t.pc.outside = true) → p.shared.world.pops = [] ∧
      (∀ i l f, p.shared.world.sce.luntbl i = some l → f < l.nrFrag → isMapped (l.fragmap f) = true →
        isValid (l.fragmap f) = true) ∧
      ∀ i l, p.shared.world.sce.luntbl i = some l → l.nrService = u32 (p.shared.readRefs i)) := by
  have kept : p.Kept := reached.invariant (System.kept_start cfgs) fun _ _ _ kept ok moves => kept.step ok moves
  have base := kept.engine.base
  refine ⟨?_, ?_⟩
  · intro t member done
    have here := kept.local_ t member
    unfold Thread.Local at here
    cases pc : t.pc <;> simp [pc, Pc.done, Pc.holds] at done here <;> exact here
  · intro outside
    have empty : p.shared.world.pops = [] := by
      refine (List.map_eq_nil_iff (f := Pop.id)).mp (List.eq_nil_iff_forall_not_mem.mpr fun id member => ?_)
      have total := kept.held id
      have none : p.total (Party.holds id) = 0 := by
        apply Pool.total_eq_zero.mpr
        intro party here
        cases party with
        | client => rfl
        | pdm t =>
          have out := outside t here
          cases pc : t.pc <;> simp [pc, Pc.outside] at out <;> simp [Party.holds, pc, Pc.holds]
      rw [none] at total
      exact absurd member (List.count_eq_zero.mp total.symm)
    refine ⟨empty, ?_, ?_⟩
    · intro i l f lun inside mapped
      obtain ⟨m, slot⟩ := base.inv.shape.slot_of_mapped lun inside mapped
      obtain ⟨l', lun', _, _, _, valid, _⟩ := Sce.slot_eq_some.mp slot
      obtain rfl := Option.some.inj (lun.symm.trans lun')
      -- a mapping that is not valid would have its population
      by_contra pending
      have cell : p.shared.world.sce.view.cell i f = some m.cell := by rw [Sce.view_cell, slot]; rfl
      obtain ⟨_, q, member, _⟩ := kept.engine.paired.owned i f m.cell cell (by
        show m.valid = false
        rw [valid]
        simpa using pending)
      have member : q ∈ p.shared.world.pops := member
      rw [empty] at member
      cases member
    · intro i l lun
      have service := kept.engine.counted.service i l.volume (by
        show p.shared.world.sce.view.lun i = _
        rw [Sce.view_lun, lun]
        rfl)
      have none : p.shared.world.ledger.popsIn l.volume.lunctx = 0 := by
        show List.countP _ p.shared.world.pops = 0
        rw [empty]
        rfl
      rw [none] at service
      exact service

/-- A fragment is missed, and the last of the threads, which is party 8, comes to `read_poptask`. -/
def missed : List (Nat × Env) :=
  [(0, { call := .addcdev 2048 7 true }), (0, { call := .addlun 4096 9 true }), (0, { call := .get4read 0 0 8 }),
    (8, {}), (8, {}), (8, {})]

/-- Both I/Os succeed, and the thread is stopped. -/
def copied : System :=
  (execAll System.exec System.reads (System.start gpdmcfg)
    (missed ++ ([(8, {}), (8, {}), (8, {}), (8, {}), (8, { stop := true })] : List (Nat × Env)))).getD (System.start [])

def Party.trace : Party → Option (Pc × List Nat × List Nat)
  | .client => none
  | .pdm t => some (t.pc, t.got, t.put)

/-- The threads before the last have not moved. -/
def System.traced (last : Pc × List Nat × List Nat) (p : System) : Prop :=
  p.threads.map Party.trace = none :: List.replicate 7 (some (.loop, [], [])) ++ [some last]

instance (last : Pc × List Nat × List Nat) (p : System) : Decidable (p.traced last) :=
  inferInstanceAs (Decidable (_ = _))

theorem System.traced.outside {last : Pc × List Nat × List Nat} (traces : p.traced last) (out : last.1.outside = true)
    (member : .pdm t ∈ p.threads) : t.pc.outside = true := by
  have here : (Party.pdm t).trace ∈ p.threads.map Party.trace := List.mem_map_of_mem member
  rw [traces] at here
  simp only [Party.trace, List.cons_append, List.mem_cons, List.mem_append, List.mem_replicate, reduceCtorEq,
    false_or, Option.some.injEq, List.not_mem_nil, or_false] at here
  rcases here with ⟨_, same⟩ | same
  · rw [(Prod.mk.inj same).1]
    rfl
  · rw [← same] at out
    exact out

theorem populations_end_copied : copied.shared.world.pops = [] ∧
    ∀ i l, copied.shared.world.sce.luntbl i = some l → l.nrService = u32 (copied.shared.readRefs i) := by
  have reached : Reachable System.exec System.Reads (System.start gpdmcfg) copied :=
    reachable_getD (fun _ _ ok => System.reads_sound ok) (by decide +kernel)
  have traces : copied.traced (.out, [3], [3]) := by decide +kernel
  obtain ⟨empty, _, service⟩ := (populations_end reached).2 fun t member => traces.outside rfl member
  exact ⟨empty, service⟩

/-- `read_poptask` fails, and the thread is stopped. -/
def dropped : System :=
  (execAll System.exec System.allows (System.start gpdmcfg)
    (missed ++ ([(8, { ok := false }), (8, {}), (8, { stop := true })] : List (Nat × Env)))).getD (System.start [])

theorem population_left : Reachable System.exec System.Allows (System.start gpdmcfg) dropped ∧
    dropped.traced (.out, [3], []) ∧
    ∃ l, dropped.shared.world.sce.luntbl 0 = some l ∧ isMapped (l.fragmap 0) = true ∧ isValid (l.fragmap 0) = false ∧
      l.nrService = 1 ∧ dropped.shared.readRefs 0 = 0 := by
  refine ⟨reachable_getD (fun _ _ ok => System.allows_sound ok) (by decide +kernel), by decide +kernel, ?_⟩
  have lun : (dropped.shared.world.sce.luntbl 0).any (fun l => isMapped (l.fragmap 0) && !isValid (l.fragmap 0) &&
      l.nrService == 1 && dropped.shared.readRefs 0 == 0) = true := by decide +kernel
  obtain ⟨l, here, facts⟩ := (Option.any_eq_true _ _).mp lun
  simp only [Bool.and_eq_true, Bool.not_eq_true', beq_iff_eq] at facts
  exact ⟨l, here, facts.1.1.1, facts.1.1.2, facts.1.2, facts.2⟩

end Pdm

end Iostash
