import Iostash.Driver.Teardown

/-!
# Inside and outside the guard

Inside the guard of `poptask_write` the grace period and `nr_ref` keep the `ssd_info` alive, unless a failed read has
set the device offline: then the teardown does not wait. Before the guard, and in `poptask_read`, nothing keeps it:
there it takes a teardown that does not come too early.
-/

namespace Iostash

namespace Driver

open Util

variable {s s' : State} {p p' : System} {t t' : Thread} {env : Env} {reply : Reply} {c k : Nat}

/-! ### Where a thread is -/

/-- The thread is in `poptask_read`. -/
def Pc.readsHdd : Pc → Bool
  | .readHdd => true
  | .readIo => true
  | _ => false

/-- The thread has a population and has not come through the guard of `poptask_write`. -/
def Pc.unguarded : Pc → Bool
  | .readHdd => true
  | .readIo => true
  | .lock => true
  | .testCdev => true
  | .testBdev => true
  | .testOnline => true
  | _ => false

/-- The thread has come through the tests of the guard. -/
def Pc.passed : Pc → Bool
  | .incRef => true
  | .unlock => true
  | .writeIo => true
  | .decRef _ => true
  | _ => false

/-- The thread may come through the tests of the guard though the device is being torn down. -/
def Pc.raising : Pc → Bool
  | .testBdev => true
  | .testOnline => true
  | .incRef => true
  | _ => false

/-- The thread holds a reference of its device. -/
def Pc.counted : Pc → Bool
  | .unlock => true
  | .writeIo => true
  | .decRef _ => true
  | _ => false

/-- The thread is in a read-side section. -/
def Pc.inside : Pc → Bool
  | .testCdev => true
  | .testBdev => true
  | .testOnline => true
  | .incRef => true
  | .unlock => true
  | .unlockOffline => true
  | _ => false

def Party.counted (addr : Nat) : Party → Nat
  | .population t => if t.pc.counted = true ∧ t.pop.task.cdevctx = addr then 1 else 0
  | _ => 0

def Party.inside (k : Nat) : Party → Nat
  | .population t => if t.pc.inside = true ∧ t.section_ = k then 1 else 0
  | _ => 0

theorem Party.counted_zero (free : t.pc.counted = false) : Party.counted c (.population t) = 0 := by
  simp [counted, free]

theorem Party.inside_zero (outside : t.pc.inside = false) : Party.inside k (.population t) = 0 := by
  simp [inside, outside]

/-! ### The condition -/

/-- A device is freed only when the populations that name it are through their guards, and when it was found offline
and is still in its table, only when none of them is past the tests of the guard; a disk is released only when the
populations of it have been read; and no fragment of a released disk is chosen for population. -/
def Party.Careful (p : System) (env : Env) : Party → Prop
  | .control => ∀ t, .population t ∈ p.threads → ∀ addr,
      (p.shared.control = .ssd addr .free →
        t.pc.unguarded = true ∨ (p.shared.ssd addr).listed = true ∧ t.pc.passed = true → t.pop.task.cdevctx ≠ addr) ∧
      (p.shared.control = .hdd addr .blkdevPut → t.pc.readsHdd = true → t.pop.task.lunctx ≠ addr)
  | .requests => True
  | .population t => t.pc = .get4pop → ∀ i f, choose4population p.shared.world.sce env.past = some (i, f) →
      ∀ l, p.shared.world.sce.luntbl i = some l →
        (p.shared.hdd l.lunctx).released = false ∧ (p.shared.hdd l.lunctx).freed = false

def System.Careful (p : System) (act : Nat × Env) : Prop := ∀ party ∈ p.threads[act.1]?, party.Careful p act.2

/-! ### The invariant -/

/-- A population that has found `cdev` in section `k` may yet raise `nr_ref`. -/
def SsdStage.raises (k : Nat) : SsdStage → Bool
  | .gracePeriod bound => decide (k < bound)
  | .waitRef => false
  | .blkdevPut => false
  | .clearBdev => false
  | .free => false
  | _ => true

/-- A population may hold a reference. -/
def SsdStage.holds : SsdStage → Bool
  | .blkdevPut => false
  | .clearBdev => false
  | .free => false
  | _ => true

/-- The device has no `cdev` any more. -/
def SsdStage.cleared : SsdStage → Bool
  | .rmcdev => false
  | .clearCdev => false
  | _ => true

/-- The device is still in its table, or is taken out of it and waited for. -/
def SsdStage.listed : SsdStage → Option Bool
  | .rmcdev => some true
  | .clearCdev => some true
  | .offline => some true
  | .synchronize => some false
  | .gracePeriod _ => some false
  | .waitRef => some false
  | _ => none

/-- Where the teardown does not wait, the device is still in its table. -/
structure Thread.Fine (t : Thread) (s : State) : Prop where
  reading : t.pc.readsHdd = true →
    (s.hdd t.pop.task.lunctx).released = false ∧ (s.hdd t.pop.task.lunctx).freed = false
  unguarded : t.pc.unguarded = true → (s.ssd t.pop.task.cdevctx).freed = false
  passed : t.pc.passed = true → (s.ssd t.pop.task.cdevctx).freed = false
  raising : t.pc.raising = true → ∀ stage, s.control = .ssd t.pop.task.cdevctx stage →
    stage.raises t.section_ = true ∨ (s.ssd t.pop.task.cdevctx).listed = true
  counted : t.pc.counted = true → ∀ stage, s.control = .ssd t.pop.task.cdevctx stage →
    stage.holds = true ∨ (s.ssd t.pop.task.cdevctx).listed = true

/-- The devices are as the control path has left them. -/
structure State.Managed (s : State) : Prop where
  base : s.world.Base
  plugged : ∀ d c n, s.world.sce.view.dev d = some (c, n) → (s.ssd c).freed = false ∧ (s.ssd c).cdev = some d ∧
    ∀ stage, s.control = .ssd c stage → stage = .rmcdev
  torn : ∀ c stage, s.control = .ssd c stage → (stage.cleared = true → (s.ssd c).cdev = none) ∧
    ∀ listed ∈ stage.listed, (s.ssd c).listed = listed
  issued : ∀ k ∈ s.rcuOpen, k < s.rcuNext
  clean : s.misread = false ∧ s.misused = false

/-- The disk is released. -/
def HddStage.past : HddStage → Bool
  | .clearBdev => true
  | .rmlun => true
  | .clearLun => true
  | .free => true
  | _ => false

/-- The disks are as the control path has left them. -/
structure State.Disks (s : State) : Prop where
  bdev : ∀ c, (s.hdd c).freed = false → (s.hdd c).bdev = true ∨ (s.hdd c).released = true
  torn : ∀ c stage, s.control = .hdd c stage → (s.hdd c).freed = false ∧
    (stage.past = true → (s.hdd c).released = true)

structure System.Safe (p : System) : Prop where
  managed : p.shared.Managed
  disks : p.shared.Disks
  refs : ∀ c, (p.shared.ssd c).nrRef = p.total (Party.counted c)
  sections : ∀ k, p.shared.rcuOpen.count k = p.total (Party.inside k)
  threads : ∀ t, .population t ∈ p.threads → t.Fine p.shared

theorem System.safe_start (legacy : Bool) (n : Nat) : (System.start legacy n).Safe := by
  have fresh : ∀ party ∈ (System.start legacy n).threads, ∀ t, party = .population t → t.pc = .get4pop := by
    rintro party member t rfl
    rcases List.mem_cons.mp member with e | member
    · cases e
    rcases List.mem_cons.mp member with e | member
    · cases e
    obtain rfl := Party.population.inj (List.eq_of_mem_replicate member)
    rfl
  refine ⟨⟨.init, ?_, ?_, ?_, rfl, rfl⟩, ⟨?_, ?_⟩, ?_, ?_, ?_⟩
  · intro d c n dev
    cases dev
  · intro c stage control
    cases control
  · intro k member
    cases member
  · intro c live
    cases live
  · intro c stage control
    cases control
  · intro c
    refine (Pool.total_eq_zero.mpr fun party member => ?_).symm
    cases party with
    | population t => simp [Party.counted, fresh _ member t rfl, Pc.counted]
    | _ => rfl
  · intro k
    refine (Pool.total_eq_zero.mpr fun party member => ?_).symm
    cases party with
    | population t => simp [Party.inside, fresh _ member t rfl, Pc.inside]
    | _ => rfl
  · intro t member
    have pc := fresh _ member t rfl
    constructor <;> simp [pc, Pc.readsHdd, Pc.unguarded, Pc.passed, Pc.raising, Pc.counted]

/-! ### Calls -/

theorem State.call_some {call : Call} (base : s.world.Base) (moves : s.call call = some (reply, s')) :
    s' = { s with world := s'.world } ∧ s'.world.Base ∧
      Turn s.world.ledger s.world.now call reply s'.world.ledger := by
  obtain ⟨w, ran, replied⟩ := Option.bind_eq_some_iff.mp moves
  obtain ⟨base', r, next, turn⟩ := World.exec_turn base ran
  rw [next] at replied
  obtain ⟨rfl, rfl⟩ := Prod.mk.inj (Option.some.inj replied)
  exact ⟨rfl, next ▸ base', next ▸ turn⟩

theorem State.Managed.call {call : Call} (h : s.Managed) (moves : s.call call = some (reply, s'))
    (other : ∀ m ctx vmalloc, call ≠ .addcdev m ctx vmalloc) : s'.Managed := by
  obtain ⟨same, base', turn⟩ := State.call_some h.base moves
  rw [same]
  refine ⟨base', ?_, h.torn, h.issued, h.clean⟩
  intro d c n dev
  rcases turn.dev dev with old | ⟨_, m, ctx, vmalloc, called, _⟩
  · exact h.plugged d c n old
  · exact absurd called (other m ctx vmalloc)

theorem View.place_lunctx {v : View} {i j f : Nat} {a : Phys} {l : Volume} :
    ((v.place i f a l).lun j).map Volume.lunctx = (v.lun j).map Volume.lunctx := by
  show ((if j = i then (v.lun j).map _ else v.lun j)).map Volume.lunctx = _
  split
  · cases v.lun j <;> rfl
  · rfl

/-- A population got is of the LUN `_choose4population` chose, and of a device that is there. -/
theorem State.got {past : Nat → Nat → Word} {task : Poptask} (base : s.world.Base)
    (moves : s.call (.get4pop past) = some (.poptask (some task), s')) :
    (∃ i f l, choose4population s.world.sce past = some (i, f) ∧ s.world.sce.luntbl i = some l ∧
      task.lunctx = l.lunctx) ∧ ∃ d n, s.world.sce.view.dev d = some (task.cdevctx, n) := by
  obtain ⟨w, ran, replied⟩ := Option.bind_eq_some_iff.mp moves
  obtain ⟨op, reply, sce', named, run, rfl⟩ := World.exec_eq_some.mp ran
  obtain rfl := Option.some.inj named
  obtain ⟨same, _⟩ := Prod.mk.inj (Option.some.inj replied)
  have same : reply = .poptask (some task) := same
  subst same
  obtain ⟨⟨r, t⟩, done, e⟩ := Except.map_eq_ok.mp run
  obtain ⟨rfl, rfl⟩ : r = some task ∧ t = sce' := by simpa using e
  obtain ⟨i, f, l, chosen, lun, ctx⟩ := sceGet4pop_chosen done
  rcases sceGet4pop_spec base.inv past with
    ⟨_, stop⟩ | ⟨_, none, _⟩ | ⟨j, g, a, v, cdevctx, size, _, ok, _, present, _, _, _, _, dev, view'⟩
  · cases stop.symm.trans done
  · cases none.symm.trans done
  · obtain ⟨rfl, rfl⟩ : task = ⟨v.lunctx, cdevctx, g, a.off⟩ ∧ t = _ := by
      simpa using Except.ok.inj (done.symm.trans ok)
    refine ⟨⟨i, f, l, chosen, lun, ?_⟩, a.dev, size, dev⟩
    have kept := View.place_lunctx (v := s.world.sce.view) (i := j) (j := i) (f := g) (a := a) (l := v)
    rw [← view', Sce.view_lun, Sce.view_lun, lun] at kept
    rw [ctx]
    cases after : t.luntbl i with
    | none =>
      rw [after] at kept
      cases kept
    | some l' =>
      rw [after] at kept
      exact Option.some.inj kept

/-! ### One step -/

/-- A thread whose disk and device are as they were, and whose teardown has come no further, stays fine. -/
theorem Thread.Fine.mono (h : t.Fine s)
    (hdd : t.pc.readsHdd = true → (s'.hdd t.pop.task.lunctx).released = (s.hdd t.pop.task.lunctx).released ∧
      (s'.hdd t.pop.task.lunctx).freed = (s.hdd t.pop.task.lunctx).freed)
    (ssd : (s'.ssd t.pop.task.cdevctx).freed = (s.ssd t.pop.task.cdevctx).freed ∧
      (s'.ssd t.pop.task.cdevctx).listed = (s.ssd t.pop.task.cdevctx).listed) (control : s'.control = s.control) :
    t.Fine s' := by
  refine ⟨?_, ?_, ?_, ?_, ?_⟩
  · intro pc
    rw [(hdd pc).1, (hdd pc).2]
    exact h.reading pc
  · intro pc
    rw [ssd.1]
    exact h.unguarded pc
  · intro pc
    rw [ssd.1]
    exact h.passed pc
  · intro pc
    rw [ssd.2, control]
    exact h.raising pc
  · intro pc
    rw [ssd.2, control]
    exact h.counted pc

theorem System.Safe.of_thread {others : List Party} (h : p.Safe) (m : p.Moves (.population t) [.population t'] others p')
    (managed : p'.shared.Managed) (hdd : p'.shared.hdd = p.shared.hdd) (control : p'.shared.control = p.shared.control)
    (ssd : ∀ c, (p'.shared.ssd c).freed = (p.shared.ssd c).freed ∧ (p'.shared.ssd c).listed = (p.shared.ssd c).listed)
    (refs : ∀ c, (p'.shared.ssd c).nrRef + Party.counted c (.population t) =
      (p.shared.ssd c).nrRef + Party.counted c (.population t'))
    (sections : ∀ k, p'.shared.rcuOpen.count k + Party.inside k (.population t) =
      p.shared.rcuOpen.count k + Party.inside k (.population t'))
    (fine : t'.Fine p'.shared) : p'.Safe := by
  refine ⟨managed, ⟨?_, ?_⟩, ?_, ?_, ?_⟩
  · rw [hdd]
    exact h.disks.bdev
  · rw [hdd, control]
    exact h.disks.torn
  · intro c
    have before := h.refs c
    rw [m.before] at before
    have here := refs c
    rw [m.after]
    simp only [List.map_cons, List.map_nil, List.sum_cons, List.sum_nil]
    omega
  · intro k
    have before := h.sections k
    rw [m.before] at before
    have here := sections k
    rw [m.after]
    simp only [List.map_cons, List.map_nil, List.sum_cons, List.sum_nil]
    omega
  · intro u member
    rcases (m.mem' _).mp member with here | there
    · cases List.mem_singleton.mp here
      exact fine
    · refine (h.threads u ((m.mem _).mpr (Or.inr there))).mono (fun _ => ?_) (ssd _) control
      rw [hdd]
      exact ⟨rfl, rfl⟩

/-- The references of a device and the read-side sections are nothing the control path has to leave alone. -/
theorem State.Managed.congr (h : s.Managed) (world : s'.world = s.world) (control : s'.control = s.control)
    (ssd : ∀ c, (s'.ssd c).freed = (s.ssd c).freed ∧ (s'.ssd c).cdev = (s.ssd c).cdev ∧
      (s'.ssd c).listed = (s.ssd c).listed)
    (issued : ∀ k ∈ s'.rcuOpen, k < s'.rcuNext) (clean : s'.misread = false ∧ s'.misused = false) : s'.Managed := by
  refine ⟨world ▸ h.base, ?_, ?_, issued, clean⟩
  · intro d c n dev
    rw [(ssd c).1, (ssd c).2.1, control]
    rw [world] at dev
    exact h.plugged d c n dev
  · intro c stage here
    rw [(ssd c).2.1, (ssd c).2.2]
    rw [control] at here
    exact h.torn c stage here

theorem State.readSsd_live (live : (s.ssd c).freed = false) : s.readSsd c = s := by
  simp [readSsd, live]

theorem State.useHdd_held (held : (s.hdd c).released = false ∧ (s.hdd c).freed = false) : s.useHdd c = s := by
  simp [useHdd, held]

theorem State.setSsd_nrRef {φ : SsdInfo → SsdInfo} (same : ∀ x, (φ x).freed = x.freed ∧ (φ x).cdev = x.cdev ∧
    (φ x).listed = x.listed) (addr c : Nat) :
    ((s.setSsd addr φ).ssd c).freed = (s.ssd c).freed ∧ ((s.setSsd addr φ).ssd c).cdev = (s.ssd c).cdev ∧
      ((s.setSsd addr φ).ssd c).listed = (s.ssd c).listed := by
  unfold setSsd
  simp only
  split
  · exact same _
  · exact ⟨rfl, rfl, rfl⟩

theorem System.Safe.aside {others : List Party} (h : p.Safe) (m : p.Moves (.population t) [.population t'] others p')
    (shared : p'.shared = p.shared) (counted : ∀ c, Party.counted c (.population t') = Party.counted c (.population t))
    (inside : ∀ k, Party.inside k (.population t') = Party.inside k (.population t)) (fine : t'.Fine p.shared) :
    p'.Safe := by
  refine h.of_thread m ?_ ?_ ?_ ?_ ?_ ?_ ?_
  · rw [shared]
    exact h.managed
  · rw [shared]
  · rw [shared]
  · intro c
    rw [shared]
    exact ⟨rfl, rfl⟩
  · intro c
    rw [shared, counted]
  · intro k
    rw [shared, inside]
  · rw [shared]
    exact fine

theorem Thread.Fine.idle (reads : t.pc.readsHdd = false) (guard : t.pc.unguarded = false) (passed : t.pc.passed = false)
    (raises : t.pc.raising = false) (counted : t.pc.counted = false) : t.Fine s := by
  constructor
  · intro pc
    cases reads.symm.trans pc
  · intro pc
    cases guard.symm.trans pc
  · intro pc
    cases passed.symm.trans pc
  · intro pc
    cases raises.symm.trans pc
  · intro pc
    cases counted.symm.trans pc

/-- A thread before the tests of the guard needs its device only. -/
theorem Thread.Fine.early (reading : t.pc.readsHdd = true →
      (s.hdd t.pop.task.lunctx).released = false ∧ (s.hdd t.pop.task.lunctx).freed = false)
    (live : (s.ssd t.pop.task.cdevctx).freed = false) (raises : t.pc.raising = false) (counted : t.pc.counted = false) :
    t.Fine s := by
  refine ⟨reading, fun _ => live, fun _ => live, fun pc => ?_, fun pc => ?_⟩
  · cases raises.symm.trans pc
  · cases counted.symm.trans pc

theorem System.Safe.test {others : List Party} {pc next : Pc} {pop : Pop} {section_ : Nat} {flag : Bool} (h : p.Safe)
    (m : p.Moves (.population ⟨pc, pop, section_⟩)
      [.population ⟨if flag = true then next else .unlockOffline, pop, section_⟩] others p')
    (shared : p.shared.readSsd pop.task.cdevctx = p'.shared) (guard : pc.unguarded = true)
    (inside : pc.inside = true ∧ next.inside = true) (counted : pc.counted = false ∧ next.counted = false)
    (fine : flag = true → Thread.Fine ⟨next, pop, section_⟩ p.shared) : p'.Safe := by
  have live := (h.threads _ ((m.mem _).mpr (Or.inl rfl))).unguarded guard
  have shared := shared.symm.trans (State.readSsd_live live)
  cases flag with
  | true =>
    refine h.aside m shared (fun c => ?_) (fun k => ?_) (fine rfl)
    · simp [Party.counted, counted.1, counted.2]
    · simp [Party.inside, inside.1, inside.2]
  | false =>
    refine h.aside m shared (fun c => ?_) (fun k => ?_) (.idle rfl rfl rfl rfl rfl)
    · have offline : Pc.unlockOffline.counted = false := rfl
      simp [Party.counted, counted.1, offline]
    · have offline : Pc.unlockOffline.inside = true := rfl
      simp [Party.inside, inside.1, offline]

theorem System.Safe.mem_rcuOpen (h : p.Safe) (member : .population t ∈ p.threads) (inside : t.pc.inside = true) :
    t.section_ ∈ p.shared.rcuOpen := by
  apply List.count_pos_iff.mp
  rw [h.sections]
  exact Pool.total_pos member (by simp [Party.inside, inside])

theorem System.Safe.nrRef_pos (h : p.Safe) (member : .population t ∈ p.threads) (counted : t.pc.counted = true) :
    0 < (p.shared.ssd t.pop.task.cdevctx).nrRef := by
  rw [h.refs]
  exact Pool.total_pos member (by simp [Party.counted, counted])

theorem System.Safe.close {others : List Party} {pc next : Pc} {pop : Pop} {section_ : Nat} (h : p.Safe)
    (m : p.Moves (.population ⟨pc, pop, section_⟩) [.population ⟨next, pop, section_⟩] others p')
    (shared : { p.shared with rcuOpen := p.shared.rcuOpen.erase section_ } = p'.shared)
    (inside : pc.inside = true ∧ next.inside = false) (counted : next.counted = pc.counted)
    (fine : Thread.Fine ⟨next, pop, section_⟩ p.shared) : p'.Safe := by
  have mine := h.mem_rcuOpen ((m.mem _).mpr (Or.inl rfl)) inside.1
  have managed := h.managed
  refine h.of_thread m ?_ ?_ ?_ ?_ ?_ ?_ ?_ <;> rw [← shared]
  · exact managed.congr rfl rfl (fun _ => ⟨rfl, rfl, rfl⟩)
        (fun k member => managed.issued k (List.mem_of_mem_erase member))
      managed.clean
  · exact fun _ => ⟨rfl, rfl⟩
  · intro c
    simp [Party.counted, counted]
  · intro k
    simp only [Party.inside, inside.1, inside.2, List.count_erase, beq_iff_eq]
    have pos : 0 < p.shared.rcuOpen.count section_ := List.count_pos_iff.mpr mine
    by_cases e : section_ = k
    · subst e
      simp
      omega
    · simp [e]
  · exact ⟨fine.reading, fine.unguarded, fine.passed, fine.raising, fine.counted⟩

theorem System.Safe.thread_step {others : List Party} (h : p.Safe)
    (careful : Party.Careful p env (.population t)) (m : p.Moves (.population t) [.population t'] others p')
    (ran : t.run env p.shared = some (p'.shared, t')) : p'.Safe := by
  have fine := h.threads t ((m.mem _).mpr (Or.inl rfl))
  have managed := h.managed
  obtain ⟨pc, pop, section_⟩ := t
  cases pc with
  | get4pop =>
    obtain ⟨⟨reply, s'⟩, moves, same⟩ := Option.map_eq_some_iff.mp ran
    have managed' := managed.call moves (by simp)
    obtain ⟨kept, _⟩ := State.call_some managed.base moves
    have rest : ∀ {u : Thread}, p'.shared = s' → u.pc.counted = false → u.pc.inside = false → u.Fine p'.shared →
        p.Moves (.population ⟨.get4pop, pop, section_⟩) [.population u] others p' → p'.Safe := by
      rintro u rfl counted inside fine' m
      refine h.of_thread m managed' ?_ ?_ ?_ ?_ ?_ fine'
      · rw [kept]
      · rw [kept]
      · intro c
        rw [kept]
        exact ⟨rfl, rfl⟩
      · intro c
        rw [kept, Party.counted_zero counted, Party.counted_zero rfl]
      · intro k
        rw [kept, Party.inside_zero inside, Party.inside_zero rfl]
    simp only at same
    split at same <;> obtain ⟨rfl, rfl⟩ := Prod.mk.inj same
    · rename_i task
      obtain ⟨⟨i, f, l, chosen, lun, ctx⟩, d, n, dev⟩ := State.got managed.base moves
      refine rest rfl rfl rfl (.early (fun _ => ?_) ?_ rfl rfl) m
      · rw [kept, ctx]
        exact careful rfl i f chosen l lun
      · rw [kept]
        exact (managed.plugged d _ n dev).1
    · exact rest rfl rfl rfl (.idle rfl rfl rfl rfl rfl) m
  | readHdd =>
    have held := fine.reading rfl
    obtain ⟨shared, rfl⟩ := Prod.mk.inj (Option.some.inj ran)
    refine h.aside m (shared.symm.trans (State.useHdd_held held)) (fun _ => rfl) (fun _ => rfl) ?_
    exact .early (fun _ => held) (fine.unguarded rfl) rfl rfl
  | readIo =>
    have held := fine.reading rfl
    obtain ⟨shared, rfl⟩ := Prod.mk.inj (Option.some.inj ran)
    have shared := shared.symm.trans (State.useHdd_held held)
    cases ok : env.ok with
    | true =>
      have m : p.Moves (.population ⟨.readIo, pop, section_⟩) [.population ⟨.lock, pop, section_⟩] others p' := by
        simpa [ok] using m
      refine h.aside m shared (fun _ => rfl) (fun _ => rfl) ?_
      exact .early (by simp [Pc.readsHdd]) (fine.unguarded rfl) rfl rfl
    | false =>
      have m : p.Moves (.population ⟨.readIo, pop, section_⟩) [.population ⟨.get4pop, pop, section_⟩] others p' := by
        simpa [ok] using m
      refine h.aside m shared (fun _ => rfl) (fun _ => rfl) ?_
      exact .idle rfl rfl rfl rfl rfl
  | lock =>
    obtain ⟨shared, rfl⟩ := Prod.mk.inj (Option.some.inj ran)
    refine h.of_thread m ?_ ?_ ?_ ?_ ?_ ?_ ?_ <;> rw [← shared]
    · refine managed.congr rfl rfl (fun _ => ⟨rfl, rfl, rfl⟩) ?_ managed.clean
      intro k member
      rcases List.mem_cons.mp member with rfl | old
      · exact Nat.lt_succ_self _
      · exact Nat.lt_succ_of_lt (managed.issued k old)
    · exact fun _ => ⟨rfl, rfl⟩
    · exact fun _ => rfl
    · intro k
      simp [Party.inside, Pc.inside, List.count_cons]
    · exact .early (by simp [Pc.readsHdd]) (fine.unguarded rfl) rfl rfl
  | testCdev =>
    obtain ⟨shared, rfl⟩ := Prod.mk.inj (Option.some.inj ran)
    have live := fine.unguarded rfl
    refine h.test m shared rfl ⟨rfl, rfl⟩ ⟨rfl, rfl⟩ fun cdev =>
      ⟨by simp [Pc.readsHdd], fun _ => live, fun _ => live, fun _ stage control => ?_, by simp [Pc.counted]⟩
    -- a device that has its `cdev` has not come to its grace period
    left
    have torn := (managed.torn _ stage control).1
    cases stage <;> first | rfl | (rw [torn rfl] at cdev; cases cdev)
  | testBdev =>
    obtain ⟨shared, rfl⟩ := Prod.mk.inj (Option.some.inj ran)
    have live := fine.unguarded rfl
    exact h.test m shared rfl ⟨rfl, rfl⟩ ⟨rfl, rfl⟩ fun _ =>
      ⟨by simp [Pc.readsHdd], fun _ => live, fun _ => live, fun _ => fine.raising rfl, by simp [Pc.counted]⟩
  | testOnline =>
    obtain ⟨shared, rfl⟩ := Prod.mk.inj (Option.some.inj ran)
    have live := fine.unguarded rfl
    exact h.test m shared rfl ⟨rfl, rfl⟩ ⟨rfl, rfl⟩ fun _ =>
      ⟨by simp [Pc.readsHdd], fun _ => live, fun _ => live, fun _ => fine.raising rfl, by simp [Pc.counted]⟩
  | incRef =>
    have live := fine.passed rfl
    obtain ⟨shared, rfl⟩ := Prod.mk.inj (Option.some.inj ran)
    rw [State.readSsd_live live] at shared
    have same := State.setSsd_nrRef (s := p.shared) (φ := fun x => { x with nrRef := x.nrRef + 1 })
      (fun _ => ⟨rfl, rfl, rfl⟩) pop.task.cdevctx
    refine h.of_thread m ?_ ?_ ?_ ?_ ?_ ?_ ?_ <;> rw [← shared]
    · exact managed.congr rfl rfl same managed.issued managed.clean
    · rfl
    · rfl
    · exact fun c => ⟨(same c).1, (same c).2.2⟩
    · intro c
      by_cases e : c = pop.task.cdevctx
      · simp [State.setSsd, Party.counted, Pc.counted, e]
      · simp [State.setSsd, Party.counted, e, Ne.symm e]
    · exact fun _ => rfl
    · refine ⟨by simp [Pc.readsHdd], by simp [Pc.unguarded], fun _ => (same _).1.trans live, by simp [Pc.raising], ?_⟩
      intro _ stage control
      rw [(same _).2.2]
      refine (fine.raising rfl stage control).imp (fun raises => ?_) id
      cases stage <;> first | rfl | cases raises
  | unlock =>
    obtain ⟨shared, rfl⟩ := Prod.mk.inj (Option.some.inj ran)
    exact h.close m shared ⟨rfl, rfl⟩ rfl
      ⟨by simp [Pc.readsHdd], by simp [Pc.unguarded], fun _ => fine.passed rfl, by simp [Pc.raising],
        fun _ => fine.counted rfl⟩
  | writeIo =>
    have live := fine.passed rfl
    obtain ⟨shared, rfl⟩ := Prod.mk.inj (Option.some.inj ran)
    refine h.aside m (shared.symm.trans (State.readSsd_live live)) (fun _ => rfl) (fun _ => rfl) ?_
    exact ⟨by simp [Pc.readsHdd], by simp [Pc.unguarded], fun _ => live, by simp [Pc.raising], fun _ => fine.counted rfl⟩
  | decRef failed =>
    have live := fine.passed rfl
    have mine : 0 < (p.shared.ssd pop.task.cdevctx).nrRef := h.nrRef_pos ((m.mem _).mpr (Or.inl rfl)) rfl
    obtain ⟨shared, rfl⟩ := Prod.mk.inj (Option.some.inj ran)
    rw [State.readSsd_live live] at shared
    have same := State.setSsd_nrRef (s := p.shared) (φ := fun x => { x with nrRef := x.nrRef - 1 })
      (fun _ => ⟨rfl, rfl, rfl⟩) pop.task.cdevctx
    refine h.of_thread m ?_ ?_ ?_ ?_ ?_ ?_ ?_ <;> rw [← shared]
    · exact managed.congr rfl rfl same managed.issued managed.clean
    · rfl
    · rfl
    · exact fun c => ⟨(same c).1, (same c).2.2⟩
    · intro c
      by_cases e : c = pop.task.cdevctx
      · simp only [State.setSsd, Party.counted, Pc.counted, e]
        simp
        omega
      · simp [State.setSsd, Party.counted, e, Ne.symm e]
    · exact fun _ => rfl
    · exact .idle rfl rfl rfl rfl rfl
  | unlockOffline =>
    obtain ⟨shared, rfl⟩ := Prod.mk.inj (Option.some.inj ran)
    exact h.close m shared ⟨rfl, rfl⟩ rfl (.idle rfl rfl rfl rfl rfl)
  | put4pop failed =>
    obtain ⟨⟨reply, s'⟩, moves, same⟩ := Option.map_eq_some_iff.mp ran
    obtain ⟨shared, rfl⟩ := Prod.mk.inj same
    have managed' := managed.call moves (by simp)
    obtain ⟨kept, _⟩ := State.call_some managed.base moves
    rw [shared] at managed' kept
    refine h.of_thread m managed' ?_ ?_ ?_ ?_ ?_ (.idle rfl rfl rfl rfl rfl)
    · rw [kept]
    · rw [kept]
    · intro c
      rw [kept]
      exact ⟨rfl, rfl⟩
    · intro c
      rw [kept]
      rfl
    · intro k
      rw [kept]
      rfl

theorem System.Safe.of_other {others : List Party} {party : Party} (h : p.Safe) (m : p.Moves party [party] others p')
    (managed : p'.shared.Managed) (disks : p'.shared.Disks) (rcuOpen : p'.shared.rcuOpen = p.shared.rcuOpen)
    (refs : ∀ c, (p'.shared.ssd c).nrRef = (p.shared.ssd c).nrRef ∨
      (p.shared.ssd c).freed = true ∧ (p'.shared.ssd c).nrRef = 0)
    (fine : ∀ t, .population t ∈ p.threads → t.Fine p.shared → t.Fine p'.shared) : p'.Safe := by
  have total : ∀ weight, p'.total weight = p.total weight := by
    intro weight
    rw [m.after, m.before]
    simp
  have member : ∀ u, u ∈ p'.threads → u ∈ p.threads := by
    intro u here
    rw [m.mem]
    exact ((m.mem' u).mp here).imp List.mem_singleton.mp id
  refine ⟨managed, disks, ?_, ?_, ?_⟩
  · intro c
    rw [total, ← h.refs c]
    rcases refs c with same | ⟨freed, zero⟩
    · exact same
    · -- no thread holds a reference of a device that has been freed
      rw [zero, h.refs c, eq_comm, Pool.total_eq_zero]
      intro party here
      cases party with
      | population t =>
        by_contra held
        have both : t.pc.counted = true ∧ t.pop.task.cdevctx = c := by
          by_contra no
          exact held (by simp [Party.counted, no])
        have passed : t.pc.passed = true := by
          cases pc : t.pc <;> simp [pc, Pc.counted] at both <;> rfl
        have live := (h.threads t here).passed passed
        rw [both.2, freed] at live
        cases live
      | _ => rfl
  · intro k
    rw [rcuOpen, total]
    exact h.sections k
  · exact fun t here => fine t (member _ here) (h.threads t (member _ here))

theorem System.Safe.request_step {others : List Party} (h : p.Safe) (m : p.Moves .requests [.requests] others p')
    (ran : requestStep env p.shared = some p'.shared) : p'.Safe := by
  have managed := h.managed
  have called : ∀ {call : Call}, (p.shared.call call).map Prod.snd = some p'.shared →
      (∀ m ctx vmalloc, call ≠ .addcdev m ctx vmalloc) → p'.Safe := by
    intro call ran other
    obtain ⟨⟨reply, s'⟩, moves, rfl⟩ := Option.map_eq_some_iff.mp ran
    have managed' := managed.call moves other
    obtain ⟨kept, _⟩ := State.call_some managed.base moves
    have kept : p'.shared = { p.shared with world := p'.shared.world } := kept
    refine h.of_other m managed' ⟨?_, ?_⟩ (by rw [kept]) (fun c => Or.inl (by rw [kept])) fun t _ fine =>
      fine.mono (fun _ => ?_) ?_ ?_
    · rw [kept]
      exact h.disks.bdev
    · rw [kept]
      exact h.disks.torn
    · rw [kept]
      exact ⟨rfl, rfl⟩
    · rw [kept]
      exact ⟨rfl, rfl⟩
    · rw [kept]
  -- a step that leaves `cdev`, the table and the references of populations alone
  have aside : ∀ {addr : Nat} {φ : SsdInfo → SsdInfo}, p'.shared = p.shared.setSsd addr φ →
      (∀ x, (φ x).freed = x.freed ∧ (φ x).cdev = x.cdev ∧ (φ x).listed = x.listed) → (∀ x, (φ x).nrRef = x.nrRef) →
      p'.Safe := by
    intro addr φ shared same refs
    have same := State.setSsd_nrRef (s := p.shared) same addr
    refine h.of_other m ?_ ?_ ?_ ?_ ?_ <;> rw [shared]
    · exact managed.congr rfl rfl same managed.issued managed.clean
    · exact ⟨h.disks.bdev, h.disks.torn⟩
    · rfl
    · intro c
      left
      unfold State.setSsd
      simp only
      split
      · exact refs _
      · rfl
    · exact fun t _ fine => fine.mono (fun _ => ⟨rfl, rfl⟩) ⟨(same _).1, (same _).2.2⟩ rfl
  unfold requestStep at ran
  split at ran
  · exact called ran (by simp)
  · exact called ran (by simp)
  · exact called ran (by simp)
  · exact aside (Option.some.inj ran).symm (fun _ => ⟨rfl, rfl, rfl⟩) fun _ => rfl
  · rename_i addr ioPending nrRef _
    have shared := (Option.some.inj ran).symm
    have same : ∀ c, ((p.shared.setHdd addr fun x => { x with ioPending := ioPending, nrRef := nrRef }).hdd c).released =
          (p.shared.hdd c).released ∧
        ((p.shared.setHdd addr fun x => { x with ioPending := ioPending, nrRef := nrRef }).hdd c).freed =
          (p.shared.hdd c).freed ∧
        ((p.shared.setHdd addr fun x => { x with ioPending := ioPending, nrRef := nrRef }).hdd c).bdev =
          (p.shared.hdd c).bdev := by
      intro c
      unfold State.setHdd
      simp only
      split <;> exact ⟨rfl, rfl, rfl⟩
    refine h.of_other m ?_ ⟨?_, ?_⟩ ?_ ?_ ?_ <;> rw [shared]
    · exact managed.congr rfl rfl (fun _ => ⟨rfl, rfl, rfl⟩) managed.issued managed.clean
    · intro c
      rw [(same c).1, (same c).2.1, (same c).2.2]
      exact h.disks.bdev c
    · intro c
      rw [(same c).1, (same c).2.1]
      exact h.disks.torn c
    · rfl
    · exact fun _ => Or.inl rfl
    · exact fun t _ fine => fine.mono (fun _ => ⟨(same _).1, (same _).2.1⟩) ⟨rfl, rfl⟩ rfl
  · obtain ⟨_, ran⟩ := Option.ite_none_right_eq_some.mp ran
    exact aside (Option.some.inj ran).symm (fun _ => ⟨rfl, rfl, rfl⟩) fun _ => rfl

end Driver

end Iostash
