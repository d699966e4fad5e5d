import Iostash.Driver.Unloading

/-!
# Populations do not outlive their devices

The registration of devices and disks, and the result: when no teardown comes too early, no population
touches what has been released.
-/

namespace Iostash

namespace Driver

open Util

variable {s s' : State} {p p' : System} {env : Env}

/-! ### Registering -/

theorem System.Safe.of_call {others : List Party} (h : p.Safe) (m : p.Moves .control [.control] others p')
    (managed : p'.shared.Managed) (kept : p'.shared = { p.shared with world := p'.shared.world }) : p'.Safe := by
  refine h.of_other m managed ⟨?_, ?_⟩ (by rw [kept]) (fun c => Or.inl (by rw [kept])) fun t _ fine =>
    fine.mono (fun _ => ?_) ?_ ?_
  · rw [kept]
    exact h.disks.bdev
  · rw [kept]
    exact h.disks.torn
  · rw [kept]
    exact ⟨rfl, rfl⟩
  · rw [kept]
    exact ⟨rfl, rfl⟩
  · rw [kept]

theorem State.Managed.register {addr nrSctr d : Nat} {vmalloc : Bool} (h : s.Managed) (idle : s.control = .idle)
    (freed : (s.ssd addr).freed = true) (moves : s.call (.addcdev nrSctr addr vmalloc) = some (.hndl (some d), s')) :
    (s'.setSsd addr fun _ => ⟨some d, true, true, true, 0, 0, false⟩).Managed := by
  obtain ⟨kept, base', turn⟩ := State.call_some h.base moves
  have ssd : s'.ssd = s.ssd := by rw [kept]
  have control : s'.control = .idle := by rw [kept, ← idle]
  have here : (s'.setSsd addr fun _ => ⟨some d, true, true, true, 0, 0, false⟩).ssd addr =
    ⟨some d, true, true, true, 0, 0, false⟩ := if_pos rfl
  have there : ∀ c, c ≠ addr → (s'.setSsd addr fun _ => ⟨some d, true, true, true, 0, 0, false⟩).ssd c = s.ssd c := by
    intro c ne
    rw [← ssd]
    exact if_neg ne
  have still : ∀ c stage, (s'.setSsd addr fun _ => ⟨some d, true, true, true, 0, 0, false⟩).control ≠ .ssd c stage := by
    intro c stage e
    cases control.symm.trans e
  refine ⟨base', ?_, fun c stage e => absurd e (still c stage), ?_, ?_⟩
  · intro e c n dev
    have dev : s'.world.ledger.view.dev e = some (c, n) := dev
    generalize s'.world.ledger = b' at turn dev
    cases turn with
    | noop failed => cases failed
    | @addcdev m ctx d' n' vmalloc size pos slot absent fresh =>
      have either : (if e = d then some (addr, n') else s.world.sce.view.dev e) = some (c, n) := dev
      split at either
      · rename_i same
        obtain ⟨rfl, _⟩ := Prod.mk.inj (Option.some.inj either)
        rw [here, same]
        exact ⟨rfl, rfl, fun stage e => absurd e (still _ stage)⟩
      · have ne : c ≠ addr := by
          rintro rfl
          exact fresh e n either
        obtain ⟨live, cdev, _⟩ := h.plugged e c n either
        rw [there c ne]
        exact ⟨live, cdev, fun stage e => absurd e (still c stage)⟩
  · show ∀ k ∈ s'.rcuOpen, k < s'.rcuNext
    rw [kept]
    exact h.issued
  · show s'.misread = false ∧ s'.misused = false
    rw [kept]
    exact h.clean

theorem System.Safe.idle_step {others : List Party} (h : p.Safe) (m : p.Moves .control [.control] others p')
    (idle : p.shared.control = .idle) (ran : controlStep env p.shared = some p'.shared) : p'.Safe := by
  have managed := h.managed
  have calm : ∀ c stage, p.shared.control ≠ .ssd c stage := by
    rw [idle]
    simp
  have unchanged : p'.shared = p.shared → p'.Safe := by
    intro shared
    exact h.of_call m (shared ▸ managed) (by rw [shared])
  unfold controlStep at ran
  rw [idle] at ran
  simp only at ran
  split at ran
  · exact unchanged (Option.some.inj ran).symm
  · rename_i addr nrSctr vmalloc _
    obtain ⟨freed, ran⟩ := Option.ite_none_right_eq_some.mp ran
    obtain ⟨⟨reply, s'⟩, moves, shared⟩ := Option.map_eq_some_iff.mp ran
    obtain ⟨kept, base', turn⟩ := State.call_some managed.base moves
    simp only at shared
    split at shared
    · rename_i d
      have ssd : s'.ssd = p.shared.ssd := by rw [kept]
      have there : ∀ c, c ≠ addr → p'.shared.ssd c = p.shared.ssd c := by
        intro c ne
        rw [← shared, ← ssd]
        exact if_neg ne
      have hdd : p'.shared.hdd = p.shared.hdd := by
        rw [← shared]
        show s'.hdd = p.shared.hdd
        rw [kept]
      have control : p'.shared.control = p.shared.control := by
        rw [← shared]
        show s'.control = p.shared.control
        rw [kept]
      refine h.of_other m (shared ▸ managed.register idle freed moves) ⟨?_, ?_⟩ ?_ ?_ ?_
      · rw [hdd]
        exact h.disks.bdev
      · rw [hdd, control]
        exact h.disks.torn
      · rw [← shared]
        show s'.rcuOpen = p.shared.rcuOpen
        rw [kept]
      · intro c
        by_cases e : c = addr
        · right
          rw [e, ← shared]
          exact ⟨freed, congrArg SsdInfo.nrRef (if_pos rfl)⟩
        · exact Or.inl (by rw [there c e])
      · -- no thread needs a device that has been freed
        intro t _ fine
        have away : (p.shared.ssd t.pop.task.cdevctx).freed = false → p'.shared.ssd t.pop.task.cdevctx =
            p.shared.ssd t.pop.task.cdevctx := by
          intro live
          apply there _
          intro e
          rw [e, freed] at live
          cases live
        refine ⟨?_, ?_, ?_, ?_, ?_⟩
        · rw [hdd]
          exact fine.reading
        · intro pc
          have live := fine.unguarded pc
          rw [away live]
          exact live
        · intro pc
          have live := fine.passed pc
          rw [away live]
          exact live
        · intro _ stage e
          rw [control, idle] at e
          cases e
        · intro _ stage e
          rw [control, idle] at e
          cases e
    · rename_i none
      have shared : p'.shared = s' := shared.symm
      rw [← shared] at kept turn base'
      refine h.of_call m ?_ kept
      rw [kept]
      refine ⟨base', ?_, managed.torn, managed.issued, managed.clean⟩
      intro e c n dev
      have dev : p'.shared.world.ledger.view.dev e = some (c, n) := dev
      generalize p'.shared.world.ledger = b' at turn dev
      cases turn with
      | noop => exact managed.plugged e c n dev
      | addcdev => exact absurd rfl (none _)
  · rename_i addr nrSctr vmalloc _
    obtain ⟨freed, ran⟩ := Option.ite_none_right_eq_some.mp ran
    obtain ⟨⟨reply, s'⟩, moves, shared⟩ := Option.map_eq_some_iff.mp ran
    obtain ⟨kept, _⟩ := State.call_some managed.base moves
    have managed' := managed.call moves (by simp)
    simp only at shared
    split at shared
    · rename_i i _
      have calm' : ∀ c stage, s'.control ≠ .ssd c stage := by
        rw [kept]
        exact calm
      have there : ∀ c, c ≠ addr → p'.shared.hdd c = p.shared.hdd c := by
        intro c ne
        rw [← shared, kept]
        exact if_neg ne
      have here : p'.shared.hdd addr = ⟨true, true, 0, 0, true, false, some i, false⟩ := by
        rw [← shared]
        exact if_pos rfl
      have still : p'.shared.control = .idle := by
        rw [← shared]
        show s'.control = .idle
        rw [kept, ← idle]
      have ssd : p'.shared.ssd = p.shared.ssd := by
        rw [← shared]
        show s'.ssd = p.shared.ssd
        rw [kept]
      refine h.of_other m ?_ ⟨?_, ?_⟩ ?_ ?_ ?_
      · rw [← shared]
        exact managed'.beside calm' rfl rfl managed'.issued managed'.clean
      · intro c
        by_cases e : c = addr
        · rw [e, here]
          exact fun _ => Or.inl rfl
        · rw [there c e]
          exact h.disks.bdev c
      · rw [still]
        simp
      · rw [← shared]
        show s'.rcuOpen = p.shared.rcuOpen
        rw [kept]
      · intro c
        rw [ssd]
        exact Or.inl rfl
      · intro t _ fine
        refine fine.mono (fun pc => ?_) (by rw [ssd]; exact ⟨rfl, rfl⟩) (by rw [still, idle])
        have live := (fine.reading pc).2
        have ne : t.pop.task.lunctx ≠ addr := by
          intro e
          rw [e, freed] at live
          cases live
        rw [there _ ne]
        exact ⟨rfl, rfl⟩
    · subst shared
      exact h.of_call m managed' kept
  · rename_i addr _
    have shared := Option.some.inj ran
    split at shared
    · rename_i listed
      have control : p'.shared.control = .ssd addr .rmcdev := by rw [← shared]; rfl
      refine h.of_other m ?_ ⟨?_, ?_⟩ ?_ ?_ ?_ <;> rw [← shared]
      · refine ⟨managed.base, ?_, ?_, managed.issued, managed.clean⟩
        · intro d c n dev
          obtain ⟨live, cdev, _⟩ := managed.plugged d c n dev
          exact ⟨live, cdev, fun stage e => (Control.ssd.inj e).2.symm⟩
        · intro c stage e
          obtain ⟨rfl, rfl⟩ := Control.ssd.inj e
          refine ⟨by simp [SsdStage.cleared], ?_⟩
          rintro _ ⟨⟩
          exact listed
      · exact h.disks.bdev
      · simp [State.next]
      · rfl
      · exact fun _ => Or.inl rfl
      · intro t _ fine
        refine ⟨fine.reading, fine.unguarded, fine.passed, fun _ stage e => Or.inl ?_, fun _ stage e => Or.inl ?_⟩
        · rw [← (Control.ssd.inj e).2]
          rfl
        · rw [← (Control.ssd.inj e).2]
          rfl
    · exact unchanged shared.symm
  · rename_i addr _
    have shared := Option.some.inj ran
    split at shared
    · exact unchanged shared.symm
    · rename_i live
      have live : (p.shared.hdd addr).freed = false := by simpa using live
      refine h.of_other m ?_ ⟨?_, ?_⟩ ?_ ?_ ?_ <;> rw [← shared]
      · exact managed.beside (by simp [State.next]) rfl rfl managed.issued managed.clean
      · exact h.disks.bdev
      · intro c stage e
        obtain ⟨rfl, rfl⟩ := Control.hdd.inj e
        exact ⟨live, by simp [HddStage.past]⟩
      · rfl
      · exact fun _ => Or.inl rfl
      · intro t _ fine
        exact ⟨fine.reading, fine.unguarded, fine.passed, by simp [State.next], by simp [State.next]⟩

theorem System.Safe.control_step {others : List Party} (h : p.Safe) (careful : Party.Careful p env .control)
    (m : p.Moves .control [.control] others p') (ran : controlStep env p.shared = some p'.shared) : p'.Safe := by
  cases control : p.shared.control with
  | idle => exact h.idle_step m control ran
  | ssd addr stage => exact h.ssd_step careful m control ran
  | hdd addr stage => exact h.hdd_step careful m control ran

theorem System.Safe.step {act : Nat × Env} (h : p.Safe) (careful : p.Careful act) (moves : p.exec act = some p') :
    p'.Safe := by
  obtain ⟨party, new, others, place, ran, m⟩ := Pool.exec_moves moves
  have careful : party.Careful p act.2 := careful party place
  cases party with
  | control =>
    obtain ⟨s', step, same⟩ := Option.map_eq_some_iff.mp ran
    obtain ⟨rfl, rfl⟩ := Prod.mk.inj same
    exact h.control_step careful m step
  | requests =>
    obtain ⟨s', step, same⟩ := Option.map_eq_some_iff.mp ran
    obtain ⟨rfl, rfl⟩ := Prod.mk.inj same
    exact h.request_step m step
  | population t =>
    obtain ⟨⟨s', t'⟩, step, same⟩ := Option.map_eq_some_iff.mp ran
    obtain ⟨rfl, rfl⟩ := Prod.mk.inj same
    exact h.thread_step careful m step

/-- No population touches what has been released. -/
theorem populations_safe {legacy : Bool} {n : Nat}
    (reached : Reachable System.exec System.Careful (System.start legacy n) p) :
    p.shared.misread = false ∧ p.shared.misused = false := by
  have safe : p.Safe := reached.invariant (System.safe_start legacy n) fun _ _ _ safe ok moves => safe.step ok moves
  exact safe.managed.clean

/-! ### Two runs -/

def Party.careful (p : System) (env : Env) : Party → Bool
  | .control => p.threads.all fun
    | .population t =>
      match p.shared.control with
      | .ssd addr .free => !((t.pc.unguarded || (p.shared.ssd addr).listed && t.pc.passed) && t.pop.task.cdevctx == addr)
      | .hdd addr .blkdevPut => !(t.pc.readsHdd && t.pop.task.lunctx == addr)
      | _ => true
    | _ => true
  | .requests => true
  | .population _ => (choose4population p.shared.world.sce env.past).all fun (i, _) =>
      (p.shared.world.sce.luntbl i).all fun l => !(p.shared.hdd l.lunctx).released && !(p.shared.hdd l.lunctx).freed

def System.careful (p : System) (act : Nat × Env) : Bool := p.threads[act.1]?.all (Party.careful p act.2)

theorem System.careful_sound {act : Nat × Env} (ok : p.careful act = true) : p.Careful act := by
  intro party member
  rw [careful, Option.mem_def.mp member] at ok
  have ok : Party.careful p act.2 party = true := ok
  cases party with
  | requests => trivial
  | control =>
    intro t there addr
    have here := List.all_eq_true.mp ok _ there
    refine ⟨?_, ?_⟩
    · rintro control guard rfl
      rw [control] at here
      rcases guard with guard | ⟨listed, passed⟩
      · simp [guard] at here
      · simp [listed, passed] at here
    · rintro control reads rfl
      rw [control] at here
      simp [reads] at here
  | population t =>
    intro _ i f chosen l lun
    simp only [Party.careful, chosen, Option.all_some, lun, Bool.and_eq_true, Bool.not_eq_true'] at ok
    exact ok

/-- Steps of the control path, the requests and the one thread. -/
def control (command : Command) : Nat × Env := (0, { command := command })

def request (work : Work) : Nat × Env := (1, { work := work })

def thread : Nat × Env := (2, {})

/-- A device and a disk are registered, a read misses, and the thread gets the population. -/
def registered : List (Nat × Env) :=
  [control (.registerSsd 7 2048 true), control (.registerHdd 9 4096 true), request (.get4read 0 0 8), thread]

/-- The steps of `hdd_unregister` and of `ssd_unregister`. -/
def unregistered : List (Nat × Env) :=
  (control (.unregisterHdd 9) :: List.replicate 11 (control .nothing)) ++
    control (.unregisterSsd 7) :: List.replicate 10 (control .nothing)

/-- A read of the device fails. -/
def readFailed : List (Nat × Env) :=
  [request (.ssdRefs 7 1), request (.endio4read 7 false), request (.ssdRefs 7 0)]

/-- The thread ends its population before the teardowns. -/
def orderly : System :=
  (execAll System.exec System.careful (System.start true 1)
    (registered ++ List.replicate 11 thread ++ readFailed ++ unregistered)).getD (System.start true 0)

theorem populations_safe_orderly : orderly.shared.misread = false ∧ orderly.shared.misused = false := by
  have reached : Reachable System.exec System.Careful (System.start true 1) orderly :=
    reachable_getD (fun _ _ ok => System.careful_sound ok) (by decide +kernel)
  exact populations_safe reached

/-- A read fails while the thread holds its reference, and `ssd_unregister` does not wait for it. -/
def outrun : System :=
  (execAll System.exec (fun _ _ => true) (System.start true 1)
    (registered ++ List.replicate 8 thread ++ readFailed ++ control (.unregisterSsd 7) ::
      List.replicate 6 (control .nothing) ++ [thread])).getD (System.start true 0)

/-- Inside the guard too a population reads a device that has been freed. -/
theorem populations_outrun : Reachable System.exec (fun _ _ => True) (System.start true 1) outrun ∧
    outrun.shared.misread = true ∧ (outrun.shared.ssd 7).nrRef = 1 := by
  refine ⟨?_, by decide +kernel, by decide +kernel⟩
  exact reachable_getD (fun _ _ _ => trivial) (by decide +kernel)

/-- The thread begins `poptask_read` after the teardowns. -/
def hurried : System :=
  (execAll System.exec (fun _ _ => true) (System.start true 1)
    (registered ++ unregistered ++ List.replicate 4 thread)).getD (System.start true 0)

theorem populations_torn : Reachable System.exec (fun _ _ => True) (System.start true 1) hurried ∧
    hurried.shared.misread = true ∧ hurried.shared.misused = true := by
  refine ⟨?_, by decide +kernel, by decide +kernel⟩
  exact reachable_getD (fun _ _ _ => trivial) (by decide +kernel)

end Driver

end Iostash
