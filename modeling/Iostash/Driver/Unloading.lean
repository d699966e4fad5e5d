import Iostash.Driver.Safety

/-!
# The stages of a teardown

`_unload_ssd` and `_unload_hdd`, one stage at a time: the grace period and the wait for `nr_ref` are what
lets a device go from being in use to being freed.
-/

namespace Iostash

namespace Driver

open Util

variable {s s' : State} {p p' : System} {t : Thread} {env : Env} {reply : Reply}

/-! ### Tearing down a device -/

/-- No device of the engine has this context. -/
def State.Unplugged (s : State) (addr : Nat) : Prop := ∀ d n, s.world.sce.view.dev d ≠ some (addr, n)

theorem State.Managed.unplugged {addr : Nat} {stage : SsdStage} (h : s.Managed) (control : s.control = .ssd addr stage)
    (past : stage ≠ .rmcdev) : s.Unplugged addr :=
  fun d n dev => past ((h.plugged d addr n dev).2.2 stage control)

/-- A device whose teardown goes on. -/
theorem State.Managed.tear {addr : Nat} {stage' : SsdStage} (h : s.Managed)
    (unplugged : s.Unplugged addr) (world : s'.world = s.world) (control' : s'.control = .ssd addr stage')
    (others : ∀ c, c ≠ addr → s'.ssd c = s.ssd c) (cdev : stage'.cleared = true → (s'.ssd addr).cdev = none)
    (listed : ∀ listed ∈ stage'.listed, (s'.ssd addr).listed = listed)
    (issued : ∀ k ∈ s'.rcuOpen, k < s'.rcuNext) (clean : s'.misread = false ∧ s'.misused = false) : s'.Managed := by
  refine ⟨world ▸ h.base, ?_, ?_, issued, clean⟩
  · intro d c n dev
    rw [world] at dev
    have ne : c ≠ addr := by
      rintro rfl
      exact unplugged d n dev
    rw [others c ne, control']
    obtain ⟨live, cdev, _⟩ := h.plugged d c n dev
    exact ⟨live, cdev, fun stage e => absurd (Control.ssd.inj e).1.symm ne⟩
  · intro c stage₁ here
    rw [control'] at here
    obtain ⟨rfl, rfl⟩ := Control.ssd.inj here
    exact ⟨cdev, listed⟩

theorem Thread.Fine.tear {addr : Nat} {stage stage' : SsdStage} (fine : t.Fine s) (control : s.control = .ssd addr stage)
    (control' : s'.control = .ssd addr stage') (hdd : s'.hdd = s.hdd) (freed : ∀ c, (s'.ssd c).freed = (s.ssd c).freed)
    (raises : t.pc.raising = true → t.pop.task.cdevctx = addr →
      stage.raises t.section_ = true ∨ (s.ssd addr).listed = true →
      stage'.raises t.section_ = true ∨ (s'.ssd addr).listed = true)
    (holds : t.pc.counted = true → t.pop.task.cdevctx = addr → stage.holds = true ∨ (s.ssd addr).listed = true →
      stage'.holds = true ∨ (s'.ssd addr).listed = true) : t.Fine s' := by
  refine ⟨?_, ?_, ?_, ?_, ?_⟩
  · rw [hdd]
    exact fine.reading
  · rw [freed]
    exact fine.unguarded
  · rw [freed]
    exact fine.passed
  · intro pc stage₁ here
    rw [control'] at here
    obtain ⟨same, rfl⟩ := Control.ssd.inj here
    have before := fine.raising pc stage (by rw [control, same])
    rw [← same] at before ⊢
    exact raises pc same.symm before
  · intro pc stage₁ here
    rw [control'] at here
    obtain ⟨same, rfl⟩ := Control.ssd.inj here
    have before := fine.counted pc stage (by rw [control, same])
    rw [← same] at before ⊢
    exact holds pc same.symm before

theorem System.Safe.of_ssd {others : List Party} {addr : Nat} {stage stage' : SsdStage} {φ : SsdInfo → SsdInfo} {s : State}
    (h : p.Safe) (m : p.Moves .control [.control] others p') (managed : s.Managed) (control : s.control = .ssd addr stage)
    (same : s = { p.shared with world := s.world }) (unplugged : s.Unplugged addr)
    (shared : p'.shared = (s.setSsd addr φ).next (.ssd addr stage'))
    (keeps : ∀ x, (φ x).freed = x.freed ∧ (φ x).nrRef = x.nrRef)
    (cdev : stage'.cleared = true → (φ (s.ssd addr)).cdev = none)
    (listed : ∀ listed ∈ stage'.listed, (φ (s.ssd addr)).listed = listed)
    (raises : ∀ t, .population t ∈ p.threads → t.pc.raising = true →
      stage.raises t.section_ = true ∨ (s.ssd addr).listed = true →
      stage'.raises t.section_ = true ∨ (φ (s.ssd addr)).listed = true)
    (holds : ∀ t, .population t ∈ p.threads → t.pc.counted = true → t.pop.task.cdevctx = addr →
      stage.holds = true ∨ (s.ssd addr).listed = true →
      stage'.holds = true ∨ (φ (s.ssd addr)).listed = true) : p'.Safe := by
  have here : ((s.setSsd addr φ).next (.ssd addr stage')).ssd addr = φ (s.ssd addr) := if_pos rfl
  have there : ∀ c, c ≠ addr → ((s.setSsd addr φ).next (.ssd addr stage')).ssd c = s.ssd c := fun c ne => if_neg ne
  have ssd : s.ssd = p.shared.ssd := by rw [same]
  have freed : ∀ c, (((s.setSsd addr φ).next (.ssd addr stage')).ssd c).freed = (p.shared.ssd c).freed := by
    intro c
    rw [← ssd]
    by_cases e : c = addr
    · rw [e, here, (keeps _).1]
    · rw [there c e]
  refine h.of_other m ?_ ⟨?_, ?_⟩ ?_ ?_ ?_ <;> rw [shared]
  · refine managed.tear unplugged rfl rfl there ?_ ?_ managed.issued managed.clean
    · rw [here]
      exact cdev
    · rw [here]
      exact listed
  · show ∀ c, (s.hdd c).freed = false → (s.hdd c).bdev = true ∨ (s.hdd c).released = true
    rw [same]
    exact h.disks.bdev
  · simp [State.next]
  · show s.rcuOpen = p.shared.rcuOpen
    rw [same]
  · intro c
    left
    rw [← ssd]
    by_cases e : c = addr
    · rw [e, here, (keeps _).2]
    · rw [there c e]
  · intro t member fine
    have control : p.shared.control = .ssd addr stage := by rw [← control, same]
    refine fine.tear control rfl ?_ freed (fun pc _ => ?_) fun pc names => ?_
    · show s.hdd = p.shared.hdd
      rw [same]
    · rw [here, ← ssd]
      exact raises t member pc
    · rw [here, ← ssd]
      exact holds t member pc names

theorem State.setSsd_id {addr : Nat} : s.setSsd addr (fun x => x) = s := by
  have same : (fun a => if a = addr then s.ssd a else s.ssd a) = s.ssd := by
    funext a
    split <;> rfl
  unfold setSsd
  rw [same]

theorem State.rmcdev_gone {d : Nat} (base : s.world.Base) (moves : s.call (.rmcdev d) = some (reply, s')) :
    s'.world.sce.view.dev d = none := by
  obtain ⟨w, ran, replied⟩ := Option.bind_eq_some_iff.mp moves
  obtain ⟨op, r, sce', named, run, rfl⟩ := World.exec_eq_some.mp ran
  obtain rfl := Option.some.inj named
  obtain ⟨_, rfl⟩ := Prod.mk.inj (Option.some.inj replied)
  obtain ⟨_, effect⟩ := Sce.call_effect base.inv (show (Op.rmcdev d).Typed from trivial) run
  show sce'.view.dev d = none
  generalize sce'.view = v' at effect
  cases effect with
  | rmcdevFail absent => exact absent
  | rmcdev => exact if_pos rfl

theorem System.Safe.ssd_step {others : List Party} {addr : Nat} {stage : SsdStage} (h : p.Safe)
    (careful : Party.Careful p env .control) (m : p.Moves .control [.control] others p')
    (control : p.shared.control = .ssd addr stage) (ran : controlStep env p.shared = some p'.shared) : p'.Safe := by
  have managed := h.managed
  have torn := managed.torn addr stage control
  have cleared : stage.cleared = true → stage ≠ .rmcdev := by
    rintro clear rfl
    cases clear
  -- a step that changes nothing but the stage
  have on : ∀ {stage'}, stage.cleared = true → p.shared.next (.ssd addr stage') = p'.shared →
      (∀ listed ∈ stage'.listed, (p.shared.ssd addr).listed = listed) →
      (∀ t, .population t ∈ p.threads → t.pc.raising = true →
        stage.raises t.section_ = true ∨ (p.shared.ssd addr).listed = true →
        stage'.raises t.section_ = true ∨ (p.shared.ssd addr).listed = true) →
      (∀ t, .population t ∈ p.threads → t.pc.counted = true → t.pop.task.cdevctx = addr →
        stage.holds = true ∨ (p.shared.ssd addr).listed = true →
        stage'.holds = true ∨ (p.shared.ssd addr).listed = true) → p'.Safe := by
    intro stage' clear shared listed raises holds
    refine h.of_ssd m managed control rfl (managed.unplugged control (cleared clear)) ?_ (fun _ => ⟨rfl, rfl⟩)
      (fun _ => torn.1 clear) listed raises holds
    rw [State.setSsd_id, shared]
  unfold controlStep at ran
  rw [control] at ran
  cases stage with
  | rmcdev =>
    have listed : (p.shared.ssd addr).listed = true := torn.2 true rfl
    cases cdev : (p.shared.ssd addr).cdev with
    | none =>
      simp only [cdev] at ran
      have shared : p'.shared = (p.shared.setSsd addr fun x => x).next (.ssd addr .offline) := by
        rw [State.setSsd_id, Option.some.inj ran]
      refine h.of_ssd m managed control rfl ?_ shared (fun _ => ⟨rfl, rfl⟩) (fun _ => cdev) ?_
        (fun _ _ _ _ => Or.inl rfl) fun _ _ _ _ _ => Or.inl rfl
      · intro d n dev
        rw [(managed.plugged d addr n dev).2.1] at cdev
        cases cdev
      · rintro _ ⟨⟩
        exact listed
    | some d =>
      simp only [cdev] at ran
      obtain ⟨⟨reply, s'⟩, moves, shared⟩ := Option.map_eq_some_iff.mp ran
      have managed' := managed.call moves (by simp)
      obtain ⟨kept, _⟩ := State.call_some managed.base moves
      have control' : s'.control = .ssd addr .rmcdev := by rw [kept, ← control]
      have shared : p'.shared = (s'.setSsd addr fun x => x).next (.ssd addr .clearCdev) := by
        rw [State.setSsd_id, ← shared]
      refine h.of_ssd m managed' control' kept ?_ shared (fun _ => ⟨rfl, rfl⟩) (by simp [SsdStage.cleared]) ?_
        (fun _ _ _ _ => Or.inl rfl) fun _ _ _ _ _ => Or.inl rfl
      · intro e n dev
        have here := (managed'.plugged e addr n dev).2.1
        rw [kept] at here
        obtain rfl := Option.some.inj (cdev.symm.trans here)
        rw [State.rmcdev_gone managed.base moves] at dev
        cases dev
      · rintro _ ⟨⟩
        rw [kept]
        exact listed
  | clearCdev =>
    refine h.of_ssd m managed control rfl (managed.unplugged control (by simp)) (Option.some.inj ran).symm
      (fun _ => ⟨rfl, rfl⟩) (fun _ => rfl) ?_ (fun _ _ _ _ => Or.inl rfl) fun _ _ _ _ _ => Or.inl rfl
    rintro _ ⟨⟩
    exact torn.2 true rfl
  | offline =>
    have listed : (p.shared.ssd addr).listed = true := torn.2 true rfl
    simp only at ran
    split at ran
    · refine h.of_ssd m managed control rfl (managed.unplugged control (by simp)) (Option.some.inj ran).symm
        (fun _ => ⟨rfl, rfl⟩) (fun _ => torn.1 rfl) ?_ (fun _ _ _ _ => Or.inl rfl) fun _ _ _ _ _ => Or.inl rfl
      rintro _ ⟨⟩
    · -- a failed read has set it offline: the teardown does not wait
      refine on rfl (Option.some.inj ran) ?_ (fun _ _ _ _ => Or.inr listed) fun _ _ _ _ _ => Or.inr listed
      rintro _ ⟨⟩
  | listDel =>
    refine h.of_ssd m managed control rfl (managed.unplugged control (by simp)) (Option.some.inj ran).symm
      (fun _ => ⟨rfl, rfl⟩) (fun _ => torn.1 rfl) ?_ (fun _ _ _ _ => Or.inl rfl) fun _ _ _ _ _ => Or.inl rfl
    rintro _ ⟨⟩
    rfl
  | synchronize =>
    refine on rfl (Option.some.inj ran) ?_ (fun t member pc _ => Or.inl ?_) fun _ _ _ _ _ => Or.inl rfl
    · rintro _ ⟨⟩
      exact torn.2 false rfl
    · -- the sections open now began before the grace period
      refine decide_eq_true (managed.issued _ (h.mem_rcuOpen member ?_))
      cases here : t.pc <;> simp [here, Pc.raising] at pc <;> rfl
  | gracePeriod bound =>
    have unlisted : (p.shared.ssd addr).listed = false := torn.2 false rfl
    simp only [Option.ite_none_right_eq_some] at ran
    refine on rfl (Option.some.inj ran.2) ?_ (fun t member pc raises => ?_) fun _ _ _ _ _ => Or.inl rfl
    · rintro _ ⟨⟩
      exact unlisted
    · have inside : t.pc.inside = true := by
        cases here : t.pc <;> simp [here, Pc.raising] at pc <;> rfl
      have passed := List.all_eq_true.mp ran.1 _ (h.mem_rcuOpen member inside)
      rw [unlisted] at raises
      have before := raises.resolve_right Bool.false_ne_true
      exact absurd (of_decide_eq_true before) (Nat.not_lt.mpr (of_decide_eq_true passed))
  | waitRef =>
    have unlisted : (p.shared.ssd addr).listed = false := torn.2 false rfl
    simp only [Option.ite_none_right_eq_some] at ran
    refine on rfl (Option.some.inj ran.2) ?_ (fun t _ _ raises => ?_) ?_
    · rintro _ ⟨⟩
    · exact raises.imp (fun no => absurd no Bool.false_ne_true) id
    · intro t member counted same _
      have mine := h.nrRef_pos member counted
      rw [same] at mine
      have none := ran.1
      omega
  | blkdevPut =>
    refine on rfl (Option.some.inj ran) ?_ (fun _ _ _ raises => ?_) fun _ _ _ _ holds => ?_
    · rintro _ ⟨⟩
    · exact raises.imp (fun no => absurd no Bool.false_ne_true) id
    · exact holds.imp (fun no => absurd no Bool.false_ne_true) id
  | clearBdev =>
    refine h.of_ssd m managed control rfl (managed.unplugged control (by simp)) (Option.some.inj ran).symm
      (fun _ => ⟨rfl, rfl⟩) (fun _ => torn.1 rfl) ?_ (fun _ _ _ raises => ?_) fun _ _ _ _ holds => ?_
    · rintro _ ⟨⟩
    · exact raises.imp (fun no => absurd no Bool.false_ne_true) id
    · exact holds.imp (fun no => absurd no Bool.false_ne_true) id
  | free =>
    have shared := (Option.some.inj ran).symm
    have unplugged := managed.unplugged control (by simp)
    have there : ∀ c, c ≠ addr → p'.shared.ssd c = p.shared.ssd c := by
      intro c ne
      rw [shared]
      exact if_neg ne
    have here : p'.shared.ssd addr = { p.shared.ssd addr with freed := true } := by
      rw [shared]
      exact if_pos rfl
    refine h.of_other m ⟨?_, ?_, ?_, ?_, ?_⟩ ⟨?_, ?_⟩ ?_ ?_ ?_
    · rw [shared]
      exact managed.base
    · intro d c n dev
      have dev : p.shared.world.sce.view.dev d = some (c, n) := by
        rw [shared] at dev
        exact dev
      have ne : c ≠ addr := by
        rintro rfl
        exact unplugged d n dev
      rw [there c ne, shared]
      obtain ⟨live, cdev, _⟩ := managed.plugged d c n dev
      exact ⟨live, cdev, by simp [State.next]⟩
    · rw [shared]
      simp [State.next]
    · rw [shared]
      exact managed.issued
    · rw [shared]
      exact managed.clean
    · rw [shared]
      exact h.disks.bdev
    · rw [shared]
      simp [State.next]
    · rw [shared]
      rfl
    · intro c
      by_cases e : c = addr
      · rw [e, here]
        exact Or.inl rfl
      · rw [there c e]
        exact Or.inl rfl
    · intro t member fine
      have calm : p'.shared.control = .idle := by rw [shared]; rfl
      have hdd : p'.shared.hdd = p.shared.hdd := by rw [shared]; rfl
      -- a thread past the tests of the guard was waited for, or is of another device
      have away : t.pc.passed = true → (t.pc.raising = true ∨ t.pc.counted = true) → t.pop.task.cdevctx ≠ addr := by
        rintro passed late rfl
        have listed : (p.shared.ssd t.pop.task.cdevctx).listed = true := by
          rcases late with pc | pc
          · exact (fine.raising pc _ control).resolve_left Bool.false_ne_true
          · exact (fine.counted pc _ control).resolve_left Bool.false_ne_true
        exact (careful t member _).1 control (Or.inr ⟨listed, passed⟩) rfl
      refine ⟨?_, ?_, ?_, ?_, ?_⟩
      · rw [hdd]
        exact fine.reading
      · intro pc
        rw [there _ ((careful t member addr).1 control (Or.inl pc))]
        exact fine.unguarded pc
      · intro pc
        rw [there _ (away pc (by cases at_ : t.pc <;> simp [at_, Pc.passed, Pc.raising, Pc.counted] at pc ⊢))]
        exact fine.passed pc
      · intro _ stage there
        rw [calm] at there
        cases there
      · intro _ stage there
        rw [calm] at there
        cases there

/-! ### Tearing down a disk -/

/-- Without a teardown of a device, the control path leaves the devices alone. -/
theorem State.Managed.beside (h : s.Managed)
    (calm' : ∀ c stage, s'.control ≠ .ssd c stage) (world : s'.world = s.world) (ssd : s'.ssd = s.ssd)
    (issued : ∀ k ∈ s'.rcuOpen, k < s'.rcuNext) (clean : s'.misread = false ∧ s'.misused = false) : s'.Managed := by
  refine ⟨world ▸ h.base, ?_, ?_, issued, clean⟩
  · intro d c n dev
    rw [world] at dev
    obtain ⟨live, cdev, _⟩ := h.plugged d c n dev
    rw [ssd]
    exact ⟨live, cdev, fun stage e => absurd e (calm' c stage)⟩
  · intro c stage e
    exact absurd e (calm' c stage)

theorem System.Safe.of_hdd {others : List Party} {addr : Nat} {control' : Control} {φ : HddInfo → HddInfo}
    {s : State} (h : p.Safe) (m : p.Moves .control [.control] others p') (managed : s.Managed)
    (same : s = { p.shared with world := s.world })
    (shared : p'.shared = (s.setHdd addr φ).next control')
    (next : (∃ stage', control' = .hdd addr stage' ∧ (φ (s.hdd addr)).freed = false ∧
      (stage'.past = true → (φ (s.hdd addr)).released = true)) ∨ control' = .idle)
    (bdev : (φ (s.hdd addr)).freed = false → (φ (s.hdd addr)).bdev = true ∨ (φ (s.hdd addr)).released = true)
    (keeps : (∀ t, .population t ∈ p.threads → t.pc.readsHdd = true → t.pop.task.lunctx ≠ addr) ∨
      ∀ x, (φ x).released = x.released ∧ (φ x).freed = x.freed) : p'.Safe := by
  have here : ((s.setHdd addr φ).next control').hdd addr = φ (s.hdd addr) := if_pos rfl
  have there : ∀ c, c ≠ addr → ((s.setHdd addr φ).next control').hdd c = s.hdd c := fun c ne => if_neg ne
  have hdd : s.hdd = p.shared.hdd := by rw [same]
  have ssd : s.ssd = p.shared.ssd := by rw [same]
  have calm : ∀ c stage, control' ≠ .ssd c stage := by
    rintro c stage rfl
    rcases next with ⟨_, e, _⟩ | e <;> cases e
  refine h.of_other m ?_ ⟨?_, ?_⟩ ?_ ?_ ?_ <;> rw [shared]
  · exact managed.beside calm rfl rfl managed.issued managed.clean
  · intro c
    by_cases e : c = addr
    · rw [e, here]
      exact bdev
    · rw [there c e, hdd]
      exact h.disks.bdev c
  · intro c stage' e
    rcases next with ⟨stage₁, same', facts⟩ | same'
    · obtain ⟨rfl, rfl⟩ := Control.hdd.inj (same'.symm.trans e)
      rw [here]
      exact facts
    · cases same'.symm.trans e
  · show s.rcuOpen = p.shared.rcuOpen
    rw [same]
  · intro c
    left
    show (s.ssd c).nrRef = _
    rw [ssd]
  · intro t member fine
    have freed : ∀ c, (((s.setHdd addr φ).next control').ssd c).freed = (p.shared.ssd c).freed := by
      intro c
      show (s.ssd c).freed = _
      rw [ssd]
    refine ⟨?_, ?_, ?_, fun _ stage e => absurd e (calm _ stage), fun _ stage e => absurd e (calm _ stage)⟩
    · intro pc
      have reading := fine.reading pc
      rw [← hdd] at reading
      by_cases e : t.pop.task.lunctx = addr
      · rcases keeps with away | keeps
        · exact absurd e (away t member pc)
        · rw [e] at reading ⊢
          rw [here, (keeps _).1, (keeps _).2]
          exact reading
      · rw [there _ e]
        exact reading
    · rw [freed]
      exact fine.unguarded
    · rw [freed]
      exact fine.passed

theorem State.setHdd_id {addr : Nat} : s.setHdd addr (fun x => x) = s := by
  have same : (fun a => if a = addr then s.hdd a else s.hdd a) = s.hdd := by
    funext a
    split <;> rfl
  unfold setHdd
  rw [same]

theorem System.Safe.hdd_step {others : List Party} {addr : Nat} {stage : HddStage} (h : p.Safe)
    (careful : Party.Careful p env .control) (m : p.Moves .control [.control] others p')
    (control : p.shared.control = .hdd addr stage) (ran : controlStep env p.shared = some p'.shared) : p'.Safe := by
  have managed := h.managed
  obtain ⟨live, released⟩ := h.disks.torn addr stage control
  have bdev := h.disks.bdev addr
  -- a step that does not touch the block device
  have on : ∀ {stage' : HddStage} {φ : HddInfo → HddInfo}, (p.shared.setHdd addr φ).next (.hdd addr stage') = p'.shared →
      (∀ x, (φ x).released = x.released ∧ (φ x).freed = x.freed ∧ (φ x).bdev = x.bdev) →
      (stage'.past = true → stage.past = true) → p'.Safe := by
    intro stage' φ shared keeps past
    refine h.of_hdd m managed rfl shared.symm (Or.inl ⟨stage', rfl, ?_, ?_⟩) ?_
        (Or.inr fun x => ⟨(keeps x).1, (keeps x).2.1⟩)
    · rw [(keeps _).2.1]
      exact live
    · rw [(keeps _).1]
      exact fun here => released (past here)
    · rw [(keeps _).1, (keeps _).2.1, (keeps _).2.2]
      exact bdev
  have still : ∀ {stage' : HddStage}, p.shared.next (.hdd addr stage') = p'.shared →
      (stage'.past = true → stage.past = true) → p'.Safe := by
    intro stage' shared past
    have same : p.shared.setHdd addr (fun x => x) = p.shared := State.setHdd_id
    rw [← same] at shared
    exact on shared (fun _ => ⟨rfl, rfl, rfl⟩) past
  unfold controlStep at ran
  rw [control] at ran
  cases stage with
  | unhook => exact on (Option.some.inj ran) (fun _ => ⟨rfl, rfl, rfl⟩) id
  | offline =>
    simp only at ran
    split at ran
    · exact on (Option.some.inj ran) (fun _ => ⟨rfl, rfl, rfl⟩) id
    · exact still (Option.some.inj ran) id
  | synchronize => exact still (Option.some.inj ran) id
  | gracePeriod bound =>
    simp only [Option.ite_none_right_eq_some] at ran
    exact still (Option.some.inj ran.2) id
  | waitPending =>
    simp only [Option.ite_none_right_eq_some] at ran
    exact still (Option.some.inj ran.2) id
  | waitRef =>
    simp only [Option.ite_none_right_eq_some] at ran
    exact still (Option.some.inj ran.2) id
  | blkdevPut =>
    have now : ((p.shared.hdd addr).released || (p.shared.hdd addr).bdev) = true := by
      rcases bdev live with held | gone
      · rw [held, Bool.or_true]
      · rw [gone, Bool.true_or]
    exact h.of_hdd m managed rfl (Option.some.inj ran).symm (Or.inl ⟨_, rfl, live, fun _ => now⟩)
        (fun _ => Or.inr now)
      (Or.inl fun t member pc => (careful t member addr).2 control pc)
  | clearBdev =>
    exact h.of_hdd m managed rfl (Option.some.inj ran).symm (Or.inl ⟨_, rfl, live, fun _ => released rfl⟩)
      (fun _ => Or.inr (released rfl)) (Or.inr fun _ => ⟨rfl, rfl⟩)
  | rmlun =>
    cases lun : (p.shared.hdd addr).lun with
    | none =>
      simp only [lun] at ran
      exact still (Option.some.inj ran) id
    | some i =>
      simp only [lun] at ran
      obtain ⟨⟨reply, s'⟩, moves, shared⟩ := Option.map_eq_some_iff.mp ran
      have managed' := managed.call moves (by simp)
      obtain ⟨kept, _⟩ := State.call_some managed.base moves
      have hdd : s'.hdd = p.shared.hdd := by rw [kept]
      have shared : p'.shared = (s'.setHdd addr fun x => x).next (.hdd addr .clearLun) := by
        rw [State.setHdd_id, ← shared]
      refine h.of_hdd m managed' kept shared (Or.inl ⟨_, rfl, ?_, ?_⟩) ?_ (Or.inr fun _ => ⟨rfl, rfl⟩)
      · rw [hdd]
        exact live
      · rw [hdd]
        exact fun _ => released rfl
      · rw [hdd]
        exact bdev
  | clearLun =>
    exact on (Option.some.inj ran) (fun _ => ⟨rfl, rfl, rfl⟩) id
  | free =>
    refine h.of_hdd m managed rfl (Option.some.inj ran).symm (Or.inr rfl)
        (fun _ => Or.inr (released rfl)) (Or.inl ?_)
    rintro t member pc rfl
    have held := ((h.threads t member).reading pc).1
    rw [released rfl] at held
    cases held

end Driver

end Iostash
