import Iostash.Driver.Devices

/-!
# What the control operations do to the registry

A registration enrolls one SSD or leaves everything as it was, an unregistration always ends, and after
`ssd_unregister_all` nothing is cached. An SSD that a failed read has set offline is not unlisted.
-/

namespace Iostash

open Util
open Driver (CStr)

namespace Caches

variable {hash32 : Nat → Nat → Nat} {s s' : State} {p q d n dev : Nat} {info : SsdInfo} {path : CStr} {ans : Answers}
  {disk : Disk} {r : Int} {act : Act} {bdDev : Option Nat}

/-! ### Removal -/

/-- `_ssd_remove` of an SSD that is online ends. -/
theorem Registry.ssdRemove_spec (h : Registry hash32 s) (here : s.ssd p = some info) (online : info.online = true) :
    ∃ d s', info.cdev = some d ∧ ssdRemove s p = .ok s' ∧ Unlisted s p d s' ∧ Registry hash32 s' := by
  obtain ⟨_, d, _, _, cdev, present⟩ := h.usable p info here
  obtain ⟨sce, run, gone⟩ := sceRmcdev_removed h.engine.inv present
  have view : sce.view = s.sce.view.unplug d := by
    rcases sceRmcdev_spec h.engine.inv d with ⟨absent, _⟩ | ⟨_, _, sce', _, run', _, view⟩
    · rw [present] at absent
      cases absent
    · rw [run'] at run
      obtain ⟨_, rfl⟩ := Prod.mk.inj (Except.ok.inj run)
      exact view
  have engine := h.engine.rmcdev run
  have removed : ssdRemove s p = .ok { s.kfree p with
      sce := sce, bucket := fun b => (s.bucket b).erase p, nrSsd := s.nrSsd - 1 } := by
    refine (destroySsd_eq here).trans ?_
    rw [cdev, online]
    unfold rmcdev
    simp only [run, Except.map, if_true]
  have pos : 0 < s.nrSsd := by
    rw [h.count]
    exact h.engine.inv.shape.devices.nrCdev_pos present
  have unlisted : Unlisted s p d { s.kfree p with
      sce := sce, bucket := fun b => (s.bucket b).erase p, nrSsd := s.nrSsd - 1 } :=
    ⟨rfl, rfl, Nat.sub_add_cancel pos, view, engine⟩
  exact ⟨d, _, cdev, removed, unlisted, h.unlisted here cdev unlisted gone.nrCdev⟩

/-- `_ssd_remove` of an SSD that is offline takes its device and frees its memory, and leaves it in its bucket. -/
theorem Registry.ssdRemove_offline (h : Registry hash32 s) (here : s.ssd p = some info) (off : info.online = false) :
    ∃ s', ssdRemove s p = .ok s' ∧ s'.ssd p = none ∧ p ∈ s'.bucket (bucketOf hash32 info.devT) ∧
      s'.nrSsd = s'.sce.nrCdev + 1 := by
  obtain ⟨_, d, _, _, cdev, present⟩ := h.usable p info here
  obtain ⟨listed, _⟩ := h.listed p info here
  obtain ⟨sce, run, gone⟩ := sceRmcdev_removed h.engine.inv present
  refine ⟨{ s.kfree p with sce := sce }, ?_, if_pos rfl, listed, ?_⟩
  · refine (destroySsd_eq here).trans ?_
    rw [cdev, off]
    unfold rmcdev
    simp only [run, Except.map, Bool.false_eq_true, if_false]
  · exact h.count.trans gone.nrCdev.symm

/-! ### Registration -/

theorem allocSsd_some {t : State} (found : allocSsd hash32 s path ans = some (p, t)) : ∃ dev, ans.bdDev = some dev ∧
    searchSsd hash32 s dev = none ∧ ans.addr = some p ∧ t = s.kzalloc p { path := path, devT := dev } := by
  obtain ⟨dev, bdDev, found⟩ := Option.bind_eq_some_iff.mp found
  refine ⟨dev, bdDev, ?_⟩
  split at found
  · cases found
  · rename_i none
    obtain ⟨_, addr, e⟩ := Option.map_eq_some_iff.mp found
    obtain ⟨rfl, rfl⟩ := Prod.mk.inj e
    exact ⟨Option.not_isSome_iff_eq_none.mp none, addr, rfl⟩

theorem Same.refl (engine : s.sce.Reached) : Same s s := ⟨rfl, rfl, rfl, rfl, engine⟩

/-- The engine takes the device in the slot it answers, or stays as it was. -/
theorem addcdev_cases {sce sce' : Sce} {m ctx : Nat} {vmalloc : Bool} {hndl : Option Nat} (reached : sce.Reached)
    (typed : m < 2 ^ 64) (run : sceAddcdev sce m ctx vmalloc = .ok (hndl, sce')) :
    sce'.Reached ∧ (hndl = none ∧ sce' = sce ∨ ∃ d, hndl = some d ∧ d < sceMaxCdev ∧ sce.dev d = none ∧
      sce'.view = sce.view.plug d ctx (u32 (m / sceSctrPerFrag))) := by
  refine ⟨reached.addcdev typed run, ?_⟩
  rcases sceAddcdev_spec reached.inv m ctx vmalloc with
    fail | ⟨d, n, rfl, _, slot, absent, _, _, ⟨_, stop⟩ | ⟨sce₁, ok, _, view⟩⟩
  · obtain ⟨rfl, rfl⟩ := Prod.mk.inj (Except.ok.inj (fail.symm.trans run))
    exact Or.inl ⟨rfl, rfl⟩
  · rw [stop] at run
    cases run
  · obtain ⟨rfl, rfl⟩ := Prod.mk.inj (Except.ok.inj (ok.symm.trans run))
    exact Or.inr ⟨d, rfl, slot, absent, view⟩

theorem State.kzalloc_sce {sce : Sce} :
    State.kzalloc { s with sce := sce } p info = { s.kzalloc p info with sce := sce } := rfl

/-- A device that the engine took is taken out again when no kobject is made. -/
theorem Registry.destroySsd_plugged {sce : Sce} {ctx : Nat} (h : Registry hash32 s) (unused : s.ssd p = none)
    (engine : sce.Reached) (absent : s.sce.dev d = none) (view : sce.view = s.sce.view.plug d ctx n)
    (cdev : info.cdev = some d) (off : info.online = false)
    (run : destroySsd (State.kzalloc { s with sce := sce } p info) p = .ok s') : Same s s' := by
  rw [destroySsd_eq State.kzalloc_ssd, cdev, off] at run
  obtain ⟨sce', removed, rfl⟩ := Except.map_eq_ok.mp run
  obtain ⟨⟨ret, sce₂⟩, done, rfl⟩ := Except.map_eq_ok.mp removed
  change sceRmcdev sce d = .ok (ret, sce₂) at done
  have present : sce.dev d = some (ctx, n) := by
    have devs : sce.dev = (s.sce.view.plug d ctx n).dev := congrArg View.dev view
    rw [devs]
    exact if_pos rfl
  have kept : ((s.kzalloc p info).kfree p).ssd = s.ssd := congrArg State.ssd (State.kfree_kzalloc unused)
  refine ⟨kept, rfl, rfl, ?_, engine.rmcdev done⟩
  rcases sceRmcdev_spec engine.inv d with ⟨gone, _⟩ | ⟨_, _, _, _, ok, _, view'⟩
  · rw [present] at gone
    cases gone
  · obtain ⟨_, rfl⟩ := Prod.mk.inj (Except.ok.inj (ok.symm.trans done))
    apply view'.trans
    rw [view]
    exact View.unplug_plug h.engine.inv.sound absent

/-- A registration fails and leaves everything as it was, or enrolls the SSD at the address `kzalloc` answered. -/
theorem Registry.ssdRegister_cases (h : Registry hash32 s) (fresh : ∀ p, ans.addr = some p → p ≠ 0 ∧ s.ssd p = none)
    (run : ssdRegister hash32 s path ans = .ok (r, s')) :
    r ≠ 0 ∧ (∀ p dev disk, ¬ Accepted hash32 s ans p dev disk) ∧ Same s s' ∨
    r = 0 ∧ ∃ p dev d disk, Accepted hash32 s ans p dev disk ∧ Enrolled hash32 s path p dev d disk s' := by
  -- an SSD that the engine has no device of is forgotten
  have failed : ∀ {p info}, s.ssd p = none → info.cdev = none → info.online = false →
      (destroySsd (s.kzalloc p info) p).map (fun s => ((-1 : Int), s)) = .ok (r, s') → r ≠ 0 ∧ Same s s' := by
    intro p info unused none off run
    rw [destroySsd_kzalloc unused none off] at run
    obtain ⟨rfl, rfl⟩ := Prod.mk.inj (Except.ok.inj run)
    exact ⟨by decide, .refl h.engine⟩
  unfold ssdRegister at run
  split at run
  · rename_i none
    obtain ⟨rfl, rfl⟩ := Prod.mk.inj (Except.ok.inj run)
    refine Or.inl ⟨by decide, fun p dev disk ok => ?_, .refl h.engine⟩
    unfold allocSsd at none
    rw [ok.bdDev, ok.addr] at none
    simp [ok.unlisted] at none
  rename_i p t found
  obtain ⟨dev, bdDev, unlisted, addr, rfl⟩ := allocSsd_some found
  obtain ⟨ne, unused⟩ := fresh p addr
  split at run
  · rename_i lost
    obtain ⟨nonzero, same⟩ := failed unused rfl rfl run
    refine Or.inl ⟨nonzero, fun p dev disk ok => ?_, same⟩
    rw [ok.opened] at lost
    cases lost
  rename_i disk opened
  have own : ∀ {p' dev' disk'}, Accepted hash32 s ans p' dev' disk' → disk' = disk := fun ok =>
    Option.some.inj (ok.opened.symm.trans opened)
  dsimp only at run
  split at run
  · rename_i busy
    rw [State.setSsd_kzalloc] at run
    obtain ⟨nonzero, same⟩ := failed unused rfl rfl run
    refine Or.inl ⟨nonzero, fun p dev disk ok => ?_, same⟩
    have closed := ok.closed
    rw [own ok] at closed
    omega
  rename_i closed
  split at run
  · rename_i small
    rw [State.setSsd_kzalloc, State.setSsd_kzalloc] at run
    obtain ⟨nonzero, same⟩ := failed unused rfl rfl run
    refine Or.inl ⟨nonzero, fun p dev disk ok => ?_, same⟩
    have room := ok.room
    rw [own ok] at room
    omega
  rw [State.setSsd_kzalloc, State.setSsd_kzalloc, State.setSsd_kzalloc] at run
  have typed : disk.nrSects - iostashHeaderSct < 2 ^ 64 := Nat.lt_of_le_of_lt (Nat.sub_le _ _) disk.sized
  have context : ∀ e n, s.sce.dev e ≠ some (p, n) := by
    intro e n present
    obtain ⟨info, here, _⟩ := h.devices e p n present
    rw [unused] at here
    cases here
  split at run
  · cases run
  · rename_i sce added
    obtain ⟨_, ⟨_, rfl⟩ | ⟨_, e, _⟩⟩ := addcdev_cases h.engine typed added
    · obtain ⟨nonzero, same⟩ := failed unused rfl rfl run
      refine Or.inl ⟨nonzero, fun p dev disk ok => ?_, same⟩
      have handed := (sceAddcdev_handed h.engine.inv.shape.devices ne context added).mpr
        ⟨h.count ▸ ok.slot, ok.vmalloc, own ok ▸ ok.size⟩
      cases handed
    · cases e
  rename_i d sce added
  obtain ⟨slots, vmalloc, size⟩ := (sceAddcdev_handed h.engine.inv.shape.devices ne context added).mp rfl
  obtain ⟨engine, ⟨e, _⟩ | ⟨_, e, slot, absent, view⟩⟩ := addcdev_cases h.engine typed added
  · cases e
  obtain rfl := Option.some.inj e
  dsimp only at run
  rw [← State.kzalloc_sce, State.setSsd_kzalloc] at run
  split at run
  · rename_i nonzero
    obtain ⟨t, destroyed, e⟩ := Except.map_eq_ok.mp run
    obtain ⟨rfl, rfl⟩ := Prod.mk.inj e
    exact Or.inl ⟨nonzero, fun p dev disk ok => nonzero ok.kobj,
      h.destroySsd_plugged unused engine absent view rfl rfl destroyed⟩
  rename_i kobj
  obtain ⟨t, inserted, e⟩ := Except.map_eq_ok.mp run
  obtain ⟨rfl, rfl⟩ := Prod.mk.inj e
  unfold insertSsd at inserted
  have devOf : State.devOf (State.kzalloc { s with sce := sce } p
      ⟨path, dev, some disk, disk.nrSects - iostashHeaderSct, some d, false⟩) p = dev := State.devOf_eq State.kzalloc_ssd
  split at inserted
  · cases inserted
  · rename_i named
    rw [devOf] at named
    obtain rfl := Except.ok.inj inserted
    refine Or.inr ⟨rfl, p, dev, d, disk,
      ⟨bdDev, unlisted, addr, opened, Nat.not_lt.mp closed, size, h.count.symm ▸ slots, vmalloc, not_not.mp kobj⟩,
      ⟨ne, unused⟩, named, ?_, ?_, rfl, slot, absent, view, engine⟩
    · exact congrArg State.ssd (State.setSsd_kzalloc (s := { s with sce := sce }))
    · show bucketAdd _ _ _ _ = _
      unfold bucketAdd
      rw [devOf]
      rfl

/-- A registration ends if the path names no device of number 0 and no SSD has more fragments than a descriptor
can name. -/
theorem Registry.ssdRegister_returns (h : Registry hash32 s) (fresh : ∀ p, ans.addr = some p → p ≠ 0 ∧ s.ssd p = none)
    (named : ans.bdDev ≠ some 0) (short : ∀ p info, s.ssd p = some info → u32 (info.nrSctr / sceSctrPerFrag) ≤ 2 ^ 24)
    (fits : ∀ disk, ans.disk = some disk → u32 ((disk.nrSects - iostashHeaderSct) / sceSctrPerFrag) ≤ 2 ^ 24) :
    ∃ r s', ssdRegister hash32 s path ans = .ok (r, s') := by
  have failed : ∀ {p info}, s.ssd p = none → info.cdev = none → info.online = false →
      ∃ r s', (destroySsd (s.kzalloc p info) p).map (fun s => ((-1 : Int), s)) = .ok (r, s') := by
    intro p info unused none off
    rw [destroySsd_kzalloc unused none off]
    exact ⟨-1, s, rfl⟩
  unfold ssdRegister
  cases found : allocSsd hash32 s path ans with
  | none => exact ⟨-1, s, rfl⟩
  | some both =>
    obtain ⟨p, t⟩ := both
    obtain ⟨dev, bdDev, unlisted, addr, rfl⟩ := allocSsd_some found
    obtain ⟨ne, unused⟩ := fresh p addr
    cases opened : ans.disk with
    | none => exact failed unused rfl rfl
    | some disk =>
      dsimp only
      rw [State.setSsd_kzalloc, State.setSsd_kzalloc, State.setSsd_kzalloc]
      split
      · exact failed unused rfl rfl
      split
      · exact failed unused rfl rfl
      rcases sceAddcdev_spec h.engine.inv (disk.nrSects - iostashHeaderSct) p ans.vmalloc with
        refused | ⟨d, n, size, _, _, _, _, _, ⟨tight, _⟩ | ⟨sce, taken, inv, view⟩⟩
      · have refused : ∀ info, sceAddcdev (s.kzalloc p info).sce _ _ _ = _ := fun _ => refused
        rw [refused]
        exact failed unused rfl rfl
      · refine absurd (roomy_of_short fun e ctx m present => ?_) tight
        have present : (if e = d then some (p, n) else s.sce.dev e) = some (ctx, m) := present
        split at present
        · obtain ⟨_, rfl⟩ := Prod.mk.inj (Option.some.inj present)
          exact size ▸ fits disk opened
        · obtain ⟨info, here, cdev⟩ := h.devices e ctx m present
          obtain ⟨_, e', _, _, cdev', present'⟩ := h.usable ctx info here
          obtain rfl := Option.some.inj (cdev.symm.trans cdev')
          obtain ⟨_, rfl⟩ := Prod.mk.inj (Option.some.inj (present.symm.trans present'))
          exact short ctx info here
      · have taken : ∀ info, sceAddcdev (s.kzalloc p info).sce _ _ _ = _ := fun _ => taken
        rw [taken]
        dsimp only
        rw [← State.kzalloc_sce, State.setSsd_kzalloc]
        split
        · have present : sce.dev d = some (p, n) := (congrFun (congrArg View.dev view) d).trans (if_pos rfl)
          rw [destroySsd_eq State.kzalloc_ssd]
          rcases sceRmcdev_spec inv d with ⟨gone, _⟩ | ⟨_, _, sce', _, removed, _, _⟩
          · rw [present] at gone
            cases gone
          · have removed : ∀ info, rmcdev (State.kzalloc { s with sce := sce } p info).sce (some d) = .ok sce' :=
              fun _ => Except.map_eq_ok.mpr ⟨_, removed, rfl⟩
            rw [removed]
            exact ⟨_, _, rfl⟩
        · unfold insertSsd
          rw [State.devOf_eq State.kzalloc_ssd, if_neg fun zero : dev = 0 => named (zero ▸ bdDev)]
          exact ⟨_, _, rfl⟩

/-! ### Unregistration -/

/-- `ssd_unregister` ends. It removes the SSD listed under the device number, if there is one. -/
theorem Registry.ssdUnregister_spec (h : Registry hash32 s) (online : s.Allows (.unregister bdDev)) : ∃ s', ssdUnregister hash32 s bdDev = .ok s' ∧
    Registry hash32 s' ∧ ∀ p info, s'.ssd p = some info ↔ s.ssd p = some info ∧ bdDev ≠ some info.devT := by
  unfold ssdUnregister
  cases found : bdDev.bind (searchSsd hash32 s) with
  | none =>
    refine ⟨s, rfl, h, fun p info => iff_self_and.mpr ?_⟩
    rintro here rfl
    exact h.search_eq_none.mp found p info here rfl
  | some p =>
    obtain ⟨dev, rfl, found⟩ := Option.bind_eq_some_iff.mp found
    obtain ⟨info, here, rfl⟩ := h.search_eq_some.mp found
    obtain ⟨d, s', _, run, gone, h'⟩ := h.ssdRemove_spec here (online p info here rfl)
    refine ⟨s', run, h', fun q info' => ?_⟩
    rw [gone.ssd]
    dsimp only
    split
    · rename_i same
      subst same
      apply iff_of_false (Option.some_ne_none _).symm
      rintro ⟨there, other⟩
      obtain rfl := Option.some.inj (here.symm.trans there)
      exact other rfl
    · rename_i ne
      refine iff_self_and.mpr fun there same => ne ?_
      have found' := h.search_eq_some.mpr ⟨info', there, (Option.some.inj same).symm⟩
      exact Option.some.inj (found'.symm.trans found)

/-- The SSDs of a list are removed, and no other. -/
theorem Registry.removeBucket_spec {l : List Nat} (h : Registry hash32 s) (online : s.Allows .unregisterAll)
    (here : ∀ p ∈ l, s.ssd p ≠ none) (nodup : l.Nodup) : ∃ s', removeBucket l s = .ok s' ∧ Registry hash32 s' ∧ s'.sce.view.lun = s.sce.view.lun ∧
    ∀ p info, s'.ssd p = some info ↔ s.ssd p = some info ∧ p ∉ l := by
  induction l generalizing s with
  | nil => exact ⟨s, rfl, h, rfl, fun p info => iff_self_and.mpr fun _ => List.not_mem_nil⟩
  | cons p l ih =>
    obtain ⟨info, there⟩ := Option.ne_none_iff_exists'.mp (here p List.mem_cons_self)
    obtain ⟨new, nodup⟩ := List.nodup_cons.mp nodup
    obtain ⟨d, t, _, first, gone, h'⟩ := h.ssdRemove_spec there (online p info there)
    have online' : t.Allows .unregisterAll := by
      intro q info' there'
      rw [gone.ssd] at there'
      dsimp only at there'
      split at there'
      · cases there'
      · exact online q info' there'
    have left : ∀ q ∈ l, t.ssd q ≠ none := by
      intro q member
      rw [gone.ssd]
      dsimp only
      rw [if_neg fun e : q = p => new (e ▸ member)]
      exact here q (List.mem_cons_of_mem _ member)
    obtain ⟨s', run, h'', luns, rest⟩ := ih h' online' left nodup
    refine ⟨s', ?_, h'', ?_, fun q info => ?_⟩
    · unfold removeBucket
      rw [first]
      exact run
    · rw [luns, gone.view]
      rfl
    · rw [rest, gone.ssd, List.mem_cons, not_or]
      dsimp only
      split
      · rename_i same
        exact iff_of_false (fun both => Option.some_ne_none _ both.1.symm) fun both => both.2.1 same
      · rename_i ne
        exact and_congr_right fun _ => (and_iff_right ne).symm

theorem Registry.removeBuckets_spec (h : Registry hash32 s) (online : s.Allows .unregisterAll) (bs : List Nat) : ∃ s', removeBuckets bs s = .ok s' ∧
    Registry hash32 s' ∧ s'.sce.view.lun = s.sce.view.lun ∧
    ∀ p info, s'.ssd p = some info ↔ s.ssd p = some info ∧ bucketOf hash32 info.devT ∉ bs := by
  induction bs generalizing s with
  | nil => exact ⟨s, rfl, h, rfl, fun p info => iff_self_and.mpr fun _ => List.not_mem_nil⟩
  | cons b bs ih =>
    obtain ⟨t, first, h', luns, left⟩ := h.removeBucket_spec online (h.alive b) (h.buckets.distinct b).of_map
    obtain ⟨s', run, h'', luns', rest⟩ := ih h' fun p info there => online p info ((left p info).mp there).1
    refine ⟨s', ?_, h'', luns'.trans luns, fun p info => ?_⟩
    · unfold removeBuckets
      rw [first]
      exact run
    · have bucket : s.ssd p = some info → (p ∈ s.bucket b ↔ bucketOf hash32 info.devT = b) := by
        intro here
        constructor
        · intro listed
          rw [← State.devOf_eq here]
          exact h.buckets.placed b p listed
        · rintro rfl
          exact (h.listed p info here).1
      rw [rest, left, List.mem_cons, not_or, and_assoc]
      exact and_congr_right fun here => and_congr_left fun _ => not_congr (bucket here)

/-- The registry is kept by every operation, and by what the engine does meanwhile. -/
theorem registry_of_reachable (reached : Reached hash32 s) : Registry hash32 s := by
  apply reached.invariant .start
  intro s act s' h allowed moves
  cases act with
  | register path ans =>
    obtain ⟨⟨r, s'⟩, run, rfl⟩ := Option.map_eq_some_iff.mp moves
    rcases h.ssdRegister_cases allowed.2 (Except.toOption_eq_some.mp run) with ⟨_, _, same⟩ | ⟨_, p, dev, d, disk, ok, new⟩
    · exact h.same same
    · exact h.enrolled ok new
  | unregister bdDev =>
    obtain ⟨s₁, run, h', _⟩ := h.ssdUnregister_spec allowed
    obtain rfl := Except.ok.inj (run.symm.trans (Except.toOption_eq_some.mp moves))
    exact h'
  | unregisterAll =>
    obtain ⟨s₁, run, h', _⟩ := h.removeBuckets_spec allowed (List.range iostashMaxssdBckts)
    obtain rfl := Except.ok.inj (run.symm.trans (Except.toOption_eq_some.mp moves))
    exact h'
  | engine op =>
    obtain ⟨typed, other⟩ := allowed
    obtain ⟨sce, asked, rfl⟩ := Option.map_eq_some_iff.mp (show (s.sce.exec op).map _ = some s' from moves)
    have engine : sce.Reached := h.engine.next typed asked
    obtain ⟨reply, run⟩ := Sce.exec_eq_some.mp asked
    apply h.meanwhile engine
    rcases (Sce.call_inv h.engine.inv typed run).2 with rfl | effect
    · rfl
    · exact effect.dev_eq other
  | endio4read p ssdOnlineToBe => exact (h.endio4read (Except.toOption_eq_some.mp moves)).1

/-! ### Which SSDs are online -/

/-- The last read of the SSD at `p` that failed since its registration has set it offline. The actions stand newest
first. -/
def setOffline (p : Nat) : List Act → Bool
  | [] => false
  | .endio4read q ssdOnlineToBe :: acts => if q = p then !ssdOnlineToBe else setOffline p acts
  | .register _ ans :: acts => if ans.addr = some p then false else setOffline p acts
  | _ :: acts => setOffline p acts

/-- An SSD is online unless a failed read of it has set it offline. -/
theorem online_of_run {acts : List Act} (run : Run (State.exec hash32) State.Allows start acts s) :
    ∀ p info, s.ssd p = some info → info.online = !setOffline p acts := by
  induction run with
  | nil => exact fun p info here => by cases here
  | @step acts s s' act run allowed moves ih =>
    have h : Registry hash32 s := registry_of_reachable ⟨acts, run⟩
    intro p info here
    cases act with
    | register path ans =>
      obtain ⟨⟨r, s'⟩, done, rfl⟩ := Option.map_eq_some_iff.mp moves
      have other : s.ssd p = some info → info.online = !setOffline p (.register path ans :: acts) := by
        intro there
        unfold setOffline
        rw [if_neg]
        · exact ih p info there
        · intro addr
          rw [(allowed.2 p addr).2] at there
          cases there
      rcases h.ssdRegister_cases allowed.2 (Except.toOption_eq_some.mp done) with
        ⟨_, _, same⟩ | ⟨_, q, dev, d, disk, ok, new⟩
      · exact other (same.ssd ▸ here)
      · rw [new.ssd] at here
        dsimp only at here
        split at here
        · rename_i own
          obtain rfl := Option.some.inj here
          unfold setOffline
          rw [if_pos (own ▸ ok.addr)]
          rfl
        · exact other here
    | unregister bdDev =>
      obtain ⟨s₁, done, _, left⟩ := h.ssdUnregister_spec allowed
      obtain rfl := Except.ok.inj (done.symm.trans (Except.toOption_eq_some.mp moves))
      exact ih p info ((left p info).mp here).1
    | unregisterAll =>
      obtain ⟨s₁, done, _, _, left⟩ := h.removeBuckets_spec allowed (List.range iostashMaxssdBckts)
      obtain rfl := Except.ok.inj (done.symm.trans (Except.toOption_eq_some.mp moves))
      exact ih p info ((left p info).mp here).1
    | engine op =>
      obtain ⟨sce, _, rfl⟩ := Option.map_eq_some_iff.mp (show (s.sce.exec op).map _ = some s' from moves)
      exact ih p info here
    | endio4read q ssdOnlineToBe =>
      obtain ⟨_, ssd⟩ := h.endio4read (Except.toOption_eq_some.mp moves)
      rw [ssd] at here
      dsimp only at here
      unfold setOffline
      split at here
      · rename_i own
        obtain ⟨info₀, _, rfl⟩ := Option.map_eq_some_iff.mp here
        rw [if_pos own.symm, Bool.not_not]
      · rename_i other
        rw [if_neg (Ne.symm other)]
        exact ih p info here

/-! ### The cache between control operations -/

/-- In every reachable state the devices of the engine are the SSDs that are found, with the fragments of their own
size, both counts are their number, and all but those that a failed read has set offline are online. -/
theorem ssd_devices_exact {acts : List Act} (run : Run (State.exec hash32) State.Allows start acts s) :
    (∀ dev p, searchSsd hash32 s dev = some p ↔ ∃ info, s.ssd p = some info ∧ info.devT = dev) ∧
    (∀ d p n, s.sce.dev d = some (p, n) ↔ ∃ info, s.ssd p = some info ∧ info.cdev = some d ∧
      n = u32 (info.nrSctr / sceSctrPerFrag)) ∧
    (∀ p info, s.ssd p = some info → info.devT ≠ 0 ∧ info.online = !setOffline p acts ∧ info.cdev.isSome = true) ∧
    s.nrSsd = s.sce.nrCdev := by
  have h : Registry hash32 s := registry_of_reachable ⟨acts, run⟩
  refine ⟨fun dev p => h.search_eq_some, fun d p n => ?_, fun p info here => ?_, h.count⟩
  · constructor
    · intro present
      obtain ⟨info, here, cdev⟩ := h.devices d p n present
      obtain ⟨_, d', _, _, cdev', present'⟩ := h.usable p info here
      obtain rfl := Option.some.inj (cdev.symm.trans cdev')
      exact ⟨info, here, cdev, (Prod.mk.inj (Option.some.inj (present.symm.trans present'))).2⟩
    · rintro ⟨info, here, cdev, rfl⟩
      obtain ⟨_, d', _, _, cdev', present⟩ := h.usable p info here
      obtain rfl := Option.some.inj (cdev.symm.trans cdev')
      exact present
  · obtain ⟨_, named⟩ := h.listed p info here
    obtain ⟨_, d, _, _, cdev, _⟩ := h.usable p info here
    exact ⟨named, online_of_run run p info here, cdev ▸ rfl⟩

/-- A check of the actions that unregister nothing. -/
def State.check (s : State) : Act → Bool
  | .register path ans => decide (path.length < iostashMaxpath) &&
      ans.addr.all fun p => decide (p ≠ 0) && (s.ssd p).isNone
  | .unregister _ => false
  | .unregisterAll => false
  | .engine op => decide op.InType && !plugs op
  | .endio4read _ _ => true

theorem State.check_allows (ok : s.check act = true) : s.Allows act := by
  cases act with
  | register path ans =>
    obtain ⟨short, fresh⟩ := Bool.and_eq_true_iff.mp ok
    refine ⟨of_decide_eq_true short, fun p addr => ?_⟩
    rw [addr] at fresh
    simpa [Option.isNone_iff_eq_none] using fresh
  | unregister _ | unregisterAll => cases ok
  | engine op =>
    obtain ⟨typed, other⟩ := Bool.and_eq_true_iff.mp ok
    exact ⟨of_decide_eq_true typed, by simpa using other⟩
  | endio4read p ssdOnlineToBe => trivial

/-- `"/dev/sdb"` -/
def devSdb : CStr := [0x2f#8, 0x64#8, 0x65#8, 0x76#8, 0x2f#8, 0x73#8, 0x64#8, 0x62#8]

/-- A disk with two fragments behind its header. -/
def sdb : Answers := ⟨some 17, some 1, some ⟨6144, 1, by decide⟩, true, 0⟩

/-- An SSD is registered, and a fragment of a LUN is populated. -/
def mounting : List Act :=
  [.register devSdb sdb, .engine (.addlun 4096 9 true), .engine (.get4read 0 0 8),
    .engine (.get4pop fun _ _ => 0#32), .engine (.put4pop ⟨9, 1, 0, 0⟩ false)]

def mounted : State := (execAll (State.exec fun dev _ => dev) State.check start mounting).getD start

theorem mounted_run : Run (State.exec fun dev _ => dev) State.Allows start mounting.reverse mounted :=
  run_getD (fun _ _ => State.check_allows) (by decide +kernel)

/-- The fragment is read, and the read fails. -/
def wearing : List Act := mounting ++ [Act.engine (.get4read 0 0 8), Act.endio4read 1 false]

def worn : State := (execAll (State.exec fun dev _ => dev) State.check start wearing).getD start

theorem worn_run : Run (State.exec fun dev _ => dev) State.Allows start wearing.reverse worn :=
  run_getD (fun _ _ => State.check_allows) (by decide +kernel)

theorem ssd_devices_exact_worn : worn.sce.dev 0 = some (1, 2) ∧
    ∃ info, worn.ssd 1 = some info ∧ info.cdev = some 0 ∧ info.online = false := by
  have present : worn.sce.dev 0 = some (1, 2) := by decide +kernel
  obtain ⟨_, devices, infos, _⟩ := ssd_devices_exact worn_run
  obtain ⟨info, here, cdev, _⟩ := (devices 0 1 2).mp present
  exact ⟨present, info, here, cdev, (infos 1 info here).2.1⟩

/-- A registration returns 0 exactly for an SSD that can be accepted, and then it is the one that is new. Any
other answer leaves the registry and what is cached as they were. -/
theorem ssd_register_exact (reached : Reached hash32 s) (allowed : s.Allows (.register path ans)) :
    (∀ r s', ssdRegister hash32 s path ans = .ok (r, s') →
      (r = 0 ↔ ∃ p dev disk, Accepted hash32 s ans p dev disk) ∧ (r ≠ 0 → Same s s') ∧
      ∀ p dev disk, Accepted hash32 s ans p dev disk → searchSsd hash32 s' dev = some p ∧
        ∃ d, Enrolled hash32 s path p dev d disk s') ∧
    (ans.bdDev ≠ some 0 → (∀ p info, s.ssd p = some info → u32 (info.nrSctr / sceSctrPerFrag) ≤ 2 ^ 24) →
      (∀ disk, ans.disk = some disk → u32 ((disk.nrSects - iostashHeaderSct) / sceSctrPerFrag) ≤ 2 ^ 24) →
      ∃ r s', ssdRegister hash32 s path ans = .ok (r, s')) := by
  have h := registry_of_reachable reached
  obtain ⟨_, fresh⟩ := allowed
  refine ⟨fun r s' run => ?_, fun named short fits => h.ssdRegister_returns fresh named short fits⟩
  rcases h.ssdRegister_cases fresh run with ⟨nonzero, refused, same⟩ | ⟨rfl, p, dev, d, disk, ok, new⟩
  · refine ⟨iff_of_false nonzero ?_, fun _ => same, fun p dev disk ok => absurd ok (refused p dev disk)⟩
    rintro ⟨p, dev, disk, ok⟩
    exact refused p dev disk ok
  · refine ⟨iff_of_true rfl ⟨p, dev, disk, ok⟩, fun nonzero => absurd rfl nonzero, ?_⟩
    intro p' dev' disk' ok'
    obtain rfl := Option.some.inj (ok.addr.symm.trans ok'.addr)
    obtain rfl := Option.some.inj (ok.bdDev.symm.trans ok'.bdDev)
    obtain rfl := Option.some.inj (ok.opened.symm.trans ok'.opened)
    exact ⟨(h.enrolled ok new).search_eq_some.mpr ⟨_, new.own, rfl⟩, d, new⟩

theorem ssd_register_exact_sdb : ∃ s', ssdRegister (fun dev _ => dev) start devSdb sdb = .ok (0, s') ∧
    searchSsd (fun dev _ => dev) s' 17 = some 1 := by
  have reached : Reached (fun dev _ => dev) start := .init
  have allowed : start.Allows (.register devSdb sdb) := State.check_allows (by decide +kernel)
  have ok : Accepted (fun dev _ => dev) start sdb 1 17 ⟨6144, 1, by decide⟩ :=
    ⟨rfl, by decide +kernel, rfl, rfl, by decide, by decide, by decide, rfl, rfl⟩
  obtain ⟨outcome, returns⟩ := ssd_register_exact reached allowed
  obtain ⟨r, s', run⟩ := returns (by decide) (fun p info here => by cases here) fun disk opened => by
    obtain rfl := Option.some.inj opened
    decide
  obtain ⟨success, _, found⟩ := outcome r s' run
  obtain rfl := success.mpr ⟨1, 17, _, ok⟩
  exact ⟨s', run, (found 1 17 _ ok).1⟩

/-- What engine calls leave of the registry. -/
structure Beside (s s' : State) : Prop where
  ssd : s'.ssd = s.ssd
  bucket : s'.bucket = s.bucket
  nrSsd : s'.nrSsd = s.nrSsd
  dev : s'.sce.dev = s.sce.dev

def OnlyEngine (s : State) (act : Act) : Prop := s.Allows act ∧ ∃ op, act = .engine op

/-- Between two control operations the registry stays. -/
theorem beside_of_engine {t : State} (reached : Reached hash32 s)
    (run : Reachable (State.exec hash32) OnlyEngine s t) : Reached hash32 t ∧ Beside s t := by
  refine run.invariant (I := fun t => Reached hash32 t ∧ Beside s t) ⟨reached, rfl, rfl, rfl, rfl⟩ ?_
  rintro t act t' ⟨here, beside⟩ ⟨allowed, op, rfl⟩ moves
  refine ⟨here.next allowed moves, ?_⟩
  obtain ⟨typed, other⟩ := allowed
  obtain ⟨sce, asked, rfl⟩ := Option.map_eq_some_iff.mp (show (t.sce.exec op).map _ = some t' from moves)
  obtain ⟨reply, called⟩ := Sce.exec_eq_some.mp asked
  refine ⟨beside.ssd, beside.bucket, beside.nrSsd, Eq.trans ?_ beside.dev⟩
  rcases (Sce.call_inv (registry_of_reachable here).engine.inv typed called).2 with rfl | effect
  · rfl
  · exact effect.dev_eq other

/-- An SSD that is registered and, after any calls of the engine, unregistered leaves the registry and the devices
as they were, and nothing is cached on it. -/
theorem ssd_register_unregister {s₁ s₂ : State} (reached : Reached hash32 s) (allowed : s.Allows (.register path ans))
    (run : ssdRegister hash32 s path ans = .ok (0, s₁)) (meanwhile : Reachable (State.exec hash32) OnlyEngine s₁ s₂) :
    ∃ s₃, ssdUnregister hash32 s₂ ans.bdDev = .ok s₃ ∧ Beside s s₃ ∧
      ∀ i f a, s₃.sce.place i f = some a → (s.sce.dev a.dev).isSome = true := by
  have h := registry_of_reachable reached
  rcases h.ssdRegister_cases allowed.2 run with ⟨nonzero, _⟩ | ⟨_, p, dev, d, disk, ok, new⟩
  · exact absurd rfl nonzero
  have reached₁ : Reached hash32 s₁ :=
    reached.next allowed (Option.map_eq_some_iff.mpr ⟨(0, s₁), Except.toOption_eq_some.mpr run, rfl⟩)
  obtain ⟨reached₂, beside⟩ := beside_of_engine reached₁ meanwhile
  have h₂ := registry_of_reachable reached₂
  have own : s₂.ssd p = some ⟨path, dev, some disk, disk.nrSects - iostashHeaderSct, some d, true⟩ := by
    rw [beside.ssd]
    exact new.own
  obtain ⟨d', s₃, cdev, removed, gone, h₃⟩ := h₂.ssdRemove_spec own rfl
  obtain rfl := Option.some.inj cdev
  have found : searchSsd hash32 s₂ dev = some p := h₂.search_eq_some.mpr ⟨_, own, rfl⟩
  have back : Beside s s₃ := by
    refine ⟨?_, ?_, ?_, ?_⟩
    · rw [gone.ssd, beside.ssd, new.ssd]
      funext q
      dsimp only
      split
      · rename_i e
        rw [e, new.unused.2]
      · rfl
    · rw [gone.bucket, beside.bucket, new.bucket]
      funext b
      dsimp only
      split
      · exact List.erase_cons_head p (s.bucket b)
      · exact List.erase_of_not_mem fun here => h.alive b p here new.unused.2
    · have left := gone.nrSsd
      rw [beside.nrSsd, new.nrSsd] at left
      exact Nat.succ.inj left
    · have after : s₃.sce.dev = fun e => if e = d then none else s₂.sce.dev e := congrArg View.dev gone.view
      have before : s₁.sce.dev = fun e => if e = d then _ else s.sce.dev e := congrArg View.dev new.view
      rw [after, beside.dev, before]
      funext e
      dsimp only
      split
      · rename_i e
        rw [e, new.absent]
      · rfl
  refine ⟨s₃, ?_, back, fun i f a place => ?_⟩
  · unfold ssdUnregister
    rw [ok.bdDev, Option.bind_some, found]
    exact removed
  · obtain ⟨m, slot, rfl⟩ := h₃.engine.inv.shape.slot_of_place place
    obtain ⟨ctx, n, present, _⟩ := Sce.frag?_isSome.mp (Option.isSome_of_eq_some (Sce.frag_of_slot slot))
    rw [← back.dev, present]
    rfl

theorem ssd_register_unregister_sdb : ∃ s₁ s₃, ssdRegister (fun dev _ => dev) start devSdb sdb = .ok (0, s₁) ∧
    ssdUnregister (fun dev _ => dev) s₁ (some 17) = .ok s₃ ∧ s₃.nrSsd = 0 := by
  have reached : Reached (fun dev _ => dev) start := .init
  have allowed : start.Allows (.register devSdb sdb) := State.check_allows (by decide +kernel)
  have answer : (ssdRegister (fun dev _ => dev) start devSdb sdb).toOption.map Prod.fst = some 0 := by decide +kernel
  obtain ⟨⟨r, s₁⟩, done, e⟩ := Option.map_eq_some_iff.mp answer
  obtain rfl : r = 0 := e
  have run := Except.toOption_eq_some.mp done
  obtain ⟨s₃, back, beside, _⟩ := ssd_register_unregister reached allowed run .init
  exact ⟨s₁, s₃, run, back, beside.nrSsd⟩

end Caches

end Iostash
