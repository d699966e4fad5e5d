import Iostash.Driver.Caches

/-!
# Registered SSDs and cache devices

Between two control operations the cache devices of the engine are the SSDs that are registered, whatever
requests, populations and targets have asked of the engine meanwhile.
-/

namespace Iostash

open Util
open Driver (CStr)

/-! ### The devices of the engine -/

section Engine

variable {v v' : View} {s s' : Sce} {op : Op} {reply : Reply} {d ctx n : Nat}

theorem Sce.Reached.addcdev {m : Nat} {vmalloc : Bool} {hndl : Option Nat} (reached : s.Reached) (typed : m < 2 ^ 64)
    (run : sceAddcdev s m ctx vmalloc = .ok (hndl, s')) : s'.Reached := by
  have allowed : Op.InType (.addcdev m ctx vmalloc) := typed
  exact reached.next allowed (Sce.exec_eq_some.mpr ⟨.hndl hndl, Except.map_eq_ok.mpr ⟨_, run, rfl⟩⟩)

theorem Sce.Reached.rmcdev {ret : Ret} (reached : s.Reached) (run : sceRmcdev s d = .ok (ret, s')) : s'.Reached := by
  have allowed : Op.InType (.rmcdev d) := trivial
  exact reached.next allowed (Sce.exec_eq_some.mpr ⟨.ret ret, Except.map_eq_ok.mpr ⟨_, run, rfl⟩⟩)

/-- Only two calls change the devices. -/
theorem Effect.dev_eq (effect : Effect v op reply v') (other : Caches.plugs op = false) : v'.dev = v.dev := by
  cases effect with
  | addcdevFail | addcdev | rmcdevFail | rmcdev => cases other
  | putRead => exact View.unpin_dev
  | putPop => exact View.put4pop_dev
  | _ => rfl

/-- A device that is taken out at once leaves nothing. -/
theorem View.unplug_plug (sound : v.Sound) (absent : v.dev d = none) : (v.plug d ctx n).unplug d = v := by
  refine View.ext_fields ?_ rfl ?_ fun a => ?_
  · funext e
    show (if e = d then none else if e = d then some (ctx, n) else v.dev e) = v.dev e
    split
    · rename_i here
      rw [here, absent]
    · rfl
  · funext i f
    show (v.cell i f).filter (fun c => decide (c.addr.dev ≠ d)) = v.cell i f
    cases cell : v.cell i f with
    | none => rfl
    | some c =>
      obtain ⟨_, _, _, dev, _⟩ := sound.there i f c cell
      have ne : c.addr.dev ≠ d := by
        rintro rfl
        rw [absent] at dev
        cases dev
      simp [Option.filter, ne]
  · show (a.dev ≠ d ∧ (v.free a ∨ a.dev = d ∧ _)) ↔ v.free a
    constructor
    · rintro ⟨ne, free | ⟨here, _⟩⟩
      · exact free
      · exact absurd here ne
    · intro free
      obtain ⟨_, _, _, dev, _⟩ := sound.free a free
      refine ⟨?_, Or.inl free⟩
      rintro rfl
      rw [absent] at dev
      cases dev

theorem Devices.nrCdev_same (h : Devices s) (h' : Devices s') (dev : s'.dev = s.dev) : s'.nrCdev = s.nrCdev := by
  rw [h'.nrCdev, h.nrCdev, dev]

theorem Devices.nrCdev_plug (h : Devices s) (h' : Devices s') (lt : d < sceMaxCdev) (absent : s.dev d = none)
    (dev : s'.dev = fun e => if e = d then some (ctx, n) else s.dev e) : s'.nrCdev = s.nrCdev + 1 := by
  have more : ((Finset.range sceMaxCdev).filter fun e => (s'.dev e).isSome) =
      insert d ((Finset.range sceMaxCdev).filter fun e => (s.dev e).isSome) := by
    ext e
    simp only [Finset.mem_insert, Finset.mem_filter, Finset.mem_range, dev]
    by_cases here : e = d
    · simp [here, lt]
    · simp [here]
  have new : d ∉ (Finset.range sceMaxCdev).filter fun e => (s.dev e).isSome := by
    simp [absent]
  rw [h'.nrCdev, h.nrCdev, more, Finset.card_insert_of_notMem new]

/-- A device with a context of its own is taken if a slot is left, memory for its table, and room for a fragment. -/
theorem sceAddcdev_handed {m : Nat} {vmalloc : Bool} {hndl : Option Nat} (h : Devices s) (named : ctx ≠ 0)
    (fresh : ∀ e n, s.dev e ≠ some (ctx, n)) (run : sceAddcdev s m ctx vmalloc = .ok (hndl, s')) :
    hndl.isSome = true ↔ s.nrCdev < sceMaxCdev ∧ vmalloc = true ∧ u32 (m / sceSctrPerFrag) ≠ 0 := by
  have unknown : cdevSearch s ctx = none := by
    unfold cdevSearch
    rw [List.find?_eq_none]
    intro d _ same
    have same := beq_iff_eq.mp same
    cases here : s.cdevtbl d with
    | none =>
      rw [here] at same
      exact named same.symm
    | some cdev =>
      rw [here] at same
      exact fresh d cdev.nrFrag (Sce.dev_eq_some.mpr ⟨cdev, here, same, rfl⟩)
  unfold sceAddcdev at run
  split at run
  · rename_i refused
    obtain ⟨rfl, _⟩ := Prod.mk.inj (Except.ok.inj run)
    apply iff_of_false Bool.false_ne_true
    rintro ⟨room, _, size⟩
    rcases refused with rfl | full
    · exact size rfl
    · exact absurd room (Nat.not_lt.mpr full)
  rename_i taken
  obtain ⟨_, room⟩ := not_or.mp taken
  rw [unknown] at run
  cases found : (List.range sceMaxCdev).find? fun d => (s.cdevtbl d).isNone with
  | none =>
    -- every slot is in use, but fewer than all are counted
    have full : ((Finset.range sceMaxCdev).filter fun d => (s.dev d).isSome) = Finset.range sceMaxCdev := by
      apply Finset.filter_true_of_mem
      intro d inside
      have used := List.find?_eq_none.mp found d (List.mem_range.mpr (Finset.mem_range.mp inside))
      cases here : s.cdevtbl d with
      | none => simp [here] at used
      | some cdev => simp [Sce.dev, here]
    have count := h.nrCdev
    rw [full, Finset.card_range] at count
    exact absurd (Nat.le_of_eq count.symm) room
  | some d =>
    rw [found] at run
    dsimp only at run
    have size : cdevInit m vmalloc = none ↔ ¬ (vmalloc = true ∧ u32 (m / sceSctrPerFrag) ≠ 0) := by
      unfold cdevInit
      split
      · rename_i small
        simp [Nat.div_eq_of_lt small, u32]
      · simp
    cases init : cdevInit m vmalloc with
    | none =>
      rw [init] at run
      obtain ⟨rfl, _⟩ := Prod.mk.inj (Except.ok.inj run)
      apply iff_of_false Bool.false_ne_true
      rintro ⟨_, fits⟩
      exact size.mp init fits
    | some cdev =>
      rw [init] at run
      obtain ⟨t, _, done⟩ := Except.bind_eq_ok run
      obtain ⟨rfl, _⟩ := Prod.mk.inj (Except.ok.inj done)
      refine iff_of_true rfl ⟨Nat.not_le.mp room, ?_⟩
      by_contra misfit
      rw [size.mpr misfit] at init
      cases init

end Engine

namespace Caches

variable {hash32 : Nat → Nat → Nat} {s s' : State} {p q d n dev : Nat} {info : SsdInfo} {path : CStr} {ans : Answers}
  {r : Int} {act : Act}

/-- The memory in use is that of the SSDs listed, and each is one of the devices of the engine, under its address
and without its header. -/
structure Registry (hash32 : Nat → Nat → Nat) (s : State) : Prop where
  engine : s.sce.Reached
  buckets : Buckets (bucketOf hash32) s.devOf s.bucket
  alive : ∀ b, ∀ p ∈ s.bucket b, s.ssd p ≠ none
  listed : ∀ p info, s.ssd p = some info → p ∈ s.bucket (bucketOf hash32 info.devT) ∧ info.devT ≠ 0
  usable : ∀ p info, s.ssd p = some info → ∃ disk d, info.bdev = some disk ∧
    info.nrSctr + iostashHeaderSct = disk.nrSects ∧ info.cdev = some d ∧
    s.sce.dev d = some (p, u32 (info.nrSctr / sceSctrPerFrag))
  devices : ∀ d p n, s.sce.dev d = some (p, n) → ∃ info, s.ssd p = some info ∧ info.cdev = some d
  count : s.nrSsd = s.sce.nrCdev

theorem State.devOf_eq (here : s.ssd p = some info) : s.devOf p = info.devT := by
  unfold State.devOf
  rw [here]
  rfl

/-- Nothing is registered and nothing cached that was not before. -/
structure Same (s s' : State) : Prop where
  ssd : s'.ssd = s.ssd
  bucket : s'.bucket = s.bucket
  nrSsd : s'.nrSsd = s.nrSsd
  view : s'.sce.view = s.sce.view
  engine : s'.sce.Reached

/-- The path names a device that is not registered, nobody else has it open, it has room for a fragment beside its
header, and a slot and memory are left. -/
structure Accepted (hash32 : Nat → Nat → Nat) (s : State) (ans : Answers) (p dev : Nat) (disk : Disk) : Prop where
  bdDev : ans.bdDev = some dev
  unlisted : searchSsd hash32 s dev = none
  addr : ans.addr = some p
  opened : ans.disk = some disk
  closed : disk.bdOpeners ≤ 1
  size : u32 ((disk.nrSects - iostashHeaderSct) / sceSctrPerFrag) ≠ 0
  slot : s.nrSsd < sceMaxCdev
  vmalloc : ans.vmalloc = true
  kobj : ans.kobj = 0

/-- The SSD at `p` is registered as device `d` of the engine. -/
structure Enrolled (hash32 : Nat → Nat → Nat) (s : State) (path : CStr) (p dev d : Nat) (disk : Disk) (s' : State) : Prop where
  unused : p ≠ 0 ∧ s.ssd p = none
  named : dev ≠ 0
  ssd : s'.ssd = fun q => if q = p then some ⟨path, dev, some disk, disk.nrSects - iostashHeaderSct, some d, true⟩
    else s.ssd q
  bucket : s'.bucket = fun b => if b = bucketOf hash32 dev then p :: s.bucket b else s.bucket b
  nrSsd : s'.nrSsd = s.nrSsd + 1
  slot : d < sceMaxCdev
  absent : s.sce.dev d = none
  view : s'.sce.view = s.sce.view.plug d p (u32 ((disk.nrSects - iostashHeaderSct) / sceSctrPerFrag))
  engine : s'.sce.Reached

/-- The SSD at `p` is not registered any more. -/
structure Unlisted (s : State) (p d : Nat) (s' : State) : Prop where
  ssd : s'.ssd = fun q => if q = p then none else s.ssd q
  bucket : s'.bucket = fun b => (s.bucket b).erase p
  nrSsd : s'.nrSsd + 1 = s.nrSsd
  view : s'.sce.view = s.sce.view.unplug d
  engine : s'.sce.Reached

theorem Accepted.room {disk : Disk} (h : Accepted hash32 s ans p dev disk) : iostashHeaderSct ≤ disk.nrSects := by
  refine Nat.le_of_not_lt fun small => h.size ?_
  rw [Nat.sub_eq_zero_of_le (Nat.le_of_lt small)]
  rfl

theorem Enrolled.own {disk : Disk} (h : Enrolled hash32 s path p dev d disk s') :
    s'.ssd p = some ⟨path, dev, some disk, disk.nrSects - iostashHeaderSct, some d, true⟩ := by
  rw [h.ssd]
  exact if_pos rfl

namespace Registry

theorem start : Registry hash32 start := by
  refine ⟨.init, .empty, ?_, ?_, ?_, ?_, rfl⟩
  · exact fun b p here => absurd here List.not_mem_nil
  · exact fun p info here => by cases here
  · exact fun p info here => by cases here
  · exact fun d p n here => by cases here

theorem search_eq_some (h : Registry hash32 s) :
    searchSsd hash32 s dev = some p ↔ ∃ info, s.ssd p = some info ∧ info.devT = dev := by
  unfold searchSsd
  constructor
  · intro found
    split at found
    · cases found
    · obtain ⟨here, same⟩ := h.buckets.find_eq_some.mp found
      obtain ⟨info, alive⟩ := Option.ne_none_iff_exists'.mp (h.alive _ p here)
      exact ⟨info, alive, (State.devOf_eq alive).symm.trans same⟩
  · rintro ⟨info, here, rfl⟩
    obtain ⟨bucket, named⟩ := h.listed p info here
    rw [if_neg named]
    exact h.buckets.find_eq_some.mpr ⟨bucket, State.devOf_eq here⟩

theorem search_eq_none (h : Registry hash32 s) :
    searchSsd hash32 s dev = none ↔ ∀ p info, s.ssd p = some info → info.devT ≠ dev := by
  constructor
  · rintro none p info here rfl
    rw [h.search_eq_some.mpr ⟨info, here, rfl⟩] at none
    cases none
  · intro none
    cases found : searchSsd hash32 s dev with
    | none => rfl
    | some p =>
      obtain ⟨info, here, same⟩ := h.search_eq_some.mp found
      exact absurd same (none p info here)

/-- What the engine does for others leaves the registry as it is. -/
theorem meanwhile {sce : Sce} (h : Registry hash32 s) (engine : sce.Reached) (dev : sce.dev = s.sce.dev) :
    Registry hash32 { s with sce := sce } := by
  refine ⟨engine, h.buckets, h.alive, h.listed, ?_, ?_, ?_⟩
  · intro p info here
    rw [dev]
    exact h.usable p info here
  · intro d p n present
    rw [dev] at present
    exact h.devices d p n present
  · exact h.count.trans (Devices.nrCdev_same h.engine.inv.shape.devices engine.inv.shape.devices dev).symm

/-- Whether an SSD is online does not matter to the registry. -/
theorem endio4read {ssdOnlineToBe : Bool} (h : Registry hash32 s) (run : endio4read s p ssdOnlineToBe = .ok s') :
    Registry hash32 s' ∧ s'.ssd = fun q => if q = p then (s.ssd q).map fun h => { h with online := ssdOnlineToBe }
      else s.ssd q := by
  unfold Caches.endio4read at run
  split at run
  · cases run
  obtain rfl := Except.ok.inj run
  refine ⟨?_, rfl⟩
  -- an SSD is the one it was but for the flag
  have before : ∀ {q info}, (s.setSsd p fun h => { h with online := ssdOnlineToBe }).ssd q = some info →
      ∃ info₀, s.ssd q = some info₀ ∧ info.devT = info₀.devT ∧ info.bdev = info₀.bdev ∧ info.nrSctr = info₀.nrSctr ∧
        info.cdev = info₀.cdev := by
    intro q info here
    unfold State.setSsd at here
    dsimp only at here
    split at here
    · obtain ⟨info₀, there, rfl⟩ := Option.map_eq_some_iff.mp here
      exact ⟨info₀, there, rfl, rfl, rfl, rfl⟩
    · exact ⟨info, here, rfl, rfl, rfl, rfl⟩
  have after : ∀ {q info₀}, s.ssd q = some info₀ →
      ∃ info, (s.setSsd p fun h => { h with online := ssdOnlineToBe }).ssd q = some info ∧ info.cdev = info₀.cdev ∧
        info.devT = info₀.devT := by
    intro q info₀ there
    unfold State.setSsd
    dsimp only
    rw [there]
    split
    · exact ⟨_, rfl, rfl, rfl⟩
    · exact ⟨info₀, rfl, rfl, rfl⟩
  have keys : (s.setSsd p fun h => { h with online := ssdOnlineToBe }).devOf = s.devOf := by
    funext q
    cases there : s.ssd q with
    | none => simp [State.devOf, State.setSsd, there]
    | some info₀ =>
      obtain ⟨info, here, _, same⟩ := after there
      rw [State.devOf_eq here, State.devOf_eq there, same]
  refine ⟨h.engine, keys ▸ h.buckets, ?_, ?_, ?_, ?_, h.count⟩
  · intro b q listed
    obtain ⟨info₀, there⟩ := Option.ne_none_iff_exists'.mp (h.alive b q listed)
    obtain ⟨info, here, _⟩ := after there
    rw [here]
    exact Option.some_ne_none _
  · intro q info here
    obtain ⟨info₀, there, devT, _⟩ := before here
    rw [devT]
    exact h.listed q info₀ there
  · intro q info here
    obtain ⟨info₀, there, _, bdev, nrSctr, cdev⟩ := before here
    rw [bdev, nrSctr, cdev]
    exact h.usable q info₀ there
  · intro d q n present
    obtain ⟨info₀, there, cdev⟩ := h.devices d q n present
    obtain ⟨info, here, same, _⟩ := after there
    exact ⟨info, here, same.trans cdev⟩

theorem same (h : Registry hash32 s) (same : Same s s') : Registry hash32 s' := by
  have e : s' = { s with sce := s'.sce } := by
    obtain ⟨ssd, bucket, nrSsd, _⟩ := s'
    obtain ⟨rfl, rfl, rfl, _, _⟩ := same
    rfl
  rw [e]
  exact h.meanwhile same.engine (congrArg View.dev same.view)

theorem enrolled {disk : Disk} (h : Registry hash32 s) (ok : Accepted hash32 s ans p dev disk)
    (new : Enrolled hash32 s path p dev d disk s') : Registry hash32 s' := by
  have unlisted := h.search_eq_none.mp ok.unlisted
  have devs : s'.sce.dev = fun e => if e = d then some (p, u32 ((disk.nrSects - iostashHeaderSct) / sceSctrPerFrag))
      else s.sce.dev e := congrArg View.dev new.view
  have old : ∀ {q info}, s.ssd q = some info → q ≠ p := by
    rintro q info here rfl
    rw [new.unused.2] at here
    cases here
  have own := new.own
  have cases : ∀ {q info}, s'.ssd q = some info → q = p ∨ s.ssd q = some info := by
    intro q info here
    rw [new.ssd] at here
    dsimp only at here
    split at here
    · exact Or.inl ‹_›
    · exact Or.inr here
  have keys : ∀ b, ∀ q ∈ s.bucket b, s'.devOf q = s.devOf q := by
    intro b q here
    obtain ⟨info, alive⟩ := Option.ne_none_iff_exists'.mp (h.alive b q here)
    have still : s'.ssd q = s.ssd q := by
      rw [new.ssd]
      exact if_neg (old alive)
    unfold State.devOf
    rw [still]
  have added : s'.bucket = bucketAdd (bucketOf hash32) s'.devOf s.bucket p := by
    rw [new.bucket]
    unfold bucketAdd
    rw [State.devOf_eq own]
  refine ⟨new.engine, ?_, ?_, ?_, ?_, ?_, ?_⟩
  · rw [added]
    refine (h.buckets.congr keys).add fun b q here => ?_
    obtain ⟨info, alive⟩ := Option.ne_none_iff_exists'.mp (h.alive b q here)
    rw [keys b q here, State.devOf_eq own, State.devOf_eq alive]
    exact unlisted q info alive
  · intro b q here
    rw [added] at here
    rw [new.ssd]
    dsimp only
    rcases mem_bucketAdd.mp here with there | ⟨rfl, _⟩
    · split
      · exact Option.some_ne_none _
      · exact h.alive b q there
    · rw [if_pos rfl]
      exact Option.some_ne_none _
  · intro q info here
    rw [added, mem_bucketAdd]
    rcases cases here with rfl | before
    · obtain rfl := Option.some.inj (own.symm.trans here)
      exact ⟨Or.inr ⟨rfl, by rw [State.devOf_eq own]⟩, new.named⟩
    · obtain ⟨bucket, named⟩ := h.listed q info before
      exact ⟨Or.inl bucket, named⟩
  · intro q info here
    rw [devs]
    dsimp only
    rcases cases here with rfl | before
    · obtain rfl := Option.some.inj (own.symm.trans here)
      exact ⟨disk, d, rfl, Nat.sub_add_cancel ok.room, rfl, if_pos rfl⟩
    · obtain ⟨disk', e, bdev, size, cdev, present⟩ := h.usable q info before
      refine ⟨disk', e, bdev, size, cdev, ?_⟩
      rw [if_neg]
      · exact present
      · rintro rfl
        rw [new.absent] at present
        cases present
  · intro e q m present
    rw [devs] at present
    dsimp only at present
    split at present
    · rename_i here
      obtain ⟨rfl, rfl⟩ := Prod.mk.inj (Option.some.inj present)
      exact ⟨_, own, congrArg some here.symm⟩
    · obtain ⟨info, here, cdev⟩ := h.devices e q m present
      refine ⟨info, ?_, cdev⟩
      rw [new.ssd]
      exact (if_neg (old here)).trans here
  · rw [new.nrSsd, h.count]
    exact (Devices.nrCdev_plug h.engine.inv.shape.devices new.engine.inv.shape.devices new.slot new.absent devs).symm

theorem unlisted (h : Registry hash32 s) (here : s.ssd p = some info) (cdev : info.cdev = some d)
    (gone : Unlisted s p d s') (count : s'.sce.nrCdev + 1 = s.sce.nrCdev) : Registry hash32 s' := by
  have devs : s'.sce.dev = fun e => if e = d then none else s.sce.dev e := congrArg View.dev gone.view
  have nodup : ∀ b, (s.bucket b).Nodup := fun b => (h.buckets.distinct b).of_map
  have kept : ∀ {q}, q ≠ p → s'.ssd q = s.ssd q := by
    intro q ne
    rw [gone.ssd]
    exact if_neg ne
  have other : ∀ {q info'}, s'.ssd q = some info' → q ≠ p ∧ s.ssd q = some info' := by
    intro q info' there
    rw [gone.ssd] at there
    dsimp only at there
    split at there
    · cases there
    · exact ⟨‹_›, there⟩
  have stays : ∀ b, ∀ q ∈ (s.bucket b).erase p, q ≠ p ∧ q ∈ s.bucket b := fun b q there =>
    (nodup b).mem_erase_iff.mp there
  refine ⟨gone.engine, ?_, ?_, ?_, ?_, ?_, ?_⟩
  · rw [gone.bucket]
    refine (h.buckets.sub fun b => List.erase_sublist).congr fun b q there => ?_
    unfold State.devOf
    rw [kept (stays b q there).1]
  · intro b q there
    rw [gone.bucket] at there
    obtain ⟨ne, before⟩ := stays b q there
    rw [kept ne]
    exact h.alive b q before
  · intro q info' there
    obtain ⟨ne, before⟩ := other there
    obtain ⟨bucket, rest⟩ := h.listed q info' before
    rw [gone.bucket]
    exact ⟨(List.mem_erase_of_ne ne).mpr bucket, rest⟩
  · intro q info' there
    obtain ⟨ne, before⟩ := other there
    obtain ⟨disk, e, bdev, size, cdev', present⟩ := h.usable q info' before
    refine ⟨disk, e, bdev, size, cdev', ?_⟩
    rw [devs]
    refine (if_neg ?_).trans present
    rintro rfl
    obtain ⟨_, e', _, _, cdev'', present'⟩ := h.usable p info here
    obtain rfl := Option.some.inj (cdev.symm.trans cdev'')
    exact ne (Prod.mk.inj (Option.some.inj (present.symm.trans present'))).1
  · intro e q m present
    rw [devs] at present
    dsimp only at present
    split at present
    · cases present
    · rename_i ne
      obtain ⟨info', there, cdev'⟩ := h.devices e q m present
      refine ⟨info', ?_, cdev'⟩
      rw [kept]
      · exact there
      · rintro rfl
        obtain rfl := Option.some.inj (here.symm.trans there)
        exact ne (Option.some.inj (cdev'.symm.trans cdev))
  · have before := gone.nrSsd
    have same := h.count
    omega

end Registry

end Caches

end Iostash
