import Iostash.Client.Returning
import Iostash.Driver.Commands
import Iostash.Sce.Reuse
import Iostash.Util.Buckets

/-!
# Registering targets

`hdd_register`, `hdd_unregister` and `hdd_unregister_all` of `iostash_hdd.c`, for kernels after 3.1, where
`_unload_hdd` leaves the `hdd_info` in its bucket. What is asked of the kernel succeeds; the LUN comes from the
engine, which may have no room.
-/

namespace Iostash

namespace Targets

open Util
open Driver (CStr)

/-- What `lookup_bdev` and `blkdev_get_by_path` find for the path of a whole disk. `held` when `bd_holder` is the
table of the cache devices. -/
structure Disk where
  bdDev : Nat
  nrSects : Nat
  held : Bool
  named : bdDev ≠ 0
  sized : nrSects < 2 ^ 64

/-- A `make_request_fn`: that of a queue, or `iostash_mkrequest`. -/
inductive MakeRequest where
  | queue (fn : Nat)
  | iostash
  deriving DecidableEq

/-- `struct hdd_info`, as `kzalloc` clears it. `ioPool`, `bs` and `ioQueue` when they are not NULL. -/
structure HddInfo where
  path : CStr := []
  devT : Nat := 0
  bdev : Option Disk := none
  nrSctr : Nat := 0
  partStart : Nat := 0
  partEnd : Nat := 0
  lun : Option Nat := none
  online : Bool := false
  ioPool : Bool := false
  bs : Bool := false
  ioQueue : Bool := false
  orgMapreq : Option MakeRequest := none

/-- The kernel: `hash_32`, and whether it is 3.2 or later. -/
structure Kernel where
  hash32 : Nat → Nat → Nat
  since32 : Bool

/-- `hdd` is the memory, `next` the next address in it; `bucket` and `nrHdd` are those of `gctx`, and
`makeRequestFn` belongs to the queue of each device. `nrHdd` counts targets of different `dev_t`, so that it does
not wrap. Besides, the registrations that returned 0 and the calls of `kobject_put`, newest first. -/
structure State where
  hdd : Nat → HddInfo
  next : Nat
  bucket : Nat → List Nat
  nrHdd : Nat
  makeRequestFn : Nat → MakeRequest
  sce : Sce
  registered : List Nat
  kobjectPuts : List Nat

/-- After `iostash_init`, with the engine as it is when the first target comes. -/
def start (sce : Sce) (queues : Nat → Nat) : State :=
  { hdd := fun _ => {}, next := 1, bucket := fun _ => [], nrHdd := 0, makeRequestFn := fun d => .queue (queues d),
    sce := sce, registered := [], kobjectPuts := [] }

def iostashMaxhddBckts : Nat := sceMaxLun * 2

variable (k : Kernel) (s : State)

def Kernel.bucketOf (dev : Nat) : Nat := k.hash32 dev 32 % iostashMaxhddBckts

def State.devOf (p : Nat) : Nat := (s.hdd p).devT

def State.setHdd (p : Nat) (g : HddInfo → HddInfo) : State :=
  { s with hdd := fun q => if q = p then g (s.hdd q) else s.hdd q }

/-- `_search_hdd` -/
def searchHdd (dev : Nat) : Option Nat := if dev = 0 then none else bucketFind k.bucketOf s.devOf s.bucket dev

/-- `hdd_search`, of the device of a request -/
def hddSearch (biBdev : Nat) : Option Nat := searchHdd k s biBdev

/-- `_insert_hdd` -/
def insertHdd (p : Nat) : Except Fault State :=
  if (s.hdd p).devT = 0 then .error .bugOn
  else .ok { s with bucket := bucketAdd k.bucketOf s.devOf s.bucket p }

/-- `_alloc_hdd` -/
def allocHdd (path : CStr) (disk : Disk) : Option (Nat × State) :=
  if (searchHdd k s disk.bdDev).isSome then none
  else some (s.next, { s with next := s.next + 1 }.setHdd s.next fun _ => { path := path, devT := disk.bdDev })

/-- `_unload_hdd` swaps back the original request function. -/
def State.unhook (p : Nat) : State :=
  match (s.hdd p).orgMapreq, (s.hdd p).bdev with
  | some fn, some disk => { s with makeRequestFn := fun d => if d = disk.bdDev then fn else s.makeRequestFn d }
  | _, _ => s

/-- `_unload_hdd` disables further references, once it has found the `hdd_info`. -/
def State.offline (k : Kernel) (s : State) (p : Nat) : State :=
  if searchHdd k s (s.hdd p).devT = some p ∧ (s.hdd p).online then
    { s.setHdd p fun h => { h with online := false } with nrHdd := s.nrHdd - 1 }
  else s

/-- `_unload_hdd`, when no request is pending -/
def unloadHdd (p : Nat) : Except Fault State :=
  let s := (s.unhook p).offline k p
  let s := s.setHdd p fun h => { h with ioQueue := false, ioPool := false, bs := false, bdev := none }
  match (s.hdd p).lun with
  | none => .ok s
  | some i => (sceRmlun s.sce i).map fun r => { s with sce := r.2 }.setHdd p fun h => { h with lun := none }

/-- `hdd_register`. A registration that fails ends in `_destroy_hdd`. -/
def hddRegister (path : CStr) (disk : Disk) : Except Fault (Int × State) :=
  match allocHdd k s path disk with
  | none => .ok (-1, s)
  | some (p, s) =>
    let s := s.setHdd p fun h => { h with bdev := some disk }
    if disk.held then (unloadHdd k s p).map fun s => (-1, s)
    else if s.makeRequestFn disk.bdDev = .iostash then (unloadHdd k s p).map fun s => (-1, s)
    else
      let s := s.setHdd p fun h => { h with nrSctr := disk.nrSects, partStart := 0, partEnd := sub64 disk.nrSects 1 }
      let s := s.setHdd p fun h => { h with ioPool := true, bs := true, ioQueue := true }
      match sceAddlun s.sce disk.nrSects p true with
      | .error fault => .error fault
      | .ok (none, sce) => (unloadHdd k { s with sce := sce } p).map fun s => (-1, s)
      | .ok (some i, sce) =>
        let s := { s with sce := sce }.setHdd p fun h => { h with lun := some i }
        (insertHdd k s p).map fun s =>
          let s := s.setHdd p fun h => { h with online := true, orgMapreq := some (s.makeRequestFn disk.bdDev) }
          (0, { s with
            makeRequestFn := fun d => if d = disk.bdDev then .iostash else s.makeRequestFn d
            nrHdd := s.nrHdd + 1
            registered := p :: s.registered })

/-- `_hdd_remove` -/
def hddRemove (p : Nat) : Except Fault State :=
  (unloadHdd k s p).map fun s => { s with kobjectPuts := p :: s.kobjectPuts }

/-- `hdd_unregister` -/
def hddUnregister (_path : CStr) (disk : Disk) : Except Fault State :=
  match searchHdd k s disk.bdDev with
  | none => .ok s
  | some p => hddRemove k s p

/-- From 3.2 on `hdd_unregister_all` moves an entry to a list that is freed. -/
def State.unlist (k : Kernel) (s : State) (b p : Nat) : State :=
  if k.since32 then { s with bucket := fun c => if c = b then (s.bucket c).erase p else s.bucket c } else s

/-- The inner loop of `hdd_unregister_all`. -/
def removeBucket (b : Nat) : List Nat → State → Except Fault State
  | [], s => .ok s
  | p :: rest, s => do
    let s ← hddRemove k s p
    removeBucket b rest (s.unlist k b p)

/-- The outer loop of `hdd_unregister_all`. -/
def removeBuckets : List Nat → State → Except Fault State
  | [], s => .ok s
  | b :: rest, s => do
    let s ← removeBucket k b (s.bucket b) s
    removeBuckets rest s

/-- `hdd_unregister_all` -/
def hddUnregisterAll : Except Fault State := removeBuckets k (List.range iostashMaxhddBckts) s

/-- Control operations, and meanwhile the engine is called by requests, populations and for cache devices. `_alloc_hdd`
copies a path of less than `IOSTASH_MAXPATH` characters; what a path says decides nothing here. -/
inductive Act where
  | register (path : CStr) (disk : Disk)
  | unregister (path : CStr) (disk : Disk)
  | engine (op : Op)

def State.exec : Act → Except Fault State
  | .register path disk => (hddRegister k s path disk).map Prod.snd
  | .unregister path disk => hddUnregister k s path disk
  | .engine op => (s.sce.call op).map fun r => { s with sce := r.2 }

/-- A list of operations, oldest first, and `hdd_unregister_all` in the end. -/
def run : State → List Act → Except Fault State
  | s, [] => hddUnregisterAll k s
  | s, act :: rest => do
    let s ← s.exec k act
    run s rest

variable {k s} {s' : State} {p b dev : Nat} {disk : Disk}

@[simp] theorem State.setHdd_self {g : HddInfo → HddInfo} : (s.setHdd p g).hdd p = g (s.hdd p) := if_pos rfl

theorem State.setHdd_ne {g : HddInfo → HddInfo} {q : Nat} (ne : q ≠ p) : (s.setHdd p g).hdd q = s.hdd q := if_neg ne

@[simp] theorem State.setHdd_setHdd {f g : HddInfo → HddInfo} :
    (s.setHdd p f).setHdd p g = s.setHdd p fun h => g (f h) := by
  unfold State.setHdd
  congr 1
  funext q
  dsimp only
  split <;> rfl

theorem Kernel.bucketOf_lt : k.bucketOf dev < iostashMaxhddBckts := Nat.mod_lt _ (by decide)

/-! ### What each operation does -/

theorem State.unhook_eq : s.unhook p = { s with makeRequestFn := (s.unhook p).makeRequestFn } := by
  unfold State.unhook
  split <;> rfl

/-- What `_unload_hdd` does, the engine apart. -/
structure Unloaded (k : Kernel) (s : State) (p : Nat) (s' : State) : Prop where
  bucket : s'.bucket = s.bucket
  next : s'.next = s.next
  registered : s'.registered = s.registered
  kobjectPuts : s'.kobjectPuts = s.kobjectPuts
  others : ∀ q, q ≠ p → s'.hdd q = s.hdd q
  devT : (s'.hdd p).devT = (s.hdd p).devT
  bdev : (s'.hdd p).bdev = none
  online : (s'.hdd p).online = ((s.hdd p).online && searchHdd k s (s.hdd p).devT != some p)
  nrHdd : s'.nrHdd = if searchHdd k s (s.hdd p).devT = some p ∧ (s.hdd p).online then s.nrHdd - 1 else s.nrHdd
  makeRequestFn : s'.makeRequestFn = (s.unhook p).makeRequestFn

theorem State.offline_unloaded : Unloaded k s p (((s.unhook p).offline k p).setHdd p fun h =>
    { h with ioQueue := false, ioPool := false, bs := false, bdev := none }) := by
  have unhook : s.unhook p = { s with makeRequestFn := (s.unhook p).makeRequestFn } := State.unhook_eq
  generalize (s.unhook p).makeRequestFn = fns at unhook
  by_cases found : searchHdd k s (s.hdd p).devT = some p ∧ (s.hdd p).online
  · have off : State.offline k { s with makeRequestFn := fns } p =
      { ({ s with makeRequestFn := fns }.setHdd p fun h => { h with online := false }) with nrHdd := s.nrHdd - 1 } :=
      if_pos found
    rw [unhook, off]
    refine ⟨rfl, rfl, rfl, rfl, ?_, ?_, ?_, ?_, (if_pos found).symm, by rw [unhook]; rfl⟩
    · intro q ne
      rw [State.setHdd_ne ne]
      exact if_neg ne
    · simp [State.setHdd]
    · simp
    · simp [State.setHdd, found.1]
  · have off : State.offline k { s with makeRequestFn := fns } p = { s with makeRequestFn := fns } := if_neg found
    rw [unhook, off]
    refine ⟨rfl, rfl, rfl, rfl, fun q ne => State.setHdd_ne ne, by simp, by simp, ?_, (if_neg found).symm,
      by rw [unhook]; rfl⟩
    rw [State.setHdd_self]
    cases on : (s.hdd p).online with
    | false => rfl
    | true =>
      have other : searchHdd k s (s.hdd p).devT ≠ some p := fun here => found ⟨here, on⟩
      simp [other]

theorem Unloaded.closeLun (h : Unloaded k s p s') {sce : Sce} :
    Unloaded k s p ({ s' with sce := sce }.setHdd p fun h => { h with lun := none }) := by
  refine ⟨h.bucket, h.next, h.registered, h.kobjectPuts, ?_, ?_, ?_, ?_, h.nrHdd, h.makeRequestFn⟩
  · intro q ne
    rw [State.setHdd_ne ne]
    exact h.others q ne
  · rw [State.setHdd_self]
    exact h.devT
  · rw [State.setHdd_self]
    exact h.bdev
  · rw [State.setHdd_self]
    exact h.online

theorem unloadHdd_ok (done : unloadHdd k s p = .ok s') : Unloaded k s p s' := by
  have cleared : Unloaded k s p _ := State.offline_unloaded
  unfold unloadHdd at done
  dsimp only at done
  split at done
  · cases done
    exact cleared
  · obtain ⟨r, _, rfl⟩ := Except.map_eq_ok.mp done
    exact cleared.closeLun

/-- The state in which `_unload_hdd` removes the LUN. -/
theorem State.cleared_lun :
    ((((s.unhook p).offline k p).hdd p).lun = (s.hdd p).lun) ∧ ((s.unhook p).offline k p).sce = s.sce := by
  rw [State.unhook_eq, State.offline]
  split
  · simp [State.setHdd]
  · exact ⟨rfl, rfl⟩

/-- Nothing stops the unloading of an `hdd_info` without a LUN. -/
theorem unloadHdd_noLun (lun : (s.hdd p).lun = none) : ∃ s', unloadHdd k s p = .ok s' ∧ s'.sce = s.sce := by
  obtain ⟨same, sce⟩ : (((s.unhook p).offline k p).hdd p).lun = (s.hdd p).lun ∧ _ := State.cleared_lun
  unfold unloadHdd
  dsimp only
  rw [State.setHdd_self]
  dsimp only
  rw [same, lun]
  exact ⟨_, rfl, sce⟩

/-- Of a LUN the engine purges what is mapped, or waits. -/
theorem unloadHdd_returns (inv : Inv nowhere s.sce) (roomy : Roomy s.sce.dev) :
    ∃ s', unloadHdd k s p = .ok s' ∧ Inv nowhere s'.sce ∧ s'.sce.dev = s.sce.dev := by
  obtain ⟨same, sce⟩ : (((s.unhook p).offline k p).hdd p).lun = (s.hdd p).lun ∧ _ := State.cleared_lun
  cases lun : (s.hdd p).lun with
  | none =>
    obtain ⟨s', done, kept⟩ := unloadHdd_noLun (k := k) lun
    exact ⟨s', done, kept ▸ inv, by rw [kept]⟩
  | some i =>
    have removed : ∃ r sce', sceRmlun s.sce i = .ok (r, sce') ∧ Inv nowhere sce' ∧ sce'.dev = s.sce.dev := by
      rcases sceRmlun_spec inv i with ⟨_, fail⟩ | ⟨l, _, ⟨tight, _⟩ | ⟨sce', done, inv', view⟩⟩
      · exact ⟨_, _, fail, inv, rfl⟩
      · exact absurd roomy tight
      · refine ⟨_, sce', done, inv', ?_⟩
        have dev : sce'.view.dev = s.sce.view.dev := by
          rw [view]
          split <;> rfl
        exact dev
    obtain ⟨r, sce', done, inv', dev⟩ := removed
    unfold unloadHdd
    dsimp only
    rw [State.setHdd_self]
    dsimp only
    rw [same, lun]
    dsimp only [State.setHdd]
    rw [sce, done]
    exact ⟨_, rfl, inv', dev⟩

/-- The engine can take a LUN of `n` sectors. -/
def Room (sce : Sce) (n : Nat) : Prop := n ≠ 0 ∧ lunFrags n ≠ 0 ∧ ∃ i, i < sceMaxLun ∧ sce.luntbl i = none

theorem sceAddlun_room {sce : Sce} {n : Nat} (ctx : Nat) (room : Room sce n) :
    ∃ i sce', sceAddlun sce n ctx true = .ok (some i, sce') := by
  obtain ⟨sized, frags, i, lt, free⟩ := room
  unfold sceAddlun
  rw [if_neg sized]
  cases found : (List.range sceMaxLun).find? fun i => (sce.luntbl i).isNone with
  | none => exact absurd (by simp [free]) (List.find?_eq_none.mp found i (List.mem_range.mpr lt))
  | some j =>
    have init : lunInit n true = some (Lun.blank 0 n) := if_pos ⟨rfl, frags⟩
    simp only [init]
    exact ⟨j, _, rfl⟩

theorem sceAddlun_noRoom {sce : Sce} {n ctx : Nat} (tight : ¬ Room sce n) :
    sceAddlun sce n ctx true = .ok (none, sce) := by
  unfold sceAddlun
  split
  · rfl
  rename_i sized
  cases found : (List.range sceMaxLun).find? fun i => (sce.luntbl i).isNone with
  | none => rfl
  | some j =>
    obtain ⟨lt, free⟩ := find_free_slot found
    have frags : ¬ (true = true ∧ lunFrags n ≠ 0) := fun ok => tight ⟨sized, ok.2, j, lt, free⟩
    have init : lunInit n true = none := if_neg frags
    simp only [init]

/-- What `hdd_register` asks for. -/
structure State.Accepts (k : Kernel) (s : State) (disk : Disk) : Prop where
  unlisted : searchHdd k s disk.bdDev = none
  unheld : disk.held = false
  unhooked : s.makeRequestFn disk.bdDev ≠ .iostash
  room : Room s.sce disk.nrSects

/-- A registration that succeeded. -/
structure Enrolled (k : Kernel) (s : State) (disk : Disk) (s' : State) : Prop where
  bucket : s'.bucket = bucketAdd k.bucketOf s'.devOf s.bucket s.next
  next : s'.next = s.next + 1
  others : ∀ q, q ≠ s.next → s'.hdd q = s.hdd q
  devT : (s'.hdd s.next).devT = disk.bdDev
  bdev : (s'.hdd s.next).bdev = some disk
  online : (s'.hdd s.next).online = true
  orgMapreq : (s'.hdd s.next).orgMapreq = some (s.makeRequestFn disk.bdDev)
  nrHdd : s'.nrHdd = s.nrHdd + 1
  makeRequestFn : s'.makeRequestFn = fun d => if d = disk.bdDev then .iostash else s.makeRequestFn d
  registered : s'.registered = s.next :: s.registered
  kobjectPuts : s'.kobjectPuts = s.kobjectPuts
  sce : ∃ i, sceAddlun s.sce disk.nrSects s.next true = .ok (some i, s'.sce)

/-- A registration that failed. -/
structure Refused (s s' : State) : Prop where
  bucket : s'.bucket = s.bucket
  next : s.next ≤ s'.next
  others : ∀ q, q ≠ s.next → s'.hdd q = s.hdd q
  nrHdd : s'.nrHdd = s.nrHdd
  makeRequestFn : s'.makeRequestFn = s.makeRequestFn
  registered : s'.registered = s.registered
  kobjectPuts : s'.kobjectPuts = s.kobjectPuts
  sce : s'.sce = s.sce

/-- `_destroy_hdd` of an `hdd_info` that has not been inserted. -/
theorem Refused.destroy {h : HddInfo} (lun : h.lun = none) (online : h.online = false) (org : h.orgMapreq = none) :
    ∃ s', (unloadHdd k ({ s with next := s.next + 1 }.setHdd s.next fun _ => h) s.next).map (fun t => ((-1 : Int), t)) =
      .ok (-1, s') ∧ Refused s s' := by
  obtain ⟨s', done, sce⟩ := unloadHdd_noLun (k := k) (s := { s with next := s.next + 1 }.setHdd s.next fun _ => h)
    (p := s.next) (by rw [State.setHdd_self]; exact lun)
  have off := unloadHdd_ok done
  refine ⟨s', Except.map_eq_ok.mpr ⟨s', done, rfl⟩, off.bucket, ?_, ?_, ?_, ?_, off.registered, off.kobjectPuts, sce⟩
  · rw [off.next]
    exact Nat.le_succ _
  · intro q ne
    rw [off.others q ne]
    exact State.setHdd_ne ne
  · rw [off.nrHdd, State.setHdd_self, online]
    exact if_neg fun both => absurd both.2 (by decide)
  · rw [off.makeRequestFn, State.unhook, State.setHdd_self, org]
    rfl

theorem hddRegister_refused (path : CStr) (no : ¬ s.Accepts k disk) :
    ∃ s', hddRegister k s path disk = .ok (-1, s') ∧ Refused s s' := by
  unfold hddRegister allocHdd
  split
  · exact ⟨s, rfl, rfl, Nat.le_refl _, fun _ _ => rfl, rfl, rfl, rfl, rfl, rfl⟩
  rename_i p t alloc
  split at alloc
  · cases alloc
  rename_i absent
  obtain ⟨rfl, rfl⟩ := Prod.mk.inj (Option.some.inj alloc)
  dsimp only
  rw [State.setHdd_setHdd]
  split
  · exact Refused.destroy rfl rfl rfl
  rename_i unheld
  split
  · exact Refused.destroy rfl rfl rfl
  rename_i unhooked
  rw [State.setHdd_setHdd, State.setHdd_setHdd]
  have tight : ¬ Room s.sce disk.nrSects := fun room =>
    no ⟨by simpa using absent, by simpa using unheld, unhooked, room⟩
  have none : sceAddlun s.sce disk.nrSects s.next true = .ok (none, s.sce) := sceAddlun_noRoom tight
  simp only [State.setHdd, none]
  exact Refused.destroy rfl rfl rfl

theorem hddRegister_accepted (path : CStr) (yes : s.Accepts k disk) :
    ∃ s', hddRegister k s path disk = .ok (0, s') ∧ Enrolled k s disk s' := by
  obtain ⟨i, sce, added⟩ := sceAddlun_room s.next yes.room
  unfold hddRegister allocHdd
  rw [if_neg (by simp [yes.unlisted])]
  dsimp only
  rw [State.setHdd_setHdd, if_neg (by simp [yes.unheld])]
  split
  · rename_i hooked
    exact absurd hooked yes.unhooked
  rw [State.setHdd_setHdd, State.setHdd_setHdd]
  simp only [State.setHdd, added, insertHdd, if_true, if_neg disk.named]
  refine ⟨_, rfl, ?_, rfl, ?_, ?_, ?_, ?_, ?_, rfl, rfl, rfl, rfl, i, added⟩
  · refine congrArg (bucketAdd k.bucketOf · s.bucket s.next) (funext fun q => ?_)
    unfold State.devOf
    dsimp only
    split <;> rfl
  · intro q ne
    simp only [if_neg ne]
  · simp only [if_true]
  · simp only [if_true]
  · simp only [if_true]
  · simp only [if_true]

end Targets

end Iostash
