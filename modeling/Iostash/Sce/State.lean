import Iostash.Sce.Bitmap

/-!
# The engine state

`sce_t` and the structures it holds. An array is a function of its index, used below its length
only; a slot of the device or LUN table is `none` while its `fragtbl` or `fragmap` pointer is null.
-/

namespace Iostash

/-- `frag_t`: a physical fragment. -/
structure Frag where
  lunidx : Nat
  fragnum : Nat
  bitmap : Bitmap
  nrValid : Nat
  nrService : Nat
  nrHit : Nat
  nrMiss : Nat
  nrRef : Nat
  next : Word

/-- `struct lun_stats`. A field is the sum of what has been added to an `atomic64_t`, which holds it in 64 bits:
its value is what `atomic64Read` makes of the sum. -/
structure LunStats where
  allocSctrs : Int := 0
  validSctrs : Int := 0
  populations : Int := 0
  reads : Int := 0
  readSctrs : Int := 0
  readHits : Int := 0
  writes : Int := 0
  writeSctrs : Int := 0
  writeHits : Int := 0

/-- `atomic64_read` of a counter, from the sum of what has been added to it. -/
def atomic64Read (sum : Int) : Int := sum.bmod (2 ^ 64)

/-- `cdev_t` of a present cache device. -/
structure Cdev where
  cdevctx : Nat
  nrFrag : Nat
  fragtbl : Nat → Frag

/-- `lun_t` of a present LUN. -/
structure Lun where
  fragmap : Nat → Word
  lunctx : Nat
  nrSctr : Nat
  nrFrag : Nat
  nrService : Nat
  waiting4deletion : Bool
  stats : LunStats

/-- `sce_t` -/
structure Sce where
  nrCdev : Nat
  cdevtbl : Nat → Option Cdev
  nrLun : Nat
  luntbl : Nat → Option Lun
  nrFrag : Nat
  nrFreefrag : Nat
  freefraglist : Word
  nrHit : Nat
  nrMiss : Nat
  nrEviction : Nat
  arm : Word
  misslogFragnum : Nat → Nat
  misslogLunidx : Nat → Nat
  misslogHead : Nat
  misslogSize : Nat

/-- `sce_fmap_t` -/
structure Fmap where
  cdevctx : Nat
  fragnum : Nat
  deriving DecidableEq, Repr

/-- `sce_poptask_t` -/
structure Poptask where
  lunctx : Nat
  cdevctx : Nat
  lunFragnum : Nat
  cdevFragnum : Nat
  deriving DecidableEq, Repr

/-- `memset` of a `frag_t` to 0. -/
def Frag.zero : Frag :=
  { lunidx := 0, fragnum := 0, bitmap := List.replicate bitmapArraySize 0#32, nrValid := 0, nrService := 0,
    nrHit := 0, nrMiss := 0, nrRef := 0, next := 0#32 }

/-- `memset` of a `frag_t` to 85, as `_cdev_init` leaves it. -/
def Frag.fill85 : Frag :=
  { lunidx := 0x5555, fragnum := 0x55555555, bitmap := List.replicate bitmapArraySize 0x55555555#32,
    nrValid := 0x5555, nrService := 0x5555, nrHit := 0x55555555, nrMiss := 0x55555555, nrRef := 0x55,
    next := 0x55555555#32 }

namespace Sce

/-- The fragment structure at a place, if its device is present and long enough. -/
def frag? (s : Sce) (a : Phys) : Option Frag :=
  (s.cdevtbl a.dev).bind fun c => if a.off < c.nrFrag then some (c.fragtbl a.off) else none

/-- `_pfid2frag` without an `out_fmap`. -/
def pfid2frag (s : Sce) (pfid : Word) : Option Frag := s.frag? (phys pfid)

/-- The `out_fmap` of `_pfid2frag`. -/
def pfid2fmap (s : Sce) (pfid : Word) : Option Fmap :=
  (s.cdevtbl (scePfidDev pfid)).bind fun c =>
    if scePfidOff pfid < c.nrFrag then some ⟨c.cdevctx, scePfidOff pfid⟩ else none

/-- `_isvalidpfid` -/
def isvalidpfid (s : Sce) (pfid : Word) : Bool :=
  (s.cdevtbl (scePfidDev pfid)).any fun c => decide (scePfidOff pfid < c.nrFrag)

/-- Writes through a `frag_t` pointer. -/
def modifyFrag (s : Sce) (a : Phys) (φ : Frag → Frag) : Sce :=
  { s with cdevtbl := fun d => if d = a.dev then
      (s.cdevtbl d).map fun c => { c with fragtbl := fun o => if o = a.off then φ (c.fragtbl o) else c.fragtbl o }
    else s.cdevtbl d }

/-- Writes through a `lun_t` pointer. -/
def modifyLun (s : Sce) (i : Nat) (φ : Lun → Lun) : Sce :=
  { s with luntbl := fun j => if j = i then (s.luntbl j).map φ else s.luntbl j }

/-- `lun->fragmap[fragnum] = fdesc` -/
def setDesc (s : Sce) (i fragnum : Nat) (fdesc : Word) : Sce :=
  s.modifyLun i fun l => { l with fragmap := fun f => if f = fragnum then fdesc else l.fragmap f }

/-- The context and size of a present device. -/
def dev (s : Sce) (d : Nat) : Option (Nat × Nat) := (s.cdevtbl d).map fun c => (c.cdevctx, c.nrFrag)

end Sce

/-- A mapped fragment of a LUN: where it is, whether it is valid, and the structure found there. -/
structure Slot where
  addr : Phys
  valid : Bool
  frag : Frag

/-- The mapping of fragment `f` of LUN `i`. -/
def Sce.slot (s : Sce) (i f : Nat) : Option Slot :=
  (s.luntbl i).bind fun l =>
    if f < l.nrFrag ∧ isMapped (l.fragmap f) = true then
      (s.frag? (phys (l.fragmap f))).map fun g => ⟨phys (l.fragmap f), isValid (l.fragmap f), g⟩
    else none

namespace Sce

variable {s : Sce} {a b : Phys} {φ : Frag → Frag} {ψ : Lun → Lun} {i j f k : Nat} {w : Word}

/-! ### What an update leaves alone -/

@[simp] theorem modifyFrag_luntbl : (s.modifyFrag a φ).luntbl = s.luntbl := rfl
@[simp] theorem modifyFrag_nrCdev : (s.modifyFrag a φ).nrCdev = s.nrCdev := rfl
@[simp] theorem modifyFrag_nrLun : (s.modifyFrag a φ).nrLun = s.nrLun := rfl
@[simp] theorem modifyFrag_nrFrag : (s.modifyFrag a φ).nrFrag = s.nrFrag := rfl
@[simp] theorem modifyFrag_nrFreefrag : (s.modifyFrag a φ).nrFreefrag = s.nrFreefrag := rfl
@[simp] theorem modifyFrag_freefraglist : (s.modifyFrag a φ).freefraglist = s.freefraglist := rfl
@[simp] theorem modifyLun_cdevtbl : (s.modifyLun i ψ).cdevtbl = s.cdevtbl := rfl
@[simp] theorem modifyLun_nrCdev : (s.modifyLun i ψ).nrCdev = s.nrCdev := rfl
@[simp] theorem modifyLun_nrLun : (s.modifyLun i ψ).nrLun = s.nrLun := rfl
@[simp] theorem modifyLun_nrFrag : (s.modifyLun i ψ).nrFrag = s.nrFrag := rfl
@[simp] theorem modifyLun_nrFreefrag : (s.modifyLun i ψ).nrFreefrag = s.nrFreefrag := rfl
@[simp] theorem modifyLun_freefraglist : (s.modifyLun i ψ).freefraglist = s.freefraglist := rfl
@[simp] theorem modifyLun_frag? : (s.modifyLun i ψ).frag? a = s.frag? a := rfl
@[simp] theorem modifyLun_dev : (s.modifyLun i ψ).dev = s.dev := rfl

theorem modifyLun_luntbl : (s.modifyLun i ψ).luntbl j = if j = i then (s.luntbl j).map ψ else s.luntbl j := rfl

@[simp] theorem modifyLun_luntbl_self : (s.modifyLun i ψ).luntbl i = (s.luntbl i).map ψ := by
  simp [modifyLun_luntbl]

theorem modifyLun_luntbl_ne (h : j ≠ i) : (s.modifyLun i ψ).luntbl j = s.luntbl j := by
  simp [modifyLun_luntbl, h]

@[simp] theorem modifyFrag_dev : (s.modifyFrag a φ).dev = s.dev := by
  funext d
  simp only [dev, modifyFrag]
  split <;> simp [Option.map_map, Function.comp_def]

theorem modifyFrag_frag? : (s.modifyFrag a φ).frag? b = if b = a then (s.frag? b).map φ else s.frag? b := by
  obtain ⟨ad, ao⟩ := a
  obtain ⟨bd, bo⟩ := b
  simp only [frag?, modifyFrag, Phys.mk.injEq]
  by_cases hd : bd = ad
  · subst hd
    by_cases ho : bo = ao
    · subst ho
      cases s.cdevtbl bd with
      | none => simp
      | some c => by_cases h : bo < c.nrFrag <;> simp [h]
    · cases s.cdevtbl bd with
      | none => simp
      | some c => by_cases h : bo < c.nrFrag <;> simp [h, ho]
  · simp [hd]

@[simp] theorem modifyFrag_frag?_self : (s.modifyFrag a φ).frag? a = (s.frag? a).map φ := by
  simp [modifyFrag_frag?]

theorem modifyFrag_frag?_ne (h : b ≠ a) : (s.modifyFrag a φ).frag? b = s.frag? b := by
  simp [modifyFrag_frag?, h]

/-! ### Presence -/

theorem dev_eq_some {d ctx n : Nat} :
    s.dev d = some (ctx, n) ↔ ∃ c, s.cdevtbl d = some c ∧ c.cdevctx = ctx ∧ c.nrFrag = n := by
  simp [dev]

theorem frag?_isSome : (s.frag? a).isSome ↔ ∃ ctx n, s.dev a.dev = some (ctx, n) ∧ a.off < n := by
  unfold frag? dev
  cases s.cdevtbl a.dev with
  | none => simp
  | some c => by_cases h : a.off < c.nrFrag <;> simp [h]

theorem frag?_some_iff {g : Frag} :
    s.frag? a = some g ↔ ∃ c, s.cdevtbl a.dev = some c ∧ a.off < c.nrFrag ∧ c.fragtbl a.off = g := by
  unfold frag?
  cases s.cdevtbl a.dev with
  | none => simp
  | some c => by_cases h : a.off < c.nrFrag <;> simp [h]

theorem isvalidpfid_iff : s.isvalidpfid w = true ↔ (s.frag? (phys w)).isSome := by
  unfold isvalidpfid frag?
  cases h : s.cdevtbl (scePfidDev w) with
  | none => simp [phys, h]
  | some c => by_cases lt : scePfidOff w < c.nrFrag <;> simp [phys, h, lt]

theorem pfid2fmap_of_frag {g : Frag} (h : s.frag? (phys w) = some g) :
    ∃ ctx n, s.dev (phys w).dev = some (ctx, n) ∧ s.pfid2fmap w = some ⟨ctx, (phys w).off⟩ := by
  obtain ⟨c, hc, lt, _⟩ := frag?_some_iff.mp h
  refine ⟨c.cdevctx, c.nrFrag, dev_eq_some.mpr ⟨c, hc, rfl, rfl⟩, ?_⟩
  simp only [phys] at hc lt
  simp [pfid2fmap, hc, lt, phys]

/-! ### Mappings -/

theorem slot_eq_some {m : Slot} : s.slot i f = some m ↔
    ∃ l, s.luntbl i = some l ∧ f < l.nrFrag ∧ isMapped (l.fragmap f) = true ∧
      m.addr = phys (l.fragmap f) ∧ m.valid = isValid (l.fragmap f) ∧ s.frag? m.addr = some m.frag := by
  unfold slot
  cases s.luntbl i with
  | none => simp
  | some l =>
    simp only [Option.bind_some]
    split
    · rename_i h
      constructor
      · intro e
        obtain ⟨g, hg, rfl⟩ := Option.map_eq_some_iff.mp e
        exact ⟨l, rfl, h.1, h.2, rfl, rfl, hg⟩
      · rintro ⟨l', e, _, _, ha, hv, hg⟩
        cases e
        rw [← ha, hg]
        obtain ⟨addr, valid, frag⟩ := m
        simp_all
    · rename_i h
      constructor
      · intro e; cases e
      · rintro ⟨l', e, h1, h2, _⟩
        cases e
        exact absurd ⟨h1, h2⟩ h

theorem slot_modifyFrag : (s.modifyFrag a φ).slot i f =
    (s.slot i f).map fun m => if m.addr = a then { m with frag := φ m.frag } else m := by
  unfold slot
  rw [modifyFrag_luntbl]
  cases s.luntbl i with
  | none => rfl
  | some l =>
    simp only [Option.bind_some]
    split
    · rw [modifyFrag_frag?]
      split
      · rename_i e
        cases s.frag? (phys (l.fragmap f)) <;> simp [e]
      · rename_i e
        cases s.frag? (phys (l.fragmap f)) <;> simp [e]
    · rfl

theorem slot_modifyLun (size : ∀ l, s.luntbl i = some l → (ψ l).nrFrag = l.nrFrag)
    (map : ∀ l, s.luntbl i = some l → (ψ l).fragmap = l.fragmap) :
    (s.modifyLun i ψ).slot j f = s.slot j f := by
  unfold slot
  rw [modifyLun_luntbl]
  split
  · rename_i e
    subst e
    cases h : s.luntbl j with
    | none => rfl
    | some l => simp [size l h, map l h]
  · rfl

theorem slot_setDesc_ne (h : ¬ (j = i ∧ f = k)) : (s.setDesc i k w).slot j f = s.slot j f := by
  unfold slot setDesc
  rw [modifyLun_luntbl]
  split
  · rename_i e
    subst e
    have ne : f ≠ k := fun e => h ⟨rfl, e⟩
    cases s.luntbl j <;> simp [ne]
  · rfl

theorem slot_setDesc_unmapped (h : isMapped w = false) : (s.setDesc i k w).slot i k = none := by
  unfold slot setDesc
  rw [modifyLun_luntbl_self]
  cases s.luntbl i <;> simp [h]

end Sce

end Iostash
