import Iostash.Sce.Shape

/-!
# The abstract cache

What the engine is for, without its representation: which devices and LUNs there are, which
fragment of a LUN is cached where, how far it is usable, and which physical fragments are free.
-/

namespace Iostash

/-- A cached fragment: its place, its population finished or not, the requests on it, the pages
that may not be read from it. -/
structure Cell where
  addr : Phys
  valid : Bool
  service : Nat
  bad : Nat → Bool

/-- A LUN without its descriptors. -/
structure Volume where
  lunctx : Nat
  nrSctr : Nat
  nrFrag : Nat
  service : Nat
  waiting : Bool

structure View where
  dev : Nat → Option (Nat × Nat)
  lun : Nat → Option Volume
  cell : Nat → Nat → Option Cell
  free : Phys → Prop

def Lun.volume (l : Lun) : Volume := ⟨l.lunctx, l.nrSctr, l.nrFrag, l.nrService, l.waiting4deletion⟩

def Slot.cell (m : Slot) : Cell := ⟨m.addr, m.valid, m.frag.nrService, bitmapBit m.frag.bitmap⟩

/-- The abstract cache a state stands for. -/
def Sce.view (s : Sce) : View :=
  { dev := s.dev, lun := fun i => (s.luntbl i).map Lun.volume
    cell := fun i f => (s.slot i f).map Slot.cell, free := s.isFree }

/-- All pages of a fragment are invalid. -/
def Cell.spent (c : Cell) : Bool := (List.range scePagePerFrag).all c.bad

/-- The pages from `start` on, `count` of them, are invalidated in fragment `f`. -/
def Cell.mark (c : Cell) (f start count : Nat) : Cell :=
  { c with bad := fun p => c.bad p || (decide (p < scePagePerFrag) &&
      (decide (start ≤ f * scePagePerFrag + p) && decide (f * scePagePerFrag + p < start + count))) }

/-- Some page of fragment `f` is among them. -/
def touched (f start count : Nat) : Bool :=
  decide (max (f * scePagePerFrag) start < min ((f + 1) * scePagePerFrag) (start + count))

/-- An invalidated fragment goes when no page of it is usable and nobody uses it. -/
def Cell.goes (c : Cell) (f start count : Nat) : Bool :=
  touched f start count && c.valid && c.service == 0 && (c.mark f start count).spent

namespace View

/-! ### Changes of the abstract cache -/

def setLun (v : View) (i : Nat) (φ : Volume → Volume) : View :=
  { v with lun := fun j => if j = i then (v.lun j).map φ else v.lun j }

def setCell (v : View) (i f : Nat) (φ : Cell → Cell) : View :=
  { v with cell := fun j k => if j = i ∧ k = f then (v.cell j k).map φ else v.cell j k }

/-- The fragment is unmapped and its place is free. -/
def drop (v : View) (i f : Nat) : View :=
  { v with
    cell := fun j k => if j = i ∧ k = f then none else v.cell j k
    free := fun a => v.free a ∨ ∃ c, v.cell i f = some c ∧ c.addr = a }

/-- The LUN disappears; the places of its idle fragments are free. -/
def purge (v : View) (i : Nat) : View :=
  { v with
    lun := fun j => if j = i then none else v.lun j
    cell := fun j k => if j = i then none else v.cell j k
    free := fun a => v.free a ∨ ∃ f c, v.cell i f = some c ∧ c.addr = a ∧ c.service = 0 }

/-- A LUN pending deletion goes when nothing counts on it any more. -/
def settle (v : View) (i : Nat) : View :=
  if (v.lun i).any (fun l => l.waiting && l.service == 0) then v.purge i else v

/-- Garbage collection of one fragment, and then of its LUN. -/
def collect (v : View) (i f : Nat) : View :=
  if (v.cell i f).any (fun c => c.service == 0 && c.spent) then (v.drop i f).settle i else v.settle i

/-- A read starts. -/
def pin (v : View) (i f : Nat) : View :=
  (v.setCell i f fun c => { c with service := u16 (c.service + 1) }).setLun i
    fun l => { l with service := u32 (l.service + 1) }

/-- A read ends. -/
def unpin (v : View) (i f : Nat) : View :=
  let v' := (v.setCell i f fun c => { c with service := c.service - 1 }).setLun i
    fun l => { l with service := l.service - 1 }
  if (v.cell i f).any (fun c => c.service == 1) then v'.collect i f else v'

def release (v : View) (i : Nat) : View := v.setLun i fun l => { l with service := sub32 l.service 1 }

def invalidate (v : View) (i start count : Nat) : View :=
  { v with
    cell := fun j f => if j = i then
        (v.cell i f).bind fun c => if c.goes f start count then none else some (c.mark f start count)
      else v.cell j f
    free := fun a => v.free a ∨ ∃ f c, v.cell i f = some c ∧ c.addr = a ∧ c.goes f start count = true }

/-- A physical fragment is taken from the free list, or from the fragment mapped to it. -/
def seize (v : View) (a : Phys) : View :=
  { v with
    cell := fun j k => (v.cell j k).filter fun c => decide (c.addr ≠ a)
    free := fun b => b ≠ a ∧ v.free b }

/-- The pages of a new mapping that reach past the end of the LUN, as `_map_frag` computes them. -/
def tailBad (nrSctr nrFrag f p : Nat) : Bool :=
  decide (p < scePagePerFrag) && decide (f = nrFrag - 1) &&
    decide (nrSctr + (scePagePerFrag - 1 - p) * sceSctrPerPage < u32 (nrFrag * sceSctrPerFrag))

/-- Fragment `f` of LUN `i` is cached as `c`. -/
def enter (v : View) (i f : Nat) (c : Cell) : View :=
  { v with cell := fun j k => if j = i ∧ k = f then some c else v.cell j k }

/-- A population starts: fragment `f` is mapped to `a`, not valid, with one request on it. -/
def place (v : View) (i f : Nat) (a : Phys) (l : Volume) : View :=
  ((v.seize a).enter i f ⟨a, false, 1, tailBad l.nrSctr l.nrFrag f⟩).setLun i
    fun l => { l with service := u32 (l.service + 1) }

/-- `_complete_population` -/
def complete (v : View) (i f : Nat) : Ret × View :=
  match v.cell i f with
  | none => (.error, v)
  | some c =>
    if c.valid then (.success, (v.release i).collect i f)
    else if c.service = 1 then
      (.success, ((v.setCell i f fun c => { c with valid := true, service := 0 }).release i).collect i f)
    else (.error, v)

/-- `_cancel_population` -/
def cancel (v : View) (i f : Nat) : Ret × View :=
  match v.cell i f with
  | none => (.error, v)
  | some c =>
    if c.valid = false ∧ c.service = 1 then (.success, ((v.drop i f).release i).settle i) else (.error, v)

/-- `_lun_search` -/
def search (v : View) (lunctx : Nat) : Option Nat :=
  (List.range sceMaxLun).find? fun i => (v.lun i).elim 0 Volume.lunctx == lunctx

def put4pop (v : View) (poptask : Poptask) (failed : Bool) : Ret × View :=
  match v.search poptask.lunctx with
  | none => (.error, v)
  | some i => if failed then v.cancel i poptask.lunFragnum else v.complete i poptask.lunFragnum

def plug (v : View) (d ctx n : Nat) : View :=
  { v with
    dev := fun e => if e = d then some (ctx, n) else v.dev e
    free := fun a => v.free a ∨ a.dev = d ∧ a.off < min n (2 ^ 24) }

def unplug (v : View) (d : Nat) : View :=
  { v with
    dev := fun e => if e = d then none else v.dev e
    cell := fun j k => (v.cell j k).filter fun c => decide (c.addr.dev ≠ d)
    free := fun a => a.dev ≠ d ∧ v.free a }

def attach (v : View) (i : Nat) (l : Volume) : View :=
  { v with lun := fun j => if j = i then some l else v.lun j }

/-! ### Reading a changed cache -/

variable {v : View} {i j f k d ctx n start count : Nat} {a b : Phys} {φ : Volume → Volume} {ψ : Cell → Cell}

@[simp] theorem setLun_dev : (v.setLun i φ).dev = v.dev := rfl
@[simp] theorem setLun_cell : (v.setLun i φ).cell = v.cell := rfl
@[simp] theorem setLun_free : (v.setLun i φ).free = v.free := rfl
theorem setLun_lun : (v.setLun i φ).lun j = if j = i then (v.lun j).map φ else v.lun j := rfl
@[simp] theorem setCell_dev : (v.setCell i f ψ).dev = v.dev := rfl
@[simp] theorem setCell_lun : (v.setCell i f ψ).lun = v.lun := rfl
@[simp] theorem setCell_free : (v.setCell i f ψ).free = v.free := rfl
theorem setCell_cell : (v.setCell i f ψ).cell j k =
    if j = i ∧ k = f then (v.cell j k).map ψ else v.cell j k := rfl
@[simp] theorem drop_dev : (v.drop i f).dev = v.dev := rfl
@[simp] theorem drop_lun : (v.drop i f).lun = v.lun := rfl
theorem drop_cell : (v.drop i f).cell j k = if j = i ∧ k = f then none else v.cell j k := rfl
theorem enter_cell {c : Cell} : (v.enter i f c).cell j k = if j = i ∧ k = f then some c else v.cell j k := rfl
theorem drop_free : (v.drop i f).free a ↔ v.free a ∨ ∃ c, v.cell i f = some c ∧ c.addr = a := Iff.rfl
@[simp] theorem purge_dev : (v.purge i).dev = v.dev := rfl
theorem purge_lun : (v.purge i).lun j = if j = i then none else v.lun j := rfl
theorem purge_cell : (v.purge i).cell j k = if j = i then none else v.cell j k := rfl
theorem purge_free : (v.purge i).free a ↔
    v.free a ∨ ∃ f c, v.cell i f = some c ∧ c.addr = a ∧ c.service = 0 := Iff.rfl

@[simp] theorem settle_dev : (v.settle i).dev = v.dev := by
  unfold settle; split <;> rfl

/-- The abstract cache has one state for a given content. -/
theorem ext_fields {v w : View} (dev : v.dev = w.dev) (lun : v.lun = w.lun) (cell : v.cell = w.cell)
    (free : ∀ a, v.free a ↔ w.free a) : v = w := by
  cases v
  cases w
  simp only [View.mk.injEq]
  exact ⟨dev, lun, cell, funext fun a => propext (free a)⟩

end View

end Iostash
