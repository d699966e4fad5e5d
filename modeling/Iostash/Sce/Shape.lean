import Iostash.Util.Chain
import Iostash.Sce.FreeFragList
import Mathlib.Algebra.BigOperators.Group.Finset.Sigma
import Mathlib.Algebra.Order.BigOperators.Group.Finset

/-!
# How the engine's structures hang together

A fragment structure is linked to the free list or to the descriptor of a LUN that maps it. `node`
and `place` are the two ends of these links, and `Shape` says that they agree. It holds between the
steps of a call too, so it does not say that every fragment is linked.
-/

namespace Iostash

open Util

/-- The links of a fragment structure. -/
structure Node where
  lunidx : Nat
  fragnum : Nat
  next : Word
  deriving DecidableEq

def Frag.node (g : Frag) : Node := ⟨g.lunidx, g.fragnum, g.next⟩

namespace Sce

def node (s : Sce) (a : Phys) : Option Node := (s.frag? a).map Frag.node

/-- Where fragment `f` of LUN `i` is mapped. -/
def place (s : Sce) (i f : Nat) : Option Phys :=
  (s.luntbl i).bind fun l =>
    if f < l.nrFrag ∧ isMapped (l.fragmap f) = true then some (phys (l.fragmap f)) else none

/-- Entry `f` of the fragment map of a present LUN. -/
def entry (s : Sce) (i f : Nat) : Option Word :=
  (s.luntbl i).bind fun l => if f < l.nrFrag then some (l.fragmap f) else none

/-- The sizes of a present LUN in sectors and in fragments. -/
def extent (s : Sce) (i : Nat) : Option (Nat × Nat) := (s.luntbl i).map fun l => (l.nrSctr, l.nrFrag)

def isFree (s : Sce) (a : Phys) : Prop := ∃ n, s.node a = some n ∧ n.fragnum = fragnumWithinFreeList

def nextWord (s : Sce) (a : Phys) : Word := (s.node a).elim 0#32 Node.next

end Sce

def devSize (dev : Nat → Option (Nat × Nat)) (d : Nat) : Nat := (dev d).elim 0 Prod.snd

/-- The fragments of the devices that a pfid can name are no more than `nr_frag` says, so that no
`BUG_ON` of the free list can fire. It fails only when the sum of the sizes wraps. -/
def Roomy (dev : Nat → Option (Nat × Nat)) : Prop :=
  ∑ d ∈ Finset.range sceMaxCdev, min (devSize dev d) (2 ^ 24) ≤ u32 (∑ d ∈ Finset.range sceMaxCdev, devSize dev d)

theorem roomy_of_short {dev : Nat → Option (Nat × Nat)} (short : ∀ d ctx n, dev d = some (ctx, n) → n ≤ 2 ^ 24) :
    Roomy dev := by
  have size : ∀ d, devSize dev d ≤ 2 ^ 24 := by
    intro d
    unfold devSize
    cases here : dev d with
    | none => simp
    | some p => exact short d p.1 p.2 here
  have total : u32 (∑ d ∈ Finset.range sceMaxCdev, devSize dev d) = ∑ d ∈ Finset.range sceMaxCdev, devSize dev d :=
    u32_of_lt (Nat.lt_of_le_of_lt (Finset.sum_le_card_nsmul _ _ (2 ^ 24) fun d _ => size d) (by simp))
  unfold Roomy
  rw [total]
  exact Finset.sum_le_sum fun d _ => Nat.min_le_left _ _

/-- The device table and the two counters kept of it. -/
structure Devices (s : Sce) : Prop where
  bounds : ∀ d ctx n, s.dev d = some (ctx, n) → d < sceMaxCdev ∧ ctx ≠ 0 ∧ n < 2 ^ 32 ∧ 0 < n
  unique : ∀ d d' ctx n n', s.dev d = some (ctx, n) → s.dev d' = some (ctx, n') → d = d'
  nrCdev : s.nrCdev = ((Finset.range sceMaxCdev).filter fun d => (s.dev d).isSome).card
  nrFrag : s.nrFrag = u32 (∑ d ∈ Finset.range sceMaxCdev, devSize s.dev d)

/-- The LUN table; a LUN has the number of fragments `_lun_init` gave it. -/
structure Luns (s : Sce) : Prop where
  bounds : ∀ i m n, s.extent i = some (m, n) →
    i < sceMaxLun ∧ 0 < n ∧ m + (sceSctrPerFrag - 1) < 2 ^ 64 ∧ n = u32 ((m + (sceSctrPerFrag - 1)) / sceSctrPerFrag)
  nrLun : s.nrLun = ((Finset.range sceMaxLun).filter fun i => (s.extent i).isSome).card

/-- `fl` is the free list: it ends, repeats nothing, and holds what `fragnum` says it holds. -/
structure FreeList (s : Sce) (fl : List Phys) : Prop where
  chain : Chain phys 0#32 s.nextWord s.freefraglist fl
  nodup : fl.Nodup
  nrFreefrag : s.nrFreefrag = fl.length
  mem : ∀ a, a ∈ fl ↔ s.isFree a

structure Shape (s : Sce) : Prop where
  devices : Devices s
  luns : Luns s
  mapped : ∀ i f a, s.place i f = some a → s.node a = some ⟨i, f, 0#32⟩
  free : ∃ fl, FreeList s fl

variable {s s' : Sce} {a b : Phys} {φ : Frag → Frag} {ψ : Lun → Lun} {i j f k : Nat} {w pfid : Word}

/-! ### The links under an update -/

namespace Sce

theorem place_eq_some : s.place i f = some a ↔
    ∃ l, s.luntbl i = some l ∧ f < l.nrFrag ∧ isMapped (l.fragmap f) = true ∧ phys (l.fragmap f) = a := by
  unfold place
  cases s.luntbl i with
  | none => simp
  | some l => simp [and_assoc]

theorem entry_eq_some : s.entry i f = some w ↔ ∃ l, s.luntbl i = some l ∧ f < l.nrFrag ∧ l.fragmap f = w := by
  unfold entry
  cases s.luntbl i <;> simp

theorem place_eq_entry : s.place i f = (s.entry i f).bind fun w => if isMapped w = true then some (phys w) else none := by
  unfold place entry
  cases s.luntbl i with
  | none => rfl
  | some l => by_cases inside : f < l.nrFrag <;> simp [inside]

theorem modifyLun_entry (size : ∀ l, s.luntbl i = some l → (ψ l).nrFrag = l.nrFrag)
    (map : ∀ l, s.luntbl i = some l → (ψ l).fragmap = l.fragmap) : (s.modifyLun i ψ).entry = s.entry := by
  funext j f
  unfold entry
  rw [modifyLun_luntbl]
  split
  · rename_i e
    subst e
    cases lun : s.luntbl j with
    | none => rfl
    | some l => simp [size l lun, map l lun]
  · rfl

theorem setDesc_entry : (s.setDesc i k w).entry j f =
    if j = i ∧ f = k then (s.entry j f).map fun _ => w else s.entry j f := by
  unfold entry setDesc
  rw [modifyLun_luntbl]
  by_cases same : j = i
  · subst same
    cases s.luntbl j with
    | none => simp
    | some l => by_cases inside : f < l.nrFrag <;> by_cases here : f = k <;> simp [inside, here]
  · simp [same]

theorem node_eq_some {n : Node} : s.node a = some n ↔ ∃ g, s.frag? a = some g ∧ g.node = n := by
  simp [node]

theorem node_of_frag {g : Frag} (h : s.frag? a = some g) : s.node a = some g.node := by
  simp [node, h]

theorem isFree_iff {g : Frag} (h : s.frag? a = some g) : s.isFree a ↔ g.fragnum = fragnumWithinFreeList := by
  simp [isFree, node_of_frag h, Frag.node]

theorem extent_eq_some {m n : Nat} : s.extent i = some (m, n) ↔
    ∃ l, s.luntbl i = some l ∧ l.nrSctr = m ∧ l.nrFrag = n := by
  simp [extent]

theorem slot_eq_bind : s.slot i f = (s.luntbl i).bind fun l =>
    (s.place i f).bind fun a => (s.frag? a).map fun g => ⟨a, isValid (l.fragmap f), g⟩ := by
  unfold slot place
  cases s.luntbl i with
  | none => rfl
  | some l =>
    simp only [Option.bind_some]
    split <;> rfl

theorem place_of_slot {m : Slot} (h : s.slot i f = some m) : s.place i f = some m.addr := by
  obtain ⟨l, lun, inside, mapped, addr, _, _⟩ := slot_eq_some.mp h
  exact place_eq_some.mpr ⟨l, lun, inside, mapped, addr.symm⟩

theorem frag_of_slot {m : Slot} (h : s.slot i f = some m) : s.frag? m.addr = some m.frag := by
  obtain ⟨_, _, _, _, _, _, frag⟩ := slot_eq_some.mp h
  exact frag

@[simp] theorem modifyFrag_place : (s.modifyFrag a φ).place = s.place := rfl
@[simp] theorem modifyFrag_extent : (s.modifyFrag a φ).extent = s.extent := rfl
@[simp] theorem modifyLun_node : (s.modifyLun i ψ).node = s.node := rfl

/-- An update that keeps the links of the structure keeps every node. -/
theorem modifyFrag_node (keeps : ∀ g, s.frag? a = some g → (φ g).node = g.node) :
    (s.modifyFrag a φ).node = s.node := by
  funext b
  unfold node
  rw [modifyFrag_frag?]
  split
  · rename_i e
    subst e
    cases h : s.frag? b with
    | none => rfl
    | some g => simp [keeps g h]
  · rfl

theorem modifyLun_place (size : ∀ l, s.luntbl i = some l → (ψ l).nrFrag = l.nrFrag)
    (map : ∀ l, s.luntbl i = some l → (ψ l).fragmap = l.fragmap) : (s.modifyLun i ψ).place = s.place := by
  funext j f
  unfold place
  rw [modifyLun_luntbl]
  split
  · rename_i e
    subst e
    cases h : s.luntbl j with
    | none => rfl
    | some l => simp [size l h, map l h]
  · rfl

theorem modifyLun_extent (sctrs : ∀ l, s.luntbl i = some l → (ψ l).nrSctr = l.nrSctr)
    (size : ∀ l, s.luntbl i = some l → (ψ l).nrFrag = l.nrFrag) : (s.modifyLun i ψ).extent = s.extent := by
  funext j
  unfold extent
  rw [modifyLun_luntbl]
  split
  · rename_i e
    subst e
    cases h : s.luntbl j with
    | none => rfl
    | some l => simp [size l h, sctrs l h]
  · rfl

@[simp] theorem setDesc_extent : (s.setDesc i k w).extent = s.extent :=
  modifyLun_extent (fun _ _ => rfl) (fun _ _ => rfl)

@[simp] theorem setDesc_dev : (s.setDesc i k w).dev = s.dev := rfl
@[simp] theorem setDesc_node : (s.setDesc i k w).node = s.node := rfl
@[simp] theorem setDesc_frag? : (s.setDesc i k w).frag? a = s.frag? a := rfl
@[simp] theorem setDesc_nrCdev : (s.setDesc i k w).nrCdev = s.nrCdev := rfl
@[simp] theorem setDesc_nrLun : (s.setDesc i k w).nrLun = s.nrLun := rfl
@[simp] theorem setDesc_nrFrag : (s.setDesc i k w).nrFrag = s.nrFrag := rfl
@[simp] theorem setDesc_nrFreefrag : (s.setDesc i k w).nrFreefrag = s.nrFreefrag := rfl
@[simp] theorem setDesc_freefraglist : (s.setDesc i k w).freefraglist = s.freefraglist := rfl

theorem setDesc_place_ne (h : ¬ (j = i ∧ f = k)) : (s.setDesc i k w).place j f = s.place j f := by
  unfold place setDesc
  rw [modifyLun_luntbl]
  split
  · rename_i e
    subst e
    have ne : f ≠ k := fun e => h ⟨rfl, e⟩
    cases s.luntbl j <;> simp [ne]
  · rfl

theorem setDesc_place_self {l : Lun} (lun : s.luntbl i = some l) (inside : k < l.nrFrag) :
    (s.setDesc i k w).place i k = if isMapped w = true then some (phys w) else none := by
  simp [place, setDesc, lun, inside]

theorem setDesc_place_unmapped (h : isMapped w = false) : (s.setDesc i k w).place i k = none := by
  unfold place setDesc
  rw [modifyLun_luntbl_self]
  cases s.luntbl i <;> simp [h]

end Sce

/-! ### Congruence -/

theorem Devices.congr (h : Devices s) (dev : s'.dev = s.dev) (nrCdev : s'.nrCdev = s.nrCdev)
    (nrFrag : s'.nrFrag = s.nrFrag) : Devices s' := by
  refine ⟨?_, ?_, ?_, ?_⟩
  · rw [dev]; exact h.bounds
  · rw [dev]; exact h.unique
  · rw [dev, nrCdev]; exact h.nrCdev
  · rw [dev, nrFrag]; exact h.nrFrag

theorem Luns.congr (h : Luns s) (extent : s'.extent = s.extent) (nrLun : s'.nrLun = s.nrLun) : Luns s' := by
  refine ⟨?_, ?_⟩
  · rw [extent]; exact h.bounds
  · rw [extent, nrLun]; exact h.nrLun

theorem FreeList.congr {fl : List Phys} (h : FreeList s fl) (node : s'.node = s.node)
    (head : s'.freefraglist = s.freefraglist) (count : s'.nrFreefrag = s.nrFreefrag) : FreeList s' fl := by
  refine ⟨?_, h.nodup, ?_, ?_⟩
  · unfold Sce.nextWord; rw [node, head]; exact h.chain
  · rw [count]; exact h.nrFreefrag
  · unfold Sce.isFree; rw [node]; exact h.mem

/-- A state with the same links, sizes and counters has the shape too. -/
theorem Shape.congr (h : Shape s) (dev : s'.dev = s.dev) (extent : s'.extent = s.extent)
    (place : s'.place = s.place) (node : s'.node = s.node) (nrCdev : s'.nrCdev = s.nrCdev)
    (nrLun : s'.nrLun = s.nrLun) (nrFrag : s'.nrFrag = s.nrFrag) (head : s'.freefraglist = s.freefraglist)
    (count : s'.nrFreefrag = s.nrFreefrag) : Shape s' := by
  obtain ⟨fl, list⟩ := h.free
  refine ⟨h.devices.congr dev nrCdev nrFrag, h.luns.congr extent nrLun, ?_, fl, list.congr node head count⟩
  rw [place, node]
  exact h.mapped

theorem Shape.modifyFrag (h : Shape s) (keeps : ∀ g, s.frag? a = some g → (φ g).node = g.node) :
    Shape (s.modifyFrag a φ) :=
  h.congr Sce.modifyFrag_dev rfl rfl (Sce.modifyFrag_node keeps) rfl rfl rfl rfl rfl

theorem Shape.modifyLun (h : Shape s) (sctrs : ∀ l, s.luntbl i = some l → (ψ l).nrSctr = l.nrSctr)
    (size : ∀ l, s.luntbl i = some l → (ψ l).nrFrag = l.nrFrag)
    (map : ∀ l, s.luntbl i = some l → (ψ l).fragmap = l.fragmap) : Shape (s.modifyLun i ψ) :=
  h.congr rfl (Sce.modifyLun_extent sctrs size) (Sce.modifyLun_place size map) rfl rfl rfl rfl rfl rfl

theorem Shape.setDesc (h : Shape s) (same : (s.setDesc i k w).place i k = s.place i k) :
    Shape (s.setDesc i k w) := by
  refine h.congr rfl Sce.setDesc_extent ?_ rfl rfl rfl rfl rfl rfl
  funext j f
  by_cases here : j = i ∧ f = k
  · obtain ⟨rfl, rfl⟩ := here
    exact same
  · exact Sce.setDesc_place_ne here

/-! ### Uniqueness and counting -/

theorem Shape.place_inj (h : Shape s) (here : s.place i f = some a) (there : s.place j k = some a) :
    j = i ∧ k = f := by
  have eq := (h.mapped _ _ _ there).symm.trans (h.mapped _ _ _ here)
  simp only [Option.some.injEq, Node.mk.injEq] at eq
  exact ⟨eq.1, eq.2.1⟩

theorem Shape.nrFrag_lt (h : Shape s) {l : Lun} (lun : s.luntbl i = some l) : l.nrFrag < 2 ^ 32 := by
  obtain ⟨_, _, _, size⟩ := h.luns.bounds i _ _ (Sce.extent_eq_some.mpr ⟨l, lun, rfl, rfl⟩)
  rw [size]
  exact u32_lt _

theorem Shape.not_free (h : Shape s) (here : s.place i f = some a) : ¬ s.isFree a := by
  rintro ⟨n, node, within⟩
  obtain rfl := Option.some.inj (node.symm.trans (h.mapped _ _ _ here))
  obtain ⟨l, lun, inside, _⟩ := Sce.place_eq_some.mp here
  have bound := h.nrFrag_lt lun
  simp only [fragnumWithinFreeList] at within
  omega

/-- The fragments of the present devices that a pfid can name. -/
def Sce.present (s : Sce) : Finset (Σ _ : Nat, Nat) :=
  (Finset.range sceMaxCdev).sigma fun d => Finset.range (min (devSize s.dev d) (2 ^ 24))

theorem Devices.mem_present (h : Devices s) {n : Node} (node : s.node a = some n) (named : a.off < 2 ^ 24) :
    (⟨a.dev, a.off⟩ : Σ _ : Nat, Nat) ∈ s.present := by
  obtain ⟨g, frag, _⟩ := Sce.node_eq_some.mp node
  obtain ⟨ctx, size, dev, off⟩ := Sce.frag?_isSome.mp (Option.isSome_of_eq_some frag)
  simp only [Sce.present, Finset.mem_sigma, Finset.mem_range]
  exact ⟨(h.bounds _ _ _ dev).1, by simpa [devSize, dev] using ⟨off, named⟩⟩

/-- There are at most as many different fragment structures on lists as `nr_frag` says. -/
theorem Devices.length_le (h : Devices s) (roomy : Roomy s.dev) {l : List Phys} (nodup : l.Nodup)
    (present : ∀ a ∈ l, a.off < 2 ^ 24 ∧ ∃ n, s.node a = some n) : l.length ≤ s.nrFrag := by
  have inj : Function.Injective fun a : Phys => (⟨a.dev, a.off⟩ : Σ _ : Nat, Nat) := by
    intro a b e
    cases a
    cases b
    simp_all
  have sub : (l.map fun a : Phys => (⟨a.dev, a.off⟩ : Σ _ : Nat, Nat)).toFinset ⊆ s.present := by
    intro x member
    obtain ⟨a, inside, rfl⟩ := List.mem_map.mp (List.mem_toFinset.mp member)
    obtain ⟨named, n, node⟩ := present a inside
    exact h.mem_present node named
  have card := Finset.card_le_card sub
  rw [List.toFinset_card_of_nodup (nodup.map inj), List.length_map] at card
  rw [Sce.present, Finset.card_sigma] at card
  rw [h.nrFrag]
  simp only [Finset.card_range] at card
  exact card.trans roomy

theorem phys_off_lt (w : Word) : (phys w).off < 2 ^ 24 := scePfidOff_lt w

theorem Util.Seg.named {next : Phys → Word} {w w' : Word} {ks : List Phys} (h : Seg phys 0#32 next w ks w') :
    ∀ a ∈ ks, a.off < 2 ^ 24 := by
  induction h with
  | nil => intro a member; cases member
  | cons _ _ ih =>
    intro a member
    rcases List.mem_cons.mp member with rfl | tail
    · exact phys_off_lt _
    · exact ih a tail

theorem FreeList.room {fl : List Phys} (list : FreeList s fl) (h : Devices s) (roomy : Roomy s.dev) {n : Node}
    (node : s.node (phys pfid) = some n) (off : n.fragnum ≠ fragnumWithinFreeList) : fl.length < s.nrFrag := by
  have fresh : phys pfid ∉ fl := by
    intro member
    obtain ⟨n', node', within⟩ := (list.mem _).mp member
    obtain rfl := Option.some.inj (node.symm.trans node')
    exact off within
  have bound := h.length_le roomy (List.nodup_cons.mpr ⟨fresh, list.nodup⟩) (by
    intro b member
    rcases List.mem_cons.mp member with rfl | tail
    · exact ⟨phys_off_lt _, n, node⟩
    · obtain ⟨n', node', _⟩ := (list.mem b).mp tail
      exact ⟨list.chain.named b tail, n', node'⟩)
  rwa [List.length_cons] at bound

/-! ### The free list -/

def Frag.freed (next : Word) (g : Frag) : Frag := { g with fragnum := fragnumWithinFreeList, next := next }
def Frag.taken (g : Frag) : Frag := { g with next := 0#32, fragnum := fragnumFree }

/-- The state `_freefraglist_put` leaves. -/
def Sce.pushFree (s : Sce) (pfid : Word) : Sce :=
  { s.modifyFrag (phys pfid) (Frag.freed s.freefraglist) with
    freefraglist := pfid ||| fragdescMapped, nrFreefrag := s.nrFreefrag + 1 }

/-- The state `_freefraglist_get` leaves when it takes the fragment `pfid` with link `next`. -/
def Sce.popFree (s : Sce) (pfid next : Word) : Sce :=
  { s.modifyFrag (phys pfid) Frag.taken with
    freefraglist := next, nrFreefrag := s.nrFreefrag - 1 }

namespace Sce

@[simp] theorem pushFree_dev : (s.pushFree pfid).dev = s.dev :=
  modifyFrag_dev (a := phys pfid) (φ := Frag.freed s.freefraglist)
@[simp] theorem pushFree_luntbl : (s.pushFree pfid).luntbl = s.luntbl := rfl
@[simp] theorem pushFree_extent : (s.pushFree pfid).extent = s.extent := rfl
@[simp] theorem pushFree_place : (s.pushFree pfid).place = s.place := rfl
@[simp] theorem pushFree_nrCdev : (s.pushFree pfid).nrCdev = s.nrCdev := rfl
@[simp] theorem pushFree_nrLun : (s.pushFree pfid).nrLun = s.nrLun := rfl
@[simp] theorem pushFree_nrFrag : (s.pushFree pfid).nrFrag = s.nrFrag := rfl
@[simp] theorem popFree_dev : (s.popFree pfid w).dev = s.dev :=
  modifyFrag_dev (a := phys pfid) (φ := Frag.taken)
@[simp] theorem popFree_luntbl : (s.popFree pfid w).luntbl = s.luntbl := rfl
@[simp] theorem popFree_extent : (s.popFree pfid w).extent = s.extent := rfl
@[simp] theorem popFree_place : (s.popFree pfid w).place = s.place := rfl
@[simp] theorem popFree_nrCdev : (s.popFree pfid w).nrCdev = s.nrCdev := rfl
@[simp] theorem popFree_nrLun : (s.popFree pfid w).nrLun = s.nrLun := rfl
@[simp] theorem popFree_nrFrag : (s.popFree pfid w).nrFrag = s.nrFrag := rfl

theorem pushFree_frag? : (s.pushFree pfid).frag? b =
    if b = phys pfid then (s.frag? b).map (Frag.freed s.freefraglist) else s.frag? b :=
  modifyFrag_frag? (a := phys pfid) (φ := Frag.freed s.freefraglist)

theorem popFree_frag? : (s.popFree pfid w).frag? b =
    if b = phys pfid then (s.frag? b).map Frag.taken else s.frag? b :=
  modifyFrag_frag? (a := phys pfid) (φ := Frag.taken)

theorem pushFree_node : (s.pushFree pfid).node b = if b = phys pfid then
    (s.node b).map fun n => ⟨n.lunidx, fragnumWithinFreeList, s.freefraglist⟩ else s.node b := by
  unfold node
  rw [pushFree_frag?]
  split
  · cases s.frag? b <;> rfl
  · rfl

theorem popFree_node : (s.popFree pfid w).node b = if b = phys pfid then
    (s.node b).map fun n => ⟨n.lunidx, fragnumFree, 0#32⟩ else s.node b := by
  unfold node
  rw [popFree_frag?]
  split
  · cases s.frag? b <;> rfl
  · rfl

theorem pushFree_isFree {n : Node} (node : s.node (phys pfid) = some n) :
    (s.pushFree pfid).isFree b ↔ b = phys pfid ∨ s.isFree b := by
  unfold isFree
  rw [pushFree_node]
  split
  · rename_i e
    subst e
    simp [node]
  · rename_i ne
    simp [ne]

theorem popFree_isFree : (s.popFree pfid w).isFree b ↔ b ≠ phys pfid ∧ s.isFree b := by
  unfold isFree
  rw [popFree_node]
  split
  · rename_i e
    subst e
    cases s.node (phys pfid) <;> simp
  · rename_i ne
    simp [ne]

end Sce

theorem FreeList.push {fl : List Phys} (list : FreeList s fl) {n : Node} (node : s.node (phys pfid) = some n)
    (off : n.fragnum ≠ fragnumWithinFreeList) : FreeList (s.pushFree pfid) (phys pfid :: fl) := by
  have fresh : phys pfid ∉ fl := by
    intro member
    obtain ⟨n', node', within⟩ := (list.mem _).mp member
    obtain rfl := Option.some.inj (node.symm.trans node')
    exact off within
  refine ⟨?_, List.nodup_cons.mpr ⟨fresh, list.nodup⟩, ?_, ?_⟩
  · have head : Chain phys 0#32 (s.pushFree pfid).nextWord (pfid ||| fragdescMapped)
        (phys (pfid ||| fragdescMapped) :: fl) := by
      refine list.chain.push (or_mapped_ne_zero pfid) (by simp [Sce.nextWord, Sce.pushFree_node, node]) ?_
      intro a member
      have ne : a ≠ phys pfid := fun e => fresh (e ▸ member)
      simp [Sce.nextWord, Sce.pushFree_node, ne]
    rw [phys_or_mapped] at head
    exact head
  · simp [Sce.pushFree, list.nrFreefrag]
  · intro b
    rw [Sce.pushFree_isFree node, ← list.mem b, List.mem_cons]

theorem FreeList.pop {fl : List Phys} (list : FreeList s fl) (ne : s.freefraglist ≠ 0#32) :
    ∃ g fl', fl = phys s.freefraglist :: fl' ∧ s.frag? (phys s.freefraglist) = some g ∧
      FreeList (s.popFree s.freefraglist g.next) fl' := by
  obtain ⟨fl', rfl, tail⟩ := list.chain.uncons ne
  obtain ⟨n, node, within⟩ := (list.mem _).mp List.mem_cons_self
  obtain ⟨g, frag, rfl⟩ := Sce.node_eq_some.mp node
  obtain ⟨fresh, nodup⟩ := List.nodup_cons.mp list.nodup
  refine ⟨g, fl', rfl, frag, ?_, nodup, ?_, ?_⟩
  · have link : s.nextWord (phys s.freefraglist) = g.next := by simp [Sce.nextWord, node, Frag.node]
    rw [link] at tail
    refine tail.frame fun a member => ?_
    have ne : a ≠ phys s.freefraglist := fun e => fresh (e ▸ member)
    simp [Sce.nextWord, Sce.popFree_node, ne]
  · simp [Sce.popFree, list.nrFreefrag]
  · intro b
    rw [Sce.popFree_isFree, ← list.mem b, List.mem_cons]
    constructor
    · intro member
      exact ⟨fun e => fresh (e ▸ member), Or.inr member⟩
    · rintro ⟨ne, head | member⟩
      · exact absurd head ne
      · exact member

/-- A used fragment is put on the list, unless `nr_frag` has wrapped below its length. -/
theorem freefraglistPut_used {fl : List Phys} (list : FreeList s fl) (devices : Devices s) {n : Node}
    (node : s.node (phys pfid) = some n) (off : n.fragnum ≠ fragnumWithinFreeList) :
    (¬ Roomy s.dev ∧ freefraglistPut s pfid = .error .bugOn) ∨
      freefraglistPut s pfid = .ok (.success, s.pushFree pfid) := by
  obtain ⟨g, frag, rfl⟩ := Sce.node_eq_some.mp node
  have used : ¬ g.fragnum = fragnumWithinFreeList := off
  simp only [freefraglistPut, Sce.pfid2frag, frag, if_neg used]
  by_cases full : s.nrFrag < s.nrFreefrag + 1
  · refine Or.inl ⟨fun roomy => ?_, if_pos full⟩
    have room := list.room devices roomy node off
    rw [list.nrFreefrag] at full
    omega
  · exact Or.inr (if_neg full)

theorem freefraglistPut_free {g : Frag} (frag : s.frag? (phys pfid) = some g)
    (within : g.fragnum = fragnumWithinFreeList) : freefraglistPut s pfid = .ok (.error, s) := by
  simp only [freefraglistPut, Sce.pfid2frag, frag, if_pos within]

theorem freefraglistGet_empty (h : s.freefraglist = 0#32) : freefraglistGet s = .ok ((.error, 0#32), s) := by
  simp [freefraglistGet, h]

theorem freefraglistGet_eq {fl : List Phys} (list : FreeList s fl) (ne : s.freefraglist ≠ 0#32) {g : Frag}
    (frag : s.frag? (phys s.freefraglist) = some g) :
    freefraglistGet s = .ok ((.success, s.freefraglist), s.popFree s.freefraglist g.next) := by
  obtain ⟨_, fl', eq, _⟩ := list.pop ne
  have count : ¬ s.nrFreefrag = 0 := by rw [list.nrFreefrag, eq]; simp
  simp only [freefraglistGet, if_neg ne, Sce.pfid2frag, frag]
  rw [if_neg (by simpa [Sce.modifyFrag] using count)]
  rfl

theorem FreeList.empty_iff {fl : List Phys} (list : FreeList s fl) :
    s.freefraglist = 0#32 ↔ ∀ a, ¬ s.isFree a := by
  constructor
  · intro e a free
    have chain := list.chain
    rw [e] at chain
    have member := (list.mem a).mpr free
    rw [chain.eq_nil] at member
    cases member
  · intro none
    by_contra ne
    obtain ⟨ks, rfl, _⟩ := list.chain.uncons ne
    exact none _ ((list.mem _).mp List.mem_cons_self)

end Iostash
