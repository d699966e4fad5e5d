import Iostash.Client.Cached
import Iostash.Client.Contexts
import Iostash.Hook.Request

/-!
# Writes on their way to the disk

The write half of `iostash_mkrequest`, which invalidates what a write bio is about to change before it
passes the bio on, and the partition bounds `hdd_register` gives it to check.
-/

namespace Iostash

open Util

/-- The fields of `struct hdd_info` a write is checked against. -/
structure Target where
  lun : Nat
  nrSctr : Nat
  partStart : Nat
  partEnd : Nat
  online : Bool

/-- The bounds `hdd_register` sets, for a disk that was added to the cache as `lun`. -/
def hddRegister (lun nrSctr : Nat) : Target :=
  { lun := lun, nrSctr := nrSctr, partStart := 0, partEnd := sub64 (u64 (0 + nrSctr)) 1, online := true }

/-- The sectors `[x, x + n)` and page `q` of a LUN share one. -/
def SharesPage (x n q : Nat) : Prop :=
  ∃ o, o < sceSctrPerPage ∧ x ≤ q * sceSctrPerPage + o ∧ q * sceSctrPerPage + o < x + n

namespace World

/-- `iostash_mkrequest` for a write, until `org_mapreq` gets the bio. -/
def mkrequestWrite (w : World) (hdd : Target) (bio : Bio) : Option World :=
  if hdd.online = false then some w
  else if bio.nrSctr = 0 then some w
  else if bio.psn < hdd.partStart ∨ hdd.partEnd < u64 (bio.psn + bio.nrSctr) then some w
  else w.exec (.invalidate hdd.lun bio.psn bio.nrSctr)

/-- The call maps fragment `f` of LUN `i` anew. -/
def Remaps (w : World) (i f : Nat) (call : Call) : Prop :=
  w.sce.place i f = none ∧ ∃ w', w.exec call = some w' ∧ w'.sce.place i f ≠ none

/-- The fragment of a page, as `sce_get4read` computes it. -/
def pageFrag (q : Nat) : Nat := u32 (q / scePagePerFrag)

/-- From here on no read of page `q` is a hit, until its fragment is mapped anew. -/
def Forgets (w : World) (i q : Nat) : Prop :=
  ∀ t, Reachable exec (fun w call => ¬ w.Remaps i (pageFrag q) call) w t →
    ∀ x n m s', x < 2 ^ 64 → n < 2 ^ 32 → SharesPage x n q → sceGet4read t.sce i x n = .ok (m, s') → m = none

/-- Page `q` may be read from the cache, now or when the population of its fragment has succeeded. -/
def Holds (w : World) (i q : Nat) : Prop :=
  ∃ m, w.sce.slot i (pageFrag q) = some m ∧ bitmapBit m.frag.bitmap (q % scePagePerFrag) = false

variable {w w' : World} {call : Call} {i f p q x n : Nat} {l : Lun} {c : Cell} {bio : Bio}

/-! ### What is marked stays marked -/

/-- Where fragment `f` is mapped, its page `p` is not to be read. -/
def Spoilt (w : World) (i f p : Nat) : Prop := ∀ c, w.sce.view.cell i f = some c → c.bad p = true

theorem Spoilt.next (spoilt : w.Spoilt i f p) (base : w.Base) (moves : w.exec call = some w')
    (kept : ¬ w.Remaps i f call) : w'.Spoilt i f p := by
  intro c' cell'
  obtain ⟨base', reply, _, turn⟩ := exec_turn base moves
  cases turn.cell cell' with
  | kept cell _ _ bad =>
    rw [bad]
    exact spoilt _ cell
  | marked _ _ _ _ _ _ cell now =>
    subst now
    simp [Cell.mark, spoilt _ cell]
  | completed _ _ _ _ _ _ cell _ now =>
    subst now
    have bad := spoilt _ cell
    exact bad
  | mapped _ _ _ _ empty =>
    refine absurd ⟨?_, w', moves, ?_⟩ kept
    · rw [base.inv.shape.place_eq_cell, show w.sce.view.cell i f = none from empty]
      rfl
    · rw [base'.inv.shape.place_eq_cell, show w'.sce.view.cell i f = some c' from cell']
      simp

/-- A read that hits reads none but usable pages. -/
theorem Spoilt.misses (spoilt : w.Spoilt i (pageFrag q) (q % scePagePerFrag)) (base : w.Base) (hx : x < 2 ^ 64)
    (hn : n < 2 ^ 32) (shares : SharesPage x n q) {m : Option Fmap} {s' : Sce}
    (run : sceGet4read w.sce i x n = .ok (m, s')) : m = none := by
  have page : ∀ c, ¬ w.sce.view.served i x n c := by
    rintro c ⟨_, _, _, _, _, one, cell, _, clean⟩
    obtain ⟨o, lt, low, high⟩ := shares
    simp only [sceSctrPerPage, sceSctrPerFrag, scePagePerFrag] at lt low high one cell clean
    have frag : pageFrag q = u32 (x / 2048) := by
      unfold pageFrag
      congr 1
      simp only [scePagePerFrag]
      omega
    have bad := spoilt c (frag ▸ cell)
    simp only [scePagePerFrag] at bad
    rw [clean (q % 256) (by omega) (by omega)] at bad
    cases bad
  rcases sceGet4read_spec base.inv i hx hn with ⟨c, _, _, _, served, _⟩ | ⟨_, ⟨stop, _⟩ | ⟨_, ok, _⟩⟩
  · exact absurd served (page c)
  · cases stop.symm.trans run
  · exact (Prod.mk.inj (Except.ok.inj (ok.symm.trans run))).1.symm

theorem Spoilt.forgets (spoilt : w.Spoilt i (pageFrag q) (q % scePagePerFrag)) (base : w.Base) : w.Forgets i q := by
  intro t run
  have both : t.Base ∧ t.Spoilt i (pageFrag q) (q % scePagePerFrag) := by
    refine run.invariant (I := fun t => t.Base ∧ t.Spoilt i (pageFrag q) (q % scePagePerFrag)) ⟨base, spoilt⟩ ?_
    rintro t call t' ⟨here, there⟩ kept moves
    exact ⟨(exec_turn here moves).1, there.next here moves kept⟩
  exact fun x n m s' hx hn shares run => both.2.misses both.1 hx hn shares run

/-! ### A write that is invalidated -/

theorem invCount_eq (pos : 0 < n) (typed : n < 2 ^ 32) (short : x + n < 2 ^ 64) :
    invCount x n = (x + n - 1) / 8 - x / 8 + 1 := by
  unfold invCount
  simp only [sceSctrPerPage]
  have last : sub64 (x + n) 1 = x + n - 1 := sub64_of_le (by omega) (by omega)
  have pages : sub64 ((x + n - 1) / 8) (x / 8) = (x + n - 1) / 8 - x / 8 := sub64_of_le (by omega) (by omega)
  rw [u64_of_lt short, last, pages]
  unfold u32
  omega

theorem invStart_eq (x : Nat) : invFrag x * 256 + invOff x = x / 8 % 2 ^ 40 := by
  simp only [invFrag, invOff, u32, sceSctrPerPage, scePagePerFrag]
  omega

theorem pageFrag_eq (q : Nat) : pageFrag q * 256 + q % 256 = q % 2 ^ 40 := by
  simp only [pageFrag, u32, scePagePerFrag]
  omega

/-- Every page of a range the invalidation accepts is marked where its fragment is mapped. -/
theorem mark_page {c : Cell} (pos : 0 < n) (typed : n < 2 ^ 32) (short : x + n < 2 ^ 64) (shares : SharesPage x n q)
    (bound : invFrag x * 256 + invOff x + invCount x n ≤ 2 ^ 40) :
    (c.mark (pageFrag q) (invFrag x * 256 + invOff x) (invCount x n)).bad (q % scePagePerFrag) = true := by
  obtain ⟨o, lt, low, high⟩ := shares
  simp only [sceSctrPerPage] at lt low high
  have count := invCount_eq pos typed short
  -- the page numbers are counted modulo 2^40, and the marked ones do not wrap
  rw [invStart_eq, count] at bound ⊢
  simp only [Cell.mark, scePagePerFrag, pageFrag_eq, Bool.or_eq_true, Bool.and_eq_true, decide_eq_true_eq]
  refine Or.inr ⟨Nat.mod_lt _ (by decide), ?_, ?_⟩ <;> omega

theorem invalidated_spoilt (base : w.Base) (lun : w.sce.luntbl i = some l) (active : l.waiting4deletion = false)
    (pos : 0 < n) (typed : n < 2 ^ 32) (inside : x + n ≤ l.nrSctr) (moves : w.exec (.invalidate i x n) = some w')
    (shares : SharesPage x n q) : w'.Spoilt i (pageFrag q) (q % scePagePerFrag) := by
  have limit := base.inv.shape.nrSctr_lt lun
  have writable : w.sce.view.writable i x n := by
    refine ⟨l.volume, by rw [Sce.view_lun, lun]; rfl, active, Nat.pos_iff_ne_zero.mp pos, ?_⟩
    rw [u64_of_lt (by omega)]
    exact inside
  obtain ⟨op, reply, s', named, run, rfl⟩ := exec_eq_some.mp moves
  obtain ⟨_, ⟨⟩⟩ := Option.ite_none_right_eq_some.mp named
  intro c' cell'
  have cell' : s'.view.cell i (pageFrag q) = some c' := cell'
  obtain ⟨_, effect⟩ := Sce.call_effect base.inv (show (Op.invalidate i x n).Typed from trivial) run
  generalize s'.view = v' at effect cell'
  cases effect with
  | invalidateFail no => exact absurd writable no
  | @invalidate _ _ _ l' _ present bound =>
    obtain ⟨c, _, ⟨_, _, rfl⟩ | ⟨ne, _⟩⟩ := View.invalidate_cell_some cell'
    · have some_ : 0 < invCount x n := by
        rw [invCount_eq pos typed (by omega)]
        exact Nat.succ_pos _
      have small : l'.nrFrag < 2 ^ 32 := by
        obtain ⟨_, _, _, size⟩ := base.inv.sound.lun i l' present
        rw [size]
        exact u32_lt _
      exact mark_page pos typed (by omega) shares (Nat.le_trans (bound some_) (by omega))
    · exact absurd rfl ne

/-! ### A write that is passed on -/

/-- Only a bio that reaches the last sector of the disk gets past without an invalidation. -/
theorem mkrequestWrite_eq (pos : 0 < bio.nrSctr) (inside : bio.psn + bio.nrSctr ≤ l.nrSctr)
    (limit : l.nrSctr < 2 ^ 64) : w.mkrequestWrite (hddRegister i l.nrSctr) bio =
      if bio.psn + bio.nrSctr < l.nrSctr then w.exec (.invalidate i bio.psn bio.nrSctr) else some w := by
  have last : sub64 (u64 (0 + l.nrSctr)) 1 = l.nrSctr - 1 := by
    rw [Nat.zero_add, u64_of_lt (by omega)]
    exact sub64_of_le (by omega) (by omega)
  simp only [mkrequestWrite, hddRegister, last, u64_of_lt (show bio.psn + bio.nrSctr < 2 ^ 64 by omega)]
  rw [if_neg (by simp), if_neg (by omega)]
  split <;> split <;> first | rfl | omega

/-- A usable page of a valid mapping is served. -/
theorem served_page (base : w.Base) (lun : w.sce.luntbl i = some l) (active : l.waiting4deletion = false)
    (inside : q * sceSctrPerPage < l.nrSctr) {m : Slot} (slot : w.sce.slot i (pageFrag q) = some m)
    (valid : m.valid = true) (good : bitmapBit m.frag.bitmap (q % scePagePerFrag) = false) : ¬ w.Forgets i q := by
  intro forgets
  have limit := base.inv.shape.nrSctr_lt lun
  simp only [sceSctrPerPage] at inside
  have served : w.sce.view.served i (q * 8) 1 m.cell := by
    refine ⟨l.volume, by rw [Sce.view_lun, lun]; rfl, active, Nat.one_pos, inside, rfl, ?_, valid, ?_⟩
    · have frag : q * 8 / sceSctrPerFrag = q / scePagePerFrag := by
        simp only [sceSctrPerFrag, scePagePerFrag]
        omega
      rw [frag]
      exact Sce.view_cell_some slot
    · intro p low high
      simp only [sceSctrPerPage, scePagePerFrag] at low high good
      have same : p = q % 256 := by omega
      rw [same]
      exact good
  have shares : SharesPage (q * 8) 1 q := ⟨0, by decide, by simp, by simp⟩
  rcases sceGet4read_spec base.inv i (x := q * 8) (n := 1) (by omega) (by decide) with
    ⟨_, _, _, _, _, _, hit, _⟩ | ⟨miss, _⟩
  · cases forgets w .init _ _ _ _ (by omega) (by decide) shares hit
  · exact miss _ served

theorem lunGc_nothing {s : Sce} {a : Phys} {g : Frag} (frag : s.frag? a = some g) (alive : g.nrValid ≠ 0)
    (lun : s.luntbl i = some l) (active : l.waiting4deletion = false) : lunGc s i a = .ok (.success, s) := by
  simp [lunGc, frag, alive, lun, active, bind, Except.bind, pure, Except.pure]

/-- The end of a population that leaves a usable page collects nothing. -/
theorem completePopulation_returns {s : Sce} {m : Slot} (h : Inv nowhere s) (lun : s.luntbl i = some l)
    (active : l.waiting4deletion = false) (slot : s.slot i f = some m) (pending : m.valid = false)
    (one : m.frag.nrService = 1) (alive : m.frag.nrValid ≠ 0) :
    ∃ s', completePopulation s i f = .ok (.success, s') := by
  obtain ⟨l', lun', inside, mapped, addr, valid, frag⟩ := Sce.slot_eq_some.mp slot
  obtain rfl := Option.some.inj (lun.symm.trans lun')
  have next : m.frag.next = 0#32 := congrArg Node.next (h.shape.node_of_slot slot)
  obtain ⟨t, ht⟩ : ∃ t, t = ((s.setDesc i f (l.fragmap f ||| fragdescValid)).modifyFrag m.addr fun g =>
      { g with nrService := 0 }).modifyLun i fun l => { l with nrService := sub32 l.nrService 1 } := ⟨_, rfl⟩
  have frag' : t.frag? m.addr = some { m.frag with nrService := 0 } := by
    rw [ht, Sce.modifyLun_frag?, Sce.modifyFrag_frag?_self, Sce.setDesc_frag?, frag]
    rfl
  have lun' : ∃ l', t.luntbl i = some l' ∧ l'.waiting4deletion = false := by
    rw [ht]
    simp [Sce.setDesc, lun, active]
  obtain ⟨l', there, still⟩ := lun'
  have gc := lunGc_nothing frag' alive there still
  refine ⟨t, ?_⟩
  simp only [completePopulation, lun, if_neg (Nat.not_le.mpr inside), mapped, Sce.pfid2frag, ← addr, frag, ← valid,
    pending, next, one, releasePopulation, ← ht, gc]
  rfl

/-- The population of a pending mapping with a usable page can be put, and the mapping is valid then. -/
theorem population_completes {m : Slot} (h : w.Founded) (lun : w.sce.luntbl i = some l)
    (active : l.waiting4deletion = false) (slot : w.sce.slot i f = some m) (pending : m.valid = false)
    (alive : m.cell.spent = false) : ∃ id w₁ l₁ m₁, w.exec (.put4pop id false) = some w₁ ∧
      w₁.sce.luntbl i = some l₁ ∧ l₁.volume = { l.volume with service := sub32 l.volume.service 1 } ∧
      w₁.sce.slot i f = some m₁ ∧ m₁.cell = { m.cell with valid := true, service := 0 } := by
  have cell := Sce.view_cell_some slot
  have volume : w.sce.view.lun i = some l.volume := by rw [Sce.view_lun, lun]; rfl
  obtain ⟨one, p, member, l₀, lun₀, ctx, frag⟩ := h.owned i f m.cell cell pending
  obtain rfl := Option.some.inj (volume.symm.trans lun₀)
  have found : w.sce.view.search p.task.lunctx = some i := by
    rw [ctx]
    exact h.named.search_of_lun h.base.inv.sound volume
  have named : w.op (.put4pop p.id false) = some (.put4pop p.task false) := by
    simp [op, Pop.find_of_mem h.base.popNodup member]
  obtain ⟨s₁, complete⟩ := completePopulation_returns h.base.inv lun active slot pending one
    ((h.base.inv.spent_iff slot).not.mpr (by simp [alive]))
  rw [← frag] at complete
  obtain ⟨t, put⟩ : ∃ t, scePut4pop w.sce p.task false = .ok (.success, t) := by
    unfold scePut4pop
    rw [← Sce.view_search, found]
    simp only [complete]
    exact ⟨_, rfl⟩
  have moves : w.exec (.put4pop p.id false) = some (w.next (.put4pop p.id false) (.ret .success) t) :=
    exec_eq_some.mpr ⟨_, _, t, named, by rw [Sce.call, put]; rfl, rfl⟩
  obtain ⟨v, hv⟩ : ∃ v, v = (w.sce.view.setCell i f fun c => { c with valid := true, service := 0 }).release i :=
    ⟨_, rfl⟩
  have cell₁ : v.cell i f = some { m.cell with valid := true, service := 0 } := by
    rw [hv, View.release_cell, View.setCell_cell, if_pos ⟨rfl, rfl⟩, cell]
    rfl
  have lun₁ : v.lun i = some { l.volume with service := sub32 l.volume.service 1 } := by
    rw [hv, View.release, View.setLun_lun, if_pos rfl, View.setCell_lun, volume]
    rfl
  -- nothing is collected: a page is usable, and the LUN stays
  have kept : v.collect i f = v := by
    have alive : Cell.spent { m.cell with valid := true, service := 0 } = false := alive
    have active : l.volume.waiting = false := active
    simp [View.collect, View.settle, cell₁, lun₁, alive, active]
  have view' : t.view = v := by
    rcases scePut4pop_spec h.base.inv p.task false with ⟨_, stop⟩ | ⟨t', ok, _, view'⟩
    · cases stop.symm.trans put
    · obtain rfl := (Prod.mk.inj (Except.ok.inj (ok.symm.trans put))).2
      have pending : m.cell.valid = false := pending
      rw [view', ← kept, hv]
      simp [View.put4pop, found, View.complete, frag, cell, pending, one]
  rw [← view', Sce.view_lun] at lun₁
  rw [← view', Sce.view_cell] at cell₁
  obtain ⟨l₁, there, volume₁⟩ := Option.map_eq_some_iff.mp lun₁
  obtain ⟨m₁, slot₁, cell₁⟩ := Option.map_eq_some_iff.mp cell₁
  exact ⟨p.id, _, l₁, m₁, moves, there, volume₁, slot₁, cell₁⟩

/-- A page the cache holds is served after the population of its fragment, if that is not done yet. -/
theorem Holds.remembers (holds : w.Holds i q) (h : w.Founded) (lun : w.sce.luntbl i = some l)
    (active : l.waiting4deletion = false) (inside : q * sceSctrPerPage < l.nrSctr) : ¬ w.Forgets i q := by
  obtain ⟨m, slot, good⟩ := holds
  cases valid : m.valid with
  | true => exact served_page h.base lun active inside slot valid good
  | false =>
    have alive : m.cell.spent = false := by
      refine Bool.eq_false_iff.mpr fun spent => ?_
      have bad := List.all_eq_true.mp spent (q % scePagePerFrag) (List.mem_range.mpr (Nat.mod_lt _ (by decide)))
      cases good.symm.trans bad
    obtain ⟨id, w₁, l₁, m₁, moves, lun₁, volume₁, slot₁, cell₁⟩ := population_completes h lun active slot valid alive
    have mapped : ¬ w.Remaps i (pageFrag q) (.put4pop id false) := fun remaps => by
      cases (Sce.place_of_slot slot).symm.trans remaps.1
    have size : l₁.nrSctr = l.nrSctr := congrArg Volume.nrSctr volume₁
    have good₁ := (congrFun (congrArg Cell.bad cell₁) (q % scePagePerFrag)).trans good
    intro forgets
    exact served_page (exec_turn h.base moves).1 lun₁ ((congrArg Volume.waiting volume₁).trans active)
      (by rw [size]; exact inside) slot₁ (congrArg Cell.valid cell₁) good₁
      fun u run => forgets u ((Reachable.init.next mapped moves).trans run)

/-- After a write bio has been passed on, the pages it overlaps are forgotten, unless it reaches the last
sector of the disk and the cache holds one of them. -/
theorem mkrequestWrite_forgets_iff {allow : World → Call → Prop} (reached : Reachable exec allow init w)
    (fresh : ∀ w call, allow w call → w.Fresh call) (lun : w.sce.luntbl i = some l)
    (active : l.waiting4deletion = false) (pos : 0 < bio.nrSctr) (typed : bio.biSize < 2 ^ 32)
    (inside : bio.psn + bio.nrSctr ≤ l.nrSctr)
    (passes : w.mkrequestWrite (hddRegister i l.nrSctr) bio = some w') :
    (∀ q, SharesPage bio.psn bio.nrSctr q → w'.Forgets i q) ↔
      bio.psn + bio.nrSctr < l.nrSctr ∨ ∀ q, SharesPage bio.psn bio.nrSctr q → ¬ w.Holds i q := by
  have h := founded_of_reachable reached fresh
  have limit := h.base.inv.shape.nrSctr_lt lun
  rw [mkrequestWrite_eq pos inside limit] at passes
  split at passes
  · rename_i before
    refine iff_of_true (fun q shares => ?_) (Or.inl before)
    have small : bio.nrSctr < 2 ^ 32 := Nat.lt_of_le_of_lt (Nat.div_le_self _ _) typed
    exact (invalidated_spoilt h.base lun active pos small inside passes shares).forgets (exec_turn h.base passes).1
  · rename_i reaches
    obtain rfl := Option.some.inj passes
    constructor
    · intro forgets
      refine Or.inr fun q shares holds => ?_
      obtain ⟨o, lt, low, high⟩ := id shares
      exact holds.remembers h lun active (by omega) (forgets q shares)
    · rintro (before | clear) q shares
      · exact absurd before reaches
      · refine Spoilt.forgets (fun c cell => ?_) h.base
        obtain ⟨m, slot, rfl⟩ := Option.map_eq_some_iff.mp (Sce.view_cell ▸ cell)
        by_contra good
        exact clear q shares ⟨m, slot, Bool.eq_false_iff.mpr good⟩

theorem Orderly.fresh (orderly : w.Orderly call) : w.Fresh call := by
  cases call with
  | addlun m ctx vmalloc => exact ⟨orderly.2.1, orderly.2.2.1⟩
  | _ => trivial

theorem mkrequestWrite_forgets_oneCached : ∃ w', oneCached.mkrequestWrite (hddRegister 0 2048) ⟨0, 4096, 0⟩ = some w' ∧
    ∀ q, SharesPage 0 8 q → w'.Forgets 0 q := by
  have there : (oneCached.sce.luntbl 0).map (fun l => (l.waiting4deletion, l.nrSctr)) = some (false, 2048) := by
    decide +kernel
  obtain ⟨l, lun, facts⟩ := Option.map_eq_some_iff.mp there
  obtain ⟨active, size⟩ := Prod.mk.inj facts
  obtain ⟨w', passes⟩ : ∃ w', oneCached.mkrequestWrite (hddRegister 0 2048) ⟨0, 4096, 0⟩ = some w' :=
    Option.isSome_iff_exists.mp (by decide +kernel)
  refine ⟨w', passes, ?_⟩
  rw [← size] at passes
  exact (mkrequestWrite_forgets_iff oneCached_reachable (fun _ _ => Orderly.fresh) lun active (by decide) (by decide)
    (by rw [size]; decide) passes).mpr (Or.inl (by rw [size]; decide))

/-- The last page of the disk is served after a write to it. -/
theorem lastSector_escapes : Reachable exec Orderly init oneCached ∧
    (oneCached.sce.luntbl 0).map (fun l => (l.waiting4deletion, l.nrSctr)) = some (false, 2048) ∧
    oneCached.mkrequestWrite (hddRegister 0 2048) ⟨2040, 4096, 0⟩ = some oneCached ∧ SharesPage 2040 8 255 ∧
    ¬ oneCached.Forgets 0 255 := by
  refine ⟨oneCached_reachable, by decide +kernel, rfl, ⟨0, by decide, by decide, by decide⟩, fun forgets => ?_⟩
  have answer : (sceGet4read oneCached.sce 0 2040 8).toOption.map Prod.fst = some (some ⟨7, 0⟩) := by decide +kernel
  cases run : sceGet4read oneCached.sce 0 2040 8 with
  | error e =>
    rw [run] at answer
    cases answer
  | ok r =>
    rw [run] at answer
    have hit : r.1 = some ⟨7, 0⟩ := Option.some.inj answer
    have miss := forgets oneCached .init 2040 8 r.1 r.2 (by decide) (by decide) ⟨0, by decide, by decide, by decide⟩ run
    cases hit.symm.trans miss

end World

end Iostash
