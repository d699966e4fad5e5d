import Iostash.Sce.Frame
import Iostash.Sce.Runs

/-!
# What is cached stays cached

A page that can be read from the cache can be read from the same place until a call concerns it: an invalidation
of the page, the removal of its LUN or device, or a population that takes its place. What is populated is served.
-/

namespace Iostash

open Util

/-- How far a fragment is populated: the requests on it, as long as it is not valid. -/
def Cell.stage (c : Cell) : Option Nat := if c.valid then none else some c.service

namespace View

/-- The context and the sectors of a LUN that can be read. -/
def tenant (v : View) (i : Nat) : Option (Nat × Nat) :=
  ((v.lun i).filter fun l => !l.waiting).map fun l => (l.lunctx, l.nrSctr)

/-- Where page `p` of fragment `f` is cached, with the size of its LUN and how far the fragment is populated. -/
def page (v : View) (i f p : Nat) : Option (Nat × Phys × Option Nat) :=
  (v.tenant i).bind fun t => ((v.cell i f).filter fun c => !c.bad p).map fun c => (t.2, c.addr, c.stage)

/-- The call is about page `p` of fragment `f`. -/
def Concerns (v : View) (i f p : Nat) : Op → Reply → Prop
  | .rmlun j, _ => j = i
  | .addlun _ _ _, reply => reply = .hndl (some i)
  | .rmcdev d, _ => ∃ c, v.cell i f = some c ∧ c.addr.dev = d
  | .invalidate j y m, _ => j = i ∧ invFrag y * 256 + invOff y ≤ f * 256 + p ∧
      f * 256 + p < invFrag y * 256 + invOff y + invCount y m
  | .get4pop _, reply => ∃ t, reply = .poptask (some t) ∧
      ((∃ l, v.lun i = some l ∧ t.lunctx = l.lunctx ∧ t.lunFragnum = f) ∨
        ∃ c n, v.cell i f = some c ∧ v.dev c.addr.dev = some (t.cdevctx, n) ∧ t.cdevFragnum = c.addr.off)
  | .put4pop t _, _ => ∃ l, v.lun i = some l ∧ t.lunctx = l.lunctx ∧ t.lunFragnum = f
  | _, _ => False

variable {v v' : View} {i j f k p d ctx n start count : Nat} {a : Phys} {c : Cell} {l : Volume}
  {ψ : Cell → Cell}

/-! ### One page of a changed cache -/

theorem tenant_congr (lun : v'.lun i = v.lun i) : v'.tenant i = v.tenant i := by
  unfold tenant
  rw [lun]

theorem tenant_gone (lun : v.lun i = some l) (waiting : l.waiting = true) : v.tenant i = none := by
  simp [tenant, lun, waiting]

/-- The requests on a LUN are not part of it. -/
theorem tenant_count (n : Nat → Nat) :
    (v.setLun j fun l => { l with service := n l.service }).tenant i = v.tenant i := by
  unfold tenant
  rw [setLun_lun]
  split
  · cases v.lun i with
    | none => rfl
    | some l => cases waiting : l.waiting <;> simp [Option.filter, waiting]
  · rfl

/-- A LUN that settles could not be read before. -/
theorem tenant_settle : (v.settle j).tenant i = v.tenant i := by
  refine settle_induct (P := fun u => u.tenant i = v.tenant i) rfl fun l lun waiting _ => ?_
  by_cases here : i = j
  · subst here
    rw [tenant_gone lun waiting]
    simp [tenant, purge_lun]
  · exact tenant_congr (if_neg here)

theorem tenant_collect : (v.collect j k).tenant i = v.tenant i := by
  unfold collect
  split
  · exact tenant_settle
  · exact tenant_settle

theorem tenant_unpin : (v.unpin j k).tenant i = v.tenant i := by
  unfold unpin
  dsimp only
  split
  · exact tenant_collect.trans (tenant_count fun n => n - 1)
  · exact tenant_count fun n => n - 1

theorem tenant_release : (v.release j).tenant i = v.tenant i := tenant_count fun n => sub32 n 1

theorem tenant_put4pop {poptask : Poptask} {failed : Bool} :
    (v.put4pop poptask failed).2.tenant i = v.tenant i := by
  unfold put4pop
  split
  · rfl
  · split
    · unfold cancel
      split
      · rfl
      · split
        · exact tenant_settle.trans tenant_release
        · rfl
    · unfold complete
      split
      · rfl
      · split
        · exact tenant_collect.trans tenant_release
        · split
          · exact tenant_collect.trans tenant_release
          · rfl

theorem page_congr (tenant : v'.tenant i = v.tenant i) (cell : v.tenant i ≠ none → v'.cell i f = v.cell i f) :
    v'.page i f p = v.page i f p := by
  unfold page
  rw [tenant]
  cases here : v.tenant i with
  | none => rfl
  | some t => rw [cell (here ▸ Option.some_ne_none t)]

theorem page_gone (gone : v.tenant i = none) : v.page i f p = none := by
  rw [page, gone]
  rfl

theorem page_purge (ne : j ≠ i) : (v.purge j).page i f p = v.page i f p :=
  page_congr (tenant_congr (if_neg ne.symm)) fun _ => if_neg ne.symm

theorem page_settle : (v.settle j).page i f p = v.page i f p := by
  refine settle_induct (P := fun u => u.page i f p = v.page i f p) rfl fun l lun waiting idle => ?_
  by_cases here : j = i
  · subst here
    rw [page_gone (tenant_gone lun waiting), page_gone]
    simp [tenant, purge_lun]
  · exact page_purge here

theorem page_drop (ne : v.tenant i ≠ none → ¬ (i = j ∧ f = k)) : (v.drop j k).page i f p = v.page i f p :=
  page_congr rfl fun present => if_neg (ne present)

theorem page_drop_spent (cell : v.cell j k = some c) (spent : c.spent = true) (inside : p < scePagePerFrag) :
    (v.drop j k).page i f p = v.page i f p := by
  by_cases here : i = j ∧ f = k
  · obtain ⟨rfl, rfl⟩ := here
    have bad : c.bad p = true := List.all_eq_true.mp spent p (List.mem_range.mpr inside)
    unfold page
    rw [drop_cell, if_pos ⟨rfl, rfl⟩, cell]
    simp [Option.filter, bad]
  · exact page_drop fun _ => here

theorem page_collect (inside : p < scePagePerFrag) : (v.collect j k).page i f p = v.page i f p := by
  unfold collect
  split
  · rename_i gone
    obtain ⟨c, cell, both⟩ := (Option.any_eq_true _ _).mp gone
    rw [page_settle, page_drop_spent cell (Bool.and_eq_true_iff.mp both).2 inside]
  · exact page_settle

theorem page_count (n : Nat → Nat) :
    (v.setLun j fun l => { l with service := n l.service }).page i f p = v.page i f p :=
  page_congr (tenant_count n) fun _ => rfl

theorem page_release : (v.release j).page i f p = v.page i f p := page_count fun n => sub32 n 1

theorem page_setCell_ne (ne : v.tenant i ≠ none → ¬ (i = j ∧ f = k)) :
    (v.setCell j k ψ).page i f p = v.page i f p := page_congr rfl fun present => if_neg (ne present)

/-- The requests on a fragment that is valid are not part of it. -/
theorem page_setCell (cell : v.cell j k = some c) (addr : (ψ c).addr = c.addr) (stage : (ψ c).stage = c.stage)
    (bad : (ψ c).bad = c.bad) : (v.setCell j k ψ).page i f p = v.page i f p := by
  by_cases here : i = j ∧ f = k
  · obtain ⟨rfl, rfl⟩ := here
    unfold page
    rw [setCell_cell, if_pos ⟨rfl, rfl⟩, cell]
    have same : (v.setCell i f ψ).tenant i = v.tenant i := rfl
    rw [same, Option.map_some, Option.filter_some, Option.filter_some, bad]
    split
    · simp only [Option.map_some, addr, stage]
    · rfl
  · exact page_setCell_ne fun _ => here

theorem page_serve (n : Nat → Nat) (cell : v.cell j k = some c) (valid : c.valid = true) :
    (v.setCell j k fun c => { c with service := n c.service }).page i f p = v.page i f p := by
  have stage : Cell.stage { c with service := n c.service } = c.stage := by
    simp [Cell.stage, valid]
  exact page_setCell cell rfl stage rfl

theorem page_pin (cell : v.cell j k = some c) (valid : c.valid = true) :
    (v.pin j k).page i f p = v.page i f p :=
  (page_count fun n => u32 (n + 1)).trans (page_serve (fun n => u16 (n + 1)) cell valid)

theorem page_unpin (cell : v.cell j k = some c) (valid : c.valid = true) (inside : p < scePagePerFrag) :
    (v.unpin j k).page i f p = v.page i f p := by
  have less : ((v.setCell j k fun c => { c with service := c.service - 1 }).setLun j
      fun l => { l with service := l.service - 1 }).page i f p = v.page i f p :=
    (page_count fun n => n - 1).trans (page_serve (fun n => n - 1) cell valid)
  unfold unpin
  dsimp only
  split
  · exact (page_collect inside).trans less
  · exact less

/-- A page that is not invalidated stays, and a fragment that goes has none. -/
theorem page_invalidate (inside : p < scePagePerFrag)
    (other : j = i → ¬ (start ≤ f * scePagePerFrag + p ∧ f * scePagePerFrag + p < start + count)) :
    (v.invalidate j start count).page i f p = v.page i f p := by
  by_cases here : i = j
  · subst here
    unfold page
    have lun : (v.invalidate i start count).tenant i = v.tenant i := rfl
    rw [lun]
    cases cell : v.cell i f with
    | none => simp [invalidate, cell]
    | some c =>
      have kept : (c.mark f start count).bad p = c.bad p := by
        have out := other rfl
        simp only [Cell.mark, inside, decide_true, Bool.true_and]
        rw [← Bool.decide_and, decide_eq_false out, Bool.or_false]
      cases goes : c.goes f start count with
      | false =>
        rw [invalidate_cell_self cell goes, Option.filter_some, Option.filter_some, kept]
        split <;> rfl
      | true =>
        have spent : (c.mark f start count).spent = true := (Bool.and_eq_true_iff.mp goes).2
        have bad : c.bad p = true := kept.symm.trans (List.all_eq_true.mp spent p (List.mem_range.mpr inside))
        simp [invalidate, cell, goes, Option.filter, bad]
  · exact page_congr rfl fun _ => invalidate_cell_ne here

theorem page_unplug (away : ∀ c, v.cell i f = some c → c.addr.dev ≠ d) : (v.unplug d).page i f p = v.page i f p := by
  refine page_congr rfl fun _ => ?_
  cases cell : v.cell i f with
  | none => simp [unplug, cell]
  | some c => simp [unplug, cell, Option.filter, away c cell]

theorem page_attach (ne : j ≠ i) : (v.attach j l).page i f p = v.page i f p :=
  page_congr (tenant_congr (if_neg ne.symm)) fun _ => rfl

theorem page_place (ne : ¬ (i = j ∧ f = k)) (apart : ∀ c, v.cell i f = some c → c.addr ≠ a) :
    (v.place j k a l).page i f p = v.page i f p := by
  have entered : ((v.seize a).enter j k ⟨a, false, 1, tailBad l.nrSctr l.nrFrag k⟩).page i f p = v.page i f p := by
    refine page_congr rfl fun _ => ?_
    rw [enter_cell, if_neg ne]
    cases cell : v.cell i f with
    | none => simp [seize, cell]
    | some c => simp [seize, cell, Option.filter, apart c cell]
  exact (page_count fun n => u32 (n + 1)).trans entered

theorem page_cancel (ne : v.tenant i ≠ none → ¬ (i = j ∧ f = k)) : (v.cancel j k).2.page i f p = v.page i f p := by
  unfold cancel
  split
  · rfl
  · split
    · exact page_settle.trans (page_release.trans (page_drop ne))
    · rfl

theorem page_complete (inside : p < scePagePerFrag) (ne : v.tenant i ≠ none → ¬ (i = j ∧ f = k)) :
    (v.complete j k).2.page i f p = v.page i f p := by
  unfold complete
  split
  · rfl
  · split
    · exact (page_collect inside).trans page_release
    · split
      · exact (page_collect inside).trans (page_release.trans (page_setCell_ne ne))
      · rfl

/-- What a read of `n` sectors from `x` on gets. -/
def Answers (v : View) (i x n : Nat) (m : Fmap) : Prop :=
  ∃ c size, v.served i x n c ∧ v.dev c.addr.dev = some (m.cdevctx, size) ∧ c.addr.off = m.fragnum

theorem cell_of_page {m : Nat} {stage : Option Nat} (here : v.page i f p = some (m, a, stage)) :
    (∃ ctx, v.tenant i = some (ctx, m)) ∧
      ∃ c, v.cell i f = some c ∧ c.bad p = false ∧ c.addr = a ∧ c.stage = stage := by
  obtain ⟨⟨ctx, m'⟩, tenant, here⟩ := Option.bind_eq_some_iff.mp here
  obtain ⟨c, here, all⟩ := Option.map_eq_some_iff.mp here
  obtain ⟨cell, good⟩ := Option.filter_eq_some_iff.mp here
  obtain ⟨rfl, both⟩ := Prod.mk.inj all
  obtain ⟨addr, stage⟩ := Prod.mk.inj both
  exact ⟨⟨ctx, tenant⟩, c, cell, by simpa using good, addr, stage⟩

/-- A read is served when each of its pages is cached at one place. -/
theorem served_iff_page {x : Nat} : (∃ c, v.served i x n c ∧ c.addr = a) ↔
    ∃ m, x + n ≤ m ∧ 0 < n ∧ (x + n - 1) / sceSctrPerFrag = x / sceSctrPerFrag ∧
    ∀ p, x / sceSctrPerPage % scePagePerFrag ≤ p → p ≤ (x + n - 1) / sceSctrPerPage % scePagePerFrag →
      v.page i (u32 (x / sceSctrPerFrag)) p = some (m, a, none) := by
  constructor
  · rintro ⟨c, ⟨l, lun, active, pos, bound, single, cell, valid, good⟩, rfl⟩
    refine ⟨l.nrSctr, bound, pos, single, fun p low high => ?_⟩
    simp [page, tenant, lun, active, cell, Option.filter, good p low high, Cell.stage, valid]
  · rintro ⟨m, bound, pos, single, pages⟩
    have some : x / sceSctrPerPage % scePagePerFrag ≤ (x + n - 1) / sceSctrPerPage % scePagePerFrag := by
      simp only [sceSctrPerFrag, sceSctrPerPage, scePagePerFrag] at single ⊢
      omega
    obtain ⟨⟨ctx, tenant⟩, c, cell, _, addr, stage⟩ := cell_of_page (pages _ le_rfl some)
    have valid : c.valid = true := by
      by_contra pending
      simp [Cell.stage, pending] at stage
    obtain ⟨l, active, both⟩ := Option.map_eq_some_iff.mp tenant
    obtain ⟨_, rfl⟩ := Prod.mk.inj both
    obtain ⟨lun, active⟩ := Option.filter_eq_some_iff.mp active
    refine ⟨c, ⟨l, lun, by simpa using active, pos, bound, single, cell, valid, fun p low high => ?_⟩, addr⟩
    obtain ⟨_, c', cell', good, _⟩ := cell_of_page (pages p low high)
    obtain rfl := Option.some.inj (cell.symm.trans cell')
    exact good

end View

variable {v v' : View} {s s' : Sce} {op : Op} {reply : Reply} {i f p x n : Nat} {m : Fmap} {a : Phys}

/-- Only the calls for a LUN change who can be read there. -/
theorem Effect.tenant (effect : Effect v op reply v') (kept : op ≠ .rmlun i)
    (other : ∀ m ctx vmalloc, op = .addlun m ctx vmalloc → reply ≠ .hndl (some i)) : v'.tenant i = v.tenant i := by
  cases effect with
  | @addlun m ctx j vmalloc =>
    have ne : i ≠ j := by
      rintro rfl
      exact other m ctx vmalloc rfl rfl
    exact View.tenant_congr (if_neg ne)
  | @rmlunWait j => exact View.tenant_congr (if_neg fun here : i = j => kept (here ▸ rfl))
  | @rmlun j => exact View.tenant_congr (if_neg fun here : i = j => kept (here ▸ rfl))
  | readHit => exact View.tenant_count fun n => u32 (n + 1)
  | pop => exact View.tenant_count fun n => u32 (n + 1)
  | putRead => exact View.tenant_unpin
  | putPop => exact View.tenant_put4pop
  | _ => rfl

/-- A call that is not about a page leaves it. -/
theorem Effect.page (effect : Effect v op reply v') (inside : p < scePagePerFrag)
    (other : ¬ v.Concerns i f p op reply) : v'.page i f p = v.page i f p := by
  cases effect with
  | addcdevFail | rmcdevFail | addlunFail | rmlunFail | readMiss | putReadFail | invalidateFail | popNone => rfl
  | addcdev => exact View.page_congr rfl fun _ => rfl
  | rmcdev => exact View.page_unplug fun c cell here => other ⟨c, cell, here⟩
  | addlun => exact View.page_attach fun here => other (here ▸ rfl)
  | @rmlunWait j l present busy =>
    exact View.page_congr (View.tenant_congr (if_neg fun here : i = j => other here.symm)) fun _ => rfl
  | rmlun => exact View.page_purge other
  | readHit served =>
    obtain ⟨_, _, _, _, _, _, cell, valid, _⟩ := served
    exact View.page_pin cell valid
  | putRead busy =>
    obtain ⟨_, _, _, _, _, cell, valid, _⟩ := busy
    exact View.page_unpin cell valid inside
  | invalidate => exact View.page_invalidate inside fun here both => other ⟨here, both⟩
  | @pop _ j k ctx size b l present active within empty free dev =>
    refine View.page_place ?_ ?_
    · rintro ⟨rfl, rfl⟩
      exact other ⟨_, rfl, Or.inl ⟨l, present, rfl, rfl⟩⟩
    · rintro c cell rfl
      exact other ⟨_, rfl, Or.inr ⟨c, size, cell, dev, rfl⟩⟩
  | @putPop t failed =>
    unfold View.put4pop
    split
    · rfl
    · rename_i j found
      have ne : v.tenant i ≠ none → ¬ (i = j ∧ f = t.lunFragnum) := by
        rintro present ⟨rfl, rfl⟩
        have same := List.find?_some found
        cases lun : v.lun i with
        | none => exact present (by simp [View.tenant, lun])
        | some l =>
          rw [lun] at same
          exact other ⟨l, lun, (beq_iff_eq.mp same).symm, rfl⟩
      split
      · exact View.page_cancel ne
      · exact View.page_complete inside ne

/-- A device stays until it is taken out. -/
theorem Effect.dev_stays {d : Nat} {y : Nat × Nat} (effect : Effect v op reply v') (dev : v.dev d = some y)
    (kept : op ≠ .rmcdev d) : v'.dev d = some y := by
  cases effect with
  | @addcdev m ctx e k vmalloc size pos slot absent =>
    have ne : d ≠ e := by
      rintro rfl
      rw [absent] at dev
      cases dev
    exact (if_neg ne).trans dev
  | @rmcdev e => exact (if_neg fun here : d = e => kept (here ▸ rfl)).trans dev
  | putRead => exact (congrFun View.unpin_dev d).trans dev
  | putPop => exact (congrFun View.put4pop_dev d).trans dev
  | _ => exact dev

/-- The call is not about a page of the read. -/
def View.SparedRead (v : View) (i x n : Nat) (op : Op) (reply : Reply) : Prop :=
  ∀ p, x / sceSctrPerPage % scePagePerFrag ≤ p → p ≤ (x + n - 1) / sceSctrPerPage % scePagePerFrag →
    ¬ v.Concerns i (u32 (x / sceSctrPerFrag)) p op reply

theorem Effect.answers (effect : Effect v op reply v') (sound : v.Sound) (spared : v.SparedRead i x n op reply) :
    v'.Answers i x n m ↔ v.Answers i x n m := by
  have pages : ∀ p, x / sceSctrPerPage % scePagePerFrag ≤ p → p ≤ (x + n - 1) / sceSctrPerPage % scePagePerFrag →
      v'.page i (u32 (x / sceSctrPerFrag)) p = v.page i (u32 (x / sceSctrPerFrag)) p := by
    intro p low high
    have inside : p < scePagePerFrag := Nat.lt_of_le_of_lt high (Nat.mod_lt _ (by decide))
    exact effect.page inside (spared p low high)
  have served : ∀ a, (∃ c, v'.served i x n c ∧ c.addr = a) ↔ ∃ c, v.served i x n c ∧ c.addr = a := by
    intro a
    rw [View.served_iff_page, View.served_iff_page]
    refine exists_congr fun k => and_congr_right fun _ => and_congr_right fun _ => and_congr_right fun _ => ?_
    exact forall_congr' fun p => forall_congr' fun low => forall_congr' fun high => by rw [pages p low high]
  -- the device of a fragment that is served stays
  have device : ∀ c, v.served i x n c → ∃ y, v.dev c.addr.dev = some y ∧ v'.dev c.addr.dev = some y := by
    rintro c ⟨_, _, _, pos, _, single, cell, _⟩
    obtain ⟨_, ctx, size, dev, _⟩ := sound.there _ _ _ cell
    refine ⟨_, dev, effect.dev_stays dev ?_⟩
    rintro rfl
    refine spared (x / sceSctrPerPage % scePagePerFrag) le_rfl ?_ ⟨c, cell, rfl⟩
    simp only [sceSctrPerFrag, sceSctrPerPage, scePagePerFrag] at single ⊢
    omega
  constructor
  · rintro ⟨c', size, here, dev, off⟩
    obtain ⟨c, there, addr⟩ := (served c'.addr).mp ⟨c', here, rfl⟩
    obtain ⟨y, before, after⟩ := device c there
    rw [addr] at before after
    obtain rfl := Option.some.inj (after.symm.trans dev)
    exact ⟨c, size, there, addr ▸ before, addr ▸ off⟩
  · rintro ⟨c, size, there, dev, off⟩
    obtain ⟨c', here, addr⟩ := (served c.addr).mpr ⟨c, there, rfl⟩
    obtain ⟨y, before, after⟩ := device c there
    obtain rfl := Option.some.inj (before.symm.trans dev)
    exact ⟨c', size, here, addr ▸ after, addr ▸ off⟩

/-! ### Reads in a run -/

theorem sceGet4read_answers (h : Inv nowhere s) (wide : x < 2 ^ 64) (narrow : n < 2 ^ 32) :
    (∃ t, sceGet4read s i x n = .ok (some m, t)) ↔ s.view.Answers i x n m := by
  constructor
  · rintro ⟨t, run⟩
    rcases sceGet4read_spec h i wide narrow with
      ⟨c, ctx, size, _, served, dev, ok, _⟩ | ⟨_, ⟨fail, _⟩ | ⟨_, ok, _⟩⟩
    · obtain ⟨e, _⟩ := Prod.mk.inj (Except.ok.inj (ok.symm.trans run))
      obtain rfl := Option.some.inj e
      exact ⟨c, size, served, dev, rfl⟩
    · rw [fail] at run
      cases run
    · rw [ok] at run
      cases run
  · rintro ⟨c, size, served, dev, off⟩
    rcases sceGet4read_spec h i wide narrow with ⟨c', ctx, size', t, served', dev', ok, _⟩ | ⟨miss, _⟩
    · obtain ⟨_, _, _, _, _, _, cell, _⟩ := served
      obtain ⟨_, _, _, _, _, _, cell', _⟩ := served'
      obtain rfl := Option.some.inj (cell.symm.trans cell')
      obtain ⟨rfl, _⟩ := Prod.mk.inj (Option.some.inj (dev.symm.trans dev'))
      rw [off] at ok
      exact ⟨t, ok⟩
    · exact absurd served (miss c)

/-- The call is not about a page of the read, whatever it answers. -/
def Sce.SparesRead (s : Sce) (i x n : Nat) (op : Op) : Prop :=
  op.InType ∧ ∀ reply s', s.call op = .ok (reply, s') → s.view.SparedRead i x n op reply

theorem Sce.answers_last (reached : s.Reached) (run : Reachable Sce.exec (fun s op => s.SparesRead i x n op) s s') :
    s'.Reached ∧ (s'.view.Answers i x n m ↔ s.view.Answers i x n m) := by
  refine run.invariant (I := fun s' => s'.Reached ∧ (s'.view.Answers i x n m ↔ s.view.Answers i x n m))
    ⟨reached, Iff.rfl⟩ ?_
  rintro t op t' ⟨here, same⟩ ⟨typed, spared⟩ moves
  obtain ⟨reply, called⟩ := Sce.exec_eq_some.mp moves
  refine ⟨here.next typed moves, ?_⟩
  rcases (Sce.call_inv here.inv typed called).2 with rfl | effect
  · exact same
  · exact (effect.answers here.inv.sound (spared reply t' called)).trans same

/-- Through any run of calls that are not about its pages, a read goes on to be answered in the same way. -/
theorem Sce.answer_lasts (reached : s.Reached) (wide : x < 2 ^ 64) (narrow : n < 2 ^ 32)
    (run : Reachable Sce.exec (fun s op => s.SparesRead i x n op) s s') :
    (∃ t, sceGet4read s' i x n = .ok (some m, t)) ↔ ∃ t, sceGet4read s i x n = .ok (some m, t) := by
  obtain ⟨reached', same⟩ := Sce.answers_last (m := m) reached run
  rw [sceGet4read_answers reached'.inv wide narrow, sceGet4read_answers reached.inv wide narrow]
  exact same

/-- A device, a LUN, and its first fragment after a population. -/
def Sce.filled : Sce := (execAll Sce.exec (fun _ op => decide op.InType) sceCreate
  [.addcdev 2048 7 true, .addlun 4096 9 true, .get4read 0 0 8, .get4pop fun _ _ => 0#32,
    .put4pop ⟨9, 7, 0, 0⟩ false]).getD sceCreate

theorem Sce.filled_reached : Sce.filled.Reached :=
  reachable_getD (fun _ _ typed => of_decide_eq_true typed) (by decide +kernel)

theorem Sce.answer_lasts_filled : ∃ s' t, Sce.filled.exec (.invalidate 0 2048 8) = some s' ∧
    sceGet4read s' 0 0 8 = .ok (some ⟨7, 0⟩, t) := by
  obtain ⟨s', moves⟩ : ∃ s', Sce.filled.exec (.invalidate 0 2048 8) = some s' :=
    Option.isSome_iff_exists.mp (by decide +kernel)
  have spares : Sce.filled.SparesRead 0 0 8 (.invalidate 0 2048 8) := by
    refine ⟨by decide, ?_⟩
    rintro reply t _ p _ high ⟨_, low, _⟩
    have first : invFrag 2048 * 256 + invOff 2048 = 256 := by decide
    have bound : (0 + 8 - 1) / sceSctrPerPage % scePagePerFrag = 0 := by decide
    have zero : u32 (0 / sceSctrPerFrag) = 0 := by decide
    rw [first, zero] at low
    rw [bound] at high
    omega
  have answer : (sceGet4read Sce.filled 0 0 8).toOption.map Prod.fst = some (some ⟨7, 0⟩) := by decide +kernel
  obtain ⟨⟨m, t⟩, done, e⟩ := Option.map_eq_some_iff.mp answer
  obtain rfl : m = some ⟨7, 0⟩ := e
  have before : ∃ t, sceGet4read Sce.filled 0 0 8 = .ok (some ⟨7, 0⟩, t) := ⟨t, Except.toOption_eq_some.mp done⟩
  obtain ⟨t', after⟩ := (Sce.answer_lasts Sce.filled_reached (by decide) (by decide)
    (Reachable.init.next spares moves)).mpr before
  exact ⟨s', t', moves, after⟩

/-! ### What is populated -/

namespace View

/-- The pages of a read are cached at `a`, on a device with context `ctx`, in a LUN of `m` sectors. -/
structure Holds (v : View) (i x n m : Nat) (a : Phys) (stage : Option Nat) (ctx size : Nat) : Prop where
  pages : ∀ p, x / sceSctrPerPage % scePagePerFrag ≤ p → p ≤ (x + n - 1) / sceSctrPerPage % scePagePerFrag →
    v.page i (u32 (x / sceSctrPerFrag)) p = some (m, a, stage)
  dev : v.dev a.dev = some (ctx, size)

/-- A page past the end of the LUN is the only one that a new mapping leaves out. -/
theorem tailBad_eq_false {nrSctr nrFrag f p : Nat} (inside : f < nrFrag)
    (whole : f * sceSctrPerFrag + (p + 1) * sceSctrPerPage ≤ nrSctr) : tailBad nrSctr nrFrag f p = false := by
  by_contra bad
  simp only [tailBad, Bool.and_eq_true, decide_eq_true_eq, Bool.not_eq_false] at bad
  obtain ⟨⟨low, last⟩, past⟩ := bad
  have cut : u32 (nrFrag * sceSctrPerFrag) ≤ nrFrag * sceSctrPerFrag := Nat.mod_le _ _
  obtain rfl : nrFrag = f + 1 := by omega
  simp only [sceSctrPerFrag, sceSctrPerPage, scePagePerFrag] at low past cut whole
  omega

theorem place_page {i f p : Nat} {a : Phys} {l : Volume} {v : View} (present : v.lun i = some l)
    (active : l.waiting = false) (inside : f < l.nrFrag)
    (whole : f * sceSctrPerFrag + (p + 1) * sceSctrPerPage ≤ l.nrSctr) :
    (v.place i f a l).page i f p = some (l.nrSctr, a, some 1) := by
  refine (page_count fun n => u32 (n + 1)).trans ?_
  have tenant : ((v.seize a).enter i f ⟨a, false, 1, tailBad l.nrSctr l.nrFrag f⟩).tenant i =
      some (l.lunctx, l.nrSctr) := by
    show ((v.lun i).filter fun l => !l.waiting).map _ = _
    simp [present, active]
  unfold page
  rw [tenant, enter_cell, if_pos ⟨rfl, rfl⟩]
  simp [Option.filter, tailBad_eq_false inside whole, Cell.stage]

/-- The end of its population makes a fragment valid. -/
theorem complete_page {i f p m : Nat} {a : Phys} {v : View} (low : p < scePagePerFrag)
    (here : v.page i f p = some (m, a, some 1)) :
    (v.complete i f).1 = .success ∧ (v.complete i f).2.page i f p = some (m, a, none) := by
  obtain ⟨⟨ctx, tenant⟩, c, cell, good, rfl, stage⟩ := cell_of_page here
  cases valid : c.valid with
  | true => simp [Cell.stage, valid] at stage
  | false =>
    have one : c.service = 1 := by simpa [Cell.stage, valid] using stage
    have done : v.complete i f =
        (.success, ((v.setCell i f fun c => { c with valid := true, service := 0 }).release i).collect i f) := by
      simp [complete, cell, valid, one]
    rw [done]
    refine ⟨rfl, (page_collect low).trans (page_release.trans ?_)⟩
    have same : (v.setCell i f fun c => { c with valid := true, service := 0 }).tenant i = some (ctx, m) := tenant
    unfold page
    rw [same, setCell_cell, if_pos ⟨rfl, rfl⟩, cell]
    simp [Option.filter, good, Cell.stage]

end View

theorem Effect.holds {k ctx size : Nat} {stage : Option Nat} (effect : Effect v op reply v')
    (spared : v.SparedRead i x n op reply) (here : v.Holds i x n k a stage ctx size)
    (some : x / sceSctrPerPage % scePagePerFrag ≤ (x + n - 1) / sceSctrPerPage % scePagePerFrag) :
    v'.Holds i x n k a stage ctx size := by
  refine ⟨fun p low high => ?_, effect.dev_stays here.dev ?_⟩
  · have inside : p < scePagePerFrag := Nat.lt_of_le_of_lt high (Nat.mod_lt _ (by decide))
    exact (effect.page inside (spared p low high)).trans (here.pages p low high)
  · rintro rfl
    obtain ⟨_, c, cell, _, addr, _⟩ := View.cell_of_page (here.pages _ le_rfl some)
    exact spared _ le_rfl some ⟨c, cell, congrArg Phys.dev addr⟩

theorem Sce.holds_last {k ctx size : Nat} {stage : Option Nat} (reached : s.Reached)
    (run : Reachable Sce.exec (fun s op => s.SparesRead i x n op) s s') (here : s.view.Holds i x n k a stage ctx size)
    (some : x / sceSctrPerPage % scePagePerFrag ≤ (x + n - 1) / sceSctrPerPage % scePagePerFrag) :
    s'.Reached ∧ s'.view.Holds i x n k a stage ctx size := by
  refine run.invariant (I := fun t => t.Reached ∧ t.view.Holds i x n k a stage ctx size) ⟨reached, here⟩ ?_
  rintro t op t' ⟨reached, here⟩ ⟨typed, spared⟩ moves
  obtain ⟨reply, called⟩ := Sce.exec_eq_some.mp moves
  refine ⟨reached.next typed moves, ?_⟩
  rcases (Sce.call_inv reached.inv typed called).2 with rfl | effect
  · exact here
  · exact effect.holds (spared reply t' called) here some

theorem Sce.Reached.get4pop {past : Nat → Nat → Word} {task : Option Poptask} (reached : s.Reached)
    (pop : sceGet4pop s past = .ok (task, s')) : s'.Reached := by
  have typed : Op.InType (.get4pop past) := trivial
  exact reached.next typed (Sce.exec_eq_some.mpr ⟨.poptask task, Except.map_eq_ok.mpr ⟨_, pop, rfl⟩⟩)

theorem Sce.Reached.put4pop {task : Poptask} {failed : Bool} {r : Ret} (reached : s.Reached)
    (put : scePut4pop s task failed = .ok (r, s')) : s'.Reached := by
  have typed : Op.InType (.put4pop task failed) := trivial
  exact reached.next typed (Sce.exec_eq_some.mpr ⟨.ret r, Except.map_eq_ok.mpr ⟨_, put, rfl⟩⟩)

/-- A fragment with a usable page, in a LUN in service, is left alone by `_lun_gc`. -/
theorem lunGc_used {g : Frag} {l : Lun} (frag : s.frag? a = some g) (used : g.nrValid ≠ 0) (lun : s.luntbl i = some l)
    (active : l.waiting4deletion = false) : lunGc s i a = .ok (.success, s) := by
  simp [lunGc, frag, used, lun, active, bind, Except.bind, pure, Except.pure]

theorem Sce.put4pop_returns {p k : Nat} {task : Poptask} (h : Inv nowhere s) (found : s.view.search task.lunctx = some i)
    (low : p < scePagePerFrag) (here : s.view.page i task.lunFragnum p = some (k, a, some 1)) :
    ∃ r s', scePut4pop s task false = .ok (r, s') := by
  obtain ⟨⟨ctx, tenant⟩, c, cell, good, rfl, stage⟩ := View.cell_of_page here
  obtain ⟨volume, active, _⟩ := Option.map_eq_some_iff.mp tenant
  obtain ⟨present, active⟩ := Option.filter_eq_some_iff.mp active
  rw [Sce.view_cell] at cell
  obtain ⟨m, slot, rfl⟩ := Option.map_eq_some_iff.mp cell
  obtain ⟨l, lun, inside, mapped, addr, valid, frag⟩ := Sce.slot_eq_some.mp slot
  rw [Sce.view_lun, lun] at present
  obtain rfl := Option.some.inj present
  have serving : l.waiting4deletion = false := by simpa [Lun.volume] using active
  have pending : m.valid = false := by
    cases e : m.valid with
    | false => rfl
    | true => simp [Cell.stage, Slot.cell, e] at stage
  have one : m.frag.nrService = 1 := by simpa [Cell.stage, Slot.cell, pending] using stage
  have next : m.frag.next = 0#32 := congrArg Node.next (h.shape.node_of_slot slot)
  have used : m.frag.nrValid ≠ 0 := by
    rw [(h.pages i _ m slot).2]
    unfold clearCount
    refine Finset.card_ne_zero_of_mem (a := p) (Finset.mem_filter.mpr ⟨?_, good⟩)
    exact Finset.mem_Ico.mpr ⟨Nat.zero_le p, by omega⟩
  -- the fragment is served and its LUN stays, so nothing is put back on the free list
  have completes : ∃ s', completePopulation s i task.lunFragnum = .ok (.success, s') := by
    simp only [completePopulation, lun, if_neg (Nat.not_le.mpr inside), mapped, Sce.pfid2frag, ← addr, frag, ← valid,
      pending, next, one, releasePopulation, Bool.false_eq_true, reduceCtorEq, ne_eq, not_true_eq_false, if_false]
    refine ⟨_, lunGc_used (g := { m.frag with nrService := 0 }) ?_ used (l := { l with
      fragmap := fun f => if f = task.lunFragnum then l.fragmap task.lunFragnum ||| fragdescValid else l.fragmap f
      nrService := sub32 l.nrService 1 }) ?_ serving⟩
    · simp [frag]
    · simp [Sce.setDesc, lun]
  obtain ⟨s', completes⟩ := completes
  unfold scePut4pop
  rw [← Sce.view_search, found]
  simp only [completes, bind, Except.bind, pure, Except.pure, Bool.false_eq_true, if_false]
  exact ⟨_, _, rfl⟩

/-- A population is of use: its end succeeds, and the whole pages it copied are read from the fragment it filled,
unless one of the calls in between or since is about them, or a LUN before its own has the same context. -/
theorem Sce.populated_read_hits {past : Nat → Nat → Word} {task : Poptask} {s₁ : Sce} (reached : s.Reached)
    (pop : sceGet4pop s past = .ok (some task, s₁)) : ∃ i l, s₁.view.lun i = some l ∧ l.lunctx = task.lunctx ∧
      ∀ x n s₂, 0 < n → x / sceSctrPerFrag = task.lunFragnum →
        (x + n - 1) / sceSctrPerFrag = task.lunFragnum → ((x + n - 1) / sceSctrPerPage + 1) * sceSctrPerPage ≤ l.nrSctr →
        Reachable Sce.exec (fun s op => s.SparesRead i x n op) s₁ s₂ → s₂.view.search task.lunctx = some i →
        ∃ s₃, scePut4pop s₂ task false = .ok (.success, s₃) ∧
          ∀ s₄, Reachable Sce.exec (fun s op => s.SparesRead i x n op) s₃ s₄ →
            ∃ t, sceGet4read s₄ i x n = .ok (some ⟨task.cdevctx, task.cdevFragnum⟩, t) := by
  have typed : Op.Typed (.get4pop past) := trivial
  have called : s.call (.get4pop past) = .ok (.poptask (some task), s₁) := Except.map_eq_ok.mpr ⟨_, pop, rfl⟩
  obtain ⟨inv₁, effect⟩ := Sce.call_effect reached.inv typed called
  have reached₁ := reached.get4pop pop
  generalize view : s₁.view = v at effect
  cases effect with
  | @pop _ i f ctx size a l present active inside empty free dev =>
    have placed : (s.view.place i f a l).lun i = some { l with service := u32 (l.service + 1) } := by
      apply View.setLun_lun.trans
      show (if i = i then (s.view.lun i).map _ else _) = _
      rw [if_pos rfl, present]
      rfl
    refine ⟨i, _, placed, rfl, ?_⟩
    intro x n s₂ pos first last whole between found
    dsimp only at first last whole found
    obtain ⟨_, _, typed, size_eq⟩ := reached.inv.sound.lun i l present
    have frag : u32 (x / sceSctrPerFrag) = f := by
      rw [first]
      exact u32_of_lt (Nat.lt_trans inside (size_eq ▸ u32_lt _))
    have room : ∀ p, p ≤ (x + n - 1) / sceSctrPerPage % scePagePerFrag →
        f * sceSctrPerFrag + (p + 1) * sceSctrPerPage ≤ l.nrSctr := by
      intro p high
      simp only [sceSctrPerFrag, sceSctrPerPage, scePagePerFrag] at last whole high ⊢
      omega
    simp only [sceSctrPerFrag, sceSctrPerPage] at first last whole typed
    have some : x / sceSctrPerPage % scePagePerFrag ≤ (x + n - 1) / sceSctrPerPage % scePagePerFrag := by
      simp only [sceSctrPerPage, scePagePerFrag]
      omega
    have wide : x < 2 ^ 64 := by omega
    have narrow : n < 2 ^ 32 := by omega
    -- its pages are cached from the start, and valid from the end on
    have begun : s₁.view.Holds i x n l.nrSctr a (.some 1) ctx size := by
      rw [view]
      refine ⟨fun p low high => ?_, dev⟩
      rw [frag]
      exact View.place_page present active inside (room p high)
    obtain ⟨reached₂, held₂⟩ := Sce.holds_last reached₁ between begun some
    have within : x / sceSctrPerPage % scePagePerFrag < scePagePerFrag := Nat.mod_lt _ (by decide)
    obtain ⟨r, s₃, ended⟩ : ∃ r s₃, scePut4pop s₂ ⟨l.lunctx, ctx, f, a.off⟩ false = .ok (r, s₃) :=
      Sce.put4pop_returns reached₂.inv found within (frag ▸ held₂.pages _ le_rfl some)
    have called₂ : s₂.call (.put4pop ⟨l.lunctx, ctx, f, a.off⟩ false) = .ok (.ret r, s₃) :=
      Except.map_eq_ok.mpr ⟨_, ended, rfl⟩
    have reached₃ := reached₂.put4pop ended
    have typed₂ : Op.Typed (.put4pop ⟨l.lunctx, ctx, f, a.off⟩ false) := trivial
    have effect₂ := (Sce.call_effect reached₂.inv typed₂ called₂).2
    have completes : s₂.view.put4pop ⟨l.lunctx, ctx, f, a.off⟩ false = s₂.view.complete i f := by
      unfold View.put4pop
      rw [found]
      rfl
    have complete : ∀ p, x / sceSctrPerPage % scePagePerFrag ≤ p →
        p ≤ (x + n - 1) / sceSctrPerPage % scePagePerFrag → (s₂.view.complete i f).1 = .success ∧
          (s₂.view.complete i f).2.page i f p = .some (l.nrSctr, a, none) := by
      intro p low high
      have here := held₂.pages p low high
      rw [frag] at here
      exact View.complete_page (Nat.lt_of_le_of_lt high (Nat.mod_lt _ (by decide))) here
    generalize view₃ : s₃.view = v₃ at effect₂
    cases effect₂ with
    | putPop =>
      rw [completes] at view₃ ended
      rw [(complete _ le_rfl some).1] at ended
      refine ⟨s₃, ended, fun s₄ since => ?_⟩
      have pages : ∀ p, x / sceSctrPerPage % scePagePerFrag ≤ p → p ≤ (x + n - 1) / sceSctrPerPage % scePagePerFrag →
          s₃.view.page i (u32 (x / sceSctrPerFrag)) p = .some (l.nrSctr, a, none) := by
        intro p low high
        rw [view₃, frag]
        exact (complete p low high).2
      have bound : x + n ≤ l.nrSctr := by omega
      obtain ⟨c, served, addr⟩ := View.served_iff_page.mpr ⟨l.nrSctr, bound, pos, last.trans first.symm, pages⟩
      have dev₃ : s₃.view.dev a.dev = .some (ctx, size) := by
        rw [view₃, ← completes, View.put4pop_dev]
        exact held₂.dev
      have answers : s₃.view.Answers i x n ⟨ctx, a.off⟩ := ⟨c, size, served, addr ▸ dev₃, congrArg Phys.off addr⟩
      obtain ⟨reached₄, lasts⟩ := Sce.answers_last (m := ⟨ctx, a.off⟩) reached₃ since
      exact (sceGet4read_answers reached₄.inv wide narrow).mpr (lasts.mpr answers)

/-- A device, a LUN, and a miss on its first fragment. -/
def Sce.missedOnce : Sce := (execAll Sce.exec (fun _ op => decide op.InType) sceCreate
  [.addcdev 2048 7 true, .addlun 4096 9 true, .get4read 0 0 8]).getD sceCreate

theorem Sce.missedOnce_reached : Sce.missedOnce.Reached :=
  reachable_getD (fun _ _ typed => of_decide_eq_true typed) (by decide +kernel)

theorem Sce.populated_read_hits_missedOnce : ∃ s₁ s₃ t,
    sceGet4pop Sce.missedOnce (fun _ _ => 0#32) = .ok (some ⟨9, 7, 0, 0⟩, s₁) ∧
    scePut4pop s₁ ⟨9, 7, 0, 0⟩ false = .ok (.success, s₃) ∧ sceGet4read s₃ 0 0 8 = .ok (some ⟨7, 0⟩, t) := by
  have answer : (sceGet4pop Sce.missedOnce fun _ _ => 0#32).toOption.map (fun r =>
      (r.1, r.2.view.search 9, (r.2.luntbl 0).map Lun.nrSctr,
        (List.range sceMaxLun).all fun i => i == 0 || (r.2.luntbl i).isNone)) =
      some (some ⟨9, 7, 0, 0⟩, some 0, some 4096, true) := by decide +kernel
  obtain ⟨⟨task, s₁⟩, done, e⟩ := Option.map_eq_some_iff.mp answer
  simp only [Prod.mk.injEq] at e
  obtain ⟨rfl, found, sectors, alone⟩ := e
  have pop := Except.toOption_eq_some.mp done
  obtain ⟨i, l, lun, _, hits⟩ := Sce.populated_read_hits Sce.missedOnce_reached pop
  obtain ⟨l, here, rfl⟩ := Option.map_eq_some_iff.mp lun
  -- there is one LUN
  obtain rfl : i = 0 := by
    have reached := Sce.missedOnce_reached.get4pop pop
    have slot := List.all_eq_true.mp alone i (List.mem_range.mpr (reached.inv.sound.lun i _ lun).1)
    simpa [here] using slot
  rw [here] at sectors
  have whole : ((0 + 8 - 1) / sceSctrPerPage + 1) * sceSctrPerPage ≤ l.nrSctr := by
    rw [Option.some.inj sectors]
    decide
  obtain ⟨s₃, ended, since⟩ := hits 0 8 s₁ (by decide) rfl rfl whole .init found
  obtain ⟨t, hit⟩ := since s₃ .init
  exact ⟨s₁, s₃, t, pop, ended, hit⟩

end Iostash
