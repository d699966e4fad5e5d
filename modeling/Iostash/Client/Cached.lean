import Iostash.Client.Frame

/-!
# A hit is what was cached

`sce_get4read` answers from a descriptor word, a page bitmap and the device table. What it answers is
determined by the calls made so far: by the `sce_get4pop` that made the mapping, the `sce_put4pop` that
ended this population, and the invalidations in between.
-/

namespace Iostash

/-! ### Pages in sectors -/

/-- Invalidating a range the LUN accepts marks the pages it touches; the 32-bit numbers do not wrap. -/
theorem invPages {x n m N : Nat} (typed : x < 2 ^ 64 ∧ n < 2 ^ 32) (hn : n ≠ 0) (range : u64 (x + n) ≤ m)
    (small : m < 2 ^ 32 - 2 ^ 11) (size : N = u32 ((m + (sceSctrPerFrag - 1)) / sceSctrPerFrag))
    (bound : 0 < invCount x n → invFrag x * 256 + invOff x + invCount x n ≤ N * 256) :
    x + n ≤ m ∧ invFrag x * 256 + invOff x = x / 8 ∧ invCount x n = (x + n - 1) / 8 - x / 8 + 1 := by
  obtain ⟨hx, hn'⟩ := typed
  have frags : N ≤ 2 ^ 21 := by
    rw [size]
    simp only [sceSctrPerFrag, u32]
    omega
  rcases Nat.lt_or_ge (x + n) (2 ^ 64) with short | long
  · rw [u64_of_lt short] at range
    exact ⟨range, inv_pages (Nat.pos_of_ne_zero hn) hn' (by omega)⟩
  · exfalso
    unfold invCount invFrag invOff at bound
    simp only [sceSctrPerPage, scePagePerFrag] at bound
    have wrap : u64 (x + n) = x + n - 2 ^ 64 := by unfold u64; omega
    rw [wrap] at range bound
    have high : 2 ^ 21 < u32 (x / 8 / 256) := by unfold u32; omega
    have pos : 0 < u32 (u32 (sub64 (sub64 (x + n - 2 ^ 64) 1 / 8) (x / 8)) + 1) := by
      unfold u32 sub64 u64
      omega
    have := bound pos
    omega

theorem tailBad_iff {m N f p : Nat} (small : m < 2 ^ 32 - 2 ^ 11)
    (size : N = u32 ((m + (sceSctrPerFrag - 1)) / sceSctrPerFrag)) (inside : f < N) (page : p < 256) :
    View.tailBad m N f p = true ↔ m < (f * 256 + p + 1) * 8 := by
  unfold View.tailBad
  simp only [sceSctrPerFrag, scePagePerFrag, sceSctrPerPage, Bool.and_eq_true, decide_eq_true_eq] at *
  have frags : N = (m + 2047) / 2048 := by
    rw [size]
    exact u32_of_lt (by omega)
  have whole : u32 (N * 2048) = N * 2048 := u32_of_lt (by omega)
  rw [whole]
  omega
namespace World

variable {w w' : World} {call : Call} {i j f t : Nat} {c c' : Cell} {l : Volume} {task : Poptask}

/-! ### What the log says -/

/-- `sce_get4pop` returned `task` at time `t`. -/
def Started (w : World) (t : Nat) (task : Poptask) : Prop :=
  ∃ past, w.event t = some ⟨.get4pop past, .poptask (some task)⟩

/-- The population of time `t` was ended by a successful `sce_put4pop` with `failed = 0`. -/
def Completed (w : World) (t : Nat) : Prop := ∃ u, w.event u = some ⟨.put4pop t false, .ret .success⟩

/-- A successful `sce_invalidate` after time `t` touched the page of the LUN. -/
def Overwritten (w : World) (i t page : Nat) : Prop :=
  ∃ u x n, t < u ∧ w.event u = some ⟨.invalidate i x n, .ret .success⟩ ∧
    x / sceSctrPerPage ≤ page ∧ page ≤ (x + n - 1) / sceSctrPerPage

/-- The current mapping of fragment `f` of LUN `i` was made at time `t` by the `sce_get4pop` that
returned `task` for it. -/
def MappedBy (w : World) (i f t : Nat) (task : Poptask) : Prop :=
  w.sce.place i f ≠ none ∧ w.born i f = t ∧ w.Started t task ∧ task.lunFragnum = f ∧
    (w.sce.luntbl i).map Lun.lunctx = some task.lunctx

theorem started_next {reply : Reply} {s' : Sce} (h : w.Started t task) : (w.next call reply s').Started t task := by
  obtain ⟨past, event⟩ := h
  exact ⟨past, event_ext.mpr (Or.inl event)⟩

theorem started_unique {task' : Poptask} (h : w.Started t task) (h' : w.Started t task') : task' = task := by
  obtain ⟨past, event⟩ := h
  obtain ⟨past', event'⟩ := h'
  have same := Option.some.inj (event'.symm.trans event)
  simp only [Event.mk.injEq, Reply.poptask.injEq, Option.some.injEq] at same
  exact same.2

theorem completed_next {reply : Reply} {s' : Sce} : (w.next call reply s').Completed t ↔
    w.Completed t ∨ call = .put4pop t false ∧ reply = .ret .success := by
  unfold Completed
  simp only [event_ext, Event.mk.injEq]
  constructor
  · rintro ⟨u, old | ⟨_, rfl, rfl⟩⟩
    · exact Or.inl ⟨u, old⟩
    · exact Or.inr ⟨rfl, rfl⟩
  · rintro (⟨u, old⟩ | ⟨rfl, rfl⟩)
    · exact ⟨u, Or.inl old⟩
    · exact ⟨w.now, Or.inr ⟨rfl, rfl, rfl⟩⟩

theorem overwritten_next {reply : Reply} {s' : Sce} {page : Nat} (before : t < w.now) :
    (w.next call reply s').Overwritten i t page ↔ w.Overwritten i t page ∨
      ∃ x n, call = .invalidate i x n ∧ reply = .ret .success ∧ x / sceSctrPerPage ≤ page ∧
        page ≤ (x + n - 1) / sceSctrPerPage := by
  unfold Overwritten
  simp only [event_ext, Event.mk.injEq]
  constructor
  · rintro ⟨u, x, n, after, old | ⟨_, rfl, rfl⟩, low, high⟩
    · exact Or.inl ⟨u, x, n, after, old, low, high⟩
    · exact Or.inr ⟨x, n, rfl, rfl, low, high⟩
  · rintro (⟨u, x, n, after, old, low, high⟩ | ⟨x, n, rfl, rfl, low, high⟩)
    · exact ⟨u, x, n, after, Or.inl old, low, high⟩
    · exact ⟨w.now, x, n, before, Or.inr ⟨rfl, rfl, rfl⟩, low, high⟩

/-! ### When the mappings were made -/

/-- A mapping that stays where it is keeps its time. -/
theorem born_kept {reply : Reply} {s' : Sce} (h : Shape w.sce) (h' : Shape s') (cell : w.sce.view.cell i f = some c)
    (cell' : s'.view.cell i f = some c') (same : c'.addr = c.addr) :
    (w.next call reply s').born i f = w.born i f := by
  show (if s'.place i f ≠ none ∧ s'.place i f ≠ w.sce.place i f then w.now else w.born i f) = _
  rw [if_neg]
  rintro ⟨_, moved⟩
  rw [h.place_eq_cell, h'.place_eq_cell, cell, cell'] at moved
  exact moved (congrArg some same)

theorem born_new {reply : Reply} {s' : Sce} (h : Shape w.sce) (h' : Shape s') (cell : w.sce.view.cell i f = none)
    (cell' : s'.view.cell i f = some c') : (w.next call reply s').born i f = w.now := by
  show (if s'.place i f ≠ none ∧ s'.place i f ≠ w.sce.place i f then w.now else w.born i f) = _
  rw [if_pos]
  rw [h.place_eq_cell, h'.place_eq_cell, cell, cell']
  simp

/-! ### The invariant -/

/-- A context a LUN may be added with: not null, and of no LUN or population there is. -/
def FreshCtx (w : World) (ctx : Nat) : Prop :=
  ctx ≠ 0 ∧ (∀ i, i < sceMaxLun → (w.sce.luntbl i).elim 0 Lun.lunctx ≠ ctx) ∧ ∀ p ∈ w.pops, p.task.lunctx ≠ ctx

/-- LUNs are of fewer than 2^32 - 2^11 sectors and have contexts of their own, and no cache device is
removed while a population is outstanding. -/
def Orderly (w : World) : Call → Prop
  | .rmcdev _ => w.pops = []
  | .addlun nrSctr lunctx _ => nrSctr < 2 ^ 32 - 2 ^ 11 ∧ w.FreshCtx lunctx
  | _ => True

/-- The page is not to be read from the cache. -/
def Spoiled (w : World) (i f nrSctr p : Nat) : Prop :=
  nrSctr < (f * 256 + p + 1) * 8 ∨ w.Overwritten i (w.born i f) (f * 256 + p)

/-- What a cell is, said by the log. -/
structure CellFaithful (w : World) (i f : Nat) (c : Cell) (l : Volume) : Prop where
  started : ∃ task n, w.Started (w.born i f) task ∧ task.lunctx = l.lunctx ∧ task.lunFragnum = f ∧
    w.sce.view.dev c.addr.dev = some (task.cdevctx, n) ∧ task.cdevFragnum = c.addr.off
  valid : c.valid = true ↔ w.Completed (w.born i f)
  service : c.valid = false → c.service = 1
  pages : ∀ p, p < 256 → (c.bad p = true ↔ w.Spoiled i f l.nrSctr p)

/-- A population outstanding is pending in the mapping it made, as long as its LUN is there. -/
structure PopFaithful (w : World) (p : Pop) : Prop where
  started : w.Started p.id p.task
  open_ : ¬ w.Completed p.id
  pending : ∀ i l, w.sce.view.lun i = some l → l.lunctx = p.task.lunctx →
    ∃ c, w.sce.view.cell i p.task.lunFragnum = some c ∧ c.valid = false ∧ w.born i p.task.lunFragnum = p.id

structure Faithful (w : World) : Prop where
  base : w.Base
  size : ∀ i l, w.sce.view.lun i = some l → l.nrSctr < 2 ^ 32 - 2 ^ 11
  named : w.sce.view.Named
  cell : ∀ i f c l, w.sce.view.cell i f = some c → w.sce.view.lun i = some l → w.CellFaithful i f c l
  pop : ∀ p ∈ w.pops, w.PopFaithful p

/-- The mapping a population made is the one its task names. -/
theorem Faithful.own (h : w.Faithful) {p : Pop} (member : p ∈ w.pops) (cell : w.sce.view.cell j f = some c)
    (lun : w.sce.view.lun j = some l) (born : w.born j f = p.id) :
    p.task.lunctx = l.lunctx ∧ p.task.lunFragnum = f ∧ c.valid = false := by
  obtain ⟨task, n, started, ctx, fragnum, _⟩ := (h.cell j f c l cell lun).started
  rw [born] at started
  obtain rfl := started_unique started (h.pop p member).started
  obtain ⟨c', cell', pending, _⟩ := (h.pop p member).pending j l lun ctx.symm
  rw [fragnum] at cell'
  obtain rfl := Option.some.inj (cell.symm.trans cell')
  exact ⟨ctx, fragnum, pending⟩

/-! ### One turn keeps it -/

theorem sameLun {reply : Reply} (sound : w.sce.view.Sound) (turn : Turn w.ledger w.now call reply w'.ledger)
    (cell : w.sce.view.cell i f = some c) (lun : w'.sce.view.lun i = some l) :
    ∃ l₀, w.sce.view.lun i = some l₀ ∧ l.Same l₀ := by
  rcases turn.lun lun with old | ⟨m, ctx, vmalloc, _, _, absent, _⟩
  · exact old
  · obtain ⟨l₀, present, _⟩ := sound.inside i f c cell
    cases present.symm.trans absent

theorem sameDev {reply : Reply} {d ctx m : Nat} {q : Nat × Nat} (turn : Turn w.ledger w.now call reply w'.ledger)
    (dev : w.sce.view.dev d = some (ctx, m)) (dev' : w'.sce.view.dev d = some q) : q = (ctx, m) := by
  rcases turn.dev dev' with old | ⟨absent, _⟩
  · exact Option.some.inj (old.symm.trans dev)
  · exact nomatch dev.symm.trans absent

theorem Faithful.cell_step {reply : Reply} {l' : Volume} (h : w.Faithful) (base' : w'.Base)
    (next : w' = w.next call reply w'.sce) (turn : Turn w.ledger w.now call reply w'.ledger)
    (cell' : w'.sce.view.cell i f = some c') (lun' : w'.sce.view.lun i = some l') : w'.CellFaithful i f c' l' := by
  obtain ⟨_, ctx', n', dev', _⟩ := base'.inv.sound.there i f c' cell'
  -- the mapping stayed: what the log says of its start is still so
  have carry : ∀ {c : Cell}, w.sce.view.cell i f = some c → c'.addr = c.addr → ∃ l, w.sce.view.lun i = some l ∧
      l'.Same l ∧ w.CellFaithful i f c l ∧ w'.born i f = w.born i f ∧ w.born i f < w.now ∧
      ∃ task n, w'.Started (w'.born i f) task ∧ task.lunctx = l'.lunctx ∧ task.lunFragnum = f ∧
        w'.sce.view.dev c'.addr.dev = some (task.cdevctx, n) ∧ task.cdevFragnum = c'.addr.off := by
    intro c cell addr
    obtain ⟨l, lun, same⟩ := sameLun h.base.inv.sound turn cell lun'
    have faithful := h.cell i f c l cell lun
    obtain ⟨task, n, started, ctx, fragnum, dev, off⟩ := faithful.started
    have born : w'.born i f = w.born i f := by
      rw [next]
      exact born_kept h.base.inv.shape base'.inv.shape cell cell' addr
    obtain ⟨past, event⟩ := started
    rw [addr] at dev'
    obtain ⟨rfl, rfl⟩ := Prod.mk.inj (sameDev turn dev dev')
    refine ⟨l, lun, same, faithful, born, event_lt event, task, n', ?_, ctx.trans same.1.symm, fragnum, ?_, ?_⟩
    · rw [born, next]
      exact started_next ⟨past, event⟩
    · rw [addr]
      exact dev'
    · rw [addr]
      exact off
  cases turn.cell cell' with
  | @kept c cell addr valid bad service dry other =>
    obtain ⟨l, lun, same, faithful, born, earlier, started⟩ := carry cell addr
    refine ⟨started, ?_, ?_, ?_⟩
    · rw [valid, faithful.valid, born, next, completed_next]
      refine ⟨Or.inl, ?_⟩
      rintro (old | ⟨called, ok⟩)
      · exact old
      · -- the population put was pending in this very mapping, which is therefore not kept
        obtain ⟨p, k, member, id, found, rest⟩ := other _ called ok
        obtain ⟨ctx, fragnum, pending⟩ := h.own member cell lun id.symm
        obtain rfl := h.named.search found lun ctx.symm
        rcases rest with valid | ne
        · rw [pending] at valid
          cases valid
        · exact absurd ⟨rfl, fragnum.symm⟩ ne
    · intro pending
      rw [valid] at pending
      rw [service pending, faithful.service pending]
    · intro p page
      rw [bad, faithful.pages p page, Spoiled, Spoiled, born, same.2.1, next, overwritten_next earlier]
      refine or_congr_right ⟨Or.inl, ?_⟩
      rintro (old | ⟨x, n, called, ok, _⟩)
      · exact old
      · exact absurd ok (dry x n called)
  | @marked x n c l₀ called ok typed writable present bound cell now =>
    obtain ⟨l, lun, same, faithful, born, earlier, started⟩ := carry cell (by rw [now]; rfl)
    obtain rfl := Option.some.inj (present.symm.trans lun)
    refine ⟨started, ?_, ?_, ?_⟩
    · rw [now, born, next, completed_next]
      refine faithful.valid.trans ⟨Or.inl, ?_⟩
      rintro (old | ⟨called', _⟩)
      · exact old
      · rw [called] at called'
        cases called'
    · rw [now]
      exact faithful.service
    · intro p page
      obtain ⟨l₁, lun₁, _, hn, range⟩ := writable
      obtain rfl := Option.some.inj (present.symm.trans lun₁)
      obtain ⟨_, start, count⟩ := invPages typed hn range (h.size i _ present)
          (h.base.inv.sound.lun i _ present).2.2.2 bound
      have marks : c'.bad p = true ↔ c.bad p = true ∨ x / 8 ≤ f * 256 + p ∧ f * 256 + p ≤ (x + n - 1) / 8 := by
        rw [now, start, count]
        simp only [Cell.mark, scePagePerFrag, Bool.or_eq_true, Bool.and_eq_true, decide_eq_true_eq]
        refine or_congr_right ?_
        omega
      rw [marks, faithful.pages p page, Spoiled, Spoiled, born, same.2.1, next, overwritten_next earlier, or_assoc]
      refine or_congr_right (or_congr_right ⟨fun in_range => ⟨x, n, called, ok, in_range⟩, ?_⟩)
      rintro ⟨x', n', called', _, in_range⟩
      rw [called] at called'
      cases called'
      exact in_range
  | @completed p c l₀ called ok member present ctx fragnum cell pending now =>
    obtain ⟨l, lun, same, faithful, born, earlier, started⟩ := carry cell (by rw [now])
    obtain ⟨_, cell₁, _, own⟩ := (h.pop p member).pending i l₀ present ctx
    rw [fragnum] at own
    refine ⟨started, ?_, ?_, ?_⟩
    · rw [now, born, next, completed_next, own]
      exact iff_of_true rfl (Or.inr ⟨called, ok⟩)
    · rw [now]
      intro invalid
      cases invalid
    · intro q page
      rw [now, Spoiled, born, same.2.1, next, overwritten_next earlier]
      refine (faithful.pages q page).trans (or_congr_right ⟨Or.inl, ?_⟩)
      rintro (old | ⟨x, n, called', _⟩)
      · exact old
      · rw [called] at called'
        cases called'
  | @mapped past ctx size a l called replied present inside empty dev now =>
    have born : w'.born i f = w.now := by
      rw [next]
      exact born_new h.base.inv.shape base'.inv.shape empty cell'
    have same : l'.Same l := by
      rcases turn.lun lun' with ⟨l₀, lun₀, same⟩ | ⟨_, _, _, _, _, absent, _⟩
      · obtain rfl := Option.some.inj (present.symm.trans lun₀)
        exact same
      · cases present.symm.trans absent
    -- nothing has been said of the time of this call yet
    have fresh : ∀ {e : Event}, w'.event w.now = some e → e = ⟨call, reply⟩ := by
      intro e event
      rw [next] at event
      rcases event_ext.mp event with old | ⟨_, e⟩
      · exact absurd (event_lt old) (Nat.lt_irrefl _)
      · exact e
    refine ⟨⟨⟨l.lunctx, ctx, f, a.off⟩, n', ?_, same.1.symm, rfl, ?_, ?_⟩, ?_, ?_, ?_⟩
    · refine ⟨past, ?_⟩
      rw [born, next]
      exact event_ext.mpr (Or.inr ⟨rfl, by rw [called, replied]⟩)
    · rw [now] at dev' ⊢
      obtain ⟨rfl, rfl⟩ := Prod.mk.inj (sameDev turn dev dev')
      exact dev'
    · rw [now]
    · rw [now, born, next, completed_next]
      refine iff_of_false (by simp) ?_
      rintro (⟨u, event⟩ | ⟨called', _⟩)
      · exact absurd (h.base.putLog _ _ _ _ event) (by have := event_lt event; omega)
      · rw [called] at called'
        cases called'
    · rw [now]
      exact fun _ => rfl
    · intro p page
      rw [now, Spoiled, same.2.1]
      refine (tailBad_iff (h.size i l present) (h.base.inv.sound.lun i l present).2.2.2 inside page).trans
        ⟨Or.inl, fun bad => bad.resolve_right ?_⟩
      rintro ⟨u, x, n, later, event, _⟩
      rw [born] at later
      rw [next] at event
      rcases event_ext.mp event with old | ⟨e, _⟩
      · exact absurd (event_lt old) (by omega)
      · omega

theorem Faithful.pop_step {reply : Reply} {p : Pop} (h : w.Faithful) (ok : w.Orderly call) (base' : w'.Base)
    (next : w' = w.next call reply w'.sce) (turn : Turn w.ledger w.now call reply w'.ledger)
    (named' : w'.sce.view.Named) (member : p ∈ w'.pops) : w'.PopFaithful p := by
  rcases turn.pop_from h.base.popNodup member with
    ⟨old, other⟩ | ⟨past, k, l₀, a, called, replied, id, present, ctx₀, empty, new⟩
  · have before := h.pop p old
    refine ⟨next ▸ started_next before.started, ?_, ?_⟩
    · rw [next, completed_next]
      rintro (done | ⟨called, _⟩)
      · exact before.open_ done
      · exact other _ called
    · intro i l' lun' ctx
      -- a LUN added now has another context
      obtain ⟨l, lun, same⟩ : ∃ l, w.sce.view.lun i = some l ∧ l'.Same l := by
        rcases turn.lun lun' with old | ⟨m, c, vmalloc, rfl, _, _, rfl⟩
        · exact old
        · exact absurd ctx.symm (ok.2.2.2 p old)
      obtain ⟨c, cell, pending, born⟩ := before.pending i l lun (same.1.symm.trans ctx)
      have one := (h.cell i _ c l cell lun).service pending
      obtain ⟨c', cell', addr, pending', _⟩ := turn.pending_stays h.base.inv.sound cell pending (by omega)
        (fun gone => nomatch lun'.symm.trans gone) (by
          rintro rfl
          have none : w.ledger.pops = [] := ok
          rw [none] at old
          cases old) (by
          intro q member failed called
          by_contra both
          rw [not_or, not_ne_iff, not_ne_iff] at both
          obtain ⟨found, fragnum⟩ := both
          have ctx' : l.lunctx = q.task.lunctx := by
            have here := (View.search_eq_some found).2
            rwa [show w.ledger.view.lun i = some l from lun] at here
          obtain ⟨_, _, _, born'⟩ := (h.pop q member).pending i l lun ctx'
          rw [fragnum, born] at born'
          exact other failed (born' ▸ called))
      refine ⟨c', cell', pending', ?_⟩
      rw [next, ← born]
      exact born_kept h.base.inv.shape base'.inv.shape cell cell' addr
  · have started : w'.Started p.id p.task := by
      refine ⟨past, ?_⟩
      rw [next, id]
      exact event_ext.mpr (Or.inr ⟨rfl, by rw [called, replied]⟩)
    refine ⟨started, ?_, ?_⟩
    · rw [next, completed_next, id]
      rintro (⟨u, event⟩ | ⟨called', _⟩)
      · exact absurd (h.base.putLog _ _ _ _ event) (by have := event_lt event; omega)
      · rw [called] at called'
        cases called'
    · intro i l' lun' ctx
      obtain ⟨l, lun, same⟩ : ∃ l, w'.sce.view.lun k = some l ∧ l.lunctx = l₀.lunctx := by
        obtain ⟨l, lun, _⟩ := base'.inv.sound.inside k _ _ new
        obtain ⟨l₁, lun₁, same⟩ : ∃ l₁, w.sce.view.lun k = some l₁ ∧ l.Same l₁ := by
          rcases turn.lun lun with old | ⟨_, _, _, _, _, absent, _⟩
          · exact old
          · cases present.symm.trans absent
        obtain rfl := Option.some.inj (present.symm.trans lun₁)
        exact ⟨l, lun, same.1⟩
      obtain rfl := named'.inj i k l' l lun' lun (ctx.trans (ctx₀.trans same.symm))
      refine ⟨_, new, rfl, ?_⟩
      rw [next, id]
      exact born_new h.base.inv.shape base'.inv.shape empty new

theorem Faithful.step (h : w.Faithful) (ok : w.Orderly call) (moves : w.exec call = some w') : w'.Faithful := by
  obtain ⟨base', reply, next, turn⟩ := exec_turn h.base moves
  have named' : w'.sce.view.Named := by
    refine turn.named h.named ?_
    rintro m ctx vmalloc rfl
    refine ⟨ok.2.1, fun i l lun => ?_⟩
    have differs := ok.2.2.1 i (h.base.inv.sound.lun i l lun).1
    obtain ⟨l, here, rfl⟩ := Option.map_eq_some_iff.mp (Sce.view_lun ▸ lun)
    rw [here] at differs
    exact differs
  refine ⟨base', ?_, named', ?_, ?_⟩
  · intro i l lun
    rcases turn.lun lun with ⟨l₀, old, back⟩ | ⟨_, _, _, rfl, _, _, rfl⟩
    · rw [back.2.1]
      exact h.size i l₀ old
    · exact ok.1
  · intro i f c l cell lun
    exact h.cell_step base' next turn cell lun
  · intro p member
    exact h.pop_step ok base' next turn named' member

theorem faithful_init : init.Faithful := by
  refine ⟨.init, ?_, ⟨?_, ?_⟩, ?_, ?_⟩
  · intro i l lun
    cases lun
  · intro i l lun
    cases lun
  · intro i j l m lun
    cases lun
  · intro i f c l cell
    cases cell
  · intro p member
    cases member

theorem faithful_of_reachable (h : Util.Reachable exec Orderly init w) : w.Faithful :=
  h.invariant faithful_init fun _ _ _ faithful ok moves => faithful.step ok moves

/-! ### The answer of `sce_get4read` -/

/-- The range is served by a cell exactly when the log says so of its mapping. -/
theorem Faithful.served_iff (h : w.Faithful) {x n : Nat} (lun : w.sce.view.lun i = some l) (active : l.waiting = false)
    (pos : 0 < n) (inside : x + n ≤ l.nrSctr) (one : (x + n - 1) / sceSctrPerFrag = x / sceSctrPerFrag) :
    w.sce.view.served i x n c ↔ w.sce.view.cell i (x / sceSctrPerFrag) = some c ∧
      w.Completed (w.born i (x / sceSctrPerFrag)) ∧
      ∀ p, x / sceSctrPerPage ≤ p → p ≤ (x + n - 1) / sceSctrPerPage →
        (p + 1) * sceSctrPerPage ≤ l.nrSctr ∧ ¬ w.Overwritten i (w.born i (x / sceSctrPerFrag)) p := by
  have size := h.size i l lun
  have frag : u32 (x / sceSctrPerFrag) = x / sceSctrPerFrag := u32_of_lt (by simp only [sceSctrPerFrag]; omega)
  simp only [View.served, frag]
  simp only [sceSctrPerFrag, sceSctrPerPage, scePagePerFrag] at *
  constructor
  · rintro ⟨l', lun', _, _, _, _, cell, valid, clean⟩
    obtain rfl := Option.some.inj (lun.symm.trans lun')
    have faithful := h.cell i _ c l cell lun
    refine ⟨cell, faithful.valid.mp valid, fun p low high => ?_⟩
    have good := clean (p % 256) (by omega) (by omega)
    have spoiled := (faithful.pages (p % 256) (Nat.mod_lt _ (by decide))).not.mp (by rw [good]; simp)
    rw [Spoiled, show x / 2048 * 256 + p % 256 = p by omega, not_or] at spoiled
    exact ⟨by omega, spoiled.2⟩
  · rintro ⟨cell, completed, clean⟩
    have faithful := h.cell i _ c l cell lun
    refine ⟨l, lun, active, pos, inside, one, cell, faithful.valid.mpr completed, fun p low high => ?_⟩
    rw [← Bool.not_eq_true, faithful.pages p (by omega), Spoiled, not_or]
    obtain ⟨fits, quiet⟩ := clean (x / 2048 * 256 + p) (by omega) (by omega)
    exact ⟨by omega, quiet⟩

/-- A lookup succeeds exactly when the population that made the current mapping has been completed, the
pages lie inside the LUN and none has been invalidated since; the reply is what the population was given. -/
theorem sceGet4read_iff (h : Util.Reachable exec Orderly init w) {i x n : Nat} {l : Lun}
    (lun : w.sce.luntbl i = some l) (active : l.waiting4deletion = false) (pos : 0 < n) (inside : x + n ≤ l.nrSctr)
    (one : (x + n - 1) / sceSctrPerFrag = x / sceSctrPerFrag) (m : Fmap) :
    (∃ s', sceGet4read w.sce i x n = .ok (some m, s')) ↔
      ∃ t task, w.MappedBy i (x / sceSctrPerFrag) t task ∧ w.Completed t ∧
        (∀ p, x / sceSctrPerPage ≤ p → p ≤ (x + n - 1) / sceSctrPerPage →
          (p + 1) * sceSctrPerPage ≤ l.nrSctr ∧ ¬ w.Overwritten i t p) ∧
        m = ⟨task.cdevctx, task.cdevFragnum⟩ := by
  have faithful := faithful_of_reachable h
  have volume : w.sce.view.lun i = some l.volume := by rw [Sce.view_lun, lun]; rfl
  have size := faithful.size i _ volume
  have hx : x < 2 ^ 64 := by simp only [Lun.volume] at size; omega
  have hn : n < 2 ^ 32 := by simp only [Lun.volume] at size; omega
  have serves : ∀ c, w.sce.view.served i x n c ↔ _ := fun c =>
    faithful.served_iff (c := c) volume active pos inside one
  rcases sceGet4read_spec faithful.base.inv i hx hn with
    ⟨c, ctx, n', s', served, dev, run, _⟩ | ⟨miss, rest⟩
  · obtain ⟨cell, completed, clean⟩ := (serves c).mp served
    obtain ⟨task, n₀, started, ctx', fragnum, dev', off⟩ := (faithful.cell i _ c _ cell volume).started
    obtain ⟨rfl, rfl⟩ := Prod.mk.inj (Option.some.inj (dev.symm.trans dev'))
    constructor
    · rintro ⟨_, run'⟩
      obtain ⟨same, _⟩ := Prod.mk.inj (Except.ok.inj (run.symm.trans run'))
      refine ⟨_, task, ⟨?_, rfl, started, fragnum, ?_⟩, completed, clean, ?_⟩
      · rw [faithful.base.inv.shape.place_eq_cell, cell]
        simp
      · rw [lun, ctx']
        rfl
      · rw [off]
        exact (Option.some.inj same).symm
    · rintro ⟨t, task', ⟨_, rfl, started', _⟩, _, _, rfl⟩
      obtain rfl := started_unique started started'
      exact ⟨s', by rw [run, off]⟩
  · have never : ¬ ∃ s', sceGet4read w.sce i x n = .ok (some m, s') := by
      rintro ⟨s', run⟩
      rcases rest with ⟨stop, _⟩ | ⟨s₁, none, _⟩
      · cases stop.symm.trans run
      · cases none.symm.trans run
    refine iff_of_false never ?_
    rintro ⟨t, task, ⟨mapped, rfl, _⟩, completed, clean, _⟩
    rw [faithful.base.inv.shape.place_eq_cell] at mapped
    cases cell : w.sce.view.cell i (x / sceSctrPerFrag) with
    | none =>
      rw [cell] at mapped
      exact mapped rfl
    | some c => exact miss c ((serves c).mpr ⟨cell, completed, clean⟩)

instance (w : World) (call : Call) : Decidable (w.Orderly call) :=
  match call with
  | .rmcdev _ => inferInstanceAs (Decidable (w.pops = []))
  | .addlun nrSctr lunctx _ => inferInstanceAs (Decidable (nrSctr < 2 ^ 32 - 2 ^ 11 ∧ lunctx ≠ 0 ∧
      (∀ i, i < sceMaxLun → (w.sce.luntbl i).elim 0 Lun.lunctx ≠ lunctx) ∧ ∀ p ∈ w.pops, p.task.lunctx ≠ lunctx))
  | .addcdev _ _ _ | .rmlun _ | .get4read _ _ _ | .put4read _ | .invalidate _ _ _ | .get4pop _ | .put4pop _ _ =>
    .isTrue trivial

/-- One device and one LUN of one fragment each, and the fragment cached. -/
def oneCached : World :=
  (Util.execAll exec (fun w call => decide (w.Orderly call)) init
    [.addcdev 2048 7 true, .addlun 2048 9 true, .get4read 0 0 8, .get4pop fun _ _ => 0#32, .put4pop 3 false]).getD init

theorem oneCached_reachable : Util.Reachable exec Orderly init oneCached :=
  Util.reachable_getD (fun _ _ ok => of_decide_eq_true ok) (by decide +kernel)

theorem sceGet4read_oneCached : ∃ t task, oneCached.MappedBy 0 0 t task ∧ oneCached.Completed t ∧
    (∀ p, 0 ≤ p → p ≤ 0 → (p + 1) * 8 ≤ 2048 ∧ ¬ oneCached.Overwritten 0 t p) ∧
    (⟨7, 0⟩ : Fmap) = ⟨task.cdevctx, task.cdevFragnum⟩ := by
  have there : (oneCached.sce.luntbl 0).map (fun l => (l.waiting4deletion, l.nrSctr)) = some (false, 2048) := by
    decide +kernel
  obtain ⟨l, lun, facts⟩ := Option.map_eq_some_iff.mp there
  obtain ⟨active, size⟩ := Prod.mk.inj facts
  have answer : (sceGet4read oneCached.sce 0 0 8).toOption.map Prod.fst = some (some ⟨7, 0⟩) := by decide +kernel
  have hit : ∃ s', sceGet4read oneCached.sce 0 0 8 = .ok (some ⟨7, 0⟩, s') := by
    cases run : sceGet4read oneCached.sce 0 0 8 with
    | error e => rw [run] at answer; cases answer
    | ok r =>
      obtain ⟨m, s'⟩ := r
      rw [run] at answer
      obtain rfl : m = some ⟨7, 0⟩ := Option.some.inj answer
      exact ⟨s', rfl⟩
  have result := (sceGet4read_iff oneCached_reachable lun active (by decide) (by rw [size]; decide)
      (by decide) ⟨7, 0⟩).mp hit
  rw [size] at result
  exact result

end World

end Iostash
