import Iostash.Client.Turn
import Iostash.Sce.Frame

/-!
# What a turn leaves alone

Where a cell, a LUN or a device of the abstract cache after a turn comes from, and which cells stay.
-/

namespace Iostash

/-! ### Where things come from -/

/-- What the cell `c'` of a LUN fragment was before a turn. -/
inductive CellFrom (b : Ledger) (call : Call) (reply : Reply) (j k : Nat) (c' : Cell) : Prop
  | kept {c : Cell} (cell : b.view.cell j k = some c) (addr : c'.addr = c.addr) (valid : c'.valid = c.valid)
      (bad : c'.bad = c.bad) (service : c.valid = false → c'.service = c.service)
      (dry : ∀ x n, call = .invalidate j x n → reply ≠ .ret .success)
      (other : ∀ id, call = .put4pop id false → reply = .ret .success → ∃ p i, p ∈ b.pops ∧ p.id = id ∧
        b.view.search p.task.lunctx = some i ∧ (c.valid = true ∨ ¬ (j = i ∧ k = p.task.lunFragnum)))
  | marked {x n : Nat} {c : Cell} {l : Volume} (called : call = .invalidate j x n) (ok : reply = .ret .success)
      (typed : x < 2 ^ 64 ∧ n < 2 ^ 32) (writable : b.view.writable j x n) (present : b.view.lun j = some l)
      (bound : 0 < invCount x n → invFrag x * 256 + invOff x + invCount x n ≤ l.nrFrag * 256)
      (cell : b.view.cell j k = some c) (now : c' = c.mark k (invFrag x * 256 + invOff x) (invCount x n))
  | completed {p : Pop} {c : Cell} {l : Volume} (called : call = .put4pop p.id false) (ok : reply = .ret .success)
      (member : p ∈ b.pops) (present : b.view.lun j = some l) (ctx : l.lunctx = p.task.lunctx)
      (fragnum : p.task.lunFragnum = k) (cell : b.view.cell j k = some c) (pending : c.valid = false)
      (now : c' = { c with valid := true, service := 0 })
  | mapped {past : Nat → Nat → Word} {ctx size : Nat} {a : Phys} {l : Volume} (called : call = .get4pop past)
      (replied : reply = .poptask (some ⟨l.lunctx, ctx, k, a.off⟩)) (present : b.view.lun j = some l)
      (inside : k < l.nrFrag) (empty : b.view.cell j k = none) (dev : b.view.dev a.dev = some (ctx, size))
      (now : c' = ⟨a, false, 1, View.tailBad l.nrSctr l.nrFrag k⟩)

variable {b b' : Ledger} {now j k d : Nat} {call : Call} {reply : Reply} {c c' : Cell} {l' : Volume}

theorem View.unpin_cell_some {v : View} {i f : Nat} (cell : (v.unpin i f).cell j k = some c') :
    ∃ c, v.cell j k = some c ∧ c' = if j = i ∧ k = f then { c with service := c.service - 1 } else c := by
  unfold View.unpin at cell
  simp only at cell
  have cell : ((v.setCell i f fun c => { c with service := c.service - 1 }).setLun i
      fun l => { l with service := l.service - 1 }).cell j k = some c' := by
    split at cell
    · exact View.collect_cell_some cell
    · exact cell
  exact View.setCell_cell_some cell

theorem Turn.cell (turn : Turn b now call reply b') (cell : b'.view.cell j k = some c') :
    CellFrom b call reply j k c' := by
  cases turn with
  | noop failed get =>
    refine .kept cell rfl rfl rfl (fun _ => rfl) ?_ ?_
    · rintro x n rfl rfl
      cases failed
    · rintro id rfl _
      cases get
  | addcdev | addlun | rmlunWait | putReadFail | putPopFail =>
    exact .kept cell rfl rfl rfl (fun _ => rfl) (by simp) (by simp)
  | rmcdev => exact .kept (Option.filter_eq_some_iff.mp cell).1 rfl rfl rfl (fun _ => rfl) (by simp) (by simp)
  | rmlun => exact .kept (View.purge_cell_some cell) rfl rfl rfl (fun _ => rfl) (by simp) (by simp)
  | readHit served =>
    obtain ⟨_, _, _, _, _, _, pinned, valid, _⟩ := served
    obtain ⟨c, here, rfl⟩ := View.setCell_cell_some cell
    split
    · rename_i e
      obtain ⟨rfl, rfl⟩ := e
      obtain rfl := Option.some.inj (pinned.symm.trans here)
      exact .kept here rfl rfl rfl (fun pending => nomatch valid.symm.trans pending) (by simp) (by simp)
    · exact .kept here rfl rfl rfl (fun _ => rfl) (by simp) (by simp)
  | putRead _ busy =>
    obtain ⟨_, _, _, _, _, pinned, valid, _⟩ := busy
    obtain ⟨c, here, rfl⟩ := View.unpin_cell_some cell
    split
    · rename_i e
      obtain ⟨rfl, rfl⟩ := e
      obtain rfl := Option.some.inj (pinned.symm.trans here)
      exact .kept here rfl rfl rfl (fun pending => nomatch valid.symm.trans pending) (by simp) (by simp)
    · exact .kept here rfl rfl rfl (fun _ => rfl) (by simp) (by simp)
  | @invalidate i x n l typed writable present bound =>
    rcases View.invalidate_cell_some cell with ⟨c, here, ⟨rfl, _, marked⟩ | ⟨ne, rfl⟩⟩
    · exact .marked rfl rfl typed writable present bound here marked
    · refine .kept here rfl rfl rfl (fun _ => rfl) ?_ (by simp)
      rintro x' n' called
      cases called
      exact absurd rfl ne
  | @pop past i f ctx size a l present active inside empty free dev =>
    rcases View.place_cell_some cell with ⟨rfl, rfl, new⟩ | ⟨_, here, _⟩
    · exact .mapped rfl rfl present inside empty dev new
    · exact .kept here rfl rfl rfl (fun _ => rfl) (by simp) (by simp)
  | @complete p before after i l c split found present ctx here pending one =>
    have member : p ∈ b.pops := by rw [split]; simp
    have before := View.collect_cell_some cell
    rw [View.release_cell] at before
    obtain ⟨c₀, here₀, rfl⟩ := View.setCell_cell_some before
    split
    · rename_i e
      obtain ⟨rfl, rfl⟩ := e
      obtain rfl := Option.some.inj (here.symm.trans here₀)
      exact .completed rfl rfl member present ctx rfl here pending rfl
    · rename_i ne
      refine .kept here₀ rfl rfl rfl (fun _ => rfl) (by simp) ?_
      rintro id called _
      cases called
      exact ⟨p, i, member, rfl, found, Or.inr ne⟩
  | @stale p before after i l c split found present ctx here valid =>
    have before := View.collect_cell_some cell
    refine .kept before rfl rfl rfl (fun _ => rfl) (by simp) ?_
    rintro id called _
    cases called
    refine ⟨p, i, by rw [split]; simp, rfl, found, ?_⟩
    by_cases e : j = i ∧ k = p.task.lunFragnum
    · obtain ⟨rfl, rfl⟩ := e
      obtain rfl := Option.some.inj (here.symm.trans before)
      exact Or.inl valid
    · exact Or.inr e
  | cancel =>
    have before := View.settle_cell_some cell
    rw [View.release_cell] at before
    exact .kept (View.drop_cell_some before) rfl rfl rfl (fun _ => rfl) (by simp) (by simp)

theorem Turn.lun (turn : Turn b now call reply b') (lun : b'.view.lun j = some l') :
    (∃ l, b.view.lun j = some l ∧ l'.Same l) ∨ ∃ m ctx vmalloc, call = .addlun m ctx vmalloc ∧
      reply = .hndl (some j) ∧ b.view.lun j = none ∧ l' = ⟨ctx, m, lunFrags m, 0, false⟩ := by
  have same : b.view.lun j = some l' → ∃ l, b.view.lun j = some l ∧ l'.Same l := fun here => ⟨l', here, .refl l'⟩
  have counted : ∀ {i : Nat} {φ : Volume → Volume}, (b.view.setLun i φ).lun j = some l' → (∀ l, (φ l).Same l) →
      ∃ l, b.view.lun j = some l ∧ l'.Same l := by
    intro i φ here keeps
    obtain ⟨l, there, rfl⟩ := View.setLun_lun_some here
    refine ⟨l, there, ?_⟩
    split
    · exact keeps l
    · exact .refl l
  cases turn with
  | noop | addcdev | rmcdev | putReadFail | invalidate | putPopFail => exact Or.inl (same lun)
  | rmlun => exact Or.inl (same (View.purge_lun_some lun))
  | rmlunWait => exact Or.inl (counted lun fun _ => ⟨rfl, rfl, rfl⟩)
  | @readHit i x n ctx size c =>
    have here : ((b.view.setCell i _ _).setLun i _).lun j = some l' := lun
    exact Or.inl (counted here fun _ => ⟨rfl, rfl, rfl⟩)
  | @pop past i f ctx size a l =>
    have here : (((b.view.seize a).enter i f _).setLun i _).lun j = some l' := lun
    exact Or.inl (counted here fun _ => ⟨rfl, rfl, rfl⟩)
  | @addlun m ctx i vmalloc slot absent =>
    have here : (if j = i then some (⟨ctx, m, lunFrags m, 0, false⟩ : Volume) else b.view.lun j) = some l' := lun
    split at here
    · rename_i e
      exact Or.inr ⟨m, ctx, vmalloc, rfl, by rw [e], e ▸ absent, (Option.some.inj here).symm⟩
    · exact Or.inl (same here)
  | @putRead r =>
    have here : (b.view.unpin r.lunidx r.fragnum).lun j = some l' := lun
    unfold View.unpin at here
    simp only at here
    split at here
    · have there := View.collect_lun_some here
      exact Or.inl (counted there fun _ => ⟨rfl, rfl, rfl⟩)
    · exact Or.inl (counted here fun _ => ⟨rfl, rfl, rfl⟩)
  | complete | stale =>
    have here := View.collect_lun_some lun
    exact Or.inl (counted here fun _ => ⟨rfl, rfl, rfl⟩)
  | cancel =>
    have here := View.settle_lun_some lun
    exact Or.inl (counted here fun _ => ⟨rfl, rfl, rfl⟩)

theorem Turn.dev {p : Nat × Nat} (turn : Turn b now call reply b') (dev : b'.view.dev d = some p) :
    b.view.dev d = some p ∨ b.view.dev d = none ∧ ∃ m ctx vmalloc, call = .addcdev m ctx vmalloc ∧
      p = (ctx, u32 (m / sceSctrPerFrag)) := by
  cases turn with
  | noop | addlun | rmlunWait | rmlun | readHit | putReadFail | invalidate | pop | putPopFail => exact Or.inl dev
  | @addcdev m ctx e n vmalloc size pos slot absent =>
    have dev : (if d = e then some (ctx, n) else b.view.dev d) = some p := dev
    split at dev
    · rename_i here
      exact Or.inr ⟨here ▸ absent, m, ctx, vmalloc, rfl, size ▸ (Option.some.inj dev).symm⟩
    · exact Or.inl dev
  | @rmcdev e =>
    have dev : (if d = e then none else b.view.dev d) = some p := dev
    split at dev
    · cases dev
    · exact Or.inl dev
  | putRead => exact Or.inl (by simpa using dev)
  | complete | stale => exact Or.inl (by simpa using dev)
  | cancel => exact Or.inl (by simpa using dev)

theorem Turn.dev_stays {p : Nat × Nat} (turn : Turn b now call reply b') (dev : b.view.dev d = some p)
    (kept : call ≠ .rmcdev d) : b'.view.dev d = some p := by
  cases turn with
  | noop | addlun | rmlunWait | rmlun | readHit | putReadFail | invalidate | pop | putPopFail => exact dev
  | @addcdev m ctx e n vmalloc size pos slot absent =>
    show (if d = e then some (ctx, n) else b.view.dev d) = some p
    split
    · rename_i here
      rw [here, absent] at dev
      cases dev
    · exact dev
  | @rmcdev e =>
    show (if d = e then none else b.view.dev d) = some p
    rw [if_neg fun here => kept (by rw [here])]
    exact dev
  | putRead => simpa using dev
  | complete | stale => simpa using dev
  | cancel => simpa using dev

/-! ### Contexts -/

/-- The contexts of the LUNs are not null and differ. -/
structure View.Named (v : View) : Prop where
  ctx : ∀ i l, v.lun i = some l → l.lunctx ≠ 0
  inj : ∀ i j l m, v.lun i = some l → v.lun j = some m → l.lunctx = m.lunctx → i = j

theorem Turn.named (turn : Turn b now call reply b') (named : b.view.Named)
    (fresh : ∀ m ctx vmalloc, call = .addlun m ctx vmalloc → ctx ≠ 0 ∧ ∀ i l, b.view.lun i = some l → l.lunctx ≠ ctx) :
    b'.view.Named := by
  constructor
  · intro i l lun
    rcases turn.lun lun with ⟨l₀, old, back⟩ | ⟨m, ctx, vmalloc, called, _, _, rfl⟩
    · rw [back.1]
      exact named.ctx i l₀ old
    · exact (fresh m ctx vmalloc called).1
  · intro i j l m lun lun' same
    rcases turn.lun lun with ⟨l₀, old, back⟩ | ⟨_, c, _, called, replied, _, rfl⟩ <;>
      rcases turn.lun lun' with ⟨m₀, old', back'⟩ | ⟨_, c', _, called', replied', _, rfl⟩
    · exact named.inj i j l₀ m₀ old old' (back.1.symm.trans (same.trans back'.1))
    · exact absurd (back.1.symm.trans same) ((fresh _ _ _ called').2 i l₀ old)
    · exact absurd (back'.1.symm.trans same.symm) ((fresh _ _ _ called).2 j m₀ old')
    · rw [replied] at replied'
      simpa using replied'

/-- The search by context finds the LUN. -/
theorem View.Named.search {v : View} {ctx i : Nat} {l : Volume} (named : v.Named) (found : v.search ctx = some i)
    (lun : v.lun j = some l) (same : l.lunctx = ctx) : i = j := by
  obtain ⟨_, here⟩ := View.search_eq_some found
  cases there : v.lun i with
  | none =>
    rw [there] at here
    exact absurd (same.trans here.symm) (named.ctx j l lun)
  | some m =>
    rw [there] at here
    exact named.inj i j m l there lun (here.trans same.symm)

theorem View.Named.search_of_lun {v : View} {l : Volume} (named : v.Named) (sound : v.Sound) (lun : v.lun j = some l) :
    v.search l.lunctx = some j := by
  cases found : v.search l.lunctx with
  | none =>
    unfold View.search at found
    rw [List.find?_eq_none] at found
    exact absurd (by simp [lun]) (found j (List.mem_range.mpr (sound.lun j l lun).1))
  | some i => rw [named.search found lun rfl]

/-! ### What stays -/

theorem Cell.goes_pending {start count : Nat} (pending : c.valid = false) : c.goes k start count = false := by
  simp [Cell.goes, pending]

theorem View.available_ne {v : View} {a : Phys} (sound : v.Sound) (free : v.available a)
    (cell : v.cell j k = some c) (busy : c.service ≠ 0) : c.addr ≠ a := by
  rintro rfl
  rcases free with free | ⟨_, j', k', c', cell', idle, same⟩
  · exact sound.apart j k c cell free
  · obtain ⟨rfl, rfl⟩ := sound.inj j k c j' k' c' cell cell' same
    obtain rfl := Option.some.inj (cell.symm.trans cell')
    exact busy idle

theorem View.setCell_cell_ne {v : View} {i f : Nat} {ψ : Cell → Cell} (ne : ¬ (j = i ∧ k = f)) :
    (v.setCell i f ψ).cell j k = v.cell j k := by
  rw [View.setCell_cell, if_neg ne]

/-- A population pending stays mapped as it is, unless its LUN or its device goes, or it is put. -/
theorem Turn.pending_stays (turn : Turn b now call reply b') (sound : b.view.Sound) (cell : b.view.cell j k = some c)
    (pending : c.valid = false) (busy : c.service ≠ 0) (lun : b'.view.lun j ≠ none) (kept : call ≠ .rmcdev c.addr.dev)
    (other : ∀ p ∈ b.pops, ∀ failed, call = .put4pop p.id failed →
      b.view.search p.task.lunctx ≠ some j ∨ p.task.lunFragnum ≠ k) :
    ∃ c', b'.view.cell j k = some c' ∧ c'.addr = c.addr ∧ c'.valid = false ∧ c'.service = c.service := by
  have same : b'.view.cell j k = some c → ∃ c', b'.view.cell j k = some c' ∧ c'.addr = c.addr ∧
      c'.valid = false ∧ c'.service = c.service := fun here => ⟨c, here, rfl, pending, rfl⟩
  -- a read holds a valid cell, so not this one
  have apart : ∀ {i f : Nat} {c₁ : Cell}, b.view.cell i f = some c₁ → c₁.valid = true → ¬ (j = i ∧ k = f) := by
    rintro i f c₁ here valid ⟨rfl, rfl⟩
    rw [Option.some.inj (here.symm.trans cell), pending] at valid
    cases valid
  -- a put of a population goes to another fragment
  have elsewhere : ∀ {p : Pop} {before after : List Pop} {i : Nat} {failed : Bool}, b.pops = before ++ p :: after →
      call = .put4pop p.id failed → b.view.search p.task.lunctx = some i → ¬ (j = i ∧ k = p.task.lunFragnum) := by
    rintro p before after i failed split called found ⟨rfl, rfl⟩
    rcases other p (by rw [split]; simp) failed called with ne | ne
    · exact ne found
    · exact ne rfl
  cases turn with
  | noop | addcdev | addlun | rmlunWait | putReadFail | putPopFail => exact same cell
  | @rmcdev d =>
    refine same (Option.filter_eq_some_iff.mpr ⟨cell, decide_eq_true fun e => kept (by rw [e])⟩)
  | rmlun => exact same (View.purge_cell_stays cell lun)
  | readHit served =>
    obtain ⟨_, _, _, _, _, _, here, valid, _⟩ := served
    exact same ((View.setCell_cell_ne (apart here valid)).trans cell)
  | @putRead r before after split inService =>
    obtain ⟨_, _, _, _, _, here, valid, _⟩ := inService
    have stays : ((b.view.setCell r.lunidx r.fragnum fun c => { c with service := c.service - 1 }).setLun r.lunidx
        fun l => { l with service := l.service - 1 }).cell j k = some c :=
      (View.setCell_cell_ne (apart here valid)).trans cell
    have lun : (b.view.unpin r.lunidx r.fragnum).lun j ≠ none := lun
    refine same (show (b.view.unpin r.lunidx r.fragnum).cell j k = some c from ?_)
    unfold View.unpin at lun ⊢
    simp only at lun ⊢
    split
    · rename_i last
      rw [if_pos last] at lun
      exact View.collect_cell_stays stays busy lun
    · exact stays
  | @invalidate i x n =>
    by_cases e : j = i
    · subst e
      exact ⟨_, View.invalidate_cell_self cell (Cell.goes_pending pending), rfl, pending, rfl⟩
    · exact same ((View.invalidate_cell_ne e).trans cell)
  | @pop past i f ctx size a l present active inside empty free dev =>
    refine same ?_
    have ne : ¬ (j = i ∧ k = f) := by
      rintro ⟨rfl, rfl⟩
      rw [empty] at cell
      cases cell
    show ((b.view.seize a).enter i f _).cell j k = some c
    rw [View.enter_cell, if_neg ne]
    exact Option.filter_eq_some_iff.mpr ⟨cell, decide_eq_true (View.available_ne sound free cell busy)⟩
  | complete split found present ctx here =>
    refine same (View.collect_cell_stays ?_ busy lun)
    exact (View.setCell_cell_ne (elsewhere split rfl found)).trans cell
  | stale split found present ctx here =>
    exact same (View.collect_cell_stays (v := b.view.release _) cell busy lun)
  | cancel split found present ctx here =>
    refine same (View.settle_cell_stays ?_ lun)
    rw [View.release_cell, View.drop_cell, if_neg (elsewhere split rfl found)]
    exact cell

/-! ### Requests -/

/-- A population outstanding after a turn was outstanding before it and is not the one put, or has
just started. -/
theorem Turn.pop_from {p : Pop} (turn : Turn b now call reply b') (nodup : (b.pops.map Pop.id).Nodup)
    (member : p ∈ b'.pops) : (p ∈ b.pops ∧ ∀ failed, call ≠ .put4pop p.id failed) ∨
      ∃ past i l a, call = .get4pop past ∧ reply = .poptask (some p.task) ∧ p.id = now ∧ b.view.lun i = some l ∧
        p.task.lunctx = l.lunctx ∧ b.view.cell i p.task.lunFragnum = none ∧
        b'.view.cell i p.task.lunFragnum = some ⟨a, false, 1, View.tailBad l.nrSctr l.nrFrag p.task.lunFragnum⟩ := by
  have rest : ∀ {q : Pop} {before after : List Pop} {failed : Bool}, b.pops = before ++ q :: after →
      p ∈ before ++ after → p ∈ b.pops ∧ ∀ failed', Call.put4pop q.id failed ≠ .put4pop p.id failed' := by
    intro q before after failed split here
    have perm : b.pops.Perm (q :: (before ++ after)) := by
      rw [split]
      exact List.perm_middle
    refine ⟨perm.mem_iff.mpr (List.mem_cons_of_mem _ here), ?_⟩
    intro failed' same
    simp only [Call.put4pop.injEq] at same
    have nodup' : ((q :: (before ++ after)).map Pop.id).Nodup := (perm.map _).nodup_iff.mp nodup
    rw [List.map_cons, List.nodup_cons] at nodup'
    exact nodup'.1 (List.mem_map.mpr ⟨p, here, same.1.symm⟩)
  cases turn with
  | noop failed get =>
    refine Or.inl ⟨member, ?_⟩
    rintro failed' rfl
    cases get
  | addcdev | rmcdev | addlun | rmlunWait | rmlun | readHit | putRead | putReadFail | invalidate =>
    exact Or.inl ⟨member, by simp⟩
  | @pop past i f ctx size a l present active inside empty free dev =>
    rcases List.mem_cons.mp member with rfl | old
    · refine Or.inr ⟨past, i, l, a, rfl, rfl, rfl, present, rfl, empty, ?_⟩
      show ((b.view.seize a).enter i f _).cell i f = _
      rw [View.enter_cell, if_pos ⟨rfl, rfl⟩]
    · exact Or.inl ⟨old, by simp⟩
  | putPopFail split | complete split | stale split | cancel split => exact Or.inl (rest split member)

end Iostash
