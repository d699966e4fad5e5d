import Iostash.Client.Frame

/-!
# Populations and their mappings

While no device goes away under a population, every mapping that is not valid belongs to one population
outstanding, and every population outstanding has its mapping. The service count of a LUN is then what
its reads and its populations took.
-/

namespace Iostash

theorem View.put4pop_ok {v : View} {task : Poptask} {i : Nat} {c : Cell} (found : v.search task.lunctx = some i)
    (cell : v.cell i task.lunFragnum = some c) (pending : c.valid = false) (one : c.service = 1) (failed : Bool) :
    (v.put4pop task failed).1 = .success := by
  cases failed <;> simp [View.put4pop, View.cancel, View.complete, found, cell, pending, one]

namespace Ledger

/-- The populations outstanding for a LUN context. -/
def popsIn (b : Ledger) (ctx : Nat) : Nat := b.pops.countP fun p => p.task.lunctx == ctx

/-- The reads outstanding on a LUN. -/
def readsIn (b : Ledger) (i : Nat) : Nat := b.reads.countP fun r => r.lunidx == i

structure Paired (b : Ledger) : Prop where
  owned : ∀ i f c, b.view.cell i f = some c → c.valid = false → c.service = 1 ∧ ∃ p ∈ b.pops, ∃ l,
    b.view.lun i = some l ∧ p.task.lunctx = l.lunctx ∧ p.task.lunFragnum = f
  owns : ∀ p ∈ b.pops, ∃ i l c, b.view.lun i = some l ∧ p.task.lunctx = l.lunctx ∧
    b.view.cell i p.task.lunFragnum = some c ∧ c.valid = false
  apart : ∀ p ∈ b.pops, ∀ q ∈ b.pops, p.task.lunctx = q.task.lunctx → p.task.lunFragnum = q.task.lunFragnum → p = q

variable {b b' : Ledger} {p q : Pop} {i j k : Nat} {l : Volume} {c : Cell}

/-- The mapping of a population is the one its put finds. -/
theorem Paired.found (paired : b.Paired) (sound : b.view.Sound) (named : b.view.Named) (member : p ∈ b.pops) :
    ∃ i l c, b.view.search p.task.lunctx = some i ∧ b.view.lun i = some l ∧ p.task.lunctx = l.lunctx ∧
      b.view.cell i p.task.lunFragnum = some c ∧ c.valid = false ∧ c.service = 1 := by
  obtain ⟨i, l, c, lun, ctx, cell, pending⟩ := paired.owns p member
  refine ⟨i, l, c, ?_, lun, ctx, cell, pending, (paired.owned i _ c cell pending).1⟩
  rw [ctx]
  exact named.search_of_lun sound lun

theorem Paired.put_ok (paired : b.Paired) (sound : b.view.Sound) (named : b.view.Named) (member : p ∈ b.pops)
    (failed : Bool) : (b.view.put4pop p.task failed).1 = .success := by
  obtain ⟨i, l, c, found, _, _, cell, pending, one⟩ := paired.found sound named member
  exact View.put4pop_ok found cell pending one failed

theorem popsIn_pos (member : p ∈ b.pops) : 0 < b.popsIn p.task.lunctx :=
  List.countP_pos_iff.mpr ⟨p, member, by simp⟩

end Ledger

variable {b b' : Ledger} {now j k : Nat} {call : Call} {reply : Reply} {c c' : Cell} {p : Pop}

theorem Pop.eq_of_id {pops : List Pop} {q : Pop} (nodup : (pops.map Pop.id).Nodup) (here : p ∈ pops) (there : q ∈ pops)
    (same : p.id = q.id) : p = q :=
  List.inj_on_of_nodup_map nodup here there same

theorem Pop.find_of_mem {pops : List Pop} {p : Pop} (nodup : (pops.map Pop.id).Nodup) (member : p ∈ pops) :
    (pops.find? fun q => q.id == p.id) = some p := by
  obtain ⟨q, found⟩ : ∃ q, (pops.find? fun q => q.id == p.id) = some q :=
    Option.isSome_iff_exists.mp (List.find?_isSome.mpr ⟨p, member, beq_self_eq_true _⟩)
  have same : q.id = p.id := by simpa using List.find?_some found
  rw [found, Pop.eq_of_id nodup (List.mem_of_find?_eq_some found) member same]

/-! ### One turn -/

theorem Turn.pop_stays (turn : Turn b now call reply b') (member : p ∈ b.pops)
    (other : ∀ failed, call ≠ .put4pop p.id failed) : p ∈ b'.pops := by
  have rest : ∀ {q : Pop} {before after : List Pop} {failed : Bool}, b.pops = before ++ q :: after →
      call = .put4pop q.id failed → p ∈ before ++ after := by
    rintro q before after failed split rfl
    rw [split] at member
    rcases List.mem_append.mp member with left | right
    · exact List.mem_append_left _ left
    · rcases List.mem_cons.mp right with rfl | right
      · exact absurd rfl (other failed)
      · exact List.mem_append_right _ right
  cases turn with
  | noop | addcdev | rmcdev | addlun | rmlunWait | rmlun | readHit | putRead | putReadFail | invalidate => exact member
  | pop => exact List.mem_cons_of_mem _ member
  | putPopFail split | complete split | stale split | cancel split => exact rest split rfl

theorem Turn.pop_new {past : Nat → Nat → Word} {t : Poptask} (turn : Turn b now call reply b')
    (called : call = .get4pop past) (replied : reply = .poptask (some t)) : ⟨now, t⟩ ∈ b'.pops := by
  subst called replied
  cases turn with
  | noop failed => cases failed
  | pop => exact List.mem_cons_self

theorem Turn.put_ends {failed : Bool} {i : Nat} (turn : Turn b now (.put4pop p.id failed) reply b')
    (nodup : (b.pops.map Pop.id).Nodup) (member : p ∈ b.pops) (found : b.view.search p.task.lunctx = some i)
    (here : b.view.cell i p.task.lunFragnum = some c) (pending : c.valid = false) (one : c.service = 1)
    (cell : b'.view.cell i p.task.lunFragnum = some c') : c'.valid = true := by
  generalize called : Call.put4pop p.id failed = call at turn
  -- the population put is the only one of its number
  have this : ∀ {q : Pop} {before after : List Pop}, b.pops = before ++ q :: after → p.id = q.id → p = q :=
    fun split same => Pop.eq_of_id nodup member (by rw [split]; simp) same
  cases turn with
  | noop failed get =>
    subst called
    cases get
  | addcdev | rmcdev | addlun | rmlunWait | rmlun | readHit | putRead | putReadFail | invalidate | pop => cases called
  | putPopFail split fails =>
    obtain rfl := this split (Call.put4pop.inj called).1
    rw [View.put4pop_ok found here pending one] at fails
    cases fails
  | complete split found' =>
    obtain rfl := this split (Call.put4pop.inj called).1
    obtain rfl := Option.some.inj (found.symm.trans found')
    have before := View.collect_cell_some cell
    rw [View.release_cell] at before
    obtain ⟨c₀, _, rfl⟩ := View.setCell_cell_some before
    simp
  | stale split found' _ _ there valid =>
    obtain rfl := this split (Call.put4pop.inj called).1
    obtain rfl := Option.some.inj (found.symm.trans found')
    rw [Option.some.inj (here.symm.trans there), valid] at pending
    cases pending
  | cancel split found' =>
    obtain rfl := this split (Call.put4pop.inj called).1
    obtain rfl := Option.some.inj (found.symm.trans found')
    have gone := View.settle_cell_some cell
    rw [View.release_cell, View.drop_cell, if_pos ⟨rfl, rfl⟩] at gone
    cases gone

theorem Turn.same_ctx {i : Nat} {l l' : Volume} (turn : Turn b now call reply b') (lun : b.view.lun i = some l)
    (lun' : b'.view.lun i = some l') : l'.Same l := by
  rcases turn.lun lun' with ⟨l₀, old, back⟩ | ⟨_, _, _, _, _, absent, _⟩
  · obtain rfl := Option.some.inj (old.symm.trans lun)
    exact back
  · rw [absent] at lun
    cases lun

/-- A mapping that is not valid always belongs to a population outstanding. -/
def Ledger.Owned (b : Ledger) : Prop :=
  ∀ i f c, b.view.cell i f = some c → c.valid = false → c.service = 1 ∧ ∃ p ∈ b.pops, ∃ l,
    b.view.lun i = some l ∧ p.task.lunctx = l.lunctx ∧ p.task.lunFragnum = f

theorem Turn.owned (turn : Turn b now call reply b') (owned : b.Owned) (sound : b.view.Sound) (sound' : b'.view.Sound)
    (named : b.view.Named) (nodup : (b.pops.map Pop.id).Nodup) : b'.Owned := by
  intro i f c' cell' pending'
  obtain ⟨l', lun', _⟩ := sound'.inside i f c' cell'
  -- a mapping that was there and pending has its population still
  have old : ∀ c, b.view.cell i f = some c → c.valid = false → c'.service = c.service →
      c'.service = 1 ∧ ∃ p ∈ b'.pops, ∃ l, b'.view.lun i = some l ∧ p.task.lunctx = l.lunctx ∧ p.task.lunFragnum = f := by
    intro c cell pending service
    obtain ⟨one, p, member, l, lun, ctx, rfl⟩ := owned i f c cell pending
    refine ⟨service.trans one, p, turn.pop_stays member ?_, l', lun', ctx.trans (turn.same_ctx lun lun').1.symm, rfl⟩
    rintro failed rfl
    have found : b.view.search p.task.lunctx = some i := by
      rw [ctx]
      exact named.search_of_lun sound lun
    have settled := turn.put_ends nodup member found cell pending one cell'
    rw [pending'] at settled
    cases settled
  cases turn.cell cell' with
  | kept cell addr valid bad service => exact old _ cell (valid.symm.trans pending') (service (valid.symm.trans pending'))
  | marked called ok typed writable present bound cell now =>
    subst now
    exact old _ cell pending' rfl
  | completed called ok member present ctx fragnum cell pending now =>
    subst now
    cases pending'
  | mapped called replied present inside empty dev now =>
    subst now
    exact ⟨rfl, _, turn.pop_new called replied, l', lun', (turn.same_ctx present lun').1.symm, rfl⟩

/-- The pairing is kept when neither the device of a population nor its LUN goes. -/
theorem Turn.paired (turn : Turn b now call reply b') (paired : b.Paired) (sound : b.view.Sound)
    (sound' : b'.view.Sound) (named : b.view.Named) (nodup : (b.pops.map Pop.id).Nodup)
    (kept : ∀ i f c, b.view.cell i f = some c → c.valid = false → call ≠ .rmcdev c.addr.dev)
    (stays : ∀ p ∈ b'.pops, ∀ i l, b.view.lun i = some l → p.task.lunctx = l.lunctx → b'.view.lun i ≠ none) :
    b'.Paired := by
  have same : ∀ {i : Nat} {l l' : Volume}, b.view.lun i = some l → b'.view.lun i = some l' → l'.lunctx = l.lunctx :=
    fun lun lun' => (turn.same_ctx lun lun').1
  refine ⟨turn.owned paired.owned sound sound' named nodup, ?_, ?_⟩
  · intro p member
    rcases turn.pop_from nodup member with ⟨old, other⟩ | ⟨past, i, l, a, _, _, _, lun, ctx, _, cell⟩
    · obtain ⟨i, l, c, found, lun, ctx, cell, pending, one⟩ := paired.found sound named old
      have there := stays p member i l lun ctx
      obtain ⟨l', lun'⟩ := Option.ne_none_iff_exists'.mp there
      obtain ⟨c', cell', _, pending', _⟩ :=
          turn.pending_stays sound cell pending (by rw [one]; exact Nat.one_ne_zero) there
        (kept i _ c cell pending) (by
          intro q here failed put
          by_contra both
          simp only [not_or, not_not] at both
          have there := (View.search_eq_some both.1).2
          rw [lun] at there
          obtain rfl := paired.apart q here p old (there.symm.trans ctx.symm) both.2
          exact other failed put)
      exact ⟨i, l', c', lun', ctx.trans (same lun lun').symm, cell', pending'⟩
    · obtain ⟨l', lun', _⟩ := sound'.inside i _ _ cell
      exact ⟨i, l', _, lun', ctx.trans (same lun lun').symm, cell, rfl⟩
  · -- a population that starts finds its fragment unmapped
    have new : ∀ {p q : Pop} {i : Nat} {l : Volume}, p ∈ b.pops → b.view.lun i = some l → q.task.lunctx = l.lunctx →
        b.view.cell i q.task.lunFragnum = none → p.task.lunctx = q.task.lunctx →
        p.task.lunFragnum = q.task.lunFragnum → False := by
      intro p q i l member lun ctx empty sameCtx sameFrag
      obtain ⟨i', l', c, lun', ctx', cell, _⟩ := paired.owns p member
      obtain rfl := named.inj i' i l' l lun' lun (ctx'.symm.trans (sameCtx.trans ctx))
      rw [sameFrag, empty] at cell
      cases cell
    intro p here q there sameCtx sameFrag
    rcases turn.pop_from nodup here with ⟨old, _⟩ | ⟨_, i, l, _, _, replied, id, lun, ctx, empty, _⟩ <;>
      rcases turn.pop_from nodup there with ⟨old', _⟩ | ⟨_, i', l', _, _, replied', id', lun', ctx', empty', _⟩
    · exact paired.apart p old q old' sameCtx sameFrag
    · exact (new old lun' ctx' empty' sameCtx sameFrag).elim
    · exact (new old' lun ctx empty sameCtx.symm sameFrag.symm).elim
    · obtain ⟨id₁, task₁⟩ := p
      obtain ⟨id₂, task₂⟩ := q
      rw [replied] at replied'
      simp only [Reply.poptask.injEq, Option.some.injEq] at replied'
      rw [show id₁ = now from id, show id₂ = now from id', replied']

/-! ### Counting the references of a LUN -/

/-- No LUN is pending deletion. -/
def View.Active (v : View) : Prop := ∀ i l, v.lun i = some l → l.waiting = false

theorem View.setLun_lun_none {v : View} {i j : Nat} {φ : Volume → Volume} :
    (v.setLun i φ).lun j = none ↔ v.lun j = none := by
  rw [View.setLun_lun]
  split
  · exact Option.map_eq_none_iff
  · rfl

theorem View.Active.settle {v : View} {i : Nat} (active : v.Active) : v.settle i = v := by
  unfold View.settle
  cases lun : v.lun i with
  | none => rfl
  | some l => simp [active i l lun]

/-- Without deletions pending, garbage collection takes no LUN. -/
theorem View.Active.collect_lun {v : View} {i f : Nat} (active : v.Active) : (v.collect i f).lun = v.lun := by
  have drop : (v.drop i f).Active := active
  unfold View.collect
  rw [active.settle, drop.settle]
  split <;> rfl

theorem View.Active.setLun {v : View} {i : Nat} {φ : Volume → Volume} (active : v.Active)
    (keeps : ∀ l, (φ l).waiting = l.waiting) : (v.setLun i φ).Active := by
  intro j l lun
  obtain ⟨l₀, here, rfl⟩ := View.setLun_lun_some lun
  split
  · rw [keeps]
    exact active j l₀ here
  · exact active j l₀ here

theorem View.Active.release {v : View} {i : Nat} (active : v.Active) : (v.release i).Active :=
  active.setLun fun _ => rfl

theorem View.Active.finish_lun {v u : View} {i f : Nat} (active : v.Active) (same : u.lun = v.lun) :
    ((u.release i).collect i f).lun = (v.release i).lun := by
  have there : (u.release i).lun = (v.release i).lun := by
    unfold View.release View.setLun
    rw [same]
  have still : (u.release i).Active := by
    intro j l lun
    rw [there] at lun
    exact active.release j l lun
  rw [still.collect_lun, there]

theorem View.Active.cancel_lun {v : View} {i f : Nat} (active : v.Active) :
    (((v.drop i f).release i).settle i).lun = (v.release i).lun := by
  have there : ((v.drop i f).release i).Active := View.Active.release (v := v.drop i f) active
  rw [there.settle]
  rfl

theorem View.Active.unpin_lun {v : View} {i f : Nat} (active : v.Active) :
    (v.unpin i f).lun = (v.setLun i fun l => { l with service := l.service - 1 }).lun := by
  have there : ((v.setCell i f fun c => { c with service := c.service - 1 }).setLun i
      fun l => { l with service := l.service - 1 }).Active :=
    View.Active.setLun (v := v.setCell i f _) active fun _ => rfl
  unfold View.unpin
  simp only
  split
  · rw [there.collect_lun]
    rfl
  · rfl

namespace Ledger

/-- The references of each LUN that reads took with a hit and did not give back. -/
def nextRefs (b : Ledger) (refs : Nat → Nat) : Call → Reply → Nat → Nat
  | .get4read i _ _, .fmap (some _) => fun j => if j = i then refs j + 1 else refs j
  | .put4read id, .ret .success => fun j =>
      if (b.reads.find? fun r => r.id == id).any (fun r => r.lunidx == j) then refs j - 1 else refs j
  | _, _ => refs

/-- The service count of a LUN is that of its reads and its populations, modulo 2^32. -/
structure Counted (b : Ledger) (refs : Nat → Nat) : Prop where
  service : ∀ i l, b.view.lun i = some l → l.service = u32 (refs i + b.popsIn l.lunctx)
  reads : ∀ i, b.readsIn i ≤ refs i
  fresh : ∀ i, b.view.lun i = none → refs i = 0

theorem nextRefs_failed {b : Ledger} {refs : Nat → Nat} {call : Call} {reply : Reply} (failed : reply.failed = true) :
    b.nextRefs refs call reply = refs := by
  unfold nextRefs
  split
  · cases failed
  · cases failed
  · rfl

theorem popsIn_split {b : Ledger} {p : Pop} {before after : List Pop} (split : b.pops = before ++ p :: after)
    (v : View) (ctx : Nat) : b.popsIn ctx =
      (⟨v, b.reads, before ++ after⟩ : Ledger).popsIn ctx + if p.task.lunctx = ctx then 1 else 0 := by
  simp only [popsIn, split, List.countP_append, List.countP_cons, beq_iff_eq]
  omega

theorem readsIn_split {b : Ledger} {r : Read} {before after : List Read} (split : b.reads = before ++ r :: after)
    (v : View) (i : Nat) : b.readsIn i =
      (⟨v, before ++ after, b.pops⟩ : Ledger).readsIn i + if r.lunidx = i then 1 else 0 := by
  simp only [readsIn, split, List.countP_append, List.countP_cons, beq_iff_eq]
  omega

end Ledger

theorem Turn.readNodup (turn : Turn b now call reply b') (readIds : ∀ r ∈ b.reads, r.id < now)
    (nodup : (b.reads.map Read.id).Nodup) : (b'.reads.map Read.id).Nodup := by
  have rest : ∀ {r : Read} {before after : List Read}, b.reads = before ++ r :: after →
      ((before ++ after).map Read.id).Nodup := by
    intro r before after split
    have sub : (before ++ after).Sublist b.reads := by
      rw [split]
      exact List.Sublist.append_left (List.sublist_cons_self _ _) _
    exact (sub.map _).nodup nodup
  cases turn with
  | noop | addcdev | rmcdev | addlun | rmlunWait | rmlun | invalidate | pop | putPopFail | complete | stale | cancel =>
    exact nodup
  | readHit =>
    rw [List.map_cons, List.nodup_cons]
    refine ⟨?_, nodup⟩
    intro member
    obtain ⟨r, there, same⟩ := List.mem_map.mp member
    exact absurd (readIds r there) (by rw [same]; exact Nat.lt_irrefl _)
  | putRead split | putReadFail split => exact rest split

/-- A read is found by its number. -/
theorem Read.find_of_split {reads before after : List Read} {r : Read} (nodup : (reads.map Read.id).Nodup)
    (split : reads = before ++ r :: after) : (reads.find? fun q => q.id == r.id) = some r := by
  have member : r ∈ reads := by rw [split]; simp
  cases found : reads.find? fun q => q.id == r.id with
  | none => exact absurd (List.find?_eq_none.mp found r member) (by simp)
  | some q =>
    have same : q.id = r.id := by simpa using List.find?_some found
    rw [List.inj_on_of_nodup_map nodup (List.mem_of_find?_eq_some found) member same]

theorem Turn.active (turn : Turn b now call reply b') (active : b.view.Active) (kept : ∀ i, call ≠ .rmlun i) :
    b'.view.Active := by
  cases turn with
  | noop | addcdev | rmcdev | putReadFail | invalidate | putPopFail => exact active
  | @addlun m ctx i =>
    intro j l lun
    have lun : (if j = i then some (⟨ctx, m, lunFrags m, 0, false⟩ : Volume) else b.view.lun j) = some l := lun
    split at lun
    · rw [← Option.some.inj lun]
    · exact active j l lun
  | rmlunWait | rmlun => exact absurd rfl (kept _)
  | readHit => exact active.setLun fun _ => rfl
  | putRead =>
    intro j l lun
    refine active.setLun ?_ j l ((congrFun active.unpin_lun j).symm.trans lun)
    exact fun _ => rfl
  | pop => exact active.setLun fun _ => rfl
  | complete | stale =>
    intro j l lun
    refine active.release j l ((congrFun (active.finish_lun ?_) j).symm.trans lun)
    rfl
  | cancel =>
    intro j l lun
    exact active.release j l ((congrFun active.cancel_lun j).symm.trans lun)

theorem Turn.lun_stays {i : Nat} {l : Volume} (turn : Turn b now call reply b') (active : b.view.Active)
    (kept : ∀ i, call ≠ .rmlun i) (lun : b.view.lun i = some l) : b'.view.lun i ≠ none := by
  have there : b.view.lun i ≠ none := by
    rw [lun]
    exact Option.some_ne_none l
  cases turn with
  | noop | addcdev | rmcdev | putReadFail | invalidate | putPopFail => exact there
  | @addlun m ctx j =>
    show (if i = j then some (⟨ctx, m, lunFrags m, 0, false⟩ : Volume) else b.view.lun i) ≠ none
    split
    · exact Option.some_ne_none _
    · exact there
  | rmlunWait | rmlun => exact absurd rfl (kept _)
  | @readHit j x n ctx size c =>
    exact fun gone => there ((View.setLun_lun_none (v := b.view.setCell j _ _)).mp gone)
  | putRead => exact fun gone => there (View.setLun_lun_none.mp ((congrFun active.unpin_lun i).symm.trans gone))
  | @pop past j f ctx size a =>
    exact fun gone => there ((View.setLun_lun_none (v := (b.view.seize a).enter j f _)).mp gone)
  | complete | stale =>
    refine fun gone => there (View.setLun_lun_none.mp ((congrFun (active.finish_lun ?_) i).symm.trans gone))
    rfl
  | cancel => exact fun gone => there (View.setLun_lun_none.mp ((congrFun active.cancel_lun i).symm.trans gone))

theorem Turn.counted {refs : Nat → Nat} (turn : Turn b now call reply b') (paired : b.Paired) (sound : b.view.Sound)
    (named : b.view.Named) (active : b.view.Active) (nodup : (b.reads.map Read.id).Nodup)
    (kept : ∀ i, call ≠ .rmlun i)
    (fresh : ∀ m ctx vmalloc, call = .addlun m ctx vmalloc → ∀ i l, b.view.lun i = some l → l.lunctx ≠ ctx)
    (counted : b.Counted refs) : b'.Counted (b.nextRefs refs call reply) := by
  -- a put that ends a population gives back the reference of its LUN
  have ended : ∀ {p : Pop} {before after : List Pop} {i : Nat} {l : Volume} {v : View}, b.pops = before ++ p :: after →
      b.view.lun i = some l → l.lunctx = p.task.lunctx → v.lun = (b.view.release i).lun →
      (⟨v, b.reads, before ++ after⟩ : Ledger).Counted refs := by
    intro p before after i l v parts present ctx luns
    have count := Ledger.popsIn_split parts v
    refine ⟨?_, counted.reads, ?_⟩
    · intro j m lun
      have lun : (b.view.release i).lun j = some m := luns ▸ lun
      obtain ⟨m₀, here, rfl⟩ := View.setLun_lun_some lun
      have old := counted.service j m₀ here
      rw [count m₀.lunctx] at old
      split
      · rename_i e
        subst e
        obtain rfl := Option.some.inj (present.symm.trans here)
        rw [if_pos ctx.symm] at old
        simp only [sub32, u32] at old ⊢
        omega
      · rename_i ne
        rw [if_neg fun same => ne (named.inj j i m₀ l here present (same.symm.trans ctx.symm))] at old
        exact old
    · intro j absent
      exact counted.fresh j (View.setLun_lun_none.mp ((congrFun luns j).symm.trans absent))
  cases turn with
  | noop failed get =>
    rw [Ledger.nextRefs_failed failed]
    exact counted
  | addcdev | rmcdev | invalidate => exact ⟨counted.service, counted.reads, counted.fresh⟩
  | @addlun m ctx i vmalloc slot absent =>
    have none : b.popsIn ctx = 0 := by
      apply List.countP_eq_zero.mpr
      intro p member same
      obtain ⟨j, l, _, lun, ctx', _⟩ := paired.owns p member
      exact fresh m ctx vmalloc rfl j l lun (ctx'.symm.trans (by simpa using same))
    refine ⟨?_, counted.reads, ?_⟩
    · intro j l lun
      have lun : (if j = i then some (⟨ctx, m, lunFrags m, 0, false⟩ : Volume) else b.view.lun j) = some l := lun
      split at lun
      · rename_i e
        obtain rfl := Option.some.inj lun
        show 0 = u32 (refs j + b.popsIn ctx)
        rw [e, counted.fresh i absent, none]
        rfl
      · exact counted.service j l lun
    · intro j gone
      have gone : (if j = i then some (⟨ctx, m, lunFrags m, 0, false⟩ : Volume) else b.view.lun j) = Option.none := gone
      split at gone
      · cases gone
      · exact counted.fresh j gone
  | rmlunWait | rmlun => exact absurd rfl (kept _)
  | @readHit i x n ctx size c served =>
    obtain ⟨l, present, _⟩ := served
    refine ⟨?_, ?_, ?_⟩
    · intro j m lun
      obtain ⟨m₀, here, rfl⟩ := View.setLun_lun_some (v := b.view.setCell i _ _) lun
      have old := counted.service j m₀ here
      simp only [Ledger.nextRefs]
      split
      · show u32 (m₀.service + 1) = u32 (refs j + 1 + b.popsIn m₀.lunctx)
        simp only [u32] at old ⊢
        omega
      · exact old
    · intro j
      have old := counted.reads j
      simp only [Ledger.readsIn, List.countP_cons, beq_iff_eq, Ledger.nextRefs] at old ⊢
      split <;> split <;> omega
    · intro j absent
      have absent : (if j = i then (b.view.lun j).map _ else b.view.lun j) = none := absent
      simp only [Ledger.nextRefs]
      split
      · rename_i e
        rw [if_pos e, e, present] at absent
        cases absent
      · rename_i ne
        rw [if_neg ne] at absent
        exact counted.fresh j absent
  | @putRead r before after parts busy =>
    obtain ⟨l, _, present, _, _, _, _, _, held⟩ := busy
    have luns := active.unpin_lun (i := r.lunidx) (f := r.fragnum)
    have there : ∀ j, b.nextRefs refs (.put4read r.id) (.ret .success) j =
        if j = r.lunidx then refs j - 1 else refs j := by
      intro j
      simp only [Ledger.nextRefs, Read.find_of_split nodup parts, Option.any_some, beq_iff_eq, eq_comm (a := j)]
    have left : ∀ j, (⟨b.view.unpin r.lunidx r.fragnum, before ++ after, b.pops⟩ : Ledger).readsIn j +
        (if r.lunidx = j then 1 else 0) ≤ refs j := by
      intro j
      rw [← Ledger.readsIn_split parts]
      exact counted.reads j
    refine ⟨?_, ?_, ?_⟩
    · intro j m lun
      obtain ⟨m₀, here, rfl⟩ := View.setLun_lun_some ((congrFun luns j).symm.trans lun)
      have old := counted.service j m₀ here
      rw [there]
      split
      · rename_i e
        subst e
        obtain rfl := Option.some.inj (present.symm.trans here)
        have mine := left r.lunidx
        rw [if_pos rfl] at mine
        show l.service - 1 = u32 (refs r.lunidx - 1 + b.popsIn l.lunctx)
        simp only [u32] at old ⊢
        omega
      · exact old
    · intro j
      have mine := left j
      rw [there]
      split
      · rename_i e
        rw [if_pos e.symm] at mine
        omega
      · omega
    · intro j absent
      have gone := View.setLun_lun_none.mp ((congrFun luns j).symm.trans absent)
      rw [there, counted.fresh j gone]
      simp
  | @putReadFail r before after parts =>
    refine ⟨counted.service, ?_, counted.fresh⟩
    intro j
    have held := counted.reads j
    rw [Ledger.readsIn_split parts b.view] at held
    exact Nat.le_trans (Nat.le_add_right _ _) held
  | @pop past i f ctx size a l present =>
    refine ⟨?_, counted.reads, ?_⟩
    · intro j m lun
      obtain ⟨m₀, here, rfl⟩ := View.setLun_lun_some (v := (b.view.seize a).enter i f _) lun
      have old := counted.service j m₀ here
      have count : ∀ ctx',
          (⟨b.view.place i f a l, b.reads, ⟨now, l.lunctx, ctx, f, a.off⟩ :: b.pops⟩ : Ledger).popsIn ctx' =
          b.popsIn ctx' + if l.lunctx = ctx' then 1 else 0 := by
        intro ctx'
        simp only [Ledger.popsIn, List.countP_cons, beq_iff_eq]
      rw [count]
      split
      · rename_i e
        subst e
        obtain rfl := Option.some.inj (present.symm.trans here)
        rw [if_pos rfl]
        show u32 (l.service + 1) = u32 (refs j + (b.popsIn l.lunctx + 1))
        simp only [u32] at old ⊢
        omega
      · rename_i ne
        rw [if_neg fun same => ne (named.inj j i m₀ l here present same.symm)]
        exact old
    · intro j absent
      exact counted.fresh j ((View.setLun_lun_none (v := (b.view.seize a).enter i f _)).mp absent)
  | putPopFail parts fails =>
    rw [paired.put_ok sound named (by rw [parts]; simp)] at fails
    cases fails
  | complete parts _ present ctx => exact ended parts present ctx (active.finish_lun rfl)
  | stale parts _ present ctx => exact ended parts present ctx (active.finish_lun rfl)
  | cancel parts _ present ctx => exact ended parts present ctx active.cancel_lun

end Iostash
