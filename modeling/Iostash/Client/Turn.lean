import Iostash.Client.World

/-!
# One turn of a run

What a client's call does to the abstract cache and to the requests outstanding. The invariants over
runs are stated of a `Ledger` and proved by cases on `Turn`.
-/

namespace Iostash

/-- The abstract cache and the requests outstanding. -/
structure Ledger where
  view : View
  reads : List Read
  pops : List Pop

def World.ledger (w : World) : Ledger := ⟨w.sce.view, w.reads, w.pops⟩

/-- The reply of a call that did nothing but count. -/
def Reply.failed : Reply → Bool
  | .hndl h => h.isNone
  | .ret r => r == .error
  | .fmap m => m.isNone
  | .poptask t => t.isNone

def Call.isPut : Call → Bool
  | .put4read _ => true
  | .put4pop _ _ => true
  | _ => false

/-- The call starts a request when it succeeds. -/
def Call.isGet : Call → Bool
  | .get4read _ _ _ => true
  | .get4pop _ => true
  | _ => false

/-- What a call that returns at time `now` does. -/
inductive Turn (b : Ledger) (now : Nat) : Call → Reply → Ledger → Prop
  | noop {call : Call} {reply : Reply} (failed : reply.failed = true) (get : call.isPut = false) :
      Turn b now call reply b
  | addcdev {m ctx d n : Nat} {vmalloc : Bool} (size : n = u32 (m / sceSctrPerFrag)) (pos : 0 < n)
      (slot : d < sceMaxCdev) (absent : b.view.dev d = none) (fresh : ∀ e k, b.view.dev e ≠ some (ctx, k)) :
      Turn b now (.addcdev m ctx vmalloc) (.hndl (some d)) { b with view := b.view.plug d ctx n }
  | rmcdev {d ctx n : Nat} (present : b.view.dev d = some (ctx, n)) :
      Turn b now (.rmcdev d) (.ret .success) { b with view := b.view.unplug d }
  | addlun {m ctx i : Nat} {vmalloc : Bool} (slot : i < sceMaxLun) (absent : b.view.lun i = none) (pos : 0 < m)
      (size : 0 < lunFrags m) :
      Turn b now (.addlun m ctx vmalloc) (.hndl (some i))
        { b with view := b.view.attach i ⟨ctx, m, lunFrags m, 0, false⟩ }
  | rmlunWait {i : Nat} {l : Volume} (present : b.view.lun i = some l) (busy : 0 < l.service) :
      Turn b now (.rmlun i) (.ret .success) { b with view := b.view.setLun i fun l => { l with waiting := true } }
  | rmlun {i : Nat} {l : Volume} (present : b.view.lun i = some l) (idle : l.service = 0) :
      Turn b now (.rmlun i) (.ret .success) { b with view := b.view.purge i }
  | readHit {i x n ctx size : Nat} {c : Cell} (served : b.view.served i x n c)
      (dev : b.view.dev c.addr.dev = some (ctx, size)) :
      Turn b now (.get4read i x n) (.fmap (some ⟨ctx, c.addr.off⟩))
        { b with view := b.view.pin i (u32 (x / sceSctrPerFrag)), reads := ⟨now, i, x, n, c.addr⟩ :: b.reads }
  | putRead {r : Read} {before after : List Read} (split : b.reads = before ++ r :: after)
      (busy : b.view.inService r.lunidx r.sctrnum r.nrSctr) :
      Turn b now (.put4read r.id) (.ret .success)
        { b with view := b.view.unpin r.lunidx r.fragnum, reads := before ++ after }
  | putReadFail {r : Read} {before after : List Read} (split : b.reads = before ++ r :: after)
      (idle : ¬ b.view.inService r.lunidx r.sctrnum r.nrSctr) :
      Turn b now (.put4read r.id) (.ret .error) { b with reads := before ++ after }
  | invalidate {i x n : Nat} {l : Volume} (typed : x < 2 ^ 64 ∧ n < 2 ^ 32) (writable : b.view.writable i x n)
      (present : b.view.lun i = some l)
      (bound : 0 < invCount x n → invFrag x * 256 + invOff x + invCount x n ≤ l.nrFrag * 256) :
      Turn b now (.invalidate i x n) (.ret .success)
        { b with view := b.view.invalidate i (invFrag x * 256 + invOff x) (invCount x n) }
  | pop {past : Nat → Nat → Word} {i f ctx size : Nat} {a : Phys} {l : Volume} (present : b.view.lun i = some l)
      (active : l.waiting = false) (inside : f < l.nrFrag) (empty : b.view.cell i f = none)
      (free : b.view.available a) (dev : b.view.dev a.dev = some (ctx, size)) :
      Turn b now (.get4pop past) (.poptask (some ⟨l.lunctx, ctx, f, a.off⟩))
        { b with view := b.view.place i f a l, pops := ⟨now, l.lunctx, ctx, f, a.off⟩ :: b.pops }
  | putPopFail {p : Pop} {before after : List Pop} {failed : Bool} (split : b.pops = before ++ p :: after)
      (fails : (b.view.put4pop p.task failed).1 = .error) :
      Turn b now (.put4pop p.id failed) (.ret .error) { b with pops := before ++ after }
  | complete {p : Pop} {before after : List Pop} {i : Nat} {l : Volume} {c : Cell}
      (split : b.pops = before ++ p :: after) (found : b.view.search p.task.lunctx = some i)
      (present : b.view.lun i = some l) (ctx : l.lunctx = p.task.lunctx)
      (cell : b.view.cell i p.task.lunFragnum = some c) (pending : c.valid = false) (one : c.service = 1) :
      Turn b now (.put4pop p.id false) (.ret .success)
        { b with
          view := ((b.view.setCell i p.task.lunFragnum fun c => { c with valid := true, service := 0 }).release i).collect
            i p.task.lunFragnum
          pops := before ++ after }
  | stale {p : Pop} {before after : List Pop} {i : Nat} {l : Volume} {c : Cell}
      (split : b.pops = before ++ p :: after) (found : b.view.search p.task.lunctx = some i)
      (present : b.view.lun i = some l) (ctx : l.lunctx = p.task.lunctx)
      (cell : b.view.cell i p.task.lunFragnum = some c) (valid : c.valid = true) :
      Turn b now (.put4pop p.id false) (.ret .success)
        { b with view := (b.view.release i).collect i p.task.lunFragnum, pops := before ++ after }
  | cancel {p : Pop} {before after : List Pop} {i : Nat} {l : Volume} {c : Cell}
      (split : b.pops = before ++ p :: after) (found : b.view.search p.task.lunctx = some i)
      (present : b.view.lun i = some l) (ctx : l.lunctx = p.task.lunctx)
      (cell : b.view.cell i p.task.lunFragnum = some c) (pending : c.valid = false) (one : c.service = 1) :
      Turn b now (.put4pop p.id true) (.ret .success)
        { b with
          view := ((b.view.drop i p.task.lunFragnum).release i).settle i
          pops := before ++ after }

theorem View.search_eq_some {v : View} {ctx i : Nat} (found : v.search ctx = some i) :
    i < sceMaxLun ∧ (v.lun i).elim 0 Volume.lunctx = ctx := by
  have here := List.find?_some found
  exact ⟨List.mem_range.mp (List.mem_of_find?_eq_some found), by simpa using here⟩

/-- The outcomes of `sce_put4pop`. -/
theorem putPop_turn {b : Ledger} {p : Pop} {before after : List Pop} (sound : b.view.Sound)
    (split : b.pops = before ++ p :: after) (failed : Bool) (now : Nat) :
    Turn b now (.put4pop p.id failed) (.ret (b.view.put4pop p.task failed).1)
      { b with view := (b.view.put4pop p.task failed).2, pops := before ++ after } := by
  -- the error exits leave the view as it is
  have error : (b.view.put4pop p.task failed) = (.error, b.view) → Turn b now (.put4pop p.id failed)
      (.ret (b.view.put4pop p.task failed).1)
      { b with view := (b.view.put4pop p.task failed).2, pops := before ++ after } := by
    intro e
    have turn : Turn b now (.put4pop p.id failed) (.ret .error) { b with pops := before ++ after } :=
      .putPopFail split (by rw [e])
    rw [e]
    exact turn
  cases found : b.view.search p.task.lunctx with
  | none => exact error (by simp [View.put4pop, found])
  | some i =>
    cases cell : b.view.cell i p.task.lunFragnum with
    | none =>
      refine error ?_
      cases failed <;> simp [View.put4pop, found, View.cancel, View.complete, cell]
    | some c =>
      obtain ⟨l, present, _⟩ := sound.inside i _ c cell
      have ctx : l.lunctx = p.task.lunctx := by
        have := (View.search_eq_some found).2
        rwa [present] at this
      cases failed with
      | true =>
        by_cases pending : c.valid = false ∧ c.service = 1
        · have turn : Turn b now _ _ _ := .cancel split found present ctx cell pending.1 pending.2
          simpa [View.put4pop, found, View.cancel, cell, pending] using turn
        · refine error ?_
          simp only [View.put4pop, found, View.cancel, cell, if_neg pending, if_true]
      | false =>
        cases valid : c.valid with
        | true =>
          have turn : Turn b now _ _ _ := .stale split found present ctx cell valid
          simpa [View.put4pop, found, View.complete, cell, valid] using turn
        | false =>
          by_cases one : c.service = 1
          · have turn : Turn b now _ _ _ := .complete split found present ctx cell valid one
            simpa [View.put4pop, found, View.complete, cell, valid, one] using turn
          · exact error (by simp [View.put4pop, found, View.complete, cell, valid, one])

/-! ### What holds in every run -/

theorem Sce.locate_eq {s : Sce} (h : Devices s) {d ctx n off : Nat} (dev : s.dev d = some (ctx, n)) :
    s.locate ⟨ctx, off⟩ = ⟨d, off⟩ := by
  obtain ⟨cdev, here, same, _⟩ := Sce.dev_eq_some.mp dev
  obtain ⟨lt, ne, _⟩ := h.bounds d ctx n dev
  have search : cdevSearch s ctx = some d := by
    unfold cdevSearch
    cases found : (List.range sceMaxCdev).find? fun d => (s.cdevtbl d).elim 0 Cdev.cdevctx == ctx with
    | none =>
      rw [List.find?_eq_none] at found
      exact absurd (by simp [here, same]) (found d (List.mem_range.mpr lt))
    | some e =>
      have there := List.find?_some found
      cases slot : s.cdevtbl e with
      | none => simp [slot, ne.symm] at there
      | some cdev' =>
        have dev' : s.dev e = some (ctx, cdev'.nrFrag) :=
            Sce.dev_eq_some.mpr ⟨cdev', slot, by simpa [slot] using there, rfl⟩
        rw [h.unique _ _ _ _ _ dev dev']
  simp [Sce.locate, search]

/-- The range of a read lies in one fragment and does not wrap. -/
def Read.Ranged (r : Read) : Prop :=
  0 < r.nrSctr ∧ r.sctrnum + r.nrSctr < 2 ^ 64 ∧
    (r.sctrnum + r.nrSctr - 1) / sceSctrPerFrag = r.sctrnum / sceSctrPerFrag

structure World.Base (w : World) : Prop where
  inv : Inv nowhere w.sce
  ranged : ∀ r ∈ w.reads, r.Ranged
  readIds : ∀ r ∈ w.reads, r.id < w.now
  popIds : ∀ p ∈ w.pops, p.id < w.now
  popNodup : (w.pops.map Pop.id).Nodup
  putLog : ∀ u t failed reply, w.event u = some ⟨.put4pop t failed, reply⟩ → t < u

theorem World.Base.init : World.init.Base :=
  ⟨.create, by simp [World.init], by simp [World.init], by simp [World.init], by simp [World.init],
    by simp [World.init, World.event]⟩

variable {w w' : World} {call : Call}

theorem find_split {α : Type} {l : List α} {q : α → Bool} {a : α} (found : l.find? q = some a) :
    ∃ before after, l = before ++ a :: after ∧ l.eraseP q = before ++ after := by
  obtain ⟨here, before, after, rfl, not⟩ := List.find?_eq_some_iff_append.mp found
  refine ⟨before, after, rfl, ?_⟩
  rw [List.eraseP_append_right _ (by simpa using not), List.eraseP_cons_of_pos here]

theorem World.op_typed {op : Op} (base : w.Base) (named : w.op call = some op) : op.Typed := by
  cases call with
  | addlun m ctx vmalloc =>
    obtain ⟨lt, ⟨⟩⟩ := Option.ite_none_right_eq_some.mp named
    exact lt
  | get4read i x n =>
    obtain ⟨typed, ⟨⟩⟩ := Option.ite_none_right_eq_some.mp named
    exact typed
  | invalidate i x n =>
    obtain ⟨typed, ⟨⟩⟩ := Option.ite_none_right_eq_some.mp named
    exact trivial
  | put4read id =>
    obtain ⟨r, found, rfl⟩ := Option.map_eq_some_iff.mp named
    exact base.ranged r (List.mem_of_find?_eq_some found)
  | put4pop id failed =>
    obtain ⟨p, found, rfl⟩ := Option.map_eq_some_iff.mp named
    exact trivial
  | addcdev | rmcdev | rmlun | get4pop =>
    obtain rfl := Option.some.inj named
    exact trivial

theorem Turn.requests {b b' : Ledger} {now : Nat} {reply : Reply} (turn : Turn b now call reply b') (sound : b.view.Sound)
    (ranged : ∀ r ∈ b.reads, r.Ranged) (readIds : ∀ r ∈ b.reads, r.id < now) (popIds : ∀ p ∈ b.pops, p.id < now)
    (popNodup : (b.pops.map Pop.id).Nodup) : (∀ r ∈ b'.reads, r.Ranged) ∧ (∀ r ∈ b'.reads, r.id < now + 1) ∧
      (∀ p ∈ b'.pops, p.id < now + 1) ∧ (b'.pops.map Pop.id).Nodup ∧
      ∀ id failed, call = .put4pop id failed → id < now := by
  have later : (∀ r ∈ b.reads, r.id < now + 1) ∧ ∀ p ∈ b.pops, p.id < now + 1 :=
    ⟨fun r member => Nat.lt_succ_of_lt (readIds r member), fun p member => Nat.lt_succ_of_lt (popIds p member)⟩
  have fewerReads : ∀ {r : Read} {before after}, b.reads = before ++ r :: after →
      ∀ r' ∈ before ++ after, r' ∈ b.reads := by
    intro r before after split r' member
    rw [split]
    rcases List.mem_append.mp member with left | right
    · exact List.mem_append_left _ left
    · exact List.mem_append_right _ (List.mem_cons_of_mem _ right)
  have fewerPops : ∀ {p : Pop} {before after}, b.pops = before ++ p :: after →
      (∀ p' ∈ before ++ after, p'.id < now + 1) ∧ ((before ++ after).map Pop.id).Nodup ∧ p.id < now := by
    intro p before after split
    have sub : (before ++ after).Sublist b.pops := by
      rw [split]
      exact List.Sublist.append_left (List.sublist_cons_self _ _) _
    exact ⟨fun p' member => later.2 p' (sub.subset member), (sub.map _).nodup popNodup, popIds p (by rw [split]; simp)⟩
  cases turn with
  | noop failed get =>
    refine ⟨ranged, later.1, later.2, popNodup, ?_⟩
    rintro id failed' rfl
    cases get
  | addcdev | rmcdev | addlun | rmlunWait | rmlun | invalidate => exact ⟨ranged, later.1, later.2, popNodup, by simp⟩
  | @readHit i x n ctx size c served =>
    refine ⟨?_, ?_, later.2, popNodup, by simp⟩
    · intro r member
      rcases List.mem_cons.mp member with rfl | tail
      · obtain ⟨l, present, _, pos, bound, one, _⟩ := served
        have limit := (sound.lun i l present).2.2.1
        exact ⟨pos, by simp only [sceSctrPerFrag] at limit ⊢; omega, one⟩
      · exact ranged r tail
    · intro r member
      rcases List.mem_cons.mp member with rfl | tail
      · exact Nat.lt_succ_self now
      · exact later.1 r tail
  | putRead split | putReadFail split =>
    exact ⟨fun r member => ranged r (fewerReads split r member), fun r member => later.1 r (fewerReads split r member),
      later.2, popNodup, by simp⟩
  | pop =>
    refine ⟨ranged, later.1, ?_, ?_, by simp⟩
    · intro p member
      rcases List.mem_cons.mp member with rfl | tail
      · exact Nat.lt_succ_self now
      · exact later.2 p tail
    · rw [List.map_cons, List.nodup_cons]
      refine ⟨?_, popNodup⟩
      intro member
      obtain ⟨p, there, same⟩ := List.mem_map.mp member
      exact absurd (popIds p there) (by rw [same]; exact Nat.lt_irrefl _)
  | putPopFail split | complete split | stale split | cancel split =>
    obtain ⟨ids, nodup, earlier⟩ := fewerPops split
    refine ⟨ranged, later.1, ids, nodup, ?_⟩
    intro id failed same
    simp only [Call.put4pop.injEq] at same
    rw [← same.1]
    exact earlier

theorem World.exec_turn (base : w.Base) (moves : w.exec call = some w') : w'.Base ∧
    ∃ reply, w' = w.next call reply w'.sce ∧ Turn w.ledger w.now call reply w'.ledger := by
  obtain ⟨op, reply, s', named, run, rfl⟩ := World.exec_eq_some.mp moves
  obtain ⟨inv', effect⟩ := Sce.call_effect base.inv (World.op_typed base named) run
  have turn : Turn w.ledger w.now call reply (w.next call reply s').ledger := by
    generalize view : s'.view = v' at effect
    have ledger : (w.next call reply s').ledger = ⟨v', w.nextReads s' call reply, w.nextPops call reply⟩ := by
      simp [World.ledger, World.next, view]
    rw [ledger]
    cases call with
    | addcdev m ctx vmalloc =>
      obtain rfl := Option.some.inj named
      cases effect with
      | addcdevFail => exact .noop rfl rfl
      | addcdev size pos slot absent _ fresh => exact .addcdev size pos slot absent fresh
    | rmcdev d =>
      obtain rfl := Option.some.inj named
      cases effect with
      | rmcdevFail => exact .noop rfl rfl
      | rmcdev present => exact .rmcdev (b := w.ledger) present
    | addlun m ctx vmalloc =>
      obtain ⟨_, ⟨⟩⟩ := Option.ite_none_right_eq_some.mp named
      cases effect with
      | addlunFail => exact .noop rfl rfl
      | addlun slot absent pos size => exact .addlun (b := w.ledger) slot absent pos size
    | rmlun i =>
      obtain rfl := Option.some.inj named
      cases effect with
      | rmlunFail => exact .noop rfl rfl
      | rmlunWait present busy => exact .rmlunWait (b := w.ledger) present busy
      | rmlun present idle => exact .rmlun (b := w.ledger) present idle
    | get4read i x n =>
      obtain ⟨_, ⟨⟩⟩ := Option.ite_none_right_eq_some.mp named
      cases effect with
      | @readHit _ _ _ ctx size c served dev =>
        have devs : s'.dev c.addr.dev = some (ctx, size) := by
          rw [show s'.dev = w.sce.dev from congrArg View.dev view]
          exact dev
        simp only [World.nextReads, World.nextPops, Sce.locate_eq inv'.shape.devices devs]
        exact .readHit (b := w.ledger) served dev
      | readMiss => exact .noop rfl rfl
    | put4read id =>
      obtain ⟨r, found, rfl⟩ := Option.map_eq_some_iff.mp named
      obtain ⟨before, after, split, rest⟩ := find_split found
      have same : r.id = id := by simpa using List.find?_some found
      subst same
      have reads : ∀ reply, w.nextReads s' (.put4read r.id) reply = before ++ after := by
        intro reply
        rw [← rest]
        cases reply <;> rfl
      cases effect with
      | putRead busy =>
        rw [reads]
        exact .putRead (b := w.ledger) split busy
      | putReadFail idle =>
        rw [reads]
        exact .putReadFail (b := w.ledger) split idle
    | invalidate i x n =>
      obtain ⟨typed, ⟨⟩⟩ := Option.ite_none_right_eq_some.mp named
      cases effect with
      | invalidateFail => exact .noop rfl rfl
      | invalidate writable present bound => exact .invalidate (b := w.ledger) typed writable present bound
    | get4pop past =>
      obtain rfl := Option.some.inj named
      cases effect with
      | popNone => exact .noop rfl rfl
      | pop present active inside empty free dev => exact .pop (b := w.ledger) present active inside empty free dev
    | put4pop id failed =>
      obtain ⟨p, found, rfl⟩ := Option.map_eq_some_iff.mp named
      obtain ⟨before, after, split, rest⟩ := find_split found
      have same : p.id = id := by simpa using List.find?_some found
      subst same
      cases effect with
      | putPop =>
        have turn := putPop_turn (b := w.ledger) base.inv.sound split failed w.now
        simp only [World.nextReads, World.nextPops, rest]
        exact turn
  refine ⟨?_, reply, rfl, turn⟩
  obtain ⟨ranged, readIds, popIds, popNodup, puts⟩ :=
    turn.requests base.inv.sound base.ranged base.readIds base.popIds base.popNodup
  refine ⟨inv', ranged, readIds, popIds, popNodup, ?_⟩
  intro u t failed reply event
  rcases World.event_ext.mp event with old | ⟨rfl, e⟩
  · exact base.putLog u t failed reply old
  · exact puts t failed (Event.mk.inj e).1.symm

theorem World.base_of_reachable {allow : World → Call → Prop} (h : Util.Reachable World.exec allow World.init w) :
    w.Base :=
  h.invariant .init fun _ _ _ base _ moves => (World.exec_turn base moves).1

/-- A call that returns, with its reply and what is true of it. -/
theorem World.exec_run (base : w.Base) (moves : w.exec call = some w') : ∃ op reply s', w.op call = some op ∧
    w.sce.call op = .ok (reply, s') ∧ w' = w.next call reply s' ∧ w'.Base ∧
      Turn w.ledger w.now call reply w'.ledger := by
  obtain ⟨op, reply, s', named, run, rfl⟩ := World.exec_eq_some.mp moves
  obtain ⟨base', reply', same, turn⟩ := World.exec_turn base moves
  have log : (⟨call, reply⟩ : Event) :: w.log = ⟨call, reply'⟩ :: w.log := congrArg World.log same
  obtain rfl : reply = reply' := (Event.mk.inj (List.cons.inj log).1).2
  exact ⟨op, reply, s', named, run, rfl, base', turn⟩

end Iostash
