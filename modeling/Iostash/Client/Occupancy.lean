import Iostash.Client.Tally
import Iostash.Sce.Statistics

/-!
# The occupancy statistics over a run

A population outstanding is counted neither as allocated nor as valid, and its mapping is there already.
So the number of fragments mapped is the allocated ones and the populations outstanding, and the usable
pages are the valid sectors and a whole fragment for each population outstanding, less the pages that reach
past the end of the LUN.
-/

namespace Iostash

/-- The pages of a new mapping that cannot be used because they reach past the end of the LUN. -/
def Volume.cutoff (l : Volume) (f : Nat) : Nat :=
  scePagePerFrag - clearCount (View.tailBad l.nrSctr l.nrFrag f) 0 scePagePerFrag

/-- The part of them that a mapping which is not valid yet will have counted. -/
def Volume.hidden (l : Volume) (f : Nat) (c : Cell) : Nat := if c.valid then 0 else l.cutoff f

/-- What is summed over the mappings of a LUN. -/
inductive Volume.Weighs (l : Volume) : (Nat → Cell → Nat) → Prop
  | one : l.Weighs fun _ _ => 1
  | pages : l.Weighs fun _ => Cell.pages
  | hidden : l.Weighs l.hidden

/-- No page of the fragment reaches past the end of the LUN. -/
def Volume.whole (l : Volume) (f : Nat) : Prop := ∀ p, View.tailBad l.nrSctr l.nrFrag f p = false

/-- The LUN goes with the end of its last request. -/
def Volume.leaves (l : Volume) : Prop := l.waiting = true ∧ l.service = 1

namespace Ledger

/-- The calls that keep the statistics true. A device may go unless a population of a fragment cut off by
the end of the LUN lies on it; nothing is evicted or garbage collected; a population of a fragment cut off
does not succeed, and one that fails finds its mapping with no page invalidated since. -/
def Fair (b : Ledger) : Call → Prop
  | .addlun _ ctx _ => ctx ≠ 0 ∧ ∀ i l, b.view.lun i = some l → l.lunctx ≠ ctx
  | .rmcdev d => ∀ i f c l, b.view.lun i = some l → b.view.cell i f = some c → c.addr.dev = d → c.valid = false →
      l.whole f
  | .put4read id => ∀ r ∈ b.reads, r.id = id → ∀ l c, b.view.lun r.lunidx = some l →
      b.view.cell r.lunidx r.fragnum = some c → c.valid = true → c.service = 1 → c.spent = true → l.leaves
  | .invalidate i x n => b.view.writable i x n → ∀ f c, b.view.cell i f = some c →
      c.goes f (invFrag x * 256 + invOff x) (invCount x n) = false
  | .get4pop _ => (∃ a, b.view.free a) ∨ ∀ i f c, b.view.cell i f = some c → c.service ≠ 0
  | .put4pop id true => ∀ p ∈ b.pops, p.id = id → ∀ i l, b.view.lun i = some l → l.lunctx = p.task.lunctx →
      ∃ c, b.view.cell i p.task.lunFragnum = some c ∧ c.valid = false ∧
        (l.leaves ∨ ∀ q, q < scePagePerFrag → c.bad q = View.tailBad l.nrSctr l.nrFrag p.task.lunFragnum q)
  | .put4pop id false => ∀ p ∈ b.pops, p.id = id → ∀ i l c, b.view.lun i = some l → l.lunctx = p.task.lunctx →
      b.view.cell i p.task.lunFragnum = some c →
        l.leaves ∨ (if c.valid then c.service = 0 → c.spent = false else l.whole p.task.lunFragnum ∧ c.spent = false)
  | _ => True

/-- What a call makes of the two counts of a LUN it leaves. -/
def written (b b' : Ledger) : Call → Reply → Nat → Int × Int → Int × Int
  | .rmcdev d, reply, i, o => b.view.written b'.view (.rmcdev d) reply i o
  | .invalidate j x n, reply, i, o => b.view.written b'.view (.invalidate j x n) reply i o
  | .put4pop id failed, reply, i, o => (b.pops.find? fun p => p.id == id).elim o fun p =>
      b.view.written b'.view (.put4pop p.task failed) reply i o
  | _, _, _, o => o

/-- The counts `o` of LUN `i` fit its mappings and the populations outstanding on it. -/
def Balanced (b : Ledger) (i : Nat) (l : Volume) (o : Int × Int) : Prop :=
  o.1 + b.popsIn l.lunctx = b.view.total i (fun _ _ => 1) ∧
  o.2 + (sceSctrPerFrag * b.popsIn l.lunctx : Nat) =
    (sceSctrPerPage * (b.view.total i (fun _ => Cell.pages) + b.view.total i l.hidden) : Nat)

end Ledger

variable {b b' : Ledger} {now j : Nat} {call : Call} {reply : Reply} {l l' : Volume} {o : Int × Int}

theorem Volume.Same.hidden (same : l'.Same l) : l'.hidden = l.hidden := by
  obtain ⟨_, size, frags⟩ := same
  unfold Volume.hidden Volume.cutoff
  rw [size, frags]

/-- The weights do not look at the requests on a mapping. -/
theorem Volume.Weighs.service {φ : Nat → Cell → Nat} (weighs : l.Weighs φ) (f n : Nat) (c : Cell) :
    φ f { c with service := n } = φ f c := by
  cases weighs <;> rfl

theorem clearCount_none (n : Nat) : clearCount (fun _ => false) 0 n = n := by
  simp [clearCount]

theorem Volume.whole.cutoff {f : Nat} (whole : l.whole f) : l.cutoff f = 0 := by
  unfold Volume.cutoff
  rw [show View.tailBad l.nrSctr l.nrFrag f = fun _ => false from funext whole, clearCount_none, Nat.sub_self]

theorem View.release_leaves {v : View} {i : Nat} (lun : v.lun i = some l) (leaves : l.leaves) :
    (v.release i).lun i = some { l with service := 0 } := by
  rw [View.release, View.setLun_lun, if_pos rfl, lun, Option.map_some, leaves.2]
  rfl

theorem Ledger.written_failed (failed : reply.failed = true) (get : call.isPut = false) :
    b.written b call reply j o = o := by
  cases call with
  | rmcdev d =>
    cases reply with
    | ret r =>
      cases r with
      | success => cases failed
      | error => rfl
    | _ => rfl
  | invalidate i x n => exact Prod.ext rfl (Int.sub_add_cancel _ _)
  | put4pop => cases get
  | _ => rfl

theorem Ledger.Balanced.still (before : b.Balanced j l o) (same : l'.Same l)
    (total : ∀ φ, l.Weighs φ → b'.view.total j φ = b.view.total j φ) (pops : b'.popsIn l.lunctx = b.popsIn l.lunctx) :
    b'.Balanced j l' o := by
  unfold Balanced
  rw [same.1, same.hidden, total _ .one, total _ .pages, total _ .hidden, pops]
  exact before

theorem Ledger.Balanced.ended {p : Pop} {before after : List Pop} {v : View} {i : Nat} (balanced : b.Balanced j l o)
    (split : b.pops = before ++ p :: after) (same : l'.Same l) (ctx : p.task.lunctx = l.lunctx ↔ i = j)
    (total : ∀ φ, l.Weighs φ → v.total j φ = b.view.total j φ) :
    (⟨v, b.reads, before ++ after⟩ : Ledger).Balanced j l'
      (if i = j then o + (1, ((sceSctrPerFrag : Nat) : Int)) else o) := by
  obtain ⟨alloc, valid⟩ := balanced
  have count := Ledger.popsIn_split split v l.lunctx
  unfold Balanced
  rw [same.1, same.hidden]
  simp only [total _ .one, total _ .pages, total _ .hidden]
  rw [count] at alloc valid
  by_cases e : i = j
  · rw [if_pos (ctx.mpr e)] at alloc valid
    rw [if_pos e]
    refine ⟨?_, ?_⟩
    · rw [← alloc]
      show o.1 + 1 + _ = _
      push_cast
      omega
    · rw [← valid]
      show o.2 + (sceSctrPerFrag : Nat) + _ = _
      push_cast
      omega
  · rw [if_neg (mt ctx.mp e)] at alloc valid
    rw [if_neg e]
    exact ⟨alloc, valid⟩

theorem Pop.find_of_split {pops before after : List Pop} {p : Pop} (nodup : (pops.map Pop.id).Nodup)
    (split : pops = before ++ p :: after) : (pops.find? fun q => q.id == p.id) = some p :=
  Pop.find_of_mem nodup (by rw [split]; simp)

theorem Ledger.written_put4pop {p : Pop} {parts rest : List Pop} {failed : Bool} {i : Nat}
    (nodup : (b.pops.map Pop.id).Nodup) (split : b.pops = parts ++ p :: rest)
    (found : b.view.search p.task.lunctx = some i) : b.written b' (.put4pop p.id failed) reply j o =
      if failed = false ∧ i = j then o + (1, ((sceSctrPerFrag : Nat) : Int)) else o := by
  simp only [written, Pop.find_of_split nodup split, Option.elim_some]
  cases failed <;> simp [View.written, found]

theorem View.Named.ctx_iff {v : View} {i ctx : Nat} {m : Volume} (named : v.Named) (present : v.lun i = some m)
    (same : m.lunctx = ctx) (lun : v.lun j = some l) : ctx = l.lunctx ↔ i = j := by
  constructor
  · exact fun e => named.inj i j m l present lun (same.trans e)
  · rintro rfl
    obtain rfl := Option.some.inj (present.symm.trans lun)
    exact same.symm

/-- The end of a population takes nothing from a LUN that stays, if its fragment is spared. -/
theorem View.total_finish {v : View} {i f : Nat} {m : Volume} {φ : Nat → Cell → Nat} (present : v.lun i = some m)
    (inside : f < m.nrFrag) (stays : ((v.release i).collect i f).lun j ≠ none)
    (spared : ∀ c, v.cell i f = some c → c.service = 0 → c.spent = true → m.leaves) :
    ((v.release i).collect i f).total j φ = v.total j φ := by
  have present₁ : (v.release i).lun i = some { m with service := sub32 m.service 1 } := by
    rw [View.release, View.setLun_lun, if_pos rfl, present, Option.map_some]
  have base : (v.release i).total j φ = v.total j φ := View.total_setLun fun _ => rfl
  rw [View.total_collect present₁ inside stays ?_, base]
  rintro c cell idle spent rfl
  have leaves := spared c cell idle spent
  exact absurd (View.collect_gone (View.release_leaves present leaves) leaves.1 rfl) stays

/-- A turn that is fair keeps the balance of a LUN that stays. -/
theorem Turn.balanced (turn : Turn b now call reply b') (sound : b.view.Sound) (named : b.view.Named)
    (owned : b.Owned) (tallied : b.Tallied) (nodup : (b.pops.map Pop.id).Nodup)
    (fair : reply.failed = true ∧ call.isPut = false ∨ b.Fair call) (lun : b.view.lun j = some l)
    (lun' : b'.view.lun j = some l') (before : b.Balanced j l o) : b'.Balanced j l' (b.written b' call reply j o) := by
  have same := turn.same_ctx lun lun'
  have stays : b'.view.lun j ≠ none := by
    rw [lun']
    exact Option.some_ne_none l'
  cases turn with
  | noop failed get =>
    rw [Ledger.written_failed failed get]
    exact before.still same (fun _ _ => rfl) rfl
  | addcdev | putReadFail => exact before.still same (fun _ _ => rfl) rfl
  | @rmcdev d ctx n present =>
    have fair := fair.resolve_left fun no => absurd no.1 Bool.false_ne_true
    obtain ⟨alloc, valid⟩ := before
    have one := View.total_unplug (v := b.view) (i := j) (d := d) (φ := fun _ _ => 1)
    have pages := View.total_unplug (v := b.view) (i := j) (d := d) (φ := fun _ => Cell.pages)
    have hidden := View.total_unplug (v := b.view) (i := j) (d := d) (φ := l.hidden)
    have none : b.view.total j (onDev d l.hidden) = 0 := by
      refine Finset.sum_eq_zero fun f _ => ?_
      cases cell : b.view.cell j f with
      | none => rfl
      | some c =>
        simp only [Option.elim_some, onDev, Volume.hidden]
        split
        · rename_i here
          split
          · rfl
          · rename_i pending
            exact (fair j f c l lun cell here (by simpa using pending)).cutoff
        · rfl
    have same' : l' = l := Option.some.inj (lun'.symm.trans lun)
    subst same'
    refine ⟨?_, ?_⟩
    · show o.1 - _ + (b.popsIn l'.lunctx : Nat) = ((b.view.unplug d).total j _ : Nat)
      omega
    · show o.2 - _ + (sceSctrPerFrag * b.popsIn l'.lunctx : Nat) =
        (sceSctrPerPage * ((b.view.unplug d).total j _ + (b.view.unplug d).total j _) : Nat)
      rw [none, Nat.add_zero] at hidden
      rw [hidden]
      simp only [sceSctrPerPage] at valid ⊢
      omega
  | @addlun m ctx i vmalloc slot absent =>
    have ne : j ≠ i := by
      rintro rfl
      rw [absent] at lun
      cases lun
    refine before.still same (fun _ _ => View.total_congr ?_ fun _ => rfl) rfl
    show (if j = i then _ else b.view.lun j : Option Volume).elim 0 _ = _
    rw [if_neg ne]
  | rmlunWait => exact before.still same (fun _ _ => View.total_setLun fun _ => rfl) rfl
  | @rmlun i m present idle =>
    have ne : j ≠ i := fun e => stays (by rw [e]; exact if_pos rfl)
    refine before.still same (fun _ _ => View.total_congr ?_ fun k => ?_) rfl
    · rw [View.purge_lun, if_neg ne]
    · rw [View.purge_cell, if_neg ne]
  | @readHit i x n =>
    refine before.still same (fun φ weighs => ?_) rfl
    show (b.view.pin i _).total j φ = _
    unfold View.pin
    refine (View.total_setLun ?_).trans (View.total_setCell ?_)
    · exact fun _ => rfl
    · exact fun c _ _ => weighs.service _ _ c
  | @putRead r parts rest split busy =>
    have fair := fair.resolve_left fun no => absurd no.2.symm Bool.false_ne_true
    refine before.still same (fun φ weighs => ?_) rfl
    obtain ⟨m, c, present, _, _, cell, valid, _, _⟩ := busy
    have inside : r.fragnum < m.nrFrag := by
      obtain ⟨m', present', inside⟩ := sound.inside _ _ c cell
      obtain rfl := Option.some.inj (present.symm.trans present')
      exact inside
    change (b.view.unpin r.lunidx r.fragnum).total j φ = _
    have stays : (b.view.unpin r.lunidx r.fragnum).lun j ≠ none := stays
    unfold View.unpin at stays ⊢
    simp only at stays ⊢
    obtain ⟨v, hv⟩ : ∃ v, v = (b.view.setCell r.lunidx r.fragnum fun c => { c with service := c.service - 1 }).setLun
      r.lunidx fun l => { l with service := l.service - 1 } := ⟨_, rfl⟩
    rw [← hv] at stays ⊢
    have base : v.total j φ = b.view.total j φ := by
      rw [hv]
      refine (View.total_setLun ?_).trans (View.total_setCell ?_)
      · exact fun _ => rfl
      · exact fun c _ _ => weighs.service _ _ c
    have present₁ : v.lun r.lunidx = some { m with service := m.service - 1 } := by
      rw [hv, View.setLun_lun, if_pos rfl, View.setCell_lun, present]
      rfl
    split
    · rename_i last
      rw [if_pos last] at stays
      rw [View.total_collect present₁ inside stays ?_, base]
      -- the fragment that would be collected has no usable page, so its LUN goes with it
      rintro c₁ cell₁ _ spent rfl
      rw [hv, View.setLun_cell, View.setCell_cell, if_pos ⟨rfl, rfl⟩] at cell₁
      obtain ⟨c₀, cell₀, rfl⟩ := Option.map_eq_some_iff.mp cell₁
      obtain rfl := Option.some.inj (cell.symm.trans cell₀)
      have one : c.service = 1 := by simpa [show b.view.cell r.lunidx r.fragnum = some c from cell] using last
      obtain ⟨waiting, service⟩ := fair r (by rw [split]; simp) rfl m c present cell valid one spent
      exact absurd (View.collect_gone present₁ waiting (by simp [service])) stays
    · exact base
  | @invalidate i x n m typed writable present bound =>
    have fair := fair.resolve_left fun no => absurd no.1 Bool.false_ne_true
    obtain ⟨alloc, valid⟩ := before
    have same' : l' = l := Option.some.inj (lun'.symm.trans lun)
    subst same'
    have cells : ∀ {φ : Nat → Cell → Nat}, (∀ f c, φ f (c.mark f (invFrag x * 256 + invOff x) (invCount x n)) = φ f c) →
        (b.view.invalidate i (invFrag x * 256 + invOff x) (invCount x n)).total j φ = b.view.total j φ := by
      intro φ blind
      refine View.total_congr rfl fun k => ?_
      by_cases e : j = i
      · subst e
        cases cell : b.view.cell j k with
        | none =>
          show (if j = j then (b.view.cell j k).bind _ else _ : Option Cell).elim 0 _ = _
          rw [if_pos rfl, cell]
          rfl
        | some c =>
          rw [View.invalidate_cell_self cell (fair writable k c cell)]
          exact blind k c
      · rw [View.invalidate_cell_ne e]
    have one := cells (φ := fun _ _ => 1) fun _ _ => rfl
    have hidden := cells (φ := l'.hidden) fun _ _ => rfl
    refine ⟨?_, ?_⟩
    · show o.1 + (b.popsIn l'.lunctx : Nat) = ((b.view.invalidate i _ _).total j _ : Nat)
      rw [one]
      exact alloc
    · show o.2 - _ + _ + (sceSctrPerFrag * b.popsIn l'.lunctx : Nat) =
        (sceSctrPerPage * ((b.view.invalidate i _ _).total j _ + (b.view.invalidate i _ _).total j l'.hidden) : Nat)
      rw [hidden]
      simp only [sceSctrPerPage] at valid ⊢
      omega
  | @pop past i f ctx size a m present active inside empty available dev =>
    have fair := fair.resolve_left fun no => absurd no.1 Bool.false_ne_true
    have free : b.view.free a := by
      rcases available with free | ⟨full, j, k, c, cell, idle, _⟩
      · exact free
      · rcases fair with ⟨a, free⟩ | busy
        · exact absurd free (full a)
        · exact absurd idle (busy j k c cell)
    have cells : ∀ k, (b.view.place i f a m).cell j k =
        if j = i ∧ k = f then some ⟨a, false, 1, View.tailBad m.nrSctr m.nrFrag f⟩ else b.view.cell j k := by
      intro k
      show ((b.view.seize a).enter i f _).cell j k = _
      rw [View.enter_cell]
      split
      · rfl
      · show Option.filter _ (b.view.cell j k) = _
        cases cell : b.view.cell j k with
        | none => rfl
        | some c =>
          have ne : c.addr ≠ a := by
            rintro rfl
            exact sound.apart j k c cell free
          simp [ne]
    have size : ((b.view.place i f a m).lun j).elim 0 Volume.nrFrag = (b.view.lun j).elim 0 Volume.nrFrag := by
      rw [lun]
      exact (congrArg (Option.elim · 0 Volume.nrFrag) lun').trans same.2.2
    by_cases e : j = i
    · subst e
      obtain rfl := Option.some.inj (lun.symm.trans present)
      obtain ⟨alloc, valid⟩ := before
      have more : ∀ φ, (b.view.place j f a l).total j φ =
          b.view.total j φ + φ f ⟨a, false, 1, View.tailBad l.nrSctr l.nrFrag f⟩ := by
        intro φ
        have changed := View.total_at (φ := φ) (ψ := φ) size lun inside fun k ne => by
          rw [cells k, if_neg fun both => ne both.2]
        rw [cells f, if_pos ⟨rfl, rfl⟩, empty] at changed
        exact changed
      have count : (⟨b.view.place j f a l, b.reads, ⟨now, l.lunctx, ctx, f, a.off⟩ :: b.pops⟩ : Ledger).popsIn l.lunctx =
          b.popsIn l.lunctx + 1 := by
        simp [Ledger.popsIn]
      -- the new mapping has the pages that are not cut off
      have page : Cell.pages ⟨a, false, 1, View.tailBad l.nrSctr l.nrFrag f⟩ +
          l.hidden f ⟨a, false, 1, View.tailBad l.nrSctr l.nrFrag f⟩ = scePagePerFrag :=
        Nat.add_sub_cancel' (clearCount_le _ _ _)
      unfold Ledger.Balanced
      rw [same.1, same.hidden, count]
      simp only [more]
      refine ⟨?_, ?_⟩
      · show o.1 + _ = _
        push_cast
        omega
      · show o.2 + _ = _
        simp only [sceSctrPerFrag, sceSctrPerPage, scePagePerFrag] at valid page ⊢
        omega
    · refine before.still same (fun φ _ => View.total_congr size fun k => ?_) ?_
      · show ((b.view.place i f a m).cell j k).elim 0 _ = _
        rw [cells k, if_neg fun both => e both.1]
      · have other : m.lunctx ≠ l.lunctx := fun ctx => e (named.inj j i l m lun present ctx.symm)
        simp [Ledger.popsIn, other]
  | @putPopFail p parts rest failed split fails =>
    have fair := fair.resolve_left fun no => absurd no.2.symm Bool.false_ne_true
    have member : p ∈ b.pops := by rw [split]; simp
    obtain ⟨i, m, present, ctx⟩ := tallied.pops p member
    have found : b.view.search p.task.lunctx = some i := by
      rw [ctx]
      exact named.search_of_lun sound present
    have here := named.ctx_iff present ctx.symm lun
    rw [Ledger.written_put4pop nodup split found]
    cases failed with
    | true =>
      -- a failed population is found
      obtain ⟨c, cell, pending, _⟩ := fair p member rfl i m present ctx.symm
      obtain ⟨one, _⟩ := owned i _ c cell pending
      rw [View.put4pop_ok found cell pending one] at fails
      cases fails
    | false =>
      have ended := before.ended (v := b.view) split same here fun _ _ => rfl
      simpa using ended
  | @complete p parts rest i m c split found present ctx cell pending one =>
    have fair := fair.resolve_left fun no => absurd no.2.symm Bool.false_ne_true
    have good := fair p (by rw [split]; simp) rfl i m c present ctx cell
    rw [pending] at good
    have inside : p.task.lunFragnum < m.nrFrag := by
      obtain ⟨m', present', inside⟩ := sound.inside _ _ c cell
      obtain rfl := Option.some.inj (present.symm.trans present')
      exact inside
    rw [Ledger.written_put4pop nodup split found]
    simp only [true_and]
    refine before.ended split same (named.ctx_iff present ctx lun) fun φ weighs => ?_
    rw [View.total_finish (v := b.view.setCell i p.task.lunFragnum _) present inside stays]
    · refine View.total_setCell fun c₀ cell₀ e => ?_
      subst e
      obtain rfl := Option.some.inj (cell.symm.trans cell₀)
      have whole : m.whole p.task.lunFragnum := by
        rcases good with leaves | ⟨whole, _⟩
        · have present₁ := View.release_leaves
            (v := b.view.setCell j p.task.lunFragnum fun c => { c with valid := true, service := 0 }) present leaves
          exact absurd (View.collect_gone present₁ leaves.1 rfl) stays
        · exact whole
      obtain rfl := Option.some.inj (lun.symm.trans present)
      cases weighs with
      | one | pages => rfl
      | hidden => simp [Volume.hidden, pending, whole.cutoff]
    · intro c₁ cell₁ _ spent
      rw [View.setCell_cell, if_pos ⟨rfl, rfl⟩, cell] at cell₁
      obtain rfl := Option.some.inj cell₁
      rcases good with leaves | ⟨_, alive⟩
      · exact leaves
      · have spent : c.spent = true := spent
        rw [alive] at spent
        cases spent
  | @stale p parts rest i m c split found present ctx cell valid =>
    have fair := fair.resolve_left fun no => absurd no.2.symm Bool.false_ne_true
    have good := fair p (by rw [split]; simp) rfl i m c present ctx cell
    rw [valid] at good
    have inside : p.task.lunFragnum < m.nrFrag := by
      obtain ⟨m', present', inside⟩ := sound.inside _ _ c cell
      obtain rfl := Option.some.inj (present.symm.trans present')
      exact inside
    rw [Ledger.written_put4pop nodup split found]
    simp only [true_and]
    refine before.ended split same (named.ctx_iff present ctx lun) fun φ weighs => ?_
    refine View.total_finish present inside stays ?_
    intro c₁ cell₁ idle spent
    obtain rfl := Option.some.inj (cell.symm.trans cell₁)
    rcases good with leaves | alive
    · exact leaves
    · rw [alive idle] at spent
      cases spent
  | @cancel p parts rest i m c split found present ctx cell pending one =>
    have fair := fair.resolve_left fun no => absurd no.2.symm Bool.false_ne_true
    obtain ⟨c₀, cell₀, _, good⟩ := fair p (by rw [split]; simp) rfl i m present ctx
    obtain rfl := Option.some.inj (cell.symm.trans cell₀)
    have inside : p.task.lunFragnum < m.nrFrag := by
      obtain ⟨m', present', inside⟩ := sound.inside _ _ c cell
      obtain rfl := Option.some.inj (present.symm.trans present')
      exact inside
    have here := named.ctx_iff present ctx lun
    rw [Ledger.written_put4pop nodup split found]
    have stays : (((b.view.drop i p.task.lunFragnum).release i).settle i).lun j ≠ none := stays
    have rest' : ∀ φ, (((b.view.drop i p.task.lunFragnum).release i).settle i).total j φ =
        (b.view.drop i p.task.lunFragnum).total j φ := by
      intro φ
      rw [View.total_settle stays]
      exact View.total_setLun fun _ => rfl
    by_cases e : i = j
    · subst e
      obtain rfl := Option.some.inj (lun.symm.trans present)
      -- the mapping had all the pages it counted
      have page : c.pages + l.hidden p.task.lunFragnum c = scePagePerFrag := by
        rcases good with leaves | clean
        · have present₁ := View.release_leaves (v := b.view.drop i p.task.lunFragnum) lun leaves
          exact absurd (View.settle_gone present₁ leaves.1 rfl) stays
        · have pages : c.pages = clearCount (View.tailBad l.nrSctr l.nrFrag p.task.lunFragnum) 0 scePagePerFrag :=
            clearCount_congr fun q lt => by rw [Nat.zero_add, clean q lt]
          rw [pages, Volume.hidden, pending]
          exact Nat.add_sub_cancel' (clearCount_le _ _ _)
      have one := View.total_drop (φ := fun _ _ => 1) lun inside cell
      have pages := View.total_drop (φ := fun _ => Cell.pages) lun inside cell
      have hidden := View.total_drop (φ := l.hidden) lun inside cell
      obtain ⟨alloc, valid⟩ := before
      rw [Ledger.popsIn_split split b.view l.lunctx, if_pos (here.mpr rfl)] at alloc valid
      unfold Ledger.Balanced
      rw [same.1, same.hidden, if_neg (by simp)]
      simp only [rest']
      refine ⟨?_, ?_⟩
      · show o.1 + ((⟨b.view, b.reads, parts ++ rest⟩ : Ledger).popsIn l.lunctx : Nat) = _
        omega
      · show o.2 + (sceSctrPerFrag * (⟨b.view, b.reads, parts ++ rest⟩ : Ledger).popsIn l.lunctx : Nat) = _
        simp only [sceSctrPerFrag, sceSctrPerPage, scePagePerFrag] at valid page ⊢
        omega
    · have other : ¬ p.task.lunctx = l.lunctx := mt here.mp e
      rw [if_neg fun both => e both.2]
      refine before.still same (fun φ _ => ?_) ?_
      · show (((b.view.drop i p.task.lunFragnum).release i).settle i).total j φ = _
        rw [rest', View.total_drop_ne (Ne.symm e)]
      · have count := Ledger.popsIn_split split b.view l.lunctx
        rw [if_neg other] at count
        exact count.symm

end Iostash
