import Iostash.Block.Store
import Iostash.Client.Settling

/-!
# What has been copied is what the disk holds

A population reads its fragment from the disk into a buffer and writes the buffer to its cache device. At
either end, a sector of it that has not been invalidated since its `sce_get4pop` is as on the disk, and no
write bio is on its way to change that.
-/

namespace Iostash

open Util

variable {i f t q hdd : Nat} {call : Call} {c c' : Cell} {l : Volume}

/-! ### What a call leaves of the mappings -/

namespace World

variable {w w' : World} {reply : Reply}

theorem ask_eq_some : w.ask call = some (reply, w') ↔ w.exec call = some w' ∧ w' = w.next call reply w'.sce := by
  unfold ask
  constructor
  · intro asked
    obtain ⟨w₁, moves, asked⟩ := Option.bind_eq_some_iff.mp asked
    obtain ⟨event, head, asked⟩ := Option.map_eq_some_iff.mp asked
    obtain ⟨rfl, rfl⟩ := Prod.mk.inj asked
    obtain ⟨op, reply, s', _, _, rfl⟩ := exec_eq_some.mp moves
    obtain rfl := Option.some.inj head
    exact ⟨moves, rfl⟩
  · rintro ⟨moves, next⟩
    rw [moves]
    rw [next]
    rfl

/-- A mapping that is there after a call was there before it, and its population has just been completed if it
was not valid then; or it has just been made. -/
theorem Faithful.cell_from (h : w.Faithful) (moves : w.exec call = some w') (cell : w'.sce.view.cell i f = some c') :
    (∃ c, w.sce.view.cell i f = some c ∧ c'.addr = c.addr ∧ w'.born i f = w.born i f ∧ w.born i f < w.now ∧
      (c'.valid = true → c.valid = true ∨ ∃ p ∈ w.pops, call = .put4pop p.id false ∧ w.born i f = p.id)) ∨
    (∃ past, call = .get4pop past) ∧ w'.born i f = w.now ∧ c'.valid = false := by
  obtain ⟨base', reply, next, turn⟩ := exec_turn h.base moves
  have kept : ∀ {c : Cell}, w.sce.view.cell i f = some c → c'.addr = c.addr →
      w'.born i f = w.born i f ∧ w.born i f < w.now := by
    intro c here addr
    obtain ⟨l, lun, _⟩ := h.base.inv.sound.inside i f c here
    obtain ⟨task, n, ⟨past, event⟩, _⟩ := (h.cell i f c l here lun).started
    rw [next]
    exact ⟨born_kept h.base.inv.shape base'.inv.shape here cell addr, event_lt event⟩
  cases turn.cell cell with
  | kept here addr valid =>
    obtain ⟨born, early⟩ := kept here addr
    exact Or.inl ⟨_, here, addr, born, early, fun v => Or.inl (valid ▸ v)⟩
  | marked called ok typed writable present bound here now =>
    subst now
    obtain ⟨born, early⟩ := kept here rfl
    exact Or.inl ⟨_, here, rfl, born, early, Or.inl⟩
  | @completed p c l called ok member present ctx fragnum here pending now =>
    subst now
    obtain ⟨born, early⟩ := kept here rfl
    obtain ⟨_, _, _, own⟩ := (h.pop p member).pending i l present ctx
    rw [fragnum] at own
    exact Or.inl ⟨_, here, rfl, born, early, fun _ => Or.inr ⟨p, member, called, own⟩⟩
  | @mapped past ctx size a l called replied present inside empty dev now =>
    subst now
    refine Or.inr ⟨⟨past, called⟩, ?_, rfl⟩
    rw [next]
    exact born_new h.base.inv.shape base'.inv.shape empty cell

theorem overwritten_mono (moves : w.exec call = some w') (early : t < w.now) {page : Nat}
    (written : w.Overwritten i t page) : w'.Overwritten i t page := by
  obtain ⟨op, reply, s', _, _, rfl⟩ := exec_eq_some.mp moves
  exact (overwritten_next early).mpr (Or.inl written)

theorem Pinned.lun_stays (h : w.Pinned) (roomy : w.Roomy call) (moves : w.exec call = some w')
    (lun : w.sce.view.lun i = some l) (active : l.waiting = false) (kept : call ≠ .rmlun i) :
    ∃ l', w'.sce.view.lun i = some l' ∧ l'.Same l ∧ l'.waiting = false := by
  obtain ⟨_, reply, _, turn⟩ := exec_turn h.founded.base moves
  have lunTurn := turn.lunTurn h.founded.named h.tallied (roomy.ledger h.founded.base) i
  have lun' : w'.ledger.view.lun i = w'.sce.view.lun i := rfl
  rw [show w.ledger.view.lun i = some l from lun, lun'] at lunTurn
  generalize w'.sce.view.lun i = o at lunTurn
  cases lunTurn with
  | still => exact ⟨l, rfl, .refl l, active⟩
  | asked called => exact absurd called kept
  | removed called => exact absurd called kept
  | started => exact ⟨_, rfl, ⟨rfl, rfl, rfl⟩, active⟩
  | ended => exact ⟨_, rfl, ⟨rfl, rfl, rfl⟩, active⟩
  | left _ _ waiting => cases active.symm.trans waiting

/-- A LUN that has just been added is as it was asked for, and nothing of it is mapped. -/
theorem Base.added {m ctx : Nat} {vmalloc : Bool} (base : w.Base) (moves : w.exec (.addlun m ctx vmalloc) = some w')
    (replied : w' = w.next (.addlun m ctx vmalloc) (.hndl (some i)) w'.sce) :
    w'.sce.view.lun i = some ⟨ctx, m, lunFrags m, 0, false⟩ ∧ ∀ f, w'.sce.view.cell i f = none := by
  obtain ⟨op, reply, s', _, _, rfl, base', turn⟩ := exec_run base moves
  have log : (⟨.addlun m ctx vmalloc, reply⟩ : Event) :: w.log = ⟨.addlun m ctx vmalloc, .hndl (some i)⟩ :: w.log :=
    congrArg World.log replied
  obtain rfl : reply = .hndl (some i) := (Event.mk.inj (List.cons.inj log).1).2
  have view : (w.next (.addlun m ctx vmalloc) (.hndl (some i)) s').sce.view = s'.view := rfl
  generalize ledger : (w.next (.addlun m ctx vmalloc) (.hndl (some i)) s').ledger = b' at turn
  have here : b'.view = s'.view := by rw [← ledger]; rfl
  rw [view, ← here]
  cases turn with
  | noop failed => cases failed
  | addlun slot absent pos size =>
    refine ⟨if_pos rfl, fun f => ?_⟩
    cases cell : w.sce.view.cell i f with
    | none => exact cell
    | some c =>
      obtain ⟨l, lun, _⟩ := base.inv.sound.inside i f c cell
      cases lun.symm.trans absent

/-- The pages of a range the LUN accepts are recorded as overwritten. -/
theorem Base.invalidated {x n : Nat} (base : w.Base) (writable : w.sce.view.writable i x n)
    (moves : w.exec (.invalidate i x n) = some w') (early : t < w.now) (low : x ≤ q) (high : q < x + n) :
    w'.Overwritten i t (q / sceSctrPerPage) := by
  obtain ⟨op, reply, s', named, run, rfl⟩ := exec_eq_some.mp moves
  obtain ⟨_, ⟨⟩⟩ := Option.ite_none_right_eq_some.mp named
  obtain ⟨_, effect⟩ := Sce.call_effect base.inv (show (Op.invalidate i x n).Typed from trivial) run
  have ok : reply = .ret .success := by
    generalize s'.view = v' at effect
    cases effect with
    | invalidateFail no => exact absurd writable no
    | invalidate => rfl
  subst ok
  refine ⟨w.now, x, n, early, event_ext.mpr (Or.inr ⟨rfl, rfl⟩), ?_, ?_⟩
  · exact Nat.div_le_div_right low
  · exact Nat.div_le_div_right (by omega)

end World

theorem WriteBio.change_eq_none {b : WriteBio} (outside : ¬ (hdd = b.hdd ∧ b.psn ≤ q ∧ q < b.psn + b.nrSctr)) :
    b.change (hdd, q) = none := if_neg outside

/-! ### The invariant -/

namespace Store

/-- As far as the population of time `t` is, it has what the disk holds at offset `o` of the fragment. -/
def Copied (s : Store) (hdd f o t : Nat) (a : Phys) : Prop :=
  match s.stage t with
  | .asked => True
  | .read fragbuf => s.Quiet hdd (f * sceSctrPerFrag + o) ∧ fragbuf o = s.disk.contents (hdd, f * sceSctrPerFrag + o)
  | .written => s.Quiet hdd (f * sceSctrPerFrag + o) ∧ ∀ ctx n, s.world.sce.view.dev a.dev = some (ctx, n) →
    s.ssd ctx (ssdSector a.off o) = s.disk.contents (hdd, f * sceSctrPerFrag + o)

structure Coherent (s : Store) : Prop where
  pinned : s.world.Pinned
  faithful : s.world.Faithful
  small : ∀ d ctx n, s.world.sce.view.dev d = some (ctx, n) → n < 2 ^ 21
  target : ∀ hdd t, s.targets hdd = some t → ∃ l, s.world.sce.view.lun t.lun = some l ∧ l.lunctx = hdd ∧
    l.waiting = false ∧ t = { hddRegister t.lun l.nrSctr with online := t.online }
  finished : ∀ i f c, s.world.sce.view.cell i f = some c → c.valid = true → (s.stage (s.world.born i f)).done = true
  copied : ∀ hdd t f c o, s.targets hdd = some t → t.online = true → s.world.sce.view.cell t.lun f = some c →
    o < sceSctrPerFrag → f * sceSctrPerFrag + o < t.nrSctr →
    ¬ s.world.Overwritten t.lun (s.world.born t.lun f) ((f * sceSctrPerFrag + o) / sceSctrPerPage) →
    s.Copied hdd f o (s.world.born t.lun f) c.addr

variable {s s' : Store} {contents : Nat × Nat → Sector} {ssd : Nat → Nat → Sector}

theorem Coherent.init : (init contents ssd).Coherent := by
  refine ⟨.init, World.faithful_init, ?_, ?_, ?_, ?_⟩
  · intro d ctx n dev
    cases dev
  · intro hdd t target
    cases target
  · intro i f c cell
    cases cell
  · intro hdd t f c o target
    cases target

/-- A step that makes a call of the engine, and leaves what the disks and devices hold. -/
structure Calls (s : Store) (call : Call) (s' : Store) : Prop where
  moves : s.world.exec call = some s'.world
  contents : s'.disk.contents = s.disk.contents
  ssd : s'.ssd = s.ssd
  stage : ∀ t, t < s.world.now → s'.stage t = s.stage t
  asked : ∀ past, call = .get4pop past → s'.stage s.world.now = .asked
  done : ∀ id, call = .put4pop id false → (s.stage id).done = true
  quiet : ∀ hdd t q, s'.targets hdd = some t → t.online = true → s.Quiet hdd q →
    s'.Quiet hdd q ∨ ∀ u, u < s.world.now → s'.world.Overwritten t.lun u (q / sceSctrPerPage)
  target : ∀ hdd t, s'.targets hdd = some t → t.online = true →
    s.targets hdd = some t ∨ ∀ f, s'.world.sce.view.cell t.lun f = none

theorem Copied.carried {o : Nat} {a : Phys} {n : Nat} {ctx : Nat} (copied : s.Copied hdd f o t a)
    (stage : s'.stage t = s.stage t) (quiet : s.Quiet hdd (f * sceSctrPerFrag + o) → s'.Quiet hdd (f * sceSctrPerFrag + o))
    (contents : s'.disk.contents = s.disk.contents) (ssd : s'.ssd = s.ssd)
    (dev : s.world.sce.view.dev a.dev = some (ctx, n)) (dev' : s'.world.sce.view.dev a.dev = some (ctx, n)) :
    s'.Copied hdd f o t a := by
  unfold Copied at copied ⊢
  rw [stage, contents, ssd]
  cases at_ : s.stage t with
  | asked => trivial
  | read fragbuf =>
    rw [at_] at copied
    exact ⟨quiet copied.1, copied.2⟩
  | written =>
    rw [at_] at copied
    refine ⟨quiet copied.1, fun ctx₀ n₀ dev₀ => copied.2 ctx₀ n₀ ?_⟩
    rw [dev, ← dev', dev₀]

theorem Coherent.calls (h : s.Coherent) (calls : Calls s call s') (ok : s.world.Pinning call)
    (orderly : s.world.Orderly call)
    (small : ∀ m ctx vmalloc, call = .addcdev m ctx vmalloc → m < 2 ^ 32)
    (target : ∀ hdd t, s'.targets hdd = some t → ∃ l, s'.world.sce.view.lun t.lun = some l ∧ l.lunctx = hdd ∧
      l.waiting = false ∧ t = { hddRegister t.lun l.nrSctr with online := t.online }) : s'.Coherent := by
  obtain ⟨base', reply, _, turn⟩ := World.exec_turn h.faithful.base calls.moves
  refine ⟨h.pinned.next ok calls.moves, h.faithful.step orderly calls.moves, ?_, target, ?_, ?_⟩
  · intro d ctx n dev
    rcases turn.dev dev with old | ⟨_, m, ctx', vmalloc, called, new⟩
    · exact h.small d ctx n old
    · obtain ⟨_, rfl⟩ := Prod.mk.inj new
      have lt := small m ctx' vmalloc called
      rw [u32_of_lt (Nat.lt_of_le_of_lt (Nat.div_le_self _ _) lt)]
      simp only [sceSctrPerFrag]
      omega
  · intro i f c' cell' valid'
    rcases h.faithful.cell_from calls.moves cell' with ⟨c, cell, _, born, early, valid⟩ | ⟨_, _, pending⟩
    · rw [born, calls.stage _ early]
      rcases valid valid' with before | ⟨p, _, called, own⟩
      · exact h.finished i f c cell before
      · rw [own]
        exact calls.done p.id called
    · cases pending.symm.trans valid'
  · intro hdd t f c' o target' online cell' ho inside clean
    rcases h.faithful.cell_from calls.moves cell' with ⟨c, cell, addr, born, early, _⟩ | ⟨⟨past, called⟩, born, _⟩
    · rcases calls.target hdd t target' online with target | empty
      · rw [born] at clean ⊢
        have before := h.copied hdd t f c o target online cell ho inside
          fun written => clean (World.overwritten_mono calls.moves early written)
        obtain ⟨_, ctx, n, dev, _⟩ := h.faithful.base.inv.sound.there t.lun f c cell
        obtain ⟨_, ctx', n', dev', _⟩ := base'.inv.sound.there t.lun f c' cell'
        obtain ⟨rfl, rfl⟩ := Prod.mk.inj (World.sameDev turn dev (addr ▸ dev'))
        rw [addr]
        refine before.carried (calls.stage _ early) (fun quiet => ?_) calls.contents calls.ssd dev (addr ▸ dev')
        rcases calls.quiet hdd t _ target' online quiet with still | written
        · exact still
        · exact absurd (written _ early) clean
      · cases (empty f).symm.trans cell'
    · have stage := calls.asked past called
      unfold Copied
      rw [born, stage]
      trivial

/-! ### Calls -/

theorem Coherent.target_call {w' : World} (h : s.Coherent) (roomy : s.world.Roomy call)
    (moves : s.world.exec call = some w') {t : Target} (target : s.targets hdd = some t) (kept : call ≠ .rmlun t.lun) :
    ∃ l, w'.sce.view.lun t.lun = some l ∧ l.lunctx = hdd ∧ l.waiting = false ∧
      t = { hddRegister t.lun l.nrSctr with online := t.online } := by
  obtain ⟨l, lun, ctx, active, same⟩ := h.target hdd t target
  obtain ⟨l', lun', same', active'⟩ := h.pinned.lun_stays roomy moves lun active kept
  refine ⟨l', lun', same'.1.trans ctx, active', ?_⟩
  rw [same'.2.1]
  exact same

/-- A call other than a removal of a LUN. -/
theorem Coherent.same (h : s.Coherent) (moves : s.world.exec call = some s'.world) (ok : s.world.Pinning call)
    (orderly : s.world.Orderly call) (small : ∀ m ctx vmalloc, call = .addcdev m ctx vmalloc → m < 2 ^ 32)
    (kept : ∀ i, call ≠ .rmlun i) (contents : s'.disk.contents = s.disk.contents) (ssd : s'.ssd = s.ssd)
    (targets : s'.targets = s.targets) (writes : s'.writes = s.writes)
    (stage : ∀ t, t < s.world.now → s'.stage t = s.stage t)
    (asked : ∀ past, call = .get4pop past → s'.stage s.world.now = .asked)
    (done : ∀ id, call = .put4pop id false → (s.stage id).done = true) : s'.Coherent := by
  refine h.calls ⟨moves, contents, ssd, stage, asked, done, ?_, ?_⟩ ok orderly small ?_
  · intro hdd t q target online quiet
    apply Or.inl
    rw [Quiet, writes]
    exact quiet
  · intro hdd t target online
    exact Or.inl (targets ▸ target)
  · intro hdd t target
    exact h.target_call ok.2.1 moves (targets ▸ target) (kept _)

/-- A step that makes no call. -/
theorem Coherent.quiescent (h : s.Coherent) (world : s'.world = s.world) (targets : s'.targets = s.targets)
    (finished : ∀ i f c, s.world.sce.view.cell i f = some c → c.valid = true →
      (s'.stage (s.world.born i f)).done = true)
    (copied : ∀ hdd t f c o, s.targets hdd = some t → t.online = true → s.world.sce.view.cell t.lun f = some c →
      o < sceSctrPerFrag → f * sceSctrPerFrag + o < t.nrSctr →
      ¬ s.world.Overwritten t.lun (s.world.born t.lun f) ((f * sceSctrPerFrag + o) / sceSctrPerPage) →
      s'.Copied hdd f o (s.world.born t.lun f) c.addr) : s'.Coherent := by
  refine ⟨world ▸ h.pinned, world ▸ h.faithful, ?_, ?_, ?_, ?_⟩
  · rw [world]
    exact h.small
  · rw [world, targets]
    exact h.target
  · rw [world]
    exact finished
  · rw [world, targets]
    exact copied

/-! ### Bios that write -/

theorem Quiet.add {b : WriteBio} (quiet : s.Quiet hdd q) (writes : s'.writes = b :: s.writes)
    (apart : b.change (hdd, q) = none) : s'.Quiet hdd q := by
  intro b' member flying
  rw [writes] at member
  rcases List.mem_cons.mp member with rfl | old
  · exact apart
  · exact quiet b' old flying

theorem Copied.still {o : Nat} {a : Phys} (copied : s.Copied hdd f o t a) (world : s'.world = s.world)
    (stage : s'.stage t = s.stage t) (quiet : s.Quiet hdd (f * sceSctrPerFrag + o) → s'.Quiet hdd (f * sceSctrPerFrag + o))
    (contents : s.Quiet hdd (f * sceSctrPerFrag + o) →
      s'.disk.contents (hdd, f * sceSctrPerFrag + o) = s.disk.contents (hdd, f * sceSctrPerFrag + o))
    (ssd : s.stage t = .written → ∀ ctx n, s.world.sce.view.dev a.dev = some (ctx, n) →
      s'.ssd ctx (ssdSector a.off o) = s.ssd ctx (ssdSector a.off o)) : s'.Copied hdd f o t a := by
  unfold Copied at copied ⊢
  rw [stage, world]
  cases at_ : s.stage t with
  | asked => trivial
  | read fragbuf =>
    rw [at_] at copied
    exact ⟨quiet copied.1, copied.2.trans (contents copied.1).symm⟩
  | written =>
    rw [at_] at copied
    refine ⟨quiet copied.1, fun ctx n dev => ?_⟩
    rw [ssd at_ ctx n dev, copied.2 ctx n dev, contents copied.1]

theorem Coherent.write {bio : Bio} {data : Nat → Sector} (h : s.Coherent)
    (ok : s.Careful (.write hdd bio data)) (moves : s.exec (.write hdd bio data) = some s') : s'.Coherent := by
  obtain ⟨w', passes, rfl⟩ := Option.map_eq_some_iff.mp moves
  obtain ⟨b, hb⟩ : ∃ b : WriteBio, b = ⟨hdd, bio.psn, bio.nrSctr, data, s.disk.now, none, none⟩ := ⟨_, rfl⟩
  rw [← hb]
  -- a bio that is passed on as it came changes nothing a target that is online has cached
  have passed : s.world = w' → (∀ hdd' t q, s.targets hdd' = some t → t.online = true → b.change (hdd', q) = none) →
      Coherent { s with world := w', disk := s.disk.tick, writes := b :: s.writes } := by
    rintro rfl apart
    refine h.quiescent rfl rfl h.finished ?_
    intro hdd' t f c o target online cell ho inside clean
    refine (h.copied hdd' t f c o target online cell ho inside clean).still rfl rfl ?_ (fun _ => ?_) fun _ _ _ _ => rfl
    · exact fun quiet => quiet.add rfl (apart hdd' t _ target online)
    · exact congrFun History.tick_contents _
  cases target : s.targets hdd with
  | none =>
    rw [target] at passes
    refine passed (Option.some.inj passes) fun hdd' t q target' _ => WriteBio.change_eq_none ?_
    rintro ⟨rfl, _⟩
    rw [hb, target] at target'
    cases target'
  | some t =>
    rw [target] at passes
    have passes : s.world.mkrequestWrite t bio = some w' := passes
    obtain ⟨l, lun, ctx, active, same⟩ := h.target hdd t target
    cases online : t.online with
    | false =>
      rw [World.mkrequestWrite, if_pos online] at passes
      refine passed (Option.some.inj passes) fun hdd' t' q target' online' => WriteBio.change_eq_none ?_
      rintro ⟨rfl, _⟩
      rw [hb] at target'
      obtain rfl := Option.some.inj (target.symm.trans target')
      cases online.symm.trans online'
    | true =>
      rcases Nat.eq_zero_or_pos bio.nrSctr with empty | pos
      · rw [World.mkrequestWrite, if_neg (by simp [online]), if_pos empty] at passes
        refine passed (Option.some.inj passes) fun hdd' t' q _ _ => WriteBio.change_eq_none ?_
        rintro ⟨_, low, high⟩
        rw [hb] at low high
        simp only at low high
        omega
      · have before := ok t target online
        have size : t.nrSctr = l.nrSctr := by
          rw [same]
          rfl
        have limit := h.faithful.size t.lun l lun
        obtain ⟨l₀, there, rfl⟩ := Option.map_eq_some_iff.mp (Sce.view_lun ▸ lun)
        have registered : t = hddRegister t.lun l₀.nrSctr := by
          rw [same, online]
          rfl
        have sctrs : l₀.volume.nrSctr = l₀.nrSctr := rfl
        rw [sctrs] at size limit
        have request : s.world.exec (.invalidate t.lun bio.psn bio.nrSctr) = some w' := by
          have eq := World.mkrequestWrite_eq (w := s.world) (i := t.lun) (l := l₀) pos (by omega) (by omega)
          rw [if_pos (by omega), ← registered, passes] at eq
          exact eq.symm
        have writable : s.world.sce.view.writable t.lun bio.psn bio.nrSctr := by
          refine ⟨l₀.volume, lun, active, Nat.pos_iff_ne_zero.mp pos, ?_⟩
          rw [u64_of_lt (by omega)]
          exact (by omega : bio.psn + bio.nrSctr ≤ l₀.nrSctr)
        refine h.calls ⟨request, History.tick_contents, rfl, fun _ _ => rfl, ?_, ?_, ?_, fun _ _ target' _ => Or.inl target'⟩
          ⟨trivial, fun get => ?_, trivial⟩ trivial ?_ ?_
        · intro past called
          cases called
        · intro id called
          cases called
        · intro hdd' t' q target' online' quiet
          by_cases covers : hdd' = b.hdd ∧ b.psn ≤ q ∧ q < b.psn + b.nrSctr
          · obtain ⟨rfl, low, high⟩ := covers
            rw [hb] at low high target'
            obtain rfl := Option.some.inj (target.symm.trans target')
            exact Or.inr fun u early => h.faithful.base.invalidated writable request early low high
          · exact Or.inl (quiet.add rfl (WriteBio.change_eq_none covers))
        · cases get
        · intro m ctx' vmalloc called
          cases called
        · intro hdd' t' target'
          exact h.target_call (fun get => by cases get) request target' (by simp)

theorem Coherent.land {id : Nat} (h : s.Coherent) (moves : s.exec (.land id) = some s') : s'.Coherent := by
  obtain ⟨b, found, rfl⟩ := Option.map_eq_some_iff.mp moves
  obtain ⟨before, after, split, rest⟩ := find_split found
  have flying : b.landed = none := by
    have here := List.find?_some found
    simp only [Bool.and_eq_true, Option.isNone_iff_eq_none] at here
    exact here.2
  refine h.quiescent rfl rfl h.finished ?_
  intro hdd t f c o target online cell ho inside clean
  refine (h.copied hdd t f c o target online cell ho inside clean).still rfl rfl ?_ ?_ fun _ _ _ _ => rfl
  · intro quiet b' member flying'
    rcases List.mem_cons.mp member with rfl | old
    · cases flying'
    · exact quiet b' (List.mem_of_mem_eraseP old) flying'
  · intro quiet
    exact History.update_contents_none (quiet b (List.mem_of_find?_eq_some found) flying)

theorem Coherent.endWrite {id : Nat} (h : s.Coherent) (moves : s.exec (.endWrite id) = some s') : s'.Coherent := by
  obtain ⟨b, found, rfl⟩ := Option.map_eq_some_iff.mp moves
  have landed := List.find?_some found
  simp only [Bool.and_eq_true, Option.isSome_iff_ne_none] at landed
  refine h.quiescent rfl rfl h.finished ?_
  intro hdd t f c o target online cell ho inside clean
  refine (h.copied hdd t f c o target online cell ho inside clean).still rfl rfl ?_ (fun _ => ?_) fun _ _ _ _ => rfl
  · intro quiet b' member flying
    rcases List.mem_cons.mp member with rfl | old
    · exact absurd flying landed.1.2
    · exact quiet b' (List.mem_of_mem_eraseP old) flying
  · exact congrFun History.tick_contents _

/-! ### Populations -/

/-- The mapping of a population outstanding, and the place of it on its device. -/
theorem Coherent.population {p : Pop} (h : s.Coherent) (member : p ∈ s.world.pops) : ∃ i l c n,
    s.world.sce.view.lun i = some l ∧ p.task.lunctx = l.lunctx ∧
    s.world.sce.view.cell i p.task.lunFragnum = some c ∧ c.valid = false ∧ s.world.born i p.task.lunFragnum = p.id ∧
    s.world.sce.view.dev c.addr.dev = some (p.task.cdevctx, n) ∧ p.task.cdevFragnum = c.addr.off ∧
    p.task.cdevFragnum < 2 ^ 21 - 1 := by
  obtain ⟨i, l, lun, ctx⟩ := h.pinned.tallied.pops p member
  have faithful := h.faithful.pop p member
  obtain ⟨c, cell, pending, born⟩ := faithful.pending i l lun ctx.symm
  obtain ⟨task, n, started, _, _, dev, off⟩ := (h.faithful.cell i _ c l cell lun).started
  rw [born] at started
  obtain rfl := World.started_unique started faithful.started
  have small : p.task.cdevFragnum < 2 ^ 21 - 1 := by
    obtain ⟨_, _, n', dev', lt⟩ := h.faithful.base.inv.sound.there _ _ c cell
    have limit := h.small _ _ _ dev
    obtain ⟨_, rfl⟩ := Prod.mk.inj (Option.some.inj (dev.symm.trans dev'))
    rw [off]
    omega
  exact ⟨i, l, c, n, lun, ctx, cell, pending, born, dev, off, small⟩

theorem Coherent.poptaskRead {id : Nat} {fragbuf : Nat → Sector} (h : s.Coherent)
    (ok : s.Careful (.poptaskRead id fragbuf)) (moves : s.exec (.poptaskRead id fragbuf) = some s') : s'.Coherent := by
  obtain ⟨p, found, moves⟩ := Option.bind_eq_some_iff.mp moves
  obtain ⟨t₀, target₀, moves⟩ := Option.bind_eq_some_iff.mp moves
  obtain ⟨buf, read, rfl⟩ := Option.map_eq_some_iff.mp moves
  have member := List.mem_of_find?_eq_some found
  have id_eq : p.id = id := by simpa using List.find?_some found
  subst id_eq
  refine h.quiescent rfl rfl ?_ ?_
  · intro i f c cell valid
    have other : s.world.born i f ≠ p.id := fun own => by
      obtain ⟨l, lun, _⟩ := h.faithful.base.inv.sound.inside i f c cell
      obtain ⟨_, _, pending⟩ := h.faithful.own member cell lun own
      cases pending.symm.trans valid
    simp only [Function.update_of_ne other]
    exact h.finished i f c cell valid
  · intro hdd t f c o target online cell ho inside clean
    by_cases own : s.world.born t.lun f = p.id
    · obtain ⟨l, lun, ctx, active, same⟩ := h.target hdd t target
      obtain ⟨ctx', rfl, pending⟩ := h.faithful.own member cell lun own
      rw [own] at clean ⊢
      obtain rfl : p.task.lunctx = hdd := ctx'.trans ctx
      obtain rfl := Option.some.inj (target₀.symm.trans target)
      have quiet : s.Quiet p.task.lunctx (p.task.lunFragnum * sceSctrPerFrag + o) := by
        refine (ok p member rfl _ target _ ?_).resolve_right clean
        simp only [sceSctrPerFrag] at ho ⊢
        omega
      have copy : buf o = s.disk.contents (p.task.lunctx, p.task.lunFragnum * sceSctrPerFrag + o) := by
        have limit := h.faithful.size _ l lun
        have size : t₀.nrSctr = l.nrSctr := by rw [same]; rfl
        rw [← size] at limit
        have starts : p.task.lunFragnum * sceSctrPerFrag < t₀.nrSctr := Nat.lt_of_le_of_lt (Nat.le_add_right _ _) inside
        have small : p.task.lunFragnum < 2 ^ 21 := by
          simp only [sceSctrPerFrag] at starts
          omega
        have asked : o < (poptaskReadRegion t₀.nrSctr p.task.lunFragnum).count := by
          rw [poptaskReadRegion_count small starts (Nat.lt_trans limit (by decide))]
          exact Nat.lt_min.mpr ⟨ho, Nat.lt_sub_of_add_lt ((Nat.add_comm _ _).trans_lt inside)⟩
        rw [poptaskRead_apply read asked, poptaskReadRegion_sector small]
        show s.disk.contents (_, 0 + _) = _
        rw [Nat.zero_add]
      unfold Copied
      simp only [Function.update_self]
      exact ⟨quiet, copy.trans (congrFun History.tick_contents _).symm⟩
    · refine (h.copied hdd t f c o target online cell ho inside clean).still rfl ?_ (fun quiet => quiet) (fun _ => ?_)
        fun _ _ _ _ => rfl
      · exact Function.update_of_ne own _ _
      · exact congrFun History.tick_contents _

/-- A population writes to its own fragment of its device only. -/
theorem poptaskWrite_apart {bdev bdev' buf : Nat → Sector} {k o : Nat} (write : poptaskWrite true true bdev f buf = some bdev')
    (small : f < 2 ^ 21 - 1) (ho : o < sceSctrPerFrag) (apart : k ≠ f) : bdev' (ssdSector k o) = bdev (ssdSector k o) := by
  obtain rfl := Option.some.inj write
  apply if_neg
  have start := poptaskWriteRegion_sector (c := f) (by omega)
  have size : (poptaskWriteRegion f).count = sceSctrPerFrag := rfl
  rw [start, size]
  simp only [ssdSector, iostashHeaderSct, sceSctrPerFrag] at ho ⊢
  omega

theorem Coherent.poptaskWrite {id : Nat} (h : s.Coherent) (moves : s.exec (.poptaskWrite id) = some s') : s'.Coherent := by
  obtain ⟨p, found, moves⟩ := Option.bind_eq_some_iff.mp moves
  have member := List.mem_of_find?_eq_some found
  have id_eq : p.id = id := by simpa using List.find?_some found
  subst id_eq
  cases stage : s.stage p.id with
  | asked | written =>
    rw [stage] at moves
    cases moves
  | read buf =>
    rw [stage] at moves
    obtain ⟨bdev, write, rfl⟩ := Option.map_eq_some_iff.mp moves
    obtain ⟨i, l, c₀, n, lun, ctx, cell₀, pending, born, dev₀, off, small⟩ := h.population member
    have sound := h.faithful.base.inv.sound
    refine h.quiescent rfl rfl ?_ ?_
    · intro i f c cell valid
      by_cases own : s.world.born i f = p.id
      · simp only [own, Function.update_self]
        rfl
      · simp only [Function.update_of_ne own]
        exact h.finished i f c cell valid
    · intro hdd t f c o target online cell ho inside clean
      have before := h.copied hdd t f c o target online cell ho inside clean
      by_cases own : s.world.born t.lun f = p.id
      · obtain ⟨l', lun', ctx', _⟩ := h.target hdd t target
        obtain ⟨ctx₁, fragnum, _⟩ := h.faithful.own member cell lun' own
        obtain rfl := h.pinned.founded.named.inj _ _ _ _ lun lun' (ctx.symm.trans ctx₁)
        rw [← fragnum] at cell before ⊢
        obtain rfl := Option.some.inj (cell₀.symm.trans cell)
        unfold Copied at before ⊢
        rw [born] at before ⊢
        rw [stage] at before
        simp only [Function.update_self]
        refine ⟨before.1, fun ctx₂ n₂ dev₂ => ?_⟩
        obtain ⟨rfl, _⟩ := Prod.mk.inj (Option.some.inj (dev₀.symm.trans dev₂))
        rw [Function.update_self, ← off]
        have here := poptaskWrite_apply write ho
        rw [poptaskWriteRegion_sector (by omega)] at here
        exact here.trans (before.2.trans (congrFun History.tick_contents _).symm)
      · refine before.still rfl (Function.update_of_ne own _ _) (fun quiet => quiet)
          (fun _ => congrFun History.tick_contents _) fun _ ctx₂ n₂ dev₂ => ?_
        by_cases e : ctx₂ = p.task.cdevctx
        · subst e
          refine (congrFun (Function.update_self _ _ _) _).trans (poptaskWrite_apart write small ho fun same => own ?_)
          -- two mappings to one place of one device are the same mapping
          have slot := h.faithful.base.inv.shape.devices.unique _ _ _ _ _ dev₂ dev₀
          have addr : c.addr = c₀.addr := congrArg₂ Phys.mk slot (same.trans off)
          obtain ⟨rfl, rfl⟩ := sound.inj _ _ _ _ _ _ cell cell₀ addr.symm
          exact born
        · exact congrFun (Function.update_of_ne e _ _) _

/-! ### Targets -/

theorem Coherent.register {nrSctr : Nat} {vmalloc : Bool} (h : s.Coherent)
    (ok : s.Careful (.register hdd nrSctr vmalloc)) (moves : s.exec (.register hdd nrSctr vmalloc) = some s') :
    s'.Coherent := by
  obtain ⟨⟨reply, w'⟩, asked, rfl⟩ := Option.map_eq_some_iff.mp moves
  obtain ⟨called, next⟩ := World.ask_eq_some.mp asked
  obtain ⟨small, ctx, fresh, unused⟩ := ok
  have pinning : s.world.Pinning (.addlun nrSctr hdd vmalloc) := ⟨⟨ctx, fresh⟩, (fun get => by cases get), trivial⟩
  have orderly : s.world.Orderly (.addlun nrSctr hdd vmalloc) := ⟨small, ctx, fresh, unused⟩
  have others : ∀ hdd' t, s.targets hdd' = some t → ∃ l, w'.sce.view.lun t.lun = some l ∧ l.lunctx = hdd' ∧
      l.waiting = false ∧ t = { hddRegister t.lun l.nrSctr with online := t.online } :=
    fun hdd' t target => h.target_call (fun get => by cases get) called target (by simp)
  by_cases added : ∃ i, reply = .hndl (some i)
  · obtain ⟨i, rfl⟩ := added
    obtain ⟨lun, empty⟩ := h.faithful.base.added called next
    refine h.calls ⟨called, History.tick_contents, rfl, fun _ _ => rfl, ?_, ?_, ?_, ?_⟩ pinning orderly ?_ ?_
    · intro past e
      cases e
    · intro id e
      cases e
    · exact fun hdd' t q _ _ quiet => Or.inl quiet
    · intro hdd' t target online
      by_cases e : hdd' = hdd
      · subst e
        simp only [Function.update_self, Option.some.injEq] at target
        subst target
        exact Or.inr empty
      · simp only [Function.update_of_ne e] at target
        exact Or.inl target
    · intro m ctx' vmalloc' e
      cases e
    · intro hdd' t target
      by_cases e : hdd' = hdd
      · subst e
        simp only [Function.update_self, Option.some.injEq] at target
        subst target
        exact ⟨_, lun, rfl, rfl, rfl⟩
      · simp only [Function.update_of_ne e] at target
        exact others hdd' t target
  · refine h.same called pinning orderly (by simp) (by simp) History.tick_contents rfl ?_ rfl (fun _ _ => rfl)
      (by simp) (by simp)
    cases reply with
    | hndl o =>
      cases o with
      | none => rfl
      | some i => exact absurd ⟨i, rfl⟩ added
    | _ => rfl

theorem Coherent.offline (h : s.Coherent) (moves : s.exec (.offline hdd) = some s') : s'.Coherent := by
  obtain rfl := Option.some.inj moves
  have earlier : ∀ hdd' t, Function.update s.targets hdd ((s.targets hdd).map fun t => { t with online := false })
      hdd' = some t → ∃ t₀, s.targets hdd' = some t₀ ∧ t₀.lun = t.lun ∧ t = { t₀ with online := t.online } ∧
        (t.online = true → t = t₀) := by
    intro hdd' t target
    by_cases e : hdd' = hdd
    · subst e
      rw [Function.update_self] at target
      obtain ⟨t₀, here, rfl⟩ := Option.map_eq_some_iff.mp target
      exact ⟨t₀, here, rfl, rfl, fun online => by cases online⟩
    · rw [Function.update_of_ne e] at target
      exact ⟨t, target, rfl, rfl, fun _ => rfl⟩
  refine ⟨h.pinned, h.faithful, h.small, ?_, h.finished, ?_⟩
  · intro hdd' t target
    obtain ⟨t₀, here, same, eq, _⟩ := earlier hdd' t target
    obtain ⟨l, lun, ctx, active, eq₀⟩ := h.target hdd' t₀ here
    refine ⟨l, same ▸ lun, ctx, active, eq.trans ?_⟩
    rw [← same]
    exact congrArg (fun t₁ : Target => { t₁ with online := t.online }) eq₀
  · intro hdd' t f c o target online cell ho inside clean
    obtain ⟨t₀, here, _, _, same⟩ := earlier hdd' t target
    obtain rfl := same online
    refine (h.copied hdd' t f c o here online cell ho inside clean).still rfl rfl (fun quiet => quiet) (fun _ => ?_)
      fun _ _ _ _ => rfl
    exact congrFun History.tick_contents _

theorem Coherent.rmlun (h : s.Coherent) (moves : s.exec (.rmlun hdd) = some s') : s'.Coherent := by
  obtain ⟨t₀, target₀, moves⟩ := Option.bind_eq_some_iff.mp moves
  obtain ⟨w', called, rfl⟩ := Option.map_eq_some_iff.mp moves
  obtain ⟨l₀, lun₀, ctx₀, _⟩ := h.target hdd t₀ target₀
  have earlier : ∀ hdd' t, Function.update s.targets hdd none hdd' = some t → s.targets hdd' = some t ∧ hdd' ≠ hdd := by
    intro hdd' t target
    have e : hdd' ≠ hdd := by
      rintro rfl
      rw [Function.update_self] at target
      cases target
    rw [Function.update_of_ne e] at target
    exact ⟨target, e⟩
  refine h.calls ⟨called, History.tick_contents, rfl, fun _ _ => rfl, ?_, ?_, ?_, ?_⟩
    ⟨trivial, (fun get => by cases get), trivial⟩ trivial ?_ ?_
  · intro past e
    cases e
  · intro id e
    cases e
  · exact fun hdd' t q _ _ quiet => Or.inl quiet
  · exact fun hdd' t target _ => Or.inl (earlier hdd' t target).1
  · intro m ctx vmalloc e
    cases e
  · intro hdd' t target
    obtain ⟨here, other⟩ := earlier hdd' t target
    refine h.target_call (fun get => by cases get) called here fun e => other ?_
    obtain ⟨l, lun, ctx, _⟩ := h.target hdd' t here
    rw [← Call.rmlun.inj e, lun₀] at lun
    obtain rfl := Option.some.inj lun
    exact ctx.symm.trans ctx₀

end Store

end Iostash
