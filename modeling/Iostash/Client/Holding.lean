import Iostash.Client.Contexts

/-!
# Reads and the mappings they hold

The service count of a mapping that is valid is changed by its reads only. A read is live while the cache
device it was served from stays; a live read finds the mapping it was served from, in use, if reads that are
not live give nothing back there.
-/

namespace Iostash

open Util

namespace Ledger

/-- The live reads on fragment `f` of LUN `i`. -/
def readsOn (b : Ledger) (live : Read → Bool) (i f : Nat) : Nat :=
  b.reads.countP fun r => (r.lunidx == i && r.fragnum == f) && live r

variable {b b' : Ledger} {v : View} {live live' : Read → Bool} {r : Read} {i f : Nat} {c : Cell} {before after : List Read}

theorem readsOn_pos (member : r ∈ b.reads) (lives : live r = true) : 0 < b.readsOn live r.lunidx r.fragnum :=
  List.countP_pos_iff.mpr ⟨r, member, by simp [lives]⟩

theorem readsOn_mono (less : ∀ r ∈ b.reads, live' r = true → live r = true) (i f : Nat) :
    b.readsOn live' i f ≤ b.readsOn live i f :=
  List.countP_mono_left fun r member on => by
    simp only [Bool.and_eq_true] at on ⊢
    exact ⟨on.1, less r member on.2⟩

theorem readsOn_cons (new : b'.reads = r :: b.reads) (live : Read → Bool) (i f : Nat) :
    b'.readsOn live i f = b.readsOn live i f + if r.lunidx = i ∧ r.fragnum = f ∧ live r = true then 1 else 0 := by
  simp only [readsOn, new, List.countP_cons, Bool.and_eq_true, beq_iff_eq, and_assoc]

theorem readsOn_split (split : b.reads = before ++ r :: after) (rest : b'.reads = before ++ after) (live : Read → Bool)
    (i f : Nat) : b.readsOn live i f =
      b'.readsOn live i f + if r.lunidx = i ∧ r.fragnum = f ∧ live r = true then 1 else 0 := by
  simp only [readsOn, split, rest, List.countP_append, List.countP_cons, Bool.and_eq_true, beq_iff_eq, and_assoc]
  omega

end Ledger

variable {b b' : Ledger} {now j k : Nat} {call : Call} {reply : Reply} {c c' : Cell} {r : Read}

/-- What a mapping that is valid after a turn was before it, with the reads on it. -/
inductive ServiceFrom (b b' : Ledger) (now : Nat) (call : Call) (j k : Nat) (c' : Cell) : Prop
  | completed {c : Cell} (cell : b.view.cell j k = some c) (pending : c.valid = false) (idle : c'.service = 0)
      (reads : b'.reads = b.reads)
  | kept {c : Cell} (cell : b.view.cell j k = some c) (valid : c.valid = true) (same : c'.service = c.service)
      (fewer : ∀ live, b'.readsOn live j k ≤ b.readsOn live j k)
      (exact : (∀ r ∈ b.reads, call = .put4read r.id → b.view.inService r.lunidx r.sctrnum r.nrSctr) →
        ∀ live, b'.readsOn live j k = b.readsOn live j k)
  | pinned {c : Cell} {r : Read} (cell : b.view.cell j k = some c) (valid : c.valid = true)
      (more : c'.service = u16 (c.service + 1)) (called : call = .get4read r.lunidx r.sctrnum r.nrSctr)
      (new : b'.reads = r :: b.reads) (made : r.id = now) (on : r.lunidx = j ∧ r.fragnum = k)
  | unpinned {c : Cell} {r : Read} {before after : List Read} (cell : b.view.cell j k = some c) (valid : c.valid = true)
      (busy : c.service ≠ 0) (less : c'.service = c.service - 1) (called : call = .put4read r.id)
      (split : b.reads = before ++ r :: after) (rest : b'.reads = before ++ after)
      (gives : b.view.inService r.lunidx r.sctrnum r.nrSctr) (on : r.lunidx = j ∧ r.fragnum = k)

theorem Turn.service (turn : Turn b now call reply b') (cell : b'.view.cell j k = some c') (valid : c'.valid = true) :
    ServiceFrom b b' now call j k c' := by
  have same : b'.reads = b.reads → b.view.cell j k = some c' → ServiceFrom b b' now call j k c' := by
    intro reads here
    have count : ∀ live, b'.readsOn live j k = b.readsOn live j k := fun live => by
      rw [Ledger.readsOn, reads]
      rfl
    exact .kept here valid rfl (fun live => (count live).le) fun _ => count
  -- a read elsewhere
  have apart : ∀ {r : Read} {before after : List Read}, b.reads = before ++ r :: after → b'.reads = before ++ after →
      ¬ (r.lunidx = j ∧ r.fragnum = k) → b.view.cell j k = some c' → ServiceFrom b b' now call j k c' := by
    intro r before after split rest ne here
    have count : ∀ live, b'.readsOn live j k = b.readsOn live j k := by
      intro live
      rw [Ledger.readsOn_split split rest, if_neg fun on => ne ⟨on.1, on.2.1⟩]
      rfl
    exact .kept here valid rfl (fun live => (count live).le) fun _ => count
  cases turn with
  | noop | addcdev | addlun | rmlunWait | putPopFail => exact same rfl cell
  | rmcdev => exact same rfl (Option.filter_eq_some_iff.mp cell).1
  | rmlun => exact same rfl (View.purge_cell_some cell)
  | @readHit i x n ctx size c served =>
    obtain ⟨_, _, _, _, _, _, pinned, usable, _⟩ := served
    obtain ⟨c₀, here, rfl⟩ := View.setCell_cell_some cell
    by_cases e : j = i ∧ k = u32 (x / sceSctrPerFrag)
    · obtain ⟨rfl, rfl⟩ := e
      obtain rfl := Option.some.inj (pinned.symm.trans here)
      exact .pinned (r := ⟨now, j, x, n, c.addr⟩) here usable (by simp) rfl rfl rfl ⟨rfl, rfl⟩
    · have count : ∀ live, (⟨b.view.pin i (u32 (x / sceSctrPerFrag)), ⟨now, i, x, n, c.addr⟩ :: b.reads, b.pops⟩ :
          Ledger).readsOn live j k = b.readsOn live j k := by
        intro live
        rw [Ledger.readsOn_cons rfl, if_neg fun on => e ⟨on.1.symm, on.2.1.symm⟩]
        rfl
      rw [if_neg e] at valid ⊢
      exact .kept here valid rfl (fun live => (count live).le) fun _ => count
  | @putRead r before after split busy =>
    obtain ⟨c₀, here, rfl⟩ := View.unpin_cell_some cell
    by_cases e : j = r.lunidx ∧ k = r.fragnum
    · obtain ⟨rfl, rfl⟩ := e
      have gives := busy
      obtain ⟨_, _, _, _, _, pinned, usable, used, _⟩ := busy
      obtain rfl := Option.some.inj (pinned.symm.trans here)
      exact .unpinned here usable used (by simp) rfl split rfl gives ⟨rfl, rfl⟩
    · rw [if_neg e] at apart valid ⊢
      exact apart split rfl (fun on => e ⟨on.1.symm, on.2.symm⟩) here
  | @putReadFail r before after split idle =>
    refine .kept cell valid rfl (fun live => ?_) fun gives => absurd (gives r (by rw [split]; simp) rfl) idle
    have fewer := Ledger.readsOn_split split (show (⟨b.view, before ++ after, b.pops⟩ : Ledger).reads = _ from rfl)
    rw [fewer]
    exact Nat.le_add_right _ _
  | @invalidate i x n =>
    obtain ⟨c, here, ⟨_, _, rfl⟩ | ⟨_, rfl⟩⟩ := View.invalidate_cell_some cell
    · exact .kept here valid rfl (fun _ => Nat.le_refl _) fun _ _ => rfl
    · exact same rfl here
  | pop =>
    rcases View.place_cell_some cell with ⟨_, _, rfl⟩ | ⟨_, here, _⟩
    · cases valid
    · exact same rfl here
  | @complete p before after i l c split found present ctx here pending one =>
    have done := View.collect_cell_some cell
    rw [View.release_cell] at done
    obtain ⟨c₀, here₀, rfl⟩ := View.setCell_cell_some done
    by_cases e : j = i ∧ k = p.task.lunFragnum
    · obtain ⟨rfl, rfl⟩ := e
      obtain rfl := Option.some.inj (here.symm.trans here₀)
      exact .completed here pending (by simp) rfl
    · rw [if_neg e] at same valid ⊢
      exact same rfl here₀
  | @stale p before after i => exact same rfl (View.collect_cell_some (v := b.view.release i) cell)
  | @cancel p before after i =>
    have stays := View.settle_cell_some cell
    rw [View.release_cell] at stays
    exact same rfl (View.drop_cell_some stays)

/-- A mapping in use stays where it is and valid, unless its LUN or its device goes, or its only read ends. -/
theorem Turn.valid_stays (turn : Turn b now call reply b') (sound : b.view.Sound) (cell : b.view.cell j k = some c)
    (valid : c.valid = true) (busy : c.service ≠ 0) (lun : b'.view.lun j ≠ none) (kept : b'.view.dev c.addr.dev ≠ none)
    (more : ∀ r before after, b.reads = before ++ r :: after → b'.reads = before ++ after → call = .put4read r.id →
      b.view.inService r.lunidx r.sctrnum r.nrSctr → r.lunidx = j → r.fragnum = k → 1 < c.service) :
    ∃ c', b'.view.cell j k = some c' ∧ c'.valid = true ∧ c'.addr = c.addr := by
  have same : b'.view.cell j k = some c → ∃ c', b'.view.cell j k = some c' ∧ c'.valid = true ∧ c'.addr = c.addr :=
    fun here => ⟨c, here, valid, rfl⟩
  -- a population pending is on another mapping
  have apart : ∀ {i f : Nat} {c₁ : Cell}, b.view.cell i f = some c₁ → c₁.valid = false → ¬ (j = i ∧ k = f) := by
    rintro i f c₁ here pending ⟨rfl, rfl⟩
    rw [Option.some.inj (here.symm.trans cell), valid] at pending
    cases pending
  cases turn with
  | noop | addcdev | addlun | rmlunWait | putReadFail | putPopFail => exact same cell
  | rmcdev => exact same (Option.filter_eq_some_iff.mpr ⟨cell, decide_eq_true fun e => kept (if_pos e)⟩)
  | rmlun => exact same (View.purge_cell_stays cell lun)
  | @readHit i x n =>
    by_cases e : j = i ∧ k = u32 (x / sceSctrPerFrag)
    · refine ⟨{ c with service := u16 (c.service + 1) }, ?_, valid, rfl⟩
      show (b.view.setCell i _ _).cell j k = _
      rw [View.setCell_cell, if_pos e, cell]
      rfl
    · exact same ((View.setCell_cell_ne e).trans cell)
  | @putRead r before after split gives =>
    obtain ⟨v, hv⟩ : ∃ v, v = (b.view.setCell r.lunidx r.fragnum fun c => { c with service := c.service - 1 }).setLun
      r.lunidx fun l => { l with service := l.service - 1 } := ⟨_, rfl⟩
    have lun : (b.view.unpin r.lunidx r.fragnum).lun j ≠ none := lun
    show ∃ c', (b.view.unpin r.lunidx r.fragnum).cell j k = some c' ∧ _
    unfold View.unpin at lun ⊢
    simp only [← hv] at lun ⊢
    by_cases e : j = r.lunidx ∧ k = r.fragnum
    · have two := more r before after split rfl rfl gives e.1.symm e.2.symm
      obtain ⟨rfl, rfl⟩ := e
      have many : ¬ (b.view.cell r.lunidx r.fragnum).any (fun c => c.service == 1) = true := by
        rw [cell]
        simp only [Option.any_some, beq_iff_eq]
        omega
      refine ⟨{ c with service := c.service - 1 }, ?_, valid, rfl⟩
      rw [if_neg many, hv, View.setLun_cell, View.setCell_cell, if_pos ⟨rfl, rfl⟩, cell]
      rfl
    · have here : v.cell j k = some c := by
        rw [hv]
        exact (View.setCell_cell_ne e).trans cell
      refine ⟨c, ?_, valid, rfl⟩
      split
      · rename_i last
        rw [if_pos last] at lun
        exact View.collect_cell_stays here busy lun
      · exact here
  | @invalidate i x n =>
    by_cases e : j = i
    · subst e
      have stays : c.goes k (invFrag x * 256 + invOff x) (invCount x n) = false := by simp [Cell.goes, busy]
      exact ⟨c.mark k (invFrag x * 256 + invOff x) (invCount x n), View.invalidate_cell_self cell stays, valid, rfl⟩
    · exact same ((View.invalidate_cell_ne e).trans cell)
  | @pop past i f ctx size a l present active inside empty free dev =>
    refine same ?_
    show ((b.view.seize a).enter i f _).cell j k = some c
    rw [View.enter_cell, if_neg]
    · exact Option.filter_eq_some_iff.mpr ⟨cell, decide_eq_true (View.available_ne sound free cell busy)⟩
    · rintro ⟨rfl, rfl⟩
      rw [empty] at cell
      cases cell
  | complete split found present ctx here pending =>
    refine same (View.collect_cell_stays ?_ busy lun)
    exact (View.setCell_cell_ne (apart here pending)).trans cell
  | @stale p before after i => exact same (View.collect_cell_stays (v := b.view.release i) cell busy lun)
  | cancel split found present ctx here pending =>
    refine same (View.settle_cell_stays ?_ lun)
    rw [View.release_cell, View.drop_cell, if_neg (apart here pending)]
    exact cell

/-- A read outstanding after a turn was outstanding before it, or has just been served from its mapping. -/
theorem Turn.read_from (turn : Turn b now call reply b') (member : r ∈ b'.reads) :
    r ∈ b.reads ∨ call = .get4read r.lunidx r.sctrnum r.nrSctr ∧ r.id = now ∧
      ∃ c', b'.view.cell r.lunidx r.fragnum = some c' ∧ c'.valid = true ∧ c'.addr = r.addr := by
  have rest : ∀ {q : Read} {before after : List Read}, b.reads = before ++ q :: after → r ∈ before ++ after →
      r ∈ b.reads := by
    intro q before after split here
    rw [split]
    rcases List.mem_append.mp here with left | right
    · exact List.mem_append_left _ left
    · exact List.mem_append_right _ (List.mem_cons_of_mem _ right)
  cases turn with
  | noop | addcdev | rmcdev | addlun | rmlunWait | rmlun | invalidate | pop | putPopFail | complete | stale | cancel =>
    exact Or.inl member
  | @readHit i x n ctx size c served =>
    obtain ⟨_, _, _, _, _, _, cell, valid, _⟩ := served
    rcases List.mem_cons.mp member with rfl | old
    · refine Or.inr ⟨rfl, rfl, { c with service := u16 (c.service + 1) }, ?_, valid, rfl⟩
      show (b.view.setCell i (u32 (x / sceSctrPerFrag)) _).cell i (u32 (x / sceSctrPerFrag)) = _
      rw [View.setCell_cell, if_pos ⟨rfl, rfl⟩, cell]
      rfl
    · exact Or.inl old
  | putRead split | putReadFail split => exact Or.inl (rest split member)

/-! ### What live reads hold -/

namespace Ledger

structure Held (b : Ledger) (live : Read → Bool) : Prop where
  there : ∀ r ∈ b.reads, live r = true →
    ∃ c, b.view.cell r.lunidx r.fragnum = some c ∧ c.valid = true ∧ c.addr = r.addr
  enough : ∀ i f c, b.view.cell i f = some c → c.valid = true → b.readsOn live i f ≤ c.service

variable {live : Read → Bool} {i f : Nat}

/-- No live read is on a mapping that is not valid. -/
theorem Held.none_on (held : b.Held live) (cell : b.view.cell i f = some c) (pending : c.valid = false) :
    b.readsOn live i f = 0 := by
  refine List.countP_eq_zero.mpr fun r member on => ?_
  simp only [Bool.and_eq_true, beq_iff_eq] at on
  obtain ⟨⟨rfl, rfl⟩, lives⟩ := on
  obtain ⟨c₀, here, valid, _⟩ := held.there r member lives
  obtain rfl := Option.some.inj (cell.symm.trans here)
  cases pending.symm.trans valid

/-- The mapping of a live read is in use. -/
theorem Held.busy (held : b.Held live) (member : r ∈ b.reads) (lives : live r = true) :
    ∃ c, b.view.cell r.lunidx r.fragnum = some c ∧ c.valid = true ∧ c.addr = r.addr ∧ c.service ≠ 0 := by
  obtain ⟨c, cell, valid, addr⟩ := held.there r member lives
  refine ⟨c, cell, valid, addr, Nat.pos_iff_ne_zero.mp ?_⟩
  exact Nat.lt_of_lt_of_le (readsOn_pos member lives) (held.enough _ _ c cell valid)

end Ledger

/-- A turn keeps what the live reads hold, if no count wraps and a put of a read that is not live gives
nothing back. -/
theorem Turn.held {live live' : Read → Bool} (turn : Turn b now call reply b') (held : b.Held live)
    (sound : b.view.Sound) (ends : ∀ r ∈ b.reads, live' r = true → live r = true ∧ b'.view.dev r.addr.dev ≠ none)
    (lasts : ∀ r ∈ b.reads, live r = true → (∀ d, call ≠ .rmcdev d) → live' r = true)
    (luns : ∀ r ∈ b'.reads, b'.view.lun r.lunidx ≠ none)
    (gives : ∀ r ∈ b.reads, call = .put4read r.id → b.view.inService r.lunidx r.sctrnum r.nrSctr → live r = true)
    (room : ∀ r c, call = .get4read r.lunidx r.sctrnum r.nrSctr → b'.reads = r :: b.reads →
      b.view.cell r.lunidx r.fragnum = some c → c.service + 1 < 2 ^ 16) : b'.Held live' := by
  have fewer : ∀ i f, b.readsOn live' i f ≤ b.readsOn live i f :=
    Ledger.readsOn_mono fun r member lives => (ends r member lives).1
  constructor
  · intro r member lives
    rcases turn.read_from member with old | ⟨_, _, here⟩
    · obtain ⟨lives₀, stays⟩ := ends r old lives
      obtain ⟨c, cell, valid, addr, busy⟩ := held.busy old lives₀
      -- a put that gives something back here is of another live read
      have more : ∀ q before after, b.reads = before ++ q :: after → b'.reads = before ++ after →
          call = .put4read q.id → b.view.inService q.lunidx q.sctrnum q.nrSctr → q.lunidx = r.lunidx →
          q.fragnum = r.fragnum → 1 < c.service := by
        intro q before after split rest called serves lun frag
        have lives' := gives q (by rw [split]; simp) called serves
        have count := Ledger.readsOn_split split rest live r.lunidx r.fragnum
        rw [if_pos ⟨lun, frag, lives'⟩] at count
        have other := Ledger.readsOn_pos member lives₀
        have enough := held.enough _ _ c cell valid
        omega
      obtain ⟨c', cell', valid', addr'⟩ := turn.valid_stays sound cell valid busy (luns r member)
        (by rw [addr]; exact stays) more
      exact ⟨c', cell', valid', addr'.trans addr⟩
    · exact here
  · intro i f c' cell' valid'
    cases turn.service cell' valid' with
    | completed cell pending idle reads =>
      have none : b'.readsOn live' i f = 0 := by
        have less := fewer i f
        rw [held.none_on cell pending, Nat.le_zero] at less
        rw [Ledger.readsOn, reads]
        exact less
      rw [none]
      exact Nat.zero_le _
    | @kept c cell valid same less =>
      rw [same]
      exact (less live').trans ((fewer i f).trans (held.enough i f c cell valid))
    | @pinned c r cell valid more called new made on =>
      have enough := held.enough i f c cell valid
      obtain ⟨rfl, rfl⟩ := on
      have small := room r c called new cell
      rw [more, u16_of_lt small, Ledger.readsOn_cons new]
      have less := fewer r.lunidx r.fragnum
      split <;> omega
    | @unpinned c r before after cell valid busy less called split rest serves on =>
      have member : r ∈ b.reads := by rw [split]; simp
      have lives := lasts r member (gives r member called serves) (by simp [called])
      have count := Ledger.readsOn_split split rest live' i f
      rw [if_pos ⟨on.1, on.2, lives⟩] at count
      have enough := held.enough i f c cell valid
      have fewer := fewer i f
      omega

/-! ### Runs that keep reads pinned -/

/-- The fragment is mapped, valid and in use. -/
def Sce.inUse (s : Sce) (i f : Nat) : Bool := (s.slot i f).any fun m => m.valid && m.frag.nrService != 0

namespace World

variable {w w' : World}

/-- The cache device a read was served from has stayed. -/
def live (w : World) (r : Read) : Bool := (w.sce.dev r.addr.dev).isSome && decide (w.plugged r.addr.dev < r.id)

/-- LUNs have contexts of their own, no count of requests wraps, and a read whose cache device went is put while
its fragment of the LUN is not in use. -/
def Pinning (w : World) (call : Call) : Prop :=
  w.Fresh call ∧ w.Roomy call ∧
    match call with
    | .get4read i x _ => (w.sce.slot i (u32 (x / sceSctrPerFrag))).elim 0 (fun m => m.frag.nrService) + 1 < 2 ^ 16
    | .put4read id => ∀ r ∈ w.reads, r.id = id → w.live r = false → w.sce.inUse r.lunidx r.fragnum = false
    | _ => True

instance (w : World) (call : Call) : Decidable (w.Pinning call) :=
  match call with
  | .get4read _ _ _ => inferInstanceAs (Decidable (_ ∧ _ ∧ _ < _))
  | .put4read _ => inferInstanceAs (Decidable (_ ∧ _ ∧ ∀ r ∈ w.reads, _ → _ → _))
  | .addcdev _ _ _ | .rmcdev _ | .addlun _ _ _ | .rmlun _ | .invalidate _ _ _ | .get4pop _ | .put4pop _ _ =>
    inferInstanceAs (Decidable (_ ∧ _ ∧ True))

theorem live_next {reply : Reply} {s' : Sce} (early : r.id < w.now) :
    ((w.next call reply s').live r = true ↔ w.live r = true ∧ s'.dev r.addr.dev ≠ none) := by
  have plugged : (w.next call reply s').plugged r.addr.dev =
      if s'.dev r.addr.dev ≠ none ∧ w.sce.dev r.addr.dev = none then w.now else w.plugged r.addr.dev := rfl
  simp only [live, Bool.and_eq_true, decide_eq_true_eq, Option.isSome_iff_ne_none, plugged]
  show s'.dev r.addr.dev ≠ none ∧ _ ↔ _
  split
  · rename_i fresh
    constructor
    · exact fun lives => absurd lives.2 (Nat.not_lt_of_lt early)
    · exact fun lives => absurd fresh.2 lives.1.1
  · rename_i old
    constructor
    · exact fun lives => ⟨⟨fun absent => old ⟨lives.1, absent⟩, lives.2⟩, lives.1⟩
    · exact fun lives => ⟨lives.2, lives.1.2⟩

structure Pinned (w : World) : Prop where
  founded : w.Founded
  tallied : w.ledger.Tallied
  plugged : ∀ d, w.sce.dev d ≠ none → w.plugged d < w.now
  held : w.ledger.Held w.live

theorem Pinned.init : World.init.Pinned := by
  refine ⟨.init, tallied_init, ?_, ⟨?_, ?_⟩⟩
  · intro d dev
    exact absurd rfl dev
  · intro r member
    cases member
  · intro i f c cell
    cases cell

theorem Pinned.next (h : w.Pinned) (ok : w.Pinning call) (moves : w.exec call = some w') : w'.Pinned := by
  obtain ⟨fresh, roomy, ok⟩ := ok
  have base := h.founded.base
  have founded := h.founded.next fresh moves
  have tallied := h.founded.tallied_next h.tallied fresh roomy moves
  obtain ⟨_, reply, same, turn⟩ := exec_turn base moves
  obtain ⟨s', rfl⟩ : ∃ s', w' = w.next call reply s' := ⟨_, same⟩
  refine ⟨founded, tallied, ?_, ?_⟩
  · intro d dev
    show (if s'.dev d ≠ none ∧ w.sce.dev d = none then w.now else w.plugged d) < w.now + 1
    split
    · exact Nat.lt_succ_self _
    · rename_i old
      exact Nat.lt_succ_of_lt (h.plugged d fun absent => old ⟨dev, absent⟩)
  · have early : ∀ r ∈ w.reads, (w.next call reply s').live r = true ↔ w.live r = true ∧ s'.dev r.addr.dev ≠ none :=
      fun r member => live_next (base.readIds r member)
    refine turn.held h.held base.inv.sound ?_ ?_ tallied.reads ?_ ?_
    · exact fun r member => (early r member).mp
    · intro r member lives kept
      obtain ⟨c, cell, _, addr⟩ := h.held.there r member lives
      obtain ⟨_, ctx, n, dev, _⟩ := base.inv.sound.there _ _ c cell
      rw [addr] at dev
      refine (early r member).mpr ⟨lives, ?_⟩
      rw [show s'.dev r.addr.dev = some (ctx, n) from turn.dev_stays dev (kept _)]
      exact Option.some_ne_none _
    · rintro r member rfl ⟨l, c, _, _, _, cell, valid, used, _⟩
      by_contra dead
      have idle := ok r member rfl (Bool.eq_false_iff.mpr dead)
      obtain ⟨m, slot, rfl⟩ := Option.map_eq_some_iff.mp (Sce.view_cell ▸ cell)
      rw [Sce.inUse, show w.sce.slot r.lunidx r.fragnum = some m from slot] at idle
      have valid : m.valid = true := valid
      have used : m.frag.nrService ≠ 0 := used
      simp [valid, used] at idle
    · rintro r c rfl _ cell
      obtain ⟨m, slot, rfl⟩ := Option.map_eq_some_iff.mp (Sce.view_cell ▸ cell)
      have ok : (w.sce.slot r.lunidx r.fragnum).elim 0 (fun m => m.frag.nrService) + 1 < 2 ^ 16 := ok
      rw [slot] at ok
      exact ok

/-- While a read is outstanding and its cache device has stayed, the physical fragment it was given is mapped
by the fragment of its LUN and by no other, is valid and in use, and is not free. -/
theorem read_pins (reached : Reachable exec Pinning init w) {r : Read} (member : r ∈ w.reads) (lives : w.live r = true) :
    (∃ m, w.sce.slot r.lunidx r.fragnum = some m ∧ m.addr = r.addr ∧ m.valid = true ∧ m.frag.nrService ≠ 0) ∧
      ¬ w.sce.isFree r.addr ∧ ∀ j k, w.sce.place j k = some r.addr → j = r.lunidx ∧ k = r.fragnum := by
  have h : w.Pinned := reached.invariant .init fun _ _ _ h ok moves => h.next ok moves
  have base := h.founded.base
  obtain ⟨c, cell, valid, addr, busy⟩ := h.held.busy member lives
  have free := base.inv.sound.apart _ _ c cell
  rw [addr] at free
  obtain ⟨m, slot, rfl⟩ := Option.map_eq_some_iff.mp (Sce.view_cell ▸ cell)
  refine ⟨⟨m, slot, addr, valid, busy⟩, free, ?_⟩
  intro j k place
  have here : w.sce.place r.lunidx r.fragnum = some r.addr := by
    rw [Sce.place_of_slot slot]
    exact congrArg some addr
  exact base.inv.shape.place_inj here place

/-- A LUN of one fragment, read from a device that goes, cached again on another one and read again. -/
def swap : List Call :=
  [.addcdev 2048 7 true, .addlun 2048 9 true, .get4read 0 0 8, .get4pop fun _ _ => 0#32, .put4pop 3 false,
    .get4read 0 0 8, .rmcdev 0, .addcdev 2048 8 true, .get4read 0 0 8, .get4pop fun _ _ => 0#32, .put4pop 9 false,
    .get4read 0 0 8]

def swapped : World := (Util.execAll exec (fun w call => decide (w.Pinning call)) init swap).getD init

theorem swapped_reachable : Reachable exec Pinning init swapped :=
  Util.reachable_getD (fun _ _ ok => of_decide_eq_true ok) (by decide +kernel)

theorem read_pins_swapped : (⟨11, 0, 0, 8, ⟨0, 0⟩⟩ : Read) ∈ swapped.reads ∧ ¬ swapped.sce.isFree ⟨0, 0⟩ :=
  have member : (⟨11, 0, 0, 8, ⟨0, 0⟩⟩ : Read) ∈ swapped.reads := by decide +kernel
  ⟨member, (read_pins swapped_reachable member (by decide +kernel)).2.1⟩

/-- The first read ends, and all of the fragment is written. -/
def stolen : World :=
  (Util.execAll exec (fun w call => decide (w.Fresh call ∧ w.Roomy call)) init
    (swap ++ [.put4read 5, .invalidate 0 0 2048])).getD init

/-- The end of the first read gives back the fragment of the second one. -/
theorem read_unpinned : Reachable exec (fun w call => w.Fresh call ∧ w.Roomy call) init stolen ∧
    stolen.reads = [⟨11, 0, 0, 8, ⟨0, 0⟩⟩] ∧ stolen.live ⟨11, 0, 0, 8, ⟨0, 0⟩⟩ = true ∧ stolen.sce.isFree ⟨0, 0⟩ := by
  refine ⟨Util.reachable_getD (fun _ _ ok => of_decide_eq_true ok) (by decide +kernel), by decide +kernel,
    by decide +kernel, ?_⟩
  have node : (stolen.sce.node ⟨0, 0⟩).map Node.fragnum = some fragnumWithinFreeList := by decide +kernel
  exact Option.map_eq_some_iff.mp node

end World

end Iostash
