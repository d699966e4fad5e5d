import Iostash.Block.Copies

/-!
# Reads that are answered from the cache

A read bio that is completed returns what its disk held at one moment between the time it came and the time
it was completed, whether it was served from the disk or from a fragment of the cache.
-/

namespace Iostash

open Util

variable {hdd id : Nat} {call : Call} {m : Fmap} {bio : Bio} {t : Target}

/-! ### Reads of the engine -/

namespace World

variable {w w' : World} {reply : Reply}

theorem read_stays {q : Read} (moves : w.exec call = some w') (member : q ∈ w.reads) (other : call ≠ .put4read q.id) :
    q ∈ w'.reads := by
  obtain ⟨op, reply, s', _, _, rfl⟩ := exec_eq_some.mp moves
  show q ∈ w.nextReads s' call reply
  cases call with
  | get4read i x n =>
    cases reply with
    | fmap o =>
      cases o with
      | none => exact member
      | some m => exact List.mem_cons_of_mem _ member
    | _ => exact member
  | put4read id =>
    have kept : q ∈ w.reads.eraseP fun r => r.id == id :=
      (List.mem_eraseP_of_neg (by simpa using fun e : q.id = id => other (by rw [e]))).mpr member
    cases reply <;> exact kept
  | _ => exact member

theorem mkrequestRead_eq_some {o : Option Fmap} (passes : w.mkrequestRead t bio = some (o, w')) :
    (o = none ∧ w' = w) ∨ t.online = true ∧ ∃ reply, w.ask (.get4read t.lun bio.psn bio.nrSctr) = some (reply, w') ∧
      ∀ m, o = some m → reply = .fmap (some m) := by
  have on : ∀ {e : Option (Option Fmap × World)}, e = some (none, w) → e = some (o, w') → o = none ∧ w' = w := by
    rintro e rfl same
    obtain ⟨rfl, rfl⟩ := Prod.mk.inj (Option.some.inj same)
    exact ⟨rfl, rfl⟩
  unfold mkrequestRead at passes
  split at passes
  · exact Or.inl (on rfl passes)
  · rename_i online
    split at passes
    · exact Or.inl (on rfl passes)
    · split at passes
      · exact Or.inl (on rfl passes)
      · split at passes
        · exact Or.inl (on rfl passes)
        · obtain ⟨⟨reply, w₁⟩, asked, same⟩ := Option.map_eq_some_iff.mp passes
          refine Or.inr ⟨by simpa using online, reply, ?_⟩
          cases reply with
          | fmap m =>
            obtain ⟨rfl, rfl⟩ := Prod.mk.inj same
            exact ⟨asked, fun m' e => by rw [e]⟩
          | _ =>
            obtain ⟨rfl, rfl⟩ := Prod.mk.inj same
            exact ⟨asked, fun m' e => by cases e⟩

/-- A read that is served is live, and from the device that is named. -/
theorem Pinned.served {i x n : Nat} (h : w.Pinned)
    (asked : w.ask (.get4read i x n) = some (.fmap (some m), w')) : ∃ c size, w.sce.view.served i x n c ∧
      w.sce.view.dev c.addr.dev = some (m.cdevctx, size) ∧ c.addr.off = m.fragnum ∧
      ∃ q ∈ w'.reads, q.id = w.now ∧ q.addr = c.addr ∧ w'.live q = true := by
  obtain ⟨moves, next⟩ := ask_eq_some.mp asked
  obtain ⟨op, reply, s', _, _, rfl, base', turn⟩ := exec_run h.founded.base moves
  have log : (⟨.get4read i x n, reply⟩ : Event) :: w.log = ⟨.get4read i x n, .fmap (some m)⟩ :: w.log :=
    congrArg World.log next
  obtain rfl : reply = .fmap (some m) := (Event.mk.inj (List.cons.inj log).1).2
  generalize ledger : (w.next (.get4read i x n) (.fmap (some m)) s').ledger = b' at turn
  cases turn with
  | noop failed => cases failed
  | @readHit _ _ _ ctx size c served dev =>
    refine ⟨c, size, served, dev, rfl, ⟨w.now, i, x, n, c.addr⟩, ?_, rfl, rfl, ?_⟩
    · have reads := congrArg Ledger.reads ledger
      have reads : (w.next (.get4read i x n) (.fmap (some ⟨ctx, c.addr.off⟩)) s').reads = _ := reads
      rw [reads]
      exact List.mem_cons_self
    · have devs : s'.dev c.addr.dev = some (ctx, size) := by
        have here : s'.view.dev c.addr.dev = w.sce.view.dev c.addr.dev := congrFun (congrArg View.dev (congrArg Ledger.view ledger)) _
        exact here.trans dev
      have old : w.sce.dev c.addr.dev = some (ctx, size) := dev
      simp only [live, Bool.and_eq_true, decide_eq_true_eq, Option.isSome_iff_ne_none]
      refine ⟨?_, ?_⟩
      · show s'.dev c.addr.dev ≠ none
        rw [devs]
        simp
      · show (if s'.dev c.addr.dev ≠ none ∧ w.sce.dev c.addr.dev = none then w.now else w.plugged c.addr.dev) < w.now
        rw [if_neg (by simp [old])]
        exact h.plugged _ (by simp [old])

end World

/-! ### What a read bio has -/

namespace Store

/-- The fragment a hit named holds what the disk held when the bio came, and is pinned while its device stays. -/
structure Hit (s : Store) (r : ReadBio) (id : Nat) (m : Fmap) : Prop where
  small : m.fragnum < 2 ^ 21
  one : r.psn % sceSctrPerFrag + r.nrSctr ≤ sceSctrPerFrag
  copy : ∀ o, o < r.nrSctr →
    s.ssd m.cdevctx (ssdSector m.fragnum (r.psn % sceSctrPerFrag + o)) = s.disk.held r.began (r.hdd, r.psn + o)
  pins : ∃ q ∈ s.world.reads, q.id = id ∧ ∀ d n, s.world.sce.view.dev d = some (m.cdevctx, n) →
    s.world.live q = true ∧ q.addr = ⟨d, m.fragnum⟩

/-- The sectors are as the disk held them at one moment from `began` to `ended`. -/
def Shown (s : Store) (hdd psn nrSctr began ended : Nat) (data : Nat → Sector) : Prop :=
  ∃ t, began ≤ t ∧ t ≤ ended ∧ ∀ o, o < nrSctr → data o = s.disk.held t (hdd, psn + o)

structure Reading (s : Store) : Prop where
  past : ∀ r ∈ s.reads, r.began ≤ s.disk.now
  hits : ∀ r ∈ s.reads, ∀ id m, r.hit = some (id, m) → s.Hit r id m
  shown : ∀ r ∈ s.reads, ∀ data, r.data = some data → s.Shown r.hdd r.psn r.nrSctr r.began s.disk.now data
  ended : ∀ r ∈ s.served, r.ended ≤ s.disk.now
  served : ∀ r ∈ s.served, s.Shown r.hdd r.psn r.nrSctr r.began r.ended r.data

variable {s s' : Store} {r : ReadBio} {contents : Nat × Nat → Sector} {ssd : Nat → Nat → Sector}

theorem Reading.init : (init contents ssd).Reading := by
  refine ⟨?_, ?_, ?_, ?_, ?_⟩ <;> intro r member <;> cases member

theorem Shown.mono {psn nrSctr began ended ended' : Nat} {data : Nat → Sector}
    (shown : s.Shown hdd psn nrSctr began ended data) (later : ended ≤ ended')
    (held : ∀ t, t ≤ ended → s'.disk.held t = s.disk.held t) : s'.Shown hdd psn nrSctr began ended' data := by
  obtain ⟨t, low, high, same⟩ := shown
  refine ⟨t, low, Nat.le_trans high later, fun o ho => ?_⟩
  rw [held t high]
  exact same o ho

/-- A step that brings no read bio further. -/
theorem Reading.carried (h : s.Reading) (now : s'.disk.now = s.disk.now + 1)
    (held : ∀ t, t ≤ s.disk.now → s'.disk.held t = s.disk.held t)
    (reads : ∀ r' ∈ s'.reads, ∃ r ∈ s.reads, r'.hdd = r.hdd ∧ r'.psn = r.psn ∧ r'.nrSctr = r.nrSctr ∧
      r'.began = r.began ∧ r'.data = r.data) (served : s'.served = s.served)
    (hits : ∀ r' ∈ s'.reads, ∀ id m, r'.hit = some (id, m) → s'.Hit r' id m) : s'.Reading := by
  refine ⟨?_, hits, ?_, ?_, ?_⟩
  · intro r' member
    obtain ⟨r, old, _, _, _, began, _⟩ := reads r' member
    rw [began, now]
    exact Nat.le_succ_of_le (h.past r old)
  · intro r' member data read
    obtain ⟨r, old, hdd, psn, nrSctr, began, same⟩ := reads r' member
    rw [hdd, psn, nrSctr, began, now]
    exact (h.shown r old data (same ▸ read)).mono (Nat.le_succ _) held
  · rw [served, now]
    exact fun r member => Nat.le_succ_of_le (h.ended r member)
  · rw [served]
    exact fun r member => (h.served r member).mono (Nat.le_refl _) fun t past => held t (Nat.le_trans past (h.ended r member))

/-- A step that makes no call and leaves the fragments that are being read. -/
theorem Hit.still (hit : s.Hit r id m) (past : r.began ≤ s.disk.now) (world : s'.world = s.world)
    (held : ∀ t, t ≤ s.disk.now → s'.disk.held t = s.disk.held t)
    (ssd : ∀ o, o < r.nrSctr → s'.ssd m.cdevctx (ssdSector m.fragnum (r.psn % sceSctrPerFrag + o)) =
      s.ssd m.cdevctx (ssdSector m.fragnum (r.psn % sceSctrPerFrag + o))) : s'.Hit r id m := by
  refine ⟨hit.small, hit.one, fun o ho => ?_, world ▸ hit.pins⟩
  rw [ssd o ho, held _ past]
  exact hit.copy o ho

/-- A call that does not end the read. -/
theorem Hit.outlasts (hit : s.Hit r id m) (past : r.began ≤ s.disk.now) (base : s.world.Base)
    (moves : s.world.exec call = some s'.world) (held : ∀ t, t ≤ s.disk.now → s'.disk.held t = s.disk.held t)
    (ssd : s'.ssd = s.ssd) (other : call ≠ .put4read id)
    (apart : ∀ n vmalloc, call ≠ .addcdev n m.cdevctx vmalloc) : s'.Hit r id m := by
  refine ⟨hit.small, hit.one, fun o ho => ?_, ?_⟩
  · rw [ssd, held _ past]
    exact hit.copy o ho
  · obtain ⟨q, member, rfl, pinned⟩ := hit.pins
    refine ⟨q, World.read_stays moves member other, rfl, fun d n dev => ?_⟩
    obtain ⟨_, reply, next, turn⟩ := World.exec_turn base moves
    rcases turn.dev dev with old | ⟨_, size, ctx, vmalloc, called, new⟩
    · obtain ⟨live, addr⟩ := pinned d n old
      refine ⟨?_, addr⟩
      rw [next]
      refine (World.live_next (base.readIds q member)).mpr ⟨live, ?_⟩
      rw [addr]
      have here : s'.world.sce.dev d = some (m.cdevctx, n) := dev
      simp [here]
    · obtain ⟨rfl, _⟩ := Prod.mk.inj new
      exact absurd called (apart size vmalloc)

/-! ### Steps that leave the read bios alone -/

theorem Reading.still (h : s.Reading) (world : s'.world = s.world) (now : s'.disk.now = s.disk.now + 1)
    (held : ∀ t, t ≤ s.disk.now → s'.disk.held t = s.disk.held t) (ssd : s'.ssd = s.ssd) (reads : s'.reads = s.reads)
    (served : s'.served = s.served) : s'.Reading := by
  refine h.carried now held ?_ served ?_
  · rw [reads]
    exact fun r member => ⟨r, member, rfl, rfl, rfl, rfl, rfl⟩
  · rw [reads]
    intro r member id m hit
    exact (h.hits r member id m hit).still (h.past r member) world held fun o _ => by rw [ssd]

theorem Reading.calls (h : s.Reading) (base : s.world.Base) (moves : s.world.exec call = some s'.world)
    (now : s'.disk.now = s.disk.now + 1) (held : ∀ t, t ≤ s.disk.now → s'.disk.held t = s.disk.held t)
    (ssd : s'.ssd = s.ssd) (reads : s'.reads = s.reads) (served : s'.served = s.served)
    (others : ∀ id, call ≠ .put4read id)
    (apart : ∀ n ctx vmalloc, call = .addcdev n ctx vmalloc → ∀ r ∈ s.reads, ∀ hit ∈ r.hit, hit.2.cdevctx ≠ ctx) :
    s'.Reading := by
  refine h.carried now held ?_ served ?_
  · rw [reads]
    exact fun r member => ⟨r, member, rfl, rfl, rfl, rfl, rfl⟩
  · rw [reads]
    intro r member id m hit
    refine (h.hits r member id m hit).outlasts (h.past r member) base moves held ssd (others id) fun n vmalloc called => ?_
    exact apart n m.cdevctx vmalloc called r member (id, m) hit rfl

/-- The fragment of a population outstanding is not the fragment of a hit on the same device. -/
theorem Hit.apart (hit : s.Hit r id m) (h : s.Coherent) {p : Pop} (member : p ∈ s.world.pops)
    (same : m.cdevctx = p.task.cdevctx) : m.fragnum ≠ p.task.cdevFragnum := by
  intro frag
  obtain ⟨i, l, c₀, n, lun, ctx, cell₀, pending, born, dev₀, off, small⟩ := h.population member
  obtain ⟨q, there, _, pinned⟩ := hit.pins
  obtain ⟨live, addr⟩ := pinned _ n (same ▸ dev₀)
  obtain ⟨c, cell, valid, addr'⟩ := h.pinned.held.there q there live
  have place : c₀.addr = c.addr := (congrArg₂ Phys.mk rfl (off.symm.trans frag.symm)).trans (addr'.trans addr).symm
  obtain ⟨rfl, frag⟩ := h.faithful.base.inv.sound.inj _ _ _ _ _ _ cell cell₀ place
  rw [frag] at cell₀
  obtain rfl := Option.some.inj (cell₀.symm.trans cell)
  cases pending.symm.trans valid

theorem Reading.poptaskWrite (h : s.Reading) (coherent : s.Coherent) (moves : s.exec (.poptaskWrite id) = some s') :
    s'.Reading := by
  obtain ⟨p, found, moves⟩ := Option.bind_eq_some_iff.mp moves
  have member := List.mem_of_find?_eq_some found
  cases stage : s.stage id with
  | asked | written =>
    rw [stage] at moves
    cases moves
  | read buf =>
    rw [stage] at moves
    obtain ⟨bdev, write, rfl⟩ := Option.map_eq_some_iff.mp moves
    obtain ⟨i, l, c₀, n, lun, ctx, cell₀, pending, born, dev₀, off, small⟩ := coherent.population member
    refine h.carried rfl (fun _ past => History.tick_held past) ?_ rfl ?_
    · exact fun r member => ⟨r, member, rfl, rfl, rfl, rfl, rfl⟩
    · intro r reading id' m hit
      have hit := h.hits r reading id' m hit
      refine hit.still (h.past r reading) rfl (fun _ past => History.tick_held past) fun o ho => ?_
      by_cases e : m.cdevctx = p.task.cdevctx
      · have inside : r.psn % sceSctrPerFrag + o < sceSctrPerFrag := Nat.lt_of_lt_of_le (Nat.add_lt_add_left ho _) hit.one
        show Function.update s.ssd p.task.cdevctx bdev m.cdevctx _ = _
        rw [e, Function.update_self]
        exact poptaskWrite_apart write small inside (hit.apart coherent member e)
      · exact congrFun (Function.update_of_ne e _ _) _

/-! ### Steps of the read bios -/

theorem Reading.deliver {get : ReadBio → Option (Nat → Sector)} (h : s.Reading)
    (fresh : ∀ r ∈ s.reads, ∀ data, get r = some data → s.Shown r.hdd r.psn r.nrSctr r.began s.disk.now data)
    (moves : s.deliver id get = some s') : s'.Reading := by
  obtain ⟨r₀, found, moves⟩ := Option.bind_eq_some_iff.mp moves
  obtain ⟨data₀, got, same⟩ := Option.map_eq_some_iff.mp moves
  have member₀ := List.mem_of_find?_eq_some found
  have now : s'.disk.now = s.disk.now + 1 := by rw [← same]; rfl
  have held : ∀ t, t ≤ s.disk.now → s'.disk.held t = s.disk.held t := by
    intro t past
    rw [← same]
    exact History.tick_held past
  have served : s'.served = s.served := by rw [← same]
  have still : ∀ r ∈ s.reads, ∀ id m, r.hit = some (id, m) → s'.Hit r id m := by
    intro r member id m hit
    refine (h.hits r member id m hit).still (h.past r member) ?_ held fun _ _ => ?_ <;> rw [← same]
  have earlier : ∀ r ∈ s'.reads, r = { r₀ with data := some data₀ } ∨ r ∈ s.reads := by
    intro r member
    rw [← same] at member
    exact (List.mem_cons.mp member).imp_right List.mem_of_mem_eraseP
  refine ⟨?_, ?_, ?_, ?_, ?_⟩
  · intro r member
    rw [now]
    rcases earlier r member with rfl | old
    · exact Nat.le_succ_of_le (h.past r₀ member₀)
    · exact Nat.le_succ_of_le (h.past r old)
  · intro r member id m hit
    rcases earlier r member with rfl | old
    · obtain ⟨small, one, copy, pins⟩ := still r₀ member₀ id m hit
      exact ⟨small, one, copy, pins⟩
    · exact still r old id m hit
  · intro r member data read
    rw [now]
    rcases earlier r member with rfl | old
    · obtain rfl := Option.some.inj read
      exact (fresh r₀ member₀ data₀ got).mono (Nat.le_succ _) held
    · exact (h.shown r old data read).mono (Nat.le_succ _) held
  · rw [served, now]
    exact fun r member => Nat.le_succ_of_le (h.ended r member)
  · rw [served]
    exact fun r member => (h.served r member).mono (Nat.le_refl _) fun t past => held t (Nat.le_trans past (h.ended r member))

theorem Hit.start (hit : s.Hit r id m) :
    cloneSector m.fragnum r.psn = ssdSector m.fragnum (r.psn % sceSctrPerFrag) := by
  have eq := cloneSector_eq hit.small (r.psn / sceSctrPerFrag) (Nat.mod_lt r.psn (by decide : 0 < sceSctrPerFrag))
  rwa [Nat.div_add_mod'] at eq

theorem Reading.readSsd (h : s.Reading) (moves : s.exec (.readSsd id) = some s') : s'.Reading := by
  refine h.deliver ?_ moves
  intro r member data got
  obtain ⟨⟨id', m⟩, hit, rfl⟩ := Option.map_eq_some_iff.mp got
  have hit := h.hits r member id' m hit
  refine ⟨r.began, Nat.le_refl _, h.past r member, fun o ho => ?_⟩
  rw [← hit.copy o ho]
  show s.ssd m.cdevctx (cloneSector m.fragnum r.psn + o) = _
  rw [hit.start]
  exact congrArg _ (Nat.add_assoc _ _ _)

theorem Reading.readHdd (h : s.Reading) (moves : s.exec (.readHdd id) = some s') : s'.Reading := by
  refine h.deliver ?_ moves
  intro r member data got
  obtain rfl := Option.some.inj got
  exact ⟨s.disk.now, h.past r member, Nat.le_refl _, fun _ _ => rfl⟩

theorem Reading.endRead (h : s.Reading) (moves : s.exec (.endRead id) = some s') : s'.Reading := by
  obtain ⟨r₀, found, moves⟩ := Option.bind_eq_some_iff.mp moves
  obtain ⟨data, got, rfl⟩ := Option.map_eq_some_iff.mp moves
  have member₀ := List.mem_of_find?_eq_some found
  have held : ∀ t, t ≤ s.disk.now → s.disk.tick.held t = s.disk.held t := fun _ past => History.tick_held past
  refine ⟨?_, ?_, ?_, ?_, ?_⟩
  · exact fun r member => Nat.le_succ_of_le (h.past r (List.mem_of_mem_eraseP member))
  · intro r member id m hit
    have old := List.mem_of_mem_eraseP member
    exact (h.hits r old id m hit).still (h.past r old) rfl held fun _ _ => rfl
  · intro r member data read
    exact (h.shown r (List.mem_of_mem_eraseP member) data read).mono (Nat.le_succ _) held
  · intro r member
    rcases List.mem_cons.mp member with rfl | old
    · exact Nat.le_succ _
    · exact Nat.le_succ_of_le (h.ended r old)
  · intro r member
    rcases List.mem_cons.mp member with rfl | old
    · exact (h.shown r₀ member₀ data got).mono (Nat.le_refl _) held
    · exact (h.served r old).mono (Nat.le_refl _) fun t past => held t (Nat.le_trans past (h.ended r old))

theorem Reading.failRead (h : s.Reading) (moves : s.exec (.failRead id) = some s') : s'.Reading := by
  obtain ⟨_, _, rfl⟩ := Option.map_eq_some_iff.mp moves
  have held : ∀ t, t ≤ s.disk.now → s.disk.tick.held t = s.disk.held t := fun _ past => History.tick_held past
  refine h.carried rfl held ?_ rfl ?_
  · intro r member
    exact ⟨r, List.mem_of_mem_eraseP member, rfl, rfl, rfl, rfl, rfl⟩
  · intro r member id m hit
    have old := List.mem_of_mem_eraseP member
    exact (h.hits r old id m hit).still (h.past r old) rfl held fun _ _ => rfl

theorem Reading.put4read (h : s.Reading) (base : s.world.Base) (moves : s.exec (.put4read id) = some s') :
    s'.Reading := by
  obtain ⟨w', called, rfl⟩ := Option.map_eq_some_iff.mp moves
  have held : ∀ t, t ≤ s.disk.now → s.disk.tick.held t = s.disk.held t := fun _ past => History.tick_held past
  -- a read bio after the step was one before it, and has its hit only if that is another one
  have earlier : ∀ r' ∈ s.reads.map (fun r => if r.hit.map Prod.fst = some id then { r with hit := none } else r),
      ∃ r ∈ s.reads, r'.hdd = r.hdd ∧ r'.psn = r.psn ∧ r'.nrSctr = r.nrSctr ∧ r'.began = r.began ∧ r'.data = r.data ∧
        ∀ hit, r'.hit = some hit → r' = r ∧ hit.1 ≠ id := by
    intro r' member
    obtain ⟨r, old, rfl⟩ := List.mem_map.mp member
    refine ⟨r, old, ?_⟩
    split
    · exact ⟨rfl, rfl, rfl, rfl, rfl, fun hit none => by cases none⟩
    · rename_i other
      refine ⟨rfl, rfl, rfl, rfl, rfl, fun hit here => ⟨rfl, fun e => other ?_⟩⟩
      rw [here, ← e]
      rfl
  refine h.carried rfl held ?_ rfl ?_
  · intro r' member
    obtain ⟨r, old, hdd, psn, nrSctr, began, data, _⟩ := earlier r' member
    exact ⟨r, old, hdd, psn, nrSctr, began, data⟩
  · intro r' member id' m hit
    obtain ⟨r, old, _, _, _, _, _, kept⟩ := earlier r' member
    obtain ⟨rfl, other⟩ := kept _ hit
    refine (h.hits r' old id' m hit).outlasts (h.past r' old) base called held rfl ?_ (by simp)
    exact fun e => other (Call.put4read.inj e).symm

/-- What a hit names is what the disk holds when the bio comes. -/
theorem Coherent.served {w' : World} (h : s.Coherent) (target : s.targets hdd = some t) (online : t.online = true)
    (asked : s.world.ask (.get4read t.lun bio.psn bio.nrSctr) = some (.fmap (some m), w')) :
    m.fragnum < 2 ^ 21 ∧ bio.psn % sceSctrPerFrag + bio.nrSctr ≤ sceSctrPerFrag ∧ (∀ o, o < bio.nrSctr →
      s.ssd m.cdevctx (ssdSector m.fragnum (bio.psn % sceSctrPerFrag + o)) = s.disk.contents (hdd, bio.psn + o)) ∧
    ∃ q ∈ w'.reads, q.id = s.world.now ∧ ∀ d n, w'.sce.view.dev d = some (m.cdevctx, n) →
      w'.live q = true ∧ q.addr = ⟨d, m.fragnum⟩ := by
  obtain ⟨c, size, served, dev, off, q, member, made, addr, live⟩ := h.pinned.served asked
  obtain ⟨called, next⟩ := World.ask_eq_some.mp asked
  obtain ⟨l, lun, active, pos, inside, one, _⟩ := id served
  obtain ⟨cell, _, clean⟩ := (h.faithful.served_iff lun active pos inside one).mp served
  obtain ⟨l', lun', ctx, _, same⟩ := h.target hdd t target
  obtain rfl := Option.some.inj (lun.symm.trans lun')
  have valid : c.valid = true := by
    obtain ⟨_, _, _, _, _, _, _, valid, _⟩ := served
    exact valid
  have small : m.fragnum < 2 ^ 21 := by
    obtain ⟨_, _, n', dev', lt⟩ := h.faithful.base.inv.sound.there _ _ c cell
    have limit := h.small _ _ _ dev
    obtain ⟨_, rfl⟩ := Prod.mk.inj (Option.some.inj (dev.symm.trans dev'))
    omega
  have fits : bio.psn % sceSctrPerFrag + bio.nrSctr ≤ sceSctrPerFrag := by
    simp only [sceSctrPerFrag] at one ⊢
    omega
  refine ⟨small, fits, fun o ho => ?_, q, member, made, fun d n dev' => ⟨live, ?_⟩⟩
  · have stage : s.stage (s.world.born t.lun (bio.psn / sceSctrPerFrag)) = .written := by
      have done := h.finished _ _ c cell valid
      cases at_ : s.stage (s.world.born t.lun (bio.psn / sceSctrPerFrag)) with
      | written => rfl
      | asked | read =>
        rw [at_] at done
        cases done
    have sector : bio.psn / sceSctrPerFrag * sceSctrPerFrag + (bio.psn % sceSctrPerFrag + o) = bio.psn + o := by
      rw [← Nat.add_assoc, Nat.div_add_mod']
    have size : t.nrSctr = l.nrSctr := by rw [same]; rfl
    have copied := h.copied hdd t (bio.psn / sceSctrPerFrag) c (bio.psn % sceSctrPerFrag + o) target online cell
      (by omega) (by rw [sector]; omega) (by
        rw [sector]
        refine (clean _ ?_ ?_).2
        · exact Nat.div_le_div_right (Nat.le_add_right _ _)
        · exact Nat.div_le_div_right (by omega))
    unfold Copied at copied
    rw [stage, sector] at copied
    rw [← copied.2 _ _ dev, off]
  · have shape := h.pinned.founded.base.inv.shape.devices
    have dev₀ : w'.sce.view.dev c.addr.dev = some (m.cdevctx, size) := by
      obtain ⟨_, reply, _, turn⟩ := World.exec_turn h.faithful.base called
      exact turn.dev_stays dev (by simp)
    have base' := (World.exec_turn h.faithful.base called).1
    have slot := base'.inv.shape.devices.unique _ _ _ _ _ dev' dev₀
    rw [addr, slot]
    exact congrArg₂ Phys.mk rfl off

theorem Reading.read (h : s.Reading) (coherent : s.Coherent) (moves : s.exec (.read hdd bio) = some s') :
    s'.Reading := by
  obtain ⟨⟨o, w'⟩, passes, rfl⟩ := Option.map_eq_some_iff.mp moves
  have held : ∀ t, t ≤ s.disk.now → s.disk.tick.held t = s.disk.held t := fun _ past => History.tick_held past
  have outcome : (o = none ∧ w' = s.world) ∨ ∃ t, s.targets hdd = some t ∧ t.online = true ∧ ∃ reply,
      s.world.ask (.get4read t.lun bio.psn bio.nrSctr) = some (reply, w') ∧ ∀ m, o = some m → reply = .fmap (some m) := by
    cases target : s.targets hdd with
    | none =>
      rw [target] at passes
      obtain ⟨rfl, rfl⟩ := Prod.mk.inj (Option.some.inj passes)
      exact Or.inl ⟨rfl, rfl⟩
    | some t =>
      rw [target] at passes
      rcases World.mkrequestRead_eq_some passes with same | ⟨online, rest⟩
      · exact Or.inl same
      · exact Or.inr ⟨t, rfl, online, rest⟩
  refine ⟨?_, ?_, ?_, ?_, ?_⟩
  · intro r member
    rcases List.mem_cons.mp member with rfl | old
    · exact Nat.le_succ _
    · exact Nat.le_succ_of_le (h.past r old)
  · intro r member id m hit
    rcases List.mem_cons.mp member with rfl | old
    · obtain ⟨m', rfl, same⟩ := Option.map_eq_some_iff.mp hit
      obtain ⟨rfl, rfl⟩ := Prod.mk.inj same
      rcases outcome with ⟨none, _⟩ | ⟨t, target, online, reply, asked, answer⟩
      · cases none
      · rw [answer m' rfl] at asked
        obtain ⟨small, fits, copy, pins⟩ := coherent.served target online asked
        exact ⟨small, fits, fun o ho => (copy o ho).trans (congrFun (held _ (Nat.le_refl _)) _).symm, pins⟩
    · rcases outcome with ⟨_, rfl⟩ | ⟨t, target, online, reply, asked, _⟩
      · exact (h.hits r old id m hit).still (h.past r old) rfl held fun _ _ => rfl
      · exact (h.hits r old id m hit).outlasts (h.past r old) coherent.faithful.base (World.ask_eq_some.mp asked).1
          held rfl (by simp) (by simp)
  · intro r member data read
    rcases List.mem_cons.mp member with rfl | old
    · cases read
    · exact (h.shown r old data read).mono (Nat.le_succ _) held
  · exact fun r member => Nat.le_succ_of_le (h.ended r member)
  · exact fun r member => (h.served r member).mono (Nat.le_refl _) fun t past => held t (Nat.le_trans past (h.ended r member))

/-! ### Every step -/

theorem Coherent.read (h : s.Coherent) (ok : s.Careful (.read hdd bio)) (moves : s.exec (.read hdd bio) = some s') :
    s'.Coherent := by
  obtain ⟨⟨o, w'⟩, passes, rfl⟩ := Option.map_eq_some_iff.mp moves
  have passed : w' = s.world → Coherent
      { s with
        world := w', disk := s.disk.tick
        reads := ⟨hdd, bio.psn, bio.nrSctr, s.disk.now, o.map (s.world.now, ·), none⟩ :: s.reads } := by
    rintro rfl
    refine h.quiescent rfl rfl h.finished ?_
    intro hdd' t f c o target online cell ho inside clean
    refine (h.copied hdd' t f c o target online cell ho inside clean).still rfl rfl (fun quiet => quiet) (fun _ => ?_)
      fun _ _ _ _ => rfl
    exact congrFun History.tick_contents _
  cases target : s.targets hdd with
  | none =>
    rw [target] at passes
    obtain ⟨rfl, same⟩ := Prod.mk.inj (Option.some.inj passes)
    exact passed same.symm
  | some t =>
    rw [target] at passes
    rcases World.mkrequestRead_eq_some passes with ⟨_, same⟩ | ⟨_, reply, asked, _⟩
    · exact passed same
    · exact h.same (World.ask_eq_some.mp asked).1 (ok t target) trivial (by simp) (by simp) History.tick_contents rfl rfl
        rfl (fun _ _ => rfl) (by simp) (by simp)

theorem Coherent.engine (h : s.Coherent) (moves : s.engine call = some s') (ok : s.world.Pinning call)
    (orderly : s.world.Orderly call) (small : ∀ m ctx vmalloc, call = .addcdev m ctx vmalloc → m < 2 ^ 32)
    (kept : ∀ i, call ≠ .rmlun i) (got : ∀ past, call ≠ .get4pop past)
    (done : ∀ id, call = .put4pop id false → (s.stage id).done = true) : s'.Coherent := by
  obtain ⟨w', called, rfl⟩ := Option.map_eq_some_iff.mp moves
  exact h.same called ok orderly small kept History.tick_contents rfl rfl rfl (fun _ _ => rfl)
    (fun past e => absurd e (got past)) done

/-- A step of the data of a read bio, or the end of a write bio that fails. -/
theorem Coherent.aside (h : s.Coherent) (world : s'.world = s.world) (targets : s'.targets = s.targets)
    (stage : s'.stage = s.stage) (writes : ∀ b ∈ s'.writes, b ∈ s.writes) (ssd : s'.ssd = s.ssd)
    (contents : s'.disk.contents = s.disk.contents) : s'.Coherent := by
  refine h.quiescent world targets ?_ ?_
  · rw [stage]
    exact h.finished
  · intro hdd t f c o target online cell ho inside clean
    refine (h.copied hdd t f c o target online cell ho inside clean).still world (by rw [stage]) (fun quiet => ?_)
      (fun _ => by rw [contents]) fun _ _ _ _ => by rw [ssd]
    exact fun b member => quiet b (writes b member)

theorem Coherent.step {act : Act} (h : s.Coherent) (ok : s.Careful act) (moves : s.exec act = some s') : s'.Coherent := by
  have deliver : ∀ {id : Nat} {get : ReadBio → Option (Nat → Sector)}, s.deliver id get = some s' → s'.Coherent := by
    intro id get moves
    obtain ⟨r, _, moves⟩ := Option.bind_eq_some_iff.mp moves
    obtain ⟨data, _, rfl⟩ := Option.map_eq_some_iff.mp moves
    exact h.aside rfl rfl rfl (fun _ member => member) rfl History.tick_contents
  cases act with
  | addcdev nrSctr cdctx vmalloc =>
    refine h.engine moves ⟨trivial, (fun get => by cases get), trivial⟩ trivial ?_ (by simp) (by simp) (by simp)
    rintro m ctx vmalloc' e
    obtain ⟨rfl, _⟩ := Call.addcdev.inj e
    exact ok.1
  | rmcdev devnum =>
    exact h.engine moves ⟨trivial, (fun get => by cases get), trivial⟩ ok (by simp) (by simp) (by simp) (by simp)
  | register hdd nrSctr vmalloc => exact h.register ok moves
  | offline hdd => exact h.offline moves
  | rmlun hdd => exact h.rmlun moves
  | write hdd bio data => exact h.write ok moves
  | land id => exact h.land moves
  | endWrite id => exact h.endWrite moves
  | failWrite id =>
    obtain ⟨_, _, rfl⟩ := Option.map_eq_some_iff.mp moves
    exact h.aside rfl rfl rfl (fun _ => List.mem_of_mem_eraseP) rfl History.tick_contents
  | get4pop past =>
    obtain ⟨w', called, rfl⟩ := Option.map_eq_some_iff.mp moves
    refine h.same called ⟨trivial, ok, trivial⟩ trivial (by simp) (by simp) History.tick_contents rfl rfl rfl ?_ ?_ (by simp)
    · exact fun t early => Function.update_of_ne (Nat.ne_of_lt early) _ _
    · exact fun past' _ => Function.update_self _ _ _
  | poptaskRead id fragbuf => exact h.poptaskRead ok moves
  | poptaskWrite id => exact h.poptaskWrite moves
  | put4pop id =>
    refine h.engine moves ⟨trivial, (fun get => by cases get), trivial⟩ trivial (by simp) (by simp) (by simp) ?_
    intro id' e
    obtain ⟨rfl, done⟩ := Call.put4pop.inj e
    simpa using done
  | read hdd bio => exact h.read ok moves
  | readSsd id => exact deliver moves
  | readHdd id => exact deliver moves
  | put4read hit =>
    obtain ⟨w', called, rfl⟩ := Option.map_eq_some_iff.mp moves
    exact h.same called ok trivial (by simp) (by simp) History.tick_contents rfl rfl rfl (fun _ _ => rfl) (by simp)
      (by simp)
  | endRead id =>
    obtain ⟨r, _, moves⟩ := Option.bind_eq_some_iff.mp moves
    obtain ⟨data, _, rfl⟩ := Option.map_eq_some_iff.mp moves
    exact h.aside rfl rfl rfl (fun _ member => member) rfl History.tick_contents
  | failRead id =>
    obtain ⟨_, _, rfl⟩ := Option.map_eq_some_iff.mp moves
    exact h.aside rfl rfl rfl (fun _ member => member) rfl History.tick_contents

theorem Reading.engine (h : s.Reading) (base : s.world.Base) (moves : s.engine call = some s')
    (others : ∀ id, call ≠ .put4read id)
    (apart : ∀ n ctx vmalloc, call = .addcdev n ctx vmalloc → ∀ r ∈ s.reads, ∀ hit ∈ r.hit, hit.2.cdevctx ≠ ctx) :
    s'.Reading := by
  obtain ⟨w', called, rfl⟩ := Option.map_eq_some_iff.mp moves
  exact h.calls base called rfl (fun _ past => History.tick_held past) rfl rfl rfl others apart

theorem Reading.step {act : Act} (h : s.Reading) (coherent : s.Coherent) (ok : s.Careful act)
    (moves : s.exec act = some s') : s'.Reading := by
  have base := coherent.faithful.base
  have tick : ∀ t, t ≤ s.disk.now → s.disk.tick.held t = s.disk.held t := fun _ past => History.tick_held past
  cases act with
  | addcdev nrSctr cdctx vmalloc =>
    apply h.engine base moves (by simp)
    rintro n ctx vmalloc' e
    obtain ⟨_, rfl, _⟩ := Call.addcdev.inj e
    exact ok.2
  | rmcdev devnum => exact h.engine base moves (by simp) (by simp)
  | register hdd nrSctr vmalloc =>
    obtain ⟨⟨reply, w'⟩, asked, rfl⟩ := Option.map_eq_some_iff.mp moves
    exact h.calls base (World.ask_eq_some.mp asked).1 rfl tick rfl rfl rfl (by simp) (by simp)
  | offline hdd =>
    obtain rfl := Option.some.inj moves
    exact h.still rfl rfl tick rfl rfl rfl
  | rmlun hdd =>
    obtain ⟨t, _, moves⟩ := Option.bind_eq_some_iff.mp moves
    obtain ⟨w', called, rfl⟩ := Option.map_eq_some_iff.mp moves
    exact h.calls base called rfl tick rfl rfl rfl (by simp) (by simp)
  | write hdd bio data =>
    obtain ⟨w', passes, rfl⟩ := Option.map_eq_some_iff.mp moves
    -- the bio is passed on as it came, or its range is invalidated first
    have outcome : w' = s.world ∨ ∃ i x n, s.world.exec (.invalidate i x n) = some w' := by
      cases target : s.targets hdd with
      | none =>
        rw [target] at passes
        exact Or.inl (Option.some.inj passes).symm
      | some t =>
        rw [target] at passes
        have passes : s.world.mkrequestWrite t bio = some w' := passes
        unfold World.mkrequestWrite at passes
        split at passes
        · exact Or.inl (Option.some.inj passes).symm
        · split at passes
          · exact Or.inl (Option.some.inj passes).symm
          · split at passes
            · exact Or.inl (Option.some.inj passes).symm
            · exact Or.inr ⟨_, _, _, passes⟩
    rcases outcome with rfl | ⟨i, x, n, called⟩
    · exact h.still rfl rfl tick rfl rfl rfl
    · exact h.calls base called rfl tick rfl rfl rfl (by simp) (by simp)
  | land id =>
    obtain ⟨b, _, rfl⟩ := Option.map_eq_some_iff.mp moves
    exact h.still rfl rfl (fun _ past => History.update_held past) rfl rfl rfl
  | endWrite id | failWrite id =>
    obtain ⟨b, _, rfl⟩ := Option.map_eq_some_iff.mp moves
    exact h.still rfl rfl tick rfl rfl rfl
  | get4pop past =>
    obtain ⟨w', called, rfl⟩ := Option.map_eq_some_iff.mp moves
    exact h.calls base called rfl tick rfl rfl rfl (by simp) (by simp)
  | poptaskRead id fragbuf =>
    obtain ⟨p, _, moves⟩ := Option.bind_eq_some_iff.mp moves
    obtain ⟨t, _, moves⟩ := Option.bind_eq_some_iff.mp moves
    obtain ⟨buf, _, rfl⟩ := Option.map_eq_some_iff.mp moves
    exact h.still rfl rfl tick rfl rfl rfl
  | poptaskWrite id => exact h.poptaskWrite coherent moves
  | put4pop id => exact h.engine base moves (by simp) (by simp)
  | read hdd bio => exact h.read coherent moves
  | readSsd id => exact h.readSsd moves
  | readHdd id => exact h.readHdd moves
  | put4read hit => exact h.put4read base moves
  | endRead id => exact h.endRead moves
  | failRead id => exact h.failRead moves

theorem coherent_of_reachable (reached : Reachable exec Careful (init contents ssd) s) : s.Coherent ∧ s.Reading :=
  reached.invariant (I := fun s => s.Coherent ∧ s.Reading) ⟨.init, .init⟩ fun _ _ _ h ok moves => ⟨h.1.step ok moves, h.2.step h.1 ok moves⟩

/-- No write bio is on its way when a population reads its disk. -/
def calm (s : Store) : Act → Bool
  | .addcdev nrSctr cdctx _ => decide (nrSctr < 2 ^ 32) && s.reads.all fun r => r.hit.all fun hit => hit.2.cdevctx != cdctx
  | .rmcdev _ => s.world.pops.isEmpty
  | .register hdd nrSctr vmalloc => decide (s.world.Orderly (.addlun nrSctr hdd vmalloc))
  | .rmlun hdd => (s.targets hdd).all fun t => !t.online
  | .write hdd bio _ => (s.targets hdd).all fun t => !t.online || decide (bio.psn + bio.nrSctr < t.nrSctr)
  | .get4pop past => decide (s.world.Roomy (.get4pop past))
  | .poptaskRead _ _ => s.writes.all fun b => b.landed.isSome
  | .read hdd bio => (s.targets hdd).all fun t => decide (s.world.Pinning (.get4read t.lun bio.psn bio.nrSctr))
  | .put4read hit => decide (s.world.Pinning (.put4read hit))
  | _ => true

theorem careful_of_calm {act : Act} (ok : s.calm act = true) : s.Careful act := by
  cases act with
  | addcdev nrSctr cdctx vmalloc =>
    simp only [calm, Bool.and_eq_true, decide_eq_true_eq, List.all_eq_true, Option.all_eq_true, bne_iff_ne] at ok
    exact ok
  | rmcdev devnum => exact List.isEmpty_iff.mp ok
  | register hdd nrSctr vmalloc =>
    simp only [calm, decide_eq_true_eq] at ok
    exact ok
  | rmlun hdd =>
    simp only [calm, Option.all_eq_true, Bool.not_eq_true'] at ok
    exact ok
  | write hdd bio data =>
    simp only [calm, Option.all_eq_true, Bool.or_eq_true, Bool.not_eq_true', decide_eq_true_eq] at ok
    exact fun t target online => (ok t target).resolve_left (by simp [online])
  | get4pop past =>
    simp only [calm, decide_eq_true_eq] at ok
    exact ok
  | poptaskRead id fragbuf =>
    simp only [calm, List.all_eq_true] at ok
    intro p _ _ t _ q _
    refine Or.inl fun b member flying => ?_
    have landed := ok b member
    rw [flying] at landed
    cases landed
  | read hdd bio =>
    simp only [calm, Option.all_eq_true, decide_eq_true_eq] at ok
    exact ok
  | put4read hit =>
    simp only [calm, decide_eq_true_eq] at ok
    exact ok
  | offline | land | endWrite | failWrite | poptaskWrite | put4pop | readSsd | readHdd | endRead | failRead => trivial

/-- A sector all of whose bytes are the same. -/
def filled (byte : BitVec 8) : Sector := fun _ => byte

/-- The first page of a disk is read, written, cached, and read again. Then a write bio and a read bio fail. -/
def warming : List Act :=
  [.addcdev 2048 7 true, .register 9 4096 true, .read 9 ⟨0, 4096, 0⟩, .readHdd 2, .endRead 2,
    .write 9 ⟨0, 4096, 0⟩ fun _ => filled 1#8, .land 5, .endWrite 5, .get4pop fun _ _ => 0#32,
    .poptaskRead 4 fun _ => filled 0#8, .poptaskWrite 4, .put4pop 4, .read 9 ⟨0, 4096, 0⟩, .readSsd 12, .put4read 6,
    .endRead 12, .write 9 ⟨0, 4096, 0⟩ fun _ => filled 2#8, .failWrite 16, .read 9 ⟨0, 4096, 0⟩, .failRead 18]

def blank : Store := init (fun _ => filled 0#8) fun _ _ => filled 0#8

def warmed : Store := (Util.execAll exec calm blank warming).getD blank

theorem warmed_reachable : Reachable exec Careful (init (fun _ => filled 0#8) fun _ _ => filled 0#8) warmed :=
  Util.reachable_getD (fun _ _ => careful_of_calm) (by decide +kernel)

theorem warmed_served : warmed.served.map (fun r => (r.hdd, r.psn, r.nrSctr, r.began, r.ended)) =
    [(9, 0, 8, 12, 15), (9, 0, 8, 2, 4)] := by decide +kernel

/-- The second read bio of `warming`. -/
theorem warmed_last : ∃ r ∈ warmed.served, r.began = 12 ∧ r.ended = 15 := by
  obtain ⟨r, rest, served⟩ : ∃ r rest, warmed.served = r :: rest := by
    cases served : warmed.served with
    | nil =>
      have count := congrArg List.length warmed_served
      rw [served] at count
      cases count
    | cons r rest => exact ⟨r, rest, rfl⟩
  have times := warmed_served
  rw [served, List.map_cons] at times
  have first := (List.cons.inj times).1
  simp only [Prod.mk.injEq] at first
  have member : r ∈ warmed.served := by rw [served]; exact List.mem_cons_self
  exact ⟨r, member, first.2.2.2.1, first.2.2.2.2⟩

end Store

end Iostash
