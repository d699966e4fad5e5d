import Iostash.Client.Frame

/-!
# Every call returns

With devices a pfid can name, LUNs whose fragments 32 bits can count and ranges that do not wrap, no call
meets a `BUG_ON`, a fragment that is not there or the end of a fragment map.
-/

namespace Iostash

open Util

/-- The bits set in a bitmap. -/
def bitsSet (bm : Bitmap) : Nat := ((Finset.range scePagePerFrag).filter fun p => bitmapBit bm p = true).card

theorem clearCount_add_bitsSet (bm : Bitmap) : clearCount (bitmapBit bm) 0 scePagePerFrag + bitsSet bm =
    scePagePerFrag := by
  have split := Finset.card_filter_add_card_filter_not (s := Finset.range scePagePerFrag) fun p => bitmapBit bm p = false
  simp only [Bool.not_eq_false, Finset.card_range] at split
  unfold clearCount bitsSet
  rwa [Nat.zero_add, ← Finset.range_eq_Ico]

variable {s : Sce} {i x n : Nat}

/-! ### Ranges inside the map -/

/-- A LUN of at most 2^43 sectors has a fragment for every sector. -/
theorem lun_covers (h : Inv nowhere s) {l : Lun} (lun : s.luntbl i = some l) (small : l.nrSctr ≤ 2 ^ 43) :
    l.nrSctr ≤ l.nrFrag * 2048 := by
  obtain ⟨_, pos, _, size⟩ := h.shape.luns.bounds i _ _ (Sce.extent_eq_some.mpr ⟨l, lun, rfl, rfl⟩)
  simp only [sceSctrPerFrag, u32] at size
  omega

theorem not_pastMap (h : Inv nowhere s) (small : ∀ l, s.luntbl i = some l → l.nrSctr ≤ 2 ^ 43)
    (short : x + n < 2 ^ 64) : ¬ s.pastMap i x n (x / sceSctrPerFrag) := by
  rintro ⟨l, lun, range, past⟩
  obtain ⟨pos, inside⟩ := (inRange_iff short).mp range
  have covers := lun_covers h lun (small l lun)
  have frags := h.shape.nrFrag_lt lun
  simp only [sceSctrPerFrag] at past
  have whole : u32 (x / 2048) = x / 2048 := u32_of_lt (by have := small l lun; omega)
  omega

theorem not_beyond (h : Inv nowhere s) (small : ∀ l, s.luntbl i = some l → l.nrSctr ≤ 2 ^ 43)
    (short : x + n < 2 ^ 64) (typed : n < 2 ^ 32) {l : Lun} (lun : s.luntbl i = some l) (range : inRange l x n = true) :
    invFrag x * 256 + invOff x + invCount x n ≤ l.nrFrag * 256 := by
  obtain ⟨pos, inside⟩ := (inRange_iff short).mp range
  have covers := lun_covers h lun (small l lun)
  have limit := small l lun
  obtain ⟨first, count⟩ := inv_pages (x := x) pos typed (by omega)
  omega

/-! ### One call -/

/-- The sizes of an argument: a device of at most 2^24 fragments, a LUN of at most 2^43 sectors, a range
that does not wrap. -/
def Op.Bounded : Op → Prop
  | .addcdev nrSctr _ _ => u32 (nrSctr / sceSctrPerFrag) ≤ 2 ^ 24
  | .addlun nrSctr _ _ => nrSctr ≤ 2 ^ 43
  | .get4read _ x n => x + n < 2 ^ 64
  | .invalidate _ x n => x + n < 2 ^ 64 ∧ n < 2 ^ 32
  | _ => True

/-- The devices and LUNs were added with such sizes. -/
structure View.Bounded (v : View) : Prop where
  dev : ∀ d ctx n, v.dev d = some (ctx, n) → n ≤ 2 ^ 24
  lun : ∀ i l, v.lun i = some l → l.nrSctr ≤ 2 ^ 43

theorem View.Bounded.lunSize (h : s.view.Bounded) : ∀ l, s.luntbl i = some l → l.nrSctr ≤ 2 ^ 43 :=
  fun l lun => h.lun i l.volume (by rw [Sce.view_lun, lun]; rfl)

theorem View.Bounded.visits (h : Inv nowhere s) (bounded : s.view.Bounded) {l : Lun}
    (lock : lockLun s i x n true = some l) (short : x + n < 2 ^ 64) (typed : n < 2 ^ 32) :
    ∃ wh s', visitFragments s i x n = .ok ((0, wh), s') := by
  obtain ⟨lun, range, _⟩ := lockLun_eq_some.mp lock
  rcases visitFragments_spec h lock with ⟨tight, _⟩ | ⟨_, beyond⟩ | ⟨wh, s', run, _⟩
  · exact absurd (roomy_of_short bounded.dev) tight
  · exact absurd (not_beyond h bounded.lunSize short typed lun range) (Nat.not_le.mpr beyond)
  · exact ⟨wh, s', run⟩

theorem Sce.call_ok (h : Inv nowhere s) (bounded : s.view.Bounded) {op : Op} (typed : op.Typed) (ok : op.Bounded) :
    ∃ reply s', s.call op = .ok (reply, s') := by
  have roomy := roomy_of_short bounded.dev
  have done : ∀ {α : Type} {e : Except Fault (α × Sce)} {r : α} {s' : Sce} {reply : α → Reply}, e = .ok (r, s') →
      ∃ reply' t, e.map (fun p => (reply p.1, p.2)) = .ok (reply', t) := by
    rintro α e r s' reply rfl
    exact ⟨_, _, rfl⟩
  cases op with
  | addcdev m ctx vmalloc =>
    rcases sceAddcdev_spec h m ctx vmalloc with
      fail | ⟨d, n, size, pos, slot, absent, ctx_ne, fresh, ⟨tight, _⟩ | ⟨s₁, run, _⟩⟩
    · exact done fail
    · refine absurd (roomy_of_short fun e c k dev => ?_) tight
      have dev : (if e = d then some (ctx, n) else s.dev e) = some (c, k) := dev
      split at dev
      · obtain ⟨_, rfl⟩ := Prod.mk.inj (Option.some.inj dev)
        rw [size]
        exact ok
      · exact bounded.dev e c k dev
    · exact done run
  | rmcdev d =>
    rcases sceRmcdev_spec h d with ⟨_, fail⟩ | ⟨ctx, n, s₁, _, run, _⟩
    · exact done fail
    · exact done run
  | addlun m ctx vmalloc =>
    rcases sceAddlun_spec h typed ctx vmalloc with fail | ⟨i, s₁, run, _⟩
    · exact done fail
    · exact done run
  | rmlun i =>
    rcases sceRmlun_spec h i with ⟨_, fail⟩ | ⟨l, _, ⟨tight, _⟩ | ⟨s₁, run, _⟩⟩
    · exact done fail
    · exact absurd roomy tight
    · exact done run
  | get4read i x n =>
    rcases sceGet4read_spec h i typed.1 typed.2 with
      ⟨c, ctx, size, s₁, _, _, run, _⟩ | ⟨_, ⟨_, past⟩ | ⟨s₁, run, _⟩⟩
    · exact done run
    · exact absurd past (not_pastMap h bounded.lunSize ok)
    · exact done run
  | put4read i x n =>
    rcases scePut4read_spec h i typed.1 typed.2.1 typed.2.2 with
      ⟨_, ⟨tight, _⟩ | ⟨s₁, run, _⟩⟩ | ⟨_, ⟨_, past⟩ | fail⟩
    · exact absurd roomy tight
    · exact done run
    · exact absurd past (not_pastMap h bounded.lunSize typed.2.1)
    · exact done fail
  | invalidate i x n =>
    rcases sceInvalidate_spec h i x n with
      ⟨_, fail⟩ | ⟨_, ⟨tight, _⟩ | ⟨_, l, lun, range, beyond⟩ | ⟨l, s₁, run, _⟩⟩
    · exact done fail
    · exact absurd roomy tight
    · exact absurd (not_beyond h bounded.lunSize ok.1 ok.2 lun range) (Nat.not_le.mpr beyond)
    · exact done run
  | get4pop past =>
    rcases sceGet4pop_spec h past with ⟨tight, _⟩ | ⟨s₁, run, _⟩ | ⟨i, f, a, l, ctx, size, s₁, run, _⟩
    · exact absurd roomy tight
    · exact done run
    · exact done run
  | put4pop poptask failed =>
    rcases scePut4pop_spec h poptask failed with ⟨tight, _⟩ | ⟨s₁, run, _⟩
    · exact absurd roomy tight
    · exact done run

/-! ### In every run -/

namespace World

variable {w w' : World} {call : Call}

/-- A client keeps to sizes the engine has numbers for. -/
def Sized (_ : World) : Call → Prop
  | .addcdev nrSctr _ _ => u32 (nrSctr / sceSctrPerFrag) ≤ 2 ^ 24
  | .addlun nrSctr _ _ => nrSctr ≤ 2 ^ 43
  | .get4read _ x n => x + n < 2 ^ 64
  | .invalidate _ x n => x + n < 2 ^ 64
  | _ => True

/-- No device is longer than the clients make them. -/
theorem short_of_reachable {allow : World → Call → Prop} (reached : Reachable exec allow init w)
    (short : ∀ w m ctx vmalloc, allow w (.addcdev m ctx vmalloc) → u32 (m / sceSctrPerFrag) ≤ 2 ^ 24) :
    ∀ d ctx n, w.sce.dev d = some (ctx, n) → n ≤ 2 ^ 24 := by
  refine (reached.invariant (I := fun w => w.Base ∧ ∀ d ctx n, w.sce.dev d = some (ctx, n) → n ≤ 2 ^ 24)
    ⟨.init, ?_⟩ ?_).2
  · intro d ctx n dev
    cases dev
  · rintro w call w' ⟨base, old⟩ allowed moves
    obtain ⟨base', reply, _, turn⟩ := exec_turn base moves
    refine ⟨base', fun d ctx n dev => ?_⟩
    rcases turn.dev dev with same | ⟨_, m, ctx', vmalloc, rfl, same⟩
    · exact old d ctx n same
    · rw [(Prod.mk.inj same).2]
      exact short w m ctx' vmalloc allowed

/-- No LUN is longer than the clients make them. -/
theorem small_of_reachable {allow : World → Call → Prop} (reached : Reachable exec allow init w)
    (small : ∀ w m ctx vmalloc, allow w (.addlun m ctx vmalloc) → m ≤ 2 ^ 43) :
    ∀ i l, w.sce.view.lun i = some l → l.nrSctr ≤ 2 ^ 43 := by
  refine (reached.invariant (I := fun w => w.Base ∧ ∀ i l, w.sce.view.lun i = some l → l.nrSctr ≤ 2 ^ 43)
    ⟨.init, ?_⟩ ?_).2
  · intro i l lun
    cases lun
  · rintro w call w' ⟨base, old⟩ allowed moves
    obtain ⟨base', reply, _, turn⟩ := exec_turn base moves
    refine ⟨base', fun i l lun => ?_⟩
    rcases turn.lun lun with ⟨l₀, same, back⟩ | ⟨m, ctx, vmalloc, rfl, _, _, rfl⟩
    · rw [back.2.1]
      exact old i l₀ same
    · exact small w m ctx vmalloc allowed

theorem bounded_of_reachable (reached : Reachable exec Sized init w) : w.sce.view.Bounded :=
  ⟨short_of_reachable reached fun _ _ _ _ ok => ok, small_of_reachable reached fun _ _ _ _ ok => ok⟩

/-- Every call returns: no `BUG_ON` holds on the way. Invalidation visits every page of its range, and a
mapped descriptor names a fragment, also between the steps of a call, whose count of valid pages is that of
the bits its bitmap has clear. -/
theorem call_returns (reached : Reachable exec Sized init w) :
    (∀ call op, w.Sized call → w.op call = some op → ∃ reply s', w.sce.call op = .ok (reply, s')) ∧
    (∀ i l x n, x + n < 2 ^ 64 → n < 2 ^ 32 → lockLun w.sce i x n true = some l →
      ∃ wh s', visitFragments w.sce i x n = .ok ((0, wh), s')) ∧
    ∀ i l f, w.sce.luntbl i = some l → f < l.nrFrag → isMapped (l.fragmap f) = true →
      (∃ g, w.sce.pfid2frag (l.fragmap f) = some g ∧ g.nrValid = scePagePerFrag - bitsSet g.bitmap) ∧
      ∀ s : Sce, s.dev = w.sce.dev → s.pfid2frag (l.fragmap f) ≠ none := by
  have base := base_of_reachable reached
  have bounded := bounded_of_reachable reached
  refine ⟨?_, fun i l x n short typed lock => bounded.visits base.inv lock short typed, ?_⟩
  · intro call op sized named
    refine Sce.call_ok base.inv bounded (op_typed base named) ?_
    cases call with
    | addlun | get4read =>
      obtain ⟨_, ⟨⟩⟩ := Option.ite_none_right_eq_some.mp named
      exact sized
    | invalidate =>
      obtain ⟨typed, ⟨⟩⟩ := Option.ite_none_right_eq_some.mp named
      exact ⟨sized, typed.2⟩
    | addcdev =>
      obtain rfl := Option.some.inj named
      exact sized
    | rmcdev | rmlun | get4pop =>
      obtain rfl := Option.some.inj named
      trivial
    | put4read | put4pop =>
      obtain ⟨_, _, rfl⟩ := Option.map_eq_some_iff.mp named
      trivial
  · intro i l f lun inside mapped
    obtain ⟨m, slot⟩ := base.inv.shape.slot_of_mapped lun inside mapped
    obtain ⟨l', lun', _, _, addr, _, frag⟩ := Sce.slot_eq_some.mp slot
    obtain rfl := Option.some.inj (lun.symm.trans lun')
    have names : w.sce.pfid2frag (l.fragmap f) = some m.frag := by rw [Sce.pfid2frag, ← addr, frag]
    refine ⟨⟨m.frag, names, ?_⟩, fun s same => ?_⟩
    · obtain ⟨_, count⟩ := base.inv.pages i f m slot
      have total := clearCount_add_bitsSet m.frag.bitmap
      omega
    · obtain ⟨ctx, n, dev, off⟩ := Sce.frag?_isSome.mp (Option.isSome_of_eq_some frag)
      have there : (s.frag? m.addr).isSome := Sce.frag?_isSome.mpr ⟨ctx, n, by rw [same, dev], off⟩
      rw [Sce.pfid2frag, ← addr]
      exact Option.ne_none_iff_isSome.mpr there

instance (w : World) (call : Call) : Decidable (w.Sized call) :=
  match call with
  | .addcdev nrSctr _ _ => inferInstanceAs (Decidable (u32 (nrSctr / sceSctrPerFrag) ≤ 2 ^ 24))
  | .addlun nrSctr _ _ => inferInstanceAs (Decidable (nrSctr ≤ 2 ^ 43))
  | .get4read _ x n | .invalidate _ x n => inferInstanceAs (Decidable (x + n < 2 ^ 64))
  | .rmcdev _ | .rmlun _ | .put4read _ | .get4pop _ | .put4pop _ _ => .isTrue trivial

/-- Two devices of one fragment, a LUN of two, both of its fragments cached, and one device removed. -/
def unplugged : World :=
  (Util.execAll exec (fun w call => decide (w.Sized call)) init
    [.addcdev 2048 7 true, .addcdev 2048 8 true, .addlun 4096 9 true, .get4read 0 0 8, .get4pop fun _ _ => 0#32,
      .put4pop 4 false, .get4read 0 2048 8, .get4pop fun _ _ => 0#32, .put4pop 7 false, .rmcdev 1]).getD init

theorem unplugged_reachable : Reachable exec Sized init unplugged :=
  Util.reachable_getD (fun _ _ ok => of_decide_eq_true ok) (by decide +kernel)

theorem call_returns_unplugged : ∃ wh s', visitFragments unplugged.sce 0 2040 16 = .ok ((0, wh), s') := by
  have accepted : (lockLun unplugged.sce 0 2040 16 true).isSome := by decide +kernel
  obtain ⟨l, lock⟩ := Option.isSome_iff_exists.mp accepted
  exact (call_returns unplugged_reachable).2.1 0 l 2040 16 (by decide) (by decide) lock

/-- A LUN of 2^32 + 1 fragments; 32 bits of their number are kept. -/
def hugeLun : World := after [.addlun (2 ^ 43 + 2 ^ 11) 9 true]

theorem visit_leaves_map : Reachable exec (fun _ _ => True) init hugeLun ∧
    (hugeLun.sce.luntbl 0).map (fun l => (l.nrSctr, l.nrFrag)) = some (2 ^ 43 + 2 ^ 11, 1) ∧
    (lockLun hugeLun.sce 0 2048 8 true).isSome ∧ visitFragments hugeLun.sce 0 2048 8 = .error .outOfRange := by
  refine ⟨after_reachable (by decide +kernel), by decide +kernel, by decide +kernel, ?_⟩
  have stops : (match visitFragments hugeLun.sce 0 2048 8 with
      | .error e => some e
      | .ok _ => none) = some Fault.outOfRange := by decide +kernel
  cases run : visitFragments hugeLun.sce 0 2048 8 with
  | error e =>
    rw [run] at stops
    rw [Option.some.inj stops]
  | ok r =>
    rw [run] at stops
    cases stops

end World

end Iostash
