import Iostash.Sce.Invalidation
import Iostash.Sce.Unplugging

/-!
# One call

The nine functions of the API as one transition, and what a call that returns does to the abstract
cache. Every invariant over runs is proved from `Effect`; no later module looks into a call again.
-/

namespace Iostash

/-- A call with its arguments. `vmalloc` says whether memory can be had, `past` is what `sce_get4pop`
finds behind the end of a fragment map. -/
inductive Op where
  | addcdev (nrSctr cdctx : Nat) (vmalloc : Bool)
  | rmcdev (devnum : Nat)
  | addlun (nrSctr lunctx : Nat) (vmalloc : Bool)
  | rmlun (lunidx : Nat)
  | get4read (lunidx sctrnum nrSctr : Nat)
  | put4read (lunidx sctrnum nrSctr : Nat)
  | invalidate (lunidx sctrnum nrSctr : Nat)
  | get4pop (past : Nat → Nat → Word)
  | put4pop (poptask : Poptask) (failed : Bool)

inductive Reply where
  | hndl (h : Option Nat)
  | ret (r : Ret)
  | fmap (m : Option Fmap)
  | poptask (t : Option Poptask)
  deriving DecidableEq, Repr

def Sce.call (s : Sce) : Op → Except Fault (Reply × Sce)
  | .addcdev nrSctr cdctx vmalloc => (sceAddcdev s nrSctr cdctx vmalloc).map fun r => (.hndl r.1, r.2)
  | .rmcdev devnum => (sceRmcdev s devnum).map fun r => (.ret r.1, r.2)
  | .addlun nrSctr lunctx vmalloc => (sceAddlun s nrSctr lunctx vmalloc).map fun r => (.hndl r.1, r.2)
  | .rmlun i => (sceRmlun s i).map fun r => (.ret r.1, r.2)
  | .get4read i x n => (sceGet4read s i x n).map fun r => (.fmap r.1, r.2)
  | .put4read i x n => (scePut4read s i x n).map fun r => (.ret r.1, r.2)
  | .invalidate i x n => (sceInvalidate s i x n).map fun r => (.ret r.1, r.2)
  | .get4pop past => (sceGet4pop s past).map fun r => (.poptask r.1, r.2)
  | .put4pop poptask failed => (scePut4pop s poptask failed).map fun r => (.ret r.1, r.2)

/-- The arguments have the types of the C prototypes, and a range that is put was one a get accepted. -/
def Op.Typed : Op → Prop
  | .addlun nrSctr _ _ => nrSctr < 2 ^ 64
  | .get4read _ x n => x < 2 ^ 64 ∧ n < 2 ^ 32
  | .put4read _ x n => 0 < n ∧ x + n < 2 ^ 64 ∧ (x + n - 1) / sceSctrPerFrag = x / sceSctrPerFrag
  | _ => True

/-- What a call that returns does to the abstract cache. -/
inductive Effect (v : View) : Op → Reply → View → Prop
  | addcdevFail {m ctx : Nat} {vmalloc : Bool} : Effect v (.addcdev m ctx vmalloc) (.hndl none) v
  | addcdev {m ctx d n : Nat} {vmalloc : Bool} (size : n = u32 (m / sceSctrPerFrag)) (pos : 0 < n)
      (slot : d < sceMaxCdev) (absent : v.dev d = none) (ctx_ne : ctx ≠ 0) (fresh : ∀ e k, v.dev e ≠ some (ctx, k)) :
      Effect v (.addcdev m ctx vmalloc) (.hndl (some d)) (v.plug d ctx n)
  | rmcdevFail {d : Nat} (absent : v.dev d = none) : Effect v (.rmcdev d) (.ret .error) v
  | rmcdev {d ctx n : Nat} (present : v.dev d = some (ctx, n)) : Effect v (.rmcdev d) (.ret .success) (v.unplug d)
  | addlunFail {m ctx : Nat} {vmalloc : Bool} : Effect v (.addlun m ctx vmalloc) (.hndl none) v
  | addlun {m ctx i : Nat} {vmalloc : Bool} (slot : i < sceMaxLun) (absent : v.lun i = none) (pos : 0 < m)
      (size : 0 < lunFrags m) :
      Effect v (.addlun m ctx vmalloc) (.hndl (some i)) (v.attach i ⟨ctx, m, lunFrags m, 0, false⟩)
  | rmlunFail {i : Nat} (absent : v.lun i = none) : Effect v (.rmlun i) (.ret .error) v
  | rmlunWait {i : Nat} {l : Volume} (present : v.lun i = some l) (busy : 0 < l.service) :
      Effect v (.rmlun i) (.ret .success) (v.setLun i fun l => { l with waiting := true })
  | rmlun {i : Nat} {l : Volume} (present : v.lun i = some l) (idle : l.service = 0) :
      Effect v (.rmlun i) (.ret .success) (v.purge i)
  | readHit {i x n ctx size : Nat} {c : Cell} (served : v.served i x n c) (dev : v.dev c.addr.dev = some (ctx, size)) :
      Effect v (.get4read i x n) (.fmap (some ⟨ctx, c.addr.off⟩)) (v.pin i (u32 (x / sceSctrPerFrag)))
  | readMiss {i x n : Nat} (miss : ∀ c, ¬ v.served i x n c) : Effect v (.get4read i x n) (.fmap none) v
  | putRead {i x n : Nat} (busy : v.inService i x n) :
      Effect v (.put4read i x n) (.ret .success) (v.unpin i (u32 (x / sceSctrPerFrag)))
  | putReadFail {i x n : Nat} (none : ¬ v.inService i x n) : Effect v (.put4read i x n) (.ret .error) v
  | invalidateFail {i x n : Nat} (none : ¬ v.writable i x n) : Effect v (.invalidate i x n) (.ret .error) v
  | invalidate {i x n : Nat} {l : Volume} (writable : v.writable i x n) (present : v.lun i = some l)
      (bound : 0 < invCount x n → invFrag x * 256 + invOff x + invCount x n ≤ l.nrFrag * 256) :
      Effect v (.invalidate i x n) (.ret .success) (v.invalidate i (invFrag x * 256 + invOff x) (invCount x n))
  | popNone {past : Nat → Nat → Word} : Effect v (.get4pop past) (.poptask none) v
  | pop {past : Nat → Nat → Word} {i f ctx size : Nat} {a : Phys} {l : Volume} (present : v.lun i = some l)
      (active : l.waiting = false) (inside : f < l.nrFrag) (empty : v.cell i f = none) (free : v.available a)
      (dev : v.dev a.dev = some (ctx, size)) :
      Effect v (.get4pop past) (.poptask (some ⟨l.lunctx, ctx, f, a.off⟩)) (v.place i f a l)
  | putPop {poptask : Poptask} {failed : Bool} :
      Effect v (.put4pop poptask failed) (.ret (v.put4pop poptask failed).1) (v.put4pop poptask failed).2

variable {s s' : Sce} {op : Op} {reply : Reply}

theorem Except.map_eq_ok {ε α β : Type*} {x : Except ε α} {φ : α → β} {b : β} :
    x.map φ = .ok b ↔ ∃ a, x = .ok a ∧ φ a = b := by
  cases x <;> simp [Except.map]

theorem Except.bind_eq_ok {ε α β : Type} {x : Except ε α} {φ : α → Except ε β} {b : β} (run : x >>= φ = .ok b) :
    ∃ a, x = .ok a ∧ φ a = .ok b := by
  cases x with
  | error e => cases run
  | ok a => exact ⟨a, rfl, run⟩

theorem Except.toOption_eq_some {ε α : Type*} {x : Except ε α} {a : α} : x.toOption = some a ↔ x = .ok a := by
  cases x <;> simp [Except.toOption]

/-- A call that returns keeps the invariant and has one of the effects. -/
theorem Sce.call_effect (h : Inv nowhere s) (typed : op.Typed) (run : s.call op = .ok (reply, s')) :
    Inv nowhere s' ∧ Effect s.view op reply s'.view := by
  -- a specification names one outcome, and `run` is that outcome
  have same : ∀ {α : Type} {x : Except Fault α} {a b : α}, x = .ok a → x = .ok b → a = b :=
    fun e e' => Except.ok.inj (e.symm.trans e')
  have never : ∀ {α : Type} {x : Except Fault α} {a : α} {e : Fault}, x = .error e → x = .ok a → False :=
    fun e e' => nomatch e.symm.trans e'
  cases op with
  | addcdev m ctx vmalloc =>
    obtain ⟨⟨r, t⟩, done, e⟩ := Except.map_eq_ok.mp run
    obtain ⟨rfl, rfl⟩ := Prod.mk.inj e
    rcases sceAddcdev_spec h m ctx vmalloc with
      fail | ⟨d, n, size, pos, slot, absent, ctx_ne, fresh, ⟨_, stop⟩ | ⟨s₁, ok, h', view'⟩⟩
    · obtain ⟨rfl, rfl⟩ := Prod.mk.inj (same fail done)
      exact ⟨h, .addcdevFail⟩
    · exact (never stop done).elim
    · obtain ⟨rfl, rfl⟩ := Prod.mk.inj (same ok done)
      exact ⟨h', view' ▸ .addcdev size pos slot absent ctx_ne fresh⟩
  | rmcdev d =>
    obtain ⟨⟨r, t⟩, done, e⟩ := Except.map_eq_ok.mp run
    obtain ⟨rfl, rfl⟩ := Prod.mk.inj e
    rcases sceRmcdev_spec h d with ⟨absent, fail⟩ | ⟨ctx, n, s₁, present, ok, h', view'⟩
    · obtain ⟨rfl, rfl⟩ := Prod.mk.inj (same fail done)
      exact ⟨h, .rmcdevFail absent⟩
    · obtain ⟨rfl, rfl⟩ := Prod.mk.inj (same ok done)
      exact ⟨h', view' ▸ .rmcdev present⟩
  | addlun m ctx vmalloc =>
    obtain ⟨⟨r, t⟩, done, e⟩ := Except.map_eq_ok.mp run
    obtain ⟨rfl, rfl⟩ := Prod.mk.inj e
    rcases sceAddlun_spec h typed ctx vmalloc with fail | ⟨i, s₁, ok, h', slot, absent, pos, size, view'⟩
    · obtain ⟨rfl, rfl⟩ := Prod.mk.inj (same fail done)
      exact ⟨h, .addlunFail⟩
    · obtain ⟨rfl, rfl⟩ := Prod.mk.inj (same ok done)
      exact ⟨h', view' ▸ .addlun slot absent pos size⟩
  | rmlun i =>
    obtain ⟨⟨r, t⟩, done, e⟩ := Except.map_eq_ok.mp run
    obtain ⟨rfl, rfl⟩ := Prod.mk.inj e
    rcases sceRmlun_spec h i with ⟨absent, fail⟩ | ⟨l, present, ⟨_, stop⟩ | ⟨s₁, ok, h', view'⟩⟩
    · obtain ⟨rfl, rfl⟩ := Prod.mk.inj (same fail done)
      exact ⟨h, .rmlunFail absent⟩
    · exact (never stop done).elim
    · obtain ⟨rfl, rfl⟩ := Prod.mk.inj (same ok done)
      refine ⟨h', ?_⟩
      rw [view']
      split
      · rename_i busy
        exact .rmlunWait present busy
      · rename_i idle
        exact .rmlun present (Nat.eq_zero_of_not_pos idle)
  | get4read i x n =>
    obtain ⟨⟨r, t⟩, done, e⟩ := Except.map_eq_ok.mp run
    obtain ⟨rfl, rfl⟩ := Prod.mk.inj e
    rcases sceGet4read_spec h i typed.1 typed.2 with
      ⟨c, ctx, size, s₁, served, dev, ok, h', view'⟩ | ⟨miss, ⟨stop, _⟩ | ⟨s₁, ok, h', view'⟩⟩
    · obtain ⟨rfl, rfl⟩ := Prod.mk.inj (same ok done)
      exact ⟨h', view' ▸ .readHit served dev⟩
    · exact (never stop done).elim
    · obtain ⟨rfl, rfl⟩ := Prod.mk.inj (same ok done)
      exact ⟨h', by rw [view']; exact .readMiss miss⟩
  | put4read i x n =>
    obtain ⟨⟨r, t⟩, done, e⟩ := Except.map_eq_ok.mp run
    obtain ⟨rfl, rfl⟩ := Prod.mk.inj e
    rcases scePut4read_spec h i typed.1 typed.2.1 typed.2.2 with
      ⟨busy, ⟨_, stop⟩ | ⟨s₁, ok, h', view'⟩⟩ | ⟨idle, ⟨stop, _⟩ | fail⟩
    · exact (never stop done).elim
    · obtain ⟨rfl, rfl⟩ := Prod.mk.inj (same ok done)
      exact ⟨h', view' ▸ .putRead busy⟩
    · exact (never stop done).elim
    · obtain ⟨rfl, rfl⟩ := Prod.mk.inj (same fail done)
      exact ⟨h, .putReadFail idle⟩
  | invalidate i x n =>
    obtain ⟨⟨r, t⟩, done, e⟩ := Except.map_eq_ok.mp run
    obtain ⟨rfl, rfl⟩ := Prod.mk.inj e
    rcases sceInvalidate_spec h i x n with
      ⟨no, fail⟩ | ⟨writable, ⟨_, stop⟩ | ⟨stop, _⟩ | ⟨l, s₁, ok, h', view', present, bound⟩⟩
    · obtain ⟨rfl, rfl⟩ := Prod.mk.inj (same fail done)
      exact ⟨h, .invalidateFail no⟩
    · exact (never stop done).elim
    · exact (never stop done).elim
    · obtain ⟨rfl, rfl⟩ := Prod.mk.inj (same ok done)
      exact ⟨h', view' ▸ .invalidate writable present bound⟩
  | get4pop past =>
    obtain ⟨⟨r, t⟩, done, e⟩ := Except.map_eq_ok.mp run
    obtain ⟨rfl, rfl⟩ := Prod.mk.inj e
    rcases sceGet4pop_spec h past with
      ⟨_, stop⟩ | ⟨s₁, ok, h', view'⟩ | ⟨i, f, a, l, ctx, size, s₁, ok, h', present, active, inside,
      empty, free, dev, view'⟩
    · exact (never stop done).elim
    · obtain ⟨rfl, rfl⟩ := Prod.mk.inj (same ok done)
      exact ⟨h', view' ▸ .popNone⟩
    · obtain ⟨rfl, rfl⟩ := Prod.mk.inj (same ok done)
      exact ⟨h', view' ▸ .pop present active inside empty free dev⟩
  | put4pop poptask failed =>
    obtain ⟨⟨r, t⟩, done, e⟩ := Except.map_eq_ok.mp run
    obtain ⟨rfl, rfl⟩ := Prod.mk.inj e
    rcases scePut4pop_spec h poptask failed with ⟨_, stop⟩ | ⟨s₁, ok, h', view'⟩
    · exact (never stop done).elim
    · obtain ⟨rfl, rfl⟩ := Prod.mk.inj (same ok done)
      exact ⟨h', view' ▸ .putPop⟩

/-! ### What is always true of the abstract cache -/

structure View.Sound (v : View) : Prop where
  dev : ∀ d ctx n, v.dev d = some (ctx, n) → d < sceMaxCdev ∧ ctx ≠ 0 ∧ 0 < n
  unique : ∀ d e ctx m n, v.dev d = some (ctx, m) → v.dev e = some (ctx, n) → d = e
  lun : ∀ i l, v.lun i = some l → i < sceMaxLun ∧ 0 < l.nrFrag ∧ l.nrSctr + (sceSctrPerFrag - 1) < 2 ^ 64 ∧
    l.nrFrag = u32 ((l.nrSctr + (sceSctrPerFrag - 1)) / sceSctrPerFrag)
  inside : ∀ i f c, v.cell i f = some c → ∃ l, v.lun i = some l ∧ f < l.nrFrag
  there : ∀ i f c, v.cell i f = some c → c.addr.off < 2 ^ 24 ∧ ∃ ctx n, v.dev c.addr.dev = some (ctx, n) ∧ c.addr.off < n
  inj : ∀ i f c j k c', v.cell i f = some c → v.cell j k = some c' → c'.addr = c.addr → j = i ∧ k = f
  apart : ∀ i f c, v.cell i f = some c → ¬ v.free c.addr
  free : ∀ a, v.free a → a.off < 2 ^ 24 ∧ ∃ ctx n, v.dev a.dev = some (ctx, n) ∧ a.off < n

theorem Inv.sound {out : Phys → Prop} (h : Inv out s) : s.view.Sound where
  dev := fun d ctx n dev => by
    obtain ⟨lt, ne, _, pos⟩ := h.shape.devices.bounds d ctx n dev
    exact ⟨lt, ne, pos⟩
  unique := fun d e ctx m n here there => h.shape.devices.unique d e ctx m n here there
  lun := fun i l lun => by
    obtain ⟨l, here, rfl⟩ := Option.map_eq_some_iff.mp (Sce.view_lun ▸ lun)
    exact h.shape.luns.bounds i _ _ (Sce.extent_eq_some.mpr ⟨l, here, rfl, rfl⟩)
  inside := fun i f c cell => by
    obtain ⟨m, slot, rfl⟩ := Option.map_eq_some_iff.mp (Sce.view_cell ▸ cell)
    obtain ⟨l, lun, inside⟩ := Sce.lun_of_slot slot
    exact ⟨l.volume, by rw [Sce.view_lun, lun]; rfl, inside⟩
  there := fun i f c cell => by
    obtain ⟨m, slot, rfl⟩ := Option.map_eq_some_iff.mp (Sce.view_cell ▸ cell)
    obtain ⟨l, _, _, _, addr, _, frag⟩ := Sce.slot_eq_some.mp slot
    refine ⟨?_, Sce.frag?_isSome.mp (Option.isSome_of_eq_some frag)⟩
    show m.addr.off < 2 ^ 24
    rw [addr]
    exact phys_off_lt _
  inj := fun i f c j k c' here there same => Sce.view_inj h.shape here there same
  apart := fun i f c cell => Sce.view_not_free h.shape cell
  free := fun a free => by
    obtain ⟨fl, list⟩ := h.shape.free
    obtain ⟨g, frag⟩ := Sce.frag_of_free free
    exact ⟨list.chain.named a ((list.mem a).mpr free), Sce.frag?_isSome.mp (Option.isSome_of_eq_some frag)⟩

end Iostash
