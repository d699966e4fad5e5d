import Iostash.Util.Run
import Iostash.Awt.Pages

/-!
# Writes that overlap

Any number of writes to one fragment, each a `_frag_writestart` and, if that succeeded, a `_frag_writeend` of
the same range, with invalidations between them. The second bitmap is merged and dropped when no write is
under way.
-/

namespace Iostash

open Util Util.Writers

/-- A write under way: its pages, and how many operations there were before it. -/
structure AwtWrite where
  pgnum : Nat
  pgcnt : Nat
  since : Nat
  deriving DecidableEq, Repr

/-- A fragment, the writes under way, and the range of every operation so far, the last one first. -/
structure AwtRun where
  frag : AwtFrag
  writes : List AwtWrite
  log : List (Nat × Nat)

inductive AwtOp where
  | writestart (pgnum pgcnt : Nat)
  | writeend (write : AwtWrite) (failed : Bool)
  | invalidate (pgnum pgcnt : Nat)
  | mergebitmap

/-- The page is in the range. -/
def InRange (range : Nat × Nat) (p : Nat) : Prop := range.1 ≤ p ∧ p < range.1 + range.2

def AwtWrite.range (w : AwtWrite) : Nat × Nat := (w.pgnum, w.pgcnt)

namespace AwtRun

def step (s : AwtRun) : AwtOp → Except Fault AwtRun
  | .writestart pgnum pgcnt => do
    let bitmap1 := s.frag.pendingAwt.getD (List.replicate bitmapArraySize 0#32)
    let (ret, frag) ← fragWritestart { s.frag with pendingAwt := some bitmap1 } pgnum pgcnt
    return { frag := frag, writes := if ret = .success then ⟨pgnum, pgcnt, s.log.length⟩ :: s.writes else s.writes,
             log := (pgnum, pgcnt) :: s.log }
  | .writeend w failed => do
    let frag ← fragWriteend s.frag w.pgnum w.pgcnt failed
    return { frag := frag, writes := s.writes.filter fun v => decide (v ≠ w), log := w.range :: s.log }
  | .invalidate pgnum pgcnt => do
    let (frag, _) ← fragInvalidate4awt s.frag pgnum pgcnt
    return { s with frag := frag, log := (pgnum, pgcnt) :: s.log }
  | .mergebitmap => do
    let frag ← fragMergebitmap s.frag
    return { s with frag := { frag with pendingAwt := none } }

/-- A range lies in the fragment, a write that ends is under way, and bitmaps are merged when none is. -/
def Allowed (s : AwtRun) : AwtOp → Prop
  | .writestart pgnum pgcnt | .invalidate pgnum pgcnt => 0 < pgcnt ∧ pgnum + pgcnt ≤ scePagePerFrag
  | .writeend w _ => w ∈ s.writes
  | .mergebitmap => s.writes = [] ∧ s.frag.pendingAwt.isSome

instance (s : AwtRun) (op : AwtOp) : Decidable (s.Allowed op) :=
  match op with
  | .writestart pgnum pgcnt | .invalidate pgnum pgcnt =>
    inferInstanceAs (Decidable (0 < pgcnt ∧ pgnum + pgcnt ≤ scePagePerFrag))
  | .writeend w _ => inferInstanceAs (Decidable (w ∈ s.writes))
  | .mergebitmap => inferInstanceAs (Decidable (s.writes = [] ∧ s.frag.pendingAwt.isSome))

/-- A step that hits a `BUG_ON` ends the run. -/
def exec (s : AwtRun) (op : AwtOp) : Option AwtRun := (s.step op).toOption

def Reached (f : AwtFrag) (s : AwtRun) : Prop := Reachable exec Allowed ⟨f, [], []⟩ s

/-- What operations after the start of `w` touched. -/
def after (s : AwtRun) (w : AwtWrite) : List (Nat × Nat) := s.log.take (s.log.length - w.since - 1)

end AwtRun

/-! ### The writes as claims on pages -/

def pageSet (range : Nat × Nat) : Set Nat := {p | InRange range p}

def AwtWrite.claim (w : AwtWrite) : Claim Nat := ⟨pageSet w.range, w.since⟩

def AwtRun.board (s : AwtRun) : Board Nat :=
  ⟨s.frag.mark, {c | ∃ w, w ∈ s.writes ∧ c = w.claim}, s.log.map pageSet⟩

structure AwtRun.Sound (s : AwtRun) : Prop where
  counted : s.frag.Counted
  board : Writers.Sound s.board
  ranges : ∀ w, w ∈ s.writes → 0 < w.pgcnt ∧ w.pgnum + w.pgcnt ≤ scePagePerFrag
  pending : s.writes ≠ [] → s.frag.pendingAwt.isSome

variable {s s' : AwtRun} {op : AwtOp} {w v : AwtWrite} {p pgnum pgcnt : Nat} {φ : Mark → Mark} {f : AwtFrag}

theorem pageSet_inj {r q : Nat × Nat} (pos : 0 < r.2) (pos' : 0 < q.2) (same : pageSet r = pageSet q) : r = q := by
  have iff : ∀ p, InRange r p ↔ InRange q p := fun p => iff_of_eq (congrArg (fun S : Set Nat => p ∈ S) same)
  unfold InRange at iff
  have first := (iff r.1).mp (by omega)
  have first' := (iff q.1).mpr (by omega)
  have last := (iff (r.1 + r.2 - 1)).mp (by omega)
  have last' := (iff (q.1 + q.2 - 1)).mpr (by omega)
  exact Prod.ext (by omega) (by omega)

theorem AwtRun.Sound.claim_inj (h : s.Sound) (mem : w ∈ s.writes) (mem' : v ∈ s.writes) (same : v.claim = w.claim) :
    v = w := by
  have range : v.range = w.range := pageSet_inj (h.ranges v mem').1 (h.ranges w mem).1 (congrArg Claim.cells same)
  obtain ⟨pgnum, pgcnt⟩ := Prod.mk.inj range
  have since : v.since = w.since := congrArg Claim.since same
  cases v
  cases w
  simp only at pgnum pgcnt since
  rw [pgnum, pgcnt, since]

theorem changes_onRange {b b' : Board Nat} (mark : b'.mark = onRange φ pgnum pgcnt b.mark) :
    Changes b b' (pageSet (pgnum, pgcnt)) φ where
  inside := fun p inside => by rw [mark]; exact if_pos inside
  outside := fun p outside => by rw [mark]; exact if_neg outside

/-- A write that starts without a second bitmap gets one that changes no mark. -/
theorem AwtFrag.Counted.attach (h : f.Counted) : ∃ bm, (bm = f.pendingAwt.getD (List.replicate bitmapArraySize 0#32)) ∧
    ({ f with pendingAwt := some bm } : AwtFrag).Counted ∧ ({ f with pendingAwt := some bm } : AwtFrag).mark =
    f.mark := by
  rcases Option.eq_none_or_eq_some f.pendingAwt with alone | ⟨bm, pending⟩
  · have mark : ({ f with pendingAwt := some (List.replicate bitmapArraySize 0#32) } : AwtFrag).mark = f.mark := by
      rw [AwtFrag.mark_pending rfl]
      funext p
      rw [AwtFrag.mark_alone alone]
      show pageMark (bitmapBit f.bitmap p) (bitmapBit (List.replicate bitmapArraySize 0#32) p) = _
      rw [bitmapBit_zero]
    refine ⟨List.replicate bitmapArraySize 0#32, by rw [alone]; rfl, ⟨h.bitmap, ?_, ?_⟩, mark⟩
    · intro bm e
      obtain rfl := Option.some.inj e
      exact List.length_replicate
    · rw [mark]
      exact h.nrValid
  · have same : ({ f with pendingAwt := some bm } : AwtFrag) = f := by rw [← pending]
    exact ⟨bm, by rw [pending]; rfl, same ▸ h, by rw [same]⟩

/-! ### One operation -/

theorem AwtRun.writestart_sound (h : s.Sound) (pos : 0 < pgcnt) (fits : pgnum + pgcnt ≤ scePagePerFrag) :
    ∃ s', s.step (.writestart pgnum pgcnt) = .ok s' ∧ s'.Sound := by
  obtain ⟨bm, hb, counted, mark⟩ := h.counted.attach
  obtain ⟨r, frag, run, counted', pending, marked, refused⟩ := fragWritestart_spec counted rfl pos fits
  rw [mark] at marked refused
  obtain ⟨s', hs'⟩ : ∃ s' : AwtRun, s' = ⟨frag,
    if r = .success then ⟨pgnum, pgcnt, s.log.length⟩ :: s.writes else s.writes, (pgnum, pgcnt) :: s.log⟩ := ⟨_, rfl⟩
  have change : Changes s.board s'.board (pageSet (pgnum, pgcnt)) Mark.start :=
    changes_onRange (by rw [hs']; exact marked)
  have log : s'.board.log = pageSet (pgnum, pgcnt) :: s.board.log := by rw [hs']; rfl
  refine ⟨s', ?_, ?_⟩
  · simp only [AwtRun.step, ← hb, run, bind, Except.bind, pure, Except.pure, hs']
  · by_cases ok : r = .success
    · have writes : s'.writes = ⟨pgnum, pgcnt, s.log.length⟩ :: s.writes := by rw [hs']; exact if_pos ok
      have claims : s'.board.claims = insert ⟨pageSet (pgnum, pgcnt), s.board.log.length⟩ s.board.claims := by
        ext c
        have started : (⟨pageSet (pgnum, pgcnt), s.board.log.length⟩ : Claim Nat) =
            AwtWrite.claim ⟨pgnum, pgcnt, s.log.length⟩ := by
          unfold AwtWrite.claim AwtWrite.range AwtRun.board
          rw [List.length_map]
        rw [started]
        show (∃ w, w ∈ s'.writes ∧ c = w.claim) ↔ _
        rw [writes]
        simp only [List.mem_cons, exists_eq_or_imp]
        rfl
      refine ⟨by rw [hs']; exact counted', Writers.Step.sound h.board (.start change claims log), ?_,
          fun _ => by rw [hs']; exact pending⟩
      intro w mem
      rw [writes] at mem
      rcases List.mem_cons.mp mem with rfl | before
      · exact ⟨pos, fits⟩
      · exact h.ranges w before
    · have writes : s'.writes = s.writes := by rw [hs']; exact if_neg ok
      have claims : s'.board.claims = s.board.claims := by
        unfold AwtRun.board
        rw [writes]
      have busy : ∀ p, p ∈ pageSet (pgnum, pgcnt) → (s.board.mark p).Held :=
          fun p inside => refused ok p inside.1 inside.2
      refine ⟨by rw [hs']; exact counted', Writers.Step.sound h.board (.refuse busy change claims log),
          ?_, fun _ => by rw [hs']; exact pending⟩
      rw [writes]
      exact h.ranges

theorem AwtRun.writeend_sound (failed : Bool) (h : s.Sound) (mem : w ∈ s.writes) :
    ∃ s', s.step (.writeend w failed) = .ok s' ∧ s'.Sound ∧
      Changes s.board s'.board w.claim.cells (Mark.finish failed) := by
  obtain ⟨pos, fits⟩ := h.ranges w mem
  obtain ⟨bm, pending⟩ := Option.isSome_iff_exists.mp (h.pending (List.ne_nil_of_mem mem))
  have here : w.claim ∈ s.board.claims := ⟨w, mem, rfl⟩
  have held : ∀ p, w.pgnum ≤ p → p < w.pgnum + w.pgcnt → (s.frag.mark p).Held := fun p low high =>
    h.board.held w.claim here p ⟨low, high⟩
  obtain ⟨frag, run, counted, pending', marked⟩ := fragWriteend_spec failed h.counted pending pos fits held
  obtain ⟨s', hs'⟩ : ∃ s' : AwtRun, s' = ⟨frag, s.writes.filter fun v => decide (v ≠ w), w.range :: s.log⟩ := ⟨_, rfl⟩
  have change : Changes s.board s'.board w.claim.cells (Mark.finish failed) := changes_onRange (by rw [hs']; exact marked)
  have log : s'.board.log = w.claim.cells :: s.board.log := by rw [hs']; rfl
  have writes : ∀ v, v ∈ s'.writes ↔ v ∈ s.writes ∧ v ≠ w := by
    intro v
    rw [hs']
    simp
  have claims : s'.board.claims = s.board.claims \ {w.claim} := by
    ext c
    constructor
    · rintro ⟨v, mem', rfl⟩
      obtain ⟨before, ne⟩ := (writes v).mp mem'
      exact ⟨⟨v, before, rfl⟩, fun same => ne (h.claim_inj mem before same)⟩
    · rintro ⟨⟨v, before, rfl⟩, ne⟩
      exact ⟨v, (writes v).mpr ⟨before, fun same => ne (same ▸ rfl)⟩, rfl⟩
  refine ⟨s', ?_, ⟨by rw [hs']; exact counted, Writers.Step.sound h.board (.finish failed here change claims log), ?_,
    fun _ => by rw [hs']; exact pending'⟩, change⟩
  · simp only [AwtRun.step, run, bind, Except.bind, pure, Except.pure, hs']
  · exact fun v mem' => h.ranges v ((writes v).mp mem').1

theorem AwtRun.invalidate_sound (h : s.Sound) (pos : 0 < pgcnt) (fits : pgnum + pgcnt ≤ scePagePerFrag) :
    ∃ s', s.step (.invalidate pgnum pgcnt) = .ok s' ∧ s'.Sound := by
  obtain ⟨frag, nr, run, counted, pending, marked⟩ := fragInvalidate4awt_spec h.counted pos fits
  obtain ⟨s', hs'⟩ : ∃ s' : AwtRun, s' = ⟨frag, s.writes, (pgnum, pgcnt) :: s.log⟩ := ⟨_, rfl⟩
  have change : Changes s.board s'.board (pageSet (pgnum, pgcnt)) Mark.invalidate :=
    changes_onRange (by rw [hs']; exact marked)
  have claims : s'.board.claims = s.board.claims := by rw [hs']; rfl
  have log : s'.board.log = pageSet (pgnum, pgcnt) :: s.board.log := by rw [hs']; rfl
  refine ⟨s', ?_, ⟨by rw [hs']; exact counted, Writers.Step.sound h.board (.invalidate change claims log), ?_, ?_⟩⟩
  · simp only [AwtRun.step, run, bind, Except.bind, pure, Except.pure, hs']
  · rw [hs']
    exact h.ranges
  · rw [hs', pending]
    exact h.pending

theorem AwtRun.mergebitmap_sound (h : s.Sound) (idle : s.writes = []) (some_ : s.frag.pendingAwt.isSome) :
    ∃ s', s.step .mergebitmap = .ok s' ∧ s'.Sound ∧ s'.frag.pendingAwt = none := by
  obtain ⟨bm, pending⟩ := Option.isSome_iff_exists.mp some_
  obtain ⟨frag, run, counted, marked⟩ := fragMergebitmap_spec h.counted pending
  obtain ⟨s', hs'⟩ : ∃ s' : AwtRun, s' = { s with frag := { frag with pendingAwt := none } } := ⟨_, rfl⟩
  have none_ : ∀ {t : AwtRun}, t.writes = [] → t.board.claims = ∅ := by
    intro t empty
    ext c
    simp [AwtRun.board, empty]
  have empty : s'.writes = [] := by rw [hs']; exact idle
  have change : Changes s.board s'.board Set.univ Mark.merge :=
    ⟨fun p _ => by rw [hs']; exact congrFun marked p, fun p out => absurd trivial out⟩
  have log : s'.board.log = s.board.log := by rw [hs']; rfl
  refine ⟨s', ?_, ⟨by rw [hs']; exact counted,
      Writers.Step.sound h.board (.merge (none_ idle) change (none_ empty) log), ?_, ?_⟩,
    by rw [hs']⟩
  · simp only [AwtRun.step, run, bind, Except.bind, pure, Except.pure, hs']
  · intro w mem
    rw [empty] at mem
    cases mem
  · exact fun busy => absurd empty busy

/-! ### Every interleaving -/

theorem AwtRun.step_sound (h : s.Sound) (allowed : s.Allowed op) : ∃ s', s.step op = .ok s' ∧ s'.Sound := by
  cases op with
  | writestart pgnum pgcnt => exact writestart_sound h allowed.1 allowed.2
  | invalidate pgnum pgcnt => exact invalidate_sound h allowed.1 allowed.2
  | writeend w failed =>
    obtain ⟨s', run, sound, _⟩ := writeend_sound failed h allowed
    exact ⟨s', run, sound⟩
  | mergebitmap =>
    obtain ⟨s', run, sound, _⟩ := mergebitmap_sound h allowed.1 allowed.2
    exact ⟨s', run, sound⟩

theorem AwtRun.Sound.init (len : f.bitmap.length = bitmapArraySize) (alone : f.pendingAwt = none)
    (count : f.nrValid = clearCount (bitmapBit f.bitmap) 0 scePagePerFrag) : AwtRun.Sound ⟨f, [], []⟩ := by
  refine ⟨⟨len, ?_, by rw [count, AwtFrag.validPages_alone alone]⟩, ⟨?_, ?_, ?_⟩, ?_, ?_⟩
  · intro bm e
    rw [alone] at e
    cases e
  · rintro c ⟨w, mem, _⟩
    cases mem
  · rintro c ⟨w, mem, _⟩
    cases mem
  · intro p writing
    have plain : f.mark p = .writing := writing
    rw [AwtFrag.mark_alone alone] at plain
    cases bit : bitmapBit f.bitmap p <;> rw [bit] at plain <;> cases plain
  · intro w mem
    cases mem
  · exact fun busy => absurd rfl busy

theorem AwtRun.Reached.sound (len : f.bitmap.length = bitmapArraySize) (alone : f.pendingAwt = none)
    (count : f.nrValid = clearCount (bitmapBit f.bitmap) 0 scePagePerFrag) (h : AwtRun.Reached f s) : s.Sound := by
  refine Reachable.invariant h (AwtRun.Sound.init len alone count) fun s op s' sound allowed moves => ?_
  obtain ⟨t, run, sound'⟩ := AwtRun.step_sound sound allowed
  unfold AwtRun.exec at moves
  rw [run] at moves
  obtain rfl := Option.some.inj moves
  exact sound'

/-- What an operation on `s` that ends in `s'` keeps. A page becomes valid at the end of a write only if the write
succeeded, and from its start on no other write and no invalidation touched the page. -/
structure AwtRun.Safe (s : AwtRun) (op : AwtOp) (s' : AwtRun) : Prop where
  counts : s'.frag.nrValid = validPages s'.frag.mark
  merged : op = .mergebitmap → s'.frag.pendingAwt = none ∧
    s'.frag.nrValid = clearCount (bitmapBit s'.frag.bitmap) 0 scePagePerFrag
  settles : ∀ w failed p, op = .writeend w failed → s.frag.mark p ≠ .valid → s'.frag.mark p = .valid →
    failed = false ∧ InRange w.range p ∧ (∀ r, r ∈ s.after w → ¬ InRange r p) ∧
      ∀ v, v ∈ s.writes → InRange v.range p → v = w

/-- In every interleaving no `BUG_ON` fires, and every operation is safe. -/
theorem AwtRun.writes_safe (len : f.bitmap.length = bitmapArraySize) (alone : f.pendingAwt = none)
    (count : f.nrValid = clearCount (bitmapBit f.bitmap) 0 scePagePerFrag) (h : AwtRun.Reached f s)
    (allowed : s.Allowed op) : s.frag.nrValid = validPages s.frag.mark ∧ ∃ s', s.step op = .ok s' ∧ s.Safe op s' := by
  have sound := h.sound len alone count
  refine ⟨sound.counted.nrValid, ?_⟩
  cases op with
  | writestart pgnum pgcnt =>
    obtain ⟨s', run, sound'⟩ := AwtRun.step_sound sound allowed
    exact ⟨s', run, sound'.counted.nrValid, (fun e => nomatch e), fun _ _ _ e => nomatch e⟩
  | invalidate pgnum pgcnt =>
    obtain ⟨s', run, sound'⟩ := AwtRun.step_sound sound allowed
    exact ⟨s', run, sound'.counted.nrValid, (fun e => nomatch e), fun _ _ _ e => nomatch e⟩
  | mergebitmap =>
    obtain ⟨s', run, sound', dropped⟩ := AwtRun.mergebitmap_sound sound allowed.1 allowed.2
    refine ⟨s', run, sound'.counted.nrValid, fun _ => ⟨dropped, ?_⟩, fun _ _ _ e => nomatch e⟩
    rw [sound'.counted.nrValid, AwtFrag.validPages_alone dropped]
  | writeend w failed =>
    obtain ⟨s', run, sound', change⟩ := AwtRun.writeend_sound failed sound allowed
    refine ⟨s', run, sound'.counted.nrValid, fun e => (nomatch e), ?_⟩
    intro w' failed' p e old new
    obtain ⟨rfl, rfl⟩ := AwtOp.writeend.inj e
    obtain ⟨ok, sole⟩ := sound.board.settles ⟨w, allowed, rfl⟩ change old new
    refine ⟨ok, sole.covers, ?_, ?_⟩
    · intro r member
      refine sole.untouched (pageSet r) ?_
      unfold Board.after
      rw [show s.board.log = s.log.map pageSet from rfl, List.length_map, ← List.map_take]
      exact List.mem_map_of_mem member
    · exact fun v mem covers => sound.claim_inj allowed mem (sole.only v.claim ⟨v, mem, rfl⟩ covers)

/-- A fresh fragment with two writes under way that share pages 4 to 7. -/
def AwtRun.twoWriters : AwtRun :=
  (execAll AwtRun.exec (fun s op => decide (s.Allowed op)) ⟨{ fragInit with pendingAwt := none }, [], []⟩
    [.writestart 0 8, .writestart 4 8]).getD ⟨{ fragInit with pendingAwt := none }, [], []⟩

theorem AwtRun.writes_safe_twoWriters : AwtRun.twoWriters.frag.nrValid = validPages AwtRun.twoWriters.frag.mark ∧
    ∃ s', AwtRun.twoWriters.step (.writeend ⟨0, 8, 0⟩ false) = .ok s' ∧
      AwtRun.twoWriters.Safe (.writeend ⟨0, 8, 0⟩ false) s' := by
  have reached : AwtRun.Reached { fragInit with pendingAwt := none } AwtRun.twoWriters :=
    reachable_getD (fun _ _ allowed => of_decide_eq_true allowed) (by decide +kernel)
  exact AwtRun.writes_safe (by decide) rfl (by decide +kernel) reached (by decide +kernel)

end Iostash
