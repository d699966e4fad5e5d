import Iostash.Sce.Statistics
import Iostash.Sce.Heat
import Iostash.Sce.Passing

/-!
# What is counted of the requests

The engine counts its hits, its misses and its evictions, a LUN the requests for it. Here is what one call
adds to them.
-/

namespace Iostash

/-- What a LUN counts of the requests for it. -/
structure LunScore where
  populations : Int
  reads : Int
  readSctrs : Int
  readHits : Int
  writes : Int
  writeSctrs : Int
  writeHits : Int
  deriving DecidableEq

namespace LunScore

def zero : LunScore := ⟨0, 0, 0, 0, 0, 0, 0⟩

def read (c : LunScore) (n : Nat) (hit : Bool) : LunScore :=
  { c with reads := c.reads + 1, readSctrs := c.readSctrs + n, readHits := c.readHits + if hit then 1 else 0 }

def write (c : LunScore) (n : Nat) (hit : Bool) : LunScore :=
  { c with writes := c.writes + 1, writeSctrs := c.writeSctrs + n, writeHits := c.writeHits + if hit then 1 else 0 }

def populate (c : LunScore) : LunScore := { c with populations := c.populations + 1 }

/-- What the counters show of the score. -/
def shown (c : LunScore) : LunScore where
  populations := atomic64Read c.populations
  reads := atomic64Read c.reads
  readSctrs := atomic64Read c.readSctrs
  readHits := atomic64Read c.readHits
  writes := atomic64Read c.writes
  writeSctrs := atomic64Read c.writeSctrs
  writeHits := atomic64Read c.writeHits

/-- The score fits the counters. -/
def Fits (c : LunScore) : Prop :=
  ∀ n ∈ [c.populations, c.reads, c.readSctrs, c.readHits, c.writes, c.writeSctrs, c.writeHits],
    -2 ^ 63 ≤ n ∧ n < 2 ^ 63

theorem shown_of_fits {c : LunScore} (fits : c.Fits) : c.shown = c := by
  have read : ∀ n : Int, -2 ^ 63 ≤ n ∧ n < 2 ^ 63 → atomic64Read n = n :=
    fun n within => Int.bmod_eq_of_le within.1 within.2
  simp only [Fits, List.mem_cons, List.not_mem_nil, or_false, forall_eq_or_imp, forall_eq] at fits
  obtain ⟨populations, reads, readSctrs, readHits, writes, writeSctrs, writeHits⟩ := fits
  simp only [shown, read _ populations, read _ reads, read _ readSctrs, read _ readHits, read _ writes,
    read _ writeSctrs, read _ writeHits]

end LunScore

def Lun.score (l : Lun) : LunScore :=
  ⟨l.stats.populations, l.stats.reads, l.stats.readSctrs, l.stats.readHits, l.stats.writes, l.stats.writeSctrs,
    l.stats.writeHits⟩

namespace Sce

def score (s : Sce) (i : Nat) : Option LunScore := (s.luntbl i).map Lun.score

/-- The hits, misses and evictions, as the engine counts them. -/
def tally (s : Sce) : Nat × Nat × Nat := (s.nrHit, s.nrMiss, s.nrEviction)

/-- Nothing is counted. -/
structure Steady (s s' : Sce) : Prop where
  tally : s'.tally = s.tally
  score : ∀ i c, s'.score i = some c → s.score i = some c

/-- A request that is one for a LUN in service, and on it. -/
def grants (s : Sce) (i x n : Nat) : Bool := (lockLun s i x n true).isSome

/-- Some of the pages `sce_invalidate` visits are in a mapped fragment. -/
def meets (s : Sce) (i x n : Nat) : Bool :=
  (List.range ((s.luntbl i).elim 0 Lun.nrFrag)).any fun f =>
    touched f (invFrag x * 256 + invOff x) (invCount x n) && (s.place i f).isSome

/-- A fragment that was mapped is not any more. -/
def loses (s s' : Sce) : Bool :=
  (List.range sceMaxLun).any fun i => (List.range ((s.luntbl i).elim 0 Lun.nrFrag)).any fun f =>
    (s.place i f).isSome && (s'.place i f).isNone

end Sce

/-- The call evicts a fragment. -/
def Op.evicts (s s' : Sce) : Op → Bool
  | .get4pop _ => s.loses s'
  | _ => false

/-- The call is a hit. -/
def Reply.hits : Reply → Bool
  | .fmap m => m.isSome
  | _ => false

/-- What a call adds to what LUN `i` counts. -/
def Op.scored (s : Sce) : Op → Reply → Nat → LunScore → LunScore
  | .get4read j x n, .fmap m, i, c => if i = j ∧ s.grants j x n then c.read n m.isSome else c
  | .invalidate j x n, .ret .success, i, c => if i = j then c.write n (s.meets j x n) else c
  | .put4pop t false, _, i, c => if lunSearch s t.lunctx = some i then c.populate else c
  | _, _, _, c => c

open Sce

variable {s s' t : Sce} {i j f k : Nat} {a : Phys} {w : Word} {r : Ret} {ψ : Lun → Lun} {l : Lun}

/-! ### Steps that count nothing -/

namespace Sce

theorem Steady.refl (s : Sce) : s.Steady s := ⟨rfl, fun _ _ here => here⟩

theorem Steady.trans (h : s.Steady t) (h' : t.Steady s') : s.Steady s' :=
  ⟨h'.tally.trans h.tally, fun i c here => h.score i c (h'.score i c here)⟩

theorem Steady.since (h' : t.Steady s') (h : s.Steady t) : s.Steady s' := h.trans h'

theorem Steady.of_luntbl (tally : s'.tally = s.tally) (same : s'.luntbl = s.luntbl) : s.Steady s' := by
  refine ⟨tally, fun i c here => ?_⟩
  unfold Sce.score at here ⊢
  rwa [same] at here

theorem modifyLun_score_ne (ne : j ≠ i) : (s.modifyLun i ψ).score j = s.score j := by
  unfold score
  rw [modifyLun_luntbl_ne ne]

theorem modifyLun_score (keeps : ∀ l, (ψ l).score = l.score) : (s.modifyLun i ψ).score j = s.score j := by
  unfold score
  rw [modifyLun_luntbl]
  split
  · cases s.luntbl j <;> simp [keeps]
  · rfl

theorem Steady.modifyLun (keeps : ∀ l, (ψ l).score = l.score) : s.Steady (s.modifyLun i ψ) :=
  ⟨rfl, fun _ _ here => (modifyLun_score keeps).symm.trans here⟩

theorem Steady.setDesc : s.Steady (s.setDesc i f w) := .modifyLun fun _ => rfl

theorem Steady.modifyFrag {φ : Frag → Frag} : s.Steady (s.modifyFrag a φ) := .of_luntbl rfl rfl

end Sce

theorem freefraglistPut_steady {pfid : Word} (run : freefraglistPut s pfid = .ok (r, s')) : s.Steady s' := by
  refine .of_luntbl ?_ (freefraglistPut_luntbl run)
  unfold freefraglistPut at run
  split at run
  · cases run
    rfl
  · split at run
    · cases run
      rfl
    · simp only at run
      split at run
      · cases run
      · cases run
        rfl

theorem unmapFrag_steady (run : unmapFrag s i f = .ok (r, s')) : s.Steady s' := by
  rcases unmapFrag_cases run with rfl | ⟨l, g, ret, t, _, _, _, _, _, put, done⟩
  · exact .refl s'
  · have first := freefraglistPut_steady put
    rcases done with rfl | rfl
    · exact first
    · exact first.trans .setDesc

theorem reclaims_steady (i : Nat) : Reclaims i Sce.Steady where
  refl := .refl
  trans := .trans
  unmap := unmapFrag_steady
  destroy := by
    intro s
    refine ⟨rfl, fun j c here => ?_⟩
    simp only [Sce.score, lunDestroy] at here ⊢
    split at here
    · cases here
    · exact here

theorem mapFrag_steady {pfid : Word} (run : mapFrag s i f pfid = .ok (r, s')) : s.Steady s' := by
  unfold mapFrag at run
  split at run
  · cases run
    exact .refl s
  · iterate 3
      split at run
      · cases run
        exact .refl s
    split at run
    · cases run
      exact .refl s
    · obtain ⟨g, _, run⟩ := Except.bind_eq_ok run
      cases run
      exact Steady.modifyFrag.trans .setDesc

theorem sceRmlun_steady (run : sceRmlun s i = .ok (r, s')) : s.Steady s' := by
  unfold sceRmlun at run
  split at run
  · cases run
    exact .refl s
  · split at run
    · cases run
      exact .modifyLun fun _ => rfl
    · exact (reclaims_steady i).lunPurge run

theorem put4readFrag_steady {g : Frag} (run : put4readFrag s i a g = .ok (r, s')) : s.Steady s' := by
  unfold put4readFrag at run
  simp only at run
  have first : s.Steady ((s.modifyFrag a fun g => { g with nrService := g.nrService - 1 }).modifyLun i fun l =>
      { l with nrService := l.nrService - 1 }) := Steady.modifyFrag.trans (.modifyLun fun _ => rfl)
  split at run
  · obtain ⟨⟨_, t⟩, gc, run⟩ := Except.bind_eq_ok run
    cases run
    exact first.trans ((reclaims_steady _).lunGc gc)
  · cases run
    exact first

theorem scePut4read_steady {x n : Nat} (run : scePut4read s i x n = .ok (r, s')) : s.Steady s' := by
  unfold scePut4read at run
  split at run
  · cases run
    exact .refl s
  · simp only at run
    split at run
    · cases run
      exact .refl s
    · split at run
      · cases run
      · split at run
        · cases run
          exact .refl s
        · split at run
          · cases run
            exact .refl s
          · split at run
            · cases run
              exact .refl s
            · exact put4readFrag_steady run

theorem freeFragments_steady {d n : Nat} : ∀ {s : Sce}, freeFragments d n s = .ok s' → s.Steady s' := by
  induction n with
  | zero =>
    intro s run
    obtain ⟨⟨_, t⟩, put, run⟩ := Except.bind_eq_ok run
    cases run
    exact freefraglistPut_steady put
  | succ n ih =>
    intro s run
    obtain ⟨⟨_, t⟩, put, run⟩ := Except.bind_eq_ok run
    exact (freefraglistPut_steady put).trans (ih run)

theorem sceAddcdev_steady {m ctx : Nat} {vmalloc : Bool} {hndl : Option Nat}
    (run : sceAddcdev s m ctx vmalloc = .ok (hndl, s')) : s.Steady s' := by
  unfold sceAddcdev at run
  split at run
  · cases run
    exact .refl s
  · split at run
    · cases run
      exact .refl s
    · split at run
      · cases run
        exact .refl s
      · split at run
        · cases run
          exact .refl s
        · obtain ⟨t, free, run⟩ := Except.bind_eq_ok run
          have same := freeFragments_steady free
          cases run
          exact same.since (.of_luntbl rfl rfl)

/-! ### The removal of a device -/

theorem freefraglistRmcdevLoop_steady {d fuel : Nat} : ∀ {parent : Option Phys} {pfid : Word} {s : Sce},
    freefraglistRmcdevLoop d fuel parent pfid s = .ok s' → s.Steady s' := by
  induction fuel with
  | zero =>
    intro parent pfid s run
    unfold freefraglistRmcdevLoop at run
    split at run
    · cases run
      exact .refl _
    · cases run
  | succ fuel ih =>
    intro parent pfid s run
    unfold freefraglistRmcdevLoop at run
    split at run
    · cases run
      exact .refl _
    · split at run
      · cases run
      · split at run
        · cases parent with
          | none => exact (ih run).since (.of_luntbl rfl rfl)
          | some p => exact (ih run).since (.of_luntbl rfl rfl)
        · exact ih run

theorem lunRmcdevLoop_steady {d : Nat} {fs : List Nat} : ∀ s : Sce, s.Steady (lunRmcdevLoop i d fs s) := by
  induction fs with
  | nil => exact fun s => .refl s
  | cons f fs ih =>
    intro s
    unfold lunRmcdevLoop
    split
    · exact .refl s
    · simp only
      split
      · exact ih s
      · split
        · exact ih s
        · exact (ih _).since (Steady.setDesc.trans (.modifyLun fun _ => rfl))

theorem rmcdevLuns_steady {d : Nat} (is : List Nat) : ∀ s : Sce, s.Steady (rmcdevLuns d is s) := by
  induction is with
  | nil => exact fun s => .refl s
  | cons i is ih =>
    intro s
    refine (ih _).since ?_
    unfold lunRmcdev
    split
    · exact .refl s
    · exact lunRmcdevLoop_steady s

theorem sceRmcdev_steady {d : Nat} (run : sceRmcdev s d = .ok (r, s')) : s.Steady s' := by
  unfold sceRmcdev at run
  split at run
  · cases run
    exact .refl s
  · split at run
    · cases run
    · obtain ⟨t, unlink, run⟩ := Except.bind_eq_ok run
      have first : s.Steady t := freefraglistRmcdevLoop_steady unlink
      have second := first.trans (rmcdevLuns_steady (d := d) (List.range sceMaxLun) t)
      generalize rmcdevLuns d (List.range sceMaxLun) t = u at run second
      cases run
      exact second.trans (.of_luntbl rfl rfl)

/-! ### The end of a population -/

theorem releasePopulation_steady (run : releasePopulation s i a = .ok (r, s')) : s.Steady s' := by
  unfold releasePopulation at run
  refine ((reclaims_steady _).lunGc run).since (.modifyLun ?_)
  intro l
  simp only [Lun.score]

theorem completePopulation_steady (run : completePopulation s i f = .ok (r, s')) : s.Steady s' := by
  unfold completePopulation at run
  split at run
  · cases run
    exact .refl s
  · simp only at run
    split at run
    · cases run
      exact .refl s
    · split at run
      · cases run
        exact .refl s
      · split at run
        · cases run
          exact .refl s
        · split at run
          · exact releasePopulation_steady run
          · split at run
            · cases run
              exact .refl s
            · split at run
              · cases run
                exact .refl s
              · exact (releasePopulation_steady run).since (Steady.setDesc.trans .modifyFrag)

theorem cancelPopulation_steady (run : cancelPopulation s i f = .ok (r, s')) : s.Steady s' := by
  unfold cancelPopulation at run
  split at run
  · cases run
    exact .refl s
  · simp only at run
    split at run
    · cases run
      exact .refl s
    · split at run
      · cases run
        exact .refl s
      · split at run
        · cases run
          exact .refl s
        · split at run
          · split at run
            · cases run
              exact .refl s
            · split at run
              · cases run
                exact .refl s
              · obtain ⟨⟨_, t⟩, unmap, run⟩ := Except.bind_eq_ok run
                exact (releasePopulation_steady run).since ((unmapFrag_steady unmap).since .modifyFrag)
          · split at run
            · cases run
              exact .refl s
            · obtain ⟨⟨_, t⟩, put, run⟩ := Except.bind_eq_ok run
              exact (releasePopulation_steady run).since ((freefraglistPut_steady put).since .modifyFrag)

/-- A population that ended well counts, whether it is found or not. -/
theorem scePut4pop_scores {p : Poptask} {failed : Bool} (run : scePut4pop s p failed = .ok (r, s')) :
    s'.tally = s.tally ∧ ∀ i c', s'.score i = some c' → ∃ c, s.score i = some c ∧
      c' = if failed = false ∧ lunSearch s p.lunctx = some i then c.populate else c := by
  unfold scePut4pop at run
  split at run
  · rename_i none
    cases run
    exact ⟨rfl, fun i c' here => ⟨c', here, by simp [none]⟩⟩
  · rename_i j found
    split at run
    · rename_i failed
      have same := cancelPopulation_steady run
      exact ⟨same.tally, fun i c' here => ⟨c', same.score i c' here, by simp [failed]⟩⟩
    · rename_i done
      obtain ⟨⟨_, u⟩, complete, run⟩ := Except.bind_eq_ok run
      have first := completePopulation_steady complete
      cases run
      refine ⟨first.tally, fun i c' here => ?_⟩
      by_cases e : i = j
      · subst e
        rw [Sce.score, Sce.modifyLun_luntbl_self] at here
        obtain ⟨_, lun, rfl⟩ := Option.map_eq_some_iff.mp here
        obtain ⟨l, there, rfl⟩ := Option.map_eq_some_iff.mp lun
        have before : u.score i = some l.score := by
          rw [Sce.score, there]
          rfl
        refine ⟨l.score, first.score i _ before, ?_⟩
        rw [if_pos ⟨by simpa using done, found⟩]
        rfl
      · rw [modifyLun_score_ne e] at here
        refine ⟨c', first.score i c' here, ?_⟩
        rw [if_neg]
        rintro ⟨_, found'⟩
        exact e (Option.some.inj (found'.symm.trans found))

/-! ### A new LUN -/

theorem sceAddlun_scores {m ctx : Nat} {vmalloc : Bool} {hndl : Option Nat}
    (run : sceAddlun s m ctx vmalloc = .ok (hndl, s')) : s'.tally = s.tally ∧
      ∀ i c', s'.score i = some c' → hndl = some i ∧ c' = .zero ∨ hndl ≠ some i ∧ s.score i = some c' := by
  unfold sceAddlun at run
  split at run
  · cases run
    exact ⟨rfl, fun i c' here => Or.inr ⟨(Option.some_ne_none i).symm, here⟩⟩
  · split at run
    · cases run
      exact ⟨rfl, fun i c' here => Or.inr ⟨(Option.some_ne_none i).symm, here⟩⟩
    · rename_i j found
      split at run
      · cases run
        exact ⟨rfl, fun i c' here => Or.inr ⟨(Option.some_ne_none i).symm, here⟩⟩
      · rename_i l init
        cases run
        refine ⟨rfl, fun i c' here => ?_⟩
        simp only [Sce.score] at here ⊢
        by_cases e : i = j
        · subst e
          rw [if_pos rfl] at here
          obtain rfl := Option.some.inj here
          refine Or.inl ⟨rfl, ?_⟩
          unfold lunInit at init
          simp only at init
          split at init
          · cases init
            rfl
          · cases init
        · rw [if_neg e] at here
          exact Or.inr ⟨fun same => e (Option.some.inj same).symm, here⟩

/-! ### Reads -/

/-- The lookup counts one for the engine, and a hit one for the LUN. -/
theorem get4readFrag_scores {off cnt : Nat} {m : Option Fmap} (run : get4readFrag s i l f off cnt = .ok (m, s')) :
    s'.tally = (if m.isSome then u32 (s.nrHit + 1) else s.nrHit, if m.isSome then s.nrMiss else u32 (s.nrMiss + 1),
      s.nrEviction) ∧
    ∀ j, s'.score j = (s.score j).map fun c => if j = i ∧ m.isSome then { c with readHits := c.readHits + 1 } else c := by
  have still : ∀ {o : Option LunScore}, (o.map fun c => c) = o := fun {o} => by cases o <;> rfl
  unfold get4readFrag at run
  simp only at run
  split at run
  · cases run
    refine ⟨rfl, fun j => ?_⟩
    simp only [Option.isSome_none, Bool.false_eq_true, and_false, if_false, still]
    exact modifyLun_score fun _ => rfl
  · split at run
    · cases run
    · rename_i g frag
      obtain ⟨hit, _, run⟩ := Except.bind_eq_ok run
      split at run
      · cases run
        have there : ((s.modifyFrag (phys (l.fragmap f)) Frag.hit).modifyLun i Lun.hit).frag? (phys (l.fragmap f)) =
            some g.hit := by
          rw [Sce.modifyLun_frag?, Sce.modifyFrag_frag?_self, show s.frag? (phys (l.fragmap f)) = some g from frag]
          rfl
        obtain ⟨_, _, _, fmap⟩ := Sce.pfid2fmap_of_frag there
        rw [fmap]
        refine ⟨rfl, fun j => ?_⟩
        simp only [Option.isSome_some, and_true]
        show (((s.modifyFrag (phys (l.fragmap f)) Frag.hit).modifyLun i Lun.hit).score j) = _
        by_cases e : j = i
        · subst e
          rw [Sce.score, Sce.modifyLun_luntbl_self, Sce.modifyFrag_luntbl, Sce.score]
          cases s.luntbl j with
          | none => rfl
          | some l => simp [Lun.score, Lun.hit]
        · rw [modifyLun_score_ne e]
          simp only [e, if_false, still]
          rfl
      · cases run
        refine ⟨rfl, fun j => ?_⟩
        simp only [Option.isSome_none, Bool.false_eq_true, and_false, if_false, still]
        rfl

/-- What is looked up has passed the checks of `_lock_lun`. -/
theorem grants_of_accepts {x n : Nat} (h : Shape s) (accepted : s.accepts i x n = true) : s.grants i x n = true := by
  obtain ⟨l, lun, active, hn, bound, _⟩ := Sce.accepts_iff.mp accepted
  have limit := h.nrSctr_lt lun
  have locked : lockLun s i x n true = some l :=
    lockLun_eq_some.mpr ⟨lun, (inRange_iff (by omega)).mpr ⟨hn, bound⟩, fun _ => active⟩
  unfold Sce.grants
  rw [locked]
  rfl

/-- A read in several fragments is not looked up. -/
theorem not_accepts_of_long {x n : Nat} (h : Shape s)
    (long : 256 < u32 (x / 8 % 256 + u32 (sub64 (sub64 (u64 (x + n)) 1 / 8) (x / 8) + 1))) : s.accepts i x n = false := by
  rw [Bool.eq_false_iff]
  intro accepted
  obtain ⟨l, lun, _, _, bound, one⟩ := Sce.accepts_iff.mp accepted
  have limit := h.nrSctr_lt lun
  obtain ⟨count, order⟩ := read_count (by omega) (by omega) one
  rw [count] at long
  unfold u32 at long
  omega

theorem accepts_of_short {x n : Nat} (h : Shape s) (hx : x < 2 ^ 64) (hn : n < 2 ^ 32)
    (lock : lockLun s i x n true = some l)
    (fits : u32 (x / 8 % 256 + u32 (sub64 (sub64 (u64 (x + n)) 1 / 8) (x / 8) + 1)) ≤ 256)
    (inside : u32 (x / 8 / 256) < l.nrFrag) : s.accepts i x n = true := by
  obtain ⟨lun, range, active⟩ := lockLun_eq_some.mp lock
  have pos : 0 < n := by
    by_contra z
    simp [inRange, Nat.eq_zero_of_not_pos z] at range
  obtain ⟨short, one⟩ := read_span hx pos hn (h.nrFrag_lt lun) fits inside
  exact Sce.accepts_iff.mpr ⟨l, lun, active rfl, pos, ((inRange_iff short).mp range).2, one⟩

theorem sceGet4read_scores {x n : Nat} {m : Option Fmap} (h : Shape s) (hx : x < 2 ^ 64) (hn : n < 2 ^ 32)
    (run : sceGet4read s i x n = .ok (m, s')) :
    s'.tally = (if m.isSome then u32 (s.nrHit + 1) else s.nrHit,
      if m.isSome = false ∧ s.accepts i x n = true then u32 (s.nrMiss + 1) else s.nrMiss, s.nrEviction) ∧
    ∀ j, s'.score j = (s.score j).map fun c => if j = i ∧ s.grants i x n = true then c.read n m.isSome else c := by
  have still : ∀ {o : Option LunScore}, (o.map fun c => c) = o := fun {o} => by cases o <;> rfl
  unfold sceGet4read at run
  split at run
  · rename_i lock
    cases run
    have refused : s.grants i x n = false := by
      unfold Sce.grants
      rw [lock]
      rfl
    have not : s.accepts i x n = false := by
      rw [Bool.eq_false_iff]
      intro accepted
      rw [grants_of_accepts h accepted] at refused
      cases refused
    simp only [refused, not, Option.isSome_none, Bool.false_eq_true, and_false, if_false, still, implies_true, and_true]
    rfl
  · rename_i l lock
    have taken : s.grants i x n = true := by
      unfold Sce.grants
      rw [lock]
      rfl
    obtain ⟨ψ, hψ⟩ : ∃ ψ : Lun → Lun, ψ = fun l => { l with stats := { l.stats with
      reads := l.stats.reads + 1, readSctrs := l.stats.readSctrs + (n : Nat) } } := ⟨_, rfl⟩
    have asked : ∀ j, (s.modifyLun i ψ).score j = (s.score j).map fun c => if j = i then c.read n false else c := by
      intro j
      by_cases e : j = i
      · subst e
        rw [Sce.score, Sce.modifyLun_luntbl_self, Sce.score]
        cases s.luntbl j with
        | none => rfl
        | some l => simp [Lun.score, LunScore.read, hψ]
      · rw [modifyLun_score_ne e]
        simp only [e, if_false, still]
    simp only [← hψ] at run
    simp only [taken, and_true]
    split at run
    · rename_i long
      cases run
      have not : s.accepts i x n = false := not_accepts_of_long h long
      simp only [not, Option.isSome_none, Bool.false_eq_true, and_false, if_false]
      exact ⟨rfl, asked⟩
    · rename_i fits
      split at run
      · cases run
      · rename_i inside
        have accepted : s.accepts i x n = true :=
          accepts_of_short h hx hn lock (Nat.not_lt.mp fits) (Nat.not_le.mp inside)
        obtain ⟨tally, score⟩ := get4readFrag_scores run
        simp only [accepted, and_true]
        refine ⟨?_, fun j => ?_⟩
        · rw [tally]
          cases m <;> rfl
        · rw [score, asked, Option.map_map]
          congr 1
          funext c
          cases m <;> by_cases e : j = i <;> simp [e, LunScore.read]

/-! ### Invalidations -/

theorem invalidateFrag_steady {g : Frag} {off cnt : Nat} (run : invalidateFrag s i w g off cnt = .ok s') : s.Steady s' := by
  unfold invalidateFrag at run
  obtain ⟨⟨g', n⟩, _, run⟩ := Except.bind_eq_ok run
  simp only at run
  obtain ⟨t, ht⟩ : ∃ t : Sce, t = (s.modifyFrag (phys w) fun _ => g').modifyLun i fun l =>
      { l with stats := { l.stats with validSctrs := l.stats.validSctrs - (n * sceSctrPerPage : Nat) } } := ⟨_, rfl⟩
  have first : s.Steady t := by
    rw [ht]
    exact Steady.modifyFrag.trans (.modifyLun fun _ => rfl)
  rw [← ht] at run
  split at run
  · obtain ⟨⟨_, u⟩, gc, run⟩ := Except.bind_eq_ok run
    cases run
    exact first.trans ((reclaims_steady _).lunGc gc)
  · cases run
    exact first

/-- The loop counts the mapped fragments that hold some of the pages. -/
theorem invalidateLoop_meets {p : Nat × Nat} (fuel : Nat) : ∀ (fragnum pgoff count wh : Nat) (s : Sce) (l : Volume),
    Inv nowhere s → s.view.lun i = some l → l.waiting = false → pgoff < 256 → count ≤ fuel →
    invalidateLoop i fuel fragnum pgoff count wh s = .ok (p, s') → s.Steady s' ∧ wh ≤ p.2 ∧
      (wh < p.2 ↔ ∃ k, touched k (fragnum * 256 + pgoff) count = true ∧ s.place i k ≠ none) := by
  induction fuel with
  | zero =>
    intro fragnum pgoff count wh s l _ _ _ _ enough run
    obtain rfl : count = 0 := Nat.le_zero.mp enough
    cases run
    refine ⟨.refl _, le_rfl, iff_of_false (lt_irrefl _) ?_⟩
    rintro ⟨k, touch, _⟩
    exact absurd (touched_iff.mp touch).2.2 (lt_irrefl 0)
  | succ fuel ih =>
    intro fragnum pgoff count wh s l h volume active inside enough run
    obtain ⟨lun, present, rfl⟩ := Option.map_eq_some_iff.mp (Sce.view_lun ▸ volume)
    unfold invalidateLoop at run
    split at run
    · rename_i done
      cases run
      refine ⟨.refl _, le_rfl, iff_of_false (lt_irrefl _) ?_⟩
      rintro ⟨k, touch, _⟩
      exact absurd (touched_iff.mp touch).2.2 (by omega)
    rename_i more
    simp only [present] at run
    split at run
    · cases run
    rename_i past
    have nowrap : u32 (fragnum + 1) = fragnum + 1 := by
      have frags := h.shape.nrFrag_lt present
      exact u32_of_lt (by omega)
    have size : 0 < min (scePagePerFrag - pgoff) count := by
      simp only [scePagePerFrag]
      omega
    split at run
    · -- an unmapped fragment is passed by, and the rest of the pages are in the next ones
      rename_i unmapped
      have empty : s.place i fragnum = none := by
        by_contra there
        obtain ⟨a, place⟩ := Option.ne_none_iff_exists'.mp there
        obtain ⟨l', lun', _, mapped, _⟩ := Sce.place_eq_some.mp place
        obtain rfl := Option.some.inj (present.symm.trans lun')
        rw [unmapped] at mapped
        cases mapped
      rw [nowrap] at run
      obtain ⟨steady, le, meets⟩ := ih _ _ _ _ s lun.volume h volume active (by decide) (by omega) run
      refine ⟨steady, le, meets.trans (exists_congr fun k => ?_)⟩
      by_cases e : k = fragnum
      · subst e
        simp only [empty, ne_eq, not_true, and_false]
      · apply and_congr_left
        intro _
        rw [touched_iff, touched_iff]
        simp only [scePagePerFrag]
        omega
    · rename_i mapped
      obtain ⟨m, slot⟩ := h.shape.slot_of_mapped present (Nat.not_le.mp past) (by simpa using mapped)
      obtain ⟨l', lun', _, _, addr, valid, frag⟩ := Sce.slot_eq_some.mp slot
      obtain rfl := Option.some.inj (present.symm.trans lun')
      simp only [Sce.pfid2frag, ← addr, frag] at run
      obtain ⟨s₁, inval, run⟩ := Except.bind_eq_ok run
      have fits : pgoff + min (scePagePerFrag - pgoff) count ≤ scePagePerFrag := by
        simp only [scePagePerFrag]
        omega
      rcases invalidateFrag_spec h present active slot addr valid size fits with ⟨_, stop⟩ | ⟨t, ok, h₁, view₁⟩
      · rw [stop] at inval
        cases inval
      obtain rfl := Except.ok.inj (ok.symm.trans inval)
      obtain ⟨steady, le, _⟩ := ih _ _ _ _ _ lun.volume h₁ (by rw [view₁]; exact volume) active (by decide)
        (by omega) run
      refine ⟨(invalidateFrag_steady inval).trans steady, Nat.le_of_succ_le le, iff_of_true le ⟨fragnum, ?_, ?_⟩⟩
      · rw [touched_iff]
        omega
      · rw [Sce.place_eq_some.mpr ⟨lun, present, Nat.not_le.mp past, by simpa using mapped, rfl⟩]
        exact Option.some_ne_none _

theorem meets_iff {x n : Nat} : s.meets i x n = true ↔
    ∃ k, touched k (invFrag x * 256 + invOff x) (invCount x n) = true ∧ s.place i k ≠ none := by
  unfold Sce.meets
  simp only [List.any_eq_true, List.mem_range, Bool.and_eq_true, ← Option.isSome_iff_ne_none]
  constructor
  · rintro ⟨k, _, both⟩
    exact ⟨k, both⟩
  · rintro ⟨k, touch, mapped⟩
    obtain ⟨a, place⟩ := Option.isSome_iff_exists.mp mapped
    obtain ⟨l, lun, inside, _⟩ := Sce.place_eq_some.mp place
    exact ⟨k, by rw [lun]; exact inside, touch, mapped⟩

theorem sceInvalidate_scores {x n : Nat} (h : Inv nowhere s) (run : sceInvalidate s i x n = .ok (r, s')) :
    s'.tally = s.tally ∧ ∀ j c', s'.score j = some c' → ∃ c, s.score j = some c ∧
      c' = if r = .success ∧ j = i then c.write n (s.meets i x n) else c := by
  cases lock : lockLun s i x n true with
  | none =>
    unfold sceInvalidate at run
    rw [lock] at run
    cases run
    exact ⟨rfl, fun j c' here => ⟨c', here, by simp⟩⟩
  | some l =>
    obtain ⟨lun, _, active⟩ := lockLun_eq_some.mp lock
    rw [sceInvalidate_eq lock] at run
    obtain ⟨⟨⟨_, wh⟩, t⟩, visit, run⟩ := Except.bind_eq_ok run
    obtain ⟨ψ, hψ⟩ : ∃ ψ : Lun → Lun, ψ = fun l => { l with stats := { l.stats with
      writes := l.stats.writes + 1, writeSctrs := l.stats.writeSctrs + (n : Nat) } } := ⟨_, rfl⟩
    unfold visitFragments at visit
    simp only [← hψ] at visit
    have h₁ : Inv nowhere (s.modifyLun i ψ) := h.modifyLun (by simp [hψ]) (by simp [hψ]) (by simp [hψ])
    have view₁ : (s.modifyLun i ψ).view = s.view :=
      Sce.view_modifyLun_same (by simp [hψ]) (by simp [hψ]) (by simp [hψ, Lun.volume])
    have volume : (s.modifyLun i ψ).view.lun i = some l.volume := by
      rw [view₁, Sce.view_lun, lun]
      rfl
    have place₁ : (s.modifyLun i ψ).place = s.place := modifyLun_place (by simp [hψ]) (by simp [hψ])
    obtain ⟨steady, _, met⟩ := invalidateLoop_meets _ _ _ _ _ _ l.volume h₁ volume (active rfl)
      (Nat.mod_lt _ (by decide)) le_rfl visit
    simp only [place₁] at met
    have meets : s.meets i x n = true ↔ 0 < wh := meets_iff.trans met.symm
    simp only at run
    cases run
    refine ⟨?_, fun j c' here => ?_⟩
    · split
      · exact steady.tally
      · exact steady.tally
    by_cases e : j = i
    · subst e
      refine ⟨l.score, by rw [Sce.score, lun]; rfl, ?_⟩
      have asked : ∀ c, t.score j = some c →
          c = { l.score with writes := l.score.writes + 1, writeSctrs := l.score.writeSctrs + n } := by
        intro c there
        have before := steady.score j c there
        rw [Sce.score, Sce.modifyLun_luntbl_self, lun] at before
        rw [← Option.some.inj before, hψ]
        rfl
      rw [if_pos ⟨rfl, rfl⟩]
      split at here
      · rename_i none
        rw [asked c' here]
        have not : s.meets j x n = false := by
          rw [Bool.eq_false_iff, ne_eq, meets]
          omega
        simp [LunScore.write, not]
      · rename_i some
        have yes : s.meets j x n = true := meets.mpr (Nat.pos_of_ne_zero some)
        rw [Sce.score, Sce.modifyLun_luntbl_self] at here
        obtain ⟨_, lun', rfl⟩ := Option.map_eq_some_iff.mp here
        obtain ⟨l', there, rfl⟩ := Option.map_eq_some_iff.mp lun'
        have old := asked l'.score (by rw [Sce.score, there]; rfl)
        simp only [LunScore.write, yes, if_true]
        rw [Lun.score, LunScore.mk.injEq] at old ⊢
        obtain ⟨pops, reads, readSctrs, readHits, writes, writeSctrs, writeHits⟩ := old
        exact ⟨pops, reads, readSctrs, readHits, writes, writeSctrs, congrArg (· + 1) writeHits⟩
    · have before : t.score j = some c' := by
        split at here
        · exact here
        · rwa [modifyLun_score_ne e] at here
      have same := steady.score j c' before
      rw [modifyLun_score_ne e] at same
      exact ⟨c', same, (if_neg fun both => e both.2).symm⟩

/-! ### Evictions -/

/-- What `_alloc4population` counts for an eviction. -/
def Sce.evicting (s : Sce) : Sce := { s with nrEviction := u32 (s.nrEviction + 1) }

theorem Sce.Steady.evicting (h : s.Steady t) : s.evicting.Steady t.evicting := by
  obtain ⟨tally, score⟩ := h
  simp only [Sce.tally, Prod.mk.injEq] at tally
  obtain ⟨hits, misses, evictions⟩ := tally
  refine ⟨?_, score⟩
  simp only [Sce.tally, Sce.evicting, hits, misses, evictions]

theorem evictLoop_steady {n : Nat} : ∀ {s : Sce}, evictLoop n s = .ok (r, s') → s.Steady s' := by
  induction n with
  | zero =>
    intro s run
    cases run
    exact .refl _
  | succ n ih =>
    intro s run
    have turned : s.Steady (getFragAdvanceClockarm s).2 := by
      refine .of_luntbl ?_ (clockarm_still s).luntbl
      unfold getFragAdvanceClockarm
      split
      · rfl
      · simp only
        split <;> rfl
    unfold evictLoop at run
    split at run
    · rename_i t arm
      cases run
      rwa [arm] at turned
    · rename_i a t arm
      rw [arm] at turned
      split at run
      · cases run
      · split at run
        · split at run
          · split at run
            · cases run
            · obtain ⟨⟨_, u⟩, unmap, run⟩ := Except.bind_eq_ok run
              cases run
              exact turned.trans (unmapFrag_steady unmap)
          · exact turned.trans (Steady.modifyFrag.trans (ih run))
        · exact turned.trans (ih run)

theorem evictFrag_steady (run : evictFrag s = .ok (r, s')) : s.Steady s' := by
  unfold evictFrag at run
  split at run
  · exact evictLoop_steady run
  · cases run
    exact .refl s

theorem allocLoop_listed_steady (h : Inv nowhere s) (listed : s.freefraglist ≠ 0#32) {p : Ret × Word} {fuel : Nat}
    (run : allocLoop (fuel + 1) s = .ok (p, s')) : s.Steady s' ∧ p.1 = .success := by
  obtain ⟨fl, list⟩ := h.shape.free
  obtain ⟨g, fl', rfl, frag, _⟩ := list.pop listed
  simp only [allocLoop, freefraglistGet_eq list listed frag, bind, Except.bind, pure, Except.pure, ne_eq, listed,
    not_false_eq_true, and_self, if_true] at run
  cases run
  exact ⟨.of_luntbl rfl rfl, rfl⟩

/-- An eviction is counted when the free list is empty and a fragment is had all the same. -/
theorem allocLoop_steady (h : Inv nowhere s) {p : Ret × Word} {fuel : Nat} (run : allocLoop (fuel + 2) s = .ok (p, s')) :
    s.Steady s' ∧ (p.1 ≠ .success ∨ s.freefraglist ≠ 0#32) ∨
      s.evicting.Steady s' ∧ p.1 = .success ∧ s.freefraglist = 0#32 := by
  by_cases unlisted : s.freefraglist = 0#32
  · obtain ⟨⟨⟨_, _⟩, t₀⟩, get, run⟩ := Except.bind_eq_ok run
    rw [freefraglistGet_empty unlisted] at get
    cases get
    simp only [reduceCtorEq, false_and, if_false] at run
    obtain ⟨⟨r, t⟩, evict, run⟩ := Except.bind_eq_ok run
    have first := evictFrag_steady evict
    rcases evictFrag_spec h with ⟨_, stop⟩ | ⟨r', t', evict', h', out⟩
    · rw [stop] at evict
      cases evict
    obtain ⟨rfl, rfl⟩ := Prod.mk.inj (Except.ok.inj (evict.symm.trans evict'))
    rcases out with ⟨rfl, _⟩ | ⟨rfl, j, k, c, cell, _, view⟩
    · cases run
      exact Or.inl ⟨first, Or.inl (by simp)⟩
    · obtain ⟨h₁, _⟩ := h'.congr (t := t.evicting) rfl rfl rfl rfl rfl rfl rfl
      obtain ⟨fl', list'⟩ := h'.shape.free
      have freed : t.isFree c.addr := by
        show t.view.free c.addr
        rw [view]
        exact Or.inr ⟨c, cell, rfl⟩
      have listed : t.freefraglist ≠ 0#32 := fun e => list'.empty_iff.mp e c.addr freed
      obtain ⟨second, ok⟩ := allocLoop_listed_steady h₁ listed run
      exact Or.inr ⟨first.evicting.trans second, ok, unlisted⟩
  · obtain ⟨steady, _⟩ := allocLoop_listed_steady h unlisted run
    exact Or.inl ⟨steady, Or.inr unlisted⟩

theorem alloc4population_steady {p : Option Word} (h : Inv nowhere s) (empty : s.slot i f = none)
    (run : alloc4population s i f = .ok (p, s')) : s.Steady s' ∧ (p = none ∨ s.freefraglist ≠ 0#32) ∨
      s.evicting.Steady s' ∧ p ≠ none ∧ s.freefraglist = 0#32 := by
  have again := run
  unfold alloc4population at run
  split at run
  · cases run
    exact Or.inl ⟨.refl s, Or.inl rfl⟩
  · rename_i l lun
    split at run
    · cases run
      exact Or.inl ⟨.refl s, Or.inl rfl⟩
    · rename_i inside
      obtain ⟨⟨⟨r, pfid⟩, t⟩, alloc, run⟩ := Except.bind_eq_ok run
      have first := allocLoop_steady h alloc
      simp only at run
      split at run
      · rename_i fails
        cases run
        rcases first with ⟨steady, _⟩ | ⟨_, ok, _⟩
        · exact Or.inl ⟨steady, Or.inl rfl⟩
        · exact absurd ok fails
      · rename_i found
        obtain rfl : r = .success := not_not.mp found
        -- a fragment that is had is mapped
        have mapped : p ≠ none := by
          rcases allocLoop_spec h (show 2 ≤ s.nrFrag + 2 by omega) with
            ⟨_, stop⟩ | ⟨_, fail, _⟩ | ⟨pfid', t', ok, h', view', free⟩
          · cases stop.symm.trans alloc
          · cases fail.symm.trans alloc
          · obtain ⟨e, rfl⟩ := Prod.mk.inj (Except.ok.inj (ok.symm.trans alloc))
            obtain ⟨_, rfl⟩ := Prod.mk.inj e
            obtain ⟨u, done, _⟩ := alloc4population_granted lun (Nat.not_le.mp inside) empty ok h' view' free
            obtain ⟨rfl, _⟩ := Prod.mk.inj (Except.ok.inj (done.symm.trans again))
            exact Option.some_ne_none _
        obtain ⟨⟨r', u⟩, map, run⟩ := Except.bind_eq_ok run
        simp only at run
        have rest : t.Steady s' := by
          split at run
          · split at run
            · cases run
            · cases run
              exact Steady.modifyFrag.since ((mapFrag_steady map).trans (.modifyLun fun _ => rfl))
          · obtain ⟨⟨_, v⟩, put, run⟩ := Except.bind_eq_ok run
            cases run
            exact (mapFrag_steady map).trans (freefraglistPut_steady put)
        rcases first with ⟨steady, listed⟩ | ⟨steady, _, unlisted⟩
        · exact Or.inl ⟨steady.trans rest, Or.inr (listed.resolve_left fun not => not rfl)⟩
        · exact Or.inr ⟨steady.trans rest, mapped, unlisted⟩

theorem loses_iff (h : Inv nowhere s) (h' : Inv nowhere s') :
    s.loses s' = true ↔ ∃ i f c, s.view.cell i f = some c ∧ s'.view.cell i f = none := by
  have place : ∀ {t : Sce}, Inv nowhere t → ∀ i f, t.place i f = (t.view.cell i f).map Cell.addr :=
    fun h _ _ => h.shape.place_eq_cell
  unfold Sce.loses
  simp only [List.any_eq_true, List.mem_range, Bool.and_eq_true, place h, place h', Option.isSome_map, Option.isNone_map,
    Option.isNone_iff_eq_none]
  constructor
  · rintro ⟨i, _, f, _, there, gone⟩
    obtain ⟨c, cell⟩ := Option.isSome_iff_exists.mp there
    exact ⟨i, f, c, cell, gone⟩
  · rintro ⟨i, f, c, cell, gone⟩
    obtain ⟨l, lun, inside⟩ := h.sound.inside i f c cell
    obtain ⟨lt, _⟩ := h.sound.lun i l lun
    obtain ⟨l, present, rfl⟩ := Option.map_eq_some_iff.mp (Sce.view_lun ▸ lun)
    exact ⟨i, lt, f, by rw [present]; exact inside, by rw [cell]; rfl, gone⟩

/-- A population that takes the fragment of a mapping is one for which the free list was empty. -/
theorem sceGet4pop_scores {past : Nat → Nat → Word} {p : Option Poptask} (h : Inv nowhere s)
    (run : sceGet4pop s past = .ok (p, s')) : s'.tally = (s.nrHit, s.nrMiss,
      if s.loses s' = true then u32 (s.nrEviction + 1) else s.nrEviction) ∧
      ∀ i c, s'.score i = some c → s.score i = some c := by
  have counted : s.Steady s' ∧ (p = none ∨ s.freefraglist ≠ 0#32) ∨
      s.evicting.Steady s' ∧ p ≠ none ∧ s.freefraglist = 0#32 := by
    have again := run
    unfold sceGet4pop at run
    split at run
    · cases run
      exact Or.inl ⟨.refl s, Or.inl rfl⟩
    · rename_i i f chosen
      have empty : s.slot i f = none := by
        rcases choose4populationLoop_spec _ _ _ chosen with none | ⟨l, lun, _, clear⟩
        · cases none
        cases slot : s.slot i f with
        | none => rfl
        | some m =>
          obtain ⟨l', lun', inside, mapped, _⟩ := Sce.slot_eq_some.mp slot
          obtain rfl := Option.some.inj (lun.symm.trans lun')
          rw [readFragmap, if_pos inside, mapped] at clear
          cases clear
      obtain ⟨⟨q, t⟩, alloc, run⟩ := Except.bind_eq_ok run
      have first := alloc4population_steady h empty alloc
      cases q with
      | none =>
        cases run
        rcases first with ⟨steady, _⟩ | ⟨_, some, _⟩
        · exact Or.inl ⟨steady, Or.inl rfl⟩
        · exact absurd rfl some
      | some pfid =>
        cases run
        rcases first with ⟨steady, none | listed⟩ | ⟨steady, _, unlisted⟩
        · cases none
        · exact Or.inl ⟨steady, Or.inr listed⟩
        · exact Or.inr ⟨steady, Option.some_ne_none _, unlisted⟩
  obtain ⟨fl, list⟩ := h.shape.free
  rcases sceGet4pop_spec h past with ⟨_, stop⟩ | ⟨t, none, h', view⟩ | ⟨i, f, a, l, ctx, size, t, done, h', _, _, _, empty,
    free, _, view⟩
  · cases stop.symm.trans run
  · obtain ⟨rfl, rfl⟩ := Prod.mk.inj (Except.ok.inj (none.symm.trans run))
    have kept : s.loses t = false := by
      rw [Bool.eq_false_iff, ne_eq, loses_iff h h', view]
      rintro ⟨i, f, c, cell, gone⟩
      cases cell.symm.trans gone
    rcases counted with ⟨steady, _⟩ | ⟨_, some, _⟩
    · simp only [kept, Bool.false_eq_true, if_false]
      exact ⟨steady.tally, steady.score⟩
    · exact absurd rfl some
  · obtain ⟨rfl, rfl⟩ := Prod.mk.inj (Except.ok.inj (done.symm.trans run))
    have moved : ∀ j k, t.view.cell j k = none ↔ ¬ (j = i ∧ k = f) ∧ ∀ c, s.view.cell j k = some c → c.addr = a := by
      intro j k
      rw [view, View.place]
      simp only [View.setLun_cell, View.enter_cell, View.seize]
      by_cases e : j = i ∧ k = f
      · simp [e]
      · simp [e]
    rcases counted with ⟨steady, none | listed⟩ | ⟨steady, _, unlisted⟩
    · cases none
    · -- the head of the free list is had
      have kept : s.loses t = false := by
        rw [Bool.eq_false_iff, ne_eq, loses_iff h h']
        rintro ⟨j, k, c, cell, gone⟩
        have addr := ((moved j k).mp gone).2 c cell
        rcases free with free | ⟨nothing, _⟩
        · exact h.sound.apart j k c cell (addr ▸ free)
        · exact listed (list.empty_iff.mpr nothing)
      simp only [kept, Bool.false_eq_true, if_false]
      exact ⟨steady.tally, steady.score⟩
    · have lost : s.loses t = true := by
        rw [loses_iff h h']
        rcases free with free | ⟨_, j, k, c, cell, _, addr⟩
        · exact absurd free (list.empty_iff.mp unlisted a)
        · refine ⟨j, k, c, cell, (moved j k).mpr ⟨?_, ?_⟩⟩
          · rintro ⟨rfl, rfl⟩
            cases cell.symm.trans empty
          · intro c' cell'
            obtain rfl := Option.some.inj (cell.symm.trans cell')
            exact addr
      simp only [lost, if_true]
      exact ⟨steady.tally, steady.score⟩

/-! ### One call -/

/-- What a call adds to the counts. -/
structure Sce.Scores (s : Sce) (op : Op) (reply : Reply) (s' : Sce) : Prop where
  hits : s'.nrHit = if reply.hits = true then u32 (s.nrHit + 1) else s.nrHit
  misses : s'.nrMiss = if (op.missed s reply).isSome = true then u32 (s.nrMiss + 1) else s.nrMiss
  evictions : s'.nrEviction = if op.evicts s s' = true then u32 (s.nrEviction + 1) else s.nrEviction
  luns : ∀ i c', s'.score i = some c' → op.added reply = some i ∧ c' = .zero ∨
    op.added reply ≠ some i ∧ ∃ c, s.score i = some c ∧ c' = op.scored s reply i c

theorem Sce.Scores.of_tally {op : Op} {reply : Reply} {hits misses evictions : Nat}
    (tally : s'.tally = (hits, misses, evictions))
    (hits_eq : hits = if reply.hits = true then u32 (s.nrHit + 1) else s.nrHit)
    (misses_eq : misses = if (op.missed s reply).isSome = true then u32 (s.nrMiss + 1) else s.nrMiss)
    (evictions_eq : evictions = if op.evicts s s' = true then u32 (s.nrEviction + 1) else s.nrEviction)
    (luns : ∀ i c', s'.score i = some c' → op.added reply = some i ∧ c' = .zero ∨
      op.added reply ≠ some i ∧ ∃ c, s.score i = some c ∧ c' = op.scored s reply i c) : s.Scores op reply s' := by
  simp only [Sce.tally, Prod.mk.injEq] at tally
  obtain ⟨rfl, rfl, rfl⟩ := tally
  exact ⟨hits_eq, misses_eq, evictions_eq, luns⟩

theorem Sce.call_scores {op : Op} {reply : Reply} (h : Inv nowhere s)
    (typed : ∀ j x n, op = .get4read j x n → x < 2 ^ 64 ∧ n < 2 ^ 32) (run : s.call op = .ok (reply, s')) :
    s.Scores op reply s' := by
  cases op with
  | addcdev m ctx vmalloc =>
    obtain ⟨⟨hndl, t⟩, done, e⟩ := Except.map_eq_ok.mp run
    obtain ⟨rfl, rfl⟩ := Prod.mk.inj e
    have steady := sceAddcdev_steady done
    exact .of_tally steady.tally rfl rfl rfl fun i c here => Or.inr ⟨(Option.some_ne_none i).symm, c, steady.score i c here, rfl⟩
  | rmcdev d =>
    obtain ⟨⟨_, t⟩, done, e⟩ := Except.map_eq_ok.mp run
    obtain ⟨rfl, rfl⟩ := Prod.mk.inj e
    have steady := sceRmcdev_steady done
    exact .of_tally steady.tally rfl rfl rfl fun i c here => Or.inr ⟨(Option.some_ne_none i).symm, c, steady.score i c here, rfl⟩
  | addlun m ctx vmalloc =>
    obtain ⟨⟨hndl, t⟩, done, e⟩ := Except.map_eq_ok.mp run
    obtain ⟨rfl, rfl⟩ := Prod.mk.inj e
    obtain ⟨tally, score⟩ := sceAddlun_scores done
    refine .of_tally tally rfl rfl rfl fun i c here => ?_
    rcases score i c here with new | ⟨ne, old⟩
    · exact Or.inl new
    · exact Or.inr ⟨ne, c, old, rfl⟩
  | rmlun j =>
    obtain ⟨⟨_, t⟩, done, e⟩ := Except.map_eq_ok.mp run
    obtain ⟨rfl, rfl⟩ := Prod.mk.inj e
    have steady := sceRmlun_steady done
    exact .of_tally steady.tally rfl rfl rfl fun i c here => Or.inr ⟨(Option.some_ne_none i).symm, c, steady.score i c here, rfl⟩
  | get4read j x n =>
    obtain ⟨⟨m, t⟩, done, e⟩ := Except.map_eq_ok.mp run
    obtain ⟨rfl, rfl⟩ := Prod.mk.inj e
    obtain ⟨tally, score⟩ := sceGet4read_scores h.shape (typed j x n rfl).1 (typed j x n rfl).2 done
    refine .of_tally tally rfl ?_ rfl fun i c' here => Or.inr ⟨(Option.some_ne_none i).symm, ?_⟩
    · cases m with
      | none => by_cases accepted : s.accepts j x n = true <;> simp [Op.missed, accepted]
      | some m => rfl
    · rw [score i] at here
      obtain ⟨c, before, rfl⟩ := Option.map_eq_some_iff.mp here
      exact ⟨c, before, rfl⟩
  | put4read j x n =>
    obtain ⟨⟨_, t⟩, done, e⟩ := Except.map_eq_ok.mp run
    obtain ⟨rfl, rfl⟩ := Prod.mk.inj e
    have steady := scePut4read_steady done
    exact .of_tally steady.tally rfl rfl rfl fun i c here => Or.inr ⟨(Option.some_ne_none i).symm, c, steady.score i c here, rfl⟩
  | invalidate j x n =>
    obtain ⟨⟨r, t⟩, done, e⟩ := Except.map_eq_ok.mp run
    obtain ⟨rfl, rfl⟩ := Prod.mk.inj e
    obtain ⟨tally, score⟩ := sceInvalidate_scores h done
    refine .of_tally tally rfl rfl rfl fun i c' here => Or.inr ⟨(Option.some_ne_none i).symm, ?_⟩
    obtain ⟨c, before, rfl⟩ := score i c' here
    refine ⟨c, before, ?_⟩
    cases r with
    | error => simp [Op.scored]
    | success =>
      by_cases e : i = j
      · subst e
        simp [Op.scored]
      · simp [Op.scored, e]
  | get4pop past =>
    obtain ⟨⟨_, t⟩, done, e⟩ := Except.map_eq_ok.mp run
    obtain ⟨rfl, rfl⟩ := Prod.mk.inj e
    obtain ⟨tally, score⟩ := sceGet4pop_scores h done
    exact .of_tally tally rfl rfl rfl fun i c here => Or.inr ⟨(Option.some_ne_none i).symm, c, score i c here, rfl⟩
  | put4pop p failed =>
    obtain ⟨⟨_, t⟩, done, e⟩ := Except.map_eq_ok.mp run
    obtain ⟨rfl, rfl⟩ := Prod.mk.inj e
    obtain ⟨tally, score⟩ := scePut4pop_scores done
    refine .of_tally tally rfl rfl rfl fun i c' here => Or.inr ⟨(Option.some_ne_none i).symm, ?_⟩
    obtain ⟨c, before, rfl⟩ := score i c' here
    refine ⟨c, before, ?_⟩
    cases failed <;> simp [Op.scored]

end Iostash
