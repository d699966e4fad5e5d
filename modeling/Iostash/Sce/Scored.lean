import Iostash.Sce.Scores
import Iostash.Sce.Runs

/-!
# What the request statistics count

The calls of a run are counted beside the engine, and compared with its counters and with those of the LUNs.
-/

namespace Iostash

open Util

/-- An engine, with the hits, the misses and the evictions of its run, and for each LUN the requests for it
since it was added. -/
structure Scored where
  sce : Sce
  hits : Nat
  misses : Nat
  evictions : Nat
  luns : Nat → LunScore

namespace Scored

def init : Scored := ⟨sceCreate, 0, 0, 0, fun _ => .zero⟩

def next (c : Scored) (op : Op) (reply : Reply) (s' : Sce) : Scored where
  sce := s'
  hits := c.hits + reply.hits.toNat
  misses := c.misses + (op.missed c.sce reply).isSome.toNat
  evictions := c.evictions + (op.evicts c.sce s').toNat
  luns i := if op.added reply = some i then .zero else op.scored c.sce reply i (c.luns i)

def observer : Observer Scored := ⟨Scored.sce, init, next, rfl, fun _ _ _ _ => rfl⟩

abbrev Reached (c : Scored) : Prop := observer.Reached c

/-- The counters of the engine are the counts in 32 bits, and a LUN has counted what was asked of it. -/
structure Exact (c : Scored) : Prop where
  hits : c.sce.nrHit = u32 c.hits
  misses : c.sce.nrMiss = u32 c.misses
  evictions : c.sce.nrEviction = u32 c.evictions
  luns : ∀ i o, c.sce.score i = some o → o = c.luns i

variable {c : Scored} {op : Op} {reply : Reply} {s' : Sce} {i : Nat} {l : Lun}

/-- A counter of 32 bits that counts one more, or not. -/
theorem counter_next {old new n : Nat} {more : Bool} (before : old = u32 n)
    (moves : new = if more = true then u32 (old + 1) else old) : new = u32 (n + more.toNat) := by
  rw [moves, before]
  cases more with
  | false => rfl
  | true => exact Nat.mod_add_mod n (2 ^ 32) 1

theorem Exact.next (h : c.Exact) (scores : c.sce.Scores op reply s') : (c.next op reply s').Exact := by
  refine ⟨counter_next h.hits scores.hits, counter_next h.misses scores.misses,
    counter_next h.evictions scores.evictions, fun i o here => ?_⟩
  rcases scores.luns i o here with ⟨added, rfl⟩ | ⟨old, o', before, rfl⟩
  · exact (if_pos added).symm
  · rw [h.luns i o' before]
    exact (if_neg old).symm

theorem Reached.exact (h : c.Reached) : c.sce.Reached ∧ c.Exact := by
  refine h.invariant ⟨rfl, rfl, rfl, fun _ _ here => by cases here⟩ fun c op reply s' here typed run old => old.next ?_
  refine Sce.call_scores here.inv ?_ run
  rintro j x n rfl
  exact typed

/-- In every run, the counters of a LUN show what was asked of it since it was added, in 64 bits: the reads and
the writes that lie on it, the reads served from the cache, the writes that met a mapped fragment, and the
populations. -/
theorem lun_stats_exact (h : c.Reached) (lun : c.sce.luntbl i = some l) :
    l.score.shown = (c.luns i).shown ∧ ((c.luns i).Fits → l.score.shown = c.luns i) := by
  have same : l.score = c.luns i := h.exact.2.luns i l.score (by rw [Sce.score, lun]; rfl)
  rw [same]
  exact ⟨rfl, LunScore.shown_of_fits⟩

/-- A LUN is read, populated, read again and written, removed, and another one is added in its slot. -/
def asked : Scored := observer.after
  [.addcdev 2048 7 true, .addlun 4096 9 true, .get4read 0 0 8, .get4pop fun _ _ => 0#32, .put4pop ⟨9, 7, 0, 0⟩ false,
    .get4read 0 0 8, .put4read 0 0 8, .get4read 0 2040 16, .invalidate 0 0 8, .invalidate 0 2048 8,
    .addlun 2048 10 true, .invalidate 1 0 8]

theorem asked_reached : asked.Reached := Observer.after_reached (by decide +kernel)

theorem lun_stats_exact_asked : ∃ l, asked.sce.luntbl 0 = some l ∧ l.score.shown = ⟨1, 3, 32, 1, 2, 16, 1⟩ := by
  obtain ⟨l, lun⟩ : ∃ l, asked.sce.luntbl 0 = some l := Option.isSome_iff_exists.mp (by decide +kernel)
  refine ⟨l, lun, (lun_stats_exact asked_reached lun).1.trans ?_⟩
  decide +kernel

end Scored

end Iostash
