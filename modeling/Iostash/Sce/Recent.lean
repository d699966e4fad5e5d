import Iostash.Util.Recent
import Iostash.Sce.Locking
import Iostash.Sce.Runs

/-!
# The miss log as a window of the misses

Whatever happens to the LUNs in between, the log delivers the newest puts, newest first.
-/

namespace Iostash

open Util

namespace Sce

/-- `hist` are the puts into the miss log since `sce_create`, the newest first. -/
inductive Logged : List (Nat × Nat) → Sce → Prop
  | create : Logged [] sceCreate
  | put {hist : List (Nat × Nat)} {s : Sce} (lunidx fragnum : Nat) : Logged hist s →
      Logged ((lunidx, fragnum) :: hist) (misslogPut s lunidx fragnum)
  | other {hist : List (Nat × Nat)} {s s' : Sce} : Logged hist s → s'.misslog = s.misslog → Logged hist s'

variable {s s' : Sce} {hist : List (Nat × Nat)} {idx i f : Nat}

/-- The entry in a cell of the log. -/
def logged (s : Sce) (j : Nat) : Nat × Nat := (s.misslogLunidx j, s.misslogFragnum j)

theorem misslog_eq : s'.misslog = s.misslog ↔ s'.misslogFragnum = s.misslogFragnum ∧
    s'.misslogLunidx = s.misslogLunidx ∧ s'.misslogHead = s.misslogHead ∧ s'.misslogSize = s.misslogSize := by
  simp [misslog]

theorem misslogPut_logged : (misslogPut s i f).logged = fun j => if j = s.misslogHead then (i, f) else s.logged j := by
  funext j
  by_cases here : j = s.misslogHead <;> simp [logged, misslogPut, here]

theorem Logged.holds (h : Logged hist s) :
    Recent.Holds sceCacheMissLogSize s.logged s.misslogHead hist ∧
    s.misslogSize = min hist.length sceCacheMissLogSize := by
  induction h with
  | create => exact ⟨.empty (by decide), rfl⟩
  | put i f _ ih =>
    obtain ⟨holds, size⟩ := ih
    refine ⟨?_, ?_⟩
    · rw [misslogPut_logged]
      exact holds.put (i, f)
    · simp only [misslogPut, size, List.length_cons]
      split <;> omega
  | other _ same ih =>
    obtain ⟨fragnum, lunidx, head, size⟩ := misslog_eq.mp same
    rw [head, size]
    refine ⟨?_, ih.2⟩
    have cells : ∀ {s s' : Sce}, s'.misslogFragnum = s.misslogFragnum → s'.misslogLunidx = s.misslogLunidx →
        s'.logged = s.logged := by
      intro s s' fragnum lunidx
      unfold logged
      rw [fragnum, lunidx]
    rw [cells fragnum lunidx]
    exact ih.1

/-- `_misslog_get` reads the entry put `idx` puts ago. -/
theorem Logged.get (h : Logged hist s) (near : idx < sceCacheMissLogSize) :
    misslogGet s idx = match hist[idx]? with
      | none => (.error, none)
      | some e => (if lunIsvalididx s e.1 then .success else .error, some e) := by
  obtain ⟨holds, size⟩ := h.holds
  unfold misslogGet
  cases here : hist[idx]? with
  | none =>
    have past := List.getElem?_eq_none_iff.mp here
    rw [if_neg (by rw [size]; omega)]
  | some e =>
    obtain ⟨inside, _⟩ := List.getElem?_eq_some_iff.mp here
    have entry := holds.recent idx e near here
    rw [if_pos (by rw [size]; omega)]
    simp only
    -- the index the code computes is the one of `Recent.back`
    have back : (if idx + 1 ≤ s.misslogHead then s.misslogHead - (idx + 1)
        else sceCacheMissLogSize - (idx + 1 - s.misslogHead)) = Recent.back sceCacheMissLogSize s.misslogHead idx := rfl
    rw [back, ← entry]
    rfl

theorem Logged.get_past (h : Logged hist s) (past : min hist.length sceCacheMissLogSize ≤ idx) :
    misslogGet s idx = (.error, none) := by
  unfold misslogGet
  rw [if_neg (by rw [h.holds.2]; omega)]

/-- The log is the window of the newest puts: `_misslog_get` delivers the put `idx` puts ago, and says
whether its LUN is there now. -/
theorem misslogGet_window (h : Logged hist s) (idx : Nat) :
    if idx < min hist.length sceCacheMissLogSize then
      ∃ e, hist[idx]? = some e ∧ (misslogGet s idx).2 = some e ∧
        ((misslogGet s idx).1 = .success ↔
          e.1 < sceMaxLun ∧ ∃ l, s.luntbl e.1 = some l ∧ l.waiting4deletion = false)
    else misslogGet s idx = (.error, none) := by
  split
  · rename_i near
    obtain ⟨inside, cap⟩ := Nat.lt_min.mp near
    have here : hist[idx]? = some hist[idx] := List.getElem?_eq_getElem inside
    refine ⟨hist[idx], here, ?_⟩
    rw [h.get cap, here, ← lunIsvalididx_iff]
    refine ⟨rfl, ?_⟩
    cases valid : lunIsvalididx s hist[idx].1 <;> simp [valid]
  · rename_i past
    exact h.get_past (Nat.not_lt.mp past)

/-- Puts for the first `n` fragments of a LUN, one after another. -/
def putEach (s : Sce) (i : Nat) : Nat → Sce
  | 0 => s
  | n + 1 => misslogPut (putEach s i n) i n

theorem Logged.putEach (h : Logged hist s) (n : Nat) :
    Logged ((List.range n).reverse.map (fun f => (i, f)) ++ hist) (putEach s i n) := by
  induction n with
  | zero => exact h
  | succ n ih =>
    rw [List.range_succ, List.reverse_concat, List.map_cons, List.cons_append]
    exact .put i n ih

theorem putEach_luntbl (n : Nat) : (putEach s i n).luntbl = s.luntbl := by
  induction n with
  | zero => rfl
  | succ n ih => exact ih

/-- An engine with one LUN, puts for the first `n` fragments of it, and then one for a LUN that is not there. -/
def wrapped (n : Nat) : Sce := misslogPut (putEach (after [.addlun (2 ^ 31) 9 true]) 0 n) 4 8

/-- The put for fragment 0 is written over, the one for fragment 1 is the oldest. -/
theorem misslogGet_window_wrapped :
    (misslogGet (wrapped sceCacheMissLogSize) 0).2 = some (4, 8) ∧
    ¬ (misslogGet (wrapped sceCacheMissLogSize) 0).1 = .success ∧
    misslogGet (wrapped sceCacheMissLogSize) (sceCacheMissLogSize - 1) = (.success, some (0, 1)) ∧
    misslogGet (wrapped sceCacheMissLogSize) sceCacheMissLogSize = (.error, none) := by
  have first : Logged [] (after [.addlun (2 ^ 31) 9 true]) := .other .create rfl
  have log : ∀ n, Logged ((4, 8) :: ((List.range n).reverse.map (fun f => (0, f)) ++ [])) (wrapped n) :=
    fun n => .put 4 8 (first.putEach n)
  have tables : ∀ n, (wrapped n).luntbl = (after [.addlun (2 ^ 31) 9 true]).luntbl := fun n => putEach_luntbl n
  obtain ⟨n, all⟩ : ∃ n, n = sceCacheMissLogSize := ⟨_, rfl⟩
  rw [← all]
  have newest := misslogGet_window (log n) 0
  have oldest := misslogGet_window (log n) (n - 1)
  have past := misslogGet_window (log n) n
  rw [if_pos (by simp)] at newest
  rw [if_pos (by simp [all])] at oldest
  rw [if_neg (by simp [all])] at past
  obtain ⟨e, here, gone, absent⟩ := newest
  obtain rfl := Option.some.inj here
  obtain ⟨e', second, delivered, present⟩ := oldest
  obtain rfl : e' = (0, 1) := by simpa [all] using second.symm
  have there : (misslogGet (wrapped n) (n - 1)).1 = .success := by
    rw [present, tables]
    exact ⟨by decide, _, rfl, rfl⟩
  refine ⟨gone, ?_, Prod.ext there delivered, past⟩
  rw [absent, tables]
  rintro ⟨_, l, lun, _⟩
  cases lun

end Sce

end Iostash
