import Iostash.Pdm.Thread
import Mathlib.Tactic.Ring

/-!
# The throttle of the population threads

A thread populates when enough of the cache is free and enough of the requests since its last look have
missed. `calcMissrate` and `calcFreefragper` work in 32 bits; here is when they give the true rates.
-/

namespace Iostash

namespace Pdm

variable {prev now : Status} {dh dm H M : Nat}

/-- Since `prev` there were `dh` hits and `dm` misses. -/
structure Since (prev now : Status) (dh dm : Nat) : Prop where
  hits : now.nrHit = u32 (prev.nrHit + dh)
  misses : now.nrMiss = u32 (prev.nrMiss + dm)

/-- The miss rate in percent, 0 when there was nothing. -/
def rate (dh dm : Nat) : Nat := 100 * dm / (dh + dm)

theorem rate_le (dh dm : Nat) : rate dh dm ≤ 100 := by
  refine Nat.div_le_of_le_mul ?_
  rw [Nat.mul_comm]
  exact Nat.mul_le_mul_right 100 (Nat.le_add_left dm dh)

theorem rate_mono {dm' : Nat} (dh : Nat) (more : dm ≤ dm') : rate dh dm ≤ rate dh dm' := by
  unfold rate
  rcases Nat.eq_zero_or_pos dm with rfl | some
  · simp
  · rw [Nat.le_div_iff_mul_le (by omega)]
    have le : 100 * dm / (dh + dm) * (dh + dm) ≤ 100 * dm := Nat.div_mul_le_self _ _
    have top := rate_le dh dm
    unfold rate at top
    obtain ⟨k, rfl⟩ := Nat.exists_eq_add_of_le more
    calc 100 * dm / (dh + dm) * (dh + (dm + k))
        = 100 * dm / (dh + dm) * (dh + dm) + 100 * dm / (dh + dm) * k := by ring
      _ ≤ 100 * dm + 100 * k := Nat.add_le_add le (Nat.mul_le_mul_right k top)
      _ = 100 * (dm + k) := by ring

/-! ### The counts taken -/

/-- The events since the last look, as `_calc_missrate` counts them: of a counter that did not rise, all. -/
def taken (prev now : Nat) : Nat := if prev < now then now - prev else now

theorem calcMissrate_eq : calcMissrate prev now =
    u32 (taken prev.nrMiss now.nrMiss * 100) / u32 (taken prev.nrHit now.nrHit + taken prev.nrMiss now.nrMiss) := by
  obtain ⟨total, same⟩ : ∃ total, total = u32 (taken prev.nrHit now.nrHit + taken prev.nrMiss now.nrMiss) := ⟨_, rfl⟩
  show (if u32 (taken prev.nrHit now.nrHit + taken prev.nrMiss now.nrMiss) ≠ 0 then _ else 0) = _
  rw [← same]
  split
  · exact congrArg (_ / ·) same.symm
  · rename_i none
    rw [not_not.mp none, Nat.div_zero]

theorem taken_risen {n d : Nat} (some : 0 < d ∨ n = 0) (short : n + d < 2 ^ 32) : taken n (u32 (n + d)) = d := by
  rw [u32_of_lt short]
  unfold taken
  split <;> omega

theorem taken_still {n : Nat} (typed : n < 2 ^ 32) : taken n (u32 (n + 0)) = n := by
  rw [Nat.add_zero, u32_of_lt typed]
  unfold taken
  split <;> omega

theorem taken_wrapped {n d : Nat} (typed : n < 2 ^ 32) (small : d < 2 ^ 31) (wraps : 2 ^ 32 ≤ n + d) :
    taken n (u32 (n + d)) = n + d - 2 ^ 32 := by
  unfold taken u32
  split <;> omega

/-- A product that overflows gives another quotient. -/
theorem percent_iff {a t : Nat} (pos : 0 < t) (typed : t < 2 ^ 32) : u32 (a * 100) / t = 100 * a / t ↔ 100 * a < 2 ^ 32 := by
  rw [Nat.mul_comm 100 a]
  constructor
  · intro same
    by_contra wide
    have parts : a * 100 = u32 (a * 100) + 2 ^ 32 * (a * 100 / 2 ^ 32) := (Nat.mod_add_div _ _).symm
    have pos' : 1 ≤ a * 100 / 2 ^ 32 := Nat.div_pos (Nat.not_lt.mp wide) (by decide)
    have more : u32 (a * 100) + t ≤ a * 100 := by
      have := Nat.mul_le_mul_left (2 ^ 32) pos'
      omega
    have step := Nat.div_le_div_right (c := t) more
    rw [Nat.add_div_right _ pos] at step
    omega
  · intro short
    rw [u32_of_lt short]

/-! ### The miss rate -/

/-- The counters before, at most `H` and `M`, cannot mislead `_calc_missrate`: a counter that did not move is
0, one that moved did not wrap, and the misses are no more than 32 bits hold in hundredths. Fewer misses than
a 99th of the hits make 0 in any case. -/
def Told (dh dm H M : Nat) : Prop :=
  if dm = 0 then M = 0 ∨ 99 * M < dh ∧ H + dh < 2 ^ 32
  else 100 * dm < 2 ^ 32 ∧ (H = 0 ∨ 0 < dh ∧ H + dh < 2 ^ 32) ∧ (M + dm < 2 ^ 32 ∨ 99 * dm < dh)

theorem rate_eq_zero (few : 99 * dm < dh) : rate dh dm = 0 :=
  Nat.div_eq_of_lt (by omega)

theorem calcMissrate_of_taken {h m : Nat} (hits : taken prev.nrHit now.nrHit = h) (misses : taken prev.nrMiss now.nrMiss = m)
    (short : h + m < 2 ^ 32) : calcMissrate prev now = u32 (m * 100) / (h + m) := by
  rw [calcMissrate_eq, hits, misses, u32_of_lt short]

theorem calcMissrate_true (told : Told dh dm prev.nrHit prev.nrMiss) (small : dh < 2 ^ 31 ∧ dm < 2 ^ 31)
    (typed : prev.nrHit < 2 ^ 32 ∧ prev.nrMiss < 2 ^ 32) (since : Since prev now dh dm) :
    calcMissrate prev now = rate dh dm := by
  obtain ⟨hits, misses⟩ := since
  unfold Told at told
  split at told
  · rename_i none
    subst none
    have still : taken prev.nrMiss now.nrMiss = prev.nrMiss := by rw [misses, taken_still typed.2]
    have zero : rate dh 0 = 0 := by simp [rate]
    rcases told with clean | ⟨few, short⟩
    · rw [calcMissrate_eq, still, clean, zero]
      exact Nat.zero_div _
    · have risen : taken prev.nrHit now.nrHit = dh := by
        rw [hits]
        exact taken_risen (Or.inl (by omega)) short
      rw [calcMissrate_of_taken risen still (by omega), u32_of_lt (by omega), zero]
      exact Nat.div_eq_of_lt (by omega)
  · rename_i some
    obtain ⟨short, told, fits⟩ := told
    have risen : taken prev.nrHit now.nrHit = dh := by
      rw [hits]
      rcases told with zero | ⟨moved, fits⟩
      · exact taken_risen (Or.inr zero) (by omega)
      · exact taken_risen (Or.inl moved) fits
    by_cases wraps : prev.nrMiss + dm < 2 ^ 32
    · have counted : taken prev.nrMiss now.nrMiss = dm := by
        rw [misses]
        exact taken_risen (Or.inl (by omega)) wraps
      rw [calcMissrate_of_taken risen counted (by omega)]
      exact (percent_iff (by omega) (by omega)).mpr short
    · -- too few are counted, and they were too few already
      have few := fits.resolve_left wraps
      have counted : taken prev.nrMiss now.nrMiss = prev.nrMiss + dm - 2 ^ 32 := by
        rw [misses]
        exact taken_wrapped typed.2 small.2 (by omega)
      rw [calcMissrate_of_taken risen counted (by omega), u32_of_lt (by omega), rate_eq_zero few]
      exact Nat.div_eq_of_lt (by omega)

/-- For all that the counters may have been before, the rate is the true one, exactly when they cannot mislead. -/
theorem calcMissrate_true_iff (small : dh < 2 ^ 31 ∧ dm < 2 ^ 31) (typed : H < 2 ^ 32 ∧ M < 2 ^ 32) :
    (∀ prev now, prev.nrHit ≤ H → prev.nrMiss ≤ M → Since prev now dh dm → calcMissrate prev now = rate dh dm) ↔
      Told dh dm H M := by
  constructor
  · intro always
    have at' : ∀ h m, h ≤ H → m ≤ M → u32 (taken m (u32 (m + dm)) * 100) /
        u32 (taken h (u32 (h + dh)) + taken m (u32 (m + dm))) = rate dh dm := by
      intro h m hits misses
      have := always ⟨h, m, 0, 0, 0⟩ ⟨u32 (h + dh), u32 (m + dm), 0, 0, 0⟩ hits misses ⟨rfl, rfl⟩
      rwa [calcMissrate_eq] at this
    -- the hits from a counter that was 0, and from one that wraps to 0
    have fresh : taken 0 (u32 (0 + dh)) = dh := taken_risen (Or.inr rfl) (by omega)
    have wrapped : 2 ^ 32 ≤ H + dh → taken (2 ^ 32 - dh) (u32 (2 ^ 32 - dh + dh)) = 0 := by
      intro wraps
      rw [taken_wrapped (by omega) small.1 (by omega)]
      omega
    unfold Told
    split
    · rename_i none
      subst none
      have zero : rate dh 0 = 0 := by simp [rate]
      refine or_iff_not_imp_left.mpr fun some => ⟨?_, ?_⟩
      · by_contra many
        obtain ⟨m, pos, le, enough⟩ : ∃ m, 0 < m ∧ m ≤ M ∧ dh ≤ 99 * m ∧ m < 2 ^ 25 :=
          ⟨max 1 ((dh + 98) / 99), by omega, by omega, by omega, by omega⟩
        have stale := at' 0 m (Nat.zero_le H) le
        rw [fresh, taken_still (by omega), u32_of_lt (by omega), u32_of_lt (by omega), zero,
          Nat.div_eq_zero_iff] at stale
        omega
      · by_contra wraps
        have stale := at' (2 ^ 32 - dh) 1 (by omega) (by omega)
        rw [wrapped (by omega), taken_still (by omega), zero] at stale
        cases stale
    · rename_i some
      have pos : 0 < dm := Nat.pos_of_ne_zero some
      have counted : taken 0 (u32 (0 + dm)) = dm := taken_risen (Or.inr rfl) (by omega)
      have start := at' 0 0 (Nat.zero_le H) (Nat.zero_le M)
      rw [fresh, counted, u32_of_lt (n := dh + dm) (by omega), rate, percent_iff (by omega) (by omega)] at start
      have below : rate dh dm < 100 ∨ dh = 0 := by
        rcases Nat.eq_zero_or_pos dh with zero | moved
        · exact Or.inr zero
        · exact Or.inl (Nat.div_lt_of_lt_mul (by omega))
      refine ⟨start, ?_, ?_⟩
      · refine or_iff_not_imp_left.mpr fun used => ?_
        rcases Nat.eq_zero_or_pos dh with zero | moved
        · -- the hits before are counted again
          subst zero
          have stale := at' 1 0 (by omega) (Nat.zero_le M)
          rw [taken_still (by omega), counted, u32_of_lt (by omega), u32_of_lt (by omega), rate, Nat.zero_add,
            Nat.mul_div_cancel _ pos] at stale
          have less : dm * 100 / (1 + dm) < 100 := Nat.div_lt_of_lt_mul (by omega)
          omega
        · refine ⟨moved, ?_⟩
          by_contra wraps
          have stale := at' (2 ^ 32 - dh) 0 (by omega) (Nat.zero_le M)
          rw [wrapped (by omega), counted, Nat.zero_add, u32_of_lt (by omega), u32_of_lt (by omega),
            Nat.mul_div_cancel_left _ pos] at stale
          omega
      · refine or_iff_not_imp_left.mpr fun wraps => ?_
        have stale := at' 0 (2 ^ 32 - dm) (Nat.zero_le H) (by omega)
        rw [taken_wrapped (by omega) small.2 (by omega), show 2 ^ 32 - dm + dm - 2 ^ 32 = 0 by omega] at stale
        have none : rate dh dm = 0 := by
          rw [← stale]
          exact Nat.zero_div _
        have few := (Nat.div_eq_zero_iff.mp none).resolve_left (by omega)
        omega
  · intro told prev now hits misses since
    refine calcMissrate_true ?_ small ⟨by omega, by omega⟩ since
    unfold Told at told ⊢
    split at told
    · rename_i none
      rw [if_pos none]
      omega
    · rename_i some
      rw [if_neg some]
      omega

/-! ### Free fragments and the decision -/

theorem calcFreefragper_true_iff {st : Status} (some : 0 < st.nrTotfrag) (limit : st.nrTotfrag ≤ 2 ^ 28) :
    calcFreefragper st = 100 * st.nrFreefrag / st.nrTotfrag ↔ 100 * st.nrFreefrag < 2 ^ 32 := by
  unfold calcFreefragper
  rw [if_pos (Nat.pos_iff_ne_zero.mp some)]
  exact percent_iff some (by omega)

/-- Enough is free, and enough has missed since the last look. -/
def Thread.populates (t : Thread) (st : Status) : Bool :=
  decide (t.cfg.minFreefragper ≤ calcFreefragper st) && decide (t.cfg.targetMissrate ≤ calcMissrate t.curSt st)

theorem Thread.run_getStatus {t : Thread} (here : t.pc = .getStatus) (env : Env) (e : Engine) :
    t.run env e = some (e, { t with
      pc := if t.populates (sceGetStatus e.world.sce).2 then .get4pop else .skip
      curSt := (sceGetStatus e.world.sce).2 }) := by
  obtain ⟨st, same⟩ : ∃ st, st = (sceGetStatus e.world.sce).2 := ⟨_, rfl⟩
  have step : t.run env e =
      if calcFreefragper st < t.cfg.minFreefragper then some (e, { t with pc := .skip, curSt := st })
      else if calcMissrate t.curSt st < t.cfg.targetMissrate then some (e, { t with pc := .skip, curSt := st })
      else some (e, { t with pc := .get4pop, curSt := st }) := by
    unfold run
    rw [here, same]
    rfl
  rw [step, ← same, populates]
  by_cases free : calcFreefragper st < t.cfg.minFreefragper
  · simp [free, Nat.not_le.mpr free]
  · by_cases missed : calcMissrate t.curSt st < t.cfg.targetMissrate
    · simp [free, missed, Nat.not_le.mpr missed]
    · simp [free, missed, Nat.not_lt.mp free, Nat.not_lt.mp missed]

/-- The throttle computes the true rates exactly when the counters before cannot mislead it and the free
fragments are no more than 32 bits hold in hundredths. Then the miss rate is at most 100 and does not fall when
misses rise, and two threads that saw the same since their last looks decide alike. -/
theorem throttle_true_iff (small : dh < 2 ^ 31 ∧ dm < 2 ^ 31) (typed : H < 2 ^ 32 ∧ M < 2 ^ 32) :
    ((∀ prev now, prev.nrHit ≤ H → prev.nrMiss ≤ M → Since prev now dh dm →
      calcMissrate prev now = rate dh dm ∧ calcMissrate prev now ≤ 100) ↔ Told dh dm H M) ∧
    (∀ st : Status, st.nrFreefrag ≤ st.nrTotfrag → 0 < st.nrTotfrag → st.nrTotfrag ≤ 2 ^ 28 →
      (calcFreefragper st = 100 * st.nrFreefrag / st.nrTotfrag ∧ calcFreefragper st ≤ 100 ↔
        100 * st.nrFreefrag < 2 ^ 32)) ∧
    (∀ dm', dm ≤ dm' → rate dh dm ≤ rate dh dm') ∧
    (∀ (t t' : Thread) (env env' : Env) (e e' : Engine), t.pc = .getStatus → t'.pc = .getStatus → t.cfg = t'.cfg →
      e.world.sce.nrFreefrag = e'.world.sce.nrFreefrag → e.world.sce.nrFrag = e'.world.sce.nrFrag →
      t.curSt.nrHit < 2 ^ 32 ∧ t.curSt.nrMiss < 2 ^ 32 → t'.curSt.nrHit < 2 ^ 32 ∧ t'.curSt.nrMiss < 2 ^ 32 →
      Since t.curSt (sceGetStatus e.world.sce).2 dh dm → Since t'.curSt (sceGetStatus e'.world.sce).2 dh dm →
      Told dh dm t.curSt.nrHit t.curSt.nrMiss → Told dh dm t'.curSt.nrHit t'.curSt.nrMiss →
      (t.run env e).map (fun r => r.2.pc) = (t'.run env' e').map fun r => r.2.pc) := by
  refine ⟨?_, ?_, fun _ => rate_mono dh, ?_⟩
  · rw [← calcMissrate_true_iff small typed]
    constructor
    · exact fun always prev now le le' since => (always prev now le le' since).1
    · intro always prev now le le' since
      have same := always prev now le le' since
      exact ⟨same, same ▸ rate_le dh dm⟩
  · intro st within some limit
    rw [← calcFreefragper_true_iff some limit]
    refine and_iff_left_of_imp fun same => ?_
    rw [same]
    exact Nat.div_le_of_le_mul (by omega)
  · intro t t' env env' e e' here here' cfg free frags typed typed' since since' told told'
    have missed := calcMissrate_true told small typed since
    have missed' := calcMissrate_true told' small typed' since'
    have free : calcFreefragper (sceGetStatus e.world.sce).2 = calcFreefragper (sceGetStatus e'.world.sce).2 := by
      show (if e.world.sce.nrFrag ≠ 0 then u32 (e.world.sce.nrFreefrag * 100) / e.world.sce.nrFrag else 0) = _
      rw [free, frags]
      rfl
    rw [t.run_getStatus here, t'.run_getStatus here']
    simp only [Option.map_some, Thread.populates, missed, missed', free, cfg]

theorem throttle_true_risen : calcMissrate ⟨10, 7, 0, 0, 0⟩ ⟨13, 8, 0, 0, 0⟩ = 25 := by
  have told : Told 3 1 10 7 := by
    unfold Told
    decide
  have small : (3 < 2 ^ 31 ∧ 1 < 2 ^ 31) ∧ 10 < 2 ^ 32 ∧ 7 < 2 ^ 32 := by decide
  exact ((throttle_true_iff small.1 small.2).1.mpr told ⟨10, 7, 0, 0, 0⟩ ⟨13, 8, 0, 0, 0⟩ (by decide) (by decide)
    ⟨rfl, rfl⟩).1

/-- With nothing since the last look, five misses before it count as a rate of 100; a hit counter that wraps
counts too few; and a product that overflows makes 0 of a rate of 100, and of a cache that is all free. -/
theorem throttle_misled :
    (Since ⟨0, 5, 0, 0, 0⟩ ⟨0, 5, 0, 0, 0⟩ 0 0 ∧ calcMissrate ⟨0, 5, 0, 0, 0⟩ ⟨0, 5, 0, 0, 0⟩ = 100 ∧ rate 0 0 = 0) ∧
    (Since ⟨4294967295, 0, 0, 0, 0⟩ ⟨0, 1, 0, 0, 0⟩ 1 1 ∧
      calcMissrate ⟨4294967295, 0, 0, 0, 0⟩ ⟨0, 1, 0, 0, 0⟩ = 100 ∧ rate 1 1 = 50) ∧
    (Since ⟨0, 0, 0, 0, 0⟩ ⟨0, 42949673, 0, 0, 0⟩ 0 42949673 ∧
      calcMissrate ⟨0, 0, 0, 0, 0⟩ ⟨0, 42949673, 0, 0, 0⟩ = 0 ∧ rate 0 42949673 = 100) ∧
    calcFreefragper ⟨0, 0, 42949673, 42949673, 0⟩ = 0 :=
  ⟨⟨⟨rfl, rfl⟩, rfl, rfl⟩, ⟨⟨rfl, rfl⟩, rfl, rfl⟩, ⟨⟨rfl, rfl⟩, rfl, rfl⟩, rfl⟩

end Pdm

end Iostash
