import Iostash.Util.Hottest
import Mathlib.Data.List.TakeWhile
import Iostash.Sce.Heat

/-!
# The choice of a fragment to populate

`_choose4population` looks for the hottest fragment among the newest entries of the miss log. It stops at
the first entry of a LUN that is gone, and it does not check the fragment numbers of the entries.
-/

namespace Iostash

open Util

namespace Sce

/-- The newest entries of the miss log, as many as are looked at, the newest first. -/
def window (s : Sce) : List (Nat × Nat) :=
  (List.range (min sceMissWindow s.misslogSize)).map fun k => s.logged (Recent.back sceCacheMissLogSize s.misslogHead k)

/-- The window up to the first entry of a LUN that is gone. -/
def front (s : Sce) : List (Nat × Nat) := s.window.takeWhile fun e => lunIsvalididx s e.1

/-- The rest of the window. -/
def behind (s : Sce) : List (Nat × Nat) := s.window.dropWhile fun e => lunIsvalididx s e.1

/-- The miss count of a fragment inside its LUN, as its descriptor has it. -/
def warmth (s : Sce) (e : Nat × Nat) : Nat := (s.entry e.1 e.2).elim 0 fun w => (fragdescData w).toNat

/-- An entry that a population can be started for. -/
def Candidate (s : Sce) (e : Nat × Nat) : Prop :=
  ∃ l, s.luntbl e.1 = some l ∧ l.waiting4deletion = false ∧ e.2 < l.nrFrag ∧ isMapped (l.fragmap e.2) = false ∧
    0 < s.warmth e

/-- `_choose4population` succeeds if there is a candidate, and then returns the hottest one, the newest of them. -/
def ChoosesHottest (s : Sce) (past : Nat → Nat → Word) : Prop :=
  ((choose4population s past).isSome ↔ ∃ e ∈ s.window, s.Candidate e) ∧
  ∀ e, choose4population s past = some e → Hottest s.warmth s.Candidate s.window e

/-- What is read for an entry that does not name a fragment of the map of its LUN looks like a missed one. -/
def Stray (s : Sce) (past : Nat → Nat → Word) (e : Nat × Nat) : Prop :=
  (∃ l, s.luntbl e.1 = some l ∧ l.nrFrag ≤ e.2) ∧ isMapped (past e.1 e.2) = false ∧
    0 < (fragdescData (past e.1 e.2)).toNat

variable {s s' : Sce} {past : Nat → Nat → Word} {e : Nat × Nat} {k : Nat}

/-! ### The window -/

theorem Logged.window {hist : List (Nat × Nat)} (h : Logged hist s) : s.window = hist.take sceMissWindow := by
  obtain ⟨holds, size⟩ := h.holds
  have small : sceMissWindow ≤ sceCacheMissLogSize := by decide
  refine List.ext_getElem? fun k => ?_
  unfold Sce.window
  rw [List.getElem?_map, List.getElem?_take, size]
  by_cases near : k < min sceMissWindow (min hist.length sceCacheMissLogSize)
  · have inside : k < hist.length := by omega
    have here : hist[k]? = some hist[k] := List.getElem?_eq_getElem inside
    rw [List.getElem?_range near, if_pos (by omega), here, Option.map_some]
    exact congrArg some (holds.recent k _ (by omega) here)
  · rw [List.getElem?_eq_none (by simpa using Nat.not_lt.mp near)]
    split
    · rw [List.getElem?_eq_none (by omega)]
      rfl
    · rfl

theorem Reached.logged (h : s.Reached) : ∃ hist, Logged hist s := by
  have both := Reachable.invariant (I := fun s => Inv nowhere s ∧ ∃ hist, Logged hist s) h
    ⟨Inv.create, [], .create⟩ ?_
  · exact both.2
  · rintro s op s' ⟨here, hist, log⟩ typed moves
    obtain ⟨reply, run⟩ := exec_eq_some.mp moves
    refine ⟨(call_inv here typed run).1, ?_⟩
    cases call_tells here typed run with
    | @missed i f _ _ misses => exact ⟨_, .other (.put i f log) misses.misslog⟩
    | added _ _ spares => exact ⟨hist, .other log spares.misslog⟩
    | mapped _ _ spares => exact ⟨hist, .other log spares.misslog⟩
    | spared _ _ spares => exact ⟨hist, .other log spares.misslog⟩

theorem misslogGet_eq : misslogGet s k = if k < s.misslogSize then
    (if lunIsvalididx s (s.logged (Recent.back sceCacheMissLogSize s.misslogHead k)).1 then .success else .error,
      some (s.logged (Recent.back sceCacheMissLogSize s.misslogHead k))) else (.error, none) := rfl

theorem window_step {n : Nat} (le : n + 1 ≤ sceMissWindow) :
    (∃ e, misslogGet s (sceMissWindow - (n + 1)) = (if lunIsvalididx s e.1 then .success else .error, some e) ∧
      s.window.drop (sceMissWindow - (n + 1)) = e :: s.window.drop (sceMissWindow - n)) ∨
    (misslogGet s (sceMissWindow - (n + 1)) = (.error, none) ∧ s.window.drop (sceMissWindow - (n + 1)) = []) := by
  have length : s.window.length = min sceMissWindow s.misslogSize := by simp [window]
  rw [misslogGet_eq]
  by_cases near : sceMissWindow - (n + 1) < s.misslogSize
  · have inside : sceMissWindow - (n + 1) < s.window.length := by omega
    have next : sceMissWindow - (n + 1) + 1 = sceMissWindow - n := by omega
    have head : s.window[sceMissWindow - (n + 1)] =
        s.logged (Recent.back sceCacheMissLogSize s.misslogHead (sceMissWindow - (n + 1))) := by simp [window]
    refine Or.inl ⟨_, by rw [if_pos near], ?_⟩
    rw [List.drop_eq_getElem_cons inside, head, next]
  · refine Or.inr ⟨by rw [if_neg near], List.drop_eq_nil_of_le ?_⟩
    omega

theorem window_done : s.window.drop (sceMissWindow - 0) = [] := by
  apply List.drop_eq_nil_of_le
  simp [window]

/-! ### The scan of the front -/

/-- The descriptor `_choose4population` reads for an entry. -/
def seen (s : Sce) (past : Nat → Nat → Word) (e : Nat × Nat) : Word :=
  (s.luntbl e.1).elim 0#32 fun l => readFragmap past e.1 l e.2

def seenWarmth (s : Sce) (past : Nat → Nat → Word) (e : Nat × Nat) : Nat := (fragdescData (s.seen past e)).toNat

/-- An entry that can become the choice. -/
def Hot (s : Sce) (past : Nat → Nat → Word) (e : Nat × Nat) : Prop :=
  isMapped (s.seen past e) = false ∧ 0 < s.seenWarmth past e

instance : DecidablePred (s.Hot past) := fun e =>
  inferInstanceAs (Decidable (isMapped (s.seen past e) = false ∧ 0 < s.seenWarmth past e))

/-- The loop scans the window up to the first entry of a LUN that is gone. -/
theorem choose4populationLoop_eq {n : Nat} (le : n ≤ sceMissWindow) : ∀ {maxmiss : Nat} {best : Option (Nat × Nat)},
    maxmiss = best.elim 0 (s.seenWarmth past) → choose4populationLoop s past n maxmiss best =
      pick (s.seenWarmth past) (s.Hot past)
        ((s.window.drop (sceMissWindow - n)).takeWhile fun e => lunIsvalididx s e.1) best := by
  induction n with
  | zero =>
    intro maxmiss best _
    rw [window_done]
    rfl
  | succ n ih =>
    intro maxmiss best same
    unfold choose4populationLoop
    rcases window_step (s := s) le with ⟨⟨i, f⟩, get, split⟩ | ⟨get, none⟩
    · rw [get, split]
      cases valid : lunIsvalididx s i with
      | false =>
        rw [List.takeWhile_cons_of_neg (by simp [valid])]
        rfl
      | true =>
        obtain ⟨_, l, lun, _⟩ := lunIsvalididx_iff.mp valid
        have seen : s.seen past (i, f) = readFragmap past i l f := by simp [Sce.seen, lun]
        have weight : s.seenWarmth past (i, f) = (fragdescData (readFragmap past i l f)).toNat := by
          rw [seenWarmth, seen]
        rw [List.takeWhile_cons_of_pos (by simp [valid])]
        simp only [if_pos, valid, lun, reduceCtorEq, if_false, pick]
        have hotter : (∀ m ∈ best, s.seenWarmth past m < s.seenWarmth past (i, f)) ∧ s.Hot past (i, f) ↔
            isMapped (readFragmap past i l f) = false ∧ maxmiss < s.seenWarmth past (i, f) := by
          unfold Hot
          rw [seen, same]
          cases best with
          | none => simp
          | some m =>
            simp only [Option.mem_def, Option.some.injEq, forall_eq', Option.elim_some]
            constructor
            · rintro ⟨hot, clear, _⟩
              exact ⟨clear, hot⟩
            · rintro ⟨clear, hot⟩
              exact ⟨hot, clear, Nat.zero_lt_of_lt hot⟩
        rw [and_comm] at hotter
        by_cases better : isMapped (readFragmap past i l f) = false ∧ maxmiss < s.seenWarmth past (i, f)
        · rw [if_pos (hotter.mpr better)]
          have tail := @ih (Nat.le_of_succ_le le) (s.seenWarmth past (i, f)) (some (i, f)) rfl
          rw [← tail, ← weight]
          simp [better.1, better.2]
        · rw [if_neg fun both => better (hotter.mp both), ← ih (Nat.le_of_succ_le le) same, ← weight]
          by_cases mapped : isMapped (readFragmap past i l f) = true
          · simp [mapped]
          · have cold : ¬ maxmiss < s.seenWarmth past (i, f) := fun hot => better ⟨by simpa using mapped, hot⟩
            simp [mapped, cold]
    · rw [get, none]
      rfl

theorem choose4population_eq : choose4population s past = pick (s.seenWarmth past) (s.Hot past) s.front none := by
  have scan : choose4populationLoop s past sceMissWindow 0 none = _ := choose4populationLoop_eq le_rfl rfl
  rwa [Nat.sub_self, List.drop_zero] at scan

/-! ### When it finds the hottest -/

theorem Candidate.seen (h : s.Candidate e) : s.seenWarmth past e = s.warmth e := by
  obtain ⟨l, lun, _, inside, _⟩ := h
  simp [seenWarmth, Sce.seen, warmth, entry, lun, readFragmap, inside]

theorem Candidate.hot (h : s.Candidate e) : s.Hot past e := by
  have weight : s.seenWarmth past e = s.warmth e := h.seen
  obtain ⟨l, lun, _, inside, clear, hot⟩ := h
  refine ⟨?_, by rw [weight]; exact hot⟩
  simpa [Sce.seen, lun, readFragmap, inside] using clear

theorem hot_stray (member : e ∈ s.front) (not : ¬ s.Candidate e) : s.Hot past e ↔ s.Stray past e := by
  unfold front at member
  have valid := List.mem_takeWhile_imp member
  obtain ⟨_, l, lun, active⟩ := lunIsvalididx_iff.mp valid
  by_cases inside : e.2 < l.nrFrag
  · refine iff_of_false ?_ ?_
    · rintro ⟨clear, hot⟩
      have weight : s.warmth e = s.seenWarmth past e := by
        simp [seenWarmth, Sce.seen, warmth, entry, lun, readFragmap, inside]
      simp only [Sce.seen, lun, Option.elim_some, readFragmap, inside, if_pos] at clear
      exact not ⟨l, lun, active, inside, clear, by rw [weight]; exact hot⟩
    · rintro ⟨⟨l', lun', outside⟩, _⟩
      obtain rfl := Option.some.inj (lun.symm.trans lun')
      omega
  · have seen : s.seen past e = past e.1 e.2 := by simp [Sce.seen, lun, readFragmap, inside]
    unfold Hot Stray seenWarmth
    rw [seen]
    exact ⟨fun hot => ⟨⟨l, lun, Nat.not_lt.mp inside⟩, hot⟩, fun stray => stray.2⟩

theorem Stray.seen (h : s.Stray past e) : s.seenWarmth past e = (fragdescData (past e.1 e.2)).toNat := by
  obtain ⟨⟨l, lun, outside⟩, _⟩ := h
  simp [seenWarmth, Sce.seen, lun, readFragmap, Nat.not_lt.mpr outside]

theorem Stray.not_candidate (h : s.Stray past e) : ¬ s.Candidate e := by
  rintro ⟨l, lun, _, inside, _⟩
  obtain ⟨⟨l', lun', outside⟩, _⟩ := h
  obtain rfl := Option.some.inj (lun.symm.trans lun')
  omega

/-- `_choose4population` chooses the hottest candidate of the window exactly when none behind the first
entry of a LUN that is gone is hotter than those in front, and no stray entry comes out first. -/
theorem choose4population_hottest_iff (reached : s.Reached) (past : Nat → Nat → Word) :
    (∃ hist, Logged hist s ∧ s.window = hist.take sceMissWindow) ∧
    (s.ChoosesHottest past ↔
      (∀ e ∈ s.behind, s.Candidate e → ∃ e' ∈ s.front, s.Candidate e' ∧ s.warmth e ≤ s.warmth e') ∧
      ∀ pre e post, s.front = pre ++ e :: post → s.Stray past e →
        (∃ e' ∈ pre, s.Candidate e' ∧ (fragdescData (past e.1 e.2)).toNat ≤ s.warmth e') ∨
        ∃ e' ∈ post, s.Candidate e' ∧ (fragdescData (past e.1 e.2)).toNat < s.warmth e') := by
  obtain ⟨hist, log⟩ := reached.logged
  refine ⟨⟨hist, log, log.window⟩, ?_⟩
  have whole : s.window = s.front ++ s.behind := List.takeWhile_append_dropWhile.symm
  have chooses : s.ChoosesHottest past ↔ ∀ m, Hottest (s.seenWarmth past) (s.Hot past) s.front m ↔
      Hottest (s.seenWarmth past) s.Candidate (s.front ++ s.behind) m := by
    have same : ∀ {m}, Hottest (s.seenWarmth past) s.Candidate s.window m ↔ Hottest s.warmth s.Candidate s.window m :=
      ⟨.congr (fun _ _ => Iff.rfl) fun _ _ => Candidate.seen, .congr (fun _ _ => Iff.rfl) fun _ _ here => here.seen.symm⟩
    rw [← whole]
    simp only [same, ← pick_iff, ← choose4population_eq]
    constructor
    · rintro ⟨succeeds, hottest⟩ m
      refine ⟨hottest m, fun top => ?_⟩
      obtain ⟨m', chosen⟩ := Option.isSome_iff_exists.mp (succeeds.mpr ⟨m, top.mem, top.holds⟩)
      rw [chosen, (hottest m' chosen).unique top]
    · intro exactly
      refine ⟨⟨fun succeeds => ?_, fun candidate => ?_⟩, fun m => (exactly m).mp⟩
      · obtain ⟨m, chosen⟩ := Option.isSome_iff_exists.mp succeeds
        exact ⟨m, ((exactly m).mp chosen).mem, ((exactly m).mp chosen).holds⟩
      · obtain ⟨m, top⟩ := Hottest.exists (w := s.warmth) candidate
        rw [(exactly m).mpr top]
        rfl
  rw [chooses, Hottest.cut_iff fun e => Candidate.hot]
  refine and_congr ?_ ?_
  · refine forall_congr' fun e => imp_congr_right fun _ => imp_congr_right fun here => ?_
    refine exists_congr fun e' => and_congr_right fun _ => and_congr_right fun there => ?_
    rw [here.seen, there.seen]
  · refine forall_congr' fun pre => forall_congr' fun e => forall_congr' fun post => imp_congr_right fun split => ?_
    have member : e ∈ s.front := by simp [split]
    constructor
    · intro beaten stray
      have not := stray.not_candidate
      rcases beaten ((hot_stray member not).mpr stray) not with ⟨e', inside, here, le⟩ | ⟨e', inside, here, lt⟩
      · exact Or.inl ⟨e', inside, here, by rwa [stray.seen, here.seen] at le⟩
      · exact Or.inr ⟨e', inside, here, by rwa [stray.seen, here.seen] at lt⟩
    · intro beaten hot not
      have stray := (hot_stray member not).mp hot
      rcases beaten stray with ⟨e', inside, here, le⟩ | ⟨e', inside, here, lt⟩
      · exact Or.inl ⟨e', inside, here, by rwa [stray.seen, here.seen]⟩
      · exact Or.inr ⟨e', inside, here, by rwa [stray.seen, here.seen]⟩

/-- Two misses on a LUN. -/
def twoMisses : Sce := after [.addlun 4096 9 true, .get4read 0 0 8, .get4read 0 2048 8]

theorem choose4population_hottest_twoMisses : twoMisses.ChoosesHottest fun _ _ => 0#32 := by
  have reached : twoMisses.Reached := after_reached (by decide +kernel)
  refine (choose4population_hottest_iff reached fun _ _ => 0#32).2.mpr ⟨?_, ?_⟩
  · intro e member
    rw [show twoMisses.behind = [] by decide +kernel] at member
    cases member
  · rintro pre e post _ ⟨_, _, hot⟩
    exact absurd (show 0 < (fragdescData 0#32).toNat from hot) (by decide)

/-- A miss on a LUN, a later one on another, and the other is removed. -/
def goneFirst : Sce := after [.addlun 4096 9 true, .addlun 4096 10 true, .get4read 0 0 8, .get4read 1 0 8, .rmlun 1]

/-- The entry of the removed LUN hides the candidate behind it. -/
theorem choose4population_blind : goneFirst.Reached ∧ (0, 0) ∈ goneFirst.window ∧ goneFirst.Candidate (0, 0) ∧
    choose4population goneFirst (fun _ _ => 0#32) = none ∧ ¬ goneFirst.ChoosesHottest fun _ _ => 0#32 := by
  have reached : goneFirst.Reached := after_reached (by decide +kernel)
  have member : (0, 0) ∈ goneFirst.window := by decide +kernel
  have candidate : goneFirst.Candidate (0, 0) := by
    have there : (goneFirst.luntbl 0).map (fun l => (l.waiting4deletion, l.nrFrag, isMapped (l.fragmap 0))) =
        some (false, 2, false) := by decide +kernel
    obtain ⟨l, lun, facts⟩ := Option.map_eq_some_iff.mp there
    obtain ⟨active, size, clear⟩ := Prod.mk.inj facts |>.imp_right Prod.mk.inj
    exact ⟨l, lun, active, by rw [size]; decide, clear, by decide +kernel⟩
  have nothing : choose4population goneFirst (fun _ _ => 0#32) = none := by decide +kernel
  refine ⟨reached, member, candidate, nothing, ?_⟩
  rintro ⟨succeeds, _⟩
  rw [nothing] at succeeds
  exact Bool.false_ne_true (succeeds.mpr ⟨_, member, candidate⟩)

end Sce

end Iostash
