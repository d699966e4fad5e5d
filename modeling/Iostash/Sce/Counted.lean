import Iostash.Sce.Reuse

/-!
# What the miss counts count

The calls of a run are counted beside the engine, and compared with the data bits of the descriptors.
-/

namespace Iostash

open Util

/-- An engine, and for each fragment of a LUN the misses since a population mapped it last, or since the
LUN was added when none has. -/
structure Counted where
  sce : Sce
  misses : Nat → Nat → Nat
  populated : Nat → Nat → Bool

namespace Counted

def init : Counted := ⟨sceCreate, fun _ _ => 0, fun _ _ => false⟩

/-- A population maps the fragment. -/
def maps (c : Counted) (s' : Sce) (i f : Nat) : Bool := (c.sce.place i f).isNone && (s'.place i f).isSome

def next (c : Counted) (op : Op) (reply : Reply) (s' : Sce) : Counted where
  sce := s'
  misses i f :=
    if op.added reply = some i ∨ c.maps s' i f = true then 0
    else if op.missed c.sce reply = some (i, f) then c.misses i f + 1 else c.misses i f
  populated i f := if op.added reply = some i then false else c.populated i f || c.maps s' i f

def observer : Observer Counted := ⟨Counted.sce, init, next, rfl, fun _ _ _ _ => rfl⟩

abbrev Reached (c : Counted) : Prop := observer.Reached c

/-- What the data bits start from. -/
def start (c : Counted) (i f : Nat) : Nat := if c.populated i f then 0 else 0x5555555

/-- The counts of the engine are the misses, from where they start, in 28 bits. -/
def Agrees (c : Counted) : Prop := ∀ i f n, c.sce.heat i f = some n → n = (c.start i f + c.misses i f) % 2 ^ 28

variable {c : Counted} {op : Op} {reply : Reply} {s' : Sce} {i f : Nat}

/-- A fragment that a call neither maps nor is a miss on keeps its counts. -/
theorem next_same (add : op.added reply ≠ some i) (map : c.maps s' i f = false)
    (miss : op.missed c.sce reply ≠ some (i, f)) :
    (c.next op reply s').start i f = c.start i f ∧ (c.next op reply s').misses i f = c.misses i f := by
  simp [next, start, add, map, miss]

theorem maps_eq_false (keeps : ∀ a, s'.place i f = some a → c.sce.place i f = some a) : c.maps s' i f = false := by
  unfold maps
  cases there : s'.place i f with
  | none => simp
  | some a => simp [keeps a there]

theorem Agrees.next (h : c.Agrees) (tells : c.sce.Tells op reply s') : (c.next op reply s').Agrees := by
  intro i f n here
  have here : s'.heat i f = some n := here
  cases tells with
  | @missed j k miss add misses =>
    have map : c.maps s' i f = false := maps_eq_false fun a there => (misses.place i f) ▸ there
    by_cases e : j = i ∧ k = f
    · obtain ⟨rfl, rfl⟩ := e
      rw [misses.here] at here
      obtain ⟨n₀, before, rfl⟩ := Option.map_eq_some_iff.mp here
      have old := h _ _ _ before
      have count : (c.next op reply s').start j k = c.start j k ∧
          (c.next op reply s').misses j k = c.misses j k + 1 := by
        simp [Counted.next, start, add, map, miss]
      rw [count.1, count.2, old]
      omega
    · have other : ¬ (i = j ∧ f = k) := fun both => e ⟨both.1.symm, both.2.symm⟩
      have new : op.added reply ≠ some i := by simp [add]
      have off : op.missed c.sce reply ≠ some (i, f) := by simpa [miss] using e
      obtain ⟨start, count⟩ := next_same new map off
      rw [start, count]
      exact h i f n (misses.others i f other ▸ here)
  | @added j miss add spares clear fresh =>
    by_cases e : i = j
    · subst e
      have count : (c.next op reply s').start i f = 0x5555555 ∧ (c.next op reply s').misses i f = 0 := by
        simp [Counted.next, start, add]
      rw [count.1, count.2, fresh f n here]
      rfl
    · have map : c.maps s' i f = false := maps_eq_false fun a there => spares.place i f a e there
      have new : op.added reply ≠ some i := by simp [add, Ne.symm e]
      have off : op.missed c.sce reply ≠ some (i, f) := by simp [miss]
      obtain ⟨start, count⟩ := next_same new map off
      rw [start, count]
      exact h i f n (spares.heat i f n e here)
  | @mapped j k a miss add spares clear there cold =>
    by_cases e : i = j ∧ f = k
    · obtain ⟨rfl, rfl⟩ := e
      have map : c.maps s' i f = true := by simp [maps, clear, there]
      have count : (c.next op reply s').start i f = 0 ∧ (c.next op reply s').misses i f = 0 := by
        simp [Counted.next, start, add, map]
      obtain rfl := Option.some.inj (cold.symm.trans here)
      rw [count.1, count.2]
      rfl
    · have map : c.maps s' i f = false := maps_eq_false fun a there => spares.place i f a e there
      have new : op.added reply ≠ some i := by simp [add]
      have off : op.missed c.sce reply ≠ some (i, f) := by simp [miss]
      obtain ⟨start, count⟩ := next_same new map off
      rw [start, count]
      exact h i f n (spares.heat i f n e here)
  | spared miss add spares =>
    have map : c.maps s' i f = false := maps_eq_false fun a there => spares.place i f a id there
    have new : op.added reply ≠ some i := by simp [add]
    have off : op.missed c.sce reply ≠ some (i, f) := by simp [miss]
    obtain ⟨start, count⟩ := next_same new map off
    rw [start, count]
    exact h i f n (spares.heat i f n id here)

theorem Reached.agrees (h : c.Reached) : c.Agrees := by
  refine (h.invariant ?_ fun c op reply s' here typed run old => old.next (Sce.call_tells here.inv typed run)).2
  intro i f n here
  cases here

theorem Agrees.data (h : c.Agrees) {l : Lun} (lun : c.sce.luntbl i = some l) (inside : f < l.nrFrag)
    (clear : isMapped (l.fragmap f) = false) :
    (fragdescData (l.fragmap f)).toNat = (c.start i f + c.misses i f) % 2 ^ 28 := by
  apply h i f _
  simp [Sce.heat, Sce.place, Sce.entry, lun, inside, clear]

/-- The data bits of an unmapped fragment are its misses since a population mapped it last; if none has, they
start from what `_lun_init` wrote. Of two that start alike `_choose4population` does not prefer the one with
fewer misses. -/
theorem data_misses (reached : c.Reached) :
    (∀ i l f, c.sce.luntbl i = some l → f < l.nrFrag → isMapped (l.fragmap f) = false →
      (fragdescData (l.fragmap f)).toNat = (c.start i f + c.misses i f) % 2 ^ 28) ∧
    ∀ past e e', choose4population c.sce past = some e → c.sce.Fits e → e' ∈ choose4populationReads c.sce sceMissWindow →
      c.sce.Fits e' → c.sce.place e'.1 e'.2 = none → c.start e'.1 e'.2 = c.start e.1 e.2 →
      c.start e'.1 e'.2 + c.misses e'.1 e'.2 < 2 ^ 28 → c.misses e'.1 e'.2 ≤ c.misses e.1 e.2 := by
  have agrees := reached.agrees
  refine ⟨fun i l f => agrees.data, ?_⟩
  intro past e e' chosen fits read fits' clear same small
  -- what the scan reads for an unmapped fragment of a map
  have weight : ∀ e, c.sce.Fits e → isMapped (c.sce.seen past e) = false →
      c.sce.seenWarmth past e = (c.start e.1 e.2 + c.misses e.1 e.2) % 2 ^ 28 := by
    rintro e ⟨l, lun, inside⟩ clear
    have seen : c.sce.seen past e = l.fragmap e.2 := by simp [Sce.seen, lun, readFragmap, inside]
    rw [seen] at clear
    rw [Sce.seenWarmth, seen]
    exact agrees.data lun inside clear
  rw [Sce.choose4population_eq, pick_iff] at chosen
  rw [Sce.reads_front] at read
  have clear' : isMapped (c.sce.seen past e') = false := by
    obtain ⟨l, lun, inside⟩ := fits'
    simpa [Sce.seen, Sce.place, lun, readFragmap, inside] using clear
  have heat := weight e fits chosen.holds.1
  have heat' := weight e' fits' clear'
  rcases Nat.eq_zero_or_pos (c.sce.seenWarmth past e') with cold | hot
  · omega
  · have most := chosen.le read ⟨clear', hot⟩
    omega

/-- A fragment that was populated once is missed twice, one that never was is missed once. -/
def rankings : Counted := observer.after [.addcdev 2048 7 true, .addlun 4096 9 true, .get4read 0 0 8, .get4pop fun _ _ => 0#32,
  .put4pop ⟨9, 7, 0, 0⟩ false, .rmcdev 0, .get4read 0 0 8, .get4read 0 0 8, .get4read 0 2048 8]

theorem rankings_reached : rankings.Reached := Observer.after_reached (by decide +kernel)

theorem data_misses_rankings : ∃ l, rankings.sce.luntbl 0 = some l ∧ (fragdescData (l.fragmap 0)).toNat = 2 := by
  have there : (rankings.sce.luntbl 0).map (fun l => (l.nrFrag, isMapped (l.fragmap 0))) = some (2, false) := by
    decide +kernel
  obtain ⟨l, lun, facts⟩ := Option.map_eq_some_iff.mp there
  obtain ⟨size, clear⟩ := Prod.mk.inj facts
  refine ⟨l, lun, ?_⟩
  rw [(data_misses rankings_reached).1 0 l 0 lun (by rw [size]; decide) clear]
  decide +kernel

/-- The data bits of a fragment that was never populated are not its misses, and it is preferred to one with more. -/
theorem unpopulated_first : rankings.Reached ∧
    (∃ l, rankings.sce.luntbl 0 = some l ∧ 1 < l.nrFrag ∧ isMapped (l.fragmap 1) = false ∧ rankings.misses 0 1 = 1 ∧
      (fragdescData (l.fragmap 1)).toNat = 0x5555556) ∧
    rankings.sce.place 0 0 = none ∧ rankings.misses 0 0 = 2 ∧ (0, 0) ∈ choose4populationReads rankings.sce sceMissWindow ∧
    choose4population rankings.sce (fun _ _ => 0#32) = some (0, 1) := by
  refine ⟨rankings_reached, ?_, by decide +kernel, by decide +kernel, by decide +kernel, by decide +kernel⟩
  have there : (rankings.sce.luntbl 0).map (fun l => (l.nrFrag, isMapped (l.fragmap 1),
      (fragdescData (l.fragmap 1)).toNat)) =
      some (2, false, 0x5555556) := by decide +kernel
  obtain ⟨l, lun, facts⟩ := Option.map_eq_some_iff.mp there
  obtain ⟨size, clear, data⟩ := Prod.mk.inj facts |>.imp_right Prod.mk.inj
  exact ⟨l, lun, by rw [size]; decide, clear, by decide +kernel, data⟩

end Counted

end Iostash
