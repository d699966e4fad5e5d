import Mathlib.Data.List.Basic
import Mathlib.Data.Nat.Basic

/-!
# The first greatest element of a list

A scan that keeps the best element so far finds it. `cut_iff` says when the scan of a front part, under a
weaker predicate, finds the one of the whole list.
-/

namespace Iostash.Util

variable {α : Type*} {w v : α → Nat} {p q : α → Prop} {l front back done : List α} {e m m' : α} {best : Option α}

/-- `m` is the first of the elements with `p` whose weight is greatest. -/
def Hottest (w : α → Nat) (p : α → Prop) (l : List α) (m : α) : Prop :=
  ∃ pre post, l = pre ++ m :: post ∧ p m ∧ (∀ e ∈ pre, p e → w e < w m) ∧ ∀ e ∈ post, p e → w e ≤ w m

namespace Hottest

theorem mem (h : Hottest w p l m) : m ∈ l := by
  obtain ⟨pre, post, rfl, _⟩ := h
  exact List.mem_append_right _ List.mem_cons_self

theorem holds (h : Hottest w p l m) : p m := by
  obtain ⟨_, _, _, here, _⟩ := h
  exact here

theorem le (h : Hottest w p l m) (member : e ∈ l) (here : p e) : w e ≤ w m := by
  obtain ⟨pre, post, rfl, _, before, after⟩ := h
  rcases List.mem_append.mp member with first | rest
  · exact Nat.le_of_lt (before e first here)
  · rcases List.mem_cons.mp rest with rfl | rest
    · exact le_rfl
    · exact after e rest here

theorem unique (h : Hottest w p l m) (h' : Hottest w p l m') : m = m' := by
  have same : w m = w m' := Nat.le_antisymm (h'.le h.mem h.holds) (h.le h'.mem h'.holds)
  obtain ⟨pre, post, rfl, here, before, _⟩ := h
  obtain ⟨pre', post', split, here', before', _⟩ := h'
  rcases List.append_eq_append_iff.mp split with ⟨mid, rfl, rest⟩ | ⟨mid, rfl, rest⟩
  · cases mid with
    | nil => exact (List.cons.inj rest).1
    | cons e mid =>
      -- `m` comes before `m'`
      obtain ⟨rfl, _⟩ := List.cons.inj rest
      exact absurd same (Nat.ne_of_lt (before' m (by simp) here))
  · cases mid with
    | nil => exact (List.cons.inj rest).1.symm
    | cons e mid =>
      obtain ⟨rfl, _⟩ := List.cons.inj rest
      exact absurd same.symm (Nat.ne_of_lt (before m' (by simp) here'))

theorem congr (pred : ∀ e ∈ l, p e ↔ q e) (same : ∀ e ∈ l, p e → w e = v e) (h : Hottest w p l m) : Hottest v q l m := by
  obtain ⟨pre, post, rfl, here, before, after⟩ := h
  have at_m : m ∈ pre ++ m :: post := by simp
  refine ⟨pre, post, rfl, (pred m at_m).mp here, ?_, ?_⟩
  · intro e member there
    have inside : e ∈ pre ++ m :: post := List.mem_append_left _ member
    have there := (pred e inside).mpr there
    rw [← same e inside there, ← same m at_m here]
    exact before e member there
  · intro e member there
    have inside : e ∈ pre ++ m :: post := List.mem_append_right _ (List.mem_cons_of_mem _ member)
    have there := (pred e inside).mpr there
    rw [← same e inside there, ← same m at_m here]
    exact after e member there

end Hottest

/-! ### The scan -/

/-- The scan: `best` is the best so far. -/
def pick (w : α → Nat) (p : α → Prop) [DecidablePred p] : List α → Option α → Option α
  | [], best => best
  | e :: l, best => pick w p l (if p e ∧ ∀ m ∈ best, w m < w e then some e else best)

/-- What the scan has found in `done`. -/
def Best (w : α → Nat) (p : α → Prop) (done : List α) : Option α → Prop
  | none => ∀ e ∈ done, ¬ p e
  | some m => Hottest w p done m

theorem Best.snoc [DecidablePred p] (h : Best w p done best) :
    Best w p (done ++ [e]) (if p e ∧ ∀ m ∈ best, w m < w e then some e else best) := by
  split
  · rename_i better
    obtain ⟨here, hotter⟩ := better
    refine ⟨done, [], rfl, here, ?_, by simp⟩
    intro k member there
    cases best with
    | none => exact absurd there (h k member)
    | some m => exact Nat.lt_of_le_of_lt (Hottest.le h member there) (hotter m rfl)
  · rename_i worse
    cases best with
    | none =>
      intro k member there
      rcases List.mem_append.mp member with old | new
      · exact h k old there
      · obtain rfl := List.mem_singleton.mp new
        exact worse ⟨there, by simp⟩
    | some m =>
      obtain ⟨pre, post, rfl, here, before, after⟩ := h
      refine ⟨pre, post ++ [e], by simp, here, before, ?_⟩
      intro k member there
      rcases List.mem_append.mp member with old | new
      · exact after k old there
      · obtain rfl := List.mem_singleton.mp new
        by_contra hotter
        exact worse ⟨there, fun m' is => by obtain rfl := Option.some.inj is; omega⟩

theorem Best.pick [DecidablePred p] (h : Best w p done best) : Best w p (done ++ l) (pick w p l best) := by
  induction l generalizing done best with
  | nil => simpa [Util.pick] using h
  | cons e l ih =>
    have next := ih (h.snoc (e := e))
    rwa [List.append_assoc] at next

theorem pick_best [DecidablePred p] : Best w p l (pick w p l none) := by
  have start : Best w p [] none := by simp [Best]
  exact start.pick

theorem pick_iff [DecidablePred p] : pick w p l none = some m ↔ Hottest w p l m := by
  have found : Best w p l (pick w p l none) := pick_best
  cases result : pick w p l none with
  | none =>
    rw [result] at found
    exact iff_of_false (by simp) fun h => found m h.mem h.holds
  | some m' =>
    rw [result] at found
    exact ⟨fun e => Option.some.inj e ▸ found, fun h => congrArg some (Hottest.unique found h)⟩

theorem Hottest.exists (h : ∃ e ∈ l, p e) : ∃ m, Hottest w p l m := by
  classical
  have found : Best w p l (pick w p l none) := pick_best
  cases result : pick w p l none with
  | none =>
    rw [result] at found
    obtain ⟨e, member, here⟩ := h
    exact absurd here (found e member)
  | some m =>
    rw [result] at found
    exact ⟨m, found⟩

/-! ### Scanning a front part only -/

/-- The scan of the front part finds the same as a scan of the whole for those of its elements that have
`p`, exactly when nothing behind is hotter than the front, and nothing without `p` comes out first. -/
theorem Hottest.cut_iff (weaker : ∀ e, p e → q e) :
    (∀ m, Hottest w q front m ↔ Hottest w p (front ++ back) m) ↔
      (∀ e ∈ back, p e → ∃ e' ∈ front, p e' ∧ w e ≤ w e') ∧
      ∀ pre e post, front = pre ++ e :: post → q e → ¬ p e →
        (∃ e' ∈ pre, p e' ∧ w e ≤ w e') ∨ ∃ e' ∈ post, p e' ∧ w e < w e' := by
  constructor
  · intro same
    constructor
    · intro e member here
      obtain ⟨m, top⟩ := Hottest.exists (w := w) ⟨e, List.mem_append_right front member, here⟩
      exact ⟨m, ((same m).mpr top).mem, top.holds, top.le (List.mem_append_right _ member) here⟩
    · rintro pre e post rfl hot not
      have inside : e ∈ pre ++ e :: post := by simp
      obtain ⟨m, found⟩ := Hottest.exists (w := w) ⟨e, inside, hot⟩
      have here := ((same m).mp found).holds
      have most := found.le inside hot
      rcases List.mem_append.mp found.mem with first | rest
      · exact Or.inl ⟨m, first, here, most⟩
      · rcases List.mem_cons.mp rest with rfl | rest
        · exact absurd here not
        · by_cases first : ∃ e' ∈ pre, p e' ∧ w e ≤ w e'
          · exact Or.inl first
          · -- then `m` does not come before `e`
            have later : m ∉ pre := fun early => first ⟨m, early, here, most⟩
            refine Or.inr ⟨m, rest, here, ?_⟩
            obtain ⟨pre', post', split, _, before, _⟩ := found
            rcases List.append_eq_append_iff.mp split with ⟨mid, rfl, tail⟩ | ⟨mid, rfl, tail⟩
            · cases mid with
              | nil => exact absurd ((List.cons.inj tail).1 ▸ here) not
              | cons k mid =>
                obtain ⟨rfl, _⟩ := List.cons.inj tail
                exact before e (by simp) hot
            · cases mid with
              | nil => exact absurd ((List.cons.inj tail).1 ▸ here) not
              | cons k mid =>
                obtain ⟨rfl, _⟩ := List.cons.inj tail
                exact absurd (by simp) later
  · rintro ⟨behind, stray⟩ m
    have outward : ∀ m, Hottest w q front m → Hottest w p (front ++ back) m := by
      intro m found
      have most := found
      obtain ⟨pre, post, rfl, hot, before, after⟩ := found
      have here : p m := by
        by_contra not
        rcases stray pre m post rfl hot not with ⟨e, member, there, ge⟩ | ⟨e, member, there, gt⟩
        · exact absurd (before e member (weaker e there)) (Nat.not_lt.mpr ge)
        · exact absurd (after e member (weaker e there)) (Nat.not_le.mpr gt)
      refine ⟨pre, post ++ back, by simp, here, fun e member there => before e member (weaker e there), ?_⟩
      intro e member there
      rcases List.mem_append.mp member with near | far
      · exact after e near (weaker e there)
      · obtain ⟨e', inside, there', le⟩ := behind e far there
        exact Nat.le_trans le (most.le inside (weaker e' there'))
    refine ⟨outward m, fun top => ?_⟩
    have some_hot : ∃ e ∈ front, q e := by
      rcases List.mem_append.mp top.mem with near | far
      · exact ⟨m, near, weaker m top.holds⟩
      · obtain ⟨e, inside, there, _⟩ := behind m far top.holds
        exact ⟨e, inside, weaker e there⟩
    obtain ⟨m', found⟩ := Hottest.exists (w := w) some_hot
    rwa [← top.unique (outward m' found)] at found

end Iostash.Util
