import Mathlib.Data.List.Basic

/-!
# What a memory held over time

The contents of a memory change at steps of a clock, by updates that each say what they leave in which
places. What it held at each time so far is kept, and when the updates took effect.
-/

namespace Iostash.Util

structure History (κ α : Type*) where
  now : Nat
  held : Nat → κ → α
  updates : List (Nat × (κ → Option α))

namespace History

variable {κ α : Type*}

def start (contents : κ → α) : History κ α := ⟨0, fun _ => contents, []⟩

variable (h : History κ α)

/-- What the memory holds at present. -/
def contents : κ → α := h.held h.now

/-- A step that changes nothing. -/
def tick : History κ α :=
  { h with now := h.now + 1, held := fun t => if t = h.now + 1 then h.contents else h.held t }

/-- A step at which an update takes effect. -/
def update (u : κ → Option α) : History κ α :=
  { now := h.now + 1
    held := fun t => if t = h.now + 1 then fun k => (u k).getD (h.contents k) else h.held t
    updates := (h.now + 1, u) :: h.updates }

variable {h} {u : κ → Option α} {k : κ} {t : Nat}

@[simp] theorem tick_now : h.tick.now = h.now + 1 := rfl

@[simp] theorem update_now : (h.update u).now = h.now + 1 := rfl

theorem tick_held (past : t ≤ h.now) : h.tick.held t = h.held t := if_neg (by omega)

theorem update_held (past : t ≤ h.now) : (h.update u).held t = h.held t := if_neg (by omega)

@[simp] theorem tick_contents : h.tick.contents = h.contents := if_pos rfl

theorem update_contents : (h.update u).contents k = (u k).getD (h.contents k) :=
  congrFun (if_pos rfl : (h.update u).held (h.now + 1) = fun k => (u k).getD (h.contents k)) k

/-- A place an update leaves alone. -/
theorem update_contents_none (alone : u k = none) : (h.update u).contents k = h.contents k := by
  rw [update_contents, alone]
  rfl

/-! ### The last update of a place -/

/-- The contents are what the last update left. -/
structure Kept (h : History κ α) : Prop where
  past : ∀ m ∈ h.updates, m.1 ≤ h.now
  last : ∀ m ∈ h.updates, ∀ k v, m.2 k = some v → ∀ t, m.1 ≤ t → t ≤ h.now →
    (∀ m' ∈ h.updates, m.1 < m'.1 → m'.1 ≤ t → m'.2 k = none) → h.held t k = v

theorem Kept.start (contents : κ → α) : (start contents).Kept := by
  constructor
  · intro m member
    cases member
  · intro m member
    cases member

theorem Kept.tick (kept : h.Kept) : h.tick.Kept := by
  refine ⟨fun m member => Nat.le_succ_of_le (kept.past m member), ?_⟩
  intro m member k v left t after upto alone
  rcases Nat.lt_or_ge h.now t with new | old
  · obtain rfl : t = h.now + 1 := Nat.le_antisymm upto new
    have before := kept.last m member k v left h.now (kept.past m member) (Nat.le_refl _)
      fun m' member' later le => alone m' member' later (Nat.le_succ_of_le le)
    exact (congrFun tick_contents k).trans before
  · rw [tick_held old]
    exact kept.last m member k v left t after old alone

theorem Kept.update (kept : h.Kept) (u : κ → Option α) : (h.update u).Kept := by
  constructor
  · intro m member
    rcases List.mem_cons.mp member with rfl | old
    · exact Nat.le_refl _
    · exact Nat.le_succ_of_le (kept.past m old)
  · intro m member k v left t after upto alone
    rcases List.mem_cons.mp member with rfl | old
    · obtain rfl : t = h.now + 1 := Nat.le_antisymm upto after
      have new : (h.update u).contents k = (u k).getD (h.contents k) := update_contents
      rw [show u k = some v from left] at new
      exact new
    · have earlier := kept.past m old
      rcases Nat.lt_or_ge h.now t with new | past
      · obtain rfl : t = h.now + 1 := Nat.le_antisymm upto new
        -- the update of this step is a later one, and leaves the place alone
        have quiet := alone (h.now + 1, u) List.mem_cons_self (Nat.lt_succ_of_le earlier) (Nat.le_refl _)
        have before := kept.last m old k v left h.now earlier (Nat.le_refl _)
          fun m' member' later le => alone m' (List.mem_cons_of_mem _ member') later (Nat.le_succ_of_le le)
        exact (update_contents_none quiet).trans before
      · rw [update_held past]
        exact kept.last m old k v left t after past fun m' member' => alone m' (List.mem_cons_of_mem _ member')

end History

end Iostash.Util
