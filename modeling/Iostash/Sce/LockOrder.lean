import Iostash.Sce.Locking
import Iostash.Sce.Occupancy
import Iostash.Util.Locks

/-!
# The order of the locks

Any number of threads call the engine. `sce->lock` is taken before the lock of a LUN, and no second lock of a LUN
is taken under the first.
-/

namespace Iostash

open Util Util.Locks

def Lock.rank : Lock → Nat
  | .sce => 0
  | .lun _ => 1

/-- What a call does to the locks. Each call may return before it takes one. `sce_get_status` does what `sce_addcdev`
does. -/
inductive Op.Path : Op → List (Step Lock) → Prop
  | refused {op : Op} : Path op []
  | addcdev {m ctx : Nat} {vmalloc : Bool} : Path (.addcdev m ctx vmalloc) (taken .sce [])
  | rmcdev {d : Nat} : Path (.rmcdev d) (taken .sce ((List.range sceMaxLun).flatMap fun i => taken (.lun i) []))
  | addlunFail {m ctx : Nat} {vmalloc : Bool} : Path (.addlun m ctx vmalloc) (taken .sce [])
  -- `_lun_init` makes the lock of the LUN anew
  | addlun {m ctx : Nat} {vmalloc : Bool} (i : Nat) : Path (.addlun m ctx vmalloc) (taken .sce [.init (.lun i)])
  | rmlun {i : Nat} : Path (.rmlun i) (taken .sce (taken (.lun i) []))
  | get4read {i x n : Nat} : Path (.get4read i x n) (taken (.lun i) [])
  | put4read {i x n : Nat} : Path (.put4read i x n) (taken (.lun i) [])
  | invalidate {i x n : Nat} : Path (.invalidate i x n) (taken (.lun i) [])
  | get4popNone {past : Nat → Nat → Word} : Path (.get4pop past) (taken .sce [])
  | get4pop {past : Nat → Nat → Word} (i : Nat) : Path (.get4pop past) (taken .sce (taken (.lun i) []))
  | put4pop {poptask : Poptask} {failed : Bool} (i : Nat) : Path (.put4pop poptask failed) (taken (.lun i) [])

variable {op : Op} {path steps : List (Step Lock)} {s : Sce} {reply : Reply} {i devnum : Nat} {k : Lock}

/-- The lock of a LUN, with or without `sce->lock`. -/
theorem Lock.keeps_lun {held : List Lock} (outer : ∀ h ∈ held, h = .sce) : Keeps rank held (taken (.lun i) []) := by
  refine .taken ?_ .nil
  intro h member
  rw [outer h member]
  exact Nat.zero_lt_one

theorem Lock.keeps_sce {inner : List (Step Lock)} (inside : Keeps rank [.sce] inner) :
    Keeps rank [] (taken .sce inner) := by
  refine .taken ?_ inside
  rintro h member
  cases member

theorem Op.Path.ordered (h : op.Path path) : Ordered Lock.rank [] path := by
  have alone : ∀ i, Keeps Lock.rank [] (taken (.lun i) []) := fun i => Lock.keeps_lun fun _ member => absurd member List.not_mem_nil
  have under : ∀ i, Keeps Lock.rank [.sce] (taken (.lun i) []) := fun i => Lock.keeps_lun fun _ => List.mem_singleton.mp
  cases h with
  | refused => rfl
  | addcdev => exact (Lock.keeps_sce .nil).ordered
  | rmcdev => exact (Lock.keeps_sce (.flatMap under _)).ordered
  | addlunFail => exact (Lock.keeps_sce .nil).ordered
  | addlun i =>
    refine (Lock.keeps_sce (.init ?_)).ordered
    intro h member
    rw [List.mem_singleton.mp member]
    exact Nat.zero_lt_one
  | rmlun => exact (Lock.keeps_sce (under _)).ordered
  | get4read => exact (alone _).ordered
  | put4read => exact (alone _).ordered
  | invalidate => exact (alone _).ordered
  | get4popNone => exact (Lock.keeps_sce .nil).ordered
  | get4pop i => exact (Lock.keeps_sce (under i)).ordered
  | put4pop i => exact (alone i).ordered

/-! ### The calls of the model keep to their paths -/

namespace Guarded

variable {α : Type} {g g' : Guarded} {r : α} {step : Sce → Except Fault (α × Sce)}

/-- The locks held over the pieces so far, the oldest first. -/
def helds (g : Guarded) : List (List Lock) := (g.past.map Stretch.held).reverse

theorem write_held {φ : Sce → Sce} : (g.write φ).held = g.held := rfl

@[simp] theorem helds_unlock : (g.unlock k).helds = g.helds := rfl

@[simp] theorem helds_write {φ : Sce → Sce} : (g.write φ).helds = g.helds ++ [g.held] := by
  simp [helds]

theorem helds_under (run : g.under k (fun g => g.run step) = .ok (r, g')) :
    g'.held = g.held ∧ g'.helds = g.helds ++ [k :: g.held] := by
  obtain ⟨g₁, body, rfl⟩ := under_eq_ok.mp run
  obtain ⟨s', _, rfl⟩ := run_eq_ok.mp body
  exact ⟨List.erase_cons_head _ _, by rw [helds_unlock, helds_write]; rfl⟩

theorem helds_rmcdevLuns (is : List Nat) : ∀ g : Guarded, (rmcdevLuns devnum is g).held = g.held ∧
    (rmcdevLuns devnum is g).helds = g.helds ++ is.map fun i => .lun i :: g.held := by
  induction is with
  | nil => exact fun g => ⟨rfl, by simp [rmcdevLuns]⟩
  | cons i is ih =>
    intro g
    unfold rmcdevLuns
    rw [unlock_lock]
    obtain ⟨held, helds⟩ := ih { g with
      sce := lunRmcdev g.sce i devnum, past := ⟨.lun i :: g.held, g.sce, lunRmcdev g.sce i devnum⟩ :: g.past }
    exact ⟨held, helds.trans (by simp [Guarded.helds])⟩

/-- The pieces of `sce_rmcdev`, which takes the lock of each LUN in turn. -/
theorem sublist_luns (is : List Nat) (rest : List (Step Lock)) :
    ((is.map fun i => [Lock.lun i, Lock.sce]) ++ [[Lock.sce]]).Sublist
      ([Lock.sce] :: spans [.sce] ((is.flatMap fun i => taken (.lun i) []) ++ rest)) := by
  induction is with
  | nil => exact List.singleton_sublist.mpr List.mem_cons_self
  | cons i is ih =>
    have one : spans [.sce] (((i :: is).flatMap fun i => taken (.lun i) []) ++ rest) =
        [Lock.lun i, .sce] :: [.sce] :: spans [.sce] ((is.flatMap fun i => taken (.lun i) []) ++ rest) := by
      rw [List.flatMap_cons, List.append_assoc]
      simp [taken, spans]
    rw [one, List.map_cons, List.cons_append]
    exact .cons _ (ih.cons_cons _)

theorem sublist_rmcdev {luns : List Nat} (some : luns ≠ []) :
    ([Lock.sce] :: ((luns.map fun i => [Lock.lun i, Lock.sce]) ++ [[Lock.sce]])).Sublist
      (spans [] (taken .sce (luns.flatMap fun i => taken (.lun i) []))) := by
  cases luns with
  | nil => exact absurd rfl some
  | cons i is =>
    have one : spans [] (taken .sce ((i :: is).flatMap fun i => taken (.lun i) [])) =
        [Lock.sce] :: [.lun i, .sce] :: [.sce] ::
          spans [.sce] ((is.flatMap fun i => taken (.lun i) []) ++ [.release .sce]) := by
      rw [List.flatMap_cons]
      simp [taken, spans]
    rw [one, List.map_cons, List.cons_append]
    exact ((sublist_luns is _).cons_cons _).cons_cons _

theorem sceRmcdev_path {r : Ret} (run : (enter s).sceRmcdev devnum = .ok (r, g')) : ∃ path,
    Op.Path (.rmcdev devnum) path ∧ g'.held = [] ∧ g'.helds.Sublist (spans [] path) := by
  unfold sceRmcdev at run
  split at run
  · cases run
    exact ⟨[], .refused, rfl, List.Sublist.refl _⟩
  · split at run
    · cases run
    · obtain ⟨g₁, body, rfl⟩ := under_eq_ok.mp run
      obtain ⟨⟨_, g₂⟩, first, rest⟩ := Except.bind_eq_ok body
      obtain ⟨s₂, _, rfl⟩ := run_eq_ok.mp first
      obtain ⟨_, last⟩ := Prod.mk.inj (Except.ok.inj rest)
      obtain ⟨held, helds⟩ :=
        @helds_rmcdevLuns devnum (List.range sceMaxLun) (((enter s).lock .sce).write fun _ => s₂)
      have pieces := sublist_rmcdev (show List.range sceMaxLun ≠ [] by simp)
      have still : g₁.held = [.sce] := by
        rw [← last, write_held, held]
        rfl
      refine ⟨_, .rmcdev, ?_, ?_⟩
      · show g₁.held.erase .sce = []
        rw [still]
        rfl
      · rw [helds_unlock, ← last, helds_write, helds, held]
        exact pieces

theorem nested_sublist : [[Lock.lun i, Lock.sce]].Sublist (spans [] (taken .sce (taken (.lun i) []))) := by
  simp [taken, spans]

theorem sceGet4pop_path {past : Nat → Nat → Word} {r : Option Poptask}
    (run : (enter s).sceGet4pop past = .ok (r, g')) : ∃ path,
    Op.Path (.get4pop past) path ∧ g'.held = [] ∧ g'.helds.Sublist (spans [] path) := by
  obtain ⟨g₁, body, rfl⟩ := under_eq_ok.mp run
  simp only [lock_sce] at body
  split at body
  · cases body
    exact ⟨_, .get4popNone, rfl, List.nil_sublist _⟩
  · rename_i i f chosen
    obtain ⟨⟨ret, g₂⟩, inner, rest⟩ := Except.bind_eq_ok body
    obtain ⟨held, helds⟩ := helds_under inner
    have same : g₁ = g₂ := by
      cases ret with
      | none => exact (congrArg Prod.snd (Except.ok.inj rest)).symm
      | some pfid => exact (congrArg Prod.snd (Except.ok.inj rest)).symm
    rw [same]
    refine ⟨_, .get4pop i, ?_, ?_⟩
    · show g₂.held.erase .sce = []
      rw [held]
      rfl
    · rw [helds_unlock, helds]
      exact nested_sublist

/-- A call under one lock. -/
theorem under_path {r : α} (run : (enter s).under k (fun g => g.run step) = .ok (r, g')) :
    g'.held = [] ∧ g'.helds.Sublist (spans [] (taken k [])) := by
  obtain ⟨held, helds⟩ := helds_under run
  rw [helds]
  exact ⟨held, List.sublist_append_left [[k]] _⟩

/-- Every call that returns has given back its locks, and each of its pieces is done under locks it holds on its
path. -/
theorem call_path (run : (enter s).call op = .ok (reply, g')) : ∃ path,
    op.Path path ∧ g'.held = [] ∧ g'.helds.Sublist (spans [] path) := by
  cases op with
  | addcdev m ctx vmalloc =>
    obtain ⟨⟨_, g₁⟩, done, same⟩ := Except.map_eq_ok.mp run
    obtain ⟨_, rfl⟩ := Prod.mk.inj same
    exact ⟨_, .addcdev, under_path done⟩
  | rmcdev d =>
    obtain ⟨⟨_, g₁⟩, done, same⟩ := Except.map_eq_ok.mp run
    obtain ⟨_, rfl⟩ := Prod.mk.inj same
    exact sceRmcdev_path done
  | addlun m ctx vmalloc =>
    obtain ⟨⟨_, g₁⟩, done, same⟩ := Except.map_eq_ok.mp run
    obtain ⟨_, rfl⟩ := Prod.mk.inj same
    exact ⟨_, .addlunFail, under_path done⟩
  | rmlun i =>
    obtain ⟨⟨_, g₁⟩, done, same⟩ := Except.map_eq_ok.mp run
    obtain ⟨_, rfl⟩ := Prod.mk.inj same
    obtain ⟨g₂, inner, rfl⟩ := under_eq_ok.mp done
    obtain ⟨held, helds⟩ := helds_under inner
    refine ⟨_, .rmlun, ?_, ?_⟩
    · show g₂.held.erase .sce = []
      rw [held]
      rfl
    · rw [helds_unlock, helds]
      exact nested_sublist
  | get4read i x n =>
    obtain ⟨⟨_, g₁⟩, done, same⟩ := Except.map_eq_ok.mp run
    obtain ⟨_, rfl⟩ := Prod.mk.inj same
    exact ⟨_, .get4read, under_path done⟩
  | put4read i x n =>
    obtain ⟨⟨_, g₁⟩, done, same⟩ := Except.map_eq_ok.mp run
    obtain ⟨_, rfl⟩ := Prod.mk.inj same
    exact ⟨_, .put4read, under_path done⟩
  | invalidate i x n =>
    obtain ⟨⟨_, g₁⟩, done, same⟩ := Except.map_eq_ok.mp run
    obtain ⟨_, rfl⟩ := Prod.mk.inj same
    exact ⟨_, .invalidate, under_path done⟩
  | get4pop past =>
    obtain ⟨⟨_, g₁⟩, done, same⟩ := Except.map_eq_ok.mp run
    obtain ⟨_, rfl⟩ := Prod.mk.inj same
    exact sceGet4pop_path done
  | put4pop poptask failed =>
    obtain ⟨⟨_, g₁⟩, done, same⟩ := Except.map_eq_ok.mp run
    obtain ⟨_, rfl⟩ := Prod.mk.inj same
    unfold scePut4pop at done
    split at done
    · cases done
      exact ⟨[], .refused, rfl, List.Sublist.refl _⟩
    · exact ⟨_, .put4pop _, under_path done⟩

end Guarded

/-! ### Threads that call the engine -/

/-- A thread begins a call. `sce_addlun` makes the lock of a LUN anew only while nobody has it. -/
def Lock.Calls (p : Lockers Lock) (act : Nat × List (Step Lock)) : Prop :=
  ∀ t ∈ p.threads[act.1]?, (t.todo = [] → ∃ op : Op, op.Path act.2) ∧ ∀ k rest, t.todo = .init k :: rest → k ∉ p.shared

theorem Lock.Calls.allowed {p : Lockers Lock} {act : Nat × List (Step Lock)} (h : Lock.Calls p act) :
    Lockers.Allowed Lock.rank p act := by
  intro t here
  obtain ⟨begins, anew⟩ := h t here
  refine ⟨fun idle => ?_, anew⟩
  obtain ⟨op, path⟩ := begins idle
  exact path.ordered

/-- Any number of threads call the engine, in any order. No lock is ever held twice, and the calls do not wait for one
another for ever: without a new call all of them have ended after as many steps as they have left, whichever goes
first, and until then one of them can go on. The calls of the model hold their locks as their paths say. -/
theorem Lock.calls_end {n : Nat} {p : Lockers Lock} (reached : Reachable Lockers.exec Lock.Calls (.start n) p) :
    ((∀ t ∈ p.threads, t.held.Nodup) ∧ p.threads.Pairwise fun t u => ∀ k ∈ t.held, k ∉ u.held) ∧
    (∀ acts p', Run Lockers.exec (Lockers.Goes Lock.rank) p acts p' → acts.length ≤ p.left ∧
      (acts.length = p.left → ∀ t ∈ p'.threads, ¬ Lockers.Busy t ∧ t.held = []) ∧
      (acts.length < p.left → ∃ m, Lockers.Goes Lock.rank p' (m, []) ∧ ∃ p'', p'.exec (m, []) = some p'')) ∧
    ∀ s op reply g, (Guarded.enter s).call op = .ok (reply, g) →
      ∃ path, op.Path path ∧ g.held = [] ∧ g.helds.Sublist (spans [] path) := by
  have safe : p.Safe Lock.rank := Lockers.safe_of_reachable (reached.mono fun _ _ => Lock.Calls.allowed)
  exact ⟨safe.exclusive, fun _ _ => safe.ends, fun _ _ _ _ => Guarded.call_path⟩

/-- One thread in `sce_rmlun`, before it has the lock of the LUN, and one in `sce_get4read`, which has it. -/
def Lock.crossed : Lockers Lock :=
  ⟨{.lun 0, .sce}, [⟨[.sce], taken (.lun 0) [] ++ [.release .sce]⟩, ⟨[.lun 0], [.release (.lun 0)]⟩]⟩

theorem Lock.Calls.begin {p : Lockers Lock} {m : Nat} {t : Locker Lock} (here : p.threads[m]? = some t)
    (idle : t.todo = []) (path : op.Path steps) : Lock.Calls p (m, steps) := by
  rintro u there
  obtain rfl := Option.some.inj (here.symm.trans there)
  refine ⟨fun _ => ⟨op, path⟩, ?_⟩
  intro k rest next
  rw [idle] at next
  cases next

theorem Lock.Calls.take {p : Lockers Lock} {m : Nat} {t : Locker Lock} {rest : List (Step Lock)}
    (here : p.threads[m]? = some t) (next : t.todo = .acquire k :: rest) : Lock.Calls p (m, []) := by
  rintro u there
  obtain rfl := Option.some.inj (here.symm.trans there)
  refine ⟨fun idle => ?_, ?_⟩
  · rw [next] at idle
    cases idle
  · intro j tail init
    rw [next] at init
    cases init

theorem Lock.crossed_reached : Reachable Lockers.exec Lock.Calls (.start 2) Lock.crossed := by
  have first : Reachable Lockers.exec Lock.Calls (.start 2) ⟨∅, [⟨[], taken .sce (taken (.lun 0) [])⟩, ⟨[], []⟩]⟩ :=
    Reachable.init.next (.begin (m := 0) rfl rfl (.rmlun (i := 0))) rfl
  have outer : Reachable Lockers.exec Lock.Calls (.start 2)
      ⟨{.sce}, [⟨[.sce], taken (.lun 0) [] ++ [.release .sce]⟩, ⟨[], []⟩]⟩ :=
    first.next (.take (m := 0) rfl rfl) rfl
  have second : Reachable Lockers.exec Lock.Calls (.start 2)
      ⟨{.sce}, [⟨[.sce], taken (.lun 0) [] ++ [.release .sce]⟩, ⟨[], taken (.lun 0) []⟩]⟩ :=
    outer.next (.begin (m := 1) rfl rfl (.get4read (i := 0) (x := 0) (n := 1))) rfl
  exact second.next (.take (m := 1) rfl rfl) rfl

theorem Lock.calls_end_crossed : Lock.crossed.left = 4 ∧
    ∀ acts p', Run Lockers.exec (Lockers.Goes Lock.rank) Lock.crossed acts p' → acts.length ≤ 4 ∧
      (acts.length = 4 → ∀ t ∈ p'.threads, ¬ Lockers.Busy t ∧ t.held = []) := by
  refine ⟨rfl, fun acts p' run => ?_⟩
  obtain ⟨_, ends, _⟩ := Lock.calls_end Lock.crossed_reached
  obtain ⟨most, done, _⟩ := ends acts p' run
  exact ⟨most, done⟩

end Iostash
