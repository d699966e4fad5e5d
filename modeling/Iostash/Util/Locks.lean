import Mathlib.Data.Finset.Erase
import Mathlib.Data.Finset.Insert
import Iostash.Util.Pool

/-!
# Locks taken in an order

Threads take and release locks, and each takes a lock only while all it holds rank lower. Then no lock is held twice,
and the threads never wait for one another in a circle: whatever is under way can be finished.
-/

namespace Iostash.Util.Locks

variable {κ : Type*}

/-- `init` makes a lock anew. -/
inductive Step (κ : Type*) where
  | acquire (k : κ)
  | release (k : κ)
  | init (k : κ)
  deriving DecidableEq

/-- A thread: the locks it holds, the last one first, and what it still does. -/
structure Locker (κ : Type*) where
  held : List κ
  todo : List (Step κ)

/-- The lock a step has to find free. -/
def Step.wants : Step κ → Option κ
  | .acquire k => some k
  | .release _ => none
  | .init k => some k

section

variable [DecidableEq κ]

/-- The next step of a thread; `call` is what it begins when it has done all. It waits for a lock that is taken. -/
def Locker.run (t : Locker κ) (call : List (Step κ)) (locked : Finset κ) : Option (Finset κ × List (Locker κ)) :=
  match t.todo with
  | [] => some (locked, [⟨t.held, call⟩])
  | .acquire k :: rest => if k ∈ locked then none else some (insert k locked, [⟨k :: t.held, rest⟩])
  | .release k :: rest => some (locked.erase k, [⟨t.held.erase k, rest⟩])
  | .init k :: rest => some (locked.erase k, [⟨t.held, rest⟩])

abbrev Lockers (κ : Type*) := Pool (Finset κ) (Locker κ)

def Lockers.exec (p : Lockers κ) (act : Nat × List (Step κ)) : Option (Lockers κ) := Pool.exec Locker.run p act

/-- `n` threads, and no lock is taken. -/
def Lockers.start (n : Nat) : Lockers κ := ⟨∅, List.replicate n ⟨[], []⟩⟩

/-- What a thread that holds `held` still does keeps to the order, and releases everything. -/
def Ordered (rank : κ → Nat) : List κ → List (Step κ) → Prop
  | held, [] => held = []
  | held, .acquire k :: rest => (∀ h ∈ held, rank h < rank k) ∧ Ordered rank (k :: held) rest
  | held, .release k :: rest => k ∈ held ∧ Ordered rank (held.erase k) rest
  | held, .init k :: rest => (∀ h ∈ held, rank h < rank k) ∧ Ordered rank held rest

/-- A lock around something. -/
def taken (k : κ) (inner : List (Step κ)) : List (Step κ) := .acquire k :: (inner ++ [.release k])

/-- The locks held after each step. -/
def spans : List κ → List (Step κ) → List (List κ)
  | _, [] => []
  | held, .acquire k :: rest => (k :: held) :: spans (k :: held) rest
  | held, .release k :: rest => held.erase k :: spans (held.erase k) rest
  | held, .init _ :: rest => held :: spans held rest

/-- Steps after which the same locks are held. -/
def Keeps (rank : κ → Nat) (held : List κ) (steps : List (Step κ)) : Prop :=
  ∀ rest, Ordered rank held rest → Ordered rank held (steps ++ rest)

variable {rank : κ → Nat} {held : List κ} {k : κ} {inner steps steps' : List (Step κ)}

/-! ### Steps that keep to the order -/

theorem Keeps.nil : Keeps rank held [] := fun _ ordered => ordered

theorem Keeps.append (first : Keeps rank held steps) (second : Keeps rank held steps') :
    Keeps rank held (steps ++ steps') := by
  intro rest ordered
  rw [List.append_assoc]
  exact first _ (second rest ordered)

theorem Keeps.init (higher : ∀ h ∈ held, rank h < rank k) : Keeps rank held [.init k] :=
  fun _ ordered => ⟨higher, ordered⟩

theorem Keeps.taken (higher : ∀ h ∈ held, rank h < rank k) (inside : Keeps rank (k :: held) inner) :
    Keeps rank held (taken k inner) := by
  intro rest ordered
  have after : Ordered rank (k :: held) (.release k :: rest) := by
    refine ⟨List.mem_cons_self, ?_⟩
    rw [List.erase_cons_head]
    exact ordered
  have shape : Locks.taken k inner ++ rest = .acquire k :: (inner ++ .release k :: rest) := by simp [Locks.taken]
  rw [shape]
  exact ⟨higher, inside _ after⟩

theorem Keeps.flatMap {α : Type*} {f : α → List (Step κ)} (each : ∀ a, Keeps rank held (f a)) (l : List α) :
    Keeps rank held (l.flatMap f) := by
  induction l with
  | nil => exact .nil
  | cons a l ih =>
    rw [List.flatMap_cons]
    exact (each a).append ih

theorem Keeps.ordered (keeps : Keeps rank [] steps) : Ordered rank [] steps := by
  have whole := keeps [] rfl
  rwa [List.append_nil] at whole

/-! ### Runs of the threads -/

namespace Lockers

/-- A thread in the middle of a call. -/
def Busy (t : Locker κ) : Prop := t.todo ≠ []

/-- A thread begins what keeps to the order, and makes a lock anew only while nobody has it. -/
def Allowed (rank : κ → Nat) (p : Lockers κ) (act : Nat × List (Step κ)) : Prop :=
  ∀ t ∈ p.threads[act.1]?, (t.todo = [] → Ordered rank [] act.2) ∧ ∀ k rest, t.todo = .init k :: rest → k ∉ p.shared

/-- A step of a thread in the middle of a call. -/
def Goes (rank : κ → Nat) (p : Lockers κ) (act : Nat × List (Step κ)) : Prop :=
  Allowed rank p act ∧ ∃ t ∈ p.threads[act.1]?, Busy t

/-- What the calls under way still do. -/
def left (p : Lockers κ) : Nat := p.total fun t => t.todo.length

/-- Every thread keeps to the order, and each lock that is taken is held once. -/
structure Safe (rank : κ → Nat) (p : Lockers κ) : Prop where
  ordered : ∀ t ∈ p.threads, Ordered rank t.held t.todo
  owned : ∀ k, p.total (fun t => t.held.count k) = if k ∈ p.shared then 1 else 0

variable {p p' : Lockers κ} {act : Nat × List (Step κ)} {t u : Locker κ} {n : Nat}

theorem safe_start (n : Nat) : Safe rank (start n : Lockers κ) := by
  refine ⟨?_, ?_⟩
  · intro t member
    rw [List.eq_of_mem_replicate member]
    rfl
  · intro k
    have none : Pool.total (fun t : Locker κ => t.held.count k) (start n) = 0 := by
      rw [Pool.total_eq_zero]
      intro t member
      rw [List.eq_of_mem_replicate member]
      rfl
    rw [none]
    rfl

/-- What is held is taken. -/
theorem Safe.locked (safe : Safe rank p) (member : t ∈ p.threads) (holds : k ∈ t.held) : k ∈ p.shared := by
  by_contra free
  have none := safe.owned k
  rw [if_neg free, Pool.total_eq_zero] at none
  exact List.count_eq_zero.mp (none t member) holds

/-- A step of one thread: it goes on in the order, and what becomes of the locks becomes of what it holds. -/
theorem run_ordered {locked locked' : Finset κ} {call : List (Step κ)} {new : List (Locker κ)}
    (ordered : Ordered rank t.held t.todo) (begins : t.todo = [] → Ordered rank [] call)
    (held : ∀ k ∈ t.held, k ∈ locked) (anew : ∀ k rest, t.todo = .init k :: rest → k ∉ locked)
    (run : t.run call locked = some (locked', new)) : ∃ u, new = [u] ∧ Ordered rank u.held u.todo ∧
      ∀ k, t.held.count k + (if k ∈ locked' then 1 else 0) = u.held.count k + if k ∈ locked then 1 else 0 := by
  unfold Locker.run at run
  split at run
  · rename_i idle
    obtain ⟨rfl, new⟩ := Prod.mk.inj (Option.some.inj run)
    rw [idle] at ordered
    have none : t.held = [] := ordered
    refine ⟨_, new.symm, ?_, fun k => rfl⟩
    rw [none]
    exact begins idle
  · rename_i k rest next
    split at run
    · cases run
    · rename_i free
      obtain ⟨rfl, new⟩ := Prod.mk.inj (Option.some.inj run)
      rw [next] at ordered
      refine ⟨_, new.symm, ordered.2, fun j => ?_⟩
      by_cases same : j = k
      · subst same
        simp [free]
      · simp [same, Ne.symm same]
  · rename_i k rest next
    obtain ⟨rfl, new⟩ := Prod.mk.inj (Option.some.inj run)
    rw [next] at ordered
    refine ⟨_, new.symm, ordered.2, fun j => ?_⟩
    by_cases same : j = k
    · subst same
      have pos : 0 < t.held.count j := List.count_pos_iff.mpr ordered.1
      simp [held j ordered.1]
      omega
    · simp [same, List.count_erase_of_ne same]
  · rename_i k rest next
    obtain ⟨rfl, new⟩ := Prod.mk.inj (Option.some.inj run)
    rw [next] at ordered
    refine ⟨_, new.symm, ordered.2, fun j => ?_⟩
    rw [Finset.erase_eq_of_notMem (anew k rest next)]

theorem Safe.step (safe : Safe rank p) (allowed : Allowed rank p act) (moves : exec p act = some p') : Safe rank p' := by
  obtain ⟨t, new, others, here, run, pool⟩ := Pool.exec_moves moves
  obtain ⟨begins, anew⟩ := allowed t here
  have member : t ∈ p.threads := (pool.mem t).mpr (Or.inl rfl)
  obtain ⟨u, rfl, still, counts⟩ :=
    run_ordered (safe.ordered t member) begins (fun _ holds => safe.locked member holds) anew run
  refine ⟨?_, ?_⟩
  · intro v there
    rcases (pool.mem' v).mp there with new | other
    · rw [List.mem_singleton.mp new]
      exact still
    · exact safe.ordered v ((pool.mem v).mpr (Or.inr other))
  · intro k
    have before := pool.before fun t => t.held.count k
    have after := pool.after fun t => t.held.count k
    have count := counts k
    rw [safe.owned k] at before
    rw [List.map_singleton, List.sum_singleton] at after
    omega

theorem safe_of_reachable (reached : Reachable exec (Allowed rank) (start n) p) : Safe rank p :=
  reached.invariant (safe_start n) fun _ _ _ safe allowed moves => safe.step allowed moves

/-- No lock is held by two threads, or twice by one. -/
theorem Safe.exclusive (safe : Safe rank p) : (∀ t ∈ p.threads, t.held.Nodup) ∧
    p.threads.Pairwise fun t u => ∀ k ∈ t.held, k ∉ u.held := by
  have once : ∀ k, (p.threads.map fun t => t.held.count k).sum ≤ 1 := by
    intro k
    have owned := safe.owned k
    unfold Pool.total at owned
    rw [owned]
    split <;> omega
  generalize p.threads = threads at once
  induction threads with
  | nil => exact ⟨fun t member => absurd member List.not_mem_nil, .nil⟩
  | cons t threads ih =>
    simp only [List.map_cons, List.sum_cons] at once
    obtain ⟨nodup, apart⟩ := ih fun k => by have := once k; omega
    refine ⟨?_, List.pairwise_cons.mpr ⟨?_, apart⟩⟩
    · intro u member
      rcases List.mem_cons.mp member with rfl | later
      · exact List.nodup_iff_count_le_one.mpr fun k => by have := once k; omega
      · exact nodup u later
    · intro u member k holds there
      have here : 0 < t.held.count k := List.count_pos_iff.mpr holds
      have other : 0 < u.held.count k := List.count_pos_iff.mpr there
      have below : u.held.count k ≤ (threads.map fun t => t.held.count k).sum :=
        List.single_le_sum (fun _ _ => Nat.zero_le _) _ (List.mem_map.mpr ⟨u, member, rfl⟩)
      have := once k
      omega

/-- A step of a call under way takes one step from what it still does. -/
theorem run_left {locked locked' : Finset κ} {call : List (Step κ)} {new : List (Locker κ)} (busy : Busy t)
    (run : t.run call locked = some (locked', new)) : ∃ u, new = [u] ∧ u.todo.length + 1 = t.todo.length := by
  unfold Locker.run at run
  split at run
  · rename_i idle
    exact absurd idle busy
  · rename_i k tail next
    split at run
    · cases run
    · obtain ⟨_, new⟩ := Prod.mk.inj (Option.some.inj run)
      exact ⟨_, new.symm, by rw [next]; rfl⟩
  · rename_i k tail next
    obtain ⟨_, new⟩ := Prod.mk.inj (Option.some.inj run)
    exact ⟨_, new.symm, by rw [next]; rfl⟩
  · rename_i k tail next
    obtain ⟨_, new⟩ := Prod.mk.inj (Option.some.inj run)
    exact ⟨_, new.symm, by rw [next]; rfl⟩

theorem left_step (goes : Goes rank p act) (moves : exec p act = some p') : left p' + 1 = left p := by
  obtain ⟨t, new, others, here, run, pool⟩ := Pool.exec_moves moves
  obtain ⟨_, u, there, busy⟩ := goes
  obtain rfl := Option.some.inj (here.symm.trans there)
  obtain ⟨u, rfl, shorter⟩ := run_left busy run
  have before := pool.before fun t => t.todo.length
  have after := pool.after fun t => t.todo.length
  unfold left
  rw [List.map_singleton, List.sum_singleton] at after
  omega

/-- Without new calls there are only so many steps. -/
theorem run_length {acts : List (Nat × List (Step κ))} (run : Run exec (Goes rank) p acts p') :
    acts.length + left p' = left p := by
  induction run with
  | nil => simp
  | step _ goes moves ih =>
    have one := left_step goes moves
    rw [List.length_cons]
    omega

/-- The lock a thread waits for, or makes anew. -/
def wanted (t : Locker κ) : Option κ := t.todo.head?.bind Step.wants

/-- A thread that finds free what it wants can go on. -/
theorem goes_of_free (here : p.threads[n]? = some t) (busy : Busy t) (free : ∀ k, wanted t = some k → k ∉ p.shared) :
    Goes rank p (n, []) ∧ ∃ p', exec p (n, []) = some p' := by
  have allowed : Allowed rank p (n, []) := by
    rintro u there
    obtain rfl := Option.some.inj (here.symm.trans there)
    refine ⟨fun idle => absurd idle busy, ?_⟩
    intro k rest next
    exact free k (by simp [wanted, next, Step.wants])
  have runs : ∃ r, t.run [] p.shared = some r := by
    unfold Locker.run
    split
    · exact ⟨_, rfl⟩
    · rename_i k rest next
      rw [if_neg (free k (by simp [wanted, next, Step.wants]))]
      exact ⟨_, rfl⟩
    · exact ⟨_, rfl⟩
    · exact ⟨_, rfl⟩
  obtain ⟨r, ran⟩ := runs
  refine ⟨⟨allowed, t, here, busy⟩, ⟨r.1, p.threads.take n ++ (r.2 ++ p.threads.drop (n + 1))⟩, ?_⟩
  simp [exec, Pool.exec, here, ran]

/-- What a thread holds ranks below what it wants. -/
theorem below_wanted (ordered : Ordered rank t.held t.todo) (wants : wanted t = some k) {h : κ} (holds : h ∈ t.held) :
    rank h < rank k := by
  cases next : t.todo with
  | nil =>
    rw [next] at ordered
    have none : t.held = [] := ordered
    rw [none] at holds
    cases holds
  | cons step rest =>
    rw [next] at ordered
    have wants : step.wants = some k := by simpa [wanted, next] using wants
    cases step with
    | acquire j =>
      obtain rfl := Option.some.inj wants
      exact ordered.1 h holds
    | release j => cases wants
    | init j =>
      obtain rfl := Option.some.inj wants
      exact ordered.1 h holds

/-- As long as a call is under way, one of them can go on: the one that wants the lock of highest rank. -/
theorem Safe.goes (safe : Safe rank p) (under : ∃ t ∈ p.threads, Busy t) :
    ∃ n, Goes rank p (n, []) ∧ ∃ p', exec p (n, []) = some p' := by
  by_contra stuck
  have waits : ∀ t ∈ p.threads, Busy t → ∃ k, wanted t = some k ∧ k ∈ p.shared := by
    intro t member busy
    by_contra free
    obtain ⟨n, here⟩ := List.mem_iff_getElem?.mp member
    exact stuck ⟨n, goes_of_free here busy fun k wants locked => free ⟨k, wants, locked⟩⟩
  -- whoever holds the lock wants one of higher rank
  have higher : ∀ m, ∃ t ∈ p.threads, Busy t ∧ m ≤ (wanted t).elim 0 fun k => rank k + 1 := by
    intro m
    induction m with
    | zero =>
      obtain ⟨t, member, busy⟩ := under
      exact ⟨t, member, busy, Nat.zero_le _⟩
    | succ m ih =>
      obtain ⟨t, member, busy, high⟩ := ih
      obtain ⟨k, wants, locked⟩ := waits t member busy
      have owned := safe.owned k
      rw [if_pos locked] at owned
      have some : ∃ u ∈ p.threads, u.held.count k ≠ 0 := by
        by_contra none
        have zero : p.total (fun t => t.held.count k) = 0 := Pool.total_eq_zero.mpr fun u there => by
          by_contra holds
          exact none ⟨u, there, holds⟩
        rw [zero] at owned
        cases owned
      obtain ⟨u, there, count⟩ := some
      have holds : k ∈ u.held := List.count_pos_iff.mp (Nat.pos_of_ne_zero count)
      have ordered := safe.ordered u there
      have busy' : Busy u := by
        intro idle
        rw [idle] at ordered
        have none : u.held = [] := ordered
        rw [none] at holds
        cases holds
      obtain ⟨k', wants', _⟩ := waits u there busy'
      have lower := below_wanted ordered wants' holds
      refine ⟨u, there, busy', ?_⟩
      rw [wants] at high
      rw [wants']
      simp only [Option.elim_some] at high ⊢
      omega
  obtain ⟨t, member, _, high⟩ := higher ((p.threads.map fun t => (wanted t).elim 0 fun k => rank k + 1).sum + 1)
  have below := List.single_le_sum (l := p.threads.map fun t => (wanted t).elim 0 fun k => rank k + 1)
    (fun _ _ => Nat.zero_le _) _ (List.mem_map.mpr ⟨t, member, rfl⟩)
  omega

/-- A thread that has done all holds no lock. -/
theorem Safe.idle (safe : Safe rank p) (member : t ∈ p.threads) (idle : ¬ Busy t) : t.held = [] := by
  have ordered := safe.ordered t member
  rw [not_not.mp idle] at ordered
  exact ordered

omit [DecidableEq κ] in
theorem left_eq_zero : left p = 0 ↔ ∀ t ∈ p.threads, ¬ Busy t := by
  unfold left
  rw [Pool.total_eq_zero]
  exact forall₂_congr fun t _ => List.length_eq_zero_iff.trans not_not.symm

/-- However the calls under way go on, they have all ended after as many steps as they have left, and until then one
of them can go on. -/
theorem Safe.ends {acts : List (Nat × List (Step κ))} (safe : Safe rank p) (run : Run exec (Goes rank) p acts p') :
    acts.length ≤ left p ∧ (acts.length = left p → ∀ t ∈ p'.threads, ¬ Busy t ∧ t.held = []) ∧
    (acts.length < left p → ∃ n, Goes rank p' (n, []) ∧ ∃ p'', exec p' (n, []) = some p'') := by
  have after : Safe rank p' := Reachable.invariant ⟨acts, run⟩ safe fun _ _ _ safe goes moves => safe.step goes.1 moves
  have steps := run_length run
  refine ⟨by omega, ?_, ?_⟩
  · intro all t member
    have idle := left_eq_zero.mp (by omega) t member
    exact ⟨idle, after.idle member idle⟩
  · intro fewer
    refine after.goes ?_
    by_contra none
    have zero : left p' = 0 := left_eq_zero.mpr fun t member busy => none ⟨t, member, busy⟩
    omega

end Lockers

end

end Iostash.Util.Locks
