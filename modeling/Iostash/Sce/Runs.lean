import Iostash.Util.Run
import Iostash.Sce.Call

/-!
# Runs of the engine

Every sequence of calls with arguments of their types, whether or not a put belongs to a get.
-/

namespace Iostash

open Util

/-- The arguments have the types of the C prototypes. -/
def Op.InType : Op → Prop
  | .addcdev nrSctr _ _ | .addlun nrSctr _ _ => nrSctr < 2 ^ 64
  | .get4read _ x n | .put4read _ x n | .invalidate _ x n => x < 2 ^ 64 ∧ n < 2 ^ 32
  | _ => True

instance (op : Op) : Decidable op.InType :=
  match op with
  | .addcdev nrSctr _ _ | .addlun nrSctr _ _ => inferInstanceAs (Decidable (nrSctr < 2 ^ 64))
  | .get4read _ x n | .put4read _ x n | .invalidate _ x n => inferInstanceAs (Decidable (x < 2 ^ 64 ∧ n < 2 ^ 32))
  | .rmcdev _ | .rmlun _ | .get4pop _ | .put4pop _ _ => .isTrue trivial

/-- A call that does not return ends the run. -/
def Sce.exec (s : Sce) (op : Op) : Option Sce :=
  match s.call op with
  | .error _ => none
  | .ok (_, s') => some s'

def Sce.Reached (s : Sce) : Prop := Reachable Sce.exec (fun _ op => op.InType) sceCreate s

/-- The engine after a list of calls. -/
def Sce.after (ops : List Op) : Sce := (execAll Sce.exec (fun _ op => decide op.InType) sceCreate ops).getD sceCreate

variable {s s' : Sce} {op : Op} {reply : Reply} {i x n : Nat}

theorem Sce.after_reached {ops : List Op}
    (ok : (execAll Sce.exec (fun _ op => decide op.InType) sceCreate ops).isSome = true) : (Sce.after ops).Reached :=
  reachable_getD (fun _ _ typed => of_decide_eq_true typed) ok

theorem Sce.exec_eq_some : s.exec op = some s' ↔ ∃ reply, s.call op = .ok (reply, s') := by
  unfold exec
  cases s.call op with
  | error e => simp
  | ok r => simp [Prod.ext_iff]

theorem Inv.create : Inv nowhere sceCreate where
  shape := by
    refine ⟨⟨?_, ?_, ?_, ?_⟩, ⟨?_, ?_⟩, ?_, [], ?_, List.nodup_nil, rfl, ?_⟩
    · intro d ctx n dev
      cases dev
    · intro d d' ctx n n' dev
      cases dev
    · rfl
    · simp [sceCreate, devSize, Sce.dev, u32]
    · intro i m n extent
      cases extent
    · rfl
    · intro i f a place
      cases place
    · exact .nil _
    · intro a
      simp [sceCreate, Sce.isFree, Sce.node, Sce.frag?]
  pages := by
    intro i f m slot
    cases slot
  kept := by
    intro a g frag
    cases frag

/-- A put whose range wraps or is not in one fragment is refused. -/
theorem scePut4read_refused (hx : x < 2 ^ 64) (hn : n < 2 ^ 32)
    (odd : ¬ (0 < n ∧ x + n < 2 ^ 64 ∧ (x + n - 1) / sceSctrPerFrag = x / sceSctrPerFrag)) :
    scePut4read s i x n = .ok (.error, s) := by
  unfold scePut4read
  cases lock : lockLun s i x n false with
  | none => rfl
  | some l =>
    obtain ⟨lun, range, _⟩ := lockLun_eq_some.mp lock
    simp only [inRange, Bool.and_eq_true, decide_eq_true_eq] at range
    simp only
    have apart : sub64 (u64 (x + n)) 1 / sceSctrPerFrag ≠ u32 (x / sceSctrPerFrag) := by
      simp only [sub64, u64, u32, sceSctrPerFrag] at odd ⊢
      omega
    rw [if_pos apart]

theorem Sce.call_inv (h : Inv nowhere s) (typed : op.InType) (run : s.call op = .ok (reply, s')) :
    Inv nowhere s' ∧ (s' = s ∨ Effect s.view op reply s'.view) := by
  by_cases typed' : op.Typed
  · exact (call_effect h typed' run).imp_right Or.inr
  · cases op with
    | put4read i x n =>
      obtain ⟨⟨r, t⟩, done, e⟩ := Except.map_eq_ok.mp run
      obtain ⟨rfl, rfl⟩ := Prod.mk.inj e
      rw [scePut4read_refused typed.1 typed.2 typed'] at done
      cases done
      exact ⟨h, Or.inl rfl⟩
    | addlun m ctx vmalloc => exact absurd typed typed'
    | get4read i x n => exact absurd typed typed'
    | _ => exact absurd trivial typed'

theorem Sce.Reached.inv (h : s.Reached) : Inv nowhere s := by
  apply h.invariant Inv.create
  intro s op s' here typed moves
  obtain ⟨reply, run⟩ := Sce.exec_eq_some.mp moves
  exact (Sce.call_inv here typed run).1

/-! ### Beside the engine -/

/-- What is kept beside the engine in its runs: it holds an engine, and each call that returns brings it on. -/
structure Observer (σ : Type) where
  sce : σ → Sce
  init : σ
  next : σ → Op → Reply → Sce → σ
  starts : sce init = sceCreate
  follows : ∀ c op reply s', sce (next c op reply s') = s'

namespace Observer

variable {σ : Type} (o : Observer σ)

def exec (c : σ) (op : Op) : Option σ :=
  match (o.sce c).call op with
  | .error _ => none
  | .ok (reply, s') => some (o.next c op reply s')

def Reached (c : σ) : Prop := Reachable o.exec (fun _ op => op.InType) o.init c

/-- What is kept after a list of calls. -/
def after (ops : List Op) : σ := (execAll o.exec (fun _ op => decide op.InType) o.init ops).getD o.init

variable {o} {c c' : σ} {I : σ → Prop}

theorem after_reached {ops : List Op} (ok : (execAll o.exec (fun _ op => decide op.InType) o.init ops).isSome = true) :
    o.Reached (o.after ops) :=
  reachable_getD (fun _ _ typed => of_decide_eq_true typed) ok

theorem exec_eq_some : o.exec c op = some c' ↔
    ∃ reply s', (o.sce c).call op = .ok (reply, s') ∧ c' = o.next c op reply s' := by
  unfold exec
  cases (o.sce c).call op with
  | error e => simp
  | ok r => simp [Prod.ext_iff, eq_comm]

/-- What the calls of a run preserve. -/
theorem later (run : Reachable o.exec (fun _ op => op.InType) c c') (here : (o.sce c).Reached) (initial : I c)
    (step : ∀ c op reply s', (o.sce c).Reached → op.InType → (o.sce c).call op = .ok (reply, s') → I c →
      I (o.next c op reply s')) : (o.sce c').Reached ∧ I c' := by
  refine run.invariant (I := fun c => (o.sce c).Reached ∧ I c) ⟨here, initial⟩ ?_
  rintro c op c' ⟨here, old⟩ typed moves
  obtain ⟨reply, s', run, rfl⟩ := exec_eq_some.mp moves
  refine ⟨?_, step c op reply s' here typed run old⟩
  rw [o.follows]
  exact here.next typed (Sce.exec_eq_some.mpr ⟨reply, run⟩)

/-- What holds at first and what the calls preserve holds in every run. -/
theorem Reached.invariant (h : o.Reached c) (initial : I o.init)
    (step : ∀ c op reply s', (o.sce c).Reached → op.InType → (o.sce c).call op = .ok (reply, s') → I c →
      I (o.next c op reply s')) : (o.sce c).Reached ∧ I c := by
  refine later h ?_ initial step
  rw [o.starts]
  exact .init

theorem Reached.sce (h : o.Reached c) : (o.sce c).Reached :=
  (h.invariant (I := fun _ => True) trivial fun _ _ _ _ _ _ _ _ => trivial).1

end Observer

end Iostash
