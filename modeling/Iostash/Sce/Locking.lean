import Iostash.Sce.Call

/-!
# The locks of the engine

The calls of `sce_interface.c` again, with the locks they take. The bodies are the ones of the model;
here they are cut where a lock is taken or released, and each piece is kept with the locks held over it.
-/

namespace Iostash

/-- `sce->lock` or `lun->lock`. -/
inductive Lock where
  | sce
  | lun (lunidx : Nat)
  deriving DecidableEq

/-- A piece of a call over which the locks held do not change. -/
structure Stretch where
  held : List Lock
  before : Sce
  after : Sce

/-- The engine and the locks the call holds; `past` are its pieces so far, the newest first. -/
structure Guarded where
  sce : Sce
  held : List Lock
  past : List Stretch

/-- The pieces lead from one state to another, and nothing changes between them. -/
def Leads (s : Sce) : List Stretch → Sce → Prop
  | [], s' => s' = s
  | t :: past, s' => t.after = s' ∧ Leads s past t.before

/-! ### What the locks protect -/

/-- `sce->lock` protects the free list with the links of its fragments, the miss log and the clock arm. -/
structure Sce.SameShared (s s' : Sce) : Prop where
  freefraglist : s'.freefraglist = s.freefraglist
  nrFreefrag : s'.nrFreefrag = s.nrFreefrag
  next : ∀ a, s.isFree a ∨ s'.isFree a → s'.nextWord a = s.nextWord a
  misslog : s'.misslog = s.misslog
  arm : s'.arm = s.arm

/-- The lock of LUN `i` protects its map while it is present, and the fragments it maps. -/
structure Sce.SameLun (i : Nat) (s s' : Sce) : Prop where
  entry : ∀ f w, s.entry i f = some w → s'.entry i f = some w
  frag : ∀ f a, s.place i f = some a ∨ s'.place i f = some a → s'.frag? a = s.frag? a

/-- What changes is protected by a lock that is held. -/
structure Stretch.Disciplined (t : Stretch) : Prop where
  shared : .sce ∉ t.held → t.before.SameShared t.after
  lun : ∀ i, .lun i ∉ t.held → t.before.SameLun i t.after

def Guarded.Disciplined (g : Guarded) : Prop := ∀ t ∈ g.past, t.Disciplined

namespace Guarded

variable {α : Type} {g : Guarded} {s : Sce}

/-- The beginning of a call. -/
def enter (s : Sce) : Guarded := ⟨s, [], []⟩

def lock (g : Guarded) (k : Lock) : Guarded := { g with held := k :: g.held }

def unlock (g : Guarded) (k : Lock) : Guarded := { g with held := g.held.erase k }

/-- A piece that cannot fail. -/
def write (g : Guarded) (φ : Sce → Sce) : Guarded :=
  { g with sce := φ g.sce, past := ⟨g.held, g.sce, φ g.sce⟩ :: g.past }

def run (g : Guarded) (step : Sce → Except Fault (α × Sce)) : Except Fault (α × Guarded) :=
  (step g.sce).map fun r => (r.1, g.write fun _ => r.2)

def under (g : Guarded) (k : Lock) (body : Guarded → Except Fault (α × Guarded)) : Except Fault (α × Guarded) := do
  let (r, g) ← body (g.lock k)
  return (r, g.unlock k)

/-! ### The calls -/

/-- `sce_addcdev`. The checks before the lock only read. -/
def sceAddcdev (g : Guarded) (nrSctr cdctx : Nat) (vmalloc : Bool) : Except Fault (Option Nat × Guarded) :=
  g.under .sce fun g => g.run fun s => Iostash.sceAddcdev s nrSctr cdctx vmalloc

/-- The loop of `sce_rmcdev` over the LUN table. -/
def rmcdevLuns (devnum : Nat) : List Nat → Guarded → Guarded
  | [], g => g
  | i :: rest, g => rmcdevLuns devnum rest (((g.lock (.lun i)).write fun s => lunRmcdev s i devnum).unlock (.lun i))

/-- `sce_rmcdev` -/
def sceRmcdev (g : Guarded) (devnum : Nat) : Except Fault (Ret × Guarded) :=
  match g.sce.cdevtbl devnum with
  | none => .ok (.error, g)
  | some cdev =>
    if sceMaxCdev ≤ devnum then .error .bugOn
    else g.under .sce fun g => do
      let (_, g) ← g.run fun s => (freefraglistRmcdev s devnum).map fun s => ((), s)
      let g := rmcdevLuns devnum (List.range sceMaxLun) g
      return (.success, g.write fun s => { s with
        nrCdev := s.nrCdev - 1
        nrFrag := sub32 s.nrFrag cdev.nrFrag
        cdevtbl := fun d => if d = devnum then none else s.cdevtbl d })

/-- `sce_addlun` -/
def sceAddlun (g : Guarded) (nrSctr lunctx : Nat) (vmalloc : Bool) : Except Fault (Option Nat × Guarded) :=
  g.under .sce fun g => g.run fun s => Iostash.sceAddlun s nrSctr lunctx vmalloc

/-- `sce_rmlun` -/
def sceRmlun (g : Guarded) (i : Nat) : Except Fault (Ret × Guarded) :=
  g.under .sce fun g => g.under (.lun i) fun g => g.run fun s => Iostash.sceRmlun s i

/-- `sce_get4read`, which counts and logs a miss under the lock of the LUN. -/
def sceGet4read (g : Guarded) (i sctrnum nrSctr : Nat) : Except Fault (Option Fmap × Guarded) :=
  g.under (.lun i) fun g => g.run fun s => Iostash.sceGet4read s i sctrnum nrSctr

/-- `sce_put4read` -/
def scePut4read (g : Guarded) (i sctrnum nrSctr : Nat) : Except Fault (Ret × Guarded) :=
  g.under (.lun i) fun g => g.run fun s => Iostash.scePut4read s i sctrnum nrSctr

/-- `sce_invalidate` -/
def sceInvalidate (g : Guarded) (i sctrnum nrSctr : Nat) : Except Fault (Ret × Guarded) :=
  g.under (.lun i) fun g => g.run fun s => Iostash.sceInvalidate s i sctrnum nrSctr

/-- `sce_get4pop`. What `_alloc4population` evicts may be a fragment of any LUN. -/
def sceGet4pop (g : Guarded) (past : Nat → Nat → Word) : Except Fault (Option Poptask × Guarded) :=
  g.under .sce fun g =>
    match choose4population g.sce past with
    | none => .ok (none, g)
    | some (lunidx, fragnum) => do
      let (ret, g) ← g.under (.lun lunidx) fun g => g.run fun s => alloc4population s lunidx fragnum
      match ret with
      | none => return (none, g)
      | some pfid =>
        return (some { lunctx := (g.sce.luntbl lunidx).elim 0 Lun.lunctx
                       cdevctx := (g.sce.cdevtbl (scePfidDev pfid)).elim 0 Cdev.cdevctx
                       lunFragnum := fragnum
                       cdevFragnum := scePfidOff pfid }, g)

/-- `sce_put4pop`. The LUN is looked up without a lock. -/
def scePut4pop (g : Guarded) (poptask : Poptask) (failed : Bool) : Except Fault (Ret × Guarded) :=
  match lunSearch g.sce poptask.lunctx with
  | none => .ok (.error, g)
  | some i => g.under (.lun i) fun g => g.run fun s => Iostash.scePut4pop s poptask failed

def call (g : Guarded) : Op → Except Fault (Reply × Guarded)
  | .addcdev nrSctr cdctx vmalloc => (g.sceAddcdev nrSctr cdctx vmalloc).map fun r => (.hndl r.1, r.2)
  | .rmcdev devnum => (g.sceRmcdev devnum).map fun r => (.ret r.1, r.2)
  | .addlun nrSctr lunctx vmalloc => (g.sceAddlun nrSctr lunctx vmalloc).map fun r => (.hndl r.1, r.2)
  | .rmlun i => (g.sceRmlun i).map fun r => (.ret r.1, r.2)
  | .get4read i x n => (g.sceGet4read i x n).map fun r => (.fmap r.1, r.2)
  | .put4read i x n => (g.scePut4read i x n).map fun r => (.ret r.1, r.2)
  | .invalidate i x n => (g.sceInvalidate i x n).map fun r => (.ret r.1, r.2)
  | .get4pop past => (g.sceGet4pop past).map fun r => (.poptask r.1, r.2)
  | .put4pop poptask failed => (g.scePut4pop poptask failed).map fun r => (.ret r.1, r.2)

/-! ### The locks change nothing -/

variable {k : Lock} {φ : Sce → Sce} {step : Sce → Except Fault (α × Sce)} {op : Op} {devnum i : Nat}
  {body : Guarded → Except Fault (α × Guarded)}

/-- The call without its locks. -/
def bare (x : Except Fault (α × Guarded)) : Except Fault (α × Sce) := x.map fun r => (r.1, r.2.sce)

@[simp] theorem lock_sce : (g.lock k).sce = g.sce := rfl
@[simp] theorem unlock_sce : (g.unlock k).sce = g.sce := rfl
@[simp] theorem write_sce : (g.write φ).sce = φ g.sce := rfl
@[simp] theorem lock_past : (g.lock k).past = g.past := rfl
@[simp] theorem unlock_past : (g.unlock k).past = g.past := rfl
@[simp] theorem write_past : (g.write φ).past = ⟨g.held, g.sce, φ g.sce⟩ :: g.past := rfl

@[simp] theorem unlock_lock : ((g.lock k).write φ).unlock k = { g with
    sce := φ g.sce, past := ⟨k :: g.held, g.sce, φ g.sce⟩ :: g.past } := by
  simp [lock, write, unlock]

theorem run_eq_ok {r : α} {g' : Guarded} : g.run step = .ok (r, g') ↔
    ∃ s', step g.sce = .ok (r, s') ∧ g' = g.write fun _ => s' := by
  unfold run
  cases step g.sce with
  | error e => simp [Except.map]
  | ok p =>
    obtain ⟨r', s'⟩ := p
    simp only [Except.map, Except.ok.injEq, Prod.mk.injEq]
    constructor
    · rintro ⟨rfl, rfl⟩
      exact ⟨s', ⟨rfl, rfl⟩, rfl⟩
    · rintro ⟨_, ⟨rfl, rfl⟩, rfl⟩
      exact ⟨rfl, rfl⟩

theorem under_eq_ok {r : α} {g' : Guarded} : g.under k body = .ok (r, g') ↔
    ∃ g₁, body (g.lock k) = .ok (r, g₁) ∧ g' = g₁.unlock k := by
  unfold under
  cases body (g.lock k) with
  | error e => simp [bind, Except.bind]
  | ok p =>
    obtain ⟨r', g₁⟩ := p
    simp only [bind, Except.bind, pure, Except.pure, Except.ok.injEq, Prod.mk.injEq]
    constructor
    · rintro ⟨rfl, rfl⟩
      exact ⟨g₁, ⟨rfl, rfl⟩, rfl⟩
    · rintro ⟨_, ⟨rfl, rfl⟩, rfl⟩
      exact ⟨rfl, rfl⟩

@[simp] theorem bare_run : bare (g.run step) = step g.sce := by
  unfold run
  cases step g.sce <;> rfl

@[simp] theorem bare_under : bare (g.under k body) = bare (body (g.lock k)) := by
  unfold under
  cases body (g.lock k) <;> rfl

@[simp] theorem bare_map {β : Type} (x : Except Fault (α × Guarded)) (ψ : α → β) :
    bare (x.map fun r => (ψ r.1, r.2)) = (bare x).map fun r => (ψ r.1, r.2) := by
  cases x <;> rfl

theorem rmcdevLuns_sce (is : List Nat) :
    ∀ g : Guarded, (rmcdevLuns devnum is g).sce = Iostash.rmcdevLuns devnum is g.sce := by
  induction is with
  | nil => exact fun _ => rfl
  | cons i is ih => exact fun g => ih _

theorem bare_sceRmcdev : bare (g.sceRmcdev devnum) = Iostash.sceRmcdev g.sce devnum := by
  unfold sceRmcdev Iostash.sceRmcdev
  cases g.sce.cdevtbl devnum with
  | none => rfl
  | some cdev =>
    simp only
    split
    · rfl
    · simp only [bare_under, run, lock_sce]
      cases freefraglistRmcdev g.sce devnum with
      | error e => rfl
      | ok s => simp [bare, Except.map, bind, Except.bind, pure, Except.pure, rmcdevLuns_sce]

theorem bare_sceGet4pop {past : Nat → Nat → Word} : bare (g.sceGet4pop past) = Iostash.sceGet4pop g.sce past := by
  unfold sceGet4pop Iostash.sceGet4pop
  simp only [bare_under, lock_sce]
  cases choose4population g.sce past with
  | none => rfl
  | some p =>
    obtain ⟨i, f⟩ := p
    simp only [under, run, lock_sce]
    cases alloc4population g.sce i f with
    | error e => rfl
    | ok r =>
      obtain ⟨ret, s⟩ := r
      cases ret <;> rfl

theorem bare_scePut4pop {poptask : Poptask} {failed : Bool} :
    bare (g.scePut4pop poptask failed) = Iostash.scePut4pop g.sce poptask failed := by
  unfold scePut4pop
  cases search : lunSearch g.sce poptask.lunctx with
  | none => simp [bare, Except.map, Iostash.scePut4pop, search]
  | some i => simp

theorem bare_call : bare (g.call op) = g.sce.call op := by
  cases op with
  | rmcdev d => exact (bare_map _ _).trans (congrArg _ bare_sceRmcdev)
  | get4pop past => exact (bare_map _ _).trans (congrArg _ bare_sceGet4pop)
  | put4pop poptask failed => exact (bare_map _ _).trans (congrArg _ bare_scePut4pop)
  | addcdev m ctx vmalloc => simp [call, Sce.call, sceAddcdev]
  | addlun m ctx vmalloc => simp [call, Sce.call, sceAddlun]
  | rmlun i => simp [call, Sce.call, sceRmlun]
  | get4read i x n => simp [call, Sce.call, sceGet4read]
  | put4read i x n => simp [call, Sce.call, scePut4read]
  | invalidate i x n => simp [call, Sce.call, sceInvalidate]

/-- The calls with their locks are the calls of the model. -/
theorem call_sce {reply : Reply} {g' : Guarded} (run : g.call op = .ok (reply, g')) :
    g.sce.call op = .ok (reply, g'.sce) := by
  rw [← bare_call, run]
  rfl

/-! ### The pieces are the whole call -/

variable {r : α} {g' : Guarded}

theorem leads_write (h : Leads s g.past g.sce) : Leads s (g.write φ).past (g.write φ).sce := ⟨rfl, h⟩

theorem leads_run (h : Leads s g.past g.sce) (run : g.run step = .ok (r, g')) : Leads s g'.past g'.sce := by
  obtain ⟨s', _, rfl⟩ := run_eq_ok.mp run
  exact leads_write h

theorem leads_under (h : Leads s g.past g.sce)
    (inner : ∀ g₀ g₁, Leads s g₀.past g₀.sce → body g₀ = .ok (r, g₁) → Leads s g₁.past g₁.sce)
    (run : g.under k body = .ok (r, g')) : Leads s g'.past g'.sce := by
  obtain ⟨g₁, done, rfl⟩ := under_eq_ok.mp run
  exact inner (g.lock k) g₁ h done

theorem leads_rmcdevLuns (is : List Nat) : ∀ g : Guarded, Leads s g.past g.sce →
    Leads s (rmcdevLuns devnum is g).past (rmcdevLuns devnum is g).sce := by
  induction is with
  | nil => exact fun _ h => h
  | cons i is ih =>
    intro g h
    apply ih
    exact ⟨rfl, h⟩

theorem sceRmcdev_leads {r : Ret} (h : Leads s g.past g.sce) (run : g.sceRmcdev devnum = .ok (r, g')) :
    Leads s g'.past g'.sce := by
  unfold sceRmcdev at run
  split at run
  · cases run
    exact h
  · split at run
    · cases run
    · apply leads_under h _ run
      intro g₀ g₁ h₀ done
      obtain ⟨⟨u, g₂⟩, first, rest⟩ := Except.bind_eq_ok done
      cases rest
      exact leads_write (leads_rmcdevLuns (List.range sceMaxLun) g₂ (leads_run h₀ first))

theorem sceGet4pop_leads {past : Nat → Nat → Word} {r : Option Poptask} (h : Leads s g.past g.sce)
    (run : g.sceGet4pop past = .ok (r, g')) : Leads s g'.past g'.sce := by
  apply leads_under h _ run
  intro g₀ g₁ h₀ done
  split at done
  · cases done
    exact h₀
  · obtain ⟨⟨ret, g₂⟩, first, rest⟩ := Except.bind_eq_ok done
    have moved := leads_under h₀ (fun _ _ => leads_run) first
    cases ret <;> cases rest <;> exact moved

theorem scePut4pop_leads {poptask : Poptask} {failed : Bool} {r : Ret} (h : Leads s g.past g.sce)
    (run : g.scePut4pop poptask failed = .ok (r, g')) : Leads s g'.past g'.sce := by
  unfold scePut4pop at run
  split at run
  · cases run
    exact h
  · exact leads_under h (fun _ _ => leads_run) run

/-- The pieces of a call lead from the state before it to the state after it. -/
theorem call_leads {reply : Reply} (run : (enter s).call op = .ok (reply, g')) : Leads s g'.past g'.sce := by
  have first : Leads s (enter s).past (enter s).sce := rfl
  cases op with
  | rmcdev d =>
    obtain ⟨⟨_, g₁⟩, done, same⟩ := Except.map_eq_ok.mp run
    obtain ⟨_, rfl⟩ := Prod.mk.inj same
    exact sceRmcdev_leads first done
  | get4pop past =>
    obtain ⟨⟨_, g₁⟩, done, same⟩ := Except.map_eq_ok.mp run
    obtain ⟨_, rfl⟩ := Prod.mk.inj same
    exact sceGet4pop_leads first done
  | put4pop poptask failed =>
    obtain ⟨⟨_, g₁⟩, done, same⟩ := Except.map_eq_ok.mp run
    obtain ⟨_, rfl⟩ := Prod.mk.inj same
    exact scePut4pop_leads first done
  | rmlun i =>
    obtain ⟨⟨_, g₁⟩, done, same⟩ := Except.map_eq_ok.mp run
    obtain ⟨_, rfl⟩ := Prod.mk.inj same
    exact leads_under first (fun _ _ h => leads_under h fun _ _ => leads_run) done
  | addcdev m ctx vmalloc | addlun m ctx vmalloc =>
    obtain ⟨⟨_, g₁⟩, done, same⟩ := Except.map_eq_ok.mp run
    obtain ⟨_, rfl⟩ := Prod.mk.inj same
    exact leads_under first (fun _ _ => leads_run) done
  | get4read i x n | put4read i x n | invalidate i x n =>
    obtain ⟨⟨_, g₁⟩, done, same⟩ := Except.map_eq_ok.mp run
    obtain ⟨_, rfl⟩ := Prod.mk.inj same
    exact leads_under first (fun _ _ => leads_run) done

end Guarded

end Iostash
