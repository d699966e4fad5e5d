import Iostash.Sce.Runs

/-!
# The engine and its clients

A run of the API in which every put is given for a get of its own that has not been put yet. The world
keeps the requests between get and put, the calls made so far, and when the present mappings, devices
and LUNs were made; all of it is read off the calls, their replies and the tables before and after.
-/

namespace Iostash

/-- A read between its get and its put; `id` is the time of the get, `addr` the physical fragment its
`out_fmap` names. -/
structure Read where
  id : Nat
  lunidx : Nat
  sctrnum : Nat
  nrSctr : Nat
  addr : Phys
  deriving DecidableEq

/-- A population between its get and its put. -/
structure Pop where
  id : Nat
  task : Poptask
  deriving DecidableEq

/-- What a client does; a put names its get by the time of it. -/
inductive Call where
  | addcdev (nrSctr cdctx : Nat) (vmalloc : Bool)
  | rmcdev (devnum : Nat)
  | addlun (nrSctr lunctx : Nat) (vmalloc : Bool)
  | rmlun (lunidx : Nat)
  | get4read (lunidx sctrnum nrSctr : Nat)
  | put4read (id : Nat)
  | invalidate (lunidx sctrnum nrSctr : Nat)
  | get4pop (past : Nat → Nat → Word)
  | put4pop (id : Nat) (failed : Bool)

structure Event where
  call : Call
  reply : Reply

/-- `log` has the newest event first. -/
structure World where
  sce : Sce
  log : List Event
  born : Nat → Nat → Nat
  plugged : Nat → Nat
  attached : Nat → Nat
  reads : List Read
  pops : List Pop

/-- The fragment of its LUN a read lies in. -/
def Read.fragnum (r : Read) : Nat := u32 (r.sctrnum / sceSctrPerFrag)

/-- The physical fragment an `sce_fmap_t` names. -/
def Sce.locate (s : Sce) (m : Fmap) : Phys := ⟨(cdevSearch s m.cdevctx).getD 0, m.fragnum⟩

namespace World

def init : World := ⟨sceCreate, [], fun _ _ => 0, fun _ => 0, fun _ => 0, [], []⟩

def now (w : World) : Nat := w.log.length

/-- The event of a time. -/
def event (w : World) (t : Nat) : Option Event := w.log.reverse[t]?

/-- The call of the API a client's call is, if the client can make it and its arguments have their types. -/
def op (w : World) : Call → Option Op
  | .addcdev nrSctr cdctx vmalloc => some (.addcdev nrSctr cdctx vmalloc)
  | .rmcdev devnum => some (.rmcdev devnum)
  | .addlun nrSctr lunctx vmalloc => if nrSctr < 2 ^ 64 then some (.addlun nrSctr lunctx vmalloc) else none
  | .rmlun i => some (.rmlun i)
  | .get4read i x n => if x < 2 ^ 64 ∧ n < 2 ^ 32 then some (.get4read i x n) else none
  | .put4read id => (w.reads.find? fun r => r.id == id).map fun r => .put4read r.lunidx r.sctrnum r.nrSctr
  | .invalidate i x n => if x < 2 ^ 64 ∧ n < 2 ^ 32 then some (.invalidate i x n) else none
  | .get4pop past => some (.get4pop past)
  | .put4pop id failed => (w.pops.find? fun p => p.id == id).map fun p => .put4pop p.task failed

def nextReads (w : World) (s' : Sce) : Call → Reply → List Read
  | .get4read i x n, .fmap (some m) => ⟨w.now, i, x, n, s'.locate m⟩ :: w.reads
  | .put4read id, _ => w.reads.eraseP fun r => r.id == id
  | _, _ => w.reads

def nextPops (w : World) : Call → Reply → List Pop
  | .get4pop _, .poptask (some t) => ⟨w.now, t⟩ :: w.pops
  | .put4pop id _, _ => w.pops.eraseP fun p => p.id == id
  | _, _ => w.pops

/-- The world after a call that returned. -/
def next (w : World) (call : Call) (reply : Reply) (s' : Sce) : World :=
  { sce := s'
    log := ⟨call, reply⟩ :: w.log
    born := fun i f => if s'.place i f ≠ none ∧ s'.place i f ≠ w.sce.place i f then w.now else w.born i f
    plugged := fun d => if s'.dev d ≠ none ∧ w.sce.dev d = none then w.now else w.plugged d
    attached := fun i => if s'.luntbl i ≠ none ∧ w.sce.luntbl i = none then w.now else w.attached i
    reads := w.nextReads s' call reply
    pops := w.nextPops call reply }

/-- A call that does not return ends the run. -/
def exec (w : World) (call : Call) : Option World :=
  (w.op call).bind fun op =>
    match w.sce.call op with
    | .error _ => none
    | .ok (reply, s') => some (w.next call reply s')

variable {w w' : World} {call : Call} {t : Nat}

theorem exec_eq_some : w.exec call = some w' ↔
    ∃ op reply s', w.op call = some op ∧ w.sce.call op = .ok (reply, s') ∧ w' = w.next call reply s' := by
  unfold exec
  cases w.op call with
  | none => simp
  | some op =>
    cases run : w.sce.call op with
    | error e => simp [run]
    | ok r =>
      obtain ⟨reply, s'⟩ := r
      simp [run, eq_comm]

/-- The world a list of calls of any client leads to. -/
def after (calls : List Call) : World := (Util.execAll exec (fun _ _ => true) init calls).getD init

theorem after_reachable {calls : List Call} (ok : (Util.execAll exec (fun _ _ => true) init calls).isSome = true) :
    Util.Reachable exec (fun _ _ => True) init (after calls) :=
  Util.reachable_getD (fun _ _ _ => trivial) ok

/-! ### The log -/

theorem event_next {reply : Reply} {s' : Sce} : (w.next call reply s').event t =
    if t = w.now then some ⟨call, reply⟩ else w.event t := by
  unfold event next now
  rw [List.reverse_cons, List.getElem?_append, List.length_reverse]
  split
  · rw [if_neg (by omega)]
  · rename_i ge
    split
    · rename_i e
      simp [e]
    · rw [List.getElem?_eq_none (by simp only [List.length_singleton]; omega),
        List.getElem?_eq_none (by simp only [List.length_reverse]; omega)]

theorem event_lt {e : Event} (h : w.event t = some e) : t < w.now := by
  have lt := (List.getElem?_eq_some_iff.mp h).1
  rwa [List.length_reverse] at lt

theorem event_ext {reply : Reply} {s' : Sce} {e : Event} : (w.next call reply s').event t = some e ↔
    w.event t = some e ∨ t = w.now ∧ e = ⟨call, reply⟩ := by
  rw [event_next]
  split
  · rename_i now
    subst now
    constructor
    · intro h
      exact Or.inr ⟨rfl, (Option.some.inj h).symm⟩
    · rintro (h | ⟨_, rfl⟩)
      · exact absurd (event_lt h) (Nat.lt_irrefl _)
      · rfl
  · rename_i ne
    exact ⟨Or.inl, fun h => h.resolve_right fun e => ne e.1⟩

end World

end Iostash
