import Iostash.Util.Pool
import Iostash.Client.Pairing

/-!
# The population threads

`pdm.c`: threads that copy missed fragments into the cache, beside the clients that read, write and add
devices and LUNs. A thread takes one step for each call of the engine and each I/O.
-/

namespace Iostash

open Util

/-- `sce_status_t` -/
structure Status where
  nrHit : Nat
  nrMiss : Nat
  nrFreefrag : Nat
  nrTotfrag : Nat
  nrEviction : Nat
  deriving DecidableEq

/-- `sce_get_status`, of a handle and a buffer that are there. -/
def sceGetStatus (s : Sce) : Ret × Status := (.success, ⟨s.nrHit, s.nrMiss, s.nrFreefrag, s.nrFrag, s.nrEviction⟩)

namespace Pdm

/-- `_calc_missrate` -/
def calcMissrate (prev now : Status) : Nat :=
  let hitcnt := if prev.nrHit < now.nrHit then now.nrHit - prev.nrHit else now.nrHit
  let misscnt := if prev.nrMiss < now.nrMiss then now.nrMiss - prev.nrMiss else now.nrMiss
  let total := u32 (hitcnt + misscnt)
  if total ≠ 0 then u32 (misscnt * 100) / total else 0

/-- `_calc_freefragper` -/
def calcFreefragper (st : Status) : Nat :=
  if st.nrTotfrag ≠ 0 then u32 (st.nrFreefrag * 100) / st.nrTotfrag else 0

/-- `pdm_cfg_t` -/
structure Cfg where
  periodMs : Nat
  targetMissrate : Nat
  minFreefragper : Nat

def gpdmcfg : List Cfg :=
  [⟨200, 50, 35⟩, ⟨300, 45, 30⟩, ⟨400, 40, 25⟩, ⟨500, 35, 20⟩,
    ⟨600, 50, 0⟩, ⟨700, 25, 0⟩, ⟨800, 13, 0⟩, ⟨5000, 0, 0⟩]

/-- `SCE_POPCNT` -/
def scePopcnt : Nat := 1024 * 1024 / (sceSctrPerFrag * 512)

/-- What a thread does next. `skip` is the label of that name. -/
inductive Pc where
  | loop
  | getStatus
  | get4pop
  | readPoptask
  | writePoptask
  | put4pop (failed : Bool)
  | skip
  | out
  deriving DecidableEq

/-- The thread works on a population it got. -/
def Pc.holds : Pc → Bool
  | .readPoptask => true
  | .writePoptask => true
  | .put4pop _ => true
  | _ => false

/-- The iteration has done its work. -/
def Pc.done : Pc → Bool
  | .loop => true
  | .skip => true
  | .out => true
  | _ => false

/-- The thread is not inside an iteration. -/
def Pc.outside : Pc → Bool
  | .loop => true
  | .out => true
  | _ => false

/-- `poptask` is the time of the get that filled it. `got` and `put` are the populations the present
iteration got and put. -/
structure Thread where
  cfg : Cfg
  pc : Pc
  curSt : Status
  popcnt : Nat
  poptask : Nat
  got : List Nat
  put : List Nat

def Thread.new (cfg : Cfg) : Thread := ⟨cfg, .loop, ⟨0, 0, 0, 0, 0⟩, 0, 0, [], []⟩

/-- The engine in its run, with the references each LUN holds for reads. -/
structure Engine where
  world : World
  readRefs : Nat → Nat

def Engine.init : Engine := ⟨.init, fun _ => 0⟩

def Engine.exec (e : Engine) (call : Call) : Option (Reply × Engine) :=
  (e.world.exec call).bind fun w => w.log.head?.map fun event =>
    (event.reply, ⟨w, e.world.ledger.nextRefs e.readRefs call event.reply⟩)

/-- What a step meets: whether the thread is to stop, what lies behind a fragment map, whether the I/O
succeeds, and what a client calls. -/
structure Env where
  stop : Bool := false
  past : Nat → Nat → Word := fun _ _ => 0#32
  ok : Bool := true
  call : Call := .rmlun 0

/-- A step of `_pdm_thread`. -/
def Thread.run (t : Thread) (env : Env) (e : Engine) : Option (Engine × Thread) :=
  match t.pc with
  | .loop => if env.stop then some (e, { t with pc := .out })
      else some (e, { t with pc := .getStatus, got := [], put := [] })
  | .getStatus =>
    let (ret, curSt) := sceGetStatus e.world.sce
    if ret ≠ .success then some (e, { t with pc := .skip })
    else if calcFreefragper curSt < t.cfg.minFreefragper then some (e, { t with pc := .skip, curSt := curSt })
    else if calcMissrate t.curSt curSt < t.cfg.targetMissrate then some (e, { t with pc := .skip, curSt := curSt })
    else some (e, { t with pc := .get4pop, curSt := curSt })
  | .get4pop => (e.exec (.get4pop env.past)).map fun (reply, e') =>
    match reply with
    | .poptask (some _) => (e', { t with pc := .readPoptask, poptask := e.world.now, got := e.world.now :: t.got })
    | _ => (e', { t with pc := .skip })
  | .readPoptask => if env.ok then some (e, { t with pc := .writePoptask }) else some (e, { t with pc := .skip })
  | .writePoptask => some (e, { t with pc := .put4pop (!env.ok) })
  | .put4pop failed => (e.exec (.put4pop t.poptask failed)).map fun (_, e') =>
    (e', { t with pc := .skip, put := t.poptask :: t.put })
  | .skip => some (e, { t with pc := .loop, popcnt := if scePopcnt ≤ t.popcnt + 1 then 0 else t.popcnt + 1 })
  | .out => none

/-- A client, or a population thread. -/
inductive Party where
  | client
  | pdm (t : Thread)

def Party.run (party : Party) (env : Env) (e : Engine) : Option (Engine × List Party) :=
  match party with
  | .client => (e.exec env.call).map fun (_, e') => (e', [.client])
  | .pdm t => (t.run env e).map fun (e', t') => (e', [.pdm t'])

abbrev System := Pool Engine Party

def System.exec (p : System) (act : Nat × Env) : Option System := Pool.exec Party.run p act

/-- A client, and a thread for each configuration. -/
def System.start (cfgs : List Cfg) : System := ⟨.init, .client :: cfgs.map fun cfg => .pdm (.new cfg)⟩

/-- Clients leave populations to the threads, remove nothing, and name each LUN anew. -/
def Engine.Permits (e : Engine) : Call → Prop
  | .addlun _ lunctx _ => lunctx ≠ 0 ∧ lunSearch e.world.sce lunctx = none
  | .addcdev _ _ _ => True
  | .get4read _ _ _ => True
  | .put4read _ => True
  | .invalidate _ _ _ => True
  | _ => False

instance (e : Engine) (call : Call) : Decidable (e.Permits call) :=
  match call with
  | .addlun _ lunctx _ => inferInstanceAs (Decidable (lunctx ≠ 0 ∧ lunSearch e.world.sce lunctx = none))
  | .addcdev _ _ _ | .get4read _ _ _ | .put4read _ | .invalidate _ _ _ => .isTrue trivial
  | .rmcdev _ | .rmlun _ | .get4pop _ | .put4pop _ _ => .isFalse id

/-- The clients make calls they are permitted. -/
def Party.Allows (e : Engine) (env : Env) : Party → Prop
  | .client => e.Permits env.call
  | .pdm _ => True

/-- Moreover `read_poptask` succeeds. -/
def Party.Reads (e : Engine) (env : Env) : Party → Prop
  | .client => e.Permits env.call
  | .pdm t => t.pc = .readPoptask → env.ok = true

instance (e : Engine) (env : Env) (party : Party) : Decidable (party.Allows e env) :=
  match party with
  | .client => inferInstanceAs (Decidable (e.Permits env.call))
  | .pdm _ => .isTrue trivial

instance (e : Engine) (env : Env) (party : Party) : Decidable (party.Reads e env) :=
  match party with
  | .client => inferInstanceAs (Decidable (e.Permits env.call))
  | .pdm t => inferInstanceAs (Decidable (t.pc = .readPoptask → env.ok = true))

def System.Allows (p : System) (act : Nat × Env) : Prop := ∀ party ∈ p.threads[act.1]?, party.Allows p.shared act.2

def System.allows (p : System) (act : Nat × Env) : Bool :=
  p.threads[act.1]?.all fun party => decide (party.Allows p.shared act.2)

def System.Reads (p : System) (act : Nat × Env) : Prop := ∀ party ∈ p.threads[act.1]?, party.Reads p.shared act.2

def System.reads (p : System) (act : Nat × Env) : Bool :=
  p.threads[act.1]?.all fun party => decide (party.Reads p.shared act.2)

theorem System.allows_sound {p : System} {act : Nat × Env} (ok : p.allows act = true) : p.Allows act := by
  intro party member
  rw [allows, Option.mem_def.mp member] at ok
  exact of_decide_eq_true ok

theorem System.reads_sound {p : System} {act : Nat × Env} (ok : p.reads act = true) : p.Reads act := by
  intro party member
  rw [reads, Option.mem_def.mp member] at ok
  exact of_decide_eq_true ok

end Pdm

end Iostash
