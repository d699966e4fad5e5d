import Iostash.Hook.Request

/-!
# The life of a read request

Of the threads of a request at most one has more to do than give back a reference. What it has come to
determines the fields of the request, and together with the others how many references are out.
-/

namespace Iostash

open Util

variable {fate : Fate} {legacy : Bool}

/-- The thread has only a reference left to give back. -/
def Thread.isTail : Thread → Bool
  | .ioWorkerEnd => true
  | .endioEnd => true
  | _ => false

def Thread.busy (t : Thread) : Nat := if t.isTail then 0 else 1

def Thread.tail (t : Thread) : Nat := if t.isTail then 1 else 0

namespace Fate

/-- The read is submitted to the SSD. -/
def reads (fate : Fate) : Prop := fate.clone4ssd = true ∧ fate.cloneOnline = true

/-- The SSD has failed to read, and the HDD is tried. -/
def retries (fate : Fate) : Prop := fate.reads ∧ fate.ssdError ≠ 0

/-- The SSD has gone offline, and the HDD is asked at once. -/
def flows (fate : Fate) : Prop := fate.clone4ssd = true ∧ fate.cloneOnline = false

/-- The calls of `sce_put4read` once every thread has done its part. -/
def putsAtEnd (fate : Fate) : List (Nat × Nat) :=
  if fate.clone4ssd && (!fate.cloneOnline || fate.ssdError == 0) then [(fate.bio.psn, fate.bio.nrSctr)] else []

/-- `io->error` once every thread has done its part. -/
def errorAtEnd (fate : Fate) : Int :=
  if fate.clone4ssd then
    if fate.cloneOnline && fate.ssdError == 0 then 0 else if fate.clone4hdd then fate.hddError else -enomem
  else -enomem

/-- The HDD clone that is no retry gives back a reference nobody took. -/
def overdrawn (fate : Fate) : Prop := fate.flows ∧ fate.clone4hdd = true

/-- The references never given back: the one taken for a retry that gets no clone. -/
def leak (fate : Fate) : Nat :=
  if fate.clone4ssd && fate.cloneOnline && fate.ssdError != 0 && !fate.clone4hdd then 1 else 0

/-- A clone completes without error. -/
def servedAtEnd (fate : Fate) : Bool :=
  fate.clone4ssd && (fate.cloneOnline && fate.ssdError == 0 || fate.clone4hdd && fate.hddError == 0)

end Fate

/-- What the one thread that is not at its end has come to: the fields of the request, `refs` references
of its own, and `tails` other threads. -/
def Thread.At (fate : Fate) (io : Request) (refs : Int) (tails : Nat) : Thread → Prop
  | .mkrequest => False
  | .mkrequestOut => False
  | .ioWorker => io.served = false ∧ io.puts = [] ∧
      (io.error = 0 ∧ refs = 0 ∧ tails = 0 ∨ fate.retries ∧ io.error = fate.ssdError ∧ refs = 1)
  | .firstTrial => io.served = false ∧ io.puts = [] ∧
      (io.error = 0 ∧ refs = 1 ∨ fate.retries ∧ io.error = fate.ssdError ∧ refs = 2)
  | .incPending4ssd => io.served = false ∧ io.puts = [] ∧ fate.reads ∧ refs = 1
  | .submit4ssd => io.served = false ∧ io.puts = [] ∧ fate.reads ∧ refs = 2
  | .flowToHdd => io.served = false ∧ io.puts = [] ∧ fate.flows ∧ refs = 1
  | .clone4hdd => io.served = false ∧ (fate.retries ∧ io.puts = [] ∧ refs = 2 ∨
      fate.flows ∧ io.puts = [(io.psn, io.nrSctr)] ∧ refs = 1)
  | .submit4hdd => io.served = false ∧ fate.clone4hdd = true ∧ (fate.retries ∧ io.puts = [] ∧ refs = 3 ∨
      fate.flows ∧ io.puts = [(io.psn, io.nrSctr)] ∧ refs = 2)
  | .ioWorkerEnd => False
  | .endio4ssd => io.served = false ∧ io.puts = [] ∧ fate.reads ∧ refs = 1
  | .ssdReadError => io.served = false ∧ io.puts = [] ∧ fate.retries ∧ io.error = fate.ssdError ∧ refs = 1
  | .ioQueue => io.served = false ∧ io.puts = [] ∧ fate.retries ∧ io.error = fate.ssdError ∧ refs = 2
  | .ssdReadDone => io.served = true ∧ io.puts = [] ∧ fate.reads ∧ fate.ssdError = 0 ∧ io.error = 0 ∧ refs = 1
  | .endio4hdd => io.served = false ∧ fate.clone4hdd = true ∧ (fate.retries ∧ io.puts = [] ∧ refs = 2 ∨
      fate.flows ∧ io.puts = [(io.psn, io.nrSctr)] ∧ refs = 1)
  | .retriedHddRead => io.served = (fate.hddError == 0) ∧ io.error = fate.hddError ∧ fate.clone4hdd = true ∧
      (fate.retries ∧ io.puts = [] ∧ refs = 2 ∨ fate.flows ∧ io.puts = [(io.psn, io.nrSctr)] ∧ refs = 1)
  | .endioEnd => False

/-- The fields are as every run leaves them. -/
structure Request.Done (fate : Fate) (io : Request) : Prop where
  error : io.error = fate.errorAtEnd
  puts : io.puts = fate.putsAtEnd
  served : io.served = fate.servedAtEnd

/-- What holds of a request from `_io_alloc` on. -/
structure Hook.Inv (fate : Fate) (legacy : Bool) (hook : Hook) : Prop where
  range : hook.shared.psn = fate.bio.psn ∧ hook.shared.nrSctr = fate.bio.nrSctr
  kept : hook.shared.handed = false
  single : hook.total Thread.busy ≤ 1
  now : ∀ t ∈ hook.threads, t.isTail = false → hook.shared.endios = [] ∧ hook.shared.released = 0 ∧
    t.At fate hook.shared (hook.shared.ioPending - hook.total Thread.tail) (hook.total Thread.tail)
  done : hook.total Thread.busy = 0 → hook.shared.Done fate
  ends : ∀ st ∈ hook.shared.endios, st = if legacy then hook.shared.error else 0

theorem Hook.inv_created : (Hook.created fate).Inv fate legacy := by
  refine ⟨⟨rfl, rfl⟩, rfl, by simp [created, Pool.total, Thread.busy, Thread.isTail], ?_, ?_, ?_⟩
  · intro t member _
    obtain rfl := List.mem_singleton.mp member
    refine ⟨rfl, rfl, rfl, rfl, Or.inl ⟨rfl, ?_, ?_⟩⟩
    · simp [created, Request.ioAlloc, Pool.total, Thread.tail, Thread.isTail]
    · simp [created, Pool.total, Thread.tail, Thread.isTail]
  · intro none
    simp [created, Pool.total, Thread.busy, Thread.isTail] at none
  · intro st member
    cases member

/-! ### One step -/

namespace Request

variable {io : Request}

theorem decPending_stays (io : Request) (legacy : Bool) (more : io.ioPending - 1 ≠ 0) :
    io.decPending legacy = { io with ioPending := io.ioPending - 1 } := by
  rw [decPending, if_neg more]

theorem decPending_zero (io : Request) (legacy : Bool) (last : io.ioPending - 1 = 0) :
    io.decPending legacy = release legacy { io with ioPending := io.ioPending - 1 } := by
  rw [decPending, if_pos last]

/-- Giving back a reference changes nothing but the count, and what the release writes. -/
theorem decPending_same (io : Request) (legacy : Bool) : (io.decPending legacy).psn = io.psn ∧
    (io.decPending legacy).nrSctr = io.nrSctr ∧
    (io.decPending legacy).error = io.error ∧ (io.decPending legacy).puts = io.puts ∧
    (io.decPending legacy).served = io.served ∧ (io.decPending legacy).handed = io.handed ∧
    (io.decPending legacy).ioPending = io.ioPending - 1 := by
  unfold decPending
  split <;> exact ⟨rfl, rfl, rfl, rfl, rfl, rfl, rfl⟩

theorem decPending_ends {st : Int} (ends : ∀ st ∈ io.endios, st = if legacy then io.error else 0)
    (member : st ∈ (io.decPending legacy).endios) : st = if legacy then io.error else 0 := by
  unfold decPending at member
  split at member
  · rcases List.mem_cons.mp member with rfl | old
    · rfl
    · exact ends st old
  · exact ends st member

end Request

/-- How a busy thread goes on: as one busy thread with perhaps a new one at its end, or it comes to its end
and leaves the fields as they stay. -/
inductive Thread.Goes (fate : Fate) (legacy : Bool) (tails : Nat) : Request → List Thread → Prop
  | on {io : Request} {t : Thread} {rest : List Thread} (busy : t.isTail = false)
      (ending : ∀ u ∈ rest, u.isTail = true) (open_ : io.endios = [] ∧ io.released = 0)
      (here : t.At fate io (io.ioPending - (tails + rest.length : Nat)) (tails + rest.length)) :
      Goes fate legacy tails io (t :: rest)
  | ended {io : Request} {t : Thread} (ending : t.isTail = true) (done : io.Done fate)
      (ends : ∀ st ∈ io.endios, st = if legacy then io.error else 0)
      (fair : ¬ fate.overdrawn → io.endios = [] ∧ io.released = 0 ∧ io.ioPending = tails + 1 + fate.leak) :
      Goes fate legacy tails io [t]

theorem Thread.run_goes (legacy : Bool) {t : Thread} {io : Request} {refs : Int} {tails : Nat}
    (range : io.psn = fate.bio.psn ∧ io.nrSctr = fate.bio.nrSctr) (open_ : io.endios = [] ∧ io.released = 0)
    (count : io.ioPending = refs + tails) (here : t.At fate io refs tails) :
    Goes fate legacy tails (t.run fate legacy io).1 (t.run fate legacy io).2 ∧
      (t.run fate legacy io).1.psn = io.psn ∧ (t.run fate legacy io).1.nrSctr = io.nrSctr ∧
      (t.run fate legacy io).1.handed = io.handed := by
  have never : ∀ st ∈ io.endios, st = if legacy then io.error else 0 := by
    rw [open_.1]
    intro st member
    cases member
  -- the references a thread has after taking one, or not
  have more : ∀ n : Nat, io.incPending.ioPending - (tails + n : Nat) = refs + 1 - n := by
    intro n
    simp only [Request.incPending]
    omega
  have same : ∀ n : Nat, io.ioPending - (tails + n : Nat) = refs - n := by
    intro n
    omega
  cases t with
  | mkrequest | mkrequestOut | ioWorkerEnd | endioEnd => exact here.elim
  | ioWorker =>
    refine ⟨.on rfl (by simp) open_ ?_, rfl, rfl, rfl⟩
    obtain ⟨served, puts, ⟨error, rfl, _⟩ | ⟨retry, error, rfl⟩⟩ := here
    · exact ⟨served, puts, Or.inl ⟨error, more 0⟩⟩
    · exact ⟨served, puts, Or.inr ⟨retry, error, more 0⟩⟩
  | firstTrial =>
    obtain ⟨served, puts, ⟨error, rfl⟩ | ⟨retry, error, rfl⟩⟩ := here
    · cases clone : fate.clone4ssd with
      | false =>
        have step : run fate legacy io .firstTrial = ({ io with error := -enomem }, [.ioWorkerEnd]) := by
          simp [run, error, clone]
        rw [step]
        refine ⟨.ended rfl ⟨?_, ?_, ?_⟩ (by simp [open_.1])
          fun _ => ⟨open_.1, open_.2, by simp [Fate.leak, clone, count, Int.add_comm]⟩, rfl, rfl, rfl⟩
        · simp [Fate.errorAtEnd, clone]
        · simp [Fate.putsAtEnd, clone, puts]
        · simp [Fate.servedAtEnd, clone, served]
      | true =>
        cases online : fate.cloneOnline with
        | false =>
          have step : run fate legacy io .firstTrial = (io, [.flowToHdd]) := by simp [run, error, clone, online]
          rw [step]
          exact ⟨.on rfl (by simp) open_ ⟨served, puts, ⟨clone, online⟩, same 0⟩, rfl, rfl, rfl⟩
        | true =>
          have step : run fate legacy io .firstTrial = (io, [.incPending4ssd]) := by simp [run, error, clone, online]
          rw [step]
          exact ⟨.on rfl (by simp) open_ ⟨served, puts, ⟨clone, online⟩, same 0⟩, rfl, rfl, rfl⟩
    · have step : run fate legacy io .firstTrial = (io, [.clone4hdd]) := by simp [run, error, retry.2]
      rw [step]
      exact ⟨.on rfl (by simp) open_ ⟨served, Or.inl ⟨retry, puts, same 0⟩⟩, rfl, rfl, rfl⟩
  | incPending4ssd =>
    obtain ⟨served, puts, reads, rfl⟩ := here
    exact ⟨.on rfl (by simp) open_ ⟨served, puts, reads, more 0⟩, rfl, rfl, rfl⟩
  | submit4ssd =>
    obtain ⟨served, puts, reads, rfl⟩ := here
    exact ⟨.on rfl (by simp [isTail]) open_ ⟨served, puts, reads, same 1⟩, rfl, rfl, rfl⟩
  | flowToHdd =>
    obtain ⟨served, puts, flows, rfl⟩ := here
    have put : (io.put4read io.psn io.nrSctr).puts = [(io.psn, io.nrSctr)] := by rw [Request.put4read, puts]
    exact ⟨.on rfl (by simp) open_ ⟨served, Or.inr ⟨flows, put, same 0⟩⟩, rfl, rfl, rfl⟩
  | clone4hdd =>
    obtain ⟨served, way⟩ := here
    cases clone : fate.clone4hdd with
    | true =>
      have step : run fate legacy io .clone4hdd = (io.incPending, [.submit4hdd]) := by simp [run, clone]
      rw [step]
      refine ⟨.on rfl (by simp) open_ ⟨served, clone, ?_⟩, rfl, rfl, rfl⟩
      rcases way with ⟨retry, puts, rfl⟩ | ⟨flows, puts, rfl⟩
      · exact Or.inl ⟨retry, puts, more 0⟩
      · exact Or.inr ⟨flows, puts, more 0⟩
    | false =>
      have step : run fate legacy io .clone4hdd = ({ io with error := -enomem }, [.ioWorkerEnd]) := by
        simp [run, clone]
      rw [step]
      refine ⟨.ended rfl ?_ (by simp [open_.1]) fun _ => ⟨open_.1, open_.2, ?_⟩, rfl, rfl, rfl⟩
      · rcases way with ⟨⟨⟨ssd, online⟩, failed⟩, puts, _⟩ | ⟨⟨ssd, offline⟩, puts, _⟩
        · refine ⟨?_, ?_, ?_⟩
          · simp [Fate.errorAtEnd, ssd, online, failed, clone]
          · simp [Fate.putsAtEnd, ssd, online, failed, puts]
          · simp [Fate.servedAtEnd, ssd, online, failed, clone, served]
        · refine ⟨?_, ?_, ?_⟩
          · simp [Fate.errorAtEnd, ssd, offline, clone]
          · simp [Fate.putsAtEnd, ssd, offline, puts, range]
          · simp [Fate.servedAtEnd, ssd, offline, clone, served]
      · rcases way with ⟨⟨⟨ssd, online⟩, failed⟩, _, rfl⟩ | ⟨⟨_, offline⟩, _, rfl⟩
        · have leak : fate.leak = 1 := by simp [Fate.leak, ssd, online, failed, clone]
          simp only [leak]
          omega
        · have leak : fate.leak = 0 := by simp [Fate.leak, offline]
          simp only [leak]
          omega
  | submit4hdd =>
    obtain ⟨served, clone, way⟩ := here
    refine ⟨.on rfl (by simp [isTail]) open_ ⟨served, clone, ?_⟩, rfl, rfl, rfl⟩
    rcases way with ⟨retry, puts, rfl⟩ | ⟨flows, puts, rfl⟩
    · exact Or.inl ⟨retry, puts, same 1⟩
    · exact Or.inr ⟨flows, puts, same 1⟩
  | endio4ssd =>
    obtain ⟨served, puts, reads, rfl⟩ := here
    by_cases failed : fate.ssdError = 0
    · have step : run fate legacy io .endio4ssd = ({ io with error := 0, served := true }, [.ssdReadDone]) := by
        simp [run, failed]
      rw [step]
      exact ⟨.on rfl (by simp) open_ ⟨rfl, puts, reads, failed, rfl, same 0⟩, rfl, rfl, rfl⟩
    · have step : run fate legacy io .endio4ssd = ({ io with error := fate.ssdError }, [.ssdReadError]) := by
        simp [run, failed]
      rw [step]
      exact ⟨.on rfl (by simp) open_ ⟨served, puts, ⟨reads, failed⟩, rfl, same 0⟩, rfl, rfl, rfl⟩
  | ssdReadError =>
    obtain ⟨served, puts, retry, error, rfl⟩ := here
    exact ⟨.on rfl (by simp) open_ ⟨served, puts, retry, error, more 0⟩, rfl, rfl, rfl⟩
  | ioQueue =>
    obtain ⟨served, puts, retry, error, rfl⟩ := here
    exact ⟨.on rfl (by simp [isTail]) open_ ⟨served, puts, Or.inr ⟨retry, error, same 1⟩⟩, rfl, rfl, rfl⟩
  | ssdReadDone =>
    obtain ⟨served, puts, ⟨ssd, online⟩, good, error, rfl⟩ := here
    refine ⟨.ended rfl ⟨?_, ?_, ?_⟩ never fun _ => ⟨open_.1, open_.2, ?_⟩, rfl, rfl, rfl⟩
    · simp [run, Fate.errorAtEnd, Request.put4read, ssd, online, good, error]
    · simp [run, Fate.putsAtEnd, Request.put4read, ssd, good, puts, range]
    · simp [run, Fate.servedAtEnd, Request.put4read, ssd, online, good, served]
    · simp [run, Fate.leak, Request.put4read, good, count, Int.add_comm]
  | endio4hdd =>
    obtain ⟨served, clone, way⟩ := here
    refine ⟨.on rfl (by simp) open_ ⟨by simp [run, served], rfl, clone, ?_⟩, rfl, rfl, rfl⟩
    rcases way with ⟨retry, puts, rfl⟩ | ⟨flows, puts, rfl⟩
    · exact Or.inl ⟨retry, puts, same 0⟩
    · exact Or.inr ⟨flows, puts, same 0⟩
  | retriedHddRead =>
    obtain ⟨served, error, clone, way⟩ := here
    obtain ⟨psn, nrSctr, error', puts', served', handed, _⟩ := io.decPending_same legacy
    refine ⟨.ended rfl ?_ (fun st member => ?_) fun fair => ?_, psn, nrSctr, handed⟩
    · rcases way with ⟨⟨⟨ssd, online⟩, failed⟩, puts, _⟩ | ⟨⟨ssd, offline⟩, puts, _⟩
      · refine ⟨error'.trans ?_, puts'.trans ?_, served'.trans ?_⟩
        · simp [Fate.errorAtEnd, ssd, online, failed, clone, error]
        · simp [Fate.putsAtEnd, ssd, online, failed, puts]
        · simp [Fate.servedAtEnd, ssd, online, failed, clone, served]
      · refine ⟨error'.trans ?_, puts'.trans ?_, served'.trans ?_⟩
        · simp [Fate.errorAtEnd, ssd, offline, clone, error]
        · simp [Fate.putsAtEnd, ssd, offline, puts, range]
        · simp [Fate.servedAtEnd, ssd, offline, clone, served]
    · show st = if legacy then (io.decPending legacy).error else 0
      rw [error']
      exact Request.decPending_ends never member
    · rcases way with ⟨_, _, rfl⟩ | ⟨flows, _⟩
      · have stays := io.decPending_stays legacy (by omega)
        show (io.decPending legacy).endios = [] ∧ (io.decPending legacy).released = 0 ∧
            (io.decPending legacy).ioPending = _
        have leak : fate.leak = 0 := by simp [Fate.leak, clone]
        rw [stays, leak]
        exact ⟨open_.1, open_.2, by simp only; omega⟩
      · exact absurd ⟨flows, clone⟩ fair

theorem Thread.run_tail {t : Thread} {io : Request} (tail : t.isTail = true) :
    t.run fate legacy io = (io.decPending legacy, []) := by
  cases t <;> first | rfl | cases tail

/-- A busy thread that is not alone holds a reference. -/
theorem Thread.At.refs_pos {t : Thread} {io : Request} {refs : Int} {tails : Nat} (here : t.At fate io refs tails)
    (some : 0 < tails) : 1 ≤ refs := by
  cases t <;> simp only [At] at here <;> omega

/-- Only the fields of the request matter, and that a thread that is alone stays so. -/
theorem Thread.At.congr {t : Thread} {io io' : Request} {refs : Int} {tails tails' : Nat}
    (here : t.At fate io refs tails) (error : io'.error = io.error) (puts : io'.puts = io.puts)
    (served : io'.served = io.served) (psn : io'.psn = io.psn) (nrSctr : io'.nrSctr = io.nrSctr)
    (some : 0 < tails) : t.At fate io' refs tails' := by
  cases t with
  | mkrequest | mkrequestOut | ioWorkerEnd | endioEnd => exact here.elim
  | ioWorker =>
    obtain ⟨good, none, ⟨_, _, alone⟩ | ⟨retry, failed, held⟩⟩ := here
    · omega
    · exact ⟨served.trans good, puts.trans none, Or.inr ⟨retry, error.trans failed, held⟩⟩
  | _ => simpa only [At, error, puts, served, psn, nrSctr] using here

theorem Thread.sum_of_tails {others : List Thread} (tails : ∀ u ∈ others, u.isTail = true) :
    (others.map busy).sum = 0 ∧ (others.map tail).sum = others.length := by
  induction others with
  | nil => exact ⟨rfl, rfl⟩
  | cons u rest ih =>
    obtain ⟨none, all⟩ := ih fun v member => tails v (List.mem_cons_of_mem u member)
    have here := tails u List.mem_cons_self
    simp [none, all, busy, tail, here, Nat.add_comm]

theorem Thread.tails_of_sum {others : List Thread} (none : (others.map busy).sum = 0) :
    ∀ u ∈ others, u.isTail = true := by
  intro u member
  have zero : u.busy = 0 := List.sum_eq_zero_iff.mp none _ (List.mem_map_of_mem member)
  by_contra busy
  rw [Thread.busy, if_neg busy] at zero
  cases zero

theorem Hook.Inv.step {hook hook' : Hook} {k : Nat} (h : hook.Inv fate legacy)
    (moves : hook.exec fate legacy k = some hook') : hook'.Inv fate legacy := by
  obtain ⟨t, new, others, _, ran, m⟩ := Pool.exec_moves moves
  have ran : t.run fate legacy hook.shared = (hook'.shared, new) := Option.some.inj ran
  have single := h.single
  rw [m.before] at single
  cases tail : t.isTail with
  | true =>
    rw [Thread.run_tail tail] at ran
    obtain ⟨shared, rfl⟩ := Prod.mk.inj ran
    obtain ⟨psn, nrSctr, error, puts, served, handed, pending⟩ := hook.shared.decPending_same legacy
    rw [shared] at psn nrSctr error puts served handed pending
    have busy₀ := m.before Thread.busy
    have busy₁ := m.after Thread.busy
    have tails₀ := m.before Thread.tail
    have tails₁ := m.after Thread.tail
    have none : t.busy = 0 := by simp [Thread.busy, tail]
    have one : t.tail = 1 := by simp [Thread.tail, tail]
    simp only [List.map_nil, List.sum_nil] at busy₁ tails₁
    refine ⟨⟨psn.trans h.range.1, nrSctr.trans h.range.2⟩, handed.trans h.kept, by omega, ?_, ?_, ?_⟩
    · intro u member busy
      have other : u ∈ others := ((m.mem' u).mp member).resolve_left List.not_mem_nil
      obtain ⟨quiet, kept, here⟩ := h.now u ((m.mem u).mpr (Or.inr other)) busy
      have refs := here.refs_pos (by omega)
      have stays := hook.shared.decPending_stays legacy (by omega)
      rw [shared] at stays
      refine ⟨by rw [stays]; exact quiet, by rw [stays]; exact kept, ?_⟩
      have held : hook'.shared.ioPending - hook'.total Thread.tail = hook.shared.ioPending - hook.total Thread.tail := by
        omega
      rw [held]
      exact here.congr error puts served psn nrSctr (by omega)
    · intro all
      have done := h.done (by omega)
      exact ⟨error.trans done.error, puts.trans done.puts, served.trans done.served⟩
    · intro st member
      rw [error]
      rw [← shared] at member
      exact Request.decPending_ends h.ends member
  | false =>
    have weighs : t.busy = 1 := by simp [Thread.busy, tail]
    have quiet : (others.map Thread.busy).sum = 0 := by omega
    have tails := Thread.tails_of_sum quiet
    have length := (Thread.sum_of_tails tails).2
    have before := m.before Thread.tail
    have none : t.tail = 0 := by simp [Thread.tail, tail]
    obtain ⟨open_, kept, here⟩ := h.now t ((m.mem t).mpr (Or.inl rfl)) tail
    obtain ⟨goes, psn, nrSctr, handed⟩ := Thread.run_goes legacy h.range ⟨open_, kept⟩ (by omega) here
    rw [ran] at goes psn nrSctr handed
    have range := And.intro (psn.trans h.range.1) (nrSctr.trans h.range.2)
    have handed := handed.trans h.kept
    have busy₁ := m.after Thread.busy
    have tails₁ := m.after Thread.tail
    have goes : Thread.Goes fate legacy (hook.total Thread.tail) hook'.shared new := goes
    cases goes with
    | @on t' rest busy ending open' here' =>
      obtain ⟨idle, ended⟩ := Thread.sum_of_tails ending
      have one : t'.busy = 1 := by simp [Thread.busy, busy]
      have zero : t'.tail = 0 := by simp [Thread.tail, busy]
      simp only [List.map_cons, List.sum_cons] at busy₁ tails₁
      have total : hook'.total Thread.tail = hook.total Thread.tail + rest.length := by omega
      refine ⟨range, handed, by omega, ?_, by omega, ?_⟩
      · intro u member turning
        -- the thread that goes on is the only one that is not at its end
        obtain rfl : u = t' := by
          rcases (m.mem' u).mp member with new | other
          · exact (List.mem_cons.mp new).resolve_right fun e => by rw [ending u e] at turning; cases turning
          · rw [tails u other] at turning
            cases turning
        refine ⟨open'.1, open'.2, ?_⟩
        rw [total]
        exact here'
      · rw [open'.1]
        intro st member
        cases member
    | @ended t' ending done ends _ =>
      have zero : t'.busy = 0 := by simp [Thread.busy, ending]
      simp only [List.map_cons, List.map_nil, List.sum_cons, List.sum_nil] at busy₁
      refine ⟨range, handed, by omega, ?_, fun _ => done, ends⟩
      intro u member turning
      have all := Pool.total_eq_zero.mp (show hook'.total Thread.busy = 0 by omega) u member
      rw [Thread.busy, turning] at all
      cases all

/-! ### What the count is at the end -/

/-- With every busy thread gone the count is that of the threads left, and of the references leaked. -/
def Hook.Fair (fate : Fate) (hook : Hook) : Prop :=
  hook.total Thread.busy = 0 →
    hook.shared.released = 0 ∧ hook.shared.endios = [] ∧
      hook.shared.ioPending = hook.total Thread.tail + fate.leak ∧ 0 < hook.shared.ioPending ∨
    fate.leak = 0 ∧ hook.shared.released = 1 ∧ hook.shared.endios.length = 1 ∧ hook.shared.ioPending = 0 ∧
      hook.threads = []

theorem Hook.Fair.step {hook hook' : Hook} {k : Nat} (even : ¬ fate.overdrawn) (h : hook.Inv fate legacy)
    (fair : hook.Fair fate) (moves : hook.exec fate legacy k = some hook') : hook'.Fair fate := by
  obtain ⟨t, new, others, _, ran, m⟩ := Pool.exec_moves moves
  have ran : t.run fate legacy hook.shared = (hook'.shared, new) := Option.some.inj ran
  have member : t ∈ hook.threads := (m.mem t).mpr (Or.inl rfl)
  intro idle
  have busy₀ := m.before Thread.busy
  have busy₁ := m.after Thread.busy
  have tails₀ := m.before Thread.tail
  have tails₁ := m.after Thread.tail
  cases tail : t.isTail with
  | true =>
    rw [Thread.run_tail tail] at ran
    obtain ⟨shared, rfl⟩ := Prod.mk.inj ran
    have none : t.busy = 0 := by simp [Thread.busy, tail]
    have one : t.tail = 1 := by simp [Thread.tail, tail]
    simp only [List.map_nil, List.sum_nil] at busy₁ tails₁
    have gone := Thread.tails_of_sum (show (others.map Thread.busy).sum = 0 by omega)
    have length := (Thread.sum_of_tails gone).2
    rcases fair (by omega) with ⟨kept, open_, count, pos⟩ | ⟨_, _, _, _, empty⟩
    · rw [← shared]
      by_cases last : hook.shared.ioPending - 1 = 0
      · rw [hook.shared.decPending_zero legacy last]
        have alone : others = [] := List.eq_nil_of_length_eq_zero (by omega)
        subst alone
        refine Or.inr ⟨by omega, by simp [Request.release, kept], by simp [Request.release, open_], last, ?_⟩
        exact List.eq_nil_iff_forall_not_mem.mpr fun u here => by simpa using (m.mem' u).mp here
      · rw [hook.shared.decPending_stays legacy last]
        exact Or.inl ⟨kept, open_, by simp only; omega, by simp only; omega⟩
    · rw [empty] at member
      cases member
  | false =>
    have single := h.single
    have weighs : t.busy = 1 := by simp [Thread.busy, tail]
    have zero : t.tail = 0 := by simp [Thread.tail, tail]
    obtain ⟨open_, kept, here⟩ := h.now t member tail
    obtain ⟨goes, _⟩ := Thread.run_goes legacy h.range ⟨open_, kept⟩ (by omega) here
    rw [ran] at goes
    have goes : Thread.Goes fate legacy (hook.total Thread.tail) hook'.shared new := goes
    cases goes with
    | @on t' rest busy =>
      have one : t'.busy = 1 := by simp [Thread.busy, busy]
      simp only [List.map_cons, List.sum_cons] at busy₁
      omega
    | @ended t' ending _ _ fair =>
      obtain ⟨open', kept', count⟩ := fair even
      have one : t'.tail = 1 := by simp [Thread.tail, ending]
      simp only [List.map_cons, List.map_nil, List.sum_cons, List.sum_nil] at tails₁
      exact Or.inl ⟨kept', open', by omega, by omega⟩

theorem Hook.fair_created : (Hook.created fate).Fair fate := by
  intro none
  simp [created, Pool.total, Thread.busy, Thread.isTail] at none

/-! ### The steps left -/

/-- A bound on the steps of a thread and of those it starts. -/
def Thread.left (error : Int) : Thread → Nat
  | .mkrequest => 18
  | .mkrequestOut => 1
  | .ioWorker => if error = 0 then 17 else 8
  | .firstTrial => if error = 0 then 16 else 7
  | .incPending4ssd => 15
  | .submit4ssd => 14
  | .endio4ssd => 12
  | .ssdReadError => 11
  | .ioQueue => 10
  | .flowToHdd => 7
  | .clone4hdd => 6
  | .submit4hdd => 5
  | .endio4hdd => 3
  | .retriedHddRead => 2
  | .ssdReadDone => 2
  | .ioWorkerEnd => 1
  | .endioEnd => 1

theorem Thread.run_left (legacy : Bool) {t : Thread} {io : Request} {refs : Int} {tails : Nat}
    (here : t.At fate io refs tails) :
    ((t.run fate legacy io).2.map (left (t.run fate legacy io).1.error)).sum < t.left io.error := by
  cases t with
  | mkrequest | mkrequestOut | ioWorkerEnd | endioEnd => exact here.elim
  | ioWorker =>
    by_cases first : io.error = 0 <;> simp [run, left, Request.incPending, first]
  | firstTrial =>
    by_cases first : io.error = 0
    · cases clone : fate.clone4ssd <;> cases online : fate.cloneOnline <;> simp [run, left, first, clone, online]
    · simp [run, left, first]
  | clone4hdd =>
    cases clone : fate.clone4hdd <;> simp [run, left, clone]
  | endio4ssd =>
    by_cases good : fate.ssdError = 0 <;> simp [run, left, good]
  | ioQueue =>
    obtain ⟨_, _, retry, error, _⟩ := here
    simp [run, left, error, retry.2]
  | incPending4ssd | submit4ssd | flowToHdd | submit4hdd | ssdReadError | ssdReadDone | endio4hdd | retriedHddRead =>
    simp [run, left]

/-- A step takes from the steps left. -/
theorem Hook.left_step {hook hook' : Hook} {k : Nat} (h : hook.Inv fate legacy)
    (moves : hook.exec fate legacy k = some hook') :
    hook'.total (Thread.left hook'.shared.error) < hook.total (Thread.left hook.shared.error) := by
  obtain ⟨t, new, others, _, ran, m⟩ := Pool.exec_moves moves
  have ran : t.run fate legacy hook.shared = (hook'.shared, new) := Option.some.inj ran
  rw [m.before, m.after]
  cases tail : t.isTail with
  | true =>
    rw [Thread.run_tail tail] at ran
    obtain ⟨shared, rfl⟩ := Prod.mk.inj ran
    have error := (hook.shared.decPending_same legacy).2.2.1
    rw [shared] at error
    have one : 0 < t.left hook.shared.error := by cases t <;> first | exact Nat.one_pos | cases tail
    rw [error]
    simpa using one
  | false =>
    obtain ⟨_, _, here⟩ := h.now t ((m.mem t).mpr (Or.inl rfl)) tail
    have less := Thread.run_left legacy here
    rw [ran] at less
    -- the others are at their ends, whatever the error is
    have single := h.single
    have weighs : t.busy = 1 := by simp [Thread.busy, tail]
    rw [m.before] at single
    have gone := Thread.tails_of_sum (show (others.map Thread.busy).sum = 0 by omega)
    have same : others.map (Thread.left hook'.shared.error) = others.map (Thread.left hook.shared.error) := by
      refine List.map_congr_left fun u member => ?_
      have ending := gone u member
      cases u <;> first | rfl | cases ending
    rw [same]
    exact Nat.add_lt_add_right less _

end Iostash
