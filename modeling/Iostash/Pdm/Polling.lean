import Iostash.Sce.Scored
import Iostash.Pdm.Throttle

/-!
# What a thread knows of the cache

The status tells what happened in the run. A population thread compares the one it polls with the one it has
polled last, so what it decides on happened in between, whatever the clients and the other threads did.
-/

namespace Iostash

open Util

/-- The status is the hits, misses and evictions of the run in 32 bits, the number of free fragments, and the
sum of the sizes of the devices. -/
theorem Scored.status_exact {c : Scored} (h : c.Reached) : ∃ st, sceGetStatus c.sce = (.success, st) ∧
    st.nrHit = u32 c.hits ∧ st.nrMiss = u32 c.misses ∧ st.nrEviction = u32 c.evictions ∧
    (∃ free : List Phys, free.Nodup ∧ (∀ a, a ∈ free ↔ c.sce.isFree a) ∧ st.nrFreefrag = free.length) ∧
    st.nrTotfrag = u32 (∑ d ∈ Finset.range sceMaxCdev, devSize c.sce.dev d) := by
  obtain ⟨reached, counts⟩ := h.exact
  have shape := reached.inv.shape
  obtain ⟨fl, list⟩ := shape.free
  exact ⟨_, rfl, counts.hits, counts.misses, counts.evictions, ⟨fl, list.nodup, list.mem, list.nrFreefrag⟩,
    shape.devices.nrFrag⟩

/-- The one fragment of the cache is populated for one fragment of a LUN, and then taken for another. -/
def Scored.evicted : Scored := observer.after
  [.addcdev 2048 7 true, .addlun 4096 9 true, .get4read 0 0 8, .get4pop fun _ _ => 0#32, .put4pop ⟨9, 7, 0, 0⟩ false,
    .get4read 0 0 8, .put4read 0 0 8, .get4read 0 2048 8, .get4read 0 2048 8, .get4pop fun _ _ => 0#32]

theorem Scored.status_exact_evicted : ∃ st, sceGetStatus evicted.sce = (.success, st) ∧ st.nrHit = 1 ∧ st.nrMiss = 3 ∧
    st.nrEviction = 1 := by
  obtain ⟨st, told, hits, misses, evictions, _⟩ := status_exact (c := evicted) (Observer.after_reached (by decide +kernel))
  have counts : (evicted.hits, evicted.misses, evicted.evictions) = (1, 3, 1) := by decide +kernel
  obtain ⟨hit, rest⟩ := Prod.mk.inj counts
  obtain ⟨miss, eviction⟩ := Prod.mk.inj rest
  refine ⟨st, told, ?_, ?_, ?_⟩
  · rw [hits, hit]
    rfl
  · rw [misses, miss]
    rfl
  · rw [evictions, eviction]
    rfl

/-- A read that was looked up and not served. -/
def Event.missed (s : Sce) (event : Event) : Bool :=
  match event.call, event.reply with
  | .get4read i x n, .fmap none => s.accepts i x n
  | _, _ => false

theorem Event.missed_eq {w : World} {call : Call} {op : Op} {reply : Reply} (named : w.op call = some op) :
    Event.missed w.sce ⟨call, reply⟩ = (op.missed w.sce reply).isSome := by
  cases call with
  | get4read i x n =>
    obtain ⟨_, ⟨⟩⟩ := Option.ite_none_right_eq_some.mp named
    cases reply with
    | fmap m =>
      cases m with
      | none => by_cases accepted : w.sce.accepts i x n = true <;> simp [Event.missed, Op.missed, accepted]
      | some m => rfl
    | _ => rfl
  | addlun | invalidate =>
    obtain ⟨_, ⟨⟩⟩ := Option.ite_none_right_eq_some.mp named
    rfl
  | put4read | put4pop =>
    obtain ⟨_, _, rfl⟩ := Option.map_eq_some_iff.mp named
    rfl
  | addcdev | rmcdev | rmlun | get4pop =>
    obtain rfl := Option.some.inj named
    rfl

namespace Pdm

/-- What the engine has been asked in a step, if anything. -/
def Engine.told (e e' : Engine) : Option Event := if e'.world.now = e.world.now then none else e'.world.log.head?

/-- The next step of a thread polls the status. -/
def Party.polls : Party → Bool
  | .client => false
  | .pdm t => decide (t.pc = .getStatus)

/-- The threads and the clients, with the hits and misses of their run, and those each thread has polled last. -/
structure Watch where
  pool : System
  hits : Nat
  misses : Nat
  seen : Nat → Nat × Nat

namespace Watch

def start (cfgs : List Cfg) : Watch := ⟨.start cfgs, 0, 0, fun _ => (0, 0)⟩

def next (w : Watch) (k : Nat) (p : System) : Watch where
  pool := p
  hits := w.hits + ((w.pool.shared.told p.shared).any fun event => event.reply.hits).toNat
  misses := w.misses + ((w.pool.shared.told p.shared).any fun event => event.missed w.pool.shared.world.sce).toNat
  seen j := if j = k ∧ w.pool.threads[k]?.any Party.polls = true then (w.hits, w.misses) else w.seen j

def exec (w : Watch) (act : Nat × Env) : Option Watch := (w.pool.exec act).map (w.next act.1)

/-- The hits and misses of thread `k` since it polled last. -/
def since (w : Watch) (k : Nat) : Nat × Nat := (w.hits - (w.seen k).1, w.misses - (w.seen k).2)

/-- The counters of the engine are right, and the status of each thread is the one it has polled last. -/
structure Sees (w : Watch) : Prop where
  base : w.pool.shared.world.Base
  hits : w.pool.shared.world.sce.nrHit = u32 w.hits
  misses : w.pool.shared.world.sce.nrMiss = u32 w.misses
  past : ∀ k, (w.seen k).1 ≤ w.hits ∧ (w.seen k).2 ≤ w.misses
  threads : ∀ k t, w.pool.threads[k]? = some (.pdm t) →
    t.curSt.nrHit = u32 (w.seen k).1 ∧ t.curSt.nrMiss = u32 (w.seen k).2

end Watch

variable {e e' : Engine} {call : Call} {reply : Reply} {t t' : Thread} {env : Env} {party : Party} {new : List Party}
  {w w' : Watch}

/-! ### One step -/

/-- A call adds its event to the log, and its hit or its miss to the counters. -/
theorem Engine.exec_told (base : e.world.Base) (moves : e.exec call = some (reply, e')) : ∃ event,
    e.told e' = some event ∧ e'.world.Base ∧
    e'.world.sce.nrHit = (if event.reply.hits = true then u32 (e.world.sce.nrHit + 1) else e.world.sce.nrHit) ∧
    e'.world.sce.nrMiss =
      if event.missed e.world.sce = true then u32 (e.world.sce.nrMiss + 1) else e.world.sce.nrMiss := by
  obtain ⟨w, ran, replied⟩ := Option.bind_eq_some_iff.mp moves
  obtain ⟨op, reply', s', named, run, rfl, base', _⟩ := World.exec_run base ran
  obtain ⟨_, rfl⟩ := Prod.mk.inj (Option.some.inj replied)
  have scores := Sce.call_scores base.inv (fun j x n e => by
    have typed := World.op_typed base named
    rw [e] at typed
    exact typed) run
  refine ⟨⟨call, reply'⟩, ?_, base', scores.hits, ?_⟩
  · exact if_neg (show ¬ e.world.now + 1 = e.world.now by omega)
  · rw [Event.missed_eq named]
    exact scores.misses

/-- A step asks the engine nothing, or makes one call. -/
theorem Thread.run_engine (step : t.run env e = some (e', t')) : e' = e ∨ ∃ call reply, e.exec call = some (reply, e') := by
  cases here : t.pc with
  | loop =>
    simp only [run, here] at step
    split at step <;> exact Or.inl (Prod.mk.inj (Option.some.inj step)).1.symm
  | getStatus =>
    rw [run_getStatus here] at step
    exact Or.inl (Prod.mk.inj (Option.some.inj step)).1.symm
  | get4pop =>
    simp only [run, here] at step
    obtain ⟨⟨reply, u⟩, ran, done⟩ := Option.map_eq_some_iff.mp step
    refine Or.inr ⟨.get4pop env.past, reply, ?_⟩
    simp only at done
    split at done
    · obtain ⟨rfl, _⟩ := Prod.mk.inj done
      exact ran
    · obtain ⟨rfl, _⟩ := Prod.mk.inj done
      exact ran
  | readPoptask =>
    simp only [run, here] at step
    split at step <;> exact Or.inl (Prod.mk.inj (Option.some.inj step)).1.symm
  | writePoptask =>
    simp only [run, here] at step
    exact Or.inl (Prod.mk.inj (Option.some.inj step)).1.symm
  | put4pop failed =>
    simp only [run, here] at step
    obtain ⟨⟨reply, u⟩, ran, done⟩ := Option.map_eq_some_iff.mp step
    obtain ⟨rfl, _⟩ := Prod.mk.inj done
    exact Or.inr ⟨_, reply, ran⟩
  | skip =>
    simp only [run, here] at step
    exact Or.inl (Prod.mk.inj (Option.some.inj step)).1.symm
  | out =>
    simp only [run, here] at step
    cases step

theorem Party.run_engine (step : party.run env e = some (e', new)) :
    e' = e ∨ ∃ call reply, e.exec call = some (reply, e') := by
  cases party with
  | client =>
    obtain ⟨⟨reply, u⟩, ran, done⟩ := Option.map_eq_some_iff.mp step
    obtain ⟨rfl, _⟩ := Prod.mk.inj done
    exact Or.inr ⟨_, reply, ran⟩
  | pdm t =>
    obtain ⟨⟨u, t'⟩, ran, done⟩ := Option.map_eq_some_iff.mp step
    obtain ⟨rfl, _⟩ := Prod.mk.inj done
    exact Thread.run_engine ran

/-- The status of a thread is the one it polled, until it polls again. -/
theorem Thread.run_curSt (step : t.run env e = some (e', t')) :
    t'.curSt = if t.pc = .getStatus then (sceGetStatus e.world.sce).2 else t.curSt := by
  cases here : t.pc with
  | getStatus =>
    rw [run_getStatus here] at step
    obtain ⟨_, rfl⟩ := Prod.mk.inj (Option.some.inj step)
    rfl
  | loop | readPoptask =>
    simp only [run, here] at step
    split at step
    · obtain ⟨_, rfl⟩ := Prod.mk.inj (Option.some.inj step)
      rfl
    · obtain ⟨_, rfl⟩ := Prod.mk.inj (Option.some.inj step)
      rfl
  | get4pop =>
    simp only [run, here] at step
    obtain ⟨⟨reply, u⟩, _, done⟩ := Option.map_eq_some_iff.mp step
    simp only at done
    split at done
    · obtain ⟨_, rfl⟩ := Prod.mk.inj done
      rfl
    · obtain ⟨_, rfl⟩ := Prod.mk.inj done
      rfl
  | writePoptask | skip =>
    simp only [run, here] at step
    obtain ⟨_, rfl⟩ := Prod.mk.inj (Option.some.inj step)
    rfl
  | put4pop failed =>
    simp only [run, here] at step
    obtain ⟨_, _, done⟩ := Option.map_eq_some_iff.mp step
    obtain ⟨_, rfl⟩ := Prod.mk.inj done
    rfl
  | out =>
    simp only [run, here] at step
    cases step

theorem Party.run_curSt (step : party.run env e = some (e', new)) : ∃ party', new = [party'] ∧
    ∀ t', party' = .pdm t' → ∃ t, party = .pdm t ∧
      t'.curSt = if party.polls = true then (sceGetStatus e.world.sce).2 else t.curSt := by
  cases party with
  | client =>
    obtain ⟨_, _, done⟩ := Option.map_eq_some_iff.mp step
    obtain ⟨_, rfl⟩ := Prod.mk.inj done
    exact ⟨.client, rfl, fun _ same => by cases same⟩
  | pdm t =>
    obtain ⟨⟨u, t'⟩, ran, done⟩ := Option.map_eq_some_iff.mp step
    obtain ⟨_, rfl⟩ := Prod.mk.inj done
    refine ⟨.pdm t', rfl, fun t₁ same => ⟨t, rfl, ?_⟩⟩
    obtain rfl := Party.pdm.inj same
    rw [Thread.run_curSt ran]
    simp only [polls, decide_eq_true_eq]

/-! ### A run -/

namespace Watch

theorem Sees.start (cfgs : List Cfg) : (start cfgs).Sees := by
  refine ⟨.init, rfl, rfl, fun _ => ⟨le_rfl, le_rfl⟩, fun k t here => ?_⟩
  rcases List.mem_cons.mp (List.mem_of_getElem? here) with e | member
  · cases e
  · obtain ⟨cfg, _, e⟩ := List.mem_map.mp member
    obtain rfl := Party.pdm.inj e
    exact ⟨rfl, rfl⟩

theorem Sees.step {act : Nat × Env} (h : w.Sees) (moves : w.exec act = some w') : w'.Sees := by
  obtain ⟨p, stepped, rfl⟩ := Option.map_eq_some_iff.mp moves
  obtain ⟨party, here, step⟩ := Option.bind_eq_some_iff.mp stepped
  obtain ⟨⟨e', new⟩, ran, rfl⟩ := Option.map_eq_some_iff.mp step
  have engine : e'.world.Base ∧ e'.world.sce.nrHit = u32 (w.next act.1 ⟨e', new⟩).hits ∧
      e'.world.sce.nrMiss = u32 (w.next act.1 ⟨e', new⟩).misses := by
    rcases Party.run_engine ran with rfl | ⟨call, reply, ran⟩
    · have quiet : w.pool.shared.told w.pool.shared = none := if_pos rfl
      simp only [next, quiet, Option.any_none, Bool.toNat_false, Nat.add_zero]
      exact ⟨h.base, h.hits, h.misses⟩
    · obtain ⟨event, told, base, hits, misses⟩ := Engine.exec_told h.base ran
      simp only [next, told, Option.any_some]
      exact ⟨base, Scored.counter_next h.hits hits, Scored.counter_next h.misses misses⟩
  refine ⟨engine.1, engine.2.1, engine.2.2, fun k => ?_, fun k t there => ?_⟩
  · show (if k = act.1 ∧ _ then (w.hits, w.misses) else w.seen k).1 ≤ w.hits + _ ∧
      (if k = act.1 ∧ _ then (w.hits, w.misses) else w.seen k).2 ≤ w.misses + _
    split
    · exact ⟨Nat.le_add_right _ _, Nat.le_add_right _ _⟩
    · exact ⟨Nat.le_add_right_of_le (h.past k).1, Nat.le_add_right_of_le (h.past k).2⟩
  · obtain ⟨party', rfl, status⟩ := Party.run_curSt ran
    have lt := (List.getElem?_eq_some_iff.mp here).1
    have set : (w.pool.threads.set act.1 party')[k]? = some (.pdm t) := by
      rw [List.set_eq_take_append_cons_drop, if_pos lt]
      exact there
    show t.curSt.nrHit = u32 (if k = act.1 ∧ w.pool.threads[act.1]?.any Party.polls = true then _ else _ : Nat × Nat).1 ∧
      t.curSt.nrMiss = u32 (if k = act.1 ∧ w.pool.threads[act.1]?.any Party.polls = true then _ else _ : Nat × Nat).2
    rw [here, Option.any_some]
    by_cases e : k = act.1
    · subst e
      rw [List.getElem?_set_self lt] at set
      obtain ⟨t₀, rfl, cur⟩ := status t (Option.some.inj set)
      rw [cur]
      by_cases polled : (Party.pdm t₀).polls = true
      · simp only [polled, and_self, if_true]
        exact ⟨h.hits, h.misses⟩
      · have still : ¬ (act.1 = act.1 ∧ (Party.pdm t₀).polls = true) := fun both => polled both.2
        rw [if_neg still, if_neg polled]
        exact h.threads _ _ here
    · rw [List.getElem?_set_ne (Ne.symm e)] at set
      rw [if_neg fun both => e both.1]
      exact h.threads k t set

theorem sees_of_reachable {cfgs : List Cfg} (reached : Reachable exec (fun _ _ => True) (start cfgs) w) : w.Sees :=
  reached.invariant (.start cfgs) fun _ _ _ h _ moves => h.step moves

end Watch

/-- In every run of the threads beside clients that call whatever they like, a thread that polls goes on to
populate exactly when enough of the cache is free and enough of the reads since its own last poll have missed. -/
theorem polls_true {cfgs : List Cfg} (reached : Reachable Watch.exec (fun _ _ => True) (.start cfgs) w) {k dh dm : Nat}
    (there : w.pool.threads[k]? = some (.pdm t)) (polls : t.pc = .getStatus) (since : w.since k = (dh, dm))
    (small : dh < 2 ^ 31 ∧ dm < 2 ^ 31) (told : Told dh dm (u32 (w.seen k).1) (u32 (w.seen k).2))
    (free : 100 * w.pool.shared.world.sce.nrFreefrag < 2 ^ 32) (env : Env) :
    (t.run env w.pool.shared).map (fun r => decide (r.2.pc = .get4pop)) = some
      (decide (t.cfg.minFreefragper ≤ 100 * w.pool.shared.world.sce.nrFreefrag / w.pool.shared.world.sce.nrFrag) &&
        decide (t.cfg.targetMissrate ≤ rate dh dm)) := by
  have h := Watch.sees_of_reachable reached
  obtain ⟨hits, misses⟩ := h.threads k t there
  obtain ⟨rfl, rfl⟩ := Prod.mk.inj since
  obtain ⟨past, past'⟩ := h.past k
  have between : Since t.curSt (sceGetStatus w.pool.shared.world.sce).2 (w.hits - (w.seen k).1)
      (w.misses - (w.seen k).2) := by
    refine ⟨?_, ?_⟩
    · rw [hits]
      apply h.hits.trans
      unfold u32
      omega
    · rw [misses]
      apply h.misses.trans
      unfold u32
      omega
  have missed : calcMissrate t.curSt (sceGetStatus w.pool.shared.world.sce).2 =
      rate (w.hits - (w.seen k).1) (w.misses - (w.seen k).2) := by
    refine calcMissrate_true ?_ small ?_ between
    · rw [hits, misses]
      exact told
    · rw [hits, misses]
      exact ⟨u32_lt _, u32_lt _⟩
  have share : calcFreefragper (sceGetStatus w.pool.shared.world.sce).2 =
      100 * w.pool.shared.world.sce.nrFreefrag / w.pool.shared.world.sce.nrFrag := by
    unfold calcFreefragper
    split
    · show u32 (w.pool.shared.world.sce.nrFreefrag * 100) / _ = _
      rw [Nat.mul_comm, u32_of_lt free]
      rfl
    · rename_i none
      rw [show w.pool.shared.world.sce.nrFrag = 0 from not_not.mp none, Nat.div_zero]
  rw [Thread.run_getStatus polls, Option.map_some, Thread.populates, missed, share]
  split
  · rename_i goes
    simp only [goes, decide_true]
  · rename_i stays
    simp only [Bool.not_eq_true] at stays
    simp only [stays, reduceCtorEq, decide_false]

def Party.cfg? : Party → Option Cfg
  | .client => none
  | .pdm t => some t.cfg

/-- A thread polls a cache that nobody has read, and again after a miss. -/
def polling : Watch :=
  (execAll Watch.exec (fun _ _ => true) (.start [⟨200, 50, 35⟩])
    [(0, { call := .addcdev 2048 7 true }), (0, { call := .addlun 4096 9 true }), (1, {}), (1, {}), (1, {}), (1, {}),
      (0, { call := .get4read 0 0 8 })]).getD (.start [])

theorem polls_true_polling : ∃ t, polling.pool.threads[1]? = some (.pdm t) ∧
    (t.run {} polling.pool.shared).map (fun r => decide (r.2.pc = .get4pop)) = some true := by
  have reached : Reachable Watch.exec (fun _ _ => True) (.start [⟨200, 50, 35⟩]) polling :=
    reachable_getD (fun _ _ _ => trivial) (by decide +kernel)
  have place : (polling.pool.threads[1]?.map fun party => (party.polls, party.cfg?.map fun cfg =>
      (cfg.minFreefragper, cfg.targetMissrate))) = some (true, some (35, 50)) := by decide +kernel
  have counts : polling.since 1 = (0, 1) ∧ polling.seen 1 = (0, 0) := by decide +kernel
  have share : polling.pool.shared.world.sce.nrFreefrag = 1 ∧ polling.pool.shared.world.sce.nrFrag = 1 := by
    decide +kernel
  obtain ⟨party, there, fields⟩ := Option.map_eq_some_iff.mp place
  cases party with
  | client =>
    cases fields
  | pdm t =>
    simp only [Party.polls, Party.cfg?, Option.map_some, Prod.mk.injEq, decide_eq_true_eq, Option.some.injEq] at fields
    obtain ⟨polls, free, missed⟩ := fields
    refine ⟨t, there, ?_⟩
    rw [polls_true reached there polls counts.1 (by decide) (by rw [counts.2]; unfold Told; decide)
      (by rw [share.1]; decide), share.1, share.2, free, missed]
    rfl

end Pdm

end Iostash
