import Iostash.Driver.Targets
import Iostash.Sce.Lasting

/-!
# Targets and the LUNs of the engine

A target online is served by the LUN that `hdd_register` added for it, and a LUN that can be read is that of a
target. The `hdd_info` is the context of its LUN, so that contexts are as the engine needs them.
-/

namespace Iostash

namespace Targets

open Util
open Driver (CStr)

/-- The call is one for a LUN. -/
def lodges : Op → Bool
  | .addlun _ _ _ => true
  | .rmlun _ => true
  | _ => false

/-- Only `iostash_hdd.c` adds and removes LUNs. -/
def Act.Allowed : Act → Prop
  | .engine op => op.InType ∧ lodges op = false
  | _ => True

/-- An operation that does not return ends the run. -/
def Reaches (k : Kernel) : State → State → Prop :=
  Reachable (fun s act => (s.exec k act).toOption) fun _ act => act.Allowed

/-- What control operations make of an engine without LUNs. -/
def Reached (k : Kernel) (s : State) : Prop :=
  ∃ sce queues, sce.Reached ∧ (∀ i, sce.luntbl i = none) ∧ Reaches k (start sce queues) s

variable {k : Kernel} {s s' : State} {p b i m : Nat} {disk : Disk} {path : CStr} {act : Act} {targets : Finset Nat}

/-- The LUN of a target is that with its address as context and its size. No two LUNs have one context. -/
structure Lodged (k : Kernel) (s : State) (targets : Finset Nat) : Prop where
  registry : Registry k s targets
  engine : s.sce.Reached
  next : s.next ≠ 0
  owned : ∀ b, ∀ p ∈ s.bucket b, (s.hdd p).online = true → ∃ i, (s.hdd p).lun = some i ∧
    s.sce.view.tenant i = some (p, (s.hdd p).nrSctr)
  closed : ∀ b, ∀ p ∈ s.bucket b, (s.hdd p).online = false → (s.hdd p).lun = none
  owner : ∀ i p m, s.sce.view.tenant i = some (p, m) →
    (∃ b, p ∈ s.bucket b) ∧ (s.hdd p).online = true ∧ (s.hdd p).lun = some i
  older : ∀ i l, s.sce.view.lun i = some l → l.lunctx ≠ 0 ∧ l.lunctx < s.next
  apart : ∀ i j l l', s.sce.view.lun i = some l → s.sce.view.lun j = some l' → l.lunctx = l'.lunctx → i = j

/-! ### The operations and the LUNs -/

/-- What `_unload_hdd` does to the engine. -/
theorem unloadHdd_lun (done : unloadHdd k s p = .ok s') : (s'.hdd p).lun = none ∧
    ((s.hdd p).lun = none → s'.sce = s.sce) ∧
    ∀ i, (s.hdd p).lun = some i → ∃ r, sceRmlun s.sce i = .ok (r, s'.sce) := by
  obtain ⟨same, sce⟩ : (((s.unhook p).offline k p).hdd p).lun = (s.hdd p).lun ∧ _ := State.cleared_lun
  unfold unloadHdd at done
  dsimp only at done
  rw [State.setHdd_self] at done
  dsimp only at done
  rw [same] at done
  cases lun : (s.hdd p).lun with
  | none =>
    rw [lun] at done
    cases done
    refine ⟨?_, fun _ => sce, fun i some => by cases some⟩
    rw [State.setHdd_self]
    exact same.trans lun
  | some i =>
    rw [lun] at done
    obtain ⟨r, removed, rfl⟩ := Except.map_eq_ok.mp done
    refine ⟨by rw [State.setHdd_self], fun absent => absurd absent (Option.some_ne_none i), ?_⟩
    · intro j here
      obtain rfl := Option.some.inj here
      refine ⟨r.1, ?_⟩
      dsimp only [State.setHdd]
      rw [← sce]
      exact removed

/-- Unloading an entry takes its LUN from the readers, if it has one. -/
theorem unloadHdd_tenants (engine : s.sce.Reached) (done : unloadHdd k s p = .ok s') : s'.sce.Reached ∧
    (∀ i, s'.sce.view.tenant i = if (s.hdd p).lun = some i then none else s.sce.view.tenant i) ∧
    ∀ i l, s'.sce.view.lun i = some l → ∃ l₀, s.sce.view.lun i = some l₀ ∧ l.lunctx = l₀.lunctx := by
  obtain ⟨_, none, some⟩ := unloadHdd_lun done
  cases lun : (s.hdd p).lun with
  | none =>
    rw [none lun]
    exact ⟨engine, fun i => (if_neg (Option.some_ne_none i).symm).symm, fun i l present => ⟨l, present, rfl⟩⟩
  | some j =>
    obtain ⟨r, run⟩ := some j lun
    have typed : Op.InType (.rmlun j) := trivial
    refine ⟨engine.next typed (Sce.exec_eq_some.mpr ⟨.ret r, Except.map_eq_ok.mpr ⟨_, run, rfl⟩⟩), ?_⟩
    rcases sceRmlun_spec engine.inv j with ⟨absent, fail⟩ | ⟨l, present, ⟨_, stop⟩ | ⟨sce, ok, _, view⟩⟩
    · rw [fail] at run
      obtain ⟨_, same⟩ := Prod.mk.inj (Except.ok.inj run)
      rw [← same]
      refine ⟨fun i => ?_, fun i l lun => ⟨l, lun, rfl⟩⟩
      split
      · rename_i e
        obtain rfl := Option.some.inj e
        simp [View.tenant, absent]
      · rfl
    · rw [stop] at run
      cases run
    · rw [ok] at run
      obtain ⟨_, rfl⟩ := Prod.mk.inj (Except.ok.inj run)
      split at view
      · rw [view]
        refine ⟨fun i => ?_, fun i l' lun' => ?_⟩
        · split
          · rename_i e
            obtain rfl := Option.some.inj e
            simp [View.tenant, View.setLun_lun, present]
          · rename_i ne
            exact View.tenant_congr (if_neg fun e : i = j => ne (congrArg Option.some e.symm))
        · obtain ⟨l₀, before, rfl⟩ := View.setLun_lun_some lun'
          refine ⟨l₀, before, ?_⟩
          split <;> rfl
      · rw [view]
        refine ⟨fun i => ?_, fun i l' lun' => ⟨l', View.purge_lun_some lun', rfl⟩⟩
        split
        · rename_i e
          obtain rfl := Option.some.inj e
          simp [View.tenant, View.purge_lun]
        · rename_i ne
          exact View.tenant_congr (if_neg fun e : i = j => ne (congrArg Option.some e.symm))

/-- The `hdd_info` of a target that is new. -/
theorem hddRegister_lun (path : CStr) (yes : s.Accepts k disk) : ∃ i s', hddRegister k s path disk = .ok (0, s') ∧
    sceAddlun s.sce disk.nrSects s.next true = .ok (some i, s'.sce) ∧
    (s'.hdd s.next).lun = some i ∧ (s'.hdd s.next).nrSctr = disk.nrSects := by
  obtain ⟨i, sce, added⟩ := sceAddlun_room s.next yes.room
  unfold hddRegister allocHdd
  rw [if_neg (by simp [yes.unlisted])]
  dsimp only
  rw [State.setHdd_setHdd, if_neg (by simp [yes.unheld])]
  split
  · rename_i hooked
    exact absurd hooked yes.unhooked
  rw [State.setHdd_setHdd, State.setHdd_setHdd]
  simp only [State.setHdd, added, insertHdd, if_true, if_neg disk.named]
  exact ⟨i, _, rfl, rfl, by simp only [if_true], by simp only [if_true]⟩

/-! ### Each operation keeps it -/

theorem tenant_eq_some {v : View} : v.tenant i = some (p, m) ↔
    ∃ l, v.lun i = some l ∧ l.waiting = false ∧ l.lunctx = p ∧ l.nrSctr = m := by
  unfold View.tenant
  cases v.lun i with
  | none => simp
  | some l => cases waiting : l.waiting <;> simp [Option.filter, waiting]

namespace Lodged

theorem start {sce : Sce} {queues : Nat → Nat} (engine : sce.Reached) (bare : ∀ i, sce.luntbl i = none) :
    Lodged k (start sce queues) ∅ := by
  have none : ∀ i, sce.view.lun i = none := by
    intro i
    rw [Sce.view_lun, bare]
    rfl
  refine ⟨.start, engine, Nat.one_ne_zero, ?_, ?_, ?_, ?_, ?_⟩
  · exact fun b p here => absurd here List.not_mem_nil
  · exact fun b p here => absurd here List.not_mem_nil
  · intro i p m here
    obtain ⟨l, lun, _⟩ := tenant_eq_some.mp here
    exact absurd (lun.symm.trans (none i)) (Option.some_ne_none l)
  · exact fun i l lun => absurd (lun.symm.trans (none i)) (Option.some_ne_none l)
  · exact fun i j l l' lun => absurd (lun.symm.trans (none i)) (Option.some_ne_none l)

/-- A step that leaves the targets and their LUNs alone. -/
theorem meanwhile (h : Lodged k s targets) {sce : Sce} (engine : sce.Reached)
    (tenants : ∀ i, sce.view.tenant i = s.sce.view.tenant i)
    (luns : ∀ i l, sce.view.lun i = some l → ∃ l₀, s.sce.view.lun i = some l₀ ∧ l.lunctx = l₀.lunctx) :
    Lodged k { s with sce := sce } targets := by
  refine ⟨h.registry.meanwhile sce s.kobjectPuts, engine, h.next, ?_, h.closed, ?_, ?_, ?_⟩
  · intro b p here online
    obtain ⟨i, lun, tenant⟩ := h.owned b p here online
    exact ⟨i, lun, (tenants i).trans tenant⟩
  · intro i p m here
    rw [tenants] at here
    exact h.owner i p m here
  · intro i l lun
    obtain ⟨l₀, before, ctx⟩ := luns i l lun
    rw [ctx]
    exact h.older i l₀ before
  · intro i j l l' lun lun' same
    obtain ⟨l₀, before, ctx⟩ := luns i l lun
    obtain ⟨l₁, before', ctx'⟩ := luns j l' lun'
    exact h.apart i j l₀ l₁ before before' (ctx.symm.trans (same.trans ctx'))

theorem called (h : Lodged k s targets) {op : Op} {reply : Reply} {sce : Sce} (typed : op.InType)
    (other : lodges op = false) (run : s.sce.call op = .ok (reply, sce)) :
    Lodged k { s with sce := sce } targets := by
  have engine : sce.Reached := h.engine.next typed (Sce.exec_eq_some.mpr ⟨reply, run⟩)
  rcases (Sce.call_inv h.engine.inv typed run).2 with rfl | effect
  · exact h
  refine h.meanwhile engine (fun i => effect.tenant ?_ ?_) fun i l lun => ?_
  · rintro rfl
    cases other
  · rintro m ctx vmalloc rfl
    cases other
  · rcases effect.lun lun with ⟨l₀, before, same⟩ | ⟨m, ctx, vmalloc, rfl, _⟩
    · exact ⟨l₀, before, same.1⟩
    · cases other

theorem refused (h : Lodged k s targets) (refused : Refused s s') : Lodged k s' targets := by
  have same : ∀ b, ∀ p ∈ s.bucket b, s'.hdd p = s.hdd p := fun b p here =>
    refused.others p (Nat.ne_of_lt (h.registry.known b p here).1)
  refine ⟨h.registry.refused refused, refused.sce ▸ h.engine, ?_, ?_, ?_, ?_, ?_, ?_⟩
  · exact Nat.ne_of_gt (Nat.lt_of_lt_of_le (Nat.pos_of_ne_zero h.next) refused.next)
  · intro b p here
    rw [refused.bucket] at here
    rw [same b p here, refused.sce]
    exact h.owned b p here
  · intro b p here
    rw [refused.bucket] at here
    rw [same b p here]
    exact h.closed b p here
  · intro i p m here
    rw [refused.sce] at here
    obtain ⟨⟨b, listed⟩, rest⟩ := h.owner i p m here
    rw [refused.bucket, same b p listed]
    exact ⟨⟨b, listed⟩, rest⟩
  · intro i l lun
    rw [refused.sce] at lun
    obtain ⟨ne, lt⟩ := h.older i l lun
    exact ⟨ne, Nat.lt_of_lt_of_le lt refused.next⟩
  · rw [refused.sce]
    exact h.apart

/-- A target that is new gets a LUN of its own. -/
theorem enrolled (h : Lodged k s targets) (yes : s.Accepts k disk)
    (new : Enrolled k s disk s') (added : sceAddlun s.sce disk.nrSects s.next true = .ok (some i, s'.sce))
    (lun : (s'.hdd s.next).lun = some i) (size : (s'.hdd s.next).nrSctr = disk.nrSects) :
    Lodged k s' (insert disk.bdDev targets) := by
  have same : ∀ b, ∀ p ∈ s.bucket b, s'.hdd p = s.hdd p := fun b p here =>
    new.others p (Nat.ne_of_lt (h.registry.known b p here).1)
  have engine : s'.sce.Reached := by
    have typed : Op.InType (.addlun disk.nrSects s.next true) := disk.sized
    exact h.engine.next typed (Sce.exec_eq_some.mpr ⟨.hndl (some i), Except.map_eq_ok.mpr ⟨_, added, rfl⟩⟩)
  obtain ⟨absent, view⟩ : s.sce.view.lun i = none ∧
      s'.sce.view = s.sce.view.attach i ⟨s.next, disk.nrSects, lunFrags disk.nrSects, 0, false⟩ := by
    rcases sceAddlun_spec h.engine.inv disk.sized s.next true with fail | ⟨j, sce, ok, _, _, absent, _, _, view⟩
    · rw [fail] at added
      cases added
    · rw [ok] at added
      obtain ⟨e, rfl⟩ := Prod.mk.inj (Except.ok.inj added)
      obtain rfl := Option.some.inj e
      exact ⟨absent, view⟩
  have luns : ∀ j, s'.sce.view.lun j = if j = i then some ⟨s.next, disk.nrSects, lunFrags disk.nrSects, 0, false⟩
      else s.sce.view.lun j := by
    intro j
    rw [view]
    rfl
  have others : ∀ j, j ≠ i → s'.sce.view.tenant j = s.sce.view.tenant j := fun j ne =>
    View.tenant_congr ((luns j).trans (if_neg ne))
  have own : s'.sce.view.tenant i = some (s.next, disk.nrSects) :=
    tenant_eq_some.mpr ⟨_, (luns i).trans (if_pos rfl), rfl, rfl, rfl⟩
  have cases : ∀ b, ∀ p ∈ s'.bucket b, p ∈ s.bucket b ∨ p = s.next := by
    intro b p here
    rw [new.bucket] at here
    exact (mem_bucketAdd.mp here).imp_right And.left
  refine ⟨(h.registry.enrolled yes new).2, engine, new.next ▸ Nat.succ_ne_zero _, ?_, ?_, ?_, ?_, ?_⟩
  · intro b p here
    rcases cases b p here with old | rfl
    · rw [same b p old]
      intro online
      obtain ⟨j, lun, tenant⟩ := h.owned b p old online
      refine ⟨j, lun, (others j ?_).trans tenant⟩
      rintro rfl
      obtain ⟨l, present, _⟩ := tenant_eq_some.mp tenant
      exact absurd (present.symm.trans absent) (Option.some_ne_none l)
    · rw [lun, size]
      exact fun _ => ⟨i, rfl, own⟩
  · intro b p here
    rcases cases b p here with old | rfl
    · rw [same b p old]
      exact h.closed b p old
    · rw [new.online]
      exact fun off => absurd off.symm Bool.false_ne_true
  · intro j p m tenant
    by_cases here : j = i
    · subst here
      obtain ⟨rfl, rfl⟩ := Prod.mk.inj (Option.some.inj (own.symm.trans tenant))
      refine ⟨⟨k.bucketOf (s'.devOf s.next), ?_⟩, new.online, lun⟩
      rw [new.bucket]
      exact mem_bucketAdd.mpr (Or.inr ⟨rfl, rfl⟩)
    · rw [others j here] at tenant
      obtain ⟨⟨b, listed⟩, rest⟩ := h.owner j p m tenant
      refine ⟨⟨b, ?_⟩, (same b p listed).symm ▸ rest⟩
      rw [new.bucket]
      exact mem_bucketAdd.mpr (Or.inl listed)
  · intro j l present
    rw [luns] at present
    rw [new.next]
    split at present
    · obtain rfl := Option.some.inj present
      exact ⟨h.next, Nat.lt_succ_self _⟩
    · obtain ⟨ne, lt⟩ := h.older j l present
      exact ⟨ne, Nat.lt_succ_of_lt lt⟩
  · intro j j' l l' present present' ctx
    rw [luns] at present present'
    split at present
    · rename_i here
      obtain rfl := Option.some.inj present
      split at present'
      · rename_i there
        exact here.trans there.symm
      · exact absurd ctx (Nat.ne_of_gt (h.older j' l' present').2)
    · split at present'
      · obtain rfl := Option.some.inj present'
        exact absurd ctx (Nat.ne_of_lt (h.older j l present).2)
      · exact h.apart j j' l l' present present' ctx

/-- An entry with a LUN is online. -/
theorem lodging (h : Lodged k s targets) (here : p ∈ s.bucket b) (lun : (s.hdd p).lun = some i) :
    s.sce.view.tenant i = some (p, (s.hdd p).nrSctr) := by
  cases online : (s.hdd p).online with
  | false =>
    rw [h.closed b p here online] at lun
    cases lun
  | true =>
    obtain ⟨j, same, tenant⟩ := h.owned b p here online
    obtain rfl := Option.some.inj (lun.symm.trans same)
    exact tenant

theorem unloaded (h : Lodged k s targets) (here : p ∈ s.bucket b) (done : unloadHdd k s p = .ok s') :
    Lodged k s' (targets.erase (s.devOf p)) := by
  have off := unloadHdd_ok done
  obtain ⟨lunless, _⟩ := unloadHdd_lun done
  obtain ⟨engine, tenants, luns⟩ := unloadHdd_tenants h.engine done
  have offline : (s'.hdd p).online = false := by
    rw [off.online, h.registry.search_self here]
    simp
  refine ⟨h.registry.unloaded here off, engine, off.next ▸ h.next, ?_, ?_, ?_, ?_, ?_⟩
  · intro c q there
    rw [off.bucket] at there
    by_cases e : q = p
    · rw [e, offline]
      exact fun on => absurd on Bool.false_ne_true
    · rw [off.others q e]
      intro online
      obtain ⟨i, lun, tenant⟩ := h.owned c q there online
      refine ⟨i, lun, (tenants i).trans ?_⟩
      rw [if_neg, tenant]
      intro same
      exact e (Prod.mk.inj (Option.some.inj (tenant.symm.trans (h.lodging here same)))).1
  · intro c q there
    rw [off.bucket] at there
    by_cases e : q = p
    · rw [e]
      exact fun _ => lunless
    · rw [off.others q e]
      exact h.closed c q there
  · intro i q m tenant
    rw [tenants] at tenant
    split at tenant
    · cases tenant
    · rename_i other
      obtain ⟨listed, online, lun⟩ := h.owner i q m tenant
      have ne : q ≠ p := fun e => other (e ▸ lun)
      rw [off.bucket, off.others q ne]
      exact ⟨listed, online, lun⟩
  · intro i l present
    obtain ⟨l₀, before, ctx⟩ := luns i l present
    rw [ctx, off.next]
    exact h.older i l₀ before
  · intro i j l l' present present' same
    obtain ⟨l₀, before, ctx⟩ := luns i l present
    obtain ⟨l₁, before', ctx'⟩ := luns j l' present'
    exact h.apart i j l₀ l₁ before before' (ctx.symm.trans (same.trans ctx'))

theorem put (h : Lodged k s targets) (puts : List Nat) : Lodged k { s with kobjectPuts := puts } targets :=
  ⟨h.registry.meanwhile s.sce puts, h.engine, h.next, h.owned, h.closed, h.owner, h.older, h.apart⟩

theorem step (h : Lodged k s targets) (allowed : act.Allowed) (done : s.exec k act = .ok s') :
    ∃ targets', Lodged k s' targets' := by
  cases act with
  | register path disk =>
    obtain ⟨⟨ret, t⟩, answer, rfl⟩ := Except.map_eq_ok.mp done
    by_cases yes : s.Accepts k disk
    · obtain ⟨u, same, new⟩ := hddRegister_accepted path yes
      obtain ⟨i, u', same', added, lun, size⟩ := hddRegister_lun path yes
      obtain ⟨_, rfl⟩ := Prod.mk.inj (Except.ok.inj (answer.symm.trans same))
      obtain ⟨_, rfl⟩ := Prod.mk.inj (Except.ok.inj (same'.symm.trans same))
      exact ⟨_, h.enrolled yes new added lun size⟩
    · obtain ⟨u, same, refused⟩ := hddRegister_refused path yes
      obtain ⟨_, rfl⟩ := Prod.mk.inj (Except.ok.inj (answer.symm.trans same))
      exact ⟨targets, h.refused refused⟩
  | unregister path disk =>
    have done : hddUnregister k s path disk = .ok s' := done
    unfold hddUnregister at done
    split at done
    · cases done
      exact ⟨targets, h⟩
    · rename_i p found
      obtain ⟨⟨b, here⟩, _⟩ := h.registry.search_eq_some.mp found
      obtain ⟨t, off, rfl⟩ := Except.map_eq_ok.mp done
      exact ⟨_, (h.unloaded here off).put _⟩
  | engine op =>
    obtain ⟨⟨reply, sce⟩, run, rfl⟩ := Except.map_eq_ok.mp done
    exact ⟨targets, h.called allowed.1 allowed.2 run⟩

end Lodged

theorem lodged_of_reachable (reached : Reached k s) : ∃ targets, Lodged k s targets := by
  obtain ⟨sce, queues, engine, bare, run⟩ := reached
  refine run.invariant (I := fun s => ∃ targets, Lodged k s targets) ⟨∅, .start engine bare⟩ ?_
  intro s act s' here allowed moves
  obtain ⟨targets, h⟩ := here
  exact h.step allowed (Except.toOption_eq_some.mp moves)

/-- In every reachable state the LUNs of the engine that can be read are those of the targets online, each with the
address and the size of its own, and no two LUNs have one context. -/
theorem target_luns_exact (reached : Reached k s) :
    (∀ i p m, s.sce.view.tenant i = some (p, m) ↔ (∃ b, p ∈ s.bucket b) ∧ (s.hdd p).online = true ∧
      (s.hdd p).lun = some i ∧ (s.hdd p).nrSctr = m) ∧
    (∀ b, ∀ p ∈ s.bucket b, (s.hdd p).online = true ↔ (s.hdd p).lun.isSome = true) ∧
    (∀ i j l l', s.sce.view.lun i = some l → s.sce.view.lun j = some l' → l.lunctx = l'.lunctx → i = j) ∧
    ∀ i l, s.sce.view.lun i = some l → l.lunctx ≠ 0 := by
  obtain ⟨targets, h⟩ := lodged_of_reachable reached
  refine ⟨fun i p m => ⟨fun tenant => ?_, ?_⟩, fun b p here => ⟨fun online => ?_, fun lun => ?_⟩, h.apart,
    fun i l lun => (h.older i l lun).1⟩
  · obtain ⟨⟨b, here⟩, online, lun⟩ := h.owner i p m tenant
    exact ⟨⟨b, here⟩, online, lun, (Prod.mk.inj (Option.some.inj ((h.lodging here lun).symm.trans tenant))).2⟩
  · rintro ⟨⟨b, here⟩, _, lun, rfl⟩
    exact h.lodging here lun
  · obtain ⟨i, lun, _⟩ := h.owned b p here online
    rw [lun]
    rfl
  · by_contra off
    rw [h.closed b p here (by simpa using off)] at lun
    cases lun

/-- A disk is registered, and then the next one. -/
def lodged : State := (((start sceCreate fun d => d).exec kernel (.register devSda sda)).toOption.bind fun s =>
  (s.exec kernel (.register devSdb sdb)).toOption).getD bare

theorem lodged_reached : Reached kernel lodged := by
  have some : (((start sceCreate fun d => d).exec kernel (.register devSda sda)).toOption.bind fun s =>
      (s.exec kernel (.register devSdb sdb)).toOption).isSome = true := by decide +kernel
  obtain ⟨s, run⟩ := Option.isSome_iff_exists.mp some
  have same : lodged = s := by
    unfold lodged
    rw [run]
    rfl
  obtain ⟨t, first, second⟩ := Option.bind_eq_some_iff.mp run
  have sda : (Act.register devSda sda).Allowed := trivial
  have sdb : (Act.register devSdb sdb).Allowed := trivial
  have one : Reaches kernel (start sceCreate fun d => d) t := Reachable.next .init sda first
  rw [same]
  exact ⟨sceCreate, fun d => d, .init, fun _ => rfl, Reachable.next one sdb second⟩

theorem target_luns_exact_lodged : lodged.sce.view.tenant 1 = some (2, 0x400000) ∧ (lodged.hdd 2).online = true := by
  have tenant : lodged.sce.view.tenant 1 = some (2, 0x400000) := by decide +kernel
  obtain ⟨_, online, _⟩ := ((target_luns_exact lodged_reached).1 1 2 0x400000).mp tenant
  exact ⟨tenant, online⟩

/-! ### `hdd_unregister_all` -/

/-- No LUN is new to the readers, and an entry loses its LUN only with them. -/
structure Vacated (s s' : State) : Prop where
  fewer : ∀ i, s'.sce.view.tenant i = none ∨ s'.sce.view.tenant i = s.sce.view.tenant i
  kept : ∀ p i, (s.hdd p).lun = some i → (s'.hdd p).lun = some i ∨ s'.sce.view.tenant i = none

theorem Vacated.refl (s : State) : Vacated s s := ⟨fun _ => Or.inr rfl, fun _ _ lun => Or.inl lun⟩

theorem Vacated.stays (h : Vacated s s') (gone : s.sce.view.tenant i = none) : s'.sce.view.tenant i = none :=
  (h.fewer i).elim id fun same => same.trans gone

theorem Vacated.trans {t : State} (h : Vacated s t) (h' : Vacated t s') : Vacated s s' := by
  refine ⟨fun i => ?_, fun p i lun => ?_⟩
  · rcases h'.fewer i with none | same
    · exact Or.inl none
    · exact (h.fewer i).imp same.trans same.trans
  · rcases h.kept p i lun with still | none
    · exact h'.kept p i still
    · exact Or.inr (h'.stays none)

theorem hddRemove_vacates (engine : s.sce.Reached) (done : hddRemove k s p = .ok s') : s'.sce.Reached ∧
    Vacated s s' ∧ ∀ i, (s.hdd p).lun = some i → s'.sce.view.tenant i = none := by
  obtain ⟨t, off, rfl⟩ := Except.map_eq_ok.mp done
  have others := (unloadHdd_ok off).others
  obtain ⟨engine', tenants, _⟩ := unloadHdd_tenants engine off
  refine ⟨engine', ⟨fun i => ?_, fun q i lun => ?_⟩, fun i lun => (tenants i).trans (if_pos lun)⟩
  · show t.sce.view.tenant i = none ∨ t.sce.view.tenant i = s.sce.view.tenant i
    rw [tenants]
    split
    · exact Or.inl rfl
    · exact Or.inr rfl
  · by_cases e : q = p
    · subst e
      exact Or.inr ((tenants i).trans (if_pos lun))
    · exact Or.inl ((congrArg HddInfo.lun (others q e)).trans lun)

theorem removeBucket_vacates {l : List Nat} (engine : s.sce.Reached) (done : removeBucket k b l s = .ok s') :
    s'.sce.Reached ∧ Vacated s s' ∧ ∀ p ∈ l, ∀ i, (s.hdd p).lun = some i → s'.sce.view.tenant i = none := by
  induction l generalizing s with
  | nil =>
    cases done
    exact ⟨engine, .refl _, fun p none => absurd none List.not_mem_nil⟩
  | cons p rest ih =>
    obtain ⟨t, first, done⟩ := Except.bind_eq_ok done
    obtain ⟨engine₁, vacated₁, own⟩ := hddRemove_vacates engine first
    rw [State.unlist_eq] at done
    have engine₂ : (State.sce { t with bucket := (t.unlist k b p).bucket }).Reached := engine₁
    obtain ⟨engine', vacated', others⟩ := ih engine₂ done
    have vacated' : Vacated t s' := ⟨vacated'.fewer, vacated'.kept⟩
    refine ⟨engine', vacated₁.trans vacated', ?_⟩
    intro q member i lun
    rcases List.mem_cons.mp member with rfl | member
    · exact vacated'.stays (own i lun)
    · rcases vacated₁.kept q i lun with still | none
      · exact others q member i still
      · exact vacated'.stays none

theorem removeBuckets_vacates {bs : List Nat} (engine : s.sce.Reached) (nodup : bs.Nodup)
    (done : removeBuckets k bs s = .ok s') : s'.sce.Reached ∧ Vacated s s' ∧
    ∀ b ∈ bs, ∀ p ∈ s.bucket b, ∀ i, (s.hdd p).lun = some i → s'.sce.view.tenant i = none := by
  induction bs generalizing s with
  | nil =>
    cases done
    exact ⟨engine, .refl _, fun b none => absurd none List.not_mem_nil⟩
  | cons b bs ih =>
    obtain ⟨t, first, done⟩ := Except.bind_eq_ok done
    obtain ⟨engine₁, vacated₁, own⟩ := removeBucket_vacates engine first
    have removed := removeBucket_ok first
    obtain ⟨new, nodup⟩ := List.nodup_cons.mp nodup
    obtain ⟨engine', vacated', others⟩ := ih engine₁ nodup done
    refine ⟨engine', vacated₁.trans vacated', ?_⟩
    intro c member p here i lun
    rcases List.mem_cons.mp member with rfl | member
    · exact vacated'.stays (own p here i lun)
    · rcases vacated₁.kept p i lun with still | none
      · have ne : c ≠ b := fun e => new (e ▸ member)
        exact others c member p ((removed.others c ne).symm ▸ here) i still
      · exact vacated'.stays none

/-- After `hdd_unregister_all` no LUN can be read: nothing is served from the cache. -/
theorem hdd_unregister_all_vacates (reached : Reached k s) (done : hddUnregisterAll k s = .ok s') :
    (∀ i, s'.sce.view.tenant i = none) ∧
    ∀ i x n m sce, x < 2 ^ 64 → n < 2 ^ 32 → sceGet4read s'.sce i x n ≠ .ok (some m, sce) := by
  obtain ⟨targets, h⟩ := lodged_of_reachable reached
  obtain ⟨engine, vacated, all⟩ := removeBuckets_vacates h.engine List.nodup_range done
  have gone : ∀ i, s'.sce.view.tenant i = none := by
    intro i
    rcases vacated.fewer i with none | same
    · exact none
    · cases tenant : s.sce.view.tenant i with
      | none => exact same.trans tenant
      | some both =>
        obtain ⟨⟨b, here⟩, _, lun⟩ := h.owner i both.1 both.2 tenant
        have inside : b < iostashMaxhddBckts := h.registry.buckets.placed b both.1 here ▸ Kernel.bucketOf_lt
        exact all b (List.mem_range.mpr inside) both.1 here i lun
  refine ⟨gone, fun i x n m sce wide narrow run => ?_⟩
  obtain ⟨c, size, ⟨l, lun, active, _⟩, _⟩ := (sceGet4read_answers engine.inv wide narrow).mp ⟨sce, run⟩
  exact absurd ((tenant_eq_some.mpr ⟨l, lun, active, rfl, rfl⟩).symm.trans (gone i)) (Option.some_ne_none _)

theorem hdd_unregister_all_vacates_lodged : ∃ s', hddUnregisterAll kernel lodged = .ok s' ∧
    s'.sce.view.tenant 1 = none := by
  obtain ⟨s', done⟩ : ∃ s', (hddUnregisterAll kernel lodged).toOption = some s' :=
    Option.isSome_iff_exists.mp (by decide +kernel)
  have done := Except.toOption_eq_some.mp done
  exact ⟨s', done, (hdd_unregister_all_vacates lodged_reached done).1 1⟩

end Targets

end Iostash
