import Iostash.Driver.Register

/-!
# The targets as a set

The control operations refine a set of devices, and each registration is to see one `kobject_put`. They do as
long as no online target is unregistered before `hdd_unregister_all`.
-/

namespace Iostash

namespace Targets

open Util
open Driver (CStr)

variable {k : Kernel} {s s' : State} {p b dev : Nat} {disk : Disk} {path : CStr} {act : Act} {targets : Finset Nat}

/-! ### The table against a set -/

/-- The online entries of the table are the targets. An entry that is offline has been unregistered. -/
structure Registry (k : Kernel) (s : State) (targets : Finset Nat) : Prop where
  buckets : Buckets k.bucketOf s.devOf s.bucket
  known : ∀ b, ∀ p ∈ s.bucket b, p < s.next ∧ s.devOf p ≠ 0
  online : ∀ b, ∀ p ∈ s.bucket b, (s.hdd p).online = true ↔ s.devOf p ∈ targets
  listed : ∀ d ∈ targets, ∃ b, ∃ p ∈ s.bucket b, s.devOf p = d
  count : s.nrHdd = targets.card
  hooked : ∀ d, s.makeRequestFn d = .iostash → d ∈ targets
  opened : ∀ b, ∀ p ∈ s.bucket b, (s.hdd p).online = true → ∃ disk fn,
    (s.hdd p).bdev = some disk ∧ disk.bdDev = s.devOf p ∧ (s.hdd p).orgMapreq = some (.queue fn)
  closed : ∀ b, ∀ p ∈ s.bucket b, (s.hdd p).online = false → (s.hdd p).bdev = none

theorem Unloaded.devs (off : Unloaded k s p s') : s'.devOf = s.devOf := by
  funext q
  by_cases e : q = p
  · rw [e]
    exact off.devT
  · exact congrArg HddInfo.devT (off.others q e)

namespace Registry

theorem start {sce : Sce} {queues : Nat → Nat} : Registry k (start sce queues) ∅ := by
  refine ⟨.empty, ?_, ?_, ?_, rfl, ?_, ?_, ?_⟩
  · exact fun b p here => absurd here List.not_mem_nil
  · exact fun b p here => absurd here List.not_mem_nil
  · exact fun d here => absurd here (Finset.notMem_empty d)
  · exact fun d here => nomatch here
  · exact fun b p here => absurd here List.not_mem_nil
  · exact fun b p here => absurd here List.not_mem_nil

theorem search_eq_some (h : Registry k s targets) :
    searchHdd k s dev = some p ↔ (∃ b, p ∈ s.bucket b) ∧ s.devOf p = dev := by
  unfold searchHdd
  constructor
  · intro found
    split at found
    · cases found
    · obtain ⟨here, same⟩ := h.buckets.find_eq_some.mp found
      exact ⟨⟨_, here⟩, same⟩
  · rintro ⟨⟨b, here⟩, rfl⟩
    rw [if_neg (h.known b p here).2]
    have bucket := h.buckets.placed b p here
    exact h.buckets.find_eq_some.mpr ⟨bucket ▸ here, rfl⟩

theorem search_self (h : Registry k s targets) (here : p ∈ s.bucket b) : searchHdd k s (s.hdd p).devT = some p :=
  h.search_eq_some.mpr ⟨⟨b, here⟩, rfl⟩

theorem search_eq_none (h : Registry k s targets) :
    searchHdd k s dev = none ↔ ∀ b, ∀ p ∈ s.bucket b, s.devOf p ≠ dev := by
  constructor
  · intro none b p here same
    rw [h.search_eq_some.mpr ⟨⟨b, here⟩, same⟩] at none
    cases none
  · intro none
    cases found : searchHdd k s dev with
    | none => rfl
    | some p =>
      obtain ⟨⟨b, here⟩, same⟩ := h.search_eq_some.mp found
      exact absurd same (none b p here)

/-- A step that keeps the entries of all targets. -/
theorem restrict (h : Registry k s targets) (next : s.next ≤ s'.next) (fewer : ∀ b, (s'.bucket b).Sublist (s.bucket b))
    (left : ∀ b, ∀ p ∈ s.bucket b, s.devOf p ∈ targets → p ∈ s'.bucket b)
    (same : ∀ b, ∀ p ∈ s.bucket b, s'.hdd p = s.hdd p) (count : s'.nrHdd = s.nrHdd)
    (fns : s'.makeRequestFn = s.makeRequestFn) : Registry k s' targets := by
  have devs : ∀ b, ∀ p ∈ s.bucket b, s'.devOf p = s.devOf p := fun b p here => congrArg HddInfo.devT (same b p here)
  refine ⟨(h.buckets.congr devs).sub fewer, ?_, ?_, ?_, count.trans h.count, ?_, ?_, ?_⟩
  · intro b p here
    have here := (fewer b).subset here
    rw [devs b p here]
    exact ⟨Nat.lt_of_lt_of_le (h.known b p here).1 next, (h.known b p here).2⟩
  · intro b p here
    have here := (fewer b).subset here
    rw [devs b p here, same b p here]
    exact h.online b p here
  · intro d target
    obtain ⟨b, p, here, rfl⟩ := h.listed d target
    exact ⟨b, p, left b p here target, devs b p here⟩
  · rw [fns]
    exact h.hooked
  · intro b p here
    have here := (fewer b).subset here
    rw [devs b p here, same b p here]
    exact h.opened b p here
  · intro b p here
    have here := (fewer b).subset here
    rw [same b p here]
    exact h.closed b p here

theorem refused (h : Registry k s targets) (refused : Refused s s') : Registry k s' targets := by
  refine h.restrict refused.next (fun b => by rw [refused.bucket]) (fun b p here _ => by rw [refused.bucket]; exact here)
    (fun b p here => refused.others p (Nat.ne_of_lt (h.known b p here).1)) refused.nrHdd refused.makeRequestFn

/-- The engine and what has been put are not part of it. -/
theorem meanwhile (h : Registry k s targets) (sce : Sce) (puts : List Nat) :
    Registry k { s with sce := sce, kobjectPuts := puts } targets :=
  ⟨h.buckets, h.known, h.online, h.listed, h.count, h.hooked, h.opened, h.closed⟩

/-- A registration that succeeds adds a device. -/
theorem enrolled (h : Registry k s targets) (accepts : s.Accepts k disk) (new : Enrolled k s disk s') :
    disk.bdDev ∉ targets ∧ Registry k s' (insert disk.bdDev targets) := by
  have unlisted := h.search_eq_none.mp accepts.unlisted
  have absent : disk.bdDev ∉ targets := by
    intro target
    obtain ⟨b, p, here, same⟩ := h.listed _ target
    exact unlisted b p here same
  have old : ∀ b, ∀ p ∈ s.bucket b, s'.hdd p = s.hdd p :=
    fun b p here => new.others p (Nat.ne_of_lt (h.known b p here).1)
  have devs : ∀ b, ∀ p ∈ s.bucket b, s'.devOf p = s.devOf p := fun b p here => congrArg HddInfo.devT (old b p here)
  have own : s'.devOf s.next = disk.bdDev := new.devT
  have cases : ∀ b, ∀ p ∈ s'.bucket b, p ∈ s.bucket b ∨ p = s.next := by
    intro b p here
    rw [new.bucket] at here
    exact (mem_bucketAdd.mp here).imp_right And.left
  refine ⟨absent, ?_, ?_, ?_, ?_, ?_, ?_, ?_, ?_⟩
  · rw [new.bucket]
    refine (h.buckets.congr devs).add fun b p here => ?_
    rw [devs b p here, own]
    exact unlisted b p here
  · intro b p here
    rw [new.next]
    rcases cases b p here with here | rfl
    · rw [devs b p here]
      exact ⟨Nat.lt_succ_of_lt (h.known b p here).1, (h.known b p here).2⟩
    · exact ⟨Nat.lt_succ_self _, own ▸ disk.named⟩
  · intro b p here
    rcases cases b p here with here | rfl
    · rw [old b p here, devs b p here, h.online b p here, Finset.mem_insert]
      exact ⟨Or.inr, fun either => either.resolve_left (unlisted b p here)⟩
    · rw [own]
      exact ⟨fun _ => Finset.mem_insert_self _ _, fun _ => new.online⟩
  · intro d target
    rw [new.bucket]
    rcases Finset.mem_insert.mp target with rfl | target
    · exact ⟨_, _, mem_bucketAdd.mpr (Or.inr ⟨rfl, rfl⟩), own⟩
    · obtain ⟨b, p, here, rfl⟩ := h.listed d target
      exact ⟨b, p, mem_bucketAdd.mpr (Or.inl here), devs b p here⟩
  · rw [new.nrHdd, h.count, Finset.card_insert_of_notMem absent]
  · intro d
    rw [new.makeRequestFn, Finset.mem_insert]
    dsimp only
    split
    · exact fun _ => Or.inl ‹_›
    · exact fun hook => Or.inr (h.hooked d hook)
  · intro b p here
    rcases cases b p here with here | rfl
    · rw [old b p here, devs b p here]
      exact h.opened b p here
    · intro _
      cases fn : s.makeRequestFn disk.bdDev with
      | queue fn' => exact ⟨disk, fn', new.bdev, own.symm, by rw [new.orgMapreq, fn]⟩
      | iostash => exact absurd fn accepts.unhooked
  · intro b p here
    rcases cases b p here with here | rfl
    · rw [old b p here]
      exact h.closed b p here
    · rw [new.online]
      exact fun off => nomatch off

/-- Unloading an entry takes its device out of the set. -/
theorem unloaded (h : Registry k s targets) (here : p ∈ s.bucket b) (off : Unloaded k s p s') :
    Registry k s' (targets.erase (s.devOf p)) := by
  have found := h.search_self here
  have devs := off.devs
  have offline : (s'.hdd p).online = false := by
    rw [off.online, found]
    simp
  have apart : ∀ c, ∀ q ∈ s.bucket c, q ≠ p → s.devOf q ≠ s.devOf p :=
    fun c q there ne same => ne (h.buckets.unique there here same)
  refine ⟨?_, ?_, ?_, ?_, ?_, ?_, ?_, ?_⟩
  · rw [devs, off.bucket]
    exact h.buckets
  · rw [devs, off.bucket, off.next]
    exact h.known
  · intro c q there
    rw [off.bucket] at there
    rw [devs, Finset.mem_erase]
    by_cases e : q = p
    · rw [e, offline]
      exact ⟨fun on => absurd on Bool.false_ne_true, fun out => absurd rfl out.1⟩
    · rw [off.others q e, h.online c q there]
      exact ⟨fun target => ⟨apart c q there e, target⟩, And.right⟩
  · intro d target
    obtain ⟨c, q, there, same⟩ := h.listed d (Finset.mem_of_mem_erase target)
    rw [devs, off.bucket]
    exact ⟨c, q, there, same⟩
  · rw [off.nrHdd, Finset.card_erase_eq_ite, ← h.count]
    by_cases on : (s.hdd p).online = true
    · rw [if_pos ⟨found, on⟩, if_pos ((h.online b p here).mp on)]
    · rw [if_neg fun both => on both.2, if_neg fun target => on ((h.online b p here).mpr target)]
  · intro d
    rw [off.makeRequestFn, State.unhook]
    cases on : (s.hdd p).online with
    | true =>
      obtain ⟨disk, fn, bdev, same, org⟩ := h.opened b p here on
      rw [org, bdev, Finset.mem_erase]
      dsimp only
      split
      · intro hook
        cases hook
      · rename_i other
        rw [same] at other
        exact fun hook => ⟨other, h.hooked d hook⟩
    | false =>
      have none : s.devOf p ∉ targets := fun target => by
        rw [(h.online b p here).mpr target] at on
        cases on
      rw [h.closed b p here on, Finset.erase_eq_of_notMem none]
      split
      · rename_i bdev
        cases bdev
      · exact h.hooked d
  · intro c q there
    rw [off.bucket] at there
    by_cases e : q = p
    · rw [e, offline]
      exact fun on => absurd on Bool.false_ne_true
    · rw [devs, off.others q e]
      exact h.opened c q there
  · intro c q there
    rw [off.bucket] at there
    by_cases e : q = p
    · rw [e]
      exact fun _ => off.bdev
    · rw [off.others q e]
      exact h.closed c q there

end Registry

/-! ### `hdd_unregister_all` -/

theorem hddRemove_ok (done : hddRemove k s p = .ok s') :
    ∃ t, Unloaded k s p t ∧ s' = { t with kobjectPuts := p :: t.kobjectPuts } := by
  obtain ⟨t, off, rfl⟩ := Except.map_eq_ok.mp done
  exact ⟨t, unloadHdd_ok off, rfl⟩

theorem State.unlist_eq : s.unlist k b p = { s with bucket := (s.unlist k b p).bucket } := by
  unfold State.unlist
  split <;> rfl

theorem State.unlist_bucket {c : Nat} :
    (s.unlist k b p).bucket c = s.bucket c ∨ c = b ∧ (s.unlist k b p).bucket c = (s.bucket c).erase p := by
  unfold State.unlist
  split
  · by_cases e : c = b
    · exact Or.inr ⟨e, if_pos e⟩
    · exact Or.inl (if_neg e)
  · exact Or.inl rfl

theorem Registry.unlist (h : Registry k s targets) (gone : s.devOf p ∉ targets) :
    Registry k (s.unlist k b p) targets := by
  rw [State.unlist_eq]
  refine h.restrict (Nat.le_refl _) ?_ ?_ (fun _ _ _ => rfl) rfl rfl
  · intro c
    rcases State.unlist_bucket (k := k) (s := s) (b := b) (p := p) (c := c) with same | ⟨_, erased⟩
    · exact same ▸ List.Sublist.refl _
    · exact erased ▸ List.erase_sublist
  · intro c q here target
    rcases State.unlist_bucket (k := k) (s := s) (b := b) (p := p) (c := c) with same | ⟨_, erased⟩
    · exact same ▸ here
    · have ne : q ≠ p := fun e => gone (e ▸ target)
      exact erased ▸ (List.mem_erase_of_ne ne).mpr here

/-- The entries `gone` of the bucket `b` have been removed. -/
structure Removed (s : State) (b : Nat) (gone : List Nat) (s' : State) : Prop where
  devs : s'.devOf = s.devOf
  registered : s'.registered = s.registered
  others : ∀ c, c ≠ b → s'.bucket c = s.bucket c
  kobjectPuts : s'.kobjectPuts = gone.reverse ++ s.kobjectPuts

theorem removeBucket_ok {l : List Nat} (done : removeBucket k b l s = .ok s') : Removed s b l s' := by
  induction l generalizing s with
  | nil =>
    cases done
    exact ⟨rfl, rfl, fun _ _ => rfl, rfl⟩
  | cons p rest ih =>
    obtain ⟨t, first, done⟩ := Except.bind_eq_ok done
    obtain ⟨u, off, rfl⟩ := hddRemove_ok first
    have tail := ih done
    rw [State.unlist_eq] at tail
    refine ⟨tail.devs.trans off.devs, tail.registered.trans off.registered, ?_, ?_⟩
    · intro c ne
      rw [tail.others c ne]
      rcases State.unlist_bucket (k := k) (s := { u with kobjectPuts := p :: u.kobjectPuts }) (b := b)
          (p := p) (c := c) with
        same | ⟨e, _⟩
      · rw [← off.bucket]
        exact same
      · exact absurd e ne
    · rw [tail.kobjectPuts, List.reverse_cons, List.append_assoc, ← off.kobjectPuts]
      rfl

/-- The devices of the entries removed are no targets any more. -/
theorem Registry.removed {l : List Nat} (h : Registry k s targets) (here : ∀ p ∈ l, p ∈ s.bucket b) (nodup : l.Nodup)
    (done : removeBucket k b l s = .ok s') :
    ∃ rest, Registry k s' rest ∧ rest ⊆ targets ∧ ∀ p ∈ l, s.devOf p ∉ rest := by
  induction l generalizing s targets with
  | nil =>
    cases done
    exact ⟨targets, h, Finset.Subset.refl _, fun p none => absurd none List.not_mem_nil⟩
  | cons p l ih =>
    obtain ⟨t, first, done⟩ := Except.bind_eq_ok done
    obtain ⟨u, off, rfl⟩ := hddRemove_ok first
    have gone : u.devOf p ∉ targets.erase (s.devOf p) := by
      rw [off.devs]
      exact Finset.notMem_erase _ _
    have next := ((h.unloaded (here p List.mem_cons_self) off).meanwhile u.sce
      (p :: u.kobjectPuts)).unlist (b := b) gone
    obtain ⟨new, nodup⟩ := List.nodup_cons.mp nodup
    have left : ∀ q ∈ l, q ∈ (State.unlist k { u with kobjectPuts := p :: u.kobjectPuts } b p).bucket b := by
      intro q member
      have old : q ∈ u.bucket b := off.bucket ▸ here q (List.mem_cons_of_mem _ member)
      rcases State.unlist_bucket (k := k) (s := { u with kobjectPuts := p :: u.kobjectPuts }) (b := b)
          (p := p) (c := b) with
        same | ⟨_, erased⟩
      · exact same ▸ old
      · have ne : q ≠ p := fun e => new (e ▸ member)
        exact erased ▸ (List.mem_erase_of_ne ne).mpr old
    obtain ⟨rest, h', fewer, none⟩ := ih next left nodup done
    have devs : State.devOf (State.unlist k { u with kobjectPuts := p :: u.kobjectPuts } b p) = s.devOf := by
      rw [State.unlist_eq]
      exact off.devs
    rw [devs] at none
    refine ⟨rest, h', fewer.trans (Finset.erase_subset _ _), ?_⟩
    intro q member
    rcases List.mem_cons.mp member with rfl | member
    · exact fun target => Finset.notMem_erase _ _ (fewer target)
    · exact none q member

theorem removeBuckets_ok {bs : List Nat} (nodup : bs.Nodup) (done : removeBuckets k bs s = .ok s') :
    s'.registered = s.registered ∧ s'.kobjectPuts.Perm (bs.flatMap s.bucket ++ s.kobjectPuts) := by
  induction bs generalizing s with
  | nil =>
    cases done
    exact ⟨rfl, .refl _⟩
  | cons b rest ih =>
    obtain ⟨t, first, done⟩ := Except.bind_eq_ok done
    have removed := removeBucket_ok first
    obtain ⟨new, nodup⟩ := List.nodup_cons.mp nodup
    obtain ⟨registered, puts⟩ := ih nodup done
    have same : rest.flatMap t.bucket = rest.flatMap s.bucket :=
      List.flatMap_congr fun c member => removed.others c fun e => new (e ▸ member)
    refine ⟨registered.trans removed.registered, ?_⟩
    rw [same, removed.kobjectPuts, ← List.append_assoc] at puts
    rw [List.flatMap_cons]
    refine puts.trans (List.Perm.append_right _ ?_)
    exact List.perm_append_comm.trans ((List.reverse_perm _).append_right _)

theorem Registry.removedAll {bs : List Nat} (h : Registry k s targets) (nodup : bs.Nodup)
    (done : removeBuckets k bs s = .ok s') :
    ∃ rest, Registry k s' rest ∧ rest ⊆ targets ∧ ∀ b ∈ bs, ∀ p ∈ s.bucket b, s.devOf p ∉ rest := by
  induction bs generalizing s targets with
  | nil =>
    cases done
    exact ⟨targets, h, Finset.Subset.refl _, fun b none => absurd none List.not_mem_nil⟩
  | cons b bs ih =>
    obtain ⟨t, first, done⟩ := Except.bind_eq_ok done
    obtain ⟨left, h₁, fewer₁, none₁⟩ := h.removed (fun _ here => here) (h.buckets.distinct b).of_map first
    have removed := removeBucket_ok first
    obtain ⟨new, nodup⟩ := List.nodup_cons.mp nodup
    obtain ⟨rest, h', fewer, none⟩ := ih h₁ nodup done
    refine ⟨rest, h', fewer.trans fewer₁, ?_⟩
    intro c member p here
    rcases List.mem_cons.mp member with rfl | member
    · exact fun target => none₁ p here (fewer target)
    · have ne : c ≠ b := fun e => new (e ▸ member)
      rw [← removed.others c ne] at here
      rw [← removed.devs]
      exact none c member p here

/-- Nothing is a target after `hdd_unregister_all`, and its wait for `nr_hdd` ends. -/
theorem Registry.cleared (h : Registry k s targets) (done : hddUnregisterAll k s = .ok s') : Registry k s' ∅ := by
  obtain ⟨rest, h', fewer, none⟩ := h.removedAll List.nodup_range done
  have empty : rest = ∅ := by
    refine Finset.eq_empty_of_forall_notMem fun d target => ?_
    obtain ⟨b, p, here, rfl⟩ := h.listed d (fewer target)
    have inside : b < iostashMaxhddBckts := h.buckets.placed b p here ▸ Kernel.bucketOf_lt
    exact none b (List.mem_range.mpr inside) p here target
  exact empty ▸ h'

theorem hddUnregisterAll_puts (done : hddUnregisterAll k s = .ok s') : s'.registered = s.registered ∧
    s'.kobjectPuts.Perm (entries s.bucket iostashMaxhddBckts ++ s.kobjectPuts) := by
  unfold hddUnregisterAll at done
  unfold entries
  exact removeBuckets_ok List.nodup_range done

/-! ### What the operations are to do -/

/-- What a step makes of the set of targets. -/
def Act.after (targets : Finset Nat) : Act → Finset Nat
  | .register _ disk => insert disk.bdDev targets
  | .unregister _ disk => targets.erase disk.bdDev
  | .engine _ => targets

/-- `hdd_register` succeeds for a device that is no target. -/
def Act.Answers (k : Kernel) (s : State) (targets : Finset Nat) : Act → Prop
  | .register path disk => ∀ ret s', hddRegister k s path disk = .ok (ret, s') → (ret = 0 ↔ disk.bdDev ∉ targets)
  | _ => True

/-- `nr_hdd` counts the targets, and `hdd_search` finds them online. -/
structure Shows (k : Kernel) (s : State) (targets : Finset Nat) : Prop where
  count : s.nrHdd = targets.card
  found : ∀ dev, (∃ p, hddSearch k s dev = some p ∧ (s.hdd p).online = true) ↔ dev ∈ targets

/-- The operations, with `hdd_unregister_all` in the end, treat their targets as a set, and each registration gets
its `kobject_put`. -/
def Proper (k : Kernel) : State → Finset Nat → List Act → Prop
  | s, targets, [] => Shows k s targets ∧
      ∀ s', hddUnregisterAll k s = .ok s' → Shows k s' ∅ ∧ s'.kobjectPuts.Perm s'.registered
  | s, targets, act :: rest => Shows k s targets ∧ act.Answers k s targets ∧
      ∀ s', s.exec k act = .ok s' → Proper k s' (act.after targets) rest

/-- No target is unregistered, and a device registered is free and finds a place for its LUN. -/
def Act.Careful (s : State) (targets : Finset Nat) : Act → Prop
  | .register _ disk => disk.bdDev ∈ targets ∨ disk.held = false ∧ Room s.sce disk.nrSects
  | .unregister _ disk => disk.bdDev ∉ targets
  | .engine _ => True

def Careful (k : Kernel) : State → Finset Nat → List Act → Prop
  | _, _, [] => True
  | s, targets, act :: rest => act.Careful s targets ∧
      ∀ s', s.exec k act = .ok s' → Careful k s' (act.after targets) rest

theorem Registry.shows (h : Registry k s targets) : Shows k s targets := by
  refine ⟨h.count, fun dev => ⟨?_, ?_⟩⟩
  · rintro ⟨p, found, on⟩
    obtain ⟨⟨b, here⟩, rfl⟩ := h.search_eq_some.mp found
    exact (h.online b p here).mp on
  · intro target
    obtain ⟨b, p, here, rfl⟩ := h.listed dev target
    exact ⟨p, h.search_eq_some.mpr ⟨⟨b, here⟩, rfl⟩, (h.online b p here).mpr target⟩

/-! ### What has been put is put again -/

/-- Each registration is in the table. -/
def Listed (s : State) : Prop := s.registered.Perm (entries s.bucket iostashMaxhddBckts)

theorem Listed.enrolled (h : Listed s) (new : Enrolled k s disk s') : Listed s' := by
  unfold Listed
  rw [new.registered, new.bucket]
  exact (h.cons s.next).trans (entries_add Kernel.bucketOf_lt).symm

theorem Listed.next (h : Listed s) (done : s.exec k act = .ok s') :
    Listed s' ∧ s.kobjectPuts <:+ s'.kobjectPuts := by
  cases act with
  | register path disk =>
    obtain ⟨⟨ret, t⟩, answer, rfl⟩ := Except.map_eq_ok.mp done
    by_cases yes : s.Accepts k disk
    · obtain ⟨u, same, new⟩ := hddRegister_accepted path yes
      obtain ⟨_, rfl⟩ := Prod.mk.inj (Except.ok.inj (answer.symm.trans same))
      exact ⟨h.enrolled new, new.kobjectPuts ▸ List.suffix_refl _⟩
    · obtain ⟨u, same, refused⟩ := hddRegister_refused path yes
      obtain ⟨_, rfl⟩ := Prod.mk.inj (Except.ok.inj (answer.symm.trans same))
      unfold Listed
      rw [refused.registered, refused.bucket, refused.kobjectPuts]
      exact ⟨h, List.suffix_refl _⟩
  | unregister path disk =>
    have done : hddUnregister k s path disk = .ok s' := done
    unfold hddUnregister at done
    split at done
    · cases done
      exact ⟨h, List.suffix_refl _⟩
    · obtain ⟨t, off, rfl⟩ := hddRemove_ok done
      unfold Listed
      dsimp only
      rw [off.registered, off.bucket, off.kobjectPuts]
      exact ⟨h, List.suffix_cons _ _⟩
  | engine op =>
    obtain ⟨r, _, rfl⟩ := Except.map_eq_ok.mp done
    exact ⟨h, List.suffix_refl _⟩

/-- `hdd_unregister_all` puts every registration, also one put before. -/
theorem Listed.balanced (h : Listed s) (done : hddUnregisterAll k s = .ok s') :
    s'.kobjectPuts.Perm s'.registered ↔ s.kobjectPuts = [] := by
  obtain ⟨registered, puts⟩ := hddUnregisterAll_puts done
  rw [registered]
  constructor
  · intro same
    have sizes := (puts.symm.trans (same.trans h)).length_eq
    rw [List.length_append] at sizes
    exact List.eq_nil_of_length_eq_zero (by omega)
  · intro none
    rw [none, List.append_nil] at puts
    exact puts.trans h.symm

theorem Listed.spoilt {acts : List Act} (h : Listed s) (put : s.kobjectPuts ≠ []) (done : run k s acts = .ok s') :
    ¬ Proper k s targets acts := by
  induction acts generalizing s targets with
  | nil => exact fun proper => put ((h.balanced done).mp (proper.2 s' done).2)
  | cons act rest ih =>
    obtain ⟨t, first, done⟩ := Except.bind_eq_ok done
    obtain ⟨h', more⟩ := h.next first
    have put' : t.kobjectPuts ≠ [] := fun none => put (List.suffix_nil.mp (none ▸ more))
    exact fun proper => ih h' put' done (proper.2.2 t first)

/-! ### Runs without an unregistered target -/

/-- So far nothing has been put, so that all entries are online. -/
structure Unspoilt (k : Kernel) (s : State) (targets : Finset Nat) : Prop where
  registry : Registry k s targets
  listed : Listed s
  unput : s.kobjectPuts = []
  all : ∀ b, ∀ p ∈ s.bucket b, s.devOf p ∈ targets

theorem Unspoilt.start {sce : Sce} {queues : Nat → Nat} : Unspoilt k (start sce queues) ∅ := by
  refine ⟨.start, ?_, rfl, fun b p here => absurd here List.not_mem_nil⟩
  have none : entries (fun _ => ([] : List Nat)) iostashMaxhddBckts = [] :=
    List.flatMap_eq_nil_iff.mpr fun _ _ => rfl
  show List.Perm [] (entries (fun _ => []) iostashMaxhddBckts)
  rw [none]

theorem Unspoilt.search_eq_none (h : Unspoilt k s targets) : searchHdd k s dev = none ↔ dev ∉ targets := by
  rw [h.registry.search_eq_none]
  constructor
  · intro none target
    obtain ⟨b, p, here, same⟩ := h.registry.listed dev target
    exact none b p here same
  · rintro absent b p here rfl
    exact absent (h.all b p here)

theorem Unspoilt.accepts_iff (h : Unspoilt k s targets) :
    s.Accepts k disk ↔ disk.bdDev ∉ targets ∧ disk.held = false ∧ Room s.sce disk.nrSects := by
  constructor
  · intro accepts
    exact ⟨h.search_eq_none.mp accepts.unlisted, accepts.unheld, accepts.room⟩
  · rintro ⟨absent, unheld, room⟩
    exact ⟨h.search_eq_none.mpr absent, unheld, fun hook => absent (h.registry.hooked _ hook), room⟩

theorem Unspoilt.answers_register (h : Unspoilt k s targets) :
    (Act.register path disk).Answers k s targets ↔ (Act.register path disk).Careful s targets := by
  by_cases yes : s.Accepts k disk
  · obtain ⟨u, same, _⟩ := hddRegister_accepted path yes
    obtain ⟨absent, fit⟩ := h.accepts_iff.mp yes
    refine ⟨fun _ => Or.inr fit, fun _ ret s' done => ?_⟩
    obtain ⟨rfl, _⟩ := Prod.mk.inj (Except.ok.inj (same.symm.trans done))
    exact ⟨fun _ => absent, fun _ => rfl⟩
  · obtain ⟨u, same, _⟩ := hddRegister_refused path yes
    constructor
    · intro answers
      refine or_iff_not_imp_left.mpr fun absent => ?_
      exact absurd ((answers (-1) u same).mpr absent) (by decide)
    · intro careful ret s' done
      obtain ⟨rfl, _⟩ := Prod.mk.inj (Except.ok.inj (same.symm.trans done))
      refine ⟨fun zero => absurd zero (by decide), fun absent => ?_⟩
      exact absurd (h.accepts_iff.mpr ⟨absent, careful.resolve_left absent⟩) yes

theorem Unspoilt.enrolled (h : Unspoilt k s targets) (accepts : s.Accepts k disk) (new : Enrolled k s disk s') :
    Unspoilt k s' (insert disk.bdDev targets) := by
  refine ⟨(h.registry.enrolled accepts new).2, h.listed.enrolled new, new.kobjectPuts.trans h.unput, ?_⟩
  intro b p here
  rw [new.bucket] at here
  rcases mem_bucketAdd.mp here with old | ⟨rfl, _⟩
  · have same : s'.hdd p = s.hdd p := new.others p (Nat.ne_of_lt (h.registry.known b p old).1)
    rw [State.devOf, same]
    exact Finset.mem_insert_of_mem (h.all b p old)
  · rw [State.devOf, new.devT]
    exact Finset.mem_insert_self _ _

theorem Unspoilt.refused (h : Unspoilt k s targets) (refused : Refused s s') : Unspoilt k s' targets := by
  refine ⟨h.registry.refused refused, ?_, refused.kobjectPuts.trans h.unput, ?_⟩
  · unfold Listed
    rw [refused.registered, refused.bucket]
    exact h.listed
  · intro b p here
    rw [refused.bucket] at here
    rw [State.devOf, refused.others p (Nat.ne_of_lt (h.registry.known b p here).1)]
    exact h.all b p here

theorem Unspoilt.next (h : Unspoilt k s targets) (careful : act.Careful s targets) (done : s.exec k act = .ok s') :
    Unspoilt k s' (act.after targets) := by
  cases act with
  | register path disk =>
    obtain ⟨⟨ret, t⟩, answer, rfl⟩ := Except.map_eq_ok.mp done
    by_cases yes : s.Accepts k disk
    · obtain ⟨u, same, new⟩ := hddRegister_accepted path yes
      obtain ⟨_, rfl⟩ := Prod.mk.inj (Except.ok.inj (answer.symm.trans same))
      exact h.enrolled yes new
    · obtain ⟨u, same, refused⟩ := hddRegister_refused path yes
      obtain ⟨_, rfl⟩ := Prod.mk.inj (Except.ok.inj (answer.symm.trans same))
      have target : disk.bdDev ∈ targets := by
        by_contra absent
        exact yes (h.accepts_iff.mpr ⟨absent, careful.resolve_left absent⟩)
      have still : (Act.register path disk).after targets = targets := Finset.insert_eq_of_mem target
      rw [still]
      exact h.refused refused
  | unregister path disk =>
    have done : hddUnregister k s path disk = .ok s' := done
    unfold hddUnregister at done
    rw [h.search_eq_none.mpr careful] at done
    cases done
    have still : (Act.unregister path disk).after targets = targets := Finset.erase_eq_of_notMem careful
    rw [still]
    exact h
  | engine op =>
    obtain ⟨r, _, rfl⟩ := Except.map_eq_ok.mp done
    exact ⟨h.registry.meanwhile r.2 s.kobjectPuts, h.listed, h.unput, h.all⟩

/-- Unregistering a target puts its `kobject`. -/
theorem Unspoilt.unregister_puts (h : Unspoilt k s targets) (target : disk.bdDev ∈ targets)
    (done : s.exec k (.unregister path disk) = .ok s') : s'.kobjectPuts ≠ [] := by
  have done : hddUnregister k s path disk = .ok s' := done
  unfold hddUnregister at done
  split at done
  · rename_i none
    exact absurd target (h.search_eq_none.mp none)
  · obtain ⟨t, _, rfl⟩ := hddRemove_ok done
    exact List.cons_ne_nil _ _

theorem Unspoilt.proper_iff {acts : List Act} (h : Unspoilt k s targets) (done : run k s acts = .ok s') :
    Proper k s targets acts ↔ Careful k s targets acts := by
  induction acts generalizing s targets with
  | nil =>
    refine ⟨fun _ => trivial, fun _ => ⟨h.registry.shows, fun t done => ?_⟩⟩
    exact ⟨(h.registry.cleared done).shows, (h.listed.balanced done).mpr h.unput⟩
  | cons act rest ih =>
    obtain ⟨t, first, tail⟩ := Except.bind_eq_ok done
    have only : ∀ u, s.exec k act = .ok u → u = t := fun u step => Except.ok.inj (step.symm.trans first)
    by_cases careful : act.Careful s targets
    · have same := ih (h.next careful first) tail
      have answers : act.Answers k s targets := by
        cases act with
        | register path disk => exact h.answers_register.mpr careful
        | unregister path disk => trivial
        | engine op => trivial
      constructor
      · intro proper
        exact ⟨careful, fun u step => only u step ▸ same.mp (proper.2.2 t first)⟩
      · intro later
        exact ⟨h.registry.shows, answers, fun u step => only u step ▸ same.mpr (later.2 t first)⟩
    · refine ⟨fun proper => absurd ?_ careful, fun later => absurd later.1 careful⟩
      cases act with
      | register path disk => exact h.answers_register.mp proper.2.1
      | unregister path disk =>
        have target : disk.bdDev ∈ targets := not_not.mp careful
        exact absurd (proper.2.2 t first) ((h.listed.next first).1.spoilt (h.unregister_puts target first) tail)
      | engine op => trivial

/-! ### The operations return -/

theorem hddRemove_returns (inv : Inv nowhere s.sce) (roomy : Roomy s.sce.dev) :
    ∃ s', hddRemove k s p = .ok s' ∧ Inv nowhere s'.sce ∧ s'.sce.dev = s.sce.dev := by
  obtain ⟨t, off, inv', dev⟩ := unloadHdd_returns (k := k) (p := p) inv roomy
  exact ⟨_, Except.map_eq_ok.mpr ⟨t, off, rfl⟩, inv', dev⟩

theorem removeBucket_returns {l : List Nat} (inv : Inv nowhere s.sce) (roomy : Roomy s.sce.dev) :
    ∃ s', removeBucket k b l s = .ok s' ∧ Inv nowhere s'.sce ∧ s'.sce.dev = s.sce.dev := by
  induction l generalizing s with
  | nil => exact ⟨s, rfl, inv, rfl⟩
  | cons p rest ih =>
    obtain ⟨t, first, inv₁, dev₁⟩ := hddRemove_returns (k := k) (p := p) inv roomy
    have sce : (t.unlist k b p).sce = t.sce := by rw [State.unlist_eq]
    obtain ⟨s', done, inv', dev'⟩ := ih (s := t.unlist k b p) (sce ▸ inv₁) (by rw [sce, dev₁]; exact roomy)
    refine ⟨s', ?_, inv', by rw [dev', sce, dev₁]⟩
    unfold removeBucket
    rw [first]
    exact done

theorem removeBuckets_returns {bs : List Nat} (inv : Inv nowhere s.sce) (roomy : Roomy s.sce.dev) :
    ∃ s', removeBuckets k bs s = .ok s' := by
  induction bs generalizing s with
  | nil => exact ⟨s, rfl⟩
  | cons b rest ih =>
    obtain ⟨t, first, inv₁, dev₁⟩ := removeBucket_returns (k := k) (b := b) (l := s.bucket b) inv roomy
    obtain ⟨s', done⟩ := ih inv₁ (dev₁ ▸ roomy)
    refine ⟨s', ?_⟩
    unfold removeBuckets
    rw [first]
    exact done

theorem exec_returns (inv : Inv nowhere s.sce) (roomy : Roomy s.sce.dev) (quiet : ∀ op, act ≠ .engine op) :
    ∃ s', s.exec k act = .ok s' ∧ Inv nowhere s'.sce ∧ s'.sce.dev = s.sce.dev := by
  cases act with
  | register path disk =>
    by_cases yes : s.Accepts k disk
    · obtain ⟨s', done, new⟩ := hddRegister_accepted path yes
      refine ⟨s', Except.map_eq_ok.mpr ⟨_, done, rfl⟩, ?_⟩
      obtain ⟨i, added⟩ := new.sce
      rcases sceAddlun_spec inv disk.sized s.next true with fail | ⟨j, sce', same, inv', _, _, _, _, view⟩
      · exact absurd (Except.ok.inj (added.symm.trans fail)) (by simp)
      · obtain ⟨_, rfl⟩ := Prod.mk.inj (Except.ok.inj (added.symm.trans same))
        exact ⟨inv', congrArg View.dev view⟩
    · obtain ⟨s', done, refused⟩ := hddRegister_refused path yes
      refine ⟨s', Except.map_eq_ok.mpr ⟨_, done, rfl⟩, ?_⟩
      rw [refused.sce]
      exact ⟨inv, rfl⟩
  | unregister path disk =>
    unfold State.exec hddUnregister
    dsimp only
    split
    · exact ⟨s, rfl, inv, rfl⟩
    · exact hddRemove_returns inv roomy
  | engine op => exact absurd rfl (quiet op)

/-- With room on the cache devices no control operation stops. -/
theorem run_returns {acts : List Act} (inv : Inv nowhere s.sce) (roomy : Roomy s.sce.dev)
    (quiet : ∀ act ∈ acts, ∀ op, act ≠ .engine op) : ∃ s', run k s acts = .ok s' := by
  induction acts generalizing s with
  | nil => exact removeBuckets_returns inv roomy
  | cons act rest ih =>
    obtain ⟨t, first, inv₁, dev₁⟩ := exec_returns (k := k) inv roomy (quiet act List.mem_cons_self)
    obtain ⟨s', done⟩ := ih inv₁ (dev₁ ▸ roomy) fun act member => quiet act (List.mem_cons_of_mem _ member)
    refine ⟨s', ?_⟩
    unfold run
    rw [first]
    exact done

/-! ### The result -/

/-- Over every run: the operations treat the targets as a set and put each registration once exactly when no target
is unregistered before the end and every device registered is free and finds room in the engine. -/
theorem targets_proper_iff {sce : Sce} {queues : Nat → Nat} {acts : List Act}
    (done : run k (start sce queues) acts = .ok s') :
    Proper k (start sce queues) ∅ acts ↔ Careful k (start sce queues) ∅ acts :=
  Unspoilt.start.proper_iff done

/-- Two disks of 2 GiB. -/
def sda : Disk := ⟨0x800000, 0x400000, false, by decide, by decide⟩

def sdb : Disk := ⟨0x800010, 0x400000, false, by decide, by decide⟩

/-- `"/dev/sda"` -/
def devSda : CStr := [0x2f#8, 0x64#8, 0x65#8, 0x76#8, 0x2f#8, 0x73#8, 0x64#8, 0x61#8]

/-- `"/dev/sdb"` -/
def devSdb : CStr := [0x2f#8, 0x64#8, 0x65#8, 0x76#8, 0x2f#8, 0x73#8, 0x64#8, 0x62#8]

/-- A kernel from 3.2 on whose `hash_32` keeps all bits. -/
def kernel : Kernel := ⟨fun v _ => v, true⟩

/-- After `iostash_init`, when there is no cache device yet. -/
def bare : State := start sceCreate fun _ => 0

theorem bare_returns (acts : List Act) (quiet : ∀ act ∈ acts, ∀ op, act ≠ .engine op) :
    ∃ s', run kernel bare acts = .ok s' :=
  run_returns Inv.create (roomy_of_short fun _ _ _ dev => nomatch dev) quiet

theorem targets_proper_pair : ∃ s',
    run kernel bare [.register devSda sda, .register devSdb sdb, .register devSda sda] = .ok s' ∧
    (Proper kernel bare ∅ [.register devSda sda, .register devSdb sdb, .register devSda sda] ↔
      Careful kernel bare ∅ [.register devSda sda, .register devSdb sdb, .register devSda sda]) := by
  obtain ⟨s', done⟩ := bare_returns [.register devSda sda, .register devSdb sdb, .register devSda sda] (by simp)
  exact ⟨s', done, targets_proper_iff done⟩

/-- A disk that was a target is not registered again, and its one registration is put twice. -/
theorem register_again : ∃ s',
    run kernel bare [.register devSda sda, .unregister devSda sda, .register devSda sda] = .ok s' ∧
    s'.registered = [1] ∧ s'.kobjectPuts = [1, 1] ∧
    ¬ Proper kernel bare ∅ [.register devSda sda, .unregister devSda sda, .register devSda sda] := by
  obtain ⟨s', done⟩ := bare_returns [.register devSda sda, .unregister devSda sda, .register devSda sda] (by simp)
  have logs : (run kernel bare [.register devSda sda, .unregister devSda sda, .register devSda sda]).toOption.map
      (fun s => (s.registered, s.kobjectPuts)) = some ([1], [1, 1]) := by
    decide +kernel
  rw [done] at logs
  obtain ⟨registered, puts⟩ := Prod.mk.inj (Option.some.inj logs)
  refine ⟨s', done, registered, puts, fun proper => ?_⟩
  have careful := (Unspoilt.start.proper_iff done).mp proper
  obtain ⟨t, first, _⟩ := Except.bind_eq_ok done
  exact (careful.2 t first).1 (Finset.mem_insert_self _ _)

end Targets

end Iostash
