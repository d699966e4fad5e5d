import Iostash.Block.Coherence

/-!
# Reads after writes

A write bio reaches its disk between the time it came and the time it is completed. A read bio that comes
after it was completed returns what it wrote, unless another write bio came between.
-/

namespace Iostash

open Util

namespace Store

variable {s s' : Store} {contents : Nat × Nat → Sector} {ssd : Nat → Nat → Sector} {b : WriteBio} {act : Act}

/-- The write bios and the updates of the disks are the same in the same order. -/
structure Landed (s : Store) : Prop where
  kept : s.disk.Kept
  began : ∀ b ∈ s.writes, b.began ≤ s.disk.now
  landed : ∀ b ∈ s.writes, ∀ a, b.landed = some a → b.began < a ∧ (a, b.change) ∈ s.disk.updates
  ended : ∀ b ∈ s.writes, ∀ e, b.ended = some e → ∃ a, b.landed = some a ∧ a < e
  updates : ∀ m ∈ s.disk.updates, ∃ b ∈ s.writes, b.landed = some m.1 ∧ b.change = m.2

theorem Landed.init : (init contents ssd).Landed := by
  refine ⟨.start contents, ?_, ?_, ?_, ?_⟩ <;> intro b member <;> cases member

theorem Landed.still (h : s.Landed) (disk : s'.disk = s.disk.tick) (writes : s'.writes = s.writes) : s'.Landed := by
  refine ⟨?_, ?_, ?_, ?_, ?_⟩
  · rw [disk]
    exact h.kept.tick
  · rw [disk, writes]
    exact fun b member => Nat.le_succ_of_le (h.began b member)
  · rw [disk, writes]
    exact h.landed
  · rw [writes]
    exact h.ended
  · rw [disk, writes]
    exact h.updates

theorem Landed.write (h : s.Landed) (disk : s'.disk = s.disk.tick) (writes : s'.writes = b :: s.writes)
    (began : b.began = s.disk.now) (flying : b.landed = none) (open_ : b.ended = none) : s'.Landed := by
  refine ⟨?_, ?_, ?_, ?_, ?_⟩
  · rw [disk]
    exact h.kept.tick
  · rw [disk, writes]
    intro b' member
    rcases List.mem_cons.mp member with rfl | old
    · rw [began]
      exact Nat.le_succ _
    · exact Nat.le_succ_of_le (h.began b' old)
  · rw [disk, writes]
    intro b' member a landed
    rcases List.mem_cons.mp member with rfl | old
    · cases flying.symm.trans landed
    · exact h.landed b' old a landed
  · rw [writes]
    intro b' member e ended
    rcases List.mem_cons.mp member with rfl | old
    · cases open_.symm.trans ended
    · exact h.ended b' old e ended
  · rw [disk, writes]
    intro m member
    obtain ⟨b', old, same⟩ := h.updates m member
    exact ⟨b', List.mem_cons_of_mem _ old, same⟩

/-- A step that marks one of the bios. -/
theorem Landed.mark {before after : List WriteBio} {b' : WriteBio} (h : s.Landed) (split : s.writes = before ++ b :: after)
    (writes : s'.writes = b' :: (before ++ after)) (now : s'.disk.now = s.disk.now + 1) (kept : s'.disk.Kept)
    (began : b'.began = b.began) (change : b'.change = b.change) (stays : ∀ a, b.landed = some a → b'.landed = some a)
    (landed : ∀ a, b'.landed = some a → b'.began < a ∧ (a, b'.change) ∈ s'.disk.updates)
    (ended : ∀ e, b'.ended = some e → ∃ a, b'.landed = some a ∧ a < e)
    (more : ∀ m ∈ s.disk.updates, m ∈ s'.disk.updates)
    (only : ∀ m ∈ s'.disk.updates, m ∈ s.disk.updates ∨ b'.landed = some m.1 ∧ b'.change = m.2) : s'.Landed := by
  have old : ∀ b₀ ∈ before ++ after, b₀ ∈ s.writes := by
    intro b₀ member
    rw [split]
    rcases List.mem_append.mp member with left | right
    · exact List.mem_append_left _ left
    · exact List.mem_append_right _ (List.mem_cons_of_mem _ right)
  have here : b ∈ s.writes := by rw [split]; simp
  refine ⟨kept, ?_, ?_, ?_, ?_⟩
  · rw [writes, now]
    intro b₀ member
    rcases List.mem_cons.mp member with rfl | rest
    · rw [began]
      exact Nat.le_succ_of_le (h.began b here)
    · exact Nat.le_succ_of_le (h.began b₀ (old b₀ rest))
  · rw [writes]
    intro b₀ member a at_
    rcases List.mem_cons.mp member with rfl | rest
    · exact landed a at_
    · obtain ⟨early, update⟩ := h.landed b₀ (old b₀ rest) a at_
      exact ⟨early, more _ update⟩
  · rw [writes]
    intro b₀ member e at_
    rcases List.mem_cons.mp member with rfl | rest
    · exact ended e at_
    · exact h.ended b₀ (old b₀ rest) e at_
  · rw [writes]
    intro m member
    rcases only m member with before_ | new
    · obtain ⟨b₀, there, at_, same⟩ := h.updates m before_
      rw [split] at there
      rcases List.mem_append.mp there with left | right
      · exact ⟨b₀, List.mem_cons_of_mem _ (List.mem_append_left _ left), at_, same⟩
      · rcases List.mem_cons.mp right with rfl | right
        · exact ⟨b', List.mem_cons_self, stays _ at_, change.trans same⟩
        · exact ⟨b₀, List.mem_cons_of_mem _ (List.mem_append_right _ right), at_, same⟩
    · exact ⟨b', List.mem_cons_self, new⟩

theorem Landed.land {id : Nat} (h : s.Landed) (moves : s.exec (.land id) = some s') : s'.Landed := by
  obtain ⟨b, found, rfl⟩ := Option.map_eq_some_iff.mp moves
  obtain ⟨before, after, split, rest⟩ := find_split found
  have member := List.mem_of_find?_eq_some found
  have flying : b.landed = none := by
    have here := List.find?_some found
    simp only [Bool.and_eq_true, Option.isNone_iff_eq_none] at here
    exact here.2
  refine h.mark split (congrArg (_ :: ·) rest) rfl (h.kept.update _) rfl rfl ?_ ?_ ?_ ?_ ?_
  · intro a at_
    cases flying.symm.trans at_
  · intro a at_
    obtain rfl := Option.some.inj at_
    exact ⟨Nat.lt_succ_of_le (h.began b member), List.mem_cons_self⟩
  · intro e at_
    obtain ⟨a, landed, _⟩ := h.ended b member e at_
    cases flying.symm.trans landed
  · exact fun m => List.mem_cons_of_mem _
  · intro m new
    rcases List.mem_cons.mp new with rfl | old
    · exact Or.inr ⟨rfl, rfl⟩
    · exact Or.inl old

theorem Landed.endWrite {id : Nat} (h : s.Landed) (moves : s.exec (.endWrite id) = some s') : s'.Landed := by
  obtain ⟨b, found, rfl⟩ := Option.map_eq_some_iff.mp moves
  obtain ⟨before, after, split, rest⟩ := find_split found
  have member := List.mem_of_find?_eq_some found
  refine h.mark split (congrArg (_ :: ·) rest) rfl h.kept.tick rfl rfl (fun _ at_ => at_) ?_ ?_ (fun _ old => old) fun _ => Or.inl
  · exact h.landed b member
  · intro e at_
    have here := List.find?_some found
    simp only [Bool.and_eq_true] at here
    obtain ⟨a, landed⟩ := Option.isSome_iff_exists.mp here.1.2
    refine ⟨a, landed, ?_⟩
    obtain rfl := Option.some.inj at_
    exact Nat.lt_succ_of_le (h.kept.past _ (h.landed b member a landed).2)

/-- A write bio that fails is not among those that reached the disk. -/
theorem Landed.failWrite {id : Nat} (h : s.Landed) (moves : s.exec (.failWrite id) = some s') : s'.Landed := by
  obtain ⟨b, found, rfl⟩ := Option.map_eq_some_iff.mp moves
  obtain ⟨before, after, split, rest⟩ := find_split found
  have flying : b.landed = none := by
    have here := List.find?_some found
    simp only [Bool.and_eq_true, Option.isNone_iff_eq_none] at here
    exact here.2
  have old : ∀ b' ∈ s.writes.eraseP (fun b => b.began == id && b.landed.isNone), b' ∈ s.writes :=
    fun _ => List.mem_of_mem_eraseP
  refine ⟨h.kept.tick, fun b' member => Nat.le_succ_of_le (h.began b' (old b' member)),
    fun b' member => h.landed b' (old b' member), fun b' member => h.ended b' (old b' member), ?_⟩
  intro m member
  obtain ⟨b', there, landed, same⟩ := h.updates m member
  refine ⟨b', ?_, landed, same⟩
  rw [rest]
  rw [split] at there
  rcases List.mem_append.mp there with left | right
  · exact List.mem_append_left _ left
  · rcases List.mem_cons.mp right with rfl | right
    · cases flying.symm.trans landed
    · exact List.mem_append_right _ right

theorem Landed.step (h : s.Landed) (moves : s.exec act = some s') : s'.Landed := by
  have engine : ∀ {call : Call}, s.engine call = some s' → s'.Landed := by
    intro call moves
    obtain ⟨w', _, rfl⟩ := Option.map_eq_some_iff.mp moves
    exact h.still rfl rfl
  have deliver : ∀ {id : Nat} {get : ReadBio → Option (Nat → Sector)}, s.deliver id get = some s' → s'.Landed := by
    intro id get moves
    obtain ⟨r, _, moves⟩ := Option.bind_eq_some_iff.mp moves
    obtain ⟨data, _, rfl⟩ := Option.map_eq_some_iff.mp moves
    exact h.still rfl rfl
  cases act with
  | addcdev | rmcdev | put4pop => exact engine moves
  | register | get4pop | read | put4read | failRead =>
    obtain ⟨_, _, rfl⟩ := Option.map_eq_some_iff.mp moves
    exact h.still rfl rfl
  | offline =>
    obtain rfl := Option.some.inj moves
    exact h.still rfl rfl
  | rmlun | endRead =>
    obtain ⟨_, _, moves⟩ := Option.bind_eq_some_iff.mp moves
    obtain ⟨_, _, rfl⟩ := Option.map_eq_some_iff.mp moves
    exact h.still rfl rfl
  | write hdd bio data =>
    obtain ⟨w', _, rfl⟩ := Option.map_eq_some_iff.mp moves
    exact h.write rfl rfl rfl rfl rfl
  | land id => exact h.land moves
  | endWrite id => exact h.endWrite moves
  | failWrite id => exact h.failWrite moves
  | poptaskRead id fragbuf =>
    obtain ⟨_, _, moves⟩ := Option.bind_eq_some_iff.mp moves
    obtain ⟨_, _, moves⟩ := Option.bind_eq_some_iff.mp moves
    obtain ⟨_, _, rfl⟩ := Option.map_eq_some_iff.mp moves
    exact h.still rfl rfl
  | poptaskWrite id =>
    obtain ⟨p, _, moves⟩ := Option.bind_eq_some_iff.mp moves
    cases stage : s.stage id with
    | asked | written =>
      rw [stage] at moves
      cases moves
    | read buf =>
      rw [stage] at moves
      obtain ⟨_, _, rfl⟩ := Option.map_eq_some_iff.mp moves
      exact h.still rfl rfl
  | readSsd id => exact deliver moves
  | readHdd id => exact deliver moves

theorem landed_of_reachable (reached : Reachable exec Careful (init contents ssd) s) : s.Landed :=
  reached.invariant .init fun _ _ _ h _ moves => h.step moves

/-- The steps are careful, except that populations read whatever the disk holds. -/
def Hasty (s : Store) : Act → Prop
  | .poptaskRead _ _ => True
  | act => s.Careful act

/-- The write bio of `warming` reaches the disk after the population has read it. -/
def racing : List Act :=
  [.addcdev 2048 7 true, .register 9 4096 true, .read 9 ⟨0, 4096, 0⟩, .readHdd 2, .endRead 2,
    .write 9 ⟨0, 4096, 0⟩ fun _ => filled 1#8, .get4pop fun _ _ => 0#32, .poptaskRead 4 fun _ => filled 0#8,
    .land 5, .endWrite 5, .poptaskWrite 4, .put4pop 4, .read 9 ⟨0, 4096, 0⟩, .readSsd 12, .put4read 6, .endRead 12]

def raced : Store :=
  (Util.execAll exec (fun s act => match act with | .poptaskRead _ _ => true | act => s.calm act) blank racing).getD blank

/-- An invalidation does nothing for a fragment that is not mapped yet, and the population of it is not told:
what the write bio replaced is served from the cache from then on. -/
theorem read_stale : Reachable exec Hasty (init (fun _ => filled 0#8) fun _ _ => filled 0#8) raced ∧
    ∃ r ∈ raced.served, ∀ t, r.began ≤ t → t ≤ r.ended → r.data 0 ≠ raced.disk.held t (r.hdd, r.psn) := by
  refine ⟨Util.reachable_getD ?_ (by decide +kernel), ?_⟩
  · intro s act ok
    cases act with
    | poptaskRead => trivial
    | _ => exact careful_of_calm ok
  · have all : raced.served.map (fun r => (r.hdd, r.psn, r.began, r.ended, r.data 0 0)) =
        [(9, 0, 12, 15, 0#8), (9, 0, 2, 4, 0#8)] := by decide +kernel
    have now : ∀ t, t < 16 → 12 ≤ t → raced.disk.held t (9, 0) 0 = 1#8 := by decide +kernel
    cases served : raced.served with
    | nil =>
      rw [served] at all
      cases all
    | cons r rest =>
      rw [served, List.map_cons] at all
      have first := (List.cons.inj all).1
      simp only [Prod.mk.injEq] at first
      obtain ⟨hdd, psn, began, ended, data⟩ := first
      refine ⟨r, List.mem_cons_self, fun t low high same => ?_⟩
      have byte := congrFun same 0
      rw [data, hdd, psn, now t (by omega) (by omega)] at byte
      cases byte

end Store

end Iostash
