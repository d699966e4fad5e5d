import Iostash.Sce.Window

/-!
# Entries of the miss log and later LUNs of their slots

The log keeps the number of a slot and of a fragment. A LUN that takes the slot of a removed one inherits
its entries, whatever its size.
-/

namespace Iostash

open Util

/-- The slot `sce_addlun` takes. -/
def Sce.freeSlot (s : Sce) : Option Nat := (List.range sceMaxLun).find? fun i => (s.luntbl i).isNone

/-- The fragments of a new LUN are as many as the entries of its slot in the window ask for. -/
def Sce.Roomier (s : Sce) : Op → Prop
  | .addlun m _ vmalloc => vmalloc = true → 0 < lunFrags m → ∀ i ∈ s.freeSlot, ∀ e ∈ s.window, e.1 = i →
      e.2 < lunFrags m
  | _ => True

instance (s : Sce) (op : Op) : Decidable (s.Roomier op) :=
  match op with
  | .addlun m _ vmalloc => inferInstanceAs (Decidable (vmalloc = true → 0 < lunFrags m → ∀ i ∈ s.freeSlot,
      ∀ e ∈ s.window, e.1 = i → e.2 < lunFrags m))
  | .addcdev _ _ _ | .rmcdev _ | .rmlun _ | .get4read _ _ _ | .put4read _ _ _ | .invalidate _ _ _ | .get4pop _
  | .put4pop _ _ => .isTrue trivial

/-- The entries for which `_choose4population` reads the fragment map, along its loop. -/
def choose4populationReads (s : Sce) : Nat → List (Nat × Nat)
  | 0 => []
  | n + 1 =>
    match misslogGet s (sceMissWindow - (n + 1)) with
    | (.success, some (lunidx, fragnum)) =>
      if lunIsvalididx s lunidx = false then choose4populationReads s n
      else
        match s.luntbl lunidx with
        | none => choose4populationReads s n
        | some _ => (lunidx, fragnum) :: choose4populationReads s n
    | _ => []

namespace Sce

/-- The fragment of an entry is one of the map of the LUN that has its slot now. -/
def Fits (s : Sce) (e : Nat × Nat) : Prop := ∃ l, s.luntbl e.1 = some l ∧ e.2 < l.nrFrag

/-- No entry of the window names a fragment past the map of a LUN. -/
def WindowFits (s : Sce) : Prop := ∀ e ∈ s.window, ∀ l, s.luntbl e.1 = some l → e.2 < l.nrFrag

variable {s s' : Sce} {e : Nat × Nat} {i m ctx : Nat} {vmalloc : Bool}

/-! ### What is read -/

theorem choose4populationReads_eq {n : Nat} (le : n ≤ sceMissWindow) : choose4populationReads s n =
    (s.window.drop (sceMissWindow - n)).takeWhile fun e => lunIsvalididx s e.1 := by
  induction n with
  | zero =>
    rw [window_done]
    rfl
  | succ n ih =>
    unfold choose4populationReads
    rcases window_step (s := s) le with ⟨⟨i, f⟩, get, split⟩ | ⟨get, none⟩
    · rw [get, split]
      cases valid : lunIsvalididx s i with
      | false =>
        rw [List.takeWhile_cons_of_neg (by simp [valid])]
        rfl
      | true =>
        obtain ⟨_, l, lun, _⟩ := lunIsvalididx_iff.mp valid
        rw [List.takeWhile_cons_of_pos (by simp [valid])]
        simp [valid, lun, ih (Nat.le_of_succ_le le)]
    · rw [get, none]
      rfl

theorem reads_front : choose4populationReads s sceMissWindow = s.front := by
  rw [choose4populationReads_eq le_rfl, Nat.sub_self, List.drop_zero]
  rfl

theorem WindowFits.reads (h : s.WindowFits) (member : e ∈ choose4populationReads s sceMissWindow) : s.Fits e := by
  rw [reads_front] at member
  unfold front at member
  have valid := List.mem_takeWhile_imp member
  obtain ⟨_, l, lun, _⟩ := lunIsvalididx_iff.mp valid
  exact ⟨l, lun, h e ((List.takeWhile_prefix _).subset member) l lun⟩

theorem choose4population_reads {past : Nat → Nat → Word} (chosen : choose4population s past = some e) :
    e ∈ choose4populationReads s sceMissWindow := by
  rw [choose4population_eq, pick_iff] at chosen
  rw [reads_front]
  exact chosen.mem

/-! ### Runs -/

theorem window_congr (same : s'.misslog = s.misslog) : s'.window = s.window := by
  obtain ⟨fragnum, lunidx, head, size⟩ := misslog_eq.mp same
  simp only [window, logged, fragnum, lunidx, head, size]

theorem sceAddlun_slot (run : sceAddlun s m ctx vmalloc = .ok (some i, s')) : s.freeSlot = some i ∧ vmalloc = true := by
  unfold sceAddlun at run
  split at run
  · cases run
  · split at run
    · cases run
    · rename_i found
      cases init : lunInit m vmalloc with
      | none =>
        rw [init] at run
        cases run
      | some l =>
        rw [init] at run
        cases run
        refine ⟨found, ?_⟩
        cases vmalloc with
        | true => rfl
        | false => simp [lunInit] at init

/-- A call keeps the entries of the window inside the LUNs, if a LUN it adds has room for those of its slot. -/
theorem call_windowFits {op : Op} {reply : Reply} (h : Inv nowhere s) (log : ∃ hist, Logged hist s)
    (fits : s.WindowFits) (typed : op.InType) (roomy : s.Roomier op) (run : s.call op = .ok (reply, s')) :
    s'.WindowFits := by
  -- a LUN has the size it had, unless it has just been added
  have size : ∀ j l', s'.luntbl j = some l' → (∃ l, s.luntbl j = some l ∧ l.nrFrag = l'.nrFrag) ∨
      ∃ m ctx vmalloc, op = .addlun m ctx vmalloc ∧ reply = .hndl (some j) ∧ l'.nrFrag = lunFrags m ∧ 0 < l'.nrFrag := by
    intro j l' lun'
    obtain ⟨h', same | effect⟩ := call_inv h typed run
    · rw [same] at lun'
      exact Or.inl ⟨l', lun', rfl⟩
    · have volume' : s'.view.lun j = some l'.volume := by rw [view_lun, lun']; rfl
      rcases effect.lun volume' with ⟨v, volume, same⟩ | ⟨m, ctx, vmalloc, rfl, rfl, _, new⟩
      · obtain ⟨l, lun, rfl⟩ := Option.map_eq_some_iff.mp (view_lun ▸ volume)
        exact Or.inl ⟨l, lun, same.2.2.symm⟩
      · have new : l'.nrFrag = lunFrags m := congrArg Volume.nrFrag new
        exact Or.inr ⟨m, ctx, vmalloc, rfl, rfl, new, (h'.sound.lun j _ volume').2.1⟩
  -- so an entry that was there before is inside
  have old : ∀ e ∈ s.window, ∀ l', s'.luntbl e.1 = some l' → e.2 < l'.nrFrag := by
    intro e member l' lun'
    rcases size e.1 l' lun' with ⟨l, lun, same⟩ | ⟨m, ctx, vmalloc, rfl, rfl, new, pos⟩
    · rw [← same]
      exact fits e member l lun
    · obtain ⟨⟨_, t⟩, done, same⟩ := Except.map_eq_ok.mp run
      obtain ⟨replied, rfl⟩ := Prod.mk.inj same
      obtain rfl := Reply.hndl.inj replied
      obtain ⟨slot, rfl⟩ := sceAddlun_slot done
      rw [new] at pos ⊢
      exact roomy rfl pos e.1 slot e member rfl
  cases call_tells h typed run with
  | @missed i f miss _ misses =>
    obtain ⟨hist, log⟩ := log
    have log' : Logged ((i, f) :: hist) s' := .other (.put i f log) misses.misslog
    intro e member l' lun'
    rw [log'.window, show sceMissWindow = 99 + 1 from rfl, List.take_succ_cons] at member
    rcases List.mem_cons.mp member with rfl | earlier
    · obtain ⟨l, lun, inside⟩ := misses.inside
      rcases size i l' lun' with ⟨l₀, lun₀, same⟩ | ⟨m, ctx, vmalloc, rfl, _⟩
      · obtain rfl := Option.some.inj (lun.symm.trans lun₀)
        rwa [← same]
      · cases miss
    · refine old e ?_ l' lun'
      rw [log.window]
      exact (List.take_subset_take_left hist (by decide)) earlier
  | added _ _ spares => exact fun e member => old e (window_congr spares.misslog ▸ member)
  | mapped _ _ spares => exact fun e member => old e (window_congr spares.misslog ▸ member)
  | spared _ _ spares => exact fun e member => old e (window_congr spares.misslog ▸ member)

/-- A LUN is removed and one of the same size takes its slot. -/
def reused : Sce := (execAll exec (fun s op => decide (op.InType ∧ s.Roomier op)) sceCreate
  [.addlun 4096 9 true, .get4read 0 2048 8, .rmlun 0, .addlun 4096 10 true]).getD sceCreate

/-- A LUN is removed and a smaller one takes its slot. -/
def shrunk : Sce := after [.addlun 4096 9 true, .get4read 0 2048 8, .rmlun 0, .addlun 2048 10 true]

end Sce

end Iostash
