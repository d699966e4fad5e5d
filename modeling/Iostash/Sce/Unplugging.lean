import Iostash.Sce.Configuring

/-!
# Removing a device

`sce_rmcdev` unlinks the device's fragments from the free list, clears the descriptors that map to it,
and empties its slot.
-/

namespace Iostash

open Util

variable {s s' : Sce} {i f j k d n : Nat} {a b : Phys} {m : Slot} {pfid : Word}

/-! ### `_freefraglist_rmcdev` -/

/-- The walk has passed and kept `kept`, and has `rest` before it. -/
structure Walk (s : Sce) (kept rest : List Phys) (pfid : Word) : Prop where
  behind : Seg phys 0#32 s.nextWord s.freefraglist kept pfid
  ahead : Chain phys 0#32 s.nextWord pfid rest
  nodup : (kept ++ rest).Nodup
  count : s.nrFreefrag = (kept ++ rest).length
  present : ∀ a ∈ kept ++ rest, ∃ g, s.frag? a = some g

def Frag.unlinked (g : Frag) : Frag := { g with next := 0#32 }

/-- Only links of the fragments in `fl`, and the head and length of the list, have changed. -/
structure Relinked (s s' : Sce) (fl : List Phys) : Prop where
  same : { s' with cdevtbl := s.cdevtbl, freefraglist := s.freefraglist, nrFreefrag := s.nrFreefrag } = s
  dev : s'.dev = s.dev
  frag : ∀ b, (s'.frag? b).map Frag.unlinked = (s.frag? b).map Frag.unlinked
  off : ∀ b, b ∉ fl → s'.frag? b = s.frag? b

theorem Relinked.luntbl {fl : List Phys} (h : Relinked s s' fl) : s'.luntbl = s.luntbl :=
  (congrArg Sce.luntbl h.same :)

theorem Relinked.nrCdev {fl : List Phys} (h : Relinked s s' fl) : s'.nrCdev = s.nrCdev :=
  (congrArg Sce.nrCdev h.same :)

theorem Relinked.nrLun {fl : List Phys} (h : Relinked s s' fl) : s'.nrLun = s.nrLun :=
  (congrArg Sce.nrLun h.same :)

theorem Relinked.nrFrag {fl : List Phys} (h : Relinked s s' fl) : s'.nrFrag = s.nrFrag :=
  (congrArg Sce.nrFrag h.same :)

theorem Relinked.refl (fl : List Phys) : Relinked s s fl := ⟨rfl, rfl, fun _ => rfl, fun _ _ => rfl⟩

theorem Relinked.trans {s'' : Sce} {l l' : List Phys} (h : Relinked s s' l) (h' : Relinked s' s'' l')
    (sub : ∀ b, b ∈ l' → b ∈ l) : Relinked s s'' l := by
  refine ⟨?_, h'.dev.trans h.dev, fun b => (h'.frag b).trans (h.frag b),
    fun b out => (h'.off b fun member => out (sub b member)).trans (h.off b out)⟩
  have first := h.same
  rw [← h'.same] at first
  exact first

/-- Unlinking the node under the walk, which is the head or follows the last node kept. -/
def Sce.unlink (s : Sce) (parent : Option Phys) (next : Word) : Sce :=
  { (match parent with
      | some p => s.modifyFrag p fun g => { g with next := next }
      | none => { s with freefraglist := next } : Sce) with
    nrFreefrag := s.nrFreefrag - 1 }

theorem Walk.next {kept rest : List Phys} (walk : Walk s kept (a :: rest) pfid) :
    pfid ≠ 0#32 ∧ phys pfid = a ∧ ∃ g, s.frag? a = some g ∧ Chain phys 0#32 s.nextWord g.next rest := by
  have ahead := walk.ahead
  have ne : pfid ≠ 0#32 := by
    rintro rfl
    cases Chain.eq_nil ahead
  obtain ⟨ks, eq, tail⟩ := ahead.uncons ne
  obtain ⟨rfl, rfl⟩ := List.cons.inj eq
  obtain ⟨g, frag⟩ := walk.present (phys pfid) (by simp)
  refine ⟨ne, rfl, g, frag, ?_⟩
  have link : s.nextWord (phys pfid) = g.next := by simp [Sce.nextWord, Sce.node_of_frag frag, Frag.node]
  rwa [link] at tail

theorem Walk.keep {kept rest : List Phys} (walk : Walk s kept (a :: rest) pfid) {g : Frag}
    (frag : s.frag? a = some g) : Walk s (kept ++ [a]) rest g.next := by
  obtain ⟨ne, rfl, g', frag', tail⟩ := walk.next
  obtain rfl := Option.some.inj (frag.symm.trans frag')
  have link : s.nextWord (phys pfid) = g.next := by simp [Sce.nextWord, Sce.node_of_frag frag, Frag.node]
  have step : Seg phys 0#32 s.nextWord pfid [phys pfid] g.next := .cons ne (link ▸ .nil _)
  have same : kept ++ [phys pfid] ++ rest = kept ++ phys pfid :: rest := by simp
  exact ⟨walk.behind.append step, tail, same ▸ walk.nodup, same ▸ walk.count, same ▸ walk.present⟩

theorem Walk.unlink {kept rest : List Phys} (walk : Walk s kept (a :: rest) pfid) {g : Frag}
    (frag : s.frag? a = some g) : Walk (s.unlink kept.getLast? g.next) kept rest g.next ∧
      Relinked s (s.unlink kept.getLast? g.next) kept := by
  obtain ⟨ne, rfl, g', frag', tail⟩ := walk.next
  obtain rfl := Option.some.inj (frag.symm.trans frag')
  have nodup := walk.nodup
  have shorter : (kept ++ rest).Nodup := nodup.sublist (List.Sublist.append_left (List.sublist_cons_self _ _) _)
  have count : s.nrFreefrag - 1 = (kept ++ rest).length := by
    rw [walk.count]
    simp
  rcases List.eq_nil_or_concat kept with rfl | ⟨before, p, rfl⟩
  · refine ⟨⟨.nil _, tail, shorter, count, ?_⟩, ⟨rfl, rfl, fun _ => rfl, fun _ _ => rfl⟩⟩
    intro b member
    exact walk.present b (by simp at member ⊢; exact Or.inr member)
  · rw [List.concat_eq_append] at *
    have last : (before ++ [p]).getLast? = some p := by simp
    rw [last]
    obtain ⟨gp, fragp⟩ := walk.present p (by simp)
    have frags : ∀ b, (s.unlink (some p) g.next).frag? b =
        if b = p then (s.frag? b).map fun h => { h with next := g.next } else s.frag? b := fun b =>
      Sce.modifyFrag_frag? (s := s) (a := p) (φ := fun h => { h with next := g.next })
    have links : ∀ b, b ≠ p → (s.unlink (some p) g.next).nextWord b = s.nextWord b := by
      intro b ne
      simp only [Sce.nextWord, Sce.node, frags, if_neg ne]
    have link : (s.unlink (some p) g.next).nextWord p = g.next := by
      simp [Sce.nextWord, Sce.node, frags, fragp, Frag.node]
    have fresh : p ∉ before := by
      intro member
      have := (List.nodup_append.mp (List.nodup_append.mp nodup).1).2.2 p member p (by simp)
      exact this rfl
    have apart : p ∉ rest := by
      intro member
      have := (List.nodup_append.mp shorter).2.2 p (by simp) p member
      exact this rfl
    refine ⟨⟨?_, ?_, shorter, count, ?_⟩, ⟨rfl, ?_, ?_, ?_⟩⟩
    · exact walk.behind.redirect fresh (fun b member => links b fun e => fresh (e ▸ member)) link
    · exact tail.frame fun b member => links b fun e => apart (e ▸ member)
    · intro b member
      obtain ⟨gb, fragb⟩ := walk.present b (by
        simp only [List.mem_append, List.mem_cons] at member ⊢
        exact member.imp_right Or.inr)
      rw [frags]
      split
      · exact ⟨_, by rw [fragb]; rfl⟩
      · exact ⟨gb, fragb⟩
    · exact Sce.modifyFrag_dev (s := s) (a := p) (φ := fun h => { h with next := g.next })
    · intro b
      rw [frags]
      split
      · cases s.frag? b <;> rfl
      · rfl
    · intro b out
      rw [frags, if_neg]
      rintro rfl
      exact out (by simp)

theorem freefraglistRmcdevLoop_spec (d : Nat) (rest : List Phys) : ∀ (fuel : Nat) (kept : List Phys) (pfid : Word)
    (s : Sce), Walk s kept rest pfid → rest.length ≤ fuel →
    ∃ s', freefraglistRmcdevLoop d fuel kept.getLast? pfid s = .ok s' ∧
      Walk s' (kept ++ rest.filter fun b => decide (b.dev ≠ d)) [] 0#32 ∧ Relinked s s' (kept ++ rest) := by
  induction rest with
  | nil =>
    intro fuel kept pfid s walk _
    obtain rfl : pfid = 0#32 := by
      have ahead := walk.ahead
      unfold Chain at ahead
      cases ahead
      rfl
    refine ⟨s, ?_, by simpa using walk, .refl _⟩
    cases fuel <;> simp [freefraglistRmcdevLoop]
  | cons a rest ih =>
    intro fuel kept pfid s walk enough
    obtain ⟨fuel, rfl⟩ : ∃ n, fuel = n + 1 := ⟨fuel - 1, by simp at enough; omega⟩
    have enough' : rest.length ≤ fuel := by simp at enough; omega
    obtain ⟨ne, addr, g, frag, _⟩ := walk.next
    have dev : scePfidDev pfid = a.dev := by rw [← addr]; rfl
    simp only [freefraglistRmcdevLoop, if_neg ne, Sce.pfid2frag, addr, frag, dev]
    by_cases gone : a.dev = d
    · obtain ⟨walk₁, linked₁⟩ := walk.unlink frag
      obtain ⟨s', loop, walk', linked'⟩ := ih fuel kept g.next _ walk₁ enough'
      refine ⟨s', ?_, ?_, ?_⟩
      · rw [if_pos gone, ← loop]
        unfold Sce.unlink
        cases kept.getLast? <;> rfl
      · simpa [List.filter_cons, gone] using walk'
      · refine (Relinked.trans (l := kept ++ a :: rest) ?_ linked' ?_)
        · exact ⟨linked₁.same, linked₁.dev, linked₁.frag,
            fun b out => linked₁.off b fun member => out (by simp [member])⟩
        · intro b member
          simp only [List.mem_append, List.mem_cons] at member ⊢
          exact member.imp_right Or.inr
    · obtain ⟨s', loop, walk', linked'⟩ := ih fuel (kept ++ [a]) g.next s (walk.keep frag) enough'
      refine ⟨s', ?_, ?_, ?_⟩
      · rw [if_neg gone, ← loop]
        simp
      · simpa [List.filter_cons, gone] using walk'
      · simpa using linked'

/-! ### `_lun_rmcdev` -/

/-- Every descriptor that maps, maps to a fragment structure. -/
def Sce.Backed (s : Sce) : Prop := ∀ j k a, s.place j k = some a → ∃ g, s.frag? a = some g

/-- The mappings to device `d` in `gone` have been cleared, and nothing else but statistics has changed. -/
structure Swept (d : Nat) (gone : Nat → Nat → Prop) (s s' : Sce) : Prop where
  same : ∃ tbl, s' = { s with luntbl := tbl }
  volume : ∀ j, (s'.luntbl j).map Lun.volume = (s.luntbl j).map Lun.volume
  cleared : ∀ j k, gone j k → s'.place j k = (s.place j k).filter fun b => decide (b.dev ≠ d)
  kept : ∀ j k, ¬ gone j k → s'.place j k = s.place j k
  slot : ∀ j k m, s'.slot j k = some m → s.slot j k = some m
  entry : ∀ j k w, s.entry j k = some w → s'.entry j k = some w ∨ ∃ g, isMapped w = true ∧ (phys w).dev = d ∧
    s.frag? (phys w) = some g ∧ s'.entry j k = some (BitVec.ofNat 32 g.nrMiss &&& fragdescDatamask)

theorem Swept.frag? {gone : Nat → Nat → Prop} (h : Swept d gone s s') : s'.frag? = s.frag? := by
  obtain ⟨tbl, rfl⟩ := h.same
  rfl

theorem Swept.sub {gone : Nat → Nat → Prop} (h : Swept d gone s s') (place : s'.place j k = some a) :
    s.place j k = some a := by
  by_cases out : gone j k
  · rw [h.cleared j k out] at place
    exact (Option.filter_eq_some_iff.mp place).1
  · rwa [h.kept j k out] at place

theorem Swept.backed {gone : Nat → Nat → Prop} (h : Swept d gone s s') (backed : s.Backed) : s'.Backed := by
  intro j k a place
  rw [h.frag?]
  exact backed j k a (h.sub place)

theorem Swept.refl : Swept d (fun _ _ => False) s s :=
  ⟨⟨s.luntbl, rfl⟩, fun _ => rfl, fun _ _ none => none.elim, fun _ _ _ => rfl, fun _ _ _ slot => slot,
    fun _ _ _ here => Or.inl here⟩

theorem Swept.trans {s'' : Sce} {gone gone' gone'' : Nat → Nat → Prop} (h : Swept d gone s s')
    (h' : Swept d gone' s' s'') (both : ∀ j k, gone'' j k ↔ gone j k ∨ gone' j k) : Swept d gone'' s s'' := by
  refine ⟨?_, fun j => (h'.volume j).trans (h.volume j), ?_, ?_, fun j k m slot => h.slot j k m (h'.slot j k m slot),
    ?_⟩
  · obtain ⟨tbl, rfl⟩ := h.same
    obtain ⟨tbl', rfl⟩ := h'.same
    exact ⟨tbl', rfl⟩
  · intro j k out
    by_cases late : gone' j k
    · rw [h'.cleared j k late]
      by_cases early : gone j k
      · rw [h.cleared j k early]
        cases s.place j k with
        | none => rfl
        | some a => by_cases e : a.dev = d <;> simp [Option.filter, e]
      · rw [h.kept j k early]
    · rcases (both j k).mp out with early | late'
      · rw [h'.kept j k late, h.cleared j k early]
      · exact absurd late' late
  · intro j k out
    have no := mt (both j k).mpr out
    rw [h'.kept j k fun l => no (Or.inr l), h.kept j k fun e => no (Or.inl e)]
  · intro j k w here
    rcases h.entry j k w here with same | ⟨g, mapped, dev, frag, cleared⟩
    · rw [← h.frag?]
      exact h'.entry j k w same
    · right
      -- a cleared descriptor is not cleared again
      rcases h'.entry j k _ cleared with same | ⟨_, again, _⟩
      · exact ⟨g, mapped, dev, frag, same⟩
      · rw [isMapped_data] at again
        cases again

/-- A mapping that stays needs no clearing. -/
theorem Swept.weaken {gone gone' : Nat → Nat → Prop} (h : Swept d gone s s') (more : ∀ j k, gone j k → gone' j k)
    (safe : ∀ j k a, gone' j k → ¬ gone j k → s.place j k = some a → a.dev ≠ d) : Swept d gone' s s' := by
  refine ⟨h.same, h.volume, ?_, fun j k out => h.kept j k (mt (more j k) out), h.slot, h.entry⟩
  intro j k out
  by_cases early : gone j k
  · exact h.cleared j k early
  · rw [h.kept j k early]
    cases place : s.place j k with
    | none => rfl
    | some a => simp [Option.filter, safe j k a out early place]

theorem Swept.clear {g : Frag} {ψ : Lun → Lun} (place : s.place i f = some a) (frag : s.frag? a = some g)
    (gone : a.dev = d)
    (map : ∀ l, (ψ l).fragmap = l.fragmap) (vol : ∀ l, (ψ l).volume = l.volume) : Swept d (fun j k => j = i ∧ k = f) s
      ((s.setDesc i f (BitVec.ofNat 32 g.nrMiss &&& fragdescDatamask)).modifyLun i ψ) := by
  obtain ⟨w, hw⟩ : ∃ w, w = BitVec.ofNat 32 g.nrMiss &&& fragdescDatamask := ⟨_, rfl⟩
  have clear : isMapped w = false := hw ▸ isMapped_data _
  rw [← hw]
  have size : ∀ l, (ψ l).nrFrag = l.nrFrag := fun l => congrArg Volume.nrFrag (vol l)
  have places : ((s.setDesc i f w).modifyLun i ψ).place = (s.setDesc i f w).place :=
    Sce.modifyLun_place (fun l _ => size l) (fun l _ => map l)
  have entries : ((s.setDesc i f w).modifyLun i ψ).entry = (s.setDesc i f w).entry :=
    Sce.modifyLun_entry (fun l _ => size l) (fun l _ => map l)
  refine ⟨⟨_, rfl⟩, ?_, ?_, ?_, ?_, ?_⟩
  · intro j
    rw [Sce.modifyLun_luntbl]
    unfold Sce.setDesc
    rw [Sce.modifyLun_luntbl]
    split
    · cases s.luntbl j with
      | none => rfl
      | some l => simp only [Option.map_some, vol]; rfl
    · rfl
  · rintro j k ⟨rfl, rfl⟩
    rw [places, Sce.setDesc_place_unmapped clear, place]
    simp [Option.filter, gone]
  · intro j k ne
    rw [places, Sce.setDesc_place_ne ne]
  · intro j k m slot
    rw [Sce.slot_modifyLun (fun l _ => size l) (fun l _ => map l)] at slot
    by_cases e : j = i ∧ k = f
    · obtain ⟨rfl, rfl⟩ := e
      rw [Sce.slot_setDesc_unmapped clear] at slot
      cases slot
    · rwa [Sce.slot_setDesc_ne e] at slot
  · intro j k w₀ here
    rw [entries, Sce.setDesc_entry]
    by_cases e : j = i ∧ k = f
    · obtain ⟨rfl, rfl⟩ := e
      rw [Sce.place_eq_entry, here, Option.bind_some] at place
      split at place
      · rename_i mapped
        obtain rfl := Option.some.inj place
        rw [if_pos ⟨rfl, rfl⟩, here]
        exact Or.inr ⟨g, mapped, gone, frag, by rw [← hw]; rfl⟩
      · cases place
    · rw [if_neg e]
      exact Or.inl here

theorem lunRmcdevLoop_spec (fs : List Nat) : ∀ s, s.Backed → (∀ l, s.luntbl i = some l → ∀ f ∈ fs, f < l.nrFrag) →
    Swept d (fun j k => j = i ∧ k ∈ fs) s (lunRmcdevLoop i d fs s) := by
  induction fs with
  | nil => exact fun s _ _ => Swept.refl.weaken (fun _ _ e => e.elim) (by simp)
  | cons f fs ih =>
    intro s backed inside
    unfold lunRmcdevLoop
    cases lun : s.luntbl i with
    | none =>
      refine Swept.refl.weaken (fun _ _ e => e.elim) ?_
      rintro j k a ⟨rfl, _⟩ _ place
      obtain ⟨l, here, _⟩ := Sce.place_eq_some.mp place
      rw [lun] at here
      cases here
    | some l =>
      have room := inside l lun
      have lt := room f List.mem_cons_self
      simp only
      split
      · -- nothing to clear here
        rename_i other
        refine (ih s backed fun l' lun' k member => inside l' lun' k (List.mem_cons_of_mem _ member)).weaken
          (fun j k e => ⟨e.1, List.mem_cons_of_mem _ e.2⟩) ?_
        rintro j k a ⟨rfl, member⟩ not place gone
        obtain rfl : k = f := by
          rcases List.mem_cons.mp member with e | later
          · exact e
          · exact absurd ⟨rfl, later⟩ not
        obtain ⟨l', lun', _, mapped, rfl⟩ := Sce.place_eq_some.mp place
        obtain rfl := Option.some.inj (lun.symm.trans lun')
        rcases other with unmapped | elsewhere
        · rw [unmapped] at mapped
          cases mapped
        · exact elsewhere gone.symm
      · rename_i here
        simp only [not_or, Bool.not_eq_false, ne_eq, not_not] at here
        obtain ⟨mapped, dev⟩ := here
        have place : s.place i f = some (phys (l.fragmap f)) := Sce.place_eq_some.mpr ⟨l, lun, lt, mapped, rfl⟩
        obtain ⟨g, frag⟩ := backed i f _ place
        simp only [Sce.pfid2frag, frag]
        have first := Swept.clear (d := d)
          (ψ := fun l => { l with stats := { l.stats with
            allocSctrs := l.stats.allocSctrs - 1
            validSctrs := l.stats.validSctrs - (g.nrValid * sceSctrPerPage : Nat) } })
          place frag dev.symm (fun _ => rfl) (fun _ => rfl)
        refine first.trans (ih _ (first.backed backed) ?_) ?_
        · intro l' lun' k member
          have volume : l'.volume = l.volume := by
            have same := first.volume i
            rw [lun', lun] at same
            exact Option.some.inj same
          have size : l'.nrFrag = l.nrFrag := congrArg Volume.nrFrag volume
          rw [size]
          exact room k (List.mem_cons_of_mem _ member)
        · intro j k
          simp only [List.mem_cons]
          constructor
          · rintro ⟨rfl, rfl | later⟩
            · exact Or.inl ⟨rfl, rfl⟩
            · exact Or.inr ⟨rfl, later⟩
          · rintro (⟨rfl, rfl⟩ | ⟨rfl, later⟩)
            · exact ⟨rfl, Or.inl rfl⟩
            · exact ⟨rfl, Or.inr later⟩

theorem lunRmcdev_spec (backed : s.Backed) : Swept d (fun j _ => j = i) s (lunRmcdev s i d) := by
  unfold lunRmcdev
  cases lun : s.luntbl i with
  | none =>
    refine Swept.refl.weaken (fun _ _ e => e.elim) ?_
    rintro j k a rfl _ place
    obtain ⟨l, here, _⟩ := Sce.place_eq_some.mp place
    rw [lun] at here
    cases here
  | some l =>
    have loop := lunRmcdevLoop_spec (i := i) (d := d) (List.range l.nrFrag) s backed (by
      intro l' lun' f member
      obtain rfl := Option.some.inj (lun.symm.trans lun')
      exact List.mem_range.mp member)
    refine loop.weaken (fun j k e => e.1) ?_
    rintro j k a rfl out place
    obtain ⟨l', lun', inside, _⟩ := Sce.place_eq_some.mp place
    obtain rfl := Option.some.inj (lun.symm.trans lun')
    exact absurd ⟨rfl, List.mem_range.mpr inside⟩ out

theorem rmcdevLuns_spec (is : List Nat) : ∀ s, s.Backed → Swept d (fun j _ => j ∈ is) s (rmcdevLuns d is s) := by
  induction is with
  | nil => exact fun s _ => Swept.refl.weaken (fun _ _ e => e.elim) (by simp)
  | cons i is ih =>
    intro s backed
    have first := lunRmcdev_spec (i := i) (d := d) backed
    exact first.trans (ih _ (first.backed backed)) fun j _ => List.mem_cons

/-! ### `sce_rmcdev` -/

/-- The last step: the slot is emptied. -/
def Sce.withoutCdev (s : Sce) (d n : Nat) : Sce :=
  { s with
    nrCdev := s.nrCdev - 1
    nrFrag := sub32 s.nrFrag n
    cdevtbl := fun e => if e = d then none else s.cdevtbl e }

theorem Sce.withoutCdev_dev {e : Nat} : (s.withoutCdev d n).dev e = if e = d then none else s.dev e := by
  unfold Sce.dev Sce.withoutCdev
  split <;> simp_all

theorem Sce.withoutCdev_frag? : (s.withoutCdev d n).frag? a = if a.dev = d then none else s.frag? a := by
  unfold Sce.frag? Sce.withoutCdev
  split <;> simp_all

theorem Devices.withoutCdev (h : Devices s) {ctx : Nat} (dev : s.dev d = some (ctx, n)) :
    Devices (s.withoutCdev d n) := by
  obtain ⟨hd, _, word, _⟩ := h.bounds d ctx n dev
  have old : ∀ e p, (s.withoutCdev d n).dev e = some p → s.dev e = some p := by
    intro e p here
    rw [Sce.withoutCdev_dev] at here
    split at here
    · cases here
    · exact here
  refine ⟨fun e c m here => h.bounds e c m (old _ _ here),
    fun e e' c m m' here there => h.unique e e' c m m' (old _ _ here) (old _ _ there), ?_, ?_⟩
  · have shrunk : ((Finset.range sceMaxCdev).filter fun e => ((s.withoutCdev d n).dev e).isSome) =
        ((Finset.range sceMaxCdev).filter fun e => (s.dev e).isSome).erase d := by
      ext e
      simp only [Finset.mem_filter, Finset.mem_erase, Sce.withoutCdev_dev]
      by_cases here : e = d <;> simp [here]
    rw [shrunk, Finset.card_erase_of_mem (by simp [dev, hd]), ← h.nrCdev]
    rfl
  · have sizes : ∀ e, devSize s.dev e = devSize (s.withoutCdev d n).dev e + if e = d then n else 0 := by
      intro e
      unfold devSize
      rw [Sce.withoutCdev_dev]
      split
      · rename_i here
        simp [here, dev]
      · rfl
    have total := h.nrFrag
    simp only [sizes, Finset.sum_add_distrib, Finset.sum_ite_eq', Finset.mem_range, if_pos hd] at total
    show sub32 s.nrFrag n = _
    rw [total]
    unfold sub32 u32
    omega

/-- The fragments of the device leave the free list. -/
theorem freefraglistRmcdev_spec (h : Inv nowhere s) (d : Nat) : ∃ fl s₁, FreeList s fl ∧
    freefraglistRmcdev s d = .ok s₁ ∧ Walk s₁ (fl.filter fun b => decide (b.dev ≠ d)) [] 0#32 ∧ Relinked s s₁ fl := by
  obtain ⟨fl, list⟩ := h.shape.free
  have alive : ∀ b ∈ fl, ∃ g, s.frag? b = some g := by
    intro b member
    obtain ⟨n, node, _⟩ := (list.mem b).mp member
    obtain ⟨g, frag, _⟩ := Sce.node_eq_some.mp node
    exact ⟨g, frag⟩
  have walk : Walk s [] fl s.freefraglist :=
    ⟨.nil _, list.chain, by simpa using list.nodup, by simpa using list.nrFreefrag, by simpa using alive⟩
  have enough : fl.length ≤ s.nrFreefrag := list.nrFreefrag.ge
  obtain ⟨s₁, loop, walk₁, linked⟩ := freefraglistRmcdevLoop_spec d fl s.nrFreefrag [] s.freefraglist s walk enough
  rw [List.nil_append] at linked
  exact ⟨fl, s₁, list, loop, walk₁, linked⟩

theorem unplugged_frag? {gone : Nat → Nat → Prop} {s₁ s₂ : Sce} (swept : Swept d gone s₁ s₂) (b : Phys) :
    (s₂.withoutCdev d n).frag? b = if b.dev = d then none else s₁.frag? b := by
  rw [Sce.withoutCdev_frag?, swept.frag?]

theorem unplugged_isFree {gone : Nat → Nat → Prop} {s₁ s₂ : Sce} {fl : List Phys} (linked : Relinked s s₁ fl)
    (swept : Swept d gone s₁ s₂) (b : Phys) : (s₂.withoutCdev d n).isFree b ↔ b.dev ≠ d ∧ s.isFree b := by
  unfold Sce.isFree Sce.node
  rw [unplugged_frag? swept]
  by_cases e : b.dev = d
  · simp [e]
  · have link := linked.frag b
    rw [if_neg e]
    cases old : s.frag? b with
    | none =>
      rw [old] at link
      rw [Option.map_eq_none_iff.mp link]
      simp
    | some g =>
      rw [old] at link
      obtain ⟨g', new, same⟩ := Option.map_eq_some_iff.mp link
      have fragnum : g'.fragnum = g.fragnum := show g'.unlinked.fragnum = g.unlinked.fragnum by rw [same]
      simp [new, e, Frag.node, fragnum]

theorem FreeList.unplugged {gone : Nat → Nat → Prop} {s₁ s₂ : Sce} {fl : List Phys} (list : FreeList s fl)
    (walk₁ : Walk s₁ (fl.filter fun b => decide (b.dev ≠ d)) [] 0#32) (linked : Relinked s s₁ fl)
    (swept : Swept d gone s₁ s₂) : FreeList (s₂.withoutCdev d n) (fl.filter fun b => decide (b.dev ≠ d)) := by
  obtain ⟨tbl, eq₂⟩ := swept.same
  refine ⟨?_, list.nodup.filter _, ?_, ?_⟩
  · show Seg _ _ _ s₂.freefraglist _ _
    rw [show s₂.freefraglist = s₁.freefraglist by rw [eq₂]]
    refine walk₁.behind.frame fun b member => ?_
    have ne : b.dev ≠ d := of_decide_eq_true (List.mem_filter.mp member).2
    simp only [Sce.nextWord, Sce.node, unplugged_frag? swept, if_neg ne]
  · show s₂.nrFreefrag = _
    rw [eq₂]
    simpa using walk₁.count
  · intro b
    rw [List.mem_filter, list.mem, unplugged_isFree linked swept, decide_eq_true_eq, and_comm]

/-- The pieces of a call that removes a device: the free list without the fragments of the device, the
descriptors without the ones that map to it, and the empty slot. -/
theorem sceRmcdev_parts (h : Inv nowhere s) {cdev : Cdev} (present : s.cdevtbl d = some cdev) : ∃ fl s₁ s₂,
    FreeList s fl ∧ Walk s₁ (fl.filter fun b => decide (b.dev ≠ d)) [] 0#32 ∧ Relinked s s₁ fl ∧
    (∀ j k a, s.place j k = some a → s₁.frag? a = s.frag? a) ∧ s₁.Backed ∧
    Swept d (fun j _ => j ∈ List.range sceMaxLun) s₁ s₂ ∧ freefraglistRmcdev s d = .ok s₁ ∧
    sceRmcdev s d = .ok (.success, s₂.withoutCdev d cdev.nrFrag) := by
  have dev : s.dev d = some (cdev.cdevctx, cdev.nrFrag) := by simp [Sce.dev, present]
  obtain ⟨hd, _⟩ := h.shape.devices.bounds d _ _ dev
  obtain ⟨fl, s₁, list, run, walk₁, linked⟩ := freefraglistRmcdev_spec h d
  -- mapped fragments are not on the list, so their structures have not changed
  have mapped : ∀ j k a, s.place j k = some a → s₁.frag? a = s.frag? a := by
    intro j k a place
    exact linked.off a fun member => h.shape.not_free place ((list.mem a).mp member)
  have backed : s₁.Backed := by
    intro j k a place
    unfold Sce.place at place
    rw [linked.luntbl] at place
    rw [mapped j k a place]
    obtain ⟨g, frag, _⟩ := Sce.node_eq_some.mp (h.shape.mapped j k a place)
    exact ⟨g, frag⟩
  refine ⟨fl, s₁, rmcdevLuns d (List.range sceMaxLun) s₁, list, walk₁, linked, mapped, backed,
    rmcdevLuns_spec _ s₁ backed, run, ?_⟩
  simp only [sceRmcdev, present, if_neg (Nat.not_le.mpr hd), run, bind, Except.bind, pure, Except.pure]
  rfl

/-- All mappings to the device and all its fragments disappear, and nothing else changes. -/
theorem sceRmcdev_spec (h : Inv nowhere s) (d : Nat) :
    (s.dev d = none ∧ sceRmcdev s d = .ok (.error, s)) ∨
    ∃ ctx n s', s.dev d = some (ctx, n) ∧ sceRmcdev s d = .ok (.success, s') ∧ Inv nowhere s' ∧
      s'.view = s.view.unplug d := by
  cases present : s.cdevtbl d with
  | none => exact Or.inl ⟨by simp [Sce.dev, present], by simp [sceRmcdev, present]⟩
  | some cdev =>
    have dev : s.dev d = some (cdev.cdevctx, cdev.nrFrag) := by simp [Sce.dev, present]
    obtain ⟨fl, s₁, s₂, list, walk₁, linked, mapped, backed, swept, _, run⟩ := sceRmcdev_parts h present
    have places₁ : ∀ j k, s₁.place j k = s.place j k := by
      intro j k
      unfold Sce.place
      rw [linked.luntbl]
    obtain ⟨tbl, eq₂⟩ := swept.same
    have frag₂ := swept.frag?
    have frag₃ := fun b => unplugged_frag? (n := cdev.nrFrag) swept b
    have dev₂ : s₂.dev = s.dev := by
      rw [eq₂]
      exact linked.dev
    have volume₂ : ∀ j, (s₂.luntbl j).map Lun.volume = (s.luntbl j).map Lun.volume := by
      intro j
      rw [swept.volume j, linked.luntbl]
    have place₃ : ∀ j k, (s₂.withoutCdev d cdev.nrFrag).place j k =
        (s.place j k).filter fun b => decide (b.dev ≠ d) := by
      intro j k
      show s₂.place j k = _
      by_cases lt : j < sceMaxLun
      · rw [swept.cleared j k (List.mem_range.mpr lt), places₁]
      · rw [swept.kept j k (fun e => lt (List.mem_range.mp e)), places₁]
        cases place : s.place j k with
        | none => rfl
        | some a =>
          obtain ⟨l, lun, _⟩ := Sce.place_eq_some.mp place
          exact absurd (h.shape.luns.bounds j _ _ (Sce.extent_eq_some.mpr ⟨l, lun, rfl, rfl⟩)).1 lt
    have stays : ∀ j k a, (s₂.withoutCdev d cdev.nrFrag).place j k = some a ↔ s.place j k = some a ∧ a.dev ≠ d := by
      intro j k a
      rw [place₃, Option.filter_eq_some_iff]
      simp
    have slot₃ : ∀ j k m, (s₂.withoutCdev d cdev.nrFrag).slot j k = some m ↔ s.slot j k = some m ∧ m.addr.dev ≠ d := by
      intro j k m
      constructor
      · intro slot
        have place := Sce.place_of_slot slot
        obtain ⟨place₀, ne⟩ := (stays j k m.addr).mp place
        have slot₂ : s₂.slot j k = some m := by
          obtain ⟨l, lun, inside, isMap, addr, valid, frag⟩ := Sce.slot_eq_some.mp slot
          rw [frag₃, if_neg ne] at frag
          exact Sce.slot_eq_some.mpr ⟨l, lun, inside, isMap, addr, valid, frag₂ ▸ frag⟩
        obtain ⟨l, lun, inside, isMap, addr, valid, frag⟩ := Sce.slot_eq_some.mp (swept.slot j k m slot₂)
        rw [mapped j k _ place₀] at frag
        rw [linked.luntbl] at lun
        exact ⟨Sce.slot_eq_some.mpr ⟨l, lun, inside, isMap, addr, valid, frag⟩, ne⟩
      · rintro ⟨slot, ne⟩
        have place := (stays j k m.addr).mpr ⟨Sce.place_of_slot slot, ne⟩
        obtain ⟨l, lun, inside, isMap, addr⟩ := Sce.place_eq_some.mp place
        have frag : (s₂.withoutCdev d cdev.nrFrag).frag? m.addr = some m.frag := by
          rw [frag₃, if_neg ne, mapped j k _ (Sce.place_of_slot slot)]
          exact Sce.frag_of_slot slot
        have again : (s₂.withoutCdev d cdev.nrFrag).slot j k = some ⟨m.addr, isValid (l.fragmap k), m.frag⟩ :=
          Sce.slot_eq_some.mpr ⟨l, lun, inside, isMap, addr.symm, rfl, frag⟩
        have slot₂ : s₂.slot j k = some ⟨m.addr, isValid (l.fragmap k), m.frag⟩ := by
          rw [frag₃, if_neg ne] at frag
          exact Sce.slot_eq_some.mpr ⟨l, lun, inside, isMap, addr.symm, rfl, frag₂ ▸ frag⟩
        obtain ⟨l₁, lun₁, _, _, _, valid₁, _⟩ := Sce.slot_eq_some.mp (swept.slot j k _ slot₂)
        obtain ⟨l₀, lun₀, _, _, _, valid₀, _⟩ := Sce.slot_eq_some.mp slot
        rw [linked.luntbl] at lun₁
        obtain rfl := Option.some.inj (lun₀.symm.trans lun₁)
        rw [again]
        simp only at valid₁
        rw [valid₁, ← valid₀]
    have frees := fun b => unplugged_isFree (n := cdev.nrFrag) linked swept b
    have node₃ : ∀ j k a, s.place j k = some a → a.dev ≠ d →
        (s₂.withoutCdev d cdev.nrFrag).node a = s.node a := by
      intro j k a place ne
      unfold Sce.node
      rw [frag₃, if_neg ne, mapped j k a place]
    refine Or.inr ⟨cdev.cdevctx, cdev.nrFrag, s₂.withoutCdev d cdev.nrFrag, dev, run, ⟨⟨?_, ?_, ?_, ?_⟩, ?_, ?_⟩, ?_⟩
    · have devices : Devices s₂ := by
        refine h.shape.devices.congr dev₂ ?_ ?_
        · rw [eq₂]
          exact linked.nrCdev
        · rw [eq₂]
          exact linked.nrFrag
      exact devices.withoutCdev (by rw [dev₂]; exact dev)
    · refine h.shape.luns.congr ?_ ?_
      · funext j
        have volume := volume₂ j
        show (s₂.luntbl j).map _ = (s.luntbl j).map _
        cases lun : s.luntbl j with
        | none =>
          rw [lun] at volume
          rw [Option.map_eq_none_iff.mp volume]
        | some l =>
          rw [lun] at volume
          obtain ⟨l', lun', same⟩ := Option.map_eq_some_iff.mp volume
          rw [lun']
          have sctrs : l'.nrSctr = l.nrSctr := congrArg Volume.nrSctr same
          have size : l'.nrFrag = l.nrFrag := congrArg Volume.nrFrag same
          simp [sctrs, size]
      · show s₂.nrLun = s.nrLun
        rw [eq₂]
        exact linked.nrLun
    · intro j k a place
      obtain ⟨place₀, ne⟩ := (stays j k a).mp place
      rw [node₃ j k a place₀ ne]
      exact h.shape.mapped j k a place₀
    · exact ⟨_, list.unplugged walk₁ linked swept⟩
    · intro j k m slot
      exact h.pages j k m ((slot₃ j k m).mp slot).1
    · intro b g frag off
      rw [frag₃] at frag
      split at frag
      · cases frag
      · rename_i ne
        have link := linked.frag b
        rw [frag] at link
        obtain ⟨g₀, old, same⟩ := Option.map_eq_some_iff.mp link.symm
        have fragnum : g₀.fragnum = g.fragnum :=
          show g₀.unlinked.fragnum = g.unlinked.fragnum by rw [same]
        have service : g₀.nrService = g.nrService :=
          show g₀.unlinked.nrService = g.unlinked.nrService by rw [same]
        rcases h.kept b g₀ old (by rw [fragnum]; exact off) with hand | ⟨j, k, place⟩ | busy
        · exact hand.elim
        · exact Or.inr (Or.inl ⟨j, k, (stays j k b).mpr ⟨place, ne⟩⟩)
        · exact Or.inr (Or.inr (service ▸ busy))
    · refine View.ext_fields ?_ (funext volume₂) ?_ frees
      · funext e
        show (s₂.withoutCdev d cdev.nrFrag).dev e = _
        rw [Sce.withoutCdev_dev, dev₂]
        rfl
      · funext j k
        show ((s₂.withoutCdev d cdev.nrFrag).slot j k).map Slot.cell = (s.view.cell j k).filter _
        rw [Sce.view_cell]
        cases slot : s.slot j k with
        | none =>
          have none₃ : (s₂.withoutCdev d cdev.nrFrag).slot j k = none := by
            cases slot' : (s₂.withoutCdev d cdev.nrFrag).slot j k with
            | none => rfl
            | some m =>
              have old := ((slot₃ j k m).mp slot').1
              rw [slot] at old
              cases old
          rw [none₃]
          rfl
        | some m =>
          by_cases ne : m.addr.dev = d
          · have none₃ : (s₂.withoutCdev d cdev.nrFrag).slot j k = none := by
              cases slot' : (s₂.withoutCdev d cdev.nrFrag).slot j k with
              | none => rfl
              | some m' =>
                obtain ⟨old, ne'⟩ := (slot₃ j k m').mp slot'
                obtain rfl := Option.some.inj (slot.symm.trans old)
                exact absurd ne ne'
            rw [none₃]
            simp [Slot.cell, Option.filter, ne]
          · rw [(slot₃ j k m).mpr ⟨slot, ne⟩]
            simp [Slot.cell, Option.filter, ne]

end Iostash
