import Mathlib.Data.Set.Insert

/-!
# Writers that overlap

Writers claim sets of places, and more than one may hold the same place. A place tells a single writer
that nobody came between from several, and only the single writer makes it valid again.
-/

namespace Iostash.Util.Writers

inductive Mark where
  | valid | invalid | writing | conflict
  deriving DecidableEq, Repr

namespace Mark

/-- A writer comes to the place. -/
def start : Mark → Mark
  | valid => writing
  | invalid => writing
  | writing => conflict
  | conflict => conflict

/-- A writer leaves the place. -/
def finish (failed : Bool) : Mark → Mark
  | writing => if failed then invalid else valid
  | m => m

/-- What the place holds becomes worthless. -/
def invalidate : Mark → Mark
  | valid => invalid
  | writing => conflict
  | m => m

/-- All writers have left. -/
def merge : Mark → Mark
  | valid => valid
  | _ => invalid

def Held (m : Mark) : Prop := m = writing ∨ m = conflict

instance (m : Mark) : Decidable m.Held := inferInstanceAs (Decidable (_ ∨ _))

variable {m : Mark} {failed : Bool}

theorem start_held (m : Mark) : m.start.Held := by cases m <;> decide

theorem start_writing (h : m.start = writing) : ¬ m.Held := by cases m <;> revert h <;> decide

theorem invalidate_held (h : m.Held) : m.invalidate.Held := by cases m <;> revert h <;> decide

theorem invalidate_writing : m.invalidate ≠ writing := by cases m <;> decide

theorem merge_writing : m.merge ≠ writing := by cases m <;> decide

theorem finish_writing : m.finish failed ≠ writing := by cases m <;> cases failed <;> decide

theorem finish_conflict (h : m = conflict) : m.finish failed = conflict := by rw [h]; rfl

/-- Only a single writer that did not fail makes a place valid. -/
theorem finish_valid (old : m ≠ valid) (new : m.finish failed = valid) : m = writing ∧ failed = false := by
  cases m <;> cases failed <;> revert old new <;> decide

end Mark

/-- A writer that has started: what it writes, and how many steps there were before it. -/
structure Claim (ι : Type*) where
  cells : Set ι
  since : Nat

/-- The places, the writers that have not ended, and what each step touched, the last one first. -/
structure Board (ι : Type*) where
  mark : ι → Mark
  claims : Set (Claim ι)
  log : List (Set ι)

variable {ι : Type*} {b b' : Board ι} {w : Claim ι} {p : ι}

/-- What the steps after the start of `w` touched. -/
def Board.after (b : Board ι) (w : Claim ι) : List (Set ι) := b.log.take (b.log.length - w.since - 1)

/-- The places of `S` change by `φ`, and no other. -/
structure Changes (b b' : Board ι) (S : Set ι) (φ : Mark → Mark) : Prop where
  inside : ∀ p, p ∈ S → b'.mark p = φ (b.mark p)
  outside : ∀ p, p ∉ S → b'.mark p = b.mark p

inductive Step : Board ι → Board ι → Prop
  | start {b b' : Board ι} {S : Set ι} (change : Changes b b' S Mark.start)
      (claims : b'.claims = insert ⟨S, b.log.length⟩ b.claims) (log : b'.log = S :: b.log) : Step b b'
  | refuse {b b' : Board ι} {S : Set ι} (busy : ∀ p, p ∈ S → (b.mark p).Held) (change : Changes b b' S Mark.start)
      (claims : b'.claims = b.claims) (log : b'.log = S :: b.log) : Step b b'
  | finish {b b' : Board ι} {w : Claim ι} (failed : Bool) (mem : w ∈ b.claims)
      (change : Changes b b' w.cells (Mark.finish failed)) (claims : b'.claims = b.claims \ {w})
      (log : b'.log = w.cells :: b.log) : Step b b'
  | invalidate {b b' : Board ι} {S : Set ι} (change : Changes b b' S Mark.invalidate) (claims : b'.claims = b.claims)
      (log : b'.log = S :: b.log) : Step b b'
  | merge {b b' : Board ι} (idle : b.claims = ∅) (change : Changes b b' Set.univ Mark.merge)
      (claims : b'.claims = ∅) (log : b'.log = b.log) : Step b b'

/-- `w` is the only writer at `p`, and nothing touched `p` since it started. -/
structure Sole (b : Board ι) (w : Claim ι) (p : ι) : Prop where
  mem : w ∈ b.claims
  covers : p ∈ w.cells
  untouched : ∀ S, S ∈ b.after w → p ∉ S
  only : ∀ v, v ∈ b.claims → p ∈ v.cells → v = w

structure Sound (b : Board ι) : Prop where
  early : ∀ w, w ∈ b.claims → w.since < b.log.length
  held : ∀ w, w ∈ b.claims → ∀ p, p ∈ w.cells → (b.mark p).Held
  sole : ∀ p, b.mark p = .writing → ∃ w, Sole b w p

theorem Board.after_cons {S : Set ι} (log : b'.log = S :: b.log) (early : w.since < b.log.length) :
    b'.after w = S :: b.after w := by
  unfold Board.after
  rw [log, List.length_cons, show b.log.length + 1 - w.since - 1 = b.log.length - w.since - 1 + 1 by omega]
  rfl

/-- A single writer stays the single one through a step that does not touch the place. -/
theorem Sole.step {S : Set ι} (sole : Sole b w p) (log : b'.log = S :: b.log) (early : w.since < b.log.length)
    (off : p ∉ S) (stays : w ∈ b'.claims) (fewer : ∀ v, v ∈ b'.claims → p ∈ v.cells → v ∈ b.claims) : Sole b' w p := by
  refine ⟨stays, sole.covers, ?_, fun v mem covers => sole.only v (fewer v mem covers) covers⟩
  rw [Board.after_cons log early]
  intro T member
  rcases List.mem_cons.mp member with rfl | before
  · exact off
  · exact sole.untouched T before

theorem Step.sound (h : Sound b) (step : Step b b') : Sound b' := by
  cases step with
  | @start S change claims log =>
    refine ⟨?_, ?_, ?_⟩
    · intro w mem
      rw [claims] at mem
      rw [log, List.length_cons]
      rcases mem with rfl | before
      · exact Nat.lt_succ_self _
      · exact Nat.lt_succ_of_lt (h.early w before)
    · intro w mem p covers
      rw [claims] at mem
      by_cases touched : p ∈ S
      · rw [change.inside p touched]
        exact Mark.start_held _
      · rw [change.outside p touched]
        rcases mem with rfl | before
        · exact absurd covers touched
        · exact h.held w before p covers
    · intro p writing
      by_cases touched : p ∈ S
      · -- the new writer came to a place nobody held
        rw [change.inside p touched] at writing
        have vacant := Mark.start_writing writing
        refine ⟨⟨S, b.log.length⟩, by rw [claims]; exact Or.inl rfl, touched, ?_, ?_⟩
        · intro T member
          unfold Board.after at member
          rw [log, List.length_cons, show b.log.length + 1 - b.log.length - 1 = 0 by omega] at member
          cases member
        · intro v mem covers
          rw [claims] at mem
          rcases mem with rfl | before
          · rfl
          · exact absurd (h.held v before p covers) vacant
      · rw [change.outside p touched] at writing
        obtain ⟨w, sole⟩ := h.sole p writing
        refine ⟨w, sole.step log (h.early w sole.mem) touched (by rw [claims]; exact Or.inr sole.mem) ?_⟩
        intro v mem covers
        rw [claims] at mem
        rcases mem with rfl | before
        · exact absurd covers touched
        · exact before
  | @refuse S busy change claims log =>
    refine ⟨?_, ?_, ?_⟩
    · intro w mem
      rw [claims] at mem
      rw [log, List.length_cons]
      exact Nat.lt_succ_of_lt (h.early w mem)
    · intro w mem p covers
      rw [claims] at mem
      by_cases touched : p ∈ S
      · rw [change.inside p touched]
        exact Mark.start_held _
      · rw [change.outside p touched]
        exact h.held w mem p covers
    · intro p writing
      by_cases touched : p ∈ S
      · rw [change.inside p touched] at writing
        exact absurd (busy p touched) (Mark.start_writing writing)
      · rw [change.outside p touched] at writing
        obtain ⟨w, sole⟩ := h.sole p writing
        exact ⟨w, sole.step log (h.early w sole.mem) touched (by rw [claims]; exact sole.mem) fun v mem _ => claims ▸ mem⟩
  | @finish w failed mem change claims log =>
    refine ⟨?_, ?_, ?_⟩
    · intro v here
      rw [claims] at here
      rw [log, List.length_cons]
      exact Nat.lt_succ_of_lt (h.early v here.1)
    · intro v here p covers
      rw [claims] at here
      by_cases touched : p ∈ w.cells
      · rw [change.inside p touched]
        rcases h.held v here.1 p covers with writing | conflict
        · -- two writers at a place that tells of one
          obtain ⟨u, sole⟩ := h.sole p writing
          exact absurd ((sole.only v here.1 covers).trans (sole.only w mem touched).symm) here.2
        · rw [Mark.finish_conflict conflict]
          exact Or.inr rfl
      · rw [change.outside p touched]
        exact h.held v here.1 p covers
    · intro p writing
      by_cases touched : p ∈ w.cells
      · rw [change.inside p touched] at writing
        exact absurd writing Mark.finish_writing
      · rw [change.outside p touched] at writing
        obtain ⟨u, sole⟩ := h.sole p writing
        have other : u ≠ w := by
          rintro rfl
          exact touched sole.covers
        exact ⟨u, sole.step log (h.early u sole.mem) touched (by rw [claims]; exact ⟨sole.mem, other⟩)
          fun v here _ => (claims ▸ here : v ∈ b.claims \ {w}).1⟩
  | @invalidate S change claims log =>
    refine ⟨?_, ?_, ?_⟩
    · intro w mem
      rw [claims] at mem
      rw [log, List.length_cons]
      exact Nat.lt_succ_of_lt (h.early w mem)
    · intro w mem p covers
      rw [claims] at mem
      by_cases touched : p ∈ S
      · rw [change.inside p touched]
        exact Mark.invalidate_held (h.held w mem p covers)
      · rw [change.outside p touched]
        exact h.held w mem p covers
    · intro p writing
      by_cases touched : p ∈ S
      · rw [change.inside p touched] at writing
        exact absurd writing Mark.invalidate_writing
      · rw [change.outside p touched] at writing
        obtain ⟨w, sole⟩ := h.sole p writing
        exact ⟨w, sole.step log (h.early w sole.mem) touched (by rw [claims]; exact sole.mem) fun v mem _ => claims ▸ mem⟩
  | merge idle change claims log =>
    refine ⟨?_, ?_, ?_⟩
    · intro w mem
      rw [claims] at mem
      cases mem
    · intro w mem
      rw [claims] at mem
      cases mem
    · intro p writing
      rw [change.inside p trivial] at writing
      exact absurd writing Mark.merge_writing

/-- A place becomes valid at the end of a writer only if that writer succeeded, was there alone, and nothing
touched the place in between. -/
theorem Sound.settles {failed : Bool} (h : Sound b) (mem : w ∈ b.claims)
    (change : Changes b b' w.cells (Mark.finish failed)) (old : b.mark p ≠ .valid) (new : b'.mark p = .valid) :
    failed = false ∧ Sole b w p := by
  by_cases covers : p ∈ w.cells
  · rw [change.inside p covers] at new
    obtain ⟨writing, ok⟩ := Mark.finish_valid old new
    obtain ⟨u, sole⟩ := h.sole p writing
    obtain rfl := sole.only w mem covers
    exact ⟨ok, sole⟩
  · rw [change.outside p covers] at new
    exact absurd new old

end Iostash.Util.Writers
