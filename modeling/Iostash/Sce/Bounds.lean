import Iostash.Sce.Runs
import Iostash.Sce.Tail

/-!
# Where a request goes

The range check adds a 64-bit and a 32-bit number, and the fragment number and the number of fragments are
cut to 32 bits apart from it. `InBounds` is about the fragments a request names after the check.
-/

namespace Iostash

/-- A fragment number that indexes a fragment map, and a range of its pages. -/
structure Access where
  fragnum : Nat
  pgoff : Nat
  pgcnt : Nat
  deriving DecidableEq, Repr

/-- The access of `sce_get4read`, unless it gives up before. -/
def get4readAccess (sctrnum nrSctr : Nat) : Option Access :=
  let firstpg := sctrnum / sceSctrPerPage
  let lastpg := sub64 (u64 (sctrnum + nrSctr)) 1 / sceSctrPerPage
  let fragnum := u32 (firstpg / scePagePerFrag)
  let pgoff := firstpg % scePagePerFrag
  let pgcnt := u32 (sub64 lastpg firstpg + 1)
  if scePagePerFrag < u32 (pgoff + pgcnt) then none else some ⟨fragnum, pgoff, pgcnt⟩

/-- The fragment number `sce_put4read` uses, unless it gives up before. -/
def put4readFragnum (sctrnum nrSctr : Nat) : Option Nat :=
  let fragnum := u32 (sctrnum / sceSctrPerFrag)
  if sub64 (u64 (sctrnum + nrSctr)) 1 / sceSctrPerFrag ≠ fragnum then none else some fragnum

/-- The iterations of the loop of `sce_invalidate`. -/
def invalidateVisits : Nat → Nat → Nat → Nat → List Access
  | 0, _, _, _ => []
  | fuel + 1, fragnum, pgoff, count =>
    if count = 0 then []
    else
      let pgcnt := min (scePagePerFrag - pgoff) count
      ⟨fragnum, pgoff, pgcnt⟩ :: invalidateVisits fuel (u32 (fragnum + 1)) 0 (count - pgcnt)

def invalidateAccesses (x n : Nat) : List Access :=
  invalidateVisits (invCount x n) (invFrag x) (invOff x) (invCount x n)

/-- No access of a request leaves a map of `nrFrag` fragments, or a fragment. -/
structure InBounds (nrFrag x n : Nat) : Prop where
  get4read : ∀ a, get4readAccess x n = some a → a.fragnum < nrFrag ∧ a.pgoff + a.pgcnt ≤ scePagePerFrag
  put4read : ∀ f, put4readFragnum x n = some f → f < nrFrag
  invalidate : ∀ a, a ∈ invalidateAccesses x n → a.fragnum < nrFrag ∧ a.pgoff + a.pgcnt ≤ scePagePerFrag

variable {s : Sce} {l : Lun} {i x n m fuel fragnum pgoff count wh : Nat}

/-! ### The accesses are those of the calls -/

/-- The loop of `sce_invalidate` over the accesses. -/
def visitAll (i : Nat) : List Access → Nat → Nat → Sce → Except Fault ((Nat × Nat) × Sce)
  | [], count, wh, s => .ok ((count, wh), s)
  | a :: rest, count, wh, s =>
    match s.luntbl i with
    | none => .error .nullDeref
    | some lun =>
      if lun.nrFrag ≤ a.fragnum then .error .outOfRange
      else
        let fdesc := lun.fragmap a.fragnum
        if isMapped fdesc = false then visitAll i rest (count - a.pgcnt) wh s
        else
          match s.pfid2frag fdesc with
          | none => .ok ((count, wh), s)
          | some frag => do
            let s ← invalidateFrag s i fdesc frag a.pgoff a.pgcnt
            visitAll i rest (count - a.pgcnt) (wh + 1) s

theorem invalidateLoop_visits : invalidateLoop i fuel fragnum pgoff count wh s =
    visitAll i (invalidateVisits fuel fragnum pgoff count) count wh s := by
  induction fuel generalizing fragnum pgoff count wh s with
  | zero => rfl
  | succ fuel ih =>
    by_cases done : count = 0
    · simp [invalidateLoop, invalidateVisits, visitAll, done]
    · rw [invalidateLoop, invalidateVisits, if_neg done, if_neg done, visitAll]
      cases s.luntbl i with
      | none => rfl
      | some lun =>
        by_cases past : lun.nrFrag ≤ fragnum
        · simp only [if_pos past]
        · by_cases clear : isMapped (lun.fragmap fragnum) = false
          · simp only [if_neg past, if_pos clear, ih]
          · cases frag : s.pfid2frag (lun.fragmap fragnum) <;> simp only [if_neg past, if_neg clear, frag, ih]

/-- A read that passes the check is counted. -/
def Sce.countRead (s : Sce) (i n : Nat) : Sce := s.modifyLun i fun l => { l with stats := { l.stats with
  reads := l.stats.reads + 1, readSctrs := l.stats.readSctrs + (n : Nat) } }

/-- A write that passes the check is counted. -/
def Sce.countWrite (s : Sce) (i n : Nat) : Sce := s.modifyLun i fun l => { l with stats := { l.stats with
  writes := l.stats.writes + 1, writeSctrs := l.stats.writeSctrs + (n : Nat) } }

/-- What the calls do for an accepted request. They index the map of its LUN with the accesses, and nowhere else,
and pass on their pages. -/
structure CallsAccess (s : Sce) (i : Nat) (l : Lun) (x n : Nat) : Prop where
  get4read : lockLun s i x n true = some l → sceGet4read s i x n =
    (get4readAccess x n).elim (.ok (none, s.countRead i n)) fun a =>
      if l.nrFrag ≤ a.fragnum then .error .outOfRange
      else get4readFrag (s.countRead i n) i l a.fragnum a.pgoff a.pgcnt
  put4read : lockLun s i x n false = some l → scePut4read s i x n =
    (put4readFragnum x n).elim (.ok (.error, s)) fun f =>
      if l.nrFrag ≤ f then .error .outOfRange
      else if isMapped (l.fragmap f) = false ∨ isValid (l.fragmap f) = false then .ok (.error, s)
      else (s.pfid2frag (l.fragmap f)).elim (.ok (.error, s)) fun frag =>
        if frag.nrService = 0 ∨ l.nrService = 0 then .ok (.error, s) else put4readFrag s i (phys (l.fragmap f)) frag
  invalidate : lockLun s i x n true = some l → sceInvalidate s i x n =
    (visitAll i (invalidateAccesses x n) (invCount x n) 0 (s.countWrite i n)).map fun r =>
      (.success, if r.1.2 = 0 then r.2 else r.2.modifyLun i fun l => { l with stats := { l.stats with
        writeHits := l.stats.writeHits + 1 } })

theorem callsAccess : CallsAccess s i l x n where
  get4read := by
    intro lock
    unfold sceGet4read
    rw [lock]
    simp only [get4readAccess]
    split <;> rfl
  put4read := by
    intro lock
    simp only [scePut4read, lock, put4readFragnum]
    split
    · rfl
    · simp only [Option.elim_some]
      cases s.pfid2frag (l.fragmap (u32 (x / sceSctrPerFrag))) <;> rfl
  invalidate := by
    intro lock
    unfold sceInvalidate
    rw [lock]
    simp only [invalidateLoop_visits]
    exact bind_pure_comp _ _

/-! ### When they are in bounds -/

theorem invalidateVisits_inBounds (limit : m < 2 ^ 32) (inside : pgoff < 256) (enough : count ≤ fuel) :
    (∀ a, a ∈ invalidateVisits fuel fragnum pgoff count → a.fragnum < m ∧ a.pgoff + a.pgcnt ≤ scePagePerFrag) ↔
      count = 0 ∨ fragnum * 256 + pgoff + count ≤ m * 256 := by
  induction fuel generalizing fragnum pgoff count with
  | zero =>
    obtain rfl : count = 0 := Nat.le_zero.mp enough
    simp [invalidateVisits]
  | succ fuel ih =>
    by_cases done : count = 0
    · simp [invalidateVisits, done]
    · obtain ⟨pgcnt, hp⟩ : ∃ pgcnt, pgcnt = min (scePagePerFrag - pgoff) count := ⟨_, rfl⟩
      simp only [invalidateVisits, if_neg done, ← hp, List.forall_mem_cons]
      simp only [scePagePerFrag] at hp ⊢
      have left : count - pgcnt ≤ fuel := by omega
      have rest := @ih (u32 (fragnum + 1)) 0 (count - pgcnt) (by decide) left
      simp only [scePagePerFrag] at rest
      rw [rest]
      by_cases low : fragnum < m
      · rw [u32_of_lt (by omega)]
        omega
      · omega

theorem invCount_eq (hn : n < 2 ^ 32) (pos : 0 < n) (straight : x + n < 2 ^ 64) :
    invCount x n = (x + n - 1) / 8 - x / 8 + 1 := by
  have last : sub64 (x + n) 1 = x + n - 1 := sub64_of_le (by omega) straight
  have pages : sub64 ((x + n - 1) / 8) (x / 8) = (x + n - 1) / 8 - x / 8 := sub64_of_le (by omega) (by omega)
  unfold invCount
  simp only [sceSctrPerPage]
  rw [u64_of_lt straight, last, pages]
  unfold u32
  omega

/-- A range that wraps runs to the last page there is, and on. -/
theorem invCount_wrap (hx : x < 2 ^ 64) (hn : n < 2 ^ 32) (wraps : 2 ^ 64 ≤ x + n) :
    2 ^ 61 - x / 8 ≤ invCount x n := by
  obtain ⟨r, hr⟩ : ∃ r, r = x + n - 2 ^ 64 := ⟨_, rfl⟩
  have wrapped : u64 (x + n) = r := by
    unfold u64
    omega
  unfold invCount
  simp only [sceSctrPerPage]
  rw [wrapped]
  by_cases exact : r = 0
  · have last : sub64 r 1 = 2 ^ 64 - 1 := by rw [exact]; decide
    have pages : sub64 ((2 ^ 64 - 1) / 8) (x / 8) = (2 ^ 64 - 1) / 8 - x / 8 := sub64_of_le (by omega) (by omega)
    rw [last, pages]
    unfold u32
    omega
  · have last : sub64 r 1 = r - 1 := sub64_of_le (by omega) (by omega)
    have pages : sub64 ((r - 1) / 8) (x / 8) = (r - 1) / 8 + 2 ^ 64 - x / 8 := by
      unfold sub64 u64
      omega
    rw [last, pages]
    unfold u32
    omega

/-- The pages of an invalidation lie inside a map exactly when the range does not wrap, and its place in 2^43
sectors lies inside. -/
theorem inv_inBounds (hx : x < 2 ^ 64) (hn : n < 2 ^ 32) (pos : 0 < n) (limit : m < 2 ^ 32) :
    invFrag x * 256 + invOff x + invCount x n ≤ m * 256 ↔ x + n < 2 ^ 64 ∧ x % 2 ^ 43 + n ≤ m * 2048 := by
  have start : invFrag x * 256 + invOff x = x / 8 % 2 ^ 40 := by
    unfold invFrag invOff u32
    simp only [sceSctrPerPage, scePagePerFrag]
    omega
  rw [start]
  rcases Nat.lt_or_ge (x + n) (2 ^ 64) with straight | wraps
  · rw [invCount_eq hn pos straight]
    omega
  · have count := invCount_wrap hx hn wraps
    omega

theorem get4read_inBounds (hn : n < 2 ^ 32) (pos : 0 < n) (straight : x + n < 2 ^ 64) (fits : x % 2 ^ 43 + n ≤ m * 2048)
    {a : Access} (access : get4readAccess x n = some a) : a.fragnum < m ∧ a.pgoff + a.pgcnt ≤ scePagePerFrag := by
  have last : sub64 (x + n) 1 = x + n - 1 := sub64_of_le (by omega) straight
  have pages : sub64 ((x + n - 1) / 8) (x / 8) = (x + n - 1) / 8 - x / 8 := sub64_of_le (by omega) (by omega)
  unfold get4readAccess at access
  simp only [sceSctrPerPage, scePagePerFrag] at access
  rw [u64_of_lt straight, last, pages] at access
  split at access
  · cases access
  · rename_i short
    obtain rfl := Option.some.inj access
    simp only [scePagePerFrag, u32] at short ⊢
    omega

theorem put4read_inBounds (pos : 0 < n) (fits : x % 2 ^ 43 + n ≤ m * 2048) {f : Nat}
    (access : put4readFragnum x n = some f) : f < m := by
  unfold put4readFragnum at access
  simp only [sceSctrPerFrag] at access
  split at access
  · cases access
  · obtain rfl := Option.some.inj access
    unfold u32
    omega

/-- What an accepted request names lies in bounds exactly when its range does not wrap and its place in 2^43
sectors lies inside the fragments the LUN has; and this is what the calls index, in any state. -/
theorem inBounds_iff (init : lunInit m true = some l) (hx : x < 2 ^ 64) (hn : n < 2 ^ 32) :
    ((inRange l x n = true → InBounds l.nrFrag x n) ↔
      (inRange l x n = true → x + n < 2 ^ 64 ∧ x % 2 ^ 43 + n ≤ l.nrFrag * sceSctrPerFrag)) ∧
    ∀ s i lun, CallsAccess s i lun x n := by
  refine ⟨?_, fun s i lun => callsAccess⟩
  have limit : l.nrFrag < 2 ^ 32 := by
    simp only [lunInit] at init
    split at init
    · obtain rfl := Option.some.inj init
      exact u32_lt _
    · cases init
  apply imp_congr_right
  intro accepted
  simp only [inRange, Bool.and_eq_true, decide_eq_true_eq] at accepted
  have pos : 0 < n := Nat.pos_of_ne_zero accepted.1
  have visits : (∀ a, a ∈ invalidateAccesses x n → a.fragnum < l.nrFrag ∧ a.pgoff + a.pgcnt ≤ scePagePerFrag) ↔
      invCount x n = 0 ∨ invFrag x * 256 + invOff x + invCount x n ≤ l.nrFrag * 256 :=
    invalidateVisits_inBounds limit (Nat.mod_lt _ (by decide)) le_rfl
  have pages := inv_inBounds hx hn pos limit
  constructor
  · intro bounds
    rcases visits.mp bounds.invalidate with none | inside
    · exfalso
      rcases Nat.lt_or_ge (x + n) (2 ^ 64) with straight | wraps
      · rw [invCount_eq hn pos straight] at none
        omega
      · have count := invCount_wrap hx hn wraps
        omega
    · exact pages.mp inside
  · rintro ⟨straight, fits⟩
    exact ⟨fun a access => get4read_inBounds hn pos straight fits access,
      fun f access => put4read_inBounds pos fits access, visits.mpr (Or.inr (pages.mpr ⟨straight, fits⟩))⟩

/-- A LUN of less than 2^43 sectors has all its fragments, and only a range that wraps can leave it. -/
theorem accepted_fits (small : m < 2 ^ 43) (init : lunInit m true = some l) (accepted : inRange l x n = true)
    (straight : x + n < 2 ^ 64) : x % 2 ^ 43 + n ≤ l.nrFrag * sceSctrPerFrag := by
  obtain ⟨size, frags, _, _⟩ := lunInit_size small init
  simp only [inRange, Bool.and_eq_true, decide_eq_true_eq] at accepted
  rw [u64_of_lt straight, size] at accepted
  rw [frags]
  simp only [sceSctrPerFrag]
  omega

theorem inBounds_first : ∃ l, lunInit 4096 true = some l ∧
    ((inRange l 0 8 = true → InBounds l.nrFrag 0 8) ↔
      (inRange l 0 8 = true → 0 + 8 < 2 ^ 64 ∧ 0 % 2 ^ 43 + 8 ≤ l.nrFrag * sceSctrPerFrag)) ∧
    ∀ s i lun, CallsAccess s i lun 0 8 :=
  ⟨_, rfl, inBounds_iff (m := 4096) rfl (by decide) (by decide)⟩

/-- A range that wraps around to the second page of the LUN: it is accepted, and the loop of `sce_invalidate`
begins at the last fragment number there is. -/
theorem inBounds_wrapped : (∃ l, lunInit 4096 true = some l ∧ inRange l (2 ^ 64 - 8) 16 = true ∧
      ¬ InBounds l.nrFrag (2 ^ 64 - 8) 16) ∧
    sceInvalidate (Sce.after [.addlun 4096 8 true]) 0 (2 ^ 64 - 8) 16 = .error .outOfRange := by
  refine ⟨⟨_, rfl, by decide +kernel, fun bounds => ?_⟩, ?_⟩
  · have first : ⟨2 ^ 32 - 1, 255, 1⟩ ∈ invalidateAccesses (2 ^ 64 - 8) 16 := by decide +kernel
    exact absurd (bounds.invalidate _ first).1 (by decide +kernel)
  · rfl

end Iostash
