import Iostash.Sce.Lun

/-!
# Cache miss log

`sce_misslog.c`.
-/

namespace Iostash

/-- The fields of the miss log. -/
def Sce.misslog (s : Sce) : (Nat → Nat) × (Nat → Nat) × Nat × Nat :=
  (s.misslogFragnum, s.misslogLunidx, s.misslogHead, s.misslogSize)

/-- `_misslog_put` -/
def misslogPut (s : Sce) (lunidx fragnum : Nat) : Sce :=
  let head := if s.misslogHead + 1 = sceCacheMissLogSize then 0 else s.misslogHead + 1
  { s with
    misslogFragnum := fun k => if k = s.misslogHead then fragnum else s.misslogFragnum k
    misslogLunidx := fun k => if k = s.misslogHead then lunidx else s.misslogLunidx k
    misslogHead := head
    misslogSize := if s.misslogSize < sceCacheMissLogSize then s.misslogSize + 1 else s.misslogSize }

/-- `_misslog_get`: the return code and, when there is such an entry, what it delivers. -/
def misslogGet (s : Sce) (idx : Nat) : Ret × Option (Nat × Nat) :=
  if idx < s.misslogSize then
    let i := s.misslogHead
    let idx := idx + 1
    let i := if idx ≤ i then i - idx else sceCacheMissLogSize - (idx - i)
    (if lunIsvalididx s (s.misslogLunidx i) then .success else .error,
      some (s.misslogLunidx i, s.misslogFragnum i))
  else (.error, none)

end Iostash
