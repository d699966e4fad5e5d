import Iostash.Client.Tally

/-!
# LUNs with contexts of their own

Every LUN is added with a context that is not null and that no other LUN has. Then a population that is
pending belongs to one outstanding, and while no count of requests wraps, a LUN counts all of its requests.
-/

namespace Iostash

open Util

namespace World

variable {w w' : World} {call : Call} {allow : World → Call → Prop}

/-- A LUN gets a context that is not null and that no LUN has. -/
def Fresh (w : World) : Call → Prop
  | .addlun _ ctx _ => ctx ≠ 0 ∧ ∀ i, i < sceMaxLun → (w.sce.luntbl i).elim 0 Lun.lunctx ≠ ctx
  | _ => True

/-- A request starts while no LUN has 2^32 - 1 of them. -/
def Roomy (w : World) (call : Call) : Prop :=
  call.isGet = true → ∀ i, i < sceMaxLun → (w.sce.luntbl i).elim 0 Lun.nrService + 1 < 2 ^ 32

instance (w : World) (call : Call) : Decidable (w.Fresh call) :=
  match call with
  | .addlun _ ctx _ => inferInstanceAs (Decidable (ctx ≠ 0 ∧ ∀ i, i < sceMaxLun → (w.sce.luntbl i).elim 0 Lun.lunctx ≠ ctx))
  | .addcdev _ _ _ | .rmcdev _ | .rmlun _ | .get4read _ _ _ | .put4read _ | .invalidate _ _ _ | .get4pop _
    | .put4pop _ _ => .isTrue trivial

instance (w : World) (call : Call) : Decidable (w.Roomy call) :=
  inferInstanceAs (Decidable (_ → _))

theorem Fresh.addlun (fresh : w.Fresh call) (base : w.Base) : ∀ m ctx vmalloc, call = .addlun m ctx vmalloc →
    ctx ≠ 0 ∧ ∀ i l, w.ledger.view.lun i = some l → l.lunctx ≠ ctx := by
  rintro m ctx vmalloc rfl
  refine ⟨fresh.1, fun i l lun => ?_⟩
  have other := fresh.2 i (base.inv.sound.lun i l lun).1
  obtain ⟨l₀, here, rfl⟩ := Option.map_eq_some_iff.mp (Sce.view_lun ▸ lun)
  rw [here] at other
  exact other

theorem Roomy.ledger (roomy : w.Roomy call) (base : w.Base) : w.ledger.Roomy call := by
  intro get i l lun
  have room := roomy get i (base.inv.sound.lun i l lun).1
  obtain ⟨l₀, here, rfl⟩ := Option.map_eq_some_iff.mp (Sce.view_lun ▸ lun)
  rw [here] at room
  exact room

structure Founded (w : World) : Prop where
  base : w.Base
  named : w.sce.view.Named
  owned : w.ledger.Owned
  readNodup : (w.reads.map Read.id).Nodup

theorem Founded.init : World.init.Founded := by
  refine ⟨.init, ⟨?_, ?_⟩, ?_, List.nodup_nil⟩
  · intro i l lun
    cases lun
  · intro i j l m lun
    cases lun
  · intro i f c cell
    cases cell

theorem Founded.next (h : w.Founded) (fresh : w.Fresh call) (moves : w.exec call = some w') : w'.Founded := by
  obtain ⟨base', reply, _, turn⟩ := exec_turn h.base moves
  have sound := h.base.inv.sound
  exact ⟨base', turn.named h.named (fresh.addlun h.base),
    turn.owned h.owned sound base'.inv.sound h.named h.base.popNodup, turn.readNodup h.base.readIds h.readNodup⟩

theorem founded_of_reachable (reached : Reachable exec allow init w) (fresh : ∀ w call, allow w call → w.Fresh call) :
    w.Founded :=
  reached.invariant .init fun w call _ h ok moves => h.next (fresh w call ok) moves

theorem tallied_init : World.init.ledger.Tallied := by
  refine ⟨?_, ?_, ?_, ?_⟩
  · intro i l lun
    cases lun
  · intro i l lun
    cases lun
  · intro r member
    cases member
  · intro p member
    cases member

theorem Founded.tallied_next (h : w.Founded) (tallied : w.ledger.Tallied) (fresh : w.Fresh call)
    (roomy : w.Roomy call) (moves : w.exec call = some w') : w'.ledger.Tallied := by
  obtain ⟨base', reply, _, turn⟩ := exec_turn h.base moves
  exact turn.tallied tallied h.named (roomy.ledger h.base)
    fun m ctx vmalloc called => (fresh.addlun h.base m ctx vmalloc called).2

end World

end Iostash
