import Iostash.Client.Pairing

/-!
# Requests outstanding and the LUNs they count on

A LUN has at least one reference for every request outstanding on it, as long as its count does not wrap;
so no LUN goes under a request. This holds with cache devices removed at any time.
-/

namespace Iostash

namespace Ledger

structure Tallied (b : Ledger) : Prop where
  count : ∀ i l, b.view.lun i = some l → b.readsIn i + b.popsIn l.lunctx ≤ l.service
  small : ∀ i l, b.view.lun i = some l → l.service < 2 ^ 32
  reads : ∀ r ∈ b.reads, b.view.lun r.lunidx ≠ none
  pops : ∀ p ∈ b.pops, ∃ i l, b.view.lun i = some l ∧ p.task.lunctx = l.lunctx

variable {b : Ledger} {v : View} {i : Nat} {l : Volume}

theorem Tallied.of_lun (h : b.Tallied) (same : v.lun = b.view.lun) : Tallied ⟨v, b.reads, b.pops⟩ := by
  refine ⟨?_, ?_, ?_, ?_⟩
  · rw [same]
    exact h.count
  · rw [same]
    exact h.small
  · rw [same]
    exact h.reads
  · rw [same]
    exact h.pops

theorem Tallied.purge (h : b.Tallied) (lun : b.view.lun i = some l) (idle : l.service = 0) :
    Tallied ⟨b.view.purge i, b.reads, b.pops⟩ := by
  have none := h.count i l lun
  rw [idle, Nat.le_zero, Nat.add_eq_zero_iff] at none
  refine ⟨?_, ?_, ?_, ?_⟩
  · exact fun j m here => h.count j m (View.purge_lun_some here)
  · exact fun j m here => h.small j m (View.purge_lun_some here)
  · intro r member
    show (b.view.purge i).lun r.lunidx ≠ Option.none
    rw [View.purge_lun]
    split
    · rename_i same
      exact absurd (by simpa using same) (List.countP_eq_zero.mp none.1 r member)
    · exact h.reads r member
  · intro p member
    obtain ⟨j, m, here, ctx⟩ := h.pops p member
    refine ⟨j, m, ?_, ctx⟩
    show (b.view.purge i).lun j = some m
    rw [View.purge_lun, if_neg]
    · exact here
    · rintro rfl
      obtain rfl := Option.some.inj (lun.symm.trans here)
      exact absurd (by simpa using ctx) (List.countP_eq_zero.mp none.2 p member)

theorem Tallied.settle (h : b.Tallied) : Tallied ⟨b.view.settle i, b.reads, b.pops⟩ :=
  View.settle_induct (P := fun v => Tallied ⟨v, b.reads, b.pops⟩) h fun _ lun _ idle => h.purge lun idle

theorem Tallied.collect {f : Nat} (h : b.Tallied) : Tallied ⟨b.view.collect i f, b.reads, b.pops⟩ :=
  View.collect_induct (P := fun v => Tallied ⟨v, b.reads, b.pops⟩) h (fun _ _ _ _ => h.of_lun rfl)
    fun _ _ h' lun _ idle => h'.purge lun idle

theorem Tallied.setLun {reads : List Read} {pops : List Pop} {φ : Volume → Volume} (h : b.Tallied)
    (lun : b.view.lun i = some l) (ctx : ∀ l, (φ l).lunctx = l.lunctx)
    (count : (⟨v, reads, pops⟩ : Ledger).readsIn i + (⟨v, reads, pops⟩ : Ledger).popsIn l.lunctx ≤ (φ l).service)
    (small : (φ l).service < 2 ^ 32)
    (others : ∀ j m, j ≠ i → b.view.lun j = some m →
      (⟨v, reads, pops⟩ : Ledger).readsIn j + (⟨v, reads, pops⟩ : Ledger).popsIn m.lunctx ≤
        b.readsIn j + b.popsIn m.lunctx)
    (readsFrom : ∀ r ∈ reads, r ∈ b.reads ∨ r.lunidx = i)
    (popsFrom : ∀ p ∈ pops, p ∈ b.pops ∨ p.task.lunctx = l.lunctx) (same : v.lun = (b.view.setLun i φ).lun) :
    Tallied ⟨v, reads, pops⟩ := by
  refine ⟨?_, ?_, ?_, ?_⟩
  · intro j m here
    obtain ⟨m₀, there, rfl⟩ := View.setLun_lun_some ((congrFun same j).symm.trans here)
    split
    · rename_i e
      subst e
      obtain rfl := Option.some.inj (lun.symm.trans there)
      rw [ctx]
      exact count
    · rename_i ne
      exact Nat.le_trans (others j m₀ ne there) (h.count j m₀ there)
  · intro j m here
    obtain ⟨m₀, there, rfl⟩ := View.setLun_lun_some ((congrFun same j).symm.trans here)
    split
    · rename_i e
      subst e
      obtain rfl := Option.some.inj (lun.symm.trans there)
      exact small
    · exact h.small j m₀ there
  · intro r member
    show v.lun r.lunidx ≠ none
    rw [same, Ne, View.setLun_lun_none]
    rcases readsFrom r member with old | rfl
    · exact h.reads r old
    · rw [lun]
      exact Option.some_ne_none l
  · intro p member
    have kept : ∀ j m, b.view.lun j = some m → p.task.lunctx = m.lunctx →
        ∃ i l, v.lun i = some l ∧ p.task.lunctx = l.lunctx := by
      intro j m here same'
      refine ⟨j, if j = i then φ m else m, ?_, ?_⟩
      · rw [same, View.setLun_lun, here]
        split <;> rfl
      · split
        · rw [ctx]
          exact same'
        · exact same'
    rcases popsFrom p member with old | same'
    · obtain ⟨j, m, here, same'⟩ := h.pops p old
      exact kept j m here same'
    · exact kept i l lun same'

end Ledger

variable {b b' : Ledger} {now : Nat} {call : Call} {reply : Reply}

/-- The count of no LUN is about to wrap when a request starts. -/
def Ledger.Roomy (b : Ledger) (call : Call) : Prop :=
  call.isGet = true → ∀ i l, b.view.lun i = some l → l.service + 1 < 2 ^ 32

theorem Turn.tallied (turn : Turn b now call reply b') (tallied : b.Tallied) (named : b.view.Named)
    (roomy : b.Roomy call)
    (fresh : ∀ m ctx vmalloc, call = .addlun m ctx vmalloc → ∀ i l, b.view.lun i = some l → l.lunctx ≠ ctx) :
    b'.Tallied := by
  have fewer : ∀ {α : Type} {a x : α} {before after whole : List α}, whole = before ++ a :: after →
      x ∈ before ++ after → x ∈ whole := by
    rintro α a x before after _ rfl member
    rcases List.mem_append.mp member with left | right
    · exact List.mem_append_left _ left
    · exact List.mem_append_right _ (List.mem_cons_of_mem _ right)
  -- a put that finds its LUN gives back one reference
  have released : ∀ {p : Pop} {before after : List Pop} {i : Nat} {l : Volume} {v : View}, b.pops = before ++ p :: after →
      b.view.lun i = some l → l.lunctx = p.task.lunctx → v.lun = (b.view.release i).lun →
      (⟨v, b.reads, before ++ after⟩ : Ledger).Tallied := by
    intro p before after i l v parts present ctx luns
    have count := Ledger.popsIn_split parts v
    have old := tallied.count i l present
    have small := tallied.small i l present
    rw [count l.lunctx, if_pos ctx.symm] at old
    have held : 0 < l.service := Nat.lt_of_lt_of_le (Nat.add_pos_right _ (Nat.succ_pos _)) old
    have less : sub32 l.service 1 = l.service - 1 := sub32_of_le held small
    refine tallied.setLun (φ := fun l => { l with service := sub32 l.service 1 }) present (fun _ => rfl) ?_ ?_ ?_
      (fun _ member => Or.inl member) (fun q member => Or.inl (fewer parts member)) luns
    · simp only [less]
      exact Nat.le_sub_of_add_le old
    · simp only [less]
      exact Nat.lt_of_le_of_lt (Nat.sub_le _ _) small
    · intro j m ne here
      rw [count m.lunctx]
      exact Nat.add_le_add_left (Nat.le_add_right _ _) _
  cases turn with
  | noop => exact tallied
  | addcdev | rmcdev | invalidate =>
    refine tallied.of_lun ?_
    rfl
  | @addlun m ctx i vmalloc slot absent =>
    have here : ∀ j l, (if j = i then some (⟨ctx, m, lunFrags m, 0, false⟩ : Volume) else b.view.lun j) = some l →
        j = i ∧ l = ⟨ctx, m, lunFrags m, 0, false⟩ ∨ j ≠ i ∧ b.view.lun j = some l := by
      intro j l lun
      split at lun
      · rename_i e
        exact Or.inl ⟨e, (Option.some.inj lun).symm⟩
      · rename_i ne
        exact Or.inr ⟨ne, lun⟩
    refine ⟨?_, ?_, ?_, ?_⟩
    · intro j l lun
      rcases here j l lun with ⟨rfl, rfl⟩ | ⟨_, old⟩
      · -- nothing is outstanding on a LUN that was not there, nor for its context
        have noReads : b.readsIn j = 0 := List.countP_eq_zero.mpr fun r member same =>
          tallied.reads r member (by rw [show r.lunidx = j by simpa using same]; exact absent)
        have noPops : b.popsIn ctx = 0 := by
          refine List.countP_eq_zero.mpr fun p member same => ?_
          obtain ⟨k, l, lun, ctx'⟩ := tallied.pops p member
          exact fresh m ctx vmalloc rfl k l lun (ctx'.symm.trans (by simpa using same))
        show b.readsIn j + b.popsIn ctx ≤ 0
        omega
      · exact tallied.count j l old
    · intro j l lun
      rcases here j l lun with ⟨_, rfl⟩ | ⟨_, old⟩
      · exact Nat.two_pow_pos 32
      · exact tallied.small j l old
    · intro r member
      show (if r.lunidx = i then _ else b.view.lun r.lunidx) ≠ none
      split
      · exact Option.some_ne_none _
      · exact tallied.reads r member
    · intro p member
      obtain ⟨j, l, lun, ctx'⟩ := tallied.pops p member
      refine ⟨j, l, ?_, ctx'⟩
      show (if j = i then _ else b.view.lun j) = some l
      rw [if_neg]
      · exact lun
      · rintro rfl
        rw [absent] at lun
        cases lun
  | rmlunWait present =>
    have count := tallied.count _ _ present
    have small := tallied.small _ _ present
    refine tallied.setLun (φ := fun l => { l with waiting := true }) present (fun _ => rfl) count small ?_
      (fun _ => Or.inl) (fun _ => Or.inl) rfl
    exact fun _ _ _ _ => Nat.le_refl _
  | rmlun present idle => exact tallied.purge present idle
  | @readHit i x n ctx size c served =>
    obtain ⟨l, present, _⟩ := served
    have more : u32 (l.service + 1) = l.service + 1 := u32_of_lt (roomy rfl i l present)
    have old := tallied.count i l present
    refine tallied.setLun (φ := fun l => { l with service := u32 (l.service + 1) }) present (fun _ => rfl) ?_ ?_ ?_ ?_
      (fun _ => Or.inl) rfl
    · simp only [more, Ledger.readsIn, List.countP_cons, beq_self_eq_true, if_true] at old ⊢
      show _ + 1 + b.popsIn l.lunctx ≤ _
      omega
    · simp only [more]
      exact roomy rfl i l present
    · intro j m ne _
      refine Nat.add_le_add_right (Nat.le_of_eq ?_) _
      simp [Ledger.readsIn, Ne.symm ne]
    · intro r member
      rcases List.mem_cons.mp member with rfl | old
      · exact Or.inr rfl
      · exact Or.inl old
  | @putRead r before after parts busy =>
    obtain ⟨l, _, present, _, _, _, _, _, held⟩ := busy
    have count := Ledger.readsIn_split parts
    have old := tallied.count _ l present
    have small := tallied.small _ l present
    have base : (⟨(b.view.setCell r.lunidx r.fragnum fun c => { c with service := c.service - 1 }).setLun r.lunidx
        fun l => { l with service := l.service - 1 }, before ++ after, b.pops⟩ : Ledger).Tallied := by
      refine tallied.setLun (φ := fun l => { l with service := l.service - 1 }) present (fun _ => rfl) ?_ ?_ ?_
        (fun q member => Or.inl (fewer parts member)) (fun _ => Or.inl) rfl
      · rw [count b.view, if_pos rfl] at old
        show _ + b.popsIn l.lunctx ≤ l.service - 1
        have same : ∀ v w : View, (⟨v, before ++ after, b.pops⟩ : Ledger).readsIn r.lunidx =
          (⟨w, before ++ after, b.pops⟩ : Ledger).readsIn r.lunidx := fun _ _ => rfl
        rw [same _ b.view]
        omega
      · simp only
        omega
      · intro j m _ _
        rw [count b.view j]
        exact Nat.add_le_add_right (Nat.le_add_right _ _) _
    show (⟨b.view.unpin r.lunidx r.fragnum, before ++ after, b.pops⟩ : Ledger).Tallied
    unfold View.unpin
    simp only
    split
    · exact base.collect
    · exact base
  | @putReadFail r before after parts =>
    refine ⟨?_, tallied.small, fun q member => tallied.reads q (fewer parts member), tallied.pops⟩
    intro j l lun
    have old := tallied.count j l lun
    rw [Ledger.readsIn_split parts b.view] at old
    exact Nat.le_trans (Nat.add_le_add_right (Nat.le_add_right _ _) _) old
  | @pop past i f ctx size a l present =>
    have more : u32 (l.service + 1) = l.service + 1 := u32_of_lt (roomy rfl i l present)
    have old := tallied.count i l present
    refine tallied.setLun (φ := fun l => { l with service := u32 (l.service + 1) }) present (fun _ => rfl) ?_ ?_ ?_
      (fun _ => Or.inl) ?_ rfl
    · simp only [more, Ledger.popsIn, List.countP_cons, beq_self_eq_true, if_true] at old ⊢
      show b.readsIn i + _ ≤ _
      omega
    · simp only [more]
      exact roomy rfl i l present
    · intro j m ne here
      refine Nat.add_le_add_left (Nat.le_of_eq ?_) _
      have other : l.lunctx ≠ m.lunctx := fun same => ne (named.inj j i m l here present same.symm)
      simp [Ledger.popsIn, other]
    · intro p member
      rcases List.mem_cons.mp member with rfl | old
      · exact Or.inr rfl
      · exact Or.inl old
  | @putPopFail p before after failed parts =>
    refine ⟨?_, tallied.small, tallied.reads, fun q member => tallied.pops q (fewer parts member)⟩
    intro j l lun
    have old := tallied.count j l lun
    rw [Ledger.popsIn_split parts b.view] at old
    exact Nat.le_trans (Nat.add_le_add_left (Nat.le_add_right _ _) _) old
  | @complete p before after i l c parts _ present ctx =>
    have base := released (v := (b.view.setCell i p.task.lunFragnum fun c => { c with valid := true, service := 0 }).release i)
      parts present ctx rfl
    exact base.collect
  | @stale p before after i l c parts _ present ctx =>
    have base := released (v := b.view.release i) parts present ctx rfl
    exact base.collect
  | @cancel p before after i l c parts _ present ctx =>
    have base := released (v := (b.view.drop i p.task.lunFragnum).release i) parts present ctx rfl
    exact base.settle

end Iostash
