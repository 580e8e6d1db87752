import StateSpace.Proofs.Action
import StateSpace.Proofs.Table.Chains
import StateSpace.Proofs.Table.Links

/-!
# Tables that stay intact

Whatever is asked of a table, its free list and its counter stay right and its links lead to an end: also
when cells are released that `put` linked into a chain, when a cell is released twice, or when an index
lies past the end.

1. A call replaces at most two cells, and each time the new cell leads to the end (`Replaced.ending`). So
   every action leaves a table intact (`keeps_add`, `keeps_put`, `keeps_take`, `keeps_modify`).
2. `Puts t v r t'` is what `put` does with a value, by the cell that the search along the chain of its
   bucket ends at. The search has no bound there; it ends since the links do (`Intact.puts`).
-/

namespace StateSpace.Table

open StateSpace.Action

variable {α : Type} {t t' t₀ t₁ : Table α} {i j k : Nat} {v w : α} {c : Cell α}
  {is : List Nat}

/-! ## Cells that change -/

theorem Replaced.next_self (h : Replaced t i c t') : t'.next i = .ok c.next :=
  next_eq_ok_iff.2 ⟨c, h.cell, rfl⟩

/-- All cells lead to the end if the one that changed does. -/
theorem Replaced.ending (h : Replaced t i c t') (ht : t.Ending) (hi : Trail t' i is) : t'.Ending := by
  intro k hk
  by_cases hki : k = i
  · exact ⟨is, hki ▸ hi⟩
  · have hlt : k < t.cells.size := by
      have hcell := h.frame k hki
      rw [Array.getElem?_eq_getElem hk] at hcell
      exact (Array.getElem?_eq_some_iff.1 hcell.symm).1
    obtain ⟨ks, hks⟩ := ht k hlt
    exact hks.redirect hi fun j hj => next_congr (h.frame j hj)

/-- A cell without a next one is an end. -/
theorem Replaced.ending_of_last (h : Replaced t i c t') (ht : t.Ending) (hi : i ≠ 0) (hc : c.next = 0) :
    t'.Ending :=
  h.ending ht (.cons hi (hc ▸ h.next_self) .nil)

theorem link_replaced {c : Cell α} (h : t.cells[j]? = some c) (i : Nat) :
    Replaced t j { c with next := i } (t.link j i) where
  cell := by simp [link, Array.getElem?_modify, h]
  frame k hk := by simp [link, Array.getElem?_modify, Ne.symm hk]
  heads := rfl
  mask := rfl

/-! ## Intact tables -/

/-- What is right about a table in any use. -/
structure Intact [Inhabited α] (t : Table α) : Prop where
  wellFormed : t.WellFormed
  counted : t.Counted
  sentry : t.cells[0]? = some ⟨default, 0, true⟩
  vacant : ∀ (i : Nat) (c : Cell α), t.cells[i]? = some c → c.occupied = false → c = ⟨default, 0, false⟩
  ending : t.Ending
  heads_lt : ∀ b, t.heads.getD b 0 < t.cells.size

section Intact

variable [Inhabited α]

theorem create_intact {bits : Nat} (h : create bits = .ok t) : t.Intact := by
  have hcounted := create_counted h
  obtain ⟨hwf, -, hsize, hheads, -⟩ := create_spec h
  have hcell : t.cells[0]? = some ⟨default, 0, true⟩ := by
    unfold create at h
    split at h
    · cases h
      rfl
    · cases h
  have hzero : ∀ {i c}, t.cells[i]? = some c → i = 0 := fun hc => by
    have hlt := (Array.getElem?_eq_some_iff.1 hc).1
    omega
  refine ⟨hwf, hcounted, hcell, fun i c hc hvac => ?_, fun i hi => ?_, fun b => ?_⟩
  · rw [hzero hc, hcell] at hc
    cases hc
    cases hvac
  · rw [show i = 0 by omega]
    exact ⟨[], .nil⟩
  · rw [hheads, Std.HashMap.getD_empty]
    exact hwf.pos

/-- A change of one cell other than the sentry leaves the other cells right. -/
theorem Intact.replaced (h : t.Intact) (hr : Replaced t i c t') (hi : i ≠ 0) (hwf : t'.WellFormed)
    (hcounted : t'.Counted) (hc : c.occupied = false → c = ⟨default, 0, false⟩) (hending : t'.Ending)
    (hsize : t.cells.size ≤ t'.cells.size) : t'.Intact where
  wellFormed := hwf
  counted := hcounted
  sentry := (hr.frame 0 (Ne.symm hi)).trans h.sentry
  vacant j d hd hvac := by
    by_cases hj : j = i
    · subst hj
      cases hr.cell.symm.trans hd
      exact hc hvac
    · exact h.vacant j d ((hr.frame j hj).symm.trans hd) hvac
  ending := hending
  heads_lt b := by
    rw [hr.heads]
    exact Nat.lt_of_lt_of_le (h.heads_lt b) hsize

theorem Intact.added (h : t.Intact) (ha : Added t v i t') : t'.Intact :=
  h.replaced ha.replaced ha.ne_zero (ha.wellFormed h.wellFormed) (ha.counted h.counted) nofun
    (ha.replaced.ending_of_last h.ending ha.ne_zero rfl) ha.size_le

theorem Intact.taken (h : t.Intact) (hv : t.value? i = some v) (hrun : take i t = .ok v t') :
    t'.Intact := by
  obtain ⟨_, hrun', hchanged, hwf, -⟩ := take_spec h.wellFormed hv
  cases hrun.symm.trans hrun'
  have hi := (value?_eq_some_iff.1 hv).1
  have hr := take_replaced hv hrun
  exact h.replaced hr hi hwf (h.counted.of_take h.wellFormed hrun) (fun _ => rfl)
    (hr.ending_of_last h.ending hi rfl) (Nat.le_of_eq hchanged.size.symm)

theorem Intact.modified {f : α → α} (h : t.Intact) (hv : t.value? i = some v)
    (hrun : modify i f t = .ok () t') : t'.Intact := by
  obtain ⟨_, hrun', hchanged, hwf, -⟩ := modify_spec h.wellFormed f hv
  cases hrun.symm.trans hrun'
  obtain ⟨hi, k, hk⟩ := value?_eq_some_iff.1 hv
  have hr := modify_replaced hi hk hrun
  have hnext : ∀ j, t'.next j = t.next j := by
    intro j
    by_cases hj : j = i
    · subst hj
      exact hr.next_self.trans (next_eq_ok_iff.2 ⟨_, hk, rfl⟩).symm
    · exact next_congr (hr.frame j hj)
  obtain ⟨is, his⟩ := h.ending i (lt_size_of_value? hv)
  exact h.replaced hr hi hwf (h.counted.of_modify hrun) nofun
    (hr.ending h.ending (his.congr hnext)) (Nat.le_of_eq hchanged.size.symm)

/-- A cell that was added may be linked behind one that is occupied and the last of its chain. -/
theorem Intact.linked (h : t.Intact) (ha : Added t v i t₁) (hj : t.value? j = some w) :
    (t₁.link j i).Intact := by
  have h₁ := h.added ha
  have hwf := ((ha.placed h.wellFormed).link j i).wellFormed
  obtain ⟨hne, k, hk⟩ := value?_eq_some_iff.1 (ha.value?_mono hj)
  have hr := link_replaced hk i
  have hij : i ≠ j := by
    rintro rfl
    cases ha.vacant.symm.trans hj
  have hnext : (t₁.link j i).next i = .ok 0 :=
    (next_congr (hr.frame i hij)).trans (next_eq_ok_iff.2 ⟨_, ha.cell, rfl⟩)
  refine h₁.replaced hr hne hwf ?_ nofun ?_ (Nat.le_of_eq (size_link ..).symm)
  · have hcounted := h₁.counted
    unfold Counted at hcounted ⊢
    rwa [size_link]
  · exact hr.ending h₁.ending (.cons hne hr.next_self (.cons ha.ne_zero hnext .nil))

/-- The cell of a new bucket becomes its head. -/
theorem Intact.headed (h : t.Intact) (ha : Added t v i t₁) (b : UInt64) :
    Intact { t₁ with heads := t₁.heads.insert b i } := by
  have h₁ := h.added ha
  refine ⟨⟨h₁.wellFormed.pos, h₁.wellFormed.free_nodup, h₁.wellFormed.mem_free⟩, h₁.counted, h₁.sentry,
    h₁.vacant, fun k hk => ?_, fun b' => ?_⟩
  · obtain ⟨ks, hks⟩ := h₁.ending k hk
    exact ⟨ks, hks.congr fun _ => rfl⟩
  · rw [Std.HashMap.getD_insert]
    split
    · exact lt_size_of_value? ha.value?_self
    · exact h₁.heads_lt b'

end Intact

/-! ## Putting a value -/

section Put

variable [WordHash α]

/-- The first cell of the bucket of a value; there is none if it is 0. -/
def head (t : Table α) (v : α) : Nat := t.heads.getD (t.bucket v) 0

/-- What `put` does with a value: the first of its bucket becomes the head, one that the search from the
head finds is there, one that it does not find is linked behind the last cell, and if it comes to a vacant
cell, nothing is done. -/
inductive Puts (t : Table α) (v : α) : Except Fault Nat → Table α → Prop
  | first {i : Nat} {t₁ : Table α} : t.head v = 0 → Added t v i t₁ →
      Puts t v (.ok i) { t₁ with heads := t₁.heads.insert (t.bucket v) i }
  | found {i : Nat} : t.head v ≠ 0 → Search t v (t.head v) (.ok (.found i)) → Puts t v (.ok i) t
  | behind {i j : Nat} {t₁ : Table α} : t.head v ≠ 0 → Search t v (t.head v) (.ok (.last j)) →
      Added t v i t₁ → Puts t v (.ok i) (t₁.link j i)
  | vacant {e : Fault} : t.head v ≠ 0 → Search t v (t.head v) (.error e) → Puts t v (.error e) t

theorem Puts.ne_zero (hp : Puts t v (.ok i) t') : i ≠ 0 := by
  cases hp with
  | first _ ha => exact ha.ne_zero
  | found _ hs => exact (value?_eq_some_iff.1 hs.of_found).1
  | behind _ _ ha => exact ha.ne_zero

variable [Inhabited α]

/-- The search of `put` ends: an index is returned, or the search comes to a vacant cell. -/
theorem Intact.puts [DecidableEq α] (h : t.Intact) (v : α) :
    (∃ i t', put v t = .ok i t' ∧ Puts t v (.ok i) t') ∨
      ∃ n, n ≠ 0 ∧ t.value? n = none ∧ put v t = .error (.vacant n) t ∧
        Puts t v (.error (.vacant n)) t := by
  obtain ⟨t₁, hadd, ha⟩ := add_spec h.wellFormed v
  obtain ⟨head, hhead⟩ : ∃ i, t.head v = i := ⟨_, rfl⟩
  have hget : t.heads.getD (t.bucket v) 0 = head := hhead
  cases head with
  | zero => exact .inl ⟨_, _, by simp only [put, hget, hadd], .first hhead ha⟩
  | succ i =>
    have hne : t.head v ≠ 0 := by
      rw [hhead]
      exact Nat.succ_ne_zero i
    obtain ⟨is, his⟩ := h.ending (t.head v) (h.heads_lt _)
    obtain ⟨r, hr, hprobe⟩ := his.exists_search hne v
    -- the bound on the walk is no less than the length of the trail
    have hsearch : t.probe v t.cells.size (i + 1) = r := hhead ▸ hprobe _ his.length_le
    cases r with
    | ok found =>
      cases found with
      | found j => exact .inl ⟨_, _, by simp only [put, hget, hsearch], .found hne hr⟩
      | last j => exact .inl ⟨_, _, by simp only [put, hget, hsearch, hadd], .behind hne hr ha⟩
    | error e =>
      obtain ⟨n, rfl, hn, hvacant⟩ := hr.of_error hne
      exact .inr ⟨n, hn, hvacant, by simp only [put, hget, hsearch], .vacant hne hr⟩

theorem Puts.intact {r : Except Fault Nat} (hp : Puts t v r t') (h : t.Intact) : t'.Intact := by
  cases hp with
  | first _ ha => exact h.headed ha _
  | found => exact h
  | behind _ hs ha =>
    obtain ⟨⟨w, hw⟩, -⟩ := hs.of_last
    exact h.linked ha hw
  | vacant => exact h

end Put

/-! ## Actions -/

section Actions

variable [Inhabited α]

theorem keeps_add (v : α) : Keeps Intact (add v) := by
  intro t h
  obtain ⟨t', hrun, ha⟩ := add_spec h.wellFormed v
  rw [after_ok hrun]
  exact h.added ha

theorem keeps_put [WordHash α] [DecidableEq α] (v : α) : Keeps Intact (put v) := by
  intro t h
  rcases h.puts v with ⟨i, t', hrun, hp⟩ | ⟨n, -, -, hrun, -⟩
  · rw [after_ok hrun]
    exact hp.intact h
  · rwa [after_error hrun]

theorem keeps_take (i : Nat) : Keeps (Intact : Table α → Prop) (take i) := by
  intro t h
  rcases h.wellFormed.take_cases i with ⟨v, t', hv, hrun⟩ | ⟨e, hrun⟩
  · rw [after_ok hrun]
    exact h.taken hv hrun
  · rwa [after_error hrun]

theorem keeps_modify (i : Nat) (f : α → α) : Keeps Intact (modify i f) := by
  intro t h
  rcases h.wellFormed.modify_cases i f with ⟨v, t', hv, hrun⟩ | ⟨e, hrun⟩
  · rw [after_ok hrun]
    exact h.modified hv hrun
  · rwa [after_error hrun]

end Actions

end StateSpace.Table
