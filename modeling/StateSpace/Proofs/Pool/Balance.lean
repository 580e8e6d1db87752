import Mathlib.Data.List.Count
import StateSpace.Proofs.Successors

/-!
# Balanced pools

The references to the states of a pool are spread over its clients: handles that a consumer owns, and
iterators that hold the state they loop on. A pool is balanced with a list of references if each slot
counts how often the list names it. Wrapping and cloning put one reference on the list, a release takes
one off, so a balanced pool never meets a release too many; when the list is empty, so is the pool. A
list that goes with a pool names no state more often than its slot can count, and a clone needs room for
one reference more.
-/

namespace StateSpace

open StateSpace.Action

/-- A reference to a state: the number of a pool with a handle. -/
abbrev Reference := Nat × Handle

namespace Pool

variable {p p' : Pool} {s t : Handle} {o : Shared} {x : Option Slot} {rs rs' : List Reference}

/-- The counters are right, and each slot counts the references to it, of which there are some if it is
in use. -/
structure Balanced (p : Pool) (rs : List Reference) : Prop where
  counted : p.Counted
  referenced : p.Referenced
  refs : ∀ s, p.refs s = rs.count (p.id, s)

/-! ## References -/

/-- A handle with references has an object, and its slot counts them. -/
theorem Sound.slot_of_refs (hp : p.Sound) (h : 0 < p.refs s) :
    ∃ o k, k + 1 < 2 ^ 32 ∧ p.slot? s = some (.ofShared o (k + 1)) ∧ p.refs s = k + 1 := by
  cases hs : p.slot? s with
  | none =>
    rw [refs_eq hs] at h
    exact absurd h (Nat.lt_irrefl 0)
  | some y =>
    obtain ⟨o, k, hk, rfl⟩ := hp.slot s y hs
    have hrefs := refs_ofShared hs hk
    obtain ⟨j, rfl⟩ := Nat.exists_eq_succ_of_ne_zero (Nat.ne_of_gt (hrefs ▸ h))
    exact ⟨o, j, hk, rfl, hrefs⟩

theorem Sound.isLive_of_refs (hp : p.Sound) (h : 0 < p.refs s) : p.isLive s = true := by
  obtain ⟨o, k, -, hk, -⟩ := hp.slot_of_refs h
  exact Has.isLive ⟨_, hk⟩

theorem Sound.refs_pos (hp : p.Sound) (hr : p.Referenced) (h : p.isLive s = true) : 0 < p.refs s := by
  rw [isLive_eq, Option.isSome_iff_ne_none] at h
  obtain ⟨o, k, hk, hs⟩ := hr.exists_slot hp h
  rw [refs_ofShared hs hk]
  exact Nat.succ_pos k

theorem Sound.refCount_eq (hp : p.Sound) (h : 0 < p.refs s) : p.refCount s = .ok (p.refs s) := by
  obtain ⟨o, k, hk, hs, hrefs⟩ := hp.slot_of_refs h
  rw [Pool.refCount_eq hs hk, hrefs]

/-- Slots stay referenced if the one that changes has references, or is vacated. -/
theorem Updated.referenced (hu : Updated p s x p') (h : p.Referenced)
    (hx : ∀ o, x ≠ some (.ofShared o 0)) : p'.Referenced := by
  intro t o ht
  by_cases hts : t = s
  · subst hts
    exact hx o (hu.self.symm.trans ht)
  · exact h t o ((hu.frame t hts).symm.trans ht)

/-! ## Balance -/

theorem Balanced.congr (hb : p.Balanced rs) (h : ∀ s, rs'.count (p.id, s) = rs.count (p.id, s)) :
    p.Balanced rs' := ⟨hb.counted, hb.referenced, fun s => (hb.refs s).trans (h s).symm⟩

theorem Balanced.refs_pos (hb : p.Balanced rs) (hs : (p.id, s) ∈ rs) : 0 < p.refs s := by
  rw [hb.refs]
  exact List.count_pos_iff.2 hs

theorem count_cons_ne {k : Nat} (ht : t ≠ s) : ((k, s) :: rs).count (k, t) = rs.count (k, t) :=
  List.count_cons_of_ne fun heq => ht (congrArg Prod.snd heq).symm

/-- One more reference to a slot goes on the list. -/
theorem Balanced.cons {k : Nat} (hb : p.Balanced rs) (hu : Updated p s (some (.ofShared o k)) p')
    (hk : k = p.refs s + 1) (hroom : k < 2 ^ 32) : p'.Balanced ((p.id, s) :: rs) := by
  refine ⟨hu.counted hb.counted, hu.referenced hb.referenced fun o' heq => ?_, fun t => ?_⟩
  · exact Slot.ofShared_ne_zero (hk ▸ Nat.succ_pos _) hroom o o' (Option.some.inj heq)
  · rw [hu.id]
    by_cases ht : t = s
    · subst ht
      rw [refs_ofShared hu.self hroom, hk, hb.refs, List.count_cons_self]
    · rw [refs_congr (hu.frame t ht), hb.refs, count_cons_ne ht]

/-- One reference less to a slot comes off the list. -/
theorem Balanced.uncons {k : Nat} (hb : p.Balanced ((p.id, s) :: rs))
    (hu : Updated p s (if k = 0 then none else some (.ofShared o k)) p') (hk : k + 1 = p.refs s)
    (hroom : k < 2 ^ 32) : p'.Balanced rs := by
  refine ⟨hu.counted hb.counted, hu.referenced hb.referenced fun o' heq => ?_, fun t => ?_⟩
  · by_cases hzero : k = 0
    · rw [if_pos hzero] at heq
      cases heq
    · rw [if_neg hzero] at heq
      exact Slot.ofShared_ne_zero (Nat.pos_of_ne_zero hzero) hroom o o' (Option.some.inj heq)
  · rw [hu.id]
    by_cases ht : t = s
    · subst ht
      rw [hb.refs, List.count_cons_self] at hk
      rw [← Nat.succ.inj hk]
      by_cases hzero : k = 0
      · rw [refs_eq hu.self, if_pos hzero, hzero]
        rfl
      · exact refs_ofShared (hu.self.trans (if_neg hzero)) hroom
    · rw [refs_congr (hu.frame t ht), hb.refs, count_cons_ne ht]

theorem wrap_balanced (hp : p.Sound) (hb : p.Balanced rs) (o : Shared) :
    Ensures (wrap o) p fun s p' => p'.Balanced ((p.id, s) :: rs) ∧
      Updated p s (some (.ofShared o 1)) p' := by
  refine (wrap_spec hp o).mono fun s p' ⟨hvacant, hupd⟩ => ⟨hb.cons hupd ?_ (by decide), hupd⟩
  rw [refs_eq hvacant]
  rfl

theorem clone_balanced (hp : p.Sound) (hb : p.Balanced rs) (hs : (p.id, s) ∈ rs)
    (hroom : rs.count (p.id, s) + 1 < 2 ^ 32) :
    Ensures (clone s) p fun t p' => t = s ∧ p'.Balanced ((p.id, s) :: rs) ∧
      ∃ o k, p.Has s o ∧ Updated p s (some (.ofShared o k)) p' := by
  obtain ⟨o, k, -, hk, hrefs⟩ := hp.slot_of_refs (hb.refs_pos hs)
  obtain ⟨t, p', hrun, rfl, hupd⟩ := clone_spec hp hk
  rw [← hb.refs, hrefs] at hroom
  exact ⟨t, p', hrun, rfl, hb.cons hupd (by rw [hrefs]) hroom, o, k + 1 + 1, ⟨_, hk⟩, hupd⟩

theorem release_balanced (hp : p.Sound) (hb : p.Balanced ((p.id, s) :: rs)) :
    Ensures (release s) p fun _ p' => p'.Balanced rs := by
  obtain ⟨o, k, hk, hs, hrefs⟩ := hp.slot_of_refs (hb.refs_pos List.mem_cons_self)
  exact (release_spec hp hs hk).mono fun last p' ⟨_, hupd⟩ =>
    hb.uncons hupd hrefs.symm (Nat.lt_of_succ_lt hk)

/-- When no reference is out, the pool is empty, and what was wrapped has been freed. -/
theorem Balanced.empty (hb : p.Balanced rs) (hp : p.Sound) (h : ∀ s, (p.id, s) ∉ rs) :
    p.live = 0 ∧ p.wrapped = p.freed := by
  have hvacant : ∀ i, p.slots.value? i = none := by
    intro i
    by_contra hne
    have hlive : p.isLive ⟨i⟩ = true := by
      rw [isLive_eq, Option.isSome_iff_ne_none]
      exact hne
    have hpos := hp.refs_pos hb.referenced hlive
    rw [hb.refs, List.count_eq_zero_of_not_mem (h ⟨i⟩)] at hpos
    exact Nat.lt_irrefl 0 hpos
  have hlive : p.live = 0 := hb.counted.slots.live_eq_zero hp.wellFormed hvacant
  have hwrapped := hb.counted.wrapped
  rw [hlive, Nat.zero_add] at hwrapped
  exact ⟨hlive, hwrapped⟩

end Pool

/-! ## Iterators -/

namespace Iterator

variable {p : Pool} {it : Iterator} {rs : List Reference}

/-- The reference that the iterator holds. -/
def references (it : Iterator) : List Reference := it.selfLoop.toList.map (it.home, ·)

theorem references_of_none (h : it.selfLoop = none) : it.references = [] := by
  unfold references
  rw [h]
  rfl

theorem references_of_some {s : Handle} (h : it.selfLoop = some s) :
    it.references = [(it.home, s)] := by
  unfold references
  rw [h]
  rfl

theorem home_of_mem_references {r : Reference} (h : r ∈ it.references) : r.1 = it.home := by
  obtain ⟨t, -, rfl⟩ := List.mem_map.1 h
  rfl

theorem home_first (it : Iterator) : it.first.2.home = it.home := by
  unfold first
  split <;> rfl

theorem home_next (it : Iterator) : it.next.2.home = it.home := by
  unfold next
  split <;> rfl

theorem selfLoop_first (it : Iterator) : it.first.2.selfLoop = it.selfLoop := by
  unfold first
  split <;> rfl

theorem selfLoop_next (it : Iterator) : it.next.2.selfLoop = it.selfLoop := by
  unfold next
  split <;> rfl

theorem references_first (it : Iterator) : it.first.2.references = it.references := by
  unfold references
  rw [home_first, selfLoop_first]

theorem references_next (it : Iterator) : it.next.2.references = it.references := by
  unfold next
  split <;> rfl

/-- The end of an iterator's life gives back what it holds. -/
theorem close_balanced (hp : p.Sound) (hb : p.Balanced (it.references ++ rs))
    (hhome : it.home = p.id) : Ensures it.close p fun _ p' => p'.Balanced rs := by
  unfold close
  cases hloop : it.selfLoop with
  | none =>
    rw [references_of_none hloop] at hb
    exact Ensures.pure hb
  | some s =>
    rw [references_of_some hloop, hhome] at hb
    exact (Pool.release_balanced hp hb).bind fun _ _ hb' => Ensures.pure hb'

/-- An iterator that is not exhausted has a destination, to which the caller gets a reference. There is
to be room for one more to the state that it loops on. -/
theorem destination_balanced (hp : p.Sound) (hb : p.Balanced rs) (hhome : it.home = p.id)
    (hheld : ∀ r ∈ it.references, r ∈ rs ∧ rs.count r + 1 < 2 ^ 32) (hdone : it.done = false) :
    Ensures it.destination p fun s p' => p'.Balanced ((p.id, s) :: rs) ∧
      ∃ o k, (p.Has s o ∨ ∃ x ∈ it.cursor.rest, x.1 = o) ∧
        Pool.Updated p s (some (.ofShared o k)) p' := by
  unfold destination
  rw [hdone, if_neg Bool.false_ne_true]
  unfold done isSelfLoop at hdone
  cases hloop : it.selfLoop with
  | some s =>
    rw [references_of_some hloop, hhome] at hheld
    obtain ⟨hs, hroom⟩ := hheld _ List.mem_cons_self
    refine (Pool.clone_balanced hp hb hs hroom).mono ?_
    rintro t p' ⟨rfl, hb', o, k, ho, hupd⟩
    exact ⟨hb', o, k, .inl ho, hupd⟩
  | none =>
    rw [hloop] at hdone
    obtain ⟨home, ⟨items, rest⟩, cond, selfLoop, looped⟩ := it
    cases rest with
    | nil => cases hdone
    | cons x rest =>
      exact (Pool.wrap_balanced hp hb x.1).mono fun s p' ⟨hb', hupd⟩ =>
        ⟨hb', x.1, 1, .inr ⟨x, List.mem_cons_self, rfl⟩, hupd⟩

theorem destination_exhausted (hdone : it.done = true) :
    it.destination p = .error .exhausted p := by
  unfold destination
  rw [if_pos hdone]
  rfl

end Iterator

end StateSpace
