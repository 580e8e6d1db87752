import StateSpace.Proofs.Pool.Balance

/-!
# Borrowed references

Whoever works on a pool that others use as well borrows references and gives them back. `Lent` keeps
the account of one borrower, who takes slots that were vacant and asks for more references to these
states only: the slots of the others are as they were, whatever they count, and the borrower's count its
own references, as long as none has too many. When nothing is borrowed any more, the slots are as
before.
-/

namespace StateSpace

open StateSpace.Action

namespace Pool

variable {p p' p'' : Pool} {s : Handle} {o : Shared} {objs objs' : Handle → Shared}
  {rs rs' : List Handle}

/-- `p'` is `p` with the references `rs` besides, which are to these objects. -/
structure Lent (p : Pool) (objs : Handle → Shared) (rs : List Handle) (p' : Pool) : Prop where
  sound : p'.Sound
  counted : p'.Counted
  id : p'.id = p.id
  vacant : ∀ s ∈ rs, p.slot? s = none
  own : ∀ s ∈ rs, p'.slot? s = some (.ofShared (objs s) (rs.count s))
  frame : ∀ s, s ∉ rs → p'.slot? s = p.slot? s

namespace Lent

theorem refl (hp : p.Sound) (hc : p.Counted) (objs : Handle → Shared) : p.Lent objs [] p :=
  ⟨hp, hc, rfl, nofun, nofun, fun _ _ => rfl⟩

/-- The order of the references does not matter. -/
theorem perm (h : p.Lent objs rs p') (hp : rs'.Perm rs) : p.Lent objs rs' p' where
  sound := h.sound
  counted := h.counted
  id := h.id
  vacant s hs := h.vacant s (hp.mem_iff.1 hs)
  own s hs := by
    rw [hp.count_eq]
    exact h.own s (hp.mem_iff.1 hs)
  frame s hs := h.frame s fun hmem => hs (hp.mem_iff.2 hmem)

theorem hash_eq (h : p.Lent objs rs p') (hs : s ∈ rs) : p'.hash s = .ok (objs s).state.hash :=
  Pool.hash_eq (h.own s hs)

/-! ## Operations -/

/-- A state is wrapped under a handle that nobody else has. -/
theorem wrap (h : p.Lent objs rs p') (o : Shared) : EnsuresOk (Pool.wrap o) p' fun s p'' =>
    ∃ objs', (∀ t ∈ rs, objs' t = objs t) ∧ p.Lent objs' (s :: rs) p'' := by
  refine (wrap_spec h.sound o).ok.mono fun s p'' ⟨hvacant, hu⟩ => ?_
  have hs : s ∉ rs := fun hs => by cases hvacant.symm.trans (h.own s hs)
  refine ⟨Function.update objs s o, fun t ht => Function.update_of_ne (ne_of_mem_of_not_mem ht hs) ..,
    hu.sound, hu.counted h.counted, hu.id.trans h.id, fun t ht => ?_, fun t ht => ?_,
    fun t ht => ?_⟩
  · rcases List.mem_cons.1 ht with rfl | ht
    · exact (h.frame t hs).symm.trans hvacant
    · exact h.vacant t ht
  · by_cases hts : t = s
    · subst hts
      rw [hu.self, Function.update_self, List.count_cons_self, List.count_eq_zero_of_not_mem hs]
    · rw [hu.frame t hts, Function.update_of_ne hts, List.count_cons_of_ne (Ne.symm hts)]
      exact h.own t ((List.mem_cons.1 ht).resolve_left hts)
  · obtain ⟨hts, ht⟩ := List.ne_and_not_mem_of_not_mem_cons ht
    rw [hu.frame t hts, h.frame t ht]

/-- One more reference is borrowed to a state that was borrowed before. -/
theorem clone (h : p.Lent objs rs p') (hs : s ∈ rs) :
    EnsuresOk (Pool.clone s) p' fun t p'' => t = s ∧ p.Lent objs (s :: rs) p'' := by
  refine (clone_spec h.sound (h.own s hs)).ok.mono fun t p'' ⟨ht, hu⟩ => ?_
  refine ⟨ht, hu.sound, hu.counted h.counted, hu.id.trans h.id, fun t ht => ?_, fun t ht => ?_,
    fun t ht => ?_⟩
  · rcases List.mem_cons.1 ht with rfl | ht
    · exact h.vacant t hs
    · exact h.vacant t ht
  · by_cases hts : t = s
    · subst hts
      rw [hu.self, List.count_cons_self]
    · rw [hu.frame t hts, List.count_cons_of_ne (Ne.symm hts)]
      exact h.own t ((List.mem_cons.1 ht).resolve_left hts)
  · obtain ⟨hts, ht⟩ := List.ne_and_not_mem_of_not_mem_cons ht
    rw [hu.frame t hts, h.frame t ht]

/-- A borrowed reference is given back, and the slot with the last one. -/
theorem release (h : p.Lent objs (s :: rs) p') (hroom : rs.count s + 1 < 2 ^ 32) :
    EnsuresOk (Pool.release s) p' fun _ p'' => p.Lent objs rs p'' := by
  have hs := h.own s List.mem_cons_self
  rw [List.count_cons_self] at hs
  refine (release_spec h.sound hs hroom).ok.mono fun last p'' ⟨_, hu⟩ => ?_
  refine ⟨hu.sound, hu.counted h.counted, hu.id.trans h.id,
    fun t ht => h.vacant t (List.mem_cons_of_mem s ht), fun t ht => ?_, fun t ht => ?_⟩
  · by_cases hts : t = s
    · subst hts
      rw [hu.self, if_neg (Nat.ne_of_gt (List.count_pos_iff.2 ht))]
    · rw [hu.frame t hts, h.own t (List.mem_cons_of_mem s ht), List.count_cons_of_ne (Ne.symm hts)]
  · by_cases hts : t = s
    · subst hts
      rw [hu.self, if_pos (List.count_eq_zero_of_not_mem ht), h.vacant t List.mem_cons_self]
    · rw [hu.frame t hts, h.frame t (List.not_mem_cons_of_ne_of_not_mem hts ht)]

/-! ## Nothing borrowed -/

/-- When all references have been given back, the slots are as before. -/
theorem slot?_eq (h : p.Lent objs [] p') : p'.slot? = p.slot? :=
  funext fun s => h.frame s List.not_mem_nil

end Lent

/-! ## Pools with the same slots -/

/-- Whatever is asked about the state of a handle depends on its slot. -/
theorem read_congr (h : p'.slot? s = p.slot? s) : p'.isLive s = p.isLive s ∧
    p'.refCount s = p.refCount s ∧ p'.hash s = p.hash s ∧ p'.get s = p.get s := by
  have hget : p'.slots.get s.slot = p.slots.get s.slot := Table.get_congr h
  unfold refCount hash get
  rw [isLive_eq, isLive_eq, h, hget]
  exact ⟨rfl, rfl, rfl, rfl⟩

/-- As many states came and did not go as there are in the slots. -/
theorem wrapped_sub_freed_congr (hp : p.Sound) (hc : p.Counted) (hp' : p'.Sound) (hc' : p'.Counted)
    (h : p'.slot? = p.slot?) : (p'.wrapped : Int) - p'.freed = p.wrapped - p.freed := by
  have hlive : p'.live = p.live := hc.slots.live_congr hp.wellFormed hc'.slots hp'.wellFormed
    fun i => congrFun h ⟨i⟩
  rw [hc.wrapped, hc'.wrapped, hlive]
  omega

end Pool

/-! ## Iterators -/

namespace Iterator

variable {p p' : Pool} {objs : Handle → Shared} {rs : List Handle} {it : Iterator}

/-- The end of an iterator's life gives back what it borrowed. -/
theorem close_lent (h : p.Lent objs (it.selfLoop.toList ++ rs) p')
    (hroom : ∀ s, rs.count s + 1 < 2 ^ 32) : EnsuresOk it.close p' fun _ p'' => p.Lent objs rs p'' := by
  unfold close
  cases hloop : it.selfLoop with
  | none =>
    rw [hloop] at h
    exact EnsuresOk.pure h
  | some s =>
    rw [hloop] at h
    exact (h.release (hroom s)).bind fun _ _ h' => EnsuresOk.pure h'

/-- A destination is a reference, be it new or one more. -/
theorem destination_lent (h : p.Lent objs rs p') (hit : ∀ s, it.selfLoop = some s → s ∈ rs) :
    EnsuresOk it.destination p' fun s p'' =>
      ∃ objs', (∀ t ∈ rs, objs' t = objs t) ∧ p.Lent objs' (s :: rs) p'' := by
  unfold destination
  split
  · exact EnsuresOk.throw
  · cases hloop : it.selfLoop with
    | some s =>
      exact (h.clone (hit s hloop)).mono fun t p'' ⟨ht, h'⟩ => ⟨objs, fun _ _ => rfl, ht ▸ h'⟩
    | none =>
      cases it.cursor.current with
      | ok x => exact h.wrap x.1
      | error e => exact EnsuresOk.throw

end Iterator

end StateSpace
