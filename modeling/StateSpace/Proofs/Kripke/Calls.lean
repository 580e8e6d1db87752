import StateSpace.Proofs.Kripke.Moves
import StateSpace.Proofs.Pool.Balance

/-!
# Calls on a structure

The consumer of a structure asks for its initial state, clones and releases handles, and uses iterators.
A call that finds a sound world with a balanced pool leaves such a world, and the list of references has
changed by exactly what the call hands out or takes back; what takes one more reference to a state needs
room for it. Others may go on as if nothing had happened: no party loses anything in the dictionary, and
pool and network are the same.
-/

namespace StateSpace

open StateSpace.Action

/-- The successors of an iterator are states of an engine for the network. -/
def Iterator.Proper (ε : Type) [Engine ε] [LawfulEngine ε] (n : Network) (it : Iterator) : Prop :=
  ∀ x ∈ it.cursor.items ++ it.cursor.rest, LawfulEngine.Proper ε n x.1.state

section Proper

variable {ε : Type} [Engine ε] [LawfulEngine ε] {n : Network} {it : Iterator}

theorem Iterator.Proper.first (h : it.Proper ε n) : it.first.2.Proper ε n := by
  unfold Iterator.first
  split
  · exact h
  · intro x hx
    exact h x (List.mem_append_left _ ((List.mem_append.1 hx).elim id id))

theorem Iterator.Proper.next (h : it.Proper ε n) : it.next.2.Proper ε n := by
  unfold Iterator.next
  split
  · exact h
  · intro x hx
    apply h x
    rcases List.mem_append.1 hx with hx | hx
    · exact List.mem_append_left _ hx
    · exact List.mem_append_right _ (List.mem_of_mem_tail hx)

end Proper

namespace World

variable {ε : Type} [Engine ε] [LawfulEngine ε] {w w' : World ε} {rs rs' : List Reference}
  {s : Handle} {it : Iterator}

/-- The world is sound, and these are the references to its pool. -/
structure InOrder (w : World ε) (rs : List Reference) : Prop where
  sound : w.Sound
  balanced : w.kripke.pool.Balanced rs

/-- What a call leaves, with the references after it. -/
structure Follows (w : World ε) (rs : List Reference) (w' : World ε) : Prop where
  inOrder : w'.InOrder rs
  dict : Dictionary.Request.Kept w.dict (fun _ => True) w'.dict
  id : w'.kripke.pool.id = w.kripke.pool.id
  network : Engine.network w'.kripke.engine = Engine.network w.kripke.engine

theorem InOrder.refl (h : w.InOrder rs) : w.Follows rs w := ⟨h, .refl h.sound.dict _, rfl, rfl⟩

/-- Only the structure has changed, and it has the same pool and the same network. -/
theorem InOrder.withKripke (h : w.InOrder rs) {k : Kripke ε} (hs : Sound ⟨w.dict, k⟩)
    (hb : k.pool.Balanced rs') (hid : k.pool.id = w.kripke.pool.id)
    (hn : Engine.network k.engine = Engine.network w.kripke.engine) :
    w.Follows rs' ⟨w.dict, k⟩ := ⟨⟨hs, hb⟩, .refl h.sound.dict _, hid, hn⟩

/-- An initial state comes with a reference. -/
theorem initialState_follows (h : w.InOrder rs) : Ensures Kripke.initialState w fun r w' =>
    w.Follows (r.toOption.toList.map (w.kripke.pool.id, ·) ++ rs) w' := by
  refine (initialState_spec h.sound).mono fun r w' ⟨hkept, ss, e, _, hstarted⟩ => ?_
  match ss, hstarted with
  | [], ⟨hr, hw⟩ =>
    subst hr hw
    exact h.withKripke hkept.sound h.balanced rfl hkept.network
  | [o], ⟨s, hr, hvacant, hupd, hw⟩ =>
    subst hr
    rw [hw] at hkept ⊢
    refine h.withKripke hkept.sound (h.balanced.cons hupd ?_ (by decide)) hupd.id hkept.network
    rw [Pool.refs_eq hvacant]
    rfl
  | _ :: _ :: _, ⟨hr, hw⟩ =>
    subst hr hw
    exact h.withKripke hkept.sound h.balanced rfl hkept.network

/-! ## Handles -/

theorem clone_follows (h : w.InOrder rs) (hs : (w.kripke.pool.id, s) ∈ rs)
    (hroom : rs.count (w.kripke.pool.id, s) + 1 < 2 ^ 32) :
    Ensures (onPool (Pool.clone s)) w fun t w' =>
      t = s ∧ w.Follows ((w.kripke.pool.id, s) :: rs) w' := by
  obtain ⟨t, p, hrun, rfl, hb, o, k, ho, hupd⟩ :=
    Pool.clone_balanced h.sound.pool h.balanced hs hroom
  exact ⟨t, _, onPool_ok hrun, rfl,
    h.withKripke (h.sound.withShared (h.sound.proper _ o ho) hupd) hb hupd.id rfl⟩

theorem release_follows (h : w.InOrder ((w.kripke.pool.id, s) :: rs)) :
    Ensures (onPool (Pool.release s)) w fun _ w' => w.Follows rs w' := by
  obtain ⟨last, p, hrun, hb⟩ := Pool.release_balanced h.sound.pool h.balanced
  obtain ⟨hsound, hid⟩ := Move.sound_release h.sound hrun
  exact ⟨last, _, onPool_ok hrun, h.withKripke hsound hb hid rfl⟩

/-! ## Iterators -/

/-- An iterator over successors is proper; its loop has a reference of its own. -/
theorem successors_follows (h : w.InOrder rs) (hs : (w.kripke.pool.id, s) ∈ rs)
    (hroom : rs.count (w.kripke.pool.id, s) + 1 < 2 ^ 32) (others : InUse) :
    EnsuresFit (Kripke.successors others s) w fun it w' => w.Follows (it.references ++ rs) w' ∧
      it.home = w.kripke.pool.id ∧ it.Proper ε (Engine.network w.kripke.engine) := by
  obtain ⟨o, k, -, hk, hrefs⟩ := h.sound.pool.slot_of_refs (h.balanced.refs_pos hs)
  rw [← h.balanced.refs, hrefs] at hroom
  refine (Kripke.successors_spec h.sound ⟨_, hk⟩ others).mono ?_
  rintro it w' ⟨items, e', -, hnet, hitems, hserved⟩
  have hb : w'.kripke.pool.Balanced (it.references ++ rs) ∧
      w'.kripke.pool.id = w.kripke.pool.id := by
    have hp := hserved.pool
    cases hl : w.kripke.profile.loops items with
    | true =>
      rw [hl, if_pos rfl] at hp
      have hloop : it.references = [(w.kripke.pool.id, s)] := by
        rw [hserved.iterator, hl]
        rfl
      rw [hloop]
      exact ⟨h.balanced.cons (hp _ hk) (by rw [hrefs]) hroom, (hp _ hk).id⟩
    | false =>
      rw [hl, if_neg Bool.false_ne_true] at hp
      have hloop : it.references = [] := by
        rw [hserved.iterator, hl]
        rfl
      rw [hloop, hp]
      exact ⟨h.balanced, rfl⟩
  refine ⟨⟨⟨hserved.sound, hb.1⟩, ?_, hb.2, ?_⟩, ?_, fun x hx => hitems x ?_⟩
  · exact ⟨hserved.sound.dict, hserved.extend, fun o _ name v hv => by rwa [hserved.registry]⟩
  · rw [hserved.kripke]
    exact hnet
  · rw [hserved.iterator]
    rfl
  · rw [hserved.iterator] at hx
    exact (List.mem_append.1 hx).elim id id

theorem close_follows (h : w.InOrder (it.references ++ rs)) (hhome : it.home = w.kripke.pool.id) :
    Ensures (onPool it.close) w fun _ w' => w.Follows rs w' := by
  obtain ⟨u, p, hrun, hb⟩ := Iterator.close_balanced h.sound.pool h.balanced hhome
  obtain ⟨hsound, hid⟩ := Move.sound_close h.sound hrun
  exact ⟨u, _, onPool_ok hrun, h.withKripke hsound hb hid rfl⟩

/-- An iterator that is kept for later has given its reference back; one that is not kept still has
it. -/
theorem retire_follows (h : w.InOrder (it.references ++ rs)) :
    Ensures (Kripke.retire it) w fun kept w' =>
      w.Follows (if kept then rs else it.references ++ rs) w' ∧
        (kept = true → it.home = w.kripke.pool.id) := by
  by_cases hrefused : w.kripke.refuses it = true
  · exact ⟨false, w, Kripke.retire_refused hrefused, h.refl, fun hkept => by cases hkept⟩
  · have hhome : it.home = w.kripke.pool.id := by
      by_contra hne
      exact hrefused (by simp [Kripke.refuses, hne])
    obtain ⟨u, p, hclose, hb⟩ := Iterator.close_balanced h.sound.pool h.balanced hhome
    obtain ⟨hsound, hid⟩ := Move.sound_close h.sound hclose
    refine ⟨true, _, Kripke.retire_kept hrefused hclose, h.withKripke ?_ hb hid rfl, fun _ => hhome⟩
    refine hsound.withRest _ _ fun it' hit' => ?_
    cases hit'
    exact ⟨rfl, hhome.trans hid.symm⟩

theorem destination_follows (h : w.InOrder rs) (hhome : it.home = w.kripke.pool.id)
    (hheld : ∀ r ∈ it.references, r ∈ rs ∧ rs.count r + 1 < 2 ^ 32)
    (hit : it.Proper ε (Engine.network w.kripke.engine)) (hdone : it.done = false) :
    Ensures (onPool it.destination) w fun s w' => w.Follows ((w.kripke.pool.id, s) :: rs) w' := by
  obtain ⟨s, p, hrun, hb, o, k, ho, hupd⟩ :=
    Iterator.destination_balanced h.sound.pool h.balanced hhome hheld hdone
  refine ⟨s, _, onPool_ok hrun, h.withKripke (h.sound.withShared ?_ hupd) hb hupd.id rfl⟩
  rcases ho with ho | ⟨x, hx, rfl⟩
  · exact h.sound.proper _ o ho
  · exact hit x (List.mem_append_right _ hx)

end World

end StateSpace
