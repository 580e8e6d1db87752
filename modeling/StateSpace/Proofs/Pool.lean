import Mathlib.Algebra.Group.Nat.Defs
import StateSpace.Pool
import StateSpace.Proofs.Action
import StateSpace.Proofs.Table.Cells

/-!
# Pools as ledgers

In a sound pool every occupied slot holds a state object with its hash and a number of references. Each
operation changes one slot and no other: `wrap` takes a vacant one, `clone` and `release` count one
reference up or down, and the last release vacates the slot. The counters of states that came and went
keep up with that. References are counted modulo `2 ^ 32`, so the number of a slot is right as long as
there are fewer; a slot whose counter has started over is not vacant, but has nothing to release.
-/

namespace StateSpace

open StateSpace.Action

/-- A slot with a number of references to an object, as far as it can be counted. -/
def Slot.ofShared (o : Shared) (refs : Nat) : Slot :=
  { hash := o.state.hash, refs := .ofNat refs, state := some o }

theorem Slot.refs_ofShared {o : Shared} {k : Nat} (hk : k < 2 ^ 32) :
    (Slot.ofShared o k).refs.toNat = k := UInt32.toNat_ofNat_of_lt' hk

theorem Slot.ofShared_ne_zero {k : Nat} (h : 0 < k) (hk : k < 2 ^ 32) (o o' : Shared) :
    Slot.ofShared o k ≠ .ofShared o' 0 := by
  intro heq
  have hrefs := congrArg (fun x => x.refs.toNat) heq
  rw [Slot.refs_ofShared hk, Slot.refs_ofShared (by decide)] at hrefs
  exact Nat.ne_of_gt h hrefs

/-- Numbers that are counted alike are counted up alike. -/
theorem Slot.ofShared_succ_congr {o : Shared} {j k : Nat}
    (h : Slot.ofShared o j = Slot.ofShared o k) : Slot.ofShared o (j + 1) = Slot.ofShared o (k + 1) := by
  have hrefs : UInt32.ofNat j = .ofNat k := congrArg Slot.refs h
  unfold Slot.ofShared
  rw [UInt32.ofNat_add, UInt32.ofNat_add, hrefs]

namespace Pool

variable {p p' p'' : Pool} {s t : Handle} {o o' : Shared} {k : Nat}

/-- What the slot of a handle holds. -/
def slot? (p : Pool) (s : Handle) : Option Slot := p.slots.value? s.slot

/-- The references to the state of a handle; there are none to a vacant slot. -/
def refs (p : Pool) (s : Handle) : Nat := ((p.slot? s).map (·.refs.toNat)).getD 0

theorem refs_eq {x : Option Slot} (h : p.slot? s = x) : p.refs s = (x.map (·.refs.toNat)).getD 0 := by
  unfold refs
  rw [h]

theorem refs_congr (h : p'.slot? s = p.slot? s) : p'.refs s = p.refs s := by
  unfold refs
  rw [h]

theorem refs_ofShared (h : p.slot? s = some (.ofShared o k)) (hk : k < 2 ^ 32) : p.refs s = k :=
  (refs_eq h).trans (Slot.refs_ofShared hk)

/-- The handle is in use, and its state is the object. -/
def Has (p : Pool) (s : Handle) (o : Shared) : Prop := ∃ k, p.slot? s = some (.ofShared o k)

/-- Every occupied slot counts references to an object. -/
structure Sound (p : Pool) : Prop where
  wellFormed : p.slots.WellFormed
  slot : ∀ s x, p.slot? s = some x → ∃ o k, k < 2 ^ 32 ∧ x = .ofShared o k

/-- The counters tell how many slots are in use, and how many were. -/
structure Counted (p : Pool) : Prop where
  slots : p.slots.Counted
  wrapped : p.wrapped = p.live + p.freed

/-- `p'` is `p` with another content in one slot. -/
structure Updated (p : Pool) (s : Handle) (x : Option Slot) (p' : Pool) : Prop where
  sound : p'.Sound
  counted : p.Counted → p'.Counted
  self : p'.slot? s = x
  frame : ∀ t, t ≠ s → p'.slot? t = p.slot? t
  id : p'.id = p.id

theorem create_sound {id bits : Nat} (h : create id bits = .ok p) :
    p.Sound ∧ p.id = id ∧ ∀ s, p.slot? s = none := by
  obtain ⟨slots, hs, h⟩ := except_bind_eq_ok.1 h
  cases h
  obtain ⟨hwf, -, hsize, -, -⟩ := Table.create_spec hs
  have hnone : ∀ i, slots.value? i = none := by
    intro i
    cases hv : slots.value? i with
    | none => rfl
    | some x =>
      have := Table.pos_of_value? hv
      have := Table.lt_size_of_value? hv
      omega
  refine ⟨⟨hwf, fun s x hx => ?_⟩, rfl, fun s => hnone _⟩
  rw [slot?, hnone] at hx
  cases hx

theorem create_counted {id bits : Nat} (h : create id bits = .ok p) : p.Counted := by
  obtain ⟨slots, hs, h⟩ := except_bind_eq_ok.1 h
  cases h
  obtain ⟨-, -, -, -, hlive⟩ := Table.create_spec hs
  exact ⟨Table.create_counted hs, by show 0 = slots.live + 0; rw [hlive]⟩

theorem exists_create {id bits : Nat} (h : bits ≤ 31) : ∃ p, create id bits = .ok p := by
  unfold create Table.create
  rw [if_pos h]
  exact ⟨_, rfl⟩

/-! ## References -/

theorem onSlots_ok {α : Type} {x : Action (Table Slot) α} {a : α} {slots : Table Slot}
    (h : x p.slots = .ok a slots) : onSlots x p = .ok a { p with slots } := by
  obtain ⟨id, slots₀, wrapped, freed⟩ := p
  simp only [onSlots, h]

theorem onSlots_error {α : Type} {x : Action (Table Slot) α} {p : Pool} {e : Fault} {slots : Table Slot}
    (h : x p.slots = .error e slots) : onSlots x p = .error e { p with slots } := by
  obtain ⟨id, slots₀, wrapped, freed⟩ := p
  simp only [onSlots, h]

/-- The number of references to an object may be taken as it is counted. -/
theorem exists_ofShared_eq (o : Shared) (k : Nat) :
    ∃ o' k', k' < 2 ^ 32 ∧ Slot.ofShared o k = .ofShared o' k' := by
  refine ⟨o, k % 2 ^ 32, Nat.mod_lt _ (by decide), ?_⟩
  unfold Slot.ofShared
  rw [UInt32.ofNat_mod_size]

/-- A change of one slot to a content with references, or to none, keeps the pool sound. -/
theorem updated (hp : p.Sound) {slots : Table Slot} {x : Option Slot} (hwf : slots.WellFormed)
    (hself : slots.value? s.slot = x)
    (hframe : ∀ j, j ≠ s.slot → slots.value? j = p.slots.value? j)
    (hx : ∀ y, x = some y → ∃ o k, y = .ofShared o k) {wrapped freed : Nat}
    (hc : p.Counted → slots.Counted ∧ wrapped = slots.live + freed) :
    Updated p s x { id := p.id, slots, wrapped, freed } := by
  have hframe' : ∀ t : Handle, t ≠ s → slots.value? t.slot = p.slots.value? t.slot := by
    intro t ht
    refine hframe _ fun heq => ht ?_
    cases t
    cases s
    exact congrArg Handle.mk heq
  refine ⟨⟨hwf, fun t y hy => ?_⟩, fun h => ⟨(hc h).1, (hc h).2⟩, hself, hframe', rfl⟩
  by_cases ht : t = s
  · subst ht
    obtain ⟨o, k, rfl⟩ := hx y (hself.symm.trans hy)
    exact exists_ofShared_eq o k
  · exact hp.slot t y ((hframe' t ht).symm.trans hy)

theorem wrap_spec (hp : p.Sound) (o : Shared) : Ensures (wrap o) p fun s p' =>
    p.slot? s = none ∧ Updated p s (some (.ofShared o 1)) p' := by
  obtain ⟨slots, hadd, ha⟩ := Table.add_spec hp.wellFormed (Slot.ofShared o 1)
  have hupd := updated (s := ⟨p.slots.nextIndex⟩) hp (ha.wellFormed hp.wellFormed) ha.value?_self
    (fun j hj => ha.value?_of_ne hj) (fun y hy => ⟨o, 1, (Option.some.inj hy).symm⟩)
    fun h => ⟨ha.counted h.slots, by
      show p.wrapped + 1 = _
      rw [h.wrapped, ha.live]
      exact Nat.add_right_comm ..⟩
  exact ⟨⟨p.slots.nextIndex⟩, _, bind_ok (onSlots_ok hadd) _, ha.vacant, hupd⟩

theorem clone_spec (hp : p.Sound) (hs : p.slot? s = some (.ofShared o k)) :
    Ensures (clone s) p fun s' p' => s' = s ∧ Updated p s (some (.ofShared o (k + 1))) p' := by
  obtain ⟨slots, hmod, hc, hwf, hlive⟩ := Table.modify_spec hp.wellFormed
    (fun slot : Slot => { slot with refs := slot.refs + 1 }) hs
  have hself : slots.value? s.slot = some (.ofShared o (k + 1)) := by
    unfold Slot.ofShared at hc ⊢
    rw [UInt32.ofNat_add]
    exact hc.value?
  have hupd := updated hp hwf hself hc.frame
    (fun y hy => ⟨o, k + 1, (Option.some.inj hy).symm⟩) fun h =>
      ⟨h.slots.of_modify hmod, h.wrapped.trans (by rw [hlive]; rfl)⟩
  refine ⟨s, _, ?_, rfl, hupd⟩
  unfold clone
  rw [bind_ok (onSlots_ok hmod)]
  rfl

theorem read_refs (hs : p.slot? s = some (.ofShared o k)) :
    Action.reading (fun p : Pool => (p.slots.get s.slot).map (·.refs)) p = .ok (.ofNat k) p := by
  refine reading_ok ?_
  rw [Table.get_of_value? hs]
  rfl

/-- A reference that is counted is given back. -/
theorem release_spec (hp : p.Sound) (hs : p.slot? s = some (.ofShared o (k + 1)))
    (hk : k + 1 < 2 ^ 32) : Ensures (release s) p fun last p' => last = decide (k = 0) ∧
      Updated p s (if k = 0 then none else some (.ofShared o k)) p' := by
  have hrefs : (UInt32.ofNat (k + 1)).toNat = k + 1 := UInt32.toNat_ofNat_of_lt' hk
  unfold release
  refine .of_ok (read_refs hs) ?_
  rw [if_neg fun hzero => by rw [hzero] at hrefs; cases hrefs]
  cases k with
  | zero =>
    obtain ⟨slots, htake, hc, hwf, hlive⟩ := Table.take_spec hp.wellFormed hs
    have hupd := updated hp hwf hc.value? hc.frame (fun y hy => by cases hy) fun h =>
      ⟨h.slots.of_take hp.wellFormed htake, show p.wrapped = slots.live + (p.freed + 1) by
        have hwrapped : p.wrapped = p.slots.live + p.freed := h.wrapped
        have hpos := h.slots.live_pos hp.wellFormed hs
        omega⟩
    refine ⟨true, _, ?_, rfl, hupd⟩
    rw [if_neg (show ¬1 < UInt32.ofNat (0 + 1) from UInt32.lt_irrefl 1)]
    show (onSlots (Table.take s.slot) >>= _) p = _
    rw [bind_ok (onSlots_ok htake), bind_ok (modify_apply _ _)]
    rfl
  | succ k =>
    obtain ⟨slots, hmod, hc, hwf, hlive⟩ := Table.modify_spec hp.wellFormed
      (fun slot : Slot => { slot with refs := slot.refs - 1 }) hs
    have hself : slots.value? s.slot = some (.ofShared o (k + 1)) := by
      have hless : UInt32.ofNat (k + 1 + 1) - 1 = .ofNat (k + 1) := by
        rw [UInt32.ofNat_add (k + 1) 1]
        exact UInt32.add_sub_cancel _ 1
      unfold Slot.ofShared at hc ⊢
      rw [← hless]
      exact hc.value?
    have hupd := updated hp hwf hself hc.frame
      (fun y hy => ⟨o, k + 1, (Option.some.inj hy).symm⟩) fun h =>
        ⟨h.slots.of_modify hmod, h.wrapped.trans (by rw [hlive]; rfl)⟩
    refine ⟨false, _, ?_, by simp, hupd⟩
    rw [if_pos (UInt32.lt_iff_toNat_lt.2 (by rw [hrefs]; exact Nat.le_add_left 2 k))]
    show (onSlots (Table.modify s.slot _) >>= _) p = _
    rw [bind_ok (onSlots_ok hmod)]
    rfl

/-- Where the counter has started over, no reference can be given back. -/
theorem release_over (hs : p.slot? s = some (.ofShared o 0)) :
    release s p = .error (.overReleased s.slot) p := (bind_ok (read_refs hs) _).trans rfl

/-! ## Reading -/

theorem get_eq (hs : p.slot? s = some (.ofShared o k)) : p.get s = .ok o := by
  unfold get
  rw [Table.get_of_value? hs]
  rfl

theorem hash_eq (hs : p.slot? s = some (.ofShared o k)) : p.hash s = .ok o.state.hash := by
  unfold hash
  rw [Table.get_of_value? hs]
  rfl

theorem refCount_eq (hs : p.slot? s = some (.ofShared o k)) (hk : k < 2 ^ 32) :
    p.refCount s = .ok k := by
  unfold refCount
  rw [Table.get_of_value? hs]
  exact congrArg Except.ok (Slot.refs_ofShared hk)

theorem Has.get_eq (h : p.Has s o) : p.get s = .ok o := by
  obtain ⟨k, hk⟩ := h
  exact Pool.get_eq hk

theorem Has.hash_eq (h : p.Has s o) : p.hash s = .ok o.state.hash := by
  obtain ⟨k, hk⟩ := h
  exact Pool.hash_eq hk

/-- The updated slot has the new object and no other. -/
theorem Updated.eq_of_has (hp : Updated p s (some (.ofShared o k)) p') (h : p'.Has s o') :
    o' = o := by
  obtain ⟨k', hk'⟩ := h
  rw [hp.self] at hk'
  have := congrArg Slot.state (Option.some.inj hk')
  exact (Option.some.inj this).symm

theorem Has.unique (h : p.Has s o) (h' : p.Has s o') : o = o' := by
  have := h'.get_eq
  rw [h.get_eq, Except.ok.injEq] at this
  exact this

theorem isLive_eq (p : Pool) (s : Handle) : p.isLive s = (p.slot? s).isSome := by
  unfold isLive slot? Table.occupied Table.value?
  by_cases h0 : s.slot = 0
  · rw [if_pos h0, if_pos h0]
    rfl
  · rw [if_neg h0, if_neg h0]
    cases p.slots.cells[s.slot]? with
    | none => rfl
    | some c =>
      obtain ⟨x, j, occupied⟩ := c
      cases occupied <;> rfl

/-- A live handle has an object, and its slot counts what a word can hold. -/
theorem Sound.slot_of_live (hp : p.Sound) (h : p.isLive s = true) :
    ∃ o k, k < 2 ^ 32 ∧ p.slot? s = some (.ofShared o k) := by
  rw [isLive_eq, Option.isSome_iff_exists] at h
  obtain ⟨x, hx⟩ := h
  obtain ⟨o, k, hk, rfl⟩ := hp.slot s x hx
  exact ⟨o, k, hk, hx⟩

/-- Every slot in use has references. -/
def Referenced (p : Pool) : Prop := ∀ s o, p.slot? s ≠ some (.ofShared o 0)

theorem Referenced.exists_slot (h : p.Referenced) (hp : p.Sound) (hs : p.slot? s ≠ none) :
    ∃ o k, k + 1 < 2 ^ 32 ∧ p.slot? s = some (.ofShared o (k + 1)) := by
  obtain ⟨x, hx⟩ := Option.ne_none_iff_exists'.1 hs
  obtain ⟨o, k, hk, rfl⟩ := hp.slot s x hx
  cases k with
  | zero => exact absurd hx (h s o)
  | succ k => exact ⟨o, k, hk, hx⟩

theorem Sound.has_of_get (hp : p.Sound) (h : p.get s = .ok o) : p.Has s o := by
  obtain ⟨x, hx, -⟩ := except_bind_eq_ok.1 h
  obtain ⟨o', k, -, rfl⟩ := hp.slot s x (Table.get_eq_ok_iff.1 hx)
  have hs : p.Has s o' := ⟨k, Table.get_eq_ok_iff.1 hx⟩
  rw [hs.get_eq, Except.ok.injEq] at h
  exact h ▸ hs

theorem Has.isLive (h : p.Has s o) : p.isLive s = true := by
  obtain ⟨k, hk⟩ := h
  rw [isLive_eq, hk]
  rfl

/-! ## Operations that did not fault -/

theorem Sound.of_clone (hp : p.Sound) (h : clone s p = .ok t p') :
    ∃ o, p.Has s o ∧ ∃ k, Updated p s (some (.ofShared o k)) p' := by
  obtain ⟨_, _, hmod, -⟩ := estate_bind_eq_ok.1 h
  cases hget : p.slots.get s.slot with
  | error e => simp only [onSlots, Table.modify, hget] at hmod; cases hmod
  | ok x =>
    obtain ⟨o, k, -, rfl⟩ := hp.slot s x (Table.get_eq_ok_iff.1 hget)
    have hs : p.slot? s = some (.ofShared o k) := Table.get_eq_ok_iff.1 hget
    obtain ⟨_, _, hrun, -, hupd⟩ := clone_spec hp hs
    cases h.symm.trans hrun
    exact ⟨o, ⟨k, hs⟩, _, hupd⟩

theorem Sound.of_release {last : Bool} (hp : p.Sound) (h : release s p = .ok last p') :
    ∃ o, p.Has s o ∧ (Updated p s none p' ∨ ∃ k, Updated p s (some (.ofShared o k)) p') := by
  obtain ⟨_, _, hread, -⟩ := estate_bind_eq_ok.1 h
  cases hget : p.slots.get s.slot with
  | error e => simp only [Action.reading, hget] at hread; cases hread
  | ok x =>
    obtain ⟨o, k, hk, rfl⟩ := hp.slot s x (Table.get_eq_ok_iff.1 hget)
    have hs : p.slot? s = some (.ofShared o k) := Table.get_eq_ok_iff.1 hget
    refine ⟨o, ⟨k, hs⟩, ?_⟩
    cases k with
    | zero => cases h.symm.trans (release_over hs)
    | succ k =>
      obtain ⟨_, _, hrun, -, hupd⟩ := release_spec hp hs hk
      cases h.symm.trans hrun
      by_cases hzero : k = 0
      · rw [if_pos hzero] at hupd
        exact .inl hupd
      · rw [if_neg hzero] at hupd
        exact .inr ⟨k, hupd⟩

/-! ## The number of a pool -/

section Number

variable {α : Type} {n : Nat}

theorem keeps_id_onSlots (x : Action (Table Slot) α) : Keeps (·.id = n) (onSlots x) := by
  intro p hp
  cases hx : x p.slots with
  | ok a slots => rwa [after_ok (onSlots_ok hx)]
  | error e slots => rwa [after_error (onSlots_error hx)]

theorem keeps_id_wrap (o : Shared) : Keeps (·.id = n) (wrap o) :=
  keeps_bind (keeps_id_onSlots _) fun _ => keeps_bind (keeps_modify fun _ hp => hp) fun _ =>
    keeps_pure _

theorem keeps_id_clone (s : Handle) : Keeps (·.id = n) (clone s) :=
  keeps_bind (keeps_id_onSlots _) fun _ => keeps_pure _

theorem keeps_id_release (s : Handle) : Keeps (·.id = n) (release s) := by
  refine keeps_bind (keeps_reading _) fun refs => ?_
  have hgive : Keeps (·.id = n) (if 1 < refs then do
        onSlots (Table.modify s.slot fun slot => { slot with refs := slot.refs - 1 })
        pure false
      else do
        let _ ← onSlots (Table.take s.slot)
        modify fun p => { p with freed := p.freed + 1 }
        pure true) := by
    split
    · exact keeps_bind (keeps_id_onSlots _) fun _ => keeps_pure _
    · exact keeps_bind (keeps_id_onSlots _) fun _ => keeps_bind (keeps_modify fun _ hp => hp) fun _ =>
        keeps_pure _
  dsimp only
  split
  · exact keeps_bind (keeps_throw _) fun _ => hgive
  · exact hgive

end Number

/-! ## Pools in order -/

/-- The action leaves a sound pool with right counters sound, with right counters and its number,
whether it faults or not. -/
def Orderly {α : Type} (x : Action Pool α) : Prop :=
  ∀ n, Keeps (fun p => p.Sound ∧ p.Counted ∧ p.id = n) x

theorem Updated.orderly {x : Option Slot} {n : Nat} (hu : Updated p s x p')
    (h : p.Sound ∧ p.Counted ∧ p.id = n) : p'.Sound ∧ p'.Counted ∧ p'.id = n :=
  ⟨hu.sound, hu.counted h.2.1, hu.id.trans h.2.2⟩

theorem orderly_wrap (o : Shared) : Orderly (wrap o) := by
  intro n p h
  obtain ⟨s, p', hrun, -, hupd⟩ := wrap_spec h.1 o
  rw [after_ok hrun]
  exact hupd.orderly h

/-- A slot that is vacant is not read. -/
theorem get_of_vacant (hs : p.slot? s = none) : ∃ e, p.slots.get s.slot = .error e := by
  cases hget : p.slots.get s.slot with
  | error e => exact ⟨e, rfl⟩
  | ok x => cases hs.symm.trans (Table.get_eq_ok_iff.1 hget)

theorem orderly_clone (s : Handle) : Orderly (clone s) := by
  intro n p h
  cases hs : p.slot? s with
  | none =>
    obtain ⟨e, he⟩ := get_of_vacant hs
    have hmod : ∀ f, Table.modify s.slot f p.slots = .error e p.slots := fun f => by
      simp only [Table.modify, he]
    have hrun : clone s p = .error e p := bind_error (onSlots_error (hmod _)) _
    rwa [after_error hrun]
  | some x =>
    obtain ⟨o, k, -, rfl⟩ := h.1.slot s x hs
    obtain ⟨t, p', hrun, -, hupd⟩ := clone_spec h.1 hs
    rw [after_ok hrun]
    exact hupd.orderly h

theorem orderly_release (s : Handle) : Orderly (release s) := by
  intro n p h
  cases hs : p.slot? s with
  | none =>
    obtain ⟨e, he⟩ := get_of_vacant hs
    have hread : Action.reading (fun p : Pool => (p.slots.get s.slot).map (·.refs)) p = .error e p := by
      simp only [Action.reading, he, Except.map]
    have hrun : release s p = .error e p := bind_error hread _
    rwa [after_error hrun]
  | some x =>
    obtain ⟨o, k, hk, rfl⟩ := h.1.slot s x hs
    cases k with
    | zero => rwa [after_error (release_over hs)]
    | succ k =>
      obtain ⟨last, p', hrun, -, hupd⟩ := release_spec h.1 hs hk
      rw [after_ok hrun]
      exact hupd.orderly h

/-! ## Comparing -/

/-- Where two states differ exactly if they are not the same, their handles compare as equal exactly if
they are, whatever the hashes are. -/
theorem compare_eq_iff {b : Bool} (h : p.Has s o) (h' : p.Has t o')
    (hd : o.state.differs o'.state = .ok b) (hb : b = false ↔ o.state = o'.state) :
    ∃ r, p.compare s t = .ok r ∧ (r = .eq ↔ o.state = o'.state) := by
  unfold compare
  by_cases hst : s = t
  · subst hst
    have := h.unique h'
    subst this
    exact ⟨.eq, if_pos rfl, iff_of_true rfl rfl⟩
  · rw [if_neg hst, h.hash_eq, h'.hash_eq]
    show ∃ r, (if o.state.hash < o'.state.hash then _ else _) = _ ∧ _
    have hne : o.state.hash ≠ o'.state.hash → o.state ≠ o'.state :=
      fun hne heq => hne (congrArg EngineState.hash heq)
    by_cases hlt : o.state.hash < o'.state.hash
    · refine ⟨.lt, if_pos hlt, ?_⟩
      have := hne (UInt64.ne_of_lt hlt)
      simpa using this
    rw [if_neg hlt]
    by_cases hgt : o'.state.hash < o.state.hash
    · refine ⟨.gt, if_pos hgt, ?_⟩
      have := hne (UInt64.ne_of_lt hgt).symm
      simpa using this
    rw [if_neg hgt, h.get_eq, h'.get_eq]
    show ∃ r, (o.state.differs o'.state >>= _) = _ ∧ _
    rw [hd]
    cases b with
    | false => exact ⟨.eq, rfl, iff_of_true rfl (hb.1 rfl)⟩
    | true => exact ⟨.gt, rfl, iff_of_false (by decide) fun heq => by cases hb.2 heq⟩

end Pool

end StateSpace
