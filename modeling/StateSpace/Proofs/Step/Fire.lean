import StateSpace.Proofs.Network.Valid

/-!
# Taking edges together

What it means to take edges together, said without the algorithm: the guards hold before, the updates
are made one after the other (`Assigns`), each edge moves its own process (`Moves`), and the
invariants hold after. `fire` answers with a configuration exactly if it is reached so.

Firing never faults on a configuration with the shape of a valid network, whatever the values are.
Values within their domains stay there, because only such values are assigned.
-/

namespace StateSpace

variable {row row' : List Int32} {e : Expr}

/-! ## Guards -/

namespace Expr

theorem allows_eq_true_iff : e.allows row = .ok true ↔ e.holds row = .ok true := by
  unfold allows
  cases e.holds row with
  | ok b => simp
  | error err => cases err <;> simp

theorem value?_eq_some_iff {v : Int64} : e.value? row = .ok (some v) ↔ e.eval row = .ok v := by
  unfold value?
  cases e.eval row with
  | ok b => simp
  | error err => cases err <;> simp

theorem allAllow_eq_true_iff {es : List Expr} :
    allAllow row es = .ok true ↔ ∀ e ∈ es, e.holds row = .ok true := by
  induction es with
  | nil => simp [allAllow]
  | cons e es ih =>
    rw [allAllow, except_bind_eq_ok, List.forall_mem_cons]
    constructor
    · rintro ⟨b, hb, h⟩
      cases b with
      | false => cases h
      | true => exact ⟨allows_eq_true_iff.1 hb, ih.1 h⟩
    · intro h
      exact ⟨true, allows_eq_true_iff.2 h.1, ih.2 h.2⟩

end Expr

namespace Network

variable {n : Network} {c c' : Configuration} {ls ls' : List Nat} {es : List Edge} {p l i : Nat}

/-! ## Shapes -/

/-- A location for each process, each of that process. -/
structure IsVector (n : Network) (ls : List Nat) : Prop where
  length : ls.length = n.processes.size
  location : ∀ (p l : Nat), ls[p]? = some l → n.belongs p l = true

/-- A value for each variable, each in its domain. -/
structure IsRow (n : Network) (row : List Int32) : Prop where
  length : row.length = n.ints.size
  value : ∀ (i : Nat) (v : Int32), row[i]? = some v →
    ∃ d, n.domains[i]? = some d ∧ d.contains v.toInt64 = true

/-- A location of each process, and a value for each variable. -/
structure HasShape (n : Network) (c : Configuration) : Prop where
  locations : n.IsVector c.locations
  ints : c.ints.length = n.ints.size

/-- The network admits the configuration. -/
structure Admits (n : Network) (c : Configuration) : Prop where
  locations : n.IsVector c.locations
  ints : n.IsRow c.ints

/-- The edge is declared. -/
def HasEdge (n : Network) (e : Edge) : Prop := ∃ i : Nat, n.edges[i]? = some e

theorem Admits.hasShape (h : n.Admits c) : n.HasShape c := ⟨h.locations, h.ints.length⟩

theorem IsVector.exists_location (h : n.IsVector ls) (hl : l ∈ ls) :
    ∃ loc, n.locations[l]? = some loc := by
  obtain ⟨p, hp, rfl⟩ := List.mem_iff_getElem.1 hl
  obtain ⟨loc, hloc, -⟩ := belongs_iff.1 (h.location p _ (List.getElem?_eq_getElem hp))
  exact ⟨loc, hloc⟩

theorem Valid.process_lt (hv : n.Valid) (h : n.belongs p l = true) : p < n.processes.size := by
  obtain ⟨loc, hloc, rfl⟩ := belongs_iff.1 h
  exact (hv.location l loc hloc).process

theorem within_of_length (h : row.length = n.ints.size) {e : Expr} (he : n.InScope e) :
    e.Within row.length n.clocks.size := by
  rw [h]
  exact he

/-! ## Updates -/

/-- The assignments lead from values to values, each reading what the ones before it left. Clocks have
no values. -/
inductive Assigns (n : Network) : List Int32 → List Update → List Int32 → Prop
  | nil (row : List Int32) : Assigns n row [] row
  | clock {row row' : List Int32} {us : List Update} (id : Nat) (e : Expr)
      (h : Assigns n row us row') : Assigns n row (.clock id e :: us) row'
  | int {row row' : List Int32} {us : List Update} {id : Nat} {e : Expr} {v : Int64} {d : Domain}
      (he : e.eval row = .ok v) (hd : n.domains[id]? = some d) (hin : d.contains v = true)
      (hid : id < row.length) (h : Assigns n (row.set id v.toInt32) us row') :
      Assigns n row (.int id e :: us) row'

theorem update_int_eq_some_iff {id : Nat} {e : Expr} :
    n.update row (.int id e) = .ok (some row') ↔ ∃ v d, e.eval row = .ok v ∧
      n.domains[id]? = some d ∧ d.contains v = true ∧ id < row.length ∧ row' = row.set id v.toInt32 := by
  rw [update, except_bind_eq_ok]
  constructor
  · rintro ⟨v?, hv, h⟩
    cases v? with
    | none => cases h
    | some v =>
      cases hd : n.domains[id]? with
      | none => simp [hd] at h
      | some d =>
        simp only [hd] at h
        split at h
        · cases h
        · rename_i hin
          split at h
          · rename_i hid
            cases h
            exact ⟨v, d, Expr.value?_eq_some_iff.1 hv, rfl, by simpa using hin, hid, rfl⟩
          · cases h
  · rintro ⟨v, d, hv, hd, hin, hid, rfl⟩
    refine ⟨some v, Expr.value?_eq_some_iff.2 hv, ?_⟩
    simp [hd, hin, hid]

theorem updateAll_eq_some_iff {us : List Update} :
    n.updateAll row us = .ok (some row') ↔ n.Assigns row us row' := by
  induction us generalizing row with
  | nil =>
    constructor
    · intro h
      cases h
      exact .nil _
    · intro h
      cases h with
      | nil => rfl
  | cons u us ih =>
    rw [updateAll, except_bind_eq_ok]
    constructor
    · rintro ⟨r, hr, h⟩
      cases r with
      | none => cases h
      | some row₁ =>
        cases u with
        | clock id e =>
          cases hr
          exact .clock id e (ih.1 h)
        | int id e =>
          obtain ⟨v, d, he, hd, hin, hid, rfl⟩ := update_int_eq_some_iff.1 hr
          exact .int he hd hin hid (ih.1 h)
    · intro h
      cases h with
      | clock id e h => exact ⟨some row, rfl, ih.2 h⟩
      | int he hd hin hid h =>
        exact ⟨_, update_int_eq_some_iff.2 ⟨_, _, he, hd, hin, hid, rfl⟩, ih.2 h⟩

theorem Assigns.length {us : List Update} (h : n.Assigns row us row') : row'.length = row.length := by
  induction h with
  | nil _ => rfl
  | clock _ _ _ ih => exact ih
  | int _ _ _ _ _ ih => rw [ih, List.length_set]

/-- A value in a domain fits the 32 bits of the domain's bounds. -/
theorem toInt64_toInt32 {d : Domain} {v : Int64} (h : d.contains v = true) :
    v.toInt32.toInt64 = v := by
  unfold Domain.contains at h
  rw [Bool.and_eq_true, decide_eq_true_iff, decide_eq_true_iff, Int64.le_iff_toInt_le,
    Int64.le_iff_toInt_le, Int32.toInt_toInt64, Int32.toInt_toInt64] at h
  have h₁ := Int32.le_toInt d.min
  have h₂ := Int32.toInt_lt d.max
  rw [← Int64.toInt_inj, Int32.toInt_toInt64, Int64.toInt_toInt32]
  rw [Int.bmod_eq_of_le] <;> omega

theorem IsRow.set {d : Domain} {v : Int64} (h : n.IsRow row) (hd : n.domains[i]? = some d)
    (hc : d.contains v = true) : n.IsRow (row.set i v.toInt32) where
  length := by rw [List.length_set, h.length]
  value j w hj := by
    rw [List.getElem?_set] at hj
    split at hj
    · rename_i hij
      subst hij
      split at hj
      · cases hj
        exact ⟨d, hd, by rwa [toInt64_toInt32 hc]⟩
      · cases hj
    · exact h.value j w hj

/-- Assignments keep every value within its domain. -/
theorem Assigns.isRow {us : List Update} (h : n.Assigns row us row') (hrow : n.IsRow row) :
    n.IsRow row' := by
  induction h with
  | nil _ => exact hrow
  | clock _ _ _ ih => exact ih hrow
  | int _ hd hin _ _ ih => exact ih (hrow.set hd hin)

theorem exists_updateAll (hv : n.Valid) (hlen : row.length = n.ints.size) {us : List Update}
    (hu : ∀ u ∈ us, u.Within n.ints.size n.clocks.size) : ∃ r, n.updateAll row us = .ok r := by
  induction us generalizing row with
  | nil => exact ⟨some row, rfl⟩
  | cons u us ih =>
    obtain ⟨huw, hus⟩ := List.forall_mem_cons.1 hu
    cases u with
    | clock id e =>
      obtain ⟨r, hr⟩ := ih hlen hus
      exact ⟨r, hr⟩
    | int id e =>
      have hid : id < row.length := by
        rw [hlen]
        exact huw.1
      obtain ⟨d, hd⟩ : ∃ d, n.domains[id]? = some d := by
        refine ⟨_, Array.getElem?_eq_getElem ?_⟩
        rw [hv.domains_size]
        exact huw.1
      obtain ⟨v, hval⟩ := Expr.exists_value? (within_of_length hlen huw.2)
      simp only [updateAll, update, hval, bind, Except.bind]
      cases v with
      | none => exact ⟨none, rfl⟩
      | some v =>
        simp only [hd]
        cases d.contains v with
        | false => exact ⟨none, rfl⟩
        | true =>
          simp only [Bool.not_true, Bool.false_eq_true, if_false, if_pos hid]
          apply ih _ hus
          rw [List.length_set, hlen]

/-! ## Moves -/

/-- Each edge moves its process; all other processes stay where they are. -/
structure Moves (es : List Edge) (ls ls' : List Nat) : Prop where
  length : ls'.length = ls.length
  moved : ∀ e ∈ es, ls'[e.process]? = some e.target
  stays : ∀ p, (∀ e ∈ es, e.process ≠ p) → ls'[p]? = ls[p]?

theorem Moves.unique {ls₁ ls₂ : List Nat} (h₁ : Moves es ls ls₁) (h₂ : Moves es ls ls₂) : ls₁ = ls₂ := by
  apply List.ext_getElem?
  intro p
  by_cases hp : ∃ e ∈ es, e.process = p
  · obtain ⟨e, he, rfl⟩ := hp
    rw [h₁.moved e he, h₂.moved e he]
  · have hno : ∀ e ∈ es, e.process ≠ p := fun e he heq => hp ⟨e, he, heq⟩
    rw [h₁.stays p hno, h₂.stays p hno]

theorem exists_moveAll (h : ∀ e ∈ es, e.process < ls.length) : ∃ ls', moveAll ls es = .ok ls' := by
  induction es generalizing ls with
  | nil => exact ⟨ls, rfl⟩
  | cons e es ih =>
    obtain ⟨he, h⟩ := List.forall_mem_cons.1 h
    rw [moveAll, if_pos he]
    apply ih
    intro e' he'
    rw [List.length_set]
    exact h e' he'

/-- Processes are moved one after the other, so no process may be moved twice. -/
theorem moves_of_moveAll (hd : (es.map (·.process)).Nodup) (h : moveAll ls es = .ok ls') :
    Moves es ls ls' := by
  induction es generalizing ls with
  | nil =>
    cases h
    exact ⟨rfl, by simp, fun _ _ => rfl⟩
  | cons e es ih =>
    obtain ⟨hnot, hd⟩ := List.nodup_cons.1 hd
    rw [moveAll] at h
    split at h
    · rename_i hlt
      have hm := ih hd h
      refine ⟨by rw [hm.length, List.length_set], List.forall_mem_cons.2 ⟨?_, hm.moved⟩, fun p hp => ?_⟩
      · have hrest : ∀ e' ∈ es, e'.process ≠ e.process :=
          fun e' he' heq => hnot (List.mem_map.2 ⟨e', he', heq⟩)
        rw [hm.stays _ hrest, List.getElem?_set_self hlt]
      · obtain ⟨hne, hp⟩ := List.forall_mem_cons.1 hp
        rw [hm.stays p hp, List.getElem?_set_ne hne]
    · cases h

theorem moveAll_eq_ok_iff (hd : (es.map (·.process)).Nodup) :
    moveAll ls es = .ok ls' ↔ Moves es ls ls' := by
  refine ⟨moves_of_moveAll hd, fun h => ?_⟩
  have hlt : ∀ e ∈ es, e.process < ls.length := by
    intro e he
    rw [← h.length]
    exact (List.getElem?_eq_some_iff.1 (h.moved e he)).1
  obtain ⟨ls₁, hrun⟩ := exists_moveAll hlt
  rw [hrun, (moves_of_moveAll hd hrun).unique h]

theorem moveAll_isVector (hv : n.Valid) (hls : n.IsVector ls) (he : ∀ e ∈ es, n.HasEdge e)
    (h : moveAll ls es = .ok ls') : n.IsVector ls' := by
  induction es generalizing ls with
  | nil =>
    cases h
    exact hls
  | cons e es ih =>
    obtain ⟨⟨j, hj⟩, he⟩ := List.forall_mem_cons.1 he
    rw [moveAll] at h
    split at h
    · refine ih ⟨by rw [List.length_set, hls.length], fun p l hp => ?_⟩ he h
      rw [List.getElem?_set] at hp
      split at hp
      · rename_i hpe
        subst hpe
        cases hp
        exact (hv.edge j e hj).target
      · exact hls.location p l hp
    · cases h

/-! ## Invariants -/

/-- The invariants of the locations hold on the values. -/
def Endures (n : Network) (row : List Int32) (ls : List Nat) : Prop :=
  ∀ l ∈ ls, ∃ loc, n.locations[l]? = some loc ∧ loc.invariant.holds row = .ok true

theorem invariantsHold_eq_true_iff : n.invariantsHold row ls = .ok true ↔ n.Endures row ls := by
  unfold Endures
  induction ls with
  | nil => simp [invariantsHold]
  | cons l ls ih =>
    rw [invariantsHold, List.forall_mem_cons]
    cases hloc : n.locations[l]? with
    | none => simp
    | some loc =>
      simp only [Option.some.injEq, exists_eq_left', except_bind_eq_ok, ← ih]
      constructor
      · rintro ⟨b, hb, h⟩
        cases b with
        | false => cases h
        | true => exact ⟨Expr.allows_eq_true_iff.1 hb, h⟩
      · intro h
        exact ⟨true, Expr.allows_eq_true_iff.2 h.1, h.2⟩

theorem exists_invariantsHold (hv : n.Valid) (hlen : row.length = n.ints.size)
    (hls : ∀ l ∈ ls, ∃ loc, n.locations[l]? = some loc) : ∃ b, n.invariantsHold row ls = .ok b := by
  induction ls with
  | nil => exact ⟨true, rfl⟩
  | cons l ls ih =>
    obtain ⟨⟨loc, hloc⟩, hls⟩ := List.forall_mem_cons.1 hls
    obtain ⟨b, hb⟩ := Expr.exists_allows (within_of_length hlen (hv.invariant l loc hloc))
    obtain ⟨b', hb'⟩ := ih hls
    simp only [invariantsHold, hloc, hb]
    cases b with
    | false => exact ⟨false, rfl⟩
    | true => exact ⟨b', hb'⟩

/-! ## Firing -/

theorem fire_eq_some_iff : n.fire c es = .ok (some c') ↔
    (∀ e ∈ es, e.guard.holds c.ints = .ok true) ∧
      n.Assigns c.ints (es.flatMap (·.updates)) c'.ints ∧
      moveAll c.locations es = .ok c'.locations ∧ n.Endures c'.ints c'.locations := by
  have hguards : (∀ e ∈ es, e.guard.holds c.ints = .ok true) ↔
      Expr.allAllow c.ints (es.map (·.guard)) = .ok true := by
    rw [Expr.allAllow_eq_true_iff, List.forall_mem_map]
  rw [hguards, ← updateAll_eq_some_iff, ← invariantsHold_eq_true_iff, fire, except_bind_eq_ok]
  constructor
  · rintro ⟨b, hb, h⟩
    cases b with
    | false => cases h
    | true =>
      obtain ⟨r, hr, h⟩ := except_bind_eq_ok.1 h
      cases r with
      | none => cases h
      | some row =>
        obtain ⟨ls, hls, h⟩ := except_bind_eq_ok.1 h
        obtain ⟨b', hb', h⟩ := except_bind_eq_ok.1 h
        cases b' with
        | false => cases h
        | true =>
          cases h
          exact ⟨hb, hr, hls, hb'⟩
  · rintro ⟨hb, hr, hls, hb'⟩
    refine ⟨true, hb, except_bind_eq_ok.2 ⟨_, hr, except_bind_eq_ok.2 ⟨_, hls, ?_⟩⟩⟩
    exact except_bind_eq_ok.2 ⟨true, hb', rfl⟩

/-- Taking declared edges together never faults on a configuration of the right shape. -/
theorem exists_fire (hv : n.Valid) (hc : n.HasShape c) (he : ∀ e ∈ es, n.HasEdge e) :
    ∃ r, n.fire c es = .ok r := by
  have hguards : ∀ g ∈ es.map (·.guard), g.Within c.ints.length n.clocks.size := by
    intro g hg
    obtain ⟨e, hes, rfl⟩ := List.mem_map.1 hg
    obtain ⟨j, hj⟩ := he e hes
    exact within_of_length hc.ints (hv.edgeInScope j e hj).1
  have hupdates : ∀ u ∈ es.flatMap (·.updates), u.Within n.ints.size n.clocks.size := by
    intro u hu
    obtain ⟨e, hes, hu⟩ := List.mem_flatMap.1 hu
    obtain ⟨j, hj⟩ := he e hes
    exact (hv.edgeInScope j e hj).2 u hu
  have hprocesses : ∀ e ∈ es, e.process < c.locations.length := by
    intro e hes
    obtain ⟨j, hj⟩ := he e hes
    rw [hc.locations.length]
    exact hv.process_lt (hv.edge j e hj).target
  obtain ⟨b, hb⟩ := Expr.exists_allAllow hguards
  obtain ⟨r, hr⟩ := exists_updateAll hv hc.ints hupdates
  obtain ⟨ls, hls⟩ := exists_moveAll hprocesses
  simp only [fire, hb, hr, bind, Except.bind]
  cases b with
  | false => exact ⟨none, rfl⟩
  | true =>
    cases r with
    | none => exact ⟨none, rfl⟩
    | some row =>
      have hlen : row.length = n.ints.size := by
        rw [(updateAll_eq_some_iff.1 hr).length, hc.ints]
      obtain ⟨b', hb'⟩ := exists_invariantsHold hv hlen fun l hl =>
        (moveAll_isVector hv hc.locations he hls).exists_location hl
      simp only [hls, hb']
      cases b' with
      | false => exact ⟨none, rfl⟩
      | true => exact ⟨some ⟨ls, row⟩, rfl⟩

/-- From an admitted configuration, taking declared edges together leads to an admitted one. -/
theorem admits_of_fire (hv : n.Valid) (hc : n.Admits c) (he : ∀ e ∈ es, n.HasEdge e)
    (h : n.fire c es = .ok (some c')) : n.Admits c' := by
  obtain ⟨-, hassigns, hmoves, -⟩ := fire_eq_some_iff.1 h
  exact ⟨moveAll_isVector hv hc.locations he hmoves, hassigns.isRow hc.ints⟩

end Network

end StateSpace
