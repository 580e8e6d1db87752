import Mathlib.Algebra.Group.Nat.Defs
import Mathlib.Logic.Basic
import Mathlib.Tactic.ByContra
import Mathlib.Tactic.Tauto
import StateSpace.Dictionary

/-!
# Registrations

A registry has a map from names to variables and one from variables to names and parties. In a valid
registry the maps are inverse to each other, every variable in use was issued before, and every name is
held by some party. `Holds` is the view that clients have: each operation changes the parties that hold a
name exactly as asked.

1. What an operation does to the holdings of parties that it is not about is true of any registry.
2. A valid registry stays valid as long as the variable for a new name was not issued before. When all
   variables were issued, a new name gets a variable in use, and the maps are not inverse any more.
-/

namespace StateSpace.Registry

open Std

variable {r r' : Registry} {o o' : Owner} {name name' : String} {v v' : UInt32} {e : Registration}

section

variable {α β : Type} [Ord α] [TransOrd α] [LawfulEqOrd α] [DecidableEq α]

theorem getElem?_insert_eq_ite (m : ExtTreeMap α β) (k : α) (x : β) (k' : α) :
    (m.insert k x)[k']? = if k = k' then some x else m[k']? := by
  simp only [ExtTreeMap.getElem?_insert, Std.compare_eq_iff_eq]

theorem getElem?_erase_eq_ite (m : ExtTreeMap α β) (k k' : α) :
    (m.erase k)[k']? = if k = k' then none else m[k']? := by
  simp only [ExtTreeMap.getElem?_erase, Std.compare_eq_iff_eq]

/-- A key that is added and taken out again. -/
theorem erase_insert_eq_self {m : ExtTreeMap α β} {k : α} {x : β} (h : m[k]? = none) :
    (m.insert k x).erase k = m :=
  ExtTreeMap.ext_getElem? fun k' => by
    rw [getElem?_erase_eq_ite, getElem?_insert_eq_ite]
    split
    · rename_i hk
      rw [← hk, h]
    · rfl

end

/-! ## Holders -/

/-- The party holds the name, whose variable is `v`. -/
def Holds (r : Registry) (o : Owner) (name : String) (v : UInt32) : Prop :=
  ∃ e, r.vars[v]? = some e ∧ e.name = name ∧ o ∈ e.owners

/-- The variables in use, with their names and parties. -/
def entries (r : Registry) : List (UInt32 × String × List Owner) :=
  r.vars.toList.map fun x => (x.1, x.2.name, x.2.owners.toList)

/-- The two maps are inverse to each other, every variable in use is somebody's, and no variable will be
issued again. -/
structure Valid (r : Registry) : Prop where
  inverse : ∀ name v, r.varOf name = some v ↔ r.nameOf v = some name
  held : ∀ (v : UInt32) (e : Registration), r.vars[v]? = some e → ∃ o, o ∈ e.owners
  var_pos : ∀ (v : UInt32) (e : Registration), r.vars[v]? = some e → 0 < v.toNat
  var_lt : ∀ (v : UInt32) (e : Registration), r.vars[v]? = some e → v.toNat < r.nextVar.toNat
  next_pos : 0 < r.nextVar.toNat

theorem vars_empty (v : UInt32) : ({} : Registry).vars[v]? = none := ExtTreeMap.getElem?_empty

theorem not_holds_empty : ¬({} : Registry).Holds o name v := by
  rintro ⟨e, he, -⟩
  cases (vars_empty v).symm.trans he

theorem empty_valid : Valid {} where
  inverse name v := by
    have hnone : ({} : Registry).varOf name = none := ExtTreeMap.getElem?_empty
    rw [hnone, nameOf, vars_empty]
    exact ⟨nofun, nofun⟩
  held v e h := by cases (vars_empty v).symm.trans h
  var_pos v e h := by cases (vars_empty v).symm.trans h
  var_lt v e h := by cases (vars_empty v).symm.trans h
  next_pos := by decide

theorem Holds.nameOf (h : r.Holds o name v) : r.nameOf v = some name := by
  obtain ⟨e, he, hname, -⟩ := h
  exact Option.map_eq_some_iff.2 ⟨e, he, hname⟩

theorem Holds.varOf (hr : r.Valid) (h : r.Holds o name v) : r.varOf name = some v :=
  (hr.inverse name v).2 h.nameOf

/-- A name has one variable. -/
theorem Holds.var_unique (hr : r.Valid) (h : r.Holds o name v) (h' : r.Holds o' name v') : v = v' :=
  Option.some.inj ((h.varOf hr).symm.trans (h'.varOf hr))

/-- A variable has one name. -/
theorem Holds.name_unique (h : r.Holds o name v) (h' : r.Holds o' name' v) : name = name' :=
  Option.some.inj (h.nameOf.symm.trans h'.nameOf)

/-- A variable has a name if somebody holds it. -/
theorem nameOf_eq_some_iff (hr : r.Valid) : r.nameOf v = some name ↔ ∃ o, r.Holds o name v := by
  constructor
  · intro h
    obtain ⟨e, he, hname⟩ := Option.map_eq_some_iff.1 h
    obtain ⟨o, ho⟩ := hr.held v e he
    exact ⟨o, e, he, hname, ho⟩
  · rintro ⟨o, h⟩
    exact h.nameOf

theorem varOf_eq_some_iff (hr : r.Valid) : r.varOf name = some v ↔ ∃ o, r.Holds o name v :=
  (hr.inverse name v).trans (nameOf_eq_some_iff hr)

/-- The variable of a name that is held has a place in the order of the diagram. -/
theorem Holds.var_bounds (hr : r.Valid) (h : r.Holds o name v) :
    0 < v.toNat ∧ v.toNat < 2 ^ 32 - 1 := by
  obtain ⟨e, he, -⟩ := h
  have := hr.var_lt v e he
  have := r.nextVar.toNat_lt
  exact ⟨hr.var_pos v e he, by omega⟩

/-- A party joins those of one variable. -/
theorem vars_join (r : Registry) (v : UInt32) (name : String) (o : Owner) (v' : UInt32) :
    (r.join v name o).vars[v']? = if v = v' then
      some ⟨(r.nameOf v).getD name, (r.vars[v]?.getD { name }).owners.insert o⟩ else r.vars[v']? := by
  unfold join
  dsimp only
  rw [getElem?_insert_eq_ite]
  unfold nameOf
  cases r.vars[v]? <;> rfl

theorem nameOf_join (r : Registry) (v : UInt32) (name : String) (o : Owner) (v' : UInt32) :
    (r.join v name o).nameOf v' =
      if v = v' then some ((r.nameOf v).getD name) else r.nameOf v' := by
  rw [nameOf, vars_join]
  split <;> rfl

theorem mem_owners_getD : o ∈ (r.vars[v]?.getD { name }).owners ↔
    ∃ e, r.vars[v]? = some e ∧ o ∈ e.owners := by
  cases r.vars[v]? with
  | none => simp
  | some e => simp

/-- The party holds the variable besides those who held it, under the name that the variable has. -/
theorem holds_join : (r.join v name o).Holds o' name' v' ↔
    r.Holds o' name' v' ∨ (o' = o ∧ name' = (r.nameOf v).getD name ∧ v' = v) := by
  unfold Holds
  rw [vars_join]
  by_cases hv : v = v'
  · subst hv
    simp only [if_true, Option.some.injEq, exists_eq_left', ExtTreeSet.mem_insert, Std.compare_eq_iff_eq,
      mem_owners_getD]
    unfold nameOf
    cases hvars : r.vars[v]? with
    | none => simp [eq_comm, and_comm]
    | some e =>
      simp only [Option.map_some, Option.getD_some, Option.some.injEq, exists_eq_left']
      constructor
      · rintro ⟨rfl, rfl | ho⟩
        · exact .inr ⟨rfl, rfl, trivial⟩
        · exact .inl ⟨rfl, ho⟩
      · rintro (⟨rfl, ho⟩ | ⟨rfl, rfl, -⟩)
        · exact ⟨rfl, .inr ho⟩
        · exact ⟨rfl, .inl rfl⟩
  · rw [if_neg hv]
    exact (or_iff_left fun h => hv h.2.2.symm).symm

/-- An entry after a party joined is that of its variable, or it was there before. -/
theorem vars_of_join (h : (r.join v name o).vars[v']? = some e) :
    (v' = v ∧ o ∈ e.owners) ∨ r.vars[v']? = some e := by
  rw [vars_join] at h
  split at h
  · rename_i hv
    cases h
    exact .inl ⟨hv.symm, ExtTreeSet.mem_insert_self⟩
  · exact .inr h

/-- What `register` does to a registry. -/
structure Registered (r : Registry) (name : String) (o : Owner) (v : UInt32) (r' : Registry) :
    Prop where
  valid : r'.Valid
  next_le : r'.nextVar.toNat ≤ r.nextVar.toNat + 1
  next_eq : (∃ o' v', r.Holds o' name v') → r'.nextVar = r.nextVar
  holds : ∀ o' name' v', r'.Holds o' name' v' ↔
    r.Holds o' name' v' ∨ (o' = o ∧ name' = name ∧ v' = v)

/-- The registry that issues the next variable to a name. -/
def issue (r : Registry) (name : String) : Registry :=
  { r with byName := r.byName.insert name r.nextVar, nextVar := r.nextVar + 1 }

/-- A name is in use, or it is new. -/
theorem register_cases (r : Registry) (name : String) (o : Owner) :
    (∃ v, r.varOf name = some v ∧ r.register name o = (v, r.join v name o)) ∨
    (r.varOf name = none ∧
      r.register name o = (r.nextVar, (r.issue name).join r.nextVar name o)) := by
  unfold register
  cases hv : r.varOf name with
  | some v => exact .inl ⟨v, rfl, rfl⟩
  | none => exact .inr ⟨rfl, rfl⟩

/-- Registering is of no concern to other parties. -/
theorem holds_register_of_ne (h : o' ≠ o) :
    (r.register name o).2.Holds o' name' v' ↔ r.Holds o' name' v' := by
  rcases r.register_cases name o with ⟨v, -, hreg⟩ | ⟨-, hreg⟩ <;> rw [hreg, holds_join] <;>
    exact or_iff_left fun hself => h hself.1

theorem lastOwner_register (r : Registry) (name : String) (o : Owner) :
    (r.register name o).2.lastOwner = r.lastOwner := by
  rcases r.register_cases name o with ⟨v, -, hreg⟩ | ⟨-, hreg⟩ <;> rw [hreg] <;> rfl

/-- A name that is in use gets no other variable. -/
theorem registered_again (hr : r.Valid) (hv : r.varOf name = some v) (o : Owner) :
    Registered r name o v (r.join v name o) := by
  have hname : r.nameOf v = some name := (hr.inverse name v).1 hv
  obtain ⟨e, he, -⟩ := Option.map_eq_some_iff.1 hname
  refine ⟨⟨fun name' v' => ?_, fun v' e' h' => ?_, fun v' e' h' => ?_, fun v' e' h' => ?_,
    hr.next_pos⟩, Nat.le_succ _, fun _ => rfl, fun o' name' v' => ?_⟩
  · have hsame : (r.join v name o).nameOf v' = r.nameOf v' := by
      rw [nameOf_join, hname]
      split
      · rename_i hvv
        rw [← hvv, hname]
        rfl
      · rfl
    rw [hsame]
    exact hr.inverse name' v'
  · rcases vars_of_join h' with ⟨-, ho⟩ | hold
    · exact ⟨o, ho⟩
    · exact hr.held v' e' hold
  · rcases vars_of_join h' with ⟨rfl, -⟩ | hold
    · exact hr.var_pos v' e he
    · exact hr.var_pos v' e' hold
  · rcases vars_of_join h' with ⟨rfl, -⟩ | hold
    · exact hr.var_lt v' e he
    · exact hr.var_lt v' e' hold
  · rw [holds_join, hname]
    rfl

theorem Valid.vars_nextVar (hr : r.Valid) : r.vars[r.nextVar]? = none := by
  cases h : r.vars[r.nextVar]? with
  | none => rfl
  | some e => exact absurd (hr.var_lt _ e h) (Nat.lt_irrefl _)

/-- A new name gets the next variable. -/
theorem registered_new (hr : r.Valid) (hnew : r.varOf name = none)
    (hroom : r.nextVar.toNat + 1 < 2 ^ 32) (o : Owner) :
    Registered r name o r.nextVar ((r.issue name).join r.nextVar name o) := by
  have hnext : (r.nextVar + 1).toNat = r.nextVar.toNat + 1 := by
    rw [UInt32.toNat_add]
    exact Nat.mod_eq_of_lt hroom
  have hfree : (r.issue name).nameOf r.nextVar = none := by
    show r.nameOf r.nextVar = none
    rw [nameOf, hr.vars_nextVar]
    rfl
  refine ⟨⟨fun name' v' => ?_, fun v' e' h' => ?_, fun v' e' h' => ?_, fun v' e' h' => ?_, ?_⟩,
    Nat.le_of_eq hnext, fun ⟨o', v', h'⟩ => ?_, fun o' name' v' => ?_⟩
  · show (r.byName.insert name r.nextVar)[name']? = some v' ↔ _
    rw [nameOf_join, hfree, getElem?_insert_eq_ite]
    by_cases hname : name = name'
    · subst hname
      rw [if_pos rfl, Option.some.injEq]
      constructor
      · rintro rfl
        exact if_pos rfl
      · intro h'
        by_contra hne
        rw [if_neg hne] at h'
        cases hnew.symm.trans ((hr.inverse name v').2 h')
    · rw [if_neg hname]
      by_cases hv : r.nextVar = v'
      · subst hv
        rw [if_pos rfl]
        refine iff_of_false (fun h' => ?_) fun h' => hname (Option.some.inj h')
        cases hfree.symm.trans ((hr.inverse name' _).1 h')
      · rw [if_neg hv]
        exact hr.inverse name' v'
  · rcases vars_of_join h' with ⟨-, ho⟩ | hold
    · exact ⟨o, ho⟩
    · exact hr.held v' e' hold
  · rcases vars_of_join h' with ⟨rfl, -⟩ | hold
    · exact hr.next_pos
    · exact hr.var_pos v' e' hold
  · show v'.toNat < (r.nextVar + 1).toNat
    rw [hnext]
    rcases vars_of_join h' with ⟨rfl, -⟩ | hold
    · exact Nat.lt_succ_self _
    · exact Nat.lt_succ_of_lt (hr.var_lt v' e' hold)
  · show 0 < (r.nextVar + 1).toNat
    rw [hnext]
    exact Nat.succ_pos _
  · cases hnew.symm.trans (h'.varOf hr)
  · rw [holds_join, hfree]
    rfl

/-- A variable must be left, unless the name has one. -/
theorem register_spec (hr : r.Valid)
    (hroom : (∃ o' v', r.Holds o' name v') ∨ r.nextVar.toNat + 1 < 2 ^ 32) (o : Owner) :
    Registered r name o (r.register name o).1 (r.register name o).2 := by
  rcases r.register_cases name o with ⟨v, hv, hreg⟩ | ⟨hnew, hreg⟩
  · rw [hreg]
    exact registered_again hr hv o
  · rw [hreg]
    refine registered_new hr hnew (hroom.resolve_left ?_) o
    rintro ⟨o', v', h'⟩
    cases hnew.symm.trans (h'.varOf hr)

/-- Registering is in order if the variable that it answers leaves room for another one. -/
theorem registered_of_lt (hr : r.Valid) (hlt : (r.register name o).1.toNat + 1 < 2 ^ 32) :
    Registered r name o (r.register name o).1 (r.register name o).2 := by
  refine register_spec hr ?_ o
  rcases r.register_cases name o with ⟨v, hv, -⟩ | ⟨-, hreg⟩
  · obtain ⟨o', ho'⟩ := (varOf_eq_some_iff hr).1 hv
    exact .inl ⟨o', v, ho'⟩
  · rw [hreg] at hlt
    exact .inr hlt

/-! ## Unregistering -/

/-- What is given up is not held, or it is held by others as well, or by nobody else. -/
theorem unregister_cases (r : Registry) (v : UInt32) (o : Owner) :
    (r.unregister v o = r ∧ ∀ name, ¬r.Holds o name v) ∨
    ∃ e, r.vars[v]? = some e ∧ o ∈ e.owners ∧
      (((∀ o', o' ∉ e.owners.erase o) ∧ r.unregister v o =
        { r with vars := r.vars.erase v, byName := r.byName.erase e.name }) ∨
      ((∃ o', o' ∈ e.owners.erase o) ∧ r.unregister v o =
        { r with vars := r.vars.insert v { e with owners := e.owners.erase o } })) := by
  unfold unregister
  cases he : r.vars[v]? with
  | none =>
    refine .inl ⟨rfl, ?_⟩
    rintro name ⟨e, he', -⟩
    cases he.symm.trans he'
  | some e =>
    dsimp only
    by_cases ho : o ∈ e.owners
    · rw [if_neg (not_not_intro ho)]
      refine .inr ⟨e, rfl, ho, ?_⟩
      by_cases hempty : (e.owners.erase o).isEmpty = true
      · rw [if_pos hempty]
        rw [ExtTreeSet.isEmpty_iff, ExtTreeSet.eq_empty_iff_forall_not_mem] at hempty
        exact .inl ⟨hempty, rfl⟩
      · rw [if_neg hempty]
        rw [ExtTreeSet.isEmpty_iff, ExtTreeSet.eq_empty_iff_forall_not_mem, not_forall_not] at hempty
        exact .inr ⟨hempty, rfl⟩
    · rw [if_pos ho]
      refine .inl ⟨rfl, ?_⟩
      rintro name ⟨e', he', -, ho'⟩
      cases he.symm.trans he'
      exact ho ho'

theorem mem_owners_erase : o' ∈ e.owners.erase o ↔ o' ∈ e.owners ∧ o' ≠ o := by
  rw [ExtTreeSet.mem_erase, ne_eq, Std.compare_eq_iff_eq, and_comm, ne_comm]

/-- Giving one variable up concerns one party and this variable only. -/
theorem holds_unregister : (r.unregister v o).Holds o' name' v' ↔
    r.Holds o' name' v' ∧ ¬(v' = v ∧ o' = o) := by
  rcases r.unregister_cases v o with ⟨hsame, hnone⟩ | ⟨e, he, ho, ⟨hnone, hleft⟩ | ⟨-, hleft⟩⟩
  · rw [hsame, iff_self_and]
    rintro h' ⟨rfl, rfl⟩
    exact hnone name' h'
  · rw [hleft]
    unfold Holds
    rw [getElem?_erase_eq_ite]
    by_cases hv : v = v'
    · subst hv
      rw [if_pos rfl, he]
      refine iff_of_false (fun ⟨_, h', _⟩ => nomatch h') ?_
      rintro ⟨⟨e', he', -, ho'⟩, hne⟩
      cases he'
      exact hnone o' (mem_owners_erase.2 ⟨ho', fun heq => hne ⟨rfl, heq⟩⟩)
    · rw [if_neg hv, iff_self_and]
      exact fun _ h' => hv h'.1.symm
  · rw [hleft]
    unfold Holds
    rw [getElem?_insert_eq_ite]
    by_cases hv : v = v'
    · subst hv
      rw [if_pos rfl, he]
      simp only [Option.some.injEq, exists_eq_left', mem_owners_erase, true_and, and_assoc]
    · rw [if_neg hv, iff_self_and]
      exact fun _ h' => hv h'.1.symm

theorem nextVar_unregister (r : Registry) (v : UInt32) (o : Owner) :
    (r.unregister v o).nextVar = r.nextVar := by
  rcases r.unregister_cases v o with ⟨hsame, -⟩ | ⟨e, -, -, ⟨-, hleft⟩ | ⟨-, hleft⟩⟩
  · rw [hsame]
  · rw [hleft]
  · rw [hleft]

theorem lastOwner_unregister (r : Registry) (v : UInt32) (o : Owner) :
    (r.unregister v o).lastOwner = r.lastOwner := by
  rcases r.unregister_cases v o with ⟨hsame, -⟩ | ⟨e, -, -, ⟨-, hleft⟩ | ⟨-, hleft⟩⟩
  · rw [hsame]
  · rw [hleft]
  · rw [hleft]

/-- What giving names up does to a registry. -/
structure Released (r : Registry) (stays : Owner → String → UInt32 → Prop) (r' : Registry) :
    Prop where
  valid : r'.Valid
  nextVar : r'.nextVar = r.nextVar
  holds : ∀ o name v, r'.Holds o name v ↔ r.Holds o name v ∧ stays o name v

/-- A variable is taken out of both maps. -/
theorem Valid.forget (hr : r.Valid) (he : r.vars[v]? = some e) :
    Valid { r with vars := r.vars.erase v, byName := r.byName.erase e.name } := by
  have hkept : ∀ (v' : UInt32) (e' : Registration),
      (r.vars.erase v)[v']? = some e' → r.vars[v']? = some e' := by
    intro v' e' h
    rw [getElem?_erase_eq_ite] at h
    split at h
    · cases h
    · exact h
  have hname : r.varOf e.name = some v :=
    (hr.inverse _ _).2 (Option.map_eq_some_iff.2 ⟨e, he, rfl⟩)
  refine ⟨fun name' v' => ?_, fun v' e' h => hr.held v' e' (hkept v' e' h),
    fun v' e' h => hr.var_pos v' e' (hkept v' e' h), fun v' e' h => hr.var_lt v' e' (hkept v' e' h),
    hr.next_pos⟩
  show (r.byName.erase e.name)[name']? = some v' ↔ ((r.vars.erase v)[v']?.map (·.name)) = some name'
  rw [getElem?_erase_eq_ite, getElem?_erase_eq_ite]
  have hinverse := hr.inverse name' v'
  by_cases hv : v = v'
  · subst hv
    rw [if_pos rfl]
    refine iff_of_false (fun h => ?_) nofun
    split at h
    · cases h
    · rename_i hne
      obtain ⟨e', he', hname'⟩ := Option.map_eq_some_iff.1 (hinverse.1 h)
      cases he.symm.trans he'
      exact hne hname'
  · rw [if_neg hv]
    by_cases hn : e.name = name'
    · subst hn
      rw [if_pos rfl]
      refine iff_of_false nofun fun h => hv ?_
      exact Option.some.inj (hname.symm.trans (hinverse.2 h))
    · rw [if_neg hn]
      exact hinverse

/-- A variable in use has other parties. -/
theorem Valid.replace (hr : r.Valid) (he : r.vars[v]? = some e) {owners : ExtTreeSet Owner}
    (ho : ∃ o, o ∈ owners) : Valid { r with vars := r.vars.insert v { e with owners } } := by
  have hcases : ∀ {v' : UInt32} {e' : Registration}, (r.vars.insert v { e with owners })[v']? = some e' →
      (v' = v ∧ e' = { e with owners }) ∨ r.vars[v']? = some e' := by
    intro v' e' h
    rw [getElem?_insert_eq_ite] at h
    split at h
    · rename_i hv
      exact .inl ⟨hv.symm, (Option.some.inj h).symm⟩
    · exact .inr h
  refine ⟨fun name' v' => ?_, fun v' e' h => ?_, fun v' e' h => ?_, fun v' e' h => ?_, hr.next_pos⟩
  · have hsame : (r.vars.insert v { e with owners })[v']?.map (·.name) = r.nameOf v' := by
      rw [getElem?_insert_eq_ite]
      split
      · rename_i hv
        rw [← hv, nameOf, he]
        rfl
      · rfl
    show r.varOf name' = some v' ↔ (r.vars.insert v { e with owners })[v']?.map (·.name) = _
    rw [hsame]
    exact hr.inverse name' v'
  · rcases hcases h with ⟨-, rfl⟩ | hold
    · exact ho
    · exact hr.held v' e' hold
  · rcases hcases h with ⟨rfl, -⟩ | hold
    · exact hr.var_pos v' e he
    · exact hr.var_pos v' e' hold
  · rcases hcases h with ⟨rfl, -⟩ | hold
    · exact hr.var_lt v' e he
    · exact hr.var_lt v' e' hold

theorem unregister_spec (hr : r.Valid) (v : UInt32) (o : Owner) :
    Released r (fun o' _ v' => ¬(v' = v ∧ o' = o)) (r.unregister v o) where
  valid := by
    rcases r.unregister_cases v o with ⟨hsame, -⟩ | ⟨e, he, -, ⟨-, hleft⟩ | ⟨ho, hleft⟩⟩
    · rw [hsame]
      exact hr
    · rw [hleft]
      exact hr.forget he
    · rw [hleft]
      exact hr.replace he ho
  nextVar := nextVar_unregister r v o
  holds _ _ _ := holds_unregister

/-! ## Giving everything up -/

/-- A party gives several variables up. -/
def unregisterEach (r : Registry) (vs : List UInt32) (o : Owner) : Registry :=
  vs.foldl (fun r v => r.unregister v o) r

theorem holds_unregisterEach {vs : List UInt32} : (r.unregisterEach vs o).Holds o' name' v' ↔
    r.Holds o' name' v' ∧ ¬(v' ∈ vs ∧ o' = o) := by
  induction vs generalizing r with
  | nil => simp [unregisterEach]
  | cons v vs ih =>
    refine ih.trans ?_
    rw [holds_unregister, List.mem_cons]
    tauto

theorem nextVar_unregisterEach (r : Registry) (vs : List UInt32) (o : Owner) :
    (r.unregisterEach vs o).nextVar = r.nextVar := by
  induction vs generalizing r with
  | nil => rfl
  | cons v vs ih => exact (ih _).trans (nextVar_unregister r v o)

theorem lastOwner_unregisterEach (r : Registry) (vs : List UInt32) (o : Owner) :
    (r.unregisterEach vs o).lastOwner = r.lastOwner := by
  induction vs generalizing r with
  | nil => rfl
  | cons v vs ih => exact (ih _).trans (lastOwner_unregister r v o)

theorem Valid.unregisterEach (hr : r.Valid) (vs : List UInt32) (o : Owner) :
    (r.unregisterEach vs o).Valid := by
  induction vs generalizing r with
  | nil => exact hr
  | cons v vs ih => exact ih (unregister_spec hr v o).valid

theorem mem_heldBy : v ∈ r.heldBy o ↔ ∃ name, r.Holds o name v := by
  unfold heldBy
  rw [List.mem_map]
  constructor
  · rintro ⟨⟨v', e⟩, he, rfl⟩
    obtain ⟨he, ho⟩ := List.mem_filter.1 he
    exact ⟨e.name, e, ExtTreeMap.mem_toList_iff_getElem?_eq_some.1 he, rfl, of_decide_eq_true ho⟩
  · rintro ⟨name, e, he, -, ho⟩
    exact ⟨(v, e), List.mem_filter.2 ⟨ExtTreeMap.mem_toList_iff_getElem?_eq_some.2 he,
      decide_eq_true ho⟩, rfl⟩

/-- Giving everything up concerns one party only. -/
theorem holds_unregisterAll :
    (r.unregisterAll o).2.Holds o' name' v' ↔ r.Holds o' name' v' ∧ o' ≠ o := by
  refine holds_unregisterEach.trans (and_congr_right fun h => ?_)
  rw [mem_heldBy, not_and]
  exact ⟨fun hnot heq => hnot ⟨name', heq ▸ h⟩ heq, fun hne _ => hne⟩

theorem unregisterAll_spec (hr : r.Valid) (o : Owner) :
    Released r (fun o' _ _ => o' ≠ o) (r.unregisterAll o).2 where
  valid := hr.unregisterEach _ o
  nextVar := nextVar_unregisterEach r _ o
  holds _ _ _ := holds_unregisterAll

theorem newOwner_valid (hr : r.Valid) : r.newOwner.2.Valid :=
  ⟨hr.inverse, hr.held, hr.var_pos, hr.var_lt, hr.next_pos⟩

end StateSpace.Registry
