import StateSpace.Proofs.Dictionary.Withdrawal
import StateSpace.Proofs.Kripke.Create

/-!
# Refused propositions

Compiling registers the names one by one, and gives all of them up again if one of them is no
proposition. The party that does so is new: it holds nothing before, and nothing when it has given
everything up. Others hold what they held. As long as there are variables for new names, both maps of a
registry are determined by its holders, so they are as they were.

1. In a dictionary that is used by parties of its own, all holders were issued before
   (`Dictionary.Used.issued`).
2. The calls that compiling makes can be told beforehand, and the diagnostics are those of the rejected
   names, in ascending order (`compile_run`).
3. Variables come round again when all were issued. A name that gets a variable in use is forgotten by
   one map only (`refused_leaves_name`).
-/

namespace StateSpace

open StateSpace.Action

/-! ## Parties that were issued -/

namespace Registry

open Std

variable {r : Registry} {o p : Owner} {name : String} {v : UInt32} {c : Call}

/-- All holders were issued before. -/
def Issued (r : Registry) : Prop := ∀ o name v, r.Holds o name v → o.number ≤ r.lastOwner

theorem Issued.step (h : r.Issued) (hc : ∀ o, c.RegistersFor (· = o) → o.number ≤ r.lastOwner) :
    (c.step r).2.Issued := by
  intro o name v hheld
  refine Nat.le_trans ?_ (lastOwner_le_step r c)
  by_cases hreg : c.RegistersFor (· = o)
  · exact hc o hreg
  · exact h o name v (holds_of_step hreg hheld)

/-- The party that is issued next holds nothing. -/
theorem Issued.not_holds (h : r.Issued) : ¬r.Holds r.newOwner.1 name v :=
  fun hheld => Nat.not_succ_le_self _ (h _ name v hheld)

/-- A party registers names, one after the other. -/
def registrations (o : Owner) (names : List String) : List Call :=
  names.map fun name => .register name o

theorem not_registersFor_registrations {names : List String} {P : Owner → Prop} (ho : ¬P o) :
    ∀ c ∈ registrations o names, ¬c.RegistersFor P := by
  intro c hc
  obtain ⟨name, -, rfl⟩ := List.mem_map.1 hc
  exact ho

theorem holds_registrations (hp : p ≠ o) (names : List String) :
    (r.replay (registrations o names)).Holds p name v ↔ r.Holds p name v := by
  induction names generalizing r with
  | nil => exact Iff.rfl
  | cons _ names ih => exact ih.trans (holds_register_of_ne hp)

/-! ## Variables that come round again -/

/-- A party registers a name and gives it up, again and again. The variables are `v` and those after
it. -/
def rounds (name : String) (o : Owner) : Nat → UInt32 → List Call
  | 0, _ => []
  | k + 1, v => .register name o :: .unregister v o :: rounds name o k (v + 1)

/-- A round costs a variable, and leaves both maps as they were. -/
theorem unregister_registered (hname : r.varOf name = none) (hvar : r.vars[r.nextVar]? = none)
    (o : Owner) :
    (r.register name o).2.unregister r.nextVar o = { r with nextVar := r.nextVar + 1 } := by
  rcases r.register_cases name o with ⟨v, hv, -⟩ | ⟨-, hreg⟩
  · cases hname.symm.trans hv
  have hentry : ((r.issue name).join r.nextVar name o).vars[r.nextVar]? =
      some ⟨name, (∅ : ExtTreeSet Owner).insert o⟩ := by
    have hfree : (r.issue name).vars[r.nextVar]? = none := hvar
    rw [vars_join, if_pos rfl, nameOf, hfree]
    rfl
  rw [hreg]
  rcases unregister_cases ((r.issue name).join r.nextVar name o) r.nextVar o with
    ⟨-, hnone⟩ | ⟨e, he, -, ⟨-, hleft⟩ | ⟨⟨o', ho'⟩, -⟩⟩
  · exact absurd ⟨_, hentry, rfl, ExtTreeSet.mem_insert_self⟩ (hnone name)
  · cases hentry.symm.trans he
    rw [hleft]
    have hmaps : (r.byName.insert name r.nextVar).erase name = r.byName ∧
        ((r.issue name).join r.nextVar name o).vars.erase r.nextVar = r.vars :=
      ⟨erase_insert_eq_self hname, erase_insert_eq_self hvar⟩
    exact Registry.mk.injEq .. ▸ ⟨hmaps.1, hmaps.2, rfl, rfl⟩
  · cases hentry.symm.trans he
    rw [mem_owners_erase, ExtTreeSet.mem_insert, Std.compare_eq_iff_eq] at ho'
    exact absurd (ho'.1.resolve_right ExtTreeSet.not_mem_empty).symm ho'.2

/-- Any number of rounds, as long as the next variable is not in use. -/
theorem replay_rounds (hname : r.varOf name = none) (k : Nat)
    (hvars : ∀ i < k, r.vars[r.nextVar + .ofNat i]? = none) :
    r.replay (rounds name o k r.nextVar) = { r with nextVar := r.nextVar + .ofNat k } := by
  induction k generalizing r with
  | zero => simp [rounds, replay]
  | succ k ih =>
    have hround := unregister_registered hname (by simpa using hvars 0 (Nat.succ_pos k)) o
    have hshift : ∀ i, r.nextVar + 1 + .ofNat i = r.nextVar + .ofNat (i + 1) := fun i => by
      rw [UInt32.ofNat_add, UInt32.add_assoc, UInt32.add_comm (.ofNat i)]
      rfl
    have hrest := ih (r := { r with nextVar := r.nextVar + 1 }) hname fun i hi => by
      rw [hshift]
      exact hvars (i + 1) (Nat.succ_lt_succ hi)
    show ((r.register name o).2.unregister r.nextVar o).replay (rounds name o k (r.nextVar + 1)) = _
    rw [hround, ← hshift]
    exact hrest

/-- If only one variable is in use, it is the next one again when all others were issued. -/
theorem replay_all_rounds (hname : r.varOf name = none) (hnext : r.nextVar = v + 1)
    (hvars : ∀ v', v ≠ v' → r.vars[v']? = none) (o : Owner) :
    r.replay (rounds name o (2 ^ 32 - 1) r.nextVar) = { r with nextVar := v } := by
  rw [replay_rounds hname _ fun i hi => hvars _ fun heq => ?_]
  · have hround : r.nextVar + .ofNat (2 ^ 32 - 1) = v := by
      rw [hnext, UInt32.add_assoc, show (1 : UInt32) + .ofNat (2 ^ 32 - 1) = 0 from rfl,
        UInt32.add_zero]
    rw [hround]
  · have hnat := congrArg UInt32.toNat heq
    have := v.toNat_lt
    rw [hnext, UInt32.toNat_add, UInt32.toNat_add, UInt32.toNat_one,
      UInt32.toNat_ofNat_of_lt' (Nat.lt_of_lt_of_le hi (by decide))] at hnat
    omega

end Registry

/-! ## Used dictionaries -/

namespace Dictionary

variable {d d' : Dictionary} {cs : List Registry.Call}

namespace Request

/-- Whoever registers a name was issued by the dictionary. -/
def Issued (d : Dictionary) : Request → Prop
  | register _ o => o.number ≤ d.registry.lastOwner
  | _ => True

/-- The calls of a request to the names of a dictionary. -/
def calls : Request → List Registry.Call
  | newOwner => [.newOwner]
  | register name o => [.register name o]
  | unregister v o => [.unregister v o]
  | unregisterAll o => [.unregisterAll o]
  | build _ => []

end Request

/-- Work on the diagram leaves the names alone. -/
theorem keeps_registry {α : Type} (x : Action Manager α) (r : Registry) :
    Keeps (fun d : Dictionary => d.registry = r) (onDiagram x) := by
  intro d hd
  rwa [onDiagram_after]

theorem Request.registry_after (q : Request) (d : Dictionary) :
    (q.run.after d).registry = d.registry.replay q.calls := by
  cases q with
  | build c =>
    show ((do let _ ← onDiagram c.run : Action Dictionary Unit).after d).registry = d.registry
    rw [after_discard]
    exact keeps_registry c.run d.registry d rfl
  | newOwner => rfl
  | register name o => rfl
  | unregister v o => rfl
  | unregisterAll o => rfl

/-- Parties of its own have made the dictionary out of a new one, by any requests, which call for its
names like this; some of them may have faulted. -/
inductive Used : List Registry.Call → Dictionary → Prop where
  | create {bits : Nat} {d : Dictionary} (h : create bits = .ok d) : Used [] d
  | request {cs : List Registry.Call} {d : Dictionary} {q : Request} (h : Used cs d)
      (hq : q.Issued d) : Used (cs ++ q.calls) (q.run.after d)

theorem Used.registry (h : d.Used cs) : d.registry = Registry.after cs := by
  induction h with
  | create h =>
    obtain ⟨m, -, h⟩ := except_bind_eq_ok.1 h
    cases h
    rfl
  | @request cs d q _ _ ih =>
    rw [q.registry_after, ih]
    exact (Registry.replay_append {} cs q.calls).symm

theorem Used.issued (h : d.Used cs) : d.registry.Issued := by
  induction h with
  | create h =>
    obtain ⟨m, -, h⟩ := except_bind_eq_ok.1 h
    cases h
    exact fun o name v hheld => absurd hheld Registry.not_holds_empty
  | @request cs d q _ hq ih =>
    rw [q.registry_after]
    cases q with
    | newOwner => exact ih.step (c := .newOwner) nofun
    | register name o => exact ih.step (c := .register name o) fun _ ho => ho ▸ hq
    | unregister v o => exact ih.step (c := .unregister v o) nofun
    | unregisterAll o => exact ih.step (c := .unregisterAll o) nofun
    | build c => exact ih

theorem Used.rounds (h : d.Used cs) {o : Owner} (ho : o.number ≤ d.registry.lastOwner)
    (name : String) (k : Nat) (v : UInt32) :
    Used (cs ++ Registry.rounds name o k v)
      { d with registry := d.registry.replay (Registry.rounds name o k v) } := by
  induction k generalizing cs d v with
  | zero => rwa [Registry.rounds, List.append_nil]
  | succ k ih =>
    have hreg : Used (cs ++ [.register name o]) _ := .request (q := .register name o) h ho
    have hun : Used _ _ := .request (q := .unregister v o) hreg trivial
    have hrest := ih hun (Nat.le_trans ho (Registry.lastOwner_le_replay d.registry
      [.register name o, .unregister v o])) (v + 1)
    rwa [List.append_assoc, List.append_assoc] at hrest

end Dictionary

/-! ## Diagnostics -/

namespace PropositionList

open Registry

variable {n : Network} {d d' : Dictionary} {cs : List Call} {names : List String} {dead : Option String}
  {ds : List Diagnostic} {o : Owner}

/-- Why a name is no proposition, if it is none. -/
def rejection? (n : Network) (name : String) : Option Diagnostic :=
  match Atom.parse n name.toList with
  | .ok _ => none
  | .error e => some e

/-- The line of a report for a rejected name. -/
def complaint (n : Network) (name : String) : String :=
  match rejection? n name with
  | none => ""
  | some e => e.message ++ "\n"

/-- One of the names, apart from the name of dead states, is no proposition. -/
def Rejected (n : Network) (names : List String) (dead : Option String) (name : String) : Prop :=
  name ∈ names ∧ some name ≠ dead ∧ ∃ e, Atom.parse n name.toList = .error e

theorem isSome_rejection? {name : String} :
    (rejection? n name).isSome = true ↔ ∃ e, Atom.parse n name.toList = .error e := by
  unfold rejection?
  cases Atom.parse n name.toList <;> simp

/-- The rejected names, in ascending order. -/
def rejectedNames (n : Network) (names : List String) (dead : Option String) : List String :=
  (compiledNames names dead).filter fun name => (rejection? n name).isSome

theorem rejectedNames_ascending : (rejectedNames n names dead).Pairwise (· < ·) :=
  ((distinctNames_ascending names).filter _).filter _

theorem mem_rejectedNames {name : String} :
    name ∈ rejectedNames n names dead ↔ Rejected n names dead name := by
  unfold rejectedNames Rejected
  rw [List.mem_filter, mem_compiledNames, isSome_rejection?, and_assoc]

theorem map_complaint (names : List String) :
    (names.filter fun name => (rejection? n name).isSome).map (complaint n) =
      (names.filterMap (rejection? n)).map fun e => e.message ++ "\n" := by
  induction names with
  | nil => rfl
  | cons name names ih =>
    cases h : rejection? n name with
    | none =>
      rw [List.filter_cons_of_neg (by rw [h]; exact Bool.false_ne_true), List.filterMap_cons_none h]
      exact ih
    | some e =>
      rw [List.filter_cons_of_pos (by rw [h]; rfl), List.filterMap_cons_some h, List.map_cons,
        List.map_cons, ih]
      unfold complaint
      rw [h]

/-! ## Compiling -/

/-- The names that are propositions. -/
def acceptedNames (n : Network) (names : List String) : List String :=
  names.filter fun name => (rejection? n name).isNone

/-- What registering the names answers and calls: one diagnostic for each rejected name, and the
registrations of the others. -/
theorem registerAll_run (n : Network) (o : Owner) (names : List String) (d : Dictionary) :
    ∃ ps, registerAll n o names d = .ok (ps, names.filterMap (rejection? n))
      { d with registry := d.registry.replay (registrations o (acceptedNames n names)) } := by
  induction names generalizing d with
  | nil => exact ⟨[], rfl⟩
  | cons name names ih =>
    rw [registerAll]
    cases hparse : Atom.parse n name.toList with
    | error e =>
      have hname : rejection? n name = some e := by unfold rejection?; rw [hparse]
      have haccepted : acceptedNames n (name :: names) = acceptedNames n names :=
        List.filter_cons_of_neg (by rw [hname]; exact Bool.false_ne_true)
      obtain ⟨ps, hrun⟩ := ih d
      rw [List.filterMap_cons_some hname, haccepted]
      exact ⟨ps, (bind_ok hrun _).trans rfl⟩
    | ok atom =>
      have hname : rejection? n name = none := by unfold rejection?; rw [hparse]
      have haccepted : acceptedNames n (name :: names) = name :: acceptedNames n names :=
        List.filter_cons_of_pos (by rw [hname]; rfl)
      have hreg : Dictionary.register name o d = .ok (d.registry.register name o).1
        { d with registry := (d.registry.register name o).2 } := rfl
      obtain ⟨ps, hrun⟩ := ih { d with registry := (d.registry.register name o).2 }
      rw [List.filterMap_cons_none hname, haccepted]
      exact ⟨_, (bind_ok hreg _).trans ((bind_ok hrun _).trans rfl)⟩

/-- The calls that compiling makes: a new party registers the names that are propositions, and gives
them up again if another name is none. -/
def compileCalls (n : Network) (names : List String) (dead : Option String) (r : Registry) :
    List Registry.Call :=
  .newOwner :: (registrations r.newOwner.1 (acceptedNames n (compiledNames names dead)) ++
    if (compiledNames names dead).filterMap (rejection? n) = [] then []
    else [.unregisterAll r.newOwner.1])

/-- The report has one line for each rejected name, in ascending order. -/
def Reported (n : Network) (names : List String) (dead : Option String) (ds : List Diagnostic) :
    Prop :=
  ∃ rejected : List String, rejected.Pairwise (· < ·) ∧
    (∀ name, name ∈ rejected ↔ Rejected n names dead name) ∧
    report ds = String.join (rejected.map (complaint n))

/-- What compiling leads to. -/
structure Compiling (n : Network) (names : List String) (dead : Option String) (r : Registry)
    (x : Except (List Diagnostic) PropositionList) : Prop where
  owner : ∀ l, x = .ok l → l.owner = r.newOwner.1
  refused_iff : (∃ ds, x = .error ds) ↔ ∃ name, Rejected n names dead name
  report : ∀ ds, x = .error ds → Reported n names dead ds
  /-- A party whose names are refused has given them up. -/
  calls : ∀ ds, x = .error ds → compileCalls n names dead r = .newOwner ::
    (registrations r.newOwner.1 (acceptedNames n (compiledNames names dead)) ++
      [.unregisterAll r.newOwner.1])

/-- Compiling ends; it is refused exactly if some name is rejected. -/
theorem compile_run (n : Network) (names : List String) (dead : Option String) (d : Dictionary) :
    ∃ x, compile n names dead d =
      .ok x { d with registry := d.registry.replay (compileCalls n names dead d.registry) } ∧
        Compiling n names dead d.registry x := by
  have howner : Dictionary.newOwner d = .ok d.registry.newOwner.1
      ⟨d.diagram, d.registry.newOwner.2⟩ := rfl
  obtain ⟨ps, hall⟩ := registerAll_run n d.registry.newOwner.1 (compiledNames names dead)
    ⟨d.diagram, d.registry.newOwner.2⟩
  have hlines : (rejectedNames n names dead).map (complaint n) = _ :=
    map_complaint (compiledNames names dead)
  cases hds : (compiledNames names dead).filterMap (rejection? n) with
  | nil =>
    rw [hds] at hall
    rw [hds, List.map_nil, List.map_eq_nil_iff] at hlines
    refine ⟨.ok ⟨d.registry.newOwner.1, ps⟩, ?_, fun l hl => by cases hl; rfl,
      ⟨nofun, fun ⟨name, hname⟩ => ?_⟩, nofun, nofun⟩
    · unfold compileCalls
      rw [if_pos hds, List.append_nil]
      exact (bind_ok howner _).trans ((bind_ok hall _).trans rfl)
    · rw [← mem_rejectedNames, hlines] at hname
      cases hname
  | cons e es =>
    rw [hds] at hlines hall
    have hcalls : compileCalls n names dead d.registry = .newOwner ::
        (registrations d.registry.newOwner.1 (acceptedNames n (compiledNames names dead)) ++
          [.unregisterAll d.registry.newOwner.1]) := by
      unfold compileCalls
      rw [hds, if_neg (List.cons_ne_nil _ _)]
    refine ⟨.error (e :: es), ?_, nofun, ⟨fun _ => ?_, fun _ => ⟨_, rfl⟩⟩, ?_, fun _ _ => hcalls⟩
    · rw [hcalls, ← List.cons_append, replay_append]
      exact (bind_ok howner _).trans ((bind_ok hall _).trans rfl)
    · have hne : rejectedNames n names dead ≠ [] := fun hnil => by
        rw [hnil] at hlines
        cases hlines
      obtain ⟨name, hname⟩ := List.exists_mem_of_ne_nil _ hne
      exact ⟨name, mem_rejectedNames.1 hname⟩
    · rintro _ ⟨⟩
      refine ⟨_, rejectedNames_ascending, fun _ => mem_rejectedNames, ?_⟩
      rw [hlines]
      rfl

/-- A party that was new holds nothing after a refusal, and others hold what they held. -/
theorem Compiling.holds {r : Registry} {x : Except (List Diagnostic) PropositionList}
    (h : Compiling n names dead r x) (hr : r.Issued) (hx : x = .error ds) (p : Owner)
    (name : String) (v : UInt32) :
    (r.replay (compileCalls n names dead r)).Holds p name v ↔ r.Holds p name v := by
  rw [h.calls ds hx, ← List.cons_append, replay_append]
  refine holds_unregisterAll.trans ?_
  by_cases hp : p = r.newOwner.1
  · subst hp
    exact iff_of_false (fun hheld => hheld.2 rfl) hr.not_holds
  · exact (and_iff_left hp).trans (holds_registrations hp _)

/-- Another party holds a name under the first variable when this comes round again. An accepted name
gets it too, and is not forgotten when another name is rejected: its variable is still in use. -/
theorem refused_leaves_name : ∃ (ints : NameTable) (cs : List Call) (d d' : Dictionary)
    (ds : List Diagnostic), NameTable.add? {} "x" = some (0, ints) ∧ d.Used cs ∧
    d.registry.varOf "x == 1" = none ∧ d.registry.entries = [(1, "x > 0", [⟨2⟩])] ∧
    compile { name := "counter", ints } ["x == 1", "y"] none d = .ok (.error ds) d' ∧
    d'.registry.varOf "x == 1" = some 1 ∧ d'.registry.entries = [(1, "x > 0", [⟨2⟩])] := by
  obtain ⟨d₀, hd₀, hreg⟩ : ∃ d, Dictionary.create 4 = .ok d ∧ d.registry = {} := ⟨_, rfl, rfl⟩
  obtain ⟨m, r⟩ := d₀
  cases hreg
  have hfirst : Dictionary.Used [.newOwner, .newOwner, .register "x > 0" ⟨2⟩]
      ⟨m, after [.newOwner, .newOwner, .register "x > 0" ⟨2⟩]⟩ :=
    .request (q := .register "x > 0" ⟨2⟩) (.request (q := .newOwner)
      (.request (q := .newOwner) (.create hd₀) trivial) trivial) (Nat.le_refl 2)
  have hd := hfirst.rounds (o := ⟨1⟩) (Nat.le_of_ble_eq_true rfl) "x < 0" (2 ^ 32 - 1) 2
  have hrounds : (after [.newOwner, .newOwner, .register "x > 0" ⟨2⟩]).replay
      (rounds "x < 0" ⟨1⟩ (2 ^ 32 - 1) 2) =
        { after [.newOwner, .newOwner, .register "x > 0" ⟨2⟩] with nextVar := 1 } := by
    refine replay_all_rounds (by decide +kernel) (by decide +kernel) (fun v hv => ?_) _
    show ((issue { lastOwner := 2 } "x > 0").join 1 "x > 0" ⟨2⟩).vars[v]? = none
    rw [vars_join, if_neg hv]
    exact vars_empty v
  rw [hrounds] at hd
  obtain ⟨ints, hints, hy, hcompiled⟩ : ∃ ints, NameTable.add? {} "x" = some (0, ints) ∧
      Atom.parse { name := "counter", ints } "y".toList = .error (.unknownSubject "y" "y") ∧
      ∀ r, r = { after [.newOwner, .newOwner, .register "x > 0" ⟨2⟩] with nextVar := 1 } →
        (r.replay (compileCalls { name := "counter", ints } ["x == 1", "y"] none r)).varOf
          "x == 1" = some 1 ∧
        (r.replay (compileCalls { name := "counter", ints } ["x == 1", "y"] none r)).entries =
          [(1, "x > 0", [⟨2⟩])] :=
    ⟨_, rfl, by decide +kernel, by rintro _ rfl; decide +kernel⟩
  obtain ⟨x, hrun, hx⟩ := compile_run { name := "counter", ints } ["x == 1", "y"] none ⟨m,
    { after [.newOwner, .newOwner, .register "x > 0" ⟨2⟩] with nextVar := 1 }⟩
  obtain ⟨ds, rfl⟩ := hx.refused_iff.2
    ⟨"y", List.mem_cons_of_mem _ List.mem_cons_self, nofun, .unknownSubject "y" "y", hy⟩
  obtain ⟨hheld, hentries⟩ := hcompiled _ rfl
  have hbefore : (after [.newOwner, .newOwner, .register "x > 0" ⟨2⟩]).varOf "x == 1" = none ∧
    (after [.newOwner, .newOwner, .register "x > 0" ⟨2⟩]).entries = [(1, "x > 0", [⟨2⟩])] := by
    decide +kernel
  exact ⟨ints, _, _, _, ds, hints, hd, hbefore.1, hbefore.2, hrun, hheld, hentries⟩

end PropositionList

end StateSpace
