import Mathlib.Data.String.Basic
import StateSpace.Proofs.Dictionary.Requests
import StateSpace.Proofs.Network.Valid
import StateSpace.Proposition.List

/-!
# Compiled propositions

A compiled list has one proposition for each distinct name apart from the name of dead states, and the
party of the list holds these names. So different propositions have different variables, and none of
them is that of the name of dead states, whoever registers it.
-/

namespace StateSpace

open StateSpace.Action

/-! ## Atoms -/

namespace Atom

variable {n : Network} {atom : Atom} {text : List Char}

/-- The atom is about a variable or a process of the network. -/
def Within (n : Network) : Atom → Prop
  | compare var _ _ => var < n.ints.size
  | atLocation process _ => process < n.processes.size

theorem parseComparison_eq {var : Nat} {rest : List Char}
    (h : parseComparison var rest text = .ok atom) : ∃ op value, atom = .compare var op value := by
  unfold parseComparison at h
  dsimp only at h
  split at h
  · cases h
    exact ⟨_, _, rfl⟩
  · split at h
    · cases h
    · split at h
      · cases h
      · split at h
        · cases h
          exact ⟨_, _, rfl⟩
        · cases h

theorem parse_within (h : parse n text = .ok atom) : atom.Within n := by
  unfold parse at h
  dsimp only at h
  split at h
  · cases h
  · split at h
    · rename_i hvar
      obtain ⟨op, value, rfl⟩ := parseComparison_eq h
      exact NameTable.find?_lt hvar
    · unfold parseLocation at h
      dsimp only at h
      split at h
      · cases h
      · split at h
        · cases h
        · rename_i hpid
          split at h
          · cases h
          · split at h
            · cases h
              exact NameTable.find?_lt hpid
            · cases h

theorem exists_item {α : Type} {xs : List α} {i : Nat} (h : i < xs.length) : ∃ a, item xs i = .ok a := by
  unfold item
  rw [List.getElem?_eq_getElem h]
  exact ⟨_, rfl⟩

/-- An atom has a truth value on every state with the shape of its network. -/
theorem exists_holds (h : atom.Within n) {s : EngineState}
    (hs : n.processes.size ≤ s.locations.length ∧ n.ints.size ≤ s.ints.length) :
    ∃ b, atom.holds s = .ok b := by
  cases atom with
  | compare var op value =>
    obtain ⟨v, hv⟩ := exists_item (Nat.lt_of_lt_of_le h hs.2)
    exact ⟨_, except_map_eq_ok.2 ⟨v, hv, rfl⟩⟩
  | atLocation process location =>
    obtain ⟨l, hl⟩ := exists_item (Nat.lt_of_lt_of_le h hs.1)
    exact ⟨_, except_map_eq_ok.2 ⟨l, hl, rfl⟩⟩

end Atom

/-! ## Names -/

namespace PropositionList

theorem mem_insertName {a b : String} {names : List String} :
    b ∈ insertName a names ↔ b = a ∨ b ∈ names := by
  induction names with
  | nil => simp [insertName]
  | cons c names ih =>
    unfold insertName
    split
    · rename_i hac
      subst hac
      simp
    · split
      · exact List.mem_cons
      · rw [List.mem_cons, ih, List.mem_cons, or_left_comm]

theorem insertName_ascending {a : String} {names : List String} (h : names.Pairwise (· < ·)) :
    (insertName a names).Pairwise (· < ·) := by
  induction names with
  | nil => exact List.pairwise_singleton _ _
  | cons c names ih =>
    have hc := List.pairwise_cons.1 h
    unfold insertName
    split
    · exact h
    · rename_i hne
      split
      · rename_i hlt
        refine List.pairwise_cons.2 ⟨fun b hb => ?_, h⟩
        rcases List.mem_cons.1 hb with rfl | hb
        · exact hlt
        · exact lt_trans hlt (hc.1 b hb)
      · rename_i hge
        refine List.pairwise_cons.2 ⟨fun b hb => ?_, ih hc.2⟩
        rcases mem_insertName.1 hb with rfl | hb
        · exact lt_of_le_of_ne (not_lt.1 hge) (Ne.symm hne)
        · exact hc.1 b hb

theorem mem_distinctNames {b : String} {names : List String} :
    b ∈ distinctNames names ↔ b ∈ names := by
  induction names with
  | nil => exact Iff.rfl
  | cons a names ih =>
    show b ∈ insertName a (distinctNames names) ↔ _
    rw [mem_insertName, ih, List.mem_cons]

theorem distinctNames_ascending (names : List String) :
    (distinctNames names).Pairwise (· < ·) := by
  induction names with
  | nil => exact List.Pairwise.nil
  | cons a names ih => exact insertName_ascending ih

theorem length_insertName_le (a : String) (names : List String) :
    (insertName a names).length ≤ names.length + 1 := by
  induction names with
  | nil => exact Nat.le_refl _
  | cons c names ih =>
    unfold insertName
    split
    · exact Nat.le_succ _
    · split
      · exact Nat.le_refl _
      · exact Nat.succ_le_succ ih

theorem length_distinctNames_le (names : List String) :
    (distinctNames names).length ≤ names.length := by
  induction names with
  | nil => exact Nat.le_refl _
  | cons a names ih => exact Nat.le_trans (length_insertName_le a _) (Nat.succ_le_succ ih)

/-- The names that are compiled: each once, apart from the name of dead states. -/
def compiledNames (names : List String) (dead : Option String) : List String :=
  (distinctNames names).filter fun name => some name ≠ dead

theorem mem_compiledNames {name : String} {names : List String} {dead : Option String} :
    name ∈ compiledNames names dead ↔ name ∈ names ∧ some name ≠ dead := by
  unfold compiledNames
  rw [List.mem_filter, mem_distinctNames, decide_eq_true_iff]

theorem compiledNames_nodup (names : List String) (dead : Option String) :
    (compiledNames names dead).Nodup :=
  ((distinctNames_ascending names).imp ne_of_lt).filter _

theorem length_compiledNames_le (names : List String) (dead : Option String) :
    (compiledNames names dead).length ≤ names.length :=
  Nat.le_trans (List.length_filter_le _ _) (length_distinctNames_le names)

/-! ## Compiling -/

variable {n : Network} {d d' : Dictionary} {names : List String} {dead : Option String}
  {l : PropositionList} {o : Owner} {r r' : Registry}

/-- The proposition stands for the name: it is what the text says, and the party holds the name with
its variable. -/
def Stands (n : Network) (r : Registry) (o : Owner) (name : String) (p : Proposition) : Prop :=
  Atom.parse n name.toList = .ok p.atom ∧ r.Holds o name p.var

/-- The list has one proposition for each of the names, in order, and its party holds them all. -/
def Compiled (n : Network) (r : Registry) (names : List String) (l : PropositionList) : Prop :=
  List.Forall₂ (Stands n r l.owner) names l.records

theorem Compiled.mono (h : Compiled n r names l)
    (hr : ∀ name v, r.Holds l.owner name v → r'.Holds l.owner name v) : Compiled n r' names l :=
  List.Forall₂.imp (fun _ _ hs => ⟨hs.1, hr _ _ hs.2⟩) h

theorem Compiled.exists_name (h : Compiled n r names l) {p : Proposition} (hp : p ∈ l.records) :
    ∃ name ∈ names, Stands n r l.owner name p := by
  unfold Compiled at h
  generalize l.records = ps at h hp
  induction h with
  | nil => cases hp
  | cons hs _ ih =>
    rcases List.mem_cons.1 hp with rfl | hp
    · exact ⟨_, List.mem_cons_self, hs⟩
    · obtain ⟨name, hname, hs⟩ := ih hp
      exact ⟨name, List.mem_cons_of_mem _ hname, hs⟩

/-- The party of the list holds every name. -/
theorem Compiled.exists_holds (h : Compiled n r names l) {name : String} (hname : name ∈ names) :
    ∃ v, r.Holds l.owner name v := by
  unfold Compiled at h
  generalize l.records = ps at h
  induction h with
  | nil => cases hname
  | cons hs _ ih =>
    rcases List.mem_cons.1 hname with rfl | hname
    · exact ⟨_, hs.2⟩
    · exact ih hname

/-- Different propositions have different variables. -/
theorem Compiled.vars_nodup (h : Compiled n r names l) (hnd : names.Nodup) :
    (l.records.map (·.var)).Nodup := by
  unfold Compiled at h
  generalize l.records = ps at h
  generalize l.owner = o at h
  induction h with
  | nil => exact List.nodup_nil
  | @cons name p names ps hs htail ih =>
    have hnd' := List.nodup_cons.1 hnd
    rw [List.map_cons, List.nodup_cons]
    refine ⟨fun hmem => ?_, ih hnd'.2⟩
    obtain ⟨p', hp', hvar⟩ := List.mem_map.1 hmem
    obtain ⟨name', hname', hs'⟩ :=
      Compiled.exists_name (l := ⟨o, ps⟩) htail hp'
    have hsame := hs'.2
    rw [hvar] at hsame
    exact hnd'.1 (hsame.name_unique hs.2 ▸ hname')

/-- What registering names keeps and costs. -/
structure Registering (d : Dictionary) (count : Nat) (d' : Dictionary) : Prop where
  sound : d'.Sound
  diagram : d'.diagram = d.diagram
  next_le : d'.registry.nextVar.toNat ≤ d.registry.nextVar.toNat + count
  holds : ∀ o name v, d.registry.Holds o name v → d'.registry.Holds o name v

theorem Registering.refl (hd : d.Sound) : Registering d 0 d :=
  ⟨hd, rfl, Nat.le_refl _, fun _ _ _ h => h⟩

theorem Registering.kept {k : Nat} (h : Registering d k d') :
    Dictionary.Request.Kept d (fun _ => True) d' :=
  ⟨h.sound, .of_nodes (by rw [h.diagram]), fun o _ => h.holds o⟩

theorem Registering.trans {d'' : Dictionary} {i j k : Nat} (h : Registering d i d')
    (h' : Registering d' j d'') (hk : i + j ≤ k) : Registering d k d'' := by
  refine ⟨h'.sound, h'.diagram.trans h.diagram, ?_, fun o name v hh =>
    h'.holds o name v (h.holds o name v hh)⟩
  have := h.next_le
  have := h'.next_le
  omega

theorem register_registering (hd : d.Sound) (hroom : d.HasRoom) (name : String) (o : Owner) :
    Ensures (Dictionary.register name o) d fun v d' => Registering d 1 d' ∧
      d'.registry.Holds o name v := by
  refine (Dictionary.register_spec hd hroom name o).mono fun v d' ⟨hdiag, hreg⟩ => ⟨⟨⟨?_, hreg.valid⟩,
    hdiag, hreg.next_le, fun o' name' v' h => (hreg.holds o' name' v').2 (.inl h)⟩, ?_⟩
  · rw [hdiag]
    exact hd.diagram
  · exact (hreg.holds o name v).2 (.inr ⟨rfl, rfl, rfl⟩)

theorem registerAll_spec (hd : d.Sound) (o : Owner)
    (hroom : d.registry.nextVar.toNat + names.length < 2 ^ 32) :
    Ensures (registerAll n o names) d fun p d' => Registering d names.length d' ∧
      (p.2 = [] → List.Forall₂ (Stands n d'.registry o) names p.1) := by
  induction names generalizing d with
  | nil => exact Ensures.pure ⟨.refl hd, fun _ => .nil⟩
  | cons name names ih =>
    rw [List.length_cons] at hroom
    rw [registerAll]
    cases hp : Atom.parse n name.toList with
    | error e =>
      refine (ih hd (by omega)).bind fun p d' ⟨hreg, _⟩ => Ensures.pure ⟨?_, fun h => by cases h⟩
      exact (Registering.refl hd).trans hreg (by rw [List.length_cons]; omega)
    | ok atom =>
      have hroom₁ : d.HasRoom := by
        unfold Dictionary.HasRoom
        omega
      refine (register_registering hd hroom₁ name o).bind fun v d₁ ⟨hreg, hholds⟩ => ?_
      have hnext := hreg.next_le
      refine (ih hreg.sound (by omega)).bind fun p d' ⟨hreg', hall⟩ => Ensures.pure ⟨?_, fun h => ?_⟩
      · exact hreg.trans hreg' (by rw [List.length_cons]; omega)
      · exact .cons ⟨hp, hreg'.holds _ _ _ hholds⟩ (hall h)

/-- Whatever the dictionary is, a registered proposition is about the network. -/
theorem registerAll_within {ps : List Proposition} {ds : List Diagnostic}
    (h : registerAll n o names d = .ok (ps, ds) d') : ∀ p ∈ ps, p.atom.Within n := by
  induction names generalizing d ps ds with
  | nil =>
    cases h
    simp
  | cons name names ih =>
    rw [registerAll] at h
    cases hatom : Atom.parse n name.toList with
    | ok atom =>
      rw [hatom] at h
      obtain ⟨var, d₁, -, h⟩ := estate_bind_eq_ok.1 h
      obtain ⟨⟨ps', ds'⟩, d₂, hrest, h⟩ := estate_bind_eq_ok.1 h
      cases h
      exact List.forall_mem_cons.2 ⟨Atom.parse_within hatom, ih hrest⟩
    | error e =>
      rw [hatom] at h
      obtain ⟨⟨ps', ds'⟩, d₁, hrest, h⟩ := estate_bind_eq_ok.1 h
      cases h
      exact ih hrest

/-- Whatever the dictionary is, a compiled proposition is about the network. -/
theorem compile_within (h : compile n names dead d = .ok (.ok l) d') :
    ∀ p ∈ l.records, p.atom.Within n := by
  obtain ⟨o, d₁, -, h⟩ := estate_bind_eq_ok.1 h
  obtain ⟨⟨records, diagnostics⟩, d₂, hall, h⟩ := estate_bind_eq_ok.1 h
  dsimp only at h
  split at h
  · cases h
    exact registerAll_within hall
  · obtain ⟨k, d₃, -, h⟩ := estate_bind_eq_ok.1 h
    cases h

/-- Compiling ends; if it succeeds, the list is compiled from the names, and no party has lost a
name. -/
theorem compile_spec (n : Network) (dead : Option String) (hd : d.Sound)
    (hroom : d.registry.nextVar.toNat + names.length < 2 ^ 32) :
    Ensures (compile n names dead) d fun x d' => d'.Sound ∧ d'.diagram = d.diagram ∧
      d'.registry.nextVar.toNat ≤ d.registry.nextVar.toNat + names.length ∧
      ∀ l, x = .ok l → Compiled n d'.registry (compiledNames names dead) l ∧
        ∀ o name v, d.registry.Holds o name v → d'.registry.Holds o name v := by
  have hle := length_compiledNames_le names dead
  have howner : Dictionary.newOwner d = .ok d.registry.newOwner.1
      ⟨d.diagram, d.registry.newOwner.2⟩ := rfl
  have hd₁ : Dictionary.Sound ⟨d.diagram, d.registry.newOwner.2⟩ :=
    ⟨hd.diagram, Registry.newOwner_valid hd.registry⟩
  refine .of_ok howner ?_
  have hroom₁ : d.registry.nextVar.toNat + (compiledNames names dead).length < 2 ^ 32 :=
    Nat.lt_of_le_of_lt (Nat.add_le_add_left hle _) hroom
  refine (registerAll_spec hd₁ _ hroom₁).bind fun p d₂ ⟨hreg, hall⟩ => ?_
  have hnext : d₂.registry.nextVar.toNat ≤ d.registry.nextVar.toNat + names.length :=
    Nat.le_trans hreg.next_le (Nat.add_le_add_left hle _)
  obtain ⟨records, diagnostics⟩ := p
  cases diagnostics with
  | nil =>
    refine Ensures.pure ⟨hreg.sound, hreg.diagram, hnext, fun l hl => ?_⟩
    cases hl
    exact ⟨hall rfl, hreg.holds⟩
  | cons e es =>
    have hrel := Registry.unregisterAll_spec hreg.sound.registry d.registry.newOwner.1
    have hun : Dictionary.unregisterAll d.registry.newOwner.1 d₂ = .ok _
        ⟨d₂.diagram, (d₂.registry.unregisterAll d.registry.newOwner.1).2⟩ := rfl
    refine .of_ok hun (Ensures.pure ⟨⟨hreg.sound.diagram, hrel.valid⟩, hreg.diagram, ?_,
      fun l hl => by cases hl⟩)
    rw [show (⟨d₂.diagram, (d₂.registry.unregisterAll d.registry.newOwner.1).2⟩ :
      Dictionary).registry.nextVar = d₂.registry.nextVar from hrel.nextVar]
    exact hnext

/-! ## Conditions -/

/-- The conjunction of one literal for each proposition, on a diagram. -/
def literals (truth : Proposition → Bool) (ps : List Proposition) (e : Edge) : Action Manager Edge :=
  ps.foldlM (fun acc p => do
    let x ← Manager.var p.var
    Manager.and acc (if truth p then x else -x)) e

theorem foldlM_addCondition {s : EngineState} {truth : Proposition → Bool} {ps : List Proposition}
    (h : ∀ p ∈ ps, p.atom.holds s = .ok (truth p)) (e : Edge) :
    ps.foldlM (addCondition s) e = Dictionary.onDiagram (literals truth ps e) := by
  induction ps generalizing e with
  | nil => rfl
  | cons p ps ih =>
    have hstep : addCondition s e p = Dictionary.onDiagram (do
        let x ← Manager.var p.var
        Manager.and e (if truth p then x else -x)) := by
      rw [Dictionary.onDiagram_bind]
      unfold addCondition literal
      rw [bind_assoc]
      congr 1
      funext x d
      rw [bind_assoc, bind_ok (ofExcept_ok (h p List.mem_cons_self) d)]
      cases truth p <;> rfl
    unfold literals
    rw [List.foldlM_cons, List.foldlM_cons, Dictionary.onDiagram_bind, hstep]
    congr 1
    funext e'
    exact ih (fun p' hp' => h p' (List.mem_cons_of_mem _ hp')) e'

theorem literals_spec {m : Manager} (hm : Manager.Sound False m) {ps : List Proposition}
    (hv : ∀ p ∈ ps, Manager.Call.InOrder p.var) (truth : Proposition → Bool) :
    EnsuresFit (literals truth ps .one) m fun e m' => Manager.Grown False m e m' ∧
      (∀ a, m'.value a e = ps.all fun p => a p.var == truth p) ∧ m'.Ordered 0 e := by
  refine (Manager.foldlM_spec (m := fun a p => a p.var == truth p) True (fun e p => ?_) hm
    hm.stored_one fun m₁ e p hp hx hm₁ he => ?_).mono fun r m' ⟨hgrown, hval, horder⟩ =>
      ⟨hgrown, fun a => ?_, horder trivial (Manager.ordered_one m 0)⟩
  · exact grows_bind (Manager.grows_node _ _ _) fun _ => Manager.grows_and _ _
  · refine (Manager.var_spec hm₁ (hv p hp).1 (hv p hp).2).bind (fun _ => Manager.grows_and _ _)
      fun x m₂ ⟨hgrown, hx, horder⟩ => ?_
    have h1 := hm₁.toShaped
    have h2 := hgrown.sound.toShaped
    replace horder := horder.anti (Nat.zero_le _)
    obtain ⟨hlit, hlit'⟩ : m₂.Stored (if truth p then x else -x) ∧
        m₂.Ordered 0 (if truth p then x else -x) := by
      split
      · exact ⟨hgrown.stored, horder⟩
      · exact ⟨hgrown.stored.neg, horder.neg⟩
    refine (Manager.and_spec hgrown.sound (he.mono h1 hgrown.extend) hlit).mono
      fun r m₃ ⟨hgrown', hval, hand⟩ => ⟨hgrown'.after hgrown.extend, fun a => ?_,
        fun _ ho => hand 0 (ho.extends hgrown.extend) hlit'⟩
    rw [hval, Manager.value_extends he h1 h2 hgrown.extend]
    congr 1
    cases truth p with
    | true => simp [hx]
    | false => simp [hx, Manager.value_neg h2 hgrown.stored]
  · rw [hval, Manager.value_one, Bool.true_and]

/-- The condition of a state is true exactly where every variable says what its proposition does. -/
theorem condition_spec (hd : d.Sound) {s : EngineState} {truth : Proposition → Bool}
    (h : ∀ p ∈ l.records, p.atom.holds s = .ok (truth p))
    (hv : ∀ p ∈ l.records, Manager.Call.InOrder p.var) :
    EnsuresFit (l.condition s) d fun e d' => Manager.Grown False d.diagram e d'.diagram ∧
      d'.registry = d.registry ∧ d'.diagram.Ordered 0 e ∧
      ∀ a, d'.diagram.value a e = l.records.all fun p => a p.var == truth p := by
  unfold condition
  rw [foldlM_addCondition h]
  exact (Dictionary.onDiagram_spec (literals_spec hd.diagram hv truth)).mono
    fun e d' ⟨⟨hgrown, hval, horder⟩, hreg⟩ => ⟨hgrown, hreg, horder, hval⟩

/-- Building a condition keeps what building literals and conjunctions keeps. -/
theorem keeps_condition {I : Dictionary → Prop}
    (hvar : ∀ v, Keeps I (Dictionary.onDiagram (Manager.var v)))
    (hand : ∀ f g, Keeps I (Dictionary.onDiagram (Manager.and f g))) (l : PropositionList)
    (s : EngineState) : Keeps I (l.condition s) := by
  refine keeps_foldlM (fun e p => keeps_bind (keeps_bind (hvar _) fun x =>
    keeps_bind (keeps_ofExcept _) fun b => ?_) fun x => hand _ _) _ _
  cases b
  · exact keeps_pure _
  · exact keeps_pure _

theorem grows_condition (l : PropositionList) (s : EngineState) : Grows (l.condition s) :=
  grows_iff.2 fun n => keeps_condition
    (fun _ => grows_iff.1 (Dictionary.grows_onDiagram (Manager.grows_node _ _ _)) n)
    (fun _ _ => grows_iff.1 (Dictionary.grows_onDiagram (Manager.grows_and _ _)) n) l s

end PropositionList

end StateSpace
