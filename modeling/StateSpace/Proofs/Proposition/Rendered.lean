import Mathlib
import StateSpace.Proofs.Diagram.Path
import StateSpace.Proofs.Proposition.Compile

/-!
# Conditions of states

The condition of a state is a conjunction of one literal for each proposition. So the path that is written
out has exactly these literals, in ascending order of variables, whatever order the names were registered
in and whatever else the diagram holds.

1. If every variable of a compiled list is below 2 ^ 31, none was lost to an overflow while its names were
   registered, and the party of the list holds them all (`compile_stands`).
2. The names and propositions have one arrangement by variables (`Legend`), and the literals of the path
   are those of this arrangement (`exists_legend`).
3. A literal is written as the name of its variable, with a mark if it is negative.
-/

namespace StateSpace

open StateSpace.Action

namespace PropositionList

open Manager (literalOf literalVar literalHolds)

variable {n : Network} {d d' : Dictionary} {names : List String} {dead : Option String}
  {l : PropositionList} {o : Owner} {ps : List Proposition} {truth : Proposition → Bool}
  {rows : List (String × Proposition)} {e : Edge}

/-! ## Lists of small variables -/

/-- If no name was rejected, the party holds them all. There was room for each, because its variable is
small. -/
theorem registerAll_stands (hd : d.Sound) (h : registerAll n o names d = .ok (ps, []) d')
    (hv : ∀ p ∈ ps, p.var.toNat < 2 ^ 31) : d'.Sound ∧
      (∀ o name v, d.registry.Holds o name v → d'.registry.Holds o name v) ∧
      List.Forall₂ (Stands n d'.registry o) names ps := by
  induction names generalizing d ps with
  | nil =>
    cases h
    exact ⟨hd, fun _ _ _ h => h, .nil⟩
  | cons name names ih =>
    rw [registerAll] at h
    cases hatom : Atom.parse n name.toList with
    | error e =>
      rw [hatom] at h
      obtain ⟨p, d₁, -, h⟩ := estate_bind_eq_ok.1 h
      cases h
    | ok atom =>
      rw [hatom] at h
      obtain ⟨v, d₁, hregister, h⟩ := estate_bind_eq_ok.1 h
      obtain ⟨⟨ps', ds⟩, d₂, hrest, h⟩ := estate_bind_eq_ok.1 h
      cases h
      obtain ⟨hsmall, hv'⟩ := List.forall_mem_cons.1 hv
      have hroom : v.toNat + 1 < 2 ^ 32 := Nat.lt_trans (Nat.succ_lt_succ hsmall) (by decide)
      have hreg : Registry.Registered d.registry name o v d₁.registry := by
        cases hregister
        exact Registry.registered_of_lt hd.registry hroom
      have hdiag : d₁.diagram = d.diagram := by
        cases hregister
        rfl
      have hd₁ : d₁.Sound := ⟨hdiag ▸ hd.diagram, hreg.valid⟩
      obtain ⟨hd', hholds, hall⟩ := ih hd₁ hrest hv'
      exact ⟨hd', fun o' name' v' h => hholds _ _ _ ((hreg.holds _ _ _).2 (.inl h)),
        .cons ⟨hatom, hholds _ _ _ ((hreg.holds _ _ _).2 (.inr ⟨rfl, rfl, rfl⟩))⟩ hall⟩

theorem compile_stands (hd : d.Sound) (h : compile n names dead d = .ok (.ok l) d')
    (hv : ∀ p ∈ l.records, p.var.toNat < 2 ^ 31) :
    d'.Sound ∧ Compiled n d'.registry (compiledNames names dead) l := by
  obtain ⟨o, d₁, howner, h⟩ := estate_bind_eq_ok.1 h
  have hd₁ : d₁.Sound := by
    cases howner
    exact ⟨hd.diagram, Registry.newOwner_valid hd.registry⟩
  obtain ⟨⟨records, diagnostics⟩, d₂, hall, h⟩ := estate_bind_eq_ok.1 h
  dsimp only at h
  split at h
  · rename_i hempty
    cases h
    rw [List.isEmpty_iff.1 hempty] at hall
    obtain ⟨hd', -, hstands⟩ := registerAll_stands hd₁ hall hv
    exact ⟨hd', hstands⟩
  · obtain ⟨k, d₃, -, h⟩ := estate_bind_eq_ok.1 h
    cases h

/-! ## Names and propositions by variables -/

/-- The rows are the compiled names, each once, with their propositions, in ascending order of
variables. -/
structure Legend (n : Network) (r : Registry) (names : List String) (dead : Option String)
    (l : PropositionList) (rows : List (String × Proposition)) : Prop where
  nodup : (rows.map (·.1)).Nodup
  names : ∀ name, name ∈ rows.map (·.1) ↔ name ∈ names ∧ some name ≠ dead
  records : (rows.map (·.2)).Perm l.records
  stands : ∀ row ∈ rows, Stands n r l.owner row.1 row.2
  ascending : (rows.map (·.2.var)).Pairwise (· < ·)

/-- A row in a condition: the name, with a mark if the proposition does not hold. -/
def marked (truth : Proposition → Bool) (row : String × Proposition) : String :=
  if truth row.2 then row.1 else "!" ++ row.1

/-- The rows as a conjunction. -/
def render (truth : Proposition → Bool) (rows : List (String × Proposition)) : String :=
  if rows.isEmpty then "1" else " & ".intercalate (rows.map (marked truth))

/-- The literal of a row. -/
def rowLiteral (truth : Proposition → Bool) (row : String × Proposition) : Int32 :=
  literalOf row.2.var (truth row.2)

/-- A row for each compiled name is a legend in the order of its variables. -/
theorem legend_of_perm {r : Registry} (hc : Compiled n r (compiledNames names dead) l)
    (hrows : rows.Perm ((compiledNames names dead).zip l.records))
    (hasc : (rows.map (·.2.var)).Pairwise (· < ·)) : Legend n r names dead l rows := by
  have hlength := List.Forall₂.length_eq hc
  have hnames : (rows.map (·.1)).Perm (compiledNames names dead) := by
    have := hrows.map (·.1)
    rwa [List.map_fst_zip (Nat.le_of_eq hlength)] at this
  have hrecords : (rows.map (·.2)).Perm l.records := by
    have := hrows.map (·.2)
    rwa [List.map_snd_zip (Nat.le_of_eq hlength.symm)] at this
  exact {
    nodup := hnames.nodup_iff.2 (compiledNames_nodup names dead)
    names := fun name => hnames.mem_iff.trans mem_compiledNames
    records := hrecords
    stands := fun row hrow => List.forall₂_zip hc (hrows.mem_iff.1 hrow)
    ascending := hasc }

/-- The literals of the propositions, in ascending order of variables, are those of a legend. -/
theorem exists_legend {r : Registry} {lits : List Int32}
    (hc : Compiled n r (compiledNames names dead) l)
    (hv : ∀ p ∈ l.records, p.var.toNat < 2 ^ 31)
    (hlits : lits.Perm (l.records.map fun p => literalOf p.var (truth p)))
    (hasc : (lits.map literalVar).Pairwise (· < ·)) :
    ∃ rows, Legend n r names dead l rows ∧ lits = rows.map (rowLiteral truth) := by
  have hzip : (l.records.map fun p => literalOf p.var (truth p)) =
      ((compiledNames names dead).zip l.records).map (rowLiteral truth) := by
    rw [← List.map_snd_zip (Nat.le_of_eq (List.Forall₂.length_eq hc).symm), List.map_map,
      List.map_snd_zip (Nat.le_of_eq (List.Forall₂.length_eq hc).symm)]
    rfl
  rw [hzip] at hlits
  have hsame : List.Forall₂ (fun lit row => lit = rowLiteral truth row)
      (((compiledNames names dead).zip l.records).map (rowLiteral truth))
      ((compiledNames names dead).zip l.records) :=
    List.forall₂_map_left_iff.2 (List.forall₂_same.2 fun _ _ => rfl)
  obtain ⟨rows, hall, hrows⟩ := List.perm_comp_forall₂ hlits hsame
  have heq : lits = rows.map (rowLiteral truth) := by
    rwa [← List.forall₂_map_right_iff (f := rowLiteral truth), List.forall₂_eq_eq_eq] at hall
  have hvar : lits.map literalVar = rows.map (·.2.var) := by
    rw [heq, List.map_map]
    refine List.map_congr_left fun row hrow => ?_
    have hmem : row.2 ∈ l.records := (List.of_mem_zip (hrows.mem_iff.1 hrow)).2
    exact Manager.literalVar_literalOf (hv _ hmem) _
  exact ⟨rows, legend_of_perm hc hrows (hvar ▸ hasc), heq⟩

/-! ## The text of a condition -/

theorem formatLiteral_rowLiteral {row : String × Proposition} (hr : d.registry.Valid)
    (hrow : d.registry.Holds o row.1 row.2.var) (hv : row.2.var.toNat < 2 ^ 31) :
    d.formatLiteral (rowLiteral truth row) = marked truth row := by
  unfold Dictionary.formatLiteral rowLiteral marked
  dsimp only
  rw [Manager.literalVar_literalOf hv, hrow.nameOf, Option.getD_some]
  cases truth row.2 with
  | true => rw [if_neg (by simp [Manager.literalOf_neg_iff hv (hrow.var_bounds hr).1]), if_pos rfl]
  | false =>
    rw [if_pos ((Manager.literalOf_neg_iff hv (hrow.var_bounds hr).1).2 rfl),
      if_neg Bool.false_ne_true]

theorem formatCondition_eq {lits : List Int32} (h : d.diagram.satisfyingPath e = .ok (some lits))
    (hlits : lits = rows.map (rowLiteral truth))
    (hrows : ∀ row ∈ rows, d.formatLiteral (rowLiteral truth row) = marked truth row) :
    d.formatCondition e = .ok (render truth rows) := by
  have hmap : lits.map d.formatLiteral = rows.map (marked truth) := by
    rw [hlits, List.map_map]
    exact List.map_congr_left hrows
  unfold Dictionary.formatCondition render
  rw [h, ← hmap]
  subst hlits
  cases rows <;> rfl

/-- The function of a condition is the conjunction of its literals. -/
theorem all_literals_eq (hv : ∀ p ∈ ps, p.var.toNat < 2 ^ 31) (h0 : ∀ p ∈ ps, 0 < p.var.toNat)
    (a : UInt32 → Bool) : (ps.all fun p => a p.var == truth p) =
      (ps.map fun p => literalOf p.var (truth p)).all (literalHolds a) := by
  rw [List.all_map, Bool.eq_iff_iff, List.all_eq_true, List.all_eq_true]
  refine forall₂_congr fun p hp => ?_
  rw [Function.comp_apply, Manager.literalHolds_literalOf (hv p hp) (h0 p hp)]

/-- The condition of a state is written with the literals of a legend. -/
theorem condition_text (hd : d.Sound) (hc : Compiled n d.registry (compiledNames names dead) l)
    (hv : ∀ p ∈ l.records, p.var.toNat < 2 ^ 31) {s : EngineState}
    (htruth : ∀ p ∈ l.records, p.atom.holds s = .ok (truth p)) :
    EnsuresFit (l.condition s) d fun e d' => ∃ rows, Legend n d'.registry names dead l rows ∧
      d'.formatCondition e = .ok (render truth rows) := by
  have h0 : ∀ p ∈ l.records, Manager.Call.InOrder p.var := by
    intro p hp
    obtain ⟨name, -, -, hholds⟩ := hc.exists_name hp
    exact hholds.var_bounds hd.registry
  refine (condition_spec hd htruth h0).mono fun e d' ⟨hgrown, hreg, horder, hval⟩ => ?_
  have h' := hgrown.sound.toShaped
  have hcube := fun a => (hval a).trans (all_literals_eq hv (fun p hp => (h0 p hp).1) a)
  have hnodup : ((l.records.map fun p => literalOf p.var (truth p)).map literalVar).Nodup := by
    have hvar : (l.records.map fun p => literalOf p.var (truth p)).map literalVar =
        l.records.map (·.var) := by
      rw [List.map_map]
      exact List.map_congr_left fun p hp => Manager.literalVar_literalOf (hv p hp) _
    rw [hvar]
    exact hc.vars_nodup (compiledNames_nodup names dead)
  have hnarrow : d'.diagram.Narrow e := by
    refine ⟨⟨hgrown.stored, horder⟩, fun a b hab => ?_⟩
    show d'.diagram.value a e = d'.diagram.value b e
    rw [hval, hval, Bool.eq_iff_iff, List.all_eq_true, List.all_eq_true]
    exact forall₂_congr fun p hp => by rw [hab p.var (hv p hp)]
  have hzero : e ≠ .zero := by
    rintro rfl
    obtain ⟨a, ha⟩ := Manager.exists_all_literalHolds hnodup
    exact Bool.false_ne_true ((hcube a).trans ha)
  obtain ⟨lits, hleads⟩ := Manager.exists_leads h' hgrown.stored hzero
  obtain ⟨rows, hlegend, hlits⟩ := exists_legend hc hv (hleads.perm h' hnarrow _ hnodup hcube)
    (hleads.ascending h' hnarrow).2
  rw [← hreg] at hlegend
  refine ⟨rows, hlegend, formatCondition_eq (hleads.satisfyingPath_eq h' hgrown.stored) hlits
    fun row hrow => ?_⟩
  have hmem : row.2 ∈ l.records := hlegend.records.mem_iff.1 (List.mem_map_of_mem hrow)
  exact formatLiteral_rowLiteral (hreg ▸ hd.registry) (hlegend.stands row hrow).2 (hv _ hmem)

/-- Edges that calls return have a path unless they are the constant false. Its variables increase, the
function is true wherever its literals are, and a conjunction of literals has them all on its path. So
the condition of a state is written with one literal for each name of a compiled list, in ascending order
of variables, whatever the dictionary was used for before the list was compiled and since. -/
theorem condition_rendered :
    (∀ (d : Manager) (es : List Edge), Manager.Reached Manager.Call.Signable d es → ∀ f ∈ es,
      ∃ r, d.satisfyingPath f = .ok r ∧ (r = none ↔ ∀ a, d.eval a f = .ok false) ∧
        ∀ lits, r = some lits →
          (∀ k, f.index < k → d.pathWithin k f = .ok lits) ∧ Manager.Implicant d f lits) ∧
    ∀ (n : Network) (names : List String) (dead : Option String) (l : PropositionList)
      (d₀ d₁ d : Dictionary) (s : EngineState), d₀.Reached →
      compile n names dead d₀ = .ok (.ok l) d₁ → Dictionary.Sparing l.owner d₁ d →
      (∀ p ∈ l.records, p.var.toNat < 2 ^ 31) →
      n.processes.size ≤ s.locations.length ∧ n.ints.size ≤ s.ints.length →
      Fits ((l.condition s).after d) →
      ∃ truth e d' rows, (∀ p ∈ l.records, p.atom.holds s = .ok (truth p)) ∧
        l.condition s d = .ok e d' ∧ Legend n d'.registry names dead l rows ∧
        d'.formatCondition e = .ok (render truth rows) := by
  refine ⟨fun d es h f hf => ?_, fun n names dead l d₀ d₁ d s h₀ hcompile hlater hv hs hfit => ?_⟩
  · obtain ⟨hd, hnarrow⟩ := h.narrow
    exact (hnarrow f hf).exists_satisfyingPath hd.toShaped
  · obtain ⟨hd₁, hc₁⟩ := compile_stands h₀.sound hcompile hv
    have hkept := hlater.kept hd₁
    have hc := hc₁.mono (hkept.holds l.owner rfl)
    choose! truth htruth using fun p (hp : p ∈ l.records) =>
      Atom.exists_holds (compile_within hcompile p hp) hs
    obtain ⟨e, d', hrun, rows, hlegend, htext⟩ := condition_text hkept.sound hc hv htruth hfit
    exact ⟨truth, e, d', rows, htruth, hrun, hlegend, htext⟩

/-- Two propositions of which the second one has the smaller variable change places. -/
theorem Legend.eq_swap {r : Registry} {name name' : String} {p p' : Proposition}
    (h : Legend n r [name, name'] dead l rows) (hl : l.records = [p, p']) (hlt : p'.var < p.var)
    (hparse : Atom.parse n name.toList = .ok p.atom)
    (hparse' : Atom.parse n name'.toList = .ok p'.atom) (hne : p.atom ≠ p'.atom) :
    rows = [(name', p'), (name, p)] := by
  have hrecords := h.records
  rw [hl] at hrecords
  obtain ⟨row, row', rfl⟩ := List.length_eq_two.1
    ((List.length_map _).symm.trans hrecords.length_eq)
  have hasc : row.2.var < row'.2.var :=
    (List.pairwise_cons.1 h.ascending).1 _ List.mem_cons_self
  obtain ⟨hrow, hrow'⟩ : row.2 = p' ∧ row'.2 = p := by
    have hmem : row.2 = p ∨ row.2 = p' :=
      List.mem_pair.1 (hrecords.mem_iff.1 List.mem_cons_self)
    have hmem' : row'.2 = p ∨ row'.2 = p' :=
      List.mem_pair.1 (hrecords.mem_iff.1 (List.mem_cons_of_mem _ List.mem_cons_self))
    rcases hmem with hp | hp <;> rcases hmem' with hp' | hp' <;> rw [hp, hp'] at hasc
    · exact absurd hasc (UInt32.lt_irrefl _)
    · exact absurd hlt (UInt32.lt_asymm hasc)
    · exact ⟨hp, hp'⟩
    · exact absurd hasc (UInt32.lt_irrefl _)
  have hname : row.1 = name' := by
    refine (List.mem_pair.1 ((h.names row.1).1 List.mem_cons_self).1).resolve_left fun heq => hne ?_
    have hstands := (h.stands row List.mem_cons_self).1
    rw [heq, hparse, hrow] at hstands
    exact Except.ok.inj hstands
  have hname' : row'.1 = name := by
    have hmem := List.mem_cons_of_mem row (List.mem_singleton_self row')
    refine (List.mem_pair.1 ((h.names row'.1).1 (List.mem_map_of_mem hmem)).1).resolve_right
      fun heq => hne ?_
    have hstands := (h.stands row' hmem).1
    rw [heq, hparse', hrow'] at hstands
    exact (Except.ok.inj hstands).symm
  rw [← hrow, ← hrow', ← hname, ← hname']

/-- A party registers one of two names, and a list has the other one before it. -/
theorem exists_shared : ∃ (ints : NameTable) (d₀ d₁ : Dictionary) (l : PropositionList),
    NameTable.add? {} "x" = some (0, ints) ∧
    Atom.parse { name := "counter", ints } "x == 1".toList = .ok (.compare 0 .eq 1) ∧
    Atom.parse { name := "counter", ints } "x > 0".toList = .ok (.compare 0 .gt 0) ∧
    d₀.Reached ∧ d₀.registry.entries = [(1, "x > 0", [⟨1⟩])] ∧
    compile { name := "counter", ints } ["x == 1", "x > 0"] none d₀ = .ok (.ok l) d₁ ∧
    l.records = [⟨.compare 0 .eq 1, 2⟩, ⟨.compare 0 .gt 0, 1⟩] ∧
    Fits ((l.condition (.configuration ⟨[], [2]⟩)).after d₁) := by
  obtain ⟨ints, hints, hfirst, hsecond⟩ : ∃ ints, NameTable.add? {} "x" = some (0, ints) ∧
      Atom.parse { name := "counter", ints } "x == 1".toList = .ok (.compare 0 .eq 1) ∧
      Atom.parse { name := "counter", ints } "x > 0".toList = .ok (.compare 0 .gt 0) :=
    ⟨_, rfl, by decide +kernel, by decide +kernel⟩
  obtain ⟨d, hd, hfit, hreg⟩ : ∃ d, Dictionary.create 4 = .ok d ∧ Fits d ∧
      d.registry = {} := ⟨_, rfl, show 1 < 2 ^ 31 by decide, rfl⟩
  obtain ⟨m, r⟩ := d
  cases hreg
  have hentries : ((Registry.newOwner {}).2.register "x > 0" ⟨1⟩).2.entries =
      [(1, "x > 0", [⟨1⟩])] := by decide +kernel
  obtain ⟨r₀, hr₀⟩ : ∃ r, r = ((Registry.newOwner {}).2.register "x > 0" ⟨1⟩).2 := ⟨_, rfl⟩
  have h₀ : Dictionary.Reached ⟨m, r₀⟩ := hr₀ ▸
    .request (q := .register "x > 0" ⟨1⟩) (.request (q := .newOwner) (.create hd) trivial rfl hfit)
      (Nat.le_of_ble_eq_true rfl) rfl hfit
  obtain ⟨r₁, hr₁⟩ : ∃ r, r = (r₀.newOwner.2.register "x == 1" ⟨2⟩).2 := ⟨_, rfl⟩
  have hcompile : compile { name := "counter", ints } ["x == 1", "x > 0"] none ⟨m, r₀⟩ =
        .ok (.ok ⟨⟨2⟩, [⟨.compare 0 .eq 1, 2⟩, ⟨.compare 0 .gt 0, 1⟩]⟩)
          ⟨m, (r₁.register "x > 0" ⟨2⟩).2⟩ := by
    have hnames : ((distinctNames ["x == 1", "x > 0"]).filter fun name => some name ≠ none) =
        ["x == 1", "x > 0"] := by decide
    have howner : r₀.newOwner.1 = ⟨2⟩ := by rw [hr₀]; decide +kernel
    have hvar : (r₀.newOwner.2.register "x == 1" ⟨2⟩).1 = 2 := by rw [hr₀]; decide +kernel
    have hvar' : (r₁.register "x > 0" ⟨2⟩).1 = 1 := by rw [hr₁, hr₀]; decide +kernel
    have hreg : Dictionary.register "x == 1" ⟨2⟩ ⟨m, r₀.newOwner.2⟩ = .ok 2 ⟨m, r₁⟩ := by
      rw [hr₁, ← hvar]
      rfl
    have hreg' : Dictionary.register "x > 0" ⟨2⟩ ⟨m, r₁⟩ =
        .ok 1 ⟨m, (r₁.register "x > 0" ⟨2⟩).2⟩ := by
      rw [← hvar']
      rfl
    have hnew : Dictionary.newOwner ⟨m, r₀⟩ = .ok ⟨2⟩ ⟨m, r₀.newOwner.2⟩ := by
      rw [← howner]
      rfl
    have hlast : registerAll { name := "counter", ints } ⟨2⟩ ["x > 0"] ⟨m, r₁⟩ =
        .ok ([⟨.compare 0 .gt 0, 1⟩], []) ⟨m, (r₁.register "x > 0" ⟨2⟩).2⟩ := by
      simp only [registerAll, hsecond]
      exact bind_ok hreg' _
    have hall : registerAll { name := "counter", ints } ⟨2⟩ ["x == 1", "x > 0"]
        ⟨m, r₀.newOwner.2⟩ = .ok ([⟨.compare 0 .eq 1, 2⟩, ⟨.compare 0 .gt 0, 1⟩], [])
          ⟨m, (r₁.register "x > 0" ⟨2⟩).2⟩ := by
      rw [registerAll, hfirst]
      exact (bind_ok hreg _).trans (bind_ok hlast _)
    unfold compile
    rw [bind_ok hnew, hnames, bind_ok hall]
    rfl
  have htruth : ∀ p ∈ ([⟨.compare 0 .eq 1, 2⟩, ⟨.compare 0 .gt 0, 1⟩] : List Proposition),
      p.atom.holds (.configuration ⟨[], [2]⟩) = .ok (p.var == 1) :=
    List.forall_mem_cons.2 ⟨rfl, List.forall_mem_singleton.2 rfl⟩
  have hcells : ((Dictionary.create 4).toOption.any fun d => decide (HasCells.cells
      ((literals (fun p => p.var == 1) [⟨.compare 0 .eq 1, 2⟩, ⟨.compare 0 .gt 0, 1⟩] .one).after
        d.diagram) < 2 ^ 31)) = true := by cbv
  rw [hd, Except.toOption, Option.any_some, decide_eq_true_iff] at hcells
  refine ⟨ints, _, _, _, hints, hfirst, hsecond, h₀, hr₀ ▸ hentries, hcompile, rfl, ?_⟩
  unfold condition
  rw [foldlM_addCondition htruth, Dictionary.onDiagram_after]
  exact hcells

/-- The path of a variable is its literal. Of two names the second one has the smaller variable, because
another party registered it first, and so it comes first in the text. -/
theorem condition_rendered_shared :
    (∃ d x, Manager.Reached Manager.Call.Signable d [x, .one, .zero] ∧
      d.satisfyingPath x = .ok (some [7])) ∧
    ∃ (ints : NameTable) (d₀ d₁ d' : Dictionary) (l : PropositionList) (e : Edge),
      NameTable.add? {} "x" = some (0, ints) ∧ d₀.Reached ∧
      d₀.registry.entries = [(1, "x > 0", [⟨1⟩])] ∧
      compile { name := "counter", ints } ["x == 1", "x > 0"] none d₀ = .ok (.ok l) d₁ ∧
      l.condition (.configuration ⟨[], [2]⟩) d₁ = .ok e d' ∧
      d'.formatCondition e = .ok "x > 0 & !x == 1" := by
  constructor
  · obtain ⟨d, x, hreached, -, hx⟩ := Manager.reached_var (v := 7) (by decide)
    have hsignable : Manager.Reached Manager.Call.Signable d [x, .one, .zero] := hreached.mono (by
      rintro c rfl
      exact ⟨by decide, by decide⟩)
    obtain ⟨r, hr, hnone, hsome⟩ := condition_rendered.1 d _ hsignable x List.mem_cons_self
    refine ⟨d, x, hsignable, ?_⟩
    cases r with
    | none =>
      have := (hnone.1 rfl fun _ => true).symm.trans (hx _)
      cases this
    | some lits =>
      have hperm : lits.Perm [7] := (hsome lits rfl).2.cube [7] (by decide) fun a => by
        rw [hx]
        exact congrArg Except.ok (Bool.and_true _).symm
      rw [hr, List.perm_singleton.1 hperm]
  · obtain ⟨ints, d₀, d₁, l, hints, hfirst, hsecond, h₀, hentries, hcompile, hrecords, hfit⟩ :=
      exists_shared
    have hv : ∀ p ∈ l.records, p.var.toNat < 2 ^ 31 := by
      rw [hrecords]
      simp
    obtain ⟨truth, e, d', rows, htruth, hcondition, hlegend, htext⟩ := condition_rendered.2 _ _ _ l
      d₀ d₁ d₁ (.configuration ⟨[], [2]⟩) h₀ hcompile .refl hv
      ⟨Nat.le_refl 0, Nat.le_of_eq (NameTable.size_add? hints)⟩ hfit
    have hheld : truth ⟨.compare 0 .gt 0, 1⟩ = true :=
      Except.ok.inj ((htruth _ (by simp [hrecords])).symm.trans rfl)
    have hfailed : truth ⟨.compare 0 .eq 1, 2⟩ = false :=
      Except.ok.inj ((htruth _ (by simp [hrecords])).symm.trans rfl)
    rw [hlegend.eq_swap hrecords (by decide) hfirst hsecond (by decide)] at htext
    refine ⟨ints, d₀, d₁, d', l, e, hints, h₀, hentries, hcompile, hcondition, ?_⟩
    rw [htext]
    simp only [render, marked, List.map_cons, hheld, hfailed]
    rfl

end PropositionList

end StateSpace
