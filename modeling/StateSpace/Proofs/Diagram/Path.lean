import StateSpace.Proofs.Diagram.Literals
import StateSpace.Proofs.Dictionary.Requests

/-!
# Conditions as text

A walk to the constant true depends on the function alone: edges in order for the same function have the
same path, also in different managers. So a condition has one text.
-/

namespace StateSpace

namespace Manager

variable {ordered ordered' : Prop} {d d' : Manager} {e f : Edge} {n m : Node} {lits : List Int32}

/-! ## Paths of equal functions -/

theorem Tidy.eq_one_congr (hd : Shaped ordered d) (hd' : Shaped ordered' d') (he : d.Tidy e)
    (hf : d'.Tidy f) (hval : ∀ a, d.value a e = d'.value a f) : e = .one ↔ f = .one := by
  constructor
  · rintro rfl
    exact hf.eq_of_value_eq hd' hd'.tidy_one fun a => (hval a).symm
  · rintro rfl
    exact he.eq_of_value_eq hd hd.tidy_one hval

theorem Tidy.eq_zero_congr (hd : Shaped ordered d) (hd' : Shaped ordered' d') (he : d.Tidy e)
    (hf : d'.Tidy f) (hval : ∀ a, d.value a e = d'.value a f) : e = .zero ↔ f = .zero := by
  constructor
  · rintro rfl
    exact hf.eq_of_value_eq hd' hd'.tidy_zero fun a => (hval a).symm
  · rintro rfl
    exact he.eq_of_value_eq hd hd.tidy_zero hval

/-- Edges for the same function decide on the same variable, between the same functions. -/
theorem child_congr (hd : Shaped ordered d) (hd' : Shaped ordered' d') (he : d.Tidy e)
    (hf : d'.Tidy f) (hval : ∀ a, d.value a e = d'.value a f) (h1 : e.index ≠ 1) (h1' : f.index ≠ 1)
    (hn : d.nodes.value? e.index = some n) (hm : d'.nodes.value? f.index = some m) :
    n.var = m.var ∧
      ∀ c a, d.value a (signed e (child n c)) = d'.value a (signed f (child m c)) := by
  have hle := rank_le_of_value_eq hd hd' he hf hval fun _ _ hc hc' _ _ => hc.eq_of_value_eq hd hc'
  have hge := rank_le_of_value_eq hd' hd hf he (fun a => (hval a).symm)
    fun _ _ hc hc' _ _ => hc.eq_of_value_eq hd' hc'
  rw [rank_node h1 hn, rank_node h1' hm] at hle hge
  have hvar : n.var = m.var := UInt32.toNat_inj.1 (Nat.le_antisymm hge hle)
  refine ⟨hvar, fun c a => ?_⟩
  rw [value_child hd he h1 hn, value_child hd' hf h1' hm, hval, hvar]

/-- Edges for the same function have the same walk, wherever they are stored. -/
theorem Leads.congr (hd : Shaped ordered d) (hd' : Shaped ordered' d') (he : d.Tidy e)
    (hf : d'.Tidy f) (hval : ∀ a, d.value a e = d'.value a f) (h : d.Leads e lits) :
    d'.Leads f lits := by
  induction h generalizing f with
  | one =>
    rw [(he.eq_one_congr hd hd' hf hval).1 rfl]
    exact .one
  | @node e n lits h1 hn h ih =>
    have h1' : f.index ≠ 1 := by
      intro h1'
      rcases Edge.eq_one_or_eq_zero h1' with hone | hzero
      · exact h1 (by rw [(he.eq_one_congr hd hd' hf hval).2 hone]; rfl)
      · exact h1 (by rw [(he.eq_zero_congr hd hd' hf hval).2 hzero]; rfl)
    have hs := hd.nodeShaped he.stored h1 hn
    obtain ⟨m, hm, hs'⟩ := hd'.exists_node hf.stored h1'
    obtain ⟨hvar, hchild⟩ := child_congr hd hd' he hf hval h1 h1' hn hm
    have hchildren := fun c => he.child hs h1 hn c
    have hchildren' := fun c => hf.child hs' h1' hm c
    have hside : takesHigh e n = takesHigh f m := decide_eq_decide.2
      ((hchildren true).eq_zero_congr hd hd' (hchildren' true) (hchild true)).not
    have hnext : ∀ a, d.value a (next e n) = d'.value a (next f m) := by
      unfold next
      rw [hside]
      exact hchild _
    rw [hvar, hside]
    exact .node h1' hm (ih (hchildren _) (hchildren' _) hnext)

theorem satisfyingPath_congr (hd : Shaped ordered d) (hd' : Shaped ordered' d') (he : d.Tidy e)
    (hf : d'.Tidy f) (hval : ∀ a, d.value a e = d'.value a f) :
    d.satisfyingPath e = d'.satisfyingPath f := by
  by_cases h : e = .zero
  · have hzero := (he.eq_zero_congr hd hd' hf hval).1 h
    rw [satisfyingPath, satisfyingPath, if_pos h, if_pos hzero]
  · obtain ⟨lits, hleads⟩ := exists_leads hd he.stored h
    rw [hleads.satisfyingPath_eq hd he.stored,
      (hleads.congr hd hd' he hf hval).satisfyingPath_eq hd' hf.stored]

end Manager

/-- Every stored edge has a text. -/
theorem Dictionary.exists_formatCondition {d : Dictionary} {e : Edge} (hd : d.Sound)
    (he : d.diagram.Stored e) : ∃ t, d.formatCondition e = .ok t := by
  have hpath : ∃ r, d.diagram.satisfyingPath e = .ok r := by
    by_cases hzero : e = .zero
    · exact ⟨none, if_pos hzero⟩
    · obtain ⟨lits, hleads⟩ := Manager.exists_leads hd.diagram.toShaped he hzero
      exact ⟨_, hleads.satisfyingPath_eq hd.diagram.toShaped he⟩
  obtain ⟨r, hr⟩ := hpath
  unfold Dictionary.formatCondition
  rw [hr]
  match r with
  | none => exact ⟨_, rfl⟩
  | some [] => exact ⟨_, rfl⟩
  | some (_ :: _) => exact ⟨_, rfl⟩

/-! ## The text of a condition -/

/-- The edge is in order, and true where `holds` says so. -/
structure Manager.Decides (d : Manager) (e : Edge) (holds : (UInt32 → Bool) → Prop) : Prop
    extends d.Tidy e where
  value : ∀ a, d.value a e = true ↔ holds a

theorem Manager.Decides.extends {ordered ordered' : Prop} {d d' : Manager} {e : Edge}
    {holds : (UInt32 → Bool) → Prop} (h : d.Decides e holds) (hd : Shaped ordered d)
    (hd' : Shaped ordered' d') (hx : Extends d d') : d'.Decides e holds where
  toTidy := h.toTidy.extends hd hx
  value a := by rw [value_extends h.stored hd hd' hx, h.value]

/-- Where variables have these names, the text is how an edge is written that is true where `holds`
says so. -/
def Registry.Writes (r : Registry) (holds : (UInt32 → Bool) → Prop) (text : String) : Prop :=
  ∃ (d : Dictionary) (e : Edge), d.Sound ∧ d.registry = r ∧ d.diagram.Decides e holds ∧
    d.formatCondition e = .ok text

theorem Dictionary.Sound.exists_writes {d : Dictionary} {e : Edge}
    {holds : (UInt32 → Bool) → Prop} (hd : d.Sound) (he : d.diagram.Decides e holds) :
    ∃ t, d.formatCondition e = .ok t ∧ d.registry.Writes holds t := by
  obtain ⟨t, ht⟩ := Dictionary.exists_formatCondition hd he.stored
  exact ⟨t, ht, d, e, hd, rfl, he, ht⟩

/-- A condition has one text, whatever else the dictionary stores. -/
theorem Registry.Writes.unique {r : Registry} {holds : (UInt32 → Bool) → Prop} {t t' : String}
    (h : r.Writes holds t) (h' : r.Writes holds t') : t = t' := by
  obtain ⟨d, e, hd, rfl, he, htext⟩ := h
  obtain ⟨d', e', hd', hreg, he', htext'⟩ := h'
  have hpath := Manager.satisfyingPath_congr hd.diagram.toShaped hd'.diagram.toShaped he.toTidy
    he'.toTidy fun a => Bool.eq_iff_iff.2 ((he.value a).trans (he'.value a).symm)
  have hliteral : d'.formatLiteral = d.formatLiteral := by
    unfold Dictionary.formatLiteral
    rw [hreg]
  unfold Dictionary.formatCondition at htext htext'
  rw [← hpath, hliteral] at htext'
  exact Except.ok.inj (htext.symm.trans htext')

end StateSpace
