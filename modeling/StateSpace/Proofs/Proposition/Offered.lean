import StateSpace.Network.Summary
import StateSpace.Proofs.Network.Parse
import StateSpace.Proofs.Proposition.Grammar

/-!
# Names that are offered

A network offers the names of its locations and variables for use in propositions. Declarations let in
names that the grammar of propositions does not: a gap is dropped from a name, a comparison ends it, the
last dot divides it, and variables come first. So an offered name is read as what it is offered for
exactly if none of this interferes.
-/

namespace StateSpace.Network

open Atom

variable {n : Network} {name process : String} {l : Location} {var : Nat}

/-- The name has neither gaps nor characters that start a comparison. -/
def Plain (name : String) : Prop :=
  ∀ c ∈ name.toList, isGap c = false ∧ isComparison c = false

instance : Decidable (Plain name) := List.decidableBAll _ name.toList

theorem Plain.spells (h : Plain name) (hne : name ≠ "") : Spells name.toList name.toList where
  plain c hc := (h c hc).2
  filter := List.filter_eq_self.2 fun c hc => by simp [(h c hc).1]
  ne_nil heq := hne (String.toList_eq_nil_iff.1 heq)

/-- A name that spells itself is plain. -/
theorem plain_of_spells (h : Spells name.toList name.toList) : Plain name := by
  intro c hc
  have hgap := List.filter_eq_self.1 h.filter c hc
  exact ⟨by simpa using hgap, h.plain c hc⟩

theorem plain_append (s t : String) : Plain (s ++ t) ↔ Plain s ∧ Plain t := by
  unfold Plain
  rw [String.toList_append, List.forall_mem_append]

theorem eq_toList {cs : List Char} (h : String.ofList cs = name) : cs = name.toList := by
  rw [← h, String.toList_ofList]

/-- A variable is read off its name exactly if the name is plain. -/
theorem parse_variable_iff (hvar : n.ints.get? var = some name) :
    Atom.parse n name.toList = .ok (.compare var .ne 0) ↔ name ≠ "" ∧ Plain name := by
  constructor
  · intro h
    generalize htext : name.toList = text at h
    cases parse_eq_ok_iff.1 h with
    | nonzero hs hname =>
      obtain rfl := eq_toList (Option.some.inj (hname.symm.trans hvar))
      subst htext
      exact ⟨fun heq => hs.ne_nil (String.toList_eq_nil_iff.2 heq), plain_of_spells hs⟩
    | @compared subject name' gaps sgn digits trail _ _ _ hs hname _ _ hne _ _ _ =>
      -- the name would be as long as the text in front of the comparison at most
      obtain rfl := eq_toList (Option.some.inj (hname.symm.trans hvar))
      have hlen := List.length_filter_le (!isGap ·) subject
      have hdigits := List.length_pos_iff.2 hne
      rw [hs.filter, htext] at hlen
      simp only [List.length_append] at hlen
      omega
  · rintro ⟨hne, hplain⟩
    refine parse_eq_ok_iff.2 (.nonzero (hplain.spells hne) ?_)
    rw [String.ofList_toList]
    exact hvar

/-- A location is read off its name exactly if the name is plain, has no dot and is not a variable. -/
theorem parse_location_iff (h : n.Coherent) (hl : l ∈ n.locations)
    (hprocess : n.processes.get? l.process = some process) :
    Atom.parse n (process ++ "." ++ l.name).toList = .ok (.atLocation l.process l.id) ↔
      Plain process ∧ Plain l.name ∧ '.' ∉ l.name.toList ∧
        n.ints.find? (process ++ "." ++ l.name) = none := by
  obtain ⟨i, hi⟩ := Array.mem_iff_getElem?.1 hl
  obtain rfl := (h.location i l hi).id
  have htext : (process ++ "." ++ l.name).toList = process.toList ++ '.' :: l.name.toList := by
    simp
  have hplain : Plain (process ++ "." ++ l.name) ↔ Plain process ∧ Plain l.name := by
    rw [plain_append, plain_append, and_assoc, and_congr_right_iff]
    exact fun _ => and_iff_right (by decide)
  constructor
  · intro hparse
    generalize hcs : (process ++ "." ++ l.name).toList = cs at hparse
    cases parse_eq_ok_iff.1 hparse with
    | @located _ process' location' _ _ hs hlast hnot hprocess' hlocation =>
      obtain rfl := eq_toList (Option.some.inj (hprocess'.symm.trans hprocess))
      obtain ⟨l', hl', -, hname⟩ := h.findLocation?_eq_some_iff.1 hlocation
      obtain rfl := Option.some.inj (hl'.symm.trans hi)
      obtain rfl := eq_toList hname.symm
      rw [← htext] at hs hnot
      subst hcs
      have hboth := hplain.1 (plain_of_spells hs)
      refine ⟨hboth.1, hboth.2, hlast, Option.eq_none_iff_forall_ne_some.2 fun var hvar => ?_⟩
      refine hnot var ?_
      rw [String.ofList_toList]
      exact (n.ints.inverse _ _).1 hvar
  · rintro ⟨hp, hn, hlast, hnone⟩
    have hs := (hplain.2 ⟨hp, hn⟩).spells fun heq => by simpa [heq] using htext.symm
    rw [htext] at hs ⊢
    refine parse_eq_ok_iff.2 (.located hs hlast (fun var hvar => ?_) ?_ ?_)
    · rw [← htext, String.ofList_toList] at hvar
      rw [NameTable.find?, (n.ints.inverse _ _).2 hvar] at hnone
      cases hnone
    · rw [String.ofList_toList]
      exact hprocess
    · rw [String.ofList_toList]
      exact h.findLocation?_eq_some_iff.2 ⟨l, hi, rfl, rfl⟩

/-- What a network offers is read as what it is offered for exactly if the name is plain and, for a
location, the last part of it has no dot and no variable is called the same. -/
theorem offered_usable_iff (h : n.Coherent) :
    (∀ l ∈ n.locations, ∃ process text, n.processes.get? l.process = some process ∧
      n.locationLine l = "- " ++ text ++ "\n" ∧ text = process ++ "." ++ l.name ∧
      (Atom.parse n text.toList = .ok (.atLocation l.process l.id) ↔
        Plain process ∧ Plain l.name ∧ '.' ∉ l.name.toList ∧ n.ints.find? text = none)) ∧
    ∀ var name, n.ints.get? var = some name →
      (Atom.parse n name.toList = .ok (.compare var .ne 0) ↔ name ≠ "" ∧ Plain name) := by
  refine ⟨fun l hl => ?_, fun var name hvar => parse_variable_iff hvar⟩
  obtain ⟨i, hi⟩ := Array.mem_iff_getElem?.1 hl
  obtain ⟨process, hprocess⟩ : ∃ process, n.processes.get? l.process = some process :=
    ⟨_, Array.getElem?_eq_getElem (h.location i l hi).process⟩
  refine ⟨process, _, hprocess, ?_, rfl, parse_location_iff h hl hprocess⟩
  unfold locationLine
  rw [hprocess, Option.getD_some]
  simp only [String.append_assoc]

/-- A location behind two dots and a variable are read off their names. -/
theorem offered_usable_dots : ∃ (source : String) (n : Network) (l : Location), parse source = .ok (n, []) ∧
    n.locationLine l = "- P.1.c\n" ∧
    Atom.parse n "P.1.c".toList = .ok (.atLocation 0 0) ∧
    Atom.parse n "z".toList = .ok (.compare 0 .ne 0) := by
  obtain ⟨⟨n, ws⟩, hn, hfacts⟩ := exists_ok_of_any
    (x := parse "system:s\nprocess:P.1\nlocation:P.1:c\nint:1:0:3:0:z")
    (p := fun r => r.2 = [] ∧ r.1.processes.get? 0 = some "P.1" ∧ r.1.ints.get? 0 = some "z" ∧
      r.1.locations[0]? = some { id := 0, process := 0, name := "c" } ∧
      r.1.ints.find? "P.1.c" = none) (by decide +kernel)
  obtain ⟨rfl, hprocess, hvar, hlocation, hnone⟩ := of_decide_eq_true hfacts
  obtain ⟨hlocations, hvariables⟩ := offered_usable_iff (parse_valid hn).toCoherent
  obtain ⟨process, text, hp, hline, rfl, hiff⟩ := hlocations _ (Array.mem_of_getElem? hlocation)
  obtain rfl := Option.some.inj (hprocess.symm.trans hp)
  exact ⟨_, n, _, hn, hline, hiff.2 ⟨by decide, by decide, by decide, hnone⟩,
    (hvariables 0 "z" hvar).2 ⟨by decide, by decide⟩⟩

/-- A variable with a gap in its name is offered, but its name is read without the gap. -/
theorem offered_unusable : ∃ (n : Network),
    parse "system:s\nprocess:P\nlocation:P:l\nint:1:0:3:0:a b" = .ok (n, []) ∧
    n.offer = "The following location(s) may be used in the formula:\n- P.l\n" ++
      "The following variable(s) may be used in the formula:\n- a b (0..3)\n" ∧
    n.ints.get? 0 = some "a b" ∧
    Atom.parse n "a b".toList = .error (.unknownSubject "ab" "a b") := by
  obtain ⟨⟨n, ws⟩, hn, hfacts⟩ := exists_ok_of_any
    (x := parse "system:s\nprocess:P\nlocation:P:l\nint:1:0:3:0:a b")
    (p := fun r => r.2 = [] ∧ r.1.offer = "The following location(s) may be used in the formula:\n" ++
      "- P.l\nThe following variable(s) may be used in the formula:\n- a b (0..3)\n" ∧
      r.1.ints.get? 0 = some "a b" ∧
      Atom.parse r.1 "a b".toList = .error (.unknownSubject "ab" "a b")) (by decide +kernel)
  obtain ⟨rfl, hoffer, hvar, hparse⟩ := of_decide_eq_true hfacts
  exact ⟨n, hn, hoffer, hvar, hparse⟩

end StateSpace.Network
