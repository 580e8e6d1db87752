import StateSpace.Proofs.Engine.Graph
import StateSpace.Proofs.Network.Additions

/-!
# Marks that are left behind

A refused synchronisation leaves marks behind. Edges whose events are marked are no longer offered
alone, so the network loses steps by a request that it turned down; nothing else changes.
-/

namespace StateSpace.Network

variable {n n' : Network} {kept : List (Nat × Nat)}

/-! ## What marks change -/

theorem isSynchronized_mark {p e : Nat} : (n.mark kept).isSynchronized p e = true ↔
    n.isSynchronized p e = true ∨ (p, e) ∈ kept := by
  unfold isSynchronized mark
  simp only [List.contains_iff_mem]
  induction kept generalizing n with
  | nil => simp
  | cons c kept ih =>
    rw [List.foldl_cons, ih (n := { n with synchronized := n.synchronized.insert c }),
      List.mem_insert_iff, List.mem_cons, or_left_comm, or_assoc, eq_comm]

theorem fire_mark (c es) : (n.mark kept).fire c es = n.fire c es := by
  have hupdate : ∀ row us, (n.mark kept).updateAll row us = n.updateAll row us := by
    intro row us
    induction us generalizing row with
    | nil => rfl
    | cons u us ih =>
      have hone : (n.mark kept).update row u = n.update row u := rfl
      simp only [updateAll, hone, ih]
  have hinvariants : ∀ row ls, (n.mark kept).invariantsHold row ls = n.invariantsHold row ls := by
    intro row ls
    induction ls with
    | nil => rfl
    | cons l ls ih =>
      have hlocations : (n.mark kept).locations = n.locations := rfl
      simp only [invariantsHold, hlocations, ih]
  simp only [fire, hupdate, hinvariants]

theorem syncEdges_mark (ls ss) : (n.mark kept).syncEdges ls ss = n.syncEdges ls ss := by
  have hedges : ∀ l, (n.mark kept).edgesFrom l = n.edgesFrom l := fun _ => rfl
  have hjoint : ∀ chosen s, (n.mark kept).jointEdges ls chosen s = n.jointEdges ls chosen s := by
    intro chosen s
    induction s generalizing chosen with
    | nil => rfl
    | cons a s ih => simp only [jointEdges, hedges, ih]
  induction ss with
  | nil => rfl
  | cons s ss ih => simp only [syncEdges, hjoint, ih]

/-- From one list of choices to another, only single edges of the given processes and events are
left out. -/
structure LeavesOut (kept : List (Nat × Nat)) (ess ess' : List (List Edge)) : Prop where
  sublist : ess'.Sublist ess
  missing : ∀ es ∈ ess, es ∈ ess' ∨ ∃ p e, es = [e] ∧ (p, e.event) ∈ kept

theorem LeavesOut.append {xs xs' ys ys' : List (List Edge)} (hx : LeavesOut kept xs xs')
    (hy : LeavesOut kept ys ys') : LeavesOut kept (xs ++ ys) (xs' ++ ys') where
  sublist := hx.sublist.append hy.sublist
  missing es hes := by
    rcases List.mem_append.1 hes with hes | hes
    · exact (hx.missing es hes).imp_left (List.mem_append_left _)
    · exact (hy.missing es hes).imp_left (List.mem_append_right _)

theorem LeavesOut.filter {xs xs' : List (List Edge)} (h : LeavesOut kept xs xs')
    (p : List Edge → Bool) : LeavesOut kept (xs.filter p) (xs'.filter p) where
  sublist := h.sublist.filter p
  missing es hes := by
    obtain ⟨hmem, hp⟩ := List.mem_filter.1 hes
    exact (h.missing es hmem).imp_left fun hmem' => List.mem_filter.2 ⟨hmem', hp⟩

theorem leavesOut_refl (ess : List (List Edge)) : LeavesOut kept ess ess :=
  ⟨.refl _, fun _ h => .inl h⟩

/-- Marked edges are no longer offered alone. -/
theorem soloEdges_mark (n : Network) (kept : List (Nat × Nat)) (p : Nat) (ls : List Nat) :
    (∃ f, n.soloEdges p ls = .error f ∧ (n.mark kept).soloEdges p ls = .error f) ∨
    ∃ ess ess', n.soloEdges p ls = .ok ess ∧ (n.mark kept).soloEdges p ls = .ok ess' ∧
      LeavesOut kept ess ess' := by
  induction ls generalizing p with
  | nil => exact .inr ⟨[], [], rfl, rfl, leavesOut_refl []⟩
  | cons l ls ih =>
    have hedges : (n.mark kept).edgesFrom l = n.edgesFrom l := rfl
    simp only [soloEdges, hedges]
    cases hes : n.edgesFrom l with
    | error f => exact .inl ⟨f, rfl, rfl⟩
    | ok es =>
      obtain ⟨f, hf, hf'⟩ | ⟨rest, rest', hrest, hrest', hout⟩ := ih (p + 1)
      · exact .inl ⟨f, by rw [hf]; rfl, by rw [hf']; rfl⟩
      · refine .inr ⟨_, _, by rw [hrest]; rfl, by rw [hrest']; rfl, .append ⟨?_, ?_⟩ hout⟩
        · refine List.Sublist.map _ (List.monotone_filter_right _ fun e he => ?_)
          rw [Bool.not_eq_true', Bool.eq_false_iff] at he ⊢
          exact fun hn => he (isSynchronized_mark.2 (.inl hn))
        · intro es hes
          obtain ⟨e, he, rfl⟩ := List.mem_map.1 hes
          obtain ⟨hmem, hfree⟩ := List.mem_filter.1 he
          by_cases hkept : (p, e.event) ∈ kept
          · exact .inr ⟨p, e, rfl, hkept⟩
          · refine .inl (List.mem_map_of_mem (List.mem_filter.2 ⟨hmem, ?_⟩))
            rw [Bool.not_eq_true', Bool.eq_false_iff] at hfree ⊢
            exact fun hm => (isSynchronized_mark.1 hm).elim hfree hkept

theorem candidates_mark (n : Network) (kept : List (Nat × Nat)) (c : Configuration) :
    (∃ f, n.candidates c = .error f ∧ (n.mark kept).candidates c = .error f) ∨
    ∃ ess ess', n.candidates c = .ok ess ∧ (n.mark kept).candidates c = .ok ess' ∧
      LeavesOut kept ess ess' := by
  have hcommitted : ∀ l, (n.mark kept).isCommitted l = n.isCommitted l := fun _ => rfl
  have hsyncs : (n.mark kept).syncs = n.syncs := rfl
  unfold candidates
  simp only [syncEdges_mark, hcommitted, hsyncs]
  obtain ⟨f, hf, hf'⟩ | ⟨solo, solo', hsolo, hsolo', hout⟩ :=
    soloEdges_mark n kept 0 c.locations
  · exact .inl ⟨f, by rw [hf]; rfl, by rw [hf']; rfl⟩
  · rw [hsolo, hsolo']
    cases hjoint : n.syncEdges c.locations n.syncs with
    | error f => exact .inl ⟨f, rfl, rfl⟩
    | ok joint =>
      have hall := hout.append (leavesOut_refl joint)
      by_cases hany : c.locations.any n.isCommitted = true
      · refine .inr ⟨_, _, ?_, ?_, hall.filter fun es => es.any fun e => n.isCommitted e.source⟩
        · exact if_pos hany
        · exact if_pos hany
      · exact .inr ⟨_, _, if_neg hany, if_neg hany, hall⟩

/-- Marking takes steps away, and only such as take a single edge whose event is now marked. -/
theorem steps_mark (kept : List (Nat × Nat)) (c : Configuration) :
    ((n.mark kept).steps c).Sublist (n.steps c) ∧
    ∀ x ∈ n.steps c, x ∈ (n.mark kept).steps c ∨
      ∃ p e, x.2 = [Edge.id e] ∧ (p, e.event) ∈ kept := by
  have htarget : ∀ es, (n.mark kept).target? c es = n.target? c es := by
    intro es
    unfold target?
    rw [fire_mark]
  unfold steps
  simp only [htarget]
  obtain ⟨f, hf, hf'⟩ | ⟨ess, ess', hess, hess', hout⟩ := candidates_mark n kept c
  · rw [hf, hf']
    exact ⟨.refl _, fun _ h => .inl h⟩
  · rw [hess, hess']
    refine ⟨hout.sublist.filterMap _, fun x hx => ?_⟩
    obtain ⟨es, hes, hx⟩ := List.mem_filterMap.1 hx
    obtain hes | ⟨p, e, rfl, hkept⟩ := hout.missing es hes
    · exact .inl (List.mem_filterMap.2 ⟨es, hes, hx⟩)
    · obtain ⟨c', -, rfl⟩ := Option.map_eq_some_iff.1 hx
      exact .inr ⟨p, e, rfl, hkept⟩

/-- Marks that were there before change nothing. -/
theorem mark_of_marked (h : ∀ c ∈ kept, n.isSynchronized c.1 c.2 = true) : n.mark kept = n := by
  have hsame : kept.foldl (fun marked c => marked.insert c) n.synchronized = n.synchronized := by
    induction kept with
    | nil => rfl
    | cons c kept ih =>
      obtain ⟨hc, hkept⟩ := List.forall_mem_cons.1 h
      rw [List.foldl_cons, List.insert_of_mem (List.contains_iff_mem.1 hc), ih hkept]
  unfold mark
  rw [hsame]

/-! ## Refused additions -/

/-- What a refused addition leaves behind are marks: none if it is not a synchronisation, else those
of the processes that it names before one is named again. All tables but that of the marks stay as
they were, and if the marks were there already the network is the same. Otherwise it may lose steps,
but only those of single edges whose events are marked now. -/
theorem refused_leaves_marks {a : Addition} {r : Refusal} (h : a.make n = .error r n') :
    ∃ kept, a.LeavesMarks kept ∧ { n' with synchronized := n.synchronized } = n ∧
      (∀ p e, n'.isSynchronized p e = true ↔ n.isSynchronized p e = true ∨ (p, e) ∈ kept) ∧
      ((∀ c ∈ kept, n.isSynchronized c.1 c.2 = true) → n' = n) ∧
      ∀ c, (n'.steps c).Sublist (n.steps c) ∧
        ∀ x ∈ n.steps c, x ∈ n'.steps c ∨ ∃ p e, x.2 = [Edge.id e] ∧ (p, e.event) ∈ kept := by
  obtain ⟨kept, hkept, rfl⟩ := Addition.refused h
  exact ⟨kept, hkept, rfl, fun _ _ => isSynchronized_mark, mark_of_marked, steps_mark kept⟩

/-- Of three constraints the third names the first process again; the marks of the others stay. -/
theorem refused_leaves_marks_third : ∃ (n n' : Network) (r : Refusal) (kept : List (Nat × Nat)),
    n = build "m" [.process "P", .process "Q", .event "e"] ∧
    Addition.make (.sync [(0, 0), (1, 0), (0, 0)]) n = .error r n' ∧
    r.message? = some "process `P' appears twice in a synchronisation" ∧
    Addition.LeavesMarks (.sync [(0, 0), (1, 0), (0, 0)]) kept ∧
    ∀ p e, n'.isSynchronized p e = true ↔ n.isSynchronized p e = true ∨ (p, e) ∈ kept := by
  obtain ⟨n', r, hmake, hmessage⟩ : ∃ n' r, Addition.make (.sync [(0, 0), (1, 0), (0, 0)])
      (build "m" [.process "P", .process "Q", .event "e"]) = .error r n' ∧
      r.message? = some "process `P' appears twice in a synchronisation" :=
    ⟨_, _, rfl, by decide +kernel⟩
  obtain ⟨kept, hkept, -, hmarked, -⟩ := refused_leaves_marks hmake
  exact ⟨_, n', r, kept, rfl, hmake, hmessage, hkept, hmarked⟩

/-- A synchronisation that names its only process twice is refused, but afterwards the event counts as
synchronised, and the one step of the network is lost. -/
theorem refused_loses_step : ∃ (n n' : Network) (r : Refusal),
    n = build "m" [.event "e", .process "P", .location { id := 0, process := 0, name := "a" },
      .location { id := 0, process := 0, name := "b" },
      .edge { id := 0, process := 0, source := 0, target := 1, event := 0 }] ∧
    (0 < n.processes.size ∧ 0 < n.events.size) ∧
    Addition.make (.sync [(0, 0), (0, 0)]) n = .error r n' ∧
    n.isSynchronized 0 0 = false ∧ n'.isSynchronized 0 0 = true ∧
    n.steps ⟨[0], []⟩ = [(⟨[1], []⟩, [0])] ∧ n'.steps ⟨[0], []⟩ = [] :=
  ⟨_, _, _, rfl, by decide +kernel, rfl, by decide +kernel, by decide +kernel, by decide +kernel,
    by decide +kernel⟩

end StateSpace.Network
