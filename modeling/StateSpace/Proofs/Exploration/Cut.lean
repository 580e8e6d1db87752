import StateSpace.Proofs.Exploration.Survey

/-!
# Surveys with a limit

A survey with a limit is the survey without one, cut to its first states. Both go through the same
states in the same order. Once the limit is reached, the one keeps out what the other finds behind the
cut, and stops where the other begins to visit that; edges between states before the cut are found by
both.
-/

namespace StateSpace.Survey

variable {α : Type} [DecidableEq α] {succ : α → List α} {s : Survey α} {i m n : Nat} {t : α}
  {ts : List α}

/-- What is left of a survey when only the first `m` states are kept. -/
def cut (m : Nat) (s : Survey α) : Survey α where
  states := s.states.take m
  edges := s.edges.filter fun e => e.1 < m ∧ e.2 < m
  truncated := m < s.states.length

omit [DecidableEq α] in
/-- The limit is reached exactly when there are so many states, but the first one is never kept out. -/
theorem full_cut_iff (hs : s.states ≠ []) :
    (some n).any (· ≤ (cut (max n 1) s).states.length) = true ↔ max n 1 ≤ s.states.length := by
  have hpos := List.length_pos_iff.2 hs
  simp only [cut, Option.any_some, decide_eq_true_iff, List.length_take]
  omega

/-! ## Before the cut -/

/-- An edge from a state before the cut is followed on both sides, unless the cut is in its way. -/
theorem follow_cut (hs : s.states ≠ []) (hi : i < max n 1) (t : α) :
    follow (some n) i (cut (max n 1) s) t = cut (max n 1) (follow none i s t) := by
  have hfull := full_cut_iff (n := n) hs
  generalize max n 1 = m at hi hfull ⊢
  unfold follow enter
  by_cases hmem : t ∈ (cut m s).states
  · -- both know the state, by the same number
    have hmem' : t ∈ s.states := List.mem_of_mem_take hmem
    have hidx : (s.states.take m).idxOf t = s.states.idxOf t :=
      (List.take_prefix m s.states).idxOf_eq_of_mem hmem
    have hlt := (List.mem_take_iff_idxOf_lt hmem').1 hmem
    rw [if_pos hmem, if_pos hmem']
    simp [cut, hidx, hi, hlt]
  · rw [if_neg hmem]
    by_cases hmem' : t ∈ s.states
    · -- the state was cut off
      have hle := Nat.le_of_not_lt fun h => hmem ((List.mem_take_iff_idxOf_lt hmem').2 h)
      have hlt := Nat.lt_of_le_of_lt hle (List.idxOf_lt_length_of_mem hmem')
      rw [if_pos hmem', if_pos (hfull.2 (Nat.le_of_lt hlt))]
      simp [cut, Nat.not_lt.2 hle, hlt]
    · rw [if_neg hmem', if_neg (by simp : ¬(none : Option Nat).any (· ≤ s.states.length) = true)]
      by_cases hle : m ≤ s.states.length
      · -- it is the first one to be cut off, or a later one
        rw [if_pos (hfull.2 hle)]
        simp [cut, List.take_append_of_le_length hle, Nat.not_lt.2 hle, Nat.lt_succ_of_le hle]
      · have hlt := Nat.lt_of_not_le hle
        rw [if_neg (hfull.not.2 hle)]
        have htake : (s.states ++ [t]).take m = s.states ++ [t] :=
          List.take_of_length_le (by rw [List.length_append]; exact hlt)
        simp [cut, htake, List.take_of_length_le (Nat.le_of_lt hlt), hi, hlt, Nat.le_of_lt hlt,
          Nat.not_lt.2 (Nat.succ_le_of_lt hlt)]

theorem foldl_follow_cut (hs : s.states ≠ []) (hi : i < max n 1) (ts : List α) :
    ts.foldl (follow (some n) i) (cut (max n 1) s) =
      cut (max n 1) (ts.foldl (follow none i) s) := by
  induction ts generalizing s with
  | nil => rfl
  | cons t ts ih =>
    rw [List.foldl_cons, List.foldl_cons, follow_cut hs hi]
    exact ih fun h => hs (List.prefix_nil.1 (h ▸ (follow_spec i s t).1))

/-! ## Behind the cut -/

/-- Edges from a state behind the cut lead to nothing that is kept. -/
theorem cut_follow (hi : m ≤ i) (hlt : i < s.states.length) (t : α) :
    cut m (follow none i s t) = cut m s := by
  unfold follow enter
  by_cases hmem : t ∈ s.states
  · rw [if_pos hmem]
    simp [cut, Nat.not_lt.2 hi]
  · rw [if_neg hmem, if_neg (by simp : ¬(none : Option Nat).any (· ≤ s.states.length) = true)]
    have hm := Nat.lt_of_le_of_lt hi hlt
    simp [cut, List.take_append_of_le_length (Nat.le_of_lt hm), Nat.not_lt.2 hi, hm,
      Nat.lt_succ_of_lt hm]

theorem cut_foldl_follow (hi : m ≤ i) (hlt : i < s.states.length) (ts : List α) :
    cut m (ts.foldl (follow none i) s) = cut m s := by
  induction ts generalizing s with
  | nil => rfl
  | cons t ts ih =>
    rw [List.foldl_cons, ih (Nat.lt_of_lt_of_le hlt (follow_spec i s t).1.length_le),
      cut_follow hi hlt]

theorem cut_visitFrom (succ : α → List α) (fuel : Nat) (hi : m ≤ i) :
    cut m (visitFrom none succ fuel i s) = cut m s := by
  induction fuel generalizing i s with
  | zero => rfl
  | succ fuel ih =>
    unfold visitFrom
    cases hc : s.states[i]? with
    | none => rfl
    | some c =>
      exact (ih (Nat.le_succ_of_le hi)).trans
        (cut_foldl_follow hi (List.getElem?_eq_some_iff.1 hc).1 _)

/-! ## Whole surveys -/

/-- Visits under a limit find what is left of those without one. -/
theorem visitFrom_cut (succ : α → List α) (n fuel i : Nat) (hs : s.states ≠ []) :
    visitFrom (some n) succ fuel i (cut (max n 1) s) =
      cut (max n 1) (visitFrom none succ fuel i s) := by
  induction fuel generalizing i s with
  | zero => rfl
  | succ fuel ih =>
    by_cases hi : i < max n 1
    · have hstates : (cut (max n 1) s).states[i]? = s.states[i]? := List.getElem?_take_of_lt hi
      unfold visitFrom
      rw [hstates]
      cases s.states[i]? with
      | none => rfl
      | some c =>
        dsimp only
        rw [foldl_follow_cut hs hi]
        exact ih _ fun h => hs (List.prefix_nil.1 (h ▸ (foldl_follow_spec i _ s).1))
    · have hle := Nat.le_of_not_lt hi
      have hstates : (cut (max n 1) s).states[i]? = none :=
        List.getElem?_eq_none (Nat.le_trans (List.length_take_le _ _) hle)
      rw [cut_visitFrom succ (fuel + 1) hle, visitFrom, hstates]

/-- A survey with a limit is the survey without one, cut to as many states, but at least one. -/
theorem survey_cut (succ : α → List α) (start : α) (n fuel : Nat) :
    visitFrom (some n) succ fuel 0 ⟨[start], [], false⟩ =
      cut (max n 1) (visitFrom none succ fuel 0 ⟨[start], [], false⟩) := by
  have hcut : cut (max n 1) ⟨[start], [], false⟩ = ⟨[start], [], false⟩ := by
    have htake : [start].take (max n 1) = [start] := List.take_of_length_le (Nat.le_max_right ..)
    simp [cut, htake]
  have hvisit := visitFrom_cut succ n fuel 0 (s := ⟨[start], [], false⟩) (List.cons_ne_nil start [])
  rwa [hcut] at hvisit

/-- The survey has the start and other states that can be reached, each once, and no more than the
limit, but at least one. It is truncated exactly if it misses a state that can be reached. -/
structure Limited (succ : α → List α) (start : α) (n : Nat) (s : Survey α) : Prop where
  first : s.states[0]? = some start
  nodup : s.states.Nodup
  leads : ∀ c ∈ s.states, ∃ k, Leads succ start k c
  length : s.states.length ≤ max n 1
  truncated : s.truncated = true ↔ ∃ c, (∃ k, Leads succ start k c) ∧ c ∉ s.states

omit [DecidableEq α] in
theorem Limited.of_withLoops {loops : Bool} {start : α}
    (h : Limited (withLoops loops succ) start n s) : Limited succ start n s where
  first := h.first
  nodup := h.nodup
  leads c hc := exists_leads_withLoops.1 (h.leads c hc)
  length := h.length
  truncated := by simp only [h.truncated, exists_leads_withLoops]

/-- A survey with a limit needs fuel for so many states only, even if there is no end of them. -/
theorem survey_limited (succ : α → List α) (start : α) (n : Nat) {fuel : Nat}
    (hfuel : ∀ cs : List α, cs.Nodup → (∀ c ∈ cs, ∃ k, Leads succ start k c) →
      cs.length ≤ max n 1 → cs.length ≤ fuel) :
    Limited succ start n (visitFrom (some n) succ fuel 0 ⟨[start], [], false⟩) := by
  have hlinked : Linked succ ⟨[start], [], false⟩ 0 := ⟨rfl, fun c hc => absurd hc List.not_mem_nil, rfl⟩
  obtain ⟨ls, v, hs, h, -, hend⟩ := visitFrom_spec fuel (layered_start succ start) hlinked rfl
  have hleads : ∀ c ∈ ls.map Prod.fst, ∃ k, Leads succ start k c := fun c hc => by
    obtain ⟨x, hx, rfl⟩ := List.mem_map.1 hc
    exact ⟨x.2, h.leads x hx⟩
  have hpos : 0 < max n 1 := Nat.lt_of_lt_of_le Nat.one_pos (Nat.le_max_right n 1)
  rw [survey_cut, cut, hs]
  refine ⟨?_, h.nodup.sublist (List.take_sublist _ _), fun c hc => hleads c (List.mem_of_mem_take hc),
    List.length_take_le _ _, ?_⟩
  · rw [List.getElem?_take_of_lt hpos, List.getElem?_map, h.first]
    rfl
  · rw [decide_eq_true_iff]
    constructor
    · -- the first state that was cut off is missing
      intro hlt
      refine ⟨(ls.map Prod.fst)[max n 1], hleads _ (List.getElem_mem hlt), fun hmem => ?_⟩
      rw [List.mem_take_iff_idxOf_lt (List.getElem_mem hlt), h.nodup.idxOf_getElem _ hlt] at hmem
      exact Nat.lt_irrefl _ hmem
    · -- if nothing was cut off, the fuel was enough to visit all
      rintro ⟨c, ⟨k, hk⟩, hc⟩
      by_contra hle
      have hle := Nat.le_of_not_lt hle
      have hlen := hfuel _ h.nodup hleads hle
      rw [List.length_map] at hlen
      obtain ⟨k', hk', -⟩ := h.mem_of_leads (by omega) hk
      rw [List.take_of_length_le hle] at hc
      exact hc (List.mem_map_of_mem hk')

end StateSpace.Survey
