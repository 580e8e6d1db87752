import StateSpace.Proofs.Step.Offers

/-!
# Steps between configurations of a network

A valid network starts in configurations that it admits. What may be taken together there is declared,
so a step never faults, and it leads to an admitted configuration again.
-/

namespace StateSpace.Network

variable {n : Network} {c : Configuration} {ls : List Nat} {p l i : Nat}

/-! ## Candidates -/

/-- All lists of edges are lists of declared edges. -/
def AllDeclared (n : Network) (ess : List (List Edge)) : Prop := ∀ es ∈ ess, ∀ e ∈ es, n.HasEdge e

theorem offered_allDeclared (n : Network) (ls : List Nat) : n.AllDeclared (n.offered ls) := by
  intro es hes
  rcases List.mem_append.1 hes with hes | hes
  · obtain ⟨p, e, he, -, rfl⟩ := mem_solos.1 hes
    simpa using he.declared
  · obtain ⟨s, hs, hpick⟩ := List.mem_flatMap.1 hes
    exact (Offers.joint hs (mem_picks.1 hpick)).hasEdge

/-- The edges that a configuration may take are declared. -/
theorem candidates_spec (hv : n.Valid) (hls : n.IsVector c.locations) :
    ∃ ess, n.candidates c = .ok ess ∧ n.AllDeclared ess := by
  refine ⟨_, candidates_eq hv hls, fun es hes => ?_⟩
  apply offered_allDeclared n c.locations es
  split at hes
  · exact List.mem_of_mem_filter hes
  · exact hes

/-! ## Starting -/

theorem startValues_isRow (hv : n.Valid) : n.IsRow n.startValues where
  length := by
    unfold startValues
    rw [List.length_map, Array.length_toList, hv.domains_size]
  value i v h := by
    unfold startValues at h
    rw [List.getElem?_map, Option.map_eq_some_iff] at h
    obtain ⟨d, hd, rfl⟩ := h
    rw [Array.getElem?_toList] at hd
    exact ⟨d, hd, hv.domain i d hd⟩

theorem belongs_of_initialLocations (hv : n.Valid) (h : l ∈ n.initialLocations p) :
    n.belongs p l = true := by
  obtain ⟨loc, hloc, rfl⟩ := List.mem_map.1 h
  obtain ⟨hmem, hp⟩ := List.mem_filter.1 hloc
  rw [Bool.and_eq_true, beq_iff_eq] at hp
  obtain ⟨i, hi⟩ := List.mem_iff_getElem?.1 hmem
  rw [Array.getElem?_toList] at hi
  rw [(hv.location i loc hi).id]
  exact belongs_iff.2 ⟨loc, hi, hp.1⟩

/-- Every start vector lets each process begin in one of its locations. -/
theorem startVectors_isVector (hv : n.Valid) (h : ls ∈ n.startVectors) : n.IsVector ls := by
  have hgen : ∀ (k : Nat) (ls : List Nat),
      ls ∈ (List.range k).foldl (fun vs p => extendEach vs (n.initialLocations p)) [[]] →
      ls.length = k ∧ ∀ (p l : Nat), ls[p]? = some l → n.belongs p l = true := by
    intro k
    induction k with
    | zero =>
      intro ls hls
      rw [List.mem_singleton.1 hls]
      exact ⟨rfl, fun p l h => by simp at h⟩
    | succ k ih =>
      intro ls hls
      rw [List.range_succ, List.foldl_append] at hls
      obtain ⟨ls₀, hls₀, hmem⟩ := List.mem_flatMap.1 hls
      obtain ⟨l, hl, rfl⟩ := List.mem_map.1 hmem
      obtain ⟨hlen, hbel⟩ := ih ls₀ hls₀
      refine ⟨by rw [List.length_append, hlen, List.length_singleton], fun p l' hp => ?_⟩
      rw [List.getElem?_append] at hp
      split at hp
      · exact hbel p l' hp
      · rename_i hlt
        obtain rfl : p = k := by
          have := (List.getElem?_eq_some_iff.1 hp).1
          rw [List.length_singleton] at this
          omega
        rw [hlen, Nat.sub_self] at hp
        cases hp
        exact belongs_of_initialLocations hv hl
  obtain ⟨hlen, hbel⟩ := hgen _ ls h
  exact ⟨hlen, hbel⟩

end StateSpace.Network
