import Mathlib.Data.Set.Card
import StateSpace.Proofs.Network.Bound

/-!
# Names of locations

No two locations of a process have the same name. So a process has as many locations as there are names
under which they are found, and the bound of the network is the product of these numbers and of the
widths of the domains, as integers.
-/

namespace StateSpace.Network

variable {n n' : Network} {p : Nat} {name : String}

/-- The names of the locations of a process. -/
def locationNames (n : Network) (p : Nat) : List String :=
  (n.locations.toList.filter (·.process == p)).map (·.name)

theorem NamesDiffer.nodup (h : n.NamesDiffer) (p : Nat) : (n.locationNames p).Nodup := by
  unfold locationNames
  rw [List.Nodup, List.pairwise_map, List.pairwise_filter, List.pairwise_iff_getElem]
  intro i j hi hj hij hp hq hname
  rw [beq_iff_eq] at hp hq
  rw [Array.length_toList] at hi hj
  have := h i j _ _ (Array.getElem?_eq_getElem hi) (Array.getElem?_eq_getElem hj)
    (hp.trans hq.symm) hname
  omega

/-- A process has as many locations as there are names under which they are found. -/
theorem Coherent.ncard_found (h : n.Coherent) (p : Nat) :
    {name | (n.findLocation? p name).isSome = true}.ncard = n.locationCount p := by
  have hset : {name | (n.findLocation? p name).isSome = true} =
      ((n.locationNames p).toFinset : Set String) := by
    ext name
    simp only [Set.mem_ofPred_eq, Option.isSome_iff_exists, h.findLocation?_eq_some_iff,
      Finset.mem_coe, List.mem_toFinset, locationNames, List.mem_map, List.mem_filter, beq_iff_eq,
      Array.mem_toList_iff, Array.mem_iff_getElem?]
    tauto
  rw [hset, Set.ncard_coe_finset, List.toFinset_card_of_nodup (h.namesDiffer.nodup p),
    locationNames, List.length_map, locationCount, ← Array.countP_toList,
    List.countP_eq_length_filter]

/-! ## The bound as an integer -/

/-- The bound is the product of the numbers of names of all processes and of the widths of all
domains. -/
theorem configurationBound_eq (hv : n.Valid) :
    (n.configurationBound : Int) =
      ((List.range n.processes.size).map fun p =>
        ({name | (n.findLocation? p name).isSome = true}.ncard : Int)).prod *
      (n.domains.toList.map fun d => d.max.toInt - d.min.toInt + 1).prod := by
  have hproduct : ∀ ns : List Nat, (product ns : Int) = (ns.map Nat.cast).prod :=
    map_list_prod (Nat.castRingHom Int)
  have hsize : ∀ d ∈ n.domains.toList, (d.size : Int) = d.max.toInt - d.min.toInt + 1 := by
    intro d hd
    obtain ⟨i, hi⟩ := Array.mem_iff_getElem?.1 (Array.mem_toList_iff.1 hd)
    obtain ⟨hmin, hmax⟩ := contains_iff.1 (hv.domain i d hi)
    exact size_eq (Int.le_trans hmin hmax)
  unfold configurationBound
  rw [Int.natCast_mul, hproduct, hproduct, hv.map_length_byProcess, List.map_map, List.map_map]
  congr 2
  · exact List.map_congr_left fun p _ => by rw [hv.ncard_found p]; rfl
  · exact List.map_congr_left hsize

end StateSpace.Network
