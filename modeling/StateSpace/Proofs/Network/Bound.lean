import Mathlib.Data.List.ProdSigma
import Mathlib.Data.List.Sections
import Mathlib.Data.List.Nodup
import StateSpace.Network.Summary
import StateSpace.Proofs.Step

/-!
# The number of configurations

Different configurations that a network admits are no more than its bound: a vector picks one of the
locations of each process, and a row picks one of the values of each domain.
-/

namespace StateSpace.Network

variable {n : Network} {ls : List Nat} {row : List Int32}

/-! ## Picks from lists -/

theorem length_sections {α : Type} (L : List (List α)) :
    (List.sections L).length = product (L.map List.length) := by
  induction L with
  | nil => rfl
  | cons l L ih =>
    have hlen : ∀ ss : List (List α),
        (ss.flatMap fun s => l.map (· :: s)).length = l.length * ss.length := by
      intro ss
      induction ss with
      | nil => rfl
      | cons s ss ihs =>
        rw [List.flatMap_cons, List.length_append, List.length_map, ihs, List.length_cons,
          Nat.mul_succ, Nat.add_comm]
    show ((List.sections L).flatMap fun s => l.map (· :: s)).length = _
    rw [hlen, ih]
    rfl

/-- A list is a pick if each element is in the list at its position. -/
theorem mem_sections_of_getElem {α : Type} {L : List (List α)} {xs : List α}
    (hlen : xs.length = L.length)
    (hmem : ∀ (i : Nat) (x : α) (l : List α), xs[i]? = some x → L[i]? = some l → x ∈ l) :
    xs ∈ List.sections L := by
  rw [List.mem_sections]
  induction L generalizing xs with
  | nil => rw [List.eq_nil_of_length_eq_zero hlen]; exact .nil
  | cons l L ih =>
    cases xs with
    | nil => cases hlen
    | cons x xs =>
      refine .cons (hmem 0 x l rfl rfl) (ih (Nat.succ.inj hlen) fun i y l' hy hl' => ?_)
      exact hmem (i + 1) y l' hy hl'

/-! ## Vectors and rows -/

/-- The number of locations of a process. -/
def locationCount (n : Network) (p : Nat) : Nat := n.locations.countP (·.process == p)

/-- The numbers of the locations of a process. -/
def locationsOf (n : Network) (p : Nat) : List Nat :=
  (n.locations.toList.filter (·.process == p)).map (·.id)

/-- The values of a domain. -/
def valuesOf (d : Domain) : List Int32 :=
  (List.range d.size).map fun k : Nat => Int32.ofInt (d.min.toInt + k)

theorem mem_locationsOf (hv : n.Valid) {p l : Nat} (h : n.belongs p l = true) :
    l ∈ n.locationsOf p := by
  obtain ⟨loc, hloc, hp⟩ := belongs_iff.1 h
  refine List.mem_map.2 ⟨loc, List.mem_filter.2 ⟨?_, by rwa [beq_iff_eq]⟩, (hv.location l loc hloc).id⟩
  rw [Array.mem_toList_iff]
  exact Array.mem_of_getElem? hloc

theorem contains_iff {d : Domain} {v : Int32} :
    d.contains v.toInt64 = true ↔ d.min.toInt ≤ v.toInt ∧ v.toInt ≤ d.max.toInt := by
  unfold Domain.contains
  rw [Bool.and_eq_true, decide_eq_true_iff, decide_eq_true_iff, Int64.le_iff_toInt_le,
    Int64.le_iff_toInt_le, Int32.toInt_toInt64, Int32.toInt_toInt64, Int32.toInt_toInt64]

/-- The number of values of a domain does not overflow, wherever its ends are. -/
theorem size_eq {d : Domain} (h : d.min.toInt ≤ d.max.toInt) :
    (d.size : Int) = d.max.toInt - d.min.toInt + 1 := by
  have hmin := d.min.le_toInt
  have hmax := d.max.toInt_lt
  have hint : (d.max.toInt64 - d.min.toInt64 + 1).toInt = d.max.toInt - d.min.toInt + 1 := by
    rw [Int64.toInt_add, Int64.toInt_sub, Int32.toInt_toInt64, Int32.toInt_toInt64,
      Int.bmod_eq_of_le (n := d.max.toInt - d.min.toInt) (by omega) (by omega),
      show (1 : Int64).toInt = 1 from rfl, Int.bmod_eq_of_le (by omega) (by omega)]
  have hpos : (0 : Int64) ≤ d.max.toInt64 - d.min.toInt64 + 1 := by
    rw [Int64.le_iff_toInt_le, hint, show (0 : Int64).toInt = 0 from rfl]
    omega
  unfold Domain.size
  rw [Int64.toNat_toUInt64_of_le hpos, Int64.toNatClampNeg, hint]
  omega

theorem mem_valuesOf {d : Domain} {v : Int32} (h : d.contains v.toInt64 = true) :
    v ∈ valuesOf d := by
  obtain ⟨hmin, hmax⟩ := contains_iff.1 h
  have hsize := size_eq (Int.le_trans hmin hmax)
  refine List.mem_map.2 ⟨(v.toInt - d.min.toInt).toNat, List.mem_range.2 (by omega), ?_⟩
  rw [show d.min.toInt + ((v.toInt - d.min.toInt).toNat : Int) = v.toInt by omega]
  exact Int32.ofInt_toInt v

/-- The configurations that the network admits are among these. -/
def allConfigurations (n : Network) : List Configuration :=
  (List.sections ((List.range n.processes.size).map n.locationsOf) ×ˢ
    List.sections (n.domains.toList.map valuesOf)).map fun p => ⟨p.1, p.2⟩

/-- Every process lists as many locations as it has. -/
theorem Coherent.map_length_byProcess (h : n.Coherent) :
    n.byProcess.toList.map List.length = (List.range n.processes.size).map n.locationCount := by
  have hsize := h.byProcess_size
  refine List.ext_getElem (by simp [hsize]) fun p hp _ => ?_
  rw [List.length_map, Array.length_toList] at hp
  simp only [List.getElem_map, Array.getElem_toList, List.getElem_range]
  exact (h.lists p _ (Array.getElem?_eq_getElem hp)).length

theorem length_allConfigurations (h : n.Coherent) :
    n.allConfigurations.length = n.configurationBound := by
  unfold allConfigurations configurationBound
  rw [List.length_map, List.length_product, length_sections, length_sections, List.map_map,
    List.map_map, h.map_length_byProcess]
  congr 2
  · refine List.map_congr_left fun p _ => ?_
    simp only [Function.comp_apply, locationsOf, List.length_map, locationCount,
      ← Array.countP_toList, List.countP_eq_length_filter]
  · refine List.map_congr_left fun d _ => ?_
    simp only [Function.comp_apply, valuesOf, List.length_map, List.length_range]

theorem mem_allConfigurations (hv : n.Valid) {c : Configuration} (hc : n.Admits c) :
    c ∈ n.allConfigurations := by
  refine List.mem_map.2 ⟨(c.locations, c.ints), List.mem_product.2 ⟨?_, ?_⟩, rfl⟩
  · refine mem_sections_of_getElem ?_ fun p l options hl hoptions => ?_
    · rw [hc.locations.length, List.length_map, List.length_range]
    · rw [List.getElem?_map, Option.map_eq_some_iff] at hoptions
      obtain ⟨p', hp', rfl⟩ := hoptions
      obtain ⟨hlt, rfl⟩ := List.getElem?_eq_some_iff.1 hp'
      rw [List.getElem_range]
      exact mem_locationsOf hv (hc.locations.location p l hl)
  · refine mem_sections_of_getElem ?_ fun i v options hi hoptions => ?_
    · rw [hc.ints.length, List.length_map, Array.length_toList, hv.domains_size]
    · rw [List.getElem?_map, Option.map_eq_some_iff] at hoptions
      obtain ⟨d, hd, rfl⟩ := hoptions
      obtain ⟨d', hd', hcontains⟩ := hc.ints.value i v hi
      rw [Array.getElem?_toList, hd', Option.some.injEq] at hd
      subst hd
      exact mem_valuesOf hcontains

/-- Different admitted configurations are no more than the bound. -/
theorem length_le_configurationBound (hv : n.Valid) {cs : List Configuration} (hnd : cs.Nodup)
    (hall : ∀ c ∈ cs, n.Admits c) : cs.length ≤ n.configurationBound := by
  rw [← length_allConfigurations hv.toCoherent]
  exact hnd.length_le_of_subset fun c hc => mem_allConfigurations hv (hall c hc)

end StateSpace.Network
