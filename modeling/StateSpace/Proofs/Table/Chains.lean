import Mathlib.Logic.Function.Basic
import StateSpace.Proofs.Table.Cells

/-!
# Chains of a table

`put` keeps the values of a bucket on a chain of cells. The chains are not stored, so a table is
described together with them: `Hashed t chain` says that walking from the head of a bucket visits the
cells `chain b`, that these hold the values of that bucket, and that no two of them hold the same
value. A value that is put is either found on the chain of its bucket or appended to it.
-/

namespace StateSpace.Table

variable {α : Type} {t t' : Table α} {i j k : Nat} {v w : α} {is : List Nat}

/-! ## Walking a chain -/

/-- The occupied cells that a walk from `i` visits. -/
inductive Chain (t : Table α) : Nat → List Nat → Prop
  | nil : Chain t 0 []
  | cons {i j : Nat} {v : α} {is : List Nat} : i ≠ 0 → t.cells[i]? = some ⟨v, j, true⟩ →
      Chain t j is → Chain t i (i :: is)

theorem Chain.eq_nil (h : Chain t 0 is) : is = [] := by
  cases h with
  | nil => rfl
  | cons hi => exact absurd rfl hi

theorem Chain.head_eq (h : Chain t i (j :: is)) : i = j := by
  cases h
  rfl

theorem Chain.value? (h : Chain t i is) (hj : j ∈ is) : ∃ v, t.value? j = some v := by
  induction h with
  | nil => cases hj
  | cons hi hc _ ih =>
    rcases List.mem_cons.1 hj with rfl | hj
    · exact ⟨_, value?_eq_some_iff.2 ⟨hi, _, hc⟩⟩
    · exact ih hj

/-- A walk depends on the cells that it visits. -/
theorem Chain.congr (h : Chain t i is) (hc : ∀ j ∈ is, t'.cells[j]? = t.cells[j]?) :
    Chain t' i is := by
  induction h with
  | nil => exact .nil
  | cons hi hcell _ ih =>
    refine .cons hi ((hc _ (List.mem_cons_self ..)).trans hcell) (ih fun j hj => ?_)
    exact hc j (List.mem_cons_of_mem _ hj)

/-- A cell linked behind the last one prolongs the walk. -/
theorem Chain.snoc (h : Chain t i (is ++ [j])) (hnd : (is ++ [j]).Nodup) (hk : k ≠ 0)
    (hnew : t'.cells[k]? = some ⟨w, 0, true⟩) (hj : t.value? j = some v)
    (hlast : t'.cells[j]? = some ⟨v, k, true⟩)
    (hframe : ∀ l ∈ is, t'.cells[l]? = t.cells[l]?) : Chain t' i (is ++ [j] ++ [k]) := by
  induction is generalizing i with
  | nil =>
    obtain rfl := h.head_eq
    exact .cons (value?_eq_some_iff.1 hj).1 hlast (.cons hk hnew .nil)
  | cons l is ih =>
    cases h with
    | cons hi hc htail =>
      refine .cons hi ((hframe _ (List.mem_cons_self ..)).trans hc) ?_
      refine ih htail (List.nodup_cons.1 hnd).2 fun m hm => ?_
      exact hframe m (List.mem_cons_of_mem _ hm)

/-- A walk for a value ends at a cell with that value, or at the end of a chain without it. -/
theorem probe_spec [DecidableEq α] {fuel : Nat} (h : Chain t i is) (hne : is ≠ [])
    (hfuel : is.length ≤ fuel) (v : α) :
    (∃ j ∈ is, t.value? j = some v ∧ t.probe v fuel i = .ok (.found j)) ∨
      ((∀ j ∈ is, t.value? j ≠ some v) ∧ t.probe v fuel i = .ok (.last (is.getLast hne))) := by
  induction h generalizing fuel with
  | nil => exact absurd rfl hne
  | @cons i j w is hi hc htail ih =>
    obtain ⟨fuel, rfl⟩ : ∃ n, fuel = n + 1 := ⟨fuel - 1, by simp at hfuel; omega⟩
    have hval : t.value? i = some w := value?_eq_some_iff.2 ⟨hi, j, hc⟩
    have hnext : t.next i = .ok j := by simp [next, hc]
    by_cases hw : w = v
    · left
      refine ⟨i, List.mem_cons_self .., hw ▸ hval, ?_⟩
      simp [probe, get_of_value? hval, hw]
    · have hiv : t.value? i ≠ some v := by rw [hval]; simpa using hw
      cases htail with
      | nil =>
        right
        refine ⟨fun l hl => ?_, by simp [probe, get_of_value? hval, hw, hnext]⟩
        rwa [List.mem_singleton.1 hl]
      | @cons _ k w' is hj hc' htail =>
        have hstep : t.probe v (fuel + 1) i = t.probe v fuel j := by
          rw [probe, get_of_value? hval]
          simp only [hw, if_false, hnext]
        rw [hstep]
        have hlen : (j :: is).length ≤ fuel := by simpa using hfuel
        rcases ih (List.cons_ne_nil j is) hlen with ⟨l, hl, hlv, hprobe⟩ | ⟨hno, hprobe⟩
        · exact .inl ⟨l, List.mem_cons_of_mem _ hl, hlv, hprobe⟩
        · refine .inr ⟨fun l hl => ?_, hprobe.trans (by rw [List.getLast_cons (List.cons_ne_nil j is)])⟩
          rcases List.mem_cons.1 hl with rfl | hl
          · exact hiv
          · exact hno l hl

/-! ## Placing a value -/

/-- `t'` is `t` with a value in a cell that was vacant, as far as values are concerned. -/
structure Placed (t : Table α) (v : α) (i : Nat) (t' : Table α) : Prop where
  index : i = t.nextIndex
  vacant : t.value? i = none
  self : t'.value? i = some v
  frame : ∀ j, j ≠ i → t'.value? j = t.value? j
  mask : t'.mask = t.mask
  free : t'.free = t.free.tail
  size : t'.cells.size = t.cells.size + if t.free = [] then 1 else 0
  live : t'.live = t.live + 1
  wellFormed : t'.WellFormed

theorem Added.placed (ht : t.WellFormed) (h : Added t v i t') : Placed t v i t' :=
  ⟨h.index, h.vacant, h.value?_self, fun _ hj => h.value?_of_ne hj, h.mask, h.free, h.size, h.live,
    h.wellFormed ht⟩

theorem Placed.value?_mono (h : Placed t v i t') (hj : t.value? j = some w) :
    t'.value? j = some w := by
  have hne : j ≠ i := by
    rintro rfl
    rw [h.vacant] at hj
    cases hj
  rw [h.frame j hne, hj]

/-- Links are no part of the values. -/
theorem value?_link (i j k : Nat) (t : Table α) : (t.link i j).value? k = t.value? k := by
  unfold link value?
  by_cases hk : i = k
  · subst hk
    simp only [Array.getElem?_modify, if_true]
    cases t.cells[i]? with
    | none => rfl
    | some c => rfl
  · simp [Array.getElem?_modify, hk]

@[simp] theorem size_link (i j : Nat) (t : Table α) : (t.link i j).cells.size = t.cells.size :=
  Array.size_modify

theorem Placed.link (h : Placed t v i t') (j k : Nat) : Placed t v i (t'.link j k) where
  index := h.index
  vacant := h.vacant
  self := (value?_link ..).trans h.self
  frame l hl := (value?_link ..).trans (h.frame l hl)
  mask := h.mask
  free := h.free
  size := (size_link ..).trans h.size
  live := h.live
  wellFormed := by
    refine ⟨?_, h.wellFormed.free_nodup, fun l => ?_⟩
    · rw [size_link]
      exact h.wellFormed.pos
    · rw [value?_link, size_link]
      exact h.wellFormed.mem_free l

/-! ## Hashed tables -/

section Hashed

variable [WordHash α] {chain : UInt64 → List Nat}

/-- The chains of a table: each value that was put is on that of its bucket, and only once. -/
structure Hashed (t : Table α) (chain : UInt64 → List Nat) : Prop where
  walk : ∀ b, Chain t (t.heads.getD b 0) (chain b)
  nodup : ∀ b, (chain b).Nodup
  bucket : ∀ b, ∀ i ∈ chain b, ∀ v, t.value? i = some v → t.bucket v = b
  distinct : ∀ b, ∀ i ∈ chain b, ∀ j ∈ chain b, t.value? i = t.value? j → i = j

theorem Hashed.value? (h : Hashed t chain) {b : UInt64} (hi : i ∈ chain b) :
    ∃ v, t.value? i = some v := (h.walk b).value? hi

/-- A value is on at most one chain, and there only once. -/
theorem Hashed.index_unique (h : Hashed t chain) {b b' : UInt64} (hi : i ∈ chain b)
    (hj : j ∈ chain b') (hiv : t.value? i = some v) (hjv : t.value? j = some v) : i = j := by
  have hb := h.bucket b i hi v hiv
  have hb' := h.bucket b' j hj v hjv
  subst hb hb'
  exact h.distinct _ i hi j hj (hiv.trans hjv.symm)

theorem Hashed.length_le (h : Hashed t chain) (b : UInt64) : (chain b).length ≤ t.cells.size := by
  have hsub : chain b ⊆ List.range t.cells.size := by
    intro i hi
    obtain ⟨v, hv⟩ := h.value? hi
    exact List.mem_range.2 (lt_size_of_value? hv)
  simpa using (h.nodup b).length_le_of_subset hsub

theorem hashed_nil (hheads : t.heads = ∅) : Hashed t fun _ => [] where
  walk b := by
    rw [hheads, Std.HashMap.getD_empty]
    exact .nil
  nodup _ := List.nodup_nil
  bucket _ _ hi := by cases hi
  distinct _ _ hi := by cases hi

/-- Chains do not notice a change of a cell that is on none of them. -/
theorem Hashed.replaced {c : Cell α} (h : Hashed t chain) (hr : Replaced t i c t')
    (hi : ∀ b, i ∉ chain b) : Hashed t' chain := by
  have hframe : ∀ {b j}, j ∈ chain b → t'.cells[j]? = t.cells[j]? := fun hj =>
    hr.frame _ fun heq => hi _ (heq ▸ hj)
  have hbucket : t'.bucket = t.bucket := by
    funext w
    unfold Table.bucket
    rw [hr.mask]
  refine ⟨fun b => ?_, h.nodup, fun b j hj w hw => ?_, fun b j hj k hk hjk => ?_⟩
  · rw [hr.heads]
    exact (h.walk b).congr fun _ hj => hframe hj
  · rw [hbucket]
    exact h.bucket b j hj w ((value?_congr (hframe hj)).symm.trans hw)
  · rw [value?_congr (hframe hj), value?_congr (hframe hk)] at hjk
    exact h.distinct b j hj k hk hjk

/-- Chains do not notice a cell that is added. -/
theorem Hashed.added (h : Hashed t chain) (ha : Added t v i t') : Hashed t' chain := by
  refine h.replaced ha.replaced fun b hi => ?_
  obtain ⟨w, hw⟩ := h.value? hi
  cases ha.vacant.symm.trans hw

/-! ## Putting a value -/

/-- Appending a cell to the chain of its value's bucket keeps the chains. `hwalk` tells that the cell
was linked behind that chain, the walks along other chains are the same. -/
theorem Hashed.append (h : Hashed t chain) (hp : Placed t v i t')
    (hnew : ∀ j ∈ chain (t.bucket v), t.value? j ≠ some v)
    (hwalk : ∀ b, Chain t' (t'.heads.getD b 0)
      (Function.update chain (t.bucket v) (chain (t.bucket v) ++ [i]) b)) :
    Hashed t' (Function.update chain (t.bucket v) (chain (t.bucket v) ++ [i])) := by
  have hni : ∀ b, i ∉ chain b := by
    intro b hi
    obtain ⟨w, hw⟩ := h.value? hi
    rw [hp.vacant] at hw
    cases hw
  have hold : ∀ {b j}, j ∈ chain b → t'.value? j = t.value? j := by
    intro b j hj
    refine hp.frame j ?_
    rintro rfl
    exact hni b hj
  have hbucket : t'.bucket = t.bucket := by
    funext w
    unfold Table.bucket
    rw [hp.mask]
  refine ⟨hwalk, fun b => ?_, fun b j hj w hw => ?_, fun b j hj k hk hjk => ?_⟩
  · by_cases hb : b = t.bucket v
    · subst hb
      rw [Function.update_self]
      refine (h.nodup _).append (List.nodup_singleton _) ?_
      simpa using hni _
    · rw [Function.update_of_ne hb]
      exact h.nodup b
  · rw [hbucket]
    by_cases hb : b = t.bucket v
    · subst hb
      rw [Function.update_self, List.mem_append, List.mem_singleton] at hj
      rcases hj with hj | rfl
      · rw [hold hj] at hw
        exact h.bucket _ j hj w hw
      · rw [hp.self, Option.some.injEq] at hw
        rw [hw]
    · rw [Function.update_of_ne hb] at hj
      rw [hold hj] at hw
      exact h.bucket b j hj w hw
  · by_cases hb : b = t.bucket v
    · subst hb
      rw [Function.update_self, List.mem_append, List.mem_singleton] at hj hk
      rcases hj with hj | rfl <;> rcases hk with hk | rfl
      · rw [hold hj, hold hk] at hjk
        exact h.distinct _ j hj k hk hjk
      · rw [hold hj, hp.self] at hjk
        exact absurd hjk (hnew j hj)
      · rw [hold hk, hp.self] at hjk
        exact absurd hjk.symm (hnew k hk)
      · rfl
    · rw [Function.update_of_ne hb] at hj hk
      rw [hold hj, hold hk] at hjk
      exact h.distinct b j hj k hk hjk

/-- What `put` does: it finds the value on the chain of its bucket, or appends it. -/
theorem put_spec [DecidableEq α] (ht : t.WellFormed) (h : Hashed t chain) (v : α) :
    ∃ i t', put v t = .ok i t' ∧
      ((t' = t ∧ i ∈ chain (t.bucket v) ∧ t.value? i = some v) ∨
        ((∀ j ∈ chain (t.bucket v), t.value? j ≠ some v) ∧ Placed t v i t' ∧
          Hashed t' (Function.update chain (t.bucket v) (chain (t.bucket v) ++ [i])))) := by
  obtain ⟨t₁, hadd, ha⟩ := add_spec ht v
  have hwalk := h.walk (t.bucket v)
  cases hhead : t.heads.getD (t.bucket v) 0 with
  | zero =>
    rw [hhead] at hwalk
    have hnil := hwalk.eq_nil
    refine ⟨t.nextIndex, { t₁ with heads := t₁.heads.insert (t.bucket v) t.nextIndex },
      by simp [put, hhead, hadd], .inr ?_⟩
    have hp : Placed t v t.nextIndex
        { t₁ with heads := t₁.heads.insert (t.bucket v) t.nextIndex } := by
      have := ha.placed ht
      exact ⟨this.index, this.vacant, this.self, this.frame, this.mask, this.free, this.size,
        this.live, ⟨this.wellFormed.pos, this.wellFormed.free_nodup, this.wellFormed.mem_free⟩⟩
    have hno : ∀ j ∈ chain (t.bucket v), t.value? j ≠ some v := by simp [hnil]
    refine ⟨hno, hp, h.append hp hno fun b => ?_⟩
    simp only [Std.HashMap.getD_insert, beq_iff_eq]
    by_cases hb : b = t.bucket v
    · subst hb
      rw [if_pos rfl, Function.update_self, hnil]
      exact .cons ha.ne_zero ha.cell .nil
    · rw [if_neg (Ne.symm hb), Function.update_of_ne hb]
      exact ((h.added ha).walk b).congr fun _ _ => rfl
  | succ head =>
    have hne : chain (t.bucket v) ≠ [] := by
      intro hnil
      rw [hhead, hnil] at hwalk
      cases hwalk
    rcases probe_spec hwalk hne (h.length_le _) v with ⟨i, hi, hiv, hprobe⟩ | ⟨hno, hprobe⟩
    · rw [hhead] at hprobe
      exact ⟨i, t, by simp [put, hhead, hprobe], .inl ⟨rfl, hi, hiv⟩⟩
    · rw [hhead] at hprobe
      obtain ⟨last, hlast⟩ : ∃ j, (chain (t.bucket v)).getLast hne = j := ⟨_, rfl⟩
      rw [hlast] at hprobe
      have hp : Placed t v t.nextIndex (t₁.link last t.nextIndex) := (ha.placed ht).link ..
      refine ⟨t.nextIndex, t₁.link last t.nextIndex, by simp [put, hhead, hprobe, hadd],
        .inr ⟨hno, hp, h.append hp hno fun b => ?_⟩⟩
      have hmem : last ∈ chain (t.bucket v) := hlast ▸ List.getLast_mem hne
      obtain ⟨w, hw⟩ := h.value? hmem
      have hframe : ∀ l, l ≠ last → (t₁.link last t.nextIndex).cells[l]? = t₁.cells[l]? := by
        intro l hl
        simp [link, Array.getElem?_modify, Ne.symm hl]
      show Chain _ (t₁.heads.getD b 0) _
      by_cases hb : b = t.bucket v
      · subst hb
        rw [Function.update_self]
        have hsplit := List.dropLast_append_getLast hne
        rw [hlast] at hsplit
        rw [← hsplit]
        have hnd := h.nodup (t.bucket v)
        have hwalk₁ := (h.added ha).walk (t.bucket v)
        rw [← hsplit] at hnd hwalk₁
        have hne' : ∀ l ∈ (chain (t.bucket v)).dropLast, l ≠ last := by
          rintro l hl rfl
          exact (List.nodup_append.1 hnd).2.2 l hl l (List.mem_singleton_self _) rfl
        have hnl : t.nextIndex ≠ last := by
          intro heq
          rw [← heq, ha.vacant] at hw
          cases hw
        obtain ⟨-, k, hk⟩ := value?_eq_some_iff.1 (ha.value?_mono hw)
        refine hwalk₁.snoc (w := v) hnd ha.ne_zero ?_ (ha.value?_mono hw) ?_ fun l hl =>
          hframe l (hne' l hl)
        · rw [hframe _ hnl]
          exact ha.cell
        · simp [link, Array.getElem?_modify, hk]
      · rw [Function.update_of_ne hb]
        refine ((h.added ha).walk b).congr fun l hl => hframe l ?_
        rintro rfl
        exact hb ((h.bucket b _ hl w hw).symm.trans (h.bucket _ _ hmem w hw))

end Hashed

end StateSpace.Table
