import Mathlib.Data.List.Nodup
import Mathlib.Logic.Function.Basic
import StateSpace.Proofs.Engine.Charted
import StateSpace.Proofs.Pool

/-!
# Ledgers of references

While a search runs, the pool has references to the states that were recognised, as many as the search
holds, and in its other slots whatever it had before. Each operation on the pool makes one entry.
-/

namespace StateSpace

open StateSpace.Action

/-- The pool has `refs i` references to entry `i`, which is a state of the chart, and `base` in all other
slots. -/
structure Ledger {κ : Type} (m : Chart κ) (p : Pool) (base : Handle → Option Slot)
    (es : List (Handle × κ)) (refs : Nat → Nat) : Prop where
  sound : p.Sound
  nodup : (es.map Prod.fst).Nodup
  slot : ∀ i x, es[i]? = some x → ∃ o : Shared, o.state = m.state x.2 ∧
    p.slot? x.1 = some (.ofShared o (refs i))
  frame : ∀ s, s ∉ es.map Prod.fst → p.slot? s = base s
  vacant : ∀ s, s ∈ es.map Prod.fst → base s = none

namespace Ledger

variable {κ : Type} {m : Chart κ} {p p' : Pool} {base base' : Handle → Option Slot}
  {es : List (Handle × κ)} {refs refs' : Nat → Nat} {s d : Handle} {c : κ} {o : Shared} {i k : Nat}

theorem empty (hp : p.Sound) : Ledger m p p.slot? [] refs where
  sound := hp
  nodup := List.nodup_nil
  slot i x hx := by cases hx
  frame s _ := rfl
  vacant s hs := absurd hs List.not_mem_nil

/-- Only the numbers of references to entries count. -/
theorem congr (h : Ledger m p base es refs) (hr : ∀ i, i < es.length → refs' i = refs i) :
    Ledger m p base es refs' where
  sound := h.sound
  nodup := h.nodup
  slot i x hx := by
    obtain ⟨o, ho, hs⟩ := h.slot i x hx
    exact ⟨o, ho, by rw [hr i (List.getElem?_eq_some_iff.1 hx).1, hs]⟩
  frame := h.frame
  vacant := h.vacant

/-- Entries with equally many references may come in any order. -/
theorem perm {es' : List (Handle × κ)} (h : Ledger m p base es fun _ => k) (hes : es'.Perm es) :
    Ledger m p base es' fun _ => k where
  sound := h.sound
  nodup := (hes.map _).nodup_iff.2 h.nodup
  slot i x hx := by
    obtain ⟨j, hj⟩ := List.mem_iff_getElem?.1 (hes.mem_iff.1 (List.mem_of_getElem? hx))
    exact h.slot j x hj
  frame s hs := h.frame s fun hmem => hs ((hes.map _).mem_iff.2 hmem)
  vacant s hs := h.vacant s ((hes.map _).mem_iff.1 hs)

theorem mem_of_getElem? (hx : es[i]? = some (s, c)) : s ∈ es.map Prod.fst :=
  List.mem_map.2 ⟨(s, c), List.mem_of_getElem? hx, rfl⟩

theorem has (h : Ledger m p base es refs) (hx : es[i]? = some (s, c)) :
    ∃ o, o.state = m.state c ∧ p.Has s o := by
  obtain ⟨o, ho, hs⟩ := h.slot i _ hx
  exact ⟨o, ho, refs i, hs⟩

/-- Entries with one handle are the same entry. -/
theorem index_unique (h : Ledger m p base es refs) {j : Nat} {c' : κ}
    (hi : es[i]? = some (s, c)) (hj : es[j]? = some (s, c')) : i = j := by
  have hi' : (es.map Prod.fst)[i]? = some s := by rw [List.getElem?_map, hi]; rfl
  have hj' : (es.map Prod.fst)[j]? = some s := by rw [List.getElem?_map, hj]; rfl
  obtain ⟨hilt, hi⟩ := List.getElem?_eq_some_iff.1 hi'
  obtain ⟨hjlt, hj⟩ := List.getElem?_eq_some_iff.1 hj'
  exact (h.nodup.getElem_inj_iff).1 (hi.trans hj.symm)

/-- References to an entry are counted up or down. -/
theorem count (h : Ledger m p base es refs) (hx : es[i]? = some (s, c))
    (hs : p.slot? s = some (.ofShared o (refs i)))
    (hp : Pool.Updated p s (some (.ofShared o k)) p') :
    Ledger m p' base es (Function.update refs i k) where
  sound := hp.sound
  nodup := h.nodup
  slot j z hz := by
    obtain ⟨t, c'⟩ := z
    obtain ⟨o', ho', hs'⟩ := h.slot j _ hz
    by_cases hts : t = s
    · subst hts
      have hij := h.index_unique hx hz
      subst hij
      rw [hs] at hs'
      have hoo : o = o' := Option.some.inj (congrArg Slot.state (Option.some.inj hs'))
      subst hoo
      rw [Function.update_self]
      exact ⟨o, ho', hp.self⟩
    · have hij : j ≠ i := by
        rintro rfl
        rw [hx, Option.some.injEq] at hz
        exact hts (congrArg Prod.fst hz).symm
      rw [Function.update_of_ne hij]
      exact ⟨o', ho', (hp.frame t hts).trans hs'⟩
  frame t ht := by
    rw [hp.frame t fun hts => ht (hts ▸ mem_of_getElem? hx)]
    exact h.frame t ht
  vacant := h.vacant

/-- A slot apart from the entries gets another content. -/
theorem other (h : Ledger m p base es refs) (hd : d ∉ es.map Prod.fst)
    (hb : ∀ t, t ≠ d → base t = base' t) (hp : Pool.Updated p d (base' d) p') :
    Ledger m p' base' es refs where
  sound := hp.sound
  nodup := h.nodup
  slot i z hz := by
    obtain ⟨o, ho, hs⟩ := h.slot i z hz
    have hne : z.1 ≠ d := fun heq => hd (heq ▸ mem_of_getElem? hz)
    exact ⟨o, ho, (hp.frame _ hne).trans hs⟩
  frame t ht := by
    by_cases htd : t = d
    · subst htd
      exact hp.self
    · rw [hp.frame t htd, ← hb t htd]
      exact h.frame t ht
  vacant t ht := by
    rw [← hb t fun heq => hd (heq ▸ ht)]
    exact h.vacant t ht

/-- A slot apart from the entries becomes one. -/
theorem append (h : Ledger m p base es refs) (hd : d ∉ es.map Prod.fst)
    (hb : ∀ t, t ≠ d → base t = base' t) (hv : base' d = none) (ho : o.state = m.state c)
    (hp : Pool.Updated p d (some (.ofShared o (refs es.length))) p') :
    Ledger m p' base' (es ++ [(d, c)]) refs where
  sound := hp.sound
  nodup := by
    rw [List.map_append, List.nodup_append]
    refine ⟨h.nodup, List.nodup_singleton _, fun a ha b hb => ?_⟩
    rw [List.mem_singleton.1 hb]
    rintro rfl
    exact hd ha
  slot i z hz := by
    rcases Nat.lt_or_ge i es.length with hi | hi
    · rw [List.getElem?_append_left hi] at hz
      obtain ⟨o', ho', hs⟩ := h.slot i z hz
      have hne : z.1 ≠ d := fun heq => hd (heq ▸ mem_of_getElem? hz)
      exact ⟨o', ho', (hp.frame _ hne).trans hs⟩
    · rw [List.getElem?_append_right hi, List.getElem?_singleton] at hz
      split at hz
      · cases hz
        have hlen : i = es.length := by omega
        subst hlen
        exact ⟨o, ho, hp.self⟩
      · cases hz
  frame t ht := by
    rw [List.map_append, List.mem_append, not_or] at ht
    have hne : t ≠ d := fun heq => ht.2 (List.mem_singleton.2 heq)
    rw [hp.frame t hne, ← hb t hne]
    exact h.frame t ht.1
  vacant t ht := by
    rw [List.map_append, List.mem_append] at ht
    rcases ht with ht | ht
    · rw [← hb t fun heq => hd (heq ▸ ht)]
      exact h.vacant t ht
    · rw [List.mem_singleton.1 ht]
      exact hv

/-- The last entry vacates its slot. -/
theorem dropLast (h : Ledger m p base (es ++ [(s, c)]) refs) (hp : Pool.Updated p s none p') :
    Ledger m p' base es refs where
  sound := hp.sound
  nodup := by
    have hnd := h.nodup
    rw [List.map_append] at hnd
    exact (List.nodup_append.1 hnd).1
  slot i y hy := by
    have hlt := (List.getElem?_eq_some_iff.1 hy).1
    obtain ⟨o, ho, hs⟩ := h.slot i y (by rw [List.getElem?_append_left hlt]; exact hy)
    have hnd := h.nodup
    rw [List.map_append, List.nodup_append] at hnd
    have hne := hnd.2.2 y.1 (mem_of_getElem? hy) s (List.mem_singleton_self s)
    exact ⟨o, ho, (hp.frame _ hne).trans hs⟩
  frame t ht := by
    by_cases hts : t = s
    · subst hts
      refine hp.self.trans (h.vacant t ?_).symm
      rw [List.map_append]
      exact List.mem_append_right _ (List.mem_singleton_self t)
    · rw [hp.frame t hts]
      refine h.frame t ?_
      rw [List.map_append, List.mem_append, not_or]
      exact ⟨ht, fun h => hts (List.mem_singleton.1 h)⟩
  vacant t ht := h.vacant t (by rw [List.map_append]; exact List.mem_append_left _ ht)

/-- A handle that names no slot yet is no entry. -/
theorem not_mem (h : Ledger m p base es refs) (hd : p.slot? d = none) : d ∉ es.map Prod.fst := by
  intro hmem
  obtain ⟨⟨s, c⟩, hx, rfl⟩ := List.mem_map.1 hmem
  obtain ⟨i, hi⟩ := List.mem_iff_getElem?.1 hx
  obtain ⟨o, -, hs⟩ := h.slot i _ hi
  cases hd.symm.trans hs

end Ledger

end StateSpace
