import Mathlib.Data.List.Perm.Basic
import StateSpace.Proofs.Workspace.Placed

/-!
# Who holds the references

Every reference to a pooled state has a holder: the consumer, who got it with a handle, or an iterator
in use that loops on the state. Each call moves references the way its contract says. The consumer
gives up nothing but what it releases; an iterator gives its reference back when it is dropped or given
to a structure, be that its own or another one.
-/

namespace StateSpace

open StateSpace.Action World

namespace Workspace

/-! ## Calls -/

/-- What a consumer asks of the structures of a workspace, and of the iterators that it holds. -/
inductive Call where
  | initialState (k : Nat)
  | clone (k : Nat) (t : Handle)
  | release (k : Nat) (t : Handle)
  | iterate (k : Nat) (t : Handle) (name : String)
  | first (name : String)
  | next (name : String)
  | done (name : String)
  | cond (name : String)
  | destination (name : String)
  | give (k : Nat) (name : String)
  | drop (name : String)

variable {ε α : Type}

/-- Reads something off the iterator with a name. -/
def inspect (name : String) (f : Iterator → α) : Action (Workspace ε) (Option α) := do
  pure (((← get).iterator? name).map f)

namespace Call

/-- The call on a workspace. It answers with the reference that the caller gets, if there is one; other
answers are left out. -/
def run [Engine ε] : Call → Action (Workspace ε) (Option Reference)
  | initialState k => do
    match ← onStructure k Kripke.initialState with
    | .ok t => pure (some (k, t))
    | .error _ => pure none
  | clone k t => do
    let t ← onStructure k (onPool (Pool.clone t))
    pure (some (k, t))
  | release k t => do
    let _ ← onStructure k (onPool (Pool.release t))
    pure none
  | iterate k t name => do
    Workspace.iterate k t name
    pure none
  | first name => do
    let _ ← moveIterator name Iterator.first
    pure none
  | next name => do
    let _ ← moveIterator name Iterator.next
    pure none
  | done name => do
    let _ ← inspect name Iterator.done
    pure none
  | cond name => do
    let _ ← inspect name Iterator.cond
    pure none
  | destination name => do
    match (← get).iterator? name with
    | some it => do
      let t ← Workspace.destination it
      pure (some (it.home, t))
    | none => pure none
  | give k name => do
    giveIterator k name
    pure none
  | drop name => do
    let _ ← dropIterator name
    pure none

/-- A consumer asks open structures only, with handles that it owns and iterators that it holds. -/
def Permitted (w : Workspace ε) (owned : List Reference) : Call → Prop
  | initialState k => ∃ s, w.structure? k = some s
  | clone k t | release k t | iterate k t _ => (k, t) ∈ owned
  | first name | next name | done name | cond name | destination name | drop name =>
    ∃ it, w.iterator? name = some it
  | give k name => (∃ s, w.structure? k = some s) ∧ ∃ it, w.iterator? name = some it

/-- What the consumer owns after a call that gained a reference, or none. -/
def owned (gained : Option Reference) (owned : List Reference) : Call → List Reference
  | release k t => owned.erase (k, t)
  | _ => gained.toList ++ owned

end Call

/-! ## Iterators by name -/

section Named

variable {its : List (String × Iterator)} {name : String} {it : Iterator}

/-- The references that iterators hold. -/
def held (its : List (String × Iterator)) : List Reference := its.flatMap fun x => x.2.references

/-- The iterators with other names. -/
def without (name : String) (its : List (String × Iterator)) : List (String × Iterator) :=
  its.filter (·.1 != name)

theorem without_eq_self (h : name ∉ its.map Prod.fst) : without name its = its := by
  apply List.filter_eq_self.2
  intro x hx
  rw [bne_iff_ne]
  rintro rfl
  exact h (List.mem_map_of_mem hx)

theorem without_without (name : String) (its : List (String × Iterator)) :
    without name (without name its) = without name its := by
  unfold without
  rw [List.filter_filter]
  simp only [Bool.and_self]

/-- An iterator and those with other names are all there are. -/
theorem perm_of_lookup (hnd : (its.map Prod.fst).Nodup) (h : its.lookup name = some it) :
    its.Perm ((name, it) :: without name its) := by
  induction its with
  | nil => cases h
  | cons x its ih =>
    obtain ⟨n, j⟩ := x
    obtain ⟨hn, hnd⟩ := List.nodup_cons.1 hnd
    rw [List.lookup_cons] at h
    by_cases heq : name = n
    · subst heq
      rw [beq_self_eq_true] at h
      cases h
      have hself : without name ((name, it) :: its) = its := by
        unfold without
        rw [List.filter_cons_of_neg (by simp)]
        exact without_eq_self hn
      rw [hself]
    · rw [beq_false_of_ne heq] at h
      have hcons : without name ((n, j) :: its) = (n, j) :: without name its := by
        unfold without
        rw [List.filter_cons_of_pos (by simpa using Ne.symm heq)]
      rw [hcons]
      exact ((ih hnd h).cons _).trans (.swap ..)

theorem mem_of_lookup (hnd : (its.map Prod.fst).Nodup) (h : its.lookup name = some it) :
    (name, it) ∈ its := (perm_of_lookup hnd h).mem_iff.2 List.mem_cons_self

theorem held_perm (hnd : (its.map Prod.fst).Nodup) (h : its.lookup name = some it) :
    (held its).Perm (it.references ++ held (without name its)) :=
  (perm_of_lookup hnd h).flatMap_right _

theorem without_of_lookup_none (h : its.lookup name = none) : without name its = its := by
  apply without_eq_self
  intro hmem
  obtain ⟨x, hx, rfl⟩ := List.mem_map.1 hmem
  have := List.lookup_eq_none_iff.1 h x hx
  simp at this

theorem nodup_without (hnd : (its.map Prod.fst).Nodup) (name : String) :
    ((without name its).map Prod.fst).Nodup := hnd.sublist (List.filter_sublist.map _)

theorem not_mem_without (name : String) (its : List (String × Iterator)) :
    name ∉ (without name its).map Prod.fst := by
  intro hmem
  obtain ⟨x, hx, rfl⟩ := List.mem_map.1 hmem
  have := (List.mem_filter.1 hx).2
  simp at this

end Named

/-! ## Running calls on iterators -/

section Run

variable {w : Workspace ε} {name : String} {it : Iterator}

theorem takeIterator_ok (w : Workspace ε) (name : String) : takeIterator name w =
    .ok (w.iterator? name) { w with iterators := without name w.iterators } := rfl

theorem putIterator_ok (w : Workspace ε) (name : String) (it : Iterator) : putIterator name it w =
    .ok () { w with iterators := (name, it) :: without name w.iterators } := rfl

theorem moveIterator_ok (h : w.iterator? name = some it) (f : Iterator → Bool × Iterator) :
    moveIterator name f w = .ok (some (f it).1)
      { w with iterators := (name, (f it).2) :: without name w.iterators } := by
  unfold moveIterator
  rw [bind_ok (get_apply w), h]
  rfl

theorem inspect_ok (w : Workspace ε) (name : String) (f : Iterator → α) :
    inspect name f w = .ok ((w.iterator? name).map f) w := rfl

theorem grows_closeIterator (it : Iterator) : Grows (closeIterator it : Action (Workspace ε) Unit) := by
  apply grows_onPlaced
  exact grows_of_keeps fun hI => hI.pool (it.orderly_close)

end Run

/-! ## Calls on structures and iterators -/

section Follows

variable [Engine ε] [LawfulEngine ε] {w w' : Workspace ε} {k : Nat} {s : Kripke ε} {t : Handle}
  {rs : List Reference} {it : Iterator}

/-- The pool of an iterator is there, and its successors are states of the engine. -/
def Serves (w : Workspace ε) (it : Iterator) : Prop :=
  ∃ s, w.At it.home s ∧ it.Proper ε (Engine.network s.engine)

theorem Follows.serves (h : w.Follows rs w') (hit : w.Serves it) : w'.Serves it := by
  obtain ⟨s, hs, hproper⟩ := hit
  obtain ⟨s', hs', hnet⟩ := h.network _ s hs
  exact ⟨s', hs', hnet ▸ hproper⟩

theorem initialState_follows (h : w.InOrder rs) (hk : w.At k s) :
    EnsuresFit (onStructure k Kripke.initialState) w fun r w' =>
      w.Follows (r.toOption.toList.map (k, ·) ++ rs) w' := by
  obtain rfl := h.id k s hk
  refine (onStructure_follows h hk (P := fun _ => True) ?_ fun r _ => ?_).mono fun _ _ hr => hr.1
  · exact ((World.initialState_follows (h.world _ s hk)).mono fun _ _ hv => ⟨hv, trivial⟩).fit
  · apply agreeElsewhere_append
    intro x hx
    obtain ⟨t, -, rfl⟩ := List.mem_map.1 hx
    rfl

theorem clone_follows (h : w.InOrder rs) (ht : (k, t) ∈ rs) (hroom : rs.count (k, t) + 1 < 2 ^ 32) :
    EnsuresFit (onStructure k (onPool (Pool.clone t))) w fun t' w' =>
      w.Follows ((k, t) :: rs) w' ∧ t' = t := by
  obtain ⟨s, hk⟩ := h.placed _ ht
  obtain rfl := h.id k s hk
  refine onStructure_follows h hk ?_ fun _ _ => agreeElsewhere_cons _ t rs
  exact ((World.clone_follows (h.world _ s hk) ht hroom).mono fun _ _ hv => ⟨hv.2, hv.1⟩).fit

theorem release_follows (h : w.InOrder ((k, t) :: rs)) :
    EnsuresFit (onStructure k (onPool (Pool.release t))) w fun _ w' => w.Follows rs w' := by
  obtain ⟨s, hk⟩ := h.placed _ List.mem_cons_self
  obtain rfl := h.id k s hk
  refine (onStructure_follows h hk (P := fun _ => True) ?_ fun _ _ => ?_).mono fun _ _ hr => hr.1
  · exact ((World.release_follows (h.world _ s hk)).mono fun _ _ hv => ⟨hv, trivial⟩).fit
  · exact (agreeElsewhere_cons _ t rs).symm

theorem successors_follows (h : w.InOrder rs) (ht : (k, t) ∈ rs)
    (hroom : rs.count (k, t) + 1 < 2 ^ 32) (others : InUse) :
    EnsuresFit (onStructure k (Kripke.successors others t)) w fun it w' =>
      w.Follows (it.references ++ rs) w' ∧ w'.Serves it := by
  obtain ⟨s, hk⟩ := h.placed _ ht
  obtain rfl := h.id k s hk
  refine (onStructure_follows h hk (World.successors_follows (h.world _ s hk) ht hroom others)
    fun it hit => ?_).mono fun it w' ⟨hf, hhome, hproper⟩ => ⟨hf, ?_⟩
  · apply agreeElsewhere_append
    intro r hr
    exact (Iterator.home_of_mem_references hr).trans hit.1
  · exact hf.serves ⟨s, by rw [hhome]; exact hk, hproper⟩

theorem closeIterator_follows (h : w.InOrder (it.references ++ rs)) (hit : w.Serves it) :
    EnsuresFit (closeIterator it) w fun _ w' => w.Follows rs w' := by
  obtain ⟨s, hk, -⟩ := hit
  have hhome : it.home = s.pool.id := (h.id _ s hk).symm
  refine (onPlaced_follows h hk (P := fun _ => True) ?_ fun _ _ => ?_).mono fun _ _ hr => hr.1
  · exact ((World.close_follows (h.world _ s hk) hhome).mono fun _ _ hv => ⟨hv, trivial⟩).fit
  · exact (agreeElsewhere_append fun r hr => Iterator.home_of_mem_references hr).symm

theorem retire_follows (h : w.InOrder (it.references ++ rs)) (hk : w.At k s) :
    EnsuresFit (onStructure k (Kripke.retire it)) w fun kept w' =>
      w.Follows (if kept then rs else it.references ++ rs) w' := by
  obtain rfl := h.id k s hk
  refine (onStructure_follows h hk (World.retire_follows (h.world _ s hk)).fit fun kept hkept => ?_).mono
    fun _ _ hr => hr.1
  cases kept with
  | true =>
    refine (agreeElsewhere_append fun r hr => ?_).symm
    exact (Iterator.home_of_mem_references hr).trans (hkept rfl)
  | false => exact fun _ _ _ => rfl

theorem destination_follows (h : w.InOrder rs)
    (hheld : ∀ r ∈ it.references, r ∈ rs ∧ rs.count r + 1 < 2 ^ 32)
    (hit : w.Serves it) (hdone : it.done = false) :
    EnsuresFit (Workspace.destination it) w fun t w' => w.Follows ((it.home, t) :: rs) w' := by
  obtain ⟨s, hk, hproper⟩ := hit
  have hhome : it.home = s.pool.id := (h.id _ s hk).symm
  refine (onPlaced_follows h hk (P := fun _ => True) ?_ fun t _ => ?_).mono fun _ _ hr => hr.1
  · refine ((World.destination_follows (h.world _ s hk) hhome hheld hproper hdone).mono
      fun _ _ hv => ⟨?_, trivial⟩).fit
    rw [hhome]
    exact hv
  · exact agreeElsewhere_cons _ t rs

/-- An exhausted iterator has no destination, and nothing changes. -/
theorem destination_exhausted (hit : w.Serves it) (hdone : it.done = true) :
    Workspace.destination it w = .error .exhausted w := by
  obtain ⟨s, hk, -⟩ := hit
  have hrun : onPool it.destination (⟨w.dict, s⟩ : World ε) = .error .exhausted ⟨w.dict, s⟩ :=
    onPool_error (w := ⟨w.dict, s⟩) (Iterator.destination_exhausted hdone)
  exact (onPlaced_error hk hrun).trans (by rw [withWorld_self hk])

end Follows

end Workspace

end StateSpace
