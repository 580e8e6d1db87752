import StateSpace.Proofs.Network.Coherent

/-!
# Additions to a network

A network is built by additions, in any order; each is accepted or refused, and `build` goes on with
what it leaves. An addition that is refused has checked before it changed anything, with one exception:
a synchronisation that names a process twice has by then marked the events of the processes before it
(`Addition.refused`). The tables of a network that is built always agree (`build_coherent`).
-/

namespace StateSpace.Network

variable {n n' : Network} {α : Type}

/-! ## Building -/

/-- An addition to a network. -/
inductive Addition where
  | event (name : String)
  | int (name : String) (d : Domain)
  | clock (name : String)
  | process (name : String)
  | location (l : Location)
  | edge (e : Edge)
  | sync (constraints : List (Nat × Nat))

namespace Addition

/-- Makes an addition. -/
def make : Addition → Declaring Unit
  | event name => discard (addEvent name)
  | int name d => discard (addVariable name d)
  | clock name => discard (addClock name)
  | process name => discard (addProcess name)
  | location l => discard (addLocation l)
  | edge e => discard (addEdge e)
  | sync constraints => addSync constraints

/-- The network after an addition, whether it was accepted or refused. -/
def after (a : Addition) (n : Network) : Network :=
  match a.make n with
  | .ok _ n' => n'
  | .error _ n' => n'

end Addition

/-- The network after additions to an empty one. -/
def build (name : String) (as : List Addition) : Network := as.foldl (fun n a => a.after n) { name }

theorem discard_apply (x : Declaring α) (n : Network) : discard x n = match x n with
    | .ok _ n' => .ok () n'
    | .error r n' => .error r n' := by
  show EStateM.map (fun _ => ()) x n = _
  unfold EStateM.map
  cases x n <;> rfl

theorem discard_eq_ok {x : Declaring α} {u : Unit} (h : discard x n = .ok u n') :
    ∃ a, x n = .ok a n' := by
  rw [discard_apply] at h
  split at h
  · rename_i a _ hx
    cases h
    exact ⟨a, hx⟩
  · cases h

theorem discard_eq_error {x : Declaring α} {r : Refusal} (h : discard x n = .error r n') :
    x n = .error r n' := by
  rw [discard_apply] at h
  split at h
  · cases h
  · rename_i hx
    cases h
    exact hx

/-! ## Refusals -/

/-- Marks the events of processes one by one. -/
def mark (n : Network) (pairs : List (Nat × Nat)) : Network :=
  { n with synchronized := pairs.foldl (fun marked c => marked.insert c) n.synchronized }

/-- The marks that a refused addition leaves behind: a synchronisation leaves those before the first
process that is named again, any other addition none. -/
inductive Addition.LeavesMarks : Addition → List (Nat × Nat) → Prop
  | sync {kept rest : List (Nat × Nat)} {c : Nat × Nat} (hdistinct : (kept.map Prod.fst).Nodup)
      (hagain : c.1 ∈ kept.map Prod.fst) : LeavesMarks (.sync (kept ++ c :: rest)) kept
  | other {a : Addition} (h : ∀ constraints, a ≠ .sync constraints) : LeavesMarks a []

/-- Marking ends at a process that was seen; what comes before it stays marked. -/
theorem markSynchronized_refused {seen : List Nat} {cs : List (Nat × Nat)} {r : Refusal}
    (h : markSynchronized seen cs n = .error r n') :
    ∃ kept c rest, cs = kept ++ c :: rest ∧ (kept.map Prod.fst).Nodup ∧ (∀ x ∈ kept, x.1 ∉ seen) ∧
      (c.1 ∈ seen ∨ c.1 ∈ kept.map Prod.fst) ∧ n' = n.mark kept := by
  induction cs generalizing seen n with
  | nil => cases h
  | cons c cs ih =>
    rw [markSynchronized] at h
    by_cases hseen : c.1 ∈ seen
    · refine ⟨[], c, cs, rfl, .nil, by simp, .inl hseen, ?_⟩
      rw [if_pos hseen] at h
      obtain hget | ⟨_, _, hget, h⟩ := estate_bind_eq_error.1 h
      · cases hget
      cases hget
      cases hp : n.processes.get? c.1 with
      | none =>
        rw [hp] at h
        cases h
        rfl
      | some name =>
        rw [hp] at h
        cases h
        rfl
    · rw [if_neg hseen] at h
      obtain ⟨kept, c', rest, rfl, hnd, hnew, hagain, rfl⟩ := ih h
      refine ⟨c :: kept, c', rest, rfl, List.nodup_cons.2 ⟨?_, hnd⟩, ?_, ?_, rfl⟩
      · intro hc
        obtain ⟨x, hx, heq⟩ := List.mem_map.1 hc
        exact hnew x hx (heq ▸ List.mem_cons_self)
      · exact List.forall_mem_cons.2 ⟨hseen, fun x hx hin => hnew x hx (List.mem_cons_of_mem _ hin)⟩
      · simpa [or_left_comm, or_assoc] using hagain

theorem addSync_refused {cs : List (Nat × Nat)} {r : Refusal} (h : addSync cs n = .error r n') :
    markSynchronized [] cs n = .error r n' := by
  obtain hmark | ⟨_, _, -, h⟩ := estate_bind_eq_error.1 h
  · exact hmark
  · cases h

/-- The declaration checks first: refused, it leaves the network as it was. -/
def ChecksFirst (x : Declaring α) : Prop := ∀ n r n', x n = .error r n' → n' = n

theorem addEvent_checksFirst (name : String) : ChecksFirst (addEvent name) := by
  intro n r n' h
  unfold addEvent at h
  split at h <;> cases h
  rfl

theorem addVariable_checksFirst (name : String) (d : Domain) : ChecksFirst (addVariable name d) := by
  intro n r n' h
  unfold addVariable at h
  repeat' split at h
  all_goals cases h
  all_goals rfl

theorem addClock_checksFirst (name : String) : ChecksFirst (addClock name) := by
  intro n r n' h
  unfold addClock at h
  repeat' split at h
  all_goals cases h
  all_goals rfl

theorem addProcess_checksFirst (name : String) : ChecksFirst (addProcess name) := by
  intro n r n' h
  unfold addProcess at h
  split at h <;> cases h
  rfl

theorem addLocation_checksFirst (l : Location) : ChecksFirst (addLocation l) := by
  intro n r n' h
  unfold addLocation at h
  repeat' split at h
  all_goals cases h
  all_goals rfl

theorem addEdge_checksFirst (e : Edge) : ChecksFirst (addEdge e) := by
  intro n r n' h
  unfold addEdge at h
  repeat' split at h
  all_goals cases h
  all_goals rfl

/-- A refused addition changes nothing but marks. -/
theorem Addition.refused {a : Addition} {r : Refusal} (h : a.make n = .error r n') :
    ∃ kept, a.LeavesMarks kept ∧ n' = n.mark kept := by
  cases a with
  | event name => exact ⟨[], .other nofun, addEvent_checksFirst name n r n' (discard_eq_error h)⟩
  | int name d => exact ⟨[], .other nofun, addVariable_checksFirst name d n r n' (discard_eq_error h)⟩
  | clock name => exact ⟨[], .other nofun, addClock_checksFirst name n r n' (discard_eq_error h)⟩
  | process name => exact ⟨[], .other nofun, addProcess_checksFirst name n r n' (discard_eq_error h)⟩
  | location l => exact ⟨[], .other nofun, addLocation_checksFirst l n r n' (discard_eq_error h)⟩
  | edge e => exact ⟨[], .other nofun, addEdge_checksFirst e n r n' (discard_eq_error h)⟩
  | sync cs =>
    obtain ⟨kept, c, rest, rfl, hnd, -, hagain, rfl⟩ := markSynchronized_refused (addSync_refused h)
    exact ⟨kept, .sync hnd (by simpa using hagain), rfl⟩

/-! ## Runs -/

theorem Addition.coherent {a : Addition} (h : n.Coherent) : (a.after n).Coherent := by
  unfold after
  cases hmake : a.make n with
  | error r n' =>
    obtain ⟨kept, -, rfl⟩ := refused hmake
    exact h.withSynchronized _
  | ok u n' =>
    cases a with
    | event name =>
      obtain ⟨_, hadd⟩ := discard_eq_ok hmake
      exact addEvent_coherent h hadd
    | int name d =>
      obtain ⟨_, hadd⟩ := discard_eq_ok hmake
      exact addVariable_coherent h hadd
    | clock name =>
      obtain ⟨_, hadd⟩ := discard_eq_ok hmake
      exact addClock_coherent h hadd
    | process name =>
      obtain ⟨_, hadd⟩ := discard_eq_ok hmake
      exact addProcess_coherent h hadd
    | location l =>
      obtain ⟨_, hadd⟩ := discard_eq_ok hmake
      exact addLocation_coherent h hadd
    | edge e =>
      obtain ⟨_, hadd⟩ := discard_eq_ok hmake
      exact addEdge_coherent h hadd
    | sync cs => exact addSync_coherent h hmake

theorem build_coherent (name : String) (as : List Addition) : (build name as).Coherent := by
  unfold build
  suffices hrun : ∀ n : Network, n.Coherent → (as.foldl (fun n a => a.after n) n).Coherent from
    hrun _ (empty_coherent name)
  induction as with
  | nil => exact fun n h => h
  | cons a as ih => exact fun n h => ih _ (Addition.coherent h)

end StateSpace.Network
