import StateSpace.Proofs.Network.Parse

/-!
# Synchronisations of parsed networks

The events that are only taken in a synchronisation are exactly those that some synchronisation
names. A synchronisation names two processes or more, and none of them twice.
-/

namespace StateSpace.Network

variable {n n' : Network} {α : Type}

/-- Marked events and declared synchronisations agree. -/
structure SyncsMatch (n : Network) : Prop where
  marked : ∀ c, c ∈ n.synchronized ↔ ∃ s ∈ n.syncs, c ∈ s
  distinct : ∀ s ∈ n.syncs, (s.map Prod.fst).Nodup
  joint : ∀ s ∈ n.syncs, 2 ≤ s.length

theorem empty_syncsMatch (name : String) : SyncsMatch { name } where
  marked c := by simp
  distinct s h := by cases h
  joint s h := by cases h

theorem SyncsMatch.of_same (h : n.SyncsMatch) (hs : n'.syncs = n.syncs)
    (hm : n'.synchronized = n.synchronized) : n'.SyncsMatch where
  marked c := by rw [hs, hm, h.marked]
  distinct s hin := h.distinct s (hs ▸ hin)
  joint s hin := h.joint s (hs ▸ hin)

theorem addSync_syncsMatch {cs : List (Nat × Nat)} (h : n.SyncsMatch) (hlen : 2 ≤ cs.length)
    (hadd : addSync cs n = .ok () n') : n'.SyncsMatch := by
  obtain ⟨_, n₁, hmark, hadd⟩ := estate_bind_eq_ok.1 hadd
  obtain ⟨pairs, rfl, hmem, hnd, -⟩ := markSynchronized_eq hmark
  cases hadd
  have hforall : ∀ {P : List (Nat × Nat) → Prop}, (∀ s ∈ n.syncs, P s) → P cs →
      ∀ s ∈ n.syncs ++ [cs], P s := by
    intro P hold hnew s hs
    rcases List.mem_append.1 hs with hs | hs
    · exact hold s hs
    · exact List.mem_singleton.1 hs ▸ hnew
  refine ⟨fun c => ?_, hforall h.distinct hnd, hforall h.joint hlen⟩
  show c ∈ pairs ↔ ∃ s ∈ n.syncs ++ [cs], c ∈ s
  simp only [hmem, h.marked, List.mem_append, List.mem_singleton, or_and_right, exists_or,
    exists_eq_left]

/-- A declaration that is none of a synchronisation leaves them all as they are. -/
theorem Declares.syncsMatch (h : n.SyncsMatch) (hdecl : n.Declares n') : n'.SyncsMatch := by
  cases hdecl with
  | nothing => exact h
  | system name => exact h.of_same rfl rfl
  | event hadd =>
    unfold addEvent at hadd
    split at hadd <;> cases hadd
    exact h.of_same rfl rfl
  | int hadd =>
    unfold addVariable at hadd
    repeat' split at hadd
    all_goals cases hadd
    exact h.of_same rfl rfl
  | clock hadd =>
    unfold addClock at hadd
    repeat' split at hadd
    all_goals cases hadd
    exact h.of_same rfl rfl
  | process hadd =>
    unfold addProcess at hadd
    split at hadd <;> cases hadd
    exact h.of_same rfl rfl
  | location _ hadd =>
    unfold addLocation at hadd
    repeat' split at hadd
    all_goals cases hadd
    exact h.of_same rfl rfl
  | edge _ hadd =>
    unfold addEdge at hadd
    repeat' split at hadd
    all_goals cases hadd
    exact h.of_same rfl rfl
  | sync hlen _ hadd => exact addSync_syncsMatch h hlen hadd

/-- In every network that is read from a text, marked events and synchronisations agree. -/
theorem parse_syncsMatch {text : String} {ws : List Warning} (h : parse text = .ok (n, ws)) :
    n.SyncsMatch :=
  parse_induct (empty_syncsMatch _) (fun _ _ _ hs hdecl => hdecl.syncsMatch hs) h

theorem SyncsMatch.isSynchronized_iff (h : n.SyncsMatch) {p e : Nat} :
    n.isSynchronized p e = true ↔ ∃ s ∈ n.syncs, (p, e) ∈ s := by
  unfold isSynchronized
  rw [List.contains_iff_mem, h.marked]

end StateSpace.Network
