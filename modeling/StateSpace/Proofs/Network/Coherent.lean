import StateSpace.Network.Basic
import StateSpace.Proofs.Action

/-!
# Coherent networks

A network keeps the same facts in several tables: names in both directions, locations by process and
by name, edges by the location that they leave. In a coherent network these tables agree. Every
declaration keeps a network coherent, whatever it declares: what is added is checked against the
tables, and expressions play no part.

The tables that agree with each other form three groups, so a declaration has to answer for the group
that it changes only.
-/

namespace StateSpace

/-! ## Name tables -/

namespace NameTable

variable {t t' : NameTable} {name name' : String} {id : Nat}

theorem getElem?_of_find? (h : t.find? name = some id) : t.names[id]? = some name :=
  (t.inverse name id).1 h

theorem find?_lt (h : t.find? name = some id) : id < t.size :=
  (Array.getElem?_eq_some_iff.1 (getElem?_of_find? h)).1

theorem add?_eq_some (h : t.add? name = some (id, t')) :
    id = t.size ∧ t'.names = t.names.push name ∧ t'.ids = (name, t.size) :: t.ids ∧
      t.find? name = none := by
  unfold add? at h
  split at h
  · cases h
  · cases h
    exact ⟨rfl, rfl, rfl, by assumption⟩

theorem size_add? (h : t.add? name = some (id, t')) : t'.size = t.size + 1 := by
  unfold size
  rw [(add?_eq_some h).2.1, Array.size_push]

/-- A name that is found in the larger table is the new one or was there before. -/
theorem find?_add? (h : t.add? name = some (id, t')) :
    t'.find? name' = if name' = name then some id else t.find? name' := by
  obtain ⟨rfl, -, hids, -⟩ := add?_eq_some h
  unfold find?
  rw [hids, List.lookup_cons]
  by_cases heq : name' = name
  · simp [heq]
  · simp [heq, beq_eq_false_iff_ne.2 heq]

end NameTable

namespace Network

variable {n n' : Network} {p l i : Nat} {domains : Array Domain} {locations : Array Location}
  {byProcess : Array (List (String × Nat))} {edges : Array Edge} {leaving : Array (List Nat)}

theorem belongs_iff : n.belongs p l = true ↔ ∃ loc, n.locations[l]? = some loc ∧ loc.process = p := by
  unfold belongs
  cases n.locations[l]? with
  | none => simp
  | some loc => simp

theorem lt_size_of_any {f : Location → Bool} (h : (locations[l]?).any f = true) :
    l < locations.size := by
  obtain ⟨loc, hl, -⟩ := (Option.any_eq_true ..).1 h
  exact (Array.getElem?_eq_some_iff.1 hl).1

theorem belongs_lt (h : n.belongs p l = true) : l < n.locations.size := lt_size_of_any h

/-! ## Tables that agree -/

/-- Every variable has a domain around its initial value, and none is a clock as well. -/
structure VariablesAgree (ints clocks : NameTable) (domains : Array Domain) : Prop where
  domains_size : domains.size = ints.size
  domain : ∀ (i : Nat) (d : Domain), domains[i]? = some d → d.contains d.initial.toInt64 = true
  apart : ∀ (name : String) (i : Nat), ints.find? name = some i → clocks.find? name = none

/-- A location with its number is one of a process. -/
structure LocationPlaced (processes i : Nat) (l : Location) : Prop where
  id : l.id = i
  process : l.process < processes

/-- The numbers by name are those of the locations of a process. -/
structure Lists (locations : Array Location) (p : Nat) (ids : List (String × Nat)) : Prop where
  lookup : ∀ name i, ids.lookup name = some i ↔
    ∃ l, locations[i]? = some l ∧ l.process = p ∧ l.name = name
  length : ids.length = locations.countP (·.process == p)

/-- Every location is one of a process, and every process lists its own locations. -/
structure LocationsAgree (processes : Nat) (locations : Array Location)
    (byProcess : Array (List (String × Nat))) : Prop where
  location : ∀ i l, locations[i]? = some l → LocationPlaced processes i l
  byProcess_size : byProcess.size = processes
  lists : ∀ p ids, byProcess[p]? = some ids → Lists locations p ids

/-- An edge with its number joins locations of its process. -/
structure EdgePlaced (locations : Array Location) (i : Nat) (e : Edge) : Prop where
  id : e.id = i
  source : (locations[e.source]?).any (·.process == e.process) = true
  target : (locations[e.target]?).any (·.process == e.process) = true

/-- Every edge joins locations of its process, and every location lists the edges that leave it. -/
structure EdgesAgree (locations : Array Location) (edges : Array Edge)
    (leaving : Array (List Nat)) : Prop where
  edge : ∀ i e, edges[i]? = some e → EdgePlaced locations i e
  leaving_size : leaving.size = locations.size
  leaving : ∀ l ids, leaving[l]? = some ids →
    ids = (List.range edges.size).filter fun i => (edges[i]?).any (·.source == l)

/-- All tables of the network agree. -/
structure Coherent (n : Network) : Prop extends
    VariablesAgree n.ints n.clocks n.domains,
    LocationsAgree n.processes.size n.locations n.byProcess,
    EdgesAgree n.locations n.edges n.leaving

theorem empty_coherent (name : String) : Coherent { name } where
  domains_size := rfl
  domain i d h := by simp at h
  apart name i h := by cases h
  location i l h := by simp at h
  byProcess_size := rfl
  lists p ids h := by simp at h
  edge i e h := by simp at h
  leaving_size := rfl
  leaving l ids h := by simp at h

/-- Marks of synchronised events have no part in it. -/
theorem Coherent.withSynchronized (h : n.Coherent) (pairs : List (Nat × Nat)) :
    Coherent { n with synchronized := pairs } :=
  ⟨h.toVariablesAgree, h.toLocationsAgree, h.toEdgesAgree⟩

/-! ## Locations by name -/

section

variable {ids : List (String × Nat)} {loc : Location}

theorem lists_nil (h : ∀ (i : Nat) (l : Location), locations[i]? = some l → l.process ≠ p) :
    Lists locations p [] where
  lookup name i := by
    simp only [List.lookup_nil, reduceCtorEq, false_iff]
    rintro ⟨l, hl, hp, -⟩
    exact h i l hl hp
  length := by
    rw [List.length_nil, eq_comm, Array.countP_eq_zero]
    intro l hl hp
    obtain ⟨i, hi⟩ := Array.mem_iff_getElem?.1 hl
    exact h i l hi (beq_iff_eq.1 hp)

/-- A new location of another process is not listed. -/
theorem Lists.push_other (h : Lists locations p ids) (hp : loc.process ≠ p) :
    Lists (locations.push loc) p ids where
  lookup name i := by
    rw [h.lookup]
    refine exists_congr fun l => and_congr_left fun hl => ?_
    rw [Array.getElem?_push]
    split
    · rename_i hi
      have hnone : locations[i]? = none := by simp [hi]
      simp only [hnone, reduceCtorEq, Option.some.injEq, false_iff]
      rintro rfl
      exact hp hl.1
    · rfl
  length := by
    rw [h.length, Array.countP_push]
    simp [hp]

/-- A new location of the process is listed under its name. -/
theorem Lists.push_own (h : Lists locations p ids) (hp : loc.process = p)
    (hfresh : ids.lookup loc.name = none) :
    Lists (locations.push loc) p ((loc.name, locations.size) :: ids) where
  lookup name i := by
    rw [List.lookup_cons]
    by_cases hname : name = loc.name
    · subst hname
      have hnone : ∀ l, locations[i]? = some l → l.process = p → l.name ≠ loc.name := by
        intro l hl hlp hln
        rw [(h.lookup _ _).2 ⟨l, hl, hlp, hln⟩] at hfresh
        cases hfresh
      simp only [BEq.rfl, Option.some.injEq, Array.getElem?_push]
      constructor
      · rintro rfl
        exact ⟨loc, by simp, hp, rfl⟩
      · rintro ⟨l, hl, hlp, hln⟩
        split at hl
        · omega
        · exact absurd hln (hnone l hl hlp)
    · rw [beq_eq_false_iff_ne.2 hname]
      simp only [h.lookup, Array.getElem?_push]
      refine exists_congr fun l => and_congr_left fun hl => ?_
      split
      · rename_i hi
        have hnone : locations[i]? = none := by simp [hi]
        simp only [hnone, reduceCtorEq, Option.some.injEq, false_iff]
        rintro rfl
        exact hname hl.2.symm
      · rfl
  length := by
    rw [List.length_cons, h.length, Array.countP_push]
    simp [hp]

end

/-! ## Growing tables -/

/-- A new location of a process joins the list of that process only. -/
theorem LocationsAgree.push {processes : Nat} {l : Location} {ids : List (String × Nat)}
    (h : LocationsAgree processes locations byProcess) (hids : byProcess[l.process]? = some ids)
    (hfresh : ids.lookup l.name = none) :
    LocationsAgree processes (locations.push { l with id := locations.size })
      (byProcess.modify l.process ((l.name, locations.size) :: ·)) where
  location i loc hi := by
    rw [Array.getElem?_push] at hi
    split at hi
    · rename_i hlast
      cases hi
      refine ⟨hlast.symm, ?_⟩
      rw [← h.byProcess_size]
      exact (Array.getElem?_eq_some_iff.1 hids).1
    · exact h.location i loc hi
  byProcess_size := by rw [Array.size_modify, h.byProcess_size]
  lists p ids' hp := by
    rw [Array.getElem?_modify] at hp
    by_cases heq : l.process = p
    · subst heq
      rw [if_pos rfl, hids] at hp
      cases hp
      exact (h.lists _ _ hids).push_own rfl hfresh
    · rw [if_neg heq] at hp
      exact (h.lists p ids' hp).push_other heq

/-- What joins locations of a process still does when there are more locations. -/
theorem EdgePlaced.push {e : Edge} (h : EdgePlaced locations i e) (l : Location) :
    EdgePlaced (locations.push l) i e := by
  have hold : ∀ {p k : Nat}, (locations[k]?).any (·.process == p) = true →
      ((locations.push l)[k]?).any (·.process == p) = true := by
    intro p k hk
    rw [Array.getElem?_push, if_neg (Nat.ne_of_lt (lt_size_of_any hk))]
    exact hk
  exact ⟨h.id, hold h.source, hold h.target⟩

/-- No edge leaves a new location, since all edges leave older ones. -/
theorem EdgesAgree.pushLocation (h : EdgesAgree locations edges leaving) (l : Location) :
    EdgesAgree (locations.push l) edges (leaving.push []) where
  edge i e hi := (h.edge i e hi).push l
  leaving_size := by rw [Array.size_push, Array.size_push, h.leaving_size]
  leaving k ids hk := by
    rw [Array.getElem?_push] at hk
    split at hk
    · rename_i hlast
      cases hk
      refine (List.filter_eq_nil_iff.2 fun j hj => ?_).symm
      cases hej : edges[j]? with
      | none => simp
      | some e =>
        have hlt : e.source < locations.size := lt_size_of_any (h.edge j e hej).source
        have hne : e.source ≠ k := by rw [hlast, h.leaving_size]; exact Nat.ne_of_lt hlt
        simpa using hne
    · exact h.leaving k ids hk

/-- A new edge joins the list of the location that it leaves only. -/
theorem EdgesAgree.push {e : Edge} (h : EdgesAgree locations edges leaving)
    (he : EdgePlaced locations edges.size { e with id := edges.size }) :
    EdgesAgree locations (edges.push { e with id := edges.size })
      (leaving.modify e.source (· ++ [edges.size])) where
  edge i e' hi := by
    rw [Array.getElem?_push] at hi
    split at hi
    · rename_i hlast
      cases hi
      exact hlast ▸ he
    · exact h.edge i e' hi
  leaving_size := by rw [Array.size_modify, h.leaving_size]
  leaving l ids hl := by
    have hold : ((List.range edges.size).filter fun i =>
        ((edges.push { e with id := edges.size })[i]?).any (·.source == l)) =
        (List.range edges.size).filter fun i => (edges[i]?).any (·.source == l) := by
      refine List.filter_congr fun i hi => ?_
      rw [Array.getElem?_push, if_neg (Nat.ne_of_lt (List.mem_range.1 hi))]
    simp only [Array.size_push, List.range_succ, List.filter_append, hold]
    rw [Array.getElem?_modify] at hl
    by_cases hleft : e.source = l
    · rw [if_pos hleft, Option.map_eq_some_iff] at hl
      obtain ⟨ids', hids, rfl⟩ := hl
      simp [h.leaving l ids' hids, hleft]
    · rw [if_neg hleft] at hl
      simp [h.leaving l ids hl, hleft]

/-! ## Declarations -/

theorem addEvent_coherent {name : String} {id : Nat} (h : n.Coherent)
    (hadd : addEvent name n = .ok id n') : n'.Coherent := by
  unfold addEvent at hadd
  split at hadd
  · cases hadd
    exact ⟨h.toVariablesAgree, h.toLocationsAgree, h.toEdgesAgree⟩
  · cases hadd

theorem addVariable_coherent {name : String} {d : Domain} {id : Nat} (h : n.Coherent)
    (hadd : addVariable name d n = .ok id n') : n'.Coherent := by
  unfold addVariable at hadd
  split at hadd
  · cases hadd
  rename_i hd
  split at hadd
  · cases hadd
  rename_i hclock
  split at hadd
  · rename_i hnew
    cases hadd
    refine ⟨⟨?_, fun i d' hi => ?_, fun name' i hi => ?_⟩, h.toLocationsAgree, h.toEdgesAgree⟩
    · simp only [Array.size_push, NameTable.size_add? hnew, h.domains_size]
    · rw [Array.getElem?_push] at hi
      split at hi
      · cases hi
        simpa using fun hc => hd (.inr hc)
      · exact h.domain i d' hi
    · rw [NameTable.find?_add? hnew] at hi
      split at hi
      · rename_i heq
        simpa [heq] using hclock
      · exact h.apart name' i hi
  · cases hadd

theorem addClock_coherent {name : String} {id : Nat} (h : n.Coherent)
    (hadd : addClock name n = .ok id n') : n'.Coherent := by
  unfold addClock at hadd
  split at hadd
  · cases hadd
  rename_i hint
  split at hadd
  · rename_i hnew
    cases hadd
    refine ⟨⟨h.domains_size, h.domain, fun name' i hi => ?_⟩, h.toLocationsAgree, h.toEdgesAgree⟩
    rw [NameTable.find?_add? hnew]
    split
    · rename_i heq
      subst heq
      simp [hi] at hint
    · exact h.apart name' i hi
  · cases hadd

theorem addProcess_coherent {name : String} {id : Nat} (h : n.Coherent)
    (hadd : addProcess name n = .ok id n') : n'.Coherent := by
  unfold addProcess at hadd
  split at hadd
  · rename_i hnew
    cases hadd
    refine ⟨h.toVariablesAgree, ⟨fun i l hi => ?_, ?_, fun p ids hp => ?_⟩, h.toEdgesAgree⟩
    · have hplaced := h.location i l hi
      refine ⟨hplaced.id, Nat.lt_of_lt_of_le hplaced.process ?_⟩
      rw [NameTable.size_add? hnew]
      exact Nat.le_succ _
    · rw [Array.size_push, NameTable.size_add? hnew, h.byProcess_size]
    · rw [Array.getElem?_push] at hp
      split at hp
      · rename_i hlast
        cases hp
        refine lists_nil fun i l hi hlp => ?_
        have := (h.location i l hi).process
        rw [← h.byProcess_size] at this
        omega
      · exact h.lists p ids hp
  · cases hadd

theorem addLocation_coherent {l : Location} {id : Nat} (h : n.Coherent)
    (hadd : addLocation l n = .ok id n') : n'.Coherent := by
  unfold addLocation at hadd
  split at hadd
  · cases hadd
  rename_i ids hids
  split at hadd
  · cases hadd
  rename_i hfresh
  cases hadd
  exact ⟨h.toVariablesAgree, h.toLocationsAgree.push hids hfresh, h.toEdgesAgree.pushLocation _⟩

theorem addEdge_coherent {e : Edge} {id : Nat} (h : n.Coherent)
    (hadd : addEdge e n = .ok id n') : n'.Coherent := by
  unfold addEdge at hadd
  split at hadd
  · cases hadd
  rename_i hsource
  split at hadd
  · cases hadd
  rename_i htarget
  cases hadd
  exact ⟨h.toVariablesAgree, h.toLocationsAgree, h.toEdgesAgree.push
    ⟨rfl, by simpa [belongs] using hsource, by simpa [belongs] using htarget⟩⟩

/-- Marking succeeds only if no process is named twice; it marks what is named and nothing else. -/
theorem markSynchronized_eq {seen : List Nat} {cs : List (Nat × Nat)}
    (h : markSynchronized seen cs n = .ok () n') :
    ∃ pairs, n' = { n with synchronized := pairs } ∧
      (∀ c, c ∈ pairs ↔ c ∈ n.synchronized ∨ c ∈ cs) ∧
      (cs.map Prod.fst).Nodup ∧ ∀ c ∈ cs, c.1 ∉ seen := by
  induction cs generalizing seen n with
  | nil =>
    cases h
    exact ⟨_, rfl, by simp, .nil, fun _ h => by cases h⟩
  | cons c cs ih =>
    rw [markSynchronized] at h
    split at h
    · obtain ⟨_, _, hget, h⟩ := estate_bind_eq_ok.1 h
      cases hget
      cases hp : n.processes.get? c.1 with
      | some name =>
        simp only [hp] at h
        obtain ⟨_, _, hthrow, -⟩ := estate_bind_eq_ok.1 h
        cases hthrow
      | none =>
        simp only [hp] at h
        obtain ⟨_, _, hthrow, -⟩ := estate_bind_eq_ok.1 h
        cases hthrow
    · rename_i hseen
      obtain ⟨_, _, hmod, h⟩ := estate_bind_eq_ok.1 h
      cases hmod
      obtain ⟨pairs, hp, hmem, hnd, hnew⟩ := ih h
      refine ⟨pairs, hp, fun c' => ?_, ?_, ?_⟩
      · rw [hmem, List.mem_insert_iff, List.mem_cons, or_left_comm, or_assoc]
      · refine List.nodup_cons.2 ⟨fun hc => ?_, hnd⟩
        obtain ⟨c', hc', heq⟩ := List.mem_map.1 hc
        exact hnew c' hc' (heq ▸ List.mem_cons_self)
      · refine List.forall_mem_cons.2 ⟨hseen, fun c' hc' hin => ?_⟩
        exact hnew c' hc' (List.mem_cons_of_mem _ hin)

theorem addSync_coherent {cs : List (Nat × Nat)} (h : n.Coherent) (hadd : addSync cs n = .ok () n') :
    n'.Coherent := by
  obtain ⟨_, n₁, hmark, hadd⟩ := estate_bind_eq_ok.1 hadd
  obtain ⟨pairs, rfl, -⟩ := markSynchronized_eq hmark
  cases hadd
  exact ⟨h.toVariablesAgree, h.toLocationsAgree, h.toEdgesAgree⟩

/-! ## Locations of a process -/

/-- No two locations of a process have the same name. -/
def NamesDiffer (n : Network) : Prop :=
  ∀ (i j : Nat) (l m : Location), n.locations[i]? = some l → n.locations[j]? = some m →
    l.process = m.process → l.name = m.name → i = j

theorem Coherent.findLocation?_eq_some_iff (h : n.Coherent) {name : String} :
    n.findLocation? p name = some i ↔
      ∃ l, n.locations[i]? = some l ∧ l.process = p ∧ l.name = name := by
  unfold findLocation?
  cases hids : n.byProcess[p]? with
  | none =>
    simp only [Option.bind_none, reduceCtorEq, false_iff]
    rintro ⟨l, hl, rfl, -⟩
    have hlt := (h.location i l hl).process
    have hge := Array.getElem?_eq_none_iff.1 hids
    rw [h.byProcess_size] at hge
    omega
  | some ids => exact (h.lists p ids hids).lookup name i

theorem Coherent.namesDiffer (h : n.Coherent) : n.NamesDiffer := by
  intro i j l m hi hj hp hname
  have hl := h.findLocation?_eq_some_iff.2 ⟨l, hi, rfl, rfl⟩
  have hm := h.findLocation?_eq_some_iff.2 ⟨m, hj, hp.symm, hname.symm⟩
  rw [hl] at hm
  exact Option.some.inj hm

end Network

end StateSpace
