import StateSpace.Engine.Graph
import StateSpace.Proofs.Kripke.Names
import StateSpace.Proofs.Workspace.Placed

/-!
# The end of structures

Structures are built, used and closed in any order while other parties use the dictionary as well. Every
event changes the names by calls that can be told beforehand (`Event.calls`). No two structures share a
party, and no party of a structure was there before it. So when a structure is gone, the names are as if
it had never registered any.
-/

namespace StateSpace.Workspace

open StateSpace.Action Registry

variable {ε : Type} {w w' : Workspace ε} {k : Nat} {s : Kripke ε} {o : Owner}

/-! ## Events -/

/-- What happens to the structures and to their dictionary. -/
inductive Event (ε : Type) where
  /-- Some other party asks for something of the dictionary. -/
  | request (q : Dictionary.Request)
  | build (engine : ε) (names : List String) (o : Options)
  | move (k : Nat) (m : Move)
  | close (k : Nat)
  | closeSession (k : Nat)

namespace Event

variable [Engine ε] {e : Event ε}

/-- The event as an action; its answer is left out. -/
def run : Event ε → Action (Workspace ε) Unit
  | request q => onDict q.run
  | build engine names o => do let _ ← Workspace.build engine names o
  | move k m => onStructure k m.run
  | close k => do let _ ← closeStructure k
  | closeSession k => do let _ ← Workspace.closeSession k

/-- The calls to the names of the dictionary. A structure that is closed gives up its registrations when
it has no session, or with its last one. -/
def calls (w : Workspace ε) : Event ε → List Registry.Call
  | request q => q.calls
  | build engine names o => Kripke.createCalls w.structures.size engine names o w.dict
  | move k m =>
    match w.structure? k with
    | some s => m.calls s.profile.owner
    | none => []
  | close k =>
    match w.structure? k with
    | some s => if s.isExploring then [] else s.closeCalls
    | none => []
  | closeSession k =>
    match (w.structures[k]?).join with
    | some s =>
      match Kripke.closeSession ⟨w.dict, s⟩ with
      | .ok _ v => if k ∈ w.closed ∧ !v.kripke.isExploring then v.kripke.closeCalls else []
      | .error _ _ => []
    | none => []

end Event

/-- What other parties ask for: who registers a name was issued before, and is no structure's party. -/
def Foreign (w : Workspace ε) : Dictionary.Request → Prop
  | .register _ o =>
    o.number ≤ w.dict.registry.lastOwner ∧ ∀ x ∈ w.structures.toList, ∀ s ∈ x, ¬s.Party o
  | _ => True

instance (w : Workspace ε) : DecidablePred w.Foreign := fun q =>
  match q with
  | .register _ _ => inferInstanceAs (Decidable (_ ∧ _))
  | .newOwner => instDecidableTrue
  | .unregister _ _ => instDecidableTrue
  | .unregisterAll _ => instDecidableTrue
  | .build _ => instDecidableTrue

/-- What others ask for in an event. -/
def Event.request? : Event ε → Option Dictionary.Request
  | request q => some q
  | move _ (.request q) => some q
  | _ => none

/-- The event is possible: others do not register names for a structure. -/
def Event.Fair (w : Workspace ε) (e : Event ε) : Prop := ∀ q ∈ e.request?, w.Foreign q

instance (w : Workspace ε) : DecidablePred (Event.Fair w) :=
  fun e => inferInstanceAs (Decidable (∀ q ∈ e.request?, w.Foreign q))

/-- The structure is closed and has no session left. -/
def Dropped (w : Workspace ε) (k : Nat) (s : Kripke ε) : Prop :=
  w.At k s ∧ k ∈ w.closed ∧ s.isExploring = false

section Runs

variable [Engine ε]

/-- The workspace after events. Some of them may fault. -/
def play (w : Workspace ε) (es : List (Event ε)) : Workspace ε :=
  es.foldl (fun w e => e.run.after w) w

/-- Every event is possible when it happens. -/
def Fair : Workspace ε → List (Event ε) → Prop
  | _, [] => True
  | w, e :: es => e.Fair w ∧ Fair (e.run.after w) es

instance decidableFair (w : Workspace ε) : (es : List (Event ε)) → Decidable (Fair w es)
  | [] => instDecidableTrue
  | e :: es =>
    have := decidableFair (e.run.after w) es
    inferInstanceAs (Decidable (e.Fair w ∧ Fair (e.run.after w) es))

/-- All calls to the names of the dictionary. -/
def calls : Workspace ε → List (Event ε) → List Registry.Call
  | _, [] => []
  | w, e :: es => e.calls w ++ calls (e.run.after w) es

end Runs

/-! ## Structures that share no party -/

/-- Structures have parties of their own, and a structure that is gone holds no name. -/
structure Apart (w : Workspace ε) : Prop where
  placed : ∀ k ∈ w.closed, k < w.structures.size
  issued : ∀ k s o, w.At k s → s.Party o → o.number ≤ w.dict.registry.lastOwner
  parted : ∀ j k s s' o, w.At j s → w.At k s' → s.Party o → s'.Party o → j = k
  gone : ∀ k s o, w.Dropped k s → s.Party o → w.dict.registry.Absent o

theorem apart_start (d : Dictionary) : Apart ({ dict := d } : Workspace ε) where
  placed k hk := by cases hk
  issued k s o hk := by cases hk
  parted j k s s' o hj := by cases hj
  gone k s o hk := by cases hk.1

/-- The names may change by calls that register nothing for a structure that is gone. -/
theorem Apart.withDict (h : w.Apart) {d : Dictionary} {cs : List Registry.Call}
    (hd : d.registry = w.dict.registry.replay cs)
    (hcs : ∀ c ∈ cs, ∀ k s, w.Dropped k s → ¬c.RegistersFor s.Party) :
    Apart { w with dict := d } where
  placed := h.placed
  issued k s o hk ho := by
    show o.number ≤ d.registry.lastOwner
    rw [hd]
    exact Nat.le_trans (h.issued k s o hk ho) (lastOwner_le_replay _ cs)
  parted := h.parted
  gone k s o hk ho := by
    show d.registry.Absent o
    rw [hd]
    refine (h.gone k s o hk ho).replay fun c hc hreg => ?_
    exact hcs c hc k s hk (hreg.mono fun o' ho' => ho' ▸ ho)

/-- A position may be taken. The parties of a structure there are those of no other one. -/
theorem Apart.push (h : w.Apart) {x : Option (Kripke ε)} (hx : ∀ s o, x = some s → s.Party o →
    o.number ≤ w.dict.registry.lastOwner ∧ ∀ k s', w.At k s' → ¬s'.Party o) :
    Apart { w with structures := w.structures.push x } where
  placed k hk := by
    show k < (w.structures.push x).size
    rw [Array.size_push]
    exact Nat.lt_succ_of_lt (h.placed k hk)
  issued k s o hk ho := by
    rcases at_push.1 hk with hk | ⟨-, rfl⟩
    · exact h.issued k s o hk ho
    · exact (hx s o rfl ho).1
  parted j k s s' o hj hk ho ho' := by
    rcases at_push.1 hj with hold | ⟨rfl, hs⟩
    · rcases at_push.1 hk with hold' | ⟨-, hs'⟩
      · exact h.parted j k s s' o hold hold' ho ho'
      · exact absurd ho ((hx s' o hs' ho').2 j s hold)
    · rcases at_push.1 hk with hold' | ⟨rfl, -⟩
      · exact absurd ho' ((hx s o hs ho).2 k s' hold')
      · rfl
  gone k s o hk ho := by
    obtain ⟨hat, hclosed, hidle⟩ := hk
    rcases at_push.1 hat with hat | ⟨rfl, -⟩
    · exact h.gone k s o ⟨hat, hclosed, hidle⟩ ho
    · exact absurd (h.placed _ hclosed) (Nat.lt_irrefl _)

/-- A structure may change if its parties stay. -/
theorem Apart.withStructure (h : w.Apart) (hk : w.At k s) {s' : Kripke ε}
    (hp : s'.profile = s.profile) (hgone : k ∈ w.closed → s'.isExploring = false →
      ∀ o, s.Party o → w.dict.registry.Absent o) :
    Apart { w with structures := w.structures.setIfInBounds k (some s') } := by
  have hparty : ∀ o, s'.Party o ↔ s.Party o := fun o => by unfold Kripke.Party; rw [hp]
  have hold : ∀ {j t}, At { w with structures := w.structures.setIfInBounds k (some s') } j t →
      ∃ t', w.At j t' ∧ (∀ o, t.Party o → t'.Party o) ∧ (j ≠ k → t = t') ∧ (j = k → t = s') := by
    intro j t hj
    have hj' : (w.withWorld k ⟨w.dict, s'⟩).At j t := hj
    by_cases hjk : j = k
    · subst hjk
      obtain rfl := hj'.unique (at_withWorld_self hk)
      exact ⟨s, hk, fun o => (hparty o).1, fun hne => absurd rfl hne, fun _ => rfl⟩
    · exact ⟨t, (at_withWorld_of_ne hjk).1 hj', fun o => id, fun _ => rfl, fun heq => absurd heq hjk⟩
  refine ⟨fun j hj => ?_, fun j t o hj ho => ?_, fun i j t t' o hi hj ho ho' => ?_,
    fun j t o hj ho => ?_⟩
  · show j < (w.structures.setIfInBounds k (some s')).size
    rw [Array.size_setIfInBounds]
    exact h.placed j hj
  · obtain ⟨t', ht', hsub, -⟩ := hold hj
    exact h.issued j t' o ht' (hsub o ho)
  · obtain ⟨u, hu, hsub, -⟩ := hold hi
    obtain ⟨u', hu', hsub', -⟩ := hold hj
    exact h.parted i j u u' o hu hu' (hsub o ho) (hsub' o ho')
  · obtain ⟨hat, hclosed, hidle⟩ := hj
    obtain ⟨t', ht', hsub, hne, heq⟩ := hold hat
    by_cases hjk : j = k
    · obtain rfl := heq hjk
      subst hjk
      exact hgone hclosed hidle o ((hparty o).1 ho)
    · obtain rfl := hne hjk
      exact h.gone j t o ⟨ht', hclosed, hidle⟩ ho

/-- A structure may be closed if it has a session left or holds no name. -/
theorem Apart.withClosed (h : w.Apart) (hk : w.At k s) {closed : List Nat}
    (hclosed : ∀ j, j ∈ closed → j = k ∨ j ∈ w.closed)
    (hgone : s.isExploring = false → ∀ o, s.Party o → w.dict.registry.Absent o) :
    Apart { w with closed } where
  placed j hj := by
    rcases hclosed j hj with rfl | hj
    · exact hk.lt_size
    · exact h.placed j hj
  issued := h.issued
  parted := h.parted
  gone j t o hj ho := by
    obtain ⟨hat, hj, hidle⟩ := hj
    rcases hclosed j hj with rfl | hj
    · obtain rfl := At.unique hk hat
      exact hgone hidle o ho
    · exact h.gone j t o ⟨hat, hj, hidle⟩ ho

/-! ## What events leave -/

theorem onStructure_after {α : Type} (h : w.structure? k = some s) (x : Action (World ε) α) :
    (onStructure k x).after w = w.withWorld k (x.after ⟨w.dict, s⟩) := by
  rw [← onPlaced_after (at_of_structure? h)]
  unfold onStructure
  rw [after_bind_ok (get_apply w), if_neg (not_mem_closed h)]

theorem onStructure_none {α : Type} (h : w.structure? k = none) (x : Action (World ε) α) :
    (onStructure k x).after w = w := by
  unfold onStructure
  rw [after_bind_ok (get_apply w)]
  unfold structure? at h
  split at h
  · rename_i hk
    rw [if_pos hk]
    rfl
  · rename_i hk
    rw [if_neg hk, after_error (onPlaced_none h x)]

/-- The workspace without the names of a structure. -/
def giveUp (w : Workspace ε) (s : Kripke ε) : Workspace ε :=
  { w with dict := { w.dict with registry := w.dict.registry.replay s.closeCalls } }

theorem retract_ok (hk : w.At k s) : retract k w =
    .ok () (if k ∈ w.closed ∧ !s.isExploring then w.giveUp s else w) := by
  unfold retract
  rw [bind_ok (get_apply w), show (w.structures[k]?).join = some s from hk]
  dsimp only
  split
  · exact onDict_ok (s.close_run w.dict)
  · rfl

theorem closeStructure_ok (h : w.structure? k = some s) : closeStructure k w =
    .ok true (if s.isExploring then { w with closed := k :: w.closed }
      else giveUp { w with closed := k :: w.closed } s) := by
  have hat : w.At k s := at_of_structure? h
  have hk : At { w with closed := k :: w.closed } k s := hat
  unfold closeStructure
  rw [bind_ok (get_apply w), h]
  dsimp only
  rw [bind_ok (modify_apply _ w), bind_ok (retract_ok hk)]
  cases s.isExploring with
  | true => rw [if_neg (by simp), if_pos rfl]; rfl
  | false => rw [if_pos (by simp), if_neg Bool.false_ne_true]; rfl

theorem closeSession_run [Engine ε] (s : Kripke ε) (d : Dictionary) :
    (∃ t, t.profile = s.profile ∧ Kripke.closeSession ⟨d, s⟩ = .ok () ⟨d, t⟩) ∨
      ∃ f t, t.profile = s.profile ∧ t.isExploring = s.isExploring ∧
        Kripke.closeSession ⟨d, s⟩ = .error f ⟨d, t⟩ := by
  unfold Kripke.closeSession
  cases hres : (Engine.resume : Action ε Unit) s.engine with
  | ok u e =>
    have hrun : World.onEngine Engine.resume ⟨d, s⟩ = .ok u ⟨d, { s with engine := e }⟩ :=
      World.onEngine_ok hres
    exact .inl ⟨{ s with engine := e, sessions := s.sessions - 1 }, rfl, bind_ok hrun _⟩
  | error f e =>
    have hrun : World.onEngine Engine.resume ⟨d, s⟩ = .error f ⟨d, { s with engine := e }⟩ :=
      World.onEngine_error hres
    exact .inr ⟨f, { s with engine := e }, rfl, rfl, bind_error hrun _⟩

theorem closeSession_ok [Engine ε] (hk : w.At k s) {t : Kripke ε}
    (h : Kripke.closeSession ⟨w.dict, s⟩ = .ok () ⟨w.dict, t⟩) :
    Workspace.closeSession k w = .ok t.isExploring
      (if k ∈ w.closed ∧ !t.isExploring then (w.withWorld k ⟨w.dict, t⟩).giveUp t
        else w.withWorld k ⟨w.dict, t⟩) := by
  unfold Workspace.closeSession
  have hrun : (do Kripke.closeSession; pure (← get).kripke.isExploring : Action (World ε) Bool)
      ⟨w.dict, s⟩ = .ok t.isExploring ⟨w.dict, t⟩ := (bind_ok h _).trans rfl
  rw [bind_ok (onPlaced_ok hk hrun), bind_ok (retract_ok (at_withWorld_self hk))]
  rfl

theorem closeSession_error [Engine ε] (hk : w.At k s) {t : Kripke ε} {f : Fault}
    (h : Kripke.closeSession ⟨w.dict, s⟩ = .error f ⟨w.dict, t⟩) :
    Workspace.closeSession k w = .error f (w.withWorld k ⟨w.dict, t⟩) := by
  unfold Workspace.closeSession
  exact bind_error (onPlaced_error hk (bind_error h _)) _

/-! ## Effects of events -/

/-- What an event may do to a workspace, and the calls to the names of its dictionary. -/
inductive Effect (w : Workspace ε) : List Registry.Call → Workspace ε → Prop where
  /-- No structure is concerned. -/
  | names {d : Dictionary} {cs : List Registry.Call} (hd : d.registry = w.dict.registry.replay cs)
      (hcs : ∀ c ∈ cs, ∀ k s, w.Dropped k s → ¬c.RegistersFor s.Party) :
      Effect w cs { w with dict := d }
  | place {d : Dictionary} {cs : List Registry.Call} {x : Option (Kripke ε)}
      (hd : d.registry = w.dict.registry.replay cs)
      (hcs : ∀ c ∈ cs, ∀ k s, w.Dropped k s → ¬c.RegistersFor s.Party)
      (hx : ∀ s o, x = some s → s.Party o →
        o.number ≤ d.registry.lastOwner ∧ ∀ k s', w.At k s' → ¬s'.Party o) :
      Effect w cs { w with dict := d, structures := w.structures.push x }
  /-- A structure changes; it has a session as before, or it is open. -/
  | change {k : Nat} {s : Kripke ε} {v : World ε} {cs : List Registry.Call} (hk : w.At k s)
      (hd : v.dict.registry = w.dict.registry.replay cs)
      (hcs : ∀ c ∈ cs, ∀ k s, w.Dropped k s → ¬c.RegistersFor s.Party)
      (hp : v.kripke.profile = s.profile)
      (hidle : k ∈ w.closed → v.kripke.isExploring = false → s.isExploring = false) :
      Effect w cs (w.withWorld k v)
  /-- A structure is closed that has a session left. -/
  | linger {k : Nat} {s : Kripke ε} (hk : w.At k s) (hs : s.isExploring = true) :
      Effect w [] { w with closed := k :: w.closed }
  /-- A structure is gone, and gives up its registrations. -/
  | drop {k : Nat} {s t : Kripke ε} {closed : List Nat} (hk : w.At k s) (hp : t.profile = s.profile)
      (hclosed : ∀ j, j ∈ closed → j = k ∨ j ∈ w.closed) :
      Effect w t.closeCalls (giveUp { w.withWorld k ⟨w.dict, t⟩ with closed } t)

namespace Effect

variable {cs : List Registry.Call}

theorem registry (h : w.Effect cs w') : w'.dict.registry = w.dict.registry.replay cs := by
  cases h with
  | names hd => exact hd
  | place hd => exact hd
  | change hk hd => exact hd
  | linger => rfl
  | drop => rfl

theorem apart (h : w.Effect cs w') (hw : w.Apart) : w'.Apart := by
  cases h with
  | names hd hcs => exact hw.withDict hd hcs
  | place hd hcs hx => exact (hw.withDict hd hcs).push hx
  | change hk hd hcs hp hidle =>
    have h₁ := hw.withDict hd hcs
    exact h₁.withStructure hk hp fun hclosed hv o ho =>
      h₁.gone _ _ o ⟨hk, hclosed, hidle hclosed hv⟩ ho
  | linger hk hs =>
    refine hw.withClosed hk (fun j => List.mem_cons.1) fun hidle => ?_
    cases hs.symm.trans hidle
  | @drop k s t closed hk hp hclosed =>
    have hgone : ∀ o, t.Party o → (w.dict.registry.replay t.closeCalls).Absent o :=
      fun o => Kripke.absent_closeCalls
    have h₁ := hw.withDict (d := { w.dict with registry := w.dict.registry.replay t.closeCalls }) rfl
      fun c hc _ _ _ => Kripke.not_registersFor_closeCalls c hc
    have h₂ := h₁.withStructure hk hp fun _ _ o ho => hgone o ((Kripke.party_congr hp).2 ho)
    exact h₂.withClosed (at_withWorld_self (v := ⟨w.dict, t⟩) hk) hclosed fun _ => hgone

/-- An event ends the life of a structure by giving up its registrations, and does nothing else to the
names. -/
theorem calls_of_dropped (h : w.Effect cs w') (hw : w.Apart) (hbefore : ∀ s, ¬w.Dropped k s)
    (hafter : w'.Dropped k s) : cs = s.closeCalls := by
  obtain ⟨hat, hclosed, hidle⟩ := hafter
  cases h with
  | names => exact absurd ⟨hat, hclosed, hidle⟩ (hbefore s)
  | place =>
    rcases at_push.1 hat with hat | ⟨rfl, -⟩
    · exact absurd ⟨hat, hclosed, hidle⟩ (hbefore s)
    · exact absurd (hw.placed _ hclosed) (Nat.lt_irrefl _)
  | @change j t v cs hj hd hcs hp hkept =>
    by_cases hkj : k = j
    · subst hkj
      obtain rfl := hat.unique (at_withWorld_self hj)
      exact absurd ⟨hj, hclosed, hkept hclosed hidle⟩ (hbefore t)
    · exact absurd ⟨(at_withWorld_of_ne hkj).1 hat, hclosed, hidle⟩ (hbefore s)
  | @linger j t hj hs =>
    rcases List.mem_cons.1 hclosed with rfl | hclosed
    · obtain rfl := At.unique hj hat
      cases hs.symm.trans hidle
    · exact absurd ⟨hat, hclosed, hidle⟩ (hbefore s)
  | @drop j t t' closed hj hp hincl =>
    have hat' : (w.withWorld j ⟨w.dict, t'⟩).At k s := hat
    by_cases hkj : k = j
    · subst hkj
      rw [hat'.unique (at_withWorld_self hj)]
    · have hk := (hincl k hclosed).resolve_left hkj
      exact absurd ⟨(at_withWorld_of_ne hkj).1 hat', hk, hidle⟩ (hbefore s)

end Effect

theorem Foreign.not_registersFor {q : Dictionary.Request} (hq : w.Foreign q) :
    ∀ c ∈ q.calls, ∀ k s, w.Dropped k s → ¬c.RegistersFor s.Party := by
  intro c hc k s hk
  cases q with
  | register name o =>
    rw [List.mem_singleton.1 hc]
    have hmem : some s ∈ w.structures.toList :=
      Array.mem_toList_iff.2 (Array.mem_of_getElem? (Option.join_eq_some_iff.1 hk.1))
    exact hq.2 _ hmem s rfl
  | newOwner => rw [List.mem_singleton.1 hc]; exact not_false
  | unregister v o => rw [List.mem_singleton.1 hc]; exact not_false
  | unregisterAll o => rw [List.mem_singleton.1 hc]; exact not_false
  | build c => cases hc

/-- A structure registers names for itself only, others for none of the structures. -/
theorem Apart.not_registersFor_move (h : w.Apart) (hk : w.structure? k = some s) {m : Move}
    (hm : (Event.move k m : Event ε).Fair w) :
    ∀ c ∈ m.calls s.profile.owner, ∀ j t, w.Dropped j t → ¬c.RegistersFor t.Party := by
  cases m with
  | observe name =>
    intro c hc j t hj hreg
    rw [List.mem_singleton.1 hc] at hreg
    obtain rfl := h.parted j k t s _ hj.1 (at_of_structure? hk) hreg (.inl rfl)
    exact not_mem_closed hk hj.2.1
  | request q => exact Foreign.not_registersFor (hm q rfl)
  | _ => exact fun c hc => by cases hc

section Events

variable [Engine ε]

theorem effect_build (h : w.Apart) (engine : ε) (names : List String) (o : Options) :
    w.Effect (Kripke.createCalls w.structures.size engine names o w.dict)
      ((Workspace.build engine names o).after w) := by
  have hcs : ∀ c ∈ Kripke.createCalls w.structures.size engine names o w.dict,
      ∀ k s, w.Dropped k s → ¬c.RegistersFor s.Party := fun c hc k s hk hreg =>
    Kripke.createCalls_fresh _ engine names o w.dict c hc
      (hreg.mono fun p hp => h.issued k s p hk.1 hp)
  have hd := Kripke.create_registry w.structures.size engine names o w.dict
  unfold Workspace.build
  rw [after_bind_ok (get_apply w)]
  cases hrun : Kripke.create w.structures.size engine names o w.dict with
  | error f d =>
    rw [after_error hrun] at hd
    rw [after_error (bind_error (onDict_error hrun) _)]
    exact .names hd hcs
  | ok x d =>
    rw [after_ok hrun] at hd
    rw [after_bind_ok (onDict_ok hrun)]
    cases x with
    | error ds => exact .place hd hcs fun s o hs => by cases hs
    | ok s =>
      refine .place hd hcs fun s' p hs' hp => ?_
      cases hs'
      obtain ⟨hlt, hle⟩ := Kripke.create_parties hrun p hp
      exact ⟨hle, fun k t hk ht => Nat.lt_irrefl _ (Nat.lt_of_lt_of_le hlt (h.issued k t p hk ht))⟩

theorem effect_close (k : Nat) :
    w.Effect ((.close k : Event ε).calls w) ((closeStructure k).after w) := by
  simp only [Event.calls]
  cases hk : w.structure? k with
  | none =>
    have hrun : closeStructure k w = .ok false w := by
      unfold closeStructure
      rw [bind_ok (get_apply w), hk]
      rfl
    rw [after_ok hrun]
    exact .names rfl fun c hc => by cases hc
  | some s =>
    have hat := at_of_structure? hk
    rw [after_ok (closeStructure_ok hk)]
    dsimp only
    cases hs : s.isExploring with
    | true => exact .linger hat hs
    | false =>
      have hdrop : w.Effect s.closeCalls
          (giveUp { w.withWorld k ⟨w.dict, s⟩ with closed := k :: w.closed } s) :=
        .drop hat rfl fun j => List.mem_cons.1
      rwa [withWorld_self hat] at hdrop

theorem effect_closeSession (k : Nat) :
    w.Effect ((.closeSession k : Event ε).calls w) ((Workspace.closeSession k).after w) := by
  simp only [Event.calls]
  cases hk : (w.structures[k]?).join with
  | none =>
    have hrun : Workspace.closeSession k w = .error .outOfRange w := by
      unfold Workspace.closeSession
      exact bind_error (onPlaced_none hk _) _
    rw [after_error hrun]
    exact .names rfl fun c hc => by cases hc
  | some s =>
    have hat : w.At k s := hk
    rcases closeSession_run s w.dict with ⟨t, hp, hrun⟩ | ⟨f, t, hp, hsame, hrun⟩
    · rw [after_ok (closeSession_ok hat hrun)]
      simp only [hrun]
      split
      · exact .drop hat hp fun j => .inr
      · rename_i hstays
        refine .change hat rfl (fun c hc => by cases hc) hp fun hclosed hidle => ?_
        exact absurd ⟨hclosed, by rw [hidle]; rfl⟩ hstays
    · rw [after_error (closeSession_error hat hrun)]
      simp only [hrun]
      refine .change hat rfl (fun c hc => by cases hc) hp fun _ hidle => hsame.symm.trans hidle

theorem Event.effect (h : w.Apart) {e : Event ε} (he : e.Fair w) :
    w.Effect (e.calls w) (e.run.after w) := by
  cases e with
  | request q =>
    show w.Effect q.calls ((onDict q.run).after w)
    rw [onDict_after]
    exact .names (q.registry_after w.dict) (Foreign.not_registersFor (he q rfl))
  | build engine names o =>
    show w.Effect _ ((do let _ ← Workspace.build engine names o : Action _ Unit).after w)
    rw [after_discard]
    exact effect_build h engine names o
  | move k m =>
    show w.Effect (match w.structure? k with | some s => _ | none => _) ((onStructure k m.run).after w)
    cases hk : w.structure? k with
    | none =>
      rw [onStructure_none hk]
      exact .names rfl fun c hc => by cases hc
    | some s =>
      obtain ⟨hp, hd⟩ := m.registry_after ⟨w.dict, s⟩
      rw [onStructure_after hk]
      exact .change (at_of_structure? hk) hd (h.not_registersFor_move hk he) hp fun hclosed =>
        absurd hclosed (not_mem_closed hk)
  | close k =>
    show w.Effect (match w.structure? k with | some s => _ | none => _)
      ((do let _ ← closeStructure k : Action _ Unit).after w)
    rw [after_discard]
    exact effect_close k
  | closeSession k =>
    show w.Effect (match (w.structures[k]?).join with | some s => _ | none => _)
      ((do let _ ← Workspace.closeSession k : Action _ Unit).after w)
    rw [after_discard]
    exact effect_closeSession k

/-- A whole run: the calls are those of its events, one after the other. -/
theorem Apart.play (h : w.Apart) {es : List (Event ε)} (hes : Fair w es) :
    (play w es).Apart ∧ (play w es).dict.registry = w.dict.registry.replay (calls w es) := by
  induction es generalizing w with
  | nil => exact ⟨h, rfl⟩
  | cons e es ih =>
    have heffect := e.effect h hes.1
    obtain ⟨happ, hreg⟩ := ih (heffect.apart h) hes.2
    refine ⟨happ, ?_⟩
    rw [calls, replay_append, ← heffect.registry]
    exact hreg

end Events

/-! ## Teardown -/

/-- Structures over a new dictionary are built, used and closed in any order, and other parties use the
dictionary in between, but register no name for a structure; events may fault. The names are always
what the calls of the events leave. Fewer than `2 ^ 32 - 1` new names are registered in all.

1. When a structure is gone, no variable has one of its parties, and the live holdings are those of the
   log of all calls without its registrations.
2. The event that ends its life changes nothing for others.
3. Closing a structure that has no session ends its life. -/
theorem teardown [Engine ε] {bits : Nat} {d : Dictionary} (hd : Dictionary.create bits = .ok d)
    {es : List (Event ε)} (hes : Fair { dict := d } es)
    (hroom : (ledger (calls { dict := d } es)).issued < 2 ^ 32 - 1)
    (hw : play { dict := d } es = w) :
    w.dict.registry = after (calls { dict := d } es) ∧
    (∀ k s, w.Dropped k s → Vanished s.Party (calls { dict := d } es)) ∧
    (∀ (e : Event ε) k s, e.Fair w → (∀ t, ¬w.Dropped k t) → (e.run.after w).Dropped k s →
      Spared s.Party w.dict.registry (e.run.after w).dict.registry) ∧
    ∀ k s, w.structure? k = some s → s.isExploring = false →
      ∃ w', closeStructure k w = .ok true w' ∧ w'.Dropped k s := by
  have hempty : d.registry = {} := by
    obtain ⟨m, -, hd⟩ := except_bind_eq_ok.1 hd
    cases hd
    rfl
  obtain ⟨happ, hreg⟩ := (apart_start d).play hes
  rw [hw] at happ hreg
  replace hreg : w.dict.registry = after (calls { dict := d } es) := by
    rw [hreg, hempty]
    rfl
  refine ⟨hreg, fun k s hk => vanished hroom fun o ho => ?_, fun e k s he hbefore hk => ?_,
    fun k s hk hidle => ?_⟩
  · rw [← hreg]
    exact happ.gone k s o hk ho
  · have heffect := e.effect happ he
    rw [heffect.registry, heffect.calls_of_dropped happ hbefore hk]
    have hvalid : w.dict.registry.Valid := by
      rw [hreg]
      exact (tracks hroom).valid
    exact hvalid.spared_both _ _
  · have hat : w.At k s := at_of_structure? hk
    refine ⟨_, closeStructure_ok hk, ?_⟩
    rw [hidle, if_neg Bool.false_ne_true]
    exact ⟨hat, List.mem_cons_self, hidle⟩

/-- Two structures and another party hold the name of dead states, and one structure observes a name that
the other party holds too. When this structure is closed, the others hold what they held. -/
theorem teardown_shared : ∃ (d : Dictionary) (es : List (Event Graph)) (s : Kripke Graph),
    Dictionary.create 4 = .ok d ∧ Fair { dict := d } es ∧ (play { dict := d } es).Dropped 0 s ∧
      Vanished s.Party (calls { dict := d } es) ∧
      (play { dict := d } es).dict.registry.entries =
        [(1, "dead", [⟨1⟩, ⟨5⟩]), (2, "x", [⟨1⟩])] := by
  obtain ⟨es, hes⟩ : ∃ es : List (Event Graph), es =
    [.request .newOwner,
      .build (Graph.create { name := "stuck" } .standard) [] { dead := .labelled "dead" },
      .request (.register "dead" ⟨1⟩), .move 0 (.observe "x"), .request (.register "x" ⟨1⟩),
      .build (Graph.create { name := "stuck" } .standard) [] { dead := .labelled "dead" },
      .close 0] := ⟨_, rfl⟩
  obtain ⟨d, hd, hrun⟩ := exists_ok_of_any (x := Dictionary.create 4)
    (p := fun d => decide (Fair { dict := d } es ∧
      (ledger (calls { dict := d } es)).issued < 2 ^ 32 - 1 ∧
      0 ∈ (play { dict := d } es).closed ∧ (play { dict := d } es).dict.registry.entries =
        [(1, "dead", [⟨1⟩, ⟨5⟩]), (2, "x", [⟨1⟩])]) &&
      ((play { dict := d } es).structures[0]?).join.any fun s => !s.isExploring)
    (by rw [hes]; decide +kernel)
  obtain ⟨hrun, hplaced⟩ := (Bool.and_eq_true _ _).mp hrun
  obtain ⟨hfair, hroom, hclosed, hentries⟩ := of_decide_eq_true hrun
  obtain ⟨s, hs, hidle⟩ := (Option.any_eq_true _ _).1 hplaced
  have hdropped : (play { dict := d } es).Dropped 0 s := ⟨hs, hclosed, by simpa using hidle⟩
  exact ⟨d, es, s, hd, hfair, hdropped, (teardown hd hfair hroom rfl).2.1 0 s hdropped, hentries⟩

end StateSpace.Workspace
