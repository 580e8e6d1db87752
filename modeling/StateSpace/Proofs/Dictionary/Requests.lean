import StateSpace.Proofs.Diagram.Calls
import StateSpace.Proofs.Dictionary.Registry

/-!
# Requests to a dictionary

Several parties share a dictionary: they register names, give them up and build functions. Whatever
they ask for, functions and conditions that exist keep their meaning, and a party loses a name only by
giving it up itself.
-/

namespace StateSpace

open StateSpace.Action

instance : HasCells Dictionary := ⟨fun d => HasCells.cells d.diagram⟩

namespace Dictionary

variable {α β : Type} {d d' d'' : Dictionary} {o : Owner} {name : String}

/-! ## Actions on the parts -/

theorem onDiagram_ok {x : Action Manager α} {a : α} {m : Manager} (h : x d.diagram = .ok a m) :
    onDiagram x d = .ok a { d with diagram := m } := by
  obtain ⟨diagram, registry⟩ := d
  simp only [onDiagram, h]

theorem onDiagram_error {x : Action Manager α} {e : Fault} {m : Manager}
    (h : x d.diagram = .error e m) : onDiagram x d = .error e { d with diagram := m } := by
  obtain ⟨diagram, registry⟩ := d
  simp only [onDiagram, h]

theorem onDiagram_after (x : Action Manager α) (d : Dictionary) :
    (onDiagram x).after d = { d with diagram := x.after d.diagram } := by
  cases h : x d.diagram with
  | ok a m => rw [after_ok (onDiagram_ok h), after_ok h]
  | error e m => rw [after_error (onDiagram_error h), after_error h]

theorem onDiagram_bind (x : Action Manager α) (f : α → Action Manager β) :
    onDiagram (x >>= f) = onDiagram x >>= fun a => onDiagram (f a) := by
  funext d
  cases h : x d.diagram with
  | ok a m =>
    rw [bind_ok (onDiagram_ok h)]
    cases hf : f a m with
    | ok b m' => rw [onDiagram_ok ((bind_ok h f).trans hf), onDiagram_ok hf]
    | error e m' => rw [onDiagram_error ((bind_ok h f).trans hf), onDiagram_error hf]
  | error e m => rw [bind_error (onDiagram_error h), onDiagram_error (bind_error h f)]

theorem onDiagram_spec {x : Action Manager α} {Q : α → Manager → Prop}
    (h : EnsuresFit x d.diagram Q) :
    EnsuresFit (onDiagram x) d fun a d' => Q a d'.diagram ∧ d'.registry = d.registry := by
  intro hfit
  rw [onDiagram_after] at hfit
  obtain ⟨a, m, hx, hQ⟩ := h hfit
  exact ⟨a, _, onDiagram_ok hx, hQ, rfl⟩

@[simp] theorem grows_onDiagram {x : Action Manager α} (hx : Grows x) : Grows (onDiagram x) := by
  intro d
  rw [onDiagram_after]
  exact hx d.diagram

@[simp] theorem grows_onRegistry (f : Registry → α × Registry) : Grows (onRegistry f) :=
  fun _ => Nat.le_refl _

/-! ## Sound dictionaries -/

/-- The diagram is sound, in order or not, and the registry is valid. -/
structure Sound (d : Dictionary) : Prop where
  diagram : Manager.Sound False d.diagram
  registry : d.registry.Valid

theorem create_sound {bits : Nat} (h : create bits = .ok d) : d.Sound := by
  obtain ⟨m, hm, h⟩ := except_bind_eq_ok.1 h
  cases h
  exact ⟨Manager.create_sound hm, Registry.empty_valid⟩

/-- There is a variable left for one more name. -/
def HasRoom (d : Dictionary) : Prop := d.registry.nextVar.toNat + 1 < 2 ^ 32

theorem register_spec (hd : d.Sound) (hroom : d.HasRoom) (name : String) (o : Owner) :
    Ensures (register name o) d fun v d' => d'.diagram = d.diagram ∧
      Registry.Registered d.registry name o v d'.registry :=
  ⟨_, _, rfl, rfl, Registry.register_spec hd.registry (.inr hroom) o⟩

theorem register_again_spec (hd : d.Sound) (hname : ∃ o' v', d.registry.Holds o' name v')
    (o : Owner) : Ensures (register name o) d fun v d' => d'.diagram = d.diagram ∧
      Registry.Registered d.registry name o v d'.registry :=
  ⟨_, _, rfl, rfl, Registry.register_spec hd.registry (.inl hname) o⟩

/-! ## Requests -/

/-- What a party may ask of a dictionary. -/
inductive Request where
  | newOwner
  | register (name : String) (o : Owner)
  | unregister (v : UInt32) (o : Owner)
  | unregisterAll (o : Owner)
  | build (c : Manager.Call)

namespace Request

variable {q : Request}

/-- The request on a dictionary; its answer is left out. -/
def run : Request → Action Dictionary Unit
  | newOwner => do let _ ← Dictionary.newOwner
  | register name o => do let _ ← Dictionary.register name o
  | unregister v o => Dictionary.unregister v o
  | unregisterAll o => do let _ ← Dictionary.unregisterAll o
  | build c => do let _ ← onDiagram c.run

/-- The request refers to edges of the diagram, and there is a variable for a name. -/
def Possible (d : Dictionary) : Request → Prop
  | register _ _ => d.HasRoom
  | build c => c.Admissible ∧ ∀ e ∈ c.operands, d.diagram.Stored e
  | _ => True

/-- The request gives up nothing that a party holds. -/
def Spares (o : Owner) : Request → Prop
  | unregister _ o' => o' ≠ o
  | unregisterAll o' => o' ≠ o
  | _ => True

/-- What no request changes: old edges, and the names of parties that it spares. -/
structure Kept (d : Dictionary) (spared : Owner → Prop) (d' : Dictionary) : Prop where
  sound : d'.Sound
  extend : Manager.Extends d.diagram d'.diagram
  holds : ∀ o, spared o → ∀ name v, d.registry.Holds o name v → d'.registry.Holds o name v

/-- Building functions keeps the names of all parties. -/
theorem Kept.of_grown {e : Edge} (hd : d.Sound) (hg : Manager.Grown False d.diagram e d'.diagram)
    (hr : d'.registry = d.registry) (spared : Owner → Prop) : Kept d spared d' where
  sound := ⟨hg.sound, by rw [hr]; exact hd.registry⟩
  extend := hg.extend
  holds _ _ _ _ h := by rwa [hr]

theorem Kept.refl (hd : d.Sound) (spared : Owner → Prop) : Kept d spared d where
  sound := hd
  extend := .refl _
  holds _ _ _ _ h := h

theorem Kept.trans {spared : Owner → Prop} (h : Kept d spared d') (h' : Kept d' spared d'') :
    Kept d spared d'' where
  sound := h'.sound
  extend := h.extend.trans h'.extend
  holds o ho name v hh := h'.holds o ho name v (h.holds o ho name v hh)

theorem run_spec (hd : d.Sound) (hq : q.Possible d) :
    EnsuresFit q.run d fun _ d' => Kept d (fun o => q.Spares o) d' := by
  cases q with
  | newOwner =>
    refine Ensures.fit ⟨(), _, rfl, ⟨hd.diagram, Registry.newOwner_valid hd.registry⟩, .refl _, ?_⟩
    exact fun _ _ _ _ h => h
  | register name o =>
    obtain ⟨v, d', hrun, hdiag, hreg⟩ := register_spec hd hq name o
    refine Ensures.fit ⟨(), d', bind_ok hrun _, ⟨by rw [hdiag]; exact hd.diagram, hreg.valid⟩,
      .of_nodes (by rw [hdiag]), fun o' _ name' v' h => (hreg.holds o' name' v').2 (.inl h)⟩
  | unregister v o =>
    have hrel := Registry.unregister_spec hd.registry v o
    refine Ensures.fit ⟨(), _, rfl, ⟨hd.diagram, hrel.valid⟩, .refl _, fun o' ho' name' v' h => ?_⟩
    exact (hrel.holds o' name' v').2 ⟨h, fun hc => ho' hc.2.symm⟩
  | unregisterAll o =>
    have hrel := Registry.unregisterAll_spec hd.registry o
    refine Ensures.fit ⟨(), _, rfl, ⟨hd.diagram, hrel.valid⟩, .refl _, fun o' ho' name' v' h => ?_⟩
    exact (hrel.holds o' name' v').2 ⟨h, fun hc => ho' hc.symm⟩
  | build c =>
    refine (onDiagram_spec (c.run_spec hd.diagram hq.1 False.elim hq.2)).bind
      (fun _ => grows_pure _) fun e d' ⟨⟨hgrown, _⟩, hreg⟩ =>
      EnsuresFit.pure (.of_grown hd hgrown hreg _)

theorem kept_of_run (hd : d.Sound) (hq : q.Possible d) (hrun : q.run d = .ok () d')
    (hfit : Fits d') : Kept d (fun o => q.Spares o) d' := by
  obtain ⟨_, d₁, hrun', hkept⟩ := run_spec hd hq (by rwa [after_ok hrun])
  cases hrun.symm.trans hrun'
  exact hkept

end Request

/-- Possible requests lead from a new dictionary, of any storage size, to `d`. The cells fit all
along. -/
inductive Reached : Dictionary → Prop where
  | create {bits : Nat} {d : Dictionary} (h : create bits = .ok d) : Reached d
  | request {d d' : Dictionary} {q : Request} (h : Reached d) (hq : q.Possible d)
      (hrun : q.run d = .ok () d') (hfit : Fits d') : Reached d'

theorem Reached.sound (h : Reached d) : d.Sound := by
  induction h with
  | create h => exact create_sound h
  | request h hq hrun hfit ih => exact (Request.kept_of_run ih hq hrun hfit).sound

/-- Possible requests that give up nothing of what the party holds lead from `d` to another dictionary.
The cells fit all along. -/
inductive Sparing (o : Owner) (d : Dictionary) : Dictionary → Prop where
  | refl : Sparing o d d
  | request {d' d'' : Dictionary} {q : Request} (h : Sparing o d d') (hq : q.Possible d')
      (hs : q.Spares o) (hrun : q.run d' = .ok () d'') (hfit : Fits d'') : Sparing o d d''

theorem Sparing.kept (h : Sparing o d d') (hd : d.Sound) : Request.Kept d (· = o) d' := by
  induction h with
  | refl => exact .refl hd _
  | request h hq hs hrun hfit ih =>
    have hkept := Request.kept_of_run ih.sound hq hrun hfit
    exact ih.trans ⟨hkept.sound, hkept.extend, fun o' ho' => hkept.holds o' (ho' ▸ hs)⟩

end Dictionary

end StateSpace
