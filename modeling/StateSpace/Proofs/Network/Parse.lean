import StateSpace.Proofs.Network.Valid

/-!
# Parsed networks

A line makes at most one declaration, and what it declares is in scope: `Declares` lists the ways in
which a line can change a network. What every declaration keeps is therefore true of every network
that is read from a text (`parse_induct`); validity is the first such property.

`Yields` is partial correctness for the reading of a line: what a part of it returns, and the network
that it leaves. Lookups and attributes leave the network alone (`Looks`).
-/

namespace StateSpace.Network

variable {n n' : Network} {α β : Type}

/-! ## What a line declares -/

/-- One line leads from a network to another. -/
inductive Declares (n : Network) : Network → Prop where
  | nothing : n.Declares n
  | system (name : String) : n.Declares { n with name }
  | event {name id n'} (h : addEvent name n = .ok id n') : n.Declares n'
  | int {name d id n'} (h : addVariable name d n = .ok id n') : n.Declares n'
  | clock {name id n'} (h : addClock name n = .ok id n') : n.Declares n'
  | process {name id n'} (h : addProcess name n = .ok id n') : n.Declares n'
  | location {l id n'} (hin : n.InScope l.invariant) (h : addLocation l n = .ok id n') : n.Declares n'
  | edge {e id n'} (hin : n.EdgeInScope e) (h : addEdge e n = .ok id n') : n.Declares n'
  | sync {cs n'} (hlen : 2 ≤ cs.length)
      (hin : ∀ c ∈ cs, c.1 < n.processes.size ∧ c.2 < n.events.size)
      (h : addSync cs n = .ok () n') : n.Declares n'

theorem Declares.valid (hv : n.Valid) (h : n.Declares n') : n'.Valid := by
  cases h with
  | nothing => exact hv
  | system name =>
    exact ⟨⟨hv.toVariablesAgree, hv.toLocationsAgree, hv.toEdgesAgree⟩, hv.invariant, hv.edgeInScope,
      hv.sync⟩
  | event h => exact addEvent_valid hv h
  | int h => exact addVariable_valid hv h
  | clock h => exact addClock_valid hv h
  | process h => exact addProcess_valid hv h
  | location hin h => exact addLocation_valid hv hin h
  | edge hin h => exact addEdge_valid hv hin h
  | sync _ hin h => exact addSync_valid hv hin h

/-- Whatever the part of the reading returns, it and the network left have a property. -/
def Yields (n : Network) (x : Reading α) (Q : α → Network → Prop) : Prop :=
  ∀ d a d', d.network = n → x d = .ok (a, d') → Q a d'.network

/-- The part of the reading leaves the network alone, and what it returns has a property. -/
def Looks (n : Network) (x : Reading α) (P : α → Prop) : Prop :=
  Yields n x fun a n' => n' = n ∧ P a

/-! ## Composing -/

section

variable {x : Reading α} {P : α → Prop} {Q : β → Network → Prop} {R : α → Network → Prop}

theorem yields_throw (e : DeclarationError) : Yields n (throw e : Reading α) R := by
  rintro d _ _ - hx
  cases hx

theorem Looks.bind {f : α → Reading β} (hx : Looks n x P) (hf : ∀ a, P a → Yields n (f a) Q) :
    Yields n (x >>= f) Q := by
  rintro d b d'' hd h
  obtain ⟨a, d', ha, hb⟩ := state_bind_eq_ok.1 h
  obtain ⟨hn, hp⟩ := hx d a d' hd ha
  exact hf a hp d' b d'' hn hb

theorem looks_pure {a : α} (h : P a) : Looks n (pure a) P := by
  rintro d _ _ rfl hx
  cases hx
  exact ⟨rfl, h⟩

theorem looks_get : Looks n (get : Reading Draft) fun d => d.network = n := by
  rintro d _ _ rfl hx
  cases hx
  exact ⟨rfl, rfl⟩

theorem looks_warn (w : Warning) : Looks n (Reading.warn w) fun _ => True := by
  rintro d _ _ rfl hx
  cases hx
  exact ⟨rfl, trivial⟩

theorem looks_lift (r : Except DeclarationError α) :
    Looks n (liftM r : Reading α) fun _ => True := by
  rintro d a d' rfl hx
  cases r with
  | error e => cases hx
  | ok a =>
    cases hx
    exact ⟨rfl, trivial⟩

theorem looks_orElse (r : Option α) (e : DeclarationError) :
    Looks n (Reading.orElse r e) fun a => r = some a := by
  cases r with
  | none => exact yields_throw e
  | some a => exact looks_pure rfl

theorem looks_parsed (r : Except SyntaxError α) :
    Looks n (Reading.parsed r) fun a => r = .ok a := by
  cases r with
  | error e => exact yields_throw _
  | ok a => exact looks_pure rfl

theorem looks_foldlM {f : β → α → Reading β} {I : β → Prop} {b : β} (as : List α) (hb : I b)
    (hf : ∀ b a, I b → Looks n (f b a) I) : Looks n (as.foldlM f b) I := by
  induction as generalizing b with
  | nil => exact looks_pure hb
  | cons a as ih =>
    rw [List.foldlM_cons]
    exact (hf b a hb).bind fun b' hb' => ih hb'

theorem looks_mapM {f : α → Reading β} {I : β → Prop} (as : List α)
    (hf : ∀ a, Looks n (f a) I) :
    Looks n (as.mapM f) fun bs => bs.length = as.length ∧ ∀ b ∈ bs, I b := by
  induction as with
  | nil => exact looks_pure ⟨rfl, fun _ h => by cases h⟩
  | cons a as ih =>
    rw [List.mapM_cons]
    exact (hf a).bind fun b hb => ih.bind fun bs hbs =>
      looks_pure ⟨congrArg (· + 1) hbs.1, List.forall_mem_cons.2 ⟨hb, hbs.2⟩⟩

theorem yields_declare {y : Declaring α} (h : ∀ a n', y n = .ok a n' → R a n') :
    Yields n (Reading.declare y) R := by
  rintro d a d' rfl hx
  unfold Reading.declare at hx
  cases hy : y d.network with
  | ok b n₁ =>
    rw [hy] at hx
    cases hx
    exact h _ _ hy
  | error e n₁ =>
    rw [hy] at hx
    cases hx

/-- A declaration whose result is not needed. -/
theorem yields_discard {y : Declaring α} (h : ∀ a n', y n = .ok a n' → n.Declares n') :
    Yields n (Reading.declare y >>= fun _ => pure ()) fun _ n' => n.Declares n' := by
  rintro d _ d' hd hx
  obtain ⟨a, d₁, ha, hb⟩ := state_bind_eq_ok.1 hx
  cases hb
  exact yields_declare h d a _ hd ha

end

/-! ## Lookups -/

theorem looks_processNamed (name : String) :
    Looks n (processNamed name) fun p => p < n.processes.size := by
  refine looks_get.bind fun d hd => ?_
  rintro d₁ p d₂ hd₁ hp
  obtain ⟨hn, hf⟩ := looks_orElse _ _ d₁ p d₂ hd₁ hp
  rw [hd] at hf
  exact ⟨hn, NameTable.find?_lt hf⟩

theorem looks_eventNamed (name : String) :
    Looks n (eventNamed name) fun e => e < n.events.size := by
  refine looks_get.bind fun d hd => ?_
  rintro d₁ p d₂ hd₁ hp
  obtain ⟨hn, hf⟩ := looks_orElse _ _ d₁ p d₂ hd₁ hp
  rw [hd] at hf
  exact ⟨hn, NameTable.find?_lt hf⟩

theorem looks_locationNamed (process : Nat) (processName name : String) :
    Looks n (locationNamed process processName name) fun _ => True := by
  refine looks_get.bind fun d _ => ?_
  rintro d₁ p d₂ hd₁ hp
  exact ⟨(looks_orElse _ _ d₁ p d₂ hd₁ hp).1, trivial⟩

/-! ## Attributes -/

theorem looks_locationAttribute (hv : n.Valid) {l : Location} (hl : n.InScope l.invariant)
    (kv : String × String) :
    Looks n (locationAttribute l kv) fun l' => n.InScope l'.invariant := by
  unfold locationAttribute
  split
  · exact looks_pure hl
  · exact looks_pure hl
  · refine looks_get.bind fun d hd => (looks_parsed _).bind fun e he => ?_
    rw [hd] at he
    exact looks_pure (Expr.parse_within hv.resolves he)
  · exact looks_pure hl
  · exact looks_pure hl
  · exact (looks_warn _).bind fun _ _ => looks_pure hl

theorem looks_edgeAttribute (hv : n.Valid) {e : Edge} (he : n.EdgeInScope e)
    (source target : String) (kv : String × String) :
    Looks n (edgeAttribute source target e kv) n.EdgeInScope := by
  unfold edgeAttribute
  split
  · refine looks_get.bind fun d hd => (looks_parsed _).bind fun g hg => ?_
    rw [hd] at hg
    exact looks_pure ⟨Expr.parse_within hv.resolves hg, he.2⟩
  · refine looks_get.bind fun d hd => (looks_parsed _).bind fun us hus => ?_
    rw [hd] at hus
    exact looks_pure ⟨he.1, Update.parseAll_within hv.resolves hus⟩
  · exact (looks_warn _).bind fun _ _ => looks_pure he

/-! ## Declarations -/

theorem yields_readSystem (name : String) :
    Yields n (readSystem name) fun _ n' => n.Declares n' := by
  refine looks_get.bind fun d _ => ?_
  split
  · exact yields_throw _
  · rintro d₁ _ d₂ rfl hx
    cases hx
    exact .system name

theorem yields_readVariable (size min max initial name : String) :
    Yields n (readVariable size min max initial name) fun _ n' => n.Declares n' := by
  refine (looks_lift _).bind fun s _ => ?_
  split
  · exact yields_throw _
  · refine (looks_lift _).bind fun min _ => (looks_lift _).bind fun max _ =>
      (looks_lift _).bind fun initial _ => ?_
    exact yields_discard fun _ _ h => .int h

theorem yields_readClock (size name : String) :
    Yields n (readClock size name) fun _ n' => n.Declares n' := by
  refine (looks_lift _).bind fun s _ => ?_
  split
  · exact yields_throw _
  · exact yields_discard fun _ _ h => .clock h

theorem yields_readLocation (hv : n.Valid) (process name : String) (body : List Char) :
    Yields n (readLocation process name body) fun _ n' => n.Declares n' := by
  refine (looks_processNamed _).bind fun pid _ => (looks_lift _).bind fun kvs _ => ?_
  have halways : n.InScope .always := trivial
  refine (looks_foldlM kvs (I := fun l => n.InScope l.invariant) halways
    fun l kv hl => looks_locationAttribute hv hl kv).bind fun l hl => ?_
  exact yields_discard fun _ _ h => .location hl h

theorem yields_readEdge (hv : n.Valid) (process source target event : String) (body : List Char) :
    Yields n (readEdge process source target event body) fun _ n' => n.Declares n' := by
  refine (looks_processNamed _).bind fun pid _ => (looks_locationNamed _ _ _).bind fun src _ =>
    (looks_locationNamed _ _ _).bind fun tgt _ => (looks_eventNamed _).bind fun ev _ =>
    (looks_lift _).bind fun kvs _ => ?_
  have halways : n.InScope .always := trivial
  refine (looks_foldlM kvs (I := n.EdgeInScope) ⟨halways, fun _ h => by cases h⟩
    fun e kv he => looks_edgeAttribute hv he source target kv).bind fun e he => ?_
  exact yields_discard fun _ _ h => .edge he h

theorem looks_readConstraint (field : String) : Looks n (readConstraint field) fun c =>
    c.1 < n.processes.size ∧ c.2 < n.events.size := by
  unfold readConstraint
  split
  · exact yields_throw _
  · split
    · exact yields_throw _
    · exact (looks_processNamed _).bind fun pid hp => (looks_eventNamed _).bind fun ev he =>
        looks_pure ⟨hp, he⟩

theorem yields_readSync (constraints : List String) :
    Yields n (readSync constraints) fun _ n' => n.Declares n' := by
  unfold readSync
  split
  · exact yields_throw _
  · rename_i hlen
    refine (looks_mapM _ looks_readConstraint).bind fun cs ⟨hsame, hcs⟩ => ?_
    exact yields_declare fun _ _ h => .sync (by omega) hcs h

theorem yields_readLine (hv : n.Valid) (line : List Char) :
    Yields n (readLine line) fun _ n' => n.Declares n' := by
  have hnone : Yields n (pure () : Reading Unit) fun _ n' => n.Declares n' := by
    rintro d _ _ rfl hx
    cases hx
    exact .nothing
  refine (looks_lift _).bind fun p _ => ?_
  obtain ⟨head, body⟩ := p
  dsimp only
  split
  · refine (looks_lift _).bind fun fs _ => ?_
    split
    · exact yields_readSystem _
    · exact hnone
  · refine (looks_lift _).bind fun fs _ => ?_
    split
    · exact yields_discard fun _ _ h => .event h
    · exact hnone
  · refine (looks_lift _).bind fun fs _ => ?_
    split
    · exact yields_readVariable _ _ _ _ _
    · exact hnone
  · refine (looks_lift _).bind fun fs _ => ?_
    split
    · exact yields_readClock _ _
    · exact hnone
  · refine (looks_lift _).bind fun fs _ => ?_
    split
    · exact yields_discard fun _ _ h => .process h
    · exact hnone
  · refine (looks_lift _).bind fun fs _ => ?_
    split
    · exact yields_readLocation hv _ _ _
    · exact hnone
  · refine (looks_lift _).bind fun fs _ => ?_
    split
    · exact yields_readEdge hv _ _ _ _ _
    · exact hnone
  · exact yields_readSync _
  · exact yields_throw _

/-! ## Texts -/

section

variable {P : Network → Prop}

theorem readLines_induct (hstep : ∀ n n', n.Valid → P n → n.Declares n' → P n')
    {lines : List (List Char)} {line : Nat} {d d' : Draft} (hv : d.network.Valid) (hd : P d.network)
    (h : readLines line lines d = .ok d') : P d'.network := by
  induction lines generalizing line d with
  | nil =>
    cases h
    exact hd
  | cons raw rest ih =>
    unfold readLines at h
    split at h
    · exact ih hv hd h
    · split at h
      · rename_i hline
        have hdecl := yields_readLine hv _ d _ _ rfl hline
        exact ih (hdecl.valid hv) (hstep _ _ hv hd hdecl) h
      · cases h

/-- What is true of the empty network and kept by every declaration is true of every network that is
read from a text. -/
theorem parse_induct (hnil : P { name := "" })
    (hstep : ∀ n n', n.Valid → P n → n.Declares n' → P n') {text : String} {ws : List Warning}
    (h : parse text = .ok (n, ws)) : P n := by
  obtain ⟨d, hd, h⟩ := except_bind_eq_ok.1 h
  split at h
  · cases h
    exact readLines_induct hstep (empty_valid _) hnil hd
  · cases h

end

/-- Every network that is read from a text is valid. -/
theorem parse_valid {text : String} {ws : List Warning} (h : parse text = .ok (n, ws)) : n.Valid :=
  parse_induct (empty_valid _) (fun _ _ hv _ hdecl => hdecl.valid hv) h

end StateSpace.Network
