import StateSpace.Proofs.Kripke.Uncached
import StateSpace.Proofs.Workspace.Custody

/-!
# Keeping iterators changes nothing

A script builds structures over one dictionary and calls them and their iterators, in any order and
with any arguments; a call that faults leaves what it has done, and the script goes on. What can be seen
of a script are the answers, and after every call the dictionary and the pools. Whether a structure
keeps the iterators that it is given back shows nowhere there.

The proof runs the script beside the same script for structures that keep no iterator. The states of
the two runs differ in the retired iterators alone: the second run is in the image of the state of the
first under `Workspace.uncached`.
-/

namespace StateSpace

open StateSpace.Action World

variable {ε α β : Type} {k : Nat}

namespace Workspace

/-! ## Scripts -/

/-- What a script may ask. -/
inductive Request (ε : Type) where
  | dictionary (q : Dictionary.Request)
  | build (engine : ε) (names : List String) (o : Options)
  | initialState (k : Nat)
  | clone (k : Nat) (t : Handle)
  | release (k : Nat) (t : Handle)
  | compare (k : Nat) (t u : Handle)
  | iterate (k : Nat) (t : Handle) (name : String)
  | first (name : String)
  | next (name : String)
  | done (name : String)
  | destination (name : String)
  | cond (name : String)
  | transition (name : String)
  | give (k : Nat) (name : String)
  | drop (name : String)

/-- What is answered if nothing faults; about an iterator, nothing if there is none of that name. -/
inductive Answer where
  | done
  | built (r : Except (List Diagnostic) Nat)
  | started (r : Except Kripke.StartError Handle)
  | handle (t? : Option Handle)
  | flag (b? : Option Bool)
  | order (o : Ordering)
  | condition (e? : Option Edge)
  | edges (t? : Option (Option Transition))

namespace Request

variable [Engine ε]

/-- The request on a workspace, with its whole answer. -/
def run : Request ε → Action (Workspace ε) Answer
  | dictionary q => do
    onDict q.run
    pure .done
  | build engine names o => return .built (← Workspace.build engine names o)
  | initialState k => return .started (← onStructure k Kripke.initialState)
  | clone k t => return .handle (some (← onStructure k (onPool (Pool.clone t))))
  | release k t => return .flag (some (← onStructure k (onPool (Pool.release t))))
  | compare k t u =>
    return .order (← onStructure k (Action.reading fun w => w.kripke.pool.compare t u))
  | iterate k t name => do
    Workspace.iterate k t name
    pure .done
  | first name => return .flag (← moveIterator name Iterator.first)
  | next name => return .flag (← moveIterator name Iterator.next)
  | done name => return .flag (← inspect name Iterator.done)
  | destination name => do
    match (← get).iterator? name with
    | some it => return .handle (some (← Workspace.destination it))
    | none => pure (.handle none)
  | cond name => return .condition (← inspect name Iterator.cond)
  | transition name => return .edges (← inspect name Iterator.transition?)
  | give k name => do
    giveIterator k name
    pure .done
  | drop name => return .flag (some (← dropIterator name))

omit [Engine ε] in
/-- The request, for a structure that keeps an iterator or does not. -/
def withCache (b : Bool) : Request ε → Request ε
  | build engine names o => build engine names { o with keepIterator := b }
  | r => r

omit [Engine ε] in
@[simp] theorem withCache_withCache (b b' : Bool) (r : Request ε) :
    (r.withCache b).withCache b' = r.withCache b' := by
  cases r <;> rfl

end Request

/-- What can be seen of a request: its answer or fault, and afterwards the dictionary and the pools. -/
structure Observation where
  answer : Except Fault Answer
  dict : Dictionary
  pools : Array (Option Pool)

/-- The pools of the structures. -/
def pools (w : Workspace ε) : Array (Option Pool) := w.structures.map (·.map (·.pool))

/-- What can be seen of a script. -/
def transcript [Engine ε] : List (Request ε) → Workspace ε → List Observation
  | [], _ => []
  | r :: rs, w =>
    let w' := r.run.after w
    ⟨(r.run.outcome w).1, w'.dict, w'.pools⟩ :: transcript rs w'

/-! ## Workspaces without retired iterators -/

/-- The workspace of structures that keep no iterator, and have none. -/
def uncached (w : Workspace ε) : Workspace ε :=
  { w with structures := w.structures.map (·.map Kripke.uncached) }

/-- Every structure is clean: its pool is numbered like its position, and a retired iterator is at home
there and refers to no state. -/
def Clean (w : Workspace ε) : Prop := ∀ k s, w.At k s → s.Clean k

variable {w : Workspace ε} {s : Kripke ε} {v : World ε}

theorem pools_uncached (w : Workspace ε) : w.uncached.pools = w.pools := by
  unfold pools uncached
  rw [Array.map_map]
  congr 1
  funext s
  cases s <;> rfl

theorem join_uncached (w : Workspace ε) (k : Nat) :
    (w.uncached.structures[k]?).join = ((w.structures[k]?).join).map Kripke.uncached := by
  unfold uncached
  rw [Array.getElem?_map]
  cases w.structures[k]? <;> rfl

theorem At.uncached (h : w.At k s) : w.uncached.At k s.uncached := by
  unfold At
  rw [join_uncached, show (w.structures[k]?).join = some s from h]
  rfl

theorem uncached_withWorld (w : Workspace ε) (k : Nat) (v : World ε) :
    (w.withWorld k v).uncached = w.uncached.withWorld k v.uncached := by
  unfold withWorld uncached
  dsimp only
  rw [Array.map_setIfInBounds]
  rfl

theorem Clean.withWorld (hw : w.Clean) (hk : w.At k s) (hv : v.Clean k) :
    (w.withWorld k v).Clean := by
  intro j t ht
  by_cases hj : j = k
  · subst hj
    cases (at_withWorld_self hk).unique ht
    exact hv
  · exact hw j t ((at_withWorld_of_ne hj).1 ht)

/-! ## Actions that do not see retired iterators -/

/-- The second action does on structures without retired iterators what the first one does. -/
abbrev Follow (x y : Action (Workspace ε) α) : Prop := Mirrors Clean uncached x y

theorem follow_onDict (x : Action Dictionary α) :
    Follow (onDict x : Action (Workspace ε) α) (onDict x) := by
  intro w hw
  cases hx : x w.dict with
  | ok a d => exact .inl ⟨a, _, onDict_ok hx, onDict_ok (w := w.uncached) hx, hw⟩
  | error e d => exact .inr ⟨e, _, onDict_error hx, onDict_error (w := w.uncached) hx, hw⟩

theorem follow_onPlaced {x : Action (World ε) α} (hx : Oblivious k x) :
    Follow (onPlaced k x) (onPlaced k x) := by
  intro w hw
  cases hk : (w.structures[k]?).join with
  | none =>
    refine .inr ⟨.outOfRange, w, onPlaced_none hk x, onPlaced_none ?_ x, hw⟩
    rw [join_uncached, hk]
    rfl
  | some s =>
    have hk' : w.At k s := hk
    rcases hx ⟨w.dict, s⟩ (hw k s hk) with ⟨a, v, hrun, hrun', hv⟩ | ⟨e, v, hrun, hrun', hv⟩
    · refine .inl ⟨a, _, onPlaced_ok hk' hrun, ?_, hw.withWorld hk' hv⟩
      rw [uncached_withWorld]
      exact onPlaced_ok hk'.uncached hrun'
    · refine .inr ⟨e, _, onPlaced_error hk' hrun, ?_, hw.withWorld hk' hv⟩
      rw [uncached_withWorld]
      exact onPlaced_error hk'.uncached hrun'

theorem follow_onStructure {x : Action (World ε) α} (hx : Oblivious k x) :
    Follow (onStructure k x) (onStructure k x) := by
  refine mirrors_get_bind fun w _ => ?_
  by_cases hclosed : k ∈ w.closed
  · have hclosed' : k ∈ w.uncached.closed := hclosed
    rw [if_pos hclosed, if_pos hclosed']
    exact (mirrors_throw _).bind fun _ => follow_onPlaced hx
  · have hclosed' : k ∉ w.uncached.closed := hclosed
    rw [if_neg hclosed, if_neg hclosed']
    exact follow_onPlaced hx

/-! ## Iterators -/

theorem follow_inspect (name : String) (f : Iterator → α) :
    Follow (inspect name f : Action (Workspace ε) _) (inspect name f) :=
  mirrors_get_bind fun _ _ => mirrors_pure _

theorem follow_putIterator (name : String) (it : Iterator) :
    Follow (putIterator name it : Action (Workspace ε) Unit) (putIterator name it) :=
  mirrors_modify fun _ hw => ⟨rfl, hw⟩

theorem follow_takeIterator (name : String) :
    Follow (takeIterator name : Action (Workspace ε) _) (takeIterator name) :=
  mirrors_get_bind fun _ _ => Mirrors.bind (mirrors_modify fun _ hw => ⟨rfl, hw⟩) fun _ =>
    mirrors_pure _

theorem follow_moveIterator (name : String) (f : Iterator → Bool × Iterator) :
    Follow (moveIterator name f : Action (Workspace ε) _) (moveIterator name f) := by
  refine mirrors_get_bind fun w _ => ?_
  have hit : w.uncached.iterator? name = w.iterator? name := rfl
  rw [hit]
  cases w.iterator? name with
  | none => exact mirrors_pure _
  | some it => exact (follow_putIterator _ _).bind fun _ => mirrors_pure _

theorem follow_closeIterator (it : Iterator) :
    Follow (closeIterator it : Action (Workspace ε) Unit) (closeIterator it) :=
  follow_onPlaced (oblivious_onPool it.keeps_id_close)

theorem follow_destination (it : Iterator) :
    Follow (destination it : Action (Workspace ε) Handle) (destination it) :=
  follow_onPlaced (oblivious_onPool it.keeps_id_destination)

theorem follow_dropIterator (name : String) :
    Follow (dropIterator name : Action (Workspace ε) Bool) (dropIterator name) := by
  refine (follow_takeIterator name).bind fun it? => ?_
  cases it? with
  | none => exact mirrors_pure _
  | some it => exact (follow_closeIterator it).bind fun _ => mirrors_pure _

theorem follow_iterate [Engine ε] (k : Nat) (t : Handle) (name : String) :
    Follow (iterate k t name : Action (Workspace ε) Unit) (iterate k t name) := by
  refine mirrors_get_bind fun w _ => ?_
  refine (follow_onStructure (Kripke.oblivious_successors _ t)).bind fun it => ?_
  refine (follow_takeIterator name).bind fun old? => (follow_putIterator name it).bind fun _ => ?_
  cases old? with
  | none => exact mirrors_pure _
  | some old => exact follow_closeIterator old

/-- An action on a structure goes on from where an action on the same structure has ended. -/
theorem onPlaced_bind_ok (hk : w.At k s) {x : Action (World ε) α} {a : α}
    (hx : x ⟨w.dict, s⟩ = .ok a v) (g : α → Action (World ε) β) :
    onPlaced k (x >>= g) w = onPlaced k (g a) (w.withWorld k v) := by
  have htwice : ∀ v', (w.withWorld k v).withWorld k v' = w.withWorld k v' := fun v' => by
    unfold withWorld
    rw [Array.setIfInBounds_setIfInBounds]
  have hk' : (w.withWorld k v).At k v.kripke := at_withWorld_self hk
  cases hg : g a v with
  | ok b v' =>
    rw [onPlaced_ok hk ((bind_ok hx g).trans hg), onPlaced_ok hk' hg, htwice]
  | error e v' =>
    rw [onPlaced_error hk ((bind_ok hx g).trans hg), onPlaced_error hk' hg, htwice]

theorem onPlaced_pure (hk : w.At k s) (a : α) : onPlaced k (pure a) w = .ok a w := by
  rw [onPlaced_ok hk (pure_apply a _), withWorld_self hk]

theorem onStructure_of_open (hw : k ∉ w.closed) (x : Action (World ε) α) :
    onStructure k x w = onPlaced k x w := by
  unfold onStructure
  rw [bind_ok (get_apply w), if_neg hw]

theorem onStructure_of_closed (hw : k ∈ w.closed) (x : Action (World ε) α) :
    onStructure k x w = .error .outOfRange w := by
  unfold onStructure
  rw [bind_ok (get_apply w), if_pos hw]
  rfl

/-- Gives an iterator to a structure; one that it does not keep is closed. -/
def offer (k : Nat) (it : Iterator) : Action (Workspace ε) Unit := do
  if !(← onStructure k (Kripke.retire it)) then closeIterator it

/-- An iterator that is given to its own structure is given back there. -/
theorem offer_home {it : Iterator} (hhome : it.home = k) :
    (offer k it : Action (Workspace ε) Unit) = onStructure k (Kripke.giveBack it) := by
  funext w
  unfold offer
  by_cases hclosed : k ∈ w.closed
  · rw [bind_error (onStructure_of_closed hclosed _), onStructure_of_closed hclosed]
  rw [onStructure_of_open hclosed]
  cases hk : (w.structures[k]?).join with
  | none =>
    rw [bind_error ((onStructure_of_open hclosed _).trans (onPlaced_none hk _)), onPlaced_none hk]
  | some s =>
    have hk' : w.At k s := hk
    cases hretire : Kripke.retire it ⟨w.dict, s⟩ with
    | error e v =>
      rw [bind_error ((onStructure_of_open hclosed _).trans (onPlaced_error hk' hretire))]
      exact (onPlaced_error hk' (bind_error hretire _)).symm
    | ok kept v =>
      unfold Kripke.giveBack
      rw [bind_ok ((onStructure_of_open hclosed _).trans (onPlaced_ok hk' hretire)),
        onPlaced_bind_ok hk' hretire]
      cases kept with
      | true => exact (onPlaced_pure (at_withWorld_self hk') ()).symm
      | false =>
        unfold closeIterator onHome
        rw [hhome]
        rfl

/-- Keeping an iterator of one's own and closing it release the same reference; one of another
structure is closed in either case. -/
theorem follow_offer (k : Nat) (it : Iterator) :
    Follow (offer k it : Action (Workspace ε) Unit) (offer k it) := by
  by_cases hhome : it.home = k
  · rw [offer_home hhome]
    exact follow_onStructure (Kripke.oblivious_giveBack hhome)
  · refine (follow_onStructure (Kripke.oblivious_retire hhome)).bind fun kept => ?_
    cases kept with
    | true => exact mirrors_pure _
    | false => exact follow_closeIterator it

theorem follow_giveIterator [Engine ε] (k : Nat) (name : String) :
    Follow (giveIterator k name : Action (Workspace ε) Unit) (giveIterator k name) := by
  refine (follow_takeIterator name).bind fun it? => ?_
  cases it? with
  | none => exact mirrors_pure _
  | some it => exact follow_offer k it

/-! ## Building -/

/-- A new structure has the pool that is numbered as asked for, and no retired iterator. -/
theorem create_retired [Engine ε] {engine : ε} {names : List String} {o : Options}
    {d d' : Dictionary} (h : Kripke.create k engine names o d = .ok (.ok s) d') :
    s.pool.id = k ∧ s.retired = none := by
  rcases Kripke.create_cases h with ⟨ds, hds, -⟩ | ⟨t, ht, hpool, hret⟩
  · cases hds
  · cases ht
    exact ⟨(Pool.create_sound hpool).2.1, hret⟩

theorem clean_push (hw : w.Clean) {s? : Option (Kripke ε)} {d : Dictionary}
    (hs : ∀ s, s? = some s → s.Clean w.structures.size) :
    Clean { w with dict := d, structures := w.structures.push s? } := by
  intro k t ht
  have ht' : ((w.structures.push s?)[k]?).join = some t := ht
  rw [Array.getElem?_push] at ht'
  by_cases hk : k = w.structures.size
  · rw [if_pos hk] at ht'
    rw [hk]
    exact hs t ht'
  · rw [if_neg hk] at ht'
    exact hw k t ht'

theorem uncached_push (w : Workspace ε) (d : Dictionary) (s? : Option (Kripke ε)) :
    uncached { w with dict := d, structures := w.structures.push s? } =
      { w.uncached with
        dict := d, structures := w.uncached.structures.push (s?.map Kripke.uncached) } := by
  simp only [uncached, Array.map_push]

/-- A structure that keeps no iterator is built in place of any other one. -/
theorem follow_build [Engine ε] (engine : ε) (names : List String) (o : Options) :
    Follow (build engine names o) (build engine names { o with keepIterator := false }) := by
  intro w hw
  have hsize : w.uncached.structures.size = w.structures.size := Array.size_map
  have hcreate := congrFun
    (Kripke.create_keepIterator w.structures.size engine names o false) w.dict
  unfold build
  rw [bind_ok (get_apply w), bind_ok (get_apply w.uncached), hsize]
  cases hrun : Kripke.create w.structures.size engine names o w.dict with
  | error e d =>
    have hrun' : Kripke.create w.structures.size engine names { o with keepIterator := false }
        w.dict = .error e d := hcreate.trans (bind_error hrun _)
    exact .inr ⟨e, _, bind_error (onDict_error hrun) _,
      bind_error (onDict_error (w := w.uncached) hrun') _, hw⟩
  | ok r d =>
    have hrun' := hcreate.trans (bind_ok hrun _)
    refine .inl ?_
    rw [bind_ok (onDict_ok hrun), bind_ok (onDict_ok (w := w.uncached) hrun')]
    cases r with
    | error ds =>
      refine ⟨_, _, rfl, ?_, clean_push hw fun s hs => by cases hs⟩
      rw [uncached_push]
      rfl
    | ok s =>
      obtain ⟨hid, hret⟩ := create_retired hrun
      refine ⟨_, _, rfl, ?_, clean_push hw ?_⟩
      · rw [uncached_push, Option.map_some, Kripke.uncached_of_retired hret]
        rfl
      · rintro _ ⟨⟩
        exact ⟨hid, fun it hit => by rw [hret] at hit; cases hit⟩

/-! ## Whole scripts -/

variable [Engine ε]

/-- One request: the step of the simulation. -/
theorem follow_request (r : Request ε) : Follow r.run (r.withCache false).run := by
  cases r with
  | dictionary q => exact (follow_onDict _).bind fun _ => mirrors_pure _
  | build engine names o => exact (follow_build engine names o).bind fun _ => mirrors_pure _
  | initialState k =>
    exact (follow_onStructure Kripke.oblivious_initialState).bind fun _ => mirrors_pure _
  | clone k t =>
    exact (follow_onStructure (oblivious_onPool (Pool.keeps_id_clone t))).bind fun _ =>
      mirrors_pure _
  | release k t =>
    exact (follow_onStructure (oblivious_onPool (Pool.keeps_id_release t))).bind fun _ =>
      mirrors_pure _
  | compare k t u =>
    exact (follow_onStructure (mirrors_reading fun _ => rfl)).bind fun _ => mirrors_pure _
  | iterate k t name => exact (follow_iterate k t name).bind fun _ => mirrors_pure _
  | first name => exact (follow_moveIterator name _).bind fun _ => mirrors_pure _
  | next name => exact (follow_moveIterator name _).bind fun _ => mirrors_pure _
  | done name => exact (follow_inspect name _).bind fun _ => mirrors_pure _
  | destination name =>
    refine mirrors_get_bind fun w _ => ?_
    have hit : w.uncached.iterator? name = w.iterator? name := rfl
    rw [hit]
    cases w.iterator? name with
    | none => exact mirrors_pure _
    | some it => exact (follow_destination it).bind fun _ => mirrors_pure _
  | cond name => exact (follow_inspect name _).bind fun _ => mirrors_pure _
  | transition name => exact (follow_inspect name _).bind fun _ => mirrors_pure _
  | give k name => exact (follow_giveIterator k name).bind fun _ => mirrors_pure _
  | drop name => exact (follow_dropIterator name).bind fun _ => mirrors_pure _

/-- The whole script, by induction on the requests: the invariant is that the second workspace is the
first one without its retired iterators. -/
theorem transcript_uncached (rs : List (Request ε)) {w : Workspace ε} (hw : w.Clean) :
    transcript (rs.map (·.withCache false)) w.uncached = transcript rs w := by
  induction rs generalizing w with
  | nil => rfl
  | cons r rs ih =>
    obtain ⟨hanswer, hafter, hclean⟩ := (follow_request r).outcome_eq hw
    have hpools := pools_uncached (r.run.after w)
    rw [List.map_cons, transcript, transcript, hanswer, hafter, hpools, ih hclean]
    rfl

/-- Whether structures keep iterators that were given back makes no difference to a script: the same
requests have the same answers and the same faults, with the same handles, conditions and transitions,
and after each of them the dictionary and all pools are the same. -/
theorem transcript_withCache (d : Dictionary) (rs : List (Request ε)) (b : Bool) :
    transcript (rs.map (·.withCache b)) { dict := d } = transcript rs { dict := d } := by
  have hclean : Clean ({ dict := d } : Workspace ε) := fun k s hs => by cases hs
  have hempty : uncached ({ dict := d } : Workspace ε) = { dict := d } := by
    simp only [uncached, List.map_toArray, List.map_nil]
  have hnone : ∀ rs : List (Request ε),
      transcript (rs.map (·.withCache false)) { dict := d } = transcript rs { dict := d } :=
    fun rs => by rw [← transcript_uncached rs hclean, hempty]
  calc transcript (rs.map (·.withCache b)) { dict := d }
      = transcript ((rs.map (·.withCache b)).map (·.withCache false)) { dict := d } :=
        (hnone _).symm
    _ = transcript (rs.map (·.withCache false)) { dict := d } := by
        rw [List.map_map]
        simp only [Function.comp_def, Request.withCache_withCache]
    _ = transcript rs { dict := d } := hnone rs

end Workspace

end StateSpace
