import Mathlib.Data.Finset.Card
import Mathlib.Data.Finset.Image
import StateSpace.Proofs.Dictionary.Requests

/-!
# Who holds which names

A ledger reads the calls to a dictionary and their answers, and keeps the live holdings: a party that
registered a name holds it, under the variable that it was told, until the party gives this variable up
or gives everything up. The registry of the dictionary says at any time what the ledger says.

1. `Tracks`: the holders of the registry are the live holdings, and the next variable is bounded by the
   number of new names. Every call keeps it (`Tracks.step`), so every run does (`tracks`).
2. `Confined`: a variable that was issued is held under the names that it can still be held under, and
   these get no more. A variable that nobody holds is never answered again.
-/

namespace StateSpace.Registry

open Std StateSpace.Action

variable {r r' : Registry} {o o' : Owner} {name name' : String} {v v' : UInt32}

/-! ## Calls -/

/-- What parties ask of the names of a dictionary. -/
inductive Call where
  | newOwner
  | register (name : String) (o : Owner)
  | unregister (v : UInt32) (o : Owner)
  | unregisterAll (o : Owner)

/-- What they are told. -/
inductive Answer where
  | done
  | owner (o : Owner)
  | var (v : UInt32)
  | count (n : Nat)

namespace Call

/-- The call on a dictionary. -/
def run : Call → Action Dictionary Answer
  | newOwner => return .owner (← Dictionary.newOwner)
  | register name o => return .var (← Dictionary.register name o)
  | unregister v o => do
    Dictionary.unregister v o
    pure .done
  | unregisterAll o => return .count (← Dictionary.unregisterAll o)

/-- The call on a registry. -/
def step : Call → Registry → Answer × Registry
  | newOwner, r => (.owner r.newOwner.1, r.newOwner.2)
  | register name o, r => (.var (r.register name o).1, (r.register name o).2)
  | unregister v o, r => (.done, r.unregister v o)
  | unregisterAll o, r => (.count (r.unregisterAll o).1, (r.unregisterAll o).2)

theorem run_eq (c : Call) (d : Dictionary) :
    c.run d = .ok (c.step d.registry).1 { d with registry := (c.step d.registry).2 } := by
  cases c <;> rfl

end Call

/-- The calls with their answers, from a registry on. -/
def logFrom : Registry → List Call → List (Call × Answer)
  | _, [] => []
  | r, c :: cs => (c, (c.step r).1) :: logFrom (c.step r).2 cs

/-- The calls to a new dictionary, with their answers. -/
def log (cs : List Call) : List (Call × Answer) := logFrom {} cs

/-- The registry after calls to a new dictionary. -/
def after (cs : List Call) : Registry := cs.foldl (fun r c => (c.step r).2) {}

/-- The registry after calls to another one. -/
def replay (r : Registry) (cs : List Call) : Registry := cs.foldl (fun r c => (c.step r).2) r

theorem replay_append (r : Registry) (cs cs' : List Call) :
    r.replay (cs ++ cs') = (r.replay cs).replay cs' := List.foldl_append

theorem after_concat (cs : List Call) (c : Call) : after (cs ++ [c]) = (c.step (after cs)).2 :=
  List.foldl_append

theorem logFrom_append (r : Registry) (cs cs' : List Call) :
    logFrom r (cs ++ cs') =
      logFrom r cs ++ logFrom (cs.foldl (fun r c => (c.step r).2) r) cs' := by
  induction cs generalizing r with
  | nil => rfl
  | cons c cs ih => exact congrArg _ (ih (c.step r).2)

theorem log_concat (cs : List Call) (c : Call) :
    log (cs ++ [c]) = log cs ++ [(c, (c.step (after cs)).1)] := logFrom_append {} cs [c]

theorem length_log (cs : List Call) : (log cs).length = cs.length := by
  induction cs using List.reverseRecOn with
  | nil => rfl
  | append_singleton cs c ih => simp [log_concat, ih]

/-- An entry of the log is a call with its answer at that time. -/
theorem log_getElem? (cs : List Call) (i : Nat) :
    (log cs)[i]? = cs[i]?.map fun c => (c, (c.step (after (cs.take i))).1) := by
  induction cs using List.reverseRecOn with
  | nil => rfl
  | append_singleton cs c ih =>
    rw [log_concat]
    rcases Nat.lt_trichotomy i cs.length with hi | rfl | hi
    · rw [List.getElem?_append_left (by rwa [length_log]), List.getElem?_append_left hi, ih,
        List.take_append_of_le_length hi.le]
    · rw [← length_log, List.getElem?_concat_length, length_log, List.getElem?_concat_length,
        List.take_left]
      rfl
    · rw [List.getElem?_eq_none (by simp [length_log]; omega),
        List.getElem?_eq_none (by simp; omega)]
      rfl

/-- Calls to a dictionary go on from registry to registry, and never fault. -/
theorem run_mapM (cs : List Call) (d : Dictionary) (r : Registry) (hd : d.registry = r) :
    cs.mapM Call.run d = .ok ((logFrom r cs).map (·.2))
      { d with registry := cs.foldl (fun r c => (c.step r).2) r } := by
  induction cs generalizing d r with
  | nil => rw [List.mapM_nil, ← hd]; rfl
  | cons c cs ih =>
    subst hd
    rw [List.mapM_cons, bind_ok (c.run_eq d), bind_ok (ih _ _ rfl)]
    rfl

/-! ## The ledger -/

/-- A party holds a name under a variable. -/
structure Holding where
  owner : Owner
  name : String
  var : UInt32
deriving DecidableEq

/-- The live holdings, and how often a name was registered that nobody held. -/
structure Ledger where
  live : Finset Holding := ∅
  issued : Nat := 0

/-- The ledger after one more call with its answer. -/
def Ledger.note (l : Ledger) : Call × Answer → Ledger
  | (.register name o, .var v) =>
    { live := insert ⟨o, name, v⟩ l.live
      issued := if ∃ x ∈ l.live, x.name = name then l.issued else l.issued + 1 }
  | (.unregister v o, _) => { l with live := l.live.filter fun x => ¬(x.var = v ∧ x.owner = o) }
  | (.unregisterAll o, _) => { l with live := l.live.filter fun x => x.owner ≠ o }
  | _ => l

/-- The ledger of calls to a new dictionary. -/
def ledger (cs : List Call) : Ledger := (log cs).foldl Ledger.note {}

theorem ledger_concat (cs : List Call) (c : Call) :
    ledger (cs ++ [c]) = (ledger cs).note (c, (c.step (after cs)).1) := by
  unfold ledger
  rw [log_concat, List.foldl_append]
  rfl

theorem issued_le_note (l : Ledger) (x : Call × Answer) : l.issued ≤ (l.note x).issued := by
  unfold Ledger.note
  split
  · dsimp only
    split <;> omega
  all_goals exact Nat.le_refl _

/-- New names get no fewer. -/
theorem issued_take_le (cs : List Call) (n : Nat) :
    (ledger (cs.take n)).issued ≤ (ledger cs).issued := by
  induction cs using List.reverseRecOn with
  | nil => rw [List.take_nil]
  | append_singleton cs c ih =>
    rcases Nat.lt_or_ge cs.length n with hn | hn
    · rw [List.take_of_length_le (by simp; omega)]
    · rw [List.take_append_of_le_length hn, ledger_concat]
      exact Nat.le_trans ih (issued_le_note _ _)

/-! ## Single calls -/

/-- A name that somebody holds is registered under its variable. -/
theorem Holds.register_eq (hr : r.Valid) (h : r.Holds o' name v) (o : Owner) :
    (r.register name o).1 = v := by
  unfold register
  rw [h.varOf hr]

/-- A name that nobody holds is registered under the next variable. -/
theorem register_new (hr : r.Valid) (h : ∀ o' v', ¬r.Holds o' name v') (o : Owner) :
    (r.register name o).1 = r.nextVar ∧ (r.register name o).2.nextVar = r.nextVar + 1 := by
  rcases r.register_cases name o with ⟨v, hv, -⟩ | ⟨-, hreg⟩
  · obtain ⟨o', ho'⟩ := (varOf_eq_some_iff hr).1 hv
    exact absurd ho' (h o' v)
  · rw [hreg]
    exact ⟨rfl, rfl⟩

/-- A variable without a holder of this party's is given up in vain. -/
theorem unregister_eq_self (h : ∀ name, ¬r.Holds o name v) : r.unregister v o = r := by
  rcases r.unregister_cases v o with ⟨hsame, -⟩ | ⟨e, he, ho, -⟩
  · exact hsame
  · exact absurd ⟨e, he, rfl, ho⟩ (h e.name)

/-- No two variables in use have one name. -/
theorem nodup_names (hr : r.Valid) : (r.vars.toList.map (·.2.name)).Nodup := by
  rw [List.Nodup, List.pairwise_map]
  refine r.vars.distinct_keys_toList.imp_of_mem fun {x y} hx hy hne hname => hne ?_
  rw [Std.compare_eq_iff_eq]
  have hnameOf : ∀ z ∈ r.vars.toList, r.varOf z.2.name = some z.1 := fun z hz =>
    (hr.inverse _ _).2 (Option.map_eq_some_iff.2
      ⟨z.2, ExtTreeMap.mem_toList_iff_getElem?_eq_some.1 hz, rfl⟩)
  have hx' := hnameOf x hx
  rw [hname, hnameOf y hy] at hx'
  exact (Option.some.inj hx').symm

/-- The names of some variables, counted once each. -/
theorem card_names (hr : r.Valid) (p : UInt32 × Registration → Bool) :
    ((r.vars.toList.filter p).map (·.2.name)).toFinset.card = (r.vars.toList.filter p).length := by
  have hnodup : ((r.vars.toList.filter p).map (·.2.name)).Nodup :=
    (nodup_names hr).sublist (List.filter_sublist.map _)
  rw [List.toFinset_card_of_nodup hnodup, List.length_map]

/-! ## Ledgers of registries -/

variable {l : Ledger} {c : Call} {cs : List Call}

/-- The holders of the registry are those of the ledger, and no more variables were issued than there
were new names. -/
structure Tracks (r : Registry) (l : Ledger) : Prop where
  valid : r.Valid
  holds : ∀ o name v, r.Holds o name v ↔ ⟨o, name, v⟩ ∈ l.live
  nextVar : r.nextVar.toNat ≤ l.issued + 1

theorem tracks_empty : Tracks {} {} where
  valid := empty_valid
  holds _ _ _ := iff_of_false not_holds_empty (Finset.notMem_empty _)
  nextVar := Nat.le_refl _

theorem Tracks.held_iff (h : Tracks r l) :
    (∃ o v, r.Holds o name v) ↔ ∃ x ∈ l.live, x.name = name := by
  constructor
  · rintro ⟨o, v, hv⟩
    exact ⟨⟨o, name, v⟩, (h.holds o name v).1 hv, rfl⟩
  · rintro ⟨⟨o, _, v⟩, hx, rfl⟩
    exact ⟨o, v, (h.holds o _ v).2 hx⟩

/-- There is a variable for a name, if it needs one. -/
theorem Tracks.room (h : Tracks r l)
    (hroom : (l.note (.register name o, .var v)).issued < 2 ^ 32 - 1) :
    (∃ o' v', r.Holds o' name v') ∨ r.nextVar.toNat + 1 < 2 ^ 32 := by
  by_cases hheld : ∃ o' v', r.Holds o' name v'
  · exact .inl hheld
  · refine .inr ?_
    have hissued : (l.note (.register name o, .var v)).issued = l.issued + 1 :=
      if_neg fun hx => hheld (h.held_iff.2 hx)
    rw [hissued] at hroom
    have := h.nextVar
    omega

/-- One call, with its answer. -/
theorem Tracks.step (h : Tracks r l) (c : Call)
    (hroom : (l.note (c, (c.step r).1)).issued < 2 ^ 32 - 1) :
    Tracks (c.step r).2 (l.note (c, (c.step r).1)) := by
  cases c with
  | newOwner => exact ⟨newOwner_valid h.valid, h.holds, h.nextVar⟩
  | register name o =>
    have hreg := register_spec h.valid (h.room hroom) o
    refine ⟨hreg.valid, fun o' name' v' => ?_, ?_⟩
    · show (r.register name o).2.Holds o' name' v' ↔
        (⟨o', name', v'⟩ : Holding) ∈ insert ⟨o, name, (r.register name o).1⟩ l.live
      rw [hreg.holds, h.holds, Finset.mem_insert, Holding.mk.injEq, or_comm]
    have hnext := h.nextVar
    by_cases hheld : ∃ o' v', r.Holds o' name v'
    · have hissued : (l.note (.register name o, ((Call.register name o).step r).1)).issued =
        l.issued := if_pos (h.held_iff.1 hheld)
      have heq : ((Call.register name o).step r).2.nextVar = r.nextVar := hreg.next_eq hheld
      rw [hissued, heq]
      exact hnext
    · have hissued : (l.note (.register name o, ((Call.register name o).step r).1)).issued =
        l.issued + 1 := if_neg fun hx => hheld (h.held_iff.2 hx)
      have hle : ((Call.register name o).step r).2.nextVar.toNat ≤ r.nextVar.toNat + 1 :=
        hreg.next_le
      rw [hissued]
      omega
  | unregister v o =>
    have hrel := unregister_spec h.valid v o
    refine ⟨hrel.valid, fun o' name' v' => ?_, ?_⟩
    · show (r.unregister v o).Holds o' name' v' ↔
        (⟨o', name', v'⟩ : Holding) ∈ l.live.filter fun x => ¬(x.var = v ∧ x.owner = o)
      rw [hrel.holds, h.holds, Finset.mem_filter]
    · show (r.unregister v o).nextVar.toNat ≤ l.issued + 1
      rw [hrel.nextVar]
      exact h.nextVar
  | unregisterAll o =>
    have hrel := unregisterAll_spec h.valid o
    refine ⟨hrel.valid, fun o' name' v' => ?_, ?_⟩
    · show (r.unregisterAll o).2.Holds o' name' v' ↔
        (⟨o', name', v'⟩ : Holding) ∈ l.live.filter fun x => x.owner ≠ o
      rw [hrel.holds, h.holds, Finset.mem_filter]
    · show (r.unregisterAll o).2.nextVar.toNat ≤ l.issued + 1
      rw [hrel.nextVar]
      exact h.nextVar

/-- Any calls, as long as there are variables. -/
theorem tracks (hroom : (ledger cs).issued < 2 ^ 32 - 1) : Tracks (after cs) (ledger cs) := by
  induction cs using List.reverseRecOn with
  | nil => exact tracks_empty
  | append_singleton cs c ih =>
    rw [ledger_concat] at hroom ⊢
    rw [after_concat]
    exact (ih (Nat.lt_of_le_of_lt (issued_le_note _ _) hroom)).step c hroom

theorem tracks_take (hroom : (ledger cs).issued < 2 ^ 32 - 1) (n : Nat) :
    Tracks (after (cs.take n)) (ledger (cs.take n)) :=
  tracks (Nat.lt_of_le_of_lt (issued_take_le cs n) hroom)

/-! ## Names and variables over time -/

/-- Only registrations issue variables and add holders. -/
theorem Tracks.step_cases (h : Tracks r l) (c : Call)
    (hroom : (l.note (c, (c.step r).1)).issued < 2 ^ 32 - 1) :
    (∃ name o, c = .register name o ∧
      Registered r name o (r.register name o).1 (c.step r).2 ∧
      ((∃ o' v', r.Holds o' name v') ∨ r.nextVar.toNat + 1 < 2 ^ 32)) ∨
    ((c.step r).2.nextVar = r.nextVar ∧
      ∀ o name v, (c.step r).2.Holds o name v → r.Holds o name v) := by
  cases c with
  | newOwner => exact .inr ⟨rfl, fun _ _ _ hheld => hheld⟩
  | register name o =>
    have hlt := h.room hroom
    exact .inl ⟨name, o, rfl, register_spec h.valid hlt o, hlt⟩
  | unregister v o =>
    have hrel := unregister_spec h.valid v o
    exact .inr ⟨hrel.nextVar, fun o' name v' hheld => ((hrel.holds o' name v').1 hheld).1⟩
  | unregisterAll o =>
    have hrel := unregisterAll_spec h.valid o
    exact .inr ⟨hrel.nextVar, fun o' name v' hheld => ((hrel.holds o' name v').1 hheld).1⟩

/-- A name that is held before and after a call has the same variable. -/
theorem Tracks.var_kept (h : Tracks r l) (hroom : (l.note (c, (c.step r).1)).issued < 2 ^ 32 - 1)
    (hv : r.Holds o name v) (hv' : (c.step r).2.Holds o' name v') : v' = v := by
  rcases h.step_cases c hroom with ⟨name', o₁, -, hreg, -⟩ | ⟨-, hsub⟩
  · -- whoever held the name holds it still
    exact hv'.var_unique hreg.valid ((hreg.holds o name v).2 (.inl hv))
  · exact (hsub o' name v' hv').var_unique h.valid hv

/-- The variable was issued, and the names under which it is held are among those that satisfy `P`. -/
structure Confined (r : Registry) (v : UInt32) (P : String → Prop) : Prop where
  lt : v.toNat < r.nextVar.toNat
  names : ∀ o name, r.Holds o name v → P name

/-- What a registration answers is held already, or it is the next variable. -/
theorem register_held_or_next (hr : r.Valid) (name : String) (o : Owner) :
    (∃ o', r.Holds o' name (r.register name o).1) ∨ (r.register name o).1 = r.nextVar := by
  by_cases hheld : ∃ o' v', r.Holds o' name v'
  · obtain ⟨o', v', h⟩ := hheld
    refine .inl ⟨o', ?_⟩
    rwa [h.register_eq hr]
  · refine .inr (register_new hr (fun o' v' h => hheld ⟨o', v', h⟩) o).1

/-- A variable that was issued is answered only for a name under which somebody holds it. -/
theorem Confined.of_register {P : String → Prop} (h : Confined r v P) (hr : r.Valid)
    (hv : (r.register name o).1 = v) : P name := by
  rcases register_held_or_next hr name o with ⟨o', hheld⟩ | hnext
  · rw [hv] at hheld
    exact h.names o' name hheld
  · have := h.lt
    rw [← hv, hnext] at this
    exact absurd this (Nat.lt_irrefl _)

theorem Tracks.nextVar_le_step (h : Tracks r l) (c : Call)
    (hroom : (l.note (c, (c.step r).1)).issued < 2 ^ 32 - 1) :
    r.nextVar.toNat ≤ (c.step r).2.nextVar.toNat := by
  rcases h.step_cases c hroom with ⟨name, o, rfl, hreg, hlt⟩ | ⟨hnext, -⟩
  · by_cases hheld : ∃ o' v', r.Holds o' name v'
    · rw [hreg.next_eq hheld]
    · have hnew : ((Call.register name o).step r).2.nextVar = r.nextVar + 1 :=
        (register_new h.valid (fun o' v' h => hheld ⟨o', v', h⟩) o).2
      have hlt := hlt.resolve_left hheld
      rw [hnew, UInt32.toNat_add, UInt32.toNat_one, Nat.mod_eq_of_lt hlt]
      omega
  · rw [hnext]

theorem Confined.step {P : String → Prop} (hv : Confined r v P) (h : Tracks r l) (c : Call)
    (hroom : (l.note (c, (c.step r).1)).issued < 2 ^ 32 - 1) : Confined (c.step r).2 v P := by
  refine ⟨Nat.lt_of_lt_of_le hv.lt (h.nextVar_le_step c hroom), fun o name hheld => ?_⟩
  rcases h.step_cases c hroom with ⟨name', o', rfl, hreg, -⟩ | ⟨-, hsub⟩
  · rcases (hreg.holds o name v).1 hheld with hold | ⟨-, rfl, hnew⟩
    · exact hv.names o name hold
    · exact hv.of_register h.valid hnew.symm
  · exact hv.names o name (hsub o name v hheld)

/-! ## Whole runs -/

section Run

variable {i j m n : Nat}

theorem after_take_succ (hn : n < cs.length) :
    after (cs.take (n + 1)) = (cs[n].step (after (cs.take n))).2 := by
  rw [List.take_succ_eq_append_getElem hn, after_concat]

/-- There is a variable for every call of the run. -/
theorem room_take (hroom : (ledger cs).issued < 2 ^ 32 - 1) (hn : n < cs.length) :
    ((ledger (cs.take n)).note (cs[n], (cs[n].step (after (cs.take n))).1)).issued < 2 ^ 32 - 1 := by
  rw [← ledger_concat, ← List.take_succ_eq_append_getElem hn]
  exact Nat.lt_of_le_of_lt (issued_take_le cs (n + 1)) hroom

theorem Confined.run (hroom : (ledger cs).issued < 2 ^ 32 - 1) {P : String → Prop} (hmn : m ≤ n)
    (hn : n ≤ cs.length) (h : Confined (after (cs.take m)) v P) :
    Confined (after (cs.take n)) v P := by
  induction n, hmn using Nat.le_induction with
  | base => exact h
  | succ n _ ih =>
    rw [after_take_succ hn]
    exact (ih (Nat.le_of_succ_le hn)).step (tracks_take hroom n) cs[n] (room_take hroom hn)

/-- A name that is never without a holder keeps its variable. -/
theorem varOf_stays (hroom : (ledger cs).issued < 2 ^ 32 - 1) (hmn : m ≤ n) (hn : n ≤ cs.length)
    (hheld : ∀ i, m ≤ i → i ≤ n → ∃ x ∈ (ledger (cs.take i)).live, x.name = name) :
    (after (cs.take n)).varOf name = (after (cs.take m)).varOf name := by
  induction n, hmn using Nat.le_induction with
  | base => rfl
  | succ n hmn ih =>
    have h := tracks_take hroom n
    have h' := tracks_take hroom (n + 1)
    obtain ⟨o, v, hv⟩ := h.held_iff.2 (hheld n hmn (Nat.le_succ n))
    obtain ⟨o', v', hv'⟩ := h'.held_iff.2 (hheld (n + 1) (Nat.le_succ_of_le hmn) (Nat.le_refl _))
    have hvar := hv'.varOf h'.valid
    rw [after_take_succ hn] at hv'
    rw [← ih (Nat.le_of_succ_le hn) fun i hi hin => hheld i hi (Nat.le_succ_of_le hin), hvar,
      hv.varOf h.valid, h.var_kept (room_take hroom hn) hv hv']

/-- What the entry of a registration in the log says. -/
theorem exists_register (h : (log cs)[i]? = some (.register name o, .var v)) :
    ∃ hi : i < cs.length, cs[i] = .register name o ∧
      ((after (cs.take i)).register name o).1 = v := by
  rw [log_getElem?, Option.map_eq_some_iff] at h
  obtain ⟨c, hc, hanswer⟩ := h
  obtain ⟨hi, rfl⟩ := List.getElem?_eq_some_iff.1 hc
  rw [Prod.mk.injEq] at hanswer
  obtain ⟨hcall, hvar⟩ := hanswer
  rw [hcall] at hvar
  exact ⟨hi, hcall, Answer.var.inj hvar⟩

/-- A variable that is answered twice is answered for one name, which somebody held under it all the
time from the one answer to the other. -/
theorem var_answered_twice (hroom : (ledger cs).issued < 2 ^ 32 - 1) (hij : i < j)
    (hi : (log cs)[i]? = some (.register name o, .var v))
    (hj : (log cs)[j]? = some (.register name' o', .var v)) :
    name' = name ∧ ∀ m, i < m → m ≤ j → ∃ x ∈ (ledger (cs.take m)).live, x.name = name ∧ x.var = v := by
  obtain ⟨hilt, hcall, hvar⟩ := exists_register hi
  obtain ⟨hjlt, -, hvar'⟩ := exists_register hj
  have h := tracks_take hroom i
  have h' := tracks_take hroom (i + 1)
  have hheld : (after (cs.take (i + 1))).Holds o name v := by
    have hlt := room_take hroom hilt
    rw [hcall] at hlt
    have hreg := register_spec h.valid (h.room hlt) o
    rw [after_take_succ hilt, hcall]
    exact (hreg.holds o name v).2 (.inr ⟨rfl, rfl, hvar.symm⟩)
  -- from now on, nobody holds the variable under another name
  have hconfined : Confined (after (cs.take (i + 1))) v (· = name) := by
    refine ⟨?_, fun o' name' hheld' => hheld'.name_unique hheld⟩
    obtain ⟨e, he, -⟩ := hheld
    exact h'.valid.var_lt v e he
  refine ⟨(hconfined.run hroom hij hjlt.le).of_register (tracks_take hroom j).valid hvar', ?_⟩
  intro m him hmj
  have hm := tracks_take hroom m
  have hconfined' := hconfined.run hroom him (Nat.le_trans hmj hjlt.le)
  by_contra hnone
  -- nobody holds it at this moment, so it is not answered any more
  have hgone : Confined (after (cs.take m)) v fun _ => False := by
    refine ⟨hconfined'.lt, fun o₁ name₁ hheld₁ => hnone ?_⟩
    exact ⟨⟨o₁, name₁, v⟩, (hm.holds o₁ name₁ v).1 hheld₁, hconfined'.names o₁ name₁ hheld₁, rfl⟩
  exact (hgone.run hroom hmj hjlt.le).of_register (tracks_take hroom j).valid hvar'

end Run

/-! ## What the registry tells -/

/-- The registry tells what the live holdings are. -/
structure Tells (r : Registry) (live : Finset Holding) : Prop where
  /-- The parties that hold a name. -/
  holds : ∀ o name v, r.Holds o name v ↔ ⟨o, name, v⟩ ∈ live
  /-- The map of names and that of variables are inverse bijections. -/
  inverse : ∀ name v, r.varOf name = some v ↔ r.nameOf v = some name
  varOf : ∀ name v, r.varOf name = some v ↔ ∃ o, ⟨o, name, v⟩ ∈ live
  nameOf : ∀ name v, r.nameOf v = some name ↔ ∃ o, ⟨o, name, v⟩ ∈ live
  size : r.size = (live.image (·.name)).card
  /-- Giving everything up counts the names of the party and removes its holdings only. -/
  count : ∀ o, (r.unregisterAll o).1 = ((live.filter (·.owner = o)).image (·.name)).card
  removed : ∀ o o' name v,
    (r.unregisterAll o).2.Holds o' name v ↔ ⟨o', name, v⟩ ∈ live ∧ o' ≠ o
  /-- Giving up what one does not hold changes nothing. -/
  idle : ∀ o v, (∀ name, ⟨o, name, v⟩ ∉ live) → r.unregister v o = r

theorem Tracks.tells (h : Tracks r l) : Tells r l.live where
  holds := h.holds
  inverse := h.valid.inverse
  varOf name v := by
    rw [varOf_eq_some_iff h.valid]
    exact exists_congr fun o => h.holds o name v
  nameOf name v := by
    rw [nameOf_eq_some_iff h.valid]
    exact exists_congr fun o => h.holds o name v
  size := by
    have hnames : l.live.image (·.name) =
        ((r.vars.toList.filter fun _ => true).map (·.2.name)).toFinset := by
      ext name
      rw [Finset.mem_image, ← h.held_iff, List.mem_toFinset, List.mem_map, List.filter_true]
      constructor
      · rintro ⟨o, v, e, he, hname, -⟩
        exact ⟨(v, e), ExtTreeMap.mem_toList_iff_getElem?_eq_some.2 he, hname⟩
      · rintro ⟨⟨v, e⟩, he, rfl⟩
        have he' := ExtTreeMap.mem_toList_iff_getElem?_eq_some.1 he
        obtain ⟨o, ho⟩ := h.valid.held v e he'
        exact ⟨o, v, e, he', rfl, ho⟩
    rw [hnames, card_names h.valid, List.filter_true, ExtTreeMap.length_toList]
    rfl
  count o := by
    have hnames : (l.live.filter (·.owner = o)).image (·.name) =
        ((r.vars.toList.filter fun x => o ∈ x.2.owners).map (·.2.name)).toFinset := by
      ext name
      simp only [Finset.mem_image, Finset.mem_filter, List.mem_toFinset, List.mem_map,
        List.mem_filter, decide_eq_true_iff]
      constructor
      · rintro ⟨⟨_, _, v⟩, ⟨hx, rfl⟩, rfl⟩
        obtain ⟨e, he, hname, ho⟩ := (h.holds _ _ v).2 hx
        exact ⟨(v, e), ⟨ExtTreeMap.mem_toList_iff_getElem?_eq_some.2 he, ho⟩, hname⟩
      · rintro ⟨⟨v, e⟩, ⟨he, ho⟩, rfl⟩
        have he' := ExtTreeMap.mem_toList_iff_getElem?_eq_some.1 he
        exact ⟨⟨o, e.name, v⟩, ⟨(h.holds o e.name v).1 ⟨e, he', rfl, ho⟩, rfl⟩, rfl⟩
    rw [hnames, card_names h.valid, ← List.length_map]
    rfl
  removed o o' name v := by
    rw [(unregisterAll_spec h.valid o).holds, h.holds]
  idle o v hnone := unregister_eq_self fun name hheld => hnone name ((h.holds o name v).1 hheld)

/-- Any calls to a new dictionary that register fewer than `2 ^ 32 - 1` new names. They do not fault,
and the registry tells what the ledger says. While a name is never without a holder, its variable stays
the same, and a variable that is answered again was held all the time, under the same name. -/
theorem ledger_correct (cs : List Call) (hroom : (ledger cs).issued < 2 ^ 32 - 1) :
    (∀ bits d, Dictionary.create bits = .ok d →
      cs.mapM Call.run d = .ok ((log cs).map (·.2)) { d with registry := after cs }) ∧
    Tells (after cs) (ledger cs).live ∧
    (∀ name m n, m ≤ n → n ≤ cs.length →
      (∀ i, m ≤ i → i ≤ n → ∃ x ∈ (ledger (cs.take i)).live, x.name = name) →
      (after (cs.take n)).varOf name = (after (cs.take m)).varOf name) ∧
    ∀ i j name name' o o' v, i < j → (log cs)[i]? = some (.register name o, .var v) →
      (log cs)[j]? = some (.register name' o', .var v) →
      name' = name ∧ ∀ m, i < m → m ≤ j →
        ∃ x ∈ (ledger (cs.take m)).live, x.name = name ∧ x.var = v := by
  refine ⟨fun bits d hd => ?_, (tracks hroom).tells, fun name m n => varOf_stays hroom,
    fun i j name name' o o' v => var_answered_twice hroom⟩
  obtain ⟨m, -, hd⟩ := except_bind_eq_ok.1 hd
  cases hd
  exact run_mapM cs _ _ rfl

/-- A name that two parties hold and give up is forgotten; when it is registered anew, it gets another
variable. -/
theorem ledger_correct_anew : ∃ cs : List Call, (ledger cs).issued = 2 ∧
    (log cs)[2]? = some (.register "a" ⟨1⟩, .var 1) ∧
    (log cs)[6]? = some (.register "a" ⟨1⟩, .var 2) ∧ (after cs).varOf "a" = some 2 ∧
    Tells (after cs) (ledger cs).live := by
  refine ⟨[.newOwner, .newOwner, .register "a" ⟨1⟩, .register "a" ⟨2⟩, .unregister 1 ⟨1⟩,
    .unregister 1 ⟨2⟩, .register "a" ⟨1⟩], by decide +kernel, rfl, rfl, by decide +kernel, ?_⟩
  exact (ledger_correct _ (by decide +kernel)).2.1

end StateSpace.Registry
