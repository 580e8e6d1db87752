import StateSpace.Proofs.Dictionary.History

/-!
# Histories without some parties

A party is absent from a registry if no variable has it. It stays absent as long as it registers nothing,
and it is absent once it has given everything up. A ledger that leaves the registrations of some parties
out has the same live holdings as before, apart from those of these parties. So when all of them are
absent, the registry is as if they had never registered anything.
-/

namespace StateSpace.Registry

variable {r : Registry} {o o' : Owner} {name : String} {v : UInt32} {c : Call} {cs : List Call}

/-! ## Absent parties -/

/-- No variable has the party. -/
def Absent (r : Registry) (o : Owner) : Prop :=
  ∀ (v : UInt32) (e : Registration), r.vars[v]? = some e → o ∉ e.owners

theorem absent_iff : r.Absent o ↔ ∀ name v, ¬r.Holds o name v := by
  constructor
  · rintro h name v ⟨e, he, -, ho⟩
    exact h v e he ho
  · exact fun h v e he ho => h e.name v ⟨e, he, rfl, ho⟩

/-- The call registers a name for one of the parties. -/
def Call.RegistersFor (P : Owner → Prop) : Call → Prop
  | register _ o => P o
  | _ => False

instance (P : Owner → Prop) [DecidablePred P] : DecidablePred (Call.RegistersFor P) := fun c =>
  match c with
  | .newOwner => instDecidableFalse
  | .register _ o => inferInstanceAs (Decidable (P o))
  | .unregister _ _ => instDecidableFalse
  | .unregisterAll _ => instDecidableFalse

theorem Call.RegistersFor.mono {P Q : Owner → Prop} (h : c.RegistersFor P) (hPQ : ∀ o, P o → Q o) :
    c.RegistersFor Q := by
  cases c with
  | register name o => exact hPQ o h
  | newOwner => exact h
  | unregister v o => exact h
  | unregisterAll o => exact h

/-- A call adds no holder but the party of a registration. -/
theorem holds_of_step (hc : ¬c.RegistersFor (· = o)) (h : (c.step r).2.Holds o name v) :
    r.Holds o name v := by
  cases c with
  | newOwner => exact h
  | register name' o' => exact (holds_register_of_ne (Ne.symm hc)).1 h
  | unregister v' o' => exact (holds_unregister.1 h).1
  | unregisterAll o' => exact (holds_unregisterAll.1 h).1

theorem Absent.step (h : r.Absent o) (hc : ¬c.RegistersFor (· = o)) : (c.step r).2.Absent o :=
  absent_iff.2 fun name v hheld => absent_iff.1 h name v (holds_of_step hc hheld)

/-- Who registers nothing stays absent. -/
theorem Absent.replay (h : r.Absent o) (hcs : ∀ c ∈ cs, ¬c.RegistersFor (· = o)) :
    (r.replay cs).Absent o := by
  induction cs generalizing r with
  | nil => exact h
  | cons c cs ih =>
    exact ih (h.step (hcs c List.mem_cons_self)) fun c' hc' => hcs c' (List.mem_cons_of_mem _ hc')

/-- Who gives everything up is absent. -/
theorem absent_unregisterAll (r : Registry) (o : Owner) : (r.unregisterAll o).2.Absent o :=
  absent_iff.2 fun _ _ h => (holds_unregisterAll.1 h).2 rfl

/-- Both parties give everything up. -/
theorem absent_both (r : Registry) (o o' : Owner) :
    (r.replay [.unregisterAll o, .unregisterAll o']).Absent o ∧
      (r.replay [.unregisterAll o, .unregisterAll o']).Absent o' :=
  ⟨(r.absent_unregisterAll o).step (c := .unregisterAll o') id,
    (r.unregisterAll o).2.absent_unregisterAll o'⟩

/-- Others hold what they held, under the same variables. -/
theorem holds_both {o₁ o₂ : Owner} (h₁ : o ≠ o₁) (h₂ : o ≠ o₂) :
    (r.replay [.unregisterAll o₁, .unregisterAll o₂]).Holds o name v ↔ r.Holds o name v :=
  calc (r.replay [.unregisterAll o₁, .unregisterAll o₂]).Holds o name v
      ↔ (r.unregisterAll o₁).2.Holds o name v ∧ o ≠ o₂ := holds_unregisterAll
    _ ↔ (r.unregisterAll o₁).2.Holds o name v := and_iff_left h₂
    _ ↔ r.Holds o name v ∧ o ≠ o₁ := holds_unregisterAll
    _ ↔ r.Holds o name v := and_iff_left h₁

/-- The holdings of all other parties are the same, and the names that they hold have the same
variables. -/
structure Spared (P : Owner → Prop) (r r' : Registry) : Prop where
  holds : ∀ o name v, ¬P o → (r'.Holds o name v ↔ r.Holds o name v)
  varOf : ∀ o name v, ¬P o → r.Holds o name v → r.varOf name = some v ∧ r'.varOf name = some v

/-- Who gives everything up takes nothing from others. -/
theorem Valid.spared_both (hr : r.Valid) (o₁ o₂ : Owner) :
    Spared (fun o => o = o₁ ∨ o = o₂) r (r.replay [.unregisterAll o₁, .unregisterAll o₂]) := by
  have hholds : ∀ o name v, ¬(o = o₁ ∨ o = o₂) →
      ((r.replay [.unregisterAll o₁, .unregisterAll o₂]).Holds o name v ↔ r.Holds o name v) :=
    fun o name v ho => holds_both (fun h => ho (.inl h)) fun h => ho (.inr h)
  have hr' : (r.replay [.unregisterAll o₁, .unregisterAll o₂]).Valid :=
    (unregisterAll_spec (unregisterAll_spec hr o₁).valid o₂).valid
  exact ⟨hholds, fun o name v ho h => ⟨h.varOf hr, ((hholds o name v ho).2 h).varOf hr'⟩⟩

/-! ## Issued parties -/

theorem lastOwner_le_step (r : Registry) (c : Call) : r.lastOwner ≤ (c.step r).2.lastOwner := by
  cases c with
  | newOwner => exact Nat.le_succ _
  | register name o => exact (lastOwner_register r name o).ge
  | unregister v o => exact (lastOwner_unregister r v o).ge
  | unregisterAll o => exact (lastOwner_unregisterEach r _ o).ge

theorem lastOwner_le_replay (r : Registry) (cs : List Call) :
    r.lastOwner ≤ (r.replay cs).lastOwner := by
  induction cs generalizing r with
  | nil => exact Nat.le_refl _
  | cons c cs ih => exact Nat.le_trans (lastOwner_le_step r c) (ih _)

/-! ## Ledgers that leave registrations out -/

/-- The log without the registrations of some parties. -/
def without (P : Owner → Prop) [DecidablePred P] (log : List (Call × Answer)) :
    List (Call × Answer) := log.filter fun x => ¬x.1.RegistersFor P

variable {P : Owner → Prop} [DecidablePred P]

/-- What is noted of a call is the same for all other parties. -/
theorem Ledger.live_note_filter {l l' : Ledger} (h : l'.live = l.live.filter fun x => ¬P x.owner)
    (x : Call × Answer) (hx : ¬x.1.RegistersFor P) :
    (l'.note x).live = (l.note x).live.filter fun y => ¬P y.owner := by
  obtain ⟨c, a⟩ := x
  cases c with
  | newOwner => exact h
  | register name o =>
    cases a with
    | var v =>
      show insert _ l'.live = (insert _ l.live).filter _
      rw [Finset.filter_insert, if_pos (show ¬P o from hx), h]
    | done => exact h
    | owner _ => exact h
    | count _ => exact h
  | unregister v o =>
    show l'.live.filter _ = (l.live.filter _).filter _
    rw [h, Finset.filter_comm]
  | unregisterAll o =>
    show l'.live.filter _ = (l.live.filter _).filter _
    rw [h, Finset.filter_comm]

/-- A registration that is left out adds no holding of another party. -/
theorem Ledger.live_note_registration {l : Ledger} (x : Call × Answer) (hx : x.1.RegistersFor P) :
    (l.note x).live.filter (fun y => ¬P y.owner) = l.live.filter fun y => ¬P y.owner := by
  obtain ⟨c, a⟩ := x
  cases c with
  | register name o =>
    cases a with
    | var v =>
      show (insert _ l.live).filter _ = _
      rw [Finset.filter_insert, if_neg (not_not_intro (show P o from hx))]
    | done => rfl
    | owner _ => rfl
    | count _ => rfl
  | newOwner => exact hx.elim
  | unregister v o => exact hx.elim
  | unregisterAll o => exact hx.elim

/-- Without some registrations, only the holdings of these parties are missing. -/
theorem live_without (log : List (Call × Answer)) {l l' : Ledger}
    (h : l'.live = l.live.filter fun x => ¬P x.owner) :
    ((without P log).foldl Ledger.note l').live =
      (log.foldl Ledger.note l).live.filter fun x => ¬P x.owner := by
  induction log generalizing l l' with
  | nil => exact h
  | cons x log ih =>
    unfold without
    by_cases hx : x.1.RegistersFor P
    · rw [List.filter_cons_of_neg (by simpa using hx)]
      exact ih (h.trans (Ledger.live_note_registration x hx).symm)
    · rw [List.filter_cons_of_pos (by simpa using hx)]
      exact ih (Ledger.live_note_filter h x hx)

/-- No variable has one of the parties, and the live holdings are those of the log without their
registrations. -/
structure Vanished (P : Owner → Prop) [DecidablePred P] (cs : List Call) : Prop where
  absent : ∀ o, P o → (after cs).Absent o
  holds : ∀ o name v, (after cs).Holds o name v ↔
    (⟨o, name, v⟩ : Holding) ∈ ((without P (log cs)).foldl Ledger.note {}).live

/-- When some parties are absent, the registry is as if they had registered nothing. -/
theorem vanished (hroom : (ledger cs).issued < 2 ^ 32 - 1) (h : ∀ o, P o → (after cs).Absent o) :
    Vanished P cs := by
  refine ⟨h, fun o name v => ?_⟩
  have hlive : ((without P (log cs)).foldl Ledger.note {}).live =
      (ledger cs).live.filter fun x => ¬P x.owner := live_without (log cs) rfl
  rw [hlive, Finset.mem_filter, ← (tracks hroom).holds]
  exact ⟨fun hheld => ⟨hheld, fun ho => absent_iff.1 (h o ho) name v hheld⟩, And.left⟩

end StateSpace.Registry
