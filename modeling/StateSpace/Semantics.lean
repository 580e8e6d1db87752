/-!
# Zone semantics

A zone semantics says whether zones include the time that elapses in a location, and how they are
extrapolated. Extrapolation uses bounds of the whole network or of the current locations.
-/

namespace StateSpace

/-- Whether zones include elapsed time. -/
inductive Timing where
  | elapsed
  | nonElapsed
deriving DecidableEq, Repr

/-- The bounds that an extrapolation compares with. -/
inductive Extrapolation where
  | lowerUpper
  | lowerUpperPlus
  | maximum
  | maximumPlus
deriving DecidableEq, Repr

/-- Where the bounds of an extrapolation come from. -/
inductive Scope where
  | global
  | local
deriving DecidableEq, Repr

/-- The name of a timing. -/
def Timing.label : Timing → String
  | elapsed => "Elapsed"
  | nonElapsed => "NonElapsed"

/-- The name of an extrapolation. -/
def Extrapolation.label : Extrapolation → String
  | lowerUpper => "ExtraLU"
  | lowerUpperPlus => "ExtraLUPlus"
  | maximum => "ExtraM"
  | maximumPlus => "ExtraMPlus"

/-- The name of a scope. -/
def Scope.label : Scope → String
  | .global => "Global"
  | .local => "Local"

/-- A timing with an extrapolation, or with none. -/
structure ZoneSemantics where
  timing : Timing
  extrapolation : Option (Extrapolation × Scope)
deriving DecidableEq, Repr

namespace ZoneSemantics

/-- The extrapolations of one timing, in their fixed order. -/
def extrapolations : List (Option (Extrapolation × Scope)) :=
  [none,
   some (.lowerUpper, .global), some (.lowerUpper, .local),
   some (.lowerUpperPlus, .global), some (.lowerUpperPlus, .local),
   some (.maximum, .global), some (.maximum, .local),
   some (.maximumPlus, .global), some (.maximumPlus, .local)]

/-- All semantics in their fixed order. -/
def all : List ZoneSemantics :=
  extrapolations.map (⟨.elapsed, ·⟩) ++ extrapolations.map (⟨.nonElapsed, ·⟩)

/-- The semantics that is used unless another one is asked for. -/
def standard : ZoneSemantics := ⟨.elapsed, some (.lowerUpperPlus, .local)⟩

/-- The name of a semantics on the command line. -/
def name (s : ZoneSemantics) : String :=
  (match s.timing with
   | .elapsed => "elapsed_"
   | .nonElapsed => "non_elapsed_") ++
  match s.extrapolation with
  | none => "no_extrapolation"
  | some (x, scope) =>
    (match x with
     | .lowerUpper => "extraLU"
     | .lowerUpperPlus => "extraLUplus"
     | .maximum => "extraM"
     | .maximumPlus => "extraMplus") ++
    match scope with
    | .global => "_global"
    | .local => "_local"

/-- The semantics with a name. -/
def ofName? (text : String) : Option ZoneSemantics := all.find? (·.name = text)

/-- The diagnostic of a name that no semantics has. -/
def unknownMessage (text : String) : String := "unknown zone semantics `" ++ text ++ "'"

/-- The name of a semantics in its parts. -/
def label (s : ZoneSemantics) : String :=
  s.timing.label ++
  match s.extrapolation with
  | none => "NoExtrapolation"
  | some (x, scope) => x.label ++ scope.label

end ZoneSemantics

end StateSpace
