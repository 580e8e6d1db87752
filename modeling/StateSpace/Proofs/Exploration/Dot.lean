import StateSpace.Exploration.Dot
import StateSpace.Proofs.Text.Reader

/-!
# Drawings tell all

A drawing has everything of the exploration that it shows, whatever characters the texts of states and
edges have: a reader gets the exploration back.

1. A string ends at its first quote that is not escaped. A backslash in front of an `n` is the end of a
   text only if it is not escaped itself (`body?_escape`, `texts_escape`).
2. A line tells by what stands behind its number whether it shows a state or an edge, and lines without
   a number show neither (`edgesAndMark_cases`).
3. So a drawing is read back (`ofDot?_toDot`), and no two explorations have the same (`toDot_decodable`).
-/

namespace StateSpace

open Text

namespace DotReader

variable {style : DotStyle} {b cs rest : List Char}

/-! ## Strings -/

/-- What stands in front of the first quote that is not escaped, and what stands behind that quote. -/
def body? : List Char → Option (List Char × List Char)
  | [] => none
  | '"' :: cs => some ([], cs)
  | '\\' :: c :: cs => (body? cs).map fun (b, rest) => ('\\' :: c :: b, rest)
  | c :: cs => (body? cs).map fun (b, rest) => (c :: b, rest)

/-- The texts of a string. An escaped `n` ends a text, and any other character that is escaped stands for
itself. -/
def texts : List Char → List (List Char)
  | [] => [[]]
  | '\\' :: 'n' :: cs => [] :: texts cs
  | '\\' :: c :: cs => (texts cs).modifyHead (c :: ·)
  | c :: cs => (texts cs).modifyHead (c :: ·)

/-- Takes a string, up to the first quote that is not escaped. -/
def string : Reader (List String) := fun
  | '"' :: cs => (body? cs).map fun (b, rest) => ((texts b).map String.ofList, rest)
  | _ => none

/-- A quote or a backslash is escaped, any other character is written as it is. -/
theorem escapeChar_eq (c : Char) : Dot.escapeChar c = ['\\', c] ∧ c ≠ 'n' ∨
    Dot.escapeChar c = [c] ∧ c ≠ '\\' ∧ c ≠ '"' := by
  unfold Dot.escapeChar
  split
  · next h => exact .inl ⟨by rw [h], by rw [h]; decide⟩
  · next hbackslash =>
    split
    · next h => exact .inl ⟨by rw [h], by rw [h]; decide⟩
    · next hquote => exact .inr ⟨rfl, hbackslash, hquote⟩

theorem body?_escapeChar (c : Char) (cs : List Char) : body? (Dot.escapeChar c ++ cs) =
    (body? cs).map fun (b, rest) => (Dot.escapeChar c ++ b, rest) := by
  rcases escapeChar_eq c with ⟨hc, -⟩ | ⟨hc, hbackslash, hquote⟩
  · rw [hc]
    rfl
  · rw [hc, List.singleton_append, body?.eq_4 _ _ hquote fun _ _ h _ => hbackslash h]
    rfl

theorem texts_escapeChar (c : Char) (cs : List Char) :
    texts (Dot.escapeChar c ++ cs) = (texts cs).modifyHead (c :: ·) := by
  rcases escapeChar_eq c with ⟨hc, hn⟩ | ⟨hc, hbackslash, -⟩
  · rw [hc]
    exact texts.eq_3 _ _ hn
  · rw [hc]
    exact texts.eq_4 _ _ (fun _ h _ => hbackslash h) fun _ _ h _ => hbackslash h

theorem body?_escape (cs rest : List Char) : body? (cs.flatMap Dot.escapeChar ++ rest) =
    (body? rest).map fun (b, r) => (cs.flatMap Dot.escapeChar ++ b, r) := by
  induction cs with
  | nil => simp
  | cons c cs ih => simp [body?_escapeChar, ih, Function.comp_def]

theorem texts_escape (cs rest : List Char) :
    texts (cs.flatMap Dot.escapeChar ++ rest) = (texts rest).modifyHead (cs ++ ·) := by
  induction cs with
  | nil => exact (congrFun List.modifyHead_id (texts rest)).symm
  | cons c cs ih => simp [texts_escapeChar, ih, Function.comp_def]

/-- A text is the only one of its string. -/
theorem texts_text (cs : List Char) : texts (cs.flatMap Dot.escapeChar) = [cs] := by
  simpa [texts] using texts_escape cs []

/-- A string is read if its first quote that is not escaped is the one behind it. -/
theorem reads_string (hb : ∀ rest, body? (b ++ '"' :: rest) = some (b, rest)) :
    Reads string ('"' :: (b ++ ['"'])) ((texts b).map String.ofList) := by
  intro rest
  rw [List.cons_append, List.append_assoc]
  show (body? (b ++ '"' :: rest)).map _ = _
  rw [hb]
  rfl

theorem reads_quoted (s : String) : Reads string (Dot.quoted s).toList [s] := by
  have htext : (Dot.quoted s).toList = '"' :: (s.toList.flatMap Dot.escapeChar ++ ['"']) := by
    simp [Dot.quoted, Dot.escape]
  have hread := reads_string (b := s.toList.flatMap Dot.escapeChar) fun rest => by
    rw [body?_escape]
    simp [body?]
  rwa [texts_text, List.map_singleton, String.ofList_toList, ← htext] at hread

/-- What stands within the quotes of a state's label. -/
def labelBody (s : ExploredState) : List Char :=
  s.label.toList.flatMap Dot.escapeChar ++ '\\' :: 'n' :: s.condition.toList.flatMap Dot.escapeChar

/-- The condition of a state is kept apart from its text. -/
theorem texts_labelBody (s : ExploredState) :
    texts (labelBody s) = [s.label.toList, s.condition.toList] := by
  rw [labelBody, texts_escape, texts, texts_text, List.modifyHead_cons, List.append_nil]

theorem reads_stateLabel (h : style.showConditions = true) (s : ExploredState) :
    Reads string (Dot.stateLabel style s).toList [s.label, s.condition] := by
  have htext : (Dot.stateLabel style s).toList = '"' :: (labelBody s ++ ['"']) := by
    simp [labelBody, Dot.stateLabel, h, Dot.escape]
  have hread := reads_string (b := labelBody s) fun rest => by
    rw [labelBody, List.append_assoc, body?_escape, List.cons_append, List.cons_append, body?,
      body?_escape]
    simp [body?]
  rwa [texts_labelBody, ← htext, List.map_cons, List.map_singleton, String.ofList_toList,
    String.ofList_toList] at hread

/-! ## Lines -/

/-- Takes a string that is one text. -/
def text : Reader String := do
  let [s] ← string | failure
  return s

/-- Takes the end of a state's line, and tells whether the state has more borders. -/
def border (style : DotStyle) : Reader Bool :=
  (do literal "];\n"; return false) <|>
  (do literal (", peripheries=" ++ toString style.deadPeripheries ++ "];\n"); return true)

/-- Takes the line of a state, with its number. -/
def state (style : DotStyle) : Reader (ExploredState × Nat) := do
  let i ← number
  literal "[label="
  let [label, condition] ← string | failure
  let dead ← border style
  return (⟨label, condition, dead⟩, i)

/-- Takes the line of an edge. -/
def edge : Reader ExploredEdge := do
  let source ← number
  literal "-> "
  let target ← number
  literal "[label="
  let condition ← text
  literal "];\n"
  return ⟨source, target, condition⟩

/-- Takes the lines in front of the states, which have the name. -/
def header (style : DotStyle) : Reader String := do
  literal "digraph "
  let name ← text
  literal (" \x7b\nrankdir=" ++ style.rankdir ++ ";\nlabel=")
  let _ ← text
  literal (";\nlabelloc=\"t\";\nnode [shape=" ++ style.stateShape ++ "];\n")
  return name

/-- Takes the lines that point to the initial state, if there are such. -/
def start : Reader Unit :=
  literal "I [label=\"\", style=invis, width=0];\nI -> 0;\n" <|> return ()

/-- Tells whether states are missing. -/
def mark : Reader Bool :=
  (do literal "T [label=\"...\", shape=plaintext];\n"; return true) <|> return false

/-- Takes a drawing. -/
def exploration (style : DotStyle) : Reader Exploration := do
  let name ← header style
  start
  let states ← many (state style)
  let edges ← many edge
  let truncated ← mark
  literal "\x7d\n"
  return { name, states := (states.map Prod.fst).toArray, edges := edges.toArray, truncated }

/-- The text of some lines. -/
def written (ls : List String) : List Char := ls.flatMap fun l => l.toList ++ ['\n']

theorem reads_text (s : String) : Reads text (Dot.quoted s).toList s :=
  fun rest => reader_bind (reads_quoted s rest)

/-- The end of a state's line. -/
def borderText (style : DotStyle) (dead : Bool) : String :=
  (if dead then ", peripheries=" ++ toString style.deadPeripheries else "") ++ "];\n"

theorem reads_border (dead : Bool) : Reads (border style) (borderText style dead).toList dead := by
  cases dead with
  | false => exact ((reads_literal "];\n").map _).orElse
  | true =>
    refine .orElse_of_none (fun rest => reader_bind_none ?_) ((reads_literal _).map _)
    rw [borderText, if_pos rfl, String.append_assoc, String.toList_append, List.append_assoc]
    rfl

theorem reads_stateLine (h : style.showConditions = true) (s : ExploredState × Nat) :
    Reads (state style) ((Dot.stateLine style s).toList ++ ['\n']) s := by
  have htext : (Dot.stateLine style s).toList ++ ['\n'] = ((toString s.2).toList ++ [' ']) ++
      ("[label=".toList ++ ((Dot.stateLabel style s.1).toList ++
        ((borderText style s.1.dead).toList ++ []))) := by
    simp [Dot.stateLine, borderText]
  rw [htext]
  exact (reads_number _).bind <| (reads_literal _).bind <| (reads_stateLabel h s.1).bind <|
    (reads_border _).bind (.pure s)

theorem toList_edgeLine (e : ExploredEdge) : (Dot.edgeLine e).toList ++ ['\n'] =
    ((toString e.source).toList ++ [' ']) ++ ("-> ".toList ++ (((toString e.target).toList ++ [' ']) ++
      ("[label=".toList ++ ((Dot.quoted e.condition).toList ++ ("];\n".toList ++ []))))) := by
  simp [Dot.edgeLine]

theorem reads_edgeLine (e : ExploredEdge) : Reads edge ((Dot.edgeLine e).toList ++ ['\n']) e := by
  rw [toList_edgeLine]
  exact (reads_number _).bind <| (reads_literal _).bind <| (reads_number _).bind <|
    (reads_literal _).bind <| (reads_text _).bind <| (reads_literal _).bind (.pure e)

theorem reads_header (name : String) : Reads (header style) (written (Dot.header style name)) name := by
  have htext : written (Dot.header style name) = "digraph ".toList ++ ((Dot.quoted name).toList ++
      ((" \x7b\nrankdir=" ++ style.rankdir ++ ";\nlabel=").toList ++ ((Dot.quoted name).toList ++
        ((";\nlabelloc=\"t\";\nnode [shape=" ++ style.stateShape ++ "];\n").toList ++ [])))) := by
    simp [written, Dot.header]
  rw [htext]
  exact (reads_literal _).bind <| (reads_text _).bind <| (reads_literal _).bind <|
    (reads_text _).bind <| (reads_literal _).bind (.pure name)

/-! ## Drawings -/

/-- What stands behind the edges. -/
def markAndEnd (x : Exploration) : List Char := written (Dot.truncationMark x) ++ "\x7d\n".toList

/-- What stands behind the states. -/
def edgesAndMark (x : Exploration) : List Char :=
  x.edges.toList.flatMap (fun e => (Dot.edgeLine e).toList ++ ['\n']) ++ markAndEnd x

/-- The states, and what stands behind them. -/
def statesOnward (style : DotStyle) (x : Exploration) : List Char :=
  x.states.toList.zipIdx.flatMap (fun s => (Dot.stateLine style s).toList ++ ['\n']) ++ edgesAndMark x

theorem toList_toDot (x : Exploration) (style : DotStyle) : (x.toDot style).toList =
    written (Dot.header style x.name) ++ (written (Dot.start x) ++ statesOnward style x) := by
  simp [Exploration.toDot, Dot.lines, String.toList_join, List.flatMap_map, written, statesOnward,
    edgesAndMark, markAndEnd]

theorem markAndEnd_cases (x : Exploration) :
    ∃ c w, markAndEnd x = c :: w ∧ (c = 'T' ∨ c = '\x7d') := by
  unfold markAndEnd Dot.truncationMark
  split
  · exact ⟨_, _, rfl, .inl rfl⟩
  · exact ⟨_, _, rfl, .inr rfl⟩

/-- Behind the states there is the number of an edge with an arrow, or a line without a number. -/
theorem edgesAndMark_cases (x : Exploration) :
    (∃ n w, edgesAndMark x = ((toString (n : Nat)).toList ++ [' ']) ++ '-' :: w) ∨
      ∃ c w, edgesAndMark x = c :: w ∧ (c = 'T' ∨ c = '\x7d') := by
  unfold edgesAndMark
  cases x.edges.toList with
  | nil => exact .inr (markAndEnd_cases x)
  | cons e es =>
    rw [List.flatMap_cons, toList_edgeLine, List.append_assoc, List.append_assoc]
    exact .inl ⟨e.source, _, rfl⟩

theorem number_eq_none_of_mark {c : Char} (hc : c = 'T' ∨ c = '\x7d') (cs : List Char) :
    number (c :: cs) = none := by
  rcases hc with rfl | rfl <;> exact number_eq_none rfl

/-- The line of an edge is not taken for that of a state. -/
theorem state_edgesAndMark (x : Exploration) : state style (edgesAndMark x) = none := by
  rcases edgesAndMark_cases x with ⟨n, w, hw⟩ | ⟨c, w, hw, hc⟩
  · rw [hw]
    unfold state
    rw [reader_bind (reads_number n _)]
    exact reader_bind_none rfl
  · rw [hw]
    exact reader_bind_none (number_eq_none_of_mark hc w)

/-- Nothing behind the states is taken for the lines that point to the initial one. -/
theorem start_edgesAndMark (x : Exploration) : start (edgesAndMark x) = some ((), edgesAndMark x) := by
  have hnone : literal "I [label=\"\", style=invis, width=0];\nI -> 0;\n" (edgesAndMark x) = none := by
    rcases edgesAndMark_cases x with ⟨n, w, hw⟩ | ⟨c, w, hw, rfl | rfl⟩
    · obtain ⟨d, ds, hds, hd⟩ := toList_toString_cons n
      rw [hw, hds]
      refine literal_eq_none rfl ?_
      rintro rfl
      cases hd
    · rw [hw]
      rfl
    · rw [hw]
      rfl
  show (literal _ (edgesAndMark x) <|> _) = _
  rw [hnone]
  rfl

theorem start_append (x : Exploration) : start (written (Dot.start x) ++ statesOnward style x) =
    some ((), statesOnward style x) := by
  unfold Dot.start
  split
  · next h =>
    have hnil : x.states.toList = [] := by simpa using h
    unfold statesOnward
    rw [hnil]
    exact start_edgesAndMark x
  · exact (reads_literal _).orElse _

/-- The mark is not taken for the line of an edge. -/
theorem edge_markAndEnd (x : Exploration) : edge (markAndEnd x) = none := by
  obtain ⟨c, w, hw, hc⟩ := markAndEnd_cases x
  rw [hw]
  exact reader_bind_none (number_eq_none_of_mark hc w)

theorem mark_markAndEnd (x : Exploration) :
    mark (markAndEnd x) = some (x.truncated, "\x7d\n".toList) := by
  unfold markAndEnd Dot.truncationMark
  cases x.truncated <;> rfl

theorem exploration_toDot (h : style.showConditions = true) (x : Exploration) :
    exploration style (x.toDot style).toList = some (x, []) := by
  have hstates : many (state style) (statesOnward style x) =
      some (x.states.toList.zipIdx, edgesAndMark x) :=
    many_append (fun s _ => reads_stateLine h s) (fun _ _ => by simp) (state_edgesAndMark x)
  have hedges : many edge (edgesAndMark x) = some (x.edges.toList, markAndEnd x) :=
    many_append (fun e _ => reads_edgeLine e) (fun _ _ => by simp) (edge_markAndEnd x)
  rw [toList_toDot]
  unfold exploration
  rw [reader_bind (reads_header x.name _), reader_bind (start_append x), reader_bind hstates,
    reader_bind hedges, reader_bind (mark_markAndEnd x), reader_bind (reads_literal "\x7d\n").self,
    List.zipIdx_map_fst]
  rfl

end DotReader

namespace Exploration

/-- The exploration that a drawing shows, if it is one of this style. -/
def ofDot? (s : String) (style : DotStyle := {}) : Option Exploration :=
  match DotReader.exploration style s.toList with
  | some (x, []) => some x
  | _ => none

/-- Whatever the style, a drawing tells all if it shows conditions. -/
theorem ofDot?_toDot {style : DotStyle} (h : style.showConditions = true) (x : Exploration) :
    ofDot? (x.toDot style) style = some x := by
  unfold ofDot?
  rw [DotReader.exploration_toDot h]

/-- A drawing is read back, so it determines the exploration, with its name, its states and edges in
order and its mark. A string in it is one text, or the text and the condition of a state, whatever stands
behind it. -/
theorem toDot_decodable :
    (∀ x : Exploration, ofDot? x.toDot = some x) ∧
    (∀ x y : Exploration, x.toDot = y.toDot ↔ x = y) ∧
    (∀ (s : String) (rest : List Char),
      DotReader.string ((Dot.quoted s).toList ++ rest) = some ([s], rest)) ∧
    ∀ (s : ExploredState) (rest : List Char),
      DotReader.string ((Dot.stateLabel {} s).toList ++ rest) = some ([s.label, s.condition], rest) := by
  have hread : ∀ x : Exploration, ofDot? x.toDot = some x := ofDot?_toDot rfl
  refine ⟨hread, fun x y => ⟨fun h => ?_, congrArg (toDot ·)⟩, DotReader.reads_quoted,
    DotReader.reads_stateLabel rfl⟩
  have hxy := hread x
  rw [h, hread y] at hxy
  exact (Option.some.inj hxy).symm

/-- A backslash that ends a text is not taken for the one in front of the condition. -/
example : DotReader.string "\"a\\\\\\nn\\\"\", peripheries=2];".toList =
    some (["a\\", "n\""], ", peripheries=2];".toList) := by decide +kernel

end Exploration

end StateSpace
