import Worksheet.Proofs.Json.Quoted
import Worksheet.Snapshot

/-!
# The text of a snapshot

A snapshot is read back from its text, whatever its version, its names and its literals are
(`Snapshot.read?_text_eq_some`).  The text writes the JSON value `Snapshot.value`, and that
value holds the snapshot (`Snapshot.ofValue?_value`).

## Strategy

The text is laid out line by line, and each line is cut into its tokens wherever it
stands (`Token.Writes`).  The tokens are then taken in one by one.  A cell leaves the stack
of open containers as it was, with one field more in the object of the cells, and so the
induction is on the cells that are still to come.
-/

namespace Worksheet

namespace Snapshot

open Json (Value quote)
open Json.Token (Writes writes_blanks writes_char writes_field writes_quote)

/-! ## The tokens of the text -/

/-- The tokens of a cell. -/
def cellTokens (cell : String × String) : List Json.Token :=
  [.quoted cell.1, .colon, .openObject, .quoted "contents", .colon, .quoted cell.2, .closeObject]

/-- The tokens of the object of the cells. -/
def cellsTokens : List (String × String) → List Json.Token
  | [] => [.openObject, .closeObject]
  | first :: rest =>
      .openObject :: (cellTokens first ++ (rest.flatMap fun cell => .comma :: cellTokens cell) ++
        [.closeObject])

/-- The tokens of a snapshot. -/
def tokens (snapshot : Snapshot) : List Json.Token :=
  [.openObject, .quoted "version", .colon, .quoted snapshot.version, .comma, .quoted "cells",
    .colon] ++ cellsTokens snapshot.toList ++ [.closeObject]

theorem writes_text (text : String) : Writes (quote text.toList) [.quoted text] := by
  have hwrites := writes_quote text.toList
  rwa [String.ofList_toList] at hwrites

/-- What stands before the literal of a cell. -/
theorem writes_opening :
    Writes (": \x7b\n      \"contents\": ".toList)
      [.colon, .openObject, .quoted "contents", .colon] :=
  (writes_char (c := ':') rfl).append <| (writes_blanks [' '] rfl).append <|
    (writes_char (c := '{') rfl).append <|
      (writes_blanks "\n      ".toList rfl).append (writes_field "contents".toList)

theorem writes_cellChars (cell : String × String) : Writes (cellChars cell) (cellTokens cell) := by
  have hclosing : Writes "\n    \x7d".toList [.closeObject] :=
    (writes_blanks "\n    ".toList rfl).append (writes_char (c := '}') rfl)
  have hname := (writes_blanks "    ".toList rfl).append (writes_text cell.1)
  exact ((hname.append writes_opening).append (writes_text cell.2)).append hclosing

theorem writes_more_cells (cells : List (String × String)) :
    Writes (cells.flatMap fun cell => ',' :: '\n' :: cellChars cell)
      (cells.flatMap fun cell => .comma :: cellTokens cell) := by
  induction cells with
  | nil => exact Json.Token.writes_nil
  | cons cell cells ih =>
      have hcomma : Writes [',', '\n'] [.comma] :=
        (writes_char (c := ',') rfl).append (writes_blanks ['\n'] rfl)
      exact (hcomma.append (writes_cellChars cell)).append ih

theorem writes_cellsChars (cells : List (String × String)) :
    Writes (cellsChars cells) (cellsTokens cells) := by
  cases cells with
  | nil => exact (writes_char (c := '{') rfl).append (writes_char (c := '}') rfl)
  | cons first rest =>
      have hopening : Writes ['{', '\n'] [.openObject] :=
        (writes_char (c := '{') rfl).append (writes_blanks ['\n'] rfl)
      have hclosing : Writes "\n  \x7d".toList [.closeObject] :=
        (writes_blanks "\n  ".toList rfl).append (writes_char (c := '}') rfl)
      exact ((hopening.append (writes_cellChars first)).append (writes_more_cells rest)).append
        hclosing

theorem writes_chars (snapshot : Snapshot) : Writes snapshot.chars snapshot.tokens := by
  have hversion : Writes "\x7b\n  \"version\": ".toList [.openObject, .quoted "version", .colon] :=
    (writes_char (c := '{') rfl).append <|
      (writes_blanks "\n  ".toList rfl).append (writes_field "version".toList)
  have hcells : Writes ",\n  \"cells\": ".toList [.comma, .quoted "cells", .colon] :=
    (writes_char (c := ',') rfl).append <|
      (writes_blanks "\n  ".toList rfl).append (writes_field "cells".toList)
  have hclosing : Writes "\n\x7d\n".toList [.closeObject] :=
    (writes_blanks ['\n'] rfl).append <|
      (writes_char (c := '}') rfl).append (writes_blanks ['\n'] rfl)
  exact (((hversion.append (writes_text snapshot.version)).append hcells).append
    (writes_cellsChars snapshot.toList)).append hclosing

/-! ## The value of the tokens -/

/-- The field of a cell in the object of the cells. -/
def cellField (cell : String × String) : Option String × Value :=
  (some cell.1, .object [(some "contents", .text (some cell.2))])

/-- The value that a snapshot is written as. -/
def value (snapshot : Snapshot) : Value :=
  .object [(some "version", .text (some snapshot.version)),
    (some "cells", .object (snapshot.toList.map cellField))]

open Json.Value (step Layer)

/-- A cell adds its field to the object of the cells, whether it is the first or not. -/
theorem foldlM_step_cellTokens (cell : String × String) (fields : List (Option String × Value))
    (layers : List Layer) {expected : Value.Expected}
    (hexpected : expected = .name ∨ expected = .nameOrEnd) :
    (cellTokens cell).foldlM step (.within (.object fields :: layers) expected) =
      some (.within (.object (cellField cell :: fields) :: layers) .commaOrEnd) := by
  rcases hexpected with rfl | rfl <;> rfl

theorem foldlM_step_more_cells (cells : List (String × String))
    (fields : List (Option String × Value)) (layers : List Layer) :
    (cells.flatMap fun cell => .comma :: cellTokens cell).foldlM step
        (.within (.object fields :: layers) .commaOrEnd) =
      some (.within (.object ((cells.map cellField).reverse ++ fields) :: layers) .commaOrEnd) := by
  induction cells generalizing fields with
  | nil => rfl
  | cons cell cells ih =>
      have hcell := foldlM_step_cellTokens cell fields layers (Or.inl rfl)
      rw [List.flatMap_cons, List.foldlM_append, List.foldlM_cons]
      change ((cellTokens cell).foldlM step (.within (.object fields :: layers) .name) >>= _) = _
      rw [hcell]
      change List.foldlM step _ _ = _
      rw [ih, List.map_cons, List.reverse_cons, List.append_assoc, List.singleton_append]

theorem foldlM_step_cellsTokens (cells : List (String × String)) (layers : List Layer)
    (fields : List (Option String × Value)) (name : Option String) :
    (cellsTokens cells).foldlM step (.within (.field fields name :: layers) .value) =
      some (.within (.object ((name, .object (cells.map cellField)) :: fields) :: layers)
        .commaOrEnd) := by
  cases cells with
  | nil => rfl
  | cons first rest =>
      have hfirst := foldlM_step_cellTokens first [] (.field fields name :: layers) (Or.inr rfl)
      have hrest := foldlM_step_more_cells rest [cellField first] (.field fields name :: layers)
      rw [cellsTokens, List.foldlM_cons]
      change List.foldlM step (.within (.object [] :: .field fields name :: layers) .nameOrEnd) _ =
        _
      rw [List.foldlM_append, List.foldlM_append, hfirst]
      change (List.foldlM step _ _ >>= _) = _
      rw [hrest]
      simp [step, Value.close, Value.place]

theorem ofTokens?_tokens (snapshot : Snapshot) :
    Value.ofTokens? snapshot.tokens = some snapshot.value := by
  have hcells := foldlM_step_cellsTokens snapshot.toList []
    [(some "version", .text (some snapshot.version))] (some "cells")
  have hfold : snapshot.tokens.foldlM step (.within [] .value) =
      some (.complete snapshot.value) := by
    rw [tokens, List.foldlM_append, List.foldlM_append]
    change (List.foldlM step _ _ >>= _) = _
    rw [hcells]
    rfl
  rw [Value.ofTokens?, hfold]

/-! ## The snapshot in the value -/

theorem foldl_insert_toList (cells : Std.ExtTreeMap String String) :
    cells.toList.foldl (fun cells cell => cells.insert cell.1 cell.2) ∅ = cells := by
  have hlist : Std.ExtTreeMap.ofList cells.toList = cells := by
    apply Std.ExtTreeMap.ext_getElem?
    intro name
    cases hliteral : cells[name]? with
    | some literal =>
        have hmem := Std.ExtTreeMap.mem_toList_iff_getElem?_eq_some.mpr hliteral
        exact Std.ExtTreeMap.getElem?_ofList_of_mem Std.ReflCmp.compare_self
          Std.ExtTreeMap.distinct_keys_toList hmem
    | none =>
        refine Std.ExtTreeMap.getElem?_ofList_of_contains_eq_false ?_
        rw [Std.ExtTreeMap.map_fst_toList_eq_keys, ← Bool.not_eq_true, List.contains_iff_mem,
          Std.ExtTreeMap.mem_keys, Std.ExtTreeMap.mem_iff_isSome_getElem?, hliteral]
        decide
  rwa [Std.ExtTreeMap.ofList_eq_foldl] at hlist

theorem cellsOf?_map_cellField (cells : List (String × String)) :
    cellsOf? (.object (cells.map cellField)) =
      some (cells.foldl (fun cells cell => cells.insert cell.1 cell.2) ∅) := by
  rw [cellsOf?, List.foldlM_map]
  generalize (∅ : Std.ExtTreeMap String String) = before
  induction cells generalizing before with
  | nil => rfl
  | cons cell cells ih => exact ih (before.insert cell.1 cell.2)

/-- The value that a snapshot is written as holds that snapshot. -/
theorem ofValue?_value (snapshot : Snapshot) : ofValue? snapshot.value = some snapshot := by
  have hcells := cellsOf?_map_cellField snapshot.toList
  rw [toList, foldl_insert_toList] at hcells
  simp [ofValue?, value, Value.areNamed, Value.fieldsNamed, Value.text?, toList, hcells]

/-! ## The snapshot in the text -/

/-- How the tokens of a snapshot are laid out means nothing to the reader. -/
theorem read?_value_of_writes {snapshot : Snapshot} {source : String}
    (hwrites : Writes source.toList snapshot.tokens) :
    Value.read? source.toList = some snapshot.value := by
  rw [Value.read?, Json.Token.scan?_of_writes hwrites]
  exact snapshot.ofTokens?_tokens

theorem read?_of_writes {snapshot : Snapshot} {source : String}
    (hwrites : Writes source.toList snapshot.tokens) : read? source = some snapshot := by
  rw [read?, read?_value_of_writes hwrites]
  exact snapshot.ofValue?_value

theorem writes_toList_text (snapshot : Snapshot) :
    Writes snapshot.text.toList snapshot.tokens := by
  rw [text, String.toList_ofList]
  exact snapshot.writes_chars

/-- Every snapshot is read back from its text. -/
theorem read?_text_eq_some (snapshot : Snapshot) : read? snapshot.text = some snapshot :=
  read?_of_writes snapshot.writes_toList_text

end Snapshot

end Worksheet
