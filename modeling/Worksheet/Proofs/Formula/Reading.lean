import Mathlib.Data.List.Forall2
import Worksheet.Proofs.Except
import Worksheet.Proofs.Formula.Categories
import Worksheet.Proofs.Formula.Derivation
import Worksheet.Proofs.Formula.Names

/-!
# Which sources are formulas

A source is a formula if and only if each of its lexemes means something and the tokens
that they mean are derived by the rules of the language (`Formula.exists_read_iff`).

What a lexeme means is said by `Token.Means`, category by category and without any order
of faults.  Which text a lexeme of a category can have is what `Category.match?` took it
for (`Piece.exists_match?_of_mem_lexemes`), so an operator is always one of the four
symbols and needs no condition.
-/

namespace Worksheet

/-! ## What the text of a lexeme is -/

namespace Piece

/-- A piece of some category is what the category matches at its place. -/
theorem exists_match?_of_mem_scan {source : List Char} {piece : Piece} {category : Category}
    (hpiece : piece ∈ scan source) (hcategory : piece.category = some category) :
    ∃ text length, Category.match? text = some (category, length) ∧
      piece.text = text.take length := by
  fun_induction scan source with
  | case1 => cases hpiece
  | case2 c rest ih =>
      rcases List.mem_cons.mp hpiece with rfl | hpiece
      · unfold first at hcategory ⊢
        cases hmatch : Category.match? (c :: rest) with
        | none =>
            rw [hmatch] at hcategory
            cases hcategory
        | some found =>
            rw [hmatch] at hcategory
            cases hcategory
            exact ⟨c :: rest, found.2, hmatch, rfl⟩
      · exact ih hpiece

theorem exists_match?_of_mem_lexemes {source : List Char} {piece : Piece} {category : Category}
    (hpiece : piece ∈ lexemes source) (hcategory : piece.category = some category) :
    ∃ text length, Category.match? text = some (category, length) ∧
      piece.text = text.take length :=
  exists_match?_of_mem_scan (List.mem_of_mem_filter hpiece) hcategory

theorem not_blank_of_mem_lexemes {source : List Char} {piece : Piece}
    (hpiece : piece ∈ lexemes source) : piece.category ≠ some .blank := by
  simpa using (List.mem_filter.mp hpiece).2

/-- The lexemes that are operators are the four symbols. -/
theorem exists_symbol_of_mem_lexemes {source : List Char} {piece : Piece}
    (hpiece : piece ∈ lexemes source) (hcategory : piece.category = some .operator) :
    ∃ op : Operator, piece.text = [op.symbol] := by
  obtain ⟨text, length, hmatch, htext⟩ := exists_match?_of_mem_lexemes hpiece hcategory
  obtain ⟨hlength, hpos⟩ := Category.match?_eq_some_iff.mp hmatch
  subst hlength
  obtain ⟨hone, c, rest, rfl, hc⟩ := Category.singleLength_eq hpos
  obtain ⟨op, rfl⟩ := Category.exists_symbol_of_isOperator hc
  refine ⟨op, ?_⟩
  rw [htext, Category.matchLength, hone]
  rfl

/-- Whether a lexeme means anything.  A number has to be finite and a name has to be
legal and in use in its stored form. -/
def IsMeaningful (rules : NameRules) (piece : Piece) : Prop :=
  match piece.category with
  | none => False
  | some .number =>
      ∃ value, Number.readChars? piece.text = some value ∧ Number.isFinite value = true
  | some .name => rules.Stores (rules.normalize (String.ofList piece.text))
  | some _ => True

end Piece

/-! ## What a lexeme means -/

/-- The token that a lexeme means. -/
inductive Token.Means (rules : NameRules) : Piece → Token → Prop where
  | opening (text : List Char) : Means rules ⟨some .opening, text⟩ .opening
  | closing (text : List Char) : Means rules ⟨some .closing, text⟩ .closing
  | operator (op : Operator) : Means rules ⟨some .operator, [op.symbol]⟩ (.operator op)
  | number {text : List Char} {value : Float} (reads : Number.readChars? text = some value)
      (finite : Number.isFinite value = true) : Means rules ⟨some .number, text⟩ (.number value)
  | name {text : List Char} (stores : rules.Stores (rules.normalize (String.ofList text))) :
      Means rules ⟨some .name, text⟩ (.name (rules.normalize (String.ofList text)))

namespace Token

variable {rules : NameRules} {piece : Piece} {token : Token}

theorem ofPiece_of_means (hmeans : Means rules piece token) (index : Nat) :
    ofPiece rules index piece = .ok token := by
  cases hmeans with
  | opening text => rfl
  | closing text => rfl
  | operator op => simp [ofPiece, Operator.ofSymbol?_symbol]
  | number hreads hfinite => simp [ofPiece, hreads, hfinite]
  | name hstores => simp [ofPiece, hstores.1, hstores.2]

/-- A lexeme means one token at most. -/
theorem Means.unique {other : Token} (hmeans : Means rules piece token)
    (hother : Means rules piece other) : token = other :=
  Except.ok.inj ((ofPiece_of_means hmeans 0).symm.trans (ofPiece_of_means hother 0))

theorem means_of_ofPiece {index : Nat} (hok : ofPiece rules index piece = .ok token)
    (hoperator : piece.category = some .operator → ∃ op : Operator, piece.text = [op.symbol]) :
    Means rules piece token := by
  obtain ⟨category, text⟩ := piece
  cases category with
  | none => cases hok
  | some category =>
      cases category with
      | opening =>
          cases hok
          exact .opening text
      | closing =>
          cases hok
          exact .closing text
      | operator =>
          obtain ⟨op, rfl⟩ : ∃ op : Operator, text = [op.symbol] := hoperator rfl
          simp only [ofPiece, List.head?_cons, Option.bind_some, Operator.ofSymbol?_symbol] at hok
          cases hok
          exact .operator op
      | name =>
          have hname := hok
          simp only [ofPiece] at hname
          split at hname
          · cases hname
          · split at hname
            · cases hname
            · cases hname
              exact .name (stores_of_ofPiece hok)
      | number =>
          simp only [ofPiece] at hok
          split at hok
          · rename_i value hreads
            split at hok
            · rename_i hfinite
              cases hok
              exact .number hreads hfinite
            · cases hok
          · cases hok
      | blank => cases hok

theorem exists_means_iff (hblank : piece.category ≠ some .blank)
    (hoperator : piece.category = some .operator → ∃ op : Operator, piece.text = [op.symbol]) :
    (∃ token, Means rules piece token) ↔ piece.IsMeaningful rules := by
  obtain ⟨category, text⟩ := piece
  constructor
  · rintro ⟨token, hmeans⟩
    cases hmeans with
    | opening text => trivial
    | closing text => trivial
    | operator op => trivial
    | number hreads hfinite => exact ⟨_, hreads, hfinite⟩
    | name hstores => exact hstores
  · intro hmeaningful
    cases category with
    | none => cases hmeaningful
    | some category =>
        cases category with
        | opening => exact ⟨_, .opening text⟩
        | closing => exact ⟨_, .closing text⟩
        | operator =>
            obtain ⟨op, rfl⟩ : ∃ op : Operator, text = [op.symbol] := hoperator rfl
            exact ⟨_, .operator op⟩
        | name => exact ⟨_, .name hmeaningful⟩
        | number =>
            obtain ⟨value, hreads, hfinite⟩ := hmeaningful
            exact ⟨_, .number hreads hfinite⟩
        | blank => exact absurd rfl hblank

end Token

/-! ## Reading a whole source -/

theorem Token.ofPieces_eq_ok_iff {rules : NameRules} {pieces : List Piece} {tokens : List Token}
    (hoperator : ∀ piece ∈ pieces, piece.category = some .operator →
      ∃ op : Operator, piece.text = [op.symbol]) :
    ofPieces rules pieces = .ok tokens ↔ List.Forall₂ (Means rules) pieces tokens := by
  have hfrom : ∀ start, List.Forall₂
      (fun entry token => ofPiece rules entry.2 entry.1 = .ok token) (pieces.zipIdx start) tokens ↔
        List.Forall₂ (Means rules) pieces tokens := by
    induction pieces generalizing tokens with
    | nil => simp
    | cons piece pieces ih =>
        intro start
        have hfirst := hoperator piece (List.mem_cons_self ..)
        cases tokens with
        | nil => simp
        | cons token tokens =>
            have hothers := @ih tokens
              fun other hother => hoperator other (List.mem_cons_of_mem _ hother)
            rw [List.zipIdx_cons, List.forall₂_cons, List.forall₂_cons, hothers]
            exact and_congr_left fun _ =>
              ⟨fun hok => means_of_ofPiece hok hfirst, fun hmeans => ofPiece_of_means hmeans start⟩
  unfold ofPieces
  rw [mapM_eq_ok_iff]
  exact hfrom 0

namespace Formula

theorem ofTokens_tokens (f : Formula) : ofTokens f.tokens = .ok f := by
  unfold ofTokens
  split
  · rfl
  · rename_i hfault
    rw [f.grammatical] at hfault
    cases hfault

/-- To read a formula is to read its tokens off the lexemes. -/
theorem readChars_eq_ok_iff {rules : NameRules} {source : List Char} {f : Formula} :
    readChars rules source = .ok f ↔
      List.Forall₂ (Token.Means rules) (Piece.lexemes source) f.tokens := by
  rw [← Token.ofPieces_eq_ok_iff fun piece hpiece => Piece.exists_symbol_of_mem_lexemes hpiece]
  refine ⟨ofPieces_of_readChars, fun htokens => ?_⟩
  unfold readChars
  rw [htokens]
  exact f.ofTokens_tokens

/-- A source is a formula if and only if each lexeme means something and the rules derive
the tokens that the lexemes mean; the formula then holds these tokens.  The local looks
pass exactly what the rules derive. -/
theorem exists_read_iff (rules : NameRules) (source : String) :
    ((∃ f, read rules source = .ok f) ↔
      (∀ piece ∈ Piece.lexemes source.toList, piece.IsMeaningful rules) ∧
        ∀ tokens, List.Forall₂ (Token.Means rules) (Piece.lexemes source.toList) tokens →
          Grammar.Derives tokens) ∧
    (∀ f, read rules source = .ok f →
      List.Forall₂ (Token.Means rules) (Piece.lexemes source.toList) f.tokens) ∧
    ∀ tokens, Grammar.fault? tokens = none ↔ Grammar.Derives tokens := by
  have hmeaningful : (∃ tokens,
      List.Forall₂ (Token.Means rules) (Piece.lexemes source.toList) tokens) ↔
        ∀ piece ∈ Piece.lexemes source.toList, piece.IsMeaningful rules := by
    rw [exists_forall₂_iff]
    exact forall₂_congr fun piece hpiece => Token.exists_means_iff
      (Piece.not_blank_of_mem_lexemes hpiece) (Piece.exists_symbol_of_mem_lexemes hpiece)
  refine ⟨?_, fun f => readChars_eq_ok_iff.mp, fun tokens => Grammar.fault?_eq_none_iff_derives⟩
  rw [← hmeaningful]
  constructor
  · rintro ⟨f, hread⟩
    have hmeans := readChars_eq_ok_iff.mp hread
    refine ⟨⟨f.tokens, hmeans⟩, fun tokens htokens => ?_⟩
    have hsame : tokens = f.tokens := Relator.RightUnique.forall₂
      (fun _ _ _ hfirst hsecond => hfirst.unique hsecond) htokens hmeans
    rw [hsame]
    exact Grammar.fault?_eq_none_iff_derives.mp f.grammatical
  · rintro ⟨⟨tokens, htokens⟩, hderives⟩
    have hgrammatical := Grammar.fault?_eq_none_iff_derives.mpr (hderives tokens htokens)
    exact ⟨⟨tokens, hgrammatical⟩, readChars_eq_ok_iff.mpr htokens⟩

end Formula

end Worksheet
