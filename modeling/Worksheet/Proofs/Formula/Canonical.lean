import Worksheet.Formula.Json
import Worksheet.Name.Stock
import Worksheet.Proofs.Formula.Pieces
import Worksheet.Proofs.Formula.Reading
import Worksheet.Proofs.Json.Quoted

/-!
# Canonical text

The canonical text of a formula that has been read is a source of the same formula
(`Formula.read_text`), and so it does not change any more when it is read and written
again.  Its names are in their stored form, so it is read without rules; under the rules
of its sheet it reads back if normalizing a second time changes nothing.

## Strategy

The text is cut into the tokens it was made of (`Piece.lexemes_chars`), so what is left to
see is that the text of each token means that token.  Numbers have no sign, because no
lexeme has one, and then read back bit for bit (`Number.readChars?_chars`).
-/

namespace Worksheet

/-- Whether normalizing a name a second time changes nothing. -/
def NameRules.IsIdempotent (rules : NameRules) : Prop :=
  ∀ name, rules.normalize (rules.normalize name) = rules.normalize name

variable {rules : NameRules}

/-- A stored form is its own stored form. -/
theorem NameRules.IsIdempotent.resolve_stored (hrules : rules.IsIdempotent) {name stored : String}
    (hresolve : rules.resolve name = some stored) : rules.resolve stored = some stored := by
  rw [NameRules.resolve_eq_some_iff] at hresolve ⊢
  obtain ⟨rfl, hstored⟩ := hresolve
  exact ⟨hrules name, hstored⟩

theorem NameRules.resolve_without_rules {name : String} (hlegal : Name.isLegal name = true) :
    NameRules.resolve {} name = some name :=
  NameRules.resolve_eq_some_iff.mpr ⟨rfl, hlegal, rfl⟩

/-! ## What the text of a token means -/

theorem Piece.includes_of_mem_lexemes {source : List Char} {piece : Piece} {category : Category}
    (hpiece : piece ∈ lexemes source) (hcategory : piece.category = some category) :
    category.Includes piece.text := by
  obtain ⟨text, length, hmatch, htext⟩ := exists_match?_of_mem_lexemes hpiece hcategory
  obtain ⟨rfl, hlength⟩ := Category.match?_eq_some_iff.mp hmatch
  rw [htext]
  exact Category.includes_take hlength

/-- A number among the lexemes opens with a digit or a point, and so has no sign. -/
theorem Piece.exists_cons_of_mem_lexemes {source : List Char} {piece : Piece}
    (hpiece : piece ∈ lexemes source) (hcategory : piece.category = some .number) :
    ∃ c rest, piece.text = c :: rest ∧ Number.OpensDigits c := by
  obtain ⟨text, length, hmatch, htext⟩ := exists_match?_of_mem_lexemes hpiece hcategory
  obtain ⟨hlength, hpos⟩ := Category.match?_eq_some_iff.mp hmatch
  obtain ⟨length, rfl⟩ := Nat.exists_eq_succ_of_ne_zero hpos
  cases text with
  | nil => cases hlength
  | cons c rest =>
      have hopens := Category.opens_of_matchLength (hlength ▸ hpos)
      rw [Category.opens, Bool.or_eq_true, beq_iff_eq] at hopens
      exact ⟨c, rest.take length, htext, hopens⟩

namespace Token

variable {token : Token} {piece : Piece}

theorem Means.isPlain (hmeans : Means rules piece token)
    (hnumber : piece.category = some .number →
      ∃ c rest, piece.text = c :: rest ∧ Number.OpensDigits c) : token.IsPlain := by
  cases hmeans with
  | opening text => trivial
  | closing text => trivial
  | operator op => trivial
  | number hreads hfinite =>
      obtain ⟨c, rest, rfl, hopens⟩ := hnumber rfl
      exact ⟨hfinite, Number.isSigned_of_readChars? hopens hreads⟩
  | name hstores => exact hstores.1

theorem Means.normalize_eq (hrules : rules.IsIdempotent) {stored : String}
    (hmeans : Means rules piece (.name stored)) : rules.normalize stored = stored := by
  cases hmeans with
  | name hstores => exact hrules _

/-- The text of a token means the token, if a name in it is its own stored form. -/
theorem IsPlain.means_piece (hplain : token.IsPlain)
    (hname : ∀ stored, token = .name stored → rules.resolve stored = some stored) :
    Means rules token.piece token := by
  cases token with
  | number value => exact .number (Number.readChars?_chars hplain.1) hplain.1
  | name stored =>
      obtain ⟨hnormal, hstores⟩ := NameRules.resolve_eq_some_iff.mp (hname stored rfl)
      have hspelled : String.ofList stored.toList = stored := String.ofList_toList
      have hmeans : Means rules ⟨some .name, stored.toList⟩
          (.name (rules.normalize (String.ofList stored.toList))) :=
        .name (by rwa [hspelled, hnormal])
      rwa [hspelled, hnormal] at hmeans
  | operator op => exact .operator op
  | opening => exact .opening _
  | closing => exact .closing _

end Token

/-! ## Reading a formula back -/

namespace Formula

theorem readChars_chars {f : Formula} (hplain : ∀ token ∈ f.tokens, token.IsPlain)
    (hnames : ∀ name ∈ f.names, rules.resolve name = some name) :
    readChars rules f.chars = .ok f := by
  rw [readChars_eq_ok_iff, Piece.lexemes_chars f hplain, List.forall₂_map_left_iff,
    List.forall₂_same]
  intro token htoken
  refine (hplain token htoken).means_piece fun stored hstored => ?_
  exact hnames stored (mem_names.mpr (hstored ▸ htoken))

/-- Each token of a formula that has been read is the meaning of a lexeme. -/
theorem exists_means_of_readChars {source : List Char} {f : Formula}
    (hread : readChars rules source = .ok f) {token : Token} (htoken : token ∈ f.tokens) :
    ∃ piece ∈ Piece.lexemes source, Token.Means rules piece token := by
  obtain ⟨⟨piece, index⟩, hentry, hok⟩ :=
    exists_of_mem_mapM (ofPieces_of_readChars hread) htoken
  have hpiece := List.fst_mem_of_mem_zipIdx hentry
  exact ⟨piece, hpiece, Token.means_of_ofPiece hok (Piece.exists_symbol_of_mem_lexemes hpiece)⟩

theorem isPlain_of_readChars {source : List Char} {f : Formula}
    (hread : readChars rules source = .ok f) {token : Token} (htoken : token ∈ f.tokens) :
    token.IsPlain := by
  obtain ⟨piece, hpiece, hmeans⟩ := exists_means_of_readChars hread htoken
  exact hmeans.isPlain (Piece.exists_cons_of_mem_lexemes hpiece)

/-- The names of a formula that has been read resolve to themselves. -/
theorem resolve_of_readChars (hrules : rules.IsIdempotent) {source : List Char} {f : Formula}
    (hread : readChars rules source = .ok f) {name : String} (hname : name ∈ f.names) :
    rules.resolve name = some name := by
  obtain ⟨piece, -, hmeans⟩ := exists_means_of_readChars hread (mem_names.mp hname)
  exact NameRules.resolve_eq_some_iff.mpr
    ⟨hmeans.normalize_eq hrules, stores_of_readChars hread hname⟩

theorem readChars_chars_of_readChars (hrules : rules.IsIdempotent) {source : List Char}
    {f : Formula} (hread : readChars rules source = .ok f) : readChars rules f.chars = .ok f :=
  readChars_chars (fun _ => isPlain_of_readChars hread)
    fun _ => resolve_of_readChars hrules hread

/-- A formula that has been read is read back from its canonical text, without rules and,
where a stored form is its own stored form, under the same rules, and also from its JSON
text. -/
theorem read_text {source : String} {f : Formula} (hread : read rules source = .ok f) :
    read {} f.text = .ok f ∧ (rules.IsIdempotent → read rules f.text = .ok f) ∧
      readJson f.json = .ok f := by
  have hplain : read {} f.text = .ok f := by
    rw [read, text, String.toList_ofList]
    refine readChars_chars (fun _ => isPlain_of_readChars hread) fun name hname => ?_
    exact NameRules.resolve_without_rules (stores_of_readChars hread hname).1
  refine ⟨hplain, fun hrules => ?_, ?_⟩
  · rw [read, text, String.toList_ofList]
    exact readChars_chars_of_readChars hrules hread
  · rw [readJson, json, Json.Value.read?_quote]
    change (read {} f.text).mapError JsonFault.format = .ok f
    rw [hplain]
    rfl

/-- The blanks, the end of the long name and the zero that ends the fraction are gone at
once, and nothing more is lost. -/
theorem read_text_truncated :
    let rules := NameRules.stock (.truncate 2) .all
    ∃ f, read rules "Total + 2.50*(_b-0.1)" = .ok f ∧ f.text = "To+2.5*(_b-0.1)" ∧
      read {} f.text = .ok f ∧ read rules f.text = .ok f ∧ readJson f.json = .ok f := by
  intro rules
  have hcanonical : (read rules "Total + 2.50*(_b-0.1)").map text = .ok "To+2.5*(_b-0.1)" := by
    decide +kernel
  have hrules : rules.IsIdempotent := fun name => by
    simp [rules, NameRules.stock, Normalizer.apply, List.take_take]
  obtain ⟨f, hread, htext⟩ := map_eq_ok_iff.mp hcanonical
  obtain ⟨hwithout, hwith, hjson⟩ := read_text hread
  exact ⟨f, hread, htext, hwithout, hwith hrules, hjson⟩

end Formula

end Worksheet
