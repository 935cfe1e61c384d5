import Worksheet.Cell.Adoption
import Worksheet.Formula.Evaluation
import Worksheet.Proofs.Except

/-!
# The names of a formula

A formula depends on the rest of a sheet through its names alone: two lookups that
agree on them give the same run, the names asked for included
(`Formula.evaluation_congr`).

Reading a formula under the rules of a sheet lets only stored names in
(`Formula.stores_of_readChars`), and so does everything that makes a content for a
sheet.
-/

namespace Worksheet

/-! ## What evaluation depends on -/

namespace Evaluation

/-- Two lookups that agree on the name in a token treat the token alike. -/
theorem step_congr {first second : String → Option Float} (state : Stacks) (token : Token)
    (hagree : ∀ name, token.name? = some name → first name = second name) :
    step first state token = step second state token := by
  cases token with
  | name stored => simp only [step, ask, hagree stored rfl]
  | number _ => rfl
  | operator _ => rfl
  | opening => rfl
  | closing => rfl

theorem foldlM_step_congr {first second : String → Option Float} (tokens : List Token)
    (hagree : ∀ name ∈ tokens.filterMap Token.name?, first name = second name) (state : Stacks) :
    tokens.foldlM (step first) state = tokens.foldlM (step second) state := by
  induction tokens generalizing state with
  | nil => rfl
  | cons token tokens ih =>
      have htoken : step first state token = step second state token := by
        refine step_congr state token fun name hname => hagree name ?_
        exact List.mem_filterMap.mpr ⟨token, List.mem_cons_self .., hname⟩
      have hrest : ∀ name ∈ tokens.filterMap Token.name?, first name = second name := by
        intro name hname
        obtain ⟨other, hother, hsome⟩ := List.mem_filterMap.mp hname
        exact hagree name (List.mem_filterMap.mpr ⟨other, List.mem_cons_of_mem _ hother, hsome⟩)
      rw [List.foldlM_cons, List.foldlM_cons, htoken]
      exact bind_congr fun next => ih hrest next

end Evaluation

namespace Formula

theorem mem_names {f : Formula} {name : String} :
    name ∈ f.names ↔ Token.name name ∈ f.tokens := by
  unfold names
  rw [List.mem_eraseDups, List.mem_filterMap]
  constructor
  · rintro ⟨token, htoken, hname⟩
    cases token with
    | name stored =>
        cases hname
        exact htoken
    | number _ => cases hname
    | operator _ => cases hname
    | opening => cases hname
    | closing => cases hname
  · exact fun htoken => ⟨.name name, htoken, rfl⟩

/-- Two lookups that agree on the names of a formula give the same run. -/
theorem evaluation_congr (f : Formula) {first second : String → Option Float}
    (hagree : ∀ name ∈ f.names, first name = second name) :
    f.evaluation first = f.evaluation second := by
  have hsteps := Evaluation.foldlM_step_congr f.tokens (fun name hname =>
    hagree name (List.mem_eraseDups.mpr hname)) {}
  unfold evaluation Evaluation.ofTokens
  rw [hsteps]

theorem evaluate_congr (f : Formula) {first second : String → Option Float}
    (hagree : ∀ name ∈ f.names, first name = second name) :
    f.evaluate first = f.evaluate second := by
  unfold evaluate
  rw [f.evaluation_congr hagree]

end Formula

/-! ## Names that a sheet stores -/

/-- Whether a name is legal and in use, as the stored form of a name has to be. -/
def NameRules.Stores (rules : NameRules) (name : String) : Prop :=
  Name.isLegal name = true ∧ rules.validate name = true

theorem NameRules.stores_of_resolve {rules : NameRules} {name stored : String}
    (hresolve : rules.resolve name = some stored) : rules.Stores stored :=
  (NameRules.resolve_eq_some_iff.mp hresolve).2

/-- A lexeme that means a name means a stored one. -/
theorem Token.stores_of_ofPiece {rules : NameRules} {index : Nat} {piece : Piece}
    {stored : String} (hpiece : Token.ofPiece rules index piece = .ok (.name stored)) :
    rules.Stores stored := by
  unfold Token.ofPiece at hpiece
  split at hpiece
  · cases hpiece
  · cases hpiece
  · split at hpiece <;> cases hpiece
  · split at hpiece
    · split at hpiece <;> cases hpiece
    · cases hpiece
  · simp only at hpiece
    split at hpiece
    · cases hpiece
    · rename_i hlegal
      split at hpiece
      · cases hpiece
      · rename_i hvalid
        cases hpiece
        exact ⟨by simpa using hlegal, by simpa using hvalid⟩
  · cases hpiece
  · cases hpiece

namespace Formula

theorem tokens_of_ofTokens {tokens : List Token} {f : Formula}
    (hof : ofTokens tokens = .ok f) : f.tokens = tokens := by
  unfold ofTokens at hof
  split at hof
  · cases hof
    rfl
  · cases hof

theorem ofPieces_of_readChars {rules : NameRules} {source : List Char} {f : Formula}
    (hread : readChars rules source = .ok f) :
    Token.ofPieces rules (Piece.lexemes source) = .ok f.tokens := by
  obtain ⟨tokens, htokens, hof⟩ := bind_eq_ok_iff.mp hread
  rw [htokens, tokens_of_ofTokens hof]

/-- The names of a formula that has been read are stored names. -/
theorem stores_of_readChars {rules : NameRules} {source : List Char} {f : Formula}
    (hread : readChars rules source = .ok f) {name : String} (hname : name ∈ f.names) :
    rules.Stores name := by
  obtain ⟨piece, -, hpiece⟩ :=
    exists_of_mem_mapM (ofPieces_of_readChars hread) (mem_names.mp hname)
  exact Token.stores_of_ofPiece hpiece

end Formula

end Worksheet
