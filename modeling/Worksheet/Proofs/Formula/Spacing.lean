import Worksheet.Proofs.Formula.LongestMatch
import Worksheet.Proofs.Formula.Pieces

/-!
# White space between pieces

White space may be put in wherever a source is cut, in front of it and behind it, and even if it
is no formula.  The lexemes stay what they are, so the source is the same formula or has the same
fault at the same lexeme (`Formula.read_append_blanks`).

## Strategy

White space in front of a text adds no lexeme to it (`Piece.lexemes_append_of_blanks`).  So it
remains to see that each piece in front of the new white space is cut off as before
(`Piece.Fits.insert_blanks`).  No text of another category holds white space, so whatever matches
now has ended before the new white space and has matched all along.  In the other direction,
unknown text has to stop where it did; what it stops at is a whole piece, or the new white space.
-/

namespace Worksheet

namespace Category

/-! ## Texts without white space -/

theorem isBlank_eq_false_of_opens {category : Category} {c : Char}
    (hopens : category.opens c = true) (hcategory : category ≠ blank) :
    Text.isBlank c = false := by
  by_contra hblank
  rw [Bool.not_eq_false] at hblank
  exact hcategory (eq_of_opens hopens hblank)

theorem isBlank_eq_false_of_isDigit {c : Char} (hc : c.isDigit = true) :
    Text.isBlank c = false := by
  have hopens : number.opens c = true := Bool.or_eq_true_iff.mpr (Or.inl hc)
  exact isBlank_eq_false_of_opens hopens (by decide)

theorem isBlank_eq_false_of_isPart {c : Char} (hc : Name.isPart c = true) :
    Text.isBlank c = false := by
  have hcases : name.opens c = true ∨ c.isDigit = true := by
    simp only [Name.isPart, Char.isAlphanum, opens, Name.isStart, Bool.or_eq_true] at hc ⊢
    tauto
  rcases hcases with hstart | hdigit
  · exact isBlank_eq_false_of_opens hstart (by decide)
  · exact isBlank_eq_false_of_isDigit hdigit

theorem IsMantissa.isBlank_eq_false {mantissa : List Char} (hmantissa : IsMantissa mantissa) :
    ∀ c ∈ mantissa, Text.isBlank c = false := by
  intro c hc
  cases hmantissa with
  | whole hdigits => exact isBlank_eq_false_of_isDigit (hdigits.2 c hc)
  | @point whole fraction hdigits =>
      have hcases : c = '.' ∨ c ∈ whole ++ fraction := by
        simp only [List.mem_append, List.mem_cons] at hc ⊢
        tauto
      rcases hcases with rfl | hdigit
      · rfl
      · exact isBlank_eq_false_of_isDigit (hdigits.2 c hdigit)

theorem IsExponent.isBlank_eq_false {exponent : List Char} (hexponent : IsExponent exponent) :
    ∀ c ∈ exponent, Text.isBlank c = false := by
  have hmark {mark : Char} (hmarked : mark = 'e' ∨ mark = 'E') : Text.isBlank mark = false := by
    rcases hmarked with rfl | rfl <;> rfl
  cases hexponent with
  | unsigned hmarked hdigits =>
      exact List.forall_mem_cons.mpr
        ⟨hmark hmarked, fun c hc => isBlank_eq_false_of_isDigit (hdigits.2 c hc)⟩
  | @signed mark sign digits hmarked hsign hdigits =>
      have hblank : Text.isBlank sign = false := by
        rcases hsign with rfl | rfl <;> rfl
      exact List.forall_mem_cons.mpr ⟨hmark hmarked, List.forall_mem_cons.mpr
        ⟨hblank, fun c hc => isBlank_eq_false_of_isDigit (hdigits.2 c hc)⟩⟩

/-- Only the texts of white space hold any. -/
theorem Includes.isBlank_eq_false {category : Category} {text : List Char}
    (htext : category.Includes text) (hcategory : category ≠ .blank) :
    ∀ c ∈ text, Text.isBlank c = false := by
  cases htext with
  | opening => exact List.forall_mem_singleton.mpr rfl
  | closing => exact List.forall_mem_singleton.mpr rfl
  | operator op => cases op <;> exact List.forall_mem_singleton.mpr rfl
  | name hstart hparts =>
      exact List.forall_mem_cons.mpr
        ⟨isBlank_eq_false_of_isPart (Name.isPart_of_isStart hstart),
          fun c hc => isBlank_eq_false_of_isPart (hparts c hc)⟩
  | number hmantissa => exact hmantissa.isBlank_eq_false
  | scientific hmantissa hexponent =>
      exact List.forall_mem_append.mpr
        ⟨hmantissa.isBlank_eq_false, hexponent.isBlank_eq_false⟩
  | blank hne hall => exact absurd rfl hcategory

/-- What stands ahead reaches into white space only if it opens with some. -/
theorem Includes.isPrefix_of_append_blanks {category : Category} {c : Char}
    {found near blanks far : List Char} (hfound : category.Includes found)
    (hc : Text.isBlank c = false) (hne : blanks ≠ [])
    (hblanks : ∀ b ∈ blanks, Text.isBlank b = true)
    (hahead : found <+: (c :: near) ++ (blanks ++ far)) : found <+: c :: near := by
  have hcategory : category ≠ .blank := by
    rintro rfl
    cases hfound with
    | blank hfoundNe hall =>
        obtain ⟨first, others, rfl⟩ := List.exists_cons_of_ne_nil hfoundNe
        obtain ⟨rfl, -⟩ := List.cons_prefix_cons.mp hahead
        exact absurd (hall first (List.mem_cons_self ..)) (Bool.eq_false_iff.mp hc)
  rcases List.prefix_or_prefix_of_prefix hahead (List.prefix_append _ _) with hnear | ⟨more, rfl⟩
  · exact hnear
  · rw [List.prefix_append_right_inj] at hahead
    cases more with
    | nil => rw [List.append_nil]
    | cons b more =>
        obtain ⟨blank, blanks, rfl⟩ := List.exists_cons_of_ne_nil hne
        obtain ⟨rfl, -⟩ := List.cons_prefix_cons.mp hahead
        have hmem : b ∈ (c :: near) ++ b :: more :=
          List.mem_append_right _ (List.mem_cons_self ..)
        exact absurd (hblanks b (List.mem_cons_self ..))
          (Bool.eq_false_iff.mp (hfound.isBlank_eq_false hcategory b hmem))

theorem IsAhead.append {text : List Char} (hahead : IsAhead text) (rest : List Char) :
    IsAhead (text ++ rest) := by
  obtain ⟨category, found, hfound, hprefix⟩ := hahead
  exact ⟨category, found, hfound, hprefix.trans (List.prefix_append text rest)⟩

end Category

namespace Piece

open Category (Includes IsAhead)

/-! ## White space in front -/

/-- The lexemes of a text begin behind the white space that it opens with. -/
theorem lexemes_dropWhile_isBlank (text : List Char) :
    lexemes (text.dropWhile Text.isBlank) = lexemes text := by
  have happend := List.takeWhile_append_dropWhile (p := Text.isBlank) (l := text)
  by_cases hnil : text.takeWhile Text.isBlank = []
  · rw [hnil, List.nil_append] at happend
    rw [happend]
  · have hmatch : Category.match? text = some (.blank, (text.takeWhile Text.isBlank).length) :=
      Category.match?_eq_some_iff.mpr ⟨rfl, by simpa using hnil⟩
    have hscan : scan text =
        ⟨some .blank, text.takeWhile Text.isBlank⟩ :: scan (text.dropWhile Text.isBlank) := by
      conv_lhs => rw [← happend]
      exact scan_append hnil (by rwa [happend])
    rw [lexemes, lexemes, hscan]
    rfl

/-- White space in front of a text changes none of its lexemes. -/
theorem lexemes_append_of_blanks {blanks : List Char}
    (hblanks : ∀ c ∈ blanks, Text.isBlank c = true) (rest : List Char) :
    lexemes (blanks ++ rest) = lexemes rest := by
  rw [← lexemes_dropWhile_isBlank (blanks ++ rest), List.dropWhile_append_of_pos hblanks,
    lexemes_dropWhile_isBlank]

/-! ## White space behind a piece -/

/-- A piece at which some category matches is of that category. -/
theorem Fits.isAhead_text {piece : Piece} {rest : List Char} (hfits : piece.Fits rest)
    (hahead : IsAhead (piece.text ++ rest)) : IsAhead piece.text := by
  cases hfits with
  | @known category text rest hincluded hlongest =>
      exact ⟨category, text, hincluded, List.prefix_rfl⟩
  | @unknown text rest hne hunmatched hnext =>
      exact absurd hahead (hunmatched text hne List.suffix_rfl)

/-- A piece other than white space still fits if white space is put in anywhere behind it. -/
theorem Fits.insert_blanks {piece : Piece} {near blanks far : List Char}
    (hfits : piece.Fits (near ++ far)) (hcategory : piece.category ≠ some .blank)
    (hnear : near ≠ [] → IsAhead (near ++ far) → IsAhead near) (hne : blanks ≠ [])
    (hblanks : ∀ c ∈ blanks, Text.isBlank c = true) :
    piece.Fits (near ++ (blanks ++ far)) := by
  cases hfits with
  | @known category text rest hincluded hlongest =>
      refine .known hincluded fun other found hfound hahead => hlongest other found hfound ?_
      obtain ⟨c, text, rfl⟩ := List.exists_cons_of_ne_nil hincluded.ne_nil
      have hc : Text.isBlank c = false :=
        hincluded.isBlank_eq_false (fun hblank => hcategory (congrArg some hblank)) c
          (List.mem_cons_self ..)
      rw [← List.append_assoc] at hahead ⊢
      have hfront := hfound.isPrefix_of_append_blanks hc hne hblanks hahead
      exact hfront.trans (List.prefix_append _ far)
  | @unknown text rest htext hunmatched hnext =>
      refine .unknown htext (fun tail htail hsuffix hahead => ?_) ?_
      · have hbefore := hunmatched tail htail hsuffix
        obtain ⟨other, found, hfound, hprefix⟩ := hahead
        obtain ⟨c, tail, rfl⟩ := List.exists_cons_of_ne_nil htail
        have hc : Text.isBlank c = false := by
          by_contra hblank
          rw [Bool.not_eq_false] at hblank
          exact hbefore ⟨.blank, [c], .blank (List.cons_ne_nil c []) (by simpa using hblank),
            List.prefix_append [c] _⟩
        rw [← List.append_assoc] at hprefix hbefore
        have hfront := hfound.isPrefix_of_append_blanks hc hne hblanks hprefix
        exact hbefore ⟨other, found, hfound, hfront.trans (List.prefix_append _ far)⟩
      · refine Or.inr ?_
        by_cases hnil : near = []
        · have hahead : IsAhead blanks := ⟨.blank, blanks, .blank hne hblanks, List.prefix_rfl⟩
          rw [hnil]
          exact hahead.append far
        · have hahead : IsAhead (near ++ far) := hnext.resolve_left (by simp [hnil])
          exact (hnear hnil hahead).append (blanks ++ far)

/-! ## White space between two pieces -/

theorem Cuts.exists_of_cons {source : List Char} {piece : Piece} {pieces : List Piece}
    (hcuts : Cuts source (piece :: pieces)) :
    ∃ rest, source = piece.text ++ rest ∧ piece.Fits rest ∧ Cuts rest pieces := by
  cases hcuts with
  | cons hfits hothers => exact ⟨_, rfl, hfits, hothers⟩

theorem lexemes_of_fits {piece : Piece} {rest : List Char} (hfits : piece.Fits rest) :
    lexemes (piece.text ++ rest) =
      [piece].filter (fun piece => piece.category != some .blank) ++ lexemes rest := by
  rw [lexemes, lexemes, (Cuts.cons hfits (cuts_scan rest)).scan_eq, ← List.filter_append]
  rfl

theorem Fits.isBlank_text {piece : Piece} {rest : List Char} (hfits : piece.Fits rest)
    (hcategory : piece.category = some .blank) : ∀ c ∈ piece.text, Text.isBlank c = true := by
  cases hfits with
  | known hincluded hlongest =>
      cases hcategory
      cases hincluded with
      | blank hne hall => exact hall
  | unknown hne hunmatched hnext => cases hcategory

/-- White space behind some of the pieces of a text changes none of its lexemes. -/
theorem Cuts.lexemes_insert_blanks {before after : List Piece} {far blanks : List Char}
    (hcuts : Cuts (before.flatMap text ++ far) (before ++ after)) (hne : blanks ≠ [])
    (hblanks : ∀ c ∈ blanks, Text.isBlank c = true) :
    lexemes (before.flatMap text ++ (blanks ++ far)) = lexemes (before.flatMap text ++ far) := by
  induction before with
  | nil => exact lexemes_append_of_blanks hblanks far
  | cons piece before ih =>
      obtain ⟨rest, hrest, hfits, hothers⟩ := hcuts.exists_of_cons
      rw [List.flatMap_cons, List.append_assoc, List.append_cancel_left_eq] at hrest
      subst hrest
      rw [List.flatMap_cons, List.append_assoc, List.append_assoc]
      by_cases hcategory : piece.category = some .blank
      · have hpiece := hfits.isBlank_text hcategory
        rw [lexemes_append_of_blanks hpiece, lexemes_append_of_blanks hpiece, ih hothers]
      · have hnear : before.flatMap text ≠ [] → IsAhead (before.flatMap text ++ far) →
            IsAhead (before.flatMap text) := by
          intro hnil hahead
          cases before with
          | nil => exact absurd rfl hnil
          | cons next before =>
              obtain ⟨rest, hrest, hnext, -⟩ := hothers.exists_of_cons
              rw [hrest] at hahead
              exact (hnext.isAhead_text hahead).append _
        have hspaced := hfits.insert_blanks hcategory hnear hne hblanks
        rw [lexemes_of_fits hspaced, lexemes_of_fits hfits, ih hothers]

/-- Whether the text of `near` and `far` is cut between the two. -/
def CutsBetween (near far : List Char) : Prop :=
  ∃ before after, scan (near ++ far) = before ++ after ∧ before.flatMap text = near

/-- A text is cut at its start. -/
theorem cutsBetween_nil (source : List Char) : CutsBetween [] source :=
  ⟨[], scan source, rfl, rfl⟩

/-- A text is cut at its end. -/
theorem cutsBetween_append_nil (source : List Char) : CutsBetween source [] := by
  have hcuts := cuts_scan (source ++ [])
  exact ⟨scan (source ++ []), [], (List.append_nil _).symm,
    hcuts.flatMap_text.trans (List.append_nil source)⟩

theorem lexemes_insert_blanks {near far blanks : List Char} (hcut : CutsBetween near far)
    (hblanks : ∀ c ∈ blanks, Text.isBlank c = true) :
    lexemes (near ++ blanks ++ far) = lexemes (near ++ far) := by
  obtain ⟨before, after, hscan, rfl⟩ := hcut
  by_cases hnil : blanks = []
  · rw [hnil, List.append_nil]
  · have hcuts := cuts_scan (before.flatMap text ++ far)
    rw [hscan] at hcuts
    rw [List.append_assoc]
    exact hcuts.lexemes_insert_blanks hnil hblanks

end Piece

namespace Formula

/-- White space that is put in between two pieces of a source, in front of the first or behind the
last, changes no lexeme.  Under any rules the source is the same formula as before, or has the same
fault. -/
theorem read_append_blanks (near blanks far : String)
    (hcut : Piece.CutsBetween near.toList far.toList)
    (hblanks : ∀ c ∈ blanks.toList, Text.isBlank c = true) :
    Piece.lexemes (near ++ blanks ++ far).toList = Piece.lexemes (near ++ far).toList ∧
      ∀ rules, read rules (near ++ blanks ++ far) = read rules (near ++ far) := by
  have hlexemes : Piece.lexemes (near ++ blanks ++ far).toList =
      Piece.lexemes (near ++ far).toList := by
    simp only [String.toList_append]
    exact Piece.lexemes_insert_blanks hcut hblanks
  refine ⟨hlexemes, fun rules => ?_⟩
  rw [read, read, readChars, readChars, hlexemes]

/-- An `e` without digits is a name, and a name behind a number is a fault with or without white
space. -/
theorem read_append_blanks_of_fault :
    let source := "2*(1e+a"
    (Piece.lexemes "2*(1e \u2003+a".toList = Piece.lexemes source.toList ∧
        read {} "2*(1e \u2003+a" = read {} source) ∧
      read {} "\n2*(1e+a" = read {} source ∧ read {} "2*(1e+a " = read {} source ∧
        (read {} source).map text = .error (.expectedOperator 3 (.number 1) (.name "e")) := by
  intro source
  have hcut : Piece.CutsBetween "2*(1e".toList "+a".toList :=
    ⟨(Piece.scan source.toList).take 5, (Piece.scan source.toList).drop 5,
      by decide +kernel, by decide +kernel⟩
  obtain ⟨hlexemes, hinside⟩ := read_append_blanks "2*(1e" " \u2003" "+a" hcut
    (List.all_eq_true.mp (by decide +kernel))
  obtain ⟨-, hfront⟩ := read_append_blanks "" "\n" source (Piece.cutsBetween_nil _)
    (List.all_eq_true.mp (by decide +kernel))
  obtain ⟨-, hbehind⟩ := read_append_blanks source " " "" (Piece.cutsBetween_append_nil _)
    (List.all_eq_true.mp (by decide +kernel))
  exact ⟨⟨hlexemes, hinside {}⟩, hfront {}, hbehind {}, by decide +kernel⟩

end Formula

end Worksheet
