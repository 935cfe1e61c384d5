import Worksheet.Proofs.Formula.Alternatives
import Worksheet.Proofs.Formula.Texts

/-!
# Pieces are the longest that match

The source of a formula is cut into pieces, one after the other.  Where texts of some category
stand ahead, the piece is the longest of them.  Where none does, it is unknown text, and reaches
to the next place at which one does (`Piece.Fits`).  There is only one way to cut a text like
that, and `Piece.scan` finds it (`Piece.scan_eq_iff_cuts`).

## Strategy

Both directions go from piece to piece.  The first piece of a text fits in front of the rest
(`Piece.fits_first`), and a piece that fits in front of some rest is the first piece of the two
together (`Piece.Fits.first_eq`).  For a piece of a category, both rest on what is known of a
single category, since no two of them match at the same place.
-/

namespace Worksheet

namespace Category

/-- Where a text of a category stands, this category matches. -/
theorem Includes.match?_append {category : Category} {text : List Char}
    (htext : category.Includes text) (rest : List Char) :
    match? (text ++ rest) = some (category, category.matchLength (text ++ rest)) := by
  have hle := htext.length_le rest
  have hpos := List.length_pos_iff.mpr htext.ne_nil
  exact match?_eq_some_iff.mpr ⟨rfl, by omega⟩

/-- Whether a text of some category stands ahead. -/
def IsAhead (text : List Char) : Prop := ∃ category found, Includes category found ∧ found <+: text

theorem isAhead_iff {text : List Char} : IsAhead text ↔ (match? text).isSome = true := by
  constructor
  · rintro ⟨category, found, hfound, rest, rfl⟩
    rw [hfound.match?_append rest]
    rfl
  · intro hsome
    obtain ⟨⟨category, length⟩, hmatch⟩ := Option.isSome_iff_exists.mp hsome
    obtain ⟨rfl, hlength⟩ := match?_eq_some_iff.mp hmatch
    exact ⟨category, _, includes_take hlength, List.take_prefix _ text⟩

end Category

namespace Piece

open Category (Includes IsAhead)

/-- Whether a piece is what has to be cut off where it stands, with `rest` behind it. -/
inductive Fits : Piece → List Char → Prop where
  | known {category : Category} {text rest : List Char} (included : category.Includes text)
      (longest : ∀ other found, Includes other found → found <+: text ++ rest →
        found.length ≤ text.length) :
      Fits ⟨some category, text⟩ rest
  | unknown {text rest : List Char} (nonempty : text ≠ [])
      (unmatched : ∀ tail, tail ≠ [] → tail <:+ text → ¬ IsAhead (tail ++ rest))
      (next : rest = [] ∨ IsAhead rest) :
      Fits ⟨none, text⟩ rest

/-- Whether a text is cut into some pieces, each of which fits where it stands. -/
inductive Cuts : List Char → List Piece → Prop where
  | nil : Cuts [] []
  | cons {piece : Piece} {rest : List Char} {pieces : List Piece} (fits : piece.Fits rest)
      (others : Cuts rest pieces) : Cuts (piece.text ++ rest) (piece :: pieces)

theorem Fits.text_ne_nil {piece : Piece} {rest : List Char} (hfits : piece.Fits rest) :
    piece.text ≠ [] := by
  cases hfits with
  | known hincluded hlongest => exact hincluded.ne_nil
  | unknown hne hunmatched hnext => exact hne

/-! ### Unknown text -/

theorem unknownLength_eq_zero {text : List Char} (htext : text = [] ∨ IsAhead text) :
    unknownLength text = 0 := by
  rcases htext with rfl | hahead
  · rfl
  · cases text with
    | nil => rfl
    | cons c rest => exact if_pos (Category.isAhead_iff.mp hahead)

theorem unknownLength_cons {c : Char} {rest : List Char} (hahead : ¬ IsAhead (c :: rest)) :
    unknownLength (c :: rest) = 1 + unknownLength rest :=
  if_neg (mt Category.isAhead_iff.mpr hahead)

/-- Unknown text reaches to the next place at which a category matches. -/
theorem isAhead_drop_unknownLength (text : List Char) :
    text.drop (unknownLength text) = [] ∨ IsAhead (text.drop (unknownLength text)) := by
  induction text with
  | nil => exact Or.inl rfl
  | cons c rest ih =>
      by_cases hahead : IsAhead (c :: rest)
      · rw [unknownLength_eq_zero (Or.inr hahead)]
        exact Or.inr hahead
      · rwa [unknownLength_cons hahead, Nat.add_comm, List.drop_succ_cons]

/-- No category matches before that place. -/
theorem not_isAhead_of_suffix {text tail : List Char} (hne : tail ≠ [])
    (htail : tail <:+ text.take (unknownLength text)) :
    ¬ IsAhead (tail ++ text.drop (unknownLength text)) := by
  induction text with
  | nil => exact absurd (List.suffix_nil.mp htail) hne
  | cons c rest ih =>
      by_cases hahead : IsAhead (c :: rest)
      · rw [unknownLength_eq_zero (Or.inr hahead)] at htail
        exact absurd (List.suffix_nil.mp htail) hne
      · rw [unknownLength_cons hahead, Nat.add_comm, List.take_succ_cons] at htail
        rw [unknownLength_cons hahead, Nat.add_comm, List.drop_succ_cons]
        rcases List.suffix_cons_iff.mp htail with rfl | hinner
        · rwa [List.cons_append, List.take_append_drop]
        · exact ih hinner

theorem unknownLength_append {text rest : List Char}
    (hunmatched : ∀ tail, tail ≠ [] → tail <:+ text → ¬ IsAhead (tail ++ rest))
    (hnext : rest = [] ∨ IsAhead rest) : unknownLength (text ++ rest) = text.length := by
  induction text with
  | nil => exact unknownLength_eq_zero hnext
  | cons c text ih =>
      have hahead : ¬ IsAhead (c :: (text ++ rest)) :=
        hunmatched (c :: text) (List.cons_ne_nil c text) List.suffix_rfl
      have hinner := ih fun tail hne htail =>
        hunmatched tail hne (htail.trans (List.suffix_cons c text))
      rw [List.cons_append, unknownLength_cons hahead, hinner, List.length_cons, Nat.add_comm]

/-! ### The first piece -/

theorem append_drop_first (text : List Char) :
    (first text).text ++ text.drop (first text).text.length = text := by
  refine List.prefix_iff_eq_append.mp ?_
  unfold first
  split <;> exact List.take_prefix _ text

/-- The first piece of a text fits in front of the rest. -/
theorem fits_first {text : List Char} (htext : text ≠ []) :
    (first text).Fits (text.drop (first text).text.length) := by
  have happend := append_drop_first text
  cases hmatch : Category.match? text with
  | some found =>
      obtain ⟨category, length⟩ := found
      obtain ⟨rfl, hlength⟩ := Category.match?_eq_some_iff.mp hmatch
      have hfirst : first text = ⟨some category, text.take (category.matchLength text)⟩ := by
        rw [first, hmatch]
      rw [hfirst] at happend ⊢
      refine .known (Category.includes_take hlength) fun other found hfound hahead => ?_
      rw [happend] at hahead
      obtain ⟨rest, rfl⟩ := hahead
      have hle := hfound.length_le rest
      -- Only one category matches, so a text that stands ahead is one of this category.
      cases hmatch.symm.trans (hfound.match?_append rest)
      rw [List.length_take, List.length_append]
      omega
  | none =>
      have hfirst : first text = ⟨none, text.take (unknownLength text)⟩ := by
        rw [first, hmatch]
      have hne := first_text_ne_nil htext
      rw [hfirst] at happend hne ⊢
      have hdrop :
          text.drop (text.take (unknownLength text)).length = text.drop (unknownLength text) :=
        List.append_cancel_left (happend.trans (List.take_append_drop _ text).symm)
      simp only [hdrop]
      exact .unknown hne (fun tail => not_isAhead_of_suffix) (isAhead_drop_unknownLength text)

/-- A piece that fits is cut off. -/
theorem Fits.first_eq {piece : Piece} {rest : List Char} (hfits : piece.Fits rest) :
    first (piece.text ++ rest) = piece := by
  cases hfits with
  | @known category text rest hincluded hlongest =>
      have hle := hincluded.length_le rest
      have hmatch := hincluded.match?_append rest
      obtain ⟨-, hlength⟩ := Category.match?_eq_some_iff.mp hmatch
      have hshort := hlongest category _ (Category.includes_take hlength) (List.take_prefix _ _)
      have hprefix := List.prefix_take_iff.mpr ⟨List.prefix_append text rest, hle⟩
      simp only [first, hmatch]
      rw [← hprefix.eq_of_length_le hshort]
  | @unknown text rest hne hunmatched hnext =>
      have hlength := unknownLength_append hunmatched hnext
      have hmatch : Category.match? (text ++ rest) = none := by
        rw [← Option.not_isSome_iff_eq_none, ← Category.isAhead_iff]
        exact hunmatched text hne List.suffix_rfl
      simp only [first, hmatch, hlength, List.take_left]

/-! ## All pieces -/

theorem cuts_scan (source : List Char) : Cuts source (scan source) := by
  fun_induction scan source with
  | case1 => exact .nil
  | case2 c rest ih =>
      have hcuts := Cuts.cons (fits_first (List.cons_ne_nil c rest)) ih
      rwa [append_drop_first] at hcuts

theorem Cuts.scan_eq {source : List Char} {pieces : List Piece} (hcuts : Cuts source pieces) :
    scan source = pieces := by
  induction hcuts with
  | nil => rw [scan]
  | @cons piece rest pieces hfits hothers ih =>
      have hfirst := hfits.first_eq
      obtain ⟨c, text, htext⟩ := List.exists_cons_of_ne_nil hfits.text_ne_nil
      rw [htext, List.cons_append] at hfirst ⊢
      rw [scan, hfirst, htext, ← List.cons_append, List.drop_left, ih]

theorem Cuts.flatMap_text {source : List Char} {pieces : List Piece} (hcuts : Cuts source pieces) :
    pieces.flatMap text = source := by
  induction hcuts with
  | nil => rfl
  | cons hfits hothers ih => rw [List.flatMap_cons, ih]

theorem Cuts.text_ne_nil {source : List Char} {pieces : List Piece} (hcuts : Cuts source pieces) :
    ∀ piece ∈ pieces, piece.text ≠ [] := by
  induction hcuts with
  | nil => exact List.forall_mem_nil _
  | cons hfits hothers ih => exact List.forall_mem_cons.mpr ⟨hfits.text_ne_nil, ih⟩

/-- What matches at a place is the first of all choices, and as pieces fit where they stand, it is
the longest as well.  No other pieces than those of `scan` fit.  Together they are the text, none
of them is empty, and the lexemes are all of them but the white space. -/
theorem scan_eq_iff_cuts (source : List Char) :
    (∀ text, (Category.choices text).head? =
        (Category.match? text).map fun (category, length) => (category, text.drop length)) ∧
      (∀ pieces, scan source = pieces ↔ Cuts source pieces) ∧
      (scan source).flatMap text = source ∧ (∀ piece ∈ scan source, piece.text ≠ []) ∧
      lexemes source = (scan source).filter fun piece => piece.category != some .blank := by
  have hcuts := cuts_scan source
  have hscan (pieces : List Piece) : scan source = pieces ↔ Cuts source pieces :=
    ⟨fun hpieces => hpieces ▸ hcuts, Cuts.scan_eq⟩
  exact ⟨Category.head?_choices, hscan, hcuts.flatMap_text, hcuts.text_ne_nil, rfl⟩

end Piece

end Worksheet
