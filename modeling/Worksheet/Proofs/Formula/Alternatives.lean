import Mathlib.Tactic.ByContra
import Worksheet.Formula.Piece

/-!
# The first of several alternatives

At each place of a formula, one pattern is looked for that has an alternative for each category.
There may be several ways to match it, and the first of them counts: earlier alternatives are
tried before later ones, repetitions are as long as they can be, and what may be left out is
left out last.  A way that cannot be followed up is taken back.

`Category.matchLength` finds the end of that match without trying any other
(`Category.head?_choices`).

## Strategy

`Pattern.rests` lists the ways to match a pattern in the order in which they are tried, each by
what it leaves of the text.  In a sequence the first way counts that can be followed up
(`Pattern.head?_rests_seq`).  A run of characters is given back only to what may start with
them, and no pattern here goes on with what it has just repeated
(`Pattern.head?_rests_run_seq`).
-/

namespace Worksheet

/-! ## Patterns -/

/-- What a text can be matched against: a character of a kind, any number of them, a pattern or
nothing, two patterns in a row, or one of two. -/
inductive Pattern where
  | one (p : Char → Bool)
  | many (p : Char → Bool)
  | perhaps (inner : Pattern)
  | seq (first second : Pattern)
  | either (first second : Pattern)

namespace Pattern

/-- What characters of a kind may leave when they are repeated, the longest repetition first. -/
def manyRests (p : Char → Bool) : List Char → List (List Char)
  | [] => [[]]
  | c :: rest => if p c then manyRests p rest ++ [c :: rest] else [c :: rest]

/-- What a pattern may leave of a text, in the order in which it is tried. -/
def rests : Pattern → List Char → List (List Char)
  | one _, [] => []
  | one p, c :: rest => if p c then [rest] else []
  | many p, text => manyRests p text
  | perhaps inner, text => inner.rests text ++ [text]
  | seq first second, text => (first.rests text).flatMap second.rests
  | either first second, text => first.rests text ++ second.rests text

/-- At least one character of a kind. -/
def run (p : Char → Bool) : Pattern := seq (one p) (many p)

/-! ## The first way -/

variable {p : Char → Bool}

theorem head?_rests_seq (first second : Pattern) (text : List Char) :
    ((seq first second).rests text).head? =
      (first.rests text).findSome? fun rest => (second.rests rest).head? :=
  List.head?_flatMap

theorem head?_rests_either (first second : Pattern) (text : List Char) :
    ((either first second).rests text).head? =
      (first.rests text).head?.or (second.rests text).head? :=
  List.head?_append

theorem head?_rests_perhaps (inner : Pattern) (text : List Char) :
    ((perhaps inner).rests text).head? = some ((inner.rests text).head?.getD text) := by
  rw [rests, List.head?_append]
  cases (inner.rests text).head? <;> rfl

theorem head?_rests_one_seq (p : Char → Bool) (second : Pattern) (c : Char) (rest : List Char) :
    ((seq (one p) second).rests (c :: rest)).head? =
      if p c then (second.rests rest).head? else none := by
  rw [head?_rests_seq, rests]
  cases p c
  · rfl
  · cases hsecond : (second.rests rest).head? <;> simp [hsecond]

/-- What can always be followed up is never taken back. -/
theorem head?_rests_seq_perhaps (first inner : Pattern) (text : List Char) :
    ((seq first (perhaps inner)).rests text).head? =
      (first.rests text).head?.map fun rest => (inner.rests rest).head?.getD rest := by
  rw [head?_rests_seq]
  cases first.rests text with
  | nil => rfl
  | cons rest others =>
      rw [List.findSome?_cons, head?_rests_perhaps]
      rfl

/-- A repetition is taken back only for what may start with the characters repeated. -/
theorem findSome?_manyRests {next : List Char → Option (List Char)}
    (hnext : ∀ c rest, p c = true → next (c :: rest) = none) (text : List Char) :
    (manyRests p text).findSome? next = next (text.dropWhile p) := by
  induction text with
  | nil => cases hnil : next [] <;> simp [manyRests, hnil]
  | cons c rest ih =>
      by_cases hc : p c = true
      · rw [manyRests, if_pos hc, List.findSome?_append, ih, List.dropWhile_cons_of_pos hc]
        simp [hnext c rest hc]
      · rw [manyRests, if_neg hc, List.dropWhile_cons_of_neg hc]
        cases hcons : next (c :: rest) <;> simp [hcons]

theorem head?_manyRests (p : Char → Bool) (text : List Char) :
    (manyRests p text).head? = some (text.dropWhile p) := by
  induction text with
  | nil => rfl
  | cons c rest ih =>
      by_cases hc : p c = true
      · rw [manyRests, if_pos hc, List.head?_append, ih, List.dropWhile_cons_of_pos hc]
        rfl
      · rw [manyRests, if_neg hc, List.dropWhile_cons_of_neg hc]
        rfl

theorem drop_length_takeWhile (p : Char → Bool) (text : List Char) :
    text.drop (text.takeWhile p).length = text.dropWhile p := by
  have happend := List.prefix_iff_eq_append.mp (List.takeWhile_prefix (l := text) p)
  exact List.append_cancel_left (happend.trans List.takeWhile_append_dropWhile.symm)

theorem head?_rests_many (p : Char → Bool) (text : List Char) :
    ((many p).rests text).head? = some (text.drop (text.takeWhile p).length) := by
  rw [rests, head?_manyRests, drop_length_takeWhile]

theorem rests_run_cons (c : Char) (rest : List Char) :
    (run p).rests (c :: rest) = if p c then manyRests p rest else [] := by
  rw [run, rests, rests]
  split
  · exact List.flatMap_singleton ..
  · rfl

theorem head?_rests_run (p : Char → Bool) (text : List Char) :
    ((run p).rests text).head? =
      if (text.takeWhile p).length = 0 then none
      else some (text.drop (text.takeWhile p).length) := by
  cases text with
  | nil => rfl
  | cons c rest =>
      rw [rests_run_cons]
      by_cases hc : p c = true
      · simp [hc, head?_manyRests, drop_length_takeWhile]
      · simp [hc]

theorem head?_rests_run_seq {second : Pattern}
    (hsecond : ∀ c rest, p c = true → (second.rests (c :: rest)).head? = none)
    (text : List Char) :
    ((seq (run p) second).rests text).head? =
      if (text.takeWhile p).length = 0 then none
      else (second.rests (text.drop (text.takeWhile p).length)).head? := by
  rw [head?_rests_seq, drop_length_takeWhile]
  cases text with
  | nil => rfl
  | cons c rest =>
      rw [rests_run_cons]
      by_cases hc : p c = true
      · simp only [hc, if_true, List.takeWhile_cons_of_pos, List.length_cons, Nat.succ_ne_zero,
          if_false, List.dropWhile_cons_of_pos]
        exact findSome?_manyRests (fun c rest hc => hsecond c rest hc) rest
      · simp [hc]

end Pattern

namespace Category

open Pattern

/-! ## The pattern of a category -/

/-- The digits of a number. -/
def mantissaPattern : Pattern :=
  .either (.seq (run Char.isDigit) (.seq (.one (· == '.')) (.many Char.isDigit)))
    (.either (.seq (.one (· == '.')) (run Char.isDigit)) (run Char.isDigit))

/-- The exponent of a number. -/
def exponentPattern : Pattern :=
  .seq (.one fun c => c == 'e' || c == 'E')
    (.seq (.perhaps (.one fun c => c == '+' || c == '-')) (run Char.isDigit))

/-- The pattern of a category. -/
def pattern : Category → Pattern
  | opening => .one (· == '(')
  | closing => .one (· == ')')
  | operator => .one isOperator
  | name => .seq (.one Name.isStart) (.many Name.isPart)
  | number => .seq mantissaPattern (.perhaps exponentPattern)
  | blank => run Text.isBlank

/-- All ways to match a text, with the category of each, in the order in which they are tried. -/
def choices (text : List Char) : List (Category × List Char) :=
  all.flatMap fun category => (category.pattern.rests text).map (category, ·)

/-! ## Where the first way ends -/

/-- A point does not match a digit. -/
theorem head?_rests_point_seq_of_isDigit (second : Pattern) {c : Char} (rest : List Char)
    (hc : c.isDigit = true) :
    ((Pattern.seq (.one (· == '.')) second).rests (c :: rest)).head? = none := by
  rw [head?_rests_one_seq, if_neg]
  intro hpoint
  cases eq_of_beq hpoint
  cases hc

theorem head?_rests_digits (text : List Char) :
    ((run Char.isDigit).rests text).head? =
      if digitsLength text = 0 then none else some (text.drop (digitsLength text)) :=
  head?_rests_run Char.isDigit text

theorem head?_rests_digits_point (text : List Char) :
    ((seq (run Char.isDigit) (.seq (.one (· == '.')) (.many Char.isDigit))).rests text).head? =
      if digitsLength text = 0 then none
      else
        ((seq (.one (· == '.')) (.many Char.isDigit)).rests
          (text.drop (digitsLength text))).head? :=
  head?_rests_run_seq (fun _ rest hc => head?_rests_point_seq_of_isDigit _ rest hc) text

/-- The digits of a number end where `mantissaLength` says. -/
theorem head?_rests_mantissa (text : List Char) :
    (mantissaPattern.rests text).head? =
      if mantissaLength text = 0 then none else some (text.drop (mantissaLength text)) := by
  rw [mantissaPattern, head?_rests_either, head?_rests_either, head?_rests_digits_point,
    head?_rests_digits]
  -- Without digits in front only the second alternative matches, and with them only the others.
  by_cases hwhole : digitsLength text = 0
  · rw [if_pos hwhole, if_pos hwhole, Option.none_or, Option.or_none, mantissaLength]
    simp only [hwhole, List.drop_zero]
    cases text with
    | nil => rfl
    | cons c rest =>
        rw [head?_rests_one_seq]
        by_cases hc : c = '.'
        · subst hc
          rw [head?_rests_digits]
          by_cases hfraction : digitsLength rest = 0
          · simp [hfraction]
          · simp [hfraction, Nat.add_comm 1]
        · simp [hc]
  · have hpoint : ((seq (.one (· == '.')) (run Char.isDigit)).rests text).head? = none := by
      cases text with
      | nil => rfl
      | cons c rest =>
          refine head?_rests_point_seq_of_isDigit _ rest ?_
          by_contra hc
          exact hwhole (by simp [digitsLength, hc])
    rw [if_neg hwhole, if_neg hwhole, hpoint, Option.none_or, mantissaLength]
    cases hbehind : text.drop (digitsLength text) with
    | nil => simp [hbehind, hwhole, rests]
    | cons c rest =>
        rw [head?_rests_one_seq]
        by_cases hc : c = '.'
        · subst hc
          have hdrop : text.drop (digitsLength text + 1 + digitsLength rest) =
              rest.drop (digitsLength rest) := by
            rw [Nat.add_assoc, ← List.drop_drop, hbehind, Nat.add_comm 1, List.drop_succ_cons]
          simp [head?_rests_many, hwhole, hdrop]
          rfl
        · simp [hbehind, hc, hwhole]

/-- Where there is a sign it is taken, as digits cannot follow in its place. -/
theorem head?_rests_sign_digits (text : List Char) :
    ((seq (.perhaps (.one fun c => c == '+' || c == '-')) (run Char.isDigit)).rests text).head? =
      ((run Char.isDigit).rests
        (text.drop (if text.head?.any fun c => c == '+' || c == '-' then 1 else 0))).head? := by
  rw [head?_rests_seq, rests]
  cases text with
  | nil => rfl
  | cons c rest =>
      by_cases hc : (c == '+' || c == '-') = true
      · have hdigits : ((run Char.isDigit).rests (c :: rest)).head? = none := by
          rw [rests_run_cons, if_neg]
          · rfl
          · intro hdigit
            rcases Bool.or_eq_true_iff.mp hc with hsign | hsign <;>
              cases eq_of_beq hsign <;> cases hdigit
        have hrests : (Pattern.rests (.one fun c => c == '+' || c == '-') (c :: rest)) = [rest] :=
          if_pos hc
        simp only [hrests, List.singleton_append, List.findSome?_cons, hdigits]
        cases hrest : ((run Char.isDigit).rests rest).head? <;> simp [hc, hrest]
      · simp [rests, hc]

/-- An exponent ends where `exponentLength` says. -/
theorem head?_rests_exponent (text : List Char) :
    (exponentPattern.rests text).head? =
      if exponentLength text = 0 then none else some (text.drop (exponentLength text)) := by
  cases text with
  | nil => rfl
  | cons mark rest =>
      rw [exponentPattern, head?_rests_one_seq, head?_rests_sign_digits, head?_rests_digits,
        exponentLength]
      by_cases hmark : (mark == 'e' || mark == 'E') = true
      · simp only [if_pos hmark]
        generalize (if rest.head?.any fun c => c == '+' || c == '-' then 1 else 0) = sign
        by_cases hdigits : digitsLength (rest.drop sign) = 0
        · simp [hdigits]
        · rw [if_neg hdigits, if_neg hdigits, if_neg (by omega), List.drop_drop, Nat.add_assoc 1,
            Nat.add_comm 1, List.drop_succ_cons]
      · simp [hmark]

theorem head?_rests_one (p : Char → Bool) (text : List Char) :
    ((Pattern.one p).rests text).head? =
      if singleLength p text = 0 then none else some (text.drop (singleLength p text)) := by
  cases text with
  | nil => rfl
  | cons c rest => by_cases hc : p c = true <;> simp [rests, singleLength, hc]

/-- The first way to match the pattern of a category ends where `matchLength` says. -/
theorem head?_rests_pattern (category : Category) (text : List Char) :
    (category.pattern.rests text).head? =
      if category.matchLength text = 0 then none
      else some (text.drop (category.matchLength text)) := by
  cases category with
  | opening => exact head?_rests_one (· == '(') text
  | closing => exact head?_rests_one (· == ')') text
  | operator => exact head?_rests_one isOperator text
  | name =>
      cases text with
      | nil => rfl
      | cons first rest =>
          rw [pattern, head?_rests_one_seq, head?_rests_many, matchLength, nameLength]
          by_cases hstart : Name.isStart first = true
          · simp [hstart, Nat.add_comm 1]
          · simp [hstart]
  | number =>
      rw [pattern, head?_rests_seq_perhaps, head?_rests_mantissa, matchLength, numberLength]
      by_cases hmantissa : mantissaLength text = 0
      · simp [hmantissa]
      · simp only [if_neg hmantissa, Option.map_some, head?_rests_exponent]
        by_cases hexponent : exponentLength (text.drop (mantissaLength text)) = 0
        · simp [hexponent, hmantissa]
        · simp [hexponent, hmantissa, List.drop_drop]
  | blank => exact head?_rests_run Text.isBlank text

/-- What matches at a place is what is found first among all choices. -/
theorem head?_choices (text : List Char) :
    (choices text).head? = (match? text).map fun found => (found.1, text.drop found.2) := by
  rw [choices, List.head?_flatMap, match?, List.map_findSome?]
  congr 1
  funext category
  rw [List.head?_map, head?_rests_pattern]
  simp only [Function.comp]
  split <;> rfl

end Category

end Worksheet
