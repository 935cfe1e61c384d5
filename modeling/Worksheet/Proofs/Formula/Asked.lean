import Worksheet.Proofs.Formula.Names
import Worksheet.Proofs.Formula.Precedence

/-!
# What evaluation asks for

The names of a formula are exactly what its evaluation depends on
(`Formula.dependsExactlyOn_names`).  Nothing else is asked for, none of them can do without a
number, and whoever follows an evaluation to its end has seen all of them, each for the first
time in its place.  If each has a number, only a division by zero can still go wrong.

## Strategy

Evaluation goes through the tokens once, so it asks for the names as the tokens mention them,
up to the first failure.  `Evaluation.Asks` says this of a run, and it is kept when two runs
are put one after the other (`Asks.bind`).  Computing with the two stacks asks for nothing, and
so the names of a step are those of its token.  The grammar plays no part in this.  What can
still go wrong when each name has a number is read off the tree that the tokens spell.
-/

namespace Worksheet

namespace Evaluation

variable {α β : Type} {lookup : String → Option Float} {names others : List String}

/-! ## Runs one after the other -/

/-- Whether a run asks for some names in order, up to its first failure.  A run that does not
fail has asked for all of them, and each has a number. -/
structure Asks (lookup : String → Option Float) (names : List String) (run : Run α) : Prop where
  exists_asked : ∀ before, ∃ asked, (run.run.run before).2 = asked.reverse ++ before ∧
    asked <+: names
  of_ok : ∀ before later a, run.run.run before = (.ok a, later) →
    later = names.reverse ++ before ∧ ∀ name ∈ names, lookup name ≠ none

/-- A run that has its outcome at once asks for nothing. -/
theorem asks_outcome (outcome : Except EvalError α) :
    Asks lookup [] (ExceptT.mk (pure outcome) : Run α) where
  exists_asked before := ⟨[], rfl, List.nil_prefix⟩
  of_ok before later a hrun := by
    obtain ⟨-, rfl⟩ := Prod.mk.inj hrun
    exact ⟨rfl, fun name hname => nomatch hname⟩

theorem asks_ask (lookup : String → Option Float) (name : String) :
    Asks lookup [name] (ask lookup name) := by
  have hrun : ∀ before, (ask lookup name).run.run before =
      ((lookup name).elim (.error (.undefined name)) .ok, name :: before) := by
    intro before
    unfold ask
    cases lookup name <;> rfl
  constructor
  · intro before
    exact ⟨[name], by rw [hrun]; rfl, List.prefix_refl _⟩
  · intro before later value hvalue
    rw [hrun] at hvalue
    obtain ⟨hfound, rfl⟩ := Prod.mk.inj hvalue
    refine ⟨rfl, fun other hother hnone => ?_⟩
    rw [← List.mem_singleton.mp hother, hnone] at hfound
    cases hfound

theorem Asks.bind {first : Run α} {next : α → Run β} (hfirst : Asks lookup names first)
    (hnext : ∀ a, Asks lookup others (next a)) :
    Asks lookup (names ++ others) (first >>= next) := by
  constructor
  · intro before
    obtain ⟨asked, hasked, hnames⟩ := hfirst.exists_asked before
    rw [run_bind]
    rcases hrun : first.run.run before with ⟨cause | a, later⟩
    · rw [hrun] at hasked
      exact ⟨asked, hasked, hnames.trans (List.prefix_append names others)⟩
    · obtain ⟨rfl, -⟩ := hfirst.of_ok before later a hrun
      obtain ⟨more, hmore, hothers⟩ := (hnext a).exists_asked (names.reverse ++ before)
      refine ⟨names ++ more, ?_, (List.prefix_append_right_inj names).mpr hothers⟩
      rw [hmore, List.reverse_append, List.append_assoc]
  · intro before last b hbind
    rw [run_bind] at hbind
    rcases hrun : first.run.run before with ⟨cause | a, later⟩
    · rw [hrun] at hbind
      cases hbind
    · rw [hrun] at hbind
      obtain ⟨rfl, hnames⟩ := hfirst.of_ok before later a hrun
      obtain ⟨rfl, hothers⟩ := (hnext a).of_ok _ last b hbind
      rw [List.reverse_append, List.append_assoc]
      exact ⟨rfl, List.forall_mem_append.mpr ⟨hnames, hothers⟩⟩

/-! ## The two stacks -/

theorem asks_applyTop (op : Operator) (values : List Float) :
    Asks lookup [] (applyTop op values) := by
  unfold applyTop
  split
  · exact (asks_outcome _).bind fun value => asks_outcome (.ok _)
  · exact asks_outcome (.error .malformed)

theorem asks_pop (state : Stacks) : Asks lookup [] (pop state) := by
  unfold pop
  split
  · exact (asks_applyTop _ _).bind fun values => asks_outcome (.ok _)
  · exact asks_outcome (.ok _)

theorem asks_reduce (isWanted : Operator → Bool) (state : Stacks) :
    Asks lookup [] (reduce isWanted state) := by
  unfold reduce
  split
  · split
    · exact asks_pop state
    · exact asks_outcome (.ok _)
  · exact asks_outcome (.ok _)

theorem asks_operand (state : Stacks) (value : Float) : Asks lookup [] (operand state value) :=
  asks_reduce _ _

/-- A step asks for the name in its token. -/
theorem asks_step (state : Stacks) (token : Token) :
    Asks lookup token.name?.toList (step lookup state token) := by
  cases token with
  | number value => exact asks_operand state value
  | name stored => exact (asks_ask lookup stored).bind fun value => asks_operand state value
  | operator op =>
      simp only [step]
      split
      · exact asks_outcome (.ok _)
      · exact (asks_reduce _ _).bind fun state => asks_outcome (.ok _)
  | opening => exact asks_outcome (.ok _)
  | closing =>
      refine (asks_reduce _ _).bind fun state => ?_
      split
      · exact asks_reduce _ _
      · exact asks_outcome (.error .malformed)

theorem asks_finish (lookup : String → Option Float) (state : Stacks) :
    Asks lookup [] (finish state) := by
  refine (asks_pop state).bind fun state => ?_
  split
  · exact asks_outcome (.ok _)
  · exact asks_outcome (.error .malformed)

theorem asks_foldlM_step (tokens : List Token) (state : Stacks) :
    Asks lookup (tokens.filterMap Token.name?) (tokens.foldlM (step lookup) state) := by
  induction tokens generalizing state with
  | nil => exact asks_outcome (.ok state)
  | cons token tokens ih =>
      have hnames : (token :: tokens).filterMap Token.name? =
          token.name?.toList ++ tokens.filterMap Token.name? := by
        cases hname : token.name? <;> simp [hname]
      rw [List.foldlM_cons, hnames]
      exact (asks_step state token).bind ih

theorem asks_ofTokens (lookup : String → Option Float) (tokens : List Token) :
    Asks lookup (tokens.filterMap Token.name?) (ofTokens lookup tokens) := by
  have hasks := (asks_foldlM_step tokens {}).bind (asks_finish lookup)
  rwa [List.append_nil] at hasks

end Evaluation

namespace Formula

variable {f : Formula} {lookup : String → Option Float}

/-- Evaluation asks for the names as the tokens mention them. -/
theorem asked_isPrefix (f : Formula) (lookup : String → Option Float) :
    f.asked lookup <+: f.tokens.filterMap Token.name? := by
  obtain ⟨asked, hasked, hnames⟩ := (Evaluation.asks_ofTokens lookup f.tokens).exists_asked []
  have heq : f.asked lookup = asked := by
    rw [Formula.asked, evaluation, hasked, List.append_nil, List.reverse_reverse]
  rwa [heq]

/-- An evaluation that succeeds has asked for all names, and found a number for each. -/
theorem asked_of_evaluate {value : Float} (hvalue : f.evaluate lookup = .ok value) :
    f.asked lookup = f.tokens.filterMap Token.name? ∧ ∀ name ∈ f.names, lookup name ≠ none := by
  rcases hrun : (f.evaluation lookup).run.run [] with ⟨outcome, later⟩
  rw [evaluate, hrun] at hvalue
  cases hvalue
  obtain ⟨rfl, hfound⟩ := (Evaluation.asks_ofTokens lookup f.tokens).of_ok [] later value hrun
  refine ⟨?_, fun name hname => hfound name (List.mem_eraseDups.mp hname)⟩
  rw [asked, hrun, List.append_nil, List.reverse_reverse]

/-- With a number for each name, all that can go wrong is a division by zero. -/
theorem divisionByZero_of_error {cause : EvalError}
    (hdefined : ∀ name ∈ f.names, lookup name ≠ none) (herror : f.evaluate lookup = .error cause) :
    cause = .divisionByZero := by
  -- Evaluation does not notice if all other names get a number as well.
  let total : String → Option Float := fun name => some ((lookup name).getD 0)
  have hagree : ∀ name ∈ f.names, lookup name = total name := by
    intro name hname
    obtain ⟨value, hvalue⟩ := Option.ne_none_iff_exists'.mp (hdefined name hname)
    simp [total, hvalue]
  obtain ⟨tree, hspelling⟩ := f.exists_spelling
  have hrun : f.evaluation lookup = tree.evaluation total :=
    (f.evaluation_congr hagree).trans (Evaluation.ofTokens_of_spelling hspelling)
  rw [evaluate, hrun] at herror
  rcases Expression.error_of_evaluation herror with ⟨name, hnone, -⟩ | hzero
  · cases hnone
  · exact hzero

/-- Whether the evaluation of a formula depends on some names, on all of them and on nothing
else. -/
structure DependsExactlyOn (f : Formula) (names : List String) : Prop where
  eq_of_agree : ∀ first second : String → Option Float,
    (∀ name ∈ names, first name = second name) →
      f.evaluate first = f.evaluate second ∧ f.asked first = f.asked second
  mem_of_asked : ∀ lookup, ∀ name ∈ f.asked lookup, name ∈ names
  error_of_undefined : ∀ lookup, ∀ name ∈ names, lookup name = none →
    ∃ cause, f.evaluate lookup = .error cause
  eraseDups_asked : ∀ lookup value, f.evaluate lookup = .ok value →
    (f.asked lookup).eraseDups = names
  divisionByZero_of_error : ∀ lookup, (∀ name ∈ names, lookup name ≠ none) →
    ∀ cause, f.evaluate lookup = .error cause → cause = .divisionByZero

/-- Evaluation depends on exactly the names of a formula. -/
theorem dependsExactlyOn_names (f : Formula) : f.DependsExactlyOn f.names where
  eq_of_agree first second hagree := by
    have hrun := f.evaluation_congr hagree
    exact ⟨by rw [evaluate, hrun, evaluate], by rw [asked, hrun, asked]⟩
  mem_of_asked lookup _ hname :=
    List.mem_eraseDups.mpr ((f.asked_isPrefix lookup).subset hname)
  error_of_undefined lookup name hname hnone := by
    cases hvalue : f.evaluate lookup with
    | error cause => exact ⟨cause, rfl⟩
    | ok value => exact absurd hnone ((asked_of_evaluate hvalue).2 name hname)
  eraseDups_asked lookup value hvalue := by
    rw [(asked_of_evaluate hvalue).1, names]
  divisionByZero_of_error _ hdefined _ := divisionByZero_of_error hdefined

/-- Where the evaluation fails before the end, it has asked for some of the names only. -/
example :
    let f : Formula := ⟨[.name "a", .operator .divide, .number 0, .operator .plus, .name "b"],
      by decide⟩
    f.names = ["a", "b"] ∧ f.asked (fun _ => some 1) = ["a"] ∧
      f.asked (fun _ => none) = ["a"] := by decide +kernel

end Formula

end Worksheet
