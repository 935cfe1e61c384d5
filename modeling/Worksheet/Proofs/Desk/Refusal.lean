import Worksheet.Proofs.Desk.History

/-!
# A refused operation might as well not have been asked for

An operation that is refused leaves the desk exactly as it was (`perform_of_error`), so
the operations after it give the replies that they would give without it, orders of
recomputation included.  `run_append_cons_of_error` says so of one refused operation
within a history, and `run_accepted` of all of them at once.

For an edit that would close a circle this rests on the undoing of links and contents
that had been changed before the circle was found, each link at its old place
(`Sheet.place_cases`).  Everything else is refused before anything is touched.
-/

namespace Worksheet.Desk

variable {desk : Desk}

/-! ## A single operation -/

theorem accept_of_error (hlinks : desk.sheet.links.Consistent) {name : String}
    {content : Except ContentFault CellContent} {cause : SheetError}
    (hrefused : (desk.accept (desk.sheet.edit name content)).1 = .error cause) :
    (desk.accept (desk.sheet.edit name content)).2 = desk := by
  rcases Sheet.edit_cases hlinks name content with
    ⟨_, hedit⟩ | ⟨_, _, _, _, _, _, hedit⟩
  · rw [hedit]
    rfl
  · rw [hedit] at hrefused
    cases hrefused

theorem replace_of_error {outcome : Except SheetError Sheet} {cause : SheetError}
    (hrefused : (desk.replace outcome).1 = .error cause) : (desk.replace outcome).2 = desk := by
  cases outcome with
  | ok sheet => cases hrefused
  | error cause => rfl

theorem sheet_of_replace {outcome : Except SheetError Sheet} {reply : Reply}
    (hreply : (desk.replace outcome).1 = .ok reply) :
    outcome = .ok (desk.replace outcome).2.sheet := by
  cases outcome with
  | error cause => cases hreply
  | ok sheet => rfl

theorem save_of_error {file : String} {cause : SheetError}
    (hrefused : (desk.save file).1 = .error cause) : (desk.save file).2 = desk := by
  rcases desk.save_cases file with ⟨_, hsave⟩ | ⟨_, hsave⟩
  · rw [hsave]
  · rw [hsave] at hrefused
    cases hrefused

/-- A refused operation leaves the desk as it was. -/
theorem perform_of_error (hlinks : desk.sheet.links.Consistent) {operation : Operation}
    {cause : SheetError} (hrefused : (desk.perform operation).1 = .error cause) :
    (desk.perform operation).2 = desk := by
  cases operation with
  | enter name literal => exact accept_of_error hlinks hrefused
  | assign name content => exact accept_of_error hlinks hrefused
  | rebuild snapshot options => exact replace_of_error hrefused
  | load file options => exact replace_of_error hrefused
  | save file => exact save_of_error (map_eq_error_iff.mp hrefused)
  | saveAgain =>
      change desk.saveAgain.2 = desk
      have hsaved : desk.saveAgain.1 = .error cause := map_eq_error_iff.mp hrefused
      rcases desk.saveAgain_cases with ⟨-, hagain⟩ | ⟨file, -, hagain⟩
      · rw [hagain]
      · rw [hagain] at hsaved ⊢
        exact save_of_error (map_eq_error_iff.mp hsaved)
  | exchange folder => cases hrefused

/-! ## Whole histories -/

theorem length_run (operations : List Operation) (desk : Desk) :
    (desk.run operations).1.length = operations.length := by
  induction operations generalizing desk with
  | nil => rfl
  | cons operation operations ih => exact congrArg (· + 1) (ih (desk.perform operation).2)

theorem run_append (first second : List Operation) (desk : Desk) :
    desk.run (first ++ second) =
      ((desk.run first).1 ++ ((desk.after first).run second).1,
        (desk.after first).after second) := by
  induction first generalizing desk with
  | nil => rfl
  | cons operation first ih =>
      have hrest := ih (desk.perform operation).2
      rw [List.cons_append, run_cons, after, hrest]
      rfl

/-- The operations of a list that are accepted when the list is worked off. -/
def accepted (desk : Desk) : List Operation → List Operation
  | [] => []
  | operation :: operations =>
      let rest := (desk.perform operation).2.accepted operations
      if (desk.perform operation).1.isOk then operation :: rest else rest

/-- To leave out whatever is refused changes neither the desk in the end nor any reply
of what is accepted. -/
theorem run_accepted (hdesk : desk.sheet.Sound) (operations : List Operation) :
    desk.run (desk.accepted operations) =
      ((desk.run operations).1.filter Except.isOk, desk.after operations) := by
  induction operations generalizing desk with
  | nil => rfl
  | cons operation operations ih =>
      have hrest := ih (sound_perform hdesk operation)
      cases hreply : (desk.perform operation).1 with
      | ok reply =>
          have haccepted : desk.accepted (operation :: operations) =
              operation :: (desk.perform operation).2.accepted operations := by
            rw [accepted, hreply]
            rfl
          rw [haccepted, run_cons, run_cons, after, hrest, hreply]
          rfl
      | error cause =>
          have hsame := perform_of_error hdesk.consistent hreply
          have haccepted : desk.accepted (operation :: operations) = desk.accepted operations := by
            rw [accepted, hreply, hsame]
            rfl
          rw [haccepted, run_cons, after_cons, hreply, hsame]
          exact ih hdesk

/-- An operation that is refused after some history leaves the desk as it was.  Whatever
is done next, each reply and the desk in the end are as if it had not been asked for. -/
theorem run_append_cons_of_error (options : SheetOptions) (folder : Folder)
    (history : List Operation) (operation : Operation) (cause : SheetError)
    (hrefused : (((opened options folder).after history).perform operation).1 = .error cause) :
    (((opened options folder).after history).perform operation).2 =
        (opened options folder).after history ∧
      ∀ later, (opened options folder).run (history ++ operation :: later) =
        let (replies, last) := (opened options folder).run (history ++ later)
        (replies.take history.length ++ .error cause :: replies.drop history.length, last) := by
  have hsound := sound_after options folder history
  have hsame := perform_of_error hsound.consistent hrefused
  have hlength := length_run history (opened options folder)
  refine ⟨hsame, fun later => ?_⟩
  rw [run_append, run_append, run_cons, after_cons, hsame, hrefused]
  simp only [List.take_left' hlength, List.drop_left' hlength]

/-- `B` is among the dependents of `A` before `C` when `B` is made to use `C`, which uses
`B`. -/
theorem run_append_cons_of_circle :
    let desk := (opened {} ∅).after [.enter "B" "=A", .enter "C" "=B+A"]
    let circle := Operation.enter "B" "=C"
    (desk.perform circle).1 = .error (.circular ⟨"B"⟩) ∧ (desk.perform circle).2 = desk := by
  intro desk circle
  have hrefused : (desk.perform circle).1 = .error (.circular ⟨"B"⟩) := by decide +kernel
  have hunseen := run_append_cons_of_error {} ∅ [.enter "B" "=A", .enter "C" "=B+A"] circle
    (.circular ⟨"B"⟩) hrefused
  exact ⟨hrefused, hunseen.1⟩

end Worksheet.Desk
