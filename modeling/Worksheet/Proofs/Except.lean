import Mathlib.Data.List.Forall2

/-!
# Computations that may fail

When a computation that is put together from others succeeds, and where it fails: one under a map
(`map_eq_ok_iff`), two one after the other (`bind_eq_ok_iff`, `bind_eq_error_iff`), one for each
member of a list (`mapM_eq_ok_iff`), and a fold, which fails where one of its steps does
(`foldlM_eq_error_iff`).  What every step of a fold keeps, its result has (`foldlM_keeps`).
-/

namespace Worksheet

variable {α β ε : Type} {cause : ε}

/-! ## Maps and steps one after the other -/

theorem map_eq_ok_iff {f : α → β} {outcome : Except ε α} {b : β} :
    outcome.map f = .ok b ↔ ∃ a, outcome = .ok a ∧ f a = b := by
  cases outcome <;> simp [Except.map]

theorem map_eq_error_iff {f : α → β} {outcome : Except ε α} :
    outcome.map f = .error cause ↔ outcome = .error cause := by
  cases outcome <;> simp [Except.map]

theorem bind_eq_ok_iff {outcome : Except ε α} {next : α → Except ε β} {b : β} :
    outcome >>= next = .ok b ↔ ∃ a, outcome = .ok a ∧ next a = .ok b := by
  cases outcome <;> simp [Bind.bind, Except.bind]

theorem bind_eq_error_iff {outcome : Except ε α} {next : α → Except ε β} :
    outcome >>= next = .error cause ↔
      outcome = .error cause ∨ ∃ a, outcome = .ok a ∧ next a = .error cause := by
  cases outcome <;> simp [Bind.bind, Except.bind]

/-! ## One for each member of a list -/

theorem exists_forall₂_iff {r : α → β → Prop} {list : List α} :
    (∃ results, List.Forall₂ r list results) ↔ ∀ a ∈ list, ∃ b, r a b := by
  induction list with
  | nil => simp
  | cons a list ih => simp [List.forall₂_cons_left_iff, ← ih]

section Members

variable {f : α → Except ε β} {list : List α}

/-- A list of computations gives what its members give, in their order. -/
theorem mapM_eq_ok_iff {results : List β} :
    list.mapM f = .ok results ↔ List.Forall₂ (fun a b => f a = .ok b) list results := by
  induction list generalizing results with
  | nil =>
      rw [List.forall₂_nil_left_iff]
      exact ⟨fun hok => by cases hok; rfl, fun hnil => by rw [hnil]; rfl⟩
  | cons a list ih =>
      rw [List.mapM_cons, List.forall₂_cons_left_iff, bind_eq_ok_iff]
      constructor
      · rintro ⟨b, hb, hothers⟩
        obtain ⟨rest, hrest, hresults⟩ := bind_eq_ok_iff.mp hothers
        cases hresults
        exact ⟨b, rest, hb, ih.mp hrest, rfl⟩
      · rintro ⟨b, rest, hb, hrest, rfl⟩
        exact ⟨b, hb, bind_eq_ok_iff.mpr ⟨rest, ih.mpr hrest, rfl⟩⟩

/-- A list of computations succeeds if each of them does. -/
theorem exists_mapM_eq_ok_iff :
    (∃ results, list.mapM f = .ok results) ↔ ∀ a ∈ list, ∃ b, f a = .ok b := by
  simp only [mapM_eq_ok_iff, exists_forall₂_iff]

/-- What a list of computations gives comes from its members. -/
theorem exists_of_mem_mapM {results : List β} {b : β} (hmap : list.mapM f = .ok results)
    (hb : b ∈ results) : ∃ a ∈ list, f a = .ok b := by
  have hresults := mapM_eq_ok_iff.mp hmap
  obtain ⟨⟨place, hplace⟩, rfl⟩ := List.get_of_mem hb
  have hmember : place < list.length := hresults.length_eq ▸ hplace
  exact ⟨list.get ⟨place, hmember⟩, List.get_mem .., hresults.get hmember hplace⟩

/-- What a list of computations fails for is what one of them fails for. -/
theorem exists_of_mapM_eq_error (hmap : list.mapM f = .error cause) :
    ∃ a ∈ list, f a = .error cause := by
  induction list with
  | nil => cases hmap
  | cons a list ih =>
      rw [List.mapM_cons] at hmap
      rcases bind_eq_error_iff.mp hmap with hfirst | ⟨first, -, hothers⟩
      · exact ⟨a, List.mem_cons_self .., hfirst⟩
      rcases bind_eq_error_iff.mp hothers with hrest | ⟨rest, -, hpure⟩
      · obtain ⟨b, hb, hcause⟩ := ih hrest
        exact ⟨b, List.mem_cons_of_mem _ hb, hcause⟩
      · cases hpure

end Members

/-! ## Folds -/

variable {f : β → α → Except ε β} {list : List α} {first : β}

/-- What each step keeps, the result of a fold has. -/
theorem foldlM_keeps {P : β → Prop} {last : β}
    (hstep : ∀ b a next, P b → f b a = .ok next → P next) (hfirst : P first)
    (hfold : list.foldlM f first = .ok last) : P last := by
  induction list generalizing first with
  | nil =>
      cases hfold
      exact hfirst
  | cons a list ih =>
      rw [List.foldlM_cons] at hfold
      obtain ⟨next, hnext, hrest⟩ := bind_eq_ok_iff.mp hfold
      exact ih (hstep first a next hfirst hnext) hrest

/-- A fold fails at the first step that does. -/
theorem foldlM_eq_error_iff :
    list.foldlM f first = .error cause ↔
      ∃ before a after b, list = before ++ a :: after ∧ before.foldlM f first = .ok b ∧
        f b a = .error cause := by
  constructor
  · intro herror
    induction list generalizing first with
    | nil => cases herror
    | cons a list ih =>
        rw [List.foldlM_cons] at herror
        rcases bind_eq_error_iff.mp herror with ha | ⟨next, hnext, hrest⟩
        · exact ⟨[], a, list, first, rfl, rfl, ha⟩
        · obtain ⟨before, last, after, b, rfl, hbefore, hlast⟩ := ih hrest
          refine ⟨a :: before, last, after, b, rfl, ?_, hlast⟩
          rw [List.foldlM_cons]
          exact bind_eq_ok_iff.mpr ⟨next, hnext, hbefore⟩
  · rintro ⟨before, a, after, b, rfl, hbefore, ha⟩
    have hlast : (a :: after).foldlM f b = .error cause := by
      rw [List.foldlM_cons]
      exact bind_eq_error_iff.mpr (Or.inl ha)
    rw [List.foldlM_append]
    exact bind_eq_error_iff.mpr (Or.inr ⟨b, hbefore, hlast⟩)

end Worksheet
