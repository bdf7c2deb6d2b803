import Mathlib.Data.List.Forall2
import TrustSchema.Text.Basic

/-!
Readers that go over the items of a list. All items are read, each to its own value and in order, or
the first item that cannot be read decides what is wrong.
-/

namespace TrustSchema.Text

variable {ε α β : Type}

theorem map_ok_iff (first : Except ε α) (f : α → β) (b : β) :
    first.map f = .ok b ↔ ∃ a, first = .ok a ∧ f a = b := by
  cases first <;> simp [Except.map]

theorem map_error_iff (first : Except ε α) (f : α → β) (e : ε) :
    first.map f = .error e ↔ first = .error e := by
  cases first <;> simp [Except.map]

theorem error_of_bind {first : Except ε α} {next : α → Except ε β} {e : ε}
    (whole : first >>= next = .error e) :
    first = .error e ∨ ∃ a, first = .ok a ∧ next a = .error e := by
  cases first with
  | error =>
    cases whole
    exact .inl rfl
  | ok a => exact .inr ⟨a, rfl, whole⟩

variable (read : α → Except ε β)

theorem mapM_cons_ok_iff (a : α) (items : List α) (values : List β) :
    (a :: items).mapM read = .ok values ↔
      ∃ b bs, read a = .ok b ∧ items.mapM read = .ok bs ∧ values = b :: bs := by
  rw [List.mapM_cons]
  cases read a with
  | error e => simp [bind, Except.bind]
  | ok b => cases items.mapM read <;> simp [bind, Except.bind, pure, Except.pure, eq_comm]

theorem mapM_ok_iff (items : List α) (values : List β) :
    items.mapM read = .ok values ↔ List.Forall₂ (fun a b => read a = .ok b) items values := by
  induction items generalizing values with
  | nil => simp [pure, Except.pure, eq_comm]
  | cons a items ih => simp only [mapM_cons_ok_iff, ih, List.forall₂_cons_left_iff]

/-- The items before the first bad one are read, and those after it do not matter. -/
theorem mapM_error_iff (items : List α) (e : ε) :
    items.mapM read = .error e ↔
      ∃ before bad after, items = before ++ bad :: after ∧
        (∀ a ∈ before, ∃ b, read a = .ok b) ∧ read bad = .error e := by
  constructor
  · intro failed
    induction items with
    | nil => cases failed
    | cons a items ih =>
      rw [List.mapM_cons] at failed
      cases first : read a with
      | error e' =>
        -- Nothing stands before the bad item.
        rw [first] at failed
        cases failed
        exact ⟨[], a, items, rfl, nofun, first⟩
      | ok b =>
        cases later : items.mapM read with
        | error e' =>
          rw [first, later] at failed
          cases failed
          obtain ⟨before, bad, after, rfl, good, refused⟩ := ih later
          refine ⟨a :: before, bad, after, rfl, ?_, refused⟩
          exact List.forall_mem_cons.mpr ⟨⟨b, first⟩, good⟩
        | ok bs =>
          rw [first, later] at failed
          cases failed
  · rintro ⟨before, bad, after, rfl, good, refused⟩
    induction before with
    | nil =>
      rw [List.nil_append, List.mapM_cons, refused]
      rfl
    | cons a before ih =>
      obtain ⟨⟨b, first⟩, good⟩ := List.forall_mem_cons.mp good
      rw [List.cons_append, List.mapM_cons, first, ih good]
      rfl

theorem exists_mapM_ok_iff (items : List α) :
    (∃ values, items.mapM read = .ok values) ↔ ∀ a ∈ items, ∃ b, read a = .ok b := by
  constructor
  · rintro ⟨values, all⟩
    rw [mapM_ok_iff] at all
    induction all with
    | nil => exact nofun
    | cons first _ ih => exact List.forall_mem_cons.mpr ⟨⟨_, first⟩, ih⟩
  · intro good
    cases whole : items.mapM read with
    | ok values => exact ⟨values, rfl⟩
    | error e =>
      obtain ⟨before, bad, after, rfl, -, refused⟩ := (mapM_error_iff read items e).mp whole
      obtain ⟨b, fine⟩ := good bad List.mem_append_cons_self
      cases refused.symm.trans fine

/-- Items that are made from others, and read as the values made from the same. -/
theorem mapM_map_ok {γ : Type} {form : γ → α} {value : γ → β}
    (each : ∀ c, read (form c) = .ok (value c)) (items : List γ) :
    (items.map form).mapM read = .ok (items.map value) := by
  rw [mapM_ok_iff, List.forall₂_map_left_iff, List.forall₂_map_right_iff, List.forall₂_same]
  exact fun c _ => each c

end TrustSchema.Text
