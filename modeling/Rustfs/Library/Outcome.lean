import Mathlib.Data.List.Forall2

/-!
# Fallible steps

When a computation in `Except` ends with a value: what each of its steps then
returned.
-/

namespace Rustfs.Library.Outcome

variable {ε α β : Type} {result : β} {step : Except ε α} {items : List α} {f : α → Except ε β}
  {results : List β}

theorem ok_bind (value : α) (next : α → Except ε β) : (Except.ok value >>= next) = next value := rfl

theorem bind_eq_ok {next : α → Except ε β} :
    (step >>= next) = .ok result ↔ ∃ value, step = .ok value ∧ next value = .ok result := by
  cases step with
  | error error =>
    constructor
    · rintro ⟨⟩
    · rintro ⟨value, failed, _⟩
      cases failed
  | ok value =>
    constructor
    · intro continued
      exact ⟨value, rfl, continued⟩
    · rintro ⟨other, same, continued⟩
      cases same
      exact continued

theorem check_eq_ok {check : Except ε Unit} {others : Except ε β} :
    (check >>= fun _ => others) = .ok result ↔ check = .ok () ∧ others = .ok result := by
  rw [bind_eq_ok]
  constructor
  · rintro ⟨_, first, continued⟩
    exact ⟨first, continued⟩
  · rintro ⟨first, continued⟩
    exact ⟨(), first, continued⟩

theorem map_eq_ok {f : α → β} :
    step.map f = .ok result ↔ ∃ value, step = .ok value ∧ f value = result := by
  cases step with
  | error error =>
    constructor
    · rintro ⟨⟩
    · rintro ⟨value, failed, _⟩
      cases failed
  | ok value =>
    constructor
    · intro mapped
      exact ⟨value, rfl, by simpa [Except.map] using mapped⟩
    · rintro ⟨other, same, mapped⟩
      cases same
      simp [Except.map, mapped]

theorem map_m_eq_ok :
    items.mapM f = .ok results ↔ List.Forall₂ (fun item result => f item = .ok result) items results := by
  induction items generalizing results with
  | nil =>
    constructor
    · rintro ⟨⟩
      exact .nil
    · rintro ⟨⟩
      rfl
  | cons item items ih =>
    rw [List.mapM_cons, bind_eq_ok]
    constructor
    · rintro ⟨result, first, continued⟩
      obtain ⟨rest, others, ⟨⟩⟩ := bind_eq_ok.1 continued
      exact .cons first (ih.1 others)
    · intro each
      cases each with
      | cons first others => exact ⟨_, first, bind_eq_ok.2 ⟨_, ih.2 others, rfl⟩⟩

theorem for_m_eq_ok {f : α → Except ε Unit} :
    items.forM f = .ok () ↔ ∀ item ∈ items, f item = .ok () := by
  induction items with
  | nil => exact ⟨fun _ _ member => (nomatch member), fun _ => rfl⟩
  | cons item items ih =>
    change (f item >>= fun _ => items.forM f) = .ok () ↔ _
    rw [check_eq_ok, List.forall_mem_cons, ih]

theorem map_m_get
    (done : items.mapM f = .ok results) {i : Nat} {item : α} (here : items[i]? = some item) :
    ∃ result, results[i]? = some result ∧ f item = .ok result := by
  have each := map_m_eq_ok.1 done
  induction each generalizing i with
  | nil => simp at here
  | @cons first result rest results head tail ih =>
    cases i with
    | zero =>
      obtain rfl : first = item := by simpa using here
      exact ⟨result, rfl, head⟩
    | succ i => exact ih (map_m_eq_ok.2 tail) (by simpa using here)

end Rustfs.Library.Outcome
