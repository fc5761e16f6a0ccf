/-!
# Short-circuit evaluation

Conjunctions and disjunctions of tests that may have no answer, tried in order up
to the first test that decides.
-/

namespace Rustfs.Library.ShortCircuit

open List Option

section Tests

variable {α β : Type} {items : List α} {test test' : α → Option Bool} {result : Bool}

theorem all_m_some (items : List α) (test : α → Bool) :
    items.allM (fun item => some (test item)) = some (items.all test) := by
  induction items with
  | nil => rfl
  | cons item items ih =>
    rw [allM_cons, all_cons, ih]
    cases test item with
    | false => rfl
    | true => rfl

theorem all_m_map (items : List α) (f : α → β) (test : β → Option Bool) :
    (items.map f).allM test = items.allM fun item => test (f item) := by
  induction items with
  | nil => rfl
  | cons item items ih => rw [map_cons, allM_cons, allM_cons, ih]

theorem all_m_single (test : α → Option Bool) (item : α) : [item].allM test = test item := by
  rw [allM_cons]
  cases test item with
  | none => rfl
  | some result =>
    cases result with
    | false => rfl
    | true => rfl

theorem all_m_true : items.allM test = some true ↔ ∀ item ∈ items, test item = some true := by
  induction items with
  | nil => simp
  | cons item items ih =>
    rw [allM_cons, forall_mem_cons, ← ih]
    cases test item with
    | none => simp
    | some result =>
      cases result with
      | false => simp
      | true => simp

theorem all_m_false (failed : items.allM test = some false) :
    ∃ item ∈ items, test item = some false := by
  induction items with
  | nil => cases failed
  | cons item items ih =>
    rw [allM_cons] at failed
    cases answer : test item with
    | none =>
      rw [answer] at failed
      cases failed
    | some result =>
      rw [answer] at failed
      cases result with
      | false => exact ⟨item, mem_cons_self, answer⟩
      | true =>
        obtain ⟨other, member, answered⟩ := ih failed
        exact ⟨other, mem_cons_of_mem _ member, answered⟩

theorem all_m_ends (ends : ∀ item ∈ items, ∃ result, test item = some result) :
    ∃ result, items.allM test = some result := by
  induction items with
  | nil => exact ⟨true, rfl⟩
  | cons item items ih =>
    obtain ⟨⟨result, answer⟩, rest⟩ := forall_mem_cons.1 ends
    rw [allM_cons, answer]
    cases result with
    | false => exact ⟨false, rfl⟩
    | true => exact ih rest

theorem all_m_mono (grows : ∀ item result, test item = some result → test' item = some result)
    (done : items.allM test = some result) : items.allM test' = some result := by
  induction items with
  | nil => exact done
  | cons item items ih =>
    rw [allM_cons] at done ⊢
    cases answer : test item with
    | none =>
      rw [answer] at done
      cases done
    | some found =>
      rw [answer] at done
      rw [grows _ _ answer]
      cases found with
      | false => exact done
      | true => exact ih done

/-- The items that a run of tests comes to: every earlier one lets it go on. Whether the item
itself has an answer is left open. -/
def Tried (test : α → Option Bool) (going : Bool) (items : List α) (item : α) : Prop :=
  ∃ front back, items = front ++ item :: back ∧ ∀ earlier ∈ front, test earlier = some going

theorem Tried.head {going : Bool} {item : α} : Tried test going (item :: items) item :=
  ⟨[], items, rfl, forall_mem_nil _⟩

theorem Tried.cons {going : Bool} {first item : α} (goes : test first = some going)
    (tried : Tried test going items item) : Tried test going (first :: items) item := by
  obtain ⟨front, back, rfl, going⟩ := tried
  exact ⟨first :: front, back, rfl, forall_mem_cons.2 ⟨goes, going⟩⟩

theorem Tried.mem {going : Bool} {item : α} (tried : Tried test going items item) : item ∈ items := by
  obtain ⟨front, back, rfl, _⟩ := tried
  exact mem_append_right front mem_cons_self

theorem all_m_tried (same : ∀ item, Tried test true items item → test item = test' item) :
    items.allM test = items.allM test' := by
  induction items with
  | nil => rfl
  | cons item items ih =>
    rw [allM_cons, allM_cons, ← same item .head]
    cases answer : test item with
    | none => rfl
    | some result =>
      cases result with
      | false => rfl
      | true => exact ih fun other tried => same other (tried.cons answer)

theorem all_m_congr (same : ∀ item ∈ items, test item = test' item) :
    items.allM test = items.allM test' :=
  all_m_tried fun item tried => same item tried.mem

theorem all_m_head {item : α} (done : (item :: items).allM test = some result) :
    ∃ found, test item = some found := by
  rw [allM_cons] at done
  cases answer : test item with
  | none =>
    rw [answer] at done
    cases done
  | some found => exact ⟨found, rfl⟩

theorem any_m_single (test : α → Option Bool) (item : α) : [item].anyM test = test item := by
  rw [anyM_cons]
  cases test item with
  | none => rfl
  | some result =>
    cases result with
    | false => rfl
    | true => rfl

theorem any_m_false : items.anyM test = some false ↔ ∀ item ∈ items, test item = some false := by
  induction items with
  | nil => simp
  | cons item items ih =>
    rw [anyM_cons, forall_mem_cons, ← ih]
    cases test item with
    | none => simp
    | some result =>
      cases result with
      | false => simp
      | true => simp

theorem any_m_true (held : items.anyM test = some true) :
    ∃ item ∈ items, test item = some true := by
  induction items with
  | nil => cases held
  | cons item items ih =>
    rw [anyM_cons] at held
    cases answer : test item with
    | none =>
      rw [answer] at held
      cases held
    | some result =>
      rw [answer] at held
      cases result with
      | true => exact ⟨item, mem_cons_self, answer⟩
      | false =>
        obtain ⟨other, member, answered⟩ := ih held
        exact ⟨other, mem_cons_of_mem _ member, answered⟩

theorem any_m_ends (ends : ∀ item ∈ items, ∃ result, test item = some result) :
    ∃ result, items.anyM test = some result := by
  induction items with
  | nil => exact ⟨false, rfl⟩
  | cons item items ih =>
    obtain ⟨⟨result, answer⟩, rest⟩ := forall_mem_cons.1 ends
    rw [anyM_cons, answer]
    cases result with
    | true => exact ⟨true, rfl⟩
    | false => exact ih rest

theorem any_m_mono (grows : ∀ item result, test item = some result → test' item = some result)
    (done : items.anyM test = some result) : items.anyM test' = some result := by
  induction items with
  | nil => exact done
  | cons item items ih =>
    rw [anyM_cons] at done ⊢
    cases answer : test item with
    | none =>
      rw [answer] at done
      cases done
    | some found =>
      rw [answer] at done
      rw [grows _ _ answer]
      cases found with
      | true => exact done
      | false => exact ih done

theorem any_m_tried (same : ∀ item, Tried test false items item → test item = test' item) :
    items.anyM test = items.anyM test' := by
  induction items with
  | nil => rfl
  | cons item items ih =>
    rw [anyM_cons, anyM_cons, ← same item .head]
    cases answer : test item with
    | none => rfl
    | some result =>
      cases result with
      | true => rfl
      | false => exact ih fun other tried => same other (tried.cons answer)

theorem any_m_congr (same : ∀ item ∈ items, test item = test' item) :
    items.anyM test = items.anyM test' :=
  any_m_tried fun item tried => same item tried.mem

theorem any_m_head {item : α} (done : (item :: items).anyM test = some result) :
    ∃ found, test item = some found := by
  rw [anyM_cons] at done
  cases answer : test item with
  | none =>
    rw [answer] at done
    cases done
  | some found => exact ⟨found, rfl⟩

end Tests

theorem ite_mono {α : Type} {condition : Prop} [Decidable condition]
    {first second first' second' : Option α} {result : α}
    (grows : first = some result → first' = some result)
    (growsElse : second = some result → second' = some result)
    (done : (if condition then first else second) = some result) :
    (if condition then first' else second') = some result := by
  by_cases chosen : condition
  · rw [if_pos chosen] at done ⊢
    exact grows done
  · rw [if_neg chosen] at done ⊢
    exact growsElse done

theorem map_mono {α β : Type} {first first' : Option α} {f : α → β} {result : β}
    (grows : ∀ answer, first = some answer → first' = some answer)
    (done : first.map f = some result) : first'.map f = some result := by
  obtain ⟨answer, answered, rfl⟩ := map_eq_some_iff.1 done
  rw [grows answer answered, map_some]

theorem bind_mono {α β : Type} {first first' : Option α} {next next' : α → Option β} {result : β}
    (grows : ∀ answer, first = some answer → first' = some answer)
    (growsAfter : ∀ answer, next answer = some result → next' answer = some result)
    (done : first.bind next = some result) : first'.bind next' = some result := by
  obtain ⟨answer, answered, continued⟩ := bind_eq_some_iff.1 done
  rw [grows answer answered, bind_some]
  exact growsAfter answer continued

/-- The second test decides where the first one holds. -/
def andAlso : Option Bool → Option Bool → Option Bool
  | none, _ => none
  | some false, _ => some false
  | some true, second => second

/-- The second test decides where the first one fails. -/
def orAlso : Option Bool → Option Bool → Option Bool
  | none, _ => none
  | some true, _ => some true
  | some false, second => second

section Two

variable {first second first' second' : Option Bool} {result : Bool}

@[simp]
theorem and_also_true (first : Option Bool) : andAlso first (some true) = first := by
  cases first with
  | none => rfl
  | some held =>
    cases held with
    | false => rfl
    | true => rfl

theorem and_also_some : andAlso first second = some result ↔
    (first = some false ∧ result = false) ∨ (first = some true ∧ second = some result) := by
  cases first with
  | none => simp [andAlso]
  | some held =>
    cases held with
    | false => simp [andAlso, eq_comm]
    | true => simp [andAlso]

theorem and_also_mono (grows : ∀ answer, first = some answer → first' = some answer)
    (growsAfter : ∀ answer, second = some answer → second' = some answer)
    (done : andAlso first second = some result) : andAlso first' second' = some result := by
  rw [and_also_some] at done ⊢
  rcases done with ⟨failed, isFalse⟩ | ⟨held, answered⟩
  · exact .inl ⟨grows _ failed, isFalse⟩
  · exact .inr ⟨grows _ held, growsAfter _ answered⟩

theorem or_also_false : orAlso first second = some false ↔ first = some false ∧ second = some false := by
  cases first with
  | none => simp [orAlso]
  | some held =>
    cases held with
    | false | true => simp [orAlso]

theorem or_also_mono (grows : ∀ answer, first = some answer → first' = some answer)
    (growsAfter : second = some result → second' = some result)
    (done : orAlso first second = some result) : orAlso first' second' = some result := by
  cases first with
  | none => cases done
  | some held =>
    rw [grows held rfl]
    cases held with
    | false => exact growsAfter done
    | true => exact done

/-- Two tests that have the same answer where both have one. -/
def Agree (left right : Option Bool) : Prop :=
  ∀ answer other, left = some answer → right = some other → answer = other

theorem agree_of_eq {left right : Option Bool} (same : left = right) : Agree left right := by
  intro answer other done otherDone
  rw [same, otherDone] at done
  exact (Option.some.inj done).symm

theorem agree_map {left right : Option Bool} (agree : Agree left right) (use : Bool → Bool) :
    Agree (left.map use) (right.map use) := by
  intro answer other done otherDone
  obtain ⟨found, isFound, rfl⟩ := map_eq_some_iff.1 done
  obtain ⟨otherFound, isOther, rfl⟩ := map_eq_some_iff.1 otherDone
  rw [agree _ _ isFound isOther]

theorem agree_and_also (agree : Agree first first') (agreeAfter : Agree second second') :
    Agree (andAlso first second) (andAlso first' second') := by
  intro answer other done otherDone
  rw [and_also_some] at done otherDone
  rcases done with ⟨failed, rfl⟩ | ⟨held, answered⟩
  · rcases otherDone with ⟨_, rfl⟩ | ⟨otherHeld, _⟩
    · rfl
    · cases agree _ _ failed otherHeld
  · rcases otherDone with ⟨otherFailed, _⟩ | ⟨_, otherAnswered⟩
    · cases agree _ _ held otherFailed
    · exact agreeAfter _ _ answered otherAnswered

end Two

theorem any_m_agree {α : Type} {items others : List α} {test : α → Option Bool}
    (same : ∀ item, item ∈ items ↔ item ∈ others) : Agree (items.anyM test) (others.anyM test) := by
  intro answer other done otherDone
  cases answer with
  | true =>
    obtain ⟨item, member, answer⟩ := any_m_true done
    cases other with
    | true => rfl
    | false =>
      have clash := any_m_false.1 otherDone item ((same item).1 member)
      rw [answer] at clash
      cases clash
  | false =>
    cases other with
    | false => rfl
    | true =>
      obtain ⟨item, member, answer⟩ := any_m_true otherDone
      have clash := any_m_false.1 done item ((same item).2 member)
      rw [answer] at clash
      cases clash

end Rustfs.Library.ShortCircuit
