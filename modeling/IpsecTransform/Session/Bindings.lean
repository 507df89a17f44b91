namespace IpsecTransform

/-- What is bound to labels, the latest binding of a label first. -/
structure Bindings (Value : Type) where
  entries : List (String × Value)

namespace Bindings

variable {Value : Type}

def empty : Bindings Value := ⟨[]⟩

def get? (bindings : Bindings Value) (label : String) : Option Value :=
  bindings.entries.lookup label

def drop (bindings : Bindings Value) (label : String) : Bindings Value :=
  ⟨bindings.entries.filter fun entry => entry.1 != label⟩

def bind (bindings : Bindings Value) (label : String) (value : Value) : Bindings Value :=
  ⟨(label, value) :: (bindings.drop label).entries⟩

@[simp] theorem get?_empty (label : String) :
    (empty : Bindings Value).get? label = none := rfl

private theorem lookup_cons_eq_ite (bound other : String) (value : Value)
    (entries : List (String × Value)) :
    ((bound, value) :: entries).lookup other =
      if other = bound then some value else entries.lookup other := by
  rw [List.lookup_cons]
  by_cases hother : other = bound
  · simp [hother]
  · rw [beq_eq_false_iff_ne.mpr hother, if_neg hother]

@[simp] theorem get?_drop (bindings : Bindings Value) (label other : String) :
    (bindings.drop label).get? other =
      if other = label then none else bindings.get? other := by
  rcases bindings with ⟨entries⟩
  simp only [get?, drop]
  induction entries with
  | nil => simp
  | cons entry entries ih =>
      rcases entry with ⟨bound, value⟩
      rw [lookup_cons_eq_ite]
      by_cases hbound : bound = label
      · rw [List.filter_cons_of_neg (by simp [hbound]), ih]
        by_cases hother : other = label
        · simp [hother]
        · simp [hother, hbound]
      · rw [List.filter_cons_of_pos (by simp [hbound]), lookup_cons_eq_ite, ih]
        by_cases hother : other = label
        · simp [hother, Ne.symm hbound]
        · simp [hother]

@[simp] theorem get?_bind (bindings : Bindings Value) (label other : String) (value : Value) :
    (bindings.bind label value).get? other =
      if other = label then some value else bindings.get? other := by
  have hdrop := get?_drop bindings label other
  simp only [get?, bind] at hdrop ⊢
  rw [lookup_cons_eq_ite, hdrop]
  by_cases hother : other = label
  · simp [hother]
  · simp [hother]

theorem get?_drop_eq_some_iff {bindings : Bindings Value} {label other : String} {found : Value} :
    (bindings.drop label).get? other = some found ↔
      other ≠ label ∧ bindings.get? other = some found := by
  rw [get?_drop]
  by_cases hother : other = label
  · simp [hother]
  · simp [hother]

theorem get?_bind_eq_some_iff {bindings : Bindings Value} {label other : String}
    {value found : Value} :
    (bindings.bind label value).get? other = some found ↔
      (other = label ∧ value = found) ∨ (other ≠ label ∧ bindings.get? other = some found) := by
  rw [get?_bind]
  by_cases hother : other = label
  · simp [hother]
  · simp [hother]

end Bindings

end IpsecTransform
