import Mathlib.Logic.Relation

/-!
# A loop that may abort, as a run of steps

A loop over a list whose body may abort, `List.foldlM` in `Option`, is a run of its body: it
reaches its last state by one step for each element in turn. `foldlM_reflTransGen` turns a
relation that every step is into one between the first and the last state of the loop, and
`foldlM_of_mem` cuts the loop's run at the step of one element, so that what that step does
can be stated between what the steps before and after it keep.
-/

namespace DingoFs.Lib

variable {σ α : Type*} {f : σ → α → Option σ} {R : σ → σ → Prop} {l : List α}

/-- A loop whose every step is an `R`-step is a run of `R`. -/
theorem foldlM_reflTransGen (hstep : ∀ a ∈ l, ∀ s s', f s a = some s' → R s s') :
    ∀ {s s' : σ}, l.foldlM f s = some s' → Relation.ReflTransGen R s s' := by
  induction l with
  | nil =>
    intro s s' h
    cases h
    exact .refl
  | cons a l ih =>
    intro s s' h
    rw [List.foldlM_cons] at h
    obtain ⟨s₁, h₁, hrest⟩ := Option.bind_eq_some_iff.mp h
    have hhead : R s s₁ := hstep a List.mem_cons_self s s₁ h₁
    exact .head hhead (ih (fun b hb => hstep b (List.mem_cons_of_mem a hb)) hrest)

/-- The run of a loop that ends passes through the step of each element. -/
theorem foldlM_of_mem (hstep : ∀ a ∈ l, ∀ s s', f s a = some s' → R s s') {a : α} (ha : a ∈ l)
    {s s' : σ} (h : l.foldlM f s = some s') :
    ∃ s₁ s₂, Relation.ReflTransGen R s s₁ ∧ f s₁ a = some s₂ ∧ Relation.ReflTransGen R s₂ s' := by
  obtain ⟨l₁, l₂, rfl⟩ := List.append_of_mem ha
  rw [List.foldlM_append] at h
  obtain ⟨s₁, h₁, h₂⟩ := Option.bind_eq_some_iff.mp h
  rw [List.foldlM_cons] at h₂
  obtain ⟨s₂, h₃, h₄⟩ := Option.bind_eq_some_iff.mp h₂
  refine ⟨s₁, s₂, foldlM_reflTransGen ?_ h₁, h₃, foldlM_reflTransGen ?_ h₄⟩
  · exact fun b hb => hstep b (List.mem_append_left _ hb)
  · exact fun b hb => hstep b (List.mem_append_right _ (List.mem_cons_of_mem a hb))

end DingoFs.Lib
