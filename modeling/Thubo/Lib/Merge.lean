import Mathlib.Data.List.Forall2
import Mathlib.Logic.Function.Basic

/-!
# Lists merged by a key

A list is split by a key into its sublists of one key each.  When every such
sublist is taken from a list that is related to another one, the merged list
is related to a merged list of the other side.
-/

namespace Thubo
namespace Merge

variable {α β κ : Type} {relation : α → β → Prop}

/-- The element related to a given one, and what is related around it. -/
theorem forall₂_split {front back : List α} {a : α} {right : List β}
    (related : List.Forall₂ relation (front ++ a :: back) right) :
    ∃ front' b back', right = front' ++ b :: back' ∧ relation a b ∧
      List.Forall₂ relation back back' := by
  induction front generalizing right with
  | nil =>
      rcases List.forall₂_cons_left_iff.1 related with
        ⟨b, back', here, rest, rfl⟩
      exact ⟨[], b, back', rfl, here, rest⟩
  | cons first front hypothesis =>
      rcases List.forall₂_cons_left_iff.1 related with
        ⟨b, right', here, rest, rfl⟩
      rcases hypothesis rest with ⟨front', c, back', rfl, found, later⟩
      exact ⟨b :: front', c, back', rfl, found, later⟩

variable [DecidableEq κ] {key : α → κ} {key' : β → κ}

/-- The sublists of a key are related when the lists are. -/
theorem forall₂_filter
    (agree : ∀ a b, relation a b → key a = key' b) {left : List α}
    {right : List β} (related : List.Forall₂ relation left right) (k : κ) :
    List.Forall₂ relation (left.filter fun a => key a = k)
      (right.filter fun b => key' b = k) := by
  induction related with
  | nil => exact .nil
  | @cons a b left right here later hypothesis =>
      have same := agree a b here
      by_cases selected : key a = k
      · have selected' : key' b = k := same ▸ selected
        simpa [selected, selected'] using And.intro here hypothesis
      · have selected' : key' b ≠ k := same ▸ selected
        simpa [selected, selected'] using hypothesis

/--
A merge of sublists of `lists` is related to a merge of sublists of the lists
related to them.
-/
theorem exists_related
    (agree : ∀ a b, relation a b → key a = key' b) {merged : List α}
    {lists : κ → List α} {lists' : κ → List β}
    (related : ∀ k, List.Forall₂ relation (lists k) (lists' k))
    (selected : ∀ k,
      (merged.filter fun a => key a = k).Sublist (lists k)) :
    ∃ merged', List.Forall₂ relation merged merged' ∧
      ∀ k, (merged'.filter fun b => key' b = k).Sublist (lists' k) := by
  induction merged generalizing lists lists' with
  | nil => exact ⟨[], .nil, fun k => List.nil_sublist _⟩
  | cons a merged hypothesis =>
      have own := selected (key a)
      rw [List.filter_cons_of_pos (by simp),
        List.cons_sublist_iff] at own
      rcases own with ⟨before, later, split, member, rest⟩
      rcases List.append_of_mem member with ⟨front, back, rfl⟩
      have whole : lists (key a) = front ++ a :: (back ++ later) := by
        rw [split]
        simp
      have relatedOwn := related (key a)
      rw [whole] at relatedOwn
      rcases forall₂_split relatedOwn with
        ⟨front', b, back', split', here, relatedLater⟩
      have relatedAll : ∀ k, List.Forall₂ relation
          (Function.update lists (key a) (back ++ later) k)
          (Function.update lists' (key a) back' k) := by
        intro k
        by_cases same : k = key a
        · cases same
          rwa [Function.update_self, Function.update_self]
        · rw [Function.update_of_ne same, Function.update_of_ne same]
          exact related k
      have selectedAll : ∀ k, (merged.filter fun a => key a = k).Sublist
          (Function.update lists (key a) (back ++ later) k) := by
        intro k
        by_cases same : k = key a
        · cases same
          rw [Function.update_self]
          exact rest.trans (List.sublist_append_right _ _)
        · rw [Function.update_of_ne same]
          have others := selected k
          rwa [List.filter_cons_of_neg (by simpa using Ne.symm same)]
            at others
      rcases hypothesis relatedAll selectedAll with
        ⟨merged', relatedMerged, taken⟩
      refine ⟨b :: merged', .cons here relatedMerged, ?_⟩
      intro k
      have takenHere := taken k
      by_cases same : k = key a
      · cases same
        rw [Function.update_self] at takenHere
        rw [List.filter_cons_of_pos (by simp [agree a b here]), split']
        exact (takenHere.cons_cons b).trans (List.sublist_append_right _ _)
      · rw [Function.update_of_ne same] at takenHere
        rwa [List.filter_cons_of_neg (by
          rw [← agree a b here]
          simpa using Ne.symm same)]

end Merge
end Thubo
