import Mathlib.Data.List.Infix

/-!
# Searching joined text

A search in parts that are joined with a separator finds what a search in one of the parts finds,
when the word that is searched for cannot reach over the separator.

* **`infix_intercalate_iff`**: for a word that stands alone.
-/

namespace Search

variable {α : Type}

/-- The word does not hold the character `c` of the separator, and neither begins nor ends with any
character of it. -/
structure Standalone (c : α) (sep word : List α) : Prop where
  ne_nil : word ≠ []
  mem : c ∈ sep
  notMem : c ∉ word
  head : ∀ a ∈ word.head?.toList, a ∉ sep
  last : ∀ a ∈ word.getLast?.toList, a ∉ sep

instance [DecidableEq α] (c : α) (sep word : List α) : Decidable (Standalone c sep word) :=
  decidable_of_iff (word ≠ [] ∧ c ∈ sep ∧ c ∉ word ∧ (∀ a ∈ word.head?.toList, a ∉ sep) ∧
      ∀ a ∈ word.getLast?.toList, a ∉ sep)
    ⟨fun ⟨h₁, h₂, h₃, h₄, h₅⟩ => ⟨h₁, h₂, h₃, h₄, h₅⟩,
      fun ⟨h₁, h₂, h₃, h₄, h₅⟩ => ⟨h₁, h₂, h₃, h₄, h₅⟩⟩

variable {c : α} {sep word xs ys : List α}

/-- A word without `c` is on one side of it. -/
theorem infix_cons_of_notMem (hc : c ∉ word) (h : word <:+: xs ++ c :: ys) :
    word <:+: xs ∨ word <:+: ys := by
  rcases List.infix_append_iff_ne_nil.mp h with hxs | hys | ⟨l₁, l₂, -, hne, rfl, -, hpre⟩
  · exact .inl hxs
  · rcases List.infix_cons_iff.mp hys with hpre | hys
    · cases word with
      | nil => exact .inr List.nil_infix
      | cons a word =>
        rw [(List.cons_prefix_cons.mp hpre).1] at hc
        exact absurd List.mem_cons_self hc
    · exact .inr hys
  · -- the part behind the left side begins with `c`
    obtain ⟨a, l₂, rfl⟩ := List.exists_cons_of_ne_nil hne
    rw [(List.cons_prefix_cons.mp hpre).1] at hc
    exact absurd (List.mem_append_right _ List.mem_cons_self) hc

theorem infix_append_of_last (hne : word ≠ []) (hlast : word.getLast hne ∉ ys)
    (h : word <:+: xs ++ ys) : word <:+: xs := by
  rcases List.infix_append_iff_ne_nil.mp h with hxs | hys | ⟨l₁, l₂, -, hne₂, rfl, -, hpre⟩
  · exact hxs
  · exact absurd (hys.subset (List.getLast_mem hne)) hlast
  · rw [List.getLast_append_of_ne_nil _ hne₂] at hlast
    exact absurd (hpre.subset (List.getLast_mem hne₂)) hlast

theorem infix_append_of_head (hne : word ≠ []) (hhead : word.head hne ∉ xs)
    (h : word <:+: xs ++ ys) : word <:+: ys := by
  rcases List.infix_append_iff_ne_nil.mp h with hxs | hys | ⟨l₁, l₂, hne₁, -, rfl, hsuffix, -⟩
  · exact absurd (hxs.subset (List.head_mem hne)) hhead
  · exact hys
  · rw [List.head_append_of_ne_nil hne₁] at hhead
    exact absurd (hsuffix.subset (List.head_mem hne₁)) hhead

theorem infix_separated_iff (hword : Standalone c sep word) :
    word <:+: xs ++ sep ++ ys ↔ word <:+: xs ∨ word <:+: ys := by
  constructor
  · intro h
    obtain ⟨front, back, rfl⟩ := List.append_of_mem hword.mem
    have hne := hword.ne_nil
    have hlast : word.getLast hne ∉ front := fun hmem =>
      hword.last _ (by rw [List.getLast?_eq_some_getLast hne]; simp) (List.mem_append_left _ hmem)
    have hhead : word.head hne ∉ back := fun hmem =>
      hword.head _ (by rw [List.head?_eq_some_head hne]; simp)
        (List.mem_append_right _ (List.mem_cons_of_mem _ hmem))
    have hcut : word <:+: (xs ++ front) ++ c :: (back ++ ys) := by
      simpa only [List.append_assoc, List.cons_append] using h
    rcases infix_cons_of_notMem hword.notMem hcut with hxs | hys
    · exact .inl (infix_append_of_last hne hlast hxs)
    · exact .inr (infix_append_of_head hne hhead hys)
  · rintro (h | h)
    · rw [List.append_assoc]
      exact List.infix_append_of_infix_left h
    · exact List.infix_append_of_infix_right h

/-- **A search in joined parts** finds what one of them holds. -/
theorem infix_intercalate_iff (hword : Standalone c sep word) (parts : List (List α)) :
    word <:+: sep.intercalate parts ↔ ∃ part ∈ parts, word <:+: part := by
  induction parts with
  | nil => simp [hword.ne_nil]
  | cons part parts ih =>
    cases parts with
    | nil => simp
    | cons next parts =>
      rw [List.intercalate_cons_cons, infix_separated_iff hword, ih]
      simp

end Search
