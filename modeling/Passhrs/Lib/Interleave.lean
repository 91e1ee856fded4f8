import Passhrs.Lib.Machine

/-!
# Machines side by side

Two machines that share nothing, run on one schedule of both their events.

* **`run_beside_iff`**: a schedule is a run exactly when each machine runs on its own events of it,
  whatever the order between the two.
-/

universe u v

namespace Machine

variable {σ₁ σ₂ : Type u} {ε₁ ε₂ : Type v} {step₁ : σ₁ → ε₁ → Option σ₁}
  {step₂ : σ₂ → ε₂ → Option σ₂}

/-- An event is one machine's, and the other one stays where it is. -/
def beside (step₁ : σ₁ → ε₁ → Option σ₁) (step₂ : σ₂ → ε₂ → Option σ₂) (s : σ₁ × σ₂) :
    ε₁ ⊕ ε₂ → Option (σ₁ × σ₂)
  | .inl e => (step₁ s.1 e).map fun t => (t, s.2)
  | .inr e => (step₂ s.2 e).map fun t => (s.1, t)

theorem run_beside_iff {s t : σ₁ × σ₂} {events : List (ε₁ ⊕ ε₂)} :
    run (beside step₁ step₂) s events = some t ↔
      run step₁ s.1 (events.filterMap Sum.getLeft?) = some t.1 ∧
        run step₂ s.2 (events.filterMap Sum.getRight?) = some t.2 := by
  induction events generalizing s with
  | nil =>
    show some s = some t ↔ some s.1 = some t.1 ∧ some s.2 = some t.2
    rw [Option.some.injEq, Option.some.injEq, Option.some.injEq, Prod.ext_iff]
  | cons e events ih =>
    cases e with
    | inl e =>
      show run _ s (.inl e :: events) = some t ↔
        run step₁ s.1 (e :: events.filterMap Sum.getLeft?) = some t.1 ∧ _
      rw [run_cons_eq_some, run_cons_eq_some]
      constructor
      · rintro ⟨m, hstep, hrest⟩
        obtain ⟨t₁, ht₁, rfl⟩ := Option.map_eq_some_iff.mp hstep
        obtain ⟨hleft, hright⟩ := ih.mp hrest
        exact ⟨⟨t₁, ht₁, hleft⟩, hright⟩
      · rintro ⟨⟨t₁, ht₁, hleft⟩, hright⟩
        exact ⟨(t₁, s.2), congrArg (Option.map _) ht₁, ih.mpr ⟨hleft, hright⟩⟩
    | inr e =>
      show run _ s (.inr e :: events) = some t ↔
        _ ∧ run step₂ s.2 (e :: events.filterMap Sum.getRight?) = some t.2
      rw [run_cons_eq_some, run_cons_eq_some]
      constructor
      · rintro ⟨m, hstep, hrest⟩
        obtain ⟨t₂, ht₂, rfl⟩ := Option.map_eq_some_iff.mp hstep
        obtain ⟨hleft, hright⟩ := ih.mp hrest
        exact ⟨hleft, t₂, ht₂, hright⟩
      · rintro ⟨hleft, t₂, ht₂, hright⟩
        exact ⟨(s.1, t₂), congrArg (Option.map _) ht₂, ih.mpr ⟨hleft, hright⟩⟩

end Machine
