import Passhrs.Lib.Program

/-!
# Loops that visit each key once

A loop over the entries of a map: the round on an entry reads and changes the state at the entry's
own key only. What the state shows at a key is a `view` of it.

* **`exec_forM_sweep`**: after a loop that succeeds, every key that was visited is as a round on
  it leaves it, and every other key is as it was at the start.
-/

namespace Effects

section Sweep

variable {F : Type} {R : F → Type} {σ ε α κ β : Type} {h : Handler F R σ}
  {view : σ → κ → β} {key : α → κ} {Done : α → β → Prop} {s₀ : σ}

/-- The entries of `done` have been visited. -/
structure Swept (view : σ → κ → β) (key : α → κ) (Done : α → β → Prop) (s₀ : σ) (done : List α)
    (s : σ) : Prop where
  visited : ∀ x ∈ done, Done x (view s (key x))
  other : ∀ k, k ∉ done.map key → view s k = view s₀ k

theorem Swept.start : Swept view key Done s₀ [] s₀ :=
  ⟨fun _ hx => absurd hx List.not_mem_nil, fun _ _ => rfl⟩

/-- An entry that comes next has not been visited. -/
theorem key_not_mem_of_nodup {l done rest : List α} {x : α} (hnodup : (l.map key).Nodup)
    (hl : l = done ++ x :: rest) : key x ∉ done.map key := by
  rw [hl, List.map_append, List.map_cons] at hnodup
  exact fun hmem => (List.nodup_append.mp hnodup).2.2 _ hmem _ List.mem_cons_self rfl

/-- A round on a key that has not been visited. -/
theorem Swept.next {done : List α} {s s' : σ} {x : α} (hs : Swept view key Done s₀ done s)
    (hx : key x ∉ done.map key) (hdone : Done x (view s' (key x)))
    (hother : ∀ k, k ≠ key x → view s' k = view s k) :
    Swept view key Done s₀ (done ++ [x]) s' := by
  refine ⟨fun y hy => ?_, fun k hk => ?_⟩
  · rcases List.mem_append.mp hy with hy | hy
    · have hne : key y ≠ key x := fun heq => hx (heq ▸ List.mem_map_of_mem hy)
      rw [hother _ hne]
      exact hs.visited y hy
    · rw [List.mem_singleton.mp hy]
      exact hdone
  · rw [List.map_append, List.mem_append, not_or] at hk
    rw [hother k (by simpa using hk.2), hs.other k hk.1]

/-- The rule for a loop that succeeds. `K` is what every round keeps. -/
theorem exec_forM_sweep (view : σ → κ → β) (key : α → κ) (Done : α → β → Prop) {K : σ → Prop}
    {f : α → Action F R ε PUnit} {l : List α} {s' : σ} (hnodup : (l.map key).Nodup)
    (hround : ∀ x ∈ l, ∀ s s', K s → view s (key x) = view s₀ (key x) →
      exec h (f x) s = (.ok (), s') →
      K s' ∧ Done x (view s' (key x)) ∧ ∀ k, k ≠ key x → view s' k = view s k)
    (hK : K s₀) (hrun : exec h (forM l f) s₀ = (.ok (), s')) :
    K s' ∧ Swept view key Done s₀ l s' := by
  refine exec_forM_eq_ok (I := fun done s => K s ∧ Swept view key Done s₀ done s)
    (fun done x rest s s' hl hs hexec => ?_) ⟨hK, .start⟩ hrun
  have hx := key_not_mem_of_nodup hnodup hl
  obtain ⟨hK', hdone, hother⟩ :=
    hround x (hl ▸ by simp) s s' hs.1 (hs.2.other _ hx) hexec
  exact ⟨hK', hs.2.next hx hdone hother⟩

end Sweep

end Effects
