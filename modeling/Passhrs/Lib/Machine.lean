import Mathlib.Data.List.Induction

/-!
# Runs of an event machine

A machine is a step function that accepts or refuses an event. Its runs are read with the events
that led to a state, so that an invariant can speak of what has happened so far.

* **`run_invariant`**: the invariant rule over histories.
* **`run_simulation`**: the rule for two machines over one schedule.
* **`run_length_le`**: a machine that goes down at every step has no long runs.
* **`exists_first_of_run`**: what holds only at the end was brought about by a step.
* **`eachStep_rule`**: what each step does, from an invariant and a condition on the steps.
* **`always_iff_eachStep`**: when a step keeps `P` exactly under `C`, a run keeps `P` throughout
  exactly when each of its steps meets `C`.
* **`run_trace`**: the rule for a machine that follows what is seen of another one.
-/

universe u v w

namespace Machine

variable {σ : Type u} {ε : Type v} {step : σ → ε → Option σ} {s t : σ}

/-- The state after a list of events, if each one is accepted. -/
def run (step : σ → ε → Option σ) (s : σ) (events : List ε) : Option σ :=
  events.foldlM step s

/-- No event is accepted. -/
def Stuck (step : σ → ε → Option σ) (s : σ) : Prop := ∀ e, step s e = none

theorem run_append_eq_some {events events' : List ε} :
    run step s (events ++ events') = some t ↔
      ∃ m, run step s events = some m ∧ run step m events' = some t := by
  unfold run
  rw [List.foldlM_append]
  exact Option.bind_eq_some_iff

theorem run_cons_eq_some {e : ε} {events : List ε} :
    run step s (e :: events) = some t ↔ ∃ m, step s e = some m ∧ run step m events = some t := by
  unfold run
  rw [List.foldlM_cons]
  exact Option.bind_eq_some_iff

theorem run_concat_eq_some {events : List ε} {e : ε} :
    run step s (events ++ [e]) = some t ↔ ∃ m, run step s events = some m ∧ step m e = some t := by
  have hone : ∀ m, run step m [e] = step m e := fun m => bind_pure (step m e)
  simp only [run_append_eq_some, hone]

/-- What holds of the start with no events, and is kept by a step together with its event, holds
of every state reached with the events that reach it. -/
theorem run_invariant {I : List ε → σ → Prop} (start : I [] s)
    (next : ∀ events t e t', I events t → step t e = some t' → I (events ++ [e]) t')
    {events : List ε} (hrun : run step s events = some t) : I events t := by
  induction events using List.reverseRecOn generalizing t with
  | nil =>
    cases hrun
    exact start
  | append_singleton events e ih =>
    obtain ⟨m, hm, hstep⟩ := run_concat_eq_some.mp hrun
    exact next events m e t (ih hm) hstep

/-- A second machine follows the first over the same events, when it can follow every step. -/
theorem run_simulation {τ : Type*} {step' : τ → ε → Option τ} {R : List ε → σ → τ → Prop} {s' : τ}
    (start : R [] s s')
    (next : ∀ events a e a' b, R events a b → step a e = some a' →
      ∃ b', step' b e = some b' ∧ R (events ++ [e]) a' b')
    {events : List ε} (hrun : run step s events = some t) :
    ∃ t', run step' s' events = some t' ∧ R events t t' := by
  refine run_invariant (I := fun events t => ∃ t', run step' s' events = some t' ∧ R events t t')
    ⟨s', rfl, start⟩ ?_ hrun
  rintro events a e a' ⟨b, hb, hR⟩ hstep
  obtain ⟨b', hstep', hR'⟩ := next events a e a' b hR hstep
  exact ⟨b', run_concat_eq_some.mpr ⟨b, hb, hstep'⟩, hR'⟩

theorem run_length_le {μ : σ → ℕ} (down : ∀ s e s', step s e = some s' → μ s' < μ s)
    {events : List ε} (hrun : run step s events = some t) : events.length + μ t ≤ μ s := by
  have hkept : ∀ (events : List ε) t e t', events.length + μ t ≤ μ s → step t e = some t' →
      (events ++ [e]).length + μ t' ≤ μ s := by
    intro events t e t' hle hstep
    have hlt := down t e t' hstep
    rw [List.length_append, List.length_singleton]
    omega
  exact run_invariant (by simp) hkept hrun

/-- When `P` fails at the start and holds at the end, one step of the run brings it about for the
first time. -/
theorem exists_first_of_run {P : σ → Prop} (hs : ¬ P s) {events : List ε}
    (hrun : run step s events = some t) (ht : P t) :
    ∃ pre e post m m', events = pre ++ e :: post ∧ run step s pre = some m ∧ ¬ P m ∧
      step m e = some m' ∧ P m' ∧ run step m' post = some t := by
  induction events generalizing s with
  | nil =>
    cases hrun
    exact absurd ht hs
  | cons e events ih =>
    obtain ⟨m, hstep, hrest⟩ := run_cons_eq_some.mp hrun
    by_cases hP : P m
    · exact ⟨[], e, events, s, m, rfl, rfl, hs, hstep, hP, hrest⟩
    · obtain ⟨pre, e', post, m₁, m₂, rfl, hpre, hrest'⟩ := ih hP hrest
      exact ⟨e :: pre, e', post, m₁, m₂, rfl, run_cons_eq_some.mpr ⟨m, hstep, hpre⟩, hrest'⟩

/-! ## Throughout a run -/

/-- `P` holds of every state that the events lead through. -/
def Always (step : σ → ε → Option σ) (P : σ → Prop) (s : σ) (events : List ε) : Prop :=
  ∀ pre post t, events = pre ++ post → run step s pre = some t → P t

/-- Every event meets `C` in the state that it finds. -/
def EachStep (step : σ → ε → Option σ) (C : σ → ε → Prop) (s : σ) (events : List ε) : Prop :=
  ∀ pre e post t, events = pre ++ e :: post → run step s pre = some t → C t e

variable {P I : σ → Prop} {C : σ → ε → Prop}

theorem always_nil : Always step P s [] ↔ P s := by
  constructor
  · exact fun h => h [] [] s rfl rfl
  · intro h pre post t heq hrun
    obtain ⟨rfl, rfl⟩ := List.append_eq_nil_iff.mp heq.symm
    cases hrun
    exact h

theorem always_cons {e : ε} {events : List ε} (hstep : step s e = some t) :
    Always step P s (e :: events) ↔ P s ∧ Always step P t events := by
  constructor
  · intro h
    refine ⟨h [] _ s rfl rfl, fun pre post t' heq hrun => ?_⟩
    exact h (e :: pre) post t' (by rw [heq]; rfl) (run_cons_eq_some.mpr ⟨t, hstep, hrun⟩)
  · rintro ⟨hs, ht⟩ (_ | ⟨e', pre⟩) post t' heq hrun
    · cases hrun
      exact hs
    · obtain ⟨rfl, rfl⟩ := List.cons.inj heq
      obtain ⟨m, hm, hrest⟩ := run_cons_eq_some.mp hrun
      obtain rfl := Option.some.inj (hstep.symm.trans hm)
      exact ht pre post t' rfl hrest

theorem eachStep_cons {e : ε} {events : List ε} (hstep : step s e = some t) :
    EachStep step C s (e :: events) ↔ C s e ∧ EachStep step C t events := by
  constructor
  · intro h
    refine ⟨h [] e _ s rfl rfl, fun pre e' post t' heq hrun => ?_⟩
    exact h (e :: pre) e' post t' (by rw [heq]; rfl) (run_cons_eq_some.mpr ⟨t, hstep, hrun⟩)
  · rintro ⟨hs, ht⟩ (_ | ⟨e', pre⟩) e'' post t' heq hrun
    · cases hrun
      cases heq
      exact hs
    · obtain ⟨rfl, rfl⟩ := List.cons.inj heq
      obtain ⟨m, hm, hrest⟩ := run_cons_eq_some.mp hrun
      obtain rfl := Option.some.inj (hstep.symm.trans hm)
      exact ht pre e'' post t' rfl hrest

theorem EachStep.mono {C' : σ → ε → Prop} {events : List ε} (h : EachStep step C s events)
    (hC : ∀ s e, C s e → C' s e) : EachStep step C' s events :=
  fun pre e post t heq hrun => hC t e (h pre e post t heq hrun)

theorem eachStep_nil : EachStep step C s [] := fun pre e post t heq _ => by simp at heq

/-- Where the run ends early, what comes after does not matter. -/
theorem eachStep_cons_of_none {e : ε} {events : List ε} (hstep : step s e = none) :
    EachStep step C s (e :: events) ↔ C s e := by
  constructor
  · exact fun h => h [] e events s rfl rfl
  · rintro h (_ | ⟨e', pre⟩) e'' post t heq hrun
    · cases hrun
      cases heq
      exact h
    · obtain ⟨rfl, rfl⟩ := List.cons.inj heq
      obtain ⟨m, hm, -⟩ := run_cons_eq_some.mp hrun
      rw [hstep] at hm
      cases hm

/-- A run can be checked step by step. -/
def EachStep.decide (step : σ → ε → Option σ) (C : σ → ε → Prop) [∀ s e, Decidable (C s e)] :
    ∀ s events, Decidable (EachStep step C s events)
  | _, [] => isTrue eachStep_nil
  | s, e :: events =>
    match hstep : step s e with
    | none => decidable_of_iff (C s e) (eachStep_cons_of_none hstep).symm
    | some t =>
      have := EachStep.decide step C t events
      decidable_of_iff (C s e ∧ EachStep step C t events) (eachStep_cons hstep).symm

instance [∀ s e, Decidable (C s e)] {events : List ε} : Decidable (EachStep step C s events) :=
  EachStep.decide step C s events

/-- Where every step meets `C`, the invariant holds throughout, and with it what a step does. -/
theorem eachStep_rule {D : σ → ε → Prop} (start : I s)
    (next : ∀ s e s', I s → C s e → step s e = some s' → D s e ∧ I s')
    {events : List ε} (hrun : run step s events = some t) (hC : EachStep step C s events) :
    EachStep step D s events ∧ I t := by
  induction events generalizing s with
  | nil =>
    cases hrun
    exact ⟨fun pre e post t' heq _ => by simp at heq, start⟩
  | cons e events ih =>
    obtain ⟨m, hstep, hrest⟩ := run_cons_eq_some.mp hrun
    obtain ⟨hCe, hCrest⟩ := (eachStep_cons hstep).mp hC
    obtain ⟨hD, hm⟩ := next s e m start hCe hstep
    obtain ⟨hDrest, ht⟩ := ih hm hrest hCrest
    exact ⟨(eachStep_cons hstep).mpr ⟨hD, hDrest⟩, ht⟩

/-- The exact rule for a property of every state: among the states of an invariant, `C` is what it
takes for a step to keep `P`. -/
theorem always_iff_eachStep (start : I s) (holds : P s)
    (next : ∀ s e s', I s → step s e = some s' → I s')
    (keeps : ∀ s e s', I s → P s → step s e = some s' → (P s' ↔ C s e))
    {events : List ε} (hrun : run step s events = some t) :
    Always step P s events ↔ EachStep step C s events := by
  induction events generalizing s with
  | nil =>
    exact iff_of_true (always_nil.mpr holds) eachStep_nil
  | cons e events ih =>
    obtain ⟨m, hstep, hrest⟩ := run_cons_eq_some.mp hrun
    rw [always_cons hstep, eachStep_cons hstep]
    have hkeeps := keeps s e m start holds hstep
    constructor
    · rintro ⟨-, hm⟩
      have hP : P m := hm [] _ m rfl rfl
      exact ⟨hkeeps.mp hP, (ih (next s e m start hstep) hP hrest).mp hm⟩
    · rintro ⟨hC, hm⟩
      exact ⟨holds, (ih (next s e m start hstep) (hkeeps.mpr hC) hrest).mpr hm⟩

/-! ## What is seen of a run -/

/-- What is seen of the steps of a run, where a step may go unseen. -/
def trace {ω : Type w} (step : σ → ε → Option σ) (seen : σ → ε → Option ω) (s : σ) :
    List ε → List ω
  | [] => []
  | e :: events =>
    (seen s e).toList ++ ((step s e).map fun t => trace step seen t events).getD []

/-- A machine that can follow what is seen of every step follows what is seen of the run. -/
theorem run_trace {τ : Type*} {ω : Type w} {step' : τ → ω → Option τ} {seen : σ → ε → Option ω}
    {R : σ → τ → Prop}
    (next : ∀ s e t a, R s a → step s e = some t →
      ∃ b, run step' a (seen s e).toList = some b ∧ R t b)
    {a : τ} (hs : R s a) {events : List ε} (hrun : run step s events = some t) :
    ∃ b, run step' a (trace step seen s events) = some b ∧ R t b := by
  induction events generalizing s a with
  | nil =>
    cases hrun
    exact ⟨a, rfl, hs⟩
  | cons e events ih =>
    obtain ⟨m, hstep, hrest⟩ := run_cons_eq_some.mp hrun
    obtain ⟨b, hb, hm⟩ := next s e m a hs hstep
    obtain ⟨b', hb', ht⟩ := ih hm hrest
    refine ⟨b', ?_, ht⟩
    rw [trace, hstep, Option.map_some, Option.getD_some]
    exact run_append_eq_some.mpr ⟨b, hb, hb'⟩

end Machine
