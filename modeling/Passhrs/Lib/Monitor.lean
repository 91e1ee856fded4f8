import Passhrs.Lib.Machine
import Passhrs.Lib.Program

/-!
# Programs and monitors

A monitor is a machine whose events are operations with their answers. It keeps no book of what an
operation does; it says which operation may come next, given what has been answered so far.

* **`Obeys`**: the monitor accepts every operation that the program can issue, whatever the
  answers, and it ends in `Q` with a result and in `E` with an error. The rules are those of a
  program logic: one for each way in which programs are put together.
* **`Obeys.run`**: the log of every run of such a program is a run of the monitor.
* **`Obeys.recorded`**: with the monitor that accepts everything and keeps the operations of one
  kind, what such a program has done of them when it ends.
-/

namespace Effects

variable {F : Type} {R : F → Type} {τ ε α β : Type}

/-- What becomes of the monitor's state with an operation and its answer. -/
abbrev Monitor (F : Type) (R : F → Type) (τ : Type) : Type := τ → (f : F) × R f → Option τ

/-- Every operation of the program is accepted, from the state `t` on, and `Q` holds at the end. -/
def Prog.Obeys (m : Monitor F R τ) (Q : α → τ → Prop) : Prog F R α → τ → Prop
  | .pure a, t => Q a t
  | .op f k, t => ∀ r, ∃ t', m t ⟨f, r⟩ = some t' ∧ Prog.Obeys m Q (k r) t'

namespace Prog

variable {m : Monitor F R τ}

theorem Obeys.mono {Q Q' : α → τ → Prop} {p : Prog F R α} {t : τ} (hp : Obeys m Q p t)
    (h : ∀ a t, Q a t → Q' a t) : Obeys m Q' p t := by
  induction p generalizing t with
  | pure a => exact h a t hp
  | op f k ih =>
    intro r
    obtain ⟨t', hstep, hrest⟩ := hp r
    exact ⟨t', hstep, ih r hrest⟩

theorem obeys_bind {Q : α → τ → Prop} {Q' : β → τ → Prop} {p : Prog F R α}
    {g : α → Prog F R β} {t : τ} (hp : Obeys m Q p t)
    (hg : ∀ a t, Q a t → Obeys m Q' (g a) t) : Obeys m Q' (p >>= g) t := by
  show Obeys m Q' (p.bind g) t
  induction p generalizing t with
  | pure a => exact hg a t hp
  | op f k ih =>
    intro r
    obtain ⟨t', hstep, hrest⟩ := hp r
    exact ⟨t', hstep, ih r hrest⟩

theorem Obeys.run {Q : α → τ → Prop} {σ : Type} (h : Handler F R σ) {p : Prog F R α} {t : τ}
    (hp : Obeys m Q p t) (s : σ) :
    ∃ t', Machine.run m t (log h p s) = some t' ∧ Q (Prog.run h p s).1 t' := by
  induction p generalizing t s with
  | pure a => exact ⟨t, rfl, hp⟩
  | op f k ih =>
    obtain ⟨t₁, hstep, hrest⟩ := hp (h f s).1
    obtain ⟨t', hrun, hQ⟩ := ih (h f s).1 hrest (h f s).2
    exact ⟨t', Machine.run_cons_eq_some.mpr ⟨t₁, hstep, hrun⟩, hQ⟩

end Prog

/-- `Obeys` for a fallible program: `Q` is about its results and `E` about its errors. -/
def Obeys (m : Monitor F R τ) (Q : α → τ → Prop) (E : ε → τ → Prop) (x : Action F R ε α)
    (t : τ) : Prop :=
  Prog.Obeys m (fun r t => (∀ a, r = .ok a → Q a t) ∧ ∀ e, r = .error e → E e t) x.run t

variable {m : Monitor F R τ} {Q : α → τ → Prop} {Q' : β → τ → Prop} {E : ε → τ → Prop} {t : τ}

/-- Every run of the program is a run of the monitor. -/
theorem Obeys.run {σ : Type} {h : Handler F R σ} {x : Action F R ε α} (hx : Obeys m Q E x t)
    (s : σ) :
    ∃ t', Machine.run m t (execLog h x s) = some t' ∧
      (∀ a, (exec h x s).1 = .ok a → Q a t') ∧ ∀ e, (exec h x s).1 = .error e → E e t' :=
  Prog.Obeys.run h hx s

theorem Obeys.mono {Q₁ : α → τ → Prop} {E₁ : ε → τ → Prop} {x : Action F R ε α}
    (hx : Obeys m Q E x t) (hQ : ∀ a t, Q a t → Q₁ a t) (hE : ∀ e t, E e t → E₁ e t) :
    Obeys m Q₁ E₁ x t :=
  Prog.Obeys.mono hx fun _ t h => ⟨fun a ha => hQ a t (h.1 a ha), fun e he => hE e t (h.2 e he)⟩

theorem obeys_pure {a : α} (h : Q a t) : Obeys m Q E (pure a : Action F R ε α) t :=
  ⟨fun _ ha => Except.ok.inj ha ▸ h, fun _ he => by cases he⟩

theorem obeys_throw {e : ε} (h : E e t) : Obeys m Q E (throw e : Action F R ε α) t :=
  ⟨fun _ ha => (by cases ha), fun _ he => Except.error.inj he ▸ h⟩

theorem obeys_ofResult {r : Except ε α} (hok : ∀ a, r = .ok a → Q a t)
    (herror : ∀ e, r = .error e → E e t) : Obeys m Q E (ofResult r : Action F R ε α) t :=
  ⟨hok, herror⟩

theorem obeys_call {f : F} {k : R f → Except ε α}
    (h : ∀ r, ∃ t', m t ⟨f, r⟩ = some t' ∧ (∀ a, k r = .ok a → Q a t') ∧
      ∀ e, k r = .error e → E e t') : Obeys m Q E (call f k : Action F R ε α) t := h

theorem obeys_bind {x : Action F R ε α} {g : α → Action F R ε β} (hx : Obeys m Q E x t)
    (hg : ∀ a t, Q a t → Obeys m Q' E (g a) t) : Obeys m Q' E (x >>= g) t := by
  show Prog.Obeys m _ (x.run >>= ExceptT.bindCont g) t
  refine Prog.obeys_bind hx fun r t' hr => ?_
  cases r with
  | ok a => exact hg a t' (hr.1 a rfl)
  | error e => exact ⟨fun _ ha => (by cases ha), fun _ he => Except.error.inj he ▸ hr.2 e rfl⟩

/-- The rule for a loop, where `I` is what every round keeps. -/
theorem obeys_forM {I : τ → Prop} {f : α → Action F R ε PUnit} {xs : List α}
    (hf : ∀ x ∈ xs, ∀ t, I t → Obeys m (fun _ => I) E (f x) t) (ht : I t) :
    Obeys m (fun _ => I) E (forM xs f) t := by
  induction xs generalizing t with
  | nil => exact obeys_pure ht
  | cons x xs ih =>
    rw [List.forM_cons]
    refine obeys_bind (hf x List.mem_cons_self t ht) fun _ t' ht' => ?_
    exact ih (fun y hy => hf y (List.mem_cons_of_mem x hy)) ht'

/-! ## Lists of what is done

A handler that keeps a list in its state, and the monitor that does. -/

/-- It accepts everything, and keeps the operations of one kind. -/
def recorder (P : F → Bool) : Monitor F R (List ((f : F) × R f)) := fun done e =>
  some (if P e.1 then done ++ [e] else done)

theorem run_recorder (P : F → Bool) (done events : List ((f : F) × R f)) :
    Machine.run (recorder P) done events = some (done ++ events.filter (P ·.1)) := by
  induction events generalizing done with
  | nil => exact congrArg some (List.append_nil done).symm
  | cons e events ih =>
    refine Machine.run_cons_eq_some.mpr ⟨_, rfl, ?_⟩
    rw [ih, List.filter_cons]
    split
    · rw [List.append_assoc]
      rfl
    · rfl

theorem Obeys.recorded {P : F → Bool} {Q : α → List ((f : F) × R f) → Prop}
    {E : ε → List ((f : F) × R f) → Prop} {σ : Type} {h : Handler F R σ} {x : Action F R ε α}
    (hx : Obeys (recorder P) Q E x []) (s : σ) :
    (∀ a, (exec h x s).1 = .ok a → Q a ((execLog h x s).filter (P ·.1))) ∧
      ∀ e, (exec h x s).1 = .error e → E e ((execLog h x s).filter (P ·.1)) := by
  obtain ⟨done, hrun, hok, herror⟩ := hx.run s
  rw [run_recorder, List.nil_append] at hrun
  obtain rfl := Option.some.inj hrun
  exact ⟨hok, herror⟩

end Effects
