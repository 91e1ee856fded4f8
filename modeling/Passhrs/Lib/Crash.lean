import Passhrs.Lib.Program

/-!
# Programs that may be stopped

A program logic for runs that can end after any operation: because the process dies, because the
other side goes away, or because somebody else looks. Beside what holds before and after, a triple
says what holds in every state on the way.

* **`CrashSafe`**: from a state in `P` the program goes through states in `C` only; a result comes
  with `Q`, and an error with `E`. There is one rule for each way to put programs together.
* **`Sustains`**: the triples of one invariant, with a fact about the result. Their rules are those
  of a program that never leaves the invariant.
-/

namespace Effects

variable {F : Type} {R : F → Type} {σ ε ε' α β : Type}

/-- From `P` on, every state satisfies `C`, and the last one what goes with the outcome. -/
def CrashSafe (h : Handler F R σ) (C P : σ → Prop) (Q : α → σ → Prop) (E : ε → σ → Prop)
    (x : Action F R ε α) : Prop :=
  ∀ s, P s → Passes h C x s ∧ (∀ a s', exec h x s = (.ok a, s') → Q a s') ∧
    ∀ e s', exec h x s = (.error e, s') → E e s'

variable {h : Handler F R σ} {C P : σ → Prop} {Q : α → σ → Prop} {E : ε → σ → Prop}

/-- The states of a run, whatever comes of it. -/
theorem CrashSafe.passes {x : Action F R ε α} (hx : CrashSafe h C P Q E x) {s : σ} (hs : P s) :
    ∀ t ∈ x.run.states h s, C t := (hx s hs).1

theorem CrashSafe.mono {P' : σ → Prop} {Q' : α → σ → Prop} {E' : ε → σ → Prop}
    {x : Action F R ε α} (hx : CrashSafe h C P Q E x) (hP : ∀ s, P' s → P s)
    (hQ : ∀ a s, Q a s → Q' a s) (hE : ∀ e s, E e s → E' e s) : CrashSafe h C P' Q' E' x := by
  intro s hs
  obtain ⟨hpasses, hok, herror⟩ := hx s (hP s hs)
  exact ⟨hpasses, fun a s' hrun => hQ a s' (hok a s' hrun),
    fun e s' hrun => hE e s' (herror e s' hrun)⟩

/-! ## The rules -/

theorem crash_pure {a : α} (h' : ∀ s, P s → C s ∧ Q a s) :
    CrashSafe h C P Q E (pure a : Action F R ε α) := by
  intro s hs
  refine ⟨passes_pure.mpr (h' s hs).1, fun b s' hrun => ?_, fun e s' hrun => ?_⟩
  · obtain ⟨hb, rfl⟩ := Prod.mk.inj hrun
    exact Except.ok.inj hb ▸ (h' s hs).2
  · cases (Prod.mk.inj hrun).1

theorem crash_throw {e : ε} (h' : ∀ s, P s → C s ∧ E e s) :
    CrashSafe h C P Q E (throw e : Action F R ε α) := by
  intro s hs
  refine ⟨passes_throw.mpr (h' s hs).1, fun b s' hrun => ?_, fun e' s' hrun => ?_⟩
  · cases (Prod.mk.inj hrun).1
  · obtain ⟨he, rfl⟩ := Prod.mk.inj hrun
    exact Except.error.inj he ▸ (h' s hs).2

theorem crash_ofResult {r : Except ε α} (hC : ∀ s, P s → C s)
    (hok : ∀ a s, r = .ok a → P s → Q a s) (herror : ∀ e s, r = .error e → P s → E e s) :
    CrashSafe h C P Q E (ofResult r : Action F R ε α) := by
  rcases r with e | a
  · exact crash_throw fun s hs => ⟨hC s hs, herror e s rfl hs⟩
  · exact crash_pure fun s hs => ⟨hC s hs, hok a s rfl hs⟩

theorem crash_call {f : F} {k : R f → Except ε α} (hC : ∀ s, P s → C s)
    (hstep : ∀ s, P s → C (h f s).2 ∧ (∀ a, k (h f s).1 = .ok a → Q a (h f s).2) ∧
      ∀ e, k (h f s).1 = .error e → E e (h f s).2) :
    CrashSafe h C P Q E (call f k : Action F R ε α) := by
  intro s hs
  obtain ⟨hnext, hok, herror⟩ := hstep s hs
  refine ⟨passes_call.mpr ⟨hC s hs, hnext⟩, fun a s' hrun => ?_, fun e s' hrun => ?_⟩
  · obtain ⟨ha, rfl⟩ := Prod.mk.inj hrun
    exact hok a ha
  · obtain ⟨he, rfl⟩ := Prod.mk.inj hrun
    exact herror e he

theorem crash_bind {Q' : β → σ → Prop} {x : Action F R ε α} {g : α → Action F R ε β}
    (hx : CrashSafe h C P Q E x) (hg : ∀ a, CrashSafe h C (Q a) Q' E (g a)) :
    CrashSafe h C P Q' E (x >>= g) := by
  intro s hs
  obtain ⟨hpasses, hok, herror⟩ := hx s hs
  rcases hrun : exec h x s with ⟨e | a, s₁⟩
  · rw [passes_bind_error hrun, exec_bind_error hrun]
    refine ⟨hpasses, fun b s' hrun' => ?_, fun e' s' hrun' => ?_⟩
    · cases (Prod.mk.inj hrun').1
    · obtain ⟨he, rfl⟩ := Prod.mk.inj hrun'
      exact Except.error.inj he ▸ herror e s₁ hrun
  · obtain ⟨hpasses', hrest⟩ := hg a s₁ (hok a s₁ hrun)
    rw [passes_bind_ok hrun, exec_bind_ok hrun]
    exact ⟨⟨hpasses, hpasses'⟩, hrest⟩

theorem crash_mapError {E' : ε' → σ → Prop} {f : ε → ε'} {x : Action F R ε α}
    (hx : CrashSafe h C P Q (fun e => E' (f e)) x) : CrashSafe h C P Q E' (mapError f x) := by
  intro s hs
  obtain ⟨hpasses, hok, herror⟩ := hx s hs
  rw [passes_mapError, exec_mapError]
  rcases hrun : exec h x s with ⟨e | a, s₁⟩
  · refine ⟨hpasses, fun b s' hrun' => ?_, fun e' s' hrun' => ?_⟩
    · cases (Prod.mk.inj hrun').1
    · obtain ⟨he, rfl⟩ := Prod.mk.inj hrun'
      exact Except.error.inj he ▸ herror e s₁ hrun
  · refine ⟨hpasses, fun b s' hrun' => ?_, fun e' s' hrun' => ?_⟩
    · obtain ⟨hb, rfl⟩ := Prod.mk.inj hrun'
      exact Except.ok.inj hb ▸ hok a s₁ hrun
    · cases (Prod.mk.inj hrun').1

/-- A part whose outcome is dropped leaves one thing, whatever comes of it. -/
theorem crash_ignore {I : σ → Prop} {E' : ε' → σ → Prop} {x : Action F R ε α}
    (hx : CrashSafe h C P (fun _ => I) (fun _ => I) x) :
    CrashSafe h C P (fun _ => I) E' (ignore x) := by
  intro s hs
  obtain ⟨hpasses, hok, herror⟩ := hx s hs
  rw [passes_ignore, exec_ignore]
  refine ⟨hpasses, fun b s' hrun' => ?_, fun e' s' hrun' => ?_⟩
  · obtain ⟨-, rfl⟩ := Prod.mk.inj hrun'
    rcases hrun : exec h x s with ⟨e | a, s₁⟩
    · exact herror e s₁ hrun
    · exact hok a s₁ hrun
  · cases (Prod.mk.inj hrun').1

theorem crash_attempt {E' : ε' → σ → Prop} {x : Action F R ε α} (hx : CrashSafe h C P Q E x) :
    CrashSafe h C P (fun r s => (∀ a, r = .ok a → Q a s) ∧ ∀ e, r = .error e → E e s) E'
      (attempt x) := by
  intro s hs
  obtain ⟨hpasses, hok, herror⟩ := hx s hs
  rw [passes_attempt, exec_attempt]
  refine ⟨hpasses, fun r s' hrun' => ?_, fun e' s' hrun' => ?_⟩
  · obtain ⟨hr, rfl⟩ := Prod.mk.inj hrun'
    obtain rfl := Except.ok.inj hr
    exact ⟨fun a ha => hok a _ (Prod.ext ha rfl), fun e he => herror e _ (Prod.ext he rfl)⟩
  · cases (Prod.mk.inj hrun').1

/-- What is known of a value beside the state. -/
theorem crash_assume {p : Prop} {x : Action F R ε α} (hx : p → CrashSafe h C P Q E x) :
    CrashSafe h C (fun s => P s ∧ p) Q E x := fun s hs => hx hs.2 s hs.1

theorem crash_exists {γ : Type} {P : γ → σ → Prop} {x : Action F R ε α}
    (hx : ∀ c, CrashSafe h C (P c) Q E x) : CrashSafe h C (fun s => ∃ c, P c s) Q E x :=
  fun s ⟨c, hs⟩ => hx c s hs

/-! ## Programs that keep an invariant -/

theorem Prog.Guarded.states_invariant {A : (f : F) → R f → Prop} {P : F → Prop} {Q : α → Prop}
    {I : σ → Prop} (hstep : ∀ f s, P f → I s → A f (h f s).1 ∧ I (h f s).2) {p : Prog F R α}
    (hp : Prog.Guarded A P Q p) {s : σ} (hs : I s) : ∀ t ∈ p.states h s, I t := by
  induction p generalizing s with
  | pure a =>
    intro t ht
    rwa [List.mem_singleton.mp ht]
  | op f k ih =>
    obtain ⟨hA, hI⟩ := hstep f s hp.1 hs
    exact List.forall_mem_cons.mpr ⟨hs, ih _ (hp.2 _ hA) hI⟩

/-- From `I` on, every state satisfies `I`, and a result satisfies `Q`. -/
abbrev Sustains (h : Handler F R σ) (I : σ → Prop) (Q : α → Prop) (x : Action F R ε α) : Prop :=
  CrashSafe h I I (fun a s => I s ∧ Q a) (fun _ => I) x

section Sustains

variable {I : σ → Prop} {Q : α → Prop} {Q' : β → Prop}

theorem sustains_of_emits {A : (f : F) → R f → Prop} {P : F → Prop} {Q' : α → Prop}
    {x : Action F R ε α} (hx : Emits A P Q' x)
    (hstep : ∀ f s, P f → I s → A f (h f s).1 ∧ I (h f s).2)
    (hQ : ∀ s a s', I s → exec h x s = (.ok a, s') → Q a) : Sustains h I Q x := by
  intro s hs
  have hpasses : Passes h I x s := Prog.Guarded.states_invariant hstep hx hs
  have hlast := hpasses.last
  refine ⟨hpasses, fun a s' hrun => ⟨?_, hQ s a s' hs hrun⟩, fun e s' hrun => ?_⟩
  · rwa [hrun] at hlast
  · rwa [hrun] at hlast

theorem sustains_pure {a : α} (ha : Q a) : Sustains h I Q (pure a : Action F R ε α) :=
  crash_pure fun _ hs => ⟨hs, hs, ha⟩

theorem sustains_throw {e : ε} : Sustains h I Q (throw e : Action F R ε α) :=
  crash_throw fun _ hs => ⟨hs, hs⟩

theorem sustains_ofResult {r : Except ε α} (hr : ∀ a, r = .ok a → Q a) :
    Sustains h I Q (ofResult r : Action F R ε α) :=
  crash_ofResult (fun _ hs => hs) (fun a _ ha hs => ⟨hs, hr a ha⟩) fun _ _ _ hs => hs

theorem sustains_bind {x : Action F R ε α} {g : α → Action F R ε β} (hx : Sustains h I Q x)
    (hg : ∀ a, Q a → Sustains h I Q' (g a)) : Sustains h I Q' (x >>= g) :=
  crash_bind hx fun a => crash_assume (hg a)

theorem sustains_mapError {f : ε → ε'} {x : Action F R ε α} (hx : Sustains h I Q x) :
    Sustains h I Q (mapError f x) := crash_mapError hx

/-- Nothing is known of a part whose outcome is dropped. -/
theorem sustains_ignore {x : Action F R ε α} (hx : Sustains h I Q x) :
    Sustains h I (fun _ => True) (ignore x : Action F R ε' Unit) :=
  (crash_ignore (hx.mono (fun _ hs => hs) (fun _ _ hs => hs.1) fun _ _ hs => hs)).mono
    (fun _ hs => hs) (fun _ _ hs => ⟨hs, trivial⟩) fun _ _ hs => hs

theorem sustains_attempt {x : Action F R ε α} (hx : Sustains h I Q x) :
    Sustains h I (fun r => ∀ a, r = .ok a → Q a)
      (attempt x : Action F R ε' (Except ε α)) := by
  refine (crash_attempt hx).mono (fun _ hs => hs) (fun r s hr => ?_) fun _ _ hs => hs
  cases r with
  | ok a => exact ⟨(hr.1 a rfl).1, fun b hb => (hr.1 b hb).2⟩
  | error e => exact ⟨hr.2 e rfl, fun b hb => by cases hb⟩

theorem sustains_forM {f : α → Action F R ε PUnit} {l : List α}
    (hround : ∀ x ∈ l, Sustains h I (fun _ => True) (f x)) :
    Sustains h I (fun _ => True) (forM l f) := by
  induction l with
  | nil => exact sustains_pure trivial
  | cons x l ih =>
    rw [List.forM_cons]
    exact sustains_bind (hround x List.mem_cons_self) fun _ _ =>
      ih fun y hy => hround y (List.mem_cons_of_mem x hy)

end Sustains

end Effects
